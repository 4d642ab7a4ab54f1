import Mathlib.Data.List.TakeWhile
import UniversalLogin.Commons.Messages

/-!
# WalletSelectionService

The names that are suggested for a partly typed one (`WalletSelectionService.ts`): those on which a
wallet exists and those that can be created. They should be the names on the configured domains that
begin with what was typed. With two dots typed this is decided by the length of what follows the
second one, and the suggestions are right only under a condition on the domains
(`getSuggestions_eq_iff`).
-/

namespace UniversalLogin

structure Suggestions where
  connections : List JsString
  creations : List JsString
  deriving DecidableEq

def ensDomains : List JsString := ["mylogin.eth".toList]

structure WalletSelectionService where
  walletContractExist : JsString → Bool
  domains : List JsString := ensDomains

/-- `\w` -/
def isWordChar (c : Char) : Bool := c.isAlphanum || c == '_'

/-- `[\w-]` -/
def isWordOrDash (c : Char) : Bool := isWordChar c || c == '-'

/-- `/^\w[\w-]*$/` -/
def isLabel : JsString → Bool
  | [] => false
  | c :: cs => isWordChar c && cs.all isWordOrDash

namespace WalletSelectionService

variable (service : WalletSelectionService)

def isCorrectDomainPrefix (domain : JsString) : Bool :=
  decide (0 < (service.domains.filter fun element => domain.isPrefixOf element).length)

def isCorrectTld (tld : JsString) : Bool :=
  tld.isPrefixOf "test".toList || tld.isPrefixOf "eth".toList || tld.isPrefixOf "xyz".toList

def isCorrectPrefix (namePrefix : JsString) : Bool :=
  let splitted := namePrefix.splitOn '.'
  if splitted.length = 0 ∨ 3 < splitted.length then false
  else if !isLabel (splitted.getD 0 []) then false
  else if 1 < splitted.length ∧ !(splitted.getD 1 []).all isWordOrDash then
    service.isCorrectDomainPrefix (splitted.getD 1 [])
  else if 2 < splitted.length then
    if (splitted.getD 1 []).length = 0 then false else isCorrectTld (splitted.getD 2 [])
  else true

/-- The loop over the domains, with what it has found. -/
def splitLoop (found : Suggestions) : List JsString → Suggestions
  | [] => found
  | domain :: domains =>
    if service.walletContractExist domain then
      splitLoop { found with connections := found.connections ++ [domain] } domains
    else splitLoop { found with creations := found.creations ++ [domain] } domains

def splitByExistence (domains : List JsString) : Suggestions := service.splitLoop ⟨[], []⟩ domains

def getSuggestionsForNodePrefix (nodePrefix : JsString) : Suggestions :=
  service.splitByExistence (service.domains.map fun domain => nodePrefix ++ '.' :: domain)

def getSuggestionsForNodeAndSldPrefix (node sldPrefix : JsString) : Suggestions :=
  service.splitByExistence
    ((service.domains.filter fun domain => sldPrefix.isPrefixOf domain).map fun domain =>
      node ++ '.' :: domain)

/-- `none` where the function returns `undefined`. -/
def getSuggestions (namePrefix : JsString) : Option Suggestions :=
  let splitted := namePrefix.splitOn '.'
  let name := splitted.getD 0 []
  let domain := splitted.getD 1 []
  let tld := splitted.getD 2 []
  if !service.isCorrectPrefix namePrefix then some ⟨[], []⟩
  else if splitted.length = 1 then some (service.getSuggestionsForNodePrefix namePrefix)
  else if splitted.length = 2 then
    some (if service.isCorrectDomainPrefix domain then
      service.getSuggestionsForNodeAndSldPrefix name domain else ⟨[], []⟩)
  else if splitted.length = 3 then
    if !service.isCorrectDomainPrefix (domain ++ ['.']) then some ⟨[], []⟩
    else if isCorrectTld tld then
      if tld.length < 3 then some (service.getSuggestionsForNodeAndSldPrefix name domain)
      else some (if service.walletContractExist namePrefix then ⟨[namePrefix], []⟩
        else ⟨[], [namePrefix]⟩)
    else none
  else none

/-! ## The prefix rule -/

/-- The names on the configured domains that begin with what was typed. The label is the text before
its first dot. -/
def offered (namePrefix : JsString) : List JsString :=
  (service.domains.map fun domain => namePrefix.takeWhile (· ≠ '.') ++ '.' :: domain).filter
    fun name => namePrefix.isPrefixOf name

/-- What is to be suggested. -/
def expected (namePrefix : JsString) : Suggestions :=
  if service.isCorrectPrefix namePrefix then
    ⟨(service.offered namePrefix).filter service.walletContractExist,
      (service.offered namePrefix).filter fun name => !service.walletContractExist name⟩
  else ⟨[], []⟩

/-- The domain is of the form `sld.tld`. -/
def IsDomain (domain : JsString) : Prop :=
  ∃ sld tld : JsString, domain = sld ++ '.' :: tld ∧ (∀ c ∈ sld, isWordOrDash c = true) ∧
    ∀ c ∈ tld, isWordOrDash c = true

/-- With two dots typed: up to two characters after the second one, every domain that begins with
the part between the dots also begins with the rest; with more, just one domain begins with both,
and it is what was typed. -/
structure Determined (domain tld : JsString) : Prop where
  short : tld.length < 3 → ∀ d ∈ service.domains, domain <+: d → domain ++ '.' :: tld <+: d
  full : 3 ≤ tld.length →
    (service.domains.filter fun d => (domain ++ '.' :: tld).isPrefixOf d) = [domain ++ '.' :: tld]

/-- The prefix is refused, has at most one dot, or no domain begins with its second part and the
dot after it; or what it begins with is determined. -/
def PrefixDetermined (namePrefix : JsString) : Prop :=
  ∀ name domain tld, namePrefix.splitOn '.' = [name, domain, tld] →
    service.isCorrectPrefix namePrefix = true →
    service.isCorrectDomainPrefix (domain ++ ['.']) = true → service.Determined domain tld

variable {service} {name domain tld rest : JsString}

theorem splitLoop_eq {found : Suggestions} {domains : List JsString} :
    service.splitLoop found domains =
      ⟨found.connections ++ domains.filter service.walletContractExist,
        found.creations ++ domains.filter fun d => !service.walletContractExist d⟩ := by
  induction domains generalizing found with
  | nil => simp [splitLoop]
  | cons d domains ih =>
    rw [splitLoop]
    cases hd : service.walletContractExist d <;> simp [ih, hd]

theorem splitByExistence_eq {domains : List JsString} : service.splitByExistence domains =
    ⟨domains.filter service.walletContractExist,
      domains.filter fun d => !service.walletContractExist d⟩ := splitLoop_eq

/-- The two lists together are as long as the list they were split from. -/
theorem length_of_splitByExistence {l l' : List JsString}
    (h : service.splitByExistence l = service.splitByExistence l') : l.length = l'.length := by
  have hlength : ∀ l : List JsString, l.length =
      (service.splitByExistence l).connections.length +
        (service.splitByExistence l).creations.length := by
    intro l
    rw [splitByExistence_eq, List.length_eq_length_filter_add service.walletContractExist]
  rw [hlength l, hlength l', h]

theorem splitByExistence_singleton {l : List JsString} :
    service.splitByExistence l = service.splitByExistence [name] ↔ l = [name] := by
  constructor
  · intro h
    obtain ⟨other, rfl⟩ := List.length_eq_one_iff.mp (length_of_splitByExistence h)
    rw [splitByExistence_eq, splitByExistence_eq] at h
    cases hname : service.walletContractExist name <;>
      cases hother : service.walletContractExist other <;> simp_all
  · rintro rfl
    rfl

theorem expected_eq : service.expected namePrefix =
    if service.isCorrectPrefix namePrefix then
      service.splitByExistence (service.offered namePrefix) else ⟨[], []⟩ := by
  rw [expected, splitByExistence_eq]

theorem isCorrectDomainPrefix_iff :
    service.isCorrectDomainPrefix domain = true ↔ ∃ d ∈ service.domains, domain <+: d := by
  simp [isCorrectDomainPrefix, List.length_pos_iff_exists_mem]

/-- The label ends at the first dot. -/
theorem takeWhile_label (hname : '.' ∉ name) :
    (name ++ '.' :: rest).takeWhile (· ≠ '.') = name := by
  have hlabel : ∀ c ∈ name, decide (c ≠ '.') = true := by
    intro c hc
    rw [decide_eq_true_eq]
    rintro rfl
    exact hname hc
  rw [List.takeWhile_append_of_pos hlabel]
  simp

/-- The names that begin with a label and what follows its dot. -/
theorem offered_eq (hname : '.' ∉ name) : service.offered (name ++ '.' :: rest) =
    (service.domains.filter fun d => rest.isPrefixOf d).map fun d => name ++ '.' :: d := by
  rw [offered, takeWhile_label hname, List.filter_map]
  congr 2
  funext d
  rw [Bool.eq_iff_iff]
  simp [List.prefix_append_right_inj]

/-- Names on different domains are different. -/
theorem append_dot_injective : Function.Injective fun d : JsString => name ++ '.' :: d := by
  intro d d' h
  exact (List.cons.inj (List.append_cancel_left h)).2

/-- What is refused gets no suggestions, as it should. -/
theorem getSuggestions_of_refused (h : service.isCorrectPrefix namePrefix = false) :
    service.getSuggestions namePrefix = some (service.expected namePrefix) := by
  simp [getSuggestions, expected, h]

/-! ## Without a dot and with one -/

theorem offered_one (hname : '.' ∉ name) :
    service.offered name = service.domains.map fun d => name ++ '.' :: d := by
  have hlabel : name.takeWhile (· ≠ '.') = name := by
    rw [List.takeWhile_eq_self_iff]
    intro c hc
    rw [decide_eq_true_eq]
    rintro rfl
    exact hname hc
  rw [offered, hlabel, List.filter_eq_self]
  intro other hother
  obtain ⟨d, _, rfl⟩ := List.mem_map.mp hother
  simp

theorem getSuggestions_one (hname : '.' ∉ name) :
    service.getSuggestions name = some (service.expected name) := by
  cases haccepted : service.isCorrectPrefix name with
  | false => exact getSuggestions_of_refused haccepted
  | true =>
    rw [expected_eq, offered_one hname]
    simp [getSuggestions, haccepted, List.splitOn_eq_singleton hname, getSuggestionsForNodePrefix]

/-- What is left of a domain of the form `sld.tld` does not begin with other characters. -/
theorem all_isWordOrDash (hform : ∀ d ∈ service.domains, IsDomain d) (hdomain : '.' ∉ domain)
    (h : service.isCorrectDomainPrefix domain = true) : domain.all isWordOrDash = true := by
  obtain ⟨d, hd, hpre⟩ := isCorrectDomainPrefix_iff.mp h
  obtain ⟨sld, tld, rfl, hsld, htld⟩ := hform d hd
  rw [List.all_eq_true]
  intro c hc
  rcases List.mem_append.mp (hpre.subset hc) with hmem | hmem
  · exact hsld c hmem
  · rcases List.mem_cons.mp hmem with rfl | hmem
    · exact absurd hc hdomain
    · exact htld c hmem

theorem splitOn_two (hname : '.' ∉ name) (hdomain : '.' ∉ domain) :
    (name ++ '.' :: domain).splitOn '.' = [name, domain] := by
  rw [List.splitOn_append_cons_self_of_not_mem hname, List.splitOn_eq_singleton hdomain]

/-- With one dot, the domains that begin with the second part are those that are expected. -/
theorem getSuggestions_two (hname : '.' ∉ name) (hdomain : '.' ∉ domain) :
    service.getSuggestions (name ++ '.' :: domain) =
      some (service.expected (name ++ '.' :: domain)) := by
  have hsplit := splitOn_two hname hdomain
  cases haccepted : service.isCorrectPrefix (name ++ '.' :: domain) with
  | false => exact getSuggestions_of_refused haccepted
  | true =>
    have hget : service.getSuggestions (name ++ '.' :: domain) =
        some (if service.isCorrectDomainPrefix domain then
          service.getSuggestionsForNodeAndSldPrefix name domain else ⟨[], []⟩) := by
      simp [getSuggestions, haccepted, hsplit]
    rw [hget, expected_eq, if_pos haccepted, offered_eq hname]
    cases hcorrect : service.isCorrectDomainPrefix domain with
    | true => rfl
    | false =>
      have hnone : (service.domains.filter fun d => domain.isPrefixOf d) = [] := by
        rw [← List.length_eq_zero_iff]
        simpa [isCorrectDomainPrefix] using hcorrect
      rw [hnone]
      rfl

/-! ## With two dots -/

theorem splitOn_three (hname : '.' ∉ name) (hdomain : '.' ∉ domain) (htld : '.' ∉ tld) :
    (name ++ '.' :: (domain ++ '.' :: tld)).splitOn '.' = [name, domain, tld] := by
  rw [List.splitOn_append_cons_self_of_not_mem hname,
    List.splitOn_append_cons_self_of_not_mem hdomain, List.splitOn_eq_singleton htld]

/-- What is accepted ends in the beginning of a top-level domain. -/
theorem isCorrectTld_of_isCorrectPrefix (hform : ∀ d ∈ service.domains, IsDomain d)
    (hdomain : '.' ∉ domain) (hsplit : namePrefix.splitOn '.' = [name, domain, tld])
    (haccepted : service.isCorrectPrefix namePrefix = true) : isCorrectTld tld = true := by
  cases hall : domain.all isWordOrDash with
  | true => simp_all [isCorrectPrefix]
  | false =>
    have hother : ∃ c ∈ domain, isWordOrDash c = false := by simpa using hall
    have hboth : isLabel name = true ∧ service.isCorrectDomainPrefix domain = true := by
      simpa [isCorrectPrefix, hsplit, hother] using haccepted
    rw [all_isWordOrDash hform hdomain hboth.2] at hall
    cases hall

/-- As many texts begin with the longer one as with the shorter if all that begin with the shorter
one do. -/
theorem length_filter_prefix_iff {short long : JsString} (hlong : short <+: long)
    {l : List JsString} :
    (l.filter fun d => short.isPrefixOf d).length = (l.filter fun d => long.isPrefixOf d).length ↔
      ∀ d ∈ l, short <+: d → long <+: d := by
  have hsub : (l.filter fun d => long.isPrefixOf d).Sublist
      (l.filter fun d => short.isPrefixOf d) :=
    List.monotone_filter_right l fun d hd => by
      rw [List.isPrefixOf_iff_prefix] at hd ⊢
      exact hlong.trans hd
  constructor
  · intro hlength d hd hshort
    have hmem : d ∈ l.filter fun d => short.isPrefixOf d :=
      List.mem_filter.mpr ⟨hd, List.isPrefixOf_iff_prefix.mpr hshort⟩
    rw [← hsub.eq_of_length hlength.symm] at hmem
    exact List.isPrefixOf_iff_prefix.mp (List.mem_filter.mp hmem).2
  · intro h
    rw [List.filter_congr fun d hd => ?_]
    rw [Bool.eq_iff_iff, List.isPrefixOf_iff_prefix, List.isPrefixOf_iff_prefix]
    exact ⟨h d hd, hlong.trans⟩

theorem getSuggestions_three (hform : ∀ d ∈ service.domains, IsDomain d)
    (hname : '.' ∉ name) (hdomain : '.' ∉ domain) (htld : '.' ∉ tld)
    (haccepted : service.isCorrectPrefix (name ++ '.' :: (domain ++ '.' :: tld)) = true)
    (hcorrect : service.isCorrectDomainPrefix (domain ++ ['.']) = true) :
    service.getSuggestions (name ++ '.' :: (domain ++ '.' :: tld)) =
        some (service.expected (name ++ '.' :: (domain ++ '.' :: tld))) ↔
      service.Determined domain tld := by
  have hsplit := splitOn_three hname hdomain htld
  have hcorrectTld := isCorrectTld_of_isCorrectPrefix hform hdomain hsplit haccepted
  have hget : service.getSuggestions (name ++ '.' :: (domain ++ '.' :: tld)) =
      some (if tld.length < 3 then service.getSuggestionsForNodeAndSldPrefix name domain
        else service.splitByExistence [name ++ '.' :: (domain ++ '.' :: tld)]) := by
    simp [getSuggestions, haccepted, hsplit, hcorrect, hcorrectTld, splitByExistence, splitLoop]
    split <;> rfl
  rw [hget, expected_eq, if_pos haccepted, offered_eq hname, Option.some_inj]
  by_cases hshort : tld.length < 3
  · rw [if_pos hshort, getSuggestionsForNodeAndSldPrefix]
    have hlong : domain <+: domain ++ '.' :: tld := List.prefix_append ..
    constructor
    · intro h
      refine ⟨fun _ => ?_, fun hfull => absurd hshort (by omega)⟩
      rw [← length_filter_prefix_iff hlong]
      simpa using length_of_splitByExistence h
    · intro h
      congr 2
      refine List.filter_congr fun d hd => ?_
      rw [Bool.eq_iff_iff, List.isPrefixOf_iff_prefix, List.isPrefixOf_iff_prefix]
      exact ⟨h.short hshort d hd, hlong.trans⟩
  · rw [if_neg hshort, eq_comm, splitByExistence_singleton]
    have hsingle : [name ++ '.' :: (domain ++ '.' :: tld)] =
        [domain ++ '.' :: tld].map fun d => name ++ '.' :: d := rfl
    rw [hsingle, (List.map_injective_iff.mpr append_dot_injective).eq_iff]
    exact ⟨fun h => ⟨fun h3 => absurd h3 hshort, fun _ => h⟩, fun h => h.full (by omega)⟩

theorem prefixDetermined_of_length {parts : List JsString} (hsplit : namePrefix.splitOn '.' = parts)
    (hlength : parts.length ≠ 3) : service.PrefixDetermined namePrefix := by
  intro name domain tld hthree _ _
  rw [hsplit] at hthree
  exact absurd (congrArg List.length hthree) hlength

theorem prefixDetermined_three (hname : '.' ∉ name) (hdomain : '.' ∉ domain) (htld : '.' ∉ tld) :
    service.PrefixDetermined (name ++ '.' :: (domain ++ '.' :: tld)) ↔
      (service.isCorrectPrefix (name ++ '.' :: (domain ++ '.' :: tld)) = true →
        service.isCorrectDomainPrefix (domain ++ ['.']) = true →
        service.Determined domain tld) := by
  have hsplit := splitOn_three hname hdomain htld
  constructor
  · exact fun h => h name domain tld hsplit
  · intro h name' domain' tld' hsplit'
    rw [hsplit] at hsplit'
    cases hsplit'
    exact h

/-- Nothing is suggested, and nothing should be, where no domain begins with the second part and the
dot after it. -/
theorem getSuggestions_three_of_none (hname : '.' ∉ name) (hdomain : '.' ∉ domain)
    (htld : '.' ∉ tld)
    (haccepted : service.isCorrectPrefix (name ++ '.' :: (domain ++ '.' :: tld)) = true)
    (hcorrect : service.isCorrectDomainPrefix (domain ++ ['.']) = false) :
    service.getSuggestions (name ++ '.' :: (domain ++ '.' :: tld)) =
      some (service.expected (name ++ '.' :: (domain ++ '.' :: tld))) := by
  have hnone : (service.domains.filter fun d => (domain ++ '.' :: tld).isPrefixOf d) = [] := by
    rw [List.filter_eq_nil_iff]
    intro d hd hlong
    have hdot : domain ++ ['.'] <+: domain ++ '.' :: tld :=
      (List.prefix_append_right_inj domain).mpr (List.prefix_append ['.'] tld)
    have hsome := isCorrectDomainPrefix_iff.mpr
      ⟨d, hd, hdot.trans (List.isPrefixOf_iff_prefix.mp hlong)⟩
    rw [hcorrect] at hsome
    cases hsome
  rw [expected_eq, if_pos haccepted, offered_eq hname, hnone]
  simp [getSuggestions, haccepted, splitOn_three hname hdomain htld, hcorrect, splitByExistence,
    splitLoop]

theorem isCorrectPrefix_of_dots (service : WalletSelectionService) (rest : JsString)
    (hname : '.' ∉ name) (hdomain : '.' ∉ domain) (htld : '.' ∉ tld) :
    service.isCorrectPrefix (name ++ '.' :: (domain ++ '.' :: (tld ++ '.' :: rest))) = false := by
  have hrest : 0 < (rest.splitOn '.').length := List.length_pos_iff.mpr (by simp)
  rw [isCorrectPrefix, List.splitOn_append_cons_self_of_not_mem hname,
    List.splitOn_append_cons_self_of_not_mem hdomain, List.splitOn_append_cons_self_of_not_mem htld]
  refine if_pos (.inr ?_)
  simp only [List.length_cons]
  omega

/-- A text has no dot or falls into the parts before and after the first one. -/
theorem exists_first_dot (s : JsString) :
    '.' ∉ s ∨ ∃ part rest, '.' ∉ part ∧ s = part ++ '.' :: rest := by
  by_cases h : '.' ∈ s
  · obtain ⟨part, rest, rfl, hpart⟩ := List.eq_append_cons_of_mem h
    exact .inr ⟨part, rest, hpart, rfl⟩
  · exact .inl h

/-- The suggestions are the names on the configured domains that begin with what was typed exactly
where the code that counts dots and characters determines them. -/
theorem getSuggestions_eq_iff (hform : ∀ d ∈ service.domains, IsDomain d)
    (namePrefix : JsString) :
    service.getSuggestions namePrefix = some (service.expected namePrefix) ↔
      service.PrefixDetermined namePrefix := by
  rcases exists_first_dot namePrefix with hnone | ⟨name, rest, hname, rfl⟩
  · exact iff_of_true (getSuggestions_one hnone)
      (prefixDetermined_of_length (List.splitOn_eq_singleton hnone) (by simp))
  rcases exists_first_dot rest with hdomain | ⟨domain, rest, hdomain, rfl⟩
  · have hsplit := splitOn_two hname hdomain
    exact iff_of_true (getSuggestions_two hname hdomain)
      (prefixDetermined_of_length hsplit (by simp))
  rcases exists_first_dot rest with htld | ⟨tld, rest, htld, rfl⟩
  · rw [prefixDetermined_three hname hdomain htld]
    cases haccepted : service.isCorrectPrefix (name ++ '.' :: (domain ++ '.' :: rest)) with
    | false => exact iff_of_true (getSuggestions_of_refused haccepted) fun h => by cases h
    | true =>
      cases hcorrect : service.isCorrectDomainPrefix (domain ++ ['.']) with
      | false =>
        exact iff_of_true (getSuggestions_three_of_none hname hdomain htld haccepted hcorrect)
          fun _ h => by cases h
      | true =>
        rw [getSuggestions_three hform hname hdomain htld haccepted hcorrect]
        exact ⟨fun h _ _ => h, fun h => h rfl rfl⟩
  · have hrefused := isCorrectPrefix_of_dots service rest hname hdomain htld
    refine iff_of_true (getSuggestions_of_refused hrefused) fun _ _ _ _ haccepted => ?_
    rw [hrefused] at haccepted
    cases haccepted

/-- A service for one domain, on which no wallet exists. -/
def sample : WalletSelectionService := ⟨fun _ => false, ["my.eth".toList]⟩

theorem isDomain_sample : ∀ d ∈ sample.domains, IsDomain d := by
  intro d hd
  obtain rfl := List.mem_singleton.mp hd
  exact ⟨"my".toList, "eth".toList, rfl, List.all_eq_true.mp (by decide),
    List.all_eq_true.mp (by decide)⟩

/-- The first letters of the domain are completed. -/
theorem getSuggestions_eq_iff_sample :
    sample.getSuggestions "a.my.e".toList = some ⟨[], ["a.my.eth".toList]⟩ ∧
      sample.PrefixDetermined "a.my.e".toList :=
  ⟨by decide, (getSuggestions_eq_iff isDomain_sample _).mp (by decide)⟩

/-- A name on a domain that is not configured is offered for creation. -/
theorem getSuggestions_unsupported :
    (∀ d ∈ sample.domains, IsDomain d) ∧ sample.isCorrectPrefix "a.my.xyz".toList = true ∧
      sample.getSuggestions "a.my.xyz".toList = some ⟨[], ["a.my.xyz".toList]⟩ ∧
      sample.getSuggestions "a.my.xyz".toList ≠ some (sample.expected "a.my.xyz".toList) :=
  ⟨isDomain_sample, by decide, by decide, by decide⟩

end WalletSelectionService

end UniversalLogin
