import UniversalLogin.Commons.Ens

/-!
# ENSService

The names that the relayer has registrars for (`ensService.ts`). `domainsInfo` is an object used as
a map: it also has the properties that every object inherits, and an assignment to `__proto__`
changes what it inherits. `argsFor` is about one name under a configured domain exactly for the
names of `ENSService.argsFor_agrees_iff`: a name that goes on after a line terminator is looked up
by its first line, a name without a dot by `undefined`, and an inherited property is taken for a
domain.
-/

namespace UniversalLogin

/-- The addresses of a domain, where they are defined. -/
structure DomainInfo where
  resolverAddress : Option Address
  registrarAddress : Option Address
  deriving DecidableEq

/-- An object that domains are looked up in: its own properties, the last one assigned first, and
the object that was assigned to `__proto__`. -/
structure DomainsInfo where
  own : List (JsString × DomainInfo)
  proto : Option DomainInfo
  deriving DecidableEq

namespace DomainsInfo

def protoName : JsString := "__proto__".toList

/-- The names of the properties of `Object.prototype`. All of their values are true. -/
def builtinNames : List JsString :=
  ["constructor".toList, "__defineGetter__".toList, "__defineSetter__".toList,
    "hasOwnProperty".toList, "__lookupGetter__".toList, "__lookupSetter__".toList,
    "isPrototypeOf".toList, "propertyIsEnumerable".toList, "toString".toList, "valueOf".toList,
    protoName, "toLocaleString".toList]

/-- The names of the properties of the object assigned to `__proto__`. -/
def protoNames (info : DomainsInfo) : List JsString :=
  if info.proto.isSome then ["resolverAddress".toList, "registrarAddress".toList] else []

def empty : DomainsInfo := ⟨[], none⟩

def set (info : DomainsInfo) (domain : JsString) (domainInfo : DomainInfo) : DomainsInfo :=
  if domain = protoName then { info with proto := some domainInfo }
  else { info with own := (domain, domainInfo) :: info.own }

/-- `domainsInfo[domain] || null`. What is found under an inherited name has no addresses. -/
def find (info : DomainsInfo) (domain : JsString) : Option DomainInfo :=
  if domain = protoName then some (info.proto.getD ⟨none, none⟩)
  else
    match info.own.lookup domain with
    | some domainInfo => some domainInfo
    | none => if domain ∈ builtinNames ++ info.protoNames then some ⟨none, none⟩ else none

end DomainsInfo

/-- What the service is given: the names of its registrars, the hashes of names and labels, and the
contract of the name service. -/
structure ENSService where
  ensAddress : Address
  ensRegistrars : List JsString
  namehash : JsString → Bytes32
  /-- `keccak256(toUtf8Bytes(label))` -/
  hashLabel : JsString → Bytes32
  resolver : Bytes32 → Address
  owner : Bytes32 → Address

/-- What `argsFor` returns. -/
structure EnsArgs where
  hashLabel : Bytes32
  ensName : JsString
  node : Bytes32
  ensAddress : Address
  registrarAddress : Option Address
  resolverAddress : Option Address
  deriving DecidableEq

namespace ENSService

variable (service : ENSService)

def infoOf (domain : JsString) : DomainInfo where
  resolverAddress := some (service.resolver (service.namehash domain))
  registrarAddress := some (service.owner (service.namehash domain))

/-- The domains that `start` has found. -/
def domainsInfo : DomainsInfo :=
  service.ensRegistrars.foldl (fun info domain => info.set domain (service.infoOf domain)) .empty

def findRegistrar (domain : JsString) : Option DomainInfo := service.domainsInfo.find domain

/-- A piece of a name in a template or as a key, where the missing one is `undefined`. -/
def piece (pieces : List JsString) (i : Nat) : JsString := pieces.getD i "undefined".toList

def argsFor (ensName : JsString) : Option EnsArgs :=
  let pieces := parseDomain ensName
  let label := piece pieces 0
  let domain := piece pieces 1
  let hashLabel := service.hashLabel label
  let node := service.namehash (label ++ '.' :: domain)
  match service.findRegistrar domain with
  | none => none
  | some registrarConfig => some {
      hashLabel
      ensName
      node
      ensAddress := service.ensAddress
      registrarAddress := registrarConfig.registrarAddress
      resolverAddress := registrarConfig.resolverAddress }

/-! ## What is found -/

/-- The names that are found without being configured. -/
def inheritedNames : List JsString :=
  DomainsInfo.builtinNames ++ if DomainsInfo.protoName ∈ service.ensRegistrars then
    ["resolverAddress".toList, "registrarAddress".toList] else []

end ENSService

theorem lookup_cons_eq {l : List (JsString × DomainInfo)} :
    ((domain, domainInfo) :: l).lookup name =
      if name = domain then some domainInfo else l.lookup name := by
  rw [List.lookup_cons]
  split <;> simp_all

/-- Each domain is configured with its own addresses. -/
structure DomainsInfo.Configured (f : JsString → DomainInfo) (domains : List JsString)
    (info : DomainsInfo) : Prop where
  own : ∀ name, name ≠ protoName →
    info.own.lookup name = if name ∈ domains then some (f name) else none
  proto : info.proto = if protoName ∈ domains then some (f protoName) else none

theorem DomainsInfo.Configured.set {f : JsString → DomainInfo} {domains : List JsString}
    {info : DomainsInfo} (h : info.Configured f domains) (domain : JsString) :
    (info.set domain (f domain)).Configured f (domains ++ [domain]) := by
  rw [DomainsInfo.set]
  split
  · next hdomain =>
    subst hdomain
    constructor
    · intro name hname
      rw [h.own name hname]
      simp [hname]
    · simp
  · next hdomain =>
    constructor
    · intro name hname
      rw [lookup_cons_eq, h.own name hname]
      by_cases hname : name = domain <;> simp [hname]
    · rw [h.proto]
      simp [Ne.symm hdomain]

namespace ENSService

variable {service : ENSService}

theorem configured_foldl {info : DomainsInfo} {before : List JsString}
    (h : info.Configured service.infoOf before) (domains : List JsString) :
    (domains.foldl (fun info domain => info.set domain (service.infoOf domain)) info).Configured
      service.infoOf (before ++ domains) := by
  induction domains generalizing info before with
  | nil => rwa [List.append_nil]
  | cons domain domains ih =>
    have hnext := ih (h.set domain)
    rwa [List.append_assoc] at hnext

theorem configured_domainsInfo :
    service.domainsInfo.Configured service.infoOf service.ensRegistrars := by
  have hempty : DomainsInfo.empty.Configured service.infoOf [] := ⟨fun _ _ => rfl, rfl⟩
  exact configured_foldl hempty service.ensRegistrars

/-- A configured domain is found with its addresses, and else only an inherited name is found. -/
theorem findRegistrar_eq (service : ENSService) (domain : JsString) :
    service.findRegistrar domain =
      if domain ∈ service.ensRegistrars then some (service.infoOf domain)
      else if domain ∈ service.inheritedNames then some ⟨none, none⟩ else none := by
  obtain ⟨hown, hproto⟩ : service.domainsInfo.Configured service.infoOf service.ensRegistrars :=
    configured_domainsInfo
  rw [findRegistrar, DomainsInfo.find]
  split
  · next hdomain =>
    have hbuiltin : DomainsInfo.protoName ∈ service.inheritedNames :=
      List.mem_append_left _ (by decide)
    subst hdomain
    rw [hproto]
    by_cases hmem : DomainsInfo.protoName ∈ service.ensRegistrars <;> simp [hmem, hbuiltin]
  · next hdomain =>
    have hnames : DomainsInfo.builtinNames ++ service.domainsInfo.protoNames =
        service.inheritedNames := by
      rw [DomainsInfo.protoNames, hproto, inheritedNames]
      by_cases hmem : DomainsInfo.protoName ∈ service.ensRegistrars <;> simp [hmem]
    rw [hown domain hdomain, hnames]
    by_cases hmem : domain ∈ service.ensRegistrars <;> simp [hmem]

/-- The arguments that are made of a name that is found. -/
def argsOf (service : ENSService) (ensName label domain : JsString)
    (registrarConfig : DomainInfo) : EnsArgs where
  hashLabel := service.hashLabel label
  ensName
  node := service.namehash (label ++ '.' :: domain)
  ensAddress := service.ensAddress
  registrarAddress := registrarConfig.registrarAddress
  resolverAddress := registrarConfig.resolverAddress

theorem argsFor_eq {ensName : JsString} (hlabel : piece (parseDomain ensName) 0 = label)
    (hdomain : piece (parseDomain ensName) 1 = domain) : service.argsFor ensName =
      (service.findRegistrar domain).map (service.argsOf ensName label domain) := by
  rw [argsFor, hlabel, hdomain]
  cases service.findRegistrar domain <;> rfl

/-- A name without a dot is looked up by `undefined`. -/
theorem argsFor_of_not_mem {ensName : JsString} (h : '.' ∉ ensName) :
    service.argsFor ensName = (service.findRegistrar "undefined".toList).map
      (service.argsOf ensName ensName "undefined".toList) := by
  refine argsFor_eq ?_ ?_ <;> rw [parseDomain_of_not_mem h] <;> rfl

theorem argsFor_append {label : JsString} (h : '.' ∉ label) (rest : JsString) :
    service.argsFor (label ++ '.' :: rest) = (service.findRegistrar (firstLine rest)).map
      (service.argsOf (label ++ '.' :: rest) label (firstLine rest)) := by
  refine argsFor_eq ?_ ?_ <;> rw [parseDomain_append h] <;> rfl

/-! ## Names under a domain -/

/-- A name is a label and a configured domain. -/
def Denotes (service : ENSService) (ensName label domain : JsString) : Prop :=
  ensName = label ++ '.' :: domain ∧ '.' ∉ label ∧ domain ∈ service.ensRegistrars

/-- Arguments are found for a name exactly if it is under a configured domain, and they are about
its label, the name and the domain. -/
structure Agrees (service : ENSService) (ensName : JsString) : Prop where
  found : (service.argsFor ensName).isSome ↔ ∃ label domain, service.Denotes ensName label domain
  same : ∀ args label domain,
    service.argsFor ensName = some args → service.Denotes ensName label domain →
    args.hashLabel = service.hashLabel label ∧ args.ensName = ensName ∧
      args.node = service.namehash ensName ∧ args.ensAddress = service.ensAddress ∧
      args.registrarAddress = some (service.owner (service.namehash domain)) ∧
      args.resolverAddress = some (service.resolver (service.namehash domain))

/-- What is looked up is what is configured. -/
structure Regular (service : ENSService) (ensName : JsString) : Prop where
  noDot : '.' ∉ ensName → "undefined".toList ∉ service.ensRegistrars
  oneLine : '.' ∉ label → ensName = label ++ '.' :: rest →
    (∀ c ∈ rest, isLineTerminator c = false) →
    rest ∈ service.ensRegistrars ∨ rest ∉ service.inheritedNames
  moreLines : '.' ∉ label → ensName = label ++ '.' :: rest →
    c ∈ rest → isLineTerminator c = true →
    rest ∉ service.ensRegistrars ∧ firstLine rest ∉ service.ensRegistrars ∧
      firstLine rest ∉ service.inheritedNames

theorem findRegistrar_isSome {domain : JsString} : (service.findRegistrar domain).isSome ↔
    domain ∈ service.ensRegistrars ∨ domain ∈ service.inheritedNames := by
  rw [findRegistrar_eq]
  by_cases hmem : domain ∈ service.ensRegistrars
  · simp [hmem]
  · by_cases hinherited : domain ∈ service.inheritedNames <;> simp [hmem, hinherited]

theorem undefined_not_mem_inheritedNames (service : ENSService) :
    "undefined".toList ∉ service.inheritedNames := by
  rw [inheritedNames]
  split <;> decide

/-- A name is under a configured domain if what follows its first dot is one. -/
theorem denotes_iff {label : JsString} (h : '.' ∉ label) :
    (∃ label' domain, service.Denotes (label ++ '.' :: rest) label' domain) ↔
      rest ∈ service.ensRegistrars := by
  constructor
  · rintro ⟨label', domain, heq, hlabel', hmem⟩
    obtain ⟨rfl, rfl⟩ := append_dot_inj h hlabel' heq
    exact hmem
  · exact fun hmem => ⟨label, rest, rfl, h, hmem⟩

theorem not_denotes {ensName : JsString} (h : '.' ∉ ensName) :
    ¬ ∃ label domain, service.Denotes ensName label domain := by
  rintro ⟨label, domain, rfl, _⟩
  exact h (by simp)

theorem agrees_of_not_mem_iff {ensName : JsString} (h : '.' ∉ ensName) :
    service.Agrees ensName ↔ "undefined".toList ∉ service.ensRegistrars := by
  have hinherited := undefined_not_mem_inheritedNames service
  have hfound :
      (service.argsFor ensName).isSome ↔ "undefined".toList ∈ service.ensRegistrars := by
    rw [argsFor_of_not_mem h, Option.isSome_map, findRegistrar_isSome, or_iff_left hinherited]
  constructor
  · intro hagrees hmem
    exact not_denotes h (hagrees.found.mp (hfound.mpr hmem))
  · intro hmem
    constructor
    · exact iff_of_false (fun hsome => hmem (hfound.mp hsome)) (not_denotes h)
    · intro args label domain _ hdenotes
      exact absurd ⟨label, domain, hdenotes⟩ (not_denotes h)

theorem agrees_oneLine_iff {label rest : JsString} (h : '.' ∉ label)
    (hline : ∀ c ∈ rest, isLineTerminator c = false) :
    service.Agrees (label ++ '.' :: rest) ↔
      rest ∈ service.ensRegistrars ∨ rest ∉ service.inheritedNames := by
  have hargs : service.argsFor (label ++ '.' :: rest) = _ := argsFor_append h rest
  rw [firstLine_eq_self hline] at hargs
  have hfound : (service.argsFor (label ++ '.' :: rest)).isSome ↔
      rest ∈ service.ensRegistrars ∨ rest ∈ service.inheritedNames := by
    rw [hargs, Option.isSome_map, findRegistrar_isSome]
  constructor
  · intro hagrees
    have := hfound.symm.trans (hagrees.found.trans (denotes_iff h))
    tauto
  · intro hregular
    constructor
    · rw [hfound, denotes_iff h]
      tauto
    · rintro args label' domain hsome ⟨heq, hlabel', hmem⟩
      obtain ⟨rfl, rfl⟩ := append_dot_inj h hlabel' heq
      rw [hargs, findRegistrar_eq, if_pos hmem] at hsome
      cases hsome
      exact ⟨rfl, rfl, rfl, rfl, rfl, rfl⟩

theorem agrees_moreLines_iff {label rest : JsString} (h : '.' ∉ label) (hc : c ∈ rest)
    (hline : isLineTerminator c = true)
    (hcollision : service.namehash (label ++ '.' :: firstLine rest) =
      service.namehash (label ++ '.' :: rest) →
        label ++ '.' :: firstLine rest = label ++ '.' :: rest) :
    service.Agrees (label ++ '.' :: rest) ↔ rest ∉ service.ensRegistrars ∧
      firstLine rest ∉ service.ensRegistrars ∧ firstLine rest ∉ service.inheritedNames := by
  have hargs : service.argsFor (label ++ '.' :: rest) = _ := argsFor_append h rest
  have hfound : (service.argsFor (label ++ '.' :: rest)).isSome ↔
      firstLine rest ∈ service.ensRegistrars ∨ firstLine rest ∈ service.inheritedNames := by
    rw [hargs, Option.isSome_map, findRegistrar_isSome]
  have hne : firstLine rest ≠ rest := firstLine_ne_self hc hline
  constructor
  · intro hagrees
    have hmem := hfound.symm.trans (hagrees.found.trans (denotes_iff h))
    suffices rest ∉ service.ensRegistrars by tauto
    -- a name that is found is hashed without what follows its first line
    intro hrest
    obtain ⟨args, hsome⟩ := Option.isSome_iff_exists.mp (hfound.mpr (hmem.mpr hrest))
    obtain ⟨_, _, hnode, _⟩ := hagrees.same _ _ _ hsome ⟨rfl, h, hrest⟩
    rw [hargs] at hsome
    obtain ⟨registrarConfig, _, rfl⟩ := Option.map_eq_some_iff.mp hsome
    exact hne (List.cons.inj (List.append_cancel_left (hcollision hnode))).2
  · rintro ⟨hrest, hmem, hinherited⟩
    constructor
    · rw [hfound, denotes_iff h]
      tauto
    · rintro args label' domain _ ⟨heq, hlabel', hmem'⟩
      obtain ⟨rfl, rfl⟩ := append_dot_inj h hlabel' heq
      exact absurd hmem' hrest

/-- The arguments for a name are about a name under a configured domain exactly for the regular
names, where the name that is hashed is not another one with the same hash. -/
theorem argsFor_agrees_iff {service : ENSService} {ensName : JsString}
    (hcollision : ∀ label rest, '.' ∉ label → ensName = label ++ '.' :: rest →
      service.namehash (label ++ '.' :: firstLine rest) = service.namehash ensName →
        label ++ '.' :: firstLine rest = ensName) :
    service.Agrees ensName ↔ service.Regular ensName := by
  by_cases hdot : '.' ∈ ensName
  · obtain ⟨label, rest, rfl, hlabel⟩ := List.eq_append_cons_of_mem hdot
    by_cases hline : ∀ c ∈ rest, isLineTerminator c = false
    · rw [agrees_oneLine_iff hlabel hline]
      constructor
      · intro h
        constructor
        · exact fun hnot => absurd hdot hnot
        · intro label' rest' hlabel' heq _
          obtain ⟨rfl, rfl⟩ := append_dot_inj hlabel hlabel' heq
          exact h
        · intro label' rest' c hlabel' heq hc htrue
          obtain ⟨rfl, rfl⟩ := append_dot_inj hlabel hlabel' heq
          exact absurd (hline c hc) (by simp [htrue])
      · exact fun h => h.oneLine hlabel rfl hline
    · obtain ⟨c, hc, htrue⟩ : ∃ c ∈ rest, isLineTerminator c = true := by simpa using hline
      rw [agrees_moreLines_iff hlabel hc htrue (hcollision label rest hlabel rfl)]
      constructor
      · intro h
        constructor
        · exact fun hnot => absurd hdot hnot
        · intro label' rest' hlabel' heq hline'
          obtain ⟨rfl, rfl⟩ := append_dot_inj hlabel hlabel' heq
          exact absurd hline' hline
        · intro label' rest' _ hlabel' heq _ _
          obtain ⟨rfl, rfl⟩ := append_dot_inj hlabel hlabel' heq
          exact h
      · exact fun h => h.moreLines hlabel rfl hc htrue
  · rw [agrees_of_not_mem_iff hdot]
    constructor
    · intro h
      constructor
      · exact fun _ => h
      · rintro label rest _ rfl
        exact absurd (by simp) hdot
      · rintro label rest _ _ rfl
        exact absurd (by simp) hdot
    · exact fun h => h.noDot hdot

end ENSService

namespace Sample

/-- The name of `alex` in a domain. -/
def alexAt (domain : JsString) : JsString := "alex".toList ++ '.' :: domain

/-- The hashes of the names that are looked up. -/
def namehash (name : JsString) : Bytes32 :=
  if name = alexAt "mylogin.eth".toList then
    0xefc57e2499b5d24bded22404ec0fc1529e2367af5dc15772cf703462471c41ee
  else if name = "mylogin.eth".toList then
    0x7ebd40e493d3919cf73deb1eb936043d1aa1943c2ef119aa6d4a02e41bdbc6fa
  else if name = alexAt "constructor".toList then
    0x3fbc4feb6a2c55435e8e41322cc5ca1ac0535775b7976fbcb5592f0f16e30ef9
  else if name = alexAt "mylogin.eth\nfoo".toList then
    0x14b0ce4a952c14dbdebe8f1ab02796bae596d8301533393f0145a6b2dfc3d019
  else 0

def hashLabel (label : JsString) : Bytes32 :=
  if label = "alex".toList then 0xb83330129510a2461236adc7254a3b4e2f2fa25457c7dcb82be80de0f8c96183
  else 0

/-- A service with one domain. -/
def ensService : ENSService where
  ensAddress := 1
  ensRegistrars := ["mylogin.eth".toList]
  namehash
  hashLabel
  resolver _ := 2
  owner _ := 3

theorem eq_of_alexAt {label rest domain : JsString} (hlabel : '.' ∉ label)
    (h : alexAt domain = label ++ '.' :: rest) : rest = domain :=
  (append_dot_inj (by decide) hlabel h).2.symm

end Sample

theorem argsFor_agrees_sample :
    (Sample.ensService.argsFor (Sample.alexAt "mylogin.eth".toList)).isSome := by
  have hline : ∀ c ∈ "mylogin.eth".toList, isLineTerminator c = false := by
    have hall : "mylogin.eth".toList.all (!isLineTerminator ·) = true := by decide
    intro c hc
    simpa only [Bool.not_eq_true'] using List.all_eq_true.mp hall c hc
  refine ((ENSService.argsFor_agrees_iff ?_).mpr ?_).found.mpr
    ⟨_, _, rfl, by decide, List.mem_cons_self⟩
  · intro label rest hlabel h _
    rw [firstLine_eq_self (Sample.eq_of_alexAt hlabel h ▸ hline), h]
  · constructor
    · exact fun h => absurd (by decide) h
    · intro label rest hlabel h _
      exact .inl (Sample.eq_of_alexAt hlabel h ▸ List.mem_cons_self)
    · intro label rest c hlabel h hc htrue
      rw [Sample.eq_of_alexAt hlabel h] at hc
      rw [hline c hc] at htrue
      cases htrue

/-- A property of every object is taken for a domain, and so is the first line of what follows the
dot. -/
theorem argsFor_not_agrees :
    ¬ Sample.ensService.Agrees (Sample.alexAt "constructor".toList) ∧
      ¬ Sample.ensService.Agrees (Sample.alexAt "mylogin.eth\nfoo".toList) := by
  constructor
  · intro h
    have hfound := h.found.mp (by decide)
    revert hfound
    rw [Sample.alexAt, ENSService.denotes_iff (by decide)]
    decide
  · intro h
    have hfound := h.found.mp (by decide)
    revert hfound
    rw [Sample.alexAt, ENSService.denotes_iff (by decide)]
    decide

end UniversalLogin
