import UniversalLogin.Relayer.Acceptance
import UniversalLogin.Relayer.CallLogs

/-!
# Two calls with the signatures of one message

Two calls of `add` bring the signatures of two keys for the same message. The tables are a function
of what the two calls have done so far (`Progress`): whether there is a row of the message, which
signatures are stored and in which order, and what was handed over. A query is rejected here only
where a constraint of the tables makes it fail (`Query.Reliably`). The rules `goes_*` say what a
call can be told on its way, whatever the other one does in between.
-/

namespace UniversalLogin

open Async Labelled

/-- A query is rejected only where it has no effect. -/
def Query.Reliably (wallets : Address → Option Storage) (q : Query) (db : Database) :
    Except JsError q.Answer → Database → Prop
  | .ok a, db' => q.Effect wallets db a db'
  | .error _, db' => db' = db ∧ ∀ a db', ¬ q.Effect wallets db a db'

theorem Query.exists_reliably (wallets : Address → Option Storage) (q : Query) (db : Database) :
    ∃ r db', q.Reliably wallets db r db' := by
  by_cases h : ∃ a db', q.Effect wallets db a db'
  · obtain ⟨a, db', h⟩ := h
    exact ⟨.ok a, db', h⟩
  · exact ⟨.error (.thrown ""), db, rfl, fun a db' heffect => h ⟨a, db', heffect⟩⟩

/-- The pairs were read after a signature of the message had been stored. -/
def Log.ReadSince (log : Log) (messageHash : Bytes32) (pairs : List CollectedSignatureKeyPair) :
    Prop :=
  ∃ front back : Log, log = front ++ told (.selectSignatureKeyPairs messageHash) pairs :: back ∧
    front.Stores messageHash

theorem Log.Stores.readSince {log : Log} (h : log.Stores messageHash) :
    (log ++ [told (.selectSignatureKeyPairs messageHash) pairs]).ReadSince messageHash pairs :=
  ⟨log, [], rfl, h⟩

theorem Log.readSince_concat {log : Log}
    (h : (log ++ [e]).ReadSince messageHash pairs) : log.ReadSince messageHash pairs ∨
      log.Stores messageHash ∧ e = told (.selectSignatureKeyPairs messageHash) pairs := by
  obtain ⟨front, back, heq, hstores⟩ := h
  rcases List.eq_nil_or_concat back with rfl | ⟨back, e', rfl⟩
  · obtain ⟨rfl, he⟩ := List.append_inj' heq rfl
    exact .inr ⟨hstores, List.singleton_inj.mp he⟩
  · rw [List.concat_eq_append, ← List.cons_append, ← List.append_assoc] at heq
    exact .inl ⟨front, back, (List.append_inj' heq rfl).1, hstores⟩

theorem Log.ReadSince.of_prefix {log log' : Log} (h : log.ReadSince messageHash pairs)
    (hpre : log <+: log') : log'.ReadSince messageHash pairs := by
  obtain ⟨front, back, rfl, hstores⟩ := h
  obtain ⟨back', rfl⟩ := hpre
  exact ⟨front, back ++ back', by simp, hstores⟩

theorem Log.Stores.mono {log log' : Log} (h : log.Stores messageHash) (hsub : log ⊆ log') :
    log'.Stores messageHash := by
  obtain ⟨row, hrow, hmem⟩ := h
  exact ⟨row, hrow, hsub hmem⟩

/-- A message with valid signatures of registered keys of its wallet. -/
structure Cosigned (ethers : Ethers) (wallets : Address → Option Storage) where
  unsigned : UnsignedMessage
  messageHash : Bytes32
  hash_eq : calculateMessageHash ethers.crypto unsigned = .ok messageHash
  wallet : Storage
  wallet_eq : (toAddress unsigned.from_).bind wallets = some wallet
  signature : Bool → JsString
  key : Bool → JsString
  key_eq : ∀ p, getKeyFromHashAndSignature ethers messageHash (signature p) = .ok (key p)
  removePrefix_eq : ∀ p, ∃ digits, removePrefix (signature p) = .ok digits
  registered : ∀ p, ∃ k, toAddress (key p) = some k ∧ wallet.getKeyPurpose k ≠ invalidKey

/-- What two calls of `add` have done. -/
structure Progress where
  /-- There is a row of the message. -/
  created : Bool
  /-- The calls that have stored their signatures, in order. -/
  stored : List Bool
  /-- The calls that have handed the message over, each with the final message and the time. -/
  queued : List (Bool × SignedMessage × Nat)

theorem exists_mapM_ok {f : α → Except String β} {as : List α} (h : ∀ a ∈ as, ∃ b, f a = .ok b) :
    ∃ bs, as.mapM f = .ok bs := by
  induction as with
  | nil => exact ⟨[], rfl⟩
  | cons a as ih =>
    obtain ⟨b, hb⟩ := h a List.mem_cons_self
    obtain ⟨bs, hbs⟩ := ih fun a ha => h a (List.mem_cons_of_mem _ ha)
    exact ⟨b :: bs, by simp [hb, hbs, except_bind_eq_ok]⟩

/-- What is done stays done. -/
structure Progress.Le (a a' : Progress) : Prop where
  created : a.created = true → a'.created = true
  stored : a.stored <+: a'.stored

namespace Cosigned

variable {ethers : Ethers} {wallets : Address → Option Storage} (c : Cosigned ethers wallets)

def message (p : Bool) : SignedMessage := { c.unsigned with signature := c.signature p }

/-- The calls, before their first steps. -/
def adds : Bool → ServiceCall MessageStatus :=
  begin fun p => PendingMessages.add ethers (c.message p)

def messageRow : MessageRow := ⟨c.messageHash, none, c.unsigned.from_⟩

def pair (p : Bool) : CollectedSignatureKeyPair := ⟨c.key p, c.signature p⟩

def row (p : Bool) : SignatureKeyPairRow := ⟨c.pair p, c.messageHash⟩

def finalRow (submission : Bool × SignedMessage × Nat) : FinalMessageRow :=
  ⟨c.messageHash, stringifySignedMessageFields submission.2.1, none, none, submission.2.2⟩

/-- The store does not have the message. -/
structure Absent (db : Database) : Prop where
  messages : ∀ r ∈ db.messages, r.messageHash ≠ c.messageHash
  signatureKeyPairs : ∀ r ∈ db.signatureKeyPairs, r.messageHash ≠ c.messageHash
  finalMessages : ∀ r ∈ db.finalMessages, r.messageHash ≠ c.messageHash

/-- The tables after what the two calls have done to `db`. -/
def database (db : Database) (a : Progress) : Database :=
  { db with
    messages := db.messages ++ if a.created then [c.messageRow] else []
    signatureKeyPairs := db.signatureKeyPairs ++ a.stored.map c.row
    finalMessages := db.finalMessages ++ a.queued.map c.finalRow }

theorem database_idle (db : Database) : c.database db ⟨false, [], []⟩ = db := by
  simp [database]

/-! ## What the queries of the calls find -/

section
variable {c} {db : Database} (hnew : c.Absent db) {a : Progress}
include hnew

theorem find_messages : (c.database db a).messages.find? (·.messageHash = c.messageHash) =
    if a.created then some c.messageRow else none := by
  have hnone : db.messages.find? (·.messageHash = c.messageHash) = none :=
    List.find?_eq_none.mpr fun r hr => by simpa using hnew.messages r hr
  rw [database, List.find?_append, hnone]
  cases a.created <;> simp [messageRow]

theorem collected_database :
    (c.database db a).collected c.messageHash = a.stored.map c.pair := by
  have hnone : db.signatureKeyPairs.filter (·.messageHash = c.messageHash) = [] :=
    List.filter_eq_nil_iff.mpr fun r hr => by simpa using hnew.signatureKeyPairs r hr
  have hall : (a.stored.map c.row).filter (·.messageHash = c.messageHash) = a.stored.map c.row :=
    List.filter_eq_self.mpr fun r hr => by
      obtain ⟨p, _, rfl⟩ := List.mem_map.mp hr
      simp [row]
  rw [Database.collected, database, List.filter_append, hnone, hall, List.nil_append, List.map_map]
  rfl

theorem find_signatureKeyPairs {s : JsString} : (c.database db a).signatureKeyPairs.find?
      (fun r => r.messageHash = c.messageHash ∧ r.signature = s) =
    (a.stored.find? (c.signature · = s)).map c.row := by
  have hnone : db.signatureKeyPairs.find?
      (fun r => r.messageHash = c.messageHash ∧ r.signature = s) = none :=
    List.find?_eq_none.mpr fun r hr => by simp [hnew.signatureKeyPairs r hr]
  rw [database, List.find?_append, hnone, Option.none_or, List.find?_map]
  refine congrArg (fun f => (a.stored.find? f).map c.row) (funext fun p => ?_)
  change decide (c.messageHash = c.messageHash ∧ c.signature p = s) = decide (c.signature p = s)
  simp

end

/-- The wallet answers for the message. -/
theorem requires_iff : Query.Requires wallets c.unsigned.from_ n ↔ n = c.wallet.requiredSignatures := by
  obtain ⟨wallet, haddress, hwallet⟩ := Option.bind_eq_some_iff.mp c.wallet_eq
  constructor
  · rintro ⟨wallet', haddress', h⟩
    cases haddress.symm.trans haddress'
    exact h _ hwallet
  · rintro rfl
    refine ⟨wallet, haddress, fun s hs => ?_⟩
    cases hwallet.symm.trans hs
    rfl

theorem exists_hasPurpose (p : Bool) :
    ∃ purpose, Query.HasPurpose wallets c.unsigned.from_ (c.key p) purpose := by
  obtain ⟨wallet, haddress, hwallet⟩ := Option.bind_eq_some_iff.mp c.wallet_eq
  obtain ⟨k, hkey, _⟩ := c.registered p
  refine ⟨c.wallet.getKeyPurpose k, wallet, k, haddress, hkey, fun s hs => ?_⟩
  cases hwallet.symm.trans hs
  rfl

theorem purpose_ne (h : Query.HasPurpose wallets c.unsigned.from_ (c.key p) purpose) :
    purpose ≠ invalidKey := by
  obtain ⟨wallet, haddress, hwallet⟩ := Option.bind_eq_some_iff.mp c.wallet_eq
  obtain ⟨k, hkey, hregistered⟩ := c.registered p
  obtain ⟨wallet', k', haddress', hkey', hpurpose⟩ := h
  cases haddress.symm.trans haddress'
  cases hkey.symm.trans hkey'
  rw [hpurpose _ hwallet]
  exact hregistered

/-- The collected pairs are sorted and their signatures joined. -/
theorem exists_joined {pairs : List CollectedSignatureKeyPair} {seen : List Bool}
    (h : pairs.Perm (seen.map c.pair)) :
    ∃ sorted signature, sortSignatureKeyPairsByKey pairs = .ok sorted ∧
      concatenateSignatures (sorted.map (·.signature)) = .ok signature := by
  have hmem : ∀ pair ∈ pairs, ∃ p, c.pair p = pair := fun pair hpair => by
    obtain ⟨p, _, rfl⟩ := List.mem_map.mp (h.subset hpair)
    exact ⟨p, rfl⟩
  have hkeys : ∀ pair ∈ pairs, (toAddress pair.key).isSome := fun pair hpair => by
    obtain ⟨p, rfl⟩ := hmem pair hpair
    obtain ⟨k, hk, _⟩ := c.registered p
    exact Option.isSome_iff_exists.mpr ⟨k, hk⟩
  have hsorted := Comparator.sortBy_eq (f := fun p => p.address.toNat)
    fun p hp q hq => executionComparator_eq (hkeys p hp) (hkeys q hq)
  have hremoved : ∀ s ∈ (pairs.insertionSort (·.address.toNat ≤ ·.address.toNat)).map (·.signature),
      ∃ digits, removePrefix s = .ok digits := fun s hs => by
    obtain ⟨pair, hpair, rfl⟩ := List.mem_map.mp hs
    obtain ⟨p, rfl⟩ := hmem pair ((List.perm_insertionSort _ pairs).subset hpair)
    exact c.removePrefix_eq p
  obtain ⟨values, hvalues⟩ := exists_mapM_ok hremoved
  refine ⟨_, '0' :: 'x' :: values.flatten, hsorted, ?_⟩
  rw [concatenateSignatures, hvalues]
  rfl

/-! ## What a call is told -/

/-- What an answer tells of what has been done, then and later. -/
def Tells (a : Progress) : Answered Query Query.Answer JsError → Prop
  | ⟨.selectMessage _, .ok (some _)⟩ | ⟨.insertMessage _, _⟩ => a.created = true
  | ⟨.selectSignatureKeyPairs _, .ok pairs⟩ =>
    ∃ seen, seen <+: a.stored ∧ pairs.Perm (seen.map c.pair)
  | ⟨.selectSignature _ _, .ok (some _)⟩ => a.stored ≠ []
  | _ => True

/-- What has been done, as far as one of the calls can see it. -/
structure Sees (p : Bool) (log : Log) (a : Progress) : Prop where
  created : a.stored ≠ [] → a.created = true
  stored : p ∈ a.stored ↔ log.Stores c.messageHash
  tells : ∀ e ∈ log, c.Tells a e

/-- The answers tell that there is a row of the message. -/
def Found (log : Log) : Prop :=
  (∃ row, told (.selectMessage c.messageHash) (some row) ∈ log) ∨
    (∃ row r, ⟨.insertMessage row, r⟩ ∈ log) ∨
      ∃ pairs ≠ [], told (.selectSignatureKeyPairs c.messageHash) pairs ∈ log

variable {c}

theorem Found.mono {log log' : Log} (h : c.Found log) (hsub : log ⊆ log') : c.Found log' := by
  obtain ⟨row, hrow⟩ | ⟨row, r, hrow⟩ | ⟨pairs, hne, hpairs⟩ := h
  · exact .inl ⟨row, hsub hrow⟩
  · exact .inr (.inl ⟨row, r, hsub hrow⟩)
  · exact .inr (.inr ⟨pairs, hne, hsub hpairs⟩)

theorem Sees.created_of_found {log : Log} (h : c.Sees p log a) (hfound : c.Found log) :
    a.created = true := by
  obtain ⟨row, hrow⟩ | ⟨row, r, hrow⟩ | ⟨pairs, hne, hpairs⟩ := hfound
  · exact h.tells _ hrow
  · exact h.tells _ hrow
  · obtain ⟨seen, hpre, hperm⟩ := h.tells _ hpairs
    refine h.created fun hnil => hne ?_
    rw [hnil, List.prefix_nil] at hpre
    rw [hpre] at hperm
    exact hperm.eq_nil

/-- Pairs that were read are stored still. -/
theorem Sees.length_le {log : Log} (h : c.Sees p log a)
    (hread : told (.selectSignatureKeyPairs c.messageHash) pairs ∈ log) :
    pairs.length ≤ a.stored.length := by
  obtain ⟨seen, hpre, hperm⟩ := h.tells _ hread
  rw [hperm.length_eq, List.length_map]
  exact hpre.length_le

variable (c)

/-- The queries of a call. -/
def Awaits (p : Bool) (log : Log) : Query → Prop
  | .insertMessage row => row = c.messageRow
  | .insertSignatureKeyPair row => row = c.row p ∧ ¬ log.Stores c.messageHash
  | .insertFinalMessage messageHash _ | .selectMessage messageHash
  | .selectSignatureKeyPairs messageHash | .selectSignature messageHash _ =>
    messageHash = c.messageHash
  | q => q.writes = false

/-- A call is rejected only because the other one has made the message, or has stored the same
signature, or because the message is in the queue. -/
def Failed (p : Bool) (log : Log) (_ : JsError) : Prop :=
  (log.written = [] ∧ ∃ row e, rejected (.insertMessage row) e ∈ log) ∨
    (c.signature (!p) = c.signature p ∧
      ∃ row, told (.selectSignature c.messageHash (c.signature p)) (some row) ∈ log) ∨
    (log.Stores c.messageHash ∧
      ∃ message e, rejected (.insertFinalMessage c.messageHash message) e ∈ log)

/-- What a call that has handed the message over has read for it. -/
def Submits (log : Log) : Prop :=
  ∃ pairs sorted signature, log.ReadSince c.messageHash pairs ∧
    sortSignatureKeyPairsByKey pairs = .ok sorted ∧
    concatenateSignatures (sorted.map (·.signature)) = .ok signature ∧
    told (.insertFinalMessage c.messageHash { c.unsigned with signature }) () ∈ log

/-- A call resolves after it has stored its signature, and has handed the message over if it then
counted enough of them. -/
def Resolved (log : Log) : Prop :=
  log.Stores c.messageHash ∧ ∃ pairs, log.ReadSince c.messageHash pairs ∧
    (c.wallet.requiredSignatures.toNat ≤ pairs.length ∧ c.Submits log ∨
      pairs.length < c.wallet.requiredSignatures.toNat ∧ ¬ log.HandsOver c.messageHash)

def Possible (db : Database) (p : Bool) (log : Log) (q : Query) (r : Except JsError q.Answer) :
    Prop :=
  ∃ a db', c.Sees p log a ∧ q.Reliably wallets (c.database db a) r db'

/-- What the code of a call does with what it may be told. -/
abbrev Goes (db : Database) (p : Bool) (post : Log → α → Prop) : Log → Promise α → Prop :=
  Follows (c.Possible db p) (c.Awaits p) (c.Failed p) post

section
variable {c} {db : Database} {p : Bool} {log : Log}

/-- A query that can always be answered. -/
theorem goes_query {q : Query} {post : Log → q.Answer → Prop} (hawaits : c.Awaits p log q)
    (hanswer : ∀ a, c.Sees p log a → ∃ v db', q.Effect wallets (c.database db a) v db')
    (hpost : ∀ a v db', c.Sees p log a → q.Effect wallets (c.database db a) v db' →
      post (log ++ [told q v]) v) : c.Goes db p post log (query q) := by
  refine (follows_query q).mpr ⟨hawaits, ?_, ?_⟩
  · rintro v ⟨a, db', hsees, heffect⟩
    exact hpost a v db' hsees heffect
  · rintro e ⟨a, db', hsees, _, hnone⟩
    obtain ⟨v, db'', heffect⟩ := hanswer a hsees
    exact absurd heffect (hnone v db'')

theorem goes_lift {post : Log → α → Prop} {x : Except String α} {v : α} (hx : x = .ok v)
    (hpost : post log v) : c.Goes db p post log (Promise.lift x) := by
  rw [hx]
  exact hpost

theorem goes_ensure {post : Log → Unit → Prop} {condition : Prop} [Decidable condition]
    (h : condition) (hpost : post log ()) : c.Goes db p post log (ensure condition e) := by
  rw [ensure, if_pos h]
  exact hpost

theorem goes_getCollectedSignatureKeyPairs (hnew : c.Absent db)
    {post : Log → List CollectedSignatureKeyPair → Prop}
    (hpost : ∀ a pairs, c.Sees p log a → pairs.Perm (a.stored.map c.pair) →
      post (log ++ [told (.selectSignatureKeyPairs c.messageHash) pairs]) pairs) :
    c.Goes db p post log
      (PendingMessagesSQLStore.getCollectedSignatureKeyPairs c.messageHash) := by
  refine goes_query rfl (fun a _ => ⟨_, _, .refl _, rfl⟩) fun a pairs _ hsees h => ?_
  exact hpost a pairs hsees (collected_database hnew ▸ h.1)

theorem goes_get (hnew : c.Absent db) (hfound : c.Found log) {post : Log → PendingMessage → Prop}
    (hpost : ∀ a pairs,
      c.Sees p (log ++ [told (.selectMessage c.messageHash) (some c.messageRow)]) a →
      pairs.Perm (a.stored.map c.pair) →
      post (log.get c.messageHash c.messageRow pairs) ⟨pairs, none, c.unsigned.from_⟩) :
    c.Goes db p post log (PendingMessagesSQLStore.get c.messageHash) := by
  refine follows_bind.mpr (goes_query rfl (fun a _ => ⟨_, _, rfl, rfl⟩) ?_)
  rintro a found _ hsees ⟨hrow, _⟩
  rw [find_messages hnew, if_pos (hsees.created_of_found hfound)] at hrow
  subst hrow
  exact follows_bind.mpr (goes_getCollectedSignatureKeyPairs hnew hpost)

theorem goes_isPresent (hnew : c.Absent db) {post : Log → Bool → Prop}
    (hpost : ∀ row pairs, post (log ++ [told (.selectMessage c.messageHash) row] ++
      [told (.selectSignatureKeyPairs c.messageHash) pairs]) (row.isSome || pairs.length ≠ 0)) :
    c.Goes db p post log (PendingMessages.isPresent c.messageHash) := by
  refine follows_bind.mpr (goes_query rfl (fun a _ => ⟨_, _, rfl, rfl⟩) fun _ row _ _ _ => ?_)
  exact follows_bind.mpr
    (goes_getCollectedSignatureKeyPairs hnew fun _ pairs _ _ => hpost row pairs)

theorem goes_containSignature (hnew : c.Absent db) (hstores : ¬ log.Stores c.messageHash)
    {post : Log → Bool → Prop}
    (hnone : post (log ++ [told (.selectSignature c.messageHash (c.signature p)) none]) false)
    (hsome : ∀ row, c.signature (!p) = c.signature p →
      post (log ++ [told (.selectSignature c.messageHash (c.signature p)) (some row)]) true) :
    c.Goes db p post log
      (PendingMessagesSQLStore.containSignature c.messageHash (c.signature p)) := by
  refine follows_bind.mpr (goes_query rfl (fun a _ => ⟨_, _, rfl, rfl⟩) ?_)
  rintro a found _ hsees ⟨hfound, _⟩
  rw [find_signatureKeyPairs hnew] at hfound
  cases found with
  | none => exact hnone
  | some row =>
    obtain ⟨q, hq, _⟩ := Option.map_eq_some_iff.mp hfound.symm
    have hsame : c.signature q = c.signature p := by simpa using List.find?_some hq
    have hne : q ≠ p := by
      rintro rfl
      exact hstores (hsees.stored.mp (List.mem_of_find?_eq_some hq))
    rw [Bool.eq_not.mpr hne] at hsame
    exact hsome row hsame

theorem goes_ensureCorrectKeyPurpose {post : Log → Unit → Prop}
    (hpost : ∀ purpose,
      post (log ++ [told (.getKeyPurpose c.unsigned.from_ (c.key p)) purpose]) ()) :
    c.Goes db p post log
      (PendingMessages.ensureCorrectKeyPurpose ethers (c.message p) c.unsigned.from_) := by
  refine follows_bind.mpr (goes_lift c.hash_eq ?_)
  refine follows_bind.mpr (goes_lift (c.key_eq p) ?_)
  obtain ⟨purpose, hpurpose⟩ := c.exists_hasPurpose p
  refine follows_bind.mpr (goes_query (q := .getKeyPurpose _ _) rfl (fun a _ => ⟨_, _, hpurpose, rfl⟩)
    fun a purpose _ _ h => ?_)
  exact goes_ensure (c.purpose_ne h.1) (hpost purpose)

theorem goes_getStatus (hnew : c.Absent db) (hfound : c.Found log)
    {post : Log → MessageStatus → Prop}
    (hpost : ∀ a pairs,
      c.Sees p (log ++ [told (.selectMessage c.messageHash) (some c.messageRow)]) a →
      pairs.Perm (a.stored.map c.pair) →
      post (log.status c.messageHash c.messageRow pairs c.wallet.requiredSignatures)
        ⟨none, pairs.map (·.signature), pairs.length, c.wallet.requiredSignatures, none⟩) :
    c.Goes db p post log (PendingMessagesSQLStore.getStatus c.messageHash) := by
  refine follows_bind.mpr (goes_get hnew hfound fun a pairs hsees hpairs => ?_)
  refine follows_bind.mpr (goes_query (q := .requiredSignatures _) rfl
    (fun a _ => ⟨_, _, (c.requires_iff).mpr rfl, rfl⟩) fun _ required _ _ h => ?_)
  cases (c.requires_iff).mp h.1
  exact hpost a pairs hsees hpairs

theorem goes_isEnoughSignatures (hnew : c.Absent db) (hfound : c.Found log)
    {post : Log → Bool → Prop}
    (hpost : ∀ a pairs,
      c.Sees p (log ++ [told (.selectMessage c.messageHash) (some c.messageRow)]) a →
      pairs.Perm (a.stored.map c.pair) →
      post (log.status c.messageHash c.messageRow pairs c.wallet.requiredSignatures)
        (decide (c.wallet.requiredSignatures.toNat ≤ pairs.length))) :
    c.Goes db p post log (PendingMessages.isEnoughSignatures c.messageHash) :=
  follows_bind.mpr (goes_getStatus hnew hfound hpost)

theorem goes_addSignatureToPendingMessage (hnew : c.Absent db) (hfound : c.Found log)
    (hstores : ¬ log.Stores c.messageHash) (hhands : ¬ log.HandsOver c.messageHash)
    {post : Log → Unit → Prop}
    (hpost : ∀ log' : Log, c.Found log' → log'.Stores c.messageHash →
      ¬ log'.HandsOver c.messageHash → post log' ()) :
    c.Goes db p post log
      (PendingMessages.addSignatureToPendingMessage ethers c.messageHash (c.message p)) := by
  refine follows_bind.mpr (goes_get hnew hfound fun a pairs _ _ => ?_)
  refine follows_bind.mpr (goes_ensure rfl ?_)
  have hstores' : ¬ (log.get c.messageHash c.messageRow pairs).Stores c.messageHash := by
    simpa [Log.Stores] using hstores
  refine follows_bind.mpr (goes_containSignature hnew hstores' ?_ fun row hsame => ?_)
  · refine follows_bind.mpr (goes_ensure rfl ?_)
    refine follows_bind.mpr (goes_ensureCorrectKeyPurpose fun purpose => ?_)
    refine follows_bind.mpr (goes_lift (c.key_eq p) ?_)
    refine goes_query (q := .insertSignatureKeyPair _) ⟨rfl, ?_⟩ (fun a hsees => ?_) ?_
    · simpa [Log.Stores] using hstores
    · have hcreated := hsees.created_of_found (hfound.mono (by simp))
      exact ⟨(), _, ⟨c.messageRow, by simp [database, hcreated], rfl⟩, rfl⟩
    · intro a _ _ _ _
      refine hpost _ ?_ ⟨c.row p, rfl, List.mem_append_right _ List.mem_cons_self⟩ ?_
      · exact hfound.mono (by simp)
      · simpa [Log.HandsOver] using hhands
  · exact .inr (.inl ⟨hsame, row, List.mem_append_right _ List.mem_cons_self⟩)

theorem goes_onReadyToExecute (hnew : c.Absent db) (hfound : c.Found log)
    (hstores : log.Stores c.messageHash)
    (hread : told (.selectSignatureKeyPairs c.messageHash) pairs ∈ log)
    (henough : c.wallet.requiredSignatures.toNat ≤ pairs.length) {post : Log → Bytes32 → Prop}
    (hpost : ∀ log' messageHash, log <+: log' → c.Submits log' → post log' messageHash) :
    c.Goes db p post log (PendingMessages.onReadyToExecute ethers c.messageHash (c.message p)) := by
  refine follows_bind.mpr (follows_bind.mpr
    (goes_getCollectedSignatureKeyPairs hnew fun a pairs' _ hpairs' => ?_))
  obtain ⟨sorted, signature, hsorted, hsignature⟩ := c.exists_joined hpairs'
  refine follows_bind.mpr (goes_lift hsorted (follows_bind.mpr (goes_lift hsignature ?_)))
  refine follows_bind.mpr (follows_bind.mpr (goes_getStatus hnew (hfound.mono (by simp)) ?_))
  intro _ pairs₁ _ _
  refine follows_bind.mpr (goes_ensure rfl ?_)
  refine follows_bind.mpr (goes_isEnoughSignatures hnew (hfound.mono (by simp)) ?_)
  intro a pairs₂ hsees hpairs₂
  refine goes_ensure (decide_eq_true ?_) ?_
  · calc c.wallet.requiredSignatures.toNat
      _ ≤ pairs.length := henough
      _ ≤ a.stored.length := hsees.length_le (by simp [hread])
      _ = pairs₂.length := by rw [hpairs₂.length_eq, List.length_map]
  refine follows_bind.mpr (goes_lift c.hash_eq (follows_bind.mpr ?_))
  refine (follows_query (.insertFinalMessage _ _)).mpr ⟨rfl, fun _ _ => ?_, fun e _ => ?_⟩
  · refine hpost _ _ ?_ ⟨pairs', sorted, signature, ?_, hsorted, hsignature, ?_⟩
    · simp
    · exact hstores.readSince.of_prefix (by simp)
    · exact List.mem_append_right _ List.mem_cons_self
  · exact .inr (.inr ⟨hstores.mono (by simp), _, e, List.mem_append_right _ List.mem_cons_self⟩)

theorem goes_add (hnew : c.Absent db) :
    c.Goes db p (fun log _ => c.Resolved log) [] (PendingMessages.add ethers (c.message p)) := by
  refine follows_bind.mpr (goes_lift c.hash_eq ?_)
  refine follows_bind.mpr (goes_isPresent hnew fun row pairs => ?_)
  have hrest : ∀ log : Log, c.Found log → ¬ log.Stores c.messageHash →
      ¬ log.HandsOver c.messageHash → c.Goes db p (fun log _ => c.Resolved log) log (do
      PendingMessages.addSignatureToPendingMessage ethers c.messageHash (c.message p)
      let status ← PendingMessages.getStatus c.messageHash
      let isEnough ← PendingMessages.isEnoughSignatures c.messageHash
      if isEnough then do
        let queued ← PendingMessages.onReadyToExecute ethers c.messageHash (c.message p)
        return { status with messageHash := some queued }
      else return status) := by
    intro log hfound hstores hhands
    refine follows_bind.mpr (goes_addSignatureToPendingMessage hnew hfound hstores hhands ?_)
    intro log hfound hstores hhands
    refine follows_bind.mpr (goes_getStatus hnew hfound fun _ pairs _ _ => ?_)
    refine follows_bind.mpr (goes_isEnoughSignatures hnew (hfound.mono (by simp)) ?_)
    intro _ pairs' _ _
    have hread : ((log.status c.messageHash c.messageRow pairs c.wallet.requiredSignatures).status
        c.messageHash c.messageRow pairs' c.wallet.requiredSignatures).ReadSince c.messageHash
          pairs' := by
      have hstored : Log.Stores (log.status c.messageHash c.messageRow pairs
          c.wallet.requiredSignatures ++
          [told (.selectMessage c.messageHash) (some c.messageRow)]) c.messageHash :=
        hstores.mono (by simp)
      exact hstored.readSince.of_prefix (List.prefix_append _ _)
    split
    · next henough =>
      refine follows_bind.mpr (goes_onReadyToExecute hnew (hfound.mono (by simp))
        (hstores.mono (by simp)) (by simp) (of_decide_eq_true henough) ?_)
      intro log' messageHash hpre hsubmits
      exact ⟨hstores.mono ((List.Subset.trans (by simp) hpre.subset)), pairs',
        hread.of_prefix hpre, .inl ⟨of_decide_eq_true henough, hsubmits⟩⟩
    · next hfew =>
      refine ⟨hstores.mono (by simp), pairs', hread, .inr ⟨?_, ?_⟩⟩
      · simpa using hfew
      · simpa [Log.HandsOver] using hhands
  refine follows_bind.mpr ?_
  cases hpresent : (row.isSome || pairs.length ≠ 0) with
  | true =>
    refine hrest _ ?_ (by simp [Log.Stores]) (by simp [Log.HandsOver])
    cases row with
    | some row => exact .inl ⟨row, by simp⟩
    | none => exact .inr (.inr ⟨pairs, by simpa using hpresent, by simp⟩)
  | false =>
    refine (follows_query (.insertMessage _)).mpr ⟨rfl, fun _ _ => ?_, fun e _ => ?_⟩
    · refine hrest _ (.inr (.inl ⟨_, _, List.mem_append_right _ List.mem_cons_self⟩)) ?_ ?_
      · simp [Log.Stores]
      · simp [Log.HandsOver]
    · exact .inl ⟨rfl, _, e, List.mem_append_right _ List.mem_cons_self⟩

end

end Cosigned

end UniversalLogin
