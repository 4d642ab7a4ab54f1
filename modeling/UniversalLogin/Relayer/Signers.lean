import UniversalLogin.Relayer.Acceptance
import UniversalLogin.Relayer.CallLogs

/-!
# Signers of an enqueued message

Calls of `PendingMessages.add`, interleaved at their queries. `add` counts the collected pairs, and
looks for a signature that is collected already by its string. So the pairs that it counts are by
different signers as long as a key does not send a second signature string for the same message.
-/

namespace UniversalLogin

open Async Labelled

/-- What the wallet was last found to require. -/
def Log.lastRequired (log : Log) : Option Uint256 :=
  log.reverse.findSome? fun
    | ⟨.requiredSignatures _, .ok required⟩ => some required
    | _ => none

@[simp] theorem Log.lastRequired_status {log : Log} :
    (log.status messageHash row pairs required).lastRequired = some required := by
  simp [lastRequired]

/-- A signature is stored only if no pair with the same key is collected for the message. -/
def Query.StoresNewKey (db : Database) : Query → Prop
  | insertSignatureKeyPair row =>
    ∀ r ∈ db.signatureKeyPairs, r.messageHash = row.messageHash → r.key ≠ row.key
  | _ => True

instance (db : Database) (q : Query) : Decidable (q.StoresNewKey db) :=
  decidable_of_iff ((match q with
    | .insertSignatureKeyPair row => db.signatureKeyPairs.all fun r =>
      r.messageHash = row.messageHash → r.key ≠ row.key
    | _ => true : Bool) = true) (by
    cases q <;> simp [Query.StoresNewKey, imp_iff_not_or])

/-- The same of the query that a step answers. -/
def StoresNewKeys (m : Database × (P → ServiceCall α))
    (e : P × Answered Query Query.Answer JsError) : Prop :=
  e.2.1.StoresNewKey m.1

instance (m : Database × (P → ServiceCall α)) (e : P × Answered Query Query.Answer JsError) :
    Decidable (StoresNewKeys m e) :=
  inferInstanceAs (Decidable (e.2.1.StoresNewKey m.1))

/-- The pairs collected for a message have different keys. -/
def Database.DifferentKeys (db : Database) : Prop :=
  ∀ messageHash, ((db.collected messageHash).map (·.key)).Nodup

namespace Database

theorem collected_insert {db : Database} {row : SignatureKeyPairRow} :
    { db with signatureKeyPairs := db.signatureKeyPairs ++ [row] }.collected messageHash =
      db.collected messageHash ++
        if row.messageHash = messageHash then [row.toCollectedSignatureKeyPair] else [] := by
  by_cases h : row.messageHash = messageHash <;> simp [collected, h]

theorem DifferentKeys.insert {row : SignatureKeyPairRow} (h : DifferentKeys db)
    (hnew : (Query.insertSignatureKeyPair row).StoresNewKey db) :
    DifferentKeys { db with signatureKeyPairs := db.signatureKeyPairs ++ [row] } := by
  intro messageHash
  rw [collected_insert]
  by_cases hhash : row.messageHash = messageHash
  · rw [if_pos hhash, List.map_append, List.nodup_append]
    refine ⟨h messageHash, by simp, ?_⟩
    intro key hkey key' hkey' heq
    obtain ⟨pair, hpair, rfl⟩ := List.mem_map.mp hkey
    obtain ⟨r, hr, hrHash, rfl⟩ := mem_collected.mp hpair
    cases List.mem_singleton.mp hkey'
    exact hnew r hr (hrHash.trans hhash.symm) heq
  · rw [if_neg hhash, List.append_nil]
    exact h messageHash

/-- As many pairs as there are give as many different keys. -/
theorem DifferentKeys.length_dedup (h : DifferentKeys db) :
    ((db.collected messageHash).map (·.key)).dedup.length = (db.collected messageHash).length := by
  rw [(h messageHash).dedup, List.length_map]

end Database

/-- Queries other than the insertion of a pair, and those that delete, leave the pairs. -/
theorem Query.Effect.signatureKeyPairs_eq {q : Query} {a : q.Answer} (h : q.Effect wallets db a db')
    (hdeletes : q.deletes = false) (hq : ∀ row, q ≠ .insertSignatureKeyPair row) :
    db'.signatureKeyPairs = db.signatureKeyPairs := by
  cases q with
  | deleteMessage _ | deleteSignatureKeyPairs _ => cases hdeletes
  | insertSignatureKeyPair row => exact absurd rfl (hq row)
  | insertMessage _ =>
    obtain ⟨_, rfl⟩ := h
    rfl
  | insertFinalMessage _ _ =>
    obtain ⟨_, _, rfl⟩ := h
    rfl
  | updateMessage _ _ | updateFinalMessage _ _ | deleteAuthorisation _ _ =>
    cases h
    rfl
  | _ => rw [h.eq_of_not_writes rfl]

theorem Database.DifferentKeys.answers {q : Query} {r : Except JsError q.Answer}
    (h : DifferentKeys db) (hanswer : q.Answers wallets db r db') (hdeletes : q.deletes = false)
    (hnew : q.StoresNewKey db) : DifferentKeys db' := by
  cases r with
  | error e =>
    cases hanswer
    exact h
  | ok a =>
    by_cases hq : ∃ row, q = .insertSignatureKeyPair row
    · obtain ⟨row, rfl⟩ := hq
      obtain ⟨_, rfl⟩ := hanswer
      exact h.insert hnew
    · intro messageHash
      have heq := Query.Effect.signatureKeyPairs_eq hanswer hdeletes (not_exists.mp hq)
      simpa only [Database.collected, heq] using h messageHash

section
variable {P : Type} [DecidableEq P] {wallets : Address → Option Storage} {ethers : Ethers}
  {messages : P → SignedMessage} {db : Database} {calls : P → ServiceCall MessageStatus}

/-- What every run of interleaved calls keeps while no key signs a message twice. -/
theorem adds_of_run
    (hrun : Run (Guarded StoresNewKeys (Interleaved (Query.Answers wallets)))
      (Database.empty, begin fun p => PendingMessages.add ethers (messages p)) trace (db, calls)) :
    ((∀ p, Knows db (calls p)) ∧ db.DifferentKeys) ∧
      ∀ p, (calls p).Follows (fun _ _ _ => True)
        (PendingMessages.Awaits ethers (messages p) (messageHashOf ethers (messages p)))
        (fun _ _ => True) fun _ _ => True := by
  refine follows_of_run (I := fun db calls => (∀ p, Knows db (calls p)) ∧ db.DifferentKeys)
    (fun _ _ _ h => h.2) (fun _ _ _ _ _ _ _ => trivial) ?_ hrun ?_ ?_
  · rintro db calls p e db' _ ⟨hknows, hkeys⟩ hfollows ⟨hnew, ⟨hstep⟩⟩
    have hdeletes := ((hfollows p).awaited_of_pending hstep.pending).not_deletes
    have hgrows := hstep.answers_eq.grows hdeletes
    refine ⟨?_, hkeys.answers hstep.answers_eq hdeletes hnew⟩
    rw [Function.forall_update_iff calls fun _ => Knows db']
    exact ⟨(hknows p).step hstep hgrows, fun q _ => (hknows q).grows hgrows⟩
  · exact ⟨fun p e he => absurd he List.not_mem_nil, fun messageHash => List.nodup_nil⟩
  · exact fun p => PendingMessages.follows_add messageHashOf_eq

/-- Whenever interleaved calls of `add` hand a message over to the queue, and no key has signed a
message twice, the collected pairs have as many different keys as the wallet was found to require.
-/
theorem enqueued_enough_signers
    (hrun : Run (Guarded StoresNewKeys (Interleaved (Query.Answers wallets)))
      (Database.empty, begin fun p => PendingMessages.add ethers (messages p)) trace (db, calls))
    (hpending : (calls p).pending = some (.insertFinalMessage messageHash message)) :
    ∃ required, Log.lastRequired (calls p).log = some required ∧
      required.toNat ≤ ((db.collected messageHash).map (·.key)).dedup.length := by
  obtain ⟨⟨hknows, hkeys⟩, hfollows⟩ := adds_of_run hrun
  obtain ⟨rfl, ⟨front, row, pairs, required, hlog, hcount⟩, _, _⟩ :=
    (hfollows p).awaited_of_pending hpending
  refine ⟨required, by rw [hlog, Log.lastRequired_status], ?_⟩
  have hmem : told (.selectSignatureKeyPairs (messageHashOf ethers (messages p))) pairs ∈
      (calls p).log := by simp [hlog]
  have hpairs : pairs.length ≤ (db.collected (messageHashOf ethers (messages p))).length :=
    (hknows p _ hmem).1
  calc required.toNat
    _ ≤ pairs.length := hcount
    _ ≤ (db.collected (messageHashOf ethers (messages p))).length := hpairs
    _ = _ := hkeys.length_dedup.symm

end

/-! ## One signer twice

The wallet asks for two signatures. The manager sends its signature twice, with letters of another
case in the second string.
-/

namespace Sample

/-- A signature is recovered from the bytes that its string stands for. -/
def recovering : Ethers where
  crypto := crypto
  verifyMessage hash signature := do
    let bytes ← arrayify (.string signature)
    if hash = messageHash ∧ bytes = byManager.bytes then return keyString manager
    else if hash = messageHash ∧ bytes = byActor.bytes then return keyString actor
    else .error "invalid signature"

/-- The signature of the manager in capital letters. -/
def inCapitals : JsString := '0' :: 'x' :: (Hex.encode byManager.bytes).map Char.toUpper

def twice : Bool → SignedMessage
  | false => signed byManager.bytes
  | true => { unsigned with signature := inCapitals }

def bySigner : Bool → SignedMessage
  | false => signed byManager.bytes
  | true => signed byActor.bytes

/-- The second call follows the first and awaits the insertion into the queue. -/
def oneAfterTheOther : List Bool := List.replicate 14 false ++ List.replicate 20 true

def afterCalls (messages : Bool → SignedMessage) :
    Database × (Bool → ServiceCall MessageStatus) :=
  schedule (Query.answer chain.wallets) oneAfterTheOther
    (Database.empty, begin fun p => PendingMessages.add recovering (messages p))

theorem run_afterCalls {messages : Bool → SignedMessage}
    {C : Database × (Bool → ServiceCall MessageStatus) →
      Bool × Answered Query Query.Answer JsError → Prop}
    (hC : Observes C (Query.answer chain.wallets) oneAfterTheOther
      (Database.empty, begin fun p => PendingMessages.add recovering (messages p))) :
    ∃ trace, Run (Guarded C (Interleaved (Query.Answers chain.wallets)))
      (Database.empty, begin fun p => PendingMessages.add recovering (messages p)) trace
      (afterCalls messages) :=
  run_schedule Query.answers_answer hC

/-- The message with both signatures, in the order in which they were collected. -/
def handedOverTwice : SignedMessage :=
  { unsigned with signature := hexlify byManager.bytes ++ inCapitals.drop 2 }

set_option maxRecDepth 20000 in
theorem afterCalls_twice : ((afterCalls twice).2 true).pending =
      some (.insertFinalMessage messageHash handedOverTwice) ∧
    Log.lastRequired ((afterCalls twice).2 true).log = some 2 ∧
    (((afterCalls twice).1.collected messageHash).map (·.key)).dedup.length = 1 := by
  decide

set_option maxRecDepth 20000 in
theorem observes_bySigner :
    Observes StoresNewKeys (Query.answer chain.wallets) oneAfterTheOther
      (Database.empty, begin fun p => PendingMessages.add recovering (bySigner p)) := by
  decide

set_option maxRecDepth 20000 in
theorem afterCalls_bySigner : ((afterCalls bySigner).2 true).pending =
      some (.insertFinalMessage messageHash (signed (byActor.bytes ++ byManager.bytes))) ∧
    Log.lastRequired ((afterCalls bySigner).2 true).log = some 2 := by
  decide

end Sample

theorem enqueued_enough_signers_sample :
    2 ≤ (((Sample.afterCalls Sample.bySigner).1.collected Sample.messageHash).map
      (·.key)).dedup.length := by
  have hafter := Sample.afterCalls_bySigner
  obtain ⟨trace, hrun⟩ := Sample.run_afterCalls Sample.observes_bySigner
  generalize Sample.afterCalls Sample.bySigner = m at hrun hafter ⊢
  obtain ⟨db, calls⟩ := m
  obtain ⟨required, hrequired, hle⟩ := enqueued_enough_signers hrun hafter.1
  cases hrequired.symm.trans hafter.2
  exact hle

/-- The manager alone makes a message that needs two signers go to the queue. -/
theorem enqueued_one_signer : ∃ trace db calls message,
    Run (Interleaved (Query.Answers Sample.chain.wallets))
      (Database.empty, begin fun p => PendingMessages.add Sample.recovering (Sample.twice p))
      trace (db, calls) ∧
    (calls true).pending = some (.insertFinalMessage Sample.messageHash message) ∧
    Log.lastRequired (calls true).log = some 2 ∧
    ((db.collected Sample.messageHash).map (·.key)).dedup.length = 1 := by
  have hafter := Sample.afterCalls_twice
  have hobserves : Observes (fun _ _ => True) (Query.answer Sample.chain.wallets)
      Sample.oneAfterTheOther
      (Database.empty, begin fun p => PendingMessages.add Sample.recovering (Sample.twice p)) :=
    observes_of_forall fun _ _ => trivial
  obtain ⟨trace, hrun⟩ := Sample.run_afterCalls hobserves
  generalize Sample.afterCalls Sample.twice = m at hrun hafter
  obtain ⟨db, calls⟩ := m
  exact ⟨trace, db, calls, _, hrun.of_guarded, hafter⟩

end UniversalLogin
