import UniversalLogin.Relayer.Cosigned

/-!
# What the two calls do

`Consistent` holds in every interleaving of the two calls: what is done, and in what order, is what
the two were told. The rules `returns_*` are about a call that nothing comes between.
-/

namespace UniversalLogin

open Async Labelled

namespace Cosigned

variable {ethers : Ethers} {wallets : Address → Option Storage} (c : Cosigned ethers wallets)

/-! ## What the calls do to the tables -/

/-- What an answer to the call `p` makes of what has been done. -/
inductive Moves (p : Bool) (a : Progress) : Answered Query Query.Answer JsError → Progress → Prop
  | reads : q.writes = false → c.Tells a ⟨q, r⟩ →
    (∀ pairs, (⟨q, r⟩ : Answered Query Query.Answer JsError) =
      told (.selectSignatureKeyPairs c.messageHash) pairs → pairs.Perm (a.stored.map c.pair)) →
    Moves p a ⟨q, r⟩ a
  | creates : a.created = false →
    Moves p a (told (.insertMessage c.messageRow) ()) { a with created := true }
  | stores : a.created = true →
    Moves p a (told (.insertSignatureKeyPair (c.row p)) ()) { a with stored := a.stored ++ [p] }
  | queues : a.queued = [] →
    Moves p a (told (.insertFinalMessage c.messageHash finalMessage) ())
      { a with queued := [(p, finalMessage, now)] }
  | refused : q.writes = true → (∀ row, q = .insertMessage row → a.created = true) →
    Moves p a (rejected q e) a

/-- What has been done, and what the two calls were told. -/
structure Consistent (a : Progress) (logs : Bool → Log) : Prop where
  created : a.stored ≠ [] → a.created = true
  nodup : a.stored.Nodup
  stored : ∀ p, p ∈ a.stored ↔ (logs p).Stores c.messageHash
  tells : ∀ p, ∀ e ∈ logs p, c.Tells a e
  /-- Pairs that a call reads after it has stored its own are those stored up to then. -/
  since : ∀ p pairs, (logs p).ReadSince c.messageHash pairs →
    ∃ seen, seen <+: a.stored ∧ p ∈ seen ∧ pairs.Perm (seen.map c.pair)
  inserted : a.created = true → ∃ p, told (.insertMessage c.messageRow) () ∈ logs p
  queued : ∀ p message, told (.insertFinalMessage c.messageHash message) () ∈ logs p ↔
    ∃ now, (p, message, now) ∈ a.queued
  single : a.queued.length ≤ 1

section
variable {c} {db : Database} {p : Bool} {log : Log} {a : Progress}

theorem tells_of_effect (hnew : c.Absent db) {q : Query} {v : q.Answer}
    (hawaits : c.Awaits p log q) (hq : q.writes = false)
    (h : q.Effect wallets (c.database db a) v db') : c.Tells a (told q v) := by
  cases q with
  | selectMessage messageHash =>
    cases hawaits
    cases v with
    | none => trivial
    | some row =>
      have hrow := h.1
      rw [find_messages hnew] at hrow
      exact (Option.ite_none_right_eq_some.mp hrow.symm).1
  | selectSignatureKeyPairs messageHash =>
    cases hawaits
    exact ⟨a.stored, List.prefix_rfl, collected_database hnew ▸ h.1⟩
  | selectSignature messageHash s =>
    cases hawaits
    cases v with
    | none => trivial
    | some row =>
      have hrow := h.1
      rw [find_signatureKeyPairs hnew] at hrow
      obtain ⟨q, hq, _⟩ := Option.map_eq_some_iff.mp hrow.symm
      exact List.ne_nil_of_mem (List.mem_of_find?_eq_some hq)
  | insertMessage _ => cases hq
  | _ => trivial

theorem moves_of_reliably (hnew : c.Absent db) {q : Query} {r : Except JsError q.Answer}
    (hawaits : c.Awaits p log q) (h : q.Reliably wallets (c.database db a) r db') :
    ∃ a', db' = c.database db a' ∧ c.Moves p a ⟨q, r⟩ a' := by
  by_cases hq : q.writes = false
  · cases r with
    | error e =>
      refine ⟨a, h.1, .reads hq ?_ nofun⟩
      cases q <;> trivial
    | ok v =>
      refine ⟨a, Query.Effect.eq_of_not_writes h hq, .reads hq (tells_of_effect hnew hawaits hq h) ?_⟩
      rintro pairs ⟨⟩
      exact collected_database hnew ▸ h.1
  cases r with
  | error e =>
    refine ⟨a, h.1, .refused (Bool.eq_true_of_not_eq_false hq) ?_⟩
    rintro row rfl
    cases hawaits
    by_contra hcreated
    refine h.2 () _ ⟨fun r hr => ?_, rfl⟩
    simp only [database, Bool.not_eq_true] at hr hcreated
    simp only [hcreated] at hr
    exact hnew.messages r (by simpa using hr)
  | ok v =>
    cases q with
    | insertMessage row =>
      cases hawaits
      obtain ⟨hnone, rfl⟩ := h
      have hcreated : a.created = false := by
        by_contra hcreated
        rw [Bool.not_eq_false] at hcreated
        exact hnone c.messageRow (by simp [database, hcreated]) rfl
      exact ⟨{ a with created := true }, by simp [database, hcreated], .creates hcreated⟩
    | insertSignatureKeyPair row =>
      obtain ⟨rfl, _⟩ := hawaits
      obtain ⟨⟨r, hr, hhash⟩, rfl⟩ := h
      have hcreated : a.created = true := by
        by_contra hcreated
        rw [Bool.not_eq_true] at hcreated
        exact hnew.messages r (by simpa [database, hcreated] using hr) hhash
      exact ⟨{ a with stored := a.stored ++ [p] }, by simp [database], .stores hcreated⟩
    | insertFinalMessage messageHash message =>
      cases hawaits
      obtain ⟨hnone, now, rfl⟩ := h
      have hqueued : a.queued = [] := List.eq_nil_iff_forall_not_mem.mpr fun submission hmem =>
        hnone (c.finalRow submission) (List.mem_append_right _ (List.mem_map_of_mem hmem)) rfl
      exact ⟨{ a with queued := [(p, message, now)] }, by simp [database, hqueued, finalRow],
        .queues hqueued⟩
    | selectMessage _ | selectSignatureKeyPairs _ | selectSignature _ _ => exact absurd rfl hq
    | _ => exact absurd hawaits hq

theorem Tells.le {e : Answered Query Query.Answer JsError} (h : c.Tells a e) (hle : a.Le a') :
    c.Tells a' e := by
  obtain ⟨q, r⟩ := e
  cases q with
  | selectMessage messageHash =>
    rcases r with _ | _ | row
    · trivial
    · trivial
    · exact hle.created h
  | insertMessage row => exact hle.created h
  | selectSignatureKeyPairs messageHash =>
    rcases r with _ | pairs
    · trivial
    · obtain ⟨seen, hpre, hperm⟩ := h
      exact ⟨seen, hpre.trans hle.stored, hperm⟩
  | selectSignature messageHash s =>
    rcases r with _ | _ | row
    · trivial
    · trivial
    · obtain ⟨back, hback⟩ := hle.stored
      intro hnil
      rw [hnil] at hback
      exact h (List.append_eq_nil_iff.mp hback).1
  | _ => trivial

theorem Moves.le (h : c.Moves p a e a') : a.Le a' := by
  cases h with
  | reads | refused | queues => exact ⟨id, List.prefix_rfl⟩
  | creates => exact ⟨fun _ => rfl, List.prefix_rfl⟩
  | stores => exact ⟨id, List.prefix_append _ _⟩

theorem Moves.tells (h : c.Moves p a e a') : c.Tells a' e := by
  cases h with
  | reads _ htells _ => exact htells
  | creates => rfl
  | stores | queues => trivial
  | @refused q _ hq hcreated =>
    cases q with
    | insertMessage row => exact hcreated row rfl
    | selectMessage _ | selectSignatureKeyPairs _ | selectSignature _ _ => cases hq
    | _ => trivial

theorem Moves.stored_cases (h : c.Moves p a e a') :
    (e = told (.insertSignatureKeyPair (c.row p)) () ∧ a.created = true ∧
      a'.stored = a.stored ++ [p]) ∨
    (a'.stored = a.stored ∧ ∀ row, e ≠ told (.insertSignatureKeyPair row) ()) := by
  cases h with
  | stores hcreated => exact .inl ⟨rfl, hcreated, rfl⟩
  | reads hq => exact .inr ⟨rfl, fun row heq => by cases heq; cases hq⟩
  | creates | queues | refused => exact .inr ⟨rfl, nofun⟩

theorem Moves.queued_cases (h : c.Moves p a e a') :
    (∃ finalMessage now, e = told (.insertFinalMessage c.messageHash finalMessage) () ∧
      a.queued = [] ∧ a'.queued = [(p, finalMessage, now)]) ∨
    (a'.queued = a.queued ∧ ∀ hash finalMessage, e ≠ told (.insertFinalMessage hash finalMessage) ()) := by
  cases h with
  | queues hqueued => exact .inl ⟨_, _, rfl, hqueued, rfl⟩
  | reads hq => exact .inr ⟨rfl, fun hash finalMessage heq => by cases heq; cases hq⟩
  | creates | stores | refused => exact .inr ⟨rfl, fun hash finalMessage heq => by cases heq⟩

theorem Moves.created_cases (h : c.Moves p a e a') :
    (e = told (.insertMessage c.messageRow) () ∧ a'.created = true) ∨ a'.created = a.created := by
  cases h with
  | creates => exact .inl ⟨rfl, rfl⟩
  | reads | stores | queues | refused => exact .inr rfl

section
variable {logs logs' : Bool → Log} {e : Answered Query Query.Answer JsError}
  (hself : logs' p = logs p ++ [e]) (hothers : ∀ q ≠ p, logs' q = logs q)
include hself hothers

theorem mem_answered : e' ∈ logs' q ↔ e' ∈ logs q ∨ q = p ∧ e' = e := by
  by_cases hq : q = p
  · simp [hq, hself]
  · simp [hq, hothers q hq]

theorem stores_answered {hash : Bytes32} : (logs' q).Stores hash ↔ (logs q).Stores hash ∨
    q = p ∧ ∃ row, row.messageHash = hash ∧ e = told (.insertSignatureKeyPair row) () := by
  simp only [Log.Stores, mem_answered hself hothers, and_or_left, exists_or]
  grind

namespace Consistent

theorem moves_stored (h : c.Consistent a logs) (hmoves : c.Moves p a e a') :
    q ∈ a'.stored ↔ (logs' q).Stores c.messageHash := by
  rw [stores_answered hself hothers, ← h.stored q]
  rcases hmoves.stored_cases with ⟨rfl, _, hnext⟩ | ⟨hsame, hne⟩
  · have hrow : ∃ row, row.messageHash = c.messageHash ∧
        told (.insertSignatureKeyPair (c.row p)) () = told (.insertSignatureKeyPair row) () :=
      ⟨c.row p, rfl, rfl⟩
    simp only [hnext, hrow, and_true, List.mem_append, List.mem_singleton]
  · have hrow : ¬ ∃ row, row.messageHash = c.messageHash ∧
        e = told (.insertSignatureKeyPair row) () := by
      rintro ⟨row, _, heq⟩
      exact hne row heq
    simp [hsame, hrow]

theorem moves_since (h : c.Consistent a logs) (hmoves : c.Moves p a e a')
    (hread : (logs' q).ReadSince c.messageHash pairs) :
    ∃ seen, seen <+: a'.stored ∧ q ∈ seen ∧ pairs.Perm (seen.map c.pair) := by
  have hkept : (logs q).ReadSince c.messageHash pairs →
      ∃ seen, seen <+: a'.stored ∧ q ∈ seen ∧ pairs.Perm (seen.map c.pair) := by
    intro hread
    obtain ⟨seen, hpre, hseen⟩ := h.since q pairs hread
    exact ⟨seen, hpre.trans hmoves.le.stored, hseen⟩
  by_cases hq : q = p
  · subst hq
    rw [hself] at hread
    rcases Log.readSince_concat hread with hread | ⟨hstored, rfl⟩
    · exact hkept hread
    · cases hmoves with
      | reads _ _ hpairs =>
        exact ⟨a.stored, List.prefix_rfl, (h.stored q).mpr hstored, hpairs _ rfl⟩
  · exact hkept (hothers q hq ▸ hread)

theorem moves_queued (h : c.Consistent a logs) (hmoves : c.Moves p a e a') :
    told (.insertFinalMessage c.messageHash finalMessage) () ∈ logs' q ↔
      ∃ now, (q, finalMessage, now) ∈ a'.queued := by
  rw [mem_answered hself hothers, h.queued]
  rcases hmoves.queued_cases with ⟨finalMessage', now, rfl, hnone, hnext⟩ | ⟨hsame, hne⟩
  · have hsame : told (.insertFinalMessage c.messageHash finalMessage) () =
        told (.insertFinalMessage c.messageHash finalMessage') () ↔ finalMessage = finalMessage' :=
      ⟨fun heq => by cases heq; rfl, fun heq => by rw [heq]⟩
    simp [hnone, hnext, hsame]
  · simp only [hsame, (hne _ _).symm, and_false, or_false]

theorem moves (h : c.Consistent a logs) (hmoves : c.Moves p a e a')
    (hawaits : c.Awaits p (logs p) e.1) : c.Consistent a' logs' := by
  have hle := hmoves.le
  constructor
  case created =>
    rcases hmoves.stored_cases with ⟨_, hcreated, _⟩ | ⟨hsame, _⟩
    · exact fun _ => hle.created hcreated
    · exact hsame ▸ fun hne => hle.created (h.created hne)
  case nodup =>
    rcases hmoves.stored_cases with ⟨rfl, _, hnext⟩ | ⟨hsame, _⟩
    · have hnot : p ∉ a.stored := mt (h.stored p).mp hawaits.2
      rw [hnext, List.nodup_append]
      exact ⟨h.nodup, List.nodup_singleton p, fun q hq q' hq' heq => by simp_all⟩
    · exact hsame ▸ h.nodup
  case stored => exact fun q => h.moves_stored hself hothers hmoves
  case tells =>
    intro q e' he'
    rcases (mem_answered hself hothers).mp he' with he' | ⟨_, rfl⟩
    · exact (h.tells q e' he').le hle
    · exact hmoves.tells
  case since => exact fun q pairs hread => h.moves_since hself hothers hmoves hread
  case inserted =>
    intro hcreated
    rcases hmoves.created_cases with ⟨rfl, _⟩ | hsame
    · exact ⟨p, (mem_answered hself hothers).mpr (.inr ⟨rfl, rfl⟩)⟩
    · obtain ⟨q, hq⟩ := h.inserted (hsame ▸ hcreated)
      exact ⟨q, (mem_answered hself hothers).mpr (.inl hq)⟩
  case queued => exact fun q message => h.moves_queued hself hothers hmoves
  case single =>
    rcases hmoves.queued_cases with ⟨_, _, _, _, hnext⟩ | ⟨hsame, _⟩
    · rw [hnext]
      exact le_rfl
    · exact hsame ▸ h.single

end Consistent

end

theorem consistent_adds : c.Consistent ⟨false, [], []⟩ fun p => (c.adds p).log where
  created hne := absurd rfl hne
  nodup := List.nodup_nil
  stored p := ⟨fun h => absurd h List.not_mem_nil, fun ⟨_, _, h⟩ => absurd h List.not_mem_nil⟩
  tells p e he := absurd he List.not_mem_nil
  since p pairs := fun ⟨front, back, heq, _⟩ => absurd heq (by simp [adds, begin, Call.begin])
  inserted h := by cases h
  queued p message :=
    ⟨fun h => absurd h List.not_mem_nil, fun ⟨_, h⟩ => absurd h List.not_mem_nil⟩
  single := Nat.zero_le 1

/-- What every run of the two calls keeps, and what `E` says of what has been done if the steps that
meet the condition `C` keep it. -/
theorem consistent_of_run {E : Progress → Prop}
    {C : Database × (Bool → ServiceCall MessageStatus) → Bool × Answered Query Query.Answer JsError →
      Prop} (hnew : c.Absent db) (hidle : E ⟨false, [], []⟩)
    (hkeep : ∀ a calls p e a', E a → C (c.database db a, calls) (p, e) → c.Moves p a e a' → E a')
    (hrun : Run (Guarded C (Interleaved (Query.Reliably wallets))) (db, c.adds) trace m) :
    (∃ a, m.1 = c.database db a ∧ (c.Consistent a fun p => (m.2 p).log) ∧ E a) ∧
      ∀ p, (m.2 p).Follows (c.Possible db p) (c.Awaits p) (c.Failed p) fun log _ => c.Resolved log := by
  refine follows_of_run
    (I := fun db' calls =>
      ∃ a, db' = c.database db a ∧ (c.Consistent a fun p => (calls p).log) ∧ E a)
    (fun _ _ _ h => h.2) ?_ ?_ hrun ?_ fun p => goes_add hnew
  · rintro _ calls p e _ ⟨a, rfl, h, _⟩ ⟨_, ⟨hstep⟩⟩
    exact ⟨a, _, ⟨h.created, h.stored p, h.tells p⟩, hstep.answers_eq⟩
  · rintro _ calls p e db' _ ⟨a, rfl, h, hE⟩ hfollows ⟨hC, ⟨hstep⟩⟩
    have hawaits := (hfollows p).awaited_of_pending hstep.pending
    obtain ⟨a', rfl, hmoves⟩ := moves_of_reliably hnew hawaits hstep.answers_eq
    refine ⟨a', rfl, h.moves ?_ (fun q hq => ?_) hmoves hawaits, hkeep _ _ _ _ _ hE hC hmoves⟩
    · simp [hstep.log_eq]
    · simp [hq]
  · exact ⟨⟨false, [], []⟩, (c.database_idle db).symm, consistent_adds, hidle⟩

end

/-! ## One call alone -/

/-- A call that nothing comes between goes from what has been done to what has been done then. -/
abbrev Returns (db : Database) (a : Progress) (x : Promise α) (v : α) (a' : Progress) : Prop :=
  Runs (Query.Reliably wallets) (c.database db a, x) (c.database db a', .done (.ok v))

section
variable {c} {db : Database} {p : Bool} {a : Progress}

theorem returns_query {q : Query} {v : q.Answer}
    (h : q.Effect wallets (c.database db a) v (c.database db a')) :
    c.Returns db a (query q) v a' :=
  runs_perform h

theorem returns_lift {x : Except String α} (h : x = .ok v) :
    c.Returns db a (Promise.lift x) v a := by
  rw [h]
  exact .refl

theorem returns_ensure {condition : Prop} [Decidable condition] (h : condition) :
    c.Returns db a (ensure condition e) () a := by
  rw [ensure, if_pos h]
  exact .refl

theorem returns_getMessage (hnew : c.Absent db) :
    c.Returns db a (PendingMessagesSQLStore.getMessage c.messageHash)
      (if a.created then some c.messageRow else none) a :=
  returns_query (q := .selectMessage _) ⟨(find_messages hnew).symm, rfl⟩

theorem returns_getCollectedSignatureKeyPairs (hnew : c.Absent db)
    (hpairs : pairs.Perm (a.stored.map c.pair)) :
    c.Returns db a (PendingMessagesSQLStore.getCollectedSignatureKeyPairs c.messageHash) pairs a :=
  returns_query (q := .selectSignatureKeyPairs _) ⟨(collected_database hnew).symm ▸ hpairs, rfl⟩

theorem returns_get (hnew : c.Absent db) (hcreated : a.created = true) :
    c.Returns db a (PendingMessagesSQLStore.get c.messageHash)
      ⟨a.stored.map c.pair, none, c.unsigned.from_⟩ a := by
  refine (returns_getMessage hnew).bind ?_
  rw [if_pos hcreated]
  exact (returns_getCollectedSignatureKeyPairs hnew (.refl _)).bind .refl

theorem returns_isPresent (hnew : c.Absent db) (hcreated : a.created = false → a.stored = []) :
    c.Returns db a (PendingMessages.isPresent c.messageHash) a.created a := by
  refine (returns_getMessage hnew).bind
    ((returns_getCollectedSignatureKeyPairs hnew (.refl _)).bind ?_)
  cases h : a.created with
  | true => exact .refl
  | false =>
    rw [hcreated h]
    exact .refl

theorem returns_getStatus (hnew : c.Absent db) (hcreated : a.created = true) :
    c.Returns db a (PendingMessagesSQLStore.getStatus c.messageHash)
      ⟨none, (a.stored.map c.pair).map (·.signature), (a.stored.map c.pair).length,
        c.wallet.requiredSignatures, none⟩ a :=
  (returns_get hnew hcreated).bind
    ((returns_query (q := .requiredSignatures _) ⟨c.requires_iff.mpr rfl, rfl⟩).bind .refl)

theorem returns_isEnoughSignatures (hnew : c.Absent db) (hcreated : a.created = true) :
    c.Returns db a (PendingMessages.isEnoughSignatures c.messageHash)
      (decide (c.wallet.requiredSignatures.toNat ≤ a.stored.length)) a := by
  refine (returns_getStatus hnew hcreated).bind ?_
  rw [List.length_map]
  exact .refl

theorem returns_addSignatureToPendingMessage (hnew : c.Absent db) (hcreated : a.created = true)
    (hother : ∀ q ∈ a.stored, c.signature q ≠ c.signature p) :
    c.Returns db a
      (PendingMessages.addSignatureToPendingMessage ethers c.messageHash (c.message p)) ()
      { a with stored := a.stored ++ [p] } := by
  have hnone : (a.stored.find? (c.signature · = c.signature p)).map c.row = none := by
    rw [List.find?_eq_none.mpr fun q hq => by simpa using hother q hq, Option.map_none]
  have hcontain : c.Returns db a
      (PendingMessagesSQLStore.containSignature c.messageHash (c.signature p)) false a :=
    (returns_query (q := .selectSignature _ _)
      ⟨((find_signatureKeyPairs hnew).trans hnone).symm, rfl⟩).bind .refl
  obtain ⟨purpose, hpurpose⟩ := c.exists_hasPurpose p
  have hcorrect : c.Returns db a
      (PendingMessages.ensureCorrectKeyPurpose ethers (c.message p) c.unsigned.from_) () a :=
    (returns_lift c.hash_eq).bind ((returns_lift (c.key_eq p)).bind
      ((returns_query (q := .getKeyPurpose _ _) ⟨hpurpose, rfl⟩).bind
        (returns_ensure (c.purpose_ne hpurpose))))
  have hadd : c.Returns db a
      (PendingMessagesSQLStore.addSignature ethers c.messageHash (c.signature p)) ()
      { a with stored := a.stored ++ [p] } := by
    refine (returns_lift (c.key_eq p)).bind (returns_query (q := .insertSignatureKeyPair _) (v := ()) ⟨?_, ?_⟩)
    · exact ⟨c.messageRow, by simp [database, hcreated], rfl⟩
    · simp [database, row, pair]
  exact (returns_get hnew hcreated).bind ((returns_ensure rfl).bind
    (hcontain.bind ((returns_ensure rfl).bind (hcorrect.bind hadd))))

theorem returns_onReadyToExecute {joined : JsString} (hnew : c.Absent db)
    (hcreated : a.created = true)
    (hqueued : a.queued = []) (henough : c.wallet.requiredSignatures.toNat ≤ a.stored.length)
    (hpairs : pairs.Perm (a.stored.map c.pair))
    (hsorted : sortSignatureKeyPairsByKey pairs = .ok sorted)
    (hsignature : concatenateSignatures (sorted.map (·.signature)) = .ok joined) (now : Nat) :
    c.Returns db a (PendingMessages.onReadyToExecute ethers c.messageHash (c.message p))
      c.messageHash { a with queued := [(p, { c.unsigned with signature := joined }, now)] } := by
  have hfinal : c.Returns db a (PendingMessages.getMessageWithSignatures (c.message p) c.messageHash)
      { c.unsigned with signature := joined } a :=
    (returns_getCollectedSignatureKeyPairs hnew hpairs).bind ((returns_lift hsorted).bind
      ((returns_lift hsignature).bind .refl))
  have hcorrect : c.Returns db a (PendingMessages.ensureCorrectExecution c.messageHash) () a :=
    (returns_getStatus hnew hcreated).bind ((returns_ensure rfl).bind
      ((returns_isEnoughSignatures hnew hcreated).bind (returns_ensure (decide_eq_true henough))))
  refine hfinal.bind (hcorrect.bind ((returns_lift c.hash_eq).bind ?_))
  refine (returns_query (q := .insertFinalMessage _ _) (v := ()) ⟨?_, now, ?_⟩).bind .refl
  · simpa [database, hqueued] using hnew.finalMessages
  · simp [database, hqueued, finalRow]

theorem returns_add (hnew : c.Absent db) (hcreated : a.created = false → a.stored = [])
    (hother : ∀ q ∈ a.stored, c.signature q ≠ c.signature p)
    (hnext : a' = ⟨true, a.stored ++ [p], a.queued⟩)
    (henough : c.wallet.requiredSignatures.toNat ≤ a'.stored.length → ∃ messageHash, c.Returns db a'
      (PendingMessages.onReadyToExecute ethers c.messageHash (c.message p)) messageHash a'')
    (hfew : a'.stored.length < c.wallet.requiredSignatures.toNat → a'' = a') :
    ∃ status, c.Returns db a (PendingMessages.add ethers (c.message p)) status a'' := by
  have hcreate : c.Returns db a (if a.created then pure () else
      PendingMessagesSQLStore.add c.messageHash (createPendingMessage c.unsigned.from_)) ()
      { a with created := true } := by
    cases h : a.created with
    | true =>
      rw [show ({ a with created := true } : Progress) = a by rw [← h]]
      exact .refl
    | false =>
      refine returns_query (q := .insertMessage _) (v := ()) ⟨?_, ?_⟩
      · simpa [database, h] using hnew.messages
      · simp [database, h, messageRow, createPendingMessage]
  have hadd : c.Returns db { a with created := true }
      (PendingMessages.addSignatureToPendingMessage ethers c.messageHash (c.message p)) () a' := by
    rw [hnext]
    exact returns_addSignatureToPendingMessage hnew rfl hother
  have hcreated' : a'.created = true := by rw [hnext]
  have hrest : ∀ status : MessageStatus, ∃ status', c.Returns db a'
      (if decide (c.wallet.requiredSignatures.toNat ≤ a'.stored.length) then do
        let queued ← PendingMessages.onReadyToExecute ethers c.messageHash (c.message p)
        return { status with messageHash := some queued }
      else return status) status' a'' := by
    intro status
    by_cases h : c.wallet.requiredSignatures.toNat ≤ a'.stored.length
    · obtain ⟨messageHash, hready⟩ := henough h
      rw [decide_eq_true h]
      exact ⟨_, hready.bind .refl⟩
    · rw [decide_eq_false h, hfew (Nat.lt_of_not_le h)]
      exact ⟨status, .refl⟩
  obtain ⟨status, hrest⟩ := hrest _
  exact ⟨status, (returns_lift c.hash_eq).bind ((returns_isPresent hnew hcreated).bind (hcreate.bind
    (hadd.bind ((returns_getStatus hnew hcreated').bind
      ((returns_isEnoughSignatures hnew hcreated').bind hrest)))))⟩

end

end Cosigned

end UniversalLogin
