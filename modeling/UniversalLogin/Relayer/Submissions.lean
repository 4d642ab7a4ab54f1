import UniversalLogin.Relayer.QueueRows
import UniversalLogin.Relayer.Signers

/-!
# Messages handed over to the queue

Every call of `add` that counts enough signatures hands its message over, whether another call has
done so or not. So a message is handed over once as long as the signature with which there are
enough is stored when no other call may hand the message over, and none is stored after it.
-/

namespace UniversalLogin

open Async Labelled

/-- The primary key of `messages`. -/
theorem Query.Answers.nodup_messages {q : Query} {r : Except JsError q.Answer}
    (h : q.Answers wallets db r db') (hdeletes : q.deletes = false)
    (hnodup : (db.messages.map (·.messageHash)).Nodup) :
    (db'.messages.map (·.messageHash)).Nodup := by
  cases r with
  | error e =>
    cases h
    exact hnodup
  | ok a =>
    rcases Query.Effect.messages_cases h hdeletes with
      ⟨_, _, hrows⟩ | ⟨row, _, hnew, hrows⟩ | ⟨messageHash, transactionHash, _, hrows⟩
    · rwa [hrows]
    · rw [hrows, List.map_append, List.nodup_append]
      refine ⟨hnodup, by simp, fun hash hhash hash' hhash' heq => ?_⟩
      obtain ⟨row', hrow', rfl⟩ := List.mem_map.mp hhash
      cases List.mem_singleton.mp hhash'
      exact hnew row' hrow' heq
    · have hsame : (·.messageHash) ∘ (fun r : MessageRow => if r.messageHash = messageHash then
          { r with transactionHash := some transactionHash } else r) = (·.messageHash) := by
        funext r
        simp only [Function.comp_apply]
        split <;> rfl
      rw [hrows, List.map_map, hsame]
      exact hnodup

/-- Only the storing of one of its signatures changes what is collected for a message. -/
theorem Query.Answers.collected_eq {q : Query} {r : Except JsError q.Answer}
    (h : q.Answers wallets db r db') (hdeletes : q.deletes = false)
    (hstores : ∀ row, row.messageHash = messageHash →
      (⟨q, r⟩ : Answered Query Query.Answer JsError) ≠ told (.insertSignatureKeyPair row) ()) :
    db'.collected messageHash = db.collected messageHash := by
  cases r with
  | error e => rw [show db' = db from h]
  | ok a =>
    by_cases hq : ∃ row, q = .insertSignatureKeyPair row
    · obtain ⟨row, rfl⟩ := hq
      obtain ⟨_, rfl⟩ := h
      rw [Database.collected_insert, if_neg fun hhash => hstores row hhash rfl, List.append_nil]
    · rw [Database.collected, Database.collected,
        Query.Effect.signatureKeyPairs_eq h hdeletes (not_exists.mp hq)]

/-- A row of the queue was there before, or is inserted. -/
theorem Query.Answers.queued {q : Query} {r : Except JsError q.Answer}
    (h : q.Answers wallets db r db') (hrow : row ∈ db'.finalMessages) :
    (∃ row' ∈ db.finalMessages, row'.messageHash = row.messageHash) ∨
      ∃ message, (⟨q, r⟩ : Answered Query Query.Answer JsError) =
        told (.insertFinalMessage row.messageHash message) () := by
  cases r with
  | error e =>
    cases h
    exact .inl ⟨row, hrow, rfl⟩
  | ok a =>
    rcases Query.Effect.finalMessages_cases h with
      ⟨_, _, hrows⟩ | ⟨messageHash, message, now, rfl, _, hrows⟩ | ⟨messageHash, data, _, hrows⟩
    · exact .inl ⟨row, hrows ▸ hrow, rfl⟩
    · rw [hrows] at hrow
      rcases List.mem_append.mp hrow with hrow | hrow
      · exact .inl ⟨row, hrow, rfl⟩
      · cases List.mem_singleton.mp hrow
        exact .inr ⟨message, rfl⟩
    · rw [hrows] at hrow
      obtain ⟨row', hrow', rfl⟩ := List.mem_map.mp hrow
      exact .inl ⟨row', hrow', messageHash_markRow.symm⟩

instance (log : Log) (messageHash : Bytes32) : Decidable (log.Stores messageHash) :=
  decidable_of_iff (log.any fun
    | ⟨.insertSignatureKeyPair row, .ok _⟩ => row.messageHash = messageHash
    | _ => false) (by
    rw [List.any_eq_true]
    constructor
    · rintro ⟨⟨q, r⟩, hmem, h⟩
      cases q with
      | insertSignatureKeyPair row =>
        cases r with
        | error e => cases h
        | ok a => exact ⟨row, of_decide_eq_true h, hmem⟩
      | _ => cases h
    · rintro ⟨row, hrow, hmem⟩
      exact ⟨_, hmem, decide_eq_true hrow⟩)

instance (log : Log) (messageHash : Bytes32) : Decidable (log.HandsOver messageHash) :=
  decidable_of_iff (log.any fun
    | ⟨.insertFinalMessage hash _, _⟩ => hash = messageHash
    | _ => false) (by
    rw [List.any_eq_true]
    constructor
    · rintro ⟨⟨q, r⟩, hmem, h⟩
      cases q with
      | insertFinalMessage hash message =>
        cases of_decide_eq_true h
        exact ⟨message, r, hmem⟩
      | _ => cases h
    · rintro ⟨message, r, hmem⟩
      exact ⟨_, hmem, decide_eq_true rfl⟩)

/-- So many signatures of the message are fewer than its wallet is known to require. -/
def TooFew (wallets : Address → Option Storage) (db : Database) (messageHash : Bytes32) (n : Nat) :
    Prop :=
  ∃ row ∈ db.messages, row.messageHash = messageHash ∧
    ∃ s ∈ (toAddress row.walletAddress).bind wallets, n < s.requiredSignatures.toNat

instance : Decidable (TooFew wallets db messageHash n) :=
  inferInstanceAs (Decidable (∃ row ∈ db.messages, row.messageHash = messageHash ∧
    ∃ s ∈ (toAddress row.walletAddress).bind wallets, _))

theorem TooFew.grows (h : TooFew wallets db messageHash n) (hgrows : db.Grows db') :
    TooFew wallets db' messageHash n := by
  obtain ⟨row, hrow, rfl, s, hs, hlt⟩ := h
  obtain ⟨row', hrow', hhash, hwallet⟩ := hgrows.messages row hrow
  exact ⟨row', hrow', hhash, s, hwallet ▸ hs, hlt⟩

theorem TooFew.mono (h : TooFew wallets db messageHash n) (hle : n' ≤ n) :
    TooFew wallets db messageHash n' := by
  obtain ⟨row, hrow, hhash, s, hs, hlt⟩ := h
  exact ⟨row, hrow, hhash, s, hs, hle.trans_lt hlt⟩

/-- A call that has counted enough signatures contradicts that there are too few. -/
theorem TooFew.lt {log : Log} (h : TooFew wallets db messageHash n)
    (hfound : log.FoundEnough messageHash) (hholds : ∀ e ∈ log, Holds db e)
    (hrequired : ∀ a required, told (.requiredSignatures a) required ∈ log →
      Query.Requires wallets a required)
    (hnodup : (db.messages.map (·.messageHash)).Nodup) :
    ∃ pairs, log.counted = some pairs ∧ n < pairs.length ∧
      pairs.length ≤ (db.collected messageHash).length := by
  obtain ⟨row, hrow, rfl, s, hs, hlt⟩ := h
  obtain ⟨found, pairs, required, htold, hasked, hpairs, hcounted, hle⟩ := hfound
  obtain ⟨_, row', hrow', hhash, hwallet⟩ := hholds _ htold
  cases List.inj_on_of_nodup_map hnodup hrow' hrow hhash
  obtain ⟨wallet, haddress, heq⟩ := hrequired _ _ hasked
  obtain ⟨wallet', haddress', hwallets⟩ := Option.bind_eq_some_iff.mp hs
  rw [hwallet] at haddress'
  cases haddress.symm.trans haddress'
  cases heq s hwallets
  exact ⟨pairs, hcounted, hlt.trans_le hle, (hholds _ hpairs).1⟩

/-- The call has stored a signature of the message, and has handed the message over or may do so
yet. -/
def Submitting (wallets : Address → Option Storage) (db : Database) (messageHash : Bytes32)
    (call : ServiceCall α) : Prop :=
  Log.Stores call.log messageHash ∧ (Log.HandsOver call.log messageHash ∨ call.pending ≠ none ∧
    ∀ pairs ∈ Log.counted call.log, ¬ TooFew wallets db messageHash pairs.length)

instance (call : ServiceCall α) : Decidable (Submitting wallets db messageHash call) :=
  inferInstanceAs (Decidable (_ ∧ (_ ∨ _ ∧ ∀ pairs ∈ Log.counted call.log, ¬ _)))

theorem Submitting.of_grows {call : ServiceCall α} (h : Submitting wallets db' messageHash call)
    (hgrows : db.Grows db') : Submitting wallets db messageHash call := by
  refine ⟨h.1, h.2.imp_right fun ⟨hpending, hcounted⟩ => ⟨hpending, fun pairs hpairs => ?_⟩⟩
  exact mt (·.grows hgrows) (hcounted pairs hpairs)

theorem Request.Awaits.of_handsOver {request : Request} (hadd : ∀ message, request ≠ .add message)
    (h : request.Awaits ethers log (.insertFinalMessage messageHash message)) :
    log.Stores messageHash ∧ (∀ hash, ¬ log.HandsOver hash) ∧ log.FoundEnough messageHash := by
  cases request with
  | handleMessage message =>
    obtain ⟨rfl, _, hstores, hnew, hfound, _⟩ := h
    exact ⟨hstores, hnew, hfound⟩
  | getStatus messageHash => cases h
  | add message => exact absurd rfl (hadd message)

namespace Handler

section
variable {C : Type} {wallets : Address → Option Storage} {executor : Executor} {ethers : Ethers}
  {requests : C → Request} {m m' : Handler C}

/-- A signature is stored only if there are too few with it, or no other call may hand the message
over. -/
def StoresInTime (wallets : Address → Option Storage) (m : Handler C) : Event C → Prop
  | .answered c ⟨.insertSignatureKeyPair row, .ok _⟩ =>
    TooFew wallets m.db row.messageHash ((m.db.collected row.messageHash).length + 1) ∨
      ∀ c', c' ≠ c → ¬ Submitting wallets m.db row.messageHash (m.calls c')
  | _ => True

instance [Fintype C] [DecidableEq C] (m : Handler C) (e : Event C) :
    Decidable (StoresInTime wallets m e) :=
  decidable_of_iff ((match e with
    | .answered c ⟨.insertSignatureKeyPair row, .ok _⟩ =>
      decide (TooFew wallets m.db row.messageHash ((m.db.collected row.messageHash).length + 1) ∨
        ∀ c', c' ≠ c → ¬ Submitting wallets m.db row.messageHash (m.calls c'))
    | _ => true : Bool) = true) (by
    cases e with
    | answered _ qr =>
      obtain ⟨q, r⟩ := qr
      cases r <;> cases q <;> simp [StoresInTime]
    | _ => simp [StoresInTime])

/-- The message is handed over. -/
def Event.submits (messageHash : Bytes32) : Event C → Bool
  | answered _ ⟨.insertFinalMessage hash _, _⟩ => hash = messageHash
  | _ => false

theorem Event.eq_of_submits {e : Event C} (h : e.submits messageHash = true) :
    ∃ c message r, e = .answered c ⟨.insertFinalMessage messageHash message, r⟩ := by
  cases e with
  | answered c e =>
    obtain ⟨q, r⟩ := e
    cases q with
    | insertFinalMessage hash message =>
      cases of_decide_eq_true h
      exact ⟨c, message, r, rfl⟩
    | _ => cases h
  | _ => cases h

/-- What runs keep in which signatures are stored in time. -/
structure Orderly (wallets : Address → Option Storage) (m : Handler C) : Prop where
  knows : ∀ c, Knows m.db (m.calls c)
  nodup : (m.db.messages.map (·.messageHash)).Nodup
  required : ∀ c a required, told (.requiredSignatures a) required ∈ (m.calls c).log →
    Query.Requires wallets a required
  handed : ∀ c messageHash, Log.HandsOver (m.calls c).log messageHash →
    Log.Stores (m.calls c).log messageHash ∧ Log.FoundEnough (m.calls c).log messageHash
  queued : ∀ row ∈ m.db.finalMessages, ∃ c, Log.HandsOver (m.calls c).log row.messageHash
  one : ∀ messageHash, TooFew wallets m.db messageHash (m.db.collected messageHash).length ∨
    ∀ c c', Submitting wallets m.db messageHash (m.calls c) →
      Submitting wallets m.db messageHash (m.calls c') → c = c'

namespace Orderly

theorem initial : Orderly wallets (.initial ethers .empty requests : Handler C) where
  knows := fun _ _ h => by cases h
  nodup := List.nodup_nil
  required := fun _ _ _ h => by cases h
  handed := fun _ _ ⟨_, _, h⟩ => by cases h
  queued := fun _ h => by cases h
  one := fun _ => .inr fun _ _ ⟨⟨_, _, h⟩, _⟩ => by cases h

variable (hrequests : ∀ c message, requests c ≠ .add message)
include hrequests

/-- Only the storing of a signature makes a call one that may hand the message over. -/
theorem submitting_of_serves (h : Orderly wallets m)
    (hserves : Serves wallets ethers executor requests m e m')
    (hstores : ∀ row, row.messageHash = messageHash →
      e ≠ .answered c (told (.insertSignatureKeyPair row) ()))
    (hsubmitting : Submitting wallets m'.db messageHash (m'.calls c)) :
    Submitting wallets m.db messageHash (m.calls c) := by
  have hgrows := hserves.grows
  cases hserves with
  | @client c' e _ hawaits hcall hothers =>
    by_cases hc : c = c'
    · subst hc
      obtain ⟨⟨row, hrow, hmem⟩, hrest⟩ := hsubmitting
      rw [hcall.log_eq] at hmem
      have hpending : (m.calls c).pending ≠ none := by simp [hcall.pending]
      have hbefore : Log.Stores (m.calls c).log messageHash := by
        rcases List.mem_append.mp hmem with hmem | hmem
        · exact ⟨row, hrow, hmem⟩
        · cases List.mem_singleton.mp hmem
          exact absurd rfl (hstores row hrow)
      refine ⟨hbefore, ?_⟩
      rcases hrest with ⟨message, r, hmem⟩ | ⟨_, hcounted⟩
      · rw [hcall.log_eq] at hmem
        rcases List.mem_append.mp hmem with hmem | hmem
        · exact .inl ⟨message, r, hmem⟩
        · -- the message is handed over by a call that has counted enough signatures
          cases List.mem_singleton.mp hmem
          obtain ⟨_, _, hfound⟩ := hawaits.of_handsOver (hrequests c)
          refine .inr ⟨hpending, fun pairs hpairs hfew => ?_⟩
          obtain ⟨pairs', hcounted, hlt, _⟩ := hfew.lt hfound (h.knows c) (h.required c) h.nodup
          cases hpairs.symm.trans hcounted
          exact absurd hlt (lt_irrefl _)
      · refine .inr ⟨hpending, fun pairs hpairs => mt (·.grows hgrows) (hcounted pairs ?_)⟩
        rw [hcall.log_eq]
        exact Log.counted_append hpairs _
    · rw [hothers c hc] at hsubmitting
      exact hsubmitting.of_grows hgrows
  | executed hcalls | idle hcalls =>
    rw [hcalls] at hsubmitting
    exact hsubmitting.of_grows hgrows

theorem one_of_serves (h : Orderly wallets m)
    (hserves : Serves wallets ethers executor requests m e m') (htime : StoresInTime wallets m e)
    (messageHash : Bytes32) :
    TooFew wallets m'.db messageHash (m'.db.collected messageHash).length ∨
      ∀ c c', Submitting wallets m'.db messageHash (m'.calls c) →
        Submitting wallets m'.db messageHash (m'.calls c') → c = c' := by
  have hgrows := hserves.grows
  by_cases hstores : ∃ c row, row.messageHash = messageHash ∧
    e = .answered c (told (.insertSignatureKeyPair row) ())
  · obtain ⟨c, row, rfl, rfl⟩ := hstores
    rcases htime with hfew | hothers
    · have hlength : (m'.db.collected row.messageHash).length ≤
          (m.db.collected row.messageHash).length + 1 := by
        cases hserves with
        | client _ hcall =>
          obtain ⟨_, hdb⟩ := hcall.answers_eq
          rw [hdb, Database.collected_insert, if_pos rfl]
          simp
        | idle _ hdb =>
          rw [hdb]
          exact Nat.le_succ _
      exact .inl ((hfew.grows hgrows).mono hlength)
    · refine .inr fun c₁ c₂ h₁ h₂ => ?_
      have hself : ∀ c', Submitting wallets m'.db row.messageHash (m'.calls c') → c' = c := by
        intro c' h'
        by_contra hne
        refine hothers c' hne (h.submitting_of_serves hrequests hserves (fun _ _ heq => ?_) h')
        cases heq
        exact hne rfl
      rw [hself c₁ h₁, hself c₂ h₂]
  · have hne : ∀ c row, row.messageHash = messageHash →
        e ≠ .answered c (told (.insertSignatureKeyPair row) ()) := by
      intro c row hrow heq
      exact hstores ⟨c, row, hrow, heq⟩
    have hcollected : m'.db.collected messageHash = m.db.collected messageHash := by
      cases hserves with
      | @client c e _ hawaits hcall hothers =>
        refine hcall.answers_eq.collected_eq hawaits.not_deletes fun row hrow heq => ?_
        exact hne c row hrow (congrArg _ heq)
      | executed _ _ hawaits hanswer =>
        refine hanswer.collected_eq hawaits.not_deletes fun row hrow heq => ?_
        cases heq
        cases hawaits
      | idle _ hdb => rw [hdb]
    rw [hcollected]
    rcases h.one messageHash with hfew | hone
    · exact .inl (hfew.grows hgrows)
    · refine .inr fun c c' hc hc' => hone c c' ?_ ?_
      · exact h.submitting_of_serves hrequests hserves (hne c) hc
      · exact h.submitting_of_serves hrequests hserves (hne c') hc'

theorem serves (h : Orderly wallets m) (hserves : Serves wallets ethers executor requests m e m')
    (htime : StoresInTime wallets m e) : Orderly wallets m' := by
  have hgrows := hserves.grows
  have hone := h.one_of_serves hrequests hserves htime
  have hknows := hserves.knows h.knows
  cases hserves with
  | @client c e _ hawaits hcall hothers =>
    obtain ⟨q, r⟩ := e
    have hanswer : q.Answers wallets m.db r m'.db := hcall.answers_eq
    have hlog : (m'.calls c).log = (m.calls c).log ++ [⟨q, r⟩] := hcall.log_eq
    refine ⟨hknows, hanswer.nodup_messages hawaits.not_deletes h.nodup, fun c' a required htold => ?_,
      fun c' messageHash hhands => ?_, fun row hrow => ?_, hone⟩
    · by_cases hc : c' = c
      · subst hc
        rw [hlog] at htold
        rcases List.mem_append.mp htold with htold | htold
        · exact h.required c' a required htold
        · cases List.mem_singleton.mp htold
          exact hanswer.1
      · exact h.required c' a required (hothers c' hc ▸ htold)
    · by_cases hc : c' = c
      · subst hc
        obtain ⟨message, r', hmem⟩ := hhands
        rw [hlog] at hmem ⊢
        have hbefore : Log.Stores (m.calls c').log messageHash ∧
            Log.FoundEnough (m.calls c').log messageHash := by
          rcases List.mem_append.mp hmem with hmem | hmem
          · exact h.handed c' messageHash ⟨message, r', hmem⟩
          · cases List.mem_singleton.mp hmem
            obtain ⟨hstores, _, hfound⟩ := hawaits.of_handsOver (hrequests c')
            exact ⟨hstores, hfound⟩
        obtain ⟨⟨row, hrow, hmem⟩, hfound⟩ := hbefore
        exact ⟨⟨row, hrow, List.mem_append_left _ hmem⟩, hfound.append _⟩
      · rw [hothers c' hc] at hhands ⊢
        exact h.handed c' messageHash hhands
    · rcases hanswer.queued hrow with ⟨row', hrow', hhash⟩ | ⟨message, heq⟩
      · obtain ⟨c', message, r', hmem⟩ := h.queued row' hrow'
        rw [hhash] at hmem
        refine ⟨c', message, r', ?_⟩
        by_cases hc : c' = c
        · subst hc
          rw [hlog]
          exact List.mem_append_left _ hmem
        · rwa [hothers c' hc]
      · refine ⟨c, message, .ok (), ?_⟩
        rw [hlog, heq]
        exact List.mem_append_right _ List.mem_cons_self
  | executed hcalls hloop hawaits hanswer =>
    refine ⟨hknows, hanswer.nodup_messages hawaits.not_deletes h.nodup, hcalls ▸ h.required,
      hcalls ▸ h.handed, fun row hrow => ?_, hone⟩
    rcases hanswer.queued hrow with ⟨row', hrow', hhash⟩ | ⟨message, heq⟩
    · rw [hcalls, ← hhash]
      exact h.queued row' hrow'
    · cases heq
      cases hawaits
  | idle hcalls hdb =>
    refine ⟨hknows, hdb ▸ h.nodup, hcalls ▸ h.required, hcalls ▸ h.handed, ?_, hone⟩
    rw [hdb, hcalls]
    exact h.queued

/-- Where a message is about to be handed over, no other call may hand it over, and it is not in the
queue. -/
theorem of_pending (h : Orderly wallets m) (hcoded : Coded ethers executor requests m)
    (hpending : (m.calls c).pending = some (.insertFinalMessage messageHash message)) :
    (∀ c', Submitting wallets m.db messageHash (m.calls c') → c' = c) ∧
      Submitting wallets m.db messageHash (m.calls c) ∧
        ∀ row ∈ m.db.finalMessages, row.messageHash ≠ messageHash := by
  obtain ⟨hstores, hnew, hfound⟩ :=
    ((hcoded.calls c).awaited_of_pending hpending).of_handsOver (hrequests c)
  have hself : Submitting wallets m.db messageHash (m.calls c) := by
    refine ⟨hstores, .inr ⟨by simp [hpending], fun pairs hpairs hfew => ?_⟩⟩
    obtain ⟨pairs', hcounted, hlt, _⟩ := hfew.lt hfound (h.knows c) (h.required c) h.nodup
    cases hpairs.symm.trans hcounted
    exact absurd hlt (lt_irrefl _)
  have hothers : ∀ c', Submitting wallets m.db messageHash (m.calls c') → c' = c := by
    rcases h.one messageHash with hfew | hone
    · obtain ⟨pairs, _, hlt, hle⟩ := hfew.lt hfound (h.knows c) (h.required c) h.nodup
      exact absurd (hlt.trans_le hle) (lt_irrefl _)
    · exact fun c' hc' => hone c' c hc' hself
  refine ⟨hothers, hself, fun row hrow hhash => ?_⟩
  obtain ⟨c', hhands⟩ := h.queued row hrow
  rw [hhash] at hhands
  cases hothers c' ⟨(h.handed c' messageHash hhands).1, .inl hhands⟩
  exact hnew messageHash hhands

/-- No call has handed a message over that another is about to hand over. -/
theorem not_handed (h : Orderly wallets m) (hcoded : Coded ethers executor requests m)
    (hpending : (m.calls c).pending = some (.insertFinalMessage messageHash message)) (c' : C) :
    ¬ Log.HandsOver (m.calls c').log messageHash := by
  intro hhands
  obtain ⟨hothers, _⟩ := h.of_pending hrequests hcoded hpending
  cases hothers c' ⟨(h.handed c' messageHash hhands).1, .inl hhands⟩
  exact (((hcoded.calls c).awaited_of_pending hpending).of_handsOver (hrequests c)).2.1 _ hhands

end Orderly

theorem handsOver_of_serves (hserves : Serves wallets ethers executor requests m e m')
    (h : Log.HandsOver (m.calls c).log messageHash) :
    Log.HandsOver (m'.calls c).log messageHash := by
  obtain ⟨message, r, hmem⟩ := h
  refine ⟨message, r, ?_⟩
  cases hserves with
  | @client c' e _ _ hcall hothers =>
    by_cases hc : c = c'
    · subst hc
      rw [hcall.log_eq]
      exact List.mem_append_left _ hmem
    · rwa [hothers c hc]
  | executed hcalls | idle hcalls => rwa [hcalls]

variable [DecidableEq C]

end

end Handler

namespace Sample

/-- The chain, where the wallet asks for one signature. -/
def oneRequired (a : Address) : Option Storage :=
  (chain.wallets a).map fun s => { s with requiredSignatures := 1 }

def signing (signer : Bool) : Request := .handleMessage (bySigner signer)

def inOrder : List (Handler.Turn Bool) :=
  List.replicate 25 (.client false) ++ List.replicate 25 (.client true)

def rejects (call : ServiceCall Response) : Bool :=
  match call.rest with
  | .done (.error _) => true
  | _ => false

set_option maxRecDepth 20000 in
theorem inOrder_once : ((Handler.turns executor (Query.answer chain.wallets)
      (Handler.StoresInTime chain.wallets) inOrder (.initial recovering .empty signing)).map fun p =>
    p.2.db.finalMessages.length) = some 1 := by decide

set_option maxRecDepth 20000 in
theorem inOrder_twice : ((Handler.turns executor (Query.answer oneRequired) (fun _ _ => True) inOrder
      (.initial recovering .empty signing)).map fun p =>
    (p.1.countP (·.submits messageHash), rejects (p.2.calls true),
      decide (Log.Stores (p.2.calls true).log messageHash))) = some (2, true, true) := by decide

end Sample

namespace Handler

end Handler

end UniversalLogin
