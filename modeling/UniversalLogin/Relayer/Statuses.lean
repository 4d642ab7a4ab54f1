import UniversalLogin.Relayer.Loops
import UniversalLogin.Relayer.Signers

/-!
# Statuses

The status of a message is read from two tables in several queries. Rows are not taken away, and a
row of the queue goes from open to marked and then stays as it is (`Database.Progress`). So what a
call of `getStatus` has read is not older than what another has read before (`Later`), and the
statuses go forward from stage to stage.
-/

namespace UniversalLogin

open Async Labelled

/-! ## Stages -/

/-- The states of a message. -/
inductive Stage
  | AwaitSignature
  | Queued
  | Success (transactionHash : JsString)
  | Error (error : JsString)
  deriving DecidableEq

/-- A message goes from one stage to another, or stays. -/
def Stage.Before : Stage → Stage → Prop
  | AwaitSignature, _ => True
  | Queued, stage => stage ≠ AwaitSignature
  | Success transactionHash, stage => stage = Success transactionHash
  | Error error, stage => stage = Error error

/-- The stage that a status tells, if it is that of one. -/
def MessageHandler.Status.stage (status : MessageHandler.Status) : Option Stage :=
  match status.messageHash, status.transactionHash, status.error with
  | none, none, none => some .AwaitSignature
  | some _, none, none => some .Queued
  | some _, some transactionHash, none => some (.Success transactionHash)
  | some _, none, some error => some (.Error error)
  | _, _, _ => none

/-- The stage of a message whose row in the queue was read. -/
def stageOf : Option FinalMessageRow → Stage
  | none => .AwaitSignature
  | some row =>
    match row.error, row.transactionHash with
    | some error, _ => .Error error
    | none, some transactionHash => .Success transactionHash
    | none, none => .Queued

theorem stage_merge {pendingStatus : MessageStatus} {queueRow : Option FinalMessageRow}
    (hpending : pendingStatus.messageHash = none)
    (hwaits : queueRow = none → pendingStatus.transactionHash = none)
    (honce : ∀ row ∈ queueRow, row.transactionHash = none ∨ row.error = none) :
    (MessageHandler.merge pendingStatus (queueRow.map (·.status))).stage =
      some (stageOf queueRow) := by
  cases queueRow with
  | none => simp [MessageHandler.merge, MessageHandler.Status.stage, stageOf, hpending, hwaits rfl]
  | some row =>
    obtain ⟨messageHash, message, transactionHash, error, createdAt⟩ := row
    rcases honce _ rfl with rfl | rfl
    · cases error <;> rfl
    · cases transactionHash <;> rfl

/-! ## Rows that go forward -/

/-- The same row, the second time not before the first. -/
def FinalMessageRow.Precedes (row row' : FinalMessageRow) : Prop :=
  row'.messageHash = row.messageHash ∧
    (row.isOpen ∨ row'.transactionHash = row.transactionHash ∧ row'.error = row.error)

theorem FinalMessageRow.Precedes.refl (row : FinalMessageRow) : row.Precedes row :=
  ⟨rfl, .inr ⟨rfl, rfl⟩⟩

theorem FinalMessageRow.Precedes.trans {row row' row'' : FinalMessageRow} (h : row.Precedes row')
    (h' : row'.Precedes row'') : row.Precedes row'' := by
  refine ⟨h'.1.trans h.1, ?_⟩
  rcases h.2 with hopen | ⟨htransaction, herror⟩
  · exact .inl hopen
  · rcases h'.2 with ⟨hnone, hnone'⟩ | ⟨htransaction', herror'⟩
    · exact .inl ⟨htransaction.symm.trans hnone, herror.symm.trans hnone'⟩
    · exact .inr ⟨htransaction'.trans htransaction, herror'.trans herror⟩

theorem FinalMessageRow.Precedes.before {row row' : FinalMessageRow} (h : row.Precedes row') :
    (stageOf (some row)).Before (stageOf (some row')) := by
  rcases h.2 with ⟨htransaction, herror⟩ | ⟨htransaction, herror⟩
  · simp only [stageOf, htransaction, herror, Stage.Before]
    cases row'.error <;> cases row'.transactionHash <;> simp
  · simp only [stageOf, htransaction, herror]
    cases row.error <;> cases row.transactionHash <;> simp [Stage.Before]

/-- No row is taken away, and those of the queue go forward. -/
structure Database.Progress (db db' : Database) : Prop where
  messages : ∀ row ∈ db.messages, ∃ row' ∈ db'.messages, row'.messageHash = row.messageHash
  finalMessages : ∀ row ∈ db.finalMessages, ∃ row' ∈ db'.finalMessages, row.Precedes row'

namespace Database.Progress

theorem refl (db : Database) : db.Progress db :=
  ⟨fun row hrow => ⟨row, hrow, rfl⟩, fun row hrow => ⟨row, hrow, .refl row⟩⟩

theorem trans (h : Progress db db') (h' : Progress db' db'') : Progress db db'' := by
  refine ⟨fun row hrow => ?_, fun row hrow => ?_⟩
  · obtain ⟨row', hrow', hhash⟩ := h.messages row hrow
    obtain ⟨row'', hrow'', hhash'⟩ := h'.messages row' hrow'
    exact ⟨row'', hrow'', hhash'.trans hhash⟩
  · obtain ⟨row', hrow', hprecedes⟩ := h.finalMessages row hrow
    obtain ⟨row'', hrow'', hprecedes'⟩ := h'.finalMessages row' hrow'
    exact ⟨row'', hrow'', hprecedes.trans hprecedes'⟩

end Database.Progress

/-- What an answer still tells of the tables when they have made progress. -/
def Tells (db : Database) : Answered Query Query.Answer JsError → Prop
  | ⟨.selectMessage messageHash, .ok (some row)⟩ =>
    (∃ row' ∈ db.messages, row'.messageHash = messageHash) ∧
      (row.transactionHash ≠ none → ∃ r ∈ db.finalMessages, r.messageHash = messageHash)
  | ⟨.selectFinalMessage messageHash, .ok (some row)⟩ =>
    row.messageHash = messageHash ∧ (row.transactionHash = none ∨ row.error = none) ∧
      ∃ row' ∈ db.finalMessages, row.Precedes row'
  | _ => True

/-- The answer was given when the tables had made progress. -/
def Later (db : Database) : Answered Query Query.Answer JsError → Prop
  | ⟨.selectMessage messageHash, .ok none⟩ => ∀ row ∈ db.messages, row.messageHash ≠ messageHash
  | ⟨.selectFinalMessage messageHash, .ok found⟩ =>
    ∀ row ∈ db.finalMessages, row.messageHash = messageHash → ∃ row' ∈ found, row.Precedes row'
  | _ => True

/-- After a call has found a transaction of a message, it finds the message in the queue. -/
def Log.Ordered (log : Log) : Prop :=
  ∀ messageHash front back row,
    log = front ++ told (.selectFinalMessage messageHash) none :: back →
      told (.selectMessage messageHash) (some row) ∈ front → row.transactionHash = none

theorem Tells.progress (h : Tells db e) (hprogress : db.Progress db') : Tells db' e := by
  obtain ⟨q, r⟩ := e
  cases r with
  | error e => cases q <;> trivial
  | ok a =>
    cases q with
    | selectMessage messageHash =>
      cases a with
      | none => trivial
      | some row =>
        obtain ⟨⟨row', hrow', hhash⟩, hqueued⟩ := h
        obtain ⟨row'', hrow'', hhash'⟩ := hprogress.messages row' hrow'
        refine ⟨⟨row'', hrow'', hhash'.trans hhash⟩, fun htransaction => ?_⟩
        obtain ⟨r, hr, hrHash⟩ := hqueued htransaction
        obtain ⟨r', hr', hprecedes⟩ := hprogress.finalMessages r hr
        exact ⟨r', hr', hprecedes.1.trans hrHash⟩
    | selectFinalMessage messageHash =>
      cases a with
      | none => trivial
      | some row =>
        obtain ⟨hhash, honce, row', hrow', hprecedes⟩ := h
        obtain ⟨row'', hrow'', hprecedes'⟩ := hprogress.finalMessages row' hrow'
        exact ⟨hhash, honce, row'', hrow'', hprecedes.trans hprecedes'⟩
    | _ => trivial

/-- What is read is not older than the tables that have made progress since. -/
theorem later_of_answers {q : Query} {r : Except JsError q.Answer} (hprogress : db₀.Progress db)
    (hnodup : (db.finalMessages.map (·.messageHash)).Nodup) (h : q.Answers wallets db r db') :
    Later db₀ ⟨q, r⟩ := by
  cases r with
  | error e => cases q <;> trivial
  | ok a =>
    cases q with
    | selectMessage messageHash =>
      cases a with
      | none =>
        obtain ⟨ha, _⟩ := h
        intro row hrow hhash
        obtain ⟨row', hrow', hhash'⟩ := hprogress.messages row hrow
        have hnone := List.find?_eq_none.mp ha.symm row' hrow'
        simp [hhash', hhash] at hnone
      | some row => trivial
    | selectFinalMessage messageHash =>
      obtain ⟨ha, _⟩ := h
      intro row hrow hhash
      obtain ⟨row', hrow', hprecedes⟩ := hprogress.finalMessages row hrow
      cases a with
      | none =>
        have hnone := List.find?_eq_none.mp ha.symm row' hrow'
        simp [hprecedes.1, hhash] at hnone
      | some found =>
        have hfound : found.messageHash = messageHash := by simpa using List.find?_some ha.symm
        have hsame := List.inj_on_of_nodup_map hnodup (List.mem_of_find?_eq_some ha.symm) hrow'
          (hfound.trans (hprecedes.1.trans hhash).symm)
        exact ⟨found, rfl, hsame ▸ hprecedes⟩
    | _ => trivial

namespace Handler

section
variable {C : Type} {wallets : Address → Option Storage} {executor : Executor} {ethers : Ethers}
  {requests : C → Request} {m m' : Handler C}

theorem Works.precedes (h : Works ethers executor m e m') (htidy : Tidy m) :
    ∀ row ∈ m.db.finalMessages, ∃ row' ∈ m'.db.finalMessages, row.Precedes row' := by
  intro row hrow
  cases h with
  | inserted _ _ hrows _ => exact ⟨row, hrows ▸ List.mem_append_left _ hrow, .refl row⟩
  | aside _ hrows _ | took hrows | passed hrows | executed hrows => exact ⟨row, hrows ▸ hrow, .refl row⟩
  | marked hrows hcurrent hawaits =>
    refine ⟨_, hrows ▸ List.mem_map_of_mem hrow, messageHash_markRow, ?_⟩
    obtain ⟨row', hrow', hopen, hdecodes⟩ := htidy.holding _ (.inr ⟨_, hcurrent, hawaits.2.1⟩)
    rw [markRow]
    split
    · next hhash =>
      cases htidy.eq_of_hash hrow hrow' (hhash.trans hdecodes.1.symm)
      exact .inl hopen
    · exact .inr ⟨rfl, rfl⟩

/-- What the clients have been answered, and the rows that have a transaction. -/
structure Told (m : Handler C) : Prop where
  queued : ∀ row ∈ m.db.messages, row.transactionHash ≠ none →
    ∃ r ∈ m.db.finalMessages, r.messageHash = row.messageHash
  tells : ∀ c, ∀ e ∈ (m.calls c).log, Tells m.db e
  ordered : ∀ c, Log.Ordered (m.calls c).log

namespace Told

theorem initial : Told (.initial ethers .empty requests : Handler C) where
  queued := fun _ h => by cases h
  tells := fun _ _ h => by cases h
  ordered := fun _ _ front _ _ h => by
    cases front <;> cases h

theorem tells_of_answers {q : Query} {r : Except JsError q.Answer} (h : Told m) (htidy : Tidy m)
    (hanswer : q.Answers wallets m.db r db') : Tells m.db ⟨q, r⟩ := by
  cases r with
  | error e => cases q <;> trivial
  | ok a =>
    cases q with
    | selectMessage messageHash =>
      cases a with
      | none => trivial
      | some row =>
        obtain ⟨ha, _⟩ := hanswer
        have hmem := List.mem_of_find?_eq_some ha.symm
        have hhash : row.messageHash = messageHash := by simpa using List.find?_some ha.symm
        exact ⟨⟨row, hmem, hhash⟩, fun htransaction => hhash ▸ h.queued row hmem htransaction⟩
    | selectFinalMessage messageHash =>
      cases a with
      | none => trivial
      | some row =>
        obtain ⟨ha, _⟩ := hanswer
        have hmem := List.mem_of_find?_eq_some ha.symm
        have hhash : row.messageHash = messageHash := by simpa using List.find?_some ha.symm
        exact ⟨hhash, htidy.once row hmem, row, hmem, .refl row⟩
    | _ => trivial

theorem ordered_append {q : Query} {r : Except JsError q.Answer} (h : Told m)
    (hanswer : q.Answers wallets m.db r db') : Log.Ordered ((m.calls c).log ++ [⟨q, r⟩]) := by
  intro messageHash front back row heq hmem
  rcases List.eq_nil_or_concat back with rfl | ⟨back, e, rfl⟩
  · -- the queue is read last, when the row of the message may have a transaction
    obtain ⟨hfront, hlast⟩ := List.append_inj' heq rfl
    subst hfront
    cases hlast
    obtain ⟨ha, _⟩ := hanswer
    by_contra htransaction
    obtain ⟨r, hr, hhash⟩ := (h.tells c _ hmem).2 htransaction
    have hnone := List.find?_eq_none.mp ha.symm r hr
    simp [hhash] at hnone
  · rw [List.concat_eq_append, ← List.cons_append, ← List.append_assoc] at heq
    exact h.ordered c messageHash front back row (List.append_inj' heq rfl).1 hmem

theorem queued_of_messages_eq (h : Told m) (hprogress : m.db.Progress m'.db)
    (hmessages : ∀ row ∈ m'.db.messages, row ∈ m.db.messages ∨ row.transactionHash = none ∨
      ∃ r ∈ m.db.finalMessages, r.messageHash = row.messageHash) :
    ∀ row ∈ m'.db.messages, row.transactionHash ≠ none →
      ∃ r ∈ m'.db.finalMessages, r.messageHash = row.messageHash := by
  intro row hrow htransaction
  have hqueued : ∃ r ∈ m.db.finalMessages, r.messageHash = row.messageHash := by
    rcases hmessages row hrow with hrow | hnone | hqueued
    · exact h.queued row hrow htransaction
    · exact absurd hnone htransaction
    · exact hqueued
  obtain ⟨r, hr, hhash⟩ := hqueued
  obtain ⟨r', hr', hprecedes⟩ := hprogress.finalMessages r hr
  exact ⟨r', hr', hprecedes.1.trans hhash⟩

theorem messages_of_client {q : Query} {r : Except JsError q.Answer} {request : Request}
    {db db' : Database} {row : MessageRow} {log : Log}
    (hawaits : request.Awaits ethers log q) (hanswer : q.Answers wallets db r db')
    (hrow : row ∈ db'.messages) : row ∈ db.messages ∨ row.transactionHash = none := by
  cases r with
  | error e =>
    cases hanswer
    exact .inl hrow
  | ok a =>
    rcases Query.Effect.messages_cases hanswer hawaits.not_deletes with
      ⟨_, _, hrows⟩ | ⟨row', rfl, _, hrows⟩ | ⟨_, _, rfl, _⟩
    · exact .inl (hrows ▸ hrow)
    · rw [hrows] at hrow
      rcases List.mem_append.mp hrow with hrow | hrow
      · exact .inl hrow
      · cases List.mem_singleton.mp hrow
        exact .inr hawaits.transactionHash_eq
    · exact hawaits.not_updates.elim

/-- An execution sets the transaction of the message that its loop holds. -/
theorem messages_of_executed {q : Query} {r : Except JsError q.Answer} (htidy : Tidy m)
    (hcurrent : m.current = .executing next call)
    (hawaits : MessageQueueService.Awaits executor next.message next.messageHash call.log q)
    (hanswer : q.Answers wallets m.db r db') (hrow : row ∈ db'.messages) :
    row ∈ m.db.messages ∨ ∃ r ∈ m.db.finalMessages, r.messageHash = row.messageHash := by
  cases r with
  | error e =>
    cases hanswer
    exact .inl hrow
  | ok a =>
    rcases Query.Effect.messages_cases hanswer hawaits.not_deletes with
      ⟨_, _, hrows⟩ | ⟨_, rfl, _⟩ | ⟨messageHash, transactionHash, rfl, hrows⟩
    · exact .inl (hrows ▸ hrow)
    · cases hawaits
    · rw [hrows] at hrow
      obtain ⟨row', hrow', rfl⟩ := List.mem_map.mp hrow
      split
      · next hhash =>
        obtain ⟨rfl, hnot, _⟩ := hawaits
        obtain ⟨r, hr, _, hdecodes⟩ := htidy.holding next (.inr ⟨call, hcurrent, hnot⟩)
        exact .inr ⟨r, hr, hdecodes.1.trans hhash.symm⟩
      · exact .inl hrow'

theorem serves (h : Told m) (htidy : Tidy m) (halone : m.Alone) (hprogress : m.db.Progress m'.db)
    (hserves : Serves wallets ethers executor requests m e m') : Told m' := by
  cases hserves with
  | @client c e _ hawaits hcall hothers =>
    obtain ⟨q, r⟩ := e
    have hanswer : q.Answers wallets m.db r m'.db := hcall.answers_eq
    refine ⟨h.queued_of_messages_eq hprogress ?_, fun c' e he => ?_, fun c' => ?_⟩
    · exact fun row hrow => (messages_of_client hawaits hanswer hrow).imp_right .inl
    · by_cases hc : c' = c
      · subst hc
        rw [hcall.log_eq] at he
        rcases List.mem_append.mp he with he | he
        · exact (h.tells c' e he).progress hprogress
        · cases List.mem_singleton.mp he
          exact (h.tells_of_answers htidy hanswer).progress hprogress
      · rw [hothers c' hc] at he
        exact (h.tells c' e he).progress hprogress
    · by_cases hc : c' = c
      · subst hc
        rw [hcall.log_eq]
        exact h.ordered_append hanswer
      · rw [hothers c' hc]
        exact h.ordered c'
  | executed hcalls hloop hawaits hanswer =>
    refine ⟨h.queued_of_messages_eq hprogress ?_, fun c e he => ?_, ?_⟩
    · have hcurrent := halone.current_of_mem hloop fun h => by cases h
      exact fun row hrow => (messages_of_executed htidy hcurrent hawaits hanswer hrow).imp_right .inr
    · exact (h.tells c e (hcalls ▸ he)).progress hprogress
    · simpa only [hcalls] using h.ordered
  | idle hcalls hdb =>
    refine ⟨by simpa only [hdb] using h.queued, fun c e he => ?_, by simpa only [hcalls] using h.ordered⟩
    exact (h.tells c e (hcalls ▸ he)).progress hprogress

end Told

/-! ## Two calls -/

/-- What runs in which no loop is started beside another keep. -/
structure Kept (ethers : Ethers) (executor : Executor) (requests : C → Request) (m : Handler C) :
    Prop where
  coded : Coded ethers executor requests m
  alone : m.Alone
  tidy : Tidy m
  told : Told m

/-- A status that is returned, as it was read. -/
theorem stage_of_kept {status : MessageHandler.Status} (h : Kept ethers executor requests m)
    (hrequest : requests c = .getStatus messageHash)
    (hdone : (m.calls c).rest = .done (.ok (.status (some status)))) :
    ∃ row queueRow, told (.selectMessage messageHash) (some row) ∈ (m.calls c).log ∧
      told (.selectFinalMessage messageHash) queueRow ∈ (m.calls c).log ∧
        status.stage = some (stageOf queueRow) := by
  have hreturns := (h.coded.calls c).of_ok hdone
  rw [hrequest] at hreturns
  rcases hreturns with ⟨_, heq, _⟩ | ⟨front, row, pairs, required, queueRow, hlog, heq⟩
  · cases heq
  · cases heq
    have hrow : told (.selectMessage messageHash) (some row) ∈ (m.calls c).log := by simp [hlog]
    have hqueueRow : told (.selectFinalMessage messageHash) queueRow ∈ (m.calls c).log := by
      simp [hlog]
    refine ⟨row, queueRow, hrow, hqueueRow, stage_merge rfl ?_ fun r hr => ?_⟩
    · rintro rfl
      exact h.told.ordered c messageHash _ [] row hlog (by simp)
    · cases hr
      exact (h.told.tells c _ hqueueRow).2.1

variable [DecidableEq C]

theorem Kept.step (h : Kept ethers executor requests m)
    (hstep : Guarded StartsAlone (Step wallets executor) m e m') :
    Kept ethers executor requests m' ∧ m.db.Progress m'.db := by
  obtain ⟨hstarts, hstep⟩ := hstep
  obtain ⟨hmoves, halone⟩ := moves h.coded h.alone hstarts hstep
  have hserves := serves h.coded hstep
  have hprogress : m.db.Progress m'.db := by
    refine ⟨fun row hrow => ?_, hmoves.works.precedes h.tidy⟩
    obtain ⟨row', hrow', hhash, _⟩ := hserves.grows.messages row hrow
    exact ⟨row', hrow', hhash⟩
  exact ⟨⟨h.coded.step hstep, halone, h.tidy.works hmoves.works,
    h.told.serves h.tidy h.alone hprogress hserves⟩, hprogress⟩

/-- A call that has not begun reads what is not older than the tables are. -/
theorem later_of_run (hrun : Run (Guarded StartsAlone (Step wallets executor)) m trace m')
    (h : Kept ethers executor requests m) (hbegun : (m.calls c).log = []) :
    Kept ethers executor requests m' ∧ ∀ e ∈ (m'.calls c).log, Later m.db e := by
  have hall : Kept ethers executor requests m' ∧ m.db.Progress m'.db ∧
      ∀ e ∈ (m'.calls c).log, Later m.db e := by
    refine hrun.invariant (I := fun m' => Kept ethers executor requests m' ∧ m.db.Progress m'.db ∧
      ∀ e ∈ (m'.calls c).log, Later m.db e) ?_ ⟨h, .refl _, by simp [hbegun]⟩
    intro m₁ e m₂ ⟨hkept, hprogress, hlater⟩ hstep
    obtain ⟨hkept', hprogress'⟩ := hkept.step hstep
    refine ⟨hkept', hprogress.trans hprogress', ?_⟩
    cases serves hkept.coded hstep.2 with
    | @client c' e _ hawaits hcall hothers =>
      by_cases hc : c = c'
      · subst hc
        rw [hcall.log_eq]
        intro e' he'
        rcases List.mem_append.mp he' with he' | he'
        · exact hlater e' he'
        · cases List.mem_singleton.mp he'
          exact later_of_answers hprogress hkept.tidy.nodup hcall.answers_eq
      · rw [hothers c hc]
        exact hlater
    | executed hcalls | idle hcalls => rwa [hcalls]
  exact ⟨hall.1, hall.2.2⟩

theorem kept_of_run
    (hrun : Run (Guarded StartsAlone (Step wallets executor)) (initial ethers .empty requests)
      trace m) : Kept ethers executor requests m := by
  refine hrun.invariant (fun _ _ _ h hstep => (h.step hstep).1) ?_
  exact ⟨.initial, fun _ h => by simp [Handler.initial] at h, .initial, .initial⟩

/-- In every run in which one loop is started at most once, a call of `getStatus` that has not begun
when another one has returned a status of the message returns a status too, and of a stage that is
not before. -/
theorem status_forward
    (hrun : Run (Step wallets executor) (initial ethers .empty requests) trace m)
    (hrun' : Run (Step wallets executor) m trace' m')
    (honce : (trace ++ trace').countP (·.isStart) ≤ 1)
    (hrequest : requests c = .getStatus messageHash)
    (hstatus : (m.calls c).rest = .done (.ok (.status (some status))))
    (hrequest' : requests c' = .getStatus messageHash) (hbegun : (m.calls c').log = [])
    (hstatus' : (m'.calls c').rest = .done (.ok (.status found))) :
    ∃ status' stage stage', found = some status' ∧ status.stage = some stage ∧
      status'.stage = some stage' ∧ stage.Before stage' := by
  rw [List.countP_append] at honce
  have hlength := length_loops_le hrun
  have hnil : (initial ethers .empty requests : Handler C).loops.length = 0 := rfl
  have hkept := kept_of_run (once_alone (by omega) hrun)
  obtain ⟨hkept', hlater⟩ := later_of_run (once_alone (by omega) hrun') hkept hbegun
  obtain ⟨row, queueRow, hrow, hqueueRow, hstage⟩ := stage_of_kept hkept hrequest hstatus
  cases found with
  | none =>
    -- the message has a row, which a call that begins now finds
    obtain ⟨row', hrow', hhash⟩ := (hkept.told.tells c _ hrow).1
    have hreturns := (hkept'.coded.calls c').of_ok hstatus'
    rw [hrequest'] at hreturns
    rcases hreturns with ⟨pairs, _, hlog⟩ | ⟨_, _, _, _, _, _, heq⟩
    · have hnone := hlater (told (.selectMessage messageHash) none) (by simp [hlog])
      exact absurd hhash (hnone row' hrow')
    · cases heq
  | some status' =>
    obtain ⟨row', queueRow', hrow', hqueueRow', hstage'⟩ := stage_of_kept hkept' hrequest' hstatus'
    refine ⟨status', _, _, rfl, hstage, hstage', ?_⟩
    cases queueRow with
    | none => trivial
    | some r =>
      obtain ⟨hhash, _, r', hr', hprecedes⟩ := hkept.told.tells c _ hqueueRow
      have hfound := hlater _ hqueueRow' r' hr' (hprecedes.1.trans hhash)
      obtain ⟨r'', rfl, hprecedes'⟩ := hfound
      exact (hprecedes.trans hprecedes').before

end

/-! ## A message that is signed twice and executed -/

/-- What a call of `getStatus` has returned. -/
def foundStatus (m : Handler C) (c : C) : Option MessageHandler.Status :=
  match (m.calls c).rest with
  | .done (.ok (.status found)) => found
  | _ => none

theorem done_of_foundStatus {m : Handler C} (h : m.foundStatus c = some status) :
    (m.calls c).rest = .done (.ok (.status (some status))) := by
  rw [foundStatus] at h
  split at h
  · next found hdone => rw [hdone, h]
  · cases h

end Handler

namespace Sample

/-- Two signers of a message, and two calls that ask for its status. -/
def signingAndAsking : Bool ⊕ Bool → Request
  | .inl signer => .handleMessage (bySigner signer)
  | .inr _ => .getStatus messageHash

/-- The status is asked for before the second signature. -/
def askedBefore : List (Handler.Turn (Bool ⊕ Bool)) :=
  List.replicate 15 (.client (.inl false)) ++ List.replicate 7 (.client (.inr false))

/-- The status is asked for after the execution. -/
def askedAfter : List (Handler.Turn (Bool ⊕ Bool)) :=
  List.replicate 24 (.client (.inl true)) ++ [.start] ++ List.replicate 12 (.loop 0) ++
    List.replicate 7 (.client (.inr true))

def recoveringExecutor : Executor := { executor with ethers := recovering }

/-- The steps before and those after. -/
def asked : Option ((List (Handler.Event (Bool ⊕ Bool)) × Handler (Bool ⊕ Bool)) ×
    (List (Handler.Event (Bool ⊕ Bool)) × Handler (Bool ⊕ Bool))) := do
  let before ← Handler.turns recoveringExecutor accepting (fun _ _ => True) askedBefore
    (.initial recovering .empty signingAndAsking)
  let after ← Handler.turns recoveringExecutor accepting (fun _ _ => True) askedAfter before.2
  return (before, after)

set_option maxRecDepth 20000 in
theorem asked_stages : asked.map (fun p =>
    ((p.1.1 ++ p.2.1).countP (·.isStart), (p.1.2.calls (.inr true)).log.length,
      (p.1.2.foundStatus (.inr false)).bind (·.stage),
      (p.2.2.foundStatus (.inr true)).bind (·.stage))) =
    some (1, 0, some .AwaitSignature, some (.Success transactionHash)) := by decide

end Sample

namespace Handler

theorem status_forward_sample : ∃ trace trace' m m' status status',
    Run (Step Sample.chain.wallets Sample.recoveringExecutor)
      (initial Sample.recovering .empty Sample.signingAndAsking) trace m ∧
    Run (Step Sample.chain.wallets Sample.recoveringExecutor) m trace' m' ∧
    m.foundStatus (.inr false) = some status ∧ m'.foundStatus (.inr true) = some status' ∧
    ∃ stage stage', status.stage = some stage ∧ status'.stage = some stage' ∧
      stage.Before stage' := by
  obtain ⟨p, hasked, hstages⟩ := Option.map_eq_some_iff.mp Sample.asked_stages
  simp only [Sample.asked, Option.bind_eq_bind, Option.bind_eq_some_iff] at hasked
  obtain ⟨⟨trace, m⟩, hbefore, ⟨trace', m'⟩, hafter, heq⟩ := hasked
  cases Option.some.inj heq
  simp only [Prod.mk.injEq] at hstages
  obtain ⟨hstarts, hlog, hstage, hstage'⟩ := hstages
  obtain ⟨status, hstatus, _⟩ := Option.bind_eq_some_iff.mp hstage
  obtain ⟨status', hstatus', _⟩ := Option.bind_eq_some_iff.mp hstage'
  have hrun := (run_turns Sample.answers_accepting hbefore).of_guarded
  have hrun' := (run_turns Sample.answers_accepting hafter).of_guarded
  refine ⟨trace, trace', m, m', status, status', hrun, hrun', hstatus, hstatus', ?_⟩
  obtain ⟨_, stage, stage', heq, hforward⟩ := status_forward hrun hrun' hstarts.le rfl
    (done_of_foundStatus hstatus) rfl (List.length_eq_zero_iff.mp hlog)
    (done_of_foundStatus hstatus')
  cases heq
  exact ⟨stage, stage', hforward⟩

end Handler

end UniversalLogin
