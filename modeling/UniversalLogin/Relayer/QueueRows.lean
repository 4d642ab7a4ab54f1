import UniversalLogin.Relayer.HandlerTurns

/-!
# Rows of the queue

What the steps of a handler do to `finalMessages` while no loop is started beside another: clients
add rows, and the loop marks the row of the message that it executes. The loop holds a message from
when it has read it until it has marked it; as long as it does, the row of the message is open
(`Tidy`). So no message is executed twice at a time, and no row is marked twice.
-/

namespace UniversalLogin

open Async Labelled

/-- The message that `getNext` makes of the row. -/
def FinalMessageRow.Decodes (row : FinalMessageRow) (next : QueuedMessage) : Prop :=
  row.messageHash = next.messageHash ∧
    bignumberifySignedMessageFields row.message = .ok next.message

/-- The message of a row that is inserted. -/
abbrev newRow (messageHash : Bytes32) (message : SignedMessage) (now : Nat) : FinalMessageRow :=
  ⟨messageHash, stringifySignedMessageFields message, none, none, now⟩

/-- An update of the row of a message, if there is one. -/
def markRow (messageHash : Bytes32) (data : QueueItem) (row : FinalMessageRow) : FinalMessageRow :=
  if row.messageHash = messageHash then row.update data else row

@[simp] theorem messageHash_markRow :
    (markRow messageHash data row).messageHash = row.messageHash := by
  rw [markRow]
  split <;> rfl

@[simp] theorem createdAt_markRow : (markRow messageHash data row).createdAt = row.createdAt := by
  rw [markRow]
  split <;> rfl

theorem markRow_of_ne (h : row.messageHash ≠ messageHash) : markRow messageHash data row = row :=
  if_neg h

theorem decodes_markRow : (markRow messageHash data row).Decodes next ↔ row.Decodes next := by
  rw [markRow]
  split <;> rfl

/-- The row has a transaction or an error, and not both. -/
structure FinalMessageRow.Marked (row : FinalMessageRow) : Prop where
  closed : ¬ row.isOpen
  once : row.transactionHash = none ∨ row.error = none

theorem FinalMessageRow.isOpen.marked {row : FinalMessageRow} (hopen : row.isOpen)
    (hdata : (∃ transactionHash, data = { transactionHash := some transactionHash }) ∨
      ∃ error, data = { error := some error }) : (row.update data).Marked := by
  rcases hdata with ⟨transactionHash, rfl⟩ | ⟨error, rfl⟩
  · exact ⟨by simp [update, isOpen], .inr (by simp [update, hopen.2])⟩
  · exact ⟨by simp [update, isOpen], .inl (by simp [update, hopen.1])⟩

theorem MessageQueueService.Awaits.marks {data : QueueItem}
    (h : Awaits executor signedMessage messageHash log (.updateFinalMessage hash' data)) :
    (∃ transactionHash, data = { transactionHash := some transactionHash }) ∨
      ∃ error, data = { error := some error } := by
  obtain ⟨_, _, ⟨_, _, _, rfl⟩ | ⟨_, _, _, rfl⟩⟩ := h
  · exact .inl ⟨_, rfl⟩
  · exact .inr ⟨_, rfl⟩

namespace Query.Effect

variable {q : Query} {a : q.Answer}

theorem messages_cases (h : q.Effect wallets db a db') (hdeletes : q.deletes = false) :
    ((∀ row, q ≠ .insertMessage row) ∧
      (∀ messageHash transactionHash, q ≠ .updateMessage messageHash transactionHash) ∧
        db'.messages = db.messages) ∨
    (∃ row, q = .insertMessage row ∧ (∀ r ∈ db.messages, r.messageHash ≠ row.messageHash) ∧
      db'.messages = db.messages ++ [row]) ∨
    ∃ messageHash transactionHash, q = .updateMessage messageHash transactionHash ∧
      db'.messages = db.messages.map fun r =>
        if r.messageHash = messageHash then { r with transactionHash := some transactionHash }
        else r := by
  cases q with
  | deleteMessage _ | deleteSignatureKeyPairs _ => cases hdeletes
  | insertMessage row =>
    obtain ⟨hnew, rfl⟩ := h
    exact .inr (.inl ⟨row, rfl, hnew, rfl⟩)
  | updateMessage messageHash transactionHash =>
    cases h
    exact .inr (.inr ⟨messageHash, transactionHash, rfl, rfl⟩)
  | insertSignatureKeyPair _ =>
    obtain ⟨_, rfl⟩ := h
    exact .inl ⟨by simp, by simp, rfl⟩
  | insertFinalMessage _ _ =>
    obtain ⟨_, _, rfl⟩ := h
    exact .inl ⟨by simp, by simp, rfl⟩
  | updateFinalMessage _ _ | deleteAuthorisation _ _ =>
    cases h
    exact .inl ⟨by simp, by simp, rfl⟩
  | _ =>
    refine .inl ⟨by simp, by simp, ?_⟩
    rw [h.eq_of_not_writes rfl]

theorem finalMessages_cases (h : q.Effect wallets db a db') :
    ((∀ messageHash message, q ≠ .insertFinalMessage messageHash message) ∧
      (∀ messageHash data, q ≠ .updateFinalMessage messageHash data) ∧
        db'.finalMessages = db.finalMessages) ∨
    (∃ messageHash message now, q = .insertFinalMessage messageHash message ∧
      (∀ r ∈ db.finalMessages, r.messageHash ≠ messageHash) ∧
        db'.finalMessages = db.finalMessages ++ [newRow messageHash message now]) ∨
    ∃ messageHash data, q = .updateFinalMessage messageHash data ∧
      db'.finalMessages = db.finalMessages.map (markRow messageHash data) := by
  cases q with
  | insertFinalMessage messageHash message =>
    obtain ⟨hnew, now, rfl⟩ := h
    exact .inr (.inl ⟨messageHash, message, now, rfl, hnew, rfl⟩)
  | updateFinalMessage messageHash data =>
    cases h
    exact .inr (.inr ⟨messageHash, data, rfl, rfl⟩)
  | insertMessage _ | deleteMessage _ | insertSignatureKeyPair _ =>
    obtain ⟨_, rfl⟩ := h
    exact .inl ⟨by simp, by simp, rfl⟩
  | updateMessage _ _ | deleteSignatureKeyPairs _ | deleteAuthorisation _ _ =>
    cases h
    exact .inl ⟨by simp, by simp, rfl⟩
  | _ =>
    refine .inl ⟨by simp, by simp, ?_⟩
    rw [h.eq_of_not_writes rfl]

end Query.Effect

theorem MessageQueueSQLStore.nextOf_eq_some {r : Except JsError (Option FinalMessageRow)} :
    nextOf r = .ok (some next) ↔ ∃ row, r = .ok (some row) ∧ row.Decodes next := by
  constructor
  · intro h
    cases r with
    | error e => cases h
    | ok row =>
      cases row with
      | none => cases h
      | some row =>
        cases hmessage : bignumberifySignedMessageFields row.message with
        | error e => simp [nextOf, nextMessage, hmessage, Except.mapError] at h
        | ok message =>
          simp only [nextOf, nextMessage, hmessage] at h
          cases h
          exact ⟨row, rfl, rfl, hmessage⟩
  · rintro ⟨row, rfl, hhash, hmessage⟩
    obtain ⟨messageHash, message⟩ := next
    cases hhash
    simp only [nextOf, nextMessage, hmessage]
    rfl

theorem MessageQueueSQLStore.eq_of_nextOf_eq_none {r : Except JsError (Option FinalMessageRow)}
    (h : nextOf r = .ok none) : r = .ok none := by
  cases r with
  | error e => cases h
  | ok row =>
    cases row with
    | none => rfl
    | some row =>
      cases hmessage : bignumberifySignedMessageFields row.message with
      | error e => simp [nextOf, nextMessage, hmessage, Except.mapError] at h
      | ok message =>
        simp only [nextOf, nextMessage, hmessage] at h
        cases h

/-- The loop has read the message and has not marked it. -/
def Loop.Holding (next : QueuedMessage) (loop : Loop) : Prop :=
  loop = .gotNext (.ok (some next)) ∨ ∃ call, loop = .executing next call ∧ ¬ Log.Marked call.log

/-- The loop has no message. -/
def Loop.Resting : Loop → Prop
  | gotNext (.ok (some _)) | executing _ _ => False
  | _ => True

theorem Loop.Resting.not_holding {loop : Loop} (h : loop.Resting) : ¬ loop.Holding next := by
  rintro (rfl | ⟨_, rfl, _⟩) <;> exact h

namespace Handler

section
variable {C : Type} {wallets : Address → Option Storage} {executor : Executor}
  {ethers : Ethers} {requests : C → Request} {tables : Database} {m m' : Handler C}

/-- The event is none of those of which the steps of the queue are told apart. -/
def Event.aside : Event C → Bool
  | answered _ ⟨.insertFinalMessage _ _, .ok _⟩ | passed _ _ | executed _ _ _ => false
  | _ => true

/-- What a step does to the queue and to the loop. -/
inductive Works (ethers : Ethers) (executor : Executor) (m : Handler C) :
    Event C → Handler C → Prop
  | inserted (hhash : calculateMessageHash ethers.crypto message.toUnsignedMessage = .ok messageHash)
      (hnew : ∀ r ∈ m.db.finalMessages, r.messageHash ≠ messageHash)
      (hrows : m₁.db.finalMessages = m.db.finalMessages ++ [newRow messageHash message now])
      (hcurrent : m₁.current = m.current) :
    Works ethers executor m (.answered c (told (.insertFinalMessage messageHash message) ())) m₁
  | aside (hevent : e.aside) (hrows : m₁.db.finalMessages = m.db.finalMessages)
      (hcurrent : m₁.current = m.current ∨
        (∀ next, ¬ m.current.Holding next) ∧ m₁.current.Resting) :
    Works ethers executor m e m₁
  | took (hrows : m₁.db.finalMessages = m.db.finalMessages) (hcurrent : m.current = .gettingNext)
      (hrow : row ∈ m.db.finalMessages) (hopen : row.isOpen)
      (hfirst : ∀ r ∈ m.db.finalMessages, r.isOpen → row.createdAt ≤ r.createdAt)
      (hdecodes : row.Decodes next) (hcurrent' : m₁.current = .gotNext (.ok (some next))) :
    Works ethers executor m (.gotNext i (.ok (some next))) m₁
  | passed (hrows : m₁.db.finalMessages = m.db.finalMessages)
      (hcurrent : m.current = .gotNext (.ok (some next)))
      (hcurrent' : m₁.current = .executing next
        (.begin (MessageQueueService.execute executor next.message next.messageHash))) :
    Works ethers executor m (.passed i next) m₁
  | executed (hrows : m₁.db.finalMessages = m.db.finalMessages)
      (hcurrent : m.current = .executing next call)
      (hawaits : MessageQueueService.Awaits executor next.message next.messageHash call.log e.1)
      (hlog : call'.log = call.log ++ [e]) (hmarked : Log.Marked call'.log ↔ Log.Marked call.log)
      (hcurrent' : m₁.current = .executing next call') :
    Works ethers executor m (.executed i next.messageHash e) m₁
  | marked (hrows : m₁.db.finalMessages = m.db.finalMessages.map (markRow next.messageHash data))
      (hcurrent : m.current = .executing next call)
      (hawaits : MessageQueueService.Awaits executor next.message next.messageHash call.log
        (.updateFinalMessage next.messageHash data))
      (hlog : call'.log = call.log ++ [told (.updateFinalMessage next.messageHash data) ()])
      (hcurrent' : m₁.current = .executing next call') :
    Works ethers executor m
      (.executed i next.messageHash (told (.updateFinalMessage next.messageHash data) ())) m₁

theorem Event.aside_of_ne {q : Query} {r : Except JsError q.Answer} {c : C}
    (h : ∀ messageHash message, q ≠ .insertFinalMessage messageHash message) :
    (Event.answered c ⟨q, r⟩).aside := by
  cases q with
  | insertFinalMessage messageHash message => exact absurd rfl (h messageHash message)
  | _ => rfl

theorem works_of_answered {q : Query} {r : Except JsError q.Answer} {c : C}
    (hawaits : (requests c).Awaits ethers (m.calls c).log q)
    (hanswer : q.Answers wallets m.db r m'.db) (hcurrent : m'.current = m.current) :
    Works ethers executor m (.answered c ⟨q, r⟩) m' := by
  cases r with
  | error e =>
    refine .aside ?_ (congrArg _ hanswer) (.inl hcurrent)
    cases q <;> rfl
  | ok a =>
    rcases Query.Effect.finalMessages_cases hanswer with
      ⟨hne, _, hrows⟩ | ⟨messageHash, message, now, rfl, hnew, hrows⟩ | ⟨messageHash, data, rfl, _⟩
    · exact .aside (Event.aside_of_ne hne) hrows (.inl hcurrent)
    · exact .inserted hawaits.hash_eq hnew hrows hcurrent
    · exact hawaits.not_marks.elim

theorem works_of_gotNext {r : Except JsError (Option FinalMessageRow)} (hdb : m'.db = m.db)
    (hquery : Query.Answers wallets .selectNextFinalMessage m.db r m.db)
    (hcurrent : m.current = .gettingNext)
    (hcurrent' : m'.current = .gotNext (MessageQueueSQLStore.nextOf r)) :
    Works ethers executor m (.gotNext i (MessageQueueSQLStore.nextOf r)) m' := by
  have hrows := congrArg Database.finalMessages hdb
  by_cases hnext : ∃ next, MessageQueueSQLStore.nextOf r = .ok (some next)
  · obtain ⟨next, hnext⟩ := hnext
    rw [hnext] at hcurrent' ⊢
    obtain ⟨row, rfl, hdecodes⟩ := MessageQueueSQLStore.nextOf_eq_some.mp hnext
    obtain ⟨hfirst, hrow, _⟩ := hquery
    obtain ⟨hrow, hopen⟩ := hrow row rfl
    refine .took hrows hcurrent hrow hopen (fun r hr hropen => ?_) hdecodes hcurrent'
    obtain ⟨_, ⟨⟩, hle⟩ := hfirst r hr hropen
    exact hle
  · refine .aside rfl hrows (.inr ⟨fun next => ?_, ?_⟩)
    · simp [hcurrent, Loop.Holding]
    · rw [hcurrent', Loop.Resting.eq_def]
      split
      · next heq => exact hnext ⟨_, Loop.gotNext.inj heq⟩
      · next heq => cases heq
      · trivial

theorem works_of_wentOn (hdb : m'.db = m.db)
    (hgoes : m.current.goOn m.state = some (m'.state, m'.current))
    (hmarked : ∀ next call, m.current = .executing next call → Log.Marked call.log) :
    Works ethers executor m (.wentOn i) m' := by
  refine .aside rfl (congrArg _ hdb) (.inr ⟨fun next => ?_, ?_⟩)
  · rintro (h | ⟨call, h, hnot⟩)
    · rw [h] at hgoes
      cases hgoes
    · exact hnot (hmarked _ _ h)
  · rcases Loop.goOn_eq_some hgoes with ⟨_, _, _, h⟩ | ⟨_, ⟨_, _, h⟩ | ⟨_, h | h⟩⟩ <;>
      rw [h] <;> trivial

theorem works_of_executed {q : Query} {r : Except JsError q.Answer}
    (hcurrent : m.current = .executing next call)
    (hawaits : MessageQueueService.Awaits executor next.message next.messageHash call.log q)
    (hcall : Async.Call.Step (Query.Answers wallets) m.db call ⟨q, r⟩ m'.db call')
    (hcurrent' : m'.current = .executing next call') :
    Works ethers executor m (.executed i next.messageHash ⟨q, r⟩) m' := by
  have hlog := hcall.log_eq
  have hanswer : q.Answers wallets m.db r m'.db := hcall.answers_eq
  cases r with
  | error e =>
    refine .executed (congrArg _ hanswer) hcurrent hawaits hlog ?_ hcurrent'
    rw [hlog]
    exact Log.marked_rejected
  | ok a =>
    rcases Query.Effect.finalMessages_cases hanswer with
      ⟨_, hne, hrows⟩ | ⟨messageHash, message, now, rfl, _⟩ | ⟨messageHash, data, rfl, hrows⟩
    · refine .executed hrows hcurrent hawaits hlog ?_ hcurrent'
      rw [hlog]
      exact Log.marked_append hne
    · cases hawaits
    · cases hawaits.1
      exact .marked hrows hcurrent hawaits hlog hcurrent'

theorem Moves.works (h : Moves wallets ethers executor requests m e m') :
    Works ethers executor m e m' := by
  cases h with
  | client hawaits hanswer hcurrent => exact works_of_answered hawaits hanswer hcurrent
  | idle hidle hdb hcurrent =>
    refine .aside ?_ (congrArg _ hdb) (.inl hcurrent)
    cases e with
    | answered _ _ | passed _ _ | executed _ _ _ => cases hidle
    | _ => rfl
  | started hdb hreturned hcurrent =>
    refine .aside rfl (congrArg _ hdb) (.inr ⟨fun next => ?_, ?_⟩)
    · simp [hreturned, Loop.Holding]
    · rw [hcurrent]
      trivial
  | gotNext hdb hquery hcurrent hcurrent' => exact works_of_gotNext hdb hquery hcurrent hcurrent'
  | wentOn hdb hgoes hmarked => exact works_of_wentOn hdb hgoes hmarked
  | passed hdb hcurrent hcurrent' => exact .passed (congrArg _ hdb) hcurrent hcurrent'
  | executed hcurrent hawaits hcall hcurrent' =>
    exact works_of_executed hcurrent hawaits hcall hcurrent'

/-! ## Open rows -/

/-- Each message has one row, which is marked once, and it is open as long as the loop holds the
message. -/
structure Tidy (m : Handler C) : Prop where
  nodup : (m.db.finalMessages.map (·.messageHash)).Nodup
  once : ∀ row ∈ m.db.finalMessages, row.transactionHash = none ∨ row.error = none
  holding : ∀ next, m.current.Holding next →
    ∃ row ∈ m.db.finalMessages, row.isOpen ∧ row.Decodes next

namespace Tidy

theorem initial : Tidy (.initial ethers .empty requests) where
  nodup := List.nodup_nil
  once := fun _ h => by cases h
  holding := by simp [Loop.Holding, current, Handler.initial]

/-- There is one row for a hash. -/
theorem eq_of_hash (h : Tidy m) (hrow : row ∈ m.db.finalMessages)
    (hrow' : row' ∈ m.db.finalMessages)
    (hhash : row.messageHash = row'.messageHash) : row = row' :=
  List.inj_on_of_nodup_map h.nodup hrow hrow' hhash

theorem of_rows_eq (h : Tidy m) (hrows : m'.db.finalMessages = m.db.finalMessages)
    (hholding : ∀ next, m'.current.Holding next →
      ∃ row ∈ m.db.finalMessages, row.isOpen ∧ row.Decodes next) : Tidy m' where
  nodup := by simpa only [hrows] using h.nodup
  once := by simpa only [hrows] using h.once
  holding := by simpa only [hrows] using hholding

theorem works (h : Tidy m) (hworks : Works ethers executor m e m') : Tidy m' := by
  cases hworks with
  | inserted _ hnew hrows hcurrent =>
    refine ⟨?_, fun row hrow => ?_, fun next hnext => ?_⟩
    · rw [hrows, List.map_append, List.nodup_append]
      refine ⟨h.nodup, by simp, fun hash hhash hash' hhash' heq => ?_⟩
      obtain ⟨row, hrow, rfl⟩ := List.mem_map.mp hhash
      cases List.mem_singleton.mp hhash'
      exact hnew row hrow heq
    · rw [hrows] at hrow
      rcases List.mem_append.mp hrow with hrow | hrow
      · exact h.once row hrow
      · cases List.mem_singleton.mp hrow
        exact .inl rfl
    · rw [hcurrent] at hnext
      obtain ⟨row, hrow, hopen⟩ := h.holding next hnext
      exact ⟨row, hrows ▸ List.mem_append_left _ hrow, hopen⟩
  | aside _ hrows hcurrent =>
    refine h.of_rows_eq hrows fun next hnext => ?_
    rcases hcurrent with hcurrent | hcurrent
    · exact h.holding next (hcurrent ▸ hnext)
    · exact absurd hnext hcurrent.2.not_holding
  | took hrows _ hrow hopen _ hdecodes hcurrent' =>
    refine h.of_rows_eq hrows fun next hnext => ?_
    rw [hcurrent'] at hnext
    rcases hnext with heq | ⟨_, heq, _⟩
    · cases heq
      exact ⟨_, hrow, hopen, hdecodes⟩
    · cases heq
  | passed hrows hcurrent hcurrent' =>
    refine h.of_rows_eq hrows fun next hnext => ?_
    rw [hcurrent'] at hnext
    rcases hnext with heq | ⟨_, heq, _⟩
    · cases heq
    · cases heq
      exact h.holding _ (.inl hcurrent)
  | executed hrows hcurrent _ _ hmarked hcurrent' =>
    refine h.of_rows_eq hrows fun next hnext => ?_
    rw [hcurrent'] at hnext
    rcases hnext with heq | ⟨_, heq, hnot⟩
    · cases heq
    · cases heq
      exact h.holding _ (.inr ⟨_, hcurrent, mt hmarked.mpr hnot⟩)
  | marked hrows hcurrent hawaits hlog hcurrent' =>
    obtain ⟨open₀, hopen₀, hopen, hdecodes⟩ := h.holding _ (.inr ⟨_, hcurrent, hawaits.2.1⟩)
    refine ⟨?_, fun row hrow => ?_, fun next hnext => ?_⟩
    · rw [hrows, List.map_map]
      simpa [Function.comp_def] using h.nodup
    · rw [hrows] at hrow
      obtain ⟨row, hmem, rfl⟩ := List.mem_map.mp hrow
      rw [markRow]
      split
      · next hhash =>
        cases h.eq_of_hash hmem hopen₀ (hhash.trans hdecodes.1.symm)
        exact (hopen.marked hawaits.marks).once
      · exact h.once row hmem
    · rw [hcurrent'] at hnext
      rcases hnext with heq | ⟨_, heq, hnot⟩
      · cases heq
      · cases heq
        exact absurd (hlog ▸ Log.marked_told) hnot

end Tidy

variable [DecidableEq C]

theorem tidy_of_run {C' : Handler C → Event C → Prop} (hstarts : ∀ m e, C' m e → m.StartsAlone e)
    (hrun : Run (Guarded C' (Step wallets executor)) (initial ethers .empty requests) trace m) :
    Tidy m :=
  invariant_of_moves (I := fun _ => Tidy) hstarts
    (fun _ _ _ _ _ htidy hmoves => htidy.works hmoves.works) hrun .initial

/-- An invariant of these runs may be shown for tidy queues. -/
theorem invariant_of_tidy {C' : Handler C → Event C → Prop}
    {I : List (Event C) → Handler C → Prop} (hstarts : ∀ m e, C' m e → m.StartsAlone e)
    (hkeep : ∀ trace m e m', C' m e → Tidy m → I trace m →
      Moves wallets ethers executor requests m e m' → I (trace ++ [e]) m')
    (hrun : Run (Guarded C' (Step wallets executor)) (initial ethers .empty requests) trace m)
    (hinitial : I [] (initial ethers .empty requests)) : I trace m := by
  refine (invariant_of_moves (I := fun trace m => Tidy m ∧ I trace m) hstarts ?_ hrun
    ⟨.initial, hinitial⟩).2
  intro trace m e m' hC ⟨htidy, hinv⟩ hmoves
  exact ⟨htidy.works hmoves.works, hkeep trace m e m' hC htidy hinv hmoves⟩

end

end Handler

end UniversalLogin
