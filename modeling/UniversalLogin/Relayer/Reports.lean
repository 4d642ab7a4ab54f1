import UniversalLogin.Relayer.HandlerTurns
import UniversalLogin.Relayer.QueueRows
import UniversalLogin.Relayer.Statuses

/-!
# Transactions that are reported

Where the transaction hashes in the tables come from. A hash is written into a row only after the
chain has answered with it, and what was sent to the chain is the message of the row. This holds in
every run, also while two loops execute messages beside each other, so a client that is told of a
transaction is told of one that was sent for the message that it asks for.
-/

namespace UniversalLogin

open Async Labelled

/-! ## Hashes in the tables -/

/-- The transaction hashes in the tables are known. -/
structure Database.Reports (P : Bytes32 → JsString → Prop) (db : Database) : Prop where
  messages : ∀ row ∈ db.messages, ∀ h ∈ row.transactionHash, P row.messageHash h
  finalMessages : ∀ row ∈ db.finalMessages, ∀ h ∈ row.transactionHash, P row.messageHash h

/-- The query writes no transaction hash but known ones. -/
def Query.Reports (P : Bytes32 → JsString → Prop) : Query → Prop
  | insertMessage row => row.transactionHash = none
  | updateMessage messageHash h => P messageHash h
  | updateFinalMessage messageHash data => ∀ h ∈ data.transactionHash, P messageHash h
  | q => q.deletes = false

/-- What a row says of its transaction when it is read. -/
def Reported (P : Bytes32 → JsString → Prop) : Answered Query Query.Answer JsError → Prop
  | ⟨.selectMessage messageHash, .ok (some row)⟩ => ∀ h ∈ row.transactionHash, P messageHash h
  | ⟨.selectFinalMessage messageHash, .ok (some row)⟩ => ∀ h ∈ row.transactionHash, P messageHash h
  | _ => True

section
variable {P P' : Bytes32 → JsString → Prop} {q : Query} {r : Except JsError q.Answer}
  {db db' : Database}

theorem Database.Reports.mono (h : db.Reports P) (hP : ∀ a b, P a b → P' a b) : db.Reports P' where
  messages row hrow x hx := hP _ _ (h.messages row hrow x hx)
  finalMessages row hrow x hx := hP _ _ (h.finalMessages row hrow x hx)

theorem Reported.mono {e : Answered Query Query.Answer JsError} (h : Reported P e)
    (hP : ∀ a b, P a b → P' a b) : Reported P' e := by
  obtain ⟨q, r⟩ := e
  cases r with
  | error e => cases q <;> trivial
  | ok a =>
    cases q with
    | selectMessage _ | selectFinalMessage _ =>
      cases a with
      | none => trivial
      | some row => exact fun x hx => hP _ _ (h x hx)
    | _ => trivial

theorem Query.Reports.deletes_eq (h : q.Reports P) : q.deletes = false := by
  cases q with
  | insertMessage _ | updateMessage _ _ | updateFinalMessage _ _ => rfl
  | _ => exact h

theorem Database.Reports.answers (h : db.Reports P) (hq : q.Reports P)
    (hanswer : q.Answers wallets db r db') : db'.Reports P := by
  cases r with
  | error e =>
    cases hanswer
    exact h
  | ok a =>
    constructor
    · rcases Query.Effect.messages_cases hanswer hq.deletes_eq with
        ⟨_, _, hrows⟩ | ⟨row, rfl, _, hrows⟩ | ⟨messageHash, transactionHash, rfl, hrows⟩
      · exact hrows ▸ h.messages
      · intro row' hrow' x hx
        rw [hrows] at hrow'
        rcases List.mem_append.mp hrow' with hold | hnew
        · exact h.messages row' hold x hx
        · cases List.mem_singleton.mp hnew
          rw [show row.transactionHash = none from hq] at hx
          cases hx
      · intro row' hrow' x hx
        rw [hrows] at hrow'
        obtain ⟨row, hrow, rfl⟩ := List.mem_map.mp hrow'
        by_cases hhash : row.messageHash = messageHash
        · rw [if_pos hhash] at hx ⊢
          cases hx
          exact hhash ▸ hq
        · rw [if_neg hhash] at hx ⊢
          exact h.messages row hrow x hx
    · rcases Query.Effect.finalMessages_cases hanswer with
        ⟨_, _, hrows⟩ | ⟨_, _, _, _, _, hrows⟩ | ⟨messageHash, data, rfl, hrows⟩
      · exact hrows ▸ h.finalMessages
      · intro row' hrow' x hx
        rw [hrows] at hrow'
        rcases List.mem_append.mp hrow' with hold | hnew
        · exact h.finalMessages row' hold x hx
        · cases List.mem_singleton.mp hnew
          cases hx
      · intro row' hrow' x hx
        rw [hrows] at hrow'
        obtain ⟨row, hrow, rfl⟩ := List.mem_map.mp hrow'
        rw [messageHash_markRow]
        rw [markRow] at hx
        split at hx
        · next hhash =>
          -- a row that had a transaction keeps it where the update sets none
          rcases Option.or_eq_some_iff.mp hx with hset | ⟨_, hkept⟩
          · exact hhash ▸ hq x hset
          · exact h.finalMessages row hrow x hkept
        · exact h.finalMessages row hrow x hx

theorem Database.Reports.reported (h : db.Reports P) (hanswer : q.Answers wallets db r db') :
    Reported P ⟨q, r⟩ := by
  cases r with
  | error e => cases q <;> trivial
  | ok a =>
    cases q with
    | selectMessage messageHash =>
      cases a with
      | none => trivial
      | some row =>
        have hhash : row.messageHash = messageHash := by simpa using List.find?_some hanswer.1.symm
        exact hhash ▸ h.messages row (List.mem_of_find?_eq_some hanswer.1.symm)
    | selectFinalMessage messageHash =>
      cases a with
      | none => trivial
      | some row =>
        have hhash : row.messageHash = messageHash := by simpa using List.find?_some hanswer.1.symm
        exact hhash ▸ h.finalMessages row (List.mem_of_find?_eq_some hanswer.1.symm)
    | _ => trivial

/-- Clients write no transaction hash. -/
theorem Request.Awaits.reports {request : Request} (h : request.Awaits ethers log q) :
    q.Reports P := by
  have hdeletes := h.not_deletes
  cases q with
  | insertMessage row => exact h.transactionHash_eq
  | updateMessage _ _ => exact h.not_updates.elim
  | updateFinalMessage _ _ => exact h.not_marks.elim
  | _ => exact hdeletes

end

/-! ## Where they come from -/

namespace Handler

/-- A client has handed the message over to the queue. -/
def Handed (crypto : Crypto) (trace : List (Event C)) (messageHash : Bytes32)
    (message : SignedMessage) : Prop :=
  calculateMessageHash crypto message.toUnsignedMessage = .ok messageHash ∧
    ∃ c, .answered c (told (.insertFinalMessage messageHash message) ()) ∈ trace

/-- What a loop has read is a message that was handed over. -/
def Queued (crypto : Crypto) (trace : List (Event C)) (next : QueuedMessage) : Prop :=
  ∃ message, Handed crypto trace next.messageHash message ∧ next.message.Same message

/-- A transaction of a message that was handed over was sent, and this is its hash. -/
def Broadcast (crypto : Crypto) (trace : List (Event C)) (messageHash : Bytes32)
    (transactionHash : JsString) : Prop :=
  ∃ i tx response message, .executed i messageHash (told (.sendTransaction tx) response) ∈ trace ∧
    response.hash = transactionHash ∧ Queued crypto trace ⟨messageHash, message⟩ ∧
    messageToTransaction message = .ok tx

/-- What an execution has been answered. -/
def Supports (P : Bytes32 → JsString → Prop) (messageHash : Bytes32) :
    Answered Query Query.Answer JsError → Prop
  | ⟨.sendTransaction _, .ok response⟩ => P messageHash response.hash
  | ⟨.updateMessage messageHash transactionHash, .ok _⟩ => P messageHash transactionHash
  | _ => True

/-- What is known of a loop. -/
def Backed (crypto : Crypto) (trace : List (Event C)) : Loop → Prop
  | .gotNext (.ok (some next)) => Queued crypto trace next
  | .executing next call => Queued crypto trace next ∧
    ∀ e ∈ call.log, Supports (Broadcast crypto trace) next.messageHash e
  | _ => True

structure Reports (crypto : Crypto) (trace : List (Event C)) (m : Handler C) : Prop where
  rows : ∀ row ∈ m.db.finalMessages, ∃ message, Handed crypto trace row.messageHash message ∧
    row.message = stringifySignedMessageFields message
  tables : m.db.Reports (Broadcast crypto trace)
  loops : ∀ loop ∈ m.loops, Backed crypto trace loop
  clients : ∀ c, ∀ e ∈ (m.calls c).log, Reported (Broadcast crypto trace) e

section
variable {C : Type} {wallets : Address → Option Storage} {executor : Executor} {ethers : Ethers}
  {crypto : Crypto} {requests : C → Request} {trace : List (Event C)} {m m' : Handler C}

theorem Handed.append (h : Handed crypto trace messageHash message) (e : Event C) :
    Handed crypto (trace ++ [e]) messageHash message :=
  ⟨h.1, h.2.imp fun _ h => List.mem_append_left _ h⟩

theorem Queued.append (h : Queued crypto trace next) (e : Event C) :
    Queued crypto (trace ++ [e]) next :=
  h.imp fun _ h => ⟨h.1.append e, h.2⟩

theorem Broadcast.append (h : Broadcast crypto trace messageHash transactionHash) (e : Event C) :
    Broadcast crypto (trace ++ [e]) messageHash transactionHash := by
  obtain ⟨i, tx, response, message, hsent, hhash, hqueued, htx⟩ := h
  exact ⟨i, tx, response, message, List.mem_append_left _ hsent, hhash, hqueued.append e, htx⟩

theorem Supports.append {a : Answered Query Query.Answer JsError}
    (h : Supports (Broadcast crypto trace) messageHash a) (e : Event C) :
    Supports (Broadcast crypto (trace ++ [e])) messageHash a := by
  obtain ⟨q, r⟩ := a
  cases r with
  | error _ => cases q <;> trivial
  | ok _ =>
    cases q with
    | sendTransaction _ | updateMessage _ _ => exact Broadcast.append h e
    | _ => trivial

/-- An execution writes hashes that it has been answered with. -/
theorem reports_of_supports {P : Bytes32 → JsString → Prop} {q : Query} {log : Log}
    (hlog : ∀ e ∈ log, Supports P messageHash e)
    (hawaits : MessageQueueService.Awaits executor signedMessage messageHash log q) :
    q.Reports P := by
  have hdeletes := hawaits.not_deletes
  cases q with
  | insertMessage row => cases hawaits
  | updateMessage hash transactionHash =>
    obtain ⟨rfl, _, tx, response, hsent, rfl⟩ := hawaits
    exact hlog _ hsent
  | updateFinalMessage hash data =>
    obtain ⟨rfl, _, ⟨response, _, hupdated, rfl⟩ | ⟨_, e, _, rfl⟩⟩ := hawaits
    · intro x hx
      cases hx
      exact hlog _ hupdated
    · intro x hx
      cases hx
  | _ => exact hdeletes

theorem Backed.append {loop : Loop} (h : Backed crypto trace loop) (e : Event C) :
    Backed crypto (trace ++ [e]) loop := by
  cases loop with
  | gotNext next =>
    rcases next with _ | _ | next
    · trivial
    · trivial
    · exact Queued.append h e
  | executing next call => exact ⟨h.1.append e, fun a ha => (h.2 a ha).append e⟩
  | gettingNext | sleeping | returned => trivial

namespace Reports

theorem append (h : Reports crypto trace m) (e : Event C) : Reports crypto (trace ++ [e]) m where
  rows row hrow := (h.rows row hrow).imp fun _ h => ⟨h.1.append e, h.2⟩
  tables := h.tables.mono fun _ _ h => h.append e
  loops loop hloop := (h.loops loop hloop).append e
  clients c a ha := (h.clients c a ha).mono fun _ _ h => h.append e

theorem initial : Reports crypto [] (.initial ethers .empty requests : Handler C) where
  rows _ h := by cases h
  tables := ⟨fun _ h => (by cases h), fun _ h => (by cases h)⟩
  loops _ h := by cases h
  clients _ _ h := by cases h

/-- A loop takes the place of another. -/
theorem set {loop : Loop} (h : Reports crypto trace m) (hloop : Backed crypto trace loop) (i : Nat)
    (state : QueueState) :
    Reports crypto trace { m with state := state, loops := m.loops.set i loop } where
  __ := h
  loops loop' hmem := by
    rcases List.mem_or_eq_of_mem_set hmem with hold | rfl
    · exact h.loops loop' hold
    · exact hloop

/-- What `getNext` makes of a row is the message that was handed over. -/
theorem queued_of_decodes (h : Reports crypto trace m) (hrow : row ∈ m.db.finalMessages)
    (hdecodes : row.Decodes next) : Queued crypto trace next := by
  obtain ⟨message, hhanded, hmessage⟩ := h.rows row hrow
  obtain ⟨hhash, hdecodes⟩ := hdecodes
  obtain ⟨message', hdecodes', hsame⟩ := bignumberify_stringify hhanded.1
  rw [hmessage, hdecodes'] at hdecodes
  cases hdecodes
  exact ⟨message, hhash ▸ hhanded, hsame⟩

theorem rows_of_answers {q : Query} {r : Except JsError q.Answer} (h : Reports crypto trace m)
    (hanswer : q.Answers wallets m.db r db')
    (hinsert : ∀ messageHash message,
      (⟨q, r⟩ : Answered _ _ _) = told (.insertFinalMessage messageHash message) () →
        Handed crypto trace messageHash message) :
    ∀ row ∈ db'.finalMessages, ∃ message, Handed crypto trace row.messageHash message ∧
      row.message = stringifySignedMessageFields message := by
  cases r with
  | error e =>
    cases hanswer
    exact h.rows
  | ok a =>
    rcases Query.Effect.finalMessages_cases hanswer with
      ⟨_, _, hrows⟩ | ⟨messageHash, message, now, rfl, _, hrows⟩ | ⟨messageHash, data, rfl, hrows⟩
    · exact hrows ▸ h.rows
    · intro row hrow
      rw [hrows] at hrow
      rcases List.mem_append.mp hrow with hold | hnew
      · exact h.rows row hold
      · cases List.mem_singleton.mp hnew
        exact ⟨message, hinsert _ _ rfl, rfl⟩
    · intro row' hrow'
      rw [hrows] at hrow'
      obtain ⟨row, hrow, rfl⟩ := List.mem_map.mp hrow'
      obtain ⟨message, hhanded, hmessage⟩ := h.rows row hrow
      refine ⟨message, messageHash_markRow.symm ▸ hhanded, ?_⟩
      rw [markRow]
      split <;> exact hmessage

theorem backed_of_gotNext {r : Except JsError (Option FinalMessageRow)} (h : Reports crypto trace m)
    (hquery : Query.Answers wallets .selectNextFinalMessage m.db r m.db) :
    Backed crypto trace (.gotNext (MessageQueueSQLStore.nextOf r)) := by
  by_cases hnext : ∃ next, MessageQueueSQLStore.nextOf r = .ok (some next)
  · obtain ⟨next, hnext⟩ := hnext
    obtain ⟨row, rfl, hdecodes⟩ := MessageQueueSQLStore.nextOf_eq_some.mp hnext
    rw [hnext]
    exact h.queued_of_decodes (hquery.2.1 row rfl).1 hdecodes
  · rw [Backed.eq_def]
    split
    · next heq => exact absurd ⟨_, Loop.gotNext.inj heq⟩ hnext
    · next heq => cases heq
    · trivial

theorem executed {e : Answered Query Query.Answer JsError} (h : Reports crypto trace m)
    (hloop : .executing next call ∈ m.loops)
    (hawaits : MessageQueueService.Awaits executor next.message next.messageHash call.log e.1)
    (hcall : Async.Call.Step (Query.Answers wallets) m.db call e db' call') (i : Nat) :
    Reports crypto (trace ++ [.executed i next.messageHash e])
      { m with db := db', loops := m.loops.set i (.executing next call') } := by
  obtain ⟨q, r⟩ := e
  have hanswer : q.Answers wallets m.db r db' := hcall.answers_eq
  have happend := h.append (.executed i next.messageHash ⟨q, r⟩)
  obtain ⟨hqueued, hsupports⟩ := happend.loops _ hloop
  have hreports := reports_of_supports hsupports hawaits
  have hbacked : Backed crypto (trace ++ [.executed i next.messageHash ⟨q, r⟩])
      (.executing next call') := by
    refine ⟨hqueued, fun a ha => ?_⟩
    rw [hcall.log_eq] at ha
    rcases List.mem_append.mp ha with hold | hnew
    · exact hsupports a hold
    · cases List.mem_singleton.mp hnew
      cases r with
      | error _ => cases q <;> trivial
      | ok response =>
        cases q with
        | sendTransaction tx =>
          -- this event is the one that the transaction was sent with
          exact ⟨i, tx, response, next.message, List.mem_append_right _ List.mem_cons_self, rfl,
            hqueued, hawaits.1⟩
        | updateMessage _ _ => exact hreports
        | _ => trivial
  refine ⟨happend.rows_of_answers hanswer fun messageHash message he => ?_,
    happend.tables.answers hreports hanswer, (happend.set hbacked i m.state).loops, happend.clients⟩
  cases he
  cases hawaits

variable [DecidableEq C]

theorem answered {e : Answered Query Query.Answer JsError} (h : Reports ethers.crypto trace m)
    (hawaits : (requests c).Awaits ethers (m.calls c).log e.1)
    (hcall : Async.Call.Step (Query.Answers wallets) m.db (m.calls c) e db' c') :
    Reports ethers.crypto (trace ++ [.answered c e])
      { m with db := db', calls := Function.update m.calls c c' } := by
  obtain ⟨q, r⟩ := e
  have hanswer : q.Answers wallets m.db r db' := hcall.answers_eq
  have happend := h.append (.answered c ⟨q, r⟩)
  refine ⟨happend.rows_of_answers hanswer fun messageHash message he => ?_,
    happend.tables.answers hawaits.reports hanswer, happend.loops, fun c₁ a ha => ?_⟩
  · cases he
    exact ⟨hawaits.hash_eq, c, List.mem_append_right _ List.mem_cons_self⟩
  · change a ∈ (Function.update m.calls c c' c₁).log at ha
    by_cases hc : c₁ = c
    · subst hc
      rw [Function.update_self, hcall.log_eq] at ha
      rcases List.mem_append.mp ha with hold | hnew
      · exact happend.clients c₁ a hold
      · cases List.mem_singleton.mp hnew
        exact happend.tables.reported hanswer
    · rw [Function.update_of_ne hc] at ha
      exact happend.clients c₁ a ha

theorem step (h : Reports ethers.crypto trace m) (hcoded : Coded ethers executor requests m)
    (hstep : Step wallets executor m e m') : Reports ethers.crypto (trace ++ [e]) m' := by
  have happend := h.append e
  cases hstep with
  | answered _ hcall =>
    exact h.answered ((hcoded.calls _).awaited_of_pending hcall.pending) hcall
  | settled | startAgain => exact happend
  | stop | stopLater | resolved | exited => exact { happend with }
  | start =>
    exact { happend with
      loops := fun loop hloop => by
        rcases List.mem_append.mp hloop with hold | hnew
        · exact happend.loops loop hold
        · cases List.mem_singleton.mp hnew
          trivial }
  | gotNext _ _ hquery => exact happend.set (happend.backed_of_gotNext hquery) _ _
  | wentOn _ _ hgoes =>
    refine happend.set ?_ _ _
    rcases Loop.goOn_eq_some hgoes with ⟨_, _, _, rfl⟩ | ⟨_, ⟨_, _, rfl⟩ | ⟨_, rfl | rfl⟩⟩ <;>
      trivial
  | passed _ hloop =>
    have hqueued := happend.loops _ (List.mem_of_getElem? hloop)
    exact happend.set (show Backed _ _ (.executing _ _) from ⟨hqueued, fun _ h => by cases h⟩) _ _
  | executed _ hloop hcall =>
    have hmem := List.mem_of_getElem? hloop
    exact h.executed hmem ((hcoded.executions _ _ hmem).awaited_of_pending hcall.pending) hcall _

theorem of_run (hrun : Run (Step wallets executor) (.initial ethers .empty requests) trace m) :
    Reports ethers.crypto trace m := by
  refine (hrun.history (I := fun trace m => Coded ethers executor requests m ∧
    Reports ethers.crypto trace m) ?_ ⟨.initial, .initial⟩).2
  intro trace m e m' ⟨hcoded, hreports⟩ hstep
  exact ⟨hcoded.step hstep, hreports.step hcoded hstep⟩

end Reports

variable [DecidableEq C]

/-- A call of `getStatus` tells of transactions that were sent. -/
theorem broadcast_of_status {status : MessageHandler.Status}
    (hrun : Run (Step wallets executor) (.initial ethers .empty requests) trace m)
    (hrequest : requests c = .getStatus messageHash)
    (hdone : (m.calls c).rest = .done (.ok (.status (some status)))) :
    ∀ h ∈ status.transactionHash, Broadcast ethers.crypto trace messageHash h := by
  have hreturns := ((Coded.of_run hrun).calls c).of_ok hdone
  have htold := (Reports.of_run hrun).clients c
  rw [hrequest] at hreturns
  rcases hreturns with ⟨_, heq, _⟩ | ⟨front, row, pairs, required, queueRow, hlog, heq⟩
  · cases heq
  · cases heq
    cases queueRow with
    | none =>
      have hrow : told (.selectMessage messageHash) (some row) ∈ (m.calls c).log := by simp [hlog]
      exact htold _ hrow
    | some row' =>
      have hrow : told (.selectFinalMessage messageHash) (some row') ∈ (m.calls c).log := by
        simp [hlog]
      exact htold _ hrow

end

end Handler

end UniversalLogin
