import UniversalLogin.Lib.History
import UniversalLogin.Relayer.Authorisations
import UniversalLogin.Relayer.HandlerTurns

/-!
# Requests for authorisation

The relayer serves requests for authorisation (`routes/authorisation.ts`) beside the messages. A
device asks for its key, and the owner of the wallet lists what is pending and denies it or adds the
key. Denials and the hook of the executor delete rows of one table while the loops are at work. In
every run what is listed for a wallet is what was requested and not deleted since, and the hook
deletes a row only for a confirmed transaction with which the wallet adds that key to itself.
-/

namespace UniversalLogin

open Async Labelled

/-! ## The queries and the table -/

/-- The row that is deleted when a query is answered. -/
def deletedRow : Answered Query Query.Answer JsError → Option AuthorisationRow
  | ⟨.deleteAuthorisation walletContractAddress key, .ok _⟩ => some ⟨walletContractAddress, key⟩
  | _ => none

theorem eq_of_deletedRow {e : Answered Query Query.Answer JsError} (h : deletedRow e = some row) :
    e = told (.deleteAuthorisation row.walletContractAddress row.key) () := by
  obtain ⟨q, r⟩ := e
  cases r with
  | error _ => cases q <;> cases h
  | ok _ =>
    cases q with
    | deleteAuthorisation _ _ =>
      cases h
      rfl
    | _ => cases h

/-- Without the requests for authorisation. -/
def Database.withoutAuthorisations (db : Database) : Database := { db with authorisations := [] }

namespace Query.Answers

variable {q : Query} {r : Except JsError q.Answer} {db db' : Database}

theorem authorisations_eq (h : q.Answers wallets db r db') :
    db'.authorisations = db.authorisations.filter fun row => deletedRow ⟨q, r⟩ ≠ some row := by
  have hkept : ∀ rows : List AuthorisationRow,
      rows = rows.filter fun row => (none : Option AuthorisationRow) ≠ some row := by simp
  cases r with
  | error e =>
    have hnone : deletedRow ⟨q, .error e⟩ = none := by cases q <;> rfl
    cases h
    rw [hnone]
    exact hkept _
  | ok a =>
    cases q with
    | deleteAuthorisation walletContractAddress key =>
      cases h
      refine List.filter_congr fun row _ => ?_
      obtain ⟨_, _⟩ := row
      simp [deletedRow, eq_comm]
    | insertFinalMessage messageHash message =>
      obtain ⟨_, now, rfl⟩ := h
      exact hkept _
    | updateMessage _ _ | deleteSignatureKeyPairs _ | updateFinalMessage _ _ | getCode _
    | getBalance _ | balanceOf _ _ | estimateGas _ _ | waitForTransaction _ =>
      cases h
      exact hkept _
    | selectMessage _ | insertMessage _ | deleteMessage _ | selectSignatureKeyPairs _
    | selectSignature _ _ | insertSignatureKeyPair _ | selectFinalMessage _ | requiredSignatures _
    | getKeyPurpose _ _ =>
      cases h.2
      exact hkept _
    | selectNextFinalMessage | sendTransaction _ =>
      cases h.2.2
      exact hkept _

/-- No other answer depends on the requests for authorisation. -/
theorem withoutAuthorisations (h : q.Answers wallets db r db') :
    q.Answers wallets db.withoutAuthorisations r db'.withoutAuthorisations := by
  cases r with
  | error e =>
    cases h
    rfl
  | ok a =>
    cases q with
    | deleteAuthorisation _ _ | updateMessage _ _ | deleteSignatureKeyPairs _
    | updateFinalMessage _ _ | getCode _ | getBalance _ | balanceOf _ _ | estimateGas _ _
    | waitForTransaction _ =>
      cases h
      rfl
    | insertFinalMessage messageHash message =>
      obtain ⟨hfresh, now, rfl⟩ := h
      exact ⟨hfresh, now, rfl⟩
    | selectMessage _ | insertMessage _ | deleteMessage _ | selectSignatureKeyPairs _
    | selectSignature _ _ | insertSignatureKeyPair _ | selectFinalMessage _ | requiredSignatures _
    | getKeyPurpose _ _ =>
      obtain ⟨hrows, rfl⟩ := h
      exact ⟨hrows, rfl⟩
    | selectNextFinalMessage | sendTransaction _ =>
      obtain ⟨hfirst, hnext, rfl⟩ := h
      exact ⟨hfirst, hnext, rfl⟩

end Query.Answers

/-! ## The hook -/

/-- What the hook deletes after a transaction: the row of the wallet that it was sent to, for the
key that this wallet adds to itself. -/
def MessageHandler.Deletes (sentTransaction : TransactionResponse) (row : AuthorisationRow) :
    Prop :=
  ∃ message, decodeDataForExecuteSigned sentTransaction.data = .ok message ∧
    message.to_ = sentTransaction.to_ ∧ isAddKeyCall message.data = true ∧
    getKeyFromData message.data = .ok row.key ∧
    row.walletContractAddress = hexlify (packAddress sentTransaction.to_)

namespace MessageQueueService

/-- A transaction of the execution was confirmed, after which the hook deletes the row. -/
def Confirmed (log : Log) (row : AuthorisationRow) : Prop :=
  ∃ transactionReq transactionRes,
    told (.sendTransaction transactionReq) transactionRes ∈ log ∧
    told (.waitForTransaction transactionRes.hash) () ∈ log ∧
    MessageHandler.Deletes transactionRes row

/-- What an execution has been answered when it deletes a request. -/
def AwaitsHook (log : Log) : Query → Prop
  | .deleteAuthorisation walletContractAddress key => Confirmed log ⟨walletContractAddress, key⟩
  | _ => True

/-- Part of an execution, whatever it is answered. -/
abbrev Hooks (post : Log → α → Prop) : Log → Promise α → Prop :=
  Follows (fun _ _ _ => True) AwaitsHook (fun _ _ => True) post

theorem follows_other {q : Query} {log : Log} {failed : Log → JsError → Prop}
    {post : Log → q.Answer → Prop}
    (hq : ∀ walletContractAddress key, q ≠ .deleteAuthorisation walletContractAddress key)
    (hfailed : ∀ log e, failed log e) (hpost : ∀ a, post (log ++ [told q a]) a) :
    Follows (fun _ _ _ => True) AwaitsHook failed post log (query q) := by
  refine (follows_query q).mpr ⟨?_, fun a _ => hpost a, fun e _ => hfailed _ e⟩
  cases q with
  | deleteAuthorisation _ _ => exact absurd rfl (hq _ _)
  | _ => trivial

theorem hooks_query {q : Query} {log : Log} {post : Log → q.Answer → Prop}
    (hq : ∀ walletContractAddress key, q ≠ .deleteAuthorisation walletContractAddress key)
    (hpost : ∀ a, post (log ++ [told q a]) a) : Hooks post log (query q) :=
  follows_other hq (fun _ _ => trivial) hpost

theorem hooks_lift {log : Log} {post : Log → α → Prop} {x : Except String α}
    (hpost : ∀ a, x = .ok a → post log a) : Hooks post log (Promise.lift x) :=
  follows_lift (fun _ _ => trivial) hpost

theorem hooks_ensure {log : Log} {post : Log → Unit → Prop} {condition : Prop} [Decidable condition]
    (hpost : post log ()) : Hooks post log (ensure condition e) :=
  follows_ensure (fun _ => trivial) fun _ => hpost

theorem hooks_hasEnoughToken {log : Log} {post : Log → Bool → Prop}
    (hpost : ∀ log a, post log a) :
    Hooks post log (hasEnoughToken gasToken walletContractAddress gasLimit) := by
  rw [hasEnoughToken]
  split
  · refine follows_bind.mpr (hooks_query (fun _ _ h => by cases h) fun balance => ?_)
    exact follows_bind.mpr (hooks_lift fun limit _ => hpost _ _)
  · refine follows_bind.mpr (follows_bind.mpr
      (hooks_query (fun _ _ h => by cases h) fun bytecode => ?_))
    refine follows_bind.mpr (hooks_ensure ?_)
    refine follows_bind.mpr (hooks_query (fun _ _ h => by cases h) fun balance => ?_)
    exact follows_bind.mpr (hooks_lift fun limit _ => hpost _ _)

theorem hooks_validate {log : Log} {post : Log → Unit → Prop} (hpost : ∀ log a, post log a) :
    Hooks post log (MessageValidator.validate executor message transactionReq) := by
  refine follows_bind.mpr (follows_bind.mpr
    (hooks_query (fun _ _ h => by cases h) fun bytecode => ?_))
  refine hooks_ensure (follows_bind.mpr (follows_bind.mpr
    (hooks_hasEnoughToken fun log enough => ?_)))
  refine hooks_ensure (follows_bind.mpr (hooks_query (fun _ _ h => by cases h) fun estimate => ?_))
  exact follows_bind.mpr (hooks_lift fun limit _ => hooks_ensure (hpost _ _))

theorem hooks_onTransactionSent {log : Log} {post : Log → Unit → Prop}
    (hconfirmed : ∀ row, MessageHandler.Deletes transactionRes row → Confirmed log row)
    (hpost : ∀ log a, post log a) :
    Hooks post log (MessageHandler.onTransactionSent transactionRes) := by
  refine follows_bind.mpr (hooks_lift fun message hmessage => ?_)
  split
  · next hto =>
    split
    · next hadd =>
      refine follows_bind.mpr (follows_bind.mpr (hooks_lift fun key hkey => ?_))
      refine (follows_query (.deleteAuthorisation _ _)).mpr
        ⟨hconfirmed _ ⟨message, hmessage, hto, hadd, ?_, toLowerCase_hexlify _⟩,
          fun _ _ => hpost _ _, fun _ _ => trivial⟩
      -- the key is printed in lower case
      rw [hkey]
      rw [getKeyFromData] at hkey
      split at hkey
      · cases hkey
        exact congrArg Except.ok (toLowerCase_hexlify _).symm
      · cases hkey
    · split <;> exact hpost _ _
  · exact hpost _ _

theorem hooks_executeAndWait :
    Hooks (fun _ _ => True) [] (MessageExecutor.executeAndWait executor signedMessage) := by
  refine follows_bind.mpr (hooks_lift fun transactionReq _ => ?_)
  refine follows_bind.mpr (hooks_validate fun log _ => ?_)
  refine follows_bind.mpr (hooks_query (fun _ _ h => by cases h) fun transactionRes => ?_)
  refine follows_bind.mpr (hooks_query (fun _ _ h => by cases h) fun _ => ?_)
  refine follows_bind.mpr (hooks_onTransactionSent (fun row hdeletes => ?_) fun _ _ => trivial)
  exact ⟨transactionReq, transactionRes, by simp, by simp, hdeletes⟩

theorem hooks_execute : Hooks (fun _ _ => True) []
    (execute executor signedMessage messageHash) := by
  have hmarkAsError : ∀ (log : Log) (e : JsError), Hooks (fun _ _ => True) log
      (MessageQueueSQLStore.markAsError messageHash e.text) :=
    fun _ _ => hooks_query (q := .updateFinalMessage _ _) (fun _ _ h => by cases h) fun _ => trivial
  refine follows_bind.mpr (follows_settle.mpr (follows_bind.mpr ?_))
  refine hooks_executeAndWait.mono (fun _ _ _ h => h) (fun _ _ h => h)
    (fun log e _ => hmarkAsError log e) fun log transactionRes _ => ?_
  refine follows_bind.mpr (follows_other (q := .updateMessage _ _) (fun _ _ h => by cases h)
    hmarkAsError fun _ => ?_)
  exact follows_other (q := .updateFinalMessage _ _) (fun _ _ h => by cases h) hmarkAsError
    fun _ => trivial

end MessageQueueService

/-- Clients of the handler delete no request. -/
theorem Request.Awaits.not_authorisation {request : Request}
    (h : request.Awaits ethers log (.deleteAuthorisation walletContractAddress key)) : False := by
  cases request with
  | handleMessage message | getStatus messageHash => cases h
  | add message => cases h.2

namespace Handler

section
variable {C : Type} {wallets : Address → Option Storage} {executor : Executor} {ethers : Ethers}
  {requests : C → Request} {tables : Database} {trace : List (Event C)} {m m' : Handler C}

/-- The row that is deleted in a step. -/
def Event.deletedRow : Event C → Option AuthorisationRow
  | .answered _ e | .executed _ _ e => UniversalLogin.deletedRow e
  | _ => none

/-- The handler on tables without requests for authorisation. -/
def withoutAuthorisations (m : Handler C) : Handler C :=
  { m with db := m.db.withoutAuthorisations }

variable [DecidableEq C]

theorem Step.authorisations_eq (h : Step wallets executor m e m') :
    m'.db.authorisations = m.db.authorisations.filter fun row => e.deletedRow ≠ some row := by
  cases h with
  | answered _ hcall | executed _ _ hcall => exact hcall.answers_eq.authorisations_eq
  | _ => simp [Event.deletedRow]

/-- The handler goes on in the same way whatever is requested. -/
theorem Step.withoutAuthorisations (h : Step wallets executor m e m') :
    Step wallets executor m.withoutAuthorisations e m'.withoutAuthorisations := by
  have hanswers : ∀ (q : Query) (db : Database) (r : Except JsError q.Answer) (db' : Database),
      q.Answers wallets db r db' →
        q.Answers wallets db.withoutAuthorisations r db'.withoutAuthorisations :=
    fun _ _ _ _ h => h.withoutAuthorisations
  cases h with
  | answered hexited hcall => exact .answered hexited (hcall.map hanswers)
  | settled hexited hdone => exact .settled hexited hdone
  | start hexited hstate => exact .start hexited hstate
  | startAgain hexited hstate => exact .startAgain hexited hstate
  | stop hexited => exact .stop hexited
  | stopLater hexited => exact .stopLater hexited
  | resolved hexited hwaits hstate => exact .resolved hexited hwaits hstate
  | gotNext hexited hloop hquery => exact .gotNext hexited hloop hquery.withoutAuthorisations
  | wentOn hexited hloop hgoes => exact .wentOn hexited hloop hgoes
  | passed hexited hloop => exact .passed hexited hloop
  | executed hexited hloop hcall => exact .executed hexited hloop (hcall.map hanswers)
  | exited hexited hloop hcritical => exact .exited hexited hloop hcritical

/-- The executions delete after what the trace says they were answered. -/
def Hooked (trace : List (Event C)) (m : Handler C) : Prop :=
  ∀ i next call, m.loops[i]? = some (.executing next call) →
    call.Follows (fun _ _ _ => True) MessageQueueService.AwaitsHook (fun _ _ => True)
      (fun _ _ => True) ∧
    ∀ a ∈ call.log, .executed i next.messageHash a ∈ trace

/-- An execution was told that a transaction is confirmed after which the hook deletes the row. -/
def Confirmed (trace : List (Event C)) (row : AuthorisationRow) : Prop :=
  ∃ i messageHash transactionReq transactionRes,
    .executed i messageHash (told (.sendTransaction transactionReq) transactionRes) ∈ trace ∧
    .executed i messageHash (told (.waitForTransaction transactionRes.hash) ()) ∈ trace ∧
    MessageHandler.Deletes transactionRes row

omit [DecidableEq C] in
theorem Hooked.append (h : Hooked trace m) (e : Event C) : Hooked (trace ++ [e]) m :=
  fun i next call hloop => ⟨(h i next call hloop).1, fun a ha =>
    List.mem_append_left _ ((h i next call hloop).2 a ha)⟩

omit [DecidableEq C] in
/-- A loop takes the place of another. -/
theorem Hooked.set (h : Hooked trace m) (hloops : m'.loops = m.loops.set i loop)
    (hloop : ∀ next call, loop = .executing next call →
      call.Follows (fun _ _ _ => True) MessageQueueService.AwaitsHook (fun _ _ => True)
        (fun _ _ => True) ∧
      ∀ a ∈ call.log, .executed i next.messageHash a ∈ trace) : Hooked trace m' := by
  intro j next call hj
  rw [hloops, List.getElem?_set] at hj
  split at hj
  · next hij =>
    subst hij
    split at hj
    · exact hloop next call (Option.some.inj hj)
    · cases hj
  · exact h j next call hj

theorem Hooked.step (h : Hooked trace m) (hstep : Step wallets executor m e m') :
    Hooked (trace ++ [e]) m' := by
  have happend := h.append e
  cases hstep with
  | answered | settled | startAgain | stop | stopLater | resolved | exited => exact happend
  | start =>
    intro i next call hi
    rw [List.getElem?_append] at hi
    split at hi
    · exact happend i next call hi
    · have hmem := List.mem_of_getElem? hi
      cases List.mem_singleton.mp hmem
  | gotNext => exact happend.set rfl fun _ _ heq => by cases heq
  | wentOn _ _ hgoes =>
    refine happend.set rfl fun next call heq => ?_
    subst heq
    rcases Loop.goOn_eq_some hgoes with ⟨_, _, _, h⟩ | ⟨_, ⟨_, _, h⟩ | ⟨_, h | h⟩⟩ <;> cases h
  | passed =>
    refine happend.set rfl fun next call heq => ?_
    cases heq
    exact ⟨MessageQueueService.hooks_execute, fun a ha => by cases ha⟩
  | executed _ hloop hcall =>
    obtain ⟨hfollows, hlog⟩ := happend _ _ _ hloop
    refine happend.set rfl fun next call heq => ?_
    cases heq
    refine ⟨hfollows.step hcall trivial, fun a ha => ?_⟩
    rw [hcall.log_eq] at ha
    rcases List.mem_append.mp ha with hold | hnew
    · exact hlog a hold
    · cases List.mem_singleton.mp hnew
      exact List.mem_append_right _ List.mem_cons_self

/-- A step that deletes a request comes after the confirmation. -/
theorem confirmed_of_step (hcoded : Coded ethers executor requests m) (hhooked : Hooked trace m)
    (hstep : Step wallets executor m e m') (hrow : e.deletedRow = some row) :
    Confirmed trace row := by
  cases hstep with
  | answered _ hcall =>
    -- no client awaits a deletion
    have hawaits := (hcoded.calls _).awaited_of_pending hcall.pending
    cases eq_of_deletedRow hrow
    exact hawaits.not_authorisation.elim
  | executed _ hloop hcall =>
    obtain ⟨hfollows, hlog⟩ := hhooked _ _ _ hloop
    have hawaits := hfollows.awaited_of_pending hcall.pending
    cases eq_of_deletedRow hrow
    obtain ⟨transactionReq, transactionRes, hsent, hwaited, hdeletes⟩ := hawaits
    exact ⟨_, _, transactionReq, transactionRes, hlog _ hsent, hlog _ hwaited, hdeletes⟩
  | _ => cases hrow

theorem confirmed_of_run
    (hrun : Run (Step wallets executor) (.initial ethers tables requests) trace m) :
    History.EachAfter (fun before e => ∀ row ∈ e.deletedRow, Confirmed before row) trace := by
  refine (hrun.history (I := fun trace m => (Coded ethers executor requests m ∧ Hooked trace m) ∧
    History.EachAfter (fun before e => ∀ row ∈ e.deletedRow, Confirmed before row) trace) ?_
    ⟨⟨.initial, fun _ _ _ h => by cases h⟩, History.eachAfter_nil⟩).2
  intro trace m e m' ⟨⟨hcoded, hhooked⟩, hall⟩ hstep
  exact ⟨⟨hcoded.step hstep, hhooked.step hstep⟩, History.eachAfter_concat.mpr
    ⟨hall, fun row hrow => confirmed_of_step hcoded hhooked hstep hrow⟩⟩

end

end Handler

/-! ## The relayer -/

namespace Relayer

/-- What happens at the relayer. A request that the tables reject changes nothing. -/
inductive Event (C : Type)
  | handler (e : Handler.Event C)
  /-- `POST /authorisation` -/
  | requested (request : AuthorisationRequest)
  /-- `GET /authorisation/:walletContractAddress` -/
  | listed (walletContractAddress : JsString) (rows : List AuthorisationRow)
  /-- `POST /authorisation/:walletContractAddress` -/
  | denied (walletContractAddress key : JsString)

namespace Event

def handler? : Event C → Option (Handler.Event C)
  | handler e => some e
  | _ => none

/-- The row that is inserted. -/
def insertedRow : Event C → Option AuthorisationRow
  | requested request => some (AuthorisationService.row request)
  | _ => none

/-- The row that is deleted. -/
def deletedRow : Event C → Option AuthorisationRow
  | handler e => e.deletedRow
  | denied walletContractAddress key => some ⟨toLowerCase walletContractAddress, toLowerCase key⟩
  | _ => none

end Event

section
variable {C : Type} [DecidableEq C] (wallets : Address → Option Storage) (executor : Executor)

/-- The services share the tables, and rows are selected in any order. -/
inductive Step : Handler C → Event C → Handler C → Prop
  | handler (hstep : Handler.Step wallets executor m e m') : Step m (.handler e) m'
  | requested (hexited : m.exited = false) (request : AuthorisationRequest) :
    Step m (.requested request) { m with db := AuthorisationService.addRequest request m.db }
  | listed (hexited : m.exited = false)
      (hrows : rows.Perm
        (AuthorisationService.getPendingAuthorisations walletContractAddress m.db)) :
    Step m (.listed walletContractAddress rows) m
  | denied (hexited : m.exited = false)
      (hremove : Runs (Query.Answers wallets)
        (m.db, AuthorisationService.removeRequest walletContractAddress key)
        (db', .done (.ok ()))) :
    Step m (.denied walletContractAddress key) { m with db := db' }

end

/-- The requests that are in the table after a history: those that were in it before and those that
were made, without those that were deleted since. -/
def pending (rows : List AuthorisationRow) (history : List (Event C)) : List AuthorisationRow :=
  rows.filter (fun row => ∀ e ∈ history, e.deletedRow ≠ some row) ++
    History.remaining Event.insertedRow (fun e row => e.deletedRow = some row) history

section
variable {C : Type} {wallets : Address → Option Storage} {executor : Executor} {ethers : Ethers}
  {requests : C → Request} {tables : Database} {trace : List (Event C)} {m m' : Handler C}

theorem pending_concat : pending rows (trace ++ [e]) =
    (pending rows trace).filter (fun row => e.deletedRow ≠ some row) ++ e.insertedRow.toList := by
  have hlater : ∀ row, (∀ e' ∈ trace ++ [e], e'.deletedRow ≠ some row) ↔
      e.deletedRow ≠ some row ∧ ∀ e' ∈ trace, e'.deletedRow ≠ some row := by
    intro row
    rw [List.forall_mem_append, List.forall_mem_singleton, and_comm]
  simp only [pending, History.remaining_concat, hlater, Bool.decide_and, List.filter_append,
    List.filter_filter, List.append_assoc]

variable [DecidableEq C]

theorem Step.authorisations_eq (h : Step wallets executor m e m') : m'.db.authorisations =
    m.db.authorisations.filter (fun row => e.deletedRow ≠ some row) ++ e.insertedRow.toList := by
  cases h with
  | handler hstep => exact hstep.authorisations_eq.trans (List.append_nil _).symm
  | requested _ request =>
    simp [Event.deletedRow, Event.insertedRow, AuthorisationService.addRequest]
  | listed => simp [Event.deletedRow, Event.insertedRow]
  | denied _ hremove =>
    exact (runs_perform_iff.mp hremove).authorisations_eq.trans (List.append_nil _).symm

/-- The handler takes its steps in the relayer. -/
theorem run_handler (hrun : Run (Handler.Step wallets executor) m events m') :
    Run (Step wallets executor) m (events.map .handler) m' := by
  induction hrun with
  | nil => exact .nil
  | snoc _ hstep ih =>
    rw [List.map_append]
    exact .snoc ih (.handler hstep)

/-- Without the requests for authorisation the relayer is its handler. -/
theorem handler_run (hrun : Run (Step wallets executor) (.initial ethers tables requests) trace m) :
    Run (Handler.Step wallets executor)
      (.initial ethers tables.withoutAuthorisations requests)
      (trace.filterMap Event.handler?) m.withoutAuthorisations := by
  refine hrun.history (I := fun trace m => Run (Handler.Step wallets executor)
    (.initial ethers tables.withoutAuthorisations requests) (trace.filterMap Event.handler?)
    m.withoutAuthorisations) ?_ .nil
  intro trace m e m' hhandler hstep
  rw [List.filterMap_append]
  cases hstep with
  | handler hstep => exact .snoc hhandler hstep.withoutAuthorisations
  | requested | listed => exact (List.append_nil _).symm ▸ hhandler
  | denied _ hremove =>
    cases runs_perform_iff.mp hremove
    exact (List.append_nil _).symm ▸ hhandler

/-- What a list of rows for a wallet has to be after a history. -/
def Lists (rows : List AuthorisationRow) (before : List (Event C)) : Event C → Prop
  | .listed walletContractAddress listed =>
    listed.Perm ((pending rows before).filter
      (·.walletContractAddress = toLowerCase walletContractAddress))
  | _ => True

theorem lists_of_run
    (hrun : Run (Step wallets executor) (.initial ethers tables requests) trace m) :
    m.db.authorisations = pending tables.authorisations trace ∧
      History.EachAfter (Lists tables.authorisations) trace := by
  refine hrun.history (I := fun trace m =>
    m.db.authorisations = pending tables.authorisations trace ∧
      History.EachAfter (Lists tables.authorisations) trace) ?_ ⟨?_, History.eachAfter_nil⟩
  · intro trace m e m' ⟨htable, hlists⟩ hstep
    refine ⟨?_, History.eachAfter_concat.mpr ⟨hlists, ?_⟩⟩
    · rw [hstep.authorisations_eq, htable, pending_concat]
    · cases hstep with
      | listed _ hrows =>
        rw [AuthorisationService.getPendingAuthorisations, htable] at hrows
        exact hrows
      | handler | requested | denied => trivial
  · simp [pending, History.remaining, Handler.initial]

end

end Relayer

namespace Sample

/-- A relayer where two keys were requested before the message is executed, which adds one. -/
def requestedTwice : Handler Unit where
  __ := Handler.initial ethers .empty added
  db := AuthorisationService.addRequest (request 7) (requested newcomer)

set_option maxRecDepth 20000 in
/-- The hook takes one of the requests away. -/
theorem executed_requestedTwice :
    (Handler.turns executor accepting (fun _ _ => True) oneMessage requestedTwice).map
      (fun p => (p.1.filterMap Handler.Event.deletedRow, p.2.db.authorisations, p.2.exited)) =
    some ([AuthorisationService.row (request newcomer)],
      [AuthorisationService.row (request 7)], false) := by
  decide

def walletString : JsString := hexlify (packAddress wallet)

end Sample

namespace Relayer

end Relayer

end UniversalLogin
