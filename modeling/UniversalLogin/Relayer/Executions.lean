import UniversalLogin.Relayer.MessageHandler

/-!
# What an execution is answered

`MessageQueueService.execute` as a call that is interleaved with others: the queries that it awaits
after what it was answered. It sends one transaction, that of its message; it marks its message
once; and it marks it with an error only if nothing was sent, or the last query was rejected after
the transaction had been sent, or the hook has thrown.
-/

namespace UniversalLogin

open Async

namespace Log

/-- A transaction was sent. -/
def Sent (log : Log) : Prop :=
  ∃ transactionReq transactionRes, told (.sendTransaction transactionReq) transactionRes ∈ log

instance (log : Log) : Decidable log.Sent :=
  decidable_of_iff (log.any fun
    | ⟨.sendTransaction _, .ok _⟩ => true
    | _ => false) (by
    simp only [List.any_eq_true, Log.Sent]
    constructor
    · rintro ⟨⟨q, r⟩, hmem, h⟩
      cases q with
      | sendTransaction transactionReq =>
        cases r with
        | error e => cases h
        | ok transactionRes => exact ⟨transactionReq, transactionRes, hmem⟩
      | _ => cases h
    · rintro ⟨transactionReq, transactionRes, hmem⟩
      exact ⟨_, hmem, rfl⟩)

/-- The message was marked in the queue. -/
def Marked (log : Log) : Prop :=
  ∃ messageHash data, told (.updateFinalMessage messageHash data) () ∈ log

theorem marked_told {log : Log} :
    Log.Marked (log ++ [told (.updateFinalMessage messageHash data) ()]) :=
  ⟨_, _, List.mem_append_right _ List.mem_cons_self⟩

theorem marked_append {log : Log} {q : Query} {r : Except JsError q.Answer}
    (hq : ∀ messageHash data, q ≠ .updateFinalMessage messageHash data) :
    Log.Marked (log ++ [⟨q, r⟩]) ↔ log.Marked := by
  refine exists_congr fun messageHash => exists_congr fun data => ?_
  rw [List.mem_append, or_iff_left]
  intro h
  cases List.mem_singleton.mp h
  exact hq messageHash data rfl

theorem marked_rejected {log : Log} : Log.Marked (log ++ [rejected q e]) ↔ log.Marked := by
  refine exists_congr fun messageHash => exists_congr fun data => ?_
  rw [List.mem_append, or_iff_left]
  intro h
  cases List.mem_singleton.mp h

end Log

/-- The hook throws before it awaits anything. -/
def MessageHandler.HookThrows (sentTransaction : TransactionResponse) : Prop :=
  match decodeDataForExecuteSigned sentTransaction.data with
  | .error _ => True
  | .ok message => message.to_ = sentTransaction.to_ ∧ isAddKeyCall message.data = true ∧
    ∃ e, getKeyFromData message.data = .error e

instance (sentTransaction : TransactionResponse) :
    Decidable (MessageHandler.HookThrows sentTransaction) :=
  match h : decodeDataForExecuteSigned sentTransaction.data with
  | .error _ => .isTrue (by simp [MessageHandler.HookThrows, h])
  | .ok message => decidable_of_iff (message.to_ = sentTransaction.to_ ∧
      isAddKeyCall message.data = true ∧ (getKeyFromData message.data).isOk = false) (by
    simp only [MessageHandler.HookThrows, h]
    cases getKeyFromData message.data <;> simp [Except.isOk, Except.toBool])

/-- The answers begin with those that lead `executeAndWait` to this outcome. -/
def MessageExecutor.Settles (executor : Executor) (signedMessage : SignedMessage) (log : Log)
    (outcome : Except JsError TransactionResponse) : Prop :=
  ∃ front back, log = front ++ back ∧
    Leads (executeAndWait executor signedMessage) front (.done outcome)

theorem MessageExecutor.Settles.append (h : Settles executor signedMessage log outcome)
    (log' : Log) : Settles executor signedMessage (log ++ log') outcome := by
  obtain ⟨front, back, rfl, hleads⟩ := h
  exact ⟨front, back ++ log', by simp, hleads⟩

namespace MessageQueueService

/-- Why an execution has failed, as far as a transaction was sent. -/
def FailedAt (log : Log) : Prop :=
  ¬ log.Sent ∨ (∃ (front : Log) (q : Query) (e : JsError), log = front ++ [rejected q e] ∧ front.Sent) ∨
    ∃ transactionReq transactionRes,
      told (.sendTransaction transactionReq) transactionRes ∈ log ∧
        MessageHandler.HookThrows transactionRes

/-- The error that a message is marked with is what `executeAndWait` throws, or says that the tables
have not been updated. -/
def ErrorOf (executor : Executor) (signedMessage : SignedMessage) (log : Log) (e : JsError) :
    Prop :=
  MessageExecutor.Settles executor signedMessage log (.error e) ∨
    ∃ q e, q.writes = true ∧ rejected q e ∈ log

/-- What an execution has been answered when it awaits a query. -/
def Awaits (executor : Executor) (signedMessage : SignedMessage) (messageHash : Bytes32) (log : Log) :
    Query → Prop
  | .sendTransaction transactionReq => messageToTransaction signedMessage = .ok transactionReq ∧
    ¬ log.Sent ∧ ¬ log.Marked
  | .updateMessage hash transactionHash => hash = messageHash ∧ ¬ log.Marked ∧
    ∃ transactionReq transactionRes,
      told (.sendTransaction transactionReq) transactionRes ∈ log ∧
        transactionRes.hash = transactionHash
  | .updateFinalMessage hash data => hash = messageHash ∧ ¬ log.Marked ∧
    ((∃ transactionRes, MessageExecutor.Settles executor signedMessage log (.ok transactionRes) ∧
        told (.updateMessage messageHash transactionRes.hash) () ∈ log ∧
          data = { transactionHash := some transactionRes.hash }) ∨
      FailedAt log ∧ ∃ e, ErrorOf executor signedMessage log e ∧ data = { error := some e.text })
  | .deleteAuthorisation _ _ => True
  | q => q.writes = false

theorem Awaits.not_deletes (h : Awaits executor signedMessage messageHash log q) :
    q.deletes = false := by
  cases q with
  | deleteMessage _ | deleteSignatureKeyPairs _ => cases h
  | _ => rfl

section
variable {executor : Executor} {signedMessage : SignedMessage} {messageHash : Bytes32}
  {transactionReq : TransactionRequest} {transactionRes : TransactionResponse}
  {failed : Log → JsError → Prop}

/-- Part of an execution, with `failed` where an error is caught. -/
abbrev Tries (executor : Executor) (signedMessage : SignedMessage) (messageHash : Bytes32)
    (failed : Log → JsError → Prop) (post : Log → α → Prop) : Log → Promise α → Prop :=
  Follows (fun _ _ _ => True) (Awaits executor signedMessage messageHash) failed post

/-- The execution has ended, and has marked its message if it was not rejected. -/
abbrev Executes (executor : Executor) (signedMessage : SignedMessage) (messageHash : Bytes32) :
    Log → Promise Unit → Prop :=
  Tries executor signedMessage messageHash (fun log _ => ¬ Log.Marked log)
    fun log _ => Log.Marked log

theorem executes_markAsError {log : Log} (hfailed : FailedAt log) (hmarked : ¬ log.Marked)
    (herror : ErrorOf executor signedMessage log e) :
    Executes executor signedMessage messageHash log
      (MessageQueueSQLStore.markAsError messageHash e.text) := by
  refine (follows_query (.updateFinalMessage _ _)).mpr
    ⟨⟨rfl, hmarked, .inr ⟨hfailed, e, herror, rfl⟩⟩, fun _ _ => ?_, fun e _ => ?_⟩
  · exact Log.marked_told
  · exact mt Log.marked_rejected.mp hmarked

/-- Nothing has been sent or marked. -/
def Quiet (log : Log) : Prop := ¬ log.Sent ∧ ¬ log.Marked

/-- To ask the chain or to read a table, before anything is sent. -/
theorem tries_quiet {q : Query} {log : Log} {post : Log → q.Answer → Prop}
    (hq : q.writes = false) (hsend : ∀ transaction, q ≠ .sendTransaction transaction)
    (hlog : Quiet log) (hfailed : ∀ log e, Quiet log → failed log e)
    (hpost : ∀ log a, Quiet log → post log a) :
    Tries executor signedMessage messageHash failed post log (query q) := by
  have hawaits : Awaits executor signedMessage messageHash log q := by
    cases q with
    | sendTransaction transaction => exact absurd rfl (hsend transaction)
    | updateMessage _ _ | updateFinalMessage _ _ | deleteAuthorisation _ _ => cases hq
    | _ => exact hq
  have hquiet : ∀ r, Quiet (log ++ [⟨q, r⟩]) := by
    intro r
    constructor
    · rintro ⟨transaction, response, hmem⟩
      rcases List.mem_append.mp hmem with hmem | hmem
      · exact hlog.1 ⟨_, _, hmem⟩
      · cases List.mem_singleton.mp hmem
        exact hsend transaction rfl
    · rintro ⟨hash, data, hmem⟩
      rcases List.mem_append.mp hmem with hmem | hmem
      · exact hlog.2 ⟨_, _, hmem⟩
      · cases List.mem_singleton.mp hmem
        cases hq
  exact (follows_query q).mpr
    ⟨hawaits, fun a _ => hpost _ a (hquiet _), fun e _ => hfailed _ e (hquiet _)⟩

theorem tries_hasEnoughToken {log : Log} {post : Log → Bool → Prop} (hlog : Quiet log)
    (hfailed : ∀ log e, Quiet log → failed log e) (hpost : ∀ log a, Quiet log → post log a) :
    Tries executor signedMessage messageHash failed post log
      (hasEnoughToken gasToken walletContractAddress gasLimit) := by
  rw [hasEnoughToken]
  split
  · refine follows_bind.mpr (tries_quiet rfl (fun _ h => by cases h) hlog hfailed ?_)
    intro log balance hlog
    refine follows_bind.mpr (follows_lift (fun e _ => hfailed _ _ hlog) fun limit _ => ?_)
    exact hpost _ _ hlog
  · refine follows_bind.mpr (follows_bind.mpr
      (tries_quiet rfl (fun _ h => by cases h) hlog hfailed fun log code hlog => ?_))
    refine follows_bind.mpr (follows_ensure (fun _ => hfailed _ _ hlog) fun _ => ?_)
    refine follows_bind.mpr (tries_quiet rfl (fun _ h => by cases h) hlog hfailed ?_)
    intro log balance hlog
    refine follows_bind.mpr (follows_lift (fun e _ => hfailed _ _ hlog) fun limit _ => ?_)
    exact hpost _ _ hlog

theorem tries_validate {log : Log} {post : Log → Unit → Prop} (hlog : Quiet log)
    (hfailed : ∀ log e, Quiet log → failed log e) (hpost : ∀ log a, Quiet log → post log a) :
    Tries executor signedMessage messageHash failed post log
      (MessageValidator.validate executor message transactionReq) := by
  refine follows_bind.mpr (follows_bind.mpr
    (tries_quiet rfl (fun _ h => by cases h) hlog hfailed fun log code hlog => ?_))
  refine follows_ensure (fun _ => hfailed _ _ hlog) fun _ => ?_
  refine follows_bind.mpr (follows_bind.mpr
    (tries_hasEnoughToken hlog hfailed fun log enough hlog => ?_))
  refine follows_ensure (fun _ => hfailed _ _ hlog) fun _ => ?_
  refine follows_bind.mpr (tries_quiet rfl (fun _ h => by cases h) hlog hfailed ?_)
  intro log estimate hlog
  refine follows_bind.mpr (follows_lift (fun e _ => hfailed _ _ hlog) fun limit _ => ?_)
  exact follows_ensure (fun _ => hfailed _ _ hlog) fun _ => hpost _ _ hlog

/-- The hook after a transaction was sent. -/
theorem tries_onTransactionSent {log : Log} {post : Log → Unit → Prop}
    (hsent : told (.sendTransaction transactionReq) transactionRes ∈ log) (hmarked : ¬ log.Marked)
    (hfailed : ∀ log e, FailedAt log → ¬ log.Marked → failed log e)
    (hpost : ∀ log : Log, told (.sendTransaction transactionReq) transactionRes ∈ log →
      ¬ log.Marked → post log ()) :
    Tries executor signedMessage messageHash failed post log
      (MessageHandler.onTransactionSent transactionRes) := by
  have hthrows : MessageHandler.HookThrows transactionRes → FailedAt log :=
    fun h => .inr (.inr ⟨_, _, hsent, h⟩)
  refine follows_bind.mpr (follows_lift (fun e he => ?_) fun message hmessage => ?_)
  · exact hfailed _ _ (hthrows (by simp [MessageHandler.HookThrows, he])) hmarked
  split
  · next hto =>
    split
    · next hadd =>
      refine follows_bind.mpr (follows_bind.mpr (follows_lift (fun e he => ?_) fun key _ => ?_))
      · exact hfailed _ _ (hthrows (by simp [MessageHandler.HookThrows, hmessage, hto, hadd, he]))
          hmarked
      · refine (follows_query (.deleteAuthorisation _ _)).mpr ⟨trivial, fun _ _ => ?_, fun e _ => ?_⟩
        · exact hpost _ (List.mem_append_left _ hsent) (by simpa [Log.Marked] using hmarked)
        · exact hfailed _ _ (.inr (.inl ⟨_, _, e, rfl, _, _, hsent⟩))
            (by simpa [Log.Marked] using hmarked)
    · split <;> exact hpost _ hsent hmarked
  · exact hpost _ hsent hmarked

theorem tries_executeAndWait {post : Log → TransactionResponse → Prop}
    (hfailed : ∀ log e, FailedAt log → ¬ log.Marked → failed log e)
    (hpost : ∀ (log : Log) transactionRes,
      (∃ transactionReq, told (.sendTransaction transactionReq) transactionRes ∈ log) →
      ¬ log.Marked → post log transactionRes) :
    Tries executor signedMessage messageHash failed post []
      (MessageExecutor.executeAndWait executor signedMessage) := by
  have hquiet : Quiet [] := by simp [Quiet, Log.Sent, Log.Marked]
  have hcaught : ∀ log e, Quiet log → failed log e :=
    fun log e hlog => hfailed log e (.inl hlog.1) hlog.2
  refine follows_bind.mpr (follows_lift (fun e _ => hcaught _ _ hquiet) ?_)
  intro transactionReq hreq
  refine follows_bind.mpr (tries_validate hquiet hcaught fun log _ hlog => ?_)
  refine follows_bind.mpr ((follows_query (.sendTransaction _)).mpr ?_)
  refine ⟨⟨hreq, hlog⟩, fun transactionRes _ => ?_, fun e _ => hfailed _ _ (.inl ?_) ?_⟩
  · have hsent : told (.sendTransaction transactionReq) transactionRes ∈
        log ++ [told (.sendTransaction transactionReq) transactionRes] := by simp
    have hmarked : ¬ Log.Marked (log ++ [told (.sendTransaction transactionReq) transactionRes]) := by
      simpa [Log.Marked] using hlog.2
    generalize log ++ [told (.sendTransaction transactionReq) transactionRes] = log at hsent hmarked
    refine follows_bind.mpr ((follows_query (.waitForTransaction _)).mpr ?_)
    refine ⟨rfl, fun _ _ => ?_, fun e _ => ?_⟩
    · refine follows_bind.mpr (tries_onTransactionSent (List.mem_append_left _ hsent)
        (by simpa [Log.Marked] using hmarked) hfailed fun log hsent hmarked => ?_)
      exact hpost _ _ ⟨_, hsent⟩ hmarked
    · exact hfailed _ _ (.inr (.inl ⟨_, _, e, rfl, _, _, hsent⟩))
        (mt Log.marked_rejected.mp hmarked)
  · simpa [Log.Sent] using hlog.1
  · simpa [Log.Marked] using hlog.2

theorem follows_execute : Executes executor signedMessage messageHash []
    (execute executor signedMessage messageHash) := by
  refine follows_bind.mpr (follows_settle.mpr (follows_bind.mpr ?_))
  -- every error is caught and marks the message
  have hexecuted : Tries executor signedMessage messageHash
      (fun log _ => FailedAt log ∧ ¬ log.Marked)
      (fun log transactionRes =>
        (∃ transactionReq, told (.sendTransaction transactionReq) transactionRes ∈ log) ∧
          ¬ log.Marked) []
      (MessageExecutor.executeAndWait executor signedMessage) :=
    tries_executeAndWait (fun _ _ h h' => ⟨h, h'⟩) fun _ _ h h' => ⟨h, h'⟩
  refine hexecuted.leads.mono (fun _ _ _ h => h) (fun _ _ h => h) ?_ ?_
  · rintro log e ⟨⟨hfailed, hmarked⟩, hleads⟩
    exact executes_markAsError hfailed hmarked (.inl ⟨log, [], by simp, by simpa using hleads⟩)
  rintro log transactionRes ⟨⟨⟨transactionReq, hsent⟩, hmarked⟩, hleads⟩
  have hsettles : MessageExecutor.Settles executor signedMessage log (.ok transactionRes) :=
    ⟨log, [], by simp, by simpa using hleads⟩
  -- an update of the tables that is rejected fails the execution
  have hrejected : ∀ (log : Log) q e, q.writes = true →
      told (.sendTransaction transactionReq) transactionRes ∈ log → ¬ log.Marked →
        Executes executor signedMessage messageHash (log ++ [rejected q e])
          (MessageQueueSQLStore.markAsError messageHash e.text) := by
    intro log q e hq hsent hmarked
    exact executes_markAsError (.inr (.inl ⟨log, q, e, rfl, _, _, hsent⟩))
      (mt Log.marked_rejected.mp hmarked) (.inr ⟨q, e, hq, by simp⟩)
  refine follows_bind.mpr ((follows_query (.updateMessage _ _)).mpr ?_)
  refine ⟨⟨rfl, hmarked, _, _, hsent, rfl⟩, fun _ _ => ?_, fun e _ => hrejected _ _ e rfl hsent hmarked⟩
  have hmarked : ¬ Log.Marked
      (log ++ [told (.updateMessage messageHash transactionRes.hash) ()]) := by
    simpa [Log.Marked] using hmarked
  refine (follows_query (.updateFinalMessage _ _)).mpr ⟨⟨rfl, hmarked, .inl ?_⟩, ?_, ?_⟩
  · exact ⟨_, hsettles.append _, List.mem_append_right _ List.mem_cons_self, rfl⟩
  · exact fun _ _ => Log.marked_told
  · exact fun e _ => hrejected _ _ e rfl (List.mem_append_left _ hsent) hmarked

end

end MessageQueueService

end UniversalLogin
