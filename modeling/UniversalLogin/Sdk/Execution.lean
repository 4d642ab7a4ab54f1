import UniversalLogin.Relayer.Reports
import UniversalLogin.Sdk.Retry

/-!
# The end of an execution

`execute` of the client after its request (`sdk.ts`). If the relayer has queued the message, the
client asks for the status of the message until it is told of a transaction or an error. Whatever
other clients and the loops of the queue do, what the client is told of then is a transaction that
was sent for a message with the hash of its own (`execute_broadcast`).
-/

namespace UniversalLogin

open Async Labelled

namespace UniversalLoginSDK

/-- `execute` after its request was answered with `status`, where `getStatus messageHash i` is the
answer of the relayer to the `i`-th request for the status of a message. -/
def finishExecute (status : MessageStatus)
    (getStatus : Bytes32 → ℕ → Except SDKError SDKMessageStatus) (clock : Clock 1000) :
    Except SDKError MessageStatus :=
  match status.messageHash with
  | none => .ok status
  | some messageHash =>
    match waitForStatus (getStatus messageHash) clock with
    | .error e => .error e
    | .ok found =>
      -- `waitForStatus` has thrown this error itself
      if truthy found.error then .error (.error (found.error.getD []))
      else .ok { status with transactionHash := found.transactionHash }

/-- What is waited for is one of the answers. -/
theorem retryLoop_callback {R : Type} {tick : ℚ} {callback : ℕ → Except SDKError R}
    {predicate : R → Bool} {stopTime : ℚ} {clock : Clock tick} {result : R}
    (h : (retryLoop callback predicate stopTime clock i).1 = .ok result) :
    ∃ k, callback k = .ok result := by
  fun_induction retryLoop callback predicate stopTime clock i with
  | case1 i _ e _ => cases h
  | case2 i _ _ _ _ ih => exact ih h
  | case3 i _ _ hresult _ =>
    cases h
    exact ⟨i, hresult⟩
  | case4 i _ => cases h

theorem answer_of_waitForStatus {getStatus : ℕ → Except SDKError SDKMessageStatus}
    {clock : Clock 1000} (h : waitForStatus getStatus clock = .ok status) :
    ∃ k, getStatus k = .ok status := by
  simp only [waitForStatus] at h
  split at h
  · cases h
  · next status' hretry =>
    split at h
    · cases h
    · cases h
      exact retryLoop_callback hretry

/-- What `execute` resolves with. -/
theorem finishExecute_eq_ok {getStatus : Bytes32 → ℕ → Except SDKError SDKMessageStatus}
    {clock : Clock 1000} (h : finishExecute status getStatus clock = .ok status') :
    status.messageHash = none ∧ status' = status ∨
      ∃ messageHash k found transactionHash, status.messageHash = some messageHash ∧
        getStatus messageHash k = .ok found ∧ found.transactionHash = some transactionHash ∧
          status' = { status with transactionHash := some transactionHash } := by
  rw [finishExecute] at h
  split at h
  · next hnone =>
    cases h
    exact .inl ⟨hnone, rfl⟩
  · next messageHash hsome =>
    split at h
    · cases h
    · next found hwait =>
      obtain ⟨htransaction, herror⟩ := waitForStatus_eq_ok hwait
      obtain ⟨k, hk⟩ := answer_of_waitForStatus hwait
      rw [herror] at h
      cases h
      cases hfound : found.transactionHash with
      | none =>
        rw [hfound] at htransaction
        cases htransaction
      | some transactionHash => exact .inr ⟨messageHash, k, found, _, hsome, hk, hfound, rfl⟩

end UniversalLoginSDK

/-! ## What the relayer answers -/

/-- A status as it is sent to the client. -/
def MessageHandler.Status.sent (status : MessageHandler.Status) : SDKMessageStatus :=
  { status with }

section
variable {possible : Log → (q : Query) → Except JsError q.Answer → Prop} {log : Log}

/-- Where nothing is asked of the queries. -/
theorem follows_any {post : Log → α → Prop} {x : Promise α} (hpost : ∀ log a, post log a) :
    Follows possible (fun _ _ => True) (fun _ _ => True) post log x := by
  induction x generalizing log with
  | done r =>
    cases r with
    | ok a => exact hpost log a
    | error e => trivial
  | await q next ih => exact ⟨trivial, fun r _ => ih r⟩

/-- A hash in the status that `add` returns is that of the message. -/
theorem follows_add_hash {ethers : Ethers} {message : SignedMessage} :
    Follows possible (fun _ _ => True) (fun _ _ => True)
      (fun _ status => ∀ h ∈ status.messageHash,
        calculateMessageHash ethers.crypto message.toUnsignedMessage = .ok h)
      log (PendingMessages.add ethers message) := by
  refine follows_bind.mpr (follows_lift (fun _ _ => trivial) fun hash hhash => ?_)
  refine follows_bind.mpr (follows_any fun log present => ?_)
  refine follows_bind.mpr (follows_any fun log _ => ?_)
  refine follows_bind.mpr (follows_any fun log _ => ?_)
  refine follows_bind.mpr (follows_getStatus (fun _ _ _ => trivial) (fun _ _ _ _ _ => trivial)
    (fun _ => trivial) fun row pairs required _ _ _ => ?_)
  refine follows_bind.mpr (follows_any fun log isEnough => ?_)
  split
  · refine follows_bind.mpr (follows_bind.mpr ?_)
    refine follows_getMessageWithSignatures (fun _ _ _ => trivial) (fun _ _ _ _ _ => trivial)
      (fun _ _ => trivial) fun pairs sorted signature _ _ _ => ?_
    refine follows_bind.mpr (follows_any fun log _ => ?_)
    refine follows_bind.mpr (follows_lift (fun _ _ => trivial) fun queued hqueued => ?_)
    refine follows_bind.mpr (follows_any fun log _ => ?_)
    intro h hh
    cases hh
    exact hqueued
  · exact nofun

end

namespace Handler

section
variable {C : Type} [DecidableEq C] {wallets : Address → Option Storage} {executor : Executor}
  {ethers : Ethers} {requests : C → Request} {tables : Database} {m : Handler C}

/-- A call does in a run what its code does. -/
theorem follows_of_run {awaited : Log → Query → Prop} {failed : Log → JsError → Prop}
    {post : Log → Response → Prop}
    (hcode : Follows (fun _ _ _ => True) awaited failed post [] ((requests c).serve ethers))
    (hrun : Run (Step wallets executor) (.initial ethers tables requests) trace m) :
    (m.calls c).Follows (fun _ _ _ => True) awaited failed post := by
  refine hrun.invariant (I := fun m => (m.calls c).Follows (fun _ _ _ => True) awaited failed post)
    ?_ hcode
  intro m e m' h hstep
  cases hstep with
  | @answered _ _ c' _ c₁ _ hcall =>
    change (Function.update m.calls c₁ c' c).Follows _ _ _ _
    by_cases hc : c = c₁
    · subst hc
      rw [Function.update_self]
      exact h.step hcall trivial
    · rwa [Function.update_of_ne hc]
  | _ => exact h

/-- What `add` leaves of its log and its status is found where `handleMessage` has ended. -/
theorem add_of_handled {post : Log → MessageStatus → Prop}
    (hcode : Follows (fun _ _ _ => True) (fun _ _ => True) (fun _ _ => True) post []
      (PendingMessages.add ethers message))
    (hrun : Run (Step wallets executor) (.initial ethers tables requests) trace m)
    (hrequest : requests c = .handleMessage message)
    (hstatus : (m.calls c).rest = .done (.ok (.handled status))) :
    post (m.calls c).log status := by
  have hserve : Follows (fun _ _ _ => True) (fun _ _ => True) (fun _ _ => True)
      (fun log response => ∀ status, response = .handled status → post log status) []
      ((requests c).serve ethers) := by
    rw [hrequest]
    refine follows_bind.mpr (hcode.mono (fun _ _ _ h => h) (fun _ _ h => h) (fun _ _ h => h)
      fun log status h status' heq => ?_)
    cases heq
    exact h
  exact (follows_of_run hserve hrun).of_ok hstatus status rfl

/-- The client is sent what calls of `getStatus` have returned. -/
def Polls (requests : C → Request) (m : Handler C)
    (getStatus : Bytes32 → ℕ → Except SDKError SDKMessageStatus) : Prop :=
  ∀ messageHash i found, getStatus messageHash i = .ok found →
    ∃ c status, requests c = .getStatus messageHash ∧
      (m.calls c).rest = .done (.ok (.status (some status))) ∧ found = status.sent

/-- A client posts a message and asks for its status, among any others and while the queue works or
is started and stopped. If `execute` resolves, then the relayer waits for more signatures of the
message, or the client is told of the hash of a transaction, and such a transaction was sent: it
carries a message that was handed over to the queue and has the hash of the one that was posted. -/
theorem execute_broadcast {status status' : MessageStatus}
    {getStatus : Bytes32 → ℕ → Except SDKError SDKMessageStatus} {clock : Clock 1000}
    (hrun : Run (Step wallets executor) (.initial ethers .empty requests) trace m)
    (hrequest : requests c = .handleMessage message)
    (hstatus : (m.calls c).rest = .done (.ok (.handled status)))
    (hpolls : Polls requests m getStatus)
    (hresolves : UniversalLoginSDK.finishExecute status getStatus clock = .ok status') :
    status.messageHash = none ∧ status' = status ∨
      ∃ messageHash transactionHash,
        calculateMessageHash ethers.crypto message.toUnsignedMessage = .ok messageHash ∧
        status' = { status with transactionHash := some transactionHash } ∧
        Broadcast ethers.crypto trace messageHash transactionHash := by
  refine (UniversalLoginSDK.finishExecute_eq_ok hresolves).imp_right ?_
  rintro ⟨messageHash, k, found, transactionHash, hqueued, hfound, htransaction, rfl⟩
  have hhash := add_of_handled follows_add_hash hrun hrequest hstatus messageHash hqueued
  obtain ⟨c', told, hasked, hdone, rfl⟩ := hpolls messageHash k found hfound
  exact ⟨messageHash, transactionHash, hhash, rfl,
    broadcast_of_status hrun hasked hdone transactionHash htransaction⟩

end

/-! ## A message that is executed and asked for -/

/-- The status that a call of `handleMessage` has returned. -/
def handledStatus (m : Handler C) (c : C) : Option MessageStatus :=
  match (m.calls c).rest with
  | .done (.ok (.handled status)) => some status
  | _ => none

theorem done_of_handledStatus {m : Handler C} (h : m.handledStatus c = some status) :
    (m.calls c).rest = .done (.ok (.handled status)) := by
  rw [handledStatus] at h
  split at h
  · next handled hdone =>
    cases h
    exact hdone
  · cases h

end Handler

namespace Sample

set_option maxRecDepth 20000 in
/-- The message is queued with the second signature, and then executed. -/
theorem asked_handled : asked.map (fun p =>
    (((p.2.2.handledStatus (.inl true)).map (·.messageHash)),
      (p.2.2.foundStatus (.inr true)).map fun status => (status.transactionHash, status.error))) =
    some (some (some messageHash), some (some transactionHash, none)) := by decide

/-- Every request for the status of the message is answered with this one. -/
def polled (status : MessageHandler.Status) (hash : Bytes32) (_ : ℕ) :
    Except SDKError SDKMessageStatus :=
  if hash = messageHash then .ok status.sent else .error .timeoutError

theorem tick_pos : (0 : ℚ) < 1000 := by norm_num

theorem finishExecute_polled {status : MessageStatus} {found : MessageHandler.Status}
    (hhash : status.messageHash = some messageHash)
    (htransaction : found.transactionHash = some transactionHash) (herror : found.error = none) :
    UniversalLoginSDK.finishExecute status (polled found) (Clock.exact tick_pos) =
      .ok { status with transactionHash := some transactionHash } := by
  have hexecuted : UniversalLoginSDK.isExecuted found.sent = true := by
    simp only [UniversalLoginSDK.isExecuted, MessageHandler.Status.sent, htransaction]
    rfl
  have hretry : retry (fun _ => .ok found.sent)
      (fun messageStatus => !UniversalLoginSDK.isExecuted messageStatus) 5000
      (Clock.exact tick_pos) = (.ok found.sent, 1) := by
    rw [retry, retryLoop]
    simp [Clock.exact, hexecuted]
  have hpolled : polled found messageHash = fun _ => .ok found.sent :=
    funext fun _ => if_pos rfl
  simp only [UniversalLoginSDK.finishExecute, hhash, UniversalLoginSDK.waitForStatus, hpolled,
    hretry]
  simp [MessageHandler.Status.sent, herror, htransaction, truthy]

end Sample

namespace Handler

theorem polls_polled {requests : Bool ⊕ Bool → Request} {m : Handler (Bool ⊕ Bool)}
    (hrequest : requests (.inr true) = .getStatus Sample.messageHash)
    (hfound : m.foundStatus (.inr true) = some found) :
    Polls requests m (Sample.polled found) := by
  intro messageHash i sent hsent
  rw [Sample.polled] at hsent
  split at hsent
  · next hhash =>
    cases hsent
    exact ⟨.inr true, found, hhash ▸ hrequest, done_of_foundStatus hfound, rfl⟩
  · cases hsent

theorem execute_broadcast_sample : ∃ trace m, ∃ status : MessageStatus,
    Run (Step Sample.chain.wallets Sample.recoveringExecutor)
      (initial Sample.recovering .empty Sample.signingAndAsking) trace m ∧
    m.handledStatus (.inl true) = some status ∧
    ∃ messageHash, Broadcast Sample.recovering.crypto trace messageHash Sample.transactionHash := by
  obtain ⟨p, hasked, hstatuses⟩ := Option.map_eq_some_iff.mp Sample.asked_handled
  simp only [Sample.asked, Option.bind_eq_bind, Option.bind_eq_some_iff] at hasked
  obtain ⟨⟨trace, m⟩, hbefore, ⟨trace', m'⟩, hafter, heq⟩ := hasked
  cases Option.some.inj heq
  obtain ⟨hhandled, hfound⟩ := Prod.mk.inj hstatuses
  obtain ⟨status, hstatus, hhash⟩ := Option.map_eq_some_iff.mp hhandled
  obtain ⟨found, hstatus', hfound⟩ := Option.map_eq_some_iff.mp hfound
  obtain ⟨htransaction, herror⟩ := Prod.mk.inj hfound
  have hrun := (run_turns Sample.answers_accepting hbefore).of_guarded.append
    (run_turns Sample.answers_accepting hafter).of_guarded
  have hpolls : Polls Sample.signingAndAsking m' (Sample.polled found) := polls_polled rfl hstatus'
  refine ⟨_, m', status, hrun, hstatus, ?_⟩
  have hresolves := Sample.finishExecute_polled hhash htransaction herror
  obtain ⟨hnone, _⟩ | ⟨hash, transactionHash, _, heq, hbroadcast⟩ :=
    execute_broadcast hrun rfl (done_of_handledStatus hstatus) hpolls hresolves
  · cases hhash.symm.trans hnone
  · cases congrArg MessageStatus.transactionHash heq
    exact ⟨hash, hbroadcast⟩

end Handler

end UniversalLogin
