import Mathlib.Algebra.Order.Floor.Semifield
import Mathlib.Data.Rat.Floor
import UniversalLogin.Relayer.Stores

/-!
# Waiting for a result

`retry` calls a function again and again, with a sleep after each call, until its result is one to
stop at or the time is over (`retry.ts`). The deadline is looked at before each call and time passes
in the sleeps, so that the distance to the deadline bounds the calls (`retry_ends`).
-/

namespace UniversalLogin

inductive SDKError
  | timeoutError
  /-- `Error(message)`, or what the function was rejected with. -/
  | error (message : JsString)
  deriving DecidableEq

def SDKError.message : SDKError → JsString
  | timeoutError => "Timeout exceeded".toList
  | error message => message

/-- A clock as one `retry` meets it, in milliseconds. It never goes back, and a sleep takes `tick`
or longer. -/
structure Clock (tick : ℚ) where
  positive : 0 < tick
  /-- The reading that the deadline is computed from. -/
  started : ℚ
  /-- The readings that are compared with the deadline. -/
  checked : ℕ → ℚ
  /-- When the function has answered. -/
  answered : ℕ → ℚ
  /-- When the sleep is over. -/
  woken : ℕ → ℚ
  started_le : started ≤ checked 0
  checked_le : ∀ i, checked i ≤ answered i
  slept : ∀ i, answered i + tick ≤ woken i
  woken_le : ∀ i, woken i ≤ checked (i + 1)

namespace Clock

variable {tick : ℚ} (clock : Clock tick)

theorem checked_succ (i : ℕ) : clock.checked i + tick ≤ clock.checked (i + 1) := by
  have hanswered := clock.checked_le i
  have hslept := clock.slept i
  have hwoken := clock.woken_le i
  linarith

/-- Each sleep so far has taken a tick. -/
theorem started_add_le (i : ℕ) : clock.started + i * tick ≤ clock.checked i := by
  induction i with
  | zero => simpa using clock.started_le
  | succ i ih =>
    have hstep := clock.checked_succ i
    push_cast
    linarith

/-- While the deadline lies ahead, an iteration brings it a tick nearer. -/
theorem ceil_lt {stopTime : ℚ} {i : ℕ} (hahead : clock.checked i < stopTime) :
    ⌈(stopTime - clock.checked (i + 1)) / tick⌉₊ < ⌈(stopTime - clock.checked i) / tick⌉₊ := by
  have htick := clock.positive
  have hpos : 0 < (stopTime - clock.checked i) / tick := by
    apply div_pos _ htick
    linarith
  have hnearer : (stopTime - clock.checked (i + 1)) / tick ≤
      (stopTime - clock.checked i) / tick - 1 := by
    rw [div_sub_one htick.ne']
    have hstep := clock.checked_succ i
    exact (div_le_div_iff_of_pos_right htick).mpr (by linarith)
  have hceil := Nat.ceil_mono hnearer
  rw [Nat.ceil_sub_one] at hceil
  have := Nat.ceil_pos.mpr hpos
  omega

/-- A call is made only while its number is below the number of ticks in the timeout. -/
theorem lt_ceil {timeout : ℚ} {i : ℕ} (hahead : clock.checked i < clock.started + timeout) :
    i < ⌈timeout / tick⌉₊ := by
  have hsleeps := clock.started_add_le i
  rw [Nat.lt_ceil, lt_div_iff₀ clock.positive]
  linarith

/-- The clock of a machine on which only the sleeps take time, a tick each. -/
def exact (htick : 0 < tick) : Clock tick where
  positive := htick
  started := 0
  checked i := i * tick
  answered i := i * tick
  woken i := (i + 1) * tick
  started_le := by simp
  checked_le i := le_rfl
  slept i := by linarith
  woken_le i := by push_cast; exact le_rfl

end Clock

section
variable {R : Type} {tick : ℚ}

/-- The loop of `retry` from iteration `i` on: how it ends and how often the function was called.
The `i`-th call answers `callback i`. -/
def retryLoop (callback : ℕ → Except SDKError R) (predicate : R → Bool) (stopTime : ℚ)
    (clock : Clock tick) (i : ℕ) : Except SDKError R × ℕ :=
  if stopTime > clock.checked i then
    match callback i with
    | .error e => (.error e, i + 1)
    | .ok result =>
      if predicate result then retryLoop callback predicate stopTime clock (i + 1)
      else (.ok result, i + 1)
  else (.error .timeoutError, i)
termination_by ⌈(stopTime - clock.checked i) / tick⌉₊
decreasing_by exact clock.ceil_lt ‹_›

def retry (callback : ℕ → Except SDKError R) (predicate : R → Bool) (timeout : ℚ)
    (clock : Clock tick) : Except SDKError R × ℕ :=
  retryLoop callback predicate (clock.started + timeout) clock 0

/-- How the loop ends from iteration `i` on, with a function that always answers: with the first
result that the predicate is false of, or with a timeout after results that it is true of, when the
deadline has passed. -/
inductive RetryEnds (results : ℕ → R) (predicate : R → Bool) (stopTime : ℚ) (clock : Clock tick)
    (i : ℕ) : Except SDKError R × ℕ → Prop
  | returned : i ≤ k → predicate (results k) = false →
    (∀ j, i ≤ j → j < k → predicate (results j) = true) →
    RetryEnds results predicate stopTime clock i (.ok (results k), k + 1)
  | timedOut : i ≤ n → (∀ j, i ≤ j → j < n → predicate (results j) = true) →
    stopTime ≤ clock.checked n →
    RetryEnds results predicate stopTime clock i (.error .timeoutError, n)

theorem RetryEnds.of_next {results : ℕ → R} {predicate : R → Bool} {clock : Clock tick}
    (hi : predicate (results i) = true)
    (h : RetryEnds results predicate stopTime clock (i + 1) e) :
    RetryEnds results predicate stopTime clock i e := by
  have hbefore : ∀ {n}, (∀ j, i + 1 ≤ j → j < n → predicate (results j) = true) →
      ∀ j, i ≤ j → j < n → predicate (results j) = true := by
    intro n hlater j hij hjn
    rcases hij.eq_or_lt with rfl | hlt
    · exact hi
    · exact hlater j hlt hjn
  cases h with
  | returned hik hk hlater => exact .returned (by omega) hk (hbefore hlater)
  | timedOut hin hlater hover => exact .timedOut (by omega) (hbefore hlater) hover

theorem retryLoop_ends (results : ℕ → R) (predicate : R → Bool) (stopTime : ℚ)
    (clock : Clock tick) (i : ℕ) :
    RetryEnds results predicate stopTime clock i
      (retryLoop (fun i => .ok (results i)) predicate stopTime clock i) := by
  fun_induction retryLoop (fun i => .ok (results i)) predicate stopTime clock i with
  | case1 i _ e herror => cases herror
  | case2 i _ result hresult hagain ih =>
    cases hresult
    exact ih.of_next hagain
  | case3 i _ result hresult hstop =>
    cases hresult
    exact .returned le_rfl (by simpa using hstop) fun j hij hji => absurd hji (by omega)
  | case4 i hover =>
    exact .timedOut le_rfl (fun j hij hji => absurd hji (by omega)) (not_lt.mp hover)

theorem retryLoop_calls_le {callback : ℕ → Except SDKError R} {predicate : R → Bool} {timeout : ℚ}
    {clock : Clock tick} (hi : i ≤ ⌈timeout / tick⌉₊) :
    (retryLoop callback predicate (clock.started + timeout) clock i).2 ≤ ⌈timeout / tick⌉₊ := by
  fun_induction retryLoop callback predicate (clock.started + timeout) clock i with
  | case1 i hahead e _ => exact clock.lt_ceil hahead
  | case2 i hahead result _ _ ih => exact ih (clock.lt_ceil hahead)
  | case3 i hahead result _ _ => exact clock.lt_ceil hahead
  | case4 i _ => exact hi

/-- The bound is reached if nothing but the sleeps takes time and no result will do. -/
theorem retry_exact {results : ℕ → R} {predicate : R → Bool} {timeout : ℚ} (htick : 0 < tick)
    (hagain : ∀ i, predicate (results i) = true) :
    retry (fun i => .ok (results i)) predicate timeout (Clock.exact htick) =
      (.error .timeoutError, ⌈timeout / tick⌉₊) := by
  have hloop : ∀ i ≤ ⌈timeout / tick⌉₊, retryLoop (fun i => .ok (results i)) predicate
      ((Clock.exact htick).started + timeout) (Clock.exact htick) i =
        (.error .timeoutError, ⌈timeout / tick⌉₊) := by
    intro i hi
    fun_induction retryLoop (fun i => .ok (results i)) predicate
      ((Clock.exact htick).started + timeout) (Clock.exact htick) i with
    | case1 i _ e herror => cases herror
    | case2 i hahead _ _ _ ih => exact ih ((Clock.exact htick).lt_ceil hahead)
    | case3 i _ result hresult hstop =>
      cases hresult
      exact absurd (hagain i) hstop
    | case4 i hover =>
      have hle : timeout / tick ≤ i := by
        rw [div_le_iff₀ htick]
        simpa [Clock.exact] using hover
      rw [le_antisymm hi (Nat.ceil_le.mpr hle)]
  exact hloop 0 (Nat.zero_le _)

/-- What the loop returns is a result that the predicate is false of. -/
theorem retryLoop_returned {callback : ℕ → Except SDKError R} {predicate : R → Bool}
    {stopTime : ℚ} {clock : Clock tick}
    (h : (retryLoop callback predicate stopTime clock i).1 = .ok result) :
    predicate result = false := by
  fun_induction retryLoop callback predicate stopTime clock i with
  | case1 i _ e _ => cases h
  | case2 i _ _ _ _ ih => exact ih h
  | case3 i _ _ _ hstop =>
    cases h
    simpa using hstop
  | case4 i _ => cases h

end

/-! ## `waitForStatus` -/

/-- The answer to a request for the status of a message. -/
structure SDKMessageStatus extends MessageStatus where
  error : Option JsString
  deriving DecidableEq

namespace UniversalLoginSDK

def isExecuted (messageStatus : SDKMessageStatus) : Bool :=
  truthy messageStatus.transactionHash || truthy messageStatus.error

/-- `getStatus i` is the answer of the relayer to the `i`-th request. -/
def waitForStatus (getStatus : ℕ → Except SDKError SDKMessageStatus) (clock : Clock 1000) :
    Except SDKError SDKMessageStatus :=
  let isNotExecuted messageStatus := !isExecuted messageStatus
  match (retry getStatus isNotExecuted 5000 clock).1 with
  | .error e => .error e
  | .ok status =>
    if truthy status.error then .error (.error (status.error.getD [])) else .ok status

theorem waitForStatus_eq_ok {getStatus : ℕ → Except SDKError SDKMessageStatus}
    {clock : Clock 1000} (h : waitForStatus getStatus clock = .ok status) :
    truthy status.transactionHash = true ∧ truthy status.error = false := by
  simp only [waitForStatus] at h
  split at h
  · cases h
  · next status' hretry =>
    have hexecuted : isExecuted status' = true := by simpa using retryLoop_returned hretry
    cases herror : truthy status'.error with
    | true =>
      rw [if_pos herror] at h
      cases h
    | false =>
      rw [isExecuted, herror, Bool.or_false] at hexecuted
      rw [herror] at h
      cases h
      exact ⟨hexecuted, herror⟩

end UniversalLoginSDK

/-- `retry` with a function that always answers calls it at most `timeout / tick` times, rounded up,
and ends with its first result that is not to be tried again or with a timeout. `waitForStatus`
never returns a status without a transaction hash and an error. -/
theorem retry_ends {R : Type} {tick : ℚ} (results : ℕ → R) (predicate : R → Bool) (timeout : ℚ)
    (clock : Clock tick) :
    (retry (fun i => .ok (results i)) predicate timeout clock).2 ≤ ⌈timeout / tick⌉₊ ∧
    RetryEnds results predicate (clock.started + timeout) clock 0
      (retry (fun i => .ok (results i)) predicate timeout clock) ∧
    ∀ getStatus clock status, UniversalLoginSDK.waitForStatus getStatus clock = .ok status →
      UniversalLoginSDK.isExecuted status = true := by
  refine ⟨retryLoop_calls_le (Nat.zero_le _), retryLoop_ends .., fun getStatus clock status h => ?_⟩
  rw [UniversalLoginSDK.isExecuted, (UniversalLoginSDK.waitForStatus_eq_ok h).1]
  rfl

end UniversalLogin
