import UniversalLogin.Sdk.ObserverRunner
import UniversalLogin.Sdk.Subscriptions

/-!
# BalanceObserver

The observer that waits for a balance (`BalanceObserver.ts`). A check starts with the address of its
time and ends with the address and the callback of another time: they may have been taken back, or
be those of the next subscription. The callbacks belong to their subscriptions exactly if a check
that finds a token always ends with the address it has started with, or one where the token was
found before (`BalanceObserver.belongs_iff`).
-/

namespace UniversalLogin

open Async History Transition

/-- A call of `checkBalance` for an address, with what is left of the search for a token. -/
structure BalanceCheck where
  address : JsString
  find : BalancePromise (Option JsString)

/-- A tick without an address has nothing to check. -/
structure BalanceObserver extends ObserverRunner (Option BalanceCheck) where
  contractAddress : Option JsString
  callback : Option Nat
  /-- How many subscriptions there were. Their callbacks are numbered. -/
  subscriptions : Nat
  history : List SubscriptionEvent

namespace BalanceObserver

inductive Action
  | startAndSubscribe (address : JsString)
  /-- To call what `startAndSubscribe` has returned. -/
  | unsubscribe (callback : Nat)
  /-- The provider answers what a check waits for. -/
  | answer (i : Nat) (balance : Except String Uint256)
  /-- A tick goes on after its check. -/
  | settle (i : Nat)
  | timeout (i : Nat)

def initial : BalanceObserver := ⟨.initial, none, none, 0, []⟩

section
variable (supportedTokens : List SupportedToken) (observer : BalanceObserver)

/-- `checkBalance` up to its `await`. -/
def tick : Option BalanceCheck :=
  match observer.contractAddress with
  | none | some [] => none
  | some address => some ⟨address, findTokenWithRequiredBalance supportedTokens address⟩

/-- Another subscription is rejected with `ConcurrentDeployment`. -/
def startAndSubscribe (address : JsString) : BalanceObserver :=
  if observer.isRunning then observer
  else
    let subscribed : BalanceObserver := { observer with
      contractAddress := some address
      callback := some observer.subscriptions
      subscriptions := observer.subscriptions + 1
      history := observer.history ++ [.subscribed observer.subscriptions address] }
    { subscribed with toObserverRunner := subscribed.start (subscribed.tick supportedTokens) }

def unsubscribe (callback : Nat) : BalanceObserver where
  toObserverRunner := observer.stop
  contractAddress := none
  callback := observer.callback
  subscriptions := observer.subscriptions
  history := observer.history ++ [.unsubscribed callback]

/-- The answer is read, or the search ends with an error. -/
def answer (i : Nat) (address : JsString) (q : BalanceQuery)
    (next : Except String Uint256 → BalancePromise (Option JsString)) (r : Except String Uint256) :
    BalanceObserver where
  __ := observer
  chains := observer.chains.set i (.ticking (some ⟨address, next r⟩))
  history := observer.history ++ match r with
    | .ok balance => [.read q balance]
    | .error _ => []

def onBalanceChanged (callback : Nat) (token : JsString) : BalanceObserver where
  toObserverRunner := observer.stop
  contractAddress := none
  callback := observer.callback
  subscriptions := observer.subscriptions
  history := observer.history ++ [.called callback observer.contractAddress (some token)]

/-- `checkBalance` after its `await`, and `loop` after it. -/
def settle (i : Nat) : Option BalanceCheck → Option BalanceObserver
  | none => some { observer with toObserverRunner := observer.loopTicked i }
  | some ⟨_, .await _ _⟩ => none
  | some ⟨_, .done (.error _)⟩ => some { observer with toObserverRunner := observer.loopRejected i }
  | some ⟨_, .done (.ok token)⟩ =>
    match token, observer.callback with
    | none, _ | some [], _ => some { observer with toObserverRunner := observer.loopTicked i }
    | some _, none => some { observer with toObserverRunner := observer.loopRejected i }
    | some token, some callback =>
      let called := observer.onBalanceChanged callback token
      some { called with toObserverRunner := called.loopTicked i }

def step : Action → Option BalanceObserver
  | .startAndSubscribe address => some (observer.startAndSubscribe supportedTokens address)
  | .unsubscribe callback =>
    if callback < observer.subscriptions then some (observer.unsubscribe callback) else none
  | .answer i r =>
    match observer.tickAt i with
    | some (some ⟨address, .await q next⟩) => some (observer.answer i address q next r)
    | _ => none
  | .settle i => (observer.tickAt i).bind (observer.settle i)
  | .timeout i =>
    if observer.waitsAt i then
      some { observer with toObserverRunner := observer.loop i (observer.tick supportedTokens) }
    else none

end

/-! ## Checks -/

/-- A balance of the address was read that is enough of a supported token. -/
def Enough (supportedTokens : List SupportedToken) (history : List SubscriptionEvent)
    (address : JsString) (token : Option JsString) : Prop :=
  ∃ t ∈ supportedTokens, token = some t.address ∧ ∃ balance amount,
    .read (t.query address) balance ∈ history ∧
    bigNumberify (.string t.minimalAmount) = .ok amount ∧ amount ≤ balance.toNat

/-- A check goes through the rest of the tokens, has found one, or has failed. -/
inductive Checks (supportedTokens : List SupportedToken) (history : List SubscriptionEvent) :
    BalanceCheck → Prop
  | rest (h : tokens <:+ supportedTokens) :
    Checks supportedTokens history ⟨address, findTokenWithRequiredBalance tokens address⟩
  | found (h : Enough supportedTokens history address (some token)) :
    Checks supportedTokens history ⟨address, .done (.ok (some token))⟩
  | failed : Checks supportedTokens history ⟨address, .done (.error e)⟩

variable {supportedTokens : List SupportedToken} {history : List SubscriptionEvent}

theorem Enough.mono (h : Enough supportedTokens history address token)
    (more : List SubscriptionEvent) : Enough supportedTokens (history ++ more) address token := by
  obtain ⟨t, ht, htoken, balance, amount, hread, henough⟩ := h
  exact ⟨t, ht, htoken, balance, amount, List.mem_append_left _ hread, henough⟩

theorem Checks.mono {check : BalanceCheck} (h : Checks supportedTokens history check)
    (more : List SubscriptionEvent) : Checks supportedTokens (history ++ more) check := by
  cases h with
  | rest h => exact .rest h
  | found h => exact .found (h.mono more)
  | failed => exact .failed

/-- The search asks for the balance of the first token, and then for the next one. -/
theorem findTokenWithRequiredBalance_cons (token : SupportedToken) (tokens : List SupportedToken)
    (address : JsString) : findTokenWithRequiredBalance (token :: tokens) address =
      .await (token.query address) fun
        | .error e => .done (.error e)
        | .ok balance =>
          match bigNumberify (.string token.minimalAmount) with
          | .error e => .done (.error e)
          | .ok amount =>
            if amount ≤ balance.toNat then .done (.ok (some token.address))
            else findTokenWithRequiredBalance tokens address := by
  rw [findTokenWithRequiredBalance, SupportedToken.getBalance_eq]
  change await _ _ = await _ _
  congr 1
  funext r
  cases r with
  | error e => rfl
  | ok balance =>
    cases bigNumberify (.string token.minimalAmount) with
    | error e => rfl
    | ok amount =>
      change (if _ then _ else _) = _
      rfl

/-- A check with an answer is still one of the three. -/
theorem Checks.answer
    (h : Checks supportedTokens history ⟨address, .await q next⟩) (r : Except String Uint256) :
    Checks supportedTokens (history ++ match r with
      | .ok balance => [.read q balance]
      | .error _ => []) ⟨address, next r⟩ := by
  generalize hcheck : (⟨address, .await q next⟩ : BalanceCheck) = check at h
  cases h with
  | found | failed => cases hcheck
  | @rest tokens _ hsuffix =>
    cases tokens with
    | nil => cases hcheck
    | cons token tokens =>
      rw [findTokenWithRequiredBalance_cons] at hcheck
      cases hcheck
      cases r with
      | error e => exact .failed
      | ok balance =>
        cases hamount : bigNumberify (.string token.minimalAmount) with
        | error e => exact .failed
        | ok amount =>
          simp only
          split
          · next hle =>
            exact .found ⟨token, hsuffix.subset List.mem_cons_self, rfl, balance, amount, by simp,
              hamount, hle⟩
          · exact .rest ((List.suffix_cons token tokens).trans hsuffix)

/-- What a check has found is enough. -/
theorem Checks.enough
    (h : Checks supportedTokens history ⟨address, .done (.ok (some token))⟩) :
    Enough supportedTokens history address (some token) := by
  generalize hcheck : (⟨address, .done (.ok (some token))⟩ : BalanceCheck) = check at h
  cases h with
  | failed => cases hcheck
  | found h =>
    cases hcheck
    exact h
  | @rest tokens =>
    cases tokens with
    | nil => cases hcheck
    | cons token tokens =>
      rw [findTokenWithRequiredBalance_cons] at hcheck
      cases hcheck

/-! ## What holds in every run -/

/-- While there is an address, it is the one of the last subscription, which is its own. -/
structure Consistent (supportedTokens : List SupportedToken) (observer : BalanceObserver) :
    Prop where
  numbered : NumberedBelow observer.history observer.subscriptions
  lt : ∀ callback, observer.callback = some callback → callback < observer.subscriptions
  own : ∀ address, observer.contractAddress = some address →
    ∃ callback, observer.callback = some callback ∧ Own observer.history callback address
  checks : ∀ check, .ticking (some check) ∈ observer.chains →
    observer.callback.isSome ∧ Checks supportedTokens observer.history check

variable {observer observer' : BalanceObserver}

theorem consistent_initial : initial.Consistent supportedTokens where
  numbered _ h := by cases h
  lt _ h := by cases h
  own _ h := by cases h
  checks _ h := by cases h

theorem checks_tick (h : observer.tick supportedTokens = some check) :
    observer.contractAddress.isSome ∧ Checks supportedTokens history check := by
  rw [tick] at h
  split at h
  · cases h
  · cases h
  · next haddress =>
    cases h
    rw [haddress]
    exact ⟨rfl, .rest List.suffix_rfl⟩

namespace Consistent

theorem startAndSubscribe (h : observer.Consistent supportedTokens) (address : JsString) :
    (observer.startAndSubscribe supportedTokens address).Consistent supportedTokens := by
  rw [BalanceObserver.startAndSubscribe]
  split
  · exact h
  · refine ⟨h.numbered.concat (Nat.le_succ _) ?_, ?_, ?_, ?_⟩
    · rintro _ ⟨⟩
      exact Nat.lt_succ_self _
    · rintro _ ⟨⟩
      exact Nat.lt_succ_self _
    · rintro _ ⟨⟩
      exact ⟨_, rfl, h.numbered.own address⟩
    · intro check hcheck
      rcases ObserverRunner.ticking_start hcheck with htick | hold
      · exact ⟨rfl, (checks_tick htick.symm).2⟩
      · exact ⟨rfl, (h.checks check hold).2.mono _⟩

theorem unsubscribe {callback : Nat} (h : observer.Consistent supportedTokens)
    (hlt : callback < observer.subscriptions) :
    (observer.unsubscribe callback).Consistent supportedTokens where
  numbered := h.numbered.concat le_rfl (by rintro _ ⟨⟩; exact hlt)
  lt := h.lt
  own _ haddress := by cases haddress
  checks check hcheck := (h.checks check hcheck).imp id (·.mono _)

theorem answer (h : observer.Consistent supportedTokens)
    (htick : observer.tickAt i = some (some ⟨address, .await q next⟩)) (r : Except String Uint256) :
    (observer.answer i address q next r).Consistent supportedTokens := by
  obtain ⟨hsome, hcheck⟩ := h.checks _ (ObserverRunner.tickAt_mem htick)
  refine ⟨?_, h.lt, fun a ha => ?_, fun check hmem => ?_⟩
  · cases r with
    | error e => simpa [BalanceObserver.answer] using h.numbered
    | ok balance => exact h.numbered.concat le_rfl (by rintro _ ⟨⟩)
  · obtain ⟨callback, hcallback, hown⟩ := h.own a ha
    refine ⟨callback, hcallback, ?_⟩
    cases r with
    | error e => simpa [BalanceObserver.answer] using hown
    | ok balance => exact hown.concat (by rintro _ ⟨⟩)
  · rcases List.mem_or_eq_of_mem_set hmem with hold | hnew
    · exact (h.checks check hold).imp id (·.mono _)
    · cases hnew
      exact ⟨hsome, hcheck.answer r⟩

/-- A runner with no new ticks. -/
theorem runner {runner : ObserverRunner (Option BalanceCheck)}
    (h : observer.Consistent supportedTokens)
    (hticks : ∀ tick, .ticking tick ∈ runner.chains → .ticking tick ∈ observer.chains) :
    Consistent supportedTokens { observer with toObserverRunner := runner } :=
  ⟨h.numbered, h.lt, h.own, fun check hcheck => h.checks check (hticks _ hcheck)⟩

theorem onBalanceChanged {callback : Nat} (h : observer.Consistent supportedTokens)
    (hcallback : observer.callback = some callback) :
    (observer.onBalanceChanged callback token).Consistent supportedTokens where
  numbered := h.numbered.concat le_rfl (by rintro _ ⟨⟩; exact h.lt _ hcallback)
  lt := h.lt
  own _ haddress := by cases haddress
  checks check hcheck := (h.checks check hcheck).imp id (·.mono _)

theorem settle {tick : Option BalanceCheck} (h : observer.Consistent supportedTokens)
    (hsettle : observer.settle i tick = some observer') : observer'.Consistent supportedTokens := by
  have hticked : ∀ tick, .ticking tick ∈ (observer.loopTicked i).chains →
      .ticking tick ∈ observer.chains := fun _ => ObserverRunner.ticking_loopTicked
  have hrejected : ∀ tick, .ticking tick ∈ (observer.loopRejected i).chains →
      .ticking tick ∈ observer.chains := fun _ => ObserverRunner.ticking_loopRejected
  rw [BalanceObserver.settle.eq_def] at hsettle
  split at hsettle
  · cases hsettle
    exact h.runner hticked
  · cases hsettle
  · cases hsettle
    exact h.runner hrejected
  · split at hsettle
    · cases hsettle
      exact h.runner hticked
    · cases hsettle
      exact h.runner hticked
    · cases hsettle
      exact h.runner hrejected
    · next hcallback =>
      cases hsettle
      exact (h.onBalanceChanged hcallback).runner fun _ => ObserverRunner.ticking_loopTicked

theorem step (h : observer.Consistent supportedTokens)
    (hstep : step supportedTokens observer a = some observer') :
    observer'.Consistent supportedTokens := by
  cases a with
  | startAndSubscribe address =>
    cases hstep
    exact h.startAndSubscribe address
  | unsubscribe callback =>
    obtain ⟨hlt, hstep⟩ := Option.ite_none_right_eq_some.mp hstep
    cases hstep
    exact h.unsubscribe hlt
  | answer i r =>
    simp only [BalanceObserver.step] at hstep
    split at hstep
    · next htick =>
      cases hstep
      exact h.answer htick r
    · cases hstep
  | settle i =>
    obtain ⟨tick, _, hsettle⟩ := Option.bind_eq_some_iff.mp hstep
    exact h.settle hsettle
  | timeout i =>
    obtain ⟨_, hstep⟩ := Option.ite_none_right_eq_some.mp hstep
    cases hstep
    refine ⟨h.numbered, h.lt, h.own, fun check hcheck => ?_⟩
    rcases ObserverRunner.ticking_loop hcheck with htick | hold
    · obtain ⟨hsome, hchecks⟩ := checks_tick htick.symm
      obtain ⟨address, haddress⟩ := Option.isSome_iff_exists.mp hsome
      obtain ⟨callback, hcallback, _⟩ := h.own address haddress
      exact ⟨Option.isSome_of_eq_some hcallback, hchecks⟩
    · exact h.checks check hold

end Consistent

/-! ## The callbacks -/

/-- A callback belongs to its subscription, and the token is one of which enough was read at its
address. -/
def Belongs (supportedTokens : List SupportedToken) (observer : BalanceObserver) : Prop :=
  Belong (Enough supportedTokens) observer.history

/-- A check that has found a token ends with an address, and it is the one that was checked, or one
where the token had been found before. -/
def Current (supportedTokens : List SupportedToken) (observer : BalanceObserver) : Action → Prop
  | .settle i => ∀ checked token,
    observer.tickAt i = some (some ⟨checked, .done (.ok (some token))⟩) →
    token ≠ [] → ∃ address, observer.contractAddress = some address ∧
      (address = checked ∨ Enough supportedTokens observer.history address (some token))
  | _ => True

theorem belong_onBalanceChanged_iff (h : observer.Consistent supportedTokens)
    (hbelongs : observer.Belongs supportedTokens) (hcallback : observer.callback = some n)
    (henough : Enough supportedTokens observer.history checked (some token)) :
    (observer.onBalanceChanged n token).Belongs supportedTokens ↔
      ∃ address, observer.contractAddress = some address ∧
        (address = checked ∨ Enough supportedTokens observer.history address (some token)) := by
  rw [Belongs, onBalanceChanged, belong_concat_called]
  constructor
  · rintro ⟨_, address, haddress, _, htoken⟩
    exact ⟨address, haddress, .inr htoken⟩
  · rintro ⟨address, haddress, hfound⟩
    obtain ⟨callback, hcallback', hown⟩ := h.own address haddress
    cases hcallback.symm.trans hcallback'
    refine ⟨hbelongs, address, haddress, hown, ?_⟩
    rcases hfound with rfl | hfound
    · exact henough
    · exact hfound

/-- A tick that goes on calls nobody, unless it has found a token. -/
theorem settle_history {tick : Option BalanceCheck}
    (hsettle : observer.settle i tick = some observer')
    (h : ∀ checked token, tick = some ⟨checked, .done (.ok (some token))⟩ → token = []) :
    observer'.history = observer.history := by
  rw [settle.eq_def] at hsettle
  split at hsettle
  · cases hsettle
    rfl
  · cases hsettle
  · cases hsettle
    rfl
  · split at hsettle
    · cases hsettle
      rfl
    · cases hsettle
      rfl
    · cases hsettle
      rfl
    · next htoken _ =>
      exact absurd (h _ _ rfl) htoken

theorem settle_found (checked : JsString) (htoken : token ≠ [])
    (hcallback : observer.callback = some n) :
    observer.settle i (some ⟨checked, .done (.ok (some token))⟩) =
      some { observer.onBalanceChanged n token with
        toObserverRunner := (observer.onBalanceChanged n token).loopTicked i } := by
  cases token with
  | nil => contradiction
  | cons c token => simp only [settle, hcallback]

theorem settle_exact (h : observer.Consistent supportedTokens)
    (hbelongs : observer.Belongs supportedTokens) (i : Nat) :
    (∀ observer', step supportedTokens observer (.settle i) = some observer' →
      observer'.Belongs supportedTokens) ↔ observer.Current supportedTokens (.settle i) := by
  by_cases hfound : ∃ checked token,
      observer.tickAt i = some (some ⟨checked, .done (.ok (some token))⟩) ∧ token ≠ []
  · obtain ⟨checked, token, htick, htoken⟩ := hfound
    obtain ⟨hsome, hcheck⟩ := h.checks _ (ObserverRunner.tickAt_mem htick)
    obtain ⟨n, hcallback⟩ := Option.isSome_iff_exists.mp hsome
    have hcalled := belong_onBalanceChanged_iff h hbelongs hcallback hcheck.enough
    have hstep : step supportedTokens observer (.settle i) =
        some { observer.onBalanceChanged n token with
          toObserverRunner := (observer.onBalanceChanged n token).loopTicked i } := by
      rw [step, htick]
      exact settle_found checked htoken hcallback
    rw [hstep]
    constructor
    · intro hkeep checked' token' htick' _
      cases htick.symm.trans htick'
      have hbelongs' := hkeep _ rfl
      exact hcalled.mp hbelongs'
    · rintro hcurrent _ ⟨⟩
      exact hcalled.mpr (hcurrent checked token htick htoken)
  · refine iff_of_true (fun observer' hstep => ?_) fun checked token htick htoken =>
      absurd ⟨checked, token, htick, htoken⟩ hfound
    obtain ⟨tick, htick, hsettle⟩ := Option.bind_eq_some_iff.mp hstep
    rw [Belongs, settle_history hsettle]
    · exact hbelongs
    · rintro checked token rfl
      by_contra htoken
      exact hfound ⟨checked, token, htick, htoken⟩

theorem step_exact (h : observer.Consistent supportedTokens)
    (hbelongs : observer.Belongs supportedTokens) (a : Action) :
    (∀ observer', step supportedTokens observer a = some observer' →
      observer'.Belongs supportedTokens) ↔ observer.Current supportedTokens a := by
  cases a with
  | settle i => exact settle_exact h hbelongs i
  | startAndSubscribe address =>
    refine iff_of_true ?_ trivial
    rintro _ ⟨⟩
    rw [startAndSubscribe]
    split
    · exact hbelongs
    · exact (belong_concat_of_ne (by simp)).mpr hbelongs
  | unsubscribe callback =>
    refine iff_of_true ?_ trivial
    intro observer' hstep
    obtain ⟨_, hstep⟩ := Option.ite_none_right_eq_some.mp hstep
    cases hstep
    exact (belong_concat_of_ne (by simp)).mpr hbelongs
  | answer i r =>
    refine iff_of_true ?_ trivial
    intro observer' hstep
    simp only [step] at hstep
    split at hstep
    · cases hstep
      cases r with
      | error e => simpa [Belongs, answer] using hbelongs
      | ok balance => exact (belong_concat_of_ne (by simp)).mpr hbelongs
    · cases hstep
  | timeout i =>
    refine iff_of_true ?_ trivial
    intro observer' hstep
    obtain ⟨_, hstep⟩ := Option.ite_none_right_eq_some.mp hstep
    cases hstep
    exact hbelongs

theorem belongs_initial : initial.Belongs supportedTokens := eachAfter_nil

/-- The callbacks belong to their subscriptions all along a run exactly if each check that has found
a token ends with the address that it has checked. -/
theorem belongs_iff (supportedTokens : List SupportedToken) (trace : List Action) :
    Always (step supportedTokens) (Belongs supportedTokens) initial trace ↔
      Guarded (step supportedTokens) (Current supportedTokens) initial trace :=
  always_iff_guarded (I := Consistent supportedTokens) (fun _ _ _ h hstep => h.step hstep)
    (fun _ a h hbelongs => step_exact h hbelongs a) consistent_initial belongs_initial

end BalanceObserver

end UniversalLogin
