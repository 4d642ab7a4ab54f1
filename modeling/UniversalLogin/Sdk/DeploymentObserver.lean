import UniversalLogin.Sdk.BalanceObserver

/-!
# DeploymentObserver

The observer that waits for a contract (`DeploymentObserver.ts`). A check keeps the address it has
started with, but it ends with the callback of the last subscription, whose address may be another
one, and which may have been taken back or called. The callbacks belong to their subscriptions
exactly if a check that finds a contract always ends with the subscription to its address
(`DeploymentObserver.belongs_iff`).
-/

namespace UniversalLogin

open History Transition

inductive DeploymentTick
  /-- `checkContract` waits for the code. -/
  | fetching (futureContractAddress : Option JsString)
  /-- It waits for the callback. -/
  | calling
  deriving DecidableEq

structure DeploymentObserver extends ObserverRunner DeploymentTick where
  futureContractAddress : Option JsString
  onContractDeployed : Option Nat
  /-- How many subscriptions there were. Their callbacks are numbered. -/
  subscriptions : Nat
  history : List SubscriptionEvent

namespace DeploymentObserver

inductive Action
  | startAndSubscribe (address : JsString)
  /-- To call what `startAndSubscribe` has returned. -/
  | unsubscribe (callback : Nat)
  /-- The provider answers what a check waits for. -/
  | answer (i : Nat) (bytecode : Except String Bytes)
  /-- The callback that a check waits for is resolved, or rejected. -/
  | returned (i : Nat) (resolved : Bool)
  | timeout (i : Nat)

def initial : DeploymentObserver := ⟨.initial, none, none, 0, []⟩

section
variable (crypto : Crypto) (proxy : List Bytes32) (observer : DeploymentObserver)

/-- Another subscription is an error (`ConcurrentDeployment`). -/
def startAndSubscribe (address : JsString) : DeploymentObserver :=
  if observer.isRunning then observer
  else
    { observer with
      toObserverRunner := observer.start (.fetching (some address))
      futureContractAddress := some address
      onContractDeployed := some observer.subscriptions
      subscriptions := observer.subscriptions + 1
      history := observer.history ++ [.subscribed observer.subscriptions address] }

def unsubscribe (callback : Nat) : DeploymentObserver where
  __ := observer
  toObserverRunner := observer.stop
  history := observer.history ++ [.unsubscribed callback]

/-- The code is of a contract that the observer knows. -/
def IsDeployed (bytecode : Except String Bytes) : Prop :=
  ∃ code, bytecode = .ok code ∧ code ≠ [] ∧ crypto.keccak256 code ∈ proxy

/-- `checkContract` between its `await`s. Code that is not known is an error
(`UnsupportedBytecode`). -/
def checkContract (i : Nat) (futureContractAddress : Option JsString) :
    Except String Bytes → DeploymentObserver
  | .error _ => { observer with toObserverRunner := observer.loopRejected i }
  | .ok code =>
    if code = [] then { observer with toObserverRunner := observer.loopTicked i }
    else if !proxy.contains (crypto.keccak256 code) then
      { observer with toObserverRunner := observer.loopRejected i }
    else
      match observer.onContractDeployed with
      | none => { observer with toObserverRunner := observer.loopRejected i }
      | some callback =>
        { observer with
          chains := observer.chains.set i (.ticking .calling)
          history := observer.history ++ [.called callback futureContractAddress none] }

def step : Action → Option DeploymentObserver
  | .startAndSubscribe address => some (observer.startAndSubscribe address)
  | .unsubscribe callback =>
    if callback < observer.subscriptions then some (observer.unsubscribe callback) else none
  | .answer i bytecode =>
    match observer.tickAt i with
    | some (.fetching address) => some (checkContract crypto proxy observer i address bytecode)
    | _ => none
  | .returned i resolved =>
    if observer.tickAt i = some .calling then
      if resolved then some { observer with toObserverRunner := observer.stop.loopTicked i }
      else some { observer with toObserverRunner := observer.loopRejected i }
    else none
  | .timeout i =>
    if observer.waitsAt i then
      some { observer with
        toObserverRunner := observer.loop i (.fetching observer.futureContractAddress) }
    else none

end

variable {crypto : Crypto} {proxy : List Bytes32} {observer observer' : DeploymentObserver}

/-! ## What holds in every run -/

/-- The callback is that of the last subscription, which waits as long as it is its own. -/
structure Consistent (observer : DeploymentObserver) : Prop where
  numbered : NumberedBelow observer.history observer.subscriptions
  lt : ∀ callback, observer.onContractDeployed = some callback →
    callback < observer.subscriptions
  started : observer.chains ≠ [] → observer.onContractDeployed.isSome
  waits : ∀ callback address, (callback, address) ∈ waiting observer.history ↔
    observer.onContractDeployed = some callback ∧ Own observer.history callback address

theorem consistent_initial : initial.Consistent where
  numbered _ h := by cases h
  lt _ h := by cases h
  started h := absurd rfl h
  waits callback address := by simp [initial, waiting, remaining]

namespace Consistent

/-- A runner whose chains are old ones. -/
theorem runner {runner : ObserverRunner DeploymentTick} (h : observer.Consistent)
    (hchains : runner.chains ≠ [] → observer.chains ≠ []) :
    Consistent { observer with toObserverRunner := runner } :=
  ⟨h.numbered, h.lt, fun hne => h.started (hchains hne), h.waits⟩

theorem startAndSubscribe (h : observer.Consistent) (address : JsString) :
    (observer.startAndSubscribe address).Consistent := by
  rw [DeploymentObserver.startAndSubscribe]
  split
  · exact h
  refine ⟨h.numbered.concat (Nat.le_succ _) ?_, ?_, fun _ => rfl, fun callback address' => ?_⟩
  · rintro _ ⟨⟩
    exact Nat.lt_succ_self _
  · rintro _ ⟨⟩
    exact Nat.lt_succ_self _
  · rw [waiting_subscribed, List.mem_singleton, Prod.mk.injEq]
    have hown := h.numbered.own address
    constructor
    · rintro ⟨rfl, rfl⟩
      exact ⟨rfl, hown⟩
    · rintro ⟨⟨⟩, hown'⟩
      refine ⟨rfl, ?_⟩
      rcases List.mem_append.mp hown'.subscribed with hold | hnew
      · exact absurd (h.numbered _ hold _ rfl) (lt_irrefl _)
      · cases List.mem_singleton.mp hnew
        rfl

/-- An event of a subscription that is not a new one. -/
theorem concat (h : observer.Consistent)
    (hevent : ∀ callback address, event ≠ .subscribed callback address)
    (hlt : ∀ callback ∈ event.callback?, callback < observer.subscriptions) :
    Consistent { observer with history := observer.history ++ [event] } where
  numbered := h.numbered.concat le_rfl hlt
  lt := h.lt
  started := h.started
  waits callback address := by
    rw [mem_waiting_concat hevent, h.waits, own_concat_iff hevent, and_assoc]

theorem checkContract (h : observer.Consistent) (i : Nat) (address : Option JsString)
    (bytecode : Except String Bytes) (hchains : observer.chains ≠ []) :
    (checkContract crypto proxy observer i address bytecode).Consistent := by
  rw [DeploymentObserver.checkContract.eq_def]
  split
  · exact h.runner fun _ => hchains
  split
  · exact h.runner fun _ => hchains
  split
  · exact h.runner fun _ => hchains
  split
  · exact h.runner fun _ => hchains
  · next callback hcallback =>
    have hcalled : Consistent { observer with
        history := observer.history ++ [.called callback address none] } :=
      h.concat (by simp) (by rintro _ ⟨⟩; exact h.lt _ hcallback)
    exact ⟨hcalled.numbered, hcalled.lt, fun _ => hcalled.started hchains, hcalled.waits⟩

theorem step (h : observer.Consistent) (hstep : step crypto proxy observer a = some observer') :
    observer'.Consistent := by
  cases a with
  | startAndSubscribe address =>
    cases hstep
    exact h.startAndSubscribe address
  | unsubscribe callback =>
    obtain ⟨hlt, hstep⟩ := Option.ite_none_right_eq_some.mp hstep
    cases hstep
    exact (h.concat (by simp) (by rintro _ ⟨⟩; exact hlt)).runner id
  | answer i bytecode =>
    simp only [DeploymentObserver.step] at hstep
    split at hstep
    · next htick =>
      cases hstep
      exact h.checkContract i _ bytecode (List.ne_nil_of_mem (ObserverRunner.tickAt_mem htick))
    · cases hstep
  | returned i resolved =>
    obtain ⟨htick, hstep⟩ := Option.ite_none_right_eq_some.mp hstep
    have hchains := List.ne_nil_of_mem (ObserverRunner.tickAt_mem htick)
    split at hstep <;> cases hstep <;> exact h.runner fun _ => hchains
  | timeout i =>
    obtain ⟨hwaits, hstep⟩ := Option.ite_none_right_eq_some.mp hstep
    cases hstep
    refine h.runner fun _ hnil => ?_
    simp [ObserverRunner.waitsAt, hnil] at hwaits

end Consistent

/-! ## The callbacks -/

/-- A callback belongs to its subscription. -/
def Belongs (observer : DeploymentObserver) : Prop :=
  Belong (fun _ _ _ => True) observer.history

/-- A check that has found a contract ends while the last subscription waits, and it is one to the
address of the check. -/
def Current (crypto : Crypto) (proxy : List Bytes32) (observer : DeploymentObserver) :
    Action → Prop
  | .answer i bytecode => ∀ futureContractAddress,
    observer.tickAt i = some (.fetching futureContractAddress) → IsDeployed crypto proxy bytecode →
    ∃ callback address, futureContractAddress = some address ∧
      (callback, address) ∈ waiting observer.history
  | _ => True

theorem checkContract_deployed (hdeployed : IsDeployed crypto proxy bytecode)
    (hcallback : observer.onContractDeployed = some callback) (i : Nat)
    (address : Option JsString) :
    (checkContract crypto proxy observer i address bytecode).history =
      observer.history ++ [.called callback address none] := by
  obtain ⟨code, rfl, hcode, hproxy⟩ := hdeployed
  have hcontains : proxy.contains (crypto.keccak256 code) = true := List.contains_iff_mem.mpr hproxy
  simp only [checkContract, hcode, hcontains, hcallback, if_false, Bool.not_true, Bool.false_eq_true]

/-- Otherwise nobody is called. -/
theorem checkContract_history (h : ¬ IsDeployed crypto proxy bytecode) (i : Nat)
    (address : Option JsString) :
    (checkContract crypto proxy observer i address bytecode).history = observer.history := by
  cases bytecode with
  | error e => rfl
  | ok code =>
    rw [checkContract]
    split
    · rfl
    split
    · rfl
    · next hcode hproxy =>
      have hmem : crypto.keccak256 code ∈ proxy := by simpa using hproxy
      exact absurd ⟨code, rfl, hcode, hmem⟩ h

theorem answer_exact (h : observer.Consistent) (hbelongs : observer.Belongs) (i : Nat)
    (bytecode : Except String Bytes) :
    (∀ observer', step crypto proxy observer (.answer i bytecode) = some observer' →
      observer'.Belongs) ↔ observer.Current crypto proxy (.answer i bytecode) := by
  by_cases htick : ∃ address, observer.tickAt i = some (.fetching address)
  · obtain ⟨address, htick⟩ := htick
    have hstep : step crypto proxy observer (.answer i bytecode) =
        some (checkContract crypto proxy observer i address bytecode) := by
      rw [step, htick]
    simp only [hstep, Option.some.injEq, forall_eq']
    by_cases hdeployed : IsDeployed crypto proxy bytecode
    · obtain ⟨callback, hcallback⟩ := Option.isSome_iff_exists.mp
        (h.started (List.ne_nil_of_mem (ObserverRunner.tickAt_mem htick)))
      rw [Belongs, checkContract_deployed hdeployed hcallback, belong_concat_called]
      constructor
      · rintro ⟨_, a, haddress, hown, _⟩ address' htick' _
        cases htick.symm.trans htick'
        exact ⟨callback, a, haddress, (h.waits callback a).mpr ⟨hcallback, hown⟩⟩
      · intro hcurrent
        obtain ⟨callback', a, haddress, hwaiting⟩ := hcurrent address htick hdeployed
        obtain ⟨hcallback', hown⟩ := (h.waits callback' a).mp hwaiting
        cases hcallback.symm.trans hcallback'
        exact ⟨hbelongs, a, haddress, hown, trivial⟩
    · refine iff_of_true ?_ fun _ _ hdeployed' => absurd hdeployed' hdeployed
      rw [Belongs, checkContract_history hdeployed]
      exact hbelongs
  · refine iff_of_true (fun observer' hstep => ?_) fun address htick' =>
      absurd ⟨address, htick'⟩ htick
    simp only [step] at hstep
    split at hstep
    · next address htick' => exact absurd ⟨address, htick'⟩ htick
    · cases hstep

theorem step_exact (h : observer.Consistent) (hbelongs : observer.Belongs) (a : Action) :
    (∀ observer', step crypto proxy observer a = some observer' → observer'.Belongs) ↔
      observer.Current crypto proxy a := by
  cases a with
  | answer i bytecode => exact answer_exact h hbelongs i bytecode
  | startAndSubscribe address =>
    refine iff_of_true ?_ trivial
    rintro _ ⟨⟩
    rw [startAndSubscribe]
    split
    · exact hbelongs
    · exact (belong_concat_of_ne (by simp)).mpr hbelongs
  | unsubscribe callback =>
    refine iff_of_true ?_ trivial
    intro observer' hstep
    obtain ⟨_, hstep⟩ := Option.ite_none_right_eq_some.mp hstep
    cases hstep
    exact (belong_concat_of_ne (by simp)).mpr hbelongs
  | returned i resolved =>
    refine iff_of_true ?_ trivial
    intro observer' hstep
    obtain ⟨_, hstep⟩ := Option.ite_none_right_eq_some.mp hstep
    split at hstep <;> cases hstep <;> exact hbelongs
  | timeout i =>
    refine iff_of_true ?_ trivial
    intro observer' hstep
    obtain ⟨_, hstep⟩ := Option.ite_none_right_eq_some.mp hstep
    cases hstep
    exact hbelongs

theorem belongs_initial : initial.Belongs := eachAfter_nil

/-- The callbacks belong to their subscriptions all along a run exactly if each check that has found
a contract ends while a subscription to its address waits. -/
theorem belongs_iff (crypto : Crypto) (proxy : List Bytes32) (trace : List Action) :
    Always (step crypto proxy) Belongs initial trace ↔
      Guarded (step crypto proxy) (Current crypto proxy) initial trace :=
  always_iff_guarded (I := Consistent) (fun _ _ _ h hstep => h.step hstep)
    (fun _ a h hbelongs => step_exact h hbelongs a) consistent_initial belongs_initial

end DeploymentObserver

/-! ## Both observers -/

/-- The callbacks of the two observers belong to their subscriptions exactly in the runs where the
checks end with the subscriptions that they have started with. -/
theorem callbacks_belong_iff (supportedTokens : List SupportedToken)
    (balanceTrace : List BalanceObserver.Action) (crypto : Crypto) (proxy : List Bytes32)
    (deploymentTrace : List DeploymentObserver.Action) :
    (Always (BalanceObserver.step supportedTokens) (BalanceObserver.Belongs supportedTokens)
        BalanceObserver.initial balanceTrace ↔
      Guarded (BalanceObserver.step supportedTokens) (BalanceObserver.Current supportedTokens)
        BalanceObserver.initial balanceTrace) ∧
    (Always (DeploymentObserver.step crypto proxy) DeploymentObserver.Belongs
        DeploymentObserver.initial deploymentTrace ↔
      Guarded (DeploymentObserver.step crypto proxy) (DeploymentObserver.Current crypto proxy)
        DeploymentObserver.initial deploymentTrace) :=
  ⟨BalanceObserver.belongs_iff supportedTokens balanceTrace,
    DeploymentObserver.belongs_iff crypto proxy deploymentTrace⟩

namespace Sample

/-- One wei of ether is enough. -/
def oneWei : List SupportedToken := [⟨etherNativeToken, ['1']⟩]

end Sample

/-- A balance that is read for a subscription that has been taken back calls its callback, and code
that is read for it calls the callback of the next subscription. -/
theorem callbacks_not_belong :
    ¬ Always (BalanceObserver.step Sample.oneWei) (BalanceObserver.Belongs Sample.oneWei)
      BalanceObserver.initial
      [.startAndSubscribe ['a'], .unsubscribe 0, .answer 0 (.ok 1), .settle 0] ∧
    ¬ Always (DeploymentObserver.step Sample.crypto [Sample.codeHash]) DeploymentObserver.Belongs
      DeploymentObserver.initial
      [.startAndSubscribe ['a'], .unsubscribe 0, .startAndSubscribe ['b'],
        .answer 0 (.ok [1])] := by
  constructor
  · intro h
    obtain ⟨_, _, haddress, _⟩ := belong_concat_called.mp (h.run rfl)
    cases haddress
  · intro h
    obtain ⟨_, _, haddress, hown, _⟩ := belong_concat_called.mp (h.run rfl)
    cases haddress
    have hmem : SubscriptionEvent.subscribed 1 ['a'] ∈
        [.subscribed 0 ['a'], .unsubscribed 0, .subscribed 1 ['b']] := hown.subscribed
    simp at hmem

end UniversalLogin
