import UniversalLogin.Lib.Transition

/-!
# ObserverRunner

The loop that the observers of the client inherit (`ObserverRunner.ts`). A chain is what one call of
`start` has set off: it is in a tick, or it waits for the timeout that calls `loop` again. What a
tick does is left to the observers; `τ` is what is left to do of one. The flag `state` does not know
of the chains. A runner that is started again while an old chain still waits
has two of them, a tick that is rejected ends the only one while the runner goes on running, and
`finalizeAndStop` waits for a chain that may not be there (`oneChain_iff`).
-/

namespace UniversalLogin

open Transition

inductive ObserverRunnerState
  | stop
  | stopping
  | running
  deriving DecidableEq

inductive LoopChain (τ : Type)
  /-- `tick` has not returned. -/
  | ticking (tick : τ)
  /-- `setTimeout` has not called `loop`. -/
  | waiting
  deriving DecidableEq

structure ObserverRunner (τ : Type) where
  state : ObserverRunnerState
  /-- The chains that are alive. -/
  chains : List (LoopChain τ)
  /-- How many calls of `finalizeAndStop` sleep. -/
  finalizing : Nat
  deriving DecidableEq

namespace ObserverRunner

variable {τ : Type}

def initial : ObserverRunner τ := ⟨.stop, [], 0⟩

inductive Action (τ : Type)
  | start (tick : τ)
  | stop
  | finalizeAndStop
  /-- The tick of a chain is resolved. -/
  | resolve (i : Nat)
  | reject (i : Nat)
  /-- The timeout of a chain calls `loop`. -/
  | timeout (i : Nat) (tick : τ)
  /-- A call of `finalizeAndStop` wakes up. -/
  | wake
  deriving DecidableEq

variable (runner : ObserverRunner τ)

def isRunning : Bool := runner.state ≠ .stop

/-- `start` calls `loop`, which calls `tick`. -/
def start (tick : τ) : ObserverRunner τ :=
  if runner.state = .stop then
    { runner with state := .running, chains := runner.chains ++ [.ticking tick] }
  else runner

def stop : ObserverRunner τ := { runner with state := .stop }

/-- `finalizeAndStop` up to its first `sleep`. -/
def finalizeAndStop : ObserverRunner τ :=
  { runner with state := .stopping, finalizing := runner.finalizing + 1 }

/-- `loop` up to `tick`, in a chain. -/
def loop (i : Nat) (tick : τ) : ObserverRunner τ :=
  if runner.state = .stop then { runner with chains := runner.chains.eraseIdx i }
  else { runner with chains := runner.chains.set i (.ticking tick) }

/-- `loop` after `tick`. -/
def loopTicked (i : Nat) : ObserverRunner τ :=
  if runner.state = .stopping then
    { runner with state := .stop, chains := runner.chains.eraseIdx i }
  else { runner with chains := runner.chains.set i .waiting }

/-- Nobody waits for the first `loop` of a chain, so that an error only ends the chain. -/
def loopRejected (i : Nat) : ObserverRunner τ :=
  { runner with chains := runner.chains.eraseIdx i }

/-- The tick that a chain is in. -/
def tickAt (i : Nat) : Option τ :=
  match runner.chains[i]? with
  | some (.ticking tick) => some tick
  | _ => none

def waitsAt (i : Nat) : Bool :=
  match runner.chains[i]? with
  | some .waiting => true
  | _ => false

def step : Action τ → Option (ObserverRunner τ)
  | .start tick => some (runner.start tick)
  | .stop => some runner.stop
  | .finalizeAndStop => some runner.finalizeAndStop
  | .resolve i => (runner.tickAt i).map fun _ => runner.loopTicked i
  | .reject i => (runner.tickAt i).map fun _ => runner.loopRejected i
  | .timeout i tick => if runner.waitsAt i then some (runner.loop i tick) else none
  | .wake =>
    if runner.finalizing = 0 then none
    else if runner.isRunning then some runner
    else some { runner with finalizing := runner.finalizing - 1 }

/-! ## One chain -/

/-- There is at most one chain, and there is one while the runner says that it is running. -/
structure OneChain : Prop where
  atMostOne : runner.chains.length ≤ 1
  alive : runner.isRunning = true → runner.chains.length = 1

/-- A runner is started without an old chain and finalized with a chain, and a tick is not rejected
before the runner is stopped. -/
def Keeps (runner : ObserverRunner τ) : Action τ → Prop
  | .start _ => runner.state = .stop → runner.chains = []
  | .finalizeAndStop => runner.chains ≠ []
  | .reject i => (runner.tickAt i).isSome → runner.state = .stop
  | _ => True

variable {runner runner' : ObserverRunner τ}

theorem oneChain_initial : (initial : ObserverRunner τ).OneChain :=
  ⟨Nat.zero_le _, fun h => by cases h⟩

theorem oneChain_iff_of_stop (hstop : runner.state = .stop) :
    runner.OneChain ↔ runner.chains.length ≤ 1 :=
  ⟨fun h => h.atMostOne, fun h => ⟨h, fun hrunning => by simp [isRunning, hstop] at hrunning⟩⟩

theorem oneChain_iff_of_ne (hrunning : runner.state ≠ .stop) :
    runner.OneChain ↔ runner.chains.length = 1 :=
  ⟨fun h => h.alive (by simpa [isRunning]), fun h => ⟨Nat.le_of_eq h, fun _ => h⟩⟩

theorem oneChain_start_iff (h : runner.OneChain) (tick : τ) :
    (runner.start tick).OneChain ↔ (runner.state = .stop → runner.chains = []) := by
  rw [start]
  split
  · next hstop =>
    rw [oneChain_iff_of_ne (by simp), List.length_append, List.length_singleton]
    simp [hstop]
  · next hrunning => simp [hrunning, h]

theorem OneChain.stop (h : runner.OneChain) : runner.stop.OneChain := by
  have hstate : runner.stop.state = .stop := rfl
  exact (oneChain_iff_of_stop hstate).mpr h.atMostOne

theorem oneChain_finalizeAndStop_iff (h : runner.OneChain) :
    runner.finalizeAndStop.OneChain ↔ runner.chains ≠ [] := by
  have hle := h.atMostOne
  rw [oneChain_iff_of_ne (by simp [finalizeAndStop])]
  change runner.chains.length = 1 ↔ _
  rw [← List.length_pos_iff]
  omega

/-- A chain that goes on is the same chain, and one that ends leaves the runner stopped. -/
theorem OneChain.set (h : runner.OneChain) (i : Nat) (c : LoopChain τ) :
    OneChain { runner with chains := runner.chains.set i c } :=
  ⟨by simpa using h.atMostOne, fun hrunning => by simpa using h.alive hrunning⟩

theorem OneChain.eraseIdx (h : runner.OneChain) (i : Nat) :
    OneChain { runner with state := .stop, chains := runner.chains.eraseIdx i } := by
  have hle := h.atMostOne
  have herase := List.length_eraseIdx_le runner.chains i
  exact (oneChain_iff_of_stop rfl).mpr (by simp only; omega)

theorem OneChain.loopTicked (h : runner.OneChain) (i : Nat) : (runner.loopTicked i).OneChain := by
  rw [ObserverRunner.loopTicked]
  split
  · exact h.eraseIdx i
  · exact h.set i _

theorem OneChain.loop (h : runner.OneChain) (i : Nat) (tick : τ) :
    (runner.loop i tick).OneChain := by
  rw [ObserverRunner.loop]
  split
  · next hstop =>
    have herase := h.eraseIdx i
    rwa [← hstop] at herase
  · exact h.set i _

theorem tickAt_eq_some {tick : τ} :
    runner.tickAt i = some tick ↔ runner.chains[i]? = some (.ticking tick) := by
  rw [tickAt]
  split <;> simp_all

theorem oneChain_loopRejected_iff (h : runner.OneChain) (htick : runner.tickAt i = some tick) :
    (runner.loopRejected i).OneChain ↔ runner.state = .stop := by
  have hle := h.atMostOne
  obtain ⟨hi, _⟩ := List.getElem?_eq_some_iff.mp (tickAt_eq_some.mp htick)
  have hlen : (runner.chains.eraseIdx i).length = 0 := by
    rw [List.length_eraseIdx_of_lt hi]
    omega
  by_cases hstop : runner.state = .stop
  · have hstate : (runner.loopRejected i).state = .stop := hstop
    exact iff_of_true ((oneChain_iff_of_stop hstate).mpr (by simp [loopRejected, hlen])) hstop
  · have hstate : (runner.loopRejected i).state ≠ .stop := hstop
    refine iff_of_false (fun hone => ?_) hstop
    have hlive := (oneChain_iff_of_ne hstate).mp hone
    simp [loopRejected, hlen] at hlive

/-- A step leads to a runner with one chain exactly if it meets the condition. -/
theorem step_exact (h : runner.OneChain) (a : Action τ) :
    (∀ runner', runner.step a = some runner' → runner'.OneChain) ↔ runner.Keeps a := by
  cases a with
  | start tick => simpa [step, Keeps] using oneChain_start_iff h tick
  | stop => simpa [step, Keeps] using h.stop
  | finalizeAndStop => simpa [step, Keeps] using oneChain_finalizeAndStop_iff h
  | resolve i =>
    simp only [step, Keeps, Option.map_eq_some_iff, iff_true]
    rintro _ ⟨_, _, rfl⟩
    exact h.loopTicked i
  | reject i =>
    simp only [step, Keeps, Option.map_eq_some_iff, Option.isSome_iff_exists]
    constructor
    · rintro hkeep ⟨tick, htick⟩
      exact (oneChain_loopRejected_iff h htick).mp (hkeep _ ⟨tick, htick, rfl⟩)
    · rintro hstop _ ⟨tick, htick, rfl⟩
      exact (oneChain_loopRejected_iff h htick).mpr (hstop ⟨tick, htick⟩)
  | timeout i tick =>
    simp only [step, Keeps, Option.ite_none_right_eq_some, Option.some.injEq, iff_true]
    rintro _ ⟨_, rfl⟩
    exact h.loop i tick
  | wake =>
    simp only [step, Keeps, iff_true]
    intro runner' hstep
    split at hstep
    · cases hstep
    split at hstep <;> cases hstep
    · exact h
    · exact ⟨h.atMostOne, h.alive⟩

/-- There is one chain all along a run exactly if the runner is always started without an old chain
and finalized with a chain, and no tick is rejected before the runner is stopped. -/
theorem oneChain_iff (trace : List (Action τ)) :
    Always step OneChain initial trace ↔ Guarded step Keeps initial trace :=
  always_iff_guarded (I := fun _ => True) (fun _ _ _ _ _ => trivial)
    (fun _ a _ h => step_exact h a) trivial oneChain_initial

/-! ## The ticks that the chains are in -/

theorem tickAt_mem (h : runner.tickAt i = some tick) : .ticking tick ∈ runner.chains :=
  List.mem_of_getElem? (tickAt_eq_some.mp h)

theorem ticking_start (h : .ticking tick' ∈ (runner.start tick).chains) :
    tick' = tick ∨ .ticking tick' ∈ runner.chains := by
  rw [start] at h
  split at h
  · rcases List.mem_append.mp h with h | h
    · exact .inr h
    · cases List.mem_singleton.mp h
      exact .inl rfl
  · exact .inr h

theorem ticking_loop (h : .ticking tick' ∈ (runner.loop i tick).chains) :
    tick' = tick ∨ .ticking tick' ∈ runner.chains := by
  rw [loop] at h
  split at h
  · exact .inr (List.mem_of_mem_eraseIdx h)
  · rcases List.mem_or_eq_of_mem_set h with h | h
    · exact .inr h
    · cases h
      exact .inl rfl

theorem ticking_loopTicked (h : .ticking tick ∈ (runner.loopTicked i).chains) :
    .ticking tick ∈ runner.chains := by
  rw [loopTicked] at h
  split at h
  · exact List.mem_of_mem_eraseIdx h
  · rcases List.mem_or_eq_of_mem_set h with h | h
    · exact h
    · cases h

theorem ticking_loopRejected (h : .ticking tick ∈ (runner.loopRejected i).chains) :
    .ticking tick ∈ runner.chains := List.mem_of_mem_eraseIdx h

/-! ## The end of finalizing -/

/-- The chain that is alive can end what `finalizeAndStop` waits for. -/
theorem OneChain.exists_end (tick : τ) (h : runner.OneChain)
    (hstopping : runner.state = .stopping) :
    ∃ trace runner', Transition.run step runner trace = some runner' ∧ runner'.isRunning = false := by
  obtain ⟨state, chains, finalizing⟩ := runner
  subst hstopping
  obtain ⟨c, rfl⟩ := List.length_eq_one_iff.mp (h.alive rfl)
  cases c with
  | ticking => exact ⟨[.resolve 0], _, rfl, rfl⟩
  | waiting => exact ⟨[.timeout 0 tick, .resolve 0], _, rfl, rfl⟩

/-- Where there is no chain, nothing but `stop` can. -/
theorem stopping_of_no_chain (hstopping : runner.state = .stopping) (hchains : runner.chains = [])
    (hstop : .stop ∉ trace) (hrun : Transition.run step runner trace = some runner') :
    runner'.state = .stopping ∧ runner'.chains = [] := by
  induction trace generalizing runner with
  | nil =>
    cases hrun
    exact ⟨hstopping, hchains⟩
  | cons a trace ih =>
    obtain ⟨next, hstep, hrun⟩ := run_cons.mp hrun
    obtain ⟨ha, hstop⟩ := not_or.mp fun h => hstop (List.mem_cons.mpr h)
    suffices next.state = .stopping ∧ next.chains = [] from ih this.1 this.2 hstop hrun
    cases a with
    | start =>
      simp only [step, start, hstopping, Option.some.injEq] at hstep
      cases hstep
      exact ⟨hstopping, hchains⟩
    | stop => exact absurd rfl ha
    | finalizeAndStop =>
      cases hstep
      exact ⟨rfl, hchains⟩
    | resolve | reject | timeout => simp [step, tickAt, waitsAt, hchains] at hstep
    | wake =>
      simp only [step, isRunning, hstopping] at hstep
      split at hstep <;> cases hstep
      exact ⟨hstopping, hchains⟩

/-- A runner that is stopped and started again before the timeout has two chains, one that is
finalized before it is started is never running again, and one whose tick is rejected says that it
is running. -/
theorem not_oneChain_samples :
    ¬ Always step OneChain initial [.start (), .resolve 0, .stop, .start ()] ∧
      ¬ Always step OneChain initial [.finalizeAndStop, .start ()] ∧
      ¬ Always step OneChain initial [.start (), .reject 0] := by
  refine ⟨fun h => ?_, fun h => ?_, fun h => ?_⟩
  · have hone := h.run (t := ⟨.running, [.waiting, .ticking ()], 0⟩) rfl
    exact absurd hone.atMostOne (by decide)
  · have hone := h.run (t := ⟨.stopping, [], 1⟩) rfl
    exact absurd (hone.alive rfl) (by decide)
  · have hone := h.run (t := ⟨.running, [], 0⟩) rfl
    exact absurd (hone.alive rfl) (by decide)

end ObserverRunner

end UniversalLogin
