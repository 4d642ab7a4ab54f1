import UniversalLogin.Lib.Transition
import UniversalLogin.Sdk.ObserverBase

/-!
# RelayerObserver

The observer of authorisation requests (`RelayerObserver.ts`). It fetches the requests of the
contract of one filter after another and compares what it has fetched with the last list that it has
fetched at all, which is of another contract where there are several. So a contract with no change
is notified and one with a change is not, unless the two comparisons agree (`notified_iff`).
-/

namespace UniversalLogin

open Transition

/-- `deepEqual` of a list, and a list or the empty object: they are equal if their elements are,
and the empty object has no elements. -/
def IsDeepEqual (deepEqual : List α → Option (List α) → Bool) : Prop :=
  ∀ authorisations last, deepEqual authorisations last = true ↔ authorisations = last.getD []

/-- What was fetched for a contract, and the callbacks that the emitter had then. -/
structure Fetched (α : Type) where
  contractAddress : JsString
  callbacks : List Nat
  authorisations : List α

structure RelayerObserver (α : Type) where
  emitters : Emitters
  /-- It is the empty object before anything is fetched. -/
  lastAuthorisations : Option (List α)
  /-- For each call of `checkAuthorisationRequests` that has not returned, the filters that it has
  not checked. -/
  checks : List (List Filter)
  /-- The calls of callbacks, and what was fetched. -/
  calls : List (Nat × List α)
  fetched : List (Fetched α)

namespace RelayerObserver

variable {α : Type}

def initial : RelayerObserver α := ⟨[], none, [], [], []⟩

inductive Action (α : Type)
  | subscribe (eventType : EventType) (filter : Filter) (callback : Nat)
  | tick
  /-- The relayer answers what a check waits for. -/
  | answer (i : Nat) (authorisations : List α)
  /-- The check fails. -/
  | fail (i : Nat)

section
variable (deepEqual : List α → Option (List α) → Bool) (observer : RelayerObserver α)

/-- `checkAuthorisationsChangedFor` after the answer. -/
def checkAuthorisationsChangedFor (filter : Filter) (authorisations : List α) :
    RelayerObserver α :=
  if deepEqual authorisations observer.lastAuthorisations = true then observer
  else
    { observer with
      lastAuthorisations := some authorisations
      calls := observer.calls ++ (observer.emitters.callbacks filter .authorisationsChanged).map
        (·, authorisations) }

def step : Action α → Option (RelayerObserver α)
  | .subscribe eventType filter callback =>
    some { observer with emitters := observer.emitters.subscribe eventType filter callback }
  | .tick => some { observer with checks := observer.checks ++ [observer.emitters.filters] }
  | .answer i authorisations =>
    match observer.checks[i]? with
    | some (filter :: filters) =>
      match filter.contractAddress with
      | some contractAddress =>
        some { checkAuthorisationsChangedFor deepEqual observer filter authorisations with
          checks := observer.checks.set i filters
          fetched := observer.fetched ++ [{
            contractAddress := toLowerCase contractAddress
            callbacks := observer.emitters.callbacks filter .authorisationsChanged
            authorisations }] }
      | none => none
    | _ => none
  | .fail i => some { observer with checks := observer.checks.eraseIdx i }

end

/-! ## Notifications per contract -/

/-- The list that was last fetched for a contract. -/
def lastFetched (contractAddress : JsString) (fetched : List (Fetched α)) : List α :=
  ((fetched.filter (·.contractAddress = contractAddress)).getLast?.map (·.authorisations)).getD []

/-- The list that was last fetched at all. -/
def lastFetchedOfAny (fetched : List (Fetched α)) : List α :=
  (fetched.getLast?.map (·.authorisations)).getD []

variable {deepEqual : List α → Option (List α) → Bool} {observer observer' : RelayerObserver α}

theorem step_answer_iff :
    step deepEqual observer (.answer i authorisations) = some observer' ↔
      ∃ filter filters contractAddress, observer.checks[i]? = some (filter :: filters) ∧
        filter.contractAddress = some contractAddress ∧
        { checkAuthorisationsChangedFor deepEqual observer filter authorisations with
          checks := observer.checks.set i filters
          fetched := observer.fetched ++ [⟨toLowerCase contractAddress,
            observer.emitters.callbacks filter .authorisationsChanged, authorisations⟩] } =
          observer' := by
  rw [step]
  constructor
  · intro h
    split at h
    · next filter filters hcheck =>
      split at h
      · next contractAddress hcontract =>
        exact ⟨filter, filters, contractAddress, hcheck, hcontract, Option.some.inj h⟩
      · cases h
    · cases h
  · rintro ⟨filter, filters, contractAddress, hcheck, hcontract, rfl⟩
    simp only [hcheck, hcontract]

theorem lastFetchedOfAny_concat (fetched : List (Fetched α)) (f : Fetched α) :
    lastFetchedOfAny (fetched ++ [f]) = f.authorisations := by
  simp [lastFetchedOfAny]

/-- What is compared with is what was last fetched. -/
def Remembers (observer : RelayerObserver α) : Prop :=
  observer.lastAuthorisations.getD [] = lastFetchedOfAny observer.fetched

theorem remembers_checkAuthorisationsChangedFor (hdeep : IsDeepEqual deepEqual)
    (filter : Filter) (authorisations : List α) :
    (checkAuthorisationsChangedFor deepEqual observer filter
      authorisations).lastAuthorisations.getD [] = authorisations := by
  rw [checkAuthorisationsChangedFor]
  split
  · next hequal => exact ((hdeep _ _).mp hequal).symm
  · rfl

theorem Remembers.step (hdeep : IsDeepEqual deepEqual) (h : observer.Remembers)
    (hstep : step deepEqual observer a = some observer') : observer'.Remembers := by
  cases a with
  | subscribe | tick | fail =>
    cases hstep
    exact h
  | answer i authorisations =>
    obtain ⟨filter, filters, contractAddress, _, _, rfl⟩ := step_answer_iff.mp hstep
    rw [Remembers]
    simp only [lastFetchedOfAny_concat]
    exact remembers_checkAuthorisationsChangedFor hdeep filter authorisations

section
variable [DecidableEq α]

/-- The calls that tell of a change in the list of a contract. -/
def notification (fetched : List (Fetched α)) (f : Fetched α) : List (Nat × List α) :=
  if f.authorisations = lastFetched f.contractAddress fetched then []
  else f.callbacks.map (·, f.authorisations)

/-- The calls for what is fetched, one fetch after another. -/
def notificationsAfter (before : List (Fetched α)) : List (Fetched α) → List (Nat × List α)
  | [] => []
  | f :: fetched => notification before f ++ notificationsAfter (before ++ [f]) fetched

def notifications (fetched : List (Fetched α)) : List (Nat × List α) :=
  notificationsAfter [] fetched

theorem notificationsAfter_concat (before fetched : List (Fetched α)) (f : Fetched α) :
    notificationsAfter before (fetched ++ [f]) =
      notificationsAfter before fetched ++ notification (before ++ fetched) f := by
  induction fetched generalizing before with
  | nil => simp [notificationsAfter]
  | cons f' fetched ih => simp [notificationsAfter, ih]

theorem notifications_concat (fetched : List (Fetched α)) (f : Fetched α) :
    notifications (fetched ++ [f]) = notifications fetched ++ notification fetched f :=
  notificationsAfter_concat [] fetched f

/-- The callbacks are called for the changes in the lists of their contracts, and for nothing
else. -/
def Notified (observer : RelayerObserver α) : Prop :=
  observer.calls = notifications observer.fetched

/-- A list that is fetched for a contract is the last one of all exactly if it is the last one of
this contract, unless nobody is called. -/
def Compares (observer : RelayerObserver α) : Action α → Prop
  | .answer i authorisations =>
    ∀ filter filters contractAddress, observer.checks[i]? = some (filter :: filters) →
      filter.contractAddress = some contractAddress →
      observer.emitters.callbacks filter .authorisationsChanged = [] ∨
        (authorisations = lastFetchedOfAny observer.fetched ↔
          authorisations = lastFetched (toLowerCase contractAddress) observer.fetched)
  | _ => True

theorem checkAuthorisationsChangedFor_calls (hdeep : IsDeepEqual deepEqual)
    (hremembers : observer.Remembers) (filter : Filter) (authorisations : List α) :
    (checkAuthorisationsChangedFor deepEqual observer filter authorisations).calls =
      observer.calls ++ if authorisations = lastFetchedOfAny observer.fetched then []
        else (observer.emitters.callbacks filter .authorisationsChanged).map
          (·, authorisations) := by
  have hequal := hdeep authorisations observer.lastAuthorisations
  rw [hremembers] at hequal
  rw [checkAuthorisationsChangedFor]
  simp only [hequal]
  split
  · rw [List.append_nil]
  · rfl

/-- Two ways to call nobody or everybody are the same if they choose the same, or if there is
nobody. -/
theorem ite_map_eq_iff {p q : Prop} [Decidable p] [Decidable q] {callbacks : List Nat} {x : β} :
    (if p then [] else callbacks.map (·, x)) = (if q then [] else callbacks.map (·, x)) ↔
      callbacks = [] ∨ (p ↔ q) := by
  by_cases hp : p <;> by_cases hq : q <;> simp [hp, hq]

/-- A step leads to an observer that has notified as it should exactly if it meets the condition. -/
theorem step_exact (hdeep : IsDeepEqual deepEqual) (hremembers : observer.Remembers)
    (h : observer.Notified) (a : Action α) :
    (∀ observer', step deepEqual observer a = some observer' → observer'.Notified) ↔
      observer.Compares a := by
  cases a with
  | subscribe | tick | fail =>
    refine iff_of_true ?_ trivial
    intro observer' hstep
    cases hstep
    exact h
  | answer i authorisations =>
    have hcalls (filter : Filter) (filters : List Filter) (contractAddress : JsString) :
        Notified { checkAuthorisationsChangedFor deepEqual observer filter authorisations with
            checks := observer.checks.set i filters
            fetched := observer.fetched ++ [⟨toLowerCase contractAddress,
              observer.emitters.callbacks filter .authorisationsChanged, authorisations⟩] } ↔
          observer.emitters.callbacks filter .authorisationsChanged = [] ∨
            (authorisations = lastFetchedOfAny observer.fetched ↔
              authorisations = lastFetched (toLowerCase contractAddress) observer.fetched) := by
      rw [Notified, notifications_concat]
      change (checkAuthorisationsChangedFor deepEqual observer filter authorisations).calls = _ ↔ _
      rw [checkAuthorisationsChangedFor_calls hdeep hremembers, h, List.append_cancel_left_eq,
        notification]
      exact ite_map_eq_iff
    constructor
    · intro hkeep filter filters contractAddress hcheck hcontract
      exact (hcalls filter filters contractAddress).mp (hkeep _ (step_answer_iff.mpr
        ⟨filter, filters, contractAddress, hcheck, hcontract, rfl⟩))
    · intro hcompares observer' hstep
      obtain ⟨filter, filters, contractAddress, hcheck, hcontract, rfl⟩ :=
        step_answer_iff.mp hstep
      exact (hcalls filter filters contractAddress).mpr
        (hcompares filter filters contractAddress hcheck hcontract)

/-- The callbacks are called for the changes in the lists of their contracts all along a run exactly
if each list that is fetched is the last one of all only if it is the last one of its contract, and
the other way round. -/
theorem notified_iff (hdeep : IsDeepEqual deepEqual) (trace : List (Action α)) :
    Always (step deepEqual) Notified initial trace ↔
      Guarded (step deepEqual) Compares initial trace :=
  always_iff_guarded (I := Remembers) (fun _ _ _ h hstep => h.step hdeep hstep)
    (fun _ a hremembers h => step_exact hdeep hremembers h a) rfl rfl

end

end RelayerObserver

namespace Sample

open RelayerObserver

def deepEqual (authorisations : List Nat) (last : Option (List Nat)) : Bool :=
  authorisations = last.getD []

theorem isDeepEqual : IsDeepEqual deepEqual := fun _ _ => decide_eq_true_iff

/-- A subscription to the changes of a contract. -/
def subscription (contract : Char) (callback : Nat) : RelayerObserver.Action Nat :=
  .subscribe .authorisationsChanged [("contractAddress", [contract])] callback

end Sample

namespace RelayerObserver

/-- Two wallets are asked about twice, and each gets a request of its own in the meantime. -/
theorem notified_sample : Always (step Sample.deepEqual) Notified initial
    [Sample.subscription 'a' 1, Sample.subscription 'b' 2, .tick, .answer 0 [], .answer 0 [], .tick,
      .answer 1 [7], .answer 1 [8]] := by
  refine (notified_iff Sample.isDeepEqual _).mpr ⟨trivial, fun _ h₁ => ?_⟩
  cases h₁
  refine ⟨trivial, fun _ h₂ => ?_⟩
  cases h₂
  refine ⟨trivial, fun _ h₃ => ?_⟩
  cases h₃
  refine ⟨fun _ _ _ _ _ => .inr Iff.rfl, fun _ h₄ => ?_⟩
  cases h₄
  refine ⟨fun _ _ _ hcheck hcontract => .inr ?_, fun _ h₅ => ?_⟩
  · cases hcheck
    cases hcontract
    decide
  cases h₅
  refine ⟨trivial, fun _ h₆ => ?_⟩
  cases h₆
  refine ⟨fun _ _ _ hcheck hcontract => .inr ?_, fun _ h₇ => ?_⟩
  · cases hcheck
    cases hcontract
    decide
  cases h₇
  refine ⟨fun _ _ _ hcheck hcontract => .inr ?_, fun _ _ => trivial⟩
  cases hcheck
  cases hcontract
  decide

/-- Of two wallets the first one has a request and the second one has none, and both are told of a
change. -/
theorem not_notified_sample : ¬ Always (step Sample.deepEqual) Notified initial
    [Sample.subscription 'a' 1, Sample.subscription 'b' 2, .tick, .answer 0 [7], .answer 0 []] := by
  intro h
  have hnotified := h.run rfl
  rw [Notified] at hnotified
  revert hnotified
  decide

end RelayerObserver

end UniversalLogin
