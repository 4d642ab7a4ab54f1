import UniversalLogin.Commons.WalletSelection
import UniversalLogin.Lib.Transition

/-!
# SuggestionsService

Suggestions while a name is typed (`SuggestionsService.ts`). `debounce` drops a request when the
next one comes before its timer has fired, but a lookup that has begun runs on, and passes its
suggestions to the callback whenever it is resolved. The last name wins exactly if the lookup that
is resolved last is the one that began last (`lastNameWins_iff`).
-/

namespace UniversalLogin

open Transition

/-! ## `debounce` -/

/-- What a debounced function keeps: the arguments that its timer holds, if it is set. -/
structure Debounced (α : Type) where
  timeoutId : Option α

namespace Debounced

variable {α : Type}

/-- The timer of the call before is cleared, if there is one. -/
def call (_ : Debounced α) (args : α) : Debounced α := ⟨some args⟩

/-- `doLater`, with the arguments that the function is applied to. -/
def doLater (d : Debounced α) : Option (Debounced α × α) :=
  d.timeoutId.map fun args => (⟨none⟩, args)

end Debounced

/-! ## The service -/

/-- The arguments of a call of `getSuggestions`. -/
structure SuggestionsRequest (κ : Type) where
  name : JsString
  callback : κ

structure SuggestionsService (κ : Type) where
  debouncedGetSuggestions : Debounced (SuggestionsRequest κ)
  /-- The calls of `doGetSuggestions` that wait for the wallet selection service. -/
  lookups : List (SuggestionsRequest κ)
  /-- What was passed to the callbacks. -/
  passed : List (κ × Suggestions)
  /-- The last call of `getSuggestions`, and the last one of `doGetSuggestions`. -/
  requested : Option (SuggestionsRequest κ)
  begun : Option (SuggestionsRequest κ)

namespace SuggestionsService

variable {κ : Type}

def initial : SuggestionsService κ := ⟨⟨none⟩, [], [], none, none⟩

inductive Action (κ : Type)
  | getSuggestions (request : SuggestionsRequest κ)
  /-- The timer fires. -/
  | timeout
  /-- The promise that a lookup waits for is resolved. -/
  | resolve (i : Nat)

section
-- what `walletSelectionService.getSuggestions` resolves to
variable (getSuggestions : JsString → Option Suggestions)

/-- `doGetSuggestions` after the `await`: the callback and what is passed to it. -/
def answer (request : SuggestionsRequest κ) : κ × Suggestions :=
  (request.callback, (getSuggestions request.name).getD ⟨[], []⟩)

def step (service : SuggestionsService κ) : Action κ → Option (SuggestionsService κ)
  | .getSuggestions request =>
    some { service with
      debouncedGetSuggestions := service.debouncedGetSuggestions.call request
      requested := some request }
  | .timeout =>
    service.debouncedGetSuggestions.doLater.map fun (debounced, request) =>
      { service with
        debouncedGetSuggestions := debounced
        lookups := service.lookups ++ [request]
        begun := some request }
  | .resolve i =>
    service.lookups[i]?.map fun request =>
      { service with
        lookups := service.lookups.eraseIdx i
        passed := service.passed ++ [answer getSuggestions request] }

/-- When no timer is set and no lookup is on its way, what was passed last belongs to the last name.
-/
def LastNameWins (service : SuggestionsService κ) : Prop :=
  service.debouncedGetSuggestions.timeoutId = none → service.lookups = [] →
    ∀ request, service.requested = some request →
      service.passed.getLast? = some (answer getSuggestions request)

/-- If no timer is set, the only lookup that is still on its way is the one that began last, or it
is answered in the same way. -/
def InOrder (service : SuggestionsService κ) : Action κ → Prop
  | .resolve i => service.debouncedGetSuggestions.timeoutId = none →
    ∀ request last, service.lookups = [request] → i = 0 → service.begun = some last →
      answer getSuggestions request = answer getSuggestions last
  | _ => True

/-- The last request is the one that the timer holds or, if none is set, the one that has begun
last.
-/
def Debounces (service : SuggestionsService κ) : Prop :=
  service.requested = service.debouncedGetSuggestions.timeoutId.or service.begun

variable {getSuggestions} {service service' : SuggestionsService κ} {a : Action κ}

theorem Debounces.step (h : service.Debounces)
    (hstep : step getSuggestions service a = some service') : service'.Debounces := by
  cases a with
  | getSuggestions request =>
    cases hstep
    rfl
  | timeout =>
    simp only [SuggestionsService.step, Debounced.doLater, Option.map_map,
      Option.map_eq_some_iff] at hstep
    obtain ⟨request, htimeout, rfl⟩ := hstep
    rw [Debounces, htimeout] at h
    exact h
  | resolve i =>
    obtain ⟨request, _, rfl⟩ := Option.map_eq_some_iff.mp hstep
    exact h

/-- A request or a lookup is still on its way. -/
theorem lastNameWins_of_busy
    (h : service.debouncedGetSuggestions.timeoutId ≠ none ∨ service.lookups ≠ []) :
    LastNameWins getSuggestions service := by
  intro htimeout hlookups
  rcases h with h | h <;> contradiction

/-- The only lookup on its way is resolved. -/
theorem lastNameWins_resolve_iff (h : service.Debounces) (hlookups : service.lookups = [request]) :
    (∀ service', step getSuggestions service (.resolve 0) = some service' →
      LastNameWins getSuggestions service') ↔
    InOrder getSuggestions service (.resolve 0) := by
  have hresolve : step getSuggestions service (.resolve 0) = some
      { service with
        lookups := []
        passed := service.passed ++ [answer getSuggestions request] } := by
    simp [step, hlookups]
  rw [hresolve]
  simp only [Option.some.injEq, forall_eq']
  constructor
  · intro hwins htimeout request' last hlookups' _ hbegun
    rw [hlookups] at hlookups'
    cases hlookups'
    rw [Debounces, htimeout] at h
    have hlast := hwins htimeout rfl last (h.trans hbegun)
    rw [List.getLast?_concat] at hlast
    exact Option.some.inj hlast
  · intro horder htimeout _ last hrequested
    rw [Debounces, htimeout] at h
    have heq := horder htimeout request last hlookups rfl (h.symm.trans hrequested)
    rw [← heq]
    exact List.getLast?_concat

/-- A step leaves the service with what it should have passed exactly if it is in order. -/
theorem lastNameWins_step_iff (h : service.Debounces) :
    (∀ service', step getSuggestions service a = some service' →
      LastNameWins getSuggestions service') ↔ InOrder getSuggestions service a := by
  cases a with
  | getSuggestions request =>
    refine iff_of_true (fun service' hstep => lastNameWins_of_busy (.inl ?_)) trivial
    cases hstep
    exact Option.some_ne_none request
  | timeout =>
    refine iff_of_true (fun service' hstep => lastNameWins_of_busy (.inr ?_)) trivial
    simp only [step, Debounced.doLater, Option.map_map, Option.map_eq_some_iff] at hstep
    obtain ⟨request, _, rfl⟩ := hstep
    simp
  | resolve i =>
    by_cases hone : ∃ request, service.lookups = [request] ∧ i = 0
    · obtain ⟨request, hlookups, rfl⟩ := hone
      exact lastNameWins_resolve_iff h hlookups
    · refine iff_of_true (fun service' hstep => lastNameWins_of_busy (.inr ?_)) ?_
      · obtain ⟨request, hget, rfl⟩ := Option.map_eq_some_iff.mp hstep
        intro hempty
        obtain hnil | ⟨hlength, hi⟩ := List.eraseIdx_eq_nil_iff.mp hempty
        · rw [hnil] at hget
          cases hget
        · obtain ⟨request, hlookups⟩ := List.length_eq_one_iff.mp hlength
          exact hone ⟨request, hlookups, hi⟩
      · exact fun _ request _ hlookups hi _ => absurd ⟨request, hlookups, hi⟩ hone

/-- All along a run, the last name wins whenever nothing is on its way exactly if the last lookup to
be resolved is each time the last one that began, or answered in the same way. -/
theorem lastNameWins_iff (getSuggestions : JsString → Option Suggestions) (acts : List (Action κ)) :
    Always (step getSuggestions) (LastNameWins getSuggestions) initial acts ↔
      Guarded (step getSuggestions) (InOrder getSuggestions) initial acts := by
  refine always_iff_guarded (I := Debounces) (fun _ _ _ h hstep => h.step hstep)
    (fun _ _ h _ => lastNameWins_step_iff h) rfl ?_
  intro _ _ request hrequested
  cases hrequested

end

namespace Sample

def typed (name : String) : Action Unit := .getSuggestions ⟨name.toList, ()⟩

/-- Both names are looked up, and the first lookup takes longer. -/
def overtaken : List (Action Unit) :=
  [typed "a", .timeout, typed "ab", .timeout, .resolve 1, .resolve 0]

end Sample

/-- The suggestions for `ab` are replaced by those for `a`. -/
theorem not_lastNameWins_sample :
    ((Transition.run (step WalletSelectionService.sample.getSuggestions) initial
      Sample.overtaken).map fun service => service.passed.map Prod.snd) =
        some [⟨[], ["ab.my.eth".toList]⟩, ⟨[], ["a.my.eth".toList]⟩] ∧
    ¬ Always (step WalletSelectionService.sample.getSuggestions)
      (LastNameWins WalletSelectionService.sample.getSuggestions) initial Sample.overtaken := by
  refine ⟨by decide, fun h => ?_⟩
  have hwins := h.run (t := _) rfl rfl rfl _ rfl
  exact absurd hwins (by decide)

end SuggestionsService

end UniversalLogin
