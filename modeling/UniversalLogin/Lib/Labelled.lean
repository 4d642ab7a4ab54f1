/-!
# Runs of labelled steps

A step is a relation between two states and a label, so a state may have many steps. `Run step s as
t` lists the labels of the steps in order. A property kept by every step holds after every run
(`Run.invariant`). A condition on the steps of a run is a smaller step relation (`Run.mono`).
-/

namespace Labelled

variable {σ : Type u} {α : Type v} {step step' : σ → α → σ → Prop}

/-- The steps that meet a condition in the state in which they are taken. -/
def Guarded (C : σ → α → Prop) (step : σ → α → σ → Prop) : σ → α → σ → Prop :=
  fun s a t => C s a ∧ step s a t

inductive Run (step : σ → α → σ → Prop) : σ → List α → σ → Prop
  | nil : Run step s [] s
  | snoc : Run step s as t → step t a u → Run step s (as ++ [a]) u

namespace Run

theorem single (h : step s a t) : Run step s [a] t :=
  (snoc .nil h : Run step s ([] ++ [a]) t)

theorem append (h : Run step s as t) (h' : Run step t bs u) : Run step s (as ++ bs) u := by
  induction h' with
  | nil => rwa [List.append_nil]
  | snoc _ hstep ih =>
    rw [← List.append_assoc]
    exact .snoc ih hstep

theorem cons (hstep : step s a t) (h : Run step t as u) : Run step s (a :: as) u :=
  append (.single hstep) h

theorem mono (hstep : ∀ s a t, step s a t → step' s a t) (h : Run step s as t) :
    Run step' s as t := by
  induction h with
  | nil => exact .nil
  | snoc _ h ih => exact .snoc ih (hstep _ _ _ h)

theorem of_guarded {C : σ → α → Prop} (h : Run (Guarded C step) s as t) : Run step s as t :=
  h.mono fun _ _ _ h => h.2

theorem invariant {I : σ → Prop} (hkeep : ∀ s a t, I s → step s a t → I t)
    (h : Run step s as t) (hs : I s) : I t := by
  induction h with
  | nil => exact hs
  | snoc _ hstep ih => exact hkeep _ _ _ ih hstep

/-- The same with the labels of the steps so far. -/
theorem history {I : List α → σ → Prop}
    (hkeep : ∀ as s a t, I as s → step s a t → I (as ++ [a]) t) (h : Run step s as t)
    (hs : I [] s) : I as t := by
  induction h with
  | nil => exact hs
  | snoc _ hstep ih => exact hkeep _ _ _ _ ih hstep

end Run

end Labelled
