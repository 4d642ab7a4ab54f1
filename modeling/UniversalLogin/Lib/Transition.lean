/-!
# Runs of a partial step function

A system whose moves are a partial function of the state and an action. `run` follows a list of
actions and fails at the first one that does not apply. A property kept by every step holds after
every run (`run_invariant`); a property kept by the steps that meet a condition holds after every
run whose steps all meet it (`Guarded.run_invariant`). If the steps that keep it are exactly those
that meet the condition, then a run is in the property all along exactly if its steps all meet the
condition (`always_iff_guarded`).
-/

namespace Transition

section
variable {σ : Type u} {α : Type v} {step : σ → α → Option σ}

/-- The state after a list of actions, if each of them applies where it is taken. -/
def run (step : σ → α → Option σ) : σ → List α → Option σ
  | s, [] => some s
  | s, a :: as => (step s a).bind fun t => run step t as

@[simp] theorem run_nil : run step s [] = some s := rfl

theorem run_cons : run step s (a :: as) = some t ↔
    ∃ u, step s a = some u ∧ run step u as = some t := by
  simp [run, Option.bind_eq_some_iff]

theorem run_append : run step s (as ++ bs) = some t ↔
    ∃ u, run step s as = some u ∧ run step u bs = some t := by
  induction as generalizing s with
  | nil => simp
  | cons a as ih =>
    simp only [List.cons_append, run_cons, ih]
    constructor
    · rintro ⟨u, hstep, v, has, hbs⟩
      exact ⟨v, ⟨u, hstep, has⟩, hbs⟩
    · rintro ⟨v, ⟨u, hstep, has⟩, hbs⟩
      exact ⟨u, hstep, v, has, hbs⟩

/-- A property kept by every step is kept by every run. -/
theorem run_invariant {Inv : σ → Prop} (hkeep : ∀ s a t, Inv s → step s a = some t → Inv t)
    (h : run step s as = some t) (hs : Inv s) : Inv t := by
  induction as generalizing s with
  | nil =>
    cases h
    exact hs
  | cons a as ih =>
    obtain ⟨u, hstep, hrest⟩ := run_cons.mp h
    exact ih hrest (hkeep _ _ _ hs hstep)

/-- Every step of the run from `s` meets the condition `C` in the state in which it is taken. -/
def Guarded (step : σ → α → Option σ) (C : σ → α → Prop) : σ → List α → Prop
  | _, [] => True
  | s, a :: as => C s a ∧ ∀ t, step s a = some t → Guarded step C t as

theorem guarded_append {C : σ → α → Prop} : Guarded step C s (as ++ bs) ↔
    Guarded step C s as ∧ ∀ t, run step s as = some t → Guarded step C t bs := by
  induction as generalizing s with
  | nil => simp [Guarded]
  | cons a as ih =>
    simp only [List.cons_append, Guarded, run_cons, ih]
    constructor
    · rintro ⟨hC, hrest⟩
      refine ⟨⟨hC, fun u hstep => (hrest u hstep).1⟩, ?_⟩
      rintro t ⟨u, hstep, hrun⟩
      exact (hrest u hstep).2 t hrun
    · rintro ⟨⟨hC, has⟩, hbs⟩
      exact ⟨hC, fun u hstep => ⟨has u hstep, fun t hrun => hbs t ⟨u, hstep, hrun⟩⟩⟩

theorem Guarded.of_forall {C : σ → α → Prop} (h : ∀ s a, C s a) : Guarded step C s as := by
  induction as generalizing s with
  | nil => trivial
  | cons a as ih => exact ⟨h s a, fun _ _ => ih⟩

theorem Guarded.mono {C D : σ → α → Prop} (hCD : ∀ s a, C s a → D s a)
    (h : Guarded step C s as) : Guarded step D s as := by
  induction as generalizing s with
  | nil => trivial
  | cons a as ih => exact ⟨hCD _ _ h.1, fun t hstep => ih (h.2 t hstep)⟩

theorem Guarded.and {C D : σ → α → Prop} (hC : Guarded step C s as) (hD : Guarded step D s as) :
    Guarded step (fun s a => C s a ∧ D s a) s as := by
  induction as generalizing s with
  | nil => trivial
  | cons a as ih => exact ⟨⟨hC.1, hD.1⟩, fun t hstep => ih (hC.2 t hstep) (hD.2 t hstep)⟩

/-- One step at a time: a run and the condition that its steps meet. -/
theorem run_guarded_cons {C : σ → α → Prop} (hC : C s a) (hstep : step s a = some t)
    (h : run step t as = some u ∧ Guarded step C t as) :
    run step s (a :: as) = some u ∧ Guarded step C s (a :: as) := by
  refine ⟨run_cons.mpr ⟨t, hstep, h.1⟩, hC, fun t' ht' => ?_⟩
  rw [hstep] at ht'
  cases ht'
  exact h.2

theorem Guarded.run_invariant {C : σ → α → Prop} {Inv : σ → Prop}
    (hkeep : ∀ s a t, Inv s → C s a → step s a = some t → Inv t)
    (hC : Guarded step C s as) (h : run step s as = some t) (hs : Inv s) : Inv t := by
  induction as generalizing s with
  | nil =>
    cases h
    exact hs
  | cons a as ih =>
    obtain ⟨u, hstep, hrest⟩ := run_cons.mp h
    exact ih (hC.2 u hstep) hrest (hkeep _ _ _ hs hC.1 hstep)

/-- Every state that the run from `s` reaches is in `Inv`. -/
def Always (step : σ → α → Option σ) (Inv : σ → Prop) (s : σ) (as : List α) : Prop :=
  ∀ before t, before <+: as → run step s before = some t → Inv t

theorem always_nil {Inv : σ → Prop} : Always step Inv s [] ↔ Inv s := by
  constructor
  · exact fun h => h [] s List.prefix_rfl rfl
  · intro hs before t hpre hrun
    rw [List.prefix_nil.mp hpre] at hrun
    cases hrun
    exact hs

theorem always_cons {Inv : σ → Prop} : Always step Inv s (a :: as) ↔
    Inv s ∧ ∀ t, step s a = some t → Always step Inv t as := by
  constructor
  · intro h
    refine ⟨h [] s List.nil_prefix rfl, fun t hstep before u hpre hrun => ?_⟩
    exact h (a :: before) u (List.cons_prefix_cons.mpr ⟨rfl, hpre⟩)
      (run_cons.mpr ⟨t, hstep, hrun⟩)
  · rintro ⟨hs, hnext⟩ before u hpre hrun
    cases before with
    | nil =>
      cases hrun
      exact hs
    | cons b before =>
      obtain ⟨rfl, hrest⟩ := List.cons_prefix_cons.mp hpre
      obtain ⟨t, hstep, hrun⟩ := run_cons.mp hrun
      exact hnext t hstep before u hrest hrun

theorem Always.run {Inv : σ → Prop} (h : Always step Inv s as) (hrun : run step s as = some t) :
    Inv t := h as t List.prefix_rfl hrun

/-- A condition that is exact for each step is exact for runs, also if it takes an invariant `I` of
all runs to see that it is exact. -/
theorem always_iff_guarded {C : σ → α → Prop} {I Inv : σ → Prop}
    (hkeep : ∀ s a t, I s → step s a = some t → I t)
    (hexact : ∀ s a, I s → Inv s → ((∀ t, step s a = some t → Inv t) ↔ C s a))
    (hI : I s) (hs : Inv s) : Always step Inv s as ↔ Guarded step C s as := by
  induction as generalizing s with
  | nil => simpa [Guarded] using always_nil.mpr hs
  | cons a as ih =>
    rw [always_cons, Guarded]
    constructor
    · rintro ⟨_, hnext⟩
      have hInv : ∀ t, step s a = some t → Inv t := fun t hstep =>
        hnext t hstep [] t List.nil_prefix rfl
      exact ⟨(hexact s a hI hs).mp hInv, fun t hstep =>
        (ih (hkeep _ _ _ hI hstep) (hInv t hstep)).mp (hnext t hstep)⟩
    · rintro ⟨hC, hnext⟩
      have hInv := (hexact s a hI hs).mpr hC
      exact ⟨hs, fun t hstep =>
        (ih (hkeep _ _ _ hI hstep) (hInv t hstep)).mpr (hnext t hstep)⟩

end

end Transition
