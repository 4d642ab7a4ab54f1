import Mathlib.Data.Fintype.Basic
import Mathlib.Logic.Hydra
import UniversalLogin.Lib.Async
import UniversalLogin.Lib.Labelled

/-!
# Interleaved calls

Calls of asynchronous computations that share a state. A step answers the operation that one of
them awaits, so the calls interleave at their operations in every order; a call keeps a log of what
it was answered.

What a call does is told in two parts. `Follows` says from the code alone, for all answers that are
possible after what was answered before, how the log of a call looks when it awaits an operation and
when it has ended. An invariant says what the logs tell of the state, and so which answers are
possible. `follows_of_run` puts the two together.
-/

namespace Async

variable {ι σ P : Type} {ρ : ι → Type} {ε α β : Type}

/-- An operation and what it was answered. -/
abbrev Answered (ι : Type) (ρ : ι → Type) (ε : Type) := (i : ι) × Except ε (ρ i)

/-- A call under way: its answers so far, and the rest of the computation. -/
structure Call (ι : Type) (ρ : ι → Type) (ε α : Type) where
  log : List (Answered ι ρ ε)
  rest : Async ι ρ ε α

/-- What is left of a computation after one more answer. -/
def Rest (y x : Async ι ρ ε α) : Prop := ∃ i next r, x = await i next ∧ y = next r

theorem rest_wf : WellFounded (Rest (ι := ι) (ρ := ρ) (ε := ε) (α := α)) := by
  refine ⟨fun x => ?_⟩
  induction x with
  | done r => exact ⟨_, fun _ ⟨_, _, _, h, _⟩ => by cases h⟩
  | await i next ih =>
    refine ⟨_, ?_⟩
    rintro _ ⟨_, _, r, ⟨⟩, rfl⟩
    exact ih r

namespace Call

def begin (x : Async ι ρ ε α) : Call ι ρ ε α := ⟨[], x⟩

def pending (c : Call ι ρ ε α) : Option ι := c.rest.pending

inductive Step (answers : (i : ι) → σ → Except ε (ρ i) → σ → Prop) :
    σ → Call ι ρ ε α → Answered ι ρ ε → σ → Call ι ρ ε α → Prop
  | answer {log : List (Answered ι ρ ε)} (h : answers i s r s') :
    Step answers s ⟨log, await i next⟩ ⟨i, r⟩ s' ⟨log ++ [⟨i, r⟩], next r⟩

namespace Step

variable {answers : (i : ι) → σ → Except ε (ρ i) → σ → Prop} {c c' : Call ι ρ ε α}

theorem pending (h : Step answers s c e s' c') : c.pending = some e.1 := by
  obtain ⟨_⟩ := h
  rfl

theorem answers_eq (h : Step answers s c e s' c') : answers e.1 s e.2 s' := by
  obtain ⟨h⟩ := h
  exact h

theorem log_eq (h : Step answers s c e s' c') : c'.log = c.log ++ [e] := by
  obtain ⟨_⟩ := h
  rfl

theorem rest (h : Step answers s c e s' c') : Rest c'.rest c.rest := by
  obtain ⟨_⟩ := h
  exact ⟨_, _, _, rfl, rfl⟩

/-- The same step as it is seen by who sees less of the state. -/
theorem map {answers' : (i : ι) → τ → Except ε (ρ i) → τ → Prop} {f : σ → τ}
    (hanswers : ∀ i s r s', answers i s r s' → answers' i (f s) r (f s'))
    (h : Step answers s c e s' c') : Step answers' (f s) c e (f s') c' := by
  obtain ⟨h⟩ := h
  exact .answer (hanswers _ _ _ _ h)

end Step

/-- The step of a call, where a function gives the answers. -/
def turn (answer : (i : ι) → σ → Except ε (ρ i) × σ) (s : σ) :
    Call ι ρ ε α → Option (Answered ι ρ ε × σ × Call ι ρ ε α)
  | ⟨_, done _⟩ => none
  | ⟨log, await i next⟩ =>
    let (r, s') := answer i s
    some (⟨i, r⟩, s', ⟨log ++ [⟨i, r⟩], next r⟩)

theorem step_of_turn {answers : (i : ι) → σ → Except ε (ρ i) → σ → Prop}
    {answer : (i : ι) → σ → Except ε (ρ i) × σ} {c c' : Call ι ρ ε α}
    (h : ∀ i s, answers i s (answer i s).1 (answer i s).2)
    (hturn : c.turn answer s = some (e, s', c')) : Step answers s c e s' c' := by
  obtain ⟨log, x⟩ := c
  cases x with
  | done r => cases hturn
  | await i next =>
    cases hturn
    exact .answer (h i s)

theorem done_of_turn {answer : (i : ι) → σ → Except ε (ρ i) × σ} {c : Call ι ρ ε α}
    (hturn : c.turn answer s = none) : ∃ r, c.rest = .done r := by
  obtain ⟨log, x⟩ := c
  cases x with
  | done r => exact ⟨r, rfl⟩
  | await i next => cases hturn

end Call

/-! ## What the code of a call does -/

section
variable (possible : List (Answered ι ρ ε) → (i : ι) → Except ε (ρ i) → Prop)
  (awaited : List (Answered ι ρ ε) → ι → Prop) (failed : List (Answered ι ρ ε) → ε → Prop)

/-- If the rest `x` of a call with this log is answered as it is possible, then `awaited` holds of
the log and the operation whenever it awaits one, and `failed` or `post` when it has ended. -/
def Follows (post : List (Answered ι ρ ε) → α → Prop) : List (Answered ι ρ ε) → Async ι ρ ε α → Prop
  | log, done (.ok a) => post log a
  | log, done (.error e) => failed log e
  | log, await i next =>
    awaited log i ∧ ∀ r, possible log i r → Follows post (log ++ [⟨i, r⟩]) (next r)

end

section
variable {possible possible' : List (Answered ι ρ ε) → (i : ι) → Except ε (ρ i) → Prop}
  {awaited awaited' : List (Answered ι ρ ε) → ι → Prop}
  {failed failed' : List (Answered ι ρ ε) → ε → Prop} {log : List (Answered ι ρ ε)}

theorem follows_perform {post : List (Answered ι ρ ε) → ρ i → Prop} :
    Follows possible awaited failed post log (perform i) ↔
      awaited log i ∧ (∀ a, possible log i (.ok a) → post (log ++ [⟨i, .ok a⟩]) a) ∧
        ∀ e, possible log i (.error e) → failed (log ++ [⟨i, .error e⟩]) e := by
  constructor
  · intro ⟨hi, h⟩
    exact ⟨hi, fun a => h (.ok a), fun e => h (.error e)⟩
  · intro ⟨hi, hok, herror⟩
    refine ⟨hi, fun r => ?_⟩
    cases r with
    | ok a => exact hok a
    | error e => exact herror e

theorem follows_bind {post : List (Answered ι ρ ε) → β → Prop} {x : Async ι ρ ε α}
    {f : α → Async ι ρ ε β} : Follows possible awaited failed post log (x >>= f) ↔
      Follows possible awaited failed
        (fun log a => Follows possible awaited failed post log (f a)) log x := by
  induction x generalizing log with
  | done r => cases r <;> rfl
  | await i next ih =>
    refine and_congr_right' (forall_congr' fun r => ?_)
    exact imp_congr_right fun _ => ih r

theorem follows_settle {post : List (Answered ι ρ ε) → Except ε α → Prop} {x : Async ι ρ ε α} :
    Follows possible awaited failed post log x.settle ↔
      Follows possible awaited (fun log e => post log (.error e)) (fun log a => post log (.ok a))
        log x := by
  induction x generalizing log with
  | done r => cases r <;> rfl
  | await i next ih =>
    refine and_congr_right' (forall_congr' fun r => ?_)
    exact imp_congr_right fun _ => ih r

theorem Follows.mono {post post' : List (Answered ι ρ ε) → α → Prop} {x : Async ι ρ ε α}
    (h : Follows possible awaited failed post log x)
    (hpossible : ∀ log i r, possible' log i r → possible log i r)
    (hawaited : ∀ log i, awaited log i → awaited' log i)
    (hfailed : ∀ log e, failed log e → failed' log e)
    (hpost : ∀ log a, post log a → post' log a) :
    Follows possible' awaited' failed' post' log x := by
  induction x generalizing log with
  | done r =>
    cases r with
    | ok a => exact hpost log a h
    | error e => exact hfailed log e h
  | await i next ih => exact ⟨hawaited _ _ h.1, fun r hr => ih r (h.2 r (hpossible _ _ _ hr))⟩

/-- The answers lead a computation to the rest of it. -/
inductive Leads : Async ι ρ ε α → List (Answered ι ρ ε) → Async ι ρ ε α → Prop
  | nil : Leads x [] x
  | cons {next : Except ε (ρ i) → Async ι ρ ε α} :
    Leads (next r) answered y → Leads (await i next) (⟨i, r⟩ :: answered) y

/-- Where a computation ends, the answers since its beginning have led it there. -/
theorem Follows.leads {post : List (Answered ι ρ ε) → α → Prop} {x : Async ι ρ ε α}
    (h : Follows possible awaited failed post log x) :
    Follows possible awaited
      (fun log' e => failed log' e ∧ ∃ back, log' = log ++ back ∧ Leads x back (done (.error e)))
      (fun log' a => post log' a ∧ ∃ back, log' = log ++ back ∧ Leads x back (done (.ok a)))
      log x := by
  induction x generalizing log with
  | done r =>
    cases r with
    | ok a => exact ⟨h, [], by simp, .nil⟩
    | error e => exact ⟨h, [], by simp, .nil⟩
  | await i next ih =>
    refine ⟨h.1, fun r hr => (ih r (h.2 r hr)).mono (fun _ _ _ h => h) (fun _ _ h => h) ?_ ?_⟩
    · rintro log' e ⟨hfailed, back, rfl, hleads⟩
      exact ⟨hfailed, ⟨i, r⟩ :: back, by simp, .cons hleads⟩
    · rintro log' a ⟨hpost, back, rfl, hleads⟩
      exact ⟨hpost, ⟨i, r⟩ :: back, by simp, .cons hleads⟩

end

/-- What is said of the log of a call and the rest of it. -/
def Call.Follows (possible : List (Answered ι ρ ε) → (i : ι) → Except ε (ρ i) → Prop)
    (awaited : List (Answered ι ρ ε) → ι → Prop) (failed : List (Answered ι ρ ε) → ε → Prop)
    (post : List (Answered ι ρ ε) → α → Prop) (c : Call ι ρ ε α) : Prop :=
  Async.Follows possible awaited failed post c.log c.rest

namespace Call.Follows

variable {possible : List (Answered ι ρ ε) → (i : ι) → Except ε (ρ i) → Prop}
  {awaited : List (Answered ι ρ ε) → ι → Prop} {failed : List (Answered ι ρ ε) → ε → Prop}
  {post : List (Answered ι ρ ε) → α → Prop} {c c' : Call ι ρ ε α}

theorem step {answers : (i : ι) → σ → Except ε (ρ i) → σ → Prop}
    (h : c.Follows possible awaited failed post) (hstep : Step answers s c e s' c')
    (hpossible : possible c.log e.1 e.2) : c'.Follows possible awaited failed post := by
  obtain ⟨_⟩ := hstep
  exact h.2 _ hpossible

theorem awaited_of_pending (h : c.Follows possible awaited failed post)
    (hpending : c.pending = some i) : awaited c.log i := by
  obtain ⟨log, x⟩ := c
  cases x with
  | done r => cases hpending
  | await j next =>
    cases hpending
    exact h.1

theorem of_ok (h : c.Follows possible awaited failed post) (hdone : c.rest = .done (.ok a)) :
    post c.log a := by
  obtain ⟨log, x⟩ := c
  cases hdone
  exact h

theorem of_error (h : c.Follows possible awaited failed post)
    (hdone : c.rest = .done (.error e)) : failed c.log e := by
  obtain ⟨log, x⟩ := c
  cases hdone
  exact h

end Call.Follows

/-! ## Runs of several calls -/

section
variable [DecidableEq P]

/-- One of the calls is given an answer. -/
inductive Interleaved (answers : (i : ι) → σ → Except ε (ρ i) → σ → Prop) :
    σ × (P → Call ι ρ ε α) → P × Answered ι ρ ε → σ × (P → Call ι ρ ε α) → Prop
  | call (h : Call.Step answers s (calls p) e s' c) :
    Interleaved answers (s, calls) (p, e) (s', Function.update calls p c)

/-- The same step, where its answer is one of others. -/
theorem Interleaved.imp {answers answers' : (i : ι) → σ → Except ε (ρ i) → σ → Prop}
    {m m' : σ × (P → Call ι ρ ε α)} (h : Interleaved answers m (p, e) m')
    (himp : answers e.1 m.1 e.2 m'.1 → answers' e.1 m.1 e.2 m'.1) :
    Interleaved answers' m (p, e) m' := by
  obtain @⟨s, calls, e, s', c, p, hcall⟩ := h
  generalize hc : calls p = call at hcall
  obtain ⟨hanswer⟩ := hcall
  exact .call (hc ▸ .answer (himp hanswer))

/-- Calls that have just begun. -/
def begin (x : P → Async ι ρ ε α) (p : P) : Call ι ρ ε α := .begin (x p)

/-- Interleaved calls do not go on for ever. -/
theorem interleaved_wf [Fintype P] (answers : (i : ι) → σ → Except ε (ρ i) → σ → Prop) :
    WellFounded fun m' m : σ × (P → Call ι ρ ε α) => ∃ pe, Interleaved answers m pe m' := by
  -- a step replaces one of the computations by what is left of it
  have hwf := InvImage.wf
    (fun m : σ × (P → Call ι ρ ε α) => Finset.univ.val.map fun p => (m.2 p).rest)
    (rest_wf (ι := ι) (ρ := ρ) (ε := ε) (α := α)).cutExpand
  refine Subrelation.wf ?_ hwf
  rintro _ _ ⟨_, @⟨s, calls, e, s', c, p, hcall⟩⟩
  have hsplit : ∀ f : P → Async ι ρ ε α,
      Finset.univ.val.map f = {f p} + (Finset.univ.erase p).val.map f := fun f => by
    rw [← Multiset.map_singleton f p, ← Multiset.map_add, Finset.erase_val, Multiset.singleton_add,
      Multiset.cons_erase (Finset.mem_univ p)]
  have hothers : (Finset.univ.erase p).val.map (fun q => (Function.update calls p c q).rest) =
      (Finset.univ.erase p).val.map fun q => (calls q).rest := by
    refine Multiset.map_congr rfl fun q hq => ?_
    rw [Function.update_of_ne (Finset.ne_of_mem_erase hq)]
  simp only [InvImage]
  rw [hsplit, hothers, hsplit, Function.update_self]
  exact Relation.cutExpand_single_add hcall.rest _

/-- Where no step can be taken, every call has ended. -/
theorem ended_of_stuck {answers : (i : ι) → σ → Except ε (ρ i) → σ → Prop}
    (htotal : ∀ i s, ∃ r s', answers i s r s') {m : σ × (P → Call ι ρ ε α)}
    (hstuck : ∀ pe m', ¬ Interleaved answers m pe m') (p : P) : ∃ r, (m.2 p).rest = .done r := by
  obtain ⟨s, calls⟩ := m
  rcases hp : calls p with ⟨log, x⟩
  cases x with
  | done r => exact ⟨r, congrArg Call.rest hp⟩
  | await i next =>
    obtain ⟨r, s', hanswer⟩ := htotal i s
    have hcall : Call.Step answers s (calls p) ⟨i, r⟩ s' ⟨log ++ [⟨i, r⟩], next r⟩ :=
      hp ▸ .answer hanswer
    exact absurd (.call hcall) (hstuck _ _)

variable {possible : P → List (Answered ι ρ ε) → (i : ι) → Except ε (ρ i) → Prop}
  {awaited : P → List (Answered ι ρ ε) → ι → Prop} {failed : P → List (Answered ι ρ ε) → ε → Prop}
  {post : P → List (Answered ι ρ ε) → α → Prop} {I : σ → (P → Call ι ρ ε α) → Prop}

/-- What the code of each call does, and an invariant that the steps keep, where the invariant makes
the answers possible ones. -/
theorem follows_of_run {step : σ × (P → Call ι ρ ε α) → P × Answered ι ρ ε →
      σ × (P → Call ι ρ ε α) → Prop}
    {answers : (i : ι) → σ → Except ε (ρ i) → σ → Prop}
    (hstep : ∀ m pe m', step m pe m' → Interleaved answers m pe m')
    (hpossible : ∀ s calls p e t, I s calls → step (s, calls) (p, e) t →
      possible p (calls p).log e.1 e.2)
    (hkeep : ∀ s calls p e s' calls', I s calls →
      (∀ q, (calls q).Follows (possible q) (awaited q) (failed q) (post q)) →
      step (s, calls) (p, e) (s', calls') → I s' calls')
    (hrun : Labelled.Run step m trace m') (hinv : I m.1 m.2)
    (hfollows : ∀ q, (m.2 q).Follows (possible q) (awaited q) (failed q) (post q)) :
    I m'.1 m'.2 ∧ ∀ q, (m'.2 q).Follows (possible q) (awaited q) (failed q) (post q) := by
  refine hrun.invariant (I := fun m => I m.1 m.2 ∧
    ∀ q, (m.2 q).Follows (possible q) (awaited q) (failed q) (post q)) ?_ ⟨hinv, hfollows⟩
  rintro ⟨s, calls⟩ ⟨p, e⟩ ⟨s', calls'⟩ ⟨hinv, hfollows⟩ h
  refine ⟨hkeep _ _ _ _ _ _ hinv hfollows h, fun q => ?_⟩
  have hp := hpossible _ _ _ _ _ hinv h
  obtain ⟨hcall⟩ := hstep _ _ _ h
  by_cases hq : q = p
  · subst hq
    simpa using (hfollows q).step hcall hp
  · simpa [hq] using hfollows q

/-- The steps in which the calls take turns, where a function gives the answers. A call that has
ended passes. -/
def schedule (answer : (i : ι) → σ → Except ε (ρ i) × σ) :
    List P → σ × (P → Call ι ρ ε α) → σ × (P → Call ι ρ ε α)
  | [], m => m
  | p :: ps, (s, calls) =>
    match (calls p).turn answer s with
    | none => schedule answer ps (s, calls)
    | some (_, s', c) => schedule answer ps (s', Function.update calls p c)

/-- Each of these steps meets a condition. -/
def Observes (C : σ × (P → Call ι ρ ε α) → P × Answered ι ρ ε → Prop)
    (answer : (i : ι) → σ → Except ε (ρ i) × σ) : List P → σ × (P → Call ι ρ ε α) → Prop
  | [], _ => True
  | p :: ps, (s, calls) =>
    match (calls p).turn answer s with
    | none => Observes C answer ps (s, calls)
    | some (e, s', c) => C (s, calls) (p, e) ∧ Observes C answer ps (s', Function.update calls p c)

theorem observes_of_forall {C : σ × (P → Call ι ρ ε α) → P × Answered ι ρ ε → Prop}
    {answer : (i : ι) → σ → Except ε (ρ i) × σ} (hC : ∀ m e, C m e) {ps : List P}
    {m : σ × (P → Call ι ρ ε α)} : Observes C answer ps m := by
  induction ps generalizing m with
  | nil => trivial
  | cons p ps ih =>
    obtain ⟨s, calls⟩ := m
    cases hturn : (calls p).turn answer s with
    | none =>
      rw [Observes, hturn]
      exact ih
    | some t =>
      rw [Observes, hturn]
      exact ⟨hC _ _, ih⟩

instance decidableObserves {C : σ × (P → Call ι ρ ε α) → P × Answered ι ρ ε → Prop}
    [∀ m e, Decidable (C m e)] {answer : (i : ι) → σ → Except ε (ρ i) × σ} :
    (ps : List P) → (m : σ × (P → Call ι ρ ε α)) → Decidable (Observes C answer ps m)
  | [], _ => .isTrue trivial
  | p :: ps, (s, calls) =>
    match hturn : (calls p).turn answer s with
    | none =>
      have : Decidable (Observes C answer ps (s, calls)) := decidableObserves ps (s, calls)
      decidable_of_iff (Observes C answer ps (s, calls)) (by simp only [Observes, hturn])
    | some (e, s', c) =>
      have : Decidable (Observes C answer ps (s', Function.update calls p c)) :=
        decidableObserves ps (s', Function.update calls p c)
      decidable_of_iff (C (s, calls) (p, e) ∧ Observes C answer ps (s', Function.update calls p c))
        (by simp only [Observes, hturn])

theorem run_schedule {C : σ × (P → Call ι ρ ε α) → P × Answered ι ρ ε → Prop}
    {answers : (i : ι) → σ → Except ε (ρ i) → σ → Prop}
    {answer : (i : ι) → σ → Except ε (ρ i) × σ}
    (h : ∀ i s, answers i s (answer i s).1 (answer i s).2) {ps : List P}
    {m : σ × (P → Call ι ρ ε α)} (hC : Observes C answer ps m) :
    ∃ trace, Labelled.Run (Labelled.Guarded C (Interleaved answers)) m trace
      (schedule answer ps m) := by
  induction ps generalizing m with
  | nil => exact ⟨[], .nil⟩
  | cons p ps ih =>
    obtain ⟨s, calls⟩ := m
    cases hturn : (calls p).turn answer s with
    | none =>
      simp only [Observes, schedule, hturn] at hC ⊢
      exact ih hC
    | some t =>
      obtain ⟨e, s', c⟩ := t
      simp only [Observes, schedule, hturn] at hC ⊢
      obtain ⟨trace, hrun⟩ := ih hC.2
      exact ⟨_, .cons ⟨hC.1, .call (Call.step_of_turn h hturn)⟩ hrun⟩

-- a statement about a given schedule is not to be evaluated where it is used
attribute [irreducible] Observes

end

end Async
