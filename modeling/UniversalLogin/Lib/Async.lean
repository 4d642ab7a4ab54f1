import Mathlib.Logic.Relation

/-!
# Asynchronous computations

A computation runs until it awaits an operation, and goes on with the answer or with the error that
the operation is rejected with. What the operations do to a state is a relation, so they may be
answered in several ways.

`wp` is the calculus of preconditions for such computations: `wp answers awaited failed post x s`
says of `x` started in `s` that `awaited` holds of each operation in the state it is awaited in,
`failed` of each error and `post` of each result. Its rules follow the computation; it is sound for
every run (`wp.runs`).
-/

/-- A computation that awaits operations `i`, answered by values of `ρ i`. -/
inductive Async (ι : Type) (ρ : ι → Type) (ε α : Type)
  | done (result : Except ε α)
  | await (i : ι) (next : Except ε (ρ i) → Async ι ρ ε α)

namespace Async

variable {ι σ : Type} {ρ : ι → Type} {ε α β : Type}

def bind : Async ι ρ ε α → (α → Async ι ρ ε β) → Async ι ρ ε β
  | done (.ok a), f => f a
  | done (.error e), _ => done (.error e)
  | await i next, f => await i fun r => (next r).bind f

instance : Monad (Async ι ρ ε) where
  pure a := done (.ok a)
  bind := bind

/-- To await one operation. -/
def perform (i : ι) : Async ι ρ ε (ρ i) := await i done

/-- To catch the error. -/
def settle : Async ι ρ ε α → Async ι ρ ε (Except ε α)
  | done r => done (.ok r)
  | await i next => await i fun r => (next r).settle

/-- To make calls one after another, each when the one before it has settled. -/
def inTurn (f : β → Async ι ρ ε α) : List β → Async ι ρ ε (List (Except ε α))
  | [] => done (.ok [])
  | b :: bs => do
    let r ← (f b).settle
    let rs ← inTurn f bs
    return r :: rs

/-- The operation that is awaited. -/
def pending : Async ι ρ ε α → Option ι
  | done _ => none
  | await i _ => some i

/-! ## Runs -/

section
variable (answers : (i : ι) → σ → Except ε (ρ i) → σ → Prop)

inductive Step : σ × Async ι ρ ε α → σ × Async ι ρ ε α → Prop
  | answer (h : answers i s r s') : Step (s, await i next) (s', next r)

abbrev Runs : σ × Async ι ρ ε α → σ × Async ι ρ ε α → Prop := Relation.ReflTransGen (Step answers)

end

/-- The first `n` steps, where a function gives the answers. -/
def drive (answer : (i : ι) → σ → Except ε (ρ i) × σ) :
    Nat → σ × Async ι ρ ε α → σ × Async ι ρ ε α
  | n + 1, (s, await i next) => drive answer n ((answer i s).2, next (answer i s).1)
  | _, p => p

theorem runs_drive {answers : (i : ι) → σ → Except ε (ρ i) → σ → Prop}
    {answer : (i : ι) → σ → Except ε (ρ i) × σ}
    (h : ∀ i s, answers i s (answer i s).1 (answer i s).2) (n : Nat) (p : σ × Async ι ρ ε α) :
    Runs answers p (drive answer n p) := by
  induction n generalizing p with
  | zero => exact .refl
  | succ n ih =>
    obtain ⟨s, x⟩ := p
    cases x with
    | done r => exact .refl
    | await i next => exact .head (.answer (h i s)) (ih _)

/-- The result, where every operation has a fixed answer. -/
def eval (answer : (i : ι) → Except ε (ρ i)) : Async ι ρ ε α → Except ε α
  | done r => r
  | await i next => (next (answer i)).eval answer

theorem eval_bind {answer : (i : ι) → Except ε (ρ i)} {x : Async ι ρ ε α}
    {f : α → Async ι ρ ε β} :
    (x >>= f).eval answer = x.eval answer >>= fun a => (f a).eval answer := by
  induction x with
  | done r => cases r <;> rfl
  | await i next ih => exact ih _

/-- A computation that goes on with the result of another one. -/
theorem Runs.bind {answers : (i : ι) → σ → Except ε (ρ i) → σ → Prop} {x : Async ι ρ ε α}
    {f : α → Async ι ρ ε β} (h : Runs answers (s, x) (s', done (.ok a)))
    (hf : Runs answers (s', f a) q) : Runs answers (s, x >>= f) q := by
  generalize hp : (s, x) = p at h
  induction h using Relation.ReflTransGen.head_induction_on generalizing s x with
  | refl =>
    cases hp
    exact hf
  | head hstep _ ih =>
    cases hp
    obtain ⟨hanswer⟩ := hstep
    exact .head (.answer hanswer) (ih rfl)

theorem runs_perform {answers : (i : ι) → σ → Except ε (ρ i) → σ → Prop}
    (h : answers i s (.ok a) s') : Runs answers (s, perform i) (s', done (.ok a)) :=
  .single (.answer h)

theorem runs_done_iff {answers : (i : ι) → σ → Except ε (ρ i) → σ → Prop} {r r' : Except ε α} :
    Runs answers (s, done r) (s', done r') ↔ s = s' ∧ r = r' := by
  constructor
  · intro h
    rcases Relation.ReflTransGen.cases_head h with heq | ⟨p, hstep, _⟩
    · cases heq
      exact ⟨rfl, rfl⟩
    · cases hstep
  · rintro ⟨rfl, rfl⟩
    exact .refl

/-- A computation that goes on with the result of another one ends where it ends with one. -/
theorem runs_bind_iff {answers : (i : ι) → σ → Except ε (ρ i) → σ → Prop} {x : Async ι ρ ε α}
    {f : α → Async ι ρ ε β} {b : β} : Runs answers (s, x >>= f) (s', done (.ok b)) ↔
      ∃ a s₁, Runs answers (s, x) (s₁, done (.ok a)) ∧
        Runs answers (s₁, f a) (s', done (.ok b)) := by
  refine ⟨fun h => ?_, fun ⟨a, s₁, hx, hf⟩ => hx.bind hf⟩
  induction x generalizing s with
  | done r =>
    cases r with
    | ok a => exact ⟨a, s, .refl, h⟩
    | error e => cases (runs_done_iff.mp h).2
  | await i next ih =>
    rcases Relation.ReflTransGen.cases_head h with heq | ⟨p, hstep, hrest⟩
    · cases heq
    · obtain ⟨hanswer⟩ := hstep
      obtain ⟨a, s₁, hx, hf⟩ := ih _ hrest
      exact ⟨a, s₁, .head (.answer hanswer) hx, hf⟩

/-- An operation that is awaited alone is answered once. -/
theorem runs_perform_iff {answers : (i : ι) → σ → Except ε (ρ i) → σ → Prop}
    {r : Except ε (ρ i)} : Runs answers (s, perform i) (s', done r) ↔ answers i s r s' := by
  refine ⟨fun h => ?_, fun h => .single (.answer h)⟩
  rcases Relation.ReflTransGen.cases_head h with heq | ⟨p, hstep, hrest⟩
  · cases heq
  · obtain ⟨hanswer⟩ := hstep
    rcases Relation.ReflTransGen.cases_head hrest with heq | ⟨p, hstep, _⟩
    · cases heq
      exact hanswer
    · cases hstep

/-! ## Preconditions -/

section
variable (answers : (i : ι) → σ → Except ε (ρ i) → σ → Prop) (awaited : ι → σ → Prop)

def wp (failed : ε → σ → Prop) (post : α → σ → Prop) : Async ι ρ ε α → σ → Prop
  | done (.ok a), s => post a s
  | done (.error e), s => failed e s
  | await i next, s => awaited i s ∧ ∀ r s', answers i s r s' → (next r).wp failed post s'

end

variable {answers : (i : ι) → σ → Except ε (ρ i) → σ → Prop} {awaited : ι → σ → Prop}
  {failed failed' : ε → σ → Prop}

theorem wp_perform {post : ρ i → σ → Prop} : wp answers awaited failed post (perform i) s ↔
    awaited i s ∧ (∀ a s', answers i s (.ok a) s' → post a s') ∧
      ∀ e s', answers i s (.error e) s' → failed e s' := by
  constructor
  · exact fun ⟨hi, h⟩ => ⟨hi, fun a => h (.ok a), fun e => h (.error e)⟩
  · rintro ⟨hi, hok, herror⟩
    refine ⟨hi, fun r s' hr => ?_⟩
    cases r with
    | ok a => exact hok a s' hr
    | error e => exact herror e s' hr

theorem wp_bind {post : β → σ → Prop} {x : Async ι ρ ε α} {f : α → Async ι ρ ε β} :
    wp answers awaited failed post (x >>= f) s ↔
      wp answers awaited failed (fun a => wp answers awaited failed post (f a)) x s := by
  induction x generalizing s with
  | done r => cases r <;> rfl
  | await i next ih =>
    refine and_congr_right' (forall_congr' fun r => forall_congr' fun s' => ?_)
    exact imp_congr_right fun _ => ih r

theorem wp_settle {post : Except ε α → σ → Prop} {x : Async ι ρ ε α} :
    wp answers awaited failed post x.settle s ↔
      wp answers awaited (fun e => post (.error e)) (fun a => post (.ok a)) x s := by
  induction x generalizing s with
  | done r => cases r <;> rfl
  | await i next ih =>
    refine and_congr_right' (forall_congr' fun r => forall_congr' fun s' => ?_)
    exact imp_congr_right fun _ => ih r

theorem wp.mono {post post' : α → σ → Prop} {x : Async ι ρ ε α}
    (h : wp answers awaited failed post x s) (hfailed : ∀ e s, failed e s → failed' e s)
    (hpost : ∀ a s, post a s → post' a s) : wp answers awaited failed' post' x s := by
  induction x generalizing s with
  | done r =>
    cases r with
    | ok a => exact hpost a s h
    | error e => exact hfailed e s h
  | await i next ih => exact ⟨h.1, fun r s' hr => ih r (h.2 r s' hr)⟩

/-- Calls in turn keep what each of them keeps, whether it fails or not. -/
theorem wp_inTurn {inv : σ → Prop} {f : β → Async ι ρ ε α} {bs : List β}
    (h : ∀ b ∈ bs, ∀ s, inv s → wp answers awaited (fun _ => inv) (fun _ => inv) (f b) s)
    (hs : inv s) : wp answers awaited (fun _ => inv) (fun _ => inv) (inTurn f bs) s := by
  induction bs generalizing s with
  | nil => exact hs
  | cons b bs ih =>
    refine wp_bind.mpr (wp_settle.mpr ?_)
    have hrest : ∀ r s, inv s → wp answers awaited (fun _ => inv) (fun _ => inv)
        (inTurn f bs >>= fun rs => pure (r :: rs)) s := fun r s hs =>
      wp_bind.mpr (ih (fun b hb => h b (List.mem_cons_of_mem _ hb)) hs)
    exact (h b List.mem_cons_self s hs).mono (fun e s => hrest (.error e) s)
      fun a s => hrest (.ok a) s

/-- A precondition goes on to hold along every run. -/
theorem wp.runs {post : α → σ → Prop} {p q : σ × Async ι ρ ε α} (hrun : Runs answers p q)
    (h : wp answers awaited failed post p.2 p.1) : wp answers awaited failed post q.2 q.1 := by
  induction hrun with
  | refl => exact h
  | tail _ hstep ih =>
    obtain ⟨hr⟩ := hstep
    exact ih.2 _ _ hr

/-- Where every awaited operation can be answered, some run comes to the end. -/
theorem wp.exists_runs {post : α → σ → Prop} {x : Async ι ρ ε α}
    (hawaited : ∀ i s, awaited i s → ∃ r s', answers i s r s')
    (h : wp answers awaited failed post x s) :
    ∃ r s', Runs answers (s, x) (s', done r) := by
  induction x generalizing s with
  | done r => exact ⟨r, s, .refl⟩
  | await i next ih =>
    obtain ⟨r, s', hr⟩ := hawaited i s h.1
    obtain ⟨r', s'', hrun⟩ := ih r (h.2 r s' hr)
    exact ⟨r', s'', .head (.answer hr) hrun⟩

/-- Whenever an operation is awaited, `awaited` holds of it. -/
theorem wp.awaited_of_pending {post : α → σ → Prop} {x : Async ι ρ ε α}
    (h : wp answers awaited failed post x s) (hpending : x.pending = some i) : awaited i s := by
  cases x with
  | done r => cases hpending
  | await j next =>
    cases hpending
    exact h.1

end Async
