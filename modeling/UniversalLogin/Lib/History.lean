/-!
# Histories

A condition on the entries of a list that looks at the entries before each of them. A history that
grows by one entry keeps the condition exactly if the new entry meets it after the old ones
(`eachAfter_concat`). Where entries add items and remove items, what remains of a history is what no
later entry has removed, and one more entry takes from it and adds to it (`remaining_concat`).
-/

namespace History

variable {ε : Type u} {P : List ε → ε → Prop}

/-- Every entry meets the condition after the entries before it. -/
def EachAfter (P : List ε → ε → Prop) (history : List ε) : Prop :=
  ∀ before e after, history = before ++ e :: after → P before e

theorem eachAfter_nil : EachAfter P [] := by
  intro before e after h
  simp at h

theorem eachAfter_concat : EachAfter P (history ++ [e]) ↔ EachAfter P history ∧ P history e := by
  constructor
  · intro h
    refine ⟨fun before e' after heq => h before e' (after ++ [e]) ?_, h history e [] rfl⟩
    rw [heq, List.append_assoc, List.cons_append]
  · rintro ⟨h, he⟩ before e' after heq
    rcases List.eq_nil_or_concat after with rfl | ⟨after, last, rfl⟩
    · obtain ⟨rfl, hlast⟩ := List.append_inj' heq rfl
      cases hlast
      exact he
    · rw [List.concat_eq_append, ← List.cons_append, ← List.append_assoc] at heq
      obtain ⟨rfl, _⟩ := List.append_inj' heq rfl
      exact h before e' after rfl

section
variable {α : Type v} {adds : ε → Option α} {removes : ε → α → Prop}
  [∀ e a, Decidable (removes e a)]

/-- The items that an entry adds and no entry after it removes, in order. -/
def remaining (adds : ε → Option α) (removes : ε → α → Prop) [∀ e a, Decidable (removes e a)] :
    List ε → List α
  | [] => []
  | e :: history =>
    (adds e).toList.filter (fun a => ∀ e' ∈ history, ¬ removes e' a) ++
      remaining adds removes history

theorem remaining_concat : remaining adds removes (history ++ [e]) =
    (remaining adds removes history).filter (fun a => ¬ removes e a) ++ (adds e).toList := by
  induction history with
  | nil => simp [remaining]
  | cons e' history ih =>
    have hlater : ∀ a, (∀ e'' ∈ history ++ [e], ¬ removes e'' a) ↔
        ¬ removes e a ∧ ∀ e'' ∈ history, ¬ removes e'' a := by
      intro a
      rw [List.forall_mem_append, List.forall_mem_singleton, and_comm]
    simp only [List.cons_append, remaining, ih, hlater, Bool.decide_and, List.filter_append,
      List.filter_filter, List.append_assoc]

end

end History
