import Mathlib.Data.List.Sort

/-!
# Sorting with a comparator that may fail

A comparator returns a negative number, zero or a positive one, or fails, and then the whole sort
fails. A sort of more than one element calls it (`exists_compared`). Where it compares by values in
a linear order, the sort is the stable sort by these values (`sortBy_eq`).
-/

namespace Comparator

variable {ε α β : Type} (comparator : α → α → Except ε Int)

def insertBy (a : α) : List α → Except ε (List α)
  | [] => return [a]
  | b :: bs => do
    let c ← comparator a b
    if c ≤ 0 then return a :: b :: bs
    else do
      let rest ← insertBy a bs
      return b :: rest

def sortBy : List α → Except ε (List α)
  | [] => return []
  | a :: as => do
    let rest ← sortBy as
    insertBy comparator a rest

variable {comparator}

/-! ## What is compared -/

theorem insertBy_cons_eq_ok {bs cs : List α} : insertBy comparator a (b :: bs) = .ok cs ↔
    ∃ c, comparator a b = .ok c ∧
      (c ≤ 0 ∧ cs = a :: b :: bs ∨
        0 < c ∧ ∃ rest, insertBy comparator a bs = .ok rest ∧ cs = b :: rest) := by
  rw [insertBy]
  cases comparator a b with
  | error e => simp [bind, Except.bind]
  | ok c =>
    by_cases hle : c ≤ 0
    · simp [bind, Except.bind, pure, Except.pure, hle, eq_comm]
    · have hlt : 0 < c := not_le.mp hle
      cases insertBy comparator a bs <;>
        simp [bind, Except.bind, pure, Except.pure, hle, hlt, eq_comm]

theorem insertBy_perm {as bs : List α} (h : insertBy comparator a as = .ok bs) :
    bs.Perm (a :: as) := by
  induction as generalizing bs with
  | nil =>
    cases h
    exact .refl _
  | cons b as ih =>
    obtain ⟨c, _, ⟨_, rfl⟩ | ⟨_, rest, hrest, rfl⟩⟩ := insertBy_cons_eq_ok.mp h
    · exact .refl _
    · exact ((ih hrest).cons b).trans (.swap a b as)

theorem sortBy_cons_eq_ok {as bs : List α} : sortBy comparator (a :: as) = .ok bs ↔
    ∃ rest, sortBy comparator as = .ok rest ∧ insertBy comparator a rest = .ok bs := by
  rw [sortBy]
  cases sortBy comparator as <;> simp [bind, Except.bind]

theorem sortBy_perm {as bs : List α} (h : sortBy comparator as = .ok bs) : bs.Perm as := by
  induction as generalizing bs with
  | nil =>
    cases h
    exact .refl _
  | cons a as ih =>
    obtain ⟨rest, hrest, hinsert⟩ := sortBy_cons_eq_ok.mp h
    exact (insertBy_perm hinsert).trans ((ih hrest).cons a)

/-- A sort of more than one element compares two of them. -/
theorem exists_compared {as bs : List α} (h : sortBy comparator as = .ok bs)
    (hlength : 1 < as.length) : ∃ a ∈ as, ∃ b ∈ as, ∃ c, comparator a b = .ok c := by
  obtain _ | ⟨a, as⟩ := as
  · cases hlength
  obtain ⟨rest, hrest, hinsert⟩ := sortBy_cons_eq_ok.mp h
  have hperm := sortBy_perm hrest
  obtain _ | ⟨b, rest⟩ := rest
  · rw [List.length_cons, ← hperm.length_eq] at hlength
    cases Nat.lt_irrefl 1 hlength
  · have hb : b ∈ as := hperm.subset List.mem_cons_self
    obtain ⟨c, hc, _⟩ := insertBy_cons_eq_ok.mp hinsert
    exact ⟨a, List.mem_cons_self, b, List.mem_cons_of_mem _ hb, c, hc⟩

/-! ## What is sorted -/

variable [LinearOrder β] {f : α → β}

theorem insertBy_eq {as : List α}
    (h : ∀ b ∈ as, ∃ c, comparator a b = .ok c ∧ (c ≤ 0 ↔ f a ≤ f b)) :
    insertBy comparator a as = .ok (as.orderedInsert (f · ≤ f ·) a) := by
  induction as with
  | nil => rfl
  | cons b bs ih =>
    obtain ⟨c, hc, hle⟩ := h b List.mem_cons_self
    have ih := ih fun b hb => h b (List.mem_cons_of_mem _ hb)
    refine insertBy_cons_eq_ok.mpr ⟨c, hc, ?_⟩
    rw [List.orderedInsert_cons]
    by_cases hab : f a ≤ f b
    · exact .inl ⟨hle.mpr hab, if_pos hab⟩
    · exact .inr ⟨not_le.mp (mt hle.mp hab), _, ih, if_neg hab⟩

theorem sortBy_eq {as : List α}
    (h : ∀ a ∈ as, ∀ b ∈ as, ∃ c, comparator a b = .ok c ∧ (c ≤ 0 ↔ f a ≤ f b)) :
    sortBy comparator as = .ok (as.insertionSort (f · ≤ f ·)) := by
  induction as with
  | nil => rfl
  | cons a as ih =>
    have ih := ih fun a ha b hb => h a (List.mem_cons_of_mem _ ha) b (List.mem_cons_of_mem _ hb)
    rw [sortBy, ih]
    refine insertBy_eq fun b hb => h a List.mem_cons_self b (List.mem_cons_of_mem _ ?_)
    exact (List.perm_insertionSort _ as).mem_iff.mp hb

end Comparator
