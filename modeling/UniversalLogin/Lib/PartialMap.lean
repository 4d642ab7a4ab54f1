import Mathlib.Data.Set.Card

/-!
# Partial maps on a finite type

A partial map is a function into `Option`. Its size is the number of its keys; inserting a new key
adds one to it and erasing a present key takes one away.
-/

namespace PartialMap

variable {α β : Type} [DecidableEq α] {f : α → Option β} {a k : α} {b : β}

def insert (f : α → Option β) (k : α) (b : β) : α → Option β := Function.update f k (some b)

def erase (f : α → Option β) (k : α) : α → Option β := Function.update f k none

@[simp] theorem insert_self : insert f k b k = some b := Function.update_self ..

@[simp] theorem erase_self : erase f k k = none := Function.update_self ..

theorem insert_of_ne (h : a ≠ k) : insert f k b a = f a := Function.update_of_ne h ..

theorem erase_of_ne (h : a ≠ k) : erase f k a = f a := Function.update_of_ne h ..

/-- Erasing an absent key changes nothing. -/
theorem erase_of_eq_none (h : f k = none) : erase f k = f := by
  rw [erase, ← h, Function.update_eq_self]

def dom (f : α → Option β) : Set α := {a | f a ≠ none}

omit [DecidableEq α] in
@[simp] theorem mem_dom : a ∈ dom f ↔ f a ≠ none := Iff.rfl

theorem dom_insert : dom (insert f k b) = Set.insert k (dom f) := by
  ext a
  by_cases h : a = k
  · subst h
    simp [Set.insert]
  · simp [insert_of_ne h, Set.insert, h]

theorem dom_erase : dom (erase f k) = dom f \ {k} := by
  ext a
  by_cases h : a = k
  · subst h
    simp
  · simp [erase_of_ne h, h]

/-- The number of keys. -/
noncomputable def size (f : α → Option β) : Nat := (dom f).ncard

omit [DecidableEq α] in
theorem size_empty : size (fun _ => none : α → Option β) = 0 := by simp [size, dom]

section
variable [Finite α]

theorem size_insert (h : f k = none) : size (insert f k b) = size f + 1 := by
  rw [size, dom_insert]
  exact Set.ncard_insert_of_notMem (by simpa using h) (Set.toFinite _)

theorem size_erase (h : f k ≠ none) : size (erase f k) + 1 = size f := by
  rw [size, dom_erase]
  exact Set.ncard_sdiff_singleton_add_one h (Set.toFinite _)

theorem size_le_size_erase : size f ≤ size (erase f k) + 1 := by
  by_cases h : f k = none
  · rw [erase_of_eq_none h]
    omega
  · rw [size_erase h]

omit [DecidableEq α] in
theorem one_le_size (h : f k ≠ none) : 1 ≤ size f :=
  (Set.ncard_pos (Set.toFinite _)).mpr ⟨k, h⟩

omit [DecidableEq α] in
/-- A map that leaves out some key has fewer keys than there are. -/
theorem size_lt_card (h : f k = none) : size f < Nat.card α := by
  rw [size, ← Set.ncard_univ]
  refine Set.ncard_lt_ncard ⟨Set.subset_univ _, fun hsub => ?_⟩ (Set.toFinite _)
  exact hsub (Set.mem_univ k) h

end

end PartialMap
