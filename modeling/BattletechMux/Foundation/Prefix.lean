/-
Module: BattletechMux.Foundation.Prefix
Purpose: Lists in arrays. An array is a function on the indices; a list sits in it when the first
  elements of the array are the items of the list.
-/
import Mathlib.Logic.Function.Basic
import Mathlib.Data.List.Range

namespace ArrayPrefix

open List hiding getElem?_eq_some_iff

open Function (update)

variable {α β : Type*}

def Holds (elem : Nat → α) (items : List α) : Prop :=
  ∀ i item, items[i]? = some item → elem i = item

theorem holds_nil (elem : Nat → α) : Holds elem [] := by
  intro i item hf
  simp at hf

variable {elem : Nat → α} {items : List α}

section

variable (holds : Holds elem items)
include holds

theorem Holds.map_range : (List.range items.length).map elem = items := by
  apply ext_getElem
  · simp
  · intro i below hin
    rw [getElem_map, getElem_range]
    exact holds i _ (getElem?_eq_getElem hin)

theorem Holds.set (i : Nat) (item : α) : Holds (update elem i item) (items.set i item) := by
  intro j o hf
  rw [getElem?_set] at hf
  by_cases same : i = j
  · subst same
    by_cases hin : i < items.length
    · simp only [hin, if_true, Option.some.injEq] at hf
      simpa using hf
    · simp [hin] at hf
  · rw [Function.update_of_ne (Ne.symm same)]
    simp only [same, if_false] at hf
    exact holds j o hf

theorem Holds.append (item : α) : Holds (update elem items.length item) (items ++ [item]) := by
  intro j o hf
  by_cases last : j = items.length
  · subst last
    simpa using hf
  · rw [Function.update_of_ne last]
    by_cases below : j < items.length
    · rw [getElem?_append_left below] at hf
      exact holds j o hf
    · have outside : (items ++ [item])[j]? = none := by
        rw [getElem?_eq_none_iff, length_append, length_singleton]
        omega
      rw [outside] at hf
      exact absurd hf (by simp)

theorem Holds.map {o : Nat → β} {f : α → β}
    (changed : ∀ i, i < items.length → o i = f (elem i)) : Holds o (items.map f) := by
  intro i item hf
  rw [getElem?_map, Option.map_eq_some_iff] at hf
  obtain ⟨pre, hin, rfl⟩ := hf
  obtain ⟨below, _⟩ := getElem?_eq_some_iff.mp hin
  rw [changed i below, holds i pre hin]

end

theorem foldl_update (g : Nat → α) (elem : Nat → α) (n : Nat) :
    (List.range n).foldl (fun elem i => update elem i (g i)) elem =
      fun i => if i < n then g i else elem i := by
  induction n with
  | zero => simp
  | succ n ih =>
    rw [range_succ, foldl_append, ih]
    funext i
    by_cases last : i = n
    · subst last
      simp
    · have below : i < n + 1 ↔ i < n := by omega
      simp [Function.update_of_ne last, below]

theorem Holds.filterMap_range (holds : Holds elem items) {limit : Nat}
    (short : items.length ≤ limit) {look : Nat → Option β} {see : α → Option β}
    (hin : ∀ i, i < items.length → look i = see (elem i))
    (outside : ∀ i, items.length ≤ i → look i = none) :
    (List.range limit).filterMap look = items.filterMap see := by
  obtain ⟨extra, rfl⟩ := Nat.exists_eq_add_of_le short
  rw [range_add, filterMap_append]
  have front : (List.range items.length).filterMap look =
      ((List.range items.length).map elem).filterMap see := by
    rw [filterMap_map]
    apply filterMap_congr
    intro i member
    exact hin i (mem_range.mp member)
  have back : ((List.range extra).map (items.length + ·)).filterMap look = [] := by
    rw [filterMap_map, filterMap_eq_nil_iff]
    intro i _
    exact outside _ (Nat.le_add_right _ _)
  rw [front, back, holds.map_range, append_nil]

end ArrayPrefix
