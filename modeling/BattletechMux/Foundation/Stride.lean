/-
Module: BattletechMux.Foundation.Stride
Purpose: Walks along a numbered way: the places after a start, one for each step.
-/
import Mathlib

namespace Stride

variable {Place : Type*} {way way' : Nat → Place} {start n : Nat}

/-- The places of a way after `start`. -/
def walk (way : Nat → Place) (start n : Nat) : List Place :=
  (List.range n).map fun k => way (start + k + 1)

theorem walk_zero : walk way start 0 = [] := rfl

theorem walk_succ : walk way start (n + 1) = way (start + 1) :: walk way (start + 1) n := by
  simp only [walk, List.range_succ_eq_map, List.map_cons, List.map_map, Nat.add_zero]
  congr 1
  refine List.map_congr_left fun k _ => ?_
  simp only [Function.comp_apply]
  congr 1
  omega

theorem length_walk : (walk way start n).length = n := by
  simp [walk]

theorem mem_walk {place : Place} :
    place ∈ walk way 0 n ↔ ∃ k, 0 < k ∧ k ≤ n ∧ way k = place := by
  constructor
  · intro member
    obtain ⟨k, inside, is⟩ := List.mem_map.mp member
    rw [List.mem_range] at inside
    exact ⟨0 + k + 1, by omega, by omega, is⟩
  · rintro ⟨k, positive, inside, is⟩
    refine List.mem_map.mpr ⟨k - 1, List.mem_range.mpr (by omega), ?_⟩
    rw [← is]
    congr 1
    omega

theorem walk_isChain {related : Place → Place → Prop}
    (steps : ∀ k, start ≤ k → k < start + n → related (way k) (way (k + 1))) :
    List.IsChain related (way start :: walk way start n) := by
  induction n generalizing start with
  | zero => exact List.IsChain.singleton _
  | succ n ih =>
    rw [walk_succ]
    refine List.isChain_cons_cons.mpr ⟨steps start (Nat.le_refl _) (by omega), ?_⟩
    exact ih fun k low high => steps k (by omega) (by omega)

theorem walk_last : walk way 0 (n + 1) = walk way 0 n ++ [way (n + 1)] := by
  simp [walk, List.range_succ]

theorem walk_getLast (some' : 0 < n) : (walk way 0 n).getLast? = some (way n) := by
  obtain ⟨n, rfl⟩ := Nat.exists_eq_succ_of_ne_zero (Nat.pos_iff_ne_zero.mp some')
  rw [walk_last, List.getLast?_concat]

theorem walk_dropLast : (walk way 0 n).dropLast = walk way 0 (n - 1) := by
  cases n with
  | zero => rfl
  | succ n => rw [walk_last, List.dropLast_concat, Nat.add_sub_cancel]

theorem walk_back {related : Place → Place → Prop}
    (beside : ∀ k, 0 < k → k < n → related (way (n - k)) (way' k)) :
    List.Forall₂ related (walk way 0 n).dropLast.reverse (walk way' 0 n).dropLast := by
  rw [walk_dropLast, walk_dropLast, List.forall₂_iff_get]
  refine ⟨by simp [length_walk], fun i inside inside' => ?_⟩
  rw [length_walk] at inside'
  simp only [walk, List.get_eq_getElem, List.getElem_reverse, List.getElem_map, List.getElem_range,
    List.length_map, List.length_range, Nat.zero_add]
  have step := beside (i + 1) (Nat.succ_pos i) (by omega)
  rwa [show n - (i + 1) = n - 1 - 1 - i + 1 by omega] at step

end Stride
