/-
Module: BattletechMux.Foundation.Insertion
Purpose: Sorting by insertion behind all elements that are not greater: the result is a permutation
  in non-decreasing order.
-/
import Mathlib

namespace Insertion

variable {α β : Type*} [LinearOrder β] (key : α → β)

def insert (e : α) : List α → List α
  | [] => [e]
  | x :: rest => if key e < key x then e :: x :: rest else x :: insert e rest

def sort (list : List α) : List α := list.foldl (fun sorted e => insert key e sorted) []

theorem insert_perm (e : α) (list : List α) : (insert key e list).Perm (e :: list) := by
  induction list with
  | nil => exact .refl _
  | cons x rest ih =>
    rw [insert]
    split_ifs
    · exact .refl _
    · exact (ih.cons x).trans (.swap e x rest)

theorem insert_sorted (e : α) {list : List α} (sorted : list.Pairwise fun a b => key a ≤ key b) :
    (insert key e list).Pairwise fun a b => key a ≤ key b := by
  induction list with
  | nil => exact List.pairwise_singleton _ e
  | cons x rest ih =>
    obtain ⟨least, later⟩ := List.pairwise_cons.mp sorted
    rw [insert]
    split_ifs with before
    · refine List.pairwise_cons.mpr ⟨fun other member => ?_, sorted⟩
      rcases List.mem_cons.mp member with rfl | behind
      · exact before.le
      · exact before.le.trans (least other behind)
    · refine List.pairwise_cons.mpr ⟨fun other member => ?_, ih later⟩
      rcases List.mem_cons.mp ((insert_perm key e rest).mem_iff.mp member) with rfl | behind
      · exact not_lt.mp before
      · exact least other behind

theorem foldl_insert_perm (list sorted : List α) :
    (list.foldl (fun sorted e => insert key e sorted) sorted).Perm (list ++ sorted) := by
  induction list generalizing sorted with
  | nil => exact .refl _
  | cons e rest ih =>
    exact (ih _).trans
      (((insert_perm key e sorted).append_left rest).trans List.perm_middle)

theorem sort_perm (list : List α) : (sort key list).Perm list := by
  have := foldl_insert_perm key list []
  rwa [List.append_nil] at this

theorem sort_sorted (list : List α) : (sort key list).Pairwise fun a b => key a ≤ key b := by
  have grown : ∀ sorted : List α, (sorted.Pairwise fun a b => key a ≤ key b) →
      (list.foldl (fun sorted e => insert key e sorted) sorted).Pairwise
        fun a b => key a ≤ key b := by
    induction list with
    | nil => exact fun sorted ordered => ordered
    | cons e rest ih =>
      exact fun sorted ordered => ih _ (insert_sorted key e ordered)
  exact grown [] .nil

end Insertion
