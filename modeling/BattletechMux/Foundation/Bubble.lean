/-
Module: BattletechMux.Foundation.Bubble
Purpose: Sorting by exchanging neighbours: passes over a list are repeated until one of them
  exchanges nothing.
-/
import Mathlib

namespace Bubble

open List

variable {α β : Type*} [LinearOrder β] (key : α → β)

def Sorted (list : List α) : Prop := list.Pairwise fun a b => key a ≤ key b

/-- A pass from its first element on: the list it leaves, and whether it exchanged any. -/
def carry : α → List α → List α × Bool
  | a, [] => ([a], false)
  | a, b :: rest =>
    if key b < key a then (b :: (carry a rest).1, true)
    else (a :: (carry b rest).1, (carry b rest).2)

def pass : List α → List α × Bool
  | [] => ([], false)
  | a :: rest => carry key a rest

/-- Passes until one exchanges nothing, if that is so within the limit. -/
def passes : Nat → List α → Option (List α)
  | 0, _ => none
  | limit + 1, list => if (pass key list).2 then passes limit (pass key list).1
      else some (pass key list).1

def sort (list : List α) : List α := (passes key (list.length + 1) list).getD list

variable {key}

theorem carry_perm (a : α) (list : List α) : (carry key a list).1.Perm (a :: list) := by
  induction list generalizing a with
  | nil => exact .refl _
  | cons b rest ih =>
    rw [carry]
    split
    · exact ((ih a).cons b).trans (.swap a b rest)
    · exact (ih b).cons a

theorem carry_sorted {a : α} {list : List α} (sorted : Sorted key (a :: list)) :
    carry key a list = (a :: list, false) := by
  induction list generalizing a with
  | nil => rfl
  | cons b rest ih =>
    obtain ⟨least, later⟩ := pairwise_cons.mp sorted
    have ordered : ¬ key b < key a := not_lt.mpr (least b mem_cons_self)
    rw [carry, if_neg ordered, ih later]

theorem carry_still {a : α} {list : List α} (still : (carry key a list).2 = false) :
    (carry key a list).1 = a :: list ∧ Sorted key (a :: list) := by
  induction list generalizing a with
  | nil => exact ⟨rfl, pairwise_singleton _ a⟩
  | cons b rest ih =>
    rw [carry] at still ⊢
    split at still
    · exact absurd still Bool.true_eq_false_eq_False
    · rename_i ordered
      obtain ⟨eq, sorted⟩ := ih still
      have before : key a ≤ key b := not_lt.mp ordered
      rw [if_neg ordered, eq]
      refine ⟨rfl, pairwise_cons.mpr ⟨fun c mem => ?_, sorted⟩⟩
      rcases mem_cons.mp mem with rfl | later
      · exact before
      · exact before.trans ((pairwise_cons.mp sorted).1 c later)

theorem carry_greatest (a : α) (list : List α) :
    ∃ front greatest, (carry key a list).1 = front ++ [greatest] ∧
      front.length = list.length ∧ ∀ x ∈ a :: list, key x ≤ key greatest := by
  induction list generalizing a with
  | nil => exact ⟨[], a, rfl, rfl, fun x mem => (mem_singleton.mp mem ▸ le_refl _)⟩
  | cons b rest ih =>
    rw [carry]
    split
    · rename_i exchanged
      obtain ⟨front, greatest, shape, length, most⟩ := ih a
      refine ⟨b :: front, greatest, by rw [shape, cons_append], by simp [length], ?_⟩
      intro x mem
      have last := most a mem_cons_self
      rcases mem_cons.mp mem with rfl | mem
      · exact last
      · rcases mem_cons.mp mem with rfl | later
        · exact exchanged.le.trans last
        · exact most x (mem_cons_of_mem a later)
    · rename_i ordered
      obtain ⟨front, greatest, shape, length, most⟩ := ih b
      refine ⟨a :: front, greatest, by rw [shape, cons_append], by simp [length], ?_⟩
      intro x mem
      rcases mem_cons.mp mem with rfl | later
      · exact (not_lt.mp ordered).trans (most b mem_cons_self)
      · exact most x later

theorem carry_append {a : α} {list behind : List α} (sorted : Sorted key behind)
    (least : ∀ x ∈ a :: list, ∀ y ∈ behind, key x ≤ key y) :
    carry key a (list ++ behind) = ((carry key a list).1 ++ behind, (carry key a list).2) := by
  induction list generalizing a with
  | nil =>
    exact carry_sorted (pairwise_cons.mpr ⟨least a mem_cons_self, sorted⟩)
  | cons b rest ih =>
    rw [cons_append, carry, carry]
    split
    · rw [ih fun x mem => least x (by
        rcases mem_cons.mp mem with rfl | later
        · exact mem_cons_self
        · exact mem_cons_of_mem a (mem_cons_of_mem b later))]
      rfl
    · rw [ih fun x mem => least x (mem_cons_of_mem a mem)]
      rfl

theorem passes_sorted (limit : Nat) {list : List α} (sorted : Sorted key list) :
    passes key (limit + 1) list = some list := by
  cases list with
  | nil => rfl
  | cons a rest =>
    rw [passes, pass, carry_sorted sorted]
    rfl

theorem passes_append (limit : Nat) {list behind : List α} (room : list.length ≤ limit)
    (sorted : Sorted key behind) (least : ∀ x ∈ list, ∀ y ∈ behind, key x ≤ key y) :
    ∃ result, passes key (limit + 1) (list ++ behind) = some result ∧
      result.Perm (list ++ behind) ∧ Sorted key result := by
  induction limit generalizing list behind with
  | zero =>
    obtain rfl := length_eq_zero_iff.mp (Nat.le_zero.mp room)
    exact ⟨behind, passes_sorted 0 sorted, .refl _, sorted⟩
  | succ limit ih =>
    cases list with
    | nil => exact ⟨behind, passes_sorted (limit + 1) sorted, .refl _, sorted⟩
    | cons a rest =>
      have passed : pass key (a :: rest ++ behind) =
          ((carry key a rest).1 ++ behind, (carry key a rest).2) := carry_append sorted least
      rw [passes, passed]
      dsimp only
      split
      · obtain ⟨front, greatest, shape, length, most⟩ := @carry_greatest α β _ key a rest
        have members : ∀ x ∈ front ++ [greatest], x ∈ a :: rest := fun x mem =>
          (carry_perm a rest).mem_iff.mp (shape ▸ mem)
        have behind' : Sorted key (greatest :: behind) :=
          pairwise_cons.mpr
            ⟨least greatest (members greatest (mem_append_right _ mem_cons_self)),
              sorted⟩
        have short : front.length ≤ limit := length ▸ Nat.le_of_succ_le_succ room
        have least' : ∀ x ∈ front, ∀ y ∈ greatest :: behind, key x ≤ key y := by
          intro x mem y there
          have inside := members x (mem_append_left _ mem)
          rcases mem_cons.mp there with rfl | later
          · exact most x inside
          · exact least x inside y later
        obtain ⟨result, done, perm, ordered⟩ := ih short behind' least'
        have regroup : (carry key a rest).1 ++ behind = front ++ greatest :: behind := by
          rw [shape, append_assoc]
          rfl
        rw [regroup]
        refine ⟨result, done, perm.trans ?_, ordered⟩
        rw [← regroup]
        exact (carry_perm a rest).append_right behind
      · rename_i still
        obtain ⟨eq, ordered⟩ := carry_still (Bool.eq_false_iff.mpr still)
        rw [eq]
        exact ⟨_, rfl, .refl _, pairwise_append.mpr ⟨ordered, sorted, least⟩⟩

theorem passes_sort (list : List α) :
    passes key (list.length + 1) list = some (sort key list) ∧
      (sort key list).Perm list ∧ Sorted key (sort key list) := by
  have least : ∀ x ∈ list, ∀ y ∈ ([] : List α), key x ≤ key y := fun x _ y mem =>
    absurd mem not_mem_nil
  obtain ⟨result, done, perm, ordered⟩ := passes_append list.length (le_refl _) .nil least
  rw [append_nil] at done perm
  have eq : sort key list = result := by rw [sort, done, Option.getD_some]
  rw [eq]
  exact ⟨done, perm, ordered⟩

variable (key)

theorem sort_perm (list : List α) : (sort key list).Perm list :=
  (@passes_sort α β _ key list).2.1

theorem sort_sorted (list : List α) : Sorted key (sort key list) :=
  (@passes_sort α β _ key list).2.2

end Bubble
