/-
Module: BattletechMux.Foundation.Enclosure
Purpose: Things in places that are things themselves: when one thing is put into another place,
  nothing comes to be inside itself unless the place is that thing or inside it.
-/
import Mathlib.Logic.Relation

namespace Enclosure

open Relation (TransGen ReflTransGen)

variable {Thing : Type*} {within within' : Thing → Thing → Prop} {a b : Thing}

def Acyclic (within : Thing → Thing → Prop) : Prop := ∀ x, ¬TransGen within x x

theorem Acyclic.mono (acyclic : Acyclic within) (fewer : ∀ x y, within' x y → within x y) :
    Acyclic within' := fun x cycle => acyclic x (TransGen.mono fewer x x cycle)

theorem inside_cases (moved : ∀ x y, within' x y → within x y ∨ x = a ∧ y = b)
    (outside : ¬ReflTransGen within b a) {x y : Thing} (inside : TransGen within' x y) :
    TransGen within x y ∨ ReflTransGen within x a ∧ ReflTransGen within b y := by
  induction inside with
  | single step =>
    rcases moved _ _ step with step | ⟨rfl, rfl⟩
    · exact Or.inl (TransGen.single step)
    · exact Or.inr ⟨ReflTransGen.refl, ReflTransGen.refl⟩
  | tail earlier step ih =>
    rcases moved _ _ step with step | ⟨rfl, rfl⟩
    · rcases ih with old | ⟨toPlace, fromPlace⟩
      · exact Or.inl (old.tail step)
      · exact Or.inr ⟨toPlace, fromPlace.tail step⟩
    · rcases ih with old | ⟨_, fromPlace⟩
      · exact Or.inr ⟨old.to_reflTransGen, ReflTransGen.refl⟩
      · exact absurd fromPlace outside

theorem Acyclic.move (acyclic : Acyclic within)
    (moved : ∀ x y, within' x y → within x y ∨ x = a ∧ y = b)
    (outside : ¬ReflTransGen within b a) : Acyclic within' := by
  intro x cycle
  rcases inside_cases moved outside cycle with old | ⟨toPlace, fromPlace⟩
  · exact acyclic x old
  · exact outside (fromPlace.trans toPlace)

theorem reaches_without (kept : ∀ x y, x ≠ a → within x y → within' x y) {x : Thing}
    (reached : ReflTransGen within x a) : ReflTransGen within' x a := by
  induction reached using ReflTransGen.head_induction_on with
  | refl => exact ReflTransGen.refl
  | @head x y step _ ih =>
    by_cases here : x = a
    · rw [here]
    · exact ReflTransGen.head (kept x y here step) ih

theorem Acyclic.move_iff (acyclic : Acyclic within)
    (moved : ∀ x y, within' x y ↔ x ≠ a ∧ within x y ∨ x = a ∧ y = b) :
    Acyclic within' ↔ ¬ReflTransGen within b a := by
  constructor
  · intro acyclic' reached
    have back := reaches_without (fun x y other step => (moved x y).mpr (Or.inl ⟨other, step⟩))
      reached
    exact acyclic' a (TransGen.head' ((moved a b).mpr (Or.inr ⟨rfl, rfl⟩)) back)
  · intro outside
    refine acyclic.move (fun x y step => ?_) outside
    exact ((moved x y).mp step).imp And.right id

section Rank

variable {rank : Thing → Nat}

section

variable (falls : ∀ x y, within x y → rank y < rank x)
include falls

theorem rank_lt {x y : Thing} (inside : TransGen within x y) : rank y < rank x := by
  induction inside with
  | single step => exact falls _ _ step
  | tail _ step ih => exact Nat.lt_trans (falls _ _ step) ih

theorem Acyclic.of_rank : Acyclic within := fun _ cycle =>
  Nat.lt_irrefl _ (rank_lt falls cycle)

theorem not_inside_of_rank {x y : Thing} (low : rank x ≤ rank y) (apart : x ≠ y) :
    ¬ReflTransGen within x y := by
  intro inside
  rcases Relation.reflTransGen_iff_eq_or_transGen.mp inside with same | inside
  · exact apart same.symm
  · exact absurd (rank_lt falls inside) (Nat.not_lt.mpr low)

end

end Rank

end Enclosure
