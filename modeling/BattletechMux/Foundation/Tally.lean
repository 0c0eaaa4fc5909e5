/-
Module: BattletechMux.Foundation.Tally
Purpose: How many of the numbers below a bound have a property, and what it is worth when one of
  them gets or loses it.
-/
import Mathlib.Data.List.Range

namespace Tally

variable {p q : Nat → Bool} {n a : Nat}

/-- The number of the numbers below a bound that have a property. -/
def tally (p : Nat → Bool) (n : Nat) : Nat := (List.range n).countP p

@[simp] theorem tally_zero (p : Nat → Bool) : tally p 0 = 0 := rfl

theorem tally_succ (p : Nat → Bool) (n : Nat) :
    tally p (n + 1) = tally p n + if p n then 1 else 0 := by
  rw [tally, List.range_succ, List.countP_append, List.countP_singleton]
  rfl

theorem tally_congr (same : ∀ i < n, q i = p i) : tally q n = tally p n :=
  List.countP_congr fun i member => by rw [same i (List.mem_range.mp member)]

theorem tally_lose (inside : a < n) (had : p a = true) (lost : q a = false)
    (others : ∀ i, i ≠ a → q i = p i) : tally p n = tally q n + 1 := by
  induction n with
  | zero => exact absurd inside (Nat.not_lt_zero a)
  | succ n ih =>
    rw [tally_succ, tally_succ]
    by_cases last : a = n
    · subst last
      rw [tally_congr fun i below => others i (Nat.ne_of_lt below), had, lost]
      rfl
    · rw [ih (by omega), others n (Ne.symm last)]
      omega

theorem tally_pos (inside : a < n) (has : p a = true) : 0 < tally p n :=
  List.countP_pos_iff.mpr ⟨a, List.mem_range.mpr inside, has⟩

end Tally
