/-
Module: BattletechMux.Foundation.Lossy
Purpose: The account of a queue that may lose some of what is in it: what has been handed over and
  what still waits are what was queued, in order, without pieces that each stood first in the queue
  when they were lost.
-/
import Mathlib

namespace Lossy

variable {α : Type*}

/-- Of `queued`, `handed` has been handed over and `waiting` waits; `lost` were lost, in pieces
of `most` at most. A piece is what was lost after something had been handed over. -/
def Account (queued handed waiting : List α) (lost most : Nat) : Prop :=
  ∃ (pieces : List (List α × List α)) (later : List α),
    queued = pieces.flatMap (fun piece => piece.1 ++ piece.2) ++ later ++ waiting ∧
      handed = pieces.flatMap Prod.fst ++ later ∧
      lost = (pieces.map fun piece => piece.2.length).sum ∧
      ∀ piece ∈ pieces, piece.2.length ≤ most

namespace Account

variable {queued handed waiting some' : List α} {lost most : Nat}

theorem start : Account (α := α) [] [] [] 0 most :=
  ⟨[], [], rfl, rfl, rfl, fun _ member => absurd member List.not_mem_nil⟩

theorem queue (account : Account queued handed waiting lost most) (more : List α) :
    Account (queued ++ more) handed (waiting ++ more) lost most := by
  obtain ⟨pieces, later, all, given, counted, small⟩ := account
  refine ⟨pieces, later, ?_, given, counted, small⟩
  rw [all, List.append_assoc _ waiting]

theorem hand (account : Account queued handed (some' ++ waiting) lost most) :
    Account queued (handed ++ some') waiting lost most := by
  obtain ⟨pieces, later, all, given, counted, small⟩ := account
  refine ⟨pieces, later ++ some', ?_, ?_, counted, small⟩
  · rw [all]
    simp only [List.append_assoc]
  · rw [given, List.append_assoc]

theorem lose (account : Account queued handed (some' ++ waiting) lost most)
    (few : some'.length ≤ most) :
    Account queued handed waiting (lost + some'.length) most := by
  obtain ⟨pieces, later, all, given, counted, small⟩ := account
  refine ⟨pieces ++ [(later, some')], [], ?_, ?_, ?_, ?_⟩
  · rw [all]
    simp only [List.flatMap_append, List.flatMap_singleton, List.append_assoc, List.nil_append]
  · rw [given]
    simp only [List.flatMap_append, List.flatMap_singleton, List.append_nil]
  · rw [counted]
    simp only [List.map_append, List.map_cons, List.map_nil, List.sum_append, List.sum_singleton]
  · intro piece member
    rcases List.mem_append.mp member with old | new
    · exact small piece old
    · rw [List.mem_singleton.mp new]
      exact few

end Account

end Lossy
