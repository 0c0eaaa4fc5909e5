/-
Module: BattletechMux.Foundation.Words
Purpose: The words of a text: what is between its separators, where there is anything.
-/
import Mathlib

namespace Words

open List

variable {α : Type*} (separator : α → Bool)

def words (text : List α) : List (List α) :=
  (text.splitOnP separator).filter fun word => !word.isEmpty

variable {separator}

theorem words_nil : words separator [] = [] := by
  simp [words, splitOnP_nil]

theorem words_separator {s : α} (separates : separator s = true) (rest : List α) :
    words separator (s :: rest) = words separator rest := by
  simp [words, splitOnP_cons_eq_if_modifyHead, separates]

theorem words_dropWhile (text : List α) :
    words separator (text.dropWhile separator) = words separator text := by
  induction text with
  | nil => rfl
  | cons s rest ih =>
    by_cases separates : separator s = true
    · rw [dropWhile_cons_of_pos separates, ih, words_separator separates]
    · rw [dropWhile_cons_of_neg separates]

theorem words_word {word : List α} (some' : word ≠ [])
    (whole : ∀ c ∈ word, separator c = false) {s : α} (separates : separator s = true)
    (rest : List α) : words separator (word ++ s :: rest) = word :: words separator rest := by
  rw [words, splitOnP_append_cons_of_forall_mem whole s separates, filter_cons_of_pos, words]
  simpa using some'

theorem words_last {word : List α} (some' : word ≠ [])
    (whole : ∀ c ∈ word, separator c = false) : words separator word = [word] := by
  rw [words, splitOnP_eq_singleton whole, filter_cons_of_pos, filter_nil]
  simpa using some'

theorem words_end (text : List α) {s : α} (separates : separator s = true) :
    words separator (text ++ [s]) = words separator text := by
  rw [words, splitOnP_append_cons text [] separates, splitOnP_nil, filter_append]
  simp [words]

theorem words_spaced (list : List (List α)) (some' : ∀ word ∈ list, word ≠ [])
    (whole : ∀ word ∈ list, ∀ c ∈ word, separator c = false) {s : α}
    (separates : separator s = true) :
    words separator (list.flatMap fun word => word ++ [s]) = list := by
  induction list with
  | nil => exact words_nil
  | cons word rest ih =>
    rw [flatMap_cons, append_assoc, singleton_append,
      words_word (some' word mem_cons_self) (whole word mem_cons_self) separates,
      ih (fun w member => some' w (mem_cons_of_mem _ member))
        fun w member => whole w (mem_cons_of_mem _ member)]

variable (separator) in
theorem splitOnP_room (text : List α) :
    ((text.splitOnP separator).map fun word => word.length + 1).sum = text.length + 1 := by
  induction text with
  | nil => simp [splitOnP_nil]
  | cons c rest ih =>
    rw [splitOnP_cons_eq_if_modifyHead]
    split
    · simp [ih]
      omega
    · cases pieces : rest.splitOnP separator with
      | nil => exact absurd pieces (splitOnP_ne_nil separator rest)
      | cons word others =>
        rw [pieces] at ih
        simp at ih ⊢
        omega

variable (separator) in
theorem words_room (text : List α) :
    ((words separator text).map fun word => word.length + 1).sum ≤ text.length + 1 := by
  rw [← splitOnP_room separator text]
  exact (List.Sublist.map _ filter_sublist).sum_le_sum fun _ _ => Nat.zero_le _

end Words
