/-
Module: BattletechMux.Foundation.Packed
Purpose: Records of several words that lie one after another in a memory: where each starts, and
  what moving words and writing one of them does to what the memory stores.
-/
import Mathlib.Data.List.Basic
import Mathlib.Data.List.Flatten
import Mathlib.Logic.Function.Basic

namespace PackedMemory

open List

open Function (update)

variable {Word Record : Type*} {memory memory' : Nat → Word} {start : Nat}

def Stores (memory : Nat → Word) : Nat → List Word → Prop
  | _, [] => True
  | start, word :: rest => memory start = word ∧ Stores memory (start + 1) rest

@[simp] theorem stores_nil : Stores memory start [] := trivial

@[simp] theorem stores_cons {word : Word} {rest : List Word} :
    Stores memory start (word :: rest) ↔
      memory start = word ∧ Stores memory (start + 1) rest := Iff.rfl

theorem stores_append {fst snd : List Word} :
    Stores memory start (fst ++ snd) ↔
      Stores memory start fst ∧ Stores memory (start + fst.length) snd := by
  induction fst generalizing start with
  | nil => simp
  | cons word rest ih =>
    rw [cons_append, stores_cons, stores_cons, ih, and_assoc,
      length_cons, Nat.add_right_comm, Nat.add_assoc]

namespace Stores

theorem congr {words : List Word} (stored : Stores memory start words)
    (same : ∀ i, start ≤ i → i < start + words.length → memory' i = memory i) :
    Stores memory' start words := by
  induction words generalizing start with
  | nil => trivial
  | cons word rest ih =>
    have here : memory' start = memory start := same start (Nat.le_refl _) (by simp)
    refine ⟨here.trans stored.1, ih stored.2 fun i low high => ?_⟩
    exact same i (by omega) (by rw [length_cons]; omega)

theorem set {fst snd : List Word} {word : Word} (value : Word)
    (stored : Stores memory start (fst ++ word :: snd)) :
    Stores (update memory (start + fst.length) value) start (fst ++ value :: snd) := by
  rw [stores_append, stores_cons] at stored ⊢
  obtain ⟨pre, -, post⟩ := stored
  refine ⟨pre.congr fun i low high => ?_, Function.update_self .., post.congr fun i low high => ?_⟩
  · exact Function.update_of_ne (by omega) _ _
  · exact Function.update_of_ne (by omega) _ _

theorem get {words : List Word} (stored : Stores memory start words) {i : Nat}
    (hin : i < words.length) : memory (start + i) = words[i] := by
  induction words generalizing start i with
  | nil => exact absurd hin (Nat.not_lt_zero _)
  | cons word rest ih =>
    cases i with
    | zero => exact stored.1
    | succ i =>
      rw [getElem_cons_succ, ← ih stored.2 (Nat.lt_of_succ_lt_succ hin),
        Nat.add_right_comm, Nat.add_assoc]

end Stores

/-! ## Records -/

variable {words : Record → List Word} {records : List Record}

def offset (words : Record → List Word) (records : List Record) (index : Nat) : Nat :=
  ((records.take index).flatMap words).length

@[simp] theorem offset_zero : offset words records 0 = 0 := rfl

@[simp] theorem offset_length :
    offset words records records.length = (records.flatMap words).length := by
  rw [offset, take_length]

theorem offset_succ {index : Nat} (hin : index < records.length) :
    offset words records (index + 1) = offset words records index + (words records[index]).length := by
  rw [offset, take_succ_eq_append_getElem hin, flatMap_append, length_append,
    flatMap_cons, flatMap_nil, append_nil, offset]

@[simp] theorem offset_cons_succ {record : Record} (index : Nat) :
    offset words (record :: records) (index + 1) =
      (words record).length + offset words records index := by
  rw [offset, take_succ_cons, flatMap_cons, length_append, offset]

theorem offset_append_left {pre post : List Record} {index : Nat}
    (hin : index ≤ pre.length) :
    offset words (pre ++ post) index = offset words pre index := by
  rw [offset, take_append_of_le_length hin, offset]

theorem offset_append_right {pre post : List Record} (index : Nat) :
    offset words (pre ++ post) (pre.length + index) =
      (pre.flatMap words).length + offset words post index := by
  rw [offset, take_length_add_append, flatMap_append, length_append, offset]

theorem offset_lt (filled : ∀ record ∈ records, words record ≠ []) {fst snd : Nat}
    (less : fst < snd) (hin : snd ≤ records.length) :
    offset words records fst < offset words records snd := by
  induction snd with
  | zero => exact absurd less (Nat.not_lt_zero _)
  | succ snd ih =>
    have more : 0 < (words records[snd]).length :=
      length_pos_iff.mpr (filled _ (getElem_mem _))
    rw [offset_succ hin]
    rcases Nat.lt_succ_iff_lt_or_eq.mp less with pre | rfl
    · exact Nat.lt_add_right _ (ih pre (Nat.le_of_succ_le hin))
    · exact Nat.lt_add_of_pos_right more

theorem offset_inj (filled : ∀ record ∈ records, words record ≠ []) {fst snd : Nat}
    (insideFirst : fst ≤ records.length) (insideSecond : snd ≤ records.length)
    (same : offset words records fst = offset words records snd) : fst = snd := by
  rcases Nat.lt_trichotomy fst snd with less | equal | greater
  · exact absurd same (Nat.ne_of_lt (offset_lt filled less insideSecond))
  · exact equal
  · exact absurd same.symm (Nat.ne_of_lt (offset_lt filled greater insideFirst))

theorem Stores.record (stored : Stores memory start (records.flatMap words)) {index : Nat}
    (hin : index < records.length) :
    Stores memory (start + offset words records index) (words records[index]) := by
  have split : records = records.take index ++ records[index] :: records.drop (index + 1) := by
    rw [← drop_eq_getElem_cons hin, take_append_drop]
  rw [split, flatMap_append, flatMap_cons, stores_append, stores_append] at stored
  exact stored.2.1

end PackedMemory
