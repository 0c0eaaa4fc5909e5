/-
Module: BattletechMux.Foundation.Delimited
Purpose: Texts of values written one behind another, each of which shows where it ends: reading them
  all, looking for one, and taking one out of the text.
-/
import Mathlib.Data.List.Basic

/-- Values whose texts show where they end, at least for those that are good. -/
structure Delimited (α β : Type*) where
  encode : α → List β
  decode : List β → α × List β
  Good : α → Prop
  decode_append : ∀ a, Good a → ∀ rest, decode (encode a ++ rest) = (a, rest)
  encode_ne_nil : ∀ a, Good a → encode a ≠ []

namespace Delimited

variable {α β : Type*} (code : Delimited α β)

def texts (values : List α) : List β := values.flatMap code.encode

/-- All values of a text; `limit` bounds the loop. -/
def decodeAll : Nat → List β → List α
  | 0, _ => []
  | _ + 1, [] => []
  | limit + 1, c :: text =>
    (code.decode (c :: text)).1 :: decodeAll limit (code.decode (c :: text)).2

theorem texts_cons (value : α) (values : List α) :
    code.texts (value :: values) = code.encode value ++ code.texts values := List.flatMap_cons

theorem length_le_texts {values : List α} (good : ∀ a ∈ values, code.Good a) :
    values.length ≤ (code.texts values).length := by
  induction values with
  | nil => exact Nat.le_refl _
  | cons value rest ih =>
    have some' := List.length_pos_iff.mpr (code.encode_ne_nil value (good value (by simp)))
    have others := ih fun a member => good a (by simp [member])
    rw [texts_cons, List.length_append, List.length_cons]
    omega

theorem decode_texts {value : α} {values : List α} (good : code.Good value) :
    ∃ c text, code.texts (value :: values) = c :: text ∧
      code.decode (c :: text) = (value, code.texts values) := by
  have read := code.decode_append value good (code.texts values)
  rw [← texts_cons] at read
  cases whole : code.texts (value :: values) with
  | nil =>
    rw [texts_cons, List.append_eq_nil_iff] at whole
    exact absurd whole.1 (code.encode_ne_nil value good)
  | cons c text =>
    rw [whole] at read
    exact ⟨c, text, rfl, read⟩

theorem decodeAll_texts {values : List α} (good : ∀ a ∈ values, code.Good a) {limit : Nat}
    (hlt : values.length < limit) : code.decodeAll limit (code.texts values) = values := by
  induction values generalizing limit with
  | nil =>
    obtain ⟨limit, rfl⟩ := Nat.exists_eq_succ_of_ne_zero (Nat.ne_of_gt hlt)
    rfl
  | cons value rest ih =>
    obtain ⟨limit, rfl⟩ := Nat.exists_eq_succ_of_ne_zero (Nat.ne_of_gt (Nat.zero_lt_of_lt hlt))
    obtain ⟨c, text, whole, read⟩ := @decode_texts _ _ code value rest (good value (by simp))
    rw [whole, decodeAll, read, ih (fun a member => good a (by simp [member]))
      (Nat.lt_of_succ_lt_succ hlt)]

variable [DecidableEq α]

def holds (value : α) : Nat → List β → Bool
  | 0, _ => false
  | _ + 1, [] => false
  | limit + 1, c :: text =>
    if (code.decode (c :: text)).1 = value then true
    else holds value limit (code.decode (c :: text)).2

/-- The text without the first occurrence of a value: what is behind it is read and written
again. -/
def erase (value : α) : Nat → List β → List β
  | 0, text => text
  | _ + 1, [] => []
  | limit + 1, c :: text =>
    if (code.decode (c :: text)).1 = value then
      code.texts (code.decodeAll limit (code.decode (c :: text)).2)
    else
      (c :: text).take ((c :: text).length - (code.decode (c :: text)).2.length) ++
        erase value limit (code.decode (c :: text)).2

theorem holds_texts {values : List α} (good : ∀ a ∈ values, code.Good a) (value : α)
    {limit : Nat} (hlt : values.length < limit) :
    code.holds value limit (code.texts values) = true ↔ value ∈ values := by
  induction values generalizing limit with
  | nil =>
    obtain ⟨limit, rfl⟩ := Nat.exists_eq_succ_of_ne_zero (Nat.ne_of_gt hlt)
    simp [texts, holds]
  | cons fst rest ih =>
    obtain ⟨limit, rfl⟩ := Nat.exists_eq_succ_of_ne_zero (Nat.ne_of_gt (Nat.zero_lt_of_lt hlt))
    obtain ⟨c, text, whole, read⟩ := @decode_texts _ _ code fst rest (good fst (by simp))
    have later := @ih (fun a member => good a (by simp [member])) limit
      (Nat.lt_of_succ_lt_succ hlt)
    rw [whole, holds, read, List.mem_cons]
    by_cases is : fst = value
    · simp [is]
    · simp only [if_neg is, later, or_iff_right (Ne.symm is)]

theorem erase_texts {values : List α} (good : ∀ a ∈ values, code.Good a) (value : α)
    {limit : Nat} (hlt : values.length < limit) :
    code.erase value limit (code.texts values) = code.texts (values.erase value) := by
  induction values generalizing limit with
  | nil =>
    obtain ⟨limit, rfl⟩ := Nat.exists_eq_succ_of_ne_zero (Nat.ne_of_gt hlt)
    rfl
  | cons fst rest ih =>
    obtain ⟨limit, rfl⟩ := Nat.exists_eq_succ_of_ne_zero (Nat.ne_of_gt (Nat.zero_lt_of_lt hlt))
    obtain ⟨c, text, whole, read⟩ := @decode_texts _ _ code fst rest (good fst (by simp))
    have rests : ∀ a ∈ rest, code.Good a := fun a member => good a (by simp [member])
    have fewer := Nat.lt_of_succ_lt_succ hlt
    rw [whole, erase, read]
    by_cases is : fst = value
    · rw [if_pos is, code.decodeAll_texts rests fewer, is, List.erase_cons_head]
    · have front : (c :: text).take ((c :: text).length - (code.texts rest).length) =
          code.encode fst := by
        rw [← whole, texts_cons, List.length_append, Nat.add_sub_cancel, List.take_left]
      rw [if_neg is, front, ih rests fewer,
        List.erase_cons_tail (by simpa using is), texts_cons]

end Delimited
