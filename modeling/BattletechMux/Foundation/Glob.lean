/-
Module: BattletechMux.Foundation.Glob
Purpose: The language of glob patterns. A pattern is a list of items; a string is in its language
  when strings can be put in for the wild items so that it comes out, the literals up to an
  equivalence of letters.
-/
import Mathlib.Data.List.Basic

namespace Glob

inductive Item (α : Type*) where
  /-- any string -/
  | star
  /-- any one letter -/
  | any
  | literal (c : α)
deriving DecidableEq, Repr

variable {α : Type*}

def wilds : List (Item α) → Nat
  | [] => 0
  | .star :: items => wilds items + 1
  | .any :: items => wilds items + 1
  | .literal _ :: items => wilds items

variable (same : α → α → Prop)

/-- Putting the strings in for the wild items, in order, gives the data. -/
inductive Fills : List (Item α) → List (List α) → List α → Prop
  | nil : Fills [] [] []
  | star {items : List (Item α)} {captures : List (List α)} {data : List α} (s : List α) :
      Fills items captures data → Fills (.star :: items) (s :: captures) (s ++ data)
  | any {items : List (Item α)} {captures : List (List α)} {data : List α} (d : α) :
      Fills items captures data → Fills (.any :: items) ([d] :: captures) (d :: data)
  | literal {items : List (Item α)} {captures : List (List α)} {data : List α} {c d : α} :
      same d c → Fills items captures data →
        Fills (.literal c :: items) captures (d :: data)

def Matches (items : List (Item α)) (data : List α) : Prop :=
  ∃ captures, Fills same items captures data

variable {same}

theorem Fills.length_eq {items : List (Item α)} {captures : List (List α)} {data : List α}
    (fills : Fills same items captures data) : captures.length = wilds items := by
  induction fills with
  | nil => rfl
  | star s _ ih => exact congrArg Nat.succ ih
  | any d _ ih => exact congrArg Nat.succ ih
  | literal _ _ ih => exact ih

theorem Fills.anys {items : List (Item α)} {captures : List (List α)} {data : List α}
    (fills : Fills same items captures data) (letters : List α) :
    Fills same (List.replicate letters.length .any ++ items)
      (letters.map (fun d => [d]) ++ captures) (letters ++ data) := by
  induction letters with
  | nil => exact fills
  | cons d letters ih => exact .any d ih

section Language

variable {items : List (Item α)} {data : List α}

@[simp] theorem matches_nil : Matches same [] data ↔ data = [] := by
  constructor
  · rintro ⟨captures, fills⟩
    cases fills
    rfl
  · rintro rfl
    exact ⟨[], .nil⟩

@[simp] theorem matches_literal {c : α} :
    Matches same (.literal c :: items) data ↔
      ∃ d rest, data = d :: rest ∧ same d c ∧ Matches same items rest := by
  constructor
  · rintro ⟨captures, fills⟩
    cases fills with
    | literal letter fills => exact ⟨_, _, rfl, letter, _, fills⟩
  · rintro ⟨d, rest, rfl, letter, captures, fills⟩
    exact ⟨captures, .literal letter fills⟩

@[simp] theorem matches_any :
    Matches same (.any :: items) data ↔
      ∃ d rest, data = d :: rest ∧ Matches same items rest := by
  constructor
  · rintro ⟨captures, fills⟩
    cases fills with
    | any d fills => exact ⟨d, _, rfl, _, fills⟩
  · rintro ⟨d, rest, rfl, captures, fills⟩
    exact ⟨[d] :: captures, .any d fills⟩

theorem matches_star :
    Matches same (.star :: items) data ↔
      ∃ s rest, data = s ++ rest ∧ Matches same items rest := by
  constructor
  · rintro ⟨captures, fills⟩
    cases fills with
    | star s fills => exact ⟨s, _, rfl, _, fills⟩
  · rintro ⟨s, rest, rfl, captures, fills⟩
    exact ⟨s :: captures, .star s fills⟩

@[simp] theorem matches_star_nil : Matches same [.star] data :=
  matches_star.mpr ⟨data, [], by simp, by simp⟩

theorem matches_star_any :
    Matches same (.star :: .any :: items) data ↔
      ∃ d rest, data = d :: rest ∧ Matches same (.star :: items) rest := by
  constructor
  · intro matched
    obtain ⟨s, tail, rfl, found⟩ := matches_star.mp matched
    obtain ⟨d, rest, rfl, later⟩ := matches_any.mp found
    cases s with
    | nil => exact ⟨d, rest, rfl, matches_star.mpr ⟨[], rest, rfl, later⟩⟩
    | cons first s =>
      exact ⟨first, s ++ d :: rest, rfl,
        matches_star.mpr ⟨s ++ [d], rest, by simp, later⟩⟩
  · rintro ⟨d, rest, rfl, matched⟩
    obtain ⟨s, tail, rfl, later⟩ := matches_star.mp matched
    rcases List.eq_nil_or_concat s with rfl | ⟨front, last, rfl⟩
    · exact matches_star.mpr ⟨[], d :: tail, rfl, matches_any.mpr ⟨d, tail, rfl, later⟩⟩
    · -- the star keeps the letters before the last one it had
      exact matches_star.mpr ⟨d :: front, last :: tail, by simp,
        matches_any.mpr ⟨last, tail, rfl, later⟩⟩

theorem matches_star_star :
    Matches same (.star :: .star :: items) data ↔ Matches same (.star :: items) data := by
  constructor
  · intro matched
    obtain ⟨s, tail, rfl, found⟩ := matches_star.mp matched
    obtain ⟨s', rest, rfl, later⟩ := matches_star.mp found
    exact matches_star.mpr ⟨s ++ s', rest, by simp, later⟩
  · intro matched
    exact matches_star.mpr ⟨[], data, rfl, matched⟩

theorem matches_star_literal {c : α} :
    Matches same (.star :: .literal c :: items) data ↔
      ∃ s d rest, data = s ++ d :: rest ∧ same d c ∧ Matches same items rest := by
  constructor
  · intro matched
    obtain ⟨s, tail, rfl, found⟩ := matches_star.mp matched
    obtain ⟨d, rest, rfl, letter, later⟩ := matches_literal.mp found
    exact ⟨s, d, rest, rfl, letter, later⟩
  · rintro ⟨s, d, rest, rfl, letter, later⟩
    exact matches_star.mpr ⟨s, d :: rest, rfl, matches_literal.mpr ⟨d, rest, rfl, letter, later⟩⟩

end Language

end Glob
