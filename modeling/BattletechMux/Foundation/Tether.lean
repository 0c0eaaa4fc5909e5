/-
Module: BattletechMux.Foundation.Tether
Purpose: A relation kept as a pointer on one side and a flag on the other.
-/
import Mathlib.Logic.Function.Basic
import Mathlib.Logic.ExistsUnique

namespace DoubleEntry

open Function (update update_self update_of_ne)

variable {Item : Type*}

/-- The flagged items are those that are held, each by one item. -/
structure Tether (hold : Item → Option Item) (flag : Item → Bool) : Prop where
  flagged : ∀ {holder item}, hold holder = some item → flag item = true
  held : ∀ {item}, flag item = true → ∃ holder, hold holder = some item
  single : ∀ {one two item}, hold one = some item → hold two = some item → one = two

namespace Tether

variable {hold : Item → Option Item} {flag : Item → Bool}

theorem flag_iff (tether : Tether hold flag) (item : Item) :
    flag item = true ↔ ∃! holder, hold holder = some item := by
  constructor
  · intro flagged
    obtain ⟨holder, h⟩ := tether.held flagged
    exact ⟨holder, h, fun o holdsToo => tether.single holdsToo h⟩
  · rintro ⟨holder, h, _⟩
    exact tether.flagged h

theorem not_held (tether : Tether hold flag) {item : Item} (loose : flag item = false)
    (holder : Item) : hold holder ≠ some item := by
  intro h
  have flagged := tether.flagged h
  simp [loose] at flagged

variable [DecidableEq Item]

theorem attach (tether : Tether hold flag) {holder item : Item} (free : hold holder = none)
    (loose : flag item = false) :
    Tether (update hold holder (some item)) (update flag item true) where
  flagged {o another} h := by
    by_cases eq : another = item
    · rw [eq, update_self]
    · rw [update_of_ne eq]
      by_cases here : o = holder
      · rw [here, update_self] at h
        exact absurd (Option.some.inj h).symm eq
      · rw [update_of_ne here] at h
        exact tether.flagged h
  held {another} flagged := by
    by_cases eq : another = item
    · exact ⟨holder, by rw [update_self, eq]⟩
    · rw [update_of_ne eq] at flagged
      obtain ⟨o, h⟩ := tether.held flagged
      have ne : o ≠ holder := by
        rintro rfl
        simp [free] at h
      exact ⟨o, by rw [update_of_ne ne, h]⟩
  single {one two another} fst snd := by
    have fromHolder : ∀ {o}, update hold holder (some item) o = some another →
        o = holder ∧ another = item ∨ o ≠ holder ∧ hold o = some another := by
      intro o h
      by_cases here : o = holder
      · rw [here, update_self] at h
        exact Or.inl ⟨here, (Option.some.inj h).symm⟩
      · rw [update_of_ne here] at h
        exact Or.inr ⟨here, h⟩
    rcases fromHolder fst with ⟨rfl, rfl⟩ | ⟨_, one'⟩
    · rcases fromHolder snd with ⟨here, _⟩ | ⟨_, two'⟩
      · exact here.symm
      · exact absurd two' (tether.not_held loose two)
    · rcases fromHolder snd with ⟨_, rfl⟩ | ⟨_, two'⟩
      · exact absurd one' (tether.not_held loose one)
      · exact tether.single one' two'

theorem detach (tether : Tether hold flag) {holder item : Item}
    (h : hold holder = some item) :
    Tether (update hold holder none) (update flag item false) where
  flagged {o another} holdsToo := by
    have ne : o ≠ holder := by
      rintro rfl
      simp at holdsToo
    rw [update_of_ne ne] at holdsToo
    have another_ne : another ≠ item := by
      rintro rfl
      exact ne (tether.single holdsToo h)
    rw [update_of_ne another_ne]
    exact tether.flagged holdsToo
  held {another} flagged := by
    have ne : another ≠ item := by
      rintro rfl
      simp at flagged
    rw [update_of_ne ne] at flagged
    obtain ⟨o, holdsToo⟩ := tether.held flagged
    have other_ne : o ≠ holder := by
      rintro rfl
      exact ne (Option.some.inj (holdsToo.symm.trans h))
    exact ⟨o, by rw [update_of_ne other_ne, holdsToo]⟩
  single {one two another} fst snd := by
    have kept : ∀ {o}, update hold holder none o = some another →
        hold o = some another := by
      intro o holdsToo
      by_cases here : o = holder
      · simp [here] at holdsToo
      · rwa [update_of_ne here] at holdsToo
    exact tether.single (kept fst) (kept snd)

end Tether

end DoubleEntry
