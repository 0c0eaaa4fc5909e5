/-
Module: BattletechMux.Foundation.Mirror
Purpose: A relation stored twice. Items sit on seats; every item knows its seat and every seat its
  item. The two records mirror each other when they say the same, and emptying a seat or seating an
  unseated item on an empty seat, done in both records, keeps them so.
-/
import Mathlib.Logic.Function.Basic

namespace DoubleEntry

open Function (update)

variable {Item Seat : Type*}

def Mirror (place : Item → Option Seat) (holder : Seat → Option Item) : Prop :=
  ∀ item seat, place item = some seat ↔ holder seat = some item

namespace Mirror

variable {place place' : Item → Option Seat} {holder holder' : Seat → Option Item}

variable {item : Item}

section

variable (mirror : Mirror place holder)
include mirror

theorem seat_unique {fst snd : Seat}
    (one : holder fst = some item) (two : holder snd = some item) : fst = snd := by
  have same := ((mirror item fst).mpr one).symm.trans ((mirror item snd).mpr two)
  exact Option.some.inj same

theorem not_held (unseated : place item = none) (seat : Seat) : holder seat ≠ some item := by
  intro held
  have seated := (mirror item seat).mpr held
  simp [unseated] at seated

theorem vacate [DecidableEq Item]
    (unseated : place' item = none) (others : ∀ o, o ≠ item → place' o = place o)
    (freed : ∀ seat, holder seat = some item → holder' seat = none)
    (kept : ∀ seat, holder seat ≠ some item → holder' seat = holder seat) :
    Mirror place' holder' := by
  intro o seat
  by_cases same : o = item
  · subst same
    rw [unseated]
    by_cases held : holder seat = some o
    · simp [freed seat held]
    · simp [kept seat held, held]
  · rw [others o same, mirror o seat]
    by_cases held : holder seat = some item
    · simp [freed seat held, held, Ne.symm same]
    · rw [kept seat held]

theorem assign [DecidableEq Item] [DecidableEq Seat] {seat : Seat} (unseated : place item = none)
    (empty : holder seat = none) :
    Mirror (update place item (some seat)) (update holder seat (some item)) := by
  intro o place
  by_cases same : o = item
  · subst same
    rw [Function.update_self]
    by_cases here : place = seat
    · subst here
      simp
    · simp [here, Ne.symm here, mirror.not_held unseated]
  · rw [Function.update_of_ne same]
    by_cases here : place = seat
    · subst here
      simp [mirror o place, empty, Ne.symm same]
    · rw [Function.update_of_ne here, mirror o place]

end

end Mirror

end DoubleEntry
