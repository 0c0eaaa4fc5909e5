/-
Module: BattletechMux.C3.Accounting
Purpose: C3 masters in the critical slots of a unit, from mech.c3.c and mech.utils.c, and what the
  functions count where masters stand in groups.
Trusted boundary: debug notices are left out
-/
import BattletechMux.Ammo.Slots
import BattletechMux.Foundation.Tiling

namespace BattletechMux.C3

section

open Ammo (Section Place CriticalSlot bombBaseIndex)

/-! ## Units -/

inductive MechType
  | mech | vehGround | vtol | vehNaval | spheroidDs | aero | mw | ds | bsuit
deriving DecidableEq, Repr

structure Unit where
  type : MechType
  isQuad : Bool
  criticals : Place → CriticalSlot

def larm : Section := 0
def rarm : Section := 1
def lleg : Section := 5
def rleg : Section := 6
def head : Section := 7

def aeroCockpit : Section := 4

def numCriticals : Nat := 12

def critsInLoc (mech : Unit) (index : Section) : Nat :=
  match mech.type with
  | .mech =>
    if index = head ∨ index = rleg ∨ index = lleg then 6
    else if (index = rarm ∨ index = larm) ∧ mech.isQuad = true then 6
    else numCriticals
  | .mw => 2
  | .aero => if index = aeroCockpit then 5 else numCriticals
  | _ => numCriticals

def getC3MasterSize (mech : Unit) : Nat := if mech.type = .mech then 5 else 1

def numBombs : Nat := 9
def specialBaseIndex : Nat := bombBaseIndex + numBombs
def c3Master : Int := 17

def slotAt (mech : Unit) (index : Section) (x : Nat) : CriticalSlot :=
  mech.criticals (index, Fin.ofNat 12 x)

def isC3Master (mech : Unit) (index : Section) (x : Nat) : Bool :=
  let t := (slotAt mech index x).type.toNat
  decide (t ≠ 0 ∧ (t : Int) - specialBaseIndex = c3Master)

def isFunctional (mech : Unit) (index : Section) (x : Nat) : Bool :=
  !(slotAt mech index x).isNonfunctional

/-! ## One master -/

/-- The values of `x` for which the outer loop of `isPartOfWorkingC3Master` enters the inner one, from
`x` on, for so many rounds: masters in front of `wStartCheck` are bumped over as a whole. -/
def checkedFrom (mech : Unit) (index : Section) (wStartCheck : Nat) : Nat → Nat → List Nat
  | 0, _ => []
  | rounds + 1, x =>
    if x < critsInLoc mech index then
      if isC3Master mech index x then
        if x < wStartCheck then
          checkedFrom mech index wStartCheck rounds (x + getC3MasterSize mech)
        else x :: checkedFrom mech index wStartCheck rounds (x + 1)
      else checkedFrom mech index wStartCheck rounds (x + 1)
    else []

/-- The slots that the inner loop looks at, each as often as it does. -/
def readSlots (mech : Unit) (index : Section) (slot : Nat) : List Nat :=
  (checkedFrom mech index (slot - (getC3MasterSize mech - 1)) numCriticals 0).flatMap fun x =>
    (List.range' x (getC3MasterSize mech)).filter fun y => decide (y ≠ slot)

/-- `isPartOfWorkingC3Master`; `none` when it reads beyond the slots of the section's array. -/
def isPartOfWorkingC3Master (mech : Unit) (index : Section) (slot : Nat) : Option Bool :=
  let slots := readSlots mech index slot
  if slots.all fun y => decide (y < numCriticals) then
    let wcWorkingSlots := (slots.filter (isFunctional mech index)).length
    some (decide (wcWorkingSlots = getC3MasterSize mech - 1))
  else none

/-! ## All masters -/

structure Counters where
  wcSlots : Nat
  wcWorkingSlots : Nat
  wcMasters : Nat

/-- One slot in the inner loop of `countWorkingC3MastersOnMech`. -/
def countWorkingSlot (mech : Unit) (x : Section) (c : Counters) (y : Nat) : Counters :=
  let c :=
    if isC3Master mech x y then
      { c with
        wcSlots := c.wcSlots + 1
        wcWorkingSlots :=
          if isFunctional mech x y then c.wcWorkingSlots + 1 else c.wcWorkingSlots }
    else c
  if c.wcSlots = getC3MasterSize mech then
    { c with
      wcSlots := 0
      wcMasters :=
        if c.wcWorkingSlots = getC3MasterSize mech then c.wcMasters + 1 else c.wcMasters }
  else c

def countWorkingC3MastersOnMech (mech : Unit) : Nat :=
  (List.finRange 8).foldl (fun wcMasters x =>
    ((List.range (critsInLoc mech x)).foldl (countWorkingSlot mech x) ⟨0, 0, wcMasters⟩).wcMasters) 0

/-- One slot in the inner loop of `countTotalC3MastersOnMech`, with `wcSlots` and `wcMasters`. -/
def countTotalSlot (mech : Unit) (x : Section) (c : Nat × Nat) (y : Nat) : Nat × Nat :=
  let wcSlots := if isC3Master mech x y then c.1 + 1 else c.1
  if wcSlots = getC3MasterSize mech then (0, c.2 + 1) else (wcSlots, c.2)

def countTotalC3MastersOnMech (mech : Unit) : Nat :=
  (List.finRange 8).foldl (fun wcMasters x =>
    ((List.range (critsInLoc mech x)).foldl (countTotalSlot mech x) (0, wcMasters)).2) 0

end

open List
open Ammo (Section Place CriticalSlot)

variable {mech : Unit} {index : Section}

/-! ## Layouts -/

def kindAt (mech : Unit) (index : Section) (x : Nat) : Option Nat :=
  if isC3Master mech index x then some (getC3MasterSize mech) else none

abbrev Grouped (mech : Unit) (index : Section) (groups : List (List Nat)) : Prop :=
  Tiling (kindAt mech index) (fun size => (size : Int)) (List.range (critsInLoc mech index)) groups

theorem kindAt_eq_some {x k : Nat} :
    kindAt mech index x = some k ↔ isC3Master mech index x = true ∧ k = getC3MasterSize mech := by
  rw [kindAt]
  split_ifs with master <;> simp [master, eq_comm]

theorem kindAt_eq_none {x : Nat} :
    kindAt mech index x = none ↔ isC3Master mech index x = false := by
  rw [kindAt]
  split_ifs with master <;> simp [master]

theorem size_pos (mech : Unit) : 0 < getC3MasterSize mech := by
  rw [getC3MasterSize]
  split_ifs <;> decide

theorem critsInLoc_le (mech : Unit) (index : Section) : critsInLoc mech index ≤ 12 := by
  rw [critsInLoc]
  split <;> (try split_ifs) <;> decide

def workingIn (mech : Unit) (index : Section) (group : List Nat) : Nat :=
  (group.filter (isFunctional mech index)).length

/-! ## Counts -/

/-- What is counted as working masters, when the slots that work add up from group to group. -/
def runningMasters (size : Nat) : Nat → List Nat → Nat
  | _, [] => 0
  | working, more :: rest =>
    (if working + more = size then 1 else 0) + runningMasters size (working + more) rest

theorem countWorking_block (group : List Nat) (some : group ≠ []) {c : Counters}
    (full : c.wcSlots + group.length = getC3MasterSize mech)
    (masters : ∀ y ∈ group, isC3Master mech index y = true) :
    group.foldl (countWorkingSlot mech index) c =
      ⟨0, c.wcWorkingSlots + workingIn mech index group, c.wcMasters +
        if c.wcWorkingSlots + workingIn mech index group = getC3MasterSize mech then 1 else 0⟩ := by
  induction group generalizing c with
  | nil => exact absurd rfl some
  | cons y rest ih =>
    rw [length_cons] at full
    have here := masters y mem_cons_self
    have working : workingIn mech index (y :: rest) =
        (if isFunctional mech index y then 1 else 0) + workingIn mech index rest := by
      rw [workingIn, filter_cons]
      split_ifs <;> simp [workingIn, Nat.add_comm]
    rw [foldl_cons]
    cases rest with
    | nil =>
      rw [length_nil] at full
      rw [foldl_nil, countWorkingSlot, working, here]
      simp only [if_true, full]
      split_ifs <;> simp_all [workingIn]
    | cons next rest =>
      rw [length_cons] at full
      have notYet : c.wcSlots + 1 ≠ getC3MasterSize mech := by omega
      have step : countWorkingSlot mech index c y =
          ⟨c.wcSlots + 1, if isFunctional mech index y then c.wcWorkingSlots + 1
            else c.wcWorkingSlots, c.wcMasters⟩ := by
        rw [countWorkingSlot, here]
        simp [notYet]
      rw [step, ih (by simp) (by rw [length_cons]; simp only; omega)
        fun z mem => masters z (mem_cons_of_mem y mem), working]
      split_ifs <;> simp_all <;> omega

variable {slots : List Nat}

theorem countWorking_tiling {groups : List (List Nat)}
    (tiling : Tiling (kindAt mech index) (fun size => (size : Int)) slots groups)
    (working masters : Nat) :
    (slots.foldl (countWorkingSlot mech index) ⟨0, working, masters⟩).wcMasters =
      masters +
        runningMasters (getC3MasterSize mech) working (groups.map (workingIn mech index)) := by
  induction tiling generalizing working masters with
  | nil => rfl
  | @skip y rest blocks plain later ih =>
    have step : countWorkingSlot mech index ⟨0, working, masters⟩ y = ⟨0, working, masters⟩ := by
      rw [countWorkingSlot, kindAt_eq_none.mp plain]
      simp [(size_pos mech).ne]
    rw [foldl_cons, step, ih]
  | @block k fst more rest blocks kinds full later ih =>
    obtain rfl := (kindAt_eq_some.mp (kinds fst mem_cons_self)).2
    have whole : (fst :: more).length = getC3MasterSize mech := Int.natCast_inj.mp full
    rw [foldl_append, countWorking_block (fst :: more) (by simp) (by rw [whole, Nat.zero_add])
      fun y mem => (kindAt_eq_some.mp (kinds y mem)).1, ih, map_cons,
      runningMasters]
    dsimp only
    omega

theorem countTotal_block (group : List Nat) (some : group ≠ []) {c : Nat × Nat}
    (full : c.1 + group.length = getC3MasterSize mech)
    (masters : ∀ y ∈ group, isC3Master mech index y = true) :
    group.foldl (countTotalSlot mech index) c = (0, c.2 + 1) := by
  induction group generalizing c with
  | nil => exact absurd rfl some
  | cons y rest ih =>
    rw [length_cons] at full
    have here := masters y mem_cons_self
    rw [foldl_cons]
    cases rest with
    | nil =>
      rw [length_nil] at full
      rw [foldl_nil, countTotalSlot, here]
      simp [full]
    | cons next rest =>
      rw [length_cons] at full
      have step : countTotalSlot mech index c y = (c.1 + 1, c.2) := by
        rw [countTotalSlot, here]
        simp only [if_true]
        rw [if_neg (by omega)]
      rw [step, ih (by simp) (by rw [length_cons]; simp only; omega)
        fun z mem => masters z (mem_cons_of_mem y mem)]

theorem countTotal_tiling {groups : List (List Nat)}
    (tiling : Tiling (kindAt mech index) (fun size => (size : Int)) slots groups) (masters : Nat) :
    slots.foldl (countTotalSlot mech index) (0, masters) = (0, masters + groups.length) := by
  induction tiling generalizing masters with
  | nil => rfl
  | @skip y rest blocks plain later ih =>
    have step : countTotalSlot mech index (0, masters) y = (0, masters) := by
      rw [countTotalSlot, kindAt_eq_none.mp plain]
      simp [(size_pos mech).ne]
    rw [foldl_cons, step, ih]
  | @block k fst more rest blocks kinds full later ih =>
    obtain rfl := (kindAt_eq_some.mp (kinds fst mem_cons_self)).2
    have whole : (fst :: more).length = getC3MasterSize mech := Int.natCast_inj.mp full
    rw [foldl_append, countTotal_block (fst :: more) (by simp) (by rw [whole, Nat.zero_add])
      fun y mem => (kindAt_eq_some.mp (kinds y mem)).1, ih,
      length_cons]
    congr 1
    dsimp only
    omega

theorem foldl_add_eq (f : Section → Nat) (sections : List Section) (start : Nat) :
    sections.foldl (fun count x => count + f x) start = start + (sections.map f).sum := by
  induction sections generalizing start with
  | nil => rfl
  | cons x rest ih =>
    rw [foldl_cons, ih, map_cons, sum_cons, Nat.add_assoc]

theorem countTotal_eq {groups : Section → List (List Nat)}
    (layout : ∀ index, Grouped mech index (groups index)) :
    countTotalC3MastersOnMech mech =
      ((List.finRange 8).map fun index => (groups index).length).sum := by
  have steps : (fun wcMasters x =>
      ((List.range (critsInLoc mech x)).foldl (countTotalSlot mech x) (0, wcMasters)).2) =
        fun count x => count + (groups x).length := by
    funext count x
    rw [countTotal_tiling (layout x)]
  rw [countTotalC3MastersOnMech, steps, foldl_add_eq, Nat.zero_add]

theorem countWorking_eq {groups : Section → List (List Nat)}
    (layout : ∀ index, Grouped mech index (groups index)) :
    countWorkingC3MastersOnMech mech = ((List.finRange 8).map fun index =>
      runningMasters (getC3MasterSize mech) 0 ((groups index).map (workingIn mech index))).sum := by
  have steps : (fun wcMasters x => ((List.range (critsInLoc mech x)).foldl
      (countWorkingSlot mech x) ⟨0, 0, wcMasters⟩).wcMasters) = fun count x => count +
        runningMasters (getC3MasterSize mech) 0 ((groups x).map (workingIn mech x)) := by
    funext count x
    rw [countWorking_tiling (layout x)]
  rw [countWorkingC3MastersOnMech, steps, foldl_add_eq, Nat.zero_add]

/-! ## One master -/

theorem checkedFrom_beyond {start rounds x n : Nat} (beyond : start ≤ x)
    (last : x + n = critsInLoc mech index) (hlt : n ≤ rounds) :
    checkedFrom mech index start rounds x = (List.range' x n).filter (isC3Master mech index) := by
  induction n generalizing x rounds with
  | zero =>
    cases rounds with
    | zero => rfl
    | succ rounds => rw [checkedFrom, if_neg (by omega), range'_zero, filter_nil]
  | succ n ih =>
    obtain ⟨rounds, rfl⟩ : ∃ r, rounds = r + 1 := ⟨rounds - 1, by omega⟩
    have next := @ih rounds (x + 1) (by omega) (by omega) (by omega)
    rw [checkedFrom, if_pos (by omega), if_neg (Nat.not_lt.mpr beyond), next, range'_succ,
      filter_cons]

theorem checkedFrom_tiling {earlier later : List (List Nat)} {own : List Nat}
    (tiling : Tiling (kindAt mech index) (fun size => (size : Int)) slots (earlier ++ own :: later))
    {slot : Nat} (within : slot ∈ own) {rounds x n : Nat} (places : slots = List.range' x n)
    (last : x + n = critsInLoc mech index) (hlt : n ≤ rounds) :
    checkedFrom mech index (slot - (getC3MasterSize mech - 1)) rounds x =
      (own :: later).flatten := by
  generalize whole : earlier ++ own :: later = blocks at tiling
  induction tiling generalizing earlier rounds x n with
  | nil => exact absurd whole (by simp)
  | @skip y rest blocks plain later' ih =>
    cases n with
    | zero => exact absurd places (by simp)
    | succ n =>
      obtain ⟨rounds, rfl⟩ : ∃ r, rounds = r + 1 := ⟨rounds - 1, by omega⟩
      rw [range'_succ] at places
      obtain ⟨rfl, more⟩ := cons.inj places
      rw [checkedFrom, if_pos (by omega), kindAt_eq_none.mp plain]
      exact ih more (by omega) (by omega) whole
  | @block k fst more rest blocks kinds full later' ih =>
    obtain rfl := (kindAt_eq_some.mp (kinds fst mem_cons_self)).2
    have size : (fst :: more).length = getC3MasterSize mech := Int.natCast_inj.mp full
    have total : (fst :: more).length + rest.length = n := by
      rw [← length_append, places, length_range']
    obtain ⟨m, rfl⟩ : ∃ m, n = getC3MasterSize mech + m := ⟨rest.length, by omega⟩
    have parts := places
    rw [← range'_append_1] at parts
    obtain ⟨here, behind⟩ := append_inj parts (by rw [size, length_range'])
    cases earlier with
    | nil =>
      -- the slot is in this group, of which nothing is bumped over
      obtain ⟨rfl, rfl⟩ := cons.inj whole
      have inRange := (mem_range'_1.mp (here ▸ within))
      have all := (Tiling.block kinds full later').flatten
      rw [checkedFrom_beyond (by omega) last hlt, ← places, all]
      refine filter_congr fun y _ => ?_
      rw [kindAt]
      split_ifs with master <;> simp [master]
    | cons block earlier =>
      obtain ⟨rfl, further⟩ := cons.inj whole
      -- the slot is in a later group, and so `wStartCheck` behind the first part of this one
      have inLater : slot ∈ rest := by
        have : slot ∈ blocks.flatten := by
          rw [← further]
          simp [within]
        rw [later'.flatten] at this
        exact (mem_filter.mp this).1
      have beyond := (mem_range'_1.mp (behind ▸ inLater)).1
      have pos := size_pos mech
      have master := (kindAt_eq_some.mp (kinds fst mem_cons_self)).1
      obtain rfl : fst = x := by
        rw [← Nat.succ_pred_eq_of_pos pos, range'_succ] at here
        exact (cons.inj here).1
      obtain ⟨rounds, rfl⟩ : ∃ r, rounds = r + 1 := ⟨rounds - 1, by omega⟩
      rw [checkedFrom, if_pos (by omega), master, if_pos rfl, if_pos (by omega)]
      exact ih behind (by omega) (by omega) further

theorem readSlots_eq {earlier later : List (List Nat)} {own : List Nat}
    (grouped : Grouped mech index (earlier ++ own :: later)) {slot : Nat} (within : slot ∈ own) :
    readSlots mech index slot = (own :: later).flatten.flatMap fun x =>
      (List.range' x (getC3MasterSize mech)).filter fun y => decide (y ≠ slot) := by
  have hlt : critsInLoc mech index ≤ numCriticals := critsInLoc_le mech index
  rw [readSlots, checkedFrom_tiling grouped within range_eq_range' (Nat.zero_add _) hlt]

/-! ## Accounting -/

structure Accounts (mech : Unit) (groups : Section → List (List Nat)) : Prop where
  /-- A part is of a working master when the other parts of its master work. -/
  part : ∀ index, ∀ group ∈ groups index, ∀ slot ∈ group,
    isPartOfWorkingC3Master mech index slot =
      some (decide (∀ other ∈ group, other ≠ slot → isFunctional mech index other = true))
  /-- All masters are counted. -/
  total : countTotalC3MastersOnMech mech =
    ((List.finRange 8).map fun index => (groups index).length).sum
  /-- Working masters are counted. -/
  working : countWorkingC3MastersOnMech mech = ((List.finRange 8).map fun index =>
    ((groups index).filter fun group =>
      decide (∀ slot ∈ group, isFunctional mech index slot = true)).length).sum
  /-- No slot is read that the section has not. -/
  inside : ∀ index, ∀ group ∈ groups index, ∀ slot ∈ group, ∀ y ∈ readSlots mech index slot,
    y < critsInLoc mech index

def overlap (m : Nat) : Nat := min (m + 1) (9 - m)

def weighted (mech : Unit) (index : Section) (start slot : Nat) : Nat :=
  ((List.range 9).map fun m =>
    if start + m ≠ slot ∧ isFunctional mech index (start + m) = true then overlap m else 0).sum

/-- A master of a mech is compared in the end with what the slots are not: these runs are all in the
section, and two of its slots do not work. -/
structure Broken (mech : Unit) (index : Section) (group : List Nat) : Prop where
  room : group.headD 0 + 8 < critsInLoc mech index
  broken : ∀ slot ∈ group, ∃ other ∈ group, other ≠ slot ∧ isFunctional mech index other = false
  weights : ∀ slot ∈ group, weighted mech index (group.headD 0) slot ≠ 4

/-- Masters of mechs are broken; where another unit has two in one section, no one of these works. -/
def Accountable (mech : Unit) (groups : Section → List (List Nat)) : Prop :=
  if mech.type = .mech then ∀ index, ∀ group ∈ groups index, Broken mech index group
  else ∀ index, 2 ≤ (groups index).length → ∀ group ∈ groups index, ∀ slot ∈ group,
    isFunctional mech index slot = false

variable {groups : List (List Nat)} {group : List Nat}

theorem group_eq (grouped : Grouped mech index groups) (mem : group ∈ groups) :
    ∃ start, group = List.range' start (getC3MasterSize mech) ∧
      start + getC3MasterSize mech ≤ critsInLoc mech index := by
  obtain ⟨k, fst, more, rfl, kinds, full⟩ := grouped.of_mem mem
  obtain rfl := (kindAt_eq_some.mp (kinds fst mem_cons_self)).2
  have places : (List.range (critsInLoc mech index)).map id =
      List.range' 0 (List.range (critsInLoc mech index)).length := by
    rw [map_id, length_range, range_eq_range']
  obtain ⟨start, -, high, is⟩ := grouped.consecutive places mem
  rw [map_id, Int.natCast_inj.mp full] at is
  rw [Int.natCast_inj.mp full, length_range, Nat.zero_add] at high
  exact ⟨start, is, high⟩

theorem flatten_nodup (grouped : Grouped mech index groups) :
    groups.flatten.Nodup ∧ ∀ y ∈ groups.flatten, y < critsInLoc mech index := by
  rw [grouped.flatten]
  exact ⟨nodup_range.filter _, fun y mem =>
    mem_range.mp (mem_filter.mp mem).1⟩

theorem isPartOfWorkingC3Master_eq {earlier later : List (List Nat)} {own : List Nat}
    (grouped : Grouped mech index (earlier ++ own :: later)) {slot : Nat} (within : slot ∈ own)
    (inside : ∀ y ∈ readSlots mech index slot, y < 12) :
    isPartOfWorkingC3Master mech index slot =
      some (decide (((own :: later).flatten.map fun x =>
        ((List.range' x (getC3MasterSize mech)).filter fun y =>
          decide (y ≠ slot ∧ isFunctional mech index y = true)).length).sum =
            getC3MasterSize mech - 1)) := by
  have all : ((readSlots mech index slot).all fun y => decide (y < numCriticals)) = true :=
    all_eq_true.mpr fun y mem => decide_eq_true (inside y mem)
  rw [isPartOfWorkingC3Master]
  simp only [all, if_true]
  rw [readSlots_eq grouped within, filter_flatMap, length_flatMap]
  congr 3
  refine congrArg List.sum (map_congr_left fun x _ => ?_)
  rw [filter_filter]
  congr 1
  refine filter_congr fun y _ => ?_
  cases isFunctional mech index y <;> simp

/-! ## Mechs -/

theorem size_mech (isMech : mech.type = .mech) : getC3MasterSize mech = 5 := if_pos isMech

theorem room_of_inside (isMech : mech.type = .mech)
    (grouped : Grouped mech index groups) {start : Nat} (mem : List.range' start 5 ∈ groups)
    (inside : ∀ y ∈ readSlots mech index start, y < critsInLoc mech index) :
    start + 8 < critsInLoc mech index := by
  obtain ⟨earlier, later, rfl⟩ := append_of_mem mem
  refine inside (start + 8) ?_
  rw [readSlots_eq grouped (by simp [mem_range'_1]), size_mech isMech]
  refine mem_flatMap.mpr ⟨start + 4, ?_, ?_⟩
  · simp [mem_range'_1]
  · simp [mem_range'_1]

theorem one_group (isMech : mech.type = .mech) (grouped : Grouped mech index groups)
    (room : ∀ group ∈ groups, group.headD 0 + 8 < critsInLoc mech index) (mem : group ∈ groups) :
    groups = [group] := by
  have high := critsInLoc_le mech index
  have shared : ∀ o ∈ groups, 4 ∈ o := fun o mine => by
    obtain ⟨start, rfl, -⟩ := group_eq grouped mine
    have := room _ mine
    rw [size_mech isMech] at this ⊢
    rw [range'_succ, headD_cons] at this
    exact mem_range'_1.mpr (by omega)
  cases groups with
  | nil => exact absurd mem not_mem_nil
  | cons one rest =>
    cases rest with
    | nil => rw [mem_singleton.mp mem]
    | cons two rest =>
      have apart := (pairwise_cons.mp (nodup_flatten.mp (flatten_nodup grouped).1).2).1
      exact absurd (shared two (by simp)) (apart two (by simp) (shared one (by simp)))

theorem sum_runs (works : Nat → Bool) (start : Nat) :
    ((List.range' start 5).map fun x =>
      ((List.range' x 5).filter fun y => works y).length).sum =
        ((List.range 9).map fun m => if works (start + m) = true then overlap m else 0).sum := by
  obtain ⟨count, counts⟩ : ∃ count : Nat → Nat, ∀ y, count y = if works y = true then 1 else 0 :=
    ⟨_, fun _ => rfl⟩
  have one (y : Nat) (rest : List Nat) : ((y :: rest).filter fun y => works y).length =
      count y + (rest.filter fun y => works y).length := by
    rw [filter_cons, counts]
    split_ifs <;> simp [Nat.add_comm]
  have times (m : Nat) : (if works (start + m) = true then overlap m else 0) =
      overlap m * count (start + m) := by
    rw [counts]
    split_ifs <;> simp
  simp only [times, range'_succ, range'_zero, map_cons, map_nil, one,
    filter_nil, length_nil, sum_cons, sum_nil, range_succ, range_zero,
    map_append, sum_append, nil_append, Nat.add_assoc]
  norm_num [overlap]
  ring

theorem isPartOfWorkingC3Master_mech (isMech : mech.type = .mech) {start : Nat}
    (grouped : Grouped mech index [List.range' start 5])
    (room : start + 8 < critsInLoc mech index) {slot : Nat} (within : slot ∈ List.range' start 5) :
    isPartOfWorkingC3Master mech index slot =
        some (decide (weighted mech index start slot = 4)) ∧
      ∀ y ∈ readSlots mech index slot, y < critsInLoc mech index := by
  have high := critsInLoc_le mech index
  have inside : ∀ y ∈ readSlots mech index slot, y < critsInLoc mech index := by
    intro y mem
    rw [@readSlots_eq mech index [] [] _ grouped _ within, size_mech isMech] at mem
    obtain ⟨x, run, mine⟩ := mem_flatMap.mp mem
    rw [flatten_singleton] at run
    have := mem_range'_1.mp run
    have := mem_range'_1.mp (mem_filter.mp mine).1
    omega
  refine ⟨?_, inside⟩
  rw [@isPartOfWorkingC3Master_eq mech index [] [] _ grouped _ within
    fun y mem => (inside y mem).trans_le high, size_mech isMech, flatten_singleton,
    sum_runs fun y => decide (y ≠ slot ∧ isFunctional mech index y = true)]
  refine congrArg some (decide_eq_decide.mpr (Eq.congr_left (congrArg List.sum ?_)))
  exact map_congr_left fun m _ => if_congr decide_eq_true_iff rfl rfl

theorem weighted_of_working {start slot : Nat} (within : slot ∈ List.range' start 5)
    (works : ∀ o ∈ List.range' start 5, o ≠ slot → isFunctional mech index o = true) :
    weighted mech index start slot ≠ 4 := by
  obtain ⟨low, less⟩ := mem_range'_1.mp within
  obtain ⟨i, rfl⟩ : ∃ i, slot = start + i := ⟨slot - start, by omega⟩
  have counted (m : Nat) (small : m < 5) (o : m ≠ i) :
      overlap m ≤ weighted mech index start (start + i) := by
    have here := works (start + m) (mem_range'_1.mpr (by omega)) (by omega)
    refine le_trans (le_of_eq ?_) (single_le_sum (fun _ _ => Nat.zero_le _) _
      (mem_map_of_mem (mem_range.mpr (show m < 9 by omega))))
    rw [if_pos ⟨by omega, here⟩]
  by_cases last : i = 4
  · have three (m : Nat) (small : m < 4) : isFunctional mech index (start + m) = true :=
      works (start + m) (mem_range'_1.mpr (by omega)) (by omega)
    subst last
    simp only [weighted, range_succ, range_zero, map_append, sum_append,
      nil_append, map_cons, map_nil, sum_cons, sum_nil]
    rw [if_pos ⟨by omega, three 0 (by decide)⟩, if_pos ⟨by omega, three 1 (by decide)⟩,
      if_pos ⟨by omega, three 2 (by decide)⟩, if_pos ⟨by omega, three 3 (by decide)⟩]
    simp only [overlap]
    omega
  · have := counted 4 (by decide) (Ne.symm last)
    simp only [overlap] at this
    omega

theorem runningMasters_one (size : group.length = getC3MasterSize mech) :
    runningMasters (getC3MasterSize mech) 0 [workingIn mech index group] =
      ([group].filter fun group =>
        decide (∀ slot ∈ group, isFunctional mech index slot = true)).length := by
  have whole : (0 + workingIn mech index group = getC3MasterSize mech) ↔
      ∀ slot ∈ group, isFunctional mech index slot = true := by
    rw [Nat.zero_add, workingIn, ← size]
    exact length_filter_eq_length_iff
  rw [runningMasters, runningMasters, filter_singleton]
  by_cases works : ∀ slot ∈ group, isFunctional mech index slot = true
  · rw [if_pos (whole.mpr works), decide_eq_true works]
    rfl
  · rw [if_neg fun all => works (whole.mp all), decide_eq_false works]
    rfl

theorem accounts_mech (isMech : mech.type = .mech) {groups : Section → List (List Nat)}
    (layout : ∀ index, Grouped mech index (groups index)) :
    Accounts mech groups ↔ ∀ index, ∀ group ∈ groups index, Broken mech index group := by
  have run (index : Section) (group : List Nat) (mem : group ∈ groups index) :
      ∃ start, group = List.range' start 5 ∧ group.headD 0 = start := by
    obtain ⟨start, rfl, -⟩ := group_eq (layout index) mem
    rw [size_mech isMech]
    exact ⟨start, rfl, rfl⟩
  constructor
  · intro accounts index group mem
    have room : ∀ o ∈ groups index, o.headD 0 + 8 < critsInLoc mech index :=
      fun o mine => by
        obtain ⟨start, rfl, head⟩ := run index o mine
        rw [head]
        exact room_of_inside isMech (layout index) mine
          (accounts.inside index _ mine start (by simp [mem_range'_1]))
    have only := layout index
    rw [one_group isMech (layout index) room mem] at only
    obtain ⟨start, rfl, head⟩ := run index group mem
    have here := room _ mem
    rw [head] at here
    have compared (slot : Nat) (within : slot ∈ List.range' start 5) :
        decide (weighted mech index start slot = 4) = decide (∀ o ∈ List.range' start 5,
          o ≠ slot → isFunctional mech index o = true) :=
      Option.some.inj ((isPartOfWorkingC3Master_mech isMech only here within).1.symm.trans
        (accounts.part index _ mem slot within))
    have broken (slot : Nat) (within : slot ∈ List.range' start 5) :
        ¬ ∀ o ∈ List.range' start 5, o ≠ slot → isFunctional mech index o = true :=
      fun works => weighted_of_working within works
        (decide_eq_decide.mp (compared slot within) |>.mpr works)
    refine ⟨by rwa [head], fun slot within => ?_, fun slot within four => ?_⟩
    · have := broken slot within
      push Not at this
      simpa using this
    · rw [head] at four
      exact broken slot within (decide_eq_decide.mp (compared slot within) |>.mp four)
  · intro broken
    have only (index : Section) (group : List Nat) (mem : group ∈ groups index) :
        groups index = [group] :=
      one_group isMech (layout index) (fun o mine => (broken index o mine).room) mem
    have one (index : Section) (group : List Nat) (mem : group ∈ groups index) (slot : Nat)
        (within : slot ∈ group) :
        isPartOfWorkingC3Master mech index slot =
            some (decide (weighted mech index (group.headD 0) slot = 4)) ∧
          ∀ y ∈ readSlots mech index slot, y < critsInLoc mech index := by
      have grouped := layout index
      have room := (broken index group mem).room
      rw [only index group mem] at grouped
      obtain ⟨start, rfl, head⟩ := run index group mem
      rw [head] at room ⊢
      exact isPartOfWorkingC3Master_mech isMech grouped room within
    refine ⟨fun index group mem slot within => ?_, countTotal_eq layout, ?_,
      fun index group mem slot within => (one index group mem slot within).2⟩
    · have known := broken index group mem
      obtain ⟨o, mine, away, out⟩ := known.broken slot within
      rw [(one index group mem slot within).1, decide_eq_false (known.weights slot within),
        decide_eq_false fun works => ?_]
      rw [works o mine away] at out
      exact absurd out (by decide)
    · rw [countWorking_eq layout]
      refine congrArg List.sum (map_congr_left fun index _ => ?_)
      cases listed : groups index with
      | nil => rfl
      | cons group rest =>
        have mem : group ∈ groups index := by rw [listed]; exact mem_cons_self
        obtain ⟨start, is, -⟩ := run index group mem
        rw [← listed, only index group mem]
        exact runningMasters_one (by rw [is, length_range', size_mech isMech])

/-! ## Other units -/

theorem size_other (isOther : mech.type ≠ .mech) : getC3MasterSize mech = 1 := if_neg isOther

theorem isPartOfWorkingC3Master_other (isOther : mech.type ≠ .mech)
    {earlier later : List (List Nat)} {slot : Nat}
    (grouped : Grouped mech index (earlier ++ [slot] :: later)) :
    isPartOfWorkingC3Master mech index slot =
        some (decide (∀ y ∈ later.flatten, isFunctional mech index y = false)) ∧
      ∀ y ∈ readSlots mech index slot, y < critsInLoc mech index := by
  have high := critsInLoc_le mech index
  obtain ⟨once, slots⟩ := flatten_nodup grouped
  have inside : ∀ y ∈ readSlots mech index slot, y < critsInLoc mech index := by
    intro y mem
    rw [readSlots_eq grouped mem_cons_self, size_other isOther] at mem
    obtain ⟨x, run, mine⟩ := mem_flatMap.mp mem
    obtain rfl : y = x := by simpa using (mem_filter.mp mine).1
    refine slots y ?_
    rw [flatten_append]
    exact mem_append_right _ run
  refine ⟨?_, inside⟩
  rw [isPartOfWorkingC3Master_eq grouped mem_cons_self
    fun y mem => (inside y mem).trans_le high, size_other isOther]
  congr 1
  rw [decide_eq_decide, Nat.sub_self, sum_eq_zero_iff]
  have away : slot ∉ later.flatten := by
    rw [flatten_append, flatten_cons] at once
    have := (nodup_append.mp once).2.1
    exact (nodup_cons.mp this).1
  constructor
  · intro none y mem
    have zero := none _ (mem_map_of_mem (mem_append_right [slot] mem))
    have o : y ≠ slot := fun eq => away (eq ▸ mem)
    simpa [range'_succ, o] using zero
  · intro out count mem
    obtain ⟨y, mine, rfl⟩ := mem_map.mp mem
    rcases mem_append.mp mine with own | behind
    · obtain rfl := mem_singleton.mp own
      simp [range'_succ]
    · simp [range'_succ, out y behind]

theorem runningMasters_out {rest : List (List Nat)}
    (out : ∀ y ∈ rest.flatten, isFunctional mech index y = false) (working : Nat) :
    runningMasters 1 working (rest.map (workingIn mech index)) =
      if working = 1 then rest.length else 0 := by
  induction rest with
  | nil => simp [runningMasters]
  | cons group rest ih =>
    have here : workingIn mech index group = 0 := by
      rw [workingIn, length_eq_zero_iff, filter_eq_nil_iff]
      intro y mem
      simp [out y (mem_flatten.mpr ⟨group, mem_cons_self, mem⟩)]
    rw [map_cons, runningMasters, here, Nat.add_zero,
      ih fun y mem => out y (mem_append_right _ mem), length_cons]
    split_ifs <;> omega

theorem counts_of_out {slot : Nat} {rest : List (List Nat)} (some : ∀ group ∈ rest, group ≠ [])
    (out : ∀ y ∈ rest.flatten, isFunctional mech index y = false) :
    runningMasters 1 0 (([slot] :: rest).map (workingIn mech index)) =
        (if isFunctional mech index slot = true then 1 + rest.length else 0) ∧
      ((([slot] :: rest).filter fun group =>
        decide (∀ y ∈ group, isFunctional mech index y = true)).length) =
          if isFunctional mech index slot = true then 1 else 0 := by
  have none : (rest.filter fun group =>
      decide (∀ y ∈ group, isFunctional mech index y = true)) = [] := by
    refine filter_eq_nil_iff.mpr fun group mem => ?_
    obtain ⟨y, mine⟩ := exists_mem_of_ne_nil group (some group mem)
    simp only [decide_eq_true_eq]
    intro works
    have := out y (mem_flatten.mpr ⟨group, mem, mine⟩)
    rw [works y mine] at this
    exact absurd this (by decide)
  rw [map_cons, runningMasters, runningMasters_out out, filter_cons, none]
  cases works : isFunctional mech index slot <;> simp [workingIn, works]

theorem eq_of_sum_eq {sections : List Section} {f g : Section → Nat}
    (le : ∀ index ∈ sections, f index ≤ g index)
    (eq : (sections.map f).sum = (sections.map g).sum) :
    ∀ index ∈ sections, f index = g index := by
  induction sections with
  | nil => exact fun _ mem => absurd mem not_mem_nil
  | cons fst rest ih =>
    have here := le fst mem_cons_self
    have behind := fun index mem => le index (mem_cons_of_mem fst mem)
    have total : (rest.map f).sum ≤ (rest.map g).sum := sum_le_sum behind
    rw [map_cons, map_cons, sum_cons, sum_cons] at eq
    exact forall_mem_cons.mpr ⟨by omega, ih behind (by omega)⟩

theorem accounts_other (isOther : mech.type ≠ .mech) {groups : Section → List (List Nat)}
    (layout : ∀ index, Grouped mech index (groups index)) :
    Accounts mech groups ↔ ∀ index, 2 ≤ (groups index).length → ∀ group ∈ groups index,
      ∀ slot ∈ group, isFunctional mech index slot = false := by
  have single (index : Section) (group : List Nat) (mem : group ∈ groups index) :
      ∃ slot, group = [slot] := by
    obtain ⟨start, rfl, -⟩ := group_eq (layout index) mem
    rw [size_other isOther]
    exact ⟨start, rfl⟩
  have compared (index : Section) {earlier later : List (List Nat)} {slot : Nat}
      (split : groups index = earlier ++ [slot] :: later) :
      isPartOfWorkingC3Master mech index slot =
          some (decide (∀ y ∈ later.flatten, isFunctional mech index y = false)) ∧
        ∀ y ∈ readSlots mech index slot, y < critsInLoc mech index :=
    isPartOfWorkingC3Master_other isOther (split ▸ layout index)
  constructor
  · intro accounts
    have out (index : Section) {slot : Nat} {rest : List (List Nat)}
        (listed : groups index = [slot] :: rest) :
        ∀ y ∈ rest.flatten, isFunctional mech index y = false := by
      have part := accounts.part index [slot] (by rw [listed]; exact mem_cons_self) slot
        mem_cons_self
      rw [(@compared index [] _ _ listed).1] at part
      have all : decide (∀ o ∈ [slot], o ≠ slot → isFunctional mech index o = true) =
          true := decide_eq_true fun o mine away => absurd (mem_singleton.mp mine) away
      rw [all] at part
      exact of_decide_eq_true (Option.some.inj part)
    have counts (index : Section) : ((groups index).filter fun group =>
        decide (∀ slot ∈ group, isFunctional mech index slot = true)).length ≤
        runningMasters (getC3MasterSize mech) 0 ((groups index).map (workingIn mech index)) ∧
        (((groups index).filter fun group =>
          decide (∀ slot ∈ group, isFunctional mech index slot = true)).length =
            runningMasters (getC3MasterSize mech) 0 ((groups index).map (workingIn mech index)) →
          2 ≤ (groups index).length → ∀ group ∈ groups index, ∀ slot ∈ group,
            isFunctional mech index slot = false) := by
      rw [size_other isOther]
      cases listed : groups index with
      | nil => exact ⟨Nat.zero_le _, fun _ two => absurd two (by decide)⟩
      | cons group rest =>
        obtain ⟨slot, rfl⟩ := single index group (by rw [listed]; exact mem_cons_self)
        have behind := out index listed
        obtain ⟨running, working⟩ := @counts_of_out mech index slot rest (fun o mem none => by
          obtain ⟨_, is⟩ := single index o (by rw [listed]; exact .tail _ mem)
          exact absurd (is.symm.trans none) (by simp)) behind
        rw [running, working, length_cons]
        refine ⟨by split_ifs <;> omega, fun eq two => ?_⟩
        have fst : isFunctional mech index slot = false := by
          by_contra works
          rw [Bool.not_eq_false] at works
          rw [if_pos works, if_pos works] at eq
          omega
        refine forall_mem_cons.mpr ⟨fun y mine => mem_singleton.mp mine ▸ fst,
          fun o mem y mine => behind y (mem_flatten.mpr ⟨o, mem, mine⟩)⟩
    have eq := accounts.working
    rw [countWorking_eq layout] at eq
    exact fun index => (counts index).2
      (eq_of_sum_eq (fun index _ => (counts index).1) eq.symm index (mem_finRange index))
  · intro out
    refine ⟨fun index group mem slot within => ?_, countTotal_eq layout, ?_,
      fun index group mem slot within => ?_⟩
    · obtain ⟨slot', rfl⟩ := single index group mem
      obtain rfl := mem_singleton.mp within
      obtain ⟨earlier, later, split⟩ := append_of_mem mem
      rw [(compared index split).1, decide_eq_true fun y mine => ?_, decide_eq_true
        fun o mine away => absurd (mem_singleton.mp mine) away]
      obtain ⟨o, behind, here⟩ := mem_flatten.mp mine
      have pos := length_pos_of_mem behind
      exact out index (by rw [split, length_append, length_cons]; omega) o
        (by rw [split]; exact mem_append_right _ (.tail _ behind)) y here
    · rw [countWorking_eq layout]
      refine congrArg List.sum (map_congr_left fun index _ => ?_)
      cases listed : groups index with
      | nil => rfl
      | cons group rest =>
        obtain ⟨slot, rfl⟩ := single index group (by rw [listed]; exact mem_cons_self)
        cases rest with
        | nil => exact runningMasters_one (by rw [size_other isOther]; rfl)
        | cons next rest =>
          have none := out index (by rw [listed, length_cons, length_cons]; omega)
          rw [listed] at none
          obtain ⟨running, working⟩ := @counts_of_out mech index slot (next :: rest)
              (fun o mem empty => by
            obtain ⟨_, is⟩ := single index o (by rw [listed]; exact .tail _ mem)
            exact absurd (is.symm.trans empty) (by simp)) fun y mine => by
              obtain ⟨o, behind, here⟩ := mem_flatten.mp mine
              exact none o (.tail _ behind) y here
          have fst := none [slot] mem_cons_self slot mem_cons_self
          rw [size_other isOther, running, working, fst]
          rfl
    · obtain ⟨slot', rfl⟩ := single index group mem
      obtain rfl := mem_singleton.mp within
      obtain ⟨earlier, later, split⟩ := append_of_mem mem
      exact (compared index split).2

/-- C3 masters are accounted for if and only if they are broken. -/
theorem accounts_iff {groups : Section → List (List Nat)}
    (layout : ∀ index, Grouped mech index (groups index)) :
    Accounts mech groups ↔ Accountable mech groups := by
  rw [Accountable]
  split_ifs with isMech
  · exact accounts_mech isMech layout
  · exact accounts_other isMech layout

/-! ## A master -/

def withMaster (type : MechType) (slots : List Nat) : Unit where
  type := type
  isQuad := false
  criticals := fun place =>
    if place.1 = 2 ∧ place.2.val ∈ slots then
      ⟨0, BitVec.ofNat 16 (specialBaseIndex + 17), 0, 0, none⟩
    else ⟨0, 0, 0, 0, none⟩

def oneMaster (slots : List Nat) : Section → List (List Nat) :=
  fun index => if index = 2 then [slots] else []

theorem grouped_empty (type : MechType) (slots : List Nat) {index : Section} (away : index ≠ 2) :
    Grouped (withMaster type slots) index (oneMaster slots index) := by
  rw [oneMaster, if_neg away]
  refine .of_none fun y _ => kindAt_eq_none.mpr ?_
  simp [isC3Master, slotAt, withMaster, away]

theorem layout_vehicle (index : Section) :
    Grouped (withMaster .vehGround [0]) index (oneMaster [0] index) := by
  by_cases here : index = 2
  · subst here
    exact @Tiling.block _ _ (kindAt (withMaster .vehGround [0]) 2) _ 1 0 []
      [1, 2, 3, 4, 5, 6, 7, 8, 9, 10, 11] [] (by decide) rfl (.of_none (by decide))
  · exact grouped_empty _ _ here

theorem layout_mech (index : Section) :
    Grouped (withMaster .mech [0, 1, 2, 3, 4]) index (oneMaster [0, 1, 2, 3, 4] index) := by
  by_cases here : index = 2
  · subst here
    exact @Tiling.block _ _ (kindAt (withMaster .mech [0, 1, 2, 3, 4]) 2) _ 5 0 [1, 2, 3, 4]
      [5, 6, 7, 8, 9, 10, 11] [] (by decide) rfl (.of_none (by decide))
  · exact grouped_empty _ _ here

/-- The single master of a vehicle is accounted for. -/
theorem accounts_vehicle : Accounts (withMaster .vehGround [0]) (oneMaster [0]) :=
  (accounts_iff layout_vehicle).mpr fun index two => by
    have one : (oneMaster [0] index).length ≤ 1 := by
      rw [oneMaster]
      split_ifs <;> decide
    omega

/-- A part of a mech's master is not found to be of a working one when all of it works. -/
theorem whole_master_is_broken :
    (∀ index, Grouped (withMaster .mech [0, 1, 2, 3, 4]) index (oneMaster [0, 1, 2, 3, 4] index)) ∧
      ¬ Accounts (withMaster .mech [0, 1, 2, 3, 4]) (oneMaster [0, 1, 2, 3, 4]) := by
  refine ⟨layout_mech, fun accounts => ?_⟩
  have part := accounts.part 2 [0, 1, 2, 3, 4] (by decide) 0 (by decide)
  have compared :
      isPartOfWorkingC3Master (withMaster .mech [0, 1, 2, 3, 4]) 2 0 = some false := by
    decide
  rw [compared] at part
  exact absurd part (by decide)

end BattletechMux.C3
