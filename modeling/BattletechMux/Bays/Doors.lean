/-
Module: BattletechMux.Bays.Doors
Purpose: The bays of DropShips, the hexes at their doors and the search for the ship of a hex,
  from ds.bay.c: a number has a direction exactly if there are that many doors.
Trusted boundary: the checks that commands make of speed, height, locks and pilots are left out
-/
import BattletechMux.C3.Accounting
import BattletechMux.MapFile.Format

namespace BattletechMux.Bays

open MapFile (dirs)

section

open Ammo (Section Critical Place CriticalSlot has destroyedMode)
open C3 (specialBaseIndex)

/-! ## Ships -/

def numBays : Nat := 4

/-- The sections that face away from the nose on, in the order of `dirs`. -/
def dir2loc : List Section := [5, 0, 3, 4, 2, 1]

def aeroDoor : Nat := specialBaseIndex + 26
def mechDoor : Nat := specialBaseIndex + 27

/-- What the bays need of a `MECH`; the facing is kept from 0 to 359. -/
structure DropShip where
  isDS : Bool
  landed : Bool
  criticals : Place → CriticalSlot
  facing : Nat
  x : Int
  y : Int
  bay : Fin numBays → Int

abbrev Hex := Int × Int

/-- What is read from tables, unless a subscript is outside. -/
abbrev Access (α : Type) := Option α

def subscript {α : Type} (table : List α) (i : Int) : Access α :=
  if 0 ≤ i then table[i.toNat]? else none

namespace DropShip

variable (ds : DropShip)

def aeroBay (i : Int) : Access Int := subscript (List.ofFn ds.bay) i

def dsBearMod : Nat := (ds.facing + 30) / 60 % 6

/-! ## Numbers and directions -/

/-- A slot of the section in a direction has a door of one kind or the other. -/
def hasDoor (i : Nat) : Bool :=
  (List.finRange 12).any fun j =>
    let type := (ds.criticals (dir2loc.getD (i % 6) 0, j)).type.toNat
    type == mechDoor || type == aeroDoor

/-- The loop of `Find_DS_Bay_Number` from its round `i` on. -/
def numberLoop (door : Nat → Bool) (dir : Nat) : Nat → Nat → Int → Int
  | 0, _, _ => -1
  | rounds + 1, i, bayn =>
    if door i then
      if i = dir then bayn else numberLoop door dir rounds (i + 1) (bayn + 1)
    else numberLoop door dir rounds (i + 1) bayn

def findDSBayNumber (dir : Nat) : Int := numberLoop ds.hasDoor dir (dir + 1) 0 0

def findDSBayDir (num : Int) : Int :=
  match (List.range 6).find? fun i => ds.findDSBayNumber i == num with
  | some i => i
  | none => -1

/-! ## Hexes -/

def kludge (fx tx : Int) : Int := if fx.tmod 2 ≠ 0 ∧ tx.tmod 2 = 0 then -1 else 0

/-- The hex beside the ship in a direction of `dirs`. -/
def beside (dir : Int × Int) : Hex :=
  (ds.x + dir.1, ds.y + dir.2 + kludge ds.x (ds.x + dir.1))

/-- The loop of `Find_DS_Bay_In_MechHex` from its round `i` on: what it returns and what it
leaves in `bayn`, which it writes at a side without a door as well. -/
def hexLoop (seer : Hex) (t : Nat) (bayn : Int) : Nat → Nat → Access (Bool × Int)
  | 0, _ => some (false, bayn)
  | rounds + 1, i => do
      let dir ← subscript dirs ((i % 6 : Nat) : Int)
      if ds.beside dir = seer then
        let number := ds.findDSBayNumber ((i - t + 6) % 6)
        some (decide (0 ≤ number), number)
      else hexLoop seer t bayn rounds (i + 1)

def findDSBayInMechHex (seer : Hex) (bayn : Int) : Access (Bool × Int) :=
  ds.hexLoop seer ds.dsBearMod bayn 6 ds.dsBearMod

/-! ## Doors -/

def dsBayIsOpen (isAero : Bool) (bayref : Int) : Access Bool :=
  match (List.finRange numBays).find? fun i => decide (0 < ds.bay i ∧ ds.bay i = bayref) with
  | none => some false
  | some i => do
      let loc ← subscript dir2loc (ds.findDSBayDir (i : Nat))
      some ((List.finRange 12).any fun j =>
        (ds.criticals (loc, j)).type.toNat == (if isAero then aeroDoor else mechDoor) &&
          !has (ds.criticals (loc, j)).firemode destroyedMode)

/-- The hex `DS_Place` looks for, before it is bounded. -/
def placeHex (frombay : Int) : Access (Option Hex) :=
  match (List.finRange numBays).find? fun i => decide (ds.bay i = frombay) with
  | none => some none
  | some i => do
      let dir ← subscript dirs (((ds.dsBearMod : Int) + ds.findDSBayDir (i : Nat)).tmod 6)
      some (some (ds.beside dir))

def bounded (x : Int) (size : Nat) : Int := max 0 (min x (size - 1))

/-- DS_Place: the new hex of the unit, on a map of this size if there is a map. -/
def dsPlace (map : Option (Nat × Nat)) (frombay : Int) : Access (Option Hex) :=
  match map with
  | none => some none
  | some (width, height) => do
      let hex ← ds.placeHex frombay
      some (hex.map fun (nx, ny) => (bounded nx width, bounded ny height))

/-! ## Commands -/

/-- What `mech_enterbay` does with the number of a bay: the map it leads to, if its door is
open. -/
def enterDoor (isAero : Bool) (bayn : Int) : Access (Option Int) := do
  let ref ← ds.aeroBay bayn
  if ← ds.dsBayIsOpen isAero ref then some (some ref) else some none

/-- `mech_enterbay` of a ship that is named; its event looks for the bay in the same way. -/
def enterBay (isAero : Bool) (seer : Hex) : Access (Option Int) := do
  let (found, bayn) ← ds.findDSBayInMechHex seer (-1)
  if found then ds.enterDoor isAero bayn else some none

/-- What `Leave_DS` does with the bay a unit is in: where the unit is placed, if at all. -/
def leaveDS (isAero : Bool) (map : Option (Nat × Nat)) (frombay : Int) :
    Access (Option Hex) := do
  if ← ds.dsBayIsOpen isAero frombay then ds.dsPlace map frombay else some none

end DropShip

/-! ## The ship of a hex -/

section

variable (getMech : Int → Option DropShip) (mechsOnMap : List Int)

/-- What `Find_Single_DS_In_MechHex` counts, and its two results. -/
structure Single where
  count : Nat
  ref : Int
  bayn : Int

/-- A round of its loop, for the unit in one slot of the map. -/
def Single.slot (seer : Hex) (single : Single) (loop : Int) : Access Single :=
  if loop < 0 then some single
  else
    match getMech loop with
    | none => some single
    | some ds =>
      if ds.isDS && ds.landed then do
        let (found, bayn) ← ds.findDSBayInMechHex seer single.bayn
        some (if found then
            ⟨single.count + 1, if single.count = 0 then loop else -1, bayn⟩
          else { single with bayn := bayn })
      else some single

def findSingleDSInMechHex (seer : Hex) : Access Single :=
  mechsOnMap.foldlM (Single.slot getMech seer) ⟨0, 0, -1⟩

/-- `mech_enterbay`, with or without a target. -/
def mechEnterbay (target : Option Int) (isAero : Bool) (seer : Hex) : Access (Option Int) :=
  match target with
  | some ref =>
    match getMech ref with
    | none => some none
    | some ds => ds.enterBay isAero seer
  | none => do
    let single ← findSingleDSInMechHex getMech mechsOnMap seer
    if single.count = 0 ∨ single.ref < 0 then some none
    else
      match getMech single.ref with
      | none => some none
      | some ds => ds.enterDoor isAero single.bayn

end

end

open List Option
open Ammo (CriticalSlot)

namespace DropShip

variable {ds : DropShip}

/-! ## Numbers -/

def doors (ds : DropShip) : Nat := Nat.count (fun i => ds.hasDoor i = true) 6

theorem numberLoop_eq (door : Nat → Bool) (dir : Nat) {rounds i : Nat}
    (left : i + (rounds + 1) = dir + 1) (bayn : Int) :
    numberLoop door dir (rounds + 1) i bayn =
      if door dir then
        bayn + (Nat.count (fun k => door k = true) dir : Int) -
          Nat.count (fun k => door k = true) i
      else -1 := by
  induction rounds generalizing i bayn with
  | zero =>
    obtain rfl : i = dir := by omega
    unfold numberLoop
    split
    · rw [if_pos rfl]
      omega
    · rfl
  | succ rounds ih =>
    have pre : i ≠ dir := by omega
    have next := Nat.count_succ (fun k => door k = true) i
    rw [numberLoop, ih (by omega), ih (by omega), next]
    split
    · rw [Nat.cast_add, Nat.cast_one]
      split
      · ring
      · rfl
    · rw [Nat.add_zero]

theorem findDSBayNumber_eq (ds : DropShip) (dir : Nat) :
    ds.findDSBayNumber dir =
      if ds.hasDoor dir then (Nat.count (fun k => ds.hasDoor k = true) dir : Int) else -1 := by
  rw [findDSBayNumber, numberLoop_eq ds.hasDoor dir (Nat.zero_add _), Nat.count_zero]
  simp

theorem exists_of_lt_count {p : Nat → Prop} [DecidablePred p] {n m : Nat}
    (below : n < Nat.count p m) : ∃ d < m, p d ∧ Nat.count p d = n := by
  induction m with
  | zero => exact absurd below (Nat.not_lt_zero n)
  | succ m ih =>
    rw [Nat.count_succ] at below
    by_cases earlier : n < Nat.count p m
    · obtain ⟨d, lower, hf, number⟩ := ih earlier
      exact ⟨d, Nat.lt_succ_of_lt lower, hf, number⟩
    · have last : p m := by
        by_contra none'
        rw [if_neg none'] at below
        exact earlier below
      rw [if_pos last] at below
      exact ⟨m, Nat.lt_succ_self m, last, by omega⟩

theorem findDSBayNumber_lt {dir : Nat} (direction : dir < 6)
    (hf : 0 ≤ ds.findDSBayNumber dir) : ds.findDSBayNumber dir < ds.doors := by
  rw [findDSBayNumber_eq] at hf ⊢
  split at hf
  · rename_i door
    rw [if_pos door]
    have counted := Nat.count_strict_mono (p := fun i => ds.hasDoor i = true) door direction
    exact Int.ofNat_lt.mpr counted
  · omega

theorem exists_findDSBayNumber {n : Nat} (below : n < ds.doors) :
    ∃ dir : Nat, dir < 6 ∧ ds.findDSBayNumber dir = n := by
  obtain ⟨dir, direction, door, number⟩ := exists_of_lt_count below
  exact ⟨dir, direction, by rw [findDSBayNumber_eq, if_pos door, number]⟩

theorem findDSBayDir_spec {n : Nat} (below : n < ds.doors) :
    ∃ dir : Nat, dir < 6 ∧ ds.findDSBayDir n = dir ∧ ds.findDSBayNumber dir = n := by
  obtain ⟨dir, direction, number⟩ := exists_findDSBayNumber below
  unfold findDSBayDir
  cases fst : (List.range 6).find? fun i => ds.findDSBayNumber i == n with
  | none =>
    have missed := find?_eq_none.mp fst dir (mem_range.mpr direction)
    exact absurd (beq_iff_eq.mpr number) missed
  | some hf =>
    have eq := find?_some fst
    have mem := mem_of_find?_eq_some fst
    exact ⟨hf, mem_range.mp mem, rfl, beq_iff_eq.mp eq⟩

theorem findDSBayDir_none {n : Nat} (beyond : ds.doors ≤ n) : ds.findDSBayDir n = -1 := by
  have fst : ((List.range 6).find? fun i => ds.findDSBayNumber i == n) = none := by
    refine find?_eq_none.mpr fun dir mem eq => ?_
    have number := beq_iff_eq.mp eq
    have hf := @findDSBayNumber_lt ds dir (mem_range.mp mem) (by omega)
    omega
  rw [findDSBayDir, fst]

/-! ## Hexes -/

theorem subscript_dirs (i : Nat) :
    subscript dirs ((i % 6 : Nat) : Int) = some (dirs.getD (i % 6) (0, 0)) := by
  have below : i % 6 < dirs.length := Nat.mod_lt i (by decide)
  rw [subscript, if_pos (Int.natCast_nonneg _), Int.toNat_natCast,
    getD_eq_getElem?_getD, getElem?_eq_getElem below, getD_some]

theorem beside_ne {i j : Nat} (apart : i % 6 ≠ j % 6) :
    ds.beside (dirs.getD (i % 6) (0, 0)) ≠ ds.beside (dirs.getD (j % 6) (0, 0)) := by
  have ne : ∀ a < 6, ∀ b < 6, a ≠ b →
      (dirs.getD a (0, 0)).1 ≠ (dirs.getD b (0, 0)).1 ∨
        (dirs.getD a (0, 0)).2 ≠ (dirs.getD b (0, 0)).2 := by decide
  intro eq
  obtain ⟨column, row⟩ := Prod.mk.inj eq
  have sideways : (dirs.getD (i % 6) (0, 0)).1 = (dirs.getD (j % 6) (0, 0)).1 := by omega
  rw [sideways] at row
  rcases ne (i % 6) (Nat.mod_lt i (by decide)) (j % 6) (Nat.mod_lt j (by decide)) apart with
    o | o
  · exact o sideways
  · exact o (by omega)

def bayFound (ds : DropShip) (dir : Nat) : Bool × Int :=
  (decide (0 ≤ ds.findDSBayNumber dir), ds.findDSBayNumber dir)

/-- The hex at the side of a ship in a direction from its nose. -/
def side (ds : DropShip) (dir : Nat) : Hex :=
  ds.beside (dirs.getD ((ds.dsBearMod + dir) % 6) (0, 0))

theorem hexLoop_beside {t rounds i j : Nat} (bayn : Int) (lower : i ≤ j)
    (upper : j < i + rounds) (once : j < i + 6) :
    ds.hexLoop (ds.beside (dirs.getD (j % 6) (0, 0))) t bayn rounds i =
      some (ds.bayFound ((j - t + 6) % 6)) := by
  induction rounds generalizing i with
  | zero => omega
  | succ rounds ih =>
    rw [hexLoop, subscript_dirs]
    simp only [bind_eq_bind, bind_some]
    rcases Nat.eq_or_lt_of_le lower with rfl | later
    · rw [if_pos rfl]
      rfl
    · rw [if_neg (beside_ne (by omega)), ih (by omega) (by omega) (by omega)]

theorem findDSBayInMechHex_side {dir : Nat} (direction : dir < 6) (bayn : Int) :
    ds.findDSBayInMechHex (ds.side dir) bayn = some (ds.bayFound dir) := by
  rw [findDSBayInMechHex, side, hexLoop_beside bayn (by omega) (by omega) (by omega)]
  congr 2
  omega

theorem hexLoop_apart {seer : Hex} {t : Nat} {bayn : Int} (rounds i : Nat)
    (apart : ∀ j, ds.beside (dirs.getD (j % 6) (0, 0)) ≠ seer) :
    ds.hexLoop seer t bayn rounds i = some (false, bayn) := by
  induction rounds generalizing i with
  | zero => rfl
  | succ rounds ih =>
    rw [hexLoop, subscript_dirs]
    simp only [bind_eq_bind, bind_some]
    rw [if_neg (apart i), ih]

theorem findDSBayInMechHex_apart {seer : Hex} (apart : ∀ dir < 6, ds.side dir ≠ seer)
    (bayn : Int) : ds.findDSBayInMechHex seer bayn = some (false, bayn) := by
  refine hexLoop_apart 6 _ fun j => ?_
  have turned := apart ((j + 5 * ds.dsBearMod) % 6) (Nat.mod_lt _ (by decide))
  rwa [side, show (ds.dsBearMod + (j + 5 * ds.dsBearMod) % 6) % 6 = j % 6 by omega] at turned

theorem side_cases (ds : DropShip) (seer : Hex) :
    (∀ dir < 6, ds.side dir ≠ seer) ∨ ∃ dir < 6, ds.side dir = seer := by
  by_cases near : ∃ dir < 6, ds.side dir = seer
  · exact Or.inr near
  · exact Or.inl fun dir below eq => near ⟨dir, below, eq⟩

theorem side_inj {i j : Nat} (left : i < 6) (right : j < 6) (eq : ds.side i = ds.side j) :
    i = j := by
  by_contra ne
  exact beside_ne (by omega) eq

/-! ## Bays -/

def FirstBay (ds : DropShip) (i : Fin numBays) : Prop := ∀ j < i, ds.bay j ≠ ds.bay i

def AllDoored (ds : DropShip) : Prop :=
  ∀ i, 0 < ds.bay i → ds.FirstBay i → (i : Nat) < ds.doors

theorem find?_finRange {n : Nat} {p : Fin n → Prop} [DecidablePred p] {i : Fin n}
    (hf : (List.finRange n).find? (fun i => decide (p i)) = some i) :
    p i ∧ ∀ j < i, ¬ p j := by
  obtain ⟨here, k, within, there, pre⟩ := find?_eq_some_iff_getElem.mp hf
  rw [getElem_finRange] at there
  refine ⟨of_decide_eq_true here, fun j earlier h => ?_⟩
  have position : (i : Nat) = k := by
    rw [← there]
    rfl
  have passed := pre j (position ▸ earlier)
  rw [getElem_finRange] at passed
  simp [h] at passed

theorem find?_bay {p : Fin numBays → Prop} [DecidablePred p] {i : Fin numBays} {ref : Int}
    (leads : ∀ j, p j ↔ ds.bay j = ref) (at' : ds.bay i = ref) (fst : ds.FirstBay i) :
    (List.finRange numBays).find? (fun i => decide (p i)) = some i := by
  cases hf : (List.finRange numBays).find? fun i => decide (p i) with
  | none =>
    have missed := find?_eq_none.mp hf i (mem_finRange i)
    exact absurd (decide_eq_true ((leads i).mpr at')) missed
  | some j =>
    obtain ⟨there, pre⟩ := find?_finRange hf
    have eq : ds.bay j = ds.bay i := ((leads j).mp there).trans at'.symm
    rcases lt_trichotomy i j with earlier | rfl | later
    · exact absurd ((leads i).mpr at') (pre i earlier)
    · rfl
    · exact absurd eq (fst j later)

theorem exists_firstBay (i : Fin numBays) : ∃ j, ds.bay j = ds.bay i ∧ ds.FirstBay j := by
  cases hf : (List.finRange numBays).find? fun j => decide (ds.bay j = ds.bay i) with
  | none =>
    have missed := find?_eq_none.mp hf i (mem_finRange i)
    exact absurd (decide_eq_true rfl) missed
  | some j =>
    obtain ⟨there, pre⟩ := find?_finRange hf
    exact ⟨j, there, fun k earlier eq => pre k earlier (eq.trans there)⟩

theorem dsBayIsOpen_none {isAero : Bool} {bayref : Int}
    (missing : ∀ i, 0 < ds.bay i → ds.bay i ≠ bayref) :
    ds.dsBayIsOpen isAero bayref = some false := by
  have hf : (List.finRange numBays).find?
      (fun i => decide (0 < ds.bay i ∧ ds.bay i = bayref)) = none := by
    refine find?_eq_none.mpr fun i _ leads => ?_
    obtain ⟨real, eq⟩ := of_decide_eq_true leads
    exact missing i real eq
  rw [dsBayIsOpen, hf]

theorem dsBayIsOpen_some {isAero : Bool} {i : Fin numBays} (real : 0 < ds.bay i)
    (fst : ds.FirstBay i) (doored : (i : Nat) < ds.doors) :
    ∃ isOpen, ds.dsBayIsOpen isAero (ds.bay i) = some isOpen := by
  obtain ⟨dir, direction, leads, -⟩ := findDSBayDir_spec doored
  have below : dir < dir2loc.length := direction
  have read : subscript dir2loc (dir : Int) = some dir2loc[dir] := by
    rw [subscript, if_pos (Int.natCast_nonneg dir), Int.toNat_natCast,
      getElem?_eq_getElem below]
  rw [dsBayIsOpen, find?_bay (fun j => and_iff_right_of_imp fun eq => eq ▸ real) rfl fst]
  dsimp only
  rw [leads, read]
  exact ⟨_, rfl⟩

theorem dsBayIsOpen_outside {isAero : Bool} {i : Fin numBays} (real : 0 < ds.bay i)
    (fst : ds.FirstBay i) (doorless : ds.doors ≤ i) :
    ds.dsBayIsOpen isAero (ds.bay i) = none := by
  rw [dsBayIsOpen, find?_bay (fun j => and_iff_right_of_imp fun eq => eq ▸ real) rfl fst]
  dsimp only
  rw [findDSBayDir_none doorless]
  rfl

theorem placeHex_eq {i : Fin numBays} (fst : ds.FirstBay i) {dir : Nat}
    (leads : ds.findDSBayDir (i : Nat) = dir) :
    ds.placeHex (ds.bay i) =
      some (some (ds.side dir)) := by
  have turned : ((ds.dsBearMod : Int) + dir).tmod 6 = ((ds.dsBearMod + dir) % 6 : Nat) := by
    rw [Int.tmod_eq_emod_of_nonneg (by omega)]
    omega
  rw [placeHex, find?_bay (fun j => Iff.rfl) rfl fst]
  dsimp only
  rw [leads, turned, subscript_dirs]
  rfl

/-! ## Commands -/

theorem dsBayIsOpen_read (doored : ds.AllDoored) (isAero : Bool) (bayref : Int) :
    ∃ isOpen, ds.dsBayIsOpen isAero bayref = some isOpen := by
  by_cases leads : ∃ i, 0 < ds.bay i ∧ ds.bay i = bayref
  · obtain ⟨i, real, rfl⟩ := leads
    obtain ⟨j, eq, fst⟩ := @exists_firstBay ds i
    rw [← eq] at real ⊢
    exact dsBayIsOpen_some real fst (doored j real fst)
  · exact ⟨false, dsBayIsOpen_none fun i real eq => leads ⟨i, real, eq⟩⟩

theorem leaveDS_cases (doored : ds.AllDoored) (isAero : Bool) (width height : Nat)
    (frombay : Int) :
    ds.leaveDS isAero (some (width, height)) frombay = some none ∨
      ∃ i : Fin numBays, ∃ dir < 6, ds.bay i = frombay ∧ ds.FirstBay i ∧
        ds.findDSBayNumber dir = (i : Nat) ∧
        ds.placeHex frombay =
          some (some (ds.side dir)) := by
  by_cases leads : ∃ i, 0 < ds.bay i ∧ ds.bay i = frombay
  · obtain ⟨i, real, rfl⟩ := leads
    obtain ⟨j, eq, fst⟩ := @exists_firstBay ds i
    rw [← eq] at real ⊢
    obtain ⟨dir, direction, leads, number⟩ := findDSBayDir_spec (doored j real fst)
    exact Or.inr ⟨j, dir, direction, rfl, fst, number, placeHex_eq fst leads⟩
  · left
    rw [leaveDS, dsBayIsOpen_none fun i real eq => leads ⟨i, real, eq⟩]
    rfl

/-- No subscript is outside its table when units enter and leave bays, and a unit that came
out of a bay, and was not bounded by the map, stands where this bay is found. -/
structure BaysRight (ds : DropShip) (width height : Nat) : Prop where
  enters : ∀ isAero, ∀ seer : Hex, (0 ≤ seer.1 ∧ seer.1 < width) ∧ 0 ≤ seer.2 ∧ seer.2 < height →
    ds.enterBay isAero seer ≠ none
  leaves : ∀ isAero frombay, ds.leaveDS isAero (some (width, height)) frombay ≠ none
  back : ∀ isAero frombay hex,
    ds.leaveDS isAero (some (width, height)) frombay = some (some hex) →
      ds.placeHex frombay = some (some hex) →
        ∃ n : Fin numBays, ds.bay n = frombay ∧ ds.FirstBay n ∧
          ∀ bayn, ds.findDSBayInMechHex hex bayn = some (true, ((n : Nat) : Int))

theorem enterDoor_read (few : ds.doors ≤ numBays) (doored : ds.AllDoored) (isAero : Bool)
    {dir : Nat} (direction : dir < 6) (number : 0 ≤ ds.findDSBayNumber dir) :
    ds.enterDoor isAero (ds.findDSBayNumber dir) ≠ none := by
  obtain ⟨n, eq⟩ := Int.eq_ofNat_of_zero_le number
  have below := findDSBayNumber_lt direction number
  rw [eq] at below ⊢
  have hin : n < numBays := by omega
  have read : ds.aeroBay (n : Int) = some (ds.bay ⟨n, hin⟩) := by
    rw [aeroBay, subscript, if_pos (Int.natCast_nonneg n), Int.toNat_natCast]
    simp [hin]
  obtain ⟨isOpen, door⟩ := dsBayIsOpen_read doored isAero (ds.bay ⟨n, hin⟩)
  simp only [enterDoor, read, door, bind_eq_bind, bind_some]
  split <;> exact some_ne_none _

theorem enterBay_read (few : ds.doors ≤ numBays) (doored : ds.AllDoored) (isAero : Bool)
    (seer : Hex) : ds.enterBay isAero seer ≠ none := by
  rw [enterBay]
  rcases ds.side_cases seer with apart | ⟨dir, direction, rfl⟩
  · rw [findDSBayInMechHex_apart apart]
    exact some_ne_none none
  · rw [findDSBayInMechHex_side direction, bayFound]
    simp only [bind_eq_bind, bind_some, decide_eq_true_eq]
    split
    · rename_i number
      exact enterDoor_read few doored isAero direction number
    · exact some_ne_none none

theorem BaysRight.of_doors (few : ds.doors ≤ numBays) (doored : ds.AllDoored)
    (width height : Nat) : ds.BaysRight width height := by
  refine ⟨fun isAero seer _ => enterBay_read few doored isAero seer,
    fun isAero frombay => ?_, fun isAero frombay hex left placed => ?_⟩
  · rcases leaveDS_cases doored isAero width height frombay with
      stays | ⟨i, dir, -, -, -, -, placed⟩
    · rw [stays]
      exact some_ne_none none
    · obtain ⟨isOpen, door⟩ := dsBayIsOpen_read doored isAero frombay
      rw [leaveDS, door, dsPlace, placed]
      cases isOpen <;> exact some_ne_none _
  · rcases leaveDS_cases doored isAero width height frombay with
      stays | ⟨i, dir, direction, eq, fst, number, out⟩
    · rw [stays] at left
      cases left
    · rw [out] at placed
      obtain rfl := some.inj (some.inj placed)
      refine ⟨i, eq, fst, fun bayn => ?_⟩
      rw [findDSBayInMechHex_side direction, bayFound, number,
        decide_eq_true (Int.natCast_nonneg (i : Nat))]

def moved (ds : DropShip) (facing : Nat) (x y : Int) : DropShip :=
  { ds with facing := facing, x := x, y := y }

theorem enterBay_outside (many : numBays < ds.doors) :
    ∃ seer : Hex, ((0 ≤ seer.1 ∧ seer.1 < 3) ∧ 0 ≤ seer.2 ∧ seer.2 < 3) ∧
      (ds.moved 0 1 1).enterBay false seer = none := by
  obtain ⟨dir, direction, number⟩ := exists_findDSBayNumber many
  have hf : (ds.moved 0 1 1).findDSBayInMechHex
      ((ds.moved 0 1 1).beside (dirs.getD dir (0, 0))) (-1) = some (true, (numBays : Int)) := by
    have seen := @findDSBayInMechHex_side (ds.moved 0 1 1) dir direction (-1)
    have ahead : (ds.moved 0 1 1).dsBearMod = 0 := by simp [dsBearMod, moved]
    have eq : (ds.moved 0 1 1).findDSBayNumber dir = (numBays : Int) := number
    rwa [side, ahead, Nat.zero_add, Nat.mod_eq_of_lt direction, bayFound, eq,
      decide_eq_true (Int.natCast_nonneg numBays)] at seen
  have around : ∀ dir < 6,
      let seer := (ds.moved 0 1 1).beside (dirs.getD dir (0, 0))
      (0 ≤ seer.1 ∧ seer.1 < 3) ∧ 0 ≤ seer.2 ∧ seer.2 < 3 := by
    intro dir below
    match dir, below with
    | 0, _ | 1, _ | 2, _ | 3, _ | 4, _ | 5, _ => simp [moved, beside, dirs, kludge]
  refine ⟨_, around dir direction, ?_⟩
  rw [enterBay, hf]
  rfl

/-- Bays work, wherever a ship lands and however it is turned, exactly if it has no more doors
than bays and every bay that leads to a map has a door. -/
theorem baysRight_moved_iff (ds : DropShip) :
    (∀ facing < 360, ∀ (x y : Int) (width height : Nat), 0 ≤ x → x < width → 0 ≤ y →
        y < height → (ds.moved facing x y).BaysRight width height) ↔
      ds.doors ≤ numBays ∧ ds.AllDoored := by
  constructor
  · intro right
    have middle := right 0 (by decide) 1 1 3 3 (by decide) (by decide) (by decide) (by decide)
    constructor
    · by_contra many
      obtain ⟨seer, onMap, outside⟩ := enterBay_outside (Nat.lt_of_not_le many)
      exact middle.enters false seer onMap outside
    · intro i real first
      by_contra doorless
      have outside : (ds.moved 0 1 1).dsBayIsOpen false (ds.bay i) = none :=
        @dsBayIsOpen_outside (ds.moved 0 1 1) false i real first (Nat.le_of_not_lt doorless)
      refine middle.leaves false (ds.bay i) ?_
      rw [leaveDS, outside]
      rfl
  · rintro ⟨few, doored⟩ facing _ x y width height _ _ _ _
    exact @BaysRight.of_doors (ds.moved facing x y) few doored width height

end DropShip

/-! ## The ship of a hex -/

variable {getMech : Int → Option DropShip} {seer : Hex}

/-- In a slot of the map a landed ship is beside the hex. -/
def Near (getMech : Int → Option DropShip) (seer : Hex) (loop : Int) : Prop :=
  0 ≤ loop ∧ ∃ ds, getMech loop = some ds ∧ (ds.isDS && ds.landed) = true ∧
    ∃ dir < 6, ds.side dir = seer

/-- It has a door on that side. -/
def AtDoor (getMech : Int → Option DropShip) (seer : Hex) (loop : Int) : Prop :=
  0 ≤ loop ∧ ∃ ds, getMech loop = some ds ∧ (ds.isDS && ds.landed) = true ∧
    ∃ dir < 6, ds.side dir = seer ∧ ds.hasDoor dir = true

/-- A ship that alone has a door at the hex is the last of the map's ships beside it. -/
def LastBeside (getMech : Int → Option DropShip) (mechsOnMap : List Int) (seer : Hex) : Prop :=
  ∀ before loop after, mechsOnMap = before ++ loop :: after → AtDoor getMech seer loop →
    (∀ other ∈ before ++ after, ¬ AtDoor getMech seer other) →
      ∀ other ∈ after, ¬ Near getMech seer other

theorem number_nonneg {ds : DropShip} {dir : Nat} :
    0 ≤ ds.findDSBayNumber dir ↔ ds.hasDoor dir = true := by
  rw [DropShip.findDSBayNumber_eq]
  split
  · exact iff_of_true (Int.natCast_nonneg _) ‹_›
  · exact iff_of_false (by decide) ‹_›

/-- All that a slot does to the search. -/
theorem slot_cases (loop : Int) :
    (¬ Near getMech seer loop ∧ ¬ AtDoor getMech seer loop ∧
        ∀ single, Single.slot getMech seer single loop = some single) ∨
      (Near getMech seer loop ∧ ¬ AtDoor getMech seer loop ∧
        ∀ single, Single.slot getMech seer single loop = some { single with bayn := -1 }) ∨
      (AtDoor getMech seer loop ∧ ∃ ds, getMech loop = some ds ∧ ∃ dir < 6,
        ds.hasDoor dir = true ∧ ∀ single, Single.slot getMech seer single loop =
          some ⟨single.count + 1, if single.count = 0 then loop else -1,
            ds.findDSBayNumber dir⟩) := by
  have passed (skips : ∀ single, Single.slot getMech seer single loop = some single)
      (away : ¬ Near getMech seer loop) : ¬ Near getMech seer loop ∧
        ¬ AtDoor getMech seer loop ∧
          ∀ single, Single.slot getMech seer single loop = some single :=
    ⟨away, fun ⟨slot, ds, unit, lands, dir, direction, at', _⟩ =>
      away ⟨slot, ds, unit, lands, dir, direction, at'⟩, skips⟩
  by_cases slot : loop < 0
  · exact Or.inl (passed (fun single => by rw [Single.slot, if_pos slot])
      fun near => absurd near.1 (Int.not_le.mpr slot))
  cases unit : getMech loop with
  | none =>
    refine Or.inl (passed (fun single => by rw [Single.slot, if_neg slot, unit]) ?_)
    rintro ⟨-, ds, some', -⟩
    rw [unit] at some'
    cases some'
  | some ds =>
    by_cases lands : (ds.isDS && ds.landed) = true
    swap
    · refine Or.inl (passed (fun single => by
        rw [Single.slot, if_neg slot, unit]
        exact if_neg lands) ?_)
      rintro ⟨-, _, some', lands', -⟩
      obtain rfl := some.inj (unit.symm.trans some')
      exact lands lands'
    have reads : ∀ single, Single.slot getMech seer single loop =
        ds.findDSBayInMechHex seer single.bayn >>= fun (found, bayn) =>
          some (if found then
              ⟨single.count + 1, if single.count = 0 then loop else -1, bayn⟩
            else { single with bayn := bayn }) := by
      intro single
      rw [Single.slot, if_neg slot, unit]
      exact if_pos lands
    rcases ds.side_cases seer with apart | ⟨dir, direction, at'⟩
    · refine Or.inl (passed (fun single => ?_) ?_)
      · rw [reads, DropShip.findDSBayInMechHex_apart apart]
        rfl
      · rintro ⟨-, _, some', -, dir, direction, at'⟩
        obtain rfl := some.inj (unit.symm.trans some')
        exact apart dir direction at'
    · have near : Near getMech seer loop :=
        ⟨Int.not_lt.mp slot, ds, unit, lands, dir, direction, at'⟩
      have found (single : Single) :
          ds.findDSBayInMechHex seer single.bayn = some (ds.bayFound dir) :=
        at' ▸ DropShip.findDSBayInMechHex_side direction single.bayn
      by_cases door : ds.hasDoor dir = true
      · refine Or.inr (Or.inr ⟨⟨Int.not_lt.mp slot, ds, unit, lands, dir, direction, at', door⟩,
          ds, rfl, dir, direction, door, fun single => ?_⟩)
        rw [reads, found, DropShip.bayFound, decide_eq_true (number_nonneg.mpr door)]
        rfl
      · refine Or.inr (Or.inl ⟨near, ?_, fun single => ?_⟩)
        · rintro ⟨-, _, some', -, dir', direction', there, door'⟩
          obtain rfl := some.inj (unit.symm.trans some')
          exact door (DropShip.side_inj direction' direction (there.trans at'.symm) ▸ door')
        · have number : ds.findDSBayNumber dir = -1 := by
            rw [DropShip.findDSBayNumber_eq, if_neg door]
          rw [reads, found, DropShip.bayFound, number]
          rfl

/-- What the search knows of the slots it has passed. -/
inductive Searched (getMech : Int → Option DropShip) (seer : Hex) :
    List Int → Single → Prop
  | nowhere {slots single} (noDoor : ∀ other ∈ slots, ¬ AtDoor getMech seer other)
      (count : single.count = 0) : Searched getMech seer slots single
  | one {before loop after single ds} (door : AtDoor getMech seer loop)
      (alone : ∀ other ∈ before ++ after, ¬ AtDoor getMech seer other)
      (count : single.count = 1) (ref : single.ref = loop) (unit : getMech loop = some ds)
      (bayn : (∃ other ∈ after, Near getMech seer other) ∧ single.bayn = -1 ∨
        (∀ other ∈ after, ¬ Near getMech seer other) ∧ ∃ dir < 6, ds.hasDoor dir = true ∧
          single.bayn = ds.findDSBayNumber dir) :
      Searched getMech seer (before ++ loop :: after) single
  | many {slots single} (twice : ∃ before loop middle loop' after,
        slots = before ++ loop :: middle ++ loop' :: after ∧ AtDoor getMech seer loop ∧
          AtDoor getMech seer loop')
      (count : single.count ≠ 0) (ref : single.ref = -1) : Searched getMech seer slots single

theorem searched (getMech : Int → Option DropShip) (mechsOnMap : List Int) (seer : Hex) :
    ∃ single, findSingleDSInMechHex getMech mechsOnMap seer = some single ∧
      Searched getMech seer mechsOnMap single := by
  induction mechsOnMap using List.reverseRecOn with
  | nil => exact ⟨⟨0, 0, -1⟩, rfl, .nowhere (by simp) rfl⟩
  | append_singleton slots last ih =>
    obtain ⟨single, eq, known⟩ := ih
    have step : findSingleDSInMechHex getMech (slots ++ [last]) seer =
        Single.slot getMech seer single last := by
      rw [findSingleDSInMechHex] at eq ⊢
      simp [foldlM_append, eq]
    rw [step]
    rcases @slot_cases getMech seer last with
      ⟨away, closed, slot⟩ | ⟨near, closed, slot⟩ | ⟨door, ds, unit, dir, direction, side, slot⟩
    · refine ⟨single, slot single, ?_⟩
      cases known with
      | nowhere noDoor count => exact .nowhere (by grind) count
      | one door alone count ref unit bayn =>
        rw [append_assoc, cons_append]
        exact .one door (by grind) count ref unit (by grind)
      | many twice count ref =>
        obtain ⟨before, loop, middle, loop', after, rfl, doors⟩ := twice
        exact .many ⟨before, loop, middle, loop', after ++ [last], by simp, doors⟩ count ref
    · refine ⟨_, slot single, ?_⟩
      cases known with
      | nowhere noDoor count => exact .nowhere (by grind) count
      | one door alone count ref unit bayn =>
        rw [append_assoc, cons_append]
        exact .one door (by grind) count ref unit (Or.inl ⟨⟨last, by simp, near⟩, rfl⟩)
      | many twice count ref =>
        obtain ⟨before, loop, middle, loop', after, rfl, doors⟩ := twice
        exact .many ⟨before, loop, middle, loop', after ++ [last], by simp, doors⟩ count ref
    · refine ⟨_, slot single, ?_⟩
      cases known with
      | nowhere noDoor count =>
        exact .one door (by grind) (by rw [count]) (if_pos count) unit
          (Or.inr ⟨by simp, dir, direction, side, rfl⟩)
      | one door' alone count ref unit' bayn =>
        refine .many ⟨_, _, _, _, [], rfl, door', door⟩ (Nat.succ_ne_zero _) ?_
        exact if_neg (by omega)
      | many twice count ref =>
        obtain ⟨before, loop, middle, loop', after, rfl, doors⟩ := twice
        exact .many ⟨before, loop, middle, loop', after ++ [last], by simp, doors⟩
          (Nat.succ_ne_zero _) (if_neg count)

theorem split_unique {α : Type} {p : α → Prop} {before after before' after' : List α} {x x' : α}
    (eq : before ++ x :: after = before' ++ x' :: after') (at' : p x)
    (alone : ∀ y ∈ before' ++ after', ¬ p y) : after = after' := by
  rcases append_eq_append_iff.mp eq with ⟨middle, rfl, rest⟩ | ⟨middle, rfl, rest⟩
  · cases middle with
    | nil => exact (cons.inj rest).2
    | cons y middle =>
      obtain rfl := (cons.inj rest).1
      exact absurd at' (alone x (by simp))
  · cases middle with
    | nil => exact (cons.inj rest).2.symm
    | cons y middle =>
      obtain rfl := (cons.inj rest).2
      exact absurd at' (alone x (by simp))

/-- Where the ships are sound, `mech_enterbay` without a target reads a bay exactly if the ship
with a door is the last of those beside the hex. -/
theorem mechEnterbay_iff {mechsOnMap : List Int}
    (sound : ∀ n ds, getMech n = some ds → ds.doors ≤ numBays ∧ ds.AllDoored) (isAero : Bool) :
    mechEnterbay getMech mechsOnMap none isAero seer ≠ none ↔
      LastBeside getMech mechsOnMap seer := by
  obtain ⟨single, eq, known⟩ := searched getMech mechsOnMap seer
  simp only [mechEnterbay, eq, bind_eq_bind, bind_some]
  cases known with
  | nowhere noDoor count =>
    rw [if_pos (Or.inl count)]
    refine iff_of_true (some_ne_none _) fun before loop after slots door => ?_
    exact absurd door (noDoor loop (by simp [slots]))
  | @one before loop after _ ds door alone count ref unit bayn =>
    rw [if_neg (by have := door.1; omega), ref, unit]
    rcases bayn with ⟨⟨other, mem, near⟩, bayn⟩ | ⟨away, dir, direction, side, bayn⟩
    · refine iff_of_false ?_ fun last => last before loop after rfl door alone other mem near
      rw [bayn]
      exact fun read => read rfl
    · refine iff_of_true ?_ ?_
      · rw [bayn]
        exact DropShip.enterDoor_read (sound _ ds unit).1 (sound _ ds unit).2 isAero direction
          (number_nonneg.mpr side)
      · intro before' loop' after' slots door' alone' other mem near
        exact away other (split_unique slots door alone' ▸ mem) near
  | many twice count ref =>
    rw [if_pos (Or.inr (by omega))]
    refine iff_of_true (some_ne_none _) fun before loop after slots door alone => ?_
    obtain ⟨before', loop', middle, loop'', after', rfl, one, two⟩ := twice
    rw [append_assoc, cons_append] at slots
    obtain rfl := split_unique slots one alone
    exact absurd two (alone loop'' (by simp))

/-- Bays work, wherever the ships land and for every unit that looks for a bay, exactly if no
ship has more doors than bays, every bay that leads to a map has a door, and on the map a ship
that alone has a door at a hex is the last of those beside it. -/
theorem baysRight_iff (getMech : Int → Option DropShip) (mechsOnMap : List Int)
    (width height : Nat) :
    ((∀ n ds, getMech n = some ds → ∀ facing < 360, ∀ (x y : Int) (width height : Nat), 0 ≤ x →
        x < width → 0 ≤ y → y < height → (ds.moved facing x y).BaysRight width height) ∧
      ∀ target isAero (seer : Hex), (0 ≤ seer.1 ∧ seer.1 < width) ∧ 0 ≤ seer.2 ∧
        seer.2 < height → mechEnterbay getMech mechsOnMap target isAero seer ≠ none) ↔
      (∀ n ds, getMech n = some ds → ds.doors ≤ numBays ∧ ds.AllDoored) ∧
        ∀ seer : Hex, (0 ≤ seer.1 ∧ seer.1 < width) ∧ 0 ≤ seer.2 ∧ seer.2 < height →
          LastBeside getMech mechsOnMap seer := by
  have ships : (∀ n ds, getMech n = some ds → ∀ facing < 360, ∀ (x y : Int)
      (width height : Nat), 0 ≤ x → x < width → 0 ≤ y → y < height →
        (ds.moved facing x y).BaysRight width height) ↔
      ∀ n ds, getMech n = some ds → ds.doors ≤ numBays ∧ ds.AllDoored :=
    forall_congr' fun n => forall_congr' fun ds => imp_congr_right fun _ =>
      ds.baysRight_moved_iff
  rw [ships]
  refine and_congr_right fun sound => ⟨fun reads seer onMap => ?_, fun last => ?_⟩
  · exact (mechEnterbay_iff sound false).mp (reads none false seer onMap)
  · intro target isAero seer onMap
    cases target with
    | none => exact (mechEnterbay_iff sound isAero).mpr (last seer onMap)
    | some ref =>
      cases unit : getMech ref with
      | none => simp [mechEnterbay, unit]
      | some ds =>
        simp only [mechEnterbay, unit]
        exact DropShip.enterBay_read (sound ref ds unit).1 (sound ref ds unit).2 isAero seer

namespace DropShip

/-- A ship with a door on every side, and a map for every bay. -/
def allSides : DropShip where
  isDS := true
  landed := true
  criticals := fun place =>
    { data := 0, type := if place.2 = 0 then BitVec.ofNat 16 mechDoor else 0, firemode := 0,
      ammomode := 0, desiredAmmoLoc := none }
  facing := 0
  x := 1
  y := 1
  bay := fun i => (i : Nat) + 10

/-- At its fifth door a bay of number 4 is found, and there is none. -/
theorem allSides_outside : ¬ allSides.BaysRight 3 3 ∧
    allSides.findDSBayInMechHex (0, 1) (-1) = some (true, 4) ∧ allSides.aeroBay 4 = none := by
  have found : allSides.findDSBayInMechHex (0, 1) (-1) = some (true, 4) ∧
      allSides.aeroBay 4 = none := by decide
  refine ⟨fun right => right.enters false (0, 1) (by decide) ?_, found⟩
  rw [enterBay, found.1]
  simp only [bind_eq_bind, bind_some, enterDoor, found.2, if_true, bind_none]

end DropShip

end BattletechMux.Bays
