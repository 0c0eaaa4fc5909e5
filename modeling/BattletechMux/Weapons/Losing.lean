/-
Module: BattletechMux.Weapons.Losing
Purpose: How weapons of a mech are found, numbered, lost and put into TICs, from mech.utils.c,
  mech.damage.c, mech.tic.c and glue.hcode.c.
Trusted boundary: the table of weapons is any table; random() is an argument; firing a weapon may do
  anything but change a TIC or the type of a part; the tests of common_checks but for STARTED are
  passed; what players are told is left out
-/
import BattletechMux.Ammo.Slots
import BattletechMux.Foundation.CText

namespace BattletechMux.Weapons

section

open Ammo (Section Critical Place CriticalSlot Weapon getWeaponCrits weaponBaseIndex ammoBaseIndex
  weapon2I)

/-- A mech with the rest of its slots and what its sections are doing. -/
structure Mech extends Ammo.Mech where
  brand : Place → BitVec 8
  weapDamageFlags : Place → BitVec 32
  /-- CLASS_VEH_GROUND. -/
  isGroundVehicle : Bool
  /-- The section is recycling after a physical attack. -/
  recycle : Section → Bool
  /-- SectIsDestroyed. -/
  sectIsDestroyed : Section → Bool

def isWeapon (type : Nat) : Bool := decide (weaponBaseIndex ≤ type ∧ type < ammoBaseIndex)

def i2Weapon (weapindx : Int) : Int := weapindx + weaponBaseIndex

/-! ## The weapons of a section -/

/-- One place of the three arrays of `FindWeapons_Advanced`. -/
structure Found where
  weapon : Int
  data : BitVec 8
  critical : Critical

/-- The state of its loop: the weapons so far, the last of them, and how many slots of it. -/
structure Scan where
  found : List Found
  lastweap : Int
  numCrits : Int

variable (mechWeapons : Int → Weapon) (mech : Mech)

/-- UGLYTEST; `none` when the last weapon has not the slots it should have. -/
def uglytest (s : Scan) : Option Scan :=
  if s.numCrits ≠ 0 then
    if s.numCrits ≠ getWeaponCrits mechWeapons mech.toMech s.lastweap then none
    else some { s with numCrits := 0 }
  else some s

def Scan.push (s : Scan) (temp : Int) (data : BitVec 8) (loop : Critical) : Scan where
  found := s.found ++ [⟨temp, data, loop⟩]
  lastweap := temp
  numCrits := 1

/-- One slot in the loop of `FindWeapons_Advanced`. -/
def scanSlot (index : Section) (s : Scan) (loop : Critical) : Option Scan :=
  let slot := mech.criticals (index, loop)
  if isWeapon slot.type.toNat then
    let temp := weapon2I slot.type.toNat
    if s.found = [] then some (s.push temp slot.data loop)
    else if s.numCrits = 0 ∨ temp ≠ s.lastweap ∨
        s.numCrits = getWeaponCrits mechWeapons mech.toMech temp then
      (uglytest mechWeapons mech s).map fun s => s.push temp slot.data loop
    else some { s with numCrits := s.numCrits + 1 }
  else uglytest mechWeapons mech s

/-- `FindWeapons_Advanced`, without -1. -/
def findWeapons (index : Section) : Option (List Found) :=
  (((List.finRange 12).foldlM (scanSlot mechWeapons mech index) ⟨[], -1, 0⟩).bind
    (uglytest mechWeapons mech)).map Scan.found

/-- The weapons of a section for the loops over sections: none where they cannot be told apart. -/
def weaponsIn (index : Section) : List Found := (findWeapons mechWeapons mech index).getD []

/-! ## Numbers of weapons -/

def ticNumDestroyed : Int := -2

def ticNumReloading : Int := -3

def ticNumRecycling : Int := -4

def ticNumPhysical : Int := -5

/-- What `FindWeaponNumberOnMech_Advanced` returns for a weapon it has found. -/
def ticNum (sight : Bool) (loop : Section) (found : Found) : Int :=
  if (mech.criticals (loop, found.critical)).isNonfunctional then ticNumDestroyed
  else if 0 < found.data.toNat ∧ sight = false then
    if (mechWeapons found.weapon).type = .beam then ticNumRecycling else ticNumReloading
  else if mech.recycle loop ∧ (mech.isMech ∨ mech.isGroundVehicle) ∧ sight = false then
    ticNumPhysical
  else found.weapon

/-- Its loop, and that of `FindWeaponIndex`, over the sections that are left: where the weapon of a
number is. -/
def numbered (number : Nat) : Nat → List Section → Option (Section × Found)
  | _, [] => none
  | runningSum, loop :: rest =>
    let found := weaponsIn mechWeapons mech loop
    if number < runningSum + found.length then
      found[number - runningSum]?.map fun weapon => (loop, weapon)
    else numbered number (runningSum + found.length) rest

/-- `FindWeaponNumberOnMech_Advanced`: what it returns, and the section and slot that it sets, for
a number that is not negative. -/
def findWeaponNumberOnMechAdvanced (number : Nat) (sight : Bool) : Int × Option Place :=
  match numbered mechWeapons mech number 0 (List.finRange 8) with
  | some (loop, found) => (ticNum mechWeapons mech sight loop found, some (loop, found.critical))
  | none => (-1, none)

def findWeaponNumberOnMech (number : Nat) : Int × Option Place :=
  findWeaponNumberOnMechAdvanced mechWeapons mech number false

def findWeaponIndex (number : Int) : Int :=
  if number < 0 then -1
  else match numbered mechWeapons mech number.toNat 0 (List.finRange 8) with
  | some (_, found) => found.weapon
  | none => -1

/-! ## Weapons of one kind -/

def wpnIsRecycling (place : Place) : Bool :=
  let slot := mech.criticals place
  decide (0 < slot.data.toNat) && isWeapon slot.type.toNat && !slot.isNonfunctional &&
    !mech.sectIsDestroyed place.1

/-- What `FindWeaponFromIndex` asks of a slot. -/
def isReady (place : Place) : Bool :=
  !(mech.criticals place).isNonfunctional && !wpnIsRecycling mech place

/-- The sections and weapons that `FindWeaponFromIndex` goes through, with the number of each weapon
in its section. -/
def listing : List (Section × Nat × Found) :=
  (List.finRange 8).flatMap fun loop =>
    (weaponsIn mechWeapons mech loop).zipIdx.map fun entry => (loop, entry.2, entry.1)

/-- `FindWeaponFromIndex`: the section and slot that it sets when it returns 1.  The slot that it
tests is the one with the weapon's number in its section; a section has no more than 12. -/
def findWeaponFromIndex (weapindx : Int) : Option Place :=
  (((listing mechWeapons mech).filter fun entry => entry.2.2.weapon = weapindx).find? fun entry =>
    isReady mech (entry.1, Fin.ofNat 12 entry.2.1)).map fun entry => (entry.1, entry.2.2.critical)

end

section

open Ammo (Section Critical Place Weapon getWeaponCrits has destroyedMode disabledMode brokenMode)

/-! ## Parts -/

def damagedMode : BitVec 32 := 0x8

def Mech.partIsDamaged (mech : Mech) (place : Place) : Bool :=
  has (mech.criticals place).firemode damagedMode

def Mech.destroyPart (mech : Mech) (place : Place) : Mech :=
  { mech with
    criticals := Function.update mech.criticals place
      { mech.criticals place with
        firemode := ((mech.criticals place).firemode ||| destroyedMode) &&&
          ~~~(brokenMode ||| disabledMode ||| damagedMode) }
    weapDamageFlags := Function.update mech.weapDamageFlags place 0
    brand := Function.update mech.brand place (mech.brand place % 16) }

def Mech.breakPart (mech : Mech) (place : Place) : Mech :=
  { mech with
    criticals := Function.update mech.criticals place
      { mech.criticals place with firemode := (mech.criticals place).firemode ||| brokenMode } }

/-! ## Destruction -/

/-- The loop of `DestroyWeapon` over the slots that are left. -/
def destroySlots (hitloc : Section) (type : Nat) (numcrits totalcrits : Int) :
    Int → Int → List Critical → Mech → Mech
  | _, _, [], wounded => wounded
  | sum, destroyed, i :: rest, wounded =>
    if (wounded.criticals (hitloc, i)).type.toNat = type then
      let (wounded', destroyed') :=
        if wounded.partIsDamaged (hitloc, i) then (wounded.destroyPart (hitloc, i), destroyed)
        else if destroyed < numcrits then (wounded.destroyPart (hitloc, i), destroyed + 1)
        else (wounded.breakPart (hitloc, i), destroyed)
      if sum + 1 = totalcrits then wounded'
      else destroySlots hitloc type numcrits totalcrits (sum + 1) destroyed' rest wounded'
    else destroySlots hitloc type numcrits totalcrits sum destroyed rest wounded

def destroyWeapon (wounded : Mech) (hitloc : Section) (type : Nat) (startCrit : Critical)
    (numcrits totalcrits : Int) : Mech :=
  destroySlots hitloc type numcrits totalcrits 0 0
    ((List.finRange 12).filter fun i => decide (startCrit ≤ i)) wounded

/-! ## Choice -/

variable (mechWeapons : Int → Weapon) (mech : Mech)

/-- The loop of `CountWeaponsInLoc` from weapon `i` on, for so many rounds; `none` when it goes on
after them. -/
def countLoop (loc : Section) : Nat → Nat → Nat → Option Nat
  | 0, _, _ => none
  | rounds + 1, i, count =>
    let (j, place) := findWeaponNumberOnMech mechWeapons mech i
    if j = -1 then some count
    else countLoop loc rounds (i + 1) (if place.map Prod.fst = some loc then count + 1 else count)

/-- `CountWeaponsInLoc`; a mech has no more than 96 weapons. -/
def countWeaponsInLoc (loc : Section) : Option Nat := countLoop mechWeapons mech loc 97 1 0

/-- The loop of `FindWeaponTypeNumInLoc` from weapon `i` on. -/
def typeLoop (loc : Section) (num : Nat) : Nat → Nat → Nat → Option Int
  | 0, _, _ => none
  | rounds + 1, i, count =>
    let (j, place) := findWeaponNumberOnMech mechWeapons mech i
    if j = -1 then some (-1)
    else if place.map Prod.fst = some loc then
      if count + 1 = num then some j else typeLoop loc num rounds (i + 1) (count + 1)
    else typeLoop loc num rounds (i + 1) count

def findWeaponTypeNumInLoc (loc : Section) (num : Nat) : Option Int :=
  typeLoop mechWeapons mech loc num 97 1 0

/-- `FindFirstWeaponCrit` for no slot in particular; `none` is -1. -/
def findFirstCrit (wLoc : Section) (wCritType : Int) : Option Critical :=
  (List.finRange 12).find? fun wCritIter =>
    decide (((mech.criticals (wLoc, wCritIter)).type.toNat : Int) = wCritType)

/-- `LoseWeapon` for a value of `random()`; `none` when it does not come to an end or destroys slots
in front of the section. -/
def loseWeapon (hitloc : Section) (random : Nat) : Option Mech :=
  (countWeaponsInLoc mechWeapons mech hitloc).bind fun i =>
    if i = 0 then some mech
    else
      (findWeaponTypeNumInLoc mechWeapons mech hitloc (random % i + 1)).bind fun b =>
        if b < 0 then some mech
        else
          (findFirstCrit mech hitloc (i2Weapon b)).map fun firstCrit =>
            destroyWeapon mech hitloc (i2Weapon b).toNat firstCrit 1
              (getWeaponCrits mechWeapons mech.toMech b)

end

open CText (isSpace scanInt stored atoi)
open Ammo (Place Weapon)

def numTics : Nat := 4
def maxWeaponsPerMech : Nat := 96
def singleTiclongSize : Nat := 32
def ticlongs : Nat := maxWeaponsPerMech / singleTiclongSize

/-- A mech with its TICs; outside of the four rows of three, `tic` is whatever lies there. -/
structure TicMech extends toBody : Mech where
  tic : Nat → Nat → BitVec 64
  /-- FALLEN. -/
  fallen : Bool
  /-- STARTED. -/
  started : Bool

/-- The `int` 1 << j as an `unsigned long`. -/
def ticBit (j : Nat) : BitVec 64 := (1#32 <<< j).signExtend 64

def TicMech.setTic (mech : TicMech) (i j : Nat) (word : BitVec 64) : TicMech :=
  { mech with tic := fun row k => if row = i ∧ k = j then word else mech.tic row k }

def TicMech.inTic (mech : TicMech) (i weapnum : Nat) : Bool :=
  mech.tic i (weapnum / singleTiclongSize) &&& ticBit (weapnum % singleTiclongSize) != 0

/-- The numbers that a loop from low to high goes through. -/
def upTo (low high : Nat) : List Nat := List.range' low (high + 1 - low)

/-! ## Lists of numbers -/

/-- The arguments that `mech_parseattributes` finds. -/
def mechParseattributes (maxargs : Nat) (buffer : List Char) : List (List Char) :=
  ((buffer.splitOnP fun c => c = ' ' ∨ c = '\t').filter fun word => word ≠ []).take maxargs

/-- sscanf with `%d-%d`. -/
def scanRange (text : List Char) : Option (Int × Int) :=
  match scanInt text with
  | some (i1, '-' :: rest) => (scanInt rest).map fun (i2, _) => (stored i1, stored i2)
  | _ => none

def isWeaponNumber (i : Int) : Bool := decide (0 ≤ i ∧ i < maxWeaponsPerMech)

/-- What one part of a list says for `multi_weap_sel`, the smaller number first. -/
def readRange (text : List Char) : Option (Nat × Nat) :=
  match scanRange text with
  | some (i1, i2) =>
    if !isWeaponNumber i1 || !isWeaponNumber i2 then none
    else some (min i1.toNat i2.toNat, max i1.toNat i2.toNat)
  | none =>
    let i1 := atoi text
    -- Readnum
    if i1 = 0 ∧ text ≠ ['0'] then none
    else if !isWeaponNumber i1 then none
    else some (i1.toNat, i1.toNat)

variable (mechWeapons : Int → Weapon)

/-- The range of one part that `multi_weap_sel` hands on. -/
def accepted (bitbybit : Nat) (mech : Mech) (buffer : List Char) : Option (Nat × Nat) :=
  (readRange (buffer.dropWhile isSpace)).filter fun (_, i2) =>
    if bitbybit / 2 ≠ 0 then decide (i2 < numTics)
    else decide ((findWeaponNumberOnMech mechWeapons mech i2).1 ≠ -1)

def oneByOne {State : Type} (foo : State → Nat → Nat → State × Bool) :
    State → List Nat → State × Bool
  | s, [] => (s, false)
  | s, i3 :: rest =>
    match foo s i3 i3 with
    | (s, true) => (s, true)
    | (s, false) => oneByOne foo s rest

/-- `multi_weap_sel`, over the parts of its buffer between commas; `foo` tells whether to stop. -/
def multiWeapSel {State : Type} (mechOf : State → Mech) (bitbybit : Nat)
    (foo : State → Nat → Nat → State × Bool) : State → List (List Char) → State
  | s, [] => s
  | s, buffer :: c =>
    match accepted mechWeapons bitbybit (mechOf s) buffer with
    | none => s
    | some (i1, i2) =>
      match if bitbybit % 2 ≠ 0 then oneByOne foo s (upTo i1 i2) else foo s i1 i2 with
      | (s, true) => s
      | (s, false) => multiWeapSel mechOf bitbybit foo s c

def parts (buffer : List Char) : List (List Char) := buffer.splitOn ','

/-! ## Changing TICs -/

def clearticSubFunc (mech : TicMech) (low high : Nat) : TicMech :=
  (upTo low high).foldl (fun mech i =>
    (List.range ticlongs).foldl (fun mech j => mech.setTic i j 0) mech) mech

def addticSubFunc (presentTic : Nat) (mech : TicMech) (low high : Nat) : TicMech :=
  (upTo low high).foldl (fun mech i =>
    let j := i / singleTiclongSize
    mech.setTic presentTic j (mech.tic presentTic j ||| ticBit (i % singleTiclongSize))) mech

def delticSubFunc (presentTic : Nat) (mech : TicMech) (low high : Nat) : TicMech :=
  (upTo low high).foldl (fun mech i =>
    let j := i / singleTiclongSize
    mech.setTic presentTic j (mech.tic presentTic j &&& ~~~ ticBit (i % singleTiclongSize))) mech

/-- A function that never stops `multi_weap_sel`. -/
def returnsZero (foo : TicMech → Nat → Nat → TicMech) (mech : TicMech) (low high : Nat) :
    TicMech × Bool :=
  (foo mech low high, false)

def ticNumber (arg : List Char) : Option Nat :=
  let ticnum := atoi arg
  if 0 ≤ ticnum ∧ ticnum < numTics then some ticnum.toNat else none

def clearticSub (mech : TicMech) (buffer : List Char) : TicMech :=
  match mechParseattributes 3 buffer with
  | [arg] =>
    multiWeapSel mechWeapons TicMech.toBody 2 (returnsZero clearticSubFunc) mech (parts arg)
  | _ => mech

def addticSub (mech : TicMech) (buffer : List Char) : TicMech :=
  match mechParseattributes 3 buffer with
  | [arg, list] =>
    match ticNumber arg with
    | none => mech
    | some presentTic =>
      multiWeapSel mechWeapons TicMech.toBody 0 (returnsZero (addticSubFunc presentTic)) mech
        (parts list)
  | _ => mech

def delticSub (mech : TicMech) (buffer : List Char) : TicMech :=
  match mechParseattributes 3 buffer with
  -- the buffer was cut behind its only argument
  | [_] => clearticSub mechWeapons mech buffer
  | [arg, list] =>
    match ticNumber arg with
    | none => mech
    | some presentTic =>
      multiWeapSel mechWeapons TicMech.toBody 0 (returnsZero (delticSubFunc presentTic)) mech
        (parts list)
  | _ => mech

/-! ## Reading TICs -/

/-- A mech, and the rows of its TICs that were read so far. -/
structure Reading where
  mech : TicMech
  rows : List Nat

def Reading.visit (s : Reading) (i : Nat) : Reading := { s with rows := s.rows ++ [i] }

/-- What `FireWeaponNumber` makes of a mech. -/
structure Gun where
  fireWeaponNumber : TicMech → Nat → TicMech
  tic : ∀ mech weapnum, (fireWeaponNumber mech weapnum).tic = mech.tic
  isMech : ∀ mech weapnum, (fireWeaponNumber mech weapnum).isMech = mech.isMech
  type : ∀ mech weapnum place,
    ((fireWeaponNumber mech weapnum).criticals place).type = (mech.criticals place).type

variable (gun : Gun)

/-- The loops of `firetic_sub_func` over the bits of one TIC.  A word without bits, which it skips,
has none that are tested true. -/
def fireWeapons (f : Bool) (i : Nat) : TicMech → List (Nat × Nat) → TicMech × Bool
  | mech, [] => (mech, false)
  | mech, (k, j) :: rest =>
    if mech.tic i k &&& ticBit j ≠ 0 then
      let mech := gun.fireWeaponNumber mech (k * singleTiclongSize + j)
      if f ≠ mech.fallen then (mech, true)
      else if !mech.started then (mech, true)
      else fireWeapons f i mech rest
    else fireWeapons f i mech rest

def ticBits : List (Nat × Nat) :=
  (List.range ticlongs).flatMap fun k => (List.range singleTiclongSize).map fun j => (k, j)

/-- The loop of `firetic_sub_func` over TICs. -/
def fireRows (f : Bool) : Reading → List Nat → Reading × Bool
  | s, [] => (s, false)
  | s, i :: rest =>
    match fireWeapons gun f i s.mech ticBits with
    | (mech, true) => ({ s.visit i with mech }, true)
    | (mech, false) => fireRows f { s.visit i with mech } rest

def fireticSubFunc (s : Reading) (low high : Nat) : Reading × Bool :=
  fireRows gun s.mech.fallen s (upTo low high)

def fireticSub (mech : TicMech) (buffer : List Char) : Reading :=
  match mechParseattributes 5 buffer with
  | [] => ⟨mech, []⟩
  | arg :: _ =>
    match ticNumber arg with
    | none => ⟨mech, []⟩
    | some _ =>
      multiWeapSel mechWeapons (fun s => s.mech.toBody) 0 (fireticSubFunc gun) ⟨mech, []⟩
        (parts arg)

def mechFiretic (mech : TicMech) (buffer : List Char) : Reading :=
  if mech.started then fireticSub mechWeapons gun mech buffer else ⟨mech, []⟩

/-- A line of the list that `listtic` shows. -/
inductive TicLine
  | noWeapons
  | weapon (number : Nat) (place : Option Place)
  | unknown

def listticFun (presentTic presentCount : Nat) (s : Reading) (i : Nat) : Reading × TicLine :=
  if presentCount = 0 then (s, .noWeapons)
  else
    let rtar := i / 2 + if i % 2 ≠ 0 then (presentCount + 1) / 2 else 0
    let s := s.visit presentTic
    match ((List.range maxWeaponsPerMech).filter (s.mech.inTic presentTic))[rtar]? with
    | none => (s, .unknown)
    | some j =>
      let (weapon, place) := findWeaponNumberOnMech mechWeapons s.mech.toBody j
      if weapon = -1 then
        -- a weapon that is gone leaves the TIC
        let k := j / singleTiclongSize
        let word := s.mech.tic presentTic k &&& ~~~ ticBit (j % singleTiclongSize)
        ({ s with mech := s.mech.setTic presentTic k word }, .unknown)
      else (s, .weapon j place)

/-- `listtic_sub`; the menu asks for its first line twice. -/
def listticSub (mech : TicMech) (buffer : List Char) : Reading × List TicLine :=
  match mechParseattributes 2 buffer with
  | [arg] =>
    match ticNumber arg with
    | none => (⟨mech, []⟩, [])
    | some ticnum =>
      let s : Reading := ⟨mech, [ticnum]⟩
      let count := ((List.range maxWeaponsPerMech).filter (mech.inTic ticnum)).length
      (List.range (max 1 count)).foldl (fun (s, lines) i =>
        let (s, line) := listticFun mechWeapons ticnum count s i
        (s, lines ++ [line])) ((listticFun mechWeapons ticnum count s 0).1, [])
  | _ => (⟨mech, []⟩, [])

/-! ## Sequences of commands -/

/-- The commands that change TICs, and whatever else happens to the mech. -/
inductive TicCommand
  | addtic (buffer : List Char)
  | deltic (buffer : List Char)
  | cleartic (buffer : List Char)
  | elsewhere (after : Mech)

def performTic (mech : TicMech) : TicCommand → TicMech
  | .addtic buffer => addticSub mechWeapons mech buffer
  | .deltic buffer => delticSub mechWeapons mech buffer
  | .cleartic buffer => clearticSub mechWeapons mech buffer
  | .elsewhere after => { mech with toBody := after }

def runTics (mech : TicMech) (commands : List TicCommand) : TicMech :=
  commands.foldl (performTic mechWeapons) mech

end BattletechMux.Weapons
