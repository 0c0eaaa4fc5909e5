/-
Module: BattletechMux.Ammo.Slots
Purpose: The critical slots of a mech and the ammo in them, from mech.utils.c and
  mech.combat.misc.c; the report of FindAmmunition against the bins of the mech.
Trusted boundary: the table of weapons is any table; ammo warnings are left out
-/
import Mathlib
import BattletechMux.Foundation.Grouping

namespace BattletechMux.Ammo

section

/-! ## Weapons -/

inductive WeaponType
  | beam | missile | artillery | ammo | hand
deriving DecidableEq, Repr

/-- What a `weapon_struct` says of ammo. -/
structure Weapon where
  type : WeaponType
  criticals : Int
  ammoperton : BitVec 8
  special : BitVec 32

def rac : BitVec 32 := 0x04000000
def rocket : BitVec 32 := 0x10000000

/-- NUM_WEAPONS, and where the types of weapons, ammo and bombs begin. -/
def numWeapons : Nat := 192
def weaponBaseIndex : Nat := 1
def ammoBaseIndex : Nat := weaponBaseIndex + numWeapons
def bombBaseIndex : Nat := ammoBaseIndex + numWeapons

def isAmmo (type : Nat) : Bool := decide (ammoBaseIndex ≤ type ∧ type < bombBaseIndex)
def ammo2Weapon (type : Nat) : Nat := type - ammoBaseIndex
def i2Ammo (weapindx : Nat) : Nat := weapindx + ammoBaseIndex
def weapon2I (type : Nat) : Int := type - weaponBaseIndex

/-! ## Modes -/

def destroyedMode : BitVec 32 := 0x1
def disabledMode : BitVec 32 := 0x2
def brokenMode : BitVec 32 := 0x4
def halftonMode : BitVec 32 := 0x80
def osMode : BitVec 32 := 0x100
def osUsed : BitVec 32 := 0x200
def ultraMode : BitVec 32 := 0x400
def rfacMode : BitVec 32 := 0x800
def gattlingMode : BitVec 32 := 0x1000
def racTwoshotMode : BitVec 32 := 0x2000
def racFourshotMode : BitVec 32 := 0x4000
def racSixshotMode : BitVec 32 := 0x8000
def rocketFired : BitVec 32 := 0x100000

def artilleryModes : BitVec 32 := 0x38
def acApMode : BitVec 32 := 0x2000
def acPrecisionMode : BitVec 32 := 0x10000
/-- LBX_MODE, AC_MODES, MISSILE_MODES, INARC_MODES and ARTILLERY_MODES. -/
def ammoModes : BitVec 32 := 0x1 ||| 0x1e000 ||| 0x1c6 ||| 0x1e00 ||| artilleryModes

def has (word bits : BitVec 32) : Bool := word &&& bits != 0

/-! ## Slots -/

abbrev Section := Fin 8
abbrev Critical := Fin 12

instance sections_pos : NeZero (8 : Nat) := ⟨by decide⟩

instance criticals_pos : NeZero (12 : Nat) := ⟨by decide⟩

/-- What a `critical_slot` holds; a negative desired location is none. -/
structure CriticalSlot where
  data : BitVec 8
  type : BitVec 16
  firemode : BitVec 32
  ammomode : BitVec 32
  desiredAmmoLoc : Option Section
deriving DecidableEq

abbrev Place := Section × Critical

structure Mech where
  /-- CLASS_MECH. -/
  isMech : Bool
  criticals : Place → CriticalSlot

def places : List Place :=
  (List.finRange 8).flatMap fun index => (List.finRange 12).map fun loop => (index, loop)

def Mech.change (mech : Mech) (place : Place) (f : CriticalSlot → CriticalSlot) : Mech :=
  { mech with criticals := Function.update mech.criticals place (f (mech.criticals place)) }

def CriticalSlot.isNonfunctional (slot : CriticalSlot) : Bool :=
  has slot.firemode disabledMode || has slot.firemode (destroyedMode ||| brokenMode) ||
    has slot.firemode destroyedMode

def CriticalSlot.ammoMod (slot : CriticalSlot) : Nat :=
  if !isAmmo slot.type.toNat || has slot.firemode halftonMode || has slot.ammomode acApMode ||
    has slot.ammomode acPrecisionMode then 1 else 2

def CriticalSlot.fullAmmo (mechWeapons : Int → Weapon) (slot : CriticalSlot) : Nat :=
  (mechWeapons (ammo2Weapon slot.type.toNat)).ammoperton.toNat / (3 - slot.ammoMod)

/-! ## Report -/

/-- One place of the four arrays of `FindAmmunition`. -/
structure AmmoEntry where
  weapon : BitVec 8
  ammo : BitVec 16
  ammomax : BitVec 16
  mode : BitVec 32
deriving DecidableEq

def CriticalSlot.mode (slot : CriticalSlot) : BitVec 32 := slot.ammomode &&& ammoModes

def CriticalSlot.usableData (slot : CriticalSlot) : Nat :=
  if slot.isNonfunctional then 0 else slot.data.toNat

def AmmoEntry.isFor (entry : AmmoEntry) (slot : CriticalSlot) : Bool :=
  ammo2Weapon slot.type.toNat == entry.weapon.toNat && slot.mode == entry.mode

def AmmoEntry.add (mechWeapons : Int → Weapon) (entry : AmmoEntry) (slot : CriticalSlot) :
    AmmoEntry :=
  { entry with
    ammo := entry.ammo + BitVec.ofNat 16 slot.usableData
    ammomax := entry.ammomax + BitVec.ofNat 16 (slot.fullAmmo mechWeapons) }

def AmmoEntry.new (mechWeapons : Int → Weapon) (slot : CriticalSlot) : AmmoEntry where
  weapon := BitVec.ofNat 8 (ammo2Weapon slot.type.toNat)
  ammo := BitVec.ofNat 16 slot.usableData
  ammomax := BitVec.ofNat 16 (slot.fullAmmo mechWeapons)
  mode := slot.mode

/-- One slot in the loops of `FindAmmunition`; `none` when the arrays of the caller have no room
for one more entry. -/
def noteSlot (mechWeapons : Int → Weapon) (size : Nat) (entries : List AmmoEntry)
    (slot : CriticalSlot) : Option (List AmmoEntry) :=
  if isAmmo slot.type.toNat then
    if entries.any (·.isFor slot) then
      some (entries.map fun entry => if entry.isFor slot then entry.add mechWeapons slot else entry)
    else if entries.length < size then some (entries ++ [.new mechWeapons slot])
    else none
  else some entries

/-- The loop that takes out the entries with no ammo left, from the `i`th on, for so many rounds. -/
def pruneFrom : Nat → Nat → List AmmoEntry → List AmmoEntry
  | 0, _, entries => entries
  | rounds + 1, i, entries =>
    match entries[i]? with
    | none => entries
    | some entry =>
      if entry.ammo = 0 then pruneFrom rounds i (entries.eraseIdx i)
      else pruneFrom rounds (i + 1) entries

/-- `FindAmmunition`, with arrays of so many places. -/
def findAmmunition (mechWeapons : Int → Weapon) (size : Nat) (mech : Mech) :
    Option (List AmmoEntry) :=
  (places.foldlM (fun entries place => noteSlot mechWeapons size entries (mech.criticals place))
    []).map fun entries => pruneFrom entries.length 0 entries

/-! ## Search -/

/-- A bin of some ammo that works, has none of the bits `nogof` and, if there are any, some of the
bits `gof`. -/
def CriticalSlot.suits (slot : CriticalSlot) (type : Nat) (nogof gof : BitVec 32) : Bool :=
  slot.type.toNat == type && !slot.isNonfunctional && (nogof == 0 || !has slot.ammomode nogof) &&
    (gof == 0 || has slot.ammomode gof)

def findAmmoInSection (mech : Mech) (index : Section) (type : Nat) (nogof gof : BitVec 32) :
    Option Critical :=
  (List.finRange 12).find? fun wIter =>
    (mech.criticals (index, wIter)).suits type nogof gof &&
      decide (0 < (mech.criticals (index, wIter)).data.toNat)

def getWeaponCrits (mechWeapons : Int → Weapon) (mech : Mech) (weapindx : Int) : Int :=
  if mech.isMech then (mechWeapons weapindx).criticals else 1

/-- `FindFirstWeaponCrit` on a slot of the section, for so many calls of itself, from `start` on;
`none` when it does not come back or reads in front of the section. -/
def findFirstWeaponCrit (mech : Mech) (wLoc : Section) (wSlot : Critical) (wCritType : Nat)
    (wMaxCrits : Int) : Nat → Int → Option (Option Critical)
  | 0, _ => none
  | depth + 1, start =>
    let crits := (List.finRange 12).filter fun wCritIter =>
      decide (start ≤ wCritIter.val) && (mech.criticals (wLoc, wCritIter)).type.toNat == wCritType
    let wFirstCrit : Int := (crits.head?.map fun crit => (crit.val : Int)).getD (-1)
    if wMaxCrits < crits.length ∧ wFirstCrit + wMaxCrits ≤ wSlot.val then
      if wFirstCrit + wMaxCrits < 0 then none
      else findFirstWeaponCrit mech wLoc wSlot wCritType wMaxCrits depth (wFirstCrit + wMaxCrits)
    else some crits.head?

/-- The desired location that the first slot of a weapon has. -/
def desiredLoc (mechWeapons : Int → Weapon) (mech : Mech) (weap : Place) :
    Option (Option Section) :=
  let wCritType := (mech.criticals weap).type.toNat
  (findFirstWeaponCrit mech weap.1 weap.2 wCritType
    (getWeaponCrits mechWeapons mech (weapon2I wCritType)) 13 0).bind fun wFirstCrit =>
      wFirstCrit.map fun crit => (mech.criticals (weap.1, crit)).desiredAmmoLoc

def searchOrder (wDesiredLoc : Option Section) (start : Section) : List Section :=
  wDesiredLoc.toList ++ start ::
    (List.finRange 8).filter fun loop => decide (loop ≠ start ∧ some loop ≠ wDesiredLoc)

def findAmmoForWeaponSub (mechWeapons : Int → Weapon) (mech : Mech) (weap : Place) (weapindx : Nat)
    (start : Section) (nogof gof : BitVec 32) : Option (Option Place) :=
  (desiredLoc mechWeapons mech weap).map fun wDesiredLoc =>
    (searchOrder wDesiredLoc start).findSome? fun index =>
      (findAmmoInSection mech index (i2Ammo weapindx) nogof gof).map fun foundSlot =>
        (index, foundSlot)

def countAmmoForWeapon (mech : Mech) (weapindx : Nat) : Nat :=
  (places.map fun place =>
    let slot := mech.criticals place
    if slot.type.toNat = i2Ammo weapindx ∧ slot.isNonfunctional = false ∧ 0 < slot.data.toNat then
      slot.data.toNat else 0).sum

/-! ## Check -/

/-- What `FindAndCheckAmmo` leaves behind: what it says when it returns 0, the mech, the two bins,
where they are set, and the number of shots. -/
structure Checked where
  refusal : Option String
  mech : Mech
  ammo : Option Place
  ammo1 : Option Place
  wGattlingShots : Nat

def Mech.clearMode (mech : Mech) (weap : Place) (bits : BitVec 32) : Mech :=
  mech.change weap fun slot => { slot with firemode := slot.firemode &&& ~~~bits }

def Mech.setMode (mech : Mech) (weap : Place) (bits : BitVec 32) : Mech :=
  mech.change weap fun slot => { slot with firemode := slot.firemode ||| bits }

def Mech.setPartData (mech : Mech) (place : Place) (data : BitVec 8) : Mech :=
  mech.change place fun slot => { slot with data := data }

variable (mechWeapons : Int → Weapon) (mech : Mech) (weapindx : Nat) (weap : Place)

/-- The mode of a rotary weapon for which there are too few rounds. -/
def racTooFew : Option (BitVec 32) :=
  let wWeapMode := (mech.criticals weap).firemode
  let wMaxShots := countAmmoForWeapon mech weapindx
  if has (mechWeapons weapindx).special rac then
    if has wWeapMode racTwoshotMode && decide (wMaxShots < 2) then some racTwoshotMode
    else if has wWeapMode racFourshotMode && decide (wMaxShots < 4) then some racFourshotMode
    else if has wWeapMode racSixshotMode && decide (wMaxShots < 6) then some racSixshotMode
    else none
  else none

/-- The shots of a Gattling weapon: not more than there are rounds for, but one. -/
def gattlingShots (wGattlingShots : Nat) : Nat :=
  if has (mech.criticals weap).firemode gattlingMode then
    let wMaxShots := countAmmoForWeapon mech weapindx
    if wMaxShots / 3 < wGattlingShots then max (wMaxShots / 3) 1 else wGattlingShots
  else wGattlingShots

/-- The mode bits that the ammo of a weapon must not have, and those of which it must have one. -/
def ammoBits : BitVec 32 × BitVec 32 :=
  let mod := (mech.criticals weap).ammomode &&& ammoModes
  if mod = 0 then (ammoModes, 0)
  else if (mechWeapons weapindx).type = .artillery then (~~~mod &&& artilleryModes, mod)
  else (~~~mod &&& ammoModes, mod)

def findAmmo : Option (Option Place) :=
  let (nogof, gof) := ammoBits mechWeapons mech weapindx weap
  findAmmoForWeaponSub mechWeapons mech weap weapindx weap.1 nogof gof

/-- The second round is looked for while the first is out of its bin; when there is none, the fire
mode is reset. -/
def checkSecond (ammo : Place) (shots : Nat) : Option Checked :=
  let wWeapMode := (mech.criticals weap).firemode
  let data := (mech.criticals ammo).data
  let less := mech.setPartData ammo (data - 1)
  (findAmmo mechWeapons less weapindx weap).map fun ammo1 =>
    let tResetMode := match ammo1 with
      | none => true
      | some ammo1 => (less.criticals ammo1).data == 0
    let reset := if tResetMode then less.clearMode weap wWeapMode else less
    ⟨none, reset.setPartData ammo ((reset.criticals ammo).data + 1), some ammo, ammo1, shots⟩

/-- The part of `FindAndCheckAmmo` for what uses ammo. -/
def checkRounds (shots : Nat) : Option Checked :=
  let wWeapMode := (mech.criticals weap).firemode
  (findAmmo mechWeapons mech weapindx weap).bind fun found =>
    match found with
    | none =>
      some ⟨some "You don't have any ammo for that weapon stored on this mech!", mech, none, none,
        shots⟩
    | some ammo =>
      if (mech.criticals ammo).data = 0 then
        some ⟨some (if (mech.criticals weap).ammomode &&& ammoModes = 0 then
          "You are out of ammo for that weapon!"
          else "You are out of the special ammo type for that weapon!"), mech, some ammo, none,
          shots⟩
      else if has wWeapMode ultraMode || has wWeapMode rfacMode then
        checkSecond mechWeapons mech weapindx weap ammo shots
      else some ⟨none, mech, some ammo, none, shots⟩

/-- `FindAndCheckAmmo`; `none` when it does not come back. -/
def findAndCheckAmmo (wGattlingShots : Nat) : Option Checked :=
  let weapon := mechWeapons weapindx
  let wWeapMode := (mech.criticals weap).firemode
  let used := "That weapon has already been used!"
  if weapon.type = .beam ∨ weapon.type = .hand then some ⟨none, mech, none, none, wGattlingShots⟩
  else if weapon.special = rocket then
    some ⟨if has wWeapMode rocketFired then some used else none, mech, none, none, wGattlingShots⟩
  else if has wWeapMode osMode then
    some ⟨if has wWeapMode osUsed then some used else none, mech, none, none, wGattlingShots⟩
  else
    match racTooFew mechWeapons mech weapindx weap with
    | some mode => some ⟨none, mech.clearMode weap mode, none, none, wGattlingShots⟩
    | none =>
      checkRounds mechWeapons mech weapindx weap (gattlingShots mech weapindx weap wGattlingShots)

/-! ## Expenditure -/

def shotsLeft (wGattlingShots : Nat) : Nat :=
  let wWeapMode := (mech.criticals weap).firemode
  if has wWeapMode gattlingMode then wGattlingShots * 3
  else if has wWeapMode racTwoshotMode then 2
  else if has wWeapMode racFourshotMode then 4
  else if has wWeapMode racSixshotMode then 6
  else 1

/-- The loop that takes rounds, with the last slot found, for so many rounds; `none` when it has not
ended. -/
def takeRounds : Nat → Mech → Place → Nat → Option Mech
  | 0, mech, _, wShotsLeft => if wShotsLeft = 0 then some mech else none
  | rounds + 1, mech, last, wShotsLeft =>
    if wShotsLeft = 0 then some mech
    else
      (findAmmoForWeaponSub mechWeapons mech weap weapindx weap.1 ammoModes 0).bind fun found =>
        let gat := found.getD last
        let wCurShots := (mech.criticals gat).data.toNat
        let mech' := mech.setPartData gat (BitVec.ofNat 8 (wCurShots - wShotsLeft))
        if countAmmoForWeapon mech' weapindx = 0 then some mech'
        else takeRounds rounds mech' gat (wShotsLeft - wCurShots)

def takeRound (place : Place) : Mech :=
  if (mech.criticals place).data = 0 then mech
  else mech.setPartData place ((mech.criticals place).data - 1)

/-- ROCKET_FIRED is set in one slot of a launcher; `none` when it is outside of the section. -/
def fireSlot (firstCrit : Critical) (mech : Mech) (i : Nat) : Option Mech :=
  if inside : firstCrit.val + i < 12 then
    some (mech.setMode (weap.1, ⟨firstCrit.val + i, inside⟩) rocketFired)
  else none

def fireRocket : Option Mech :=
  let weapSize := getWeaponCrits mechWeapons mech weapindx
  (findFirstWeaponCrit mech weap.1 weap.2 (mech.criticals weap).type.toNat weapSize 13 0).bind
    fun firstCrit => firstCrit.bind fun firstCrit =>
      (List.range weapSize.toNat).foldlM (fireSlot weap firstCrit) mech

/-- `decrement_ammunition`, with so many rounds for its loop. -/
def decrementAmmunition (rounds : Nat) (ammo ammo1 : Place) (wGattlingShots : Nat) : Option Mech :=
  let weapon := mechWeapons weapindx
  let wWeapMode := (mech.criticals weap).firemode
  if weapon.type = .beam ∨ weapon.type = .hand then some mech
  else if weapon.special = rocket then fireRocket mechWeapons mech weapindx weap
  else if has wWeapMode osMode then some (mech.setMode weap osUsed)
  else if has wWeapMode gattlingMode || has weapon.special rac then
    takeRounds mechWeapons weapindx weap rounds mech (0, 0) (shotsLeft mech weap wGattlingShots)
  else
    let mech' := takeRound mech ammo
    if has wWeapMode ultraMode || has wWeapMode rfacMode then some (takeRound mech' ammo1)
    else some mech'

end

open List hiding getElem?_eq_some_iff

/-! ## Bins -/

def Mech.slots (mech : Mech) : List CriticalSlot := places.map mech.criticals

def CriticalSlot.isBin (slot : CriticalSlot) : Bool := isAmmo slot.type.toNat

def Mech.bins (mech : Mech) : List CriticalSlot := mech.slots.filter CriticalSlot.isBin

def CriticalSlot.kind (slot : CriticalSlot) : Nat × BitVec 32 :=
  (ammo2Weapon slot.type.toNat, slot.mode)

def AmmoEntry.kind (entry : AmmoEntry) : Nat × BitVec 32 := (entry.weapon.toNat, entry.mode)

def Mech.ammoKinds (mech : Mech) : Finset (Nat × BitVec 32) :=
  (mech.bins.map CriticalSlot.kind).toFinset

def Mech.binsOf (mech : Mech) (kind : Nat × BitVec 32) : List CriticalSlot :=
  mech.bins.filter fun slot => slot.kind = kind

def Mech.currentAmmo (mech : Mech) (kind : Nat × BitVec 32) : Nat :=
  (((mech.binsOf kind).filter fun slot => !slot.isNonfunctional).map fun slot => slot.data.toNat).sum

def Mech.fullLoads (mechWeapons : Int → Weapon) (mech : Mech) (kind : Nat × BitVec 32) : Nat :=
  ((mech.binsOf kind).map fun slot => slot.fullAmmo mechWeapons).sum

theorem length_places : places.length = 96 := by decide

theorem length_binsOf (mech : Mech) (kind : Nat × BitVec 32) : (mech.binsOf kind).length ≤ 96 := by
  have slots : mech.slots.length = 96 := by
    unfold Mech.slots
    rw [length_map, length_places]
  rw [← slots]
  exact Nat.le_trans (length_filter_le _ _) (length_filter_le _ _)

/-! ## Loops -/

variable {mechWeapons : Int → Weapon}

def ammoGrouping (mechWeapons : Int → Weapon) :
    Grouping CriticalSlot AmmoEntry (Nat × BitVec 32) where
  itemKey slot := ((BitVec.ofNat 8 (ammo2Weapon slot.type.toNat)).toNat, slot.mode)
  key := AmmoEntry.kind
  start := AmmoEntry.new mechWeapons
  join := AmmoEntry.add mechWeapons
  key_start _ := rfl
  key_join _ _ := rfl

variable {slot : CriticalSlot}

theorem itemKey_eq (ammo : slot.isBin = true) :
    (ammoGrouping mechWeapons).itemKey slot = slot.kind := by
  have bounds := of_decide_eq_true ammo
  have fits : ammo2Weapon slot.type.toNat < 2 ^ 8 := by
    unfold ammo2Weapon
    unfold bombBaseIndex ammoBaseIndex numWeapons at *
    omega
  refine Prod.ext ?_ rfl
  change (BitVec.ofNat 8 _).toNat = _
  rw [BitVec.toNat_ofNat, Nat.mod_eq_of_lt fits]
  rfl

theorem isFor_iff (ammo : slot.isBin = true) (e : AmmoEntry) :
    e.isFor slot = true ↔
      (ammoGrouping mechWeapons).key e = (ammoGrouping mechWeapons).itemKey slot := by
  rw [itemKey_eq ammo]
  unfold AmmoEntry.isFor CriticalSlot.kind
  change _ ↔ e.kind = _
  unfold AmmoEntry.kind
  rw [Bool.and_eq_true, beq_iff_eq, beq_iff_eq, Prod.mk.injEq]
  exact and_congr eq_comm eq_comm

variable {entries : List AmmoEntry}

theorem noteSlot_eq {size : Nat} (ammo : slot.isBin = true)
    (room : ((ammoGrouping mechWeapons).put entries slot).length ≤ size) :
    noteSlot mechWeapons size entries slot = some ((ammoGrouping mechWeapons).put entries slot) := by
  have same : (fun e : AmmoEntry => e.isFor slot) = fun e =>
      decide ((ammoGrouping mechWeapons).key e = (ammoGrouping mechWeapons).itemKey slot) :=
    funext fun e => by rw [Bool.eq_iff_iff, isFor_iff ammo, decide_eq_true_iff]
  have joined : (fun e : AmmoEntry =>
      if e.isFor slot then e.add mechWeapons slot else e) =
        (ammoGrouping mechWeapons).meet slot :=
    funext fun e => if_congr (isFor_iff ammo e) rfl rfl
  unfold noteSlot
  rw [if_pos (show isAmmo slot.type.toNat = true from ammo), same, joined]
  unfold Grouping.put at *
  split
  · rfl
  · next absent =>
    rw [if_neg absent, length_append] at room
    rw [if_pos (Nat.lt_of_succ_le room)]
    rfl

theorem noteSlot_skip {size : Nat} (o : ¬slot.isBin = true) :
    noteSlot mechWeapons size entries slot = some entries := by
  unfold noteSlot
  exact if_neg o

theorem noteSlots_eq {size : Nat} (slots : List CriticalSlot)
    (room : ((slots.filter CriticalSlot.isBin).foldl
      (ammoGrouping mechWeapons).put entries).length ≤ size) :
    slots.foldlM (noteSlot mechWeapons size) entries =
      some ((slots.filter CriticalSlot.isBin).foldl
        (ammoGrouping mechWeapons).put entries) := by
  induction slots generalizing entries with
  | nil => rfl
  | cons slot slots ih =>
    rw [foldlM_cons]
    by_cases ammo : slot.isBin = true
    · rw [filter_cons_of_pos ammo, foldl_cons] at room ⊢
      rw [noteSlot_eq ammo (Nat.le_trans ((ammoGrouping mechWeapons).length_le_foldl _ _) room)]
      exact ih room
    · rw [filter_cons_of_neg ammo] at room ⊢
      rw [noteSlot_skip ammo]
      exact ih room

theorem pruneFrom_eq (rounds i : Nat) (entries : List AmmoEntry)
    (hlt : entries.length ≤ i + rounds) :
    pruneFrom rounds i entries =
      entries.take i ++ (entries.drop i).filter fun e => e.ammo ≠ 0 := by
  induction rounds generalizing i entries with
  | zero =>
    have short : entries.length ≤ i := hlt
    rw [pruneFrom, take_of_length_le short, drop_of_length_le short]
    simp
  | succ rounds ih =>
    rw [pruneFrom]
    cases here : entries[i]? with
    | none =>
      have short := getElem?_eq_none_iff.mp here
      rw [take_of_length_le short, drop_of_length_le short]
      simp
    | some e =>
      obtain ⟨hin, rfl⟩ := getElem?_eq_some_iff.mp here
      dsimp only
      rw [drop_eq_getElem_cons hin]
      split
      · next empty =>
        rw [ih i _ (by rw [length_eraseIdx_of_lt hin]; omega),
          eraseIdx_eq_take_drop_succ]
        have length : (entries.take i).length = i := by
          rw [length_take]
          omega
        rw [take_left' length, drop_left' length, filter_cons_of_neg (by simpa using empty)]
      · next full =>
        rw [ih (i + 1) entries (by omega),
          filter_cons_of_pos (by simpa using full), take_succ_eq_append_getElem hin,
          append_assoc]
        rfl

/-! ## Totals -/

theorem foldl_add (e : AmmoEntry) (slots : List CriticalSlot) :
    slots.foldl (AmmoEntry.add mechWeapons) e =
      { e with
        ammo := e.ammo + BitVec.ofNat 16 (slots.map CriticalSlot.usableData).sum
        ammomax := e.ammomax +
          BitVec.ofNat 16 (slots.map fun slot => slot.fullAmmo mechWeapons).sum } := by
  induction slots generalizing e with
  | nil => simp
  | cons slot slots ih =>
    rw [foldl_cons, ih, map_cons, map_cons, sum_cons,
      sum_cons, BitVec.ofNat_add, BitVec.ofNat_add]
    simp only [AmmoEntry.add, BitVec.add_assoc]

theorem sum_usableData (slots : List CriticalSlot) :
    (slots.map CriticalSlot.usableData).sum =
      ((slots.filter fun slot => !slot.isNonfunctional).map fun slot => slot.data.toNat).sum := by
  induction slots with
  | nil => rfl
  | cons slot slots ih =>
    rw [map_cons, sum_cons, ih]
    unfold CriticalSlot.usableData
    cases works : slot.isNonfunctional <;> simp [works]

variable {slots : List CriticalSlot}

theorem sum_le {f : CriticalSlot → Nat} (bytes : ∀ slot, f slot < 256) :
    (slots.map f).sum ≤ 255 * slots.length := by
  induction slots with
  | nil => exact Nat.le_refl 0
  | cons slot slots ih =>
    have byte := bytes slot
    rw [map_cons, sum_cons, length_cons]
    omega

theorem sum_lt {f : CriticalSlot → Nat} (few : slots.length ≤ 96) (bytes : ∀ slot, f slot < 256) :
    (slots.map f).sum < 2 ^ 16 := by
  have most := (sum_le bytes : (slots.map f).sum ≤ _)
  omega

theorem usableData_lt (slot : CriticalSlot) : slot.usableData < 256 := by
  unfold CriticalSlot.usableData
  split
  · decide
  · exact slot.data.isLt

theorem fullAmmo_lt (slot : CriticalSlot) : slot.fullAmmo mechWeapons < 256 :=
  Nat.lt_of_le_of_lt (Nat.div_le_self _ _) (BitVec.isLt _)

theorem filter_itemKey (bins : ∀ slot ∈ slots, slot.isBin = true) (kind : Nat × BitVec 32) :
    (slots.filter fun slot => (ammoGrouping mechWeapons).itemKey slot = kind) =
      slots.filter fun slot => slot.kind = kind :=
  filter_congr fun slot member => by rw [itemKey_eq (bins slot member)]

theorem group_bins {mech : Mech} {e : AmmoEntry}
    (grouped : (ammoGrouping mechWeapons).group mech.bins e.kind = some e) :
    e.ammo.toNat = mech.currentAmmo e.kind ∧
      e.ammomax.toNat = mech.fullLoads mechWeapons e.kind := by
  have bins : ∀ slot ∈ mech.bins, slot.isBin = true := fun slot member => (mem_filter.mp member).2
  unfold Grouping.group at grouped
  rw [filter_itemKey bins] at grouped
  unfold Mech.currentAmmo Mech.fullLoads
  rw [← sum_usableData]
  have few := length_binsOf mech e.kind
  unfold Mech.binsOf at *
  generalize (mech.bins.filter fun slot => slot.kind = e.kind) = slots at grouped few
  cases slots with
  | nil => exact absurd grouped (by simp)
  | cons fst rest =>
    have joined := Option.some.inj grouped
    change rest.foldl (AmmoEntry.add mechWeapons) (AmmoEntry.new mechWeapons fst) = e at joined
    rw [foldl_add] at joined
    rw [← joined]
    dsimp only [AmmoEntry.new]
    rw [← BitVec.ofNat_add, ← BitVec.ofNat_add, BitVec.toNat_ofNat, BitVec.toNat_ofNat]
    exact ⟨Nat.mod_eq_of_lt (sum_lt few usableData_lt), Nat.mod_eq_of_lt (sum_lt few fullAmmo_lt)⟩

/-- With room for the weapons and modes that have bins, `FindAmmunition` stays in its arrays and
lists those of which there are rounds in working bins, each once, with these rounds and with the
full loads of all bins. -/
theorem find_ammunition {mech : Mech} {size : Nat} (supported : mech.ammoKinds.card ≤ size) :
    ∃ entries, findAmmunition mechWeapons size mech = some entries ∧ entries.length ≤ size ∧
      (entries.map AmmoEntry.kind).Nodup ∧
      (∀ kind, kind ∈ entries.map AmmoEntry.kind ↔ 0 < mech.currentAmmo kind) ∧
      ∀ entry ∈ entries, entry.ammo.toNat = mech.currentAmmo entry.kind ∧
        entry.ammomax.toNat = mech.fullLoads mechWeapons entry.kind := by
  have bins : ∀ slot ∈ mech.bins, slot.isBin = true := fun slot member => (mem_filter.mp member).2
  have keys : (mech.bins.map (ammoGrouping mechWeapons).itemKey).toFinset = mech.ammoKinds := by
    unfold Mech.ammoKinds
    rw [map_congr_left fun slot member => itemKey_eq (bins slot member)]
  have length := (ammoGrouping mechWeapons).gather_length mech.bins
  rw [keys] at length
  have gathered : findAmmunition mechWeapons size mech =
      some (((ammoGrouping mechWeapons).gather mech.bins).filter fun entry => entry.ammo ≠ 0) := by
    have loops := noteSlots_eq mech.slots (Nat.le_trans (Nat.le_of_eq length) supported)
    unfold Mech.slots at loops
    rw [foldlM_map] at loops
    unfold findAmmunition
    rw [loops, Option.map_some, pruneFrom_eq _ _ _ (Nat.le_of_eq (Nat.zero_add _).symm)]
    rfl
  have totals (entry : AmmoEntry) (member : entry ∈ (ammoGrouping mechWeapons).gather mech.bins) :=
    group_bins (((ammoGrouping mechWeapons).mem_gather mech.bins entry).mp member)
  refine ⟨_, gathered, Nat.le_trans (length_filter_le _ _) (Nat.le_trans (Nat.le_of_eq length)
    supported), ?_, fun kind => ?_, fun entry member => totals entry (mem_filter.mp member).1⟩
  · exact ((ammoGrouping mechWeapons).gather_keys_nodup mech.bins).sublist
      (filter_sublist.map AmmoEntry.kind)
  · rw [mem_map]
    constructor
    · rintro ⟨entry, member, rfl⟩
      obtain ⟨member, some⟩ := mem_filter.mp member
      rw [← (totals entry member).1, Nat.pos_iff_ne_zero]
      intro none
      exact of_decide_eq_true some (BitVec.eq_of_toNat_eq none)
    · intro some
      have known : ((ammoGrouping mechWeapons).group mech.bins kind).isSome := by
        rw [Grouping.group_isSome_iff, map_congr_left fun slot member =>
          itemKey_eq (bins slot member), mem_map]
        have nonempty : mech.binsOf kind ≠ [] := by
          intro none
          unfold Mech.currentAmmo at some
          rw [none] at some
          exact Nat.lt_irrefl 0 some
        obtain ⟨slot, member⟩ := exists_mem_of_ne_nil _ nonempty
        obtain ⟨member, same⟩ := mem_filter.mp member
        exact ⟨slot, member, of_decide_eq_true same⟩
      obtain ⟨entry, grouped⟩ := Option.isSome_iff_exists.mp known
      obtain rfl : entry.kind = kind := (ammoGrouping mechWeapons).key_group grouped
      have member := ((ammoGrouping mechWeapons).mem_gather mech.bins entry).mpr grouped
      refine ⟨entry, mem_filter.mpr ⟨member, decide_eq_true fun none => ?_⟩, rfl⟩
      rw [← (totals entry member).1, none] at some
      exact absurd some (by decide)

def someMech (bins : List (Place × BitVec 8 × BitVec 32)) : Mech where
  isMech := true
  criticals place :=
    if place = (0, 0) then ⟨0, 17, 0, 0, none⟩
    else match bins.find? fun bin => bin.1 = place with
      | some (_, data, firemode) => ⟨data, 209, firemode, 0, none⟩
      | none => ⟨0, 0, 0, 0, none⟩

def someWeapons : Int → Weapon := fun _ => ⟨.ammo, 1, 200, 0⟩

theorem find_ammunition_some :
    ∃ entries, findAmmunition someWeapons 1 (someMech [((2, 0), 150, 0), ((3, 4), 50, 0x80)]) =
        some entries ∧ entries.length ≤ 1 ∧ (entries.map AmmoEntry.kind).Nodup ∧
      (∀ kind, kind ∈ entries.map AmmoEntry.kind ↔
        0 < (someMech [((2, 0), 150, 0), ((3, 4), 50, 0x80)]).currentAmmo kind) ∧
      ∀ entry ∈ entries, entry.ammo.toNat =
          (someMech [((2, 0), 150, 0), ((3, 4), 50, 0x80)]).currentAmmo entry.kind ∧
        entry.ammomax.toNat =
          (someMech [((2, 0), 150, 0), ((3, 4), 50, 0x80)]).fullLoads someWeapons entry.kind :=
  find_ammunition (by decide)

/-- An empty bin is not listed, and the maximum counts a destroyed bin. -/
theorem report_leaves_out :
    ((16, 0) ∈ (someMech [((2, 0), 0, 0)]).ammoKinds ∧
      findAmmunition someWeapons 96 (someMech [((2, 0), 0, 0)]) = some []) ∧
    findAmmunition someWeapons 96 (someMech [((2, 0), 150, 0), ((3, 4), 0, 1)]) =
      some [⟨16, 150, 400, 0⟩] := by
  decide

end BattletechMux.Ammo
