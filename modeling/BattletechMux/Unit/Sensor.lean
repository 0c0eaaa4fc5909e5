/-
Module: BattletechMux.Unit.Sensor
Purpose: Putting units on maps and taking them off, the line-of-sight table, and towing, from
  map.dynamic.c, mech.restrict.c, glue.c, mech.sensor.c, mech.events.c and mech.pickup.c.
-/
import Mathlib.Data.List.Range
import Mathlib.Data.Rat.Defs
import BattletechMux.Unit.World

namespace BattletechMux.UnitWorld

section

open Function (update)

/-- `MECHLOSFLAG_SEEN`. -/
def flagSeen : LosFlag := 0x0001#16

/-- `flag & MECHLOSFLAG_SEEN`. -/
def seen (flag : LosFlag) : Bool := flag &&& flagSeen != 0

namespace Unit

def loseLock (u : Unit) : Unit :=
  { u with lockTarget := false, lockElsewhere := false, target := -1 }

/-- `LoseLock` of a unit that has locked on `mech`. -/
def loseLockOn (u : Unit) (mech : Dbref) : Unit :=
  if u.lockTarget && u.target == mech then u.loseLock else u

/-- `LoseLock` of a unit that has locked on anything. -/
def loseAnyLock (u : Unit) : Unit :=
  if u.lockTarget || u.lockElsewhere then u.loseLock else u

/-- An enemy less: `MAX(0, MechNumSeen(mech) - 1)`. -/
def dropEnemy (u : Unit) : Unit := { u with numSeen := u.numSeen - 1 }

/-- `MechNumSeen(mech) = 0`. -/
def forgetEnemies (u : Unit) : Unit := { u with numSeen := 0 }

/-- `mech->mapindex = -1; mech->mapnumber = 0;` -/
def leave (u : Unit) : Unit := { u with mapindex := -1, mapnumber := 0 }

/-- `mech->mapindex = newmap->mynum; mech->mapnumber = loop;` -/
def enter (u : Unit) (newmap : Dbref) (loop : Nat) : Unit :=
  { u with mapindex := newmap, mapnumber := loop }

/-- `MechStatus(mech) &= ~TOWED`. -/
def untow (u : Unit) : Unit := { u with towed := false }

/-- `TAGTarget(mech) = -1`. -/
def dropTag (u : Unit) : Unit := { u with tagTarget := -1 }

/-- `MechID(mech)[0] = targ[0]; MechID(mech)[1] = targ[1];` -/
def setId (u : Unit) (targ : MechId) : Unit := { u with id := targ }

/-- `SetCarrying(mech, -1)`. -/
def dropCarried (u : Unit) : Unit := { u with carrying := -1 }

end Unit

namespace World

def modifyUnit (w : World) (mech : Dbref) (f : Unit → Unit) : World :=
  w.setUnit mech (f (w.unit mech))

def modifyMap (w : World) (map : Dbref) (f : GameMap → GameMap) : World :=
  w.setMap map (f (w.map map))

section Projections

variable (w : World) (mech map : Dbref) (f : Unit → Unit) (g : GameMap → GameMap)

@[simp] theorem modifyUnit_isMech : (w.modifyUnit mech f).isMech = w.isMech := rfl
@[simp] theorem modifyUnit_isMap : (w.modifyUnit mech f).isMap = w.isMap := rfl
@[simp] theorem modifyUnit_map : (w.modifyUnit mech f).map = w.map := rfl
@[simp] theorem modifyMap_isMech : (w.modifyMap map g).isMech = w.isMech := rfl
@[simp] theorem modifyMap_isMap : (w.modifyMap map g).isMap = w.isMap := rfl
@[simp] theorem modifyMap_unit : (w.modifyMap map g).unit = w.unit := rfl

@[simp] theorem modifyUnit_unit_self :
    (w.modifyUnit mech f).unit mech = f (w.unit mech) := setUnit_unit_self _ _ _

@[simp] theorem modifyMap_map_self :
    (w.modifyMap map g).map map = g (w.map map) := setMap_map_self _ _ _

variable {mech map}

theorem modifyUnit_unit_of_ne {other : Dbref} (different : other ≠ mech) :
    (w.modifyUnit mech f).unit other = w.unit other := setUnit_unit_of_ne _ _ different

theorem modifyMap_map_of_ne {other : Dbref} (different : other ≠ map) :
    (w.modifyMap map g).map other = w.map other := setMap_map_of_ne _ _ different

end Projections

end World

/-- `map->LOSinfo[i][j] = flag`. -/
def GameMap.setLos (m : GameMap) (i j : Nat) (flag : LosFlag) : GameMap :=
  { m with losInfo := update m.losInfo i (update (m.losInfo i) j flag) }

/-- One round of the loop of `clear_mech_from_LOS`: both entries of a slot are
zeroed, and its unit loses its lock and one of the enemies it counts. -/
def clearSlotFromLOS (map mech : Dbref) (w : World) (i : Nat) : World :=
  let own := (w.unit mech).mapnumber
  let w := w.modifyMap map fun m => (m.setLos own i 0).setLos i own 0
  let m := w.map map
  if 0 ≤ m.mechsOnMap i ∧ i ≠ own then
    match w.getMech (m.mechsOnMap i) with
    | none => w
    | some mek =>
      let w := w.modifyUnit mek fun u => u.loseLockOn mech
      if seen (m.losInfo i own) && (w.unit mek).team != (w.unit mech).team then
        w.modifyUnit mek Unit.dropEnemy
      else w
  else w

def clearMechFromLOS (mech : Dbref) (w : World) : World :=
  match w.getMap (w.unit mech).mapindex with
  | none => w
  | some map =>
    let w := (List.range (w.map map).firstFree).foldl (clearSlotFromLOS map mech) w
    w.modifyUnit mech Unit.loseAnyLock

/-- The slot `remove_mech_from_map` frees: the unit's own, or else the first that
holds it. -/
def slotToFree (m : GameMap) (mech : Dbref) (mapnumber : Nat) : Option Nat :=
  if m.firstFree ≤ mapnumber ∨ m.mechsOnMap mapnumber ≠ mech then
    (List.range m.firstFree).find? fun loop => m.mechsOnMap loop == mech
  else some mapnumber

def GameMap.freeSlot (m : GameMap) (loop : Nat) : GameMap :=
  { m with
    mechsOnMap := update m.mechsOnMap loop (-1)
    mechflags := update m.mechflags loop 0
    firstFree := if loop = m.firstFree - 1 then m.firstFree - 1 else m.firstFree }

/-- The unit of a map that carries `mech`. -/
def findCarrier (w : World) (map mech : Dbref) : Option Dbref :=
  ((List.range (w.map map).firstFree).filterMap fun i =>
    w.getMech ((w.map map).mechsOnMap i)).find? fun t => (w.unit t).carrying == mech

/-- The part of `remove_mech_from_map` that takes the unit out of its slot. -/
def leaveSlot (map mech : Dbref) (w : World) : World :=
  let loop := slotToFree (w.map map) mech (w.unit mech).mapnumber
  let w := w.modifyUnit mech Unit.leave
  match loop with
  | none => w
  | some loop => w.modifyMap map fun m => m.freeSlot loop

/-- The part of `remove_mech_from_map` about a unit that is towed. -/
def releaseTow (map mech : Dbref) (w : World) : World :=
  if (w.unit mech).towed then
    match findCarrier w map mech with
    | none => w
    | some t => (w.modifyUnit t Unit.dropCarried).modifyUnit mech Unit.untow
  else w

def removeMechFromMap (map mech : Dbref) (w : World) : World :=
  let w := clearMechFromLOS mech w
  let w := leaveSlot map mech w
  let w := releaseTow map mech w
  w.modifyUnit mech Unit.forgetEnemies

def markForLOSUpdate (mech : Dbref) (w : World) : World :=
  match w.getMap (w.unit mech).mapindex with
  | none => w
  | some map => w.modifyMap map fun m =>
    { m with
      moves := m.moves + 1
      mechflags := update m.mechflags (w.unit mech).mapnumber 1 }

/-- The new slot at the end of the arrays: `first_free++`, and its row and column
of the table zeroed.  `first_free` is an `unsigned char`. -/
def GameMap.extend (m : GameMap) : GameMap :=
  let loop := m.firstFree
  let count := (m.firstFree + 1) % 256
  { m with
    firstFree := count
    losInfo := fun i j =>
      if (j = loop ∧ i < count) ∨ (i = loop ∧ j < count) then 0 else m.losInfo i j }

def GameMap.holds (m : GameMap) (mech : Dbref) : Bool :=
  (List.range m.firstFree).any fun loop => m.mechsOnMap loop == mech

def GameMap.freeSlot? (m : GameMap) : Option Nat :=
  (List.range m.firstFree).find? fun loop => decide (m.mechsOnMap loop < 0)

/-- The slot `add_mech_to_map` uses, and the map with that slot in its arrays. -/
def GameMap.slotToTake (m : GameMap) : Nat × GameMap :=
  match m.freeSlot? with
  | some loop => (loop, m)
  | none => (m.firstFree, m.extend)

def GameMap.fillSlot (m : GameMap) (loop : Nat) (mech : Dbref) : GameMap :=
  { m with
    mechsOnMap := update m.mechsOnMap loop mech
    mechflags := update m.mechflags loop 0 }

/-- The part of `add_mech_to_map` that puts the unit into a slot. -/
def takeSlot (newmap mech : Dbref) (w : World) : World :=
  let (loop, m) := (w.map newmap).slotToTake
  (w.modifyUnit mech fun u => u.enter newmap loop).setMap newmap (m.fillSlot loop mech)

/-- The part of `add_mech_to_map` about a unit that is towed. -/
def dropTow (newmap mech : Dbref) (w : World) : World :=
  if (w.unit mech).towed && (findCarrier w newmap mech).isNone then
    w.modifyUnit mech Unit.untow
  else w

def addMechToMap (newmap mech : Dbref) (w : World) : World :=
  if (w.map newmap).holds mech then w
  else markForLOSUpdate mech (dropTow newmap mech (takeSlot newmap mech w))

/-- `eliminate_empties`: the number of slots up to the last one in use. -/
def lastUsed (m : GameMap) : Nat → Nat
  | 0 => 0
  | i + 1 => if 0 < m.mechsOnMap i then i + 1 else lastUsed m i

/-- `map->first_free = count`. -/
def GameMap.truncate (m : GameMap) (count : Nat) : GameMap := { m with firstFree := count }

/-- `eliminate_empties`.  A map without any unit is left as it is. -/
def eliminateEmpties (map : Dbref) (w : World) : World :=
  match w.getMap map with
  | none => w
  | some map =>
    let count := lastUsed (w.map map) (w.map map).firstFree
    if count = 0 then w else w.modifyMap map fun m => m.truncate count

/-- The slots of a map, those that hold `mech` freed. -/
def GameMap.without (m : GameMap) (mech : Dbref) : GameMap :=
  { m with
    mechsOnMap := fun i =>
      if i < m.firstFree ∧ m.mechsOnMap i = mech then -1 else m.mechsOnMap i }

/-- `mech_remove_from_all_maps`: `remove_from_all_maps_func` at every map. -/
def mechRemoveFromAllMaps (mech : Dbref) (w : World) : World :=
  { w with map := fun ref => if w.isMap ref then (w.map ref).without mech else w.map ref }

def mechRemoveFromAllMapsExcept (mech num : Dbref) (w : World) : World :=
  { w with
    map := fun ref =>
      if w.isMap ref ∧ ref ≠ num then (w.map ref).without mech else w.map ref }

def mechMapConsistencyCheck (mech : Dbref) (w : World) : World :=
  let u := w.unit mech
  match w.getMap u.mapindex with
  | none => if 0 < u.mapindex then w.setUnit mech { u with mapindex := -1 } else w
  | some map =>
    if (w.map map).firstFree ≤ u.mapnumber ∨
        (w.map map).mechsOnMap u.mapnumber ≠ mech then
      mechRemoveFromAllMaps mech (w.setUnit mech { u with mapindex := -1 })
    else mechRemoveFromAllMapsExcept mech map w

def idInUse (w : World) (map : Dbref) (id : MechId) : Bool :=
  (List.range (w.map map).firstFree).any fun loop =>
    match w.getMech ((w.map map).mechsOnMap loop) with
    | none => false
    | some temp => (w.unit temp).id == id

/-- The part of `mech_Rsetmapindex` that takes the unit off its old map. -/
def leaveMap (mech : Dbref) (w : World) : Option World := do
  let w := removeMechFromMap (w.unit mech).mapindex mech w
  let w := w.modifyUnit mech Unit.dropTag
  let w ← clearC3iNetwork mech true w
  clearC3Network mech true w

/-- The part of `mech_Rsetmapindex` that puts the unit on its new map.  `ids` are
the IDs it tries in turn: the one it was given or read from the unit's attribute,
then random ones; `none` when they run out before one is unused. -/
def enterMap (mech newindex : Dbref) (ids : List MechId) (w : World) : Option World := do
  let targ ← ids.find? fun id => !idInUse w newindex id
  if (w.map newindex).firstFree = maxMechsPerMap then some w
  else
    some ((addMechToMap newindex mech w).modifyUnit mech fun u => u.setId targ)

def mechRsetmapindex (mech newindex : Dbref) (ids : List MechId) (w : World) :
    Option World :=
  if newindex < -1 then some w
  else if newindex ≠ -1 ∧ (w.validMap newindex).isNone then some w
  else if (w.unit mech).mapindex ≠ -1 then
    if (w.validMap (w.unit mech).mapindex).isNone then some w
    else do
      let w ← leaveMap mech w
      if newindex = -1 then some w else enterMap mech newindex ids w
  else if newindex = -1 then some w
  else enterMap mech newindex ids w

end

section

open Function (update)

/-- `MECHLOSFLAG_SEESP`. -/
def flagSeesPrimary : LosFlag := 0x0002#16

/-- `MECHLOSFLAG_SEESS`. -/
def flagSeesSecondary : LosFlag := 0x0004#16

/-- `MECHLOSFLAG_SEEC2`. -/
def flagTerrain : LosFlag := 0x0008#16

/-- `MECHLOSFLAG_BLOCK`. -/
def flagBlock : LosFlag := 0x8000#16

/-- The flags above `MECHLOSFLAG_SEEC2`. -/
def terrainMask : LosFlag := 0xFFF0#16

/-- What the sensor code works out about one unit looking at another. -/
structure Sight where
  /-- `checkECM` marks the target for an update. -/
  marksTarget : Bool
  /-- The test of the out-of-range shortcut of `update_LOSinfo`. -/
  outOfRange : Bool
  /-- The terrain flags `CalculateLOSFlag` collects. -/
  terrain : LosFlag
  /-- The sensors that can see the target: bit 0 the primary, bit 1 the
  secondary. -/
  canSee : BitVec 2
  /-- `Sensor_SeesNow` -/
  seesNow : Bool
deriving Inhabited

/-- `CalculateLOSFlag`: of the old flags only `MECHLOSFLAG_SEEN` stays. -/
def calculateLOSFlag (o : Sight) (ff : LosFlag) : LosFlag :=
  (ff &&& flagSeen) ||| flagTerrain ||| (o.terrain &&& terrainMask)

def sensorCanSee (o : Sight) (flag : LosFlag) : BitVec 2 :=
  if flag &&& flagTerrain = 0 then 0 else o.canSee

def withSensors (f : LosFlag) (sensors : BitVec 2) : LosFlag :=
  let f := if sensors.getLsbD 0 then f ||| flagSeesPrimary else f
  if sensors.getLsbD 1 then f ||| flagSeesSecondary else f

/-- The flags after the roll to notice a target that was not seen before. -/
def noticed (o : Sight) (f : LosFlag) : LosFlag :=
  if o.seesNow then withSensors f (sensorCanSee o f) else f

/-- `f & (MECHLOSFLAG_SEESP | MECHLOSFLAG_SEESS)`. -/
def sees (f : LosFlag) : Bool := f &&& (flagSeesPrimary ||| flagSeesSecondary) != 0

namespace Unit

/-- `MechPNumSeen(mech)++`. -/
def countCanSee (u : Unit) : Unit := { u with canSee := u.canSee + 1 }

def gainEnemy (u : Unit) (foe : Bool) : Unit :=
  if foe then { u with numSeen := u.numSeen + 1 } else u

def loseEnemy (u : Unit) (foe : Bool) (target : Dbref) : Unit :=
  let u := if foe then u.dropEnemy else u
  (u.loseLockOn target).countCanSee

end Unit

/-- `Sensor_DoWeSeeNow` on `map->LOSinfo[i][j]`, where `mech` looks at
`target`. -/
def sensorDoWeSeeNow (map : Dbref) (i j : Nat) (mech target : Dbref) (o : Sight)
    (seeanew : Nat) (w : World) : World :=
  let foe := (w.unit mech).team != (w.unit target).team
  let f := (w.map map).losInfo i j
  let store := fun (w : World) f => w.modifyMap map fun m => m.setLos i j f
  if !(w.unit mech).started then w
  else if seen f then
    let still := withSensors f (sensorCanSee o f)
    if sees still then store w still
    else
      store (w.modifyUnit mech fun u => u.loseEnemy foe target) (still &&& ~~~flagSeen)
  else if sensorCanSee o f = 0 then w
  else if seeanew = 0 then w.modifyUnit mech Unit.countCanSee
  else if sees (noticed o f) then
    store (w.modifyUnit mech fun u => u.gainEnemy foe) (noticed o f ||| flagSeen)
  else store (w.modifyUnit mech Unit.countCanSee) (noticed o f)

/-- What `update_LOSinfo` does about a unit looking at another: `second` in the
second of its loops, where the pair the other way round has been looked at
before. -/
def lookAt (second : Bool) (map : Dbref) (i j : Nat) (mech target : Dbref) (o : Sight)
    (w : World) : World :=
  let old := (w.map map).losInfo i j
  let look := fun flag =>
    sensorDoWeSeeNow map i j mech target o 0 (w.modifyMap map fun m => m.setLos i j flag)
  if second && (w.unit target).started &&
      (w.map map).losInfo j i &&& flagBlock != 0 then
    look (flagBlock ||| (old &&& (flagSeen ||| flagTerrain)))
  else if o.outOfRange then w.modifyMap map fun m => m.setLos i j flagBlock
  else look (calculateLOSFlag o old)

/-- One pair of the loops of `update_LOSinfo`. -/
def updatePair (second : Bool) (map : Dbref) (sight : Nat → Nat → Sight) (w : World)
    (pair : Nat × Nat) : World :=
  let (i, j) := pair
  let m := w.map map
  match w.getMech (m.mechsOnMap i), w.getMech (m.mechsOnMap j) with
  | some mech, some target =>
    if !(w.unit mech).started then w
    else if m.mechflags i = 0 ∧ m.mechflags j = 0 then w
    else if (sight i j).marksTarget then
      lookAt second map i j mech target (sight i j) (markForLOSUpdate target w)
    else lookAt second map i j mech target (sight i j) w
  | _, _ => w

def firstPairs (count : Nat) : List (Nat × Nat) :=
  (List.range count).flatMap fun i =>
    (List.range' (i + 1) (count - (i + 1))).map fun j => (i, j)

def secondPairs (count : Nat) : List (Nat × Nat) :=
  (List.range' 1 (count - 1)).flatMap fun i => (List.range i).map fun j => (i, j)

/-- The last loop of `update_LOSinfo`. -/
def GameMap.clearMechflags (m : GameMap) : GameMap :=
  { m with mechflags := fun i => if i < m.firstFree then 0 else m.mechflags i }

def updateLOSinfo (map : Dbref) (sight : Nat → Nat → Sight) (w : World) : World :=
  let count := (w.map map).firstFree
  let w := (firstPairs count).foldl (updatePair false map sight) w
  let w := (secondPairs count).foldl (updatePair true map sight) w
  w.modifyMap map GameMap.clearMechflags

/-- One round of the loop of `mech_plos_event`. -/
def plosSlot (map mech : Dbref) (sight : Nat → Nat → Sight) (w : World) (i : Nat) :
    World :=
  let own := (w.unit mech).mapnumber
  let slot := (w.map map).mechsOnMap i
  if 0 < slot ∧ slot ≠ mech ∧ !seen ((w.map map).losInfo own i) then
    match w.getMech slot with
    | none => w
    | some target =>
      sensorDoWeSeeNow map own i mech target (sight own i) 1
        (w.modifyUnit mech Unit.countCanSee)
  else w

def mechPlosEvent (mech : Dbref) (sight : Nat → Nat → Sight) (w : World) : World :=
  if !(w.unit mech).started then w
  else
    match w.getMap (w.unit mech).mapindex with
    | none => w
    | some map =>
      if (w.unit mech).canSee = 0 ∧ !(w.unit mech).aaTech then w
      else
        (List.range (w.map map).firstFree).foldl (plosSlot map mech sight)
          (w.modifyUnit mech fun u => { u with canSee := 0 })

/-- One round of the loop of `possibly_see_mech`. -/
def possiblySeeSlot (map mech : Dbref) (num : Nat) (sight : Nat → Nat → Sight)
    (w : World) (i : Nat) : World :=
  let slot := (w.map map).mechsOnMap i
  if i ≠ num ∧ 0 ≤ slot then
    match w.getMech slot with
    | none => w
    | some seer =>
      if (w.unit seer).mapindex ≠ map then
        w.modifyMap map fun m => { m with mechsOnMap := update m.mechsOnMap i (-1) }
      else
        sensorDoWeSeeNow map i num seer mech (sight i num) 2
          (w.modifyMap map fun m =>
            m.setLos i num (calculateLOSFlag (sight i num) (m.losInfo i num)))
  else w

def possiblySeeMech (mech : Dbref) (sight : Nat → Nat → Sight) (w : World) : World :=
  match w.getMap (w.unit mech).mapindex with
  | none => w
  | some map =>
    (List.range (w.map map).firstFree).foldl
      (possiblySeeSlot map mech (w.unit mech).mapnumber sight) w

end

inductive MechType where
  | mech
  | vehGround
  | vtol
  | vehNaval
  | spheroidDS
  | aero
  | mw
  | ds
  | bsuit
deriving DecidableEq, Inhabited

def MechType.dropShip (kind : MechType) : Bool := kind == .ds || kind == .spheroidDS

/-- What the towing commands read of a unit besides its place and its status. -/
structure Rig where
  x : Int
  y : Int
  z : Int
  kind : MechType
  tons : Int
  speed : Rat
  verticalSpeed : Int
  swarmTarget : Dbref
  /-- `MechRTerrain` is `BRIDGE`. -/
  onBridge : Bool
  /-- `MechRTerrain` is `ICE`. -/
  onIce : Bool
  /-- `MechMove` is `MOVE_NONE`. -/
  moveNone : Bool
  inCharacter : Bool
  towable : Bool
  salvageTech : Bool
  isQuad : Bool
  larmDestroyed : Bool
  rarmDestroyed : Bool
  /-- The shoulder and the hand of the arm are there. -/
  leftGrip : Bool
  rightGrip : Bool
  carryingClub : Bool
  jumping : Bool
  fallen : Bool
  burning : Bool
  moving : Bool
  falling : Bool
  ooDing : Bool
  blinded : Bool
  uncon : Bool
deriving Inhabited

/-- `fabs(MechSpeed) > limit || fabs(MechVerticalSpeed) > limit`. -/
def Rig.fasterThan (r : Rig) (limit : Rat) : Bool :=
  decide (limit < r.speed ∨ r.speed < -limit ∨
    limit < r.verticalSpeed ∨ (r.verticalSpeed : Rat) < -limit)

/-- What the ice that breaks under a carrier does to a unit's tow: the hit of a fall
snaps its lines, or the water destroys it. -/
inductive Mishap where
  | snap (mech : Dbref)
  | drown (mech : Dbref)
deriving DecidableEq

structure Scene where
  rig : Dbref → Rig
  /-- `InLineOfSight`. -/
  sees : Dbref → Dbref → Bool
  /-- The player is `GOD`. -/
  god : Bool
  wizard : Bool
  checkData : Bool
  /-- The player is the pilot. -/
  pilot : Bool
  mishaps : List Mishap
deriving Inhabited

namespace Unit

/-- `SetCarrying(mech, aRef)`. -/
def setCarrying (u : Unit) (aRef : Dbref) : Unit := { u with carrying := aRef }

/-- `MechStatus(target) |= TOWED`. -/
def setTowed (u : Unit) : Unit := { u with towed := true }

/-- `Shutdown`, up to the unit the shut down one carries. -/
def powerOff (u : Unit) : Unit :=
  { u with
    started := u.started && u.destroyed
    target := -1
    tagTarget := if 0 < u.tagTarget then 0 else u.tagTarget }

/-- `MechStatus(a) |= DESTROYED`. -/
def wreck (u : Unit) : Unit := { u with destroyed := true }

/-- `Startup`. -/
def powerOn (u : Unit) : Unit := { u with started := true, numSeen := 0 }

end Unit

/-- What a command leaves: the text of the check that stopped it, and the world. -/
abbrev Outcome := Option String × World

/-- The checks of a command in their order: the first that holds stops it. -/
def refusal (checks : List (Bool × String)) : Option String :=
  (checks.find? fun check => check.1).map fun check => check.2

def checked (checks : List (Bool × String)) (w : World) (perform : World → Outcome) :
    Outcome :=
  match refusal checks with
  | some message => (some message, w)
  | none => perform w

/-- `FindTargetDBREFFromMapNumber`.  An argument is its first two letters, in upper
case as the IDs of units are. -/
def findTargetDBREFFromMapNumber (mech : Dbref) (mapnum : MechId) (w : World) :
    Option Dbref × World :=
  if (w.unit mech).mapindex = -1 then (none, w)
  else
    match w.getMap (w.unit mech).mapindex with
    | none => (none, w.modifyUnit mech fun u => { u with mapindex := -1 })
    | some map => (findMechOnMap w map mapnum, w)

/-- `mech_dropoff` of a player who needs no `MECH_USUAL`. -/
def dropCarriedUnit (mech : Dbref) (w : World) : Outcome :=
  let aRef := (w.unit mech).carrying
  if aRef ≤ 0 then (some "You aren't carrying a mech!", w)
  else
    let w := w.modifyUnit mech Unit.dropCarried
    match w.getMech aRef with
    | none => (some "You were towing invalid target!", w)
    | some target => (none, w.modifyUnit target Unit.untow)

def shutdown (a : Dbref) (w : World) : World :=
  (dropCarriedUnit a (w.modifyUnit a Unit.powerOff)).2

def destroy (a : Dbref) (w : World) : World :=
  (shutdown a w).modifyUnit a Unit.wreck

def suffer (w : World) : Mishap → World
  | .snap mech => if w.isMech mech then (dropCarriedUnit mech w).2 else w
  | .drown mech => if w.isMech mech then destroy mech w else w

/-- `common_checks` with `MECH_USUAL`. -/
def commonChecks (scene : Scene) (mech : Dbref) (w : World) : Outcome :=
  let u := w.unit mech
  let r := scene.rig mech
  checked
    [(!scene.checkData, ""),
     (!scene.wizard && r.kind == .aero, ""),
     (u.destroyed, "You are destroyed!"),
     (!u.started, "Reactor is not online!"),
     (r.blinded, "You are momentarily blinded!"),
     (r.uncon && (!u.started || scene.pilot), "You are unconscious....zzzzzzz"),
     (decide (u.mapindex < 0), "You are on no map!")] w fun w =>
  if w.isMap u.mapindex then (none, w)
  else
    (some "You are on an invalid map! Map index reset!",
      (shutdown mech w).modifyUnit mech fun u => { u with mapindex := -1 })

/-- Perform a command after `cch(MECH_USUAL)`. -/
def cch (scene : Scene) (mech : Dbref) (w : World) (perform : World → Outcome) : Outcome :=
  match commonChecks scene mech w with
  | (none, w) => perform w
  | stopped => stopped

/-- `cch(MECH_USUAL)` for everyone but `GOD`. -/
def cchUnlessGod (scene : Scene) (mech : Dbref) (w : World) (perform : World → Outcome) :
    Outcome :=
  if scene.god then perform w else cch scene mech w perform

def oneArgument (args : List MechId) (w : World) (perform : MechId → Outcome) : Outcome :=
  match args with
  | [arg] => perform arg
  | _ => (some "Invalid number of arguments.", w)

def sighted (scene : Scene) (mech : Dbref) (arg : MechId) (message : String) (w : World)
    (perform : Dbref → World → Outcome) : Outcome :=
  match findTargetDBREFFromMapNumber mech arg w with
  | (none, w) => (some message, w)
  | (some target, w) =>
    if scene.sees mech target then perform target w else (some message, w)

/-- The checks of `mech_pickup` on any target. -/
def pickupChecks (scene : Scene) (mech target : Dbref) (w : World) : List (Bool × String) :=
  let r := scene.rig mech
  let t := scene.rig target
  [(r.carryingClub, "You can't pickup while you're carrying a club!"),
   (r.jumping, "You can't pickup while jumping!"),
   (t.jumping, "What are you going to do? Grab it from mid air?"),
   (r.fallen, "You are in no position to pick anything up!"),
   (decide (t.z + 3 < r.z), "You are too high above the target."),
   (decide (r.z < t.z - 2), "You are too far below the target."),
   (decide (r.x ≠ t.x ∨ r.y ≠ t.y), "You need to be in the same hex!"),
   (decide (t.z ≤ 0) && t.onBridge && decide (0 < r.z),
     "You need to be under the bridge to pick up this unit."),
   ((w.unit target).towed, "That target's already being towed by someone!"),
   (decide (t.swarmTarget = mech), "You can't grab hold!"),
   (decide (r.tons < 5) || (!t.inCharacter && !t.towable), "You can't tow that!"),
   (t.burning, "You can't tow a burning unit!")]

/-- The checks of `mech_pickup` on the way to take a target in tow. -/
def towChecks (scene : Scene) (mech target : Dbref) (w : World) : List (Bool × String) :=
  let r := scene.rig mech
  let t := scene.rig target
  (if r.kind = .mech then
    [(r.isQuad, "You've got four left feet, you can't tow!"),
     (r.larmDestroyed, "Your left arm is destroyed, you can't pick up anything."),
     (r.rarmDestroyed, "Your right arm is destroyed, you can't pick up anything."),
     (!r.rightGrip && !r.leftGrip, "You need functioning arm to pick things up!")]
  else [(!r.salvageTech, "You can't pick that up in this MECH/VEHICLE")]) ++
  [(decide (0 < (w.unit mech).carrying), "You are already carrying a Mech"),
   (r.fasterThan 1, "You are moving too fast to attempt a pickup."),
   (t.kind.dropShip, "You can't pick that up!"),
   (t.moveNone, "That's simply immobile!"),
   (decide ((w.unit mech).team ≠ (w.unit target).team) && (w.unit target).started,
     "You can't pick that up!"),
   (t.moving && (t.falling || t.ooDing), "You can't pick up a moving target!")]

/-- `SetCarrying(mech, target)` and `MechStatus(target) |= TOWED`. -/
def hitch (mech target : Dbref) (w : World) : World :=
  (w.modifyUnit mech fun u => u.setCarrying target).modifyUnit target Unit.setTowed

/-- `if (!Destroyed(target)) Shutdown(target)`. -/
def shutdownTowed (target : Dbref) (w : World) : World :=
  if (w.unit target).destroyed then w else shutdown target w

/-- The target breaks through the ice with the unit that lifts it. -/
def Scene.throughIce (scene : Scene) (mech target : Dbref) : Bool :=
  (scene.rig target).onIce && decide (0 ≤ (scene.rig mech).z ∧ (scene.rig target).z < 0)

/-- The part of `mech_pickup` after its checks. -/
def lift (scene : Scene) (mech target : Dbref) (w : World) : World :=
  let w := if 0 < (w.unit target).carrying then (dropCarriedUnit target w).2 else w
  let w := hitch mech target w
  let w := if scene.throughIce mech target then scene.mishaps.foldl suffer w else w
  shutdownTowed target w

/-- `mech_pickup`.  A mechwarrior is taken aboard and not towed. -/
def mechPickup (scene : Scene) (mech : Dbref) (args : List MechId) (w : World) : Outcome :=
  cchUnlessGod scene mech w fun w =>
  oneArgument args w fun arg =>
  sighted scene mech arg "That target is not in your line of sight." w fun target w =>
  checked (pickupChecks scene mech target w) w fun w =>
  if (scene.rig target).kind = .mw then (none, w)
  else
    checked (towChecks scene mech target w) w fun w =>
    (none, lift scene mech target w)

/-- The checks of `mech_attachcables` on the towing unit. -/
def towerChecks (scene : Scene) (mech towMech : Dbref) (w : World) : List (Bool × String) :=
  let r := scene.rig mech
  let t := scene.rig towMech
  [(decide (r.x ≠ t.x ∨ r.y ≠ t.y), "You need to be in the same hex as the towing unit!"),
   (t.jumping, "That towing unit is currently flying through the air!"),
   (decide (r.z ≠ t.z), "You must be on the same elevation as the towing unit!"),
   (decide (0 < (w.unit towMech).carrying), "That towing unit is towing someone else!"),
   ((w.unit towMech).towed, "That towing unit is already being towed by someone!"),
   (t.kind == .mw, "That unit can not tow!"),
   (t.moveNone, "That unit can not tow!"),
   (decide (t.tons < 5), "That unit can not tow!"),
   ((w.unit towMech).destroyed, "Destroyed units can not tow!"),
   (decide (t.tons < 5) || !t.inCharacter, "That unit can not tow!"),
   (t.burning, "You can not attach tow cables to a burning unit!"),
   (t.salvageTech,
     "That is a dedicated towing unit and can pick up the target itself!"),
   (t.fasterThan 0, "The towing unit is moving to fast for you to grab the tow cables!"),
   (decide ((w.unit towMech).team ≠ (w.unit mech).team),
     "You can not grab the tow cables from that unit!"),
   (t.kind != .mech && t.kind != .vehGround, "That unit can not tow!")]

/-- The checks of `mech_attachcables` on the unit to be towed. -/
def towedChecks (scene : Scene) (mech target : Dbref) (w : World) : List (Bool × String) :=
  let r := scene.rig mech
  let t := scene.rig target
  [(decide (r.x ≠ t.x ∨ r.y ≠ t.y), "You need to be in the same hex as the target!"),
   (t.jumping, "That target is currently flying through the air!"),
   (decide (r.z ≠ t.z), "You must be on the same elevation as the target!"),
   (decide (0 < (w.unit target).carrying), "That target is towing someone else!"),
   ((w.unit target).towed, "That target is already being towed by someone!"),
   (!t.inCharacter && !t.towable, "That unit can not be towed!"),
   (t.kind == .mw, "That unit can not be towed!"),
   (t.moveNone, "That unit can not be towed!"),
   (t.kind.dropShip, "That unit can not be towed!"),
   (t.burning, "You can not attach tow cables to a burning unit!"),
   (t.fasterThan 0, "The target is moving to fast for you to attach the tow cables!"),
   (decide ((w.unit target).team ≠ (w.unit mech).team) && (w.unit target).started,
     "That unit can not be towed!"),
   (t.moving && (t.falling || t.ooDing),
     "The target is moving to fast for you to attach the tow cables!")]

/-- `mech_attachcables`.  The towing unit and the target may be one unit. -/
def mechAttachcables (scene : Scene) (mech : Dbref) (args : List MechId) (w : World) :
    Outcome :=
  cchUnlessGod scene mech w fun w =>
  match args with
  | [tow, towed] =>
    checked [((scene.rig mech).ooDing,
      "You can't attach cables while floating in the air!")] w fun w =>
    sighted scene mech tow "That towing unit is not in your line of sight." w
      fun towMech w =>
    checked (towerChecks scene mech towMech w) w fun w =>
    sighted scene mech towed "That target is not in your line of sight." w fun target w =>
    checked (towedChecks scene mech target w) w fun w =>
    (none, shutdownTowed target (hitch towMech target w))
  | _ => (some "Invalid number of arguments.", w)

/-- The checks of `mech_detachcables`. -/
def detachChecks (scene : Scene) (mech towMech : Dbref) (w : World) :
    List (Bool × String) :=
  let r := scene.rig mech
  let t := scene.rig towMech
  [(decide (r.x ≠ t.x ∨ r.y ≠ t.y), "You need to be in the same hex as the towing unit!"),
   (decide (r.z ≠ t.z), "You must be on the same elevation as the towing unit!"),
   (decide ((w.unit towMech).carrying ≤ 0), "That unit is not towing anyone!")]

def mechDetachcables (scene : Scene) (mech : Dbref) (args : List MechId) (w : World) :
    Outcome :=
  cch scene mech w fun w =>
  oneArgument args w fun arg =>
  sighted scene mech arg "That towing unit is not in your line of sight." w fun towMech w =>
  checked (detachChecks scene mech towMech w) w fun w =>
  let aRef := (w.unit towMech).carrying
  let w := w.modifyUnit towMech Unit.dropCarried
  match w.getMech aRef with
  | none => (some "The towed unit was invalid!", w)
  | some target => (none, w.modifyUnit target Unit.untow)

def mechDropoff (scene : Scene) (mech : Dbref) (w : World) : Outcome :=
  cchUnlessGod scene mech w fun w => dropCarriedUnit mech w

/-- The part of `newfreemech` about the map of a unit that goes away. -/
def newfreemech (mech : Dbref) (w : World) : World :=
  if (w.unit mech).mapindex ≠ -1 then
    match w.getMap (w.unit mech).mapindex with
    | none => w
    | some map => removeMechFromMap map mech w
  else w

/-- What happens to tows: the four commands, units that leave and enter maps, and
units that start up, shut down and are destroyed. -/
inductive TowOp where
  | pickup (scene : Scene) (mech : Dbref) (args : List MechId)
  | attachcables (scene : Scene) (mech : Dbref) (args : List MechId)
  | detachcables (scene : Scene) (mech : Dbref) (args : List MechId)
  | dropoff (scene : Scene) (mech : Dbref)
  | rsetmapindex (mech newindex : Dbref) (ids : List MechId)
  | free (mech : Dbref)
  | startup (mech : Dbref)
  | shutdown (mech : Dbref)
  | destroy (mech : Dbref)

def TowOp.mech : TowOp → Dbref
  | .pickup _ mech _ => mech
  | .attachcables _ mech _ => mech
  | .detachcables _ mech _ => mech
  | .dropoff _ mech => mech
  | .rsetmapindex mech _ _ => mech
  | .free mech => mech
  | .startup mech => mech
  | .shutdown mech => mech
  | .destroy mech => mech

def World.perform (w : World) : TowOp → Option World
  | .pickup scene mech args => some (mechPickup scene mech args w).2
  | .attachcables scene mech args => some (mechAttachcables scene mech args w).2
  | .detachcables scene mech args => some (mechDetachcables scene mech args w).2
  | .dropoff scene mech => some (mechDropoff scene mech w).2
  | .rsetmapindex mech newindex ids => mechRsetmapindex mech newindex ids w
  | .free mech => some (newfreemech mech w)
  | .startup mech => some (w.modifyUnit mech Unit.powerOn)
  | .shutdown mech => some (UnitWorld.shutdown mech w)
  | .destroy mech => some (UnitWorld.destroy mech w)

def World.tow (w : World) (op : TowOp) : Option World :=
  if w.isMech op.mech then w.perform op else none

end BattletechMux.UnitWorld
