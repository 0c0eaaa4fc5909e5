/-
Module: BattletechMux.Unit.World
Purpose: The units and maps of the game, their C3 and C3i networks, and what a network sees of a
  target, from mech.c3.c, mech.c3i.c and mech.c3.misc.c.
Trusted boundary: ECM fields and lines of sight to the target are inputs
-/
import Mathlib.Logic.Function.Basic
import Mathlib.Data.Int.Notation

namespace BattletechMux.UnitWorld

section

open Function (update)

abbrev Dbref := Int

structure Network where
  elem : Nat → Dbref
  size : Int
deriving Inhabited

def maxMechsPerMap : Nat := 250

/-- The two letters of `MechID`. -/
abbrev MechId := Nat × Nat

/-- The fields of a `MECH` the modelled functions use.  The `MechStatus`,
`MechSpecials` and `MechCritStatus` bits they test are fields of their own. -/
structure Unit where
  mapindex : Dbref
  mapnumber : Nat
  id : MechId
  team : Int
  /-- `STARTED` -/
  started : Bool
  /-- `DESTROYED` -/
  destroyed : Bool
  /-- `TOWED` -/
  towed : Bool
  /-- `LOCK_TARGET` -/
  lockTarget : Bool
  /-- the other bits of `LOCK_MODES` -/
  lockElsewhere : Bool
  target : Dbref
  carrying : Dbref
  tagTarget : Dbref
  /-- `MechNumSeen` -/
  numSeen : Nat
  /-- `MechPNumSeen` -/
  canSee : Nat
  /-- `AA_TECH` -/
  aaTech : Bool
  /-- `HasC3` -/
  hasC3 : Bool
  /-- `C3Destroyed` -/
  c3Destroyed : Bool
  workingC3Masters : Nat
  c3Network : Network
  /-- `HasC3i` -/
  hasC3i : Bool
  /-- `C3iDestroyed` -/
  c3iDestroyed : Bool
  c3iNetwork : Network
deriving Inhabited

abbrev LosFlag := BitVec 16

/-- The dynamic part of a `MAP`.  `firstFree` is an `unsigned char`. -/
structure GameMap where
  firstFree : Nat
  mechsOnMap : Nat → Dbref
  mechflags : Nat → Nat
  losInfo : Nat → Nat → LosFlag
  moves : Nat
deriving Inhabited

/-- All units and maps.  `xtypeMap` says which objects carry the XTYPE that
`ValidMap` asks for. -/
structure World where
  isMech : Dbref → Bool
  isMap : Dbref → Bool
  xtypeMap : Dbref → Bool
  unit : Dbref → Unit
  map : Dbref → GameMap
  /-- #0 is a room, and no object has a negative dbref. -/
  mech_pos : ∀ ref, isMech ref = true → 0 < ref
  map_nonneg : ∀ ref, isMap ref = true → 0 ≤ ref

namespace World

def start (mechs maps : List Dbref) (unit : Dbref → Unit) : World where
  isMech ref := decide (0 < ref) && mechs.contains ref
  isMap ref := decide (0 ≤ ref) && maps.contains ref
  xtypeMap ref := maps.contains ref
  unit ref := { unit ref with mapindex := -1 }
  map _ := default
  mech_pos ref isMech := by simpa using (Bool.and_eq_true_iff.mp isMech).1
  map_nonneg ref isMap := by simpa using (Bool.and_eq_true_iff.mp isMap).1

def setUnit (w : World) (mech : Dbref) (u : Unit) : World :=
  { w with unit := update w.unit mech u }

def setMap (w : World) (map : Dbref) (m : GameMap) : World :=
  { w with map := update w.map map m }

section Projections

variable (w : World) (mech map : Dbref) (u : Unit) (m : GameMap)

@[simp] theorem setUnit_isMech : (w.setUnit mech u).isMech = w.isMech := rfl
@[simp] theorem setUnit_isMap : (w.setUnit mech u).isMap = w.isMap := rfl
@[simp] theorem setUnit_xtypeMap : (w.setUnit mech u).xtypeMap = w.xtypeMap := rfl
@[simp] theorem setUnit_map : (w.setUnit mech u).map = w.map := rfl
@[simp] theorem setMap_isMech : (w.setMap map m).isMech = w.isMech := rfl
@[simp] theorem setMap_isMap : (w.setMap map m).isMap = w.isMap := rfl
@[simp] theorem setMap_xtypeMap : (w.setMap map m).xtypeMap = w.xtypeMap := rfl
@[simp] theorem setMap_unit : (w.setMap map m).unit = w.unit := rfl

theorem setUnit_unit : (w.setUnit mech u).unit = update w.unit mech u := rfl
theorem setMap_map : (w.setMap map m).map = update w.map map m := rfl

@[simp] theorem setUnit_unit_self : (w.setUnit mech u).unit mech = u := by
  simp [setUnit_unit]

@[simp] theorem setMap_map_self : (w.setMap map m).map map = m := by
  simp [setMap_map]

variable {mech map}

theorem setUnit_unit_of_ne {o : Dbref} (different : o ≠ mech) :
    (w.setUnit mech u).unit o = w.unit o := by
  simp [setUnit_unit, different]

theorem setMap_map_of_ne {o : Dbref} (different : o ≠ map) :
    (w.setMap map m).map o = w.map o := by
  simp [setMap_map, different]

end Projections

/-- `getMech`, and `FindObjectsData` of a slot. -/
def getMech (w : World) (ref : Dbref) : Option Dbref :=
  if w.isMech ref then some ref else none

def getMap (w : World) (ref : Dbref) : Option Dbref :=
  if w.isMap ref then some ref else none

def validMap (w : World) (ref : Dbref) : Option Dbref :=
  if w.isMap ref && w.xtypeMap ref then some ref else none

theorem getMech_eq_some {w : World} {ref hf : Dbref} :
    w.getMech ref = some hf ↔ w.isMech ref = true ∧ ref = hf := by
  simp [getMech]

theorem getMap_eq_some {w : World} {ref hf : Dbref} :
    w.getMap ref = some hf ↔ w.isMap ref = true ∧ ref = hf := by
  simp [getMap]

end World

end

section

open Function (update)

/-- `C3_NETWORK_SIZE`, `C3I_NETWORK_SIZE`. -/
def networkLength (isC3 : Bool) : Nat := if isC3 then 11 else 5

namespace Unit

/-- `MechC3Network`, `MechC3iNetwork`. -/
def network (u : Unit) (isC3 : Bool) : Network :=
  if isC3 then u.c3Network else u.c3iNetwork

/-- Write `MechC3Network` or `MechC3iNetwork`. -/
def setNetwork (u : Unit) (isC3 : Bool) (n : Network) : Unit :=
  if isC3 then { u with c3Network := n } else { u with c3iNetwork := n }

/-- `HasC3`, `HasC3i`. -/
def hasComputer (u : Unit) (isC3 : Bool) : Bool := if isC3 then u.hasC3 else u.hasC3i

/-- `C3Destroyed`, `C3iDestroyed`. -/
def computerDestroyed (u : Unit) (isC3 : Bool) : Bool :=
  if isC3 then u.c3Destroyed else u.c3iDestroyed

end Unit

namespace World

def network (w : World) (isC3 : Bool) (mech : Dbref) : Network :=
  (w.unit mech).network isC3

def setNetwork (w : World) (isC3 : Bool) (mech : Dbref) (n : Network) : World :=
  w.setUnit mech ((w.unit mech).setNetwork isC3 n)

def setElem (w : World) (isC3 : Bool) (mech : Dbref) (i : Nat) (ref : Dbref) : World :=
  let n := w.network isC3 mech
  w.setNetwork isC3 mech { n with elem := update n.elem i ref }

def setSize (w : World) (isC3 : Bool) (mech : Dbref) (size : Int) : World :=
  w.setNetwork isC3 mech { w.network isC3 mech with size := size }

/-- Store a list as the network: its elements from index 0 on, and its length. -/
def storeNetwork (w : World) (isC3 : Bool) (mech : Dbref) (members : List Dbref) :
    World :=
  let w := (List.range members.length).foldl
    (fun w i => w.setElem isC3 mech i (members.getD i 0)) w
  w.setSize isC3 mech members.length

end World

/-- The tests of `getOtherMechInNetwork` on the unit it finds.  All callers whose
answer the networks depend on leave its ECM, started and consciousness tests
off. -/
def reachable (isC3 : Bool) (mech temp : Unit) : Bool :=
  temp.team == mech.team && temp.mapindex == mech.mapindex && !temp.destroyed &&
    temp.hasComputer isC3 && !temp.computerDestroyed isC3

def getOtherMechInNetwork (w : World) (isC3 : Bool) (mech : Dbref) (wIdx : Nat) :
    Option Dbref :=
  let n := w.network isC3 mech
  if n.size ≤ wIdx then none
  else
    let ref := n.elem wIdx
    if 0 < ref then
      (w.getMech ref).filter fun temp => reachable isC3 (w.unit mech) (w.unit temp)
    else none

def countMaxC3Units (w : World) (mech : Dbref) (temp : List Dbref)
    (targMech : Option Dbref) : Nat :=
  let masters := (temp.filterMap w.getMech).map fun ref => (w.unit ref).workingC3Masters
  let wcC3Masters := masters.foldl (· + ·) 0
  let maxC3Size := wcC3Masters * 4 - wcC3Masters
  let mine := (w.unit mech).workingC3Masters
  let maxC3Size := if mine > 0 then maxC3Size + (mine * 4 - mine) else maxC3Size
  let maxC3Size :=
    match targMech with
    | none => maxC3Size
    | some targ =>
      let theirs := (w.unit targ).workingC3Masters
      if theirs > 0 then maxC3Size + (theirs * 4 - theirs) else maxC3Size
  min maxC3Size 11

/-- The second loop of `trimC3Network`: slaves up to the maximum. -/
def addSlaves (w : World) (maxC3Size : Nat) : List Dbref → List Dbref → List Dbref
  | [], kept => kept
  | ref :: rest, kept =>
    match w.getMech ref with
    | none => addSlaves w maxC3Size rest kept
    | some other =>
      let kept := if (w.unit other).workingC3Masters = 0 then kept ++ [ref] else kept
      if kept.length ≥ maxC3Size then kept else addSlaves w maxC3Size rest kept

def trimC3Network (w : World) (mech : Dbref) (temp : List Dbref) : List Dbref :=
  let maxC3Size := countMaxC3Units w mech temp none
  if maxC3Size < temp.length then
    let masters := temp.filter fun ref =>
      w.isMech ref && decide (0 < (w.unit ref).workingC3Masters)
    if masters.length < maxC3Size then addSlaves w maxC3Size temp masters else masters
  else temp

/-- The loop of `clearMechFromC3Network`. -/
def eraseRef (isC3 : Bool) (refToClear mech : Dbref) (w : World) : World :=
  (List.range (networkLength isC3)).foldl
    (fun w i =>
      if (w.network isC3 mech).elem i = refToClear then w.setElem isC3 mech i (-1)
      else w) w

/-- `clearMechFromC3Network`, over the validation it ends with. -/
def clearMechFromNetworkWith (validate : Dbref → World → Option World) (isC3 : Bool)
    (refToClear mech : Dbref) (w : World) : Option World :=
  if (w.network isC3 mech).size = 0 then some w
  else validate mech (eraseRef isC3 refToClear mech w)

/-- One round of the loop of `clearC3Network`. -/
def clearElem (validate : Dbref → World → Option World) (isC3 : Bool) (mech : Dbref)
    (tClearFromOthers : Bool) (w : World) (i : Nat) : Option World :=
  let otherMech := getOtherMechInNetwork w isC3 mech i
  let w := w.setElem isC3 mech i (-1)
  match tClearFromOthers, otherMech with
  | true, some other => clearMechFromNetworkWith validate isC3 mech other w
  | _, _ => some w

/-- `clearC3Network`, over the validation of the units it clears from. -/
def clearNetworkWith (validate : Dbref → World → Option World) (isC3 : Bool)
    (mech : Dbref) (tClearFromOthers : Bool) (w : World) : Option World := do
  let w ← (List.range (networkLength isC3)).foldlM
    (clearElem validate isC3 mech tClearFromOthers) w
  some (w.setSize isC3 mech 0)

def reachableMembers (w : World) (isC3 : Bool) (mech : Dbref) : List Dbref :=
  (List.range (networkLength isC3)).filterMap (getOtherMechInNetwork w isC3 mech)

/-- What `validateC3Network` does for a unit that may have a network: it keeps the
units it reaches, and of these as many as the masters allow.  `clear` is
`clearC3Network` without telling the others. -/
def keepReachable (clear : World → Option World) (isC3 : Bool) (mech : Dbref)
    (w : World) : Option World := do
  let temp := reachableMembers w isC3 mech
  let w ← clear w
  let w := w.storeNetwork isC3 mech temp
  if isC3 then
    let trimmed := trimC3Network w mech temp
    if (trimmed.length : Int) = (w.network isC3 mech).size then some w
    else do
      let w ← clear w
      some (w.storeNetwork isC3 mech trimmed)
  else some w

/-- `validateC3Network`.  It calls `clearC3Network`, which validates other units;
`depth` bounds that recursion. -/
def validateNetwork (isC3 : Bool) : Nat → Dbref → World → Option World
  | 0, _, _ => none
  | depth + 1, mech, w =>
    let clear := clearNetworkWith (validateNetwork isC3 depth) isC3 mech
    let u := w.unit mech
    if !u.hasComputer isC3 || u.destroyed || u.computerDestroyed isC3 then clear true w
    else if (u.network isC3).size < 0 then clear true w
    else keepReachable (clear false) isC3 mech w

/-- Validating a unit validates units it reaches, and those no others. -/
def recursionDepth : Nat := 2

/-- `validateC3Network`, `validateC3iNetwork`. -/
def validate (isC3 : Bool) : Dbref → World → Option World :=
  validateNetwork isC3 recursionDepth

/-- `clearC3Network`, `clearC3iNetwork`. -/
def clearNetwork (isC3 : Bool) : Dbref → Bool → World → Option World :=
  clearNetworkWith (validate isC3) isC3

/-- `clearMechFromC3Network`, `clearMechFromC3iNetwork`. -/
def clearMechFromNetwork (isC3 : Bool) : Dbref → Dbref → World → Option World :=
  clearMechFromNetworkWith (validate isC3) isC3

/-- What `getFreeC3NetworkPos` finds. -/
inductive NetworkPos where
  | free (i : Nat)
  /-- `C3_POS_IN_NETWORK` -/
  | inNetwork
  /-- `C3_POS_NO_ROOM` -/
  | noRoom
deriving DecidableEq

/-- The loop of `getFreeC3NetworkPos`, over the indices still to try. -/
def findFreePos (n : Network) (mechToAdd : Dbref) : List Nat → NetworkPos
  | [] => .noRoom
  | i :: rest =>
    if 0 < n.elem i then
      if n.elem i = mechToAdd then .inNetwork else findFreePos n mechToAdd rest
    else .free i

/-- `getFreeC3NetworkPos`. -/
def getFreeNetworkPos (isC3 : Bool) (mech mechToAdd : Dbref) (w : World) :
    Option (World × NetworkPos) := do
  let w ← validate isC3 mech w
  some (w, findFreePos (w.network isC3 mech) mechToAdd (List.range (networkLength isC3)))

/-- `replicateC3Network`. -/
def replicateNetwork (isC3 : Bool) (mechSrc mechDest : Dbref) (w : World) :
    Option World := do
  let w ← clearNetwork isC3 mechDest false w
  let w := w.setElem isC3 mechDest 0 mechSrc
  let w := w.setSize isC3 mechDest 1
  let w := (List.range (networkLength isC3)).foldl
    (fun w i =>
      let otherRef := (w.network isC3 mechSrc).elem i
      if otherRef = mechDest then w
      else
        let size := (w.network isC3 mechDest).size
        let w := w.setElem isC3 mechDest size.toNat otherRef
        w.setSize isC3 mechDest (size + 1)) w
  validate isC3 mechDest w

/-- One round of the loop of `addMechToC3Network`. -/
def replicateElem (isC3 : Bool) (mech : Dbref) (w : World) (i : Nat) : Option World :=
  match getOtherMechInNetwork w isC3 mech i with
  | none => some w
  | some otherMech => replicateNetwork isC3 mech otherMech w

/-- `addMechToC3Network`. -/
def addMechToNetwork (isC3 : Bool) (mech mechToAdd : Dbref) (w : World) :
    Option World := do
  let (w, wPos) ← getFreeNetworkPos isC3 mech mechToAdd w
  match wPos with
  | .inNetwork => some w
  | .noRoom => some w
  | .free i => do
      let w := w.setElem isC3 mech i mechToAdd
      let w := w.setSize isC3 mech ((w.network isC3 mech).size + 1)
      let w ← (List.range (networkLength isC3)).foldlM (replicateElem isC3 mech) w
      validate isC3 mech w

inductive JoinArg where
  | leave
  | join (id : MechId)
deriving DecidableEq

/-- What the command learns from outside the modelled state: whether the other
tests of `common_checks` pass, whether an ECM field disturbs the unit, and
whether the target is in line of sight. -/
structure JoinContext where
  permitted : Bool
  ecmDisturbed : Bool
  inLineOfSight : Bool

def findMechOnMap (w : World) (map : Dbref) (id : MechId) : Option Dbref :=
  ((List.range (w.map map).firstFree).filterMap fun loop =>
    w.getMech ((w.map map).mechsOnMap loop)).find? fun temp => (w.unit temp).id == id

/-- The last test of the command: has the target's network no room for the unit? -/
def networkFull (isC3 : Bool) (mech target : Dbref) (w : World) : Bool :=
  let size := (w.network isC3 target).size
  if isC3 then
    let temp := (List.range size.toNat).map (w.network isC3 target).elem
    decide ((countMaxC3Units w mech temp (some target) : Int) < size + 1)
  else decide ((networkLength isC3 : Int) ≤ size)

/-- `mech_c3_join_leave`, `mech_c3i_join_leave`. -/
def joinLeave (isC3 : Bool) (mech : Dbref) (arg : JoinArg) (ctx : JoinContext)
    (w : World) : Option World :=
  let u := w.unit mech
  if u.destroyed || !u.started || !ctx.permitted || decide (u.mapindex < 0) then some w
  else if !w.isMap u.mapindex then
    some (w.setUnit mech { u with mapindex := -1, started := false })
  else if !u.hasComputer isC3 || u.computerDestroyed isC3 || ctx.ecmDisturbed then some w
  else do
    let w ← validate isC3 mech w
    match arg with
    | .leave =>
      if (w.network isC3 mech).size ≤ 0 then some w else clearNetwork isC3 mech true w
    | .join id =>
      if (w.network isC3 mech).size > 0 then some w
      else
        match findMechOnMap w (w.unit mech).mapindex id with
        | none => some w
        | some target =>
          let t := w.unit target
          if !ctx.inLineOfSight || t.team != (w.unit mech).team || target == mech ||
              t.destroyed || !t.started || !t.hasComputer isC3 then some w
          else do
            let w ← validate isC3 target w
            if networkFull isC3 mech target w then some w
            else addMechToNetwork isC3 target mech w

def validateC3Network := validate true

def validateC3iNetwork := validate false

def clearC3Network := clearNetwork true

def clearC3iNetwork := clearNetwork false

def replicateC3iNetwork := replicateNetwork false

def addMechToC3iNetwork := addMechToNetwork false

def mechC3JoinLeave := joinLeave true

def mechC3iJoinLeave := joinLeave false

end

inductive TargLos
  | none | clear | something
deriving DecidableEq, Repr

/-- What the functions learn of units: AnyECMDisturbed, and whether there is a line of sight to the
target, with and without blocking by terrain. -/
structure Sights where
  anyECMDisturbed : Dbref → Bool
  inLineOfSight : Dbref → Bool
  inLineOfSightNB : Dbref → Bool

/-- `getOtherMechInNetwork` with its ECM and started tests. -/
def getStartedMechInNetwork (w : World) (isC3 : Bool) (sights : Sights) (mech : Dbref)
    (wIdx : Nat) : Option Dbref :=
  (getOtherMechInNetwork w isC3 mech wIdx).filter fun tempMech =>
    !sights.anyECMDisturbed tempMech && (w.unit tempMech).started

/-- `buildTempNetwork` as `mechSeenByNetwork` calls it. -/
def buildTempNetwork (w : World) (isC3 : Bool) (sights : Sights) (mech : Dbref) : List Dbref :=
  let baseNetworkSize := (w.network isC3 mech).size.toNat
  let myTempNetwork :=
    (List.range baseNetworkSize).filterMap (getStartedMechInNetwork w isC3 sights mech)
  if isC3 ∧ 0 < myTempNetwork.length then trimC3Network w mech myTempNetwork else myTempNetwork

/-- `getMechInTempNetwork`, of an element of the network. -/
def getMechInTempNetwork (w : World) (refOtherMech : Dbref) : Option Dbref :=
  if 0 < refOtherMech then
    (w.getMech refOtherMech).filter fun tempMech => !(w.unit tempMech).destroyed
  else none

/-- The loop of `mechSeenByNetwork`. -/
def lookThrough (w : World) (sights : Sights) (mechTarget : Dbref) :
    TargLos → List Dbref → TargLos
  | los, [] => los
  | los, ref :: rest =>
    match getMechInTempNetwork w ref with
    | none => lookThrough w sights mechTarget los rest
    | some otherMech =>
      if otherMech = mechTarget then lookThrough w sights mechTarget los rest
      else if sights.inLineOfSight otherMech then
        if sights.inLineOfSightNB otherMech then .clear
        else lookThrough w sights mechTarget .something rest
      else lookThrough w sights mechTarget .none rest

def mechSeenByNetwork (w : World) (isC3 : Bool) (sights : Sights) (mech mechTarget : Dbref) :
    TargLos :=
  lookThrough w sights mechTarget .none (buildTempNetwork w isC3 sights mech)

end BattletechMux.UnitWorld
