/-
Module: BattletechMux.Unit.Targets
Purpose: Units that remember other units: disposing of a unit, TAG from mech.tag.c, and battlesuits
  that swarm or mount from bsuit.c.
Trusted boundary: what a command asks of the game (equipment, recycling, sight, range, the roll) is
  given with it, and so is which suits a fall destroys; messages, positions and the recycling event
  are left out
-/
import BattletechMux.Unit.Occupancy

namespace BattletechMux.UnitWorld

section

open Function (update update_self update_of_ne)

/-- The unit is freed: `FindObjectsData` gives nothing for it then. -/
def World.free (w : World) (mech : Dbref) : World :=
  { w with
    isMech := update w.isMech mech false
    mech_pos := fun ref isMech => by
      by_cases same : ref = mech
      · rw [same, update_self] at isMech
        exact Bool.noConfusion isMech
      · rw [update_of_ne same] at isMech
        exact w.mech_pos ref isMech }

/-- `DisposeSpecialObject` of a unit. -/
def World.dispose (w : World) (mech : Dbref) : World := (newfreemech mech w).free mech

/-! ## What stays -/

/-- The units other than `mech` stay where they are and keep what they tag. -/
structure Stays (mech : Dbref) (w w' : World) : Prop where
  isMech : w'.isMech = w.isMech
  mapindex : ∀ other, other ≠ mech → (w'.unit other).mapindex = (w.unit other).mapindex
  tagTarget : ∀ other, other ≠ mech → (w'.unit other).tagTarget = (w.unit other).tagTarget

variable {w w' w'' : World} {mech map : Dbref}

namespace Stays

theorem refl (mech : Dbref) (w : World) : Stays mech w w := ⟨rfl, fun _ _ => rfl, fun _ _ => rfl⟩

theorem trans (fst : Stays mech w w') (snd : Stays mech w' w'') : Stays mech w w'' where
  isMech := snd.isMech.trans fst.isMech
  mapindex o ne :=
    (snd.mapindex o ne).trans (fst.mapindex o ne)
  tagTarget o ne :=
    (snd.tagTarget o ne).trans (fst.tagTarget o ne)

theorem of_unit (isMech : w'.isMech = w.isMech) (unit : w'.unit = w.unit) : Stays mech w w' :=
  ⟨isMech, fun _ _ => by rw [unit], fun _ _ => by rw [unit]⟩

theorem modifyUnit (w : World) (mech o : Dbref) (f : Unit → Unit)
    (keeps : o = mech ∨ ∀ u, (f u).mapindex = u.mapindex ∧ (f u).tagTarget = u.tagTarget) :
    Stays mech w (w.modifyUnit o f) := by
  refine ⟨rfl, fun third ne => ?_, fun third ne => ?_⟩ <;>
    by_cases eq : third = o
  · subst eq
    rw [World.modifyUnit_unit_self]
    exact ((keeps.resolve_left ne) _).1
  · rw [World.modifyUnit_unit_of_ne _ _ eq]
  · subst eq
    rw [World.modifyUnit_unit_self]
    exact ((keeps.resolve_left ne) _).2
  · rw [World.modifyUnit_unit_of_ne _ _ eq]

end Stays

theorem loseLockOn_stays (u : Unit) (mech : Dbref) :
    (u.loseLockOn mech).mapindex = u.mapindex ∧ (u.loseLockOn mech).tagTarget = u.tagTarget := by
  rw [Unit.loseLockOn]
  split <;> exact ⟨rfl, rfl⟩

theorem removeMechFromMap_stays (map mech : Dbref) (w : World) :
    Stays mech w (removeMechFromMap map mech w) := by
  have own : ∀ w f, Stays mech w (w.modifyUnit mech f) := fun w f =>
    Stays.modifyUnit w mech mech f (Or.inl rfl)
  have cleared : Stays mech w (clearMechFromLOS mech w) :=
    clearMechFromLOS_rule (Stays mech) Stays.trans (Stays.refl mech)
      (clearSlotFromLOS_rule (Stays mech) Stays.trans
      (fun _ _ _ _ => Stays.of_unit rfl rfl)
      (fun w mek => Stays.modifyUnit w mech mek _ (Or.inr fun u => loseLockOn_stays u mech))
      fun w mek => Stays.modifyUnit w mech mek _ (Or.inr fun _ => ⟨rfl, rfl⟩))
      (fun w => own w _) w
  have left : ∀ w, Stays mech w (leaveSlot map mech w) := by
    intro w
    unfold leaveSlot
    simp only
    split
    · exact own _ _
    · exact (own _ _).trans (Stays.of_unit rfl rfl)
  have released : ∀ w, Stays mech w (releaseTow map mech w) := by
    intro w
    unfold releaseTow
    split
    · split
      · exact Stays.refl mech w
      · exact (Stays.modifyUnit w mech _ Unit.dropCarried (Or.inr fun _ => ⟨rfl, rfl⟩)).trans
          (own _ _)
    · exact Stays.refl mech w
  exact ((cleared.trans (left _)).trans (released _)).trans (own _ _)

theorem addMechToMap_stays (map mech : Dbref) (w : World) :
    Stays mech w (addMechToMap map mech w) := by
  have own : ∀ w f, Stays mech w (w.modifyUnit mech f) := fun w f =>
    Stays.modifyUnit w mech mech f (Or.inl rfl)
  have marked : ∀ w, Stays mech w (markForLOSUpdate mech w) := by
    intro w
    unfold markForLOSUpdate
    split
    · exact Stays.refl mech w
    · exact Stays.of_unit rfl rfl
  have dropped : ∀ w, Stays mech w (dropTow map mech w) := by
    intro w
    unfold dropTow
    split
    · exact own _ _
    · exact Stays.refl mech w
  unfold addMechToMap
  split
  · exact Stays.refl mech w
  · refine Stays.trans ?_ ((dropped _).trans (marked _))
    exact (own w fun u => u.enter map (w.map map).slotToTake.1).trans (Stays.of_unit rfl rfl)

theorem networkOnly_stays (only : NetworkOnly w w') : Stays mech w w' where
  isMech := only.isMech
  mapindex o _ := only.mapindex o
  tagTarget o _ := by
    obtain ⟨_, _, eq⟩ := only.unit o
    rw [eq]

theorem enterMap_stays {newindex : Dbref} {ids : List MechId}
    (entered : enterMap mech newindex ids w = some w') : Stays mech w w' := by
  rcases enterMap_cases entered with rfl | ⟨_, _, rfl⟩
  · exact Stays.refl mech w'
  · exact (addMechToMap_stays _ _ _).trans (Stays.modifyUnit _ mech mech _ (Or.inl rfl))

theorem leaveMap_stays {left : World} (leaving : leaveMap mech w = some left) :
    Stays mech w left := by
  obtain ⟨w', leaves, only⟩ := leaveMap_spec mech w
  obtain rfl : w' = left := Option.some.inj (leaves.symm.trans leaving)
  exact ((removeMechFromMap_stays _ _ _).trans
    (Stays.modifyUnit _ mech mech _ (Or.inl rfl))).trans (networkOnly_stays only)

theorem mechRsetmapindex_stays {newindex : Dbref} {ids : List MechId}
    (moved : mechRsetmapindex mech newindex ids w = some w') : Stays mech w w' := by
  rcases mechRsetmapindex_cases moved with
    rfl | ⟨_, left, leaving, rfl | ⟨_, entered⟩⟩ | ⟨_, _, entered⟩
  · exact Stays.refl mech w'
  · exact leaveMap_stays leaving
  · exact (leaveMap_stays leaving).trans (enterMap_stays entered)
  · exact enterMap_stays entered

/-! ## Shutting down -/

theorem dropCarriedUnit_places (t : Dbref) (w : World) :
    SamePlaces w (dropCarriedUnit t w).2 := by
  have dropped : SamePlaces w (w.modifyUnit t Unit.dropCarried) :=
    SamePlaces.modifyUnit w t (fun _ => rfl) (fun _ => rfl) fun _ => rfl
  unfold dropCarriedUnit
  simp only
  split
  · exact SamePlaces.refl w
  · split
    · exact dropped
    · exact dropped.trans
        (SamePlaces.modifyUnit _ _ (fun _ => rfl) (fun _ => rfl) fun _ => rfl)

theorem shutdown_places (t : Dbref) (w : World) : SamePlaces w (shutdown t w) :=
  have off : SamePlaces w (w.modifyUnit t Unit.powerOff) :=
    SamePlaces.modifyUnit w t (fun _ => rfl) (fun _ => rfl) fun _ => rfl
  off.trans (dropCarriedUnit_places t _)

theorem destroy_places (t : Dbref) (w : World) : SamePlaces w (destroy t w) :=
  (shutdown_places t w).trans
    (SamePlaces.modifyUnit _ t (fun _ => rfl) (fun _ => rfl) fun _ => rfl)

theorem dropCarriedUnit_tagTarget (t : Dbref) (w : World) (o : Dbref) :
    ((dropCarriedUnit t w).2.unit o).tagTarget = (w.unit o).tagTarget := by
  have kept : ∀ (w : World) (mech : Dbref) (f : Unit → Unit),
      (∀ u, (f u).tagTarget = u.tagTarget) →
        ((w.modifyUnit mech f).unit o).tagTarget = (w.unit o).tagTarget := by
    intro w mech f keeps
    by_cases eq : o = mech
    · subst eq
      rw [World.modifyUnit_unit_self, keeps]
    · rw [World.modifyUnit_unit_of_ne _ _ eq]
  unfold dropCarriedUnit
  simp only
  split
  · rfl
  · split
    · exact kept _ _ _ fun _ => rfl
    · exact (kept _ _ Unit.untow fun _ => rfl).trans (kept w t Unit.dropCarried fun _ => rfl)

theorem shutdown_tagTarget {t : Dbref} (untagged : (w.unit t).tagTarget ≤ 0) (o : Dbref) :
    ((shutdown t w).unit o).tagTarget = (w.unit o).tagTarget := by
  refine (dropCarriedUnit_tagTarget t _ o).trans ?_
  by_cases eq : o = t
  · subst eq
    rw [World.modifyUnit_unit_self]
    exact if_neg (Int.not_lt.mpr untagged)
  · rw [World.modifyUnit_unit_of_ne _ _ eq]

theorem destroy_tagTarget {t : Dbref} (untagged : (w.unit t).tagTarget ≤ 0) (o : Dbref) :
    ((destroy t w).unit o).tagTarget = (w.unit o).tagTarget := by
  refine Eq.trans ?_ (shutdown_tagTarget untagged o)
  by_cases eq : o = t
  · subst eq
    rw [destroy, World.modifyUnit_unit_self]
    rfl
  · rw [destroy, World.modifyUnit_unit_of_ne _ _ eq]

/-! ## Finding a unit -/

theorem findTarget_spec (consistent : Consistent w) {arg : MechId} {target : Dbref}
    {w' : World} (hf : findTargetDBREFFromMapNumber mech arg w = (some target, w')) :
    w' = w ∧ w.isMech target = true ∧ 0 ≤ (w.unit mech).mapindex ∧
      (w.unit target).mapindex = (w.unit mech).mapindex := by
  unfold findTargetDBREFFromMapNumber at hf
  split at hf
  · simp at hf
  · split at hf
    · simp at hf
    · rename_i map onMap
      obtain ⟨isMap, rfl⟩ := World.getMap_eq_some.mp onMap
      obtain ⟨located, rfl⟩ := Prod.mk.inj hf
      have mem := List.mem_of_find?_eq_some located
      simp only [List.mem_filterMap, List.mem_range, World.getMech_eq_some] at mem
      obtain ⟨loop, below, isMech, rfl⟩ := mem
      have nonneg := Int.le_of_lt (w.mech_pos _ isMech)
      exact ⟨rfl, isMech, w.map_nonneg _ isMap, (consistent.slot isMap below nonneg).2.1⟩

theorem findTarget_none (consistent : Consistent w) (isMech : w.isMech mech = true)
    {arg : MechId} (lost : findTargetDBREFFromMapNumber mech arg w = (none, w')) :
    w' = w ∨ (w.unit mech).mapindex < 0 ∧
      w' = w.modifyUnit mech fun u => { u with mapindex := -1 } := by
  unfold findTargetDBREFFromMapNumber at lost
  split at lost
  · exact Or.inl (Prod.mk.inj lost).2.symm
  · split at lost
    · rename_i offMap
      refine Or.inr ⟨?_, (Prod.mk.inj lost).2.symm⟩
      by_contra there
      have isMap := (consistent.own isMech (Int.not_lt.mp there)).1
      simp [World.getMap, isMap] at offMap
    · exact Or.inl (Prod.mk.inj lost).2.symm

theorem reset_consistent (consistent : Consistent w) (off : (w.unit mech).mapindex < 0) :
    Consistent (w.modifyUnit mech fun u => { u with mapindex := -1 }) := by
  refine consistent.vacate mech ?_ (fun o ne => ?_) (fun seat held => ?_)
    (fun seat _ => rfl) consistent.room
  · rw [World.modifyUnit_unit_self]
    exact Int.negSucc_lt_zero 0
  · exact modifyUnit_place_of_ne ne
  · exact absurd held (consistent.unplaced off seat)

/-! ## Disposing of a unit -/

section

variable (consistent : Consistent w) (isMech : w.isMech mech = true)
include consistent isMech

theorem newfreemech_consistent :
    Consistent (newfreemech mech w) ∧ ((newfreemech mech w).unit mech).mapindex < 0 ∧
      Stays mech w (newfreemech mech w) := by
  unfold newfreemech
  split
  · split
    · rename_i offMap
      refine ⟨consistent, ?_, Stays.refl mech w⟩
      by_contra there
      have isMap := (consistent.own isMech (Int.not_lt.mp there)).1
      simp [World.getMap, isMap] at offMap
    · rename_i map onMap
      obtain ⟨isMap, eq⟩ := World.getMap_eq_some.mp onMap
      refine ⟨removeMechFromMap_consistent consistent isMech (eq ▸ isMap) (Or.inl eq), ?_,
        removeMechFromMap_stays map mech w⟩
      rw [removeMechFromMap_mapindex]
      exact Int.negSucc_lt_zero 0
  · rename_i off
    refine ⟨consistent, ?_, Stays.refl mech w⟩
    rw [Decidable.not_not.mp off]
    exact Int.negSucc_lt_zero 0

theorem dispose_consistent : Consistent (w.dispose mech) := by
  obtain ⟨kept, off, _⟩ := newfreemech_consistent consistent isMech
  refine kept.vacate mech off (fun o ne => ?_) (fun seat held => ?_)
    (fun seat _ => rfl) kept.room
  · have is : (w.dispose mech).isMech o = (newfreemech mech w).isMech o :=
      update_of_ne ne ..
    simp only [World.place, is]
    rfl
  · exact absurd held (kept.unplaced off seat)

theorem dispose_stays {o : Dbref} (is : (w.dispose mech).isMech o = true) :
    o ≠ mech ∧ w.isMech o = true ∧
      ((w.dispose mech).unit o).mapindex = (w.unit o).mapindex ∧
      ((w.dispose mech).unit o).tagTarget = (w.unit o).tagTarget := by
  obtain ⟨_, _, stays⟩ := newfreemech_consistent consistent isMech
  change update (newfreemech mech w).isMech mech false o = true at is
  have ne : o ≠ mech := by
    intro eq
    rw [eq, update_self] at is
    exact Bool.noConfusion is
  rw [update_of_ne ne, stays.isMech] at is
  exact ⟨ne, is, stays.mapindex o ne, stays.tagTarget o ne⟩

theorem dispose_isMech_of_ne {o : Dbref} (ne : o ≠ mech) :
    (w.dispose mech).isMech o = w.isMech o := by
  obtain ⟨_, _, stays⟩ := newfreemech_consistent consistent isMech
  change update (newfreemech mech w).isMech mech false o = _
  rw [update_of_ne ne, stays.isMech]

end

end

open Function (update)

/-- The units, and `TaggedBy`. -/
structure TagWorld where
  world : World
  taggedBy : Dbref → Dbref

/-- What `mech_tag` asks of the game. -/
structure TagFacts where
  /-- The checks of MECH_USUALO before the one for a map are passed. -/
  usual : Bool
  /-- The number of arguments is right. -/
  arguments : Bool
  hasTAG : Bool
  isTAGDestroyed : Bool
  tagRecycling : Bool
  los : Bool
  /-- `range > TAG_LONG`. -/
  tooFar : Bool
deriving Inhabited

/-- `TAGTarget(mech) = target`. -/
def Unit.setTag (target : Dbref) (u : Unit) : Unit := { u with tagTarget := target }

namespace TagWorld

variable (s : TagWorld)

def setTAGTarget (mech target : Dbref) : TagWorld :=
  { s with world := s.world.modifyUnit mech (Unit.setTag target) }

def untag (mech : Dbref) : TagWorld :=
  match s.world.getMech (s.world.unit mech).tagTarget with
  | none => s
  | some target =>
    if s.taggedBy target = mech then { s with taggedBy := update s.taggedBy target 0 } else s

def stopTAG (mech : Dbref) : TagWorld :=
  let s := s.untag mech
  if 0 < (s.world.unit mech).tagTarget then s.setTAGTarget mech 0 else s

/-- `checkTAG`; `lit` says that the target is in sight and in range. -/
def checkTAG (mech : Dbref) (lit : Bool) : TagWorld :=
  let refTarget := (s.world.unit mech).tagTarget
  if refTarget ≤ 0 then s
  else
    match s.world.getMech refTarget with
    | none => s.stopTAG mech
    | some target =>
      if s.taggedBy target ≠ mech then s.stopTAG mech
      else if !lit then s.stopTAG mech
      else s

def shutdown (a : Dbref) : TagWorld :=
  let s := s.stopTAG a
  { s with world := UnitWorld.shutdown a s.world }

def destroy (a : Dbref) : TagWorld :=
  let s := s.stopTAG a
  { s with world := UnitWorld.destroy a s.world }

/-- `mech_tag` of a target by its letters, after the checks of the unit. -/
def lightUp (mech : Dbref) (mapnum : MechId) (facts : TagFacts) : TagWorld :=
  match findTargetDBREFFromMapNumber mech mapnum s.world with
  | (none, w) => { s with world := w }
  | (some target, w) =>
    if !facts.los then { s with world := w }
    else if (w.unit mech).team = (w.unit target).team then { s with world := w }
    else if mech = target then { s with world := w }
    else if facts.tooFar then { s with world := w }
    else
      { ({ s with world := w }.setTAGTarget mech target) with
        taggedBy := update s.taggedBy target mech }

/-- `mech_tag`; the argument `-` is none. -/
def mechTag (mech : Dbref) (arg : Option MechId) (facts : TagFacts) : TagWorld :=
  if !facts.usual || decide ((s.world.unit mech).mapindex < 0) then s
  else if !s.world.isMap (s.world.unit mech).mapindex then
    let s := s.shutdown mech
    { s with world := s.world.modifyUnit mech fun u => { u with mapindex := -1 } }
  else if !facts.hasTAG || facts.isTAGDestroyed || facts.tagRecycling || !facts.arguments then s
  else
    match arg with
    | none => if (s.world.unit mech).tagTarget ≤ 0 then s else s.stopTAG mech
    | some mapnum => s.lightUp mech mapnum facts

end TagWorld

inductive TagOp where
  | mechTag (mech : Dbref) (arg : Option MechId) (facts : TagFacts)
  | stopTAG (mech : Dbref)
  | checkTAG (mech : Dbref) (lit : Bool)
  | rsetmapindex (mech newindex : Dbref) (ids : List MechId)
  | shutdown (mech : Dbref)
  | destroy (mech : Dbref)
  | dispose (mech : Dbref)

def TagOp.mech : TagOp → Dbref
  | .mechTag mech _ _ | .stopTAG mech | .checkTAG mech _ | .rsetmapindex mech _ _
  | .shutdown mech | .destroy mech | .dispose mech => mech

def TagWorld.step (s : TagWorld) : TagOp → Option TagWorld
  | .mechTag mech arg facts => some (s.mechTag mech arg facts)
  | .stopTAG mech => some (s.stopTAG mech)
  | .checkTAG mech lit => some (s.checkTAG mech lit)
  | .rsetmapindex mech newindex ids =>
    (mechRsetmapindex mech newindex ids s.world).map fun w => { s with world := w }
  | .shutdown mech => some (s.shutdown mech)
  | .destroy mech => some (s.destroy mech)
  | .dispose mech => some { s with world := s.world.dispose mech }

/-- The units, `MechSwarmTarget` and `MechType`. -/
structure SwarmWorld where
  world : World
  swarmTarget : Dbref → Dbref
  mechType : Dbref → MechType

/-- What `bsuit_swarm` is given. -/
inductive SwarmArg where
  /-- The argument `-`. -/
  | drop
  /-- No argument: the unit it has locked on. -/
  | default
  | named (mapnum : MechId)
deriving DecidableEq

/-- What `bsuit_swarm` asks of the game. -/
structure SwarmFacts where
  /-- The checks of MECH_USUALO before the one for a map are passed. -/
  usual : Bool
  jumping : Bool
  /-- A suit is still recovering from an attack. -/
  recycling : Bool
  los : Bool
  /-- `range < 1.0`. -/
  close : Bool
  targetJumping : Bool
  /-- INF_SWARM_TECH. -/
  swarmTech : Bool
  /-- A suit has to jettison its backpack first. -/
  mustJettison : Bool
  madePilotSkillRoll : Bool
deriving Inhabited

namespace SwarmWorld

variable (s : SwarmWorld)

def setSwarmTarget (mech target : Dbref) : SwarmWorld :=
  { s with swarmTarget := update s.swarmTarget mech target }

/-- Does the unit in a slot swarm `mech`? -/
def swarmerIn (map mech : Dbref) (i : Nat) : Option Dbref :=
  let j := (s.world.map map).mechsOnMap i
  if 0 < j ∧ i ≠ (s.world.unit mech).mapnumber then
    match s.world.getMech j with
    | none => none
    | some t => if s.swarmTarget t = mech then some t else none
  else none

def countSwarmers (mech : Dbref) : Nat :=
  match s.world.getMap (s.world.unit mech).mapindex with
  | none => 0
  | some map =>
    ((List.range (s.world.map map).firstFree).filter fun i =>
      (s.swarmerIn map mech i).isSome).length

/-- The loop of `StopBSuitSwarmers`, with what is done to each who swarms the unit. -/
def eachSwarmer (visit : Dbref → SwarmWorld → SwarmWorld) (map mech : Dbref) : SwarmWorld :=
  (List.range (s.world.map map).firstFree).foldl (fun s i =>
    match s.swarmerIn map mech i with
    | none => s
    | some t => visit t s) s

/-- `StopSwarming(mech, 1)`. -/
def letGo (mech : Dbref) : SwarmWorld :=
  match s.world.getMech (s.swarmTarget mech) with
  | none => s
  | some target => if target ≤ 0 then s else s.setSwarmTarget mech (-1)

/-- `StopBSuitSwarmers(FindObjectsData(mech->mapindex), mech, 1)`. -/
def shakeOff (mech : Dbref) : SwarmWorld :=
  match s.world.getMap (s.world.unit mech).mapindex with
  | none => s
  | some map => s.eachSwarmer (fun t s => s.letGo t) map mech

/-- `Destroy` of a unit that swarms nothing. -/
def wreck (a : Dbref) : SwarmWorld :=
  { s with world := UnitWorld.destroy a s.world }.shakeOff a

/-- `StopSwarming`; a suit that is not let down gently may fall to its death. -/
def stopSwarming (deadly : Dbref → Bool) (mech : Dbref) (intentional : Bool) : SwarmWorld :=
  match s.world.getMech (s.swarmTarget mech) with
  | none => s
  | some target =>
    if target ≤ 0 then s
    else
      let s := s.setSwarmTarget mech (-1)
      if !intentional && deadly mech then s.wreck mech else s

def stopBSuitSwarmers (deadly : Dbref → Bool) (map mech : Dbref) (intentional : Bool) :
    SwarmWorld :=
  match s.world.getMap map with
  | none => s
  | some map => s.eachSwarmer (fun t s => s.stopSwarming deadly t intentional) map mech

def shutdown (deadly : Dbref → Bool) (a : Dbref) : SwarmWorld :=
  let s := s.stopSwarming deadly a false
  { s with world := UnitWorld.shutdown a s.world }

def destroy (deadly : Dbref → Bool) (a : Dbref) : SwarmWorld :=
  (s.stopSwarming deadly a false).wreck a

/-- The unit an argument of `bsuit_swarm` names. -/
def namedTarget (mech : Dbref) : SwarmArg → Option Dbref × SwarmWorld
  | .default =>
    if (s.world.unit mech).target ≤ 0 then (none, s)
    else
      match s.world.getMech (s.world.unit mech).target with
      | none => (none, { s with world := s.world.modifyUnit mech fun u => { u with target := -1 } })
      | some t => (some t, s)
  | .drop =>
    -- `-` is looked for as the letters of a unit
    match findTargetDBREFFromMapNumber mech (45, 0) s.world with
    | (found, w) => (found, { s with world := w })
  | .named mapnum =>
    match findTargetDBREFFromMapNumber mech mapnum s.world with
    | (found, w) => (found, { s with world := w })

/-- `FindBSuitTarget` lets the unit through. -/
def validTarget (facts : SwarmFacts) (t : Dbref) : Bool :=
  facts.los && facts.close && !facts.targetJumping && decide (s.mechType t = .mech) &&
    !(s.world.unit t).destroyed

/-- `bsuit_swarm` from where the target is known. -/
def swarmOnto (mech target : Dbref) (facts : SwarmFacts) : SwarmWorld :=
  if (s.world.unit target).team ≠ (s.world.unit mech).team ∧ facts.mustJettison then s
  else if !facts.swarmTech then s
  else if 0 < s.countSwarmers mech then s
  else if facts.madePilotSkillRoll then
    -- StopLock
    { s.setSwarmTarget mech target with
      world := s.world.modifyUnit mech fun u => { u with lockTarget := false, lockElsewhere := false } }
  else s

def bsuitSwarm (deadly : Dbref → Bool) (mech : Dbref) (arg : SwarmArg) (facts : SwarmFacts) :
    SwarmWorld :=
  if !facts.usual || decide ((s.world.unit mech).mapindex < 0) then s
  else if !s.world.isMap (s.world.unit mech).mapindex then
    let s := s.shutdown deadly mech
    { s with world := s.world.modifyUnit mech fun u => { u with mapindex := -1 } }
  else if arg = .drop ∧ 0 < s.swarmTarget mech then s.stopSwarming deadly mech true
  else if facts.jumping || decide (0 < s.swarmTarget mech) || facts.recycling then s
  else
    match s.namedTarget mech arg with
    | (none, s) => s
    | (some target, s) => if s.validTarget facts target then s.swarmOnto mech target facts else s

end SwarmWorld

inductive SwarmOp where
  | bsuitSwarm (mech : Dbref) (arg : SwarmArg) (facts : SwarmFacts)
  | stopSwarming (mech : Dbref) (intentional : Bool)
  | stopBSuitSwarmers (map mech : Dbref) (intentional : Bool)
  | place (op : PlacementOp)
  | shutdown (mech : Dbref)
  | destroy (mech : Dbref)
  | dispose (mech : Dbref)

/-- Perform one; `deadly` says which suits a fall destroys. -/
def SwarmWorld.step (s : SwarmWorld) : SwarmOp × (Dbref → Bool) → Option SwarmWorld
  | (.bsuitSwarm mech arg facts, deadly) => some (s.bsuitSwarm deadly mech arg facts)
  | (.stopSwarming mech intentional, deadly) => some (s.stopSwarming deadly mech intentional)
  | (.stopBSuitSwarmers map mech intentional, deadly) =>
    some (s.stopBSuitSwarmers deadly map mech intentional)
  | (.place op, _) => (s.world.move op).map fun w => { s with world := w }
  | (.shutdown mech, deadly) => some (s.shutdown deadly mech)
  | (.destroy mech, deadly) => some (s.destroy deadly mech)
  | (.dispose mech, _) => some { s with world := s.world.dispose mech }

end BattletechMux.UnitWorld
