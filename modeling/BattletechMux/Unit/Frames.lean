/-
Module: BattletechMux.Unit.Frames
Purpose: What the functions on units and maps leave alone.
-/
import BattletechMux.Foundation.Machine
import BattletechMux.Unit.Sensor

namespace BattletechMux.UnitWorld

open Function (update)

structure NetworkOnly (w w' : World) : Prop where
  isMech : w'.isMech = w.isMech
  isMap : w'.isMap = w.isMap
  xtypeMap : w'.xtypeMap = w.xtypeMap
  map : w'.map = w.map
  unit : ∀ mech, ∃ c3 c3i,
    w'.unit mech = { w.unit mech with c3Network := c3, c3iNetwork := c3i }

namespace NetworkOnly

theorem refl (w : World) : NetworkOnly w w where
  isMech := rfl
  isMap := rfl
  xtypeMap := rfl
  map := rfl
  unit mech := ⟨(w.unit mech).c3Network, (w.unit mech).c3iNetwork, rfl⟩

theorem trans {w w' w'' : World} (fst : NetworkOnly w w') (snd : NetworkOnly w' w'') :
    NetworkOnly w w'' where
  isMech := snd.isMech.trans fst.isMech
  isMap := snd.isMap.trans fst.isMap
  xtypeMap := snd.xtypeMap.trans fst.xtypeMap
  map := snd.map.trans fst.map
  unit mech := by
    obtain ⟨_, _, one⟩ := fst.unit mech
    obtain ⟨c3, c3i, two⟩ := snd.unit mech
    exact ⟨c3, c3i, by rw [two, one]⟩

theorem setNetwork (w : World) (isC3 : Bool) (mech : Dbref) (n : Network) :
    NetworkOnly w (w.setNetwork isC3 mech n) where
  isMech := rfl
  isMap := rfl
  xtypeMap := rfl
  map := rfl
  unit o := by
    by_cases eq : o = mech
    · subst eq
      cases isC3 with
      | true => exact ⟨n, (w.unit o).c3iNetwork, by simp [World.setNetwork, Unit.setNetwork]⟩
      | false => exact ⟨(w.unit o).c3Network, n, by simp [World.setNetwork, Unit.setNetwork]⟩
    · exact ⟨_, _, w.setUnit_unit_of_ne _ eq⟩

theorem setElem (w : World) (isC3 : Bool) (mech : Dbref) (i : Nat) (ref : Dbref) :
    NetworkOnly w (w.setElem isC3 mech i ref) := setNetwork w isC3 mech _

theorem setSize (w : World) (isC3 : Bool) (mech : Dbref) (size : Int) :
    NetworkOnly w (w.setSize isC3 mech size) := setNetwork w isC3 mech _

theorem foldl {Item : Type} {step : World → Item → World}
    (each : ∀ w item, NetworkOnly w (step w item)) (items : List Item) (w : World) :
    NetworkOnly w (items.foldl step w) :=
  Machine.foldl_invariant (fun middle item only => only.trans (each middle item)) items
    (refl w)

theorem storeNetwork (w : World) (isC3 : Bool) (mech : Dbref) (members : List Dbref) :
    NetworkOnly w (w.storeNetwork isC3 mech members) :=
  (foldl (fun w i => setElem w isC3 mech i _) _ w).trans (setSize _ _ _ _)

theorem eraseRef (isC3 : Bool) (refToClear mech : Dbref) (w : World) :
    NetworkOnly w (UnitWorld.eraseRef isC3 refToClear mech w) := by
  apply foldl
  intro w i
  split
  · exact setElem w isC3 mech i (-1)
  · exact refl w

variable {w w' : World} {isC3 : Bool}

section

variable (only : NetworkOnly w w') (mech : Dbref)
include only mech

theorem team : (w'.unit mech).team = (w.unit mech).team := by
  obtain ⟨_, _, eq⟩ := only.unit mech
  rw [eq]

theorem mapindex : (w'.unit mech).mapindex = (w.unit mech).mapindex := by
  obtain ⟨_, _, eq⟩ := only.unit mech
  rw [eq]

theorem mapnumber : (w'.unit mech).mapnumber = (w.unit mech).mapnumber := by
  obtain ⟨_, _, eq⟩ := only.unit mech
  rw [eq]

theorem numSeen : (w'.unit mech).numSeen = (w.unit mech).numSeen := by
  obtain ⟨_, _, eq⟩ := only.unit mech
  rw [eq]

theorem destroyed : (w'.unit mech).destroyed = (w.unit mech).destroyed := by
  obtain ⟨_, _, eq⟩ := only.unit mech
  rw [eq]

theorem hasComputer : (w'.unit mech).hasComputer isC3 = (w.unit mech).hasComputer isC3 := by
  obtain ⟨_, _, eq⟩ := only.unit mech
  rw [eq]
  rfl

theorem computerDestroyed :
    (w'.unit mech).computerDestroyed isC3 = (w.unit mech).computerDestroyed isC3 := by
  obtain ⟨_, _, eq⟩ := only.unit mech
  rw [eq]
  rfl

theorem workingC3Masters : (w'.unit mech).workingC3Masters = (w.unit mech).workingC3Masters := by
  obtain ⟨_, _, eq⟩ := only.unit mech
  rw [eq]

end

theorem reachable (only : NetworkOnly w w') (mech o : Dbref) :
    UnitWorld.reachable isC3 (w'.unit mech) (w'.unit o) =
      UnitWorld.reachable isC3 (w.unit mech) (w.unit o) := by
  simp only [UnitWorld.reachable, only.team, only.mapindex, only.destroyed,
    only.hasComputer, only.computerDestroyed]

end NetworkOnly

def Unit.working (u : Unit) (isC3 : Bool) : Bool :=
  u.hasComputer isC3 && !u.destroyed && !u.computerDestroyed isC3

theorem NetworkOnly.working {w w' : World} {isC3 : Bool} (only : NetworkOnly w w')
    (mech : Dbref) : (w'.unit mech).working isC3 = (w.unit mech).working isC3 := by
  simp only [Unit.working, only.hasComputer, only.destroyed, only.computerDestroyed]

theorem getOther_eq_some {w : World} {isC3 : Bool} {mech o : Dbref} {i : Nat} :
    getOtherMechInNetwork w isC3 mech i = some o ↔
      (i : Int) < (w.network isC3 mech).size ∧ (w.network isC3 mech).elem i = o ∧
        w.isMech o = true ∧ reachable isC3 (w.unit mech) (w.unit o) = true := by
  unfold getOtherMechInNetwork
  simp only [Option.ite_none_left_eq_some, Option.ite_none_right_eq_some,
    Option.filter_eq_some_iff, World.getMech_eq_some, Int.not_le]
  constructor
  · rintro ⟨hin, _, ⟨isMech, rfl⟩, reach⟩
    exact ⟨hin, rfl, isMech, reach⟩
  · rintro ⟨hin, rfl, isMech, reach⟩
    exact ⟨hin, w.mech_pos _ isMech, ⟨isMech, rfl⟩, reach⟩

theorem working_of_reachable {isC3 : Bool} {mech o : Unit}
    (reach : reachable isC3 mech o = true) : o.working isC3 = true := by
  simp only [reachable, Bool.and_eq_true] at reach
  simp [Unit.working, reach]

section Total

variable {isC3 : Bool}

theorem clearNetworkWith_total {validate : Dbref → World → Option World} {mech : Dbref}
    {tClearFromOthers : Bool} {w : World}
    (validates : tClearFromOthers = true → ∀ i o middle, NetworkOnly w middle →
      getOtherMechInNetwork middle isC3 mech i = some o →
        ∀ w', NetworkOnly middle w' →
          ∃ w'', validate o w' = some w'' ∧ NetworkOnly w' w'') :
    ∃ w', clearNetworkWith validate isC3 mech tClearFromOthers w = some w' ∧
      NetworkOnly w w' := by
  have each : ∀ middle i, NetworkOnly w middle →
      ∃ w', clearElem validate isC3 mech tClearFromOthers middle i = some w' ∧
        NetworkOnly w w' := by
    intro middle i reached
    have written := NetworkOnly.setElem middle isC3 mech i (-1)
    cases others : tClearFromOthers with
    | false => exact ⟨_, by simp [clearElem], reached.trans written⟩
    | true =>
      cases found : getOtherMechInNetwork middle isC3 mech i with
      | none => exact ⟨_, by simp [clearElem, found], reached.trans written⟩
      | some o =>
        by_cases empty : ((middle.setElem isC3 mech i (-1)).network isC3 o).size = 0
        · exact ⟨_, by simp [clearElem, found, clearMechFromNetworkWith, empty],
            reached.trans written⟩
        · have prepared := written.trans (NetworkOnly.eraseRef isC3 mech o _)
          obtain ⟨w', ran, only⟩ := validates others i o middle reached found _ prepared
          refine ⟨w', ?_, (reached.trans prepared).trans only⟩
          simpa [clearElem, found, clearMechFromNetworkWith, empty] using ran
  obtain ⟨w', ran, only⟩ := Machine.foldlM_invariant each
    (List.range (networkLength isC3)) (NetworkOnly.refl w)
  exact ⟨w'.setSize isC3 mech 0, by simp [clearNetworkWith, ran],
    only.trans (NetworkOnly.setSize _ _ _ _)⟩

theorem clearNetworkWith_false_total (validate : Dbref → World → Option World)
    (isC3 : Bool) (mech : Dbref) (w : World) :
    ∃ w', clearNetworkWith validate isC3 mech false w = some w' ∧ NetworkOnly w w' :=
  clearNetworkWith_total (by simp)

theorem network_setElem_size (w : World) (mech : Dbref) (i : Nat) (ref o : Dbref) :
    ((w.setElem isC3 mech i ref).network isC3 o).size =
      (w.network isC3 o).size := by
  by_cases eq : o = mech
  · subst eq
    cases isC3 <;>
      simp [World.setElem, World.setNetwork, World.network, Unit.setNetwork, Unit.network]
  · simp [World.setElem, World.setNetwork, World.network, World.setUnit_unit_of_ne _ _ eq]

theorem clearNetworkWith_negative (validate : Dbref → World → Option World)
    {mech : Dbref} {w : World} (negative : (w.network isC3 mech).size < 0) :
    ∃ w', clearNetworkWith validate isC3 mech true w = some w' ∧ NetworkOnly w w' := by
  have each : ∀ middle i, NetworkOnly w middle ∧ (middle.network isC3 mech).size < 0 →
      ∃ w', clearElem validate isC3 mech true middle i = some w' ∧
        NetworkOnly w w' ∧ (w'.network isC3 mech).size < 0 := by
    rintro middle i ⟨reached, below⟩
    have nobody : getOtherMechInNetwork middle isC3 mech i = none := by
      rw [getOtherMechInNetwork, if_pos (by omega)]
    refine ⟨middle.setElem isC3 mech i (-1), by simp [clearElem, nobody], ?_, ?_⟩
    · exact reached.trans (NetworkOnly.setElem _ _ _ _ _)
    · rw [network_setElem_size]
      exact below
  obtain ⟨w', ran, only, _⟩ := Machine.foldlM_invariant each
    (List.range (networkLength isC3)) ⟨NetworkOnly.refl w, negative⟩
  exact ⟨w'.setSize isC3 mech 0, by simp [clearNetworkWith, ran],
    only.trans (NetworkOnly.setSize _ _ _ _)⟩

theorem keepReachable_total {clear : World → Option World}
    (clears : ∀ w, ∃ w', clear w = some w' ∧ NetworkOnly w w') (mech : Dbref)
    (w : World) :
    ∃ w', keepReachable clear isC3 mech w = some w' ∧ NetworkOnly w w' := by
  obtain ⟨cleared, clearing, onlyCleared⟩ := clears w
  have stored := onlyCleared.trans
    (NetworkOnly.storeNetwork cleared isC3 mech (reachableMembers w isC3 mech))
  obtain ⟨again, clearingAgain, onlyAgain⟩ :=
    clears (cleared.storeNetwork isC3 mech (reachableMembers w isC3 mech))
  unfold keepReachable
  simp only [clearing, Option.bind_eq_bind, Option.bind_some, clearingAgain]
  split
  · split
    · exact ⟨_, rfl, stored⟩
    · exact ⟨_, rfl, (stored.trans onlyAgain).trans (NetworkOnly.storeNetwork _ _ _ _)⟩
  · exact ⟨_, rfl, stored⟩

theorem validateNetwork_of_working (depth : Nat) {mech : Dbref} {w : World}
    (works : (w.unit mech).working isC3 = true) :
    validateNetwork isC3 (depth + 1) mech w =
      if ((w.unit mech).network isC3).size < 0 then
        clearNetworkWith (validateNetwork isC3 depth) isC3 mech true w
      else keepReachable (clearNetworkWith (validateNetwork isC3 depth) isC3 mech false)
        isC3 mech w := by
  have fine : (!(w.unit mech).hasComputer isC3 || (w.unit mech).destroyed ||
      (w.unit mech).computerDestroyed isC3) = false := by
    simp only [Unit.working, Bool.and_eq_true, Bool.not_eq_true'] at works
    simp [works]
  rw [validateNetwork, fine]
  rfl

theorem validateNetwork_working (depth : Nat) {mech : Dbref} {w : World}
    (works : (w.unit mech).working isC3 = true) :
    ∃ w', validateNetwork isC3 (depth + 1) mech w = some w' ∧ NetworkOnly w w' := by
  rw [validateNetwork_of_working depth works]
  by_cases negative : ((w.unit mech).network isC3).size < 0
  · obtain ⟨w', ran, only⟩ :=
      clearNetworkWith_negative (validateNetwork isC3 depth) negative
    exact ⟨w', (if_pos negative).trans ran, only⟩
  · obtain ⟨w', ran, only⟩ := keepReachable_total (clearNetworkWith_false_total
      (validateNetwork isC3 depth) isC3 mech) mech w
    exact ⟨w', (if_neg negative).trans ran, only⟩

theorem clearNetworkWith_validate_total (depth : Nat) (mech : Dbref)
    (tClearFromOthers : Bool) (w : World) :
    ∃ w', clearNetworkWith (validateNetwork isC3 (depth + 1)) isC3 mech
      tClearFromOthers w = some w' ∧ NetworkOnly w w' := by
  apply clearNetworkWith_total
  intro _ i o middle _ hf w' later
  apply validateNetwork_working
  rw [later.working]
  exact working_of_reachable (getOther_eq_some.mp hf).2.2.2

theorem clearNetwork_total (isC3 : Bool) (mech : Dbref) (tClearFromOthers : Bool)
    (w : World) :
    ∃ w', clearNetwork isC3 mech tClearFromOthers w = some w' ∧ NetworkOnly w w' :=
  clearNetworkWith_validate_total 1 mech tClearFromOthers w

end Total

namespace Unit

variable (u : Unit) (foe : Bool) (target : Dbref)

section Lock

variable (mech : Dbref)

theorem loseLockOn_mapindex : (u.loseLockOn mech).mapindex = u.mapindex := by
  unfold loseLockOn
  split <;> rfl

theorem loseLockOn_mapnumber : (u.loseLockOn mech).mapnumber = u.mapnumber := by
  unfold loseLockOn
  split <;> rfl

theorem loseLockOn_team : (u.loseLockOn mech).team = u.team := by
  unfold loseLockOn
  split <;> rfl

theorem loseLockOn_numSeen : (u.loseLockOn mech).numSeen = u.numSeen := by
  unfold loseLockOn
  split <;> rfl

end Lock

theorem loseEnemy_mapindex : (u.loseEnemy foe target).mapindex = u.mapindex := by
  cases foe <;> simp [loseEnemy, countCanSee, loseLockOn_mapindex, dropEnemy]

theorem loseEnemy_mapnumber : (u.loseEnemy foe target).mapnumber = u.mapnumber := by
  cases foe <;> simp [loseEnemy, countCanSee, loseLockOn_mapnumber, dropEnemy]

theorem loseEnemy_team : (u.loseEnemy foe target).team = u.team := by
  cases foe <;> simp [loseEnemy, countCanSee, loseLockOn_team, dropEnemy]

theorem loseEnemy_numSeen :
    (u.loseEnemy foe target).numSeen = if foe then u.numSeen - 1 else u.numSeen := by
  cases foe <;> simp [loseEnemy, countCanSee, loseLockOn_numSeen, dropEnemy]

theorem gainEnemy_mapindex : (u.gainEnemy foe).mapindex = u.mapindex := by
  cases foe <;> rfl

theorem gainEnemy_mapnumber : (u.gainEnemy foe).mapnumber = u.mapnumber := by
  cases foe <;> rfl

theorem gainEnemy_team : (u.gainEnemy foe).team = u.team := by
  cases foe <;> rfl

theorem gainEnemy_numSeen :
    (u.gainEnemy foe).numSeen = if foe then u.numSeen + 1 else u.numSeen := by
  cases foe <;> rfl

end Unit

/-! ## A unit leaves the sight of the others -/

section Rules

variable (R : World → World → Prop) (trans : ∀ {a b c}, R a b → R b c → R a c) {mech : Dbref}
include trans

theorem clearSlotFromLOS_rule
    (zeroed : ∀ w map i j, R w (w.modifyMap map fun m => (m.setLos i j 0).setLos j i 0))
    (unlocked : ∀ w mek, R w (w.modifyUnit mek fun u => u.loseLockOn mech))
    (dropped : ∀ w mek, R w (w.modifyUnit mek Unit.dropEnemy)) (map : Dbref) (w : World) (i : Nat) :
    R w (clearSlotFromLOS map mech w i) := by
  have zeroed := zeroed w map (w.unit mech).mapnumber i
  unfold clearSlotFromLOS
  simp only
  split
  · split
    · exact zeroed
    · split
      · exact trans (trans zeroed (unlocked _ _)) (dropped _ _)
      · exact trans zeroed (unlocked _ _)
  · exact zeroed

theorem clearMechFromLOS_rule (refl : ∀ w, R w w)
    (slot : ∀ map w i, R w (clearSlotFromLOS map mech w i))
    (own : ∀ w, R w (w.modifyUnit mech Unit.loseAnyLock)) (w : World) :
    R w (clearMechFromLOS mech w) := by
  unfold clearMechFromLOS
  split
  · exact refl w
  · rename_i map _
    exact trans (Machine.foldl_invariant (fun middle i eq => trans eq (slot map middle i)) _
      (refl w)) (own _)

end Rules

/-- Two worlds with every unit in the same place, and of the same team. -/
structure SamePlaces (w w' : World) : Prop where
  isMech : w'.isMech = w.isMech
  isMap : w'.isMap = w.isMap
  xtypeMap : w'.xtypeMap = w.xtypeMap
  mapindex : ∀ mech, (w'.unit mech).mapindex = (w.unit mech).mapindex
  mapnumber : ∀ mech, (w'.unit mech).mapnumber = (w.unit mech).mapnumber
  team : ∀ mech, (w'.unit mech).team = (w.unit mech).team
  firstFree : ∀ map, (w'.map map).firstFree = (w.map map).firstFree
  mechsOnMap : ∀ map, (w'.map map).mechsOnMap = (w.map map).mechsOnMap

namespace SamePlaces

theorem refl (w : World) : SamePlaces w w where
  isMech := rfl
  isMap := rfl
  xtypeMap := rfl
  mapindex _ := rfl
  mapnumber _ := rfl
  team _ := rfl
  firstFree _ := rfl
  mechsOnMap _ := rfl

theorem trans {w w' w'' : World} (fst : SamePlaces w w') (snd : SamePlaces w' w'') :
    SamePlaces w w'' where
  isMech := snd.isMech.trans fst.isMech
  isMap := snd.isMap.trans fst.isMap
  xtypeMap := snd.xtypeMap.trans fst.xtypeMap
  mapindex mech := (snd.mapindex mech).trans (fst.mapindex mech)
  mapnumber mech := (snd.mapnumber mech).trans (fst.mapnumber mech)
  team mech := (snd.team mech).trans (fst.team mech)
  firstFree map := (snd.firstFree map).trans (fst.firstFree map)
  mechsOnMap map := (snd.mechsOnMap map).trans (fst.mechsOnMap map)

theorem foldl {Item : Type} {step : World → Item → World}
    (each : ∀ w item, SamePlaces w (step w item)) (items : List Item) (w : World) :
    SamePlaces w (items.foldl step w) :=
  Machine.foldl_invariant (fun middle item eq => eq.trans (each middle item)) items
    (refl w)

theorem of_networkOnly {w w' : World} (only : NetworkOnly w w') : SamePlaces w w' where
  isMech := only.isMech
  isMap := only.isMap
  xtypeMap := only.xtypeMap
  mapindex := only.mapindex
  mapnumber := only.mapnumber
  team := only.team
  firstFree map := by rw [only.map]
  mechsOnMap map := by rw [only.map]

theorem modifyUnit (w : World) (mech : Dbref) {f : Unit → Unit}
    (mapindex : ∀ u, (f u).mapindex = u.mapindex)
    (mapnumber : ∀ u, (f u).mapnumber = u.mapnumber)
    (team : ∀ u, (f u).team = u.team) : SamePlaces w (w.modifyUnit mech f) := by
  have kept : ∀ {Field : Type} (field : Unit → Field), (∀ u, field (f u) = field u) →
      ∀ o, field ((w.modifyUnit mech f).unit o) = field (w.unit o) := by
    intro Field field keeps o
    by_cases eq : o = mech
    · subst eq
      simpa [World.modifyUnit] using keeps (w.unit o)
    · rw [World.modifyUnit, w.setUnit_unit_of_ne _ eq]
  exact
    { refl w with
      mapindex := kept _ mapindex, mapnumber := kept _ mapnumber, team := kept _ team }

theorem modifyMap (w : World) (map : Dbref) {f : GameMap → GameMap}
    (firstFree : ∀ m, (f m).firstFree = m.firstFree)
    (mechsOnMap : ∀ m, (f m).mechsOnMap = m.mechsOnMap) :
    SamePlaces w (w.modifyMap map f) := by
  have kept : ∀ {Field : Type} (field : GameMap → Field), (∀ m, field (f m) = field m) →
      ∀ o, field ((w.modifyMap map f).map o) = field (w.map o) := by
    intro Field field keeps o
    by_cases eq : o = map
    · subst eq
      simpa [World.modifyMap] using keeps (w.map o)
    · rw [World.modifyMap, w.setMap_map_of_ne _ eq]
  exact
    { refl w with firstFree := kept _ firstFree, mechsOnMap := kept _ mechsOnMap }

theorem setLos (w : World) (map : Dbref) (i j : Nat) (flag : LosFlag) :
    SamePlaces w (w.modifyMap map fun m => m.setLos i j flag) :=
  modifyMap w map (fun _ => rfl) fun _ => rfl

theorem clearSlotFromLOS (map mech : Dbref) (w : World) (i : Nat) :
    SamePlaces w (UnitWorld.clearSlotFromLOS map mech w i) :=
  clearSlotFromLOS_rule SamePlaces trans
    (fun w map _ _ => modifyMap w map (fun _ => rfl) fun _ => rfl)
    (fun w mek => modifyUnit w mek (fun u => u.loseLockOn_mapindex mech)
      (fun u => u.loseLockOn_mapnumber mech) fun u => u.loseLockOn_team mech)
    (fun w mek => modifyUnit w mek (fun _ => rfl) (fun _ => rfl) fun _ => rfl) map w i

theorem clearMechFromLOS (mech : Dbref) (w : World) :
    SamePlaces w (UnitWorld.clearMechFromLOS mech w) := by
  refine clearMechFromLOS_rule SamePlaces trans refl (clearSlotFromLOS · mech) (fun w => ?_) w
  apply modifyUnit <;>
  · intro u
    unfold Unit.loseAnyLock
    split <;> rfl

theorem markForLOSUpdate (mech : Dbref) (w : World) :
    SamePlaces w (UnitWorld.markForLOSUpdate mech w) := by
  unfold UnitWorld.markForLOSUpdate
  split
  · exact refl w
  · exact modifyMap w _ (fun _ => rfl) fun _ => rfl

theorem releaseTow (map mech : Dbref) (w : World) :
    SamePlaces w (UnitWorld.releaseTow map mech w) := by
  unfold UnitWorld.releaseTow
  split
  · split
    · exact refl w
    · rename_i t _
      have dropped : SamePlaces w (w.modifyUnit t Unit.dropCarried) :=
        modifyUnit w t (fun _ => rfl) (fun _ => rfl) fun _ => rfl
      exact dropped.trans (modifyUnit _ mech (fun _ => rfl) (fun _ => rfl) fun _ => rfl)
  · exact refl w

theorem dropTow (map mech : Dbref) (w : World) :
    SamePlaces w (UnitWorld.dropTow map mech w) := by
  unfold UnitWorld.dropTow
  split
  · exact modifyUnit w mech (fun _ => rfl) (fun _ => rfl) fun _ => rfl
  · exact refl w

theorem loseEnemy (w : World) (mech : Dbref) (foe : Bool) (target : Dbref) :
    SamePlaces w (w.modifyUnit mech fun u => u.loseEnemy foe target) :=
  modifyUnit w mech (fun u => u.loseEnemy_mapindex foe target)
    (fun u => u.loseEnemy_mapnumber foe target) fun u => u.loseEnemy_team foe target

theorem gainEnemy (w : World) (mech : Dbref) (foe : Bool) :
    SamePlaces w (w.modifyUnit mech fun u => u.gainEnemy foe) :=
  modifyUnit w mech (fun u => u.gainEnemy_mapindex foe)
    (fun u => u.gainEnemy_mapnumber foe) fun u => u.gainEnemy_team foe

theorem countCanSee (w : World) (mech : Dbref) :
    SamePlaces w (w.modifyUnit mech Unit.countCanSee) :=
  modifyUnit w mech (fun _ => rfl) (fun _ => rfl) fun _ => rfl

theorem sensorDoWeSeeNow (map : Dbref) (i j : Nat) (mech target : Dbref) (o : Sight)
    (seeanew : Nat) (w : World) :
    SamePlaces w (UnitWorld.sensorDoWeSeeNow map i j mech target o seeanew w) := by
  have store : ∀ {w' : World} (flag : LosFlag), SamePlaces w w' →
      SamePlaces w (w'.modifyMap map fun m => m.setLos i j flag) :=
    fun flag eq => eq.trans (setLos _ map i j flag)
  unfold UnitWorld.sensorDoWeSeeNow
  simp only
  split
  · exact refl w
  · split
    · split
      · exact store _ (refl w)
      · exact store _ (loseEnemy w mech _ target)
    · split
      · exact refl w
      · split
        · exact countCanSee w mech
        · split
          · exact store _ (gainEnemy w mech _)
          · exact store _ (countCanSee w mech)

theorem lookAt (snd : Bool) (map : Dbref) (i j : Nat) (mech target : Dbref)
    (o : Sight) (w : World) :
    SamePlaces w (UnitWorld.lookAt snd map i j mech target o w) := by
  have look : ∀ flag, SamePlaces w (UnitWorld.sensorDoWeSeeNow map i j mech target o 0
      (w.modifyMap map fun m => m.setLos i j flag)) :=
    fun flag => (setLos w map i j flag).trans (sensorDoWeSeeNow _ _ _ _ _ _ _ _)
  unfold UnitWorld.lookAt
  simp only
  split
  · exact look _
  · split
    · exact setLos w map i j _
    · exact look _

theorem updatePair (snd : Bool) (map : Dbref) (sight : Nat → Nat → Sight) (w : World)
    (pair : Nat × Nat) : SamePlaces w (UnitWorld.updatePair snd map sight w pair) := by
  unfold UnitWorld.updatePair
  simp only
  split
  · split
    · exact refl w
    · split
      · exact refl w
      · split
        · exact (markForLOSUpdate _ w).trans (lookAt _ _ _ _ _ _ _ _)
        · exact lookAt _ _ _ _ _ _ _ w
  · exact refl w

theorem updateLOSinfo (map : Dbref) (sight : Nat → Nat → Sight) (w : World) :
    SamePlaces w (UnitWorld.updateLOSinfo map sight w) := by
  have loops := (foldl (updatePair false map sight) (firstPairs (w.map map).firstFree)
    w).trans (foldl (updatePair true map sight) (secondPairs (w.map map).firstFree) _)
  exact loops.trans (modifyMap _ map (fun _ => rfl) fun _ => rfl)

theorem plosSlot (map mech : Dbref) (sight : Nat → Nat → Sight) (w : World) (i : Nat) :
    SamePlaces w (UnitWorld.plosSlot map mech sight w i) := by
  unfold UnitWorld.plosSlot
  simp only
  split
  · split
    · exact refl w
    · exact (countCanSee w mech).trans (sensorDoWeSeeNow _ _ _ _ _ _ _ _)
  · exact refl w

end SamePlaces

end BattletechMux.UnitWorld
