/-
Module: BattletechMux.Unit.MapChange
Purpose: What mech_Rsetmapindex reports, and when a failure that it reports leaves everything as it
  was: it looks for room on the new map when the unit is off its old one.
-/
import BattletechMux.Unit.StaleSight

namespace BattletechMux.UnitWorld

open Option

open Function (update)

variable {w : World} {mech newindex : Dbref} {ids : List MechId}

/-! ## Reports -/

/-- What `mech_Rsetmapindex` tells the player. -/
inductive MapReport
  | noArgument | invalidIndex | invalidMap | tooMany | removed | changed
deriving DecidableEq

def MapReport.failed : MapReport → Bool
  | .noArgument | .invalidIndex | .invalidMap | .tooMany => true
  | .removed | .changed => false

/-- `enterMap`, with what is reported. -/
def enterMapReport (mech newindex : Dbref) (ids : List MechId) (w : World) :
    Option (World × MapReport) := do
  let targ ← ids.find? fun id => !idInUse w newindex id
  if (w.map newindex).firstFree = maxMechsPerMap then some (w, .tooMany)
  else
    some ((addMechToMap newindex mech w).modifyUnit mech fun u => u.setId targ, .changed)

/-- `mech_Rsetmapindex`, with what is reported. -/
def rsetmapindexReport (mech : Dbref) (argument : Option Dbref) (ids : List MechId) (w : World) :
    Option (World × MapReport) :=
  match argument with
  | none => some (w, .noArgument)
  | some newindex =>
    if newindex < -1 then some (w, .invalidIndex)
    else if newindex ≠ -1 ∧ (w.validMap newindex).isNone then some (w, .invalidMap)
    else if (w.unit mech).mapindex ≠ -1 then
      if (w.validMap (w.unit mech).mapindex).isNone then some (w, .invalidMap)
      else do
        let w ← leaveMap mech w
        if newindex = -1 then some (w, .removed) else enterMapReport mech newindex ids w
    else if newindex = -1 then some (w, .removed)
    else enterMapReport mech newindex ids w

/-! ## Room -/

/-- `first_free` of the new map when the unit is off its old one. -/
def slotsLeft (w : World) (mech newindex : Dbref) : Nat :=
  if (w.unit mech).mapindex = newindex then
    match slotToFree (w.map newindex) mech (w.unit mech).mapnumber with
    | none => (w.map newindex).firstFree
    | some loop => ((w.map newindex).freeSlot loop).firstFree
  else (w.map newindex).firstFree

theorem leaveSlot_firstFree (map : Dbref) :
    ((leaveSlot map mech w).map newindex).firstFree =
      if map = newindex then
        match slotToFree (w.map map) mech (w.unit mech).mapnumber with
        | none => (w.map map).firstFree
        | some loop => ((w.map map).freeSlot loop).firstFree
      else (w.map newindex).firstFree := by
  unfold leaveSlot
  by_cases same : map = newindex
  · subst same
    rw [if_pos rfl]
    cases slotToFree (w.map map) mech (w.unit mech).mapnumber with
    | none => rfl
    | some loop =>
      dsimp only
      rw [World.modifyMap_map_self, World.modifyUnit_map]
  · rw [if_neg same]
    cases slotToFree (w.map map) mech (w.unit mech).mapnumber with
    | none => rfl
    | some loop =>
      dsimp only
      rw [World.modifyMap_map_of_ne _ _ (Ne.symm same), World.modifyUnit_map]

theorem slotToFree_congr {m m' : GameMap} (free : m'.firstFree = m.firstFree)
    (mechs : m'.mechsOnMap = m.mechsOnMap) (mapnumber : Nat) :
    slotToFree m' mech mapnumber = slotToFree m mech mapnumber := by
  unfold slotToFree
  rw [free, mechs]

theorem leaveMap_firstFree (newindex : Dbref) {left : World}
    (leaving : leaveMap mech w = some left) :
    (left.map newindex).firstFree = slotsLeft w mech newindex := by
  obtain ⟨w', leaves, only⟩ := leaveMap_spec mech w
  obtain rfl : w' = left := some.inj (leaves.symm.trans leaving)
  have cleared := SamePlaces.clearMechFromLOS mech w
  have tow := SamePlaces.releaseTow (w.unit mech).mapindex mech
    (leaveSlot (w.unit mech).mapindex mech (clearMechFromLOS mech w))
  have freed : ∀ loop, (((clearMechFromLOS mech w).map (w.unit mech).mapindex).freeSlot
      loop).firstFree = ((w.map (w.unit mech).mapindex).freeSlot loop).firstFree := by
    intro loop
    unfold GameMap.freeSlot
    dsimp only
    rw [cleared.firstFree]
  rw [only.map, World.modifyUnit_map]
  unfold removeMechFromMap
  dsimp only
  rw [World.modifyUnit_map, tow.firstFree, leaveSlot_firstFree,
    slotToFree_congr (cleared.firstFree _) (cleared.mechsOnMap _), cleared.mapnumber,
    cleared.firstFree, cleared.firstFree]
  unfold slotsLeft
  by_cases same : (w.unit mech).mapindex = newindex
  · rw [if_pos same, if_pos same, ← same]
    cases slotToFree (w.map (w.unit mech).mapindex) mech (w.unit mech).mapnumber with
    | none => rfl
    | some loop => exact freed loop
  · rw [if_neg same, if_neg same]

theorem enterMapReport_cases (mech : Dbref) (tries : ∃ id ∈ ids, idInUse w newindex id = false) :
    ∃ w' report, enterMapReport mech newindex ids w = some (w', report) ∧
      (((w.map newindex).firstFree = maxMechsPerMap ∧ w' = w ∧ report = .tooMany) ∨
        ((w.map newindex).firstFree ≠ maxMechsPerMap ∧ report = .changed)) := by
  obtain ⟨id, member, unused⟩ := tries
  have hf : (ids.find? fun id => !idInUse w newindex id).isSome = true := by
    rw [List.find?_isSome]
    exact ⟨id, member, by rw [unused]; rfl⟩
  obtain ⟨targ, hf⟩ := isSome_iff_exists.mp hf
  unfold enterMapReport
  rw [hf]
  simp only [bind_eq_bind, bind_some]
  by_cases full : (w.map newindex).firstFree = maxMechsPerMap
  · rw [if_pos full]
    exact ⟨w, .tooMany, rfl, .inl ⟨full, rfl, rfl⟩⟩
  · rw [if_neg full]
    exact ⟨_, .changed, rfl, .inr ⟨full, rfl⟩⟩

/-- A failure leaves everything as it was, and there is room on a map with an empty slot. -/
def AllOrNothing (w : World) (mech : Dbref) (argument : Option Dbref) (ids : List MechId) : Prop :=
  ∀ w' report, rsetmapindexReport mech argument ids w = some (w', report) →
    (report.failed = true → w' = w) ∧
      ∀ newindex, argument = some newindex →
        (∃ slot < (w.map newindex).firstFree, (w.map newindex).mechsOnMap slot = -1) →
          report ≠ .tooMany

/-- The new map is not full when the unit is off its old one; or the unit is on no map, and no slot
of the new one is empty; or the unit's map is not a valid one. -/
def HasRoom (w : World) (mech newindex : Dbref) : Prop :=
  (w.validMap newindex).isSome = true → slotsLeft w mech newindex = maxMechsPerMap →
    ((w.unit mech).mapindex = -1 ∧
      ∀ slot < (w.map newindex).firstFree, (w.map newindex).mechsOnMap slot ≠ -1) ∨
    ((w.unit mech).mapindex ≠ -1 ∧ (w.validMap (w.unit mech).mapindex).isNone = true)

section

variable (valid : (w.validMap newindex).isSome = true)
include valid

theorem validMap_ne : 0 ≤ newindex := by
  unfold World.validMap at valid
  split at valid
  · next isMap =>
    rw [Bool.and_eq_true] at isMap
    exact w.map_nonneg newindex isMap.1
  · exact absurd valid (by simp)

theorem validMap_known : ¬(newindex ≠ -1 ∧ (w.validMap newindex).isNone = true) := by
  rintro ⟨-, missing⟩
  rw [isNone_iff_eq_none.mp missing] at valid
  exact absurd valid (by simp)

theorem rsetmapindexReport_of_off (off : (w.unit mech).mapindex = -1) :
    rsetmapindexReport mech (some newindex) ids w = enterMapReport mech newindex ids w := by
  have nonneg := validMap_ne valid
  have known := validMap_known valid
  unfold rsetmapindexReport
  dsimp only
  rw [if_neg (by lia), if_neg known, if_neg (not_not.mpr off), if_neg (by lia)]

theorem rsetmapindexReport_of_on (on : (w.unit mech).mapindex ≠ -1) :
    rsetmapindexReport mech (some newindex) ids w =
      if (w.validMap (w.unit mech).mapindex).isNone then some (w, .invalidMap)
      else (leaveMap mech w).bind (enterMapReport mech newindex ids) := by
  have nonneg := validMap_ne valid
  have known := validMap_known valid
  unfold rsetmapindexReport
  dsimp only
  rw [if_neg (by lia), if_neg known, if_pos on]
  split
  · rfl
  · cases leaveMap mech w with
    | none => rfl
    | some left =>
      simp only [bind_eq_bind, bind_some]
      rw [if_neg (by lia)]

end

theorem rsetmapindexReport_invalid (invalid : ¬(w.validMap newindex).isSome = true) {w' : World}
    {report : MapReport} (ran : rsetmapindexReport mech (some newindex) ids w = some (w', report)) :
    (report.failed = true → w' = w) ∧ report ≠ .tooMany := by
  have unknown : (w.validMap newindex).isNone = true := by simpa using invalid
  unfold rsetmapindexReport at ran
  dsimp only at ran
  split at ran
  · obtain ⟨rfl, rfl⟩ := Prod.mk.inj (some.inj ran)
    exact ⟨fun _ => rfl, by decide⟩
  split at ran
  · obtain ⟨rfl, rfl⟩ := Prod.mk.inj (some.inj ran)
    exact ⟨fun _ => rfl, by decide⟩
  · next known =>
    have off : newindex = -1 := not_not.mp fun o => known ⟨o, unknown⟩
    split at ran
    · split at ran
      · obtain ⟨rfl, rfl⟩ := Prod.mk.inj (some.inj ran)
        exact ⟨fun _ => rfl, by decide⟩
      · obtain ⟨left, -, ran⟩ := bind_eq_some_iff.mp ran
        obtain ⟨rfl, rfl⟩ := Prod.mk.inj (some.inj ran)
        exact ⟨fun failed => absurd failed (by decide), by decide⟩
    · obtain ⟨rfl, rfl⟩ := Prod.mk.inj (some.inj ran)
      exact ⟨fun failed => absurd failed (by decide), by decide⟩

theorem move_iff (valid : (w.validMap newindex).isSome = true)
    (tries : ∀ off, off = w ∨ leaveMap mech w = some off →
      ∃ id ∈ ids, idInUse off newindex id = false) :
    AllOrNothing w mech (some newindex) ids ↔ HasRoom w mech newindex := by
  have one : ∀ o, some newindex = some o → newindex = o := fun _ => some.inj
  by_cases off : (w.unit mech).mapindex = -1
  · have elsewhere : (w.unit mech).mapindex ≠ newindex := by
      have nonneg := validMap_ne valid
      lia
    have slots : slotsLeft w mech newindex = (w.map newindex).firstFree := if_neg elsewhere
    obtain ⟨w', report, ran, outcome⟩ := enterMapReport_cases mech (tries w (.inl rfl))
    rw [← rsetmapindexReport_of_off valid off] at ran
    rcases outcome with ⟨full, rfl, rfl⟩ | ⟨roomy, rfl⟩
    · constructor
      · intro h _ _
        refine .inl ⟨off, fun slot below empty => ?_⟩
        exact (h w' .tooMany ran).2 newindex rfl ⟨slot, below, empty⟩ rfl
      · intro room w'' report ran'
        obtain ⟨rfl, rfl⟩ := Prod.mk.inj (some.inj (ran.symm.trans ran'))
        refine ⟨fun _ => rfl, fun o same empty _ => ?_⟩
        obtain rfl := one o same
        obtain ⟨slot, below, empty⟩ := empty
        rcases room valid (slots.trans full) with ⟨-, taken⟩ | ⟨on, -⟩
        · exact taken slot below empty
        · exact on off
    · refine iff_of_true (fun w'' report ran' => ?_) fun _ full => absurd (slots.symm.trans full) roomy
      obtain ⟨-, rfl⟩ := Prod.mk.inj (some.inj (ran.symm.trans ran'))
      exact ⟨fun failed => absurd failed (by decide), fun _ _ _ => by decide⟩
  · by_cases lost : (w.validMap (w.unit mech).mapindex).isNone = true
    · have ran : rsetmapindexReport mech (some newindex) ids w = some (w, .invalidMap) := by
        rw [rsetmapindexReport_of_on valid off, if_pos lost]
      refine iff_of_true (fun w' report ran' => ?_) fun _ _ => .inr ⟨off, lost⟩
      obtain ⟨rfl, rfl⟩ := Prod.mk.inj (some.inj (ran.symm.trans ran'))
      exact ⟨fun _ => rfl, fun _ _ _ => by decide⟩
    · obtain ⟨left, leaving, -⟩ := leaveMap_spec mech w
      have gone := leaveMap_mapindex leaving
      have slots := leaveMap_firstFree newindex leaving
      obtain ⟨w', report, ran, outcome⟩ :=
        enterMapReport_cases mech (tries left (.inr leaving))
      have moved : rsetmapindexReport mech (some newindex) ids w = some (w', report) := by
        rw [rsetmapindexReport_of_on valid off, if_neg lost, leaving, bind_some, ran]
      rcases outcome with ⟨full, rfl, rfl⟩ | ⟨roomy, rfl⟩
      · refine iff_of_false (fun h => ?_) fun room => ?_
        · have same := (h w' .tooMany moved).1 rfl
          rw [same] at gone
          exact off gone
        · rcases room valid (slots.symm.trans full) with ⟨on, -⟩ | ⟨-, lost'⟩
          · exact off on
          · exact lost lost'
      · refine iff_of_true (fun w'' report ran' => ?_) fun _ full => absurd (slots.trans full) roomy
        obtain ⟨-, rfl⟩ := Prod.mk.inj (some.inj (moved.symm.trans ran'))
        exact ⟨fun failed => absurd failed (by decide), fun _ _ _ => by decide⟩

/-- A map change is all or nothing exactly when there is room, provided that an ID that is not in use
is found. -/
theorem all_or_nothing_iff (w : World) (mech : Dbref) (argument : Option Dbref) (ids : List MechId)
    (tries : ∀ newindex, argument = some newindex → ∀ off, off = w ∨ leaveMap mech w = some off →
      ∃ id ∈ ids, idInUse off newindex id = false) :
    AllOrNothing w mech argument ids ↔
      ∀ newindex, argument = some newindex → HasRoom w mech newindex := by
  cases argument with
  | none =>
    refine iff_of_true (fun w' report ran => ?_) fun _ named => absurd named (by simp)
    obtain ⟨rfl, rfl⟩ := Prod.mk.inj (some.inj ran)
    exact ⟨fun _ => rfl, fun _ named => absurd named (by simp)⟩
  | some newindex =>
    have only : (∀ other, some newindex = some other → HasRoom w mech other) ↔
        HasRoom w mech newindex :=
      ⟨fun all => all newindex rfl, fun room other same => some.inj same ▸ room⟩
    rw [only]
    by_cases valid : (w.validMap newindex).isSome = true
    · exact move_iff valid (tries newindex rfl)
    · refine iff_of_true (fun w' report ran => ?_) fun known => absurd known valid
      obtain ⟨same, room⟩ := rsetmapindexReport_invalid valid ran
      exact ⟨same, fun _ _ _ => room⟩

/-- A unit on a map, and a map of 250 slots which are all empty. -/
def stranded : World :=
  let w := World.start [1] [100, 200] fun _ => default
  ((w.modifyUnit 1 fun u => u.enter 100 0).modifyMap 100 fun m =>
    { m with firstFree := 1, mechsOnMap := fun _ => 1 }).modifyMap 200 fun m =>
      { m with firstFree := 250, mechsOnMap := fun _ => -1 }

theorem all_or_nothing_iff_own_map : AllOrNothing stranded 1 (some 100) [(65, 65)] := by
  have unused : idInUse stranded 100 (65, 65) = false := by decide
  have unused' : ∀ off ∈ leaveMap 1 stranded, idInUse off 100 (65, 65) = false := by
    decide
  refine (all_or_nothing_iff stranded 1 (some 100) [(65, 65)] fun newindex same off left => ?_).mpr
    fun newindex same _ full => ?_
  · obtain rfl := some.inj same
    refine ⟨(65, 65), List.mem_singleton.mpr rfl, ?_⟩
    rcases left with rfl | leaving
    · exact unused
    · exact unused' off leaving
  · obtain rfl := some.inj same
    exact absurd full (by decide)

/-- The unit is off its map when no room is found for it on the empty one. -/
theorem full_map_strands_unit :
    (stranded.unit 1).mapindex = 100 ∧ (stranded.map 100).mechsOnMap 0 = 1 ∧
      (stranded.map 200).mechsOnMap 0 = -1 ∧
      (rsetmapindexReport 1 (some 200) [(65, 65)] stranded).map
        (fun result => (result.2, (result.1.unit 1).mapindex, (result.1.map 100).mechsOnMap 0)) =
          some (.tooMany, -1, -1) := by
  decide +kernel

end BattletechMux.UnitWorld
