/-
Module: BattletechMux.Unit.StaleSight
Purpose: Slots that are used again. As long as a slot is only freed after its row and column of the
  line-of-sight table were zeroed, every empty slot has a zero row and column, and so has the slot
  of every unit that just entered a map.
-/
import BattletechMux.Unit.Occupancy

namespace BattletechMux.UnitWorld

open List Option

open Function (update)

namespace GameMap

def ClearSlot (m : GameMap) (k : Nat) : Prop :=
  ∀ j, j < m.firstFree → m.losInfo k j = 0 ∧ m.losInfo j k = 0

def EmptiesClear (m : GameMap) : Prop :=
  ∀ k, k < m.firstFree → m.mechsOnMap k < 0 → m.ClearSlot k

variable {m m' : GameMap} {i j k : Nat} {flag : LosFlag}

theorem setLos_losInfo (a b : Nat) :
    (m.setLos i j flag).losInfo a b = if a = i ∧ b = j then flag else m.losInfo a b := by
  by_cases row : a = i
  · by_cases column : b = j <;> simp [setLos, row, column]
  · simp [setLos, row]

theorem ClearSlot.setLos_of_ne (clear : m.ClearSlot k) (row : k ≠ i) (column : k ≠ j) :
    (m.setLos i j flag).ClearSlot k := by
  intro o below
  simp only [setLos_losInfo, row, column, false_and, and_false, if_false]
  exact clear o below

theorem ClearSlot.setLos_zero (clear : m.ClearSlot k) : (m.setLos i j 0).ClearSlot k := by
  intro o below
  obtain ⟨row, column⟩ := clear o below
  simp [setLos_losInfo, row, column]

theorem ClearSlot.congr (clear : m.ClearSlot k) (firstFree : m'.firstFree = m.firstFree)
    (losInfo : m'.losInfo = m.losInfo) : m'.ClearSlot k := by
  intro o below
  rw [firstFree] at below
  rw [losInfo]
  exact clear o below

section

variable (clear : m.EmptiesClear)
include clear

theorem EmptiesClear.congr (firstFree : m'.firstFree = m.firstFree)
    (mechsOnMap : m'.mechsOnMap = m.mechsOnMap) (losInfo : m'.losInfo = m.losInfo) :
    m'.EmptiesClear := by
  intro slot below empty
  rw [firstFree] at below
  rw [mechsOnMap] at empty
  exact (clear slot below empty).congr firstFree losInfo

theorem EmptiesClear.setLos (row : 0 ≤ m.mechsOnMap i) (column : 0 ≤ m.mechsOnMap j) :
    (m.setLos i j flag).EmptiesClear := by
  intro slot below empty
  apply (clear slot below empty).setLos_of_ne
  · rintro rfl
    exact absurd empty (Int.not_lt.mpr row)
  · rintro rfl
    exact absurd empty (Int.not_lt.mpr column)

theorem EmptiesClear.setLos_zero : (m.setLos i j 0).EmptiesClear :=
  fun slot below empty => (clear slot below empty).setLos_zero

theorem EmptiesClear.shrink {count : Nat} (fewer : count ≤ m.firstFree) :
    (m.truncate count).EmptiesClear :=
  fun slot below empty o hin =>
    clear slot (below.trans_le fewer) empty o (hin.trans_le fewer)

theorem EmptiesClear.freeSlot (freed : m.ClearSlot k) : (m.freeSlot k).EmptiesClear := by
  have fewer := freeSlot_firstFree_le m k
  intro slot below empty o hin
  have inTable : o < m.firstFree := hin.trans_le fewer
  by_cases eq : slot = k
  · subst eq
    exact freed o inTable
  · have emptyBefore : m.mechsOnMap slot < 0 := by
      simpa [GameMap.freeSlot, eq] using empty
    exact clear slot (below.trans_le fewer) emptyBefore o inTable

theorem EmptiesClear.without {mech : Dbref}
    (freed : ∀ k, k < m.firstFree → m.mechsOnMap k = mech → m.ClearSlot k) :
    (m.without mech).EmptiesClear := by
  intro slot below empty
  by_cases held : m.mechsOnMap slot = mech
  · exact freed slot below held
  · have emptyBefore : m.mechsOnMap slot < 0 := by
      simpa [GameMap.without, held] using empty
    exact clear slot below emptyBefore

end

theorem freeSlot?_eq_some (hf : m.freeSlot? = some k) :
    k < m.firstFree ∧ m.mechsOnMap k < 0 := by
  unfold freeSlot? at hf
  have empty := find?_some hf
  have inRange := mem_of_find?_eq_some hf
  exact ⟨mem_range.mp inRange, of_decide_eq_true empty⟩

theorem freeSlot?_eq_none (full : m.freeSlot? = none) (below : k < m.firstFree) :
    ¬ m.mechsOnMap k < 0 := by
  unfold freeSlot? at full
  simpa using find?_eq_none.mp full k (mem_range.mpr below)

theorem EmptiesClear.slotToTake (clear : m.EmptiesClear) (mech : Dbref) :
    (m.slotToTake.2.fillSlot m.slotToTake.1 mech).ClearSlot m.slotToTake.1 ∧
      (m.slotToTake.2.fillSlot m.slotToTake.1 mech).EmptiesClear := by
  unfold GameMap.slotToTake
  cases hf : m.freeSlot? with
  | some loop =>
    obtain ⟨below, empty⟩ := freeSlot?_eq_some hf
    constructor
    · exact clear loop below empty
    · intro slot hin emptyAfter
      by_cases eq : slot = loop
      · subst eq
        exact clear slot below empty
      · have emptyBefore : m.mechsOnMap slot < 0 := by
          simpa [fillSlot, eq] using emptyAfter
        exact clear slot hin emptyBefore
  | none =>
    have newSlot : (m.extend.fillSlot m.firstFree mech).ClearSlot m.firstFree := by
      intro o hin
      have within : o < m.extend.firstFree := hin
      simp only [extend] at within
      simp [fillSlot, extend, within]
    constructor
    · exact newSlot
    · intro slot hin emptyAfter
      by_cases eq : slot = m.firstFree
      · subst eq
        exact newSlot
      · have count : m.extend.firstFree ≤ m.firstFree + 1 := Nat.mod_le _ _
        have below : slot < m.firstFree := by
          have within : slot < m.extend.firstFree := hin
          omega
        have emptyBefore : m.mechsOnMap slot < 0 := by
          simpa [fillSlot, extend, eq] using emptyAfter
        exact absurd emptyBefore (freeSlot?_eq_none hf below)

end GameMap

def EmptiesClear (w : World) : Prop := ∀ map, (w.map map).EmptiesClear

section Steps

variable {w w' : World} {map mech : Dbref}

theorem EmptiesClear.congr (clear : EmptiesClear w) (eq : w'.map = w.map) :
    EmptiesClear w' := by
  intro map
  rw [eq]
  exact clear map

theorem EmptiesClear.modifyMap (clear : EmptiesClear w) {f : GameMap → GameMap}
    (kept : (f (w.map map)).EmptiesClear) : EmptiesClear (w.modifyMap map f) := by
  intro o
  by_cases eq : o = map
  · subst eq
    simpa using kept
  · rw [World.modifyMap_map_of_ne _ _ eq]
    exact clear o

theorem EmptiesClear.markForLOSUpdate (clear : EmptiesClear w) (mech : Dbref) :
    EmptiesClear (markForLOSUpdate mech w) := by
  unfold UnitWorld.markForLOSUpdate
  split
  · exact clear
  · rename_i map _
    exact clear.modifyMap ((clear map).congr rfl rfl rfl)

theorem clearSlotFromLOS_map (i : Nat) :
    (clearSlotFromLOS map mech w i).map =
      (w.modifyMap map fun m => (m.setLos (w.unit mech).mapnumber i 0).setLos i
        (w.unit mech).mapnumber 0).map := by
  unfold clearSlotFromLOS
  simp only
  split
  · split
    · rfl
    · split <;> rfl
  · rfl

theorem clearMechFromLOS_map (hf : w.getMap (w.unit mech).mapindex = some map) :
    (clearMechFromLOS mech w).map =
      ((List.range (w.map map).firstFree).foldl (clearSlotFromLOS map mech) w).map := by
  simp [clearMechFromLOS, hf]

theorem EmptiesClear.clearMechFromLOS (clear : EmptiesClear w) (mech : Dbref) :
    EmptiesClear (clearMechFromLOS mech w) := by
  unfold UnitWorld.clearMechFromLOS
  split
  · exact clear
  · rename_i map _
    apply EmptiesClear.congr _ (World.modifyUnit_map _ _ _)
    apply Machine.foldl_invariant _ _ clear
    intro middle i kept
    apply EmptiesClear.congr _ (clearSlotFromLOS_map i)
    exact kept.modifyMap ((kept map).setLos_zero.setLos_zero)

theorem foldl_clearSlotFromLOS_losInfo (slots : List Nat) (w : World) (a b : Nat) :
    ((slots.foldl (clearSlotFromLOS map mech) w).map map).losInfo a b =
      if (a = (w.unit mech).mapnumber ∧ b ∈ slots) ∨
          (b = (w.unit mech).mapnumber ∧ a ∈ slots) then 0
      else (w.map map).losInfo a b := by
  induction slots generalizing w with
  | nil => simp
  | cons i rest ih =>
    have eq := SamePlaces.clearSlotFromLOS map mech w i
    rw [foldl_cons, ih, eq.mapnumber, clearSlotFromLOS_map,
      World.modifyMap_map_self]
    simp only [GameMap.setLos_losInfo, mem_cons]
    grind

theorem foldl_clearSlotFromLOS_map_of_ne {o : Dbref} (ne : o ≠ map)
    (slots : List Nat) (w : World) :
    (slots.foldl (clearSlotFromLOS map mech) w).map o = w.map o := by
  induction slots generalizing w with
  | nil => rfl
  | cons i rest ih =>
    rw [foldl_cons, ih, clearSlotFromLOS_map,
      World.modifyMap_map_of_ne _ _ ne]

theorem clearMechFromLOS_losInfo (here : (w.unit mech).mapindex = map)
    (isMap : w.isMap map = true) (a b : Nat) :
    ((clearMechFromLOS mech w).map map).losInfo a b =
      if (a = (w.unit mech).mapnumber ∧ b < (w.map map).firstFree) ∨
          (b = (w.unit mech).mapnumber ∧ a < (w.map map).firstFree) then 0
      else (w.map map).losInfo a b := by
  have hf : w.getMap (w.unit mech).mapindex = some map :=
    World.getMap_eq_some.mpr ⟨here ▸ isMap, here⟩
  rw [clearMechFromLOS_map hf, foldl_clearSlotFromLOS_losInfo]
  simp only [mem_range]

theorem clearMechFromLOS_map_of_ne {o : Dbref} (elsewhere : (w.unit mech).mapindex ≠ o) :
    (clearMechFromLOS mech w).map o = w.map o := by
  unfold clearMechFromLOS
  split
  · rfl
  · rename_i map hf
    obtain ⟨_, here⟩ := World.getMap_eq_some.mp hf
    rw [World.modifyUnit_map]
    apply foldl_clearSlotFromLOS_map_of_ne
    rintro rfl
    exact elsewhere here

theorem clearMechFromLOS_clear (here : (w.unit mech).mapindex = map)
    (isMap : w.isMap map = true) :
    ((clearMechFromLOS mech w).map map).ClearSlot (w.unit mech).mapnumber := by
  intro j below
  rw [(SamePlaces.clearMechFromLOS mech w).firstFree] at below
  simp [clearMechFromLOS_losInfo here isMap, below]

theorem EmptiesClear.leaveSlot (clear : EmptiesClear w)
    (freed : ∀ k, slotToFree (w.map map) mech (w.unit mech).mapnumber = some k →
      (w.map map).ClearSlot k) : EmptiesClear (leaveSlot map mech w) := by
  unfold UnitWorld.leaveSlot
  simp only
  split
  · exact clear
  · rename_i loop hf
    apply EmptiesClear.modifyMap
    · exact clear
    · exact (clear map).freeSlot (freed loop hf)

theorem releaseTow_map : (releaseTow map mech w).map = w.map := by
  unfold releaseTow
  split
  · split <;> rfl
  · rfl

theorem dropTow_map : (dropTow map mech w).map = w.map := by
  unfold dropTow
  split <;> rfl

/-- The slot `remove_mech_from_map` frees is the unit's own, which it zeroes, or is
zero already. -/
def FreesClear (w : World) (map mech : Dbref) : Prop :=
  ∀ k, slotToFree (w.map map) mech (w.unit mech).mapnumber = some k →
    ((w.unit mech).mapindex = map ∧ (w.unit mech).mapnumber = k) ∨
      (w.map map).ClearSlot k

instance (m : GameMap) (k : Nat) : Decidable (m.ClearSlot k) :=
  inferInstanceAs
    (Decidable (∀ j, j < m.firstFree → m.losInfo k j = 0 ∧ m.losInfo j k = 0))

instance (w : World) (map mech : Dbref) : Decidable (FreesClear w map mech) :=
  match found : slotToFree (w.map map) mech (w.unit mech).mapnumber with
  | none => isTrue fun k freed => by simp [found] at freed
  | some k => decidable_of_iff
      (((w.unit mech).mapindex = map ∧ (w.unit mech).mapnumber = k) ∨
        (w.map map).ClearSlot k)
      (by simp [FreesClear, found])

theorem clearMechFromLOS_keeps {k : Nat} (clear : (w.map map).ClearSlot k) :
    ((clearMechFromLOS mech w).map map).ClearSlot k := by
  unfold clearMechFromLOS
  split
  · exact clear
  · rename_i own _
    rw [World.modifyUnit_map]
    apply @Machine.foldl_invariant _ _ _ fun w : World => (w.map map).ClearSlot k
    · intro middle i kept
      rw [clearSlotFromLOS_map]
      by_cases eq : map = own
      · subst eq
        simpa using kept.setLos_zero.setLos_zero
      · rw [World.modifyMap_map_of_ne _ _ eq]
        exact kept
    · exact clear

theorem EmptiesClear.removeMechFromMap (clear : EmptiesClear w)
    (isMap : w.isMap map = true) (frees : FreesClear w map mech) :
    EmptiesClear (removeMechFromMap map mech w) := by
  have eq := SamePlaces.clearMechFromLOS mech w
  have left : EmptiesClear (UnitWorld.leaveSlot map mech
      (UnitWorld.clearMechFromLOS mech w)) := by
    apply (clear.clearMechFromLOS mech).leaveSlot
    intro k hf
    have foundBefore : slotToFree (w.map map) mech (w.unit mech).mapnumber = some k := by
      simpa only [slotToFree, eq.firstFree, eq.mechsOnMap, eq.mapnumber] using hf
    rcases frees k foundBefore with ⟨here, rfl⟩ | zero
    · exact clearMechFromLOS_clear here isMap
    · exact clearMechFromLOS_keeps zero
  exact left.congr releaseTow_map

theorem EmptiesClear.leaveMap (clear : EmptiesClear w)
    (isMap : w.isMap (w.unit mech).mapindex = true)
    (frees : FreesClear w (w.unit mech).mapindex mech) {left : World}
    (leaving : leaveMap mech w = some left) : EmptiesClear left := by
  obtain ⟨w', leaves, only⟩ := leaveMap_spec mech w
  obtain rfl : w' = left := some.inj (leaves.symm.trans leaving)
  exact (clear.removeMechFromMap isMap frees).congr only.map

theorem takeSlot_clear (clear : EmptiesClear w) (map mech : Dbref) :
    ((takeSlot map mech w).map map).ClearSlot ((takeSlot map mech w).unit mech).mapnumber ∧
      EmptiesClear (takeSlot map mech w) := by
  obtain ⟨newcomer, others⟩ := (clear map).slotToTake mech
  unfold takeSlot
  simp only
  constructor
  · simpa [World.setMap_map_self, Unit.enter] using newcomer
  · intro o
    by_cases eq : o = map
    · subst eq
      simpa using others
    · rw [World.setMap_map_of_ne _ _ eq]
      exact clear o

theorem markForLOSUpdate_table (mech o : Dbref) :
    ((markForLOSUpdate mech w).map o).losInfo = (w.map o).losInfo := by
  unfold markForLOSUpdate
  split
  · rfl
  · rename_i map _
    by_cases eq : o = map
    · subst eq
      simp
    · rw [World.modifyMap_map_of_ne _ _ eq]

theorem addMechToMap_clear (clear : EmptiesClear w) (map mech : Dbref) :
    EmptiesClear (addMechToMap map mech w) ∧
      ((w.map map).holds mech = false → ((addMechToMap map mech w).map map).ClearSlot
        ((addMechToMap map mech w).unit mech).mapnumber) := by
  obtain ⟨newcomer, others⟩ := takeSlot_clear clear map mech
  have tow := SamePlaces.dropTow map mech (takeSlot map mech w)
  have mark := SamePlaces.markForLOSUpdate mech (dropTow map mech (takeSlot map mech w))
  unfold addMechToMap
  by_cases held : (w.map map).holds mech = true
  · rw [if_pos held]
    exact ⟨clear, fun absent => absurd held (by simp [absent])⟩
  · rw [if_neg held]
    constructor
    · exact (others.congr dropTow_map).markForLOSUpdate mech
    · intro _
      rw [mark.mapnumber, tow.mapnumber]
      apply newcomer.congr
      · rw [mark.firstFree, tow.firstFree]
      · rw [markForLOSUpdate_table, dropTow_map]

def OneEntry (map : Dbref) (i j : Nat) (w w' : World) : Prop :=
  ∃ flag, w'.map = (w.modifyMap map fun m => m.setLos i j flag).map

namespace OneEntry

variable {i j : Nat}

theorem of_map_eq (eq : w'.map = w.map) : OneEntry map i j w w' := by
  refine ⟨(w.map map).losInfo i j, ?_⟩
  rw [eq]
  simp [World.modifyMap, World.setMap, GameMap.setLos]

theorem write (w : World) (flag : LosFlag) :
    OneEntry map i j w (w.modifyMap map fun m => m.setLos i j flag) := ⟨flag, rfl⟩

theorem trans {w'' : World} (fst : OneEntry map i j w w')
    (snd : OneEntry map i j w' w'') : OneEntry map i j w w'' := by
  obtain ⟨one, wrote⟩ := fst
  obtain ⟨two, wroteThen⟩ := snd
  refine ⟨two, ?_⟩
  rw [wroteThen]
  simp [World.modifyMap, World.setMap, GameMap.setLos, wrote]

theorem emptiesClear (one : OneEntry map i j w w') (clear : EmptiesClear w)
    (row : 0 ≤ (w.map map).mechsOnMap i) (column : 0 ≤ (w.map map).mechsOnMap j) :
    EmptiesClear w' := by
  obtain ⟨flag, wrote⟩ := one
  exact (clear.modifyMap ((clear map).setLos row column)).congr wrote

theorem clearSlot {k : Nat} (one : OneEntry map i j w w')
    (clear : (w.map map).ClearSlot k) (row : k ≠ i) (column : k ≠ j) :
    (w'.map map).ClearSlot k := by
  obtain ⟨flag, wrote⟩ := one
  rw [wrote, World.modifyMap_map_self]
  exact clear.setLos_of_ne row column

theorem sensorDoWeSeeNow (mech target : Dbref) (o : Sight) (seeanew : Nat) (w : World) :
    OneEntry map i j w (sensorDoWeSeeNow map i j mech target o seeanew w) := by
  unfold UnitWorld.sensorDoWeSeeNow
  simp only
  split
  · exact of_map_eq rfl
  · split
    · split
      · exact write w _
      · exact (of_map_eq rfl).trans (write _ _)
    · split
      · exact of_map_eq rfl
      · split
        · exact of_map_eq rfl
        · split <;> exact (of_map_eq rfl).trans (write _ _)

theorem lookAt (snd : Bool) (mech target : Dbref) (o : Sight) (w : World) :
    OneEntry map i j w (lookAt snd map i j mech target o w) := by
  unfold UnitWorld.lookAt
  simp only
  split
  · exact (write w _).trans (sensorDoWeSeeNow _ _ _ _ _)
  · split
    · exact write w _
    · exact (write w _).trans (sensorDoWeSeeNow _ _ _ _ _)

end OneEntry

theorem EmptiesClear.updatePair (clear : EmptiesClear w) (snd : Bool) (map : Dbref)
    (sight : Nat → Nat → Sight) (pair : Nat × Nat) :
    EmptiesClear (updatePair snd map sight w pair) := by
  unfold UnitWorld.updatePair
  simp only
  split
  · rename_i mech target foundMech foundTarget
    obtain ⟨isMech, slotMech⟩ := World.getMech_eq_some.mp foundMech
    obtain ⟨isTarget, slotTarget⟩ := World.getMech_eq_some.mp foundTarget
    have row := Int.le_of_lt (w.mech_pos _ isMech)
    have column := Int.le_of_lt (w.mech_pos _ isTarget)
    split
    · exact clear
    · split
      · exact clear
      · split
        · have eq := SamePlaces.markForLOSUpdate target w
          apply (OneEntry.lookAt snd mech target _ _).emptiesClear
            (clear.markForLOSUpdate target)
          · rw [eq.mechsOnMap]
            exact row
          · rw [eq.mechsOnMap]
            exact column
        · exact (OneEntry.lookAt snd mech target _ _).emptiesClear clear row column
  · exact clear

theorem EmptiesClear.updateLOSinfo (clear : EmptiesClear w) (map : Dbref)
    (sight : Nat → Nat → Sight) : EmptiesClear (updateLOSinfo map sight w) := by
  have each : ∀ snd middle pair, EmptiesClear middle →
      EmptiesClear (UnitWorld.updatePair snd map sight middle pair) :=
    fun snd middle pair kept => kept.updatePair snd map sight pair
  have fst := Machine.foldl_invariant (each false) (firstPairs (w.map map).firstFree) clear
  have snd := Machine.foldl_invariant (each true) (secondPairs (w.map map).firstFree) fst
  exact snd.modifyMap ((snd map).congr rfl rfl rfl)

def Seated (w : World) (mech : Dbref) : Prop :=
  ∀ map, w.getMap (w.unit mech).mapindex = some map →
    0 ≤ (w.map map).mechsOnMap (w.unit mech).mapnumber

theorem EmptiesClear.plosSlot (clear : EmptiesClear w) (sight : Nat → Nat → Sight) (i : Nat)
    (occupied : 0 ≤ (w.map map).mechsOnMap (w.unit mech).mapnumber) :
    EmptiesClear (plosSlot map mech sight w i) := by
  unfold UnitWorld.plosSlot
  simp only
  split
  · rename_i looks
    split
    · exact clear
    · have counted : EmptiesClear (w.modifyUnit mech Unit.countCanSee) := clear
      exact (OneEntry.sensorDoWeSeeNow mech _ _ 1 _).emptiesClear counted occupied
        (Int.le_of_lt looks.1)
  · exact clear

theorem EmptiesClear.mechPlosEvent (clear : EmptiesClear w) (seated : Seated w mech)
    (sight : Nat → Nat → Sight) : EmptiesClear (mechPlosEvent mech sight w) := by
  unfold UnitWorld.mechPlosEvent
  split
  · exact clear
  · split
    · exact clear
    · rename_i map hf
      split
      · exact clear
      · have reset : SamePlaces w (w.modifyUnit mech fun u => { u with canSee := 0 }) :=
          SamePlaces.modifyUnit w mech (fun _ => rfl) (fun _ => rfl) fun _ => rfl
        have each : ∀ middle i, SamePlaces w middle ∧ EmptiesClear middle →
            SamePlaces w (UnitWorld.plosSlot map mech sight middle i) ∧
              EmptiesClear (UnitWorld.plosSlot map mech sight middle i) := by
          rintro middle i ⟨eq, kept⟩
          refine ⟨eq.trans (SamePlaces.plosSlot map mech sight middle i), ?_⟩
          apply kept.plosSlot
          rw [eq.mechsOnMap, eq.mapnumber]
          exact seated map hf
        exact (Machine.foldl_invariant each _ ⟨reset, clear⟩).2

def Stray (w : World) (map : Dbref) (k : Nat) : Prop :=
  k < (w.map map).firstFree ∧ w.isMech ((w.map map).mechsOnMap k) = true ∧
    (w.unit ((w.map map).mechsOnMap k)).mapindex ≠ map

/-- The units `possibly_see_mech` takes off the map are in clear slots, and the one
they look for is in a slot that is in use. -/
def StraysClear (w : World) (mech : Dbref) : Prop :=
  ∀ map, w.getMap (w.unit mech).mapindex = some map →
    0 ≤ (w.map map).mechsOnMap (w.unit mech).mapnumber ∧
      ∀ k, k ≠ (w.unit mech).mapnumber → Stray w map k → (w.map map).ClearSlot k

theorem Stray.of_samePlaces {k : Nat} (eq : SamePlaces w w') (stray : Stray w' map k) :
    Stray w map k := by
  unfold Stray at stray ⊢
  rwa [eq.firstFree, eq.mechsOnMap, eq.isMech, eq.mapindex] at stray

theorem possiblySeeSlot_clear {num : Nat} (sight : Nat → Nat → Sight) (i : Nat)
    (clear : EmptiesClear w) (occupied : 0 ≤ (w.map map).mechsOnMap num)
    (strays : ∀ k, k ≠ num → Stray w map k → (w.map map).ClearSlot k)
    (hin : i < (w.map map).firstFree) :
    EmptiesClear (possiblySeeSlot map mech num sight w i) ∧
      0 ≤ ((possiblySeeSlot map mech num sight w i).map map).mechsOnMap num ∧
      (∀ k, k ≠ num → Stray (possiblySeeSlot map mech num sight w i) map k →
        ((possiblySeeSlot map mech num sight w i).map map).ClearSlot k) ∧
      ((possiblySeeSlot map mech num sight w i).map map).firstFree =
        (w.map map).firstFree := by
  unfold possiblySeeSlot
  simp only
  split
  · rename_i looks
    split
    · exact ⟨clear, occupied, strays, rfl⟩
    · rename_i seer hf
      obtain ⟨isMech, rfl⟩ := World.getMech_eq_some.mp hf
      split
      · rename_i elsewhere
        have zero := strays i looks.1 ⟨hin, isMech, elsewhere⟩
        refine ⟨?_, ?_, ?_, by simp⟩
        · apply clear.modifyMap
          intro slot below empty
          by_cases eq : slot = i
          · subst eq
            exact zero
          · have emptyBefore : (w.map map).mechsOnMap slot < 0 := by
              simpa [eq] using empty
            exact clear map slot below emptyBefore
        · simpa [Ne.symm looks.1] using occupied
        · intro k ne stray
          rw [World.modifyMap_map_self]
          by_cases eq : k = i
          · subst eq
            exact zero
          · apply strays k ne
            simpa [Stray, eq] using stray
      · rename_i here
        have eq : ∀ seer, SamePlaces w (sensorDoWeSeeNow map i num seer mech (sight i num) 2
            (w.modifyMap map fun m =>
              m.setLos i num (calculateLOSFlag (sight i num) (m.losInfo i num)))) := fun seer =>
          (SamePlaces.setLos w map i num _).trans (SamePlaces.sensorDoWeSeeNow _ _ _ _ _ _ _ _)
        have one : ∀ seer, OneEntry map i num w
            (sensorDoWeSeeNow map i num seer mech (sight i num) 2 (w.modifyMap map fun m =>
              m.setLos i num (calculateLOSFlag (sight i num) (m.losInfo i num)))) := fun seer =>
          (OneEntry.write w _).trans (OneEntry.sensorDoWeSeeNow _ _ _ _ _)
        refine ⟨(one _).emptiesClear clear looks.2 occupied, ?_, ?_, (eq _).firstFree map⟩
        · rw [(eq _).mechsOnMap]
          exact occupied
        · intro k ne stray
          have strayBefore := Stray.of_samePlaces (eq _) stray
          apply (one _).clearSlot (strays k ne strayBefore) _ ne
          rintro rfl
          exact here strayBefore.2.2
  · exact ⟨clear, occupied, strays, rfl⟩

theorem EmptiesClear.possiblySeeMech (clear : EmptiesClear w) (strays : StraysClear w mech)
    (sight : Nat → Nat → Sight) : EmptiesClear (possiblySeeMech mech sight w) := by
  unfold UnitWorld.possiblySeeMech
  split
  · exact clear
  · rename_i map hf
    obtain ⟨occupied, zero⟩ := strays map hf
    have rounds := @Machine.foldl_invariant_of_mem _ _
      (UnitWorld.possiblySeeSlot map mech (w.unit mech).mapnumber sight)
      (fun middle => EmptiesClear middle ∧
        0 ≤ (middle.map map).mechsOnMap (w.unit mech).mapnumber ∧
        (∀ k, k ≠ (w.unit mech).mapnumber → Stray middle map k →
          (middle.map map).ClearSlot k) ∧
        (middle.map map).firstFree = (w.map map).firstFree)
      w (List.range (w.map map).firstFree)
      (by
        rintro middle i mem ⟨kept, held, unseen, eq⟩
        have hin : i < (middle.map map).firstFree := eq ▸ mem_range.mp mem
        obtain ⟨kept', held', unseen', same'⟩ :=
          possiblySeeSlot_clear sight i kept held unseen hin
        exact ⟨kept', held', unseen', same'.trans eq⟩)
      ⟨clear, occupied, zero, rfl⟩
    exact rounds.1

theorem EmptiesClear.mechRemoveFromAllMaps (clear : EmptiesClear w)
    (freed : ∀ map, w.isMap map = true → ∀ k, k < (w.map map).firstFree →
      (w.map map).mechsOnMap k = mech → (w.map map).ClearSlot k) :
    EmptiesClear (mechRemoveFromAllMaps mech w) := by
  intro map
  unfold UnitWorld.mechRemoveFromAllMaps
  simp only
  split
  · rename_i isMap
    exact (clear map).without (freed map isMap)
  · exact clear map

theorem EmptiesClear.eliminateEmpties (clear : EmptiesClear w) (map : Dbref) :
    EmptiesClear (eliminateEmpties map w) := by
  unfold UnitWorld.eliminateEmpties
  split
  · exact clear
  · rename_i hf _
    simp only
    split
    · exact clear
    · exact clear.modifyMap ((clear _).shrink (lastUsed_spec _ _).1)

end Steps

/-- The calls that move units, `MarkForLOSUpdate` of a unit that changed its position,
and the calls that write the table. -/
inductive SightOp where
  | move (op : PlacementOp)
  | mark (mech : Dbref)
  | updateLOSinfo (map : Dbref) (sight : Nat → Nat → Sight)
  | plosEvent (mech : Dbref) (sight : Nat → Nat → Sight)
  | possiblySee (mech : Dbref) (sight : Nat → Nat → Sight)

def World.act (w : World) : SightOp → Option World
  | .move op => w.move op
  | .mark mech => some (markForLOSUpdate mech w)
  | .updateLOSinfo map sight => some (UnitWorld.updateLOSinfo map sight w)
  | .plosEvent mech sight => some (mechPlosEvent mech sight w)
  | .possiblySee mech sight => some (possiblySeeMech mech sight w)

/-- The step puts `mech` into a slot of `map`. -/
def SightOp.Adds (w w' : World) (map mech : Dbref) : SightOp → Prop
  | .move (.addToMap newmap added) =>
    newmap = map ∧ added = mech ∧ (w.map map).holds mech = false
  | .move (.rsetmapindex moved newindex _) =>
    newindex = map ∧ moved = mech ∧ w.validMap map = some map ∧
      (w'.unit mech).mapindex = map
  | _ => False

/-- The step frees no slot whose row or column still has bits, other than by
zeroing them, and writes no row or column of an empty slot. -/
def SightOp.LeavesClear (w : World) : SightOp → Prop
  | .move (.rsetmapindex mech newindex _) =>
    w.TakesOff mech newindex → FreesClear w (w.unit mech).mapindex mech
  | .move (.removeFromMap map mech) => FreesClear w map mech
  | .move (.removeFromAllMaps mech) =>
    ∀ map, w.isMap map = true → ∀ k, k < (w.map map).firstFree →
      (w.map map).mechsOnMap k = mech → (w.map map).ClearSlot k
  | .move (.addToMap _ _) => True
  | .move (.eliminateEmpties _) => True
  | .mark _ => True
  | .updateLOSinfo _ _ => True
  | .plosEvent mech _ => Seated w mech
  | .possiblySee mech _ => StraysClear w mech

def SightOp.WellTyped (w : World) : SightOp → Prop
  | .move op => op.WellTyped w
  | .mark mech => w.isMech mech = true
  | .updateLOSinfo map _ => w.isMap map = true
  | .plosEvent mech _ => w.isMech mech = true
  | .possiblySee mech _ => w.isMech mech = true

section Runs

variable {w w' : World}

variable {ids : List MechId}

theorem mechRsetmapindex_valid {mech newindex : Dbref}
    (valid : w.validMap newindex = some newindex) :
    mechRsetmapindex mech newindex ids w =
      if (w.unit mech).mapindex = -1 then enterMap mech newindex ids w
      else if (w.validMap (w.unit mech).mapindex).isNone then some w
      else (leaveMap mech w).bind (enterMap mech newindex ids) := by
  have real : 0 ≤ newindex := by
    have accepted : (w.validMap newindex).isSome = true := by simp [valid]
    exact w.map_nonneg _ (isMap_of_validMap accepted)
  have notRemoved : newindex ≠ -1 := by
    rintro rfl
    exact absurd real (by decide)
  have notBelow : ¬ newindex < -1 := by
    intro below
    exact absurd (Int.lt_trans below (by decide)) (Int.not_lt.mpr real)
  unfold mechRsetmapindex
  rw [if_neg notBelow, if_neg (by simp [valid])]
  by_cases off : (w.unit mech).mapindex = -1
  · rw [if_neg (by simp [off]), if_neg notRemoved, if_pos off]
  · rw [if_pos off, if_neg off]
    simp [notRemoved, bind_eq_bind]

theorem EmptiesClear.enterMap (clear : EmptiesClear w) {mech map : Dbref}
    (entered : enterMap mech map ids w = some w') :
    EmptiesClear w' := by
  rcases enterMap_cases entered with rfl | ⟨_, targ, rfl⟩
  · exact clear
  · exact (addMechToMap_clear clear map mech).1

theorem enterMap_clear (clear : EmptiesClear w) {mech map : Dbref}
    (off : (w.unit mech).mapindex ≠ map) (entered : enterMap mech map ids w = some w')
    (on : (w'.unit mech).mapindex = map) : (w'.map map).ClearSlot (w'.unit mech).mapnumber := by
  rcases enterMap_cases entered with rfl | ⟨_, targ, rfl⟩
  · exact absurd on off
  · have id : SamePlaces (addMechToMap map mech w)
        ((addMechToMap map mech w).modifyUnit mech fun u => u.setId targ) :=
      SamePlaces.modifyUnit _ mech (fun _ => rfl) (fun _ => rfl) fun _ => rfl
    rw [id.mapindex] at on
    rw [id.mapnumber]
    apply (addMechToMap_clear clear map mech).2
    by_cases held : (w.map map).holds mech = true
    · rw [addMechToMap, if_pos held] at on
      exact absurd on off
    · simpa using held

theorem mechRsetmapindex_clear (clear : EmptiesClear w) {mech newindex : Dbref}
    (frees : w.TakesOff mech newindex → FreesClear w (w.unit mech).mapindex mech)
    (moved : mechRsetmapindex mech newindex ids w = some w') :
    EmptiesClear w' ∧ (w.validMap newindex = some newindex →
      (w'.unit mech).mapindex = newindex →
        (w'.map newindex).ClearSlot (w'.unit mech).mapnumber) := by
  constructor
  · rcases mechRsetmapindex_cases moved with
      rfl | ⟨takesOff, left, leaving, rfl | ⟨_, entered⟩⟩ | ⟨_, _, entered⟩
    · exact clear
    · exact clear.leaveMap (isMap_of_validMap takesOff.2) (frees takesOff) leaving
    · exact (clear.leaveMap (isMap_of_validMap takesOff.2) (frees takesOff)
        leaving).enterMap entered
    · exact clear.enterMap entered
  · intro valid on
    have real : -1 ≠ newindex := by
      have accepted : (w.validMap newindex).isSome = true := by simp [valid]
      have nonneg := w.map_nonneg _ (isMap_of_validMap accepted)
      rintro rfl
      exact absurd nonneg (by decide)
    rw [mechRsetmapindex_valid valid] at moved
    split at moved
    · rename_i off
      exact enterMap_clear clear (by rwa [off]) moved on
    · split at moved
      · rename_i oldInvalid
        obtain rfl := some.inj moved
        rw [on, valid] at oldInvalid
        simp at oldInvalid
      · rename_i oldValid
        obtain ⟨left, leaving, entered⟩ := bind_eq_some_iff.mp moved
        have takesOff : w.TakesOff mech newindex :=
          ⟨Or.inr (by simp [valid]), isSome_iff_ne_none.mpr (by simpa using oldValid)⟩
        have left' := clear.leaveMap (isMap_of_validMap takesOff.2) (frees takesOff) leaving
        have gone := leaveMap_mapindex leaving
        exact enterMap_clear left' (by rwa [gone]) entered on

theorem act_clear (clear : EmptiesClear w) {op : SightOp} (wellTyped : op.WellTyped w)
    (leaves : op.LeavesClear w) (acted : w.act op = some w') :
    EmptiesClear w' ∧ ∀ map mech, op.Adds w w' map mech →
      (w'.map map).ClearSlot (w'.unit mech).mapnumber := by
  cases op with
  | mark mech =>
    obtain rfl := some.inj acted
    exact ⟨clear.markForLOSUpdate mech, fun _ _ added => added.elim⟩
  | updateLOSinfo map sight =>
    obtain rfl := some.inj acted
    exact ⟨clear.updateLOSinfo map sight, fun _ _ added => added.elim⟩
  | plosEvent mech sight =>
    obtain rfl := some.inj acted
    exact ⟨clear.mechPlosEvent leaves sight, fun _ _ added => added.elim⟩
  | possiblySee mech sight =>
    obtain rfl := some.inj acted
    exact ⟨clear.possiblySeeMech leaves sight, fun _ _ added => added.elim⟩
  | move op =>
    cases op with
    | rsetmapindex mech newindex ids =>
      obtain ⟨kept, newcomer⟩ := mechRsetmapindex_clear clear leaves acted
      refine ⟨kept, ?_⟩
      rintro _ _ ⟨rfl, rfl, valid, on⟩
      exact newcomer valid on
    | removeFromAllMaps mech =>
      obtain rfl := some.inj acted
      exact ⟨clear.mechRemoveFromAllMaps leaves, fun _ _ added => added.elim⟩
    | removeFromMap map mech =>
      obtain rfl := some.inj acted
      exact ⟨clear.removeMechFromMap wellTyped.1 leaves, fun _ _ added => added.elim⟩
    | addToMap newmap mech =>
      obtain rfl := some.inj acted
      obtain ⟨kept, newcomer⟩ := addMechToMap_clear clear newmap mech
      refine ⟨kept, ?_⟩
      rintro _ _ ⟨rfl, rfl, absent⟩
      exact newcomer absent
    | eliminateEmpties map =>
      obtain rfl := some.inj acted
      exact ⟨clear.eliminateEmpties map, fun _ _ added => added.elim⟩

theorem start_emptiesClear (mechs maps : List Dbref) (unit : Dbref → Unit) :
    EmptiesClear (World.start mechs maps unit) :=
  fun _ _ below => absurd below (Nat.not_lt_zero _)

def SightOp.Disciplined (w : World) : SightOp → Prop
  | .move op => op.Disciplined w
  | _ => True

theorem seated_of_consistent (hc : Consistent w) {mech : Dbref}
    (isMech : w.isMech mech = true) : Seated w mech := by
  intro map hf
  obtain ⟨isMap, rfl⟩ := World.getMap_eq_some.mp hf
  obtain ⟨_, _, own⟩ := hc.own isMech (w.map_nonneg _ isMap)
  rw [own]
  exact Int.le_of_lt (w.mech_pos _ isMech)

theorem leavesClear_of_consistent (hc : Consistent w) {op : SightOp}
    (wellTyped : op.WellTyped w) (disciplined : op.Disciplined w) : op.LeavesClear w := by
  have frees : ∀ {map mech}, w.isMech mech = true → w.isMap map = true →
      (w.unit mech).mapindex = map ∨ (w.unit mech).mapindex < 0 → FreesClear w map mech := by
    intro map mech isMech isMap here k hf
    rw [slotToFree_eq hc isMech isMap here] at hf
    split at hf
    · rename_i eq
      exact Or.inl ⟨eq, some.inj hf⟩
    · exact absurd hf (by simp)
  cases op with
  | mark _ => trivial
  | updateLOSinfo _ _ => trivial
  | plosEvent mech _ => exact seated_of_consistent hc wellTyped
  | possiblySee mech _ =>
    intro map hf
    refine ⟨seated_of_consistent hc wellTyped map hf, ?_⟩
    rintro k _ ⟨below, isMech, elsewhere⟩
    obtain ⟨isMap, rfl⟩ := World.getMap_eq_some.mp hf
    have occupied := Int.le_of_lt (w.mech_pos _ isMech)
    exact absurd (hc.slot isMap below occupied).2.1 elsewhere
  | move op =>
    cases op with
    | addToMap _ _ => trivial
    | eliminateEmpties _ => trivial
    | rsetmapindex mech newindex _ =>
      intro takesOff
      exact frees wellTyped (isMap_of_validMap takesOff.2) (Or.inl rfl)
    | removeFromMap map mech => exact frees wellTyped.2 wellTyped.1 disciplined
    | removeFromAllMaps mech =>
      intro map isMap k below held
      have there : w.holder (map, k) = some mech := World.holder_eq_some.mpr
        ⟨isMap, below, held, Int.le_of_lt (w.mech_pos _ wellTyped)⟩
      exact absurd there (hc.unplaced disciplined _)

/-- In a run that frees only clear slots, every unit that is added to a map finds
the row and the column of its slot zero. -/
theorem newcomer_clear {middle : World} {before : List SightOp} {op : SightOp}
    {map mech : Dbref} (clear : EmptiesClear w)
    (guarded : Machine.Guarded World.act
      (fun w op => op.WellTyped w ∧ op.LeavesClear w) w (before ++ [op]))
    (ran : Machine.run World.act w before = some middle)
    (acted : middle.act op = some w') (added : op.Adds middle w' map mech) :
    (w'.map map).ClearSlot (w'.unit mech).mapnumber := by
  obtain ⟨allowedBefore, last⟩ := Machine.guarded_append.mp guarded
  have kept := Machine.run_guarded
    (fun _ _ _ holds allowed stepped => (act_clear holds allowed.1 allowed.2 stepped).1)
    clear allowedBefore ran
  have allowed := (last middle ran).1
  exact (act_clear kept allowed.1 allowed.2 acted).2 map mech added

def scout (ref : Dbref) : Unit :=
  { (default : Unit) with team := ref, started := true, aaTech := true }

def clearView (_ _ : Nat) : Sight where
  marksTarget := false
  outOfRange := false
  terrain := 0
  canSee := 1
  seesNow := true

/-- A scout that looked around, and left the way it should. -/
theorem newcomer_clear_scout :
    ∃ middle w', Machine.run World.act (World.start [1, 2, 3] [10] scout)
      [.move (.addToMap 10 1), .move (.addToMap 10 2), .updateLOSinfo 10 clearView,
        .move (.removeFromMap 10 1)] = some middle ∧
      middle.act (.move (.addToMap 10 3)) = some w' ∧
      (w'.map 10).ClearSlot (w'.unit 3).mapnumber := by
  have guarded : Machine.Guarded World.act (fun w op => op.WellTyped w ∧ op.LeavesClear w)
      (World.start [1, 2, 3] [10] scout)
      ([.move (.addToMap 10 1), .move (.addToMap 10 2), .updateLOSinfo 10 clearView,
        .move (.removeFromMap 10 1)] ++ [.move (.addToMap 10 3)]) := by
    apply (Machine.guarded_cons_of_step _ rfl).mpr ⟨⟨⟨rfl, rfl⟩, trivial⟩, _⟩
    apply (Machine.guarded_cons_of_step _ rfl).mpr ⟨⟨⟨rfl, rfl⟩, trivial⟩, _⟩
    apply (Machine.guarded_cons_of_step _ rfl).mpr ⟨⟨rfl, trivial⟩, _⟩
    apply (Machine.guarded_cons_of_step _ rfl).mpr ⟨⟨⟨rfl, rfl⟩, by
      unfold SightOp.LeavesClear
      decide⟩, _⟩
    apply (Machine.guarded_cons_of_step _ rfl).mpr ⟨⟨⟨rfl, rfl⟩, trivial⟩, _⟩
    exact Machine.guarded_nil _ _ _
  exact ⟨_, _, rfl, rfl, newcomer_clear (start_emptiesClear _ _ _) guarded rfl rfl
    ⟨rfl, rfl, by decide⟩⟩

/-- `mech_remove_from_all_maps` does not zero what it frees: the unit that gets the
slot of a scout sees what the scout saw. -/
theorem newcomer_stale :
    ∃ middle w', Machine.run World.act (World.start [1, 2, 3] [10] scout)
      [.move (.rsetmapindex 1 10 [(65, 65)]), .move (.rsetmapindex 2 10 [(65, 66)]),
        .updateLOSinfo 10 clearView, .plosEvent 1 clearView,
        .move (.removeFromAllMaps 1)] = some middle ∧
      middle.act (.move (.rsetmapindex 3 10 [(65, 67)])) = some w' ∧
      SightOp.Adds middle w' 10 3 (.move (.rsetmapindex 3 10 [(65, 67)])) ∧
      (w'.unit 3).mapnumber = 0 ∧ seen ((w'.map 10).losInfo 0 1) = true ∧
      ¬ (w'.map 10).ClearSlot (w'.unit 3).mapnumber := by
  refine ⟨_, _, rfl, rfl, ⟨rfl, rfl, rfl, rfl⟩, rfl, by decide, ?_⟩
  intro clear
  exact absurd (clear 1 (by decide)).1 (by decide)

end Runs

end BattletechMux.UnitWorld
