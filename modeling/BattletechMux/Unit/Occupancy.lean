/-
Module: BattletechMux.Unit.Occupancy
Purpose: Where the units are. A unit's map and slot are stored in the unit and in the map's slot
  array; the two records mirror each other, and every function that moves a unit keeps them so when
  it is called the way the source calls it.
-/
import BattletechMux.Foundation.Mirror
import BattletechMux.Unit.Frames

namespace BattletechMux.UnitWorld

open List Option

open Function (update)
open DoubleEntry (Mirror)

abbrev Seat := Dbref × Nat

def GameMap.holder (m : GameMap) (k : Nat) : Option Dbref :=
  if k < m.firstFree ∧ 0 ≤ m.mechsOnMap k then some (m.mechsOnMap k) else none

namespace World

def place (w : World) (mech : Dbref) : Option Seat :=
  if w.isMech mech = true ∧ 0 ≤ (w.unit mech).mapindex then
    some ((w.unit mech).mapindex, (w.unit mech).mapnumber)
  else none

def holder (w : World) (seat : Seat) : Option Dbref :=
  if w.isMap seat.1 then (w.map seat.1).holder seat.2 else none

theorem holder_eq_some {w : World} {seat : Seat} {mech : Dbref} :
    w.holder seat = some mech ↔
      w.isMap seat.1 = true ∧ seat.2 < (w.map seat.1).firstFree ∧
        (w.map seat.1).mechsOnMap seat.2 = mech ∧ 0 ≤ mech := by
  simp only [holder, GameMap.holder, ite_none_right_eq_some, Option.some.injEq]
  constructor
  · rintro ⟨isMap, ⟨below, nonneg⟩, rfl⟩
    exact ⟨isMap, below, rfl, nonneg⟩
  · rintro ⟨isMap, below, rfl, nonneg⟩
    exact ⟨isMap, ⟨below, nonneg⟩, rfl⟩

theorem place_eq_some {w : World} {seat : Seat} {mech : Dbref} :
    w.place mech = some seat ↔
      w.isMech mech = true ∧ 0 ≤ (w.unit mech).mapindex ∧
        (w.unit mech).mapindex = seat.1 ∧ (w.unit mech).mapnumber = seat.2 := by
  unfold place
  split
  · rename_i placed
    simp [placed, Prod.ext_iff]
  · rename_i unplaced
    simp only [reduceCtorEq, false_iff]
    exact fun held => unplaced ⟨held.1, held.2.1⟩

end World

namespace SamePlaces

variable {w w' : World}

theorem place (eq : SamePlaces w w') : w'.place = w.place := by
  funext mech
  simp only [World.place, eq.isMech, eq.mapindex, eq.mapnumber]

theorem holder (eq : SamePlaces w w') : w'.holder = w.holder := by
  funext seat
  simp only [World.holder, GameMap.holder, eq.isMap, eq.firstFree, eq.mechsOnMap]

end SamePlaces

/-- A unit on a map is in its slot there and in no other, every slot in use names
a unit that says it is there, and no map is over its limit. -/
structure Consistent (w : World) : Prop where
  own : ∀ {mech}, w.isMech mech = true → 0 ≤ (w.unit mech).mapindex →
    w.isMap (w.unit mech).mapindex = true ∧
      (w.unit mech).mapnumber < (w.map (w.unit mech).mapindex).firstFree ∧
      (w.map (w.unit mech).mapindex).mechsOnMap (w.unit mech).mapnumber = mech
  only : ∀ {mech}, w.isMech mech = true → 0 ≤ (w.unit mech).mapindex →
    ∀ {map k}, w.isMap map = true → k < (w.map map).firstFree →
      (w.map map).mechsOnMap k = mech →
        map = (w.unit mech).mapindex ∧ k = (w.unit mech).mapnumber
  slot : ∀ {map k}, w.isMap map = true → k < (w.map map).firstFree →
    0 ≤ (w.map map).mechsOnMap k →
      w.isMech ((w.map map).mechsOnMap k) = true ∧
        (w.unit ((w.map map).mechsOnMap k)).mapindex = map ∧
        (w.unit ((w.map map).mechsOnMap k)).mapnumber = k
  room : ∀ {map}, w.isMap map = true → (w.map map).firstFree ≤ maxMechsPerMap

namespace Consistent

variable {w w' : World} {mech map : Dbref}

theorem mirror (consistent : Consistent w) : Mirror w.place w.holder := by
  intro mech seat
  rw [World.place_eq_some, World.holder_eq_some]
  constructor
  · rintro ⟨isMech, placed, map, number⟩
    obtain ⟨isMap, below, own⟩ := consistent.own isMech placed
    rw [map] at isMap below own
    rw [number] at below own
    exact ⟨isMap, below, own, Int.le_of_lt (w.mech_pos mech isMech)⟩
  · rintro ⟨isMap, below, rfl, occupied⟩
    obtain ⟨isMech, eq, number⟩ := consistent.slot isMap below occupied
    exact ⟨isMech, by rw [eq]; exact w.map_nonneg _ isMap, eq, number⟩

theorem of_mirror (mirror : Mirror w.place w.holder)
    (room : ∀ {map}, w.isMap map = true → (w.map map).firstFree ≤ maxMechsPerMap) :
    Consistent w where
  own {mech} isMech placed := by
    have seated : w.place mech = some ((w.unit mech).mapindex, (w.unit mech).mapnumber) :=
      World.place_eq_some.mpr ⟨isMech, placed, rfl, rfl⟩
    obtain ⟨isMap, below, eq, _⟩ := World.holder_eq_some.mp ((mirror _ _).mp seated)
    exact ⟨isMap, below, eq⟩
  only {mech} isMech placed {map k} isMap below held := by
    have there : w.holder (map, k) = some mech :=
      World.holder_eq_some.mpr ⟨isMap, below, held, Int.le_of_lt (w.mech_pos mech isMech)⟩
    obtain ⟨_, _, eq, number⟩ := World.place_eq_some.mp ((mirror _ _).mpr there)
    exact ⟨eq.symm, number.symm⟩
  slot {map k} isMap below occupied := by
    have held : w.holder (map, k) = some ((w.map map).mechsOnMap k) :=
      World.holder_eq_some.mpr ⟨isMap, below, rfl, occupied⟩
    obtain ⟨isMech, _, eq, number⟩ := World.place_eq_some.mp ((mirror _ _).mpr held)
    exact ⟨isMech, eq, number⟩
  room := room

theorem unplaced (consistent : Consistent w) (off : (w.unit mech).mapindex < 0)
    (seat : Seat) : w.holder seat ≠ some mech := by
  have unseated : w.place mech = none := by
    unfold World.place
    rw [if_neg]
    rintro ⟨_, placed⟩
    exact absurd off (Int.not_lt.mpr placed)
  exact consistent.mirror.not_held unseated seat

theorem congr (consistent : Consistent w) (eq : SamePlaces w w') : Consistent w' := by
  apply of_mirror
  · rw [eq.place, eq.holder]
    exact consistent.mirror
  · intro map isMap
    rw [eq.isMap] at isMap
    rw [eq.firstFree]
    exact consistent.room isMap

end Consistent

section Operations

variable {w : World} {mech map : Dbref}

theorem slotToFree_eq (consistent : Consistent w) (isMech : w.isMech mech = true)
    (isMap : w.isMap map = true)
    (here : (w.unit mech).mapindex = map ∨ (w.unit mech).mapindex < 0) :
    slotToFree (w.map map) mech (w.unit mech).mapnumber =
      if (w.unit mech).mapindex = map then some (w.unit mech).mapnumber else none := by
  have nonneg := w.map_nonneg map isMap
  rcases here with eq | off
  · obtain ⟨_, below, own⟩ := consistent.own isMech (eq ▸ nonneg)
    rw [eq] at below own
    unfold slotToFree
    rw [if_neg (by simp [own]; omega), if_pos eq]
  · have absent : ∀ loop, loop < (w.map map).firstFree →
        (w.map map).mechsOnMap loop ≠ mech := by
      intro loop below held
      have pos := w.mech_pos mech isMech
      exact consistent.unplaced off (map, loop)
        (World.holder_eq_some.mpr ⟨isMap, below, held, Int.le_of_lt pos⟩)
    unfold slotToFree
    have elsewhere : (w.unit mech).mapindex ≠ map := by lia
    rw [if_pos, if_neg elsewhere]
    · rw [find?_eq_none]
      intro loop inRange
      simpa using absent loop (mem_range.mp inRange)
    · by_cases below : (w.unit mech).mapnumber < (w.map map).firstFree
      · exact Or.inr (absent _ below)
      · exact Or.inl (by omega)

variable {w' : World}

theorem Consistent.vacate (consistent : Consistent w) (mech : Dbref)
    (unseated : (w'.unit mech).mapindex < 0)
    (others : ∀ o, o ≠ mech → w'.place o = w.place o)
    (freed : ∀ seat, w.holder seat = some mech → w'.holder seat = none)
    (kept : ∀ seat, w.holder seat ≠ some mech → w'.holder seat = w.holder seat)
    (room : ∀ {map}, w'.isMap map = true → (w'.map map).firstFree ≤ maxMechsPerMap) :
    Consistent w' := by
  refine Consistent.of_mirror (consistent.mirror.vacate ?_ others freed kept) room
  unfold World.place
  rw [if_neg]
  rintro ⟨_, placed⟩
  exact absurd unseated (Int.not_lt.mpr placed)

theorem modifyUnit_place_of_ne {f : Unit → Unit} {o : Dbref} (ne : o ≠ mech) :
    (w.modifyUnit mech f).place o = w.place o := by
  simp [World.place, w.modifyUnit_unit_of_ne _ ne]

@[simp] theorem modifyUnit_holder {f : Unit → Unit} :
    (w.modifyUnit mech f).holder = w.holder := rfl

@[simp] theorem modifyMap_place {f : GameMap → GameMap} :
    (w.modifyMap map f).place = w.place := rfl

theorem modifyMap_holder {f : GameMap → GameMap} (seat : Seat) :
    (w.modifyMap map f).holder seat =
      if seat.1 = map ∧ w.isMap map = true then (f (w.map map)).holder seat.2
      else w.holder seat := by
  by_cases eq : seat.1 = map
  · subst eq
    by_cases isMap : w.isMap seat.1 = true
    · simp [World.holder, World.modifyMap, isMap]
    · simp [World.holder, World.modifyMap, isMap]
  · simp [World.holder, World.modifyMap, w.setMap_map_of_ne _ eq, eq]

theorem freeSlot_holder (m : GameMap) {loop : Nat} (below : loop < m.firstFree) (k : Nat) :
    (m.freeSlot loop).holder k = if k = loop then none else m.holder k := by
  by_cases eq : k = loop
  · subst eq
    simp [GameMap.holder, GameMap.freeSlot]
  · have hin : k < (m.freeSlot loop).firstFree ↔ k < m.firstFree := by
      simp only [GameMap.freeSlot]
      split <;> omega
    simp only [GameMap.holder, hin, eq, if_false]
    simp [GameMap.freeSlot, eq]

theorem without_holder (m : GameMap) (mech : Dbref) (k : Nat) :
    (m.without mech).holder k = if m.holder k = some mech then none else m.holder k := by
  by_cases below : k < m.firstFree
  · by_cases eq : m.mechsOnMap k = mech
    · by_cases nonneg : 0 ≤ mech <;>
        simp [GameMap.holder, GameMap.without, below, eq, nonneg]
    · simp [GameMap.holder, GameMap.without, below, eq]
  · simp [GameMap.holder, GameMap.without, below]

theorem freeSlot_firstFree_le (m : GameMap) (loop : Nat) :
    (m.freeSlot loop).firstFree ≤ m.firstFree := by
  simp only [GameMap.freeSlot]
  split <;> omega

section

variable (consistent : Consistent w) (isMech : w.isMech mech = true) (isMap : w.isMap map = true)
include consistent isMech isMap

theorem leaveSlot_of_here (here : (w.unit mech).mapindex = map) :
    leaveSlot map mech w = (w.modifyUnit mech Unit.leave).modifyMap map fun m =>
      m.freeSlot (w.unit mech).mapnumber := by
  unfold leaveSlot
  rw [slotToFree_eq consistent isMech isMap (Or.inl here), if_pos here]

theorem leaveSlot_of_off (off : (w.unit mech).mapindex < 0) :
    leaveSlot map mech w = w.modifyUnit mech Unit.leave := by
  have nonneg := w.map_nonneg map isMap
  have elsewhere : (w.unit mech).mapindex ≠ map := by lia
  unfold leaveSlot
  rw [slotToFree_eq consistent isMech isMap (Or.inr off), if_neg elsewhere]

theorem leaveSlot_holder (here : (w.unit mech).mapindex = map) (seat : Seat) :
    (leaveSlot map mech w).holder seat =
      if seat = (map, (w.unit mech).mapnumber) then none else w.holder seat := by
  obtain ⟨_, below, _⟩ := consistent.own isMech (here ▸ w.map_nonneg map isMap)
  rw [here] at below
  rw [leaveSlot_of_here consistent isMech isMap here, modifyMap_holder, modifyUnit_holder]
  by_cases there : seat.1 = map
  · rw [if_pos ⟨there, isMap⟩, World.modifyUnit_map, freeSlot_holder _ below]
    simp [World.holder, Prod.ext_iff, there, isMap]
  · simp [there, Prod.ext_iff]

theorem leaveSlot_consistent (here : (w.unit mech).mapindex = map ∨ (w.unit mech).mapindex < 0) :
    Consistent (leaveSlot map mech w) := by
  have nonneg := w.map_nonneg map isMap
  rcases here with eq | off
  · obtain ⟨_, below, own⟩ := consistent.own isMech (eq ▸ nonneg)
    rw [eq] at below own
    have held : w.holder (map, (w.unit mech).mapnumber) = some mech :=
      World.holder_eq_some.mpr ⟨isMap, below, own, Int.le_of_lt (w.mech_pos mech isMech)⟩
    have emptied := leaveSlot_holder consistent isMech isMap eq
    rw [leaveSlot_of_here consistent isMech isMap eq] at emptied ⊢
    apply consistent.vacate mech
    · simp [Unit.leave]
    · intro o ne
      simpa using modifyUnit_place_of_ne ne
    · intro seat heldThere
      exact (emptied seat).trans (if_pos (consistent.mirror.seat_unique heldThere held))
    · intro seat notHeld
      refine (emptied seat).trans (if_neg ?_)
      intro mine
      exact notHeld (mine ▸ held)
    · intro o otherMap
      have limit := consistent.room otherMap
      by_cases there : o = map
      · subst there
        simpa using (freeSlot_firstFree_le _ _).trans limit
      · simpa [World.modifyMap_map_of_ne _ _ there] using limit
  · rw [leaveSlot_of_off consistent isMech isMap off]
    apply consistent.vacate mech
    · simp [Unit.leave]
    · intro o ne
      exact modifyUnit_place_of_ne ne
    · intro seat heldThere
      exact absurd heldThere (consistent.unplaced off seat)
    · intro seat _
      rfl
    · exact consistent.room

theorem removeMechFromMap_consistent
    (here : (w.unit mech).mapindex = map ∨ (w.unit mech).mapindex < 0) :
    Consistent (removeMechFromMap map mech w) := by
  have cleared := SamePlaces.clearMechFromLOS mech w
  have left : Consistent (leaveSlot map mech (clearMechFromLOS mech w)) := by
    apply leaveSlot_consistent (consistent.congr cleared)
    · rw [cleared.isMech]
      exact isMech
    · rw [cleared.isMap]
      exact isMap
    · rw [cleared.mapindex]
      exact here
  exact (left.congr (SamePlaces.releaseTow map mech _)).congr
    (SamePlaces.modifyUnit _ mech (fun _ => rfl) (fun _ => rfl) fun _ => rfl)

end

theorem removeMechFromMap_objects (map mech : Dbref) (w : World) :
    (removeMechFromMap map mech w).isMech = w.isMech ∧
      (removeMechFromMap map mech w).isMap = w.isMap := by
  have cleared := SamePlaces.clearMechFromLOS mech w
  have left : (leaveSlot map mech (clearMechFromLOS mech w)).isMech = w.isMech ∧
      (leaveSlot map mech (clearMechFromLOS mech w)).isMap = w.isMap := by
    unfold leaveSlot
    simp only
    split <;> exact ⟨cleared.isMech, cleared.isMap⟩
  have rest := (SamePlaces.releaseTow map mech (leaveSlot map mech
    (clearMechFromLOS mech w)))
  exact ⟨rest.isMech.trans left.1, rest.isMap.trans left.2⟩

theorem removeMechFromMap_mapindex (map mech : Dbref) (w : World) :
    ((removeMechFromMap map mech w).unit mech).mapindex = -1 := by
  have left : ((leaveSlot map mech (clearMechFromLOS mech w)).unit mech).mapindex = -1 := by
    unfold leaveSlot
    simp only
    split <;> simp [Unit.leave]
  have rest : SamePlaces (leaveSlot map mech (clearMechFromLOS mech w))
      (removeMechFromMap map mech w) :=
    (SamePlaces.releaseTow map mech _).trans
      (SamePlaces.modifyUnit _ mech (fun _ => rfl) (fun _ => rfl) fun _ => rfl)
  exact (rest.mapindex mech).trans left

theorem slotToTake_spec {m : GameMap} (room : m.firstFree < 255) :
    m.holder m.slotToTake.1 = none ∧ ∀ mech : Dbref, 0 ≤ mech → ∀ k,
      (m.slotToTake.2.fillSlot m.slotToTake.1 mech).holder k =
        if k = m.slotToTake.1 then some mech else m.holder k := by
  unfold GameMap.slotToTake
  cases hf : m.freeSlot? with
  | some free =>
    have here := find?_some hf
    have below := mem_range.mp (mem_of_find?_eq_some hf)
    have negative : m.mechsOnMap free < 0 := by simpa using here
    constructor
    · simp [GameMap.holder, Int.not_le.mpr negative]
    · intro mech nonneg k
      by_cases eq : k = free
      · subst eq
        simp [GameMap.holder, GameMap.fillSlot, below, nonneg]
      · simp [GameMap.holder, GameMap.fillSlot, eq]
  | none =>
    have count : (m.firstFree + 1) % 256 = m.firstFree + 1 := Nat.mod_eq_of_lt (by omega)
    constructor
    · simp [GameMap.holder]
    · intro mech nonneg k
      by_cases eq : k = m.firstFree
      · subst eq
        simp [GameMap.holder, GameMap.fillSlot, GameMap.extend, count, nonneg]
      · have hin : k < m.firstFree + 1 ↔ k < m.firstFree := by omega
        simp [GameMap.holder, GameMap.fillSlot, GameMap.extend, count, hin, eq]

theorem slotToTake_firstFree {m : GameMap} (room : m.firstFree < maxMechsPerMap) :
    m.slotToTake.2.firstFree ≤ maxMechsPerMap := by
  unfold GameMap.slotToTake
  cases m.freeSlot? with
  | some free => exact Nat.le_of_lt room
  | none => exact (Nat.mod_le _ _).trans room

theorem takeSlot_holder (isMech : w.isMech mech = true) (isMap : w.isMap map = true)
    (short : (w.map map).firstFree < 255) :
    (takeSlot map mech w).holder =
      update w.holder (map, (w.map map).slotToTake.1) (some mech) := by
  obtain ⟨_, filled⟩ := slotToTake_spec short
  funext seat
  by_cases there : seat.1 = map
  · have slots := filled mech (Int.le_of_lt (w.mech_pos mech isMech)) seat.2
    by_cases eq : seat = (map, (w.map map).slotToTake.1)
    · subst eq
      simpa [World.holder, takeSlot, isMap] using slots
    · have otherSlot : seat.2 ≠ (w.map map).slotToTake.1 :=
        fun equal => eq (Prod.ext there equal)
      simpa [World.holder, takeSlot, isMap, there, eq, otherSlot] using slots
  · have eq : seat ≠ (map, (w.map map).slotToTake.1) :=
      fun equal => there (congrArg Prod.fst equal)
    simp [World.holder, takeSlot, World.setMap_map_of_ne _ _ there, eq]

theorem takeSlot_consistent (consistent : Consistent w) (isMech : w.isMech mech = true)
    (isMap : w.isMap map = true) (off : (w.unit mech).mapindex < 0)
    (room : (w.map map).firstFree ≠ maxMechsPerMap) : Consistent (takeSlot map mech w) := by
  have limit := consistent.room isMap
  have below : (w.map map).firstFree < maxMechsPerMap := by omega
  have short : (w.map map).firstFree < 255 := below.trans (by decide)
  obtain ⟨free, _⟩ := slotToTake_spec short
  apply Consistent.of_mirror
  · have unseated : w.place mech = none := by
      unfold World.place
      rw [if_neg]
      rintro ⟨_, placed⟩
      exact absurd off (Int.not_lt.mpr placed)
    have empty : w.holder (map, (w.map map).slotToTake.1) = none := by
      simpa [World.holder, isMap] using free
    have place : (takeSlot map mech w).place =
        update w.place mech (some (map, (w.map map).slotToTake.1)) := by
      funext o
      by_cases eq : o = mech
      · subst eq
        simp [World.place, takeSlot, isMech, Unit.enter, w.map_nonneg map isMap]
      · simp [World.place, takeSlot, w.modifyUnit_unit_of_ne _ eq, eq]
    rw [place, takeSlot_holder isMech isMap short]
    exact consistent.mirror.assign unseated empty
  · intro o otherMap
    by_cases there : o = map
    · subst there
      simpa [takeSlot, GameMap.fillSlot] using slotToTake_firstFree below
    · simpa [takeSlot, World.setMap_map_of_ne _ _ there] using consistent.room otherMap

theorem addMechToMap_consistent (consistent : Consistent w) (isMech : w.isMech mech = true)
    (isMap : w.isMap map = true) (off : (w.unit mech).mapindex < 0)
    (room : (w.map map).firstFree ≠ maxMechsPerMap) :
    Consistent (addMechToMap map mech w) := by
  unfold addMechToMap
  split
  · exact consistent
  · exact ((takeSlot_consistent consistent isMech isMap off room).congr
      (SamePlaces.dropTow map mech _)).congr (SamePlaces.markForLOSUpdate mech _)

theorem lastUsed_spec (m : GameMap) :
    ∀ n, lastUsed m n ≤ n ∧ ∀ k, lastUsed m n ≤ k → k < n → m.mechsOnMap k ≤ 0
  | 0 => ⟨Nat.le_refl 0, fun _ _ below => absurd below (Nat.not_lt_zero _)⟩
  | n + 1 => by
      obtain ⟨bound, dropped⟩ := lastUsed_spec m n
      unfold lastUsed
      split
      · exact ⟨Nat.le_refl _, fun k atLeast below => absurd below (Nat.not_lt.mpr atLeast)⟩
      · rename_i empty
        refine ⟨Nat.le_succ_of_le bound, fun k atLeast below => ?_⟩
        by_cases last : k = n
        · subst last
          exact Int.not_lt.mp empty
        · exact dropped k atLeast (by omega)

section

variable (consistent : Consistent w)
include consistent

theorem eliminateEmpties_holder (map : Dbref) : (eliminateEmpties map w).holder = w.holder := by
  unfold eliminateEmpties
  split
  · rfl
  · rename_i hf
    obtain ⟨isMap, rfl⟩ := World.getMap_eq_some.mp hf
    simp only
    split
    · rfl
    · obtain ⟨bound, dropped⟩ := lastUsed_spec (w.map map) (w.map map).firstFree
      have nobody : ∀ k, lastUsed (w.map map) (w.map map).firstFree ≤ k →
          (w.map map).holder k = none := by
        intro k atLeast
        unfold GameMap.holder
        rw [if_neg]
        rintro ⟨below, occupied⟩
        have isMech := (consistent.slot isMap below occupied).1
        exact absurd (dropped k atLeast below) (Int.not_le.mpr (w.mech_pos _ isMech))
      funext seat
      rw [modifyMap_holder]
      split
      · rename_i there
        rw [World.holder, if_pos (there.1 ▸ there.2), there.1]
        by_cases kept : seat.2 < lastUsed (w.map map) (w.map map).firstFree
        · have hin : seat.2 < (w.map map).firstFree := by omega
          simp [GameMap.holder, GameMap.truncate, kept, hin]
        · rw [nobody _ (Nat.not_lt.mp kept)]
          simp [GameMap.holder, GameMap.truncate, kept]
      · rfl

theorem eliminateEmpties_consistent (map : Dbref) : Consistent (eliminateEmpties map w) := by
  have place : (eliminateEmpties map w).place = w.place := by
    unfold eliminateEmpties
    split
    · rfl
    · simp only
      split <;> rfl
  apply Consistent.of_mirror
  · rw [place, eliminateEmpties_holder consistent map]
    exact consistent.mirror
  · unfold eliminateEmpties
    split
    · exact consistent.room
    · rename_i here _
      simp only
      split
      · exact consistent.room
      · intro o otherMap
        have limit := consistent.room otherMap
        by_cases there : o = here
        · subst there
          simpa [GameMap.truncate] using (lastUsed_spec _ _).1.trans limit
        · simpa [World.modifyMap_map_of_ne _ _ there] using limit

theorem mechRemoveFromAllMaps_holder (off : (w.unit mech).mapindex < 0) :
    (mechRemoveFromAllMaps mech w).holder = w.holder := by
  funext seat
  have notHeld := consistent.unplaced off seat
  have isMap : (mechRemoveFromAllMaps mech w).isMap = w.isMap := rfl
  simp only [World.holder, isMap] at notHeld ⊢
  split
  · rename_i there
    simp only [there, if_true] at notHeld
    simp [mechRemoveFromAllMaps, there, without_holder, notHeld]
  · rfl

theorem mechRemoveFromAllMaps_consistent (off : (w.unit mech).mapindex < 0) :
    Consistent (mechRemoveFromAllMaps mech w) := by
  apply Consistent.of_mirror
  · rw [mechRemoveFromAllMaps_holder consistent off]
    exact consistent.mirror
  · intro o otherMap
    have sameMap : w.isMap o = true := otherMap
    simpa [mechRemoveFromAllMaps, sameMap, GameMap.without] using
      consistent.room sameMap

end

variable {ids : List MechId}

theorem enterMap_cases (entered : enterMap mech map ids w = some w') :
    w' = w ∨ (w.map map).firstFree ≠ maxMechsPerMap ∧
      ∃ targ, w' = (addMechToMap map mech w).modifyUnit mech fun u => u.setId targ := by
  obtain ⟨targ, _, later⟩ := bind_eq_some_iff.mp entered
  split at later
  · exact Or.inl (some.inj later).symm
  · rename_i room
    exact Or.inr ⟨room, targ, (some.inj later).symm⟩

theorem leaveMap_spec (mech : Dbref) (w : World) :
    ∃ w', leaveMap mech w = some w' ∧
      NetworkOnly ((removeMechFromMap (w.unit mech).mapindex mech w).modifyUnit mech
        Unit.dropTag) w' := by
  obtain ⟨fst, clearing, only⟩ := clearNetwork_total false mech true
    ((removeMechFromMap (w.unit mech).mapindex mech w).modifyUnit mech Unit.dropTag)
  obtain ⟨snd, clearingC3, onlyC3⟩ := clearNetwork_total true mech true fst
  refine ⟨snd, ?_, only.trans onlyC3⟩
  simp [leaveMap, clearC3iNetwork, clearC3Network, clearing, clearingC3]

theorem leaveMap_places {left : World} (leaving : leaveMap mech w = some left) :
    SamePlaces (removeMechFromMap (w.unit mech).mapindex mech w) left := by
  obtain ⟨w', leaves, only⟩ := leaveMap_spec mech w
  obtain rfl : w' = left := some.inj (leaves.symm.trans leaving)
  have tag : SamePlaces (removeMechFromMap (w.unit mech).mapindex mech w)
      ((removeMechFromMap (w.unit mech).mapindex mech w).modifyUnit mech Unit.dropTag) :=
    SamePlaces.modifyUnit _ mech (fun _ => rfl) (fun _ => rfl) fun _ => rfl
  exact tag.trans (SamePlaces.of_networkOnly only)

theorem leaveMap_mapindex {left : World} (leaving : leaveMap mech w = some left) :
    (left.unit mech).mapindex = -1 := by
  rw [(leaveMap_places leaving).mapindex]
  exact removeMechFromMap_mapindex _ _ _

/-- `mech_Rsetmapindex` takes the unit off its map. -/
def World.TakesOff (w : World) (mech newindex : Dbref) : Prop :=
  (newindex = -1 ∨ (w.validMap newindex).isSome = true) ∧
    (w.validMap (w.unit mech).mapindex).isSome = true

instance (w : World) (mech newindex : Dbref) : Decidable (w.TakesOff mech newindex) :=
  inferInstanceAs (Decidable (_ ∧ _))

theorem isMap_of_validMap {ref : Dbref} (valid : (w.validMap ref).isSome = true) :
    w.isMap ref = true := by
  simp only [World.validMap] at valid
  split at valid
  · rename_i both
    exact (Bool.and_eq_true_iff.mp both).1
  · simp at valid

theorem mechRsetmapindex_cases {newindex : Dbref}
    (moved : mechRsetmapindex mech newindex ids w = some w') :
    w' = w ∨
      (w.TakesOff mech newindex ∧ ∃ left, leaveMap mech w = some left ∧
        (w' = left ∨ w.isMap newindex = true ∧ enterMap mech newindex ids left = some w')) ∨
      ((w.unit mech).mapindex = -1 ∧ w.isMap newindex = true ∧
        enterMap mech newindex ids w = some w') := by
  unfold mechRsetmapindex at moved
  split at moved
  · exact Or.inl (some.inj moved).symm
  · split at moved
    · exact Or.inl (some.inj moved).symm
    · rename_i valid
      have newMap : newindex ≠ -1 → (w.validMap newindex).isSome = true := by
        intro real
        cases hf : w.validMap newindex with
        | none => exact absurd ⟨real, by simp [hf]⟩ valid
        | some _ => rfl
      split at moved
      · split at moved
        · exact Or.inl (some.inj moved).symm
        · rename_i oldMap
          obtain ⟨left, leaving, later⟩ := bind_eq_some_iff.mp moved
          have oldValid : (w.validMap (w.unit mech).mapindex).isSome = true :=
            isSome_iff_ne_none.mpr (by simpa using oldMap)
          have takesOff : w.TakesOff mech newindex := by
            refine ⟨?_, oldValid⟩
            by_cases removed : newindex = -1
            · exact Or.inl removed
            · exact Or.inr (newMap removed)
          refine Or.inr (Or.inl ⟨takesOff, left, leaving, ?_⟩)
          split at later
          · exact Or.inl (some.inj later).symm
          · rename_i real
            exact Or.inr ⟨isMap_of_validMap (newMap real), later⟩
      · rename_i off
        split at moved
        · exact Or.inl (some.inj moved).symm
        · rename_i real
          exact Or.inr (Or.inr ⟨Decidable.not_not.mp off, isMap_of_validMap (newMap real),
            moved⟩)

section

variable (consistent : Consistent w) (isMech : w.isMech mech = true)
include consistent isMech

theorem enterMap_consistent (isMap : w.isMap map = true)
    (off : (w.unit mech).mapindex < 0) (entered : enterMap mech map ids w = some w') :
    Consistent w' := by
  rcases enterMap_cases entered with rfl | ⟨room, targ, rfl⟩
  · exact consistent
  · exact (addMechToMap_consistent consistent isMech isMap off room).congr
      (SamePlaces.modifyUnit _ mech (fun _ => rfl) (fun _ => rfl) fun _ => rfl)

theorem leaveMap_consistent {left : World} (isMap : w.isMap (w.unit mech).mapindex = true)
    (leaving : leaveMap mech w = some left) :
    Consistent left ∧ left.isMech = w.isMech ∧ left.isMap = w.isMap ∧
      (left.unit mech).mapindex = -1 := by
  have eq := leaveMap_places leaving
  have objects := removeMechFromMap_objects (w.unit mech).mapindex mech w
  refine ⟨?_, eq.isMech.trans objects.1, eq.isMap.trans objects.2, ?_⟩
  · exact (removeMechFromMap_consistent consistent isMech isMap (Or.inl rfl)).congr eq
  · exact leaveMap_mapindex leaving

theorem mechRsetmapindex_consistent {newindex : Dbref}
    (moved : mechRsetmapindex mech newindex ids w = some w') : Consistent w' := by
  rcases mechRsetmapindex_cases moved with
    rfl | ⟨⟨_, oldMap⟩, left, leaving, rfl | ⟨newMap, entered⟩⟩ | ⟨off, newMap, entered⟩
  · exact consistent
  · exact (leaveMap_consistent consistent isMech (isMap_of_validMap oldMap) leaving).1
  · obtain ⟨kept, mechs, maps, off⟩ :=
      leaveMap_consistent consistent isMech (isMap_of_validMap oldMap) leaving
    refine enterMap_consistent kept (mechs ▸ isMech) (maps ▸ newMap) ?_ entered
    rw [off]
    decide
  · refine enterMap_consistent consistent isMech newMap ?_ entered
    rw [off]
    decide

end

end Operations

theorem start_consistent (mechs maps : List Dbref) (unit : Dbref → Unit) :
    Consistent (World.start mechs maps unit) where
  own _ placed := absurd placed (by simp [World.start])
  only _ placed := absurd placed (by simp [World.start])
  slot _ below := absurd below (Nat.not_lt_zero _)
  room _ := Nat.zero_le _

inductive PlacementOp where
  | rsetmapindex (mech newindex : Dbref) (ids : List MechId)
  | removeFromAllMaps (mech : Dbref)
  | removeFromMap (map mech : Dbref)
  | addToMap (map mech : Dbref)
  | eliminateEmpties (map : Dbref)
deriving DecidableEq

def World.move (w : World) : PlacementOp → Option World
  | .rsetmapindex mech newindex ids => mechRsetmapindex mech newindex ids w
  | .removeFromAllMaps mech => some (mechRemoveFromAllMaps mech w)
  | .removeFromMap map mech => some (removeMechFromMap map mech w)
  | .addToMap map mech => some (addMechToMap map mech w)
  | .eliminateEmpties map => some (UnitWorld.eliminateEmpties map w)

def PlacementOp.WellTyped (w : World) : PlacementOp → Prop
  | .rsetmapindex mech _ _ => w.isMech mech = true
  | .removeFromAllMaps mech => w.isMech mech = true
  | .removeFromMap map mech => w.isMap map = true ∧ w.isMech mech = true
  | .addToMap map mech => w.isMap map = true ∧ w.isMech mech = true
  | .eliminateEmpties map => w.isMap map = true

/-- How the source calls the functions that update one side of the relation, or
trust the other side: `mech_remove_from_all_maps` for a unit whose `mapindex` was
reset, `remove_mech_from_map` with the unit's own map or for a unit on no map,
`add_mech_to_map` for a unit on no map and a map below its limit. -/
def PlacementOp.Disciplined (w : World) : PlacementOp → Prop
  | .rsetmapindex _ _ _ => True
  | .removeFromAllMaps mech => (w.unit mech).mapindex < 0
  | .removeFromMap map mech =>
    (w.unit mech).mapindex = map ∨ (w.unit mech).mapindex < 0
  | .addToMap map mech =>
    (w.unit mech).mapindex < 0 ∧ (w.map map).firstFree ≠ maxMechsPerMap
  | .eliminateEmpties _ => True

instance (w : World) : (op : PlacementOp) → Decidable (op.WellTyped w)
  | .rsetmapindex mech _ _ => inferInstanceAs (Decidable (w.isMech mech = true))
  | .removeFromAllMaps mech => inferInstanceAs (Decidable (w.isMech mech = true))
  | .removeFromMap map mech =>
    inferInstanceAs (Decidable (w.isMap map = true ∧ w.isMech mech = true))
  | .addToMap map mech =>
    inferInstanceAs (Decidable (w.isMap map = true ∧ w.isMech mech = true))
  | .eliminateEmpties map => inferInstanceAs (Decidable (w.isMap map = true))

instance (w : World) : (op : PlacementOp) → Decidable (op.Disciplined w)
  | .rsetmapindex _ _ _ => isTrue trivial
  | .removeFromAllMaps mech => inferInstanceAs (Decidable ((w.unit mech).mapindex < 0))
  | .removeFromMap map mech =>
    inferInstanceAs (Decidable
      ((w.unit mech).mapindex = map ∨ (w.unit mech).mapindex < 0))
  | .addToMap map mech =>
    inferInstanceAs (Decidable
      ((w.unit mech).mapindex < 0 ∧ (w.map map).firstFree ≠ maxMechsPerMap))
  | .eliminateEmpties _ => isTrue trivial

theorem move_consistent {w w' : World} {op : PlacementOp} (consistent : Consistent w)
    (wellTyped : op.WellTyped w) (disciplined : op.Disciplined w)
    (moved : w.move op = some w') : Consistent w' := by
  cases op with
  | rsetmapindex mech newindex ids =>
    exact mechRsetmapindex_consistent consistent wellTyped moved
  | removeFromAllMaps mech =>
    obtain rfl := some.inj moved
    exact mechRemoveFromAllMaps_consistent consistent disciplined
  | removeFromMap map mech =>
    obtain rfl := some.inj moved
    exact removeMechFromMap_consistent consistent wellTyped.2 wellTyped.1 disciplined
  | addToMap map mech =>
    obtain rfl := some.inj moved
    exact addMechToMap_consistent consistent wellTyped.2 wellTyped.1 disciplined.1
      disciplined.2
  | eliminateEmpties map =>
    obtain rfl := some.inj moved
    exact eliminateEmpties_consistent consistent map

/-- Every run of disciplined calls from a consistent world ends in one. -/
theorem placement_consistent {w w' : World} {ops : List PlacementOp}
    (consistent : Consistent w)
    (disciplined : Machine.Guarded World.move
      (fun w op => op.WellTyped w ∧ op.Disciplined w) w ops)
    (ran : Machine.run World.move w ops = some w') : Consistent w' :=
  Machine.run_guarded (fun _ _ _ holds allowed moved =>
    move_consistent holds allowed.1 allowed.2 moved) consistent disciplined ran

/-- A unit that arrives, changes maps and is taken off again, while another stays. -/
theorem placement_consistent_patrol :
    ∃ w', Machine.run World.move (World.start [1, 2] [10, 11] default)
      [.rsetmapindex 1 10 [(65, 65)], .addToMap 10 2, .rsetmapindex 1 11 [(65, 65)],
        .removeFromMap 11 1, .removeFromAllMaps 1, .eliminateEmpties 10] = some w' ∧
      Consistent w' := by
  have disciplined : Machine.Guarded World.move
      (fun w op => op.WellTyped w ∧ op.Disciplined w)
      (World.start [1, 2] [10, 11] default)
      [.rsetmapindex 1 10 [(65, 65)], .addToMap 10 2, .rsetmapindex 1 11 [(65, 65)],
        .removeFromMap 11 1, .removeFromAllMaps 1, .eliminateEmpties 10] := by decide +kernel
  exact ⟨_, rfl, placement_consistent (start_consistent _ _ _) disciplined rfl⟩

/-- Each part of the discipline is needed: without it a run leaves a unit that says
it is in an empty slot, a slot that names a unit which is gone, or a unit in two
slots. -/
theorem placement_undisciplined :
    (∃ w', Machine.run World.move (World.start [1] [10, 11] default)
      [.rsetmapindex 1 10 [(65, 65)], .removeFromAllMaps 1] = some w' ∧ ¬ Consistent w') ∧
    (∃ w', Machine.run World.move (World.start [1] [10, 11] default)
      [.rsetmapindex 1 10 [(65, 65)], .removeFromMap 11 1] = some w' ∧ ¬ Consistent w') ∧
    (∃ w', Machine.run World.move (World.start [1] [10, 11] default)
      [.rsetmapindex 1 10 [(65, 65)], .addToMap 11 1] = some w' ∧ ¬ Consistent w') := by
  refine ⟨⟨_, rfl, fun consistent => ?_⟩, ⟨_, rfl, fun consistent => ?_⟩,
    ⟨_, rfl, fun consistent => ?_⟩⟩
  · have own := @Consistent.own _ consistent 1 (by decide) (by decide)
    exact absurd own.2.2 (by decide)
  · have slot := @Consistent.slot _ consistent 10 0 (by decide) (by decide) (by decide)
    exact absurd slot.2.1 (by decide)
  · have slot := @Consistent.slot _ consistent 10 0 (by decide) (by decide) (by decide)
    exact absurd slot.2.1 (by decide)

end BattletechMux.UnitWorld
