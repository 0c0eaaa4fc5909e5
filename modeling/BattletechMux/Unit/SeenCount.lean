/-
Module: BattletechMux.Unit.SeenCount
Purpose: The counters of seen enemies. A unit's `MechNumSeen` is the number of units of other teams
  on its map that its row of the line-of-sight table marks as seen; it stays so as long as no bit
  that is counted is dropped without counting.
-/
import BattletechMux.Unit.StaleSight
import Mathlib.Data.Finset.Card

namespace BattletechMux.UnitWorld

open List hiding mem_map
open Option hiding map mem_map

open Function (update)

/-- The slots of a unit's map with units of other teams that the unit has seen.  In
a consistent world every unit of the map has one slot. -/
def World.enemiesSeen (w : World) (mech : Dbref) : Finset Nat :=
  (Finset.range (w.map (w.unit mech).mapindex).firstFree).filter fun j =>
    let m := w.map (w.unit mech).mapindex
    w.isMap (w.unit mech).mapindex && w.isMech (m.mechsOnMap j) &&
      (w.unit mech).team != (w.unit (m.mechsOnMap j)).team &&
      seen (m.losInfo (w.unit mech).mapnumber j)

theorem World.mem_enemiesSeen {w : World} {mech : Dbref} {j : Nat} :
    j ∈ w.enemiesSeen mech ↔
      j < (w.map (w.unit mech).mapindex).firstFree ∧
        w.isMap (w.unit mech).mapindex = true ∧
        w.isMech ((w.map (w.unit mech).mapindex).mechsOnMap j) = true ∧
        (w.unit mech).team ≠
          (w.unit ((w.map (w.unit mech).mapindex).mechsOnMap j)).team ∧
        seen ((w.map (w.unit mech).mapindex).losInfo (w.unit mech).mapnumber j) = true := by
  simp only [World.enemiesSeen, Finset.mem_filter, Finset.mem_range, Bool.and_eq_true,
    bne_iff_ne, and_assoc]

def CountExact (w : World) : Prop :=
  ∀ mech, w.isMech mech = true → (w.unit mech).numSeen = (w.enemiesSeen mech).card

section Bits

theorem seen_eq (flag : LosFlag) : seen flag = flag.getLsbD 0 := by
  unfold seen flagSeen
  rw [BitVec.and_one_eq_setWidth_ofBool_getLsbD]
  cases flag.getLsbD 0 <;> decide

theorem seen_withSensors (f : LosFlag) (sensors : BitVec 2) :
    seen (withSensors f sensors) = seen f := by
  simp only [seen_eq, withSensors]
  split <;> split <;> simp [flagSeesPrimary, flagSeesSecondary]

theorem seen_noticed (o : Sight) (f : LosFlag) : seen (noticed o f) = seen f := by
  unfold noticed
  split
  · exact seen_withSensors f _
  · rfl

theorem seen_calculateLOSFlag (o : Sight) (ff : LosFlag) :
    seen (calculateLOSFlag o ff) = seen ff := by
  simp [seen_eq, calculateLOSFlag, flagSeen, flagTerrain, terrainMask]

theorem seen_block (old : LosFlag) :
    seen (flagBlock ||| (old &&& (flagSeen ||| flagTerrain))) = seen old := by
  simp [seen_eq, flagBlock, flagSeen, flagTerrain]

end Bits

/-- `mech`, at row `i`, has looked at `target`, at column `j`: the counter of `mech`
follows the SEEN bit of that entry, and everything else stays. -/
structure Looked (map : Dbref) (i j : Nat) (mech target : Dbref) (w w' : World) : Prop where
  same : SamePlaces w w'
  one : OneEntry map i j w w'
  others : ∀ other, other ≠ mech → (w'.unit other).numSeen = (w.unit other).numSeen
  counter : (w'.unit mech).numSeen =
    if (w.unit mech).team = (w.unit target).team ∨
        seen ((w.map map).losInfo i j) = seen ((w'.map map).losInfo i j) then
      (w.unit mech).numSeen
    else if seen ((w'.map map).losInfo i j) then (w.unit mech).numSeen + 1
    else (w.unit mech).numSeen - 1

namespace Looked

variable {map mech target : Dbref} {i j : Nat} {w w' : World}

theorem of_step (w : World) (f : Unit → Unit) (flag : LosFlag)
    (mapindex : ∀ u, (f u).mapindex = u.mapindex)
    (mapnumber : ∀ u, (f u).mapnumber = u.mapnumber) (team : ∀ u, (f u).team = u.team)
    (counter : (f (w.unit mech)).numSeen =
      if (w.unit mech).team = (w.unit target).team ∨
          seen ((w.map map).losInfo i j) = seen flag then (w.unit mech).numSeen
      else if seen flag then (w.unit mech).numSeen + 1
      else (w.unit mech).numSeen - 1) :
    Looked map i j mech target w
      ((w.modifyUnit mech f).modifyMap map fun m => m.setLos i j flag) where
  same := (SamePlaces.modifyUnit w mech mapindex mapnumber team).trans
    (SamePlaces.setLos _ map i j flag)
  one := (OneEntry.of_map_eq rfl).trans (OneEntry.write _ flag)
  others other ne := by
    rw [World.modifyMap_unit, World.modifyUnit_unit_of_ne _ _ ne]
  counter := by
    rw [World.modifyMap_unit, World.modifyUnit_unit_self, counter, World.modifyMap_map_self]
    simp [GameMap.setLos_losInfo]

theorem write (w : World) (flag : LosFlag)
    (kept : (w.unit mech).team = (w.unit target).team ∨
      seen ((w.map map).losInfo i j) = seen flag) :
    Looked map i j mech target w (w.modifyMap map fun m => m.setLos i j flag) where
  same := SamePlaces.setLos w map i j flag
  one := OneEntry.write w flag
  others _ _ := rfl
  counter := by
    rw [if_pos]
    · rfl
    · simpa [GameMap.setLos_losInfo] using kept

theorem of_unit (w : World) (f : Unit → Unit) (mapindex : ∀ u, (f u).mapindex = u.mapindex)
    (mapnumber : ∀ u, (f u).mapnumber = u.mapnumber) (team : ∀ u, (f u).team = u.team)
    (numSeen : (f (w.unit mech)).numSeen = (w.unit mech).numSeen) :
    Looked map i j mech target w (w.modifyUnit mech f) where
  same := SamePlaces.modifyUnit w mech mapindex mapnumber team
  one := OneEntry.of_map_eq rfl
  others other ne := by rw [World.modifyUnit_unit_of_ne _ _ ne]
  counter := by simp [numSeen]

theorem refl (w : World) : Looked map i j mech target w w where
  same := SamePlaces.refl w
  one := OneEntry.of_map_eq rfl
  others _ _ := rfl
  counter := by simp

theorem after {middle : World} (fst : Looked map i j mech target w middle)
    (quiet : (middle.unit mech).numSeen = (w.unit mech).numSeen)
    (kept : (w.unit mech).team = (w.unit target).team ∨
      seen ((w.map map).losInfo i j) = seen ((middle.map map).losInfo i j))
    (second : Looked map i j mech target middle w') :
    Looked map i j mech target w w' where
  same := fst.same.trans second.same
  one := fst.one.trans second.one
  others other ne :=
    (second.others other ne).trans (fst.others other ne)
  counter := by
    have counter := second.counter
    rw [fst.same.team, fst.same.team, quiet] at counter
    rw [counter]
    by_cases friend : (w.unit mech).team = (w.unit target).team
    · simp [friend]
    · rw [kept.resolve_left friend]

theorem sensorDoWeSeeNow (o : Sight) (seeanew : Nat) (w : World) :
    Looked map i j mech target w
      (sensorDoWeSeeNow map i j mech target o seeanew w) := by
  have counts : ∀ flag, seen flag = seen ((w.map map).losInfo i j) →
      Looked map i j mech target w ((w.modifyUnit mech Unit.countCanSee).modifyMap map
        fun m => m.setLos i j flag) := by
    intro flag kept
    apply of_step w Unit.countCanSee flag (fun _ => rfl) (fun _ => rfl) fun _ => rfl
    simp [kept, Unit.countCanSee]
  have loses : seen ((w.map map).losInfo i j) = true → ∀ flag, seen flag = false →
      Looked map i j mech target w
        ((w.modifyUnit mech fun u => u.loseEnemy
          ((w.unit mech).team != (w.unit target).team) target).modifyMap map
            fun m => m.setLos i j flag) := by
    intro wasSeen flag lost
    apply of_step
    · exact fun u => Unit.loseEnemy_mapindex u _ _
    · exact fun u => Unit.loseEnemy_mapnumber u _ _
    · exact fun u => Unit.loseEnemy_team u _ _
    · rw [Unit.loseEnemy_numSeen]
      simp [wasSeen, lost]
  have gains : seen ((w.map map).losInfo i j) = false → ∀ flag, seen flag = true →
      Looked map i j mech target w
        ((w.modifyUnit mech fun u => u.gainEnemy
          ((w.unit mech).team != (w.unit target).team)).modifyMap map
            fun m => m.setLos i j flag) := by
    intro unseen flag noticed
    apply of_step
    · exact fun u => Unit.gainEnemy_mapindex u _
    · exact fun u => Unit.gainEnemy_mapnumber u _
    · exact fun u => Unit.gainEnemy_team u _
    · rw [Unit.gainEnemy_numSeen]
      simp [unseen, noticed]
  unfold UnitWorld.sensorDoWeSeeNow
  simp only
  split
  · exact refl w
  · split
    · rename_i wasSeen
      split
      · exact write w _ (Or.inr (seen_withSensors _ _).symm)
      · exact loses wasSeen _ (by simp [seen_eq, flagSeen])
    · rename_i unseen
      have unseen' : seen ((w.map map).losInfo i j) = false := by simpa using unseen
      split
      · exact refl w
      · split
        · exact of_unit w Unit.countCanSee (fun _ => rfl) (fun _ => rfl) (fun _ => rfl) rfl
        · split
          · exact gains unseen' _ (by simp [seen_eq, flagSeen])
          · exact counts _ (seen_noticed _ _)

end Looked

section Counting

variable {map mech target : Dbref} {i j : Nat} {w w' : World}

theorem CountExact.congr (exact : CountExact w) (isMech : w'.isMech = w.isMech)
    (numSeen : ∀ mech, w.isMech mech = true → (w'.unit mech).numSeen = (w.unit mech).numSeen)
    (enemies : ∀ mech, w.isMech mech = true → w'.enemiesSeen mech = w.enemiesSeen mech) :
    CountExact w' := by
  intro mech here
  rw [isMech] at here
  rw [numSeen mech here, enemies mech here]
  exact exact mech here

theorem OneEntry.losInfo_of_ne (one : OneEntry map i j w w') {other : Dbref} {a b : Nat}
    (elsewhere : ¬ (other = map ∧ a = i ∧ b = j)) :
    (w'.map other).losInfo a b = (w.map other).losInfo a b := by
  obtain ⟨flag, wrote⟩ := one
  rw [wrote]
  by_cases there : other = map
  · subst there
    rw [World.modifyMap_map_self, GameMap.setLos_losInfo, if_neg]
    exact fun same => elsewhere ⟨rfl, same⟩
  · rw [World.modifyMap_map_of_ne _ _ there]

theorem SamePlaces.mem_enemiesSeen (same : SamePlaces w w') {other : Dbref} {k : Nat}
    (bit : seen ((w'.map (w.unit other).mapindex).losInfo (w.unit other).mapnumber k) =
      seen ((w.map (w.unit other).mapindex).losInfo (w.unit other).mapnumber k)) :
    k ∈ w'.enemiesSeen other ↔ k ∈ w.enemiesSeen other := by
  simp only [World.mem_enemiesSeen, same.firstFree, same.isMap, same.isMech,
    same.mechsOnMap, same.mapindex, same.mapnumber, same.team, bit]

theorem CountExact.look (exact : CountExact w) (consistent : Consistent w)
    (isMap : w.isMap map = true) (rowInside : i < (w.map map).firstFree)
    (row : (w.map map).mechsOnMap i = mech) (isMech : w.isMech mech = true)
    (hin : j < (w.map map).firstFree) (column : (w.map map).mechsOnMap j = target)
    (isTarget : w.isMech target = true) (looked : Looked map i j mech target w w') :
    CountExact w' := by
  have occupied : 0 ≤ (w.map map).mechsOnMap i := row ▸ Int.le_of_lt (w.mech_pos _ isMech)
  obtain ⟨_, here, number⟩ := consistent.slot isMap rowInside occupied
  rw [row] at here number
  intro other isOther
  rw [looked.same.isMech] at isOther
  by_cases self : other = mech
  · subst self
    have elsewhere : ∀ k, k ≠ j → (k ∈ w'.enemiesSeen other ↔ k ∈ w.enemiesSeen other) := by
      intro k ne
      apply looked.same.mem_enemiesSeen
      rw [looked.one.losInfo_of_ne (fun same => ne same.2.2)]
    have pre : j ∈ w.enemiesSeen other ↔
        (w.unit other).team ≠ (w.unit target).team ∧
          seen ((w.map map).losInfo i j) = true := by
      simp [World.mem_enemiesSeen, here, number, hin, isMap, column, isTarget]
    have post : j ∈ w'.enemiesSeen other ↔
        (w.unit other).team ≠ (w.unit target).team ∧
          seen ((w'.map map).losInfo i j) = true := by
      simp [World.mem_enemiesSeen, looked.same.mapindex, looked.same.mapnumber,
        looked.same.firstFree, looked.same.isMap, looked.same.isMech,
        looked.same.mechsOnMap, looked.same.team, here, number, hin, isMap, column,
        isTarget]
    rw [looked.counter, exact other isOther]
    split
    · rename_i unchanged
      have sets : w'.enemiesSeen other = w.enemiesSeen other := by
        ext k
        by_cases changed : k = j
        · subst changed
          rw [pre, post]
          rcases unchanged with friend | bit
          · simp [friend]
          · rw [bit]
        · exact elsewhere k changed
      rw [sets]
    · rename_i changed
      obtain ⟨foe, bit⟩ := not_or.mp changed
      split
      · rename_i nowSeen
        have added : w'.enemiesSeen other = insert j (w.enemiesSeen other) := by
          ext k
          by_cases same : k = j
          · subst same
            simp [post, foe, nowSeen]
          · simp [elsewhere k same, same]
        rw [added, Finset.card_insert_of_notMem]
        rw [pre]
        rintro ⟨_, wasSeen⟩
        exact bit (wasSeen.trans nowSeen.symm)
      · rename_i lost
        have wasSeen : seen ((w.map map).losInfo i j) = true := by
          cases old : seen ((w.map map).losInfo i j) with
          | true => rfl
          | false => exact absurd (old.trans (Bool.eq_false_iff.mpr lost).symm) bit
        have removed : w'.enemiesSeen other = (w.enemiesSeen other).erase j := by
          ext k
          by_cases same : k = j
          · subst same
            simp [post, lost]
          · simp [elsewhere k same, same]
        rw [removed, Finset.card_erase_of_mem]
        exact pre.mpr ⟨foe, wasSeen⟩
  · have sets : w'.enemiesSeen other = w.enemiesSeen other := by
      ext k
      apply looked.same.mem_enemiesSeen
      by_cases e : (w.unit other).mapindex = map ∧ (w.unit other).mapnumber = i ∧ k = j
      · -- the unit in slot `i` of the map is `mech`
        obtain ⟨there, slot, _⟩ := e
        have placed : 0 ≤ (w.unit other).mapindex := there ▸ w.map_nonneg _ isMap
        obtain ⟨_, _, own⟩ := consistent.own isOther placed
        rw [there, slot, row] at own
        exact absurd own.symm self
      · rw [looked.one.losInfo_of_ne e]
    rw [looked.others other self, sets]
    exact exact other isOther

theorem World.mem_enemiesSeen_holder {mech : Dbref} {k : Nat} :
    k ∈ w.enemiesSeen mech ↔
      ∃ target, w.holder ((w.unit mech).mapindex, k) = some target ∧
        w.isMech target = true ∧ (w.unit mech).team ≠ (w.unit target).team ∧
        seen ((w.map (w.unit mech).mapindex).losInfo (w.unit mech).mapnumber k) = true := by
  simp only [World.mem_enemiesSeen, World.holder_eq_some]
  constructor
  · rintro ⟨below, isMap, isMech, foe, bit⟩
    exact ⟨_, ⟨isMap, below, rfl, Int.le_of_lt (w.mech_pos _ isMech)⟩, isMech, foe, bit⟩
  · rintro ⟨_, ⟨isMap, below, rfl, _⟩, isMech, foe, bit⟩
    exact ⟨below, isMap, isMech, foe, bit⟩

theorem World.enemiesSeen_of_off {mech : Dbref} (off : (w.unit mech).mapindex < 0) :
    w.enemiesSeen mech = ∅ := by
  apply Finset.eq_empty_of_forall_notMem
  intro k mem
  have isMap := (World.mem_enemiesSeen.mp mem).2.1
  exact absurd off (Int.not_lt.mpr (w.map_nonneg _ isMap))

theorem modifyUnit_numSeen (f : Unit → Unit) (kept : ∀ u, (f u).numSeen = u.numSeen)
    (mech other : Dbref) : ((w.modifyUnit mech f).unit other).numSeen =
      (w.unit other).numSeen := by
  by_cases same : other = mech
  · subst same
    rw [World.modifyUnit_unit_self, kept]
  · rw [World.modifyUnit_unit_of_ne _ _ same]

theorem markForLOSUpdate_unit (mech : Dbref) : (markForLOSUpdate mech w).unit = w.unit := by
  unfold markForLOSUpdate
  split <;> rfl

theorem CountExact.markForLOSUpdate (exact : CountExact w) (mech : Dbref) :
    CountExact (markForLOSUpdate mech w) := by
  have same := SamePlaces.markForLOSUpdate mech w
  apply exact.congr same.isMech
  · intro other _
    rw [markForLOSUpdate_unit]
  · intro other _
    ext k
    apply same.mem_enemiesSeen
    rw [markForLOSUpdate_table]

theorem CountExact.modifyMap (exact : CountExact w) (map : Dbref) {f : GameMap → GameMap}
    (firstFree : ∀ m, (f m).firstFree = m.firstFree)
    (mechsOnMap : ∀ m, (f m).mechsOnMap = m.mechsOnMap)
    (losInfo : ∀ m, (f m).losInfo = m.losInfo) : CountExact (w.modifyMap map f) := by
  have same := SamePlaces.modifyMap w map firstFree mechsOnMap
  apply exact.congr same.isMech
  · intro other _
    rfl
  · intro other _
    ext k
    apply same.mem_enemiesSeen
    by_cases there : (w.unit other).mapindex = map
    · subst there
      rw [World.modifyMap_map_self, losInfo]
    · rw [World.modifyMap_map_of_ne _ _ there]

theorem CountExact.modifyUnit (exact : CountExact w) (mech : Dbref) {f : Unit → Unit}
    (mapindex : ∀ u, (f u).mapindex = u.mapindex)
    (mapnumber : ∀ u, (f u).mapnumber = u.mapnumber)
    (team : ∀ u, (f u).team = u.team) (numSeen : ∀ u, (f u).numSeen = u.numSeen) :
    CountExact (w.modifyUnit mech f) := by
  have same := SamePlaces.modifyUnit w mech mapindex mapnumber team
  apply exact.congr same.isMech
  · exact fun other _ => modifyUnit_numSeen f numSeen mech other
  · intro other _
    ext k
    exact same.mem_enemiesSeen rfl

end Counting

/-- Every counter is exact, in a consistent world whose empty slots are clear. -/
structure Counted (w : World) : Prop where
  consistent : Consistent w
  clear : EmptiesClear w
  exact : CountExact w

section Sensors

variable {map mech target : Dbref} {i j : Nat} {w w' : World}

/-- `update_LOSinfo` takes its out-of-range shortcut for a pair of units. -/
def takesShortcut (second : Bool) (map : Dbref) (i j : Nat) (target : Dbref) (o : Sight)
    (w : World) : Bool :=
  !(second && (w.unit target).started && (w.map map).losInfo j i &&& flagBlock != 0) &&
    o.outOfRange

variable {second : Bool}

theorem Looked.lookAt {o : Sight} (safe : takesShortcut second map i j target o w = true →
      seen ((w.map map).losInfo i j) = true → (w.unit mech).team = (w.unit target).team) :
    Looked map i j mech target w (lookAt second map i j mech target o w) := by
  have look : ∀ flag, seen flag = seen ((w.map map).losInfo i j) →
      Looked map i j mech target w (UnitWorld.sensorDoWeSeeNow map i j mech target o 0
        (w.modifyMap map fun m => m.setLos i j flag)) := by
    intro flag kept
    apply Looked.after (Looked.write w flag (Or.inr kept.symm)) rfl
    · right
      simp [GameMap.setLos_losInfo, kept]
    · exact Looked.sensorDoWeSeeNow o 0 _
  unfold takesShortcut at safe
  unfold UnitWorld.lookAt
  simp only
  split
  · exact look _ (seen_block _)
  · rename_i open'
    split
    · rename_i away
      apply Looked.write
      by_cases wasSeen : seen ((w.map map).losInfo i j) = true
      · rw [Bool.not_eq_true] at open'
        exact Or.inl (safe (by rw [open', away]; rfl) wasSeen)
      · right
        rw [Bool.not_eq_true] at wasSeen
        rw [wasSeen]
        decide
    · exact look _ (seen_calculateLOSFlag o _)

/-- A visit of `update_LOSinfo` does not take the shortcut for a pair of units of
different teams of which the first has seen the second. -/
def KeepsSeen (second : Bool) (map : Dbref) (sight : Nat → Nat → Sight) (w : World)
    (pair : Nat × Nat) : Prop :=
  ∀ mech target, w.getMech ((w.map map).mechsOnMap pair.1) = some mech →
    w.getMech ((w.map map).mechsOnMap pair.2) = some target →
    (w.unit mech).started = true →
    ¬ ((w.map map).mechflags pair.1 = 0 ∧ (w.map map).mechflags pair.2 = 0) →
    takesShortcut second map pair.1 pair.2 target (sight pair.1 pair.2) w = true →
    seen ((w.map map).losInfo pair.1 pair.2) = true →
    (w.unit mech).team = (w.unit target).team

variable {sight : Nat → Nat → Sight} {pair : Nat × Nat}

theorem CountExact.updatePair (exact : CountExact w) (consistent : Consistent w)
    (isMap : w.isMap map = true) (row : pair.1 < (w.map map).firstFree)
    (column : pair.2 < (w.map map).firstFree) (keeps : KeepsSeen second map sight w pair) :
    CountExact (updatePair second map sight w pair) := by
  unfold UnitWorld.updatePair
  simp only
  split
  · rename_i mech target foundMech foundTarget
    obtain ⟨isMech, slotMech⟩ := World.getMech_eq_some.mp foundMech
    obtain ⟨isTarget, slotTarget⟩ := World.getMech_eq_some.mp foundTarget
    rw [slotMech] at isMech
    rw [slotTarget] at isTarget
    split
    · exact exact
    · rename_i started
      split
      · exact exact
      · rename_i flagged
        have safe := keeps mech target foundMech foundTarget (by simpa using started) flagged
        split
        · have same := SamePlaces.markForLOSUpdate target w
          have marked : Looked map pair.1 pair.2 mech target
              (UnitWorld.markForLOSUpdate target w)
              (lookAt second map pair.1 pair.2 mech target (sight pair.1 pair.2)
                (UnitWorld.markForLOSUpdate target w)) := by
            apply Looked.lookAt
            simpa only [takesShortcut, markForLOSUpdate_unit, markForLOSUpdate_table] using safe
          rw [← same.isMech] at isMech isTarget
          rw [← same.isMap] at isMap
          rw [← same.firstFree] at row column
          rw [← same.mechsOnMap] at slotMech slotTarget
          exact (exact.markForLOSUpdate target).look (consistent.congr same) isMap row
            slotMech isMech column slotTarget isTarget marked
        · exact exact.look consistent isMap row slotMech isMech column slotTarget isTarget
            (Looked.lookAt safe)
  · exact exact

theorem Counted.updatePair (counted : Counted w) (isMap : w.isMap map = true)
    (row : pair.1 < (w.map map).firstFree) (column : pair.2 < (w.map map).firstFree)
    (keeps : KeepsSeen second map sight w pair) : Counted (updatePair second map sight w pair) where
  consistent := counted.consistent.congr (SamePlaces.updatePair second map sight w pair)
  clear := counted.clear.updatePair second map sight pair
  exact := counted.exact.updatePair counted.consistent isMap row column keeps

def visit (second : Bool) (map : Dbref) (sight : Nat → Nat → Sight) (w : World)
    (pair : Nat × Nat) : Option World := some (updatePair second map sight w pair)

theorem Counted.visits (pairs : List (Nat × Nat)) (counted : Counted w) (isMap : w.isMap map = true)
    (hin : ∀ pair ∈ pairs, pair.1 < (w.map map).firstFree ∧ pair.2 < (w.map map).firstFree)
    (keeps : Machine.Guarded (visit second map sight) (KeepsSeen second map sight) w pairs) :
    Counted (pairs.foldl (UnitWorld.updatePair second map sight) w) := by
  induction pairs generalizing w with
  | nil => exact counted
  | cons pair rest ih =>
    have same := SamePlaces.updatePair second map sight w pair
    obtain ⟨row, column⟩ := hin pair mem_cons_self
    apply ih
    · exact counted.updatePair isMap row column keeps.1
    · rw [same.isMap]
      exact isMap
    · intro later mem
      rw [same.firstFree]
      exact hin later (mem_cons_of_mem pair mem)
    · exact keeps.2 _ rfl

theorem mem_firstPairs {count : Nat} (mem : pair ∈ firstPairs count) :
    pair.1 < count ∧ pair.2 < count := by
  simp only [firstPairs, mem_flatMap, mem_range, List.mem_map,
    mem_range'_1] at mem
  obtain ⟨i, hin, j, range, rfl⟩ := mem
  exact ⟨hin, by omega⟩

theorem mem_secondPairs {count : Nat} (mem : pair ∈ secondPairs count) :
    pair.1 < count ∧ pair.2 < count := by
  simp only [secondPairs, mem_flatMap, mem_range, List.mem_map,
    mem_range'_1] at mem
  obtain ⟨i, hin, j, range, rfl⟩ := mem
  exact ⟨by omega, by omega⟩

/-- No visit of `update_LOSinfo` drops a bit that is counted. -/
def UpdateKeepsSeen (map : Dbref) (sight : Nat → Nat → Sight) (w : World) : Prop :=
  Machine.Guarded (visit false map sight) (KeepsSeen false map sight) w
      (firstPairs (w.map map).firstFree) ∧
    Machine.Guarded (visit true map sight) (KeepsSeen true map sight)
      ((firstPairs (w.map map).firstFree).foldl (UnitWorld.updatePair false map sight) w)
      (secondPairs (w.map map).firstFree)

theorem updateKeepsSeen_of_inRange
    (inRange : ∀ i j, (sight i j).outOfRange = false) (map : Dbref) (w : World) :
    UpdateKeepsSeen map sight w := by
  have keeps : ∀ second w pair, KeepsSeen second map sight w pair := by
    intro second w pair mech target _ _ _ _ shortcut
    simp [takesShortcut, inRange] at shortcut
  exact ⟨Machine.guarded_of_forall (keeps false) _ _, Machine.guarded_of_forall (keeps true) _ _⟩

section

variable (counted : Counted w)
include counted

theorem Counted.updateLOSinfo (isMap : w.isMap map = true) (keeps : UpdateKeepsSeen map sight w) :
    Counted (updateLOSinfo map sight w) := by
  have same := SamePlaces.foldl (SamePlaces.updatePair false map sight)
    (firstPairs (w.map map).firstFree) w
  have fst := counted.visits (firstPairs (w.map map).firstFree) isMap
    (fun _ mem => mem_firstPairs mem) keeps.1
  have second := fst.visits (secondPairs (w.map map).firstFree)
    (by rw [same.isMap]; exact isMap)
    (fun _ mem => by rw [same.firstFree]; exact mem_secondPairs mem) keeps.2
  constructor
  · exact counted.consistent.congr (SamePlaces.updateLOSinfo map sight w)
  · exact counted.clear.updateLOSinfo map sight
  · exact second.exact.modifyMap map (fun _ => rfl) (fun _ => rfl) fun _ => rfl

theorem Counted.plosSlot (isMech : w.isMech mech = true)
    (here : (w.unit mech).mapindex = map) (isMap : w.isMap map = true)
    (sight : Nat → Nat → Sight) (hin : i < (w.map map).firstFree) :
    Counted (plosSlot map mech sight w i) := by
  have same := SamePlaces.plosSlot map mech sight w i
  obtain ⟨_, below, own⟩ := counted.consistent.own isMech (here ▸ w.map_nonneg map isMap)
  rw [here] at below own
  have clear : EmptiesClear (UnitWorld.plosSlot map mech sight w i) :=
    counted.clear.plosSlot sight i (by rw [own]; exact Int.le_of_lt (w.mech_pos _ isMech))
  refine ⟨counted.consistent.congr same, clear, ?_⟩
  unfold UnitWorld.plosSlot
  simp only
  split
  · split
    · exact counted.exact
    · rename_i target hf
      obtain ⟨isTarget, slot⟩ := World.getMech_eq_some.mp hf
      rw [slot] at isTarget
      have counts : Looked map (w.unit mech).mapnumber i mech target w
          (w.modifyUnit mech Unit.countCanSee) :=
        Looked.of_unit w _ (fun _ => rfl) (fun _ => rfl) (fun _ => rfl) rfl
      apply counted.exact.look counted.consistent isMap below own isMech hin slot isTarget
      apply counts.after _ (Or.inr rfl) (Looked.sensorDoWeSeeNow _ 1 _)
      simp [Unit.countCanSee]
  · exact counted.exact

theorem Counted.mechPlosEvent (isMech : w.isMech mech = true) (sight : Nat → Nat → Sight) :
    Counted (mechPlosEvent mech sight w) := by
  unfold UnitWorld.mechPlosEvent
  split
  · exact counted
  · split
    · exact counted
    · rename_i map hf
      obtain ⟨isMap, here⟩ := World.getMap_eq_some.mp hf
      rw [here] at isMap
      split
      · exact counted
      · have reset : SamePlaces w (w.modifyUnit mech fun u => { u with canSee := 0 }) :=
          SamePlaces.modifyUnit w mech (fun _ => rfl) (fun _ => rfl) fun _ => rfl
        have start : Counted (w.modifyUnit mech fun u => { u with canSee := 0 }) :=
          ⟨counted.consistent.congr reset, counted.clear, counted.exact.modifyUnit mech
            (fun _ => rfl) (fun _ => rfl) (fun _ => rfl) fun _ => rfl⟩
        have rounds := @Machine.foldl_invariant_of_mem _ _ (UnitWorld.plosSlot map mech sight)
          (fun middle => SamePlaces w middle ∧ Counted middle) _
          (List.range (w.map map).firstFree)
          (by
            rintro middle i mem ⟨same, kept⟩
            refine ⟨same.trans (SamePlaces.plosSlot map mech sight middle i), ?_⟩
            apply kept.plosSlot
            · rw [same.isMech]
              exact isMech
            · rw [same.mapindex]
              exact here
            · rw [same.isMap]
              exact isMap
            · rw [same.firstFree]
              exact mem_range.mp mem)
          ⟨reset, start⟩
        exact rounds.2

theorem Counted.possiblySeeSlot (isMech : w.isMech mech = true)
    (here : (w.unit mech).mapindex = map) (isMap : w.isMap map = true)
    (sight : Nat → Nat → Sight) (hin : i < (w.map map).firstFree) :
    SamePlaces w (possiblySeeSlot map mech (w.unit mech).mapnumber sight w i) ∧
      Counted (possiblySeeSlot map mech (w.unit mech).mapnumber sight w i) := by
  obtain ⟨_, below, own⟩ := counted.consistent.own isMech (here ▸ w.map_nonneg map isMap)
  rw [here] at below own
  unfold UnitWorld.possiblySeeSlot
  simp only
  split
  · rename_i looks
    split
    · exact ⟨SamePlaces.refl w, counted⟩
    · rename_i seer hf
      obtain ⟨isSeer, slot⟩ := World.getMech_eq_some.mp hf
      obtain ⟨_, seerHere, _⟩ := counted.consistent.slot isMap hin looks.2
      rw [slot] at isSeer seerHere
      rw [if_neg (by simp [seerHere])]
      have looked : Looked map i (w.unit mech).mapnumber seer mech w
          (sensorDoWeSeeNow map i (w.unit mech).mapnumber seer mech
            (sight i (w.unit mech).mapnumber) 2 (w.modifyMap map fun m =>
              m.setLos i (w.unit mech).mapnumber
                (calculateLOSFlag (sight i (w.unit mech).mapnumber)
                  (m.losInfo i (w.unit mech).mapnumber)))) := by
        apply Looked.after (Looked.write w _ _) rfl _ (Looked.sensorDoWeSeeNow _ 2 _)
        · exact Or.inr (seen_calculateLOSFlag _ _).symm
        · right
          simp [GameMap.setLos_losInfo, seen_calculateLOSFlag]
      refine ⟨looked.same, counted.consistent.congr looked.same, ?_, ?_⟩
      · apply looked.one.emptiesClear counted.clear looks.2
        rw [own]
        exact Int.le_of_lt (w.mech_pos _ isMech)
      · exact counted.exact.look counted.consistent isMap hin slot isSeer below own isMech
          looked
  · exact ⟨SamePlaces.refl w, counted⟩

theorem Counted.possiblySeeMech (isMech : w.isMech mech = true) (sight : Nat → Nat → Sight) :
    Counted (possiblySeeMech mech sight w) := by
  unfold UnitWorld.possiblySeeMech
  split
  · exact counted
  · rename_i map hf
    obtain ⟨isMap, here⟩ := World.getMap_eq_some.mp hf
    rw [here] at isMap
    have rounds := @Machine.foldl_invariant_of_mem _ _
      (UnitWorld.possiblySeeSlot map mech (w.unit mech).mapnumber sight)
      (fun middle => SamePlaces w middle ∧ Counted middle) w
      (List.range (w.map map).firstFree)
      (by
        rintro middle i mem ⟨same, kept⟩
        have isMech' : middle.isMech mech = true := by rw [same.isMech]; exact isMech
        have isMap' : middle.isMap map = true := by rw [same.isMap]; exact isMap
        have here' : (middle.unit mech).mapindex = map := by rw [same.mapindex]; exact here
        have hin : i < (middle.map map).firstFree := by
          rw [same.firstFree]
          exact mem_range.mp mem
        obtain ⟨same', kept'⟩ := kept.possiblySeeSlot isMech' here' isMap' sight hin
        rw [same.mapnumber] at same' kept'
        exact ⟨same.trans same', kept'⟩)
      ⟨SamePlaces.refl w, counted⟩
    exact rounds.2

end

end Sensors

section Moves

variable {map mech : Dbref} {w w' : World}

theorem clearSlotFromLOS_numSeen (i : Nat) (other : Dbref) :
    ((clearSlotFromLOS map mech w i).unit other).numSeen = (w.unit other).numSeen := by
  have zero : seen (((w.modifyMap map fun m =>
      (m.setLos (w.unit mech).mapnumber i 0).setLos i (w.unit mech).mapnumber 0).map
        map).losInfo i (w.unit mech).mapnumber) = false := by
    rw [World.modifyMap_map_self, GameMap.setLos_losInfo]
    simp [seen]
  unfold clearSlotFromLOS
  simp only [zero, Bool.false_and, Bool.false_eq_true, if_false]
  split
  · split
    · rfl
    · exact modifyUnit_numSeen _ (fun u => u.loseLockOn_numSeen mech) _ other
  · rfl

theorem clearMechFromLOS_numSeen (mech other : Dbref) :
    ((clearMechFromLOS mech w).unit other).numSeen = (w.unit other).numSeen := by
  unfold clearMechFromLOS
  split
  · rfl
  · rename_i map _
    have lock : ∀ u : Unit, u.loseAnyLock.numSeen = u.numSeen := by
      intro u
      unfold Unit.loseAnyLock
      split <;> rfl
    rw [modifyUnit_numSeen _ lock]
    exact @Machine.foldl_invariant _ _ (clearSlotFromLOS map mech)
      (fun middle => (middle.unit other).numSeen = (w.unit other).numSeen)
      (fun middle i same => (clearSlotFromLOS_numSeen i other).trans same) _ _ rfl

theorem releaseTow_numSeen (map mech other : Dbref) :
    ((releaseTow map mech w).unit other).numSeen = (w.unit other).numSeen := by
  unfold releaseTow
  split
  · split
    · rfl
    · rename_i t _
      have dropped : ((w.modifyUnit t Unit.dropCarried).unit other).numSeen =
          (w.unit other).numSeen := modifyUnit_numSeen Unit.dropCarried (fun _ => rfl) t other
      have untowed : (((w.modifyUnit t Unit.dropCarried).modifyUnit mech
          Unit.untow).unit other).numSeen =
            ((w.modifyUnit t Unit.dropCarried).unit other).numSeen :=
        modifyUnit_numSeen Unit.untow (fun _ => rfl) mech other
      exact untowed.trans dropped
  · rfl

theorem leaveSlot_numSeen (map mech other : Dbref) :
    ((leaveSlot map mech w).unit other).numSeen = (w.unit other).numSeen := by
  have left : ((w.modifyUnit mech Unit.leave).unit other).numSeen =
      (w.unit other).numSeen := modifyUnit_numSeen Unit.leave (fun _ => rfl) mech other
  unfold leaveSlot
  simp only
  split <;> exact left

theorem removeMechFromMap_numSeen (map mech other : Dbref) :
    ((removeMechFromMap map mech w).unit other).numSeen =
      if other = mech then 0 else (w.unit other).numSeen := by
  unfold removeMechFromMap
  by_cases self : other = mech
  · subst self
    simp [Unit.forgetEnemies]
  · simp only [self, if_false]
    rw [World.modifyUnit_unit_of_ne _ _ self, releaseTow_numSeen, leaveSlot_numSeen,
      clearMechFromLOS_numSeen]

def Unseen (w : World) (mech : Dbref) : Prop :=
  w.isMap (w.unit mech).mapindex = true →
    ∀ k, k < (w.map (w.unit mech).mapindex).firstFree →
      w.isMech ((w.map (w.unit mech).mapindex).mechsOnMap k) = true →
      (w.unit ((w.map (w.unit mech).mapindex).mechsOnMap k)).team ≠ (w.unit mech).team →
      seen ((w.map (w.unit mech).mapindex).losInfo k (w.unit mech).mapnumber) = false

instance (w : World) (mech : Dbref) : Decidable (Unseen w mech) :=
  inferInstanceAs (Decidable (w.isMap (w.unit mech).mapindex = true →
    ∀ k, k < (w.map (w.unit mech).mapindex).firstFree →
      w.isMech ((w.map (w.unit mech).mapindex).mechsOnMap k) = true →
      (w.unit ((w.map (w.unit mech).mapindex).mechsOnMap k)).team ≠ (w.unit mech).team →
      seen ((w.map (w.unit mech).mapindex).losInfo k (w.unit mech).mapnumber) = false))

variable {other : Dbref}

theorem leaveSlot_others (ne : other ≠ mech) :
    (leaveSlot map mech w).unit other = w.unit other := by
  unfold leaveSlot
  simp only
  split
  · exact World.modifyUnit_unit_of_ne _ _ ne
  · exact World.modifyUnit_unit_of_ne _ _ ne

theorem leaveSlot_isMech : (leaveSlot map mech w).isMech = w.isMech := by
  unfold leaveSlot
  simp only
  split <;> rfl

theorem leaveSlot_team (other : Dbref) :
    ((leaveSlot map mech w).unit other).team = (w.unit other).team := by
  by_cases self : other = mech
  · subst self
    unfold leaveSlot
    simp only
    split <;> simp [Unit.leave]
  · rw [leaveSlot_others self]

theorem leaveSlot_losInfo (other : Dbref) :
    ((leaveSlot map mech w).map other).losInfo = (w.map other).losInfo := by
  unfold leaveSlot
  simp only
  split
  · rfl
  · by_cases there : other = map
    · subst there
      simp [GameMap.freeSlot]
    · rw [World.modifyMap_map_of_ne _ _ there]
      rfl

theorem leaveSlot_enemiesSeen (consistent : Consistent w) (isMech : w.isMech mech = true)
    (isMap : w.isMap map = true) (here : (w.unit mech).mapindex = map)
    (unseen : Unseen w mech) (isOther : w.isMech other = true) (ne : other ≠ mech) :
    (leaveSlot map mech (clearMechFromLOS mech w)).enemiesSeen other =
      w.enemiesSeen other := by
  have cleared := SamePlaces.clearMechFromLOS mech w
  have holder : ∀ seat, (leaveSlot map mech (clearMechFromLOS mech w)).holder seat =
      if seat = (map, (w.unit mech).mapnumber) then none else w.holder seat := by
    intro seat
    have left := leaveSlot_holder (consistent.congr cleared) (cleared.isMech ▸ isMech)
      (cleared.isMap ▸ isMap) ((cleared.mapindex mech).trans here) seat
    rwa [cleared.mapnumber, cleared.holder] at left
  have mine : w.holder (map, (w.unit mech).mapnumber) = some mech := by
    apply (consistent.mirror _ _).mp
    exact World.place_eq_some.mpr ⟨isMech, here ▸ w.map_nonneg map isMap, here, rfl⟩
  have row : (w.unit other).mapindex = map →
      (w.unit other).mapnumber ≠ (w.unit mech).mapnumber := by
    intro there same
    have its : w.holder (map, (w.unit mech).mapnumber) = some other := by
      apply (consistent.mirror _ _).mp
      exact World.place_eq_some.mpr
        ⟨isOther, there ▸ w.map_nonneg map isMap, there, same⟩
    exact ne (some.inj (its.symm.trans mine))
  unfold Unseen at unseen
  rw [here] at unseen
  ext k
  rw [World.mem_enemiesSeen_holder, World.mem_enemiesSeen_holder]
  simp only [leaveSlot_others ne, cleared.mapindex, cleared.mapnumber, cleared.team,
    holder, leaveSlot_isMech, cleared.isMech, leaveSlot_losInfo, leaveSlot_team]
  by_cases own : ((w.unit other).mapindex, k) = (map, (w.unit mech).mapnumber)
  · obtain ⟨there, rfl⟩ := Prod.ext_iff.mp own
    simp only at there
    rw [if_pos own, there, mine]
    simp only [reduceCtorEq, false_and, exists_false, Option.some.injEq, false_iff]
    rintro ⟨_, rfl, _, foe, bit⟩
    obtain ⟨_, below, its⟩ := consistent.own isOther (there ▸ w.map_nonneg map isMap)
    rw [there] at below its
    have dark := unseen isMap (w.unit other).mapnumber below (its.symm ▸ isOther)
      (by rwa [its])
    rw [dark] at bit
    exact absurd bit (by decide)
  · rw [if_neg own]
    by_cases there : (w.unit other).mapindex = map
    · have column : k ≠ (w.unit mech).mapnumber := fun same => own (Prod.ext there same)
      rw [there, clearMechFromLOS_losInfo here isMap, if_neg]
      rintro (⟨same, _⟩ | ⟨same, _⟩)
      · exact row there same
      · exact column same
    · rw [clearMechFromLOS_map_of_ne]
      rw [here]
      exact Ne.symm there

theorem leaveSlot_enemiesSeen_of_off (consistent : Consistent w)
    (isMech : w.isMech mech = true) (isMap : w.isMap map = true)
    (off : (w.unit mech).mapindex < 0) (ne : other ≠ mech) :
    (leaveSlot map mech (clearMechFromLOS mech w)).enemiesSeen other =
      w.enemiesSeen other := by
  have nowhere : w.getMap (w.unit mech).mapindex = none := by
    cases hf : w.getMap (w.unit mech).mapindex with
    | none => rfl
    | some _ =>
      have nonneg := w.map_nonneg _ (World.getMap_eq_some.mp hf).1
      exact absurd off (Int.not_lt.mpr nonneg)
  have idle : clearMechFromLOS mech w = w := by simp [clearMechFromLOS, nowhere]
  rw [idle, leaveSlot_of_off consistent isMech isMap off]
  ext k
  rw [World.mem_enemiesSeen, World.mem_enemiesSeen, World.modifyUnit_unit_of_ne _ _ ne]
  have team : ∀ target, ((w.modifyUnit mech Unit.leave).unit target).team =
      (w.unit target).team := by
    intro target
    have same := @leaveSlot_team map mech w target
    rwa [leaveSlot_of_off consistent isMech isMap off] at same
  simp [team]

theorem CountExact.removeMechFromMap (exact : CountExact w) (consistent : Consistent w)
    (isMech : w.isMech mech = true) (isMap : w.isMap map = true)
    (here : (w.unit mech).mapindex = map ∨ (w.unit mech).mapindex < 0)
    (unseen : Unseen w mech) : CountExact (removeMechFromMap map mech w) := by
  have tow := SamePlaces.releaseTow map mech (leaveSlot map mech (clearMechFromLOS mech w))
  have forget : SamePlaces (releaseTow map mech (leaveSlot map mech (clearMechFromLOS mech w)))
      (UnitWorld.removeMechFromMap map mech w) :=
    SamePlaces.modifyUnit _ mech (fun _ => rfl) (fun _ => rfl) fun _ => rfl
  have rest := tow.trans forget
  have objects := removeMechFromMap_objects map mech w
  have table : (UnitWorld.removeMechFromMap map mech w).map =
      (leaveSlot map mech (clearMechFromLOS mech w)).map := releaseTow_map
  intro other isOther
  rw [objects.1] at isOther
  rw [removeMechFromMap_numSeen]
  by_cases self : other = mech
  · subst self
    rw [if_pos rfl, World.enemiesSeen_of_off, Finset.card_empty]
    rw [removeMechFromMap_mapindex]
    decide
  · have sets : (UnitWorld.removeMechFromMap map mech w).enemiesSeen other =
        (leaveSlot map mech (clearMechFromLOS mech w)).enemiesSeen other := by
      ext k
      apply rest.mem_enemiesSeen
      rw [table]
    rw [if_neg self, sets, exact other isOther]
    rcases here with here | off
    · rw [leaveSlot_enemiesSeen consistent isMech isMap here unseen isOther self]
    · rw [leaveSlot_enemiesSeen_of_off consistent isMech isMap off self]

theorem takeSlot_losInfo (other : Dbref) {a b : Nat}
    (elsewhere : other = map → a ≠ (w.map map).slotToTake.1 ∧ b ≠ (w.map map).slotToTake.1) :
    ((takeSlot map mech w).map other).losInfo a b = (w.map other).losInfo a b := by
  unfold takeSlot
  by_cases there : other = map
  · subst there
    obtain ⟨row, column⟩ := elsewhere rfl
    rw [World.setMap_map_self]
    unfold GameMap.slotToTake at row column ⊢
    cases hf : (w.map other).freeSlot? with
    | some loop => rfl
    | none =>
      simp only [hf] at row column
      simp [GameMap.fillSlot, GameMap.extend, row, column]
  · rw [World.setMap_map_of_ne _ _ there]
    rfl

theorem takeSlot_others (ne : other ≠ mech) : (takeSlot map mech w).unit other = w.unit other := by
  simp [takeSlot, World.modifyUnit_unit_of_ne _ _ ne]

theorem takeSlot_team (other : Dbref) :
    ((takeSlot map mech w).unit other).team = (w.unit other).team := by
  by_cases self : other = mech
  · subst self
    simp [takeSlot, Unit.enter]
  · rw [takeSlot_others self]

theorem CountExact.takeSlot (exact : CountExact w) (consistent : Consistent w)
    (clear : EmptiesClear w) (isMech : w.isMech mech = true) (isMap : w.isMap map = true)
    (off : (w.unit mech).mapindex < 0) (room : (w.map map).firstFree ≠ maxMechsPerMap) :
    CountExact (takeSlot map mech w) := by
  have limit := consistent.room isMap
  have short : (w.map map).firstFree < 255 := by
    simp only [maxMechsPerMap] at limit room
    omega
  obtain ⟨newcomer, _⟩ := takeSlot_clear clear map mech
  have taken := takeSlot_holder isMech isMap short
  have post := takeSlot_consistent consistent isMech isMap off room
  have number : ((UnitWorld.takeSlot map mech w).unit mech).mapnumber =
      (w.map map).slotToTake.1 := by simp [UnitWorld.takeSlot, Unit.enter]
  have on : ((UnitWorld.takeSlot map mech w).unit mech).mapindex = map := by
    simp [UnitWorld.takeSlot, Unit.enter]
  intro other isOther
  by_cases self : other = mech
  · subst self
    have none' : (UnitWorld.takeSlot map other w).enemiesSeen other = ∅ := by
      apply Finset.eq_empty_of_forall_notMem
      intro k mem
      obtain ⟨below, _, _, _, bit⟩ := World.mem_enemiesSeen.mp mem
      rw [on] at below bit
      rw [(newcomer k below).1] at bit
      exact absurd bit (by decide)
    have pre := exact other isMech
    rw [World.enemiesSeen_of_off off, Finset.card_empty] at pre
    rw [none', Finset.card_empty]
    simpa [UnitWorld.takeSlot, Unit.enter] using pre
  · have sets : (UnitWorld.takeSlot map mech w).enemiesSeen other = w.enemiesSeen other := by
      obtain ⟨empty, _⟩ := slotToTake_spec short
      have free : w.holder (map, (w.map map).slotToTake.1) = none := by
        simpa [World.holder, isMap] using empty
      have row : (w.unit other).mapindex = map →
          (w.unit other).mapnumber ≠ (w.map map).slotToTake.1 := by
        intro there same
        have its : w.holder (map, (w.map map).slotToTake.1) = some other := by
          apply (consistent.mirror _ _).mp
          exact World.place_eq_some.mpr
            ⟨isOther, there ▸ w.map_nonneg map isMap, there, same⟩
        exact absurd (its.symm.trans free) (by simp)
      ext k
      rw [World.mem_enemiesSeen_holder, World.mem_enemiesSeen_holder, takeSlot_others self,
        taken]
      by_cases own : ((w.unit other).mapindex, k) = (map, (w.map map).slotToTake.1)
      · obtain ⟨there, slot⟩ := Prod.ext_iff.mp own
        simp only at there slot
        have placed : 0 ≤ ((UnitWorld.takeSlot map mech w).unit other).mapindex := by
          rw [takeSlot_others self, there]
          exact w.map_nonneg map isMap
        obtain ⟨_, below, _⟩ := post.own isOther placed
        rw [takeSlot_others self, there] at below
        rw [number] at newcomer
        rw [own, free, there, slot, (newcomer _ below).2]
        simp [seen]
      · have e := @takeSlot_losInfo map mech w (w.unit other).mapindex
          (w.unit other).mapnumber k (fun there => ⟨row there, fun same => own (Prod.ext there same)⟩)
        have objects : (UnitWorld.takeSlot map mech w).isMech = w.isMech := rfl
        rw [Function.update_of_ne own, e, objects]
        simp only [takeSlot_team]
    rw [sets, takeSlot_others self]
    exact exact other isOther

theorem CountExact.of_holder (exact : CountExact w) (unit : w'.unit = w.unit)
    (isMech : w'.isMech = w.isMech) (holder : w'.holder = w.holder)
    (losInfo : ∀ map, (w'.map map).losInfo = (w.map map).losInfo) : CountExact w' := by
  apply exact.congr isMech
  · intro other _
    rw [unit]
  · intro other _
    ext k
    simp only [World.mem_enemiesSeen_holder, unit, isMech, holder, losInfo]

theorem CountExact.of_networkOnly (exact : CountExact w) (only : NetworkOnly w w') :
    CountExact w' := by
  apply exact.congr only.isMech
  · exact fun other _ => only.numSeen other
  · intro other _
    ext k
    apply (SamePlaces.of_networkOnly only).mem_enemiesSeen
    rw [only.map]

section

variable (counted : Counted w)
include counted

theorem Counted.removeMechFromMap (isMech : w.isMech mech = true) (isMap : w.isMap map = true)
    (here : (w.unit mech).mapindex = map ∨ (w.unit mech).mapindex < 0) (unseen : Unseen w mech) :
    Counted (removeMechFromMap map mech w) where
  consistent := removeMechFromMap_consistent counted.consistent isMech isMap here
  clear := by
    have leaves := @leavesClear_of_consistent w counted.consistent
      (.move (.removeFromMap map mech)) ⟨isMap, isMech⟩ here
    exact counted.clear.removeMechFromMap isMap leaves
  exact := counted.exact.removeMechFromMap counted.consistent isMech isMap here unseen

theorem Counted.addMechToMap (isMech : w.isMech mech = true)
    (isMap : w.isMap map = true) (off : (w.unit mech).mapindex < 0)
    (room : (w.map map).firstFree ≠ maxMechsPerMap) : Counted (addMechToMap map mech w) where
  consistent := addMechToMap_consistent counted.consistent isMech isMap off room
  clear := (addMechToMap_clear counted.clear map mech).1
  exact := by
    unfold UnitWorld.addMechToMap
    split
    · exact counted.exact
    · have taken := counted.exact.takeSlot counted.consistent counted.clear isMech isMap off room
      apply CountExact.markForLOSUpdate
      unfold dropTow
      split
      · exact taken.modifyUnit mech (fun _ => rfl) (fun _ => rfl) (fun _ => rfl) fun _ => rfl
      · exact taken

theorem Counted.eliminateEmpties (map : Dbref) : Counted (eliminateEmpties map w) where
  consistent := eliminateEmpties_consistent counted.consistent map
  clear := counted.clear.eliminateEmpties map
  exact := by
    have holder := eliminateEmpties_holder counted.consistent map
    unfold UnitWorld.eliminateEmpties at holder ⊢
    split at holder
    · exact counted.exact
    · simp only at holder ⊢
      split at holder
      · rename_i nobody
        rw [if_pos nobody]
        exact counted.exact
      · rename_i here _ some'
        rw [if_neg some']
        refine counted.exact.of_holder ?_ ?_ holder ?_
        · rfl
        · rfl
        · intro other
          by_cases there : other = here
          · subst there
            simp [GameMap.truncate]
          · rw [World.modifyMap_map_of_ne _ _ there]

theorem Counted.mechRemoveFromAllMaps (isMech : w.isMech mech = true)
    (off : (w.unit mech).mapindex < 0) : Counted (mechRemoveFromAllMaps mech w) where
  consistent := mechRemoveFromAllMaps_consistent counted.consistent off
  clear := by
    have leaves := @leavesClear_of_consistent w counted.consistent
      (.move (.removeFromAllMaps mech)) isMech off
    exact counted.clear.mechRemoveFromAllMaps leaves
  exact := by
    have holder := mechRemoveFromAllMaps_holder counted.consistent off
    refine counted.exact.of_holder ?_ ?_ holder ?_
    · rfl
    · rfl
    · intro map
      unfold UnitWorld.mechRemoveFromAllMaps
      simp only
      split <;> rfl

theorem Counted.leaveMap (isMech : w.isMech mech = true)
    (isMap : w.isMap (w.unit mech).mapindex = true) (unseen : Unseen w mech) {left : World}
    (leaving : leaveMap mech w = some left) : Counted left := by
  obtain ⟨w', leaves, only⟩ := leaveMap_spec mech w
  obtain rfl : w' = left := some.inj (leaves.symm.trans leaving)
  have removed := counted.removeMechFromMap isMech isMap (Or.inl rfl) unseen
  have untagged := removed.exact.modifyUnit mech (f := Unit.dropTag)
    (fun _ => rfl) (fun _ => rfl) (fun _ => rfl) fun _ => rfl
  exact ⟨(leaveMap_consistent counted.consistent isMech isMap leaving).1,
    removed.clear.congr only.map, untagged.of_networkOnly only⟩

theorem Counted.enterMap {ids : List MechId}
    (isMech : w.isMech mech = true) (isMap : w.isMap map = true)
    (off : (w.unit mech).mapindex < 0) (entered : enterMap mech map ids w = some w') :
    Counted w' := by
  refine ⟨enterMap_consistent counted.consistent isMech isMap off entered,
    counted.clear.enterMap entered, ?_⟩
  rcases enterMap_cases entered with rfl | ⟨room, targ, rfl⟩
  · exact counted.exact
  · exact (counted.addMechToMap isMech isMap off room).exact.modifyUnit mech
      (fun _ => rfl) (fun _ => rfl) (fun _ => rfl) fun _ => rfl

theorem Counted.mechRsetmapindex {newindex : Dbref}
    {ids : List MechId} (isMech : w.isMech mech = true)
    (unseen : w.TakesOff mech newindex → Unseen w mech)
    (moved : mechRsetmapindex mech newindex ids w = some w') : Counted w' := by
  rcases mechRsetmapindex_cases moved with
    rfl | ⟨takesOff, left, leaving, rfl | ⟨newMap, entered⟩⟩ | ⟨off, newMap, entered⟩
  · exact counted
  · exact counted.leaveMap isMech (isMap_of_validMap takesOff.2) (unseen takesOff) leaving
  · have oldMap := isMap_of_validMap takesOff.2
    have kept := counted.leaveMap isMech oldMap (unseen takesOff) leaving
    obtain ⟨_, mechs, maps, off⟩ :=
      leaveMap_consistent counted.consistent isMech oldMap leaving
    exact kept.enterMap (mechs ▸ isMech) (maps ▸ newMap) (by rw [off]; decide) entered
  · exact counted.enterMap isMech newMap (by rw [off]; decide) entered

end

end Moves

section Runs

variable {w w' : World}

/-- The step drops no SEEN bit that is counted: `update_LOSinfo` takes its
out-of-range shortcut only for pairs that are not counted, and a unit is taken off
its map only when nobody of another team there has seen it. -/
def SightOp.KeepsCount (w : World) : SightOp → Prop
  | .move (.rsetmapindex mech newindex _) => w.TakesOff mech newindex → Unseen w mech
  | .move (.removeFromMap _ mech) => Unseen w mech
  | .updateLOSinfo map sight => UpdateKeepsSeen map sight w
  | _ => True

theorem act_counted (counted : Counted w) {op : SightOp} (wellTyped : op.WellTyped w)
    (disciplined : op.Disciplined w) (keeps : op.KeepsCount w) (acted : w.act op = some w') :
    Counted w' := by
  cases op with
  | mark mech =>
    obtain rfl := some.inj acted
    exact ⟨counted.consistent.congr (SamePlaces.markForLOSUpdate mech w),
      counted.clear.markForLOSUpdate mech, counted.exact.markForLOSUpdate mech⟩
  | updateLOSinfo map sight =>
    obtain rfl := some.inj acted
    exact counted.updateLOSinfo wellTyped keeps
  | plosEvent mech sight =>
    obtain rfl := some.inj acted
    exact counted.mechPlosEvent wellTyped sight
  | possiblySee mech sight =>
    obtain rfl := some.inj acted
    exact counted.possiblySeeMech wellTyped sight
  | move op =>
    cases op with
    | rsetmapindex mech newindex ids =>
      exact counted.mechRsetmapindex wellTyped keeps acted
    | removeFromAllMaps mech =>
      obtain rfl := some.inj acted
      exact counted.mechRemoveFromAllMaps wellTyped disciplined
    | removeFromMap map mech =>
      obtain rfl := some.inj acted
      exact counted.removeMechFromMap wellTyped.2 wellTyped.1 disciplined keeps
    | addToMap newmap mech =>
      obtain rfl := some.inj acted
      exact counted.addMechToMap wellTyped.2 wellTyped.1 disciplined.1 disciplined.2
    | eliminateEmpties map =>
      obtain rfl := some.inj acted
      exact counted.eliminateEmpties map

theorem start_counted (mechs maps : List Dbref) {unit : Dbref → Unit}
    (fresh : ∀ ref, (unit ref).numSeen = 0) : Counted (World.start mechs maps unit) where
  consistent := start_consistent mechs maps unit
  clear := start_emptiesClear mechs maps unit
  exact mech _ := by
    rw [World.enemiesSeen_of_off]
    · exact fresh mech
    · exact Int.negSucc_lt_zero 0

/-- In a run that drops no SEEN bit that is counted, `MechNumSeen` of every unit on a
map is the number of units of other teams there that it has seen. -/
theorem numSeen_exact {ops : List SightOp} (counted : Counted w)
    (guarded : Machine.Guarded World.act
      (fun w op => op.WellTyped w ∧ op.Disciplined w ∧ op.KeepsCount w) w ops)
    (ran : Machine.run World.act w ops = some w') {mech : Dbref}
    (isMech : w'.isMech mech = true) :
    (w'.unit mech).numSeen = (w'.enemiesSeen mech).card := by
  have kept := Machine.run_guarded
    (fun _ _ _ holds allowed acted =>
      act_counted holds allowed.1 allowed.2.1 allowed.2.2 acted) counted guarded ran
  exact kept.exact mech isMech

/-- A scout that saw another, and leaves unseen. -/
theorem numSeen_exact_scout :
    ∃ w', Machine.run World.act (World.start [1, 2] [10] scout)
      [.move (.addToMap 10 1), .move (.addToMap 10 2), .updateLOSinfo 10 clearView,
        .plosEvent 1 clearView, .move (.removeFromMap 10 1)] = some w' ∧
      (w'.unit 2).numSeen = (w'.enemiesSeen 2).card := by
  have guarded : Machine.Guarded World.act
      (fun w op => op.WellTyped w ∧ op.Disciplined w ∧ op.KeepsCount w)
      (World.start [1, 2] [10] scout)
      [.move (.addToMap 10 1), .move (.addToMap 10 2), .updateLOSinfo 10 clearView,
        .plosEvent 1 clearView, .move (.removeFromMap 10 1)] := by
    apply (Machine.guarded_cons_of_step _ rfl).mpr
      ⟨⟨⟨rfl, rfl⟩, ⟨by decide, by decide⟩, trivial⟩, _⟩
    apply (Machine.guarded_cons_of_step _ rfl).mpr
      ⟨⟨⟨rfl, rfl⟩, ⟨by decide, by decide⟩, trivial⟩, _⟩
    apply (Machine.guarded_cons_of_step _ rfl).mpr
      ⟨⟨rfl, trivial, updateKeepsSeen_of_inRange (fun _ _ => rfl) _ _⟩, _⟩
    apply (Machine.guarded_cons_of_step _ rfl).mpr ⟨⟨rfl, trivial, trivial⟩, _⟩
    apply (Machine.guarded_cons_of_step _ rfl).mpr ⟨⟨⟨rfl, rfl⟩, Or.inl rfl, by
      unfold SightOp.KeepsCount
      decide⟩, _⟩
    exact Machine.guarded_nil _ _ _
  exact ⟨_, rfl, numSeen_exact (start_counted _ _ fun _ => rfl) guarded rfl rfl⟩

def farView (i j : Nat) : Sight := { clearView i j with outOfRange := true }

/-- A scout that saw another unit counts it for ever, when the other moves out of
range as well as when it leaves the map. -/
theorem numSeen_stale :
    (∃ w', Machine.run World.act (World.start [1, 2] [10] scout)
      [.move (.rsetmapindex 1 10 [(65, 65)]), .move (.rsetmapindex 2 10 [(65, 66)]),
        .updateLOSinfo 10 clearView, .plosEvent 1 clearView, .mark 2,
        .updateLOSinfo 10 farView] = some w' ∧
      (w'.unit 1).mapindex = 10 ∧ (w'.unit 1).numSeen = 1 ∧ w'.enemiesSeen 1 = ∅) ∧
    (∃ w', Machine.run World.act (World.start [1, 2] [10] scout)
      [.move (.rsetmapindex 1 10 [(65, 65)]), .move (.rsetmapindex 2 10 [(65, 66)]),
        .updateLOSinfo 10 clearView, .plosEvent 1 clearView,
        .move (.rsetmapindex 2 (-1) [])] = some w' ∧
      (w'.unit 1).mapindex = 10 ∧ (w'.unit 1).numSeen = 1 ∧ w'.enemiesSeen 1 = ∅) := by
  refine ⟨⟨_, rfl, ?_⟩, ⟨_, rfl, ?_⟩⟩
  · decide
  · decide

end Runs

end BattletechMux.UnitWorld
