/-
Module: BattletechMux.Weapons.Loss
Purpose: What a section loses: the two loops number the weapons of a section from the second of the
  mech on, DestroyWeapon destroys one weapon, and LoseWeapon loses any weapon of a section if and
  only if these weapons can be used and the first of the mech is out of the way.
-/
import BattletechMux.Weapons.Groups

namespace BattletechMux.Weapons

open List hiding filter_filter filter_map getElem?_eq_some_iff map_id map_map mem_map
open Option hiding filter filter_filter filter_map map map_id map_map mem_map

open Ammo (Section Critical Place Weapon getWeaponCrits weapon2I has destroyedMode disabledMode
  brokenMode)

variable {mechWeapons : Int → Weapon} {mech mech' mech'' : Mech} {loc : Section}

/-! ## Numbers -/

/-- The weapons that the loops of `CountWeaponsInLoc` and `FindWeaponTypeNumInLoc` meet: those of the
section, but for the first of the mech. -/
def others (mechWeapons : Int → Weapon) (mech : Mech) (loc : Section) : List (Section × Found) :=
  ((weapons mechWeapons mech).drop 1).filter fun entry => entry.1 = loc

theorem findWeaponNumberOnMech_eq (number : Nat) : findWeaponNumberOnMech mechWeapons mech number =
    match (weapons mechWeapons mech)[number]? with
    | some e => (ticNum mechWeapons mech false e.1 e.2,
        some (e.1, e.2.critical))
    | none => (-1, none) := by
  rw [findWeaponNumberOnMech, findWeaponNumberOnMechAdvanced, numbered_weapons]
  cases (weapons mechWeapons mech)[number]? <;> rfl

theorem weapon_nonneg {hf : Found} (mem : hf ∈ weaponsIn mechWeapons mech loc) :
    0 ≤ hf.weapon := by
  obtain ⟨groups, grouped, is⟩ := groups_of_mem mem
  obtain ⟨group, hin, rfl⟩ := List.mem_map.mp (is ▸ mem)
  obtain ⟨k, first, more, rfl, kinds, -⟩ := grouped.of_mem hin
  obtain ⟨weapon, -⟩ := kindAt_eq_some.mp (kinds first List.mem_cons_self)
  have high : Ammo.weaponBaseIndex ≤ (mech.criticals (loc, first)).type.toNat :=
    (of_decide_eq_true weapon).1
  simp only [noted, headD_cons, weapon2I]
  omega

theorem mem_weapons {e : Section × Found} (mem : e ∈ weapons mechWeapons mech) :
    e.2 ∈ weaponsIn mechWeapons mech e.1 := by
  obtain ⟨loop, -, hin⟩ := List.mem_flatMap.mp mem
  obtain ⟨hf, here, rfl⟩ := List.mem_map.mp hin
  exact here

theorem length_weaponsIn : (weaponsIn mechWeapons mech loc).length ≤ 12 := by
  cases hf : weaponsIn mechWeapons mech loc with
  | nil => decide
  | cons first more =>
    have here : first ∈ weaponsIn mechWeapons mech loc := by rw [hf]; exact mem_cons_self
    obtain ⟨groups, grouped, is⟩ := groups_of_mem here
    rw [← hf, is, length_map]
    exact grouped.length_le

theorem length_weapons : (weapons mechWeapons mech).length ≤ 96 := by
  have each (sections : List Section) : (sections.flatMap fun loop =>
      (weaponsIn mechWeapons mech loop).map fun hf => (loop, hf)).length ≤
        12 * sections.length := by
    induction sections with
    | nil => exact Nat.le_refl 0
    | cons loop rest ih =>
      have here : (weaponsIn mechWeapons mech loop).length ≤ 12 := length_weaponsIn
      rw [flatMap_cons, length_append, length_map, length_cons]
      omega
  exact each (List.finRange 8)

theorem ticNum_ne {e : Section × Found} (mem : e ∈ weapons mechWeapons mech) :
    ticNum mechWeapons mech false e.1 e.2 ≠ -1 := by
  have weapon := weapon_nonneg (mem_weapons mem)
  simp only [ticNum, ticNumDestroyed, ticNumRecycling, ticNumReloading, ticNumPhysical]
  split_ifs <;> omega

theorem drop_weapons {i : Nat} {e : Section × Found}
    (here : (weapons mechWeapons mech)[i]? = some e) :
    (weapons mechWeapons mech).drop i = e :: (weapons mechWeapons mech).drop (i + 1) := by
  obtain ⟨hin, rfl⟩ := getElem?_eq_some_iff.mp here
  exact drop_eq_getElem_cons hin

theorem countLoop_eq {rounds i : Nat} (hlt : ((weapons mechWeapons mech).drop i).length < rounds)
    (count : Nat) : countLoop mechWeapons mech loc rounds i count =
      some (count +
        (((weapons mechWeapons mech).drop i).filter fun e => e.1 = loc).length) := by
  induction rounds generalizing i count with
  | zero => exact absurd hlt (Nat.not_lt_zero _)
  | succ rounds ih =>
    rw [countLoop, findWeaponNumberOnMech_eq]
    cases here : (weapons mechWeapons mech)[i]? with
    | none =>
      rw [drop_eq_nil_of_le (getElem?_eq_none_iff.mp here)]
      rfl
    | some e =>
      rw [drop_weapons here] at hlt ⊢
      simp only [if_neg (ticNum_ne (mem_of_getElem? here)), map_some,
        Option.some.injEq]
      rw [ih (Nat.lt_of_succ_lt_succ hlt), filter_cons]
      by_cases mine : e.1 = loc
      · simp [mine]
        omega
      · simp [mine]

theorem countWeaponsInLoc_eq :
    countWeaponsInLoc mechWeapons mech loc = some (others mechWeapons mech loc).length := by
  have all : (weapons mechWeapons mech).length ≤ 96 := length_weapons
  rw [countWeaponsInLoc, countLoop_eq (by rw [length_drop]; omega), Nat.zero_add]
  rfl

theorem typeLoop_eq {rounds i : Nat} (hlt : ((weapons mechWeapons mech).drop i).length < rounds)
    (count more : Nat) : typeLoop mechWeapons mech loc (count + more + 1) rounds i count =
      some (((((weapons mechWeapons mech).drop i).filter fun e => e.1 = loc)[more]?.map
        fun e => ticNum mechWeapons mech false e.1 e.2).getD (-1)) := by
  induction rounds generalizing i count more with
  | zero => exact absurd hlt (Nat.not_lt_zero _)
  | succ rounds ih =>
    rw [typeLoop, findWeaponNumberOnMech_eq]
    cases here : (weapons mechWeapons mech)[i]? with
    | none =>
      rw [drop_eq_nil_of_le (getElem?_eq_none_iff.mp here)]
      rfl
    | some e =>
      rw [drop_weapons here] at hlt ⊢
      simp only [if_neg (ticNum_ne (mem_of_getElem? here)), map_some,
        Option.some.injEq, filter_cons]
      by_cases mine : e.1 = loc
      · simp only [mine, decide_true, if_true]
        cases more with
        | zero => simp [mine]
        | succ more =>
          rw [if_neg (by omega), getElem?_cons_succ,
            ← ih (Nat.lt_of_succ_lt_succ hlt) (count + 1) more]
          congr 1
          omega
      · simp only [mine, decide_false, if_false, Bool.false_eq_true]
        exact ih (Nat.lt_of_succ_lt_succ hlt) count more

theorem findWeaponTypeNumInLoc_eq (more : Nat) :
    findWeaponTypeNumInLoc mechWeapons mech loc (more + 1) =
      some (((others mechWeapons mech loc)[more]?.map fun e =>
        ticNum mechWeapons mech false e.1 e.2).getD (-1)) := by
  have all : (weapons mechWeapons mech).length ≤ 96 := length_weapons
  have loop := @typeLoop_eq mechWeapons mech loc 97 1 (by rw [length_drop]; omega) 0 more
  rw [Nat.zero_add] at loop
  exact loop

/-! ## Destruction -/

theorem has_twoPow (word : BitVec 32) {i : Nat} (hin : i < 32) :
    has word (BitVec.twoPow 32 i) = word.getLsbD i := by
  rw [has, BitVec.and_twoPow]
  have some : BitVec.twoPow 32 i ≠ 0#32 := by
    intro none
    have eq := congrArg (BitVec.getLsbD · i) none
    simp [hin] at eq
  cases word.getLsbD i <;> simp [some]

theorem has_or (word one o : BitVec 32) :
    has word (one ||| o) = (has word one || has word o) := by
  have split (a b : BitVec 32) : (a ||| b != 0) = (a != 0 || b != 0) := by
    rw [Bool.eq_iff_iff, Bool.or_eq_true, bne_iff_ne, bne_iff_ne, bne_iff_ne, ← not_and_or]
    exact not_congr BitVec.or_eq_zero_iff
  rw [has, has, has, BitVec.and_or_distrib_left]
  exact split _ _

theorem isNonfunctional_eq (slot : Ammo.CriticalSlot) : slot.isNonfunctional =
    (slot.firemode.getLsbD 1 || slot.firemode.getLsbD 2 || slot.firemode.getLsbD 0) := by
  have disabled := has_twoPow slot.firemode (show 1 < 32 by decide)
  have broken := has_twoPow slot.firemode (show 2 < 32 by decide)
  have destroyed := has_twoPow slot.firemode (show 0 < 32 by decide)
  rw [Ammo.CriticalSlot.isNonfunctional, has_or, ← disabled, ← broken, ← destroyed,
    show BitVec.twoPow 32 1 = disabledMode from rfl, show BitVec.twoPow 32 2 = brokenMode from rfl,
    show BitVec.twoPow 32 0 = destroyedMode from rfl]
  cases has slot.firemode disabledMode <;> cases has slot.firemode destroyedMode <;>
    cases has slot.firemode brokenMode <;> rfl

abbrev Mech.isDestroyed (mech : Mech) (place : Place) : Bool :=
  has (mech.criticals place).firemode destroyedMode

/-- Some slots of a section are put out of order, and nothing else is changed. -/
structure Hurts (loc : Section) (slots : List Critical) (mech mech' : Mech) : Prop where
  hurt : ∀ i ∈ slots, (mech'.criticals (loc, i)).isNonfunctional = true
  elsewhere : ∀ place, (∀ i ∈ slots, place ≠ (loc, i)) →
    mech'.criticals place = mech.criticals place ∧
      mech'.weapDamageFlags place = mech.weapDamageFlags place ∧ mech'.brand place = mech.brand place
  type : ∀ place, (mech'.criticals place).type = (mech.criticals place).type
  kept : ∀ place, (mech.criticals place).isNonfunctional = true →
    (mech'.criticals place).isNonfunctional = true
  destroyed : ∀ place, mech.isDestroyed place = true → mech'.isDestroyed place = true
  rest : mech'.isMech = mech.isMech ∧ mech'.isGroundVehicle = mech.isGroundVehicle ∧
    mech'.recycle = mech.recycle ∧ mech'.sectIsDestroyed = mech.sectIsDestroyed

theorem Hurts.cons {i : Critical} {slots : List Critical} (first : Hurts loc [i] mech mech')
    (later : Hurts loc slots mech' mech'') : Hurts loc (i :: slots) mech mech'' where
  hurt := forall_mem_cons.mpr
    ⟨later.kept _ (first.hurt i mem_cons_self), later.hurt⟩
  elsewhere place away := by
    obtain ⟨here, behind⟩ := forall_mem_cons.mp away
    obtain ⟨slot, flags, brand⟩ := later.elsewhere place behind
    obtain ⟨slot', flags', brand'⟩ := first.elsewhere place (by simpa using here)
    exact ⟨slot.trans slot', flags.trans flags', brand.trans brand'⟩
  type place := (later.type place).trans (first.type place)
  kept place out := later.kept place (first.kept place out)
  destroyed place gone := later.destroyed place (first.destroyed place gone)
  rest := ⟨later.rest.1.trans first.rest.1, later.rest.2.1.trans first.rest.2.1,
    later.rest.2.2.1.trans first.rest.2.2.1, later.rest.2.2.2.trans first.rest.2.2.2⟩

theorem Hurts.congr {slots slots' : List Critical} (hurts : Hurts loc slots mech mech')
    (eq : ∀ i, i ∈ slots ↔ i ∈ slots') : Hurts loc slots' mech mech' :=
  { hurts with
    hurt := fun i mem => hurts.hurt i ((eq i).mpr mem)
    elsewhere := fun place away => hurts.elsewhere place fun i mem => away i ((eq i).mp mem) }

theorem Hurts.of_update {i : Critical} {slot : Ammo.CriticalSlot}
    (changed : mech'.criticals = Function.update mech.criticals (loc, i) slot)
    (type : slot.type = (mech.criticals (loc, i)).type) (out : slot.isNonfunctional = true)
    (destroyed : mech.isDestroyed (loc, i) = true → has slot.firemode destroyedMode = true)
    (away : ∀ place, place ≠ (loc, i) → mech'.weapDamageFlags place = mech.weapDamageFlags place ∧
      mech'.brand place = mech.brand place)
    (rest : mech'.isMech = mech.isMech ∧ mech'.isGroundVehicle = mech.isGroundVehicle ∧
      mech'.recycle = mech.recycle ∧ mech'.sectIsDestroyed = mech.sectIsDestroyed) :
    Hurts loc [i] mech mech' where
  hurt := by simpa [changed] using out
  elsewhere place o := by
    have o' := o i mem_cons_self
    exact ⟨by rw [changed, Function.update_of_ne o'], away place o'⟩
  type place := by
    by_cases eq : place = (loc, i)
    · rw [changed, eq, Function.update_self, type]
    · rw [changed, Function.update_of_ne eq]
  kept place was := by
    by_cases eq : place = (loc, i)
    · rw [changed, eq, Function.update_self, out]
    · rwa [changed, Function.update_of_ne eq]
  destroyed place was := by
    by_cases eq : place = (loc, i)
    · subst eq
      rw [Mech.isDestroyed, changed, Function.update_self]
      exact destroyed was
    · rwa [Mech.isDestroyed, changed, Function.update_of_ne eq]
  rest := rest

theorem destroyPart_self (mech : Mech) (place : Place) :
    (mech.destroyPart place).criticals place =
      { mech.criticals place with
        firemode := ((mech.criticals place).firemode ||| destroyedMode) &&&
          ~~~(brokenMode ||| disabledMode ||| damagedMode) } :=
  Function.update_self place _ _

theorem isDestroyed_destroyPart (mech : Mech) (place : Place) :
    (mech.destroyPart place).isDestroyed place = true := by
  have bit := has_twoPow (((mech.destroyPart place).criticals place).firemode)
    (show 0 < 32 by decide)
  rw [show BitVec.twoPow 32 0 = destroyedMode from rfl] at bit
  rw [Mech.isDestroyed, bit, destroyPart_self]
  simp [destroyedMode, brokenMode, disabledMode, damagedMode]

theorem isNonfunctional_of_isDestroyed {place : Place} (gone : mech.isDestroyed place = true) :
    (mech.criticals place).isNonfunctional = true := by
  rw [Ammo.CriticalSlot.isNonfunctional, Bool.or_eq_true]
  exact .inr gone

theorem hurts_destroyPart (mech : Mech) (i : Critical) :
    Hurts loc [i] mech (mech.destroyPart (loc, i)) := by
  have gone := isDestroyed_destroyPart mech (loc, i)
  have out := isNonfunctional_of_isDestroyed gone
  refine .of_update rfl rfl ?_ (fun _ => ?_) (fun place o => ?_) ⟨rfl, rfl, rfl, rfl⟩
  · rwa [destroyPart_self] at out
  · rwa [Mech.isDestroyed, destroyPart_self] at gone
  · exact ⟨Function.update_of_ne o _ _, Function.update_of_ne o _ _⟩

theorem hurts_breakPart (mech : Mech) (i : Critical) :
    Hurts loc [i] mech (mech.breakPart (loc, i)) := by
  refine .of_update rfl rfl ?_ (fun was => ?_) (fun _ _ => ⟨rfl, rfl⟩) ⟨rfl, rfl, rfl, rfl⟩
  · rw [isNonfunctional_eq]
    simp [brokenMode]
  · have bit := has_twoPow (mech.criticals (loc, i)).firemode (show 0 < 32 by decide)
    have bit' := has_twoPow ((mech.criticals (loc, i)).firemode ||| brokenMode)
      (show 0 < 32 by decide)
    rw [show BitVec.twoPow 32 0 = destroyedMode from rfl] at bit bit'
    rw [Mech.isDestroyed, bit] at was
    rw [bit', BitVec.getLsbD_or, was]
    rfl

theorem destroySlots_filter {type : Nat} {numcrits totalcrits sum destroyed : Int}
    (slots : List Critical) :
    destroySlots loc type numcrits totalcrits sum destroyed slots mech =
      destroySlots loc type numcrits totalcrits sum destroyed
        (slots.filter fun i => (mech.criticals (loc, i)).type.toNat = type) mech := by
  induction slots generalizing sum destroyed mech with
  | nil => rfl
  | cons i rest ih =>
    by_cases mine : (mech.criticals (loc, i)).type.toNat = type
    · have later (wounded : Mech) (hurts : Hurts loc [i] mech wounded) :
          (rest.filter fun i => (mech.criticals (loc, i)).type.toNat = type) =
            rest.filter fun i => (wounded.criticals (loc, i)).type.toNat = type :=
        filter_congr fun j _ => by rw [hurts.type]
      rw [filter_cons_of_pos (by simpa using mine), destroySlots, destroySlots, if_pos mine,
        if_pos mine]
      split_ifs
      · rfl
      · rw [later _ (hurts_destroyPart mech i)]
        exact ih
      · rfl
      · rw [later _ (hurts_destroyPart mech i)]
        exact ih
      · rfl
      · rw [later _ (hurts_breakPart mech i)]
        exact ih
    · rw [filter_cons_of_neg (by simpa using mine), destroySlots, if_neg mine,
        ih]

theorem destroySlots_block {type : Nat} {totalcrits sum destroyed : Int}
    (block more : List Critical)
    (some : block ≠ []) (full : sum + block.length = totalcrits)
    (types : ∀ i ∈ block, (mech.criticals (loc, i)).type.toNat = type) :
    Hurts loc block mech (destroySlots loc type 1 totalcrits sum destroyed (block ++ more) mech) ∧
      (destroyed = 0 → (destroySlots loc type 1 totalcrits sum destroyed (block ++ more)
        mech).isDestroyed (loc, block.headD 0) = true) := by
  induction block generalizing sum destroyed mech with
  | nil => exact absurd rfl some
  | cons i block ih =>
    rw [length_cons] at full
    push_cast at full
    have goesOn (wounded : Mech) (destroyed' : Int) (hurts : Hurts loc [i] mech wounded)
        (gone : destroyed = 0 → wounded.isDestroyed (loc, i) = true) :
        let result := if sum + 1 = totalcrits then wounded
          else destroySlots loc type 1 totalcrits (sum + 1) destroyed' (block ++ more) wounded
        Hurts loc (i :: block) mech result ∧
          (destroyed = 0 → result.isDestroyed (loc, i) = true) := by
      dsimp only
      split_ifs with last
      · obtain rfl : block = [] := eq_nil_of_length_eq_zero (by omega)
        exact ⟨hurts, gone⟩
      · have later := (@ih wounded (sum + 1) destroyed'
          (fun none => last (by rw [none, length_nil] at full; omega)) (by omega)
          fun j mem => (by rw [hurts.type]; exact types j (mem_cons_of_mem i mem))).1
        exact ⟨hurts.cons later, fun none => later.destroyed _ (gone none)⟩
    rw [cons_append, destroySlots, if_pos (types i mem_cons_self)]
    simp only [headD_cons]
    by_cases damaged : mech.partIsDamaged (loc, i) = true
    · simp only [damaged, if_true]
      exact goesOn _ _ (hurts_destroyPart mech i) fun _ => isDestroyed_destroyPart mech (loc, i)
    · by_cases first : destroyed < 1
      · simp only [damaged, first, if_true, Bool.false_eq_true, if_false]
        exact goesOn _ _ (hurts_destroyPart mech i) fun _ => isDestroyed_destroyPart mech (loc, i)
      · simp only [damaged, first, Bool.false_eq_true, if_false]
        exact goesOn _ _ (hurts_breakPart mech i) fun none => absurd none (by omega)

/-! ## Weapons and their slots -/

def slotsOf (mechWeapons : Int → Weapon) (mech : Mech) (found : Found) : List Critical :=
  (List.finRange 12).filter fun i =>
    decide (found.critical ≤ i ∧
      (i.val : Int) < found.critical.val + getWeaponCrits mechWeapons mech.toMech found.weapon)

structure Destroys (mechWeapons : Int → Weapon) (loc : Section) (found : Found) (mech mech' : Mech) :
    Prop extends Hurts loc (slotsOf mechWeapons mech found) mech mech' where
  gone : mech'.isDestroyed (loc, found.critical) = true

theorem mem_slotsOf {groups : List (List Critical)} (grouped : Grouped mechWeapons mech loc groups)
    {group : List Critical} (mem : group ∈ groups) {i : Critical} :
    i ∈ group ↔ i ∈ slotsOf mechWeapons mech (noted mech loc group) := by
  obtain ⟨k, first, more, rfl, kinds, full⟩ := grouped.of_mem mem
  have places : (List.finRange 12).map Fin.val = List.range' 0 (List.finRange 12).length := by
    decide
  obtain ⟨start, -, -, is⟩ := grouped.consecutive places mem
  have here : first.val = start := by
    rw [map_cons, length_cons, range'_succ] at is
    exact (cons.inj is).1
  have size : getWeaponCrits mechWeapons mech.toMech (noted mech loc (first :: more)).weapon =
      ((first :: more).length : Int) := by
    rw [full]
    congr 1
    exact (kindAt_eq_some.mp (kinds first mem_cons_self)).2
  have hin : i ∈ first :: more ↔ i.val ∈ (first :: more).map Fin.val := by
    rw [List.mem_map]
    exact ⟨fun mine => ⟨i, mine, rfl⟩, fun ⟨j, mine, eq⟩ => Fin.ext eq ▸ mine⟩
  rw [hin, is, mem_range'_1, slotsOf, mem_filter, decide_eq_true_eq, size, Fin.le_def]
  simp only [mem_finRange, true_and, noted, headD_cons]
  omega

theorem i2Weapon_eq (t : Nat) : i2Weapon (weapon2I t) = t := by
  simp only [i2Weapon, weapon2I]
  omega

theorem destroyWeapon_first {pre post : List Found} {hf : Found}
    (whole : weaponsIn mechWeapons mech loc = pre ++ hf :: post)
    (passed : ∀ earlier ∈ pre, earlier.weapon ≠ hf.weapon) :
    ∃ firstCrit, findFirstCrit mech loc (i2Weapon hf.weapon) = some firstCrit ∧
      Destroys mechWeapons loc hf mech (destroyWeapon mech loc (i2Weapon hf.weapon).toNat
        firstCrit 1 (getWeaponCrits mechWeapons mech.toMech hf.weapon)) := by
  have here : hf ∈ weaponsIn mechWeapons mech loc := by rw [whole]; simp
  obtain ⟨groups, grouped, is⟩ := groups_of_mem here
  obtain ⟨earlier, behind, split, rfl, cut⟩ := map_eq_append_iff.mp (is.symm.trans whole)
  obtain ⟨group, later, rfl, rfl, rfl⟩ := map_eq_cons_iff.mp cut
  subst split
  have mem : group ∈ earlier ++ group :: later := by simp
  obtain ⟨k, first, more, rfl, kinds, full⟩ := grouped.of_mem mem
  obtain ⟨weapon, named⟩ := kindAt_eq_some.mp (kinds first mem_cons_self)
  have kindIs : (noted mech loc (first :: more)).weapon = k := named
  obtain ⟨t, typed⟩ : ∃ t, (mech.criticals (loc, first)).type.toNat = t := ⟨_, rfl⟩
  rw [typed] at weapon named
  subst named
  -- slots of the type are those of the weapon, and then those of later ones
  obtain ⟨rest, crits⟩ := grouped.filter_first (k := weapon2I t) (fun o hin a mine eq => by
    obtain ⟨k', first', more', rfl, kinds', -⟩ := grouped.of_mem (mem_append_left _ hin)
    have otherKind : k' = weapon2I t :=
      some.inj ((kinds' a mine).symm.trans eq)
    refine passed _ (mem_map_of_mem hin) (Eq.trans ?_ kindIs.symm)
    rw [← otherKind]
    exact (kindAt_eq_some.mp (kinds' first' mem_cons_self)).2) kinds
  have typeCrits : ((List.finRange 12).filter fun i =>
      decide ((mech.criticals (loc, i)).type.toNat = t)) = first :: more ++ rest := by
    rw [← crits]
    exact filter_congr fun i _ => decide_eq_decide.mpr (type_eq_iff weapon i)
  rw [kindIs, i2Weapon_eq t, Int.toNat_natCast]
  refine ⟨first, ?_, ?_⟩
  · rw [findFirstCrit, ← head?_filter]
    simp only [Nat.cast_inj, typeCrits, cons_append, head?_cons]
  · have ordered : (first :: (more ++ rest)).Pairwise (· < ·) := by
      rw [← cons_append, ← typeCrits]
      exact (pairwise_lt_finRange 12).filter _
    have onward : ((List.finRange 12).filter fun i => decide (first ≤ i)).filter
        (fun i => decide ((mech.criticals (loc, i)).type.toNat = t)) = first :: more ++ rest := by
      rw [List.filter_filter]
      simp only [Bool.and_comm (decide ((mech.criticals (loc, _)).type.toNat = t))]
      rw [← List.filter_filter, typeCrits]
      refine filter_eq_self.mpr fun i hin => decide_eq_true ?_
      rcases mem_cons.mp hin with rfl | further
      · exact le_refl i
      · exact ((pairwise_cons.mp ordered).1 i further).le
    rw [destroyWeapon, destroySlots_filter, onward]
    obtain ⟨hurts, gone⟩ := @destroySlots_block mech loc t
      (getWeaponCrits mechWeapons mech.toMech (weapon2I t)) 0 0 (first :: more) rest (by simp)
      (by rw [← full, zero_add]) fun i hin => (type_eq_iff weapon i).mpr (kinds i hin)
    exact ⟨hurts.congr fun i => mem_slotsOf grouped mem, gone rfl⟩

/-! ## Loss -/

def working (mechWeapons : Int → Weapon) (mech : Mech) (loc : Section) : List Found :=
  (weaponsIn mechWeapons mech loc).filter fun found =>
    (mech.criticals (loc, found.critical)).isNonfunctional = false

structure Loses (mechWeapons : Int → Weapon) (mech : Mech) (loc : Section) : Prop where
  /-- `CountWeaponsInLoc` counts the weapons that work. -/
  counted : countWeaponsInLoc mechWeapons mech loc = some (working mechWeapons mech loc).length
  /-- `FindWeaponTypeNumInLoc` goes through them. -/
  enumerated : ((List.range (working mechWeapons mech loc).length).map fun num =>
    findWeaponTypeNumInLoc mechWeapons mech loc (num + 1)).Perm
      ((working mechWeapons mech loc).map fun found => some found.weapon)
  /-- `LoseWeapon` destroys one of them. -/
  lost : working mechWeapons mech loc ≠ [] → ∀ random,
    ∃ found ∈ working mechWeapons mech loc, ∃ mech',
      loseWeapon mechWeapons mech loc random = some mech' ∧
        Destroys mechWeapons loc found mech mech'

/-- A weapon works, is not recycling or reloading, and neither is its section after an attack. -/
def Idle (mech : Mech) (loc : Section) (found : Found) : Prop :=
  (mech.criticals (loc, found.critical)).isNonfunctional = false ∧ found.data.toNat = 0 ∧
    ¬ (mech.recycle loc = true ∧ (mech.isMech = true ∨ mech.isGroundVehicle = true))

/-- All weapons of the section are idle, but for the first of the mech: if that is in the section,
it is out of order, and of another type than the others there. -/
structure Losable (mechWeapons : Int → Weapon) (mech : Mech) (loc : Section) : Prop where
  idle : ∀ entry ∈ others mechWeapons mech loc, Idle mech loc entry.2
  first : ∀ found, (weapons mechWeapons mech)[0]? = some (loc, found) →
    (mech.criticals (loc, found.critical)).isNonfunctional = true ∧
      ∀ entry ∈ others mechWeapons mech loc, entry.2.weapon ≠ found.weapon

theorem ticNum_idle {hf : Found} (idle : Idle mech loc hf) :
    ticNum mechWeapons mech false loc hf = hf.weapon := by
  obtain ⟨works, loaded, still⟩ := idle
  rw [ticNum, if_neg (by simp [works]), if_neg (by omega),
    if_neg fun busy => still ⟨busy.1, busy.2.1⟩]

theorem idle_of_ticNum {hf : Found} (named : 0 ≤ ticNum mechWeapons mech false loc hf) :
    Idle mech loc hf := by
  rw [ticNum] at named
  split_ifs at named with broken loaded beam busy
  · exact absurd named (by decide)
  · exact absurd named (by decide)
  · exact absurd named (by decide)
  · exact absurd named (by decide)
  · exact ⟨by simpa using broken, by simpa using loaded, fun physical => busy
      ⟨physical.1, physical.2, rfl⟩⟩

theorem weapons_filter : ((weapons mechWeapons mech).filter fun e => e.1 = loc) =
    (weaponsIn mechWeapons mech loc).map fun hf => (loc, hf) := by
  have each (sections : List Section) (once : sections.Nodup) :
      ((sections.flatMap fun loop =>
        (weaponsIn mechWeapons mech loop).map fun hf => (loop, hf)).filter
          fun e => e.1 = loc) =
        if loc ∈ sections then (weaponsIn mechWeapons mech loc).map fun hf => (loc, hf)
        else [] := by
    induction sections with
    | nil => rfl
    | cons loop rest ih =>
      obtain ⟨away, once'⟩ := nodup_cons.mp once
      rw [flatMap_cons, filter_append, ih once', List.filter_map]
      by_cases mine : loop = loc
      · subst mine
        have all : (weaponsIn mechWeapons mech loop).filter
            ((fun e : Section × Found => decide (e.1 = loop)) ∘ fun hf =>
              (loop, hf)) = weaponsIn mechWeapons mech loop :=
          filter_eq_self.mpr fun _ _ => decide_eq_true rfl
        rw [all, if_neg away, if_pos mem_cons_self, append_nil]
      · have none : (weaponsIn mechWeapons mech loop).filter
            ((fun e : Section × Found => decide (e.1 = loc)) ∘ fun hf =>
              (loop, hf)) = [] :=
          filter_eq_nil_iff.mpr fun _ _ => by simpa using mine
        have o : loc ∈ loop :: rest ↔ loc ∈ rest := by
          simp [Ne.symm mine]
        simp only [none, map_nil, nil_append, o]
  rw [weapons, each _ (nodup_finRange 8), if_pos (mem_finRange loc)]

theorem others_cases :
    (∃ hf, (weapons mechWeapons mech)[0]? = some (loc, hf) ∧
      (weaponsIn mechWeapons mech loc).map (fun hf => (loc, hf)) =
        (loc, hf) :: others mechWeapons mech loc) ∨
    ((∀ hf, (weapons mechWeapons mech)[0]? ≠ some (loc, hf)) ∧
      (weaponsIn mechWeapons mech loc).map (fun hf => (loc, hf)) =
        others mechWeapons mech loc) := by
  rw [← weapons_filter, others]
  cases all : weapons mechWeapons mech with
  | nil => exact .inr ⟨fun _ => by simp, rfl⟩
  | cons e rest =>
    obtain ⟨loop, hf⟩ := e
    by_cases mine : loop = loc
    · subst mine
      exact .inl ⟨hf, rfl, by simp⟩
    · exact .inr ⟨fun other eq => mine (by simpa using congrArg (Option.map Prod.fst) eq),
        by simp [mine]⟩

theorem loseWeapon_eq {random : Nat} {e : Section × Found}
    (chosen : (others mechWeapons mech loc)[random % (others mechWeapons mech loc).length]? =
      some e) (idle : Idle mech loc e.2) (nonneg : 0 ≤ e.2.weapon)
    {pre post : List Found} {hf : Found}
    (whole : weaponsIn mechWeapons mech loc = pre ++ hf :: post)
    (passed : ∀ earlier ∈ pre, earlier.weapon ≠ hf.weapon)
    (eq : hf.weapon = e.2.weapon) :
    ∃ mech', loseWeapon mechWeapons mech loc random = some mech' ∧
      Destroys mechWeapons loc hf mech mech' := by
  have some' : (others mechWeapons mech loc).length ≠ 0 := fun none => by
    rw [eq_nil_of_length_eq_zero none] at chosen
    exact absurd chosen (by simp)
  have mine : e.1 = loc :=
    of_decide_eq_true (mem_filter.mp (mem_of_getElem? chosen)).2
  obtain ⟨firstCrit, searched, destroys⟩ := destroyWeapon_first whole passed
  rw [eq] at searched destroys
  refine ⟨_, ?_, destroys⟩
  rw [loseWeapon, countWeaponsInLoc_eq, bind_some, if_neg some', findWeaponTypeNumInLoc_eq,
    chosen, map_some, getD_some, bind_some, mine, ticNum_idle idle,
    if_neg (Int.not_lt.mpr nonneg), searched]
  rfl

theorem eq_of_mem_slotsOf {hf o : Found} (mem : hf ∈ weaponsIn mechWeapons mech loc)
    (member' : o ∈ weaponsIn mechWeapons mech loc)
    (shared : o.critical ∈ slotsOf mechWeapons mech hf) : o = hf := by
  obtain ⟨groups, grouped, is⟩ := groups_of_mem mem
  rw [is] at mem member'
  obtain ⟨group, hin, rfl⟩ := List.mem_map.mp mem
  obtain ⟨group', hin', rfl⟩ := List.mem_map.mp member'
  have once : groups.flatten.Nodup := by
    rw [grouped.flatten]
    exact (nodup_finRange 12).filter _
  obtain ⟨k, first, more, rfl, -⟩ := grouped.of_mem hin'
  have here : first ∈ group := (mem_slotsOf grouped hin).mpr shared
  by_contra ne
  have : Std.Symm (List.Disjoint (α := Critical)) := ⟨fun _ _ => List.Disjoint.symm⟩
  have apart : List.Disjoint group (first :: more) :=
    (nodup_flatten.mp once).2.forall hin hin' fun eq => ne (eq ▸ rfl)
  exact apart here mem_cons_self

theorem destroys_one {hf o : Found} (mem : hf ∈ weaponsIn mechWeapons mech loc)
    (works : o ∈ working mechWeapons mech loc)
    (one : Destroys mechWeapons loc hf mech mech')
    (two : Destroys mechWeapons loc o mech mech') : o = hf := by
  obtain ⟨member', functional⟩ := mem_filter.mp works
  by_cases shared : o.critical ∈ slotsOf mechWeapons mech hf
  · exact eq_of_mem_slotsOf mem member' shared
  · -- its first slot is unchanged, and was destroyed before
    have eq := (one.elsewhere (loc, o.critical) fun i hin equal =>
      shared ((Prod.mk.inj equal).2 ▸ hin)).1
    have gone : mech.isDestroyed (loc, o.critical) = true := by
      rw [Mech.isDestroyed, ← eq]
      exact two.gone
    rw [isNonfunctional_of_isDestroyed gone] at functional
    exact absurd functional (by decide)

theorem exists_first {e : Found} (mem : e ∈ weaponsIn mechWeapons mech loc) :
    ∃ pre hf post, weaponsIn mechWeapons mech loc = pre ++ hf :: post ∧
      hf.weapon = e.weapon ∧ ∀ earlier ∈ pre, earlier.weapon ≠ hf.weapon := by
  have some : ((weaponsIn mechWeapons mech loc).find? fun hf =>
      decide (hf.weapon = e.weapon)).isSome = true :=
    find?_isSome.mpr ⟨e, mem, decide_eq_true rfl⟩
  obtain ⟨hf, first⟩ := isSome_iff_exists.mp some
  obtain ⟨eq, pre, post, whole, passed⟩ := find?_eq_some_iff_append.mp first
  rw [decide_eq_true_eq] at eq
  refine ⟨pre, hf, post, whole, eq, fun earlier hin equal => ?_⟩
  have := passed earlier hin
  simp [equal, eq] at this

theorem mem_others {e : Section × Found} (mem : e ∈ others mechWeapons mech loc) :
    e.1 = loc ∧ e.2 ∈ weaponsIn mechWeapons mech loc := by
  obtain ⟨hin, mine⟩ := mem_filter.mp mem
  have mine : e.1 = loc := of_decide_eq_true mine
  exact ⟨mine, mine ▸ mem_weapons (mem_of_mem_drop hin)⟩

theorem loseWeapon_idle (idle : ∀ e ∈ others mechWeapons mech loc, Idle mech loc e.2)
    {random : Nat} {e : Section × Found}
    (chosen : (others mechWeapons mech loc)[random % (others mechWeapons mech loc).length]? =
      some e) :
    ∃ pre hf post mech', weaponsIn mechWeapons mech loc = pre ++ hf :: post ∧
      hf.weapon = e.2.weapon ∧ (∀ earlier ∈ pre, earlier.weapon ≠ hf.weapon) ∧
      loseWeapon mechWeapons mech loc random = some mech' ∧
      Destroys mechWeapons loc hf mech mech' := by
  have hin := mem_of_getElem? chosen
  obtain ⟨-, mem⟩ := mem_others hin
  obtain ⟨pre, hf, post, whole, eq, passed⟩ := exists_first mem
  obtain ⟨mech', lost, destroys⟩ :=
    loseWeapon_eq chosen (idle e hin) (weapon_nonneg mem) whole passed eq
  exact ⟨pre, hf, post, mech', whole, eq, passed, lost, destroys⟩

theorem enumerated_idle (idle : ∀ e ∈ others mechWeapons mech loc, Idle mech loc e.2) :
    ((List.range (others mechWeapons mech loc).length).map fun num =>
      findWeaponTypeNumInLoc mechWeapons mech loc (num + 1)) =
        (others mechWeapons mech loc).map fun e => some e.2.weapon := by
  refine ext_getElem (by simp) fun num low _ => ?_
  rw [length_map, length_range] at low
  have hin := getElem_mem low
  rw [getElem_map, getElem_range, findWeaponTypeNumInLoc_eq, getElem_map,
    getElem?_eq_getElem low, map_some, getD_some, (mem_others hin).1,
    ticNum_idle (idle _ hin)]

theorem working_losable (losable : Losable mechWeapons mech loc) :
    (working mechWeapons mech loc).map (fun hf => (loc, hf)) =
      others mechWeapons mech loc := by
  have all : ((others mechWeapons mech loc).filter fun e =>
      (mech.criticals (loc, e.2.critical)).isNonfunctional = false) =
        others mechWeapons mech loc :=
    filter_eq_self.mpr fun e mem => decide_eq_true (losable.idle e mem).1
  have filtered : (working mechWeapons mech loc).map (fun hf => (loc, hf)) =
      ((weaponsIn mechWeapons mech loc).map fun hf => (loc, hf)).filter fun e =>
        (mech.criticals (loc, e.2.critical)).isNonfunctional = false := by
    rw [List.filter_map]
    rfl
  rw [filtered]
  rcases @others_cases mechWeapons mech loc with
    ⟨hf, first, whole⟩ | ⟨-, whole⟩
  · rw [whole, filter_cons_of_neg (by simp [(losable.first hf first).1]), all]
  · rw [whole, all]

theorem Losable.loses (losable : Losable mechWeapons mech loc) : Loses mechWeapons mech loc := by
  have eq := working_losable losable
  have count : (working mechWeapons mech loc).length = (others mechWeapons mech loc).length := by
    rw [← eq, length_map]
  refine ⟨by rw [countWeaponsInLoc_eq, count], ?_, fun some random => ?_⟩
  · rw [count, enumerated_idle losable.idle, ← eq, List.map_map]
    exact List.Perm.refl _
  · have pos : 0 < (others mechWeapons mech loc).length := by
      rw [← count]
      exact length_pos_iff.mpr some
    have low := Nat.mod_lt random pos
    have chosen := getElem?_eq_getElem low
    obtain ⟨pre, hf, post, mech', whole, type, passed, lost, destroys⟩ :=
      loseWeapon_idle losable.idle chosen
    refine ⟨hf, ?_, mech', lost, destroys⟩
    have mem : hf ∈ weaponsIn mechWeapons mech loc := by rw [whole]; simp
    -- it is not the first weapon of the mech, for that is of another type
    have among : (loc, hf) ∈ others mechWeapons mech loc := by
      have listed := mem_map_of_mem (f := fun hf => (loc, hf)) mem
      rcases @others_cases mechWeapons mech loc with
        ⟨first, is, all⟩ | ⟨-, all⟩
      · rw [all] at listed
        rcases mem_cons.mp listed with equal | further
        · exact absurd (type.symm.trans (congrArg (fun e => e.2.weapon) equal))
            ((losable.first first is).2 _ (getElem_mem low))
        · exact further
      · rwa [all] at listed
    rw [← eq] at among
    obtain ⟨o, works, equal⟩ := List.mem_map.mp among
    exact (Prod.mk.inj equal).2 ▸ works

theorem Loses.losable (loses : Loses mechWeapons mech loc) : Losable mechWeapons mech loc := by
  have count : (others mechWeapons mech loc).length = (working mechWeapons mech loc).length :=
    some.inj (countWeaponsInLoc_eq.symm.trans loses.counted)
  have idle : ∀ e ∈ others mechWeapons mech loc, Idle mech loc e.2 := fun e mem => by
    -- its number is among those of the weapons that work, and is a type
    obtain ⟨num, low, rfl⟩ := getElem_of_mem mem
    have among : some (ticNum mechWeapons mech false loc (others mechWeapons mech loc)[num].2) ∈
        (working mechWeapons mech loc).map fun hf => some hf.weapon := by
      refine loses.enumerated.subset (List.mem_map.mpr ⟨num, List.mem_range.mpr (by omega), ?_⟩)
      rw [findWeaponTypeNumInLoc_eq, List.getElem?_eq_getElem low, Option.map_some,
        Option.getD_some, (mem_others mem).1]
    obtain ⟨hf, works, is⟩ := List.mem_map.mp among
    refine @idle_of_ticNum mechWeapons mech loc _ ?_
    rw [← Option.some.inj is]
    exact weapon_nonneg (List.mem_filter.mp works).1
  refine ⟨idle, fun first is => ?_⟩
  rcases @others_cases mechWeapons mech loc with
    ⟨hf, here, whole⟩ | ⟨away, -⟩
  · obtain rfl : hf = first := by simpa [here] using is
    have parts : weaponsIn mechWeapons mech loc =
        hf :: (others mechWeapons mech loc).map Prod.snd := by
      have := congrArg (List.map Prod.snd) whole
      rwa [List.map_map, map_cons, show Prod.snd ∘ (fun hf : Found => (loc, hf)) = id
        from rfl, List.map_id] at this
    have all : (((others mechWeapons mech loc).map Prod.snd).filter fun hf =>
        (mech.criticals (loc, hf.critical)).isNonfunctional = false) =
          (others mechWeapons mech loc).map Prod.snd :=
      List.filter_eq_self.mpr fun o mem => by
        obtain ⟨e, hin, rfl⟩ := List.mem_map.mp mem
        exact decide_eq_true (idle e hin).1
    have broken : (mech.criticals (loc, hf.critical)).isNonfunctional = true := by
      by_contra works
      rw [Bool.not_eq_true] at works
      rw [working, parts, filter_cons_of_pos (by simp [works]), all, length_cons,
        length_map] at count
      omega
    refine ⟨broken, fun e mem eq => ?_⟩
    obtain ⟨num, low, rfl⟩ := getElem_of_mem mem
    have chosen : (others mechWeapons mech loc)[num % (others mechWeapons mech loc).length]? =
        some (others mechWeapons mech loc)[num] := by
      rw [Nat.mod_eq_of_lt low, getElem?_eq_getElem low]
    obtain ⟨mech', lost, destroys⟩ := @loseWeapon_eq mechWeapons mech loc num _ chosen
      (idle _ mem) (weapon_nonneg (mem_others mem).2) [] _ hf parts (by simp) eq.symm
    have some' : working mechWeapons mech loc ≠ [] := fun none => by
      rw [none, length_nil] at count
      omega
    obtain ⟨o, works, mech'', lost', destroys'⟩ := loses.lost some' num
    obtain rfl : mech' = mech'' := some.inj (lost.symm.trans lost')
    obtain rfl : o = hf :=
      destroys_one (by rw [parts]; exact mem_cons_self) works destroys destroys'
    have functional := of_decide_eq_true (mem_filter.mp works).2
    rw [functional] at broken
    exact absurd broken (by decide)
  · exact absurd is (away first)

/-- Any weapon of a section can be lost if and only if the weapons there are idle and the first of
the mech is not among those that work. -/
theorem loses_iff : Loses mechWeapons mech loc ↔ Losable mechWeapons mech loc :=
  ⟨Loses.losable, Losable.loses⟩

/-- The first weapon of the mech is not counted, and cannot be lost. -/
theorem first_not_lost :
    countWeaponsInLoc twoSlots (oneWeapon 0 0) 0 = some 0 ∧
      (working twoSlots (oneWeapon 0 0) 0).length = 1 ∧ ¬ Loses twoSlots (oneWeapon 0 0) 0 := by
  have count : countWeaponsInLoc twoSlots (oneWeapon 0 0) 0 = some 0 := by decide
  have works : (working twoSlots (oneWeapon 0 0) 0).length = 1 := by decide
  refine ⟨count, works, fun loses => ?_⟩
  have counted := loses.counted
  rw [count, works] at counted
  exact absurd counted (by decide)

end BattletechMux.Weapons
