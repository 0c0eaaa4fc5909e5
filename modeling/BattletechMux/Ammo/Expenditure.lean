/-
Module: BattletechMux.Ammo.Expenditure
Purpose: A shot that passed the check takes the rounds that it uses out of the bins of its weapon
  and touches nothing else; one-shot weapons and launchers mark their own slots instead.
-/
import BattletechMux.Ammo.Check

namespace BattletechMux.Ammo

open List
open Option hiding or or_assoc

variable {mechWeapons : Int → Weapon} {mech mech' mech'' : Mech} {weapindx : Nat}
variable {weap place : Place} {type : Nat} {nogof gof : BitVec 32}

/-- So many rounds of some ammo are gone, and nothing else has changed but the rounds in bins of that
ammo, which have become no more. -/
structure Spends (type : Nat) (nogof gof : BitVec 32) (n : Nat) (mech mech' : Mech) : Prop where
  total : mech'.rounds type nogof gof + n = mech.rounds type nogof gof
  isMech : mech'.isMech = mech.isMech
  fewer : ∀ place, ∃ data, data.toNat ≤ (mech.criticals place).data.toNat ∧
    mech'.criticals place = { mech.criticals place with data := data }
  others : ∀ place, (mech.criticals place).type.toNat ≠ type →
    mech'.criticals place = mech.criticals place

/-- Nothing has changed but bits set in the fire modes of a section. -/
structure Marks (index : Section) (mech mech' : Mech) : Prop where
  isMech : mech'.isMech = mech.isMech
  marked : ∀ place, ∃ bits : BitVec 32, mech'.criticals place =
    { mech.criticals place with firemode := (mech.criticals place).firemode ||| bits }
  others : ∀ place, place.1 ≠ index → mech'.criticals place = mech.criticals place

/-! ## Single bins -/

theorem Spends.refl (mech : Mech) : Spends type nogof gof 0 mech mech :=
  ⟨Nat.add_zero _, rfl, fun _ => ⟨_, Nat.le_refl _, rfl⟩, fun _ _ => rfl⟩

theorem Spends.trans {n n' : Nat} (one : Spends type nogof gof n mech mech')
    (two : Spends type nogof gof n' mech' mech'') :
    Spends type nogof gof (n + n') mech mech'' := by
  refine ⟨?_, two.isMech.trans one.isMech, fun place => ?_, fun place o => ?_⟩
  · rw [← one.total, ← two.total]
    omega
  · obtain ⟨data, less, eq⟩ := one.fewer place
    obtain ⟨data', less', same'⟩ := two.fewer place
    rw [eq] at less' same'
    exact ⟨data', Nat.le_trans less' less, same'⟩
  · have eq := one.others place o
    rw [← eq]
    exact two.others place (by rwa [eq])

theorem spends_setPartData (suits : (mech.criticals place).suits type nogof gof = true)
    {data : BitVec 8} {n : Nat} (taken : data.toNat + n = (mech.criticals place).data.toNat) :
    Spends type nogof gof n mech (mech.setPartData place data) := by
  refine ⟨?_, rfl, fun o => ?_, fun o apart => ?_⟩
  · have changed := rounds_setPartData suits data
    omega
  · unfold Mech.setPartData
    by_cases eq : o = place
    · subst eq
      exact ⟨data, by omega, change_self ..⟩
    · exact ⟨_, Nat.le_refl _, change_of_ne eq _⟩
  · have apart' : o ≠ place := by
      rintro rfl
      unfold CriticalSlot.suits at suits
      simp only [Bool.and_eq_true, beq_iff_eq] at suits
      exact apart suits.1.1.1
    exact change_of_ne apart' _

theorem toNat_sub_one {data : BitVec 8} (some : 0 < data.toNat) :
    (data - 1).toNat + 1 = data.toNat := by
  have below := data.isLt
  rw [BitVec.toNat_sub]
  change (2 ^ 8 - 1 + data.toNat) % 2 ^ 8 + 1 = _
  omega

theorem takeRound_spends (suits : (mech.criticals place).suits type nogof gof = true)
    (some : 0 < (mech.criticals place).data.toNat) :
    takeRound mech place = mech.setPartData place ((mech.criticals place).data - 1) ∧
      Spends type nogof gof 1 mech (takeRound mech place) := by
  have full : (mech.criticals place).data ≠ 0 := by
    intro none
    rw [none] at some
    exact absurd some (by decide)
  unfold takeRound
  rw [if_neg full]
  exact ⟨rfl, spends_setPartData suits (toNat_sub_one some)⟩

/-! ## Rotary and Gattling weapons -/

theorem countAmmoForWeapon_eq (mech : Mech) (weapindx : Nat) :
    countAmmoForWeapon mech weapindx = mech.rounds (i2Ammo weapindx) 0 0 := by
  unfold countAmmoForWeapon Mech.rounds
  refine congrArg List.sum (map_congr_left fun place _ => ?_)
  dsimp only
  have suits : (mech.criticals place).suits (i2Ammo weapindx) 0 0 = true ↔
      (mech.criticals place).type.toNat = i2Ammo weapindx ∧
        (mech.criticals place).isNonfunctional = false := by
    unfold CriticalSlot.suits
    simp
  split
  · next counted => rw [if_pos (suits.mpr ⟨counted.1, counted.2.1⟩)]
  · next uncounted =>
    split
    · next both =>
      obtain ⟨bin, works⟩ := suits.mp both
      exact (Nat.eq_zero_of_not_pos fun some => uncounted ⟨bin, works, some⟩).symm
    · rfl

theorem suits_any (suits : (mech.criticals place).suits type nogof gof = true) :
    (mech.criticals place).suits type 0 0 = true := by
  unfold CriticalSlot.suits at *
  simp only [Bool.and_eq_true] at suits
  simp [suits.1.1]

theorem rounds_le_count (mech : Mech) (weapindx : Nat) (nogof gof : BitVec 32) :
    mech.rounds (i2Ammo weapindx) nogof gof ≤ countAmmoForWeapon mech weapindx := by
  rw [countAmmoForWeapon_eq]
  unfold Mech.rounds
  rw [sum_places, sum_places]
  refine Finset.sum_le_sum fun place _ => ?_
  split
  · next suits => rw [if_pos (suits_any suits)]
  · exact Nat.zero_le _

theorem setPartData_type (data : BitVec 8) (o : Place) :
    ((mech.setPartData place data).criticals o).type = (mech.criticals o).type ∧
      ((mech.setPartData place data).criticals o).desiredAmmoLoc =
        (mech.criticals o).desiredAmmoLoc := by
  unfold Mech.setPartData
  by_cases eq : o = place
  · rw [eq, change_self]
    exact ⟨rfl, rfl⟩
  · rw [change_of_ne eq]
    exact ⟨rfl, rfl⟩

theorem findFirstWeaponCrit_setPartData (data : BitVec 8) (wLoc : Section) (wSlot : Critical)
    (wCritType : Nat) (wMaxCrits : Int) (depth : Nat) (start : Int) :
    findFirstWeaponCrit (mech.setPartData place data) wLoc wSlot wCritType wMaxCrits depth start =
      findFirstWeaponCrit mech wLoc wSlot wCritType wMaxCrits depth start := by
  induction depth generalizing start with
  | zero => rfl
  | succ depth ih =>
    unfold findFirstWeaponCrit
    simp only [(setPartData_type data _).1, ih]

section

variable (returns : (desiredLoc mechWeapons mech weap).isSome = true)
include returns

theorem returns_setPartData (place : Place) (data : BitVec 8) :
    (desiredLoc mechWeapons (mech.setPartData place data) weap).isSome = true := by
  unfold desiredLoc getWeaponCrits at *
  simp only [findFirstWeaponCrit_setPartData, (setPartData_type data _).1,
    (setPartData_type data _).2]
  exact returns

theorem search_returns {start : Section} :
    ∃ hf, findAmmoForWeaponSub mechWeapons mech weap weapindx start nogof gof = some hf := by
  obtain ⟨wDesiredLoc, hf⟩ := isSome_iff_exists.mp returns
  unfold findAmmoForWeaponSub
  rw [hf]
  exact ⟨_, rfl⟩

theorem takeRounds_spends {wShotsLeft : Nat} {last : Place}
    (ample : wShotsLeft = 0 ∨ 0 < mech.rounds (i2Ammo weapindx) ammoModes 0 ∧
      (wShotsLeft ≤ mech.rounds (i2Ammo weapindx) ammoModes 0 ∨
        countAmmoForWeapon mech weapindx = mech.rounds (i2Ammo weapindx) ammoModes 0))
    {rounds : Nat} (hlt : wShotsLeft ≤ rounds) :
    ∃ mech', takeRounds mechWeapons weapindx weap rounds mech last wShotsLeft = some mech' ∧
      Spends (i2Ammo weapindx) ammoModes 0
        (min wShotsLeft (mech.rounds (i2Ammo weapindx) ammoModes 0)) mech mech' := by
  induction rounds generalizing mech wShotsLeft last with
  | zero =>
    obtain rfl := Nat.le_zero.mp hlt
    rw [Nat.zero_min]
    exact ⟨mech, rfl, .refl mech⟩
  | succ rounds ih =>
    unfold takeRounds
    by_cases done : wShotsLeft = 0
    · rw [if_pos done, done, Nat.zero_min]
      exact ⟨mech, rfl, .refl mech⟩
    obtain ⟨some, ample⟩ := ample.resolve_left done
    obtain ⟨hf, searched⟩ := search_returns returns
    rw [if_neg done, searched, bind_some]
    cases hf with
    | none => exact absurd ((find_none_iff searched).mp rfl) (Nat.ne_of_gt some)
    | some gat =>
    obtain ⟨suits, full⟩ := find_some searched
    dsimp only [getD_some]
    have cur := (mech.criticals gat).data.isLt
    have left : (BitVec.ofNat 8 ((mech.criticals gat).data.toNat - wShotsLeft)).toNat =
        (mech.criticals gat).data.toNat - wShotsLeft := by
      rw [BitVec.toNat_ofNat, Nat.mod_eq_of_lt (by omega)]
    have taken : Spends (i2Ammo weapindx) ammoModes 0 (min wShotsLeft (mech.criticals gat).data.toNat)
        mech (mech.setPartData gat
          (BitVec.ofNat 8 ((mech.criticals gat).data.toNat - wShotsLeft))) :=
      spends_setPartData suits (by omega)
    have counted := rounds_setPartData (suits_any suits)
      (BitVec.ofNat 8 ((mech.criticals gat).data.toNat - wShotsLeft))
    have returns' := returns_setPartData returns gat
      (BitVec.ofNat 8 ((mech.criticals gat).data.toNat - wShotsLeft))
    rw [← countAmmoForWeapon_eq, ← countAmmoForWeapon_eq, left] at counted
    generalize mech.setPartData gat _ = rest at *
    have total := taken.total
    have fewer := rounds_le_count rest weapindx ammoModes 0
    by_cases empty : countAmmoForWeapon rest weapindx = 0
    · rw [if_pos empty]
      have all : min wShotsLeft (mech.criticals gat).data.toNat =
          min wShotsLeft (mech.rounds (i2Ammo weapindx) ammoModes 0) := by omega
      exact ⟨rest, rfl, all ▸ taken⟩
    · rw [if_neg empty]
      have ample' : wShotsLeft - (mech.criticals gat).data.toNat = 0 ∨
          0 < rest.rounds (i2Ammo weapindx) ammoModes 0 ∧
            (wShotsLeft - (mech.criticals gat).data.toNat ≤
                rest.rounds (i2Ammo weapindx) ammoModes 0 ∨
              countAmmoForWeapon rest weapindx = rest.rounds (i2Ammo weapindx) ammoModes 0) := by
        omega
      obtain ⟨mech', ran, spends⟩ := ih returns' ample' (by omega)
      have all : min wShotsLeft (mech.criticals gat).data.toNat +
          min (wShotsLeft - (mech.criticals gat).data.toNat)
            (rest.rounds (i2Ammo weapindx) ammoModes 0) =
          min wShotsLeft (mech.rounds (i2Ammo weapindx) ammoModes 0) := by omega
      exact ⟨mech', ran, all ▸ taken.trans spends⟩

end

theorem findFirstWeaponCrit_returns {wLoc : Section} {wSlot : Critical} {wMaxCrits : Int}
    (slots : 0 < wMaxCrits) (depth : Nat) {start : Int} (low : 0 ≤ start)
    (pre : start ≤ wSlot.val)
    (deep : 13 ≤ depth + start) :
    ∃ crit, findFirstWeaponCrit mech wLoc wSlot (mech.criticals (wLoc, wSlot)).type.toNat wMaxCrits
      depth start = some (some crit) := by
  induction depth generalizing start with
  | zero =>
    have last := wSlot.isLt
    omega
  | succ depth ih =>
    have here : wSlot ∈ (List.finRange 12).filter fun wCritIter =>
        decide (start ≤ wCritIter.val) && (mech.criticals (wLoc, wCritIter)).type.toNat ==
          (mech.criticals (wLoc, wSlot)).type.toNat :=
      mem_filter.mpr ⟨mem_finRange wSlot, by simp [pre]⟩
    unfold findFirstWeaponCrit
    dsimp only
    have later : ∀ crit ∈ (List.finRange 12).filter fun wCritIter =>
        decide (start ≤ wCritIter.val) && (mech.criticals (wLoc, wCritIter)).type.toNat ==
          (mech.criticals (wLoc, wSlot)).type.toNat, start ≤ crit.val := fun crit mem =>
      of_decide_eq_true (Bool.and_eq_true_iff.mp (mem_filter.mp mem).2).1
    generalize (List.finRange 12).filter _ = crits at here later
    cases crits with
    | nil => exact absurd here (by simp)
    | cons fst rest =>
      have post := later fst mem_cons_self
      generalize value : (((fst :: rest).head?.map fun crit : Critical =>
        (crit.val : Int)).getD (-1)) = wFirstCrit
      have eq : (fst.val : Int) = wFirstCrit := value
      by_cases again : wMaxCrits < ((fst :: rest).length : Nat) ∧
          wFirstCrit + wMaxCrits ≤ wSlot.val
      · rw [if_pos again, if_neg (by omega)]
        exact ih (by omega) again.2 (by omega)
      · rw [if_neg again]
        exact ⟨fst, rfl⟩

theorem desiredLoc_returns
    (slots : 0 < getWeaponCrits mechWeapons mech (weapon2I (mech.criticals weap).type.toNat)) :
    (desiredLoc mechWeapons mech weap).isSome = true := by
  obtain ⟨crit, hf⟩ := findFirstWeaponCrit_returns slots 13 (Int.le_refl 0)
    (Int.natCast_nonneg weap.2.val) (by decide)
  unfold desiredLoc
  dsimp only
  rw [hf]
  rfl

/-! ## After the check -/

theorem has_clear {mode bits some : BitVec 32} (none : has mode some = false) :
    has (mode &&& ~~~bits) some = false := by
  unfold has at *
  rw [bne_eq_false_iff_eq] at *
  rw [BitVec.and_assoc, BitVec.and_comm (~~~bits), ← BitVec.and_assoc, none]
  exact BitVec.zero_and

theorem clearMode_suits (suits : (mech.criticals place).suits type nogof gof = true)
    (bits : BitVec 32) :
    ((mech.clearMode weap bits).criticals place).suits type nogof gof = true := by
  unfold Mech.clearMode
  by_cases eq : place = weap
  · subst eq
    rw [change_self]
    unfold CriticalSlot.suits CriticalSlot.isNonfunctional at *
    simp only [Bool.and_eq_true, Bool.not_eq_true', Bool.or_eq_false_iff] at *
    exact ⟨⟨⟨suits.1.1.1, ⟨has_clear suits.1.1.2.1.1, has_clear suits.1.1.2.1.2⟩,
      has_clear suits.1.1.2.2⟩, suits.1.2⟩, suits.2⟩
  · rw [change_of_ne eq]
    exact suits

theorem ammoBits_clearMode (bits : BitVec 32) :
    ammoBits mechWeapons (mech.clearMode weap bits) weapindx weap =
      ammoBits mechWeapons mech weapindx weap := by
  unfold ammoBits Mech.clearMode
  rw [change_self]

def firesTwice (mech : Mech) (weap : Place) : Bool :=
  has (mech.criticals weap).firemode ultraMode || has (mech.criticals weap).firemode rfacMode

variable {result : Checked}

theorem checkRounds_bins {shots : Nat}
    (checked : checkRounds mechWeapons mech weapindx weap shots = some result)
    (passed : result.refusal = none) :
    ∃ ammo, result.ammo = some ammo ∧ usable mechWeapons result.mech weapindx weap ammo ∧
      (firesTwice result.mech weap = true → ∃ ammo1, result.ammo1 = some ammo1 ∧
        usable mechWeapons (result.mech.setPartData ammo ((result.mech.criticals ammo).data - 1))
          weapindx weap ammo1) := by
  obtain ⟨hf, searched, checked⟩ := bind_eq_some_iff.mp checked
  cases hf with
  | none =>
    obtain rfl := some.inj checked
    exact absurd passed (by simp)
  | some ammo =>
    have full := findAmmo_some searched
    dsimp only at checked
    split at checked
    · obtain rfl := some.inj checked
      exact absurd passed (by simp)
    split at checked
    · next some twice =>
      obtain ⟨-, eq⟩ := checkSecond_spec full checked
      obtain ⟨ammo1, snd, rfl⟩ := map_eq_some_iff.mp checked
      have less := usableRounds_less full
      refine ⟨ammo, rfl, ?_⟩
      rw [eq]
      cases ammo1 with
      | none =>
        rw [if_pos (by rw [← less, (findAmmo_none_iff snd).mp rfl])]
        refine ⟨⟨?_, ?_⟩, fun still => absurd still ?_⟩
        · rw [ammoBits_clearMode]
          exact clearMode_suits full.1 _
        · rw [clearMode_data]
          exact full.2
        · unfold firesTwice Mech.clearMode has
          rw [change_self]
          dsimp only
          rw [BitVec.and_not_self]
          decide
      | some ammo1 =>
        have more : usableRounds mechWeapons mech weapindx weap ≠ 1 := fun last =>
          nomatch (findAmmo_none_iff snd).mpr (by omega)
        rw [if_neg more]
        exact ⟨full, fun _ => ⟨ammo1, rfl, findAmmo_some snd⟩⟩
    · next some once =>
      obtain rfl := Option.some.inj checked
      exact ⟨ammo, rfl, full, fun twice => absurd twice once⟩

theorem needsNoAmmo_after {shots : Nat}
    (checked : findAndCheckAmmo mechWeapons mech weapindx weap shots = some result)
    (takes : ¬needsNoAmmo mechWeapons result.mech weapindx weap) :
    ¬needsNoAmmo mechWeapons mech weapindx weap := fun free => by
  rw [check_kept free checked] at takes
  exact takes free

/-- `decrement_ammunition` after the check, with the bins that it found; `a` and `a1` are what the
caller has in the places of bins that it did not set. -/
def fire (mechWeapons : Int → Weapon) (result : Checked) (weapindx : Nat) (weap : Place)
    (rounds : Nat) (a a1 : Place) : Option Mech :=
  decrementAmmunition mechWeapons result.mech weapindx weap rounds (result.ammo.getD a)
    (result.ammo1.getD a1) result.wGattlingShots

def isEnergy (mechWeapons : Int → Weapon) (weapindx : Nat) : Prop :=
  (mechWeapons weapindx).type = .beam ∨ (mechWeapons weapindx).type = .hand

def marksItself (mechWeapons : Int → Weapon) (mech : Mech) (weapindx : Nat) (weap : Place) : Prop :=
  ¬isEnergy mechWeapons weapindx ∧
    ((mechWeapons weapindx).special = rocket ∨ has (mech.criticals weap).firemode osMode = true)

def takesMany (mechWeapons : Int → Weapon) (mech : Mech) (weapindx : Nat) (weap : Place) : Bool :=
  has (mech.criticals weap).firemode gattlingMode || has (mechWeapons weapindx).special rac

def roundsOfShot (mechWeapons : Int → Weapon) (mech : Mech) (weapindx : Nat) (weap : Place)
    (shots : Nat) : Nat :=
  if (mechWeapons weapindx).type = .beam ∨ (mechWeapons weapindx).type = .hand then 0
  else if takesMany mechWeapons mech weapindx weap then
    min (shotsLeft mech weap shots) (usableRounds mechWeapons mech weapindx weap)
  else if firesTwice mech weap then 2
  else 1

/-- A Gattling or rotary weapon has slots, fires ammo of no mode, and has enough rounds of it, or
some and none of another mode. -/
def Ample (mechWeapons : Int → Weapon) (mech : Mech) (weapindx : Nat) (weap : Place)
    (shots : Nat) : Prop :=
  takesMany mechWeapons mech weapindx weap = true →
    (mech.criticals weap).ammomode &&& ammoModes = 0 ∧
    0 < getWeaponCrits mechWeapons mech (weapon2I (mech.criticals weap).type.toNat) ∧
    0 < usableRounds mechWeapons mech weapindx weap ∧
    (shotsLeft mech weap shots ≤ usableRounds mechWeapons mech weapindx weap ∨
      countAmmoForWeapon mech weapindx = usableRounds mechWeapons mech weapindx weap)

/-! ## Marks -/

theorem Marks.refl (index : Section) (mech : Mech) : Marks index mech mech := by
  refine ⟨rfl, fun place => ⟨0, ?_⟩, fun _ _ => rfl⟩
  rw [show (mech.criticals place).firemode ||| (0 : BitVec 32) = (mech.criticals place).firemode
    from BitVec.or_zero]

theorem Marks.trans {index : Section} (one : Marks index mech mech')
    (two : Marks index mech' mech'') : Marks index mech mech'' := by
  refine ⟨two.isMech.trans one.isMech, fun place => ?_, fun place o => ?_⟩
  · obtain ⟨bits, eq⟩ := one.marked place
    obtain ⟨bits', same'⟩ := two.marked place
    refine ⟨bits ||| bits', ?_⟩
    rw [same', eq, ← BitVec.or_assoc]
  · rw [two.others place o, one.others place o]

theorem setMode_marks (mech : Mech) (weap : Place) (bits : BitVec 32) :
    Marks weap.1 mech (mech.setMode weap bits) := by
  refine ⟨rfl, fun place => ?_, fun place o => ?_⟩
  · unfold Mech.setMode
    by_cases eq : place = weap
    · subst eq
      exact ⟨bits, change_self ..⟩
    · refine ⟨0, ?_⟩
      rw [change_of_ne eq, show (mech.criticals place).firemode ||| (0 : BitVec 32) =
        (mech.criticals place).firemode from BitVec.or_zero]
  · exact change_of_ne (fun eq => o (by rw [eq])) _

theorem fireSlots_marks {firstCrit : Critical} {slots : List Nat}
    (fired : slots.foldlM (fireSlot weap firstCrit) mech = some mech') :
    Marks weap.1 mech mech' := by
  induction slots generalizing mech with
  | nil =>
    obtain rfl := some.inj fired
    exact Marks.refl _ _
  | cons i slots ih =>
    obtain ⟨middle, fst, fired⟩ := bind_eq_some_iff.mp fired
    unfold fireSlot at fst
    split at fst
    · next hin =>
      obtain rfl := some.inj fst
      exact (setMode_marks mech (weap.1, ⟨firstCrit.val + i, hin⟩) rocketFired).trans
        (ih fired)
    · exact absurd fst (by simp)

theorem fireRocket_marks (fired : fireRocket mechWeapons mech weapindx weap = some mech') :
    Marks weap.1 mech mech' := by
  obtain ⟨_, -, fired⟩ := bind_eq_some_iff.mp fired
  obtain ⟨firstCrit, -, fired⟩ := bind_eq_some_iff.mp fired
  exact fireSlots_marks fired

/-! ## Shots -/

theorem fire_eq (takes : ¬needsNoAmmo mechWeapons result.mech weapindx weap)
    (rounds : Nat) (a a1 : Place) :
    fire mechWeapons result weapindx weap rounds a a1 =
      if takesMany mechWeapons result.mech weapindx weap then
        takeRounds mechWeapons weapindx weap rounds result.mech (0, 0)
          (shotsLeft result.mech weap result.wGattlingShots)
      else if firesTwice result.mech weap then
        some (takeRound (takeRound result.mech (result.ammo.getD a)) (result.ammo1.getD a1))
      else some (takeRound result.mech (result.ammo.getD a)) := by
  unfold needsNoAmmo at takes
  rw [← or_assoc] at takes
  obtain ⟨energy, rest⟩ := not_or.mp takes
  obtain ⟨rockets, oneShot⟩ := not_or.mp rest
  unfold fire decrementAmmunition
  dsimp only
  rw [if_neg energy, if_neg rockets, if_neg oneShot]
  rfl

theorem fire_many {a a1 : Place} (takes : ¬needsNoAmmo mechWeapons result.mech weapindx weap)
    (many : takesMany mechWeapons result.mech weapindx weap = true)
    (ample : Ample mechWeapons result.mech weapindx weap result.wGattlingShots) :
    ∃ hlt, ∀ rounds ≥ hlt, ∃ mech',
      fire mechWeapons result weapindx weap rounds a a1 = some mech' ∧
        Spends (i2Ammo weapindx) (ammoBits mechWeapons result.mech weapindx weap).1
          (ammoBits mechWeapons result.mech weapindx weap).2
          (roundsOfShot mechWeapons result.mech weapindx weap result.wGattlingShots)
          result.mech mech' := by
  have energy : ¬((mechWeapons weapindx).type = .beam ∨ (mechWeapons weapindx).type = .hand) :=
    fun either => takes (either.imp_right Or.inl)
  obtain ⟨mode, slots, some, hlt⟩ := ample many
  have bits : ammoBits mechWeapons result.mech weapindx weap = (ammoModes, 0) := by
    unfold ammoBits
    dsimp only
    rw [if_pos mode]
  unfold usableRounds at some hlt
  rw [bits] at some hlt
  refine ⟨shotsLeft result.mech weap result.wGattlingShots, fun rounds many' => ?_⟩
  obtain ⟨mech', ran, spends⟩ := takeRounds_spends (desiredLoc_returns slots)
    (Or.inr ⟨some, hlt⟩) many'
  refine ⟨mech', ?_, ?_⟩
  · rw [fire_eq takes, if_pos many]
    exact ran
  · unfold roundsOfShot usableRounds
    rw [if_neg energy, if_pos many, bits]
    exact spends

theorem fire_few {a a1 ammo : Place} (rounds : Nat)
    (takes : ¬needsNoAmmo mechWeapons result.mech weapindx weap)
    (few : ¬takesMany mechWeapons result.mech weapindx weap = true)
    (fst : result.ammo = some ammo) (full : usable mechWeapons result.mech weapindx weap ammo)
    (snd : firesTwice result.mech weap = true → ∃ ammo1, result.ammo1 = some ammo1 ∧
      usable mechWeapons (result.mech.setPartData ammo ((result.mech.criticals ammo).data - 1))
        weapindx weap ammo1) :
    ∃ mech', fire mechWeapons result weapindx weap rounds a a1 = some mech' ∧
      Spends (i2Ammo weapindx) (ammoBits mechWeapons result.mech weapindx weap).1
        (ammoBits mechWeapons result.mech weapindx weap).2
        (roundsOfShot mechWeapons result.mech weapindx weap result.wGattlingShots)
        result.mech mech' := by
  have energy : ¬((mechWeapons weapindx).type = .beam ∨ (mechWeapons weapindx).type = .hand) :=
    fun either => takes (either.imp_right Or.inl)
  obtain ⟨less, one⟩ := takeRound_spends full.1 full.2
  unfold roundsOfShot
  rw [fire_eq takes, if_neg few, if_neg energy, if_neg few, fst, getD_some]
  by_cases twice : firesTwice result.mech weap = true
  · obtain ⟨ammo1, hf, full1⟩ := snd twice
    rw [if_pos twice, if_pos twice, hf, getD_some]
    rw [← less] at full1
    unfold usable at full1
    have bits : ammoBits mechWeapons (takeRound result.mech ammo) weapindx weap =
        ammoBits mechWeapons result.mech weapindx weap := by
      rw [less, ammoBits_setPartData]
    rw [bits] at full1
    exact ⟨_, rfl, one.trans (takeRound_spends full1.1 full1.2).2⟩
  · rw [if_neg twice, if_neg twice]
    exact ⟨_, rfl, one⟩

/-- A shot that passed the check: launchers and one-shot weapons mark their slots, and any other
weapon takes the rounds that the shot uses out of its bins of its ammo mode. -/
theorem decrement_spends {shots : Nat} {result : Checked}
    (checked : findAndCheckAmmo mechWeapons mech weapindx weap shots = some result)
    (passed : result.refusal = none) (a a1 : Place) :
    (marksItself mechWeapons result.mech weapindx weap → ∀ rounds,
      ((mechWeapons weapindx).special ≠ rocket →
        (fire mechWeapons result weapindx weap rounds a a1).isSome = true) ∧
      ∀ mech', fire mechWeapons result weapindx weap rounds a a1 = some mech' →
        Marks weap.1 result.mech mech') ∧
    (¬marksItself mechWeapons result.mech weapindx weap →
      Ample mechWeapons result.mech weapindx weap result.wGattlingShots →
        ∃ enough, ∀ rounds ≥ enough, ∃ mech',
          fire mechWeapons result weapindx weap rounds a a1 = some mech' ∧
            Spends (i2Ammo weapindx) (ammoBits mechWeapons result.mech weapindx weap).1
              (ammoBits mechWeapons result.mech weapindx weap).2
              (roundsOfShot mechWeapons result.mech weapindx weap result.wGattlingShots)
              result.mech mech') := by
  constructor
  · rintro ⟨energy, marks⟩ rounds
    unfold isEnergy at energy
    unfold fire decrementAmmunition
    dsimp only
    rw [if_neg energy]
    by_cases launcher : (mechWeapons weapindx).special = rocket
    · rw [if_pos launcher]
      exact ⟨fun other => absurd launcher other, fun mech' => fireRocket_marks⟩
    · rw [if_neg launcher, if_pos (marks.resolve_left launcher)]
      refine ⟨fun _ => rfl, fun mech' fired => ?_⟩
      obtain rfl := some.inj fired
      exact setMode_marks _ weap osUsed
  · intro marks ample
    by_cases energy : (mechWeapons weapindx).type = .beam ∨ (mechWeapons weapindx).type = .hand
    · refine ⟨0, fun rounds _ => ⟨result.mech, ?_, ?_⟩⟩
      · unfold fire decrementAmmunition
        exact if_pos energy
      · unfold roundsOfShot
        rw [if_pos energy]
        exact Spends.refl _
    have takes : ¬needsNoAmmo mechWeapons result.mech weapindx weap := by
      unfold needsNoAmmo
      rw [← or_assoc]
      exact not_or.mpr ⟨energy, fun rest => marks ⟨energy, rest⟩⟩
    by_cases many : takesMany mechWeapons result.mech weapindx weap = true
    · exact fire_many takes many ample
    rw [check_eq (needsNoAmmo_after checked takes)] at checked
    have plain : racTooFew mechWeapons mech weapindx weap = none := by
      unfold racTooFew
      refine if_neg fun rotary => many ?_
      unfold takesMany
      rw [rotary, Bool.or_true]
    rw [plain] at checked
    obtain ⟨ammo, first, full, second⟩ := checkRounds_bins checked passed
    exact ⟨0, fun rounds _ => fire_few rounds takes many first full second⟩

def twoBins : Mech := rearMech ultraMode [((2, 0), 1, 0), ((3, 4), 1, 0)]

def twoBinsChecked : Checked :=
  (findAndCheckAmmo someWeapons twoBins 16 (0, 0) 0).getD ⟨none, twoBins, none, none, 0⟩

theorem decrement_spends_some : ∃ enough, ∀ rounds ≥ enough, ∃ mech',
    fire someWeapons twoBinsChecked 16 (0, 0) rounds (0, 0) (0, 0) = some mech' ∧
      Spends (i2Ammo 16) (ammoBits someWeapons twoBinsChecked.mech 16 (0, 0)).1
        (ammoBits someWeapons twoBinsChecked.mech 16 (0, 0)).2
        (roundsOfShot someWeapons twoBinsChecked.mech 16 (0, 0) twoBinsChecked.wGattlingShots)
        twoBinsChecked.mech mech' := by
  have returns : (findAndCheckAmmo someWeapons twoBins 16 (0, 0) 0).isSome = true := by
    decide
  have checked : findAndCheckAmmo someWeapons twoBins 16 (0, 0) 0 = some twoBinsChecked := by
    obtain ⟨result, found⟩ := isSome_iff_exists.mp returns
    unfold twoBinsChecked
    rw [found, getD_some]
  refine (decrement_spends checked (by decide) (0, 0) (0, 0)).2 (fun marks => ?_)
    fun many => ?_
  · exact absurd marks.2 (by decide)
  · exact absurd many (by decide)

/-- The slot of a one-shot weapon is no ammo bin and is changed by the shot. -/
theorem one_shot_is_marked :
    (findAndCheckAmmo someWeapons (rearMech osMode []) 16 (0, 0) 0).map Checked.refusal =
        some none ∧
      isAmmo ((rearMech osMode []).criticals (0, 0)).type.toNat = false ∧
      (decrementAmmunition someWeapons (rearMech osMode []) 16 (0, 0) 0 (0, 0) (0, 0) 0).map
          (fun mech => (mech.criticals (0, 0)).firemode) =
        some (((rearMech osMode []).criticals (0, 0)).firemode ||| osUsed) ∧
      ((rearMech osMode []).criticals (0, 0)).firemode ||| osUsed ≠
        ((rearMech osMode []).criticals (0, 0)).firemode := by
  decide

end BattletechMux.Ammo
