/-
Module: BattletechMux.Ammo.Check
Purpose: What the search for ammo finds, and when FindAndCheckAmmo finds what it says it finds and
  leaves the mech as it was but for the rate of fire.
-/
import BattletechMux.Ammo.Slots

namespace BattletechMux.Ammo

section

open List Option
open Function (update)

variable {mechWeapons : Int → Weapon} {mech : Mech} {weapindx : Nat} {weap place : Place}
variable {type : Nat} {nogof gof : BitVec 32}

/-! ## Changes of slots -/

theorem change_self (mech : Mech) (place : Place) (f : CriticalSlot → CriticalSlot) :
    (mech.change place f).criticals place = f (mech.criticals place) :=
  Function.update_self ..

theorem change_of_ne {o : Place} (apart : o ≠ place) (f : CriticalSlot → CriticalSlot) :
    (mech.change place f).criticals o = mech.criticals o :=
  Function.update_of_ne apart ..

theorem change_change (mech : Mech) (place : Place) (f g : CriticalSlot → CriticalSlot) :
    (mech.change place f).change place g = mech.change place (g ∘ f) := by
  unfold Mech.change
  dsimp only
  rw [Function.update_self, Function.update_idem]
  rfl

theorem change_comm (mech : Mech) (one two : Place) {f g : CriticalSlot → CriticalSlot}
    (commute : ∀ slot, f (g slot) = g (f slot)) :
    (mech.change one f).change two g = (mech.change two g).change one f := by
  by_cases same : one = two
  · subst same
    rw [change_change, change_change]
    exact congrArg _ (funext fun slot => (commute slot).symm)
  · unfold Mech.change
    dsimp only
    rw [Function.update_of_ne (Ne.symm same), Function.update_of_ne same,
      Function.update_comm same]

theorem change_id (mech : Mech) (place : Place) : mech.change place id = mech := by
  unfold Mech.change
  rw [id, Function.update_eq_self]

@[simp] theorem setPartData_data (mech : Mech) (place : Place) (data : BitVec 8) :
    ((mech.setPartData place data).criticals place).data = data := by
  unfold Mech.setPartData
  rw [change_self]

theorem setPartData_setPartData (mech : Mech) (place : Place) (data data' : BitVec 8) :
    (mech.setPartData place data).setPartData place data' = mech.setPartData place data' := by
  unfold Mech.setPartData
  rw [change_change]
  rfl

theorem setPartData_same (mech : Mech) (place : Place) :
    mech.setPartData place (mech.criticals place).data = mech := by
  unfold Mech.setPartData Mech.change
  rw [Function.update_eq_self]

theorem clearMode_setPartData (mech : Mech) (weap place : Place) (bits : BitVec 32)
    (data : BitVec 8) : (mech.setPartData place data).clearMode weap bits =
      (mech.clearMode weap bits).setPartData place data :=
  change_comm mech place weap fun _ => rfl

theorem clearMode_data (mech : Mech) (weap place : Place) (bits : BitVec 32) :
    ((mech.clearMode weap bits).criticals place).data = (mech.criticals place).data := by
  unfold Mech.clearMode
  by_cases same : place = weap
  · rw [same, change_self]
  · rw [change_of_ne same]

theorem clearMode_zero (mech : Mech) (weap : Place) : mech.clearMode weap 0 = mech := by
  have kept : (fun slot : CriticalSlot => { slot with firemode := slot.firemode &&& ~~~0 }) = id :=
    funext fun slot => by
      change { slot with firemode := slot.firemode &&& BitVec.allOnes 32 } = slot
      rw [BitVec.and_allOnes]
  unfold Mech.clearMode
  rw [kept, change_id]

theorem setPartData_suits (mech : Mech) (place o : Place) (data : BitVec 8) :
    ((mech.setPartData place data).criticals o).suits type nogof gof =
      (mech.criticals o).suits type nogof gof := by
  unfold Mech.setPartData
  by_cases same : o = place
  · rw [same, change_self]
    rfl
  · rw [change_of_ne same]

/-! ## Rounds -/

def Mech.rounds (mech : Mech) (type : Nat) (nogof gof : BitVec 32) : Nat :=
  (places.map fun place =>
    if (mech.criticals place).suits type nogof gof then (mech.criticals place).data.toNat
    else 0).sum

theorem mem_places (place : Place) : place ∈ places := by
  unfold places
  exact mem_flatMap.mpr ⟨place.1, mem_finRange _,
    mem_map.mpr ⟨place.2, mem_finRange _, rfl⟩⟩

theorem places_nodup : places.Nodup := by decide

theorem sum_places (f : Place → Nat) : (places.map f).sum = ∑ place, f place := by
  have all : places.toFinset = Finset.univ :=
    Finset.eq_univ_of_forall fun place => mem_toFinset.mpr (mem_places place)
  rw [← sum_toFinset f places_nodup, all]

theorem sum_change (f f' : Place → Nat) (place : Place)
    (others : ∀ o, o ≠ place → f' o = f o) :
    (places.map f').sum + f place = (places.map f).sum + f' place := by
  rw [sum_places, sum_places, ← Finset.add_sum_erase _ f (Finset.mem_univ place),
    ← Finset.add_sum_erase _ f' (Finset.mem_univ place)]
  have same : ∑ o ∈ Finset.univ.erase place, f' o = ∑ o ∈ Finset.univ.erase place, f o :=
    Finset.sum_congr rfl fun o member => others o (Finset.ne_of_mem_erase member)
  rw [same]
  omega

theorem rounds_setPartData (suits : (mech.criticals place).suits type nogof gof = true)
    (data : BitVec 8) :
    (mech.setPartData place data).rounds type nogof gof + (mech.criticals place).data.toNat =
      mech.rounds type nogof gof + data.toNat := by
  have changed := sum_change
    (fun place => if (mech.criticals place).suits type nogof gof then
      (mech.criticals place).data.toNat else 0)
    (fun o => if ((mech.setPartData place data).criticals o).suits type nogof gof then
      ((mech.setPartData place data).criticals o).data.toNat else 0)
    place fun o apart => by
      unfold Mech.setPartData
      rw [change_of_ne apart]
  rw [if_pos suits, setPartData_suits, if_pos suits, setPartData_data] at changed
  exact changed

theorem rounds_eq_zero_iff : mech.rounds type nogof gof = 0 ↔
    ∀ place, (mech.criticals place).suits type nogof gof = true →
      (mech.criticals place).data.toNat = 0 := by
  unfold Mech.rounds
  rw [sum_eq_zero_iff]
  constructor
  · intro all place suits
    have none := all _ (mem_map.mpr ⟨place, mem_places place, rfl⟩)
    rwa [if_pos suits] at none
  · intro all n member
    obtain ⟨place, -, rfl⟩ := mem_map.mp member
    split
    · next suits => exact all place suits
    · rfl

/-! ## Search -/

theorem findAmmoInSection_some {index : Section} {crit : Critical}
    (hf : findAmmoInSection mech index type nogof gof = some crit) :
    (mech.criticals (index, crit)).suits type nogof gof = true ∧
      0 < (mech.criticals (index, crit)).data.toNat := by
  have both := find?_some hf
  rw [Bool.and_eq_true] at both
  exact ⟨both.1, of_decide_eq_true both.2⟩

theorem findAmmoInSection_none {index : Section}
    (none : findAmmoInSection mech index type nogof gof = none) (crit : Critical)
    (suits : (mech.criticals (index, crit)).suits type nogof gof = true) :
    (mech.criticals (index, crit)).data.toNat = 0 := by
  have absent := find?_eq_none.mp none crit (mem_finRange crit)
  rw [suits, Bool.true_and, decide_eq_true_iff] at absent
  exact Nat.eq_zero_of_not_pos absent

theorem mem_searchOrder (wDesiredLoc : Option Section) (start index : Section) :
    index ∈ searchOrder wDesiredLoc start := by
  unfold searchOrder
  rw [mem_append, mem_cons, mem_filter]
  by_cases fst : wDesiredLoc = some index
  · exact Or.inl (by rw [fst]; exact mem_singleton.mpr rfl)
  · by_cases snd : index = start
    · exact Or.inr (Or.inl snd)
    · exact Or.inr (Or.inr ⟨mem_finRange index, decide_eq_true ⟨snd, Ne.symm fst⟩⟩)

theorem find_some {start : Section}
    (hf : findAmmoForWeaponSub mechWeapons mech weap weapindx start nogof gof =
      some (some place)) :
    (mech.criticals place).suits (i2Ammo weapindx) nogof gof = true ∧
      0 < (mech.criticals place).data.toNat := by
  obtain ⟨wDesiredLoc, -, search⟩ := map_eq_some_iff.mp hf
  obtain ⟨index, -, here⟩ := exists_of_findSome?_eq_some search
  obtain ⟨crit, inSection, rfl⟩ := map_eq_some_iff.mp here
  exact findAmmoInSection_some inSection

theorem find_none_iff {start : Section} {hf : Option Place}
    (searched : findAmmoForWeaponSub mechWeapons mech weap weapindx start nogof gof = some hf) :
    hf = none ↔ mech.rounds (i2Ammo weapindx) nogof gof = 0 := by
  rw [rounds_eq_zero_iff]
  constructor
  · rintro rfl place suits
    obtain ⟨wDesiredLoc, -, search⟩ := map_eq_some_iff.mp searched
    have inSection := findSome?_eq_none_iff.mp search place.1 (mem_searchOrder _ _ _)
    exact findAmmoInSection_none (map_eq_none_iff.mp inSection) place.2 suits
  · intro empty
    cases hf with
    | none => rfl
    | some place =>
      have full := find_some searched
      exact absurd (empty place full.1) (Nat.ne_of_gt full.2)

end

variable {mechWeapons : Int → Weapon} {mech : Mech} {weapindx : Nat} {weap : Place}

def needsNoAmmo (mechWeapons : Int → Weapon) (mech : Mech) (weapindx : Nat) (weap : Place) : Prop :=
  (mechWeapons weapindx).type = .beam ∨ (mechWeapons weapindx).type = .hand ∨
    (mechWeapons weapindx).special = rocket ∨ has (mech.criticals weap).firemode osMode = true

instance needsNoAmmo.decidable (mechWeapons : Int → Weapon) (mech : Mech) (weapindx : Nat)
    (weap : Place) : Decidable (needsNoAmmo mechWeapons mech weapindx weap) :=
  inferInstanceAs (Decidable (_ ∨ _ ∨ _ ∨ _))

/-- A working bin with a round for a weapon in its ammo mode. -/
def usable (mechWeapons : Int → Weapon) (mech : Mech) (weapindx : Nat) (weap place : Place) : Prop :=
  (mech.criticals place).suits (i2Ammo weapindx) (ammoBits mechWeapons mech weapindx weap).1
      (ammoBits mechWeapons mech weapindx weap).2 = true ∧
    0 < (mech.criticals place).data.toNat

def usableRounds (mechWeapons : Int → Weapon) (mech : Mech) (weapindx : Nat) (weap : Place) : Nat :=
  mech.rounds (i2Ammo weapindx) (ammoBits mechWeapons mech weapindx weap).1
    (ammoBits mechWeapons mech weapindx weap).2

def rateModes : BitVec 32 :=
  ultraMode ||| rfacMode ||| racTwoshotMode ||| racFourshotMode ||| racSixshotMode

def KeepsMech (mech mech' : Mech) (weap : Place) : Prop :=
  ∃ cleared, cleared &&& ~~~rateModes = 0 ∧ mech' = mech.clearMode weap cleared

/-- A rotary weapon with too few rounds for its mode has one that it can use; and a weapon that
fires twice has not just one round, unless its fire mode is the rate of fire alone. -/
def CheckSettled (mechWeapons : Int → Weapon) (mech : Mech) (weapindx : Nat) (weap : Place) :
    Prop :=
  needsNoAmmo mechWeapons mech weapindx weap ∨
    ((racTooFew mechWeapons mech weapindx weap).isSome = true →
      ∃ place, usable mechWeapons mech weapindx weap place) ∧
    (racTooFew mechWeapons mech weapindx weap = none →
      (has (mech.criticals weap).firemode ultraMode ||
        has (mech.criticals weap).firemode rfacMode) = true →
      usableRounds mechWeapons mech weapindx weap = 1 →
        (mech.criticals weap).firemode &&& ~~~rateModes = 0)

/-! ## Steps of the check -/

theorem keepsMech_refl (mech : Mech) (weap : Place) : KeepsMech mech mech weap :=
  ⟨0, by decide, (clearMode_zero mech weap).symm⟩

theorem and_not_trans {a b c : BitVec 32} (one : a &&& ~~~b = 0) (two : b &&& ~~~c = 0) :
    a &&& ~~~c = 0 := by
  apply BitVec.eq_of_getLsbD_eq
  intro i hin
  have fst := congrArg (BitVec.getLsbD · i) one
  have snd := congrArg (BitVec.getLsbD · i) two
  simp only [BitVec.getLsbD_and, BitVec.getLsbD_not, hin, decide_true, Bool.true_and,
    BitVec.ofNat_eq_ofNat, BitVec.getLsbD_zero] at *
  cases bitA : a.getLsbD i with
  | false => rfl
  | true =>
    rw [bitA, Bool.true_and, Bool.not_eq_false'] at fst
    rwa [fst, Bool.true_and] at snd

theorem keepsMech_clear_iff (mech : Mech) (weap : Place) :
    KeepsMech mech (mech.clearMode weap (mech.criticals weap).firemode) weap ↔
      (mech.criticals weap).firemode &&& ~~~rateModes = 0 := by
  refine ⟨fun ⟨cleared, rate, same⟩ => ?_, fun rate => ⟨_, rate, rfl⟩⟩
  have modes := congrArg (fun mech : Mech => (mech.criticals weap).firemode) same
  dsimp only [Mech.clearMode] at modes
  rw [change_self, change_self] at modes
  dsimp only at modes
  rw [BitVec.and_not_self] at modes
  exact and_not_trans modes.symm rate

theorem ammoBits_setPartData (place : Place) (data : BitVec 8) :
    ammoBits mechWeapons (mech.setPartData place data) weapindx weap =
      ammoBits mechWeapons mech weapindx weap := by
  have mode : ((mech.setPartData place data).criticals weap).ammomode =
      (mech.criticals weap).ammomode := by
    unfold Mech.setPartData
    by_cases same : weap = place
    · rw [same, change_self]
    · rw [change_of_ne same]
  unfold ammoBits
  rw [mode]

theorem findAmmo_some {place : Place}
    (hf : findAmmo mechWeapons mech weapindx weap = some (some place)) :
    usable mechWeapons mech weapindx weap place :=
  find_some hf

theorem findAmmo_none_iff {hf : Option Place}
    (searched : findAmmo mechWeapons mech weapindx weap = some hf) :
    hf = none ↔ usableRounds mechWeapons mech weapindx weap = 0 :=
  find_none_iff searched

theorem usableRounds_less {place : Place} (hf : usable mechWeapons mech weapindx weap place) :
    usableRounds mechWeapons (mech.setPartData place ((mech.criticals place).data - 1)) weapindx weap +
      1 = usableRounds mechWeapons mech weapindx weap := by
  have changed := rounds_setPartData hf.1 ((mech.criticals place).data - 1)
  have less : ((mech.criticals place).data - 1).toNat + 1 = (mech.criticals place).data.toNat := by
    have some := hf.2
    have below := (mech.criticals place).data.isLt
    rw [BitVec.toNat_sub]
    change (2 ^ 8 - 1 + (mech.criticals place).data.toNat) % 2 ^ 8 + 1 = _
    omega
  unfold usableRounds
  rw [ammoBits_setPartData]
  omega

variable {result : Checked}

theorem checkSecond_spec {place : Place} {shots : Nat}
    (hf : usable mechWeapons mech weapindx weap place)
    (checked : checkSecond mechWeapons mech weapindx weap place shots = some result) :
    result.refusal = none ∧ result.mech =
      if usableRounds mechWeapons mech weapindx weap = 1 then
        mech.clearMode weap (mech.criticals weap).firemode
      else mech := by
  obtain ⟨ammo1, searched, rfl⟩ := Option.map_eq_some_iff.mp checked
  refine ⟨rfl, ?_⟩
  have less := usableRounds_less hf
  have snd := findAmmo_none_iff searched
  have back : (mech.criticals place).data - 1 + 1 = (mech.criticals place).data :=
    BitVec.sub_add_cancel _ _
  cases ammo1 with
  | none =>
    have last : usableRounds mechWeapons mech weapindx weap = 1 := by
      rw [← less, snd.mp rfl]
    dsimp only
    rw [if_pos last, if_pos rfl, clearMode_data, setPartData_data, back, clearMode_setPartData,
      setPartData_setPartData, ← clearMode_data mech weap place, setPartData_same]
  | some ammo1 =>
    have more : usableRounds mechWeapons mech weapindx weap ≠ 1 := fun last =>
      nomatch snd.mpr (by omega)
    have full : (((mech.setPartData place ((mech.criticals place).data - 1)).criticals ammo1).data
        == 0) = false := by
      rw [beq_eq_false_iff_ne]
      intro empty
      have some := (findAmmo_some searched).2
      rw [empty] at some
      exact absurd some (by decide)
    dsimp only
    rw [if_neg more, full, if_neg (by decide), setPartData_data, back, setPartData_setPartData,
      setPartData_same]

theorem checkRounds_spec {shots : Nat}
    (checked : checkRounds mechWeapons mech weapindx weap shots = some result) :
    (result.refusal = none ↔ ∃ place, usable mechWeapons mech weapindx weap place) ∧
      result.mech =
        if (has (mech.criticals weap).firemode ultraMode ||
            has (mech.criticals weap).firemode rfacMode) = true ∧
          usableRounds mechWeapons mech weapindx weap = 1 then
          mech.clearMode weap (mech.criticals weap).firemode
        else mech := by
  obtain ⟨hf, searched, checked⟩ := Option.bind_eq_some_iff.mp checked
  cases hf with
  | none =>
    obtain rfl := Option.some.inj checked
    have empty := (findAmmo_none_iff searched).mp rfl
    refine ⟨iff_of_false (fun passed => nomatch passed) ?_, ?_⟩
    · rintro ⟨place, suits, full⟩
      exact absurd (rounds_eq_zero_iff.mp empty place suits) (Nat.ne_of_gt full)
    · rw [if_neg fun both => absurd (both.2.symm.trans empty) (by decide)]
  | some ammo =>
    have full := findAmmo_some searched
    have some : (mech.criticals ammo).data ≠ 0 := by
      intro none
      have more := full.2
      rw [none] at more
      exact absurd more (by decide)
    dsimp only at checked
    rw [if_neg some] at checked
    split at checked
    · next twice =>
      obtain ⟨passed, same⟩ := checkSecond_spec full checked
      refine ⟨iff_of_true passed ⟨ammo, full⟩, ?_⟩
      rw [same, if_congr (and_iff_right twice) rfl rfl]
    · next once =>
      obtain rfl := Option.some.inj checked
      refine ⟨iff_of_true rfl ⟨ammo, full⟩, ?_⟩
      rw [if_neg fun both => once both.1]

theorem racTooFew_rate {mode : BitVec 32}
    (few : racTooFew mechWeapons mech weapindx weap = some mode) : mode &&& ~~~rateModes = 0 := by
  unfold racTooFew at few
  dsimp only at few
  split at few
  case isFalse => exact absurd few (by simp)
  split at few
  · rw [← Option.some.inj few]
    decide
  split at few
  · rw [← Option.some.inj few]
    decide
  split at few
  · rw [← Option.some.inj few]
    decide
  · exact absurd few (by simp)

theorem check_kept {shots : Nat} (free : needsNoAmmo mechWeapons mech weapindx weap)
    (checked : findAndCheckAmmo mechWeapons mech weapindx weap shots = some result) :
    result.mech = mech := by
  unfold findAndCheckAmmo at checked
  dsimp only at checked
  split at checked
  · rw [← Option.some.inj checked]
  split at checked
  · rw [← Option.some.inj checked]
  split at checked
  · rw [← Option.some.inj checked]
  · next energy rockets oneShot =>
    unfold needsNoAmmo at free
    rw [← or_assoc] at free
    exact absurd free (not_or.mpr ⟨energy, not_or.mpr ⟨rockets, oneShot⟩⟩)

theorem check_eq (takes : ¬needsNoAmmo mechWeapons mech weapindx weap) (shots : Nat) :
    findAndCheckAmmo mechWeapons mech weapindx weap shots =
      match racTooFew mechWeapons mech weapindx weap with
      | some mode => some ⟨none, mech.clearMode weap mode, none, none, shots⟩
      | none =>
        checkRounds mechWeapons mech weapindx weap (gattlingShots mech weapindx weap shots) := by
  unfold needsNoAmmo at takes
  rw [← or_assoc] at takes
  obtain ⟨energy, rest⟩ := not_or.mp takes
  obtain ⟨rockets, oneShot⟩ := not_or.mp rest
  unfold findAndCheckAmmo
  dsimp only
  refine (if_neg energy).trans ((if_neg rockets).trans ((if_neg oneShot).trans ?_))
  cases racTooFew mechWeapons mech weapindx weap <;> rfl

/-- `FindAndCheckAmmo` passes only with a round that can be used, where it takes any, and keeps the
mech but for the rate of fire, exactly when the check is settled. -/
theorem check_sound_iff {shots : Nat} {result : Checked}
    (checked : findAndCheckAmmo mechWeapons mech weapindx weap shots = some result) :
    ((result.refusal = none → needsNoAmmo mechWeapons mech weapindx weap ∨
        ∃ place, usable mechWeapons mech weapindx weap place) ∧
      KeepsMech mech result.mech weap) ↔ CheckSettled mechWeapons mech weapindx weap := by
  by_cases free : needsNoAmmo mechWeapons mech weapindx weap
  · refine iff_of_true ⟨fun _ => Or.inl free, ?_⟩ (Or.inl free)
    rw [check_kept free checked]
    exact keepsMech_refl mech weap
  rw [check_eq free] at checked
  unfold CheckSettled
  cases few : racTooFew mechWeapons mech weapindx weap with
  | some mode =>
    rw [few] at checked
    obtain rfl := Option.some.inj checked
    constructor
    · rintro ⟨passed, -⟩
      exact Or.inr ⟨fun _ => (passed rfl).resolve_left free, fun absent => nomatch absent⟩
    · intro settled
      refine ⟨fun _ => Or.inr ((settled.resolve_left free).1 rfl), mode, racTooFew_rate few, rfl⟩
  | none =>
    rw [few] at checked
    obtain ⟨passes, same⟩ := checkRounds_spec checked
    rw [same]
    constructor
    · rintro ⟨-, kept⟩
      refine Or.inr ⟨fun absent => absurd absent (by decide), fun _ twice last => ?_⟩
      rw [if_pos ⟨twice, last⟩] at kept
      exact (keepsMech_clear_iff mech weap).mp kept
    · intro settled
      refine ⟨fun passed => Or.inr (passes.mp passed), ?_⟩
      split
      · next both =>
        exact (keepsMech_clear_iff mech weap).mpr
          ((settled.resolve_left free).2 rfl both.1 both.2)
      · exact keepsMech_refl mech weap

def rearMech (firemode : BitVec 32) (bins : List (Place × BitVec 8 × BitVec 32)) : Mech :=
  (someMech bins).change (0, 0) fun slot => { slot with firemode := 0x20 ||| firemode }

def rotaryWeapons : Int → Weapon := fun _ => ⟨.ammo, 1, 45, rac⟩

def afterCheck (mechWeapons : Int → Weapon) (mech : Mech) : Mech :=
  ((findAndCheckAmmo mechWeapons mech 16 (0, 0) 0).map Checked.mech).getD mech

/-- An ultra weapon with two rounds keeps its mode. -/
theorem check_sound_iff_some :
    KeepsMech (rearMech ultraMode [((2, 0), 1, 0), ((3, 4), 1, 0)])
      (afterCheck someWeapons (rearMech ultraMode [((2, 0), 1, 0), ((3, 4), 1, 0)])) (0, 0) := by
  have returns : (findAndCheckAmmo someWeapons
      (rearMech ultraMode [((2, 0), 1, 0), ((3, 4), 1, 0)]) 16 (0, 0) 0).isSome = true := by
    decide
  obtain ⟨result, checked⟩ := Option.isSome_iff_exists.mp returns
  unfold afterCheck
  rw [checked]
  refine ((check_sound_iff checked).mpr (Or.inr ⟨fun few => ?_, fun _ _ last => ?_⟩)).2
  · exact absurd few (by decide)
  · exact absurd last (by decide)

/-- An ultra weapon to the rear with one round left is no longer to the rear; and a rotary weapon
passes without any ammo. -/
theorem check_forgets :
    ¬KeepsMech (rearMech ultraMode [((2, 0), 1, 0)])
        (afterCheck someWeapons (rearMech ultraMode [((2, 0), 1, 0)])) (0, 0) ∧
      (findAndCheckAmmo rotaryWeapons (rearMech racTwoshotMode []) 16 (0, 0) 0).map
          Checked.refusal = some none ∧
        ¬needsNoAmmo rotaryWeapons (rearMech racTwoshotMode []) 16 (0, 0) ∧
          ¬∃ place, usable rotaryWeapons (rearMech racTwoshotMode []) 16 (0, 0) place := by
  refine ⟨fun ⟨cleared, rate, same⟩ => ?_, by decide, by decide, ?_⟩
  · have lost : ((afterCheck someWeapons (rearMech ultraMode [((2, 0), 1, 0)])).criticals
        (0, 0)).firemode = 0 := by decide
    rw [same] at lost
    unfold Mech.clearMode at lost
    rw [change_self] at lost
    exact absurd (and_not_trans lost rate) (by decide)
  · rintro ⟨place, suits, full⟩
    have empty : usableRounds rotaryWeapons (rearMech racTwoshotMode []) 16 (0, 0) = 0 := by
      decide
    exact absurd (rounds_eq_zero_iff.mp empty place suits) (Nat.ne_of_gt full)

end BattletechMux.Ammo
