/-
Module: BattletechMux.Ecm.Flags
Purpose: checkECM of mech.ecm.c, and when the ECM flags it leaves on a unit depend on nothing but
  the present situation.
-/
import Mathlib.Algebra.Order.Ring.Rat
import Mathlib.Logic.Function.Basic

namespace BattletechMux.Ecm

open Function (update)

abbrev Dbref := Int

/-- The flags that checkECM sets: bits of MechSpecialsStatus. -/
structure Flags where
  countered : Bool
  protected' : Bool
  angelProtected : Bool
  disturbed : Bool
  angelDisturbed : Bool
deriving DecidableEq

def Flags.clear : Flags := ⟨false, false, false, false, false⟩

/-- A section: whether it is destroyed, and has an iNarc ECM pod. -/
structure Section where
  destroyed : Bool
  inarcEcm : Bool
deriving DecidableEq

/-- A unit: the other bits of MechSpecialsStatus that checkECM reads, and the flags. -/
structure Mech where
  mapindex : Dbref
  team : Int
  ecmEnabled : Bool
  eccmEnabled : Bool
  angelEcmEnabled : Bool
  angelEccmEnabled : Bool
  perEcmEnabled : Bool
  perEccmEnabled : Bool
  sthArmorOn : Bool
  sections : List Section
  flags : Flags
deriving DecidableEq

structure Map where
  firstFree : Nat
  mechsOnMap : Nat → Dbref

structure World where
  mech : Dbref → Option Mech
  map : Dbref → Option Map
  range : Dbref → Dbref → ℚ

def Flags.anyECMDisturbed (flags : Flags) : Bool := flags.disturbed || flags.angelDisturbed

namespace Mech

variable (mech : Mech)

/-- ECMProtected with some flags, which a working suite of the unit's own meets too. -/
def ecmProtected (flags : Flags) : Bool :=
  flags.protected' || mech.ecmEnabled && !flags.countered || mech.perEcmEnabled && !flags.countered

def angelECMProtected (flags : Flags) : Bool :=
  flags.angelProtected || mech.angelEcmEnabled && !flags.countered

/-- `checkAllSections` for INARC_ECM_ATTACHED. -/
def inarcEcmAttached : Bool := mech.sections.any fun sect => !sect.destroyed && sect.inarcEcm

end Mech

def ecmRange : ℚ := 6

structure Side where
  ecm : Nat
  eccm : Nat
  angelEcm : Nat
  angelEccm : Nat
deriving DecidableEq

def Side.none : Side := ⟨0, 0, 0, 0⟩

/-- The unit is added to its side; personal suites reach their own hex. -/
def Side.add (side : Side) (mech : Mech) (range : ℚ) : Side :=
  { ecm := side.ecm + mech.ecmEnabled.toNat + (decide (range ≤ 1 / 2) && mech.perEcmEnabled).toNat
    eccm := side.eccm + mech.eccmEnabled.toNat +
      (decide (range ≤ 1 / 2) && mech.perEccmEnabled).toNat
    angelEcm := side.angelEcm + mech.angelEcmEnabled.toNat
    angelEccm := side.angelEccm + mech.angelEccmEnabled.toNat }

structure Counts where
  friendly : Side
  unfriendly : Side
deriving DecidableEq

def World.count (w : World) (map : Map) (self : Dbref) (mech : Mech) (counts : Counts)
    (i : Nat) : Counts :=
  match w.mech (map.mechsOnMap i) with
  | Option.none => counts
  | some other =>
    let range := w.range (map.mechsOnMap i) self
    if ecmRange < range then counts
    else if other.team = mech.team then
      { counts with friendly := counts.friendly.add other range }
    else { counts with unfriendly := counts.unfriendly.add other range }

def World.counts (w : World) (map : Map) (self : Dbref) (mech : Mech) : Counts :=
  let counts := (List.range map.firstFree).foldl (w.count map self mech) ⟨.none, .none⟩
  if mech.sthArmorOn || mech.inarcEcmAttached then
    { counts with
      unfriendly := { counts.unfriendly with ecm := counts.unfriendly.ecm + 1000 } }
  else counts

namespace Counts

variable (c : Counts)

def ecmDelta : Int :=
  c.friendly.ecm + 2 * c.friendly.angelEcm - c.unfriendly.eccm - 2 * c.unfriendly.angelEccm

def eccmDelta : Int :=
  c.friendly.eccm + 2 * c.friendly.angelEccm - c.unfriendly.ecm - 2 * c.unfriendly.angelEcm

def tCheckECM : Prop :=
  c.friendly.ecm ≠ 0 ∨ c.friendly.angelEcm ≠ 0 ∨ c.unfriendly.eccm ≠ 0 ∨ c.unfriendly.angelEccm ≠ 0

def tCheckECCM : Prop :=
  c.friendly.eccm ≠ 0 ∨ c.friendly.angelEccm ≠ 0 ∨ c.unfriendly.ecm ≠ 0 ∨ c.unfriendly.angelEcm ≠ 0

instance : Decidable c.tCheckECM := inferInstanceAs (Decidable (_ ∨ _))

instance : Decidable c.tCheckECCM := inferInstanceAs (Decidable (_ ∨ _))

end Counts

def resets (c : Counts) (mech : Mech) (flags : Flags) : Flags × Bool :=
  let (flags, tMark) : Flags × Bool :=
    if c.tCheckECM then (flags, false)
    else
      let (flags, tMark) : Flags × Bool :=
        if flags.countered then ({ flags with countered := false }, true) else (flags, false)
      if mech.ecmProtected flags || mech.angelECMProtected flags then
        ({ flags with protected' := false, angelProtected := false }, true)
      else (flags, tMark)
  if ¬c.tCheckECCM ∧ flags.anyECMDisturbed then
    ({ flags with disturbed := false, angelDisturbed := false }, true)
  else (flags, tMark)

def checkCountered (c : Counts) (flags : Flags) : Flags :=
  if c.ecmDelta ≤ 0 then
    if flags.countered then flags
    else { flags with countered := true, protected' := false, angelProtected := false }
  else
    { flags with
      countered := false
      protected' := 0 < c.friendly.ecm
      angelProtected := 0 < c.friendly.angelEcm }

/-- Whether the unit is under an enemy ECM umbrella, and if that is to be marked. -/
def checkDisturbed (c : Counts) (flags : Flags) : Flags × Bool :=
  if c.eccmDelta < 0 then
    if flags.anyECMDisturbed then (flags, false)
    else
      ({ flags with
        disturbed := 0 < c.unfriendly.ecm
        angelDisturbed := 0 < c.unfriendly.angelEcm }, true)
  else if flags.anyECMDisturbed then
    ({ flags with disturbed := false, angelDisturbed := false }, true)
  else (flags, false)

/-- What checkECM does to the flags of the unit, and if it calls MarkForLOSUpdate. -/
def settle (c : Counts) (mech : Mech) : Flags × Bool :=
  let (flags, tMark) := resets c mech mech.flags
  if ¬c.tCheckECM ∧ ¬c.tCheckECCM then (flags, tMark)
  else
    let flags := if c.tCheckECM then checkCountered c flags else flags
    if c.tCheckECCM then checkDisturbed c flags else (flags, false)

/-- `checkECM`. -/
def checkECM (w : World) (self : Dbref) : World :=
  match w.mech self with
  | Option.none => w
  | some mech =>
    match w.map mech.mapindex with
    | Option.none => w
    | some map =>
      { w with
        mech := update w.mech self
          (some { mech with flags := (settle (w.counts map self mech) mech).1 }) }

/-! ## Two runs -/

def Mech.withFlags (mech : Mech) (flags : Flags) : Mech := { mech with flags := flags }

def World.withFlags (w : World) (self : Dbref) (flags : Flags) : World :=
  { w with mech := update w.mech self ((w.mech self).map (·.withFlags flags)) }

def World.flags (w : World) (self : Dbref) : Option Flags := (w.mech self).map Mech.flags

def settled (c : Counts) (old : Flags) : Flags where
  countered := c.tCheckECM ∧ c.ecmDelta ≤ 0
  protected' := c.tCheckECM ∧
    if c.ecmDelta ≤ 0 then old.countered ∧ old.protected' else 0 < c.friendly.ecm
  angelProtected := c.tCheckECM ∧
    if c.ecmDelta ≤ 0 then old.countered ∧ old.angelProtected else 0 < c.friendly.angelEcm
  disturbed := c.eccmDelta < 0 ∧
    if old.disturbed ∨ old.angelDisturbed then old.disturbed else 0 < c.unfriendly.ecm
  angelDisturbed := c.eccmDelta < 0 ∧
    if old.disturbed ∨ old.angelDisturbed then old.angelDisturbed else 0 < c.unfriendly.angelEcm

/-- The flags before the call do no harm: a unit whose ECM stays countered is not marked as
protected, and one that stays disturbed is marked by what disturbs it now. -/
def Settles (c : Counts) (old : Flags) : Prop :=
  (c.tCheckECM → c.ecmDelta ≤ 0 → old.countered = true →
    old.protected' = false ∧ old.angelProtected = false) ∧
  (c.eccmDelta < 0 → old.disturbed = true ∨ old.angelDisturbed = true →
    old.disturbed = decide (0 < c.unfriendly.ecm) ∧
      old.angelDisturbed = decide (0 < c.unfriendly.angelEcm))

theorem tCheckECCM_of_neg {c : Counts} (less : c.eccmDelta < 0) : c.tCheckECCM := by
  unfold Counts.eccmDelta at less
  unfold Counts.tCheckECCM
  omega

theorem settle_flags (c : Counts) (mech : Mech) : (settle c mech).1 = settled c mech.flags := by
  have disturbs := @tCheckECCM_of_neg c
  obtain ⟨_, _, _, _, _, _, _, _, _, _, ⟨countered, protects, angel, disturbed, angelDisturbed⟩⟩ := mech
  unfold settle resets checkCountered checkDisturbed settled
  by_cases ecm : c.tCheckECM <;> by_cases eccm : c.tCheckECCM <;>
    by_cases less : c.ecmDelta ≤ 0 <;> by_cases more : c.eccmDelta < 0 <;>
    simp [ecm, eccm, less, more, Mech.ecmProtected, Mech.angelECMProtected, Flags.anyECMDisturbed] at *
  all_goals grind

theorem settled_eq_iff (c : Counts) (old : Flags) :
    settled c old = settled c .clear ↔ Settles c old := by
  have enemies : c.eccmDelta < 0 → 0 < c.unfriendly.ecm ∨ 0 < c.unfriendly.angelEcm := by
    unfold Counts.eccmDelta
    omega
  obtain ⟨countered, protects, angel, disturbed, angelDisturbed⟩ := old
  simp only [settled, Settles, Flags.clear, Flags.mk.injEq, true_and, Bool.false_eq_true, false_and,
    or_self, if_false]
  grind

theorem settled_settled (c : Counts) (old : Flags) : settled c (settled c old) = settled c old := by
  have enemies : c.eccmDelta < 0 → 0 < c.unfriendly.ecm ∨ 0 < c.unfriendly.angelEcm := by
    unfold Counts.eccmDelta
    omega
  obtain ⟨countered, protects, angel, disturbed, angelDisturbed⟩ := old
  simp only [settled, Flags.mk.injEq, true_and]
  grind

theorem settled_const_iff (c : Counts) :
    (∀ old old', settled c old = settled c old') ↔
      ¬(c.tCheckECM ∧ c.ecmDelta ≤ 0) ∧ 0 ≤ c.eccmDelta := by
  constructor
  · intro same
    have kept := same ⟨true, true, false, true, true⟩ .clear
    have other := same ⟨false, false, false, true, false⟩ ⟨false, false, false, false, true⟩
    simp only [settled, Flags.clear, Flags.mk.injEq] at kept other
    grind
  · rintro ⟨quiet, outweighed⟩ old old'
    simp only [settled, Flags.mk.injEq, true_and]
    grind

section Situation

variable {w : World} {self : Dbref} {mech : Mech} {map : Map}

section

variable (here : w.mech self = some mech)
include here

theorem counts_withFlags (flags : Flags) :
    (w.withFlags self flags).counts map self (mech.withFlags flags) = w.counts map self mech := by
  have round : (w.withFlags self flags).count map self (mech.withFlags flags) =
      w.count map self mech := by
    funext counts i
    by_cases own : map.mechsOnMap i = self
    · simp only [World.count, World.withFlags, own, Function.update_self, here, Option.map_some]
      rfl
    · simp only [World.count, World.withFlags, Function.update_of_ne own]
      rfl
  unfold World.counts
  rw [round]
  rfl

theorem checkECM_flags (placed : w.map mech.mapindex = some map) :
    (checkECM w self).flags self = some (settled (w.counts map self mech) mech.flags) := by
  simp only [checkECM, here, placed, World.flags, Function.update_self, Option.map_some,
    settle_flags]

theorem withFlags_here (flags : Flags) :
    (w.withFlags self flags).mech self = some (mech.withFlags flags) := by
  rw [World.withFlags, here]
  exact Function.update_self ..

theorem checkECM_withFlags (placed : w.map mech.mapindex = some map) (flags : Flags) :
    (checkECM (w.withFlags self flags) self).flags self =
      some (settled (w.counts map self mech) flags) := by
  rw [@checkECM_flags _ _ _ map (withFlags_here here flags) placed, counts_withFlags here]
  rfl

theorem checkECM_eq (placed : w.map mech.mapindex = some map) :
    checkECM w self = w.withFlags self (settled (w.counts map self mech) mech.flags) := by
  simp only [checkECM, here, placed, World.withFlags, Option.map_some, settle_flags,
    Mech.withFlags]

end

end Situation

/-- The flags that checkECM leaves are those it gives a unit without any, exactly when the flags
before the call settle; in one situation that is so for all flags exactly when no enemy ECCM
counters the unit and no enemy ECM outweighs its ECCM; and a second call changes nothing. -/
theorem ecm_iff (w : World) (self : Dbref) (mech : Mech) (map : Map)
    (here : w.mech self = some mech) (placed : w.map mech.mapindex = some map) :
    (∀ flags, (checkECM (w.withFlags self flags) self).flags self =
        (checkECM (w.withFlags self .clear) self).flags self ↔
      Settles (w.counts map self mech) flags) ∧
    ((∀ flags flags', (checkECM (w.withFlags self flags) self).flags self =
        (checkECM (w.withFlags self flags') self).flags self) ↔
      ¬((w.counts map self mech).tCheckECM ∧ (w.counts map self mech).ecmDelta ≤ 0) ∧
        0 ≤ (w.counts map self mech).eccmDelta) ∧
    (checkECM (checkECM w self) self).flags self = (checkECM w self).flags self := by
  simp only [checkECM_withFlags here placed, Option.some.injEq]
  refine ⟨settled_eq_iff _, settled_const_iff _, ?_⟩
  rw [checkECM_flags here placed, checkECM_eq here placed, checkECM_withFlags here placed,
    settled_settled]

/-- A unit next to an enemy with an Angel suite, with nothing of its own. -/
def jammed : World where
  mech := fun key =>
    if key = 1 then some ⟨7, 1, false, false, false, false, false, false, false, [], .clear⟩
    else if key = 2 then some ⟨7, 2, false, false, true, false, false, false, false, [], .clear⟩
    else none
  map := fun key => if key = 7 then some ⟨2, fun i => i + 1⟩ else none
  range := fun _ _ => 1

/-- The flag of an ordinary ECM stays when an Angel ECM has taken its place. -/
theorem ecm_depends :
    (checkECM (jammed.withFlags 1 ⟨false, false, false, true, false⟩) 1).flags 1 =
        some ⟨false, false, false, true, false⟩ ∧
      (checkECM (jammed.withFlags 1 .clear) 1).flags 1 =
        some ⟨false, false, false, false, true⟩ := by
  decide +kernel

theorem ecm_iff_jammed :
    (checkECM (checkECM jammed 1) 1).flags 1 = (checkECM jammed 1).flags 1 :=
  (ecm_iff jammed 1 ⟨7, 1, false, false, false, false, false, false, false, [], .clear⟩
    ⟨2, fun i => i + 1⟩ rfl rfl).2.2

end BattletechMux.Ecm
