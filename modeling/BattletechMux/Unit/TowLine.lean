/-
Module: BattletechMux.Unit.TowLine
Purpose: The tow relation between units. What a unit carries and which units are towed mirror each
  other, along every run in which no unit leaves its map while it carries another and no destroyed
  unit picks up itself.
-/
import BattletechMux.Foundation.Tether
import BattletechMux.Unit.Targets

namespace BattletechMux.UnitWorld

open List Option

open Function (update update_self update_of_ne)
open DoubleEntry

namespace World

def sameMap (w : World) (t u : Dbref) : Prop :=
  0 ≤ (w.unit u).mapindex ∧ (w.unit t).mapindex = (w.unit u).mapindex

/-- The tow relation as it should be: a unit is towed exactly when one unit on its
map carries it, no unit carries itself, and no two carry the same one. -/
structure TowInStep (w : World) : Prop where
  towed_iff : ∀ {u}, w.isMech u = true →
    ((w.unit u).towed = true ↔
      ∃! t, w.isMech t = true ∧ w.sameMap t u ∧ (w.unit t).carrying = u)
  not_itself : ∀ {u}, w.isMech u = true → (w.unit u).carrying ≠ u
  not_both : ∀ {t t'}, w.isMech t = true → w.isMech t' = true →
    0 < (w.unit t).carrying → (w.unit t).carrying = (w.unit t').carrying → t = t'

/-- The unit a unit carries, by `MechCarrying`. -/
def carries (w : World) (t : Dbref) : Option Dbref :=
  if w.isMech t = true ∧ 0 < (w.unit t).carrying then some (w.unit t).carrying else none

def onTow (w : World) (u : Dbref) : Bool := w.isMech u && (w.unit u).towed

theorem carries_eq_some {w : World} {t u : Dbref} :
    w.carries t = some u ↔ w.isMech t = true ∧ 0 < u ∧ (w.unit t).carrying = u := by
  unfold carries
  split
  · rename_i holds
    simp only [Option.some.injEq, holds.1, true_and]
    constructor
    · rintro rfl
      exact ⟨holds.2, rfl⟩
    · exact fun held => held.2
  · rename_i free
    simp only [reduceCtorEq, false_iff]
    rintro ⟨isMech, pos, rfl⟩
    exact free ⟨isMech, pos⟩

theorem carries_eq_none {w : World} {t : Dbref} (isMech : w.isMech t = true) :
    w.carries t = none ↔ (w.unit t).carrying ≤ 0 := by
  simp [carries, isMech]

theorem onTow_eq_true {w : World} {u : Dbref} :
    w.onTow u = true ↔ w.isMech u = true ∧ (w.unit u).towed = true := by
  simp [onTow]

theorem onTow_eq_false {w : World} {u : Dbref} (isMech : w.isMech u = true) :
    w.onTow u = false ↔ (w.unit u).towed = false := by
  simp [onTow, isMech]

end World

/-- The pointers and flags of the tow relation mirror each other, between units of one
map. -/
structure TowLinked (w : World) : Prop where
  consistent : Consistent w
  tether : Tether w.carries w.onTow
  together : ∀ {t u}, w.carries t = some u →
    0 ≤ (w.unit t).mapindex ∧ (w.unit u).mapindex = (w.unit t).mapindex

structure TowInvariant (w : World) : Prop extends TowLinked w where
  apart : ∀ t, w.carries t ≠ some t

namespace TowInvariant

variable {w : World}

theorem inStep (invariant : TowInvariant w) : w.TowInStep where
  towed_iff {u} isMech := by
    have flag := invariant.tether.flag_iff u
    rw [World.onTow_eq_true] at flag
    have sides : ∀ t, w.carries t = some u ↔
        w.isMech t = true ∧ w.sameMap t u ∧ (w.unit t).carrying = u := by
      intro t
      constructor
      · intro carries
        have together := invariant.together carries
        have held := World.carries_eq_some.mp carries
        exact ⟨held.1, ⟨by rw [together.2]; exact together.1, together.2.symm⟩, held.2.2⟩
      · rintro ⟨carrier, _, carrying⟩
        exact World.carries_eq_some.mpr ⟨carrier, w.mech_pos u isMech, carrying⟩
    simp only [isMech, true_and, sides] at flag
    exact flag
  not_itself {u} isMech carrying := by
    exact invariant.apart u
      (World.carries_eq_some.mpr ⟨isMech, w.mech_pos u isMech, carrying⟩)
  not_both {t t'} isMech isMech' pos eq := by
    exact invariant.tether.single (World.carries_eq_some.mpr ⟨isMech, pos, rfl⟩)
      (World.carries_eq_some.mpr ⟨isMech', pos, eq.symm⟩)

end TowInvariant

structure SameTow (w w' : World) : Prop where
  isMech : w'.isMech = w.isMech
  carrying : ∀ u, (w'.unit u).carrying = (w.unit u).carrying
  towed : ∀ u, (w'.unit u).towed = (w.unit u).towed

namespace SameTow

variable {w w' w'' : World}

theorem refl (w : World) : SameTow w w := ⟨rfl, fun _ => rfl, fun _ => rfl⟩

theorem trans (fst : SameTow w w') (snd : SameTow w' w'') : SameTow w w'' where
  isMech := snd.isMech.trans fst.isMech
  carrying u := (snd.carrying u).trans (fst.carrying u)
  towed u := (snd.towed u).trans (fst.towed u)

theorem carries (eq : SameTow w w') : w'.carries = w.carries := by
  funext t
  simp only [World.carries, eq.isMech, eq.carrying]

theorem onTow (eq : SameTow w w') : w'.onTow = w.onTow := by
  funext u
  simp only [World.onTow, eq.isMech, eq.towed]

theorem of_networkOnly (only : NetworkOnly w w') : SameTow w w' where
  isMech := only.isMech
  carrying u := by
    obtain ⟨_, _, eq⟩ := only.unit u
    rw [eq]
  towed u := by
    obtain ⟨_, _, eq⟩ := only.unit u
    rw [eq]

theorem modifyUnit (w : World) (mech : Dbref) {f : Unit → Unit}
    (carrying : ∀ u, (f u).carrying = u.carrying) (towed : ∀ u, (f u).towed = u.towed) :
    SameTow w (w.modifyUnit mech f) where
  isMech := rfl
  carrying u := by
    by_cases eq : u = mech
    · rw [eq, World.modifyUnit_unit_self, carrying]
    · rw [World.modifyUnit_unit_of_ne _ _ eq]
  towed u := by
    by_cases eq : u = mech
    · rw [eq, World.modifyUnit_unit_self, towed]
    · rw [World.modifyUnit_unit_of_ne _ _ eq]

theorem carrying_of_untow (w : World) (mech o : Dbref) :
    ((w.modifyUnit mech Unit.untow).unit o).carrying = (w.unit o).carrying := by
  by_cases eq : o = mech
  · rw [eq, World.modifyUnit_unit_self, Unit.untow]
  · rw [World.modifyUnit_unit_of_ne _ _ eq]

theorem towed_of_dropCarried (w : World) (mech o : Dbref) :
    ((w.modifyUnit mech Unit.dropCarried).unit o).towed = (w.unit o).towed := by
  by_cases eq : o = mech
  · rw [eq, World.modifyUnit_unit_self, Unit.dropCarried]
  · rw [World.modifyUnit_unit_of_ne _ _ eq]

theorem modifyMap (w : World) (map : Dbref) (f : GameMap → GameMap) :
    SameTow w (w.modifyMap map f) := ⟨rfl, fun _ => rfl, fun _ => rfl⟩

theorem clearMechFromLOS (mech : Dbref) (w : World) :
    SameTow w (UnitWorld.clearMechFromLOS mech w) := by
  refine clearMechFromLOS_rule SameTow trans refl (clearSlotFromLOS_rule SameTow trans
    (fun w map _ _ => modifyMap w map _) (fun w mek => ?_) fun w mek => modifyUnit w mek (fun _ => rfl)
      fun _ => rfl) (fun w => ?_) w
  · apply modifyUnit <;>
    · intro u
      unfold Unit.loseLockOn
      split <;> rfl
  · apply modifyUnit <;>
    · intro u
      unfold Unit.loseAnyLock
      split <;> rfl

theorem leaveSlot (map mech : Dbref) (w : World) :
    SameTow w (UnitWorld.leaveSlot map mech w) := by
  have left := modifyUnit w mech (f := Unit.leave) (fun _ => rfl) fun _ => rfl
  unfold UnitWorld.leaveSlot
  simp only
  split
  · exact left
  · exact left.trans (modifyMap _ _ _)

theorem markForLOSUpdate (mech : Dbref) (w : World) :
    SameTow w (UnitWorld.markForLOSUpdate mech w) := by
  unfold UnitWorld.markForLOSUpdate
  split
  · exact refl w
  · exact modifyMap w _ _

theorem takeSlot (map mech : Dbref) (w : World) :
    SameTow w (UnitWorld.takeSlot map mech w) := by
  have entered := modifyUnit w mech
    (f := fun u => u.enter map (w.map map).slotToTake.1) (fun _ => rfl) fun _ => rfl
  exact ⟨entered.isMech, entered.carrying, entered.towed⟩

end SameTow

theorem TowLinked.congr {w w' : World} (linked : TowLinked w) (places : SamePlaces w w')
    (tows : SameTow w w') : TowLinked w' where
  consistent := linked.consistent.congr places
  tether := by
    rw [tows.carries, tows.onTow]
    exact linked.tether
  together {t u} carries := by
    rw [tows.carries] at carries
    rw [places.mapindex, places.mapindex]
    exact linked.together carries

theorem TowInvariant.congr {w w' : World} (invariant : TowInvariant w)
    (places : SamePlaces w w') (tows : SameTow w w') : TowInvariant w' where
  toTowLinked := invariant.toTowLinked.congr places tows
  apart t := by
    rw [tows.carries]
    exact invariant.apart t

section Release

variable {w : World} {t u : Dbref}

def World.release (w : World) (t u : Dbref) : World :=
  (w.modifyUnit t Unit.dropCarried).modifyUnit u Unit.untow

theorem release_places (w : World) (t u : Dbref) : SamePlaces w (w.release t u) := by
  have dropped : SamePlaces w (w.modifyUnit t Unit.dropCarried) :=
    SamePlaces.modifyUnit w t (fun _ => rfl) (fun _ => rfl) fun _ => rfl
  exact dropped.trans (SamePlaces.modifyUnit _ u (fun _ => rfl) (fun _ => rfl) fun _ => rfl)

theorem release_carrying (w : World) (t u o : Dbref) :
    ((w.release t u).unit o).carrying =
      if o = t then -1 else (w.unit o).carrying := by
  have dropped : ((w.modifyUnit t Unit.dropCarried).unit o).carrying =
      if o = t then -1 else (w.unit o).carrying := by
    by_cases eq : o = t
    · rw [eq, World.modifyUnit_unit_self, if_pos rfl, Unit.dropCarried]
    · rw [World.modifyUnit_unit_of_ne _ _ eq, if_neg eq]
  rw [← dropped]
  exact (SameTow.carrying_of_untow _ u o)

theorem release_towed (w : World) (t u o : Dbref) :
    ((w.release t u).unit o).towed =
      if o = u then false else (w.unit o).towed := by
  by_cases eq : o = u
  · rw [eq, if_pos rfl, World.release, World.modifyUnit_unit_self, Unit.untow]
  · rw [if_neg eq, World.release, World.modifyUnit_unit_of_ne _ _ eq]
    exact (SameTow.towed_of_dropCarried _ t o)

theorem release_carries (w : World) (t u : Dbref) :
    (w.release t u).carries = update w.carries t none := by
  funext o
  rw [World.carries, release_carrying]
  by_cases eq : o = t
  · simp [eq]
  · rw [if_neg eq, update_of_ne eq]
    rfl

theorem release_onTow (w : World) (t u : Dbref) :
    (w.release t u).onTow = update w.onTow u false := by
  funext o
  rw [World.onTow, release_towed]
  by_cases eq : o = u
  · simp [eq]
  · rw [if_neg eq, update_of_ne eq]
    rfl

theorem TowLinked.release (linked : TowLinked w) (carries : w.carries t = some u) :
    TowLinked (w.release t u) where
  consistent := linked.consistent.congr (release_places w t u)
  tether := by
    rw [release_carries, release_onTow]
    exact linked.tether.detach carries
  together {o another} held := by
    have places := release_places w t u
    rw [release_carries] at held
    rw [places.mapindex, places.mapindex]
    by_cases eq : o = t
    · simp [eq] at held
    · rw [update_of_ne eq] at held
      exact linked.together held

end Release

/-- Some units let go of what they carry, and nothing else happens to tows. -/
structure Eased (w w' : World) : Prop where
  linked : TowLinked w'
  isMech : w'.isMech = w.isMech
  carries : ∀ {t u}, w'.carries t = some u → w.carries t = some u
  onTow : ∀ {u}, w'.onTow u = true → w.onTow u = true

namespace Eased

variable {w w' w'' : World}

theorem refl (linked : TowLinked w) : Eased w w := ⟨linked, rfl, id, id⟩

theorem trans (fst : Eased w w') (snd : Eased w' w'') : Eased w w'' where
  linked := snd.linked
  isMech := snd.isMech.trans fst.isMech
  carries held := fst.carries (snd.carries held)
  onTow flagged := fst.onTow (snd.onTow flagged)

theorem of_same (linked : TowLinked w) (places : SamePlaces w w') (tows : SameTow w w') :
    Eased w w' where
  linked := linked.congr places tows
  isMech := tows.isMech
  carries {t u} held := by rwa [tows.carries] at held
  onTow {u} flagged := by rwa [tows.onTow] at flagged

theorem release {t u : Dbref} (linked : TowLinked w) (carries : w.carries t = some u) :
    Eased w (w.release t u) where
  linked := linked.release carries
  isMech := rfl
  carries {o another} held := by
    rw [release_carries] at held
    by_cases eq : o = t
    · simp [eq] at held
    · rwa [update_of_ne eq] at held
  onTow {o} flagged := by
    rw [release_onTow] at flagged
    by_cases eq : o = u
    · simp [eq] at flagged
    · rwa [update_of_ne eq] at flagged

theorem carries_none (eased : Eased w w') {t : Dbref} (free : w.carries t = none) :
    w'.carries t = none := by
  cases held : w'.carries t with
  | none => rfl
  | some u => exact absurd (eased.carries held) (by simp [free])

theorem onTow_false (eased : Eased w w') {u : Dbref} (loose : w.onTow u = false) :
    w'.onTow u = false := by
  cases flagged : w'.onTow u with
  | false => rfl
  | true => exact absurd (eased.onTow flagged) (by simp [loose])

theorem invariant (eased : Eased w w') (invariant : TowInvariant w) : TowInvariant w' where
  toTowLinked := eased.linked
  apart t held := invariant.apart t (eased.carries held)

end Eased

section Drop

variable {w : World} {t : Dbref}

section

variable (linked : TowLinked w) (isMech : w.isMech t = true)
include linked isMech

theorem dropCarriedUnit_eased :
    Eased w (dropCarriedUnit t w).2 ∧ (dropCarriedUnit t w).2.carries t = none := by
  by_cases free : (w.unit t).carrying ≤ 0
  · have kept : (dropCarriedUnit t w).2 = w := by simp [dropCarriedUnit, free]
    rw [kept]
    exact ⟨Eased.refl linked, (World.carries_eq_none isMech).mpr free⟩
  · have holds : w.carries t = some (w.unit t).carrying :=
      World.carries_eq_some.mpr ⟨isMech, Int.not_le.mp free, rfl⟩
    have carried := (World.onTow_eq_true.mp (linked.tether.flagged holds)).1
    have released : (dropCarriedUnit t w).2 = w.release t (w.unit t).carrying := by
      simp [dropCarriedUnit, free, World.getMech, carried, World.release]
    rw [released]
    refine ⟨Eased.release linked holds, ?_⟩
    rw [release_carries, update_self]

theorem shutdown_eased : Eased w (shutdown t w) ∧ (shutdown t w).carries t = none := by
  have off := Eased.of_same linked
    (SamePlaces.modifyUnit w t (f := Unit.powerOff) (fun _ => rfl) (fun _ => rfl) fun _ => rfl)
    (SameTow.modifyUnit w t (fun _ => rfl) fun _ => rfl)
  obtain ⟨dropped, free⟩ := dropCarriedUnit_eased off.linked (t := t)
    (by rw [off.isMech]; exact isMech)
  exact ⟨off.trans dropped, free⟩

theorem destroy_eased : Eased w (destroy t w) := by
  have down := (shutdown_eased linked isMech).1
  refine down.trans (Eased.of_same down.linked ?_ ?_)
  · exact SamePlaces.modifyUnit _ t (fun _ => rfl) (fun _ => rfl) fun _ => rfl
  · exact SameTow.modifyUnit _ t (fun _ => rfl) fun _ => rfl

end

theorem suffer_eased (linked : TowLinked w) (mishap : Mishap) :
    Eased w (suffer w mishap) := by
  cases mishap with
  | snap mech =>
    simp only [suffer]
    split
    · rename_i isMech
      exact (dropCarriedUnit_eased linked isMech).1
    · exact Eased.refl linked
  | drown mech =>
    simp only [suffer]
    split
    · rename_i isMech
      exact destroy_eased linked isMech
    · exact Eased.refl linked

theorem mishaps_eased (linked : TowLinked w) (mishaps : List Mishap) :
    Eased w (mishaps.foldl suffer w) :=
  Machine.foldl_invariant (fun _ mishap eased =>
    eased.trans (suffer_eased eased.linked mishap)) mishaps (Eased.refl linked)

end Drop

section Hitch

variable {w : World} {mech target : Dbref}

theorem hitch_places (mech target : Dbref) (w : World) :
    SamePlaces w (hitch mech target w) := by
  have taken : SamePlaces w (w.modifyUnit mech fun u => u.setCarrying target) :=
    SamePlaces.modifyUnit w mech (fun _ => rfl) (fun _ => rfl) fun _ => rfl
  exact taken.trans
    (SamePlaces.modifyUnit _ target (fun _ => rfl) (fun _ => rfl) fun _ => rfl)

theorem hitch_carries (isMech : w.isMech mech = true) (isTarget : w.isMech target = true) :
    (hitch mech target w).carries = update w.carries mech (some target) := by
  funext o
  have carrying : ((hitch mech target w).unit o).carrying =
      ((w.modifyUnit mech fun u => u.setCarrying target).unit o).carrying := by
    by_cases eq : o = target
    · rw [hitch, eq, World.modifyUnit_unit_self, Unit.setTowed]
    · rw [hitch, World.modifyUnit_unit_of_ne _ _ eq]
  rw [World.carries, carrying]
  by_cases eq : o = mech
  · have pos := w.mech_pos target isTarget
    simp [eq, hitch, isMech, Unit.setCarrying, pos]
  · rw [World.modifyUnit_unit_of_ne _ _ eq, update_of_ne eq]
    rfl

theorem hitch_onTow (isTarget : w.isMech target = true) :
    (hitch mech target w).onTow = update w.onTow target true := by
  funext o
  by_cases eq : o = target
  · simp [World.onTow, hitch, eq, isTarget, Unit.setTowed]
  · rw [World.onTow, hitch, World.modifyUnit_unit_of_ne _ _ eq,
      update_of_ne eq]
    by_cases here : o = mech
    · simp [here, Unit.setCarrying, World.onTow]
    · rw [World.modifyUnit_unit_of_ne _ _ here]
      rfl

theorem TowLinked.hitch (linked : TowLinked w) (isMech : w.isMech mech = true)
    (isTarget : w.isMech target = true) (free : w.carries mech = none)
    (loose : w.onTow target = false) (placed : 0 ≤ (w.unit mech).mapindex)
    (together : (w.unit target).mapindex = (w.unit mech).mapindex) :
    TowLinked (hitch mech target w) where
  consistent := linked.consistent.congr (hitch_places mech target w)
  tether := by
    rw [hitch_carries isMech isTarget, hitch_onTow isTarget]
    exact linked.tether.attach free loose
  together {t u} held := by
    have places := hitch_places mech target w
    rw [hitch_carries isMech isTarget] at held
    rw [places.mapindex, places.mapindex]
    by_cases eq : t = mech
    · rw [eq, update_self] at held
      rw [eq, ← some.inj held]
      exact ⟨placed, together⟩
    · rw [update_of_ne eq] at held
      exact linked.together held

theorem shutdownTowed_eased (linked : TowLinked w) (isTarget : w.isMech target = true) :
    Eased w (shutdownTowed target w) ∧
      ((w.unit target).destroyed = false → (shutdownTowed target w).carries target = none) := by
  unfold shutdownTowed
  split
  · rename_i destroyed
    exact ⟨Eased.refl linked, fun whole => absurd destroyed (by simp [whole])⟩
  · obtain ⟨eased, free⟩ := shutdown_eased linked isTarget
    exact ⟨eased, fun _ => free⟩

theorem hitch_invariant (invariant : TowInvariant w) (isMech : w.isMech mech = true)
    (isTarget : w.isMech target = true) (free : w.carries mech = none)
    (loose : w.onTow target = false) (placed : 0 ≤ (w.unit mech).mapindex)
    (together : (w.unit target).mapindex = (w.unit mech).mapindex) {mishaps : List Mishap}
    (itself : target = mech → mishaps = [] ∧ (w.unit mech).destroyed = false) :
    TowInvariant (shutdownTowed target (mishaps.foldl suffer (hitch mech target w))) := by
  have hitched := invariant.toTowLinked.hitch isMech isTarget free loose placed together
  have wet := mishaps_eased hitched mishaps
  have isTarget' : (mishaps.foldl suffer (hitch mech target w)).isMech target = true := by
    rw [wet.isMech]
    exact isTarget
  obtain ⟨down, dropped⟩ := shutdownTowed_eased wet.linked isTarget'
  refine ⟨down.linked, fun t held => ?_⟩
  have pre := wet.carries (down.carries held)
  rw [hitch_carries isMech isTarget] at pre
  by_cases eq : t = mech
  · -- only a unit that took itself in tow is left, and that one is shut down
    rw [eq, update_self] at pre
    have self : target = mech := some.inj pre
    obtain ⟨dry, whole⟩ := itself self
    subst self
    have alive : ((mishaps.foldl suffer (hitch target target w)).unit target).destroyed =
        false := by
      rw [dry]
      simpa [hitch, Unit.setTowed, Unit.setCarrying] using whole
    rw [eq] at held
    simp [dropped alive] at held
  · rw [update_of_ne eq] at pre
    exact invariant.apart t pre

end Hitch

section Commands

variable {w : World} {mech : Dbref}

theorem refusal_eq_none {checks : List (Bool × String)} (passed : refusal checks = none) :
    ∀ check ∈ checks, check.1 = false := by
  intro check mem
  have hf := map_eq_none_iff.mp passed
  exact Bool.eq_false_iff.mpr (find?_eq_none.mp hf check mem)

variable {perform : World → Outcome}

theorem checked_keeps {checks : List (Bool × String)} (holds : TowInvariant w)
    (keeps : (∀ check ∈ checks, check.1 = false) → TowInvariant (perform w).2) :
    TowInvariant (checked checks w perform).2 := by
  unfold checked
  cases passed : refusal checks with
  | some message => exact holds
  | none => exact keeps (refusal_eq_none passed)

theorem commonChecks_world (consistent : Consistent w) (scene : Scene)
    (isMech : w.isMech mech = true) : (commonChecks scene mech w).2 = w := by
  unfold commonChecks checked
  simp only
  split
  · rfl
  · rename_i passed
    have placed : (w.unit mech).mapindex < 0 → False := by
      have onMap := refusal_eq_none passed
        (decide ((w.unit mech).mapindex < 0), "You are on no map!") (by simp)
      simpa using onMap
    rw [if_pos (consistent.own isMech (Int.not_lt.mp placed)).1]

variable {scene : Scene}

theorem commonChecks_whole {w' : World} (passed : commonChecks scene mech w = (none, w')) :
    (w.unit mech).destroyed = false := by
  unfold commonChecks checked at passed
  simp only at passed
  split at passed
  · simp at passed
  · rename_i through
    exact refusal_eq_none through ((w.unit mech).destroyed, "You are destroyed!") (by simp)

theorem cch_keeps (holds : TowInvariant w) (isMech : w.isMech mech = true)
    (keeps : (w.unit mech).destroyed = false → TowInvariant (perform w).2) :
    TowInvariant (cch scene mech w perform).2 := by
  have eq := commonChecks_world holds.consistent scene isMech
  unfold cch
  split
  · rename_i w' passed
    have whole := commonChecks_whole passed
    rw [passed] at eq
    rw [show w' = w from eq]
    exact keeps whole
  · rw [eq]
    exact holds

theorem cchUnlessGod_keeps (holds : TowInvariant w) (isMech : w.isMech mech = true)
    (keeps : scene.god = true ∨ (w.unit mech).destroyed = false → TowInvariant (perform w).2) :
    TowInvariant (cchUnlessGod scene mech w perform).2 := by
  unfold cchUnlessGod
  split
  · rename_i god
    exact keeps (Or.inl god)
  · exact cch_keeps holds isMech fun whole => keeps (Or.inr whole)

variable {args : List MechId}

theorem oneArgument_keeps {perform : MechId → Outcome} (holds : TowInvariant w)
    (keeps : ∀ arg, args = [arg] → TowInvariant (perform arg).2) :
    TowInvariant (oneArgument args w perform).2 := by
  unfold oneArgument
  split
  · rename_i arg
    exact keeps arg rfl
  · exact holds

theorem resetMapindex_keeps (holds : TowInvariant w) (off : (w.unit mech).mapindex < 0) :
    TowInvariant (w.modifyUnit mech fun u => { u with mapindex := -1 }) := by
  have tows : SameTow w (w.modifyUnit mech fun u => { u with mapindex := -1 }) :=
    SameTow.modifyUnit w mech (fun _ => rfl) fun _ => rfl
  have place : (w.modifyUnit mech fun u => { u with mapindex := -1 }).place = w.place := by
    funext o
    by_cases eq : o = mech
    · have away : ¬ 0 ≤ (w.unit mech).mapindex := Int.not_le.mpr off
      simp [World.place, eq, away]
    · simp [World.place, World.modifyUnit_unit_of_ne _ _ eq]
  refine ⟨⟨Consistent.of_mirror ?_ holds.consistent.room, ?_, ?_⟩, ?_⟩
  · rw [place]
    exact holds.consistent.mirror
  · rw [tows.carries, tows.onTow]
    exact holds.tether
  · intro t u held
    rw [tows.carries] at held
    obtain ⟨placed, together⟩ := holds.together held
    have ne : ∀ {o}, 0 ≤ (w.unit o).mapindex → o ≠ mech := by
      rintro o there rfl
      exact absurd off (Int.not_lt.mpr there)
    rw [World.modifyUnit_unit_of_ne _ _ (ne placed),
      World.modifyUnit_unit_of_ne _ _ (ne (together ▸ placed))]
    exact ⟨placed, together⟩
  · intro t
    rw [tows.carries]
    exact holds.apart t

theorem sighted_keeps {arg : MechId} {message : String}
    {perform : Dbref → World → Outcome} (holds : TowInvariant w) (isMech : w.isMech mech = true)
    (keeps : ∀ target, findTargetDBREFFromMapNumber mech arg w = (some target, w) →
      w.isMech target = true → 0 ≤ (w.unit mech).mapindex →
      (w.unit target).mapindex = (w.unit mech).mapindex → TowInvariant (perform target w).2) :
    TowInvariant (sighted scene mech arg message w perform).2 := by
  unfold sighted
  split
  · rename_i w' lost
    unfold findTargetDBREFFromMapNumber at lost
    split at lost
    · obtain ⟨_, rfl⟩ := Prod.mk.inj lost
      exact holds
    · rename_i placed
      split at lost
      · rename_i offMap
        obtain ⟨_, rfl⟩ := Prod.mk.inj lost
        apply resetMapindex_keeps holds
        by_contra there
        have isMap := (holds.consistent.own isMech (Int.not_lt.mp there)).1
        simp [World.getMap, isMap] at offMap
      · obtain ⟨_, rfl⟩ := Prod.mk.inj lost
        exact holds
  · rename_i target w' hf
    obtain ⟨rfl, isTarget, there, together⟩ := findTarget_spec holds.consistent hf
    split
    · exact keeps target hf isTarget there together
    · exact holds

/-- A destroyed unit with orders from `GOD` to pick up itself. -/
def World.ruinLiftsItself (w : World) (scene : Scene) (mech : Dbref) (args : List MechId) :
    Prop :=
  scene.god = true ∧ (w.unit mech).destroyed = true ∧
    ∃ arg, args = [arg] ∧ (findTargetDBREFFromMapNumber mech arg w).1 = some mech

instance (w : World) (scene : Scene) (mech : Dbref) :
    (args : List MechId) → Decidable (w.ruinLiftsItself scene mech args)
  | [] => isFalse (by simp [World.ruinLiftsItself])
  | [arg] => decidable_of_iff
      (scene.god = true ∧ (w.unit mech).destroyed = true ∧
        (findTargetDBREFFromMapNumber mech arg w).1 = some mech)
      (by simp [World.ruinLiftsItself])
  | _ :: _ :: _ => isFalse (by simp [World.ruinLiftsItself])

section

variable (holds : TowInvariant w) (isMech : w.isMech mech = true)
include holds isMech

theorem lift_keeps {target : Dbref} (isTarget : w.isMech target = true)
    (placed : 0 ≤ (w.unit mech).mapindex)
    (together : (w.unit target).mapindex = (w.unit mech).mapindex)
    (free : (w.unit mech).carrying ≤ 0) (loose : (w.unit target).towed = false)
    (whole : target = mech → (w.unit mech).destroyed = false) :
    TowInvariant (lift scene mech target w) := by
  -- the target first drops what it carries
  obtain ⟨dropped, eased, places, kept⟩ : ∃ dropped,
      Eased w dropped ∧ SamePlaces w dropped ∧ (target = mech → dropped = w) ∧
        lift scene mech target w = shutdownTowed target
          ((if scene.throughIce mech target then scene.mishaps else []).foldl suffer
            (hitch mech target dropped)) := by
    refine ⟨if 0 < (w.unit target).carrying then (dropCarriedUnit target w).2 else w,
      ?_, ?_, ?_, ?_⟩
    · split
      · exact (dropCarriedUnit_eased holds.toTowLinked isTarget).1
      · exact Eased.refl holds.toTowLinked
    · split
      · exact dropCarriedUnit_places target w
      · exact SamePlaces.refl w
    · rintro rfl
      rw [if_neg (Int.not_lt.mpr free)]
    · unfold lift
      simp only
      split <;> split <;> rfl
  have invariant := eased.invariant holds
  rw [kept.2]
  apply hitch_invariant invariant
  · rw [eased.isMech]
    exact isMech
  · rw [eased.isMech]
    exact isTarget
  · exact eased.carries_none ((World.carries_eq_none isMech).mpr free)
  · exact eased.onTow_false ((World.onTow_eq_false isTarget).mpr loose)
  · rw [places.mapindex]
    exact placed
  · rw [places.mapindex, places.mapindex]
    exact together
  · intro itself
    refine ⟨?_, ?_⟩
    · have dry : scene.throughIce mech target = false := by
        rw [itself]
        simp only [Scene.throughIce, Bool.and_eq_false_iff, decide_eq_false_iff_not]
        exact Or.inr fun both => absurd both.1 (Int.not_le.mpr both.2)
      simp [dry]
    · rw [kept.1 itself]
      exact whole itself

theorem mechPickup_keeps (allowed : ¬ w.ruinLiftsItself scene mech args) :
    TowInvariant (mechPickup scene mech args w).2 := by
  apply cchUnlessGod_keeps holds isMech
  intro who
  apply oneArgument_keeps holds
  intro arg argument
  apply sighted_keeps holds isMech
  intro target hf isTarget placed together
  apply checked_keeps holds
  intro passed
  have loose := passed ((w.unit target).towed,
    "That target's already being towed by someone!") (by simp [pickupChecks])
  split
  · exact holds
  · apply checked_keeps holds
    intro through
    have free := through (decide (0 < (w.unit mech).carrying),
      "You are already carrying a Mech") (by simp [towChecks])
    refine lift_keeps holds isMech isTarget placed together ?_ loose ?_
    · simpa using free
    · rintro rfl
      rcases who with god | whole
      · by_contra ruined
        exact allowed ⟨god, by simpa using ruined, arg, argument, by rw [hf]⟩
      · exact whole

theorem mechAttachcables_keeps : TowInvariant (mechAttachcables scene mech args w).2 := by
  apply cchUnlessGod_keeps holds isMech
  intro _
  split
  · rename_i tow towed
    apply checked_keeps holds
    intro _
    apply sighted_keeps holds isMech
    intro towMech _ isTow placed near
    apply checked_keeps holds
    intro passed
    have free := passed (decide (0 < (w.unit towMech).carrying),
      "That towing unit is towing someone else!") (by simp [towerChecks])
    have whole := passed ((w.unit towMech).destroyed, "Destroyed units can not tow!")
      (by simp [towerChecks])
    apply sighted_keeps holds isMech
    intro target _ isTarget _ together
    apply checked_keeps holds
    intro through
    have loose := through ((w.unit target).towed,
      "That target is already being towed by someone!") (by simp [towedChecks])
    refine @hitch_invariant w towMech target holds isTow isTarget ?_ ?_ (near ▸ placed)
      (together.trans near.symm) [] fun _ => ⟨rfl, whole⟩
    · exact (World.carries_eq_none isTow).mpr (by simpa using free)
    · exact (World.onTow_eq_false isTarget).mpr loose
  · exact holds

theorem dropCarriedUnit_keeps : TowInvariant (dropCarriedUnit mech w).2 :=
  (dropCarriedUnit_eased holds.toTowLinked isMech).1.invariant holds

theorem mechDetachcables_keeps : TowInvariant (mechDetachcables scene mech args w).2 := by
  apply cch_keeps holds isMech
  intro _
  apply oneArgument_keeps holds
  intro arg _
  apply sighted_keeps holds isMech
  intro towMech _ isTow _ _
  apply checked_keeps holds
  intro passed
  have busy := passed (decide ((w.unit towMech).carrying ≤ 0),
    "That unit is not towing anyone!") (by simp [detachChecks])
  have dropped := dropCarriedUnit_keeps holds isTow
  unfold dropCarriedUnit at dropped
  simp only [if_neg (of_decide_eq_false busy)] at dropped
  split at dropped <;> rename_i named
  · simpa [named] using dropped
  · simpa [named] using dropped

theorem mechDropoff_keeps : TowInvariant (mechDropoff scene mech w).2 :=
  cchUnlessGod_keeps holds isMech fun _ => dropCarriedUnit_keeps holds isMech

end

end Commands

section Placing

variable {w : World} {mech map : Dbref}

theorem findCarrier_eq (consistent : Consistent w) {t : Dbref} (carries : w.carries t = some mech)
    (alone : ∀ o, w.carries o = some mech → o = t)
    (here : (w.unit t).mapindex = map) (placed : 0 ≤ map) :
    findCarrier w map mech = some t := by
  obtain ⟨isMech, pos, carrying⟩ := World.carries_eq_some.mp carries
  obtain ⟨_, below, slot⟩ := consistent.own isMech (by rw [here]; exact placed)
  rw [here] at below slot
  have mem : t ∈ (List.range (w.map map).firstFree).filterMap fun i =>
      w.getMech ((w.map map).mechsOnMap i) := by
    simp only [mem_filterMap, mem_range, World.getMech_eq_some]
    exact ⟨(w.unit t).mapnumber, below, by rw [slot]; exact isMech, slot⟩
  unfold findCarrier
  cases hf : List.find? (fun t => (w.unit t).carrying == mech)
      ((List.range (w.map map).firstFree).filterMap fun i =>
        w.getMech ((w.map map).mechsOnMap i)) with
  | none => exact absurd carrying (by simpa using find?_eq_none.mp hf t mem)
  | some o =>
    have holds := find?_some hf
    have listed := mem_of_find?_eq_some hf
    simp only [mem_filterMap, World.getMech_eq_some] at listed
    obtain ⟨_, _, isOther, rfl⟩ := listed
    rw [alone _ (World.carries_eq_some.mpr ⟨isOther, pos, eq_of_beq holds⟩)]

def World.untied (w : World) (mech : Dbref) : Prop :=
  w.carries mech = none ∧ w.onTow mech = false

theorem TowInvariant.untied_of_off (invariant : TowInvariant w)
    (off : (w.unit mech).mapindex < 0) : w.untied mech := by
  constructor
  · cases held : w.carries mech with
    | none => rfl
    | some u => exact absurd (invariant.together held).1 (Int.not_le.mpr off)
  · cases flagged : w.onTow mech with
    | false => rfl
    | true =>
      obtain ⟨t, held⟩ := invariant.tether.held flagged
      obtain ⟨placed, together⟩ := invariant.together held
      exact absurd (together ▸ placed) (Int.not_le.mpr off)

theorem TowInvariant.moved {w' : World} (invariant : TowInvariant w) (tows : SameTow w w')
    (consistent : Consistent w') (untied : w.untied mech)
    (others : ∀ o, o ≠ mech → (w'.unit o).mapindex = (w.unit o).mapindex) :
    TowInvariant w' := by
  refine ⟨⟨consistent, ?_, ?_⟩, ?_⟩
  · rw [tows.carries, tows.onTow]
    exact invariant.tether
  · intro t u held
    rw [tows.carries] at held
    have carrier : t ≠ mech := by
      rintro rfl
      simp [untied.1] at held
    have carried : u ≠ mech := by
      rintro rfl
      exact invariant.tether.not_held untied.2 t held
    rw [others t carrier, others u carried]
    exact invariant.together held
  · intro t
    rw [tows.carries]
    exact invariant.apart t

theorem leaveSlot_mapindex_of_ne (map mech : Dbref) (w : World) {o : Dbref}
    (ne : o ≠ mech) :
    ((leaveSlot map mech w).unit o).mapindex = (w.unit o).mapindex := by
  unfold leaveSlot
  simp only
  split <;> simp [World.modifyUnit_unit_of_ne _ _ ne]

section

variable (invariant : TowInvariant w) (isMech : w.isMech mech = true)
  (isMap : w.isMap (w.unit mech).mapindex = true)
include invariant isMech isMap

theorem removeMechFromMap_tows :
    ∃ released, TowInvariant released ∧ released.onTow mech = false ∧
      released.carries mech = w.carries mech ∧
      SameTow released (removeMechFromMap (w.unit mech).mapindex mech w) ∧
      ∀ o, o ≠ mech →
        ((removeMechFromMap (w.unit mech).mapindex mech w).unit o).mapindex =
          (released.unit o).mapindex := by
  have cleared := SamePlaces.clearMechFromLOS mech w
  obtain ⟨left, leaving⟩ : ∃ left, left =
      leaveSlot (w.unit mech).mapindex mech (clearMechFromLOS mech w) := ⟨_, rfl⟩
  have tows : SameTow w left := by
    rw [leaving]
    exact (SameTow.clearMechFromLOS mech w).trans (SameTow.leaveSlot _ mech _)
  have others : ∀ o, o ≠ mech →
      (left.unit o).mapindex = (w.unit o).mapindex := by
    intro o ne
    rw [leaving, leaveSlot_mapindex_of_ne _ _ _ ne, cleared.mapindex]
  have consistent : Consistent left := by
    rw [leaving]
    apply leaveSlot_consistent (invariant.consistent.congr cleared)
    · rw [cleared.isMech]
      exact isMech
    · rw [cleared.isMap]
      exact isMap
    · rw [cleared.mapindex]
      exact Or.inl rfl
  have counted : ∀ middle, SameTow middle (middle.modifyUnit mech Unit.forgetEnemies) :=
    fun middle => SameTow.modifyUnit middle mech (fun _ => rfl) fun _ => rfl
  have countedThere : ∀ middle : World, SamePlaces middle
      (middle.modifyUnit mech Unit.forgetEnemies) :=
    fun middle => SamePlaces.modifyUnit middle mech (fun _ => rfl) (fun _ => rfl) fun _ => rfl
  have removed : removeMechFromMap (w.unit mech).mapindex mech w =
      (releaseTow (w.unit mech).mapindex mech left).modifyUnit mech Unit.forgetEnemies := by
    rw [leaving]
    rfl
  rw [removed]
  cases flagged : w.onTow mech with
  | false =>
    have loose := (World.onTow_eq_false isMech).mp flagged
    rw [releaseTow, if_neg (by rw [tows.towed, loose]; simp)]
    refine ⟨w, invariant, flagged, rfl, tows.trans (counted left), fun o ne => ?_⟩
    rw [(countedThere left).mapindex, others o ne]
  | true =>
    obtain ⟨t, held⟩ := invariant.tether.held flagged
    obtain ⟨placed, together⟩ := invariant.together held
    have ne : t ≠ mech := by
      rintro rfl
      exact invariant.apart t held
    have hf : findCarrier left (w.unit mech).mapindex mech = some t := by
      apply findCarrier_eq consistent
      · rw [tows.carries]
        exact held
      · intro o heldToo
        rw [tows.carries] at heldToo
        exact invariant.tether.single heldToo held
      · rw [others t ne]
        exact together.symm
      · rw [together]
        exact placed
    have towed := (World.onTow_eq_true.mp flagged).2
    have freed : releaseTow (w.unit mech).mapindex mech left = left.release t mech := by
      rw [releaseTow, if_pos (by rw [tows.towed, towed]), hf]
      rfl
    rw [freed]
    have released : SameTow (w.release t mech) (left.release t mech) := by
      refine ⟨tows.isMech, fun u => ?_, fun u => ?_⟩
      · rw [release_carrying, release_carrying, tows.carrying]
      · rw [release_towed, release_towed, tows.towed]
    refine ⟨w.release t mech, (Eased.release invariant.toTowLinked held).invariant invariant,
      ?_, ?_, released.trans (counted _), fun o apart => ?_⟩
    · rw [release_onTow, update_self]
    · rw [release_carries, update_of_ne (Ne.symm ne)]
    · rw [(countedThere _).mapindex, (release_places left t mech).mapindex,
        (release_places w t mech).mapindex, others o apart]

theorem removeMechFromMap_keeps (free : (w.unit mech).carrying ≤ 0) :
    TowInvariant (removeMechFromMap (w.unit mech).mapindex mech w) := by
  obtain ⟨released, kept, loose, carries, tows, others⟩ :=
    removeMechFromMap_tows invariant isMech isMap
  have untied : released.untied mech :=
    ⟨carries.trans ((World.carries_eq_none isMech).mpr free), loose⟩
  exact kept.moved tows (removeMechFromMap_consistent invariant.consistent isMech isMap
    (Or.inl rfl)) untied others

theorem leaveMap_keeps {left : World}
    (free : (w.unit mech).carrying ≤ 0) (leaving : leaveMap mech w = some left) :
    TowInvariant left := by
  obtain ⟨w', leaves, only⟩ := leaveMap_spec mech w
  obtain rfl : w' = left := some.inj (leaves.symm.trans leaving)
  have removed := removeMechFromMap_keeps invariant isMech isMap free
  have dropped := removed.congr
    (SamePlaces.modifyUnit _ mech (f := Unit.dropTag) (fun _ => rfl) (fun _ => rfl) fun _ => rfl)
    (SameTow.modifyUnit _ mech (fun _ => rfl) fun _ => rfl)
  exact dropped.congr (SamePlaces.of_networkOnly only) (SameTow.of_networkOnly only)

end

theorem takeSlot_mapindex_of_ne (map mech : Dbref) (w : World) {o : Dbref}
    (ne : o ≠ mech) :
    ((takeSlot map mech w).unit o).mapindex = (w.unit o).mapindex := by
  simp [takeSlot, World.modifyUnit_unit_of_ne _ _ ne]

section

variable (invariant : TowInvariant w) (isMech : w.isMech mech = true)
include invariant isMech

theorem addMechToMap_keeps (isMap : w.isMap map = true) (off : (w.unit mech).mapindex < 0)
    (room : (w.map map).firstFree ≠ maxMechsPerMap) : TowInvariant (addMechToMap map mech w) := by
  have untied := invariant.untied_of_off off
  have taken := SameTow.takeSlot map mech w
  have loose : ((takeSlot map mech w).unit mech).towed = false := by
    rw [taken.towed]
    exact (World.onTow_eq_false isMech).mp untied.2
  have seated : TowInvariant (takeSlot map mech w) :=
    invariant.moved taken (takeSlot_consistent invariant.consistent isMech isMap off room)
      untied fun o ne => takeSlot_mapindex_of_ne map mech w ne
  unfold addMechToMap
  split
  · exact invariant
  · rw [dropTow, if_neg (by simp [loose])]
    exact seated.congr (SamePlaces.markForLOSUpdate mech _) (SameTow.markForLOSUpdate mech _)

theorem enterMap_keeps {ids : List MechId} {w' : World} (isMap : w.isMap map = true)
    (off : (w.unit mech).mapindex < 0) (entered : enterMap mech map ids w = some w') :
    TowInvariant w' := by
  rcases enterMap_cases entered with rfl | ⟨room, targ, rfl⟩
  · exact invariant
  · exact (addMechToMap_keeps invariant isMech isMap off room).congr
      (SamePlaces.modifyUnit _ mech (fun _ => rfl) (fun _ => rfl) fun _ => rfl)
      (SameTow.modifyUnit _ mech (fun _ => rfl) fun _ => rfl)

theorem mechRsetmapindex_keeps {newindex : Dbref} {ids : List MechId} {w' : World}
    (free : w.TakesOff mech newindex → (w.unit mech).carrying ≤ 0)
    (moved : mechRsetmapindex mech newindex ids w = some w') : TowInvariant w' := by
  rcases mechRsetmapindex_cases moved with
    rfl | ⟨takesOff, left, leaving, rfl | ⟨newMap, entered⟩⟩ | ⟨off, newMap, entered⟩
  · exact invariant
  · exact leaveMap_keeps invariant isMech (isMap_of_validMap takesOff.2) (free takesOff)
      leaving
  · have oldMap := isMap_of_validMap takesOff.2
    have kept := leaveMap_keeps invariant isMech oldMap (free takesOff) leaving
    obtain ⟨_, mechs, maps, off⟩ :=
      leaveMap_consistent invariant.consistent isMech oldMap leaving
    refine enterMap_keeps kept (mechs ▸ isMech) (maps ▸ newMap) ?_ entered
    rw [off]
    decide
  · refine enterMap_keeps invariant isMech newMap ?_ entered
    rw [off]
    decide

theorem newfreemech_keeps
    (free : w.isMap (w.unit mech).mapindex = true → (w.unit mech).carrying ≤ 0) :
    TowInvariant (newfreemech mech w) := by
  unfold newfreemech
  split
  · split
    · exact invariant
    · rename_i hf
      obtain ⟨isMap, rfl⟩ := World.getMap_eq_some.mp hf
      exact removeMechFromMap_keeps invariant isMech isMap (free isMap)
  · exact invariant

end

end Placing

/-- The steps that keep the tow relation: no unit leaves its map while it carries
another, and no destroyed unit picks up itself. -/
def TowOp.KeepsTow (w : World) : TowOp → Prop
  | .pickup scene mech args => ¬ w.ruinLiftsItself scene mech args
  | .rsetmapindex mech newindex _ =>
    w.TakesOff mech newindex → (w.unit mech).carrying ≤ 0
  | .free mech => w.isMap (w.unit mech).mapindex = true → (w.unit mech).carrying ≤ 0
  | _ => True

instance (w : World) : (op : TowOp) → Decidable (op.KeepsTow w)
  | .pickup scene mech args => inferInstanceAs (Decidable (¬ w.ruinLiftsItself scene mech args))
  | .rsetmapindex mech newindex _ =>
    inferInstanceAs (Decidable (w.TakesOff mech newindex → (w.unit mech).carrying ≤ 0))
  | .free mech =>
    inferInstanceAs (Decidable
      (w.isMap (w.unit mech).mapindex = true → (w.unit mech).carrying ≤ 0))
  | .attachcables _ _ _ => isTrue trivial
  | .detachcables _ _ _ => isTrue trivial
  | .dropoff _ _ => isTrue trivial
  | .startup _ => isTrue trivial
  | .shutdown _ => isTrue trivial
  | .destroy _ => isTrue trivial

theorem tow_keeps {w w' : World} {op : TowOp} (invariant : TowInvariant w)
    (keeps : op.KeepsTow w) (stepped : w.tow op = some w') : TowInvariant w' := by
  unfold World.tow at stepped
  split at stepped
  · rename_i isMech
    cases op with
    | pickup scene mech args =>
      obtain rfl := some.inj stepped
      exact mechPickup_keeps invariant isMech keeps
    | attachcables scene mech args =>
      obtain rfl := some.inj stepped
      exact mechAttachcables_keeps invariant isMech
    | detachcables scene mech args =>
      obtain rfl := some.inj stepped
      exact mechDetachcables_keeps invariant isMech
    | dropoff scene mech =>
      obtain rfl := some.inj stepped
      exact mechDropoff_keeps invariant isMech
    | rsetmapindex mech newindex ids =>
      exact mechRsetmapindex_keeps invariant isMech keeps stepped
    | free mech =>
      obtain rfl := some.inj stepped
      exact newfreemech_keeps invariant isMech keeps
    | startup mech =>
      obtain rfl := some.inj stepped
      exact invariant.congr
        (SamePlaces.modifyUnit w mech (fun _ => rfl) (fun _ => rfl) fun _ => rfl)
        (SameTow.modifyUnit w mech (fun _ => rfl) fun _ => rfl)
    | shutdown mech =>
      obtain rfl := some.inj stepped
      exact (shutdown_eased invariant.toTowLinked isMech).1.invariant invariant
    | destroy mech =>
      obtain rfl := some.inj stepped
      exact (destroy_eased invariant.toTowLinked isMech).invariant invariant
  · simp at stepped

def World.unhitched (mechs maps : List Dbref) (unit : Dbref → Unit) : World :=
  World.start mechs maps fun ref => { unit ref with towed := false, carrying := -1 }

theorem unhitched_invariant (mechs maps : List Dbref) (unit : Dbref → Unit) :
    TowInvariant (World.unhitched mechs maps unit) := by
  have carries : ∀ t, (World.unhitched mechs maps unit).carries t = none := by
    intro t
    simp [World.carries, World.unhitched, World.start]
  have onTow : ∀ u, (World.unhitched mechs maps unit).onTow u = false := by
    intro u
    simp [World.onTow, World.unhitched, World.start]
  refine ⟨⟨start_consistent mechs maps _, ⟨?_, ?_, ?_⟩, ?_⟩, ?_⟩
  · intro t u held
    simp [carries] at held
  · intro u flagged
    simp [onTow] at flagged
  · intro one two u held
    simp [carries] at held
  · intro t u held
    simp [carries] at held
  · intro t
    simp [carries]

/-- In every run whose steps keep the tow relation, every state reached has it. -/
theorem tow_in_step {mechs maps : List Dbref} {unit : Dbref → Unit} {ops : List TowOp}
    {w' : World}
    (keeps : Machine.Guarded World.tow (fun w op => op.KeepsTow w)
      (World.unhitched mechs maps unit) ops)
    (ran : Machine.run World.tow (World.unhitched mechs maps unit) ops = some w') :
    w'.TowInStep :=
  (Machine.run_guarded (fun _ _ _ invariant keeps stepped =>
    tow_keeps invariant keeps stepped) (unhitched_invariant mechs maps unit) keeps ran).inStep

def towTruck : Rig := { (default : Rig) with tons := 20, towable := true, rightGrip := true }

/-- `GOD` gives the orders, and every unit sees every other. -/
def towYard : Scene :=
  { (default : Scene) with rig := fun _ => towTruck, sees := fun _ _ => true, god := true }

/-- A unit picks another one up, drops it and picks it up again; then the towed unit changes
maps. -/
theorem tow_in_step_yard :
    ∃ w', Machine.run World.tow (World.unhitched [1, 2] [10, 11] default)
      [.rsetmapindex 1 10 [(65, 65)], .rsetmapindex 2 10 [(66, 66)],
        .pickup towYard 1 [(66, 66)], .dropoff towYard 1,
        .pickup towYard 1 [(66, 66)], .rsetmapindex 2 11 [(66, 66)]] = some w' ∧
      w'.TowInStep := by
  have keeps : Machine.Guarded World.tow (fun w op => op.KeepsTow w)
      (World.unhitched [1, 2] [10, 11] default)
      [.rsetmapindex 1 10 [(65, 65)], .rsetmapindex 2 10 [(66, 66)],
        .pickup towYard 1 [(66, 66)], .dropoff towYard 1,
        .pickup towYard 1 [(66, 66)], .rsetmapindex 2 11 [(66, 66)]] := by decide
  exact ⟨_, rfl, tow_in_step keeps rfl⟩

/-- The relation breaks when a unit leaves its map and what it carries stays, and when a
destroyed unit picks itself up. -/
theorem tow_out_of_step :
    (∃ w', Machine.run World.tow (World.unhitched [1, 2] [10] default)
      [.rsetmapindex 1 10 [(65, 65)], .rsetmapindex 2 10 [(66, 66)],
        .pickup towYard 1 [(66, 66)], .rsetmapindex 1 (-1) []] = some w' ∧
      ¬ w'.TowInStep) ∧
    (∃ w', Machine.run World.tow (World.unhitched [1] [10] default)
      [.rsetmapindex 1 10 [(65, 65)], .destroy 1, .pickup towYard 1 [(65, 65)]] = some w' ∧
      ¬ w'.TowInStep) := by
  refine ⟨⟨_, rfl, fun inStep => ?_⟩, ⟨_, rfl, fun inStep => ?_⟩⟩
  · have towed := (@World.TowInStep.towed_iff _ inStep 2 (by decide)).mp (by decide)
    obtain ⟨t, ⟨isMech, together, carrying⟩, _⟩ := towed
    have named : t = 1 ∨ t = 2 := by
      have listed := (Bool.and_eq_true_iff.mp isMech).2
      simpa using listed
    rcases named with rfl | rfl
    · exact absurd together.2 (by decide)
    · exact absurd carrying (by decide)
  · exact @World.TowInStep.not_itself _ inStep 1 (by decide) (by decide)

end BattletechMux.UnitWorld
