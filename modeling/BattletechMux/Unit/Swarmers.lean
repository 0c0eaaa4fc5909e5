/-
Module: BattletechMux.Unit.Swarmers
Purpose: A unit that swarms another is on the map of that unit, which exists and is not itself, and
  no second one is on it; as long as suits only swarm what nobody swarms, and what swarms or is
  swarmed neither moves nor, when swarmed, is disposed of.
-/
import BattletechMux.Unit.Targets

namespace BattletechMux.UnitWorld

open Option

open Function (update)

/-- `MechSwarmTarget(mech) = target`. -/
def SwarmWorld.Swarms (s : SwarmWorld) (mech target : Dbref) : Prop :=
  s.world.isMech mech = true ∧ s.swarmTarget mech = target ∧ 0 < target

/-- What is swarmed exists, is on the map of its swarmer and another unit, and has one. -/
structure SwarmInvariant (s : SwarmWorld) : Prop where
  consistent : Consistent s.world
  isMech : ∀ mech target, s.Swarms mech target → s.world.isMech target = true
  other : ∀ mech target, s.Swarms mech target → target ≠ mech
  onMap : ∀ mech target, s.Swarms mech target → 0 ≤ (s.world.unit mech).mapindex
  together : ∀ mech target, s.Swarms mech target →
    (s.world.unit target).mapindex = (s.world.unit mech).mapindex
  alone : ∀ mech second target, s.Swarms mech target → s.Swarms second target → mech = second

def PlacementOp.mover : PlacementOp → Option Dbref
  | .rsetmapindex mech _ _ | .removeFromMap _ mech | .addToMap _ mech => some mech
  | .removeFromAllMaps _ | .eliminateEmpties _ => none

/-- A battlesuit swarms what nobody swarms, and what it has locked on only on its own map; what
swarms or is swarmed does not move, and what is swarmed is not disposed of. -/
def SwarmOp.Clean (s : SwarmWorld) : SwarmOp → Prop
  | .bsuitSwarm mech arg _ =>
    s.world.isMech mech = true ∧ s.mechType mech = .bsuit ∧
      ∀ target ∈ (s.namedTarget mech arg).1, s.countSwarmers target = 0 ∧
        (arg = .default →
          (s.world.unit target).mapindex = (s.world.unit mech).mapindex)
  | .place op =>
    op.WellTyped s.world ∧ op.Disciplined s.world ∧
      ∀ mech ∈ op.mover, s.swarmTarget mech ≤ 0 ∧ s.countSwarmers mech = 0
  | .dispose mech => s.world.isMech mech = true ∧ s.countSwarmers mech = 0
  | _ => True

instance swarmCleanDecidable (s : SwarmWorld) : (op : SwarmOp) → Decidable (op.Clean s)
  | .bsuitSwarm .. => inferInstanceAs (Decidable (_ ∧ _ ∧ _))
  | .place _ => inferInstanceAs (Decidable (_ ∧ _ ∧ _))
  | .dispose _ => inferInstanceAs (Decidable (_ ∧ _))
  | .stopSwarming .. | .stopBSuitSwarmers .. | .shutdown _ | .destroy _ => isTrue trivial

variable {s s' s'' : SwarmWorld} {mech target : Dbref} {deadly : Dbref → Bool}

/-! ## What only lets go -/

/-- The units stay, and swarm what they swarmed or nothing. -/
structure Loosened (s s' : SwarmWorld) : Prop where
  places : SamePlaces s.world s'.world
  swarmTarget : ∀ mech, s'.swarmTarget mech = s.swarmTarget mech ∨ s'.swarmTarget mech ≤ 0

namespace Loosened

theorem refl (s : SwarmWorld) : Loosened s s := ⟨SamePlaces.refl _, fun _ => Or.inl rfl⟩

theorem trans (fst : Loosened s s') (snd : Loosened s' s'') : Loosened s s'' := by
  refine ⟨fst.places.trans snd.places, fun mech => ?_⟩
  rcases snd.swarmTarget mech with eq | gone
  · rw [eq]
    exact fst.swarmTarget mech
  · exact Or.inr gone

theorem swarms (loosened : Loosened s s') (swarms : s'.Swarms mech target) :
    s.Swarms mech target := by
  obtain ⟨isMech, rfl, pos⟩ := swarms
  refine ⟨loosened.places.isMech ▸ isMech, ?_, pos⟩
  exact ((loosened.swarmTarget mech).resolve_right (Int.not_le.mpr pos)).symm

theorem keeps (loosened : Loosened s s') (holds : SwarmInvariant s) : SwarmInvariant s' where
  consistent := holds.consistent.congr loosened.places
  isMech mech target swarms :=
    loosened.places.isMech ▸ holds.isMech mech target (loosened.swarms swarms)
  other mech target swarms := holds.other mech target (loosened.swarms swarms)
  onMap mech target swarms := by
    rw [loosened.places.mapindex]
    exact holds.onMap mech target (loosened.swarms swarms)
  together mech target swarms := by
    rw [loosened.places.mapindex, loosened.places.mapindex]
    exact holds.together mech target (loosened.swarms swarms)
  alone mech snd target one two :=
    holds.alone mech snd target (loosened.swarms one) (loosened.swarms two)

theorem of_places {w : World} (places : SamePlaces s.world w) : Loosened s { s with world := w } :=
  ⟨places, fun _ => Or.inl rfl⟩

theorem drop (s : SwarmWorld) (mech : Dbref) : Loosened s (s.setSwarmTarget mech (-1)) := by
  refine ⟨SamePlaces.refl _, fun other => ?_⟩
  by_cases eq : other = mech
  · subst eq
    have dropped : (s.setSwarmTarget other (-1)).swarmTarget other = -1 :=
      Function.update_self ..
    exact Or.inr (dropped.trans_le (by decide))
  · exact Or.inl (Function.update_of_ne eq ..)

theorem eachSwarmer {visit : Dbref → SwarmWorld → SwarmWorld}
    (each : ∀ t s, Loosened s (visit t s)) (s : SwarmWorld) (map mech : Dbref) :
    Loosened s (s.eachSwarmer visit map mech) := by
  refine Machine.foldl_invariant (fun middle i loosened => loosened.trans ?_) _ (refl s)
  split
  · exact refl middle
  · exact each _ middle

theorem letGo (s : SwarmWorld) (mech : Dbref) : Loosened s (s.letGo mech) := by
  unfold SwarmWorld.letGo
  split
  · exact refl s
  · split
    · exact refl s
    · exact drop s mech

theorem shakeOff (s : SwarmWorld) (mech : Dbref) : Loosened s (s.shakeOff mech) := by
  unfold SwarmWorld.shakeOff
  split
  · exact refl s
  · exact eachSwarmer (fun t s => letGo s t) s _ mech

theorem wreck (s : SwarmWorld) (a : Dbref) : Loosened s (s.wreck a) :=
  (of_places (destroy_places a s.world)).trans (shakeOff _ a)

theorem stopSwarming (s : SwarmWorld) (deadly : Dbref → Bool) (mech : Dbref)
    (intentional : Bool) : Loosened s (s.stopSwarming deadly mech intentional) := by
  unfold SwarmWorld.stopSwarming
  split
  · exact refl s
  · split
    · exact refl s
    · dsimp only
      split
      · exact (drop s mech).trans (wreck _ mech)
      · exact drop s mech

theorem stopBSuitSwarmers (s : SwarmWorld) (deadly : Dbref → Bool) (map mech : Dbref)
    (intentional : Bool) : Loosened s (s.stopBSuitSwarmers deadly map mech intentional) := by
  unfold SwarmWorld.stopBSuitSwarmers
  split
  · exact refl s
  · exact eachSwarmer (fun t s => stopSwarming s deadly t intentional) s _ mech

theorem shutdown (s : SwarmWorld) (deadly : Dbref → Bool) (a : Dbref) :
    Loosened s (s.shutdown deadly a) :=
  (stopSwarming s deadly a false).trans (of_places (shutdown_places a _))

theorem destroy (s : SwarmWorld) (deadly : Dbref → Bool) (a : Dbref) :
    Loosened s (s.destroy deadly a) :=
  (stopSwarming s deadly a false).trans (wreck _ a)

end Loosened

/-! ## Counting swarmers -/

theorem SwarmInvariant.none_of_count (holds : SwarmInvariant s)
    (free : s.countSwarmers target = 0) (mech : Dbref) : ¬s.Swarms mech target := by
  intro swarms
  have isTarget := holds.isMech mech target swarms
  have there := holds.onMap mech target swarms
  have together := holds.together mech target swarms
  obtain ⟨isMap, below, slot⟩ := holds.consistent.own swarms.1 there
  have pos := s.world.mech_pos mech swarms.1
  have hf : s.swarmerIn (s.world.unit mech).mapindex target
      (s.world.unit mech).mapnumber = some mech := by
    have apart : (s.world.unit mech).mapnumber ≠ (s.world.unit target).mapnumber := by
      intro eq
      have slot' := (holds.consistent.own isTarget (together.symm ▸ there)).2.2
      rw [together, ← eq] at slot'
      exact holds.other mech target swarms (slot'.symm.trans slot)
    rw [SwarmWorld.swarmerIn, slot, if_pos ⟨pos, apart⟩, World.getMech, if_pos swarms.1]
    exact if_pos swarms.2.1
  rw [SwarmWorld.countSwarmers, together, World.getMap, if_pos isMap] at free
  have empty := List.eq_nil_of_length_eq_zero free
  have mem : (s.world.unit mech).mapnumber ∈
      (List.range (s.world.map (s.world.unit mech).mapindex).firstFree).filter fun i =>
        (s.swarmerIn (s.world.unit mech).mapindex target i).isSome :=
    List.mem_filter.mpr ⟨List.mem_range.mpr below, by rw [hf]; rfl⟩
  rw [empty] at mem
  exact List.not_mem_nil mem

/-! ## Swarming -/

section

variable (holds : SwarmInvariant s) (isMech : s.world.isMech mech = true)
  (there : 0 ≤ (s.world.unit mech).mapindex)
include holds isMech there

theorem namedTarget_spec (arg : SwarmArg) :
    Loosened s (s.namedTarget mech arg).2 ∧
      ∀ target, (s.namedTarget mech arg).1 = some target → (s.namedTarget mech arg).2 = s ∧
        s.world.isMech target = true ∧
          (arg ≠ .default → (s.world.unit target).mapindex = (s.world.unit mech).mapindex) := by
  have byLetters : ∀ mapnum, Loosened s
      { s with world := (findTargetDBREFFromMapNumber mech mapnum s.world).2 } ∧
      ∀ target, (findTargetDBREFFromMapNumber mech mapnum s.world).1 = some target →
        ({ s with world := (findTargetDBREFFromMapNumber mech mapnum s.world).2 } :
          SwarmWorld) = s ∧ s.world.isMech target = true ∧
          (s.world.unit target).mapindex = (s.world.unit mech).mapindex := by
    intro mapnum
    cases search : findTargetDBREFFromMapNumber mech mapnum s.world with
    | mk hf w =>
      cases hf with
      | none =>
        rcases findTarget_none holds.consistent isMech search with rfl | ⟨off, _⟩
        · exact ⟨Loosened.refl s, nofun⟩
        · exact absurd off (Int.not_lt.mpr there)
      | some t =>
        obtain ⟨rfl, isTarget, _, together⟩ := findTarget_spec holds.consistent search
        refine ⟨Loosened.refl s, fun target eq => ?_⟩
        obtain rfl := some.inj eq
        exact ⟨rfl, isTarget, together⟩
  cases arg with
  | drop =>
    obtain ⟨loosened, hf⟩ := byLetters (45, 0)
    exact ⟨loosened, fun target eq =>
      ⟨(hf target eq).1, (hf target eq).2.1, fun _ => (hf target eq).2.2⟩⟩
  | named mapnum =>
    obtain ⟨loosened, hf⟩ := byLetters mapnum
    exact ⟨loosened, fun target eq =>
      ⟨(hf target eq).1, (hf target eq).2.1, fun _ => (hf target eq).2.2⟩⟩
  | default =>
    rw [SwarmWorld.namedTarget]
    split
    · exact ⟨Loosened.refl s, nofun⟩
    · split
      · refine ⟨Loosened.of_places ?_, nofun⟩
        have kept : SamePlaces s.world (s.world.modifyUnit mech fun u => { u with target := -1 }) :=
          @SamePlaces.modifyUnit s.world mech (fun u => { u with target := -1 })
            (fun _ => rfl) (fun _ => rfl) fun _ => rfl
        exact kept
      · rename_i t hf
        refine ⟨Loosened.refl s, fun target eq => ?_⟩
        obtain rfl := some.inj eq
        obtain ⟨isTarget, eq⟩ := World.getMech_eq_some.mp hf
        exact ⟨rfl, eq ▸ isTarget, fun absurd' => absurd rfl absurd'⟩

theorem swarmOnto_keeps (isTarget : s.world.isMech target = true)
    (apart : target ≠ mech) (free : s.countSwarmers target = 0)
    (together : (s.world.unit target).mapindex = (s.world.unit mech).mapindex)
    (facts : SwarmFacts) : SwarmInvariant (s.swarmOnto mech target facts) := by
  unfold SwarmWorld.swarmOnto
  split_ifs with jettison tech busy roll
  · exact holds
  · exact holds
  · exact holds
  · have places : SamePlaces s.world (s.world.modifyUnit mech fun u =>
        { u with lockTarget := false, lockElsewhere := false }) :=
      @SamePlaces.modifyUnit s.world mech
        (fun u => { u with lockTarget := false, lockElsewhere := false })
        (fun _ => rfl) (fun _ => rfl) fun _ => rfl
    let s' : SwarmWorld := { s.setSwarmTarget mech target with
      world := s.world.modifyUnit mech fun u =>
        { u with lockTarget := false, lockElsewhere := false } }
    have swarms : ∀ u t, s'.Swarms u t → u = mech ∧ t = target ∨ u ≠ mech ∧ s.Swarms u t := by
      rintro u t ⟨is, on, pos⟩
      by_cases eq : u = mech
      · subst eq
        exact Or.inl ⟨rfl, on.symm.trans (Function.update_self ..)⟩
      · exact Or.inr ⟨eq, is, (Function.update_of_ne eq ..).symm.trans on, pos⟩
    have nobody := holds.none_of_count free
    refine ⟨holds.consistent.congr places, fun u t is => ?_, fun u t is => ?_, fun u t is => ?_,
      fun u t is => ?_, fun u v t one two => ?_⟩
    · rcases swarms u t is with ⟨rfl, rfl⟩ | ⟨_, pre⟩
      · exact isTarget
      · exact holds.isMech u t pre
    · rcases swarms u t is with ⟨rfl, rfl⟩ | ⟨_, pre⟩
      · exact apart
      · exact holds.other u t pre
    · refine (places.mapindex u).symm ▸ ?_
      rcases swarms u t is with ⟨rfl, rfl⟩ | ⟨_, pre⟩
      · exact there
      · exact holds.onMap u t pre
    · refine (places.mapindex t).trans (Eq.trans ?_ (places.mapindex u).symm)
      rcases swarms u t is with ⟨rfl, rfl⟩ | ⟨_, pre⟩
      · exact together
      · exact holds.together u t pre
    · rcases swarms u t one with ⟨rfl, rfl⟩ | ⟨_, fst⟩
      · rcases swarms v t two with ⟨rfl, _⟩ | ⟨_, snd⟩
        · rfl
        · exact absurd snd (nobody v)
      · rcases swarms v t two with ⟨rfl, rfl⟩ | ⟨_, snd⟩
        · exact absurd fst (nobody u)
        · exact holds.alone u v t fst snd
  · exact holds

end

theorem bsuitSwarm_keeps (holds : SwarmInvariant s) {arg : SwarmArg} {facts : SwarmFacts}
    (clean : (SwarmOp.bsuitSwarm mech arg facts).Clean s) :
    SwarmInvariant (s.bsuitSwarm deadly mech arg facts) := by
  obtain ⟨isMech, bsuit, room⟩ := clean
  unfold SwarmWorld.bsuitSwarm
  split_ifs with unusual offMap drop busy
  · exact holds
  · -- a unit that says it is on a map is on one
    simp only [Bool.or_eq_true, decide_eq_true_eq, not_or, Int.not_lt] at unusual
    have isMap := (holds.consistent.own isMech unusual.2).1
    rw [isMap] at offMap
    exact absurd offMap Bool.false_ne_true
  · exact (Loosened.stopSwarming s deadly mech true).keeps holds
  · exact holds
  · simp only [Bool.or_eq_true, decide_eq_true_eq, not_or, Int.not_lt] at unusual
    obtain ⟨loosened, hf⟩ := namedTarget_spec holds isMech unusual.2 arg
    cases named : s.namedTarget mech arg with
    | mk target s' =>
      rw [named] at loosened hf room
      cases target with
      | none => exact loosened.keeps holds
      | some target =>
        obtain ⟨rfl, isTarget, together⟩ := hf target rfl
        obtain ⟨free, locked⟩ := room target rfl
        dsimp only
        split
        · rename_i valid
          simp only [SwarmWorld.validTarget, Bool.and_eq_true, decide_eq_true_eq] at valid
          have apart : target ≠ mech := by
            intro eq
            rw [eq, bsuit] at valid
            exact absurd valid.1.2 (by decide)
          refine swarmOnto_keeps holds isMech unusual.2 isTarget apart free ?_ facts
          by_cases default' : arg = .default
          · exact locked default'
          · exact together default'
        · exact holds

/-! ## Moving and disposing -/

theorem move_stays {w w' : World} {op : PlacementOp} (moved : w.move op = some w') :
    w'.isMech = w.isMech ∧ ∀ other, op.mover ≠ some other →
      (w'.unit other).mapindex = (w.unit other).mapindex := by
  have of_stays : ∀ mech, Stays mech w w' → w'.isMech = w.isMech ∧
      ∀ other, some mech ≠ some other →
        (w'.unit other).mapindex = (w.unit other).mapindex := fun mech stays =>
    ⟨stays.isMech, fun other ne =>
      stays.mapindex other fun eq => ne (congrArg some eq.symm)⟩
  cases op with
  | rsetmapindex mech newindex ids => exact of_stays mech (mechRsetmapindex_stays moved)
  | removeFromAllMaps mech =>
    obtain rfl := some.inj moved
    exact ⟨rfl, fun _ _ => rfl⟩
  | removeFromMap map mech =>
    obtain rfl := some.inj moved
    exact of_stays mech (removeMechFromMap_stays map mech w)
  | addToMap map mech =>
    obtain rfl := some.inj moved
    exact of_stays mech (addMechToMap_stays map mech w)
  | eliminateEmpties map =>
    obtain rfl := some.inj moved
    unfold UnitWorld.eliminateEmpties
    split
    · exact ⟨rfl, fun _ _ => rfl⟩
    · dsimp only
      split <;> exact ⟨rfl, fun _ _ => rfl⟩

theorem place_keeps (holds : SwarmInvariant s) {op : PlacementOp} {w : World}
    (clean : (SwarmOp.place op).Clean s) (moved : s.world.move op = some w) :
    SwarmInvariant { s with world := w } := by
  obtain ⟨wellTyped, disciplined, free⟩ := clean
  obtain ⟨mechs, stays⟩ := move_stays moved
  have apart : ∀ u t, ({ s with world := w } : SwarmWorld).Swarms u t →
      s.Swarms u t ∧ op.mover ≠ some u ∧ op.mover ≠ some t := by
    rintro u t ⟨is, on, pos⟩
    have pre : s.Swarms u t := ⟨mechs ▸ is, on, pos⟩
    refine ⟨pre, fun mover => ?_, fun mover => ?_⟩
    · exact absurd pos (Int.not_lt.mpr (on ▸ (free u mover).1))
    · exact holds.none_of_count (free t mover).2 u pre
  refine ⟨move_consistent holds.consistent wellTyped disciplined moved, fun u t is => ?_,
    fun u t is => ?_, fun u t is => ?_, fun u t is => ?_, fun u v t one two => ?_⟩
  · exact mechs ▸ holds.isMech u t (apart u t is).1
  · exact holds.other u t (apart u t is).1
  · obtain ⟨pre, mover, _⟩ := apart u t is
    exact (stays u mover).symm ▸ holds.onMap u t pre
  · obtain ⟨pre, mover, moved⟩ := apart u t is
    exact (stays t moved).trans ((holds.together u t pre).trans (stays u mover).symm)
  · exact holds.alone u v t (apart u t one).1 (apart v t two).1

theorem dispose_keeps_swarms (holds : SwarmInvariant s)
    (clean : (SwarmOp.dispose mech).Clean s) :
    SwarmInvariant { s with world := s.world.dispose mech } := by
  obtain ⟨isMech, free⟩ := clean
  have stays := fun other => @dispose_stays s.world mech holds.consistent isMech other
  have apart : ∀ u t, ({ s with world := s.world.dispose mech } : SwarmWorld).Swarms u t →
      s.Swarms u t ∧ (s.world.dispose mech).isMech u = true ∧
        (s.world.dispose mech).isMech t = true := by
    rintro u t ⟨is, on, pos⟩
    have pre : s.Swarms u t := ⟨(stays u is).2.1, on, pos⟩
    have ne : t ≠ mech := fun eq => holds.none_of_count free u (eq ▸ pre)
    exact ⟨pre, is, (dispose_isMech_of_ne holds.consistent isMech ne).trans
      (holds.isMech u t pre)⟩
  refine ⟨dispose_consistent holds.consistent isMech, fun u t is => (apart u t is).2.2,
    fun u t is => holds.other u t (apart u t is).1, fun u t is => ?_, fun u t is => ?_,
    fun u v t one two => holds.alone u v t (apart u t one).1 (apart v t two).1⟩
  · obtain ⟨pre, there, _⟩ := apart u t is
    exact (stays u there).2.2.1.symm ▸ holds.onMap u t pre
  · obtain ⟨pre, there, there'⟩ := apart u t is
    exact (stays t there').2.2.1.trans ((holds.together u t pre).trans
      (stays u there).2.2.1.symm)

/-! ## Runs -/

theorem step_swarms {op : SwarmOp × (Dbref → Bool)} (holds : SwarmInvariant s)
    (clean : op.1.Clean s) (stepped : s.step op = some s') : SwarmInvariant s' := by
  obtain ⟨op, deadly⟩ := op
  cases op with
  | bsuitSwarm mech arg facts =>
    obtain rfl := some.inj stepped
    exact bsuitSwarm_keeps holds clean
  | stopSwarming mech intentional =>
    obtain rfl := some.inj stepped
    exact (Loosened.stopSwarming s deadly mech intentional).keeps holds
  | stopBSuitSwarmers map mech intentional =>
    obtain rfl := some.inj stepped
    exact (Loosened.stopBSuitSwarmers s deadly map mech intentional).keeps holds
  | place op =>
    obtain ⟨w, moved, rfl⟩ := map_eq_some_iff.mp stepped
    exact place_keeps holds clean moved
  | shutdown mech =>
    obtain rfl := some.inj stepped
    exact (Loosened.shutdown s deadly mech).keeps holds
  | destroy mech =>
    obtain rfl := some.inj stepped
    exact (Loosened.destroy s deadly mech).keeps holds
  | dispose mech =>
    obtain rfl := some.inj stepped
    exact dispose_keeps_swarms holds clean

/-- Wherever a run ends in which suits only swarm what nobody swarms, and what swarms or is
swarmed does not move and is not disposed of under its swarmer, a unit that swarms another is on
its map, and the other exists, is not itself, and is swarmed by nobody else. -/
theorem run_swarms {ops : List (SwarmOp × (Dbref → Bool))} (holds : SwarmInvariant s)
    (guarded : Machine.Guarded SwarmWorld.step (fun s op => op.1.Clean s) s ops)
    (ran : Machine.run SwarmWorld.step s ops = some s') :
    (∀ mech target, s'.Swarms mech target → s'.world.isMech target = true ∧ target ≠ mech ∧
      0 ≤ (s'.world.unit mech).mapindex ∧
      (s'.world.unit target).mapindex = (s'.world.unit mech).mapindex) ∧
    ∀ mech second target, s'.Swarms mech target → s'.Swarms second target → mech = second := by
  have kept := Machine.run_guarded (fun _ _ _ holds clean stepped =>
    step_swarms holds clean stepped) holds guarded ran
  exact ⟨fun mech target swarms => ⟨kept.isMech mech target swarms, kept.other mech target swarms,
    kept.onMap mech target swarms, kept.together mech target swarms⟩, kept.alone⟩

/-- Every check of `bsuit_swarm` is passed. -/
def swarmReady : SwarmFacts := ⟨true, false, false, true, true, false, true, false, true⟩

def swarmStart : SwarmWorld where
  world := .start [1, 2, 3] [10] fun ref => { (default : Unit) with team := ref }
  swarmTarget _ := -1
  mechType ref := if ref = 3 then .mech else .bsuit

theorem swarmStart_invariant : SwarmInvariant swarmStart := by
  have nobody : ∀ mech target, ¬swarmStart.Swarms mech target := by
    rintro mech target ⟨_, rfl, pos⟩
    exact absurd pos (show ¬(0 : Int) < -1 by decide)
  exact ⟨start_consistent _ _ _, fun _ _ swarms => absurd swarms (nobody _ _),
    fun _ _ swarms => absurd swarms (nobody _ _), fun _ _ swarms => absurd swarms (nobody _ _),
    fun _ _ swarms => absurd swarms (nobody _ _), fun _ _ _ swarms => absurd swarms (nobody _ _)⟩

def swarmMech : List (SwarmOp × (Dbref → Bool)) :=
  [(.place (.rsetmapindex 1 10 [(65, 65)]), fun _ => false),
    (.place (.rsetmapindex 2 10 [(66, 66)]), fun _ => false),
    (.place (.rsetmapindex 3 10 [(67, 67)]), fun _ => false),
    (.bsuitSwarm 1 (.named (67, 67)) swarmReady, fun _ => false)]

/-- A second suit swarms the mech after the first one was shaken off. -/
theorem run_swarms_after_another :
    ∃ s', Machine.run SwarmWorld.step swarmStart (swarmMech ++
        [(.stopBSuitSwarmers 10 3 false, fun _ => false),
          (.bsuitSwarm 2 (.named (67, 67)) swarmReady, fun _ => false)]) = some s' ∧
      ((∀ mech target, s'.Swarms mech target → s'.world.isMech target = true ∧ target ≠ mech ∧
        0 ≤ (s'.world.unit mech).mapindex ∧
        (s'.world.unit target).mapindex = (s'.world.unit mech).mapindex) ∧
      ∀ mech second target, s'.Swarms mech target → s'.Swarms second target → mech = second) := by
  have guarded : Machine.Guarded SwarmWorld.step (fun s op => op.1.Clean s) swarmStart
      (swarmMech ++ [(.stopBSuitSwarmers 10 3 false, fun _ => false),
        (.bsuitSwarm 2 (.named (67, 67)) swarmReady, fun _ => false)]) := by decide +kernel
  exact ⟨_, rfl, run_swarms swarmStart_invariant guarded rfl⟩

/-- A suit swarms the mech that another one is on: the room is looked for on itself. -/
theorem no_room_for_second : ¬∀ (s s' : SwarmWorld) (ops : List (SwarmOp × (Dbref → Bool))),
    SwarmInvariant s → Machine.run SwarmWorld.step s ops = some s' →
    ∀ mech second target, s'.Swarms mech target → s'.Swarms second target → mech = second := by
  intro always
  have ran : (Machine.run SwarmWorld.step swarmStart (swarmMech ++
      [(.bsuitSwarm 2 (.named (67, 67)) swarmReady, fun _ => false)])).map
      (fun s => ((s.world.isMech 1, s.world.isMech 2), s.swarmTarget 1, s.swarmTarget 2)) =
        some ((true, true), 3, 3) := by decide +kernel
  obtain ⟨s', ended, seen⟩ := map_eq_some_iff.mp ran
  obtain ⟨are, seen⟩ := Prod.mk.inj seen
  obtain ⟨first, second⟩ := Prod.mk.inj seen
  obtain ⟨isFirst, isSecond⟩ := Prod.mk.inj are
  have same := always swarmStart s' _ swarmStart_invariant ended 1 2 3
    ⟨isFirst, first, by decide⟩ ⟨isSecond, second, by decide⟩
  exact absurd same (by decide)

end BattletechMux.UnitWorld
