/-
Module: BattletechMux.Unit.TagPairs
Purpose: A unit that says by whom it is tagged is on the map of that unit, and is what that unit
  tags; as long as no unit that tags another takes up a new target, moves or is disposed of, and no
  tagged unit moves.
-/
import BattletechMux.Unit.Targets

namespace BattletechMux.UnitWorld

open Function (update)

namespace TagWorld

/-- `TaggedBy(target) = mech`. -/
def Tags (s : TagWorld) (mech target : Dbref) : Prop :=
  s.world.isMech target = true ∧ s.taggedBy target = mech ∧ 0 < mech

def tagging (s : TagWorld) (mech : Dbref) : Bool :=
  s.world.isMech (s.world.unit mech).tagTarget &&
    decide (s.taggedBy (s.world.unit mech).tagTarget = mech)

end TagWorld

/-- Who tags a unit exists, is on the same map and has it as its target. -/
structure TagInvariant (s : TagWorld) : Prop where
  consistent : Consistent s.world
  isMech : ∀ mech target, s.Tags mech target → s.world.isMech mech = true
  onMap : ∀ mech target, s.Tags mech target → 0 ≤ (s.world.unit target).mapindex
  together : ∀ mech target, s.Tags mech target →
    (s.world.unit mech).mapindex = (s.world.unit target).mapindex
  target : ∀ mech target, s.Tags mech target → (s.world.unit mech).tagTarget = target

/-- The unit that tags another does not take up a new target, and does not go; a tagged unit
does not move. -/
def TagOp.Clean (s : TagWorld) : TagOp → Prop
  | .mechTag mech (some mapnum) _ =>
    s.tagging mech = false ∨
      (findTargetDBREFFromMapNumber mech mapnum s.world).1 =
        some (s.world.unit mech).tagTarget
  | .rsetmapindex mech _ _ => s.tagging mech = false ∧ s.taggedBy mech ≤ 0
  | .dispose mech => s.tagging mech = false
  | _ => True

instance tagCleanDecidable (s : TagWorld) : (op : TagOp) → Decidable (op.Clean s)
  | .mechTag _ (some _) _ => inferInstanceAs (Decidable (_ ∨ _))
  | .mechTag _ none _ => isTrue trivial
  | .stopTAG _ => isTrue trivial
  | .checkTAG _ _ => isTrue trivial
  | .rsetmapindex _ _ _ => inferInstanceAs (Decidable (_ ∧ _))
  | .shutdown _ => isTrue trivial
  | .destroy _ => isTrue trivial
  | .dispose _ => inferInstanceAs (Decidable (_ = _))

variable {s s' : TagWorld} {mech : Dbref}

theorem TagInvariant.none_of_tagging (holds : TagInvariant s) (free : s.tagging mech = false)
    (target : Dbref) : ¬s.Tags mech target := by
  intro tags
  have eq := holds.target mech target tags
  rw [TagWorld.tagging, eq, tags.1, tags.2.1] at free
  simp at free

theorem TagInvariant.fewer (holds : TagInvariant s) (places : SamePlaces s.world s'.world)
    (fewer : ∀ mech target, s'.Tags mech target → s.Tags mech target ∧
      (s'.world.unit mech).tagTarget = (s.world.unit mech).tagTarget) : TagInvariant s' where
  consistent := holds.consistent.congr places
  isMech mech target tags := places.isMech ▸ holds.isMech mech target (fewer mech target tags).1
  onMap mech target tags := by
    rw [places.mapindex]
    exact holds.onMap mech target (fewer mech target tags).1
  together mech target tags := by
    rw [places.mapindex, places.mapindex]
    exact holds.together mech target (fewer mech target tags).1
  target mech target tags := by
    obtain ⟨pre, eq⟩ := fewer mech target tags
    exact eq.trans (holds.target mech target pre)

theorem setTAGTarget_places (s : TagWorld) (mech target : Dbref) :
    SamePlaces s.world (s.setTAGTarget mech target).world := by
  have kept : SamePlaces s.world (s.world.modifyUnit mech (Unit.setTag target)) :=
    SamePlaces.modifyUnit s.world mech (fun _ => rfl) (fun _ => rfl) fun _ => rfl
  exact kept

theorem setTAGTarget_of_ne (s : TagWorld) (target : Dbref) {o : Dbref}
    (ne : o ≠ mech) :
    ((s.setTAGTarget mech target).world.unit o).tagTarget =
      (s.world.unit o).tagTarget := by
  rw [TagWorld.setTAGTarget, World.modifyUnit_unit_of_ne _ _ ne]

section

variable (holds : TagInvariant s)
include holds

theorem untag_spec (mech : Dbref) :
    ∃ taggedBy, s.untag mech = { s with taggedBy := taggedBy } ∧
      ∀ o target, ({ s with taggedBy := taggedBy } : TagWorld).Tags o target →
        s.Tags o target ∧ o ≠ mech := by
  have kept : s.tagging mech = false → ∀ o target, s.Tags o target →
      s.Tags o target ∧ o ≠ mech := fun free o target tags =>
    ⟨tags, fun eq => holds.none_of_tagging free target (eq ▸ tags)⟩
  unfold TagWorld.untag
  cases hf : s.world.getMech (s.world.unit mech).tagTarget with
  | none =>
    refine ⟨s.taggedBy, rfl, kept ?_⟩
    have noMech : s.world.isMech (s.world.unit mech).tagTarget = false := by
      simpa [World.getMech] using hf
    rw [TagWorld.tagging, noMech, Bool.false_and]
  | some target =>
    obtain ⟨isMech, rfl⟩ := World.getMech_eq_some.mp hf
    by_cases mine : s.taggedBy (s.world.unit mech).tagTarget = mech
    · refine ⟨_, if_pos mine, fun o target tags => ?_⟩
      obtain ⟨is, by', pos⟩ := tags
      dsimp only at is by'
      have ne : target ≠ (s.world.unit mech).tagTarget := by
        intro eq
        rw [eq, Function.update_self] at by'
        exact absurd pos (by' ▸ Int.lt_irrefl 0)
      rw [Function.update_of_ne ne] at by'
      refine ⟨⟨is, by', pos⟩, fun eq => ne ?_⟩
      rw [← eq]
      exact (holds.target o target ⟨is, by', pos⟩).symm
    · refine ⟨s.taggedBy, if_neg mine, kept ?_⟩
      rw [TagWorld.tagging, decide_eq_false mine, Bool.and_false]

theorem stopTAG_spec (mech : Dbref) :
    TagInvariant (s.stopTAG mech) ∧ ((s.stopTAG mech).world.unit mech).tagTarget ≤ 0 ∧
      SamePlaces s.world (s.stopTAG mech).world := by
  obtain ⟨taggedBy, is, fewer⟩ := untag_spec holds mech
  unfold TagWorld.stopTAG
  rw [is]
  dsimp only
  split
  · have places := setTAGTarget_places { s with taggedBy := taggedBy } mech 0
    refine ⟨holds.fewer places fun o target tags => ?_, ?_, places⟩
    · obtain ⟨pre, ne⟩ := fewer o target tags
      exact ⟨pre, setTAGTarget_of_ne _ _ ne⟩
    · rw [TagWorld.setTAGTarget, World.modifyUnit_unit_self]
      exact Int.le_refl 0
  · rename_i untagged
    exact ⟨holds.fewer (SamePlaces.refl _) fun o target tags =>
      ⟨(fewer o target tags).1, rfl⟩, Int.not_lt.mp untagged, SamePlaces.refl _⟩

theorem checkTAG_keeps (mech : Dbref) (lit : Bool) : TagInvariant (s.checkTAG mech lit) := by
  have stopped := (stopTAG_spec holds mech).1
  unfold TagWorld.checkTAG
  dsimp only
  split
  · exact holds
  · split
    · exact stopped
    · split_ifs
      · exact stopped
      · exact stopped
      · exact holds

theorem stopped_keeps {f : World → World}
    (places : SamePlaces (s.stopTAG mech).world (f (s.stopTAG mech).world))
    (tagTarget : ((s.stopTAG mech).world.unit mech).tagTarget ≤ 0 → ∀ o,
      ((f (s.stopTAG mech).world).unit o).tagTarget =
        ((s.stopTAG mech).world.unit o).tagTarget) :
    TagInvariant { s.stopTAG mech with world := f (s.stopTAG mech).world } := by
  obtain ⟨stopped, untagged, _⟩ := stopTAG_spec holds mech
  refine stopped.fewer places fun o target tags => ⟨?_, tagTarget untagged o⟩
  obtain ⟨is, by', pos⟩ := tags
  exact ⟨places.isMech ▸ is, by', pos⟩

theorem lightUp_keeps (isMech : s.world.isMech mech = true) {mapnum : MechId} (facts : TagFacts)
    (clean : s.tagging mech = false ∨ (findTargetDBREFFromMapNumber mech mapnum s.world).1 =
        some (s.world.unit mech).tagTarget) : TagInvariant (s.lightUp mech mapnum facts) := by
  unfold TagWorld.lightUp
  split
  · rename_i w' lost
    rcases findTarget_none holds.consistent isMech lost with rfl | ⟨off, rfl⟩
    · exact holds
    · -- a unit on no map tags nothing and is not tagged
      have others : ∀ o, 0 ≤ (s.world.unit o).mapindex → o ≠ mech := by
        rintro o there rfl
        exact absurd off (Int.not_lt.mpr there)
      refine ⟨reset_consistent holds.consistent off, holds.isMech, fun o target tags => ?_,
        fun o target tags => ?_, fun o target tags => ?_⟩
      · have there := holds.onMap o target tags
        dsimp only
        rwa [World.modifyUnit_unit_of_ne _ _ (others target there)]
      · have there := holds.onMap o target tags
        have eq := holds.together o target tags
        dsimp only
        rw [World.modifyUnit_unit_of_ne _ _ (others target there),
          World.modifyUnit_unit_of_ne _ _ (others o (eq ▸ there)), eq]
      · have there := holds.onMap o target tags
        have eq := holds.together o target tags
        dsimp only
        rw [World.modifyUnit_unit_of_ne _ _ (others o (eq ▸ there)),
          holds.target o target tags]
  · rename_i target w' hf
    obtain ⟨rfl, isTarget, there, together⟩ := findTarget_spec holds.consistent hf
    split_ifs with unseen friendly self far
    · exact holds
    · exact holds
    · exact holds
    · exact holds
    have places := setTAGTarget_places s mech target
    -- the units that are tagged are the new one and those that others tag
    have tags : ∀ o t,
        ({ s.setTAGTarget mech target with taggedBy := update s.taggedBy target mech } :
          TagWorld).Tags o t → o = mech ∧ t = target ∨ o ≠ mech ∧ s.Tags o t := by
      rintro o t ⟨is, by', pos⟩
      by_cases eq : t = target
      · subst eq
        dsimp only at by'
        rw [Function.update_self] at by'
        exact Or.inl ⟨by'.symm, rfl⟩
      · dsimp only at by'
        rw [Function.update_of_ne eq] at by'
        have pre : s.Tags o t := ⟨is, by', pos⟩
        refine Or.inr ⟨fun mine => eq ?_, pre⟩
        rcases clean with free | again
        · exact absurd (mine ▸ pre) (holds.none_of_tagging free t)
        · have was := holds.target o t pre
          rw [mine] at was
          rw [hf, was] at again
          exact (Option.some.inj again).symm
    have unchanged : ∀ o, o ≠ mech →
        ((s.setTAGTarget mech target).world.unit o).tagTarget =
          (s.world.unit o).tagTarget := fun o => setTAGTarget_of_ne s target
    refine ⟨holds.consistent.congr places, fun o t is => ?_, fun o t is => ?_,
      fun o t is => ?_, fun o t is => ?_⟩
    · rcases tags o t is with ⟨rfl, rfl⟩ | ⟨_, pre⟩
      · exact isMech
      · exact holds.isMech o t pre
    · refine (places.mapindex t).symm ▸ ?_
      rcases tags o t is with ⟨rfl, rfl⟩ | ⟨_, pre⟩
      · exact together.symm ▸ there
      · exact holds.onMap o t pre
    · refine (places.mapindex o).trans (Eq.trans ?_ (places.mapindex t).symm)
      rcases tags o t is with ⟨rfl, rfl⟩ | ⟨_, pre⟩
      · exact together.symm
      · exact holds.together o t pre
    · rcases tags o t is with ⟨rfl, rfl⟩ | ⟨ne, pre⟩
      · change ((s.setTAGTarget o t).world.unit o).tagTarget = t
        rw [TagWorld.setTAGTarget, World.modifyUnit_unit_self]
        rfl
      · exact (unchanged o ne).trans (holds.target o t pre)

theorem mechTag_keeps (isMech : s.world.isMech mech = true)
    {arg : Option MechId} (facts : TagFacts) (clean : (TagOp.mechTag mech arg facts).Clean s) :
    TagInvariant (s.mechTag mech arg facts) := by
  unfold TagWorld.mechTag
  split
  · exact holds
  · rename_i usual
    split
    · rename_i offMap
      -- a unit that says it is on a map is on one
      simp only [Bool.or_eq_true, decide_eq_true_eq, not_or, Int.not_lt] at usual
      have isMap := (holds.consistent.own isMech usual.2).1
      rw [isMap] at offMap
      exact absurd offMap Bool.false_ne_true
    · split
      · exact holds
      · cases arg with
        | none =>
          dsimp only
          split
          · exact holds
          · exact (stopTAG_spec holds mech).1
        | some mapnum => exact lightUp_keeps holds isMech facts clean

theorem move_keeps_tags {w : World} (consistent : Consistent w)
    (stays : Stays mech s.world w) (free : s.tagging mech = false)
    (untagged : s.taggedBy mech ≤ 0) : TagInvariant { s with world := w } := by
  have apart : ∀ o target, ({ s with world := w } : TagWorld).Tags o target →
      s.Tags o target ∧ o ≠ mech ∧ target ≠ mech := by
    rintro o target ⟨is, by', pos⟩
    have pre : s.Tags o target := ⟨stays.isMech ▸ is, by', pos⟩
    refine ⟨pre, fun eq => holds.none_of_tagging free target (eq ▸ pre), ?_⟩
    rintro rfl
    exact absurd pos (Int.not_lt.mpr (by' ▸ untagged))
  refine ⟨consistent, fun o target tags => ?_, fun o target tags => ?_,
    fun o target tags => ?_, fun o target tags => ?_⟩ <;>
    obtain ⟨pre, mover, moved⟩ := apart o target tags
  · exact stays.isMech ▸ holds.isMech o target pre
  · exact (stays.mapindex target moved).symm ▸ holds.onMap o target pre
  · exact (stays.mapindex o mover).trans ((holds.together o target pre).trans
      (stays.mapindex target moved).symm)
  · exact (stays.tagTarget o mover).trans (holds.target o target pre)

theorem dispose_keeps_tags (isMech : s.world.isMech mech = true) (free : s.tagging mech = false) :
    TagInvariant { s with world := s.world.dispose mech } := by
  have stays := fun o => @dispose_stays s.world mech holds.consistent isMech o
  have apart : ∀ o target,
      ({ s with world := s.world.dispose mech } : TagWorld).Tags o target →
        s.Tags o target ∧ o ≠ mech ∧ (s.world.dispose mech).isMech target = true := by
    rintro o target ⟨is, by', pos⟩
    have pre : s.Tags o target := ⟨(stays target is).2.1, by', pos⟩
    exact ⟨pre, fun eq => holds.none_of_tagging free target (eq ▸ pre), is⟩
  have there : ∀ o target, s.Tags o target → o ≠ mech →
      (s.world.dispose mech).isMech o = true := fun o target tags ne =>
    (dispose_isMech_of_ne holds.consistent isMech ne).trans (holds.isMech o target tags)
  refine ⟨dispose_consistent holds.consistent isMech, fun o target tags => ?_,
    fun o target tags => ?_, fun o target tags => ?_, fun o target tags => ?_⟩ <;>
    obtain ⟨pre, ne, is⟩ := apart o target tags <;>
    have was := there o target pre ne
  · exact was
  · exact (stays target is).2.2.1.symm ▸ holds.onMap o target pre
  · exact (stays o was).2.2.1.trans ((holds.together o target pre).trans
      (stays target is).2.2.1.symm)
  · exact (stays o was).2.2.2.trans (holds.target o target pre)

theorem step_tagged {op : TagOp}
    (guard : s.world.isMech op.mech = true ∧ op.Clean s) (stepped : s.step op = some s') :
    TagInvariant s' := by
  obtain ⟨isMech, clean⟩ := guard
  cases op with
  | mechTag mech arg facts =>
    obtain rfl := Option.some.inj stepped
    exact mechTag_keeps holds isMech facts clean
  | stopTAG mech =>
    obtain rfl := Option.some.inj stepped
    exact (stopTAG_spec holds mech).1
  | checkTAG mech lit =>
    obtain rfl := Option.some.inj stepped
    exact checkTAG_keeps holds mech lit
  | rsetmapindex mech newindex ids =>
    obtain ⟨w, moved, rfl⟩ := Option.map_eq_some_iff.mp stepped
    exact move_keeps_tags holds (mechRsetmapindex_consistent holds.consistent isMech moved)
      (mechRsetmapindex_stays moved) clean.1 clean.2
  | shutdown mech =>
    obtain rfl := Option.some.inj stepped
    exact stopped_keeps holds (shutdown_places mech _) shutdown_tagTarget
  | destroy mech =>
    obtain rfl := Option.some.inj stepped
    exact stopped_keeps holds (destroy_places mech _) destroy_tagTarget
  | dispose mech =>
    obtain rfl := Option.some.inj stepped
    exact dispose_keeps_tags holds isMech clean

end

/-- Wherever a run ends in which no tagging unit takes up a new target, moves or is disposed of
and no tagged unit moves, who tags a unit exists, is on its map and has it as its target; so no
unit tags two. -/
theorem run_tagged {ops : List TagOp} (holds : TagInvariant s)
    (guarded : Machine.Guarded TagWorld.step
      (fun s op => s.world.isMech op.mech = true ∧ op.Clean s) s ops)
    (ran : Machine.run TagWorld.step s ops = some s') :
    (∀ mech target, s'.Tags mech target → s'.world.isMech mech = true ∧
      0 ≤ (s'.world.unit target).mapindex ∧
      (s'.world.unit mech).mapindex = (s'.world.unit target).mapindex ∧
      (s'.world.unit mech).tagTarget = target) ∧
    ∀ mech target other, s'.Tags mech target → s'.Tags mech other → target = other := by
  have kept := Machine.run_guarded (fun _ _ _ holds guard stepped =>
    step_tagged holds guard stepped) holds guarded ran
  refine ⟨fun mech target tags => ⟨kept.isMech mech target tags, kept.onMap mech target tags,
    kept.together mech target tags, kept.target mech target tags⟩, fun mech target other one two =>
    ?_⟩
  exact (kept.target mech target one).symm.trans (kept.target mech other two)

/-- Every check of `mech_tag` is passed. -/
def lit : TagFacts := ⟨true, true, true, false, false, true, false⟩

def tagStart : TagWorld where
  world := .start [1, 2, 3] [10] fun ref => { (default : Unit) with team := ref }
  taggedBy _ := 0

theorem tagStart_invariant : TagInvariant tagStart := by
  have nobody : ∀ mech target, ¬tagStart.Tags mech target := by
    rintro mech target ⟨_, rfl, pos⟩
    exact absurd pos (Int.lt_irrefl 0)
  exact ⟨start_consistent _ _ _, fun _ _ tags => absurd tags (nobody _ _),
    fun _ _ tags => absurd tags (nobody _ _), fun _ _ tags => absurd tags (nobody _ _),
    fun _ _ tags => absurd tags (nobody _ _)⟩

def enterAll : List TagOp :=
  [.rsetmapindex 1 10 [(65, 65)], .rsetmapindex 2 10 [(66, 66)], .rsetmapindex 3 10 [(67, 67)]]

/-- A unit tags a second one after it has let go of the first. -/
theorem run_tagged_let_go :
    ∃ s', Machine.run TagWorld.step tagStart (enterAll ++
        [.mechTag 1 (some (66, 66)) lit, .mechTag 1 none lit, .mechTag 1 (some (67, 67)) lit]) =
          some s' ∧
      ((∀ mech target, s'.Tags mech target → s'.world.isMech mech = true ∧
        0 ≤ (s'.world.unit target).mapindex ∧
        (s'.world.unit mech).mapindex = (s'.world.unit target).mapindex ∧
        (s'.world.unit mech).tagTarget = target) ∧
      ∀ mech target other, s'.Tags mech target → s'.Tags mech other → target = other) := by
  have guarded : Machine.Guarded TagWorld.step
      (fun s op => s.world.isMech op.mech = true ∧ op.Clean s) tagStart (enterAll ++
        [.mechTag 1 (some (66, 66)) lit, .mechTag 1 none lit,
          .mechTag 1 (some (67, 67)) lit]) := by decide
  exact ⟨_, rfl, run_tagged tagStart_invariant guarded rfl⟩

/-- A unit that takes up a new target leaves the old one tagged. -/
theorem retag_keeps_old_target : ¬∀ (s s' : TagWorld) (ops : List TagOp), TagInvariant s →
    (∀ op ∈ ops, s.world.isMech op.mech = true) →
    Machine.run TagWorld.step s ops = some s' →
    ∀ mech target, s'.Tags mech target → (s'.world.unit mech).tagTarget = target := by
  intro always
  have ran : (Machine.run TagWorld.step tagStart (enterAll ++
      [.mechTag 1 (some (66, 66)) lit, .mechTag 1 (some (67, 67)) lit])).map
      (fun s => (s.world.isMech 2, s.taggedBy 2, (s.world.unit 1).tagTarget)) =
        some (true, 1, 3) := by decide +kernel
  obtain ⟨s', ended, seen⟩ := Option.map_eq_some_iff.mp ran
  obtain ⟨isMech, seen⟩ := Prod.mk.inj seen
  obtain ⟨by', target⟩ := Prod.mk.inj seen
  have same := always tagStart s' _ tagStart_invariant (by decide +kernel) ended 1 2
    ⟨isMech, by', by decide⟩
  exact absurd (target.symm.trans same) (by decide)

end BattletechMux.UnitWorld
