/-
Module: BattletechMux.Unit.Symmetry
Purpose: Membership in C3 and C3i networks is symmetric over whole runs, as long as nobody is moved
  off its map while in a network and no unit leaves a C3 network too large for the masters that
  stay.
-/
import BattletechMux.Unit.Coherence
import BattletechMux.Unit.Occupancy

namespace BattletechMux.UnitWorld

open List

section Reach

variable {w : World} {isC3 : Bool} {mech ref : Dbref}

theorem reaches_congr (reach : w.reaches isC3 mech ref = true) (o : Dbref) :
    w.reaches isC3 ref o = w.reaches isC3 mech o := by
  have hf := (Bool.and_eq_true_iff.mp reach).2
  simp only [reachable, Bool.and_eq_true, beq_iff_eq] at hf
  simp only [World.reaches, reachable, hf]

theorem reaches_back (isMech : w.isMech mech = true)
    (works : (w.unit mech).working isC3 = true) (reach : w.reaches isC3 mech ref = true) :
    w.reaches isC3 ref mech = true := by
  rw [reaches_congr reach]
  simp only [Unit.working, Bool.and_eq_true, Bool.not_eq_true'] at works
  simp [World.reaches, reachable, isMech, works]

theorem reaches_mapindex (reach : w.reaches isC3 mech ref = true) :
    (w.unit ref).mapindex = (w.unit mech).mapindex := by
  have hf := (Bool.and_eq_true_iff.mp reach).2
  simp only [reachable, Bool.and_eq_true, beq_iff_eq] at hf
  exact hf.1.1.1.2

end Reach

section Join

variable {w : World} {isC3 : Bool} {target mech : Dbref} {items : List Dbref}

theorem kept_filter (w : World) (isC3 : Bool) (mech : Dbref) (items : List Dbref) :
    kept w isC3 mech (items.filter (w.reaches isC3 mech)) = kept w isC3 mech items := by
  simp only [kept, filter_filter, Bool.and_self]

theorem swap_perm (nodup : items.Nodup) (mem : mech ∈ items) :
    (mech :: target :: items.filter fun item => item != mech).Perm (target :: items) := by
  rw [← nodup.erase_eq_filter]
  apply (List.Perm.swap target mech (items.erase mech)).trans
  exact (perm_cons_erase mem).symm.cons target

theorem kept_copy (isTarget : w.isMech target = true)
    (works : (w.unit target).working isC3 = true) (nodup : items.Nodup)
    (fits : isC3 = true → (items.filter (w.reaches isC3 target)).length ≤
      capacity w (target :: items.filter (w.reaches isC3 target)))
    (mem : mech ∈ items) (reach : w.reaches isC3 target mech = true) :
    kept w isC3 mech (target :: items.filter fun item => item != mech) =
      target :: (items.filter (w.reaches isC3 target)).filter fun item => item != mech := by
  have back := reaches_back isTarget works reach
  have eq : w.reaches isC3 mech = w.reaches isC3 target := funext (reaches_congr reach)
  have swapped : (target :: items.filter fun item => item != mech).filter
        (w.reaches isC3 mech) =
      target :: (items.filter (w.reaches isC3 target)).filter fun item => item != mech := by
    rw [filter_cons_of_pos back, eq, filter_filter, filter_filter]
    simp only [Bool.and_comm]
  have inReach : mech ∈ items.filter (w.reaches isC3 target) :=
    mem_filter.mpr ⟨mem, reach⟩
  have perm := @swap_perm target mech _ (nodup.filter (w.reaches isC3 target)) inReach
  rw [← kept_filter, swapped]
  apply kept_of_fits
  · intro item among
    rw [← swapped] at among
    exact (mem_filter.mp among).2
  · intro kind
    have length := perm.length_eq
    have allowed := fits kind
    simp only [length_cons] at length ⊢
    rw [capacity_perm perm]
    omega

theorem joined_coherent (nodup : (target :: items).Nodup)
    (isTarget : w.isMech target = true) (works : (w.unit target).working isC3 = true)
    (own : Lists (w.network isC3 target) (networkLength isC3) items)
    (copies : ∀ ref ∈ items, Lists (w.network isC3 ref) (networkLength isC3)
      (target :: items.filter fun item => item != ref))
    (reached : ∀ ref ∈ items, w.reaches isC3 target ref = true)
    (onMap : ∀ ref ∈ items, w.isMap (w.unit target).mapindex = true)
    (fits : isC3 = true → items.length ≤ capacity w (target :: items)) (ref : Dbref)
    (mem : ref ∈ target :: items) : NetCoherent w isC3 ref := by
  obtain ⟨notSelf, distinctItems⟩ := nodup_cons.mp nodup
  have others : ∀ ref ∈ target :: items, ref ≠ target → ref ∈ items :=
    fun ref among ne => (mem_cons.mp among).resolve_left ne
  have rest : ∀ ref ∈ items, ∀ item ∈ target :: items.filter fun item => item != ref,
      w.reaches isC3 ref item = true := by
    intro ref inside item among
    rcases mem_cons.mp among with rfl | later
    · exact reaches_back isTarget works (reached ref inside)
    · rw [reaches_congr (reached ref inside)]
      exact reached item (mem_filter.mp later).1
  apply @NetCoherent.of_group w isC3 ref (target :: items) (fun ref =>
    if ref = target then items else target :: items.filter fun item => item != ref)
    nodup _ _ _ _ _ mem
  · intro ref among
    by_cases eq : ref = target
    · rwa [if_pos eq, eq]
    · rw [if_neg eq]
      exact copies ref (others ref among eq)
  · intro ref among
    by_cases eq : ref = target
    · rw [if_pos eq, eq]
    · rw [if_neg eq]
      exact swap_perm distinctItems (others ref among eq)
  · intro ref among
    by_cases eq : ref = target
    · rw [if_pos eq, eq]
      exact reached
    · rw [if_neg eq]
      exact rest ref (others ref among eq)
  · intro ref among item inside
    by_cases eq : ref = target
    · rw [if_pos eq] at inside
      exact eq ▸ onMap item inside
    · have isOther := others ref among eq
      exact reaches_mapindex (reached ref isOther) ▸ onMap ref isOther
  · exact fun kind => Nat.succ_le_succ (fits kind)

section

variable (coherent : Coherent w) (isTarget : w.isMech target = true) (isMech : w.isMech mech = true)
include coherent isTarget isMech

theorem addMechToNetwork_idle (ne : target ≠ mech)
    (alone : w.members isC3 mech = []) (idle : (w.unit target).working isC3 = false) :
    ∃ w', addMechToNetwork isC3 target mech w = some w' ∧ Coherent w' := by
  have room : 0 < networkLength isC3 := by cases isC3 <;> decide
  have empty : w.members isC3 target = [] := by
    rw [eq_nil_iff_forall_not_mem]
    intro ref mem
    exact Bool.false_ne_true
      (idle.symm.trans ((coherent isC3 target isTarget).working ref mem))
  have mechLists := (coherent isC3 mech isMech).lists
  rw [alone] at mechLists
  obtain ⟨valid, validated, wrote, stores⟩ := validate_keeps (coherent isC3 target isTarget)
  rw [empty] at stores
  have notMember : target ∉ [mech] := by simpa using ne
  obtain ⟨copied, adding, only, own, copies, others⟩ := @addMechToNetwork_spec isC3 target
    mech w [] valid validated wrote stores (by simp) (by simp) notMember room
  rw [nil_append] at own copies others
  -- the new unit does not reach the target, and drops it again
  have unreached : ∀ ref, w.reaches isC3 ref target = false := by
    intro ref
    cases reach : w.reaches isC3 ref target with
    | false => rfl
    | true =>
      have works := working_of_reachable (Bool.and_eq_true_iff.mp reach).2
      exact absurd (idle.symm.trans works) (by decide)
  have mechCopy : Lists (copied.network isC3 mech) (networkLength isC3) [] := by
    by_cases reach : w.reaches isC3 target mech = true
    · have copy := (copies mech mem_cons_self reach).toLists
      have nothing : (target :: [mech].filter fun item => item != mech).filter
          (w.reaches isC3 mech) = [] := by
        simp [unreached]
      rwa [← kept_filter, nothing, kept_nil] at copy
    · rw [others isC3 mech]
      · exact mechLists
      · rintro ⟨_, eq | ⟨_, reach'⟩⟩
        · exact ne eq.symm
        · exact reach reach'
  obtain ⟨w', clearing, onlyThen, size, told, othersThen⟩ := @clearNetworkWith_spec isC3
    target copied [mech] 0 (fun _ => []) own.toLists (by simp) notMember (by
      intro ref mem _
      obtain rfl := mem_singleton.mp mem
      exact mechCopy)
  refine ⟨w', ?_, ?_⟩
  · rw [adding, validate_of_idle ((only.working target).trans idle)]
    exact clearing
  · apply coherent.congr
    refine ⟨only.trans onlyThen, ?_⟩
    intro kind ref isRef
    by_cases here : kind = isC3 ∧ (ref = target ∨ ref = mech)
    · obtain ⟨rfl, rfl | rfl⟩ := here
      · rw [empty]
        exact lists_nil size
      · rw [alone]
        by_cases reach : copied.reaches kind target ref = true
        · have result := told ref mem_cons_self reach
          rwa [blanked, map_nil, kept_nil] at result
        · rw [othersThen kind ref]
          · exact mechCopy
          · rintro ⟨_, eq | ⟨_, reach'⟩⟩
            · exact ne eq.symm
            · exact reach reach'
    · rw [othersThen kind ref, others kind ref]
      · exact (coherent kind ref isRef).lists
      · rintro ⟨eq, isIt | ⟨mem, _⟩⟩
        · exact here ⟨eq, Or.inl isIt⟩
        · exact here ⟨eq, Or.inr (mem_singleton.mp mem)⟩
      · rintro ⟨eq, isIt | ⟨mem, _⟩⟩
        · exact here ⟨eq, Or.inl isIt⟩
        · exact here ⟨eq, Or.inr (mem_singleton.mp mem)⟩

theorem addMechToNetwork_working (ne : target ≠ mech)
    (alone : w.members isC3 mech = []) (onMap : w.isMap (w.unit mech).mapindex = true)
    (works : (w.unit target).working isC3 = true)
    (room : (w.members isC3 target).length < networkLength isC3)
    (fits : isC3 = true → (w.members isC3 target).length + 1 ≤
      capacity w (mech :: target :: w.members isC3 target)) :
    ∃ w', addMechToNetwork isC3 target mech w = some w' ∧ Coherent w' := by
  have old := coherent isC3 target isTarget
  have absent : mech ∉ w.members isC3 target := old.not_member_of_empty alone
  have nodup : (w.members isC3 target ++ [mech]).Nodup := by
    rw [nodup_append]
    refine ⟨old.distinct, pairwise_singleton _ mech, ?_⟩
    intro item mem o isNew eq
    obtain rfl := mem_singleton.mp isNew
    exact absent (eq ▸ mem)
  have notSelf : target ∉ w.members isC3 target ++ [mech] := by
    simpa [ne] using old.notSelf
  obtain ⟨valid, validated, wrote, stores⟩ := validate_keeps old
  obtain ⟨copied, adding, only, own, copies, others⟩ := addMechToNetwork_spec validated wrote
    stores (fun ref mem => w.mech_pos ref (old.isMech mem)) nodup notSelf room
  obtain ⟨w', ran, wroteThen, stored⟩ :=
    validate_spec ((only.working target).trans works) own.toLists
  rw [only.kept] at stored
  have onlyAll := only.trans wroteThen.only
  refine ⟨w', adding.trans ran, ?_⟩
  -- the units of the list, and the new one when it is in reach
  have oldReached : (w.members isC3 target).filter (w.reaches isC3 target) =
      w.members isC3 target := filter_eq_self.mpr old.reached
  have joined : isC3 = true →
      ((w.members isC3 target ++ [mech]).filter (w.reaches isC3 target)).length ≤
        capacity w (target ::
          (w.members isC3 target ++ [mech]).filter (w.reaches isC3 target)) := by
    intro kind
    rw [filter_append, oldReached]
    cases reach : w.reaches isC3 target mech with
    | false => simpa [reach] using old.fits kind
    | true =>
      have moved : (mech :: target :: w.members isC3 target).Perm
          (target :: (w.members isC3 target ++ [mech])) :=
        (List.Perm.swap target mech _).trans
          ((perm_append_singleton mech _).symm.cons target)
      rw [filter_cons_of_pos reach, filter_nil, ← capacity_perm moved]
      simpa using fits kind
  have inReach : ∀ ref, ref ∈ (w.members isC3 target ++ [mech]).filter
      (w.reaches isC3 target) ↔
        ref ∈ w.members isC3 target ++ [mech] ∧ w.reaches isC3 target ref = true :=
    fun ref => mem_filter
  have distinctReach := nodup.filter (w.reaches isC3 target)
  rw [← kept_filter, kept_of_fits (fun ref mem => ((inReach ref).mp mem).2) joined]
    at stored
  have copy : ∀ ref ∈ (w.members isC3 target ++ [mech]).filter (w.reaches isC3 target),
      Lists (w'.network isC3 ref) (networkLength isC3) (target ::
        ((w.members isC3 target ++ [mech]).filter (w.reaches isC3 target)).filter
          fun item => item != ref) := by
    intro ref mem
    obtain ⟨among, reach⟩ := (inReach ref).mp mem
    have notTarget : ref ≠ target := fun eq => notSelf (eq ▸ among)
    rw [wroteThen.others isC3 ref fun eq => notTarget eq.2,
      ← kept_copy isTarget works nodup joined among reach]
    exact (copies ref among reach).toLists
  have group := @joined_coherent w' isC3 target _ (nodup_cons.mpr
      ⟨fun among => notSelf ((inReach target).mp among).1, distinctReach⟩)
    (by rwa [onlyAll.isMech]) ((onlyAll.working target).trans works) stored.toLists copy
    (fun ref mem => (onlyAll.reaches isC3 target ref).trans ((inReach ref).mp mem).2)
    (by
      intro ref mem
      rw [onlyAll.isMap, onlyAll.mapindex]
      obtain ⟨among, reach⟩ := (inReach ref).mp mem
      rcases mem_append.mp among with pre | new
      · exact old.onMap ref pre
      · obtain rfl := mem_singleton.mp new
        exact reaches_mapindex reach ▸ onMap)
    (fun kind => (onlyAll.capacity _).symm ▸ joined kind)
  apply coherent.of_kind onlyAll
  · intro ref
    rw [wroteThen.others, others]
    · exact fun eq => isC3.not_eq_self.mp eq.1
    · exact fun eq => isC3.not_eq_self.mp eq.1
  · apply NetCoherent.regroup (fun ref => ref = target ∨
        ref ∈ (w.members isC3 target ++ [mech]).filter (w.reaches isC3 target))
      (coherent isC3) onlyAll
    · intro ref isRef untouched
      rw [wroteThen.others isC3 ref fun eq => untouched (Or.inl eq.2),
        others isC3 ref fun eq => untouched (eq.2.imp_right (inReach ref).mpr)]
      exact (coherent isC3 ref isRef).lists
    · intro ref isRef untouched item mem touched
      apply untouched
      have among : item = target ∨ item ∈ w.members isC3 target := by
        refine touched.imp_right fun inside => ?_
        rcases mem_append.mp ((inReach item).mp inside).1 with pre | new
        · exact pre
        · have newcomer := mem_singleton.mp new
          exact absurd (newcomer ▸ mem)
            ((coherent isC3 ref isRef).not_member_of_empty alone)
      refine (coherent.closed isTarget isRef mem among).imp_right fun inside => ?_
      exact (inReach ref).mpr ⟨mem_append_left _ inside, old.reached ref inside⟩
    · exact fun ref _ => fun mem => group ref (mem_cons.mpr mem)

theorem addMechToNetwork_coherent (ne : target ≠ mech)
    (alone : w.members isC3 mech = []) (onMap : w.isMap (w.unit mech).mapindex = true)
    (room : (w.members isC3 target).length < networkLength isC3)
    (fits : isC3 = true → (w.members isC3 target).length + 1 ≤
      capacity w (mech :: target :: w.members isC3 target)) :
    ∃ w', addMechToNetwork isC3 target mech w = some w' ∧ Coherent w' := by
  cases works : (w.unit target).working isC3 with
  | true =>
    exact addMechToNetwork_working coherent isTarget isMech ne alone onMap works room
      fits
  | false => exact addMechToNetwork_idle coherent isTarget isMech ne alone works

end

end Join

open Option
open Function (update)

/-- What the networks depend on of a unit, its place apart. -/
def Unit.wiring (u : Unit) : Unit :=
  { u with
    mapindex := 0, mapnumber := 0, id := default, started := default, towed := default
    lockTarget := default, lockElsewhere := default, target := 0, carrying := 0
    tagTarget := 0, numSeen := 0, canSee := 0, aaTech := default }

/-- Two worlds that differ in nothing the networks depend on but the place of one
unit. -/
structure SameWiring (mover : Dbref) (w w' : World) : Prop where
  isMech : w'.isMech = w.isMech
  isMap : w'.isMap = w.isMap
  unit : ∀ ref, (w'.unit ref).wiring = (w.unit ref).wiring
  mapindex : ∀ ref, ref ≠ mover → (w'.unit ref).mapindex = (w.unit ref).mapindex

namespace SameWiring

variable {mover : Dbref} {w w' w'' : World}

theorem refl (mover : Dbref) (w : World) : SameWiring mover w w :=
  ⟨rfl, rfl, fun _ => rfl, fun _ _ => rfl⟩

theorem trans (fst : SameWiring mover w w') (snd : SameWiring mover w' w'') :
    SameWiring mover w w'' where
  isMech := snd.isMech.trans fst.isMech
  isMap := snd.isMap.trans fst.isMap
  unit ref := (snd.unit ref).trans (fst.unit ref)
  mapindex ref o := (snd.mapindex ref o).trans (fst.mapindex ref o)

theorem setUnit (w : World) (mech : Dbref) {u : Unit} (wiring : u.wiring = (w.unit mech).wiring)
    (place : mech ≠ mover → u.mapindex = (w.unit mech).mapindex) :
    SameWiring mover w (w.setUnit mech u) where
  isMech := rfl
  isMap := rfl
  unit ref := by
    by_cases eq : ref = mech
    · rw [eq, World.setUnit_unit_self, wiring]
    · rw [World.setUnit_unit_of_ne _ _ eq]
  mapindex ref o := by
    by_cases eq : ref = mech
    · rw [eq, World.setUnit_unit_self]
      exact place (eq ▸ o)
    · rw [World.setUnit_unit_of_ne _ _ eq]

theorem modifyUnit (w : World) (mech : Dbref) {f : Unit → Unit}
    (wiring : ∀ u, (f u).wiring = u.wiring) (place : ∀ u, (f u).mapindex = u.mapindex) :
    SameWiring mover w (w.modifyUnit mech f) :=
  setUnit w mech (wiring _) fun _ => place _

theorem modifyMover (w : World) {f : Unit → Unit} (wiring : ∀ u, (f u).wiring = u.wiring) :
    SameWiring mover w (w.modifyUnit mover f) :=
  setUnit w mover (wiring _) fun o => absurd rfl o

theorem setMap (w : World) (map : Dbref) (m : GameMap) :
    SameWiring mover w (w.setMap map m) := ⟨rfl, rfl, fun _ => rfl, fun _ _ => rfl⟩

theorem clearMechFromLOS (mech : Dbref) (w : World) :
    SameWiring mover w (UnitWorld.clearMechFromLOS mech w) := by
  refine clearMechFromLOS_rule (SameWiring mover) trans (refl mover)
    (clearSlotFromLOS_rule (SameWiring mover) trans (fun w map _ _ => setMap w map _)
      (fun w mek => modifyUnit w mek (fun u => ?_) fun u => u.loseLockOn_mapindex mech)
      fun w mek => modifyUnit w mek (fun _ => rfl) fun _ => rfl)
    (fun w => ?_) w
  · unfold Unit.loseLockOn
    split <;> rfl
  · apply modifyUnit _ mech <;> intro u <;> unfold Unit.loseAnyLock <;> split <;> rfl

theorem removeMechFromMap (map : Dbref) (w : World) :
    SameWiring mover w (UnitWorld.removeMechFromMap map mover w) := by
  have left : ∀ w : World, SameWiring mover w (leaveSlot map mover w) := by
    intro w
    have off : SameWiring mover w (w.modifyUnit mover Unit.leave) :=
      modifyMover w fun _ => rfl
    unfold leaveSlot
    simp only
    split
    · exact off
    · exact off.trans (setMap _ map _)
  have released : ∀ w : World, SameWiring mover w (releaseTow map mover w) := by
    intro w
    have dropped : ∀ tug, SameWiring mover w (w.modifyUnit tug Unit.dropCarried) :=
      fun tug => modifyUnit w tug (fun _ => rfl) fun _ => rfl
    unfold releaseTow
    split
    · split
      · exact refl mover w
      · exact (dropped _).trans (modifyMover _ fun _ => rfl)
    · exact refl mover w
  unfold UnitWorld.removeMechFromMap
  exact (((clearMechFromLOS mover w).trans (left _)).trans (released _)).trans
    (modifyMover _ fun _ => rfl)

theorem addMechToMap (map : Dbref) (w : World) :
    SameWiring mover w (UnitWorld.addMechToMap map mover w) := by
  have entered : ∀ loop, SameWiring mover w (w.modifyUnit mover fun u => u.enter map loop) :=
    fun _ => modifyMover w fun _ => rfl
  have taken : SameWiring mover w (takeSlot map mover w) :=
    (entered _).trans (setMap _ map _)
  have dropped : ∀ w : World, SameWiring mover w (dropTow map mover w) := by
    intro w
    unfold dropTow
    split
    · exact modifyMover w fun _ => rfl
    · exact refl mover w
  have marked : ∀ w : World, SameWiring mover w (markForLOSUpdate mover w) := by
    intro w
    unfold markForLOSUpdate
    split
    · exact refl mover w
    · exact setMap w _ _
  unfold UnitWorld.addMechToMap
  split
  · exact refl mover w
  · exact (taken.trans (dropped _)).trans (marked _)

theorem enterMap {map : Dbref} {ids : List MechId}
    (entered : UnitWorld.enterMap mover map ids w = some w') : SameWiring mover w w' := by
  rcases enterMap_cases entered with rfl | ⟨_, targ, rfl⟩
  · exact refl mover w'
  · exact (addMechToMap map w).trans (modifyMover _ fun _ => rfl)

variable {isC3 : Bool} {mech ref : Dbref}

section

variable (eq : SameWiring mover w w')
include eq

theorem network (isC3 : Bool) (mech : Dbref) : w'.network isC3 mech = w.network isC3 mech :=
  congrArg (fun u => u.network isC3) (eq.unit mech)

theorem members (isC3 : Bool) (mech : Dbref) : w'.members isC3 mech = w.members isC3 mech := by
  unfold World.members
  rw [eq.network]

theorem working (isC3 : Bool) (mech : Dbref) :
    (w'.unit mech).working isC3 = (w.unit mech).working isC3 :=
  congrArg (fun u => u.working isC3) (eq.unit mech)

theorem capacity (group : List Dbref) : capacity w' group = capacity w group := by
  have masters : masterCount w' group = masterCount w group := by
    induction group with
    | nil => rfl
    | cons fst rest ih =>
      have count : (w'.unit fst).workingC3Masters = (w.unit fst).workingC3Masters :=
        congrArg (fun u => u.workingC3Masters) (eq.unit fst)
      simp only [masterCount, ih, count]
  rw [UnitWorld.capacity, UnitWorld.capacity, masters]

theorem reaches (mechStays : mech ≠ mover) (refStays : ref ≠ mover) :
    w'.reaches isC3 mech ref = w.reaches isC3 mech ref := by
  have team : ∀ unit, (w'.unit unit).team = (w.unit unit).team :=
    fun unit => congrArg (fun u => u.team) (eq.unit unit)
  have destroyed : (w'.unit ref).destroyed = (w.unit ref).destroyed :=
    congrArg (fun u => u.destroyed) (eq.unit ref)
  have computer : (w'.unit ref).hasComputer isC3 = (w.unit ref).hasComputer isC3 :=
    congrArg (fun u => u.hasComputer isC3) (eq.unit ref)
  have computerDestroyed : (w'.unit ref).computerDestroyed isC3 =
      (w.unit ref).computerDestroyed isC3 :=
    congrArg (fun u => u.computerDestroyed isC3) (eq.unit ref)
  simp only [World.reaches, reachable, eq.isMech, team, destroyed, computer,
    computerDestroyed, eq.mapindex mech mechStays, eq.mapindex ref refStays]

theorem coherent (coherent : Coherent w) (alone : ∀ isC3, w.members isC3 mover = []) :
    Coherent w' := by
  intro isC3 mech isMech
  rw [eq.isMech] at isMech
  have old := coherent isC3 mech isMech
  have now := eq.members isC3 mech
  have stays : ∀ ref ∈ w.members isC3 mech, mech ≠ mover ∧ ref ≠ mover := by
    intro ref mem
    constructor
    · rintro rfl
      rw [alone] at mem
      exact absurd mem not_mem_nil
    · rintro rfl
      exact old.not_member_of_empty (alone isC3) mem
  refine ⟨?_, ?_, ?_, ?_, ?_, ?_, ?_, ?_⟩ <;> rw [now]
  · rw [eq.network]
    exact old.lists
  · intro ref mem
    rw [eq.reaches (stays ref mem).1 (stays ref mem).2]
    exact old.reached ref mem
  · intro ref mem
    rw [eq.working]
    exact old.working ref mem
  · intro ref mem
    rw [eq.isMap, eq.mapindex mech (stays ref mem).1]
    exact old.onMap ref mem
  · exact old.notSelf
  · exact old.distinct
  · intro ref mem
    rw [eq.members]
    exact old.group ref mem
  · rw [eq.capacity]
    exact old.fits

end

end SameWiring

def World.Alone (w : World) (mech : Dbref) : Prop := ∀ isC3, w.members isC3 mech = []

instance (w : World) (mech : Dbref) : Decidable (w.Alone mech) :=
  inferInstanceAs (Decidable (∀ isC3, w.members isC3 mech = []))

section Moves

variable {w w' : World} {mech : Dbref}

theorem Coherent.clear_alone {isC3 : Bool} (coherent : Coherent w)
    (isMech : w.isMech mech = true) (alone : w.Alone mech) :
    ∃ w', clearNetwork isC3 mech true w = some w' ∧ NetworkOnly w w' ∧ Coherent w' ∧
      w'.Alone mech := by
  have whole : w.LeavesWhole isC3 mech := by
    intro _
    rw [alone]
    exact Or.inl rfl
  obtain ⟨w', ran, only, post, empty, others⟩ := clearNetwork_coherent coherent isMech whole
  refine ⟨w', ran, only, post, ?_⟩
  intro kind
  by_cases eq : kind = isC3
  · rw [eq, empty]
  · have opposite : kind = !isC3 := Bool.eq_not.mpr eq
    rw [opposite, ← alone (!isC3)]
    unfold World.members
    rw [others]

theorem leaveMap_coherent (coherent : Coherent w) (isMech : w.isMech mech = true)
    (alone : w.Alone mech) (leaving : leaveMap mech w = some w') :
    Coherent w' ∧ w'.Alone mech := by
  have tag : SameWiring mech (removeMechFromMap (w.unit mech).mapindex mech w)
      ((removeMechFromMap (w.unit mech).mapindex mech w).modifyUnit mech Unit.dropTag) :=
    SameWiring.modifyMover _ fun _ => rfl
  have eq := (SameWiring.removeMechFromMap (w.unit mech).mapindex w).trans tag
  have off := eq.coherent coherent alone
  have still : World.Alone _ mech := fun isC3 => (eq.members isC3 mech).trans (alone isC3)
  obtain ⟨fst, clearing, only, afterFirst, aloneFirst⟩ :=
    @Coherent.clear_alone _ mech false off (by rwa [eq.isMech]) still
  obtain ⟨snd, clearingC3, _, afterSecond, aloneSecond⟩ :=
    @Coherent.clear_alone _ mech true afterFirst (by rwa [only.isMech, eq.isMech]) aloneFirst
  have ran : leaveMap mech w = some snd := by
    simp [leaveMap, clearC3iNetwork, clearC3Network, clearing, clearingC3]
  obtain rfl := some.inj (ran.symm.trans leaving)
  exact ⟨afterSecond, aloneSecond⟩

theorem mechRsetmapindex_coherent {newindex : Dbref} {ids : List MechId}
    (coherent : Coherent w) (isMech : w.isMech mech = true)
    (alone : w.TakesOff mech newindex → w.Alone mech)
    (moved : mechRsetmapindex mech newindex ids w = some w') : Coherent w' := by
  rcases mechRsetmapindex_cases moved with
    rfl | ⟨takesOff, left, leaving, rfl | ⟨_, entered⟩⟩ | ⟨off, _, entered⟩
  · exact coherent
  · exact (leaveMap_coherent coherent isMech (alone takesOff) leaving).1
  · obtain ⟨post, still⟩ := leaveMap_coherent coherent isMech (alone takesOff) leaving
    exact (SameWiring.enterMap entered).coherent post still
  · apply (SameWiring.enterMap entered).coherent coherent
    -- a unit on no map is in no network
    intro isC3
    rw [eq_nil_iff_forall_not_mem]
    intro ref mem
    have onMap := (coherent isC3 mech isMech).onMap ref mem
    have nonneg := w.map_nonneg _ onMap
    rw [off] at nonneg
    exact absurd nonneg (by decide)

end Moves

section Command

variable {w w' : World} {isC3 : Bool} {mech : Dbref}

def World.Commands (w : World) (isC3 : Bool) (mech : Dbref) (ctx : JoinContext) : Prop :=
  ((w.unit mech).started && ctx.permitted && w.isMap (w.unit mech).mapindex &&
    (w.unit mech).working isC3 && !ctx.ecmDisturbed) = true

instance (w : World) (isC3 : Bool) (mech : Dbref) (ctx : JoinContext) :
    Decidable (w.Commands isC3 mech ctx) := inferInstanceAs (Decidable (_ = true))

theorem SameMembers.leavesWhole (eq : SameMembers w w') (isMech : w.isMech mech = true)
    (whole : w.LeavesWhole isC3 mech) : w'.LeavesWhole isC3 mech := by
  unfold World.LeavesWhole
  rw [eq.members isC3 isMech, eq.only.masterCount, eq.only.capacity]
  exact whole

theorem Coherent.alone_of_lost (coherent : Coherent w) (isMech : w.isMech mech = true)
    (lost : w.isMap (w.unit mech).mapindex = false) : w.Alone mech := by
  intro isC3
  rw [eq_nil_iff_forall_not_mem]
  intro ref mem
  have onMap := (coherent isC3 mech isMech).onMap ref mem
  exact Bool.false_ne_true (lost.symm.trans onMap)

theorem findMechOnMap_isMech {map target : Dbref} {id : MechId}
    (hf : findMechOnMap w map id = some target) : w.isMech target = true := by
  obtain ⟨loop, _, slot⟩ := mem_filterMap.mp (mem_of_find?_eq_some hf)
  obtain ⟨isMech, eq⟩ := World.getMech_eq_some.mp slot
  exact eq ▸ isMech

theorem NetCoherent.members_of_size (coherent : NetCoherent w isC3 mech)
    (empty : ¬ (w.network isC3 mech).size > 0) : w.members isC3 mech = [] := by
  apply eq_nil_of_length_eq_zero
  have size := coherent.lists.size
  omega

theorem not_full {target : Dbref} (coherent : NetCoherent w isC3 target)
    (notFull : networkFull isC3 mech target w = false) :
    (w.members isC3 target).length < networkLength isC3 ∧
      (isC3 = true → (w.members isC3 target).length + 1 ≤
        capacity w (mech :: target :: w.members isC3 target)) := by
  have size := coherent.lists.size
  cases isC3 with
  | false =>
    simp only [networkFull, Bool.false_eq_true, if_false, decide_eq_false_iff_not] at notFull
    refine ⟨by omega, fun kind => absurd kind (by decide)⟩
  | true =>
    have counted := @countMaxC3Units_some w mech (w.members true target)
      (fun ref mem => coherent.isMech mem) target
    have allowed : ¬ (countMaxC3Units w mech (w.members true target) (some target) : Int) <
        (w.network true target).size + 1 := by
      unfold World.members
      simpa [networkFull] using notFull
    rw [counted] at allowed
    have most : capacity w (mech :: target :: w.members true target) ≤ 11 :=
      Nat.min_le_right _ _
    have length : networkLength true = 11 := rfl
    exact ⟨by omega, fun _ => by omega⟩

theorem joinLeave_coherent {arg : JoinArg} {ctx : JoinContext} (coherent : Coherent w)
    (isMech : w.isMech mech = true)
    (whole : arg = .leave → w.Commands isC3 mech ctx → w.LeavesWhole isC3 mech)
    (ran : joinLeave isC3 mech arg ctx w = some w') : Coherent w' := by
  unfold joinLeave at ran
  simp only at ran
  split at ran
  · exact some.inj ran ▸ coherent
  · rename_i allowed
    split at ran
    · rename_i lost
      obtain rfl := some.inj ran
      have wired : SameWiring mech w
          (w.setUnit mech { w.unit mech with mapindex := -1, started := false }) :=
        SameWiring.setUnit w mech rfl fun o => absurd rfl o
      exact wired.coherent coherent (coherent.alone_of_lost isMech (by simpa using lost))
    · rename_i onMap
      split at ran
      · exact some.inj ran ▸ coherent
      · rename_i usable
        obtain ⟨valid, validated, _, eq⟩ := @validate_coherent w isC3 mech coherent isMech
        have after := coherent.congr eq
        have isMechAfter : valid.isMech mech = true := by rwa [eq.only.isMech]
        simp only [validated, bind_eq_bind, bind_some] at ran
        cases arg with
        | leave =>
          simp only at ran
          split at ran
          · exact some.inj ran ▸ after
          · have commands : w.Commands isC3 mech ctx := by
              simp only [Bool.or_eq_true, not_or, Bool.not_eq_true,
                Bool.not_eq_eq_eq_not, Bool.not_true] at allowed onMap usable
              simp [World.Commands, Unit.working, allowed, onMap, usable]
            obtain ⟨cleared, clearing, _, done, _⟩ := clearNetwork_coherent after
              isMechAfter (eq.leavesWhole isMech (whole rfl commands))
            exact some.inj (clearing.symm.trans ran) ▸ done
        | join id =>
          simp only at ran
          split at ran
          · exact some.inj ran ▸ after
          · rename_i inNone
            split at ran
            · exact some.inj ran ▸ after
            · rename_i target found
              split at ran
              · exact some.inj ran ▸ after
              · rename_i eligible
                simp only [Bool.or_eq_true, not_or, Bool.not_eq_true, bne_eq_false_iff_eq,
                  beq_eq_false_iff_ne] at eligible
                have isTarget := findMechOnMap_isMech found
                obtain ⟨again, validatedAgain, _, sameAgain⟩ :=
                  @validate_coherent valid isC3 target after isTarget
                have afterAgain := after.congr sameAgain
                simp only [validatedAgain, bind_some] at ran
                split at ran
                · exact some.inj ran ▸ afterAgain
                · rename_i notFull
                  have isMechAgain : again.isMech mech = true := by
                    rwa [sameAgain.only.isMech]
                  have isTargetAgain : again.isMech target = true := by
                    rwa [sameAgain.only.isMech]
                  have none' : valid.members isC3 mech = [] :=
                    (after isC3 mech isMechAfter).members_of_size inNone
                  obtain ⟨room, fits⟩ := not_full (afterAgain isC3 target isTargetAgain)
                    (Bool.eq_false_iff.mpr notFull)
                  have only := eq.only.trans sameAgain.only
                  obtain ⟨joined, joining, done⟩ := addMechToNetwork_coherent afterAgain
                    isTargetAgain isMechAgain eligible.1.1.1.2
                    ((sameAgain.members isC3 isMechAfter).trans none')
                    (by rw [only.isMap, only.mapindex]; simpa using onMap) room fits
                  exact some.inj (joining.symm.trans ran) ▸ done

end Command

/-- The calls that change networks, or the places of units. -/
inductive NetworkOp where
  | rsetmapindex (mech newindex : Dbref) (ids : List MechId)
  | joinLeave (isC3 : Bool) (mech : Dbref) (arg : JoinArg) (ctx : JoinContext)
  | validate (isC3 : Bool) (mech : Dbref)
  | clear (isC3 : Bool) (mech : Dbref)

namespace NetworkOp

def mech : NetworkOp → Dbref
  | .rsetmapindex mech _ _ => mech
  | .joinLeave _ mech _ _ => mech
  | .validate _ mech => mech
  | .clear _ mech => mech

/-- The call breaks no network: a unit that is taken off its map is in none, and a
unit that leaves a C3 network leaves one that its masters still allow, or one
without masters. -/
def Whole (w : World) : NetworkOp → Prop
  | .rsetmapindex mech newindex _ => w.TakesOff mech newindex → w.Alone mech
  | .joinLeave isC3 mech arg ctx =>
    arg = .leave → w.Commands isC3 mech ctx → w.LeavesWhole isC3 mech
  | .validate _ _ => True
  | .clear isC3 mech => w.LeavesWhole isC3 mech

instance (w : World) : (op : NetworkOp) → Decidable (op.Whole w)
  | .rsetmapindex mech newindex _ =>
    inferInstanceAs (Decidable (w.TakesOff mech newindex → w.Alone mech))
  | .joinLeave isC3 mech arg ctx => inferInstanceAs (Decidable
      (arg = .leave → w.Commands isC3 mech ctx → w.LeavesWhole isC3 mech))
  | .validate _ _ => isTrue trivial
  | .clear isC3 mech => inferInstanceAs (Decidable (w.LeavesWhole isC3 mech))

end NetworkOp

def World.rewire (w : World) : NetworkOp → Option World
  | .rsetmapindex mech newindex ids => mechRsetmapindex mech newindex ids w
  | .joinLeave isC3 mech arg ctx => UnitWorld.joinLeave isC3 mech arg ctx w
  | .validate isC3 mech => UnitWorld.validate isC3 mech w
  | .clear isC3 mech => clearNetwork isC3 mech true w

theorem rewire_coherent {w w' : World} {op : NetworkOp} (coherent : Coherent w)
    (isMech : w.isMech op.mech = true) (whole : op.Whole w) (ran : w.rewire op = some w') :
    Coherent w' := by
  cases op with
  | rsetmapindex mech newindex ids =>
    exact mechRsetmapindex_coherent coherent isMech whole ran
  | joinLeave isC3 mech arg ctx => exact joinLeave_coherent coherent isMech whole ran
  | validate isC3 mech =>
    obtain ⟨valid, validated, _, eq⟩ := @validate_coherent w isC3 mech coherent isMech
    exact some.inj (validated.symm.trans ran) ▸ coherent.congr eq
  | clear isC3 mech =>
    obtain ⟨cleared, clearing, _, done, _⟩ := clearNetwork_coherent coherent isMech whole
    exact some.inj (clearing.symm.trans ran) ▸ done

theorem start_coherent (mechs maps : List Dbref) {unit : Dbref → Unit}
    (empty : ∀ isC3 mech, ((unit mech).network isC3).size = 0) :
    Coherent (World.start mechs maps unit) := by
  intro isC3 mech _
  apply NetCoherent.of_empty
  apply lists_nil
  cases isC3 with
  | false => exact empty false mech
  | true => exact empty true mech

/-- If a unit's network names another unit, that one's network names the first, and
both have the same member set. -/
def Symmetric (w : World) : Prop :=
  ∀ isC3 first second, w.isMech first = true → second ∈ w.members isC3 first →
    w.isMech second = true ∧ first ∈ w.members isC3 second ∧
      ∀ unit, unit ∈ first :: w.members isC3 first ↔ unit ∈ second :: w.members isC3 second

theorem Coherent.symmetric {w : World} (coherent : Coherent w) : Symmetric w := by
  intro isC3 fst snd isFirst mem
  have own := coherent isC3 fst isFirst
  exact ⟨own.isMech mem, own.symmetric mem, fun _ => (own.group snd mem).mem_iff.symm⟩

/-- Where nobody is taken off a map in a network, and no C3 network is left too large
for its masters, membership is symmetric in every state. -/
theorem networks_symmetric {mechs maps : List Dbref} {unit : Dbref → Unit}
    {ops : List NetworkOp} {w : World}
    (empty : ∀ isC3 mech, ((unit mech).network isC3).size = 0)
    (whole : Machine.Guarded World.rewire
      (fun w op => w.isMech op.mech = true ∧ op.Whole w) (World.start mechs maps unit) ops)
    (ran : Machine.run World.rewire (World.start mechs maps unit) ops = some w) :
    Symmetric w := by
  have coherent := Machine.run_guarded (fun _ _ _ holds allowed moved =>
    rewire_coherent holds allowed.1 allowed.2 moved) (start_coherent mechs maps empty) whole ran
  exact coherent.symmetric

/-- A unit with computers of both kinds and in no network. -/
def networkUnit (workingC3Masters : Nat) : Unit :=
  { (default : Unit) with
    started := true, hasC3 := true, hasC3i := true, workingC3Masters := workingC3Masters
    c3Network := ⟨fun _ => -1, 0⟩, c3iNetwork := ⟨fun _ => -1, 0⟩ }

def clearContext : JoinContext := ⟨true, false, true⟩

def company : World :=
  World.start [1, 2, 3, 4, 5, 6] [10, 11] fun ref => networkUnit (if ref < 3 then 1 else 0)

def formUp (isC3 : Bool) (others : List Dbref) : List NetworkOp :=
  (1 :: others).map (fun ref => .rsetmapindex ref 10 [(65, ref.toNat)]) ++
    others.map fun ref => .joinLeave isC3 ref (.join (65, 1)) clearContext

/-- Three units form a C3i network and two a C3 network; one leaves its network and
then the map. -/
theorem networks_symmetric_company :
    ∃ w, Machine.run World.rewire company (formUp false [2, 3] ++
      [.joinLeave true 2 (.join (65, 1)) clearContext, .validate true 1,
        .joinLeave false 3 .leave clearContext, .rsetmapindex 3 11 [(65, 67)],
        .clear true 2]) = some w ∧ Symmetric w := by
  have whole : Machine.Guarded World.rewire
      (fun w op => w.isMech op.mech = true ∧ op.Whole w) company (formUp false [2, 3] ++
        [.joinLeave true 2 (.join (65, 1)) clearContext, .validate true 1,
          .joinLeave false 3 .leave clearContext, .rsetmapindex 3 11 [(65, 67)],
          .clear true 2]) := by decide +kernel
  have completes : (Machine.run World.rewire company (formUp false [2, 3] ++
      [.joinLeave true 2 (.join (65, 1)) clearContext, .validate true 1,
        .joinLeave false 3 .leave clearContext, .rsetmapindex 3 11 [(65, 67)],
        .clear true 2])).isSome = true := by decide +kernel
  obtain ⟨w, ran⟩ := isSome_iff_exists.mp completes
  have empty : ∀ isC3 mech, ((networkUnit (if (mech : Dbref) < 3 then 1 else 0)).network
      isC3).size = 0 := fun isC3 mech => by cases isC3 <;> rfl
  exact ⟨w, ran, networks_symmetric empty whole ran⟩

theorem not_symmetric_of_run {s : World} {ops : List NetworkOp} {isC3 : Bool}
    {fst snd : Dbref}
    (broken : (Machine.run World.rewire s ops).any (fun w => w.isMech fst &&
      (w.members isC3 fst).contains snd && !(w.members isC3 snd).contains fst) =
        true) :
    ∃ w, Machine.run World.rewire s ops = some w ∧ ¬ Symmetric w := by
  obtain ⟨w, ran, facts⟩ := (any_eq_true _ _).mp broken
  simp only [Bool.and_eq_true, contains_iff_mem, Bool.not_eq_true'] at facts
  refine ⟨w, ran, fun symmetric => ?_⟩
  have back := (symmetric isC3 fst snd facts.1.1 facts.1.2).2.1
  rw [← contains_iff_mem, facts.2] at back
  exact Bool.false_ne_true back

/-- A member that changes maps stays in the networks of the others: they are told to
clear it when it is on their map no more. -/
theorem networks_asymmetric :
    ∃ w, Machine.run World.rewire company
      (formUp false [2, 3] ++ [.rsetmapindex 2 11 [(65, 66)]]) = some w ∧ ¬ Symmetric w :=
  @not_symmetric_of_run _ _ false 1 2 (by decide +kernel)

end BattletechMux.UnitWorld
