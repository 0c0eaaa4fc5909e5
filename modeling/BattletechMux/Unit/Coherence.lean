/-
Module: BattletechMux.Unit.Coherence
Purpose: Every unit stores its own copy of its C3 and C3i network; trimming a C3 network keeps the
  masters.
-/
import BattletechMux.Unit.NetworkLists

namespace BattletechMux.UnitWorld

open List

def World.members (w : World) (isC3 : Bool) (mech : Dbref) : List Dbref :=
  (List.range (w.network isC3 mech).size.toNat).map (w.network isC3 mech).elem

theorem Lists.members {w : World} {isC3 : Bool} {mech : Dbref} {limit : Nat}
    {items : List Dbref} (lists : Lists (w.network isC3 mech) limit items) :
    w.members isC3 mech = items := by
  have size : (w.network isC3 mech).size.toNat = items.length := by
    rw [lists.size]
    rfl
  unfold World.members
  rw [size, lists.holds.map_range]

def masterCount (w : World) : List Dbref → Nat
  | [] => 0
  | ref :: rest => (w.unit ref).workingC3Masters + masterCount w rest

def capacity (w : World) (group : List Dbref) : Nat := min (3 * masterCount w group) 11

section Capacity

variable {w w' : World} {isC3 : Bool} {mech : Dbref} {group others temp : List Dbref}

theorem masterCount_perm (eq : group.Perm others) :
    masterCount w group = masterCount w others := by
  induction eq with
  | nil => rfl
  | cons ref _ ih => simp only [masterCount, ih]
  | swap fst snd rest =>
    simp only [masterCount]
    omega
  | trans _ _ one two => exact one.trans two

theorem capacity_perm (eq : group.Perm others) : capacity w group = capacity w others := by
  rw [capacity, capacity, masterCount_perm eq]

theorem NetworkOnly.masterCount (only : NetworkOnly w w') (group : List Dbref) :
    masterCount w' group = masterCount w group := by
  induction group with
  | nil => rfl
  | cons ref rest ih =>
    simp only [UnitWorld.masterCount, only.workingC3Masters, ih]

theorem NetworkOnly.capacity (only : NetworkOnly w w') (group : List Dbref) :
    capacity w' group = capacity w group := by
  rw [UnitWorld.capacity, UnitWorld.capacity, only.masterCount]

section

variable (mechs : ∀ ref ∈ temp, w.isMech ref = true)
include mechs

theorem masters_eq :
    ((temp.filterMap w.getMech).map fun ref => (w.unit ref).workingC3Masters).foldl
      (· + ·) 0 = masterCount w temp := by
  have shifted : ∀ (temp : List Dbref) (start : Nat), (∀ ref ∈ temp, w.isMech ref = true) →
      ((temp.filterMap w.getMech).map fun ref => (w.unit ref).workingC3Masters).foldl
        (· + ·) start = start + masterCount w temp := by
    intro temp
    induction temp with
    | nil => exact fun _ _ => rfl
    | cons ref rest ih =>
      intro start mechs
      have hf : w.getMech ref = some ref :=
        World.getMech_eq_some.mpr ⟨mechs ref mem_cons_self, rfl⟩
      rw [filterMap_cons_some hf, map_cons, foldl_cons,
        ih _ fun later mem =>
          mechs later (mem_cons_of_mem ref mem)]
      simp only [masterCount]
      omega
  rw [shifted temp 0 mechs, Nat.zero_add]

theorem countMaxC3Units_none : countMaxC3Units w mech temp none = capacity w (mech :: temp) := by
  simp only [countMaxC3Units, masters_eq mechs, capacity, masterCount]
  split <;> congr 1 <;> omega

theorem countMaxC3Units_some {targ : Dbref} :
    countMaxC3Units w mech temp (some targ) = capacity w (mech :: targ :: temp) := by
  simp only [countMaxC3Units, masters_eq mechs, capacity, masterCount]
  split <;> split <;> congr 1 <;> omega

theorem trimC3Network_of_fits (fits : temp.length ≤ capacity w (mech :: temp)) :
    trimC3Network w mech temp = temp := by
  unfold trimC3Network
  rw [countMaxC3Units_none mechs]
  exact if_neg (Nat.not_lt.mpr fits)

theorem trimC3Network_of_no_masters (leaderless : masterCount w (mech :: temp) = 0) :
    trimC3Network w mech temp = [] := by
  have none' : ∀ ref ∈ temp, (w.unit ref).workingC3Masters = 0 := by
    have rest : masterCount w temp = 0 := by
      simp only [masterCount] at leaderless
      omega
    clear mechs leaderless
    induction temp with
    | nil => exact fun ref mem => absurd mem not_mem_nil
    | cons fst later ih =>
      simp only [masterCount] at rest
      intro ref mem
      rcases mem_cons.mp mem with rfl | among
      · omega
      · exact ih (by omega) ref among
  have noMasters : (temp.filter fun ref =>
      w.isMech ref && decide (0 < (w.unit ref).workingC3Masters)) = [] := by
    rw [filter_eq_nil_iff]
    intro ref mem
    simp [none' ref mem]
  unfold trimC3Network
  rw [countMaxC3Units_none mechs, capacity, leaderless]
  cases temp with
  | nil => rfl
  | cons fst later => simp [noMasters]

end

theorem kept_of_fits (reached : ∀ item ∈ temp, w.reaches isC3 mech item = true)
    (fits : isC3 = true → temp.length ≤ capacity w (mech :: temp)) :
    kept w isC3 mech temp = temp := by
  have all : temp.filter (w.reaches isC3 mech) = temp := filter_eq_self.mpr reached
  unfold kept
  simp only [all]
  cases isC3 with
  | false => simp
  | true =>
    have whole := trimC3Network_of_fits (fun item mem =>
      (Bool.and_eq_true_iff.mp (reached item mem)).1) (fits rfl)
    simp [whole]

theorem kept_of_no_masters (reached : ∀ item ∈ temp, w.reaches true mech item = true)
    (leaderless : masterCount w (mech :: temp) = 0) : kept w true mech temp = [] := by
  have all : temp.filter (w.reaches true mech) = temp := filter_eq_self.mpr reached
  have trimmed := trimC3Network_of_no_masters (fun item mem =>
    (Bool.and_eq_true_iff.mp (reached item mem)).1) leaderless
  unfold kept
  simp only [all, trimmed]
  cases temp <;> simp

end Capacity

/-- The copy a unit has of its network, in agreement with the copies of its members. -/
structure NetCoherent (w : World) (isC3 : Bool) (mech : Dbref) : Prop where
  lists : Lists (w.network isC3 mech) (networkLength isC3) (w.members isC3 mech)
  reached : ∀ ref ∈ w.members isC3 mech, w.reaches isC3 mech ref = true
  working : ∀ ref ∈ w.members isC3 mech, (w.unit mech).working isC3 = true
  onMap : ∀ ref ∈ w.members isC3 mech, w.isMap (w.unit mech).mapindex = true
  notSelf : mech ∉ w.members isC3 mech
  distinct : (w.members isC3 mech).Nodup
  group : ∀ ref ∈ w.members isC3 mech,
    (ref :: w.members isC3 ref).Perm (mech :: w.members isC3 mech)
  fits : isC3 = true →
    (w.members isC3 mech).length ≤ capacity w (mech :: w.members isC3 mech)

def Coherent (w : World) : Prop :=
  ∀ isC3 mech, w.isMech mech = true → NetCoherent w isC3 mech

namespace NetCoherent

variable {w w' : World} {isC3 : Bool} {mech ref : Dbref}

theorem isMech (hc : NetCoherent w isC3 mech) (mem : ref ∈ w.members isC3 mech) :
    w.isMech ref = true :=
  (Bool.and_eq_true_iff.mp (hc.reached ref mem)).1

theorem symmetric (hc : NetCoherent w isC3 mech) (mem : ref ∈ w.members isC3 mech) :
    mech ∈ w.members isC3 ref := by
  have among := (hc.group ref mem).mem_iff.mpr mem_cons_self
  rcases mem_cons.mp among with eq | hin
  · exact absurd (eq ▸ mem) hc.notSelf
  · exact hin

theorem not_member_of_empty (hc : NetCoherent w isC3 mech)
    (empty : w.members isC3 ref = []) : ref ∉ w.members isC3 mech := by
  intro mem
  have back := hc.symmetric mem
  rw [empty] at back
  exact absurd back not_mem_nil

theorem of_empty (lists : Lists (w.network isC3 mech) (networkLength isC3) []) :
    NetCoherent w isC3 mech := by
  have none' := lists.members
  refine ⟨by rw [none']; exact lists, ?_, ?_, ?_, ?_, ?_, ?_, ?_⟩ <;> simp [none']

theorem kept_eq (hc : NetCoherent w isC3 mech) :
    kept w isC3 mech (w.members isC3 mech) = w.members isC3 mech :=
  kept_of_fits hc.reached hc.fits

theorem of_group {group : List Dbref} {lists : Dbref → List Dbref} (distinct : group.Nodup)
    (stored : ∀ ref ∈ group,
      Lists (w.network isC3 ref) (networkLength isC3) (lists ref))
    (eq : ∀ ref ∈ group, (ref :: lists ref).Perm group)
    (reached : ∀ ref ∈ group, ∀ item ∈ lists ref, w.reaches isC3 ref item = true)
    (onMap : ∀ ref ∈ group, ∀ item ∈ lists ref, w.isMap (w.unit ref).mapindex = true)
    (fits : isC3 = true → group.length ≤ capacity w group + 1) (mem : mech ∈ group) :
    NetCoherent w isC3 mech := by
  have inGroup : ∀ ref ∈ group, ∀ item ∈ lists ref, item ∈ group :=
    fun ref isRef item among => (eq ref isRef).mem_iff.mp (mem_cons_of_mem ref among)
  have apart : ∀ ref ∈ group, ref ∉ lists ref ∧ (lists ref).Nodup :=
    fun ref isRef => nodup_cons.mp ((eq ref isRef).nodup_iff.mpr distinct)
  have length := (eq mech mem).length_eq
  have now := (stored mech mem).members
  refine ⟨?_, ?_, ?_, ?_, ?_, ?_, ?_, ?_⟩ <;> rw [now]
  · exact stored mech mem
  · exact reached mech mem
  · -- the unit is in the lists of the others, who reach it
    intro item among
    have isItem := inGroup mech mem item among
    have back : mech ∈ lists item := by
      have either := (eq item isItem).mem_iff.mpr mem
      rcases mem_cons.mp either with rfl | inside
      · exact absurd among (apart mech mem).1
      · exact inside
    have reach := reached item isItem mech back
    exact working_of_reachable (Bool.and_eq_true_iff.mp reach).2
  · exact onMap mech mem
  · exact (apart mech mem).1
  · exact (apart mech mem).2
  · intro item among
    have isItem := inGroup mech mem item among
    rw [(stored item isItem).members]
    exact (eq item isItem).trans (eq mech mem).symm
  · intro kind
    rw [capacity_perm (eq mech mem)]
    rw [length_cons] at length
    have allowed := fits kind
    omega

end NetCoherent

/-- Two worlds with the same networks, stored perhaps differently. -/
structure SameMembers (w w' : World) : Prop where
  only : NetworkOnly w w'
  lists : ∀ isC3 mech, w.isMech mech = true →
    Lists (w'.network isC3 mech) (networkLength isC3) (w.members isC3 mech)

namespace SameMembers

variable {w w' w'' : World}

theorem members (eq : SameMembers w w') (isC3 : Bool) {mech : Dbref}
    (isMech : w.isMech mech = true) : w'.members isC3 mech = w.members isC3 mech :=
  (eq.lists isC3 mech isMech).members

theorem of_writes {isC3 : Bool} {mech : Dbref} (coherent : Coherent w)
    (wrote : Writes isC3 mech w w')
    (lists : Lists (w'.network isC3 mech) (networkLength isC3) (w.members isC3 mech)) :
    SameMembers w w' where
  only := wrote.only
  lists kind o isMech := by
    by_cases eq : kind = isC3 ∧ o = mech
    · obtain ⟨rfl, rfl⟩ := eq
      exact lists
    · rw [wrote.others kind o eq]
      exact (coherent kind o isMech).lists

end SameMembers

section Regroup

variable {w w' : World} {isC3 : Bool}

theorem NetCoherent.regroup (touched : Dbref → Prop)
    (coherent : ∀ mech, w.isMech mech = true → NetCoherent w isC3 mech)
    (only : NetworkOnly w w')
    (lists : ∀ mech, w.isMech mech = true → ¬ touched mech →
      Lists (w'.network isC3 mech) (networkLength isC3) (w.members isC3 mech))
    (closed : ∀ mech, w.isMech mech = true → ¬ touched mech →
      ∀ ref ∈ w.members isC3 mech, ¬ touched ref)
    (renewed : ∀ mech, w.isMech mech = true → touched mech → NetCoherent w' isC3 mech)
    (mech : Dbref) (isMech : w.isMech mech = true) : NetCoherent w' isC3 mech := by
  by_cases new : touched mech
  · exact renewed mech isMech new
  · have old := coherent mech isMech
    have eq := (lists mech isMech new).members
    refine ⟨by rw [eq]; exact lists mech isMech new, ?_, ?_, ?_, ?_, ?_, ?_, ?_⟩
    · intro ref mem
      rw [eq] at mem
      rw [only.reaches]
      exact old.reached ref mem
    · intro ref mem
      rw [eq] at mem
      rw [only.working]
      exact old.working ref mem
    · intro ref mem
      rw [eq] at mem
      rw [only.isMap, only.mapindex]
      exact old.onMap ref mem
    · rw [eq]
      exact old.notSelf
    · rw [eq]
      exact old.distinct
    · intro ref mem
      rw [eq] at mem
      have theirs := lists ref (old.isMech mem) (closed mech isMech new ref mem)
      rw [theirs.members, eq]
      exact old.group ref mem
    · intro kind
      rw [eq, only.capacity]
      exact old.fits kind

theorem Coherent.congr (coherent : Coherent w) (eq : SameMembers w w') : Coherent w' := by
  intro isC3 mech isMech
  apply NetCoherent.regroup (fun _ => False) (coherent isC3) eq.only
  · exact fun o isOther _ => eq.lists isC3 o isOther
  · exact fun _ _ _ _ _ => id
  · exact fun _ _ none' => none'.elim
  · rwa [eq.only.isMech] at isMech

end Regroup

section Validate

variable {w : World} {isC3 : Bool} {mech : Dbref}

theorem validate_keeps (coherent : NetCoherent w isC3 mech) :
    ∃ w', validate isC3 mech w = some w' ∧ Writes isC3 mech w w' ∧
      Stores (w'.network isC3 mech) (networkLength isC3) (w.members isC3 mech) := by
  cases works : (w.unit mech).working isC3 with
  | true =>
    obtain ⟨w', ran, wrote, stores⟩ := validate_spec works coherent.lists
    rw [coherent.kept_eq] at stores
    exact ⟨w', ran, wrote, stores⟩
  | false =>
    have empty : w.members isC3 mech = [] := by
      rw [eq_nil_iff_forall_not_mem]
      intro ref mem
      exact Bool.false_ne_true (works.symm.trans (coherent.working ref mem))
    have size := coherent.lists.size
    rw [empty] at size ⊢
    exact validate_idle_spec works size

theorem validate_coherent (coherent : Coherent w) (isMech : w.isMech mech = true) :
    ∃ w', validate isC3 mech w = some w' ∧ Writes isC3 mech w w' ∧ SameMembers w w' := by
  obtain ⟨w', ran, wrote, stores⟩ := validate_keeps (coherent isC3 mech isMech)
  exact ⟨w', ran, wrote, SameMembers.of_writes coherent wrote stores.toLists⟩

end Validate

section Clear

variable {w w' : World} {isC3 : Bool} {mech ref : Dbref} {items : List Dbref}

theorem kept_blanked (w : World) (isC3 : Bool) (mech ref : Dbref) (items : List Dbref) :
    kept w isC3 mech (blanked ref items) =
      kept w isC3 mech (items.filter fun item => item != ref) := by
  have reached : (blanked ref items).filter (w.reaches isC3 mech) =
      (items.filter fun item => item != ref).filter (w.reaches isC3 mech) := by
    induction items with
    | nil => rfl
    | cons item rest ih =>
      unfold blanked at ih ⊢
      rw [map_cons]
      by_cases eq : item = ref
      · subst eq
        rw [if_pos rfl, filter_cons_of_neg (by simp [World.reaches_blank]),
          filter_cons_of_neg (by simp)]
        exact ih
      · have stays : (item != ref) = true := bne_iff_ne.mpr eq
        have front : (item :: rest).filter (fun item => item != ref) =
            item :: rest.filter fun item => item != ref := by
          rw [filter_cons, if_pos stays]
        rw [if_neg eq, front, filter_cons, filter_cons, ih]
  unfold kept
  rw [reached]

/-- The units a unit leaves behind can go on: their masters allow as many, or they
have no master at all. -/
def World.LeavesWhole (w : World) (isC3 : Bool) (mech : Dbref) : Prop :=
  isC3 = true → masterCount w (w.members isC3 mech) = 0 ∨
    (w.members isC3 mech).length ≤ capacity w (w.members isC3 mech) + 1

instance (w : World) (isC3 : Bool) (mech : Dbref) : Decidable (w.LeavesWhole isC3 mech) :=
  inferInstanceAs (Decidable (_ → _))

theorem NetCoherent.perm_without (hc : NetCoherent w isC3 mech)
    (mem : ref ∈ w.members isC3 mech) :
    (ref :: (w.members isC3 ref).filter fun item => item != mech).Perm
      (w.members isC3 mech) := by
  have ne : (ref != mech) = true := by
    rw [bne_iff_ne]
    exact fun eq => hc.notSelf (eq ▸ mem)
  have self : ¬ (mech != mech) = true := by simp
  have all : (w.members isC3 mech).filter (fun item => item != mech) =
      w.members isC3 mech := by
    rw [filter_eq_self]
    intro item among
    rw [bne_iff_ne]
    exact fun eq => hc.notSelf (eq ▸ among)
  have filtered := (hc.group ref mem).filter fun item => item != mech
  rwa [filter_cons, if_pos ne, filter_cons, if_neg self, all] at filtered

theorem Coherent.closed (hc : Coherent w) {fst snd : Dbref}
    (isMech : w.isMech mech = true) (isFirst : w.isMech fst = true)
    (mem : snd ∈ w.members isC3 fst)
    (among : snd = mech ∨ snd ∈ w.members isC3 mech) :
    fst = mech ∨ fst ∈ w.members isC3 mech := by
  have back := (hc isC3 fst isFirst).symmetric mem
  rcases among with rfl | hin
  · exact Or.inr back
  · have group := (hc isC3 mech isMech).group snd hin
    exact mem_cons.mp (group.mem_iff.mp (mem_cons_of_mem snd back))

theorem Coherent.of_kind (coherent : Coherent w) (only : NetworkOnly w w')
    (others : ∀ mech, w'.network (!isC3) mech = w.network (!isC3) mech)
    (changed : ∀ mech, w.isMech mech = true → NetCoherent w' isC3 mech) : Coherent w' := by
  intro kind o isMech
  rw [only.isMech] at isMech
  by_cases eq : kind = isC3
  · subst eq
    exact changed o isMech
  · have opposite : kind = !isC3 := by
      cases kind <;> cases isC3 <;> simp_all
    subst opposite
    apply NetCoherent.regroup (fun _ => False) (coherent (!isC3)) only
    · intro unit isUnit _
      rw [others unit]
      exact (coherent (!isC3) unit isUnit).lists
    · exact fun _ _ _ _ _ => id
    · exact fun _ _ none' => none'.elim
    · exact isMech

theorem clearNetwork_coherent (coherent : Coherent w) (isMech : w.isMech mech = true)
    (whole : w.LeavesWhole isC3 mech) :
    ∃ w', clearNetwork isC3 mech true w = some w' ∧ NetworkOnly w w' ∧ Coherent w' ∧
      w'.members isC3 mech = [] ∧
      ∀ o, w'.network (!isC3) o = w.network (!isC3) o := by
  have own := coherent isC3 mech isMech
  have isOther : ∀ ref ∈ w.members isC3 mech, w.isMech ref = true :=
    fun ref mem => own.isMech mem
  obtain ⟨w', ran, only, size, told, others⟩ := clearNetworkWith_spec 1 (w.members isC3)
    own.lists own.distinct own.notSelf
      fun ref mem _ => (coherent isC3 ref (isOther ref mem)).lists
  have empty : Lists (w'.network isC3 mech) (networkLength isC3) [] := lists_nil size
  have kindOthers : ∀ o, w'.network (!isC3) o = w.network (!isC3) o := by
    intro o
    apply others
    rintro ⟨eq, _⟩
    cases isC3 <;> exact absurd eq (by decide)
  refine ⟨w', ran, only, ?_, empty.members, kindOthers⟩
  apply coherent.of_kind only kindOthers
  -- what a unit of the network has left
  have left : ∀ ref ∈ w.members isC3 mech, ∀ item ∈
      (w.members isC3 ref).filter fun item => item != mech,
        item ∈ w.members isC3 mech ∧ w.reaches isC3 ref item = true := by
    intro ref mem item among
    obtain ⟨inside, _⟩ := mem_filter.mp among
    exact ⟨(own.perm_without mem).mem_iff.mp (mem_cons_of_mem ref among),
      (coherent isC3 ref (isOther ref mem)).reached item inside⟩
  have renewed : ∀ ref ∈ w.members isC3 mech, NetCoherent w' isC3 ref := by
    by_cases leaderless : isC3 = true ∧ masterCount w (w.members isC3 mech) = 0
    · obtain ⟨rfl, none'⟩ := leaderless
      intro ref mem
      apply NetCoherent.of_empty
      have stored := told ref mem (own.reached ref mem)
      rwa [kept_blanked, kept_of_no_masters (fun item among => (left ref mem item among).2)
        ((masterCount_perm (own.perm_without mem)).trans none')] at stored
    · have allowed : isC3 = true → (w.members isC3 mech).length ≤
          capacity w (w.members isC3 mech) + 1 :=
        fun kind => (whole kind).resolve_left fun none' => leaderless ⟨kind, none'⟩
      have stored : ∀ ref ∈ w.members isC3 mech,
          Lists (w'.network isC3 ref) (networkLength isC3)
            ((w.members isC3 ref).filter fun item => item != mech) := by
        intro ref mem
        have eq := own.perm_without mem
        have length := eq.length_eq
        have result := told ref mem (own.reached ref mem)
        rwa [kept_blanked, kept_of_fits (fun item among => (left ref mem item among).2)]
          at result
        intro kind
        have bound := allowed kind
        rw [length_cons] at length
        rw [capacity_perm eq]
        omega
      intro ref mem
      apply NetCoherent.of_group own.distinct stored (fun o => own.perm_without) ?_ ?_ ?_
        mem
      · intro o isOther' item among
        rw [only.reaches]
        exact (left o isOther' item among).2
      · intro o isOther' item among
        rw [only.isMap, only.mapindex]
        exact (coherent isC3 o (isOther o isOther')).onMap item
          (mem_filter.mp among).1
      · rwa [only.capacity]
  apply NetCoherent.regroup (fun ref => ref = mech ∨ ref ∈ w.members isC3 mech)
    (coherent isC3) only
  · intro ref isRef untouched
    rw [others isC3 ref fun eq => untouched (eq.2.imp_right And.left)]
    exact (coherent isC3 ref isRef).lists
  · intro ref isRef untouched item mem touched
    exact untouched (coherent.closed isMech isRef mem touched)
  · rintro ref _ (rfl | mem)
    · exact NetCoherent.of_empty empty
    · exact renewed ref mem

end Clear

section Trim

variable {w : World} {mech : Dbref} {temp : List Dbref}

def mastersOf (w : World) (temp : List Dbref) : List Dbref :=
  temp.filter fun ref => w.isMech ref && decide (0 < (w.unit ref).workingC3Masters)

def slavesOf (w : World) (temp : List Dbref) : List Dbref :=
  temp.filter fun ref => w.isMech ref && decide ((w.unit ref).workingC3Masters = 0)

theorem addSlaves_eq {maxC3Size : Nat} {kept : List Dbref} (room : kept.length < maxC3Size) :
    addSlaves w maxC3Size temp kept =
      kept ++ (slavesOf w temp).take (maxC3Size - kept.length) := by
  induction temp generalizing kept with
  | nil => simp [addSlaves, slavesOf]
  | cons ref rest ih =>
    rw [addSlaves]
    cases isMech : w.isMech ref with
    | false =>
      have skipped : slavesOf w (ref :: rest) = slavesOf w rest :=
        filter_cons_of_neg (by simp [isMech])
      simp only [World.getMech, isMech, skipped, Bool.false_eq_true, if_false]
      exact ih room
    | true =>
      simp only [World.getMech, isMech, if_true]
      by_cases slave : (w.unit ref).workingC3Masters = 0
      · have added : slavesOf w (ref :: rest) = ref :: slavesOf w rest :=
          filter_cons_of_pos (by simp [isMech, slave])
        have length : (kept ++ [ref]).length = kept.length + 1 := by simp
        obtain ⟨more, is⟩ : ∃ more, maxC3Size - kept.length = more + 1 :=
          ⟨maxC3Size - kept.length - 1, by omega⟩
        rw [if_pos slave, added, is, take_succ_cons]
        by_cases full : (kept ++ [ref]).length ≥ maxC3Size
        · obtain rfl : more = 0 := by omega
          rw [if_pos full, take_zero]
        · rw [if_neg full, ih (Nat.not_le.mp full), append_assoc,
            singleton_append]
          congr 3
          omega
      · have skipped : slavesOf w (ref :: rest) = slavesOf w rest :=
          filter_cons_of_neg (by simp [slave])
        rw [if_neg slave, if_neg (Nat.not_le.mpr room), skipped]
        exact ih room

def mastersIn (w : World) (temp : List Dbref) : Nat := masterCount w (temp.filter w.isMech)

theorem countMaxC3Units_eq : countMaxC3Units w mech temp none =
    min (3 * mastersIn w temp + 3 * (w.unit mech).workingC3Masters) 11 := by
  have existing : temp.filterMap w.getMech = (temp.filter w.isMech).filterMap w.getMech := by
    induction temp with
    | nil => rfl
    | cons ref rest ih =>
      cases isMech : w.isMech ref <;> simp [World.getMech, isMech, ih]
  have counted := @masters_eq w (temp.filter w.isMech)
    fun ref mem => (mem_filter.mp mem).2
  simp only [countMaxC3Units, existing, counted, mastersIn]
  split <;> congr 1 <;> omega

theorem masterCount_mastersOf : masterCount w (mastersOf w temp) = mastersIn w temp := by
  induction temp with
  | nil => rfl
  | cons ref rest ih =>
    unfold mastersOf mastersIn at ih ⊢
    cases isMech : w.isMech ref with
    | false => simp [isMech, ih]
    | true =>
      by_cases master : 0 < (w.unit ref).workingC3Masters
      · simp [isMech, master, masterCount, ih]
      · simp [isMech, master, masterCount, ih]
        omega

theorem length_mastersOf : (mastersOf w temp).length ≤ mastersIn w temp := by
  rw [← masterCount_mastersOf]
  have each : ∀ ref ∈ mastersOf w temp, 0 < (w.unit ref).workingC3Masters := fun ref mem => by
    have := (mem_filter.mp mem).2
    simp only [Bool.and_eq_true, decide_eq_true_eq] at this
    exact this.2
  generalize mastersOf w temp = list at each
  induction list with
  | nil => exact Nat.le_refl 0
  | cons ref rest ih =>
    have fst := each ref mem_cons_self
    have later := ih fun item mem => each item (.tail ref mem)
    rw [masterCount, length_cons]
    omega

theorem mastersOf_fit (short : temp.length ≤ 11) :
    (mastersOf w temp).length ≤ countMaxC3Units w mech temp none := by
  have fewer : (mastersOf w temp).length ≤ temp.length := length_filter_le _ _
  have counted := @length_mastersOf w temp
  rw [countMaxC3Units_eq]
  omega

theorem trimC3Network_cut (short : temp.length ≤ 11)
    (long : countMaxC3Units w mech temp none < temp.length) :
    trimC3Network w mech temp = mastersOf w temp ++ (slavesOf w temp).take
      (countMaxC3Units w mech temp none - (mastersOf w temp).length) := by
  have fit := @mastersOf_fit w mech temp short
  rw [trimC3Network, if_pos long]
  dsimp only
  rw [show (temp.filter fun ref => w.isMech ref && decide (0 < (w.unit ref).workingC3Masters)) =
    mastersOf w temp from rfl]
  split_ifs with room
  · exact addSlaves_eq room
  · have full : countMaxC3Units w mech temp none - (mastersOf w temp).length = 0 := by omega
    rw [full, take_zero, append_nil]

end Trim

end BattletechMux.UnitWorld
