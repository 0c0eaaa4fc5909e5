/-
Module: BattletechMux.Unit.SightOrder
Purpose: A network that looks through its members one by one forgets what earlier ones saw unless
  they saw it clearly; exactly when it reports the best of what they see, in any order of the array.
-/
import BattletechMux.Unit.Coherence

namespace BattletechMux.UnitWorld

open List hiding getElem?_eq_some_iff

/-! ## Views -/

def Sights.view (sights : Sights) (ref : Dbref) : TargLos :=
  if sights.inLineOfSight ref then
    if sights.inLineOfSightNB ref then .clear else .something
  else .none

def Sights.views (sights : Sights) (mechTarget : Dbref) (list : List Dbref) : List TargLos :=
  (list.filter fun ref => ref ≠ mechTarget).map sights.view

def bestOf (views : List TargLos) : TargLos :=
  if .clear ∈ views then .clear else if .something ∈ views then .something else .none

/-- What is left of some views when each takes the place of the one before, but for clear ones. -/
def lastOf (los : TargLos) (views : List TargLos) : TargLos :=
  if .clear ∈ views then .clear else views.getLastD los

section Looking

variable {w : World} {sights : Sights} {mechTarget : Dbref}

theorem lookThrough_eq {los : TargLos} {list : List Dbref} (o : los ≠ .clear)
    (hf : ∀ ref ∈ list, getMechInTempNetwork w ref = some ref) :
    lookThrough w sights mechTarget los list = lastOf los (sights.views mechTarget list) := by
  induction list generalizing los with
  | nil => rfl
  | cons ref rest ih =>
    have later := fun item mem => hf item (mem_cons_of_mem ref mem)
    rw [lookThrough, hf ref mem_cons_self]
    dsimp only
    by_cases target : ref = mechTarget
    · rw [if_pos target, ih o later, Sights.views, Sights.views,
        filter_cons_of_neg (by simpa using target)]
    · have views : sights.views mechTarget (ref :: rest) =
          sights.view ref :: sights.views mechTarget rest := by
        rw [Sights.views, filter_cons_of_pos (by simpa using target), map_cons]
        rfl
      rw [if_neg target, views, lastOf, getLastD_cons]
      by_cases sees : sights.inLineOfSight ref = true
      · by_cases clearly : sights.inLineOfSightNB ref = true
        · simp [sees, clearly, Sights.view]
        · have view : sights.view ref = .something := by simp [Sights.view, sees, clearly]
          rw [if_pos sees, if_neg clearly, ih (by decide) later, view, lastOf]
          simp
      · have view : sights.view ref = .none := by simp [Sights.view, sees]
        rw [if_neg sees, ih (by decide) later, view, lastOf]
        simp

variable {views : List TargLos}

theorem lastOf_clear {los : TargLos} (clear : .clear ∈ views) :
    lastOf los views = .clear ∧ bestOf views = .clear := ⟨if_pos clear, if_pos clear⟩

theorem lastOf_same {view : TargLos} (some : views ≠ [] ∨ view = .none)
    (all : ∀ o ∈ views, o = view) : lastOf .none views = view ∧ bestOf views = view := by
  cases views with
  | nil =>
    obtain rfl : view = .none := some.resolve_left (by simp)
    exact ⟨rfl, rfl⟩
  | cons fst rest =>
    obtain rfl := all fst mem_cons_self
    have last : (fst :: rest).getLastD .none = fst := by
      rw [getLastD_cons]
      cases rest using List.reverseRecOn with
      | nil => rfl
      | append_singleton front last =>
        rw [getLastD_concat]
        exact all last (by simp)
    have mem (o : TargLos) : o ∈ fst :: rest ↔ o = fst :=
      ⟨all o, fun eq => eq ▸ mem_cons_self⟩
    simp only [lastOf, bestOf, last, mem]
    cases fst <;> decide

theorem bestOf_clear_iff : bestOf views = .clear ↔ .clear ∈ views := by
  rw [bestOf]
  split_ifs with clear something <;> simp [clear]

theorem lastOf_concat {last : TargLos} (unclear : .clear ∉ views ++ [last]) :
    lastOf .none (views ++ [last]) = last := by
  rw [lastOf, if_neg unclear, getLastD_concat]

theorem bestOf_something (unclear : .clear ∉ views) (seen : .something ∈ views) :
    bestOf views = .something := by
  rw [bestOf, if_neg unclear, if_pos seen]

end Looking

/-! ## Orders -/

section Orders

variable {sights : Sights} {mechTarget : Dbref} {list masters slaves : List Dbref} {room : Nat}

theorem views_append (front behind : List Dbref) : sights.views mechTarget (front ++ behind) =
    sights.views mechTarget front ++ sights.views mechTarget behind := by
  simp only [Sights.views, filter_append, map_append]

theorem views_perm {others : List Dbref} (eq : list.Perm others) :
    (sights.views mechTarget list).Perm (sights.views mechTarget others) :=
  (eq.filter _).map _

theorem views_singleton {ref : Dbref} (o : ref ≠ mechTarget) :
    sights.views mechTarget [ref] = [sights.view ref] := by
  rw [Sights.views, filter_cons_of_pos (by simpa using o)]
  rfl

theorem mem_views {view : TargLos} : view ∈ sights.views mechTarget list ↔
    ∃ ref ∈ list, ref ≠ mechTarget ∧ sights.view ref = view := by
  simp only [Sights.views, mem_map, mem_filter, decide_eq_true_eq, and_assoc]

theorem eq_something {view : TargLos} (unclear : view ≠ .clear) (seen : view ≠ .none) :
    view = .something := by
  cases view with
  | none => exact absurd rfl seen
  | clear => exact absurd rfl unclear
  | something => rfl

def Settled (views : List TargLos) (result : TargLos) : Prop :=
  lastOf .none views = result ∧ bestOf views = result

def DecidedWhole (sights : Sights) (mechTarget : Dbref) (list : List Dbref) : Prop :=
  .clear ∈ sights.views mechTarget list ∨ (∀ view ∈ sights.views mechTarget list, view = .none) ∨
    ∀ view ∈ sights.views mechTarget list, view ≠ .none

theorem settled_whole : (∃ result, ∀ order, order.Perm list →
    Settled (sights.views mechTarget order) result) ↔ DecidedWhole sights mechTarget list := by
  constructor
  · rintro ⟨result, settled⟩
    by_contra undecided
    simp only [DecidedWhole, not_or] at undecided
    obtain ⟨unclear, some, o⟩ := undecided
    push Not at some o
    obtain ⟨seen, isSeen, some⟩ := some
    obtain ⟨none', isNone, rfl⟩ := o
    -- a member that sees nothing comes last
    obtain ⟨ref, mem, away, view⟩ := mem_views.mp isNone
    have eq : (list.erase ref ++ [ref]).Perm list :=
      (perm_append_singleton ref _).trans (perm_cons_erase mem).symm
    obtain ⟨last, best⟩ := settled _ eq
    have views := @views_perm sights mechTarget _ _ eq
    have clear' : .clear ∉ sights.views mechTarget (list.erase ref ++ [ref]) :=
      fun hin => unclear (views.mem_iff.mp hin)
    have something : TargLos.something ∈ sights.views mechTarget (list.erase ref ++ [ref]) := by
      rw [views.mem_iff, ← eq_something (fun clear => unclear (clear ▸ isSeen)) some]
      exact isSeen
    rw [bestOf_something clear' something] at best
    rw [views_append, views_singleton away] at last clear'
    rw [lastOf_concat clear', view, ← best] at last
    exact absurd last (by decide)
  · have moved (order : List Dbref) (eq : order.Perm list) (view : TargLos) :
        view ∈ sights.views mechTarget order ↔ view ∈ sights.views mechTarget list :=
      (views_perm eq).mem_iff
    rintro (clear | none' | seen)
    · exact ⟨.clear, fun order eq => lastOf_clear ((moved order eq _).mpr clear)⟩
    · exact ⟨.none, fun order eq => lastOf_same (.inr rfl)
        fun view mem => none' view ((moved order eq view).mp mem)⟩
    · by_cases clear : .clear ∈ sights.views mechTarget list
      · exact ⟨.clear, fun order eq => lastOf_clear ((moved order eq _).mpr clear)⟩
      · by_cases empty : sights.views mechTarget list = []
        · exact ⟨.none, fun order eq => lastOf_same (.inr rfl) fun view mem => by
            rw [moved order eq, empty] at mem
            exact absurd mem not_mem_nil⟩
        · refine ⟨.something, fun order eq => lastOf_same (.inl fun nil => empty ?_)
            fun view mem => ?_⟩
          · have := @views_perm sights mechTarget _ _ eq
            rw [nil] at this
            exact this.nil_eq.symm
          · rw [moved order eq] at mem
            exact eq_something (fun is => clear (is ▸ mem)) (seen view mem)

/-- The masters and so many slaves are kept: nobody is, a master sees the target clearly, there are
not enough slaves that do not, or nobody sees it clearly and nobody at all sees it, or all slaves do,
and all masters where the slaves that are kept may all be the target. -/
def DecidedCut (sights : Sights) (mechTarget : Dbref) (masters slaves : List Dbref) (room : Nat) :
    Prop :=
  masters.length + room = 0 ∨ .clear ∈ sights.views mechTarget masters ∨
    (slaves.filter fun ref => ref = mechTarget ∨ sights.view ref ≠ .clear).length < room ∨
    .clear ∉ sights.views mechTarget (masters ++ slaves) ∧
      ((∀ view ∈ sights.views mechTarget (masters ++ slaves), view = .none) ∨
        (∀ view ∈ sights.views mechTarget slaves, view ≠ .none) ∧
          ((slaves.filter fun ref => ref = mechTarget).length < room ∨
            sights.views mechTarget masters ≠ [] ∧
              ∀ view ∈ sights.views mechTarget masters, view ≠ .none))

theorem last_kept {last : Dbref} {rest : List Dbref} {k : Nat} (eq : (last :: rest).Perm slaves)
    (more : k ≤ rest.length) :
    ∃ order : List Dbref, order.Perm slaves ∧ order.take (k + 1) = rest.take k ++ [last] := by
  refine ⟨rest.take k ++ last :: rest.drop k, perm_middle.trans ?_, ?_⟩
  · rwa [take_append_drop]
  · have length : (rest.take k).length = k := length_take_of_le more
    rw [take_append, length, take_of_length_le (by omega), Nat.add_sub_cancel_left]
    rfl

theorem first_kept (p : Dbref → Bool) (hlt : room ≤ (slaves.filter p).length) :
    ∃ order : List Dbref, order.Perm slaves ∧ ∀ ref ∈ order.take room, p ref = true := by
  refine ⟨slaves.filter p ++ slaves.filter fun ref => !p ref, filter_append_perm p slaves,
    fun ref mem => ?_⟩
  rw [take_append_of_le_length hlt] at mem
  exact (mem_filter.mp (mem_of_mem_take mem)).2

theorem one_kept {ref : Dbref} (mem : ref ∈ slaves) (some : 0 < room) :
    ∃ order : List Dbref, order.Perm slaves ∧ ref ∈ order.take room := by
  refine ⟨ref :: slaves.erase ref, (perm_cons_erase mem).symm, ?_⟩
  obtain ⟨k, rfl⟩ : ∃ k, room = k + 1 := ⟨room - 1, by omega⟩
  exact mem_cons_self

theorem decidedCut_of_settled {result : TargLos} (two : masters.length + room = 0 ∨ 0 < room)
    (more : room < slaves.length)
    (settled : ∀ front behind : List Dbref, front.Perm masters → behind.Perm slaves →
      Settled (sights.views mechTarget (front ++ behind.take room)) result) :
    DecidedCut sights mechTarget masters slaves room := by
  by_contra undecided
  simp only [DecidedCut, not_or, not_and, Nat.not_lt] at undecided
  obtain ⟨some, unclear, hlt, open'⟩ := undecided
  have one := two.resolve_left some
  -- an order keeps nobody that sees the target clearly, and so none does
  have notClear : result ≠ .clear := by
    rintro rfl
    obtain ⟨order, eq, isDim⟩ := first_kept _ hlt
    have clear := bestOf_clear_iff.mp (settled masters order (.refl _) eq).2
    rw [views_append] at clear
    obtain ⟨ref, mem, away, view⟩ := mem_views.mp ((mem_append.mp clear).resolve_left unclear)
    have := isDim ref mem
    simp [away, view] at this
  have allUnclear : .clear ∉ sights.views mechTarget (masters ++ slaves) := by
    intro clear
    rw [views_append] at clear
    obtain ⟨ref, mem, away, view⟩ := mem_views.mp ((mem_append.mp clear).resolve_left unclear)
    obtain ⟨order, eq, hin⟩ := one_kept mem one
    refine notClear ((settled masters order (.refl _) eq).2.symm.trans (bestOf_clear_iff.mpr ?_))
    exact mem_views.mpr ⟨ref, mem_append_right _ hin, away, view⟩
  obtain ⟨notNone, rest⟩ := open' allUnclear
  push Not at notNone
  obtain ⟨seen, isSeen, some'⟩ := notNone
  -- an order keeps somebody that sees the target, and so each reports it
  have something : result = .something := by
    have kept : ∃ order : List Dbref, order.Perm slaves ∧
        seen ∈ sights.views mechTarget (masters ++ order.take room) := by
      obtain ⟨ref, mem, away, view⟩ := mem_views.mp isSeen
      rcases mem_append.mp mem with master | slave
      · exact ⟨slaves, .refl _, mem_views.mpr ⟨ref, mem_append_left _ master, away, view⟩⟩
      · obtain ⟨order, eq, hin⟩ := one_kept slave one
        exact ⟨order, eq, mem_views.mpr ⟨ref, mem_append_right _ hin, away, view⟩⟩
    obtain ⟨order, eq, hin⟩ := kept
    obtain ⟨-, best⟩ := settled masters order (.refl _) eq
    rw [eq_something (fun clear => allUnclear (clear ▸ isSeen)) some'] at hin
    rw [bestOf_something (fun clear => notClear (best.symm.trans (bestOf_clear_iff.mpr clear)))
      hin] at best
    exact best.symm
  subst something
  -- a slave that sees nothing would be reported where it comes last
  have slavesSee : ∀ view ∈ sights.views mechTarget slaves, view ≠ .none := by
    rintro view isNone rfl
    obtain ⟨ref, mem, away, view⟩ := mem_views.mp isNone
    obtain ⟨k, rfl⟩ : ∃ k, room = k + 1 := ⟨room - 1, by omega⟩
    obtain ⟨order, eq, kept⟩ := last_kept (k := k) (perm_cons_erase mem).symm (by
      rw [length_erase_of_mem mem]
      omega)
    obtain ⟨last, best⟩ := settled masters order (.refl _) eq
    have unclear' : .clear ∉ sights.views mechTarget (masters ++ order.take (k + 1)) :=
      fun clear => notClear (best.symm.trans (bestOf_clear_iff.mpr clear))
    rw [kept, ← append_assoc, views_append, views_singleton away, view] at last unclear'
    rw [lastOf_concat unclear'] at last
    exact absurd last (by decide)
  obtain ⟨targets, mastersSee⟩ := rest slavesSee
  -- an order keeps slaves that are the target only, and reports a master
  obtain ⟨order, eq, isTarget⟩ := first_kept _ targets
  have nobody : sights.views mechTarget (order.take room) = [] := by
    refine eq_nil_iff_forall_not_mem.mpr fun view mem => ?_
    obtain ⟨ref, hin, away, -⟩ := mem_views.mp mem
    exact away (of_decide_eq_true (isTarget ref hin))
  have reported (front : List Dbref) (sameFront : front.Perm masters) :
      Settled (sights.views mechTarget front) .something := by
    have := settled front order sameFront eq
    rwa [views_append, nobody, append_nil] at this
  have someMaster : sights.views mechTarget masters ≠ [] := fun none' => by
    have last := (reported masters (.refl _)).1
    rw [none'] at last
    exact absurd last (by decide)
  have missed := mastersSee someMaster
  push Not at missed
  obtain ⟨view, isNone, rfl⟩ := missed
  obtain ⟨ref, mem, away, view⟩ := mem_views.mp isNone
  have sameFront : (masters.erase ref ++ [ref]).Perm masters :=
    (perm_append_singleton ref _).trans (perm_cons_erase mem).symm
  obtain ⟨last, best⟩ := reported _ sameFront
  have unclear' : .clear ∉ sights.views mechTarget (masters.erase ref ++ [ref]) :=
    fun clear => notClear (best.symm.trans (bestOf_clear_iff.mpr clear))
  rw [views_append, views_singleton away, view] at last unclear'
  rw [lastOf_concat unclear'] at last
  exact absurd last (by decide)

theorem settled_something {front behind : List TargLos} (unclear : .clear ∉ front ++ behind)
    (some : behind ≠ []) (seen : ∀ view ∈ behind, view ≠ .none) :
    Settled (front ++ behind) .something := by
  have hin := getLast_mem some
  have last : behind.getLast some = .something :=
    eq_something (fun clear => unclear (mem_append_right _ (clear ▸ hin))) (seen _ hin)
  refine ⟨?_, bestOf_something unclear (mem_append_right _ (last ▸ hin))⟩
  rw [← dropLast_append_getLast some, ← append_assoc] at unclear ⊢
  rw [lastOf_concat unclear, last]

theorem exists_kept {order : List Dbref} (p : Dbref → Bool) (eq : order.Perm slaves)
    (more : room ≤ slaves.length) (few : (slaves.filter p).length < room) :
    ∃ ref ∈ order.take room, p ref = false := by
  by_contra all
  simp only [not_exists, not_and, Bool.not_eq_false] at all
  have fewer := ((take_sublist room order).filter p).length_le
  rw [filter_eq_self.mpr all, length_take_of_le (eq.length_eq ▸ more),
    (eq.filter p).length_eq] at fewer
  omega

theorem settled_of_decidedCut (more : room < slaves.length)
    (decided : DecidedCut sights mechTarget masters slaves room) :
    ∃ result, ∀ front behind : List Dbref, front.Perm masters → behind.Perm slaves →
      Settled (sights.views mechTarget (front ++ behind.take room)) result := by
  have hlt := Nat.le_of_lt more
  -- everyone that is kept is a master or a slave
  have among {front behind : List Dbref} (sameFront : front.Perm masters)
      (sameBehind : behind.Perm slaves) {view : TargLos}
      (mem : view ∈ sights.views mechTarget (front ++ behind.take room)) :
      view ∈ sights.views mechTarget masters ∨ view ∈ sights.views mechTarget slaves := by
    obtain ⟨ref, hin, away, rfl⟩ := mem_views.mp mem
    rcases mem_append.mp hin with master | slave
    · exact .inl (mem_views.mpr ⟨ref, sameFront.mem_iff.mp master, away, rfl⟩)
    · exact .inr (mem_views.mpr
        ⟨ref, sameBehind.mem_iff.mp (mem_of_mem_take slave), away, rfl⟩)
  rcases decided with nobody | clear | few | ⟨unclear, noneSee | ⟨slavesSee, mastersSee⟩⟩
  · refine ⟨.none, fun front behind sameFront _ => ?_⟩
    obtain ⟨noMasters, rfl⟩ := Nat.add_eq_zero_iff.mp nobody
    rw [length_eq_zero_iff.mp (sameFront.length_eq.trans noMasters)]
    exact ⟨rfl, rfl⟩
  · refine ⟨.clear, fun front behind sameFront _ => lastOf_clear ?_⟩
    rw [views_append]
    exact mem_append_left _ ((views_perm sameFront).mem_iff.mpr clear)
  · refine ⟨.clear, fun front behind _ sameBehind => lastOf_clear ?_⟩
    obtain ⟨ref, hin, isClear⟩ := exists_kept _ sameBehind hlt few
    simp only [decide_eq_false_iff_not, not_or, not_not] at isClear
    exact mem_views.mpr ⟨ref, mem_append_right _ hin, isClear⟩
  · refine ⟨.none, fun front behind sameFront sameBehind => lastOf_same (.inr rfl)
      fun view mem => noneSee view ?_⟩
    rw [views_append]
    exact mem_append.mpr (among sameFront sameBehind mem)
  · refine ⟨.something, fun front behind sameFront sameBehind => ?_⟩
    have unclear' : .clear ∉ sights.views mechTarget (front ++ behind.take room) :=
      fun clear => unclear (by
        rw [views_append]
        exact mem_append.mpr (among sameFront sameBehind clear))
    rcases mastersSee with few | ⟨someMaster, mastersSee⟩
    · obtain ⟨kept, hin, away⟩ := exists_kept _ sameBehind hlt few
      have some : sights.view kept ∈ sights.views mechTarget (behind.take room) :=
        mem_views.mpr ⟨kept, hin, of_decide_eq_false away, rfl⟩
      rw [views_append] at unclear' ⊢
      refine settled_something unclear' (ne_nil_of_mem some) fun view mem =>
        slavesSee view ?_
      obtain ⟨ref, hin, away, rfl⟩ := mem_views.mp mem
      exact mem_views.mpr ⟨ref, sameBehind.mem_iff.mp (mem_of_mem_take hin), away, rfl⟩
    · have some : sights.views mechTarget (front ++ behind.take room) ≠ [] := fun nil => by
        rw [views_append, append_eq_nil_iff] at nil
        have eq := @views_perm sights mechTarget _ _ sameFront
        rw [nil.1] at eq
        exact someMaster eq.nil_eq.symm
      refine @settled_something [] _ unclear' some fun view mem => ?_
      rcases among sameFront sameBehind mem with master | slave
      · exact mastersSee view master
      · exact slavesSee view slave

theorem settled_cut (two : masters.length + room = 0 ∨ 0 < room) (more : room < slaves.length) :
    (∃ result, ∀ front behind : List Dbref, front.Perm masters → behind.Perm slaves →
      Settled (sights.views mechTarget (front ++ behind.take room)) result) ↔
      DecidedCut sights mechTarget masters slaves room :=
  ⟨fun ⟨_, settled⟩ => decidedCut_of_settled two more settled, settled_of_decidedCut more⟩

end Orders

/-! ## Networks -/

def World.eligible (w : World) (isC3 : Bool) (sights : Sights) (mech ref : Dbref) : Bool :=
  w.reaches isC3 mech ref && (!sights.anyECMDisturbed ref && (w.unit ref).started)

def World.eligibles (w : World) (isC3 : Bool) (sights : Sights) (mech : Dbref) : List Dbref :=
  (w.members isC3 mech).filter (w.eligible isC3 sights mech)

def TooLong (w : World) (isC3 : Bool) (mech : Dbref) (list : List Dbref) : Prop :=
  isC3 = true ∧ countMaxC3Units w mech list none < list.length

instance (w : World) (isC3 : Bool) (mech : Dbref) (list : List Dbref) :
    Decidable (TooLong w isC3 mech list) := inferInstanceAs (Decidable (_ ∧ _))

def slaveRoom (w : World) (mech : Dbref) (list : List Dbref) : Nat :=
  countMaxC3Units w mech list none - (mastersOf w list).length

section Temporary

variable {w w' : World} {isC3 : Bool} {sights : Sights} {mech mechTarget : Dbref}
  {items list others : List Dbref}

theorem NetworkOnly.started (only : NetworkOnly w w') (ref : Dbref) :
    (w'.unit ref).started = (w.unit ref).started := by
  obtain ⟨c3, c3i, unit⟩ := only.unit ref
  rw [unit]

theorem NetworkOnly.eligible (only : NetworkOnly w w') (isC3 : Bool) (sights : Sights)
    (mech : Dbref) : w'.eligible isC3 sights mech = w.eligible isC3 sights mech := by
  funext ref
  simp only [World.eligible, only.reaches, only.started]

def trimmed (w : World) (isC3 : Bool) (mech : Dbref) (list : List Dbref) : List Dbref :=
  if isC3 ∧ 0 < list.length then trimC3Network w mech list else list

theorem buildTempNetwork_eq (lists : Lists (w.network isC3 mech) (networkLength isC3) items) :
    buildTempNetwork w isC3 sights mech =
      trimmed w isC3 mech (items.filter (w.eligible isC3 sights mech)) := by
  have size : (w.network isC3 mech).size.toNat = items.length := by rw [lists.size]; rfl
  have base : (List.range (w.network isC3 mech).size.toNat).filterMap
      (getStartedMechInNetwork w isC3 sights mech) =
        items.filter (w.eligible isC3 sights mech) := by
    rw [← filterMap_eq_filter, size]
    apply lists.holds.filterMap_range (Nat.le_refl _)
    · intro i inside
      rw [getStartedMechInNetwork, getOther_of_inside (lists.size ▸ Int.ofNat_lt.mpr inside)]
      cases reach : w.reaches isC3 mech ((w.network isC3 mech).elem i) <;>
        simp [Option.guard, World.eligible, reach, Option.filter]
    · intro i outside
      rw [getStartedMechInNetwork, getOther_of_outside (lists.size ▸ Int.ofNat_le.mpr outside)]
      rfl
  rw [buildTempNetwork, base, trimmed]

theorem countMaxC3Units_perm (eq : list.Perm others) :
    countMaxC3Units w mech list none = countMaxC3Units w mech others none := by
  rw [countMaxC3Units_eq, countMaxC3Units_eq, mastersIn, mastersIn,
    masterCount_perm (eq.filter _)]

theorem mem_of_trimmed (short : list.length ≤ 11) {ref : Dbref}
    (mem : ref ∈ trimmed w isC3 mech list) : ref ∈ list := by
  rw [trimmed] at mem
  split_ifs at mem
  · by_cases long : countMaxC3Units w mech list none < list.length
    · rw [trimC3Network_cut short long] at mem
      rcases mem_append.mp mem with master | slave
      · exact mem_of_mem_filter master
      · exact mem_of_mem_filter (mem_of_mem_take slave)
    · rwa [trimC3Network, if_neg long] at mem
  · exact mem

theorem length_eligibles (lists : Lists (w.network isC3 mech) (networkLength isC3) items) :
    (items.filter (w.eligible isC3 sights mech)).length ≤ 11 := by
  have limit : networkLength isC3 ≤ 11 := by cases isC3 <;> decide
  exact (length_filter_le _ _).trans (lists.short.trans limit)

theorem mechSeenByNetwork_eq
    (lists : Lists (w.network isC3 mech) (networkLength isC3) items) :
    mechSeenByNetwork w isC3 sights mech mechTarget =
      lastOf .none (sights.views mechTarget (buildTempNetwork w isC3 sights mech)) := by
  refine lookThrough_eq (by decide) fun ref mem => ?_
  rw [buildTempNetwork_eq lists] at mem
  have inside := (mem_filter.mp (mem_of_trimmed (length_eligibles lists) mem)).2
  simp only [World.eligible, World.reaches, reachable, Bool.and_eq_true, beq_iff_eq,
    Bool.not_eq_true'] at inside
  obtain ⟨⟨isMech, ⟨⟨⟨-, -⟩, standing⟩, -⟩, -⟩, -⟩ := inside
  rw [getMechInTempNetwork, if_pos (w.mech_pos ref isMech),
    World.getMech_eq_some.mpr ⟨isMech, rfl⟩]
  simp [Option.filter, standing]

theorem lists_members (nonneg : 0 ≤ (w.network isC3 mech).size)
    (short : (w.network isC3 mech).size ≤ networkLength isC3) :
    Lists (w.network isC3 mech) (networkLength isC3) (w.members isC3 mech) := by
  have length : (w.members isC3 mech).length = (w.network isC3 mech).size.toNat := by
    simp [World.members]
  refine ⟨by omega, by omega, fun i item found => ?_⟩
  rw [World.members, getElem?_map, Option.map_eq_some_iff] at found
  obtain ⟨j, index, rfl⟩ := found
  obtain ⟨inside, rfl⟩ := getElem?_eq_some_iff.mp index
  rw [getElem_range]

theorem storeNetwork_lists (short : items.length ≤ networkLength isC3) :
    Lists ((w.storeNetwork isC3 mech items).network isC3 mech) (networkLength isC3) items := by
  obtain ⟨-, size, elements⟩ := @storeNetwork_spec isC3 mech items w
  refine ⟨size, short, fun i item found => ?_⟩
  obtain ⟨inside, -⟩ := getElem?_eq_some_iff.mp found
  rw [elements, if_pos inside, getD_eq_getElem?_getD, found, Option.getD_some]

theorem NetworkOnly.trimmed (only : NetworkOnly w w') (list : List Dbref) :
    trimmed w' isC3 mech list = trimmed w isC3 mech list := by
  rw [UnitWorld.trimmed, UnitWorld.trimmed, only.trimC3Network]

theorem buildTempNetwork_storeNetwork (short : items.length ≤ networkLength isC3) :
    buildTempNetwork (w.storeNetwork isC3 mech items) isC3 sights mech =
      trimmed w isC3 mech (items.filter (w.eligible isC3 sights mech)) := by
  have only := (@storeNetwork_spec isC3 mech items w).1.only
  rw [buildTempNetwork_eq (storeNetwork_lists short), only.trimmed, only.eligible]

theorem exists_order (p : Dbref → Bool) (eq : list.Perm (items.filter p)) :
    ∃ order : List Dbref, order.Perm items ∧ order.filter p = list := by
  refine ⟨list ++ items.filter fun ref => !p ref,
    (eq.append_right _).trans (filter_append_perm p items), ?_⟩
  have whole : list.filter p = list := filter_eq_self.mpr fun ref mem =>
    (mem_filter.mp (eq.mem_iff.mp mem)).2
  have nobody : (items.filter fun ref => !p ref).filter p = [] :=
    filter_eq_nil_iff.mpr fun ref mem => by
      simpa using (mem_filter.mp mem).2
  rw [filter_append, whole, nobody, append_nil]

theorem filter_masters_slaves {front behind : List Dbref}
    (sameFront : front.Perm (mastersOf w list))
    (sameBehind : behind.Perm (slavesOf w list)) :
    mastersOf w (front ++ behind) = front ∧ slavesOf w (front ++ behind) = behind := by
  have master : ∀ ref ∈ front, w.isMech ref = true ∧ 0 < (w.unit ref).workingC3Masters :=
    fun ref mem => by simpa using (mem_filter.mp (sameFront.mem_iff.mp mem)).2
  have slave : ∀ ref ∈ behind, w.isMech ref = true ∧ (w.unit ref).workingC3Masters = 0 :=
    fun ref mem => by simpa using (mem_filter.mp (sameBehind.mem_iff.mp mem)).2
  constructor
  · have all : mastersOf w front = front := filter_eq_self.mpr fun ref mem => by
      simpa using master ref mem
    have nobody : mastersOf w behind = [] := filter_eq_nil_iff.mpr fun ref mem => by
      simp [(slave ref mem).2]
    rw [mastersOf, filter_append, ← mastersOf, ← mastersOf, all, nobody, append_nil]
  · have all : slavesOf w behind = behind := filter_eq_self.mpr fun ref mem => by
      simpa using slave ref mem
    have nobody : slavesOf w front = [] := filter_eq_nil_iff.mpr fun ref mem => by
      simp [Nat.pos_iff_ne_zero.mp (master ref mem).2]
    rw [slavesOf, filter_append, ← slavesOf, ← slavesOf, all, nobody, nil_append]

theorem masters_slaves_perm (mechs : ∀ ref ∈ list, w.isMech ref = true) :
    (mastersOf w list ++ slavesOf w list).Perm list := by
  have masters : mastersOf w list =
      list.filter fun ref => decide (0 < (w.unit ref).workingC3Masters) :=
    filter_congr fun ref mem => by rw [mechs ref mem, Bool.true_and]
  have slaves : slavesOf w list =
      list.filter fun ref => !decide (0 < (w.unit ref).workingC3Masters) :=
    filter_congr fun ref mem => by
      rw [mechs ref mem, Bool.true_and, ← decide_not, decide_eq_decide]
      omega
  rw [masters, slaves]
  exact filter_append_perm _ list

theorem settled_trimmed (mechs : ∀ ref ∈ list, w.isMech ref = true) (short : list.length ≤ 11) :
    (∃ result, ∀ order : List Dbref, order.Perm list →
      Settled (sights.views mechTarget (trimmed w isC3 mech order)) result) ↔
      if TooLong w isC3 mech list then
        DecidedCut sights mechTarget (mastersOf w list) (slavesOf w list) (slaveRoom w mech list)
      else DecidedWhole sights mechTarget list := by
  split_ifs with long
  · obtain ⟨rfl, long⟩ := long
    have fit := @mastersOf_fit w mech list short
    have counted := @length_mastersOf w list
    have total := (masters_slaves_perm mechs).length_eq
    rw [length_append] at total
    have most := @countMaxC3Units_eq w mech list
    rw [← settled_cut (by unfold slaveRoom; omega) (by unfold slaveRoom; omega)]
    have cut (order : List Dbref) (eq : order.Perm list) : trimmed w true mech order =
        mastersOf w order ++ (slavesOf w order).take (slaveRoom w mech list) := by
      have some : 0 < order.length := by rw [eq.length_eq]; omega
      have max := @countMaxC3Units_perm w mech _ _ eq
      have masters : (mastersOf w order).length = (mastersOf w list).length :=
        (eq.filter _).length_eq
      rw [trimmed, if_pos ⟨rfl, some⟩, trimC3Network_cut (eq.length_eq ▸ short)
        (by rwa [max, eq.length_eq]), max, masters, slaveRoom]
    refine exists_congr fun result => ⟨fun settled front behind sameFront sameBehind => ?_,
      fun settled order eq => ?_⟩
    · obtain ⟨masters, slaves⟩ := filter_masters_slaves sameFront sameBehind
      have eq := (sameFront.append sameBehind).trans (masters_slaves_perm mechs)
      have := settled _ eq
      rwa [cut _ eq, masters, slaves] at this
    · rw [cut order eq]
      exact settled _ _ (eq.filter _) (eq.filter _)
  · rw [← settled_whole]
    refine exists_congr fun result => forall₂_congr fun order eq => ?_
    have whole : trimmed w isC3 mech order = order := by
      rw [trimmed]
      split_ifs with kind
      · rw [trimC3Network, if_neg]
        rw [countMaxC3Units_perm eq, eq.length_eq]
        exact fun longer => long ⟨kind.1, longer⟩
      · rfl
    rw [whole]

end Temporary

def bestSeen (w : World) (isC3 : Bool) (sights : Sights) (mech mechTarget : Dbref) : TargLos :=
  bestOf (sights.views mechTarget (buildTempNetwork w isC3 sights mech))

/-- A network reports the best that its members see, whatever order they are stored in. -/
structure SeesBest (w : World) (isC3 : Bool) (sights : Sights) (mech mechTarget : Dbref) :
    Prop where
  here : mechSeenByNetwork w isC3 sights mech mechTarget = bestSeen w isC3 sights mech mechTarget
  best : ∀ order : List Dbref, order.Perm (w.members isC3 mech) →
    mechSeenByNetwork (w.storeNetwork isC3 mech order) isC3 sights mech mechTarget =
      bestSeen (w.storeNetwork isC3 mech order) isC3 sights mech mechTarget
  ordered : ∀ order : List Dbref, order.Perm (w.members isC3 mech) →
    mechSeenByNetwork (w.storeNetwork isC3 mech order) isC3 sights mech mechTarget =
      mechSeenByNetwork w isC3 sights mech mechTarget

/-- Somebody sees the target clearly, nobody sees it, or all see it; of a C3 network that is too
long, those do whom trimming keeps in every order. -/
def Decided (w : World) (isC3 : Bool) (sights : Sights) (mech mechTarget : Dbref) : Prop :=
  let list := w.eligibles isC3 sights mech
  if TooLong w isC3 mech list then
    DecidedCut sights mechTarget (mastersOf w list) (slavesOf w list) (slaveRoom w mech list)
  else DecidedWhole sights mechTarget list

/-- Exactly the networks that are decided report the best their members see in any order. -/
theorem seesBest_iff (w : World) (isC3 : Bool) (sights : Sights) (mech mechTarget : Dbref)
    (nonneg : 0 ≤ (w.network isC3 mech).size)
    (short : (w.network isC3 mech).size ≤ networkLength isC3) :
    SeesBest w isC3 sights mech mechTarget ↔ Decided w isC3 sights mech mechTarget := by
  have lists := lists_members nonneg short
  have mechs : ∀ ref ∈ w.eligibles isC3 sights mech, w.isMech ref = true := fun ref member => by
    have := (mem_filter.mp member).2
    simp only [World.eligible, World.reaches, Bool.and_eq_true] at this
    exact this.1.1
  rw [Decided, ← settled_trimmed mechs (length_eligibles lists)]
  have short {order : List Dbref} (same : order.Perm (w.members isC3 mech)) :
      order.length ≤ networkLength isC3 := same.length_eq ▸ lists.short
  have stored {order : List Dbref} (same : order.Perm (w.members isC3 mech)) :
      mechSeenByNetwork (w.storeNetwork isC3 mech order) isC3 sights mech mechTarget =
        lastOf .none (sights.views mechTarget
          (trimmed w isC3 mech (order.filter (w.eligible isC3 sights mech)))) := by
    rw [mechSeenByNetwork_eq (storeNetwork_lists (short same)),
      buildTempNetwork_storeNetwork (short same)]
  constructor
  · rintro ⟨-, best, ordered⟩
    refine ⟨mechSeenByNetwork w isC3 sights mech mechTarget, fun list same => ?_⟩
    obtain ⟨order, perm, rfl⟩ := exists_order _ same
    have reported := (stored perm).symm.trans (ordered order perm)
    have among := (ordered order perm).symm.trans (best order perm)
    rw [bestSeen, buildTempNetwork_storeNetwork (short perm)] at among
    exact ⟨reported, among.symm⟩
  · rintro ⟨result, settled⟩
    have each {order : List Dbref} (same : order.Perm (w.members isC3 mech)) :=
      settled _ (same.filter (w.eligible isC3 sights mech))
    have own : mechSeenByNetwork w isC3 sights mech mechTarget = result := by
      rw [mechSeenByNetwork_eq lists, buildTempNetwork_eq lists]
      exact (each (.refl _)).1
    refine ⟨?_, fun order same => ?_, fun order same => ?_⟩
    · rw [own, bestSeen, buildTempNetwork_eq lists]
      exact (each (.refl _)).2.symm
    · rw [stored same, bestSeen, buildTempNetwork_storeNetwork (short same)]
      exact (each same).1.trans (each same).2.symm
    · rw [stored same, own]
      exact (each same).1

def trio : World :=
  { World.start [1, 2, 3] [] fun _ => { (default : Unit) with started := true, hasC3i := true } with
    unit := fun ref => { (default : Unit) with
      started := true, hasC3i := true
      c3iNetwork := if ref = 1 then ⟨fun i => if i = 0 then 2 else 3, 2⟩ else default } }

/-- Only the first companion sees anything, and through trees. -/
def firstSees : Sights :=
  { anyECMDisturbed := fun _ => false
    inLineOfSight := fun ref => ref == 2
    inLineOfSightNB := fun _ => false }

/-- Where both see the target, the network does. -/
theorem seesBest_iff_trio :
    SeesBest trio false { firstSees with inLineOfSight := fun _ => true } 1 9 := by
  refine (seesBest_iff trio false _ 1 9 (by decide) (by decide)).mpr ?_
  unfold Decided DecidedCut DecidedWhole
  decide

/-- The second companion makes the network forget what the first one sees. -/
theorem second_forgets :
    mechSeenByNetwork trio false firstSees 1 9 = .none ∧
      bestSeen trio false firstSees 1 9 = .something ∧
      mechSeenByNetwork (trio.storeNetwork false 1 [3, 2]) false firstSees 1 9 = .something := by
  decide

end BattletechMux.UnitWorld
