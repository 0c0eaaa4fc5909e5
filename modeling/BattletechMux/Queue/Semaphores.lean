/-
Module: BattletechMux.Queue.Semaphores
Purpose: The number in a semaphore attribute and the entries that wait for it.
-/
import BattletechMux.Queue.Once
import Mathlib

namespace BattletechMux.Queue

open List Option

open Function (update)
open LinkedMemory (picked picked_never picked_perm picked_wanted picked_upTo)

theorem int32_eq {n : Int} (low : -2147483648 ≤ n) (high : n < 2147483648) : int32 n = n :=
  Int.bmod_eq_of_le_mul_two (by omega) (by omega)

def Block.waitsFor (entry : Block) (obj : Dbref) (attr : Nat) : Bool :=
  entry.sem = some obj ∧ entry.attr = attr

def Board.waiters (b : Board) (obj : Dbref) (attr : Nat) : Nat :=
  b.sem.countP fun entry => (b.info entry).waitsFor obj attr

/-- The number of a semaphore, when it is positive, is that of the entries that wait for
it, and it is one an `int` keeps. -/
structure Balanced (b : Board) (obj : Dbref) (attr : Nat) : Prop where
  count : (b.waiters obj attr : Int) = max (b.semaphore (some obj) attr) 0
  low : -2147483648 ≤ b.semaphore (some obj) attr
  high : b.semaphore (some obj) attr < 2147483648

structure Quiet (b b' : Board) : Prop where
  sem : b'.sem = b.sem
  semaphore : b'.semaphore = b.semaphore
  asks : ∀ entry ∈ b.sem,
    (b'.info entry).sem = (b.info entry).sem ∧ (b'.info entry).attr = (b.info entry).attr

section Counting

variable {rules : Rules} {b b' b'' : Board} {obj : Dbref} {attr : Nat}

theorem Quiet.refl (b : Board) : Quiet b b := ⟨rfl, rfl, fun _ _ => ⟨rfl, rfl⟩⟩

theorem Quiet.trans (fst : Quiet b b') (snd : Quiet b' b'') : Quiet b b'' where
  sem := snd.sem.trans fst.sem
  semaphore := snd.semaphore.trans fst.semaphore
  asks e mem := by
    have later := snd.asks e (fst.sem ▸ mem)
    have pre := fst.asks e mem
    exact ⟨later.1.trans pre.1, later.2.trans pre.2⟩

theorem Quiet.of_info (sem : b'.sem = b.sem) (semaphore : b'.semaphore = b.semaphore)
    (info : b'.info = b.info) : Quiet b b' :=
  ⟨sem, semaphore, fun _ _ => by rw [info]; exact ⟨rfl, rfl⟩⟩

theorem Quiet.waiters (quiet : Quiet b b') : b'.waiters obj attr = b.waiters obj attr := by
  unfold Board.waiters
  rw [quiet.sem]
  refine countP_congr fun e mem => ?_
  obtain ⟨sem, attr⟩ := quiet.asks e mem
  simp only [Block.waitsFor, sem, attr]

theorem Quiet.balanced (quiet : Quiet b b') (balanced : Balanced b obj attr) :
    Balanced b' obj attr where
  count := by
    rw [quiet.waiters, quiet.semaphore]
    exact balanced.count
  low := by
    rw [quiet.semaphore]
    exact balanced.low
  high := by
    rw [quiet.semaphore]
    exact balanced.high

theorem picked_nodup (tidy : b.Tidy []) (want : Addr → Bool) (hlt : Nat → Bool) (num : Nat) :
    ((picked want hlt num b.sem).1 ++ (picked want hlt num b.sem).2).Nodup :=
  (picked_perm want hlt num b.sem).nodup_iff.mpr (tidy.nodup.sublist Represents.sem_sublist)

theorem sweep_waiters {act : Ready → Addr → Ready}
    (info : ∀ r e o, o ≠ e → (act r e).info o = r.info o)
    (tidy : b.Tidy []) (want : Block → Bool) (hlt : Nat → Bool) (num : Nat) :
    b.waiters obj attr = (b.sweep .sem want act hlt num).2.waiters obj attr +
      (picked (fun point => want (b.info point)) hlt num b.sem).1.countP
        fun e => (b.info e).waitsFor obj attr := by
  have perm := picked_perm (fun point => want (b.info point)) hlt num b.sem
  have nodup := picked_nodup tidy (fun point => want (b.info point)) hlt num
  have kept : (b.sweep .sem want act hlt num).2.waiters obj attr =
      (picked (fun point => want (b.info point)) hlt num b.sem).2.countP
        fun e => (b.info e).waitsFor obj attr := by
    refine countP_congr fun e mem => ?_
    have outside : e ∉ (picked (fun point => want (b.info point)) hlt num b.sem).1 :=
      fun inTaken => (nodup_append.mp nodup).2.2 e inTaken e mem rfl
    have eq := fold_info info outside b.toReady
    exact iff_of_eq (congrArg (fun block : Block => block.waitsFor obj attr = true) eq)
  rw [kept, Nat.add_comm, ← countP_append]
  exact (perm.countP_eq _).symm

theorem taken_semaphore {act : Ready → Addr → Ready}
    (eq : ∀ r e, (act r e).semaphore = r.semaphore) (taken : List Addr) (r : Ready) :
    (taken.foldl act r).semaphore = r.semaphore := by
  induction taken generalizing r with
  | nil => rfl
  | cons e rest ih =>
    exact (ih (act r e)).trans (eq r e)

/-- What is done with an entry takes one off the number of its semaphore. -/
structure CountsDown (act : Ready → Addr → Ready) : Prop where
  semaphore : ∀ r entry, (act r entry).semaphore =
    (r.toCore.addTo (r.info entry).sem (-1) (r.info entry).attr).semaphore
  info : ∀ r entry other, other ≠ entry → (act r entry).info other = r.info other

theorem addTo_semaphore (core : Core) (thing : Option Dbref) (am : Int) (attr' : Nat) :
    (core.addTo thing am attr').semaphore (some obj) attr =
      if thing = some obj ∧ attr' = attr then int32 (core.semaphore (some obj) attr + am)
      else core.semaphore (some obj) attr := by
  by_cases eq : thing = some obj
  · subst eq
    by_cases sameAttr : attr' = attr
    · simp [Core.addTo, Core.setSemaphore, sameAttr]
    · simp [Core.addTo, Core.setSemaphore, sameAttr, Ne.symm sameAttr]
  · simp [Core.addTo, Core.setSemaphore, eq, Ne.symm eq]

theorem CountsDown.taken {act : Ready → Addr → Ready} (down : CountsDown act)
    {taken : List Addr} (nodup : taken.Nodup) (r : Ready)
    (low : -2147483648 ≤ r.semaphore (some obj) attr -
      taken.countP fun e => (r.info e).waitsFor obj attr)
    (high : r.semaphore (some obj) attr < 2147483648) :
    (taken.foldl act r).semaphore (some obj) attr = r.semaphore (some obj) attr -
      taken.countP fun e => (r.info e).waitsFor obj attr := by
  induction taken generalizing r with
  | nil => simp
  | cons e rest ih =>
    obtain ⟨notLater, distinct⟩ := nodup_cons.mp nodup
    have later : rest.countP (fun o => ((act r e).info o).waitsFor obj attr) =
        rest.countP fun o => (r.info o).waitsFor obj attr := by
      refine countP_congr fun o mem => ?_
      rw [down.info r e o (fun eq => notLater (eq ▸ mem))]
    have one : (act r e).semaphore (some obj) attr =
        if (r.info e).waitsFor obj attr then
          int32 (r.semaphore (some obj) attr + -1)
        else r.semaphore (some obj) attr := by
      rw [down.semaphore, addTo_semaphore]
      simp [Block.waitsFor]
    cases waits : (r.info e).waitsFor obj attr with
    | true =>
      simp only [waits, countP_cons_of_pos, if_true, Nat.cast_add, Nat.cast_one] at one low ⊢
      rw [int32_eq (by omega) (by omega)] at one
      have rest' := ih distinct (act r e) (by omega) (by omega)
      rw [foldl_cons, rest', later, one]
      omega
    | false =>
      rw [waits, if_neg Bool.false_ne_true] at one
      rw [countP_cons_of_neg (by simp [waits])] at low ⊢
      have rest' := ih distinct (act r e) (by omega) (by omega)
      rw [foldl_cons, rest', later, one]

theorem CountsDown.balanced {act : Ready → Addr → Ready} (down : CountsDown act)
    (tidy : b.Tidy []) (balanced : Balanced b obj attr) (want : Block → Bool)
    (hlt : Nat → Bool) (num : Nat) :
    Balanced (b.sweep .sem want act hlt num).2 obj attr := by
  obtain ⟨count, low, high⟩ := balanced
  have split := @sweep_waiters b obj attr act down.info tidy want hlt num
  have nodup := picked_nodup tidy (fun point => want (b.info point)) hlt num
  have value := @CountsDown.taken obj attr act down _ (nodup_append.mp nodup).1 b.toReady
    (by omega) high
  have eq : (b.sweep .sem want act hlt num).2.semaphore (some obj) attr = _ := value
  constructor <;> rw [eq] <;> omega

theorem haltSem_down : CountsDown (Ready.dropAfter Core.haltSem) where
  semaphore _ _ := rfl
  info := haltSem_keeps.dropAfter.info

theorem expire_down : CountsDown (Ready.giveAfter rules Core.expire) where
  semaphore r e := by
    rw [Ready.giveAfter, giveQue_core]
    split <;> rfl
  info := (expire_keeps.giveAfter rules).info

theorem mark_quiet (rules : Rules) (b : Board) (player object : Option Dbref) :
    Quiet b (b.mark rules player object).2 := by
  have kept : ∀ (entries : List Addr) (acc : Nat × Core),
      (entries.foldl (Core.mark rules player object) acc).2.semaphore = acc.2.semaphore ∧
        ∀ e, ((entries.foldl (Core.mark rules player object) acc).2.info e).sem =
            (acc.2.info e).sem ∧
          ((entries.foldl (Core.mark rules player object) acc).2.info e).attr =
            (acc.2.info e).attr := by
    intro entries
    induction entries with
    | nil => exact fun _ => ⟨rfl, fun _ => ⟨rfl, rfl⟩⟩
    | cons fst rest ih =>
      intro acc
      have one : (Core.mark rules player object acc fst).2.semaphore = acc.2.semaphore ∧
          ∀ e, ((Core.mark rules player object acc fst).2.info e).sem =
              (acc.2.info e).sem ∧
            ((Core.mark rules player object acc fst).2.info e).attr =
              (acc.2.info e).attr := by
        simp only [Core.mark]
        split
        · refine ⟨by split <;> rfl, fun e => ?_⟩
          by_cases eq : e = fst
          · subst eq
            split <;> simp [Core.note]
          · split <;> simp [Core.note, eq]
        · exact ⟨rfl, fun _ => ⟨rfl, rfl⟩⟩
      obtain ⟨semaphore, asks⟩ := ih (Core.mark rules player object acc fst)
      refine ⟨semaphore.trans one.1, fun e => ?_⟩
      exact ⟨(asks e).1.trans (one.2 e).1, (asks e).2.trans (one.2 e).2⟩
  obtain ⟨semaphore, asks⟩ := kept (b.player ++ b.object) (0, b.toCore)
  exact ⟨rfl, semaphore, fun e _ => asks e⟩

theorem sweepWait_quiet (act : Ready → Addr → Ready) (tidy : b.Tidy [])
    (info : ∀ r e o, o ≠ e → (act r e).info o = r.info o)
    (eq : ∀ r e, (act r e).semaphore = r.semaphore) (want : Block → Bool)
    (hlt : Nat → Bool) (num : Nat) : Quiet b (b.sweep .wait want act hlt num).2 := by
  refine ⟨rfl, taken_semaphore eq _ _, fun e mem => ?_⟩
  have outside : e ∉ (picked (fun point => want (b.info point)) hlt num b.wait).1 :=
    fun inTaken => tidy.not_wait (.inl mem)
      ((picked_perm _ hlt num b.wait).subset (mem_append_left _ inTaken))
  have kept := fold_info info outside b.toReady
  exact ⟨congrArg Block.sem kept, congrArg Block.attr kept⟩

theorem haltQue_balanced (rules : Rules) (tidy : b.Tidy []) (balanced : Balanced b obj attr)
    (player object : Option Dbref) : Balanced (b.haltQue rules player object).2 obj attr := by
  have marked := mark_quiet rules b player object
  have tidy₁ : (b.mark rules player object).2.Tidy [] := by
    refine tidy.of_perm (List.Perm.refl _) ?_ ?_
    · exact (mark_keeps rules player object (b.player ++ b.object) (0, b.toCore)).1
    · exact (mark_keeps rules player object (b.player ++ b.object) (0, b.toCore)).2
  have waits := sweepWait_quiet (Ready.dropAfter Core.haltWait) tidy₁
    haltWait_keeps.dropAfter.info (fun _ _ => rfl) (rules.queWant player object)
    (fun _ => false) (b.mark rules player object).1
  have tidy₂ := (sweep_moves (@haltWait_acting rules) (b.mark rules player object).2 .wait
    (rules.queWant player object) (fun _ => false) (b.mark rules player object).1).tidy tidy₁
  have sems := haltSem_down.balanced tidy₂ (waits.balanced (marked.balanced balanced))
    (rules.queWant player object) (fun _ => false)
    ((b.mark rules player object).2.sweep .wait (rules.queWant player object)
      (Ready.dropAfter Core.haltWait) (fun _ => false) (b.mark rules player object).1).1
  have settled : ∀ (b : Board) (num : Nat),
      Quiet b { b with toCore := b.toCore.haltSettle rules player object num } := by
    intro b num
    refine .of_info rfl ?_ ?_ <;> rw [haltSettle_eq]
  exact (settled _ _).balanced sems

theorem setSemaphore_eq (core : Core) (thing : Option Dbref) (attr' : Nat) (val : Int) :
    (core.setSemaphore thing attr' val).semaphore (some obj) attr =
      if thing = some obj ∧ attr' = attr then val else core.semaphore (some obj) attr := by
  by_cases eq : thing = some obj
  · subst eq
    by_cases sameAttr : attr' = attr
    · simp [Core.setSemaphore, sameAttr]
    · simp [Core.setSemaphore, sameAttr, Ne.symm sameAttr]
  · simp [Core.setSemaphore, eq, Ne.symm eq]

/-- What `nfy_que` does with the entries it takes. -/
def notified (rules : Rules) (key : NotifyKey) : Ready → Addr → Ready :=
  if key = .drain then Ready.dropAfter (Core.drain rules)
  else Ready.giveAfter rules fun c _ => c

theorem notified_info (rules : Rules) (key : NotifyKey) (r : Ready) (e o : Addr)
    (ne : o ≠ e) :
    (notified rules key r e).info o = r.info o := by
  unfold notified
  split
  · exact drain_keeps.dropAfter.info r e o ne
  · exact (same_keeps.giveAfter rules).info r e o ne

theorem notified_semaphore (rules : Rules) (key : NotifyKey) (r : Ready) (e : Addr) :
    (notified rules key r e).semaphore = r.semaphore := by
  unfold notified
  split
  · simp only [Ready.dropAfter, Core.release, Core.drain, Core.note, Core.aQueue]
    rw [sQueue_eq, giveto_eq]
  · rw [Ready.giveAfter, giveQue_core]
    split <;> rfl

/-- The blocks that `nfy_que` wants. -/
def Block.notifiedBy (entry : Block) (sem : Dbref) (attr : Nat) : Bool :=
  entry.sem = some sem ∧ (entry.attr = attr ∨ attr = 0)

/-- The board once `nfy_que` has gone through the semaphore queue. -/
def Board.notify (rules : Rules) (b : Board) (sem : Dbref) (attr : Nat) (key : NotifyKey)
    (count : Int) : Board :=
  if 0 < (if attr ≠ 0 then b.semaphore (some sem) attr else 1) then
    (b.sweep .sem (fun entry => entry.notifiedBy sem attr) (notified rules key)
      (fun num => key = .nfy ∧ count ≤ num) 0).2
  else b

theorem nfyQue_eq (rules : Rules) (b : Board) (sem : Dbref) (attr : Nat) (key : NotifyKey)
    (count : Int) :
    (b.nfyQue rules sem attr key count).2 =
      { b.notify rules sem attr key count with
        toCore := (b.notify rules sem attr key count).toCore.nfySettle sem attr key count } := by
  unfold Board.nfyQue Board.notify
  dsimp only
  by_cases waiting : 0 < (if attr ≠ 0 then b.semaphore (some sem) attr else 1)
  · rw [if_pos waiting, if_pos waiting]
    rfl
  · rw [if_neg waiting, if_neg waiting]

theorem notify_waiters (rules : Rules) (tidy : b.Tidy []) {sem : Dbref} {attr' : Nat}
    (key : NotifyKey) {count : Int} (some' : attr' ≠ 0) (pos : 0 < count) :
    (b.notify rules sem attr' key count).semaphore = b.semaphore ∧
      ((b.notify rules sem attr' key count).waiters obj attr : Int) =
        if sem = obj ∧ attr' = attr ∧ 0 < b.semaphore (some obj) attr then
          if key = .nfy then max 0 (b.waiters obj attr - count) else 0
        else b.waiters obj attr := by
  unfold Board.notify
  simp only [some', ne_eq, not_false_eq_true, if_true]
  by_cases waiting : 0 < b.semaphore (some sem) attr'
  · rw [if_pos waiting]
    refine ⟨taken_semaphore (notified_semaphore rules key) _ b.toReady, ?_⟩
    have split := @sweep_waiters b obj attr (notified rules key) (notified_info rules key) tidy
      (fun e => e.notifiedBy sem attr') (fun num => decide (key = .nfy ∧ count ≤ num)) 0
    have wanted := @picked_wanted _ b.sem (fun point => (b.info point).notifiedBy sem attr')
      (fun num => decide (key = .nfy ∧ count ≤ num)) 0
    by_cases this' : sem = obj ∧ attr' = attr
    · obtain ⟨rfl, rfl⟩ := this'
      have eq : ∀ e : Block, e.notifiedBy sem attr' = e.waitsFor sem attr' := by
        intro e
        simp [Block.notifiedBy, Block.waitsFor, some']
      have waiters : b.sem.countP (fun point => (b.info point).notifiedBy sem attr') =
          b.waiters sem attr' := countP_congr fun e _ => by rw [eq]
      rw [if_pos ⟨rfl, rfl, waiting⟩]
      rw [countP_eq_length.mpr fun e mem => (eq _).symm.trans (wanted e mem)]
        at split
      by_cases one : key = .nfy
      · have upTo : ∀ num : Nat,
            decide (key = .nfy ∧ count ≤ num) = decide (count.toNat ≤ num) := by simp [one]
        have length := picked_upTo (fun point => (b.info point).notifiedBy sem attr') upTo
          (show 0 < count.toNat by omega) b.sem
        rw [length, waiters] at split
        rw [if_pos one]
        omega
      · have never : (fun num : Nat => decide (key = .nfy ∧ count ≤ num)) = fun _ => false := by
          simp [one]
        rw [never, picked_never, ← countP_eq_length_filter, waiters] at split
        rw [if_neg one, never]
        omega
    · have none' : (picked (fun point => (b.info point).notifiedBy sem attr')
          (fun num => decide (key = .nfy ∧ count ≤ num)) 0 b.sem).1.countP
            (fun e => (b.info e).waitsFor obj attr) = 0 := by
        rw [countP_eq_zero]
        intro e mem waits
        have is := wanted e mem
        simp only [Block.notifiedBy, Block.waitsFor, some', or_false, decide_eq_true_eq] at is waits
        exact this' ⟨some.inj (is.1.symm.trans waits.1), is.2.symm.trans waits.2⟩
      rw [none'] at split
      rw [if_neg fun both => this' ⟨both.1, both.2.1⟩]
      omega
  · rw [if_neg waiting]
    refine ⟨rfl, ?_⟩
    rw [if_neg]
    rintro ⟨rfl, rfl, positive'⟩
    exact waiting positive'

theorem nfySettle_semaphore (core : Core) (sem : Dbref) (attr' : Nat) (key : NotifyKey)
    (count : Int) :
    (core.nfySettle sem attr' key count).semaphore (some obj) attr =
      if sem = obj ∧ attr' = attr then
        if key = .nfy then int32 (core.semaphore (some obj) attr - count) else 0
      else core.semaphore (some obj) attr := by
  unfold Core.nfySettle
  split
  · rw [addTo_semaphore]
    simp [Int.sub_eq_add_neg]
  · rw [setSemaphore_eq]
    simp

theorem settled_waiters (b : Board) (sem : Dbref) (attr' : Nat) (key : NotifyKey) (count : Int) :
    Board.waiters { b with toCore := b.toCore.nfySettle sem attr' key count } obj attr =
      b.waiters obj attr := by
  unfold Board.waiters
  rw [nfySettle_eq]

theorem nfyQue_balanced (rules : Rules) (tidy : b.Tidy []) (balanced : Balanced b obj attr)
    {sem : Dbref} {attr' : Nat} {key : NotifyKey} {count : Int} (some' : attr' ≠ 0)
    (pos : 0 < count)
    (room : sem = obj → attr' = attr → key = .nfy →
      -2147483648 ≤ b.semaphore (some obj) attr - count) :
    Balanced (b.nfyQue rules sem attr' key count).2 obj attr := by
  obtain ⟨counted, low, high⟩ := balanced
  obtain ⟨values, waiters⟩ :=
    @notify_waiters b obj attr rules tidy sem attr' key count some' pos
  have value := @nfySettle_semaphore obj attr
    (b.notify rules sem attr' key count).toCore sem attr' key count
  rw [values] at value
  rw [nfyQue_eq]
  by_cases this' : sem = obj ∧ attr' = attr
  · obtain ⟨rfl, rfl⟩ := this'
    simp only [true_and] at waiters value
    rw [if_pos trivial] at value
    by_cases one : key = .nfy
    · have inRange := room rfl rfl one
      simp only [one, if_true] at waiters value
      rw [int32_eq inRange (by omega)] at value
      subst one
      constructor <;> simp only [settled_waiters, value]
      · split at waiters <;> omega
      · exact inRange
      · omega
    · simp only [one, if_false] at waiters value
      constructor <;> simp only [settled_waiters, value]
      · split at waiters <;> omega
      · omega
      · omega
  · have off : ¬ (sem = obj ∧ attr' = attr ∧ 0 < b.semaphore (some obj) attr) :=
      fun both => this' ⟨both.1, both.2.1⟩
    rw [if_neg off] at waiters
    rw [if_neg this'] at value
    constructor <;> simp only [settled_waiters, value]
    · rw [waiters]
      exact counted
    · exact low
    · exact high

theorem drainAll_waiters (rules : Rules) (tidy : b.Tidy []) (gone : Dbref) :
    (b.notify rules gone 0 .drain 0).semaphore = b.semaphore ∧
      (b.notify rules gone 0 .drain 0).waiters obj attr =
        if gone = obj then 0 else b.waiters obj attr := by
  have swept : b.notify rules gone 0 .drain 0 =
      (b.sweep .sem (fun e => e.notifiedBy gone 0) (notified rules .drain)
        (fun _ => false) 0).2 := by
    simp [Board.notify]
  rw [swept]
  refine ⟨taken_semaphore (notified_semaphore rules .drain) _ b.toReady, ?_⟩
  have split := @sweep_waiters b obj attr (notified rules .drain) (notified_info rules .drain) tidy
    (fun e => e.notifiedBy gone 0) (fun _ => false) 0
  rw [picked_never, countP_filter] at split
  by_cases this' : gone = obj
  · have all : b.sem.countP (fun e => (b.info e).waitsFor obj attr &&
        (b.info e).notifiedBy gone 0) = b.waiters obj attr := by
      refine countP_congr fun e _ => ?_
      simp only [Block.waitsFor, Block.notifiedBy, this', or_true, and_true, Bool.and_eq_true,
        decide_eq_true_eq]
      exact and_iff_left_of_imp And.left
    rw [all] at split
    rw [if_pos this']
    omega
  · have none' : b.sem.countP (fun e => (b.info e).waitsFor obj attr &&
        (b.info e).notifiedBy gone 0) = 0 := by
      rw [countP_eq_zero]
      intro e _ both
      simp only [Block.waitsFor, Block.notifiedBy, or_true, and_true, Bool.and_eq_true,
        decide_eq_true_eq] at both
      exact this' (some.inj (both.2.symm.trans both.1.1))
    rw [none'] at split
    rw [if_neg this']
    omega

theorem destroyObj_balanced (rules : Rules) (tidy : b.Tidy []) (balanced : Balanced b obj attr)
    (gone : Dbref) : Balanced (b.destroyObj rules gone) obj attr := by
  have tidy' := (haltQue_moves rules b none (some gone)).tidy tidy
  obtain ⟨counted, low, high⟩ := haltQue_balanced rules tidy balanced none (some gone)
  obtain ⟨values, waiters⟩ := @drainAll_waiters _ obj attr rules tidy' gone
  have value := @nfySettle_semaphore obj attr
    ((b.haltQue rules none (some gone)).2.notify rules gone 0 .drain 0).toCore gone 0 .drain 0
  rw [values] at value
  have left : (b.destroyObj rules gone).waiters obj attr =
      if gone = obj then 0 else (b.haltQue rules none (some gone)).2.waiters obj attr := by
    have drained : (b.destroyObj rules gone).waiters obj attr =
        (((b.haltQue rules none (some gone)).2.nfyQue rules gone 0 .drain 0).2).waiters obj attr :=
      rfl
    rw [drained, nfyQue_eq, settled_waiters]
    exact waiters
  have cleared : (b.destroyObj rules gone).semaphore (some obj) attr =
      if gone = obj then 0 else (b.haltQue rules none (some gone)).2.semaphore (some obj) attr := by
    simp only [Board.destroyObj, nfyQue_eq]
    by_cases this' : gone = obj
    · simp [this']
    · rw [Function.update_of_ne (fun eq => this' (some.inj eq).symm), value]
      simp [this']
  by_cases this' : gone = obj
  · rw [if_pos this'] at left cleared
    constructor <;> simp [left, cleared]
  · rw [if_neg this'] at left cleared
    constructor <;> rw [cleared]
    · rw [left]
      exact counted
    · exact low
    · exact high

theorem giveQue_quiet (rules : Rules) (b : Board) {e : Addr} (outside : e ∉ b.sem) :
    Quiet b { b with toReady := b.toReady.giveQue rules e } where
  sem := rfl
  semaphore := by
    dsimp only
    rw [giveQue_core]
    split <;> rfl
  asks o mem := by
    have kept : (b.toReady.giveQue rules e).info o = b.info o :=
      Ready.giveQue_info fun eq => outside (eq ▸ mem)
    exact ⟨congrArg Block.sem kept, congrArg Block.attr kept⟩

theorem doSecond_balanced (rules : Rules) (tidy : b.Tidy []) (balanced : Balanced b obj attr)
    (now : Int) : Balanced (b.doSecond rules now) obj attr := by
  unfold Board.doSecond
  split
  · exact balanced
  · have spliced : Quiet b b.spliceObject := by
      refine .of_info rfl ?_ ?_ <;> simp only [Board.spliceObject, puts_eq]
    have tidy₁ : b.spliceObject.Tidy [] := (@Move.splice rules b).tidy tidy
    have looped : Quiet b.spliceObject (b.spliceObject.waitLoop rules now) := by
      unfold Board.waitLoop
      cases entries : b.spliceObject.wait with
      | nil => exact .refl _
      | cons point rest =>
        dsimp only
        split
        · have outside : point ∉ b.spliceObject.sem := fun inSem =>
            tidy₁.not_wait (.inl inSem) (by simp [entries])
          obtain ⟨sem, semaphore, asks⟩ := giveQue_quiet rules b.spliceObject outside
          exact ⟨sem, semaphore, asks⟩
        · exact .refl _
    have tidy₂ := (waitLoop_moves rules b.spliceObject now).tidy tidy₁
    exact expire_down.balanced tidy₂ ((spliced.trans looped).balanced balanced) ..

theorem times_quiet (b : Board) (i : Int) : Quiet b (b.warpTimes i) := by
  have kept : ∀ (time : Core → Addr → Int) (entries : List Addr) (core : Core) (e : Addr),
      ((entries.foldl (fun c point => c.setWaittime point (time c point)) core).info e).sem =
          (core.info e).sem ∧
        ((entries.foldl (fun c point => c.setWaittime point (time c point)) core).info e).attr =
          (core.info e).attr := by
    intro time entries
    induction entries with
    | nil => exact fun _ _ => ⟨rfl, rfl⟩
    | cons fst rest ih =>
      intro core e
      obtain ⟨sem, attr⟩ := ih (core.setWaittime fst (time core fst)) e
      rw [foldl_cons, sem, attr]
      by_cases eq : e = fst <;> simp [Core.setWaittime, eq]
  refine ⟨rfl, by rw [b.warpTimes_eq], fun e _ => ?_⟩
  obtain ⟨sem, attr⟩ := kept (fun _ _ => int32 (-i)) b.wait { b.toCore with dequeue := true } e
  obtain ⟨sem', attr'⟩ :=
    kept (fun c point => Core.warped i (c.info point).waittime) b.sem _ e
  exact ⟨sem'.trans sem, attr'.trans attr⟩

theorem topPop_quiet {frame : Frame} {outer : List Frame}
    (popped : b.topPop frame outer = some b') : Quiet b b' := by
  unfold Board.topPop at popped
  split at popped
  · cases popped
  · cases popped
    exact .of_info rfl rfl rfl

theorem take_quiet (rules : Rules) (b : Board) (head : Addr) (player : Dbref) :
    Quiet b { b with toCore := b.toCore.take rules head player } := by
  simp only [Core.take, Core.aQueue]
  rw [sQueue_eq, giveto_eq]
  refine ⟨rfl, rfl, fun e _ => ?_⟩
  by_cases eq : e = head <;> simp [eq]

theorem topNext_quiet {frame : Frame} {outer : List Frame}
    (went : b.topNext rules frame outer = some b') : Quiet b b' := by
  cases topNext_cases went with
  | returned => exact .of_info rfl rfl rfl
  | skipped _ _ popped => exact topPop_quiet popped
  | gone _ _ _ popped =>
    have later := topPop_quiet popped
    exact ⟨later.sem, later.semaphore, later.asks⟩
  | held _ _ popped =>
    have later := topPop_quiet popped
    exact (take_quiet rules b _ _).trans ⟨later.sem, later.semaphore, later.asks⟩
  | started => exact (take_quiet rules b _ _).trans (.of_info rfl rfl rfl)

theorem paid_quiet {paid : Core} {player : Dbref} {cost : Int}
    (pays : b.payfor rules player cost = some paid) :
    Quiet b { b with toCore := paid.aQueue rules (rules.owner player) 1 } := by
  refine .of_info rfl ?_ ?_ <;> rw [Core.aQueue, sQueue_eq, payfor_keeps pays]

theorem alloc_quiet (tidy : b.Tidy []) (e : Block) :
    Quiet b { b with toCore := b.toCore.alloc e } := by
  refine ⟨rfl, rfl, fun o mem => ?_⟩
  have old : o ≠ b.allocated := fun eq => tidy.fresh (by simp [Board.all, ← eq, mem])
  simp [Core.alloc, old]

theorem fill_quiet {e : Addr} (outside : e ∉ b.sem) (now wait : Int)
    (sem : Option Dbref) (attr' : Nat) :
    Quiet b { b with toCore := b.toCore.fill e now wait sem attr' } := by
  refine ⟨rfl, rfl, fun o mem => ?_⟩
  have old : o ≠ e := fun eq => outside (eq ▸ mem)
  simp [Core.fill, old]

theorem enqueue_quiet (rules : Rules) {e : Addr} (outside : e ∉ b.sem) (now wait : Int)
    (attr' : Nat) : Quiet b (b.enqueue rules e now wait none attr') := by
  have filled := fill_quiet outside now wait none attr'
  simp only [Board.enqueue]
  split
  · exact filled.trans (giveQue_quiet rules
      { b with toCore := b.toCore.fill e now wait none attr' } outside)
  · exact ⟨rfl, rfl, filled.asks⟩

theorem enqueue_waiters (rules : Rules) {e : Addr} (outside : e ∉ b.sem) (now wait : Int)
    (sem : Dbref) (attr' : Nat) :
    (b.enqueue rules e now wait (some sem) attr').semaphore = b.semaphore ∧
      (b.enqueue rules e now wait (some sem) attr').waiters obj attr =
        b.waiters obj attr + if sem = obj ∧ attr' = attr then 1 else 0 := by
  refine ⟨rfl, ?_⟩
  have filled :
      Board.waiters { b with toCore := b.toCore.fill e now wait (some sem) attr' } obj attr =
        b.waiters obj attr := (fill_quiet outside now wait (some sem) attr').waiters
  have more : (b.enqueue rules e now wait (some sem) attr').waiters obj attr =
      Board.waiters { b with toCore := b.toCore.fill e now wait (some sem) attr' } obj attr +
        if sem = obj ∧ attr' = attr then 1 else 0 := by
    simp only [Board.enqueue, Board.waiters, countP_append, countP_singleton]
    simp [Core.fill, Block.waitsFor]
  rw [more, filled]

/-- Whether `wait_que` queues a command. -/
def Core.accepts (rules : Rules) (c : Core) (player : Dbref) (draw : Nat) : Prop :=
  c.interp = true ∧ c.halted player = false ∧
    (rules.freeMoney (some player) = true ∨ rules.fee draw ≤ c.pennies (rules.owner player)) ∧
    (rules.isPlayer (rules.owner player) = true →
      c.queue (rules.owner player) + 1 ≤ rules.queueMax (rules.owner player))

theorem payfor_none {core : Core} {who : Dbref} {cost : Int} :
    core.payfor rules who cost = none ↔
      ¬ (rules.freeMoney (some who) = true ∨ cost ≤ core.pennies (rules.owner who)) := by
  unfold Core.payfor
  split
  · simp_all
  · dsimp only
    split <;> simp_all

theorem queued_paid {core paid : Core} {player owner : Dbref} {cost : Int}
    (pays : core.payfor rules player cost = some paid) :
    (paid.aQueue rules owner 1).queued rules owner =
      if rules.isPlayer owner then core.queue owner + 1 else 0 := by
  rw [payfor_keeps pays]
  by_cases is : rules.isPlayer owner <;> simp [Core.queued, Core.aQueue, Core.sQueue, is]

theorem setupQue_of_accepts {player : Dbref} {draw : Nat}
    (accepts : b.toCore.accepts rules player draw) (cause : Dbref) (comm : String) :
    ∃ paid, b.payfor rules player (rules.fee draw) = some paid ∧
      b.setupQue rules player cause comm draw =
        (some (paid.aQueue rules (rules.owner player) 1).allocated,
          { b with
            toCore := (paid.aQueue rules (rules.owner player) 1).alloc
              (Board.entryOf player cause comm) }) := by
  obtain ⟨_, heeds, pays', few⟩ := accepts
  have step := setupQue_cases rules b player cause comm draw
  cases made : b.setupQue rules player cause comm draw with
  | mk point b' =>
    rw [made] at step
    cases step with
    | refused why =>
      rcases why with halted | poor
      · simp [heeds] at halted
      · exact absurd pays' (payfor_none.mp poor)
    | overflowed _ pays many =>
      rw [queued_paid pays] at many
      by_cases is : rules.isPlayer (rules.owner player) = true
      · have room := few is
        rw [if_pos is] at many
        omega
      · simp [Rules.queueMax, is] at many
    | accepted _ pays => exact ⟨_, pays, rfl⟩

theorem enqueue_balanced (rules : Rules) (balanced : Balanced b obj attr) {e : Addr}
    (outside : e ∉ b.sem) (now wait : Int) {sem : Option Dbref} {attr' : Nat}
    (o : ¬ (sem = some obj ∧ attr' = attr)) :
    Balanced (b.enqueue rules e now wait sem attr') obj attr := by
  cases sem with
  | none => exact (enqueue_quiet rules outside now wait attr').balanced balanced
  | some sem =>
    obtain ⟨values, waiters⟩ :=
      @enqueue_waiters b obj attr rules e outside now wait sem attr'
    have off : ¬ (sem = obj ∧ attr' = attr) := fun eq => o ⟨by rw [eq.1], eq.2⟩
    rw [if_neg off] at waiters
    exact ⟨by rw [waiters, values]; exact balanced.count, balanced.low, balanced.high⟩

theorem waitQue_balanced (rules : Rules) (tidy : b.Tidy []) (balanced : Balanced b obj attr)
    (player cause : Dbref) (now wait : Int) {sem : Option Dbref} {attr' : Nat}
    (o : ¬ (sem = some obj ∧ attr' = attr)) (comm : String) (draw : Nat) :
    Balanced (b.waitQue rules player cause now wait sem attr' comm draw) obj attr := by
  unfold Board.waitQue
  split
  · exact balanced
  · have step := setupQue_cases rules b player cause comm draw
    cases made : b.setupQue rules player cause comm draw with
    | mk point b' =>
      rw [made] at step
      cases step with
      | refused => exact balanced
      | overflowed _ pays =>
        obtain ⟨count, low, high⟩ := haltQue_balanced rules ((paid_moves pays).tidy tidy)
          ((paid_quiet pays).balanced balanced) (some (rules.owner player)) none
        exact ⟨count, low, high⟩
      | accepted _ pays =>
        have tidy₁ := (paid_moves pays).tidy tidy
        have made' := (paid_quiet pays).trans
          (alloc_quiet tidy₁ (Board.entryOf player cause comm))
        refine enqueue_balanced rules (made'.balanced balanced) (fun mem => ?_) now wait o
        exact tidy₁.fresh (by simpa [Board.all] using .inr (.inr (.inr mem)))

theorem waitQue_waiters (tidy : b.Tidy []) {player cause : Dbref} {draw : Nat}
    (accepts : b.toCore.accepts rules player draw) (now wait : Int) (sem : Dbref)
    (attr' : Nat) (comm : String) :
    (b.waitQue rules player cause now wait (some sem) attr' comm draw).semaphore = b.semaphore ∧
      (b.waitQue rules player cause now wait (some sem) attr' comm draw).waiters obj attr =
        b.waiters obj attr + if sem = obj ∧ attr' = attr then 1 else 0 := by
  obtain ⟨paid, pays, made⟩ := setupQue_of_accepts accepts cause comm
  have tidy₁ := (paid_moves pays).tidy tidy
  have made' := (paid_quiet pays).trans (alloc_quiet tidy₁ (Board.entryOf player cause comm))
  have outside : (paid.aQueue rules (rules.owner player) 1).allocated ∉ b.sem := fun mem =>
    tidy₁.fresh (by simpa [Board.all] using .inr (.inr (.inr mem)))
  have queues : b.waitQue rules player cause now wait (some sem) attr' comm draw =
      Board.enqueue rules
        { b with
          toCore := (paid.aQueue rules (rules.owner player) 1).alloc
            (Board.entryOf player cause comm) }
        (paid.aQueue rules (rules.owner player) 1).allocated now wait (some sem) attr' := by
    simp only [Board.waitQue, accepts.1, Bool.not_true, Bool.false_eq_true, if_false, made]
  obtain ⟨values, waiters⟩ :=
    @enqueue_waiters
      { b with
        toCore := (paid.aQueue rules (rules.owner player) 1).alloc
          (Board.entryOf player cause comm) }
      obj attr rules _ outside now wait sem attr'
  rw [queues]
  exact ⟨values.trans made'.semaphore, by rw [waiters, made'.waiters]⟩

/-- What keeps a semaphore in balance: when its number is not negative, a command is made
to wait for it only when `wait_que` queues the command, and the number does not leave the
range of an `int`. -/
def Core.keepsCount (rules : Rules) (c : Core) (obj : Dbref) (attr : Nat) : Op → Prop
  | .semWait player _ _ _ thing attr' _ draw =>
    thing = obj → attr' = attr → c.semaphore (some obj) attr < 0 ∨
      c.accepts rules player draw ∧ c.semaphore (some obj) attr < 2147483647
  | .notify thing attr' key count =>
    thing = obj → attr' = attr → key = .nfy →
      -2147483648 ≤ c.semaphore (some obj) attr - count
  | _ => True

def Board.asked (b : Board) (thing : Dbref) (attr : Nat) : Board :=
  { b with toCore := b.toCore.addTo (some thing) 1 attr }

theorem asked_semaphore (b : Board) (thing : Dbref) (attr' : Nat) :
    (b.asked thing attr').semaphore (some obj) attr =
      if thing = obj ∧ attr' = attr then int32 (b.semaphore (some obj) attr + 1)
      else b.semaphore (some obj) attr := by
  refine (addTo_semaphore b.toCore (some thing) 1 attr').trans ?_
  simp only [Option.some.injEq]

instance (c : Core) (player : Dbref) (draw : Nat) : Decidable (c.accepts rules player draw) := by
  unfold Core.accepts
  infer_instance

instance (c : Core) (op : Op) : Decidable (c.keepsCount rules obj attr op) :=
  match op with
  | .semWait .. => inferInstanceAs (Decidable (_ → _ → _))
  | .notify .. => inferInstanceAs (Decidable (_ → _ → _ → _))
  | .wait .. | .halt .. | .destroy .. | .second .. | .warp .. | .top .. | .kick .. | .next
  | .done | .setHalted .. | .setGoing .. | .setControl .. => instDecidableTrue

theorem doWait_balanced (rules : Rules) (tidy : b.Tidy []) (balanced : Balanced b obj attr)
    {player cause : Dbref} {now howlong : Int} {thing : Dbref} {attr' : Nat} {comm : String}
    {draw : Nat}
    (guard : thing = obj → attr' = attr → b.semaphore (some obj) attr < 0 ∨
      b.toCore.accepts rules player draw ∧ b.semaphore (some obj) attr < 2147483647) :
    Balanced (b.doWait rules player cause now howlong thing attr' comm draw) obj attr := by
  have tidy' : (b.asked thing attr').Tidy [] := tidy.of_perm (List.Perm.refl _) rfl rfl
  have value := @asked_semaphore obj attr b thing attr'
  have waiting : (b.asked thing attr').waiters obj attr = b.waiters obj attr := rfl
  obtain ⟨count, low, high⟩ := balanced
  show Balanced
    (if (b.asked thing attr').semaphore (some thing) attr' ≤ 0 then
      (b.asked thing attr').waitQue rules player cause now 0 none attr' comm draw
    else
      (b.asked thing attr').waitQue rules player cause now howlong (some thing) attr' comm draw)
    obj attr
  by_cases this' : thing = obj ∧ attr' = attr
  · obtain ⟨rfl, rfl⟩ := this'
    rw [if_pos ⟨rfl, rfl⟩, int32_eq (by omega) (by have := guard rfl rfl; omega)] at value
    by_cases credit : b.semaphore (some thing) attr' < 0
    · rw [if_pos (by omega)]
      refine waitQue_balanced rules tidy' ⟨?_, ?_, ?_⟩ player cause now 0 (by simp) comm draw <;>
        omega
    · obtain ⟨accepts, room⟩ := (guard rfl rfl).resolve_left credit
      rw [if_neg (by omega)]
      obtain ⟨values, waiters⟩ := @waitQue_waiters rules _ thing attr' tidy' player cause draw
        accepts now howlong thing attr' comm
      rw [if_pos ⟨rfl, rfl⟩] at waiters
      constructor <;> rw [values] <;> omega
  · rw [if_neg this'] at value
    have counted : Balanced (b.asked thing attr') obj attr :=
      ⟨by omega, by omega, by omega⟩
    split
    · exact waitQue_balanced rules tidy' counted player cause now 0 (by simp) comm draw
    · refine waitQue_balanced rules tidy' counted player cause now howlong (fun eq => ?_) comm draw
      exact this' ⟨some.inj eq.1, eq.2⟩

theorem step_balanced {op : Op} (tidy : b.Tidy []) (balanced : Balanced b obj attr)
    (guard : b.toCore.keepsCount rules obj attr op) (stepped : b.step rules op = some b') :
    Balanced b' obj attr := by
  have called : Balanced (b.call rules op) obj attr := by
    cases op with
    | wait player cause now wait comm draw =>
      exact waitQue_balanced rules tidy balanced player cause now wait (by simp) comm draw
    | semWait =>
      simp only [Board.call]
      split
      · exact balanced
      · exact doWait_balanced rules tidy balanced guard
    | notify =>
      simp only [Board.call, Board.doNotify]
      split
      · exact balanced
      · split
        · exact nfyQue_balanced rules tidy balanced ‹_› ‹_› guard
        · exact balanced
    | halt player object => exact haltQue_balanced rules tidy balanced player object
    | destroy gone => exact destroyObj_balanced rules tidy balanced gone
    | second now => exact doSecond_balanced rules tidy balanced now
    | warp i now =>
      have warped := (times_quiet b i).balanced balanced
      have tidy' := (Move.warp b i : Move rules b _).tidy tidy
      obtain ⟨count, low, high⟩ := doSecond_balanced rules tidy' warped now
      exact ⟨count, low, high⟩
    | top ncmds =>
      simp only [Board.call]
      split
      · exact ⟨balanced.count, balanced.low, balanced.high⟩
      · exact balanced
    | kick i => exact ⟨balanced.count, balanced.low, balanced.high⟩
    | next => exact balanced
    | done => exact balanced
    | setHalted => exact ⟨balanced.count, balanced.low, balanced.high⟩
    | setGoing => exact ⟨balanced.count, balanced.low, balanced.high⟩
    | setControl => exact ⟨balanced.count, balanced.low, balanced.high⟩
  unfold Board.step at stepped
  split at stepped
  · exact some.inj stepped ▸ called
  · split at stepped
    · split at stepped
      · exact (topPop_quiet stepped).balanced balanced
      · exact some.inj stepped ▸ called
    · split at stepped
      · exact (topNext_quiet stepped).balanced balanced
      · exact some.inj stepped ▸ balanced

end Counting

/-- A semaphore has a positive number exactly when that many entries wait for it, and one
that is not positive, or none, exactly when none waits. -/
def CountsMatch (s : Server) (obj : Dbref) (attr : Nat) : Prop :=
  (∀ n : Nat, 0 < n → (s.semaphore (some obj) attr = n ↔ s.board.waiters obj attr = n)) ∧
    (s.semaphore (some obj) attr ≤ 0 ↔ s.board.waiters obj attr = 0)

/-- In a run in which no refused wait raises the number of a semaphore, and which keeps the
number in the range of an `int`, the number is that of the waiting entries. -/
theorem counts_match (rules : Rules) (pennies : Dbref → Int) (obj : Dbref) (attr : Nat)
    (ops : List Op) (s : Server)
    (guarded : Machine.Guarded (Server.step rules)
      (fun s op => s.toCore.keepsCount rules obj attr op) (Server.init pennies) ops)
    (ran : Machine.run (Server.step rules) (Server.init pennies) ops = some s) :
    CountsMatch s obj attr := by
  have start : Balanced (Board.init pennies) obj attr := by
    constructor <;> simp [Board.init, Server.init, Board.waiters]
  have preserved : ∀ (b : Board) (op : Op) (b' : Board), b.Tidy [] → Balanced b obj attr →
      b.toCore.keepsCount rules obj attr op → b.step rules op = some b' → Balanced b' obj attr :=
    fun _ _ _ tidy balanced guard stepped => step_balanced tidy balanced guard stepped
  obtain ⟨_, count, _, _⟩ := board_of_guarded_run start preserved guarded ran
  have same : s.board.semaphore (some obj) attr = s.semaphore (some obj) attr := rfl
  refine ⟨fun n positive => ?_, ?_⟩ <;> omega

/-- Two commands wait for a semaphore, and one is notified. -/
theorem counts_match_smallGame : ∃ s,
    Machine.run (Server.step smallGame) (Server.init fun _ => 100)
        [.semWait 2 2 0 0 3 47 "say one" 0, .semWait 2 2 0 0 3 47 "say two" 0,
          .notify 3 47 .nfy 1, .halt (some 1) none] = some s ∧ CountsMatch s 3 47 :=
  ⟨_, rfl, counts_match smallGame (fun _ => 100) 3 47
    [.semWait 2 2 0 0 3 47 "say one" 0, .semWait 2 2 0 0 3 47 "say two" 0,
      .notify 3 47 .nfy 1, .halt (some 1) none] _ (by decide) rfl⟩

/-- The command of an object that is halted is refused, and yet counted. -/
theorem refused_wait_counts :
    ¬ ∀ (rules : Rules) (pennies : Dbref → Int) (obj : Dbref) (attr : Nat) (ops : List Op)
        (s : Server), Machine.run (Server.step rules) (Server.init pennies) ops = some s →
          CountsMatch s obj attr := by
  intro claimed
  have counts := (claimed smallGame (fun _ => 100) 3 47
    [.setHalted 2 true, .semWait 2 2 0 0 3 47 "say one" 0] _ rfl).2
  revert counts
  decide

end BattletechMux.Queue
