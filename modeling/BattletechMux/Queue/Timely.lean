/-
Module: BattletechMux.Queue.Timely
Purpose: The wait times of the queue. The wait queue is sorted by wait time in every run.
  `do_second` takes every semaphore wait that is over, but at most one entry of the wait queue,
  since `give_que` clears the link that its loop follows; @queue/warp gives every entry of the wait
  queue the same time.
-/
import BattletechMux.Queue.Once

namespace BattletechMux.Queue

open List Option

open Function (update)
open LinkedMemory (picked picked_never)

variable {rules : Rules} {s : Server} {b b' : Board}

def Sorted (b : Board) : Prop :=
  b.wait.Pairwise fun first second => (b.info first).waittime ≤ (b.info second).waittime

theorem Sorted.of_sublist (sorted : Sorted b) (hin : b'.wait.Sublist b.wait)
    (times : ∀ e ∈ b'.wait, (b'.info e).waittime = (b.info e).waittime) :
    Sorted b' := by
  refine (List.Pairwise.sublist hin sorted).imp_of_mem ?_
  intro fst second inFirst inSecond pre
  rw [times fst inFirst, times second inSecond]
  exact pre

theorem giveQue_waittime {r : Ready} {e o : Addr} (ne : o ≠ e) :
    ((r.giveQue rules e).info o).waittime = (r.info o).waittime := by
  rw [Ready.giveQue_info ne]

theorem times_other (time : Core → Addr → Int) {entries : List Addr} (core : Core)
    {o : Addr} (outside : o ∉ entries) :
    (entries.foldl (fun c point => c.setWaittime point (time c point)) core).info o =
      core.info o := by
  induction entries generalizing core with
  | nil => rfl
  | cons e rest ih =>
    rw [mem_cons, not_or] at outside
    obtain ⟨ne, later⟩ := outside
    refine (ih (core.setWaittime e (time core e)) later).trans ?_
    simp [Core.setWaittime, ne]

theorem times_const (waittime : Int) {entries : List Addr} (core : Core) {e : Addr}
    (mem : e ∈ entries) :
    ((entries.foldl (fun c point => c.setWaittime point waittime) core).info e).waittime =
      waittime := by
  induction entries generalizing core with
  | nil => cases mem
  | cons fst rest ih =>
    by_cases later : e ∈ rest
    · exact ih (core.setWaittime fst waittime) later
    · have eq : e = fst := (mem_cons.mp mem).resolve_right later
      subst eq
      rw [foldl_cons]
      refine (congrArg Block.waittime (times_other (fun _ _ => waittime) _ later)).trans ?_
      simp [Core.setWaittime]

theorem warpTimes_waittime (tidy : b.Tidy []) (i : Int) {e : Addr}
    (mem : e ∈ b.wait) : ((b.warpTimes i).info e).waittime = int32 (-i) := by
  have notSem : e ∉ b.sem := fun inSem => tidy.not_wait (Or.inl inSem) mem
  refine (congrArg Block.waittime (times_other _ _ notSem)).trans ?_
  exact times_const (int32 (-i)) _ mem

theorem Move.sorted (move : Move rules b b') (tidy : b.Tidy []) (sorted : Sorted b) :
    Sorted b' := by
  cases move with
  | aside core info allocated live frames log =>
    exact sorted.of_sublist (List.Sublist.refl _) fun e _ => by rw [info]
  | mark e mem pending =>
    refine sorted.of_sublist (List.Sublist.refl _) fun o _ => ?_
    by_cases eq : o = e
    · simp [Core.note, eq]
    · simp [Core.note, eq]
  | drop lane pre post e fate split removed =>
    cases lane with
    | wait =>
      have entries : b.wait = pre ++ e :: post := split
      refine sorted.of_sublist ?_ fun _ _ => rfl
      rw [entries]
      exact (sublist_cons_self e post).append_left pre
    | sem => exact sorted
  | give lane pre post e sem split =>
    have kept : ∀ o, o ≠ e →
        ((Ready.giveQue rules
          { b.toReady with
            toCore :=
              { b.toCore with info := update b.info e { b.info e with sem := sem } } }
          e).info o).waittime = (b.info o).waittime := by
      intro o ne
      rw [giveQue_waittime ne]
      simp [ne]
    cases lane with
    | wait =>
      have entries : b.wait = pre ++ e :: post := split
      have nodup := tidy.nodup.sublist Represents.wait_sublist
      rw [entries] at nodup
      refine sorted.of_sublist ?_ fun o mem => kept o ?_
      · rw [entries]
        exact (sublist_cons_self e post).append_left pre
      · rintro rfl
        have inRest : o ∈ pre ++ post := mem
        exact (nodup_middle.mp nodup).notMem inRest
    | sem =>
      have entries : b.sem = pre ++ e :: post := split
      refine sorted.of_sublist (List.Sublist.refl _) fun o mem => kept o ?_
      rintro rfl
      exact tidy.not_wait (Or.inl (by simp [entries])) mem
  | accept player cause comm now wait sem attr =>
    -- The new entry is not on the wait queue yet.
    have old : ∀ o ∈ b.wait, o ≠ b.allocated := by
      rintro o mem rfl
      exact tidy.fresh (by simp [Board.all, mem])
    have filled : ∀ o ∈ b.wait,
        (((b.toCore.alloc (Board.entryOf player cause comm)).fill b.allocated now wait sem
          attr).info o).waittime = (b.info o).waittime := fun o mem => by
      simp [Core.fill, Core.alloc, old o mem]
    cases sem with
    | some sem => exact sorted.of_sublist (List.Sublist.refl _) filled
    | none =>
      by_cases direct : wait ≤ 0
      · simp only [Board.enqueue, if_pos direct]
        refine sorted.of_sublist (List.Sublist.refl _) fun o mem => ?_
        exact (giveQue_waittime (old o mem)).trans (filled o mem)
      · simp only [Board.enqueue, if_neg direct]
        have pre : Sorted
            { b with
              toCore := (b.toCore.alloc (Board.entryOf player cause comm)).fill b.allocated
                now wait none attr } := sorted.of_sublist (List.Sublist.refl _) filled
        exact LinkedMemory.place_sorted pre b.allocated
  | splice =>
    refine sorted.of_sublist (List.Sublist.refl _) fun e _ => ?_
    simp only [Board.spliceObject, puts_eq]
  | warp i =>
    refine Pairwise.imp_of_mem (R := fun _ _ => True) ?_ (pairwise_of_forall (by simp))
    intro fst second inFirst inSecond _
    exact Int.le_of_eq ((warpTimes_waittime tidy i inFirst).trans
      (warpTimes_waittime tidy i inSecond).symm)

theorem Moves.sorted (moves : Moves rules b b') (tidy : b.Tidy []) (sorted : Sorted b) :
    Sorted b' :=
  (moves.invariant (fun b => b.Tidy [] ∧ Sorted b)
    (fun _ _ move kept => ⟨move.tidy kept.1, move.sorted kept.1 kept.2⟩) ⟨tidy, sorted⟩).2

theorem topPop_sorted {frame : Frame} {outer : List Frame} (sorted : Sorted b)
    (popped : b.topPop frame outer = some b') : Sorted b' := by
  unfold Board.topPop at popped
  split at popped
  · cases popped
  · cases popped
    exact sorted

theorem take_waittime (core : Core) (head o : Addr) (player : Dbref) :
    ((core.take rules head player).info o).waittime = (core.info o).waittime := by
  simp only [Core.take, Core.aQueue]
  rw [sQueue_eq, giveto_eq]
  by_cases eq : o = head
  · simp [eq]
  · simp [eq]

theorem topNext_sorted {frame : Frame} {outer : List Frame} (sorted : Sorted b)
    (went : b.topNext rules frame outer = some b') : Sorted b' := by
  cases topNext_cases went with
  | returned => exact sorted
  | skipped _ _ popped => exact topPop_sorted sorted popped
  | gone _ _ _ popped =>
    refine topPop_sorted ?_ popped
    exact sorted
  | held _ _ popped =>
    refine topPop_sorted ?_ popped
    exact sorted.of_sublist (List.Sublist.refl _) fun _ _ => take_waittime ..
  | started =>
    exact sorted.of_sublist (List.Sublist.refl _) fun _ _ => take_waittime ..

theorem step_sorted {op : Op} (tidy : b.Tidy []) (sorted : Sorted b)
    (stepped : b.step rules op = some b') : Sorted b' := by
  have called : Sorted (b.call rules op) := by
    cases calls : op.callsTop with
    | false => exact (call_moves rules b calls).sorted tidy sorted
    | true =>
      cases op <;> simp only [Op.callsTop, reduceCtorEq] at calls
      case top ncmds =>
        simp only [Board.call]
        split <;> exact sorted
      case kick i => exact sorted
  unfold Board.step at stepped
  split at stepped
  · exact some.inj stepped ▸ called
  · split at stepped
    · split at stepped
      · exact topPop_sorted sorted stepped
      · exact some.inj stepped ▸ called
    · split at stepped
      · exact topNext_sorted sorted stepped
      · exact some.inj stepped ▸ sorted

theorem sorted_of_run {pennies : Dbref → Int} {ops : List Op}
    (ran : Machine.run (Server.step rules) (Server.init pennies) ops = some s) :
    Represents s s.board [] ∧ Sorted s.board :=
  board_of_run List.Pairwise.nil (fun _ _ _ tidy sorted => step_sorted tidy sorted) ran

/-- What the loop of `do_second` leaves of the wait queue: all but the first entry, if that
is due. -/
def leftWaiting (b : Board) (now : Int) : List Addr :=
  match b.wait with
  | [] => []
  | point :: rest => if (b.info point).waittime ≤ now then rest else point :: rest

def Block.elapsed (entry : Block) (now : Int) : Bool :=
  entry.waittime ≠ 0 ∧ entry.waittime ≤ now

theorem waitLoop_spec (rules : Rules) (tidy : b.Tidy []) (now : Int) :
    (b.waitLoop rules now).wait = leftWaiting b now ∧ (b.waitLoop rules now).sem = b.sem ∧
      ∀ e, e ∈ leftWaiting b now ∨ e ∈ b.sem →
        (b.waitLoop rules now).info e = b.info e := by
  unfold Board.waitLoop leftWaiting
  cases entries : b.wait with
  | nil => exact ⟨entries, rfl, fun _ _ => rfl⟩
  | cons point rest =>
    dsimp only
    split
    · refine ⟨rfl, rfl, fun e mem => Ready.giveQue_info ?_⟩
      rintro rfl
      have nodup := tidy.nodup.sublist Represents.wait_sublist
      rw [entries] at nodup
      rcases mem with inRest | inSem
      · exact (nodup_cons.mp nodup).1 inRest
      · exact tidy.not_wait (Or.inl inSem) (by simp [entries])
    · exact ⟨entries, rfl, fun _ _ => rfl⟩

theorem expireLoop_spec (rules : Rules) (tidy : b.Tidy []) (now : Int) :
    (b.expireLoop rules now).wait = b.wait ∧
      (b.expireLoop rules now).sem = b.sem.filter (fun e => !(b.info e).elapsed now) ∧
      ∀ e, e ∈ b.wait ∨ e ∈ b.sem.filter (fun e => !(b.info e).elapsed now) →
        (b.expireLoop rules now).info e = b.info e := by
  have taken : picked (fun e => (b.info e).elapsed now) (fun _ => false) 0 b.sem =
      (b.sem.filter fun e => (b.info e).elapsed now,
        b.sem.filter fun e => !(b.info e).elapsed now) := picked_never _ 0 b.sem
  have swept : b.expireLoop rules now =
      { b with
        toReady := (b.sem.filter fun e => (b.info e).elapsed now).foldl
          (Ready.giveAfter rules Core.expire) b.toReady
        sem := b.sem.filter fun e => !(b.info e).elapsed now } := by
    have unfolded : b.expireLoop rules now =
        { b with
          toReady := (picked (fun e => (b.info e).elapsed now) (fun _ => false) 0
            b.sem).1.foldl (Ready.giveAfter rules Core.expire) b.toReady
          sem := (picked (fun e => (b.info e).elapsed now) (fun _ => false) 0 b.sem).2 } :=
      rfl
    rw [unfolded, taken]
  rw [swept]
  refine ⟨rfl, rfl, fun e mem => ?_⟩
  refine fold_info (expire_keeps.giveAfter rules).info ?_ b.toReady
  rw [mem_filter]
  rintro ⟨inSem, elapsed⟩
  rcases mem with inWait | left
  · exact tidy.not_wait (Or.inl inSem) inWait
  · simp [elapsed] at left

theorem doSecond_spec (rules : Rules) (tidy : b.Tidy []) (dequeue : b.dequeue = true) (now : Int) :
    (b.doSecond rules now).wait = leftWaiting b now ∧
      (b.doSecond rules now).sem = b.sem.filter (fun e => !(b.info e).elapsed now) ∧
      ∀ e, e ∈ leftWaiting b now ∨
          e ∈ b.sem.filter (fun e => !(b.info e).elapsed now) →
        (b.doSecond rules now).info e = b.info e := by
  have info : b.spliceObject.info = b.info := by simp only [Board.spliceObject, puts_eq]
  have spliced : b.spliceObject.Tidy [] := Move.tidy (@Move.splice rules b) tidy
  have left : leftWaiting b.spliceObject now = leftWaiting b now := by
    simp only [leftWaiting, info]
    rfl
  obtain ⟨wait, sem, kept⟩ := waitLoop_spec rules spliced now
  have tidy' := (waitLoop_moves rules b.spliceObject now).tidy spliced
  obtain ⟨wait', sem', kept'⟩ := expireLoop_spec rules tidy' now
  have elapsed : (b.spliceObject.waitLoop rules now).sem.filter
      (fun e => !((b.spliceObject.waitLoop rules now).info e).elapsed now) =
        b.sem.filter fun e => !(b.info e).elapsed now := by
    rw [sem]
    refine filter_congr fun e mem => ?_
    rw [kept e (.inr mem), info]
  rw [left] at wait kept
  rw [elapsed] at sem' kept'
  rw [wait] at wait' kept'
  simp only [Board.doSecond, dequeue, Bool.not_true, Bool.false_eq_true, if_false]
  refine ⟨wait', sem', fun e mem => ?_⟩
  rw [kept' e mem, kept e, info]
  exact mem.imp id fun inLeft => (mem_filter.mp inLeft).1

theorem leftWaiting_iff (sorted : Sorted b) (now : Int) :
    (∀ e ∈ leftWaiting b now, ¬ (b.info e).waittime ≤ now) ↔
      (b.wait.filter fun e => (b.info e).waittime ≤ now).length ≤ 1 := by
  unfold leftWaiting Sorted at *
  cases entries : b.wait with
  | nil => simp
  | cons point rest =>
    rw [entries] at sorted
    dsimp only
    by_cases due : (b.info point).waittime ≤ now
    · rw [if_pos due]
      simp [due, length_eq_zero_iff, filter_eq_nil_iff]
    · rw [if_neg due]
      have later : ∀ e ∈ point :: rest, ¬ (b.info e).waittime ≤ now := by
        intro e mem
        rcases mem_cons.mp mem with rfl | inRest
        · exact due
        · have post := (pairwise_cons.mp sorted).1 e inRest
          omega
      have none' : (point :: rest).filter (fun e => (b.info e).waittime ≤ now) = [] := by
        simpa [filter_eq_nil_iff] using later
      exact iff_of_true later (by simp [none'])

theorem leftWaiting_eq (sorted : Sorted b) {now : Int}
    (few : (b.wait.filter fun e => (b.info e).waittime ≤ now).length ≤ 1) :
    leftWaiting b now = b.wait.filter fun e => now < (b.info e).waittime := by
  have none' := (leftWaiting_iff sorted now).mpr few
  unfold leftWaiting at none' ⊢
  cases entries : b.wait with
  | nil => rfl
  | cons point rest =>
    simp only [entries] at none' ⊢
    by_cases due : (b.info point).waittime ≤ now
    · simp only [if_pos due] at none' ⊢
      rw [filter_cons_of_neg (by simpa using due)]
      exact (filter_eq_self.mpr fun e mem => by simpa using none' e mem).symm
    · simp only [if_neg due] at none' ⊢
      exact (filter_eq_self.mpr fun e mem => by simpa using none' e mem).symm

/-- What is asked of the wait times in a state: the wait queue is sorted; `do_second` at
`now` leaves no wait that is over, and keeps the others in order; and @queue/warp `n`
makes due the entries of the wait queue that have at most `n` seconds left. -/
structure Timely (rules : Rules) (s : Server) (now n : Int) : Prop where
  sorted : Sorted s.board
  second : ∃ s', s.doSecond rules now = some s' ∧
    (∀ entry ∈ s'.board.wait, ¬ (s'.info entry).waittime ≤ now) ∧
    (∀ entry ∈ s'.board.sem,
      ¬ (0 < (s'.info entry).waittime ∧ (s'.info entry).waittime ≤ now)) ∧
    (0 ≤ now → ∀ entry ∈ s'.board.sem, ¬ (s'.info entry).waittime < 0) ∧
    s'.board.wait = s.board.wait.filter (fun entry => now < (s.info entry).waittime) ∧
    s'.board.sem = s.board.sem.filter (fun entry => !(s.info entry).elapsed now)
  warp : ∃ s', s.warpTimes n = some s' ∧
    ∀ entry ∈ s.board.wait,
      ((s'.info entry).waittime ≤ now ↔ (s.info entry).waittime - now ≤ n)

/-- At most one entry of the wait queue is due, and @queue/warp `n` is asked for at a
moment when all of the entries have at most `n` seconds left, or, if the time it sets is
still to come, none has. -/
def Prompt (b : Board) (now n : Int) : Prop :=
  (b.wait.filter fun entry => (b.info entry).waittime ≤ now).length ≤ 1 ∧
    if int32 (-n) ≤ now then ∀ entry ∈ b.wait, (b.info entry).waittime ≤ now + n
    else ∀ entry ∈ b.wait, now + n < (b.info entry).waittime

/-- In every run the wait times are as asked for exactly in the states that are prompt. -/
theorem timely_iff (rules : Rules) (pennies : Dbref → Int) (ops : List Op) (s : Server)
    (ran : Machine.run (Server.step rules) (Server.init pennies) ops = some s)
    (dequeue : s.dequeue = true) (now n : Int) :
    Timely rules s now n ↔ Prompt s.board now n := by
  obtain ⟨rep, sorted⟩ := sorted_of_run ran
  obtain ⟨second, moved, rep₂⟩ := doSecond_simulates rules rep now
  obtain ⟨warped, rewritten, rep₃⟩ := warpTimes_simulates rep n
  obtain ⟨wait, sem, info⟩ := doSecond_spec rules rep.tidy dequeue now
  have times : ∀ entry ∈ s.board.wait, (warped.info entry).waittime = int32 (-n) := by
    intro entry member
    rw [rep₃.core]
    exact warpTimes_waittime rep.tidy n member
  have waiting : ∀ entry ∈ leftWaiting s.board now, second.info entry = s.info entry := by
    intro entry member
    rw [rep₂.core]
    exact info entry (.inl member)
  have asking : ∀ entry ∈ s.board.sem.filter (fun entry => !(s.info entry).elapsed now),
      second.info entry = s.info entry := by
    intro entry member
    rw [rep₂.core]
    exact info entry (.inr member)
  constructor
  · rintro ⟨_, ⟨s', moved', none', _⟩, ⟨s'', rewritten', exact'⟩⟩
    obtain rfl := some.inj (moved.symm.trans moved')
    obtain rfl := some.inj (rewritten.symm.trans rewritten')
    rw [rep₂.board_eq, wait] at none'
    refine ⟨(leftWaiting_iff sorted now).mp fun entry member => ?_, ?_⟩
    · have left := none' entry member
      rwa [waiting entry member] at left
    · split
      next soon =>
        intro entry member
        have left := (exact' entry member).mp ((times entry member).symm ▸ soon)
        show (s.info entry).waittime ≤ now + n
        omega
      next late =>
        intro entry member
        have left := (exact' entry member).not.mp ((times entry member).symm ▸ late)
        show now + n < (s.info entry).waittime
        omega
  · rintro ⟨few, warps⟩
    have none' := (leftWaiting_iff sorted now).mpr few
    refine ⟨sorted, ⟨second, moved, ?_, ?_, ?_, ?_, ?_⟩, ⟨warped, rewritten, ?_⟩⟩
    · rw [rep₂.board_eq, wait]
      intro entry member
      rw [waiting entry member]
      exact none' entry member
    · rw [rep₂.board_eq, sem]
      intro entry member
      have left := (mem_filter.mp member).2
      rw [asking entry member]
      simp only [Block.elapsed, Bool.not_eq_true', decide_eq_false_iff_not] at left
      show ¬ (0 < (s.board.info entry).waittime ∧ (s.board.info entry).waittime ≤ now)
      omega
    · rw [rep₂.board_eq, sem]
      intro nonneg entry member
      have left := (mem_filter.mp member).2
      rw [asking entry member]
      simp only [Block.elapsed, Bool.not_eq_true', decide_eq_false_iff_not] at left
      show ¬ (s.board.info entry).waittime < 0
      omega
    · rw [rep₂.board_eq, wait]
      exact leftWaiting_eq sorted few
    · rw [rep₂.board_eq, sem]
      rfl
    · intro entry member
      rw [times entry member]
      split at warps
      next soon =>
        have left : (s.info entry).waittime ≤ now + n := warps entry member
        exact iff_of_true soon (by omega)
      next late =>
        have left : now + n < (s.info entry).waittime := warps entry member
        exact iff_of_false late (by omega)

/-- One command waits until 15; at 20 `do_second` is in time, and so is @queue/warp. -/
theorem timely_smallGame : ∃ s,
    Machine.run (Server.step smallGame) (Server.init fun _ => 100)
      [.wait 2 2 10 5 "say hello" 0] = some s ∧ Timely smallGame s 20 30 :=
  ⟨_, rfl, (timely_iff smallGame (fun _ => 100) [.wait 2 2 10 5 "say hello" 0] _ rfl rfl
    20 30).mpr (by
      refine ⟨by decide, ?_⟩
      rw [if_pos (by decide)]
      decide)⟩

/-- Of two commands that wait until 15, `do_second` at 20 takes one. -/
theorem second_leaves_due_entry :
    ¬ ∀ (rules : Rules) (pennies : Dbref → Int) (ops : List Op) (s : Server),
        Machine.run (Server.step rules) (Server.init pennies) ops = some s →
          s.dequeue = true → ∀ now n, Timely rules s now n := by
  intro claimed
  obtain ⟨_, ⟨s', moved, none', _⟩, _⟩ := claimed smallGame (fun _ => 100)
    [.wait 2 2 10 5 "say hello" 0, .wait 2 2 10 5 "say bye" 0] _ rfl rfl 20 0
  have shown := congrArg
    (Option.map fun s => s.board.wait.map fun entry => (s.info entry).waittime) moved
  have ends : ((Machine.run (Server.step smallGame) (Server.init fun _ => 100)
      [.wait 2 2 10 5 "say hello" 0, .wait 2 2 10 5 "say bye" 0]).bind fun s =>
        (s.doSecond smallGame 20).map fun s =>
          s.board.wait.map fun entry => (s.info entry).waittime) = some [15] := by decide
  have left : s'.board.wait.map (fun entry => (s'.info entry).waittime) = [15] :=
    some.inj (shown.symm.trans ends)
  obtain ⟨entry, member, late⟩ := mem_map.mp (show (15 : Int) ∈ _ by rw [left]; simp)
  exact none' entry member (by omega)

end BattletechMux.Queue
