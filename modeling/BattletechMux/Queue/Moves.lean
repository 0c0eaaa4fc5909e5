/-
Module: BattletechMux.Queue.Moves
Purpose: What the functions of the queue can do to a board, in small moves: an entry is halted in
  place, leaves the wait or semaphore queue, is given to the player or object queue, or is new; the
  object queue goes behind the player queue; wait times are rewritten; other data changes.
-/
import Mathlib.Logic.Relation
import BattletechMux.Queue.Simulation

namespace BattletechMux.Queue

open Function (update)
open LinkedMemory (picked)

inductive Move (rules : Rules) : Board → Board → Prop where
  /-- Counts, money and flags change. -/
  | aside (b : Board) (core : Core) (info : core.info = b.info)
      (allocated : core.allocated = b.allocated) (live : core.live = b.live)
      (frames : core.frames = b.frames) (log : core.log = b.log) :
      Move rules b { b with toCore := core }
  /-- An entry that a queue of commands to be run holds is halted. -/
  | mark (b : Board) (entry : Addr) (member : entry ∈ b.player ++ b.object)
      (pending : (b.info entry).player ≠ none) :
      Move rules b
        { b with
          toCore := Core.note
            { b.toCore with info := update b.info entry { b.info entry with player := none } }
            (.ended entry .halted) }
  /-- An entry that waits is removed. -/
  | drop (b : Board) (lane : Lane) (before after : List Addr) (entry : Addr) (fate : Fate)
      (split : b.lane lane = before ++ entry :: after) (removed : fate ≠ .ran) :
      Move rules b
        (Board.setLane
          { b with toCore := (b.toCore.note (.ended entry fate)).release entry } lane
          (before ++ after))
  /-- An entry that waits is given to the player or object queue. -/
  | give (b : Board) (lane : Lane) (before after : List Addr) (entry : Addr)
      (sem : Option Dbref) (split : b.lane lane = before ++ entry :: after) :
      Move rules b
        (Board.setLane
          { b with
            toReady := Ready.giveQue rules
              { b.toReady with
                toCore :=
                  { b.toCore with info := update b.info entry { b.info entry with sem := sem } } }
              entry } lane (before ++ after))
  /-- A command is queued. -/
  | accept (b : Board) (player cause : Dbref) (comm : String) (now wait : Int)
      (sem : Option Dbref) (attr : Nat) :
      Move rules b
        (Board.enqueue rules
          { b with toCore := b.toCore.alloc (Board.entryOf player cause comm) }
          b.allocated now wait sem attr)
  | splice (b : Board) : Move rules b b.spliceObject
  | warp (b : Board) (i : Int) : Move rules b (b.warpTimes i)

/-- Whether an operation calls `do_top`. -/
def Op.callsTop : Op → Bool
  | .top _ | .kick _ => true
  | _ => false

abbrev Moves (rules : Rules) : Board → Board → Prop := Relation.ReflTransGen (Move rules)

section Invariants

variable {rules : Rules} {b b' : Board}

theorem Moves.invariant (inv : Board → Prop)
    (preserved : ∀ b b', Move rules b b' → inv b → inv b')
    (moves : Moves rules b b') (h : inv b) : inv b' := by
  induction moves with
  | refl => exact h
  | tail _ last ih => exact preserved _ _ last ih

theorem Moves.aside {core : Core} (info : core.info = b.info)
    (allocated : core.allocated = b.allocated) (live : core.live = b.live)
    (frames : core.frames = b.frames) (log : core.log = b.log) :
    Moves rules b { b with toCore := core } :=
  .single (.aside b core info allocated live frames log)

/-- Acting on an entry that has left its queue relates the boards before and after. -/
def Relates (related : Board → Board → Prop) (act : Ready → Addr → Ready) : Prop :=
  ∀ (b : Board) (lane : Lane) (before after : List Addr) (entry : Addr),
    b.lane lane = before ++ entry :: after →
      related b (Board.setLane { b with toReady := act b.toReady entry } lane (before ++ after))

variable {act : Ready → Addr → Ready}

theorem fold_info (info : ∀ r e o, o ≠ e → (act r e).info o = r.info o)
    {taken : List Addr} {o : Addr} (outside : o ∉ taken) (r : Ready) :
    (taken.foldl act r).info o = r.info o := by
  induction taken generalizing r with
  | nil => rfl
  | cons e rest ih =>
    rw [List.mem_cons, not_or] at outside
    exact (ih outside.2 (act r e)).trans (info r e o outside.1)

theorem sweepFrom_related {related : Board → Board → Prop} (refl : ∀ b, related b b)
    (trans : ∀ {b b' b''}, related b b' → related b' b'' → related b b'')
    (acting : Relates related act)
    (want : Addr → Bool) (hlt : Nat → Bool) (num : Nat) {lane : Lane}
    {before rest : List Addr} (split : b.lane lane = before ++ rest) :
    related b
      (Board.setLane
        { b with toReady := (picked want hlt num rest).1.foldl act b.toReady } lane
        (before ++ (picked want hlt num rest).2)) := by
  have eq : ∀ b : Board, ∀ entries, b.lane lane = entries →
      Board.setLane { b with toReady := b.toReady } lane entries = b := by
    rintro b entries rfl
    exact Board.setLane_lane lane
  induction rest generalizing b before num with
  | nil =>
    rw [picked, List.foldl_nil, eq b _ split]
    exact refl b
  | cons e rest ih =>
    have gone := acting b lane before rest e split
    have again : Board.lane
        (Board.setLane { b with toReady := act b.toReady e } lane (before ++ rest)) lane =
          before ++ rest := Board.lane_setLane ..
    have passed : b.lane lane = (before ++ [e]) ++ rest := by simp [split]
    cases wanted : want e with
    | false =>
      simp only [picked, wanted, Bool.false_eq_true, if_false]
      cases full : hlt num with
      | true =>
        simp only [if_true, List.foldl_nil]
        rw [eq b _ split]
        exact refl b
      | false => simpa using ih num passed
    | true =>
      simp only [picked, wanted, if_true]
      cases full : hlt (num + 1) with
      | true => simpa using gone
      | false =>
        have later := ih (num + 1) again
        refine trans gone ?_
        simp only [Bool.false_eq_true, if_false, List.foldl_cons]
        cases lane <;> exact later

theorem sweep_related {related : Board → Board → Prop} (refl : ∀ b, related b b)
    (trans : ∀ {b b' b''}, related b b' → related b' b'' → related b b'')
    (acting : Relates related act) (b : Board) (lane : Lane)
    (want : Block → Bool) (hlt : Nat → Bool) (num : Nat) :
    related b (b.sweep lane want act hlt num).2 :=
  sweepFrom_related refl trans acting (fun e => want (b.info e)) hlt num
    (List.nil_append _).symm

/-- Acting on an entry that has left its queue is a sequence of moves. -/
def Acting (rules : Rules) (act : Ready → Addr → Ready) : Prop :=
  ∀ (b : Board) (lane : Lane) (before after : List Addr) (entry : Addr),
    b.lane lane = before ++ entry :: after →
      Moves rules b
        (Board.setLane { b with toReady := act b.toReady entry } lane (before ++ after))

theorem sweep_moves (acting : Acting rules act) (b : Board)
    (lane : Lane) (want : Block → Bool) (hlt : Nat → Bool) (num : Nat) :
    Moves rules b (b.sweep lane want act hlt num).2 :=
  sweep_related (fun _ => .refl) Relation.ReflTransGen.trans acting b lane want hlt num

theorem drop_acting {fate : Fate} (removed : fate ≠ .ran) :
    Acting rules (Ready.dropAfter fun core e => core.note (.ended e fate)) :=
  fun b lane before after e split =>
    .single (.drop b lane before after e fate split removed)

theorem Acting.after (acting : Acting rules act) (change : Core → Addr → Core) (kept : ∀ core e,
      (change core e).info = core.info ∧ (change core e).allocated = core.allocated ∧
        (change core e).live = core.live ∧ (change core e).frames = core.frames ∧
          (change core e).log = core.log) :
    Acting rules fun r e => act { r with toCore := change r.toCore e } e := by
  intro b lane before after e split
  obtain ⟨info, allocated, live, frames, log⟩ := kept b.toCore e
  have changed : Moves rules b { b with toCore := change b.toCore e } :=
    .aside info allocated live frames log
  have split' : Board.lane { b with toCore := change b.toCore e } lane =
      before ++ e :: after := by
    cases lane <;> exact split
  refine changed.trans ?_
  have acted := acting _ lane before after e split'
  cases lane <;> exact acted

theorem haltWait_acting : Acting rules (Ready.dropAfter Core.haltWait) := drop_acting (by decide)

theorem haltSem_acting : Acting rules (Ready.dropAfter Core.haltSem) :=
  (drop_acting (by decide)).after (fun c e => c.addTo (c.info e).sem (-1) (c.info e).attr)
    fun _ _ => ⟨rfl, rfl, rfl, rfl, rfl⟩

theorem drain_acting : Acting rules (Ready.dropAfter (Core.drain rules)) := by
  refine (drop_acting (by decide)).after
    (fun c e => (c.giveto rules (c.info e).player rules.waitcost).aQueue rules
      (rules.ownerOf (c.info e).player) (-1)) fun core e => ?_
  dsimp only [Core.aQueue]
  rw [sQueue_eq, giveto_eq]
  exact ⟨rfl, rfl, rfl, rfl, rfl⟩

theorem give_acting (sem : Block → Option Dbref) :
    Acting rules (Ready.giveAfter rules fun c e =>
      { c with info := update c.info e { c.info e with sem := sem (c.info e) } }) :=
  fun b lane before after e split =>
    .single (.give b lane before after e (sem (b.info e)) split)

theorem same_acting : Acting rules (Ready.giveAfter rules fun core _ => core) := by
  have given := @give_acting rules Block.sem
  simpa only [Function.update_eq_self] using given

theorem expire_acting : Acting rules (Ready.giveAfter rules Core.expire) :=
  (give_acting fun _ => none).after
    (fun c e => c.addTo (c.info e).sem (-1) (c.info e).attr)
    fun _ _ => ⟨rfl, rfl, rfl, rfl, rfl⟩

theorem markFrom_moves (player object : Option Dbref) {entries : List Addr}
    (hin : ∀ e ∈ entries, e ∈ b.player ++ b.object) (num : Nat) :
    Moves rules b
      { b with toCore := (entries.foldl (Core.mark rules player object) (num, b.toCore)).2 } := by
  induction entries generalizing b num with
  | nil => exact .refl
  | cons e rest ih =>
    have one : Moves rules b
        { b with toCore := (Core.mark rules player object (num, b.toCore) e).2 } := by
      simp only [Core.mark]
      split
      · cases pending : (b.info e).player with
        | none =>
          have eq : { b.info e with player := none } = b.info e := by
            rw [← pending]
          simp only [if_true, eq, Function.update_eq_self]
          exact .refl
        | some _ =>
          simp only [reduceCtorEq, if_false]
          exact .single (.mark b e (hin e (by simp)) (by simp [pending]))
      · exact .refl
    have later := ih
      (b := { b with toCore := (Core.mark rules player object (num, b.toCore) e).2 })
      (fun o mem => hin o (by simp [mem]))
      (Core.mark rules player object (num, b.toCore) e).1
    exact one.trans later

theorem haltQue_moves (rules : Rules) (b : Board) (player object : Option Dbref) :
    Moves rules b (b.haltQue rules player object).2 := by
  have marked : Moves rules b (b.mark rules player object).2 :=
    markFrom_moves player object (fun _ mem => mem) 0
  have settled : ∀ (b : Board) (num : Nat),
      Moves rules b { b with toCore := b.toCore.haltSettle rules player object num } := by
    intro b num
    refine Moves.aside ?_ ?_ ?_ ?_ ?_ <;> rw [haltSettle_eq]
  exact marked.trans ((sweep_moves haltWait_acting _ .wait _ _ _).trans
    ((sweep_moves haltSem_acting _ .sem _ _ _).trans (settled _ _)))

theorem nfyQue_moves (rules : Rules) (b : Board) (sem : Dbref) (attr : Nat) (key : NotifyKey)
    (count : Int) : Moves rules b (b.nfyQue rules sem attr key count).2 := by
  have settled : ∀ b : Board,
      Moves rules b { b with toCore := b.toCore.nfySettle sem attr key count } := by
    intro b
    refine .aside ?_ ?_ ?_ ?_ ?_ <;> rw [nfySettle_eq]
  have acting : Acting rules
      (if key = .drain then Ready.dropAfter (Core.drain rules)
        else Ready.giveAfter rules fun c _ => c) := by
    split
    · exact drain_acting
    · exact same_acting
  unfold Board.nfyQue
  dsimp only
  by_cases waiting : 0 < (if attr ≠ 0 then b.semaphore (some sem) attr else 1)
  · rw [if_pos waiting]
    exact (sweep_moves acting ..).trans (settled _)
  · rw [if_neg waiting]
    exact settled b

/-- What it costs to queue a command: the deposit, and at times a penny. -/
def Rules.fee (rules : Rules) (draw : Nat) : Int :=
  rules.waitcost + if rules.machinecost ≠ 0 ∧ draw % rules.machinecost = 0 then 1 else 0

/-- What `setup_que` can do: it refuses the command of an object that is halted or cannot
pay, halts an owner who has too many commands queued, or fills a block. -/
inductive SetupStep (rules : Rules) (b : Board) (player cause : Dbref) (comm : String)
    (draw : Nat) : Option Addr × Board → Prop where
  | refused (why : b.halted player = true ∨ b.payfor rules player (rules.fee draw) = none) :
      SetupStep rules b player cause comm draw (none, b)
  | overflowed {paid : Core} (heeds : b.halted player = false)
      (pays : b.payfor rules player (rules.fee draw) = some paid)
      (many : rules.queueMax (rules.owner player) <
        (paid.aQueue rules (rules.owner player) 1).queued rules (rules.owner player)) :
      SetupStep rules b player cause comm draw
        (none,
          { (Board.haltQue rules { b with toCore := paid.aQueue rules (rules.owner player) 1 }
              (some (rules.owner player)) none).2 with
            halted := update
              (Board.haltQue rules { b with toCore := paid.aQueue rules (rules.owner player) 1 }
                (some (rules.owner player)) none).2.halted player true })
  | accepted {paid : Core} (heeds : b.halted player = false)
      (pays : b.payfor rules player (rules.fee draw) = some paid)
      (few : ¬ rules.queueMax (rules.owner player) <
        (paid.aQueue rules (rules.owner player) 1).queued rules (rules.owner player)) :
      SetupStep rules b player cause comm draw
        (some (paid.aQueue rules (rules.owner player) 1).allocated,
          { b with
            toCore := (paid.aQueue rules (rules.owner player) 1).alloc
              (Board.entryOf player cause comm) })

theorem setupQue_cases (rules : Rules) (b : Board) (player cause : Dbref) (comm : String)
    (draw : Nat) :
    SetupStep rules b player cause comm draw (b.setupQue rules player cause comm draw) := by
  unfold Board.setupQue
  cases halted : b.halted player with
  | true => exact .refused (.inl halted)
  | false =>
    rw [if_neg Bool.false_ne_true]
    dsimp only
    cases pays : b.payfor rules player _ with
    | none => exact .refused (.inr pays)
    | some paid =>
      dsimp only
      split
      · exact .overflowed halted pays ‹_›
      · exact .accepted halted pays ‹_›

theorem paid_moves {player : Dbref} {cost : Int} {paid : Core}
    (pays : b.payfor rules player cost = some paid) :
    Moves rules b { b with toCore := paid.aQueue rules (rules.owner player) 1 } := by
  refine .aside ?_ ?_ ?_ ?_ ?_ <;> rw [Core.aQueue, sQueue_eq, payfor_keeps pays]

theorem setupQue_moves (rules : Rules) (b : Board) (player cause : Dbref) (comm : String)
    (draw : Nat) :
    (b.setupQue rules player cause comm draw).1 = none ∧
        Moves rules b (b.setupQue rules player cause comm draw).2 ∨
      ∃ core : Core, Moves rules b { b with toCore := core } ∧
        b.setupQue rules player cause comm draw =
          (some core.allocated,
            { b with toCore := core.alloc (Board.entryOf player cause comm) }) := by
  have step := setupQue_cases rules b player cause comm draw
  cases made : b.setupQue rules player cause comm draw with
  | mk point b' =>
    rw [made] at step
    cases step with
    | refused => exact .inl ⟨rfl, .refl⟩
    | overflowed _ pays =>
      exact .inl ⟨rfl, ((paid_moves pays).trans (haltQue_moves ..)).trans
        (Moves.aside rfl rfl rfl rfl rfl)⟩
    | accepted _ pays => exact .inr ⟨_, paid_moves pays, rfl⟩

theorem waitQue_moves (rules : Rules) (b : Board) (player cause : Dbref) (now wait : Int)
    (sem : Option Dbref) (attr : Nat) (comm : String) (draw : Nat) :
    Moves rules b (b.waitQue rules player cause now wait sem attr comm draw) := by
  unfold Board.waitQue
  cases b.interp with
  | false => exact .refl
  | true =>
    simp only [Bool.not_true, Bool.false_eq_true, if_false]
    rcases setupQue_moves rules b player cause comm draw with ⟨refused, moves⟩ | ⟨core, moves, made⟩
    · cases made : b.setupQue rules player cause comm draw with
      | mk point b' =>
        rw [made] at refused moves
        cases (show point = none from refused)
        exact moves
    · rw [made]
      exact moves.tail (.accept _ player cause comm now wait sem attr)

theorem doWait_moves (rules : Rules) (b : Board) (player cause : Dbref) (now howlong : Int)
    (thing : Dbref) (attr : Nat) (comm : String) (draw : Nat) :
    Moves rules b (b.doWait rules player cause now howlong thing attr comm draw) := by
  have counted : Moves rules b { b with toCore := b.toCore.addTo (some thing) 1 attr } :=
    .aside rfl rfl rfl rfl rfl
  simp only [Board.doWait]
  split
  · exact counted.trans (waitQue_moves ..)
  · exact counted.trans (waitQue_moves ..)

theorem waitLoop_moves (rules : Rules) (b : Board) (now : Int) :
    Moves rules b (b.waitLoop rules now) := by
  unfold Board.waitLoop
  cases entries : b.wait with
  | nil => exact .refl
  | cons point rest =>
    dsimp only
    split
    · exact same_acting b .wait [] rest point entries
    · exact .refl

theorem doSecond_moves (rules : Rules) (b : Board) (now : Int) :
    Moves rules b (b.doSecond rules now) := by
  unfold Board.doSecond
  split
  · exact .refl
  · exact (Relation.ReflTransGen.single (.splice b)).trans
      ((waitLoop_moves rules _ now).trans (sweep_moves expire_acting ..))

theorem call_moves (rules : Rules) (b : Board) {op : Op} (o : op.callsTop = false) :
    Moves rules b (b.call rules op) := by
  cases op with
  | wait => exact waitQue_moves ..
  | semWait =>
    simp only [Board.call]
    split
    · exact .refl
    · exact doWait_moves ..
  | notify =>
    simp only [Board.call, Board.doNotify]
    split
    · exact .refl
    · split
      · exact nfyQue_moves ..
      · exact .refl
  | halt => exact haltQue_moves ..
  | destroy obj =>
    exact (haltQue_moves rules b none (some obj)).trans
      ((nfyQue_moves rules _ obj 0 .drain 0).trans (Moves.aside rfl rfl rfl rfl rfl))
  | second now => exact doSecond_moves rules b now
  | warp i now =>
    exact (Relation.ReflTransGen.single (.warp b i)).trans
      ((doSecond_moves rules _ now).trans (Moves.aside rfl rfl rfl rfl rfl))
  | top => cases o
  | kick => cases o
  | next => exact .refl
  | done => exact .refl
  | setHalted => exact .aside rfl rfl rfl rfl rfl
  | setGoing => exact .aside rfl rfl rfl rfl rfl
  | setControl => exact .aside rfl rfl rfl rfl rfl

variable {before after : List Addr}

theorem Board.setLane_all (lane : Lane) {e : Addr}
    (split : b.lane lane = before ++ e :: after) :
    b.all.Perm (e :: (b.setLane lane (before ++ after)).all) := by
  cases lane with
  | wait =>
    have entries : b.wait = before ++ e :: after := split
    simp only [Board.all, Board.setLane, entries]
    grind
  | sem =>
    have entries : b.sem = before ++ e :: after := split
    simp only [Board.all, Board.setLane, entries]
    grind

theorem Board.setLane_waits (lane : Lane) {e o : Addr}
    (split : b.lane lane = before ++ e :: after)
    (mem : o ∈ (b.setLane lane (before ++ after)).wait ∨
      o ∈ (b.setLane lane (before ++ after)).sem) : o ∈ b.wait ∨ o ∈ b.sem := by
  cases lane with
  | wait =>
    refine mem.imp (fun inLane => ?_) id
    rw [show b.wait = _ from split]
    exact (List.sublist_cons_self e after).append_left before |>.subset inLane
  | sem =>
    refine mem.imp id fun inLane => ?_
    rw [show b.sem = _ from split]
    exact (List.sublist_cons_self e after).append_left before |>.subset inLane

theorem Board.waits_of_lane (lane : Lane) {e : Addr}
    (split : b.lane lane = before ++ e :: after) : e ∈ b.wait ∨ e ∈ b.sem := by
  cases lane with
  | wait => exact .inl (by rw [show b.wait = _ from split]; simp)
  | sem => exact .inr (by rw [show b.sem = _ from split]; simp)

theorem giveQue_all (rules : Rules) (b : Board) (e : Addr) :
    (Board.all { b with toReady := b.toReady.giveQue rules e }).Perm (e :: b.all) := by
  simp only [Ready.giveQue]
  split <;> simp only [Board.all] <;> grind

theorem giveQue_core (r : Ready) (e : Addr) :
    (r.giveQue rules e).toCore =
      if rules.isPlayer (r.info e).cause then (r.toCore.setWaittime e 0).note (.put e)
      else r.toCore.setWaittime e 0 := by
  simp only [Ready.giveQue, Core.setWaittime, Function.update_self]
  split <;> rfl

theorem place_all (b : Board) (passed : Addr → Bool) (e : Addr) :
    (Board.all
      { b with wait := b.wait.takeWhile passed ++ e :: b.wait.dropWhile passed }).Perm
        (e :: b.all) := by
  obtain ⟨before, after, split⟩ : ∃ before after, b.wait = before ++ after ∧
      b.wait.takeWhile passed = before ∧ b.wait.dropWhile passed = after :=
    ⟨_, _, (List.takeWhile_append_dropWhile ..).symm, rfl, rfl⟩
  simp only [Board.all, split.2.1, split.2.2]
  rw [split.1]
  grind

theorem enqueue_all (b : Board) (e : Addr) (now wait : Int) (sem : Option Dbref)
    (attr : Nat) : (b.enqueue rules e now wait sem attr).all.Perm (e :: b.all) := by
  cases sem with
  | some sem =>
    simp only [Board.enqueue, Board.all]
    grind
  | none =>
    by_cases direct : wait ≤ 0
    · simp only [Board.enqueue, if_pos direct]
      exact giveQue_all rules { b with toCore := b.toCore.fill e now wait none attr } e
    · simp only [Board.enqueue, if_neg direct]
      exact place_all { b with toCore := b.toCore.fill e now wait none attr } _ e

theorem enqueue_waits {e o : Addr} {now wait : Int} {sem : Option Dbref} {attr : Nat}
    (mem : o ∈ (b.enqueue rules e now wait sem attr).wait ∨
      o ∈ (b.enqueue rules e now wait sem attr).sem) :
    o = e ∨ o ∈ b.wait ∨ o ∈ b.sem := by
  cases sem with
  | some sem =>
    simp only [Board.enqueue, List.mem_append, List.mem_singleton] at mem
    grind
  | none =>
    by_cases direct : wait ≤ 0
    · simp only [Board.enqueue, if_pos direct] at mem
      exact .inr mem
    · simp only [Board.enqueue, if_neg direct, List.mem_append, List.mem_cons] at mem
      rcases mem with (before | rfl | after) | inSem
      · exact .inr (.inl (List.takeWhile_subset _ before))
      · exact .inl rfl
      · exact .inr (.inl (List.dropWhile_subset _ after))
      · exact .inr (.inr inSem)

theorem giveQue_memory (rules : Rules) (r : Ready) (e : Addr) :
    (r.giveQue rules e).live = r.live ∧
      (r.giveQue rules e).allocated = r.allocated := by
  rw [giveQue_core]
  split <;> exact ⟨rfl, rfl⟩

theorem enqueue_memory (rules : Rules) (b : Board) (e : Addr) (now wait : Int)
    (sem : Option Dbref) (attr : Nat) :
    (b.enqueue rules e now wait sem attr).live = b.live ∧
      (b.enqueue rules e now wait sem attr).allocated = b.allocated := by
  cases sem with
  | some sem => exact ⟨rfl, rfl⟩
  | none =>
    by_cases direct : wait ≤ 0
    · simp only [Board.enqueue, if_pos direct]
      exact giveQue_memory rules
        { b.toReady with toCore := b.toCore.fill e now wait none attr } e
    · simp only [Board.enqueue, if_neg direct]
      exact ⟨rfl, rfl⟩

theorem Move.tidy (move : Move rules b b') (tidy : b.Tidy []) : b'.Tidy [] := by
  cases move with
  | aside core info allocated live frames log =>
    exact tidy.of_perm (List.Perm.refl _) live allocated
  | mark e mem pending => exact tidy.of_perm (List.Perm.refl _) rfl rfl
  | drop lane before after e fate split removed =>
    have perm := Board.setLane_all lane split
    have kept : Board.Tidy
        { b.setLane lane (before ++ after) with
          toCore := (b.toCore.note (.ended e fate)).release e } [] :=
      tidy.gone perm rfl rfl
    cases lane <;> exact kept
  | give lane before after e sem split =>
    have perm := Board.setLane_all lane split
    have memory := giveQue_memory rules
      { b.toReady with
        toCore := { b.toCore with info := update b.info e { b.info e with sem := sem } } }
      e
    have kept : Board.Tidy
        { b.setLane lane (before ++ after) with
          toReady := Ready.giveQue rules
            { b.toReady with
              toCore :=
                { b.toCore with info := update b.info e { b.info e with sem := sem } } }
            e } [] := by
      refine tidy.of_perm ?_ memory.1 memory.2
      have joined := giveQue_all rules
        { b.setLane lane (before ++ after) with
          toReady :=
            { b.toReady with
              toCore :=
                { b.toCore with
                  info := update b.info e { b.info e with sem := sem } } } } e
      rw [List.append_nil, List.append_nil]
      refine List.Perm.trans ?_ perm.symm
      cases lane <;> exact joined
    cases lane <;> exact kept
  | accept player cause comm now wait sem attr =>
    obtain ⟨live, allocated⟩ := enqueue_memory rules
      { b with toCore := b.toCore.alloc (Board.entryOf player cause comm) } b.allocated now wait
      sem attr
    refine tidy.born ?_ live allocated
    rw [List.append_nil]
    exact enqueue_all _ b.allocated now wait sem attr
  | splice =>
    refine tidy.of_perm ?_ ?_ ?_ <;> simp only [Board.spliceObject, puts_eq]
    simp [Board.all]
  | warp i =>
    refine tidy.of_perm (List.Perm.refl _) ?_ ?_ <;> rw [Board.warpTimes_eq]

/-- What the loop of `do_top` does when it goes on: it returns, drops an entry that has
no player any more, throws one away whose object is going or halted, or starts one. -/
inductive TopStep (rules : Rules) (b : Board) (frame : Frame) (outer : List Frame) :
    Board → Prop where
  | returned : TopStep rules b frame outer (b.topReturn frame outer)
  | skipped {head : Addr} {rest : List Addr} {b' : Board} (players : b.player = head :: rest)
      (finished : (b.info head).player = none) (popped : b.topPop frame outer = some b') :
      TopStep rules b frame outer b'
  | gone {head : Addr} {rest : List Addr} {player : Dbref} {b' : Board}
      (players : b.player = head :: rest) (pending : (b.info head).player = some player)
      (going : b.going player = true)
      (popped : Board.topPop { b with toCore := b.toCore.note (.ended head .discarded) } frame
        outer = some b') : TopStep rules b frame outer b'
  | held {head : Addr} {rest : List Addr} {player : Dbref} {b' : Board}
      (players : b.player = head :: rest) (pending : (b.info head).player = some player)
      (popped : Board.topPop
        { b with toCore := (b.toCore.take rules head player).note (.ended head .discarded) }
        frame outer = some b') : TopStep rules b frame outer b'
  | started {head : Addr} {rest : List Addr} {player : Dbref}
      (players : b.player = head :: rest) (pending : (b.info head).player = some player) :
      TopStep rules b frame outer
        { b with
          toCore :=
            { (b.toCore.take rules head player).note (.ended head .ran) with
              frames := { frame with running := true } :: outer } }

theorem topNext_cases {frame : Frame} {outer : List Frame}
    (went : b.topNext rules frame outer = some b') : TopStep rules b frame outer b' := by
  unfold Board.topNext at went
  cases players : b.player with
  | nil =>
    simp only [players, Option.some.injEq] at went
    exact went ▸ .returned
  | cons head rest =>
    simp only [players] at went
    by_cases ended : frame.left = 0
    · rw [if_pos ended, Option.some.injEq] at went
      exact went ▸ .returned
    · rw [if_neg ended] at went
      cases pending : (b.info head).player with
      | none =>
        rw [pending] at went
        exact .skipped players pending went
      | some player =>
        rw [pending] at went
        dsimp only at went
        rw [← players] at went
        split at went
        next going => exact .gone players pending going went
        next =>
          split at went
          · exact .held players pending went
          · rw [Option.some.injEq] at went
            exact went ▸ .started players pending

theorem Moves.tidy (moves : Moves rules b b') (tidy : b.Tidy []) : b'.Tidy [] :=
  moves.invariant (fun b => b.Tidy []) (fun _ _ => Move.tidy) tidy

end Invariants

end BattletechMux.Queue
