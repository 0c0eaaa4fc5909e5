/-
Module: BattletechMux.Queue.Deposits
Purpose: The counters and the deposits of the owners of queued commands.
-/
import BattletechMux.Queue.Semaphores

namespace BattletechMux.Queue

open List Option

open Function (update)
open LinkedMemory (picked picked_never)

structure Rules.Owned (rules : Rules) : Prop where
  player : ∀ obj, rules.isPlayer (rules.owner obj) = true
  own : ∀ obj, rules.isPlayer obj = true → rules.owner obj = obj
  god : rules.isPlayer rules.god = true

def Rules.owes (rules : Rules) (owner : Dbref) (player : Option Dbref) : Bool :=
  player.any fun player => rules.owner player = owner

def Rules.holds (rules : Rules) (owner : Dbref) (player : Option Dbref) : Bool :=
  player.any fun player => rules.owner player = owner ∧ rules.freeMoney (some player) = false

def Board.tally (b : Board) (mine : Option Dbref → Bool) : Nat :=
  b.all.countP fun entry => mine (b.info entry).player

/-- Counters count the entries still to be run, and money and deposits together are the
funds. -/
structure Settled (rules : Rules) (b : Board) (funds : Dbref → Int) : Prop where
  counter : ∀ owner, b.queue owner = b.tally (rules.owes owner)
  money : ∀ owner,
    b.pennies owner + rules.waitcost * b.tally (rules.holds owner) = funds owner
  waiting : ∀ entry, entry ∈ b.wait ∨ entry ∈ b.sem → (b.info entry).player ≠ none

section Accounts

variable {rules : Rules} {b b' : Board} {funds : Dbref → Int}

theorem tally_perm (perm : b'.all.Perm b.all)
    (player : ∀ e ∈ b.all, (b'.info e).player = (b.info e).player)
    (mine : Option Dbref → Bool) : b'.tally mine = b.tally mine := by
  unfold Board.tally
  rw [perm.countP_eq]
  exact countP_congr fun e mem => by rw [player e mem]

theorem tally_cons {e : Addr} (perm : b.all.Perm (e :: b'.all))
    (player : ∀ o ∈ b'.all, (b'.info o).player = (b.info o).player)
    (mine : Option Dbref → Bool) :
    b.tally mine = b'.tally mine + if mine (b.info e).player then 1 else 0 := by
  have rest : b'.tally mine = b'.all.countP fun o => mine (b.info o).player :=
    countP_congr fun o mem => by rw [player o mem]
  rw [rest, Board.tally, perm.countP_eq, countP_cons]

theorem Settled.of_perm (settled : Settled rules b funds) (perm : b'.all.Perm b.all)
    (player : ∀ e ∈ b.all, (b'.info e).player = (b.info e).player)
    (queue : b'.queue = b.queue) (pennies : b'.pennies = b.pennies)
    (waits : ∀ e, e ∈ b'.wait ∨ e ∈ b'.sem → e ∈ b.wait ∨ e ∈ b.sem) :
    Settled rules b' funds where
  counter owner := by
    rw [queue, tally_perm perm player]
    exact settled.counter owner
  money owner := by
    rw [pennies, tally_perm perm player]
    exact settled.money owner
  waiting e mem := by
    have pre := waits e mem
    rw [player e (by rcases pre with inWait | inSem <;> simp [Board.all, *])]
    exact settled.waiting e pre

theorem giveto_pennies (core : Core) (player : Dbref) (amount : Int) (owner : Dbref) :
    (core.giveto rules (some player) amount).pennies owner =
      core.pennies owner + if rules.holds owner (some player) then amount else 0 := by
  unfold Core.giveto Rules.holds
  cases free : rules.freeMoney (some player) with
  | true => simp [free]
  | false =>
    by_cases eq : rules.owner player = owner
    · simp [Rules.ownerOf, eq, free]
    · simp [Rules.ownerOf, eq, Ne.symm eq]

theorem aQueue_queue (core : Core) {player : Dbref} (is : rules.isPlayer player = true) (adj : Int)
    (owner : Dbref) :
    (core.aQueue rules player adj).queue owner =
      core.queue owner + if player = owner then adj else 0 := by
  unfold Core.aQueue Core.sQueue
  rw [if_pos is]
  by_cases eq : player = owner
  · simp [eq]
  · simp [eq, Ne.symm eq]

theorem payfor_pennies {core paid : Core} {player : Dbref} {cost : Int}
    (pays : core.payfor rules player cost = some paid) (owner : Dbref) :
    paid.pennies owner =
      core.pennies owner - if rules.holds owner (some player) then cost else 0 := by
  unfold Core.payfor at pays
  unfold Rules.holds
  cases free : rules.freeMoney (some player) with
  | true =>
    rw [free, if_pos rfl, Option.some.injEq] at pays
    simp [pays, free]
  | false =>
    rw [free, if_neg Bool.false_ne_true] at pays
    dsimp only at pays
    split at pays
    · rw [Option.some.injEq] at pays
      by_cases eq : rules.owner player = owner
      · simp [← pays, eq, free]
      · simp [← pays, eq, Ne.symm eq]
    · cases pays

theorem Settled.refunded (owned : rules.Owned) (settled : Settled rules b funds) {player : Dbref}
    (less : ∀ mine : Option Dbref → Bool, mine none = false →
      b.tally mine = b'.tally mine + if mine (some player) then 1 else 0)
    (queue : ∀ owner, b'.queue owner =
      ((b.toCore.giveto rules (some player) rules.waitcost).aQueue rules
        (rules.owner player) (-1)).queue owner)
    (pennies : ∀ owner, b'.pennies owner =
      (b.toCore.giveto rules (some player) rules.waitcost).pennies owner)
    (waiting : ∀ e, e ∈ b'.wait ∨ e ∈ b'.sem → (b'.info e).player ≠ none) :
    Settled rules b' funds where
  counter owner := by
    have pre := settled.counter owner
    have tally := less (rules.owes owner) rfl
    have eq : rules.owes owner (some player) = decide (rules.owner player = owner) := rfl
    rw [queue, aQueue_queue _ (owned.player player), giveto_eq]
    rw [eq] at tally
    by_cases is : rules.owner player = owner <;> simp [is] at tally ⊢ <;> omega
  money owner := by
    have pre := settled.money owner
    have tally := less (rules.holds owner) rfl
    rw [pennies, giveto_pennies, ← pre, tally]
    split
    · rw [Nat.cast_add, Int.mul_add]
      simp only [Nat.cast_one, Int.mul_one]
      omega
    · simp
  waiting := waiting

theorem markFrom_spec (rules : Rules) (player object : Option Dbref) {entries : List Addr}
    (nodup : entries.Nodup) (num : Nat) (core : Core) :
    (entries.foldl (Core.mark rules player object) (num, core)).1 =
        num + entries.countP (fun e => rules.queWant player object (core.info e)) ∧
      (∀ e, ((entries.foldl (Core.mark rules player object) (num, core)).2.info e).player =
        if e ∈ entries ∧ rules.queWant player object (core.info e) then none
        else (core.info e).player) ∧
      (∀ e ∉ entries, (entries.foldl (Core.mark rules player object) (num, core)).2.info e =
        core.info e) ∧
      (entries.foldl (Core.mark rules player object) (num, core)).2.queue = core.queue ∧
      (entries.foldl (Core.mark rules player object) (num, core)).2.pennies = core.pennies := by
  induction entries generalizing num core with
  | nil => simp
  | cons fst rest ih =>
    obtain ⟨notLater, distinct⟩ := nodup_cons.mp nodup
    have others : ∀ e, e ≠ fst →
        (Core.mark rules player object (num, core) fst).2.info e = core.info e := by
      intro e ne
      simp only [Core.mark]
      split
      · split <;> simp [Core.note, ne]
      · rfl
    have one : (Core.mark rules player object (num, core) fst).1 =
          num + (if rules.queWant player object (core.info fst) then 1 else 0) ∧
        ((Core.mark rules player object (num, core) fst).2.info fst).player =
          (if rules.queWant player object (core.info fst) then none
          else (core.info fst).player) ∧
        (Core.mark rules player object (num, core) fst).2.queue = core.queue ∧
        (Core.mark rules player object (num, core) fst).2.pennies = core.pennies := by
      simp only [Core.mark]
      split
      · refine ⟨rfl, ?_, ?_, ?_⟩ <;> split <;> simp [Core.note]
      · exact ⟨rfl, rfl, rfl, rfl⟩
    obtain ⟨count, gone, left, queue, pennies⟩ := ih distinct
      (Core.mark rules player object (num, core) fst).1
      (Core.mark rules player object (num, core) fst).2
    rw [Prod.eta] at count gone left queue pennies
    have wanted : rest.countP (fun e => rules.queWant player object
        ((Core.mark rules player object (num, core) fst).2.info e)) =
          rest.countP fun e => rules.queWant player object (core.info e) :=
      countP_congr fun e mem => by
        rw [others e fun eq => notLater (eq ▸ mem)]
    refine ⟨?_, fun e => ?_, fun e outside => ?_, queue.trans one.2.2.1,
      pennies.trans one.2.2.2⟩
    · rw [foldl_cons, count, one.1, wanted, countP_cons]
      omega
    · rw [foldl_cons, gone]
      by_cases eq : e = fst
      · subst eq
        simp only [notLater, false_and, if_false, mem_cons_self, true_and]
        exact one.2.1
      · rw [others e eq]
        simp [eq]
    · rw [mem_cons, not_or] at outside
      rw [foldl_cons, left e outside.2, others e outside.1]

theorem taken_keeps {Part : Type} (part : Ready → Part) {act : Ready → Addr → Ready}
    (eq : ∀ r e, part (act r e) = part r) (taken : List Addr) (r : Ready) :
    part (taken.foldl act r) = part r := by
  induction taken generalizing r with
  | nil => rfl
  | cons e rest ih =>
    exact (ih (act r e)).trans (eq r e)

/-- What `halt_que` does to the entries, the counters and the money: the wanted entries lose
their player or leave. -/
structure Halts (rules : Rules) (b b' : Board) (player object : Option Dbref) (num : Nat) :
    Prop where
  count : num = b.all.countP fun entry => rules.queWant player object (b.info entry)
  tally : ∀ mine : Option Dbref → Bool, mine none = false →
    b'.tally mine = b.all.countP fun entry =>
      mine (b.info entry).player && !rules.queWant player object (b.info entry)
  queue : b'.queue = (b.toCore.haltSettle rules player object num).queue
  pennies : b'.pennies = (b.toCore.haltSettle rules player object num).pennies
  waiting : ∀ entry, entry ∈ b'.wait ∨ entry ∈ b'.sem →
    (entry ∈ b.wait ∨ entry ∈ b.sem) ∧ b'.info entry = b.info entry

theorem sweep_drops (want : Block → Bool) {act : Ready → Addr → Ready} (b : Board) (lane : Lane)
    (num : Nat) (info : ∀ r entry, (act r entry).info = r.info)
    (queue : ∀ r entry, (act r entry).queue = r.queue)
    (pennies : ∀ r entry, (act r entry).pennies = r.pennies)
    (player : ∀ r entry, (act r entry).player = r.player)
    (object : ∀ r entry, (act r entry).object = r.object) :
    (b.sweep lane want act (fun _ => false) num).1 =
        num + (b.lane lane).countP (fun entry => want (b.info entry)) ∧
      (b.sweep lane want act (fun _ => false) num).2.lane lane =
        (b.lane lane).filter (fun entry => !want (b.info entry)) ∧
      (∀ o, o ≠ lane → (b.sweep lane want act (fun _ => false) num).2.lane o =
        b.lane o) ∧
      (b.sweep lane want act (fun _ => false) num).2.player = b.player ∧
      (b.sweep lane want act (fun _ => false) num).2.object = b.object ∧
      (b.sweep lane want act (fun _ => false) num).2.info = b.info ∧
      (b.sweep lane want act (fun _ => false) num).2.queue = b.queue ∧
      (b.sweep lane want act (fun _ => false) num).2.pennies = b.pennies := by
  have split := picked_never (fun point => want (b.info point)) num (b.lane lane)
  have parts : ∀ {Part : Type} (part : Ready → Part),
      (∀ r entry, part (act r entry) = part r) →
        part (((b.lane lane).filter fun entry => want (b.info entry)).foldl act b.toReady) =
          part b.toReady := fun part eq => taken_keeps part eq _ _
  unfold Board.sweep
  rw [split]
  refine ⟨by rw [countP_eq_length_filter], ?_, fun o ne => ?_, ?_⟩
  · cases lane <;> rfl
  · cases lane <;> cases o <;> first | rfl | exact absurd rfl ne
  · cases lane <;> exact ⟨parts Ready.player player, parts Ready.object object,
      parts (fun r => r.info) info, parts (fun r => r.queue) queue,
      parts (fun r => r.pennies) pennies⟩

theorem not_ready (tidy : b.Tidy []) {e : Addr} (mem : e ∈ b.wait ∨ e ∈ b.sem) :
    e ∉ b.player ++ b.object := by
  rw [mem_append, not_or]
  exact ⟨tidy.not_player (.inr (by grind)), tidy.not_object (by grind)⟩

theorem tally_halted (want : Block → Bool) {mine : Option Dbref → Bool} (none' : mine none = false)
    (player : b'.player = b.player) (object : b'.object = b.object)
    (wait : b'.wait = b.wait.filter fun e => !want (b.info e))
    (sem : b'.sem = b.sem.filter fun e => !want (b.info e))
    (ready : ∀ e ∈ b.player ++ b.object, (b'.info e).player =
      if want (b.info e) then none else (b.info e).player)
    (waits : ∀ e, e ∈ b.wait ∨ e ∈ b.sem → b'.info e = b.info e) :
    b'.tally mine = b.all.countP fun e =>
      mine (b.info e).player && !want (b.info e) := by
  have kept : ∀ entries : List Addr, (∀ e ∈ entries, b'.info e = b.info e) →
      (entries.filter fun e => !want (b.info e)).countP
          (fun e => mine (b'.info e).player) =
        entries.countP fun e => mine (b.info e).player && !want (b.info e) := by
    intro entries eq
    rw [countP_filter]
    exact countP_congr fun e mem => by rw [eq e mem]
  have marked : (b.player ++ b.object).countP (fun e => mine (b'.info e).player) =
      (b.player ++ b.object).countP fun e =>
        mine (b.info e).player && !want (b.info e) := by
    refine countP_congr fun e mem => ?_
    rw [ready e mem]
    cases wanted : want (b.info e) <;> simp [none']
  unfold Board.tally Board.all
  rw [player, object, wait, sem, countP_append, countP_append, marked,
    kept b.wait fun e mem => waits e (.inl mem),
    kept b.sem fun e mem => waits e (.inr mem), ← countP_append,
    ← countP_append]

theorem haltSettle_congr {core core' : Core} (queue : core.queue = core'.queue)
    (pennies : core.pennies = core'.pennies) (player object : Option Dbref) (num : Nat) :
    (core.haltSettle rules player object num).queue =
        (core'.haltSettle rules player object num).queue ∧
      (core.haltSettle rules player object num).pennies =
        (core'.haltSettle rules player object num).pennies := by
  simp only [Core.haltSettle, Core.giveto, Core.aQueue, Core.sQueue]
  split <;> split <;> split <;> simp [queue, pennies]

theorem haltQue_halts (rules : Rules) (tidy : b.Tidy []) (player object : Option Dbref) :
    Halts rules b (b.haltQue rules player object).2 player object
      (b.haltQue rules player object).1 := by
  have nodup : (b.player ++ b.object).Nodup := by
    have all := tidy.nodup
    rw [append_nil, Board.all, append_assoc] at all
    exact (nodup_append.mp all).1
  obtain ⟨count, gone, left, queue, pennies⟩ :=
    markFrom_spec rules player object nodup 0 b.toCore
  -- The two loops, one after the other.
  obtain ⟨marked, hm⟩ : ∃ marked, marked = (b.mark rules player object).2 := ⟨_, rfl⟩
  obtain ⟨count₂, wait₂, other₂, player₂, object₂, info₂, queue₂, pennies₂⟩ :=
    @sweep_drops (rules.queWant player object) (Ready.dropAfter Core.haltWait) marked .wait
      (b.mark rules player object).1 (fun _ _ => rfl) (fun _ _ => rfl) (fun _ _ => rfl)
      (fun _ _ => rfl) (fun _ _ => rfl)
  obtain ⟨swept, hs⟩ : ∃ swept, swept = marked.sweep .wait (rules.queWant player object)
    (Ready.dropAfter Core.haltWait) (fun _ => false) (b.mark rules player object).1 := ⟨_, rfl⟩
  rw [← hs] at count₂ wait₂ other₂ player₂ object₂ info₂ queue₂ pennies₂
  obtain ⟨count₃, sem₃, other₃, player₃, object₃, info₃, queue₃, pennies₃⟩ :=
    @sweep_drops (rules.queWant player object) (Ready.dropAfter Core.haltSem) swept.2 .sem
      swept.1 (fun _ _ => rfl) (fun _ _ => rfl) (fun _ _ => rfl) (fun _ _ => rfl) (fun _ _ => rfl)
  obtain ⟨last, hl⟩ : ∃ last, last = swept.2.sweep .sem (rules.queWant player object)
    (Ready.dropAfter Core.haltSem) (fun _ => false) swept.1 := ⟨_, rfl⟩
  rw [← hl] at count₃ sem₃ other₃ player₃ object₃ info₃ queue₃ pennies₃
  have halted : b.haltQue rules player object =
      (last.1, { last.2 with toCore := last.2.toCore.haltSettle rules player object last.1 }) := by
    rw [hl, hs, hm]
    rfl
  have info : last.2.info = marked.info := info₃.trans info₂
  have waits : ∀ e, e ∈ b.wait ∨ e ∈ b.sem → marked.info e = b.info e := by
    intro e mem
    rw [hm]
    exact left e (not_ready tidy mem)
  have markedWait : marked.wait = b.wait := by rw [hm]; rfl
  have markedSem : marked.sem = b.sem := by rw [hm]; rfl
  have wanted : ∀ entries : List Addr, (∀ e ∈ entries, e ∈ b.wait ∨ e ∈ b.sem) →
      entries.countP (fun e => rules.queWant player object (marked.info e)) =
        entries.countP fun e => rules.queWant player object (b.info e) := fun _ hin =>
    countP_congr fun e mem => by rw [waits e (hin e mem)]
  have kept : ∀ entries : List Addr, (∀ e ∈ entries, e ∈ b.wait ∨ e ∈ b.sem) →
      entries.filter (fun e => !rules.queWant player object (marked.info e)) =
        entries.filter fun e => !rules.queWant player object (b.info e) := fun _ hin =>
    filter_congr fun e mem => by rw [waits e (hin e mem)]
  have sweptSem : swept.2.sem = b.sem := (other₂ .sem (by decide)).trans markedSem
  have lastWait : last.2.wait = b.wait.filter fun e =>
      !rules.queWant player object (b.info e) := by
    have eq : last.2.wait = swept.2.wait := other₃ .wait (by decide)
    rw [eq, show swept.2.wait = _ from wait₂, show marked.lane .wait = b.wait from markedWait]
    exact kept b.wait fun e mem => .inl mem
  have lastSem : last.2.sem = b.sem.filter fun e =>
      !rules.queWant player object (b.info e) := by
    rw [show last.2.sem = _ from sem₃, show swept.2.lane .sem = b.sem from sweptSem, info₂]
    exact kept b.sem fun e mem => .inr mem
  have sameQueue : marked.queue = b.queue := by rw [hm]; exact queue
  have samePennies : marked.pennies = b.pennies := by rw [hm]; exact pennies
  have settledInfo : (last.2.toCore.haltSettle rules player object last.1).info = marked.info := by
    rw [haltSettle_eq]
    exact info
  rw [halted]
  constructor
  · rw [count₃, count₂, show swept.2.lane .sem = b.sem from sweptSem,
      show marked.lane .wait = b.wait from markedWait, info₂,
      wanted b.wait fun e mem => .inl mem, wanted b.sem fun e mem => .inr mem,
      Board.all, countP_append, countP_append]
    have fst : (b.mark rules player object).1 = _ := count
    rw [fst]
    omega
  · intro mine none'
    refine tally_halted _ none' ?_ ?_ lastWait lastSem (fun e mem => ?_) fun e mem => ?_
    · rw [show last.2.player = _ from player₃, player₂, hm]
      rfl
    · rw [show last.2.object = _ from object₃, object₂, hm]
      rfl
    · rw [show (last.2.toCore.haltSettle rules player object last.1).info = _ from settledInfo,
        hm]
      refine (gone e).trans ?_
      simp only [mem, true_and]
    · rw [show (last.2.toCore.haltSettle rules player object last.1).info = _ from settledInfo]
      exact waits e mem
  · exact (haltSettle_congr (queue₃.trans (queue₂.trans sameQueue))
      (pennies₃.trans (pennies₂.trans samePennies)) player object last.1).1
  · exact (haltSettle_congr (queue₃.trans (queue₂.trans sameQueue))
      (pennies₃.trans (pennies₂.trans samePennies)) player object last.1).2
  · intro e mem
    have pre : e ∈ b.wait ∨ e ∈ b.sem := by
      refine mem.imp (fun inWait => ?_) fun inSem => ?_
      · rw [show _ = last.2.wait from rfl, lastWait] at inWait
        exact (mem_filter.mp inWait).1
      · rw [show _ = last.2.sem from rfl, lastSem] at inSem
        exact (mem_filter.mp inSem).1
    refine ⟨pre, ?_⟩
    rw [show (last.2.toCore.haltSettle rules player object last.1).info = _ from settledInfo]
    exact waits e pre

/-- The object whose owner `halt_que` pays and whose counter it settles. -/
def haltTarget (rules : Rules) (player object : Option Dbref) : Dbref :=
  player.getD (rules.ownerOf object)

/-- Whether `halt_que` may pay its target for an entry: the target is the owner, and has
paid, or never pays. -/
def Block.refundable (rules : Rules) (target : Dbref) (entry : Block) : Bool :=
  match entry.player with
  | none => rules.waitcost = 0 ∨ rules.isFree target = true
  | some player => rules.owner player = target ∧
      (rules.waitcost = 0 ∨ rules.isFree target = true ∨ rules.freeMoney (some player) = false)

def Board.haltsCleanly (rules : Rules) (b : Board) (player object : Option Dbref) : Prop :=
  ∀ entry ∈ b.all, rules.queWant player object (b.info entry) = true →
    (b.info entry).refundable rules (haltTarget rules player object) = true

section Halting

variable {player object : Option Dbref} {num : Nat}

theorem Halts.split (halts : Halts rules b b' player object num) (mine : Option Dbref → Bool)
    (none' : mine none = false) :
    b.tally mine = b'.tally mine + b.all.countP fun e =>
      mine (b.info e).player && rules.queWant player object (b.info e) := by
  have whole := countP_eq_countP_filter_add b.all
    (fun e => mine (b.info e).player)
    (fun e => rules.queWant player object (b.info e))
  rw [countP_filter, countP_filter] at whole
  rw [halts.tally mine none', Board.tally, whole, Nat.add_comm]

theorem Halts.others (clean : b.haltsCleanly rules player object) (mine : Option Dbref → Bool)
    (o : ∀ obj, rules.owner obj = haltTarget rules player object → mine (some obj) = false)
    (none' : mine none = false) :
    (b.all.countP fun e =>
      mine (b.info e).player && rules.queWant player object (b.info e)) = 0 := by
  rw [countP_eq_zero]
  intro e mem both
  rw [Bool.and_eq_true] at both
  have able := clean e mem both.2
  unfold Block.refundable at able
  cases is : (b.info e).player with
  | none => simp [is, none'] at both
  | some obj =>
    rw [is] at able both
    have target : rules.owner obj = haltTarget rules player object := (of_decide_eq_true able).1
    rw [o obj target] at both
    exact absurd both.1 Bool.false_ne_true

theorem Halts.target (owned : rules.Owned) (halts : Halts rules b b' player object num) :
    rules.isPlayer (haltTarget rules player object) = true ∨ num = 0 := by
  have isOwner : ∀ who, rules.isPlayer (rules.ownerOf who) = true := fun who =>
    match who with
    | none => owned.god
    | some obj => owned.player obj
  cases player with
  | none => exact .inl (isOwner object)
  | some target =>
    refine or_iff_not_imp_left.mpr fun notPlayer => ?_
    rw [halts.count, countP_eq_zero]
    intro e _ wanted
    have owner : some target = some (rules.ownerOf (b.info e).player) := by
      by_contra ne
      simp [Rules.queWant, ne] at wanted
    exact notPlayer (some.inj owner ▸ isOwner _)

theorem queWant_object {obj : Dbref} {e : Block}
    (wanted : rules.queWant player (some obj) e = true) : e.player = some obj := by
  by_contra ne
  simp [Rules.queWant, Ne.symm ne] at wanted

theorem queWant_owner {e : Block}
    (mine : rules.owes (haltTarget rules player none) e.player = true) :
    rules.queWant player none e = true := by
  cases is : e.player with
  | none => simp [is, Rules.owes] at mine
  | some obj =>
    rw [is] at mine
    have owner : rules.owner obj = haltTarget rules player none := by
      simpa [Rules.owes] using mine
    cases player with
    | none => simp [Rules.queWant]
    | some target =>
      have eq : rules.ownerOf e.player = target := by
        rw [is]
        exact owner
      simp [Rules.queWant, eq]

theorem haltSettle_queue (core : Core) (owner : Dbref) :
    (core.haltSettle rules player object num).queue owner =
      if rules.isPlayer (haltTarget rules player object) = true ∧
          haltTarget rules player object = owner then
        if object = none then 0 else core.queue owner - num
      else core.queue owner := by
  simp only [Core.haltSettle, Core.aQueue, Core.sQueue, haltTarget]
  rw [giveto_eq]
  by_cases is : rules.isPlayer (player.getD (rules.ownerOf object)) = true
  · by_cases eq : player.getD (rules.ownerOf object) = owner
    · cases object <;> simp [eq, Int.sub_eq_add_neg] <;> simp_all
    · cases object <;> simp [is, eq, Ne.symm eq]
  · cases object <;> simp [is]

theorem haltSettle_pennies (core : Core) (owner : Dbref) :
    (core.haltSettle rules player object num).pennies owner =
      core.pennies owner +
        if rules.holds owner (some (haltTarget rules player object)) then rules.waitcost * num
        else 0 := by
  have settled : (core.haltSettle rules player object num).pennies =
      (core.giveto rules (some (haltTarget rules player object)) (rules.waitcost * num)).pennies := by
    simp only [Core.haltSettle, Core.aQueue, haltTarget]
    split <;> rw [sQueue_eq]
  rw [settled, giveto_pennies]

section

variable (owned : rules.Owned) (halts : Halts rules b b' player object num)
  (clean : b.haltsCleanly rules player object)
include owned halts clean

theorem Halts.counter {owner : Dbref} (counted : object = none ∧ rules.isPlayer owner = true ∧
        haltTarget rules player object = owner ∨ b.queue owner = b.tally (rules.owes owner)) :
    b'.queue owner = b'.tally (rules.owes owner) := by
  have split := halts.split (rules.owes owner) rfl
  rw [halts.queue, haltSettle_queue]
  by_cases eq : haltTarget rules player object = owner
  · cases object with
    | none =>
      -- All of the owner's entries are wanted.
      have all : b'.tally (rules.owes owner) = 0 := by
        rw [halts.tally (rules.owes owner) rfl, countP_eq_zero]
        intro e _ both
        rw [Bool.and_eq_true, ← eq] at both
        simp [queWant_owner both.1] at both
      rw [all]
      by_cases is : rules.isPlayer (haltTarget rules player none) = true
      · rw [if_pos ⟨is, eq⟩, if_pos rfl]
        rfl
      · have unowned : b.tally (rules.owes owner) = 0 := by
          rw [Board.tally, countP_eq_zero]
          intro e _ mine
          cases obj : (b.info e).player with
          | none => simp [obj, Rules.owes] at mine
          | some obj' =>
            have isOwner : rules.owner obj' = owner := by simpa [obj, Rules.owes] using mine
            exact is (eq ▸ isOwner ▸ owned.player obj')
        rw [if_neg fun both => is both.1]
        rcases counted with ⟨_, isOwner, _⟩ | counted
        · exact absurd (eq ▸ isOwner) is
        · rw [counted, unowned]
    | some obj =>
      have counted := counted.resolve_left fun all => by simp at all
      have wanted : (b.all.countP fun e => rules.owes owner (b.info e).player &&
          rules.queWant player (some obj) (b.info e)) = num := by
        rw [halts.count]
        refine countP_congr fun e mem => ?_
        rw [Bool.and_eq_true]
        refine and_iff_right_of_imp fun wanted => ?_
        have able := clean e mem wanted
        unfold Block.refundable at able
        rw [queWant_object wanted] at able ⊢
        have target := (of_decide_eq_true able).1
        simp [Rules.owes, target, eq]
      rw [wanted] at split
      rcases halts.target owned with is | none'
      · rw [if_pos ⟨is, eq⟩, if_neg (by simp)]
        omega
      · rw [if_neg (show ¬ some obj = none by simp)]
        split <;> omega
  · have off := Halts.others clean (rules.owes owner) (fun obj target => by
      simp [Rules.owes, target, eq]) rfl
    rw [if_neg fun both => eq both.2]
    have counted := counted.resolve_left fun all => eq all.2.2
    omega

theorem refund_count {owner : Dbref} (is : rules.isPlayer (haltTarget rules player object) = true)
    (eq : haltTarget rules player object = owner) :
    rules.waitcost * (b.all.countP fun e =>
      rules.holds owner (b.info e).player && rules.queWant player object (b.info e)) =
        if rules.holds owner (some (haltTarget rules player object)) then rules.waitcost * num
        else 0 := by
  have own := owned.own _ is
  rw [eq] at own
  cases free : rules.isFree owner with
  | true =>
    have none' : (b.all.countP fun e => rules.holds owner (b.info e).player &&
        rules.queWant player object (b.info e)) = 0 := by
      rw [countP_eq_zero]
      intro e _ both
      cases obj : (b.info e).player with
      | none => simp [obj, Rules.holds] at both
      | some obj' =>
        rw [obj] at both
        simp only [Rules.holds, any_some, Bool.and_eq_true, decide_eq_true_eq] at both
        simp [Rules.freeMoney, Rules.ownerOf, both.1.1, free] at both
    rw [none']
    simp [Rules.holds, Rules.freeMoney, Rules.ownerOf, eq, own, free]
  | false =>
    have h : rules.holds owner (some (haltTarget rules player object)) = true := by
      simp [Rules.holds, Rules.freeMoney, Rules.ownerOf, eq, own, free]
    rw [if_pos h]
    by_cases costless : rules.waitcost = 0
    · simp [costless]
    · have all : (b.all.countP fun e => rules.holds owner (b.info e).player &&
          rules.queWant player object (b.info e)) = num := by
        rw [halts.count]
        refine countP_congr fun e mem => ?_
        rw [Bool.and_eq_true]
        refine and_iff_right_of_imp fun wanted => ?_
        have able := clean e mem wanted
        unfold Block.refundable at able
        cases obj : (b.info e).player with
        | none => simp [obj, costless, eq, free] at able
        | some obj' =>
          rw [obj] at able
          have target : rules.owner obj' = owner ∧ rules.freeMoney (some obj') = false := by
            simpa [costless, eq, free] using able
          simp [Rules.holds, target.1, target.2]
      rw [all]

theorem Halts.money (owner : Dbref) :
    b'.pennies owner + rules.waitcost * b'.tally (rules.holds owner) =
      b.pennies owner + rules.waitcost * b.tally (rules.holds owner) := by
  have split := halts.split (rules.holds owner) rfl
  rw [halts.pennies, haltSettle_pennies]
  by_cases eq : haltTarget rules player object = owner
  · -- What is refunded is the number of the wanted entries, each of which has been paid for.
    have refunded : rules.waitcost * (b.all.countP fun e =>
        rules.holds owner (b.info e).player &&
          rules.queWant player object (b.info e)) =
          if rules.holds owner (some (haltTarget rules player object)) then rules.waitcost * num
          else 0 := by
      rcases halts.target owned with is | none'
      · exact refund_count owned halts clean is eq
      · have unwanted := halts.count
        rw [none', eq_comm, countP_eq_zero] at unwanted
        have none'' : (b.all.countP fun e => rules.holds owner (b.info e).player &&
            rules.queWant player object (b.info e)) = 0 := by
          rw [countP_eq_zero]
          intro e mem both
          exact unwanted e mem (Bool.and_eq_true _ _ ▸ both).2
        simp [none'', none']
    rw [split, ← refunded, Nat.cast_add, Int.mul_add]
    omega
  · have off := Halts.others clean (rules.holds owner) (fun obj target => by
      simp [Rules.holds, target, eq]) rfl
    have nothing : (if rules.holds owner (some (haltTarget rules player object)) then
        rules.waitcost * (num : Int) else 0) = 0 := by
      rcases halts.target owned with is | none'
      · simp [Rules.holds, owned.own _ is, eq]
      · simp [none']
    rw [split, off, nothing]
    simp

end

end Halting

theorem giveAfter_perm (rules : Rules) (effect : Core → Addr → Core) (b : Board) {lane : Lane}
    {pre post : List Addr} {e : Addr} (split : b.lane lane = pre ++ e :: post) :
    (Board.setLane { b with toReady := Ready.giveAfter rules effect b.toReady e } lane
      (pre ++ post)).all.Perm b.all := by
  have joined := giveQue_all rules
    { b.setLane lane (pre ++ post) with toCore := effect b.toCore e } e
  have parted := Board.setLane_all lane split
  refine List.Perm.trans ?_ parted.symm
  cases lane <;> exact joined

def KeepsAccounts (rules : Rules) (b b' : Board) : Prop :=
  ∀ funds, Settled rules b funds → Settled rules b' funds

theorem KeepsAccounts.refl (b : Board) : KeepsAccounts rules b b := fun _ settled => settled

theorem KeepsAccounts.trans {b'' : Board} (fst : KeepsAccounts rules b b')
    (snd : KeepsAccounts rules b' b'') : KeepsAccounts rules b b'' :=
  fun funds settled => snd funds (fst funds settled)

theorem giveQue_accounts (rules : Rules) (r : Ready) (e o : Addr) :
    ((r.giveQue rules e).info o).player = (r.info o).player ∧
      (r.giveQue rules e).queue = r.queue ∧ (r.giveQue rules e).pennies = r.pennies := by
  rw [giveQue_core]
  split <;> by_cases eq : o = e <;> simp [Core.setWaittime, Core.note, eq]

theorem enqueue_accounts (rules : Rules) (b : Board) (e o : Addr) (now wait : Int)
    (sem : Option Dbref) (attr : Nat) :
    ((b.enqueue rules e now wait sem attr).info o).player = (b.info o).player ∧
      (b.enqueue rules e now wait sem attr).queue = b.queue ∧
      (b.enqueue rules e now wait sem attr).pennies = b.pennies := by
  have player := (enqueue_books rules b e o now wait sem attr).1
  cases sem with
  | some sem => exact ⟨player, rfl, rfl⟩
  | none =>
    by_cases direct : wait ≤ 0
    · simp only [Board.enqueue, if_pos direct] at player ⊢
      exact ⟨player, (giveQue_accounts rules
        { b.toReady with toCore := b.toCore.fill e now wait none attr } e o).2⟩
    · simp only [Board.enqueue, if_neg direct] at player ⊢
      exact ⟨player, rfl, rfl⟩

theorem give_accounts {effect : Core → Addr → Core}
    (player : ∀ core e o,
      ((effect core e).info o).player = (core.info o).player)
    (queue : ∀ core e, (effect core e).queue = core.queue)
    (pennies : ∀ core e, (effect core e).pennies = core.pennies) :
    Relates (KeepsAccounts rules) (Ready.giveAfter rules effect) := by
  intro b lane pre post e split funds settled
  have given := giveQue_accounts rules { b.toReady with toCore := effect b.toCore e } e
  refine settled.of_perm (giveAfter_perm rules effect b split) (fun o _ => ?_) ?_ ?_
    fun o mem => ?_
  · have eq := (given o).1.trans (player b.toCore e o)
    cases lane <;> exact eq
  · have eq := (given e).2.1.trans (queue b.toCore e)
    cases lane <;> exact eq
  · have eq := (given e).2.2.trans (pennies b.toCore e)
    cases lane <;> exact eq
  · refine Board.setLane_waits lane split ?_
    cases lane <;> exact mem

theorem same_accounts : Relates (KeepsAccounts rules) (Ready.giveAfter rules fun core _ => core) :=
  give_accounts (fun _ _ _ => rfl) (fun _ _ => rfl) fun _ _ => rfl

theorem expire_accounts : Relates (KeepsAccounts rules) (Ready.giveAfter rules Core.expire) := by
  refine give_accounts (fun core e o => ?_) (fun _ _ => rfl) fun _ _ => rfl
  by_cases eq : o = e <;> simp [Core.expire, Core.addTo, Core.setSemaphore, eq]

theorem drain_accounts (owned : rules.Owned) :
    Relates (KeepsAccounts rules) (Ready.dropAfter (Core.drain rules)) := by
  intro b lane pre post e split funds settled
  have waits := Board.waits_of_lane lane split
  cases obj : (b.info e).player with
  | none => exact absurd obj (settled.waiting e waits)
  | some player =>
    have drained : b.toCore.drain rules e =
        ((b.toCore.giveto rules (some player) rules.waitcost).aQueue rules
          (rules.owner player) (-1)).note (.ended e .drained) := by
      rw [Core.drain, obj]
      rfl
    have info : (b.toCore.drain rules e).info = b.info := by
      rw [drained]
      simp only [Core.aQueue, Core.note]
      rw [sQueue_eq, giveto_eq]
    have less := fun mine : Option Dbref → Bool => tally_cons (Board.setLane_all lane split)
      (fun _ _ => by cases lane <;> rfl) mine
    rw [obj] at less
    refine @Settled.refunded rules b _ funds owned settled player (fun mine _ => ?_)
      (fun owner => ?_) (fun owner => ?_) fun o mem => ?_
    · rw [less mine]
      congr 1
      refine tally_perm ?_ (fun o _ => ?_) mine
      · cases lane <;> exact .refl _
      · have eq := congrArg Block.player (congrFun info o)
        cases lane <;> exact eq.symm
    · have eq := congrFun (congrArg Core.queue drained) owner
      cases lane <;> exact eq
    · have eq := congrFun (congrArg Core.pennies drained) owner
      simp only [Core.aQueue, Core.note] at eq
      rw [sQueue_eq] at eq
      cases lane <;> exact eq
    · have pre' : o ∈ b.wait ∨ o ∈ b.sem := by
        refine Board.setLane_waits lane split ?_
        cases lane <;> exact mem
      have eq := congrArg Block.player (congrFun info o)
      have pending := settled.waiting o pre'
      rw [← eq] at pending
      cases lane <;> exact pending

theorem nfyQue_accounts (owned : rules.Owned) (b : Board) (sem : Dbref) (attr : Nat)
    (key : NotifyKey) (count : Int) :
    KeepsAccounts rules b (b.nfyQue rules sem attr key count).2 := by
  have acting : Relates (KeepsAccounts rules) (notified rules key) := by
    unfold notified
    split
    · exact drain_accounts owned
    · exact same_accounts
  rw [nfyQue_eq]
  have swept : KeepsAccounts rules b (b.notify rules sem attr key count) := by
    unfold Board.notify
    by_cases waiting : 0 < (if attr ≠ 0 then b.semaphore (some sem) attr else 1)
    · rw [if_pos waiting]
      exact sweep_related .refl .trans acting b .sem _ _ _
    · rw [if_neg waiting]
      exact .refl b
  intro funds settled
  have kept := swept funds settled
  refine kept.of_perm (.refl _) (fun _ _ => ?_) ?_ ?_ fun _ mem => mem <;> rw [nfySettle_eq]

theorem doSecond_accounts (rules : Rules) (b : Board) (now : Int) :
    KeepsAccounts rules b (b.doSecond rules now) := by
  unfold Board.doSecond
  split
  · exact .refl b
  · have spliced : KeepsAccounts rules b b.spliceObject := by
      intro funds settled
      refine settled.of_perm ?_ (fun _ _ => ?_) ?_ ?_ fun _ mem => mem <;>
        simp only [Board.spliceObject, puts_eq]
      simp [Board.all]
    have looped : KeepsAccounts rules b.spliceObject (b.spliceObject.waitLoop rules now) := by
      unfold Board.waitLoop
      cases entries : b.spliceObject.wait with
      | nil => exact .refl _
      | cons point rest =>
        dsimp only
        split
        · exact same_accounts b.spliceObject .wait [] rest point entries
        · exact .refl _
    exact (spliced.trans looped).trans
      (sweep_related .refl .trans expire_accounts _ .sem _ _ _)

theorem times_accounts (b : Board) (i : Int) : KeepsAccounts rules b (b.warpTimes i) := by
  intro funds settled
  have eq := b.warpTimes_eq i
  refine settled.of_perm (.refl _) (fun o _ => warpTimes_player b i o) ?_ ?_
    fun _ mem => mem <;> rw [eq]

theorem haltQue_accounts (owned : rules.Owned) (tidy : b.Tidy []) {player object : Option Dbref}
    (clean : b.haltsCleanly rules player object) :
    KeepsAccounts rules b (b.haltQue rules player object).2 := by
  intro funds settled
  have halts := haltQue_halts rules tidy player object
  refine ⟨fun owner => ?_, fun owner => ?_, fun e mem => ?_⟩
  · exact halts.counter owned clean (.inr (settled.counter owner))
  · rw [halts.money owned clean]
    exact settled.money owner
  · obtain ⟨pre, eq⟩ := halts.waiting e mem
    rw [eq]
    exact settled.waiting e pre

/-- Whether a command is refused because its owner has too many queued. -/
def Core.overflows (rules : Rules) (c : Core) (player : Dbref) (draw : Nat) : Prop :=
  c.interp = true ∧ c.halted player = false ∧
    (rules.freeMoney (some player) = true ∨ rules.fee draw ≤ c.pennies (rules.owner player)) ∧
    rules.queueMax (rules.owner player) < c.queue (rules.owner player) + 1

instance (c : Core) (player : Dbref) (draw : Nat) : Decidable (c.overflows rules player draw) := by
  unfold Core.overflows
  infer_instance

def Core.withheldFor (rules : Rules) (c : Core) (player : Dbref) (draw : Nat) (owner : Dbref) : Int :=
  if c.overflows rules player draw ∧ rules.holds owner (some player) = true then rules.waitcost else 0

theorem fee_eq (exact' : rules.machinecost = 0) (draw : Nat) : rules.fee draw = rules.waitcost := by
  simp [Rules.fee, exact']

theorem accepted_settled (owned : rules.Owned) (tidy : b.Tidy []) (settled : Settled rules b funds)
    {player : Dbref} {paid : Core} (pays : b.payfor rules player rules.waitcost = some paid)
    (cause : Dbref) (comm : String) (now wait : Int)
    (sem : Option Dbref) (attr : Nat) :
    Settled rules
      (Board.enqueue rules
        { b with
          toCore := (paid.aQueue rules (rules.owner player) 1).alloc
            (Board.entryOf player cause comm) }
        (paid.aQueue rules (rules.owner player) 1).allocated now wait sem attr) funds := by
  have eq : (paid.aQueue rules (rules.owner player) 1).info = b.info ∧
      (paid.aQueue rules (rules.owner player) 1).allocated = b.allocated ∧
      (paid.aQueue rules (rules.owner player) 1).pennies = paid.pennies := by
    rw [Core.aQueue, sQueue_eq, payfor_keeps pays]
    exact ⟨rfl, rfl, rfl⟩
  obtain ⟨made, hm⟩ : ∃ made : Board, made =
      { b with
        toCore := (paid.aQueue rules (rules.owner player) 1).alloc
          (Board.entryOf player cause comm) } := ⟨_, rfl⟩
  rw [← hm, eq.2.1]
  have fresh := tidy.fresh
  have perm := @enqueue_all rules made b.allocated now wait sem attr
  have all : made.all = b.all := by rw [hm]; rfl
  have waits : made.wait = b.wait ∧ made.sem = b.sem := by rw [hm]; exact ⟨rfl, rfl⟩
  have players : ∀ e, (made.info e).player =
      if e = b.allocated then some player else (b.info e).player := by
    intro e
    rw [hm]
    by_cases new : e = b.allocated <;> simp [Core.alloc, eq.1, eq.2.1, new, Board.entryOf]
  have kept := fun e => enqueue_accounts rules made b.allocated e now wait sem attr
  have newcomer : ((made.enqueue rules b.allocated now wait sem attr).info b.allocated).player =
      some player := by rw [(kept b.allocated).1, players, if_pos rfl]
  have old : ∀ o ∈ b.all,
      (b.info o).player = ((made.enqueue rules b.allocated now wait sem attr).info o).player := by
    intro o mem
    have ne : o ≠ b.allocated := fun new => fresh (new ▸ mem)
    rw [(kept o).1, players, if_neg ne]
  have tallies := fun mine => tally_cons (all ▸ perm) old mine
  rw [newcomer] at tallies
  refine ⟨fun owner => ?_, fun owner => ?_, fun e mem => ?_⟩
  · have counter := aQueue_queue paid (owned.player player) 1 owner
    have pre : paid.queue = b.queue := by rw [payfor_keeps pays]
    have settled' := settled.counter owner
    have more := tallies (rules.owes owner)
    rw [(kept b.allocated).2.1, hm]
    show (paid.aQueue rules (rules.owner player) 1).queue owner = _
    rw [counter, pre, ← hm, more]
    have mine : rules.owes owner (some player) = decide (rules.owner player = owner) := rfl
    by_cases is : rules.owner player = owner <;> simp [mine, is] <;> omega
  · have settled' := settled.money owner
    have more := tallies (rules.holds owner)
    rw [(kept b.allocated).2.2, hm]
    show (paid.aQueue rules (rules.owner player) 1).pennies owner + _ = _
    rw [eq.2.2, payfor_pennies pays, ← hm, more, ← settled']
    split
    · rw [Nat.cast_add, Int.mul_add]
      simp only [Nat.cast_one, Int.mul_one]
      omega
    · simp
  · rw [(kept e).1, players]
    split
    · simp
    next ne =>
      rcases enqueue_waits mem with new | pre
      · exact absurd new ne
      · rw [waits.1, waits.2] at pre
        exact settled.waiting e pre

theorem overflow_settled (owned : rules.Owned) (exact' : rules.machinecost = 0) (tidy : b.Tidy [])
    (settled : Settled rules b funds) {player : Dbref} {draw : Nat} {paid : Core}
    (interp : b.interp = true) (heeds : b.halted player = false)
    (pays : b.payfor rules player (rules.fee draw) = some paid)
    (many : rules.queueMax (rules.owner player) <
      (paid.aQueue rules (rules.owner player) 1).queued rules (rules.owner player))
    (clean : b.toCore.overflows rules player draw →
      b.haltsCleanly rules (some (rules.owner player)) none) :
    Settled rules
      { (Board.haltQue rules { b with toCore := paid.aQueue rules (rules.owner player) 1 }
          (some (rules.owner player)) none).2 with
        halted := update
          (Board.haltQue rules { b with toCore := paid.aQueue rules (rules.owner player) 1 }
            (some (rules.owner player)) none).2.halted player true }
      fun owner => funds owner - b.toCore.withheldFor rules player draw owner := by
  have tooMany : b.toCore.overflows rules player draw := by
    refine ⟨interp, heeds, ?_, ?_⟩
    · by_contra poor
      simp [payfor_none.mpr poor] at pays
    · rw [queued_paid pays, if_pos (owned.player player)] at many
      exact many
  have paidTidy := (paid_moves pays).tidy tidy
  obtain ⟨charged, hc⟩ : ∃ charged : Board,
      charged = { b with toCore := paid.aQueue rules (rules.owner player) 1 } := ⟨_, rfl⟩
  rw [← hc] at paidTidy ⊢
  have info : charged.info = b.info := by
    rw [hc]
    show (paid.aQueue rules (rules.owner player) 1).info = b.info
    rw [Core.aQueue, sQueue_eq, payfor_keeps pays]
  have queue : ∀ owner, owner ≠ rules.owner player → charged.queue owner = b.queue owner := by
    intro owner o
    rw [hc]
    show (paid.aQueue rules (rules.owner player) 1).queue owner = b.queue owner
    rw [aQueue_queue _ (owned.player player), if_neg (Ne.symm o), payfor_keeps pays]
    simp
  have pennies : ∀ owner, charged.pennies owner =
      b.pennies owner - if rules.holds owner (some player) then rules.waitcost else 0 := by
    intro owner
    rw [← fee_eq exact' draw, ← payfor_pennies pays, hc]
    show (paid.aQueue rules (rules.owner player) 1).pennies owner = paid.pennies owner
    rw [Core.aQueue, sQueue_eq]
  have all : charged.all = b.all := by rw [hc]; rfl
  have tally : ∀ mine, charged.tally mine = b.tally mine := fun mine =>
    tally_perm (all ▸ .refl _) (fun _ _ => by rw [info]) mine
  have clean' : charged.haltsCleanly rules (some (rules.owner player)) none := by
    intro e mem wanted
    rw [info] at wanted ⊢
    exact clean tooMany e (all ▸ mem) wanted
  have halts := haltQue_halts rules paidTidy (some (rules.owner player)) none
  have waiting : ∀ e, e ∈ charged.wait ∨ e ∈ charged.sem →
      (charged.info e).player ≠ none := by
    intro e mem
    rw [info]
    rw [hc] at mem
    exact settled.waiting e mem
  refine ⟨fun owner => ?_, fun owner => ?_, fun e mem => ?_⟩
  · refine halts.counter owned clean' ?_
    by_cases eq : rules.owner player = owner
    · exact .inl ⟨rfl, eq ▸ owned.player player, eq⟩
    · exact .inr (by rw [queue owner (Ne.symm eq), tally, settled.counter])
  · refine (halts.money owned clean' owner).trans ?_
    rw [pennies, tally, ← settled.money owner]
    simp only [Core.withheldFor, tooMany, true_and]
    omega
  · obtain ⟨pre, eq⟩ := halts.waiting e mem
    show (_ : Block).player ≠ none
    rw [eq]
    exact waiting e pre

theorem waitQue_settled (owned : rules.Owned) (exact' : rules.machinecost = 0) (tidy : b.Tidy [])
    (settled : Settled rules b funds) {player : Dbref} {draw : Nat}
    (clean : b.toCore.overflows rules player draw →
      b.haltsCleanly rules (some (rules.owner player)) none)
    (cause : Dbref) (now wait : Int) (sem : Option Dbref) (attr : Nat) (comm : String) :
    Settled rules (b.waitQue rules player cause now wait sem attr comm draw)
      fun owner => funds owner - b.toCore.withheldFor rules player draw owner := by
  unfold Board.waitQue
  cases interp : b.interp with
  | false =>
    have kept : ∀ owner, b.toCore.withheldFor rules player draw owner = 0 := by
      intro owner
      simp [Core.withheldFor, Core.overflows, interp]
    simpa [kept] using settled
  | true =>
    simp only [Bool.not_true, Bool.false_eq_true, if_false]
    have step := setupQue_cases rules b player cause comm draw
    cases made : b.setupQue rules player cause comm draw with
    | mk point b' =>
      rw [made] at step
      cases step with
      | refused why =>
        have kept : ∀ owner, b.toCore.withheldFor rules player draw owner = 0 := by
          intro owner
          rw [Core.withheldFor, if_neg]
          rintro ⟨⟨_, heeds, pays, _⟩, _⟩
          rcases why with halted | poor
          · simp [heeds] at halted
          · exact payfor_none.mp poor pays
        simpa [kept] using settled
      | @overflowed paid heeds pays many =>
        exact overflow_settled owned exact' tidy settled interp heeds pays many clean
      | @accepted paid heeds pays few =>
        have kept : ∀ owner, b.toCore.withheldFor rules player draw owner = 0 := by
          intro owner
          rw [Core.withheldFor, if_neg]
          rintro ⟨⟨_, _, _, many⟩, _⟩
          rw [queued_paid pays, if_pos (owned.player player)] at few
          exact few many
        rw [fee_eq exact'] at pays
        have queued := accepted_settled owned tidy settled pays cause comm now wait sem attr
        simpa [kept] using queued

def Board.headPlayer (b : Board) : Option Dbref :=
  b.player.head?.bind fun head => (b.info head).player

theorem headPlayer_eq {head : Addr} {rest : List Addr} (players : b.player = head :: rest) :
    b.headPlayer = (b.info head).player := by
  simp [Board.headPlayer, players]

theorem tally_head {head : Addr} {rest : List Addr} (players : b.player = head :: rest)
    (mine : Option Dbref → Bool) :
    b.tally mine = (rest ++ b.object ++ b.wait ++ b.sem).countP
      (fun e => mine (b.info e).player) +
        if mine (b.info head).player then 1 else 0 := by
  simp only [Board.tally, Board.all, players, cons_append, countP_cons]

theorem topPop_settled (settled : Settled rules b funds) (finished : b.headPlayer = none)
    {frame : Frame} {outer : List Frame} (popped : b.topPop frame outer = some b') :
    Settled rules b' funds := by
  cases players : b.player with
  | nil => simp [Board.topPop, players] at popped
  | cons head rest =>
    rw [headPlayer_eq players] at finished
    rw [Board.topPop_eq players, Option.some.injEq] at popped
    have eq : ∀ mine : Option Dbref → Bool, mine none = false →
        b'.tally mine = b.tally mine := by
      intro mine none'
      rw [tally_head players, finished, none', ← popped]
      rfl
    refine ⟨fun owner => ?_, fun owner => ?_, fun e mem => ?_⟩
    · rw [eq _ rfl, ← settled.counter owner, ← popped]
      rfl
    · rw [eq _ rfl, ← settled.money owner, ← popped]
      rfl
    · rw [← popped] at mem ⊢
      exact settled.waiting e mem

theorem take_settled (owned : rules.Owned) (tidy : b.Tidy []) (settled : Settled rules b funds)
    {head : Addr} {rest : List Addr} {player : Dbref} (players : b.player = head :: rest)
    (pending : (b.info head).player = some player) {core : Core}
    (info : core.info = (b.toCore.take rules head player).info)
    (queue : core.queue = (b.toCore.take rules head player).queue)
    (pennies : core.pennies = (b.toCore.take rules head player).pennies) :
    Settled rules { b with toCore := core } funds := by
  have taken : ∀ e, (core.info e).player =
      if e = head then none else (b.info e).player := by
    intro e
    rw [info]
    simp only [Core.take, Core.aQueue]
    rw [sQueue_eq, giveto_eq]
    by_cases eq : e = head <;> simp [eq]
  have distinct : head ∉ rest ++ b.object ++ b.wait ++ b.sem := by
    have nodup := tidy.nodup
    simp only [append_nil, Board.all, players, cons_append, nodup_cons] at nodup
    exact nodup.1
  refine @Settled.refunded rules b _ funds owned settled player (fun mine none' => ?_)
    (fun owner => ?_) (fun owner => ?_) fun e mem => ?_
  · have rest' : (rest ++ b.object ++ b.wait ++ b.sem).countP
        (fun e => mine (core.info e).player) =
          (rest ++ b.object ++ b.wait ++ b.sem).countP fun e => mine (b.info e).player := by
      refine countP_congr fun e mem => ?_
      have ne : e ≠ head := fun eq => distinct (eq ▸ mem)
      rw [taken, if_neg ne]
    have post := @tally_head { b with toCore := core } head rest players mine
    rw [tally_head players, pending, post, ← rest', taken, if_pos rfl, none']
    simp
  · show core.queue owner = _
    rw [queue]
    rfl
  · show core.pennies owner = _
    rw [pennies]
    simp only [Core.take, Core.aQueue]
    rw [sQueue_eq]
  · have ne : e ≠ head := by
      rintro rfl
      exact distinct (by rcases mem with inWait | inSem <;> simp [*])
    show (core.info e).player ≠ none
    rw [taken, if_neg ne]
    exact settled.waiting e mem

theorem topNext_settled (owned : rules.Owned) (tidy : b.Tidy []) (settled : Settled rules b funds)
    (present : b.headPlayer.any b.going = false) {frame : Frame} {outer : List Frame}
    (went : b.topNext rules frame outer = some b') : Settled rules b' funds := by
  cases topNext_cases went with
  | returned => exact ⟨settled.counter, settled.money, settled.waiting⟩
  | skipped players finished popped =>
    exact topPop_settled settled ((headPlayer_eq players).trans finished) popped
  | gone players pending going =>
    rw [headPlayer_eq players, pending] at present
    simp [going] at present
  | @held head rest player b' players pending popped =>
    have taken : Settled rules
        { b with
          toCore := (b.toCore.take rules head player).note (.ended head .discarded) } funds :=
      take_settled owned tidy settled players pending rfl rfl rfl
    refine topPop_settled taken ?_ popped
    simp [Board.headPlayer, players, Core.take, Core.note]
  | started players pending => exact take_settled owned tidy settled players pending rfl rfl rfl

/-- What keeps the accounts: a halt, of @halt, of a destroyed object or of an owner who has
too many commands queued, pays its target for entries of the target's only; and `do_top`
drops no entry that is still to be run. -/
def Board.settles (rules : Rules) (b : Board) : Op → Prop
  | .wait player _ _ _ _ draw => b.toCore.overflows rules player draw →
      b.haltsCleanly rules (some (rules.owner player)) none
  | .semWait player _ _ _ _ _ _ draw => b.toCore.overflows rules player draw →
      b.haltsCleanly rules (some (rules.owner player)) none
  | .halt player object => b.haltsCleanly rules player object
  | .destroy obj => b.haltsCleanly rules none (some obj)
  | .next => b.headPlayer.any b.going = false
  | .done => b.headPlayer = none
  | _ => True

instance (player object : Option Dbref) : Decidable (b.haltsCleanly rules player object) := by
  unfold Board.haltsCleanly
  infer_instance

instance (op : Op) : Decidable (b.settles rules op) :=
  match op with
  | .wait .. | .semWait .. => inferInstanceAs (Decidable (_ → _))
  | .halt .. | .destroy .. => inferInstanceAs (Decidable (b.haltsCleanly rules _ _))
  | .next | .done => inferInstanceAs (Decidable (_ = _))
  | .notify .. | .second .. | .warp .. | .top .. | .kick .. | .setHalted .. | .setGoing ..
  | .setControl .. => instDecidableTrue

/-- Whether a function can be called: `do_top` is not between two entries. -/
def Core.calling (c : Core) : Bool := c.frames.head?.all Frame.running

/-- The deposits that a step keeps for a command it refuses. -/
def Core.withheld (rules : Rules) (c : Core) (op : Op) (owner : Dbref) : Int :=
  if c.calling then
    match op with
    | .wait player _ _ _ _ draw => c.withheldFor rules player draw owner
    | .semWait player _ _ _ _ attr _ draw =>
      if attr = 0 then 0 else c.withheldFor rules player draw owner
    | _ => 0
  else 0

theorem doWait_settled (owned : rules.Owned) (exact' : rules.machinecost = 0) (tidy : b.Tidy [])
    (settled : Settled rules b funds) {player : Dbref} {draw : Nat}
    (clean : b.toCore.overflows rules player draw →
      b.haltsCleanly rules (some (rules.owner player)) none)
    (cause : Dbref) (now howlong : Int) (thing : Dbref) (attr : Nat) (comm : String) :
    Settled rules (b.doWait rules player cause now howlong thing attr comm draw)
      fun owner => funds owner - b.toCore.withheldFor rules player draw owner := by
  have tidy' : (b.asked thing attr).Tidy [] := tidy.of_perm (List.Perm.refl _) rfl rfl
  have settled' : Settled rules (b.asked thing attr) funds :=
    ⟨settled.counter, settled.money, settled.waiting⟩
  simp only [Board.doWait]
  split <;> exact waitQue_settled owned exact' tidy' settled' clean ..

theorem step_settled (owned : rules.Owned) (exact' : rules.machinecost = 0) {op : Op}
    (tidy : b.Tidy []) (settled : Settled rules b funds) (guard : b.settles rules op)
    (stepped : b.step rules op = some b') :
    Settled rules b' fun owner => funds owner - b.toCore.withheld rules op owner := by
  have called : b.toCore.calling = true →
      Settled rules (b.call rules op) fun owner => funds owner - b.toCore.withheld rules op owner := by
    intro calling
    have eq : Settled rules b fun owner => funds owner - 0 := by simpa using settled
    simp only [Core.withheld, calling, if_true]
    cases op with
    | wait player cause now wait comm draw =>
      exact waitQue_settled owned exact' tidy settled guard cause now wait none 0 comm
    | semWait player cause now howlong thing attr comm draw =>
      simp only [Board.call]
      by_cases unset : attr = 0
      · simpa [unset] using settled
      · simpa only [unset, if_false] using
          doWait_settled owned exact' tidy settled guard cause now howlong thing attr comm
    | notify thing attr key count =>
      simp only [Board.call, Board.doNotify]
      split
      · exact eq
      · split
        · exact nfyQue_accounts owned b thing attr key count _ eq
        · exact eq
    | halt player object => exact haltQue_accounts owned tidy guard _ eq
    | destroy obj =>
      have halted := haltQue_accounts owned tidy guard _ eq
      have drained := nfyQue_accounts owned _ obj 0 .drain 0 _ halted
      exact ⟨drained.counter, drained.money, drained.waiting⟩
    | second now => exact doSecond_accounts rules b now _ eq
    | warp i now =>
      have warped := ((times_accounts b i).trans (doSecond_accounts rules _ now)) _ eq
      exact ⟨warped.counter, warped.money, warped.waiting⟩
    | top ncmds =>
      simp only [Board.call]
      split
      · exact ⟨eq.counter, eq.money, eq.waiting⟩
      · exact eq
    | kick i => exact ⟨eq.counter, eq.money, eq.waiting⟩
    | next => exact eq
    | done => exact eq
    | setHalted => exact ⟨eq.counter, eq.money, eq.waiting⟩
    | setGoing => exact ⟨eq.counter, eq.money, eq.waiting⟩
    | setControl => exact ⟨eq.counter, eq.money, eq.waiting⟩
  unfold Board.step at stepped
  split at stepped
  next empty =>
    exact some.inj stepped ▸ called (by simp [Core.calling, empty])
  next frame outer frames =>
    split at stepped
    next isRunning =>
      split at stepped
      next ended =>
        subst ended
        have kept := topPop_settled settled guard stepped
        simpa [Core.withheld] using kept
      next => exact some.inj stepped ▸ called (by simp [Core.calling, frames, isRunning])
    next between =>
      have kept : ∀ owner, b.toCore.withheld rules op owner = 0 := by
        intro owner
        have idle : ¬ b.toCore.calling = true := by simpa [Core.calling, frames] using between
        exact if_neg idle
      simp only [kept, Int.sub_zero]
      split at stepped
      next goes =>
        subst goes
        exact topNext_settled owned tidy settled guard stepped
      next => exact some.inj stepped ▸ settled

end Accounts

/-- The deposits that a run keeps for the commands it refuses. -/
def Server.withheldOver (rules : Rules) : Server → List Op → Dbref → Int
  | _, [], _ => 0
  | s, op :: rest, owner =>
    s.toCore.withheld rules op owner +
      match s.step rules op with
      | none => 0
      | some s' => withheldOver rules s' rest owner

/-- The counter of an owner is the number of the entries that are still to be run for the
owner's objects; and an owner's money, the deposits paid for these entries, and those
withheld are what the owner had. -/
structure DepositsBalance (rules : Rules) (pennies withheld : Dbref → Int) (s : Server) : Prop where
  counter : ∀ owner, s.queue owner = s.board.tally (rules.owes owner)
  money : ∀ owner,
    s.pennies owner + rules.waitcost * s.board.tally (rules.holds owner) + withheld owner =
      pennies owner

theorem run_settled {rules : Rules} (owned : rules.Owned) (exact' : rules.machinecost = 0)
    {ops : List Op} {s s' : Server} {b : Board} {funds : Dbref → Int} (rep : Represents s b [])
    (settled : Settled rules b funds)
    (guarded : Machine.Guarded (Server.step rules) (fun s op => s.board.settles rules op) s ops)
    (ran : Machine.run (Server.step rules) s ops = some s') :
    ∃ b', Represents s' b' [] ∧
      Settled rules b' fun owner => funds owner - s.withheldOver rules ops owner := by
  induction ops generalizing s b funds with
  | nil =>
    cases ran
    exact ⟨b, rep, by simpa [Server.withheldOver] using settled⟩
  | cons op rest ih =>
    obtain ⟨middle, stepped, later⟩ := bind_eq_some_iff.mp ran
    have both := step_simulates rules rep op
    rw [stepped] at both
    cases moved : b.step rules op with
    | none => simp [moved, Simulates] at both
    | some b₁ =>
      rw [moved] at both
      have guard : s.board.settles rules op := guarded.1
      rw [rep.board_eq] at guard
      have one := step_settled owned exact' rep.tidy settled guard moved
      obtain ⟨b', rep', settled'⟩ :=
        ih both one (guarded.2 middle stepped) later
      refine ⟨b', rep', ?_⟩
      have total : ∀ owner, funds owner - s.withheldOver rules (op :: rest) owner =
          funds owner - b.toCore.withheld rules op owner -
            middle.withheldOver rules rest owner := by
        intro owner
        simp only [Server.withheldOver, stepped, rep.core]
        omega
      simpa only [total] using settled'

/-- In a run whose halts are clean, and in which `do_top` drops no entry that is still to be
run, counters and deposits balance. -/
theorem deposits_balance (rules : Rules) (owned : rules.Owned) (exact' : rules.machinecost = 0)
    (pennies : Dbref → Int) (ops : List Op) (s : Server)
    (guarded : Machine.Guarded (Server.step rules) (fun s op => s.board.settles rules op)
      (Server.init pennies) ops)
    (ran : Machine.run (Server.step rules) (Server.init pennies) ops = some s) :
    DepositsBalance rules pennies ((Server.init pennies).withheldOver rules ops) s := by
  have start : Settled rules (Board.init pennies) pennies := by
    constructor <;> simp [Board.init, Server.init, Board.tally, Board.all]
  obtain ⟨b, rep, settled⟩ := run_settled owned exact' (init_represents pennies) start guarded ran
  have same := rep.board_eq
  refine ⟨fun owner => ?_, fun owner => ?_⟩
  · rw [same, ← settled.counter owner, rep.core]
  · have money := settled.money owner
    rw [same, rep.core]
    omega

theorem smallGame_owned : smallGame.Owned := by
  constructor
  · intro obj
    by_cases fst : obj = 1 <;> simp [smallGame, fst]
  · intro obj player
    simp only [smallGame, decide_eq_true_eq] at player ⊢
    rcases player with rfl | rfl <;> rfl
  · rfl

/-- Three commands are queued; one is run, and the others are halted by their object. -/
theorem deposits_balance_smallGame : ∃ s,
    Machine.run (Server.step smallGame) (Server.init fun _ => 100)
        [.wait 2 2 0 0 "say hello" 0, .wait 3 2 0 0 "say one" 0, .wait 3 3 0 5 "say two" 0, .top 1,
          .next, .halt none (some 3), .done, .next] = some s ∧
      DepositsBalance smallGame (fun _ => 100)
        ((Server.init fun _ => 100).withheldOver smallGame
          [.wait 2 2 0 0 "say hello" 0, .wait 3 2 0 0 "say one" 0, .wait 3 3 0 5 "say two" 0,
            .top 1, .next, .halt none (some 3), .done, .next]) s :=
  ⟨_, rfl, deposits_balance smallGame smallGame_owned rfl (fun _ => 100)
    [.wait 2 2 0 0 "say hello" 0, .wait 3 2 0 0 "say one" 0, .wait 3 3 0 5 "say two" 0, .top 1,
      .next, .halt none (some 3), .done, .next] _ (by decide) rfl⟩

/-- @halt/all takes a player's command off the queue and leaves the player's counter. -/
theorem haltAll_leaves_counter :
    ¬ ∀ (rules : Rules) (pennies : Dbref → Int) (ops : List Op) (s : Server), rules.Owned →
        rules.machinecost = 0 →
          Machine.run (Server.step rules) (Server.init pennies) ops = some s →
            DepositsBalance rules pennies ((Server.init pennies).withheldOver rules ops) s := by
  intro claimed
  have counter := (claimed smallGame (fun _ => 100)
    [.wait 2 2 0 0 "say hello" 0, .halt none none] _ smallGame_owned rfl rfl).counter 2
  revert counter
  decide

end BattletechMux.Queue
