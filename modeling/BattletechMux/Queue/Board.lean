/-
Module: BattletechMux.Queue.Board
Purpose: The command queue of cque.c over explicit memory, and the four lists of entries that it is.
-/
import Mathlib.Algebra.Ring.Int.Defs
import Mathlib.Algebra.Ring.Nat
import BattletechMux.Foundation.Fifo
import BattletechMux.Foundation.Machine

namespace BattletechMux.Queue

open Function (update)

section

open LinkedMemory (Fifo cut place seek walk)

/-- The number of an object.  NOTHING is `none` where it may stand. -/
abbrev Dbref := Nat

abbrev Addr := Nat

/-- What an `int` keeps of a number. -/
def int32 (n : Int) : Int := n.bmod (2 ^ 32)

/-- The fields of a BQUE block other than its link.  `comm` stands for the texts: the
command, its arguments and the saved registers. -/
structure Block where
  player : Option Dbref
  cause : Dbref
  sem : Option Dbref
  attr : Nat
  waittime : Int
  comm : String
deriving Repr, Inhabited, DecidableEq

inductive NotifyKey where
  | nfy
  | nfyAll
  | drain
deriving Repr, Inhabited, DecidableEq

/-- What became of an entry: `do_top` started its command, or it was halted, drained, or
thrown away by `do_top` because its object is halted or going. -/
inductive Fate where
  | ran
  | halted
  | drained
  | discarded
deriving Repr, Inhabited, DecidableEq

/-- What the queue has done so far, as an observer would log it.  No function of the
queue reads it. -/
inductive Occurrence where
  | accepted (entry : Addr)
  | put (entry : Addr)
  | ended (entry : Addr) (fate : Fate)
deriving Repr, Inhabited, DecidableEq

/-- What the functions read of the objects and of the configuration, and do not write. -/
structure Rules where
  god : Dbref
  owner : Dbref → Dbref
  /-- `Typeof(x) == TYPE_PLAYER`, which is `OwnsOthers(x)` -/
  isPlayer : Dbref → Bool
  /-- `Wizard(x) || Free_Money(x) || Immortal(x)` -/
  isFree : Dbref → Bool
  /-- the QUEUEMAX of the player cache, negative for wizards -/
  qmax : Dbref → Int
  queuemax : Int
  dbTop : Int
  waitcost : Int
  machinecost : Nat

namespace Rules

variable (rules : Rules)

/-- `Owner`.  NOTHING has an entry of its own before the first object; it belongs to
GOD. -/
def ownerOf : Option Dbref → Dbref
  | none => rules.god
  | some obj => rules.owner obj

/-- The test by which `payfor` and `giveto` leave the money alone. -/
def freeMoney (who : Option Dbref) : Bool :=
  who.any rules.isFree || rules.isFree (rules.ownerOf who)

def queueMax (player : Dbref) : Int :=
  if rules.isPlayer player then
    if 0 ≤ rules.qmax player then rules.qmax player else max (rules.dbTop + 1) rules.queuemax
  else 0

def queWant (ptarg otarg : Option Dbref) (entry : Block) : Bool :=
  if ptarg ≠ none ∧ ptarg ≠ some (rules.ownerOf entry.player) then false
  else if otarg ≠ none ∧ otarg ≠ entry.player then false
  else true

end Rules

/-- An open call of `do_top`. -/
structure Frame where
  /-- `ncmds - count` -/
  left : Nat
  /-- whether the command list of an entry is being executed -/
  running : Bool
  /-- the `was_disabled` of the `do_queue` that made the call -/
  wasDisabled : Bool
deriving Repr, Inhabited, DecidableEq

/-- Everything but the link field and the pointers into it. -/
structure Core where
  info : Addr → Block
  /-- The blocks `alloc_qentry` has handed out so far are those below this address. -/
  allocated : Nat
  /-- The blocks that are not freed. -/
  live : Addr → Bool
  /-- The number in an attribute of an object; an unset attribute reads as 0. -/
  semaphore : Option Dbref → Nat → Int
  /-- the `queue` of the player cache -/
  queue : Dbref → Int
  pennies : Dbref → Int
  halted : Dbref → Bool
  going : Dbref → Bool
  /-- CF_INTERP -/
  interp : Bool
  /-- CF_DEQUEUE -/
  dequeue : Bool
  frames : List Frame
  /-- The occurrences so far, in order. -/
  log : List Occurrence

namespace Core

variable (rules : Rules) (c : Core)

def note (occurrence : Occurrence) : Core := { c with log := c.log ++ [occurrence] }

/-- `payfor`; `none` when the object cannot pay. -/
def payfor (who : Dbref) (cost : Int) : Option Core :=
  if rules.freeMoney (some who) then some c
  else
    let who := rules.owner who
    if cost ≤ c.pennies who then
      some { c with pennies := update c.pennies who (c.pennies who - cost) }
    else none

def giveto (who : Option Dbref) (amount : Int) : Core :=
  if rules.freeMoney who then c
  else
    let who := rules.ownerOf who
    { c with pennies := update c.pennies who (c.pennies who + amount) }

def sQueue (player : Dbref) (val : Int) : Core :=
  if rules.isPlayer player then { c with queue := update c.queue player val } else c

def aQueue (player : Dbref) (adj : Int) : Core := c.sQueue rules player (c.queue player + adj)

/-- What `a_Queue` returns once it has changed the counter. -/
def queued (player : Dbref) : Int := if rules.isPlayer player then c.queue player else 0

def setSemaphore (thing : Option Dbref) (attr : Nat) (val : Int) : Core :=
  { c with semaphore := update c.semaphore thing (update (c.semaphore thing) attr val) }

def addTo (thing : Option Dbref) (am : Int) (attr : Nat) : Core :=
  c.setSemaphore thing attr (int32 (c.semaphore thing attr + am))

def release (point : Addr) : Core := { c with live := update c.live point false }

/-- `free_qentry`.  Freeing a block that is not allocated is undefined. -/
def free (point : Addr) : Option Core := if c.live point then some (c.release point) else none

/-- A block of the player or object queue is halted: `point->player = NOTHING`.  One that
is halted already, or running, has no player. -/
def mark (ptarg otarg : Option Dbref) (acc : Nat × Core) (point : Addr) : Nat × Core :=
  let c := acc.2
  if rules.queWant ptarg otarg (c.info point) then
    let marked := { c with info := update c.info point { c.info point with player := none } }
    (acc.1 + 1,
      if (c.info point).player = none then marked else marked.note (.ended point .halted))
  else acc

/-- What `halt_que` does before it frees a block of the wait queue. -/
def haltWait (point : Addr) : Core := c.note (.ended point .halted)

/-- What `halt_que` does before it frees a block of the semaphore queue. -/
def haltSem (point : Addr) : Core :=
  (c.addTo (c.info point).sem (-1) (c.info point).attr).note (.ended point .halted)

/-- What `halt_que` does at its end: the money, and the counter. -/
def haltSettle (player object : Option Dbref) (numhalted : Nat) : Core :=
  let player := player.getD (rules.ownerOf object)
  let c := c.giveto rules (some player) (rules.waitcost * numhalted)
  if object = none then c.sQueue rules player 0 else c.aQueue rules player (-numhalted)

/-- What `nfy_que` does at its end: the count of the waiters. -/
def nfySettle (sem : Dbref) (attr : Nat) (key : NotifyKey) (count : Int) : Core :=
  if key = .nfy then c.addTo (some sem) (-count) attr else c.setSemaphore (some sem) attr 0

/-- What `nfy_que` does before it frees a block it drains. -/
def drain (point : Addr) : Core :=
  ((c.giveto rules (c.info point).player rules.waitcost).aQueue rules
    (rules.ownerOf (c.info point).player) (-1)).note (.ended point .drained)

/-- What `do_second` does with a block whose wait for a semaphore is over before it
queues it. -/
def expire (point : Addr) : Core :=
  let c := c.addTo (c.info point).sem (-1) (c.info point).attr
  { c with info := update c.info point { c.info point with sem := none } }

def setWaittime (point : Addr) (waittime : Int) : Core :=
  { c with info := update c.info point { c.info point with waittime := waittime } }

/-- The block that `setup_que` fills. -/
def alloc (entry : Block) : Core :=
  { c with
    info := update c.info c.allocated entry
    live := update c.live c.allocated true
    allocated := c.allocated + 1
    log := c.log ++ [.accepted c.allocated] }

/-- The fields that `wait_que` sets in a new block. -/
def fill (tmp : Addr) (now wait : Int) (sem : Option Dbref) (attr : Nat) : Core :=
  { c with
    info := update c.info tmp
      { c.info tmp with
        waittime := if wait ≠ 0 then int32 (now + wait) else (c.info tmp).waittime
        sem := sem
        attr := attr } }

/-- `do_top` has taken the entry's deposit and count back and starts its command. -/
def take (point : Addr) (player : Dbref) : Core :=
  let c := (c.giveto rules (some player) rules.waitcost).aQueue rules (rules.owner player) (-1)
  { c with info := update c.info point { c.info point with player := none } }

/-- What @queue/warp makes of the wait time of a block on the semaphore queue. -/
def warped (i waittime : Int) : Int :=
  if 0 < waittime then
    let waittime := int32 (waittime - i)
    if waittime ≤ 0 then -1 else waittime
  else waittime

end Core

/-- The queues: `qfirst` and `qlast`, `qlfirst` and `qllast`, `qwait`, `qsemfirst` and
`qsemlast`, with the link field of the blocks. -/
structure Server extends Core where
  next : Addr → Option Addr
  q : Fifo Addr
  ql : Fifo Addr
  qwait : Option Addr
  qsem : Fifo Addr

inductive Lane where
  | wait
  | sem
deriving DecidableEq

namespace Server

variable (rules : Rules) (s : Server)

def giveQue (tmp : Addr) : Server :=
  let s : Server :=
    { s with next := update s.next tmp none, toCore := s.toCore.setWaittime tmp 0 }
  if rules.isPlayer (s.info tmp).cause then
    let (next, q) := s.q.append s.next tmp
    { s with next := next, q := q, toCore := s.toCore.note (.put tmp) }
  else
    let (next, ql) := s.ql.append s.next tmp
    { s with next := next, ql := ql }

def first : Lane → Option Addr
  | .wait => s.qwait
  | .sem => s.qsem.first

def unlink (lane : Lane) (trail : Option Addr) (point : Addr) : Server :=
  match lane with
  | .wait =>
    let (next, qwait) := cut s.next s.qwait trail point
    { s with next := next, qwait := qwait }
  | .sem =>
    let (next, qsem) := s.qsem.cut s.next trail point
    { s with next := next, qsem := qsem }

/-- The loops that go through the wait or semaphore queue with a trailing pointer, unlink
the blocks they want and act on them.  `limit` bounds the loop. -/
def sweep (lane : Lane) (want : Block → Bool) (act : Server → Addr → Option Server)
    (enough : Nat → Bool) :
    Nat → Option Addr → Option Addr → Nat → Server → Option (Nat × Server)
  | 0, _, _, _, _ => none
  | _ + 1, _, none, num, s => some (num, s)
  | limit + 1, trail, some point, num, s =>
    let next := s.next point
    if want (s.info point) then do
      let s ← act (s.unlink lane trail point) point
      sweep lane want act enough limit trail (if enough (num + 1) then none else next)
        (num + 1) s
    else
      sweep lane want act enough limit (some point) (if enough num then none else next) num s

/-- The block is freed after `effect`. -/
def dropAfter (effect : Core → Addr → Core) (s : Server) (point : Addr) : Option Server := do
  let core ← (effect s.toCore point).free point
  some { s with toCore := core }

/-- The block goes to the player or object queue after `effect`. -/
def giveAfter (effect : Core → Addr → Core) (s : Server) (point : Addr) : Option Server :=
  some (giveQue rules { s with toCore := effect s.toCore point } point)

/-- The loops of `halt_que` over the player and object queues. -/
def mark (player object : Option Dbref) : Option (Nat × Server) := do
  let acc ← walk s.next (Core.mark rules player object) (s.allocated + 1) s.q.first (0, s.toCore)
  let acc ← walk s.next (Core.mark rules player object) (s.allocated + 1) s.ql.first acc
  some (acc.1, { s with toCore := acc.2 })

def haltQue (player object : Option Dbref) : Option (Nat × Server) := do
  let want := rules.queWant player object
  let (num, s) ← s.mark rules player object
  let (num, s) ← s.sweep .wait want (dropAfter Core.haltWait) (fun _ => false)
    (s.allocated + 1) none (s.first .wait) num
  let (num, s) ← s.sweep .sem want (dropAfter Core.haltSem) (fun _ => false)
    (s.allocated + 1) none (s.first .sem) num
  some (num, { s with toCore := s.toCore.haltSettle rules player object num })

def nfyQue (sem : Dbref) (attr : Nat) (key : NotifyKey) (count : Int) :
    Option (Nat × Server) := do
  let num := if attr ≠ 0 then s.semaphore (some sem) attr else 1
  let (num, s) ←
    if 0 < num then
      s.sweep .sem (fun entry => entry.sem = some sem ∧ (entry.attr = attr ∨ attr = 0))
        (if key = .drain then dropAfter (Core.drain rules) else giveAfter rules fun c _ => c)
        (fun num => key = .nfy ∧ count ≤ num) (s.allocated + 1) none (s.first .sem) 0
    else some (0, s)
  some (num, { s with toCore := s.toCore.nfySettle sem attr key count })

/-- `setup_que`: the block, or NULL.  `draw` is what `random` returns. -/
def setupQue (player cause : Dbref) (comm : String) (draw : Nat) :
    Option (Option Addr × Server) :=
  if s.halted player then some (none, s)
  else
    let a := rules.waitcost +
      if rules.machinecost ≠ 0 ∧ draw % rules.machinecost = 0 then 1 else 0
    match s.toCore.payfor rules player a with
    | none => some (none, s)
    | some core =>
      let core := core.aQueue rules (rules.owner player) 1
      if rules.queueMax (rules.owner player) < core.queued rules (rules.owner player) then do
        let (_, s) ← haltQue rules { s with toCore := core } (some (rules.owner player)) none
        some (none, { s with halted := update s.halted player true })
      else
        let entry : Block :=
          { player := some player, cause := cause, sem := none, attr := 0, waittime := 0
            comm := comm }
        some (some core.allocated,
          { s with
            toCore := core.alloc entry
            next := update s.next core.allocated none })

/-- The part of `wait_que` that puts a new block on the queue it is for. -/
def enqueue (tmp : Addr) (now wait : Int) (sem : Option Dbref) (attr : Nat) : Option Server :=
  let s : Server := { s with toCore := s.toCore.fill tmp now wait sem attr }
  match sem with
  | none =>
    if wait ≤ 0 then some (giveQue rules s tmp)
    else do
      let (trail, point) ←
        seek s.next (fun point => (s.info point).waittime ≤ (s.info tmp).waittime)
          (s.allocated + 1) none s.qwait
      let (next, qwait) := place s.next s.qwait trail point tmp
      some { s with next := next, qwait := qwait }
  | some _ =>
    let (next, qsem) := s.qsem.append (update s.next tmp none) tmp
    some { s with next := next, qsem := qsem }

/-- `wait_que`.  `now` is what `time` returns. -/
def waitQue (player cause : Dbref) (now wait : Int) (sem : Option Dbref) (attr : Nat)
    (comm : String) (draw : Nat) : Option Server := do
  if !s.interp then some s
  else
    let (tmp, s) ← setupQue rules s player cause comm draw
    match tmp with
    | none => some s
    | some tmp => enqueue rules s tmp now wait sem attr

/-- `do_wait` on the semaphore `attr` of `thing`, once it has found both and the
permission to use them. -/
def doWait (player cause : Dbref) (now howlong : Int) (thing : Dbref) (attr : Nat)
    (comm : String) (draw : Nat) : Option Server :=
  let s : Server := { s with toCore := s.toCore.addTo (some thing) 1 attr }
  if s.semaphore (some thing) attr ≤ 0 then
    waitQue rules s player cause now 0 none attr comm draw
  else waitQue rules s player cause now howlong (some thing) attr comm draw

/-- `do_notify`, once it has found the semaphore and the permission to use it. -/
def doNotify (thing : Dbref) (attr : Nat) (key : NotifyKey) (loccount : Int) :
    Option Server :=
  if 0 < loccount then (nfyQue rules s thing attr key loccount).map Prod.snd else some s

/-- What `destroy_obj` does to the queue and, with `atr_free`, to the counts. -/
def destroyObj (obj : Dbref) : Option Server := do
  let (_, s) ← haltQue rules s none (some obj)
  let (_, s) ← nfyQue rules s obj 0 .drain 0
  some { s with semaphore := update s.semaphore (some obj) fun _ => 0 }

def spliceObject : Option Server := do
  let core ← walk s.next (fun c point => c.note (.put point)) (s.allocated + 1) s.ql.first
    s.toCore
  let (next, q) := s.q.splice s.next s.ql
  some { s with toCore := core, next := next, q := q, ql := Fifo.empty }

/-- The loop of `do_second` over the wait queue: `give_que` clears the link that the loop
goes on with. -/
def waitLoop (now : Int) : Nat → Option Addr → Server → Option Server
  | 0, _, _ => none
  | _ + 1, none, s => some s
  | limit + 1, some point, s =>
    if (s.info point).waittime ≤ now then
      let s := giveQue rules { s with qwait := s.next point } point
      waitLoop now limit (s.next point) s
    else some s

def doSecond (now : Int) : Option Server :=
  if !s.dequeue then some s
  else do
    let s ← s.spliceObject
    let s ← waitLoop rules now (s.allocated + 1) s.qwait s
    let (_, s) ← s.sweep .sem (fun entry => entry.waittime ≠ 0 ∧ entry.waittime ≤ now)
      (giveAfter rules Core.expire) (fun _ => false) (s.allocated + 1) none (s.first .sem) 0
    some s

/-- `do_top` is called, by `do_queue` if `wasDisabled` is set. -/
def doTop (ncmds : Int) (wasDisabled : Bool) : Server :=
  { s with frames := ⟨ncmds.toNat, false, wasDisabled⟩ :: s.frames }

/-- The @queue/kick of `do_queue`. -/
def queueKick (i : Int) : Server :=
  doTop { s with dequeue := true } i (!s.dequeue)

/-- The first block is taken off the player queue and freed, and `count` goes up. -/
def topPop (frame : Frame) (outer : List Frame) : Option Server :=
  match s.q.first with
  | none => none
  | some tmp => do
      let core ← s.toCore.free tmp
      some
        { s with
          q := s.q.pop s.next tmp
          toCore :=
            { core with frames := { frame with left := frame.left - 1, running := false } :: outer } }

/-- `do_top` returns. -/
def topReturn (frame : Frame) (outer : List Frame) : Server :=
  { s with frames := outer, dequeue := if frame.wasDisabled then false else s.dequeue }

/-- The loop of `do_top` goes on: to the start of a command list, over an entry that is
not executed, or out of the loop. -/
def topNext (frame : Frame) (outer : List Frame) : Option Server :=
  match s.q.first with
  | none => some (s.topReturn frame outer)
  | some head =>
    if frame.left = 0 then some (s.topReturn frame outer)
    else
      match (s.info head).player with
      | none => s.topPop frame outer
      | some player =>
        if s.going player then
          topPop { s with toCore := s.toCore.note (.ended head .discarded) } frame outer
        else
          let core := s.toCore.take rules head player
          if core.halted player then
            topPop { s with toCore := core.note (.ended head .discarded) } frame outer
          else
            some
              { s with
                toCore :=
                  { core.note (.ended head .ran) with
                    frames := { frame with running := true } :: outer } }

/-- The wait times as the @queue/warp of `do_queue` rewrites them. -/
def warpTimes (i : Int) : Option Server := do
  let core ← walk s.next (fun c point => c.setWaittime point (int32 (-i))) (s.allocated + 1)
    s.qwait { s.toCore with dequeue := true }
  let core ← walk s.next
    (fun c point => c.setWaittime point (Core.warped i (c.info point).waittime))
    (s.allocated + 1) s.qsem.first core
  some { s with toCore := core }

/-- The @queue/warp of `do_queue`. -/
def queueWarp (i now : Int) : Option Server := do
  let wasDisabled := !s.dequeue
  let s ← s.warpTimes i
  let s ← s.doSecond rules now
  some { s with dequeue := if wasDisabled then false else s.dequeue }

def init (pennies : Dbref → Int) : Server where
  info := fun _ => default
  allocated := 0
  live := fun _ => false
  semaphore := fun _ _ => 0
  queue := fun _ => 0
  pennies := pennies
  halted := fun _ => false
  going := fun _ => false
  interp := true
  dequeue := true
  frames := []
  log := []
  next := fun _ => none
  q := Fifo.empty
  ql := Fifo.empty
  qwait := none
  qsem := Fifo.empty

end Server

/-- What can happen next.  `next` and `done` belong to `do_top`: its loop goes on, and the
command list of the entry it runs ends.  The `set` operations are other code changing
flags. -/
inductive Op where
  | wait (player cause : Dbref) (now wait : Int) (comm : String) (draw : Nat)
  | semWait (player cause : Dbref) (now howlong : Int) (thing : Dbref) (attr : Nat)
      (comm : String) (draw : Nat)
  | notify (thing : Dbref) (attr : Nat) (key : NotifyKey) (count : Int)
  | halt (player object : Option Dbref)
  | destroy (obj : Dbref)
  | second (now : Int)
  | warp (i now : Int)
  | top (ncmds : Int)
  | kick (i : Int)
  | next
  | done
  | setHalted (obj : Dbref) (flag : Bool)
  | setGoing (obj : Dbref) (flag : Bool)
  | setControl (interp dequeue : Bool)
deriving Repr, DecidableEq

/-- A function is called from outside `do_top`, or by a command that is running. -/
def Server.call (rules : Rules) (s : Server) : Op → Option Server
  | .wait player cause now wait comm draw =>
    s.waitQue rules player cause now wait none 0 comm draw
  | .semWait player cause now howlong thing attr comm draw =>
    if attr = 0 then some s
    else s.doWait rules player cause now howlong thing attr comm draw
  | .notify thing attr key count =>
    if attr = 0 then some s else s.doNotify rules thing attr key count
  | .halt player object => (s.haltQue rules player object).map Prod.snd
  | .destroy obj => s.destroyObj rules obj
  | .second now => s.doSecond rules now
  | .warp i now => s.queueWarp rules i now
  | .top ncmds => some (if s.dequeue then s.doTop ncmds false else s)
  | .kick i => some (s.queueKick i)
  | .setHalted obj flag => some { s with halted := update s.halted obj flag }
  | .setGoing obj flag => some { s with going := update s.going obj flag }
  | .setControl interp dequeue => some { s with interp := interp, dequeue := dequeue }
  | .next | .done => some s

/-- One step.  While the loop of `do_top` is between two entries it alone goes on; an
operation that has no place in a state changes nothing. -/
def Server.step (rules : Rules) (s : Server) (op : Op) : Option Server :=
  match s.frames with
  | [] => s.call rules op
  | frame :: outer =>
    if frame.running then
      if op = .done then s.topPop frame outer else s.call rules op
    else
      if op = .next then s.topNext rules frame outer else some s

end

open LinkedMemory (Fifo Chain picked visited)

structure Ready extends Core where
  player : List Addr
  object : List Addr

structure Board extends Ready where
  wait : List Addr
  sem : List Addr

namespace Ready

variable (rules : Rules)

/-- An entry joins the player or the object queue, by who caused it. -/
def giveQue (r : Ready) (tmp : Addr) : Ready :=
  let core := r.toCore.setWaittime tmp 0
  if rules.isPlayer (core.info tmp).cause then
    { r with toCore := core.note (.put tmp), player := r.player ++ [tmp] }
  else { r with toCore := core, object := r.object ++ [tmp] }

/-- The entry is gone after `effect`. -/
def dropAfter (effect : Core → Addr → Core) (r : Ready) (point : Addr) : Ready :=
  { r with toCore := (effect r.toCore point).release point }

/-- The entry is given to a queue after `effect`. -/
def giveAfter (effect : Core → Addr → Core) (r : Ready) (point : Addr) : Ready :=
  giveQue rules { r with toCore := effect r.toCore point } point

end Ready

namespace Board

variable (rules : Rules) (b : Board)

def lane : Lane → List Addr
  | .wait => b.wait
  | .sem => b.sem

def setLane (lane : Lane) (entries : List Addr) : Board :=
  match lane with
  | .wait => { b with wait := entries }
  | .sem => { b with sem := entries }

/-- The wanted entries of a queue leave it and are acted on, in order. -/
def sweep (lane : Lane) (want : Block → Bool) (act : Ready → Addr → Ready)
    (enough : Nat → Bool) (num : Nat) : Nat × Board :=
  let split := picked (fun point => want (b.info point)) enough num (b.lane lane)
  (num + split.1.length,
    setLane { b with toReady := split.1.foldl act b.toReady } lane split.2)

/-- The entries of the player and object queues that are wanted lose their player. -/
def mark (player object : Option Dbref) : Nat × Board :=
  let acc := (b.player ++ b.object).foldl (Core.mark rules player object) (0, b.toCore)
  (acc.1, { b with toCore := acc.2 })

def haltQue (player object : Option Dbref) : Nat × Board :=
  let want := rules.queWant player object
  let (num, b) := b.mark rules player object
  let (num, b) := b.sweep .wait want (Ready.dropAfter Core.haltWait) (fun _ => false) num
  let (num, b) := b.sweep .sem want (Ready.dropAfter Core.haltSem) (fun _ => false) num
  (num, { b with toCore := b.toCore.haltSettle rules player object num })

def nfyQue (sem : Dbref) (attr : Nat) (key : NotifyKey) (count : Int) : Nat × Board :=
  let num := if attr ≠ 0 then b.semaphore (some sem) attr else 1
  let (num, b) :=
    if 0 < num then
      b.sweep .sem (fun entry => entry.sem = some sem ∧ (entry.attr = attr ∨ attr = 0))
        (if key = .drain then Ready.dropAfter (Core.drain rules)
          else Ready.giveAfter rules fun c _ => c)
        (fun num => key = .nfy ∧ count ≤ num) 0
    else (0, b)
  (num, { b with toCore := b.toCore.nfySettle sem attr key count })

/-- The block that `setup_que` fills for a command. -/
def entryOf (player cause : Dbref) (comm : String) : Block :=
  { player := some player, cause := cause, sem := none, attr := 0, waittime := 0
    comm := comm }

def setupQue (player cause : Dbref) (comm : String) (draw : Nat) : Option Addr × Board :=
  if b.halted player then (none, b)
  else
    let a := rules.waitcost +
      if rules.machinecost ≠ 0 ∧ draw % rules.machinecost = 0 then 1 else 0
    match b.toCore.payfor rules player a with
    | none => (none, b)
    | some core =>
      let core := core.aQueue rules (rules.owner player) 1
      if rules.queueMax (rules.owner player) < core.queued rules (rules.owner player) then
        let b := (haltQue rules { b with toCore := core } (some (rules.owner player)) none).2
        (none, { b with halted := update b.halted player true })
      else
        (some core.allocated, { b with toCore := core.alloc (entryOf player cause comm) })

/-- A new entry is put on the queue it is for: the wait queue is kept by wait time. -/
def enqueue (tmp : Addr) (now wait : Int) (sem : Option Dbref) (attr : Nat) : Board :=
  let b : Board := { b with toCore := b.toCore.fill tmp now wait sem attr }
  match sem with
  | none =>
    if wait ≤ 0 then { b with toReady := b.toReady.giveQue rules tmp }
    else
      let passed := fun point => decide ((b.info point).waittime ≤ (b.info tmp).waittime)
      { b with wait := b.wait.takeWhile passed ++ tmp :: b.wait.dropWhile passed }
  | some _ => { b with sem := b.sem ++ [tmp] }

def waitQue (player cause : Dbref) (now wait : Int) (sem : Option Dbref) (attr : Nat)
    (comm : String) (draw : Nat) : Board :=
  if !b.interp then b
  else
    match b.setupQue rules player cause comm draw with
    | (none, b) => b
    | (some tmp, b) => b.enqueue rules tmp now wait sem attr

def doWait (player cause : Dbref) (now howlong : Int) (thing : Dbref) (attr : Nat)
    (comm : String) (draw : Nat) : Board :=
  let b : Board := { b with toCore := b.toCore.addTo (some thing) 1 attr }
  if b.semaphore (some thing) attr ≤ 0 then
    b.waitQue rules player cause now 0 none attr comm draw
  else b.waitQue rules player cause now howlong (some thing) attr comm draw

def doNotify (thing : Dbref) (attr : Nat) (key : NotifyKey) (loccount : Int) : Board :=
  if 0 < loccount then (b.nfyQue rules thing attr key loccount).2 else b

def destroyObj (obj : Dbref) : Board :=
  let b := (b.haltQue rules none (some obj)).2
  let b := (b.nfyQue rules obj 0 .drain 0).2
  { b with semaphore := update b.semaphore (some obj) fun _ => 0 }

def spliceObject : Board :=
  { b with
    toCore := b.object.foldl (fun c point => c.note (.put point)) b.toCore
    player := b.player ++ b.object
    object := [] }

/-- At most one entry of the wait queue is given to a queue: the first, if it is due. -/
def waitLoop (now : Int) : Board :=
  match b.wait with
  | [] => b
  | point :: rest =>
    if (b.info point).waittime ≤ now then
      { b with toReady := b.toReady.giveQue rules point, wait := rest }
    else b

def expireLoop (now : Int) : Board :=
  (b.sweep .sem (fun entry => entry.waittime ≠ 0 ∧ entry.waittime ≤ now)
    (Ready.giveAfter rules Core.expire) (fun _ => false) 0).2

def doSecond (now : Int) : Board :=
  if !b.dequeue then b
  else (b.spliceObject.waitLoop rules now).expireLoop rules now

def doTop (ncmds : Int) (wasDisabled : Bool) : Board :=
  { b with frames := ⟨ncmds.toNat, false, wasDisabled⟩ :: b.frames }

def queueKick (i : Int) : Board := doTop { b with dequeue := true } i (!b.dequeue)

def topPop (frame : Frame) (outer : List Frame) : Option Board :=
  match b.player with
  | [] => none
  | tmp :: rest =>
    some
      { b with
        player := rest
        toCore :=
          { b.toCore.release tmp with
            frames := { frame with left := frame.left - 1, running := false } :: outer } }

def topReturn (frame : Frame) (outer : List Frame) : Board :=
  { b with frames := outer, dequeue := if frame.wasDisabled then false else b.dequeue }

def topNext (frame : Frame) (outer : List Frame) : Option Board :=
  match b.player with
  | [] => some (b.topReturn frame outer)
  | head :: _ =>
    if frame.left = 0 then some (b.topReturn frame outer)
    else
      match (b.info head).player with
      | none => b.topPop frame outer
      | some player =>
        if b.going player then
          topPop { b with toCore := b.toCore.note (.ended head .discarded) } frame outer
        else
          let core := b.toCore.take rules head player
          if core.halted player then
            topPop { b with toCore := core.note (.ended head .discarded) } frame outer
          else
            some
              { b with
                toCore :=
                  { core.note (.ended head .ran) with
                    frames := { frame with running := true } :: outer } }

def warpTimes (i : Int) : Board :=
  let core := b.wait.foldl (fun c point => c.setWaittime point (int32 (-i)))
    { b.toCore with dequeue := true }
  let core := b.sem.foldl
    (fun c point => c.setWaittime point (Core.warped i (c.info point).waittime)) core
  { b with toCore := core }

def queueWarp (i now : Int) : Board :=
  let wasDisabled := !b.dequeue
  let b := (b.warpTimes i).doSecond rules now
  { b with dequeue := if wasDisabled then false else b.dequeue }

def init (pennies : Dbref → Int) : Board :=
  { toCore := (Server.init pennies).toCore, player := [], object := [], wait := [], sem := [] }

def call : Op → Board
  | .wait player cause now wait comm draw =>
    b.waitQue rules player cause now wait none 0 comm draw
  | .semWait player cause now howlong thing attr comm draw =>
    if attr = 0 then b else b.doWait rules player cause now howlong thing attr comm draw
  | .notify thing attr key count =>
    if attr = 0 then b else b.doNotify rules thing attr key count
  | .halt player object => (b.haltQue rules player object).2
  | .destroy obj => b.destroyObj rules obj
  | .second now => b.doSecond rules now
  | .warp i now => b.queueWarp rules i now
  | .top ncmds => if b.dequeue then b.doTop ncmds false else b
  | .kick i => b.queueKick i
  | .setHalted obj flag => { b with halted := update b.halted obj flag }
  | .setGoing obj flag => { b with going := update b.going obj flag }
  | .setControl interp dequeue => { b with interp := interp, dequeue := dequeue }
  | .next | .done => b

def step (op : Op) : Option Board :=
  match b.frames with
  | [] => some (b.call rules op)
  | frame :: outer =>
    if frame.running then
      if op = .done then b.topPop frame outer else some (b.call rules op)
    else
      if op = .next then b.topNext rules frame outer else some b

def all : List Addr := b.player ++ b.object ++ b.wait ++ b.sem

/-- The blocks that are not freed are those on the queues, each once, and those `held`,
which a function has taken off one queue and not yet put on another. -/
structure Tidy (b : Board) (held : List Addr) : Prop where
  nodup : (b.all ++ held).Nodup
  live : ∀ entry, b.live entry = true ↔ entry ∈ b.all ++ held
  below : ∀ entry, b.live entry = true → entry < b.allocated

end Board

/-- The memory of the server holds the queues of the board. -/
structure Represents (s : Server) (b : Board) (held : List Addr) : Prop where
  core : s.toCore = b.toCore
  player : s.q.Holds s.next b.player
  object : s.ql.Holds s.next b.object
  wait : Chain s.next s.qwait b.wait
  sem : s.qsem.Holds s.next b.sem
  tidy : b.Tidy held

/-- The board that a server's memory shows: what the loops over its queues visit. -/
def Server.board (s : Server) : Board where
  toCore := s.toCore
  player := visited s.next (s.allocated + 1) s.q.first
  object := visited s.next (s.allocated + 1) s.ql.first
  wait := visited s.next (s.allocated + 1) s.qwait
  sem := visited s.next (s.allocated + 1) s.qsem.first

/-- A function of the server gets stuck when that of the board does, and else they end
alike. -/
def Simulates : Option Server → Option Board → Prop
  | some s, some b => Represents s b []
  | none, none => True
  | _, _ => False

end BattletechMux.Queue
