/-
Module: BattletechMux.Money.PlayerCache
Purpose: Money and queue limits of objects, from player_c.c, predicates.c, object.c, db.c and rob.c:
  the attributes of every object, the player cache in front of them, the ledger that both are for,
  and what a gift does to it.
Trusted boundary: owners, flags, powers and the parameters of the game are given with each command;
  destroying an object is given whose commands it halts and drains, and creating one whether it is
  allowed and which object is first on the freelist; what the lock of the recipient says and the
  text of its cost are parameters, and so is `did_it`, which shows and queues the recipient's pay
  attributes at the very end; the deposits for commands that the listeners of notify and
  notify_with_cause (A_AHEAR, A_AMHEAR) queue on the way are left out
-/
import Mathlib.Logic.Function.Basic
import BattletechMux.Foundation.CText

namespace BattletechMux.Money

section

open Function (update)

abbrev Dbref := Int

abbrev Addr := Nat

abbrev Text := List Char

abbrev Word := BitVec 32

def nothing : Dbref := -1

inductive ObjectType where
  | room
  | thing
  | exit
  | player
  | garbage
deriving DecidableEq, Repr

inductive Attr where
  | money
  | queueMax
deriving DecidableEq, Repr

/-- A PCACHE, with the flags PF_DEAD, PF_REF, PF_MONEY_CH and PF_QMAX_CH. -/
structure PCache where
  player : Dbref
  money : Word
  queue : Word
  qmax : Word
  dead : Bool
  ref : Bool
  moneyCh : Bool
  qmaxCh : Bool
deriving DecidableEq, Repr

structure World where
  owner : Dbref → Dbref
  wizard : Dbref → Bool
  freeMoney : Dbref → Bool
  immortal : Dbref → Bool
  queuemax : Word
  waitcost : Word
  digcost : Word
  opencost : Word
  robotcost : Word
  createmin : Word
  createmax : Word
  sacfactor : Word
  sacadjust : Word
  paystart : Word

/-- The objects of the game, as far as money goes, and the player cache. -/
structure Game where
  typeOf : Dbref → ObjectType
  dbTop : Nat
  attr : Dbref → Attr → Option Text
  /-- A_LIST: the attributes of an object. -/
  attrList : Dbref → List Attr
  pcacheHtab : Dbref → Option Addr
  pcacheHead : Option Addr
  pcache : Addr → PCache
  next : Addr → Option Addr
  live : Addr → Bool
  fresh : Addr

/-- `atoi` of the text of an attribute, when there is one. -/
def wordOf (cp : Option Text) : Word :=
  match cp with
  | some cp => BitVec.ofInt 32 (CText.atoi cp)
  | none => 0

/-- What `%d` prints of an int. -/
def printed (n : Word) : Text := CText.decimal n.toInt

namespace Game

variable (s : Game) (w : World)

def goodObj (x : Dbref) : Bool := decide (0 ≤ x ∧ x < s.dbTop)

def ownsOthers (x : Dbref) : Bool := s.typeOf x = .player

/-! ## The player cache -/

def readEntry (pp : Addr) : Option PCache := if s.live pp then some (s.pcache pp) else none

def setEntry (pp : Addr) (e : PCache) : Game := { s with pcache := update s.pcache pp e }

/-- The limit on the queue that an entry gets from the attributes. -/
def qmaxOf (player : Dbref) : Word :=
  match s.attr player .queueMax with
  | some cp => if cp = [] then (if w.wizard player then -1 else w.queuemax) else wordOf (some cp)
  | none => if w.wizard player then -1 else w.queuemax

def pcacheReload1 (player : Dbref) (pp : Addr) : Option Game := do
  let e ← s.readEntry pp
  some (s.setEntry pp
    { e with money := wordOf (s.attr player .money), qmax := s.qmaxOf w player })

def newEntry (player : Dbref) : Game :=
  { s with
    pcacheHtab := update s.pcacheHtab player (some s.fresh)
    pcacheHead := some s.fresh
    pcache := update s.pcache s.fresh
      ⟨player, wordOf (s.attr player .money), 0, s.qmaxOf w player, false, true, false, false⟩
    next := update s.next s.fresh s.pcacheHead
    live := update s.live s.fresh true
    fresh := s.fresh + 1 }

def pcacheFind (player : Dbref) : Option (Option Addr × Game) :=
  if !s.goodObj player || !s.ownsOthers player then some (none, s)
  else
    match s.pcacheHtab player with
    | some pp => do
        let e ← s.readEntry pp
        some (some pp, s.setEntry pp { e with ref := true })
    | none => some (some s.fresh, s.newEntry w player)

def pcacheReload (player : Dbref) : Option Game := do
  let (pp, s) ← s.pcacheFind w player
  match pp with
  | none => some s
  | some pp => s.pcacheReload1 w player pp

/-! ## Attributes -/

def store (thing : Dbref) (atr : Attr) (buff : Text) : Game :=
  { s with
    attr := update s.attr thing (update (s.attr thing) atr (some buff))
    attrList :=
      if atr ∈ s.attrList thing then s.attrList
      else update s.attrList thing (s.attrList thing ++ [atr]) }

def delete (thing : Dbref) (atr : Attr) : Game :=
  { s with
    attr := update s.attr thing (update (s.attr thing) atr none)
    attrList := update s.attrList thing ((s.attrList thing).erase atr) }

def atrClr (thing : Dbref) (atr : Attr) : Option Game :=
  match atr with
  | .queueMax => (s.delete thing atr).pcacheReload w thing
  | .money => some (s.delete thing atr)

def atrAddRaw (thing : Dbref) (atr : Attr) (buff : Text) : Option Game :=
  if buff = [] then some (s.delete thing atr)
  else
    match atr with
    | .queueMax => (s.store thing atr buff).pcacheReload w thing
    | .money => some (s.store thing atr buff)

/-- The loop of `atr_free`. -/
def clearAll (thing : Dbref) : List Attr → Game → Option Game
  | [], s => some s
  | atr :: later, s => do
      let s ← s.atrClr w thing atr
      clearAll thing later s

def atrFree (thing : Dbref) : Option Game := do
  let s ← clearAll w thing (s.attrList thing) s
  some { s with attrList := update s.attrList thing [] }

/-! ## Flushing the cache -/

def saveMoney (e : PCache) : Option Game :=
  if e.moneyCh then s.atrAddRaw w e.player .money (printed e.money) else some s

def saveQmax (e : PCache) : Option Game :=
  if e.qmaxCh then s.atrAddRaw w e.player .queueMax (printed e.qmax) else some s

def pcacheSave (pp : Addr) : Option Game := do
  let e ← s.readEntry pp
  if e.dead then some s
  else do
    let s ← s.saveMoney w e
    let s ← s.saveQmax w e
    let e ← s.readEntry pp
    some (s.setEntry pp { e with moneyCh := false, qmaxCh := false })

def nhashdelete (player : Dbref) : Game :=
  { s with pcacheHtab := update s.pcacheHtab player none }

/-- An entry is taken from the list; `pplast` is the one before it. -/
def unlinkEntry (pplast : Option Addr) (pp : Addr) : Option Game :=
  match pplast with
  | some pplast =>
    if s.live pplast then some { s with next := update s.next pplast (s.next pp) } else none
  | none => some { s with pcacheHead := s.next pp }

/-- An entry that is not dead is saved and leaves the hash table. -/
def retire (e : PCache) (pp : Addr) : Option Game :=
  if e.dead then some s else (s.pcacheSave w pp).map fun s => s.nhashdelete e.player

/-- `free_pcache`. -/
def freeEntry (pp : Addr) : Game := { s with live := update s.live pp false }

/-- The loop of `pcache_trim`. -/
def trimLoop : Nat → Option Addr → Option Addr → Game → Option Game
  | 0, _, _, _ => none
  | _ + 1, _, none, s => some s
  | limit + 1, pplast, some pp, s => do
      let e ← s.readEntry pp
      if !e.dead && (e.queue ≠ 0 || e.ref) then
        trimLoop limit (some pp) (s.next pp) (s.setEntry pp { e with ref := false })
      else do
        let ppnext := s.next pp
        let s ← s.unlinkEntry pplast pp
        let s ← s.retire w e pp
        trimLoop limit pplast ppnext (s.freeEntry pp)

def pcacheTrim : Option Game := trimLoop w (s.fresh + 1) none s.pcacheHead s

/-- The loop of `pcache_sync`. -/
def syncLoop : Nat → Option Addr → Game → Option Game
  | 0, _, _ => none
  | _ + 1, none, s => some s
  | limit + 1, some pp, s => do
      let s ← s.pcacheSave w pp
      syncLoop limit (s.next pp) s

def pcacheSync : Option Game := syncLoop w (s.fresh + 1) s.pcacheHead s

def pcachePurge (player : Dbref) : Option Game :=
  match s.pcacheHtab player with
  | none => some s
  | some pp => do
      let e ← s.readEntry pp
      let e := { e with dead := true, ref := false, moneyCh := false, qmaxCh := false }
      some ((s.setEntry pp e).nhashdelete e.player)

/-! ## Queues -/

def setQueue (pp : Addr) (change : Word → Word) : Option Game := do
  let e ← s.readEntry pp
  some (s.setEntry pp { e with queue := change e.queue })

/-- `a_Queue`; it is stuck when there is no entry to read. -/
def aQueue (player : Dbref) (adj : Word) : Option Game :=
  if s.ownsOthers player then do
    let (pp, s) ← s.pcacheFind w player
    match pp with
    | some pp => s.setQueue pp (· + adj)
    | none => none
  else some s

def sQueue (player : Dbref) (val : Word) : Option Game :=
  if s.ownsOthers player then do
    let (pp, s) ← s.pcacheFind w player
    match pp with
    | some pp => s.setQueue pp fun _ => val
    | none => some s
  else some s

/-! ## Money -/

def pennies (obj : Dbref) : Option (Word × Game) :=
  if s.ownsOthers obj then do
    let (pp, s) ← s.pcacheFind w obj
    match pp with
    | some pp => do
        let e ← s.readEntry pp
        some (e.money, s)
    | none => some (wordOf (s.attr obj .money), s)
  else some (wordOf (s.attr obj .money), s)

def setMoney (pp : Addr) (howfew : Word) : Option Game := do
  let e ← s.readEntry pp
  some (s.setEntry pp { e with money := howfew, moneyCh := true })

/-- What `s_Pennies` does to the cache. -/
def cachePennies (obj : Dbref) (howfew : Word) : Option Game :=
  if s.ownsOthers obj then do
    let (pp, s) ← s.pcacheFind w obj
    match pp with
    | some pp => s.setMoney pp howfew
    | none => some s
  else some s

def sPennies (obj : Dbref) (howfew : Word) : Option Game := do
  let s ← s.cachePennies w obj howfew
  s.atrAddRaw w obj .money (printed howfew)

end Game

def World.excused (w : World) (who : Dbref) : Bool :=
  w.wizard who || w.wizard (w.owner who) || w.freeMoney who || w.freeMoney (w.owner who) ||
    w.immortal who || w.immortal (w.owner who)

namespace Game

variable (s : Game) (w : World)

def giveto (who : Dbref) (amount : Word) : Option Game :=
  if w.excused who then some s
  else do
    let (has, s) ← s.pennies w (w.owner who)
    s.sPennies w (w.owner who) (has + amount)

def payfor (who : Dbref) (cost : Word) : Option (Bool × Game) :=
  if w.excused who then some (true, s)
  else do
    let (tmp, s) ← s.pennies w (w.owner who)
    if cost.sle tmp then (s.sPennies w (w.owner who) (tmp - cost)).map fun s => (true, s)
    else some (false, s)

/-- The test for money of `canpayfees`. -/
def canAfford (who : Dbref) (amount : Word) : Option (Bool × Game) :=
  if w.wizard who || w.wizard (w.owner who) || w.freeMoney who || w.freeMoney (w.owner who) then
    some (true, s)
  else do
    let (has, s) ← s.pennies w (w.owner who)
    some (!has.slt amount, s)

/-- `canpayfees`; `quota` says that the quota is not used up. -/
def canpayfees (who : Dbref) (amount : Word) (quota : Bool) : Option (Bool × Game) := do
  let (can, s) ← s.canAfford w who amount
  if can && quota then do
    let (_, s) ← s.payfor w who amount
    some (true, s)
  else some (false, s)

/-! ## Objects that come and go -/

/-- What `create_obj` asks for an object, and what the object gets. -/
def feesFor (objtype : ObjectType) (cost : Word) : Word × Word :=
  match objtype with
  | .room => (w.digcost, 0)
  | .thing =>
    let cost := if cost.slt w.createmin then w.createmin else cost
    let cost := if w.createmax.slt cost then w.createmax else cost
    (cost, cost.sdiv w.sacfactor + w.sacadjust)
  | .exit => (w.opencost, 0)
  | .player => if cost ≠ 0 then (w.robotcost, 0) else (0, w.paystart)
  | .garbage => (0, 0)

/-- The fees are paid, but for an object that nobody makes. -/
def payFees (player : Dbref) (cost : Word) (quota : Bool) : Option (Bool × Game) :=
  if player = nothing then some (true, s) else s.canpayfees w player cost quota

/-- The number that a new object gets: that of `recycled` when it is garbage. -/
def numberFor (recycled : Option Dbref) : Dbref × Game :=
  match recycled with
  | some obj =>
    if s.goodObj obj && s.typeOf obj = .garbage then (obj, s)
    else (s.dbTop, { s with dbTop := s.dbTop + 1 })
  | none => (s.dbTop, { s with dbTop := s.dbTop + 1 })

def setType (obj : Dbref) (objtype : ObjectType) : Game :=
  { s with typeOf := update s.typeOf obj objtype }

/-- `create_obj`, of an object that may have its name. -/
def createObj (player : Dbref) (objtype : ObjectType) (cost : Word) (quota : Bool)
    (recycled : Option Dbref) : Option Game :=
  if objtype = .garbage then some s
  else do
    let (paid, s) ← s.payFees w player (feesFor w objtype cost).1 quota
    if paid then do
      let (obj, s) := s.numberFor recycled
      let s ← s.atrFree w obj
      (s.setType obj objtype).sPennies w obj (feesFor w objtype cost).2
    else some s

/-- `nfy_que` when it drains a semaphore of commands of some players. -/
def drain : List Dbref → Game → Option Game
  | [], s => some s
  | player :: later, s => do
      let s ← s.giveto w player w.waitcost
      let s ← s.aQueue w (w.owner player) (-1)
      drain later s

def haltObj (obj : Dbref) (numhalted : Nat) (drained : List Dbref) : Option Game := do
  let s ← s.giveto w (w.owner obj) (w.waitcost * BitVec.ofNat 32 numhalted)
  let s ← s.aQueue w (w.owner obj) (-BitVec.ofNat 32 numhalted)
  drain w drained s

def depositFor (obj : Dbref) (robot : Bool) : Option (Word × Game) :=
  match s.typeOf obj with
  | .room => some (w.digcost, s)
  | .thing => (s.pennies w obj).map fun (has, s) => ((has - w.sacadjust) * w.sacfactor, s)
  | .exit => some (w.opencost, s)
  | .player => some (if robot then w.robotcost else 0, s)
  | .garbage => some (1, s)

def compensate (obj : Dbref) (robot : Bool) : Option Game :=
  if s.goodObj (w.owner obj) && s.ownsOthers (w.owner obj) && w.owner obj ≠ obj then do
    let (val, s) ← s.depositFor w obj robot
    s.giveto w (w.owner obj) val
  else some s

def destroyObj (obj : Dbref) (robot : Bool) (numhalted : Nat) (drained : List Dbref) :
    Option Game :=
  if !s.goodObj obj then some s
  else do
    let s ← s.haltObj w obj numhalted drained
    let s ← s.compensate w obj robot
    let s ← s.atrFree w obj
    (s.setType obj .garbage).sPennies w obj 0

end Game

inductive Op where
  | pennies (obj : Dbref)
  | sPennies (obj : Dbref) (howfew : Word)
  | giveto (who : Dbref) (amount : Word)
  | payfor (who : Dbref) (cost : Word)
  | pcacheFind (player : Dbref)
  | pcacheReload (player : Dbref)
  | pcacheTrim
  | pcacheSync
  | pcachePurge (player : Dbref)
  | aQueue (player : Dbref) (adj : Word)
  | sQueue (player : Dbref) (val : Word)
  | setQueueMax (thing : Dbref) (buff : Text)
  | createObj (player : Dbref) (objtype : ObjectType) (cost : Word) (quota : Bool)
      (recycled : Option Dbref)
  | destroyObj (obj : Dbref) (robot : Bool) (numhalted : Nat) (drained : List Dbref)

def step (s : Game) (call : World × Op) : Option Game :=
  let w := call.1
  match call.2 with
  | .pennies obj => (s.pennies w obj).map Prod.snd
  | .sPennies obj howfew => s.sPennies w obj howfew
  | .giveto who amount => s.giveto w who amount
  | .payfor who cost => (s.payfor w who cost).map Prod.snd
  | .pcacheFind player => (s.pcacheFind w player).map Prod.snd
  | .pcacheReload player => s.pcacheReload w player
  | .pcacheTrim => s.pcacheTrim w
  | .pcacheSync => s.pcacheSync w
  | .pcachePurge player => s.pcachePurge player
  | .aQueue player adj => s.aQueue w player adj
  | .sQueue player val => s.sQueue w player val
  | .setQueueMax thing buff => s.atrAddRaw w thing .queueMax buff
  | .createObj player objtype cost quota recycled =>
    s.createObj w player objtype cost quota recycled
  | .destroyObj obj robot numhalted drained => s.destroyObj w obj robot numhalted drained

end

section

open Function (update)

/-- The types of the objects, their money, and the texts of their queue limits. -/
structure Ledger where
  typeOf : Dbref → ObjectType
  dbTop : Nat
  money : Dbref → Word
  limit : Dbref → Option Text

namespace Ledger

variable (l : Ledger) (w : World)

def goodObj (x : Dbref) : Bool := decide (0 ≤ x ∧ x < l.dbTop)

def setMoney (obj : Dbref) (n : Word) : Ledger := { l with money := update l.money obj n }

/-- The limit of an object is set, and is none when the text is empty. -/
def setLimit (obj : Dbref) (buff : Text) : Ledger :=
  { l with limit := update l.limit obj (if buff = [] then none else some buff) }

def give (who : Dbref) (amount : Word) : Ledger :=
  if w.excused who then l else l.setMoney (w.owner who) (l.money (w.owner who) + amount)

def pay (who : Dbref) (cost : Word) : Ledger :=
  if w.excused who then l
  else if cost.sle (l.money (w.owner who)) then
    l.setMoney (w.owner who) (l.money (w.owner who) - cost)
  else l

def pays (who : Dbref) (cost : Word) : Bool :=
  w.excused who || cost.sle (l.money (w.owner who))

def affords (who : Dbref) (amount : Word) : Bool :=
  w.wizard who || w.wizard (w.owner who) || w.freeMoney who || w.freeMoney (w.owner who) ||
    !(l.money (w.owner who)).slt amount

def payFees (player : Dbref) (cost : Word) (quota : Bool) : Bool × Ledger :=
  if player = nothing then (true, l)
  else if l.affords w player cost && quota then (true, l.pay w player cost)
  else (false, l)

def numberFor (recycled : Option Dbref) : Dbref × Ledger :=
  match recycled with
  | some obj =>
    if l.goodObj obj && l.typeOf obj = .garbage then (obj, l)
    else (l.dbTop, { l with dbTop := l.dbTop + 1 })
  | none => (l.dbTop, { l with dbTop := l.dbTop + 1 })

/-- An object becomes one of a type, with some money and no limit. -/
def become (obj : Dbref) (objtype : ObjectType) (n : Word) : Ledger :=
  { l with
    typeOf := update l.typeOf obj objtype
    money := update l.money obj n
    limit := update l.limit obj none }

def create (player : Dbref) (objtype : ObjectType) (cost : Word) (quota : Bool)
    (recycled : Option Dbref) : Ledger :=
  if objtype = .garbage then l
  else
    let (paid, l) := l.payFees w player (Game.feesFor w objtype cost).1 quota
    if paid then
      let (obj, l) := l.numberFor recycled
      l.become obj objtype (Game.feesFor w objtype cost).2
    else l

/-- Those whose commands are halted or drained get the money for them. -/
def refund (obj : Dbref) (numhalted : Nat) (drained : List Dbref) : Ledger :=
  drained.foldl (fun l player => l.give w player w.waitcost)
    (l.give w (w.owner obj) (w.waitcost * BitVec.ofNat 32 numhalted))

def deposit (obj : Dbref) (robot : Bool) : Word :=
  match l.typeOf obj with
  | .room => w.digcost
  | .thing => (l.money obj - w.sacadjust) * w.sacfactor
  | .exit => w.opencost
  | .player => if robot then w.robotcost else 0
  | .garbage => 1

def compensate (obj : Dbref) (robot : Bool) : Ledger :=
  if l.goodObj (w.owner obj) && l.typeOf (w.owner obj) = .player && w.owner obj ≠ obj then
    l.give w (w.owner obj) (l.deposit w obj robot)
  else l

def destroy (obj : Dbref) (robot : Bool) (numhalted : Nat) (drained : List Dbref) : Ledger :=
  if !l.goodObj obj then l
  else ((l.refund w obj numhalted drained).compensate w obj robot).become obj .garbage 0

/-- What a call does to the ledger: neither looking nor flushing nor queueing does anything. -/
def step (l : Ledger) (call : World × Op) : Ledger :=
  let w := call.1
  match call.2 with
  | .sPennies obj howfew => l.setMoney obj howfew
  | .giveto who amount => l.give w who amount
  | .payfor who cost => l.pay w who cost
  | .setQueueMax thing buff => l.setLimit thing buff
  | .createObj player objtype cost quota recycled =>
    l.create w player objtype cost quota recycled
  | .destroyObj obj robot numhalted drained => l.destroy w obj robot numhalted drained
  | _ => l

@[simp] theorem give_typeOf (who : Dbref) (amount : Word) :
    (l.give w who amount).typeOf = l.typeOf := by
  rw [give]
  split
  · rfl
  · rfl

theorem compensate_refund_typeOf (obj : Dbref) (robot : Bool) (numhalted : Nat)
    (drained : List Dbref) :
    ((l.refund w obj numhalted drained).compensate w obj robot).typeOf = l.typeOf := by
  have refunded : (l.refund w obj numhalted drained).typeOf = l.typeOf := by
    have loop : ∀ (l : Ledger),
        (drained.foldl (fun l player => l.give w player w.waitcost) l).typeOf = l.typeOf := by
      induction drained with
      | nil => exact fun _ => rfl
      | cons player later ih =>
        exact fun l => (ih _).trans (l.give_typeOf ..)
    exact (loop _).trans (l.give_typeOf ..)
  rw [compensate]
  split
  · rw [give_typeOf, refunded]
  · exact refunded

end Ledger

end

/-- What `give_money` is called with, and what it finds out about the parties. -/
structure Gift where
  giver : Dbref
  recipient : Dbref
  amount : Word
  steal : Bool
  paylimit : Word
  luse : Bool
  costText : Text

def Gift.declared (gift : Gift) : Word := wordOf (some gift.costText)

namespace Game

variable (s : Game) (w : World) (gift : Gift)

/-- The check of a giver who is no wizard: whether the recipient has enough, or the lock fails. -/
def declines : Option (Bool × Game) :=
  if w.wizard gift.giver then some (false, s)
  else if s.typeOf gift.recipient = .player then do
    let (has, s) ← s.pennies w gift.recipient
    some (gift.paylimit.slt (has + gift.amount) || !gift.luse, s)
  else some (!gift.luse, s)

def change (cost : Word) : Option Game :=
  if gift.amount - cost = 1 then s.giveto w gift.giver 1
  else if gift.amount ≠ cost then s.giveto w gift.giver (gift.amount - cost)
  else some s

/-- The end of `give_money`. -/
def handOver (didIt : Game → Option Game) (cost : Word) : Option Game := do
  let s ← s.change w gift cost
  let s ← s.giveto w gift.recipient cost
  didIt s

/-- `give_money` after the giver has paid. -/
def settleGift (didIt : Game → Option Game) : Option Game :=
  if s.typeOf gift.recipient = .thing then
    if gift.amount.slt gift.declared then s.giveto w gift.giver gift.amount
    else if gift.declared.slt 0 then some s
    else s.handOver w gift didIt gift.declared
  else s.handOver w gift didIt gift.amount

def giveMoney (didIt : Game → Option Game) : Option Game :=
  if gift.amount.slt 0 && !gift.steal then some s
  else if gift.amount = 0 then some s
  else do
    let (declined, s) ← s.declines w gift
    if declined then some s
    else do
      let (paid, s) ← s.payfor w gift.giver gift.amount
      if paid then s.settleGift w gift didIt else some s

end Game

namespace Ledger

variable (l : Ledger) (w : World) (gift : Gift)

/-- A giver who is no wizard is told that the recipient has enough, or the lock fails. -/
def declines : Bool :=
  !w.wizard gift.giver &&
    (decide (l.typeOf gift.recipient = .player) &&
      gift.paylimit.slt (l.money gift.recipient + gift.amount) || !gift.luse)

def handOver (cost : Word) : Ledger :=
  (if gift.amount = cost then l else l.give w gift.giver (gift.amount - cost)).give w
    gift.recipient cost

/-- What `give_money` does to the ledger after the giver has paid, and whether the gift is taken. -/
def settleGift : Bool × Ledger :=
  if l.typeOf gift.recipient = .thing then
    if gift.amount.slt gift.declared then (false, l.give w gift.giver gift.amount)
    else if gift.declared.slt 0 then (false, l)
    else (true, l.handOver w gift gift.declared)
  else (true, l.handOver w gift gift.amount)

/-- What `give_money` does to the ledger up to the pay attributes, and whether it comes there. -/
def giveMoney : Bool × Ledger :=
  if gift.amount.slt 0 && !gift.steal then (false, l)
  else if gift.amount = 0 then (false, l)
  else if l.declines w gift then (false, l)
  else if l.pays w gift.giver gift.amount then
    (l.pay w gift.giver gift.amount).settleGift w gift
  else (false, l)

end Ledger

end BattletechMux.Money
