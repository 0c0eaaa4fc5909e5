/-
Module: BattletechMux.Event.Store
Purpose: The timed-event store of event/event.c over explicit memory, with the special objects that
  glue.c creates and disposes of meanwhile, and the lists behind its pointers.
Trusted boundary: what a write before the ring of buckets overwrites is left out
-/
import Mathlib
import BattletechMux.Foundation.Fifo
import BattletechMux.Foundation.Machine

namespace BattletechMux.EventQueue

open Function (update)

section

open LinkedMemory (SingleList BidirList)

def lookaheadStackSize : Nat := 70

abbrev Addr := Nat

/-- A `void (*function) (EVENT *)` pointer. -/
abbrev Func := Nat

/-- A `void *data` or `void *data2` value. -/
abbrev Pointer := Nat

/-- An event type number.  The node keeps it in a `char`; the callers pass the
`EVENT_*` constants of mech.events.h, all below 128. -/
abbrev EventType := Fin 128

instance eventTypes_pos : NeZero (128 : Nat) := ⟨by decide⟩

/-- The `EVENT` fields other than the links.  `serial` is not in the C record:
it numbers the `event_add` call that filled the node, so that a recycled node
can be told from the event it held before. -/
structure Event where
  flags : Nat
  function : Func
  data : Pointer
  data2 : Pointer
  tick : Nat
  type : EventType
  serial : Nat
deriving Repr, Inhabited, DecidableEq

/-- Bit number of `FLAG_ZOMBIE`. -/
def zombieBit : Nat := 2

def flagZombie : Nat := 4

/-- `Zombie(e)`. -/
def Event.zombie (e : Event) : Bool := e.flags.testBit zombieBit

/-- `e->flags |= FLAG_ZOMBIE`. -/
def Event.markZombie (e : Event) : Event := { e with flags := e.flags ||| flagZombie }

inductive Caller where
  | eventRun
  | eventRunByType
deriving Repr, Inhabited, DecidableEq

/-- What the store has done so far, as an observer would log it.  No function
of the store reads it. -/
inductive Occurrence where
  | added (serial tick : Nat) (time : Int) (flags : Nat)
  | marked (serial tick : Nat)
  | called (serial tick : Nat) (caller : Caller)
deriving Repr, Inhabited, DecidableEq

def heapBase : Nat := 2 ^ 32

/-- The address of the object that was created as the `n`th. -/
def objectAt (n : Nat) : Nat := heapBase + 2 * n

/-- The objects of `xcode_tree` and what has been freed. -/
structure SpecialObjects where
  xcodeTree : Int → Option Pointer
  created : Nat
  freed : Pointer → Bool

/-- An object is created where there is none. -/
def SpecialObjects.create (objects : SpecialObjects) (key : Int) : SpecialObjects :=
  match objects.xcodeTree key with
  | none =>
    { objects with
      created := objects.created + 1
      xcodeTree := update objects.xcodeTree key (some (objectAt objects.created)) }
  | some _ => objects

/-- The end of `DisposeSpecialObject`: the entry is deleted and its data freed.  `known` tells
whether the object has a type. -/
def SpecialObjects.dispose (objects : SpecialObjects) (key : Int) (known : Bool) : SpecialObjects :=
  if known then
    match objects.xcodeTree key with
    | some t =>
      { objects with
        xcodeTree := update objects.xcodeTree key none
        freed := update objects.freed t true }
    | none => objects
  else objects

/-- The static variables of event.c, the memory of its nodes, and the objects. -/
structure Store where
  info : Addr → Event
  next : Addr → Option Addr
  nextInMain : Addr → Option Addr
  prevInMain : Addr → Option Addr
  nextInType : Addr → Option Addr
  prevInType : Addr → Option Addr
  /-- The nodes `Create` has handed out so far are those below this address. -/
  allocated : Nat
  eventStack : Nat → Option Addr
  eventFirstInType : Nat → Option Addr
  eventList : Option Addr
  eventFreeList : Option Addr
  eventTick : Nat
  eventCounter : Nat
  lastEventType : Int
  eventsScheduled : Nat
  eventsExecuted : Nat
  eventsZombies : Nat
  objects : SpecialObjects
  /-- The occurrences so far, latest first. -/
  history : List Occurrence
  /-- What was disposed of so far, with the events that were pending then; not read either. -/
  disposals : List (Pointer × List Event)

def Store.empty : Store :=
  { info := fun _ => default
    next := fun _ => none
    nextInMain := fun _ => none
    prevInMain := fun _ => none
    nextInType := fun _ => none
    prevInType := fun _ => none
    allocated := 0
    eventStack := fun _ => none
    eventFirstInType := fun _ => none
    eventList := none
    eventFreeList := none
    eventTick := 0
    eventCounter := 0
    lastEventType := -1
    eventsScheduled := 0
    eventsExecuted := 0
    eventsZombies := 0
    objects := ⟨fun _ => none, 0, fun _ => false⟩
    history := []
    disposals := [] }

namespace Store

/-- The list at `event_list`. -/
def mainList (s : Store) : BidirList Addr :=
  { head := s.eventList, next := s.nextInMain, prev := s.prevInMain }

/-- The list at `event_first_in_type[type]`. -/
def typeList (s : Store) (type : Nat) : BidirList Addr :=
  { head := s.eventFirstInType type, next := s.nextInType, prev := s.prevInType }

/-- The list at `event_stack[spot]`. -/
def bucketList (s : Store) (spot : Nat) : SingleList Addr :=
  { head := s.eventStack spot, next := s.next }

/-- The list at `event_free_list`. -/
def freeList (s : Store) : SingleList Addr :=
  { head := s.eventFreeList, next := s.next }

/-- Write back `event_list` and its two link fields. -/
def setMainList (s : Store) (list : BidirList Addr) : Store :=
  { s with
    eventList := list.head, nextInMain := list.next, prevInMain := list.prev }

/-- Write back `event_first_in_type[type]` and its two link fields. -/
def setTypeList (s : Store) (type : Nat) (list : BidirList Addr) : Store :=
  { s with
    eventFirstInType := update s.eventFirstInType type list.head
    nextInType := list.next
    prevInType := list.prev }

/-- Write back `event_stack[spot]` and `next`. -/
def setBucketList (s : Store) (spot : Nat) (list : SingleList Addr) : Store :=
  { s with eventStack := update s.eventStack spot list.head, next := list.next }

/-- Write back `event_free_list` and `next`. -/
def setFreeList (s : Store) (list : SingleList Addr) : Store :=
  { s with eventFreeList := list.head, next := list.next }

/-- The events of the main list that are no zombies. -/
def pending (s : Store) : List Event :=
  ((LinkedMemory.visited s.nextInMain (s.allocated + 1) s.eventList).map s.info).filter
    fun event => !event.zombie

def log (s : Store) (occurrence : Occurrence) : Store :=
  { s with history := occurrence :: s.history }

/-- Mark the node at `e` a zombie. -/
def mark (s : Store) (e : Addr) : Store :=
  { s with info := update s.info e (s.info e).markZombie }.log
    (.marked (s.info e).serial s.eventTick)

end Store

def addToBidirListHead (list : BidirList Addr) (b : Addr) : BidirList Addr := list.push b

def removeFromBidirList (list : BidirList Addr) (b : Addr) : BidirList Addr := list.remove b

def addToListHead (list : SingleList Addr) (b : Addr) : SingleList Addr := list.push b

/-- `REMOVE_FROM_LIST`.  The macro's walk has no limit of its own; `limit` is
the number of nodes there are. -/
def removeFromList (limit : Nat) (list : SingleList Addr) (b : Addr) :
    Option (SingleList Addr) :=
  list.remove limit b

/-- Growing `event_first_in_type` up to `type`, the new entries NULL. -/
def growTypes (s : Store) (type : EventType) : Store :=
  if (type.val : Int) > s.lastEventType then
    { s with
      eventFirstInType := fun i =>
        if s.lastEventType < i ∧ i ≤ type.val then none
        else s.eventFirstInType i
      lastEventType := type.val }
  else s

/-- How ticks are counted: the place of a tick in the ring, and whether a tick is after another. -/
class Clock where
  spot : Nat → Nat
  after : Nat → Nat → Bool

/-- Ticks are numbers. -/
instance exactClock : Clock := ⟨(· % lookaheadStackSize), fun tick now => decide (now < tick)⟩

@[simp] theorem exactClock_after (tick now : Nat) :
    Clock.after tick now = decide (now < tick) := rfl

/-- The `int` that holds a tick. -/
def tickInt (tick : Nat) : Int := (BitVec.ofNat 32 tick).toInt

/-- Ticks are of type `int`; a negative subscript becomes a place beyond the ring. -/
abbrev intClock : Clock :=
  ⟨fun tick => (BitVec.ofInt 32 ((tickInt tick).tmod lookaheadStackSize)).toNat,
    fun tick now => decide (tickInt now < tickInt tick)⟩

def takeNode (s : Store) : Addr × Store :=
  match s.eventFreeList with
  | some e => (e, { s with eventFreeList := s.next e })
  | none => (s.allocated, { s with allocated := s.allocated + 1 })

def eventAdd [Clock] (s : Store) (time : Int) (flags : Nat) (type : EventType)
    (function : Func) (data data2 : Pointer) : Store :=
  let serial := s.eventsScheduled
  let s := { s with eventsScheduled := s.eventsScheduled + 1 }
  let delay := time
  let time : Nat := (if time < 1 then 1 else time).toNat
  let s := growTypes s type
  let (e, s) := takeNode s
  let s :=
    { s with
      info := update s.info e
        { flags, function, data, data2, type, serial, tick := s.eventTick + time }
      next := update s.next e none }
  let s := s.setMainList (addToBidirListHead s.mainList e)
  let s := s.setTypeList type (addToBidirListHead (s.typeList type) e)
  let spot := Clock.spot (s.eventTick + time)
  let s := s.setBucketList spot (addToListHead (s.bucketList spot) e)
  s.log (.added serial s.eventTick delay flags)

/-- `event_delete`.  Freeing `data` and `data2` touches no field of the
store. -/
def eventDelete (s : Store) (e : Addr) (fp : Nat) : Option Store := do
  let s := s.setMainList (removeFromBidirList s.mainList e)
  let type := (s.info e).type
  let s := s.setTypeList type (removeFromBidirList (s.typeList type) e)
  let bucket ← removeFromList s.allocated (s.bucketList fp) e
  let s := s.setBucketList fp bucket
  return s.setFreeList (addToListHead s.freeList e)

/-- The loop of the `event_remove_*` functions: walk a list and mark the
events that match.  `limit` bounds the walk. -/
def markLoop (link : Store → Addr → Option Addr) (matching : Event → Bool) :
    Nat → Option Addr → Store → Option Store
  | _, none, s => some s
  | 0, some _, _ => none
  | limit + 1, some e, s =>
    let s := if matching (s.info e) then s.mark e else s
    markLoop link matching limit (link s e) s

def eventRemoveData (s : Store) (data : Pointer) : Option Store :=
  markLoop Store.nextInMain (fun e => e.data == data) s.allocated s.eventList s

/-- The shared body of the `event_remove_type_*` functions. -/
def markType (s : Store) (type : EventType) (matching : Event → Bool) :
    Option Store :=
  if (type.val : Int) > s.lastEventType then some s
  else markLoop Store.nextInType matching s.allocated (s.eventFirstInType type) s

def eventRemoveTypeData (s : Store) (type : EventType) (data : Pointer) :
    Option Store :=
  markType s type fun e => e.data == data

def eventRemoveTypeData2 (s : Store) (type : EventType) (data : Pointer) :
    Option Store :=
  markType s type fun e => e.data2 == data

def eventRemoveTypeDataData (s : Store) (type : EventType)
    (data data2 : Pointer) : Option Store :=
  markType s type fun e => e.data == data && e.data2 == data2

/-- `DisposeSpecialObject`. -/
def disposeSpecialObject (s : Store) (key : Int) (known : Bool) : Option Store :=
  match if known then s.objects.xcodeTree key else none with
  | some t =>
    eventRemoveData { s with
      objects := s.objects.dispose key known
      disposals := (t, s.pending) :: s.disposals } t
  | none => some s

/-- The calls an event's function may make on the store and the objects, and that the rest of
the server makes between ticks. -/
inductive Action where
  | add (time : Int) (flags : Nat) (type : EventType) (function : Func)
      (data data2 : Pointer)
  | removeData (data : Pointer)
  | removeTypeData (type : EventType) (data : Pointer)
  | removeTypeData2 (type : EventType) (data : Pointer)
  | removeTypeDataData (type : EventType) (data data2 : Pointer)
  | create (key : Int)
  | dispose (key : Int) (known : Bool)
deriving Repr, DecidableEq

def Store.act [Clock] (s : Store) : Action → Option Store
  | .add time flags type function data data2 =>
    some (eventAdd s time flags type function data data2)
  | .removeData data => eventRemoveData s data
  | .removeTypeData type data => eventRemoveTypeData s type data
  | .removeTypeData2 type data => eventRemoveTypeData2 s type data
  | .removeTypeDataData type data data2 => eventRemoveTypeDataData s type data data2
  | .create key => some { s with objects := s.objects.create key }
  | .dispose key known => disposeSpecialObject s key known

def Store.acts [Clock] (s : Store) (actions : List Action) : Option Store :=
  Machine.run Store.act s actions

/-- What the event functions do: the calls each makes on the store when it is
called for the node at an address.  A function may look at the whole store,
its history included. -/
abbrev Callbacks := Func → Addr → Store → List Action

/-- `prerun_event(e); e->function(e); postrun_event(e);` -/
def callFunction [Clock] (callbacks : Callbacks) (caller : Caller) (s : Store)
    (e : Addr) : Option Store :=
  let s := s.log (.called (s.info e).serial s.eventTick caller)
  s.acts (callbacks (s.info e).function e s)

/-- The loop of `event_run` over the bucket `counter`. -/
def runBucket [Clock] (callbacks : Callbacks) (counter : Nat) :
    Nat → Option Addr → Store → Option Store
  | _, none, s => some s
  | 0, some _, _ => none
  | limit + 1, some e, s =>
    let e2 := s.next e
    if Clock.after (s.info e).tick s.eventTick && !(s.info e).zombie then
      runBucket callbacks counter limit e2 s
    else do
      let s ←
        if !(s.info e).zombie then do
          let s ← callFunction callbacks .eventRun s e
          some { s with eventsExecuted := s.eventsExecuted + 1 }
        else some { s with eventsZombies := s.eventsZombies + 1 }
      let s ← eventDelete s e counter
      runBucket callbacks counter limit e2 s

def eventRun [Clock] (callbacks : Callbacks) (s : Store) : Option Store :=
  let s := { s with eventTick := s.eventTick + 1 }
  let s := { s with eventCounter := Clock.spot s.eventTick }
  runBucket callbacks s.eventCounter s.allocated (s.eventStack s.eventCounter) s

/-- The loop of `event_run_by_type`, counting the events it runs. -/
def runType [Clock] (callbacks : Callbacks) :
    Nat → Option Addr → Nat → Store → Option (Nat × Store)
  | _, none, ran, s => some (ran, s)
  | 0, some _, _, _ => none
  | limit + 1, some e, ran, s =>
    if !(s.info e).zombie then do
      let s ← callFunction callbacks .eventRunByType s e
      let s := s.mark e
      runType callbacks limit (s.nextInType e) (ran + 1) s
    else runType callbacks limit (s.nextInType e) ran s

def eventRunByType [Clock] (callbacks : Callbacks) (s : Store) (type : EventType) :
    Option (Nat × Store) :=
  if (type.val : Int) ≤ s.lastEventType then
    runType callbacks s.allocated (s.eventFirstInType type) 0 s
  else some (0, s)

inductive Operation where
  | act (action : Action)
  | run (callbacks : Callbacks)
  | runByType (callbacks : Callbacks) (type : EventType)

def Store.perform [Clock] (s : Store) : Operation → Option Store
  | .act action => s.act action
  | .run callbacks => eventRun callbacks s
  | .runByType callbacks type => (eventRunByType callbacks s type).map Prod.snd

/-- Perform a sequence of operations from the empty queue. -/
def performs [Clock] (operations : List Operation) : Option Store :=
  Machine.run Store.perform Store.empty operations

end

open LinkedMemory

structure Lists where
  main : List Addr
  inType : Nat → List Addr
  bucket : Nat → List Addr
  free : List Addr

def Lists.empty : Lists :=
  { main := [], inType := fun _ => [], bucket := fun _ => [], free := [] }

/-- The lists with a node in front of the main list, its type's list and its
bucket. -/
def Lists.push (l : Lists) (e : Addr) (type spot : Nat) : Lists :=
  { l with
    main := e :: l.main
    inType := update l.inType type (e :: l.inType type)
    bucket := update l.bucket spot (e :: l.bucket spot) }

def Lists.erase (l : Lists) (e : Addr) : Lists :=
  { main := l.main.erase e
    inType := fun type => (l.inType type).erase e
    bucket := fun spot => (l.bucket spot).erase e
    free := e :: l.free }

def Event.spot (e : Event) : Nat := e.tick % lookaheadStackSize

/-- The pointers of the store describe exactly these lists, and the lists agree
with each other. -/
structure Represents (s : Store) (l : Lists) : Prop where
  main_holds : s.mainList.Holds l.main
  type_holds : ∀ type, (s.typeList type).Holds (l.inType type)
  bucket_chain : ∀ spot, Chain s.next (s.eventStack spot) (l.bucket spot)
  free_chain : Chain s.next s.eventFreeList l.free
  mem_inType : ∀ type e,
    e ∈ l.inType type ↔ e ∈ l.main ∧ (s.info e).type.val = type
  mem_bucket : ∀ spot e,
    e ∈ l.bucket spot ↔ e ∈ l.main ∧ (s.info e).spot = spot
  free_notMem : ∀ e ∈ l.free, e ∉ l.main
  main_lt : ∀ e ∈ l.main, e < s.allocated
  free_lt : ∀ e ∈ l.free, e < s.allocated
  type_le : ∀ e ∈ l.main, ((s.info e).type.val : Int) ≤ s.lastEventType

theorem represents_empty : Represents Store.empty Lists.empty where
  main_holds := ⟨rfl, trivial⟩
  type_holds _ := ⟨rfl, trivial⟩
  bucket_chain _ := rfl
  free_chain := rfl
  mem_inType := by simp [Lists.empty]
  mem_bucket := by simp [Lists.empty]
  free_notMem := by simp [Lists.empty]
  main_lt := by simp [Lists.empty]
  free_lt := by simp [Lists.empty]
  type_le := by simp [Lists.empty]

namespace Represents

variable {s : Store} {l : Lists}

section

variable (rep : Represents s l)
include rep

theorem main_nodup : l.main.Nodup :=
  rep.main_holds.chain.nodup

theorem type_nodup (type : Nat) : (l.inType type).Nodup :=
  (rep.type_holds type).chain.nodup

theorem bucket_nodup (spot : Nat) : (l.bucket spot).Nodup :=
  (rep.bucket_chain spot).nodup

theorem main_length_le : l.main.length ≤ s.allocated :=
  length_le_of_lt rep.main_nodup rep.main_lt

theorem type_length_le (type : Nat) : (l.inType type).length ≤ s.allocated :=
  length_le_of_lt (rep.type_nodup type) fun e mem =>
    rep.main_lt e ((rep.mem_inType type e).mp mem).1

theorem bucket_length_le (spot : Nat) : (l.bucket spot).length ≤ s.allocated :=
  length_le_of_lt (rep.bucket_nodup spot) fun e mem =>
    rep.main_lt e ((rep.mem_bucket spot e).mp mem).1

theorem congr {s' : Store} (main : s'.mainList = s.mainList)
    (nextInType : s'.nextInType = s.nextInType) (prevInType : s'.prevInType = s.prevInType)
    (eventFirstInType : s'.eventFirstInType = s.eventFirstInType)
    (next : s'.next = s.next) (eventStack : s'.eventStack = s.eventStack)
    (eventFreeList : s'.eventFreeList = s.eventFreeList) (allocated : s'.allocated = s.allocated)
    (lastEventType : s'.lastEventType = s.lastEventType)
    (info : ∀ e ∈ l.main, (s'.info e).type = (s.info e).type ∧ (s'.info e).tick = (s.info e).tick) :
    Represents s' l where
  main_holds := main ▸ rep.main_holds
  type_holds type := by
    have eq : s'.typeList type = s.typeList type := by
      simp [Store.typeList, nextInType, prevInType, eventFirstInType]
    exact eq ▸ rep.type_holds type
  bucket_chain spot := by
    rw [next, eventStack]
    exact rep.bucket_chain spot
  free_chain := by
    rw [next, eventFreeList]
    exact rep.free_chain
  mem_inType type e := by
    rw [rep.mem_inType]
    refine and_congr_right fun mem => ?_
    rw [(info e mem).1]
  mem_bucket spot e := by
    rw [rep.mem_bucket]
    refine and_congr_right fun mem => ?_
    rw [Event.spot, Event.spot, (info e mem).2]
  free_notMem := rep.free_notMem
  main_lt := allocated ▸ rep.main_lt
  free_lt := allocated ▸ rep.free_lt
  type_le e mem := by
    rw [(info e mem).1, lastEventType]
    exact rep.type_le e mem

theorem disposed (objects : SpecialObjects) (disposals : List (Pointer × List Event)) :
    Represents { s with objects, disposals } l :=
  rep.congr rfl rfl rfl rfl rfl rfl rfl rfl rfl fun _ _ => ⟨rfl, rfl⟩

theorem log (occurrence : Occurrence) : Represents (s.log occurrence) l :=
  rep.congr rfl rfl rfl rfl rfl rfl rfl rfl rfl fun _ _ => ⟨rfl, rfl⟩

end

end Represents

section Add

variable {s : Store} {l : Lists}

theorem growTypes_eq (s : Store) (type : EventType) :
    growTypes s type =
      { s with
        eventFirstInType := fun i =>
          if s.lastEventType < i ∧ i ≤ type.val then none
          else s.eventFirstInType i
        lastEventType := max s.lastEventType type.val } := by
  unfold growTypes
  split
  · rename_i larger
    have last : max s.lastEventType (type.val : Int) = type.val := by omega
    rw [last]
  · rename_i notLarger
    have untouched :
        (fun i : Nat =>
          if s.lastEventType < i ∧ i ≤ type.val then none
          else s.eventFirstInType i) = s.eventFirstInType := by
      funext i
      rw [if_neg]
      omega
    have last : max s.lastEventType (type.val : Int) = s.lastEventType := by omega
    rw [untouched, last]

theorem growTypes_represents (rep : Represents s l) (type : EventType) :
    Represents (growTypes s type) l := by
  rw [growTypes_eq]
  refine { rep with type_holds := ?_, type_le := ?_ }
  · intro i
    by_cases fresh : s.lastEventType < i ∧ i ≤ type.val
    · -- A type beyond the old array had no event.
      have none_in : l.inType i = [] := by
        refine List.eq_nil_iff_forall_not_mem.mpr fun e mem => ?_
        have inMain := (rep.mem_inType i e).mp mem
        have bound := rep.type_le e inMain.1
        omega
      rw [none_in]
      exact ⟨by simp [Store.typeList, fresh], trivial⟩
    · have eq := rep.type_holds i
      simpa [Store.typeList, fresh] using eq
  · intro e mem
    have bound := rep.type_le e mem
    simp only
    omega

structure Taken (s s' : Store) (l : Lists) (e : Addr) : Prop where
  represents : Represents s' { l with free := l.free.tail }
  notMain : e ∉ l.main
  notFree : e ∉ l.free.tail
  lt : e < s'.allocated
  grows : s.allocated ≤ s'.allocated
  info : s'.info = s.info
  lastEventType : s'.lastEventType = s.lastEventType
  eventTick : s'.eventTick = s.eventTick
  eventCounter : s'.eventCounter = s.eventCounter
  eventsScheduled : s'.eventsScheduled = s.eventsScheduled
  eventsExecuted : s'.eventsExecuted = s.eventsExecuted
  eventsZombies : s'.eventsZombies = s.eventsZombies
  history : s'.history = s.history

theorem takeNode_spec (rep : Represents s l) :
    ∃ e s', takeNode s = (e, s') ∧ Taken s s' l e := by
  have freeChain := rep.free_chain
  cases freeList : l.free with
  | nil =>
    rw [freeList] at freeChain
    have empty : s.eventFreeList = none := freeChain
    refine ⟨s.allocated, { s with allocated := s.allocated + 1 },
      by simp [takeNode, empty], ?_⟩
    refine
      { represents :=
          { rep with
            free_chain := by simpa [freeList] using freeChain
            free_notMem := by simp [freeList]
            main_lt := fun e mem => Nat.lt_succ_of_lt (rep.main_lt e mem)
            free_lt := by simp [freeList] }
        notMain := fun mem => Nat.lt_irrefl _ (rep.main_lt _ mem)
        notFree := by simp [freeList]
        lt := Nat.lt_succ_self _
        grows := Nat.le_succ _
        info := rfl
        lastEventType := rfl
        eventTick := rfl
        eventCounter := rfl
        eventsScheduled := rfl
        eventsExecuted := rfl
        eventsZombies := rfl
        history := rfl }
  | cons e rest =>
    rw [freeList] at freeChain
    have head : s.eventFreeList = some e := freeChain.1
    refine ⟨e, { s with eventFreeList := s.next e },
      by simp [takeNode, head], ?_⟩
    refine
      { represents :=
          { rep with
            free_chain := by simpa [freeList] using freeChain.2
            free_notMem := fun e mem =>
              rep.free_notMem e (List.mem_of_mem_tail mem)
            free_lt := fun e mem =>
              rep.free_lt e (List.mem_of_mem_tail mem) }
        notMain := rep.free_notMem e (by simp [freeList])
        notFree := by simpa [freeList] using
          (List.nodup_cons.mp freeChain.nodup).1
        lt := rep.free_lt e (by simp [freeList])
        grows := Nat.le_refl _
        info := rfl
        lastEventType := rfl
        eventTick := rfl
        eventCounter := rfl
        eventsScheduled := rfl
        eventsExecuted := rfl
        eventsZombies := rfl
        history := rfl }

theorem fill_represents (rep : Represents s l) {e : Addr} (event : Event)
    (notMain : e ∉ l.main) (notFree : e ∉ l.free) :
    Represents { s with
      info := update s.info e event, next := update s.next e none } l := by
  have ne : ∀ o ∈ l.main, o ≠ e := by
    intro o mem eq
    exact notMain (eq ▸ mem)
  refine
    { rep with
      bucket_chain := fun spot => (rep.bucket_chain spot).update_of_notMem ?_
      free_chain := rep.free_chain.update_of_notMem notFree
      mem_inType := fun type o => ?_
      mem_bucket := fun spot o => ?_
      type_le := fun o mem => ?_ }
  · intro mem
    exact notMain ((rep.mem_bucket spot e).mp mem).1
  · rw [rep.mem_inType]
    refine and_congr_right fun mem => ?_
    simp [ne o mem]
  · rw [rep.mem_bucket]
    refine and_congr_right fun mem => ?_
    simp [ne o mem]
  · simpa [ne o mem] using rep.type_le o mem

/-- The three insertions of `event_add`. -/
def linkNode (s : Store) (e : Addr) (type spot : Nat) : Store :=
  let s := s.setMainList (addToBidirListHead s.mainList e)
  let s := s.setTypeList type (addToBidirListHead (s.typeList type) e)
  s.setBucketList spot (addToListHead (s.bucketList spot) e)

theorem linkNode_represents (rep : Represents s l) {e : Addr}
    (notMain : e ∉ l.main) (notFree : e ∉ l.free) (lt : e < s.allocated)
    (typeLe : ((s.info e).type.val : Int) ≤ s.lastEventType) :
    Represents (linkNode s e (s.info e).type (s.info e).spot)
      (l.push e (s.info e).type (s.info e).spot) := by
  have notInType : ∀ type, e ∉ l.inType type := fun type mem =>
    notMain ((rep.mem_inType type e).mp mem).1
  have notInBucket : ∀ spot, e ∉ l.bucket spot := fun spot mem =>
    notMain ((rep.mem_bucket spot e).mp mem).1
  refine
    { main_holds := BidirList.push_holds rep.main_holds notMain
      type_holds := fun type => ?_
      bucket_chain := fun spot => ?_
      free_chain := SingleList.push_frame rep.free_chain notFree
      mem_inType := fun type o => ?_
      mem_bucket := fun spot o => ?_
      free_notMem := fun o mem => ?_
      main_lt := fun o mem => ?_
      free_lt := rep.free_lt
      type_le := fun o mem => ?_ }
  · by_cases own : type = (s.info e).type
    · subst own
      simpa [Lists.push, linkNode, Store.typeList, Store.setBucketList,
        Store.setTypeList, Store.setMainList, addToBidirListHead] using
        BidirList.push_holds (rep.type_holds _) (notInType _)
    · have apart : ∀ o ∈ l.inType type,
          o ∉ l.inType (s.info e).type.val := by
        intro o mem eq
        have one := ((rep.mem_inType _ _).mp mem).2
        have two := ((rep.mem_inType _ _).mp eq).2
        exact own (one.symm.trans two)
      have kept := BidirList.push_frame (rep.type_holds (s.info e).type)
        (rep.type_holds type) (notInType type) apart
      simpa [Lists.push, linkNode, Store.typeList, Store.setBucketList,
        Store.setTypeList, Store.setMainList, own, BidirList.Holds,
        addToBidirListHead] using kept
  · by_cases own : spot = (s.info e).spot
    · subst own
      have pushed := (rep.bucket_chain (s.info e).spot).push (notInBucket _)
      simpa [Lists.push, linkNode, Store.bucketList, Store.setBucketList,
        Store.setTypeList, Store.setMainList, addToListHead,
        SingleList.push] using pushed
    · simpa [Lists.push, linkNode, Store.bucketList, Store.setBucketList,
        Store.setTypeList, Store.setMainList, own, addToListHead] using
        SingleList.push_frame (rep.bucket_chain spot) (notInBucket spot)
  · have info : (linkNode s e (s.info e).type (s.info e).spot).info = s.info := rfl
    rw [info]
    by_cases own : type = (s.info e).type
    · subst own
      by_cases eq : o = e
      · simp [Lists.push, eq]
      · simp [Lists.push, eq, rep.mem_inType]
    · by_cases eq : o = e
      · subst eq
        simp [Lists.push, own, notInType, Ne.symm own]
      · simp [Lists.push, own, eq, rep.mem_inType]
  · have info : (linkNode s e (s.info e).type (s.info e).spot).info = s.info := rfl
    rw [info]
    by_cases own : spot = (s.info e).spot
    · subst own
      by_cases eq : o = e
      · simp [Lists.push, eq]
      · simp [Lists.push, eq, rep.mem_bucket]
    · by_cases eq : o = e
      · subst eq
        simp [Lists.push, own, notInBucket, Ne.symm own]
      · simp [Lists.push, own, eq, rep.mem_bucket]
  · have ne : o ≠ e := by
      intro eq
      exact notFree (eq ▸ mem)
    simpa [Lists.push, ne] using rep.free_notMem o mem
  · rcases List.mem_cons.mp mem with new | old
    · exact new ▸ lt
    · exact rep.main_lt o old
  · rcases List.mem_cons.mp mem with new | old
    · exact new ▸ typeLe
    · exact rep.type_le o old

/-- What `event_add` does to the lists and the data it records. -/
structure Added (s s' : Store) (l l' : Lists) (time : Int) (flags : Nat)
    (event : Event) (e : Addr) : Prop where
  represents : Represents s' l'
  lists : l' = { l with free := l.free.tail }.push e event.type event.spot
  fresh : e ∉ l.main
  info : s'.info = update s.info e event
  eventTick : s'.eventTick = s.eventTick
  eventCounter : s'.eventCounter = s.eventCounter
  eventsScheduled : s'.eventsScheduled = s.eventsScheduled + 1
  eventsExecuted : s'.eventsExecuted = s.eventsExecuted
  eventsZombies : s'.eventsZombies = s.eventsZombies
  history : s'.history =
    .added s.eventsScheduled s.eventTick time flags :: s.history
  allocated : s.allocated ≤ s'.allocated

theorem eventAdd_represents (rep : Represents s l) (time : Int) (flags : Nat)
    (type : EventType) (function : Func) (data data2 : Pointer) :
    ∃ e l', Added s (eventAdd s time flags type function data data2) l l' time
      flags
      { flags, function, data, data2, type, serial := s.eventsScheduled
        tick := s.eventTick + (if time < 1 then 1 else time).toNat } e := by
  have counted : Represents { s with eventsScheduled := s.eventsScheduled + 1 } l :=
    rep.congr rfl rfl rfl rfl rfl rfl rfl rfl rfl fun _ _ => ⟨rfl, rfl⟩
  have grown := growTypes_represents counted type
  obtain ⟨e, s', taking, taken⟩ := takeNode_spec grown
  let event : Event :=
    { flags, function, data, data2, type, serial := s.eventsScheduled
      tick := s.eventTick + (if time < 1 then 1 else time).toNat }
  have filled := fill_represents taken.represents event taken.notMain taken.notFree
  have typeLe : (type.val : Int) ≤ s'.lastEventType := by
    rw [taken.lastEventType, growTypes_eq]
    simp only
    omega
  have linked := linkNode_represents filled taken.notMain taken.notFree taken.lt
    (by simpa using typeLe)
  have tick : s'.eventTick = s.eventTick := by rw [taken.eventTick, growTypes_eq]
  have added : eventAdd s time flags type function data data2 =
      (linkNode { s' with
          info := update s'.info e event, next := update s'.next e none } e type
        event.spot).log (.added s.eventsScheduled s.eventTick time flags) := by
    simp only [eventAdd, taking, linkNode, Event.spot, event, tick, Clock.spot]
    rfl
  refine ⟨e, { l with free := l.free.tail }.push e event.type event.spot, ?_⟩
  rw [added]
  exact
    { represents := by
        refine Represents.log ?_ _
        simpa using linked
      lists := rfl
      fresh := taken.notMain
      info := by
        change update s'.info e event = update s.info e event
        rw [taken.info, growTypes_eq]
      eventTick := tick
      eventCounter := by
        change s'.eventCounter = s.eventCounter
        rw [taken.eventCounter, growTypes_eq]
      eventsScheduled := by
        change s'.eventsScheduled = s.eventsScheduled + 1
        rw [taken.eventsScheduled, growTypes_eq]
      eventsExecuted := by
        change s'.eventsExecuted = s.eventsExecuted
        rw [taken.eventsExecuted, growTypes_eq]
      eventsZombies := by
        change s'.eventsZombies = s.eventsZombies
        rw [taken.eventsZombies, growTypes_eq]
      history := by
        change _ :: s'.history = _ :: s.history
        rw [taken.history, growTypes_eq]
      allocated := by
        have grows := taken.grows
        rw [growTypes_eq] at grows
        exact grows }

end Add

section Delete

variable {s : Store} {l : Lists}

/-- What `event_delete` does: the node moves to the free list and nothing else
changes. -/
structure Deleted (s s' : Store) (l : Lists) (e : Addr) : Prop where
  represents : Represents s' (l.erase e)
  info : s'.info = s.info
  eventTick : s'.eventTick = s.eventTick
  eventCounter : s'.eventCounter = s.eventCounter
  eventsScheduled : s'.eventsScheduled = s.eventsScheduled
  eventsExecuted : s'.eventsExecuted = s.eventsExecuted
  eventsZombies : s'.eventsZombies = s.eventsZombies
  history : s'.history = s.history
  allocated : s'.allocated = s.allocated

theorem eventDelete_represents (rep : Represents s l) {e : Addr}
    (mem : e ∈ l.main) :
    ∃ s', eventDelete s e (s.info e).spot = some s' ∧ Deleted s s' l e := by
  obtain ⟨mainBefore, mainAfter, mainSplit⟩ := List.append_of_mem mem
  have inType : e ∈ l.inType (s.info e).type.val :=
    (rep.mem_inType _ _).mpr ⟨mem, rfl⟩
  obtain ⟨typeBefore, typeAfter, typeSplit⟩ := List.append_of_mem inType
  have inBucket : e ∈ l.bucket (s.info e).spot :=
    (rep.mem_bucket _ _).mpr ⟨mem, rfl⟩
  obtain ⟨pre, post, split⟩ := List.append_of_mem inBucket
  have mainHolds := rep.main_holds
  rw [mainSplit] at mainHolds
  have typeHolds := rep.type_holds (s.info e).type.val
  rw [typeSplit] at typeHolds
  have bucketChain : Chain (s.bucketList (s.info e).spot).next
      (s.bucketList (s.info e).spot).head (pre ++ e :: post) :=
    split ▸ rep.bucket_chain (s.info e).spot
  have walk : pre.length ≤ s.allocated := by
    have bound := rep.bucket_length_le (s.info e).spot
    rw [split, List.length_append] at bound
    omega
  obtain ⟨bucket, unlinked, bucketRest, frame⟩ :=
    SingleList.remove_spec bucketChain walk
  let unlisted :=
    ((s.setMainList (removeFromBidirList s.mainList e)).setTypeList
      (s.info e).type
      (removeFromBidirList (s.typeList (s.info e).type) e)).setBucketList
      (s.info e).spot bucket
  have run : eventDelete s e (s.info e).spot =
      some (unlisted.setFreeList (addToListHead unlisted.freeList e)) := by
    change (SingleList.remove s.allocated (s.bucketList (s.info e).spot)
      e).bind _ = _
    rw [unlinked]
    rfl
  have mainErase := erase_of_eq_append rep.main_nodup mainSplit
  have typeErase := erase_of_eq_append (rep.type_nodup _) typeSplit
  have bucketErase := erase_of_eq_append (rep.bucket_nodup _) split
  have notFree : e ∉ l.free := fun isFree => rep.free_notMem e isFree mem
  refine ⟨_, run, ?_, rfl, rfl, rfl, rfl, rfl, rfl, rfl, rfl⟩
  refine
    { main_holds := ?_
      type_holds := fun type => ?_
      bucket_chain := fun spot => ?_
      free_chain := ?_
      mem_inType := fun type o => ?_
      mem_bucket := fun spot o => ?_
      free_notMem := fun o isFree => ?_
      main_lt := fun o listed =>
        rep.main_lt o (List.mem_of_mem_erase listed)
      free_lt := fun o isFree => ?_
      type_le := fun o listed =>
        rep.type_le o (List.mem_of_mem_erase listed) }
  · change (removeFromBidirList s.mainList e).Holds (l.main.erase e)
    rw [mainErase]
    exact BidirList.remove_holds mainHolds
  · by_cases own : type = (s.info e).type
    · subst own
      have removed := BidirList.remove_holds typeHolds
      rw [← typeErase] at removed
      simpa [unlisted, Store.typeList, Store.setFreeList, Store.setBucketList,
        Store.setTypeList, Store.setMainList, removeFromBidirList, Lists.erase]
        using removed
    · have notIn : e ∉ l.inType type := fun listed =>
        own ((rep.mem_inType _ _).mp listed).2.symm
      have apart : ∀ o ∈ l.inType type,
          o ∉ typeBefore ++ e :: typeAfter := by
        intro o listed eq
        rw [← typeSplit] at eq
        have one := ((rep.mem_inType _ _).mp listed).2
        have two := ((rep.mem_inType _ _).mp eq).2
        exact own (one.symm.trans two)
      have kept := BidirList.remove_frame typeHolds (rep.type_holds type) apart
      simpa [unlisted, Store.typeList, Store.setFreeList, Store.setBucketList,
        Store.setTypeList, Store.setMainList, removeFromBidirList, Lists.erase,
        own, BidirList.Holds, List.erase_of_not_mem notIn] using kept
  · -- The freed node is on no bucket, so linking it to the free list is safe.
    have gone : e ∉ (l.bucket spot).erase e :=
      (rep.bucket_nodup spot).not_mem_erase
    refine Chain.update_of_notMem ?_ gone
    change Chain _ _ ((l.bucket spot).erase e)
    by_cases own : spot = (s.info e).spot
    · subst own
      rw [bucketErase]
      simpa [unlisted, Store.freeList, Store.setFreeList, Store.setBucketList,
        Store.setTypeList, Store.setMainList] using bucketRest
    · have notIn : e ∉ l.bucket spot := fun listed =>
        own ((rep.mem_bucket _ _).mp listed).2.symm
      rw [List.erase_of_not_mem notIn]
      have kept : Chain bucket.next (s.eventStack spot) (l.bucket spot) := by
        refine (rep.bucket_chain spot).congr fun o listed => ?_
        refine frame o fun inBefore => ?_
        have eq : o ∈ l.bucket (s.info e).spot := by
          simp [split, inBefore]
        have one := ((rep.mem_bucket _ _).mp listed).2
        have two := ((rep.mem_bucket _ _).mp eq).2
        exact own (one.symm.trans two)
      simpa [unlisted, Store.freeList, Store.setFreeList, Store.setBucketList,
        Store.setTypeList, Store.setMainList, own] using kept
  · have kept : Chain bucket.next s.eventFreeList l.free := by
      refine rep.free_chain.congr fun o isFree => ?_
      refine frame o fun inBefore => ?_
      have listed : o ∈ l.bucket (s.info e).spot := by
        simp [split, inBefore]
      exact rep.free_notMem o isFree ((rep.mem_bucket _ _).mp listed).1
    exact kept.push notFree
  · change o ∈ (l.inType type).erase e ↔
      o ∈ l.main.erase e ∧ (s.info o).type.val = type
    rw [(rep.type_nodup type).mem_erase_iff, rep.main_nodup.mem_erase_iff,
      rep.mem_inType, and_assoc]
  · change o ∈ (l.bucket spot).erase e ↔
      o ∈ l.main.erase e ∧ (s.info o).spot = spot
    rw [(rep.bucket_nodup spot).mem_erase_iff, rep.main_nodup.mem_erase_iff,
      rep.mem_bucket, and_assoc]
  · change o ∉ l.main.erase e
    rw [rep.main_nodup.mem_erase_iff]
    rcases List.mem_cons.mp isFree with eq | old
    · simp [eq]
    · exact fun listed => rep.free_notMem o old listed.2
  · rcases List.mem_cons.mp isFree with eq | old
    · exact eq ▸ rep.main_lt e mem
    · exact rep.free_lt o old

end Delete

end BattletechMux.EventQueue
