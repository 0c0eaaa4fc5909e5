/-
Module: BattletechMux.Event.Dangling
Purpose: Special objects and the events that point to them: no pending event leads to a freed
  object, as long as none is disposed of that another object's event leads to.
Trusted boundary: an object has a new address, at or above 2^32, and a number that is cast to a
  pointer is below; a structure is named by the object it points to; ticks are numbers; a function
  that disposes of an object passes on no argument of its event that leads there; the contents of
  objects, and what SPECIAL_FREE does to maps and hexes, are left out
-/
import Mathlib
import BattletechMux.Event.Exactness

namespace BattletechMux.EventQueue

section

open Function (update)

/-- `EVENT_SPOT_LOCK`, `EVENT_SPOT_CHECK` and `EVENT_NUKEMECH`. -/
def eventSpotLock : EventType := 12
def eventSpotCheck : EventType := 14
def eventNukemech : EventType := 35

/-- `SPOT_TICK` and `WEAPON_TICK`. -/
def spotTick : Int := 10
def weaponTick : Int := 2

def mechSpotEventFunc : Func := 0
def mechCheckRangeFunc : Func := 1
def mechDiscardEventFunc : Func := 2

/-- The structure that points to an object: a `spot_data` with its target, a `bomb_shot` with
its map. -/
def structFor (object : Nat) : Nat := object + 1

def pointee (pointer : Nat) : Option Nat :=
  if heapBase ≤ pointer ∧ pointer % 2 = 1 then some (pointer - 1) else none

/-- An argument of the event leads to the object, directly or through a structure. -/
def Event.refersTo (event : Event) (object : Pointer) : Bool :=
  event.data == object || event.data2 == object ||
    pointee event.data == some object || pointee event.data2 == some object

/-- What is passed as an argument of `event_add`. -/
inductive Argument where
  /-- An object that was looked up. -/
  | object (key : Int)
  /-- A new structure that points to such an object. -/
  | record (key : Int)
  /-- A number, or NULL. -/
  | packed (n : BitVec 32)
  /-- The arguments of the event whose function runs. -/
  | ownData
  | ownData2
  /-- What the structures there point to. -/
  | inOwnData
  | inOwnData2
deriving DecidableEq, Repr

/-- A pointer that does not lead to what has been freed since `start`. -/
def SpecialObjects.kept (start objects : SpecialObjects) (pointer : Pointer) : Option Pointer :=
  let gone := fun t => objects.freed t && !start.freed t
  if gone pointer || (pointee pointer).any gone then none else some pointer

/-- The pointer, when there is such an object; `own` is the event whose function runs since
`start`. -/
def Argument.resolve (start objects : SpecialObjects) (own : Option Event) : Argument → Option Pointer
  | .object key => objects.xcodeTree key
  | .record key => (objects.xcodeTree key).map structFor
  | .packed n => some n.toNat
  | .ownData => own.bind fun event => start.kept objects event.data
  | .ownData2 => own.bind fun event => start.kept objects event.data2
  | .inOwnData => own.bind fun event => (start.kept objects event.data).bind pointee
  | .inOwnData2 => own.bind fun event => (start.kept objects event.data2).bind pointee

inductive Request where
  | add (time : Int) (flags : Nat) (type : EventType) (function : Func)
      (data data2 : Argument)
  | removeData (data : Argument)
  | removeTypeData (type : EventType) (data : Argument)
  | removeTypeData2 (type : EventType) (data2 : Argument)
  | removeTypeDataData (type : EventType) (data data2 : Argument)
  | create (key : Int)
  | dispose (key : Int) (known : Bool)
deriving DecidableEq, Repr

def Request.action (start objects : SpecialObjects) (own : Option Event) : Request → Option Action
  | .add time flags type function data data2 => do
      some (.add time flags type function (← data.resolve start objects own)
        (← data2.resolve start objects own))
  | .removeData data => do some (.removeData (← data.resolve start objects own))
  | .removeTypeData type data => do
      some (.removeTypeData type (← data.resolve start objects own))
  | .removeTypeData2 type data2 => do
      some (.removeTypeData2 type (← data2.resolve start objects own))
  | .removeTypeDataData type data data2 => do
      some (.removeTypeDataData type (← data.resolve start objects own)
        (← data2.resolve start objects own))
  | .create key => some (.create key)
  | .dispose key known => some (.dispose key known)

/-- The objects after an action. -/
def Action.objects (objects : SpecialObjects) : Action → SpecialObjects
  | .create key => objects.create key
  | .dispose key known => objects.dispose key known
  | _ => objects

/-- The actions that are asked for, one after another; where an object does not exist nothing
is asked. -/
def Request.actions (start : SpecialObjects) (own : Option Event) :
    SpecialObjects → List Request → List Action
  | _, [] => []
  | objects, request :: rest =>
    match request.action start objects own with
    | some action => action :: actions start own (action.objects objects) rest
    | none => actions start own objects rest

/-- The functions of the events: what each asks for. -/
abbrev Handlers := Func → Event → Store → List Request

def Handlers.callbacks (handlers : Handlers) : Callbacks := fun function e s =>
  Request.actions s.objects (some (s.info e)) s.objects (handlers function (s.info e) s)

/-- `MECHEVENT`, of a unit whose number is positive. -/
def mechEvent (mech : Argument) (type : EventType) (function : Func) (time : Int)
    (data : Argument) : Request :=
  .add time 0 type function mech data

/-- What `mech_check_range` finds out about the two units. -/
structure SpotLink where
  hasSpotter : Bool
  inRange : Bool
  stillSpotting : Bool
  sameMap : Bool
deriving DecidableEq, Repr

/-- `mech_check_range`: while the link lasts, it is checked again. -/
def mechCheckRange (e : Event) (link : SpotLink) : List Request :=
  if e.data = 0 then []
  else if !link.hasSpotter then []
  else if e.data2 = 0 then []
  else if !link.inRange || !link.stillSpotting || !link.sameMap then []
  else [mechEvent .ownData eventSpotCheck mechCheckRangeFunc spotTick .ownData2]

/-- `mech_spot_event`: unless both have moved, `sd->target` becomes the spotter. -/
def mechSpotEvent (moved : Bool) : List Request :=
  if moved then []
  else [mechEvent .ownData eventSpotCheck mechCheckRangeFunc spotTick .inOwnData2]

/-- `mech_spot` on a target that spots, for an artillery unit that does not see it. -/
def mechSpot (mech target : Int) (range : Int) : Request :=
  mechEvent (.object mech) eventSpotLock mechSpotEventFunc (weaponTick * (range / 10 + 5))
    (.record target)

/-- `discard_mw` of a suit that was a character. -/
def discardMw (mech : Int) : Request :=
  mechEvent (.object mech) eventNukemech mechDiscardEventFunc 10 (.packed 0)

/-- `mech_discard_event` of the unit `mech`. -/
def mechDiscardEvent (mech : Int) : List Request := [.dispose mech true]

inductive ObjectOp where
  | request (request : Request)
  | run (handlers : Handlers)
  | runByType (handlers : Handlers) (type : EventType)

/-- One step: a command asks for something, or events run. -/
def Store.step (s : Store) : ObjectOp → Option Store
  | .request request => s.acts (Request.actions s.objects none s.objects [request])
  | .run handlers => eventRun handlers.callbacks s
  | .runByType handlers type => (eventRunByType handlers.callbacks s type).map Prod.snd

end

open Option LinkedMemory
open Function (update update_self update_of_ne)

/-! ## Pointers -/

def Clear (freed : Pointer → Bool) (pointer : Pointer) : Prop :=
  ∀ object, freed object = true → pointer ≠ object ∧ pointee pointer ≠ some object

def Event.Clear (freed : Pointer → Bool) (event : Event) : Prop :=
  EventQueue.Clear freed event.data ∧ EventQueue.Clear freed event.data2

theorem clear_iff {freed : Pointer → Bool} {event : Event} :
    event.Clear freed ↔ ∀ object, freed object = true → event.refersTo object = false := by
  simp only [Event.Clear, Clear, Event.refersTo, Bool.or_eq_false_iff, beq_eq_false_iff_ne]
  constructor
  · rintro ⟨data, data2⟩ object isFreed
    exact ⟨⟨⟨(data object isFreed).1, (data2 object isFreed).1⟩, (data object isFreed).2⟩,
      (data2 object isFreed).2⟩
  · intro clear
    exact ⟨fun object isFreed => ⟨(clear object isFreed).1.1.1, (clear object isFreed).1.2⟩,
      fun object isFreed => ⟨(clear object isFreed).1.1.2, (clear object isFreed).2⟩⟩

/-- The objects in the tree are apart and have not been freed; what was freed was an object. -/
structure SpecialObjects.Kept (objects : SpecialObjects) : Prop where
  known : ∀ key t, objects.xcodeTree key = some t →
    objects.freed t = false ∧ ∃ n, n < objects.created ∧ t = objectAt n
  apart : ∀ key key' t, objects.xcodeTree key = some t → objects.xcodeTree key' = some t →
    key = key'
  wasObject : ∀ t, objects.freed t = true → ∃ n, n < objects.created ∧ t = objectAt n

theorem pointee_objectAt (n : Nat) : pointee (objectAt n) = none := by
  have even : objectAt n % 2 = 0 := by
    unfold objectAt heapBase
    omega
  simp [pointee, even]

theorem pointee_structFor (n : Nat) : pointee (structFor (objectAt n)) = some (objectAt n) := by
  have odd : structFor (objectAt n) % 2 = 1 := by
    unfold structFor objectAt heapBase
    omega
  have above : heapBase ≤ structFor (objectAt n) := by
    unfold structFor objectAt
    omega
  rw [pointee, if_pos ⟨above, odd⟩]
  rfl

theorem objectAt_injective {m n : Nat} (eq : objectAt m = objectAt n) : m = n := by
  unfold objectAt at eq
  omega

theorem structFor_ne (m n : Nat) : structFor (objectAt m) ≠ objectAt n := by
  unfold structFor objectAt heapBase
  omega

theorem pointee_pointee {pointer object : Nat} (points : pointee pointer = some object) :
    pointee object = none := by
  unfold pointee at points
  split at points
  next isStruct =>
    cases points
    have even : (pointer - 1) % 2 ≠ 1 := by omega
    simp [pointee, even]
  next => cases points

section

variable {start objects : SpecialObjects}

theorem SpecialObjects.Kept.object_clear (kept : objects.Kept) {key : Int} {t : Pointer}
    (hf : objects.xcodeTree key = some t) : Clear objects.freed t := by
  obtain ⟨notFreed, n, -, rfl⟩ := kept.known key t hf
  intro object isFreed
  refine ⟨?_, by simp [pointee_objectAt]⟩
  rintro rfl
  simp [notFreed] at isFreed

theorem SpecialObjects.Kept.structure_clear (kept : objects.Kept) {key : Int} {t : Pointer}
    (hf : objects.xcodeTree key = some t) : Clear objects.freed (structFor t) := by
  obtain ⟨notFreed, n, -, rfl⟩ := kept.known key t hf
  intro object isFreed
  obtain ⟨m, -, rfl⟩ := kept.wasObject object isFreed
  refine ⟨structFor_ne n m, ?_⟩
  rw [pointee_structFor]
  intro eq
  rw [some.inj eq, isFreed] at notFreed
  cases notFreed

theorem SpecialObjects.Kept.packed_clear (kept : objects.Kept) (n : BitVec 32) :
    Clear objects.freed n.toNat := by
  have below : n.toNat < heapBase := n.isLt
  intro object isFreed
  obtain ⟨m, -, rfl⟩ := kept.wasObject object isFreed
  have notAbove : ¬ heapBase ≤ n.toNat := Nat.not_le_of_lt below
  refine ⟨fun eq => notAbove ?_, by simp [pointee, notAbove]⟩
  rw [eq]
  exact Nat.le_add_right heapBase (2 * m)

theorem clear_pointee {freed : Pointer → Bool} {pointer object : Pointer}
    (clear : Clear freed pointer) (points : pointee pointer = some object) :
    Clear freed object := by
  intro o isFreed
  refine ⟨?_, by simp [pointee_pointee points]⟩
  rintro rfl
  exact (clear object isFreed).2 points

theorem SpecialObjects.kept_clear {pointer pointer' : Pointer} (clear : Clear start.freed pointer)
    (is : start.kept objects pointer = some pointer') :
    pointer' = pointer ∧ Clear objects.freed pointer := by
  simp only [SpecialObjects.kept] at is
  split at is
  · cases is
  next stays =>
    obtain rfl := some.inj is
    simp only [Bool.or_eq_true, not_or, Option.any_eq_true, not_exists, not_and,
      Bool.and_eq_true, Bool.not_eq_true'] at stays
    refine ⟨rfl, fun object isFreed => ?_⟩
    have old : object = pointer ∨ pointee pointer = some object → start.freed object = true := by
      rintro (rfl | points)
      · exact Bool.of_not_eq_false (stays.1 isFreed)
      · exact Bool.of_not_eq_false (stays.2 object points isFreed)
    exact ⟨fun eq => (clear object (old (Or.inl eq.symm))).1 eq,
      fun points => (clear object (old (Or.inr points))).2 points⟩

theorem Argument.resolve_clear (kept : objects.Kept) {own : Option Event}
    (ownClear : ∀ event ∈ own, event.Clear start.freed) {argument : Argument} {pointer : Pointer}
    (resolved : argument.resolve start objects own = some pointer) :
    Clear objects.freed pointer := by
  cases argument with
  | object key => exact kept.object_clear resolved
  | record key =>
    obtain ⟨t, hf, rfl⟩ := map_eq_some_iff.mp resolved
    exact kept.structure_clear hf
  | packed n =>
    cases resolved
    exact kept.packed_clear n
  | ownData =>
    obtain ⟨event, isOwn, stays⟩ := bind_eq_some_iff.mp resolved
    obtain ⟨rfl, clear⟩ := SpecialObjects.kept_clear (ownClear event isOwn).1 stays
    exact clear
  | ownData2 =>
    obtain ⟨event, isOwn, stays⟩ := bind_eq_some_iff.mp resolved
    obtain ⟨rfl, clear⟩ := SpecialObjects.kept_clear (ownClear event isOwn).2 stays
    exact clear
  | inOwnData =>
    obtain ⟨event, isOwn, stays⟩ := bind_eq_some_iff.mp resolved
    obtain ⟨_, stays, points⟩ := bind_eq_some_iff.mp stays
    obtain ⟨rfl, clear⟩ := SpecialObjects.kept_clear (ownClear event isOwn).1 stays
    exact clear_pointee clear points
  | inOwnData2 =>
    obtain ⟨event, isOwn, stays⟩ := bind_eq_some_iff.mp resolved
    obtain ⟨_, stays, points⟩ := bind_eq_some_iff.mp stays
    obtain ⟨rfl, clear⟩ := SpecialObjects.kept_clear (ownClear event isOwn).2 stays
    exact clear_pointee clear points

/-- What `event_add` is given leads to nothing that has been freed. -/
def Action.Clear (freed : Pointer → Bool) : Action → Prop
  | .add _ _ _ _ data data2 => EventQueue.Clear freed data ∧ EventQueue.Clear freed data2
  | _ => True

theorem Request.action_clear (kept : objects.Kept) {own : Option Event}
    (ownClear : ∀ event ∈ own, event.Clear start.freed) {request : Request} {action : Action}
    (asked : request.action start objects own = some action) : action.Clear objects.freed := by
  cases request with
  | add time flags type function data data2 =>
    simp only [Request.action, bind_eq_bind, bind_eq_some_iff] at asked
    obtain ⟨fst, resolved, snd, resolved2, eq⟩ := asked
    cases eq
    exact ⟨Argument.resolve_clear kept ownClear resolved,
      Argument.resolve_clear kept ownClear resolved2⟩
  | removeTypeDataData type data data2 =>
    simp only [Request.action, bind_eq_bind, bind_eq_some_iff] at asked
    obtain ⟨_, _, _, _, eq⟩ := asked
    cases eq
    trivial
  | removeData | removeTypeData | removeTypeData2 =>
    simp only [Request.action, bind_eq_bind, bind_eq_some_iff] at asked
    obtain ⟨_, _, eq⟩ := asked
    cases eq
    trivial
  | create | dispose =>
    cases some.inj asked
    trivial

end

/-! ## SpecialObjects -/

theorem SpecialObjects.Kept.create {objects : SpecialObjects} (kept : objects.Kept) (key : Int) :
    (objects.create key).Kept := by
  unfold SpecialObjects.create
  split
  swap
  · exact kept
  have fresh : ∀ o t, objects.xcodeTree o = some t → t ≠ objectAt objects.created := by
    rintro o t hf rfl
    obtain ⟨-, n, old, eq⟩ := kept.known o _ hf
    exact Nat.ne_of_gt old (objectAt_injective eq)
  refine ⟨fun o t hf => ?_, fun o o' t hf hf' => ?_, fun t isFreed => ?_⟩
  · by_cases here : o = key
    · subst here
      have eq : t = objectAt objects.created := by simpa using hf.symm
      refine ⟨?_, objects.created, Nat.lt_succ_self _, eq⟩
      cases isFreed : objects.freed t with
      | false => rfl
      | true =>
        obtain ⟨n, old, same'⟩ := kept.wasObject t isFreed
        exact absurd (objectAt_injective (eq.symm.trans same')) (Nat.ne_of_gt old)
    · simp only [update_of_ne here] at hf
      obtain ⟨notFreed, n, old, eq⟩ := kept.known o t hf
      exact ⟨notFreed, n, Nat.lt_succ_of_lt old, eq⟩
  · by_cases here : o = key <;> by_cases there : o' = key
    · rw [here, there]
    · simp only [here, update_self, update_of_ne there] at hf hf'
      exact absurd (some.inj hf).symm (fresh o' t hf')
    · simp only [there, update_self, update_of_ne here] at hf hf'
      exact absurd (some.inj hf').symm (fresh o t hf)
    · simp only [update_of_ne here, update_of_ne there] at hf hf'
      exact kept.apart o o' t hf hf'
  · obtain ⟨n, old, eq⟩ := kept.wasObject t isFreed
    exact ⟨n, Nat.lt_succ_of_lt old, eq⟩

theorem SpecialObjects.Kept.dispose {objects : SpecialObjects} (kept : objects.Kept) (key : Int)
    (known : Bool) : (objects.dispose key known).Kept := by
  unfold SpecialObjects.dispose
  split
  swap
  · exact kept
  split
  swap
  · exact kept
  next t hf =>
  obtain ⟨-, n, old, eq⟩ := kept.known key t hf
  refine ⟨fun o object hf' => ?_, fun o o' object one two => ?_, fun object isFreed => ?_⟩
  · by_cases here : o = key
    · simp [here] at hf'
    · simp only [update_of_ne here] at hf'
      have ne : object ≠ t := by
        rintro rfl
        exact here (kept.apart o key object hf' hf)
      simpa [ne] using kept.known o object hf'
  · by_cases here : o = key
    · simp [here] at one
    · by_cases there : o' = key
      · simp [there] at two
      · simp only [update_of_ne here, update_of_ne there] at one two
        exact kept.apart o o' object one two
  · by_cases here : object = t
    · exact ⟨n, old, here.trans eq⟩
    · simp only [update_of_ne here] at isFreed
      exact kept.wasObject object isFreed

/-! ## Marks -/

/-- What marking does: an event that is left is no zombie, and the objects stay. -/
structure Marked (s s' : Store) : Prop where
  info : ∀ e, (s'.info e).zombie = false → s'.info e = s.info e
  objects : s'.objects = s.objects
  disposals : s'.disposals = s.disposals

theorem Marked.of_mark (s : Store) (e : Addr) : Marked s (s.mark e) := by
  refine ⟨fun o unmarked => ?_, rfl, rfl⟩
  by_cases eq : o = e
  · subst eq
    simp [Store.mark, Store.log] at unmarked
  · simp [Store.mark, Store.log, eq]

theorem Marked.trans {s s' s'' : Store} (fst : Marked s s') (snd : Marked s' s'') :
    Marked s s'' where
  info e unmarked := by
    have eq := snd.info e unmarked
    exact eq.trans (fst.info e (eq ▸ unmarked))
  objects := snd.objects.trans fst.objects
  disposals := snd.disposals.trans fst.disposals

theorem markLoop_marked {link : Store → Addr → Option Addr} {matching : Event → Bool}
    {limit : Nat} {start : Option Addr} {s s' : Store}
    (ran : markLoop link matching limit start s = some s') : Marked s s' := by
  induction limit generalizing start s with
  | zero =>
    cases start with
    | none => exact some.inj ran ▸ ⟨fun _ _ => rfl, rfl, rfl⟩
    | some fst => cases ran
  | succ limit ih =>
    cases start with
    | none => exact some.inj ran ▸ ⟨fun _ _ => rfl, rfl, rfl⟩
    | some fst =>
      refine Marked.trans ?_ (ih ran)
      split
      · exact Marked.of_mark s fst
      · exact ⟨fun _ _ => rfl, rfl, rfl⟩

theorem markType_marked {s s' : Store} {type : EventType} {matching : Event → Bool}
    (ran : markType s type matching = some s') : Marked s s' := by
  unfold markType at ran
  split at ran
  · exact some.inj ran ▸ ⟨fun _ _ => rfl, rfl, rfl⟩
  · exact markLoop_marked ran

theorem markLoop_marks {link : Store → Addr → Option Addr} {matching : Event → Bool}
    (linkMark : ∀ s e, link (Store.mark s e) = link s) {cells : List Addr} :
    ∀ {limit : Nat} {start : Option Addr} {s s' : Store}, Chain (link s) start cells →
      markLoop link matching limit start s = some s' →
        ∀ e ∈ cells, (s'.info e).zombie = false → matching (s'.info e) = false := by
  induction cells with
  | nil => simp
  | cons fst rest ih =>
    intro limit start s s' chain ran e mem unmarked
    obtain ⟨rfl, tail⟩ := chain
    cases limit with
    | zero => cases ran
    | succ limit =>
      have ran' : markLoop link matching limit (link s fst)
          (if matching (s.info fst) then s.mark fst else s) = some s' := by
        have eq : link (if matching (s.info fst) then s.mark fst else s) = link s := by
          split
          · exact linkMark s fst
          · rfl
        rw [← eq]
        exact ran
      rcases List.mem_cons.mp mem with rfl | inRest
      · have unchanged := (markLoop_marked ran').info e unmarked
        cases hit : matching (s.info e) with
        | false =>
          rw [unchanged]
          simp [hit]
        | true =>
          rw [unchanged] at unmarked
          simp [hit, Store.mark, Store.log] at unmarked
      · refine ih ?_ ran' e inRest unmarked
        split
        · rw [linkMark]
          exact tail
        · exact tail

theorem eventRemoveData_left {s s' : Store} {l : Lists} (rep : Represents s l)
    {data : Pointer} (ran : eventRemoveData s data = some s') {e : Addr} (mem : e ∈ l.main)
    (unmarked : (s'.info e).zombie = false) : (s'.info e).data ≠ data := by
  have o := markLoop_marks (fun _ _ => rfl) rep.main_holds.chain ran e mem unmarked
  simpa using o

theorem eventAdd_fields (s : Store) (time : Int) (flags : Nat) (type : EventType)
    (function : Func) (data data2 : Pointer) :
    (eventAdd s time flags type function data data2).objects = s.objects ∧
      (eventAdd s time flags type function data data2).disposals = s.disposals := by
  simp only [eventAdd, growTypes, takeNode]
  split <;> split <;> exact ⟨rfl, rfl⟩

/-! ## Runs -/

/-- Whenever something was disposed of, only its own events led to it. -/
def Unreferenced (s : Store) : Prop :=
  ∀ disposal ∈ s.disposals, ∀ event ∈ disposal.2, event.refersTo disposal.1 = true →
    event.data = disposal.1

instance (s : Store) : Decidable (Unreferenced s) :=
  inferInstanceAs (Decidable (∀ disposal ∈ s.disposals, ∀ event ∈ disposal.2, _ → _))

def AllClear (s : Store) (main : List Addr) : Prop :=
  ∀ e ∈ main, (s.info e).zombie = false → (s.info e).Clear s.objects.freed

structure Safe (s : Store) (main : List Addr) : Prop where
  kept : s.objects.Kept
  clear : Unreferenced s → AllClear s main

def NoDangling (s : Store) : Prop :=
  ∀ event ∈ s.pending, ∀ object, s.objects.freed object = true → event.refersTo object = false

variable {s s' : Store} {l l' : Lists}

theorem mem_pending (rep : Represents s l) {event : Event} :
    event ∈ s.pending ↔ ∃ e ∈ l.main, (s.info e).zombie = false ∧ s.info e = event := by
  have visits := visited_eq rep.main_holds.chain (Nat.lt_succ_of_le rep.main_length_le)
  have list : s.pending = (l.main.map s.info).filter fun event => !event.zombie := by
    rw [← visits]
    rfl
  rw [list, List.mem_filter, List.mem_map]
  constructor
  · rintro ⟨⟨e, mem, rfl⟩, unmarked⟩
    exact ⟨e, mem, by simpa using unmarked, rfl⟩
  · rintro ⟨e, mem, unmarked, rfl⟩
    exact ⟨⟨e, mem, rfl⟩, by simpa using unmarked⟩

theorem Safe.marked {main : List Addr} (safe : Safe s main) (marked : Marked s s') :
    Safe s' main := by
  refine ⟨marked.objects ▸ safe.kept, fun unreferenced e mem unmarked => ?_⟩
  have eq := marked.info e unmarked
  rw [Unreferenced, marked.disposals] at unreferenced
  rw [eq] at unmarked ⊢
  exact marked.objects ▸ safe.clear unreferenced e mem unmarked

theorem safe_stable : Stable Safe where
  congr safe info objects disposals :=
    safe.marked ⟨fun e _ => congrFun info e, objects, disposals⟩
  mark e safe := safe.marked (Marked.of_mark _ e)
  erase _ safe := ⟨safe.kept, fun unreferenced o mem =>
    safe.clear unreferenced o (List.mem_of_mem_erase mem)⟩

theorem Safe.disposed {key : Int} {known : Bool} (rep : Represents s l) (safe : Safe s l.main)
    {t : Pointer} (hf : (if known then s.objects.xcodeTree key else none) = some t)
    (ran : eventRemoveData { s with
      objects := s.objects.dispose key known
      disposals := (t, s.pending) :: s.disposals } t = some s') : Safe s' l.main := by
  have marked := markLoop_marked ran
  refine ⟨marked.objects ▸ safe.kept.dispose key known,
    fun unreferenced e mem unmarked => ?_⟩
  have otherData := eventRemoveData_left (rep.disposed _ _) ran mem unmarked
  have eq : s'.info e = s.info e := marked.info e unmarked
  rw [Unreferenced, marked.disposals] at unreferenced
  rw [eq] at unmarked otherData ⊢
  have before := clear_iff.mp (safe.clear (fun disposal old =>
    unreferenced disposal (List.mem_cons_of_mem _ old)) e mem unmarked)
  have freed : s'.objects.freed = update s.objects.freed t true := by
    rw [marked.objects]
    split at hf
    next isKnown => simp [SpecialObjects.dispose, isKnown, hf]
    next => cases hf
  refine clear_iff.mpr fun object isFreed => ?_
  rw [freed] at isFreed
  by_cases here : object = t
  · subst here
    exact Bool.eq_false_iff.mpr fun refers => otherData
      (unreferenced _ (List.mem_cons_self ..) _ ((mem_pending rep).mpr ⟨e, mem, unmarked, rfl⟩)
        refers)
  · rw [update_of_ne here] at isFreed
    exact before object isFreed

theorem act_safe (rep : Represents s l) (safe : Safe s l.main) {action : Action}
    (clear : Unreferenced s → action.Clear s.objects.freed) (ran : s.act action = some s')
    (rep' : Represents s' l') (same : action.isAdd = false → l'.main = l.main) :
    Safe s' l'.main ∧ s'.objects = action.objects s.objects ∧
      (Unreferenced s' → Unreferenced s) := by
  have marking (marked : Marked s s') (notAdd : action.isAdd = false) : Safe s' l'.main ∧
        s'.objects = s.objects ∧ (Unreferenced s' → Unreferenced s) := by
    refine ⟨same notAdd ▸ safe.marked marked, marked.objects, fun unreferenced => ?_⟩
    rwa [Unreferenced, marked.disposals] at unreferenced
  cases action with
  | add time flags type function data data2 =>
    obtain rfl := some.inj ran
    obtain ⟨objects, disposals⟩ := eventAdd_fields s time flags type function data data2
    have before : Unreferenced (eventAdd s time flags type function data data2) →
        Unreferenced s := fun unreferenced => by rwa [Unreferenced, disposals] at unreferenced
    refine ⟨⟨objects ▸ safe.kept, fun unreferenced => ?_⟩, objects, before⟩
    obtain ⟨new, lists, added⟩ := eventAdd_represents rep time flags type function data data2
    have main : l'.main = new :: l.main := by
      rw [rep'.main_holds.chain.unique added.represents.main_holds.chain, added.lists]
      rfl
    intro e mem unmarked
    rw [added.info] at unmarked ⊢
    rw [objects]
    rw [main] at mem
    rcases List.mem_cons.mp mem with rfl | old
    · rw [update_self]
      exact clear (before unreferenced)
    · have ne : e ≠ new := fun eq => added.fresh (eq ▸ old)
      rw [update_of_ne ne] at unmarked ⊢
      exact safe.clear (before unreferenced) e old unmarked
  | removeData data => exact marking (markLoop_marked ran) rfl
  | removeTypeData | removeTypeData2 | removeTypeDataData =>
    exact marking (markType_marked ran) rfl
  | create key =>
    obtain rfl := some.inj ran
    refine ⟨⟨safe.kept.create key, fun unreferenced e mem unmarked => ?_⟩, rfl, id⟩
    have freed : (s.objects.create key).freed = s.objects.freed := by
      unfold SpecialObjects.create
      split <;> rfl
    rw [freed]
    rw [same rfl] at mem
    exact safe.clear unreferenced e mem unmarked
  | dispose key known =>
    rw [Store.act, disposeSpecialObject] at ran
    split at ran
    next t hf =>
      have marked := markLoop_marked ran
      refine ⟨same rfl ▸ Safe.disposed rep safe hf ran, marked.objects,
        fun unreferenced disposal old => ?_⟩
      rw [Unreferenced, marked.disposals] at unreferenced
      exact unreferenced disposal (List.mem_cons_of_mem _ old)
    next missing =>
      obtain rfl := some.inj ran
      refine ⟨same rfl ▸ safe, ?_, id⟩
      rw [Action.objects, SpecialObjects.dispose]
      split
      next isKnown =>
        rw [if_pos isKnown] at missing
        rw [missing]
      next => rfl

/-- One action after another: the event whose function runs leads to nothing that had been
freed when it started. -/
theorem actions_safe {running : Option Addr} {pending : List Addr} {start : SpecialObjects}
    {own : Option Event} (requests : List Request) {s s' : Store} {l l' : Lists}
    (inv : Invariant running pending s l) (busy : ∀ e, running = some e → e ∈ l.main)
    (safe : Safe s l.main)
    (ownClear : Unreferenced s → ∀ event ∈ own, event.Clear start.freed)
    (ran : s.acts (Request.actions start own s.objects requests) = some s')
    (rep' : Represents s' l') : Safe s' l'.main := by
  induction requests generalizing s l with
  | nil =>
    obtain rfl := some.inj ran
    exact rep'.main_holds.chain.unique inv.represents.main_holds.chain ▸ safe
  | cons request rest ih =>
    rw [Request.actions] at ran
    cases asked : request.action start s.objects own with
    | none =>
      rw [asked] at ran
      exact ih inv busy safe ownClear ran
    | some action =>
      rw [asked] at ran
      obtain ⟨middle, m, acted, invMiddle, kept, same⟩ := act_keeps inv busy action
      obtain ⟨safe', objects, before⟩ := act_safe inv.represents safe
        (fun unreferenced => Request.action_clear safe.kept (ownClear unreferenced) asked) acted
        invMiddle.represents same
      have later : middle.acts (Request.actions start own middle.objects rest) = some s' := by
        rw [objects]
        simpa [Store.acts, acted] using ran
      exact ih invMiddle (fun e isRunning => kept.main.mem (busy e isRunning)) safe'
        (fun unreferenced => ownClear (before unreferenced)) later

theorem Handlers.callbacks_keep (handlers : Handlers) : handlers.callbacks.Keep Safe := by
  intro running pending s s' l l' e inv busy safe mem unmarked ran rep'
  refine actions_safe _ inv busy safe (fun unreferenced event own => ?_) ran rep'
  cases own
  exact safe.clear unreferenced e mem unmarked

def SafeStore (s : Store) : Prop := ∃ l, Invariant none [] s l ∧ Safe s l.main

theorem empty_safe : SafeStore Store.empty :=
  ⟨Lists.empty, invariant_empty,
    ⟨⟨by simp [Store.empty], by simp [Store.empty], by simp [Store.empty]⟩,
      fun _ => by simp [AllClear, Lists.empty]⟩⟩

theorem step_safe (s : Store) (op : ObjectOp) (safe : SafeStore s) :
    ∃ s', s.step op = some s' ∧ SafeStore s' := by
  obtain ⟨l, inv, safe⟩ := safe
  cases op with
  | request request =>
    obtain ⟨s', l', ran, inv', -⟩ := acts_keeps inv (by simp)
      (Request.actions s.objects none s.objects [request])
    exact ⟨s', ran, l', inv', actions_safe [request] inv (by simp) safe (by simp) ran
      inv'.represents⟩
  | run handlers =>
    obtain ⟨s', l', ran, inv', -, safe'⟩ :=
      eventRun_spec safe_stable handlers.callbacks_keep inv safe
    exact ⟨s', ran, l', inv', safe'⟩
  | runByType handlers type =>
    obtain ⟨count, s', l', ran, inv', -, safe'⟩ :=
      eventRunByType_spec safe_stable handlers.callbacks_keep inv safe type
    exact ⟨s', by simp [Store.step, ran], l', inv', safe'⟩

/-- In a run in which no object was disposed of, by a command or in the function of an event,
that a pending event of another object led to, no pending event leads to a freed object. -/
theorem run_noDangling (ops : List ObjectOp)
    (unreferenced : ∀ s, Machine.run Store.step Store.empty ops = some s → Unreferenced s) :
    ∃ s, Machine.run Store.step Store.empty ops = some s ∧ NoDangling s := by
  obtain ⟨s, ran, l, inv, safe⟩ := Machine.run_invariant step_safe ops empty_safe
  refine ⟨s, ran, fun event mem => ?_⟩
  obtain ⟨e, listed, unmarked, rfl⟩ := (mem_pending inv.represents).mp mem
  exact clear_iff.mp (safe.clear (unreferenced s ran) e listed unmarked)

/-- The functions of the events, while neither unit moves and the link lasts; the suit that is
discarded is object 3. -/
def spotHandlers : Handlers := fun function e _ =>
  if function = mechSpotEventFunc then mechSpotEvent false
  else if function = mechCheckRangeFunc then mechCheckRange e ⟨true, true, true, true⟩
  else if function = mechDiscardEventFunc then mechDiscardEvent 3
  else []

def spotted : List ObjectOp :=
  [.request (.create 1), .request (.create 2), .request (.create 3),
    .request (mechSpot 1 2 5), .request (discardMw 3)] ++ List.replicate 10 (.run spotHandlers)

/-- A suit is discarded by its event; the unit that has a spotter goes before its spotter. -/
theorem run_noDangling_spotted :
    ∃ s, Machine.run Store.step Store.empty (spotted ++ [.request (.dispose 1 true),
        .request (.dispose 2 true)]) = some s ∧ NoDangling s :=
  run_noDangling (spotted ++ [.request (.dispose 1 true), .request (.dispose 2 true)])
    fun s ran => by
      have all : (Machine.run Store.step Store.empty (spotted ++ [.request (.dispose 1 true),
          .request (.dispose 2 true)])).all (fun s => decide (Unreferenced s)) = true := by
        decide
      rw [ran] at all
      exact of_decide_eq_true all

/-- The spotter is disposed of first: the check of the range is still pending and has the
freed unit as its second argument. -/
theorem dispose_leaves_spotter :
    ∃ s, Machine.run Store.step Store.empty (spotted ++ [.request (.dispose 2 true)]) = some s ∧
      (∃ event ∈ s.pending, event.type = eventSpotCheck ∧ event.data2 = objectAt 1 ∧
        s.objects.freed event.data2 = true) ∧ ¬ NoDangling s := by
  have facts : (Machine.run Store.step Store.empty
      (spotted ++ [.request (.dispose 2 true)])).map (fun s => decide (∃ event ∈ s.pending,
        event.type = eventSpotCheck ∧ event.data2 = objectAt 1 ∧
          s.objects.freed event.data2 = true)) = some true := by decide
  obtain ⟨s, ran, shown⟩ := map_eq_some_iff.mp facts
  have dangling := of_decide_eq_true shown
  refine ⟨s, ran, dangling, fun safe => ?_⟩
  obtain ⟨event, member, -, -, isFreed⟩ := dangling
  have refers : event.refersTo event.data2 = true := by simp [Event.refersTo]
  rw [safe event member event.data2 isFreed] at refers
  cases refers

end BattletechMux.EventQueue
