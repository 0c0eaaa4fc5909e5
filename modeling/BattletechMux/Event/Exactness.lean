/-
Module: BattletechMux.Event.Exactness
Purpose: Runs of the event store. The walks of `event_remove_*`, `event_run` and `event_run_by_type`
  keep the invariant although the functions they call add events to the lists being walked; so does
  every sequence of operations.
-/
import BattletechMux.Event.History

namespace BattletechMux.EventQueue

open LinkedMemory List Option
open Function (update update_self update_of_ne)

/-- What the calls an event function may make leave in place: the nodes already
listed stay behind the new ones, and the tick does not move. -/
structure Kept (s : Store) (l : Lists) (s' : Store) (l' : Lists) : Prop where
  main : l.main <:+ l'.main
  inType : ∀ type, l.inType type <:+ l'.inType type
  bucket : ∀ spot, l.bucket spot <:+ l'.bucket spot
  eventTick : s'.eventTick = s.eventTick

namespace Kept

theorem refl (s : Store) (l : Lists) : Kept s l s l where
  main := suffix_refl _
  inType _ := suffix_refl _
  bucket _ := suffix_refl _
  eventTick := rfl

theorem trans {s s' s'' : Store} {l l' l'' : Lists} (fst : Kept s l s' l')
    (snd : Kept s' l' s'' l'') : Kept s l s'' l'' where
  main := fst.main.trans snd.main
  inType type := (fst.inType type).trans (snd.inType type)
  bucket spot := (fst.bucket spot).trans (snd.bucket spot)
  eventTick := snd.eventTick.trans fst.eventTick

theorem push {s s' : Store} {l : Lists} (e : Addr) (type spot : Nat)
    (eventTick : s'.eventTick = s.eventTick) :
    Kept s l s' ({ l with free := l.free.tail }.push e type spot) where
  main := suffix_cons _ _
  inType o := by
    by_cases own : o = type
    · subst own
      simp [Lists.push]
    · simp [Lists.push, own]
  bucket o := by
    by_cases own : o = spot
    · subst own
      simp [Lists.push]
    · simp [Lists.push, own]
  eventTick := eventTick

end Kept

/-- What holds of the listed events and the objects, whichever nodes become zombies or are
deleted. -/
structure Stable (P : Store → List Addr → Prop) : Prop where
  congr : ∀ {s s' main}, P s main → s'.info = s.info → s'.objects = s.objects →
    s'.disposals = s.disposals → P s' main
  mark : ∀ {s main} e, P s main → P (s.mark e) main
  erase : ∀ {s main} e, P s main → P s (main.erase e)

theorem stable_true : Stable fun _ _ => True := ⟨fun _ _ _ _ => trivial, fun _ _ => trivial,
  fun _ _ => trivial⟩

/-- The functions of the events keep it. -/
def Callbacks.Keep (callbacks : Callbacks) (P : Store → List Addr → Prop) : Prop :=
  ∀ {running : Option Addr} {pending : List Addr} {s s' : Store} {l l' : Lists} {e : Addr},
    Invariant running pending s l → (∀ e, running = some e → e ∈ l.main) → P s l.main →
      e ∈ l.main → (s.info e).zombie = false →
        s.acts (callbacks (s.info e).function e s) = some s' → Represents s' l' →
          P s' l'.main

theorem Callbacks.keep_true (callbacks : Callbacks) : callbacks.Keep fun _ _ => True :=
  fun _ _ _ _ _ _ _ => trivial

theorem eventDelete_fields {s s' : Store} {e : Addr} {fp : Nat}
    (ran : eventDelete s e fp = some s') :
    s'.info = s.info ∧ s'.objects = s.objects ∧ s'.disposals = s.disposals := by
  simp only [eventDelete, bind_eq_bind, bind_eq_some_iff] at ran
  obtain ⟨bucket, -, done⟩ := ran
  rw [← some.inj done]
  exact ⟨rfl, rfl, rfl⟩

theorem Stable.released {P : Store → List Addr → Prop} (stable : Stable P) {s s' : Store}
    {l : Lists} (holds : P s l.main) {e : Addr} {fp executed zombies : Nat}
    (ran : eventDelete { s with eventsExecuted := executed, eventsZombies := zombies } e fp =
      some s') : P s' (l.erase e).main := by
  obtain ⟨info, objects, disposals⟩ := eventDelete_fields ran
  exact stable.congr (stable.erase e holds) info objects disposals

def Action.isAdd : Action → Bool
  | .add .. => true
  | _ => false

section Calls

variable {running : Option Addr} {pending : List Addr} {s : Store} {l : Lists}

theorem markLoop_spec {link : Store → Addr → Option Addr} {matching : Event → Bool}
    (linkMark : ∀ s e, link (Store.mark s e) = link s) {cells : List Addr} :
    ∀ {limit : Nat} {start : Option Addr} {s : Store},
      Invariant running pending s l → Chain (link s) start cells →
        (∀ e ∈ cells, e ∈ l.main) → cells.length ≤ limit →
          ∃ s', markLoop link matching limit start s = some s' ∧
            Invariant running pending s' l ∧ s'.eventTick = s.eventTick := by
  induction cells with
  | nil =>
    intro limit start s inv chain _ _
    rw [chain_nil] at chain
    subst chain
    exact ⟨s, by simp [markLoop], inv, rfl⟩
  | cons e rest ih =>
    intro limit start s inv chain inMain hlt
    obtain ⟨rfl, tail⟩ := chain
    obtain ⟨limit, rfl⟩ : ∃ smaller, limit = smaller + 1 :=
      ⟨limit - 1, by simp at hlt; omega⟩
    have restInMain : ∀ o ∈ rest, o ∈ l.main := fun o mem =>
      inMain o (mem_cons_of_mem _ mem)
    have shorter : rest.length ≤ limit := by simpa using hlt
    by_cases hit : matching (s.info e)
    · have marked := inv.mark (inMain e (by simp))
      obtain ⟨s', ran, kept, tick⟩ := ih marked
        (by rw [linkMark]; exact tail) restInMain shorter
      refine ⟨s', ?_, kept, tick⟩
      simp only [markLoop, hit, if_true, linkMark] at ran ⊢
      exact ran
    · obtain ⟨s', ran, kept, tick⟩ := ih inv tail restInMain shorter
      exact ⟨s', by simpa [markLoop, hit] using ran, kept, tick⟩

section

variable (inv : Invariant running pending s l)
include inv

theorem eventRemoveData_spec (data : Pointer) :
    ∃ s', eventRemoveData s data = some s' ∧
      Invariant running pending s' l ∧ s'.eventTick = s.eventTick :=
  markLoop_spec (fun _ _ => rfl) inv inv.represents.main_holds.chain
    (fun _ mem => mem) inv.represents.main_length_le

theorem markType_spec (type : EventType) (matching : Event → Bool) :
    ∃ s', markType s type matching = some s' ∧
      Invariant running pending s' l ∧ s'.eventTick = s.eventTick := by
  unfold markType
  split
  · exact ⟨s, rfl, inv, rfl⟩
  · apply markLoop_spec (fun _ _ => rfl) inv
    · exact (inv.represents.type_holds type).chain
    · intro e mem
      exact ((inv.represents.mem_inType _ _).mp mem).1
    · exact inv.represents.type_length_le type

theorem act_keeps (busy : ∀ e, running = some e → e ∈ l.main) (action : Action) :
    ∃ s' l', s.act action = some s' ∧ Invariant running pending s' l' ∧ Kept s l s' l' ∧
      (action.isAdd = false → l'.main = l.main) := by
  have marking : ∀ {result : Option Store},
      (∃ s', result = some s' ∧ Invariant running pending s' l ∧
        s'.eventTick = s.eventTick) →
      ∃ s' l', result = some s' ∧ Invariant running pending s' l' ∧ Kept s l s' l' ∧
        (action.isAdd = false → l'.main = l.main) := by
    rintro result ⟨s', ran, kept, tick⟩
    exact ⟨s', l, ran, kept, { Kept.refl s l with eventTick := tick }, fun _ => rfl⟩
  cases action with
  | add time flags type function data data2 =>
    obtain ⟨l', added, tick, e, spot, lists⟩ :=
      inv.add time flags type function data data2 busy
    refine ⟨_, l', rfl, added, ?_, fun notAdd => Bool.noConfusion notAdd⟩
    rw [lists]
    exact Kept.push e type spot tick
  | removeData data => exact marking (eventRemoveData_spec inv data)
  | removeTypeData type data => exact marking (markType_spec inv type _)
  | removeTypeData2 type data => exact marking (markType_spec inv type _)
  | removeTypeDataData type data data2 => exact marking (markType_spec inv type _)
  | create key => exact marking ⟨_, rfl, inv.disposed _ s.disposals, rfl⟩
  | dispose key known =>
    rw [Store.act, disposeSpecialObject]
    split
    · exact marking (eventRemoveData_spec (inv.disposed _ _) _)
    · exact marking ⟨s, rfl, inv, rfl⟩

theorem acts_keeps (busy : ∀ e, running = some e → e ∈ l.main) (actions : List Action) :
    ∃ s' l', s.acts actions = some s' ∧ Invariant running pending s' l' ∧ Kept s l s' l' := by
  induction actions generalizing s l with
  | nil => exact ⟨s, l, rfl, inv, Kept.refl s l⟩
  | cons action rest ih =>
    obtain ⟨middle, m, ran, invMiddle, keptMiddle, -⟩ := act_keeps inv busy action
    obtain ⟨s', l', later, inv', kept⟩ := ih invMiddle
      (fun e isRunning => keptMiddle.main.mem (busy e isRunning))
    refine ⟨s', l', ?_, inv', keptMiddle.trans kept⟩
    rw [Store.acts, Machine.run_cons, ran]
    exact later

end

end Calls

section Loops

variable {callbacks : Callbacks}

variable {P : Store → List Addr → Prop}

theorem runBucket_spec (stable : Stable P) (keeps : callbacks.Keep P) {counter : Nat} {rest : List Addr} :
    ∀ {pre : List Addr} {limit : Nat} {start : Option Addr} {s : Store} {l : Lists},
      Invariant none rest s l → P s l.main → l.bucket counter = pre ++ rest →
        start = rest.head? → rest.length ≤ limit →
          ∃ s' l', runBucket callbacks counter limit start s = some s' ∧
            Invariant none [] s' l' ∧ s'.eventTick = s.eventTick ∧ P s' l'.main := by
  induction rest with
  | nil =>
    intro pre limit start s l inv carries _ startEq _
    subst startEq
    exact ⟨s, l, by simp [runBucket], inv, rfl, carries⟩
  | cons e rest ih =>
    intro pre limit start s l inv carries bucket startEq hlt
    subst startEq
    obtain ⟨limit, rfl⟩ : ∃ smaller, limit = smaller + 1 :=
      ⟨limit - 1, by simp at hlt; omega⟩
    have shorter : rest.length ≤ limit := by simpa using hlt
    have inBucket : e ∈ l.bucket counter := by simp [bucket]
    obtain ⟨mem, spot⟩ := (inv.represents.mem_bucket _ _).mp inBucket
    have following : s.next e = rest.head? := by
      have chain := inv.represents.bucket_chain counter
      rw [bucket] at chain
      exact chain.next_eq_head.head_eq
    by_cases later : s.eventTick < (s.info e).tick ∧ (s.info e).zombie = false
    · -- Due in a later revolution of the ring: the node stays.
      have passed := inv.skip (Or.inl later.1)
      obtain ⟨s', l', ran, inv', tick, carries'⟩ := ih passed carries
        (show l.bucket counter = (pre ++ [e]) ++ rest by simp [bucket])
        following shorter
      exact ⟨s', l', by simpa [runBucket, later] using ran, inv', tick, carries'⟩
    · cases zombie : (s.info e).zombie with
      | true =>
        obtain ⟨middle, deleted, released, tick⟩ :=
          (inv.skip (Or.inr zombie)).release mem (Or.inr ⟨rfl, zombie⟩)
            (show s.eventsExecuted + (s.eventsZombies + 1) = _ by omega)
        have bucketLeft : (l.erase e).bucket counter = pre ++ rest := by
          exact erase_of_eq_append (inv.represents.bucket_nodup counter) bucket
        have left := stable.released carries deleted
        obtain ⟨s', l', ran, inv', tick', carries'⟩ :=
          ih released left bucketLeft following shorter
        refine ⟨s', l', ?_, inv', tick'.trans tick, carries'⟩
        rw [spot] at deleted
        simpa [runBucket, zombie, deleted] using ran
      | false =>
        have onTime : (s.info e).tick = s.eventTick := by
          rcases (inv.tracked e mem).timely (by simp) zombie with future | now
          · exact absurd ⟨future, by simp [zombie]⟩ later
          · exact now.1
        have calling := inv.call mem zombie onTime
        have busy : ∀ o, some e = some o → o ∈ l.main := fun o eq => some.inj eq ▸ mem
        obtain ⟨m, lm, called, invCalled, kept⟩ := acts_keeps calling busy
          (callbacks (s.info e).function e
            (s.log (.called (s.info e).serial s.eventTick .eventRun)))
        have carried := keeps calling busy (stable.congr carries rfl rfl rfl) mem zombie called
          invCalled.represents
        have memberAfter : e ∈ lm.main := kept.main.mem mem
        obtain ⟨new, grown⟩ := kept.bucket counter
        have bucketAfter : lm.bucket counter = (new ++ pre) ++ e :: rest := by
          rw [← grown, bucket, append_assoc]
        have spotAfter : (m.info e).spot = counter :=
          ((invCalled.represents.mem_bucket counter e).mp (by simp [bucketAfter])).2
        obtain ⟨middle, deleted, released, tick⟩ :=
          invCalled.release memberAfter (Or.inl rfl)
            (show m.eventsExecuted + 1 + m.eventsZombies = _ by omega)
        have bucketLeft : (lm.erase e).bucket counter = (new ++ pre) ++ rest :=
          erase_of_eq_append (invCalled.represents.bucket_nodup counter) bucketAfter
        have left := stable.released carried deleted
        obtain ⟨s', l', ran, inv', tick', carries'⟩ :=
          ih released left bucketLeft following shorter
        refine ⟨s', l', ?_, inv', tick'.trans (tick.trans kept.eventTick), carries'⟩
        rw [spotAfter] at deleted
        have function : callFunction callbacks .eventRun s e = some m := called
        simpa [runBucket, zombie, onTime, function, deleted] using ran

theorem runType_spec (stable : Stable P) (keeps : callbacks.Keep P) {type : Nat} {rest : List Addr} :
    ∀ {pre : List Addr} {limit : Nat} {start : Option Addr} {ran : Nat} {s : Store}
      {l : Lists},
      Invariant none [] s l → P s l.main → l.inType type = pre ++ rest →
        start = rest.head? → rest.length ≤ limit →
          ∃ count s' l', runType callbacks limit start ran s = some (count, s') ∧
            Invariant none [] s' l' ∧ s'.eventTick = s.eventTick ∧ P s' l'.main := by
  induction rest with
  | nil =>
    intro pre limit start ran s l inv carries _ startEq _
    subst startEq
    exact ⟨ran, s, l, by simp [runType], inv, rfl, carries⟩
  | cons e rest ih =>
    intro pre limit start ran s l inv carries inType startEq hlt
    subst startEq
    obtain ⟨limit, rfl⟩ : ∃ smaller, limit = smaller + 1 :=
      ⟨limit - 1, by simp at hlt; omega⟩
    have shorter : rest.length ≤ limit := by simpa using hlt
    have following : ∀ {s : Store} {l : Lists} {pre : List Addr},
        Represents s l → l.inType type = pre ++ e :: rest →
          s.nextInType e = rest.head? := by
      intro s l pre represents inType
      have chain := (represents.type_holds type).chain
      rw [inType] at chain
      exact chain.next_eq_head.head_eq
    have mem : e ∈ l.main :=
      ((inv.represents.mem_inType type e).mp (by simp [inType])).1
    cases zombie : (s.info e).zombie with
    | true =>
      obtain ⟨count, s', l', ran', inv', tick, carries'⟩ := ih inv carries
        (show l.inType type = (pre ++ [e]) ++ rest by simp [inType])
        (following inv.represents inType) shorter
      exact ⟨count, s', l', by simpa [runType, zombie] using ran', inv', tick, carries'⟩
    | false =>
      have calling := inv.callByType mem zombie
      obtain ⟨m, lm, called, invCalled, kept⟩ := acts_keeps calling (by simp)
        (callbacks (s.info e).function e
          (s.log (.called (s.info e).serial s.eventTick .eventRunByType)))
      have carried := keeps calling (by simp) (stable.congr carries rfl rfl rfl) mem zombie
        called invCalled.represents
      obtain ⟨new, grown⟩ := kept.inType type
      have inTypeAfter : lm.inType type = (new ++ pre) ++ e :: rest := by
        rw [← grown, inType, append_assoc]
      have marked := invCalled.mark (kept.main.mem mem)
      obtain ⟨count, s', l', ran', inv', tick, carries'⟩ := ih marked
        (stable.mark e carried)
        (show lm.inType type = (new ++ pre ++ [e]) ++ rest by simp [inTypeAfter])
        (following marked.represents inTypeAfter) shorter
      refine ⟨count, s', l', ?_, inv', tick.trans kept.eventTick, carries'⟩
      have function : callFunction callbacks .eventRunByType s e = some m := called
      simpa [runType, zombie, function] using ran'

theorem eventRun_spec {callbacks : Callbacks}
    (stable : Stable P) (keeps : callbacks.Keep P) {s : Store} {l : Lists} (inv : Invariant none [] s l)
    (carries : P s l.main) :
    ∃ s' l', eventRun callbacks s = some s' ∧ Invariant none [] s' l' ∧
      s'.eventTick = s.eventTick + 1 ∧ P s' l'.main := by
  have started := inv.advance
  apply runBucket_spec stable keeps started (stable.congr carries rfl rfl rfl)
    (nil_append _).symm
  · exact (started.represents.bucket_chain _).head_eq
  · exact started.represents.bucket_length_le _

theorem eventRunByType_spec {callbacks : Callbacks}
    (stable : Stable P) (keeps : callbacks.Keep P) {s : Store} {l : Lists} (inv : Invariant none [] s l)
    (carries : P s l.main) (type : EventType) :
    ∃ count s' l', eventRunByType callbacks s type = some (count, s') ∧
      Invariant none [] s' l' ∧ s'.eventTick = s.eventTick ∧ P s' l'.main := by
  unfold eventRunByType
  split
  · apply runType_spec stable keeps inv carries (nil_append _).symm
    · exact (inv.represents.type_holds type).chain.head_eq
    · exact inv.represents.type_length_le type
  · exact ⟨0, s, l, rfl, inv, rfl, carries⟩

end Loops

theorem perform_spec {s : Store} {l : Lists} (inv : Invariant none [] s l)
    (operation : Operation) :
    ∃ s', s.perform operation = some s' ∧ ∃ l', Invariant none [] s' l' := by
  cases operation with
  | act action =>
    obtain ⟨s', l', ran, inv', -⟩ := act_keeps inv (by simp) action
    exact ⟨s', ran, l', inv'⟩
  | run callbacks =>
    obtain ⟨s', l', ran, inv', -⟩ := eventRun_spec stable_true callbacks.keep_true inv trivial
    exact ⟨s', ran, l', inv'⟩
  | runByType callbacks type =>
    obtain ⟨count, s', l', ran, inv', -⟩ :=
      eventRunByType_spec stable_true callbacks.keep_true inv trivial type
    exact ⟨s', by simp [Store.perform, ran], l', inv'⟩

theorem performs_invariant (operations : List Operation) :
    ∃ s, performs operations = some s ∧ ∃ l, Invariant none [] s l :=
  Machine.run_invariant
    (fun _ operation ⟨_, inv⟩ => perform_spec inv operation)
    operations ⟨Lists.empty, invariant_empty⟩

/-- The schedule was kept up to tick `now`. -/
structure Exact (now : Nat) (history : List Occurrence) : Prop where
  /-- An event whose tick has come was run by `event_run` once, at that tick,
  unless it had become a zombie by then. -/
  onTime : ∀ n tick time flags, .added n tick time flags ∈ history →
    due tick time ≤ now →
      runsOf n history = [due tick time] ∨
        runsOf n history = [] ∧ Cancelled history n flags (due tick time)
  /-- An event whose tick has not come was not run. -/
  notEarly : ∀ n tick time flags, .added n tick time flags ∈ history →
    now < due tick time → runsOf n history = []
  /-- No function is called for a zombie. -/
  neverAgain : ∀ n tick caller later earlier,
    history = later ++ .called n tick caller :: earlier → Clean earlier n

theorem Lawful.clean {history later earlier : List Occurrence} {n tick : Nat}
    {caller : Caller} (lawful : Lawful history)
    (split : history = later ++ .called n tick caller :: earlier) :
    Clean earlier n := by
  subst split
  induction later with
  | nil => exact lawful.1
  | cons occurrence later ih =>
    apply ih
    cases occurrence with
    | added => exact lawful
    | marked => exact lawful
    | called => exact lawful.2

theorem Invariant.exact {s : Store} {l : Lists} (inv : Invariant none [] s l) :
    Exact s.eventTick s.history := by
  constructor
  · intro n tick time flags added passed
    rcases inv.settled n tick time flags added with ⟨e, mem, named⟩ | ran | cancelled
    · -- Still listed between ticks although its time has come: a zombie.
      have tracked := inv.tracked e mem
      obtain ⟨tick', time', flags', added', dueTick⟩ := tracked.added
      rw [named] at added'
      obtain ⟨rfl, rfl, rfl⟩ := inv.addedOnce _ _ _ _ _ _ _ added added'
      have zombie : (s.info e).zombie = true := by
        by_contra live
        have future := tracked.timely (by simp) (by simpa using live)
        simp only [not_mem_nil, and_false, or_false] at future
        omega
      have silent := tracked.waiting (by simp)
      have cancelled := tracked.cancelled (by simp) zombie tick time flags
      rw [named, dueTick] at cancelled
      rw [named] at silent
      exact Or.inr ⟨silent, cancelled added⟩
    · exact Or.inl ran.1
    · exact Or.inr cancelled
  · intro n tick time flags added future
    rcases inv.settled n tick time flags added with ⟨e, mem, named⟩ | ran | cancelled
    · have silent := (inv.tracked e mem).waiting (by simp)
      rw [named] at silent
      exact silent
    · exact absurd ran.2 (Nat.not_le_of_lt future)
    · exact cancelled.1
  · intro n tick caller later earlier split
    exact inv.lawful.clean split

/-- One event due in the second revolution of the ring, one cancelled at tick 1,
and one whose function adds another to the bucket being run. -/
example :
    let callbacks : Callbacks := fun function _ _ =>
      if function = 7 then [.add 70 0 3 8 0 0] else []
    ((performs
      ([.act (.add 71 0 1 5 0 0), .act (.add 2 0 2 6 9 0), .act (.add 1 0 3 7 0 0),
        .run callbacks, .act (.removeData 9)] ++
        List.replicate 71 (.run callbacks))).map fun s =>
          (List.range 4).map fun n => runsOf n s.history) =
      some [[71], [], [1], [71]] := by decide

/-- The lists behind the store's pointers agree with each other and with the
counters. -/
structure Consistent (s : Store) (main free : List Addr)
    (inType bucket : Nat → List Addr) : Prop where
  main_chain : Chain s.nextInMain s.eventList main
  type_chain : ∀ type, Chain s.nextInType (s.eventFirstInType type) (inType type)
  bucket_chain : ∀ spot, Chain s.next (s.eventStack spot) (bucket spot)
  free_chain : Chain s.next s.eventFreeList free
  main_nodup : main.Nodup
  free_nodup : free.Nodup
  types : ((List.range (s.lastEventType + 1).toNat).flatMap inType).Perm main
  buckets : ((List.range lookaheadStackSize).flatMap bucket).Perm main
  own_type : ∀ type, ∀ e ∈ inType type, (s.info e).type.val = type
  own_bucket : ∀ spot, ∀ e ∈ bucket spot, (s.info e).tick % lookaheadStackSize = spot
  main_inverse : ∀ e ∈ main, ∀ other ∈ main,
    s.nextInMain e = some other ↔ s.prevInMain other = some e
  type_inverse : ∀ type, ∀ e ∈ inType type, ∀ other ∈ inType type,
    s.nextInType e = some other ↔ s.prevInType other = some e
  main_first : ∀ e, s.eventList = some e → s.prevInMain e = none
  type_first : ∀ type e, s.eventFirstInType type = some e → s.prevInType e = none
  disjoint : ∀ e ∈ free, e ∉ main
  accounting : s.eventsScheduled = s.eventsExecuted + s.eventsZombies + main.length

theorem Invariant.consistent {s : Store} {l : Lists} (inv : Invariant none [] s l) :
    Consistent s l.main l.free l.inType l.bucket := by
  have rep := inv.represents
  have fst : ∀ {list : BidirList Addr} {cells : List Addr}, list.Holds cells →
      ∀ e, list.head = some e → list.prev e = none := by
    intro list cells h e head
    cases cells with
    | nil => simp [h.chain.head_eq] at head
    | cons cell rest =>
      have eq : cell = e := some.inj (h.chain.1.symm.trans head)
      exact eq ▸ h.back.1
  constructor
  · exact rep.main_holds.chain
  · exact fun type => (rep.type_holds type).chain
  · exact rep.bucket_chain
  · exact rep.free_chain
  · exact rep.main_nodup
  · exact rep.free_chain.nodup
  · apply perm_of_key rep.main_nodup rep.type_nodup rep.mem_inType
    intro e mem
    have bound := rep.type_le e mem
    omega
  · apply perm_of_key rep.main_nodup rep.bucket_nodup rep.mem_bucket
    intro e _
    exact Nat.mod_lt _ (by decide)
  · exact fun type e mem => ((rep.mem_inType type e).mp mem).2
  · exact fun spot e mem => ((rep.mem_bucket spot e).mp mem).2
  · exact fun e mem o otherMember => rep.main_holds.inverse mem otherMember
  · exact fun type e mem o otherMember =>
      (rep.type_holds type).inverse mem otherMember
  · exact fst rep.main_holds
  · exact fun type => fst (rep.type_holds type)
  · exact rep.free_notMem
  · exact inv.accounting

/-! ## Ticks of type `int` -/

/-- No tick so far, of the clock or of an event, was beyond an `int`. -/
structure Store.NoOverflow (s : Store) : Prop where
  tick : s.eventTick < 2 ^ 31
  added : ∀ n tick time flags, .added n tick time flags ∈ s.history → due tick time < 2 ^ 31

def Store.TicksFit (s : Store) : Prop := ∀ e, (s.info e).tick < 2 ^ 31

structure Grows (s s' : Store) : Prop where
  history : s.history <:+ s'.history
  tick : s.eventTick ≤ s'.eventTick

theorem Grows.refl (s : Store) : Grows s s := ⟨suffix_refl _, Nat.le_refl _⟩

theorem Grows.trans {s s' s'' : Store} (fst : Grows s s') (snd : Grows s' s'') : Grows s s'' :=
  ⟨fst.history.trans snd.history, fst.tick.trans snd.tick⟩

theorem Grows.noOverflow {s s' : Store} (grows : Grows s s') (fits : s'.NoOverflow) :
    s.NoOverflow where
  tick := Nat.lt_of_le_of_lt grows.tick fits.tick
  added n tick time flags mem := fits.added n tick time flags (grows.history.mem mem)

/-- As long as nothing overflows, the second result is the first. -/
def Follows (s : Store) (exact int : Option Store) : Prop :=
  ∀ s', exact = some s' → Grows s s' ∧
    (s'.NoOverflow → s.TicksFit → int = some s' ∧ s'.TicksFit)

theorem Follows.same {s s' : Store} (grows : Grows s s')
    (ticks : ∀ e, (s'.info e).tick = (s.info e).tick) : Follows s (some s') (some s') := by
  rintro _ ⟨⟩
  exact ⟨grows, fun _ fits => ⟨rfl, fun e => ticks e ▸ fits e⟩⟩

theorem Follows.bind {s : Store} {exact int : Option Store} {next next' : Store → Option Store}
    (fst : Follows s exact int) (snd : ∀ m, Follows m (next m) (next' m)) :
    Follows s (exact.bind next) (int.bind next') := by
  intro s' ran
  obtain ⟨m, mid, ran⟩ := bind_eq_some_iff.mp ran
  obtain ⟨grows, here⟩ := fst m mid
  obtain ⟨grows', there⟩ := snd m s' ran
  refine ⟨grows.trans grows', fun within fits => ?_⟩
  obtain ⟨rfl, fits'⟩ := here (grows'.noOverflow within) fits
  exact there within fits'

theorem Follows.start {s m : Store} {exact int : Option Store} (rest : Follows m exact int)
    (grows : Grows s m) (ticks : ∀ e, (m.info e).tick = (s.info e).tick) :
    Follows s exact int := by
  intro s' ran
  obtain ⟨grows', there⟩ := rest s' ran
  exact ⟨grows.trans grows', fun within fits => there within fun e => ticks e ▸ fits e⟩

/-- What agrees where nothing overflows may be put in the place of the second result. -/
theorem Follows.congr {s : Store} {exact int int' : Option Store} (rest : Follows s exact int)
    (agree : s.NoOverflow → s.TicksFit → int' = int) : Follows s exact int' := by
  intro s' ran
  obtain ⟨grows, there⟩ := rest s' ran
  exact ⟨grows, fun within fits => by
    rw [agree (grows.noOverflow within) fits]
    exact there within fits⟩

theorem tickInt_eq {tick : Nat} (fits : tick < 2 ^ 31) : tickInt tick = tick := by
  have bits : (BitVec.ofNat 32 tick).toNat = tick := by
    rw [BitVec.toNat_ofNat]
    omega
  rw [tickInt, BitVec.toInt_eq_toNat_of_lt (by omega), bits]

theorem intClock_spot {tick : Nat} (fits : tick < 2 ^ 31) :
    intClock.spot tick = exactClock.spot tick := by
  change (BitVec.ofInt 32 ((tickInt tick).tmod (70 : Nat))).toNat = tick % 70
  rw [tickInt_eq fits, Int.tmod_eq_emod_of_nonneg (Int.natCast_nonneg _), ← Int.natCast_mod,
    BitVec.ofInt_natCast, BitVec.toNat_ofNat]
  omega

theorem intClock_after {tick now : Nat} (fits : tick < 2 ^ 31) (fits' : now < 2 ^ 31) :
    intClock.after tick now = exactClock.after tick now := by
  change decide (tickInt now < tickInt tick) = decide (now < tick)
  rw [tickInt_eq fits, tickInt_eq fits', decide_eq_decide]
  exact Int.ofNat_lt

theorem mark_follows (s : Store) (e : Addr) : Follows s (some (s.mark e)) (some (s.mark e)) := by
  refine Follows.same ⟨suffix_cons _ _, Nat.le_refl _⟩ fun o => ?_
  by_cases eq : o = e
  · subst eq
    simp [Store.mark, Store.log, Event.markZombie]
  · simp [Store.mark, Store.log, eq]

theorem markLoop_follows {link : Store → Addr → Option Addr} {matching : Event → Bool}
    (limit : Nat) (start : Option Addr) (s : Store) :
    Follows s (markLoop link matching limit start s) (markLoop link matching limit start s) := by
  induction limit generalizing start s with
  | zero =>
    cases start with
    | none => exact Follows.same (Grows.refl s) fun _ => rfl
    | some e => exact fun _ ran => by cases ran
  | succ limit ih =>
    cases start with
    | none => exact Follows.same (Grows.refl s) fun _ => rfl
    | some e =>
      rw [markLoop]
      split
      · exact (mark_follows s e).bind fun m => ih (link (s.mark e) e) m
      · exact ih _ s

theorem markType_follows (s : Store) (type : EventType) (matching : Event → Bool) :
    Follows s (markType s type matching) (markType s type matching) := by
  unfold markType
  split
  · exact Follows.same (Grows.refl s) fun _ => rfl
  · exact markLoop_follows _ _ s

theorem takeNode_fields (s : Store) : (takeNode s).2.info = s.info ∧
    (takeNode s).2.eventTick = s.eventTick ∧ (takeNode s).2.history = s.history := by
  unfold takeNode
  split <;> exact ⟨rfl, rfl, rfl⟩

theorem eventAdd_follows (s : Store) (time : Int) (flags : Nat) (type : EventType)
    (function : Func) (data data2 : Pointer) :
    Follows s (some (eventAdd s time flags type function data data2))
      (some (@eventAdd intClock s time flags type function data data2)) := by
  rintro _ ⟨⟩
  have delay : (if time < 1 then 1 else time) = max 1 time := by
    split <;> omega
  have fields := takeNode_fields
    (growTypes { s with eventsScheduled := s.eventsScheduled + 1 } type)
  unfold eventAdd
  dsimp only
  rw [delay]
  generalize takeNode _ = taken at fields ⊢
  obtain ⟨e, t⟩ := taken
  rw [growTypes_eq] at fields
  cases t
  dsimp only at fields
  obtain ⟨rfl, rfl, rfl⟩ := fields
  refine ⟨⟨suffix_cons _ _, Nat.le_refl _⟩, fun within fits => ?_⟩
  have inTime : due s.eventTick time < 2 ^ 31 := within.added _ _ _ _ (mem_cons_self ..)
  rw [due] at inTime
  refine ⟨?_, fun o => ?_⟩
  · have spot := intClock_spot inTime
    dsimp only [Store.setTypeList, Store.setMainList] at spot ⊢
    rw [spot]
  · change (update s.info e _ o).tick < 2 ^ 31
    by_cases eq : o = e
    · subst eq
      rwa [update_self]
    · rw [update_of_ne eq]
      exact fits o

theorem act_follows (s : Store) (action : Action) :
    Follows s (s.act action) (@Store.act intClock s action) := by
  cases action with
  | add time flags type function data data2 =>
    exact eventAdd_follows s time flags type function data data2
  | removeData data => exact markLoop_follows _ _ s
  | removeTypeData | removeTypeData2 | removeTypeDataData => exact markType_follows s _ _
  | create key => exact Follows.same ⟨suffix_refl _, Nat.le_refl _⟩ fun _ => rfl
  | dispose key known =>
    change Follows s (disposeSpecialObject s key known) (disposeSpecialObject s key known)
    unfold disposeSpecialObject
    split
    · exact (markLoop_follows _ _ _).start ⟨suffix_refl _, Nat.le_refl _⟩ fun _ => rfl
    · exact Follows.same (Grows.refl s) fun _ => rfl

theorem acts_follows (s : Store) (actions : List Action) :
    Follows s (s.acts actions) (@Store.acts intClock s actions) := by
  induction actions generalizing s with
  | nil => exact Follows.same (Grows.refl s) fun _ => rfl
  | cons action rest ih => exact (act_follows s action).bind fun m => ih m

theorem callFunction_follows (callbacks : Callbacks) (caller : Caller) (s : Store) (e : Addr) :
    Follows s (callFunction callbacks caller s e)
      (@callFunction intClock callbacks caller s e) :=
  (acts_follows _ _).start ⟨suffix_cons _ _, Nat.le_refl _⟩ fun _ => rfl

theorem eventDelete_follows (s : Store) (e : Addr) (fp : Nat) :
    Follows s (eventDelete s e fp) (eventDelete s e fp) := by
  intro s' ran
  have deleted := ran
  simp only [eventDelete, bind_eq_bind, bind_eq_some_iff] at deleted
  obtain ⟨bucket, -, done⟩ := deleted
  cases some.inj done
  exact ⟨⟨suffix_refl _, Nat.le_refl _⟩, fun _ fits => ⟨ran, fits⟩⟩

theorem runBucket_follows (callbacks : Callbacks) (counter limit : Nat) (start : Option Addr)
    (s : Store) : Follows s (runBucket callbacks counter limit start s)
      (@runBucket intClock callbacks counter limit start s) := by
  induction limit generalizing start s with
  | zero =>
    cases start with
    | none => exact Follows.same (Grows.refl s) fun _ => rfl
    | some e => exact fun _ ran => by cases ran
  | succ limit ih =>
    cases start with
    | none => exact Follows.same (Grows.refl s) fun _ => rfl
    | some e =>
      simp only [runBucket, bind_eq_bind]
      refine Follows.congr ?_ fun within fits => by
        rw [intClock_after (fits e) within.tick]
      split
      · exact ih _ s
      · have counted (m m' : Store) (grows : Grows m m')
            (ticks : ∀ e, (m'.info e).tick = (m.info e).tick) :
            Follows m ((eventDelete m' e counter).bind (runBucket callbacks counter limit (s.next e)))
              ((eventDelete m' e counter).bind
                (@runBucket intClock callbacks counter limit (s.next e))) :=
          ((eventDelete_follows m' e counter).bind fun m => ih _ m).start grows ticks
        split
        · exact (callFunction_follows callbacks .eventRun s e).bind fun m =>
            counted m _ ⟨suffix_refl _, Nat.le_refl _⟩ fun _ => rfl
        · exact counted s _ ⟨suffix_refl _, Nat.le_refl _⟩ fun _ => rfl

theorem eventRun_follows (callbacks : Callbacks) (s : Store) :
    Follows s (eventRun callbacks s) (@eventRun intClock callbacks s) := by
  intro s' ran
  obtain ⟨grows, there⟩ := runBucket_follows callbacks _ _ _ _ s' ran
  refine ⟨⟨grows.history, Nat.le_of_succ_le grows.tick⟩, fun within fits => ?_⟩
  have spot : intClock.spot (s.eventTick + 1) = exactClock.spot (s.eventTick + 1) :=
    intClock_spot (grows.noOverflow within).tick
  have acted := there within fits
  refine ⟨?_, acted.2⟩
  unfold eventRun
  dsimp only
  rw [spot]
  exact acted.1

theorem runType_follows (callbacks : Callbacks) (limit : Nat) (start : Option Addr)
    (ran : Nat) (s : Store) :
    Follows s ((runType callbacks limit start ran s).map Prod.snd)
      ((@runType intClock callbacks limit start ran s).map Prod.snd) := by
  induction limit generalizing start ran s with
  | zero =>
    cases start with
    | none => exact Follows.same (Grows.refl s) fun _ => rfl
    | some e => exact fun _ ran => by cases ran
  | succ limit ih =>
    cases start with
    | none => exact Follows.same (Grows.refl s) fun _ => rfl
    | some e =>
      simp only [runType, bind_eq_bind]
      split
      · rw [map_bind, map_bind]
        refine (callFunction_follows callbacks .eventRunByType s e).bind fun m => ?_
        exact (mark_follows m e).bind fun m => ih _ _ m
      · exact ih _ _ s

theorem perform_follows (s : Store) (operation : Operation) :
    Follows s (s.perform operation) (@Store.perform intClock s operation) := by
  cases operation with
  | act action => exact act_follows s action
  | run callbacks => exact eventRun_follows callbacks s
  | runByType callbacks type =>
    simp only [Store.perform, eventRunByType]
    split
    · exact runType_follows callbacks _ _ 0 s
    · exact Follows.same (Grows.refl s) fun _ => rfl

theorem run_follows (s : Store) (operations : List Operation) :
    Follows s (Machine.run Store.perform s operations)
      (Machine.run (@Store.perform intClock) s operations) := by
  induction operations generalizing s with
  | nil => exact Follows.same (Grows.refl s) fun _ => rfl
  | cons operation rest ih => exact (perform_follows s operation).bind fun m => ih m

/-- Between ticks, the main list, the type lists and the ring of buckets hold the
same nodes, and the free list none of them, as long as no tick overflows. -/
theorem store_consistent (operations : List Operation)
    (fits : ∀ s, performs operations = some s → s.NoOverflow) :
    ∃ s, @performs intClock operations = some s ∧
      ∃ main free inType bucket, Consistent s main free inType bucket := by
  obtain ⟨s, ran, l, inv⟩ := performs_invariant operations
  have same := ((run_follows Store.empty operations s ran).2 (fits s ran) fun e =>
    show (0 : Nat) < 2 ^ 31 by decide).1
  exact ⟨s, same, l.main, l.free, l.inType, l.bucket, inv.consistent⟩

/-- An event beyond the ring, and one whose function adds another. -/
def twoEvents : List Operation :=
  [.act (.add 71 0 3 5 0 0), .act (.add 1 0 2 6 9 0),
    .run fun function _ _ => if function = 6 then [.add 5 0 2 7 0 0] else []]

theorem store_consistent_two :
    ∃ s, @performs intClock twoEvents = some s ∧
      ∃ main free inType bucket, Consistent s main free inType bucket :=
  store_consistent twoEvents fun s ran => by
    have all : (performs twoEvents).all (fun s => decide (s.eventTick < 2 ^ 31) &&
        s.history.all fun
          | .added _ tick time _ => decide (due tick time < 2 ^ 31)
          | _ => true) = true := by decide
    rw [ran, Option.all_some, Bool.and_eq_true, decide_eq_true_eq, List.all_eq_true] at all
    exact ⟨all.1, fun n tick time flags mem => of_decide_eq_true (all.2 _ mem)⟩

/-- After one tick, an event with the largest delay is linked into no bucket of the ring. -/
theorem store_overflow : ∃ s,
    @performs intClock [.run fun _ _ _ => [], .act (.add 2147483647 0 11 0 0 0)] = some s ∧
      ¬ ∃ main free inType bucket, Consistent s main free inType bucket := by
  have facts : (@performs intClock [.run fun _ _ _ => [],
      .act (.add 2147483647 0 11 0 0 0)]).map (fun s => decide (s.eventList = some 0 ∧
        ∀ spot < lookaheadStackSize, s.eventStack spot = none)) = some true := by
    decide
  obtain ⟨s, ran, shown⟩ := map_eq_some_iff.mp facts
  obtain ⟨first, ring⟩ := of_decide_eq_true shown
  refine ⟨s, ran, ?_⟩
  rintro ⟨main, free, inType, bucket, consistent⟩
  have empty : (List.range lookaheadStackSize).flatMap bucket = [] := by
    refine List.flatMap_eq_nil_iff.mpr fun spot mem => ?_
    have chain := consistent.bucket_chain spot
    rw [ring spot (mem_range.mp mem)] at chain
    exact chain.unique rfl
  have listed := consistent.buckets
  rw [empty, List.nil_perm] at listed
  have chain := consistent.main_chain
  rw [listed, chain_nil, first] at chain
  cases chain

end BattletechMux.EventQueue
