/-
Module: BattletechMux.Event.History
Purpose: What the history of an event store says about its nodes.
-/
import BattletechMux.Event.Store

namespace BattletechMux.EventQueue

open List

open Function (update update_self update_of_ne)

/-- The `event_add` call an occurrence is about. -/
def Occurrence.serial : Occurrence → Nat
  | .added serial _ _ _ => serial
  | .marked serial _ => serial
  | .called serial _ _ => serial

/-- The tick an event added at `tick` with delay `time` is for. -/
def due (tick : Nat) (time : Int) : Nat := tick + (max 1 time).toNat

/-- The ticks at which `event_run` called the function of event `n`, latest
first. -/
def runsOf (n : Nat) : List Occurrence → List Nat
  | [] => []
  | .called serial tick .eventRun :: earlier =>
    if serial = n then tick :: runsOf n earlier else runsOf n earlier
  | _ :: earlier => runsOf n earlier

/-- Event `n` was a zombie from the start, or became one at or before tick
`last`. -/
def Cancelled (history : List Occurrence) (n flags last : Nat) : Prop :=
  flags.testBit zombieBit = true ∨ ∃ tick ≤ last, .marked n tick ∈ history

/-- Nothing has made event `n` a zombie. -/
structure Clean (history : List Occurrence) (n : Nat) : Prop where
  unmarked : ∀ tick, .marked n tick ∉ history
  flags : ∀ tick time flags, .added n tick time flags ∈ history →
    flags.testBit zombieBit = false

/-- No event's function is called after the event became a zombie. -/
def Lawful : List Occurrence → Prop
  | [] => True
  | .called n _ _ :: earlier => Clean earlier n ∧ Lawful earlier
  | _ :: earlier => Lawful earlier

section Accounts

variable {history : List Occurrence} {occurrence : Occurrence} {n : Nat}

theorem mem_cons_of_serial_ne {o : Occurrence} (other : occurrence.serial ≠ o.serial) :
    o ∈ occurrence :: history ↔ o ∈ history := by
  constructor
  · intro mem
    rcases mem_cons.mp mem with eq | earlier
    · exact absurd (congrArg Occurrence.serial eq.symm) other
    · exact earlier
  · exact mem_cons_of_mem _

@[simp] theorem runsOf_added {serial tick flags : Nat} {time : Int} :
    runsOf n (.added serial tick time flags :: history) = runsOf n history := rfl

variable {serial tick : Nat}

@[simp] theorem runsOf_marked : runsOf n (.marked serial tick :: history) = runsOf n history := rfl

@[simp] theorem runsOf_calledByType :
    runsOf n (.called serial tick .eventRunByType :: history) =
      runsOf n history := rfl

theorem runsOf_called :
    runsOf n (.called serial tick .eventRun :: history) =
      if serial = n then tick :: runsOf n history else runsOf n history := rfl

theorem runsOf_other (o : occurrence.serial ≠ n) :
    runsOf n (occurrence :: history) = runsOf n history := by
  cases occurrence with
  | added => rfl
  | marked => rfl
  | called serial tick caller =>
    cases caller with
    | eventRun => exact if_neg o
    | eventRunByType => rfl

theorem runsOf_eq_nil (unknown : ∀ o ∈ history, o.serial ≠ n) :
    runsOf n history = [] := by
  induction history with
  | nil => rfl
  | cons o earlier ih =>
    rw [runsOf_other (unknown o (by simp))]
    exact ih fun other mem =>
      unknown other (mem_cons_of_mem _ mem)

theorem Cancelled.cons {flags last : Nat} (cancelled : Cancelled history n flags last) :
    Cancelled (occurrence :: history) n flags last := by
  rcases cancelled with zombie | ⟨tick, early, marked⟩
  · exact Or.inl zombie
  · exact Or.inr ⟨tick, early, mem_cons_of_mem _ marked⟩

theorem Clean.other (clean : Clean history n) (o : occurrence.serial ≠ n) :
    Clean (occurrence :: history) n where
  unmarked tick mem :=
    clean.unmarked tick ((mem_cons_of_serial_ne (by exact o)).mp mem)
  flags tick time flags mem :=
    clean.flags tick time flags ((mem_cons_of_serial_ne (by exact o)).mp mem)

theorem Clean.called (clean : Clean history n) {caller : Caller} :
    Clean (.called serial tick caller :: history) n where
  unmarked t mem := clean.unmarked t (by simpa using mem)
  flags t time flags mem := clean.flags t time flags (by simpa using mem)

/-- What the history says about a listed event.  `running` holds while
`event_run` is calling its function, `pending` while the walk of `event_run`
has not reached its node. -/
structure Tracked (running pending : Prop) (now : Nat) (history : List Occurrence)
    (event : Event) : Prop where
  added : ∃ tick time flags, .added event.serial tick time flags ∈ history ∧
    event.tick = due tick time
  clean : event.zombie = false → Clean history event.serial
  cancelled : ¬ running → event.zombie = true → ∀ tick time flags,
    .added event.serial tick time flags ∈ history →
      Cancelled history event.serial flags event.tick
  waiting : ¬ running → runsOf event.serial history = []
  timely : ¬ running → event.zombie = false →
    now < event.tick ∨ event.tick = now ∧ pending
  runningNow : running → runsOf event.serial history = [event.tick] ∧ event.tick = now

/-- What the history says about an event that is no longer listed. -/
def Settled (now : Nat) (history : List Occurrence) (n tick : Nat) (time : Int)
    (flags : Nat) : Prop :=
  runsOf n history = [due tick time] ∧ due tick time ≤ now ∨
    runsOf n history = [] ∧ Cancelled history n flags (due tick time)

theorem Settled.cons {now tick flags : Nat} {time : Int}
    (settled : Settled now history n tick time flags)
    (quiet : runsOf n (occurrence :: history) = runsOf n history) :
    Settled now (occurrence :: history) n tick time flags := by
  rcases settled with ran | ⟨silent, cancelled⟩
  · exact Or.inl (quiet ▸ ran)
  · exact Or.inr ⟨quiet ▸ silent, cancelled.cons⟩

theorem Settled.mono {now now' tick flags : Nat} {time : Int}
    (settled : Settled now history n tick time flags) (later : now ≤ now') :
    Settled now' history n tick time flags := by
  rcases settled with ⟨ran, early⟩ | cancelled
  · exact Or.inl ⟨ran, early.trans later⟩
  · exact Or.inr cancelled

namespace Tracked

variable {running pending : Prop} {now : Nat} {event : Event}

theorem other (tracked : Tracked running pending now history event)
    (other : occurrence.serial ≠ event.serial) :
    Tracked running pending now (occurrence :: history) event where
  added := by
    obtain ⟨tick, time, flags, mem, eq⟩ := tracked.added
    exact ⟨tick, time, flags, mem_cons_of_mem _ mem, eq⟩
  clean live := (tracked.clean live).other other
  cancelled idle zombie tick time flags mem := by
    have earlier := (mem_cons_of_serial_ne (by exact other)).mp mem
    exact (tracked.cancelled idle zombie tick time flags earlier).cons
  waiting idle := by
    rw [runsOf_other other]
    exact tracked.waiting idle
  timely := tracked.timely
  runningNow busy := by
    rw [runsOf_other other]
    exact tracked.runningNow busy

@[simp] theorem markZombie_zombie (event : Event) : event.markZombie.zombie = true := by
  have bit : flagZombie.testBit zombieBit = true := by decide
  simp [Event.markZombie, Event.zombie, Nat.testBit_or, bit]

theorem marked (tracked : Tracked running pending now history event) :
    Tracked running pending now (.marked event.serial now :: history)
      event.markZombie where
  added := by
    obtain ⟨tick, time, flags, mem, eq⟩ := tracked.added
    exact ⟨tick, time, flags, mem_cons_of_mem _ mem, eq⟩
  clean live := by simp at live
  cancelled idle _ tick time flags mem := by
    have earlier : .added event.serial tick time flags ∈ history := by
      simpa [Event.markZombie] using mem
    cases zombie : event.zombie with
    | true => exact (tracked.cancelled idle zombie tick time flags earlier).cons
    | false =>
      have inTime : now ≤ event.tick := by
        have timely := tracked.timely idle zombie
        omega
      exact Or.inr ⟨now, inTime, mem_cons_self ..⟩
  waiting := tracked.waiting
  timely _ live := by simp at live
  runningNow := tracked.runningNow

theorem calledByType (tracked : Tracked running pending now history event) :
    Tracked running pending now
      (.called event.serial now .eventRunByType :: history) event where
  added := by
    obtain ⟨tick, time, flags, mem, eq⟩ := tracked.added
    exact ⟨tick, time, flags, mem_cons_of_mem _ mem, eq⟩
  clean live := (tracked.clean live).called
  cancelled idle zombie tick time flags mem := by
    have earlier : .added event.serial tick time flags ∈ history := by
      simpa using mem
    exact (tracked.cancelled idle zombie tick time flags earlier).cons
  waiting := tracked.waiting
  timely := tracked.timely
  runningNow := tracked.runningNow

theorem called (tracked : Tracked False pending now history event)
    (live : event.zombie = false) (onTime : event.tick = now) {running pending' : Prop}
    (busy : running) :
    Tracked running pending' now (.called event.serial now .eventRun :: history)
      event where
  added := by
    obtain ⟨tick, time, flags, mem, eq⟩ := tracked.added
    exact ⟨tick, time, flags, mem_cons_of_mem _ mem, eq⟩
  clean _ := (tracked.clean live).called
  cancelled idle := absurd busy idle
  waiting idle := absurd busy idle
  timely idle := absurd busy idle
  runningNow _ := by
    have silent := tracked.waiting not_false
    simp [runsOf_called, silent, onTime]

theorem fresh {delay : Int} {flags : Nat} {running pending : Prop} (idle : ¬ running)
    (unknown : ∀ o ∈ history, o.serial ≠ n) (serial : event.serial = n)
    (sameFlags : event.flags = flags) (tick : event.tick = due now delay) :
    Tracked running pending now (.added n now delay flags :: history) event where
  added := ⟨now, delay, flags, by rw [serial]; exact mem_cons_self .., tick⟩
  clean live := by
    rw [serial]
    constructor
    · intro t mem
      rcases mem_cons.mp mem with eq | earlier
      · exact absurd eq (by simp)
      · exact unknown _ earlier rfl
    · intro t d f mem
      rcases mem_cons.mp mem with eq | earlier
      · injection eq with _ _ _ eq
        rw [eq, ← sameFlags]
        exact live
      · exact absurd rfl (unknown _ earlier)
  cancelled _ zombie t d f mem := by
    rw [serial] at mem
    rcases mem_cons.mp mem with eq | earlier
    · injection eq with _ _ _ eq
      rw [eq, ← sameFlags]
      exact Or.inl zombie
    · exact absurd rfl (unknown _ earlier)
  waiting _ := by
    rw [runsOf_added, serial]
    exact runsOf_eq_nil unknown
  timely _ _ := by
    left
    rw [tick, due]
    omega
  runningNow busy := absurd busy idle

end Tracked

end Accounts

/-- The store between two of its primitive steps: its lists, its counters and
its history agree.  `running` is the node whose function `event_run` is calling,
`pending` the part of the bucket it has not reached. -/
structure Invariant (running : Option Addr) (pending : List Addr) (s : Store)
    (l : Lists) : Prop where
  represents : Represents s l
  accounting : s.eventsScheduled = s.eventsExecuted + s.eventsZombies + l.main.length
  recent : ∀ o ∈ s.history, o.serial < s.eventsScheduled
  serial_inj : ∀ e ∈ l.main, ∀ other ∈ l.main,
    (s.info e).serial = (s.info other).serial → e = other
  addedOnce : ∀ n tick time flags tick' time' flags',
    .added n tick time flags ∈ s.history → .added n tick' time' flags' ∈ s.history →
      tick = tick' ∧ time = time' ∧ flags = flags'
  tracked : ∀ e ∈ l.main,
    Tracked (running = some e) (e ∈ pending) s.eventTick s.history (s.info e)
  settled : ∀ n tick time flags, .added n tick time flags ∈ s.history →
    (∃ e ∈ l.main, (s.info e).serial = n) ∨
      Settled s.eventTick s.history n tick time flags
  lawful : Lawful s.history

theorem invariant_empty : Invariant none [] Store.empty Lists.empty where
  represents := represents_empty
  accounting := rfl
  recent := by simp [Store.empty]
  serial_inj := by simp [Lists.empty]
  addedOnce := by simp [Store.empty]
  tracked := by simp [Lists.empty]
  settled := by simp [Store.empty]
  lawful := trivial

namespace Invariant

variable {running : Option Addr} {pending : List Addr} {s : Store} {l : Lists}
  {e : Addr}

section

variable (inv : Invariant running pending s l)
include inv

theorem serial_lt (mem : e ∈ l.main) : (s.info e).serial < s.eventsScheduled := by
  obtain ⟨tick, time, flags, added, _⟩ := (inv.tracked e mem).added
  exact inv.recent _ added

theorem logged (occurrence : Occurrence)
    (event : Event) {running' : Option Addr} {pending' : List Addr} (mem : e ∈ l.main)
    (about : occurrence.serial = (s.info e).serial)
    (notAdded : ∀ n tick time flags, occurrence ≠ .added n tick time flags)
    (serial : event.serial = (s.info e).serial)
    (type : event.type = (s.info e).type) (tick : event.tick = (s.info e).tick)
    (account : Tracked (running' = some e) (e ∈ pending') s.eventTick
      (occurrence :: s.history) event) (others : ∀ other ∈ l.main, other ≠ e →
      Tracked (running' = some other) (other ∈ pending') s.eventTick s.history (s.info other))
    (lawful : Lawful (occurrence :: s.history)) :
    Invariant running' pending'
      ({ s with info := update s.info e event }.log occurrence) l := by
  have serialSame : ∀ other, (update s.info e event other).serial =
      (s.info other).serial := by
    intro other
    by_cases eq : other = e
    · subst eq
      simpa using serial
    · simp [eq]
  have earlier : ∀ {n tick time flags},
      .added n tick time flags ∈ occurrence :: s.history →
        .added n tick time flags ∈ s.history := by
    intro n tick time flags added
    rcases mem_cons.mp added with eq | old
    · exact absurd eq.symm (notAdded n tick time flags)
    · exact old
  constructor
  · apply Represents.log
    refine inv.represents.congr rfl rfl rfl rfl rfl rfl rfl rfl rfl ?_
    intro other _
    by_cases eq : other = e
    · subst eq
      simpa using ⟨type, tick⟩
    · simp [eq]
  · exact inv.accounting
  · intro o recorded
    rcases mem_cons.mp recorded with eq | old
    · rw [eq, about]
      exact inv.serial_lt mem
    · exact inv.recent o old
  · intro fst firstMember snd secondMember eq
    have same' : (s.info fst).serial = (s.info snd).serial := by
      simpa [Store.log, serialSame] using eq
    exact inv.serial_inj fst firstMember snd secondMember same'
  · intro n t d f t' d' f' one two
    exact inv.addedOnce n t d f t' d' f' (earlier one) (earlier two)
  · intro other otherMember
    by_cases eq : other = e
    · subst eq
      simpa [Store.log] using account
    · have apart : occurrence.serial ≠ (s.info other).serial := by
        rw [about]
        intro equal
        exact eq (inv.serial_inj e mem other otherMember equal).symm
      simpa [Store.log, eq] using (others other otherMember eq).other apart
  · intro n t d f added
    rcases inv.settled n t d f (earlier added) with ⟨other, otherMember, named⟩ | done
    · left
      exact ⟨other, otherMember, by simpa [Store.log, serialSame] using named⟩
    · by_cases own : (s.info e).serial = n
      · left
        exact ⟨e, mem, (serialSame e).trans own⟩
      · right
        exact done.cons (runsOf_other (about ▸ own))
  · exact lawful

theorem disposed (objects : SpecialObjects) (disposals : List (Pointer × List Event)) :
    Invariant running pending { s with objects, disposals } l :=
  ⟨inv.represents.disposed objects disposals, inv.accounting, inv.recent, inv.serial_inj,
    inv.addedOnce, inv.tracked, inv.settled, inv.lawful⟩

theorem mark (mem : e ∈ l.main) : Invariant running pending (s.mark e) l := by
  apply inv.logged (.marked (s.info e).serial s.eventTick) (s.info e).markZombie
    mem rfl (by simp) rfl rfl rfl
  · exact (inv.tracked e mem).marked
  · intro o otherMember _
    exact inv.tracked o otherMember
  · exact inv.lawful

end

theorem logCall (inv : Invariant none pending s l) (caller : Caller)
    {running' : Option Addr} {pending' : List Addr} (mem : e ∈ l.main)
    (live : (s.info e).zombie = false)
    (account : Tracked (running' = some e) (e ∈ pending') s.eventTick
      (.called (s.info e).serial s.eventTick caller :: s.history) (s.info e))
    (others : ∀ o ∈ l.main, o ≠ e →
      Tracked (running' = some o) (o ∈ pending') s.eventTick s.history (s.info o)) :
    Invariant running' pending'
      (s.log (.called (s.info e).serial s.eventTick caller)) l := by
  have logged := inv.logged (.called (s.info e).serial s.eventTick caller)
    (s.info e) mem rfl (by simp) rfl rfl rfl account others
    ⟨(inv.tracked e mem).clean live, inv.lawful⟩
  simpa using logged

theorem callByType (inv : Invariant none pending s l)
    (mem : e ∈ l.main) (live : (s.info e).zombie = false) :
    Invariant none pending
      (s.log (.called (s.info e).serial s.eventTick .eventRunByType)) l := by
  apply inv.logCall .eventRunByType mem live
  · exact (inv.tracked e mem).calledByType
  · intro o otherMember _
    exact inv.tracked o otherMember

theorem call (inv : Invariant none (e :: pending) s l)
    (mem : e ∈ l.main) (live : (s.info e).zombie = false)
    (onTime : (s.info e).tick = s.eventTick) :
    Invariant (some e) pending
      (s.log (.called (s.info e).serial s.eventTick .eventRun)) l := by
  apply inv.logCall .eventRun mem live
  · have tracked := inv.tracked e mem
    rw [eq_false (by simp : ¬ none = some e)] at tracked
    exact tracked.called live onTime rfl
  · intro o otherMember ne
    have tracked := inv.tracked o otherMember
    have idle : (none = some o) = (some e = some o) := by
      simp [Ne.symm ne]
    rw [idle] at tracked
    simpa [ne] using tracked

theorem skip (inv : Invariant none (e :: pending) s l)
    (later : s.eventTick < (s.info e).tick ∨ (s.info e).zombie = true) :
    Invariant none pending s l := by
  refine { inv with tracked := ?_ }
  intro o mem
  have tracked := inv.tracked o mem
  refine { tracked with timely := ?_ }
  intro idle live
  rcases tracked.timely idle live with future | ⟨now, reached⟩
  · exact Or.inl future
  · rcases mem_cons.mp reached with eq | rest
    · subst eq
      rcases later with future | zombie
      · exact Or.inl future
      · simp [zombie] at live
    · exact Or.inr ⟨now, rest⟩

theorem advance (inv : Invariant none [] s l) :
    Invariant none (l.bucket ((s.eventTick + 1) % lookaheadStackSize))
      { s with
        eventTick := s.eventTick + 1
        eventCounter := (s.eventTick + 1) % lookaheadStackSize } l := by
  constructor
  · exact inv.represents.congr rfl rfl rfl rfl rfl rfl rfl rfl rfl
      fun _ _ => ⟨rfl, rfl⟩
  · exact inv.accounting
  · exact inv.recent
  · exact inv.serial_inj
  · exact inv.addedOnce
  · intro e mem
    have tracked := inv.tracked e mem
    have inFuture : (s.info e).zombie = false → s.eventTick < (s.info e).tick := by
      intro live
      simpa using tracked.timely (by simp) live
    refine { tracked with timely := ?_, runningNow := by simp }
    intro _ live
    have future := inFuture live
    by_cases now : (s.info e).tick = s.eventTick + 1
    · right
      refine ⟨now, (inv.represents.mem_bucket _ _).mpr ⟨mem, ?_⟩⟩
      rw [Event.spot, now]
    · left
      simp only
      omega
  · intro n tick time flags added
    rcases inv.settled n tick time flags added with listed | done
    · exact Or.inl listed
    · exact Or.inr (done.mono (Nat.le_succ _))
  · exact inv.lawful

theorem add (inv : Invariant running pending s l) (time : Int) (flags : Nat)
    (type : EventType) (function : Func) (data data2 : Pointer)
    (busy : ∀ e, running = some e → e ∈ l.main) :
    ∃ l', Invariant running pending
      (eventAdd s time flags type function data data2) l' ∧
      (eventAdd s time flags type function data data2).eventTick = s.eventTick ∧
      ∃ e spot, l' = { l with free := l.free.tail }.push e type spot := by
  obtain ⟨e, l', added⟩ :=
    eventAdd_represents inv.represents time flags type function data data2
  have unknown : ∀ o ∈ s.history, o.serial ≠ s.eventsScheduled := fun o recorded =>
    Nat.ne_of_lt (inv.recent o recorded)
  have oldNe : ∀ other ∈ l.main, other ≠ e := by
    intro other mem eq
    exact added.fresh (eq ▸ mem)
  have main : l'.main = e :: l.main := by rw [added.lists]; rfl
  refine ⟨l', ?_, added.eventTick, e, _, added.lists⟩
  constructor
  · exact added.represents
  · rw [added.eventsScheduled, added.eventsExecuted, added.eventsZombies, main,
      length_cons, inv.accounting]
    omega
  · rw [added.history, added.eventsScheduled]
    intro o recorded
    rcases mem_cons.mp recorded with eq | old
    · rw [eq]
      exact Nat.lt_succ_self _
    · exact Nat.lt_succ_of_lt (inv.recent o old)
  · rw [main, added.info]
    have newest : ∀ other ∈ l.main, (s.info other).serial ≠ s.eventsScheduled :=
      fun other mem => Nat.ne_of_lt (inv.serial_lt mem)
    intro fst firstMember snd secondMember eq
    rcases mem_cons.mp firstMember with rfl | firstOld <;>
      rcases mem_cons.mp secondMember with rfl | secondOld
    · rfl
    · have ne := oldNe snd secondOld
      simp only [update_self, ne_eq, ne, not_false_eq_true,
        update_of_ne] at eq
      exact absurd eq.symm (newest snd secondOld)
    · have ne := oldNe fst firstOld
      simp only [update_self, ne_eq, ne, not_false_eq_true,
        update_of_ne] at eq
      exact absurd eq (newest fst firstOld)
    · simp only [ne_eq, oldNe fst firstOld, oldNe snd secondOld,
        not_false_eq_true, update_of_ne] at eq
      exact inv.serial_inj fst firstOld snd secondOld eq
  · rw [added.history]
    intro n t d f t' d' f' one two
    rcases mem_cons.mp one with new | old <;>
      rcases mem_cons.mp two with new' | old'
    · injection new with _ same₁ same₂ same₃
      injection new' with _ same₁' same₂' same₃'
      exact ⟨same₁.trans same₁'.symm, same₂.trans same₂'.symm, same₃.trans same₃'.symm⟩
    · injection new with eq
      exact absurd eq (unknown _ old')
    · injection new' with eq
      exact absurd eq (unknown _ old)
    · exact inv.addedOnce n t d f t' d' f' old old'
  · rw [main, added.history, added.info, added.eventTick]
    intro other mem
    rcases mem_cons.mp mem with eq | old
    · subst eq
      have idle : ¬ running = some other := fun isRunning =>
        added.fresh (busy other isRunning)
      rw [update_self]
      have delay : (if time < 1 then 1 else time) = max 1 time := by
        split <;> omega
      exact Tracked.fresh idle unknown rfl rfl (by rw [due, ← delay])
    · rw [update_of_ne (oldNe other old)]
      apply (inv.tracked other old).other
      exact (Nat.ne_of_lt (inv.serial_lt old)).symm
  · rw [main, added.history, added.info, added.eventTick]
    intro n tick time flags recorded
    rcases mem_cons.mp recorded with new | old
    · injection new with eq
      exact Or.inl ⟨e, by simp, by simpa using eq.symm⟩
    · rcases inv.settled n tick time flags old with ⟨other, mem, named⟩ | done
      · refine Or.inl ⟨other, mem_cons_of_mem _ mem, ?_⟩
        rw [update_of_ne (oldNe other mem)]
        exact named
      · exact Or.inr (done.cons rfl)
  · rw [added.history]
    exact inv.lawful

theorem release (inv : Invariant running pending s l) (mem : e ∈ l.main)
    (ended : running = some e ∨ running = none ∧ (s.info e).zombie = true) {executed zombies : Nat}
    (counted : executed + zombies = s.eventsExecuted + s.eventsZombies + 1) :
    ∃ s', eventDelete { s with eventsExecuted := executed, eventsZombies := zombies } e
        (s.info e).spot = some s' ∧
      Invariant none pending s' (l.erase e) ∧ s'.eventTick = s.eventTick := by
  have counting : Represents
      { s with eventsExecuted := executed, eventsZombies := zombies } l :=
    inv.represents.congr rfl rfl rfl rfl rfl rfl rfl rfl rfl fun _ _ => ⟨rfl, rfl⟩
  obtain ⟨s', run, deleted⟩ := eventDelete_represents counting mem
  refine ⟨s', run, ?_, deleted.eventTick⟩
  have info : s'.info = s.info := deleted.info
  have history : s'.history = s.history := deleted.history
  have tick : s'.eventTick = s.eventTick := deleted.eventTick
  have scheduled : s'.eventsScheduled = s.eventsScheduled := deleted.eventsScheduled
  have kept : ∀ o, o ∈ (l.erase e).main ↔ o ≠ e ∧ o ∈ l.main :=
    fun o => inv.represents.main_nodup.mem_erase_iff
  have notRunning : ∀ o, o ≠ e → running ≠ some o := by
    intro o ne isRunning
    rcases ended with busy | ⟨idle, _⟩
    · rw [busy] at isRunning
      exact ne (Option.some.inj isRunning).symm
    · simp [idle] at isRunning
  constructor
  · exact deleted.represents
  · have length : (l.erase e).main.length + 1 = l.main.length := by
      have pos := length_pos_of_mem mem
      have shorter := length_erase_of_mem mem
      change (l.main.erase e).length + 1 = l.main.length
      omega
    have accounting := inv.accounting
    have executedSame : s'.eventsExecuted = executed := deleted.eventsExecuted
    have zombiesSame : s'.eventsZombies = zombies := deleted.eventsZombies
    omega
  · rw [history, scheduled]
    exact inv.recent
  · rw [info]
    intro fst firstMember snd secondMember
    exact inv.serial_inj fst ((kept fst).mp firstMember).2 snd
      ((kept snd).mp secondMember).2
  · rw [history]
    exact inv.addedOnce
  · rw [info, history, tick]
    intro o otherMember
    obtain ⟨ne, listed⟩ := (kept o).mp otherMember
    have idle : (running = some o) = (none = some o) := by
      simp [notRunning o ne]
    rw [← idle]
    exact inv.tracked o listed
  · rw [info, history, tick]
    intro n t d f added
    rcases inv.settled n t d f added with ⟨o, listed, named⟩ | done
    · by_cases eq : o = e
      · subst eq
        right
        have tracked := inv.tracked o listed
        obtain ⟨t', d', f', added', dueTick⟩ := tracked.added
        rw [named] at added'
        obtain ⟨rfl, rfl, rfl⟩ := inv.addedOnce _ _ _ _ _ _ _ added added'
        rcases ended with busy | ⟨idle, zombie⟩
        · obtain ⟨ran, now⟩ := tracked.runningNow busy
          left
          rw [named, dueTick] at ran
          exact ⟨ran, by omega⟩
        · have notBusy : ¬ running = some o := by simp [idle]
          have silent := tracked.waiting notBusy
          have cancelled := tracked.cancelled notBusy zombie
          rw [named] at silent cancelled
          right
          rw [← dueTick]
          exact ⟨silent, cancelled t d f added⟩
      · exact Or.inl ⟨o, (kept o).mpr ⟨eq, listed⟩, named⟩
    · exact Or.inr done
  · rw [history]
    exact inv.lawful

end Invariant

end BattletechMux.EventQueue
