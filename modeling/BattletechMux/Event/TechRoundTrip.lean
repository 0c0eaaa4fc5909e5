/-
Module: BattletechMux.Event.TechRoundTrip
Purpose: What saving and loading makes of the pending tech events.
-/
import BattletechMux.Event.Exactness
import BattletechMux.Event.TechJobs

namespace BattletechMux.EventQueue

open List hiding map_map
open Option hiding map map_map

open Function (update)
open LinkedMemory

structure Repair where
  type : EventType
  function : Func
  mech : Pointer
  data2 : Pointer
  remaining : Int
deriving Repr, DecidableEq

def Event.repair (eventTick : Nat) (e : Event) : Repair :=
  { type := e.type, function := e.function, mech := e.data, data2 := e.data2
    remaining := (e.tick : Int) - eventTick }

/-- The events the commands make: they are about a unit, and their argument is an
int. -/
structure Event.IsTech (e : Event) : Prop where
  mech : 0 < e.data
  packed : e.data2 < 2 ^ 32

instance (e : Event) : Decidable e.IsTech :=
  decidable_of_iff (0 < e.data ∧ e.data2 < 2 ^ 32)
    ⟨fun both => ⟨both.1, both.2⟩, fun tech => ⟨tech.mech, tech.packed⟩⟩

def readBack (e : Event) : Option Func :=
  if e.function = TechFunction.veryFake.func then some e.function
  else (loadFunction e.type.val).map TechFunction.func

def recreate (eventTick : Nat) (e : Event) : Option Repair :=
  (readBack e).map fun function =>
    { e.repair eventTick with
      function := function, remaining := max 1 ((e.tick : Int) - eventTick) }

section Walk

variable {s : Store}

theorem walk_chain {link : Addr → Option Addr} {head : Option Addr} {cells : List Addr}
    {limit : Nat} (chain : Chain link head cells) (room : cells.length ≤ limit) :
    walk s link limit head = some ((cells.map s.info).filter fun e => !e.zombie) := by
  induction cells generalizing head limit with
  | nil =>
    obtain rfl : head = none := chain
    cases limit <;> rfl
  | cons cell rest ih =>
    obtain ⟨rfl, later⟩ := chain
    cases limit with
    | zero => exact absurd room (by simp)
    | succ limit =>
      have walked := ih later (Nat.le_of_succ_le_succ room)
      rw [walk, walked, map_some, map_cons, filter_cons]

def Lists.tech (l : Lists) (s : Store) : List Event :=
  (List.range' firstTechEvent (lastTechEvent + 1 - firstTechEvent)).flatMap fun type =>
    ((l.inType type).map s.info).filter fun e => !e.zombie

theorem eventGothruType_eq {l : Lists} (rep : Represents s l) (type : Nat) :
    eventGothruType s type =
      some (((l.inType type).map s.info).filter fun e => !e.zombie) := by
  unfold eventGothruType
  split
  · rename_i beyond
    have none' : l.inType type = [] := by
      rw [eq_nil_iff_forall_not_mem]
      intro e mem
      obtain ⟨inMain, eq⟩ := (rep.mem_inType type e).mp mem
      have bound := rep.type_le e inMain
      omega
    rw [none']
    rfl
  · exact walk_chain (rep.type_holds type).chain (rep.type_length_le type)

theorem handed_eq {l : Lists} (rep : Represents s l) : handed s = some (l.tech s) := by
  have each : ∀ types : List Nat, types.mapM (eventGothruType s) =
      some (types.map fun type => ((l.inType type).map s.info).filter fun e => !e.zombie) := by
    intro types
    induction types with
    | nil => rfl
    | cons type rest ih =>
      simp [eventGothruType_eq rep, ih]
  unfold handed
  rw [each, map_some, Lists.tech, flatMap_def]

theorem tech_later {l : Lists} (inv : Invariant none [] s l) {e : Event}
    (mem : e ∈ l.tech s) : s.eventTick < e.tick := by
  obtain ⟨type, _, inType⟩ := mem_flatMap.mp mem
  obtain ⟨listed, active⟩ := mem_filter.mp inType
  obtain ⟨node, isNode, rfl⟩ := mem_map.mp listed
  have inMain := ((inv.represents.mem_inType type node).mp isNode).1
  have tracked := inv.tracked node inMain
  rcases tracked.timely (by simp) (by simpa using active) with later | ⟨_, pending⟩
  · exact later
  · exact absurd pending not_mem_nil

end Walk

section Queue

variable {s : Store} {repairs : List Repair} {eventTick : Nat}

def Queue (s : Store) (repairs : List Repair) : Prop :=
  ∃ l, Represents s l ∧ (l.main.map fun e => (s.info e).repair s.eventTick) = repairs ∧
    ∀ e ∈ l.main, (s.info e).zombie = false

theorem Queue.listed (queue : Queue s repairs) :
    ∃ events, listed s = some events ∧
      (events.map fun e => e.repair s.eventTick) = repairs := by
  obtain ⟨l, rep, rfl, active⟩ := queue
  refine ⟨_, walk_chain rep.main_holds.chain rep.main_length_le, ?_⟩
  have all : (l.main.map s.info).filter (fun e => !e.zombie) = l.main.map s.info := by
    rw [filter_eq_self]
    intro e mem
    obtain ⟨node, isNode, rfl⟩ := mem_map.mp mem
    simp [active node isNode]
  rw [all, List.map_map]
  rfl

theorem Pointer.ofInt_toInt {p : Pointer} (fits : p < 2 ^ 32) :
    Pointer.ofInt (Pointer.toInt p) = p := by
  unfold Pointer.ofInt Pointer.toInt
  rw [BitVec.ofInt_toInt, BitVec.toNat_ofNat, Nat.mod_eq_of_lt fits]

theorem fixEvent_queue (queue : Queue s repairs) (time : Int) (mech : Pointer)
    (data : Int) (function : TechFunction) (type : EventType) :
    Queue (fixEvent s time mech (data.tmod playerPos) function type (data.tdiv playerPos))
      ({ type, function := function.func, mech, data2 := Pointer.ofInt data
         remaining := max 1 time } :: repairs) := by
  obtain ⟨l, rep, rfl, active⟩ := queue
  have whole : data.tmod playerPos + data.tdiv playerPos * playerPos = data := by
    rw [Int.mul_comm]
    exact Int.tmod_add_mul_tdiv data playerPos
  unfold fixEvent
  rw [whole]
  obtain ⟨e, l', added⟩ := eventAdd_represents rep (max 1 time) 0 type function.func mech
    (Pointer.ofInt data)
  have main : l'.main = e :: l.main := by
    rw [added.lists]
    rfl
  have others : ∀ o ∈ l.main, o ≠ e := by
    rintro o mem rfl
    exact added.fresh mem
  refine ⟨l', added.represents, ?_, ?_⟩
  · rw [main, map_cons, added.info, added.eventTick, Function.update_self]
    congr 1
    · simp only [Event.repair, Repair.mk.injEq, true_and]
      split <;> omega
    · apply map_congr_left
      intro o mem
      rw [Function.update_of_ne (others o mem)]
  · rw [main, added.info]
    intro o mem
    rcases mem_cons.mp mem with rfl | old
    · rw [Function.update_self]
      simp [Event.zombie]
    · rw [Function.update_of_ne (others o old)]
      exact active o old

theorem loadEvent_queue (queue : Queue s repairs) {e : Event} (tech : e.IsTech) :
    ∃ t data, saveEvent eventTick e = [(e.data : Int), (e.type.val : Int), t, data] ∧
      Queue (loadEvent s e.data e.type.val t data)
        ((recreate eventTick e).toList ++ repairs) := by
  refine ⟨_, _, rfl, ?_⟩
  have type : (Fin.ofNat 128 ((e.type.val : Nat) : Int).toNat : EventType) = e.type := by
    apply Fin.ext
    simp
  have pos : 0 < max 1 ((e.tick : Int) - eventTick) := by omega
  have time : ((max 1 ((e.tick : Int) - eventTick)).natAbs : Int) =
      max 1 ((e.tick : Int) - eventTick) := by omega
  have added := fun function => fixEvent_queue queue (max 1 ((e.tick : Int) - eventTick))
    e.data (Pointer.toInt e.data2) function e.type
  simp only [Pointer.ofInt_toInt tech.packed] at added
  unfold loadEvent recreate readBack
  by_cases fake : e.function = TechFunction.veryFake.func
  · simpa [fake, pos, time, type, Event.repair] using added .veryFake
  · have notNegative : ¬ max 1 ((e.tick : Int) - eventTick) < 0 := by omega
    cases hf : loadFunction e.type.val with
    | none => simpa [fake, notNegative, hf] using queue
    | some function =>
      simpa [fake, notNegative, time, type, hf, Event.repair] using added function

end Queue

section Load

variable {o : Objects} {s : Store} {repairs : List Repair} {eventTick : Nat}

theorem loadLoop_missing {d : Int} (missing : o.findObjectsData d = none) (file : List Int)
    (s : Store) : loadLoop o d file s = s := by
  fun_induction loadLoop o d file s with
  | case1 d s type time data rest pos missing ih =>
    exact ih missing
  | case2 d s type time data pos mech hf => simp [hf] at missing
  | case3 d s type time data pos mech hf => simp [hf] at missing
  | case4 => rfl
  | case5 => rfl

theorem repairFile_cons (e : Event) (rest : List Event) :
    repairFile eventTick (e :: rest) = saveEvent eventTick e ++ repairFile eventTick rest := by
  rw [repairFile, flatMap_cons, append_assoc, repairFile]

theorem loadrepairs_of_ne_nil {file : List Int} (some' : file ≠ []) (s : Store) :
    ∃ d rest, file = d :: rest ∧ loadrepairs o file s = loadLoop o d rest s := by
  cases file with
  | nil => exact absurd rfl some'
  | cons d rest => exact ⟨d, rest, rfl, rfl⟩

theorem loadrepairs_file {events : List Event} (tech : ∀ e ∈ events, e.IsTech)
    (queue : Queue s repairs) :
    Queue (loadrepairs o (repairFile eventTick events) s)
      (((events.takeWhile o.hasMech).filterMap (recreate eventTick)).reverse ++ repairs) := by
  induction events generalizing s repairs with
  | nil => exact queue
  | cons e rest ih =>
    have isTech := tech e mem_cons_self
    obtain ⟨t, data, record, added⟩ := @loadEvent_queue s repairs eventTick queue e isTech
    have pos : (0 : Int) < e.data := Int.ofNat_lt.mpr isTech.mech
    rw [repairFile_cons, record]
    simp only [loadrepairs, cons_append, nil_append, loadLoop, pos, if_true]
    cases exists' : o.hasMech e with
    | false =>
      have missing : o.findObjectsData e.data = none := by
        have unknown : o.hasData e.data = false := exists'
        simp [Objects.findObjectsData, unknown]
      rw [takeWhile_cons_of_neg (by simp [exists'])]
      simpa [missing, loadLoop_missing missing] using queue
    | true =>
      have hf : o.findObjectsData e.data = some e.data := by
        have known : o.hasData e.data = true := exists'
        simp [Objects.findObjectsData, known]
      obtain ⟨d, later, file, loads⟩ := @loadrepairs_of_ne_nil o
        (repairFile eventTick rest) (by simp [repairFile])
        (loadEvent s e.data e.type.val t data)
      have loaded := ih
        (fun other mem => tech other (mem_cons_of_mem e mem)) added
      rw [loads] at loaded
      rw [takeWhile_cons_of_pos exists', hf, file]
      cases made : recreate eventTick e with
      | none => simpa [made] using loaded
      | some repair => simpa [made] using loaded

end Load

def reloaded (o : Objects) (s : Store) (file : List Int) : Option (List Repair) :=
  (listed (loadrepairs o file s)).map fun events =>
    events.map fun e => e.repair (loadrepairs o file s).eventTick

/-- The pending tech events survive: those whose unit and player still exist are
recreated, each once, and no others; and the events of units that are gone change
nothing for the others. -/
structure Survive (o : Objects) (s empty : Store) (saved : List Event) : Prop where
  recreated : ∃ repairs, (saverepairs s).bind (reloaded o empty) = some repairs ∧
    repairs.Perm ((saved.filter o.wanted).map fun e => e.repair s.eventTick)
  unaffected : ∃ repairs others,
    reloaded o empty (repairFile s.eventTick saved) = some repairs ∧
    reloaded o empty (repairFile s.eventTick (saved.filter o.hasMech)) = some others ∧
    repairs.Perm others

/-- When they do: no event to be recreated was saved behind one whose unit is gone,
the reader gives each its own function, and it knows no function for those whose
player is gone. -/
structure Readable (o : Objects) (saved : List Event) : Prop where
  early : ∀ e ∈ saved.dropWhile o.hasMech, o.wanted e = false
  known : ∀ e ∈ saved, o.wanted e = true → readBack e = some e.function
  orphan : ∀ e ∈ saved, o.hasMech e = true → o.playerExists e.player = false →
    readBack e = none

instance (o : Objects) (saved : List Event) : Decidable (Readable o saved) :=
  decidable_of_iff ((∀ e ∈ saved.dropWhile o.hasMech, o.wanted e = false) ∧
      (∀ e ∈ saved, o.wanted e = true → readBack e = some e.function) ∧
      ∀ e ∈ saved, o.hasMech e = true → o.playerExists e.player = false → readBack e = none)
    ⟨fun ⟨early, known, orphan⟩ => ⟨early, known, orphan⟩,
      fun readable => ⟨readable.early, readable.known, readable.orphan⟩⟩

section Survival

variable {o : Objects} {s empty : Store} {saved : List Event} {eventTick : Nat}

theorem reloaded_eq {file : List Int} {repairs : List Repair}
    (queue : Queue (loadrepairs o file empty) repairs) :
    reloaded o empty file = some repairs := by
  obtain ⟨events, walked, eq⟩ := queue.listed
  rw [reloaded, walked, map_some, eq]

theorem recreate_eq_none {e : Event} : recreate eventTick e = none ↔ readBack e = none :=
  map_eq_none_iff

theorem recreate_eq_repair {e : Event} (later : eventTick < e.tick) :
    recreate eventTick e = some (e.repair eventTick) ↔ readBack e = some e.function := by
  have time : max 1 ((e.tick : Int) - eventTick) = (e.tick : Int) - eventTick := by omega
  unfold recreate
  rw [time]
  cases readBack e with
  | none => simp
  | some function => simp [Event.repair]

theorem hasMech_of_wanted {e : Event} (wanted : o.wanted e = true) : o.hasMech e = true :=
  (Bool.and_eq_true_iff.mp wanted).1

theorem reloaded_file (tech : ∀ e ∈ saved, e.IsTech) (fresh : Queue empty []) :
    reloaded o empty (repairFile eventTick saved) =
      some ((saved.takeWhile o.hasMech).filterMap (recreate eventTick)).reverse := by
  have queue := @loadrepairs_file o empty [] eventTick saved tech fresh
  rw [append_nil] at queue
  exact reloaded_eq queue

section

variable (recreated : ((saved.takeWhile o.hasMech).filterMap (recreate eventTick)).Perm
  ((saved.filter o.wanted).map fun e => e.repair eventTick))
include recreated

theorem known_of_perm {e : Event} (mem : e ∈ saved) (wanted : o.wanted e = true) :
    readBack e = some e.function := by
  have expected : e.repair eventTick ∈ (saved.filter o.wanted).map fun e => e.repair eventTick :=
    mem_map.mpr ⟨e, mem_filter.mpr ⟨mem, wanted⟩, rfl⟩
  obtain ⟨source, _, made⟩ := mem_filterMap.mp (recreated.mem_iff.mpr expected)
  obtain ⟨function, hf, eq⟩ := map_eq_some_iff.mp made
  have type : source.type = e.type := congrArg (fun r => r.type) eq
  have given : function = e.function := congrArg (fun r => r.function) eq
  subst given
  unfold readBack at hf ⊢
  split at hf
  · rename_i fake
    rw [if_pos (some.inj hf ▸ fake)]
  · split
    · rfl
    · rwa [← type]

theorem orphan_of_perm {e : Event}
    (mem : e ∈ saved.takeWhile o.hasMech) (gone : o.playerExists e.player = false) :
    readBack e = none := by
  rw [← @recreate_eq_none eventTick]
  cases made : recreate eventTick e with
  | none => rfl
  | some repair =>
    have among := recreated.mem_iff.mp (mem_filterMap.mpr ⟨e, mem, made⟩)
    obtain ⟨source, isSource, eq⟩ := mem_map.mp among
    have wanted := (mem_filter.mp isSource).2
    obtain ⟨_, _, rfl⟩ := map_eq_some_iff.mp made
    have data2 : source.data2 = e.data2 := congrArg (fun r => r.data2) eq
    have player : source.player = e.player := by rw [Event.player, Event.player, data2]
    have exists' := (Bool.and_eq_true_iff.mp wanted).2
    rw [player, gone] at exists'
    exact absurd exists' Bool.false_ne_true

end

theorem Readable.recreates (readable : Readable o saved)
    (later : ∀ e ∈ saved, eventTick < e.tick) {events : List Event}
    (among : ∀ e ∈ events, e ∈ saved ∧ o.hasMech e = true) :
    events.filterMap (recreate eventTick) =
      (events.filter o.wanted).map fun e => e.repair eventTick := by
  induction events with
  | nil => rfl
  | cons e rest ih =>
    obtain ⟨mem, exists'⟩ := among e mem_cons_self
    have restSame := ih fun other later =>
      among other (mem_cons_of_mem e later)
    cases wanted : o.wanted e with
    | true =>
      have made := (recreate_eq_repair (later e mem)).mpr (readable.known e mem wanted)
      rw [filterMap_cons_some made, filter_cons_of_pos wanted, map_cons,
        restSame]
    | false =>
      have gone : o.playerExists e.player = false := by
        simpa [Objects.wanted, exists'] using wanted
      have unread := (@recreate_eq_none eventTick e).mpr
        (readable.orphan e mem exists' gone)
      rw [filterMap_cons_none unread, filter_cons_of_neg (by simp [wanted]),
        restSame]

theorem survive_iff (tech : ∀ e ∈ saved, e.IsTech)
    (later : ∀ e ∈ saved, s.eventTick < e.tick) (fresh : Queue empty [])
    (handing : handed s = some saved) : Survive o s empty saved ↔ Readable o saved := by
  have split := takeWhile_append_dropWhile (p := o.hasMech) (l := saved)
  have front : ∀ e ∈ saved.takeWhile o.hasMech, o.hasMech e = true :=
    fun e mem => mem_takeWhile_imp mem
  have inFront : ∀ e ∈ saved.takeWhile o.hasMech, e ∈ saved :=
    fun e mem => (takeWhile_sublist _).subset mem
  have inBack : ∀ e ∈ saved.dropWhile o.hasMech, e ∈ saved :=
    fun e mem => (dropWhile_sublist _).subset mem
  have existing : saved.filter o.hasMech =
      saved.takeWhile o.hasMech ++ (saved.dropWhile o.hasMech).filter o.hasMech := by
    conv_lhs => rw [← split, filter_append, filter_eq_self.mpr front]
  have all : (saved.filter o.hasMech).takeWhile o.hasMech = saved.filter o.hasMech := by
    rw [takeWhile_eq_self_iff]
    exact fun e mem => (mem_filter.mp mem).2
  have whole := @reloaded_file o empty saved s.eventTick tech fresh
  have others := @reloaded_file o empty (saved.filter o.hasMech) s.eventTick
    (fun e mem => tech e (mem_filter.mp mem).1) fresh
  rw [all] at others
  conv_rhs at others => rw [existing]
  have file : saverepairs s = some (repairFile s.eventTick saved) := by
    rw [saverepairs, handing, map_some]
  constructor
  · rintro ⟨⟨repairs, ran, recreated⟩, ⟨fst, snd, firstRan, secondRan, eq⟩⟩
    rw [file, bind_some, whole] at ran
    obtain rfl := some.inj ran
    obtain rfl := some.inj (whole.symm.trans firstRan)
    obtain rfl := some.inj (others.symm.trans secondRan)
    have recreated := (reverse_perm _).symm.trans recreated
    have known := fun e mem wanted => @known_of_perm o saved s.eventTick recreated e mem
      wanted
    -- nothing is read behind a unit that is gone
    have unread : ∀ e ∈ saved.dropWhile o.hasMech, o.hasMech e = true → readBack e = none := by
      have lengths := eq.length_eq
      simp only [length_reverse, filterMap_append, length_append] at lengths
      have nothing := eq_nil_of_length_eq_zero (by omega :
        (((saved.dropWhile o.hasMech).filter o.hasMech).filterMap
          (recreate s.eventTick)).length = 0)
      intro e mem exists'
      rw [← @recreate_eq_none s.eventTick]
      exact filterMap_eq_nil_iff.mp nothing e (mem_filter.mpr ⟨mem, exists'⟩)
    refine ⟨?_, known, ?_⟩
    · intro e mem
      cases wanted : o.wanted e with
      | false => rfl
      | true =>
        have read := known e (inBack e mem) wanted
        rw [unread e mem (hasMech_of_wanted wanted)] at read
        exact absurd read (by simp)
    · intro e mem exists' gone
      rw [← split] at mem
      rcases mem_append.mp mem with pre | behind
      · exact orphan_of_perm recreated pre gone
      · exact unread e behind exists'
  · intro readable
    have frontMade := readable.recreates later fun e mem =>
      ⟨inFront e mem, front e mem⟩
    have backWanted : (saved.dropWhile o.hasMech).filter o.wanted = [] := by
      rw [filter_eq_nil_iff]
      intro e mem
      simp [readable.early e mem]
    have backMade : ((saved.dropWhile o.hasMech).filter o.hasMech).filterMap
        (recreate s.eventTick) = [] := by
      rw [readable.recreates later, map_eq_nil_iff, filter_eq_nil_iff]
      · intro e mem
        simp [readable.early e (mem_filter.mp mem).1]
      · intro e mem
        obtain ⟨behind, exists'⟩ := mem_filter.mp mem
        exact ⟨inBack e behind, exists'⟩
    refine ⟨⟨_, by rw [file, bind_some, whole], ?_⟩,
      ⟨_, _, whole, others, ?_⟩⟩
    · have wanted : saved.filter o.wanted = (saved.takeWhile o.hasMech).filter o.wanted := by
        conv_lhs => rw [← split, filter_append, backWanted, append_nil]
      rw [wanted, ← frontMade]
      exact reverse_perm _
    · rw [filterMap_append, backMade, append_nil]

end Survival

/-- Pending tech events survive saving and loading exactly when the file is
readable. -/
theorem repairs_survive_iff {o : Objects} {operations restart : List Operation}
    {s empty : Store} {saved : List Event} (ran : performs operations = some s)
    (restarted : performs restart = some empty) (noEvents : empty.eventList = none)
    (handing : handed s = some saved) (tech : ∀ e ∈ saved, e.IsTech) :
    Survive o s empty saved ↔ Readable o saved := by
  obtain ⟨s', ran', l, inv⟩ := performs_invariant operations
  obtain rfl := some.inj (ran'.symm.trans ran)
  obtain rfl := some.inj ((handed_eq inv.represents).symm.trans handing)
  obtain ⟨empty', restarted', l', inv'⟩ := performs_invariant restart
  obtain rfl := some.inj (restarted'.symm.trans restarted)
  have nobody : l'.main = [] := by
    have chain := inv'.represents.main_holds.chain
    cases main : l'.main with
    | nil => rfl
    | cons e rest =>
      rw [main] at chain
      exact absurd (noEvents.symm.trans chain.1) (by simp)
  have fresh : Queue empty' [] := ⟨l', inv'.represents, by simp [nobody], by simp [nobody]⟩
  exact survive_iff tech (fun e member => tech_later inv member) fresh handing

def unchanged : Objects := { hasData := fun _ => true, playerExists := fun _ => true }

def startRepair (time : Int) (type : EventType) (function : TechFunction)
    (mech location : Nat) : Operation :=
  .act (.add time 0 type function.func mech (location + 65536))

/-- A reattachment, a failed reload and a repair of armor, saved after a tick. -/
theorem repairs_survive_workshop :
    ∃ s saved, performs [startRepair 90 42 .reattach 7 3, startRepair 30 43 .veryFake 8 2,
        startRepair 200 44 .repairarmor 7 5, .run fun _ _ _ => []] = some s ∧
      handed s = some saved ∧ saved.length = 3 ∧ Survive unchanged s Store.empty saved := by
  have facts : ((performs [startRepair 90 42 .reattach 7 3, startRepair 30 43 .veryFake 8 2,
      startRepair 200 44 .repairarmor 7 5, .run fun _ _ _ => []]).any fun s =>
        (handed s).any fun saved => decide (saved.length = 3 ∧ (∀ e ∈ saved, e.IsTech) ∧
          Readable unchanged saved)) = true := by decide
  obtain ⟨s, ran, rest⟩ := (any_eq_true _ _).mp facts
  obtain ⟨saved, handing, holds⟩ := (any_eq_true _ _).mp rest
  obtain ⟨length, tech, readable⟩ := of_decide_eq_true holds
  have restarted : performs [] = some Store.empty := rfl
  exact ⟨s, saved, ran, handing, length,
    (repairs_survive_iff ran restarted rfl handing tech).mpr readable⟩

theorem not_survive_of_run {o : Objects} {operations : List Operation}
    (lost : ((performs operations).any fun s => (handed s).any fun saved =>
      ((saverepairs s).bind (reloaded o Store.empty)).all fun repairs =>
        !repairs.isPerm ((saved.filter o.wanted).map fun e => e.repair s.eventTick)) = true) :
    ∃ s saved, performs operations = some s ∧ handed s = some saved ∧
      ¬ Survive o s Store.empty saved := by
  obtain ⟨s, ran, rest⟩ := (any_eq_true _ _).mp lost
  obtain ⟨saved, handing, h⟩ := (any_eq_true _ _).mp rest
  refine ⟨s, saved, ran, handing, fun survive => ?_⟩
  obtain ⟨repairs, reload, eq⟩ := survive.recreated
  rw [reload] at h
  rw [← isPerm_iff] at eq
  simp [eq] at h

/-- Lost are a resealing, and what is saved behind the repair of a unit that is
gone; a gun that is repaired becomes a part, and a repair outlives its player. -/
theorem repairs_lost :
    (∃ s saved, performs [startRepair 60 53 .reseal 7 3] = some s ∧ handed s = some saved ∧
      ¬ Survive unchanged s Store.empty saved) ∧
    (∃ s saved, performs [startRepair 60 40 .repairpart 8 3, startRepair 60 42 .reattach 7 3] =
        some s ∧ handed s = some saved ∧
      ¬ Survive { unchanged with hasData := fun mech => mech == 7 } s Store.empty saved) ∧
    (∃ s saved, performs [startRepair 60 50 .repairgun 7 3] = some s ∧ handed s = some saved ∧
      ¬ Survive unchanged s Store.empty saved) ∧
    (∃ s saved, performs [startRepair 60 42 .reattach 7 3] = some s ∧ handed s = some saved ∧
      ¬ Survive { unchanged with playerExists := fun _ => false } s Store.empty saved) := by
  refine ⟨?_, ?_, ?_, ?_⟩
  · exact not_survive_of_run (by decide)
  · exact not_survive_of_run (by decide)
  · exact not_survive_of_run (by decide)
  · exact not_survive_of_run (by decide)

end BattletechMux.EventQueue
