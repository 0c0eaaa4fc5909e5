/-
Module: BattletechMux.Queue.Once
Purpose: What becomes of the entries of the queue.
-/
import BattletechMux.Queue.Moves

namespace BattletechMux.Queue

open List

open Function (update)

/-- What became of an entry, by the log: all its ends, in order. -/
def fatesOf (log : List Occurrence) (entry : Addr) : List Fate :=
  log.filterMap fun occurrence =>
    match occurrence with
    | .ended other fate => if other = entry then some fate else none
    | _ => none

/-- The entries that `setup_que` has accepted, in order. -/
def accepts (log : List Occurrence) : List Addr :=
  log.filterMap fun occurrence =>
    match occurrence with
    | .accepted entry => some entry
    | _ => none

/-- The entries that were put on the player queue, in order. -/
def puts (log : List Occurrence) : List Addr :=
  log.filterMap fun occurrence =>
    match occurrence with
    | .put entry => some entry
    | _ => none

def runs (log : List Occurrence) : List Addr :=
  log.filterMap fun occurrence =>
    match occurrence with
    | .ended entry .ran => some entry
    | _ => none

abbrev Core.resem (c : Core) (entry : Addr) (sem : Option Dbref) : Core :=
  { c with info := update c.info entry { c.info entry with sem := sem } }

section Logs

variable (log : List Occurrence) (entry other : Addr)

section

variable (later : List Occurrence)
include later

@[simp] theorem fatesOf_append :
    fatesOf (log ++ later) entry = fatesOf log entry ++ fatesOf later entry :=
  filterMap_append

@[simp] theorem accepts_append : accepts (log ++ later) = accepts log ++ accepts later :=
  filterMap_append

@[simp] theorem puts_append : puts (log ++ later) = puts log ++ puts later :=
  filterMap_append

@[simp] theorem runs_append : runs (log ++ later) = runs log ++ runs later :=
  filterMap_append

end

@[simp] theorem fatesOf_accepted : fatesOf [.accepted other] entry = [] := rfl

@[simp] theorem fatesOf_put : fatesOf [.put other] entry = [] := rfl

theorem fatesOf_ended (fate : Fate) :
    fatesOf [.ended other fate] entry = if other = entry then [fate] else [] := by
  simp only [fatesOf, filterMap_cons, filterMap_nil]
  split <;> simp_all

@[simp] theorem accepts_accepted : accepts [.accepted entry] = [entry] := rfl

@[simp] theorem accepts_put : accepts [.put entry] = [] := rfl

@[simp] theorem accepts_ended (fate : Fate) : accepts [.ended entry fate] = [] := rfl

@[simp] theorem puts_accepted : puts [.accepted entry] = [] := rfl

@[simp] theorem puts_put : puts [.put entry] = [entry] := rfl

@[simp] theorem puts_ended (fate : Fate) : puts [.ended entry fate] = [] := rfl

@[simp] theorem runs_accepted : runs [.accepted entry] = [] := rfl

@[simp] theorem runs_put : runs [.put entry] = [] := rfl

@[simp] theorem runs_ran : runs [.ended entry .ran] = [entry] := rfl

theorem runs_ended {fate : Fate} (notRun : fate ≠ .ran) : runs [.ended entry fate] = [] := by
  cases fate <;> first | rfl | exact absurd rfl notRun

@[simp] theorem fatesOf_puts (entries : List Addr) : fatesOf (entries.map .put) entry = [] := by
  induction entries with
  | nil => rfl
  | cons fst rest ih => exact ih

@[simp] theorem accepts_puts (entries : List Addr) : accepts (entries.map .put) = [] := by
  induction entries with
  | nil => rfl
  | cons fst rest ih => exact ih

@[simp] theorem puts_puts (entries : List Addr) : puts (entries.map .put) = entries := by
  induction entries with
  | nil => rfl
  | cons fst rest ih => exact congrArg (fst :: ·) ih

@[simp] theorem runs_puts (entries : List Addr) : runs (entries.map .put) = [] := by
  induction entries with
  | nil => rfl
  | cons fst rest ih => exact ih

end Logs

/-- The books of the queue: an entry on a queue that still has its player has not ended,
and every other entry has ended once. -/
structure Accounted (b : Board) : Prop where
  tidy : b.Tidy []
  accepted : accepts b.log = List.range b.allocated
  unborn : ∀ entry, b.allocated ≤ entry → fatesOf b.log entry = []
  waiting : ∀ entry, entry ∈ b.wait ∨ entry ∈ b.sem → (b.info entry).player ≠ none
  pending : ∀ entry ∈ b.all, (b.info entry).player ≠ none → fatesOf b.log entry = []
  ended : ∀ entry, entry < b.allocated → (entry ∈ b.all → (b.info entry).player = none) →
    ∃ fate, fatesOf b.log entry = [fate]

section Books

variable {rules : Rules} {b b' : Board} {entry : Addr}

namespace Accounted

theorem of_perm (books : Accounted b) (perm : b'.all.Perm b.all) (live : b'.live = b.live)
    (allocated : b'.allocated = b.allocated)
    (waits : ∀ other, other ∈ b'.wait ∨ other ∈ b'.sem → other ∈ b.wait ∨ other ∈ b.sem)
    (player : ∀ other, (b'.info other).player = (b.info other).player)
    (fates : ∀ other, fatesOf b'.log other = fatesOf b.log other)
    (accepted : accepts b'.log = accepts b.log) : Accounted b' where
  tidy := books.tidy.of_perm (by simpa using perm) live allocated
  accepted := by rw [accepted, allocated, books.accepted]
  unborn other above := by
    rw [fates]
    exact books.unborn other (allocated ▸ above)
  waiting other mem := by
    rw [player]
    exact books.waiting other (waits other mem)
  pending other mem := by
    rw [player, fates]
    exact books.pending other (perm.mem_iff.mp mem)
  ended other below := by
    rw [player, fates]
    intro finished
    exact books.ended other (allocated ▸ below) fun mem => finished (perm.mem_iff.mpr mem)

theorem finished (books : Accounted b) (perm : b'.all = b.all) (live : b'.live = b.live)
    (allocated : b'.allocated = b.allocated) (mem : entry ∈ b.all)
    (notWaiting : entry ∉ b.wait ∧ entry ∉ b.sem)
    (waits : b'.wait = b.wait ∧ b'.sem = b.sem)
    (player : ∀ other, other ≠ entry → (b'.info other).player = (b.info other).player)
    (taken : (b'.info entry).player = none)
    (fates : ∀ other, other ≠ entry → fatesOf b'.log other = fatesOf b.log other)
    (once : ∃ fate, fatesOf b'.log entry = [fate])
    (accepted : accepts b'.log = accepts b.log) : Accounted b' where
  tidy := books.tidy.of_perm (by rw [perm]) live allocated
  accepted := by rw [accepted, allocated, books.accepted]
  unborn other above := by
    have ne : other ≠ entry := by
      rintro rfl
      have below := books.tidy.below other ((books.tidy.live other).mpr (by simpa using mem))
      exact absurd below (Nat.not_lt.mpr (allocated ▸ above))
    rw [fates other ne]
    exact books.unborn other (allocated ▸ above)
  waiting other hin := by
    rw [waits.1, waits.2] at hin
    have ne : other ≠ entry := by
      rintro rfl
      exact hin.elim notWaiting.1 notWaiting.2
    rw [player other ne]
    exact books.waiting other hin
  pending other hin := by
    by_cases eq : other = entry
    · subst eq
      exact fun has => absurd taken has
    · rw [player other eq, fates other eq]
      exact books.pending other (perm ▸ hin)
  ended other below finished := by
    by_cases eq : other = entry
    · subst eq
      exact once
    · rw [player other eq, perm] at finished
      rw [fates other eq]
      exact books.ended other (allocated ▸ below) finished

theorem gone (books : Accounted b) (perm : b.all.Perm (entry :: b'.all))
    (live : b'.live = update b.live entry false) (allocated : b'.allocated = b.allocated)
    (waits : ∀ other, other ∈ b'.wait ∨ other ∈ b'.sem → other ∈ b.wait ∨ other ∈ b.sem)
    (player : ∀ other, other ≠ entry → (b'.info other).player = (b.info other).player)
    (fates : ∀ other, other ≠ entry → fatesOf b'.log other = fatesOf b.log other)
    (once : ∃ fate, fatesOf b'.log entry = [fate])
    (accepted : accepts b'.log = accepts b.log) : Accounted b' := by
  have hin : entry ∈ b.all := perm.mem_iff.mpr mem_cons_self
  have nodup : entry ∉ b'.all :=
    (nodup_cons.mp (perm.nodup_iff.mp (by simpa using books.tidy.nodup))).1
  refine
    { tidy := books.tidy.gone perm live allocated
      accepted := by rw [accepted, allocated, books.accepted]
      unborn := fun other above => ?_
      waiting := fun other mem => ?_
      pending := fun other mem => ?_
      ended := fun other below finished => ?_ }
  · have ne : other ≠ entry := by
      rintro rfl
      have below := books.tidy.below other ((books.tidy.live other).mpr (by simpa using hin))
      exact absurd below (Nat.not_lt.mpr (allocated ▸ above))
    rw [fates other ne]
    exact books.unborn other (allocated ▸ above)
  · have ne : other ≠ entry := by
      rintro rfl
      refine nodup ?_
      rw [Board.all]
      grind
    rw [player other ne]
    exact books.waiting other (waits other mem)
  · have ne : other ≠ entry := by
      rintro rfl
      exact nodup mem
    rw [player other ne, fates other ne]
    exact books.pending other (perm.mem_iff.mpr (mem_cons_of_mem entry mem))
  · by_cases eq : other = entry
    · subst eq
      exact once
    · rw [fates other eq]
      refine books.ended other (allocated ▸ below) fun mem => ?_
      rw [← player other eq]
      exact finished ((mem_cons.mp (perm.mem_iff.mp mem)).resolve_left eq)

theorem born (books : Accounted b) (perm : b'.all.Perm (b.allocated :: b.all))
    (live : b'.live = update b.live b.allocated true)
    (allocated : b'.allocated = b.allocated + 1)
    (waits : ∀ other, other ∈ b'.wait ∨ other ∈ b'.sem →
      other = b.allocated ∨ other ∈ b.wait ∨ other ∈ b.sem)
    (player : ∀ other, other ≠ b.allocated → (b'.info other).player = (b.info other).player)
    (owned : (b'.info b.allocated).player ≠ none)
    (fates : ∀ other, fatesOf b'.log other = fatesOf b.log other)
    (accepted : accepts b'.log = accepts b.log ++ [b.allocated]) : Accounted b' := by
  refine
    { tidy := books.tidy.born (by simpa using perm) live allocated
      accepted := by rw [accepted, allocated, books.accepted, range_succ]
      unborn := fun other above => ?_
      waiting := fun other mem => ?_
      pending := fun other mem has => ?_
      ended := fun other below finished => ?_ }
  · rw [allocated] at above
    rw [fates]
    exact books.unborn other (Nat.le_of_succ_le above)
  · by_cases new : other = b.allocated
    · exact new ▸ owned
    · rw [player other new]
      exact books.waiting other ((waits other mem).resolve_left new)
  · rw [fates]
    by_cases new : other = b.allocated
    · exact books.unborn other (Nat.le_of_eq new.symm)
    · rw [player other new] at has
      have hin := (mem_cons.mp (perm.mem_iff.mp mem)).resolve_left new
      exact books.pending other hin has
  · rw [fates]
    have old : other ≠ b.allocated := by
      rintro rfl
      exact owned (finished (perm.mem_iff.mpr mem_cons_self))
    rw [allocated] at below
    have below' : other < b.allocated := Nat.lt_of_le_of_ne (Nat.le_of_lt_succ below) old
    refine books.ended other below' fun mem => ?_
    rw [← player other old]
    exact finished (perm.mem_iff.mpr (mem_cons_of_mem _ mem))

end Accounted

theorem giveQue_books (rules : Rules) (r : Ready) (entry other : Addr) :
    ((r.giveQue rules entry).info other).player = (r.info other).player ∧
      (r.giveQue rules entry).live = r.live ∧
      (r.giveQue rules entry).allocated = r.allocated ∧
      fatesOf (r.giveQue rules entry).log other = fatesOf r.log other ∧
      accepts (r.giveQue rules entry).log = accepts r.log := by
  have player : ((r.toCore.setWaittime entry 0).info other).player = (r.info other).player := by
    by_cases eq : other = entry
    · simp [Core.setWaittime, eq]
    · simp [Core.setWaittime, eq]
  rw [giveQue_core]
  split
  · exact ⟨player, rfl, rfl, by simp [Core.note, Core.setWaittime],
      by simp [Core.note, Core.setWaittime]⟩
  · exact ⟨player, rfl, rfl, rfl, rfl⟩

theorem enqueue_books (rules : Rules) (b : Board) (entry other : Addr) (now wait : Int)
    (sem : Option Dbref)
    (attr : Nat) :
    ((b.enqueue rules entry now wait sem attr).info other).player = (b.info other).player ∧
      (b.enqueue rules entry now wait sem attr).live = b.live ∧
      (b.enqueue rules entry now wait sem attr).allocated = b.allocated ∧
      fatesOf (b.enqueue rules entry now wait sem attr).log other = fatesOf b.log other ∧
      accepts (b.enqueue rules entry now wait sem attr).log = accepts b.log := by
  have player : ((b.toCore.fill entry now wait sem attr).info other).player =
      (b.info other).player := by
    by_cases eq : other = entry
    · simp [Core.fill, eq]
    · simp [Core.fill, eq]
  cases sem with
  | some sem => exact ⟨player, rfl, rfl, rfl, rfl⟩
  | none =>
    by_cases direct : wait ≤ 0
    · simp only [Board.enqueue, if_pos direct]
      have given := giveQue_books rules
        { b.toReady with toCore := b.toCore.fill entry now wait none attr } entry other
      exact ⟨given.1.trans player, given.2⟩
    · simp only [Board.enqueue, if_neg direct]
      exact ⟨player, rfl, rfl, rfl, rfl⟩

theorem times_player (time : Core → Addr → Int) (entries : List Addr) (core : Core)
    (other : Addr) :
    ((entries.foldl (fun c point => c.setWaittime point (time c point)) core).info other).player =
      (core.info other).player := by
  induction entries generalizing core with
  | nil => rfl
  | cons entry rest ih =>
    refine (ih (core.setWaittime entry (time core entry))).trans ?_
    by_cases eq : other = entry
    · simp [Core.setWaittime, eq]
    · simp [Core.setWaittime, eq]

theorem warpTimes_player (b : Board) (i : Int) (other : Addr) :
    ((b.warpTimes i).info other).player = (b.info other).player :=
  (times_player _ b.sem _ other).trans (times_player (fun _ _ => int32 (-i)) b.wait _ other)

theorem Move.accounted (move : Move rules b b') (books : Accounted b) : Accounted b' := by
  have tidy := books.tidy
  cases move with
  | aside core info allocated live frames log =>
    exact books.of_perm (List.Perm.refl _) live allocated (fun _ mem => mem)
      (fun other => by rw [info]) (fun other => by rw [log]) (by rw [log])
  | mark entry mem pending =>
    have hin : entry ∈ b.all := by
      rw [Board.all]
      grind
    have open' := books.pending entry hin pending
    refine books.finished rfl rfl rfl hin ⟨fun waits => ?_, fun waits => ?_⟩ ⟨rfl, rfl⟩
      (fun other ne => by simp [Core.note, ne]) (by simp [Core.note])
      (fun other ne => ?_) ⟨.halted, ?_⟩ (by simp [Core.note])
    · rcases mem_append.mp mem with inPlayer | inObject
      · exact tidy.not_player (Or.inr (Or.inl waits)) inPlayer
      · exact tidy.not_object (Or.inl waits) inObject
    · rcases mem_append.mp mem with inPlayer | inObject
      · exact tidy.not_player (Or.inr (Or.inr (Or.inl waits))) inPlayer
      · exact tidy.not_object (Or.inr (Or.inl waits)) inObject
    · simp [Core.note, fatesOf_ended, Ne.symm ne]
    · simp [Core.note, fatesOf_ended, open']
  | drop lane pre post entry fate split removed =>
    have waits := Board.waits_of_lane lane split
    have hin : entry ∈ b.all := by
      rw [Board.all]
      grind
    have open' := books.pending entry hin (books.waiting entry waits)
    have perm := Board.setLane_all lane split
    have fates : ∀ other, fatesOf (b.log ++ [.ended entry fate]) other =
        fatesOf b.log other ++ if entry = other then [fate] else [] := by
      intro other
      rw [fatesOf_append, fatesOf_ended]
    have settled : Accounted
        { b.setLane lane (pre ++ post) with
          toCore := (b.toCore.note (.ended entry fate)).release entry } := by
      refine books.gone perm rfl rfl (fun other => Board.setLane_waits lane split)
        (fun _ _ => rfl) (fun other ne => ?_) ⟨fate, ?_⟩
        (by simp [Core.note, Core.release])
      · simp [Core.note, Core.release, fates, Ne.symm ne]
      · simp [Core.note, Core.release, fates, open']
    cases lane <;> exact settled
  | give lane pre post entry sem split =>
    have perm := Board.setLane_all lane split
    have given := giveQue_books rules
      { b.toReady with toCore := b.toCore.resem entry sem } entry
    have settled : Accounted
        { b.setLane lane (pre ++ post) with
          toReady := Ready.giveQue rules { b.toReady with toCore := b.toCore.resem entry sem }
            entry } := by
      refine books.of_perm ?_ (given entry).2.1 (given entry).2.2.1
        (fun other => Board.setLane_waits lane split) (fun other => (given other).1.trans ?_)
        (fun other => (given other).2.2.2.1) (given entry).2.2.2.2
      · refine List.Perm.trans ?_ perm.symm
        have joined := giveQue_all rules
          { b.setLane lane (pre ++ post) with
            toReady := { b.toReady with toCore := b.toCore.resem entry sem } } entry
        cases lane <;> exact joined
      · by_cases same : other = entry <;> simp [same]
    cases lane <;> exact settled
  | accept player cause comm now wait sem attr =>
    have new := enqueue_books rules
      { b with toCore := b.toCore.alloc (Board.entryOf player cause comm) } b.allocated
    have waits : ∀ other,
        other ∈ (Board.enqueue rules
          { b with toCore := b.toCore.alloc (Board.entryOf player cause comm) }
          b.allocated now wait sem attr).wait ∨
        other ∈ (Board.enqueue rules
          { b with toCore := b.toCore.alloc (Board.entryOf player cause comm) }
          b.allocated now wait sem attr).sem →
        other = b.allocated ∨ other ∈ b.wait ∨ other ∈ b.sem := fun other => enqueue_waits
    refine books.born (enqueue_all _ b.allocated now wait sem attr)
      ((new b.allocated now wait sem attr).2.1.trans rfl)
      ((new b.allocated now wait sem attr).2.2.1.trans rfl) waits
      (fun other ne => (new other now wait sem attr).1.trans ?_) ?_
      (fun other => (new other now wait sem attr).2.2.2.1.trans ?_)
      ((new b.allocated now wait sem attr).2.2.2.2.trans ?_)
    · simp [Core.alloc, ne]
    · rw [(new b.allocated now wait sem attr).1]
      simp [Core.alloc, Board.entryOf]
    · simp [Core.alloc]
    · simp [Core.alloc]
  | splice =>
    refine books.of_perm ?_ ?_ ?_ (fun _ mem => mem) (fun other => ?_) (fun other => ?_) ?_
      <;> simp only [Board.spliceObject, puts_eq]
    · simp [Board.all]
    · simp
    · simp
  | warp i =>
    have eq := b.warpTimes_eq i
    refine books.of_perm (List.Perm.refl _) ?_ ?_ (fun _ mem => mem)
      (warpTimes_player b i) (fun other => ?_) ?_ <;> rw [eq]

/-- What the moves of a call do to the player queue and its history: entries join it at
the end, none of its entries leaves, and what has ended stays ended. -/
structure Extends (b b' : Board) : Prop where
  more : ∃ more, b'.player = b.player ++ more ∧ puts b'.log = puts b.log ++ more
  runs : runs b'.log = runs b.log
  frames : b'.frames = b.frames
  allocated : b.allocated ≤ b'.allocated
  all : ∀ entry ∈ b'.all, entry ∈ b.all ∨ b.allocated ≤ entry
  finished : ∀ entry ∈ b.player, (b.info entry).player = none →
    (b'.info entry).player = none ∧ fatesOf b'.log entry = fatesOf b.log entry

theorem Extends.refl (b : Board) : Extends b b :=
  ⟨⟨[], by simp⟩, rfl, rfl, Nat.le_refl _, fun _ mem => .inl mem, fun _ _ finished => ⟨finished, rfl⟩⟩

theorem Extends.trans {b'' : Board} (fst : Extends b b') (snd : Extends b' b'') :
    Extends b b'' := by
  obtain ⟨more, player, put⟩ := fst.more
  obtain ⟨more', player', put'⟩ := snd.more
  refine
    { more := ⟨more ++ more', by simp [player, player'], by simp [put, put']⟩
      runs := snd.runs.trans fst.runs
      frames := snd.frames.trans fst.frames
      allocated := fst.allocated.trans snd.allocated
      all := fun entry mem => ?_
      finished := fun entry mem none' => ?_ }
  · rcases snd.all entry mem with hin | above
    · exact fst.all entry hin
    · exact .inr (fst.allocated.trans above)
  · obtain ⟨finished, fates⟩ := fst.finished entry mem none'
    obtain ⟨finished', fates'⟩ := snd.finished entry (by simp [player, mem]) finished
    exact ⟨finished', fates'.trans fates⟩

theorem giveQue_extends (rules : Rules) (r : Ready) (entry : Addr) :
    (∃ more, (r.giveQue rules entry).player = r.player ++ more ∧
        puts (r.giveQue rules entry).log = puts r.log ++ more) ∧
      runs (r.giveQue rules entry).log = runs r.log ∧
      (r.giveQue rules entry).frames = r.frames := by
  simp only [Ready.giveQue]
  split
  · exact ⟨⟨[entry], by simp [Core.note, Core.setWaittime]⟩,
      by simp [Core.note, Core.setWaittime], rfl⟩
  · exact ⟨⟨[], by simp [Core.setWaittime]⟩, rfl, rfl⟩

theorem enqueue_extends (rules : Rules) (b : Board) (entry : Addr) (now wait : Int)
    (sem : Option Dbref) (attr : Nat) :
    (∃ more, (b.enqueue rules entry now wait sem attr).player = b.player ++ more ∧
        puts (b.enqueue rules entry now wait sem attr).log = puts b.log ++ more) ∧
      runs (b.enqueue rules entry now wait sem attr).log = runs b.log ∧
      (b.enqueue rules entry now wait sem attr).frames = b.frames := by
  cases sem with
  | some sem => exact ⟨⟨[], by simp [Board.enqueue, Core.fill]⟩, rfl, rfl⟩
  | none =>
    by_cases direct : wait ≤ 0
    · simp only [Board.enqueue, if_pos direct]
      exact giveQue_extends rules
        { b.toReady with toCore := b.toCore.fill entry now wait none attr } entry
    · simp only [Board.enqueue, if_neg direct]
      exact ⟨⟨[], by simp [Core.fill]⟩, rfl, rfl⟩

theorem Move.extends (move : Move rules b b') (books : Accounted b) : Extends b b' := by
  have tidy := books.tidy
  -- An entry that waits is not one of the player queue.
  have apart : ∀ {entry other : Addr}, entry ∈ b.wait ∨ entry ∈ b.sem → other ∈ b.player →
      other ≠ entry := by
    rintro entry other waits inPlayer rfl
    refine tidy.not_player ?_ inPlayer
    grind
  cases move with
  | aside core info allocated live frames log =>
    exact ⟨⟨[], by simp [log]⟩, by rw [log], frames, Nat.le_of_eq allocated.symm,
      fun _ mem => .inl mem, fun entry _ finished => by rw [info, log]; exact ⟨finished, rfl⟩⟩
  | mark entry mem pending =>
    refine ⟨⟨[], by simp [Core.note]⟩, ?_, rfl, Nat.le_refl _, fun _ hin => .inl hin,
      fun other _ finished => ?_⟩
    · simp [Core.note, runs_ended]
    · have ne : other ≠ entry := by
        rintro rfl
        exact pending finished
      simp [Core.note, ne, finished, fatesOf_ended, Ne.symm ne]
  | drop lane pre post entry fate split removed =>
    have waits := Board.waits_of_lane lane split
    have perm := Board.setLane_all lane split
    have kept : Extends b
        { b.setLane lane (pre ++ post) with
          toCore := (b.toCore.note (.ended entry fate)).release entry } := by
      refine ⟨⟨[], ?_, ?_⟩, ?_, rfl, Nat.le_refl _, fun other hin => .inl ?_,
        fun other inPlayer finished => ?_⟩
      · cases lane <;> simp [Board.setLane]
      · simp [Core.note, Core.release]
      · simp [Core.note, Core.release, runs_ended _ removed]
      · exact perm.mem_iff.mpr (mem_cons_of_mem entry hin)
      · have ne := apart waits inPlayer
        simp [Core.note, Core.release, finished, fatesOf_ended, Ne.symm ne]
    cases lane <;> exact kept
  | give lane pre post entry sem split =>
    have waits := Board.waits_of_lane lane split
    have perm := Board.setLane_all lane split
    have grown := giveQue_extends rules
      { b.toReady with toCore := b.toCore.resem entry sem } entry
    have given := giveQue_books rules
      { b.toReady with toCore := b.toCore.resem entry sem } entry
    have kept : Extends b
        { b.setLane lane (pre ++ post) with
          toReady := Ready.giveQue rules { b.toReady with toCore := b.toCore.resem entry sem }
            entry } := by
      refine ⟨grown.1, grown.2.1, grown.2.2, Nat.le_of_eq (given entry).2.2.1.symm,
        fun other hin => .inl ?_, fun other inPlayer finished => ?_⟩
      · have joined := giveQue_all rules
          { b.setLane lane (pre ++ post) with
            toReady := { b.toReady with toCore := b.toCore.resem entry sem } } entry
        refine perm.mem_iff.mpr ?_
        cases lane <;> exact joined.mem_iff.mp hin
      · have ne := apart waits inPlayer
        refine ⟨(given other).1.trans ?_, (given other).2.2.2.1⟩
        simp [ne, finished]
    cases lane <;> exact kept
  | accept player cause comm now wait sem attr =>
    have fresh : ∀ other ∈ b.player, other ≠ b.allocated := by
      rintro other inPlayer rfl
      exact tidy.fresh (by simp [Board.all, inPlayer])
    have new := enqueue_books rules
      { b with toCore := b.toCore.alloc (Board.entryOf player cause comm) } b.allocated
    have grown := enqueue_extends rules
      { b with toCore := b.toCore.alloc (Board.entryOf player cause comm) } b.allocated now wait
      sem attr
    obtain ⟨⟨more, players, put⟩, ran, frames⟩ := grown
    refine ⟨⟨more, players, put.trans ?_⟩, ran.trans ?_, frames, ?_, fun other hin => ?_,
      fun other inPlayer finished => ⟨(new other now wait sem attr).1.trans ?_,
        (new other now wait sem attr).2.2.2.1.trans ?_⟩⟩
    · simp [Core.alloc]
    · simp [Core.alloc]
    · rw [(new b.allocated now wait sem attr).2.2.1]
      exact Nat.le_succ b.allocated
    · rcases mem_cons.mp ((enqueue_all _ b.allocated now wait sem attr).mem_iff.mp hin)
        with rfl | old
      · exact .inr (Nat.le_refl _)
      · exact .inl old
    · simp [Core.alloc, fresh other inPlayer, finished]
    · simp [Core.alloc]
  | splice =>
    refine ⟨⟨b.object, rfl, ?_⟩, ?_, ?_, ?_, fun other hin => .inl ?_, fun other _ finished => ?_⟩
    · simp [Board.spliceObject, puts_eq]
    · simp [Board.spliceObject, puts_eq]
    · simp [Board.spliceObject, puts_eq]
    · simp [Board.spliceObject, puts_eq]
    · simpa [Board.all, Board.spliceObject] using hin
    · simp [Board.spliceObject, puts_eq, finished]
  | warp i =>
    have eq := b.warpTimes_eq i
    refine ⟨⟨[], (append_nil _).symm, ?_⟩, ?_, ?_, ?_, fun _ hin => .inl hin,
      fun other _ finished => ⟨(warpTimes_player b i other).trans finished, ?_⟩⟩
    · rw [eq, append_nil]
    · rw [eq]
    · rw [eq]
    · rw [eq]
    · rw [eq]

theorem Moves.books (moves : Moves rules b b') (books : Accounted b) :
    Accounted b' ∧ Extends b b' := by
  induction moves with
  | refl => exact ⟨books, Extends.refl b⟩
  | tail _ last ih =>
    obtain ⟨kept, grown⟩ := ih
    exact ⟨last.accounted kept, grown.trans (last.extends kept)⟩

def running (frames : List Frame) : Bool := frames.any Frame.running

/-- Calls of `do_top` are open one inside the other, and none but the outermost takes
entries. -/
def Nested : List Frame → Prop
  | [] => True
  | [_] => True
  | [inner, outer] => inner.left = 0 ∧ inner.running = false ∧ outer.running = true
  | _ => False

/-- The player queue and its history: the entry that runs is the first one, what has left
the queue has left it in order, and only what left or runs has run. -/
structure InTurn (b : Board) : Prop where
  nested : Nested b.frames
  head : running b.frames = true → ∃ head rest, b.player = head :: rest ∧
    (b.info head).player = none ∧ fatesOf b.log head = [.ran]
  order : ∃ gone, puts b.log = gone ++ b.player ∧ gone.Nodup ∧
    (∀ entry ∈ gone, entry < b.allocated ∧ entry ∉ b.all) ∧
    (runs b.log).Sublist (gone ++ if running b.frames then b.player.take 1 else [])

theorem Extends.inTurn (grown : Extends b b') (turn : InTurn b) : InTurn b' := by
  obtain ⟨more, player, put⟩ := grown.more
  obtain ⟨gone, history, nodup, outside, ran⟩ := turn.order
  refine ⟨grown.frames ▸ turn.nested, fun isRunning => ?_, gone, ?_, nodup,
    fun entry mem => ?_, ?_⟩
  · rw [grown.frames] at isRunning
    obtain ⟨head, rest, split, finished, fates⟩ := turn.head isRunning
    obtain ⟨finished', fates'⟩ := grown.finished head (by simp [split]) finished
    exact ⟨head, rest ++ more, by simp [player, split], finished', fates'.trans fates⟩
  · rw [put, history, player, append_assoc]
  · obtain ⟨below, off⟩ := outside entry mem
    refine ⟨Nat.lt_of_lt_of_le below grown.allocated, fun hin => ?_⟩
    rcases grown.all entry hin with old | above
    · exact off old
    · exact absurd below (Nat.not_lt.mpr above)
  · rw [grown.runs, grown.frames, player]
    refine ran.trans ((List.Sublist.refl gone).append ?_)
    split
    next isRunning =>
      obtain ⟨head, rest, players, _⟩ := turn.head isRunning
      simp [players]
    next => exact List.Sublist.refl []

theorem pop_books (books : Accounted b) (turn : InTurn b) {head : Addr} {rest : List Addr}
    (players : b.player = head :: rest) (core : Core)
    (player : ∀ other, other ≠ head → (core.info other).player = (b.info other).player)
    (live : core.live = b.live) (allocated : core.allocated = b.allocated)
    (fates : ∀ other, other ≠ head → fatesOf core.log other = fatesOf b.log other)
    (once : ∃ fate, fatesOf core.log head = [fate]) (accepted : accepts core.log = accepts b.log)
    (put : puts core.log = puts b.log) (ran : runs core.log = runs b.log) (frame : Frame) :
    ∃ b', Board.topPop { b with toCore := core } frame [] = some b' ∧
      Accounted b' ∧ InTurn b' := by
  have hin : head ∈ b.all := by simp [Board.all, players]
  have perm : b.all = head :: (rest ++ b.object ++ b.wait ++ b.sem) := by
    simp [Board.all, players]
  have below : head < b.allocated :=
    books.tidy.below head ((books.tidy.live head).mpr (by simpa using hin))
  have distinct : head ∉ rest ++ b.object ++ b.wait ++ b.sem := by
    have nodup := books.tidy.nodup
    rw [append_nil, perm] at nodup
    exact (nodup_cons.mp nodup).1
  refine ⟨_, Board.topPop_eq (b := { b with toCore := core }) players frame [], ?_, ?_⟩
  · refine books.gone (Perm.of_eq perm) ?_ allocated (fun _ mem => mem) player fates
      once accepted
    simp only [Core.release, live]
  · obtain ⟨gone, history, nodup, outside, order⟩ := turn.order
    have headGone : head ∉ gone := fun mem => (outside head mem).2 hin
    refine ⟨trivial, fun isRunning => ?_, gone ++ [head], ?_, ?_, fun entry mem => ?_, ?_⟩
    · simp [running] at isRunning
    · show puts core.log = _
      rw [put, history, players, append_assoc, singleton_append]
    · exact nodup_append.mpr ⟨nodup, nodup_singleton head, by grind⟩
    · show entry < core.allocated ∧ _
      rw [allocated]
      rcases mem_append.mp mem with old | new
      · obtain ⟨bound, off⟩ := outside entry old
        refine ⟨bound, fun left => off ?_⟩
        rw [perm]
        exact mem_cons_of_mem head left
      · rw [mem_singleton.mp new]
        exact ⟨below, distinct⟩
    · show (runs core.log).Sublist _
      simp only [running, any_cons, any_nil, Bool.or_false, Bool.false_eq_true,
        if_false, append_nil, ran]
      refine order.trans ((List.Sublist.refl gone).append ?_)
      split
      · simp [players]
      · exact nil_sublist _

variable {frame : Frame}

theorem start_books (books : Accounted b) (turn : InTurn b) {head : Addr} {rest : List Addr}
    (players : b.player = head :: rest) (pending : (b.info head).player ≠ none)
    {core : Core} (taken : (core.info head).player = none)
    (player : ∀ other, other ≠ head → (core.info other).player = (b.info other).player)
    (live : core.live = b.live) (allocated : core.allocated = b.allocated)
    (idle : running b.frames = false) (frames : core.frames = [frame])
    (started : frame.running = true) (log : core.log = b.log ++ [.ended head .ran]) :
    Accounted { b with toCore := core } ∧ InTurn { b with toCore := core } := by
  have hin : head ∈ b.all := by simp [Board.all, players]
  have inPlayer : head ∈ b.player := by simp [players]
  have open' := books.pending head hin pending
  have mine : fatesOf core.log head = [.ran] := by
    rw [log, fatesOf_append, open', fatesOf_ended, if_pos rfl, nil_append]
  constructor
  · refine books.finished rfl live allocated hin ⟨fun waits => ?_, fun waits => ?_⟩ ⟨rfl, rfl⟩
      player taken (fun other ne => ?_) ⟨.ran, mine⟩ (by simp [log])
    · exact books.tidy.not_player (Or.inr (Or.inl waits)) inPlayer
    · exact books.tidy.not_player (Or.inr (Or.inr (Or.inl waits))) inPlayer
    · simp [log, fatesOf_ended, Ne.symm ne]
  · obtain ⟨gone, history, nodup, outside, order⟩ := turn.order
    rw [idle] at order
    refine ⟨?_, fun _ => ⟨head, rest, players, taken, mine⟩, gone, ?_, nodup,
      fun entry mem => ?_, ?_⟩
    · show Nested core.frames
      rw [frames]
      trivial
    · simp [log, history]
    · show entry < core.allocated ∧ _
      rw [allocated]
      exact outside entry mem
    · have on : running core.frames = true := by simp [running, frames, started]
      show (runs core.log).Sublist (gone ++ if running core.frames then b.player.take 1 else [])
      rw [if_pos on, log, runs_append, players]
      simpa using order

theorem topReturn_books (books : Accounted b) (turn : InTurn b)
    {outer : List Frame} (nested : Nested outer) (eq : running outer = running b.frames) :
    Accounted (b.topReturn frame outer) ∧ InTurn (b.topReturn frame outer) := by
  obtain ⟨gone, history, nodup, outside, order⟩ := turn.order
  refine ⟨books.of_perm (List.Perm.refl _) rfl rfl (fun _ mem => mem) (fun _ => rfl)
    (fun _ => rfl) rfl, nested, fun isRunning => turn.head (eq ▸ isRunning), gone, history, nodup,
    outside, ?_⟩
  show (runs b.log).Sublist (gone ++ if running outer then b.player.take 1 else [])
  rw [eq]
  exact order

theorem topNext_books (books : Accounted b) (turn : InTurn b)
    (frames : b.frames = [frame]) (between : frame.running = false) :
    ∃ b', b.topNext rules frame [] = some b' ∧ Accounted b' ∧ InTurn b' := by
  have idle : running b.frames = false := by simp [running, frames, between]
  have returns : Accounted (b.topReturn frame []) ∧ InTurn (b.topReturn frame []) :=
    topReturn_books books turn trivial (by rw [idle]; rfl)
  unfold Board.topNext
  cases players : b.player with
  | nil => exact ⟨_, rfl, returns⟩
  | cons head rest =>
    have hin : head ∈ b.all := by simp [Board.all, players]
    have below : head < b.allocated :=
      books.tidy.below head ((books.tidy.live head).mpr (by simpa using hin))
    dsimp only
    by_cases ended : frame.left = 0
    · rw [if_pos ended]
      exact ⟨_, rfl, returns⟩
    · rw [if_neg ended]
      cases owner : (b.info head).player with
      | none =>
        exact pop_books books turn players b.toCore (fun _ _ => rfl) rfl rfl (fun _ _ => rfl)
          (books.ended head below fun _ => owner) rfl rfl rfl frame
      | some player =>
        have open' : fatesOf b.log head = [] := books.pending head hin (by simp [owner])
        have log : (b.toCore.take rules head player).log = b.log := by
          simp only [Core.take, Core.aQueue]
          rw [sQueue_eq, giveto_eq]
        have taken : (b.toCore.take rules head player).info =
            update b.info head { b.info head with player := none } := by
          simp only [Core.take, Core.aQueue]
          rw [sQueue_eq, giveto_eq]
        have live : (b.toCore.take rules head player).live = b.live ∧
            (b.toCore.take rules head player).allocated = b.allocated := by
          simp only [Core.take, Core.aQueue]
          rw [sQueue_eq, giveto_eq]
          exact ⟨rfl, rfl⟩
        dsimp only
        rw [← players]
        split
        · refine pop_books books turn players (b.toCore.note (.ended head .discarded))
            (fun _ _ => rfl) rfl rfl (fun other ne => ?_) ⟨.discarded, ?_⟩ ?_ ?_ ?_ frame
          · simp [Core.note, fatesOf_ended, Ne.symm ne]
          · simp [Core.note, fatesOf_ended, open']
          · simp [Core.note]
          · simp [Core.note]
          · simp [Core.note, runs_ended]
        · split
          · refine pop_books books turn players
              ((b.toCore.take rules head player).note (.ended head .discarded))
              (fun other ne => ?_) live.1 live.2 (fun other ne => ?_) ⟨.discarded, ?_⟩ ?_ ?_ ?_ frame
            · simp [Core.note, taken, ne]
            · simp [Core.note, log, fatesOf_ended, Ne.symm ne]
            · simp [Core.note, log, fatesOf_ended, open']
            · simp [Core.note, log]
            · simp [Core.note, log]
            · simp [Core.note, log, runs_ended]
          · refine ⟨_, rfl, start_books books turn players (by simp [owner]) ?_
              (fun other ne => ?_) live.1 live.2 idle rfl rfl ?_⟩
            · simp [Core.note, taken]
            · simp [Core.note, taken, ne]
            · simp [Core.note, log]

/-- A command that runs does not make `do_top` run further entries. -/
def Core.oneAtATime (c : Core) : Op → Prop
  | .top ncmds => c.frames = [] ∨ ncmds ≤ 0
  | .kick i => c.frames = [] ∨ i ≤ 0
  | _ => True

instance (c : Core) (op : Op) : Decidable (c.oneAtATime op) := by
  cases op <;> unfold Core.oneAtATime <;> infer_instance

theorem doTop_books (books : Accounted b) (turn : InTurn b) {core : Core}
    (between : frame.running = false)
    (few : b.frames = [] ∨ frame.left = 0 ∧ ∃ outer, b.frames = [outer] ∧ outer.running = true)
    (info : core.info = b.info) (live : core.live = b.live)
    (allocated : core.allocated = b.allocated) (log : core.log = b.log)
    (frames : core.frames = frame :: b.frames) :
    Accounted { b with toCore := core } ∧ InTurn { b with toCore := core } := by
  have eq : running core.frames = running b.frames := by simp [running, frames, between]
  obtain ⟨gone, history, nodup, outside, order⟩ := turn.order
  refine ⟨books.of_perm (List.Perm.refl _) live allocated (fun _ mem => mem)
    (fun other => by rw [info]) (fun other => by rw [log]) (by rw [log]), ?_, fun isRunning => ?_,
    gone, by simpa only [log] using history, nodup, fun entry mem => ?_, ?_⟩
  · show Nested core.frames
    rw [frames]
    rcases few with none' | ⟨left, outer, one, isRunning⟩
    · rw [none']
      trivial
    · rw [one]
      exact ⟨left, between, isRunning⟩
  · obtain ⟨head, rest, players, finished, fates⟩ := turn.head (eq ▸ isRunning)
    exact ⟨head, rest, players, by simpa only [info] using finished, by simpa only [log] using fates⟩
  · show entry < core.allocated ∧ _
    rw [allocated]
    exact outside entry mem
  · show (runs core.log).Sublist (gone ++ if running core.frames then b.player.take 1 else [])
    rw [log, eq]
    exact order

theorem call_books (books : Accounted b) (turn : InTurn b) {op : Op}
    (guard : b.toCore.oneAtATime op)
    (open' : b.frames = [] ∨ ∃ outer, b.frames = [outer] ∧ outer.running = true) :
    Accounted (b.call rules op) ∧ InTurn (b.call rules op) := by
  have few : ∀ n : Int, b.frames = [] ∨ n ≤ 0 →
      b.frames = [] ∨ n.toNat = 0 ∧ ∃ outer, b.frames = [outer] ∧ outer.running = true := by
    intro n allowed
    rcases allowed with none' | small
    · exact .inl none'
    · exact open'.imp id fun one => ⟨Int.toNat_of_nonpos small, one⟩
  cases calls : op.callsTop with
  | false =>
    obtain ⟨kept, grown⟩ := (call_moves rules b calls).books books
    exact ⟨kept, grown.inTurn turn⟩
  | true =>
    cases op <;> simp only [Op.callsTop, reduceCtorEq] at calls
    case top ncmds =>
      simp only [Board.call]
      split
      · exact doTop_books books turn rfl (few ncmds guard) rfl rfl rfl rfl rfl
      · exact ⟨books, turn⟩
    case kick i => exact doTop_books books turn rfl (few i guard) rfl rfl rfl rfl rfl

theorem step_books (books : Accounted b) (turn : InTurn b) {op : Op}
    (guard : b.toCore.oneAtATime op) :
    ∃ b', b.step rules op = some b' ∧ Accounted b' ∧ InTurn b' := by
  unfold Board.step
  have nested := turn.nested
  cases frames : b.frames with
  | nil => exact ⟨_, rfl, call_books books turn guard (.inl frames)⟩
  | cons frame outer =>
    rw [frames] at nested
    dsimp only
    cases isRunning : frame.running with
    | true =>
      -- A running call has no other call around it.
      have alone : outer = [] := by
        cases outer with
        | nil => rfl
        | cons snd rest =>
          cases rest with
          | nil => simp [Nested, isRunning] at nested
          | cons _ _ => exact nested.elim
      subst alone
      obtain ⟨head, rest, players, finished, fates⟩ :=
        turn.head (by simp [running, frames, isRunning])
      rw [if_pos rfl]
      split
      · exact pop_books books turn players b.toCore (fun _ _ => rfl) rfl rfl
          (fun _ _ => rfl) ⟨.ran, fates⟩ rfl rfl rfl frame
      · exact ⟨_, rfl, call_books books turn guard (.inr ⟨frame, frames, isRunning⟩)⟩
    | false =>
      rw [if_neg Bool.false_ne_true]
      split
      · cases outer with
        | nil => exact topNext_books books turn frames isRunning
        | cons snd rest =>
          cases rest with
          | cons _ _ => exact nested.elim
          | nil =>
            obtain ⟨left, _, on⟩ := nested
            have eq : running [snd] = running b.frames := by
              simp [running, frames, isRunning]
            obtain ⟨head, rest, players, _⟩ := turn.head (by
              rw [← eq]
              simp [running, on])
            refine ⟨b.topReturn frame [snd], ?_,
              topReturn_books books turn trivial eq⟩
            simp only [Board.topNext, players, if_pos left]
      · exact ⟨b, rfl, books, turn⟩

end Books

theorem init_books (pennies : Dbref → Int) :
    Accounted (Board.init pennies) ∧ InTurn (Board.init pennies) := by
  have tidy := (init_represents pennies).tidy
  refine ⟨⟨tidy, rfl, fun _ _ => rfl, ?_, ?_, ?_⟩, trivial, ?_, [], ?_⟩
  · simp [Board.init]
  · simp [Board.init, Board.all]
  · exact fun entry below => absurd below (Nat.not_lt_zero entry)
  · simp [Board.init, Server.init, running]
  · simp [Board.init, Server.init, puts, runs, running]

/-- What the queue promises: its lists and tail pointers are sound and hold the blocks
that are not freed, each once; every accepted entry is waiting for its turn or has ended
once; the entry that runs is the first of the player queue and not freed; and the runs are
in the order in which the entries were put on the player queue. -/
structure RunsInTurn (s : Server) : Prop where
  queues : Represents s s.board []
  accepted : accepts s.log = List.range s.allocated
  once : ∀ entry < s.allocated,
    (entry ∈ s.board.all ∧ (s.info entry).player ≠ none ∧ fatesOf s.log entry = []) ∨
      (entry ∈ s.board.all → (s.info entry).player = none) ∧
        ∃ fate, fatesOf s.log entry = [fate]
  running : running s.frames = true → ∃ head, s.q.first = some head ∧ s.live head = true ∧
    fatesOf s.log head = [.ran]
  order : (runs s.log).Sublist (puts s.log) ∧ (puts s.log).Nodup

theorem runsInTurn_of_books {s : Server} {b : Board} (rep : Represents s b [])
    (books : Accounted b) (turn : InTurn b) : RunsInTurn s := by
  have eq := rep.board_eq
  subst eq
  refine ⟨rep, books.accepted, fun entry below => ?_, fun isRunning => ?_, ?_, ?_⟩
  · by_cases pending : entry ∈ s.board.all ∧ (s.info entry).player ≠ none
    · exact .inl ⟨pending.1, pending.2, books.pending entry pending.1 pending.2⟩
    · have finished : entry ∈ s.board.all → (s.info entry).player = none := fun mem =>
        Classical.not_not.mp fun has => pending ⟨mem, has⟩
      exact .inr ⟨finished, books.ended entry below finished⟩
  · obtain ⟨head, rest, players, _, fates⟩ := turn.head isRunning
    refine ⟨head, ?_, ?_, fates⟩
    · rw [rep.player.chain.head_eq, players]
      rfl
    · exact (rep.tidy.live head).mpr (by simp [Board.all, players])
  · obtain ⟨gone, history, _, _, order⟩ := turn.order
    show (runs s.board.log).Sublist (puts s.board.log)
    rw [history]
    refine order.trans ((List.Sublist.refl gone).append ?_)
    split
    · exact take_sublist 1 _
    · exact nil_sublist _
  · obtain ⟨gone, history, nodup, outside, _⟩ := turn.order
    show (puts s.board.log).Nodup
    rw [history]
    refine nodup_append.mpr ⟨nodup, ?_, fun entry inGone other inPlayer => ?_⟩
    · exact books.tidy.nodup.sublist Represents.player_sublist
    · rintro rfl
      exact (outside entry inGone).2 (by simp [Board.all, inPlayer])

/-- A run in which no running command makes `do_top` run further entries does not get
stuck, and keeps the promise of the queue. -/
theorem queue_in_turn (rules : Rules) (pennies : Dbref → Int) (ops : List Op)
    (guarded : Machine.Guarded (Server.step rules) (fun s op => s.toCore.oneAtATime op)
      (Server.init pennies) ops) :
    ∃ s, Machine.run (Server.step rules) (Server.init pennies) ops = some s ∧
      RunsInTurn s := by
  have preserved : ∀ (s : Server) (op : Op),
      (∃ b, Represents s b [] ∧ Accounted b ∧ InTurn b) → s.toCore.oneAtATime op →
        ∃ s', s.step rules op = some s' ∧ ∃ b, Represents s' b [] ∧ Accounted b ∧ InTurn b := by
    rintro s op ⟨b, rep, books, turn⟩ guard
    rw [rep.core] at guard
    obtain ⟨b', stepped, books', turn'⟩ := step_books books turn guard
    have both := step_simulates rules rep op
    rw [stepped] at both
    cases moved : s.step rules op with
    | none => simp [moved, Simulates] at both
    | some s' =>
      rw [moved] at both
      exact ⟨s', rfl, b', both, books', turn'⟩
  obtain ⟨books, turn⟩ := init_books pennies
  obtain ⟨s, ran, b, rep, books', turn'⟩ := Machine.guarded_invariant preserved
    ⟨Board.init pennies, init_represents pennies, books, turn⟩ guarded
  exact ⟨s, ran, runsInTurn_of_books rep books' turn'⟩

/-- Two players, GOD and another, who pay for their commands. -/
def smallGame : Rules where
  god := 1
  owner := fun obj => if obj = 1 then 1 else 2
  isPlayer := fun obj => obj = 1 ∨ obj = 2
  isFree := fun _ => false
  qmax := fun _ => 100
  queuemax := 100
  dbTop := 5
  waitcost := 10
  machinecost := 0

/-- Two commands are queued and run; the first halts the other player's commands. -/
theorem queue_in_turn_smallGame :
    ∃ s, Machine.run (Server.step smallGame) (Server.init fun _ => 100)
        [.wait 2 2 0 0 "@halt" 0, .wait 2 2 0 0 "say hello" 0, .top 2, .next,
          .halt (some 2) none, .done, .next] = some s ∧ RunsInTurn s :=
  queue_in_turn smallGame (fun _ => 100) _ (by decide)

/-- The first of two commands is @queue/kick 1: the inner `do_top` frees the entry that
runs, and the outer one then drops the second entry, which has not run. -/
theorem kick_loses_entry :
    ¬ ∀ (rules : Rules) (pennies : Dbref → Int) (ops : List Op),
        ∃ s, Machine.run (Server.step rules) (Server.init pennies) ops = some s ∧
          RunsInTurn s := by
  intro claimed
  obtain ⟨s, ran, turn⟩ := claimed smallGame (fun _ => 100)
    [.wait 2 2 0 0 "@queue/kick 1" 0, .wait 2 2 0 0 "say hello" 0, .top 2, .next, .kick 1, .next,
      .next, .done]
  have shown := congrArg (Option.map fun s => (s.allocated, s.board.all, fatesOf s.log 1)) ran
  have ends : (Machine.run (Server.step smallGame) (Server.init fun _ => 100)
      [.wait 2 2 0 0 "@queue/kick 1" 0, .wait 2 2 0 0 "say hello" 0, .top 2, .next, .kick 1,
        .next, .next, .done]).map (fun s => (s.allocated, s.board.all, fatesOf s.log 1)) =
      some (2, [], []) := by decide
  simp only [ends, Option.map_some, Option.some.injEq, Prod.mk.injEq] at shown
  obtain ⟨two, gone, never⟩ := shown
  rcases turn.once 1 (by omega) with ⟨inside, _⟩ | ⟨_, fate, once⟩
  · simp [← gone] at inside
  · simp [← never] at once

end BattletechMux.Queue
