/-
Module: BattletechMux.Foundation.Fifo
Purpose: Singly linked queues that keep a pointer to their last cell, several of them sharing one
  memory of link fields, and the loops that go through such a list: over every cell, up to the first
  cell that is wanted, and unlinking cells on the way with the cell before them at hand.
-/
import BattletechMux.Foundation.Chain

namespace LinkedMemory

open List

open Function (update update_self update_of_ne)

variable {Cell : Type*}

/-- The pointers of a queue: to its first and to its last cell. -/
structure Fifo (Cell : Type*) where
  first : Option Cell
  last : Option Cell

/-- The queue holds exactly `cells`, in order. -/
structure Fifo.Holds (next : Cell → Option Cell) (queue : Fifo Cell) (cells : List Cell) :
    Prop where
  chain : Chain next queue.first cells
  last : queue.last = cells.getLast?

def Fifo.empty : Fifo Cell := ⟨none, none⟩

theorem Fifo.empty_holds (next : Cell → Option Cell) : Fifo.empty.Holds next [] := ⟨rfl, rfl⟩

variable {queue : Fifo Cell}

theorem Fifo.Holds.congr {next next' : Cell → Option Cell}
    {cells : List Cell} (holds : queue.Holds next cells)
    (agree : ∀ cell ∈ cells, next' cell = next cell) : queue.Holds next' cells :=
  ⟨holds.chain.congr agree, holds.last⟩

theorem Fifo.Holds.first_eq_none_iff {next : Cell → Option Cell}
    {cells : List Cell} (holds : queue.Holds next cells) : queue.first = none ↔ cells = [] := by
  rw [holds.chain.head_eq, head?_eq_none_iff]

def Fifo.pop (next : Cell → Option Cell) (queue : Fifo Cell) (head : Cell) : Fifo Cell :=
  match next head with
  | some second => { queue with first := some second }
  | none => Fifo.empty

theorem Fifo.Holds.pop {next : Cell → Option Cell} {head : Cell}
    {rest : List Cell} (holds : queue.Holds next (head :: rest)) :
    (queue.pop next head).Holds next rest := by
  have tail : Chain next (next head) rest := holds.chain.2
  unfold Fifo.pop
  cases rest with
  | nil =>
    have ended : next head = none := tail
    simpa [ended] using Fifo.empty_holds next
  | cons snd rest =>
    have link : next head = some snd := tail.1
    rw [link] at tail
    simp only [link]
    refine ⟨tail, ?_⟩
    rw [holds.last]
    exact getLast?_cons_cons

section Update

variable [DecidableEq Cell]

/-- The cell before `point`, or the head, is made to point past it. -/
def cut (next : Cell → Option Cell) (head trail : Option Cell) (point : Cell) :
    (Cell → Option Cell) × Option Cell :=
  match trail with
  | some trail => (update next trail (next point), head)
  | none => (next, next point)

/-- `cell` is linked in before `point`, after `trail` or at the head. -/
def place (next : Cell → Option Cell) (head trail point : Option Cell) (cell : Cell) :
    (Cell → Option Cell) × Option Cell :=
  let next := update next cell point
  match trail with
  | some trail => (update next trail (some cell), head)
  | none => (next, some cell)

/-- A cell whose link is null is linked in after the last one. -/
def Fifo.append (next : Cell → Option Cell) (queue : Fifo Cell) (cell : Cell) :
    (Cell → Option Cell) × Fifo Cell :=
  match queue.last with
  | some last => (update next last (some cell), { queue with last := some cell })
  | none => (next, ⟨some cell, some cell⟩)

/-- The cells of `other` go after those of `queue`. -/
def Fifo.splice (next : Cell → Option Cell) (queue other : Fifo Cell) :
    (Cell → Option Cell) × Fifo Cell :=
  match other.first with
  | none => (next, queue)
  | some first =>
    match queue.last with
    | some last => (update next last (some first), { queue with last := other.last })
    | none => (next, other)

/-- `cut`, with the pointer to the last cell kept up to date. -/
def Fifo.cut (next : Cell → Option Cell) (queue : Fifo Cell) (trail : Option Cell)
    (point : Cell) : (Cell → Option Cell) × Fifo Cell :=
  let (next, first) := LinkedMemory.cut next queue.first trail point
  (next, ⟨first, if queue.last = some point then trail else queue.last⟩)

namespace Chain

variable {next : Cell → Option Cell} {head : Option Cell}

theorem extend {front rest : List Cell} {last : Cell} {start : Option Cell}
    (chain : Chain next head (front ++ [last])) (tail : Chain next start rest)
    (apart : ∀ cell ∈ rest, cell ∉ front ++ [last]) :
    Chain (update next last start) head (front ++ last :: rest) := by
  induction front generalizing head with
  | nil =>
    have fresh : last ∉ rest := fun mem => apart last mem (by simp)
    refine ⟨chain.1, ?_⟩
    simpa using tail.update_of_notMem fresh
  | cons cell front ih =>
    have ne : cell ≠ last := by
      intro eq
      have nodup := chain.nodup
      simp [eq] at nodup
    refine ⟨chain.1, ?_⟩
    rw [update_of_ne ne]
    refine ih chain.2 fun other mem => ?_
    have outside := apart other mem
    rw [cons_append, mem_cons, not_or] at outside
    exact outside.2

theorem snoc {front : List Cell} {last cell : Cell} (chain : Chain next head (front ++ [last]))
    (fresh : cell ∉ front ++ [last]) :
    Chain (update (update next last (some cell)) cell none) head (front ++ [last] ++ [cell]) := by
  have ne : last ≠ cell := by
    rintro rfl
    exact fresh (mem_append_right _ (mem_singleton_self last))
  rw [Function.update_comm ne, append_assoc]
  refine (chain.update_of_notMem fresh).extend ⟨rfl, update_self ..⟩ fun other mem => ?_
  rwa [mem_singleton.mp mem]

theorem closeAt {front rest : List Cell} {last : Cell}
    (chain : Chain next head (front ++ last :: rest)) :
    Chain (update next last none) head (front ++ [last]) := by
  induction front generalizing head with
  | nil => exact ⟨chain.1, by simp⟩
  | cons cell front ih =>
    have ne : cell ≠ last := by
      intro eq
      have nodup := chain.nodup
      simp [eq] at nodup
    refine ⟨chain.1, ?_⟩
    rw [update_of_ne ne]
    exact ih chain.2

theorem cut {pre post : List Cell} {point : Cell}
    (chain : Chain next head (pre ++ point :: post)) :
    Chain (LinkedMemory.cut next head pre.getLast? point).1
      (LinkedMemory.cut next head pre.getLast? point).2 (pre ++ post) := by
  rcases eq_nil_or_concat pre with rfl | ⟨front, trail, rfl⟩
  · exact chain.2
  · have whole : Chain next head (front ++ trail :: point :: post) := by simpa using chain
    simpa [LinkedMemory.cut] using whole.skip

theorem place {pre post : List Cell} {cell : Cell}
    (chain : Chain next head (pre ++ post)) (fresh : cell ∉ pre ++ post) :
    Chain (LinkedMemory.place next head pre.getLast? post.head? cell).1
      (LinkedMemory.place next head pre.getLast? post.head? cell).2
      (pre ++ cell :: post) := by
  rcases eq_nil_or_concat pre with rfl | ⟨front, trail, rfl⟩
  · have link : head = post.head? := chain.head_eq
    simpa [LinkedMemory.place, ← link] using chain.push fresh
  · have whole : Chain next head (front ++ trail :: post) := by simpa using chain
    have ne : cell ≠ trail := by
      intro eq
      simp [eq] at fresh
    have nodup := whole.nodup
    have tail : Chain next post.head? post := by
      have link := whole.next_eq_head
      rwa [link.head_eq] at link
    have linked : Chain (update next cell post.head?) (some cell) (cell :: post) :=
      tail.push fun mem => fresh (by simp [mem])
    have front' := whole.closeAt
    have apart : ∀ other ∈ cell :: post, other ∉ front ++ [trail] := by
      intro other mem inFront
      rcases mem_cons.mp mem with rfl | inAfter
      · exact fresh (by simpa using mem_append_left post inFront)
      · rw [append_cons, nodup_append] at nodup
        exact nodup.2.2 other inFront other inAfter rfl
    have memory : update (update (update next cell post.head?) trail none) trail (some cell) =
        (LinkedMemory.place next head (front.concat trail).getLast? post.head? cell).1 := by
      simp [LinkedMemory.place]
    have target : (LinkedMemory.place next head (front.concat trail).getLast? post.head?
        cell).2 = head := by
      simp [LinkedMemory.place]
    rw [← memory, target, concat_eq_append, append_assoc, singleton_append]
    refine extend ?_ ?_ apart
    · refine front'.congr fun other mem => ?_
      by_cases last : other = trail
      · simp [last]
      · have old : other ≠ cell := by
          rintro rfl
          exact apart other (by simp) mem
        simp [last, old]
    · refine linked.update_of_notMem fun mem => ?_
      exact apart trail mem (by simp)

end Chain

theorem cut_of_notMem {next : Cell → Option Cell} {head : Option Cell} {pre : List Cell}
    {point other : Cell} (fresh : other ∉ pre) :
    (cut next head pre.getLast? point).1 other = next other := by
  rcases eq_nil_or_concat pre with rfl | ⟨front, trail, rfl⟩
  · rfl
  · have ne : other ≠ trail := by
      intro eq
      simp [eq] at fresh
    simp [cut, ne]

theorem place_of_notMem {next : Cell → Option Cell} {head point : Option Cell}
    {pre : List Cell} {cell other : Cell} (fresh : other ∉ pre) (ne : other ≠ cell) :
    (place next head pre.getLast? point cell).1 other = next other := by
  rcases eq_nil_or_concat pre with rfl | ⟨front, trail, rfl⟩
  · simp [place, ne]
  · have notTrail : other ≠ trail := by
      intro eq
      simp [eq] at fresh
    simp [place, notTrail, ne]

namespace Fifo

variable {next : Cell → Option Cell} {queue other : Fifo Cell} {cells others : List Cell}

section

variable (holds : queue.Holds next cells)
include holds

theorem append_of_notMem {cell outside : Cell} (fresh : outside ∉ cells) :
    (queue.append next cell).1 outside = next outside := by
  rcases eq_nil_or_concat cells with rfl | ⟨front, last, rfl⟩
  · simp [append, holds.last]
  · have ne : outside ≠ last := by
      intro eq
      simp [eq] at fresh
    simp [append, holds.last, ne]

theorem Holds.append {cell : Cell} (fresh : cell ∉ cells) (ended : next cell = none) :
    (queue.append next cell).2.Holds (queue.append next cell).1 (cells ++ [cell]) := by
  rcases eq_nil_or_concat cells with rfl | ⟨front, last, rfl⟩
  · have memory : queue.append next cell = (next, ⟨some cell, some cell⟩) := by
      simp [Fifo.append, holds.last]
    rw [memory]
    exact ⟨⟨rfl, ended⟩, rfl⟩
  · have memory : queue.append next cell =
        (update next last (some cell), { queue with last := some cell }) := by
      simp [Fifo.append, holds.last]
    rw [memory]
    refine ⟨?_, by simp⟩
    have chain : Chain next queue.first (front ++ [last]) := by simpa using holds.chain
    have alone : Chain next (some cell) [cell] := ⟨rfl, ended⟩
    simpa using chain.extend alone (by simpa using fresh)

theorem splice_of_notMem {outside : Cell} (fresh : outside ∉ cells) :
    (queue.splice next other).1 outside = next outside := by
  unfold splice
  split
  · rfl
  · rcases eq_nil_or_concat cells with rfl | ⟨front, last, rfl⟩
    · simp [holds.last]
    · have ne : outside ≠ last := by
        intro eq
        simp [eq] at fresh
      simp [holds.last, ne]

theorem Holds.splice (holdsOther : other.Holds next others)
    (apart : ∀ cell ∈ others, cell ∉ cells) :
    (queue.splice next other).2.Holds (queue.splice next other).1 (cells ++ others) := by
  unfold Fifo.splice
  cases others with
  | nil =>
    have none' : other.first = none := holdsOther.chain
    simpa [none'] using holds
  | cons first rest =>
    have some' : other.first = some first := holdsOther.chain.1
    rcases eq_nil_or_concat cells with rfl | ⟨front, last, rfl⟩
    · have noLast : queue.last = none := holds.last
      simpa [some', noLast] using holdsOther
    · have hasLast : queue.last = some last := by simp [holds.last]
      simp only [some', hasLast]
      refine ⟨?_, ?_⟩
      · have chain : Chain next queue.first (front ++ [last]) := by simpa using holds.chain
        have tail := holdsOther.chain
        rw [some'] at tail
        simpa using chain.extend tail (by simpa using apart)
      · rw [getLast?_append_of_ne_nil _ (by simp)]
        exact holdsOther.last

end

theorem Holds.cut {pre post : List Cell} {point : Cell}
    (holds : queue.Holds next (pre ++ point :: post)) :
    (queue.cut next pre.getLast? point).2.Holds (queue.cut next pre.getLast? point).1
      (pre ++ post) := by
  refine ⟨holds.chain.cut, ?_⟩
  have nodup := holds.chain.nodup
  simp only [Fifo.cut, holds.last]
  cases post with
  | nil => simp
  | cons following rest =>
    have split : (pre ++ point :: following :: rest).getLast? =
        (following :: rest).getLast? := by
      rw [append_cons, getLast?_append_of_ne_nil _ (by simp)]
    have notLast : (following :: rest).getLast? ≠ some point := by
      intro eq
      have mem := mem_of_getLast? eq
      rw [nodup_append] at nodup
      exact (nodup_cons.mp nodup.2.1).1 mem
    rw [split, if_neg notLast, getLast?_append_of_ne_nil _ (by simp)]

end Fifo

theorem BackLinked.snoc {prev : Cell → Option Cell} {pre : Option Cell} {front : List Cell}
    {last cell : Cell} (back : BackLinked prev pre (front ++ [last]))
    (fresh : cell ∉ front ++ [last]) :
    BackLinked (update prev cell (some last)) pre (front ++ [last] ++ [cell]) := by
  induction front generalizing pre with
  | nil =>
    have ne : last ≠ cell := fun eq => fresh (mem_singleton.mpr eq.symm)
    exact ⟨(update_of_ne ne ..).trans back.1, update_self .., trivial⟩
  | cons first front ih =>
    have ne : first ≠ cell := fun eq => fresh (eq ▸ mem_cons_self)
    exact ⟨(update_of_ne ne ..).trans back.1,
      ih back.2 fun mem => fresh (mem_cons_of_mem first mem)⟩

theorem DoublyLinked.snoc {next prev : Cell → Option Cell} {start : Option Cell}
    {front : List Cell} {last cell : Cell} (linked : DoublyLinked next prev start (front ++ [last]))
    (fresh : cell ∉ front ++ [last]) :
    DoublyLinked (update (update next last (some cell)) cell none) (update prev cell (some last))
      start (front ++ [last] ++ [cell]) :=
  ⟨linked.chain.snoc fresh, linked.back.snoc fresh⟩

end Update

section Loops

variable {State : Type*}

/-- The loop over every cell of a list.  `none` when it runs past its limit. -/
def walk (next : Cell → Option Cell) (visit : State → Cell → State) :
    Nat → Option Cell → State → Option State
  | 0, _, _ => none
  | _ + 1, none, state => some state
  | limit + 1, some point, state => walk next visit limit (next point) (visit state point)

variable {cells : List Cell} {next : Cell → Option Cell}

theorem walk_eq (visit : State → Cell → State) {start : Option Cell} {limit : Nat}
    (chain : Chain next start cells)
    (hlt : cells.length < limit) (state : State) :
    walk next visit limit start state = some (cells.foldl visit state) := by
  induction cells generalizing start limit state with
  | nil =>
    obtain ⟨limit, rfl⟩ :=
      Nat.exists_eq_succ_of_ne_zero (Nat.ne_of_gt (Nat.zero_lt_of_lt hlt))
    rw [chain_nil.mp chain]
    rfl
  | cons cell rest ih =>
    obtain ⟨limit, rfl⟩ :=
      Nat.exists_eq_succ_of_ne_zero (Nat.ne_of_gt (Nat.zero_lt_of_lt hlt))
    rw [chain.1, walk]
    exact ih chain.2 (by simpa using hlt) (visit state cell)

/-- The loop to the first cell that is not `passed`: it and the cell before it. -/
def seek (next : Cell → Option Cell) (passed : Cell → Bool) :
    Nat → Option Cell → Option Cell → Option (Option Cell × Option Cell)
  | 0, _, _ => none
  | _ + 1, trail, none => some (trail, none)
  | limit + 1, trail, some point =>
    if passed point then seek next passed limit (some point) (next point)
    else some (trail, some point)

theorem seek_eq {passed : Cell → Bool}
    {start trail : Option Cell} {limit : Nat} (chain : Chain next start cells)
    (hlt : cells.length < limit) :
    seek next passed limit trail start =
      some ((cells.takeWhile passed).getLast?.or trail, (cells.dropWhile passed).head?) := by
  induction cells generalizing start trail limit with
  | nil =>
    obtain ⟨limit, rfl⟩ :=
      Nat.exists_eq_succ_of_ne_zero (Nat.ne_of_gt (Nat.zero_lt_of_lt hlt))
    rw [chain_nil.mp chain]
    rfl
  | cons cell rest ih =>
    obtain ⟨limit, rfl⟩ :=
      Nat.exists_eq_succ_of_ne_zero (Nat.ne_of_gt (Nat.zero_lt_of_lt hlt))
    rw [chain.1, seek]
    cases pass : passed cell with
    | false => simp [pass]
    | true =>
      rw [if_pos rfl, ih chain.2 (by simpa using hlt)]
      cases taken : rest.takeWhile passed <;> simp [pass, taken, getLast?_cons]

theorem above_of_mem_dropWhile {key : Cell → Int} {bound : Int}
    (sorted : cells.Pairwise fun first snd => key first ≤ key snd) {cell : Cell}
    (mem : cell ∈ cells.dropWhile fun other => decide (key other ≤ bound)) : bound < key cell := by
  induction cells with
  | nil => cases mem
  | cons first rest ih =>
    obtain ⟨least, later⟩ := pairwise_cons.mp sorted
    by_cases below : key first ≤ bound
    · rw [dropWhile_cons_of_pos (by simpa using below)] at mem
      exact ih later mem
    · rw [dropWhile_cons_of_neg (by simpa using below)] at mem
      rcases mem_cons.mp mem with rfl | inRest
      · omega
      · have post := least cell inRest
        omega

theorem place_sorted {key : Cell → Int}
    (sorted : cells.Pairwise fun first snd => key first ≤ key snd) (cell : Cell) :
    ((cells.takeWhile fun other => decide (key other ≤ key cell)) ++
      cell :: cells.dropWhile fun other => decide (key other ≤ key cell)).Pairwise
        fun first snd => key first ≤ key snd := by
  have whole := sorted
  rw [← takeWhile_append_dropWhile (p := fun other => decide (key other ≤ key cell))
    (l := cells), pairwise_append] at whole
  obtain ⟨front, back, across⟩ := whole
  refine pairwise_append.mpr ⟨front, pairwise_cons.mpr ⟨fun other mem => ?_, back⟩,
    fun first inFront snd mem => ?_⟩
  · have above := above_of_mem_dropWhile sorted mem
    omega
  · rcases mem_cons.mp mem with rfl | inBack
    · exact of_decide_eq_true (all_eq_true.mp all_takeWhile first inFront)
    · exact across first inFront snd inBack

def visited (next : Cell → Option Cell) : Nat → Option Cell → List Cell
  | 0, _ => []
  | _ + 1, none => []
  | limit + 1, some point => point :: visited next limit (next point)

theorem visited_eq {start : Option Cell}
    {limit : Nat} (chain : Chain next start cells) (hlt : cells.length < limit) :
    visited next limit start = cells := by
  induction cells generalizing start limit with
  | nil =>
    obtain ⟨limit, rfl⟩ :=
      Nat.exists_eq_succ_of_ne_zero (Nat.ne_of_gt (Nat.zero_lt_of_lt hlt))
    rw [chain_nil.mp chain]
    rfl
  | cons cell rest ih =>
    obtain ⟨limit, rfl⟩ :=
      Nat.exists_eq_succ_of_ne_zero (Nat.ne_of_gt (Nat.zero_lt_of_lt hlt))
    rw [chain.1, visited, ih chain.2 (by simpa using hlt)]

/-- The cells that a loop through a list takes out and those it leaves, in order, when it
takes every wanted cell until it has taken enough. -/
def picked (want : Cell → Bool) (enough : Nat → Bool) :
    Nat → List Cell → List Cell × List Cell
  | _, [] => ([], [])
  | count, cell :: rest =>
    let count := if want cell then count + 1 else count
    let (taken, kept) := if enough count then ([], rest) else picked want enough count rest
    if want cell then (cell :: taken, kept) else (taken, cell :: kept)

theorem picked_nil {want : Cell → Bool} {hlt : Nat → Bool} {count : Nat} :
    picked want hlt count ([] : List Cell) = ([], []) := rfl

theorem picked_cons {want : Cell → Bool} {hlt : Nat → Bool} {count : Nat} {cell : Cell}
    {rest : List Cell} :
    picked want hlt count (cell :: rest) =
      let count := if want cell then count + 1 else count
      let (taken, kept) := if hlt count then ([], rest) else picked want hlt count rest
      if want cell then (cell :: taken, kept) else (taken, cell :: kept) := rfl

theorem picked_congr {want want' : Cell → Bool} (hlt : Nat → Bool) (count : Nat)
    (agree : ∀ cell ∈ cells, want' cell = want cell) :
    picked want' hlt count cells = picked want hlt count cells := by
  induction cells generalizing count with
  | nil => rfl
  | cons cell rest ih =>
    have later : ∀ count, picked want' hlt count rest = picked want hlt count rest :=
      fun count => ih count fun other mem => agree other (by simp [mem])
    simp only [picked_cons, agree cell (by simp), later]

theorem picked_perm (want : Cell → Bool) (hlt : Nat → Bool) (count : Nat)
    (cells : List Cell) :
    ((picked want hlt count cells).1 ++ (picked want hlt count cells).2).Perm cells := by
  induction cells generalizing count with
  | nil => simp [picked_nil]
  | cons cell rest ih =>
    -- Whether or not the loop goes on, what it leaves and takes of the rest is the rest.
    have later : ∀ count,
        ((if hlt count then ([], rest) else picked want hlt count rest).1 ++
          (if hlt count then ([], rest) else picked want hlt count rest).2).Perm
            rest := by
      intro count
      cases hlt count with
      | true => exact List.Perm.refl rest
      | false => exact ih count
    rw [picked_cons]
    cases want cell with
    | true => exact (later (count + 1)).cons cell
    | false => exact perm_middle.trans ((later count).cons cell)

theorem picked_never (want : Cell → Bool) (count : Nat) (cells : List Cell) :
    picked want (fun _ => false) count cells =
      (cells.filter want, cells.filter fun cell => !want cell) := by
  induction cells generalizing count with
  | nil => rfl
  | cons cell rest ih =>
    simp only [picked_cons, Bool.false_eq_true, if_false, ih]
    cases wanted : want cell <;> simp [wanted]

theorem picked_wanted {want : Cell → Bool} {hlt : Nat → Bool} {count : Nat} :
    ∀ cell ∈ (picked want hlt count cells).1, want cell = true := by
  induction cells generalizing count with
  | nil => simp [picked_nil]
  | cons cell rest ih =>
    intro other mem
    cases wanted : want cell with
    | true =>
      simp only [picked_cons, wanted, if_true, mem_cons] at mem
      rcases mem with rfl | mem
      · exact wanted
      · split at mem
        · simp at mem
        · exact ih other mem
    | false =>
      simp only [picked_cons, wanted, Bool.false_eq_true, if_false] at mem
      split at mem
      · simp at mem
      · exact ih other mem

theorem picked_upTo (want : Cell → Bool) {hlt : Nat → Bool} {limit count : Nat}
    (upTo : ∀ num, hlt num = decide (limit ≤ num)) (below : count < limit)
    (cells : List Cell) :
    (picked want hlt count cells).1.length = min (cells.countP want) (limit - count) := by
  induction cells generalizing count with
  | nil => simp [picked_nil]
  | cons cell rest ih =>
    cases wanted : want cell with
    | true =>
      simp only [picked_cons, wanted, if_true, length_cons, countP_cons_of_pos]
      split
      next full =>
        have reached : limit ≤ count + 1 := by simpa [upTo] using full
        simp only [length_nil]
        omega
      next more =>
        have room : count + 1 < limit := by simpa [upTo] using more
        have later := ih room
        rw [later]
        omega
    | false =>
      have more : hlt count = false := by simpa [upTo] using below
      simp only [picked_cons, wanted, Bool.false_eq_true, if_false, more]
      rw [countP_cons_of_neg (by simp [wanted])]
      exact ih below

end Loops

end LinkedMemory
