/-
Module: BattletechMux.Foundation.Chain
Purpose: Intrusive linked lists over a memory of link fields.
-/
import Mathlib.Data.List.Basic
import Mathlib.Data.List.Nodup
import Mathlib.Data.List.Range
import Mathlib.Data.List.Perm.Subperm
import Mathlib.Logic.Function.Basic

namespace LinkedMemory

open List Option

open Function (update)

variable {Cell : Type*}

/-- Following `next` from `start` visits exactly `cells`, in order, and ends
at the null pointer. -/
def Chain (next : Cell → Option Cell) : Option Cell → List Cell → Prop
  | start, [] => start = none
  | start, cell :: rest => start = some cell ∧ Chain next (next cell) rest

@[simp] theorem chain_nil {next : Cell → Option Cell} {start : Option Cell} :
    Chain next start [] ↔ start = none := Iff.rfl

@[simp] theorem chain_cons {next : Cell → Option Cell} {start : Option Cell}
    {cell : Cell} {rest : List Cell} :
    Chain next start (cell :: rest) ↔
      start = some cell ∧ Chain next (next cell) rest := Iff.rfl

instance decidableChain [DecidableEq Cell] (next : Cell → Option Cell) :
    ∀ start cells, Decidable (Chain next start cells)
  | start, [] => inferInstanceAs (Decidable (start = none))
  | start, cell :: rest =>
    have := decidableChain next (next cell) rest
    inferInstanceAs (Decidable (start = some cell ∧ Chain next (next cell) rest))

namespace Chain

variable {next next' : Cell → Option Cell} {start : Option Cell}

variable {cells : List Cell}

theorem head_eq (chain : Chain next start cells) : start = cells.head? := by
  cases cells with
  | nil => exact chain
  | cons cell rest => exact chain.1

theorem unique {fst snd : List Cell} (one : Chain next start fst)
    (two : Chain next start snd) : fst = snd := by
  induction fst generalizing start snd with
  | nil =>
    cases snd with
    | nil => rfl
    | cons cell rest => simp_all
  | cons cell rest ih =>
    cases snd with
    | nil => simp_all
    | cons o tail =>
      have eq : cell = o :=
        some.inj (one.1.symm.trans two.1)
      subst eq
      exact congrArg (cell :: ·) (ih one.2 two.2)

theorem suffix {before after : List Cell}
    (chain : Chain next start (before ++ after)) :
    ∃ middle, Chain next middle after := by
  induction before generalizing start with
  | nil => exact ⟨start, chain⟩
  | cons cell rest ih => exact ih chain.2

theorem next_eq_head {before after : List Cell} {cell : Cell}
    (chain : Chain next start (before ++ cell :: after)) :
    Chain next (next cell) after := by
  obtain ⟨_, tail⟩ := chain.suffix
  exact tail.2

theorem nodup (chain : Chain next start cells) : cells.Nodup := by
  induction cells generalizing start with
  | nil => exact nodup_nil
  | cons cell rest ih =>
    refine nodup_cons.mpr ⟨?_, ih chain.2⟩
    intro mem
    obtain ⟨before, after, split⟩ := append_of_mem mem
    -- The tail from the second visit would be the tail from the first one.
    have again : Chain next (next cell) after := by
      have whole : Chain next start ((cell :: before) ++ cell :: after) := by
        simpa [split] using chain
      exact next_eq_head whole
    have eq := chain.2.unique again
    have lengths := congrArg List.length (eq.symm.trans split)
    simp at lengths
    omega

theorem congr (chain : Chain next start cells) (agree : ∀ cell ∈ cells, next' cell = next cell) :
    Chain next' start cells := by
  induction cells generalizing start with
  | nil => exact chain
  | cons cell rest ih =>
    refine ⟨chain.1, ?_⟩
    rw [agree cell (by simp)]
    exact ih chain.2
      fun o mem => agree o (by simp [mem])

section Update

variable [DecidableEq Cell]

theorem update_of_notMem {cells : List Cell} {cell : Cell}
    {link : Option Cell} (chain : Chain next start cells)
    (fresh : cell ∉ cells) : Chain (update next cell link) start cells :=
  chain.congr fun o mem => by
    have ne : o ≠ cell := fun eq => fresh (eq ▸ mem)
    simp [ne]

theorem push {cells : List Cell} {cell : Cell}
    (chain : Chain next start cells) (fresh : cell ∉ cells) :
    Chain (update next cell start) (some cell) (cell :: cells) := by
  refine ⟨rfl, ?_⟩
  simpa using chain.update_of_notMem fresh

theorem skip {before after : List Cell} {cell target : Cell}
    (chain : Chain next start (before ++ cell :: target :: after)) :
    Chain (update next cell (next target)) start (before ++ cell :: after) := by
  have nodup := chain.nodup
  induction before generalizing start with
  | nil =>
    refine ⟨chain.1, ?_⟩
    have tail : Chain next (next target) after := chain.2.2
    have fresh : cell ∉ after := by
      simp only [nil_append, nodup_cons, mem_cons,
        not_or] at nodup
      exact nodup.1.2
    simpa using tail.update_of_notMem fresh
  | cons fst before ih =>
    have ne : fst ≠ cell := by
      intro eq
      subst eq
      simp at nodup
    refine ⟨chain.1, ?_⟩
    simp only [update, ne, dite_false]
    exact ih chain.2 (nodup_cons.mp nodup).2

end Update

end Chain

section Walk

variable [DecidableEq Cell]

/-- The cell of the list at `start` whose link is `target`, found by walking
the list.  `none` when the walk reaches the null pointer or its step limit. -/
def predecessor? (next : Cell → Option Cell) (target : Cell) :
    Nat → Option Cell → Option Cell
  | 0, _ => none
  | _ + 1, none => none
  | limit + 1, some cell =>
    if next cell = some target then some cell
    else predecessor? next target limit (next cell)

theorem predecessor?_eq {next : Cell → Option Cell} {target : Cell} :
    ∀ {before after : List Cell} {cell : Cell} {start : Option Cell}
      {limit : Nat},
      Chain next start (before ++ cell :: target :: after) →
        before.length < limit →
          predecessor? next target limit start = some cell
  | [], after, cell, start, limit, chain, hlt => by
      obtain ⟨limit, rfl⟩ := Nat.exists_eq_add_of_lt hlt
      have link : next cell = some target := chain.2.1
      simp [predecessor?, chain.1, link]
  | fst :: before, after, cell, start, limit, chain, hlt => by
      obtain ⟨limit, rfl⟩ :=
        Nat.exists_eq_succ_of_ne_zero (Nat.ne_of_gt (Nat.zero_lt_of_lt hlt))
      -- The first cell cannot point at the target: its link is the next one.
      have notYet : next fst ≠ some target := by
        intro link
        have tail : Chain next (some target) (before ++ cell :: target :: after) := by
          rw [← link]; exact chain.2
        have repeated := chain.2.nodup
        cases before with
        | nil =>
          have eq : cell = target := (some.inj tail.1).symm
          subst eq
          simp at repeated
        | cons snd before =>
          have eq : snd = target := (some.inj tail.1).symm
          subst eq
          simp at repeated
      rw [chain.1, predecessor?, if_neg notYet]
      exact predecessor?_eq chain.2 (by simpa using hlt)

/-- Memory of a singly linked list: its head pointer and the link field. -/
structure SingleList (Cell : Type*) where
  head : Option Cell
  next : Cell → Option Cell

namespace SingleList

def push (list : SingleList Cell) (cell : Cell) : SingleList Cell :=
  { head := some cell, next := update list.next cell list.head }

/-- Unlink a cell, walking at most `limit` cells to find its predecessor. -/
def remove (limit : Nat) (list : SingleList Cell) (target : Cell) :
    Option (SingleList Cell) :=
  if list.head = some target then
    some { list with head := list.next target }
  else
    (predecessor? list.next target limit list.head).map fun cell =>
      { list with next := update list.next cell (list.next target) }

theorem push_frame {list : SingleList Cell} {start : Option Cell}
    {others : List Cell} {cell : Cell} (chain : Chain list.next start others)
    (fresh : cell ∉ others) : Chain (list.push cell).next start others :=
  chain.update_of_notMem fresh

theorem remove_spec {list : SingleList Cell} {before after : List Cell}
    {target : Cell} {limit : Nat}
    (chain : Chain list.next list.head (before ++ target :: after))
    (hlt : before.length ≤ limit) :
    ∃ removed, list.remove limit target = some removed ∧
      Chain removed.next removed.head (before ++ after) ∧
      ∀ cell, cell ∉ before → removed.next cell = list.next cell := by
  rcases eq_nil_or_concat before with rfl | ⟨front, cell, rfl⟩
  · exact ⟨{ list with head := list.next target }, by simp [remove, chain.1],
      chain.2, by simp⟩
  · have whole : Chain list.next list.head (front ++ cell :: target :: after) := by
      simpa using chain
    have nodup := whole.nodup
    have headNe : list.head ≠ some target := by
      intro eq
      have fst := whole.head_eq.symm.trans eq
      cases front <;> simp at fst <;> simp [fst] at nodup
    have hf : predecessor? list.next target limit list.head = some cell :=
      predecessor?_eq whole (by simp at hlt; omega)
    refine ⟨{ list with next := update list.next cell (list.next target) },
      by simp [remove, headNe, hf], by simpa using whole.skip, ?_⟩
    intro o fresh
    have ne : o ≠ cell := by
      intro eq
      subst eq
      simp at fresh
    simp [ne]

end SingleList

end Walk

/-- `prev` leads from every cell back to the one before it, and from the first
cell to `before`. -/
def BackLinked (prev : Cell → Option Cell) : Option Cell → List Cell → Prop
  | _, [] => True
  | before, cell :: rest => prev cell = before ∧ BackLinked prev (some cell) rest

/-- A list linked both ways, with no cell before the first. -/
structure DoublyLinked (next prev : Cell → Option Cell) (start : Option Cell)
    (cells : List Cell) : Prop where
  chain : Chain next start cells
  back : BackLinked prev none cells

namespace BackLinked

variable {prev prev' : Cell → Option Cell} {before : Option Cell}

theorem congr {cells : List Cell} (back : BackLinked prev before cells)
    (agree : ∀ cell ∈ cells, prev' cell = prev cell) :
    BackLinked prev' before cells := by
  induction cells generalizing before with
  | nil => trivial
  | cons cell rest ih =>
    refine ⟨(agree cell (by simp)).trans back.1, ?_⟩
    exact ih back.2
      fun o mem => agree o (by simp [mem])

theorem skip [DecidableEq Cell] {front after : List Cell}
    {target following : Cell}
    (back : BackLinked prev before (front ++ target :: following :: after))
    (nodup : (front ++ target :: following :: after).Nodup) :
    BackLinked (update prev following (prev target)) before
      (front ++ following :: after) := by
  induction front generalizing before with
  | nil =>
    refine ⟨by simpa using back.1, ?_⟩
    refine BackLinked.congr back.2.2 fun o mem => ?_
    have ne : o ≠ following := by
      intro eq
      subst eq
      simp [mem] at nodup
    simp [ne]
  | cons fst front ih =>
    have ne : fst ≠ following := by
      intro eq
      subst eq
      simp at nodup
    refine ⟨?_, ih back.2 (nodup_cons.mp nodup).2⟩
    simpa [ne] using back.1

theorem dropLast {front : List Cell} {target : Cell}
    (back : BackLinked prev before (front ++ [target])) :
    BackLinked prev before front := by
  induction front generalizing before with
  | nil => trivial
  | cons fst front ih =>
    exact ⟨back.1, ih back.2⟩

theorem prev_eq {front after : List Cell} {target : Cell}
    (back : BackLinked prev before (front ++ target :: after)) :
    prev target = front.getLast?.or before := by
  induction front generalizing before with
  | nil => simpa using back.1
  | cons fst front ih =>
    rw [ih back.2]
    cases front <;> simp [getLast?_cons]

end BackLinked

namespace DoublyLinked

variable {next prev : Cell → Option Cell} {start : Option Cell} {cells : List Cell}

theorem inverse (linked : DoublyLinked next prev start cells) {cell following : Cell}
    (here : cell ∈ cells) (there : following ∈ cells) :
    next cell = some following ↔ prev following = some cell := by
  constructor
  · intro link
    obtain ⟨front, after, split⟩ := append_of_mem here
    have tail := (split ▸ linked.chain).next_eq_head
    cases after with
    | nil => simp [link] at tail
    | cons snd rest =>
      have eq : snd = following := some.inj (tail.1.symm.trans link)
      have back := linked.back
      rw [split, eq, append_cons] at back
      simpa using back.prev_eq
  · intro link
    obtain ⟨front, after, split⟩ := append_of_mem there
    have before := (split ▸ linked.back).prev_eq
    rcases eq_nil_or_concat front with rfl | ⟨fst, last, rfl⟩
    · simp [link] at before
    · have eq : cell = last := by simpa [link] using before
      have chain := linked.chain
      rw [split, ← eq, concat_append] at chain
      exact chain.next_eq_head.1

end DoublyLinked

structure BidirList (Cell : Type*) where
  head : Option Cell
  next : Cell → Option Cell
  prev : Cell → Option Cell

/-- The list holds exactly `cells`, in order. -/
def BidirList.Holds (list : BidirList Cell) (cells : List Cell) : Prop :=
  DoublyLinked list.next list.prev list.head cells

namespace BidirList

variable [DecidableEq Cell]

def push (list : BidirList Cell) (cell : Cell) : BidirList Cell :=
  let back :=
    match list.head with
    | some first => update list.prev first (some cell)
    | none => list.prev
  { head := some cell
    next := update list.next cell list.head
    prev := update back cell none }

def remove (list : BidirList Cell) (cell : Cell) : BidirList Cell :=
  let next :=
    match list.prev cell with
    | some previous => update list.next previous (list.next cell)
    | none => list.next
  let prev :=
    match next cell with
    | some following => update list.prev following (list.prev cell)
    | none => list.prev
  if list.head = some cell then
    match next cell with
    | some first =>
      { head := some first, next := next, prev := update prev first none }
    | none => { head := none, next := next, prev := prev }
  else { head := list.head, next := next, prev := prev }

variable {list : BidirList Cell} {cell : Cell}

theorem push_holds {cells : List Cell} (h : list.Holds cells) (fresh : cell ∉ cells) :
    (list.push cell).Holds (cell :: cells) := by
  refine ⟨h.chain.push fresh, by simp [push], ?_⟩
  cases cells with
  | nil => trivial
  | cons fst rest =>
    have ne : fst ≠ cell := by
      intro eq
      simp [eq] at fresh
    have head : list.head = some fst := h.chain.1
    refine ⟨by simp [push, head, ne], ?_⟩
    refine h.back.2.congr fun o mem => ?_
    have otherNe : o ≠ cell := by
      intro eq
      simp [← eq, mem] at fresh
    have otherNeFirst : o ≠ fst := by
      intro eq
      have nodup := h.chain.nodup
      simp [← eq, mem] at nodup
    simp [push, head, otherNe, otherNeFirst]

theorem push_next_of_ne {cell o : Cell} (ne : o ≠ cell) :
    (list.push cell).next o = list.next o := by
  simp [push, ne]

theorem push_prev_of_ne {cell o : Cell} (ne : o ≠ cell) (notHead : list.head ≠ some o) :
    (list.push cell).prev o = list.prev o := by
  cases head : list.head with
  | none => simp [push, head, ne]
  | some fst =>
    have otherNe : o ≠ fst := by
      intro eq
      exact notHead (by rw [head, eq])
    simp [push, head, ne, otherNe]

theorem push_frame {start : Option Cell} {cells others : List Cell} (h : list.Holds cells)
    (linked : DoublyLinked list.next list.prev start others)
    (fresh : cell ∉ others) (apart : ∀ o ∈ others, o ∉ cells) :
    DoublyLinked (list.push cell).next (list.push cell).prev start others := by
  have ne : ∀ o ∈ others, o ≠ cell := by
    intro o mem eq
    exact fresh (eq ▸ mem)
  refine ⟨linked.chain.congr ?_, linked.back.congr ?_⟩
  · intro o mem
    exact push_next_of_ne (ne o mem)
  · intro o mem
    refine push_prev_of_ne (ne o mem) ?_
    intro head
    have fst := h.chain.head_eq.symm.trans head
    exact apart o mem (mem_of_head? fst)

variable {before after : List Cell}

theorem remove_eq (h : list.Holds (before ++ cell :: after)) :
    list.remove cell =
      { head := (before ++ after).head?
        next := match before.getLast? with
          | some previous => update list.next previous after.head?
          | none => list.next
        prev := match after.head? with
          | some following => update list.prev following before.getLast?
          | none => list.prev } := by
  have nodup := h.chain.nodup
  have back : list.prev cell = before.getLast? := by
    simpa using h.back.prev_eq
  have forward : list.next cell = after.head? :=
    (Chain.next_eq_head h.chain).head_eq
  rcases eq_nil_or_concat before with rfl | ⟨front, previous, rfl⟩
  · have atHead : list.head = some cell := h.chain.1
    cases after <;> simp [remove, back, forward, atHead]
  · have last : (front.concat previous).getLast? = some previous := by simp
    have previousNe : cell ≠ previous := by
      intro eq
      subst eq
      simp [nodup_append] at nodup
    have head : list.head = (front.concat previous ++ after).head? := by
      rw [h.chain.head_eq]
      cases front <;> simp
    have notHead : list.head ≠ some cell := by
      rw [h.chain.head_eq]
      intro eq
      cases front <;> simp at eq <;> simp [eq] at nodup
    rw [last] at back ⊢
    rw [← head]
    cases after <;> simp_all [remove]

theorem remove_holds (h : list.Holds (before ++ cell :: after)) :
    (list.remove cell).Holds (before ++ after) := by
  have nodup := h.chain.nodup
  have back : list.prev cell = before.getLast? := by
    simpa using h.back.prev_eq
  have forward : list.next cell = after.head? :=
    (Chain.next_eq_head h.chain).head_eq
  rw [remove_eq h]
  constructor
  · rcases eq_nil_or_concat before with rfl | ⟨front, previous, rfl⟩
    · simpa [forward] using h.chain.2
    · have whole : Chain list.next list.head
          (front ++ previous :: cell :: after) := by
        simpa using h.chain
      have skipped := whole.skip
      rw [skipped.head_eq, forward] at skipped
      simpa using skipped
  · cases after with
    | nil => simpa using h.back.dropLast
    | cons following rest =>
      have skipped := h.back.skip nodup
      rw [back] at skipped
      simpa using skipped

theorem remove_next_of_notMem {cell o : Cell}
    (h : list.Holds (before ++ cell :: after)) (fresh : o ∉ before) :
    (list.remove cell).next o = list.next o := by
  rw [remove_eq h]
  rcases eq_nil_or_concat before with rfl | ⟨front, previous, rfl⟩
  · simp
  · have ne : o ≠ previous := by
      intro eq
      simp [eq] at fresh
    simp [ne]

theorem remove_prev_of_notMem {cell o : Cell}
    (h : list.Holds (before ++ cell :: after)) (fresh : o ∉ after) :
    (list.remove cell).prev o = list.prev o := by
  rw [remove_eq h]
  cases after with
  | nil => simp
  | cons following rest =>
    have ne : o ≠ following := by
      intro eq
      simp [eq] at fresh
    simp [ne]

theorem remove_frame {start : Option Cell} {before after others : List Cell}
    (h : list.Holds (before ++ cell :: after))
    (linked : DoublyLinked list.next list.prev start others)
    (apart : ∀ o ∈ others, o ∉ before ++ cell :: after) :
    DoublyLinked (list.remove cell).next (list.remove cell).prev start
      others := by
  refine ⟨linked.chain.congr ?_, linked.back.congr ?_⟩
  · intro o mem
    refine remove_next_of_notMem h ?_
    intro inBefore
    exact apart o mem (by simp [inBefore])
  · intro o mem
    refine remove_prev_of_notMem h ?_
    intro inAfter
    exact apart o mem (by simp [inAfter])

end BidirList

theorem length_le_of_lt {cells : List Nat} {bound : Nat} (nodup : cells.Nodup)
    (below : ∀ cell ∈ cells, cell < bound) : cells.length ≤ bound := by
  have hin : cells.Subperm (List.range bound) :=
    nodup.subperm fun cell mem => mem_range.mpr (below cell mem)
  simpa using hin.length_le

theorem erase_of_eq_append [DecidableEq Cell] {cells before after : List Cell}
    {cell : Cell} (nodup : cells.Nodup) (split : cells = before ++ cell :: after) :
    cells.erase cell = before ++ after := by
  have fresh : cell ∉ before := by
    intro inBefore
    rw [split, nodup_append] at nodup
    exact nodup.2.2 cell inBefore cell (by simp) rfl
  rw [split, erase_append_right _ fresh, erase_cons_head]

theorem perm_of_key {cells : List Cell} {parts : Nat → List Cell} {key : Cell → Nat}
    {bound : Nat} (distinct : cells.Nodup) (partsNodup : ∀ i, (parts i).Nodup)
    (mem : ∀ i cell, cell ∈ parts i ↔ cell ∈ cells ∧ key cell = i)
    (below : ∀ cell ∈ cells, key cell < bound) :
    ((List.range bound).flatMap parts).Perm cells := by
  have nodup : ((List.range bound).flatMap parts).Nodup := by
    rw [nodup_flatMap]
    refine ⟨fun i _ => partsNodup i, nodup_range.imp ?_⟩
    intro fst snd ne cell inFirst inSecond
    have one := ((mem fst cell).mp inFirst).2
    have two := ((mem snd cell).mp inSecond).2
    exact ne (one.symm.trans two)
  rw [perm_ext_iff_of_nodup nodup distinct]
  intro cell
  rw [mem_flatMap]
  constructor
  · rintro ⟨i, _, inPart⟩
    exact ((mem i cell).mp inPart).1
  · intro inCells
    exact ⟨key cell, mem_range.mpr (below cell inCells),
      (mem _ cell).mpr ⟨inCells, rfl⟩⟩

end LinkedMemory
