/-
Module: BattletechMux.Foundation.Deque
Purpose: Doubly linked lists that keep a pointer to their last cell, several of them sharing one
  memory of links: taking a cell out, putting one at the head, moving a whole list before or behind
  another, and dropping the last cell.
-/
import BattletechMux.Foundation.Fifo

namespace LinkedMemory

open List

open Function (update)

variable {Cell : Type*}

structure Links (Cell : Type*) where
  next : Cell → Option Cell
  prev : Cell → Option Cell

/-- The pointers of a list: to its first and to its last cell. -/
structure Deque (Cell : Type*) where
  head : Option Cell
  tail : Option Cell

namespace Deque

/-- The list holds exactly `cells`, in order.  The pointer to the last cell is only sound
when there is one. -/
structure Holds (links : Links Cell) (list : Deque Cell) (cells : List Cell) : Prop where
  forward : Chain links.next list.head cells
  backward : cells ≠ [] → Chain links.prev list.tail cells.reverse

/-- The pointer to the last cell is null when there is none. -/
def Closed (list : Deque Cell) (cells : List Cell) : Prop := cells = [] → list.tail = none

variable {links links' : Links Cell} {list front : Deque Cell} {cells others : List Cell}

section

variable (holds : list.Holds links cells)
include holds

theorem Holds.congr (next : ∀ cell ∈ cells, links'.next cell = links.next cell)
    (prev : ∀ cell ∈ cells, links'.prev cell = links.prev cell) : list.Holds links' cells where
  forward := holds.forward.congr next
  backward some' := (holds.backward some').congr fun cell mem =>
    prev cell (mem_reverse.mp mem)

theorem Holds.nodup : cells.Nodup := holds.forward.nodup

theorem Holds.head_eq : list.head = cells.head? :=
  holds.forward.head_eq

theorem Holds.tail_eq (some' : cells ≠ []) : list.tail = cells.getLast? := by
  rw [(holds.backward some').head_eq, head?_reverse]

end

theorem Holds.next_eq {before after : List Cell} {cell : Cell}
    (holds : list.Holds links (before ++ cell :: after)) : links.next cell = after.head? :=
  holds.forward.next_eq_head.head_eq

theorem Holds.prev_eq {before after : List Cell} {cell : Cell}
    (holds : list.Holds links (before ++ cell :: after)) :
    links.prev cell = before.getLast? := by
  have chain := holds.backward (by simp)
  rw [reverse_append, reverse_cons, append_assoc, singleton_append] at chain
  rw [chain.next_eq_head.head_eq, head?_reverse]

section Update

variable [DecidableEq Cell]

def remove (links : Links Cell) (list : Deque Cell) (cell : Cell) : Links Cell × Deque Cell :=
  let (links, list) : Links Cell × Deque Cell :=
    match links.next cell with
    | none =>
      let links :=
        match links.prev cell with
        | some previous => { links with next := update links.next previous none }
        | none => links
      (links, { list with tail := links.prev cell })
    | some following =>
      ({ links with prev := update links.prev following (links.prev cell) }, list)
  match links.prev cell with
  | none =>
    let links :=
      match links.next cell with
      | some following => { links with prev := update links.prev following none }
      | none => links
    (links, { list with head := links.next cell })
  | some previous =>
    ({ links with next := update links.next previous (links.next cell) }, list)

def pushHead (links : Links Cell) (list : Deque Cell) (cell : Cell) : Links Cell × Deque Cell :=
  let (links, list) : Links Cell × Deque Cell :=
    match list.head with
    | none => ({ links with next := update links.next cell none }, { list with tail := some cell })
    | some first =>
      ({ next := update links.next cell (some first)
         prev := update links.prev first (some cell) }, list)
  ({ links with prev := update links.prev cell none }, { list with head := some cell })

/-- The cells of `front` go before those of the list. -/
def prepend (links : Links Cell) (list front : Deque Cell) : Links Cell × Deque Cell :=
  match front.head with
  | none => (links, list)
  | some first =>
    let links :=
      match front.tail with
      | some last => { links with next := update links.next last list.head }
      | none => links
    let links :=
      match list.head with
      | some following => { links with prev := update links.prev following front.tail }
      | none => links
    (links, ⟨some first, if list.tail = none then front.tail else list.tail⟩)

/-- The cells of `back` go behind those of the list. -/
def append (links : Links Cell) (list back : Deque Cell) : Links Cell × Deque Cell :=
  match back.head with
  | none => (links, list)
  | some first =>
    match list.head with
    | none => (links, back)
    | some _ =>
      let links :=
        match list.tail with
        | some last => { links with next := update links.next last (some first) }
        | none => links
      ({ links with prev := update links.prev first list.tail }, { list with tail := back.tail })

def dropLast (links : Links Cell) (list : Deque Cell) (last : Cell) : Links Cell × Deque Cell :=
  match links.prev last with
  | none => (links, ⟨none, none⟩)
  | some previous =>
    let links := { links with next := update links.next previous (links.next last) }
    match links.next last with
    | none => (links, { list with tail := some previous })
    | some following =>
      ({ links with prev := update links.prev following (some previous) },
        { list with tail := some previous })

variable {before after : List Cell} {cell : Cell}

section

variable (holds : list.Holds links (before ++ cell :: after))
include holds

theorem remove_eq :
    list.remove links cell =
      (⟨(cut links.next list.head before.getLast? cell).1,
        (cut links.prev list.tail after.head? cell).1⟩,
        ⟨(cut links.next list.head before.getLast? cell).2,
          (cut links.prev list.tail after.head? cell).2⟩) := by
  have following := holds.next_eq
  have previous := holds.prev_eq
  have nodup := holds.nodup
  have notBefore : ∀ o, before.getLast? = some o → cell ≠ o := by
    rintro o last rfl
    have mem := mem_of_getLast? last
    rw [nodup_append] at nodup
    exact nodup.2.2 cell mem cell (by simp) rfl
  have notAfter : ∀ o, after.head? = some o → cell ≠ o := by
    rintro o fst rfl
    have mem := mem_of_mem_head? fst
    rw [nodup_append, nodup_cons] at nodup
    exact nodup.2.1.1 mem
  unfold remove
  rw [following, previous]
  cases fst : after.head? with
  | none =>
    cases last : before.getLast? with
    | none => simp [cut, following, previous, fst, last]
    | some o =>
      have ne := notBefore o last
      simp [cut, following, previous, fst, last, ne]
  | some next =>
    have differs := notAfter next fst
    cases last : before.getLast? with
    | none => simp [cut, following, previous, fst, last, differs]
    | some o =>
      simp [cut, following, previous, fst, last, differs]

theorem Holds.remove :
    (list.remove links cell).2.Holds (list.remove links cell).1 (before ++ after) := by
  rw [remove_eq holds]
  refine ⟨holds.forward.cut, fun _ => ?_⟩
  have chain := holds.backward (by simp)
  rw [reverse_append, reverse_cons, append_assoc, singleton_append] at chain
  have cut := chain.cut
  rwa [getLast?_reverse, ← reverse_append] at cut

theorem Holds.remove_closed : (list.remove links cell).2.Closed (before ++ after) := by
  intro empty
  obtain ⟨rfl, rfl⟩ := append_eq_nil_iff.mp empty
  rw [remove_eq holds]
  exact holds.prev_eq

end

theorem Holds.remove_links {cell outside : Cell}
    (holds : list.Holds links (before ++ cell :: after)) (fresh : outside ∉ before ++ after) :
    (list.remove links cell).1.next outside = links.next outside ∧
      (list.remove links cell).1.prev outside = links.prev outside := by
  rw [mem_append, not_or] at fresh
  rw [remove_eq holds]
  refine ⟨cut_of_notMem fresh.1, ?_⟩
  rw [← getLast?_reverse]
  exact cut_of_notMem fun mem => fresh.2 (mem_reverse.mp mem)

theorem pushHead_eq (holds : list.Holds links cells) (cell : Cell) (fresh : cell ∉ cells) :
    (list.pushHead links cell).1.next = update links.next cell cells.head? ∧
      (list.pushHead links cell).1.prev =
        update (match cells.head? with
          | some fst => update links.prev fst (some cell)
          | none => links.prev) cell none ∧
      (list.pushHead links cell).2 =
        ⟨some cell, if cells = [] then some cell else list.tail⟩ := by
  unfold pushHead
  rw [holds.head_eq]
  cases cells with
  | nil => simp
  | cons fst rest => simp

theorem Holds.pushHead (holds : list.Holds links cells) (fresh : cell ∉ cells) :
    (list.pushHead links cell).2.Holds (list.pushHead links cell).1 (cell :: cells) := by
  obtain ⟨next, prev, pointers⟩ := pushHead_eq holds cell fresh
  rw [pointers]
  refine ⟨?_, fun _ => ?_⟩
  · rw [next, ← holds.head_eq]
    exact holds.forward.push fresh
  · rw [prev]
    cases cells with
    | nil => simp
    | cons fst rest =>
      have ne : fst ≠ cell := fun eq => fresh (by simp [eq])
      have chain := holds.backward (by simp)
      rw [reverse_cons] at chain
      have out : cell ∉ rest.reverse ++ [fst] := by
        simpa [and_comm, Ne.symm ne] using fun mem => fresh (by simp [mem])
      have alone : Chain (update links.prev cell none) (some cell) [cell] := by
        simp [Chain]
      have linked := (chain.update_of_notMem out).extend alone fun o mem inFront => by
        rw [mem_singleton] at mem
        exact out (mem ▸ inFront)
      rw [Function.update_comm (Ne.symm ne)] at linked
      simpa using linked

theorem Holds.pushHead_links (holds : list.Holds links cells) {cell outside : Cell}
    (fresh : cell ∉ cells) (ne : outside ≠ cell) (out : outside ∉ cells) :
    (list.pushHead links cell).1.next outside = links.next outside ∧
      (list.pushHead links cell).1.prev outside = links.prev outside := by
  obtain ⟨next, prev, _⟩ := pushHead_eq holds cell fresh
  rw [next, prev]
  cases cells with
  | nil => simp [ne]
  | cons fst rest =>
    rw [mem_cons, not_or] at out
    simp [ne, out.1]

variable {back : Deque Cell}

theorem Holds.join {init rest : List Cell} {last fst : Cell}
    (holdsFront : front.Holds links (init ++ [last])) (holdsBack : back.Holds links (fst :: rest))
    (apart : ∀ cell ∈ fst :: rest, cell ∉ init ++ [last]) :
    Holds ⟨update links.next last (some fst), update links.prev fst (some last)⟩
      ⟨front.head, back.tail⟩ (init ++ last :: fst :: rest) where
  forward := by
    have behind : Chain links.next (some fst) (fst :: rest) := ⟨rfl, holdsBack.forward.2⟩
    exact holdsFront.forward.extend behind apart
  backward _ := by
    have before := holdsBack.backward (by simp)
    have behind := holdsFront.backward (by simp)
    rw [reverse_cons] at before
    rw [reverse_append, reverse_singleton, singleton_append] at behind
    have start : Chain links.prev (some last) (last :: init.reverse) := ⟨rfl, behind.2⟩
    have linked := before.extend start fun cell mem inBack => by
      refine apart cell (by simpa [or_comm] using inBack) ?_
      simpa [or_comm] using mem
    simpa using linked

theorem Holds.prepend (holds : list.Holds links cells) (holdsFront : front.Holds links others)
    (closed : list.Closed cells) (apart : ∀ cell ∈ cells, cell ∉ others) :
    (list.prepend links front).2.Holds (list.prepend links front).1 (others ++ cells) := by
  rcases eq_nil_or_concat others with rfl | ⟨init, last, rfl⟩
  · have none' : front.head = none := holdsFront.forward
    simpa [Deque.prepend, none'] using holds
  · rw [concat_eq_append] at holdsFront apart ⊢
    have tail : front.tail = some last := by simpa using holdsFront.tail_eq (by simp)
    obtain ⟨fst, head⟩ : ∃ fst, front.head = some fst := by
      rw [holdsFront.head_eq]
      cases init <;> simp
    have ended : links.next last = none := by simpa using holdsFront.next_eq
    cases cells with
    | nil =>
      have none' : list.head = none := holds.forward
      have kept : update links.next last none = links.next := by
        rw [← ended, Function.update_eq_self]
      have memory : list.prepend links front = (links, front) := by
        have pointers : front = ⟨some fst, some last⟩ := by
          rw [← head, ← tail]
        simp only [Deque.prepend, head, tail, none', kept, closed rfl, if_true]
        rw [pointers]
      rw [memory, append_nil]
      exact holdsFront
    | cons following rest =>
      have some' : list.head = some following := holds.forward.1
      have open' : list.tail ≠ none := by
        rw [holds.tail_eq (by simp)]
        simp
      have joined := holdsFront.join holds apart
      simpa [Deque.prepend, head, tail, some', open'] using joined

theorem Holds.prepend_closed (holdsFront : front.Holds links others) (closed : list.Closed cells) :
    (list.prepend links front).2.Closed (others ++ cells) := by
  intro empty
  obtain ⟨rfl, rfl⟩ := append_eq_nil_iff.mp empty
  have none' : front.head = none := holdsFront.forward
  simpa [Deque.prepend, none'] using closed rfl

theorem Holds.prepend_links (holds : list.Holds links cells)
    (holdsFront : front.Holds links others) {outside : Cell} (out : outside ∉ others ++ cells) :
    (list.prepend links front).1.next outside = links.next outside ∧
      (list.prepend links front).1.prev outside = links.prev outside := by
  rw [mem_append, not_or] at out
  have notLast : front.head ≠ none → front.tail ≠ some outside := by
    intro some' last
    have nonempty : others ≠ [] := fun empty => some' (by rw [holdsFront.head_eq, empty]; rfl)
    rw [holdsFront.tail_eq nonempty] at last
    exact out.1 (mem_of_getLast? last)
  have notFirst : list.head ≠ some outside := by
    intro fst
    rw [holds.head_eq] at fst
    exact out.2 (mem_of_mem_head? fst)
  unfold Deque.prepend
  cases head : front.head with
  | none => exact ⟨rfl, rfl⟩
  | some fst =>
    have ne := notLast (by simp [head])
    cases last : front.tail <;> cases following : list.head <;>
      simp_all [Ne.symm, eq_comm]

theorem Holds.append (holds : list.Holds links cells)
    (holdsBack : back.Holds links others) (apart : ∀ cell ∈ others, cell ∉ cells) :
    (list.append links back).2.Holds (list.append links back).1 (cells ++ others) := by
  cases others with
  | nil =>
    have none' : back.head = none := holdsBack.forward
    simpa [Deque.append, none'] using holds
  | cons fst rest =>
    have some' : back.head = some fst := holdsBack.forward.1
    rcases eq_nil_or_concat cells with rfl | ⟨init, last, rfl⟩
    · have none' : list.head = none := holds.forward
      simpa [Deque.append, none', some'] using holdsBack
    · rw [concat_eq_append] at holds apart ⊢
      have tail : list.tail = some last := by simpa using holds.tail_eq (by simp)
      obtain ⟨leader, head⟩ : ∃ leader, list.head = some leader := by
        rw [holds.head_eq]
        cases init <;> simp
      have joined := holds.join holdsBack apart
      simpa [Deque.append, head, tail, some'] using joined

theorem Holds.append_links (holds : list.Holds links cells)
    (holdsBack : back.Holds links others) {outside : Cell} (out : outside ∉ cells ++ others) :
    (list.append links back).1.next outside = links.next outside ∧
      (list.append links back).1.prev outside = links.prev outside := by
  rw [mem_append, not_or] at out
  have notLast : list.head ≠ none → list.tail ≠ some outside := by
    intro some' last
    have nonempty : cells ≠ [] := fun empty => some' (by rw [holds.head_eq, empty]; rfl)
    rw [holds.tail_eq nonempty] at last
    exact out.1 (mem_of_getLast? last)
  have notFirst : back.head ≠ some outside := by
    intro fst
    rw [holdsBack.head_eq] at fst
    exact out.2 (mem_of_mem_head? fst)
  unfold Deque.append
  cases fst : back.head with
  | none => exact ⟨rfl, rfl⟩
  | some following =>
    cases head : list.head with
    | none => exact ⟨rfl, rfl⟩
    | some leader =>
      have ne := notLast (by simp [head])
      cases last : list.tail <;> simp_all [eq_comm]

theorem Holds.dropLast {init : List Cell} {last : Cell}
    (holds : list.Holds links (init ++ [last])) :
    (list.dropLast links last).2.Holds (list.dropLast links last).1 init ∧
      (list.dropLast links last).2.Closed init := by
  have ended : links.next last = none := by simpa using holds.next_eq
  have previous := holds.prev_eq
  rcases eq_nil_or_concat init with rfl | ⟨front, trail, rfl⟩
  · have none' : links.prev last = none := previous
    simp only [Deque.dropLast, none']
    exact ⟨⟨rfl, fun some' => absurd rfl some'⟩, fun _ => rfl⟩
  · rw [concat_eq_append] at holds previous ⊢
    have some' : links.prev last = some trail := by simpa using previous
    have memory : list.dropLast links last =
        ({ links with next := update links.next trail none }, { list with tail := some trail }) := by
      have still : update links.next trail none last = none := by
        rw [Function.update_apply, ended, ite_self]
      simp only [Deque.dropLast, some', ended, still]
    rw [memory]
    refine ⟨⟨?_, fun _ => ?_⟩, fun empty => by simp at empty⟩
    · have whole : Chain links.next list.head (front ++ trail :: [last]) := by
        simpa using holds.forward
      exact whole.closeAt
    · have chain := holds.backward (by simp)
      rw [reverse_append, reverse_singleton, singleton_append] at chain
      have rest := chain.2
      rwa [some'] at rest

theorem Holds.dropLast_links {init : List Cell} {last outside : Cell}
    (holds : list.Holds links (init ++ [last])) (out : outside ∉ init) :
    (list.dropLast links last).1.next outside = links.next outside ∧
      (list.dropLast links last).1.prev outside = links.prev outside := by
  have ended : links.next last = none := by simpa using holds.next_eq
  have previous := holds.prev_eq
  unfold Deque.dropLast
  rw [previous, ended]
  cases before : init.getLast? with
  | none => exact ⟨rfl, rfl⟩
  | some trail =>
    have ne : outside ≠ trail := fun eq => out (eq ▸ mem_of_getLast? before)
    have still : update links.next trail none last = none := by
      rw [Function.update_apply, ended, ite_self]
    simp [still, ne]

end Update

end Deque

end LinkedMemory
