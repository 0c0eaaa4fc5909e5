/-
Module: BattletechMux.Myfifo.Queues
Purpose: The queues of myfifo.c, any number of them in one memory of entries.
Trusted boundary: malloc returns an entry that is not in use
-/
import Mathlib.Data.List.Induction
import Mathlib.Data.List.Nodup
import BattletechMux.Foundation.Machine

namespace BattletechMux.Myfifo

open List
open Function (update update_self update_of_ne)

variable {Name Addr Data : Type}

/-- `myfifo_e` -/
structure Entry (Addr Data : Type) where
  data : Data
  next : Option Addr
  prev : Option Addr
deriving DecidableEq

/-- `myfifo`; the entry put in last is the first. -/
structure Fifo (Addr : Type) where
  first : Option Addr
  last : Option Addr
  count : Int
deriving DecidableEq

/-- The pointers to the queues, and the entries that are allocated and not freed. -/
structure State (Name Addr Data : Type) where
  fifos : Name → Option (Fifo Addr)
  entries : Addr → Option (Entry Addr Data)

def State.start : State Name Addr Data := ⟨fun _ => none, fun _ => none⟩

/-- `check_fifo` -/
def checkFifo (s : State Name Addr Data) (foo : Name) : Fifo Addr :=
  (s.fifos foo).getD ⟨none, none, 0⟩

/-- The loops of `myfifo_trav` and `myfifo_trav_r`; what they call `func` with. -/
def visit (entries : Addr → Option (Entry Addr Data)) (along : Entry Addr Data → Option Addr) :
    Nat → Option Addr → Option (List Data)
  | _, none => some []
  | 0, some _ => none
  | fuel + 1, some tmp => do
    let entry ← entries tmp
    let later ← visit entries along fuel (along entry)
    some (entry.data :: later)

section Operations

variable [DecidableEq Name] [DecidableEq Addr]

def State.put (s : State Name Addr Data) (foo : Name) (fifo : Fifo Addr) : State Name Addr Data :=
  { s with fifos := update s.fifos foo (some fifo) }

/-- `myfifo_pop`; `none` when it follows a null pointer or one to a freed entry. -/
def myfifoPop (s : State Name Addr Data) (foo : Name) :
    Option (Option Data × State Name Addr Data) :=
  let fifo := checkFifo s foo
  match fifo.last with
  | none => some (none, s.put foo fifo)
  | some tmp => do
    let popped ← s.entries tmp
    let (fifo, entries) ←
      if fifo.first = fifo.last then
        some ({ fifo with first := none, last := none }, s.entries)
      else do
        let prev ← popped.prev
        let before ← s.entries prev
        some (fifo, update s.entries prev (some { before with next := none }))
    let fifo := { fifo with last := popped.prev }
    -- PFOO->last->prev, also when the only entry was taken out
    let last ← fifo.last
    let entry ← entries last
    let fifo := if entry.prev = none then { fifo with first := fifo.last } else fifo
    some (some popped.data,
      State.put ⟨s.fifos, update entries tmp none⟩ foo { fifo with count := fifo.count - 1 })

/-- `myfifo_push`; `tmp` is what malloc returns. -/
def myfifoPush (s : State Name Addr Data) (foo : Name) (data : Data) (tmp : Addr) :
    Option (State Name Addr Data) :=
  let fifo := checkFifo s foo
  let entries := update s.entries tmp (some ⟨data, fifo.first, none⟩)
  let fifo := { fifo with count := fifo.count + 1 }
  match fifo.first with
  | none => some (State.put ⟨s.fifos, entries⟩ foo { fifo with first := some tmp, last := some tmp })
  | some first => do
    let head ← entries first
    some (State.put ⟨s.fifos, update entries first (some { head with prev := some tmp })⟩ foo
      { fifo with first := some tmp })

inductive Call (Name Addr Data : Type) where
  | length (foo : Name)
  | pop (foo : Name)
  | push (foo : Name) (data : Data) (tmp : Addr)
  | trav (foo : Name)
  | travR (foo : Name)
deriving DecidableEq

inductive Answer (Data : Type) where
  | length (count : Int)
  | popped (data : Option Data)
  | pushed
  | visited (data : List Data)
deriving DecidableEq

/-- One call; `fuel` bounds the rounds of the loops. -/
def step (fuel : Nat) (s : State Name Addr Data) :
    Call Name Addr Data → Option (Answer Data × State Name Addr Data)
  | .length foo =>
    let fifo := checkFifo s foo
    some (.length fifo.count, s.put foo fifo)
  | .pop foo => (myfifoPop s foo).map fun (data, s) => (.popped data, s)
  | .push foo data tmp => (myfifoPush s foo data tmp).map fun s => (.pushed, s)
  | .trav foo =>
    let fifo := checkFifo s foo
    (visit s.entries Entry.next fuel fifo.first).map fun data => (.visited data, s.put foo fifo)
  | .travR foo =>
    let fifo := checkFifo s foo
    (visit s.entries Entry.prev fuel fifo.last).map fun data => (.visited data, s.put foo fifo)

def Fresh (s : State Name Addr Data) (call : Call Name Addr Data) : Prop :=
  ∀ foo data tmp, call = .push foo data tmp → s.entries tmp = none

/-! ## What queues are for -/

abbrev Contents (Name Data : Type) := Name → List Data

/-- What a call returns and leaves when the queues are lists. -/
def Call.answer (contents : Contents Name Data) :
    Call Name Addr Data → Answer Data × Contents Name Data
  | .length foo => (.length (contents foo).length, contents)
  | .pop foo => (.popped (contents foo).getLast?, update contents foo (contents foo).dropLast)
  | .push foo data _ => (.pushed, update contents foo (data :: contents foo))
  | .trav foo => (.visited (contents foo), contents)
  | .travR foo => (.visited (contents foo).reverse, contents)

def answers (contents : Contents Name Data) : List (Call Name Addr Data) → List (Answer Data)
  | [] => []
  | call :: later => (call.answer contents).1 :: answers (call.answer contents).2 later

def LeavesLast (contents : Contents Name Data) : List (Call Name Addr Data) → Prop
  | [] => True
  | call :: later =>
    (∀ foo, call = .pop foo → (contents foo).length ≠ 1) ∧
      LeavesLast (call.answer contents).2 later

end Operations

/-! ## The entries of one queue -/

/-- The entries of a queue, each linked to its neighbours. -/
def Linked (entries : Addr → Option (Entry Addr Data)) (cells : List (Addr × Data)) : Prop :=
  ∀ before cell after, cells = before ++ cell :: after →
    entries cell.1 = some ⟨cell.2, after.head?.map Prod.fst, before.getLast?.map Prod.fst⟩

section Linked

variable {entries entries' : Addr → Option (Entry Addr Data)} {cells : List (Addr × Data)}

theorem Linked.congr (linked : Linked entries cells)
    (kept : ∀ cell ∈ cells, entries' cell.1 = entries cell.1) : Linked entries' cells := by
  intro pre cell post split
  rw [kept cell (by simp [split])]
  exact linked pre cell post split

theorem Linked.allocated (linked : Linked entries cells) {cell : Addr × Data}
    (mem : cell ∈ cells) : entries cell.1 ≠ none := by
  obtain ⟨pre, post, split⟩ := append_of_mem mem
  simp [linked pre cell post split]

theorem Linked.visit_next (linked : Linked entries cells) (post pre : List (Addr × Data))
    (split : cells = pre ++ post) (fuel : Nat) (hlt : post.length ≤ fuel) :
    visit entries Entry.next fuel (post.head?.map Prod.fst) = some (post.map Prod.snd) := by
  induction post generalizing pre fuel with
  | nil => cases fuel <;> rfl
  | cons cell post ih =>
    obtain ⟨fuel, rfl⟩ : ∃ less, fuel = less + 1 := ⟨fuel - 1, by simp at hlt; omega⟩
    have here := linked pre cell post split
    have later := ih (pre ++ [cell]) (by simp [split]) fuel (by simpa using hlt)
    simp [visit, here, later]

theorem Linked.visit_prev (linked : Linked entries cells) (pre post : List (Addr × Data))
    (split : cells = pre ++ post) (fuel : Nat) (hlt : pre.length ≤ fuel) :
    visit entries Entry.prev fuel (pre.getLast?.map Prod.fst) =
      some (pre.reverse.map Prod.snd) := by
  induction pre using reverseRecOn generalizing post fuel with
  | nil => cases fuel <;> rfl
  | append_singleton pre cell ih =>
    obtain ⟨fuel, rfl⟩ : ∃ less, fuel = less + 1 := ⟨fuel - 1, by simp at hlt; omega⟩
    have here := linked pre cell post (by simpa using split)
    have later := ih (cell :: post) (by simpa using split) fuel (by simpa using hlt)
    simp only [getLast?_append, getLast?_singleton, Option.some_or, Option.map_some]
    simp [visit, here, later]

theorem Linked.cons (linked : Linked entries cells) (distinct : (cells.map Prod.fst).Nodup)
    {tmp : Addr} {data : Data} (new : entries' tmp = some ⟨data, cells.head?.map Prod.fst, none⟩)
    (front : ∀ first rest, cells = first :: rest →
      entries' first.1 = some ⟨first.2, rest.head?.map Prod.fst, some tmp⟩)
    (kept : ∀ addr, cells.head?.map Prod.fst ≠ some addr → addr ∈ cells.map Prod.fst →
      entries' addr = entries addr) : Linked entries' ((tmp, data) :: cells) := by
  rintro (_ | ⟨head, pre⟩) cell post split
  · obtain ⟨rfl, rfl⟩ := List.cons.inj split
    exact new
  · obtain ⟨rfl, rfl⟩ := List.cons.inj split
    cases pre with
    | nil => exact front cell post rfl
    | cons first pre =>
      have ne : first.1 ≠ cell.1 := by
        have outside := (nodup_cons.mp distinct).1
        exact fun eq => outside (by simp [eq])
      rw [kept cell.1 (by simpa using ne) (by simp), linked _ cell post rfl]
      simp

theorem Linked.dropLast {front : List (Addr × Data)} {trail last : Addr × Data}
    (linked : Linked entries (front ++ [trail, last]))
    (distinct : ((front ++ [trail, last]).map Prod.fst).Nodup)
    (ended : entries' trail.1 = some ⟨trail.2, none, front.getLast?.map Prod.fst⟩)
    (kept : ∀ addr, addr ≠ trail.1 → addr ≠ last.1 → entries' addr = entries addr) :
    Linked entries' (front ++ [trail]) := by
  intro pre cell post split
  rcases eq_nil_or_concat' post with rfl | ⟨post, o, rfl⟩
  · obtain ⟨rfl, rfl⟩ := append_singleton_inj.mp split
    exact ended
  · rw [← cons_append, ← append_assoc] at split
    obtain ⟨rfl, rfl⟩ := append_singleton_inj.mp split
    have apart : cell.1 ≠ trail.1 ∧ cell.1 ≠ last.1 := by
      simp only [map_append, map_cons, nodup_append, nodup_cons] at distinct
      constructor <;> exact distinct.2.2 cell.1 (by simp) _ (by simp)
    rw [kept cell.1 apart.1 apart.2, linked pre cell (post ++ [trail, last]) (by simp)]
    cases post <;> rfl

end Linked

/-! ## All queues -/

structure Represents [DecidableEq Name] (s : State Name Addr Data)
    (cells : Name → List (Addr × Data)) : Prop where
  fifo : ∀ foo, checkFifo s foo =
    ⟨(cells foo).head?.map Prod.fst, (cells foo).getLast?.map Prod.fst, (cells foo).length⟩
  linked : ∀ foo, Linked s.entries (cells foo)
  distinct : ∀ foo, ((cells foo).map Prod.fst).Nodup
  apart : ∀ foo other, foo ≠ other → ∀ addr ∈ (cells foo).map Prod.fst,
    addr ∉ (cells other).map Prod.fst

section Represents

variable [DecidableEq Name] {s : State Name Addr Data} {cells : Name → List (Addr × Data)}
  {foo : Name}

theorem represents_start : Represents (State.start : State Name Addr Data) fun _ => [] where
  fifo _ := rfl
  linked _ := by simp [Linked]
  distinct _ := nodup_nil
  apart _ _ _ _ := by simp

theorem Represents.replace (held : Represents s cells) (foo : Name) {list : List (Addr × Data)}
    {fifo : Fifo Addr} {entries : Addr → Option (Entry Addr Data)}
    (pointers : fifo = ⟨list.head?.map Prod.fst, list.getLast?.map Prod.fst, list.length⟩)
    (linked : Linked entries list) (distinct : (list.map Prod.fst).Nodup)
    (own : ∀ addr ∈ list.map Prod.fst,
      addr ∈ (cells foo).map Prod.fst ∨ s.entries addr = none)
    (kept : ∀ addr, addr ∉ (cells foo).map Prod.fst → s.entries addr ≠ none →
      entries addr = s.entries addr) :
    Represents (State.put ⟨s.fifos, entries⟩ foo fifo) (update cells foo list) := by
  have loose : ∀ o, o ≠ foo → ∀ addr ∈ (cells o).map Prod.fst,
      addr ∉ (cells foo).map Prod.fst ∧ s.entries addr ≠ none := by
    intro o ne addr mem
    refine ⟨held.apart o foo ne addr mem, ?_⟩
    obtain ⟨cell, hin, rfl⟩ := mem_map.mp mem
    exact (held.linked o).allocated hin
  refine ⟨fun o => ?_, fun o => ?_, fun o => ?_, fun first snd ne => ?_⟩
  · by_cases eq : o = foo
    · simp [checkFifo, State.put, eq, pointers]
    · simpa [checkFifo, State.put, eq] using held.fifo o
  · by_cases eq : o = foo
    · simpa [State.put, eq] using linked
    · rw [update_of_ne eq]
      refine (held.linked o).congr fun cell mem => ?_
      have out := loose o eq cell.1 (mem_map_of_mem mem)
      exact kept cell.1 out.1 out.2
  · by_cases eq : o = foo
    · simpa [eq] using distinct
    · rw [update_of_ne eq]
      exact held.distinct o
  · intro addr mem hin
    by_cases one : first = foo
    · subst one
      rw [update_self] at mem
      rw [update_of_ne (Ne.symm ne)] at hin
      have out := loose snd (Ne.symm ne) addr hin
      exact (own addr mem).elim out.1 out.2
    · rw [update_of_ne one] at mem
      by_cases two : snd = foo
      · subst two
        rw [update_self] at hin
        have out := loose first one addr mem
        exact (own addr hin).elim out.1 out.2
      · rw [update_of_ne two] at hin
        exact held.apart first snd ne addr mem hin

theorem Represents.put (held : Represents s cells) (foo : Name) :
    Represents (s.put foo (checkFifo s foo)) cells := by
  have replaced := held.replace foo (held.fifo foo) (held.linked foo) (held.distinct foo)
    (fun addr mem => .inl mem) (fun _ _ _ => rfl)
  rwa [Function.update_eq_self] at replaced

variable [DecidableEq Addr]

theorem Represents.push (held : Represents s cells) (foo : Name) (data : Data) {tmp : Addr}
    (fresh : s.entries tmp = none) :
    ∃ s', myfifoPush s foo data tmp = some s' ∧
      Represents s' (update cells foo ((tmp, data) :: cells foo)) := by
  have fifo := held.fifo foo
  have linked := held.linked foo
  have distinct := held.distinct foo
  have unused : tmp ∉ (cells foo).map Prod.fst := by
    intro mem
    obtain ⟨cell, hin, rfl⟩ := mem_map.mp mem
    exact linked.allocated hin fresh
  have own : ∀ addr ∈ ((tmp, data) :: cells foo).map Prod.fst,
      addr ∈ (cells foo).map Prod.fst ∨ s.entries addr = none := by
    intro addr mem
    rcases mem_cons.mp mem with rfl | hin
    · exact .inr fresh
    · exact .inl hin
  have distinct' : (((tmp, data) :: cells foo).map Prod.fst).Nodup := nodup_cons.mpr ⟨unused, distinct⟩
  unfold myfifoPush
  rw [fifo]
  cases listed : cells foo with
  | nil =>
    rw [listed] at linked distinct own distinct'
    refine ⟨_, rfl, held.replace foo (by simp) (linked.cons distinct (by simp) ?_ ?_) distinct' ?_ ?_⟩
    · simp
    · simp
    · simpa [listed] using own
    · intro addr _ used
      exact update_of_ne (by rintro rfl; exact used fresh) _ _
  | cons first rest =>
    rw [listed] at linked distinct own distinct' unused
    have here := linked [] first rest rfl
    have ne : first.1 ≠ tmp := fun eq => unused (by simp [eq])
    refine ⟨_, by simp [ne, here]; rfl, held.replace foo ?_ (linked.cons distinct ?_ ?_ ?_)
      distinct' (by rwa [listed]) ?_⟩
    · simp [getLast?_cons]
    · simp [Ne.symm ne]
    · rintro o others eq
      obtain ⟨rfl, rfl⟩ := List.cons.inj eq
      simp
    · intro addr notFirst mem
      have notNew : addr ≠ tmp := fun eq => unused (eq ▸ mem)
      rw [update_of_ne (by simpa [eq_comm] using notFirst), update_of_ne notNew]
    · intro addr out used
      rw [update_of_ne (by simp [listed] at out; exact out.1),
        update_of_ne (by rintro rfl; exact used fresh)]

theorem Represents.pop (held : Represents s cells) (foo : Name) (longer : (cells foo).length ≠ 1) :
    ∃ s', myfifoPop s foo = some ((cells foo).getLast?.map Prod.snd, s') ∧
      Represents s' (update cells foo (cells foo).dropLast) := by
  have fifo := held.fifo foo
  have linked := held.linked foo
  have distinct := held.distinct foo
  have kept := held.put foo
  unfold myfifoPop
  rcases eq_nil_or_concat' (cells foo) with empty | ⟨front, last, listed⟩
  · have eq : update cells foo [] = cells := by rw [← empty, Function.update_eq_self]
    rw [fifo, empty] at kept ⊢
    exact ⟨_, rfl, by simpa [eq] using kept⟩
  rcases eq_nil_or_concat' front with rfl | ⟨front, trail, rfl⟩
  · simp [listed] at longer
  rw [append_assoc, singleton_append] at listed
  rw [listed] at fifo linked distinct
  have here := linked (front ++ [trail]) last [] (by simp)
  have pre := linked front trail [last] rfl
  have ne : trail.1 ≠ last.1 := by
    simp only [map_append, map_cons, nodup_append, nodup_cons] at distinct
    simpa using distinct.2.1.1
  have several : (front ++ [trail, last]).head?.map Prod.fst ≠ some last.1 := by
    cases front with
    | nil => simpa using ne
    | cons first front =>
      rw [cons_append, map_cons, nodup_cons] at distinct
      simpa using fun eq : first.1 = last.1 => distinct.1 (by simp [eq])
  have only : front.getLast?.map Prod.fst = none ↔ front = [] := by simp
  rw [listed]
  simp only [fifo, getLast?_append, getLast?_cons_cons, getLast?_singleton, Option.some_or,
    Option.map_some, several, if_false, here, pre, Option.bind_eq_bind, Option.bind_some,
    head?_nil, Option.map_none, update_self]
  refine ⟨_, rfl, ?_⟩
  rw [show (front ++ [trail, last]).dropLast = front ++ [trail] by simp]
  refine held.replace foo ?_ (linked.dropLast distinct ?_ ?_) ?_ ?_ ?_
  · cases front with
    | nil => simp
    | cons first front =>
      simp [getLast?_cons]
      omega
  · simp [ne]
  · intro addr notTrail notLast
    rw [update_of_ne notLast, update_of_ne notTrail]
  · have shorter : (front ++ [trail]) <+ (front ++ [trail, last]) := by simp
    exact distinct.sublist (shorter.map _)
  · intro addr mem
    rw [listed]
    exact .inl (by simp at mem ⊢; tauto)
  · intro addr out _
    simp [listed] at out
    rw [update_of_ne out.2.2, update_of_ne out.2.1]

theorem Represents.pop_last (held : Represents s cells) (foo : Name)
    (single : (cells foo).length = 1) : myfifoPop s foo = none := by
  obtain ⟨cell, listed⟩ := length_eq_one_iff.mp single
  have fifo := held.fifo foo
  have here := held.linked foo [] cell [] listed
  rw [listed] at fifo
  simp [myfifoPop, fifo, here]

end Represents

/-! ## Runs -/

variable [DecidableEq Name] [DecidableEq Addr]

def contentsOf (cells : Name → List (Addr × Data)) : Contents Name Data :=
  fun foo => (cells foo).map Prod.snd

omit [DecidableEq Addr] in
theorem contentsOf_update (cells : Name → List (Addr × Data)) (foo : Name)
    (list : List (Addr × Data)) :
    contentsOf (update cells foo list) = update (contentsOf cells) foo (list.map Prod.snd) := by
  funext o
  by_cases eq : o = foo
  · simp [contentsOf, eq]
  · simp [contentsOf, eq]

theorem Represents.step {s : State Name Addr Data} {cells : Name → List (Addr × Data)}
    (held : Represents s cells) {fuel : Nat} (hlt : ∀ foo, (cells foo).length ≤ fuel)
    (call : Call Name Addr Data) (fresh : Fresh s call)
    (longer : ∀ foo, call = .pop foo → (contentsOf cells foo).length ≠ 1) :
    ∃ s' cells', step fuel s call = some ((call.answer (contentsOf cells)).1, s') ∧
      Represents s' cells' ∧ contentsOf cells' = (call.answer (contentsOf cells)).2 ∧
      ∀ foo, (cells' foo).length ≤ (cells foo).length + 1 := by
  have bounded : ∀ foo list, list.length ≤ (cells foo).length + 1 → ∀ o,
      (update cells foo list o).length ≤ (cells o).length + 1 := by
    intro foo list short o
    by_cases eq : o = foo
    · simpa [eq] using short
    · simp [eq]
  cases call with
  | length foo =>
    refine ⟨_, cells, ?_, held.put foo, rfl, fun _ => Nat.le_succ _⟩
    simp [Myfifo.step, Call.answer, held.fifo, contentsOf]
  | pop foo =>
    have several : (cells foo).length ≠ 1 := by simpa [contentsOf] using longer foo rfl
    obtain ⟨s', popped, held'⟩ := held.pop foo several
    refine ⟨s', _, ?_, held', ?_, bounded foo _ (by simp; omega)⟩
    · simp [Myfifo.step, popped, Call.answer, contentsOf]
    · rw [contentsOf_update, map_dropLast]
      rfl
  | push foo data tmp =>
    obtain ⟨s', pushed, held'⟩ := held.push foo data (fresh foo data tmp rfl)
    refine ⟨s', _, ?_, held', ?_, bounded foo _ (by simp)⟩
    · simp [Myfifo.step, pushed, Call.answer]
    · rw [contentsOf_update]
      rfl
  | trav foo =>
    refine ⟨_, cells, ?_, held.put foo, rfl, fun _ => Nat.le_succ _⟩
    have visited := (held.linked foo).visit_next (cells foo) [] rfl fuel (hlt foo)
    simp only [Myfifo.step, Call.answer, held.fifo, visited, Option.map_some, contentsOf]
  | travR foo =>
    refine ⟨_, cells, ?_, held.put foo, rfl, fun _ => Nat.le_succ _⟩
    have visited := (held.linked foo).visit_prev (cells foo) [] (by simp) fuel (hlt foo)
    simp only [Myfifo.step, Call.answer, held.fifo, visited, Option.map_some, contentsOf,
      map_reverse]

theorem Represents.calls {s : State Name Addr Data} {cells : Name → List (Addr × Data)}
    (held : Represents s cells) (fuel : Nat) (calls : List (Call Name Addr Data))
    (hlt : ∀ foo, (cells foo).length + calls.length ≤ fuel)
    (fresh : Machine.Guarded (fun s call => (Myfifo.step fuel s call).map Prod.snd) Fresh s calls) :
    (∃ s', Machine.calls (Myfifo.step fuel) s calls =
      some (answers (contentsOf cells) calls, s')) ↔ LeavesLast (contentsOf cells) calls := by
  induction calls generalizing s cells with
  | nil => simp [Machine.calls, answers, LeavesLast]
  | cons call later ih =>
    by_cases longer : ∀ foo, call = .pop foo → (contentsOf cells foo).length ≠ 1
    · have room : ∀ foo, (cells foo).length ≤ fuel := fun foo => by
        have := hlt foo
        omega
      obtain ⟨s', cells', stepped, held', contents, short⟩ := held.step room call fresh.1 longer
      have settled := ih held' (fun foo => by
        have := hlt foo
        have := short foo
        simp only [length_cons] at *
        omega) (fresh.2 s' (by simp [stepped]))
      rw [contents] at settled
      simp only [LeavesLast, and_iff_right longer, ← settled, answers, Machine.calls, stepped,
        Option.bind_eq_bind, Option.bind_some]
      constructor
      · rintro ⟨last, ran⟩
        obtain ⟨⟨outs, middle⟩, went, eq⟩ := Option.bind_eq_some_iff.mp ran
        obtain ⟨eq, -⟩ := Prod.mk.inj (Option.some.inj eq)
        exact ⟨middle, went.trans (by rw [← (List.cons.inj eq).2])⟩
      · rintro ⟨last, ran⟩
        exact ⟨last, by simp [ran]⟩
    · refine iff_of_false ?_ fun leaves => longer leaves.1
      push Not at longer
      obtain ⟨foo, rfl, single⟩ := longer
      have stuck := held.pop_last foo (by simpa [contentsOf] using single)
      simp [Machine.calls, Myfifo.step, stuck]

/-- Calls on queues that start out unallocated answer as queues should, and follow no pointer that
is null or to a freed entry, as long as no pop takes the only element out of a queue. -/
theorem myfifo_queues (calls : List (Call Name Addr Data)) (fuel : Nat)
    (enough : calls.length ≤ fuel)
    (fresh : Machine.Guarded (fun s call => (step fuel s call).map Prod.snd) Fresh
      State.start calls) :
    (∃ s, Machine.calls (step fuel) State.start calls =
      some (answers (fun _ => []) calls, s)) ↔ LeavesLast (fun _ => []) calls :=
  (represents_start : Represents (State.start : State Name Addr Data) _).calls fuel calls
    (fun _ => by simpa using enough) fresh

/-- Two elements pushed; one popped. -/
theorem myfifo_queues_pair :
    ∃ s, Machine.calls (step 3) (State.start : State Unit Nat Char)
      [.push () 'a' 0, .push () 'b' 1, .pop ()] =
      some ([.pushed, .pushed, .popped (some 'a')], s) :=
  (myfifo_queues [.push () 'a' 0, .push () 'b' 1, .pop ()] 3 (Nat.le_refl 3) (by
    refine ⟨?_, ?_⟩
    · rintro _ _ _ ⟨⟩
      rfl
    · rintro s ⟨⟩
      refine ⟨?_, fun _ _ => ⟨by rintro _ _ _ ⟨⟩, fun _ _ => trivial⟩⟩
      rintro _ _ _ ⟨⟩
      rfl)).mpr (by
    refine ⟨nofun, nofun, ?_, trivial⟩
    rintro foo -
    cases foo
    decide)

/-- One element pushed and popped: `PFOO->last->prev` with `PFOO->last` NULL. -/
theorem myfifo_pop_only :
    Machine.calls (step 2) (State.start : State Unit Nat Char) [.push () 'a' 0, .pop ()] = none :=
  rfl

end BattletechMux.Myfifo
