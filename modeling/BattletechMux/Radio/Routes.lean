/-
Module: BattletechMux.Radio.Routes
Purpose: The two searches for a chain of relays between two units, from mech.notify.c, and what they
  agree on.
Trusted boundary: ranges are given by which unit reaches which
-/
import Mathlib

namespace BattletechMux.Radio

section

open Function (update)

def maxMechsPerMap : Nat := 250

/-- The value of `comm_best` while nothing has been found. -/
def notFound : Nat := 9999

structure Links where
  /-- `comm_done`. -/
  done : Nat → Bool
  /-- `comm_path`. -/
  path : Nat → Nat
  /-- `comm_best`. -/
  best : Nat
  /-- `comm_best_path`. -/
  bestPath : Nat → Nat
  /-- `iter_prevent`. -/
  iterPrevent : Nat

/-- `comm_best` and the path to it. -/
def Links.found (s : Links) (best : Nat) : Links :=
  { s with
    best
    bestPath := fun k => if k < best then s.path k else s.bestPath k }

section Search

-- `comm_is` and `comm_num_to_conn`
variable (comm : Nat → Nat → Bool) (n : Nat)

/-- The loop of `recursive_commlink` at a node, given what the call for a relay does. -/
def linkLoop (call : Nat → Links → Links) (i dep : Nat) : List Nat → Links → Links
  | [], s => s
  | j :: rest, s =>
    if comm i j && !s.done j then
      if j = n - 1 then linkLoop call i dep rest (s.found dep)
      else
        let s := call j { s with done := update s.done j true }
        linkLoop call i dep rest { s with done := update s.done j false }
    else linkLoop call i dep rest s

/-- `recursive_commlink`.  `limit` is how many calls `iter_prevent` still allows, and so
how deep they can be nested. -/
def recursiveCommlink : Nat → Nat → Nat → Links → Links
  | 0, _, _, s => { s with iterPrevent := s.iterPrevent + 1 }
  | limit + 1, i, dep, s =>
    let counted := { s with iterPrevent := s.iterPrevent + 1 }
    if 10000 ≤ s.iterPrevent then counted
    else if s.best ≤ dep then counted
    else
      linkLoop comm n (fun j => recursiveCommlink limit j (dep + 1)) i dep
        (List.range' 1 (n - 1)) { counted with path := update s.path dep i }

/-- `recursive_commlink(0, 0)`, after `iter_prevent = 0`. -/
def startRecursive (s : Links) : Links :=
  recursiveCommlink comm n 10001 0 0 { s with iterPrevent := 0 }

/-- The variables of `nonrecursive_commlink`; without a depth it is finished. -/
structure Stack where
  links : Links
  dep : Option Nat
  /-- `comm_loop`. -/
  loop : Nat → Nat

def Stack.back (t : Stack) (dep : Nat) : Stack :=
  match dep with
  | 0 => { t with dep := none }
  | dep + 1 =>
    { t with
      dep := some dep
      links := { t.links with done := update t.links.done (t.loop dep - 1) false } }

/-- What the `for` loop stops at: the receiver, or a relay that is not too deep. -/
def Stack.next (t : Stack) (dep : Nat) : Option Nat :=
  (List.range' (t.loop dep) (n - t.loop dep)).find? fun j =>
    comm (t.links.path dep) j && !t.links.done j && (j = n - 1 || dep + 1 < t.links.best)

/-- One round of the `while` loop. -/
def Stack.round (t : Stack) (dep : Nat) : Stack :=
  match t.next comm n dep with
  | none => t.back dep
  | some j =>
    if j = n - 1 then { t with links := t.links.found (dep + 1) }.back dep
    else
      { links :=
          { t.links with
            done := update t.links.done j true, path := update t.links.path (dep + 1) j }
        dep := some (dep + 1)
        loop := update (update t.loop dep (j + 1)) (dep + 1) 1 }

/-- The `while` loop, with so many rounds left; then the backup is used. -/
def linkRounds : Nat → Stack → Links
  | 0, t =>
    startRecursive comm n
      { t.links with
        best := notFound
        done := fun k => if k < n then false else t.links.done k }
  | left + 1, t =>
    match t.dep with
    | none => t.links
    | some dep => linkRounds left (t.round comm n dep)

/-- `nonrecursive_commlink(0)`. -/
def nonrecursiveCommlink (s : Links) : Links :=
  linkRounds comm n 100001
    { links := { s with path := update s.path 0 0 }, dep := some 0, loop := fun _ => 1 }

end Search

structure Mech where
  mynum : Int
  team : Int
  /-- `MOVE_NONE`. -/
  moveNone : Bool
  started : Bool
  destroyed : Bool
  radioType : Nat
  freq : Nat → Int
  freqmodes : Nat → Nat

def Mech.mFreqs (t : Mech) : Nat := t.radioType % 16

/-- `MechRadioInfo(t) & RADIO_RELAY`. -/
def Mech.radioRelay (t : Mech) : Bool := (t.radioType / 16).testBit 0

/-- The channels of a unit that relay a frequency: `freqmodes[j] & FREQ_RELAY`. -/
def Mech.relayChannels (t : Mech) (freq : Int) : Nat :=
  (List.range t.mFreqs).countP fun j => t.freq j = freq && (t.freqmodes j).testBit 2

/-- The units in between that `findCommLink` does not pass over. -/
def Mech.relays (from' to' t : Mech) : Bool :=
  t.mynum ≠ from'.mynum && t.mynum ≠ to'.mynum && from'.team = t.team &&
    !((!t.moveNone && !t.started) || (t.moveNone && t.destroyed)) && t.radioRelay

/-- `comm_mech`: each channel adds its unit.  A slot of the map may have no unit. -/
def commMech (mechsOnMap : List (Option Mech)) (from' to' : Mech) (freq : Int) : List Mech :=
  from' :: (mechsOnMap.reduceOption.flatMap fun t =>
    if Mech.relays from' to' t then List.replicate (t.relayChannels freq) t else []) ++ [to']

/-- `findCommLink`, where `reaches` compares the range to a unit with that of the radio. -/
def findCommLink (reaches : Mech → Mech → Bool) (mechsOnMap : List (Option Mech))
    (from' to' : Mech) (freq : Int) (s : Links) : Bool × Links :=
  let mechs := commMech mechsOnMap from' to' freq
  let n := mechs.length
  if n = 2 then (false, s)
  else
    let comm (i j : Nat) : Bool :=
      i ≠ j && (mechs[i]?.any fun sender => mechs[j]?.any fun receiver => reaches sender receiver)
    let s := nonrecursiveCommlink comm n
      { s with best := notFound, done := fun k => if k < n then false else s.done k }
    (s.best ≠ notFound, s)

end

open List Option
open Function (update update_self update_of_ne)

section Routes

variable (comm : Nat → Nat → Bool) (n : Nat)

structure IsRoute (route : List Nat) : Prop where
  sender : route.head? = some 0
  relays : ∀ j ∈ route.tail, 1 ≤ j ∧ j < n - 1
  hops : (route ++ [n - 1]).IsChain fun i j => comm i j = true

def Links.answer (s : Links) : List Nat := (List.range s.best).map s.bestPath

/-- The search finds a shortest route if there is one, and the recursive search says the
same. -/
structure LinkFound (s : Links) : Prop where
  found : (nonrecursiveCommlink comm n s).best ≠ notFound ↔ ∃ route, IsRoute comm n route
  shortest : (nonrecursiveCommlink comm n s).best ≠ notFound →
    IsRoute comm n (nonrecursiveCommlink comm n s).answer ∧
      ∀ route, IsRoute comm n route →
        (nonrecursiveCommlink comm n s).best ≤ route.length
  same : (startRecursive comm n s).best = (nonrecursiveCommlink comm n s).best ∧
    ((nonrecursiveCommlink comm n s).best ≠ notFound →
      (startRecursive comm n s).answer = (nonrecursiveCommlink comm n s).answer)

inductive Reach : Nat → Prop
  | sender : Reach 0
  | relay {i j : Nat} (earlier : Reach i) (hop : comm i j = true) (after : 1 ≤ j)
      (before : j < n - 1) : Reach j

end Routes

section Unreachable

variable {comm : Nat → Nat → Bool} {n : Nat}

theorem Reach.route {i : Nat} (reach : Reach comm n i) :
    ∃ route : List Nat, route.head? = some 0 ∧ (∀ j ∈ route.tail, 1 ≤ j ∧ j < n - 1) ∧
      route.IsChain (fun i j => comm i j = true) ∧ route.getLast? = some i := by
  induction reach with
  | sender => exact ⟨[0], rfl, by simp, isChain_singleton _, rfl⟩
  | @relay i j _ hop post pre ih =>
    obtain ⟨route, head, relays, chain, last⟩ := ih
    obtain ⟨fst, rest, rfl⟩ : ∃ fst rest, route = fst :: rest :=
      exists_cons_of_ne_nil (by rintro rfl; simp at head)
    refine ⟨fst :: rest ++ [j], head, ?_, ?_, getLast?_concat ..⟩
    · intro k member
      rcases mem_append.mp (show k ∈ rest ++ [j] from member) with old | new
      · exact relays k old
      · rw [mem_singleton.mp new]
        exact ⟨post, pre⟩
    · refine isChain_append.mpr ⟨chain, isChain_singleton _, ?_⟩
      intro x isLast y isFirst
      rw [last] at isLast
      obtain rfl := some.inj isLast
      obtain rfl := some.inj isFirst
      exact hop

theorem Reach.unheard {i : Nat} (reach : Reach comm n i)
    (none' : ¬ ∃ route, IsRoute comm n route) : comm i (n - 1) = false := by
  rw [Bool.eq_false_iff]
  intro hop
  obtain ⟨route, head, relays, chain, last⟩ := reach.route
  refine none' ⟨route, head, relays, isChain_append.mpr ⟨chain, isChain_singleton _, ?_⟩⟩
  intro x isLast y isFirst
  rw [last] at isLast
  obtain rfl := some.inj isLast
  obtain rfl := some.inj isFirst
  exact hop

variable (none' : ¬ ∃ route, IsRoute comm n route)
include none'

theorem recursive_unfound {i : Nat} (reach : Reach comm n i) (limit dep : Nat) (s : Links) :
    (recursiveCommlink comm n limit i dep s).best = s.best := by
  induction limit generalizing i dep s with
  | zero => rfl
  | succ limit ih =>
    unfold recursiveCommlink
    dsimp only
    split
    · rfl
    split
    · rfl
    have loop (js : List Nat) (hin : ∀ j ∈ js, 1 ≤ j ∧ j < n) (s : Links) :
        (linkLoop comm n (fun j => recursiveCommlink comm n limit j (dep + 1)) i dep js s).best =
          s.best := by
      induction js generalizing s with
      | nil => rfl
      | cons j rest restSame =>
        have restSame := restSame fun k later => hin k (mem_cons_of_mem _ later)
        have bounds := hin j mem_cons_self
        unfold linkLoop
        split
        · rename_i open'
          have hop : comm i j = true := (Bool.and_eq_true_iff.mp open').1
          split
          · rename_i receiver
            rw [receiver, reach.unheard none'] at hop
            exact absurd hop Bool.false_ne_true
          · rename_i relay
            rw [restSame]
            exact ih (.relay reach hop bounds.1 (by omega)) (dep + 1) _
        · exact restSame s
    exact loop _ (fun j member => by
      obtain ⟨k, small, rfl⟩ := mem_range'.mp member
      omega) _

theorem rounds_unfound (left : Nat) (t : Stack) (empty : t.links.best = notFound)
    (reach : ∀ dep, t.dep = some dep → ∀ k ≤ dep, Reach comm n (t.links.path k) ∧ 1 ≤ t.loop k) :
    (linkRounds comm n left t).best = notFound := by
  induction left generalizing t with
  | zero =>
    unfold linkRounds startRecursive
    rw [recursive_unfound none' .sender]
  | succ left ih =>
    unfold linkRounds
    cases depth : t.dep with
    | none => exact empty
    | some dep =>
      have reach := reach dep depth
      dsimp only
      unfold Stack.round
      cases next : t.next comm n dep with
      | none =>
        refine ih _ ?_ ?_
        · cases dep <;> exact empty
        · intro d isDepth k small
          cases dep with
          | zero => exact absurd isDepth (by simp [Stack.back])
          | succ dep =>
            obtain rfl : dep = d := some.inj isDepth
            exact reach k (by omega)
      | some j =>
        have hop := find?_some next
        simp only [Bool.and_eq_true] at hop
        have hin := mem_range'_1.mp (mem_of_find?_eq_some next)
        have here := reach dep le_rfl
        dsimp only
        split
        · rename_i receiver
          rw [receiver, here.1.unheard none'] at hop
          exact absurd hop.1.1 Bool.false_ne_true
        · rename_i relay
          refine ih _ empty fun d isDepth k small => ?_
          obtain rfl : dep + 1 = d := some.inj isDepth
          dsimp only
          rcases Nat.lt_or_eq_of_le small with pre | rfl
          · rw [update_of_ne pre.ne, update_of_ne pre.ne]
            refine ⟨(reach k (by omega)).1, ?_⟩
            by_cases current : k = dep
            · rw [current, update_self]
              omega
            · rw [update_of_ne current]
              exact (reach k (by omega)).2
          · rw [update_self, update_self]
            exact ⟨.relay here.1 hop.1.1 (by omega) (by omega), le_rfl⟩

end Unreachable

section Recursive

variable {comm : Nat → Nat → Bool} {n : Nat}

/-- What a call at a depth leaves: what was found before, the path to this depth, or
something deeper whose last relay does not reach the receiver. -/
structure Ends (comm : Nat → Nat → Bool) (n dep : Nat) (before after : Links) : Prop where
  path : ∀ k < dep, after.path k = before.path k
  open' : after.done (n - 1) = before.done (n - 1)
  outcome : (after.best = before.best ∧ after.bestPath = before.bestPath) ∨
    (after.best = dep ∧ ∀ k < dep, after.bestPath k = before.path k) ∨
    (dep < after.best ∧ comm (after.bestPath (after.best - 1)) (n - 1) = false)

variable {dep : Nat} {s s' s'' : Links}

theorem Ends.trans (fst : Ends comm n dep s s') (snd : Ends comm n dep s' s'') :
    Ends comm n dep s s'' where
  path k small := (snd.path k small).trans (fst.path k small)
  open' := snd.open'.trans fst.open'
  outcome := by
    rcases snd.outcome with ⟨best, path⟩ | ⟨best, path⟩ | deeper
    · rw [best, path]
      exact fst.outcome
    · exact Or.inr (Or.inl ⟨best, fun k small => (path k small).trans (fst.path k small)⟩)
    · exact Or.inr (Or.inr deeper)

theorem linkLoop_relays {call : Nat → Links → Links} {i : Nat}
    (calls : ∀ j s, s.done (n - 1) = false → Ends comm n (dep + 1) s (call j s))
    (js : List Nat) (relays : ∀ j ∈ js, j ≠ n - 1) (post : List Nat) (s : Links)
    (unmarked : s.done (n - 1) = false) :
    ∃ s', Ends comm n (dep + 1) s s' ∧
      linkLoop comm n call i dep (js ++ post) s = linkLoop comm n call i dep post s' := by
  induction js generalizing s with
  | nil => exact ⟨s, ⟨fun _ _ => rfl, rfl, Or.inl ⟨rfl, rfl⟩⟩, rfl⟩
  | cons j rest ih =>
    have later := ih fun k member => relays k (mem_cons_of_mem j member)
    have relay := relays j mem_cons_self
    rw [cons_append, linkLoop, if_neg relay]
    split
    · have marked : update s.done j true (n - 1) = s.done (n - 1) :=
        update_of_ne relay.symm ..
      have inner := calls j { s with done := update s.done j true } (marked.trans unmarked)
      generalize call j { s with done := update s.done j true } = s₁ at inner ⊢
      have around : Ends comm n (dep + 1) s { s₁ with done := update s₁.done j false } :=
        { path := inner.path
          open' := by
            show update s₁.done j false (n - 1) = s.done (n - 1)
            rw [update_of_ne relay.symm]
            exact inner.open'.trans marked
          outcome := inner.outcome }
      obtain ⟨s', ends, same⟩ := later { s₁ with done := update s₁.done j false }
        (around.open'.trans unmarked)
      exact ⟨s', around.trans ends, same⟩
    · exact later s unmarked

theorem linkLoop_receiver (call : Nat → Links → Links) (i : Nat) (s : Links) :
    linkLoop comm n call i dep [n - 1] s =
      if comm i (n - 1) && !s.done (n - 1) then s.found dep else s := by
  unfold linkLoop
  split
  · rw [if_pos rfl]
    rfl
  · rfl

theorem recursive_ends (limit i dep : Nat) (s : Links) (unmarked : s.done (n - 1) = false) :
    Ends comm n dep s (recursiveCommlink comm n limit i dep s) := by
  induction limit generalizing i dep s with
  | zero => exact ⟨fun _ _ => rfl, rfl, Or.inl ⟨rfl, rfl⟩⟩
  | succ limit ih =>
    have passed : Ends comm n dep s { s with iterPrevent := s.iterPrevent + 1 } :=
      ⟨fun _ _ => rfl, rfl, Or.inl ⟨rfl, rfl⟩⟩
    unfold recursiveCommlink
    dsimp only
    split
    · exact passed
    split
    · exact passed
    generalize start :
      { s with iterPrevent := s.iterPrevent + 1, path := update s.path dep i } = s₀
    have path : ∀ k < dep, s₀.path k = s.path k := fun k small => by
      rw [← start]
      exact update_of_ne small.ne ..
    have here : s₀.path dep = i := by
      rw [← start]
      exact update_self ..
    have rest : s₀.done = s.done ∧ s₀.best = s.best ∧ s₀.bestPath = s.bestPath := by
      rw [← start]
      exact ⟨rfl, rfl, rfl⟩
    rcases n with _ | _ | n
    · exact ⟨path, congrFun rest.1 _, Or.inl rest.2⟩
    · exact ⟨path, congrFun rest.1 _, Or.inl rest.2⟩
    -- the receiver is the last node of the loop
    rw [show n + 1 + 1 - 1 = n + 1 from rfl, range'_1_concat, Nat.add_comm 1 n]
    obtain ⟨s₁, inner, same⟩ := @linkLoop_relays comm (n + 2) dep
      (fun j => recursiveCommlink comm (n + 2) limit j (dep + 1)) i
      (fun j s unmarked => ih j (dep + 1) s unmarked) (List.range' 1 n)
      (fun j member => by have := mem_range'_1.mp member; omega) [n + 2 - 1] s₀
      ((congrFun rest.1 _).trans unmarked)
    show Ends comm (n + 2) dep s (linkLoop comm (n + 2)
      (fun j => recursiveCommlink comm (n + 2) limit j (dep + 1)) i dep
      (List.range' 1 n ++ [n + 2 - 1]) s₀)
    rw [same, linkLoop_receiver]
    have open' : s₁.done (n + 1) = false :=
      inner.open'.trans ((congrFun rest.1 _).trans unmarked)
    have kept : ∀ k < dep, s₁.path k = s.path k := fun k small =>
      (inner.path k (by omega)).trans (path k small)
    rw [show n + 2 - 1 = n + 1 from rfl, open', Bool.not_false, Bool.and_true]
    by_cases heard : comm i (n + 1) = true
    · rw [if_pos heard]
      refine ⟨kept, inner.open'.trans (congrFun rest.1 _), Or.inr (Or.inl ⟨rfl, ?_⟩)⟩
      intro k small
      exact (if_pos small).trans (kept k small)
    · rw [if_neg heard]
      refine ⟨kept, inner.open'.trans (congrFun rest.1 _), ?_⟩
      rcases inner.outcome with ⟨best, path'⟩ | ⟨best, path'⟩ | ⟨deep, unheard⟩
      · exact Or.inl ⟨best.trans rest.2.1, path'.trans rest.2.2⟩
      · refine Or.inr (Or.inr ⟨by omega, ?_⟩)
        rw [best, Nat.add_sub_cancel, path' dep (Nat.lt_succ_self dep), here]
        exact Bool.eq_false_iff.mpr heard
      · exact Or.inr (Or.inr ⟨by omega, unheard⟩)

end Recursive

section Agreement

variable {comm : Nat → Nat → Bool} {n : Nat}

/-- What the searches start with: nothing found, and no node on the path. -/
structure Links.Fresh (n : Nat) (s : Links) : Prop where
  empty : s.best = notFound
  clear : ∀ k < n, s.done k = false

theorem linkFound_iff {s : Links} (fresh : s.Fresh n) (some' : 0 < n) :
    LinkFound comm n s ↔ ¬ ∃ route, IsRoute comm n route := by
  constructor
  · intro link exists'
    have found := link.found.mpr exists'
    have route := (link.shortest found).1
    have same := link.same.2 found
    have ends := @recursive_ends comm n 10001 0 0 { s with iterPrevent := 0 }
      (fresh.clear (n - 1) (by omega))
    have agree : (startRecursive comm n s).best ≠ notFound := link.same.1 ▸ found
    -- the last relay of the answer reaches the receiver
    rw [← same] at route
    rcases ends.outcome with ⟨best, _⟩ | ⟨best, _⟩ | ⟨deep, unheard⟩
    · exact agree (best.trans fresh.empty)
    · have nothing' : (startRecursive comm n s).answer = [] := by
        rw [Links.answer, show (startRecursive comm n s).best = 0 from best]
        rfl
      rw [nothing'] at route
      exact absurd route.sender (by simp)
    · obtain ⟨best, isBest⟩ : ∃ best, (startRecursive comm n s).best = best + 1 :=
        ⟨(startRecursive comm n s).best - 1, by
          have : 0 < (startRecursive comm n s).best := deep
          omega⟩
      have last : (startRecursive comm n s).answer.getLast? =
          some ((startRecursive comm n s).bestPath best) := by
        rw [Links.answer, isBest, range_succ, map_append, map_singleton,
          getLast?_concat]
      have hop := (isChain_append.mp route.hops).2.2 _ last _ rfl
      rw [show (recursiveCommlink comm n 10001 0 0 { s with iterPrevent := 0 }).best - 1 = best from
        by rw [show (recursiveCommlink comm n 10001 0 0 { s with iterPrevent := 0 }).best = best + 1
          from isBest, Nat.add_sub_cancel]] at unheard
      exact Bool.false_ne_true (unheard.symm.trans hop)
  · intro none'
    have rounds : (nonrecursiveCommlink comm n s).best = notFound :=
      rounds_unfound none' 100001 _ fresh.empty fun dep isDepth k small => by
        obtain rfl : 0 = dep := some.inj isDepth
        obtain rfl := Nat.le_zero.mp small
        exact ⟨by simpa using Reach.sender, le_rfl⟩
    have recursive : (startRecursive comm n s).best = notFound :=
      (recursive_unfound none' .sender 10001 0 _).trans fresh.empty
    exact
      { found := ⟨fun found => absurd rounds found, fun exists' => absurd exists' none'⟩
        shortest := fun found => absurd rounds found
        same := ⟨recursive.trans rounds.symm, fun found => absurd rounds found⟩ }

end Agreement

section Nodes

def entries (mechsOnMap : List (Option Mech)) (from' to' : Mech) (freq : Int) : Nat :=
  ((mechsOnMap.reduceOption.filter fun t => Mech.relays from' to' t).map fun t =>
    t.relayChannels freq).sum

theorem commMech_length (mechsOnMap : List (Option Mech)) (from' to' : Mech) (freq : Int) :
    (commMech mechsOnMap from' to' freq).length = entries mechsOnMap from' to' freq + 2 := by
  have middle (units : List Mech) :
      (units.flatMap fun t => if Mech.relays from' to' t then
        List.replicate (t.relayChannels freq) t else []).length =
      ((units.filter fun t => Mech.relays from' to' t).map fun t => t.relayChannels freq).sum := by
    induction units with
    | nil => rfl
    | cons t rest ih =>
      rw [flatMap_cons, length_append, ih, filter_cons]
      split
      · rw [length_replicate, map_cons, sum_cons]
      · rw [length_nil, Nat.zero_add]
  unfold commMech entries
  rw [length_append, length_cons, middle]
  rfl

/-- The searches do what they are for exactly where there is nothing to find, and the
nodes fit into the tables exactly when the relaying channels do. -/
theorem relay_links_iff (mechsOnMap : List (Option Mech)) (from' to' : Mech) (freq : Int) :
    (∀ (comm : Nat → Nat → Bool) (n : Nat) (s : Links), 2 < n → n ≤ maxMechsPerMap → s.Fresh n →
      (LinkFound comm n s ↔ ¬ ∃ route, IsRoute comm n route)) ∧
    ((commMech mechsOnMap from' to' freq).length ≤ maxMechsPerMap ↔
      entries mechsOnMap from' to' freq ≤ 248) := by
  refine ⟨fun comm n s more _ fresh => linkFound_iff fresh (by omega), ?_⟩
  rw [commMech_length, maxMechsPerMap]
  omega

def oneRelay (i j : Nat) : Bool := j = i + 1

def fresh : Links :=
  { done := fun _ => false, path := fun _ => 0, best := notFound, bestPath := fun _ => 0
    iterPrevent := 0 }

def relayStation (mynum : Int) : Mech :=
  { mynum, team := 1, moveNone := true, started := false, destroyed := false, radioType := 31
    freq := fun _ => 5, freqmodes := fun _ => 4 }

/-- A relay hears the sender, and nobody hears the relay. -/
def deadEnd (i j : Nat) : Bool := i = 0 ∧ j = 1

theorem relay_links_silence : LinkFound deadEnd 3 fresh := by
  refine ((relay_links_iff [some (relayStation 3)] (relayStation 1) (relayStation 2) 5).1 _ 3 fresh
    (by decide) (by decide) ⟨rfl, fun _ _ => rfl⟩).mpr ?_
  rintro ⟨route, isRoute⟩
  have some' : route ≠ [] := fun empty => by simpa [empty] using isRoute.sender
  have last := (isChain_append.mp isRoute.hops).2.2 _ (getLast?_eq_some_getLast some') 2 rfl
  simp [deadEnd] at last

/-- With one relay, the answers are the sender and the relay, and the sender alone; and
17 units fill the tables. -/
theorem relay_left_out :
    ((nonrecursiveCommlink oneRelay 3 fresh).answer = [0, 1] ∧
      (startRecursive oneRelay 3 fresh).answer = [0] ∧ ¬ LinkFound oneRelay 3 fresh) ∧
    (commMech ((List.range 17).map fun k => some (relayStation (k + 3))) (relayStation 1)
      (relayStation 2) 5).length = 257 := by
  have stack : (nonrecursiveCommlink oneRelay 3 fresh).answer = [0, 1] := by decide
  have recursive : (startRecursive oneRelay 3 fresh).answer = [0] := by decide
  refine ⟨⟨stack, recursive, fun link => ?_⟩, by decide +kernel⟩
  have found : (nonrecursiveCommlink oneRelay 3 fresh).best ≠ notFound := by decide +kernel
  have same := link.same.2 found
  rw [stack, recursive] at same
  exact absurd same (by decide)

end Nodes

end BattletechMux.Radio
