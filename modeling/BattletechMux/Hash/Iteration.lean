/-
Module: BattletechMux.Hash.Iteration
Purpose: Walks over a hash table of htab.c, by loops whose body takes entries out or looks keys up.
Trusted boundary: free leaves the link of an entry as it was until the next allocation
-/
import BattletechMux.Hash.Refinement

namespace BattletechMux.Hash

open List Option
open LinkedMemory (Chain)

section

open Function (update)

/-- `last_hval` and `last_entry` of a table. -/
structure Cursor where
  hval : Nat
  entry : Addr

section Model

variable {Key Data : Type} (htab : Table Key Data)

def Table.scanFrom : Nat → Nat → Option Cursor
  | 0, _ => none
  | chains + 1, hval =>
    match htab.element hval with
    | some entry => some ⟨hval, entry⟩
    | none => Table.scanFrom chains (hval + 1)

/-- `hash_firstentry`. -/
def hashFirst : Option Cursor := htab.scanFrom htab.hashsize 0

/-- `hash_nextentry`. -/
def hashNext (last : Cursor) : Option Cursor :=
  match htab.next last.entry with
  | some entry => some ⟨last.hval, entry⟩
  | none => htab.scanFrom (htab.hashsize - (last.hval + 1)) (last.hval + 1)

/-- The loop over the entries of a table that is part of a state.  `limit` bounds the loop. -/
def forEntries {State : Type} (table : State → Table Key Data) (body : State → Addr → Option State) :
    Nat → Option Cursor → State → Option State
  | 0, _, _ => none
  | _ + 1, none, s => some s
  | limit + 1, some cursor, s => do
      let s ← body s cursor.entry
      forEntries table body limit (hashNext (table s) cursor) s

end Model

section Proofs

variable {Key Data State : Type} {n : Nat}

def entriesFrom (n : Nat) (chains : Nat → List Addr) (hval : Nat) : List Addr :=
  (List.range' hval (n - hval)).flatMap chains

theorem entriesFrom_step (chains : Nat → List Addr) {hval : Nat} (hin : hval < n) :
    entriesFrom n chains hval = chains hval ++ entriesFrom n chains (hval + 1) := by
  have count : n - hval = (n - (hval + 1)) + 1 := by omega
  rw [entriesFrom, count, range'_succ, flatMap_cons]
  rfl

theorem entriesFrom_congr {chains chains' : Nat → List Addr} {hval : Nat}
    (eq : ∀ i, hval ≤ i → chains' i = chains i) :
    entriesFrom n chains' hval = entriesFrom n chains hval :=
  flatMap_congr fun i mem => eq i (mem_range'_1.mp mem).1

theorem scanFrom_spec {htab : Table Key Data} {chains : Nat → List Addr}
    (chain : ∀ i < n, Chain htab.next (htab.element i) (chains i)) {count hval : Nat}
    (rest : count = n - hval) :
    htab.scanFrom count hval = none ∧ entriesFrom n chains hval = [] ∨
      ∃ i entry after, htab.scanFrom count hval = some ⟨i, entry⟩ ∧ i < n ∧
        chains i = entry :: after ∧
        entriesFrom n chains hval = entry :: after ++ entriesFrom n chains (i + 1) := by
  induction count generalizing hval with
  | zero =>
    refine Or.inl ⟨rfl, ?_⟩
    rw [entriesFrom, ← rest]
    rfl
  | succ count ih =>
    have hin : hval < n := by omega
    have head := (chain hval hin).head_eq
    rw [Table.scanFrom]
    cases here : chains hval with
    | nil =>
      rw [here] at head
      rw [head, entriesFrom_step chains hin, here]
      exact ih (by omega)
    | cons entry after =>
      rw [here] at head
      rw [head]
      exact Or.inr ⟨hval, entry, after, rfl, hin, here, by
        rw [entriesFrom_step chains hin, here]⟩

variable {table : State → Table Key Data} {body : State → Addr → Option State}
  {Good : State → (Nat → List Addr) → Prop}

theorem forEntries_spec
    (h : ∀ {s chains}, Good s chains → (table s).hashsize = n ∧
      ∀ i < n, Chain (table s).next ((table s).element i) (chains i))
    (round : ∀ {s chains i before entry after}, Good s chains → i < n →
      chains i = before ++ entry :: after →
      ∃ s' kept, body s entry = some s' ∧ (table s').next entry = after.head? ∧
        Good s' (update chains i (before ++ kept ++ after)))
    {s : State} {chains : Nat → List Addr} (good : Good s chains) {limit : Nat}
    (hlt : (entriesFrom n chains 0).length < limit) :
    ∃ s' chains', forEntries table body limit (hashFirst (table s)) s = some s' ∧
      Good s' chains' := by
  -- from an entry on, and from a scan for the next chain on
  have both : ∀ limit, (∀ {s chains i before entry after}, Good s chains → i < n →
        chains i = before ++ entry :: after →
        (entry :: after ++ entriesFrom n chains (i + 1)).length < limit →
        ∃ s' chains', forEntries table body limit (some ⟨i, entry⟩) s = some s' ∧ Good s' chains') ∧
      ∀ {s chains hval}, Good s chains → (entriesFrom n chains hval).length < limit →
        ∃ s' chains', forEntries table body limit ((table s).scanFrom (n - hval) hval) s = some s' ∧
          Good s' chains' := by
    intro limit
    induction limit with
    | zero => exact ⟨fun _ _ _ short => absurd short (Nat.not_lt_zero _),
        fun _ short => absurd short (Nat.not_lt_zero _)⟩
    | succ limit ih =>
      have fromEntry : ∀ {s chains i before entry after}, Good s chains → i < n →
          chains i = before ++ entry :: after →
          (entry :: after ++ entriesFrom n chains (i + 1)).length < limit + 1 →
          ∃ s' chains', forEntries table body (limit + 1) (some ⟨i, entry⟩) s = some s' ∧
            Good s' chains' := by
        intro s chains i before entry after good hin split short
        obtain ⟨middle, kept, ran, next, good'⟩ := round good hin split
        have later : entriesFrom n (update chains i (before ++ kept ++ after)) (i + 1) =
            entriesFrom n chains (i + 1) :=
          entriesFrom_congr fun j above => Function.update_of_ne (by omega) ..
        rw [forEntries, ran, bind_eq_bind, bind_some, hashNext]
        dsimp only
        rw [next]
        simp only [cons_append, length_cons, length_append] at short
        cases after with
        | nil =>
          rw [head?_nil, (h good').1]
          exact ih.2 good' (by rw [later]; omega)
        | cons snd more =>
          have split' : update chains i (before ++ kept ++ snd :: more) i =
              (before ++ kept) ++ snd :: more := by simp
          refine ih.1 good' hin split' ?_
          rw [later]
          simp only [cons_append, length_cons, length_append] at short ⊢
          omega
      refine ⟨fromEntry, fun {s chains hval} good short => ?_⟩
      rcases @scanFrom_spec _ _ n (table s) chains (h good).2 (n - hval) hval rfl with
        ⟨none', _⟩ | ⟨i, entry, after, hf, hin, split, entries⟩
      · rw [none']
        exact ⟨s, chains, rfl, good⟩
      · rw [hf]
        rw [entries] at short
        have split' : chains i = [] ++ entry :: after := split
        exact fromEntry good hin split' short
  have start := (both limit).2 good hlt
  rwa [Nat.sub_zero, ← (h good).1] at start

end Proofs

section Deletion

variable {Key Data : Type} {kind : KeyKind Key} {htab : Table Key Data}
  {chains : Nat → List Addr} {contents : Contents Key Data} {i : Nat} {before after : List Addr}
  {hptr : Addr}

theorem Represents.contents_target (held : Represents kind htab chains contents)
    (hin : i < htab.hashsize) (mem : hptr ∈ chains i) :
    contents (htab.target hptr) = some (htab.data hptr) := by
  refine (held.contents _ _).mpr ⟨hptr, ?_, rfl, rfl⟩
  rw [held.hashed i hin hptr mem]
  exact mem

variable [DecidableEq Key]

section

variable (held : Represents kind htab chains contents)
include held

omit [DecidableEq Key] in
theorem Represents.entries_le :
    (entriesFrom htab.hashsize chains 0).length ≤ htab.hashsize * htab.allocated := by
  have bounded : ∀ count start, start + count ≤ htab.hashsize →
      ((List.range' start count).flatMap chains).length ≤ count * htab.allocated := by
    intro count
    induction count with
    | zero => simp
    | succ count ih =>
      intro start hin
      have fst := held.length_le (show start < htab.hashsize by omega)
      have later := ih (start + 1) (by omega)
      rw [range'_succ, flatMap_cons, length_append, Nat.succ_mul]
      omega
  exact bounded _ 0 (by omega)

theorem Represents.delete_at
    (hin : i < htab.hashsize) (split : chains i = before ++ hptr :: after) :
    ∃ htab', htab.delete kind (htab.target hptr) = some htab' ∧
      Represents kind htab' (update chains i (before ++ after))
        (update contents (htab.target hptr) none) ∧
      htab'.next hptr = after.head? ∧ htab'.hashsize = htab.hashsize ∧
      htab'.entries = htab.entries - 1 := by
  have index := held.hashed i hin hptr (by simp [split])
  have chain := held.chain i hin
  have nodup := held.distinct i hin
  have hlt := Nat.le_of_lt (Nat.lt_succ_of_le (held.length_le hin))
  rw [split] at chain hlt nodup
  have notBefore : ∀ o ∈ before, htab.target o ≠ htab.target hptr := by
    intro o earlier eq
    rw [map_append, nodup_append] at nodup
    exact nodup.2.2 _ (mem_map_of_mem earlier) _ (mem_map_of_mem mem_cons_self) eq
  have walked := walk_found rfl notBefore chain hlt none 0
  have next := chain.next_eq_head.head_eq
  refine ⟨(htab.unlink before.getLast? hptr i).deleted i, ?_,
    delete_represents held index split rfl, ?_, ?_, ?_⟩
  · simp only [Table.delete, index, walked, or_none, bind_eq_bind, bind_some]
  · rw [← next]
    cases last : before.getLast? with
    | none => rfl
    | some o =>
      have ne : hptr ≠ o := by
        rintro rfl
        exact notBefore hptr (mem_of_getLast? last) rfl
      exact Function.update_of_ne ne ..
  · cases before.getLast? <;> rfl
  · cases before.getLast? <;> rfl

theorem Represents.delete_key {key : Key} {data : Data} (hf : contents key = some data) :
    ∃ htab' chains', htab.delete kind key = some htab' ∧
      Represents kind htab' chains' (update contents key none) ∧
      htab'.entries = htab.entries - 1 := by
  obtain ⟨entry, mem, rfl, _⟩ := (held.contents key data).mp hf
  obtain ⟨before, after, split⟩ := append_of_mem mem
  obtain ⟨htab', ran, held', _, _, entries⟩ := held.delete_at (held.hval_lt _) split
  exact ⟨htab', _, ran, held', entries⟩

theorem Represents.find_entries (key : Key) :
    ∃ htab' chains', htab.find kind key = some (contents key, htab') ∧
      Represents kind htab' chains' contents ∧ htab'.entries = htab.entries := by
  obtain ⟨htab', chains', ran, looked⟩ := find_represents held key
  refine ⟨htab', chains', ran, looked.represents, ?_⟩
  rw [Table.find] at ran
  obtain ⟨⟨prev, hptr, numchecks⟩, _, ran⟩ := bind_eq_some_iff.mp ran
  cases hptr with
  | none =>
    obtain ⟨-, rfl⟩ := Prod.mk.inj (some.inj ran)
    rfl
  | some hptr =>
    obtain ⟨-, rfl⟩ := Prod.mk.inj (some.inj ran)
    unfold Table.hit
    cases prev with
    | none => rfl
    | some prev =>
      dsimp only
      split <;> rfl

theorem Represents.add_new {key : Key} (missing : contents key = none) (data : Data) :
    ∃ htab' chains', htab.add kind key data = some (0, htab') ∧
      Represents kind htab' chains' (update contents key (some data)) ∧
      htab'.entries = htab.entries + 1 := by
  obtain ⟨htab', chains', ran, held', entries⟩ := held.find_entries key
  refine ⟨_, _, ?_, insert_represents held' data missing rfl, congrArg (· + 1) entries⟩
  simp only [Table.add, ran, missing, bind_eq_bind, bind_some, isSome_none,
    Bool.false_eq_true, if_false]

end

end Deletion

end

open Function (update update_self update_of_ne)
open Machine (calls)

variable {Key Data : Type} [DecidableEq Key] {kind : KeyKind Key}

/-- The key and the data of an entry: what hash_nextkey and hash_nextentry return. -/
def Table.entryOf (htab : Table Key Data) (hptr : Addr) : Key × Data :=
  (htab.target hptr, htab.data hptr)

/-- A table, where a walk over it stands unless it has ended, and what it has returned. -/
structure IterState (Key Data : Type) where
  htab : Table Key Data
  cursor : Option Cursor
  visited : List (Key × Data)

inductive IterOp (Key : Type) where
  | next
  | find (key : Key)
deriving DecidableEq

def IterState.goTo (s : IterState Key Data) (cursor : Option Cursor) : IterState Key Data :=
  { s with
    cursor := cursor
    visited := s.visited ++ (cursor.map fun cursor => s.htab.entryOf cursor.entry).toList }

/-- `hash_firstentry` or `hash_firstkey`. -/
def IterState.first (htab : Table Key Data) : IterState Key Data :=
  IterState.goTo { htab := htab, cursor := none, visited := [] } (hashFirst htab)

/-- `hash_nextentry` or `hash_nextkey`, until it returns NULL; `hashfind` or `nhashfind`. -/
def IterState.step (kind : KeyKind Key) (s : IterState Key Data) :
    IterOp Key → Option (IterState Key Data)
  | .next =>
    match s.cursor with
    | none => some s
    | some last => some (s.goTo (hashNext s.htab last))
  | .find key => (s.htab.find kind key).map fun (_, htab) => { s with htab := htab }

/-- A lookup of the key moves the entry under the cursor, or one behind it, to the front of its
chain. -/
def IterState.disturbs (kind : KeyKind Key) (s : IterState Key Data) : IterOp Key → Bool
  | .next => false
  | .find key =>
    match s.cursor with
    | none => false
    | some last =>
      kind.hval key s.htab.mask == last.hval &&
        match s.htab.walk key (s.htab.allocated + 1) none (some last.entry) 0 with
        | some (_, some hptr, _) =>
          20 ≤ s.htab.entryChecks hptr && s.htab.element last.hval != some hptr
        | _ => false

section Chains

variable {htab htab' : Table Key Data} {chains chains' : Nat → List Addr}
  {contents : Contents Key Data} {key : Key}

/-- A lookup that moves an entry of chain `i` to the front of it. -/
structure Moves (htab : Table Key Data) (chains chains' : Nat → List Addr) (i : Nat)
    (before : List Addr) (hptr : Addr) (after : List Addr) : Prop where
  split : chains i = before ++ hptr :: after
  filled : before ≠ []
  often : 20 ≤ htab.entryChecks hptr
  moved : chains' = update chains i (hptr :: (before ++ after))

omit [DecidableEq Key] in
theorem hit_fields (htab : Table Key Data) (prev : Option Addr) (hptr : Addr) (hval : Nat) :
    (htab.hit prev hptr hval).hashsize = htab.hashsize ∧
      (htab.hit prev hptr hval).entryOf = htab.entryOf := by
  unfold Table.hit
  cases prev with
  | none => exact ⟨rfl, rfl⟩
  | some prev =>
    dsimp only
    split <;> exact ⟨rfl, rfl⟩

theorem find_moves (held : Represents kind htab chains contents) (key : Key) :
    ∃ htab' chains', htab.find kind key = some (contents key, htab') ∧
      Represents kind htab' chains' contents ∧ htab'.hashsize = htab.hashsize ∧
      htab'.entryOf = htab.entryOf ∧
      (chains' = chains ∨ ∃ before hptr after, htab.target hptr = key ∧
        Moves htab chains chains' (kind.hval key htab.mask) before hptr after) := by
  unfold Table.find
  rcases held.locate key with
    ⟨before, hptr, after, split, here, hf, walked⟩ | ⟨missing, _, walked⟩
  · simp only [walked, bind_eq_bind, bind_some, hf]
    have counted : Represents kind
        { htab.counted (before.length + 1) with
          hits := htab.hits + 1
          entryChecks := update htab.entryChecks hptr (htab.entryChecks hptr + 1) }
        chains contents := held.congr rfl rfl rfl rfl rfl rfl rfl rfl rfl
    have chain := held.chain _ (held.hval_lt key)
    rw [split] at chain
    rcases eq_nil_or_concat' before with rfl | ⟨front, prev, rfl⟩
    · refine ⟨_, chains, rfl, ?_, (hit_fields ..).1, (hit_fields ..).2, .inl rfl⟩
      rw [getLast?_nil, none_or, chain.1]
      simpa [Table.hit, Table.counted] using counted
    · by_cases moves : 20 < htab.entryChecks hptr + 1 ∧ hptr ≠ prev
      · refine ⟨_, _, rfl, ?_, (hit_fields ..).1, (hit_fields ..).2,
          .inr ⟨front ++ [prev], hptr, after, here, split, by simp,
            Nat.le_of_lt_succ moves.1, rfl⟩⟩
        have moved := counted.moveToFront (held.hval_lt key) (by simpa using split)
        simpa [Table.hit, Table.counted, moves] using moved
      · refine ⟨_, chains, rfl, ?_, (hit_fields ..).1, (hit_fields ..).2, .inl rfl⟩
        simp only [getLast?_concat, Option.some_or, Table.hit, Table.counted,
          Function.update_self, if_neg moves]
        simpa [Table.counted] using counted
  · obtain ⟨last, numchecks, ran⟩ := walked (htab.element (kind.hval key htab.mask))
    simp only [ran, bind_eq_bind, bind_some, missing]
    exact ⟨_, chains, rfl, held.counted numchecks, rfl, rfl, .inl rfl⟩

end Chains

section Walks

variable {s : IterState Key Data} {contents : Contents Key Data} {seen rest : List Addr}

/-- The walk has returned the entries `seen`, and `rest` are those it goes to from here. -/
structure Stands (kind : KeyKind Key) (contents : Contents Key Data) (s : IterState Key Data)
    (chains : Nat → List Addr) (seen rest : List Addr) : Prop where
  represents : Represents kind s.htab chains contents
  visited : s.visited = seen.map s.htab.entryOf
  all : (seen ++ rest).Perm (entriesFrom s.htab.hashsize chains 0)
  here : match s.cursor with
    | none => rest = []
    | some last => ∃ before after, last.hval < s.htab.hashsize ∧
        chains last.hval = before ++ last.entry :: after ∧
        rest = after ++ entriesFrom s.htab.hashsize chains (last.hval + 1)

variable {chains : Nat → List Addr}

theorem entriesFrom_perm {n hval : Nat} {chains' : Nat → List Addr}
    (perm : ∀ i, (chains' i).Perm (chains i)) :
    (entriesFrom n chains' hval).Perm (entriesFrom n chains hval) :=
  Perm.flatMap_left _ fun i _ => perm i

omit [DecidableEq Key] in
theorem stands_scan (represents : Represents kind s.htab chains contents)
    (visited : s.visited = seen.map s.htab.entryOf) {hval : Nat}
    (all : (seen ++ entriesFrom s.htab.hashsize chains hval).Perm
      (entriesFrom s.htab.hashsize chains 0)) {count : Nat}
    (left : count = s.htab.hashsize - hval) :
    (entriesFrom s.htab.hashsize chains hval = [] ∧ s.htab.scanFrom count hval = none ∧
        Stands kind contents (s.goTo none) chains seen []) ∨
      ∃ last rest', s.htab.scanFrom count hval = some last ∧
        entriesFrom s.htab.hashsize chains hval = last.entry :: rest' ∧
        Stands kind contents (s.goTo (some last)) chains (seen ++ [last.entry]) rest' := by
  rcases scanFrom_spec represents.chain left with
    ⟨ended, none'⟩ | ⟨i, entry, after, hf, hin, split, entries⟩
  · rw [none'] at all
    exact .inl ⟨none', ended, represents, by simp [IterState.goTo, visited], all, rfl⟩
  · refine .inr ⟨⟨i, entry⟩, _, hf, entries, represents, by simp [IterState.goTo, visited], ?_,
      [], after, hin, split, rfl⟩
    rw [entries] at all
    simpa [IterState.goTo] using all

section

variable (stands : Stands kind contents s chains seen rest)
include stands

omit [DecidableEq Key] in
theorem next_stands {last : Cursor} (cursor : s.cursor = some last) :
    (rest = [] ∧ Stands kind contents (s.goTo (hashNext s.htab last)) chains seen [] ∧
        hashNext s.htab last = none) ∨
      ∃ x rest', rest = x :: rest' ∧
        Stands kind contents (s.goTo (hashNext s.htab last)) chains (seen ++ [x]) rest' := by
  have here := stands.here
  rw [cursor] at here
  obtain ⟨before, after, hin, split, left⟩ := here
  have chain := stands.represents.chain _ hin
  rw [split] at chain
  have next := chain.next_eq_head.head_eq
  have all := stands.all
  rw [hashNext, next]
  cases after with
  | nil =>
    rw [nil_append] at left
    rw [left] at all ⊢
    rcases stands_scan stands.represents stands.visited all rfl with
      ⟨none', ended, stands'⟩ | ⟨last', rest', hf, entries, stands'⟩
    · exact .inl ⟨none', by simpa [ended] using stands', ended⟩
    · exact .inr ⟨last'.entry, rest', entries, by simpa [hf] using stands'⟩
  | cons snd after =>
    refine .inr ⟨snd, _, left, stands.represents, by simp [IterState.goTo, stands.visited],
      ?_, before ++ [last.entry], after, hin, by simp [split], rfl⟩
    rw [left] at all
    simpa [IterState.goTo] using all

theorem find_stands {key : Key} (quiet : s.disturbs kind (.find key) = false) :
    ∃ s' chains' rest', s.step kind (.find key) = some s' ∧
      Stands kind contents s' chains' seen rest' ∧ rest'.Perm rest ∧ s'.cursor = s.cursor := by
  obtain ⟨htab', chains', ran, held, size, fields, moves⟩ := find_moves stands.represents key
  have perm : ∀ i, (chains' i).Perm (chains i) := by
    rcases moves with rfl | ⟨before, hptr, after, -, moves⟩
    · exact fun i => List.Perm.refl _
    · intro i
      rw [moves.moved]
      by_cases eq : i = kind.hval key s.htab.mask
      · rw [eq, update_self, moves.split]
        exact perm_middle.symm
      · rw [update_of_ne eq]
  have visited : s.visited = seen.map htab'.entryOf := fields ▸ stands.visited
  have here := stands.here
  refine ⟨{ s with htab := htab' }, chains', ?_⟩
  suffices later : ∃ rest', rest'.Perm rest ∧ (match s.cursor with
      | none => rest' = []
      | some last => ∃ before after, last.hval < htab'.hashsize ∧
          chains' last.hval = before ++ last.entry :: after ∧
          rest' = after ++ entriesFrom htab'.hashsize chains' (last.hval + 1)) by
    obtain ⟨rest', eq, here'⟩ := later
    refine ⟨rest', by rw [IterState.step, ran]; rfl, ⟨held, visited, ?_, here'⟩, eq, rfl⟩
    exact ((eq.append_left seen).trans stands.all).trans (size ▸ (entriesFrom_perm perm).symm)
  cases cursor : s.cursor with
  | none =>
    rw [cursor] at here
    exact ⟨[], here ▸ List.Perm.refl _, rfl⟩
  | some last =>
    rw [cursor] at here
    obtain ⟨before, after, hin, split, left⟩ := here
    rw [left, size]
    have later := @entriesFrom_perm chains s.htab.hashsize (last.hval + 1) chains' perm
    suffices stays : ∃ before', chains' last.hval = before' ++ last.entry :: after by
      obtain ⟨before', split'⟩ := stays
      exact ⟨_, later.append_left after, before', after, hin, split', rfl⟩
    rcases moves with rfl | ⟨front, hptr, back, target, moves⟩
    · exact ⟨before, split⟩
    · by_cases chain : last.hval = kind.hval key s.htab.mask
      · -- the entry that is moved is one that the walk has passed
        have linked := stands.represents.chain _ hin
        have nodup := stands.represents.nodup hin
        have passed : hptr ∈ before := by
          by_contra ahead
          have mem : hptr ∈ last.entry :: after := by
            have both : hptr ∈ chains last.hval := by rw [chain, moves.split]; simp
            rw [split, mem_append] at both
            exact both.resolve_left ahead
          obtain ⟨skipped, left', split'⟩ := append_of_mem mem
          have ahead' : Chain s.htab.next (some last.entry) (skipped ++ hptr :: left') := by
            rw [split] at linked
            exact split' ▸ ⟨rfl, linked.next_eq_head⟩
          rw [split, split'] at nodup
          have notBefore : ∀ o ∈ skipped, s.htab.target o ≠ key := by
            intro o early eq
            have distinct := stands.represents.distinct _ hin
            rw [split, split'] at distinct
            have equal := inj_on_of_nodup_map distinct (x := o) (by simp [early])
              (y := hptr) (by simp) (eq.trans target.symm)
            subst equal
            exact (nodup_append.mp (nodup_append.mp nodup).2.1).2.2 o early o
              mem_cons_self rfl
          have short : (skipped ++ hptr :: left').length ≤ s.htab.allocated + 1 := by
            have length := stands.represents.length_le hin
            rw [split, split', length_append] at length
            omega
          have walked := walk_found target notBefore ahead' short none 0
          have notFirst : s.htab.element last.hval ≠ some hptr := by
            rw [chain, (stands.represents.chain _ (chain ▸ hin)).head_eq, moves.split]
            have nodup' := stands.represents.nodup (chain ▸ hin)
            rw [moves.split] at nodup'
            cases front with
            | nil => exact absurd rfl moves.filled
            | cons fst front =>
              intro eq
              obtain rfl : fst = hptr := by simpa using eq
              simp at nodup'
          rw [IterState.disturbs, cursor] at quiet
          simp [chain.symm, walked, moves.often, notFirst] at quiet
        have erased := LinkedMemory.erase_of_eq_append nodup (chain ▸ moves.split)
        rw [split, erase_append_left _ passed] at erased
        rw [moves.moved, chain, update_self, ← erased]
        exact ⟨hptr :: before.erase hptr, rfl⟩
      · rw [moves.moved, update_of_ne chain]
        exact ⟨before, split⟩

theorem run_stands {ops : List (IterOp Key)}
    (quiet : Machine.Guarded (IterState.step kind) (fun s op => s.disturbs kind op = false) s ops) :
    ∃ s' chains' seen' rest', Machine.run (IterState.step kind) s ops = some s' ∧
      Stands kind contents s' chains' seen' rest' ∧ (s.cursor = none → s'.cursor = none) ∧
      (s'.cursor = none ∨ rest'.length + ops.count .next = rest.length) := by
  induction ops generalizing s chains seen rest with
  | nil => exact ⟨s, chains, seen, rest, rfl, stands, id, .inr rfl⟩
  | cons op ops ih =>
    cases op with
    | find key =>
      obtain ⟨middle, chains₁, rest₁, stepped, stands₁, perm, cursor⟩ :=
        find_stands stands quiet.1
      obtain ⟨s', chains', seen', rest', ran, stands', ended, ends⟩ :=
        ih stands₁ (quiet.2 _ stepped)
      rw [perm.length_eq] at ends
      rw [cursor] at ended
      exact ⟨s', chains', seen', rest', by rw [Machine.run, stepped]; exact ran, stands', ended,
        by simpa using ends⟩
    | next =>
      cases cursor : s.cursor with
      | none =>
        have stepped : s.step kind .next = some s := by rw [IterState.step, cursor]
        obtain ⟨s', chains', seen', rest', ran, stands', ended, -⟩ := ih stands (quiet.2 _ stepped)
        exact ⟨s', chains', seen', rest', by rw [Machine.run, stepped]; exact ran, stands',
          fun _ => ended cursor, .inl (ended cursor)⟩
      | some last =>
        have stepped : s.step kind .next = some (s.goTo (hashNext s.htab last)) := by
          rw [IterState.step, cursor]
        rcases next_stands stands cursor with
          ⟨-, stands₁, none'⟩ | ⟨x, rest₁, split, stands₁⟩
        · obtain ⟨s', chains', seen', rest', ran, stands', ended, -⟩ :=
            ih stands₁ (quiet.2 _ stepped)
          exact ⟨s', chains', seen', rest', by rw [Machine.run, stepped]; exact ran, stands',
            fun none' => absurd none' (by simp), .inl (ended none')⟩
        · obtain ⟨s', chains', seen', rest', ran, stands', -, ends⟩ := ih stands₁ (quiet.2 _ stepped)
          refine ⟨s', chains', seen', rest', by rw [Machine.run, stepped]; exact ran, stands',
            fun none' => absurd none' (by simp), ends.imp_right fun length => ?_⟩
          rw [split, length_cons, ← length, count_cons_self]
          omega

omit [DecidableEq Key] in
theorem Stands.member {hptr : Addr} :
    hptr ∈ seen ++ rest ↔ ∃ i < s.htab.hashsize, hptr ∈ chains i := by
  rw [stands.all.mem_iff]
  simp [entriesFrom, mem_range'_1]

omit [DecidableEq Key] in
theorem Stands.sound :
    (s.visited.map Prod.fst).Nodup ∧ ∀ entry ∈ s.visited, contents entry.1 = some entry.2 := by
  rw [stands.visited, List.map_map]
  constructor
  · have all : ((entriesFrom s.htab.hashsize chains 0).map s.htab.target).Nodup := by
      rw [entriesFrom, List.map_flatMap, List.nodup_flatMap]
      refine ⟨fun i hin => stands.represents.distinct i
        (by simpa using (mem_range'_1.mp hin).2), ?_⟩
      refine Nodup.pairwise_of_forall_ne nodup_range' ?_
      intro i hin j hin' ne key here there
      obtain ⟨hptr, mem, rfl⟩ := mem_map.mp here
      obtain ⟨o, member', eq⟩ := mem_map.mp there
      have hashed := stands.represents.hashed i (by simpa using hin) hptr mem
      rw [← eq, stands.represents.hashed j (by simpa using hin') o member'] at hashed
      exact ne hashed.symm
    have both := ((stands.all.map s.htab.target).nodup_iff).mpr all
    rw [map_append] at both
    exact (nodup_append.mp both).1
  · intro entry mem
    obtain ⟨hptr, seen', rfl⟩ := mem_map.mp mem
    obtain ⟨i, hin, here⟩ := stands.member.mp (mem_append_left rest seen')
    exact (stands.represents.contents _ _).mpr ⟨hptr,
      (stands.represents.hashed i hin hptr here).symm ▸ here, rfl, rfl⟩

omit [DecidableEq Key] in
theorem Stands.complete
    (ended : s.cursor = none) {key : Key} {data : Data} (held : contents key = some data) :
    (key, data) ∈ s.visited := by
  have none' := stands.here
  rw [ended] at none'
  subst none'
  obtain ⟨hptr, here, rfl, rfl⟩ := (stands.represents.contents key data).mp held
  rw [stands.visited]
  refine mem_map.mpr ⟨hptr, ?_, rfl⟩
  rw [← append_nil seen]
  refine stands.member.mpr ⟨_, ?_, here⟩
  exact stands.represents.hval_lt _

end

end Walks

/-- Over the table that any calls leave, a walk that no lookup disturbs returns every key with its
data once, whatever is looked up between its steps, and ends when it has returned them all. -/
theorem iteration_visits {Data : Type} (size : Int) (new : Table CString Data)
    (calls' : List (Op CString Data)) :
    ∃ results htab, calls hashStep (new.init size) calls' = some (results, htab) ∧
      ∀ ops, Machine.Guarded (IterState.step stringKeys)
          (fun s op => s.disturbs stringKeys op = false) (IterState.first htab) ops →
        ∃ s, Machine.run (IterState.step stringKeys) (IterState.first htab) ops = some s ∧
          (s.visited.map Prod.fst).Nodup ∧
          (∀ entry ∈ s.visited, (Contents.calls (fun _ => none) calls').2 entry.1 = some entry.2) ∧
          (s.cursor = none → ∀ key data, (Contents.calls (fun _ => none) calls').2 key = some data →
            (key, data) ∈ s.visited) ∧
          (htab.entries ≤ ops.count .next → s.cursor = none) := by
  obtain ⟨htab, chains, ran, held⟩ :=
    calls_represents (@init_represents _ _ stringKeys new size) calls'
  rw [← hashStep_eq] at ran
  refine ⟨_, htab, ran, fun ops quiet => ?_⟩
  have count : htab.entries = (entriesFrom htab.hashsize chains 0).length := by
    rw [held.entries, entriesFrom, Nat.sub_zero, range_eq_range']
  -- the walk stands on the first entry, or there is none
  rcases @stands_scan _ _ stringKeys ⟨htab, none, []⟩ _ [] chains held rfl 0 (List.Perm.refl _)
      htab.hashsize rfl with ⟨none', ended, stands⟩ | ⟨last, rest, found, entries, stands⟩
  · rw [← ended] at stands
    obtain ⟨s, chains', seen, rest, ran', stands', ends, -⟩ := run_stands stands quiet
    exact ⟨s, ran', stands'.sound.1, stands'.sound.2, fun done _ _ => stands'.complete done,
      fun _ => ends ended⟩
  · rw [← found] at stands
    obtain ⟨s, chains', seen, rest', ran', stands', -, left⟩ := run_stands stands quiet
    refine ⟨s, ran', stands'.sound.1, stands'.sound.2, fun done _ _ => stands'.complete done,
      fun enough => left.resolve_right fun length => ?_⟩
    rw [count, entries, length_cons] at enough
    omega

theorem iteration_visits_two :
    ∃ results htab, calls hashStep (Table.blank.init 1) [.add [97] 1, .add [98] 2] =
      some (results, htab) ∧ ∃ s, Machine.run (IterState.step stringKeys) (IterState.first htab)
        [.next, .next] = some s ∧ (s.visited.map Prod.fst).Nodup := by
  obtain ⟨results, htab, called, walk⟩ :=
    @iteration_visits Nat 1 Table.blank [.add [97] 1, .add [98] 2]
  obtain ⟨s, ran, once, -⟩ := walk [.next, .next] ⟨rfl, fun _ _ => ⟨rfl, fun _ _ => trivial⟩⟩
  exact ⟨results, htab, called, s, ran, once⟩

/-- The calls that add two keys to one chain and look one of them up until it is about to move. -/
def crowded : List (Op CString Nat) :=
  .add [97] 1 :: .add [98] 2 :: List.replicate 20 (.find [97])

theorem iteration_skips :
    (Contents.calls (fun _ => none) crowded).2 [97] = some 1 ∧
    ((calls hashStep (Table.blank.init 1) crowded).bind fun left =>
      (Machine.run (IterState.step stringKeys) (IterState.first left.2) [.find [97], .next]).map
        fun s => (s.cursor.isNone, s.visited)) = some (true, [([98], 2)]) := by
  decide

end BattletechMux.Hash
