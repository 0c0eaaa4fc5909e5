/-
Module: BattletechMux.Hash.Refinement
Purpose: A hash table is a finite map. Its chains hold each key once, where the hash value says;
  lookups may reorder them, and every call keeps map, chains and counts in step.
-/
import BattletechMux.Hash.Table

namespace BattletechMux.Hash

open List Option

open LinkedMemory (Chain)
open Machine (calls calls_cons)
open Function (update update_self update_of_ne)

abbrev Contents (Key Data : Type) := Key → Option Data

section Contents

variable {Key Data : Type} [DecidableEq Key]

def Contents.step (contents : Contents Key Data) :
    Op Key Data → Result Data × Contents Key Data
  | .find key => (.data (contents key), contents)
  | .add key data =>
    if (contents key).isSome then (.code (-1), contents)
    else (.code 0, update contents key (some data))
  | .delete key => (.void, update contents key none)
  | .flush _ => (.void, fun _ => none)
  | .repl key data =>
    if (contents key).isSome then (.code 1, update contents key (some data))
    else (.code 0, contents)

end Contents

section Counting

variable {α : Type}

theorem length_flatMap_update (chains : Nat → List α) (i : Nat) (cells : List α) (n : Nat) :
    ((List.range n).flatMap (update chains i cells)).length +
    (if i < n then (chains i).length else 0) =
      ((List.range n).flatMap chains).length + (if i < n then cells.length else 0) := by
  induction n with
  | zero => rfl
  | succ n ih =>
    rw [range_succ, flatMap_append, flatMap_append, length_append,
      length_append, flatMap_singleton, flatMap_singleton]
    rcases Nat.lt_trichotomy i n with before | rfl | after
    · rw [update_of_ne (Nat.ne_of_gt before)]
      simp only [before, Nat.lt_succ_of_lt before, if_true] at ih ⊢
      omega
    · rw [update_self]
      simp only [Nat.lt_irrefl, Nat.lt_succ_self, if_true, if_false] at ih ⊢
      omega
    · rw [update_of_ne (Nat.ne_of_lt after)]
      have no : ¬ i < n := by omega
      have noMore : ¬ i < n + 1 := by omega
      simp only [no, noMore, if_false] at ih ⊢
      omega

theorem countP_empty_update (chains : Nat → List α) (i : Nat) (cells : List α) (n : Nat) :
    ((List.range n).countP fun j => (update chains i cells j).isEmpty) +
        (if i < n ∧ (chains i).isEmpty then 1 else 0) =
      ((List.range n).countP fun j => (chains j).isEmpty) +
        (if i < n ∧ cells.isEmpty then 1 else 0) := by
  induction n with
  | zero => simp
  | succ n ih =>
    rw [range_succ, countP_append, countP_append, countP_singleton,
      countP_singleton]
    rcases Nat.lt_trichotomy i n with before | rfl | after
    · rw [update_of_ne (Nat.ne_of_gt before)]
      simp only [before, Nat.lt_succ_of_lt before, true_and] at ih ⊢
      omega
    · rw [update_self]
      simp only [Nat.lt_irrefl, Nat.lt_succ_self, true_and, false_and, if_false]
        at ih ⊢
      omega
    · rw [update_of_ne (Nat.ne_of_lt after)]
      have no : ¬ i < n := by omega
      have noMore : ¬ i < n + 1 := by omega
      simp only [no, noMore, false_and, if_false] at ih ⊢
      omega

end Counting

variable {Key Data : Type} {kind : KeyKind Key} {htab htab' : Table Key Data}
  {chains : Nat → List Addr} {contents : Contents Key Data}

/-- The chains are linked lists of entries, each where its key says and with a key of
its own; the counts count them, and the map is what they hold. -/
structure Represents (kind : KeyKind Key) (htab : Table Key Data) (chains : Nat → List Addr)
    (contents : Contents Key Data) : Prop where
  mask : htab.mask + 1 = htab.hashsize
  chain : ∀ i < htab.hashsize, Chain htab.next (htab.element i) (chains i)
  hashed : ∀ i < htab.hashsize, ∀ hptr ∈ chains i, kind.hval (htab.target hptr) htab.mask = i
  distinct : ∀ i < htab.hashsize, ((chains i).map htab.target).Nodup
  below : ∀ i < htab.hashsize, ∀ hptr ∈ chains i, hptr < htab.allocated
  entries : htab.entries = ((List.range htab.hashsize).flatMap chains).length
  nulls : htab.nulls = ((List.range htab.hashsize).countP fun i => (chains i).isEmpty)
  contents : ∀ key data, contents key = some data ↔
    ∃ hptr ∈ chains (kind.hval key htab.mask), htab.target hptr = key ∧ htab.data hptr = data

variable {hptr : Addr} {key : Key} {before after : List Addr}

namespace Represents

section

variable (held : Represents kind htab chains contents)
include held

theorem hval_lt (key : Key) : kind.hval key htab.mask < htab.hashsize := by
  rw [← held.mask]
  exact Nat.lt_succ_of_le (kind.hval_le key htab.mask)

theorem apart {i j : Nat} {hptr : Addr}
    (inside : i < htab.hashsize) (insideToo : j < htab.hashsize) (here : hptr ∈ chains i)
    (there : hptr ∈ chains j) : i = j :=
  (held.hashed i inside hptr here).symm.trans (held.hashed j insideToo hptr there)

theorem nodup {i : Nat} (inside : i < htab.hashsize) : (chains i).Nodup :=
  (held.chain i inside).nodup

theorem length_le {i : Nat} (inside : i < htab.hashsize) : (chains i).length ≤ htab.allocated :=
  LinkedMemory.length_le_of_lt (held.nodup inside) (held.below i inside)

theorem congr (mask : htab'.mask = htab.mask)
    (hashsize : htab'.hashsize = htab.hashsize) (element : htab'.element = htab.element)
    (next : htab'.next = htab.next) (target : htab'.target = htab.target)
    (data : htab'.data = htab.data) (allocated : htab'.allocated = htab.allocated)
    (entries : htab'.entries = htab.entries) (nulls : htab'.nulls = htab.nulls) :
    Represents kind htab' chains contents where
  mask := by rw [mask, hashsize, held.mask]
  chain := by rw [hashsize, next, element]; exact held.chain
  hashed := by rw [hashsize, target, mask]; exact held.hashed
  distinct := by rw [hashsize, target]; exact held.distinct
  below := by rw [hashsize, allocated]; exact held.below
  entries := by rw [hashsize, entries]; exact held.entries
  nulls := by rw [hashsize, nulls]; exact held.nulls
  contents := by rw [mask, target, data]; exact held.contents

theorem counted (numchecks : Nat) : Represents kind (htab.counted numchecks) chains contents :=
  held.congr rfl rfl rfl rfl rfl rfl rfl rfl rfl

end

end Represents

structure Rechained (kind : KeyKind Key) (htab htab' : Table Key Data) (chains : Nat → List Addr)
    (i : Nat) (cells : List Addr) (contents contents' : Contents Key Data) : Prop where
  inside : i < htab.hashsize
  mask : htab'.mask = htab.mask
  hashsize : htab'.hashsize = htab.hashsize
  here : Chain htab'.next (htab'.element i) cells
  others : ∀ j < htab.hashsize, j ≠ i → Chain htab'.next (htab'.element j) (chains j)
  fields : ∀ j < htab.hashsize, j ≠ i → ∀ hptr ∈ chains j,
    htab'.target hptr = htab.target hptr ∧ htab'.data hptr = htab.data hptr
  hashed : ∀ hptr ∈ cells, kind.hval (htab'.target hptr) htab.mask = i
  distinct : (cells.map htab'.target).Nodup
  below : ∀ hptr ∈ cells, hptr < htab'.allocated
  grown : htab.allocated ≤ htab'.allocated
  entries : htab'.entries + (chains i).length = htab.entries + cells.length
  nulls : htab'.nulls + (if (chains i).isEmpty then 1 else 0) =
    htab.nulls + if cells.isEmpty then 1 else 0
  elsewhere : ∀ key, kind.hval key htab.mask ≠ i → contents' key = contents key
  contents : ∀ key data, kind.hval key htab.mask = i →
    (contents' key = some data ↔ ∃ hptr ∈ cells, htab'.target hptr = key ∧ htab'.data hptr = data)

namespace Represents

section

variable (held : Represents kind htab chains contents)
include held

theorem rechain {i : Nat} {cells : List Addr} {contents' : Contents Key Data}
    (change : Rechained kind htab htab' chains i cells contents contents') :
    Represents kind htab' (update chains i cells) contents' := by
  have inside := change.inside
  have targets : ∀ j < htab.hashsize, j ≠ i →
      (chains j).map htab'.target = (chains j).map htab.target := fun j insideToo ne =>
    map_congr_left fun hptr there => (change.fields j insideToo ne hptr there).1
  refine ⟨?_, ?_, ?_, ?_, ?_, ?_, ?_, ?_⟩
  · rw [change.mask, change.hashsize, held.mask]
  · intro j insideToo
    rw [change.hashsize] at insideToo
    by_cases eq : j = i
    · rw [eq, update_self]
      exact change.here
    · rw [update_of_ne eq]
      exact change.others j insideToo eq
  · intro j insideToo hptr there
    rw [change.hashsize] at insideToo
    rw [change.mask]
    by_cases eq : j = i
    · rw [eq, update_self] at there
      rw [eq]
      exact change.hashed hptr there
    · rw [update_of_ne eq] at there
      rw [(change.fields j insideToo eq hptr there).1]
      exact held.hashed j insideToo hptr there
  · intro j insideToo
    rw [change.hashsize] at insideToo
    by_cases eq : j = i
    · rw [eq, update_self]
      exact change.distinct
    · rw [update_of_ne eq, targets j insideToo eq]
      exact held.distinct j insideToo
  · intro j insideToo hptr there
    rw [change.hashsize] at insideToo
    by_cases eq : j = i
    · rw [eq, update_self] at there
      exact change.below hptr there
    · rw [update_of_ne eq] at there
      exact Nat.lt_of_lt_of_le (held.below j insideToo hptr there) change.grown
  · have lengths := length_flatMap_update chains i cells htab.hashsize
    rw [if_pos inside, if_pos inside] at lengths
    have before := held.entries
    have counted := change.entries
    rw [change.hashsize]
    omega
  · have empties := countP_empty_update chains i cells htab.hashsize
    simp only [inside, true_and] at empties
    have before := held.nulls
    have counted := change.nulls
    rw [change.hashsize]
    split_ifs at counted empties <;> omega
  · intro key data
    rw [change.mask]
    by_cases eq : kind.hval key htab.mask = i
    · rw [eq, update_self]
      exact change.contents key data eq
    · rw [update_of_ne eq, change.elsewhere key eq, held.contents key data]
      apply exists_congr
      intro hptr
      apply and_congr_right
      intro there
      obtain ⟨target, held'⟩ := change.fields _ (held.hval_lt key) eq hptr there
      rw [target, held']

theorem permute {i : Nat} {cells : List Addr}
    (inside : i < htab.hashsize) (perm : cells.Perm (chains i))
    {next : Addr → Option Addr} {element : Nat → Option Addr} (here : Chain next (element i) cells)
    (others : ∀ j < htab.hashsize, j ≠ i → Chain next (element j) (chains j)) :
    Represents kind { htab with next, element } (update chains i cells) contents := by
  have empty : cells.isEmpty = (chains i).isEmpty := by
    rw [Bool.eq_iff_iff, isEmpty_iff_length_eq_zero, isEmpty_iff_length_eq_zero,
      perm.length_eq]
  apply held.rechain
  exact {
    inside := inside
    mask := rfl
    hashsize := rfl
    here := here
    others := others
    fields := fun _ _ _ _ _ => ⟨rfl, rfl⟩
    hashed := fun hptr there => held.hashed i inside hptr (perm.mem_iff.mp there)
    distinct := (perm.map htab.target).nodup_iff.mpr (held.distinct i inside)
    below := fun hptr there => held.below i inside hptr (perm.mem_iff.mp there)
    grown := Nat.le_refl _
    entries := by rw [perm.length_eq]
    nulls := by rw [empty]
    elsewhere := fun _ _ => rfl
    contents := fun key data eq => by
      rw [held.contents key data, eq]
      exact exists_congr fun hptr => and_congr_left' perm.mem_iff.symm }

theorem moveToFront {i : Nat}
    (inside : i < htab.hashsize) {front after : List Addr} {prev hptr : Addr}
    (split : chains i = front ++ prev :: hptr :: after) :
    Represents kind (htab.moveToFront prev hptr i)
      (update chains i (hptr :: (front ++ prev :: after))) contents := by
  have perm : (hptr :: (front ++ prev :: after)).Perm (chains i) := by
    have swap : (front ++ prev :: hptr :: after) = front ++ [prev] ++ hptr :: after := by simp
    rw [split, swap]
    refine (Perm.of_eq ?_).trans perm_middle.symm
    simp
  have chain := held.chain i inside
  rw [split] at chain
  have fresh : hptr ∉ front ++ prev :: after :=
    (nodup_cons.mp ((perm.nodup_iff).mpr (held.nodup inside))).1
  let next := update (update htab.next prev (htab.next hptr)) hptr (htab.element i)
  let element := update htab.element i (some hptr)
  have here : Chain next (element i) (hptr :: (front ++ prev :: after)) := by
    have pushed := chain.skip.push fresh
    rwa [show element i = some hptr from update_self ..]
  have others : ∀ j < htab.hashsize, j ≠ i → Chain next (element j) (chains j) := by
    intro j insideToo ne
    have elsewhere : ∀ cell ∈ chains i, cell ∉ chains j := fun cell inThis inThat =>
      ne (held.apart insideToo inside inThat inThis)
    have unchanged : element j = htab.element j := update_of_ne ne ..
    rw [unchanged]
    exact ((held.chain j insideToo).update_of_notMem
      (elsewhere prev (by simp [split]))).update_of_notMem (elsewhere hptr (by simp [split]))
  have moved := held.permute inside perm here others
  exact moved.congr rfl rfl rfl rfl rfl rfl rfl rfl rfl

end

end Represents

/-- The table after a lookup: the same map, each chain with the same entries. -/
structure Looked (kind : KeyKind Key) (htab' : Table Key Data) (chains chains' : Nat → List Addr)
    (contents : Contents Key Data) : Prop where
  represents : Represents kind htab' chains' contents
  perm : ∀ i, (chains' i).Perm (chains i)

theorem Represents.looked (held : Represents kind htab chains contents) :
    Looked kind htab chains chains contents := ⟨held, fun _ => List.Perm.refl _⟩

variable {i : Nat}

theorem hit_represents (held : Represents kind htab chains contents) (inside : i < htab.hashsize)
    (split : chains i = before ++ hptr :: after) :
    ∃ chains', Looked kind (htab.hit (before.getLast?.or (htab.element i)) hptr i) chains chains'
      contents := by
  have chain := held.chain i inside
  rw [split] at chain
  have counted : Represents kind
      { htab with
        hits := htab.hits + 1
        entryChecks := update htab.entryChecks hptr (htab.entryChecks hptr + 1) }
      chains contents := held.congr rfl rfl rfl rfl rfl rfl rfl rfl rfl
  unfold Table.hit
  rcases eq_nil_or_concat before with rfl | ⟨front, prev, rfl⟩
  · -- the first entry of its chain stays there
    rw [getLast?_nil, none_or, chain.1]
    simp only [ne_eq, not_true_eq_false, and_false, if_false]
    exact ⟨chains, counted.looked⟩
  · rw [concat_eq_append, getLast?_concat]
    simp only [some_or]
    split
    · refine ⟨update chains i (hptr :: (front ++ prev :: after)), ?_, fun j => ?_⟩
      · exact counted.moveToFront inside (by simpa using split)
      · by_cases eq : j = i
        · rw [eq, update_self, split]
          have swap : front.concat prev ++ hptr :: after = front ++ [prev] ++ hptr :: after := by
            simp
          rw [swap]
          exact (Perm.of_eq (by simp)).trans perm_middle.symm
        · rw [update_of_ne eq]
    · exact ⟨chains, counted.looked⟩

theorem unlink_chain (held : Represents kind htab chains contents)
    (inside : i < htab.hashsize) (split : chains i = before ++ hptr :: after) :
    Chain (htab.unlink before.getLast? hptr i).next ((htab.unlink before.getLast? hptr i).element i)
        (before ++ after) ∧
      ∀ j < htab.hashsize, j ≠ i → Chain (htab.unlink before.getLast? hptr i).next
        ((htab.unlink before.getLast? hptr i).element j) (chains j) := by
  have chain := held.chain i inside
  rw [split] at chain
  rcases eq_nil_or_concat before with rfl | ⟨front, last, rfl⟩
  · simp only [Table.unlink, getLast?_nil, update_self]
    refine ⟨chain.2, fun j insideToo ne => ?_⟩
    rw [update_of_ne ne]
    exact held.chain j insideToo
  · simp only [Table.unlink, concat_eq_append, getLast?_concat]
    rw [concat_eq_append, append_assoc] at chain
    refine ⟨?_, fun j insideToo ne => ?_⟩
    · rw [append_assoc]
      exact chain.skip
    · refine (held.chain j insideToo).update_of_notMem fun there => ne ?_
      exact held.apart insideToo inside there (by simp [split])

theorem empty_represents (mask : htab.mask + 1 = htab.hashsize)
    (empty : ∀ i < htab.hashsize, htab.element i = none) (entries : htab.entries = 0)
    (nulls : htab.nulls = htab.hashsize) :
    Represents kind htab (fun _ => []) (fun _ => none) where
  mask := mask
  chain := empty
  hashed _ _ _ none' := absurd none' not_mem_nil
  distinct _ _ := nodup_nil
  below _ _ _ none' := absurd none' not_mem_nil
  entries := by rw [entries]; simp
  nulls := by rw [nulls]; simp
  contents key data := by simp

theorem doubled_pos (size : Int) (limit tsize : Nat) (pos : 0 < tsize) :
    0 < doubled size limit tsize := by
  induction limit generalizing tsize with
  | zero => exact pos
  | succ limit ih =>
    rw [doubled]
    split
    · exact ih (2 * tsize) (Nat.mul_pos Nat.two_pos pos)
    · exact pos

theorem init_represents (htab : Table Key Data) (size : Int) :
    Represents kind (htab.init size) (fun _ => []) (fun _ => none) := by
  apply empty_represents
  · exact Nat.sub_add_cancel (doubled_pos size size.toNat 1 Nat.one_pos)
  · exact fun i inside => if_pos inside
  · rfl
  · rfl

theorem flush_represents (held : Represents kind htab chains contents) (size : Int) :
    Represents kind (htab.flush size) (fun _ => []) (fun _ => none) := by
  unfold Table.flush
  simp only
  split
  · exact init_represents _ size
  · exact empty_represents held.mask (fun i inside => if_pos inside) rfl rfl

variable [DecidableEq Key]

theorem walk_found
    (here : htab.target hptr = key) (notBefore : ∀ o ∈ before, htab.target o ≠ key)
    {start : Option Addr} (chain : Chain htab.next start (before ++ hptr :: after)) {limit : Nat}
    (hlt : (before ++ hptr :: after).length ≤ limit) (prev : Option Addr) (numchecks : Nat) :
    htab.walk key limit prev start numchecks =
      some (before.getLast?.or prev, some hptr, numchecks + before.length + 1) := by
  induction before generalizing start prev numchecks limit with
  | nil =>
    obtain ⟨limit, rfl⟩ := Nat.exists_eq_succ_of_ne_zero (n := limit) (by simp at hlt; omega)
    rw [chain.1, Table.walk, if_pos here]
    simp
  | cons fst before ih =>
    obtain ⟨limit, rfl⟩ := Nat.exists_eq_succ_of_ne_zero (n := limit) (by simp at hlt; omega)
    have walked := ih
      (fun o mem => notBefore o (mem_cons_of_mem fst mem)) chain.2
      (by simpa using hlt) (some fst) (numchecks + 1)
    have last : before.getLast?.or (some fst) = (fst :: before).getLast?.or prev := by
      cases before with
      | nil => rfl
      | cons snd before =>
        rw [getLast?_cons_cons,
          getLast?_eq_some_getLast (cons_ne_nil snd before)]
        rfl
    have count : numchecks + 1 + before.length + 1 =
        numchecks + (fst :: before).length + 1 := by
      rw [length_cons]
      omega
    rw [chain.1, Table.walk, if_neg (notBefore fst mem_cons_self), walked, last, count]

theorem walk_missing {cells : List Addr}
    (missing : ∀ hptr ∈ cells, htab.target hptr ≠ key) {start : Option Addr}
    (chain : Chain htab.next start cells) {limit : Nat} (hlt : cells.length < limit)
    (prev : Option Addr) (numchecks : Nat) :
    ∃ last, htab.walk key limit prev start numchecks =
      some (last, none, numchecks + cells.length) := by
  induction cells generalizing start prev numchecks limit with
  | nil =>
    obtain ⟨limit, rfl⟩ := Nat.exists_eq_succ_of_ne_zero (Nat.ne_of_gt (Nat.zero_lt_of_lt hlt))
    rw [chain, Table.walk]
    exact ⟨prev, rfl⟩
  | cons fst cells ih =>
    obtain ⟨limit, rfl⟩ := Nat.exists_eq_succ_of_ne_zero (Nat.ne_of_gt (Nat.zero_lt_of_lt hlt))
    obtain ⟨last, walked⟩ := ih
      (fun hptr mem => missing hptr (mem_cons_of_mem fst mem)) chain.2
      (by simpa using hlt) (some fst) (numchecks + 1)
    refine ⟨last, ?_⟩
    rw [chain.1, Table.walk, if_neg (missing fst mem_cons_self), walked,
      length_cons]
    congr 3
    omega

theorem Represents.locate (held : Represents kind htab chains contents) (key : Key) :
    (∃ before hptr after, chains (kind.hval key htab.mask) = before ++ hptr :: after ∧
        htab.target hptr = key ∧ contents key = some (htab.data hptr) ∧
        ∀ prev, htab.walk key (htab.allocated + 1) prev (htab.element (kind.hval key htab.mask)) 0 =
          some (before.getLast?.or prev, some hptr, before.length + 1)) ∨
      (contents key = none ∧
        (∀ hptr ∈ chains (kind.hval key htab.mask), htab.target hptr ≠ key) ∧
        ∀ prev, ∃ last numchecks, htab.walk key (htab.allocated + 1) prev
          (htab.element (kind.hval key htab.mask)) 0 = some (last, none, numchecks)) := by
  have inside := held.hval_lt key
  have chain := held.chain _ inside
  have hlt := Nat.lt_succ_of_le (held.length_le inside)
  by_cases present : ∃ hptr ∈ chains (kind.hval key htab.mask), htab.target hptr = key
  · obtain ⟨hptr, mem, here⟩ := present
    obtain ⟨before, after, split⟩ := append_of_mem mem
    have notBefore : ∀ o ∈ before, htab.target o ≠ key := by
      intro o earlier eq
      have distinct := held.distinct _ inside
      rw [split, map_append, nodup_append] at distinct
      exact distinct.2.2 (htab.target o) (mem_map_of_mem earlier) (htab.target hptr)
        (mem_map_of_mem mem_cons_self) (eq.trans here.symm)
    refine Or.inl ⟨before, hptr, after, split, here, ?_, fun prev => ?_⟩
    · exact (held.contents key _).mpr ⟨hptr, mem, here, rfl⟩
    · rw [split] at chain hlt
      rw [walk_found here notBefore chain (Nat.le_of_lt hlt) prev 0, Nat.zero_add]
  · have missing : ∀ hptr ∈ chains (kind.hval key htab.mask), htab.target hptr ≠ key :=
      fun hptr mem eq => present ⟨hptr, mem, eq⟩
    refine Or.inr ⟨?_, missing, fun prev => ?_⟩
    · cases hf : contents key with
      | none => rfl
      | some data =>
        obtain ⟨hptr, mem, eq, _⟩ := (held.contents key data).mp hf
        exact absurd eq (missing hptr mem)
    · obtain ⟨last, walked⟩ := walk_missing missing chain hlt prev 0
      exact ⟨last, _, walked⟩

section

variable (held : Represents kind htab chains contents)
include held

theorem find_represents (key : Key) :
    ∃ htab' chains', htab.find kind key = some (contents key, htab') ∧
      Looked kind htab' chains chains' contents := by
  unfold Table.find
  rcases held.locate key with
    ⟨before, hptr, after, split, _, hf, walked⟩ | ⟨missing, _, walked⟩
  · obtain ⟨chains', looked⟩ :=
      hit_represents (held.counted (before.length + 1)) (held.hval_lt key) split
    refine ⟨_, chains', ?_, looked⟩
    simp only [walked, bind_eq_bind, bind_some, hf]
    rfl
  · obtain ⟨last, numchecks, ran⟩ := walked (htab.element (kind.hval key htab.mask))
    refine ⟨htab.counted numchecks, chains, ?_, (held.counted numchecks).looked⟩
    simp only [ran, bind_eq_bind, bind_some, missing]

theorem insert_represents (data : Data)
    (missing : contents key = none) (index : kind.hval key htab.mask = i) :
    Represents kind (htab.insert key data i) (update chains i (htab.allocated :: chains i))
      (update contents key (some data)) := by
  have inside : i < htab.hashsize := index ▸ held.hval_lt key
  have fresh : ∀ j < htab.hashsize, ∀ hptr ∈ chains j, hptr ≠ htab.allocated :=
    fun j insideToo hptr there => Nat.ne_of_lt (held.below j insideToo hptr there)
  have notThere : ∀ j < htab.hashsize, htab.allocated ∉ chains j := fun j insideToo there =>
    fresh j insideToo _ there rfl
  have absent : ∀ hptr ∈ chains i, htab.target hptr ≠ key := by
    intro hptr there eq
    have hf := (held.contents key (htab.data hptr)).mpr ⟨hptr, index ▸ there, eq, rfl⟩
    exact absurd (missing.symm.trans hf) (some_ne_none _).symm
  have targetNew : update htab.target htab.allocated key htab.allocated = key :=
    update_self ..
  have targetOld : ∀ j < htab.hashsize, ∀ hptr ∈ chains j,
      update htab.target htab.allocated key hptr = htab.target hptr := fun j insideToo hptr there =>
    update_of_ne (fresh j insideToo hptr there) ..
  have dataOld : ∀ j < htab.hashsize, ∀ hptr ∈ chains j,
      update htab.data htab.allocated data hptr = htab.data hptr := fun j insideToo hptr there =>
    update_of_ne (fresh j insideToo hptr there) ..
  have link : htab.element i = none ↔ (chains i).isEmpty = true := by
    rw [(held.chain i inside).head_eq]
    simp
  apply held.rechain
  refine ⟨inside, rfl, rfl, ?_, ?_, ?_, ?_, ?_, ?_, Nat.le_succ _, ?_, ?_, ?_, ?_⟩
  · have pushed := (held.chain i inside).push (notThere i inside)
    simp only [Table.insert, update_self]
    exact pushed
  · intro j insideToo ne
    simp only [Table.insert]
    rw [update_of_ne ne]
    exact (held.chain j insideToo).update_of_notMem (notThere j insideToo)
  · exact fun j insideToo _ hptr there =>
      ⟨targetOld j insideToo hptr there, dataOld j insideToo hptr there⟩
  · intro hptr there
    simp only [Table.insert]
    rcases mem_cons.mp there with rfl | old
    · rw [targetNew, index]
    · rw [targetOld i inside hptr old, held.hashed i inside hptr old]
  · simp only [Table.insert, map_cons]
    rw [targetNew, map_congr_left (targetOld i inside)]
    refine nodup_cons.mpr ⟨fun there => ?_, held.distinct i inside⟩
    obtain ⟨hptr, mem, eq⟩ := mem_map.mp there
    exact absent hptr mem eq
  · intro hptr there
    rcases mem_cons.mp there with rfl | old
    · exact Nat.lt_succ_self _
    · exact Nat.lt_succ_of_lt (held.below i inside hptr old)
  · simp only [Table.insert, length_cons]
    omega
  · simp only [Table.insert, isEmpty_cons, Bool.false_eq_true, if_false]
    by_cases empty : (chains i).isEmpty = true
    · rw [if_pos (link.mpr empty), if_pos empty]
      omega
    · rw [if_neg (mt link.mp empty), if_neg empty]
  · intro o ne
    exact update_of_ne (fun eq => ne (by rw [eq, index])) ..
  · intro o held' eq
    simp only [Table.insert, mem_cons, exists_eq_or_imp, targetNew, update_self]
    have old : (∃ hptr ∈ chains i, update htab.target htab.allocated key hptr = o ∧
          update htab.data htab.allocated data hptr = held') ↔ contents o = some held' := by
      rw [held.contents o held', eq]
      apply exists_congr
      intro hptr
      apply and_congr_right
      intro there
      rw [targetOld i inside hptr there, dataOld i inside hptr there]
    rw [old]
    by_cases here : o = key
    · rw [here, update_self, missing]
      simp
    · rw [update_of_ne here]
      simp [Ne.symm here]

theorem delete_represents (index : kind.hval key htab.mask = i)
    (split : chains i = before ++ hptr :: after) (here : htab.target hptr = key) :
    Represents kind ((htab.unlink before.getLast? hptr i).deleted i)
      (update chains i (before ++ after)) (update contents key none) := by
  have inside : i < htab.hashsize := index ▸ held.hval_lt key
  obtain ⟨chain, others⟩ := unlink_chain held inside split
  have fields : (htab.unlink before.getLast? hptr i).target = htab.target ∧
      (htab.unlink before.getLast? hptr i).data = htab.data ∧
      (htab.unlink before.getLast? hptr i).entries = htab.entries ∧
      (htab.unlink before.getLast? hptr i).nulls = htab.nulls ∧
      (htab.unlink before.getLast? hptr i).mask = htab.mask ∧
      (htab.unlink before.getLast? hptr i).hashsize = htab.hashsize ∧
      (htab.unlink before.getLast? hptr i).allocated = htab.allocated := by
    unfold Table.unlink
    split <;> exact ⟨rfl, rfl, rfl, rfl, rfl, rfl, rfl⟩
  obtain ⟨target, data, entries, nulls, mask, hashsize, allocated⟩ := fields
  have kept : ∀ o ∈ before ++ after, o ∈ chains i := by
    intro o there
    rw [split]
    exact (mem_append.mp there).elim (mem_append_left _)
      fun last => mem_append_right _ (mem_cons_of_mem _ last)
  have distinct := held.distinct i inside
  rw [split, map_append, map_cons] at distinct
  have distinctLater : (htab.target hptr :: (before ++ after).map htab.target).Nodup := by
    rw [map_append]
    exact perm_middle.nodup_iff.mp distinct
  have length : (chains i).length = (before ++ after).length + 1 := by
    rw [split, length_append, length_append, length_cons, Nat.add_assoc]
  have link : (htab.unlink before.getLast? hptr i).element i = none ↔
      (before ++ after).isEmpty = true := by
    rw [chain.head_eq]
    simp
  apply held.rechain
  refine ⟨inside, mask, hashsize, chain, others, ?_, ?_, ?_, ?_, ?_, ?_, ?_, ?_, ?_⟩
  · exact fun _ _ _ o _ => ⟨congrFun target o, congrFun data o⟩
  · intro o there
    simp only [Table.deleted, target]
    exact held.hashed i inside o (kept o there)
  · simp only [Table.deleted, target]
    exact (nodup_cons.mp distinctLater).2
  · intro o there
    simp only [Table.deleted, allocated]
    exact held.below i inside o (kept o there)
  · exact Nat.le_of_eq allocated.symm
  · simp only [Table.deleted, entries]
    omega
  · have some' : (chains i).isEmpty = false := by
      rw [split]
      simp
    simp only [Table.deleted, nulls, some', Bool.false_eq_true, if_false]
    by_cases empty : (before ++ after).isEmpty = true
    · rw [if_pos (link.mpr empty), if_pos empty, Int.add_zero]
    · rw [if_neg (mt link.mp empty), if_neg empty]
  · intro o ne
    exact update_of_ne (fun eq => ne (by rw [eq, index])) ..
  · intro o data' eq
    simp only [Table.deleted, target, data]
    by_cases this' : o = key
    · rw [this', update_self]
      constructor
      · exact fun none' => absurd none' (some_ne_none _).symm
      · rintro ⟨again, there, also, _⟩
        refine absurd ?_ (nodup_cons.mp distinctLater).1
        rw [here, ← also]
        exact mem_map_of_mem there
    · rw [update_of_ne this', held.contents o data', eq]
      constructor
      · rintro ⟨hf, there, itsKey, itsData⟩
        refine ⟨hf, ?_, itsKey, itsData⟩
        rw [split] at there
        rcases mem_append.mp there with front | back
        · exact mem_append_left _ front
        · rcases mem_cons.mp back with rfl | later
          · exact absurd (itsKey.symm.trans here) this'
          · exact mem_append_right _ later
      · rintro ⟨hf, there, itsKey, itsData⟩
        exact ⟨hf, kept hf there, itsKey, itsData⟩

theorem repl_represents (index : kind.hval key htab.mask = i) (mem : hptr ∈ chains i)
    (here : htab.target hptr = key) (data : Data) :
    Represents kind { htab with data := update htab.data hptr data } chains
      (update contents key (some data)) := by
  have inside : i < htab.hashsize := index ▸ held.hval_lt key
  have change : Rechained kind htab { htab with data := update htab.data hptr data } chains i
      (chains i) contents (update contents key (some data)) := by
    refine ⟨inside, rfl, rfl, held.chain i inside, fun j insideToo _ => held.chain j insideToo, ?_,
      held.hashed i inside, held.distinct i inside, held.below i inside, Nat.le_refl _, rfl, rfl,
      ?_, ?_⟩
    · intro j insideToo ne o there
      refine ⟨rfl, update_of_ne (fun eq => ne ?_) ..⟩
      exact held.apart insideToo inside (eq ▸ there) mem
    · intro o ne
      exact update_of_ne (fun eq => ne (by rw [eq, index])) ..
    · intro o data' eq
      by_cases this' : o = key
      · subst this'
        rw [update_self]
        constructor
        · intro is
          refine ⟨hptr, mem, here, ?_⟩
          rw [← some.inj is]
          exact update_self hptr data htab.data
        · rintro ⟨hf, there, itsKey, itsData⟩
          have unique : hf = hptr :=
            inj_on_of_nodup_map (held.distinct i inside) there mem (itsKey.trans here.symm)
          subst unique
          rw [← itsData]
          exact congrArg some (update_self hf data htab.data).symm
      · rw [update_of_ne this', held.contents o data', eq]
        apply exists_congr
        intro hf
        apply and_congr_right
        intro _
        apply and_congr_right
        intro itsKey
        have ne : hf ≠ hptr := fun equal => this' (itsKey.symm.trans (equal ▸ here))
        change htab.data hf = data' ↔ update htab.data hptr data hf = data'
        rw [update_of_ne ne]
  have done := held.rechain change
  rwa [Function.update_eq_self] at done

end

theorem step_represents (held : Represents kind htab chains contents) (op : Op Key Data) :
    ∃ htab' chains', htab.step kind op = some ((contents.step op).1, htab') ∧
      Represents kind htab' chains' (contents.step op).2 := by
  cases op with
  | find key =>
    obtain ⟨htab', chains', ran, looked⟩ := find_represents held key
    refine ⟨htab', chains', ?_, looked.represents⟩
    simp only [Table.step, ran, map_some, Contents.step]
  | add key data =>
    obtain ⟨htab', chains', ran, looked⟩ := find_represents held key
    have held' := looked.represents
    cases present : contents key with
    | none =>
      have inserted := insert_represents held' data present rfl
      have added : contents.step (.add key data) =
          (.code 0, update contents key (some data)) := by
        simp [Contents.step, present]
      rw [added]
      refine ⟨_, _, ?_, inserted⟩
      simp only [Table.step, Table.add, ran, present, bind_eq_bind, bind_some,
        isSome_none, Bool.false_eq_true, if_false, map_some]
    | some old =>
      refine ⟨htab', chains', ?_, ?_⟩
      · simp only [Table.step, Table.add, ran, present, bind_eq_bind,
          bind_some, isSome_some, if_true, map_some, Contents.step]
      · simp only [Contents.step, present, isSome_some, if_true]
        exact held'
  | delete key =>
    rcases held.locate key with
      ⟨before, hptr, after, split, here, _, walked⟩ | ⟨missing, _, walked⟩
    · refine ⟨_, _, ?_, delete_represents held rfl split here⟩
      simp only [Table.step, Table.delete, walked, or_none, bind_eq_bind,
        bind_some, map_some, Contents.step]
    · obtain ⟨last, numchecks, ran⟩ := walked none
      refine ⟨htab, chains, ?_, ?_⟩
      · simp only [Table.step, Table.delete, ran, bind_eq_bind, bind_some,
          map_some, Contents.step]
      · have eq : update contents key none = contents := by
          rw [← missing, Function.update_eq_self]
        simp only [Contents.step, eq]
        exact held
  | flush size => exact ⟨htab.flush size, _, rfl, flush_represents held size⟩
  | repl key data =>
    rcases held.locate key with
      ⟨before, hptr, after, split, here, hf, walked⟩ | ⟨missing, _, walked⟩
    · have replaced := repl_represents held rfl (by simp [split]) here data
      refine ⟨{ htab with data := update htab.data hptr data }, chains, ?_, ?_⟩
      · simp only [Table.step, Table.repl, walked, bind_eq_bind, bind_some,
          map_some, Contents.step, hf, isSome_some, if_true]
      · simp only [Contents.step, hf, isSome_some, if_true]
        exact replaced
    · obtain ⟨last, numchecks, ran⟩ := walked none
      refine ⟨htab, chains, ?_, ?_⟩
      · simp only [Table.step, Table.repl, ran, bind_eq_bind, bind_some,
          map_some, Contents.step, missing, isSome_none, Bool.false_eq_true,
          if_false]
      · simp only [Contents.step, missing, isSome_none, Bool.false_eq_true, if_false]
        exact held

def Contents.calls (contents : Contents Key Data) :
    List (Op Key Data) → List (Result Data) × Contents Key Data
  | [] => ([], contents)
  | op :: later =>
    let rest := Contents.calls (contents.step op).2 later
    ((contents.step op).1 :: rest.1, rest.2)

theorem calls_represents (held : Represents kind htab chains contents) (ops : List (Op Key Data)) :
    ∃ htab' chains', calls (Table.step kind) htab ops = some ((contents.calls ops).1, htab') ∧
      Represents kind htab' chains' (contents.calls ops).2 := by
  induction ops generalizing htab chains contents with
  | nil => exact ⟨htab, chains, rfl, held⟩
  | cons op later ih =>
    obtain ⟨middle, chains₁, stepped, held₁⟩ := step_represents held op
    obtain ⟨htab', chains', ran, held'⟩ := ih held₁
    exact ⟨htab', chains', calls_cons stepped ran, held'⟩

theorem hashStep_eq : @hashStep Data = Table.step stringKeys := by
  funext htab op
  cases op <;> rfl

theorem nhashStep_eq : @nhashStep Data = Table.step numberKeys := by
  funext htab op
  cases op <;> rfl

/-- After any calls on a new table, of strings or of numbers, all calls have returned
what they return on a map, the chains hold the entries of that map, each once and where
it belongs, and are counted; and a lookup leaves every chain with the entries it had. -/
theorem hashtab_is_map {Data : Type} (size : Int) :
    (∀ (new : Table CString Data) (ops : List (Op CString Data)), ∃ htab chains,
      let contents := Contents.calls (fun _ => none) ops
      calls hashStep (new.init size) ops = some (contents.1, htab) ∧
      Represents stringKeys htab chains contents.2 ∧
      ∀ str, ∃ htab' chains', hashfind htab str = some (contents.2 str, htab') ∧
        Looked stringKeys htab' chains chains' contents.2) ∧
    ∀ (new : Table (BitVec 32) Data) (ops : List (Op (BitVec 32) Data)), ∃ htab chains,
      let contents := Contents.calls (fun _ => none) ops
      calls nhashStep (new.init size) ops = some (contents.1, htab) ∧
      Represents numberKeys htab chains contents.2 ∧
      ∀ val, ∃ htab' chains', nhashfind htab val = some (contents.2 val, htab') ∧
        Looked numberKeys htab' chains chains' contents.2 := by
  constructor
  · intro new ops
    obtain ⟨htab, chains, ran, held⟩ :=
      calls_represents (@init_represents _ _ stringKeys new size) ops
    rw [← hashStep_eq] at ran
    exact ⟨htab, chains, ran, held, find_represents held⟩
  · intro new ops
    obtain ⟨htab, chains, ran, held⟩ :=
      calls_represents (@init_represents _ _ numberKeys new size) ops
    rw [← nhashStep_eq] at ran
    exact ⟨htab, chains, ran, held, find_represents held⟩

end BattletechMux.Hash
