/-
Module: BattletechMux.Foundation.Bisect
Purpose: Binary search by a key in an array whose keys increase, and what replacing, inserting and
  erasing at the place it finds does to the array as a map.
-/
import Mathlib

namespace Bisection

open List hiding getElem?_eq_some_iff

variable {Cell Key : Type*} [LinearOrder Key]

def Increasing (key : Cell → Key) (cells : List Cell) : Prop :=
  cells.Pairwise fun first second => key first < key second

/-- Binary search between two places.  `true` and the place when the key is there, `false`
and the place where it would be when not; `limit` bounds the loop. -/
def bisect (key : Cell → Key) (cells : List Cell) (target : Key) :
    Nat → Int → Int → Option (Bool × Nat)
  | 0, _, _ => none
  | limit + 1, lo, hi =>
    if lo ≤ hi then
      let mid := (hi - lo) / 2 + lo
      match cells[mid.toNat]? with
      | none => none
      | some cell =>
        if key cell = target then some (true, mid.toNat)
        else if target < key cell then bisect key cells target limit lo (mid - 1)
        else bisect key cells target limit (mid + 1) hi
    else some (false, lo.toNat)

/-- A place in an array whose keys increase that splits it at a key. -/
inductive Found (key : Cell → Key) (cells : List Cell) (target : Key) : Bool × Nat → Prop where
  | present {before after : List Cell} {cell : Cell} (split : cells = before ++ cell :: after)
      (equal : key cell = target) : Found key cells target (true, before.length)
  | absent {before after : List Cell} (split : cells = before ++ after)
      (smaller : ∀ cell ∈ before, key cell < target)
      (larger : ∀ cell ∈ after, target < key cell) : Found key cells target (false, before.length)

section Search

variable {key : Cell → Key} {cells : List Cell} {target : Key}

theorem Increasing.lt_of_getElem? (increasing : Increasing key cells) {i j : Nat}
    {fst snd : Cell} (one : cells[i]? = some fst) (two : cells[j]? = some snd)
    (before : i < j) : key fst < key snd := by
  obtain ⟨hin, rfl⟩ := getElem?_eq_some_iff.mp one
  obtain ⟨hin', rfl⟩ := getElem?_eq_some_iff.mp two
  exact pairwise_iff_getElem.mp increasing i j hin hin' before

variable {cell : Cell}

theorem split_at {n : Nat} (is : cells[n]? = some cell) :
    cells = cells.take n ++ cell :: cells.drop (n + 1) ∧ (cells.take n).length = n := by
  obtain ⟨hin, rfl⟩ := getElem?_eq_some_iff.mp is
  refine ⟨?_, length_take_of_le (Nat.le_of_lt hin)⟩
  rw [← drop_eq_getElem_cons hin, take_append_drop]

theorem bisectFrom_spec (increasing : Increasing key cells) {limit : Nat} {lo hi : Int}
    (room : hi - lo + 1 < limit) (low : 0 ≤ lo) (below : lo ≤ hi + 1) (high : hi < cells.length)
    (smaller : ∀ i : Nat, i < lo → ∀ cell, cells[i]? = some cell → key cell < target)
    (larger : ∀ i : Nat, hi < i → ∀ cell, cells[i]? = some cell → target < key cell) :
    ∃ hf, bisect key cells target limit lo hi = some hf ∧ Found key cells target hf := by
  induction limit generalizing lo hi with
  | zero => omega
  | succ limit ih =>
    unfold bisect
    by_cases more : lo ≤ hi
    · rw [if_pos more]
      obtain ⟨mid, middle⟩ : ∃ mid : Nat, (hi - lo) / 2 + lo = mid :=
        ⟨((hi - lo) / 2 + lo).toNat, by omega⟩
      have hin : mid < cells.length := by omega
      obtain ⟨cell, is⟩ : ∃ cell, cells[mid]? = some cell :=
        ⟨_, getElem?_eq_getElem hin⟩
      simp only [middle, Int.toNat_natCast, is]
      by_cases equal : key cell = target
      · rw [if_pos equal]
        obtain ⟨split, length⟩ := split_at is
        have hf := Found.present split equal
        rw [length] at hf
        exact ⟨_, rfl, hf⟩
      · rw [if_neg equal]
        by_cases left : target < key cell
        · rw [if_pos left]
          refine ih (by omega) low (by omega) (by omega) smaller
            fun i after o there => ?_
          by_cases eq : i = mid
          · subst eq
            rwa [← Option.some.inj (is.symm.trans there)]
          · exact lt_trans left (increasing.lt_of_getElem? is there (by omega))
        · rw [if_neg left]
          have right : key cell < target := lt_of_le_of_ne (not_lt.mp left) equal
          refine ih (by omega) (by omega) (by omega) high
            (fun i before o there => ?_) larger
          by_cases eq : i = mid
          · subst eq
            rwa [← Option.some.inj (is.symm.trans there)]
          · exact lt_trans (increasing.lt_of_getElem? there is (by omega)) right
    · rw [if_neg more]
      have hf : Found key cells target (false, (cells.take lo.toNat).length) := by
        refine .absent (take_append_drop ..).symm (fun cell mem => ?_) fun cell mem => ?_
        · obtain ⟨i, hin, rfl⟩ := mem_iff_getElem.mp mem
          rw [length_take] at hin
          rw [getElem_take]
          exact smaller i (by omega) _ (getElem?_eq_getElem (by omega))
        · obtain ⟨i, hin, rfl⟩ := mem_iff_getElem.mp mem
          rw [length_drop] at hin
          rw [getElem_drop]
          exact larger (lo.toNat + i) (by omega) _ (getElem?_eq_getElem (by omega))
      rw [length_take_of_le (by omega)] at hf
      exact ⟨_, rfl, hf⟩

theorem bisect_spec (increasing : Increasing key cells) (target : Key) :
    ∃ hf, bisect key cells target (cells.length + 1) 0 (cells.length - 1) = some hf ∧
      Found key cells target hf := by
  refine bisectFrom_spec increasing (by omega) (by omega) (by omega) (by omega)
    (fun i before => by omega) fun i after cell there => ?_
  obtain ⟨hin, _⟩ := getElem?_eq_some_iff.mp there
  omega

def lookup (key : Cell → Key) (cells : List Cell) (target : Key) : Option Cell :=
  cells.find? fun cell => key cell = target

variable {before after : List Cell}

theorem lookup_append :
    lookup key (before ++ after) target = (lookup key before target).or (lookup key after target) :=
  find?_append

theorem lookup_eq_none (absent : ∀ cell ∈ cells, key cell ≠ target) :
    lookup key cells target = none := by
  simpa [lookup] using absent

theorem Increasing.smaller (increasing : Increasing key (before ++ cell :: after)) :
    (∀ o ∈ before, key o < key cell) ∧ ∀ o ∈ after, key cell < key o := by
  have parts := pairwise_append.mp increasing
  exact ⟨fun o mem => parts.2.2 o mem cell (by simp),
    (pairwise_cons.mp parts.2.1).1⟩

theorem Increasing.nodup (increasing : Increasing key cells) : cells.Nodup :=
  List.Pairwise.imp (fun less eq => ne_of_lt less (congrArg key eq)) increasing

theorem Increasing.injective (increasing : Increasing key cells) {fst snd : Cell}
    (one : fst ∈ cells) (two : snd ∈ cells) (eq : key fst = key snd) :
    fst = snd := by
  obtain ⟨before, after, rfl⟩ := append_of_mem one
  rcases mem_append.mp two with earlier | later
  · exact absurd eq.symm (ne_of_lt (increasing.smaller.1 snd earlier))
  · rcases mem_cons.mp later with rfl | later
    · rfl
    · exact absurd eq (ne_of_lt (increasing.smaller.2 snd later))

theorem lookup_of_present (increasing : Increasing key (before ++ cell :: after)) :
    lookup key (before ++ cell :: after) (key cell) = some cell := by
  have sides := increasing.smaller
  rw [lookup_append, lookup_eq_none fun o mem => ne_of_lt (sides.1 o mem)]
  simp [lookup]

theorem mem_middle {cell o : Cell} :
    o ∈ before ++ cell :: after ↔ o = cell ∨ o ∈ before ++ after :=
  perm_middle.mem_iff.trans mem_cons

theorem insertIdx_split (before after : List Cell) (cell : Cell) :
    (before ++ after).insertIdx before.length cell = before ++ cell :: after := by
  induction before with
  | nil => rfl
  | cons fst rest ih => simpa using ih

theorem Increasing.put {before middle after : List Cell}
    (increasing : Increasing key (before ++ middle ++ after))
    (smaller : ∀ o ∈ before, key o < key cell)
    (larger : ∀ o ∈ after, key cell < key o) (eq : ∀ o ∈ middle, key o = key cell) :
    Increasing key (before ++ cell :: after) ∧
      ∀ target, lookup key (before ++ cell :: after) target =
        if target = key cell then some cell else lookup key (before ++ middle ++ after) target := by
  have increasing' : Increasing key (before ++ cell :: after) := by
    rw [append_assoc] at increasing
    have parts := pairwise_append.mp increasing
    have rest := pairwise_append.mp parts.2.1
    refine pairwise_append.mpr ⟨parts.1, pairwise_cons.mpr ⟨larger, rest.2.1⟩, ?_⟩
    intro fst inBefore snd inAfter
    rcases mem_cons.mp inAfter with rfl | inAfter
    · exact smaller fst inBefore
    · exact lt_trans (smaller fst inBefore) (larger snd inAfter)
  refine ⟨increasing', fun target => ?_⟩
  by_cases is : target = key cell
  · rw [if_pos is, is]
    exact lookup_of_present increasing'
  · have none' : lookup key middle target = none := lookup_eq_none fun o mem => by
      rw [eq o mem]
      exact Ne.symm is
    rw [if_neg is, lookup_append, lookup_append, lookup_append, none', Option.or_none]
    congr 1
    exact find?_cons_of_neg (by simpa using Ne.symm is)

theorem Increasing.insert {key' : Cell → Key} (increasing : Increasing key (before ++ after))
    (eq : ∀ o ∈ before ++ after, key' o = key o)
    (smaller : ∀ o ∈ before, key o < key' cell)
    (larger : ∀ o ∈ after, key' cell < key o) :
    Increasing key' (before ++ cell :: after) := by
  have increasing' : Increasing key' (before ++ [] ++ after) := by
    rw [append_nil]
    refine increasing.imp_of_mem fun {fst snd} one two less => ?_
    rwa [eq fst one, eq snd two]
  refine (increasing'.put (fun o mem => ?_) (fun o mem => ?_) nofun).1
  · rw [eq o (mem_append_left _ mem)]
    exact smaller o mem
  · rw [eq o (mem_append_right _ mem)]
    exact larger o mem

theorem Increasing.erase (increasing : Increasing key (before ++ cell :: after)) :
    Increasing key (before ++ after) ∧
      ∀ target, lookup key (before ++ after) target =
        if target = key cell then none else lookup key (before ++ cell :: after) target := by
  have sides := increasing.smaller
  refine ⟨List.Pairwise.sublist ((sublist_cons_self cell after).append_left before) increasing,
    fun target => ?_⟩
  by_cases is : target = key cell
  · rw [if_pos is, is, lookup_eq_none]
    intro o mem
    rcases mem_append.mp mem with inBefore | inAfter
    · exact ne_of_lt (sides.1 o inBefore)
    · exact ne_of_gt (sides.2 o inAfter)
  · rw [if_neg is, lookup_append, lookup_append]
    congr 1
    exact (find?_cons_of_neg (by simpa using Ne.symm is)).symm

end Search

end Bisection
