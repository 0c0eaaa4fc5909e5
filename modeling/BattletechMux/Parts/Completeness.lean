/-
Module: BattletechMux.Parts.Completeness
Purpose: The sorted tables of the names of parts, from mech.partnames.c, template.c and econ_cmds.c,
  and when searches in them find all parts whose names match.
Trusted boundary: which parts have names, and what brands are called, is any table; a hash table is
  the list of its entries
-/
import BattletechMux.Foundation.Insertion
import BattletechMux.Match.Wild

namespace BattletechMux.Parts

open Match (quickWild)

section

def numItems : Nat := 1024
def brandcount : Nat := 5
def mbufSize : Nat := 400

def packedPart (id brand : Nat) : Nat := numItems * brand + id

def unpackPart (index : Nat) : Nat × Nat := (index % numItems, index / numItems)

/-! ## Names -/

/-- part_figure_out_name, part_figure_out_sname and part_figure_out_shname, under temp_brand_flag,
and GetPartBrandName. -/
structure Naming where
  figureOutName : Nat → Nat → Option (List Char)
  figureOutSname : Nat → Nat → Option (List Char)
  figureOutShname : Nat → Nat → Option (List Char)
  getPartBrandName : Nat → Nat → Option (List Char)

structure PN where
  shorty : List Char
  longy : List Char
  vlongy : List Char
  index : Nat
deriving DecidableEq

def myShortform (buf : List Char) : List Char :=
  if buf.length ≤ 4 ∧ '/' ∉ buf then buf
  else
    let buf2 := buf.filter fun c => c.isDigit || c.isUpper || c == '_'
    if buf2.length = 1 then buf2 ++ (buf.drop 1).take 1 else buf2

def branded (b : Nat) (brn c : List Char) : List Char := if b ≠ 0 then brn ++ '.' :: c else c

variable (naming : Naming)

/-- `create_brandname`: the part that it adds. -/
def createBrandname (id b : Nat) : Option PN := do
  let brn ← if b ≠ 0 then naming.getPartBrandName id b else some []
  let name ← naming.figureOutName b id
  let sname ← naming.figureOutSname b id
  let shname ← naming.figureOutShname b id
  some
    { shorty := branded b (myShortform brn) shname
      longy := branded b brn sname
      vlongy := branded b brn name
      index := packedPart id b }

/-- The parts in index_sorted, brand by brand. -/
def partTable : List PN :=
  (List.range (brandcount + 1)).flatMap fun m =>
    (List.range numItems).filterMap fun n => createBrandname naming n m

/-! ## Tables -/

def hashfind (key : List Char) (htab : List (List Char × Nat)) : Option Nat := htab.lookup key

/-- `hashadd`: the first of equal keys stays. -/
def hashadd (key : List Char) (data : Nat) (htab : List (List Char × Nat)) :
    List (List Char × Nat) :=
  if (hashfind key htab).isSome then htab else htab ++ [(key, data)]

def lower (text : List Char) : List Char := text.map Char.toLower

structure PartTables where
  shortSorted : List PN
  longSorted : List PN
  vlongSorted : List PN
  shortHash : List (List Char × Nat)
  vlongHash : List (List Char × Nat)

def PartTables.objectCount (T : PartTables) : Nat := T.shortSorted.length

/-- One of the three sorts in `insert_sorted_brandname`. -/
def insertSortedBrandname (a : PN → List Char) (e : PN) (b : List PN) : List PN :=
  Insertion.insert a e b

def sortedBy (a : PN → List Char) : List PN :=
  (partTable naming).foldl (fun b e => insertSortedBrandname a e b) []

/-- A hash table from names to places in short_sorted, counted from 1. -/
def hashOf (value : PN → List Char) (shortSorted : List PN) : List (List Char × Nat) :=
  shortSorted.zipIdx.foldl (fun tohash (p, i) => hashadd (lower (value p)) (i + 1) tohash) []

def initializePartnameTables : PartTables :=
  let shortSorted := sortedBy naming PN.shorty
  { shortSorted
    longSorted := sortedBy naming PN.longy
    vlongSorted := sortedBy naming PN.vlongy
    shortHash := hashOf PN.shorty shortSorted
    vlongHash := hashOf PN.vlongy shortSorted }

/-! ## Searches -/

variable (T : PartTables) (wc : List Char)

/-- A search by hash table, from `ind` on: the new value of `ind`, and the part. -/
def findByHash (htab : List (List Char × Nat)) (ind : Int) : Option (Int × PN) :=
  if 0 ≤ ind then none
  else do
    let i ← hashfind (lower wc) htab
    let p ← T.shortSorted[i - 1]?
    some (i, p)

def findMatchingShortPart : Int → Option (Int × PN) := findByHash T wc T.shortHash

/-- `find_matching_vlong_part`, called with an index. -/
def findMatchingVlongPart : Int → Option (Int × PN) := findByHash T wc T.vlongHash

/-- The loop of `find_matching_long_part`, at the place `i` of long_sorted. -/
def longFrom (i : Nat) : List PN → Option (Int × PN)
  | [] => none
  | p :: rest => if quickWild wc p.longy then some (i, p) else longFrom (i + 1) rest

/-- `find_matching_long_part`, for an index from -1 on. -/
def findMatchingLongPart (ind : Int) : Option (Int × PN) :=
  longFrom wc (ind + 1).toNat (T.longSorted.drop (ind + 1).toNat)

/-- A loop that searches until nothing more is found, in so many rounds. -/
def collect (find : Int → Option (Int × PN)) : Nat → Int → Option (List PN)
  | 0, _ => none
  | rounds + 1, ind =>
    match find ind with
    | none => some []
    | some (ind, p) => (collect find rounds ind).map (p :: ·)

def PartTables.rounds : Nat := T.objectCount + 2

/-- The text of a part for `btpartmatch`. -/
def printed (p : PN) : Nat :=
  let (id, brand) := unpackPart p.index
  packedPart id brand

/-- `fun_btpartmatch`: the numbers that it prints; `none` for a name that is too long. -/
def funBtpartmatch : Option (List Nat) :=
  if mbufSize ≤ wc.length then none
  else do
    let short ← collect (findMatchingShortPart T wc) T.rounds 0
    let long ← collect (findMatchingLongPart T wc) T.rounds 0
    let vlong ← collect (findMatchingVlongPart T wc) T.rounds 0
    some ((short ++ long ++ vlong).map printed)

abbrev Pile := Nat → Nat → Int

def Pile.set (pile : Pile) (brand id : Nat) (x : Int) : Pile := fun otherBrand otherId =>
  if otherBrand = brand ∧ otherId = id then x else pile otherBrand otherId

/-- The lines of `list_matching`, of what lies at a place. -/
def listMatching (buf : Option (List Char)) (pile : Pile) : Option (List (PN × Int)) := do
  let found ←
    match buf with
    | none => some []
    | some buf => collect (findMatchingLongPart T buf) T.rounds 0
  let pile2 : Pile := found.foldl (fun pile2 p =>
    let (id, brand) := unpackPart p.index
    Pile.set pile2 brand id (pile brand id)) fun _ _ => 0
  some (T.shortSorted.filterMap fun p =>
    let (id, brand) := unpackPart p.index
    let x := if buf.isSome then pile2 brand id else pile brand id
    if x ≠ 0 then some (p, x) else none)

end

open List Option

/-! ## Tables -/

section Tables

variable {naming : Naming} {a : PN → List Char}

theorem createBrandname_index {id b : Nat} {p : PN}
    (created : createBrandname naming id b = some p) :
    p.index = packedPart id b := by
  rw [createBrandname] at created
  simp only [bind_eq_bind] at created
  split_ifs at created <;>
    simp only [bind_eq_some_iff, Option.some.injEq] at created
  · obtain ⟨brn, -, name, -, sname, -, shname, -, rfl⟩ := created
    rfl
  · obtain ⟨brn, -, name, -, sname, -, shname, -, rfl⟩ := created
    rfl

theorem printed_eq (p : PN) : printed p = p.index := by
  simp only [printed, unpackPart, packedPart, numItems]
  omega

theorem sortedBy_eq (naming : Naming) (a : PN → List Char) :
    sortedBy naming a = Insertion.sort a (partTable naming) := rfl

theorem sortedBy_perm (naming : Naming) (a : PN → List Char) :
    (sortedBy naming a).Perm (partTable naming) := by
  rw [sortedBy_eq]
  exact Insertion.sort_perm a _

theorem partTable_nodup (naming : Naming) : ((partTable naming).map PN.index).Nodup := by
  have row (m : Nat) : ((List.range numItems).filterMap fun n => createBrandname naming n m).map
      PN.index = ((List.range numItems).filter fun n => (createBrandname naming n m).isSome).map
        fun n => packedPart n m := by
    induction List.range numItems with
    | nil => rfl
    | cons n rest ih =>
      cases created : createBrandname naming n m with
      | none => simpa [created] using ih
      | some p => simpa [created, createBrandname_index created] using ih
  have mem {m k : Nat} (hin : k ∈ ((List.range numItems).filterMap fun n =>
      createBrandname naming n m).map PN.index) : k / numItems = m := by
    rw [row] at hin
    obtain ⟨n, small, rfl⟩ := List.mem_map.mp hin
    have := List.mem_range.mp (List.mem_filter.mp small).1
    rw [packedPart, Nat.mul_add_div (by decide), Nat.div_eq_of_lt this, Nat.add_zero]
  rw [partTable, List.map_flatMap, List.nodup_flatMap]
  refine ⟨fun m _ => ?_, nodup_range.imp fun ne k here there =>
    ne ((mem here).symm.trans (mem there))⟩
  rw [row]
  refine (nodup_range.filter _).map fun one two eq => ?_
  simpa [packedPart] using eq

theorem sortedBy_nodup (naming : Naming) (a : PN → List Char) :
    ((sortedBy naming a).map PN.index).Nodup :=
  (((sortedBy_perm naming a).map PN.index).nodup_iff).mpr (partTable_nodup naming)

end Tables

/-! ## Searches -/

section Searches

variable {T : PartTables} {wc : List Char}

def longMatches (wc : List Char) (p : PN) : Bool := quickWild wc p.longy

theorem longFrom_none {list : List PN} {i : Nat} (hf : longFrom wc i list = none) :
    list.filter (longMatches wc) = [] := by
  induction list generalizing i with
  | nil => rfl
  | cons p rest ih =>
    rw [longFrom] at hf
    split_ifs at hf with here
    have apart : ¬ longMatches wc p = true := here
    rw [filter_cons_of_neg apart, ih hf]

theorem longFrom_some {list : List PN} {i : Nat} {ind : Int} {p : PN}
    (hf : longFrom wc i list = some (ind, p)) : ∃ pre post, list = pre ++ p :: post ∧
      ind = i + pre.length ∧ pre.filter (longMatches wc) = [] ∧
        longMatches wc p = true := by
  induction list generalizing i with
  | nil => simp [longFrom] at hf
  | cons fst rest ih =>
    rw [longFrom] at hf
    split_ifs at hf with here
    · obtain ⟨rfl, rfl⟩ := Prod.mk.inj (some.inj hf)
      exact ⟨[], rest, rfl, by simp, rfl, here⟩
    · obtain ⟨pre, post, rfl, rfl, none, match'⟩ := ih hf
      refine ⟨fst :: pre, post, rfl, ?_, ?_, match'⟩
      · rw [length_cons]
        omega
      · have apart : ¬ longMatches wc fst = true := here
        rw [filter_cons_of_neg apart, none]

theorem collect_long {rounds start : Nat} (hlt : (T.longSorted.drop start).length < rounds) :
    collect (findMatchingLongPart T wc) rounds (start - 1) =
      some ((T.longSorted.drop start).filter (longMatches wc)) := by
  induction rounds generalizing start with
  | zero => exact absurd hlt (Nat.not_lt_zero _)
  | succ rounds ih =>
    have next : ((start : Int) - 1 + 1).toNat = start := by omega
    rw [collect, findMatchingLongPart, next]
    cases hf : longFrom wc start (T.longSorted.drop start) with
    | none => rw [longFrom_none hf]
    | some result =>
      obtain ⟨ind, p⟩ := result
      obtain ⟨pre, post, whole, rfl, none, here⟩ := longFrom_some hf
      have behind : T.longSorted.drop (start + pre.length + 1) = post := by
        rw [Nat.add_assoc, ← drop_drop, whole, drop_append]
        simp
      have later := @ih (start + pre.length + 1) (by
        rw [behind]
        rw [whole, length_append, length_cons] at hlt
        omega)
      rw [behind] at later
      have eq : ((start + pre.length + 1 : Nat) : Int) - 1 = start + pre.length := by
        omega
      rw [eq] at later
      simp only [later, map_some]
      rw [whole, filter_append, none, filter_cons_of_pos here, nil_append]

theorem collect_hash (htab : List (List Char × Nat)) (rounds : Nat) :
    collect (findByHash T wc htab) (rounds + 1) 0 = some [] := rfl

end Searches

/-! ## Complete searches -/

section Complete

variable {naming : Naming} {wc : List Char}

def Matches (wc : List Char) (p : PN) : Prop :=
  lower wc = lower p.shorty ∨ lower wc = lower p.vlongy ∨ longMatches wc p = true

instance (wc : List Char) (p : PN) : Decidable (Matches wc p) := inferInstanceAs (Decidable (_ ∨ _))

def Pile.of (pile : Pile) (p : PN) : Int := pile (unpackPart p.index).2 (unpackPart p.index).1

/-- The tables are sorted permutations of the part table, and searches return every part whose name
matches, and each once. -/
structure Complete (naming : Naming) (wc : List Char) : Prop where
  shortSorted : (initializePartnameTables naming).shortSorted.Perm (partTable naming) ∧
    (initializePartnameTables naming).shortSorted.Pairwise fun p q => p.shorty ≤ q.shorty
  longSorted : (initializePartnameTables naming).longSorted.Perm (partTable naming) ∧
    (initializePartnameTables naming).longSorted.Pairwise fun p q => p.longy ≤ q.longy
  vlongSorted : (initializePartnameTables naming).vlongSorted.Perm (partTable naming) ∧
    (initializePartnameTables naming).vlongSorted.Pairwise fun p q => p.vlongy ≤ q.vlongy
  btpartmatch : wc.length < mbufSize → ∃ found,
    funBtpartmatch (initializePartnameTables naming) wc = some found ∧
      found.Perm (((partTable naming).filter fun p => Matches wc p).map PN.index)
  listMatching : ∀ pile, ∃ lines,
    listMatching (initializePartnameTables naming) (some wc) pile = some lines ∧
      lines.Perm (((partTable naming).filter fun p => longMatches wc p ∧ pile.of p ≠ 0).map
        fun p => (p, pile.of p))

theorem shortSorted_eq (naming : Naming) :
    (initializePartnameTables naming).shortSorted = sortedBy naming PN.shorty := by
  rw [initializePartnameTables]

theorem longSorted_eq (naming : Naming) :
    (initializePartnameTables naming).longSorted = sortedBy naming PN.longy := by
  rw [initializePartnameTables]

theorem vlongSorted_eq (naming : Naming) :
    (initializePartnameTables naming).vlongSorted = sortedBy naming PN.vlongy := by
  rw [initializePartnameTables]

theorem rounds_enough (start : Nat) : ((initializePartnameTables naming).longSorted.drop
    start).length < (initializePartnameTables naming).rounds := by
  have eq := (sortedBy_perm naming PN.longy).trans (sortedBy_perm naming PN.shorty).symm
  rw [length_drop, PartTables.rounds, PartTables.objectCount, longSorted_eq, shortSorted_eq,
    eq.length_eq]
  omega

theorem collect_long_zero : collect (findMatchingLongPart (initializePartnameTables naming) wc)
    (initializePartnameTables naming).rounds 0 =
      some (((sortedBy naming PN.longy).drop 1).filter (longMatches wc)) := by
  have := @collect_long (initializePartnameTables naming) wc _ 1 (rounds_enough 1)
  rwa [longSorted_eq, Nat.cast_one, sub_self] at this

theorem funBtpartmatch_eq (short : wc.length < mbufSize) :
    funBtpartmatch (initializePartnameTables naming) wc = some
      ((((sortedBy naming PN.longy).drop 1).filter (longMatches wc)).map PN.index) := by
  have ended (htab : List (List Char × Nat)) :
      collect (findByHash (initializePartnameTables naming) wc htab)
        (initializePartnameTables naming).rounds 0 = some [] := collect_hash _ _
  rw [funBtpartmatch, if_neg (Nat.not_le.mpr short), collect_long_zero]
  simp only [findMatchingShortPart, findMatchingVlongPart, ended, bind_eq_bind,
    bind_some, nil_append, append_nil]
  rw [funext printed_eq]

def found (naming : Naming) (wc : List Char) : List PN :=
  ((sortedBy naming PN.longy).drop 1).filter (longMatches wc)

theorem index_inj {p q : PN} (isPart : p ∈ partTable naming) (alsoPart : q ∈ partTable naming)
    (eq : p.index = q.index) : p = q :=
  inj_on_of_nodup_map (partTable_nodup naming) isPart alsoPart eq

theorem mem_sortedBy {a : PN → List Char} {p : PN} : p ∈ sortedBy naming a ↔ p ∈ partTable naming :=
  (sortedBy_perm naming a).mem_iff

theorem mem_found {p : PN} : p ∈ found naming wc ↔
    p ∈ partTable naming ∧ longMatches wc p = true ∧ (sortedBy naming PN.longy).head? ≠ some p := by
  have nodup := (sortedBy_nodup naming PN.longy).of_map
  rw [found, mem_filter, ← @mem_sortedBy naming PN.longy]
  cases table : sortedBy naming PN.longy with
  | nil => simp
  | cons first rest =>
    rw [table] at nodup
    have apart := (nodup_cons.mp nodup).1
    simp only [drop_succ_cons, drop_zero, mem_cons, head?_cons, ne_eq,
      Option.some.injEq]
    constructor
    · rintro ⟨mem, long⟩
      exact ⟨.inr mem, long, fun eq => apart (eq ▸ mem)⟩
    · rintro ⟨eq | mem, long, o⟩
      · exact absurd eq.symm o
      · exact ⟨mem, long⟩

theorem pile_of_foldl (pile : Pile) (list : List PN) (start : Pile) (q : PN) :
    (list.foldl (fun pile2 p => Pile.set pile2 (unpackPart p.index).2 (unpackPart p.index).1
      (pile.of p)) start).of q = if q.index ∈ list.map PN.index then pile.of q else start.of q := by
  induction list generalizing start with
  | nil => simp
  | cons p rest ih =>
    have place : ((unpackPart q.index).2 = (unpackPart p.index).2 ∧
        (unpackPart q.index).1 = (unpackPart p.index).1) ↔ q.index = p.index := by
      simp only [unpackPart, numItems]
      omega
    rw [foldl_cons, ih]
    by_cases later : q.index ∈ rest.map PN.index
    · rw [if_pos later, map_cons, if_pos (mem_cons_of_mem p.index later)]
    · rw [if_neg later, Pile.of, Pile.set]
      simp only [place, map_cons, mem_cons, later, or_false]
      split_ifs with eq
      · rw [Pile.of, Pile.of, eq]
      · rfl

theorem listMatching_eq (pile : Pile) :
    listMatching (initializePartnameTables naming) (some wc) pile = some
      (((sortedBy naming PN.shorty).filter fun p => p ∈ found naming wc ∧ pile.of p ≠ 0).map
        fun p => (p, pile.of p)) := by
  rw [listMatching]
  simp only [collect_long_zero, bind_eq_bind, bind_some, isSome_some, if_true]
  rw [← found, shortSorted_eq, ← filterMap_eq_map, ← filterMap_eq_filter,
    filterMap_filterMap]
  refine congrArg some (filterMap_congr fun p mem => ?_)
  have isPart := mem_sortedBy.mp mem
  have inside : p.index ∈ (found naming wc).map PN.index ↔ p ∈ found naming wc := by
    refine ⟨fun mapped => ?_, List.mem_map_of_mem⟩
    obtain ⟨q, isFound, eq⟩ := List.mem_map.mp mapped
    rwa [← index_inj (mem_found.mp isFound).1 isPart eq]
  have amount := pile_of_foldl pile (found naming wc) (fun _ _ => 0) p
  rw [Pile.of] at amount
  simp only [Pile.of] at amount ⊢
  rw [amount]
  simp only [inside]
  by_cases isFound : p ∈ found naming wc
  · by_cases some : pile (unpackPart p.index).2 (unpackPart p.index).1 = 0 <;>
      simp [isFound, some, Option.guard]
  · simp [isFound, Option.guard]

/-- The searches are complete when the first part by long names does not match, and what matches by
another name matches by its long name. -/
theorem complete_iff (naming : Naming) (wc : List Char) : Complete naming wc ↔
    (∀ first ∈ (sortedBy naming PN.longy).head?, longMatches wc first = false) ∧
      (wc.length < mbufSize → ∀ p ∈ partTable naming,
        lower wc = lower p.shorty ∨ lower wc = lower p.vlongy → longMatches wc p = true) := by
  constructor
  · intro complete
    refine ⟨fun first head => ?_, fun short p isPart named => ?_⟩
    · by_contra long
      rw [Bool.not_eq_false] at long
      have isPart := mem_sortedBy.mp (mem_of_mem_head? head)
      obtain ⟨lines, made, same⟩ := complete.listMatching fun _ _ => 1
      rw [listMatching_eq] at made
      obtain rfl := some.inj made
      have shown : (first, (1 : Int)) ∈ ((partTable naming).filter fun p => longMatches wc p ∧
          Pile.of (fun _ _ => 1) p ≠ 0).map fun p => (p, Pile.of (fun _ _ => 1) p) :=
        List.mem_map.mpr ⟨first, List.mem_filter.mpr ⟨isPart, by simp [long, Pile.of]⟩, rfl⟩
      obtain ⟨p, listed, is⟩ := List.mem_map.mp (same.mem_iff.mpr shown)
      obtain rfl := (Prod.mk.inj is).1
      have isFound := (of_decide_eq_true (List.mem_filter.mp listed).2).1
      exact (mem_found.mp isFound).2.2 head
    · obtain ⟨list, made, same⟩ := complete.btpartmatch short
      rw [funBtpartmatch_eq short] at made
      obtain rfl := some.inj made
      have matched : Matches wc p := named.elim .inl fun vlong => .inr (.inl vlong)
      have printed : p.index ∈ ((partTable naming).filter fun p => Matches wc p).map PN.index :=
        List.mem_map.mpr ⟨p, List.mem_filter.mpr ⟨isPart, decide_eq_true matched⟩, rfl⟩
      obtain ⟨q, isFound, is⟩ := List.mem_map.mp (same.mem_iff.mpr printed)
      obtain ⟨alsoPart, long, -⟩ := mem_found.mp isFound
      rwa [← index_inj alsoPart isPart is]
  · rintro ⟨first, named⟩
    have notFirst {p : PN} (long : longMatches wc p = true) :
        (sortedBy naming PN.longy).head? ≠ some p := fun head =>
      absurd (first p head) (by simp [long])
    have sorted (a : PN → List Char) : (sortedBy naming a).Perm (partTable naming) ∧
        (sortedBy naming a).Pairwise fun p q => a p ≤ a q := by
      refine ⟨sortedBy_perm naming a, ?_⟩
      rw [sortedBy_eq]
      exact Insertion.sort_sorted a _
    refine ⟨(shortSorted_eq naming).symm ▸ sorted PN.shorty,
      (longSorted_eq naming).symm ▸ sorted PN.longy,
      (vlongSorted_eq naming).symm ▸ sorted PN.vlongy, fun short => ⟨_, funBtpartmatch_eq short, ?_⟩,
      fun pile => ⟨_, listMatching_eq pile, ?_⟩⟩
    · refine List.Perm.map _ ((perm_ext_iff_of_nodup ?_ ?_).mpr fun p => ?_)
      · exact ((sortedBy_nodup naming PN.longy).of_map.sublist (drop_sublist 1 _)).filter _
      · exact (partTable_nodup naming).of_map.filter _
      · rw [← found, mem_found, mem_filter, decide_eq_true_iff]
        refine and_congr_right fun isPart => ⟨fun long => .inr (.inr long.1), fun matched => ?_⟩
        have long : longMatches wc p = true := by
          rcases matched with short' | vlong | long
          · exact named short p isPart (.inl short')
          · exact named short p isPart (.inr vlong)
          · exact long
        exact ⟨long, notFirst long⟩
    · refine List.Perm.map _ ?_
      refine ((sortedBy_perm naming PN.shorty).filter _).trans ?_
      rw [filter_congr fun p isPart => ?_]
      rw [decide_eq_decide, mem_found]
      exact ⟨fun ⟨⟨_, long, _⟩, lies⟩ => ⟨long, lies⟩,
        fun ⟨long, lies⟩ => ⟨⟨isPart, long, notFirst long⟩, lies⟩⟩

def oneLaser : Naming where
  figureOutName b id := if b = 0 ∧ id = 1 then some ['I', 'S', '.', 'L', 'a', 's', 'e', 'r'] else none
  figureOutSname b id := if b = 0 ∧ id = 1 then some ['L', 'a', 's', 'e', 'r'] else none
  figureOutShname b id := if b = 0 ∧ id = 1 then some ['L', 'a'] else none
  getPartBrandName _ _ := none

/-- The only part there is is not found by its long name, nor by its short one. -/
theorem first_part_is_missed :
    (partTable oneLaser).map PN.index = [1] ∧
      Matches ['l', 'a', 's', 'e', 'r'] ⟨['L', 'a'], ['L', 'a', 's', 'e', 'r'],
        ['I', 'S', '.', 'L', 'a', 's', 'e', 'r'], 1⟩ ∧
      funBtpartmatch (initializePartnameTables oneLaser) ['l', 'a', 's', 'e', 'r'] = some [] ∧
      funBtpartmatch (initializePartnameTables oneLaser) ['l', 'a'] = some [] := by
  decide +kernel

end Complete

end BattletechMux.Parts
