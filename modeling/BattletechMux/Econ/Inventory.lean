/-
Module: BattletechMux.Econ.Inventory
Purpose: The part inventory of econ.c, over the text of its attribute, and the list of entries that
  the text is.
Trusted boundary: the table of part names is given
-/
import Mathlib.Data.List.Nodup
import BattletechMux.Foundation.CText
import BattletechMux.Match.Wild
import BattletechMux.Foundation.Machine

namespace BattletechMux.Econ

open Match (lbufSize)

section

open CText (decimal scanInt strstr)

def specialBaseIndex : Int := 394

def cargoBaseIndex : Int := 512

def handOrFootActuator : Int := 3

def sActuator : Int := 36

def i2Special (a : Int) : Int := a + specialBaseIndex

def cargo (a : Int) : Int := a + cargoBaseIndex

def isSpecial (a : Int) : Bool := specialBaseIndex ≤ a ∧ a < cargoBaseIndex

def isActuator (a : Int) : Bool := isSpecial a ∧ a ≤ i2Special handOrFootActuator

/-- A value an `int` can have. -/
def IsInt (n : Int) : Prop := -2 ^ 31 ≤ n ∧ n < 2 ^ 31

instance (n : Int) : Decidable (IsInt n) := inferInstanceAs (Decidable (_ ∧ _))

/-- `remove_entry`; `entry` is the offset of the `[`. -/
def removeEntry (alku : List Char) (entry : Nat) : List Char :=
  match strstr [']'] (alku.drop entry) with
  | none => alku
  | some j =>
    match alku.drop (entry + j + 1) with
    | [] => if entry = 0 then [] else alku.take (entry - 1)
    | _ :: rest => alku.take entry ++ rest

def addEntry (to' data : List Char) : List Char :=
  if to' = [] then '[' :: data ++ [']'] else to' ++ ',' :: '[' :: data ++ [']']

/-- `"[%d,%d,"`. -/
def entryKey (i b : Int) : List Char := '[' :: decimal i ++ ',' :: decimal b ++ [',']

/-- `find_entry`: the offset of the entry. -/
def findEntry (s : List Char) (i b : Int) : Option Nat := strstr (entryKey i b) s

/-- `%d` after a character. -/
def scanAfter (c : Char) : List Char → Option (Int × List Char)
  | [] => none
  | d :: s => if d = c then scanInt s else none

/-- `i3`, when `sscanf(u, "[%d,%d,%d]", &i1, &i2, &i3) == 3`. -/
def scanCount (u : List Char) : Option Int := do
  let (_, u) ← scanAfter '[' u
  let (_, u) ← scanAfter ',' u
  let (i3, _) ← scanAfter ',' u
  some i3

/-- What `tprintf("%d,%d,%d", id, brand, base)` writes. -/
def entryData (id brand base : Int) : List Char :=
  decimal id ++ ',' :: decimal brand ++ ',' :: decimal base

/-- The count of an entry that may have been found, and the text without it. -/
def takeOut (t : List Char) : Option Nat → Int × List Char
  | some u => ((scanCount (t.drop u)).getD 0, removeEntry t u)
  | none => (0, t)

section Parts

variable (indexSorted : Int → Int → Bool)

/-- `get_parts_short_name`: whose string it is.  `index_sorted` says which parts have a
name of their own; the others of a brand have that of the part without one. -/
def getPartsShortName (i b : Int) : Option (Int × Int) :=
  if indexSorted i b then some (i, b) else if indexSorted i 0 then some (i, 0) else none

def realBrand (id brand : Int) : Int :=
  if brand ≠ 0 ∧ getPartsShortName indexSorted id brand = getPartsShortName indexSorted id 0 then 0
  else brand

def econFindItems (t : List Char) (id brand : Int) : Int :=
  match findEntry t id (realBrand indexSorted id brand) with
  | some u => (scanCount (t.drop u)).getD 0
  | none => 0

/-- `econ_change_items`, with `again` for its call of itself. -/
def changeItems (again : List Char → Int → Int → Int → Option (List Char)) (t : List Char)
    (id brand num : Int) : Option (List Char) :=
  let brand := realBrand indexSorted id brand
  let (base, rest) := takeOut t (findEntry t id brand)
  let base := base + num
  if ¬ IsInt base then none
  else if base ≤ 0 then some rest
  else if isActuator id then again rest (cargo sActuator) brand base
  else
    let rest := addEntry rest (entryData id brand base)
    if rest.length < lbufSize then some rest else none

/-- `econ_change_items`.  The call of itself is for a part that is no actuator, so it
makes no further one. -/
def econChangeItems : List Char → Int → Int → Int → Option (List Char) :=
  changeItems indexSorted (changeItems indexSorted fun _ _ _ _ => none)

def econSetItems (t : List Char) (id brand num : Int) : Option (List Char) :=
  let i := econFindItems indexSorted t id brand
  if i ≠ num then
    if IsInt (num - i) then econChangeItems indexSorted t id brand (num - i) else none
  else some t

inductive Op
  | change (id brand num : Int)
  | set (id brand num : Int)
deriving DecidableEq, Repr

def step (t : List Char) : Op → Option (List Char)
  | .change id brand num => econChangeItems indexSorted t id brand num
  | .set id brand num => econSetItems indexSorted t id brand num

end Parts

end

open List hiding map_map
open Option hiding map map_map
open CText (decimal scanInt strstr Stops stops_cons decimal_inj decimal_chars scanInt_decimal strstr_skip
  strstr_of_prefix strstr_cons_of_not)

structure Entry where
  id : Int
  brand : Int
  count : Int
deriving DecidableEq, Repr

def Entry.key (e : Entry) : Int × Int := (e.id, e.brand)

def Entry.data (e : Entry) : List Char := entryData e.id e.brand e.count

def Entry.text (e : Entry) : List Char := '[' :: e.data ++ [']']

def tail (entries : List Entry) : List Char := entries.flatMap fun e => ',' :: e.text

def lead (entries : List Entry) : List Char := entries.flatMap fun e => e.text ++ [',']

def text : List Entry → List Char
  | [] => []
  | e :: entries => e.text ++ tail entries

section Text

variable {before after entries : List Entry} {e : Entry} {i b : Int}

theorem tail_cons (e : Entry) (entries : List Entry) :
    tail (e :: entries) = ',' :: text (e :: entries) := rfl

theorem lead_cons (e : Entry) (entries : List Entry) :
    lead (e :: entries) = e.text ++ ',' :: lead entries := by
  simp [lead]

theorem text_split (before : List Entry) (e : Entry) (after : List Entry) :
    text (before ++ e :: after) = lead before ++ (e.text ++ tail after) := by
  induction before with
  | nil => rfl
  | cons fst before ih =>
    have rest : tail (before ++ e :: after) = ',' :: text (before ++ e :: after) := by
      cases before <;> rfl
    rw [cons_append, text, rest, ih, lead_cons]
    simp

theorem lead_eq (some' : before ≠ []) : lead before = text before ++ [','] := by
  obtain ⟨front, last, rfl⟩ := eq_nil_or_concat' before |>.resolve_left some'
  rw [text_split front last []]
  simp [lead, tail]

theorem entryText_chars {c : Char} (mem : c ∈ e.data) : c = '-' ∨ c = ',' ∨ c.isDigit = true := by
  simp only [Entry.data, entryData, mem_append, mem_cons] at mem
  rcases mem with (inId | comma | inBrand) | comma | inCount
  · exact (decimal_chars inId).imp_right .inr
  · exact .inr (.inl comma)
  · exact (decimal_chars inBrand).imp_right .inr
  · exact .inr (.inl comma)
  · exact (decimal_chars inCount).imp_right .inr

theorem notMem_data {c : Char} (notSign : c ≠ '-') (notComma : c ≠ ',')
    (notDigit : c.isDigit = false) : c ∉ e.data := fun mem => by
  rcases entryText_chars mem with sign | comma | digit
  · exact notSign sign
  · exact notComma comma
  · exact absurd digit (by simp [notDigit])

variable {s : List Char}

theorem entryKey_starts : entryKey i b <+: e.text ++ s ↔ e.key = (i, b) := by
  constructor
  · rintro ⟨more, eq⟩
    simp only [entryKey, Entry.text, Entry.data, entryData, cons_append, append_assoc,
      List.cons.injEq, true_and] at eq
    obtain ⟨sameId, rest⟩ := decimal_inj (stops_cons (by decide) _) (stops_cons (by decide) _) eq
    obtain ⟨sameBrand, _⟩ :=
      decimal_inj (stops_cons (by decide) _) (stops_cons (by decide) _) (cons.inj rest).2
    rw [Entry.key, sameId, sameBrand]
  · intro eq
    obtain ⟨rfl, rfl⟩ := Prod.ext_iff.mp eq
    refine ⟨decimal e.count ++ ']' :: s, ?_⟩
    simp [entryKey, Entry.key, Entry.text, Entry.data, entryData]

theorem find_past (o : e.key ≠ (i, b)) :
    findEntry (e.text ++ s) i b = (findEntry s i b).map (e.text.length + ·) := by
  have notHere : ¬ entryKey i b <+: e.text ++ s := fun here => o (entryKey_starts.mp here)
  unfold findEntry
  rw [Entry.text, append_assoc, cons_append, strstr_cons_of_not]
  · have absent : '[' ∉ e.data ++ [']'] := by
      rw [mem_append, not_or]
      exact ⟨notMem_data (by decide) (by decide) (by decide), by decide⟩
    rw [← append_assoc, entryKey, cons_append, cons_append, strstr_skip absent,
      Option.map_map]
    congr 1
    funext offset
    simp
    omega
  · rwa [Entry.text, append_assoc, cons_append] at notHere

theorem find_comma (s : List Char) : findEntry (',' :: s) i b = (findEntry s i b).map (1 + ·) :=
  @strstr_skip '[' (decimal i ++ ',' :: decimal b ++ [',']) [','] s (by decide)

theorem find_lead (others : ∀ e ∈ before, e.key ≠ (i, b)) :
    findEntry (lead before ++ s) i b = (findEntry s i b).map ((lead before).length + ·) := by
  induction before with
  | nil => simp [lead]
  | cons e before ih =>
    rw [lead_cons, append_assoc, find_past (others e mem_cons_self), cons_append,
      find_comma, ih fun e mem => others e (mem_cons_of_mem _ mem),
      Option.map_map, Option.map_map]
    congr 1
    funext offset
    simp
    omega

theorem find_here (eq : e.key = (i, b)) : findEntry (e.text ++ s) i b = some 0 :=
  strstr_of_prefix (entryKey_starts.mpr eq)

theorem find_some (others : ∀ e ∈ before, e.key ≠ (i, b)) (eq : e.key = (i, b)) :
    findEntry (text (before ++ e :: after)) i b = some (lead before).length := by
  rw [text_split, find_lead others, find_here eq]
  rfl

theorem find_none (others : ∀ e ∈ entries, e.key ≠ (i, b)) : findEntry
    (text entries) i b = none := by
  have nothing : findEntry [] i b = none := by
    unfold findEntry strstr
    exact if_neg (cons_ne_nil _ _)
  obtain rfl | ⟨front, last, rfl⟩ := eq_nil_or_concat' entries
  · exact nothing
  · rw [text_split front last [], find_lead fun e mem => others e (mem_append_left _ mem),
      find_past (others last (mem_append_right _ (mem_singleton_self last)))]
    exact congrArg (fun hf => (hf.map (last.text.length + ·)).map ((lead front).length + ·))
      nothing

theorem scanAfter_decimal {c : Char} (n : Int) (stops : Stops s) :
    scanAfter c (c :: (decimal n ++ s)) = some (n, s) :=
  (if_pos rfl).trans (scanInt_decimal n stops)

theorem scanCount_text (e : Entry) (s : List Char) : scanCount (e.text ++ s) = some e.count := by
  have shape : e.text ++ s = '[' :: (decimal e.id ++ ',' :: (decimal e.brand ++
      ',' :: (decimal e.count ++ ']' :: s))) := by
    simp [Entry.text, Entry.data, entryData]
  rw [shape, scanCount, scanAfter_decimal _ (stops_cons (by decide) _)]
  simp only [bind_eq_bind, bind_some]
  rw [scanAfter_decimal _ (stops_cons (by decide) _), bind_some,
    scanAfter_decimal _ (stops_cons (by decide) _)]
  rfl

theorem find_close (e : Entry) (s : List Char) :
    strstr [']'] (e.text ++ s) = some (e.text.length - 1) := by
  have absent : ']' ∉ '[' :: e.data := by
    rw [mem_cons, not_or]
    exact ⟨by decide, notMem_data (by decide) (by decide) (by decide)⟩
  rw [Entry.text, append_assoc, strstr_skip absent, strstr_of_prefix ⟨s, rfl⟩]
  simp

theorem removeEntry_text : removeEntry (text (before ++ e :: after)) (lead before).length =
    text (before ++ after) := by
  have len : (lead before).length + (e.text.length - 1) + 1 =
      (lead before ++ e.text).length := by
    rw [length_append]
    have : 0 < e.text.length := by simp [Entry.text]
    omega
  unfold removeEntry
  rw [text_split, drop_left, find_close]
  simp only [len, ← append_assoc, drop_left]
  rw [append_assoc, take_left]
  cases after with
  | nil =>
    simp only [tail, flatMap_nil, append_nil]
    by_cases some' : before = []
    · subst some'
      rfl
    · rw [lead_eq some', if_neg (by simp), length_append, append_assoc]
      exact take_left
  | cons next after =>
    rw [tail_cons]
    simp only
    rw [text_split]
    rfl

theorem addEntry_text (entries : List Entry) (e : Entry) :
    addEntry (text entries) e.data = text (entries ++ [e]) := by
  rw [text_split entries e []]
  cases entries with
  | nil => simp [addEntry, text, lead, tail, Entry.text]
  | cons fst entries =>
    have some' : text (fst :: entries) ≠ [] := by simp [text, Entry.text]
    rw [addEntry, if_neg some', lead_eq (cons_ne_nil _ _)]
    simp [Entry.text, tail]

end Text

/-- The text of a store with at most one entry for a part, each with a count above zero. -/
structure IsInventory (t : List Char) (entries : List Entry) : Prop where
  text : t = text entries
  nodup : (entries.map Entry.key).Nodup
  positive : ∀ e ∈ entries, 0 < e.count
  int : ∀ e ∈ entries, IsInt e.count
  /-- Actuators are kept as cargo. -/
  plain : ∀ e ∈ entries, isActuator e.id = false

def count (entries : List Entry) (key : Int × Int) : Int :=
  match entries.find? (·.key = key) with
  | some e => e.count
  | none => 0

def without (entries : List Entry) (key : Int × Int) : List Entry :=
  entries.filter (·.key ≠ key)

section Counts

variable {t : List Char} {entries : List Entry} {key key' : Int × Int} {e : Entry}

theorem count_of_notMem (absent : ∀ e ∈ entries, e.key ≠ key) : count entries key = 0 := by
  rw [count, find?_eq_none.mpr (by simpa using absent)]

theorem count_append (absent : ∀ e ∈ entries, e.key ≠ key) (eq : e.key = key) :
    count (entries ++ [e]) key = e.count := by
  rw [count, find?_append, find?_eq_none.mpr (by simpa using absent)]
  simp [eq]

theorem count_append_other (o : e.key ≠ key) :
    count (entries ++ [e]) key = count entries key := by
  rw [count, count, find?_append]
  cases entries.find? (·.key = key) <;> simp [o]

theorem notMem_without : ∀ e ∈ without entries key, e.key ≠ key := by
  intro e mem
  simpa using (mem_filter.mp mem).2

theorem count_without_other (o : key' ≠ key) :
    count (without entries key) key' = count entries key' := by
  rw [count, count, without, find?_filter]
  congr 1
  apply congrArg (List.find? · entries)
  funext e
  by_cases eq : e.key = key'
  · simp [eq, o]
  · simp [eq]

theorem split_key (nodup : (entries.map Entry.key).Nodup) (key : Int × Int) :
    (∀ e ∈ entries, e.key ≠ key) ∨ ∃ before e after, entries = before ++ e :: after ∧
      e.key = key ∧ (∀ e ∈ before, e.key ≠ key) ∧ ∀ e ∈ after, e.key ≠ key := by
  by_cases present : ∃ e ∈ entries, e.key = key
  · obtain ⟨e, mem, rfl⟩ := present
    obtain ⟨before, after, rfl⟩ := append_of_mem mem
    rw [map_append, map_cons, nodup_middle, nodup_cons, mem_append,
      not_or] at nodup
    refine .inr ⟨before, e, after, rfl, rfl, fun o inBefore eq => ?_,
      fun o inAfter eq => ?_⟩
    · exact nodup.1.1 (mem_map.mpr ⟨o, inBefore, eq⟩)
    · exact nodup.1.2 (mem_map.mpr ⟨o, inAfter, eq⟩)
  · exact .inl fun e mem eq => present ⟨e, mem, eq⟩

theorem without_of_notMem (absent : ∀ e ∈ entries, e.key ≠ key) : without entries key = entries :=
  filter_eq_self.mpr (by simpa using absent)

theorem without_split {before after : List Entry} (eq : e.key = key)
    (others : ∀ e ∈ before, e.key ≠ key) (others' : ∀ e ∈ after, e.key ≠ key) :
    without (before ++ e :: after) key = before ++ after := by
  rw [without, filter_append, filter_cons_of_neg (by simp [eq])]
  exact congrArg₂ (· ++ ·) (without_of_notMem others) (without_of_notMem others')

theorem count_split {before after : List Entry} (eq : e.key = key)
    (others : ∀ e ∈ before, e.key ≠ key) : count (before ++ e :: after) key = e.count := by
  rw [count, find?_append, find?_eq_none.mpr (by simpa using others)]
  simp [eq]

namespace IsInventory

theorem nil : IsInventory [] [] where
  text := rfl
  nodup := nodup_nil
  positive _ none' := absurd none' not_mem_nil
  int _ none' := absurd none' not_mem_nil
  plain _ none' := absurd none' not_mem_nil

theorem without (inventory : IsInventory t entries) (key : Int × Int) :
    IsInventory (Econ.text (without entries key)) (without entries key) where
  text := rfl
  nodup := inventory.nodup.sublist (filter_sublist.map _)
  positive e mem := inventory.positive e (mem_filter.mp mem).1
  int e mem := inventory.int e (mem_filter.mp mem).1
  plain e mem := inventory.plain e (mem_filter.mp mem).1

theorem append (inventory : IsInventory t entries) (absent : ∀ f ∈ entries, f.key ≠ e.key)
    (positive : 0 < e.count) (int : IsInt e.count) (plain : isActuator e.id = false) :
    IsInventory (Econ.text (entries ++ [e])) (entries ++ [e]) where
  text := rfl
  nodup := by
    rw [map_append, map_singleton, nodup_append]
    refine ⟨inventory.nodup, nodup_singleton _, fun key mem key' member' eq => ?_⟩
    obtain ⟨f, inEntries, rfl⟩ := mem_map.mp mem
    exact absent f inEntries (eq.trans (mem_singleton.mp member'))
  positive f mem := (mem_append.mp mem).elim (inventory.positive f) fun last =>
    mem_singleton.mp last ▸ positive
  int f mem := (mem_append.mp mem).elim (inventory.int f) fun last =>
    mem_singleton.mp last ▸ int
  plain f mem := (mem_append.mp mem).elim (inventory.plain f) fun last =>
    mem_singleton.mp last ▸ plain

theorem takeOut_eq (inventory : IsInventory t entries) (i b : Int) :
    takeOut t (findEntry t i b) =
      (count entries (i, b), Econ.text (Econ.without entries (i, b))) := by
  rw [inventory.text]
  rcases split_key inventory.nodup (i, b) with absent | ⟨before, e, after, rfl, eq, others, others'⟩
  · rw [find_none absent, count_of_notMem absent, without_of_notMem absent]
    rfl
  · rw [find_some others eq, count_split eq others, without_split eq others others']
    rw [takeOut, removeEntry_text, text_split, drop_left, scanCount_text]
    rfl

theorem count_nonneg (inventory : IsInventory t entries) (key : Int × Int) :
    0 ≤ count entries key := by
  rw [count]
  split
  · rename_i e hf
    exact (inventory.positive e (mem_of_find?_eq_some hf)).le
  · exact le_refl 0

theorem count_int (inventory : IsInventory t entries) (key : Int × Int) :
    IsInt (count entries key) := by
  rw [count]
  split
  · rename_i e hf
    exact inventory.int e (mem_of_find?_eq_some hf)
  · decide

theorem count_actuator (inventory : IsInventory t entries) {i : Int}
    (actuator : isActuator i = true)
    (b : Int) : count entries (i, b) = 0 := by
  apply count_of_notMem
  intro e mem eq
  have plain := inventory.plain e mem
  rw [show e.id = i from congrArg Prod.fst eq, actuator] at plain
  cases plain

end IsInventory

end Counts

section Calls

variable {indexSorted : Int → Int → Bool} {t : List Char} {entries : List Entry}

def part (indexSorted : Int → Int → Bool) (id brand : Int) : Int × Int :=
  (id, realBrand indexSorted id brand)

theorem find_eq (inventory : IsInventory t entries) (id brand : Int) :
    econFindItems indexSorted t id brand = count entries (part indexSorted id brand) := by
  have looked := congrArg Prod.fst (inventory.takeOut_eq id (realBrand indexSorted id brand))
  refine Eq.trans ?_ looked
  rw [econFindItems]
  cases findEntry t id (realBrand indexSorted id brand) <;> rfl

def changed (entries : List Entry) (key : Int × Int) (base : Int) : List Entry :=
  if base ≤ 0 then without entries key else without entries key ++ [⟨key.1, key.2, base⟩]

theorem changeItems_eq (inventory : IsInventory t entries)
    (again : List Char → Int → Int → Int → Option (List Char)) (id brand num : Int) :
    changeItems indexSorted again t id brand num =
      let key := part indexSorted id brand
      let base := count entries key + num
      if ¬ IsInt base then none
      else if base ≤ 0 then some (text (changed entries key base))
      else if isActuator id then again (text (without entries key)) (cargo sActuator) key.2 base
      else if (text (changed entries key base)).length < lbufSize then
        some (text (changed entries key base))
      else none := by
  rw [changeItems]
  simp only [inventory.takeOut_eq id (realBrand indexSorted id brand), part]
  by_cases low : count entries (id, realBrand indexSorted id brand) + num ≤ 0
  · simp only [changed, low, if_true]
  · have added := addEntry_text (without entries (id, realBrand indexSorted id brand))
      ⟨id, realBrand indexSorted id brand, count entries (id, realBrand indexSorted id brand) + num⟩
    simp only [changed, low, if_false, ← added, Entry.data]

theorem isActuator_cargo : isActuator (cargo sActuator) = false := by decide

theorem changed_inventory (inventory : IsInventory t entries) {key : Int × Int} {base : Int}
    (int : IsInt base) (plain : 0 < base → isActuator key.1 = false) :
    IsInventory (text (changed entries key base)) (changed entries key base) := by
  unfold changed
  split_ifs with low
  · exact inventory.without key
  · exact (inventory.without key).append notMem_without (not_le.mp low) int (plain (not_le.mp low))

theorem changeItems_plain (inventory : IsInventory t entries)
    {again : List Char → Int → Int → Int → Option (List Char)} {id brand num : Int}
    (plain : isActuator id = false) {t' : List Char}
    (changes : changeItems indexSorted again t id brand num = some t') :
    t' = text (changed entries (part indexSorted id brand)
      (count entries (part indexSorted id brand) + num)) ∧
    IsInventory t' (changed entries (part indexSorted id brand)
      (count entries (part indexSorted id brand) + num)) := by
  rw [changeItems_eq inventory again] at changes
  simp only [plain, Bool.false_eq_true, if_false] at changes
  split_ifs at changes with int low fits
  all_goals
    cases changes
    exact ⟨rfl, changed_inventory inventory int fun _ => plain⟩

theorem econChangeItems_inventory (inventory : IsInventory t entries) {id brand num : Int}
    {t' : List Char} (changes : econChangeItems indexSorted t id brand num = some t') :
    ∃ entries', IsInventory t' entries' := by
  cases actuator : isActuator id with
  | false => exact ⟨_, (changeItems_plain inventory actuator changes).2⟩
  | true =>
    rw [econChangeItems, changeItems_eq inventory] at changes
    simp only [actuator, if_true] at changes
    split_ifs at changes with int low
    · cases changes
      exact ⟨_, changed_inventory inventory int fun high => absurd low (not_le.mpr high)⟩
    · exact ⟨_, (changeItems_plain (inventory.without _) isActuator_cargo changes).2⟩

theorem step_inventory {op : Op} (inventory : IsInventory t entries) {t' : List Char}
    (stepped : step indexSorted t op = some t') : ∃ entries', IsInventory t' entries' := by
  cases op with
  | change id brand num => exact econChangeItems_inventory inventory stepped
  | set id brand num =>
    rw [step, econSetItems] at stepped
    split_ifs at stepped
    · exact econChangeItems_inventory inventory stepped
    · cases stepped
      exact ⟨entries, inventory⟩

theorem run_inventory {ops : List Op} (ran : Machine.run (step indexSorted) [] ops = some t) :
    ∃ entries, IsInventory t entries :=
  @Machine.run_guarded _ _ (step indexSorted) (fun _ _ => True)
    (fun t => ∃ entries, IsInventory t entries)
    (fun _ _ _ ⟨_, inventory⟩ _ stepped => step_inventory inventory stepped) _ _ ops ⟨[], .nil⟩
    (Machine.guarded_of_forall (fun _ _ => trivial) _ _) ran

theorem count_changed {key : Int × Int} {base : Int} :
    count (changed entries key base) key = max 0 base := by
  unfold changed
  split_ifs with low
  · rw [count_of_notMem notMem_without, max_eq_left low]
  · rw [max_eq_right (not_le.mp low).le]
    exact count_append notMem_without rfl

theorem count_changed_other {key key' : Int × Int} {base : Int} (o : key' ≠ key) :
    count (changed entries key base) key' = count entries key' := by
  unfold changed
  split_ifs
  · exact count_without_other o
  · rw [count_append_other (Ne.symm o), count_without_other o]

end Calls

section Lengths

variable {t : List Char} {entries : List Entry} {key : Int × Int} {base : Int}

theorem length_tail (some' : entries ≠ []) : (tail entries).length = (text entries).length + 1 := by
  cases entries with
  | nil => exact absurd rfl some'
  | cons e entries => rw [tail_cons, length_cons]

theorem length_tail_append (before after : List Entry) :
    (tail (before ++ after)).length = (tail before).length + (tail after).length := by
  rw [tail, flatMap_append, length_append, tail, tail]

theorem length_tail_singleton (e : Entry) : (tail [e]).length = e.text.length + 1 := by
  simp [tail]

/-- The length of the text after a change to a count above zero: the new entry takes the
room of the old one, or its own and that of a comma. -/
def newLength (t : List Char) (key : Int × Int) (old new : Int) : Nat :=
  let length (n : Int) := (entryData key.1 key.2 n).length + 2
  (if old = 0 then t.length + (if t = [] then 0 else 1) else t.length - length old) + length new

theorem length_text (e : Entry) : e.text.length = e.data.length + 2 := by
  simp [Entry.text]

theorem length_changed (inventory : IsInventory t entries) (high : 0 < base) :
    (text (changed entries key base)).length = newLength t key (count entries key) base := by
  rw [changed, if_neg (not_le.mpr high)]
  have whole := length_tail (append_ne_nil_of_right_ne_nil (without entries key)
    (cons_ne_nil (⟨key.1, key.2, base⟩ : Entry) []))
  rw [length_tail_append, length_tail_singleton, length_text] at whole
  rcases split_key inventory.nodup key with absent | ⟨before, e, after, rfl, eq, others, others'⟩
  · rw [without_of_notMem absent] at whole ⊢
    rw [newLength, count_of_notMem absent, inventory.text, if_pos rfl]
    cases entries with
    | nil =>
      rw [show tail [] = [] from rfl, length_nil] at whole
      simp only [Entry.data] at whole
      rw [show Econ.text [] = [] from rfl, if_pos rfl, length_nil]
      dsimp only
      omega
    | cons fst entries =>
      have filled : Econ.text (fst :: entries) ≠ [] := by simp [Econ.text, Entry.text]
      rw [length_tail (cons_ne_nil _ _)] at whole
      simp only [Entry.data] at whole
      rw [if_neg filled]
      dsimp only
      omega
  · have old := length_tail (append_ne_nil_of_right_ne_nil before (cons_ne_nil e after))
    have joined := length_tail_append [e] after
    rw [length_tail_singleton, length_text] at joined
    rw [length_tail_append] at old
    rw [without_split eq others others', length_tail_append] at whole
    rw [without_split eq others others', newLength, inventory.text, count_split eq others,
      if_neg (inventory.positive e (by simp)).ne']
    subst eq
    rw [singleton_append] at joined
    simp only [Entry.data, Entry.key] at whole joined ⊢
    omega

end Lengths

section Meeting

variable (indexSorted : Int → Int → Bool)

def Unchanged (t t' : List Char) (id brand : Int) : Prop :=
  ∀ id' brand', part indexSorted id' brand' ≠ part indexSorted id brand →
    econFindItems indexSorted t' id' brand' = econFindItems indexSorted t id' brand'

def Meets (t : List Char) : Op → Prop
  | .change id brand num => ∃ t', econChangeItems indexSorted t id brand num = some t' ∧
      econFindItems indexSorted t' id brand = max 0 (econFindItems indexSorted t id brand + num) ∧
      Unchanged indexSorted t t' id brand
  | .set id brand num => ∃ t', econSetItems indexSorted t id brand num = some t' ∧
      econFindItems indexSorted t' id brand = num ∧ Unchanged indexSorted t t' id brand ∧
      econSetItems indexSorted t' id brand num = some t'

/-- The change makes the count an `int` and fits the buffer, and is no increase of an
actuator. -/
def PermittedChange (t : List Char) (id brand num : Int) : Prop :=
  let old := econFindItems indexSorted t id brand
  IsInt (old + num) ∧ (isActuator id = true → num ≤ 0) ∧
    (0 < old + num → newLength t (part indexSorted id brand) old (old + num) < lbufSize)

def Permitted (t : List Char) : Op → Prop
  | .change id brand num => PermittedChange indexSorted t id brand num
  | .set id brand num =>
    let old := econFindItems indexSorted t id brand
    0 ≤ num ∧ (num = old ∨ PermittedChange indexSorted t id brand (num - old))

variable {indexSorted} {t : List Char} {entries : List Entry} {id brand num : Int}

theorem unchanged_changed (inventory : IsInventory t entries) {base : Int} {t' : List Char}
    (inventory' : IsInventory t' (changed entries (part indexSorted id brand) base)) :
    Unchanged indexSorted t t' id brand := by
  intro id' brand' o
  rw [find_eq inventory', find_eq inventory, count_changed_other o]

theorem change_actuator (inventory : IsInventory t entries) (actuator : isActuator id = true)
    (int : IsInt num) (low : num ≤ 0) :
    econChangeItems indexSorted t id brand num =
      some (text (changed entries (part indexSorted id brand) num)) := by
  rw [econChangeItems, changeItems_eq inventory]
  have none' : count entries (part indexSorted id brand) = 0 := inventory.count_actuator actuator _
  simp only [none', zero_add, int, not_true_eq_false, if_false, low, if_true]

theorem change_permitted (inventory : IsInventory t entries)
    (permitted : PermittedChange indexSorted t id brand num) :
    Meets indexSorted t (.change id brand num) := by
  obtain ⟨int, increase, fits⟩ := permitted
  rw [find_eq inventory] at int fits
  have kept : ∀ {t'}, econChangeItems indexSorted t id brand num = some t' →
      IsInventory t' (changed entries (part indexSorted id brand)
        (count entries (part indexSorted id brand) + num)) →
      Meets indexSorted t (.change id brand num) := fun changes inventory' =>
    ⟨_, changes, by rw [find_eq inventory', find_eq inventory, count_changed],
      unchanged_changed inventory inventory'⟩
  cases actuator : isActuator id with
  | true =>
    have none' : count entries (part indexSorted id brand) = 0 :=
      inventory.count_actuator actuator _
    rw [none', zero_add] at int kept
    exact kept (change_actuator inventory actuator int (increase actuator))
      (changed_inventory inventory int fun high => absurd (increase actuator) (not_le.mpr high))
  | false =>
    have changes : econChangeItems indexSorted t id brand num =
        some (text (changed entries (part indexSorted id brand)
          (count entries (part indexSorted id brand) + num))) := by
      rw [econChangeItems, changeItems_eq inventory]
      simp only [int, not_true_eq_false, if_false, actuator, Bool.false_eq_true]
      split_ifs with low room
      · rfl
      · rfl
      · refine absurd ?_ room
        rw [length_changed inventory (not_le.mp low)]
        exact fits (not_le.mp low)
    exact kept changes (changed_inventory inventory int fun _ => actuator)

theorem permitted_of_change (inventory : IsInventory t entries)
    (meets : Meets indexSorted t (.change id brand num)) :
    PermittedChange indexSorted t id brand num := by
  obtain ⟨t', changes, hf, -⟩ := meets
  rw [find_eq inventory] at hf
  have int : IsInt (count entries (part indexSorted id brand) + num) := by
    by_contra overflow
    rw [econChangeItems, changeItems_eq inventory] at changes
    simp [overflow] at changes
  have increase : isActuator id = true → num ≤ 0 := by
    intro actuator
    obtain ⟨entries', inventory'⟩ := econChangeItems_inventory inventory changes
    have none' := inventory.count_actuator actuator (realBrand indexSorted id brand)
    have still := inventory'.count_actuator actuator (realBrand indexSorted id brand)
    rw [find_eq inventory', part, still, none', zero_add] at hf
    omega
  refine ⟨by rwa [find_eq inventory], increase, fun high => ?_⟩
  rw [find_eq inventory] at high ⊢
  have plain : isActuator id = false := by
    by_contra actuator
    rw [Bool.not_eq_false] at actuator
    have none' := inventory.count_actuator actuator (realBrand indexSorted id brand)
    rw [part, none'] at high
    have := increase actuator
    omega
  rw [← length_changed inventory high]
  by_contra full
  rw [econChangeItems, changeItems_eq inventory] at changes
  simp [int, not_le.mpr high, plain, full] at changes

theorem set_same (eq : econFindItems indexSorted t id brand = num) :
    econSetItems indexSorted t id brand num = some t :=
  if_neg (not_not.mpr eq)

theorem set_other (inventory : IsInventory t entries) (wanted : 0 ≤ num) (int : IsInt num)
    (o : econFindItems indexSorted t id brand ≠ num) :
    econSetItems indexSorted t id brand num =
      econChangeItems indexSorted t id brand (num - econFindItems indexSorted t id brand) := by
  refine (if_pos o).trans (if_pos ?_)
  rw [find_eq inventory]
  have nonneg := inventory.count_nonneg (part indexSorted id brand)
  have below := (inventory.count_int (part indexSorted id brand)).2
  exact ⟨by omega, by have := int.2; omega⟩

theorem set_permitted (inventory : IsInventory t entries)
    (permitted : Permitted indexSorted t (.set id brand num)) :
    Meets indexSorted t (.set id brand num) := by
  obtain ⟨wanted, permitted⟩ := permitted
  by_cases eq : econFindItems indexSorted t id brand = num
  · exact ⟨t, set_same eq, eq, fun _ _ _ => rfl, set_same eq⟩
  · have allowed := permitted.resolve_left (Ne.symm eq)
    have int := allowed.1
    rw [add_sub_cancel] at int
    obtain ⟨t', changes, hf, unchanged⟩ := change_permitted inventory allowed
    rw [add_sub_cancel, max_eq_right wanted] at hf
    exact ⟨t', (set_other inventory wanted int eq).trans changes, hf, unchanged, set_same hf⟩

theorem permitted_of_set (inventory : IsInventory t entries)
    (meets : Meets indexSorted t (.set id brand num)) :
    Permitted indexSorted t (.set id brand num) := by
  obtain ⟨t', sets, hf, unchanged, -⟩ := meets
  obtain ⟨entries', inventory'⟩ :=
    @step_inventory indexSorted t entries (.set id brand num) inventory _ sets
  have wanted : 0 ≤ num := by
    rw [← hf, find_eq inventory']
    exact inventory'.count_nonneg _
  have int : IsInt num := by
    rw [← hf, find_eq inventory']
    exact inventory'.count_int _
  refine ⟨wanted, ?_⟩
  by_cases eq : econFindItems indexSorted t id brand = num
  · exact .inl eq.symm
  · rw [set_other inventory wanted int eq] at sets
    refine .inr (permitted_of_change inventory ⟨t', sets, ?_, unchanged⟩)
    rw [hf, add_sub_cancel, max_eq_right wanted]

theorem meets_iff (inventory : IsInventory t entries) (op : Op) :
    Meets indexSorted t op ↔ Permitted indexSorted t op := by
  cases op with
  | change id brand num => exact ⟨permitted_of_change inventory, change_permitted inventory⟩
  | set id brand num => exact ⟨permitted_of_set inventory, set_permitted inventory⟩

end Meeting

/-- In every reached store a part has at most one entry, with a count above zero, and the
next call does what it should exactly when it is permitted. -/
theorem econ_map_iff (indexSorted : Int → Int → Bool) (ops : List Op) (t : List Char)
    (reached : Machine.run (step indexSorted) [] ops = some t) :
    (∃ entries, IsInventory t entries) ∧
      ∀ op, Meets indexSorted t op ↔ Permitted indexSorted t op := by
  obtain ⟨entries, inventory⟩ := run_inventory reached
  exact ⟨⟨entries, inventory⟩, meets_iff inventory⟩

/-- Three weapons of kind 5 are kept. -/
theorem econ_map_three :
    (∃ entries, IsInventory ['[', '5', ',', '0', ',', '3', ']'] entries) ∧
      ∀ op, Meets (fun _ b => b = 0) ['[', '5', ',', '0', ',', '3', ']'] op ↔
        Permitted (fun _ b => b = 0) ['[', '5', ',', '0', ',', '3', ']'] op :=
  econ_map_iff (fun _ b => b = 0) [.change 5 0 3] _ (by decide)

/-- Five shoulder actuators are added and not found. -/
theorem actuator_lost : ¬ Meets (fun _ b => b = 0) [] (.change 394 0 5) := by
  rintro ⟨t', changes, found, -⟩
  obtain rfl : "[548,0,5]".toList = t' := by
    rw [show econChangeItems (fun _ b => b = 0) [] 394 0 5 = some "[548,0,5]".toList by
      decide] at changes
    exact some.inj changes
  revert found
  decide

end BattletechMux.Econ
