/-
Module: BattletechMux.Attr.Listing
Purpose: The attributes of db.c in the gdbm build without compression: the attribute list of an
  object names exactly the attributes it has.
-/
import Mathlib.Tactic.Ring
import Mathlib.Data.List.Nodup
import Mathlib.Data.List.TakeWhile
import BattletechMux.Foundation.Delimited
import BattletechMux.Foundation.CText

namespace BattletechMux.Attr

open Function (update)

abbrev Object := Nat

/-- The number of an attribute, a positive `int`. -/
structure Attrnum where
  val : Nat
  positive : 0 < val
  small : val < 2147483648
deriving DecidableEq, Repr

def aList : Attrnum := ⟨253, by decide, by decide⟩

/-- A round of `al_code` for each group of seven bits; an `int` has at most five. -/
def alCodeLoop : Nat → Nat → List Char
  | 0, _ => []
  | limit + 1, atrnum =>
    if atrnum / 128 = 0 then [Char.ofNat (atrnum % 128)]
    else Char.ofNat (atrnum % 128 + 128) :: alCodeLoop limit (atrnum / 128)

def alCode (atrnum : Nat) : List Char := alCodeLoop 5 atrnum

/-- The loop of `al_decode`. -/
def alDecodeLoop (atrnum atrshft : Nat) : List Char → Nat × List Char
  | [] => (atrnum, [])
  | c :: ap =>
    let anum := c.toNat % 128
    let atrnum := if atrshft > 0 then atrnum + anum * 2 ^ atrshft else anum
    if c.toNat / 128 % 2 = 0 then (atrnum, ap) else alDecodeLoop atrnum (atrshft + 7) ap

def alDecode (app : List Char) : Nat × List Char := alDecodeLoop 0 0 app

theorem toNat_ofNat {n : Nat} (byte : n < 256) : (Char.ofNat n).toNat = n := by
  have valid : n.isValidChar := Or.inl (Nat.lt_trans byte (by decide))
  rw [Char.ofNat, dif_pos valid]
  unfold Char.ofNatAux Char.toNat
  simp

theorem alDecodeLoop_last {c : Char} (small : c.toNat < 128) {done atrshft : Nat}
    (start : atrshft = 0 → done = 0) (rest : List Char) :
    alDecodeLoop done atrshft (c :: rest) = (done + c.toNat * 2 ^ atrshft, rest) := by
  rw [alDecodeLoop]
  simp only [Nat.div_eq_of_lt small, Nat.mod_eq_of_lt small, Nat.zero_mod, if_true]
  by_cases fst : atrshft > 0
  · rw [if_pos fst]
  · obtain rfl := Nat.eq_zero_of_not_pos fst
    rw [if_neg fst, start rfl, Nat.pow_zero, Nat.mul_one, Nat.zero_add]

theorem alDecodeLoop_more {c : Char} {low : Nat} (high : c.toNat = low + 128) (small : low < 128)
    {done atrshft : Nat} (start : atrshft = 0 → done = 0) (rest : List Char) :
    alDecodeLoop done atrshft (c :: rest) =
      alDecodeLoop (done + low * 2 ^ atrshft) (atrshft + 7) rest := by
  have group : (low + 128) % 128 = low := by omega
  have more : (low + 128) / 128 % 2 = 1 := by omega
  rw [alDecodeLoop]
  simp only [high, group, more, Nat.one_ne_zero, if_false]
  by_cases fst : atrshft > 0
  · rw [if_pos fst]
  · obtain rfl := Nat.eq_zero_of_not_pos fst
    rw [if_neg fst, start rfl, Nat.pow_zero, Nat.mul_one, Nat.zero_add, Nat.zero_add]

theorem alDecodeLoop_alCodeLoop (limit atrnum done atrshft : Nat)
    (fits : atrnum < 128 ^ (limit + 1)) (start : atrshft = 0 → done = 0) (rest : List Char) :
    alDecodeLoop done atrshft (alCodeLoop (limit + 1) atrnum ++ rest) =
      (done + atrnum * 2 ^ atrshft, rest) := by
  induction limit generalizing atrnum done atrshft with
  | zero =>
    have small : atrnum < 128 := by simpa using fits
    have byte : (Char.ofNat atrnum).toNat = atrnum := toNat_ofNat (by omega)
    rw [alCodeLoop, if_pos (Nat.div_eq_of_lt small), Nat.mod_eq_of_lt small,
      List.singleton_append, alDecodeLoop_last (byte.symm ▸ small) start, byte]
  | succ limit ih =>
    rw [alCodeLoop]
    by_cases last : atrnum / 128 = 0
    · have small : atrnum < 128 := by omega
      have byte : (Char.ofNat atrnum).toNat = atrnum := toNat_ofNat (by omega)
      rw [if_pos last, Nat.mod_eq_of_lt small, List.singleton_append,
        alDecodeLoop_last (byte.symm ▸ small) start, byte]
    · have byte : (Char.ofNat (atrnum % 128 + 128)).toNat = atrnum % 128 + 128 :=
        toNat_ofNat (by omega)
      have fewer : atrnum / 128 < 128 ^ (limit + 1) := by
        rw [Nat.pow_succ] at fits
        omega
      have whole : atrnum % 128 * 2 ^ atrshft + atrnum / 128 * (2 ^ atrshft * 2 ^ 7) =
          (atrnum % 128 + 128 * (atrnum / 128)) * 2 ^ atrshft := by ring
      rw [if_neg last, List.cons_append, alDecodeLoop_more byte (Nat.mod_lt _ (by decide)) start,
        ih _ _ _ fewer (by omega), Nat.add_assoc, Nat.pow_add, whole,
        Nat.mod_add_div]

theorem alDecode_alCode {atrnum : Nat} (small : atrnum < 2147483648) (rest : List Char) :
    alDecode (alCode atrnum ++ rest) = (atrnum, rest) := by
  have read := alDecodeLoop_alCodeLoop 4 atrnum 0 0 (Nat.lt_trans small (by decide)) (fun _ => rfl) rest
  rwa [Nat.zero_add, Nat.pow_zero, Nat.mul_one] at read

theorem alCode_ne_nil (atrnum : Nat) : alCode atrnum ≠ [] := by
  unfold alCode alCodeLoop
  split <;> simp

def alist : Delimited Nat Char where
  encode := alCode
  decode := alDecode
  Good atrnum := 0 < atrnum ∧ atrnum < 2147483648
  decode_append _ good := alDecode_alCode good.2
  encode_ne_nil atrnum _ := alCode_ne_nil atrnum

/-- What the attributes of an object mark in its flag words. -/
inductive Mark where
  | hasStartup
  | hasDaily
  | hasHourly
  | hasFwdlist
  | hasListen
deriving Repr, DecidableEq

def mark (atr : Attrnum) : Option Mark :=
  match atr.val with
  | 19 => some .hasStartup
  | 204 => some .hasDaily
  | 246 => some .hasHourly
  | 95 => some .hasFwdlist
  | 26 => some .hasListen
  | _ => none

/-- The attribute database and the lists of `mudstate`. -/
structure Db where
  attr : Object → Attrnum → Option (List Char)
  marks : Object → Mark → Bool
  modAlId : Option Object
  modAlist : List Char
  iterAlist : List Char
  pushed : List (List Char)

namespace Db

variable (db : Db)

def put (thing : Object) (atr : Attrnum) (text : Option (List Char)) : Db :=
  { db with attr := update db.attr thing (update (db.attr thing) atr text) }

def setMark (thing : Object) (atr : Attrnum) (value : Bool) : Db :=
  match mark atr with
  | some flag => { db with marks := update db.marks thing (update (db.marks thing) flag value) }
  | none => db

/-- `al_store`.  Its calls of `atr_add_raw` and `atr_clr` are those for A_LIST. -/
def alStore : Db :=
  match db.modAlId with
  | some id =>
    if db.modAlist ≠ [] then { db.put id aList (some db.modAlist) with modAlId := none }
    else { db.put id aList none with modAlId := none }
  | none => db

def alFetch (thing : Object) : Db :=
  if db.modAlId = some thing then db
  else
    let db := db.alStore
    { db with modAlist := (db.attr thing aList).getD [], modAlId := some thing }

def alAdd (thing : Object) (attrnum : Attrnum) : Db :=
  if attrnum = aList then db
  else
    let db := db.alFetch thing
    let abuf := db.modAlist
    if alist.holds attrnum.val (abuf.length + 1) abuf then db
    else { db with modAlist := CText.cString (abuf ++ alCode attrnum.val) }

def alDelete (thing : Object) (attrnum : Attrnum) : Db :=
  if attrnum = aList then db
  else
    let db := db.alFetch thing
    let abuf := db.modAlist
    { db with modAlist := CText.cString (alist.erase attrnum.val (abuf.length + 1) abuf) }

def atrClr (thing : Object) (atr : Attrnum) : Db :=
  ((db.put thing atr none).alDelete thing atr).setMark thing atr false

def atrAddRaw (thing : Object) (atr : Attrnum) (buff : List Char) : Db :=
  if buff = [] then (db.put thing atr none).alDelete thing atr
  else ((db.put thing atr (some buff)).alAdd thing atr).setMark thing atr true

def alDestroy (thing : Object) : Db :=
  let db := if db.modAlId = some thing then db.alStore else db
  db.atrClr thing aList

def atrPush : Db := { db with iterAlist := [], pushed := db.iterAlist :: db.pushed }

def atrPop : Db :=
  match db.pushed with
  | old :: rest => { db with iterAlist := old, pushed := rest }
  | [] => { db with iterAlist := [], pushed := [] }

/-- `atr_next`; `attrp` counts the bytes that are read. -/
def atrNext (attrp : Nat) : Nat × Nat :=
  let text := db.iterAlist.drop attrp
  if text = [] then (0, attrp)
  else ((alDecode text).1, db.iterAlist.length - (alDecode text).2.length)

/-- The list that `atr_head` copies. -/
def listText (thing : Object) : Option (List Char) :=
  if db.modAlId = some thing then some db.modAlist else db.attr thing aList

def atrHead (thing : Object) : Db × Nat × Nat :=
  match db.listText thing with
  | none => (db, 0, 0)
  | some astr =>
    let db := { db with iterAlist := astr }
    (db, db.atrNext 0)

/-- The loop over the attributes of an object, whose body may do anything, with the numbers it
has seen.  `limit` bounds the loop. -/
def forEach (body : Db → Nat → Db) : Nat → Db → Nat × Nat → List Nat × Db
  | 0, db, _ => ([], db)
  | limit + 1, db, (attr, as) =>
    if attr = 0 then ([], db)
    else
      let db := body db attr
      let (seen, db) := forEach body limit db (db.atrNext as)
      (attr :: seen, db)

/-- `for (attr = atr_head(thing, &as); attr; attr = atr_next(&as))`, between `atr_push` and
`atr_pop`. -/
def enumerate (thing : Object) (body : Db → Nat → Db) : List Nat × Db :=
  let (db, start) := db.atrPush.atrHead thing
  let (seen, db) := forEach body (db.iterAlist.length + 1) db start
  (seen, db.atrPop)

def numbered (attr : Nat) : Option Attrnum :=
  if bounds : 0 < attr ∧ attr < 2147483648 then some ⟨attr, bounds.1, bounds.2⟩ else none

/-- The body of the loop of `atr_free`. -/
def clear (thing : Object) (db : Db) (attr : Nat) : Db :=
  match numbered attr with
  | some attr => db.atrClr thing attr
  | none => db

def atrFree (thing : Object) : Db := (db.enumerate thing (clear thing)).2.alDestroy thing

end Db

/-- The operations on attributes other than the list itself, which only the functions of lists
touch. -/
inductive Op where
  | addRaw (thing : Object) (atr : {atr : Attrnum // atr ≠ aList}) (buff : List Char)
  | clr (thing : Object) (atr : {atr : Attrnum // atr ≠ aList})
  | free (thing : Object)
  | store

def step (db : Db) : Op → Db
  | .addRaw thing atr buff => db.atrAddRaw thing atr.1 buff
  | .clr thing atr => db.atrClr thing atr.1
  | .free thing => db.atrFree thing
  | .store => db.alStore

open List

def Db.current (db : Db) (thing : Object) : List Char := (db.listText thing).getD []

/-- The list of an object is the text of `numbers`, the attributes it has. -/
structure Lists (db : Db) (thing : Object) (numbers : List Attrnum) : Prop where
  once : numbers.Nodup
  stored : ∀ atr, atr ∈ numbers ↔ atr ≠ aList ∧ (db.attr thing atr).isSome
  text : db.current thing = alist.texts (numbers.map Attrnum.val)

def Mirrored (db : Db) : Prop := ∀ thing, ∃ numbers, Lists db thing numbers

variable {db : Db} {thing : Object} {atr : Attrnum} {numbers : List Attrnum}

theorem good_of_mem {n : Nat} (mem : n ∈ numbers.map Attrnum.val) : alist.Good n := by
  obtain ⟨atr, _, rfl⟩ := mem_map.mp mem
  exact ⟨atr.positive, atr.small⟩

theorem val_injective : Function.Injective Attrnum.val := by
  rintro ⟨n, _, _⟩ ⟨m, _, _⟩ eq
  cases eq
  rfl

theorem alCodeLoop_noNul (limit atrnum : Nat) (some' : 0 < atrnum) :
    '\x00' ∉ alCodeLoop limit atrnum := by
  have plain : ∀ {n}, 0 < n → n < 256 → '\x00' ≠ Char.ofNat n := by
    intro n above byte eq
    have value := toNat_ofNat byte
    rw [← eq] at value
    have zero : ('\x00').toNat = 0 := rfl
    omega
  induction limit generalizing atrnum with
  | zero => simp [alCodeLoop]
  | succ limit ih =>
    rw [alCodeLoop]
    split
    · rw [mem_singleton]
      exact plain (by omega) (by omega)
    · rw [mem_cons, not_or]
      exact ⟨plain (by omega) (by omega), ih _ (by omega)⟩

theorem cString_texts (numbers : List Attrnum) :
    CText.cString (alist.texts (numbers.map Attrnum.val)) =
      alist.texts (numbers.map Attrnum.val) := by
  refine takeWhile_eq_self_iff.mpr fun c mem => ?_
  obtain ⟨n, number, hin⟩ := mem_flatMap.mp mem
  have noNul := alCodeLoop_noNul 5 n (good_of_mem number).1
  simp only [ne_eq, decide_not, Bool.not_eq_true', decide_eq_false_iff_not]
  rintro rfl
  exact noNul hin

theorem enough (numbers : List Attrnum) :
    (numbers.map Attrnum.val).length <
      (alist.texts (numbers.map Attrnum.val)).length + 1 :=
  Nat.lt_succ_of_le (alist.length_le_texts fun _ => good_of_mem)

section Fetch

theorem put_current (other : Object) (plain : atr ≠ aList) (text : Option (List Char)) :
    (db.put thing atr text).current other = db.current other := by
  unfold Db.current Db.listText Db.put
  by_cases is : other = thing <;> simp [is, Function.update_of_ne (Ne.symm plain)]

theorem alStore_current (other : Object) : db.alStore.current other = db.current other := by
  unfold Db.alStore
  cases cached : db.modAlId with
  | none => rfl
  | some id =>
    unfold Db.current Db.listText
    by_cases is : id = other
    · rw [is] at cached ⊢
      by_cases empty : db.modAlist = [] <;> simp [cached, empty, Db.put]
    · by_cases empty : db.modAlist = [] <;> simp [cached, empty, Db.put, is, Ne.symm is]

theorem alStore_attr (other : Object) (plain : atr ≠ aList) :
    db.alStore.attr other atr = db.attr other atr := by
  unfold Db.alStore
  cases db.modAlId with
  | none => rfl
  | some id =>
    by_cases is : other = id <;> by_cases empty : db.modAlist = [] <;>
      simp [Db.put, empty, is, plain]

theorem alStore_modAlId : db.alStore.modAlId = none := by
  unfold Db.alStore
  cases cached : db.modAlId with
  | none => exact cached
  | some id => by_cases empty : db.modAlist = [] <;> simp [empty]

theorem alFetch_current (other : Object) :
    (db.alFetch thing).current other = db.current other := by
  have stored := @alStore_current db other
  have gone := @alStore_modAlId db
  unfold Db.alFetch
  by_cases cached : db.modAlId = some thing
  · rw [if_pos cached]
  · rw [if_neg cached, ← stored]
    by_cases is : thing = other
    · simp [Db.current, Db.listText, is, gone]
    · simp [Db.current, Db.listText, is, gone]

theorem alFetch_attr (other : Object) (plain : atr ≠ aList) :
    (db.alFetch thing).attr other atr = db.attr other atr := by
  unfold Db.alFetch
  by_cases cached : db.modAlId = some thing
  · rw [if_pos cached]
  · rw [if_neg cached]
    exact alStore_attr other plain

theorem alFetch_cached :
    (db.alFetch thing).modAlId = some thing ∧ (db.alFetch thing).modAlist = db.current thing := by
  have stored := @alStore_current db thing
  have gone := @alStore_modAlId db
  unfold Db.alFetch
  by_cases cached : db.modAlId = some thing
  · rw [if_pos cached]
    exact ⟨cached, by simp [Db.current, Db.listText, cached]⟩
  · rw [if_neg cached]
    refine ⟨rfl, ?_⟩
    rw [← stored]
    simp [Db.current, Db.listText, gone]

end Fetch

section Update

theorem current_modAlist (db : Db) (text : List Char) (cached : db.modAlId = some thing)
    (other : Object) :
    ({ db with modAlist := text } : Db).current other =
      if other = thing then text else db.current other := by
  unfold Db.current Db.listText
  rw [cached]
  by_cases is : thing = other
  · simp [is]
  · simp [is, Ne.symm is]

theorem alAdd_attr (other : Object) {atr' : Attrnum} (plain : atr' ≠ aList) :
    (db.alAdd thing atr).attr other atr' = db.attr other atr' := by
  have fetched := @alFetch_attr db thing atr' other plain
  unfold Db.alAdd
  split
  · rfl
  · dsimp only
    split <;> exact fetched

theorem alDelete_attr (other : Object) {atr' : Attrnum} (plain : atr' ≠ aList) :
    (db.alDelete thing atr).attr other atr' = db.attr other atr' := by
  have fetched := @alFetch_attr db thing atr' other plain
  unfold Db.alDelete
  split
  · rfl
  · exact fetched

section

variable (plain : atr ≠ aList) (text : db.current thing = alist.texts (numbers.map Attrnum.val))
  (other : Object)
include plain text other

theorem alAdd_current :
    (db.alAdd thing atr).current other =
      if other = thing then
        alist.texts ((if atr ∈ numbers then numbers else numbers ++ [atr]).map Attrnum.val)
      else db.current other := by
  have cached := @alFetch_cached db thing
  have eq := @alFetch_current db thing other
  have listed := alist.holds_texts (fun _ => good_of_mem) atr.val (enough numbers)
  rw [mem_map_of_injective val_injective] at listed
  unfold Db.alAdd
  rw [if_neg plain]
  dsimp only
  rw [cached.2, text]
  by_cases inside : atr ∈ numbers
  · rw [if_pos (listed.mpr inside), if_pos inside, eq]
    by_cases is : other = thing
    · rw [if_pos is, is, text]
    · rw [if_neg is]
  · have appended : alist.texts (numbers.map Attrnum.val) ++ alCode atr.val =
        alist.texts ((numbers ++ [atr]).map Attrnum.val) := by
      simp [Delimited.texts, alist]
    rw [if_neg fun found => inside (listed.mp found), if_neg inside,
      current_modAlist _ _ cached.1, eq, appended, cString_texts]

theorem alDelete_current :
    (db.alDelete thing atr).current other =
      if other = thing then alist.texts ((numbers.erase atr).map Attrnum.val)
      else db.current other := by
  have cached := @alFetch_cached db thing
  have eq := @alFetch_current db thing other
  have erased := alist.erase_texts (fun _ => good_of_mem) atr.val (enough numbers)
  have mapped : (numbers.map Attrnum.val).erase atr.val = (numbers.erase atr).map Attrnum.val :=
    (map_erase val_injective _).symm
  rw [mapped] at erased
  unfold Db.alDelete
  rw [if_neg plain, current_modAlist _ _ cached.1, eq, cached.2, text, erased, cString_texts]

end

theorem setMark_eq (value : Bool) :
    (db.setMark thing atr value).attr = db.attr ∧
      (db.setMark thing atr value).current = db.current := by
  unfold Db.setMark
  cases mark atr <;> exact ⟨rfl, rfl⟩

end Update

section Operations

theorem put_attr (text : Option (List Char)) (other : Object) (atr' : Attrnum) :
    (db.put thing atr text).attr other atr' =
      if other = thing ∧ atr' = atr then text else db.attr other atr' := by
  unfold Db.put
  by_cases is : other = thing
  · by_cases eq : atr' = atr <;> simp [is, eq]
  · simp [is]

section

variable (plain : atr ≠ aList) (lists : Lists db thing numbers)
include plain lists

theorem Lists.clear :
    Lists ((db.put thing atr none).alDelete thing atr) thing (numbers.erase atr) where
  once := lists.once.erase atr
  stored atr' := by
    rw [lists.once.mem_erase_iff, lists.stored]
    by_cases plain' : atr' = aList
    · simp [plain']
    · rw [alDelete_attr thing plain', put_attr]
      by_cases eq : atr' = atr <;> simp [eq, plain']
  text := by
    have pre : (db.put thing atr none).current thing = _ :=
      (put_current thing plain none).trans lists.text
    rw [alDelete_current plain pre, if_pos rfl]

theorem Lists.clear_other {other : Object}
    {numbers' : List Attrnum} (lists' : Lists db other numbers') (ne : other ≠ thing) :
    Lists ((db.put thing atr none).alDelete thing atr) other numbers' where
  once := lists'.once
  stored atr' := by
    rw [lists'.stored]
    by_cases plain' : atr' = aList
    · simp [plain']
    · rw [alDelete_attr other plain', put_attr, if_neg fun both => ne both.1]
  text := by
    have pre : (db.put thing atr none).current thing = _ :=
      (put_current thing plain none).trans lists.text
    rw [alDelete_current plain pre, if_neg ne, put_current other plain, lists'.text]

theorem Lists.add (buff : List Char) :
    Lists ((db.put thing atr (some buff)).alAdd thing atr) thing
      (if atr ∈ numbers then numbers else numbers ++ [atr]) where
  once := by
    by_cases hin : atr ∈ numbers
    · rw [if_pos hin]
      exact lists.once
    · rw [if_neg hin]
      exact nodup_append.mpr ⟨lists.once, by simp, by
        rintro a mem b last rfl
        exact hin (mem_singleton.mp last ▸ mem)⟩
  stored atr' := by
    have either : atr' ∈ (if atr ∈ numbers then numbers else numbers ++ [atr]) ↔
        atr' = atr ∨ atr' ∈ numbers := by
      by_cases hin : atr ∈ numbers
      · rw [if_pos hin]
        exact ⟨Or.inr, fun is => is.elim (fun eq => eq ▸ hin) id⟩
      · rw [if_neg hin, mem_append, mem_singleton, or_comm]
    rw [either, lists.stored]
    by_cases plain' : atr' = aList
    · simp [plain', Ne.symm plain]
    · rw [alAdd_attr thing plain', put_attr]
      by_cases eq : atr' = atr <;> simp [eq, plain', plain]
  text := by
    have pre : (db.put thing atr (some buff)).current thing = _ :=
      (put_current thing plain (some buff)).trans lists.text
    rw [alAdd_current plain pre, if_pos rfl]

theorem Lists.add_other {other : Object}
    {numbers' : List Attrnum} (lists' : Lists db other numbers') (ne : other ≠ thing)
    (buff : List Char) : Lists ((db.put thing atr (some buff)).alAdd thing atr) other numbers' where
  once := lists'.once
  stored atr' := by
    rw [lists'.stored]
    by_cases plain' : atr' = aList
    · simp [plain']
    · rw [alAdd_attr other plain', put_attr, if_neg fun both => ne both.1]
  text := by
    have pre : (db.put thing atr (some buff)).current thing = _ :=
      (put_current thing plain (some buff)).trans lists.text
    rw [alAdd_current plain pre, if_neg ne, put_current other plain, lists'.text]

end

theorem Lists.congr {db' : Db} (lists : Lists db thing numbers)
    (attr : ∀ atr ≠ aList, db'.attr thing atr = db.attr thing atr)
    (current : db'.current thing = db.current thing) : Lists db' thing numbers where
  once := lists.once
  stored atr := by
    rw [lists.stored]
    exact and_congr_right fun plain => by rw [attr atr plain]
  text := current.trans lists.text

theorem Lists.mark (lists : Lists db thing numbers) (other : Object) (atr : Attrnum)
    (value : Bool) : Lists (db.setMark other atr value) thing numbers :=
  lists.congr (fun _ _ => by rw [(setMark_eq value).1]) (by rw [(setMark_eq value).2])

theorem atrClr_lists (plain : atr ≠ aList) (lists : Lists db thing numbers) :
    Lists (db.atrClr thing atr) thing (numbers.erase atr) :=
  (lists.clear plain).mark thing atr false

theorem atrClr_mirrored (mirrored : Mirrored db) (thing : Object) (plain : atr ≠ aList) :
    Mirrored (db.atrClr thing atr) := by
  intro other
  obtain ⟨numbers, lists⟩ := mirrored thing
  obtain rfl | is := eq_or_ne other thing
  · exact ⟨_, atrClr_lists plain lists⟩
  · obtain ⟨numbers', lists'⟩ := mirrored other
    exact ⟨numbers', (lists.clear_other plain lists' is).mark thing atr false⟩

theorem atrAddRaw_mirrored (mirrored : Mirrored db) (thing : Object) (plain : atr ≠ aList)
    (buff : List Char) : Mirrored (db.atrAddRaw thing atr buff) := by
  intro other
  obtain ⟨numbers, lists⟩ := mirrored thing
  unfold Db.atrAddRaw
  by_cases empty : buff = []
  · rw [if_pos empty]
    obtain rfl | is := eq_or_ne other thing
    · exact ⟨_, lists.clear plain⟩
    · obtain ⟨numbers', lists'⟩ := mirrored other
      exact ⟨numbers', lists.clear_other plain lists' is⟩
  · rw [if_neg empty]
    obtain rfl | is := eq_or_ne other thing
    · exact ⟨_, (lists.add plain buff).mark other atr true⟩
    · obtain ⟨numbers', lists'⟩ := mirrored other
      exact ⟨numbers', (lists.add_other plain lists' is buff).mark thing atr true⟩

theorem alStore_mirrored (mirrored : Mirrored db) : Mirrored db.alStore := by
  intro other
  obtain ⟨numbers, lists⟩ := mirrored other
  exact ⟨numbers, lists.congr (fun _ plain => alStore_attr other plain) (alStore_current other)⟩

end Operations

section Walk

def SameWalks (db db' : Db) : Prop := db'.iterAlist = db.iterAlist ∧ db'.pushed = db.pushed

theorem SameWalks.trans {db db' db'' : Db} (fst : SameWalks db db')
    (snd : SameWalks db' db'') :
    SameWalks db db'' := ⟨snd.1.trans fst.1, snd.2.trans fst.2⟩

theorem alStore_walks : SameWalks db db.alStore := by
  unfold Db.alStore
  cases db.modAlId with
  | none => exact ⟨rfl, rfl⟩
  | some id => by_cases empty : db.modAlist = [] <;> simp [empty, SameWalks, Db.put]

theorem alFetch_walks : SameWalks db (db.alFetch thing) := by
  have stored := @alStore_walks db
  unfold Db.alFetch
  split
  · exact ⟨rfl, rfl⟩
  · exact stored

theorem setMark_walks (value : Bool) : SameWalks db (db.setMark thing atr value) := by
  unfold Db.setMark
  cases mark atr <;> exact ⟨rfl, rfl⟩

theorem alDelete_walks : SameWalks db (db.alDelete thing atr) := by
  have fetched := @alFetch_walks db thing
  unfold Db.alDelete
  split
  · exact ⟨rfl, rfl⟩
  · exact fetched

theorem alAdd_walks : SameWalks db (db.alAdd thing atr) := by
  have fetched := @alFetch_walks db thing
  unfold Db.alAdd
  split
  · exact ⟨rfl, rfl⟩
  · dsimp only
    split <;> exact fetched

theorem atrClr_walks : SameWalks db (db.atrClr thing atr) :=
  (@alDelete_walks (db.put thing atr none) thing atr).trans (setMark_walks false)

theorem atrAddRaw_walks (buff : List Char) : SameWalks db (db.atrAddRaw thing atr buff) := by
  unfold Db.atrAddRaw
  split
  · exact @alDelete_walks (db.put thing atr none) thing atr
  · exact (@alAdd_walks (db.put thing atr (some buff)) thing atr).trans (setMark_walks true)

theorem forEach_spec (body : Db → Nat → Db) (keeps : ∀ db attr, SameWalks db (body db attr))
    {front : List Char} (rest : List Attrnum)
    (text : db.iterAlist = front ++ alist.texts (rest.map Attrnum.val)) {limit : Nat}
    (bound : rest.length < limit) :
    Db.forEach body limit db (db.atrNext front.length) =
      (rest.map Attrnum.val, (rest.map Attrnum.val).foldl body db) := by
  induction rest generalizing db front limit with
  | nil =>
    obtain ⟨limit, rfl⟩ := Nat.exists_eq_succ_of_ne_zero (Nat.ne_of_gt bound)
    have ended : db.atrNext front.length = (0, front.length) := by
      simp [Db.atrNext, text, Delimited.texts]
    rw [ended, Db.forEach, if_pos rfl]
    rfl
  | cons attr rest ih =>
    obtain ⟨limit, rfl⟩ := Nat.exists_eq_succ_of_ne_zero (Nat.ne_of_gt (Nat.zero_lt_of_lt bound))
    have split : db.iterAlist = (front ++ alCode attr.val) ++
        alist.texts (rest.map Attrnum.val) := by
      rw [text, map_cons, Delimited.texts_cons, append_assoc]
      rfl
    have read := alDecode_alCode attr.small (alist.texts (rest.map Attrnum.val))
    have some' : alCode attr.val ++ alist.texts (rest.map Attrnum.val) ≠ [] := fun nothing =>
      alCode_ne_nil attr.val (append_eq_nil_iff.mp nothing).1
    have next : db.atrNext front.length = (attr.val, (front ++ alCode attr.val).length) := by
      unfold Db.atrNext
      dsimp only
      rw [split, append_assoc, drop_left, if_neg some', read, ← append_assoc,
        @length_append _ _ (alist.texts _), Nat.add_sub_cancel]
    have later := @ih (body db attr.val) (front ++ alCode attr.val)
      ((keeps db attr.val).1.trans split) limit (Nat.lt_of_succ_lt_succ bound)
    have eq : (body db attr.val).atrNext (front ++ alCode attr.val).length =
        db.atrNext (front ++ alCode attr.val).length := by
      unfold Db.atrNext
      rw [(keeps db attr.val).1]
    rw [next, Db.forEach, if_neg (Nat.ne_of_gt attr.positive)]
    simp only [later, map_cons, foldl_cons]

theorem enumerate_eq (lists : Lists db thing numbers) (body : Db → Nat → Db)
    (keeps : ∀ db attr, SameWalks db (body db attr)) :
    ∃ start : Db, (∀ other, start.attr other = db.attr other) ∧ start.current = db.current ∧
      start.pushed = db.iterAlist :: db.pushed ∧
      db.enumerate thing body =
        (numbers.map Attrnum.val, ((numbers.map Attrnum.val).foldl body start).atrPop) := by
  have eq : db.atrPush.listText thing = db.listText thing := rfl
  unfold Db.enumerate Db.atrHead
  rw [eq]
  have text := lists.text
  unfold Db.current at text
  cases listed : db.listText thing with
  | none =>
    rw [listed] at text
    have none' : numbers = [] := by
      have short := @Delimited.length_le_texts _ _ alist (numbers.map Attrnum.val) fun _ => good_of_mem
      rw [← text] at short
      exact eq_nil_of_length_eq_zero (by simpa using short)
    refine ⟨db.atrPush, fun _ => rfl, rfl, rfl, ?_⟩
    rw [none']
    rfl
  | some astr =>
    rw [listed] at text
    simp only [Option.getD_some] at text
    have long := enough numbers
    rw [length_map, ← text] at long
    have walked := @forEach_spec { db.atrPush with iterAlist := astr } body keeps [] numbers text
      (astr.length + 1) long
    refine ⟨{ db.atrPush with iterAlist := astr }, fun _ => rfl, rfl, rfl, ?_⟩
    dsimp only [length_nil] at walked ⊢
    rw [walked]

theorem forEach_walks (body : Db → Nat → Db) (keeps : ∀ db attr, SameWalks db (body db attr))
    (limit : Nat) (start : Nat × Nat) : SameWalks db (Db.forEach body limit db start).2 := by
  induction limit generalizing db start with
  | zero => exact ⟨rfl, rfl⟩
  | succ limit ih =>
    rw [Db.forEach]
    split
    · exact ⟨rfl, rfl⟩
    · exact (keeps db _).trans (ih _)

theorem enumerate_walks (body : Db → Nat → Db) (keeps : ∀ db attr, SameWalks db (body db attr)) :
    SameWalks db (db.enumerate thing body).2 := by
  have pushed : (db.atrPush.atrHead thing).1.pushed = db.iterAlist :: db.pushed := by
    unfold Db.atrHead
    cases db.atrPush.listText thing <;> rfl
  have walked := @forEach_walks (db.atrPush.atrHead thing).1 body keeps
    ((db.atrPush.atrHead thing).1.iterAlist.length + 1) (db.atrPush.atrHead thing).2
  have still := walked.2.trans pushed
  unfold Db.enumerate
  dsimp only
  unfold Db.atrPop
  rw [still]
  exact ⟨rfl, rfl⟩

theorem atrPop_eq (other : Object) :
    db.atrPop.attr other = db.attr other ∧ db.atrPop.current other = db.current other := by
  unfold Db.atrPop
  cases db.pushed <;> exact ⟨rfl, rfl⟩

theorem numbered_val (attr : Attrnum) : Db.numbered attr.val = some attr :=
  dif_pos ⟨attr.positive, attr.small⟩

theorem clear_val (db : Db) (thing : Object) (atr : Attrnum) :
    Db.clear thing db atr.val = db.atrClr thing atr := by
  unfold Db.clear
  rw [numbered_val]

theorem clear_walks (db : Db) (attr : Nat) : SameWalks db (Db.clear thing db attr) := by
  unfold Db.clear
  cases Db.numbered attr with
  | none => exact ⟨rfl, rfl⟩
  | some atr => exact atrClr_walks

theorem clear_all (plain : ∀ atr ∈ numbers, atr ≠ aList) (mirrored : Mirrored db)
    (lists : Lists db thing numbers) :
    Mirrored ((numbers.map Attrnum.val).foldl (Db.clear thing) db) ∧
      Lists ((numbers.map Attrnum.val).foldl (Db.clear thing) db) thing [] := by
  induction numbers generalizing db with
  | nil => exact ⟨mirrored, lists⟩
  | cons atr rest ih =>
    have fst := plain atr (by simp)
    have cleared := atrClr_lists fst lists
    rw [erase_cons_head] at cleared
    rw [map_cons, foldl_cons, clear_val]
    exact ih (fun other mem => plain other (by simp [mem]))
      (atrClr_mirrored mirrored thing fst) cleared

theorem alDestroy_mirrored (mirrored : Mirrored db) (lists : Lists db thing []) :
    Mirrored (db.alDestroy thing) := by
  unfold Db.alDestroy
  have stored : ∃ db₁ : Db, (if db.modAlId = some thing then db.alStore else db) = db₁ ∧
      db₁.modAlId ≠ some thing ∧ Mirrored db₁ ∧ Lists db₁ thing [] := by
    by_cases cached : db.modAlId = some thing
    · refine ⟨db.alStore, if_pos cached, ?_, alStore_mirrored mirrored, lists.congr
        (fun _ plain => alStore_attr thing plain) (alStore_current thing)⟩
      rw [alStore_modAlId]
      exact nofun
    · exact ⟨db, if_neg cached, cached, mirrored, lists⟩
  obtain ⟨db₁, is, uncached, mirrored₁, lists₁⟩ := stored
  rw [is]
  have cleared : db₁.atrClr thing aList = db₁.put thing aList none := by
    simp [Db.atrClr, Db.alDelete, Db.setMark, mark, aList]
  intro other
  rw [cleared]
  obtain rfl | here := eq_or_ne other thing
  · refine ⟨[], nodup_nil, fun atr => ?_, ?_⟩
    · rw [lists₁.stored, put_attr]
      exact and_congr_right fun plain => by rw [if_neg fun both => plain both.2]
    · simp [Db.current, Db.listText, Db.put, uncached, Delimited.texts]
  · obtain ⟨numbers, lists'⟩ := mirrored₁ other
    refine ⟨numbers, lists'.congr (fun atr plain => ?_) ?_⟩
    · rw [put_attr, if_neg fun both => plain both.2]
    · simp [Db.current, Db.listText, Db.put, here]

theorem alDestroy_walks : SameWalks db (db.alDestroy thing) := by
  unfold Db.alDestroy
  dsimp only
  split
  · exact alStore_walks.trans atrClr_walks
  · exact atrClr_walks

theorem atrFree_walks : SameWalks db (db.atrFree thing) :=
  (enumerate_walks (Db.clear thing) clear_walks).trans alDestroy_walks

theorem atrFree_mirrored (mirrored : Mirrored db) (thing : Object) : Mirrored
    (db.atrFree thing) := by
  obtain ⟨numbers, lists⟩ := mirrored thing
  obtain ⟨start, attr, current, _, walked⟩ := enumerate_eq lists (Db.clear thing) clear_walks
  have eq : ∀ {other numbers}, Lists db other numbers → Lists start other numbers :=
    fun lists => lists.congr (fun _ _ => by rw [attr]) (by rw [current])
  have started : Mirrored start := fun other => (mirrored other).imp fun _ => eq
  have cleared := clear_all (fun atr mem => ((lists.stored atr).mp mem).1) started (eq lists)
  unfold Db.atrFree
  rw [walked]
  refine alDestroy_mirrored (fun other => ?_) ?_
  · obtain ⟨numbers', lists'⟩ := cleared.1 other
    exact ⟨numbers', lists'.congr (fun _ _ => by rw [(atrPop_eq other).1]) (atrPop_eq other).2⟩
  · exact cleared.2.congr (fun _ _ => by rw [(atrPop_eq thing).1]) (atrPop_eq thing).2

end Walk

theorem step_mirrored (mirrored : Mirrored db) (op : Op) : Mirrored (step db op) := by
  cases op with
  | addRaw thing atr buff => exact atrAddRaw_mirrored mirrored thing atr.2 buff
  | clr thing atr => exact atrClr_mirrored mirrored thing atr.2
  | free thing => exact atrFree_mirrored mirrored thing
  | store => exact alStore_mirrored mirrored

theorem step_walks (db : Db) (op : Op) : SameWalks db (step db op) := by
  cases op with
  | addRaw thing atr buff => exact atrAddRaw_walks buff
  | clr thing atr => exact atrClr_walks
  | free thing => exact atrFree_walks
  | store => exact alStore_walks

theorem run_mirrored (mirrored : Mirrored db) (ops : List Op) : Mirrored (ops.foldl step db) := by
  induction ops generalizing db with
  | nil => exact mirrored
  | cons op rest ih => exact ih (step_mirrored mirrored op)

theorem run_walks (db : Db) (ops : List Op) : SameWalks db (ops.foldl step db) := by
  induction ops generalizing db with
  | nil => exact ⟨rfl, rfl⟩
  | cons op rest ih => exact (step_walks db op).trans (ih _)

/-- The numbers that `al_decode` reads from the attribute list of an object. -/
def Db.decoded (db : Db) (thing : Object) : List Nat :=
  alist.decodeAll ((db.current thing).length + 1) (db.current thing)

/-- Some numbers are, each once, those of the attributes that an object has, the list apart. -/
def Names (db : Db) (thing : Object) (attrs : List Nat) : Prop :=
  attrs.Nodup ∧ ∀ n, n ∈ attrs ↔
    ∃ atr : Attrnum, atr.val = n ∧ atr ≠ aList ∧ (db.attr thing atr).isSome

theorem Lists.names (lists : Lists db thing numbers) : Names db thing
    (numbers.map Attrnum.val) := by
  refine ⟨List.Nodup.map val_injective lists.once, fun n => ?_⟩
  simp only [mem_map, lists.stored]
  exact ⟨fun ⟨atr, has, is⟩ => ⟨atr, is, has⟩, fun ⟨atr, is, has⟩ => ⟨atr, has, is⟩⟩

/-- After any operations on any objects, the attribute list of every object names its
attributes, each once; and a walk over it sees them all, whatever operations its body performs,
on this object or on others. -/
theorem list_mirrors (start : Db) (mirrored : Mirrored start) (ops : List Op) (thing : Object)
    (body : Db → Nat → List Op) :
    Names (ops.foldl step start) thing ((ops.foldl step start).decoded thing) ∧
      Names (ops.foldl step start) thing
        ((ops.foldl step start).enumerate thing fun db attr => (body db attr).foldl step db).1 := by
  obtain ⟨numbers, lists⟩ := run_mirrored mirrored ops thing
  have decoded : (ops.foldl step start).decoded thing = numbers.map Attrnum.val := by
    unfold Db.decoded
    rw [lists.text]
    exact alist.decodeAll_texts (fun _ => good_of_mem) (enough numbers)
  obtain ⟨_, _, _, _, walked⟩ := enumerate_eq lists (fun db attr => (body db attr).foldl step db)
    fun db attr => run_walks db (body db attr)
  rw [decoded, walked]
  exact ⟨lists.names, lists.names⟩

def Db.blank : Db where
  attr _ _ := none
  marks _ _ := false
  modAlId := none
  modAlist := []
  iterAlist := []
  pushed := []

theorem blank_mirrored : Mirrored Db.blank := fun _ =>
  ⟨[], nodup_nil, fun atr => by simp [Db.blank], rfl⟩

theorem list_mirrors_blank :
    let ops := [.addRaw 1 ⟨⟨256, by decide, by decide⟩, by decide⟩ ['a'],
      .addRaw 2 ⟨⟨25, by decide, by decide⟩, by decide⟩ ['b']]
    Names (ops.foldl step Db.blank) 1 ((ops.foldl step Db.blank).decoded 1) ∧
      Names (ops.foldl step Db.blank) 1
        ((ops.foldl step Db.blank).enumerate 1 fun db _ => [Op.free 1].foldl step db).1 :=
  list_mirrors Db.blank blank_mirrored _ 1 fun _ _ => [.free 1]

end BattletechMux.Attr
