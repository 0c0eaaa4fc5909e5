/-
Module: BattletechMux.Cache.Store
Purpose: The object cache of udb_ocache.c over explicit memory, the objects and their images in the
  database file (udb_obj.c), and the chains of the cache as lists of holders.
-/
import BattletechMux.Foundation.Bisect
import BattletechMux.Foundation.Bytes
import BattletechMux.Foundation.Deque

namespace BattletechMux.Cache

section

open Option
open List hiding lookup
open ByteCodec (Byte word)
open Bisection (Increasing bisect Found lookup)

abbrev Objname := BitVec 32

abbrev Attrnum := BitVec 32

structure Aname where
  object : Objname
  attrnum : Attrnum
deriving Repr, DecidableEq

/-- A string as it is put into the cache.  Its size with the NUL is an `int`. -/
structure Text where
  chars : List Byte
  noNul : 0 ∉ chars
  short : chars.length + 1 < 2147483648
deriving DecidableEq

structure Attrib where
  attrnum : Attrnum
  size : BitVec 32
  data : List Byte
deriving DecidableEq

/-- The number of an attribute, as attributes are compared. -/
def Attrib.number (a : Attrib) : Nat := a.attrnum.toNat

/-- An Obj.  `at_count` is the length of the array; an object without attributes has no
array. -/
structure Obj where
  name : Objname
  atrs : List Attrib
deriving DecidableEq

def cString (data : List Byte) : List Byte := data.takeWhile fun c => c ≠ 0

/-- The attribute that `set_attrib` makes of a string. -/
def Attrib.ofText (attrnum : Attrnum) (value : Text) : Attrib where
  attrnum := attrnum
  size := BitVec.ofNat 32 (value.chars.length + 1)
  data := value.chars ++ [0]

namespace Obj

variable (o : Obj)

def search (attrnum : Attrnum) : Option (Bool × Nat) :=
  bisect Attrib.number o.atrs attrnum.toNat (o.atrs.length + 1) 0 (o.atrs.length - 1)

def getAttrib (attrnum : Attrnum) : Option (Option (List Byte)) := do
  let (found, mid) ← o.search attrnum
  if found then some ((o.atrs[mid]?).map fun a => cString a.data) else some none

def setAttrib (attrnum : Attrnum) (value : Text) : Option Obj :=
  if o.atrs = [] then some { o with atrs := [Attrib.ofText attrnum value] }
  else do
    let (found, lo) ← o.search attrnum
    if found then
      let change (a : Attrib) : Attrib := { Attrib.ofText attrnum value with attrnum := a.attrnum }
      some { o with atrs := o.atrs.modify lo change }
    else some { o with atrs := o.atrs.insertIdx lo (Attrib.ofText attrnum value) }

def delAttrib (attrnum : Attrnum) : Option Obj :=
  if o.atrs = [] then some o
  else do
    let (found, mid) ← o.search attrnum
    if found then some { o with atrs := o.atrs.eraseIdx mid } else some o

end Obj

/-- `obj_siz`, before it is an `int`. -/
def objSiz (o : Obj) : Nat :=
  o.atrs.foldl (fun siz a => siz + (a.size.toNat + 8)) 8

def objtoFILE (o : Obj) : List Byte :=
  (word 4).encode o.name ++ (word 4).encode (BitVec.ofNat 32 o.atrs.length) ++
    o.atrs.flatMap fun a =>
      (word 4).encode a.size ++ (word 4).encode a.attrnum ++ a.data.take a.size.toNat

/-- The loop of `objfromFILE`; `none` when the memory for a negative size is refused. -/
def attribsFromFILE : Nat → List Byte → Option (List Attrib)
  | 0, _ => some []
  | count + 1, bp =>
    let size : BitVec 32 := (word 4).decode bp
    let bp := bp.drop 4
    let attrnum : BitVec 32 := (word 4).decode bp
    let bp := bp.drop 4
    if size.msb then none
    else do
      let rest ← attribsFromFILE count (bp.drop size.toNat)
      some (⟨attrnum, size, bp.take size.toNat⟩ :: rest)

def objfromFILE (buff : List Byte) : Option Obj :=
  let name : BitVec 32 := (word 4).decode buff
  let bp := buff.drop 4
  let i : BitVec 32 := (word 4).decode bp
  let bp := bp.drop 4
  if i.msb then none
  else do
    let atrs ← attribsFromFILE i.toNat bp
    some ⟨name, atrs⟩

def Attrib.Sound (a : Attrib) : Prop := ∃ value, a = Attrib.ofText a.attrnum value

/-- The attributes of an object are sound, and their numbers increase. -/
structure Obj.Sound (o : Obj) : Prop where
  increasing : Increasing Attrib.number o.atrs
  sound : ∀ a ∈ o.atrs, a.Sound

def Obj.valueOf (o : Obj) (attrnum : Attrnum) : Option (List Byte) :=
  (lookup Attrib.number o.atrs attrnum.toNat).map fun a => cString a.data

theorem cString_text (value : Text) : cString (value.chars ++ [0]) = value.chars := by
  unfold cString
  rw [takeWhile_append_of_pos fun c mem => by
    simpa using fun zero : c = 0 => value.noNul (zero ▸ mem)]
  simp

section Attributes

variable {o : Obj} {attrnum : Attrnum}

theorem search_spec (sound : o.Sound) (attrnum : Attrnum) :
    ∃ hf, o.search attrnum = some hf ∧ Found Attrib.number o.atrs attrnum.toNat hf :=
  Bisection.bisect_spec sound.increasing attrnum.toNat

theorem getAttrib_spec (sound : o.Sound) (attrnum : Attrnum) :
    o.getAttrib attrnum = some (o.valueOf attrnum) := by
  obtain ⟨hf, searched, place⟩ := search_spec sound attrnum
  simp only [Obj.getAttrib, searched, bind_eq_bind, bind_some]
  have increasing := sound.increasing
  unfold Obj.valueOf
  cases place with
  | @present before after a split equal =>
    rw [split] at increasing ⊢
    rw [if_pos rfl, ← equal, Bisection.lookup_of_present increasing]
    simp
  | @absent before after split smaller larger =>
    rw [if_neg Bool.false_ne_true, Bisection.lookup_eq_none]
    · rfl
    · intro a mem
      rw [split] at mem
      rcases mem_append.mp mem with inBefore | inAfter
      · exact ne_of_lt (smaller a inBefore)
      · exact ne_of_gt (larger a inAfter)

theorem put_spec (sound : o.Sound) (value : Text) {before middle after : List Attrib}
    (split : o.atrs = before ++ middle ++ after)
    (smaller : ∀ a ∈ before, a.number < attrnum.toNat)
    (larger : ∀ a ∈ after, attrnum.toNat < a.number)
    (eq : ∀ a ∈ middle, a.number = attrnum.toNat) :
    Obj.Sound ⟨o.name, before ++ Attrib.ofText attrnum value :: after⟩ ∧
      ∀ other, Obj.valueOf ⟨o.name, before ++ Attrib.ofText attrnum value :: after⟩ other =
        if other = attrnum then some value.chars else o.valueOf other := by
  have whole := sound.increasing
  rw [split] at whole
  have put := @Increasing.put _ _ _ Attrib.number (Attrib.ofText attrnum value) before
    middle after whole smaller larger eq
  refine ⟨⟨put.1, fun a mem => ?_⟩, fun other => ?_⟩
  · have old : a = Attrib.ofText attrnum value ∨ a ∈ o.atrs := by
      rw [split]
      grind
    rcases old with rfl | old
    · exact ⟨value, rfl⟩
    · exact sound.sound a old
  · unfold Obj.valueOf
    rw [put.2, ← split]
    by_cases is : other = attrnum
    · have number : other.toNat = (Attrib.ofText attrnum value).number := by rw [is]; rfl
      rw [if_pos number, if_pos is]
      exact congrArg some (cString_text value)
    · have number : other.toNat ≠ (Attrib.ofText attrnum value).number := fun equal =>
        is (BitVec.eq_of_toNat_eq equal)
      rw [if_neg number, if_neg is]

theorem setAttrib_spec (sound : o.Sound) (attrnum : Attrnum) (value : Text) :
    ∃ o', o.setAttrib attrnum value = some o' ∧ o'.name = o.name ∧ o'.Sound ∧ o'.atrs ≠ [] ∧
      ∀ other, o'.valueOf other = if other = attrnum then some value.chars else o.valueOf other := by
  unfold Obj.setAttrib
  by_cases empty : o.atrs = []
  · rw [if_pos empty]
    have put := @put_spec o attrnum sound value [] [] [] empty (by simp) (by simp) (by simp)
    exact ⟨_, rfl, rfl, put.1, by simp, put.2⟩
  · rw [if_neg empty]
    obtain ⟨hf, searched, place⟩ := search_spec sound attrnum
    simp only [searched, bind_eq_bind, bind_some]
    have increasing := sound.increasing
    cases place with
    | @present before after a split equal =>
      rw [split] at increasing
      have sides := increasing.smaller
      rw [equal] at sides
      have put := @put_spec o attrnum sound value before [a] after (by simpa using split)
        sides.1 sides.2 (by simpa using equal)
      have kept : a.attrnum = attrnum := BitVec.eq_of_toNat_eq equal
      have changed : o.atrs.modify before.length
          (fun a => { Attrib.ofText attrnum value with attrnum := a.attrnum }) =
            before ++ Attrib.ofText attrnum value :: after := by
        rw [split, modify_eq_take_cons_drop (by simp)]
        simp [kept, Attrib.ofText]
      rw [if_pos rfl, changed]
      exact ⟨_, rfl, rfl, put.1, by simp, put.2⟩
    | @absent before after split smaller larger =>
      have put := @put_spec o attrnum sound value before [] after (by simpa using split)
        smaller larger (by simp)
      have changed : o.atrs.insertIdx before.length (Attrib.ofText attrnum value) =
          before ++ Attrib.ofText attrnum value :: after := by
        rw [split, Bisection.insertIdx_split]
      rw [if_neg Bool.false_ne_true, changed]
      exact ⟨_, rfl, rfl, put.1, by simp, put.2⟩

theorem delAttrib_spec (sound : o.Sound) (attrnum : Attrnum) :
    ∃ o', o.delAttrib attrnum = some o' ∧ o'.name = o.name ∧ o'.Sound ∧
      ∀ other, o'.valueOf other = if other = attrnum then none else o.valueOf other := by
  unfold Obj.delAttrib
  have unset : ∀ absent : o.valueOf attrnum = none, ∀ other, o.valueOf other =
      if other = attrnum then none else o.valueOf other := by
    intro absent other
    by_cases is : other = attrnum
    · rw [if_pos is, is, absent]
    · rw [if_neg is]
  by_cases empty : o.atrs = []
  · rw [if_pos empty]
    refine ⟨o, rfl, rfl, sound, unset ?_⟩
    simp [Obj.valueOf, empty, lookup]
  · rw [if_neg empty]
    obtain ⟨hf, searched, place⟩ := search_spec sound attrnum
    simp only [searched, bind_eq_bind, bind_some]
    have increasing := sound.increasing
    cases place with
    | @present before after a split equal =>
      rw [split] at increasing
      have erase := increasing.erase
      have changed : o.atrs.eraseIdx before.length = before ++ after := by
        rw [split, eraseIdx_append_of_length_le (Nat.le_refl _)]
        simp
      rw [if_pos rfl, changed]
      refine ⟨_, rfl, rfl, ⟨erase.1, fun other mem => ?_⟩, fun other => ?_⟩
      · refine sound.sound other ?_
        rw [split]
        exact ((sublist_cons_self a after).append_left before).subset mem
      · unfold Obj.valueOf
        rw [erase.2, split, equal]
        by_cases is : other = attrnum
        · rw [if_pos is, if_pos (congrArg BitVec.toNat is)]
          rfl
        · rw [if_neg is, if_neg fun number => is (BitVec.eq_of_toNat_eq number)]
    | @absent before after split smaller larger =>
      rw [if_neg Bool.false_ne_true]
      refine ⟨o, rfl, rfl, sound, unset ?_⟩
      unfold Obj.valueOf
      rw [Bisection.lookup_eq_none]
      · rfl
      · intro a mem
        rw [split] at mem
        rcases mem_append.mp mem with inBefore | inAfter
        · exact ne_of_lt (smaller a inBefore)
        · exact ne_of_gt (larger a inAfter)

def Attrib.image (a : Attrib) : List Byte :=
  (word 4).encode a.size ++ (word 4).encode a.attrnum ++ a.data.take a.size.toNat

theorem Attrib.Sound.size {a : Attrib} (sound : a.Sound) :
    a.size.toNat = a.data.length ∧ a.size.msb = false := by
  obtain ⟨value, is⟩ := sound
  have short := value.short
  have size : a.size.toNat = value.chars.length + 1 := by
    rw [is]
    show (BitVec.ofNat 32 (value.chars.length + 1)).toNat = _
    rw [BitVec.toNat_ofNat, Nat.mod_eq_of_lt (by omega)]
  refine ⟨?_, ?_⟩
  · rw [size, is]
    simp [Attrib.ofText]
  · rw [BitVec.msb_eq_decide, size]
    simpa using by omega

theorem word_length (v : BitVec 32) : ((word 4).encode v).length = 4 := (word 4).length_encode v

theorem Attrib.image_length {a : Attrib} (sound : a.Sound) :
    a.image.length = a.size.toNat + 8 := by
  unfold Attrib.image
  rw [length_append, length_append, word_length, word_length, length_take,
    ← sound.size.1, Nat.min_self, Nat.add_comm]

theorem siz_eq (atrs : List Attrib) (siz : Nat) (sound : ∀ a ∈ atrs, a.Sound) :
    atrs.foldl (fun siz a => siz + (a.size.toNat + 8)) siz =
      siz + (atrs.flatMap Attrib.image).length := by
  induction atrs generalizing siz with
  | nil => simp
  | cons a rest ih =>
    rw [foldl_cons, ih _ fun o mem => sound o (by simp [mem]),
      flatMap_cons, length_append, Attrib.image_length (sound a (by simp))]
    omega

theorem images_long (atrs : List Attrib) (sound : ∀ a ∈ atrs, a.Sound) :
    atrs.length ≤ (atrs.flatMap Attrib.image).length := by
  induction atrs with
  | nil => simp
  | cons a rest ih =>
    have one := Attrib.image_length (sound a (by simp))
    have later := ih fun o mem => sound o (by simp [mem])
    rw [flatMap_cons, length_append, length_cons]
    omega

theorem objtoFILE_length (sound : o.Sound) : (objtoFILE o).length = objSiz o := by
  have sum := siz_eq o.atrs 8 sound.sound
  unfold objtoFILE objSiz
  rw [sum, length_append, length_append, word_length, word_length]
  rfl

theorem attribsFromFILE_append (atrs : List Attrib) (sound : ∀ a ∈ atrs, a.Sound)
    (rest : List Byte) :
    attribsFromFILE atrs.length (atrs.flatMap Attrib.image ++ rest) = some atrs := by
  induction atrs with
  | nil => rfl
  | cons a others ih =>
    obtain ⟨size, pos⟩ := Attrib.Sound.size (sound a (by simp))
    have data : a.data.take a.size.toNat = a.data := by rw [size, take_length]
    have bytes : (a :: others).flatMap Attrib.image ++ rest =
        (word 4).encode a.size ++ ((word 4).encode a.attrnum ++
          (a.data ++ (others.flatMap Attrib.image ++ rest))) := by
      simp only [flatMap_cons, Attrib.image, data, append_assoc]
    rw [bytes, length_cons, attribsFromFILE]
    have fst : ∀ later, (word 4).decode ((word 4).encode a.size ++ later) = a.size :=
      (word 4).decode_append a.size
    have snd : ∀ later, (word 4).decode ((word 4).encode a.attrnum ++ later) = a.attrnum :=
      (word 4).decode_append a.attrnum
    simp only [fst, drop_left' (word_length _), snd, pos, Bool.false_eq_true,
      if_false, size, drop_left, take_left,
      ih fun o mem => sound o (by simp [mem])]
    rfl

theorem objfromFILE_objtoFILE (sound : o.Sound) (fits : objSiz o < 2147483648) :
    objfromFILE (objtoFILE o) = some o := by
  have few : o.atrs.length < 2147483648 := by
    have long := images_long o.atrs sound.sound
    have sum := siz_eq o.atrs 8 sound.sound
    unfold objSiz at fits
    omega
  have count : (BitVec.ofNat 32 o.atrs.length).toNat = o.atrs.length := by
    rw [BitVec.toNat_ofNat, Nat.mod_eq_of_lt (by omega)]
  have pos : (BitVec.ofNat 32 o.atrs.length).msb = false := by
    rw [BitVec.msb_eq_decide, count]
    simpa using by omega
  have fst : ∀ later, (word 4).decode ((word 4).encode o.name ++ later) = o.name :=
    (word 4).decode_append o.name
  have snd : ∀ later, (word 4).decode
      ((word 4).encode (BitVec.ofNat 32 o.atrs.length) ++ later) = BitVec.ofNat 32 o.atrs.length :=
    (word 4).decode_append _
  have atrs := attribsFromFILE_append o.atrs sound.sound []
  rw [append_nil] at atrs
  have bytes : objtoFILE o = (word 4).encode o.name ++
      ((word 4).encode (BitVec.ofNat 32 o.atrs.length) ++ o.atrs.flatMap Attrib.image) := by
    rw [← append_assoc]
    rfl
  unfold objfromFILE
  simp only [bytes, fst, drop_left' (word_length _), snd, pos, Bool.false_eq_true,
    if_false, count, atrs]
  rfl

end Attributes

end

section

open Function (update)
open ByteCodec (Byte)
open LinkedMemory (Links Deque seek visited)

/-- A holder.  Those of `cache_init` come first. -/
abbrev Addr := Nat

inductive Lane where
  | active
  | mactive
  | old
  | mold
deriving Repr, Inhabited, DecidableEq

abbrev Place := Nat × Lane

/-- The sizes that `cache_init` settles. -/
structure Config where
  cwidth : Nat
  cdepth : Nat
  positive : 0 < cwidth

/-- `cache_init` allocates its holders in one block.  None of them can be freed by itself: no
pointer into the block can, and the pointer to its start takes all the others along. -/
def Config.carved (config : Config) (cp : Addr) : Bool :=
  cp < config.cwidth * config.cdepth ∧ 1 < config.cwidth * config.cdepth

structure Store where
  links : Links Addr
  op : Addr → Option Obj
  fresh : Addr
  chain : Place → Deque Addr
  count : Nat → Nat
  disk : Objname → Option (List Byte)

/-- What ends a run: an image too large for an `int`, so that it cannot be written; the freeing
of a holder inside the first block; a file that has an object under another number; a pointer
that should not be null, or a loop that does not end. -/
inductive Failure where
  | unwritable (o : Obj)
  | carved (cp : Addr)
  | corrupt
  | fault
deriving DecidableEq

def orFault {α : Type} : Option α → Except Failure α
  | some result => .ok result
  | none => .error .fault

def dddbGet (disk : Objname → Option (List Byte)) (nam : Objname) :
    Except Failure (Option Obj) :=
  match disk nam with
  | none => .ok none
  | some dat =>
    match objfromFILE dat with
    | none => .ok none
    | some ret => if nam ≠ ret.name then .error .corrupt else .ok (some ret)

def dddbPut (disk : Objname → Option (List Byte)) (obj : Obj) :
    Except Failure (Objname → Option (List Byte)) :=
  if objSiz obj < 2147483648 then .ok (update disk obj.name (some (objtoFILE obj)))
  else .error (.unwritable obj)

/-- `dddb_del`; a missing object is no error. -/
def dddbDel (disk : Objname → Option (List Byte)) (nam : Objname) :
    Objname → Option (List Byte) :=
  update disk nam none

def bucket (config : Config) (object : Objname) : Nat := object.toNat % config.cwidth

namespace Store

variable (s : Store)

def namecmp (cp : Addr) (object : Objname) : Bool :=
  match s.op cp with
  | some o => o.name = object
  | none => false

def dequeue (q : Place) (e : Addr) : Store :=
  let (links, list) := (s.chain q).remove s.links e
  { s with links := links, chain := update s.chain q list }

def inshead (q : Place) (e : Addr) : Store :=
  let (links, list) := (s.chain q).pushHead s.links e
  { s with links := links, chain := update s.chain q list }

def search (q : Place) (object : Objname) : Except Failure (Option Addr) :=
  orFault ((seek s.links.next (fun cp => !s.namecmp cp object) (s.fresh + 1) none
    (s.chain q).head).map fun found => found.2)

def locate (x : Nat) (object : Objname) : List Lane → Except Failure (Option (Lane × Addr))
  | [] => .ok none
  | lane :: lanes => do
      match ← s.search (x, lane) object with
      | some cp => return some (lane, cp)
      | none => locate x object lanes

/-- The four chains, in the order in which they are searched. -/
def lanes : List Lane := [.active, .mactive, .old, .mold]

def cacheRepl (cp : Addr) (new : Option Obj) : Store := { s with op := update s.op cp new }

/-- An object is written to the file, or deleted from it when it has no attributes. -/
def flush (cp : Addr) : Except Failure Store :=
  match s.op cp with
  | none => .error .fault
  | some o =>
    if o.atrs = [] then .ok { s with disk := dddbDel s.disk o.name }
    else do
      let disk ← dddbPut s.disk o
      return { s with disk := disk }

def unlinkTail (q : Place) (cp : Addr) : Store :=
  let (links, list) := (s.chain q).dropLast s.links cp
  { s with links := links, chain := update s.chain q list }

def getFreeEntry (x : Nat) : Except Failure (Store × Addr) := do
  match (s.chain (x, .old)).tail with
  | some cp => return ((s.unlinkTail (x, .old) cp).cacheRepl cp none, cp)
  | none =>
    match (s.chain (x, .mold)).tail with
    | some cp =>
      let s ← (s.unlinkTail (x, .mold) cp).flush cp
      return (s.cacheRepl cp none, cp)
    | none =>
      let cp := s.fresh
      return ({ s.cacheRepl cp none with
        fresh := s.fresh + 1
        count := update s.count x (s.count x + 1) }, cp)

/-- The holder that `cache_trim` frees. -/
def trimTail (x : Nat) (cp : Addr) : Store :=
  let q : Place := (x, .old)
  let s : Store :=
    match s.links.prev cp with
    | some previous =>
      { s with
        links := { s.links with next := update s.links.next previous (s.links.next cp) }
        chain := update s.chain q { s.chain q with tail := some previous } }
    | none => { s with chain := update s.chain q ⟨none, none⟩ }
  { s.cacheRepl cp none with count := update s.count x (s.count x - 1) }

/-- The loop of `cache_trim`.  Every round lowers the count. -/
def trimLoop (config : Config) (x : Nat) : Nat → Store → Except Failure Store
  | 0, s => .ok s
  | rounds + 1, s =>
    if s.count x > config.cdepth then
      match (s.chain (x, .old)).tail with
      | some cp =>
        if config.carved cp then .error (.carved cp)
        else trimLoop config x rounds (s.trimTail x cp)
      | none => .ok s
    else .ok s

def cacheTrim (config : Config) (x : Nat) : Except Failure Store :=
  trimLoop config x (s.count x) s

def rechain (source target : Place) : Store :=
  if (s.chain source).head = none then s
  else
    let (links, list) := (s.chain target).prepend s.links (s.chain source)
    { s with
      links := links
      chain := update (update s.chain target list) source { s.chain source with head := none } }

/-- What `cache_reset` does to a bucket. -/
def resetBucket (config : Config) (trim : Bool) (s : Store) (x : Nat) : Except Failure Store :=
  let s := s.rechain (x, .active) (x, .old)
  let s := s.rechain (x, .mactive) (x, .mold)
  if trim then s.cacheTrim config x else .ok s

/-- `cache_reset`; `trim` stands for the argument together with the `cache_trim` setting. -/
def cacheReset (config : Config) (trim : Bool) : Except Failure Store :=
  (List.range config.cwidth).foldlM (resetBucket config trim) s

def cacheWrite : Nat → Option Addr → Store → Except Failure Store
  | 0, _, _ => .error .fault
  | _ + 1, none, s => .ok s
  | limit + 1, some cp, s => do
      let s ← s.flush cp
      cacheWrite limit (s.links.next cp) s

def rejoin (source target : Place) : Store :=
  if (s.chain source).head = none then s
  else
    let (links, list) := (s.chain target).append s.links (s.chain source)
    { s with
      links := links
      chain := update (update s.chain target list) source ⟨none, none⟩ }

def cacheClean (x : Nat) : Store :=
  let s := s.rejoin (x, .mold) (x, .old)
  s.rejoin (x, .mactive) (x, .active)

/-- What `cache_sync` does to a bucket. -/
def syncBucket (config : Config) (trim : Bool) (s : Store) (x : Nat) : Except Failure Store := do
  let s ← cacheWrite (s.fresh + 1) (s.chain (x, .mold)).head s
  let s ← cacheWrite (s.fresh + 1) (s.chain (x, .mactive)).head s
  let s := s.cacheClean x
  if trim then s.cacheTrim config x else .ok s

/-- `cache_sync`; `trim` is the `cache_trim` setting. -/
def cacheSync (config : Config) (trim : Bool) : Except Failure Store := do
  let s ← s.cacheReset config false
  (List.range config.cwidth).foldlM (syncBucket config trim) s

/-- The chain that `cache_get` moves an object to, if it moves it. -/
def touched : Lane → Option Lane
  | .active => none
  | .mactive => none
  | .old => some .active
  | .mold => some .mactive

def cacheGet (config : Config) (nam : Aname) : Except Failure (Store × Option (List Byte)) := do
  let x := bucket config nam.object
  match ← s.locate x nam.object lanes with
  | some (lane, cp) =>
    let s : Store :=
      match touched lane with
      | some target => (s.dequeue (x, lane) cp).inshead (x, target) cp
      | none => s
    let o ← orFault (s.op cp)
    let attr ← orFault (o.getAttrib nam.attrnum)
    return (s, attr)
  | none =>
    match ← dddbGet s.disk nam.object with
    | none => return (s, none)
    | some ret =>
      let (s, cp) ← s.getFreeEntry x
      let s := (s.cacheRepl cp (some ret)).inshead (x, .active) cp
      let attr ← orFault (ret.getAttrib nam.attrnum)
      return (s, attr)

/-- `cache_put` and `cache_del` move a modified object to the modified active chain. -/
def dirty (x : Nat) (lane : Lane) (cp : Addr) : Store :=
  if lane = .mactive then s else (s.dequeue (x, lane) cp).inshead (x, .mactive) cp

def cachePut (config : Config) (nam : Aname) (obj : Text) : Except Failure Store := do
  let x := bucket config nam.object
  match ← s.locate x nam.object lanes with
  | some (lane, cp) =>
    let o ← orFault (s.op cp)
    let o ← orFault (o.setAttrib nam.attrnum obj)
    return (s.cacheRepl cp (some o)).dirty x lane cp
  | none =>
    let newobj := (← dddbGet s.disk nam.object).getD ⟨nam.object, []⟩
    let newobj ← orFault (newobj.setAttrib nam.attrnum obj)
    let (s, cp) ← s.getFreeEntry x
    return (s.cacheRepl cp (some newobj)).inshead (x, .mactive) cp

def cacheDel (config : Config) (nam : Aname) : Except Failure Store := do
  let x := bucket config nam.object
  match ← s.locate x nam.object lanes with
  | some (lane, cp) =>
    let s := s.dirty x lane cp
    let o ← orFault (s.op cp)
    let o ← orFault (o.delAttrib nam.attrnum)
    return s.cacheRepl cp (some o)
  | none =>
    match ← dddbGet s.disk nam.object with
    | none => return s
    | some obj =>
      let (s, cp) ← s.getFreeEntry x
      let obj ← orFault (obj.delAttrib nam.attrnum)
      return (s.cacheRepl cp (some obj)).inshead (x, .mactive) cp

/-- A round of the inner loop of `cache_init`: a new holder at the head of the old chain. -/
def hold (x : Nat) (s : Store) : Store :=
  let np := s.fresh
  { (s.cacheRepl np none).inshead (x, .old) np with fresh := s.fresh + 1 }

/-- A round of the outer loop of `cache_init`. -/
def initBucket (config : Config) (s : Store) (x : Nat) : Store :=
  (List.range config.cdepth).foldl (fun s _ => s.hold x)
    { s with count := update s.count x config.cdepth }

/-- `cache_init`, in front of a file. -/
def cacheInit (config : Config) (disk : Objname → Option (List Byte)) : Store :=
  (List.range config.cwidth).foldl (initBucket config)
    { links := ⟨fun _ => none, fun _ => none⟩
      op := fun _ => none
      fresh := 0
      chain := fun _ => ⟨none, none⟩
      count := fun _ => 0
      disk := disk }

end Store

inductive Op where
  | get (nam : Aname)
  | put (nam : Aname) (obj : Text)
  | del (nam : Aname)
  | reset (trim : Bool)
  | sync (trim : Bool)

/-- One operation, with what `cache_get` returns. -/
def perform (config : Config) (s : Store) : Op → Except Failure (Store × List (Option (List Byte)))
  | .get nam => do
      let (s, attr) ← s.cacheGet config nam
      return (s, [attr])
  | .put nam obj => do
      return (← s.cachePut config nam obj, [])
  | .del nam => do
      return (← s.cacheDel config nam, [])
  | .reset trim => do
      return (← s.cacheReset config trim, [])
  | .sync trim => do
      return (← s.cacheSync config trim, [])

def run (config : Config) : Store → List Op → Except Failure (Store × List (Option (List Byte)))
  | s, [] => .ok (s, [])
  | s, op :: ops => do
      let (s, answer) ← perform config s op
      let (s, answers) ← run config s ops
      return (s, answer ++ answers)

namespace Store

variable (s : Store)

/-- The holders of a chain, front first. -/
def holders (q : Place) : List Addr := visited s.links.next (s.fresh + 1) (s.chain q).head

/-- When `old` is the old chain of a bucket, `cache_trim` frees as many holders at its end as
the bucket has above its depth: none of them lies inside the first block. -/
def spares (config : Config) (x : Nat) (old : List Addr) : Bool :=
  (old.rtake (s.count x - config.cdepth)).all fun cp => !config.carved cp

/-- No `cache_trim` of an operation comes to a holder inside the first block. -/
def sparesBlock (config : Config) : Op → Bool
  | .reset true => (List.range config.cwidth).all fun x =>
    s.spares config x (s.holders (x, .active) ++ s.holders (x, .old))
  | .sync true => (List.range config.cwidth).all fun x =>
    s.spares config x (s.holders (x, .active) ++ s.holders (x, .old) ++
      (s.holders (x, .mactive) ++ s.holders (x, .mold)))
  | _ => true

/-- No `cache_trim` of a run comes to a holder inside the first block. -/
def runSpares (config : Config) (s : Store) : List Op → Bool
  | [] => true
  | op :: ops => s.sparesBlock config op &&
    match perform config s op with
    | .ok (s, _) => runSpares config s ops
    | .error _ => true

end Store

end

open Function (update update_self update_of_ne)
open LinkedMemory (Links Deque Chain seek seek_eq)

/-- The chains whose last holder is looked for without a look at the first. -/
def Lane.inactive : Lane → Bool
  | .old => true
  | .mold => true
  | _ => false

/-- Every chain holds the list on its shelf, and no holder stands twice. -/
structure Layout (s : Store) (shelf : Place → List Addr) : Prop where
  holds : ∀ q, (s.chain q).Holds s.links (shelf q)
  closed : ∀ q : Place, q.2.inactive → (s.chain q).Closed (shelf q)
  apart : ∀ {p q cp}, cp ∈ shelf p → cp ∈ shelf q → p = q
  below : ∀ {q cp}, cp ∈ shelf q → cp < s.fresh

namespace Layout

variable {s s' : Store} {shelf : Place → List Addr} {q : Place} {cp : Addr}

theorem replace (layout : Layout s shelf) {list : Deque Addr} {cells : List Addr}
    (chain : s'.chain = update s.chain q list) (holds : list.Holds s'.links cells)
    (closed : q.2.inactive → list.Closed cells)
    (frame : ∀ p ≠ q, ∀ o ∈ shelf p,
      s'.links.next o = s.links.next o ∧ s'.links.prev o = s.links.prev o)
    (apart : ∀ o ∈ cells, ∀ p ≠ q, o ∉ shelf p)
    (below : ∀ o ∈ cells, o < s'.fresh) (grows : s.fresh ≤ s'.fresh) :
    Layout s' (update shelf q cells) where
  holds p := by
    by_cases here : p = q
    · rw [here, chain, update_self, update_self]
      exact holds
    · rw [chain, update_of_ne here, update_of_ne here]
      exact (layout.holds p).congr (fun o mem => (frame p here o mem).1)
        fun o mem => (frame p here o mem).2
  closed p inactive := by
    by_cases here : p = q
    · rw [here] at inactive ⊢
      rw [chain, update_self, update_self]
      exact closed inactive
    · rw [chain, update_of_ne here, update_of_ne here]
      exact layout.closed p inactive
  apart {p p' o} fst snd := by
    by_cases here : p = q <;> by_cases there : p' = q
    · rw [here, there]
    · rw [here, update_self] at fst
      rw [update_of_ne there] at snd
      exact absurd snd (apart o fst p' there)
    · rw [update_of_ne here] at fst
      rw [there, update_self] at snd
      exact absurd fst (apart o snd p here)
    · rw [update_of_ne here] at fst
      rw [update_of_ne there] at snd
      exact layout.apart fst snd
  below {p o} mem := by
    by_cases here : p = q
    · rw [here, update_self] at mem
      exact below o mem
    · rw [update_of_ne here] at mem
      exact Nat.lt_of_lt_of_le (layout.below mem) grows

theorem elsewhere (layout : Layout s shelf) (mem : cp ∈ shelf q) :
    ∀ p ≠ q, cp ∉ shelf p :=
  fun _ ne o => ne (layout.apart o mem)

theorem length_le (layout : Layout s shelf) (q : Place) : (shelf q).length ≤ s.fresh := by
  have contained : shelf q ⊆ List.range s.fresh := fun cp mem =>
    List.mem_range.mpr (layout.below mem)
  have shorter := ((layout.holds q).nodup.subperm contained).length_le
  rwa [List.length_range] at shorter

variable {before after : List Addr}

section

variable (layout : Layout s shelf)
include layout

theorem holders_eq (q : Place) : s.holders q = shelf q :=
  LinkedMemory.visited_eq (layout.holds q).forward (Nat.lt_succ_of_le (layout.length_le q))

theorem dequeue (split : shelf q = before ++ cp :: after) :
    Layout (s.dequeue q cp) (update shelf q (before ++ after)) := by
  have holds := layout.holds q
  have within : ∀ o ∈ before ++ after, o ∈ shelf q := fun o mem => by
    rw [split]
    grind
  rw [split] at holds
  refine layout.replace rfl holds.remove (fun _ => holds.remove_closed) ?_ ?_ ?_ (Nat.le_refl _)
  · intro p ne o mem
    exact holds.remove_links fun hin =>
      layout.elsewhere mem q (Ne.symm ne) (within o hin)
  · exact fun o mem => layout.elsewhere (within o mem)
  · exact fun o mem => layout.below (within o mem)

theorem inshead (loose : ∀ p, cp ∉ shelf p) (known : cp < s.fresh) (q : Place) :
    Layout (s.inshead q cp) (update shelf q (cp :: shelf q)) := by
  have holds := layout.holds q
  refine layout.replace rfl (holds.pushHead (loose q)) (fun _ empty => by simp at empty)
    ?_ ?_ ?_ (Nat.le_refl _)
  · intro p ne o mem
    exact holds.pushHead_links (loose q) (fun eq => loose p (eq ▸ mem))
      (layout.elsewhere mem q (Ne.symm ne))
  · intro o mem p ne
    rcases List.mem_cons.mp mem with rfl | mem
    · exact loose p
    · exact layout.elsewhere mem p ne
  · intro o mem
    rcases List.mem_cons.mp mem with rfl | mem
    · exact known
    · exact layout.below mem

theorem mem_without (split : shelf q = before ++ cp :: after) {p : Place} {o : Addr} :
    o ∈ update shelf q (before ++ after) p ↔ o ∈ shelf p ∧ o ≠ cp := by
  have nodup := (layout.holds q).nodup
  rw [split, List.nodup_middle, List.nodup_cons] at nodup
  by_cases here : p = q
  · rw [here, update_self, split]
    refine ⟨fun mem => ⟨by grind, ?_⟩, fun both => by grind⟩
    rintro rfl
    exact nodup.1 mem
  · rw [update_of_ne here]
    refine ⟨fun mem => ⟨mem, ?_⟩, fun both => both.1⟩
    rintro rfl
    exact here (layout.apart mem (by simp [split]))

theorem move (split : shelf q = before ++ cp :: after) {target : Place} (ne : q ≠ target) :
    Layout ((s.dequeue q cp).inshead target cp)
      (update (update shelf q (before ++ after)) target (cp :: shelf target)) := by
  have out := layout.dequeue split
  have mem : cp ∈ shelf q := by simp [split]
  have loose : ∀ p, cp ∉ update shelf q (before ++ after) p := fun p hin =>
    ((layout.mem_without split).mp hin).2 rfl
  have moved := out.inshead loose (layout.below mem) target
  rwa [update_of_ne (Ne.symm ne)] at moved

end

variable {init : List Addr}

section

variable (layout : Layout s shelf)
include layout

theorem unlinkTail (split : shelf q = init ++ [cp]) :
    Layout (s.unlinkTail q cp) (update shelf q init) := by
  have holds := layout.holds q
  have within : ∀ o ∈ init, o ∈ shelf q := fun o mem => by simp [split, mem]
  rw [split] at holds
  refine layout.replace rfl holds.dropLast.1 (fun _ => holds.dropLast.2) ?_ ?_ ?_ (Nat.le_refl _)
  · intro p ne o mem
    exact holds.dropLast_links fun hin =>
      layout.elsewhere mem q (Ne.symm ne) (within o hin)
  · exact fun o mem => layout.elsewhere (within o mem)
  · exact fun o mem => layout.below (within o mem)

theorem congr (links : s'.links = s.links) (chain : s'.chain = s.chain)
    (fresh : s.fresh ≤ s'.fresh) : Layout s' shelf where
  holds := by rw [links, chain]; exact layout.holds
  closed := by rw [chain]; exact layout.closed
  apart := layout.apart
  below mem := Nat.lt_of_lt_of_le (layout.below mem) fresh

theorem trimTail_eq {x : Nat} (split : shelf (x, .old) = init ++ [cp]) :
    (s.trimTail x cp).links = (s.unlinkTail (x, .old) cp).links ∧
      (s.trimTail x cp).chain = (s.unlinkTail (x, .old) cp).chain := by
  have holds := layout.holds (x, .old)
  rw [split] at holds
  have ended : s.links.next cp = none := by simpa using holds.next_eq
  have still : ∀ previous, update s.links.next previous none cp = none := fun previous => by
    rw [Function.update_apply, ended, ite_self]
  unfold Store.trimTail Store.unlinkTail Deque.dropLast
  cases s.links.prev cp with
  | none => exact ⟨rfl, rfl⟩
  | some previous => simp [Store.cacheRepl, ended, still]

theorem trimTail {x : Nat} (split : shelf (x, .old) = init ++ [cp]) :
    Layout (s.trimTail x cp) (update shelf (x, .old) init) := by
  have memory := layout.trimTail_eq split
  refine (layout.unlinkTail split).congr memory.1 memory.2 ?_
  unfold Store.trimTail
  cases s.links.prev cp <;> exact Nat.le_refl _

theorem empty (none' : (s.chain q).head = none) : shelf q = [] := by
  rw [(layout.holds q).head_eq] at none'
  exact List.head?_eq_none_iff.mp none'

end

variable {source target : Place}

section

variable (layout : Layout s shelf) (ne : source ≠ target)
include layout ne

theorem pour {links : Links Addr} {list left : Deque Addr} {cells : List Addr}
    (chain : s'.chain = update (update s.chain target list) source left)
    (memory : s'.links = links) (gone : left.head = none)
    (goneClosed : source.2.inactive → left.tail = none)
    (holds : list.Holds links cells) (closed : target.2.inactive → list.Closed cells)
    (members : ∀ o, o ∈ cells ↔ o ∈ shelf source ∨ o ∈ shelf target)
    (frame : ∀ o, o ∉ cells →
      links.next o = s.links.next o ∧ links.prev o = s.links.prev o)
    (fresh : s'.fresh = s.fresh) : Layout s' (update (update shelf target cells) source []) := by
  have emptied : Layout { s with chain := update s.chain source left }
      (update shelf source []) := by
    refine layout.replace rfl ⟨gone, fun some' => absurd rfl some'⟩
      (fun inactive _ => goneClosed inactive) ?_ (by simp) (by simp) (Nat.le_refl _)
    exact fun _ _ _ _ => ⟨rfl, rfl⟩
  have apart : ∀ o ∈ cells, ∀ p ≠ target, o ∉ update shelf source [] p := by
    intro o mem p elsewhere
    by_cases here : p = source
    · rw [here, update_self]
      simp
    · rw [update_of_ne here]
      rcases (members o).mp mem with mem | mem
      · exact layout.elsewhere mem p here
      · exact layout.elsewhere mem p elsewhere
  have poured : Layout s' (update (update shelf source []) target cells) := by
    refine @replace _ s' _ target emptied list cells ?_ (memory ▸ holds) closed ?_ apart ?_
      (Nat.le_of_eq fresh.symm)
    · rw [chain, Function.update_comm ne]
    · intro p elsewhere o mem
      rw [memory]
      exact frame o fun hin => apart o hin p elsewhere mem
    · intro o mem
      rw [fresh]
      rcases (members o).mp mem with mem | mem <;> exact layout.below mem
  rwa [Function.update_comm (Ne.symm ne)]

theorem rechain (active : source.2.inactive = false) (inactive : target.2.inactive = true) :
    Layout (s.rechain source target)
      (update (update shelf target (shelf source ++ shelf target)) source []) := by
  unfold Store.rechain
  by_cases none' : (s.chain source).head = none
  · have nothing := layout.empty none'
    have eq : update (update shelf target (shelf source ++ shelf target)) source [] = shelf := by
      rw [nothing, List.nil_append, Function.update_eq_self, ← nothing, Function.update_eq_self]
    rw [if_pos none', eq]
    exact layout
  · rw [if_neg none']
    have holds := layout.holds target
    have front := layout.holds source
    have closed := layout.closed target inactive
    refine layout.pour ne rfl rfl rfl (fun wrong => by simp [active] at wrong)
      (holds.prepend front closed ?_) (fun _ => front.prepend_closed closed) ?_ ?_ rfl
    · exact fun o mem => layout.elsewhere mem source ne
    · exact fun o => List.mem_append
    · exact fun o out => holds.prepend_links front out

theorem rejoin :
    Layout (s.rejoin source target)
      (update (update shelf target (shelf target ++ shelf source)) source []) := by
  unfold Store.rejoin
  by_cases none' : (s.chain source).head = none
  · have nothing := layout.empty none'
    have eq : update (update shelf target (shelf target ++ shelf source)) source [] = shelf := by
      rw [nothing, List.append_nil, Function.update_eq_self, ← nothing, Function.update_eq_self]
    rw [if_pos none', eq]
    exact layout
  · rw [if_neg none']
    have holds := layout.holds target
    have back := layout.holds source
    have some' : shelf source ≠ [] := fun nothing =>
      none' (by rw [back.head_eq, nothing]; rfl)
    refine layout.pour ne rfl rfl rfl (fun _ => rfl)
      (holds.append back ?_) (fun _ nothing => absurd nothing (by simp [some'])) ?_ ?_ rfl
    · exact fun o mem => layout.elsewhere mem target (Ne.symm ne)
    · exact fun o => by rw [List.mem_append, or_comm]
    · exact fun o out => holds.append_links back out

end

theorem search_spec (layout : Layout s shelf) (q : Place) (object : Objname) :
    (s.search q object = .ok none ∧ ∀ cp ∈ shelf q, s.namecmp cp object = false) ∨
      ∃ cp ∈ shelf q, s.search q object = .ok (some cp) ∧ s.namecmp cp object = true := by
  have walked := @seek_eq _ (shelf q) s.links.next (fun cp => !s.namecmp cp object)
    (s.chain q).head none (s.fresh + 1) (layout.holds q).forward
    (Nat.lt_succ_of_le (layout.length_le q))
  unfold Store.search
  rw [walked]
  cases hf : (shelf q).dropWhile fun cp => !s.namecmp cp object with
  | nil =>
    refine Or.inl ⟨rfl, fun cp mem => ?_⟩
    simpa using List.dropWhile_eq_nil_iff.mp hf cp mem
  | cons cp rest =>
    refine Or.inr ⟨cp, ?_, rfl, ?_⟩
    · exact (List.dropWhile_sublist _).subset (hf ▸ List.mem_cons_self)
    · have stopped := List.head?_dropWhile_not (fun cp => !s.namecmp cp object) (shelf q)
      rw [hf] at stopped
      simpa using stopped

end Layout

end BattletechMux.Cache
