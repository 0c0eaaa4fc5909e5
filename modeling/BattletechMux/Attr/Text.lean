/-
Module: BattletechMux.Attr.Text
Purpose: The owner and the flags of an attribute, which db.c keeps as a prefix of its text when they
  are not the default ones, and exactly when an attribute that is added is got back as it was.
-/
import BattletechMux.Attr.Listing
import Mathlib.Data.List.TakeDrop

namespace BattletechMux.Attr

open List

abbrev Dbref := BitVec 32

def nothing : Dbref := -1

def lbufSize : Nat := 8000

def atrInfoChar : Char := '\x01'

/-- `tprintf`: what is printed is cut to the buffer. -/
def tprintf (text : List Char) : List Char := text.take (lbufSize - 1)

def infoPrefix (owner : Dbref) (flags : BitVec 32) : List Char :=
  atrInfoChar :: CText.decimal owner.toInt ++ ':' :: CText.decimal flags.toInt ++ [':']

/-- `atr_encode`; `ownerOf` is the owner of the object. -/
def atrEncode (iattr : List Char) (ownerOf owner : Dbref) (flags : BitVec 32) : List Char :=
  if (owner = ownerOf ∨ owner = nothing) ∧ flags = 0 then iattr
  else
    let owner := if owner = nothing then ownerOf else owner
    tprintf (infoPrefix owner flags ++ iattr)

def scanDigits (value : BitVec 32) : List Char → BitVec 32 × List Char
  | [] => (value, [])
  | c :: cp =>
    if c.isDigit then scanDigits (value * 10 + BitVec.ofNat 32 (c.toNat - '0'.toNat)) cp
    else (value, c :: cp)

/-- `atr_decode`: the owner, the flags and the text.  `beyond` is what stands in memory behind
the end of the string, where the text is taken from when the second number ends the string. -/
def atrDecode (beyond iattr : List Char) (ownerOf : Dbref) : Dbref × BitVec 32 × List Char :=
  match iattr with
  | c :: cp =>
    if c ≠ atrInfoChar then (ownerOf, 0, iattr)
    else
      let neg := cp.head? = some '-'
      let (owner, cp) := scanDigits 0 (if neg then cp.tail else cp)
      let owner := if neg then 0 - owner else owner
      match cp with
      | ':' :: cp =>
        let (flags, cp) := scanDigits 0 cp
        let (owner, flags) := if cp.head? = some ':' then (owner, flags) else (ownerOf, 0)
        let text := if cp = [] then beyond else cp.tail
        (if owner = nothing then ownerOf else owner, flags, text)
      | _ => (ownerOf, 0, iattr)
  | [] => (ownerOf, 0, iattr)

def atrAdd (db : Db) (ownerOf : Object → Dbref) (thing : Object) (atr : Attrnum)
    (buff : List Char) (owner : Dbref) (flags : BitVec 32) : Db :=
  if buff = [] then db.atrClr thing atr
  else db.atrAddRaw thing atr (atrEncode buff (ownerOf thing) owner flags)

def atrGet (beyond : List Char) (db : Db) (ownerOf : Object → Dbref) (thing : Object)
    (atr : Attrnum) : Dbref × BitVec 32 × List Char :=
  match db.attr thing atr with
  | none => (ownerOf thing, 0, [])
  | some buff => atrDecode beyond buff (ownerOf thing)

/-- A text that `atr_decode` takes apart: the first number ends at a colon. -/
def Prefixed (text : List Char) : Prop :=
  ∃ rest, text = atrInfoChar :: rest ∧
    ((if rest.head? = some '-' then rest.tail else rest).dropWhile Char.isDigit).head? = some ':'

instance (text : List Char) : Decidable (Prefixed text) :=
  match text with
  | [] => isFalse fun ⟨_, is, _⟩ => nomatch is
  | c :: rest =>
    decidable_of_iff (c = atrInfoChar ∧ ((if rest.head? = some '-' then rest.tail
      else rest).dropWhile Char.isDigit).head? = some ':')
      ⟨fun ⟨first, colon⟩ => ⟨rest, first ▸ rfl, colon⟩, fun ⟨_, is, colon⟩ => by
        cases is
        exact ⟨rfl, colon⟩⟩

/-- What was added is got back: the text, the owner, which is the object's if NOTHING was given,
and the flags. -/
def RoundTrips (db : Db) (ownerOf : Object → Dbref) (thing : Object) (atr : Attrnum)
    (text : List Char) (owner : Dbref) (flags : BitVec 32) : Prop :=
  ∀ beyond, atrGet beyond (atrAdd db ownerOf thing atr text owner flags) ownerOf thing atr =
    (if owner = nothing then ownerOf thing else owner, flags, text)

theorem atrAddRaw_attr (db : Db) (thing : Object) (atr : Attrnum) {buff : List Char}
    (some' : buff ≠ []) : (db.atrAddRaw thing atr buff).attr thing atr = some buff := by
  unfold Db.atrAddRaw
  rw [if_neg some', (setMark_eq true).1]
  by_cases list : atr = aList
  · rw [Db.alAdd, if_pos list, put_attr, if_pos ⟨rfl, rfl⟩]
  · rw [alAdd_attr thing list, put_attr, if_pos ⟨rfl, rfl⟩]

section Scan

variable {rest : List Char}

theorem scanDigits_snd (value : BitVec 32) (text : List Char) :
    (scanDigits value text).2 = text.dropWhile Char.isDigit := by
  induction text generalizing value with
  | nil => rfl
  | cons c cp ih =>
    rw [scanDigits]
    by_cases digit : c.isDigit = true
    · rw [if_pos digit, dropWhile_cons_of_pos digit, ih]
    · rw [if_neg digit, dropWhile_cons_of_neg digit]

theorem scanDigits_append {digits : List Char} (digit : ∀ c ∈ digits, c.isDigit = true)
    (stops : CText.Stops rest) (value : Nat) :
    scanDigits (BitVec.ofNat 32 value) (digits ++ rest) =
      (BitVec.ofNat 32 (Nat.ofDigitChars 10 digits value), rest) := by
  induction digits generalizing value with
  | nil =>
    cases rest with
    | nil => rfl
    | cons c cp =>
      have stop := stops c rfl
      rw [nil_append, scanDigits, if_neg (by simp [stop])]
      rfl
  | cons c digits ih =>
    have next : BitVec.ofNat 32 value * 10 + BitVec.ofNat 32 (c.toNat - '0'.toNat) =
        BitVec.ofNat 32 (10 * value + (c.toNat - '0'.toNat)) := by
      rw [BitVec.ofNat_add, BitVec.ofNat_mul, BitVec.mul_comm]
      rfl
    rw [cons_append, scanDigits, if_pos (digit c (by simp)), next,
      ih fun d member => digit d (by simp [member])]
    rfl

theorem scanDigits_toDigits (n : Nat) (stops : CText.Stops rest) :
    scanDigits 0 (Nat.toDigits 10 n ++ rest) = (BitVec.ofNat 32 n, rest) := by
  have read := scanDigits_append (fun c => CText.isDigit_of_mem (n := n) (c := c)) stops 0
  rwa [Nat.ofDigitChars_ten_toDigits] at read

theorem scan_owner (owner : Dbref) (stops : CText.Stops rest) :
    let cp := CText.decimal owner.toInt ++ rest
    let neg := cp.head? = some '-'
    let scanned := scanDigits 0 (if neg then cp.tail else cp)
    (if neg then 0 - scanned.1 else scanned.1) = owner ∧ scanned.2 = rest := by
  have value : BitVec.ofInt 32 owner.toInt = owner := BitVec.ofInt_toInt
  have read := scanDigits_toDigits owner.toInt.natAbs stops
  dsimp only
  unfold CText.decimal
  by_cases negative : owner.toInt < 0
  · have number : owner.toInt = -(owner.toInt.natAbs : Int) := by omega
    rw [number, BitVec.ofInt_neg, BitVec.ofInt_natCast] at value
    simp only [if_pos negative, cons_append, head?_cons, if_true, tail_cons, read]
    exact ⟨(BitVec.zero_sub _).trans value, trivial⟩
  · have number : owner.toInt = (owner.toInt.natAbs : Int) := by omega
    rw [number, BitVec.ofInt_natCast] at value
    have plain : (Nat.toDigits 10 owner.toInt.natAbs ++ rest).head? ≠ some '-' := by
      cases digits : Nat.toDigits 10 owner.toInt.natAbs with
      | nil => exact absurd digits Nat.toDigits_ne_nil
      | cons d more =>
        have digit := CText.isDigit_of_mem (n := owner.toInt.natAbs) (c := d) (by simp [digits])
        simpa using (CText.plain_of_isDigit digit).2.1
    simp only [if_neg negative, if_neg plain, read]
    exact ⟨value, trivial⟩

end Scan

theorem atrDecode_plain {text : List Char} (plain : ¬ Prefixed text) (beyond : List Char)
    (ownerOf : Dbref) : atrDecode beyond text ownerOf = (ownerOf, 0, text) := by
  unfold atrDecode
  cases text with
  | nil => rfl
  | cons c cp =>
    dsimp only
    by_cases info : c = atrInfoChar
    · rw [if_neg (not_not.mpr info)]
      split
      · rename_i colon
        rw [scanDigits_snd] at colon
        exact absurd ⟨cp, by rw [info], by rw [colon]; rfl⟩ plain
      · rfl
    · rw [if_pos info]

theorem atrDecode_prefixed {text : List Char} (taken : Prefixed text) (ownerOf : Dbref) :
    (atrDecode [] text ownerOf).2.2.length < text.length := by
  obtain ⟨rest, rfl, colon⟩ := taken
  unfold atrDecode
  dsimp only
  rw [if_neg (not_not.mpr rfl)]
  have first := scanDigits_snd 0 (if rest.head? = some '-' then rest.tail else rest)
  have shorter : ∀ value text, (scanDigits value text).2.length ≤ text.length := by
    intro value text
    rw [scanDigits_snd]
    exact (dropWhile_sublist _).length_le
  have short := shorter 0 (if rest.head? = some '-' then rest.tail else rest)
  have start : (if rest.head? = some '-' then rest.tail else rest).length ≤ rest.length := by
    split
    · rw [length_tail]
      exact Nat.sub_le _ _
    · exact Nat.le_refl _
  split
  · rename_i cp found
    rw [found, length_cons] at short
    have second := shorter 0 cp
    dsimp only
    rw [length_cons]
    split
    · exact Nat.zero_lt_succ _
    · rw [length_tail]
      omega
  · rename_i none'
    rw [← first] at colon
    cases found : (scanDigits 0 (if rest.head? = some '-' then rest.tail else rest)).2 with
    | nil =>
      rw [found] at colon
      cases colon
    | cons c cp =>
      rw [found, head?_cons, Option.some.injEq] at colon
      exact absurd (colon ▸ found) (none' cp)

theorem atrDecode_info (beyond cp : List Char) (owner ownerOf : Dbref) :
    atrDecode beyond (atrInfoChar :: CText.decimal owner.toInt ++ ':' :: cp) ownerOf =
      (let scanned := scanDigits 0 cp
       let info := if scanned.2.head? = some ':' then (owner, scanned.1) else (ownerOf, 0)
       (if info.1 = nothing then ownerOf else info.1, info.2,
         if scanned.2 = [] then beyond else scanned.2.tail)) := by
  have read := @scan_owner (':' :: cp) owner (CText.stops_cons (by decide) cp)
  unfold atrDecode
  rw [cons_append]
  dsimp only at read ⊢
  rw [if_neg (not_not.mpr rfl), read.1, read.2]
  rfl

theorem atrDecode_infoPrefix (beyond rest : List Char) {owner ownerOf : Dbref}
    {flags : BitVec 32} (positive : 0 ≤ flags.toInt) :
    atrDecode beyond (infoPrefix owner flags ++ rest) ownerOf =
      (if owner = nothing then ownerOf else owner, flags, rest) := by
  have value : BitVec.ofInt 32 flags.toInt = flags := BitVec.ofInt_toInt
  have number : flags.toInt = (flags.toInt.natAbs : Int) := by omega
  rw [number, BitVec.ofInt_natCast] at value
  have read := @scanDigits_toDigits (':' :: rest) flags.toInt.natAbs
    (CText.stops_cons (by decide) rest)
  have text : infoPrefix owner flags ++ rest = atrInfoChar :: CText.decimal owner.toInt ++
      ':' :: (Nat.toDigits 10 flags.toInt.natAbs ++ ':' :: rest) := by
    simp [infoPrefix, CText.decimal, if_neg (Int.not_lt.mpr positive)]
  rw [text, atrDecode_info]
  simp only [read, head?_cons, if_true, value, cons_ne_nil, if_false, tail_cons]

theorem atrDecode_negative (beyond rest : List Char) (owner ownerOf : Dbref)
    {flags : BitVec 32} (negative : flags.toInt < 0) :
    (atrDecode beyond (infoPrefix owner flags ++ rest) ownerOf).2.1 = 0 := by
  have text : infoPrefix owner flags ++ rest = atrInfoChar :: CText.decimal owner.toInt ++
      ':' :: '-' :: (Nat.toDigits 10 flags.toInt.natAbs ++ ':' :: rest) := by
    simp [infoPrefix, CText.decimal, if_pos negative]
  rw [text, atrDecode_info]
  have read : ∀ cp, scanDigits 0 ('-' :: cp) = (0, '-' :: cp) := fun _ => if_neg (by decide)
  rw [read]
  rfl

theorem decimal_length {n : Int} (low : -2147483648 ≤ n) (high : n < 2147483648) :
    (CText.decimal n).length ≤ 11 := by
  have digits : (Nat.toDigits 10 n.natAbs).length ≤ 10 :=
    (Nat.length_toDigits_le_iff (by decide) (by decide)).mpr (by omega)
  unfold CText.decimal
  split
  · rw [length_cons]
    omega
  · omega

theorem infoPrefix_length (owner : Dbref) (flags : BitVec 32) :
    (infoPrefix owner flags).length ≤ 25 := by
  have ownerDigits := @decimal_length owner.toInt (BitVec.le_toInt owner) BitVec.toInt_lt
  have flagsDigits := @decimal_length flags.toInt (BitVec.le_toInt flags) BitVec.toInt_lt
  simp only [infoPrefix, length_cons, length_append, length_nil]
  omega

theorem tprintf_infoPrefix (owner : Dbref) (flags : BitVec 32) (text : List Char) :
    tprintf (infoPrefix owner flags ++ text) =
      infoPrefix owner flags ++ text.take (lbufSize - 1 - (infoPrefix owner flags).length) := by
  have fits := infoPrefix_length owner flags
  have room : (infoPrefix owner flags).length ≤ lbufSize - 1 := by
    unfold lbufSize
    omega
  rw [tprintf, take_append, take_of_length_le room]

theorem atrGet_atrAdd (beyond : List Char) (db : Db) (ownerOf : Object → Dbref) (thing : Object)
    (atr : Attrnum) {text : List Char} {owner : Dbref} {flags : BitVec 32} (some' : text ≠ [])
    {encoded : List Char} (nonempty : encoded ≠ [])
    (is : atrEncode text (ownerOf thing) owner flags = encoded) :
    atrGet beyond (atrAdd db ownerOf thing atr text owner flags) ownerOf thing atr =
      atrDecode beyond encoded (ownerOf thing) := by
  subst is
  rw [atrGet, atrAdd, if_neg some', atrAddRaw_attr db thing atr nonempty]

/-- An attribute is got back as it was added exactly in these cases.  With the default owner
and no flags, when its text is not taken for a prefix; else, when the flags are not negative and
the text with its prefix is shorter than the buffer. -/
theorem roundTrips_iff (db : Db) (ownerOf : Object → Dbref) (thing : Object) (atr : Attrnum)
    (text : List Char) (owner : Dbref) (flags : BitVec 32) (some' : text ≠ []) :
    RoundTrips db ownerOf thing atr text owner flags ↔
      if (owner = ownerOf thing ∨ owner = nothing) ∧ flags = 0 then ¬ Prefixed text
      else 0 ≤ flags.toInt ∧
        (infoPrefix (if owner = nothing then ownerOf thing else owner) flags).length +
          text.length < lbufSize := by
  have got := fun beyond {encoded} =>
    @atrGet_atrAdd beyond db ownerOf thing atr text owner flags some' encoded
  unfold RoundTrips
  by_cases default : (owner = ownerOf thing ∨ owner = nothing) ∧ flags = 0
  · have encoded : atrEncode text (ownerOf thing) owner flags = text := if_pos default
    have same : (if owner = nothing then ownerOf thing else owner) = ownerOf thing := by
      rcases default.1 with is | is
      · rw [is, ite_self]
      · rw [if_pos is]
    rw [if_pos default]
    simp only [got _ some' encoded, same]
    refine ⟨fun trip taken => ?_, fun plain beyond => ?_⟩
    swap
    · rw [atrDecode_plain plain, default.2]
    have shorter := atrDecode_prefixed taken (ownerOf thing)
    rw [trip []] at shorter
    exact Nat.lt_irrefl _ shorter
  · set real := if owner = nothing then ownerOf thing else owner with is
    have again : (if real = nothing then ownerOf thing else real) = real := by
      rw [is]
      split_ifs <;> simp_all
    have encoded : atrEncode text (ownerOf thing) owner flags = infoPrefix real flags ++
        text.take (lbufSize - 1 - (infoPrefix real flags).length) := by
      rw [atrEncode, if_neg default, ← tprintf_infoPrefix]
    have nonempty : infoPrefix real flags ++
        text.take (lbufSize - 1 - (infoPrefix real flags).length) ≠ [] := by
      simp [infoPrefix]
    simp only [if_neg default, got _ nonempty encoded]
    by_cases positive : 0 ≤ flags.toInt
    · simp only [atrDecode_infoPrefix _ _ positive, again, Prod.mk.injEq, true_and, forall_const]
      have fits := infoPrefix_length real flags
      rw [take_eq_self_iff]
      unfold lbufSize
      omega
    · refine ⟨fun trip => ?_, fun both => absurd both.1 positive⟩
      have zero := atrDecode_negative [] (text.take (lbufSize - 1 - (infoPrefix real flags).length))
        real (ownerOf thing) (Int.not_le.mp positive)
      rw [trip []] at zero
      have none' : flags = 0 := zero
      exact absurd (none' ▸ by decide) positive

theorem roundTrips_iff_short :
    ['o', 'k'] ≠ [] ∧
    (RoundTrips Db.blank (fun _ => 1) 5 ⟨256, by decide, by decide⟩ ['o', 'k'] 3 4 ↔
      if ((3 : Dbref) = 1 ∨ (3 : Dbref) = nothing) ∧ (4 : BitVec 32) = 0 then ¬ Prefixed ['o', 'k']
      else 0 ≤ (4 : BitVec 32).toInt ∧
        (infoPrefix (if (3 : Dbref) = nothing then 1 else 3) 4).length + ['o', 'k'].length < lbufSize) :=
  ⟨by decide, roundTrips_iff Db.blank (fun _ => 1) 5 ⟨256, by decide, by decide⟩ ['o', 'k'] 3 4
    (by decide)⟩

/-- A text that just fits the buffer loses its end to the prefix of another owner. -/
theorem long_text_is_cut :
    let text := List.replicate 7999 'a'
    text ≠ [] ∧ text.length < lbufSize ∧
      ¬ RoundTrips Db.blank (fun _ => 1) 5 ⟨256, by decide, by decide⟩ text 3 0 := by
  intro text
  have long : text.length = 7999 := length_replicate
  clear_value text
  have some' : text ≠ [] := fun empty => by simp [empty] at long
  refine ⟨some', by rw [long]; decide, fun trip => ?_⟩
  have encoded : atrEncode text 1 3 0 = infoPrefix 3 0 ++ text.take 7994 := by
    have five : (infoPrefix 3 0).length = 5 := by decide
    have cut := tprintf_infoPrefix 3 0 text
    rw [five] at cut
    rw [atrEncode, if_neg (by decide)]
    exact cut
  have got := @atrGet_atrAdd [] Db.blank (fun _ => 1) 5 ⟨256, by decide, by decide⟩ text 3 0 some' _
    (by simp [infoPrefix]) encoded
  rw [trip [], atrDecode_infoPrefix _ _ (by decide)] at got
  have same : text = text.take 7994 := congrArg (fun found => found.2.2) got
  have shorter := congrArg List.length same
  rw [length_take, long] at shorter
  omega

end BattletechMux.Attr
