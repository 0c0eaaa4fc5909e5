/-
Module: BattletechMux.Glue.BitText
Purpose: Bit fields as text, from glue.scode.c: what `bv2text` writes, `text2bv` reads back.
Trusted boundary: what the machine makes of a 1 that is shifted by the width of an int or more is a
  parameter; `text2bv` that reads past the end of its text has no outcome
-/
import Mathlib
import BattletechMux.Foundation.CText

namespace BattletechMux.Glue

open CText (atoi)

abbrev Text := List Char

abbrev Word := BitVec 32

def isLetter (c : Char) : Bool :=
  decide ('a' ≤ c ∧ c ≤ 'z') || decide ('A' ≤ c ∧ c ≤ 'Z')

/-- How far `bv_val` shifts for a letter. -/
def letterShift (c : Char) : Nat :=
  if 'a' ≤ c ∧ c ≤ 'z' then c.toNat - 'a'.toNat else 26 + (c.toNat - 'A'.toNat)

section Decode

variable (wide : Nat → Word)

/-- `bv_val` with mode 0. -/
def bvVal (c : Char) : Word :=
  if letterShift c < 32 then 1#32 <<< letterShift c else wide (letterShift c)

/-- `Readnum`: the number of a text, unless it is no number. -/
def readnum (text : Text) : Option Int :=
  if atoi text = 0 ∧ text ≠ ['0'] then none else some (atoi text)

/-- What the loop of `text2bv` does with a letter. -/
def applyLetter (modeNot : Bool) (c : Char) (j : Word) : Word :=
  if isLetter c then
    let k := bvVal wide c
    if k ≠ 0 then if modeNot then j &&& ~~~k else j ||| k else j
  else j

/-- The loop of `text2bv`. -/
def text2bvLoop : Text → Word → Option Word
  | [], j => some j
  | '!' :: [], _ => none
  | '!' :: c :: rest, j => text2bvLoop rest (applyLetter wide true c j)
  | c :: rest, j => text2bvLoop rest (applyLetter wide false c j)

def text2bv (text : Text) : Option Word :=
  match readnum text with
  | some j => some (BitVec.ofInt 32 j)
  | none => text2bvLoop wide text 0

end Decode

/-- The rounds of the loop of `bv_val` with mode 1. -/
def bvShifts : Nat → Word → Nat
  | 0, _ => 0
  | rounds + 1, w => if BitVec.slt 0 w then bvShifts rounds (w.sshiftRight 1) + 1 else 0

/-- `bv_val` with mode 1. -/
def bvLetter (w : Word) : Char :=
  let p : Int := (bvShifts 32 w : Int) - 1
  if p > 25 then Char.ofNat ('A'.toNat + (p - 26).toNat) else Char.ofNat ('a'.toNat + p).toNat

/-- The loop of `bv2text`, of which `rounds` rounds are left. -/
def bv2textLoop : Nat → Word → Word → Text
  | 0, _, _ => []
  | rounds + 1, i, p =>
    if BitVec.slt 0 i then
      (if i &&& 1 ≠ 0 then [bvLetter p] else []) ++
        bv2textLoop rounds (i.sshiftRight 1) (p <<< 1)
    else []

def bv2text (i : Word) : Text :=
  let buf := bv2textLoop 32 i 1
  if buf = [] then ['-'] else buf

/-- The types TYPE_BV and TYPE_CBV, with the value of a field. -/
inductive Field
  | bv (value : Word)
  | cbv (value : BitVec 8)
deriving DecidableEq

/-- What `RetrieveValue` makes of such a field; a char has a sign. -/
def Field.retrieveValue : Field → Text
  | .bv value => bv2text value
  | .cbv value => bv2text (value.signExtend 32)

def Field.set (wide : Nat → Word) (text : Text) : Field → Option Field
  | .bv _ => (text2bv wide text).map .bv
  | .cbv _ => (text2bv wide text).map fun value => .cbv (value.setWidth 8)

open List

variable {wide : Nat → Word}

/-! ## Letters of bits -/

/-- The letter that `bv2text` writes for a bit. -/
def letterOf (k : Nat) : Char := bvLetter (1#32 <<< k)

theorem letterOf_spec : ∀ k < 31, isLetter (letterOf k) = true ∧ letterShift (letterOf k) = k ∧
    letterOf k ≠ '!' ∧ CText.isSpace (letterOf k) = false ∧ letterOf k ≠ '-' ∧ letterOf k ≠ '+' ∧
      (letterOf k).isDigit = false := by
  decide

theorem bvVal_letterOf {k : Nat} (low : k < 31) : bvVal wide (letterOf k) = 1#32 <<< k := by
  rw [bvVal, (letterOf_spec k low).2.1, if_pos (by omega)]

theorem applyLetter_letterOf {k : Nat} (low : k < 31) (j : Word) :
    applyLetter wide false (letterOf k) j = j ||| 1#32 <<< k := by
  have bit : ∀ k < 31, (1#32 <<< k : Word) ≠ 0 := by decide
  rw [applyLetter, if_pos (letterOf_spec k low).1, bvVal_letterOf low]
  exact if_pos (bit k low)

/-! ## Writing -/

theorem slt_zero_iff {w : Word} (plain : w.msb = false) : BitVec.slt 0 w = true ↔ w ≠ 0 := by
  rw [BitVec.slt, decide_eq_true_eq, BitVec.toInt_eq_toNat_of_msb plain]
  have zero : (0 : Word).toInt = 0 := rfl
  rw [zero]
  constructor
  · rintro pos rfl
    exact absurd pos (by decide)
  · intro o
    have pos : w.toNat ≠ 0 := fun eq => o (BitVec.eq_of_toNat_eq eq)
    omega

variable {v : Word}

theorem msb_ushiftRight (plain : v.msb = false) (k : Nat) : (v >>> k).msb = false := by
  rw [BitVec.msb_ushiftRight, plain, Bool.and_false]

theorem bv2textLoop_eq (plain : v.msb = false) {rounds k : Nat} (all : k + rounds = 32) :
    bv2textLoop rounds (v >>> k) (1#32 <<< k) =
      ((List.range' k rounds).filter v.getLsbD).map letterOf := by
  induction rounds generalizing k with
  | zero => rfl
  | succ rounds ih =>
    have shown := msb_ushiftRight plain k
    rw [bv2textLoop]
    by_cases rest : v >>> k = 0
    · have none' : (List.range' k (rounds + 1)).filter v.getLsbD = [] := by
        rw [filter_eq_nil_iff]
        intro i mem
        obtain ⟨j, -, rfl⟩ := mem_range'.mp mem
        have bit := congrArg (fun w : Word => w.getLsbD (1 * j)) rest
        simp only [BitVec.getLsbD_ushiftRight] at bit
        rw [bit]
        simp
      rw [if_neg (by rw [slt_zero_iff shown]; exact not_not.mpr rest), none', map_nil]
    · have bit : (v >>> k) &&& 1 ≠ 0 ↔ v.getLsbD k = true := by
        have value : (v >>> k) &&& 1 = if v.getLsbD k then 1 else 0 := by
          rw [show (1 : Word) = BitVec.twoPow 32 0 from rfl, BitVec.and_twoPow,
            BitVec.getLsbD_ushiftRight, Nat.add_zero]
          rfl
        rw [value]
        cases v.getLsbD k <;> decide
      have next : (v >>> k).sshiftRight 1 = v >>> (k + 1) := by
        rw [BitVec.sshiftRight_eq_of_msb_false shown, BitVec.shiftRight_add]
      have mask : (1#32 <<< k) <<< 1 = 1#32 <<< (k + 1) := by rw [BitVec.shiftLeft_add]
      rw [if_pos ((slt_zero_iff shown).mpr rest), next, mask,
        ih (by omega), range'_succ]
      by_cases set : v.getLsbD k = true
      · rw [if_pos (bit.mpr set), filter_cons_of_pos set, map_cons]
        rfl
      · rw [if_neg fun shows => set (bit.mp shows), filter_cons_of_neg set, nil_append]

def bitsOf (v : Word) : List Nat := (List.range' 0 32).filter v.getLsbD

theorem bitsOf_lt (plain : v.msb = false) : ∀ k ∈ bitsOf v, k < 31 := by
  intro k mem
  obtain ⟨inRange, set⟩ := mem_filter.mp mem
  have below : k < 32 := by
    obtain ⟨j, low, rfl⟩ := mem_range'.mp inRange
    omega
  have notSign : k ≠ 31 := by
    rintro rfl
    rw [BitVec.msb_eq_getLsbD_last] at plain
    exact absurd (plain.symm.trans set) (by decide)
  omega

theorem bv2text_eq (plain : v.msb = false) :
    bv2text v = if bitsOf v = [] then ['-'] else (bitsOf v).map letterOf := by
  have loop : bv2textLoop 32 v 1 = (bitsOf v).map letterOf := by
    have all := bv2textLoop_eq plain (show 0 + 32 = 32 from rfl)
    rwa [BitVec.ushiftRight_zero, BitVec.shiftLeft_zero] at all
  rw [bv2text, loop]
  simp only [map_eq_nil_iff]

/-! ## Reading back -/

theorem text2bvLoop_letters {ks : List Nat} (low : ∀ k ∈ ks, k < 31) (j : Word) :
    text2bvLoop wide (ks.map letterOf) j = some (ks.foldl (fun j k => j ||| 1#32 <<< k) j) := by
  induction ks generalizing j with
  | nil => rfl
  | cons k rest ih =>
    have here := low k mem_cons_self
    rw [map_cons, text2bvLoop, applyLetter_letterOf here,
      ih fun k mem => low k (mem_cons_of_mem _ mem), foldl_cons]
    · exact fun only => absurd only (letterOf_spec k here).2.2.1
    · exact fun _ _ only => absurd only (letterOf_spec k here).2.2.1

theorem getLsbD_foldl (ks : List Nat) (j : Word) {i : Nat} (hin : i < 32) :
    (ks.foldl (fun j k => j ||| 1#32 <<< k) j).getLsbD i = (j.getLsbD i || decide (i ∈ ks)) := by
  induction ks generalizing j with
  | nil => simp
  | cons k rest ih =>
    have one : (1#32 <<< k : Word).getLsbD i = decide (i = k) := by
      rw [← BitVec.twoPow_eq, BitVec.getLsbD_twoPow]
      by_cases eq : i = k
      · subst eq
        simp [hin]
      · simp [eq, Ne.symm eq]
    rw [foldl_cons, ih, BitVec.getLsbD_or, one, Bool.or_assoc]
    simp

theorem foldl_bitsOf (v : Word) : (bitsOf v).foldl (fun j k => j ||| 1#32 <<< k) 0 = v := by
  apply BitVec.eq_of_getLsbD_eq
  intro i hin
  rw [getLsbD_foldl _ _ hin, show (0 : Word).getLsbD i = false from BitVec.getLsbD_zero,
    Bool.false_or, bitsOf]
  have inRange : i ∈ List.range' 0 32 := mem_range'.mpr ⟨i, hin, by omega⟩
  simp [inRange]

theorem readnum_of_not_digit {c : Char} {rest : Text} (space : CText.isSpace c = false)
    (minus : c ≠ '-') (plus : c ≠ '+') (digit : c.isDigit = false) :
    readnum (c :: rest) = none := by
  have scanned : CText.scanInt (c :: rest) = none := by
    unfold CText.scanInt
    rw [dropWhile_cons_of_neg (by simp [space])]
    split
    · rename_i eq
      exact absurd (cons.inj eq).1 minus
    · rename_i eq
      exact absurd (cons.inj eq).1 plus
    · rw [CText.scanNat, takeWhile_cons_of_neg (by simp [digit]), if_pos rfl]
      rfl
  have zero : atoi (c :: rest) = 0 := by rw [atoi, scanned]
  have o : c :: rest ≠ ['0'] := by
    intro eq
    rw [(cons.inj eq).1] at digit
    exact absurd digit (by decide)
  rw [readnum, if_pos ⟨zero, o⟩]

theorem text2bv_bv2text (plain : v.msb = false) : text2bv wide (bv2text v) = some v := by
  have back := @text2bvLoop_letters wide _ (bitsOf_lt plain) 0
  rw [foldl_bitsOf] at back
  rw [bv2text_eq plain]
  cases bits : bitsOf v with
  | nil =>
    have zero : v = 0 := by rw [← foldl_bitsOf v, bits, foldl_nil]
    rw [if_pos rfl, zero]
    have dash : readnum ['-'] = none := by decide
    rw [text2bv, dash]
    rfl
  | cons k rest =>
    have low := bitsOf_lt plain k (by rw [bits]; exact mem_cons_self)
    obtain ⟨-, -, -, space, minus, plus, digit⟩ := letterOf_spec k low
    rw [bits] at back
    rw [if_neg (cons_ne_nil k rest), text2bv, map_cons,
      readnum_of_not_digit space minus plus digit]
    exact back

/-! ## Any text -/

/-- Behind each `!` there is a character, and no other `!`. -/
def Paired (text : Text) : Prop :=
  ∀ i : Nat, text[i]? = some '!' → ∃ c, text[i + 1]? = some c ∧ c ≠ '!'

/-- The letters of a text in order, and whether a `!` stands before each. -/
def markedLetters (before : Char) : Text → List (Bool × Char)
  | [] => []
  | c :: rest =>
    (if isLetter c then [(decide (before = '!'), c)] else []) ++ markedLetters c rest

/-- A letter with a `!` before it clears its bit, and another one sets it. -/
def applyMarked (wide : Nat → Word) (j : Word) (letter : Bool × Char) : Word :=
  if letter.1 then j &&& ~~~bvVal wide letter.2 else j ||| bvVal wide letter.2

def applied (wide : Nat → Word) (text : Text) : Word :=
  (markedLetters ' ' text).foldl (applyMarked wide) 0

theorem Paired.tail {c : Char} {rest : Text} (paired : Paired (c :: rest)) : Paired rest :=
  fun i is => paired (i + 1) (by simpa using is)

theorem applyLetter_eq (modeNot : Bool) (c : Char) (j : Word) :
    applyLetter wide modeNot c j =
      (if isLetter c then [(modeNot, c)] else []).foldl (applyMarked wide) j := by
  unfold applyLetter
  by_cases letter : isLetter c = true
  · rw [if_pos letter, if_pos letter, foldl_cons, foldl_nil, applyMarked]
    by_cases nothing : bvVal wide c = 0
    · have all : j &&& ~~~(0 : Word) = j := BitVec.and_allOnes
      rw [nothing, all]
      cases modeNot <;> simp
    · exact if_pos nothing
  · rw [if_neg letter, if_neg letter, foldl_nil]

theorem text2bvLoop_paired {text : Text} (paired : Paired text) {pre : Char}
    (plain : pre ≠ '!') (j : Word) :
    text2bvLoop wide text j = some ((markedLetters pre text).foldl (applyMarked wide) j) := by
  fun_induction text2bvLoop wide text j generalizing pre with
  | case1 j => rfl
  | case2 j =>
    obtain ⟨c, next, -⟩ := paired 0 rfl
    exact absurd next (by simp)
  | case3 c rest j ih =>
    obtain ⟨d, next, o⟩ := paired 0 rfl
    obtain rfl : c = d := by simpa using next
    rw [ih paired.tail.tail o, applyLetter_eq]
    simp [markedLetters, isLetter]
  | case4 c rest j single double ih =>
    have o : c ≠ '!' := by
      rintro rfl
      obtain ⟨d, next, -⟩ := paired 0 rfl
      cases rest with
      | nil => exact absurd next (by simp)
      | cons e rest => exact double e rest rfl rfl
    rw [ih paired.tail o, applyLetter_eq, markedLetters, foldl_append,
      decide_eq_false plain]

/-! ## Fields -/

def Field.Plain : Field → Prop
  | .bv value => value.msb = false
  | .cbv value => value.msb = false

instance : ∀ field : Field, Decidable field.Plain
  | .bv value => inferInstanceAs (Decidable (value.msb = false))
  | .cbv value => inferInstanceAs (Decidable (value.msb = false))

/-- A field without its highest bit is left as it is by the text that shows it; a number is the
value; and the letters of another text, with something to clear behind each `!`, are applied in
order. -/
theorem field_text (wide : Nat → Word) :
    (∀ field : Field, field.Plain → field.set wide field.retrieveValue = some field) ∧
    (∀ text n, readnum text = some n → text2bv wide text = some (BitVec.ofInt 32 n)) ∧
    ∀ text, readnum text = none → Paired text → text2bv wide text = some (applied wide text) := by
  refine ⟨fun field plain => ?_, fun text n number => ?_, fun text noNumber paired => ?_⟩
  · cases field with
    | bv value =>
      rw [Field.set, Field.retrieveValue, text2bv_bv2text plain]
      rfl
    | cbv value =>
      have clear : value.msb = false := plain
      have wider : (value.signExtend 32).msb = false := by
        rw [BitVec.msb_signExtend]
        simpa using clear
      rw [Field.set, Field.retrieveValue, text2bv_bv2text wider, Option.map_some,
        BitVec.signExtend_eq_setWidth_of_msb_false clear,
        BitVec.setWidth_setWidth_of_le _ (by decide), BitVec.setWidth_eq]
  · rw [text2bv, number]
  · rw [text2bv, noNumber]
    exact text2bvLoop_paired paired (by decide) 0

/-- Two bits that are shown and set again, a number, and a text that sets and clears. -/
theorem field_text_letters :
    ((Field.bv 5).retrieveValue = ['a', 'c'] ∧
      (Field.bv 5).set (fun _ => 0) (Field.bv 5).retrieveValue = some (.bv 5)) ∧
    text2bv (fun _ => 0) ['1', '2'] = some (BitVec.ofInt 32 12) ∧
    text2bv (fun _ => 0) ['a', '!', 'a', 'b'] = some (applied (fun _ => 0) ['a', '!', 'a', 'b']) := by
  refine ⟨⟨by decide, (field_text fun _ => 0).1 (.bv 5) (by decide)⟩,
    (field_text fun _ => 0).2.1 _ 12 (by decide),
    (field_text fun _ => 0).2.2 _ (by decide) ?_⟩
  intro i is
  match i, is with
  | 0, is => exact absurd is (by decide)
  | 1, _ => exact ⟨'a', rfl, by decide⟩
  | 2, is => exact absurd is (by decide)
  | 3, is => exact absurd is (by decide)
  | i + 4, is => exact absurd is (by simp)

/-- A number is taken as it is, though it has no letters. -/
theorem text2bv_number :
    text2bv (fun _ => 0) ['5'] = some 5 ∧ applied (fun _ => 0) ['5'] = 0 := by
  decide

end BattletechMux.Glue
