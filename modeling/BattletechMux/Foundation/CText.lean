/-
Module: BattletechMux.Foundation.CText
Purpose: Numbers in text, as the C library writes and reads them: the decimal form of printf, the
  scanning of scanf and atoi, and that a number that has been written is read back, up to the first
  character that is no digit.
Trusted boundary: a long and a pointer have 64 bits, here and in all modules that measure one, where
  Makefile.in builds with -m32
-/
import Mathlib.Algebra.Order.Group.Unbundled.Int
import Mathlib.Algebra.Ring.Int.Defs
import Mathlib.Algebra.Ring.Nat
import Mathlib.Data.Char
import Mathlib.Data.List.Basic

namespace CText

open List hiding map_map
open Option hiding map map_map

def isSpace (c : Char) : Bool := c = ' ' ∨ ('\t' ≤ c ∧ c ≤ '\r')

/-- `%d` of printf. -/
def decimal (n : Int) : List Char :=
  if n < 0 then '-' :: Nat.toDigits 10 n.natAbs else Nat.toDigits 10 n.natAbs

/-- The digits at the start of a text, and what comes after them. -/
def scanNat (s : List Char) : Option (Nat × List Char) :=
  if s.takeWhile Char.isDigit = [] then none
  else some (Nat.ofDigitChars 10 (s.takeWhile Char.isDigit) 0, s.dropWhile Char.isDigit)

/-- `%d` of scanf. -/
def scanInt (s : List Char) : Option (Int × List Char) :=
  match s.dropWhile isSpace with
  | '-' :: digits => (scanNat digits).map fun (n, rest) => (-n, rest)
  | '+' :: digits => (scanNat digits).map fun (n, rest) => (n, rest)
  | digits => (scanNat digits).map fun (n, rest) => (n, rest)

/-- `atoi`; a value that no `long` holds becomes the nearest one. -/
def atoi (s : List Char) : Int :=
  match scanInt s with
  | some (n, _) => (max (-2 ^ 63) (min (2 ^ 63 - 1) n)).bmod (2 ^ 32)
  | none => 0

/-- An `int` that `%d` of scanf stores: the nearest `long`, cut to its low bits. -/
def stored (n : Int) : Int := (max (-2 ^ 63) (min (2 ^ 63 - 1) n)).bmod (2 ^ 32)

/-- What `%d` of scanf leaves of a text without a number. -/
def unscanned (s : List Char) : List Char :=
  match s.dropWhile isSpace with
  | '-' :: rest => rest
  | '+' :: rest => rest
  | rest => rest

/-- `fgets` of at most `n` characters, up to and with the end of the line. -/
def fgets : Nat → List Char → List Char × List Char
  | 0, s => ([], s)
  | _ + 1, [] => ([], [])
  | n + 1, c :: s =>
    if c = '\n' then ([c], s)
    else (c :: (fgets n s).1, (fgets n s).2)

def cString (s : List Char) : List Char := s.takeWhile (· ≠ '\x00')

/-- Where `needle` is first found in a text. -/
def strstr (needle : List Char) : List Char → Option Nat
  | [] => if needle = [] then some 0 else none
  | c :: s => if needle <+: c :: s then some 0 else (strstr needle s).map (· + 1)

section Decimal

variable {n : Int} {rest : List Char}

def Stops (rest : List Char) : Prop := ∀ c ∈ rest.head?, c.isDigit = false

variable {c : Char}

theorem stops_cons (plain : c.isDigit = false) (rest : List Char) : Stops (c :: rest) := by
  intro d first
  obtain rfl : c = d := by simpa using first
  exact plain

theorem isDigit_of_mem {n : Nat} (member : c ∈ Nat.toDigits 10 n) : c.isDigit = true :=
  Nat.isDigit_of_mem_toDigits (by decide) (by decide) member

theorem scanNat_digits (n : Nat) (stops : Stops rest) :
    scanNat (Nat.toDigits 10 n ++ rest) = some (n, rest) := by
  have after : rest.takeWhile Char.isDigit = [] ∧ rest.dropWhile Char.isDigit = rest := by
    cases rest with
    | nil => exact ⟨rfl, rfl⟩
    | cons c rest =>
      have stop := stops c rfl
      rw [takeWhile_cons_of_neg, dropWhile_cons_of_neg] <;> simp [stop]
  have digits : ∀ c ∈ Nat.toDigits 10 n, c.isDigit = true := fun _ => isDigit_of_mem
  rw [scanNat, takeWhile_append_of_pos digits, dropWhile_append_of_pos digits, after.1,
    after.2, append_nil, if_neg Nat.toDigits_ne_nil, Nat.ofDigitChars_ten_toDigits]

theorem plain_of_isDigit (digit : c.isDigit = true) : isSpace c = false ∧ c ≠ '-' ∧ c ≠ '+' := by
  refine ⟨?_, ?_, ?_⟩
  · simp only [Char.isDigit, Bool.and_eq_true, decide_eq_true_eq] at digit
    simp only [isSpace, decide_eq_false_iff_not, not_or, not_and, not_le]
    refine ⟨?_, fun _ => ?_⟩
    · rintro rfl
      exact absurd digit.1 (by decide)
    · exact lt_of_lt_of_le (show '\r' < '0' by decide) digit.1
  · rintro rfl
    exact absurd digit (by decide)
  · rintro rfl
    exact absurd digit (by decide)

theorem scanInt_space (space : isSpace c = true) (s : List Char) :
    scanInt (c :: s) = scanInt s := by
  rw [scanInt, scanInt, dropWhile_cons_of_pos space]

theorem scanInt_decimal (n : Int) (stops : Stops rest) :
    scanInt (decimal n ++ rest) = some (n, rest) := by
  unfold decimal
  split_ifs with negative
  · rw [cons_append, scanInt, dropWhile_cons_of_neg (by decide)]
    simp only [scanNat_digits n.natAbs stops, map_some]
    rw [Int.ofNat_natAbs_of_nonpos negative.le, neg_neg]
  · cases digits : Nat.toDigits 10 n.natAbs with
    | nil => exact absurd digits Nat.toDigits_ne_nil
    | cons d more =>
      have plain := plain_of_isDigit (isDigit_of_mem (n := n.natAbs) (c := d) (by simp [digits]))
      have scanned := scanNat_digits n.natAbs stops
      rw [digits] at scanned
      rw [cons_append] at scanned ⊢
      rw [scanInt, dropWhile_cons_of_neg (by simp [plain.1])]
      split
      · rename_i same
        exact absurd (cons.inj same).1 plain.2.1
      · rename_i same
        exact absurd (cons.inj same).1 plain.2.2
      · rw [scanned, map_some]
        simp only [Int.natAbs_of_nonneg (not_lt.mp negative)]

theorem decimal_inj {m n : Int} {rest rest' : List Char} (stops : Stops rest)
    (stops' : Stops rest') (same : decimal m ++ rest = decimal n ++ rest') :
    m = n ∧ rest = rest' := by
  have read := scanInt_decimal m stops
  rw [same, scanInt_decimal n stops'] at read
  exact Prod.ext_iff.mp (some.inj read).symm

theorem decimal_chars (member : c ∈ decimal n) : c = '-' ∨ c.isDigit = true := by
  unfold decimal at member
  split_ifs at member
  · exact (mem_cons.mp member).imp_right isDigit_of_mem
  · exact .inr (isDigit_of_mem member)

end Decimal

theorem stored_of_bounds {n : Int} (low : -2 ^ 31 ≤ n) (high : n < 2 ^ 31) : stored n = n := by
  have kept : max (-2 ^ 63) (min (2 ^ 63 - 1) n) = n := by omega
  rw [stored, kept, Int.bmod_eq_of_le] <;> omega

theorem fgets_line {n : Nat} {line rest : List Char} (fits : line.length < n)
    (one : '\n' ∉ line) : fgets n (line ++ '\n' :: rest) = (line ++ ['\n'], rest) := by
  induction line generalizing n with
  | nil =>
    cases n with
    | zero => exact absurd fits (Nat.not_lt_zero _)
    | succ n => simp [fgets]
  | cons c line ih =>
    cases n with
    | zero => exact absurd fits (Nat.not_lt_zero _)
    | succ n =>
      rw [mem_cons, not_or] at one
      rw [cons_append, fgets, if_neg (Ne.symm one.1),
        ih (Nat.lt_of_succ_lt_succ fits) one.2]
      rfl

section Strstr

variable {c : Char} {needle chunk s : List Char}

theorem strstr_skip (absent : c ∉ chunk) :
    strstr (c :: needle) (chunk ++ s) = (strstr (c :: needle) s).map (chunk.length + ·) := by
  induction chunk with
  | nil => simp
  | cons d chunk ih =>
    rw [mem_cons, not_or] at absent
    rw [cons_append, strstr, if_neg, ih absent.2, Option.map_map]
    · congr 1
      funext offset
      simp only [Function.comp_apply, length_cons]
      omega
    · exact fun found => absent.1 (cons_prefix_cons.mp found).1

theorem strstr_of_prefix (found : needle <+: s) : strstr needle s = some 0 := by
  cases s with
  | nil => rw [strstr, if_pos (prefix_nil.mp found)]
  | cons c s => rw [strstr, if_pos found]

theorem strstr_cons_of_not (absent : ¬ needle <+: c :: s) :
    strstr needle (c :: s) = (strstr needle s).map (· + 1) :=
  if_neg absent

end Strstr

end CText
