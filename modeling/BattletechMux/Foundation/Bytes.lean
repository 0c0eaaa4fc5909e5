/-
Module: BattletechMux.Foundation.Bytes
Purpose: Binary files. A codec writes a value as a fixed number of bytes and reads it back; words
  are little-endian, records are pairs of codecs, and arrays are codecs in a row.
-/
import Mathlib.Algebra.Ring.Nat
import Mathlib.Logic.Equiv.Defs
import Mathlib.Data.List.Basic

namespace ByteCodec

abbrev Byte := BitVec 8

structure Codec (α : Type*) where
  width : Nat
  encode : α → List Byte
  decode : List Byte → α
  length_encode : ∀ v, (encode v).length = width
  decode_append : ∀ v rest, decode (encode v ++ rest) = v

attribute [simp] Codec.length_encode Codec.decode_append

@[simp] theorem Codec.decode_encode {α : Type*} (codec : Codec α) (v : α) :
    codec.decode (codec.encode v) = v := by
  have read := codec.decode_append v []
  rwa [List.append_nil] at read

/-- The `n` low bytes of a number, the lowest first. -/
def leBytes : Nat → Nat → List Byte
  | 0, _ => []
  | n + 1, v => BitVec.ofNat 8 v :: leBytes n (v / 256)

def leValue : List Byte → Nat
  | [] => 0
  | b :: rest => b.toNat + 256 * leValue rest

theorem leBytes_length (n v : Nat) : (leBytes n v).length = n := by
  induction n generalizing v with
  | zero => rfl
  | succ n ih => rw [leBytes, List.length_cons, ih]

theorem leValue_leBytes (n v : Nat) : leValue (leBytes n v) = v % 2 ^ (8 * n) := by
  induction n generalizing v with
  | zero => rw [Nat.mul_zero, Nat.pow_zero, Nat.mod_one, leBytes, leValue]
  | succ n ih =>
    have power : 2 ^ (8 * (n + 1)) = 256 * 2 ^ (8 * n) := by
      rw [Nat.mul_succ, Nat.pow_add, Nat.mul_comm]
    rw [leBytes, leValue, ih, BitVec.toNat_ofNat, power, Nat.mod_mul]

def word (n : Nat) : Codec (BitVec (8 * n)) where
  width := n
  encode v := leBytes n v.toNat
  decode bytes := BitVec.ofNat (8 * n) (leValue (bytes.take n))
  length_encode v := leBytes_length n v.toNat
  decode_append v rest := by
    apply BitVec.eq_of_toNat_eq
    rw [List.take_left' (leBytes_length n v.toNat), BitVec.toNat_ofNat, leValue_leBytes,
      Nat.mod_mod, Nat.mod_eq_of_lt v.isLt]

namespace Codec

variable {α β : Type*}

def pair (first : Codec α) (second : Codec β) : Codec (α × β) where
  width := first.width + second.width
  encode v := first.encode v.1 ++ second.encode v.2
  decode bytes := (first.decode bytes, second.decode (bytes.drop first.width))
  length_encode v := by simp
  decode_append v rest := by
    rw [List.append_assoc, first.decode_append, List.drop_left' (first.length_encode v.1),
      second.decode_append]

def map (codec : Codec α) (e : β ≃ α) : Codec β where
  width := codec.width
  encode v := codec.encode (e v)
  decode bytes := e.symm (codec.decode bytes)
  length_encode v := codec.length_encode (e v)
  decode_append v rest := by simp

def encodeArray (codec : Codec α) (size : Nat) (elem : Nat → α) : List Byte :=
  (List.range size).flatMap fun i => codec.encode (elem i)

def decodeArray (codec : Codec α) (bytes : List Byte) (i : Nat) : α :=
  codec.decode (bytes.drop (codec.width * i))

variable (codec : Codec α)

theorem encodeArray_succ (size : Nat) (elem : Nat → α) :
    codec.encodeArray (size + 1) elem =
      codec.encodeArray size elem ++ codec.encode (elem size) := by
  simp [encodeArray, List.range_succ]

theorem length_encodeArray (size : Nat) (elem : Nat → α) :
    (codec.encodeArray size elem).length = codec.width * size := by
  induction size with
  | zero => rfl
  | succ size ih =>
    rw [encodeArray_succ, List.length_append, ih, codec.length_encode,
      Nat.mul_succ]

theorem decodeArray_append {size i : Nat} (elem : Nat → α) (inside : i < size)
    (rest : List Byte) :
    codec.decodeArray (codec.encodeArray size elem ++ rest) i = elem i := by
  induction size generalizing rest with
  | zero => exact absurd inside (Nat.not_lt_zero i)
  | succ size ih =>
    rw [encodeArray_succ, List.append_assoc]
    rcases Nat.lt_succ_iff_lt_or_eq.mp inside with before | rfl
    · exact ih before _
    · rw [decodeArray, List.drop_left' (codec.length_encodeArray i elem),
        codec.decode_append]

theorem decodeArray_encodeArray {size i : Nat} (elem : Nat → α) (inside : i < size) :
    codec.decodeArray (codec.encodeArray size elem) i = elem i := by
  have read := codec.decodeArray_append elem inside []
  rwa [List.append_nil] at read

end Codec

/-- A file being read: the bytes ahead, and whether a read ran into the end. -/
structure InFile where
  bytes : List Byte
  eof : Bool
deriving DecidableEq

/-- `fread` of some bytes: those that are left of them. -/
def InFile.fread (f : InFile) (count : Nat) : List Byte × InFile :=
  (f.bytes.take count,
    { bytes := f.bytes.drop count, eof := f.eof || decide (f.bytes.length < count) })

theorem InFile.fread_append {front : List Byte} {count : Nat} (rest : List Byte) (eof : Bool)
    (length : front.length = count) :
    InFile.fread ⟨front ++ rest, eof⟩ count = (front, ⟨rest, eof⟩) := by
  subst length
  have enough : ¬ (front ++ rest).length < front.length := by
    rw [List.length_append]
    omega
  simp only [fread, List.take_left', List.drop_left', enough, decide_false, Bool.or_false]

end ByteCodec
