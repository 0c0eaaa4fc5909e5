/-
Module: BattletechMux.Terrain.HexBits
Purpose: The two bits of each hex of a map, for mines and for hangars, from map.bits.c, are two sets
  of hexes.
Trusted boundary: memory is had when it is asked for; files of bits and their sizes are left out
-/
import BattletechMux.MapFile.Format

namespace BattletechMux.Terrain

open Function (update)
open ByteCodec (Byte)
open MapFile (realnum boffs boffsbit)

section

inductive Bit
  | mine | hangar
deriving DecidableEq, Repr

def Bit.n : Bit → Byte
  | .mine => MapFile.bitMine
  | .hangar => MapFile.bitHangar

abbrev Row (size : Nat) := Vector (Byte) size

/-- The bits of a map of some width and height, with rows of so many bytes: no array yet, or rows
that are there or not. -/
structure HexBits (width height size : Nat) where
  array : Option (Nat → Option (Row size))

/-- `map_load_bits` and `create_if_neccessary` make rows of as many bytes as `realnum` says. -/
abbrev MapBits (width height : Nat) := HexBits width height (realnum width)

variable {width height size : Nat}

/-- A byte of a row is changed; `none` when it is outside of the row. -/
def Row.touch (row : Row size) (i : Nat) (change : Byte → Byte) : Option (Row size) :=
  if inside : i < size then some (row.set i (change row[i])) else none

def HexBits.grabUsAnArray (map : HexBits width height size) : Nat → Option (Row size) :=
  map.array.getD fun _ => none

/-- `btsetbit`, with `create_if_neccessary`. -/
def HexBits.btsetbit (map : HexBits width height size) (x y : Nat) (bit : Bit) :
    Option (HexBits width height size) := do
  if y < height then
    let foo := map.grabUsAnArray
    let row := (foo y).getD (Vector.replicate size 0)
    let row ← row.touch (realnum x) (· ||| boffsbit x bit.n)
    some ⟨some (update foo y (some row))⟩
  else none

def HexBits.btunsetbit (map : HexBits width height size) (x y : Nat) (bit : Bit) :
    Option (HexBits width height size) :=
  if y < height then
    let foo := map.grabUsAnArray
    match foo y with
    | none => some ⟨some foo⟩
    | some row =>
      (row.touch (realnum x) (· &&& ~~~boffsbit x bit.n)).map fun row =>
        ⟨some (update foo y (some row))⟩
  else none

/-- `btissetbit`, on rows that are there. -/
def HexBits.btissetbit (map : HexBits width height size) (x y : Nat) (bit : Bit) : Option Bool :=
  match map.array with
  | none => some false
  | some foo =>
    if y < height then
      match foo y with
      | none => some false
      | some row => row[realnum x]?.map fun byte => byte &&& boffsbit x bit.n != 0
    else none

def HexBits.setHexEnterable (map : HexBits width height size) (x y : Nat) :=
  map.btsetbit x y .hangar
def HexBits.setHexMine (map : HexBits width height size) (x y : Nat) :=
  map.btsetbit x y .mine
def HexBits.unsetHexEnterable (map : HexBits width height size) (x y : Nat) :=
  map.btunsetbit x y .hangar
def HexBits.unsetHexMine (map : HexBits width height size) (x y : Nat) :=
  map.btunsetbit x y .mine
def HexBits.isMineHex (map : HexBits width height size) (x y : Nat) :=
  map.btissetbit x y .mine
def HexBits.isHangarHex (map : HexBits width height size) (x y : Nat) :=
  map.btissetbit x y .hangar

def HexBits.dropBit (map : HexBits width height size) (x y : Nat) (bit : Bit) :
    Option (HexBits width height size) :=
  (map.btissetbit x y bit).bind fun isset => if isset then map.btunsetbit x y bit else some map

/-- The body of the loops of `clear_hex_bits`. -/
def HexBits.clearHex (map : HexBits width height size) (bits : Nat) (i j : Nat) :
    Option (HexBits width height size) :=
  match bits with
  | 0 => (map.dropBit j i .mine).bind fun map => map.dropBit j i .hangar
  | 1 => map.dropBit j i .mine
  | 2 => map.dropBit j i .hangar
  | _ => some map

/-- The rows of `clear_hex_bits`. -/
def HexBits.clearRow (map : HexBits width height size) (bits : Nat) (i : Nat) :
    Option (HexBits width height size) :=
  if (map.grabUsAnArray i).isSome then
    (List.range width).foldlM (fun map j => map.clearHex bits i j) map
  else some map

def HexBits.clearHexBits (map : HexBits width height size) (bits : Nat) :
    Option (HexBits width height size) :=
  if map.array.isSome then
    (List.range height).foldlM (fun map i => map.clearRow bits i) map
  else some map

/-! ## Bytes of a row -/

theorem realnum_eq (x : Nat) : realnum x = (x + 3) / 4 := by
  unfold realnum
  split <;> omega

theorem realnum_inj {x x' : Nat} (byte : realnum x = realnum x') (place : boffs x = boffs x') :
    x = x' := by
  rw [realnum_eq, realnum_eq] at byte
  unfold boffs at place
  omega

inductive Access
  | setHexEnterable | setHexMine | unsetHexEnterable | unsetHexMine | isMineHex | isHangarHex

def HexBits.Inside (map : HexBits width height size) (x y : Nat) : Access → Prop
  | .setHexEnterable => (map.setHexEnterable x y).isSome
  | .setHexMine => (map.setHexMine x y).isSome
  | .unsetHexEnterable => (map.unsetHexEnterable x y).isSome
  | .unsetHexMine => (map.unsetHexMine x y).isSome
  | .isMineHex => (map.isMineHex x y).isSome
  | .isHangarHex => (map.isHangarHex x y).isSome

def position (x y : Nat) : Nat × Nat × Nat := (y, realnum x, boffs x)

theorem touch_isSome (row : Row size) (i : Nat) (change : Byte → Byte) :
    (row.touch i change).isSome ↔ i < size := by
  unfold Row.touch
  split <;> simp_all

section

variable (map : HexBits width height size) (bit : Bit)
include map bit

theorem btsetbit_isSome {x y : Nat} (inY : y < height) :
    (map.btsetbit x y bit).isSome ↔ realnum x < size := by
  unfold HexBits.btsetbit
  rw [if_pos inY, ← touch_isSome ((map.grabUsAnArray y).getD (Vector.replicate size 0)) (realnum x)
    (· ||| boffsbit x bit.n)]
  dsimp only
  cases ((map.grabUsAnArray y).getD (Vector.replicate size 0)).touch (realnum x)
    (· ||| boffsbit x bit.n) <;> rfl

theorem btunsetbit_isSome {x y : Nat} (inY : y < height) (hin : realnum x < size) :
    (map.btunsetbit x y bit).isSome := by
  unfold HexBits.btunsetbit
  rw [if_pos inY]
  dsimp only
  cases map.grabUsAnArray y with
  | none => rfl
  | some row =>
    rw [Option.isSome_map]
    exact (touch_isSome row _ _).mpr hin

theorem btissetbit_isSome {x y : Nat} (inY : y < height) (hin : realnum x < size) :
    (map.btissetbit x y bit).isSome := by
  unfold HexBits.btissetbit
  cases map.array with
  | none => rfl
  | some foo =>
    dsimp only
    rw [if_pos inY]
    cases foo y with
    | none => rfl
    | some row => simp [hin]

end

/-- Every access to a hex stays in its row, and no other hex has its bits, exactly when the byte
of the hex comes before the size of a row. -/
theorem hex_inside_iff (map : MapBits width height) {x y : Nat} (inY : y < height) :
    ((∀ access, map.Inside x y access) ∧ ∀ x' y', x' < width → y' < height →
        (x', y') ≠ (x, y) → position x' y' ≠ position x y) ↔
      (x + 3) / 4 < (width + 3) / 4 := by
  rw [← realnum_eq, ← realnum_eq]
  constructor
  · rintro ⟨all, -⟩
    exact (btsetbit_isSome map .mine inY).mp (all .setHexMine)
  · intro inside
    refine ⟨fun access => ?_, fun x' y' _ _ other same => other ?_⟩
    · cases access with
      | setHexEnterable => exact (btsetbit_isSome map .hangar inY).mpr inside
      | setHexMine => exact (btsetbit_isSome map .mine inY).mpr inside
      | unsetHexEnterable => exact btunsetbit_isSome map .hangar inY inside
      | unsetHexMine => exact btunsetbit_isSome map .mine inY inside
      | isMineHex => exact btissetbit_isSome map .mine inY inside
      | isHangarHex => exact btissetbit_isSome map .hangar inY inside
    · obtain ⟨row, byte, place⟩ : y' = y ∧ realnum x' = realnum x ∧ boffs x' = boffs x := by
        simpa [position] using same
      rw [row, realnum_inj byte place]

def noBits (width height size : Nat) : HexBits width height size := ⟨none⟩

theorem hex_inside_five :
    (∀ access, (noBits 5 1 (realnum 5)).Inside 4 0 access) ∧ ∀ x' y', x' < 5 → y' < 1 →
      (x', y') ≠ (4, 0) → position x' y' ≠ position 4 0 :=
  (hex_inside_iff (noBits 5 1 (realnum 5)) (by decide)).mpr (by decide)

/-- The byte of the second hex is behind the only one of a row of four. -/
theorem last_column_outside : ¬(noBits 4 1 (realnum 4)).Inside 1 0 .setHexMine := by
  unfold HexBits.Inside
  decide

end

open List hiding any_eq_true
open Option hiding any any_eq_true

/-! ## Bytes -/

def place (x : Nat) : Bit → Nat
  | .mine => boffs x
  | .hangar => boffs x + 1

theorem place_lt (x : Nat) (bit : Bit) : place x bit < 8 := by
  unfold place boffs
  cases bit <;> dsimp only <;> omega

theorem place_inj {x x' : Nat} {bit bit' : Bit} (eq : place x bit = place x' bit') :
    boffs x = boffs x' ∧ bit = bit' := by
  unfold place boffs at eq
  unfold boffs
  cases bit <;> cases bit' <;> dsimp only at eq <;> first
    | exact ⟨by omega, rfl⟩
    | omega

theorem boffsbit_eq (x : Nat) (bit : Bit) : boffsbit x bit.n = BitVec.twoPow 8 (place x bit) := by
  have four : x % 4 = 0 ∨ x % 4 = 1 ∨ x % 4 = 2 ∨ x % 4 = 3 := by omega
  unfold boffsbit place boffs
  rcases four with rest | rest | rest | rest <;> rw [rest] <;> cases bit <;> decide

theorem and_boffsbit (byte : Byte) (x : Nat) (bit : Bit) :
    (byte &&& boffsbit x bit.n != 0) = byte.getLsbD (place x bit) := by
  rw [boffsbit_eq, BitVec.and_twoPow]
  have some : BitVec.twoPow 8 (place x bit) ≠ 0#8 := by
    intro none
    have eq := congrArg (BitVec.getLsbD · (place x bit)) none
    simp [place_lt] at eq
  cases byte.getLsbD (place x bit) <;> simp [some]

theorem getLsbD_set (byte : Byte) (x : Nat) (bit : Bit) (i : Nat) :
    (byte ||| boffsbit x bit.n).getLsbD i = (byte.getLsbD i || decide (place x bit = i)) := by
  rw [boffsbit_eq, BitVec.getLsbD_or, BitVec.getLsbD_twoPow]
  simp [place_lt]

theorem getLsbD_unset (byte : Byte) (x : Nat) (bit : Bit) {i : Nat} (hin : i < 8) :
    (byte &&& ~~~boffsbit x bit.n).getLsbD i = (byte.getLsbD i && decide (place x bit ≠ i)) := by
  rw [boffsbit_eq, BitVec.getLsbD_and, BitVec.getLsbD_not, BitVec.getLsbD_twoPow]
  simp [place_lt, hin]

/-! ## Rows -/

variable {width height size : Nat}

def Row.bitAt (row : Row size) (x : Nat) (bit : Bit) : Bool :=
  (row[realnum x]?.getD 0).getLsbD (place x bit)

theorem bitAt_touch {row row' : Row size} {x : Nat} {bit : Bit} {change : Byte → Byte}
    {value : Bool} (touched : row.touch (realnum x) change = some row')
    (changes : ∀ byte i, i < 8 →
      (change byte).getLsbD i = if place x bit = i then value else byte.getLsbD i)
    (x' : Nat) (bit' : Bit) :
    row'.bitAt x' bit' = if x' = x ∧ bit' = bit then value else row.bitAt x' bit' := by
  unfold Row.touch at touched
  split at touched
  case isFalse => exact absurd touched (by simp)
  next hin =>
  obtain rfl := some.inj touched
  unfold Row.bitAt
  by_cases eq : realnum x = realnum x'
  · rw [← eq, Vector.getElem?_set_self, getD_some, changes _ _ (place_lt x' bit')]
    have placed : place x bit = place x' bit' ↔ x' = x ∧ bit' = bit := by
      refine ⟨fun at_place => ?_, ?_⟩
      · obtain ⟨offset, bits⟩ := place_inj at_place
        exact ⟨(realnum_inj eq offset).symm, bits.symm⟩
      · rintro ⟨rfl, rfl⟩
        rfl
    rw [Vector.getElem?_eq_getElem hin, getD_some]
    simp only [placed]
  · rw [Vector.getElem?_set_ne hin eq, if_neg]
    rintro ⟨rfl, -⟩
    exact eq rfl

/-! ## Operations -/

/-- The bit of a hex, where there are no rows none is set. -/
def HexBits.bitAt (map : HexBits width height size) (x y : Nat) (bit : Bit) : Bool :=
  match map.grabUsAnArray y with
  | none => false
  | some row => row.bitAt x bit

/-- The bit of one hex has a new value, and all others are as they were. -/
def HexBits.Only (map map' : HexBits width height size) (x y : Nat) (bit : Bit) (value : Bool) :
    Prop :=
  ∀ x' y' bit', map'.bitAt x' y' bit' =
    if x' = x ∧ y' = y ∧ bit' = bit then value else map.bitAt x' y' bit'

theorem touch_inside (row : Row size) {i : Nat} (hin : i < size) (change : Byte → Byte) :
    ∃ row', row.touch i change = some row' :=
  isSome_iff_exists.mp ((touch_isSome row i change).mpr hin)

variable {x y : Nat}

theorem only_of_row {map : HexBits width height size} {row row' : Row size}
    {bit : Bit} {value : Bool} (old : ∀ x' bit', row.bitAt x' bit' = map.bitAt x' y bit')
    (new : ∀ x' bit', row'.bitAt x' bit' =
      if x' = x ∧ bit' = bit then value else row.bitAt x' bit') :
    map.Only ⟨some (update map.grabUsAnArray y (some row'))⟩ x y bit value := by
  intro x' y' bit'
  have read : HexBits.bitAt (⟨some (update map.grabUsAnArray y (some row'))⟩ :
      HexBits width height size) x' y' bit' =
        if y' = y then row'.bitAt x' bit' else map.bitAt x' y' bit' := by
    unfold HexBits.bitAt
    rw [show HexBits.grabUsAnArray (⟨some (update map.grabUsAnArray y (some row'))⟩ :
      HexBits width height size) = update map.grabUsAnArray y (some row') from rfl]
    by_cases eq : y' = y
    · rw [eq, Function.update_self, if_pos rfl]
    · rw [Function.update_of_ne eq, if_neg eq]
  rw [read]
  by_cases eq : y' = y
  · subst eq
    rw [if_pos rfl, new, old]
    simp
  · rw [if_neg eq, if_neg fun all => eq all.2.1]

theorem bitAt_replicate (x : Nat) (bit : Bit) :
    Row.bitAt (Vector.replicate size (0 : Byte)) x bit = false := by
  unfold Row.bitAt
  rw [Vector.getElem?_replicate]
  split <;> simp

section

variable (map : HexBits width height size) (bit : Bit) (inY : y < height)
include map bit inY

theorem btsetbit_spec (room : realnum x < size) :
    ∃ map', map.btsetbit x y bit = some map' ∧ map.Only map' x y bit true := by
  obtain ⟨row', touched⟩ := touch_inside ((map.grabUsAnArray y).getD (Vector.replicate size 0))
    room (· ||| boffsbit x bit.n)
  refine ⟨⟨some (update map.grabUsAnArray y (some row'))⟩, ?_, only_of_row (fun x' bit' => ?_)
    (bitAt_touch touched fun byte i _ => ?_)⟩
  · unfold HexBits.btsetbit
    rw [if_pos inY]
    dsimp only
    rw [touched]
    rfl
  · unfold HexBits.bitAt
    cases map.grabUsAnArray y with
    | none => exact bitAt_replicate x' bit'
    | some row => rfl
  · rw [getLsbD_set]
    split <;> simp_all

theorem btunsetbit_spec (room : realnum x < size) :
    ∃ map', map.btunsetbit x y bit = some map' ∧ map.Only map' x y bit false := by
  unfold HexBits.btunsetbit
  rw [if_pos inY]
  dsimp only
  cases hf : map.grabUsAnArray y with
  | none =>
    refine ⟨_, rfl, fun x' y' bit' => ?_⟩
    change map.bitAt x' y' bit' = _
    split
    · next here =>
      obtain ⟨rfl, rfl, rfl⟩ := here
      unfold HexBits.bitAt
      rw [hf]
    · rfl
  | some row =>
    obtain ⟨row', touched⟩ := touch_inside row room (· &&& ~~~boffsbit x bit.n)
    refine ⟨⟨some (update map.grabUsAnArray y (some row'))⟩, ?_, only_of_row (fun x' bit' => ?_)
      (bitAt_touch touched fun byte i hin => ?_)⟩
    · dsimp only
      rw [touched]
      rfl
    · unfold HexBits.bitAt
      rw [hf]
    · rw [getLsbD_unset byte x bit hin]
      split <;> simp_all

theorem btissetbit_spec (room : realnum x < size) :
    map.btissetbit x y bit = some (map.bitAt x y bit) := by
  unfold HexBits.btissetbit HexBits.bitAt HexBits.grabUsAnArray
  cases map.array with
  | none => rfl
  | some foo =>
    dsimp only
    rw [if_pos inY, getD_some]
    cases foo y with
    | none => rfl
    | some row =>
      dsimp only
      unfold Row.bitAt
      rw [Vector.getElem?_eq_getElem room, map_some, and_boffsbit, getD_some]

end

/-! ## Clearing -/

/-- The bits that `clear_hex_bits` covers. -/
def covers (bits : Nat) : Bit → Bool
  | .mine => bits == 0 || bits == 1
  | .hangar => bits == 0 || bits == 2

theorem dropBit_spec (map : HexBits width height size) (bit : Bit)
    (inY : y < height) (room : realnum x < size) :
    ∃ map', map.dropBit x y bit = some map' ∧ map.Only map' x y bit false := by
  unfold HexBits.dropBit
  rw [btissetbit_spec map bit inY room, bind_some]
  cases isset : map.bitAt x y bit with
  | true => exact btunsetbit_spec map bit inY room
  | false =>
    refine ⟨map, rfl, fun x' y' bit' => ?_⟩
    split
    · next here =>
      obtain ⟨rfl, rfl, rfl⟩ := here
      exact isset
    · rfl

def HexBits.Lost (map map' : HexBits width height size) (lost : Nat → Nat → Bit → Bool) : Prop :=
  ∀ x y bit, map'.bitAt x y bit = (!lost x y bit && map.bitAt x y bit)

theorem HexBits.Lost.nothing (map : HexBits width height size) :
    map.Lost map fun _ _ _ => false := fun _ _ _ => by simp

theorem HexBits.Lost.trans {map map' map'' : HexBits width height size}
    {fst snd : Nat → Nat → Bit → Bool} (one : map.Lost map' fst)
    (two : map'.Lost map'' snd) :
    map.Lost map'' fun x y bit => fst x y bit || snd x y bit := by
  intro x y bit
  rw [two, one]
  change _ = (!(fst x y bit || snd x y bit) && map.bitAt x y bit)
  cases fst x y bit <;> cases snd x y bit <;> rfl

theorem HexBits.Lost.congr {map map' : HexBits width height size}
    {lost lost' : Nat → Nat → Bit → Bool} (one : map.Lost map' lost)
    (eq : ∀ x y bit, lost x y bit = lost' x y bit) : map.Lost map' lost' := fun x y bit => by
  rw [one, eq]

theorem HexBits.Only.lost {map map' : HexBits width height size} {bit : Bit}
    (only : map.Only map' x y bit false) :
    map.Lost map' fun x' y' bit' => x' == x && y' == y && bit' == bit := by
  intro x' y' bit'
  rw [only]
  by_cases all : x' = x ∧ y' = y ∧ bit' = bit
  · rw [if_pos all]
    obtain ⟨rfl, rfl, rfl⟩ := all
    simp
  · rw [if_neg all]
    have o : (x' == x && y' == y && bit' == bit) = false := by
      rw [Bool.eq_false_iff]
      simpa [and_assoc] using all
    change _ = (!(x' == x && y' == y && bit' == bit) && map.bitAt x' y' bit')
    rw [o]
    rfl

theorem lost_loop {body : HexBits width height size → Nat → Option (HexBits width height size)}
    {lost : Nat → Nat → Nat → Bit → Bool} {n : Nat}
    (each : ∀ i < n, ∀ map, ∃ map', body map i = some map' ∧ map.Lost map' (lost i))
    (map : HexBits width height size) :
    ∃ map', (List.range n).foldlM body map = some map' ∧
      map.Lost map' fun x y bit => (List.range n).any fun i => lost i x y bit := by
  induction n with
  | zero => exact ⟨map, rfl, .nothing map⟩
  | succ n ih =>
    obtain ⟨middle, ran, pre⟩ :=
      ih fun i less => each i (Nat.lt_succ_of_lt less)
    obtain ⟨map', stepped, last⟩ := each n (Nat.lt_succ_self n) middle
    refine ⟨map', ?_, (pre.trans last).congr fun x y bit => ?_⟩
    · rw [range_succ, foldlM_append, ran]
      simpa using stepped
    · rw [range_succ, any_append]
      simp

theorem clearHex_spec (bits : Nat) {i j : Nat} (inY : i < height) (room : realnum j < size)
    (map : HexBits width height size) :
    ∃ map', map.clearHex bits i j = some map' ∧
      map.Lost map' fun x y bit => x == j && y == i && covers bits bit := by
  unfold HexBits.clearHex
  split
  · obtain ⟨middle, fst, one⟩ := dropBit_spec map .mine inY room
    obtain ⟨map', snd, two⟩ := dropBit_spec middle .hangar inY room
    refine ⟨map', ?_, (one.lost.trans two.lost).congr fun x y bit => ?_⟩
    · rw [fst, bind_some, snd]
    · cases bit <;> simp [covers]
  · obtain ⟨map', dropped, only⟩ := dropBit_spec map .mine inY room
    refine ⟨map', dropped, only.lost.congr fun x y bit => ?_⟩
    cases bit <;> simp [covers]
  · obtain ⟨map', dropped, only⟩ := dropBit_spec map .hangar inY room
    refine ⟨map', dropped, only.lost.congr fun x y bit => ?_⟩
    cases bit <;> simp [covers]
  · next none one two =>
    refine ⟨map, rfl, (HexBits.Lost.nothing map).congr fun x y bit => ?_⟩
    cases bit <;> simp_all [covers]

theorem clearRow_spec (large : ∀ x < width, realnum x < size) (bits : Nat) {i : Nat}
    (inY : i < height) (map : HexBits width height size) :
    ∃ map', map.clearRow bits i = some map' ∧
      map.Lost map' fun x y bit => decide (x < width) && y == i && covers bits bit := by
  unfold HexBits.clearRow
  split
  · obtain ⟨map', ran, lost⟩ := lost_loop
      (fun j inX middle => clearHex_spec bits inY (large j inX) middle) map
    refine ⟨map', ran, lost.congr fun x y bit => ?_⟩
    rw [Bool.eq_iff_iff]
    simp [and_assoc]
  · next empty =>
    refine ⟨map, rfl, fun x y bit => ?_⟩
    by_cases here : y = i
    · have gone : map.bitAt x y bit = false := by
        unfold HexBits.bitAt
        rw [here, not_isSome_iff_eq_none.mp empty]
      rw [gone, Bool.and_false]
    · simp [here]

theorem clearHexBits_spec (large : ∀ x < width, realnum x < size) (bits : Nat)
    (map : HexBits width height size) :
    ∃ map', map.clearHexBits bits = some map' ∧
      map.Lost map' fun x y bit => decide (x < width) && decide (y < height) && covers bits bit := by
  unfold HexBits.clearHexBits
  split
  · obtain ⟨map', ran, lost⟩ := lost_loop
      (fun i inY middle => clearRow_spec large bits inY middle) map
    refine ⟨map', ran, lost.congr fun x y bit => ?_⟩
    rw [Bool.eq_iff_iff]
    simp only [List.any_eq_true, mem_range, Bool.and_eq_true, decide_eq_true_eq, beq_iff_eq]
    exact ⟨fun ⟨_, inY, ⟨inX, here⟩, covered⟩ => ⟨⟨inX, here ▸ inY⟩, covered⟩,
      fun ⟨⟨inX, inY⟩, covered⟩ => ⟨y, inY, ⟨inX, rfl⟩, covered⟩⟩
  · next empty =>
    refine ⟨map, rfl, fun x y bit => ?_⟩
    have gone : map.bitAt x y bit = false := by
      unfold HexBits.bitAt HexBits.grabUsAnArray
      rw [not_isSome_iff_eq_none.mp empty]
      rfl
    rw [gone, Bool.and_false]

/-! ## Runs -/

inductive BitOp
  | setHexMine (x y : Nat)
  | unsetHexMine (x y : Nat)
  | setHexEnterable (x y : Nat)
  | unsetHexEnterable (x y : Nat)
  | clearHexBits (bits : Nat)

def BitOp.InRange (width height : Nat) : BitOp → Prop
  | .setHexMine x y | .unsetHexMine x y | .setHexEnterable x y | .unsetHexEnterable x y =>
    x < width ∧ y < height
  | .clearHexBits _ => True

def HexBits.step (map : HexBits width height size) : BitOp → Option (HexBits width height size)
  | .setHexMine x y => map.setHexMine x y
  | .unsetHexMine x y => map.unsetHexMine x y
  | .setHexEnterable x y => map.setHexEnterable x y
  | .unsetHexEnterable x y => map.unsetHexEnterable x y
  | .clearHexBits bits => map.clearHexBits bits

/-- What an operation makes of the mine, or the hangar, of a hex: there, gone or as it was. -/
def BitOp.decides (bit : Bit) (x y : Nat) : BitOp → Option Bool
  | .setHexMine x' y' => if bit = .mine ∧ x = x' ∧ y = y' then some true else none
  | .unsetHexMine x' y' => if bit = .mine ∧ x = x' ∧ y = y' then some false else none
  | .setHexEnterable x' y' => if bit = .hangar ∧ x = x' ∧ y = y' then some true else none
  | .unsetHexEnterable x' y' => if bit = .hangar ∧ x = x' ∧ y = y' then some false else none
  | .clearHexBits bits => if covers bits bit then some false else none

def lastDecided (bit : Bit) (x y : Nat) (before : Bool) (ops : List BitOp) : Bool :=
  ops.foldl (fun value op => (op.decides bit x y).getD value) before

theorem step_decides (large : ∀ x < width, realnum x < size) {op : BitOp}
    (inRange : op.InRange width height) (map : HexBits width height size) :
    ∃ map', map.step op = some map' ∧ ∀ x y bit, x < width → y < height →
      map'.bitAt x y bit = (op.decides bit x y).getD (map.bitAt x y bit) := by
  have decided {map' : HexBits width height size} {x y : Nat} {bit : Bit} {value : Bool}
      (only : map.Only map' x y bit value) (x' y' : Nat) (bit' : Bit) :
      map'.bitAt x' y' bit' = (if bit' = bit ∧ x' = x ∧ y' = y then some value else none).getD
        (map.bitAt x' y' bit') := by
    rw [only]
    by_cases all : bit' = bit ∧ x' = x ∧ y' = y
    · rw [if_pos all, if_pos ⟨all.2.1, all.2.2, all.1⟩]
      rfl
    · rw [if_neg all, if_neg fun three => all ⟨three.2.2, three.1, three.2.1⟩]
      rfl
  cases op with
  | setHexMine x y =>
    obtain ⟨map', set, only⟩ := btsetbit_spec map .mine inRange.2 (large x inRange.1)
    exact ⟨map', set, fun x' y' bit' _ _ => decided only x' y' bit'⟩
  | unsetHexMine x y =>
    obtain ⟨map', unset, only⟩ := btunsetbit_spec map .mine inRange.2 (large x inRange.1)
    exact ⟨map', unset, fun x' y' bit' _ _ => decided only x' y' bit'⟩
  | setHexEnterable x y =>
    obtain ⟨map', set, only⟩ := btsetbit_spec map .hangar inRange.2 (large x inRange.1)
    exact ⟨map', set, fun x' y' bit' _ _ => decided only x' y' bit'⟩
  | unsetHexEnterable x y =>
    obtain ⟨map', unset, only⟩ := btunsetbit_spec map .hangar inRange.2 (large x inRange.1)
    exact ⟨map', unset, fun x' y' bit' _ _ => decided only x' y' bit'⟩
  | clearHexBits bits =>
    obtain ⟨map', cleared, lost⟩ := clearHexBits_spec large bits map
    refine ⟨map', cleared, fun x y bit inX inY => ?_⟩
    rw [lost]
    unfold BitOp.decides
    simp only [inX, inY, decide_true, Bool.true_and]
    by_cases covered : covers bits bit = true
    · rw [if_pos covered, covered]
      rfl
    · rw [if_neg covered, Bool.eq_false_iff.mpr covered]
      rfl

/-- Whatever is done to the bits of a map, there is a mine in a hex, or a hangar, when the last
operation that decides about it has put it there, or when there was one and none decides. -/
theorem run_sets (large : ∀ x < width, realnum x < size) (map : HexBits width height size)
    {ops : List BitOp} (inRange : ∀ op ∈ ops, op.InRange width height) :
    ∃ map', Machine.run HexBits.step map ops = some map' ∧ ∀ x y, x < width → y < height →
      (∃ mined, map.isMineHex x y = some mined ∧
        map'.isMineHex x y = some (lastDecided .mine x y mined ops)) ∧
      ∃ hangar, map.isHangarHex x y = some hangar ∧
        map'.isHangarHex x y = some (lastDecided .hangar x y hangar ops) := by
  suffices bits : ∃ map', Machine.run HexBits.step map ops = some map' ∧
      ∀ x y bit, x < width → y < height →
        map'.bitAt x y bit = lastDecided bit x y (map.bitAt x y bit) ops by
    obtain ⟨map', ran, decided⟩ := bits
    refine ⟨map', ran, fun x y inX inY => ⟨⟨_, btissetbit_spec map .mine inY (large x inX), ?_⟩,
      _, btissetbit_spec map .hangar inY (large x inX), ?_⟩⟩
    · rw [← decided x y .mine inX inY]
      exact btissetbit_spec map' .mine inY (large x inX)
    · rw [← decided x y .hangar inX inY]
      exact btissetbit_spec map' .hangar inY (large x inX)
  induction ops generalizing map with
  | nil => exact ⟨map, rfl, fun _ _ _ _ _ => rfl⟩
  | cons op rest ih =>
    obtain ⟨middle, stepped, one⟩ := step_decides large (inRange op mem_cons_self) map
    obtain ⟨map', ran, later⟩ := ih middle
      fun op member => inRange op (mem_cons_of_mem _ member)
    refine ⟨map', ?_, fun x y bit inX inY => ?_⟩
    · rw [Machine.run_cons, stepped]
      exact ran
    · rw [later x y bit inX inY, one x y bit inX inY]
      rfl

theorem run_sets_some :
    ∃ map', Machine.run HexBits.step (noBits 6 2 3)
        [.setHexMine 1 0, .setHexEnterable 2 0, .setHexMine 5 1, .clearHexBits 1,
          .setHexMine 4 1] = some map' ∧ ∀ x y, x < 6 → y < 2 →
      (∃ mined, (noBits 6 2 3).isMineHex x y = some mined ∧ map'.isMineHex x y =
        some (lastDecided .mine x y mined [.setHexMine 1 0, .setHexEnterable 2 0,
          .setHexMine 5 1, .clearHexBits 1, .setHexMine 4 1])) ∧
      ∃ hangar, (noBits 6 2 3).isHangarHex x y = some hangar ∧ map'.isHangarHex x y =
        some (lastDecided .hangar x y hangar [.setHexMine 1 0, .setHexEnterable 2 0,
          .setHexMine 5 1, .clearHexBits 1, .setHexMine 4 1]) :=
  run_sets (by decide) (noBits 6 2 3) (by simp [BitOp.InRange])

end BattletechMux.Terrain
