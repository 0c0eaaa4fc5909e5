/-
Module: BattletechMux.Tracing.ExactLines
Purpose: Lines in the exact directions of `TraceLOS`.
-/
import BattletechMux.Foundation.Stride
import BattletechMux.Tracing.LineTrace

namespace BattletechMux.Tracing

open BattletechMux.MapFile
open Stride (walk walk_succ walk_zero)

/-! ## Lines -/

def Inside (m : HexMap) (hex : Hex) : Prop :=
  (0 ≤ hex.1 ∧ hex.1 < m.mapWidth) ∧ 0 ≤ hex.2 ∧ hex.2 < m.mapHeight

def Adjacent (first second : Hex) : Prop := ∃ dir < 6, second = getAdjHex dir first

/-- Twice the cartesian y coordinate of a hex; its x coordinate is the column times half the
root of three. -/
def twiceY (hex : Hex) : Int := 2 * hex.2 - hex.1.tmod 2

/-- The line from the middle of one hex to that of another runs along the edge between two
hexes: these are mirrored at it, somewhere between the ends. -/
structure RunsBetween (a b first second : Hex) : Prop where
  neighbours : Adjacent first second
  across : 3 * (second.1 - first.1) * (b.1 - a.1) +
    (twiceY second - twiceY first) * (twiceY b - twiceY a) = 0
  middle : (first.1 + second.1 - 2 * a.1) * (twiceY b - twiceY a) =
    (twiceY first + twiceY second - 2 * twiceY a) * (b.1 - a.1)
  column : 2 * min a.1 b.1 ≤ first.1 + second.1 ∧ first.1 + second.1 ≤ 2 * max a.1 b.1
  row : 2 * min (twiceY a) (twiceY b) ≤ twiceY first + twiceY second ∧
    twiceY first + twiceY second ≤ 2 * max (twiceY a) (twiceY b)

structure ExactPath (m : HexMap) (a b : Hex) (path : List Hex) : Prop where
  inside : ∀ hex ∈ path, Inside m hex
  last : path.getLast? = some b
  chain : List.IsChain Adjacent (a :: path)
  higher : ∀ first second, Inside m first → Inside m second → RunsBetween a b first second →
    ∃ taken other, (taken = first ∧ other = second ∨ taken = second ∧ other = first) ∧
      taken ∈ path ∧ other ∉ path ∧ elevation m other ≤ elevation m taken
  /-- there is room in found_coords -/
  short : path.length ≤ 2 * m.mapWidth + m.mapHeight

/-- The same hex, or the other one of two of the same height that the line runs between. -/
def SameOrTied (m : HexMap) (a b hex back : Hex) : Prop :=
  back = hex ∨ RunsBetween a b hex back ∧ elevation m back = elevation m hex ∧ a.2 ≠ b.2

section Hexes

variable {m : HexMap} {a b first second : Hex}

theorem outside_eq_false_iff {hex : Hex} : outside m hex = false ↔ Inside m hex := by
  simp only [outside, Inside, decide_eq_false_iff_not]
  omega

theorem bestOf_cases : (outside m first = true ∧ bestOf m first second = second) ∨
    (Inside m first ∧ outside m second = true ∧ bestOf m first second = first) ∨
    (Inside m first ∧ Inside m second ∧ elevation m second < elevation m first ∧
      bestOf m first second = first) ∨
    Inside m first ∧ Inside m second ∧ elevation m first ≤ elevation m second ∧
      bestOf m first second = second := by
  unfold bestOf
  cases one : outside m first with
  | true => exact Or.inl ⟨rfl, if_pos rfl⟩
  | false =>
    rw [outside_eq_false_iff] at one
    cases two : outside m second with
    | true => exact Or.inr (Or.inl ⟨one, rfl, by simp⟩)
    | false =>
      rw [outside_eq_false_iff] at two
      by_cases more : elevation m second < elevation m first
      · exact Or.inr (Or.inr (Or.inl ⟨one, two, more, by simp [more]⟩))
      · exact Or.inr (Or.inr (Or.inr ⟨one, two, not_lt.mp more, by simp [more]⟩))

theorem bestOf_or : bestOf m first second = first ∨ bestOf m first second = second := by
  rcases @bestOf_cases m first second with ⟨_, is⟩ | ⟨_, _, is⟩ | ⟨_, _, _, is⟩ | ⟨_, _, _, is⟩
  · exact Or.inr is
  · exact Or.inl is
  · exact Or.inl is
  · exact Or.inr is

theorem inside_bestOf (one : Inside m first ∨ Inside m second) :
    Inside m (bestOf m first second) := by
  rcases @bestOf_cases m first second with ⟨out, is⟩ | ⟨inside, _, is⟩ | ⟨inside, _, _, is⟩ |
    ⟨_, inside, _, is⟩ <;> rw [is]
  · refine one.resolve_left fun inside => ?_
    rw [outside_eq_false_iff.mpr inside] at out
    exact Bool.noConfusion out
  · exact inside
  · exact inside
  · exact inside

theorem tmod_two {x : Int} (low : 0 ≤ x) : x.tmod 2 = x % 2 := Int.tmod_eq_emod_of_nonneg low

theorem adjacent_iff (low : 0 ≤ first.1) : Adjacent first second ↔
    (second.1 = first.1 ∧ (second.2 = first.2 - 1 ∨ second.2 = first.2 + 1)) ∨
    ((second.1 = first.1 + 1 ∨ second.1 = first.1 - 1) ∧
      (second.2 = first.2 - first.1 % 2 ∨ second.2 = first.2 - first.1 % 2 + 1)) := by
  constructor
  · rintro ⟨dir, small, rfl⟩
    rw [← tmod_two low]
    interval_cases dir
    · exact Or.inl ⟨rfl, Or.inl rfl⟩
    · exact Or.inr ⟨Or.inl rfl, Or.inl rfl⟩
    · exact Or.inr ⟨Or.inl rfl, Or.inr rfl⟩
    · exact Or.inl ⟨rfl, Or.inr rfl⟩
    · exact Or.inr ⟨Or.inr rfl, Or.inr rfl⟩
    · exact Or.inr ⟨Or.inr rfl, Or.inl rfl⟩
  · intro beside
    have pair : ∀ x y : Int, second.1 = x → second.2 = y → second = (x, y) := fun x y one two =>
      Prod.ext one two
    rw [← tmod_two low] at beside
    rcases beside with ⟨x, y | y⟩ | ⟨x | x, y | y⟩
    · exact ⟨0, by decide, pair _ _ x y⟩
    · exact ⟨3, by decide, pair _ _ x y⟩
    · exact ⟨1, by decide, pair _ _ x y⟩
    · exact ⟨2, by decide, pair _ _ x y⟩
    · exact ⟨5, by decide, pair _ _ x y⟩
    · exact ⟨4, by decide, pair _ _ x y⟩

end Hexes

/-! ## Ways -/

def columnWay (a : Hex) (s : Int) (k : Nat) : Hex := (a.1, a.2 + s * k)

/-- The hexes of a row of the map: every other column has the row, and between them the line
runs between two hexes. -/
def rowWay (m : HexMap) (a : Hex) (s : Int) (k : Nat) : Hex :=
  if k % 2 = 0 then (a.1 + s * k, a.2)
  else bestOf m (a.1 + s * k, a.2 - a.1 % 2) (a.1 + s * k, a.2 - a.1 % 2 + 1)

def linePoint (a : Hex) (sx sy : Int) (j : Nat) : Hex :=
  (a.1 + sx * j, (2 * a.2 - a.1 % 2 + 3 * sy * j + (a.1 + sx * j) % 2) / 2)

def firstOf (a : Hex) (sx sy : Int) (j : Nat) : Hex :=
  ((linePoint a sx sy j).1, (linePoint a sx sy j).2 + sy)

def secondOf (a : Hex) (sx sy : Int) (j : Nat) : Hex :=
  ((linePoint a sx sy j).1 + sx, if sy = 1 then
    (linePoint a sx sy j).2 + 1 - (linePoint a sx sy j).1 % 2
    else (linePoint a sx sy j).2 - (linePoint a sx sy j).1 % 2)

def lineWay (m : HexMap) (a : Hex) (sx sy : Int) (k : Nat) : Hex :=
  if k % 2 = 0 then linePoint a sx sy (k / 2)
  else bestOf m (firstOf a sx sy (k / 2)) (secondOf a sx sy (k / 2))

section Ways

variable {m : HexMap} {a b : Hex} {s sx sy : Int} {n : Nat}

theorem column_eq (eq : a.1 = b.1) (ne : a.2 ≠ b.2) :
    ∃ s n, (s = 1 ∨ s = -1) ∧ b.2 = a.2 + s * (n : Nat) ∧ 0 < n ∧
      column a.1 a.2 b.2 ++ [b] = walk (columnWay a s) 0 n := by
  have pair : ∀ y : Int, b.2 = y → b = (a.1, y) := fun y is => Prod.ext eq.symm is
  by_cases up : b.2 < a.2
  · refine ⟨-1, (a.2 - b.2).toNat, Or.inr rfl, by omega, by omega, ?_⟩
    obtain ⟨n, is⟩ : ∃ n : Nat, a.2 - b.2 = n + 1 := ⟨(a.2 - b.2 - 1).toNat, by omega⟩
    rw [is, show ((n : Int) + 1).toNat = n + 1 by omega, Stride.walk_last, column, if_pos up,
      show (a.2 - 1 - b.2).toNat = n by omega, walk]
    congr 1
    · refine List.map_congr_left fun k _ => ?_
      simp only [columnWay, Prod.mk.injEq, true_and]
      push_cast
      omega
    · rw [pair (a.2 + -1 * ((n + 1 : Nat) : Int)) (by push_cast; omega)]
      rfl
  · refine ⟨1, (b.2 - a.2).toNat, Or.inl rfl, by omega, by omega, ?_⟩
    obtain ⟨n, is⟩ : ∃ n : Nat, b.2 - a.2 = n + 1 := ⟨(b.2 - a.2 - 1).toNat, by omega⟩
    rw [is, show ((n : Int) + 1).toNat = n + 1 by omega, Stride.walk_last, column, if_neg up,
      show (b.2 - (a.2 + 1)).toNat = n by omega, walk]
    congr 1
    · refine List.map_congr_left fun k _ => ?_
      simp only [columnWay, Prod.mk.injEq, true_and]
      push_cast
      omega
    · rw [pair (a.2 + 1 * ((n + 1 : Nat) : Int)) (by push_cast; omega)]
      rfl

theorem tieRow_eq (unit : s = 1 ∨ s = -1) (low : 0 ≤ a.1) (high : 0 ≤ a.1 + s * (2 * n : Nat))
    {limit j : Nat} (hlt : n - j < limit) (inside : j ≤ n) :
    tieRow m (a.1 + s * (2 * n : Nat)) a.2 s limit (a.1 + s * (2 * j : Nat)) =
      some (walk (rowWay m a s) (2 * j) (2 * (n - j))) := by
  induction limit generalizing j with
  | zero => omega
  | succ limit ih =>
    rw [tieRow]
    by_cases more : j < n
    · have next : a.1 + s * (2 * j : Nat) + 2 * s = a.1 + s * (2 * (j + 1) : Nat) := by
        push_cast
        ring
      have parity : (a.1 + s * (2 * j : Nat)).tmod 2 = a.1 % 2 := by
        rw [tmod_two]
        · rcases unit with rfl | rfl <;> omega
        · rcases unit with rfl | rfl <;> omega
      rw [if_pos (by rcases unit with rfl | rfl <;> omega), next,
        ih (by omega) (by omega), Option.map_some, parity,
        show 2 * (n - j) = 2 * (n - (j + 1)) + 1 + 1 by omega, walk_succ, walk_succ]
      have tie : rowWay m a s (2 * j + 1) =
          bestOf m (a.1 + s * (2 * j : Nat) + 1 * s, a.2 - a.1 % 2)
            (a.1 + s * (2 * j : Nat) + 1 * s, a.2 - a.1 % 2 + 1) := by
        have column : a.1 + s * (2 * j + 1 : Nat) = a.1 + s * (2 * j : Nat) + 1 * s := by
          push_cast
          ring
        rw [rowWay, if_neg (by omega), column]
      have point : rowWay m a s (2 * j + 1 + 1) = (a.1 + s * (2 * (j + 1) : Nat), a.2) := by
        rw [rowWay, if_pos (by omega), show 2 * j + 1 + 1 = 2 * (j + 1) by omega]
      rw [tie, point, show 2 * j + 1 + 1 = 2 * (j + 1) by omega]
    · obtain rfl : j = n := by omega
      rw [if_neg (by simp), Nat.sub_self]
      rfl

theorem linePoint_succ (unitX : sx = 1 ∨ sx = -1) (unitY : sy = 1 ∨ sy = -1) (j : Nat) :
    (linePoint a sx sy (j + 1)).1 = (linePoint a sx sy j).1 + sx ∧
      (linePoint a sx sy (j + 1)).2 = (linePoint a sx sy j).2 +
        if sy = 1 then 2 - (linePoint a sx sy j).1 % 2 else -1 - (linePoint a sx sy j).1 % 2 := by
  rcases unitX with rfl | rfl <;> rcases unitY with rfl | rfl <;>
    simp only [linePoint, if_pos, show (-1 : Int) ≠ 1 by decide, if_false] <;>
    push_cast <;> omega

theorem tieLine_eq (unitX : sx = 1 ∨ sx = -1) (unitY : sy = 1 ∨ sy = -1) (low : 0 ≤ a.1)
    (high : 0 ≤ a.1 + sx * n) {limit j : Nat} (hlt : n - j < limit) (inside : j < n) :
    tieLine m (linePoint a sx sy n).1 (linePoint a sx sy n).2 sx sy limit
        (linePoint a sx sy j).1 (linePoint a sx sy j).2 =
      some (walk (lineWay m a sx sy) (2 * j) (2 * (n - j))) := by
  induction limit generalizing j with
  | zero => omega
  | succ limit ih =>
    have next := linePoint_succ (a := a) unitX unitY j
    have apart : (linePoint a sx sy j).1 ≠ (linePoint a sx sy n).1 ∧
        (linePoint a sx sy j).2 ≠ (linePoint a sx sy n).2 := by
      rcases unitX with rfl | rfl <;> rcases unitY with rfl | rfl <;>
        simp only [linePoint] <;> omega
    have parity : (linePoint a sx sy j).1.tmod 2 = (linePoint a sx sy j).1 % 2 := by
      refine tmod_two ?_
      rcases unitX with rfl | rfl <;> simp only [linePoint] <;> omega
    have tie : lineWay m a sx sy (2 * j + 1) =
        bestOf m ((linePoint a sx sy j).1, (linePoint a sx sy j).2 + sy)
          ((linePoint a sx sy (j + 1)).1, if sy = 1 then
            (linePoint a sx sy j).2 + 1 - (linePoint a sx sy j).1 % 2
            else (linePoint a sx sy j).2 - (linePoint a sx sy j).1 % 2) := by
      rw [lineWay, if_neg (by omega), show (2 * j + 1) / 2 = j by omega, next.1]
      rfl
    have point : lineWay m a sx sy (2 * j + 1 + 1) = linePoint a sx sy (j + 1) := by
      rw [lineWay, if_pos (by omega), show (2 * j + 1 + 1) / 2 = j + 1 by omega]
    rw [tieLine, if_pos apart]
    dsimp only
    rw [parity, ← next.1, ← next.2, show 2 * (n - j) = 2 * (n - (j + 1)) + 1 + 1 by omega,
      walk_succ, walk_succ, tie, point]
    by_cases last : j + 1 = n
    · subst last
      rw [if_pos ⟨rfl, rfl⟩, Nat.sub_self, Nat.mul_zero, walk_zero]
      cases limit with
      | zero => omega
      | succ limit =>
        have stop : ∀ x y, tieLine m x y sx sy (limit + 1) x y = some [(x, y)] := fun x y =>
          if_neg fun both => both.1 rfl
        rw [stop]
        rfl
    · have later : ¬((linePoint a sx sy (j + 1)).1 = (linePoint a sx sy n).1 ∧
          (linePoint a sx sy (j + 1)).2 = (linePoint a sx sy n).2) := by
        intro both
        rcases unitX with rfl | rfl <;> simp only [linePoint] at both <;> omega
      rw [if_neg later, ih (by omega) (by omega),
        show 2 * j + 1 + 1 = 2 * (j + 1) by omega]
      rfl

end Ways

/-! ## Coordinates -/

section Coordinates

variable {m : HexMap} {a b first second : Hex} {s sx sy : Int} {n j : Nat}

theorem adjacent_iff_twice (low : 0 ≤ first.1) : Adjacent first second ↔
    (second.1 = first.1 ∧ (2 * second.2 - second.1 % 2 = 2 * first.2 - first.1 % 2 - 2 ∨
      2 * second.2 - second.1 % 2 = 2 * first.2 - first.1 % 2 + 2)) ∨
    ((second.1 = first.1 + 1 ∨ second.1 = first.1 - 1) ∧
      (2 * second.2 - second.1 % 2 = 2 * first.2 - first.1 % 2 - 1 ∨
        2 * second.2 - second.1 % 2 = 2 * first.2 - first.1 % 2 + 1)) := by
  rw [adjacent_iff low]
  omega

theorem twiceY_of_low {hex : Hex} (low : 0 ≤ hex.1) : twiceY hex = 2 * hex.2 - hex.1 % 2 := by
  rw [twiceY, tmod_two low]

theorem hex_ext (column : first.1 = second.1)
    (row : 2 * first.2 - first.1 % 2 = 2 * second.2 - second.1 % 2) : first = second :=
  Prod.ext column (by rw [column] at row; omega)

theorem linePoint_column : (linePoint a sx sy j).1 = a.1 + sx * j := rfl

theorem linePoint_twice (unitX : sx = 1 ∨ sx = -1) (unitY : sy = 1 ∨ sy = -1) :
    2 * (linePoint a sx sy j).2 - (linePoint a sx sy j).1 % 2 =
      2 * a.2 - a.1 % 2 + 3 * (sy * j) := by
  rcases unitX with rfl | rfl <;> rcases unitY with rfl | rfl <;> simp only [linePoint] <;> omega

theorem firstOf_column : (firstOf a sx sy j).1 = a.1 + sx * j := rfl

theorem firstOf_twice (unitX : sx = 1 ∨ sx = -1) (unitY : sy = 1 ∨ sy = -1) :
    2 * (firstOf a sx sy j).2 - (firstOf a sx sy j).1 % 2 =
      2 * a.2 - a.1 % 2 + 3 * (sy * j) + 2 * sy := by
  have point := linePoint_twice (a := a) (j := j) unitX unitY
  simp only [firstOf] at point ⊢
  omega

theorem secondOf_column : (secondOf a sx sy j).1 = a.1 + sx * j + sx := rfl

theorem secondOf_twice (unitX : sx = 1 ∨ sx = -1) (unitY : sy = 1 ∨ sy = -1) :
    2 * (secondOf a sx sy j).2 - (secondOf a sx sy j).1 % 2 =
      2 * a.2 - a.1 % 2 + 3 * (sy * j) + sy := by
  have point := linePoint_twice (a := a) (j := j) unitX unitY
  simp only [secondOf]
  rcases unitY with rfl | rfl
  · rw [if_pos rfl]
    rcases unitX with rfl | rfl <;> omega
  · rw [if_neg (by decide)]
    rcases unitX with rfl | rfl <;> omega

theorem isTieLine_iff (lowA : 0 ≤ a.1) : IsTieLine a b ↔
    (2 * b.2 - b.1 % 2 - (2 * a.2 - a.1 % 2)).natAbs = 3 * (b.1 - a.1).natAbs := by
  have odd : ((b.1 - a.1).tmod 2).natAbs = (b.1 - a.1).natAbs % 2 := Int.natAbs_tmod _ _
  rw [IsTieLine, odd, tmod_two lowA]
  rcases Nat.mod_two_eq_zero_or_one (b.1 - a.1).natAbs with even | odd'
  · rw [even, Nat.zero_mul]
    omega
  · rw [odd', Nat.one_mul]
    split <;> omega

end Coordinates

/-! ## Lines at 30 degrees -/

/-- Two hexes of the map with a line at 30, 150, 210 or 330 degrees between them. -/
structure Slanted (m : HexMap) (a b : Hex) (sx sy : Int) (n : Nat) : Prop where
  unitX : sx = 1 ∨ sx = -1
  unitY : sy = 1 ∨ sy = -1
  some' : 0 < n
  column : b.1 = a.1 + sx * n
  twice : 2 * b.2 - b.1 % 2 = 2 * a.2 - a.1 % 2 + 3 * (sy * n)
  insideA : Inside m a
  insideB : Inside m b

section Slanted

variable {m : HexMap} {a b first second : Hex} {sx sy : Int} {n j k : Nat}

section

variable (line : Slanted m a b sx sy n)
include line

theorem Slanted.start : linePoint a sx sy 0 = a := by
  refine hex_ext (by simp [linePoint]) ?_
  rw [linePoint_twice line.unitX line.unitY]
  simp

theorem Slanted.finish : linePoint a sx sy n = b :=
  hex_ext line.column.symm ((linePoint_twice line.unitX line.unitY).trans line.twice.symm)

theorem Slanted.inside_linePoint (early : j ≤ n) : Inside m (linePoint a sx sy j) := by
  have column := @linePoint_column a sx sy j
  have twice := linePoint_twice (a := a) (j := j) line.unitX line.unitY
  obtain ⟨unitX, unitY, some', columnB, twiceB, insideA, insideB⟩ := line
  unfold Inside at *
  rcases unitX with rfl | rfl <;> rcases unitY with rfl | rfl <;> omega

theorem Slanted.inside_firstOf (early : j < n) : Inside m (firstOf a sx sy j) := by
  have column := @firstOf_column a sx sy j
  have twice := firstOf_twice (a := a) (j := j) line.unitX line.unitY
  obtain ⟨unitX, unitY, some', columnB, twiceB, insideA, insideB⟩ := line
  unfold Inside at *
  rcases unitX with rfl | rfl <;> rcases unitY with rfl | rfl <;> omega

theorem Slanted.inside_secondOf (early : j < n) : Inside m (secondOf a sx sy j) := by
  have column := @secondOf_column a sx sy j
  have twice := secondOf_twice (a := a) (j := j) line.unitX line.unitY
  obtain ⟨unitX, unitY, some', columnB, twiceB, insideA, insideB⟩ := line
  unfold Inside at *
  rcases unitX with rfl | rfl <;> rcases unitY with rfl | rfl <;> omega

theorem Slanted.adjacent (early : j < n) :
    (Adjacent (linePoint a sx sy j) (firstOf a sx sy j) ∧
      Adjacent (firstOf a sx sy j) (linePoint a sx sy (j + 1))) ∧
    Adjacent (linePoint a sx sy j) (secondOf a sx sy j) ∧
      Adjacent (secondOf a sx sy j) (linePoint a sx sy (j + 1)) := by
  have point := line.inside_linePoint (Nat.le_of_lt early)
  have one := line.inside_firstOf early
  have two := line.inside_secondOf early
  have pointColumn := @linePoint_column a sx sy j
  have pointTwice := linePoint_twice (a := a) (j := j) line.unitX line.unitY
  have nextColumn := @linePoint_column a sx sy (j + 1)
  have nextTwice := linePoint_twice (a := a) (j := j + 1) line.unitX line.unitY
  have oneColumn := @firstOf_column a sx sy j
  have oneTwice := firstOf_twice (a := a) (j := j) line.unitX line.unitY
  have twoColumn := @secondOf_column a sx sy j
  have twoTwice := secondOf_twice (a := a) (j := j) line.unitX line.unitY
  push_cast at nextColumn nextTwice
  rw [adjacent_iff_twice point.1.1, adjacent_iff_twice one.1.1, adjacent_iff_twice point.1.1,
    adjacent_iff_twice two.1.1]
  refine ⟨⟨Or.inl ?_, Or.inr ?_⟩, Or.inr ?_, Or.inl ?_⟩ <;>
    rcases line.unitX with rfl | rfl <;> rcases line.unitY with rfl | rfl <;> omega

theorem Slanted.between (early : j < n) :
    RunsBetween a b (firstOf a sx sy j) (secondOf a sx sy j) ∧
      RunsBetween a b (secondOf a sx sy j) (firstOf a sx sy j) := by
  have one := line.inside_firstOf early
  have two := line.inside_secondOf early
  have twiceA := twiceY_of_low line.insideA.1.1
  have twiceB := (twiceY_of_low line.insideB.1.1).trans line.twice
  have twiceOne := (twiceY_of_low one.1.1).trans (firstOf_twice line.unitX line.unitY)
  have twiceTwo := (twiceY_of_low two.1.1).trans (secondOf_twice line.unitX line.unitY)
  have beside : Adjacent (firstOf a sx sy j) (secondOf a sx sy j) ∧
      Adjacent (secondOf a sx sy j) (firstOf a sx sy j) := by
    rw [adjacent_iff_twice one.1.1, adjacent_iff_twice two.1.1]
    have oneColumn := @firstOf_column a sx sy j
    have oneTwice := firstOf_twice (a := a) (j := j) line.unitX line.unitY
    have twoColumn := @secondOf_column a sx sy j
    have twoTwice := secondOf_twice (a := a) (j := j) line.unitX line.unitY
    refine ⟨Or.inr ?_, Or.inr ?_⟩ <;>
      rcases line.unitX with rfl | rfl <;> rcases line.unitY with rfl | rfl <;> omega
  have square : sx * sx = sy * sy := by
    rcases line.unitX with rfl | rfl <;> rcases line.unitY with rfl | rfl <;> rfl
  constructor
  · refine ⟨beside.1, ?_, ?_, ?_, ?_⟩
    · rw [twiceA, twiceB, twiceOne, twiceTwo, line.column, firstOf_column, secondOf_column]
      linear_combination (3 * n : Int) * square
    · rw [twiceA, twiceB, twiceOne, twiceTwo, line.column, firstOf_column, secondOf_column]
      ring
    · rw [line.column, firstOf_column, secondOf_column]
      rcases line.unitX with rfl | rfl <;> omega
    · rw [twiceA, twiceB, twiceOne, twiceTwo]
      rcases line.unitY with rfl | rfl <;> omega
  · refine ⟨beside.2, ?_, ?_, ?_, ?_⟩
    · rw [twiceA, twiceB, twiceOne, twiceTwo, line.column, firstOf_column, secondOf_column]
      linear_combination (-3 * n : Int) * square
    · rw [twiceA, twiceB, twiceOne, twiceTwo, line.column, firstOf_column, secondOf_column]
      ring
    · rw [line.column, firstOf_column, secondOf_column]
      rcases line.unitX with rfl | rfl <;> omega
    · rw [twiceA, twiceB, twiceOne, twiceTwo]
      rcases line.unitY with rfl | rfl <;> omega

theorem Slanted.between_only (one : Inside m first)
    (two : Inside m second) (between : RunsBetween a b first second) :
    ∃ j < n, first = firstOf a sx sy j ∧ second = secondOf a sx sy j ∨
      first = secondOf a sx sy j ∧ second = firstOf a sx sy j := by
  obtain ⟨beside, across, middle, column, -⟩ := between
  rw [adjacent_iff_twice one.1.1] at beside
  have twiceB := (twiceY_of_low line.insideB.1.1).trans line.twice
  rw [twiceY_of_low line.insideA.1.1, twiceB, twiceY_of_low one.1.1, twiceY_of_low two.1.1,
    line.column] at across middle
  rw [line.column] at column
  have pos : (3 * n : Int) ≠ 0 := by
    have some' := line.some'
    omega
  have across' : (second.1 - first.1) * sx +
      (2 * second.2 - second.1 % 2 - (2 * first.2 - first.1 % 2)) * sy = 0 := by
    refine (mul_eq_zero.mp ?_).resolve_left pos
    linear_combination across
  have middle' : (first.1 + second.1 - 2 * a.1) * sy * 3 =
      (2 * first.2 - first.1 % 2 + (2 * second.2 - second.1 % 2) - 2 * (2 * a.2 - a.1 % 2)) * sx := by
    have n' : (n : Int) ≠ 0 := by omega
    refine mul_left_cancel₀ n' ?_
    linear_combination middle
  have pair : ∀ hex : Hex, ∀ j : Nat, (hex.1 = a.1 + sx * j →
      2 * hex.2 - hex.1 % 2 = 2 * a.2 - a.1 % 2 + 3 * (sy * j) + 2 * sy →
        hex = firstOf a sx sy j) ∧ (hex.1 = a.1 + sx * j + sx →
      2 * hex.2 - hex.1 % 2 = 2 * a.2 - a.1 % 2 + 3 * (sy * j) + sy →
        hex = secondOf a sx sy j) := fun hex j =>
    ⟨fun x y => hex_ext x (y.trans (firstOf_twice line.unitX line.unitY).symm),
      fun x y => hex_ext x (y.trans (secondOf_twice line.unitX line.unitY).symm)⟩
  generalize rowFirst : 2 * first.2 - first.1 % 2 = rowOne at *
  generalize rowSecond : 2 * second.2 - second.1 % 2 = rowTwo at *
  generalize 2 * a.2 - a.1 % 2 = rowA at *
  -- the one of the two that is nearer to the start is in the column of the point before it
  have turn : (second.1 = first.1 + sx ∧ rowTwo = rowOne - sy) ∨
      (second.1 = first.1 - sx ∧ rowTwo = rowOne + sy) := by
    rcases line.unitX with rfl | rfl <;> rcases line.unitY with rfl | rfl <;> omega
  obtain ⟨ahead, down⟩ | ⟨ahead, down⟩ := turn
  · obtain ⟨j, is, early⟩ : ∃ j : Nat, first.1 = a.1 + sx * j ∧ j < n := by
      rcases line.unitX with rfl | rfl
      · exact ⟨(first.1 - a.1).toNat, by omega, by omega⟩
      · exact ⟨(a.1 - first.1).toNat, by omega, by omega⟩
    have fall : rowOne = rowA + 3 * (sy * j) + 2 * sy := by
      rcases line.unitX with rfl | rfl <;> rcases line.unitY with rfl | rfl <;> omega
    exact ⟨j, early, Or.inl ⟨(pair first j).1 is (rowFirst.trans fall),
      (pair second j).2 (by omega) (rowSecond.trans (by omega))⟩⟩
  · obtain ⟨j, is, early⟩ : ∃ j : Nat, second.1 = a.1 + sx * j ∧ j < n := by
      rcases line.unitX with rfl | rfl
      · exact ⟨(second.1 - a.1).toNat, by omega, by omega⟩
      · exact ⟨(a.1 - second.1).toNat, by omega, by omega⟩
    have fall : rowTwo = rowA + 3 * (sy * j) + 2 * sy := by
      rcases line.unitX with rfl | rfl <;> rcases line.unitY with rfl | rfl <;> omega
    exact ⟨j, early, Or.inr ⟨(pair first j).2 (by omega) (rowFirst.trans (by omega)),
      (pair second j).1 is (rowSecond.trans fall)⟩⟩

end

end Slanted

/-! ## Paths -/

section Paths

variable {m : HexMap} {a b : Hex} {way way' : Nat → Hex} {n : Nat}

theorem Adjacent.ne {first second : Hex} (low : 0 ≤ first.1) (beside : Adjacent first second) :
    first ≠ second := by
  rintro rfl
  rw [adjacent_iff low] at beside
  omega

theorem exactPath_of_way (start : way 0 = a) (finish : way n = b) (some' : 0 < n)
    (inside : ∀ k ≤ n, Inside m (way k)) (steps : ∀ k < n, Adjacent (way k) (way (k + 1)))
    (short : n ≤ 2 * m.mapWidth + m.mapHeight)
    (ties : ∀ first second, Inside m first → Inside m second → RunsBetween a b first second →
      ∃ k, 0 < k ∧ k ≤ n ∧ (way k = bestOf m first second ∨ way k = bestOf m second first) ∧
        ∀ k' ≤ n, way k' = first ∨ way k' = second → k' = k) :
    ExactPath m a b (walk way 0 n) where
  inside := fun hex mem => by
    obtain ⟨k, _, early, rfl⟩ := Stride.mem_walk.mp mem
    exact inside k early
  last := by rw [Stride.walk_getLast some', finish]
  chain := by
    rw [← start]
    exact Stride.walk_isChain fun k _ early => steps k (by omega)
  higher := fun first second one two between => by
    obtain ⟨k, pos, early, is, only⟩ := ties first second one two between
    have differ := between.neighbours.ne one.1.1
    have not_out : ∀ hex, Inside m hex → ¬outside m hex = true := fun hex on out => by
      rw [outside_eq_false_iff.mpr on] at out
      exact Bool.noConfusion out
    -- the higher one is at the place of the two, so the other one is nowhere
    have conclude : ∀ taken o, (taken = first ∧ o = second ∨
        taken = second ∧ o = first) → way k = taken → elevation m o ≤ elevation m taken →
        ∃ taken o, (taken = first ∧ o = second ∨ taken = second ∧ o = first) ∧
          taken ∈ walk way 0 n ∧ o ∉ walk way 0 n ∧
            elevation m o ≤ elevation m taken := by
      intro taken o which here higher
      refine ⟨taken, o, which, Stride.mem_walk.mpr ⟨k, pos, early, here⟩, ?_, higher⟩
      intro mem
      obtain ⟨k', _, early', there⟩ := Stride.mem_walk.mp mem
      obtain rfl := only k' early' (by
        rcases which with ⟨_, rfl⟩ | ⟨_, rfl⟩
        · exact Or.inr there
        · exact Or.inl there)
      rcases which with ⟨rfl, rfl⟩ | ⟨rfl, rfl⟩
      · exact differ (here.symm.trans there)
      · exact differ (there.symm.trans here)
    rcases is with is | is
    · rcases @bestOf_cases m first second with ⟨out, _⟩ | ⟨_, out, _⟩ | ⟨_, _, less, best⟩ |
        ⟨_, _, less, best⟩
      · exact absurd out (not_out first one)
      · exact absurd out (not_out second two)
      · exact conclude first second (Or.inl ⟨rfl, rfl⟩) (is.trans best) less.le
      · exact conclude second first (Or.inr ⟨rfl, rfl⟩) (is.trans best) less
    · rcases @bestOf_cases m second first with ⟨out, _⟩ | ⟨_, out, _⟩ | ⟨_, _, less, best⟩ |
        ⟨_, _, less, best⟩
      · exact absurd out (not_out second two)
      · exact absurd out (not_out first one)
      · exact conclude second first (Or.inr ⟨rfl, rfl⟩) (is.trans best) less.le
      · exact conclude first second (Or.inl ⟨rfl, rfl⟩) (is.trans best) less
  short := by rwa [Stride.length_walk]

end Paths

section Slanted

variable {m : HexMap} {a b : Hex} {sx sy : Int} {n i j k : Nat}

theorem lineWay_even : lineWay m a sx sy (2 * j) = linePoint a sx sy j := by
  rw [lineWay, if_pos (by omega), Nat.mul_div_cancel_left j (by omega)]

theorem lineWay_odd :
    lineWay m a sx sy (2 * j + 1) = bestOf m (firstOf a sx sy j) (secondOf a sx sy j) := by
  rw [lineWay, if_neg (by omega), show (2 * j + 1) / 2 = j by omega]

section

variable (line : Slanted m a b sx sy n)
include line

theorem Slanted.only {hex : Hex} (which : hex = firstOf a sx sy j ∨ hex = secondOf a sx sy j)
    (there : lineWay m a sx sy k = hex) : k = 2 * j + 1 := by
  have oneTwice := firstOf_twice (a := a) (j := j) line.unitX line.unitY
  have twoTwice := secondOf_twice (a := a) (j := j) line.unitX line.unitY
  have oneColumn := @firstOf_column a sx sy j
  have twoColumn := @secondOf_column a sx sy j
  rcases Nat.even_or_odd' k with ⟨i, rfl | rfl⟩
  · have pointTwice := linePoint_twice (a := a) (j := i) line.unitX line.unitY
    have pointColumn := @linePoint_column a sx sy i
    rw [lineWay_even] at there
    rcases which with rfl | rfl <;> rw [there] at pointTwice pointColumn <;>
      rcases line.unitX with rfl | rfl <;> rcases line.unitY with rfl | rfl <;> omega
  · have oneTwice' := firstOf_twice (a := a) (j := i) line.unitX line.unitY
    have twoTwice' := secondOf_twice (a := a) (j := i) line.unitX line.unitY
    have oneColumn' := @firstOf_column a sx sy i
    have twoColumn' := @secondOf_column a sx sy i
    rw [lineWay_odd] at there
    have eq : i = j := by
      rcases @bestOf_or m (firstOf a sx sy i) (secondOf a sx sy i) with is | is <;>
        rw [is] at there <;> rcases which with rfl | rfl
      · rw [there] at oneTwice' oneColumn'
        rcases line.unitX with rfl | rfl <;> omega
      · rw [there] at oneTwice' oneColumn'
        rcases line.unitX with rfl | rfl <;> rcases line.unitY with rfl | rfl <;> omega
      · rw [there] at twoTwice' twoColumn'
        rcases line.unitX with rfl | rfl <;> rcases line.unitY with rfl | rfl <;> omega
      · rw [there] at twoTwice' twoColumn'
        rcases line.unitX with rfl | rfl <;> omega
    rw [eq]

theorem Slanted.exactPath : ExactPath m a b (walk (lineWay m a sx sy) 0 (2 * n)) := by
  refine exactPath_of_way ?_ ?_ ?_ ?_ ?_ ?_ ?_
  · exact (@lineWay_even m a sx sy 0).trans line.start
  · exact lineWay_even.trans line.finish
  · have some' := line.some'
    omega
  · intro k early
    rcases Nat.even_or_odd' k with ⟨i, rfl | rfl⟩
    · rw [lineWay_even]
      exact line.inside_linePoint (by omega)
    · rw [lineWay_odd]
      exact inside_bestOf (Or.inl (line.inside_firstOf (by omega)))
  · intro k early
    rcases Nat.even_or_odd' k with ⟨i, rfl | rfl⟩
    · have steps := line.adjacent (j := i) (by omega)
      rw [lineWay_even, lineWay_odd]
      rcases @bestOf_or m (firstOf a sx sy i) (secondOf a sx sy i) with is | is <;> rw [is]
      · exact steps.1.1
      · exact steps.2.1
    · have steps := line.adjacent (j := i) (by omega)
      rw [lineWay_odd, show 2 * i + 1 + 1 = 2 * (i + 1) by omega, lineWay_even]
      rcases @bestOf_or m (firstOf a sx sy i) (secondOf a sx sy i) with is | is <;> rw [is]
      · exact steps.1.2
      · exact steps.2.2
  · have insideA := line.insideA
    have insideB := line.insideB
    have column := line.column
    unfold Inside at insideA insideB
    rcases line.unitX with rfl | rfl <;> omega
  · intro first second one two between
    obtain ⟨j, early, which⟩ := line.between_only one two between
    refine ⟨2 * j + 1, by omega, by omega, ?_, fun k' _ there => ?_⟩
    · rw [lineWay_odd]
      rcases which with ⟨rfl, rfl⟩ | ⟨rfl, rfl⟩
      · exact Or.inl rfl
      · exact Or.inr rfl
    · rcases which with ⟨rfl, rfl⟩ | ⟨rfl, rfl⟩
      · rcases there with there | there
        · exact line.only (Or.inl rfl) there
        · exact line.only (Or.inr rfl) there
      · rcases there with there | there
        · exact line.only (Or.inr rfl) there
        · exact line.only (Or.inl rfl) there

theorem Slanted.reverse : Slanted m b a (-sx) (-sy) n where
  unitX := by rcases line.unitX with rfl | rfl <;> decide
  unitY := by rcases line.unitY with rfl | rfl <;> decide
  some' := line.some'
  column := by rw [line.column]; ring
  twice := by rw [line.twice]; ring
  insideA := line.insideB
  insideB := line.insideA

theorem Slanted.reverse_hexes :
    (∀ j ≤ n, linePoint b (-sx) (-sy) j = linePoint a sx sy (n - j)) ∧
      ∀ j < n, firstOf b (-sx) (-sy) j = secondOf a sx sy (n - 1 - j) ∧
        secondOf b (-sx) (-sy) j = firstOf a sx sy (n - 1 - j) := by
  have back := line.reverse
  refine ⟨fun j early => hex_ext ?_ ?_, fun j early => ⟨hex_ext ?_ ?_, hex_ext ?_ ?_⟩⟩
  · rw [linePoint_column, linePoint_column, line.column, Nat.cast_sub early]
    ring
  · rw [linePoint_twice back.unitX back.unitY, linePoint_twice line.unitX line.unitY, line.twice,
      Nat.cast_sub early]
    ring
  · rw [firstOf_column, secondOf_column, line.column, Nat.cast_sub (by omega),
      Nat.cast_sub (by omega)]
    push_cast
    ring
  · rw [firstOf_twice back.unitX back.unitY, secondOf_twice line.unitX line.unitY, line.twice,
      Nat.cast_sub (by omega), Nat.cast_sub (by omega)]
    push_cast
    ring
  · rw [firstOf_column, secondOf_column, line.column, Nat.cast_sub (by omega),
      Nat.cast_sub (by omega)]
    push_cast
    ring
  · rw [secondOf_twice back.unitX back.unitY, firstOf_twice line.unitX line.unitY, line.twice,
      Nat.cast_sub (by omega), Nat.cast_sub (by omega)]
    push_cast
    ring

theorem Slanted.row_ne : a.2 ≠ b.2 := by
  have twice := line.twice
  have some' := line.some'
  rcases line.unitY with rfl | rfl <;> omega

theorem Slanted.sameOrTied (pos : 0 < k) (early : k < 2 * n) :
    SameOrTied m a b (lineWay m a sx sy (2 * n - k)) (lineWay m b (-sx) (-sy) k) := by
  obtain ⟨points, pairs⟩ := line.reverse_hexes
  rcases Nat.even_or_odd' k with ⟨i, rfl | rfl⟩
  · rw [← Nat.mul_sub, lineWay_even, lineWay_even]
    exact Or.inl (points i (by omega))
  · have early' : i < n := by omega
    have one := line.inside_firstOf (j := n - 1 - i) (by omega)
    have two := line.inside_secondOf (j := n - 1 - i) (by omega)
    rw [show 2 * n - (2 * i + 1) = 2 * (n - 1 - i) + 1 by omega, lineWay_odd, lineWay_odd,
      (pairs i early').1, (pairs i early').2]
    have between := line.between (j := n - 1 - i) (by omega)
    generalize firstOf a sx sy (n - 1 - i) = first at *
    generalize secondOf a sx sy (n - 1 - i) = second at *
    have on : outside m first = false := outside_eq_false_iff.mpr one
    have on' : outside m second = false := outside_eq_false_iff.mpr two
    simp only [bestOf, on, on', Bool.false_eq_true, if_false]
    rcases lt_trichotomy (elevation m first) (elevation m second) with less | eq | more
    · rw [if_neg (not_lt.mpr less.le), if_pos less]
      exact Or.inl rfl
    · rw [if_neg (not_lt.mpr eq.le), if_neg (not_lt.mpr eq.ge)]
      exact Or.inr ⟨between.2, eq, line.row_ne⟩
    · rw [if_pos more, if_neg (not_lt.mpr more.le)]
      exact Or.inl rfl

theorem Slanted.traceLOS (general : Hex → Hex → List Hex) :
    traceLOS m general a b = some (walk (lineWay m a sx sy) 0 (2 * n)) := by
  have column := line.column
  have twice := line.twice
  have some' := line.some'
  have columns : a.1 ≠ b.1 := by rcases line.unitX with rfl | rfl <;> omega
  have right : (if a.1 < b.1 then 1 else -1) = sx := by
    rcases line.unitX with rfl | rfl <;> split <;> omega
  have down : (if a.2 < b.2 then 1 else -1) = sy := by
    rcases line.unitY with rfl | rfl <;> split <;> omega
  have rounds : (b.1 - a.1).natAbs = n := by rcases line.unitX with rfl | rfl <;> omega
  have fits : IsTieLine a b := by
    rw [isTieLine_iff line.insideA.1.1]
    rcases line.unitX with rfl | rfl <;> rcases line.unitY with rfl | rfl <;> omega
  have ran := tieLine_eq (m := m) (j := 0) line.unitX line.unitY line.insideA.1.1
    (column ▸ line.insideB.1.1) (Nat.lt_succ_self (n - 0)) line.some'
  rw [line.start, line.finish] at ran
  rw [Tracing.traceLOS, if_neg (fun both => columns both.1), if_neg columns,
    if_neg (fun row => line.row_ne row.2), if_pos fits, right, down, rounds]
  exact ran

end

end Slanted

/-! ## Rows -/

/-- Two hexes of one row of the map, an even number of columns apart. -/
structure InRow (m : HexMap) (a b : Hex) (s : Int) (n : Nat) : Prop where
  unit : s = 1 ∨ s = -1
  some' : 0 < n
  column : b.1 = a.1 + s * (2 * n : Nat)
  row : a.2 = b.2
  insideA : Inside m a
  insideB : Inside m b

section InRow

variable {m : HexMap} {a b first second : Hex} {s : Int} {n i j k : Nat}

theorem rowWay_even : rowWay m a s (2 * j) = (a.1 + s * (2 * j : Nat), a.2) := by
  rw [rowWay, if_pos (by omega)]

theorem rowWay_odd : rowWay m a s (2 * j + 1) =
    bestOf m (a.1 + s * (2 * j + 1 : Nat), a.2 - a.1 % 2)
      (a.1 + s * (2 * j + 1 : Nat), a.2 - a.1 % 2 + 1) := by
  rw [rowWay, if_neg (by omega)]

theorem rowWay_column : (rowWay m a s k).1 = a.1 + s * k := by
  rw [rowWay]
  split
  · rfl
  · rcases @bestOf_or m (a.1 + s * k, a.2 - a.1 % 2) (a.1 + s * k, a.2 - a.1 % 2 + 1) with
      is | is <;> rw [is]

section

variable (line : InRow m a b s n)
include line

theorem InRow.inside (early : k ≤ 2 * n) : Inside m (rowWay m a s k) := by
  obtain ⟨unit, some', column, row, insideA, insideB⟩ := line
  have on : ∀ y, 0 ≤ y → y < (m.mapHeight : Int) → Inside m (a.1 + s * k, y) := by
    intro y low high
    unfold Inside at *
    rcases unit with rfl | rfl <;> exact ⟨⟨by dsimp only; omega, by dsimp only; omega⟩, low, high⟩
  unfold Inside at insideA
  rcases Nat.even_or_odd' k with ⟨i, rfl | rfl⟩
  · rw [rowWay_even]
    exact on _ insideA.2.1 insideA.2.2
  · rw [rowWay_odd]
    rcases Int.emod_two_eq_zero_or_one a.1 with even | odd
    · exact inside_bestOf (Or.inl (on _ (by omega) (by omega)))
    · exact inside_bestOf (Or.inr (on _ (by omega) (by omega)))

theorem InRow.adjacent (early : k < 2 * n) : Adjacent (rowWay m a s k) (rowWay m a s (k + 1)) := by
  have on := line.inside (Nat.le_of_lt early)
  obtain ⟨unit, some', column, row, insideA, insideB⟩ := line
  rw [adjacent_iff on.1.1]
  refine Or.inr ⟨?_, ?_⟩
  · rw [rowWay_column, rowWay_column]
    rcases unit with rfl | rfl <;> push_cast <;> omega
  · have parity : (rowWay m a s k).1 % 2 = (a.1 + k) % 2 := by
      rw [rowWay_column]
      rcases unit with rfl | rfl <;> omega
    rw [parity]
    rcases Nat.even_or_odd' k with ⟨i, rfl | rfl⟩
    · rw [rowWay_even, rowWay_odd]
      push_cast
      rcases @bestOf_or m (a.1 + s * (2 * i + 1), a.2 - a.1 % 2)
        (a.1 + s * (2 * i + 1), a.2 - a.1 % 2 + 1) with is | is <;> rw [is] <;> dsimp only <;> omega
    · rw [show 2 * i + 1 + 1 = 2 * (i + 1) by omega, rowWay_even, rowWay_odd]
      push_cast
      rcases @bestOf_or m (a.1 + s * (2 * i + 1), a.2 - a.1 % 2)
        (a.1 + s * (2 * i + 1), a.2 - a.1 % 2 + 1) with is | is <;> rw [is] <;> dsimp only <;> omega

theorem InRow.between_only (one : Inside m first)
    (two : Inside m second) (between : RunsBetween a b first second) :
    ∃ j < n, (first = (a.1 + s * (2 * j + 1 : Nat), a.2 - a.1 % 2) ∧
        second = (a.1 + s * (2 * j + 1 : Nat), a.2 - a.1 % 2 + 1)) ∨
      first = (a.1 + s * (2 * j + 1 : Nat), a.2 - a.1 % 2 + 1) ∧
        second = (a.1 + s * (2 * j + 1 : Nat), a.2 - a.1 % 2) := by
  obtain ⟨beside, across, middle, column, -⟩ := between
  obtain ⟨unit, some', columnB, row, insideA, insideB⟩ := line
  rw [adjacent_iff_twice one.1.1] at beside
  have level : twiceY b = twiceY a := by
    rw [twiceY_of_low insideA.1.1, twiceY_of_low insideB.1.1, columnB, row]
    rcases unit with rfl | rfl <;> omega
  have far : b.1 - a.1 ≠ 0 := by rcases unit with rfl | rfl <;> omega
  rw [level, sub_self, mul_zero, add_zero] at across
  rw [level, sub_self, mul_zero] at middle
  have eq : second.1 - first.1 = 0 := by
    have three := (mul_eq_zero.mp across).resolve_right far
    omega
  have halves : twiceY first + twiceY second - 2 * twiceY a = 0 :=
    (mul_eq_zero.mp middle.symm).resolve_right far
  rw [twiceY_of_low one.1.1, twiceY_of_low two.1.1, twiceY_of_low insideA.1.1] at halves
  obtain ⟨j, is, early⟩ : ∃ j : Nat, first.1 = a.1 + s * (2 * j + 1 : Nat) ∧ j < n := by
    rcases unit with rfl | rfl
    · exact ⟨((first.1 - a.1) / 2).toNat, by push_cast; omega, by omega⟩
    · exact ⟨((a.1 - first.1) / 2).toNat, by push_cast; omega, by omega⟩
  have is' : second.1 = a.1 + s * (2 * j + 1 : Nat) := by omega
  have odd : first.1 % 2 = 1 - a.1 % 2 := by
    rw [is]
    push_cast
    rcases unit with rfl | rfl <;> omega
  refine ⟨j, early, ?_⟩
  by_cases above : first.2 < second.2
  · exact Or.inl ⟨Prod.ext is (by dsimp only; omega), Prod.ext is' (by dsimp only; omega)⟩
  · exact Or.inr ⟨Prod.ext is (by dsimp only; omega), Prod.ext is' (by dsimp only; omega)⟩

theorem InRow.exactPath : ExactPath m a b (walk (rowWay m a s) 0 (2 * n)) := by
  have some' := line.some'
  refine exactPath_of_way ?_ ?_ (by omega) (fun k early => line.inside early)
    (fun k early => line.adjacent early) ?_ ?_
  · exact Prod.ext (by simp [rowWay]) (by simp [rowWay])
  · rw [rowWay_even, ← line.column, line.row]
  · have insideA := line.insideA
    have insideB := line.insideB
    have column := line.column
    unfold Inside at insideA insideB
    rcases line.unit with rfl | rfl <;> omega
  · intro first second one two between
    obtain ⟨j, early, which⟩ := line.between_only one two between
    refine ⟨2 * j + 1, by omega, by omega, ?_, fun k' _ there => ?_⟩
    · rw [rowWay_odd]
      rcases which with ⟨rfl, rfl⟩ | ⟨rfl, rfl⟩
      · exact Or.inl rfl
      · exact Or.inr rfl
    · have column := @rowWay_column m a s k'
      have eq : first.1 = a.1 + s * (2 * j + 1 : Nat) ∧
          second.1 = a.1 + s * (2 * j + 1 : Nat) := by
        rcases which with ⟨rfl, rfl⟩ | ⟨rfl, rfl⟩ <;> exact ⟨rfl, rfl⟩
      rcases there with there | there <;> rw [there] at column <;>
        rcases line.unit with rfl | rfl <;> omega

theorem InRow.reverse : InRow m b a (-s) n where
  unit := by rcases line.unit with rfl | rfl <;> decide
  some' := line.some'
  column := by rw [line.column]; ring
  row := line.row.symm
  insideA := line.insideB
  insideB := line.insideA

theorem InRow.same (early : k ≤ 2 * n) : rowWay m b (-s) k = rowWay m a s (2 * n - k) := by
  have column : b.1 + -s * (k : Nat) = a.1 + s * (2 * n - k : Nat) := by
    rw [line.column, Nat.cast_sub early]
    ring
  have parity : b.1 % 2 = a.1 % 2 := by
    rw [line.column]
    rcases line.unit with rfl | rfl <;> omega
  rw [rowWay, rowWay, column, parity, line.row]
  by_cases even : k % 2 = 0
  · rw [if_pos even, if_pos (by omega)]
  · rw [if_neg even, if_neg (by omega)]

theorem InRow.traceLOS (general : Hex → Hex → List Hex) :
    traceLOS m general a b = some (walk (rowWay m a s) 0 (2 * n)) := by
  have column := line.column
  have some' := line.some'
  have columns : a.1 ≠ b.1 := by rcases line.unit with rfl | rfl <;> omega
  have right : (if a.1 < b.1 then 1 else -1) = s := by
    rcases line.unit with rfl | rfl <;> split <;> omega
  have rounds : (b.1 - a.1).natAbs = 2 * n := by rcases line.unit with rfl | rfl <;> omega
  have fits : IsTieRow a b := by
    refine ⟨?_, line.row⟩
    rw [← Int.natAbs_eq_zero, Int.natAbs_tmod, rounds]
    exact Nat.mul_mod_right 2 n
  have ran := tieRow_eq (m := m) (a := a) (j := 0) line.unit line.insideA.1.1
    (column ▸ line.insideB.1.1) (show n - 0 < 2 * n + 1 by omega) (Nat.zero_le n)
  rw [Tracing.traceLOS, if_neg (fun both => columns both.1), if_neg columns, if_pos fits, right,
    rounds, column, ← line.row]
  simpa using ran

end

end InRow

/-! ## Columns -/

structure InColumn (m : HexMap) (a b : Hex) (s : Int) (n : Nat) : Prop where
  unit : s = 1 ∨ s = -1
  some' : 0 < n
  column : a.1 = b.1
  row : b.2 = a.2 + s * n
  insideA : Inside m a
  insideB : Inside m b

section InColumn

variable {m : HexMap} {a b : Hex} {s : Int} {n k : Nat}

section

variable (line : InColumn m a b s n)
include line

theorem InColumn.exactPath : ExactPath m a b (walk (columnWay a s) 0 n) := by
  obtain ⟨unit, some', column, row, insideA, insideB⟩ := line
  have inside : ∀ k ≤ n, Inside m (columnWay a s k) := by
    intro k early
    unfold Inside at *
    refine ⟨insideA.1, ?_⟩
    simp only [columnWay]
    rcases unit with rfl | rfl <;> omega
  refine exactPath_of_way (by simp [columnWay]) (Prod.ext column row.symm) some' inside ?_ ?_ ?_
  · intro k early
    rw [adjacent_iff (inside k early.le).1.1]
    refine Or.inl ⟨rfl, ?_⟩
    simp only [columnWay]
    push_cast
    rcases unit with rfl | rfl <;> omega
  · unfold Inside at insideA insideB
    rcases unit with rfl | rfl <;> omega
  · intro first second one two between
    obtain ⟨beside, across, -⟩ := between
    rw [adjacent_iff_twice one.1.1] at beside
    have far : twiceY b - twiceY a ≠ 0 := by
      rw [twiceY_of_low insideA.1.1, twiceY_of_low insideB.1.1, column]
      rcases unit with rfl | rfl <;> omega
    rw [column, sub_self, mul_zero, zero_add] at across
    have level := (mul_eq_zero.mp across).resolve_right far
    rw [twiceY_of_low one.1.1, twiceY_of_low two.1.1] at level
    omega

theorem InColumn.reverse : InColumn m b a (-s) n where
  unit := by rcases line.unit with rfl | rfl <;> decide
  some' := line.some'
  column := line.column.symm
  row := by rw [line.row]; ring
  insideA := line.insideB
  insideB := line.insideA

theorem InColumn.same (early : k ≤ n) : columnWay b (-s) k = columnWay a s (n - k) := by
  refine Prod.ext line.column.symm ?_
  simp only [columnWay]
  rw [line.row, Nat.cast_sub early]
  ring

theorem InColumn.traceLOS (general : Hex → Hex → List Hex) :
    traceLOS m general a b = some (walk (columnWay a s) 0 n) := by
  have rows : a.2 ≠ b.2 := by
    have row := line.row
    have some' := line.some'
    rcases line.unit with rfl | rfl <;> omega
  obtain ⟨s', n', unit, row, some', path⟩ := column_eq line.column rows
  have eq : s' = s ∧ n' = n := by
    have row' := line.row
    rcases line.unit with rfl | rfl <;> rcases unit with rfl | rfl <;> omega
  obtain ⟨rfl, rfl⟩ := eq
  rw [Tracing.traceLOS, if_neg (fun both => rows both.2), if_pos line.column, path]

end

end InColumn

/-! ## The trace -/

/-- `TraceLOS` between two different hexes of the map in an exact direction: both ways end,
with paths as they should be, and the way back takes the same hexes, or, where the line runs
between two of the same height and is no row, the other one of them. -/
theorem exactLines (m : HexMap) (general : Hex → Hex → List Hex) {a b : Hex}
    (insideA : Inside m a) (insideB : Inside m b) (different : a ≠ b)
    (exact : a.1 = b.1 ∨ IsTieRow a b ∨ IsTieLine a b) :
    ∃ path back, traceLOS m general a b = some path ∧ traceLOS m general b a = some back ∧
      ExactPath m a b path ∧ ExactPath m b a back ∧
      List.Forall₂ (SameOrTied m a b) path.dropLast.reverse back.dropLast := by
  by_cases column : a.1 = b.1
  · have rows : a.2 ≠ b.2 := fun row => different (Prod.ext column row)
    obtain ⟨s, n, unit, row, some', -⟩ := column_eq column rows
    have line : InColumn m a b s n := ⟨unit, some', column, row, insideA, insideB⟩
    exact ⟨_, _, line.traceLOS general, line.reverse.traceLOS general, line.exactPath,
      line.reverse.exactPath, Stride.walk_back fun k _ early => Or.inl (line.same early.le)⟩
  · rcases exact with same | ⟨even, row⟩ | slanted
    · exact absurd same column
    · obtain ⟨s, n, line⟩ : ∃ s n, InRow m a b s n := by
        have even' : (b.1 - a.1).natAbs % 2 = 0 := by
          rw [← Int.natAbs_eq_zero, Int.natAbs_tmod] at even
          exact even
        by_cases right : a.1 < b.1
        · exact ⟨1, ((b.1 - a.1) / 2).toNat, Or.inl rfl, by omega, by push_cast; omega, row,
            insideA, insideB⟩
        · exact ⟨-1, ((a.1 - b.1) / 2).toNat, Or.inr rfl, by omega, by push_cast; omega, row,
            insideA, insideB⟩
      exact ⟨_, _, line.traceLOS general, line.reverse.traceLOS general, line.exactPath,
        line.reverse.exactPath, Stride.walk_back fun k _ early => Or.inl (line.same early.le)⟩
    · obtain ⟨sx, sy, n, line⟩ : ∃ sx sy n, Slanted m a b sx sy n := by
        rw [isTieLine_iff insideA.1.1] at slanted
        have unit : ∀ positive : Prop, [Decidable positive] →
            (if positive then (1 : Int) else -1) = 1 ∨ (if positive then (1 : Int) else -1) = -1 := by
          intro positive _
          split
          · exact Or.inl rfl
          · exact Or.inr rfl
        refine ⟨if a.1 < b.1 then 1 else -1, if a.2 < b.2 then 1 else -1, (b.1 - a.1).natAbs,
          unit _, unit _, by omega, ?_, ?_, insideA, insideB⟩
        · split <;> omega
        · split <;> omega
      exact ⟨_, _, line.traceLOS general, line.reverse.traceLOS general, line.exactPath,
        line.reverse.exactPath, Stride.walk_back fun k positive early =>
          line.sameOrTied positive early⟩

/-- A map of two columns of grassland, with a hill of this height beside its middle. -/
def meadow (hill : CChar) : HexMap where
  map := [[(grassland, 0), (grassland, 0)], [(grassland, hill), (grassland, 0)],
    [(grassland, 0), (grassland, 0)]]
  mapname := []
  mapWidth := 2
  mapHeight := 3
  temp := 0
  grav := 0
  flags := 0
  mapobj := fun _ => []
  mechs := []

/-- From the corner of a map to the other one, past a hill. -/
theorem exactLines_hill :
    ∃ path back, traceLOS (meadow 3) (fun _ _ => []) (0, 0) (1, 2) = some path ∧
      traceLOS (meadow 3) (fun _ _ => []) (1, 2) (0, 0) = some back ∧
      ExactPath (meadow 3) (0, 0) (1, 2) path ∧ ExactPath (meadow 3) (1, 2) (0, 0) back ∧
      List.Forall₂ (SameOrTied (meadow 3) (0, 0) (1, 2)) path.dropLast.reverse back.dropLast :=
  exactLines (meadow 3) (fun _ _ => []) ⟨⟨by decide, by decide⟩, by decide, by decide⟩
    ⟨⟨by decide, by decide⟩, by decide, by decide⟩ (by decide) (by decide)

/-- On a flat map the two ways take different hexes. -/
theorem traceLOS_flat :
    IsTieLine (0, 0) (1, 2) ∧
      traceLOS (meadow 0) (fun _ _ => []) (0, 0) (1, 2) = some [(1, 1), (1, 2)] ∧
      traceLOS (meadow 0) (fun _ _ => []) (1, 2) (0, 0) = some [(0, 1), (0, 0)] := by
  decide

end BattletechMux.Tracing
