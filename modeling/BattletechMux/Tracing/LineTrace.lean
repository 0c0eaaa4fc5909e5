/-
Module: BattletechMux.Tracing.LineTrace
Purpose: `TraceLOS` of mech.lostracer.c in the directions that it handles with integers: to the hex
  itself, along a column, and in the directions in which the line runs between two hexes every other
  step.
-/
import BattletechMux.MapFile.Bridges

namespace BattletechMux.Tracing

open BattletechMux.MapFile

abbrev Hex := Int × Int

/-- `BaseElev` and `Elevation`. -/
def elevation (m : HexMap) (hex : Hex) : Int :=
  let terr := m.getRTerrain hex.1.toNat hex.2.toNat
  let elev := (m.getElevation hex.1.toNat hex.2.toNat).toInt
  if terr = water then -elev else if terr = ice then -elev else elev

/-- What `Store_BestOf` asks of a hex. -/
def outside (m : HexMap) (hex : Hex) : Bool :=
  hex.1 < 0 ∨ (m.mapWidth : Int) ≤ hex.1 ∨ hex.2 < 0 ∨ (m.mapHeight : Int) ≤ hex.2

/-- The hex that `Store_BestOf` stores. -/
def bestOf (m : HexMap) (first second : Hex) : Hex :=
  if outside m first then second
  else if outside m second then first
  else if elevation m second < elevation m first then first
  else second

def column (ax ay tox : Int) : List Hex :=
  if tox < ay then (List.range (ay - 1 - tox).toNat).map fun k : Nat => (ax, ay - 1 - k)
  else (List.range (tox - (ay + 1)).toNat).map fun k : Nat => (ax, ay + 1 + k)

/-- The loop of the 90 degree tie directions; `limit` bounds it. -/
def tieRow (m : HexMap) (tox toy i : Int) : Nat → Int → Option (List Hex)
  | 0, _ => none
  | limit + 1, currx =>
    if currx ≠ tox then
      (tieRow m tox toy i limit (currx + 2 * i)).map fun rest =>
        bestOf m (currx + 1 * i, toy - currx.tmod 2) (currx + 1 * i, toy - currx.tmod 2 + 1) ::
          (currx + 2 * i, toy) :: rest
    else some []

/-- The loop of the 30, 150, 210 and 330 degree tie directions; `limit` bounds it. -/
def tieLine (m : HexMap) (tox toy xmul ymul : Int) : Nat → Int → Int → Option (List Hex)
  | 0, _, _ => none
  | limit + 1, currx, curry =>
    if currx ≠ tox ∧ curry ≠ toy then
      let best := bestOf m (currx, curry + ymul) (currx + xmul,
        if ymul = 1 then curry + 1 - currx.tmod 2 else curry - currx.tmod 2)
      let nexty := curry + if ymul = 1 then 2 - currx.tmod 2 else -1 - currx.tmod 2
      let nextx := currx + xmul
      if nextx = tox ∧ nexty = toy then
        (tieLine m tox toy xmul ymul limit nextx nexty).map fun rest => best :: rest
      else (tieLine m tox toy xmul ymul limit nextx nexty).map fun rest =>
        best :: (nextx, nexty) :: rest
    else some [(currx, curry)]

def IsTieRow (a b : Hex) : Prop := (b.1 - a.1).tmod 2 = 0 ∧ a.2 = b.2

/-- The test for the 30, 150, 210 and 330 degree tie directions. -/
def IsTieLine (a b : Hex) : Prop :=
  (b.2 - a.2).natAbs = 3 * (b.1 - a.1).natAbs / 2 + ((b.1 - a.1).tmod 2).natAbs *
    (if b.2 < a.2 then a.1.tmod 2 else 1 - a.1.tmod 2).natAbs

instance (a b : Hex) : Decidable (IsTieRow a b) :=
  inferInstanceAs (Decidable (_ ∧ _))

instance (a b : Hex) : Decidable (IsTieLine a b) :=
  inferInstanceAs (Decidable (_ = _))

/-- The hexes that TraceLOS stores; `general` is what it stores for a line of no special
direction. -/
def traceLOS (m : HexMap) (general : Hex → Hex → List Hex) (a b : Hex) : Option (List Hex) :=
  if a.1 = b.1 ∧ a.2 = b.2 then some [b]
  else if a.1 = b.1 then some (column a.1 a.2 b.2 ++ [b])
  else if IsTieRow a b then
    tieRow m b.1 b.2 (if a.1 < b.1 then 1 else -1) ((b.1 - a.1).natAbs + 1) a.1
  else if IsTieLine a b then
    tieLine m b.1 b.2 (if a.1 < b.1 then 1 else -1) (if a.2 < b.2 then 1 else -1)
      ((b.1 - a.1).natAbs + 1) a.1 a.2
  else some (general a b)

end BattletechMux.Tracing
