/-
Module: BattletechMux.MapFile.Bridges
Purpose: What `make_bridges` of map.c has to do with straight hex lines.
-/
import BattletechMux.Foundation.Sight
import BattletechMux.MapFile.MapRoundTrip

namespace BattletechMux.MapFile

open Sight

section Lines

/-- `GetAdjHex`, its directions from `N` on. -/
def getAdjHex (dir : Nat) (hex : Int × Int) : Int × Int :=
  match dir with
  | 0 => (hex.1, hex.2 - 1)
  | 1 => (hex.1 + 1, hex.2 - hex.1.tmod 2)
  | 2 => (hex.1 + 1, hex.2 - hex.1.tmod 2 + 1)
  | 3 => (hex.1, hex.2 + 1)
  | 4 => (hex.1 - 1, hex.2 - hex.1.tmod 2 + 1)
  | _ => (hex.1 - 1, hex.2 - hex.1.tmod 2)

variable (terrain : Nat → Nat → CChar) (width height : Nat)

variable {terrain width height}

end Lines

namespace HexMap

variable {m : HexMap}

theorem map_ext {m' : HexMap} (filled : m.Filled) (filled' : m'.Filled)
    (width : m'.mapWidth = m.mapWidth) (height : m'.mapHeight = m.mapHeight)
    (same : ∀ x y, x < m.mapWidth → y < m.mapHeight → m'.hex x y = m.hex x y) :
    m'.map = m.map := by
  refine List.ext_getElem (by rw [filled.1, filled'.1, height]) fun y below' below => ?_
  have low : y < m.mapHeight := filled.1 ▸ below
  have wide := filled.2 _ (List.getElem_mem below)
  have wide' := filled'.2 _ (List.getElem_mem below')
  refine List.ext_getElem (by rw [wide, wide', width]) fun x hin' hin => ?_
  have there := same x y (wide ▸ hin) low
  simpa [hex, List.getD_eq_getElem?_getD, List.getElem?_eq_getElem, below, below', hin,
    hin'] using there

theorem Paved.unique {m₁ m₂ : HexMap} {hexes₁ hexes₂ : List (Nat × Nat)}
    (fst : Paved m m₁ hexes₁) (snd : Paved m m₂ hexes₂)
    (same : ∀ hex, hex ∈ hexes₁ ↔ hex ∈ hexes₂) : m₁ = m₂ := by
  have width₁ : m₁.mapWidth = m.mapWidth := by rw [fst.rest]
  have height₁ : m₁.mapHeight = m.mapHeight := by rw [fst.rest]
  have width₂ : m₂.mapWidth = m.mapWidth := by rw [snd.rest]
  have height₂ : m₂.mapHeight = m.mapHeight := by rw [snd.rest]
  have map : m₁.map = m₂.map := by
    refine map_ext snd.filled fst.filled (by rw [width₁, width₂]) (by rw [height₁, height₂])
      fun x y _ _ => ?_
    simp only [fst.hex, snd.hex, same]
  rw [fst.rest, snd.rest, map]

/-- The hexes in the order of `make_bridges`. -/
def hexes (m : HexMap) : List (Nat × Nat) :=
  (List.range m.mapWidth).flatMap fun x => (List.range m.mapHeight).map fun y => (x, y)

theorem mem_hexes (m : HexMap) (x y : Nat) :
    (x, y) ∈ m.hexes ↔ x < m.mapWidth ∧ y < m.mapHeight := by
  simp [hexes]

section

variable (filled : m.Filled)
include filled

end

end HexMap

section Narrow

variable {terrain : Nat → Nat → CChar} {width height : Nat}

end Narrow

namespace HexMap

end HexMap

end BattletechMux.MapFile
