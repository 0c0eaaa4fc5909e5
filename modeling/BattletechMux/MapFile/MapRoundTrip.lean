/-
Module: BattletechMux.MapFile.MapRoundTrip
Purpose: A map that is saved with `map_savemap` and loaded with `map_load`, into any map: its size
  and its elevations come back, and its terrain as far as the file keeps it, with roads made
  bridges; flags, gravity and temperature come back with the last line.
-/
import BattletechMux.MapFile.Format
import Mathlib.Data.List.Induction

namespace BattletechMux.MapFile

open List hiding map map_eq_map map_map
open Option hiding map map_eq_map map_map

open CText

section Characters

def Graphic (t : CChar) : Prop := 32 ≤ t.toNat ∧ t.toNat < 127

instance (t : CChar) : Decidable (Graphic t) := inferInstanceAs (Decidable (_ ∧ _))

theorem chr_letter (c : CChar) : chr (letter c) = c := by
  revert c
  decide

theorem letter_visible (t : CChar) : Graphic t → t ≠ grassland →
    isSpace (letter t) = false ∧ letter t ≠ '\n' ∧ letter t ≠ '\x00' := by
  revert t
  decide

theorem letter_digit (e : CChar) : 0 ≤ e.toInt → e.toInt < elevations →
    letter (e + chr '0') ≠ '\n' ∧ letter (e + chr '0') ≠ '\x00' := by
  revert e
  decide

/-- The terrain the file keeps of a hex that does not burn or smoke: terrains without a name
become grassland, but the apostrophe is another name of the light forest. -/
def kept (t : CChar) : CChar :=
  if t = 39 then lightForest
  else if getTerrainNameBase t = "Unknown" ∨ t = smoke then grassland
  else t

theorem readTerrain_eq (t : CChar) : readTerrain t = kept t := by
  revert t
  decide

end Characters

section Lines

variable {width : Nat} {rest : List Char}

theorem cString_append {row : List Char} (full : '\x00' ∉ row) (rest : List Char) :
    cString (row ++ rest) = row ++ cString rest := by
  unfold cString
  rw [takeWhile_append_of_pos]
  intro c mem
  simpa using fun (nul : c = '\x00') => full (nul ▸ mem)

theorem cString_eq {row : List Char} (full : '\x00' ∉ row) : cString row = row := by
  have eq := cString_append full []
  rwa [append_nil, show cString [] = [] from rfl, append_nil] at eq

theorem readLines_lines (narrow : width ≤ mapMax) {rows : List (List Char)}
    (wide : ∀ row ∈ rows, row.length = 2 * width) (one : ∀ row ∈ rows, '\n' ∉ row)
    (full : ∀ row ∈ rows, '\x00' ∉ row) :
    readLines width rows.length (rows.flatMap (fun row => row ++ ['\n']) ++ rest) =
      (rows.map fun row => row ++ ['\n'], rest) := by
  induction rows with
  | nil => rfl
  | cons row rows ih =>
    have length := wide row mem_cons_self
    have line : fgets (2 * mapMax + 1)
        ((row :: rows).flatMap (fun row => row ++ ['\n']) ++ rest) =
          (row ++ ['\n'], rows.flatMap (fun row => row ++ ['\n']) ++ rest) := by
      rw [flatMap_cons, append_assoc, append_assoc]
      exact fgets_line (by omega) (one row mem_cons_self)
    have string : cString (row ++ ['\n']) = row ++ ['\n'] := by
      rw [cString_append (full row mem_cons_self)]
      rfl
    have later := ih (fun o mem => wide o (mem_cons_of_mem _ mem))
      (fun o mem => one o (mem_cons_of_mem _ mem))
      fun o mem => full o (mem_cons_of_mem _ mem)
    rw [length_cons, readLines, line]
    simp only [string, length_append, length, length_singleton]
    rw [if_neg (by omega), later]
    rfl

theorem getD_pairs (fst snd : Nat → Char) (rest : List Char) {j : Nat} (below : j < width) :
    ((List.range width).flatMap (fun j => [fst j, snd j]) ++ rest).getD (2 * j) '\x00' =
        fst j ∧
      ((List.range width).flatMap (fun j => [fst j, snd j]) ++ rest).getD (2 * j + 1) '\x00' =
        snd j := by
  induction width generalizing rest with
  | zero => exact absurd below (Nat.not_lt_zero j)
  | succ width ih =>
    rw [range_succ, flatMap_append, append_assoc]
    rcases Nat.lt_succ_iff_lt_or_eq.mp below with lower | rfl
    · exact ih _ lower
    · have length : ((List.range j).flatMap fun j => [fst j, snd j]).length = 2 * j := by
        simp [length_flatMap, Nat.mul_comm]
      simp only [getD_eq_getElem?_getD]
      constructor
      · rw [getElem?_append_right (by omega), length]
        simp
      · rw [getElem?_append_right (by omega), length]
        simp

end Lines

namespace HexMap

/-- A map as the game can have it: its hexes are where its size says, it is not empty, and
commands and files gave its hexes their terrains and elevations. -/
structure InGame (m : HexMap) : Prop extends m.WellFormed where
  width : 1 ≤ m.mapWidth ∧ m.mapWidth ≤ mapMax
  height : 1 ≤ m.mapHeight ∧ m.mapHeight ≤ mapMax
  terrain : ∀ x y, x < m.mapWidth → y < m.mapHeight → Graphic (m.getTerrain x y)
  elevation : ∀ x y, x < m.mapWidth → y < m.mapHeight →
    0 ≤ (m.getElevation x y).toInt ∧ (m.getElevation x y).toInt < elevations
  replaced : ∀ type ∈ decTypes, ∀ o ∈ m.mapobj type, Graphic o.datac

variable {m : HexMap}

/-- The terrain a saved map keeps: a hex on fire is burnt down, eternal fires stay, and a
hex under smoke has what is under it. -/
def settled (m : HexMap) (x y : Nat) : CChar :=
  if m.getTerrain x y = fire then
    if (m.findMapobj x y typeFire).isSome ∨ m.flags &&& mapflagFires = 0 then grassland
    else fire
  else if m.getTerrain x y = smoke then kept (m.getRTerrain x y)
  else kept (m.getTerrain x y)

theorem readTerrain_savedTerrain (m : HexMap) (x y : Nat) :
    readTerrain (m.savedTerrain x y) = m.settled x y := by
  have dot : kept (chr '.') = grassland := by decide
  have burning : kept tFire = grassland := by decide
  have flame : kept fire = fire := by decide
  have clear : kept grassland = grassland := by decide
  have fog : kept smoke = grassland := by decide
  rw [readTerrain_eq]
  unfold savedTerrain settled
  simp only
  by_cases grass : m.getTerrain x y = grassland
  · rw [if_pos grass, grass, if_neg (by decide), if_neg (by decide), dot, clear]
  · rw [if_neg grass]
    by_cases burns : m.getTerrain x y = fire
    · rw [if_pos burns, if_pos burns]
      cases hf : (m.findMapobj x y typeFire).isSome with
      | true => simp [burning]
      | false =>
        by_cases eternal : m.flags &&& mapflagFires = 0
        · simp [eternal, dot]
        · simp only [Bool.false_eq_true, false_or, if_false, if_neg eternal, flame]
    · rw [if_neg burns, if_neg burns]
      by_cases smokes : m.getTerrain x y = smoke
      · rw [if_pos smokes, if_pos smokes]
        split
        · rename_i under
          rcases under with under | under
          · rw [dot, under, clear]
          · rw [dot, under, fog]
        · rfl
      · rw [if_neg smokes, if_neg smokes]

section Saved

variable {x y : Nat}

theorem findDecorations_cases (m : HexMap) (x y : Nat) :
    m.findDecorations x y = 0 ∨
      ∃ type ∈ decTypes, ∃ o ∈ m.mapobj type, m.findDecorations x y = o.datac := by
  unfold findDecorations
  split
  · rename_i o located
    obtain ⟨type, dec, mem⟩ := mem_flatMap.mp (mem_of_find?_eq_some located)
    exact Or.inr ⟨type, dec, o, mem, rfl⟩
  · exact Or.inl rfl

theorem InGame.graphic_getRTerrain (inGame : m.InGame) (right : x < m.mapWidth)
    (low : y < m.mapHeight) : Graphic (m.getRTerrain x y) := by
  have shown := inGame.terrain x y right low
  unfold getRTerrain underlyingTerrain
  split
  · split
    · rename_i hf
      rcases m.findDecorations_cases x y with none' | ⟨type, dec, o, mem, eq⟩
      · exact absurd none' hf
      · rw [eq]
        exact inGame.replaced type dec o mem
    · exact shown
  · exact shown

theorem InGame.savedTerrain_visible (inGame : m.InGame) (right : x < m.mapWidth)
    (low : y < m.mapHeight) :
    Graphic (m.savedTerrain x y) ∧ m.savedTerrain x y ≠ grassland := by
  have shown := inGame.terrain x y right low
  have under := inGame.graphic_getRTerrain right low
  unfold savedTerrain
  simp only
  split
  · decide
  · rename_i rough
    split
    · split
      · decide
      · split <;> decide
    · split
      · split
        · decide
        · rename_i o
          exact ⟨under, fun grass => o (Or.inl grass)⟩
      · exact ⟨shown, rough⟩

theorem savedRow_length (m : HexMap) (i : Nat) : (m.savedRow i).length = 2 * m.mapWidth := by
  simp [savedRow, length_flatMap, Nat.mul_comm]

theorem InGame.savedRow_chars (inGame : m.InGame) (low : y < m.mapHeight) {c : Char}
    (mem : c ∈ m.savedRow y) : c ≠ '\n' ∧ c ≠ '\x00' := by
  obtain ⟨j, right, listed⟩ := mem_flatMap.mp mem
  rw [mem_range] at right
  obtain ⟨graphic, rough⟩ := inGame.savedTerrain_visible right low
  have visible := letter_visible _ graphic rough
  have elevation := inGame.elevation j y right low
  rcases mem_cons.mp listed with rfl | digit
  · exact visible.2
  · obtain rfl := mem_singleton.mp digit
    exact letter_digit _ elevation.1 elevation.2

theorem readRow_savedRow (m : HexMap) (i : Nat) (rest : List Char) :
    readRow m.mapWidth (m.savedRow i ++ rest) =
      (List.range m.mapWidth).map fun j => (m.settled j i, m.getElevation j i) := by
  apply map_congr_left
  intro j mem
  have pairs := getD_pairs (fun j => letter (m.savedTerrain j i))
    (fun j => letter (m.getElevation j i + chr '0')) rest (mem_range.mp mem)
  rw [savedRow, pairs.1, pairs.2, readHex, chr_letter, chr_letter, readTerrain_savedTerrain,
    BitVec.add_sub_cancel]

def savedRows (m : HexMap) : List (List Char) := (List.range m.mapHeight).map m.savedRow

section

variable (inGame : m.InGame)
include inGame

theorem InGame.mapSavemap_eq :
    m.mapSavemap.1 = decimal m.mapHeight ++ (' ' :: (decimal m.mapWidth ++ ('\n' ::
      (m.savedRows.flatMap (fun row => row ++ ['\n']) ++ m.savedTrailer)))) := by
  have rows : ((List.range m.mapHeight).flatMap fun i => cString (m.savedRow i) ++ ['\n']) =
      m.savedRows.flatMap fun row => row ++ ['\n'] := by
    rw [savedRows, flatMap_map]
    apply flatMap_congr
    intro i mem
    rw [cString_eq fun nul => (inGame.savedRow_chars (mem_range.mp mem) nul).2 rfl]
  simp only [mapSavemap, rows, append_assoc, cons_append]

theorem InGame.rows_start (rest : List Char) :
    (m.savedRows.flatMap (fun row => row ++ ['\n']) ++ rest).dropWhile isSpace =
      m.savedRows.flatMap (fun row => row ++ ['\n']) ++ rest := by
  obtain ⟨height, tall⟩ : ∃ height, m.mapHeight = height + 1 :=
    ⟨m.mapHeight - 1, (Nat.sub_add_cancel inGame.height.1).symm⟩
  obtain ⟨width, wide⟩ : ∃ width, m.mapWidth = width + 1 :=
    ⟨m.mapWidth - 1, (Nat.sub_add_cancel inGame.width.1).symm⟩
  obtain ⟨graphic, rough⟩ := inGame.savedTerrain_visible (x := 0) (y := 0) (by omega) (by omega)
  have visible := (letter_visible _ graphic rough).1
  rw [savedRows, tall, range_succ_eq_map, map_cons, flatMap_cons, savedRow, wide,
    range_succ_eq_map, flatMap_cons]
  simp only [cons_append]
  exact dropWhile_cons_of_neg (by simp [visible])

theorem InGame.scanSize_saved :
    scanSize m.mapSavemap.1 = (some ((m.mapHeight : Int), (m.mapWidth : Int)),
      m.savedRows.flatMap (fun row => row ++ ['\n']) ++ m.savedTrailer) := by
  have height := inGame.height.2
  have width := inGame.width.2
  have tall : stored m.mapHeight = m.mapHeight := by
    apply stored_of_bounds <;> simp only [mapMax] at height <;> omega
  have wide : stored m.mapWidth = m.mapWidth := by
    apply stored_of_bounds <;> simp only [mapMax] at width <;> omega
  rw [inGame.mapSavemap_eq, scanSize, scanInt_decimal _ (stops_cons (by decide) _)]
  simp only
  rw [scanInt_space (by decide), scanInt_decimal _ (stops_cons (by decide) _)]
  simp only
  rw [dropWhile_cons_of_pos (by decide), inGame.rows_start, tall, wide]

theorem InGame.sizeOf_saved :
    sizeOf (some ((m.mapHeight : Int), (m.mapWidth : Int))) = (m.mapHeight, m.mapWidth) := by
  have height := inGame.height
  have width := inGame.width
  rw [sizeOf, if_neg (by omega), Int.toNat_natCast, Int.toNat_natCast]

theorem InGame.readLines_saved :
    readLines m.mapWidth m.mapHeight
        (m.savedRows.flatMap (fun row => row ++ ['\n']) ++ m.savedTrailer) =
      (m.savedRows.map fun row => row ++ ['\n'], m.savedTrailer) := by
  have count : m.savedRows.length = m.mapHeight := by simp [savedRows]
  have row : ∀ row ∈ m.savedRows, ∃ i < m.mapHeight, m.savedRow i = row := by
    intro row mem
    obtain ⟨i, low, rfl⟩ := mem_map.mp mem
    exact ⟨i, mem_range.mp low, rfl⟩
  have read := @readLines_lines m.mapWidth m.savedTrailer inGame.width.2 m.savedRows
    (fun r mem => by
      obtain ⟨i, _, rfl⟩ := row r mem
      exact m.savedRow_length i)
    (fun r mem newline => by
      obtain ⟨i, low, rfl⟩ := row r mem
      exact (inGame.savedRow_chars low newline).1 rfl)
    (fun r mem nul => by
      obtain ⟨i, low, rfl⟩ := row r mem
      exact (inGame.savedRow_chars low nul).2 rfl)
  rwa [count] at read

end

theorem ofInt_toInt (b : BitVec 8) : BitVec.ofInt 8 b.toInt = b := by
  simp

theorem scanTrailer_saved (m : HexMap) :
    scanTrailer m.savedTrailer =
      if m.flags &&& ~~~mapflagMapo = 0 then none
      else some (((m.flags &&& ~~~mapflagMapo).toNat : Int), (m.grav.toNat : Int),
        m.temp.toInt) := by
  unfold savedTrailer
  simp only
  split
  · rfl
  · have byte : ∀ b : BitVec 8, stored (b.toNat : Int) = b.toNat := by
      intro b
      have below := b.isLt
      apply stored_of_bounds <;> omega
    have char : stored m.temp.toInt = m.temp.toInt := by
      have low := m.temp.le_toInt
      have high := m.temp.toInt_lt
      apply stored_of_bounds <;> omega
    simp only [append_assoc, cons_append]
    rw [scanTrailer, scanInt_decimal _ (stops_cons (by decide) _)]
    simp only
    rw [scanInt_space (by decide), scanInt_decimal _ (stops_cons (by decide) _)]
    simp only [bind_eq_bind, bind_some]
    rw [scanInt_space (by decide), scanInt_decimal _ (stops_cons (by decide) _)]
    simp only [bind_some, byte, char]

end Saved

end HexMap

section Bridges

def Alike (t t' : CChar) : Prop :=
  t = t' ∨ ((t = road ∨ t = bridge) ∧ (t' = road ∨ t' = bridge))

variable {terrain terrain' : Nat → Nat → CChar} {width height : Nat}

theorem Alike.water_iff {t t' : CChar} (alike : Alike t t') :
    (t = water ∨ t = ice ↔ t' = water ∨ t' = ice) ∧
      (t ≠ bridge ∧ t ≠ road ↔ t' ≠ bridge ∧ t' ≠ road) := by
  rcases alike with rfl | ⟨rfl | rfl, rfl | rfl⟩
  · exact ⟨Iff.rfl, Iff.rfl⟩
  all_goals decide

section

variable (alike : ∀ x y, x < width → y < height → Alike (terrain x y) (terrain' x y))
include alike

theorem waterLoop_congr (dir : Int × Int) (max rounds i : Nat) (x y : Int) :
    waterLoop terrain width height dir max rounds i x y =
      waterLoop terrain' width height dir max rounds i x y := by
  induction rounds generalizing i x y with
  | zero => rfl
  | succ rounds ih =>
    unfold waterLoop
    simp only
    generalize x + dir.1 = next
    generalize (if next = 0 ∧ dir.1 ≠ 0 then y + dir.2 - 1 else y + dir.2) = below
    split
    · rfl
    · rename_i hin
      have there := alike next.toNat below.toNat (by omega) (by omega)
      simp only [there.water_iff.1, there.water_iff.2, ih]

theorem eligibleBridgeHex_congr (x y : Nat) :
    eligibleBridgeHex terrain width height x y = eligibleBridgeHex terrain' width height x y := by
  have distance : ∀ dir, waterDistance terrain width height x y dir 4 =
      waterDistance terrain' width height x y dir 4 := fun dir => waterLoop_congr alike _ _ _ _ _ _
  unfold eligibleBridgeHex
  simp only [distance]

end

def bridged (terrain : Nat → Nat → CChar) (width height x y : Nat) : CChar :=
  if terrain x y = road ∧ eligibleBridgeHex terrain width height x y = true then bridge
  else terrain x y

theorem bridged_congr (eq : ∀ x y, x < width → y < height → terrain x y = terrain' x y)
    {x y : Nat} (right : x < width) (low : y < height) :
    bridged terrain width height x y = bridged terrain' width height x y := by
  unfold bridged
  rw [eq x y right low,
    eligibleBridgeHex_congr (fun x y right low => Or.inl (eq x y right low)) x y]

theorem bridged_alike (terrain : Nat → Nat → CChar) (width height x y : Nat) :
    Alike (bridged terrain width height x y) (terrain x y) := by
  unfold bridged
  split
  · rename_i paved
    exact Or.inr ⟨Or.inr rfl, Or.inl paved.1⟩
  · exact Or.inl rfl

namespace HexMap

variable {m : HexMap}

def Filled (m : HexMap) : Prop :=
  m.map.length = m.mapHeight ∧ ∀ row ∈ m.map, row.length = m.mapWidth

theorem hex_setTerrainBase (m : HexMap) (x y : Nat) (t : CChar) (filled : m.Filled)
    (right : x < m.mapWidth) (low : y < m.mapHeight) (x' y' : Nat) :
    (m.setTerrainBase x y t).hex x' y' =
      if x' = x ∧ y' = y then (t, (m.hex x y).2) else m.hex x' y' := by
  have below : y < m.map.length := by
    rw [filled.1]
    exact low
  obtain ⟨row, there⟩ : ∃ row, m.map[y]? = some row :=
    ⟨m.map[y], getElem?_eq_getElem below⟩
  have wide : x < row.length := by
    rw [filled.2 row (mem_of_getElem? there)]
    exact right
  simp only [hex, setTerrainBase, getD_eq_getElem?_getD, getElem?_modify]
  by_cases sameRow : y' = y
  · subst sameRow
    by_cases sameHex : x' = x
    · subst sameHex
      simp [there, wide]
    · simp [there, sameHex, Ne.symm sameHex]
  · simp [sameRow, Ne.symm sameRow]

structure Paved (m m' : HexMap) (hexes : List (Nat × Nat)) : Prop where
  rest : m' = { m with map := m'.map }
  filled : m'.Filled
  hex : ∀ x y, m'.hex x y =
    if (x, y) ∈ hexes then (bridged m.getTerrain m.mapWidth m.mapHeight x y, (m.hex x y).2)
    else m.hex x y

theorem Paved.alike {m' : HexMap} {hexes : List (Nat × Nat)} (paved : Paved m m' hexes)
    (x y : Nat) : Alike (m'.getTerrain x y) (m.getTerrain x y) := by
  unfold getTerrain
  rw [paved.hex]
  split
  · exact bridged_alike _ _ _ _ _
  · exact Or.inl rfl

theorem Paved.road_of_road {m' : HexMap} {hexes : List (Nat × Nat)} (paved : Paved m m' hexes)
    {x y : Nat} (road' : m'.getTerrain x y = road) : m.getTerrain x y = road := by
  unfold getTerrain at road' ⊢
  rw [paved.hex] at road'
  split at road'
  · unfold bridged at road'
    split at road'
    · exact absurd road' (show bridge ≠ road by decide)
    · exact road'
  · exact road'

theorem Filled.setTerrainBase (filled : m.Filled) (x y : Nat) (t : CChar) :
    (m.setTerrainBase x y t).Filled := by
  refine ⟨?_, fun row mem => ?_⟩
  · simpa [HexMap.setTerrainBase] using filled.1
  · obtain ⟨i, hf⟩ := mem_iff_getElem?.mp mem
    simp only [HexMap.setTerrainBase, getElem?_modify, Option.map_eq_map,
      map_eq_some_iff] at hf
    obtain ⟨old, there, rfl⟩ := hf
    have wide := filled.2 old (mem_of_getElem? there)
    split
    · simpa [HexMap.setTerrainBase] using wide
    · exact wide

theorem bridgeHex_foldl (filled : m.Filled) (hexes : List (Nat × Nat))
    (hin : ∀ hex ∈ hexes, hex.1 < m.mapWidth ∧ hex.2 < m.mapHeight) :
    Paved m (hexes.foldl bridgeHex m) hexes := by
  induction hexes using List.reverseRecOn with
  | nil => exact ⟨rfl, filled, fun x y => by simp⟩
  | append_singleton hexes hex ih =>
    have paved := ih fun o mem =>
      hin o (mem_append_left _ mem)
    have here := hin hex (mem_append_right _ (mem_singleton_self hex))
    rw [foldl_append, foldl_cons, foldl_nil]
    generalize List.foldl bridgeHex m hexes = m' at paved
    have width : m'.mapWidth = m.mapWidth := by rw [paved.rest]
    have height : m'.mapHeight = m.mapHeight := by rw [paved.rest]
    have eligible : eligibleBridgeHex m'.getTerrain m'.mapWidth m'.mapHeight hex.1 hex.2 =
        eligibleBridgeHex m.getTerrain m.mapWidth m.mapHeight hex.1 hex.2 := by
      rw [width, height]
      exact eligibleBridgeHex_congr (fun x y _ _ => paved.alike x y) _ _
    have elevation : (m'.hex hex.1 hex.2).2 = (m.hex hex.1 hex.2).2 := by
      rw [paved.hex]
      split <;> rfl
    -- the hex is bridged now, whether it was before or not
    have terrain : (m'.bridgeHex hex).hex hex.1 hex.2 =
        (bridged m.getTerrain m.mapWidth m.mapHeight hex.1 hex.2, (m.hex hex.1 hex.2).2) := by
      have pre := paved.hex hex.1 hex.2
      unfold bridgeHex
      rw [eligible]
      split
      · rename_i road
        have wasRoad := paved.road_of_road road.1
        rw [hex_setTerrainBase m' _ _ _ paved.filled (width ▸ here.1) (height ▸ here.2),
          if_pos ⟨rfl, rfl⟩, elevation, bridged, if_pos ⟨wasRoad, road.2⟩]
      · rename_i stays
        by_cases done : (hex.1, hex.2) ∈ hexes
        · rw [pre, if_pos done]
        · rw [if_neg done] at pre
          have eq : m'.getTerrain hex.1 hex.2 = m.getTerrain hex.1 hex.2 :=
            congrArg Prod.fst pre
          rw [eq] at stays
          rw [pre, bridged, if_neg stays]
          rfl
    have others : ∀ x y, (x, y) ≠ hex → (m'.bridgeHex hex).hex x y = m'.hex x y := by
      intro x y ne
      unfold bridgeHex
      split
      · rw [hex_setTerrainBase m' _ _ _ paved.filled (width ▸ here.1) (height ▸ here.2), if_neg]
        exact fun eq => ne (Prod.ext eq.1 eq.2)
      · rfl
    refine ⟨?_, ?_, ?_⟩
    · unfold bridgeHex
      split
      · rw [HexMap.setTerrainBase, paved.rest]
      · exact paved.rest
    · unfold bridgeHex
      split
      · exact paved.filled.setTerrainBase _ _ _
      · exact paved.filled
    · intro x y
      by_cases eq : (x, y) = hex
      · subst eq
        rw [terrain, if_pos (by simp)]
      · rw [others x y eq, paved.hex]
        simp only [mem_append, mem_singleton, eq, or_false]

theorem makeBridges_spec (filled : m.Filled) :
    m.makeBridges = { m with map := m.makeBridges.map } ∧ m.makeBridges.Filled ∧
      ∀ x y, x < m.mapWidth → y < m.mapHeight →
        m.makeBridges.hex x y =
          (bridged m.getTerrain m.mapWidth m.mapHeight x y, (m.hex x y).2) := by
  have listed : ∀ x y, (x, y) ∈ ((List.range m.mapWidth).flatMap fun x =>
      (List.range m.mapHeight).map fun y => (x, y)) ↔ x < m.mapWidth ∧ y < m.mapHeight := by
    intro x y
    simp
  have paved := bridgeHex_foldl filled _ fun hex mem => (listed hex.1 hex.2).mp mem
  refine ⟨paved.rest, paved.filled, fun x y right low => ?_⟩
  exact (paved.hex x y).trans (if_pos ((listed x y).mpr ⟨right, low⟩))

end HexMap

end Bridges

namespace HexMap

variable {m target : HexMap} {blank : Shown} {mapname : List Char}

def settledRows (m : HexMap) : List (List Shown) :=
  (List.range m.mapHeight).map fun i =>
    (List.range m.mapWidth).map fun j => (m.settled j i, m.getElevation j i)

theorem loadedRows_saved (m : HexMap) (blank : Shown) :
    loadedRows blank m.mapHeight m.mapWidth (m.savedRows.map fun row => row ++ ['\n']) =
      m.settledRows := by
  have count : m.savedRows.length = m.mapHeight := by simp [savedRows]
  rw [loadedRows, length_map, count, Nat.sub_self, replicate_zero, append_nil,
    savedRows, List.map_map, List.map_map]
  exact map_congr_left fun i _ => m.readRow_savedRow i ['\n']

/-- A map into which a saved map is loaded, before its bridges are made. -/
def reloaded (m target : HexMap) : HexMap :=
  { ({ target.delMapobjs with
        map := m.settledRows
        flags :=
          if burns m.mapWidth (m.savedRows.map fun row => row ++ ['\n']) then
            target.delMapobjs.flags ||| mapflagFires
          else target.delMapobjs.flags
        grav := 100
        temp := 20 } : HexMap).setTrailer (scanTrailer m.savedTrailer) with
    mapHeight := m.mapHeight
    mapWidth := m.mapWidth }

theorem InGame.mapLoad_saved (inGame : m.InGame) (target : HexMap) (blank : Shown)
    (mapname : List Char) :
    target.mapLoad blank mapname (some m.mapSavemap.1) =
      (0, { (if (m.reloaded target).flags &&& mapflagNobridgify = 0 then
          (m.reloaded target).makeBridges else m.reloaded target) with
        mapname := mapname.take mapNameSize }) := by
  have count : (m.savedRows.map fun row => row ++ ['\n']).length = m.mapHeight := by
    simp [savedRows]
  unfold mapLoad
  simp only [inGame.scanSize_saved, inGame.sizeOf_saved, inGame.readLines_saved,
    loadedRows_saved]
  rw [if_neg (fun short => short count)]
  rfl

theorem reloaded_map (m target : HexMap) : (m.reloaded target).map = m.settledRows := by
  unfold reloaded
  cases scanTrailer m.savedTrailer <;> rfl

theorem reloaded_trailer (m target : HexMap) :
    if m.flags &&& ~~~mapflagMapo = 0 then
      (m.reloaded target).grav = 100 ∧ (m.reloaded target).temp = 20
    else (m.reloaded target).flags = m.flags &&& ~~~mapflagMapo ∧
      (m.reloaded target).grav = m.grav ∧ (m.reloaded target).temp = m.temp := by
  have trailer := m.scanTrailer_saved
  unfold reloaded
  split
  · rename_i none'
    rw [trailer, if_pos none']
    exact ⟨rfl, rfl⟩
  · rename_i some'
    rw [trailer, if_neg some']
    refine ⟨?_, ?_, ?_⟩
    · exact (BitVec.ofInt_natCast 8 _).trans (BitVec.ofNat_toNat _ _ ▸ by simp)
    · exact (BitVec.ofInt_natCast 8 _).trans (by simp)
    · exact ofInt_toInt m.temp

theorem settledRows_filled (m target : HexMap) : (m.reloaded target).Filled := by
  refine ⟨?_, fun row mem => ?_⟩
  · rw [reloaded_map]
    simp [settledRows, reloaded]
  · rw [reloaded_map] at mem
    obtain ⟨i, _, rfl⟩ := mem_map.mp mem
    simp [reloaded]

theorem hex_reloaded (m target : HexMap) {x y : Nat} (right : x < m.mapWidth)
    (low : y < m.mapHeight) :
    (m.reloaded target).hex x y = (m.settled x y, m.getElevation x y) := by
  rw [hex, reloaded_map, settledRows]
  simp [getD_eq_getElem?_getD, right, low]

/-- What saving a map and loading the file into another map gives: no failure, the same
size, the same elevations, the terrain the file keeps with its bridges made unless the flags
forbid it, and the flags, gravity and temperature if there are flags to write. -/
structure Resembles (m : HexMap) (result : Int × HexMap) : Prop where
  success : result.1 = 0
  width : result.2.mapWidth = m.mapWidth
  height : result.2.mapHeight = m.mapHeight
  filled : result.2.Filled
  elevation : ∀ x y, x < m.mapWidth → y < m.mapHeight →
    result.2.getElevation x y = m.getElevation x y
  terrain : ∀ x y, x < m.mapWidth → y < m.mapHeight →
    result.2.getTerrain x y =
      if result.2.flags &&& mapflagNobridgify = 0 then
        bridged m.settled m.mapWidth m.mapHeight x y
      else m.settled x y
  trailer : m.flags &&& ~~~mapflagMapo ≠ 0 →
    result.2.flags = m.flags &&& ~~~mapflagMapo ∧ result.2.grav = m.grav ∧
      result.2.temp = m.temp
  default : m.flags &&& ~~~mapflagMapo = 0 → result.2.grav = 100 ∧ result.2.temp = 20

theorem resembles_of_hex {final : HexMap}
    (rest : final = { m.reloaded target with map := final.map }) (filled : final.Filled)
    (hexes : ∀ x y, x < m.mapWidth → y < m.mapHeight →
      final.hex x y = (if (m.reloaded target).flags &&& mapflagNobridgify = 0 then
        bridged m.settled m.mapWidth m.mapHeight x y else m.settled x y, m.getElevation x y)) :
    m.Resembles (0, { final with mapname := mapname }) := by
  have trailer := m.reloaded_trailer target
  have flags : final.flags = (m.reloaded target).flags := by rw [rest]
  have grav : final.grav = (m.reloaded target).grav := by rw [rest]
  have temp : final.temp = (m.reloaded target).temp := by rw [rest]
  refine ⟨rfl, ?_, ?_, filled, fun x y right low => ?_, fun x y right low => ?_,
    fun some' => ?_, fun none' => ?_⟩
  · rw [rest]
    rfl
  · rw [rest]
    rfl
  · have elevation : final.getElevation x y = m.getElevation x y := by
      rw [getElevation, hexes x y right low]
    exact elevation
  · simp only [flags]
    exact congrArg Prod.fst (hexes x y right low)
  · rw [if_neg some'] at trailer
    exact ⟨flags.trans trailer.1, grav.trans trailer.2.1, temp.trans trailer.2.2⟩
  · rw [if_pos none'] at trailer
    exact ⟨grav.trans trailer.1, temp.trans trailer.2⟩

/-- A saved map is loaded into any other map as far as the file keeps it. -/
theorem mapLoad_mapSavemap (m target : HexMap) (blank : Shown) (mapname : List Char)
    (inGame : m.InGame) :
    m.Resembles (target.mapLoad blank mapname (some m.mapSavemap.1)) := by
  rw [inGame.mapLoad_saved]
  split
  · rename_i allowed
    obtain ⟨rest, filled, hexes⟩ := makeBridges_spec (settledRows_filled m target)
    refine resembles_of_hex rest filled fun x y right low => ?_
    rw [hexes x y right low, if_pos allowed, hex_reloaded m target right low]
    refine Prod.ext ?_ rfl
    exact bridged_congr (fun x y right low => congrArg Prod.fst (hex_reloaded m target right low))
      right low
  · rename_i forbidden
    refine resembles_of_hex rfl (settledRows_filled m target) fun x y right low => ?_
    rw [hex_reloaded m target right low, if_neg forbidden]

/-- A road through a river, on a dark map with a gravity of its own. -/
def ford : HexMap where
  map := [[(water, 1)], [(road, 0)], [(water, 2)]]
  mapname := []
  mapWidth := 1
  mapHeight := 3
  temp := -10
  grav := 50
  flags := 32
  mapobj := fun _ => []
  mechs := []

theorem ford_inGame : ford.InGame where
  rows := rfl
  columns := by decide
  objects _ o mem := absurd mem not_mem_nil
  mechs := by decide
  width := by decide
  height := by decide
  terrain x y right low := by
    have lists : ∀ x < 1, ∀ y < 3, Graphic (ford.getTerrain x y) := by decide
    exact lists x right y low
  elevation x y right low := by
    have lists : ∀ x < 1, ∀ y < 3, 0 ≤ (ford.getElevation x y).toInt ∧
        (ford.getElevation x y).toInt < elevations := by decide
    exact lists x right y low
  replaced _ _ o mem := absurd mem not_mem_nil

/-- The ford, loaded into a small map. -/
theorem mapLoad_mapSavemap_ford :
    ford.Resembles (small.mapLoad (grassland, 0) [] (some ford.mapSavemap.1)) :=
  mapLoad_mapSavemap ford small (grassland, 0) [] ford_inGame

def ComesBack (m : HexMap) (result : Int × HexMap) : Prop :=
  result.1 = 0 ∧ result.2.mapWidth = m.mapWidth ∧ result.2.mapHeight = m.mapHeight ∧
    (∀ x y, x < m.mapWidth → y < m.mapHeight →
      result.2.getElevation x y = m.getElevation x y ∧
        result.2.getRTerrain x y = m.getRTerrain x y) ∧
    result.2.flags = m.flags ∧ result.2.grav = m.grav ∧ result.2.temp = m.temp

def blaze : HexMap :=
  { small with
    map := [[(fire, 0), (grassland, 0)]]
    flags := 1
    mapobj := fun type =>
      if type = typeFire then [{ (default : MapObj) with datac := heavyForest }] else [] }

theorem blaze_inGame : blaze.InGame where
  rows := rfl
  columns := by decide
  objects := by decide
  mechs := by decide
  width := by decide
  height := by decide
  terrain x y right low := by
    have lists : ∀ x < 2, ∀ y < 1, Graphic (blaze.getTerrain x y) := by decide
    exact lists x right y low
  elevation x y right low := by
    have lists : ∀ x < 2, ∀ y < 1, 0 ≤ (blaze.getElevation x y).toInt ∧
        (blaze.getElevation x y).toInt < elevations := by decide
    exact lists x right y low
  replaced := by decide

/-- A burning forest comes back as grassland and without the flag for its objects, a ford as
a bridge, a gravity without flags as the usual one, and a map without columns not at all. -/
theorem map_not_back :
    (blaze.InGame ∧ ¬ blaze.ComesBack
        (small.mapLoad (grassland, 0) [] (some blaze.mapSavemap.1))) ∧
      ¬ ford.ComesBack (small.mapLoad (grassland, 0) [] (some ford.mapSavemap.1)) ∧
      ¬ { small with grav := 50 }.ComesBack
        (small.mapLoad (grassland, 0) [] (some { small with grav := 50 }.mapSavemap.1)) ∧
      ¬ { small with map := [[]], mapWidth := 0, mechs := [] }.ComesBack
        (small.mapLoad (grassland, 0) []
          (some { small with map := [[]], mapWidth := 0, mechs := [] }.mapSavemap.1)) := by
  refine ⟨⟨blaze_inGame, fun back => ?_⟩, fun back => ?_, fun back => ?_, fun back => ?_⟩
  · exact absurd (back.2.2.2.1 0 0 (by decide) (by decide)).2 (by decide)
  · exact absurd (back.2.2.2.1 0 1 (by decide) (by decide)).2 (by decide)
  · exact absurd back.2.2.2.2.2.1 (by decide)
  · exact absurd back.1 (by decide)

end HexMap

end BattletechMux.MapFile
