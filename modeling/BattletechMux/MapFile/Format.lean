/-
Module: BattletechMux.MapFile.Format
Purpose: Map files as text, the runtime state of maps in the special-object file and the one-byte
  codes of hexes, from map.c, map.dynamic.c, map.obj.c, map.bits.c and map.coding.c; what a failed
  `map_load` leaves.
Trusted boundary: a hex shows the terrain and the elevation it was set to, as the hex codes give
  back
-/
import Mathlib.Data.List.Forall2
import Mathlib.Data.List.Nodup
import Mathlib.Data.List.Perm.Subperm
import Mathlib.Logic.Function.Basic
import BattletechMux.Foundation.Bytes
import BattletechMux.Foundation.Machine
import BattletechMux.Foundation.CText

namespace BattletechMux.MapFile

section

open ByteCodec
open Function (update)

/-- A `mapobj`, its `next` apart. -/
structure MapObj where
  x : BitVec 16
  y : BitVec 16
  obj : BitVec 32
  type : BitVec 8
  datac : BitVec 8
  datas : BitVec 16
  datai : BitVec 32
deriving DecidableEq, Inhabited

abbrev Row := Nat → Byte

abbrev Bits := Nat → Option Row

def typeBits : Nat := 8

def numMapobjtypes : Nat := 10

/-- What the loaders and savers use of a `MAP`.  The first three fields and
`MAPFLAG_MAPO` are in the file's tree of objects. -/
structure MapState where
  mapWidth : Nat
  mapHeight : Nat
  firstFree : Nat
  /-- `MAPFLAG_MAPO` -/
  mapo : Bool
  mechsOnMap : Nat → BitVec 32
  mechflags : Nat → BitVec 8
  losInfo : Nat → Nat → BitVec 16
  /-- the lists but that of `TYPE_BITS` -/
  mapobj : Nat → List MapObj
  /-- `mapobj[TYPE_BITS]->datai`, if there is such an object -/
  bits : Option Bits

def realnum (x : Nat) : Nat := x / 4 + if x % 4 ≠ 0 then 1 else 0

def boffs (x : Nat) : Nat := 2 * (x % 4)

def boffsbit (x : Nat) (n : Byte) : Byte := (1#8 <<< boffs x) * n

def bitMine : Byte := 1

def bitHangar : Byte := 2

namespace MapState

/-- `btissetbit`, and what `is_mine_hex` and `is_hangar_hex` do before it. -/
def issetbit (m : MapState) (n : Byte) (x y : Nat) : Byte :=
  match m.bits with
  | none => 0
  | some foo =>
    match foo y with
    | none => 0
    | some row => row (realnum x) &&& boffsbit x n

def isMineHex (m : MapState) (x y : Nat) : Byte := m.issetbit bitMine x y

def isHangarHex (m : MapState) (x y : Nat) : Byte := m.issetbit bitHangar x y

/-- `grab_us_an_array`, `create_if_neccessary` and `btsetbit`. -/
def setbit (m : MapState) (n : Byte) (x y : Nat) : MapState :=
  let foo := m.bits.getD fun _ => none
  let row := (foo y).getD fun _ => 0
  let row := update row (realnum x) (row (realnum x) ||| boffsbit x n)
  { m with mapo := true, bits := some (update foo y (some row)) }

def setHexMine (m : MapState) (x y : Nat) : MapState := m.setbit bitMine x y

def setHexEnterable (m : MapState) (x y : Nat) : MapState := m.setbit bitHangar x y

/-- `add_mapobj`, to the list of a type. -/
def addMapobj (m : MapState) (type : Nat) (o : MapObj) : MapState :=
  { m with mapo := true, mapobj := update m.mapobj type (o :: m.mapobj type) }

end MapState

/-- Where the objects and rows are in memory, as far as it is written: the address
of the first object of a list, and that of a row. -/
structure Addresses where
  mapobj : List MapObj → BitVec 32
  row : Nat → BitVec 32
  row_ne_null : ∀ i, row i ≠ 0

def byte : Codec Byte := word 1

def int32 : Codec (BitVec 32) := word 4

def int16 : Codec (BitVec 16) := word 2

/-- The fields of a `mapobj` and its `next`, in the order of the struct. -/
def mapobjFields : MapObj × BitVec 32 ≃
    BitVec 16 × BitVec 16 × BitVec 32 × BitVec 8 × BitVec 8 × BitVec 16 × BitVec 32 ×
      BitVec 32 where
  toFun v :=
    (v.1.x, v.1.y, v.1.obj, v.1.type, v.1.datac, v.1.datas, v.1.datai, v.2)
  invFun f :=
    ({ x := f.1, y := f.2.1, obj := f.2.2.1, type := f.2.2.2.1, datac := f.2.2.2.2.1
       datas := f.2.2.2.2.2.1, datai := f.2.2.2.2.2.2.1 }, f.2.2.2.2.2.2.2)
  left_inv _ := rfl
  right_inv _ := rfl

/-- A `mapobj` as it lies in memory. -/
def mapobjCodec : Codec (MapObj × BitVec 32) :=
  (int16.pair (int16.pair (int32.pair (byte.pair (byte.pair (int16.pair
    (int32.pair int32))))))).map mapobjFields

/-- `MAPOBJSTART_MAGICNUM`. -/
def mapobjStartMagic : Byte := 27

/-- `MAPOBJEND_MAGICNUM`. -/
def mapobjEndMagic : Byte := 39

def dynamicMagic : Byte := 42

section Save

variable (a : Addresses) (m : MapState)

def saveMapdynamic : List Byte :=
  let count := m.firstFree
  (if 0 < count then
    int32.encodeArray count m.mechsOnMap ++ byte.encodeArray count m.mechflags ++
      (List.range count).flatMap fun i => int16.encodeArray count (m.losInfo i)
  else []) ++ byte.encode dynamicMagic

/-- The first loop of `map_save_bits`: rows of zeros are dropped. -/
def cleanRows (foo : Bits) : Bits := fun i =>
  (foo i).filter fun row =>
    if i < m.mapHeight then (List.range (realnum m.mapWidth)).any fun j => row j != 0
    else true

def saveRow (size : Nat) : Option Row → List Byte
  | none => []
  | some row => byte.encodeArray size row

def mapSaveBits (foo : Bits) : List Byte :=
  let xs := m.mapWidth
  let ys := m.mapHeight
  let foo := cleanRows m foo
  if (List.range ys).all fun i => (foo i).isNone then []
  else
    byte.encode (BitVec.ofNat 8 (typeBits + 1)) ++
      int32.encodeArray ys (fun i => if (foo i).isSome then a.row i else 0) ++
      (List.range ys).flatMap fun i => saveRow (realnum xs) (foo i)

def saveList (i : Nat) : List MapObj → List Byte
  | [] => []
  | tmp :: next =>
    byte.encode (BitVec.ofNat 8 (i + 1)) ++ mapobjCodec.encode (tmp, a.mapobj next) ++
      saveList i next

/-- One round of the loop of `save_mapobjs`. -/
def saveType (i : Nat) : List Byte :=
  if i = typeBits then
    match m.bits with
    | none => []
    | some foo => mapSaveBits a m foo
  else saveList a i (m.mapobj i)

def saveMapobjs : List Byte :=
  byte.encode mapobjStartMagic ++ (List.range numMapobjtypes).flatMap (saveType a m) ++
    byte.encode 0 ++ byte.encode mapobjEndMagic

def saveMapsFunc : List Byte :=
  saveMapdynamic m ++ if m.mapo then saveMapobjs a m else []

end Save

/-- The file, and how often `CHELO` of map.dynamic.c was used: its first failure is
not fatal. -/
structure Loader where
  file : InFile
  uglyKludge : Nat

/-- A loader that does not go on: it returns, or the server exits. -/
inductive Stopped where
  | returned (l : Loader)
  | exited

/-- `CHELO` of map.dynamic.c. -/
def Loader.chelo (l : Loader) (count : Nat) : Except Stopped (List Byte × Loader) :=
  let (bytes, file) := l.file.fread count
  let later : Loader := { file, uglyKludge := l.uglyKludge + 1 }
  if bytes.length = count then .ok (bytes, later)
  else if l.uglyKludge = 0 then .error (.returned later)
  else .error .exited

/-- The rows of `LOSinfo`, from row `i` on. -/
def loadRows (count : Nat) : List Nat → (Nat → Nat → BitVec 16) → Loader →
    Except Stopped ((Nat → Nat → BitVec 16) × Loader)
  | [], losInfo, l => .ok (losInfo, l)
  | i :: rest, losInfo, l => do
      let (bytes, l) ← l.chelo (int16.width * count)
      loadRows count rest (update losInfo i (int16.decodeArray bytes)) l

/-- The arrays `load_mapdynamic` reads. -/
def loadArrays (m : MapState) (l : Loader) : Except Stopped (MapState × Loader) := do
  let count := m.firstFree
  let (mechsOnMap, l) ← l.chelo (int32.width * count)
  let (mechflags, l) ← l.chelo (byte.width * count)
  let (losInfo, l) ← loadRows count (List.range count) (fun _ _ => 0) l
  pure ({ m with
    mechsOnMap := int32.decodeArray mechsOnMap
    mechflags := byte.decodeArray mechflags
    losInfo := losInfo }, l)

/-- The end mark `load_mapdynamic` checks. -/
def checkMagic (m : MapState) (l : Loader) : Except Stopped (MapState × Loader) := do
  let (tmpb, l) ← l.chelo byte.width
  if byte.decode tmpb = dynamicMagic then pure (m, l) else throw .exited

def loadMapdynamic (m : MapState) (l : Loader) : Except Stopped (MapState × Loader) :=
  if 0 < m.firstFree then do
    let (m, l) ← loadArrays m l
    checkMagic m l
  else checkMagic m l

/-- The second loop of `map_load_bits`. -/
def loadBitRows (size : Nat) : List (BitVec 32) → InFile → Option InFile
  | [], f => some f
  | pointer :: rest, f =>
    if pointer = 0 then loadBitRows size rest f
    else
      let (row, f) := f.fread (byte.width * size)
      if row.length = byte.width * size then loadBitRows size rest f else none

/-- `map_load_bits`.  The array it reads is not stored anywhere. -/
def mapLoadBits (m : MapState) (f : InFile) : Option InFile :=
  let (foo, f) := f.fread (int32.width * m.mapHeight)
  if foo.length = int32.width * m.mapHeight then
    loadBitRows (realnum m.mapWidth) ((List.range m.mapHeight).map (int32.decodeArray foo)) f
  else none

/-- The loop of `load_mapobjs`: `tmpb` and the memory of `tmp` keep what a read that
fails does not overwrite.  `limit` bounds the rounds. -/
def loadObjects : Nat → MapState → Byte → List Byte → InFile → Option (MapState × InFile)
  | 0, _, _, _, _ => none
  | limit + 1, m, tmpb, tmp, f =>
    if tmpb = 0 || f.eof then some (m, f)
    else
      let i := tmpb.toNat - 1
      if i = typeBits then do
        let f ← mapLoadBits m f
        let (next, f) := f.fread byte.width
        loadObjects limit m (if next.length = byte.width then byte.decode next else tmpb)
          tmp f
      else
        let (bytes, f) := f.fread mapobjCodec.width
        let tmp := bytes ++ tmp.drop bytes.length
        let m := m.addMapobj i (mapobjCodec.decode tmp).1
        let (next, f) := f.fread byte.width
        loadObjects limit m (if next.length = byte.width then byte.decode next else tmpb)
          tmp f

def loadMapobjs (m : MapState) (f : InFile) : Option (MapState × InFile) :=
  let (start, f) := f.fread byte.width
  if byte.decode start ≠ mapobjStartMagic then some (m, f)
  else do
    let m := { m with mapobj := fun _ => [], bits := none }
    let (tmpb, f) := f.fread byte.width
    let (m, f) ← loadObjects (f.bytes.length + 2) m (byte.decode tmpb) [] f
    -- a wrong end mark is only reported
    let (_, f) := f.fread byte.width
    some (m, f)

/-- The part of `load_update1` about maps, up to the loaders' end; `none` when the
server exits. -/
def loadUpdate1 (m : MapState) (l : Loader) : Option (MapState × Loader) := do
  let m := { m with mapobj := fun _ => [], bits := none }
  let doh := m.mapo
  let (m, l) ←
    if l.file.eof then some (m, l)
    else
      match loadMapdynamic m l with
      | .error .exited => none
      | .error (.returned l) => some (m, l)
      | .ok (m, l) =>
        if !l.file.eof && doh then
          (loadMapobjs m l.file).map fun (m, file) => (m, { l with file })
        else some (m, l)
  some (if l.file.eof then { m with firstFree := 0 } else m, l)

end

section

open List hiding getElem?_eq_some_iff
open Function (update)
open Machine (calls calls_cons)

/-- A `char`; it is signed. -/
abbrev CChar := BitVec 8

def chr (c : Char) : CChar := BitVec.ofNat 8 c.toNat

def grassland : CChar := chr ' '

def heavyForest : CChar := chr '"'

/-- `LIGHT_FOREST`, the grave accent. -/
def lightForest : CChar := 96

def water : CChar := chr '~'

def highWater : CChar := chr '?'

def rough : CChar := chr '%'

def mountains : CChar := chr '^'

def road : CChar := chr '#'

def building : CChar := chr '@'

def fire : CChar := chr '&'

def tFire : CChar := chr '>'

def smoke : CChar := chr ':'

def wall : CChar := chr '='

def bridge : CChar := chr '/'

def ice : CChar := chr '-'

def getTerrainNameBase (t : CChar) : String :=
  if t = grassland ∨ t = chr '_' then "Grassland"
  else if t = heavyForest then "Heavy Forest"
  else if t = lightForest then "Light Forest"
  else if t = ice then "Ice"
  else if t = bridge then "Bridge"
  else if t = highWater ∨ t = water then "Water"
  else if t = rough then "Rough"
  else if t = mountains then "Mountains"
  else if t = road then "Road"
  else if t = building then "Building"
  else if t = fire then "Fire"
  else if t = smoke then "Smoke"
  else if t = wall then "Wall"
  else "Unknown"

def lastChar : Nat := 128

def elevations : Nat := 10

def entries : Nat := 256

/-- The static variables of map.coding.c; `dataToId` is the memory of that table. -/
structure Coding where
  firstFree : Nat
  dataToId : Nat → BitVec 8
  idToData : Nat → CChar × CChar

namespace Coding

/-- `init_map_coding`, at the start of the program. -/
def init : Coding := { firstFree := 0, dataToId := fun _ => 0, idToData := fun _ => (0, 0) }

/-- Where `data_to_id[terrain][elevation]` is in the memory of the table. -/
def offset (terrain elevation : CChar) : Int := terrain.toInt * elevations + elevation.toInt

def allocate (c : Coding) (hex : CChar × CChar) : Coding where
  firstFree := c.firstFree + 1
  dataToId := update c.dataToId (offset hex.1 hex.2).toNat (BitVec.ofNat 8 (c.firstFree + 1))
  idToData := update c.idToData c.firstFree hex

/-- `Coding_GetIndex`. -/
def getIndex (c : Coding) (hex : CChar × CChar) : Option (Nat × Coding) :=
  let place := offset hex.1 hex.2
  if place < 0 ∨ lastChar * elevations ≤ place then none
  else
    let i := c.dataToId place.toNat
    if i ≠ 0 then some (i.toNat - 1, c)
    else if entries ≤ c.firstFree then none
    else some (c.firstFree, c.allocate hex)

/-- `Coding_GetTerrain`. -/
def getTerrain (c : Coding) (index : BitVec 8) : CChar := (c.idToData index.toNat).1

/-- `Coding_GetElevation`. -/
def getElevation (c : Coding) (index : BitVec 8) : CChar := (c.idToData index.toNat).2

/-- `Coding_GetIndex`, its result put into an `unsigned char`. -/
def code (c : Coding) (hex : CChar × CChar) : Option (BitVec 8 × Coding) :=
  (c.getIndex hex).map fun (index, c) => (BitVec.ofNat 8 index, c)

end Coding

/-- The first index of `data_to_id` is below LASTCHAR and the second below ELEVATIONS. -/
def InTable (hex : CChar × CChar) : Prop :=
  (0 ≤ hex.1.toInt ∧ hex.1.toInt < lastChar) ∧ 0 ≤ hex.2.toInt ∧ hex.2.toInt < elevations

instance (hex : CChar × CChar) : Decidable (InTable hex) :=
  inferInstanceAs (Decidable (_ ∧ _))

section Proofs

def namedTerrains : List CChar :=
  [grassland, chr '_', heavyForest, lightForest, ice, bridge, highWater, water, rough, mountains,
    road, building, fire, smoke, wall]

theorem mem_namedTerrains {t : CChar} (known : getTerrainNameBase t ≠ "Unknown") :
    t ∈ namedTerrains := by
  by_contra absent
  simp only [namedTerrains, mem_cons, not_mem_nil, or_false, not_or] at absent
  apply known
  simp [getTerrainNameBase, absent]

def hexes : List (CChar × CChar) :=
  namedTerrains.flatMap fun t => (List.range elevations).map fun e => (t, BitVec.ofNat 8 e)

theorem length_hexes : hexes.length = 150 := by decide +kernel

theorem inTable_of_mem {hex : CChar × CChar} (mem : hex ∈ hexes) : InTable hex := by
  have all : (hexes.all fun hex => decide (InTable hex)) = true := by decide +kernel
  exact of_decide_eq_true (all_eq_true.mp all hex mem)

theorem mem_hexes {hex : CChar × CChar} (known : getTerrainNameBase hex.1 ≠ "Unknown")
    (low : 0 ≤ hex.2.toInt) (high : hex.2.toInt < elevations) : hex ∈ hexes := by
  obtain ⟨t, e⟩ := hex
  refine mem_flatMap.mpr ⟨t, mem_namedTerrains known, mem_map.mpr ⟨e.toInt.toNat, ?_, ?_⟩⟩
  · rw [mem_range]
    simp only at high low
    omega
  · have value : e.toInt.toNat = e.toNat := by
      have cases' := BitVec.toInt_eq_toNat_cond e
      simp only [elevations] at high low
      split at cases' <;> omega
    rw [value, BitVec.ofNat_toNat, BitVec.setWidth_eq]

namespace Coding

theorem offset_inj {hex o : CChar × CChar} (inTable : InTable hex) (otherToo : InTable o)
    (eq : (offset hex.1 hex.2).toNat = (offset o.1 o.2).toNat) : hex = o := by
  obtain ⟨⟨low, _⟩, lowToo, highToo⟩ := inTable
  obtain ⟨⟨otherLow, _⟩, otherLowToo, otherHighToo⟩ := otherToo
  simp only [offset, elevations] at *
  apply Prod.ext
  · apply BitVec.eq_of_toInt_eq
    omega
  · apply BitVec.eq_of_toInt_eq
    omega

theorem offset_bounds {hex : CChar × CChar} (inTable : InTable hex) :
    ¬ (offset hex.1 hex.2 < 0 ∨ (lastChar : Int) * elevations ≤ offset hex.1 hex.2) := by
  obtain ⟨⟨low, high⟩, lowToo, highToo⟩ := inTable
  simp only [offset, elevations, lastChar] at *
  omega

/-- The tables after these hexes have been given codes, in this order. -/
structure Holds (c : Coding) (coded : List (CChar × CChar)) : Prop where
  firstFree : c.firstFree = coded.length
  nodup : coded.Nodup
  known : ∀ hex ∈ coded, hex ∈ hexes
  data : ∀ i hex, coded[i]? = some hex → c.idToData i = hex
  id : ∀ hex ∈ hexes, hex ∈ coded →
    c.dataToId (offset hex.1 hex.2).toNat = BitVec.ofNat 8 (coded.idxOf hex + 1)
  free : ∀ hex ∈ hexes, hex ∉ coded → c.dataToId (offset hex.1 hex.2).toNat = 0

theorem init_holds : init.Holds [] where
  firstFree := rfl
  nodup := nodup_nil
  known _ none' := absurd none' not_mem_nil
  data i hex none' := absurd none' (by simp)
  id _ _ none' := absurd none' not_mem_nil
  free _ _ _ := rfl

namespace Holds

variable {c : Coding} {coded : List (CChar × CChar)} {hex : CChar × CChar}

theorem length_le (holds : c.Holds coded) : coded.length ≤ 150 := by
  rw [← length_hexes]
  exact (holds.nodup.subperm holds.known).length_le

section

variable (holds : c.Holds coded) (named : hex ∈ hexes)
include holds named

theorem code_old (mem : hex ∈ coded) : c.code hex = some (BitVec.ofNat 8 (coded.idxOf hex), c) := by
  have below := idxOf_lt_length_of_mem mem
  have few := holds.length_le
  have value : (BitVec.ofNat 8 (coded.idxOf hex + 1)).toNat = coded.idxOf hex + 1 := by
    rw [BitVec.toNat_ofNat]
    omega
  have some' : BitVec.ofNat 8 (coded.idxOf hex + 1) ≠ 0 := by
    intro zero
    rw [zero] at value
    simp at value
  unfold code getIndex
  simp only [offset_bounds (inTable_of_mem named), if_false, holds.id hex named mem]
  rw [if_pos some', value, Nat.add_sub_cancel]
  rfl

theorem code_new (absent : hex ∉ coded) :
    c.code hex = some (BitVec.ofNat 8 coded.length, c.allocate hex) ∧
      (c.allocate hex).Holds (coded ++ [hex]) := by
  have few := holds.length_le
  have room : ¬ entries ≤ c.firstFree := by
    rw [holds.firstFree, entries]
    omega
  refine ⟨?_, ?_⟩
  · unfold code getIndex
    simp only [offset_bounds (inTable_of_mem named), if_false, holds.free hex named absent]
    rw [if_neg (not_not.mpr rfl), if_neg room, holds.firstFree]
    rfl
  · refine ⟨?_, ?_, ?_, ?_, ?_, ?_⟩
    · rw [allocate, holds.firstFree, length_append, length_singleton]
    · exact nodup_append.mpr ⟨holds.nodup, nodup_singleton hex, by
        intro one inCoded two this' eq
        exact absent (mem_singleton.mp this' ▸ eq ▸ inCoded)⟩
    · intro o mem
      rcases mem_append.mp mem with old | new
      · exact holds.known o old
      · exact mem_singleton.mp new ▸ named
    · intro i o hf
      simp only [allocate, holds.firstFree]
      by_cases last : i = coded.length
      · rw [last, Function.update_self]
        rw [last, getElem?_concat_length] at hf
        exact Option.some.inj hf
      · rw [Function.update_of_ne last]
        apply holds.data
        rw [← hf, getElem?_append_left]
        have hin := (getElem?_eq_some_iff.mp hf).1
        rw [length_append, length_singleton] at hin
        omega
    · intro o namedToo mem
      simp only [allocate, holds.firstFree]
      by_cases eq : o = hex
      · rw [eq, Function.update_self, idxOf_append_of_notMem absent]
        simp
      · have old : o ∈ coded := (mem_append.mp mem).resolve_right fun new =>
          eq (mem_singleton.mp new)
        rw [Function.update_of_ne, idxOf_append_of_mem old]
        · exact holds.id o namedToo old
        · exact fun place => eq
            (offset_inj (inTable_of_mem namedToo) (inTable_of_mem named) place)
    · intro o namedToo absentToo
      simp only [allocate]
      rw [mem_append, not_or, mem_singleton] at absentToo
      rw [Function.update_of_ne]
      · exact holds.free o namedToo absentToo.1
      · exact fun place => absentToo.2
          (offset_inj (inTable_of_mem namedToo) (inTable_of_mem named) place)

theorem code :
    ∃ index c' coded', c.code hex = some (BitVec.ofNat 8 index, c') ∧ c'.Holds coded' ∧
      coded <+: coded' ∧ coded'[index]? = some hex := by
  by_cases mem : hex ∈ coded
  · refine ⟨coded.idxOf hex, c, coded, holds.code_old named mem, holds, prefix_refl _, ?_⟩
    exact getElem?_idxOf mem
  · obtain ⟨ran, holds'⟩ := holds.code_new named mem
    exact ⟨coded.length, c.allocate hex, coded ++ [hex], ran, holds', prefix_append _ _,
      getElem?_concat_length⟩

end

end Holds

theorem calls_code {c : Coding} {coded : List (CChar × CChar)} (holds : c.Holds coded)
    (asked : List (CChar × CChar)) (named : ∀ hex ∈ asked, hex ∈ hexes) :
    ∃ codes c' coded', calls Coding.code c asked = some (codes, c') ∧ c'.Holds coded' ∧
      coded <+: coded' ∧ List.Forall₂ (fun hex code => ∃ index, code = BitVec.ofNat 8 index ∧
        coded'[index]? = some hex) asked codes := by
  induction asked generalizing c coded with
  | nil => exact ⟨[], c, coded, rfl, holds, prefix_refl _, .nil⟩
  | cons hex later ih =>
    obtain ⟨index, c₁, coded₁, ran₁, holds₁, kept₁, here⟩ :=
      holds.code (named hex mem_cons_self)
    obtain ⟨codes, c', coded', ran, holds', kept, places⟩ :=
      ih holds₁ fun o mem => named o (mem_cons_of_mem _ mem)
    refine ⟨BitVec.ofNat 8 index :: codes, c', coded', calls_cons ran₁ ran, holds',
      kept₁.trans kept, .cons ⟨index, rfl, ?_⟩ places⟩
    obtain ⟨more, rfl⟩ := kept
    rw [getElem?_append_left (getElem?_eq_some_iff.mp here).1, here]

end Coding

end Proofs

/-- Both tables are indexed inside their bounds, the last codes still give back all the
hexes asked for, and hexes have the same code exactly when they are the same. -/
def CodesBijective (asked : List (CChar × CChar)) : Prop :=
  (∀ hex ∈ asked, InTable hex) ∧
    ∃ codes c, calls Coding.code Coding.init asked = some (codes, c) ∧
      codes.length = asked.length ∧ c.firstFree ≤ entries ∧
      (∀ x ∈ asked.zip codes, (c.getTerrain x.2, c.getElevation x.2) = x.1) ∧
      ∀ x ∈ asked.zip codes, ∀ y ∈ asked.zip codes, x.1 = y.1 ↔ x.2 = y.2

/-- The codes are a bijection for the elevations the table is made for, and those only. -/
theorem codes_bijective_iff (asked : List (CChar × CChar))
    (known : ∀ hex ∈ asked, getTerrainNameBase hex.1 ≠ "Unknown") :
    CodesBijective asked ↔ ∀ hex ∈ asked, 0 ≤ hex.2.toInt ∧ hex.2.toInt < elevations := by
  constructor
  · exact fun bijective hex member => (bijective.1 hex member).2
  · intro inRange
    have named : ∀ hex ∈ asked, hex ∈ hexes := fun hex member =>
      mem_hexes (known hex member) (inRange hex member).1 (inRange hex member).2
    obtain ⟨codes, c, coded, ran, holds, _, places⟩ := Coding.calls_code Coding.init_holds asked named
    have few := holds.length_le
    have place : ∀ x ∈ asked.zip codes, ∃ index, x.2 = BitVec.ofNat 8 index ∧
        coded[index]? = some x.1 := fun x member => List.forall₂_zip places member
    have at' : ∀ x ∈ asked.zip codes, coded[x.2.toNat]? = some x.1 := by
      intro x member
      obtain ⟨index, value, found⟩ := place x member
      have inside := (getElem?_eq_some_iff.mp found).1
      have same : x.2.toNat = index := by
        rw [value, BitVec.toNat_ofNat]
        omega
      rw [same, found]
    refine ⟨fun hex member => inTable_of_mem (named hex member), codes, c, ran,
      places.length_eq.symm, ?_, ?_, ?_⟩
    · rw [holds.firstFree, entries]
      omega
    · exact fun x member => holds.data x.2.toNat x.1 (at' x member)
    · intro x member y memberToo
      constructor
      · intro same
        have found := at' x member
        rw [same, ← at' y memberToo] at found
        apply BitVec.eq_of_toNat_eq
        exact (getElem?_inj (getElem?_eq_some_iff.mp (at' x member)).1
          holds.nodup).mp found
      · intro same
        have found := at' x member
        rw [same, at' y memberToo] at found
        exact (Option.some.inj found).symm

/-- The hexes of the file row "#5_0". -/
theorem codes_bijective_row :
    CodesBijective [(road, 5), (chr '_', 0)] ↔
      ∀ hex ∈ [(road, (5 : CChar)), (chr '_', 0)],
        0 ≤ BitVec.toInt hex.2 ∧ BitVec.toInt hex.2 < elevations :=
  codes_bijective_iff [(road, 5), (chr '_', 0)] fun hex member => by
    rcases mem_cons.mp member with rfl | last
    · decide
    · rw [mem_singleton.mp last]
      decide

/-- The hexes of the file row " b%0"; 'b' is 50 above '0'. -/
theorem codes_shared :
    ¬ CodesBijective [(grassland, 50), (rough, 0)] ∧
      (calls Coding.code Coding.init [(grassland, 50), (rough, 0)]).map Prod.fst = some [0, 0] := by
  refine ⟨fun bijective => ?_, by decide⟩
  have outside := bijective.1 (grassland, 50) mem_cons_self
  revert outside
  decide

end

open CText

/-- `MAPX` and `MAPY`. -/
def mapMax : Nat := 1000

def defaultMapWidth : Nat := 21

def defaultMapHeight : Nat := 11

def mapNameSize : Nat := 30

def mapflagMapo : BitVec 8 := 1

def mapflagFires : BitVec 8 := 8

def mapflagNobridgify : BitVec 8 := 128

def typeFire : Fin numMapobjtypes := ⟨0, by decide⟩

/-- The types up to `TYPE_LAST_DEC`. -/
def decTypes : List (Fin numMapobjtypes) := [⟨0, by decide⟩, ⟨1, by decide⟩, ⟨2, by decide⟩]

abbrev Shown := CChar × CChar

/-- What `map_load` and `map_savemap` use of a `MAP`, and what refers to its hexes. -/
structure HexMap where
  map : List (List Shown)
  mapname : List Char
  mapWidth : Nat
  mapHeight : Nat
  temp : BitVec 8
  grav : BitVec 8
  flags : BitVec 8
  mapobj : Fin numMapobjtypes → List MapObj
  /-- `MechX` and `MechY` of the units on the map. -/
  mechs : List (Int × Int)

namespace HexMap

variable (m : HexMap)

/-- `map->map[y][x]`. -/
def hex (x y : Nat) : Shown := (m.map.getD y []).getD x (0, 0)

def getTerrain (x y : Nat) : CChar := (m.hex x y).1

def getElevation (x y : Nat) : CChar := (m.hex x y).2

def setTerrainBase (x y : Nat) (t : CChar) : HexMap :=
  { m with map := m.map.modify y fun row => row.modify x fun hex => (t, hex.2) }

def delMapobjs : HexMap :=
  if m.flags &&& mapflagMapo = 0 then m
  else { m with mapobj := fun _ => [], flags := m.flags &&& ~~~mapflagMapo }

/-- `find_mapobj` of a type. -/
def findMapobj (x y : Nat) (type : Fin numMapobjtypes) : Option MapObj :=
  (m.mapobj type).find? fun o : MapObj => o.x.toInt = (x : Int) ∧ o.y.toInt = (y : Int)

def findDecorations (x y : Nat) : CChar :=
  match (decTypes.flatMap m.mapobj).find? fun o : MapObj =>
      o.x.toInt = (x : Int) ∧ o.y.toInt = (y : Int) with
  | some o => o.datac
  | none => 0

/-- `map_underlying_terrain`. -/
def underlyingTerrain (x y : Nat) : CChar :=
  if m.findDecorations x y ≠ 0 then m.findDecorations x y else m.getTerrain x y

def getRTerrain (x y : Nat) : CChar :=
  if m.getTerrain x y = fire ∨ m.getTerrain x y = smoke then m.underlyingTerrain x y
  else m.getTerrain x y

end HexMap

section Bridges

def dirs : List (Int × Int) := [(0, -1), (1, 0), (1, 1), (0, 1), (-1, 1), (-1, 0)]

/-- The loop of `water_distance` from its round `i` on, of which `rounds` are left.  The hex
is left for one in the direction; the terrain of the map is a parameter. -/
def waterLoop (terrain : Nat → Nat → CChar) (width height : Nat) (dir : Int × Int) (max : Nat) :
    Nat → Nat → Int → Int → Nat
  | 0, _, _, _ => max
  | rounds + 1, i, x, y =>
    let x := x + dir.1
    let y := y + dir.2
    let y := if x = 0 ∧ dir.1 ≠ 0 then y - 1 else y
    if ¬ (0 ≤ x ∧ x < width ∧ 0 ≤ y ∧ y < height) then max
    else
      let t := terrain x.toNat y.toNat
      if t = water ∨ t = ice then i
      else if t ≠ bridge ∧ t ≠ road then max
      else waterLoop terrain width height dir max rounds (i + 1) x y

def waterDistance (terrain : Nat → Nat → CChar) (width height x y dir max : Nat) : Nat :=
  waterLoop terrain width height (dirs.getD dir (0, 0)) max (max - 1) 1 x y

/-- `eligible_bridge_hex`.  Two distances below 4 never differ by more than 3. -/
def eligibleBridgeHex (terrain : Nat → Nat → CChar) (width height x y : Nat) : Bool :=
  (List.range 3).any fun k =>
    let i := waterDistance terrain width height x y k 4
    let j := waterDistance terrain width height x y (k + 3) 4
    decide (i < 4) && decide (j < 4) && !decide (3 < (i : Int) - j)

namespace HexMap

/-- One round of `make_bridges`. -/
def bridgeHex (m : HexMap) (hex : Nat × Nat) : HexMap :=
  if m.getTerrain hex.1 hex.2 = road ∧
      eligibleBridgeHex m.getTerrain m.mapWidth m.mapHeight hex.1 hex.2 = true then
    m.setTerrainBase hex.1 hex.2 bridge
  else m

def makeBridges (m : HexMap) : HexMap :=
  ((List.range m.mapWidth).flatMap fun x =>
    (List.range m.mapHeight).map fun y => (x, y)).foldl bridgeHex m

end HexMap

end Bridges

section Load

/-- `fscanf(fp, "%d %d\n", &height, &width)`. -/
def scanSize (text : List Char) : Option (Int × Int) × List Char :=
  match scanInt text with
  | none => (none, unscanned text)
  | some (height, text) =>
    match scanInt text with
    | none => (none, unscanned text)
    | some (width, text) => (some (stored height, stored width), text.dropWhile isSpace)

def sizeOf : Option (Int × Int) → Nat × Nat
  | none => (defaultMapHeight, defaultMapWidth)
  | some (height, width) =>
    if height < 1 ∨ mapMax < height ∨ width < 1 ∨ mapMax < width then
      (defaultMapHeight, defaultMapWidth)
    else (height.toNat, width.toNat)

def readTerrain (terr : CChar) : CChar :=
  let terr :=
    if terr = tFire ∨ terr = smoke ∨ terr = chr '.' then grassland
    else if terr = 39 then lightForest  -- the apostrophe
    else terr
  if getTerrainNameBase terr = "Unknown" then grassland else terr

def readHex (terr elev : Char) : Shown := (readTerrain (chr terr), chr elev - chr '0')

def readRow (width : Nat) (row : List Char) : List Shown :=
  (List.range width).map fun j => readHex (row.getD (2 * j) '\x00') (row.getD (2 * j + 1) '\x00')

/-- The rows of the file up to the first that is too short, of at most `height`. -/
def readLines (width : Nat) : Nat → List Char → List (List Char) × List Char
  | 0, text => ([], text)
  | height + 1, text =>
    let (row, text) := fgets (2 * mapMax + 1) text
    if (cString row).length < 2 * width then ([], text)
    else
      let (rows, text) := readLines width height text
      (cString row :: rows, text)

/-- `fscanf(fp, "%d: %d %d\n", &i1, &i2, &i3)`, if it finds all three. -/
def scanTrailer (text : List Char) : Option (Int × Int × Int) :=
  match scanInt text with
  | some (i1, ':' :: text) => do
      let (i2, text) ← scanInt text
      let (i3, _) ← scanInt text
      some (stored i1, stored i2, stored i3)
  | _ => none

/-- The rows of the new map: those of the file, and fresh ones where it ended early. -/
def loadedRows (blank : Shown) (height width : Nat) (lines : List (List Char)) :
    List (List Shown) :=
  lines.map (readRow width) ++
    List.replicate (height - lines.length) (List.replicate width blank)

def burns (width : Nat) (lines : List (List Char)) : Bool :=
  lines.any fun row => (List.range width).any fun j => chr (row.getD (2 * j) '\x00') == fire

namespace HexMap

def setTrailer (m : HexMap) : Option (Int × Int × Int) → HexMap
  | none => m
  | some (i1, i2, i3) =>
    { m with
      flags := BitVec.ofInt 8 i1, grav := BitVec.ofInt 8 i2, temp := BitVec.ofInt 8 i3 }

def mapLoad (blank : Shown) (m : HexMap) (mapname : List Char) (file : Option (List Char)) :
    Int × HexMap :=
  match file with
  | none => (-1, m)
  | some text =>
    let m := m.delMapobjs
    let (size, text) := scanSize text
    let (height, width) := sizeOf size
    let (lines, text) := readLines width height text
    let m := { m with
      map := loadedRows blank height width lines
      flags := if burns width lines then m.flags ||| mapflagFires else m.flags }
    if lines.length ≠ height then (-2, m)
    else
      let m := { m with grav := 100, temp := 20 }
      let m := m.setTrailer (scanTrailer text)
      let m := { m with mapHeight := height, mapWidth := width }
      let m := if m.flags &&& mapflagNobridgify = 0 then m.makeBridges else m
      (0, { m with mapname := mapname.take mapNameSize })

end HexMap

end Load

section Save

/-- A `char` in a file. -/
def letter (c : CChar) : Char := Char.ofNat c.toNat

namespace HexMap

variable (m : HexMap)

/-- A burning or smoking hex about which nothing is known. -/
def lost (x y : Nat) : Bool :=
  (m.getTerrain x y == fire && (m.findMapobj x y typeFire).isNone &&
      decide (m.flags &&& mapflagFires = 0)) ||
    (m.getTerrain x y == smoke && m.getRTerrain x y == smoke)

/-- The terrain `map_savemap` writes for a hex. -/
def savedTerrain (x y : Nat) : CChar :=
  let terrain := m.getTerrain x y
  if terrain = grassland then chr '.'
  else if terrain = fire then
    if (m.findMapobj x y typeFire).isSome then tFire
    else if m.flags &&& mapflagFires = 0 then chr '.'
    else fire
  else if terrain = smoke then
    let terrain := m.getRTerrain x y
    if terrain = grassland ∨ terrain = smoke then chr '.' else terrain
  else terrain

def savedRow (i : Nat) : List Char :=
  (List.range m.mapWidth).flatMap fun j =>
    [letter (m.savedTerrain j i), letter (m.getElevation j i + chr '0')]

def savedTrailer : List Char :=
  let i := m.flags &&& ~~~mapflagMapo
  if i = 0 then []
  else decimal i.toNat ++ ':' :: ' ' :: decimal m.grav.toNat ++ ' ' :: decimal m.temp.toInt ++
    ['\n']

/-- `map_savemap`: the file, and the map, on which it puts out what was lost. -/
def mapSavemap : List Char × HexMap :=
  (decimal m.mapHeight ++ ' ' :: decimal m.mapWidth ++ '\n' ::
      ((List.range m.mapHeight).flatMap fun i => cString (m.savedRow i) ++ ['\n']) ++
      m.savedTrailer,
    { m with map := m.map.mapIdx fun y row => row.mapIdx fun x hex =>
        if m.lost x y then (grassland, hex.2) else hex })

end HexMap

end Save

namespace HexMap

def Inside (m : HexMap) (x y : Int) : Prop :=
  (0 ≤ x ∧ x < m.mapWidth) ∧ 0 ≤ y ∧ y < m.mapHeight

instance (m : HexMap) (x y : Int) : Decidable (m.Inside x y) :=
  inferInstanceAs (Decidable (_ ∧ _))

/-- The map has the hexes its size promises, and everything on it is on one of them. -/
structure WellFormed (m : HexMap) : Prop where
  rows : m.map.length = m.mapHeight
  columns : ∀ row ∈ m.map, row.length = m.mapWidth
  objects : ∀ type, ∀ o ∈ m.mapobj type, m.Inside o.x.toInt o.y.toInt
  mechs : ∀ mech ∈ m.mechs, m.Inside mech.1 mech.2

/-- The complete rows of a file, with fresh hexes after them, are the rows of the map; no
object is deleted and no flag set on the way. -/
def Respelled (m : HexMap) (blank : Shown) (text : List Char) : Prop :=
  let (size, text) := scanSize text
  let (height, width) := sizeOf size
  let lines := (readLines width height text).1
  m.flags &&& mapflagMapo = 0 ∧
    (burns width lines = true → m.flags &&& mapflagFires ≠ 0) ∧
    m.map = loadedRows blank height width lines

theorem flags_deleted (f : BitVec 8) : f &&& mapflagMapo ≠ 0 →
    f &&& ~~~mapflagMapo ≠ f ∧ f &&& ~~~mapflagMapo ||| mapflagFires ≠ f := by
  revert f
  decide

theorem flags_burnt (f : BitVec 8) :
    f ||| mapflagFires = f ↔ f &&& mapflagFires ≠ 0 := by
  revert f
  decide

variable {m : HexMap} {blank : Shown} {mapname : List Char}

theorem mapLoad_short {text : List Char}
    (failed : (m.mapLoad blank mapname (some text)).1 < 0) :
    ∃ size rest, scanSize text = (size, rest) ∧
      ∃ lines, lines = (readLines (sizeOf size).2 (sizeOf size).1 rest).1 ∧
      m.mapLoad blank mapname (some text) =
        (-2, { m.delMapobjs with
          map := loadedRows blank (sizeOf size).1 (sizeOf size).2 lines
          flags := if burns (sizeOf size).2 lines then m.delMapobjs.flags ||| mapflagFires
            else m.delMapobjs.flags }) := by
  refine ⟨_, _, rfl, _, rfl, ?_⟩
  unfold mapLoad at failed ⊢
  simp only at failed ⊢
  split
  · rfl
  · rename_i complete
    rw [if_neg complete] at failed
    exact absurd failed (by simp)

theorem deleted_eq_iff {lines : List (List Char)} {rows : List (List Shown)} {width : Nat} :
    { m.delMapobjs with
        map := rows
        flags := if burns width lines then m.delMapobjs.flags ||| mapflagFires
          else m.delMapobjs.flags } = m ↔
      m.flags &&& mapflagMapo = 0 ∧
        (burns width lines = true → m.flags &&& mapflagFires ≠ 0) ∧ m.map = rows := by
  by_cases bare : m.flags &&& mapflagMapo = 0
  · have same : m.delMapobjs = m := by rw [delMapobjs, if_pos bare]
    rw [same]
    constructor
    · intro equal
      have rowsEqual := congrArg HexMap.map equal
      have flagsEqual := congrArg HexMap.flags equal
      refine ⟨bare, fun burning => ?_, rowsEqual.symm⟩
      rw [burning] at flagsEqual
      exact (flags_burnt m.flags).mp flagsEqual
    · rintro ⟨_, fires, rfl⟩
      cases burning : burns width lines with
      | false => rfl
      | true =>
        have kept := (flags_burnt m.flags).mpr (fires burning)
        simp only [if_true, kept]
  · have flags : m.delMapobjs.flags = m.flags &&& ~~~mapflagMapo := by
      rw [delMapobjs, if_neg bare]
    have changed := flags_deleted m.flags bare
    constructor
    · intro equal
      have flagsEqual := congrArg HexMap.flags equal
      rw [flags] at flagsEqual
      cases burning : burns width lines with
      | false => exact absurd (by simpa [burning] using flagsEqual) changed.1
      | true => exact absurd (by simpa [burning] using flagsEqual) changed.2
    · exact fun spelled => absurd spelled.1 bare

/-- A failed load leaves the map usable, and as it was, exactly when there was no file to
open or the file happens to spell the map. -/
theorem mapLoad_failed_iff (m : HexMap) (blank : Shown) (mapname : List Char)
    (file : Option (List Char)) (wellFormed : m.WellFormed)
    (failed : (m.mapLoad blank mapname file).1 < 0) :
    ((m.mapLoad blank mapname file).2.WellFormed ∧ (m.mapLoad blank mapname file).2 = m) ↔
      file = none ∨ ∃ text, file = some text ∧ m.Respelled blank text := by
  cases file with
  | none => exact ⟨fun _ => Or.inl rfl, fun _ => ⟨wellFormed, rfl⟩⟩
  | some text =>
    obtain ⟨size, rest, scanned, lines, read, state⟩ := mapLoad_short failed
    have spelled : m.Respelled blank text ↔
        m.flags &&& mapflagMapo = 0 ∧
          (burns (sizeOf size).2 lines = true → m.flags &&& mapflagFires ≠ 0) ∧
          m.map = loadedRows blank (sizeOf size).1 (sizeOf size).2 lines := by
      rw [Respelled, scanned, read]
    rw [state]
    constructor
    · rintro ⟨_, equal⟩
      exact Or.inr ⟨text, rfl, spelled.mpr (deleted_eq_iff.mp equal)⟩
    · rintro (none' | ⟨text', same, spells⟩)
      · exact absurd none' (by simp)
      · obtain rfl := Option.some.inj same
        have equal := deleted_eq_iff.mpr (spelled.mp spells)
        exact ⟨equal.symm ▸ wellFormed, equal⟩

def small : HexMap where
  map := [[(grassland, 0), (grassland, 0)]]
  mapname := []
  mapWidth := 2
  mapHeight := 1
  temp := 20
  grav := 100
  flags := 0
  mapobj := fun _ => []
  mechs := [(1, 0)]

theorem small_wellFormed : small.WellFormed where
  rows := rfl
  columns := by decide
  objects _ o member := absurd member List.not_mem_nil
  mechs := by decide

/-- A map whose file is not there, and one whose file ends behind the size. -/
theorem mapLoad_failed_small :
    (small.mapLoad (grassland, 0) [] none).2 = small ∧
      (small.mapLoad (grassland, 0) [] (some "1 2\n".toList)).2 = small :=
  ⟨((mapLoad_failed_iff small (grassland, 0) [] none small_wellFormed (by decide)).mpr
      (.inl rfl)).2,
    ((mapLoad_failed_iff small (grassland, 0) [] (some "1 2\n".toList) small_wellFormed
      (by decide)).mpr (.inr ⟨_, rfl, by unfold Respelled; decide +kernel⟩)).2⟩

/-- A file of two rows that ends after the first: the map of one row has two rows then, and
neither is as wide as the map. -/
theorem mapLoad_torn :
    (small.mapLoad (grassland, 0) [] (some "2 1\n#3\n".toList)).1 < 0 ∧
      ¬ (small.mapLoad (grassland, 0) [] (some "2 1\n#3\n".toList)).2.WellFormed ∧
      (small.mapLoad (grassland, 0) [] (some "2 1\n#3\n".toList)).2 ≠ small := by
  refine ⟨by decide, fun wellFormed => ?_, fun same => ?_⟩
  · exact absurd wellFormed.rows (by decide)
  · have rows := congrArg (fun m => m.map.length) same
    revert rows
    decide

end HexMap

end BattletechMux.MapFile
