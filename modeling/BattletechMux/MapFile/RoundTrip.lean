/-
Module: BattletechMux.MapFile.RoundTrip
Purpose: Loading reads exactly the bytes that saving wrote, for every map, and brings back the
  dynamic arrays and the objects; the bits of the hexes are read and lost.
-/
import BattletechMux.MapFile.Format

namespace BattletechMux.MapFile

open ByteCodec List
open Function (update)

/-- Two states of a map that differ in its objects at most. -/
structure SameMap (m m' : MapState) : Prop where
  mapWidth : m'.mapWidth = m.mapWidth
  mapHeight : m'.mapHeight = m.mapHeight
  firstFree : m'.firstFree = m.firstFree
  mechsOnMap : m'.mechsOnMap = m.mechsOnMap
  mechflags : m'.mechflags = m.mechflags
  losInfo : m'.losInfo = m.losInfo
  bits : m'.bits = m.bits

namespace SameMap

variable {m m' m'' : MapState}

theorem refl (m : MapState) : SameMap m m := ⟨rfl, rfl, rfl, rfl, rfl, rfl, rfl⟩

theorem trans (fst : SameMap m m') (snd : SameMap m' m'') : SameMap m m'' where
  mapWidth := snd.mapWidth.trans fst.mapWidth
  mapHeight := snd.mapHeight.trans fst.mapHeight
  firstFree := snd.firstFree.trans fst.firstFree
  mechsOnMap := snd.mechsOnMap.trans fst.mechsOnMap
  mechflags := snd.mechflags.trans fst.mechflags
  losInfo := snd.losInfo.trans fst.losInfo
  bits := snd.bits.trans fst.bits

theorem addMapobj (m : MapState) (type : Nat) (o : MapObj) :
    SameMap m (m.addMapobj type o) := ⟨rfl, rfl, rfl, rfl, rfl, rfl, rfl⟩

end SameMap

section Dynamic

variable {rest : List Byte} {k : Nat}

theorem chelo_append {front : List Byte} {count : Nat} (rest : List Byte) (k : Nat)
    (length : front.length = count) :
    Loader.chelo ⟨⟨front ++ rest, false⟩, k⟩ count = .ok (front, ⟨⟨rest, false⟩, k + 1⟩) := by
  unfold Loader.chelo
  rw [InFile.fread_append rest false length]
  exact if_pos length

theorem loadRows_append (count : Nat) (table losInfo : Nat → Nat → BitVec 16)
    (indices : List Nat) (rest : List Byte) (k : Nat) :
    ∃ losInfo', loadRows count indices losInfo
        ⟨⟨(indices.flatMap fun i => int16.encodeArray count (table i)) ++ rest, false⟩, k⟩ =
          .ok (losInfo', ⟨⟨rest, false⟩, k + indices.length⟩) ∧
      (∀ i ∈ indices, ∀ j < count, losInfo' i j = table i j) ∧
      ∀ i, i ∉ indices → losInfo' i = losInfo i := by
  induction indices generalizing losInfo k with
  | nil => exact ⟨losInfo, rfl, by simp, fun _ _ => rfl⟩
  | cons i later ih =>
    obtain ⟨losInfo', ran, rows, others⟩ := ih
      (update losInfo i (int16.decodeArray (int16.encodeArray count (table i)))) (k + 1)
    refine ⟨losInfo', ?_, ?_, ?_⟩
    · rw [flatMap_cons, append_assoc, loadRows,
        chelo_append _ k (int16.length_encodeArray count (table i)), length_cons,
        Nat.add_comm later.length 1, ← Nat.add_assoc]
      exact ran
    · intro row mem j hin
      by_cases again : row ∈ later
      · exact rows row again j hin
      · obtain rfl := (mem_cons.mp mem).resolve_right again
        rw [others row again, Function.update_self]
        exact int16.decodeArray_encodeArray (table row) hin
    · intro row absent
      rw [mem_cons, not_or] at absent
      rw [others row absent.2, Function.update_of_ne absent.1]

/-- What `load_mapdynamic` brings back. -/
structure SameDynamic (m m' : MapState) : Prop where
  mechsOnMap : ∀ i < m.firstFree, m'.mechsOnMap i = m.mechsOnMap i
  mechflags : ∀ i < m.firstFree, m'.mechflags i = m.mechflags i
  losInfo : ∀ i < m.firstFree, ∀ j < m.firstFree, m'.losInfo i j = m.losInfo i j

theorem checkMagic_append (m : MapState) (rest : List Byte) (k : Nat) :
    checkMagic m ⟨⟨byte.encode dynamicMagic ++ rest, false⟩, k⟩ =
      .ok (m, ⟨⟨rest, false⟩, k + 1⟩) := by
  unfold checkMagic
  rw [chelo_append rest k (byte.length_encode dynamicMagic)]
  simp only [bind, Except.bind, byte.decode_encode, if_true, pure, Except.pure]

theorem loadMapdynamic_saved {m start : MapState} (count : start.firstFree = m.firstFree)
    (rest : List Byte) (k : Nat) :
    ∃ mechsOnMap mechflags losInfo k', loadMapdynamic start
        ⟨⟨saveMapdynamic m ++ rest, false⟩, k⟩ =
          .ok ({ start with mechsOnMap, mechflags, losInfo }, ⟨⟨rest, false⟩, k'⟩) ∧
      SameDynamic m { start with mechsOnMap, mechflags, losInfo } := by
  unfold loadMapdynamic saveMapdynamic
  by_cases some' : 0 < m.firstFree
  · obtain ⟨losInfo, rows, eq, _⟩ := loadRows_append m.firstFree m.losInfo (fun _ _ => 0)
      (List.range m.firstFree) (byte.encode dynamicMagic ++ rest) (k + 1 + 1)
    have arrays : loadArrays start ⟨⟨int32.encodeArray m.firstFree m.mechsOnMap ++
        (byte.encodeArray m.firstFree m.mechflags ++
          (((List.range m.firstFree).flatMap fun i =>
            int16.encodeArray m.firstFree (m.losInfo i)) ++
              (byte.encode dynamicMagic ++ rest))), false⟩, k⟩ =
        .ok ({ start with
          mechsOnMap := int32.decodeArray (int32.encodeArray m.firstFree m.mechsOnMap)
          mechflags := byte.decodeArray (byte.encodeArray m.firstFree m.mechflags)
          losInfo }, ⟨⟨byte.encode dynamicMagic ++ rest, false⟩,
            k + 1 + 1 + (List.range m.firstFree).length⟩) := by
      unfold loadArrays
      simp only [count]
      rw [chelo_append _ k (int32.length_encodeArray m.firstFree m.mechsOnMap)]
      simp only [Except.bind, bind]
      rw [chelo_append _ (k + 1) (byte.length_encodeArray m.firstFree m.mechflags)]
      simp only
      rw [rows, ← count]
      rfl
    refine ⟨int32.decodeArray (int32.encodeArray m.firstFree m.mechsOnMap),
      byte.decodeArray (byte.encodeArray m.firstFree m.mechflags), losInfo,
      k + 1 + 1 + (List.range m.firstFree).length + 1, ?_, ?_⟩
    · rw [if_pos (count ▸ some')]
      simp only [some', if_true, append_assoc]
      rw [arrays]
      exact checkMagic_append _ rest _
    · constructor
      · exact fun i hin => int32.decodeArray_encodeArray m.mechsOnMap hin
      · exact fun i hin => byte.decodeArray_encodeArray m.mechflags hin
      · exact fun i hin => eq i (mem_range.mpr hin)
  · have none' : m.firstFree = 0 := Nat.eq_zero_of_not_pos some'
    refine ⟨start.mechsOnMap, start.mechflags, start.losInfo, k + 1, ?_, ?_⟩
    · rw [if_neg (count ▸ some')]
      simp only [some', if_false, nil_append]
      exact checkMagic_append start rest k
    · constructor <;> simp [none']

end Dynamic

section Bits

variable {a : Addresses} {m : MapState}

theorem loadBitRows_saved (foo : Bits) (size : Nat) (indices : List Nat) (rest : List Byte) :
    loadBitRows size (indices.map fun i => if (foo i).isSome then a.row i else 0)
      ⟨(indices.flatMap fun i => saveRow size (foo i)) ++ rest, false⟩ =
        some ⟨rest, false⟩ := by
  induction indices with
  | nil => rfl
  | cons i later ih =>
    rw [map_cons, flatMap_cons, loadBitRows]
    cases here : foo i with
    | none => simpa [saveRow] using ih
    | some row =>
      have length := byte.length_encodeArray size row
      simp only [Option.isSome_some, if_true, a.row_ne_null, if_false, append_assoc,
        saveRow]
      rw [InFile.fread_append _ false length]
      simp only [length, if_true]
      exact ih

theorem mapLoadBits_saved {start : MapState} (width : start.mapWidth = m.mapWidth)
    (height : start.mapHeight = m.mapHeight) (foo : Bits) (rest : List Byte) :
    mapLoadBits start ⟨int32.encodeArray m.mapHeight
        (fun i => if (foo i).isSome then a.row i else 0) ++
      ((List.range m.mapHeight).flatMap fun i => saveRow (realnum m.mapWidth) (foo i)) ++
        rest, false⟩ = some ⟨rest, false⟩ := by
  have length := int32.length_encodeArray m.mapHeight
    fun i => if (foo i).isSome then a.row i else 0
  have pointers : (List.range m.mapHeight).map (int32.decodeArray (int32.encodeArray m.mapHeight
      fun i => if (foo i).isSome then a.row i else 0)) =
        (List.range m.mapHeight).map fun i => if (foo i).isSome then a.row i else 0 := by
    apply map_congr_left
    intro i mem
    exact int32.decodeArray_encodeArray _ (mem_range.mp mem)
  unfold mapLoadBits
  rw [width, height, append_assoc, InFile.fread_append _ false length]
  simp only [length, if_true, pointers]
  exact loadBitRows_saved foo (realnum m.mapWidth) (List.range m.mapHeight) rest

end Bits

section Objects

variable {a : Addresses} {m m' m'' src : MapState}

/-- The end of a round of the loop of `load_mapobjs`, and the rounds after it. -/
def nextObjects (limit : Nat) (m : MapState) (tmpb : Byte) (tmp : List Byte) (f : InFile) :
    Option (MapState × InFile) :=
  let (next, f) := f.fread byte.width
  loadObjects limit m (if next.length = byte.width then byte.decode next else tmpb) tmp f

/-- Reading these bytes turns one state of the map into the other. -/
def Consumes (bytes : List Byte) (m m' : MapState) : Prop :=
  ∃ rounds ≤ bytes.length, ∀ limit rest tmpb tmp, ∃ tmpb' tmp',
    nextObjects (limit + rounds) m tmpb tmp ⟨bytes ++ rest, false⟩ =
      nextObjects limit m' tmpb' tmp' ⟨rest, false⟩

theorem Consumes.nil (m : MapState) : Consumes [] m m :=
  ⟨0, Nat.le_refl 0, fun _ _ tmpb tmp => ⟨tmpb, tmp, rfl⟩⟩

theorem Consumes.append {front back : List Byte} (fst : Consumes front m m')
    (snd : Consumes back m' m'') : Consumes (front ++ back) m m'' := by
  obtain ⟨one, oneLe, reads⟩ := fst
  obtain ⟨two, twoLe, readsThen⟩ := snd
  refine ⟨two + one, ?_, ?_⟩
  · rw [length_append]
    omega
  · intro limit rest tmpb tmp
    obtain ⟨tmpb', tmp', eq⟩ := reads (limit + two) (back ++ rest) tmpb tmp
    obtain ⟨tmpb'', tmp'', sameThen⟩ := readsThen limit rest tmpb' tmp'
    refine ⟨tmpb'', tmp'', ?_⟩
    rw [append_assoc, ← Nat.add_assoc, eq, sameThen]

theorem nextObjects_byte (limit : Nat) (m : MapState) (tmpb b : Byte) (tmp rest : List Byte) :
    nextObjects limit m tmpb tmp ⟨byte.encode b ++ rest, false⟩ =
      loadObjects limit m b tmp ⟨rest, false⟩ := by
  unfold nextObjects
  rw [InFile.fread_append rest false (byte.length_encode b)]
  simp only [byte.length_encode, if_true, byte.decode_encode]

theorem typeByte {i : Nat} (small : i < numMapobjtypes) :
    BitVec.ofNat 8 (i + 1) ≠ 0 ∧ (BitVec.ofNat 8 (i + 1)).toNat - 1 = i := by
  have below : i < 10 := small
  have value : (BitVec.ofNat 8 (i + 1)).toNat = i + 1 := by
    rw [BitVec.toNat_ofNat]
    omega
  constructor
  · intro zero
    rw [zero] at value
    simp at value
  · rw [value, Nat.add_sub_cancel]

theorem consumes_object {i : Nat} (small : i < numMapobjtypes) (notBits : i ≠ typeBits)
    (o : MapObj) (next : BitVec 32) (m : MapState) :
    Consumes (byte.encode (BitVec.ofNat 8 (i + 1)) ++ mapobjCodec.encode (o, next)) m
      (m.addMapobj i o) := by
  obtain ⟨notEnd, index⟩ := typeByte small
  refine ⟨1, ?_, ?_⟩
  · rw [length_append, byte.length_encode]
    exact Nat.le_add_right _ _
  · intro limit rest tmpb tmp
    have length := mapobjCodec.length_encode (o, next)
    refine ⟨BitVec.ofNat 8 (i + 1), mapobjCodec.encode (o, next) ++
      tmp.drop (mapobjCodec.encode (o, next)).length, ?_⟩
    rw [append_assoc, nextObjects_byte, loadObjects]
    simp only [notEnd, decide_false, Bool.or_false, Bool.false_eq_true, if_false, index, notBits]
    rw [InFile.fread_append rest false length]
    simp only [mapobjCodec.decode_append]
    rfl

theorem consumes_list {i : Nat} (small : i < numMapobjtypes) (notBits : i ≠ typeBits)
    (list : List MapObj) (m : MapState) :
    ∃ m', Consumes (saveList a i list) m m' ∧ SameMap m m' ∧
      m'.mapobj = update m.mapobj i (list.reverse ++ m.mapobj i) := by
  induction list generalizing m with
  | nil => exact ⟨m, Consumes.nil m, SameMap.refl m, by simp⟩
  | cons o next ih =>
    obtain ⟨m', reads, eq, pushed⟩ := ih (m.addMapobj i o)
    refine ⟨m', ?_, (SameMap.addMapobj m i o).trans eq, ?_⟩
    · exact (consumes_object small notBits o (a.mapobj next) m).append reads
    · rw [pushed]
      simp [MapState.addMapobj]

theorem consumes_bits (width : m.mapWidth = src.mapWidth) (height : m.mapHeight = src.mapHeight)
    (foo : Bits) : Consumes (mapSaveBits a src foo) m m := by
  unfold mapSaveBits
  simp only
  split
  · exact Consumes.nil m
  · obtain ⟨notEnd, index⟩ := @typeByte typeBits (by decide)
    refine ⟨1, ?_, ?_⟩
    · rw [length_append, length_append, byte.length_encode]
      exact Nat.le_add_right_of_le (Nat.le_add_right _ _)
    · intro limit rest tmpb tmp
      refine ⟨BitVec.ofNat 8 (typeBits + 1), tmp, ?_⟩
      have reads := @mapLoadBits_saved a src m width height (cleanRows src foo) rest
      rw [append_assoc, append_assoc, nextObjects_byte, loadObjects]
      simp only [notEnd, decide_false, Bool.or_false, Bool.false_eq_true, if_false, index,
        if_true]
      rw [← append_assoc, reads]
      rfl

theorem consumes_types (n : Nat) (small : n ≤ numMapobjtypes)
    (width : m.mapWidth = src.mapWidth) (height : m.mapHeight = src.mapHeight) :
    ∃ m', Consumes ((List.range n).flatMap (saveType a src)) m m' ∧ SameMap m m' ∧
      ∀ i, m'.mapobj i =
        if i < n ∧ i ≠ typeBits then (src.mapobj i).reverse ++ m.mapobj i else m.mapobj i := by
  induction n with
  | zero => exact ⟨m, Consumes.nil m, SameMap.refl m, by simp⟩
  | succ n ih =>
    obtain ⟨m', reads, eq, pushed⟩ := ih (Nat.le_of_succ_le small)
    rw [range_succ, flatMap_append, flatMap_singleton]
    have widthNow := eq.mapWidth.trans width
    have heightNow := eq.mapHeight.trans height
    unfold saveType at reads ⊢
    by_cases isBits : n = typeBits
    · refine ⟨m', reads.append ?_, eq, ?_⟩
      · rw [if_pos isBits]
        split
        · exact Consumes.nil m'
        · exact consumes_bits widthNow heightNow _
      · intro i
        rw [pushed]
        have unchanged : (i < n ∧ i ≠ typeBits) ↔ (i < n + 1 ∧ i ≠ typeBits) := by omega
        simp only [unchanged]
    · obtain ⟨m'', readsThen, sameThen, pushedThen⟩ :=
        @consumes_list a n small isBits (src.mapobj n) m'
      rw [if_neg isBits]
      refine ⟨m'', reads.append readsThen, eq.trans sameThen, ?_⟩
      intro i
      rw [pushedThen]
      by_cases here : i = n
      · subst here
        rw [Function.update_self, pushed, if_neg (fun below => Nat.lt_irrefl i below.1),
          if_pos ⟨Nat.lt_succ_self i, isBits⟩]
      · have unchanged : (i < n ∧ i ≠ typeBits) ↔ (i < n + 1 ∧ i ≠ typeBits) := by omega
        rw [Function.update_of_ne here, pushed]
        simp only [unchanged]

theorem loadObjects_first (limit : Nat) (m : MapState) (tmpb : Byte) (tmp : List Byte)
    {bytes : List Byte} (ahead : bytes ≠ []) :
    loadObjects limit m (byte.decode (InFile.fread ⟨bytes, false⟩ byte.width).1) tmp
        (InFile.fread ⟨bytes, false⟩ byte.width).2 =
      nextObjects limit m tmpb tmp ⟨bytes, false⟩ := by
  cases bytes with
  | nil => exact absurd rfl ahead
  | cons b later =>
    have width : byte.width = 1 := rfl
    simp [nextObjects, InFile.fread, width]

theorem loadMapobjs_saved {start : MapState} (width : start.mapWidth = src.mapWidth)
    (height : start.mapHeight = src.mapHeight) (rest : List Byte) :
    ∃ m', loadMapobjs start ⟨saveMapobjs a src ++ rest, false⟩ = some (m', ⟨rest, false⟩) ∧
      SameMap { start with bits := none } m' ∧
      ∀ i, m'.mapobj i =
        if i < numMapobjtypes ∧ i ≠ typeBits then (src.mapobj i).reverse else [] := by
  let cleared : MapState := { start with mapobj := fun _ => [], bits := none }
  let ending := byte.encode 0 ++ (byte.encode mapobjEndMagic ++ rest)
  let ahead := (List.range numMapobjtypes).flatMap (saveType a src) ++ ending
  obtain ⟨m', ⟨rounds, few, reads⟩, eq, lists⟩ :=
    @consumes_types a cleared src numMapobjtypes (Nat.le_refl _) width height
  have nonempty : ahead ≠ [] := by
    intro none'
    have length := congrArg List.length none'
    simp [ahead, ending, byte.length_encode] at length
    exact absurd length.2.1 (by decide)
  have hlt : ∃ extra, (InFile.fread ⟨ahead, false⟩ byte.width).2.bytes.length + 2 =
      extra + 1 + rounds := by
    have length : ahead.length = ((List.range numMapobjtypes).flatMap (saveType a src)).length +
      ending.length := length_append
    have left : (InFile.fread ⟨ahead, false⟩ byte.width).2.bytes.length = ahead.length - 1 :=
      length_drop
    have some' : 0 < ahead.length := length_pos_iff.mpr nonempty
    refine ⟨ahead.length - rounds, ?_⟩
    omega
  obtain ⟨extra, limit⟩ := hlt
  have objects : loadObjects ((InFile.fread ⟨ahead, false⟩ byte.width).2.bytes.length + 2)
      cleared (byte.decode (InFile.fread ⟨ahead, false⟩ byte.width).1) []
      (InFile.fread ⟨ahead, false⟩ byte.width).2 =
        some (m', ⟨byte.encode mapobjEndMagic ++ rest, false⟩) := by
    obtain ⟨tmpb', tmp', ran⟩ := reads (extra + 1) ending 0 []
    rw [loadObjects_first _ _ 0 _ nonempty, limit, ran, nextObjects_byte]
    rfl
  refine ⟨m', ?_, ?_, ?_⟩
  · have file : saveMapobjs a src ++ rest = byte.encode mapobjStartMagic ++ ahead := by
      simp only [saveMapobjs, ahead, ending, append_assoc]
    unfold loadMapobjs
    rw [file, InFile.fread_append ahead false (byte.length_encode mapobjStartMagic)]
    simp only [byte.decode_encode, ne_eq, not_true_eq_false, if_false]
    rw [objects]
    simp only [Option.bind_eq_bind, Option.bind_some,
      InFile.fread_append rest false (byte.length_encode mapobjEndMagic)]
  · exact ⟨eq.mapWidth, eq.mapHeight, eq.firstFree, eq.mechsOnMap, eq.mechflags,
      eq.losInfo, eq.bits⟩
  · intro i
    rw [lists]
    simp [cleared]

end Objects

section Maps

variable (a : Addresses)

/-- A map when `load_update1` comes to it: the tree and the terrain file give its size,
the number of its units and its flags. -/
def MapState.skeleton (m : MapState) : MapState :=
  { m with
    mechsOnMap := fun _ => 0, mechflags := fun _ => 0, losInfo := fun _ _ => 0
    mapobj := fun _ => [], bits := none }

structure Loaded (m m' : MapState) : Prop where
  dynamic : SameDynamic m m'
  firstFree : m'.firstFree = m.firstFree
  bits : m'.bits = none
  mapobj : ∀ i, m'.mapobj i =
    if m.mapo = true ∧ i < numMapobjtypes ∧ i ≠ typeBits then (m.mapobj i).reverse else []

theorem loadUpdate1_saved (m : MapState) (rest : List Byte) (k : Nat) :
    ∃ m' k', loadUpdate1 m.skeleton ⟨⟨saveMapsFunc a m ++ rest, false⟩, k⟩ =
        some (m', ⟨⟨rest, false⟩, k'⟩) ∧ Loaded m m' := by
  cases flag : m.mapo with
  | false =>
    obtain ⟨mechsOnMap, mechflags, losInfo, k', ran, dynamic⟩ :=
      @loadMapdynamic_saved m m.skeleton rfl rest k
    refine ⟨{ m.skeleton with mechsOnMap, mechflags, losInfo }, k', ?_, ?_⟩
    · simp [loadUpdate1, saveMapsFunc, MapState.skeleton, flag] at ran ⊢
      simp [ran]
    · exact ⟨⟨dynamic.mechsOnMap, dynamic.mechflags, dynamic.losInfo⟩, rfl, rfl,
        fun i => by simp [MapState.skeleton, flag]⟩
  | true =>
    obtain ⟨mechsOnMap, mechflags, losInfo, k', ran, dynamic⟩ :=
      @loadMapdynamic_saved m m.skeleton rfl (saveMapobjs a m ++ rest) k
    obtain ⟨m', objects, eq, lists⟩ := @loadMapobjs_saved a m
      { m.skeleton with mechsOnMap, mechflags, losInfo } rfl rfl rest
    refine ⟨m', k', ?_, ?_⟩
    · simp [loadUpdate1, saveMapsFunc, MapState.skeleton, flag] at ran objects ⊢
      simp [ran, objects]
    · refine ⟨⟨?_, ?_, ?_⟩, eq.firstFree, eq.bits, fun i => by simp [lists, flag]⟩
      · exact fun i hin => (congrFun eq.mechsOnMap i).trans (dynamic.mechsOnMap i hin)
      · exact fun i hin => (congrFun eq.mechflags i).trans (dynamic.mechflags i hin)
      · intro i hin j insideToo
        rw [eq.losInfo]
        exact dynamic.losInfo i hin j insideToo

/-- The bits of every hex and the objects of every type are as they were. -/
structure Restored (m m' : MapState) : Prop where
  isMineHex : ∀ x < m.mapWidth, ∀ y < m.mapHeight, m'.isMineHex x y = m.isMineHex x y
  isHangarHex : ∀ x < m.mapWidth, ∀ y < m.mapHeight, m'.isHangarHex x y = m.isHangarHex x y
  mapobj : ∀ i < numMapobjtypes, i ≠ typeBits → (m'.mapobj i).Perm (m.mapobj i)

/-- No hex has a bit, and a map without `MAPFLAG_MAPO` has no objects. -/
structure Bare (m : MapState) : Prop where
  isMineHex : ∀ x < m.mapWidth, ∀ y < m.mapHeight, m.isMineHex x y = 0
  isHangarHex : ∀ x < m.mapWidth, ∀ y < m.mapHeight, m.isHangarHex x y = 0
  mapobj : m.mapo = false → ∀ i < numMapobjtypes, i ≠ typeBits → m.mapobj i = []

variable {a}

theorem Loaded.issetbit {m m' : MapState} (loaded : Loaded m m') (n : Byte) (x y : Nat) :
    m'.issetbit n x y = 0 := by
  simp only [MapState.issetbit, loaded.bits]

theorem Loaded.restored_iff {m m' : MapState} (loaded : Loaded m m') :
    Restored m m' ↔ Bare m := by
  constructor
  · intro restored
    refine ⟨fun x left y above => ?_, fun x left y above => ?_, fun flag i small notBits => ?_⟩
    · exact (restored.isMineHex x left y above).symm.trans (loaded.issetbit bitMine x y)
    · exact (restored.isHangarHex x left y above).symm.trans (loaded.issetbit bitHangar x y)
    · have gone : m'.mapobj i = [] := by
        rw [loaded.mapobj, if_neg (by simp [flag])]
      exact (gone ▸ restored.mapobj i small notBits).nil_eq.symm
  · intro bare
    refine ⟨fun x left y above => ?_, fun x left y above => ?_, fun i small notBits => ?_⟩
    · exact (loaded.issetbit bitMine x y).trans (bare.isMineHex x left y above).symm
    · exact (loaded.issetbit bitHangar x y).trans (bare.isHangarHex x left y above).symm
    · rw [loaded.mapobj]
      cases flag : m.mapo with
      | false => simp [bare.mapobj flag i small notBits]
      | true => simp [small, notBits]

variable (a) (rest : List Byte)

/-- What `save_maps_func` writes for the maps of the tree. -/
def saveMaps (maps : List MapState) : List Byte := maps.flatMap (saveMapsFunc a)

/-- Each map takes exactly its own bytes off the file, and is restored.  The number is
how often `CHELO` was used before. -/
def RoundTrip : List MapState → Nat → Prop
  | [], _ => True
  | m :: later, k => ∃ m' k', loadUpdate1 m.skeleton
        ⟨⟨saveMapsFunc a m ++ (saveMaps a later ++ rest), false⟩, k⟩ =
          some (m', ⟨⟨saveMaps a later ++ rest, false⟩, k'⟩) ∧
      Restored m m' ∧ RoundTrip later k'

/-- The maps survive exactly when there were no bits to lose. -/
theorem maps_roundTrip_iff (maps : List MapState) (k : Nat) :
    RoundTrip a rest maps k ↔ ∀ m ∈ maps, Bare m := by
  induction maps generalizing k with
  | nil => simp [RoundTrip]
  | cons m later ih =>
    obtain ⟨m', k', ran, loaded⟩ := loadUpdate1_saved a m (saveMaps a later ++ rest) k
    rw [forall_mem_cons, ← loaded.restored_iff, ← ih k']
    constructor
    · rintro ⟨other, used, same, restored, others⟩
      rw [ran] at same
      obtain ⟨rfl, rfl⟩ : m' = other ∧ k' = used := by simpa using same
      exact ⟨restored, others⟩
    · rintro ⟨restored, others⟩
      exact ⟨m', k', ran, restored, others⟩

end Maps

def plainHex : MapState where
  mapWidth := 1
  mapHeight := 1
  firstFree := 0
  mapo := false
  mechsOnMap _ := 0
  mechflags _ := 0
  losInfo _ _ := 0
  mapobj _ := []
  bits := none

def heap : Addresses where
  mapobj _ := 4096
  row _ := 8192
  row_ne_null _ := by decide

/-- A mined hex is not a mined hex after the restart. -/
theorem mined_hex_forgotten : ¬ RoundTrip heap [] [plainHex.setHexMine 0 0] 0 := by
  rintro ⟨m', k', ran, restored, _⟩
  obtain ⟨other, used, same, loaded⟩ :=
    loadUpdate1_saved heap (plainHex.setHexMine 0 0) (saveMaps heap [] ++ []) 0
  rw [ran] at same
  obtain ⟨rfl, rfl⟩ : m' = other ∧ k' = used := by simpa using same
  have mined := (loaded.restored_iff.mp restored).isMineHex 0 (by decide) 0 (by decide)
  exact absurd mined (by decide)

end BattletechMux.MapFile
