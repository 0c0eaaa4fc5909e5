/-
Module: BattletechMux.Objects.Growth
Purpose: The blocks of memory of the database and how al_extend and db_grow replace them, in a build
  without MEMORY_BASED.
Trusted boundary: XMALLOC does not fail for a size of zero or more
-/
import Mathlib.Data.List.Basic
import Mathlib.Data.List.Range

namespace BattletechMux.Objects.Growth

variable {α Byte Name : Type}

/-! ## Blocks -/

/-- `bcopy` of the first `n` cells; `none` when they are not all inside of both blocks. -/
def bcopy (old new : List α) (n : Nat) : Option (List α) :=
  if n ≤ old.length ∧ n ≤ new.length then some (old.take n ++ new.drop n) else none

/-- A loop that changes `count` cells from `first` on; `none` when one is not inside. -/
def each (change : α → α) : Nat → Nat → List α → Option (List α)
  | _, 0, block => some block
  | first, count + 1, block => do
    let cell ← block[first]?
    each change (first + 1) count (block.set first (change cell))

def slot (block : Option (List α)) (k : Nat) : Option α := block.bind (·[k]?)

def xmalloc (garbage : Nat → α) (size : Int) : List α := (List.range size.toNat).map garbage

/-! ## Attribute lists -/

/-- `ATR_BUF_CHUNK` -/
def atrBufChunk : Int := 100

/-- `al_extend`: the buffer and its size -/
def alExtend (garbage : Nat → Byte) (buffer : Option (List Byte)) (bufsiz len : Int)
    (copy : Bool) : Option (Option (List Byte) × Int) :=
  if len > bufsiz then
    let bufsiz := len + atrBufChunk
    let tbuff := xmalloc garbage bufsiz
    match buffer with
    | some buffer =>
      if copy then (bcopy buffer tbuff bufsiz.toNat).map fun tbuff => (some tbuff, bufsiz)
      else some (some tbuff, bufsiz)
    | none => some (some tbuff, bufsiz)
  else some (buffer, bufsiz)

/-! ## The database -/

/-- `OBJ` -/
structure Obj where
  location : Int
  contents : Int
  exits : Int
  next : Int
  link : Int
  parent : Int
  owner : Int
  zone : Int
  flags : Nat
  flags2 : Nat
  flags3 : Nat
  powers : Nat
  powers2 : Nat
  stackhead : Option Nat
deriving DecidableEq

abbrev sizeHack : Nat := 1
def god : Int := 1
def nothing : Int := -1
def typeGarbage : Nat := 0x5
def going : Nat := 0x4000

/-- The body of `initialize_objects`. -/
def initializeObject (_ : Obj) : Obj where
  location := nothing
  contents := nothing
  exits := nothing
  next := nothing
  link := nothing
  parent := nothing
  owner := god
  zone := nothing
  flags := typeGarbage ||| going
  flags2 := 0
  flags3 := 0
  powers := 0
  powers2 := 0
  stackhead := none

/-- The loop over the 'reserved' area does not set the other two words of flags. -/
def reserveObject (thing : Obj) : Obj :=
  { initializeObject thing with flags2 := thing.flags2, flags3 := thing.flags3 }

/-- `mudconf.init_size`, `mudstate.min_size` and `mudconf.cache_names` -/
structure Config where
  initSize : Int
  minSize : Int
  cacheNames : Bool

abbrev Names (Name : Type) := Option (List (Option Name))

/-- The blocks that `names`, `purenames` and `db` point into, one behind their start, and
`mudstate.markbits`; `mudstate.db_top` and `mudstate.db_size`. -/
structure Tables (Name : Type) where
  names : Names Name
  purenames : Names Name
  db : Option (List Obj)
  markbits : Option (List Nat)
  dbTop : Nat
  dbSize : Nat

/-- What happens to `purenames` happens only if names are cached. -/
def Config.ifCached (config : Config) (change : Names Name → Option (Names Name))
    (purenames : Names Name) : Option (Names Name) :=
  if config.cacheNames then change purenames else some purenames

/-- `names` or `purenames` from `first` on set to NULL. -/
def clearNames (names : Names Name) (first count : Nat) : Option (Names Name) := do
  let cells ← names
  (each (fun _ => none) (first + sizeHack) count cells).map some

/-- `names` or `purenames` grown. -/
def growNames (names : Names Name) (newtop : Nat) (newsize : Int) : Option (Names Name) :=
  let newnames := List.replicate (newsize + sizeHack).toNat none
  match names with
  | some names => (bcopy names newnames (newtop + sizeHack)).map some
  | none => (each (fun _ => none) 0 sizeHack newnames).map some

/-- `newsize`: by a minimum of `delta` objects, and not below the minimum database size -/
def newSize (config : Config) (dbSize : Nat) (newtop : Int) : Int :=
  let newsize := if newtop ≤ dbSize + config.initSize then dbSize + config.initSize else newtop
  if newsize < config.minSize then config.minSize + config.initSize else newsize

/-- `db_grow`; `none` when it reads or writes outside of a block or XMALLOC fails. -/
def dbGrow (config : Config) (garbage : Nat → Obj) (s : Tables Name) (newtop : Int) :
    Option (Tables Name) :=
  if newtop ≤ s.dbTop then some s
  else
    let newtop := newtop.toNat
    let count := newtop - s.dbTop
    if newtop ≤ s.dbSize then do
      let names ← clearNames s.names s.dbTop count
      let purenames ← config.ifCached (clearNames · s.dbTop count) s.purenames
      let db ← each initializeObject (s.dbTop + sizeHack) count (← s.db)
      some { s with names := names, purenames := purenames, db := some db, dbTop := newtop }
    else do
      let newsize := newSize config s.dbSize newtop
      let names ← growNames s.names newtop newsize
      let purenames ← config.ifCached (growNames · newtop newsize) s.purenames
      let newdb := xmalloc garbage (newsize + sizeHack)
      let db ←
        match s.db with
        | some db => bcopy db newdb (s.dbTop + sizeHack)
        | none => each reserveObject 0 sizeHack newdb
      let names ← clearNames names s.dbTop count
      let purenames ← config.ifCached (clearNames · s.dbTop count) purenames
      let db ← each initializeObject (s.dbTop + sizeHack) count db
      let newmarkbuf := List.replicate ((newsize + 7) / 8).toNat 0
      let markbits ←
        match s.markbits with
        | some markbits => bcopy markbits newmarkbuf ((newtop + 7) / 8)
        | none => some newmarkbuf
      some ⟨names, purenames, some db, some markbits, newtop, newsize.toNat⟩

def Tables.Empty (s : Tables Name) : Prop :=
  s.names = none ∧ s.purenames = none ∧ s.db = none ∧ s.markbits = none ∧ s.dbSize = 0

def Sized (block : Option (List α)) (size : Nat) : Prop :=
  ∃ cells, block = some cells ∧ cells.length = size

/-- The sizes of the blocks: one cell more than `db_size`, and a bit for each object. -/
structure WellFormed (config : Config) (s : Tables Name) : Prop where
  top_le : s.dbTop ≤ s.dbSize
  blocks : s.Empty ∨ Sized s.names (s.dbSize + 1) ∧ Sized s.db (s.dbSize + 1) ∧
    Sized s.markbits ((s.dbSize + 7) / 8) ∧
    (if config.cacheNames then Sized s.purenames (s.dbSize + 1) else s.purenames = none)

/-- What was in the first cells is in the same place still. -/
def Kept (limit : Nat) (old new : Option (List α)) : Prop :=
  ∀ k < limit, ∀ cell, slot old k = some cell → slot new k = some cell

/-- The database after it grew: the old contents with the slot for #-1, new objects, names and
marks with nothing in them. -/
structure Grown (config : Config) (s s' : Tables Name) (newtop : Int) : Prop where
  wellFormed : WellFormed config s'
  top_eq : s'.dbTop = max s.dbTop newtop.toNat
  names : Kept (s.dbTop + 1) s.names s'.names
  purenames : Kept (s.dbTop + 1) s.purenames s'.purenames
  db : Kept (s.dbTop + 1) s.db s'.db
  marks : Kept ((s.dbSize + 7) / 8) s.markbits s'.markbits
  newObjects : ∀ thing : Nat, s.dbTop ≤ thing → thing < newtop →
    slot s'.names (thing + 1) = some none ∧
    (config.cacheNames → slot s'.purenames (thing + 1) = some none) ∧
    ∃ old, slot s'.db (thing + 1) = some (initializeObject old)
  newMarks : ∀ k, (s.dbSize + 7) / 8 ≤ k → k < (s'.dbSize + 7) / 8 → slot s'.markbits k = some 0

/-! ## Loops over cells -/

section Each

variable {first count : Nat} {block : List α}

theorem each_eq (change : α → α) (hin : first + count ≤ block.length) :
    ∃ changed, each change first count block = some changed ∧ changed.length = block.length ∧
      ∀ k, changed[k]? = if first ≤ k ∧ k < first + count then block[k]?.map change
        else block[k]? := by
  induction count generalizing first block with
  | zero =>
    refine ⟨block, rfl, rfl, fun k => ?_⟩
    rw [if_neg (by omega)]
  | succ count ih =>
    have here : first < block.length := by omega
    have later : first + 1 + count ≤ (block.set first (change block[first])).length := by
      rw [List.length_set]
      omega
    obtain ⟨changed, went, length, cells⟩ := ih later
    refine ⟨changed, ?_, by rw [length, List.length_set], fun k => ?_⟩
    · simp [each, here, went]
    · rw [cells k, List.getElem?_set]
      by_cases same : first = k
      · subst same
        rw [if_neg (by omega), if_pos (by omega)]
        simp [here]
      · simp only [same, if_false]
        split <;> split <;> first | rfl | omega

theorem each_eq_none {change : α → α} (outside : block.length < first + count)
    (some' : 0 < count) : each change first count block = none := by
  induction count generalizing first block with
  | zero => omega
  | succ count ih =>
    rw [each]
    by_cases here : first < block.length
    · simp only [List.getElem?_eq_getElem here, Option.bind_eq_bind, Option.bind_some]
      exact ih (by rw [List.length_set]; omega) (by omega)
    · rw [List.getElem?_eq_none (Nat.le_of_not_lt here)]
      rfl

end Each

theorem fill_eq (change : α → α) {top newtop : Nat} {block : List α} (grows : top < newtop)
    (hin : newtop + 1 ≤ block.length) :
    ∃ filled, each change (top + sizeHack) (newtop - top) block = some filled ∧
      filled.length = block.length ∧ Kept (top + 1) (some block) (some filled) ∧
      ∀ thing, top ≤ thing → thing < newtop → ∃ old, filled[thing + 1]? = some (change old) := by
  have room : top + 1 + (newtop - top) ≤ block.length := by omega
  obtain ⟨filled, went, length, cells⟩ := each_eq change room
  refine ⟨filled, went, length, fun k low cell there => ?_, fun thing above below => ?_⟩
  · show filled[k]? = _
    rw [cells, if_neg (by omega)]
    exact there
  · have here : thing + 1 < block.length := by omega
    refine ⟨block[thing + 1], ?_⟩
    rw [cells, if_pos (by omega), List.getElem?_eq_getElem here, Option.map_some]

structure Cleared (names names' : Names Name) (top newtop size : Nat) : Prop where
  sized : Sized names' size
  kept : Kept (top + 1) names names'
  new : ∀ thing, top ≤ thing → thing < newtop → slot names' (thing + 1) = some none

variable {names : Names Name}

theorem clearNames_eq {top newtop size : Nat} (sized : Sized names size)
    (grows : top < newtop) (hin : newtop + 1 ≤ size) :
    ∃ names', clearNames names top (newtop - top) = some names' ∧
      Cleared names names' top newtop size := by
  obtain ⟨cells, rfl, rfl⟩ := sized
  obtain ⟨filled, went, length, kept, new⟩ := fill_eq (fun _ => none) grows hin
  refine ⟨some filled, by simp [clearNames, went], ⟨filled, rfl, length⟩, kept, ?_⟩
  intro thing above below
  obtain ⟨_, null⟩ := new thing above below
  exact null

theorem clearNames_outside {top newtop size : Nat} (sized : Sized names size)
    (grows : top < newtop) (outside : size < newtop + 1) :
    clearNames names top (newtop - top) = none := by
  obtain ⟨cells, rfl, rfl⟩ := sized
  have stuck : each (fun _ => none) (top + sizeHack) (newtop - top) cells = none :=
    each_eq_none (by simp only [sizeHack]; omega) (by omega)
  simp [clearNames, stuck]

theorem growNames_null (newtop : Nat) {newsize : Int} (room : 0 ≤ newsize) :
    growNames (none : Names Name) newtop newsize =
      some (some (List.replicate (newsize.toNat + 1) none)) := by
  have size : (newsize + sizeHack).toNat = newsize.toNat + 1 := by
    simp only [sizeHack]
    omega
  rw [growNames, size]
  rfl

theorem growNames_outside {newtop size : Nat} (sized : Sized names size)
    (newsize : Int) (short : size < newtop + 1) : growNames names newtop newsize = none := by
  obtain ⟨cells, rfl, rfl⟩ := sized
  rw [growNames, bcopy, if_neg (by simp only [sizeHack]; omega)]
  rfl

section Grow

variable {config : Config} {s : Tables Name} {newtop : Nat}

theorem dbGrow_inside (formed : WellFormed config s) (garbage : Nat → Obj)
    (grows : s.dbTop < newtop) (hin : newtop ≤ s.dbSize) :
    ∃ s', dbGrow config garbage s newtop = some s' ∧ Grown config s s' newtop := by
  rcases formed.blocks with ⟨_, _, _, _, empty⟩ | ⟨named, ⟨db, dbs, dbSize⟩, marks, pures⟩
  · omega
  obtain ⟨names, clear, cleared⟩ := clearNames_eq named grows (by omega)
  obtain ⟨db', filled, length, keptDb, newDb⟩ :=
    fill_eq initializeObject grows (by omega : newtop + 1 ≤ db.length)
  have pure' : ∃ pure',
      config.ifCached (clearNames · s.dbTop (newtop - s.dbTop)) s.purenames = some pure' ∧
      (if config.cacheNames then Cleared s.purenames pure' s.dbTop newtop (s.dbSize + 1)
        else pure' = none ∧ s.purenames = none) := by
    cases cached : config.cacheNames with
    | false =>
      simp only [cached] at pures
      exact ⟨s.purenames, by simp [Config.ifCached, cached], pures, pures⟩
    | true =>
      simp only [cached, if_true] at pures
      obtain ⟨purenames, clear, cleared⟩ := clearNames_eq pures grows (by omega)
      exact ⟨purenames, by simpa [Config.ifCached, cached] using clear, cleared⟩
  obtain ⟨purenames, clearPure, clearedPure⟩ := pure'
  refine ⟨{ s with names := names, purenames := purenames, db := some db', dbTop := newtop },
    ?_, ⟨⟨hin, .inr ⟨cleared.sized, ⟨db', rfl, length.trans dbSize⟩, marks, ?_⟩⟩, ?_,
      cleared.kept, ?_, dbs ▸ keptDb, fun _ _ _ => id, ?_, ?_⟩⟩
  · rw [dbGrow, if_neg (by omega)]
    simp only [Int.toNat_natCast, hin, if_true, clear, clearPure, dbs, filled,
      Option.bind_eq_bind, Option.bind_some]
  · cases cached : config.cacheNames <;> simp only [cached] at clearedPure ⊢
    · exact clearedPure.1
    · exact clearedPure.sized
  · simp only [Int.toNat_natCast]
    omega
  · cases cached : config.cacheNames <;> simp only [cached] at clearedPure
    · intro k _ cell there
      simp [clearedPure.2, slot] at there
    · exact clearedPure.kept
  · intro thing above below
    rw [Int.ofNat_lt] at below
    refine ⟨cleared.new thing above below, fun cached => ?_, newDb thing above below⟩
    simp only [cached, if_true] at clearedPure
    exact clearedPure.new thing above below
  · intro k above below
    exact absurd below (by simpa using above)

theorem dbGrow_again (formed : WellFormed config s) (garbage : Nat → Obj)
    (there : ¬ s.Empty) (beyond : s.dbSize < newtop) :
    dbGrow config garbage s newtop = none := by
  have named := (formed.blocks.resolve_left there).1
  have top := formed.top_le
  rw [dbGrow, if_neg (by omega)]
  simp only [Int.toNat_natCast, if_neg (Nat.not_le.mpr beyond)]
  rw [growNames_outside named _ (by omega)]
  rfl

theorem newSize_ge (config : Config) (some' : 0 < newtop) :
    newtop ≤ newSize config 0 newtop ↔
      config.minSize ≤ newtop ∨ newtop ≤ config.minSize + config.initSize := by
  unfold newSize
  dsimp only
  split <;> split <;> omega

theorem dbGrow_small (empty : s.Empty) (formed : WellFormed config s) (garbage : Nat → Obj)
    (some' : 0 < newtop) (small : newSize config 0 newtop < newtop) :
    dbGrow config garbage s newtop = none := by
  obtain ⟨noNames, noPures, noDb, noMarks, noSize⟩ := empty
  have top := formed.top_le
  rw [dbGrow, if_neg (by omega)]
  simp only [Int.toNat_natCast, noSize, if_neg (Nat.not_le.mpr some'), noNames, noDb]
  by_cases room : 0 ≤ newSize config 0 newtop
  · have outside : clearNames (some (List.replicate ((newSize config 0 newtop).toNat + 1)
        (none : Option Name))) s.dbTop (newtop - s.dbTop) = none :=
      clearNames_outside ⟨_, rfl, List.length_replicate⟩ (by omega) (by omega)
    rw [growNames_null newtop room]
    simp only [Option.bind_eq_bind, Option.bind_some, outside, Option.bind_none]
    cases config.ifCached (growNames · newtop (newSize config 0 newtop)) s.purenames with
    | none => rfl
    | some purenames => simp
  · have nothing' : (newSize config 0 newtop + sizeHack).toNat = 0 := by
      simp only [sizeHack]
      omega
    have stuck : growNames (none : Names Name) newtop (newSize config 0 newtop) = none := by
      rw [growNames, nothing']
      rfl
    rw [stuck]
    rfl

theorem dbGrow_first (empty : s.Empty) (formed : WellFormed config s) (garbage : Nat → Obj)
    (some' : 0 < newtop) (large : newtop ≤ newSize config 0 newtop) :
    ∃ s', dbGrow config garbage s newtop = some s' ∧ Grown config s s' newtop := by
  obtain ⟨noNames, noPures, noDb, noMarks, noSize⟩ := empty
  have top := formed.top_le
  have noTop : s.dbTop = 0 := by omega
  obtain ⟨size, same⟩ := Int.eq_ofNat_of_zero_le (Int.le_trans (Int.natCast_nonneg _) large)
  rw [same, Int.ofNat_le] at large
  have nulls : Sized (some (List.replicate (size + 1) (none : Option Name))) (size + 1) :=
    ⟨_, rfl, List.length_replicate⟩
  obtain ⟨names, clear, cleared⟩ := clearNames_eq nulls some' (Nat.succ_le_succ large)
  have length : (xmalloc garbage ((size : Int) + sizeHack)).length = size + 1 := by
    simp only [xmalloc, List.length_map, List.length_range, sizeHack]
    omega
  have reserve : 0 + sizeHack ≤ (xmalloc garbage ((size : Int) + sizeHack)).length := by
    rw [length]
    exact Nat.le_add_left 1 size
  obtain ⟨newdb, reserved, lengthNew, -⟩ := each_eq reserveObject reserve
  obtain ⟨db, filled, lengthDb, -, newDb⟩ :=
    fill_eq initializeObject some' (by omega : newtop + 1 ≤ newdb.length)
  have grown := @growNames_null Name newtop _ (Int.natCast_nonneg size)
  have marks : (((size : Int) + 7) / 8).toNat = (size + 7) / 8 := by omega
  have top' : newtop ≤ size := large
  rw [Nat.sub_zero] at clear
  rw [Nat.sub_zero, Nat.zero_add] at filled
  rw [Int.toNat_natCast] at grown
  refine ⟨⟨names, if config.cacheNames then names else none, some db,
    some (List.replicate ((size + 7) / 8) 0), newtop, size⟩, ?_, ⟨⟨top', .inr ⟨cleared.sized,
      ⟨db, rfl, lengthDb.trans (lengthNew.trans length)⟩, ⟨_, rfl, List.length_replicate⟩, ?_⟩⟩,
    ?_, ?_, ?_, ?_, ?_, ?_, ?_⟩⟩
  · rw [dbGrow, if_neg (by omega)]
    simp only [Int.toNat_natCast, noSize, if_neg (Nat.not_le.mpr some'), noNames, noPures, noDb,
      noMarks, noTop, Nat.sub_zero, Nat.zero_add, same, grown, Option.bind_eq_bind, Option.bind_some,
      clear, reserved, filled, marks]
    cases cached : config.cacheNames <;>
      simp [Config.ifCached, cached, grown, clear]
  · cases config.cacheNames
    · rfl
    · exact cleared.sized
  · simp only [Int.toNat_natCast]
    omega
  · simp [noNames, Kept, slot]
  · simp [noPures, Kept, slot]
  · simp [noDb, Kept, slot]
  · simp [noMarks, Kept, slot]
  · intro thing above below
    rw [Int.ofNat_lt] at below
    have new := cleared.new thing (by omega) below
    refine ⟨new, fun cached => ?_, newDb thing (by omega) below⟩
    simpa [cached] using new
  · intro k _ below
    exact List.getElem?_replicate_of_lt below

end Grow

/-- The attribute buffer after it was made large enough for `len` bytes. -/
structure Extended (buffer buffer' : Option (List Byte)) (bufsiz' len : Int) (copy : Bool) :
    Prop where
  size : ∀ bytes, buffer' = some bytes → (bytes.length : Int) = bufsiz'
  large : len ≤ bufsiz'
  kept : copy → ∀ bytes, buffer = some bytes → Kept bytes.length buffer buffer'

theorem alExtend_iff (garbage : Nat → Byte) {buffer : Option (List Byte)} {bufsiz : Nat}
    (sized : ∀ bytes, buffer = some bytes → bytes.length = bufsiz) (len : Int) (copy : Bool) :
    (∃ buffer' bufsiz', alExtend garbage buffer bufsiz len copy = some (buffer', bufsiz') ∧
      Extended buffer buffer' bufsiz' len copy) ↔
      len ≤ bufsiz ∨ buffer = none ∨ copy = false := by
  unfold alExtend
  by_cases hlt : len ≤ bufsiz
  · rw [if_neg (by omega)]
    refine iff_of_true ⟨buffer, bufsiz, rfl, ?_, hlt, fun _ _ _ _ _ _ => id⟩ (.inl hlt)
    exact fun bytes there => congrArg _ (sized bytes there)
  · rw [if_pos (by omega)]
    have length : ((xmalloc garbage (len + atrBufChunk)).length : Int) = len + atrBufChunk := by
      simp only [xmalloc, List.length_map, List.length_range, atrBufChunk]
      omega
    have more : len ≤ len + atrBufChunk := by
      simp only [atrBufChunk]
      omega
    cases buffer with
    | none =>
      refine iff_of_true ⟨_, _, rfl, ?_, more, nofun⟩ (.inr (.inl rfl))
      rintro _ ⟨⟩
      exact length
    | some old =>
      have size := sized old rfl
      cases copy with
      | false =>
        refine iff_of_true ⟨_, _, rfl, ?_, more, nofun⟩ (.inr (.inr rfl))
        rintro _ ⟨⟩
        exact length
      | true =>
        refine iff_of_false ?_ (by simpa using hlt)
        have beyond : ¬ ((len + atrBufChunk).toNat ≤ old.length ∧
            (len + atrBufChunk).toNat ≤ (xmalloc garbage (len + atrBufChunk)).length) := by
          omega
        simp only [if_true, bcopy, beyond, if_false]
        simp

theorem dbGrow_iff (config : Config) (garbage : Nat → Obj) {s : Tables Name}
    (formed : WellFormed config s) (newtop : Int) :
    (∃ s', dbGrow config garbage s newtop = some s' ∧ Grown config s s' newtop) ↔
      newtop ≤ s.dbSize ∨
        s.Empty ∧ (config.minSize ≤ newtop ∨ newtop ≤ config.minSize + config.initSize) := by
  have top := formed.top_le
  by_cases ignored : newtop ≤ s.dbTop
  · refine iff_of_true ⟨s, by rw [dbGrow, if_pos ignored], formed, by omega, fun _ _ _ => id,
      fun _ _ _ => id, fun _ _ _ => id, fun _ _ _ => id, fun thing above below => ?_,
      fun k above below => ?_⟩ (.inl (by omega))
    · omega
    · omega
  obtain ⟨size, rfl⟩ := Int.eq_ofNat_of_zero_le (by omega : 0 ≤ newtop)
  by_cases hin : size ≤ s.dbSize
  · exact iff_of_true (dbGrow_inside formed garbage (by omega) hin) (.inl (by omega))
  by_cases empty : s.Empty
  · rw [← newSize_ge config (by omega)]
    by_cases large : size ≤ newSize config 0 size
    · exact iff_of_true (dbGrow_first empty formed garbage (by omega) large) (.inr ⟨empty, large⟩)
    · have stuck := dbGrow_small empty formed garbage (by omega) (Int.not_le.mp large)
      exact iff_of_false (by simp [stuck]) (by simp [large]; omega)
  · have stuck := dbGrow_again formed garbage empty (Nat.lt_of_not_le hin)
    exact iff_of_false (by simp [stuck]) (by simp [empty]; omega)

/-- Exactly when growing stays inside of the old blocks, keeps what they hold and initialises what
is new: the attribute buffer unless it must be copied, the database up to its allocated size and
for the first time. -/
theorem growth_stays_inside :
    (∀ (garbage : Nat → Byte) (buffer : Option (List Byte)) (bufsiz : Nat) (len : Int)
      (copy : Bool), (∀ bytes, buffer = some bytes → bytes.length = bufsiz) →
      ((∃ buffer' bufsiz', alExtend garbage buffer bufsiz len copy = some (buffer', bufsiz') ∧
        Extended buffer buffer' bufsiz' len copy) ↔
        len ≤ bufsiz ∨ buffer = none ∨ copy = false)) ∧
    ∀ (config : Config) (garbage : Nat → Obj) (s : Tables Name) (newtop : Int),
      WellFormed config s →
      ((∃ s', dbGrow config garbage s newtop = some s' ∧ Grown config s s' newtop) ↔
        newtop ≤ s.dbSize ∨
          s.Empty ∧ (config.minSize ≤ newtop ∨ newtop ≤ config.minSize + config.initSize)) :=
  ⟨fun garbage _ _ len copy sized => alExtend_iff garbage sized len copy,
    fun config garbage _ newtop formed => dbGrow_iff config garbage formed newtop⟩

def zeroed : Obj := ⟨0, 0, 0, 0, 0, 0, 0, 0, 0, 0, 0, 0, 0, none⟩

/-- The first buffer, and the first object. -/
theorem growth_stays_inside_first :
    (∃ buffer' bufsiz', alExtend (fun _ => 0) none 0 5 true = some (buffer', bufsiz') ∧
      Extended none buffer' bufsiz' 5 true) ∧
    ∃ s', dbGrow ⟨1, 0, true⟩ (fun _ => zeroed) (⟨none, none, none, none, 0, 0⟩ : Tables Unit) 1 =
      some s' ∧ Grown ⟨1, 0, true⟩ ⟨none, none, none, none, 0, 0⟩ s' 1 := by
  obtain ⟨extend, grow⟩ := @growth_stays_inside Nat Unit
  exact ⟨(extend (fun _ => 0) none 0 5 true nofun).mpr (.inr (.inl rfl)),
    (grow ⟨1, 0, true⟩ (fun _ => zeroed) ⟨none, none, none, none, 0, 0⟩ 1
      ⟨le_rfl, .inl ⟨rfl, rfl, rfl, rfl, rfl⟩⟩).mpr
      (.inr ⟨⟨rfl, rfl, rfl, rfl, rfl⟩, .inl (by decide)⟩)⟩

/-- A list of four bytes in a buffer of four is asked to hold five; a database that was given room
for one object is asked for two. -/
theorem growth_reads_outside :
    alExtend (fun _ => 0) (some [1, 2, 3, 4]) 4 5 true = none ∧
    ∃ s : Tables Unit,
      dbGrow ⟨1, 0, true⟩ (fun _ => initializeObject ⟨0, 0, 0, 0, 0, 0, 0, 0, 0, 0, 0, 0, 0, none⟩)
        ⟨none, none, none, none, 0, 0⟩ 1 = some s ∧
      dbGrow ⟨1, 0, true⟩ (fun _ => initializeObject ⟨0, 0, 0, 0, 0, 0, 0, 0, 0, 0, 0, 0, 0, none⟩)
        s 2 = none :=
  ⟨rfl, _, rfl, rfl⟩

end BattletechMux.Objects.Growth
