/-
Module: BattletechMux.Pools.Buffers
Purpose: The buffer pools of alloc.c, blocks with headers and footers, and what pool_alloc and
  pool_free do with them.
Trusted boundary: malloc gives a place where there is no block, with any bytes in it, and does not
  fail; access to a place without a block, or past a block's footer, has no outcome; the counters do
  not overflow
-/
import Mathlib
import BattletechMux.Foundation.Chain

namespace BattletechMux.Pools

section

open Function (update)

/-! ## Memory -/

abbrev Addr := Nat
abbrev Bytes := Nat → UInt8

def wordAt (bytes : Bytes) (at' : Nat) : Nat :=
  (bytes at').toNat + 256 * ((bytes (at' + 1)).toNat + 256 * ((bytes (at' + 2)).toNat +
    256 * (bytes (at' + 3)).toNat))

def putWord (bytes : Bytes) (at' value : Nat) : Bytes := fun i =>
  if at' ≤ i ∧ i < at' + 4 then UInt8.ofNat (value / 256 ^ (i - at')) else bytes i

def poolMagicnum : Nat := 0xdeadbeef

/-- A block, with POOLHDR and POOLFTR; the footer is behind the bytes of the buffer. -/
structure Block where
  magicnum : Nat
  poolSize : Nat
  next : Option Addr
  nxtfree : Option Addr
  bytes : Bytes

inductive PoolNum
  | sbuf | mbuf | lbuf | bool | desc | qentry | pcache
deriving DecidableEq

def poolNums : List PoolNum := [.sbuf, .mbuf, .lbuf, .bool, .desc, .qentry, .pcache]

theorem mem_poolNums (p : PoolNum) : p ∈ poolNums := by cases p <;> decide

instance : Fintype PoolNum := Fintype.ofList poolNums mem_poolNums

structure Pool where
  poolSize : Nat
  freeHead : Option Addr
  chainHead : Option Addr
  totAlloc : Int
  numAlloc : Int
  maxAlloc : Int
  numLost : Int

structure Arena where
  pools : PoolNum → Pool
  heap : Addr → Option Block
  mallocs : Nat
  paranoidAlloc : Bool

structure Sizes where
  size : PoolNum → Nat
  room : ∀ p, 4 ≤ size p

def poolInit (poolSize : Nat) : Pool where
  poolSize := poolSize
  freeHead := none
  chainHead := none
  totAlloc := 0
  numAlloc := 0
  maxAlloc := 0
  numLost := 0

/-- All pools after pool_init. -/
def start (sizes : Sizes) (paranoidAlloc : Bool) : Arena where
  pools := fun p => poolInit (sizes.size p)
  heap := fun _ => none
  mallocs := 0
  paranoidAlloc := paranoidAlloc

/-- The footer where a pool has it, repaired when it is damaged. -/
def Block.repair (b : Block) (poolSize : Nat) : Option Block :=
  if b.poolSize < poolSize then none
  else if wordAt b.bytes poolSize ≠ poolMagicnum then
    some { b with bytes := putWord b.bytes poolSize poolMagicnum }
  else some b

/-- A block of a pool, as pool_alloc makes it of what malloc gave. -/
def Pool.block (pool : Pool) (bytes : Bytes) : Block where
  magicnum := poolMagicnum
  poolSize := pool.poolSize
  next := pool.chainHead
  nxtfree := none
  bytes := putWord (putWord bytes pool.poolSize poolMagicnum) 0 poolMagicnum

namespace Arena

variable (s : Arena)

def setPool (p : PoolNum) (pool : Pool) : Arena := { s with pools := update s.pools p pool }

def setBlock (ph : Addr) (b : Block) : Arena := { s with heap := update s.heap ph (some b) }

/-- Whether a buffer begins with the word that marks a free one. -/
def marked (buf : Addr) : Bool :=
  match s.heap buf with
  | some b => wordAt b.bytes 0 == poolMagicnum
  | none => false

/-! ## Verification -/

/-- The loop of pool_vfy, of which `rounds` rounds are left. -/
def vfyLoop (p : PoolNum) : Nat → Option Addr → Option Addr → Arena → Option Arena
  | _, _, none, s => some s
  | 0, _, some _, _ => none
  | rounds + 1, lastph, some ph, s => do
      let b ← s.heap ph
      if b.magicnum ≠ poolMagicnum then
        match lastph with
        | some last => do
            let l ← s.heap last
            some (s.setBlock last { l with next := none })
        | none => some (s.setPool p { s.pools p with chainHead := none })
      else do
        let b ← b.repair (s.pools p).poolSize
        vfyLoop p rounds (some ph) b.next (s.setBlock ph b)

def poolVfy (p : PoolNum) : Option Arena :=
  vfyLoop p (s.mallocs + 1) none (s.pools p).chainHead s

def poolCheck : Option Arena :=
  [PoolNum.lbuf, .mbuf, .sbuf, .bool, .desc, .qentry].foldlM (fun s p => s.poolVfy p) s

/-- What pool_alloc and pool_free begin with. -/
def paranoidCheck : Option Arena := if s.paranoidAlloc then s.poolCheck else some s

/-! ## Allocation -/

def newBlock (p : PoolNum) (h : Addr) (bytes : Bytes) : Arena :=
  let pool := s.pools p
  { (s.setBlock h (pool.block bytes)).setPool p
      { pool with chainHead := some h, maxAlloc := pool.maxAlloc + 1 } with
    mallocs := s.mallocs + 1 }

/-- The end of pool_alloc: the buffer is counted and its first word cleared. -/
def handOut (p : PoolNum) (ph : Addr) : Option (Addr × Arena) := do
  let b ← s.heap ph
  let pool := s.pools p
  let s := s.setPool p
    { pool with totAlloc := pool.totAlloc + 1, numAlloc := pool.numAlloc + 1 }
  some (ph, s.setBlock ph { b with bytes := putWord b.bytes 0 0 })

/-- pool_alloc, where malloc would give the place `h`. -/
def poolAlloc (p : PoolNum) (h : Addr) (bytes : Bytes) : Option (Addr × Arena) := do
  let s ← s.paranoidCheck
  match (s.pools p).freeHead with
  | none => (s.newBlock p h bytes).handOut p h
  | some ph => do
      let b ← s.heap ph
      let s := s.setPool p { s.pools p with freeHead := b.nxtfree }
      let repaired ← b.repair (s.pools p).poolSize
      if b.magicnum ≠ poolMagicnum then
        -- The rest of the free list is thrown away, and the loop takes its other branch.
        let pool := s.pools p
        let s := s.setPool p
          { pool with
            freeHead := none
            numLost := pool.numLost + (pool.totAlloc - pool.numAlloc)
            totAlloc := pool.numAlloc }
        ((s.setBlock ph repaired).newBlock p h bytes).handOut p h
      else (s.setBlock ph repaired).handOut p ph

/-! ## Release -/

def poolFree (p : PoolNum) (buf : Addr) : Option Arena := do
  let _ ← s.heap buf
  let s ← s.paranoidCheck
  let b ← s.heap buf
  let pool := s.pools p
  if b.magicnum ≠ poolMagicnum then
    some (s.setPool p
      { pool with
        numLost := pool.numLost + 1
        numAlloc := pool.numAlloc - 1
        totAlloc := pool.totAlloc - 1 })
  else do
    let b ← b.repair pool.poolSize
    let s := s.setBlock buf b
    if b.poolSize ≠ pool.poolSize then some s
    else if wordAt b.bytes 0 = poolMagicnum then some s
    else
      let s := s.setBlock buf
        { b with bytes := putWord b.bytes 0 poolMagicnum, nxtfree := pool.freeHead }
      some (s.setPool p { pool with freeHead := some buf, numAlloc := pool.numAlloc - 1 })

/-- The loop of pool_reset over the blocks of a pool: the new chain, and the blocks. -/
def resetLoop : Nat → Option Addr → Option Addr → (Addr → Option Block) →
    Option (Option Addr × (Addr → Option Block))
  | _, none, newchain, heap => some (newchain, heap)
  | 0, some _, _, _ => none
  | rounds + 1, some ph, newchain, heap => do
      let b ← heap ph
      if wordAt b.bytes 0 = poolMagicnum then resetLoop rounds b.next newchain (update heap ph none)
      else
        resetLoop rounds b.next (some ph)
          (update heap ph (some { b with next := newchain, nxtfree := none }))

/-- What pool_reset does with a pool. -/
def resetPool (p : PoolNum) : Option Arena := do
  let pool := s.pools p
  let (newchain, heap) ← resetLoop (s.mallocs + 1) pool.chainHead none s.heap
  some ({ s with heap := heap }.setPool p
    { pool with chainHead := newchain, freeHead := none, maxAlloc := pool.numAlloc })

def poolReset : Option Arena := poolNums.foldlM (fun s p => s.resetPool p) s

end Arena

/-! ## The callers -/

/-- A call, or a byte that the owner of a buffer writes into it. -/
inductive Call
  | alloc (p : PoolNum) (h : Addr) (bytes : Bytes)
  | free (p : PoolNum) (buf : Addr)
  | reset
  | write (buf : Addr) (offset : Nat) (byte : UInt8)

/-- The pools, and beside them the buffers of each that are live, and those that were freed and
neither given out again nor released since. -/
structure Watched where
  arena : Arena
  live : PoolNum → List Addr
  freed : PoolNum → List Addr

namespace Watched

def init (sizes : Sizes) (paranoidAlloc : Bool) : Watched where
  arena := start sizes paranoidAlloc
  live := fun _ => []
  freed := fun _ => []

/-- One call.  A buffer is live from when pool_alloc returns it until pool_free is called with it. -/
def step (w : Watched) : Call → Option Watched
  | .alloc p h bytes => do
      let (buf, arena) ← w.arena.poolAlloc p h bytes
      some
        { arena := arena
          live := update w.live p (buf :: w.live p)
          freed := update w.freed p ((w.freed p).erase buf) }
  | .free p buf => do
      let arena ← w.arena.poolFree p buf
      if buf ∈ w.live p then
        some
          { arena := arena
            live := update w.live p ((w.live p).erase buf)
            freed := update w.freed p (buf :: w.freed p) }
      else some { w with arena := arena }
  | .reset => do
      let arena ← w.arena.poolReset
      some { w with arena := arena, freed := fun _ => [] }
  | .write buf offset byte => do
      let b ← w.arena.heap buf
      some { w with arena := w.arena.setBlock buf { b with bytes := update b.bytes offset byte } }

/-- What any caller can do: malloc gives a place that is not in use, and only live buffers are
written, and within their size. -/
def Possible (w : Watched) : Call → Prop
  | .alloc _ h _ => w.arena.heap h = none
  | .write buf offset _ => ∃ p, buf ∈ w.live p ∧ offset < (w.arena.pools p).poolSize
  | _ => True

end Watched

end

open List Option
open Function (update update_self update_of_ne)
open LinkedMemory (Chain)

/-! ## Words -/

section Words

variable {bytes : Bytes} {at' value k : Nat}

theorem wordAt_congr {o : Bytes} (eq : ∀ i, at' ≤ i → i < at' + 4 → o i = bytes i) :
    wordAt o at' = wordAt bytes at' := by
  unfold wordAt
  rw [eq at' (by omega) (by omega), eq (at' + 1) (by omega) (by omega),
    eq (at' + 2) (by omega) (by omega), eq (at' + 3) (by omega) (by omega)]

theorem wordAt_putWord (small : value < 2 ^ 32) : wordAt (putWord bytes at' value) at' = value := by
  have byte : ∀ j < 4, (putWord bytes at' value (at' + j)).toNat = value / 256 ^ j % 256 := by
    intro j low
    rw [putWord, if_pos (by omega), Nat.add_sub_cancel_left]
    exact UInt8.toNat_ofNat'
  have low := byte 0 (by omega)
  rw [Nat.add_zero] at low
  rw [wordAt, low, byte 1 (by omega), byte 2 (by omega), byte 3 (by omega)]
  omega

theorem wordAt_putWord_of_apart (apart : k + 4 ≤ at' ∨ at' + 4 ≤ k) :
    wordAt (putWord bytes at' value) k = wordAt bytes k :=
  wordAt_congr fun i low high => by rw [putWord, if_neg (by omega)]

theorem wordAt_update_of_lt {byte : UInt8} (pre : k < at') :
    wordAt (update bytes k byte) at' = wordAt bytes at' :=
  wordAt_congr fun i low _ => update_of_ne (by omega) _ _

end Words

/-! ## Lists of a pool -/

namespace Arena

variable {s s' : Arena} {p : PoolNum} {a : Addr} {b b' : Block}

def next (s : Arena) (a : Addr) : Option Addr := (s.heap a).bind Block.next

def nxtfree (s : Arena) (a : Addr) : Option Addr := (s.heap a).bind Block.nxtfree

section

variable (there : s.heap a = some b)
include there

theorem next_of_heap : s.next a = b.next := by
  rw [next, there, bind_some]

theorem nxtfree_of_heap : s.nxtfree a = b.nxtfree := by
  rw [nxtfree, there, bind_some]

theorem marked_of_heap : s.marked a = (wordAt b.bytes 0 == poolMagicnum) := by
  rw [marked, there]

theorem setBlock_self : s.setBlock a b = s := by
  rw [setBlock, ← there, Function.update_eq_self]

end

theorem next_eq (now : s'.heap a = some b') (there : s.heap a = some b) (same : b'.next = b.next)
    (others : ∀ c, c ≠ a → s'.heap c = s.heap c) : s'.next = s.next := by
  funext c
  by_cases eq : c = a
  · rw [eq, next_of_heap now, next_of_heap there, same]
  · rw [next, others c eq, next]

@[simp] theorem setBlock_heap_self : (s.setBlock a b).heap a = some b := update_self _ _ _

theorem setBlock_heap_of_ne {o : Addr} (apart : o ≠ a) :
    (s.setBlock a b).heap o = s.heap o := update_of_ne apart _ _

@[simp] theorem setBlock_pools : (s.setBlock a b).pools = s.pools := rfl

@[simp] theorem setPool_heap (pool : Pool) : (s.setPool p pool).heap = s.heap := rfl

@[simp] theorem setPool_pools_self (pool : Pool) : (s.setPool p pool).pools p = pool :=
  update_self _ _ _

theorem setPool_setPool (pool pool' : Pool) :
    (s.setPool p pool).setPool p pool' = s.setPool p pool' := by
  rw [setPool, setPool, setPool, Function.update_idem]

theorem setPool_pools_of_ne {q : PoolNum} (apart : q ≠ p) (pool : Pool) :
    (s.setPool p pool).pools q = s.pools q := update_of_ne apart _ _

end Arena

structure Whole (poolSize : Nat) (b : Block) : Prop where
  header : b.magicnum = poolMagicnum
  size : b.poolSize = poolSize
  footer : wordAt b.bytes poolSize = poolMagicnum

/-- The pool `p`, where `live` are its live buffers and `freed` is its free list. -/
structure PoolSound (s : Arena) (p : PoolNum) (live freed : List Addr) : Prop where
  chain : ∃ chain, Chain s.next (s.pools p).chainHead chain ∧ chain.Perm (live ++ freed) ∧
    chain.length ≤ s.mallocs
  free : Chain s.nxtfree (s.pools p).freeHead freed
  blocks : ∀ a ∈ live ++ freed, ∃ b, s.heap a = some b ∧ Whole (s.pools p).poolSize b
  marks : ∀ a ∈ freed, s.marked a = true
  count : (s.pools p).numAlloc = live.length
  room : 4 ≤ (s.pools p).poolSize

namespace PoolSound

variable {s s' : Arena} {p : PoolNum} {live freed : List Addr} {a : Addr} {b : Block}

theorem nodup (sound : PoolSound s p live freed) : (live ++ freed).Nodup := by
  obtain ⟨chain, linked, perm, -⟩ := sound.chain
  exact perm.nodup_iff.mp linked.nodup

theorem frame (sound : PoolSound s p live freed)
    (heap : ∀ a ∈ live ++ freed, s'.heap a = s.heap a) (pools : s'.pools p = s.pools p)
    (mallocs : s.mallocs ≤ s'.mallocs) : PoolSound s' p live freed := by
  obtain ⟨chain, linked, perm, short⟩ := sound.chain
  refine ⟨⟨chain, ?_, perm, short.trans mallocs⟩, ?_, ?_, ?_, ?_, ?_⟩
  · rw [pools]
    exact linked.congr fun a mem => by
      rw [Arena.next, heap a (perm.mem_iff.mp mem), Arena.next]
  · rw [pools]
    exact sound.free.congr fun a mem => by
      rw [Arena.nxtfree, heap a (mem_append_right _ mem), Arena.nxtfree]
  · intro a mem
    rw [heap a mem, pools]
    exact sound.blocks a mem
  · intro a mem
    rw [Arena.marked, heap a (mem_append_right _ mem)]
    exact sound.marks a mem
  · rw [pools, sound.count]
  · rw [pools]
    exact sound.room

theorem whole_of_mem {chain : List Addr} (sound : PoolSound s p live freed)
    (perm : chain.Perm (live ++ freed)) :
    ∀ a ∈ chain, ∃ b, s.heap a = some b ∧ Whole (s.pools p).poolSize b :=
  fun a mem => sound.blocks a (perm.mem_iff.mp mem)

end PoolSound

structure Sound (w : Watched) : Prop where
  pool : ∀ p, PoolSound w.arena p (w.live p) (w.freed p)
  apart : ∀ p q, p ≠ q → ∀ a ∈ w.live p ++ w.freed p, a ∉ w.live q ++ w.freed q

/-! ## Verification finds nothing -/

namespace Arena

variable {s : Arena} {p : PoolNum}

theorem repair_whole {poolSize : Nat} {b : Block} (whole : Whole poolSize b) :
    b.repair poolSize = some b := by
  have big : ¬ b.poolSize < poolSize := by
    rw [whole.size]
    exact lt_irrefl _
  rw [Block.repair, if_neg big, if_neg (not_not.mpr whole.footer)]

theorem vfyLoop_whole {chain : List Addr} {rounds : Nat} {ph lastph : Option Addr}
    (linked : Chain s.next ph chain) (hlt : chain.length ≤ rounds)
    (whole : ∀ a ∈ chain, ∃ b, s.heap a = some b ∧ Whole (s.pools p).poolSize b) :
    vfyLoop p rounds lastph ph s = some s := by
  induction chain generalizing rounds ph lastph with
  | nil =>
    obtain rfl : ph = none := linked
    unfold vfyLoop
    rfl
  | cons a rest ih =>
    obtain ⟨rfl, later⟩ := linked
    obtain ⟨b, there, good⟩ := whole a mem_cons_self
    rw [next_of_heap there] at later
    cases rounds with
    | zero => exact absurd hlt (Nat.not_succ_le_zero _)
    | succ rounds =>
      have others : ∀ lastph, vfyLoop p rounds lastph b.next s = some s := fun _ =>
        ih later (Nat.le_of_succ_le_succ hlt)
          fun c mem => whole c (mem_cons_of_mem a mem)
      unfold vfyLoop
      rw [there, bind_eq_bind, bind_some,
        if_neg (not_not.mpr good.header), repair_whole good, bind_some,
        setBlock_self there, others]

theorem poolVfy_sound {live freed : List Addr} (sound : PoolSound s p live freed) :
    s.poolVfy p = some s := by
  obtain ⟨chain, linked, perm, short⟩ := sound.chain
  exact vfyLoop_whole linked (Nat.le_succ_of_le short) (sound.whole_of_mem perm)

variable {live freed : PoolNum → List Addr}

theorem poolCheck_sound (sound : ∀ p, PoolSound s p (live p) (freed p)) :
    s.poolCheck = some s := by
  have each : ∀ pools : List PoolNum, pools.foldlM (fun s p => s.poolVfy p) s = some s := by
    intro pools
    induction pools with
    | nil => rfl
    | cons p rest ih =>
      rw [foldlM_cons, poolVfy_sound (sound p)]
      exact ih
  exact each _

theorem paranoid_sound (sound : ∀ p, PoolSound s p (live p) (freed p)) :
    s.paranoidCheck = some s := by
  unfold paranoidCheck
  split
  · exact poolCheck_sound sound
  · rfl

end Arena

/-! ## Allocation -/

/-- What a call for the block `a` of the pool `p` leaves alone. -/
structure Elsewhere (s : Arena) (p : PoolNum) (a : Addr) (s' : Arena) : Prop where
  heap : ∀ c, c ≠ a → s'.heap c = s.heap c
  pools : ∀ q, q ≠ p → s'.pools q = s.pools q
  mallocs : s.mallocs ≤ s'.mallocs

theorem Arena.handOut_eq {s : Arena} {p : PoolNum} {a : Addr} {b : Block}
    (there : s.heap a = some b) :
    s.handOut p a = some (a, (s.setPool p
      { s.pools p with
        totAlloc := (s.pools p).totAlloc + 1
        numAlloc := (s.pools p).numAlloc + 1 }).setBlock a
      { b with bytes := putWord b.bytes 0 0 }) := by
  rw [handOut, there]
  rfl

theorem Pool.block_whole (pool : Pool) (room : 4 ≤ pool.poolSize) (bytes : Bytes) :
    Whole pool.poolSize (pool.block bytes) :=
  ⟨rfl, rfl, (wordAt_putWord_of_apart (Or.inr room)).trans (wordAt_putWord (by decide))⟩

theorem Whole.clear {poolSize : Nat} {b : Block} (whole : Whole poolSize b) (room : 4 ≤ poolSize)
    (value : Nat) (nxtfree : Option Addr) :
    Whole poolSize { b with bytes := putWord b.bytes 0 value, nxtfree := nxtfree } :=
  ⟨whole.header, whole.size, (wordAt_putWord_of_apart (Or.inr room)).trans whole.footer⟩

namespace PoolSound

variable {s s' : Arena} {p : PoolNum} {live freed : List Addr} {a : Addr}

theorem notMem_of_heap (sound : PoolSound s p live freed) (nothing : s.heap a = none) :
    a ∉ live ++ freed := by
  intro mem
  obtain ⟨b, there, -⟩ := sound.blocks a mem
  rw [nothing] at there
  exact absurd there (by simp)

theorem allocNew (sound : PoolSound s p live []) {h : Addr} (fresh : s.heap h = none)
    (bytes : Bytes) : ∃ s', (s.newBlock p h bytes).handOut p h = some (h, s') ∧
      PoolSound s' p (h :: live) [] ∧ Elsewhere s p h s' := by
  have new := sound.notMem_of_heap fresh
  obtain ⟨chain, linked, perm, short⟩ := sound.chain
  have given : (s.newBlock p h bytes).heap h = some ((s.pools p).block bytes) := update_self _ _ _
  have whole := ((s.pools p).block_whole sound.room bytes).clear sound.room 0 none
  refine ⟨_, Arena.handOut_eq given, ?_⟩
  generalize result : Arena.setBlock _ _ _ = s'
  have heap : s'.heap = update s.heap h
      (some { (s.pools p).block bytes with bytes := putWord ((s.pools p).block bytes).bytes 0 0 }) := by
    rw [← result]
    exact Function.update_idem _ _ _
  have pools : s'.pools = update s.pools p
      { s.pools p with
        chainHead := some h
        totAlloc := (s.pools p).totAlloc + 1
        numAlloc := (s.pools p).numAlloc + 1
        maxAlloc := (s.pools p).maxAlloc + 1 } := by
    rw [← result]
    simp only [Arena.setBlock, Arena.setPool, Arena.newBlock, Function.update_idem, update_self]
  have mallocs : s'.mallocs = s.mallocs + 1 := by rw [← result]; rfl
  have there := congrFun heap h
  rw [update_self] at there
  have others : ∀ c, c ≠ h → s'.heap c = s.heap c := fun c apart => by
    rw [heap, update_of_ne apart]
  refine ⟨⟨⟨h :: chain, ⟨?_, ?_⟩, perm.cons h, ?_⟩, ?_, ?_, ?_, ?_, ?_⟩,
    ⟨others, fun q apart => by rw [pools, update_of_ne apart], by omega⟩⟩
  · rw [pools, update_self]
  · rw [Arena.next_of_heap there]
    refine linked.congr fun c mem => ?_
    have apart : c ≠ h := fun eq => new (perm.mem_iff.mp (eq ▸ mem))
    rw [Arena.next, others c apart, Arena.next]
  · rw [mallocs, length_cons]
    omega
  · rw [pools, update_self]
    exact sound.free
  · intro c mem
    rw [pools, update_self]
    rcases mem_cons.mp mem with rfl | mem
    · exact ⟨_, there, whole⟩
    · have apart : c ≠ h := fun eq => new (eq ▸ mem)
      rw [others c apart]
      exact sound.blocks c mem
  · exact fun c mem => absurd mem not_mem_nil
  · rw [pools, update_self, length_cons, Nat.cast_succ, ← sound.count]
  · rw [pools, update_self]
    exact sound.room

theorem allocFree (sound : PoolSound s p live (a :: freed)) {b : Block}
    (there : s.heap a = some b) {s' : Arena}
    (heap : s'.heap = update s.heap a (some { b with bytes := putWord b.bytes 0 0 }))
    (pools : s'.pools = update s.pools p
      { s.pools p with
        freeHead := b.nxtfree
        totAlloc := (s.pools p).totAlloc + 1
        numAlloc := (s.pools p).numAlloc + 1 })
    (mallocs : s'.mallocs = s.mallocs) :
    PoolSound s' p (a :: live) freed ∧ Elsewhere s p a s' := by
  have nodup := sound.nodup
  have moved : (a :: live ++ freed).Perm (live ++ a :: freed) := perm_middle.symm
  have others : ∀ c, c ≠ a → s'.heap c = s.heap c := fun c apart => by
    rw [heap, update_of_ne apart]
  obtain ⟨b', there', whole⟩ := sound.blocks a (by simp)
  obtain rfl : b = b' := some.inj (there.symm.trans there')
  have now : s'.heap a = some { b with bytes := putWord b.bytes 0 0 } := by rw [heap, update_self]
  have next := Arena.next_eq now there rfl others
  have new : ∀ c ∈ freed, c ≠ a := by
    intro c mem eq
    rw [nodup_append] at nodup
    exact (nodup_cons.mp nodup.2.1).1 (eq ▸ mem)
  obtain ⟨chain, linked, perm, short⟩ := sound.chain
  refine ⟨⟨⟨chain, ?_, perm.trans moved.symm, ?_⟩, ?_, ?_, ?_, ?_, ?_⟩,
    ⟨others, fun q apart => by rw [pools, update_of_ne apart], by omega⟩⟩
  · rw [pools, update_self, next]
    exact linked
  · rw [mallocs]
    exact short
  · rw [pools, update_self]
    have rest := sound.free.2
    rw [Arena.nxtfree_of_heap there] at rest
    refine rest.congr fun c mem => ?_
    rw [Arena.nxtfree, others c (new c mem), Arena.nxtfree]
  · intro c mem
    rw [pools, update_self]
    by_cases eq : c = a
    · subst eq
      exact ⟨_, now, whole.clear sound.room 0 b.nxtfree⟩
    · rw [others c eq]
      exact sound.blocks c (moved.mem_iff.mp mem)
  · intro c mem
    rw [Arena.marked, others c (new c mem)]
    exact sound.marks c (mem_cons_of_mem a mem)
  · rw [pools, update_self, length_cons, Nat.cast_succ, ← sound.count]
  · rw [pools, update_self]
    exact sound.room

end PoolSound

theorem poolAlloc_spec {w : Watched} (sound : Sound w) (p : PoolNum) {h : Addr}
    (fresh : w.arena.heap h = none) (bytes : Bytes) :
    ∃ buf s', w.arena.poolAlloc p h bytes = some (buf, s') ∧ buf = (w.freed p).head?.getD h ∧
      PoolSound s' p (buf :: w.live p) (w.freed p).tail ∧ Elsewhere w.arena p buf s' := by
  have pool := sound.pool p
  have head := pool.free.head_eq
  rw [Arena.poolAlloc, Arena.paranoid_sound sound.pool, bind_eq_bind, bind_some]
  cases free : w.freed p with
  | nil =>
    rw [free] at pool head
    rw [head]
    obtain ⟨s', handed, sound', elsewhere⟩ := pool.allocNew fresh bytes
    exact ⟨h, s', handed, rfl, sound', elsewhere⟩
  | cons a freed =>
    rw [free] at pool head
    rw [head]
    obtain ⟨b, there, whole⟩ := pool.blocks a (by simp)
    have handed := Arena.handOut_eq (p := p)
      (show (w.arena.setPool p { w.arena.pools p with freeHead := b.nxtfree }).heap a = some b
        from there)
    rw [Arena.setPool_pools_self, Arena.setPool_setPool] at handed
    have kept : (w.arena.setPool p { w.arena.pools p with freeHead := b.nxtfree }).setBlock a b =
        w.arena.setPool p { w.arena.pools p with freeHead := b.nxtfree } :=
      Arena.setBlock_self there
    refine ⟨a, _, Eq.trans ?_ handed, rfl, pool.allocFree there rfl rfl rfl⟩
    simp only [head?_cons, there, bind_eq_bind, bind_some,
      Arena.setPool_pools_self, Arena.repair_whole whole, whole.header, ne_eq,
      not_true_eq_false, if_false, kept]

/-! ## Release -/

namespace PoolSound

variable {s s' : Arena} {p : PoolNum} {live freed : List Addr} {a : Addr} {b : Block}

theorem freeLive (sound : PoolSound s p live freed) (mem : a ∈ live)
    (there : s.heap a = some b)
    (heap : s'.heap = update s.heap a
      (some { b with
        bytes := putWord b.bytes 0 poolMagicnum
        nxtfree := (s.pools p).freeHead }))
    (pools : s'.pools = update s.pools p
      { s.pools p with freeHead := some a, numAlloc := (s.pools p).numAlloc - 1 })
    (mallocs : s'.mallocs = s.mallocs) :
    PoolSound s' p (live.erase a) (a :: freed) ∧ Elsewhere s p a s' := by
  have nodup := sound.nodup
  have moved : (live.erase a ++ a :: freed).Perm (live ++ freed) :=
    perm_middle.trans ((perm_cons_erase mem).symm.append_right freed)
  have others : ∀ c, c ≠ a → s'.heap c = s.heap c := fun c apart => by
    rw [heap, update_of_ne apart]
  obtain ⟨b', there', whole⟩ := sound.blocks a (mem_append_left _ mem)
  obtain rfl : b = b' := some.inj (there.symm.trans there')
  have now := congrFun heap a
  rw [update_self] at now
  have next := Arena.next_eq now there rfl others
  have new : ∀ c ∈ freed, c ≠ a := by
    rintro c later rfl
    exact (disjoint_of_nodup_append nodup) mem later
  obtain ⟨chain, linked, perm, short⟩ := sound.chain
  refine ⟨⟨⟨chain, ?_, perm.trans moved.symm, ?_⟩, ⟨?_, ?_⟩, ?_, ?_, ?_, ?_⟩,
    ⟨others, fun q apart => by rw [pools, update_of_ne apart], by omega⟩⟩
  · rw [pools, update_self, next]
    exact linked
  · rw [mallocs]
    exact short
  · rw [pools, update_self]
  · rw [Arena.nxtfree_of_heap now]
    refine sound.free.congr fun c later => ?_
    rw [Arena.nxtfree, others c (new c later), Arena.nxtfree]
  · intro c later
    rw [pools, update_self]
    by_cases eq : c = a
    · subst eq
      exact ⟨_, now, whole.clear sound.room poolMagicnum _⟩
    · rw [others c eq]
      exact sound.blocks c (moved.mem_iff.mp later)
  · intro c later
    by_cases eq : c = a
    · rw [eq, Arena.marked_of_heap now, beq_iff_eq]
      exact wordAt_putWord (by decide)
    · rw [Arena.marked, others c eq]
      exact sound.marks c ((mem_cons.mp later).resolve_left eq)
  · have pos := length_pos_of_mem mem
    rw [pools, update_self, length_erase_of_mem mem, Nat.cast_sub pos, Nat.cast_one,
      ← sound.count]
  · rw [pools, update_self]
    exact sound.room

theorem write (sound : PoolSound s p live freed) (mem : a ∈ live) (there : s.heap a = some b)
    {offset : Nat} (hin : offset < (s.pools p).poolSize) (byte : UInt8) :
    PoolSound (s.setBlock a { b with bytes := update b.bytes offset byte }) p live freed := by
  have nodup := sound.nodup
  obtain ⟨b', there', whole⟩ := sound.blocks a (mem_append_left _ mem)
  obtain rfl : b = b' := some.inj (there.symm.trans there')
  generalize result : s.setBlock a { b with bytes := update b.bytes offset byte } = s'
  have now : s'.heap a = some { b with bytes := update b.bytes offset byte } := by
    rw [← result, Arena.setBlock_heap_self]
  have others : ∀ c, c ≠ a → s'.heap c = s.heap c := fun c apart => by
    rw [← result, Arena.setBlock_heap_of_ne apart]
  have links : s'.next = s.next ∧ s'.nxtfree = s.nxtfree := by
    constructor
    · funext c
      by_cases eq : c = a
      · rw [eq, Arena.next_of_heap now, Arena.next_of_heap there]
      · rw [Arena.next, others c eq, Arena.next]
    · funext c
      by_cases eq : c = a
      · rw [eq, Arena.nxtfree_of_heap now, Arena.nxtfree_of_heap there]
      · rw [Arena.nxtfree, others c eq, Arena.nxtfree]
  have pools : s'.pools = s.pools := by rw [← result, Arena.setBlock_pools]
  obtain ⟨chain, linked, perm, short⟩ := sound.chain
  refine ⟨⟨chain, ?_, perm, ?_⟩, ?_, ?_, ?_, ?_, ?_⟩
  · rw [pools, links.1]
    exact linked
  · rw [← result]
    exact short
  · rw [pools, links.2]
    exact sound.free
  · intro c later
    rw [pools]
    by_cases eq : c = a
    · subst eq
      exact ⟨_, now, whole.header, whole.size, (wordAt_update_of_lt hin).trans whole.footer⟩
    · rw [others c eq]
      exact sound.blocks c later
  · intro c later
    have apart : c ≠ a := by
      rintro rfl
      exact (disjoint_of_nodup_append nodup) mem later
    rw [Arena.marked, others c apart]
    exact sound.marks c later
  · rw [pools, sound.count]
  · rw [pools]
    exact sound.room

end PoolSound

theorem poolFree_live {w : Watched} (sound : Sound w) {p : PoolNum} {a : Addr}
    (mem : a ∈ w.live p) (unmarked : w.arena.marked a = false) :
    ∃ s', w.arena.poolFree p a = some s' ∧
      PoolSound s' p ((w.live p).erase a) (a :: w.freed p) ∧ Elsewhere w.arena p a s' := by
  have pool := sound.pool p
  obtain ⟨b, there, whole⟩ := pool.blocks a (mem_append_left _ mem)
  have plain : wordAt b.bytes 0 ≠ poolMagicnum := by
    rw [Arena.marked_of_heap there] at unmarked
    simpa using unmarked
  refine ⟨((w.arena.setBlock a
      { b with
        bytes := putWord b.bytes 0 poolMagicnum
        nxtfree := (w.arena.pools p).freeHead }).setPool p
      { w.arena.pools p with freeHead := some a, numAlloc := (w.arena.pools p).numAlloc - 1 }),
    ?_, pool.freeLive mem there rfl rfl rfl⟩
  have kept := Arena.setBlock_self there
  simp only [Arena.poolFree, there, bind_eq_bind, bind_some,
    Arena.paranoid_sound sound.pool, whole.header, ne_eq, not_true_eq_false, if_false,
    Arena.repair_whole whole, whole.size, plain, kept]

theorem poolFree_freed {w : Watched} (sound : Sound w) {p : PoolNum} {a : Addr}
    (mem : a ∈ w.freed p) : w.arena.poolFree p a = some w.arena := by
  have pool := sound.pool p
  obtain ⟨b, there, whole⟩ := pool.blocks a (mem_append_right _ mem)
  have mark := pool.marks a mem
  rw [Arena.marked_of_heap there, beq_iff_eq] at mark
  simp only [Arena.poolFree, there, bind_eq_bind, bind_some,
    Arena.paranoid_sound sound.pool, whole.header, ne_eq, not_true_eq_false, if_false,
    Arena.repair_whole whole, whole.size, mark, if_true, Arena.setBlock_self there]

end BattletechMux.Pools
