/-
Module: BattletechMux.Hash.Table
Purpose: The hash tables of htab.c over explicit memory: an entry has an address, and its fields are
  functions of it.
Trusted boundary: sizes are below 2^30, as those of the source
-/
import BattletechMux.Foundation.Chain
import BattletechMux.Foundation.Machine

namespace BattletechMux.Hash

open Function (update)

/-- A kind of keys: how a key and the mask give the index of a chain. -/
structure KeyKind (Key : Type) where
  hval : Key → Nat → Nat
  hval_le : ∀ key mask, hval key mask ≤ mask

abbrev CString := List (BitVec 8)

/-- The loop of `hashval`; the characters are signed. -/
def hashSum (str : CString) : BitVec 32 :=
  str.foldl (fun hash c => (hash <<< 5) + hash + c.signExtend 32) 0

def hashval (str : CString) (hashmask : Nat) : Nat := (hashSum str).toNat &&& hashmask

def stringKeys : KeyKind CString where
  hval := hashval
  hval_le _ _ := Nat.and_le_right

def numberKeys : KeyKind (BitVec 32) where
  hval val mask := val.toNat &&& mask
  hval_le _ _ := Nat.and_le_right

abbrev Addr := Nat

structure Table (Key Data : Type) where
  hashsize : Nat
  mask : Nat
  checks : Nat
  scans : Nat
  maxScan : Nat
  hits : Nat
  entries : Int
  deletes : Int
  nulls : Int
  /-- `entry->element` -/
  element : Nat → Option Addr
  target : Addr → Key
  data : Addr → Data
  /-- the `checks` of an entry -/
  entryChecks : Addr → Nat
  next : Addr → Option Addr
  /-- The entries `malloc` has handed out so far are those below this address. -/
  allocated : Nat

/-- The loop of `get_hashmask`. -/
def doubled (size : Int) : Nat → Nat → Nat
  | 0, tsize => tsize
  | limit + 1, tsize => if (tsize : Int) < size then doubled size limit (2 * tsize) else tsize

/-- The `*size` that `get_hashmask` leaves. -/
def hashsizeOf (size : Int) : Nat := doubled size size.toNat 1

def getHashmask (size : Int) : Nat := hashsizeOf size - 1

def Table.blank {Key Data : Type} [Inhabited Key] [Inhabited Data] : Table Key Data where
  hashsize := 0
  mask := 0
  checks := 0
  scans := 0
  maxScan := 0
  hits := 0
  entries := 0
  deletes := 0
  nulls := 0
  element := fun _ => none
  target := fun _ => default
  data := fun _ => default
  entryChecks := fun _ => 0
  next := fun _ => none
  allocated := 0

section Functions

variable {Key Data : Type} [DecidableEq Key] (kind : KeyKind Key) (htab : Table Key Data)

/-- The part of `hashinit` that sets the fields. -/
def Table.init (size : Int) : Table Key Data :=
  { htab with
    mask := getHashmask size
    hashsize := hashsizeOf size
    checks := 0, scans := 0, maxScan := 0, hits := 0, entries := 0, deletes := 0
    nulls := hashsizeOf size
    element := fun i => if i < hashsizeOf size then none else htab.element i }

/-- The loop through a chain: the entry before the one with the key, that entry, and
how many were looked at.  `limit` bounds the loop. -/
def Table.walk (str : Key) : Nat → Option Addr → Option Addr → Nat →
    Option (Option Addr × Option Addr × Nat)
  | 0, _, _, _ => none
  | _ + 1, prev, none, numchecks => some (prev, none, numchecks)
  | limit + 1, prev, some hptr, numchecks =>
    if htab.target hptr = str then some (prev, some hptr, numchecks + 1)
    else Table.walk str limit (some hptr) (htab.next hptr) (numchecks + 1)

/-- An entry that has been checked often goes to the head of its chain. -/
def Table.moveToFront (prev hptr : Addr) (hval : Nat) : Table Key Data :=
  { htab with
    next := update (update htab.next prev (htab.next hptr)) hptr (htab.element hval)
    element := update htab.element hval (some hptr)
    entryChecks := update htab.entryChecks hptr 0 }

def Table.counted (numchecks : Nat) : Table Key Data :=
  { htab with
    scans := htab.scans + 1
    maxScan := max htab.maxScan numchecks
    checks := htab.checks + numchecks }

def Table.hit (prev : Option Addr) (hptr : Addr) (hval : Nat) : Table Key Data :=
  let htab : Table Key Data :=
    { htab with
      hits := htab.hits + 1
      entryChecks := update htab.entryChecks hptr (htab.entryChecks hptr + 1) }
  match prev with
  | some prev =>
    if 20 < htab.entryChecks hptr ∧ hptr ≠ prev then htab.moveToFront prev hptr hval else htab
  | none => htab

/-- `hashfind` and `nhashfind`. -/
def Table.find (str : Key) : Option (Option Data × Table Key Data) := do
  let hval := kind.hval str htab.mask
  let start := htab.element hval
  let (prev, hptr, numchecks) ← htab.walk str (htab.allocated + 1) start start 0
  match hptr with
  | some hptr => some (some (htab.data hptr), (htab.counted numchecks).hit prev hptr hval)
  | none => some (none, htab.counted numchecks)

def Table.insert (str : Key) (hashdata : Data) (hval : Nat) : Table Key Data :=
  let hptr := htab.allocated
  { htab with
    entries := htab.entries + 1
    nulls := if htab.element hval = none then htab.nulls - 1 else htab.nulls
    target := update htab.target hptr str
    data := update htab.data hptr hashdata
    entryChecks := update htab.entryChecks hptr 0
    next := update htab.next hptr (htab.element hval)
    element := update htab.element hval (some hptr)
    allocated := hptr + 1 }

/-- `hashadd` and `nhashadd`. -/
def Table.add (str : Key) (hashdata : Data) : Option (Int × Table Key Data) := do
  let (found, htab) ← htab.find kind str
  if found.isSome then some (-1, htab)
  else some (0, htab.insert str hashdata (kind.hval str htab.mask))

def Table.unlink (last : Option Addr) (hptr : Addr) (hval : Nat) : Table Key Data :=
  match last with
  | none => { htab with element := update htab.element hval (htab.next hptr) }
  | some last => { htab with next := update htab.next last (htab.next hptr) }

def Table.deleted (hval : Nat) : Table Key Data :=
  { htab with
    deletes := htab.deletes + 1
    entries := htab.entries - 1
    nulls := if htab.element hval = none then htab.nulls + 1 else htab.nulls }

/-- `hashdelete` and `nhashdelete`. -/
def Table.delete (str : Key) : Option (Table Key Data) := do
  let hval := kind.hval str htab.mask
  let (last, hptr, _) ← htab.walk str (htab.allocated + 1) none (htab.element hval) 0
  match hptr with
  | some hptr => some ((htab.unlink last hptr hval).deleted hval)
  | none => some htab

/-- `hashflush` and `nhashflush`. -/
def Table.flush (size : Int) : Table Key Data :=
  let htab : Table Key Data :=
    { htab with element := fun i => if i < htab.hashsize then none else htab.element i }
  if 0 < size ∧ size ≠ htab.hashsize then htab.init size
  else
    { htab with
      checks := 0, scans := 0, maxScan := 0, hits := 0, entries := 0, deletes := 0
      nulls := htab.hashsize }

/-- `hashrepl` and `nhashrepl`. -/
def Table.repl (str : Key) (hashdata : Data) : Option (Int × Table Key Data) := do
  let hval := kind.hval str htab.mask
  let (_, hptr, _) ← htab.walk str (htab.allocated + 1) none (htab.element hval) 0
  match hptr with
  | some hptr => some (1, { htab with data := update htab.data hptr hashdata })
  | none => some (0, htab)

end Functions

section Names

variable {Data : Type}

def hashfind (htab : Table CString Data) (str : CString) := htab.find stringKeys str

def hashadd (htab : Table CString Data) (str : CString) (hashdata : Data) :=
  htab.add stringKeys str hashdata

def hashdelete (htab : Table CString Data) (str : CString) := htab.delete stringKeys str

def hashflush (htab : Table CString Data) (size : Int) := htab.flush size

def hashrepl (htab : Table CString Data) (str : CString) (hashdata : Data) :=
  htab.repl stringKeys str hashdata

def nhashfind (htab : Table (BitVec 32) Data) (val : BitVec 32) := htab.find numberKeys val

def nhashadd (htab : Table (BitVec 32) Data) (val : BitVec 32) (hashdata : Data) :=
  htab.add numberKeys val hashdata

def nhashdelete (htab : Table (BitVec 32) Data) (val : BitVec 32) := htab.delete numberKeys val

def nhashflush (htab : Table (BitVec 32) Data) (size : Int) := htab.flush size

def nhashrepl (htab : Table (BitVec 32) Data) (val : BitVec 32) (hashdata : Data) :=
  htab.repl numberKeys val hashdata

end Names

inductive Op (Key Data : Type) where
  | find (key : Key)
  | add (key : Key) (data : Data)
  | delete (key : Key)
  | flush (size : Int)
  | repl (key : Key) (data : Data)

inductive Result (Data : Type) where
  | data (found : Option Data)
  | code (value : Int)
  | void
deriving DecidableEq

def Table.step {Key Data : Type} [DecidableEq Key] (kind : KeyKind Key)
    (htab : Table Key Data) : Op Key Data → Option (Result Data × Table Key Data)
  | .find key => (htab.find kind key).map fun (found, htab) => (.data found, htab)
  | .add key data => (htab.add kind key data).map fun (value, htab) => (.code value, htab)
  | .delete key => (htab.delete kind key).map fun htab => (.void, htab)
  | .flush size => some (.void, htab.flush size)
  | .repl key data => (htab.repl kind key data).map fun (value, htab) => (.code value, htab)

def hashStep {Data : Type} (htab : Table CString Data) :
    Op CString Data → Option (Result Data × Table CString Data)
  | .find str => (hashfind htab str).map fun (found, htab) => (.data found, htab)
  | .add str data => (hashadd htab str data).map fun (value, htab) => (.code value, htab)
  | .delete str => (hashdelete htab str).map fun htab => (.void, htab)
  | .flush size => some (.void, hashflush htab size)
  | .repl str data => (hashrepl htab str data).map fun (value, htab) => (.code value, htab)

def nhashStep {Data : Type} (htab : Table (BitVec 32) Data) :
    Op (BitVec 32) Data → Option (Result Data × Table (BitVec 32) Data)
  | .find val => (nhashfind htab val).map fun (found, htab) => (.data found, htab)
  | .add val data => (nhashadd htab val data).map fun (value, htab) => (.code value, htab)
  | .delete val => (nhashdelete htab val).map fun htab => (.void, htab)
  | .flush size => some (.void, nhashflush htab size)
  | .repl val data => (nhashrepl htab val data).map fun (value, htab) => (.code value, htab)

end BattletechMux.Hash
