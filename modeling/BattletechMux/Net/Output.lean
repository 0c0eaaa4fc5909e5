/-
Module: BattletechMux.Net.Output
Purpose: The descriptors of the server and their output, from bsd.c and netcommon.c: a chain of
  blocks of a fixed size.
Trusted boundary: texts, input and output, limits, logs, notifications and what softcode they start;
  desc_htab is a map; a descriptor has a new address, and one that was freed keeps its fields, as in
  its pool; CONCENTRATE builds and restarts are left out; malloc gives a new block and does not fail;
  what the socket takes is given with each call, and it would block when nothing more is given;
  errors that close the socket and the counters' overflow are left out; output_limit is a number of
  characters
-/
import BattletechMux.Foundation.Fifo
import BattletechMux.Foundation.Machine

namespace BattletechMux.Net

open Function (update)

section

open LinkedMemory (BidirList walk seek)

abbrev Dbref := Int

/-- Why a descriptor is closed: the `R_` codes. -/
inductive DiscReason
  | quit | timeout | boot | sockDied | goingDown | badLogin | gameDown | logout | gameFull
deriving DecidableEq, Repr

/-- `PROG`: who waits for a line of input and with what registers, and the player that the
line is to come from. -/
structure Prog where
  waitCause : Dbref
  waitRegs : List String
  /-- The player whom do_prog made it for.  The source does not store it. -/
  doer : Dbref

/-- What `wait_que` is given for an answered program. -/
structure Queued where
  waitCause : Dbref
  player : Dbref
  cmd : String
  message : String
  waitRegs : List String

/-- The descriptors, by their addresses, with the tables that lead to them. -/
structure DescTable where
  /-- `descriptor_list`, `next` and `prev`. -/
  descriptorList : BidirList Nat
  hashnext : Nat → Option Nat
  /-- `DS_CONNECTED`. -/
  connected : Nat → Bool
  player : Nat → Dbref
  programData : Nat → Option Nat
  allocated : Nat
  /-- The descriptors that have not been freed. -/
  opened : Nat → Bool
  ndescriptors : Int
  descHtab : Dbref → Option Nat
  /-- The players flagged CONNECTED. -/
  flagged : Dbref → Bool
  prog : Nat → Prog
  progs : Nat
  /-- How often a PROG has been freed, its register buffers with it. -/
  freed : Nat → Nat
  /-- A_PROGCMD. -/
  progCmd : Dbref → String
  queued : List Queued

def DescTable.start : DescTable where
  descriptorList := ⟨none, fun _ => none, fun _ => none⟩
  hashnext := fun _ => none
  connected := fun _ => false
  player := fun _ => 0
  programData := fun _ => none
  allocated := 0
  opened := fun _ => false
  ndescriptors := 0
  descHtab := fun _ => none
  flagged := fun _ => false
  prog := fun _ => ⟨0, [], 0⟩
  progs := 0
  freed := fun _ => 0
  progCmd := fun _ => ""
  queued := []

/-- `nhashadd`: an entry that exists stays. -/
def nhashadd (val : Dbref) (hashdata : Nat) (htab : Dbref → Option Nat) : Dbref → Option Nat :=
  match htab val with
  | some _ => htab
  | none => update htab val (some hashdata)

/-- `nhashrepl`: only an entry that exists changes. -/
def nhashrepl (val : Dbref) (hashdata : Nat) (htab : Dbref → Option Nat) :
    Dbref → Option Nat :=
  match htab val with
  | some _ => update htab val (some hashdata)
  | none => htab

def nhashdelete (val : Dbref) (htab : Dbref → Option Nat) : Dbref → Option Nat :=
  update htab val none

namespace DescTable

/-- `DESC_ITER_PLAYER`, over links that its body does not change. -/
def iterPlayer {State : Type} (t : DescTable) (player : Dbref) (body : State → Nat → State)
    (state : State) : Option State :=
  walk t.hashnext body (t.allocated + 1) (t.descHtab player) state

def descAddhash (t : DescTable) (d : Nat) : DescTable :=
  let player := t.player d
  match t.descHtab player with
  | none =>
    { t with
      hashnext := update t.hashnext d none
      descHtab := nhashadd player d t.descHtab }
  | some hdesc =>
    { t with
      hashnext := update t.hashnext d (some hdesc)
      descHtab := nhashrepl player d t.descHtab }

/-- The links and the entry once the loop of `desc_delhash` has found `d` behind `last`. -/
def unhash (t : DescTable) (player : Dbref) (last : Option Nat) (d : Nat) : DescTable :=
  match last with
  | none =>
    match t.hashnext d with
    | none => { t with descHtab := nhashdelete player t.descHtab }
    | some hdesc => { t with descHtab := nhashrepl player hdesc t.descHtab }
  | some last => { t with hashnext := update t.hashnext last (t.hashnext d) }

def descDelhash (t : DescTable) (d : Nat) : Option DescTable := do
  let player := t.player d
  let (last, found) ←
    seek t.hashnext (fun hdesc => hdesc != d) (t.allocated + 1) none (t.descHtab player)
  let t := if found.isSome then t.unhash player last d else t
  some { t with hashnext := update t.hashnext d none }

/-- `announce_connect`, as far as it changes the tables. -/
def announceConnect (t : DescTable) (player : Dbref) (d : Nat) : DescTable :=
  let t := t.descAddhash d
  { t with flagged := update t.flagged player true }

/-- `announce_disconnect`, as far as it changes the tables. -/
def announceDisconnect (t : DescTable) (player : Dbref) (d : Nat) : Option DescTable := do
  let num ← t.iterPlayer player (fun num _ => num + 1) 0
  let t := if num < 2 then { t with flagged := update t.flagged player false } else t
  t.descDelhash d

/-- `*d->prev = d->next; if (d->next) d->next->prev = d->prev;` -/
def unlink (list : BidirList Nat) (d : Nat) : BidirList Nat :=
  let list :=
    match list.prev d with
    | some previous => { list with next := update list.next previous (list.next d) }
    | none => { list with head := list.next d }
  match list.next d with
  | some following => { list with prev := update list.prev following (list.prev d) }
  | none => list

/-- The PROG that a descriptor carries is freed when its player has no other one. -/
def dropProgram (t : DescTable) (d : Nat) : Option DescTable :=
  match t.programData d with
  | none => some t
  | some program => do
      let num ← t.iterPlayer (t.player d) (fun num _ => num + 1) 0
      if num = 0 then some { t with freed := update t.freed program (t.freed program + 1) }
      else some t

/-- The end of `shutdownsock` for a descriptor that goes away. -/
def closeDesc (t : DescTable) (d : Nat) : Option DescTable := do
  let t := { t with descriptorList := unlink t.descriptorList d }
  let t ← t.dropProgram d
  some { t with
    opened := update t.opened d false
    ndescriptors := t.ndescriptors - 1 }

/-- The end of `shutdownsock` for a descriptor that stays open. -/
def logOut (t : DescTable) (d : Nat) : DescTable :=
  { t with
    connected := update t.connected d false
    player := update t.player d 0 }

/-- `shutdownsock`.  `forbidden` tells whether the site is H_FORBIDDEN. -/
def shutdownsock (t : DescTable) (d : Nat) (reason : DiscReason) (forbidden : Bool) :
    Option DescTable :=
  if t.opened d then do
    let reason := if reason = .logout ∧ forbidden then .quit else reason
    if t.connected d then do
      let t ← t.announceDisconnect (t.player d) d
      if reason = .logout then some (t.logOut d) else t.closeDesc d
    else
      -- Who never connected cannot log out: the reason becomes R_QUIT.
      t.closeDesc d
  else none

def initializesock (t : DescTable) : DescTable :=
  let d := t.allocated
  { t with
    ndescriptors := t.ndescriptors + 1
    allocated := d + 1
    opened := update t.opened d true
    connected := update t.connected d false
    player := update t.player d 0
    programData := update t.programData d none
    hashnext := update t.hashnext d none
    descriptorList := t.descriptorList.push d }

/-- The first PROG on the chain of a player: the loop of `check_connect` up to its break. -/
def pendingProgram (t : DescTable) (player : Dbref) : Option (Option Nat) := do
  let (_, found) ← seek t.hashnext (fun d2 => (t.programData d2).isNone) (t.allocated + 1) none
    (t.descHtab player)
  some (found.bind t.programData)

/-- A successful "connect" of `check_connect`. -/
def connectPlayer (t : DescTable) (d : Nat) (player : Dbref) : Option DescTable := do
  let t := { t with
    connected := update t.connected d true
    player := update t.player d player }
  let pending ← t.pendingProgram player
  let t := match pending with
    | some program => { t with programData := update t.programData d (some program) }
    | none => t
  some (t.announceConnect player d)

/-- A successful "create" of `check_connect`. -/
def createPlayer (t : DescTable) (d : Nat) (player : Dbref) : DescTable :=
  let t := { t with
    connected := update t.connected d true
    player := update t.player d player }
  t.announceConnect player d

/-- The loop of `boot_off`, over `DESC_SAFEITER_PLAYER`: `d` and `dnext`. -/
def bootLoop : Nat → Option Nat → Option Nat → DescTable → Option DescTable
  | 0, _, _, _ => none
  | _ + 1, none, _, t => some t
  | limit + 1, some d, dnext, t => do
      let t ← t.shutdownsock d .boot false
      bootLoop limit dnext (dnext.bind t.hashnext) t

def bootOff (t : DescTable) (player : Dbref) : Option DescTable :=
  let d := t.descHtab player
  bootLoop (t.allocated + 1) d (d.bind t.hashnext) t

/-- The loops over `DESC_SAFEITER_ALL` that close the descriptors they choose: `check_idle`,
`boot_by_port`, `close_sockets` and the reading and writing of `shovechars`. -/
def closeLoop (choose : Nat → Option DiscReason) :
    Nat → Option Nat → Option Nat → DescTable → Option DescTable
  | 0, _, _, _ => none
  | _ + 1, none, _, t => some t
  | limit + 1, some d, dnext, t => do
      let t ←
        match choose d with
        | some reason => t.shutdownsock d reason false
        | none => some t
      closeLoop choose limit dnext (dnext.bind t.descriptorList.next) t

def closeChosen (t : DescTable) (choose : Nat → Option DiscReason) : Option DescTable :=
  let d := t.descriptorList.head
  closeLoop choose (t.allocated + 1) d (d.bind t.descriptorList.next) t

/-- The loop of `eradicate_broken_fd`, over `DESC_ITER_ALL`: it goes on from a descriptor that
it may have freed. -/
def brokenLoop (broken : Nat → Bool) : Nat → Option Nat → DescTable → Option DescTable
  | 0, _, _ => none
  | _ + 1, none, t => some t
  | limit + 1, some d, t => do
      let t ← if broken d then t.shutdownsock d .sockDied false else some t
      brokenLoop broken limit (t.descriptorList.next d) t

def eradicateBrokenFd (t : DescTable) (broken : Nat → Bool) : Option DescTable :=
  brokenLoop broken (t.allocated + 1) t.descriptorList.head t

/-- `handle_prog` and `do_quitprog` from where they look the player up: the PROG of his first
descriptor is freed, all of his forget it, and A_PROGCMD is cleared. -/
def endProgram (t : DescTable) (player : Dbref) : Option DescTable := do
  let all ← t.descHtab player
  let program ← t.programData all
  let t := { t with freed := update t.freed program (t.freed program + 1) }
  let programData ← t.iterPlayer player
    (fun programData all => update programData all none) t.programData
  some { t with
    programData := programData
    progCmd := update t.progCmd player "" }

/-- `handle_prog`, for a line that is not piped to a command. -/
def handleProg (t : DescTable) (d : Nat) (message : String) : Option DescTable := do
  let program ← t.programData d
  let player := t.player d
  let command : Queued :=
    { waitCause := (t.prog program).waitCause
      player := player
      cmd := t.progCmd player
      message := message
      waitRegs := (t.prog program).waitRegs }
  endProgram { t with queued := t.queued ++ [command] } player

/-- `do_quitprog`.  `permitted` tells whether `doer` is a player, whose program `player` may
quit. -/
def doQuitprog (t : DescTable) (doer : Dbref) (permitted : Bool) : Option DescTable :=
  if permitted ∧ t.flagged doer then do
    let isprog ← t.iterPlayer doer (fun isprog d => isprog || (t.programData d).isSome) false
    if isprog then t.endProgram doer else some t
  else some t

/-- `do_prog`.  `permitted` tells whether `doer` is a player, for whom `player` may start a
program from an attribute with the text `cmd`. -/
def doProg (t : DescTable) (player doer : Dbref) (permitted : Bool) (cmd : String)
    (regs : List String) : Option DescTable :=
  if permitted ∧ t.flagged doer then do
    let t := { t with progCmd := update t.progCmd doer cmd }
    match ← t.pendingProgram doer with
    | some _ => some t
    | none =>
      let program := t.progs
      let t := { t with
        progs := program + 1
        prog := update t.prog program ⟨player, regs, doer⟩ }
      let programData ← t.iterPlayer doer
        (fun programData d => update programData d (some program)) t.programData
      some { t with programData := programData }
  else some t

end DescTable

inductive TableCall
  | initializesock
  | connectPlayer (d : Nat) (player : Dbref)
  | createPlayer (d : Nat) (player : Dbref)
  | shutdownsock (d : Nat) (reason : DiscReason) (forbidden : Bool)
  | bootOff (player : Dbref)
  /-- The reasons of these loops are never R_LOGOUT. -/
  | closeChosen (choose : Nat → Option DiscReason) (stay : ∀ d, choose d ≠ some .logout)
  | eradicateBrokenFd (broken : Nat → Bool)

open DescTable in
/-- One call.  Lines are read from open descriptors only, and only those that are not
connected are given to `check_connect`.  A player who has just been created is not flagged. -/
def tableCall (t : DescTable) : TableCall → Option DescTable
  | .initializesock => some t.initializesock
  | .connectPlayer d player =>
    if t.opened d ∧ t.connected d = false then t.connectPlayer d player else some t
  | .createPlayer d player =>
    if t.opened d ∧ t.connected d = false ∧ t.flagged player = false then
      some (t.createPlayer d player)
    else some t
  | .shutdownsock d reason forbidden =>
    if t.opened d then t.shutdownsock d reason forbidden else some t
  | .bootOff player => t.bootOff player
  | .closeChosen choose _ => t.closeChosen choose
  | .eradicateBrokenFd broken => t.eradicateBrokenFd broken

/-- One round of `process_commands`, over `DESC_SAFEITER_ALL`: a descriptor with input runs
its line, one call after another, which may free it, the one that was saved as the next, or
any other.  A descriptor that was freed has no input. -/
def commandLoop (line : Nat → List TableCall) :
    Nat → Option Nat → Option Nat → DescTable → Option DescTable
  | 0, _, _, _ => none
  | _ + 1, none, _, t => some t
  | limit + 1, some d, dnext, t => do
      let t ← if t.opened d then Machine.run tableCall t (line d) else some t
      commandLoop line limit dnext (dnext.bind t.descriptorList.next) t

def processCommands (t : DescTable) (line : Nat → List TableCall) : Option DescTable :=
  let d := t.descriptorList.head
  commandLoop line (t.allocated + 1) d (d.bind t.descriptorList.next) t

/-- What the server does: calls from anywhere and rounds of commands. -/
inductive ServerEvent
  | call (made : TableCall)
  | processCommands (line : Nat → List TableCall)

def happen (t : DescTable) : ServerEvent → Option DescTable
  | .call made => tableCall t made
  | .processCommands line => processCommands t line

/-- What happens to the programs.  A piped line is a call of its own. -/
inductive ProgCall
  | table (made : TableCall)
  | doProg (player doer : Dbref) (permitted : Bool) (cmd : String) (regs : List String)
  | handleProg (d : Nat) (message : String)
  | doQuitprog (doer : Dbref) (permitted : Bool)

/-- One call.  A line goes to `handle_prog` when its descriptor has program data. -/
def progCall (t : DescTable) : ProgCall → Option DescTable
  | .table made => tableCall t made
  | .doProg player doer permitted cmd regs => t.doProg player doer permitted cmd regs
  | .handleProg d message =>
    if t.opened d ∧ (t.programData d).isSome then t.handleProg d message else some t
  | .doQuitprog doer permitted => t.doQuitprog doer permitted

end

open LinkedMemory (Fifo)

def outputBlockSize : Nat := 16384
def lbufSize : Nat := 8000

/-- `sizeof(TBLKHDR)`: two of its pointers are into the block. -/
def blockHeader : Nat := 32

structure Text where
  bytes : List UInt8
  noNul : 0 ∉ bytes

/-- `strncpy`: what is after a NUL becomes NULs. -/
def strncpy (b : List UInt8) (n : Nat) : List UInt8 :=
  let copied := (b.take n).takeWhile (· ≠ 0)
  copied ++ List.replicate (n - copied.length) 0

/-- `TBLOCK`: its bytes up to `hdr.end`, `hdr.start` in them and `hdr.nchars`. -/
structure TextBlock where
  data : List UInt8
  start : Nat
  nchars : Nat

/-- The output of a `DESC`, the blocks that have been allocated and what its socket took. -/
structure Descriptor where
  nxt : Nat → Option Nat
  block : Nat → TextBlock
  allocated : Nat
  /-- `output_head` and `output_tail`. -/
  output : Fifo Nat
  outputSize : Int
  outputTot : Int
  outputLost : Int
  taken : List UInt8

inductive Written where
  | count (cnt : Nat)
  | wouldBlock
deriving DecidableEq, Repr

namespace Descriptor

variable (d : Descriptor)

/-- As `initializesock` leaves it. -/
def initial : Descriptor where
  nxt _ := none
  block _ := ⟨[], 0, 0⟩
  allocated := 0
  output := Fifo.empty
  outputSize := 0
  outputTot := 0
  outputLost := 0
  taken := []

def take (tb cnt : Nat) : Descriptor :=
  let block := d.block tb
  { d with
    outputSize := d.outputSize - cnt
    block := update d.block tb
      { block with nchars := block.nchars - cnt, start := block.start + cnt }
    taken := d.taken ++ (block.data.drop block.start).take cnt }

/-- The inner loop of `process_output`: whether the block has been written, and what the socket
returns to later writes. -/
def flush (tb : Nat) : List Written → Descriptor → Bool × List Written × Descriptor
  | writes, d =>
    if (d.block tb).nchars = 0 then (true, writes, d)
    else
      match writes with
      | [] => (false, [], d)
      | .wouldBlock :: writes => (false, writes, d)
      | .count cnt :: writes => flush tb writes (d.take tb (min cnt (d.block tb).nchars))

/-- The outer loop of `process_output`. -/
def processLoop : Nat → Option Nat → List Written → Descriptor → Option Descriptor
  | 0, _, _, _ => none
  | _ + 1, none, _, d => some d
  | limit + 1, some tb, writes, d =>
    match flush tb writes d with
    | (false, _, d) => some d
    | (true, writes, d) =>
      processLoop limit (d.nxt tb) writes { d with output := d.output.pop d.nxt tb }

def processOutput (writes : List Written) : Option Descriptor :=
  processLoop (d.allocated + 1) d.output.first writes d

def discard : Descriptor :=
  match d.output.first with
  | none => d
  | some tp =>
    { d with
      outputSize := d.outputSize - (d.block tp).nchars
      output := d.output.pop d.nxt tp
      outputLost := d.outputLost + (d.block tp).nchars }

def malloc : Nat × Descriptor :=
  (d.allocated,
    { d with
      nxt := update d.nxt d.allocated none
      block := update d.block d.allocated ⟨[], 0, 0⟩
      allocated := d.allocated + 1 })

def chainBlock : Descriptor :=
  let (tp, d) := d.malloc
  let (nxt, output) := d.output.append d.nxt tp
  { d with nxt := nxt, output := output }

def copy (tp : Nat) (b : List UInt8) (n : Nat) : Descriptor :=
  let block := d.block tp
  { d with
    block := update d.block tp
      { block with data := block.data ++ strncpy b n, nchars := block.nchars + n } }

/-- The loop of `queue_write`. -/
def fill : Nat → List UInt8 → Descriptor → Option Descriptor
  | 0, _, _ => none
  | limit + 1, b, d =>
    match d.output.last with
    | none => none
    | some tp =>
      let left := outputBlockSize - (blockHeader + (d.block tp).data.length + 1)
      if b.length ≤ left then some (d.copy tp b b.length)
      else
        let d := if left > 0 then d.copy tp b left else d
        fill limit (b.drop left) d.chainBlock

def relieve (outputLimit n : Nat) (writes : List Written) : Option Descriptor :=
  if d.outputSize + n > outputLimit then d.processOutput writes else some d

/-- A block is discarded when there still is too much, and one is allocated when there is
none. -/
def makeRoom (outputLimit n : Nat) : Descriptor :=
  let d := if (outputLimit : Int) - d.outputSize - n < 0 then d.discard else d
  if d.output.first = none then
    let (tp, d) := d.malloc
    { d with output := ⟨some tp, some tp⟩ }
  else d

def queueWrite (outputLimit : Nat) (text : Text) (writes : List Written) : Option Descriptor :=
  let n := text.bytes.length
  if n ≤ 0 then some d
  else do
    let d ← d.relieve outputLimit n writes
    let d := d.makeRoom outputLimit n
    fill (n + 2) text.bytes
      { d with outputSize := d.outputSize + n, outputTot := d.outputTot + n }

end Descriptor

inductive Call where
  | queueWrite (text : Text) (writes : List Written)
  | processOutput (writes : List Written)

def Call.queues : Call → List UInt8
  | .queueWrite text _ => text.bytes
  | .processOutput _ => []

def perform (outputLimit : Nat) (d : Descriptor) : Call → Option Descriptor
  | .queueWrite text writes => d.queueWrite outputLimit text writes
  | .processOutput writes => d.processOutput writes

end BattletechMux.Net
