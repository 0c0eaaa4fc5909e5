/-
Module: BattletechMux.Moves.Movers
Purpose: Moving objects, from move.c, predicates.c, object.c, rob.c, wiz.c and create.c: the objects
  with their locations and the lists of contents and of exits, which share one field Next, and the
  movers and the commands that call them.
Trusted boundary: homes, flags, locks and what a name matches are given with each step;
  messages are left out; objects are not destroyed
-/
import Mathlib.Logic.Function.Basic

namespace BattletechMux.Moves

open Function (update)

abbrev Dbref := Int

def nothing : Dbref := -1
def home : Dbref := -3

inductive ObjectType where
  | room
  | thing
  | exit
  | player
  | garbage
deriving DecidableEq, Repr

structure Db where
  dbTop : Nat
  typeOf : Dbref → ObjectType
  location : Dbref → Dbref
  contents : Dbref → Dbref
  exits : Dbref → Dbref
  next : Dbref → Dbref

namespace Db

variable (db : Db)

def goodObj (x : Dbref) : Bool := decide (0 ≤ x ∧ x < db.dbTop)

def movable (x : Dbref) : Bool := db.typeOf x = .player ∨ db.typeOf x = .thing

def hasLocation (x : Dbref) : Bool := db.movable x || db.typeOf x = .garbage

def setNext (x to' : Dbref) : Db := { db with next := update db.next x to' }
def setContents (x to' : Dbref) : Db := { db with contents := update db.contents x to' }
def setExits (x to' : Dbref) : Db := { db with exits := update db.exits x to' }
def setLocation (x to' : Dbref) : Db := { db with location := update db.location x to' }

/-- The loop of `remove_first`, `DOLIST(prev, head)`. -/
def removeLoop (thing : Dbref) : Nat → Dbref → Option Db
  | 0, _ => none
  | limit + 1, prev =>
    if prev = nothing ∨ db.next prev = prev then some db
    else if db.next prev = thing then some (db.setNext prev (db.next thing))
    else removeLoop thing limit (db.next prev)

def removeFirst (head thing : Dbref) : Option (Dbref × Db) :=
  if head = thing then some (db.next thing, db)
  else (db.removeLoop thing (db.dbTop + 1) head).map fun db => (head, db)

def insertFirst (head thing : Dbref) : Dbref × Db := (thing, db.setNext thing head)

/-- The loop of `reverse_list`. -/
def reverseLoop : Nat → Dbref → Dbref → Db → Option (Dbref × Db)
  | 0, _, _, _ => none
  | limit + 1, list, newlist, db =>
    if list = nothing then some (newlist, db)
    else reverseLoop limit (db.next list) list (db.setNext list newlist)

def reverseList (list : Dbref) : Option (Dbref × Db) :=
  reverseLoop (db.dbTop + 1) list nothing db

/-- Something of a list is so, `DOLIST(thing, list)`. -/
def someOf (is : Dbref → Bool) : Nat → Dbref → Option Bool
  | 0, _ => none
  | limit + 1, thing =>
    if thing = nothing ∨ db.next thing = thing then some false
    else if is thing then some true
    else someOf is limit (db.next thing)

def takeOut (thing : Dbref) : Option Db :=
  if db.location thing = nothing then some db
  else do
    let (head, db') ← db.removeFirst (db.contents (db.location thing)) thing
    some (db'.setContents (db.location thing) head)

def putInto (thing dest : Dbref) : Db :=
  let db :=
    if dest = nothing then db.setNext thing nothing
    else
      let (head, db') := db.insertFirst (db.contents dest) thing
      db'.setContents dest head
  db.setLocation thing dest

/-- `move_object`, to a place that is not HOME. -/
def moveObject (thing dest : Dbref) : Option Db :=
  (db.takeOut thing).map fun db => db.putInto thing dest

def moveExit (exit dest : Dbref) : Option Db := do
  let exitloc := db.exits exit
  let (head, db) ← db.removeFirst (db.exits exitloc) exit
  let db := db.setExits exitloc head
  let (head, db) := db.insertFirst (db.exits dest) exit
  some ((db.setExits dest head).setExits exit dest)

/-- The fields of places of an object that `create_obj` makes, recycled or new. -/
def make (thing : Dbref) (objtype : ObjectType) : Db :=
  { (((db.setLocation thing nothing).setContents thing nothing).setExits thing nothing).setNext
      thing nothing with
    dbTop := if thing = db.dbTop then db.dbTop + 1 else db.dbTop
    typeOf := update db.typeOf thing objtype }

end Db

inductive Frame where
  /-- An attribute is shown: softcode may run. -/
  | hook
  | moveObject (thing dest : Dbref)
  | moveViaGeneric (thing dest : Dbref)
  | moveViaExit (thing dest : Dbref)
  | moveViaTeleport (thing dest : Dbref)
  | teleportOut (thing dest src : Dbref)
  | processStickyDropto (loc : Dbref)
  | dropLoop (thing next : Dbref)
  | dropNext (next : Dbref)
  | sendDropto (thing : Dbref)
  | divestObject (thing : Dbref)
  | divestLoop (thing curr temp : Dbref)
  | divestNext (thing temp : Dbref)
  | processDroppedDropto (thing : Dbref)
  | moveExit (player exit : Dbref) (divest : Bool)
  | moveThrough (player exit loc : Dbref) (divest : Bool)
  | doMoveHome (player : Dbref)
  | doGet (player thing : Dbref)
  | doDrop (player thing : Dbref)
  | drop (player thing : Dbref)
  | doEnter (player thing : Dbref)
  | enter (player thing loc : Dbref)
  | doLeave (player : Dbref)
  | leave (player loc : Dbref)
  | giveThing (giver recipient thing : Dbref)
  | killed (victim : Dbref)
  | doTeleport (victim : Dbref) (destination : Option Dbref)
  | takeExit (exit dest : Dbref)
  | link (thing dest : Dbref)
  | create (thing : Dbref) (objtype : ObjectType) (dest : Dbref)
deriving DecidableEq, Repr

structure World where
  home : Dbref → Dbref
  sticky : Dbref → Bool
  dropper : Dbref → Bool
  controls : Dbref → Dbref → Bool
  key : Dbref → Bool
  going : Dbref → Bool
  /-- The locks and permissions of the step are passed. -/
  passes : Bool
  /-- What softcode or a player gives. -/
  calls : List Frame

namespace Db

variable (db : Db) (w : World)

def destOf (thing dest : Dbref) : Dbref := if dest = Moves.home then w.home thing else dest

/-- `process_sticky_dropto`. -/
def stickyDropto (loc : Dbref) : Option (Db × List Frame) :=
  if !db.goodObj loc || db.typeOf loc ≠ .room || !w.sticky loc then some (db, [])
  else if db.location loc = nothing ∨ db.location loc = loc then some (db, [])
  else do
    let stays ← db.someOf w.dropper (db.dbTop + 1) (db.contents loc)
    if stays then some (db, [])
    else do
      let (head, db) ← db.reverseList (db.contents loc)
      let db := db.setContents loc head
      some (db, [.dropLoop head (if head = nothing then nothing else db.next head)])

def perform : Frame → Option (Db × List Frame)
  | .hook => some (db, w.calls)
  | .moveObject thing dest =>
    (db.moveObject thing (destOf w thing dest)).map fun db => (db, [.hook])
  | .moveViaGeneric thing dest =>
    some (db, [.hook, .moveObject thing (destOf w thing dest), .hook, .hook])
  | .moveViaExit thing dest =>
    some (db, [.hook, .hook, .moveObject thing (destOf w thing dest), .hook, .hook, .hook,
      .processStickyDropto (db.location thing)])
  | .moveViaTeleport thing dest =>
    -- the locks are looked at, and may run softcode
    if w.passes then some (db, [.hook, .teleportOut thing dest (db.location thing)])
    else some (db, [.hook, .hook])
  | .teleportOut thing dest src =>
    some (db, [.hook, .hook, .moveObject thing (destOf w thing dest), .hook, .hook, .hook,
      .divestObject thing, .processStickyDropto src])
  | .processStickyDropto loc => db.stickyDropto w loc
  | .dropLoop thing next =>
    if thing = nothing ∨ db.next thing = thing then some (db, [])
    else some (db, [.sendDropto thing, .dropNext next])
  | .dropNext next => some (db, [.dropLoop next (db.next next)])
  | .sendDropto thing =>
    some (db, [.moveViaGeneric thing
      (if w.sticky thing then Moves.home else db.location (db.location thing)),
      .divestObject thing])
  | .divestObject thing =>
    let curr := db.contents thing
    some (db, [.divestLoop thing curr (if curr = nothing then nothing else db.next curr)])
  | .divestLoop thing curr temp =>
    if curr = nothing ∨ db.next curr = curr then some (db, [])
    else if !w.controls thing curr && db.hasLocation curr && w.key curr then
      some (db, [.moveViaGeneric curr Moves.home, .divestNext thing temp])
    else some (db, [.divestNext thing temp])
  | .divestNext thing temp => some (db, [.divestLoop thing temp (db.next temp)])
  | .processDroppedDropto thing =>
    if w.sticky thing then
      some (db, [.moveViaGeneric thing Moves.home, .divestObject thing])
    else
      let loc := db.location thing
      if db.typeOf loc = .room ∧ db.location loc ≠ nothing ∧ !w.sticky loc then
        some (db, [.sendDropto thing])
      else some (db, [])
  | .moveExit player exit divest =>
    let loc := destOf w player (db.location exit)
    if db.goodObj loc && w.passes then some (db, [.hook, .moveThrough player exit loc divest])
    else some (db, [.hook])
  | .moveThrough player _ loc divest =>
    match db.typeOf loc with
    | .room =>
      some (db, .moveViaExit player loc :: if divest then [.divestObject player] else [])
    | .player | .thing =>
      if w.going loc then some (db, [])
      else some (db, [.moveViaExit player loc, .divestObject player])
    | .exit | .garbage => some (db, [])
  | .doMoveHome player =>
    if w.passes then
      some (db, [.hook, .moveViaGeneric player Moves.home, .divestObject player,
        .processStickyDropto (db.location player)])
    else some (db, [])
  | .doGet player thing =>
    if !db.goodObj (db.location player) then some (db, [])
    else
      match db.typeOf thing with
      | .player | .thing =>
        if db.location thing = player ∨ thing = player then some (db, [])
        else if w.passes then
          some (db, [.hook, .moveViaGeneric thing player, .hook])
        else some (db, [.hook])
      | .exit => if w.passes then some (db, [.takeExit thing player]) else some (db, [])
      | .room | .garbage => some (db, [])
  | .doDrop player thing =>
    if !db.goodObj (db.location player) then some (db, [])
    else
      match db.typeOf thing with
      | .player | .thing =>
        if w.passes then some (db, [.hook, .drop player thing]) else some (db, [.hook])
      | .exit =>
        if w.passes then some (db, [.takeExit thing (db.location player)]) else some (db, [])
      | .room | .garbage => some (db, [])
  | .drop player thing =>
    some (db, [.moveViaGeneric thing (db.location player), .hook, .processDroppedDropto thing])
  | .doEnter player thing =>
    match db.typeOf thing with
    | .player | .thing =>
      if player = thing then some (db, [])
      else if w.passes then some (db, [.hook, .enter player thing (db.location player)])
      else some (db, [.hook])
    | .room | .exit | .garbage => some (db, [])
  | .enter player thing loc =>
    some (db, [.moveViaGeneric player thing, .divestObject player, .processStickyDropto loc])
  | .doLeave player =>
    let loc := db.location player
    if !db.goodObj loc || db.typeOf loc = .room || w.going loc then some (db, [])
    else if w.passes then some (db, [.hook, .leave player loc])
    else some (db, [.hook])
  | .leave player loc => some (db, [.moveViaGeneric player (db.location loc)])
  | .giveThing giver recipient thing =>
    if thing = giver ∨ !db.movable thing then some (db, [])
    else if w.passes then
      some (db, [.hook, .moveViaGeneric thing recipient, .divestObject thing, .hook])
    else some (db, [.hook])
  | .killed victim => some (db, [.moveViaGeneric victim Moves.home, .divestObject victim])
  | .doTeleport victim destination =>
    if !db.hasLocation victim && db.typeOf victim ≠ .exit || !w.passes then some (db, [.hook])
    else
      match destination with
      | none =>
        if db.typeOf victim = .exit then some (db, [])
        else some (db, [.moveViaTeleport victim Moves.home])
      | some destination =>
        if victim = destination then some (db, [])
        else if db.typeOf destination = .exit then
          if db.exits destination = db.location victim then
            some (db, [.moveExit victim destination false])
          else some (db, [])
        else if db.typeOf victim = .exit then some (db, [.takeExit victim destination])
        else some (db, [.hook, .moveViaTeleport victim destination])
  | .takeExit exit dest => (db.moveExit exit dest).map fun db => (db, [])
  | .link thing dest =>
    if db.typeOf thing = .room ∨ db.typeOf thing = .exit then
      some (db.setLocation thing dest, [])
    else some (db, [])
  | .create thing objtype dest =>
    some ((db.make thing objtype).putInto thing dest, [.hook, .hook])

end Db

structure State where
  db : Db
  todo : List Frame

/-- The first thing that is to do is done; when there is nothing, commands are given. -/
def step (s : State) (w : World) : Option State :=
  match s.todo with
  | [] => some ⟨s.db, w.calls⟩
  | frame :: later => (s.db.perform w frame).map fun (db, frames) => ⟨db, frames ++ later⟩

end BattletechMux.Moves
