/-
Module: BattletechMux.Macro.Sets
Purpose: Macro sets and their tables, from macro.c and commac.c, and `toast_player` of db.c.
Trusted boundary: a file that is loaded has all the lines it says; players have numbers from 0 on;
  memory that is allocated is not given out twice; the memory of the arrays and a player's channels
  are left out
-/
import BattletechMux.Foundation.Bubble
import BattletechMux.Players.Registry

namespace BattletechMux.Macro

abbrev Text := List Char
abbrev Dbref := Int

/-! ## Sets -/

def lbufSize : Nat := 8000

def macroL : BitVec 8 := 1
def macroR : BitVec 8 := 2
def macroW : BitVec 8 := 4

/-- A place of the arrays `alias` and `string`. -/
structure Entry where
  alias' : Text
  string : Text
deriving DecidableEq

/-- `struct macros`. -/
structure MacroSet where
  player : Dbref
  status : BitVec 8
  desc : Text
  macros : List Entry
deriving DecidableEq

def canWriteMacros (player : Dbref) (m : MacroSet) : Bool :=
  if m.status &&& macroL ≠ 0 then false
  else if m.player = player then true
  else m.status &&& macroW ≠ 0

/-! ## Order -/

/-- The letters as `tolower` makes them. -/
def lower (text : Text) : Text := text.map Char.toLower

def strcmp (a b : Text) : Ordering := cmp a b

def strcasecmp (a b : Text) : Ordering := cmp (lower a) (lower b)

/-! ## Definitions -/

/-- The alias and the string of a definition, or what is wrong with it. -/
def parseDef (cmd : Text) : Except Text (Text × Text) :=
  let cmd := cmd.dropWhile (· == ' ')
  let name := cmd.takeWhile fun c => c != ' ' && c != '='
  match (cmd.dropWhile fun c => c != ' ' && c != '=').dropWhile (· == ' ') with
  | '=' :: cmd =>
    let s := cmd.dropWhile (· == ' ')
    if s = [] then
      .error "MACRO: You must specify a string to substitute for.".toList
    else if 4 < name.length then
      .error "MACRO: Please limit aliases to 4 chars or less.".toList
    else .ok (name, s)
  | _ => .error "MACRO: You must specify an = in your macro definition".toList

def padded (name : Text) : Text := name.take 4 ++ List.replicate (4 - name.length) ' '

/-- The rest of `do_def_macro`, from its search for the place on. -/
def insertMacro (m : MacroSet) (name s : Text) : MacroSet × List Text :=
  let before := m.macros.takeWhile fun e => strcasecmp name e.alias' == .gt
  let after := m.macros.dropWhile fun e => strcasecmp name e.alias' == .gt
  match after with
  | e :: _ =>
    if strcasecmp name e.alias' = .eq then
      (m, ["MACRO: That alias is already defined in this set.".toList,
        padded e.alias' ++ ':' :: e.string])
    else
      ({ m with macros := before ++ ⟨name, s⟩ :: after },
        ["MACRO: Macro ".toList ++ name ++ ':' :: s ++ " defined.".toList])
  | [] =>
    ({ m with macros := before ++ [⟨name, s⟩] },
      ["MACRO: Macro ".toList ++ name ++ ':' :: s ++ " defined.".toList])

/-- do_def_macro, on the current set of the player. -/
def defMacro (m : MacroSet) (player : Dbref) (cmd : Text) : MacroSet × List Text :=
  if canWriteMacros player m then
    match parseDef cmd with
    | .error message => (m, [message])
    | .ok (name, s) => insertMacro m name s
  else (m, ["MACRO: Permission denied.".toList])

/-- do_undef_macro, on the current set of the player. -/
def undefMacro (m : MacroSet) (player : Dbref) (cmd : Text) : MacroSet × List Text :=
  if canWriteMacros player m then
    match m.macros.findIdx? fun e => strcmp e.alias' cmd == .eq with
    | some i =>
      ({ m with macros := m.macros.eraseIdx i }, ["MACRO: Macro deleted from set.".toList])
    | none => (m, ["MACRO: That macro is not in this set.".toList])
  else (m, ["MACRO: Permission denied.".toList])

/-! ## Files -/

def doSortMacroSet (macros : List Entry) : List Entry :=
  Bubble.sort (fun e : Entry => lower e.alias') macros

/-- What `fgets` leaves in the buffer: the line, and what the buffer has behind its end. -/
structure Line where
  text : Text
  behind : Text

def readMacro (line : Line) : Option Entry :=
  let ended := line.text.getLast? == some '\n'
  let text := if ended then line.text.dropLast else line.text
  let name := text.takeWhile (· != ' ')
  if 4 < name.length then none
  else
    match text.dropWhile (· != ' ') with
    | _ :: string => some ⟨name, string⟩
    | [] => some ⟨name, if ended then [] else line.behind⟩

def loadSet (player : Dbref) (status : BitVec 8) (desc : Text) (lines : List Line) :
    Option MacroSet := do
  let macros ← lines.mapM readMacro
  some { player, status, desc := desc.drop 2, macros := doSortMacroSet macros }

/-! ## Lookup -/

/-- The loop of `do_process_macro` that searches a set, of which `rounds` rounds are left. -/
def findLoop (next : Text) (macros : List Entry) : Nat → Int → Int → Option Nat
  | 0, _, _ => none
  | rounds + 1, first, last =>
    if first ≤ last then
      let current := ((first + last) / 2).toNat
      match macros[current]? with
      | none => none
      | some e =>
        match strcmp next e.alias' with
        | .eq => some current
        | .lt => findLoop next macros rounds first ((first + last) / 2 - 1)
        | .gt => findLoop next macros rounds ((first + last) / 2 + 1) last
    else none

def findMacro (m : MacroSet) (next : Text) : Option Nat :=
  findLoop next m.macros (m.macros.length + 1) 0 (m.macros.length - 1)

/-- The loop of `do_process_macro` over the text of a macro, with an argument. -/
def expand (s : Text) : Text → Text
  | '%' :: '*' :: tar => '*' :: expand s tar
  | '*' :: tar => s ++ expand s tar
  | c :: tar => c :: expand s tar
  | [] => []

/-- What `do_process_macro` does with one set. -/
def processSet (m : MacroSet) (next s : Text) : Option Text := do
  let current ← findMacro m next
  let e ← m.macros[current]?
  some (expand s e.string)

open CText (atoi decimal)
open Players (isNumber)

/-! ## State -/

def numCommac : Nat := 500

abbrev Slot := Fin 5

/-- `struct commac`. -/
structure Commac where
  who : Nat
  curmac : Int
  macros : Slot → Int

abbrev Ptr := Nat

structure Game where
  /-- The chain of each bucket. -/
  commacTable : Nat → List Commac
  /-- `macros`, with `nummacros` elements. -/
  macros : List Ptr
  memory : Ptr → Option MacroSet
  /-- The block that `malloc` gives next. -/
  fresh : Ptr

/-- create_new_commac, with its player. -/
def createNewCommac (who : Nat) : Commac := { who, curmac := -1, macros := fun _ => -1 }

def slotAt (i : Int) : Option Slot :=
  if h : 0 ≤ i ∧ i < 5 then some ⟨i.toNat, by omega⟩ else none

/-- A command that notifies a player, unless it leaves its memory. -/
abbrev Reply := Option (Game × List Text)

namespace Game

variable (g : Game)

def gMac (n : Int) : Bool := decide (0 ≤ n ∧ n < g.macros.length)

/-- `macros[set]`. -/
def setAt (set : Int) : Option Ptr := if 0 ≤ set then g.macros[set.toNat]? else none

/-! ## Records -/

def commac (which : Nat) : Option Commac :=
  (g.commacTable (which % numCommac)).find? fun c => c.who == which

def addCommac (c : Commac) : Game :=
  { g with
    commacTable := Function.update g.commacTable (c.who % numCommac)
      (c :: g.commacTable (c.who % numCommac)) }

def getCommac (which : Nat) : Commac × Game :=
  match g.commac which with
  | some c => (c, g)
  | none => (createNewCommac which, g.addCommac (createNewCommac which))

def store (c : Commac) : Game :=
  { g with
    commacTable := Function.update g.commacTable (c.who % numCommac)
      ((g.commacTable (c.who % numCommac)).map fun d => if d.who = c.who then c else d) }

def delCommac (who : Nat) : Game :=
  { g with
    commacTable := Function.update g.commacTable (who % numCommac)
      ((g.commacTable (who % numCommac)).eraseP fun c => c.who == who) }

def firstFree (c : Commac) : Option Slot := (List.finRange 5).find? fun i => c.macros i == -1

def fill (c : Commac) (i : Slot) (set : Int) : Commac :=
  { c with macros := Function.update c.macros i set }

/-! ## Filling and emptying slots -/

def tooMany : Text := "MACRO: Sorry, you already have 5 sets defined on you.".toList

/-- do_create_macro. -/
def createMacro (player : Nat) (s : Text) : Reply :=
  let (c, g) := g.getCommac player
  match firstFree c with
  | none => some (g, [tooMany])
  | some first =>
    let set := g.macros.length
    let g := { g with
      macros := g.macros ++ [g.fresh]
      memory := Function.update g.memory g.fresh (some ⟨player, 0, s, []⟩)
      fresh := g.fresh + 1 }
    some (g.store { fill c first set with curmac := (first : Nat) },
      ["MACRO: Macro set ".toList ++ decimal set ++ " created with description ".toList ++ s ++
        ['.']])

def canReadMacros (player : Dbref) (wizard : Bool) (m : MacroSet) : Bool :=
  wizard || m.player == player || m.status &&& macroR != 0

/-- do_add_macro. -/
def addMacro (player : Nat) (wizard : Bool) (s : Text) : Reply :=
  let (c, g) := g.getCommac player
  match firstFree c with
  | none => some (g, [tooMany])
  | some first =>
    if isNumber s then
      let set := atoi s
      if 0 ≤ set ∧ set < g.macros.length then do
        let p ← g.setAt set
        let m ← g.memory p
        if canReadMacros player wizard m then
          some (g.store (fill c first set),
            ["MACRO: Macro set ".toList ++ decimal set ++ " added in the ".toList ++
              decimal (first : Nat) ++ " slot.".toList])
        else some (g, ["MACRO: Permission denied.".toList])
      else some (g, ["MACRO: That macro set does not exist.".toList])
    else some (g, ["MACRO: What set do you want to add to your macro system?".toList])

/-- do_del_macro. -/
def delMacro (player : Nat) (s : Text) : Reply :=
  let (c, g) := g.getCommac player
  if isNumber s then
    match slotAt (atoi s) with
    | some set =>
      if 0 ≤ c.macros set then
        let cleared :=
          "MACRO: Macro slot ".toList ++ decimal (set : Nat) ++ " cleared.".toList
        let c := fill c set (-1)
        if ((set : Nat) : Int) = c.curmac then
          some (g.store { c with curmac := -1 },
            [cleared, "MACRO: Deleted current slot, resetting to none.".toList])
        else some (g.store c, [cleared])
      else some (g, ["MACRO: That is not a legal macro slot.".toList])
    | none => some (g, ["MACRO: That is not a legal macro slot.".toList])
  else
    some (g, ["MACRO: What set did you want to delete from your macro system?".toList])

/-- do_edit_macro. -/
def editMacro (player : Nat) (s : Text) : Reply :=
  let (c, g) := g.getCommac player
  if isNumber s then
    match slotAt (atoi s) with
    | some set =>
      if g.gMac (c.macros set) then
        some (g.store { c with curmac := (set : Nat) },
          ["MACRO: Current slot set to ".toList ++ decimal (set : Nat) ++ ['.']])
      else some (g, ["MACRO: That is not a legal macro slot.".toList])
    | none => some (g, ["MACRO: That is not a legal macro slot.".toList])
  else some (g, ["MACRO: What slot did you want to make current?".toList])

/-! ## Clearing sets -/

/-- The loop of `clear_macro_set` over the slots of a record, for one of them. -/
def clearSlot (set : Int) (c : Commac) (j : Slot) : Commac :=
  if c.macros j = set then
    { fill c j (-1) with curmac := if c.curmac = (j : Nat) then -1 else c.curmac }
  else if set < c.macros j then fill c j (c.macros j - 1)
  else c

/-- What `clear_macro_set` does to a record. -/
def clearSlots (set : Int) (c : Commac) : Commac := (List.finRange 5).foldl (clearSlot set) c

def clearMacroSet (set : Int) : Option Game := do
  let g ←
    if g.gMac set then do
      let p ← g.setAt set
      let _ ← g.memory p
      some { g with
        macros := g.macros.eraseIdx set.toNat
        memory := Function.update g.memory p none }
    else some g
  some { g with commacTable := fun i => (g.commacTable i).map (clearSlots set) }

/-- do_clear_macro. -/
def clearMacro (player : Nat) (wizard : Bool) : Reply :=
  let (c, g) := g.getCommac player
  if c.curmac = -1 then
    some (g, ["MACRO: You are not currently editing a macro set.".toList])
  else do
    let current ← slotAt c.curmac
    let set := c.macros current
    if set = -1 then some (g, ["MACRO: That is not a valid macro set.".toList])
    else do
      let p ← g.setAt set
      let m ← g.memory p
      if g.gMac set && (player : Dbref) != m.player && !wizard then
        some (g, ["MACRO: You may only CLEAR your own macro sets.".toList])
      else if g.gMac set && (player : Dbref) == m.player && m.status &&& macroL != 0 then
        some (g, ["MACRO: Sorry, that macro set is locked.".toList])
      else do
        let g ← g.clearMacroSet set
        some (g, ["MACRO: Clearing macro set ".toList ++ decimal set ++ ": ".toList ++ m.desc ++
          ['.']])

/-- What `toast_player` does to macros when a player is destroyed. -/
def toastPlayer (player : Nat) (wizard : Bool) : Reply :=
  (g.delCommac player).clearMacro player wizard

/-! ## Using sets -/

def getMacroSet (player : Nat) (which : Int) : Option (Game × Option Ptr) :=
  let (c, g) := g.getCommac player
  match slotAt which with
  | some i =>
    if c.macros i = -1 then some (g, none) else (g.setAt (c.macros i)).map fun p => (g, some p)
  | none =>
    if 0 ≤ c.curmac then do
      let i ← slotAt c.curmac
      if c.macros i = -1 then some (g, none)
      else (g.setAt (c.macros i)).map fun p => (g, some p)
    else some (g, none)

def doDefMacro (player : Nat) (cmd : Text) : Reply := do
  let (g, p) ← g.getMacroSet player (-1)
  match p with
  | none => some (g, ["MACRO: No current set.".toList])
  | some p =>
    let m ← g.memory p
    let (m, messages) := defMacro m player cmd
    some ({ g with memory := Function.update g.memory p (some m) }, messages)

def doUndefMacro (player : Nat) (cmd : Text) : Reply := do
  let (g, p) ← g.getMacroSet player (-1)
  match p with
  | none => some (g, ["MACRO: Permission denied.".toList])
  | some p =>
    let m ← g.memory p
    let (m, messages) := undefMacro m player cmd
    some ({ g with memory := Function.update g.memory p (some m) }, messages)

/-- The loop of `do_process_macro` over slots. -/
def processSlots (next s : Text) (c : Commac) : List Slot → Option (Option Text)
  | [] => some none
  | i :: rest =>
    if g.gMac (c.macros i) then do
      let p ← g.setAt (c.macros i)
      let m ← g.memory p
      match processSet m next s with
      | some text => some (some text)
      | none => processSlots next s c rest
    else processSlots next s c rest

/-- do_process_macro: what the typed alias and its argument are replaced by. -/
def processMacro (player : Nat) (next s : Text) : Option (Game × Option Text) := do
  let (c, g) := g.getCommac player
  let text ← g.processSlots next s c (List.finRange 5)
  some (g, text)

end Game

/-! ## Commands -/

/-- What a player can do with macros, a wizard or not; the last is done to the player. -/
inductive Command where
  | create (player : Nat) (s : Text)
  | add (player : Nat) (wizard : Bool) (s : Text)
  | del (player : Nat) (s : Text)
  | edit (player : Nat) (s : Text)
  | clear (player : Nat) (wizard : Bool)
  | define (player : Nat) (cmd : Text)
  | undefine (player : Nat) (cmd : Text)
  | process (player : Nat) (next s : Text)
  | toast (player : Nat) (wizard : Bool)

def Game.perform (g : Game) : Command → Option Game
  | .create player s => (g.createMacro player s).map Prod.fst
  | .add player wizard s => (g.addMacro player wizard s).map Prod.fst
  | .del player s => (g.delMacro player s).map Prod.fst
  | .edit player s => (g.editMacro player s).map Prod.fst
  | .clear player wizard => (g.clearMacro player wizard).map Prod.fst
  | .define player cmd => (g.doDefMacro player cmd).map Prod.fst
  | .undefine player cmd => (g.doUndefMacro player cmd).map Prod.fst
  | .process player next s => (g.processMacro player next s).map Prod.fst
  | .toast player wizard => (g.toastPlayer player wizard).map Prod.fst

def Game.empty : Game :=
  { commacTable := fun _ => [], macros := [], memory := fun _ => none, fresh := 0 }

end BattletechMux.Macro
