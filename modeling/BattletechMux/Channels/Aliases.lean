/-
Module: BattletechMux.Channels.Aliases
Purpose: The aliases a player has for channels, from comsys.c and commac.c: `do_addcom`,
  `do_delcom`, `do_clearcom`, `get_channel_from_alias` and the order `load_commac` leaves.
Trusted boundary: memory can be had; the counters do not wrap.  What the channel system says
  of a channel is a parameter of a command, and what it does and tells when a player joins or
  leaves one is left out
-/
import BattletechMux.Macro.Sets

namespace BattletechMux.Channels.Aliases

open BattletechMux.Macro (Text lower strcasecmp)

/-! ## Arrays -/

/-- The cells of an array; one that has not been written, or was freed, is `none`. -/
abbrev Cells := List (Option Text)

def readCell (cells : Cells) (i : Nat) : Option Text := cells[i]?.join

def writeCell (cells : Cells) (i : Nat) (cell : Option Text) : Option Cells :=
  if i < cells.length then some (cells.set i cell) else none

/-- memmove of `n` cells from the place `source` to the place `target`. -/
def memmove (cells : Cells) (target source n : Nat) : Option Cells :=
  if target + n ≤ cells.length ∧ source + n ≤ cells.length then
    some (cells.take target ++ (cells.drop source).take n ++ cells.drop (target + n))
  else none

def realloc (cells : Cells) (size : Nat) : Cells :=
  cells ++ List.replicate (size - cells.length) none

/-- What a struct commac has of aliases.  A cell of `alias` is six bytes. -/
structure Commac where
  numchannels : Nat
  maxchannels : Nat
  alias' : Cells
  channels : Cells
deriving DecidableEq

def createNewCommac : Commac where
  numchannels := 0
  maxchannels := 0
  alias' := []
  channels := []

structure World where
  haveComsys : Bool
  /-- `select_channel` finds it -/
  selectChannel : Text → Bool
  /-- `do_test_access` of CHANNEL_JOIN -/
  mayJoin : Text → Bool
  /-- `select_user` finds the player -/
  selectUser : Text → Bool

/-! ## do_addcom -/

def splitChannel (arg2 : Text) : Except Text (Text × Text) :=
  let channel := arg2.takeWhile (· != ',')
  if 200 ≤ channel.length then .error "Channel name too long.".toList
  else .ok (channel, ((arg2.dropWhile (· != ',')).drop 1).take 99)

/-- What do_addcom asks before it looks at the aliases. -/
def checkAddcom (w : World) (arg1 arg2 : Text) : Except Text (Text × Text) :=
  if !w.haveComsys then .error "Comsys disabled.".toList
  else if arg1 = [] then .error "You need to specify an alias.".toList
  else if arg2 = [] then .error "You need to specify a channel.".toList
  else match splitChannel arg2 with
    | .error note => .error note
    | .ok (channel, title) =>
      if ' ' ∈ channel then .error "Channel name cannot contain spaces.".toList
      else if !w.selectChannel channel then
        .error ("Channel ".toList ++ channel ++ " does not exist yet.".toList)
      else if !w.mayJoin channel then
        .error "Sorry, this channel type does not allow you to join.".toList
      else .ok (channel, title)

/-- The first place from `place` on, with `left` places to go, whose alias is not before
`arg1`. -/
def findWhere (c : Commac) (arg1 : Text) : Nat → Nat → Option Nat
  | 0, place => some place
  | left + 1, place =>
    match readCell c.alias' place with
    | none => none
    | some stored =>
      if strcasecmp arg1 stored = .gt then findWhere c arg1 left (place + 1) else some place

def inUse (c : Commac) (arg1 : Text) (place : Nat) : Option (Option Text) :=
  if place < c.numchannels then
    match readCell c.alias' place with
    | none => none
    | some stored =>
      if strcasecmp arg1 stored = .eq then (readCell c.channels place).map some else some none
  else some none

def Commac.grow (c : Commac) : Commac :=
  if c.maxchannels ≤ c.numchannels then
    { c with
      maxchannels := c.maxchannels + 10
      alias' := realloc c.alias' (c.maxchannels + 10)
      channels := realloc c.channels (c.maxchannels + 10) }
  else c

def Commac.makeRoom (c : Commac) (place : Nat) : Option Commac :=
  if place < c.numchannels then do
    let alias' ← memmove c.alias' (place + 1) place (c.numchannels - place)
    let channels ← memmove c.channels (place + 1) place (c.numchannels - place)
    some { c with alias' := alias', channels := channels }
  else some c

def Commac.put (c : Commac) (place : Nat) (arg1 channel : Text) : Option Commac := do
  let alias' ← writeCell c.alias' place (some (arg1.take 5))
  let channels ← writeCell c.channels place (some channel)
  some { c with numchannels := c.numchannels + 1, alias' := alias', channels := channels }

def addedNote (arg1 channel title : Text) : Text :=
  if title = [] then
    "Channel ".toList ++ channel ++ " added with alias ".toList ++ arg1 ++ ".".toList
  else "Channel ".toList ++ channel ++ " added with alias ".toList ++ arg1 ++
    " and title ".toList ++ title ++ ".".toList

/-- The player's aliases after the command and what the player is told; `none` when the
command is stuck. -/
def doAddcom (w : World) (arg1 arg2 : Text) (c : Commac) : Option (Commac × List Text) :=
  match checkAddcom w arg1 arg2 with
  | .error note => some (c, [note])
  | .ok (channel, title) => do
      let notes := if w.selectUser channel then
        ["Warning: you are already listed on that channel.".toList] else []
      let place ← findWhere c arg1 c.numchannels 0
      match ← inUse c arg1 place with
      | some used =>
        some (c, notes ++ ["That alias is already in use for channel ".toList ++ used ++
          ".".toList])
      | none => do
          let roomy ← c.grow.makeRoom place
          let c ← roomy.put place arg1 channel
          some (c, notes ++ [addedNote arg1 channel title])

/-! ## do_delcom and do_clearcom -/

/-- The first place from `i` on, with `left` places to go, with the alias. -/
def findAlias (c : Commac) (arg1 : Text) : Nat → Nat → Option (Option Nat)
  | 0, _ => some none
  | left + 1, i =>
    match readCell c.alias' i with
    | none => none
    | some stored =>
      if strcasecmp arg1 stored = .eq then some (some i)
      else findAlias c arg1 left (i + 1)

/-- The channel of the place is freed and the cells after it move to the one before. -/
def Commac.remove (c : Commac) (i : Nat) : Option Commac := do
  let channels ← writeCell c.channels i none
  if i < c.numchannels - 1 then do
    let alias' ← memmove c.alias' i (i + 1) (c.numchannels - 1 - i)
    let channels ← memmove channels i (i + 1) (c.numchannels - 1 - i)
    some { c with numchannels := c.numchannels - 1, alias' := alias', channels := channels }
  else some { c with numchannels := c.numchannels - 1, channels := channels }

def doDelcom (w : World) (arg1 : Text) (c : Commac) : Option (Commac × List Text) :=
  if !w.haveComsys then some (c, ["Comsys disabled.".toList])
  else do
    match ← findAlias c arg1 c.numchannels 0 with
    | none => some (c, ["Unable to find that alias.".toList])
    | some i =>
      let channel ← readCell c.channels i
      let c ← c.remove i
      some (c, ["Channel ".toList ++ channel ++ " deleted.".toList])

/-- The loop of do_clearcom, with the places below `i` to come. -/
def clearFrom (w : World) : Nat → Commac → Option (Commac × List Text)
  | 0, c => some (c, [])
  | i + 1, c => do
      let stored ← readCell c.alias' i
      let (c, notes) ← doDelcom w stored c
      let (c, more) ← clearFrom w i c
      some (c, notes ++ more)

def doClearcom (w : World) (c : Commac) : Option (Commac × List Text) :=
  if !w.haveComsys then some (c, ["Comsys disabled.".toList])
  else clearFrom w c.numchannels c

/-! ## get_channel_from_alias -/

/-- The loop of get_channel_from_alias; `limit` bounds it. -/
def searchAlias (c : Commac) (alias' : Text) : Nat → Int → Int → Option Text
  | 0, _, _ => none
  | limit + 1, first, last =>
    if first ≤ last then
      match readCell c.alias' ((first + last) / 2).toNat with
      | none => none
      | some stored =>
        match strcasecmp alias' stored with
        | .eq => readCell c.channels ((first + last) / 2).toNat
        | .lt => searchAlias c alias' limit first ((first + last) / 2 - 1)
        | .gt => searchAlias c alias' limit ((first + last) / 2 + 1) last
    else some []

/-- The channel of an alias, `""` when there is none. -/
def getChannelFromAlias (c : Commac) (alias' : Text) : Option Text :=
  searchAlias c alias' (c.numchannels + 1) 0 (c.numchannels - 1)

/-! ## load_commac -/

/-- The order of `strcasecmp`. -/
def key (entry : Text × Text) : Text := lower entry.1

/-- A table of the aliases and channels of the file, in the order of sort_com_aliases. -/
def loadCommac (file : List (Text × Text)) : Commac where
  numchannels := file.length
  maxchannels := file.length
  alias' := (Bubble.sort key file).map fun entry => some entry.1
  channels := (Bubble.sort key file).map fun entry => some entry.2

/-! ## Runs -/

inductive Op where
  | addcom (w : World) (arg1 arg2 : Text)
  | delcom (w : World) (arg1 : Text)
  | clearcom (w : World)

def step (c : Commac) : Op → Option Commac
  | .addcom w arg1 arg2 => (doAddcom w arg1 arg2 c).map Prod.fst
  | .delcom w arg1 => (doDelcom w arg1 c).map Prod.fst
  | .clearcom w => (doClearcom w c).map Prod.fst

end BattletechMux.Channels.Aliases
