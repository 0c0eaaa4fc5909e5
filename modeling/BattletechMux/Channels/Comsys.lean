/-
Module: BattletechMux.Channels.Comsys
Purpose: The channels of comsys.c: the hash table of their names and the counter beside it, the
  array of a channel's users and the list of those that are connected.
Trusted boundary: the hash entries that do_channelnuke frees and goes on to read are left out
-/
import BattletechMux.Hash.Iteration

namespace BattletechMux.Channels

open Function (update)
open BattletechMux.Hash (CString Table hashfind hashadd hashdelete hashFirst forEntries)

abbrev Dbref := Int

abbrev Addr := Nat

def chanNameLen : Nat := 50
def channelHistoryLen : Nat := 20

structure ComUser where
  who : Dbref
  on : Bool
  title : CString
deriving DecidableEq, Repr

/-- A struct channel; `users` holds the first `num_users` cells of the array, of
`maxUsers` cells. -/
structure Channel where
  name : CString
  type : Int
  temp1 : Int
  temp2 : Int
  charge : Int
  chargeWho : Dbref
  amountCol : Int
  maxUsers : Nat
  chanObj : Dbref
  users : List Addr
  onUsers : Option Addr
  lastMessages : List (Int × CString)
  numMessages : Int
deriving DecidableEq, Repr

structure World where
  haveComsys : Bool
  now : Int
  /-- `Comm_All`, UNDEAD, `Dark` and `Name` -/
  commAll : Dbref → Bool
  undead : Dbref → Bool
  dark : Dbref → Bool
  name : Dbref → CString

structure Comsys where
  channelHtab : Table CString Addr
  numChannels : Int
  channel : Addr → Channel
  channelLive : Addr → Bool
  freshChannel : Addr
  user : Addr → ComUser
  userLive : Addr → Bool
  /-- `on_next` -/
  onNext : Addr → Option Addr
  freshUser : Addr

def text (chars : String) : CString := chars.toList.map fun c => BitVec.ofNat 8 c.toNat

/-- `strncpy` to the name of a channel. -/
def cutName (channel : CString) : CString := channel.take (chanNameLen - 1)

namespace Comsys

variable (s : Comsys)

/-! ## Memory -/

def readChannel (ch : Addr) : Option Channel :=
  if s.channelLive ch then some (s.channel ch) else none

def readUser (user : Addr) : Option ComUser :=
  if s.userLive user then some (s.user user) else none

def setChannel (ch : Addr) (cell : Channel) : Comsys :=
  { s with channel := update s.channel ch cell }

def freeUser (user : Addr) : Option Comsys :=
  if s.userLive user then some { s with userLive := update s.userLive user false } else none

/-- The users of a channel and the channel itself are freed. -/
def freeChannel (ch : Addr) : Option Comsys := do
  let cell ← s.readChannel ch
  let s ← cell.users.foldlM freeUser s
  some { s with channelLive := update s.channelLive ch false }

/-! ## Looking up -/

def selectChannel (channel : CString) : Option (Option Addr × Comsys) := do
  let (ch, htab) ← hashfind s.channelHtab channel
  some (ch, { s with channelHtab := htab })

/-- The loop of `select_user`; `limit` bounds it. -/
def selectLoop (users : List Addr) (player : Dbref) : Nat → Int → Int → Option (Option Addr)
  | 0, _, _ => none
  | limit + 1, first, last =>
    if first ≤ last then
      let current := (first + last) / 2
      match users[current.toNat]? with
      | none => none
      | some user => do
          let cell ← s.readUser user
          if cell.who = player then some (some user)
          else if cell.who < player then selectLoop users player limit (current + 1) last
          else selectLoop users player limit first (current - 1)
    else some none

def selectUser (ch : Addr) (player : Dbref) : Option (Option Addr) := do
  let cell ← s.readChannel ch
  s.selectLoop cell.users player (cell.users.length + 1) 0 (cell.users.length - 1)

/-- The first of the connected users that is a player, and the one before. -/
def findOn (player : Dbref) : Nat → Option Addr → Option Addr →
    Option (Option (Option Addr × Addr))
  | 0, _, _ => none
  | _ + 1, _, none => some none
  | limit + 1, prevuser, some user => do
      let cell ← s.readUser user
      if cell.who = player then some (some (prevuser, user))
      else findOn player limit (some user) (s.onNext user)

/-! ## The commands -/

/-- The loop of `do_comsend`: who of the connected users is on. -/
def heardBy : Nat → Option Addr → Option (List Dbref)
  | 0, _ => none
  | _ + 1, none => some []
  | limit + 1, some user => do
      let cell ← s.readUser user
      let later ← heardBy limit (s.onNext user)
      some (if cell.on then cell.who :: later else later)

def doComsend (w : World) (ch : Addr) (mess : CString) : Option Comsys := do
  let cell ← s.readChannel ch
  let _ ← s.heardBy (s.freshUser + 1) cell.onUsers
  let history :=
    if channelHistoryLen ≤ cell.lastMessages.length then cell.lastMessages.tail
    else cell.lastMessages
  some (s.setChannel ch
    { cell with
      numMessages := cell.numMessages + 1
      lastMessages := history ++ [(w.now, mess)] })

/-- The message that a player comes or goes, when it is not Dark. -/
def announce (w : World) (player : Dbref) (ch : Addr) (what : String) : Option Comsys := do
  let cell ← s.readChannel ch
  if w.dark player then some s
  else s.doComsend w ch (text "[" ++ cell.name ++ text "] " ++ w.name player ++ text what)

/-- Where the loop of `do_joinchannel` puts a new user: behind those that are not larger. -/
def placeOf (users : List Addr) (player : Dbref) : Nat → Option Nat
  | 0 => some 0
  | i + 1 =>
    match users[i]? with
    | none => none
    | some user => do
        let cell ← s.readUser user
        if player < cell.who then placeOf users player i else some (i + 1)

/-- The branch of `do_joinchannel` for a player that is not on the channel.  The link of a
user that is not connected is not written. -/
def enroll (w : World) (player : Dbref) (ch : Addr) : Option Comsys := do
  let cell ← s.readChannel ch
  let numUsers := cell.users.length + 1
  let maxUsers := if cell.maxUsers ≤ numUsers then cell.maxUsers + 10 else cell.maxUsers
  let i ← s.placeOf cell.users player cell.users.length
  if maxUsers < numUsers then none
  else
    let user := s.freshUser
    let on := w.undead player
    let s : Comsys :=
      { s with
        user := update s.user user ⟨player, true, []⟩
        userLive := update s.userLive user true
        freshUser := user + 1
        onNext := if on then update s.onNext user cell.onUsers else s.onNext }
    some (s.setChannel ch
      { cell with
        maxUsers := maxUsers
        users := cell.users.insertIdx i user
        onUsers := if on then some user else cell.onUsers })

def doJoinchannel (w : World) (player : Dbref) (ch : Addr) : Option Comsys := do
  match ← s.selectUser ch player with
  | none => do
      let s ← s.enroll w player ch
      s.announce w player ch " has joined this channel."
  | some user => do
      let cell ← s.readUser user
      if cell.on then some s
      else
        let s := { s with user := update s.user user { cell with on := true } }
        s.announce w player ch " has joined this channel."

/-- `do_comconnectchannel`, from the channel it has found on. -/
def connectAt (player : Dbref) (ch : Addr) : Option Comsys := do
  let cell ← s.readChannel ch
  match ← s.findOn player (s.freshUser + 1) none cell.onUsers with
  | some _ => some s
  | none => do
      match ← s.selectUser ch player with
      | none => some s
      | some user =>
        let s := { s with onNext := update s.onNext user cell.onUsers }
        some (s.setChannel ch { cell with onUsers := some user })

def doComconnectchannel (player : Dbref) (channel : CString) : Option Comsys := do
  let (found, s) ← s.selectChannel channel
  match found with
  | none => some s
  | some ch => s.connectAt player ch

/-- `do_comdisconnectchannel`, from the channel it has found on. -/
def disconnectAt (player : Dbref) (ch : Addr) : Option Comsys := do
  let cell ← s.readChannel ch
  match ← s.findOn player (s.freshUser + 1) none cell.onUsers with
  | none => some s
  | some (some prevuser, user) =>
    some { s with onNext := update s.onNext prevuser (s.onNext user) }
  | some (none, user) => some (s.setChannel ch { cell with onUsers := s.onNext user })

def doComdisconnectchannel (player : Dbref) (channel : CString) : Option Comsys := do
  let (found, s) ← s.selectChannel channel
  match found with
  | none => some s
  | some ch => s.disconnectAt player ch

/-- The message that a player that was on has left, unless it has no name. -/
def farewell (w : World) (player : Dbref) (ch : Addr) (on : Bool) : Option Comsys :=
  if on ∧ w.name player ≠ [] then s.announce w player ch " has left this channel." else some s

/-- The body of the loop of `do_delcomchannel` for a user that leaves, after it is
disconnected. -/
def dropUser (w : World) (player : Dbref) (ch : Addr) (i : Nat) (user : Addr) :
    Option Comsys := do
  let cell ← s.readUser user
  let s ← s.farewell w player ch cell.on
  let s ← s.freeUser user
  let cell ← s.readChannel ch
  some (s.setChannel ch { cell with users := cell.users.eraseIdx i })

/-- The body of the loop of `do_delcomchannel`. -/
def leaveAt (w : World) (player : Dbref) (channel : CString) (ch : Addr) (i : Nat) (user : Addr) :
    Option Comsys := do
  let cell ← s.readUser user
  if cell.who = player then do
    let s ← s.doComdisconnectchannel player channel
    s.dropUser w player ch i user
  else some s

/-- The loop of `do_delcomchannel`, over the indices of the array as it is then. -/
def leaveLoop (w : World) (player : Dbref) (channel : CString) (ch : Addr) :
    Nat → Nat → Comsys → Option Comsys
  | 0, _, _ => none
  | limit + 1, i, s => do
      let cell ← s.readChannel ch
      match cell.users[i]? with
      | none => some s
      | some user => do
          let s ← s.leaveAt w player channel ch i user
          leaveLoop w player channel ch limit (i + 1) s

def doDelcomchannel (w : World) (player : Dbref) (channel : CString) : Option Comsys := do
  let (found, s) ← s.selectChannel channel
  match found with
  | none => some s
  | some ch => do
      let cell ← s.readChannel ch
      leaveLoop w player channel ch (cell.users.length + 1) 0 s

/-- A new channel, as `do_createchannel` fills it. -/
def newChannel (player : Dbref) (channel : CString) : Channel where
  name := cutName channel
  type := 127
  temp1 := 0
  temp2 := 0
  charge := 0
  chargeWho := player
  amountCol := 0
  maxUsers := 0
  chanObj := -1
  users := []
  onUsers := none
  lastMessages := []
  numMessages := 0

def doCreatechannel (w : World) (player : Dbref) (channel : CString) : Option Comsys := do
  if !w.haveComsys then some s
  else
    let (found, s) ← s.selectChannel channel
    if found.isSome ∨ channel = [] ∨ w.commAll player = false then some s
    else
      let newchannel := s.freshChannel
      let s : Comsys :=
        { s with
          channel := update s.channel newchannel (newChannel player channel)
          channelLive := update s.channelLive newchannel true
          freshChannel := newchannel + 1
          numChannels := s.numChannels + 1 }
      let (_, htab) ← hashadd s.channelHtab (cutName channel) newchannel
      some { s with channelHtab := htab }

def doDestroychannel (w : World) (player : Dbref) (channel : CString) : Option Comsys := do
  if !w.haveComsys then some s
  else
    let (found, s) ← s.selectChannel channel
    match found with
    | none => some s
    | some ch => do
        let cell ← s.readChannel ch
        if w.commAll player = false ∧ player ≠ cell.chargeWho then some s
        else
          let htab ← hashdelete s.channelHtab channel
          let s := { s with channelHtab := htab, numChannels := s.numChannels - 1 }
          s.freeChannel ch

/-- The body of the loop of `do_channelnuke`, for one entry of the table. -/
def nukeEntry (player : Dbref) (s : Comsys) (entry : Hash.Addr) : Option Comsys := do
  let ch := s.channelHtab.data entry
  let cell ← s.readChannel ch
  if cell.chargeWho = player then
    let htab ← hashdelete s.channelHtab cell.name
    let s := { s with channelHtab := htab, numChannels := s.numChannels - 1 }
    s.freeChannel ch
  else some s

def doChannelnuke (player : Dbref) : Option Comsys :=
  forEntries channelHtab (nukeEntry player)
    (s.channelHtab.hashsize * s.channelHtab.allocated + 1) (hashFirst s.channelHtab) s

/-- A player joins the channel it names, as `do_addcom` does with an alias for it. -/
def join (w : World) (player : Dbref) (channel : CString) : Option Comsys := do
  let (found, s) ← s.selectChannel channel
  match found with
  | none => some s
  | some ch => s.doJoinchannel w player ch

end Comsys

inductive Op where
  | create (player : Dbref) (channel : CString)
  | destroy (player : Dbref) (channel : CString)
  | join (player : Dbref) (channel : CString)
  | delcom (player : Dbref) (channel : CString)
  | connect (player : Dbref) (channel : CString)
  | disconnect (player : Dbref) (channel : CString)
  | nuke (player : Dbref)
deriving DecidableEq, Repr

def step (s : Comsys) (command : World × Op) : Option Comsys :=
  match command.2 with
  | .create player channel => s.doCreatechannel command.1 player channel
  | .destroy player channel => s.doDestroychannel command.1 player channel
  | .join player channel => s.join command.1 player channel
  | .delcom player channel => s.doDelcomchannel command.1 player channel
  | .connect player channel => s.doComconnectchannel player channel
  | .disconnect player channel => s.doComdisconnectchannel player channel
  | .nuke player => s.doChannelnuke player

end BattletechMux.Channels
