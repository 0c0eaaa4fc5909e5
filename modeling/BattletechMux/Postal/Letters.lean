/-
Module: BattletechMux.Postal.Letters
Purpose: The mail of mail.c: the mail structs in memory, linked both ways into mailboxes; and the
  letters that they are for.
Trusted boundary: the hash table of the mailboxes is a map, in which a player may have an entry that
  holds NULL
-/
import BattletechMux.Foundation.CText
import BattletechMux.Foundation.Fifo

namespace BattletechMux.Postal

section

open Function (update)

abbrev Dbref := Int

abbrev Addr := Nat

abbrev Text := List Char

def god : Dbref := 1
def nothing : Dbref := -1

def mIsread : BitVec 32 := 0x0001
def mCleared : BitVec 32 := 0x0002
def mSafe : BitVec 32 := 0x0010
def mFmask : BitVec 32 := 0xF0FF

structure Envelope where
  sentTo : Dbref
  sentFrom : Dbref
  time : Text
  subject : Text
  tolist : Text
  read : BitVec 32
deriving DecidableEq, Repr

def Envelope.isRead (m : Envelope) : Bool := m.read &&& mIsread ≠ 0
def Envelope.isCleared (m : Envelope) : Bool := m.read &&& mCleared ≠ 0
def Envelope.isSafe (m : Envelope) : Bool := m.read &&& mSafe ≠ 0

structure Mail where
  envelope : Envelope
  number : Int
deriving DecidableEq, Repr

structure MailEntry where
  message : Option Text
  count : Int
deriving DecidableEq, Repr

structure World where
  dbTop : Nat
  isPlayer : Dbref → Bool
  goodObj : Dbref → Bool
  wizard : Dbref → Bool
  time : Text
  /-- A message as it is evaluated for its sender, with the signature. -/
  evaluate : Dbref → Text → Text
  /-- A time older than the mail expiration; nothing is when that is negative. -/
  expired : Text → Bool

structure Post where
  mailHtab : Dbref → Option (Option Addr)
  mail : Addr → Mail
  next : Addr → Option Addr
  prev : Addr → Option Addr
  live : Addr → Bool
  fresh : Addr
  mailList : Nat → MailEntry
  mailDbTop : Nat
  mailDbSize : Nat
  mailFreelist : Nat

namespace Post

variable (s : Post)

/-! ## The hash table of the mailboxes -/

def nhashfind (player : Dbref) : Option Addr := (s.mailHtab player).join

/-- `nhashadd`; an entry that holds NULL stays behind the new one. -/
def nhashadd (player : Dbref) (mp : Addr) : Post :=
  if (s.nhashfind player).isSome then s
  else { s with mailHtab := update s.mailHtab player (some (some mp)) }

def nhashrepl (player : Dbref) (mp : Option Addr) : Post :=
  if (s.mailHtab player).isSome then { s with mailHtab := update s.mailHtab player (some mp) }
  else s

/-! ## The table of the texts -/

def mailDbGrow (newtop : Nat) : Post :=
  if newtop ≤ s.mailDbTop then s
  else
    { s with
      mailList := fun i => if s.mailDbTop ≤ i ∧ i < newtop then ⟨none, 0⟩ else s.mailList i
      mailDbTop := newtop
      mailDbSize :=
        if newtop ≤ s.mailDbSize then s.mailDbSize
        else if newtop ≤ s.mailDbSize + 100 then s.mailDbSize + 100
        else newtop }

/-- The loop of `make_mail_freelist`: the first empty slot of those from `i` on. -/
def firstEmpty : Nat → Nat → Option Nat
  | 0, _ => none
  | slots + 1, i =>
    if (s.mailList i).message = none then some i else firstEmpty slots (i + 1)

def makeMailFreelist : Post :=
  match s.firstEmpty s.mailDbTop 0 with
  | some i => { s with mailFreelist := i }
  | none => { s.mailDbGrow (s.mailDbTop + 1) with mailFreelist := s.mailDbTop }

def slot (number : Int) : Option Nat :=
  if 0 ≤ number ∧ number < s.mailDbTop then some number.toNat else none

def setEntry (i : Nat) (entry : MailEntry) : Post :=
  { s with mailList := update s.mailList i entry }

/-- The loop of `add_mail_message` that skips a slot that is in use. -/
def skipUsed : Nat → Post → Option Post
  | 0, _ => none
  | limit + 1, s => do
      let i ← s.slot s.mailFreelist
      if (s.mailList i).message = none then some s else skipUsed limit s.makeMailFreelist

/-- A text that `strcasecmp` takes for "clear". -/
def isClear (message : Text) : Bool := message.map Char.toLower = "clear".toList

def addMailMessage (w : World) (player : Dbref) (message : Text) : Option (Int × Post) :=
  if isClear message then some (-1, s)
  else do
    let s := if s.mailDbSize = 0 then s.mailDbGrow 1 else s
    let s ← skipUsed 2 s
    let number := s.mailFreelist
    let s := s.setEntry number
      { s.mailList number with message := some (w.evaluate player message) }
    some (number, s.makeMailFreelist)

def addMailMessageNosig (message : Text) : Option (Int × Post) := do
  let number := s.mailFreelist
  let s := if s.mailDbSize = 0 then s.mailDbGrow 1 else s
  let i ← s.slot number
  let s := s.setEntry i { s.mailList i with message := some message }
  some (number, s.makeMailFreelist)

def newMailMessage (message : Text) (number : Int) : Option Post := do
  let i ← s.slot number
  some (s.setEntry i { s.mailList i with message := some message })

def addCount (number : Int) : Option Post := do
  let i ← s.slot number
  some (s.setEntry i { s.mailList i with count := (s.mailList i).count + 1 })

def deleteMailMessage (number : Int) : Option Post := do
  let i ← s.slot number
  let count := (s.mailList i).count - 1
  some (s.setEntry i (if count < 1 then ⟨none, 0⟩ else { s.mailList i with count := count }))

/-- What `get_mail_message` gives when there is no text. -/
def missingText : Text :=
  ("MAIL: This mail message does not exist in the database. " ++
    "Please alert your admin.").toList

def getMailMessage (number : Int) : Option (Text × Post) := do
  let i ← s.slot number
  match (s.mailList i).message with
  | some message => some (message, s)
  | none => do
      let s ← s.deleteMailMessage number
      some (missingText, s)

/-! ## Mail structs -/

def readMail (mp : Addr) : Option Mail := if s.live mp then some (s.mail mp) else none

def setNext (mp : Addr) (link : Option Addr) : Option Post :=
  if s.live mp then some { s with next := update s.next mp link } else none

def setPrev (mp : Addr) (link : Option Addr) : Option Post :=
  if s.live mp then some { s with prev := update s.prev mp link } else none

def lastOf : Nat → Addr → Option Addr
  | 0, _ => none
  | limit + 1, mp => do
      let _ ← s.readMail mp
      match s.next mp with
      | none => some mp
      | some next => lastOf limit next

def enqueue (player : Dbref) (newp : Addr) : Option Post := do
  match s.nhashfind player with
  | none =>
    let s ← (s.nhashadd player newp).setNext newp none
    s.setPrev newp none
  | some first => do
      let mp ← s.lastOf (s.fresh + 1) first
      let s ← s.setNext mp (some newp)
      let s ← s.setNext newp none
      s.setPrev newp (some mp)

def newMail (m : Mail) : Post :=
  { s with
    mail := update s.mail s.fresh m
    live := update s.live s.fresh true
    fresh := s.fresh + 1 }

/-- A new mail is counted as one that has its text, and put at the end of its mailbox. -/
def insertMail (m : Mail) : Option Post := do
  let s' ← (s.newMail m).addCount m.number
  s'.enqueue m.envelope.sentTo s.fresh

/-- A mail is unlinked from the mailbox of `key`. -/
def unlinkMail (key : Dbref) (mp : Addr) : Option Post := do
  let prev := s.prev mp
  let next := s.next mp
  let s ←
    match prev, next with
    | none, _ => some (s.nhashrepl key next)
    | some prev, none => s.setNext prev none
    | some _, some _ => some s
  let s ←
    match prev with
    | some prev => s.setNext prev next
    | none => some s
  match next with
  | some next => s.setPrev next prev
  | none => some s

def freeMail (mp : Addr) : Option Post := do
  let m ← s.readMail mp
  let s ← s.deleteMailMessage m.number
  some { s with live := update s.live mp false }

/-- A loop through a mailbox that removes what `choose` says; `choose` counts the mails it
has looked at.  The mailbox is that of `key`. -/
def sweep (key : Envelope → Dbref) (choose : Nat → Envelope → Nat × Bool) :
    Nat → Nat → Option Addr → Post → Option Post
  | 0, _, _, _ => none
  | _ + 1, _, none, s => some s
  | limit + 1, i, some mp, s => do
      let m ← s.readMail mp
      let chosen := choose i m.envelope
      if chosen.2 then do
        let s ← s.unlinkMail (key m.envelope) mp
        let nextp := s.next mp
        let s ← s.freeMail mp
        sweep key choose limit chosen.1 nextp s
      else sweep key choose limit chosen.1 (s.next mp) s

/-- A sweep of the mailboxes of the first things of the database. -/
def sweepAll (key : Envelope → Dbref) (choose : Nat → Envelope → Nat × Bool) :
    Nat → Nat → Post → Option Post
  | 0, _, s => some s
  | things + 1, thing, s => do
      let s ← sweep key choose (s.fresh + 1) 0 (s.nhashfind thing) s
      sweepAll key choose things (thing + 1) s

/-! ## The commands -/

def sendMail (w : World) (player target : Dbref) (tolist subject : Text) (number : Int)
    (flags : BitVec 32) : Option Post :=
  if !w.isPlayer target then s.deleteMailMessage number
  else s.insertMail ⟨⟨target, player, w.time, subject, tolist, flags &&& mFmask⟩, number⟩

/-- What is sent to GOD for a member of a mail alias that is no player. -/
def aliasError (vic : Dbref) (tolist : Text) : Text :=
  "Alias Error: Bad Player ".toList ++ CText.decimal vic ++ " for ".toList ++ tolist

/-- The loop of `do_malias_send`, over the members of the alias. -/
def maliasSend (w : World) (player : Dbref) (head listto subject : Text) (number : Int)
    (flags : BitVec 32) : List Dbref → Post → Option Post
  | [], s => some s
  | vic :: later, s =>
    if w.isPlayer vic then do
      let s ← s.sendMail w player vic listto subject number flags
      maliasSend w player head listto subject number flags later s
    else do
      let (complaint, s) ← s.addMailMessage w player (aliasError vic head)
      let s ← s.sendMail w god god listto subject complaint 0
      maliasSend w player head listto subject number flags later s

end Post

/-- Somebody in a list of recipients: a mail alias and its members when there is such an
alias, or the number of an object. -/
inductive Recipient where
  | malias (head : Text) (members : Option (List Dbref))
  | target (target : Dbref)
deriving DecidableEq, Repr

namespace Post

/-- The loop of `mail_to_list`. -/
def deliver (w : World) (player : Dbref) (tolist subject : Text) (number : Int)
    (flags : BitVec 32) : List Recipient → Post → Option Post
  | [], s => some s
  | .malias _ none :: _, s => some s
  | .malias head (some members) :: later, s => do
      let s ← maliasSend w player head tolist subject number flags members s
      deliver w player tolist subject number flags later s
  | .target target :: later, s =>
    if target = nothing then deliver w player tolist subject number flags later s
    else do
      let s ← s.sendMail w player target tolist subject number flags
      deliver w player tolist subject number flags later s

variable (s : Post)

def mailToList (w : World) (player : Dbref) (recipients : List Recipient)
    (tolist subject message : Text) (flags : BitVec 32) : Option Post := do
  if recipients = [] then some s
  else
    let (number, s) ← s.addMailMessage w player message
    deliver w player tolist subject number flags recipients s

/-- `do_mail_retract`; of the mails of the player those that `matched` says. -/
def doMailRetract (player target : Dbref) (matched : Nat → Envelope → Bool) : Option Post :=
  sweep (fun _ => target)
    (fun i m =>
      if m.sentFrom = player then (i + 1, matched (i + 1) m && !m.isRead) else (i, false))
    (s.fresh + 1) 0 (s.nhashfind target) s

def doMailPurge (player : Dbref) : Option Post :=
  sweep (fun _ => player) (fun i m => (i, m.isCleared)) (s.fresh + 1) 0 (s.nhashfind player) s

def checkMailExpiration (w : World) : Option Post :=
  sweepAll Envelope.sentTo (fun i m => (i, w.expired m.time && !m.isSafe)) w.dbTop 0 s

/-- The loop of `do_mail_nuke` through a mailbox. -/
def nukeLoop : Nat → Option Addr → Post → Option Post
  | 0, _, _ => none
  | _ + 1, none, s => some s
  | limit + 1, some mp, s => do
      let nextp := s.next mp
      let s ← s.freeMail mp
      nukeLoop limit nextp s

def nukeAll : Nat → Nat → Post → Option Post
  | 0, _, s => some s
  | things + 1, thing, s => do
      let s ← nukeLoop (s.fresh + 1) (s.nhashfind thing) s
      nukeAll things (thing + 1) s

def doMailNuke (w : World) (player : Dbref) : Option Post :=
  if player ≠ god then some s else nukeAll w.dbTop 0 s

/-- `do_mail_debug`, for "fix". -/
def doMailFix (w : World) (player : Dbref) : Option Post :=
  if !w.wizard player then some s
  else sweepAll (fun _ => player)
    (fun i m => (i, !w.goodObj m.sentTo || !w.isPlayer m.sentTo)) w.dbTop 0 s

/-- The loop of `do_mail_flags`, `do_mail_file` and `do_mail_read`, for what it changes. -/
def markLoop (counted : Envelope → Bool) (matched : Nat → Envelope → Bool)
    (change : BitVec 32 → BitVec 32) : Nat → Nat → Option Addr → Post → Option Post
  | 0, _, _, _ => none
  | _ + 1, _, none, s => some s
  | limit + 1, i, some mp, s => do
      let m ← s.readMail mp
      let i' := if counted m.envelope then i + 1 else i
      let read := if counted m.envelope && matched i' m.envelope then change m.envelope.read
        else m.envelope.read
      let s := { s with mail := update s.mail mp { m with envelope := { m.envelope with read } } }
      markLoop counted matched change limit i' (s.next mp) s

def doMailMark (player : Dbref) (counted : Envelope → Bool) (matched : Nat → Envelope → Bool)
    (change : BitVec 32 → BitVec 32) : Option Post :=
  markLoop counted matched change (s.fresh + 1) 0 (s.nhashfind player) s

end Post

/-- A mail in a file, with the number of its text or, in the older formats, with its text. -/
structure Record where
  envelope : Envelope
  body : Int ⊕ Text
deriving DecidableEq, Repr

namespace Post

variable (s : Post)

/-- The number of the text of a record; a text of its own gets one. -/
def recordNumber (body : Int ⊕ Text) : Option (Int × Post) :=
  match body with
  | .inl number => some (number, s)
  | .inr text => s.addMailMessageNosig text

/-- The first loop of `load_mail`. -/
def loadRecords : List Record → Post → Option Post
  | [], s => some s
  | record :: later, s => do
      let (number, s) ← s.recordNumber record.body
      let s ← s.insertMail ⟨record.envelope, number⟩
      loadRecords later s

/-- The second loop of `load_mail`. -/
def loadTexts : List (Int × Text) → Post → Option Post
  | [], s => some s
  | (number, text) :: later, s => do
      let s ← s.newMailMessage text number
      loadTexts later s

/-- `load_mail`, of a file in a format with a table of texts when there is a `mailTop`. -/
def loadMail (mailTop : Option Nat) (records : List Record) (texts : List (Int × Text)) :
    Option Post := do
  let s := s.mailDbGrow (match mailTop with | some mailTop => mailTop + 1 | none => 1)
  let s ← loadRecords records s
  loadTexts texts s

end Post

inductive Op where
  | send (player : Dbref) (recipients : List Recipient) (tolist subject message : Text)
      (flags : BitVec 32)
  | retract (player target : Dbref) (matched : Nat → Envelope → Bool)
  | purge (player : Dbref)
  | expire
  | nuke (player : Dbref)
  | fix (player : Dbref)
  | mark (player : Dbref) (counted : Envelope → Bool) (matched : Nat → Envelope → Bool)
      (change : BitVec 32 → BitVec 32)
  | load (mailTop : Option Nat) (records : List Record) (texts : List (Int × Text))

def step (s : Post) (command : World × Op) : Option Post :=
  match command.2 with
  | .send player recipients tolist subject message flags =>
    s.mailToList command.1 player recipients tolist subject message flags
  | .retract player target matched => s.doMailRetract player target matched
  | .purge player => s.doMailPurge player
  | .expire => s.checkMailExpiration command.1
  | .nuke player => s.doMailNuke command.1 player
  | .fix player => s.doMailFix command.1 player
  | .mark player counted matched change => s.doMailMark player counted matched change
  | .load mailTop records texts => s.loadMail mailTop records texts

end

section

open Function (update)

structure Letter where
  envelope : Envelope
  text : Text
deriving DecidableEq, Repr

abbrev Letters := Dbref → List Letter

section Lists

variable {Item : Type}

/-- What is left of a list when `choose` says what goes; `choose` counts what it has looked
at. -/
def kept (choose : Nat → Item → Nat × Bool) : Nat → List Item → List Item
  | _, [] => []
  | i, item :: rest =>
    if (choose i item).2 then kept choose (choose i item).1 rest
    else item :: kept choose (choose i item).1 rest

/-- What a list is when the items that are counted and matched change. -/
def marked (counted : Item → Bool) (matched : Nat → Item → Bool) (change : Item → Item) :
    Nat → List Item → List Item
  | _, [] => []
  | i, item :: rest =>
    let i := if counted item then i + 1 else i
    (if counted item && matched i item then change item else item) ::
      marked counted matched change i rest

theorem kept_map {Other : Type} (f : Item → Other) (choose : Nat → Other → Nat × Bool) (i : Nat)
    (items : List Item) :
    (kept (fun i item => choose i (f item)) i items).map f = kept choose i (items.map f) := by
  induction items generalizing i with
  | nil => rfl
  | cons item rest ih =>
    rw [kept, List.map_cons, kept]
    split
    · exact ih _
    · rw [List.map_cons, ih]

theorem kept_filter (gone : Item → Bool) (i : Nat) (items : List Item) :
    kept (fun i item => (i, gone item)) i items = items.filter fun item => !gone item := by
  induction items generalizing i with
  | nil => rfl
  | cons item rest ih =>
    rw [kept, List.filter_cons]
    cases gone item with
    | false => exact congrArg (item :: ·) (ih i)
    | true => exact ih i

end Lists

namespace Letters

def post (letters : Letters) (letter : Letter) : Letters :=
  update letters letter.envelope.sentTo (letters letter.envelope.sentTo ++ [letter])

def send (w : World) (player target : Dbref) (tolist subject text : Text) (flags : BitVec 32)
    (letters : Letters) : Letters :=
  if w.isPlayer target then
    letters.post ⟨⟨target, player, w.time, subject, tolist, flags &&& mFmask⟩, text⟩
  else letters

/-- The members of an alias get the letter, and GOD a complaint for each that is no player. -/
def sendMembers (w : World) (player : Dbref) (head tolist subject text : Text)
    (flags : BitVec 32) : List Dbref → Letters → Letters
  | [], letters => letters
  | vic :: later, letters =>
    sendMembers w player head tolist subject text flags later
      (if w.isPlayer vic then letters.send w player vic tolist subject text flags
      else letters.send w god god tolist subject
        (w.evaluate player (Post.aliasError vic head)) 0)

/-- The recipients get the letter, up to an alias that there is not. -/
def sendAll (w : World) (player : Dbref) (tolist subject text : Text) (flags : BitVec 32) :
    List Recipient → Letters → Letters
  | [], letters => letters
  | .malias _ none :: _, letters => letters
  | .malias head (some members) :: later, letters =>
    sendAll w player tolist subject text flags later
      (letters.sendMembers w player head tolist subject text flags members)
  | .target target :: later, letters =>
    sendAll w player tolist subject text flags later
      (if target = nothing then letters
      else letters.send w player target tolist subject text flags)

/-- The boxes of the first things of the database lose what `choose` says. -/
def keepAll (dbTop : Nat) (choose : Nat → Envelope → Nat × Bool) (letters : Letters) : Letters :=
  fun player =>
    if 0 ≤ player ∧ player < dbTop then
      kept (fun i letter => choose i letter.envelope) 0 (letters player)
    else letters player

/-- The text of a record of a file: its own, or the last one that has its number. -/
def textOf (texts : List (Int × Text)) (record : Record) : Text :=
  match record.body with
  | .inr text => text
  | .inl number => ((texts.reverse.find? fun text => text.1 = number).map Prod.snd).getD []

def step (letters : Letters) (command : World × Op) : Letters :=
  let w := command.1
  match command.2 with
  | .send player recipients tolist subject message flags =>
    letters.sendAll w player tolist subject (w.evaluate player message) flags recipients
  | .retract player target matched =>
    update letters target (kept (fun i letter =>
      if letter.envelope.sentFrom = player then
        (i + 1, matched (i + 1) letter.envelope && !letter.envelope.isRead)
      else (i, false)) 0 (letters target))
  | .purge player =>
    update letters player
      ((letters player).filter fun letter => !letter.envelope.isCleared)
  | .expire =>
    letters.keepAll w.dbTop fun i m => (i, w.expired m.time && !m.isSafe)
  | .nuke player =>
    if player = god then letters.keepAll w.dbTop fun i _ => (i, true) else letters
  | .fix player =>
    if w.wizard player then
      letters.keepAll w.dbTop fun i m => (i, !w.goodObj m.sentTo || !w.isPlayer m.sentTo)
    else letters
  | .mark player counted matched change =>
    update letters player (marked (fun letter => counted letter.envelope)
      (fun i letter => matched i letter.envelope)
      (fun letter =>
        { letter with envelope := { letter.envelope with read := change letter.envelope.read } })
      0 (letters player))
  | .load _ records texts =>
    records.foldl (fun letters record => letters.post ⟨record.envelope, textOf texts record⟩)
      letters

end Letters

/-- Those that `mail_to_list` hands its text to: the numbers, and the players among the
members of the aliases, up to an alias that there is not. -/
def addressed (w : World) : List Recipient → List Dbref
  | [] => []
  | .malias _ none :: _ => []
  | .malias _ (some members) :: later => members.filter w.isPlayer ++ addressed w later
  | .target target :: later =>
    if target = nothing then addressed w later else target :: addressed w later

end

open List Option
open Function (update update_self update_of_ne)
open LinkedMemory (Chain DoublyLinked BidirList)

/-- The mailboxes are lists linked both ways, of mails that are there, each in one of them. -/
structure Linked (s : Post) (boxes : Dbref → List Addr) : Prop where
  linked : ∀ player, DoublyLinked s.next s.prev (s.nhashfind player) (boxes player)
  live : ∀ player, ∀ mp ∈ boxes player, s.live mp = true
  apart : ∀ player other mp, mp ∈ boxes player → mp ∈ boxes other → player = other

/-- Nothing but the table of mailboxes and the links changes. -/
structure Relinked (s s' : Post) : Prop where
  mail : s'.mail = s.mail
  live : s'.live = s.live
  fresh : s'.fresh = s.fresh
  mailList : s'.mailList = s.mailList
  mailDbTop : s'.mailDbTop = s.mailDbTop
  mailDbSize : s'.mailDbSize = s.mailDbSize
  mailFreelist : s'.mailFreelist = s.mailFreelist

variable {s : Post} {boxes : Dbref → List Addr} {player : Dbref}

theorem readMail_eq {mp : Addr} (alive : s.live mp = true) :
    s.readMail mp = some (s.mail mp) := if_pos alive

theorem nhashfind_of_ne (htab : Dbref → Option (Option Addr)) {o : Dbref}
    (ne : o ≠ player) (mp : Option Addr) :
    (update htab player (some mp) o).join = (htab o).join := by
  rw [update_of_ne ne]

theorem lastOf_spec {limit : Nat} {front : List Addr} {fst last : Addr}
    (chain : Chain s.next (some fst) (front ++ [last]))
    (alive : ∀ mp ∈ front ++ [last], s.live mp = true) (hlt : (front ++ [last]).length ≤ limit) :
    s.lastOf limit fst = some last := by
  induction front generalizing fst limit with
  | nil =>
    obtain ⟨limit, rfl⟩ := Nat.exists_eq_succ_of_ne_zero (Nat.ne_of_gt hlt)
    obtain ⟨eq, ended⟩ := chain
    cases eq
    rw [Post.lastOf, readMail_eq (alive last mem_cons_self), bind_eq_bind,
      bind_some, LinkedMemory.chain_nil.mp ended]
  | cons mp front ih =>
    obtain ⟨limit, rfl⟩ := Nat.exists_eq_succ_of_ne_zero
      (Nat.ne_of_gt (Nat.lt_of_lt_of_le (Nat.succ_pos _) hlt))
    obtain ⟨rfl, rest⟩ : fst = mp ∧ _ := ⟨some.inj chain.1, chain.2⟩
    obtain ⟨snd, link⟩ : ∃ snd, s.next fst = some snd := by
      cases front with
      | nil => exact ⟨_, rest.1⟩
      | cons snd more => exact ⟨_, rest.1⟩
    rw [Post.lastOf, readMail_eq (alive fst mem_cons_self), bind_eq_bind,
      bind_some, link]
    exact ih (link ▸ rest)
      (fun o mem => alive o (mem_cons_of_mem fst mem))
      (Nat.le_of_succ_le_succ hlt)

theorem enqueue_spec (linked : Linked s boxes) {newp : Addr} (alive : s.live newp = true)
    (fresh : ∀ o, newp ∉ boxes o) (short : (boxes player).length ≤ s.fresh + 1) :
    ∃ s', s.enqueue player newp = some s' ∧ Relinked s s' ∧
      Linked s' (update boxes player (boxes player ++ [newp])) := by
  -- whatever the links are, the new mail is at one place only
  have live : ∀ o, ∀ mp ∈ update boxes player (boxes player ++ [newp]) o,
      s.live mp = true := by
    intro o mp mem
    by_cases eq : o = player
    · rw [eq, update_self] at mem
      rcases mem_append.mp mem with old | new
      · exact linked.live player mp old
      · rwa [mem_singleton.mp new]
    · rw [update_of_ne eq] at mem
      exact linked.live o mp mem
  have places : ∀ o mp, mp ∈ update boxes player (boxes player ++ [newp]) o →
      mp ∈ boxes o ∨ mp = newp ∧ o = player := by
    intro o mp mem
    by_cases eq : o = player
    · rw [eq, update_self] at mem
      rcases mem_append.mp mem with old | new
      · exact Or.inl (eq ▸ old)
      · exact Or.inr ⟨mem_singleton.mp new, eq⟩
    · rw [update_of_ne eq] at mem
      exact Or.inl mem
  have apart : ∀ fst snd mp, mp ∈ update boxes player (boxes player ++ [newp]) fst →
      mp ∈ update boxes player (boxes player ++ [newp]) snd → fst = snd := by
    intro fst snd mp inFirst inSecond
    rcases places fst mp inFirst with old | ⟨rfl, is⟩
    · rcases places snd mp inSecond with old' | ⟨rfl, _⟩
      · exact linked.apart fst snd mp old old'
      · exact absurd old (fresh fst)
    · rcases places snd mp inSecond with old' | ⟨_, is'⟩
      · exact absurd old' (fresh snd)
      · exact is.trans is'.symm
  rcases eq_nil_or_concat (boxes player) with none' | ⟨front, last, split⟩
  · have start : s.nhashfind player = none := by
      have chain := (linked.linked player).chain
      rwa [none'] at chain
    let s' : Post :=
      { s with
        mailHtab := update s.mailHtab player (some (some newp))
        next := update s.next newp none
        prev := update s.prev newp none }
    refine ⟨s', ?_, ⟨rfl, rfl, rfl, rfl, rfl, rfl, rfl⟩, fun o => ?_, live, apart⟩
    · rw [Post.enqueue, start]
      simp only [Post.nhashadd, start, isSome_none, Bool.false_eq_true, if_false,
        Post.setNext, Post.setPrev, if_pos alive, bind_eq_bind, bind_some]
      rfl
    · by_cases eq : o = player
      · subst eq
        rw [update_self, none']
        have hf : s'.nhashfind o = some newp := by simp [s', Post.nhashfind]
        exact ⟨⟨hf, update_self ..⟩, update_self .., trivial⟩
      · rw [update_of_ne eq]
        have old := linked.linked o
        have ne : ∀ mp ∈ boxes o, mp ≠ newp := fun mp mem is =>
          fresh o (is ▸ mem)
        have hf : s'.nhashfind o = s.nhashfind o := nhashfind_of_ne _ eq _
        refine ⟨hf ▸ old.chain.congr fun mp mem => ?_, old.back.congr fun mp mem => ?_⟩
        · exact update_of_ne (ne mp mem) ..
        · exact update_of_ne (ne mp mem) ..
  · rw [concat_eq_append] at split
    have old := linked.linked player
    rw [split] at old
    obtain ⟨fst, start⟩ : ∃ fst, s.nhashfind player = some fst := by
      rw [old.chain.head_eq]
      cases front <;> exact ⟨_, rfl⟩
    have reached := lastOf_spec (start ▸ old.chain)
      (fun mp mem => linked.live player mp (split ▸ mem)) (split ▸ short)
    have there : last ∈ boxes player := split ▸ mem_append_right _ (mem_singleton_self last)
    have aliveLast := linked.live player last there
    let s' : Post :=
      { s with
        next := update (update s.next last (some newp)) newp none
        prev := update s.prev newp (some last) }
    refine ⟨s', ?_, ⟨rfl, rfl, rfl, rfl, rfl, rfl, rfl⟩, fun o => ?_, live, apart⟩
    · rw [Post.enqueue, start]
      simp only [reached, Post.setNext, Post.setPrev, if_pos alive, if_pos aliveLast,
        bind_eq_bind, bind_some]
      rfl
    · by_cases eq : o = player
      · subst eq
        rw [update_self, split]
        exact old.snoc (split ▸ fresh o)
      · rw [update_of_ne eq]
        have oldOther := linked.linked o
        have ne : ∀ mp ∈ boxes o, mp ≠ newp := fun mp mem is =>
          fresh o (is ▸ mem)
        have outside : ∀ mp ∈ boxes o, mp ≠ last := fun mp mem is =>
          eq (linked.apart o player mp mem (is ▸ there))
        refine ⟨oldOther.chain.congr fun mp mem => ?_, oldOther.back.congr fun mp mem => ?_⟩
        · exact (update_of_ne (ne mp mem) ..).trans
            (update_of_ne (outside mp mem) ..)
        · exact update_of_ne (ne mp mem) ..

theorem unlinkMail_spec (linked : Linked s boxes) {pre post : List Addr} {mp : Addr}
    (split : boxes player = pre ++ mp :: post) :
    ∃ s', s.unlinkMail player mp = some s' ∧ Relinked s s' ∧
      Linked s' (update boxes player (pre ++ post)) ∧ s'.next mp = post.head? := by
  let list : BidirList Addr := ⟨s.nhashfind player, s.next, s.prev⟩
  have h : list.Holds (pre ++ mp :: post) := split ▸ linked.linked player
  have back : s.prev mp = pre.getLast? := by simpa using h.back.prev_eq
  have forward : s.next mp = post.head? := (Chain.next_eq_head h.chain).head_eq
  have hin : ∀ o, o ∈ pre ++ post → o ∈ boxes player := by
    intro o mem
    rw [split]
    rcases mem_append.mp mem with earlier | later
    · exact mem_append_left _ earlier
    · exact mem_append_right _ (mem_cons_of_mem mp later)
  have alive : ∀ o ∈ pre ++ post, s.live o = true :=
    fun o mem => linked.live player o (hin o mem)
  -- the links are those that unlinking by the neighbours leaves
  obtain ⟨s', ran, relinked, head, others, next, prev⟩ : ∃ s', s.unlinkMail player mp = some s' ∧
      Relinked s s' ∧ s'.nhashfind player = (list.remove mp).head ∧
      (∀ o, o ≠ player → s'.nhashfind o = s.nhashfind o) ∧
      s'.next = (list.remove mp).next ∧ s'.prev = (list.remove mp).prev := by
    rw [BidirList.remove_eq h, Post.unlinkMail, back, forward]
    rcases eq_nil_or_concat pre with rfl | ⟨front, last, rfl⟩
    · have start : s.nhashfind player = some mp := h.chain.1
      obtain ⟨e, is⟩ : ∃ e, s.mailHtab player = some e := by
        cases is : s.mailHtab player with
        | none => simp [Post.nhashfind, is] at start
        | some e => exact ⟨e, rfl⟩
      have replaced : s.nhashrepl player post.head? =
          { s with mailHtab := update s.mailHtab player (some post.head?) } := by
        rw [Post.nhashrepl, is]
        rfl
      have hf : (update s.mailHtab player (some post.head?) player).join = post.head? := by
        rw [update_self]
        rfl
      cases post with
      | nil =>
        refine ⟨_, rfl, ?_⟩
        rw [replaced]
        exact ⟨⟨rfl, rfl, rfl, rfl, rfl, rfl, rfl⟩, hf,
          fun o ne => nhashfind_of_ne _ ne _, rfl, rfl⟩
      | cons snd rest =>
        have aliveSecond := alive snd mem_cons_self
        refine ⟨{ s with
          mailHtab := update s.mailHtab player (some (some snd))
          prev := update s.prev snd none }, ?_, ?_⟩
        · rw [replaced]
          simp only [getLast?_nil, bind_eq_bind, bind_some,
            head?_cons, Post.setPrev, if_pos aliveSecond]
        · exact ⟨⟨rfl, rfl, rfl, rfl, rfl, rfl, rfl⟩, hf,
            fun o ne => nhashfind_of_ne _ ne _, rfl, rfl⟩
    · have aliveLast := alive last (by simp)
      have start : s.nhashfind player = (front.concat last ++ post).head? := by
        have fst := h.chain.head_eq
        rw [show list.head = s.nhashfind player from rfl] at fst
        rw [fst]
        cases front <;> rfl
      rw [concat_eq_append, getLast?_concat]
      rw [concat_eq_append] at start
      cases post with
      | nil =>
        refine ⟨{ s with next := update s.next last none }, ?_,
          ⟨rfl, rfl, rfl, rfl, rfl, rfl, rfl⟩, start, fun _ _ => rfl, rfl, rfl⟩
        simp only [head?_nil, Post.setNext, if_pos aliveLast, bind_eq_bind,
          bind_some, Function.update_idem]
      | cons snd rest =>
        have aliveSecond := alive snd (by simp)
        refine ⟨{ s with
          next := update s.next last (some snd)
          prev := update s.prev snd (some last) }, ?_,
          ⟨rfl, rfl, rfl, rfl, rfl, rfl, rfl⟩, start, fun _ _ => rfl, rfl, rfl⟩
        simp only [head?_cons, Post.setNext, Post.setPrev, if_pos aliveLast,
          if_pos aliveSecond, bind_eq_bind, bind_some]
  have nodup := h.chain.nodup
  have notBefore : mp ∉ pre := fun mem => by
    rw [nodup_append] at nodup
    exact nodup.2.2 mp mem mp mem_cons_self rfl
  refine ⟨s', ran, relinked, ⟨fun o => ?_, fun o box mem => ?_, ?_⟩, ?_⟩
  · by_cases eq : o = player
    · subst eq
      rw [update_self, head, next, prev]
      exact BidirList.remove_holds h
    · rw [update_of_ne eq, others o eq, next, prev]
      refine BidirList.remove_frame h (linked.linked o) fun cell mem inBox => ?_
      exact eq (linked.apart o player cell mem (split ▸ inBox))
  · rw [relinked.live]
    by_cases eq : o = player
    · rw [eq, update_self] at mem
      exact alive box mem
    · rw [update_of_ne eq] at mem
      exact linked.live o box mem
  · have among : ∀ o box, box ∈ update boxes player (pre ++ post) o →
        box ∈ boxes o := by
      intro o box mem
      by_cases eq : o = player
      · rw [eq, update_self] at mem
        exact eq ▸ hin box mem
      · rwa [update_of_ne eq] at mem
    exact fun fst snd box inFirst inSecond =>
      linked.apart fst snd box (among fst box inFirst) (among snd box inSecond)
  · rw [next, BidirList.remove_next_of_notMem h notBefore]
    exact forward

end BattletechMux.Postal
