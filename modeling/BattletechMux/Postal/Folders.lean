/-
Module: BattletechMux.Postal.Folders
Purpose: The names of a player's mail folders, from mail.c: one text of `number:name:number` tokens
  in the attribute Mailfolders, searched with `string_match` and `strstr` and edited with
  `replace_string` of stringutil.c.
Trusted boundary: nothing else writes the attribute, and the owners of players stay as they are
-/
import BattletechMux.Foundation.CText

namespace BattletechMux.Postal.Folders

open CText (isSpace decimal atoi)

abbrev Text := List Char
abbrev Dbref := Nat

def lbufSize : Nat := 8000
def maxFolders : Nat := 15
def folderNameLen : Nat := 400

/-! ## stringutil.c -/

def upcasestr (s : Text) : Text := s.map Char.toUpper

/-- The loop of string_prefix, with the letters that matched so far. -/
def prefixLoop : Text → Text → Nat → Nat
  | _, [], count => count
  | [], _ :: _, _ => 0
  | c :: string, d :: start, count =>
    if c.toLower = d.toLower then prefixLoop string start (count + 1) else 0

/-- The length of `start` when a text starts with it, whatever the case of the letters. -/
def stringPrefix (string start : Text) : Nat := prefixLoop string start 0

/-- The loop of string_match; each round passes a word. -/
def matchLoop (sub : Text) : Nat → Text → Option Text
  | 0, _ => none
  | _ + 1, [] => none
  | limit + 1, c :: src =>
    if stringPrefix (c :: src) sub ≠ 0 then some (c :: src)
    else matchLoop sub limit
      (((c :: src).dropWhile Char.isAlphanum).dropWhile fun c => !c.isAlphanum)

/-- What a text holds from the first word on that starts with `sub`. -/
def stringMatch (src sub : Text) : Option Text :=
  if sub = [] then none else matchLoop sub (src.length + 1) src

/-- The loop of replace_string; `skip` letters belong to what has been replaced. -/
def replaceLoop (old new : Text) : Text → Nat → Text
  | [], _ => []
  | _ :: s, skip + 1 => replaceLoop old new s skip
  | c :: s, 0 =>
    if old <+: c :: s then new ++ replaceLoop old new s (old.length - 1)
    else c :: replaceLoop old new s 0

/-- The text with `new` for each `old`, as far as a buffer holds it. -/
def replaceString (old new string : Text) : Text :=
  if old = [] then string.take (lbufSize - 1)
  else (replaceLoop old new string 0).take (lbufSize - 1)

/-! ## The attribute -/

/-- A stored attribute, with the owner that is written into it. -/
structure Attribute where
  owner : Dbref
  text : Text

abbrev Attributes := Dbref → Option Attribute

def Attributes.text (attrs : Attributes) (thing : Dbref) : Text :=
  (attrs thing).elim [] Attribute.text

/-- The text of the attribute and whose it is; one that is missing is of the thing's owner. -/
def atrGet (owner : Dbref → Dbref) (attrs : Attributes) (thing : Dbref) : Text × Dbref :=
  (attrs.text thing, (attrs thing).elim (owner thing) Attribute.owner)

/-- What atr_encode writes before the text: its owner, and AF_MDARK, AF_WIZARD, AF_NOPROG and
AF_LOCK. -/
def info (owner : Dbref) : Text :=
  '\x01' :: decimal owner ++ ':' :: decimal (0x0008 + 0x0004 + 0x0100 + 0x0040) ++ [':']

/-- The text stays as far as a buffer holds it behind this. -/
def atrAdd (attrs : Attributes) (thing : Dbref) (buff : Text) (owner : Dbref) : Attributes :=
  Function.update attrs thing
    (if buff = [] then none
    else some ⟨owner, ((info owner ++ buff).take (lbufSize - 1)).drop (info owner).length⟩)

/-! ## mail.c -/

/-- The number of a folder name, -1 when there is none; `none` when it is stuck. -/
def getFolderNumber (atrstr name : Text) : Option Int :=
  if atrstr = [] then some (-1)
  else match CText.strstr (':' :: upcasestr name ++ [':']) atrstr with
    | none => some (-1)
    | some place =>
      let res := atrstr.drop (place + (2 + name.length))
      if res.any isSpace then some (atoi res) else none

def getFolderName (atrstr : Text) (fld : Nat) : Option Text :=
  if atrstr = [] then some "unnamed".toList
  else match stringMatch atrstr (decimal fld ++ [':']) with
    | none => some "unnamed".toList
    | some old =>
      let r := old.drop (decimal fld ++ [':']).length
      if ':' ∈ r then some (r.takeWhile (· != ':')) else none

def token (fld : Nat) (name : Text) : Text := decimal fld ++ ':' :: name ++ ':' :: decimal fld

/-- The text that `add_folder_name` makes of the old one. -/
def renamed (fld : Nat) (name atrstr : Text) : Option Text :=
  let new := token fld (upcasestr name) ++ [' ']
  let old := if atrstr = [] then none else stringMatch atrstr (decimal fld ++ [':'])
  match old with
  | some old =>
    if old.any isSpace then
      some (replaceString (old.takeWhile fun c => !isSpace c) new atrstr)
    else none
  | none => some ((atrstr ++ new).take (lbufSize - 1))

/-- Here `atr_get` puts the owner of the attribute in the place of the player. -/
def addFolderName (owner : Dbref → Dbref) (attrs : Attributes) (player : Dbref) (fld : Nat)
    (name : Text) : Option Attributes :=
  let (atrstr, player) := atrGet owner attrs player
  (renamed fld name atrstr).map fun res => atrAdd attrs player res player

/-! ## The folder command -/

/-- do_mail_change_folder takes the name. -/
def accepted (newname : Text) : Bool :=
  !newname.isEmpty && newname.length ≤ folderNameLen && newname.all Char.isAlphanum

structure Naming where
  player : Dbref
  fld : Nat
  name : Text
  isFolder : fld ≤ maxFolders
  isName : accepted name = true

def step (owner : Dbref → Dbref) (attrs : Attributes) (op : Naming) : Option Attributes :=
  addFolderName owner attrs op.player op.fld op.name

end BattletechMux.Postal.Folders
