/-
Module: BattletechMux.Parsing.Splitter
Purpose: `parse_to` of eval.c, which cuts a string in its own memory, and where the string is to be
  cut.
-/
import Mathlib
import BattletechMux.Foundation.CText

namespace BattletechMux.Parsing

open CText (isSpace)

section

open Function (update)

abbrev Text := List Char
abbrev Memory := Int → Char

def nul : Char := '\x00'
def escChar : Char := '\x1b'

/-- The flags that parse_to looks at. -/
def evStrip : BitVec 32 := 0x00000400
def evStripTs : BitVec 32 := 0x00001000
def evStripLs : BitVec 32 := 0x00002000
def evStripEsc : BitVec 32 := 0x00004000
def evStripAround : BitVec 32 := 0x00008000
def evNoCompress : BitVec 32 := 0x00040000

/-- The flags of the call and mudconf.space_compress. -/
structure Mode where
  spaceCompress : Bool
  eval : BitVec 32

def Mode.has (mode : Mode) (flag : BitVec 32) : Bool := mode.eval &&& flag != 0

def Mode.compresses (mode : Mode) : Bool := mode.spaceCompress && !mode.has evNoCompress

def stacklim : Nat := 32

/-- The variables of parse_to; the stack with its top first. -/
structure Scan where
  mem : Memory
  rstr : Int
  cstr : Int
  zstr : Int
  stack : List Char
  first : Bool

namespace Scan

/-- `*cstr`. -/
def here (s : Scan) : Char := s.mem s.cstr

/-- A write into the string that starts at `start`. -/
def write (start : Int) (s : Scan) (place : Int) (c : Char) : Option Scan :=
  if start ≤ place ∧ place ≤ s.cstr then some { s with mem := update s.mem place c } else none

def skip (s : Scan) : Scan := { s with cstr := s.cstr + 1 }

def nextChar (start : Int) (s : Scan) : Option Scan :=
  if s.cstr = s.zstr then some { s with cstr := s.cstr + 1, zstr := s.zstr + 1 }
  else (s.write start s.zstr s.here).map fun s =>
    { s with cstr := s.cstr + 1, zstr := s.zstr + 1 }

def push (s : Scan) (c : Char) : Scan :=
  if s.stack.length < stacklim then { s with stack := c :: s.stack } else s

end Scan

/-- The loops over white space; `limit` bounds them. -/
def skipSpaces (mem : Memory) : Nat → Int → Option Int
  | 0, _ => none
  | limit + 1, place =>
    if mem place ≠ nul ∧ isSpace (mem place) then skipSpaces mem limit (place + 1)
    else some place

def skipSpacesBack (mem : Memory) : Nat → Int → Option Int
  | 0, _ => none
  | limit + 1, place =>
    if mem (place - 1) ≠ nul ∧ isSpace (mem (place - 1)) then
      skipSpacesBack mem limit (place - 1)
    else some place

/-- parse_to_cleanup leaves off the braces. -/
def stripAround (mode : Mode) (start : Int) (limit : Nat) (s : Scan) : Option Scan := do
  let rstr ← if mode.spaceCompress && (!mode.has evNoCompress || mode.has evStripLs) then
    skipSpaces s.mem limit (s.rstr + 1) else some (s.rstr + 1)
  let s ← s.write start (rstr - 1) nul
  let zstr ← if mode.spaceCompress && (!mode.has evNoCompress || mode.has evStripTs) then
    skipSpacesBack s.mem limit (s.zstr - 1) else some (s.zstr - 1)
  let s ← s.write start zstr nul
  s.write start zstr nul |>.map fun s => { s with rstr := rstr, zstr := zstr }

/-- parse_to_cleanup, which ends the string that is returned. -/
def parseToCleanup (mode : Mode) (start : Int) (limit : Nat) (s : Scan) : Option Scan :=
  let s := if (mode.spaceCompress || mode.has evStripTs) && !mode.has evNoCompress &&
      !s.first && s.mem (s.cstr - 1) == ' ' then { s with zstr := s.zstr - 1 } else s
  if mode.has evStripAround && s.mem s.rstr == '{' && s.mem (s.zstr - 1) == '}' then
    stripAround mode start limit s
  else s.write start s.zstr nul

def escaped (mode : Mode) (start : Int) (s : Scan) : Option Scan := do
  let s ← if s.here = '\\' ∧ mode.has evStripEsc then some s.skip else s.nextChar start
  let s ← if s.here ≠ nul then s.nextChar start else some s
  some { s with first := false }

def braceChar (mode : Mode) (start : Int) (level : Nat) (s : Scan) : Option (Nat × Scan) :=
  if s.here = '\\' ∨ s.here = '%' then
    if s.mem (s.cstr + 1) ≠ nul then
      if s.here = '\\' ∧ mode.has evStripEsc then some (level, s.skip)
      else (s.nextChar start).map fun s => (level, s)
    else some (level, s)
  else if s.here = '{' then some (level + 1, s)
  else if s.here = '}' then some (level - 1, s)
  else some (level, s)

/-- The loop inside braces; `limit` bounds it. -/
def braceLoop (mode : Mode) (start : Int) : Nat → Nat → Scan → Option (Nat × Scan)
  | 0, _, _ => none
  | limit + 1, level, s =>
    if s.here ≠ nul ∧ 0 < level then
      match braceChar mode start level s with
      | none => none
      | some (level, s) =>
        if 0 < level then (s.nextChar start).bind (braceLoop mode start limit level)
        else braceLoop mode start limit level s
    else some (level, s)

/-- A brace and what is in it, up to the one that closes it. -/
def braces (mode : Mode) (start : Int) (limit : Nat) (s : Scan) : Option Scan := do
  let s ← if mode.has evStrip then some s.skip else s.nextChar start
  let (level, s) ← braceLoop mode start limit 1 s
  let s ← if level = 0 then (if mode.has evStrip then some s.skip else s.nextChar start)
    else some s
  some { s with first := false }

/-- What the default branch does before it takes the character. -/
def plainChar (mode : Mode) (s : Scan) : Scan :=
  if s.here = ' ' then
    if mode.compresses then
      if s.first then { s with rstr := s.rstr + 1 }
      else if s.mem (s.cstr - 1) = ' ' then { s with zstr := s.zstr - 1 }
      else s
    else s
  else if s.here = '[' then
    if s.cstr ≠ s.rstr ∧ s.mem (s.cstr - 1) = escChar then { s with first := false }
    else { s.push ']' with first := false }
  else if s.here = '(' then { s.push ')' with first := false }
  else { s with first := false }

/-- The main loop; `true` when it stops at the delimiter.  `limit` bounds the loops. -/
def parseLoop (mode : Mode) (delim : Char) (start : Int) (limit : Nat) :
    Nat → Scan → Option (Bool × Scan)
  | 0, _ => none
  | rounds + 1, s =>
    if s.here = nul then some (false, s)
    else if s.here = '\\' ∨ s.here = '%' then
      (escaped mode start s).bind (parseLoop mode delim start limit rounds)
    else if s.here = ']' ∨ s.here = ')' then
      if s.here ∈ s.stack then
        ({ s with stack := (s.stack.dropWhile (· != s.here)).tail, first := false }.nextChar
          start).bind (parseLoop mode delim start limit rounds)
      else if s.here = delim then some (true, s)
      else ({ s with first := false }.nextChar start).bind
        (parseLoop mode delim start limit rounds)
    else if s.here = '{' then
      (braces mode start limit s).bind (parseLoop mode delim start limit rounds)
    else if s.here = delim ∧ s.stack = [] then some (true, s)
    else ((plainChar mode s).nextChar start).bind (parseLoop mode delim start limit rounds)

/-- What a call leaves: the memory, the string it returns, and `*dstr`. -/
structure Result where
  mem : Memory
  rstr : Int
  dstr : Option Int

/-- parse_to of a string at `dstr`; `limit` bounds its loops. -/
def parseTo (mode : Mode) (delim : Char) (limit : Nat) (mem : Memory) (dstr : Int) :
    Option Result :=
  if mem dstr = nul then some { mem := mem, rstr := dstr, dstr := none }
  else
    let lead := if (mode.spaceCompress || mode.has evStripLs) && !mode.has evNoCompress then
      skipSpaces mem limit dstr else some dstr
    lead.bind fun rstr =>
      (parseLoop mode delim dstr limit limit
        { mem := mem, rstr := rstr, cstr := rstr, zstr := rstr, stack := [], first := true }).bind
        fun (cut, s) => (parseToCleanup mode dstr limit s).map fun s =>
          { mem := s.mem, rstr := s.rstr, dstr := if cut then some (s.cstr + 1) else none }

end

/-! ## Items -/

/-- A character that stands for itself, or a stretch of text in which none does. -/
inductive Item where
  | plain (c : Char)
  | quoted (text : Text)
deriving DecidableEq

def Item.text : Item → Text
  | plain c => [c]
  | quoted text => text

def flat (items : List Item) : Text := items.flatMap Item.text

/-- A block in braces behind its opening brace, and what follows it. -/
def block : Nat → Text → Text × Text
  | 0, text => ([], text)
  | _ + 1, [] => ([], [])
  | level + 1, c :: text =>
    if c = '\\' ∨ c = '%' then
      match text with
      | [] => ([c], [])
      | d :: text => (c :: d :: (block (level + 1) text).1, (block (level + 1) text).2)
    else if c = '{' then (c :: (block (level + 2) text).1, (block (level + 2) text).2)
    else if c = '}' then (c :: (block level text).1, (block level text).2)
    else (c :: (block (level + 1) text).1, (block (level + 1) text).2)

/-- The items of a text: an escape character quotes the character behind it, braces quote what
they enclose. -/
inductive Lexes : Text → List Item → Prop where
  | done : Lexes [] []
  | escapeEnd (c : Char) (escape : c = '\\' ∨ c = '%') : Lexes [c] [.quoted [c]]
  | escape (c d : Char) (rest : Text) (items : List Item) (escape : c = '\\' ∨ c = '%')
      (lexes : Lexes rest items) : Lexes (c :: d :: rest) (.quoted [c, d] :: items)
  | block (text : Text) (items : List Item) (lexes : Lexes (block 1 text).2 items) :
      Lexes ('{' :: text) (.quoted ('{' :: (block 1 text).1) :: items)
  | plain (c : Char) (rest : Text) (items : List Item) (escape : ¬(c = '\\' ∨ c = '%'))
      (brace : c ≠ '{') (lexes : Lexes rest items) : Lexes (c :: rest) (.plain c :: items)

/-! ## Brackets -/

/-- The text that has been passed, and the closing brackets that are waited for. -/
structure Passed where
  text : Text
  opened : List Char

/-- What a character does to the brackets.  A closing one unwinds to the one it matches; one
that matches none, one opened behind an escape code, and one more than the room for them, do
not count. -/
def brackets (passed : Passed) (c : Char) : List Char :=
  if c = ']' ∨ c = ')' then
    if c ∈ passed.opened then (passed.opened.dropWhile (· != c)).tail else passed.opened
  else if c = '[' ∧ passed.text.getLast? ≠ some escChar ∨ c = '(' then
    if passed.opened.length < stacklim then
      (if c = '[' then ']' else ')') :: passed.opened
    else passed.opened
  else passed.opened

def Passed.step (passed : Passed) : Item → Passed
  | .plain c => { text := passed.text ++ [c], opened := brackets passed c }
  | .quoted text => { text := passed.text ++ text, opened := passed.opened }

def passed (items : List Item) : Passed := items.foldl Passed.step { text := [], opened := [] }

def opened (items : List Item) : List Char := (passed items).opened

/-- A delimiter may cut where no bracket is open; one that closes brackets may where it closes
none. -/
def Free (delim : Char) (opened : List Char) : Prop :=
  if delim = ']' ∨ delim = ')' then delim ∉ opened else opened = []

/-! ## Cuts -/

/-- The first free delimiter among `items`, which follow `earlier`. -/
structure FirstCut (delim : Char) (earlier items before after : List Item) : Prop where
  split : items = before ++ .plain delim :: after
  free : Free delim (opened (earlier ++ before))
  first : ∀ before' after', items = before' ++ .plain delim :: after' →
    Free delim (opened (earlier ++ before')) → before.length ≤ before'.length

/-- No delimiter among `items`, which follow `earlier`, is free. -/
def NoCut (delim : Char) (earlier items : List Item) : Prop :=
  ∀ before after, items = before ++ .plain delim :: after →
    ¬ Free delim (opened (earlier ++ before))

/-- A text is cut at its first free delimiter, or nowhere. -/
inductive Cut (delim : Char) (text : Text) : Option (Text × Text) → Prop where
  | between (items before after : List Item) (lexes : Lexes text items)
      (cut : FirstCut delim [] items before after) : Cut delim text (some (flat before, flat after))
  | nowhere (items : List Item) (lexes : Lexes text items) (none' : NoCut delim [] items) :
      Cut delim text none

/-- The text that is looked at, without the blanks in front of it. -/
def leading (mode : Mode) (text : Text) : Text :=
  if (mode.spaceCompress || mode.has evStripLs) && !mode.has evNoCompress then
    text.dropWhile isSpace
  else text

inductive Pieces (mode : Mode) (delim : Char) : Text → List Text → Prop where
  | last (text : Text) (cut : Cut delim (leading mode text) none) :
      Pieces mode delim text [leading mode text]
  | next (text before after : Text) (pieces : List Text)
      (cut : Cut delim (leading mode text) (some (before, after)))
      (others : Pieces mode delim after pieces) : Pieces mode delim text (before :: pieces)

/-! ## What is shown of a piece -/

def droppable (c : Char) : Bool := isSpace c || c == '\\' || c == '{' || c == '}'

/-- A piece without some of its blanks, backslashes and braces. -/
structure Trimmed (shown raw : Text) : Prop where
  sublist : shown.Sublist raw
  kept : shown.filter (!droppable ·) = raw.filter (!droppable ·)

def Mode.verbatim (mode : Mode) : Prop :=
  mode.compresses = false ∧ mode.has evStrip = false ∧ mode.has evStripEsc = false ∧
    (mode.has evStripTs && !mode.has evNoCompress) = false ∧ mode.has evStripAround = false

/-! ## Strings in memory -/

def Holds (mem : Memory) : Int → Text → Prop
  | _, [] => True
  | place, c :: text => mem place = c ∧ Holds mem (place + 1) text

def StringAt (mem : Memory) (place : Int) (text : Text) : Prop :=
  Holds mem place (text ++ [nul]) ∧ nul ∉ text

/-- parse_to until there is nothing left: the memory and the strings it returned.  `calls`
bounds the calls. -/
def splitAll (mode : Mode) (delim : Char) (limit : Nat) :
    Nat → Memory → Int → Option (Memory × List Int)
  | 0, _, _ => none
  | calls + 1, mem, dstr =>
    (parseTo mode delim limit mem dstr).bind fun result =>
      match result.dstr with
      | none => some (result.mem, [result.rstr])
      | some dstr =>
        (splitAll mode delim limit calls result.mem dstr).map fun (mem, strings) =>
          (mem, result.rstr :: strings)

/-- With both EV_STRIP and EV_STRIP_AROUND neither the character in front of the string nor the
delimiter is a closing brace. -/
def Safe (mode : Mode) (delim : Char) (mem : Memory) (dstr : Int) : Prop :=
  mode.has evStrip = true → mode.has evStripAround = true → mem (dstr - 1) ≠ '}' ∧ delim ≠ '}'

end BattletechMux.Parsing
