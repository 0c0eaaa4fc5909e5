/-
Module: BattletechMux.Lock.Parser
Purpose: The boolean locks of boolexp.c: reading one, what it says about a player, and the text it
  is stored as (unparse.c).
Trusted boundary: the attribute tables, the object matcher, the database and softcode are given
-/
import Mathlib.Data.List.DropRight
import BattletechMux.Foundation.CText
import BattletechMux.Match.Wild

namespace BattletechMux.Lock

section

open CText (isSpace atoi)

inductive Prefix
  | indir
  | is
  | carry
  | owner
deriving DecidableEq, Repr

def Prefix.token : Prefix → Char
  | indir => '@'
  | is => '='
  | carry => '+'
  | owner => '$'

def Prefix.ofToken (c : Char) : Option Prefix :=
  if c = '@' then some .indir
  else if c = '=' then some .is
  else if c = '+' then some .carry
  else if c = '$' then some .owner
  else none

inductive Boolexp
  | and (sub1 sub2 : Boolexp)
  | or (sub1 sub2 : Boolexp)
  | not (sub1 : Boolexp)
  | unary (type : Prefix) (sub1 : Boolexp)
  | const (thing : Int)
  | atr (thing : Int) (key : List Char)
  | eval (thing : Int) (key : List Char)
deriving DecidableEq, Repr

def Prefix.takes : Prefix → Boolexp → Bool
  | _, .const _ => true
  | is, .atr _ _ => true
  | carry, .atr _ _ => true
  | _, _ => false

def nothing : Int := -1

def ambiguous : Int := -2

structure Scene where
  /-- `atr_str`: the number of the attribute with this name. -/
  atrStr : List Char → Option Int
  /-- `God(parse_player)`. -/
  god : Bool
  /-- `parsing_internal`. -/
  internal : Bool
  /-- `Good_obj`. -/
  goodObj : Int → Bool
  /-- `match_result`, after `match_everything` for this name. -/
  matchResult : List Char → Int

def skipWhitespace (text : List Char) : List Char := text.dropWhile isSpace

/-- The characters of an atom: all but AND_TOKEN, OR_TOKEN and a closing parenthesis. -/
def atomChar (c : Char) : Bool := c ≠ '&' ∧ c ≠ '|' ∧ c ≠ ')'

/-- Trailing white space goes.  The source looks for it in front of the buffer too when
the atom is empty, where it finds none. -/
def stripTrailing (buf : List Char) : List Char := buf.rdropWhile isSpace

/-- Where `parsebuf` can be after some of a text has been read. -/
abbrev Rest (text : List Char) := { rest : List Char // rest.length ≤ text.length }

def Rest.of {text later : List Char} (rest : Rest later) (shorter : later.length ≤ text.length) :
    Rest text :=
  ⟨rest.1, rest.2.trans shorter⟩

theorem skipWhitespace_length_le (text : List Char) :
    (skipWhitespace text).length ≤ text.length :=
  (List.dropWhile_sublist isSpace).length_le

theorem length_lt_of_skip {text after : List Char} {c : Char}
    (token : skipWhitespace text = c :: after) : after.length < text.length := by
  have le := skipWhitespace_length_le text
  rw [token, List.length_cons] at le
  omega

section Parse

variable (scene : Scene)

def testAtr (s : List Char) : Option Boolexp :=
  let name := s.takeWhile fun c => c ≠ ':' ∧ c ≠ '/'
  match s.drop name.length with
  | [] => none
  | c :: key =>
    let number := match scene.atrStr name with
      | some number => some number
      | none => if scene.god ∧ name.all Char.isDigit then some (atoi name) else none
    number.map fun number => if c = '/' then .eval number key else .atr number key

def objectRef (buf : List Char) : Option Boolexp :=
  let thing :=
    if scene.internal then
      match buf with
      | '#' :: number => if scene.goodObj (atoi number) then some (atoi number) else none
      | _ => none
    else some (scene.matchResult buf)
  match thing with
  | none => none
  | some thing => if thing = nothing ∨ thing = ambiguous then none else some (.const thing)

def atom (buf : List Char) : Option Boolexp :=
  match testAtr scene buf with
  | some b => some b
  | none => objectRef scene buf

mutual

/-- `parse_boolexp_L`. -/
def parseL (text : List Char) : Option (Boolexp × Rest text) :=
  match token : skipWhitespace text with
  | '(' :: inside =>
    match parseE inside with
    | none => none
    | some (b, rest) =>
      match closing : skipWhitespace rest.1 with
      | ')' :: after =>
        some (b, ⟨after, by
          have := length_lt_of_skip token
          have := length_lt_of_skip closing
          have := rest.2
          omega⟩)
      | _ => none
  | start =>
    match atom scene (stripTrailing (start.takeWhile atomChar)) with
    | none => none
    | some b =>
      some (b, ⟨start.dropWhile atomChar, (List.dropWhile_sublist _).length_le.trans
        (token ▸ skipWhitespace_length_le text)⟩)
termination_by (text.length, 0)
decreasing_by
  have := length_lt_of_skip token
  exact Prod.Lex.left _ _ this

/-- `parse_boolexp_F`. -/
def parseF (text : List Char) : Option (Boolexp × Rest text) :=
  -- `parse_boolexp_L` skips the same white space again
  match token : skipWhitespace text with
  | [] => parseL text
  | c :: after =>
    have shorter := length_lt_of_skip token
    if c = '!' then
      match parseF after with
      | none => none
      | some (b, rest) => some (.not b, rest.of shorter.le)
    else
      match Prefix.ofToken c with
      | some type =>
        match parseL after with
        | none => none
        | some (b, rest) =>
          if type.takes b then some (.unary type b, rest.of shorter.le) else none
      | none => parseL text
termination_by (text.length, 1)
decreasing_by all_goals first
  | exact Prod.Lex.right _ (by decide)
  | exact Prod.Lex.left _ _ shorter

/-- `parse_boolexp_T`. -/
def parseT (text : List Char) : Option (Boolexp × Rest text) :=
  match parseF text with
  | none => none
  | some (b, rest) =>
    match token : skipWhitespace rest.1 with
    | '&' :: after =>
      have shorter := (length_lt_of_skip token).trans_le rest.2
      match parseT after with
      | none => none
      | some (b', rest) => some (.and b b', rest.of shorter.le)
    | after => some (b, ⟨after, token ▸ (skipWhitespace_length_le rest.1).trans rest.2⟩)
termination_by (text.length, 2)
decreasing_by
  · exact Prod.Lex.right _ (by decide)
  · exact Prod.Lex.left _ _ shorter

/-- `parse_boolexp_E`. -/
def parseE (text : List Char) : Option (Boolexp × Rest text) :=
  match parseT text with
  | none => none
  | some (b, rest) =>
    match token : skipWhitespace rest.1 with
    | '|' :: after =>
      have shorter := (length_lt_of_skip token).trans_le rest.2
      match parseE after with
      | none => none
      | some (b', rest) => some (.or b b', rest.of shorter.le)
    | after => some (b, ⟨after, token ▸ (skipWhitespace_length_le rest.1).trans rest.2⟩)
termination_by (text.length, 3)
decreasing_by
  · exact Prod.Lex.right _ (by decide)
  · exact Prod.Lex.left _ _ shorter

end

def parseBoolexp (buf : List Char) : Option Boolexp :=
  if buf = [] then none else (parseE scene buf).map Prod.fst

end Parse

end

open CText (atoi decimal)

def aLenter : Int := 59

def aName : Int := 43

def god : Int := 1

def home : Int := -3

def lbufSize : Nat := 8000

def okAttrName : List Char → Bool
  | [] => false
  | c :: rest => c.isAlpha && (c :: rest).all fun d =>
    d.isAlphanum || d ∈ ['\'', '?', '!', Char.ofNat 96, '/', '-', '_', '.', '@', '#', '$', '^',
      '&', '~', '=', '+', '<', '>', '(', ')', '%']

/-- The names of attributes: those `ok_attr_name` lets through, and in the table `attr`
some with an asterisk in front. -/
def attrName : List Char → Bool
  | '*' :: name => okAttrName name
  | name => okAttrName name

structure Attr where
  number : Int
  name : List Char
  /-- Number 0 ends the table `attr`, and no user attribute gets it. -/
  numbered : number ≠ 0
  named : attrName name = true

structure Game (State : Type) where
  /-- `atr_str`. -/
  atrStr : State → List Char → Option Attr
  /-- `vattr_find` asks `ok_attr_name`, and the table `attr` has no other names. -/
  atrStr_start : ∀ state name attr, atrStr state name = some attr →
    ∃ c ∈ name.head?, c = '*' ∨ c.isAlpha = true
  /-- `atr_num`. -/
  atrNum : State → Int → Option Attr
  /-- `mudstate.db_top`. -/
  dbTop : State → Int
  dbTop_le : ∀ state, dbTop state < 2 ^ 31
  /-- `Typeof(x) < NOTYPE`. -/
  typed : State → Int → Bool
  /-- `match_result`, after `match_everything` for this player and name. -/
  matchResult : State → Int → List Char → Int
  /-- `Contents(x)` and what comes after it. -/
  contents : State → Int → List Int
  /-- `Owner`. -/
  owner : State → Int → Int
  /-- `atr_pget`: the text of an object's attribute. -/
  atrPget : State → Int → Int → List Char
  /-- `atr_get(x, A_LOCK)`. -/
  atrLock : State → Int → List Char
  /-- `See_attr(lockobj, player, attr)`. -/
  seeAttr : State → Int → Int → Attr → Bool
  /-- `Read_attr(source, source, attr)`. -/
  readAttr : State → Int → Attr → Bool
  /-- `string_compare` gives 0. -/
  sameString : List Char → List Char → Bool
  /-- `exec` for this source and player, with so many levels of locks left. -/
  exec : Nat → State → Int → Int → List Char → List Char × State
  /-- What `sub2` of an attribute test points to; nothing sets it. -/
  leftover : List Char

def wildMatch (tstr dstr : List Char) : Bool :=
  let number (s : List Char) : Bool := s.head?.any fun c => c.isDigit || c = '-'
  match tstr with
  | '>' :: s => if number s then atoi s < atoi dstr else s < dstr
  | '<' :: s => if number s then atoi dstr < atoi s else dstr < s
  | _ => Match.quickWild tstr dstr

section Evaluation

variable {State : Type} (game : Game State)

def Game.goodObj (state : State) (thing : Int) : Bool :=
  0 ≤ thing ∧ thing < game.dbTop state ∧ game.typed state thing

/-- What the parser sees when `player` parses a lock. -/
def Game.scene (state : State) (player : Int) (internal : Bool) : Scene where
  atrStr name := (game.atrStr state name).map Attr.number
  god := player = god
  internal := internal
  goodObj := game.goodObj state
  matchResult := game.matchResult state player

def checkAttr (state : State) (player lockobj : Int) (attr : Attr) (key : List Char) : Bool :=
  (attr.number = aLenter || game.seeAttr state lockobj player attr || attr.number = aName) &&
    wildMatch key (game.atrPget state player attr.number)

/-- The case BOOLEXP_EVAL of `eval_boolexp`. -/
def evalAttr (level : Nat) (player thing from' : Int) (attr : Attr) (key : List Char)
    (state : State) : Bool × State :=
  let source := if game.atrPget state from' attr.number = [] then thing else from'
  if attr.number = aName ∨ attr.number = aLenter ∨ game.readAttr state source attr then
    let (buff2, state) :=
      game.exec level state source player (game.atrPget state source attr.number)
    (game.sameString buff2 key, state)
  else (false, state)

/-- `eval_boolexp`, given what it does for the lock of another object.  The parser makes
no other arguments of `@`, `=`, `+` and `$` than the ones that are read here. -/
def evalWith (level : Nat) (indirect : Int → State → Bool × State) (player thing from' : Int) :
    Boolexp → State → Bool × State
  | .and sub1 sub2, state =>
    let (first, state) := evalWith level indirect player thing from' sub1 state
    if first then evalWith level indirect player thing from' sub2 state else (false, state)
  | .or sub1 sub2, state =>
    let (first, state) := evalWith level indirect player thing from' sub1 state
    if first then (true, state) else evalWith level indirect player thing from' sub2 state
  | .not sub1, state =>
    let (passed, state) := evalWith level indirect player thing from' sub1 state
    (!passed, state)
  | .const number, state => (number = player ∨ number ∈ game.contents state player, state)
  | .atr number key, state =>
    match game.atrNum state number with
    | none => (false, state)
    | some attr =>
      ((player :: game.contents state player).any (checkAttr game state · from' attr key), state)
  | .eval number key, state =>
    match game.atrNum state number with
    | none => (false, state)
    | some attr => evalAttr game level player thing from' attr key state
  | .unary .indir (.const number), state =>
    if number < 0 then (false, state) else indirect number state
  | .unary .is (.const number), state => (number = player, state)
  | .unary .is (.atr number key), state =>
    match game.atrNum state number with
    | none => (false, state)
    | some attr => (checkAttr game state player from' attr key, state)
  | .unary .carry (.const number), state => (number ∈ game.contents state player, state)
  | .unary .carry (.atr number key), state =>
    match game.atrNum state number with
    | none => (false, state)
    | some attr => ((game.contents state player).any (checkAttr game state · from' attr key), state)
  | .unary .owner (.const number), state =>
    (game.owner state number = game.owner state player, state)
  | .unary _ _, state => (false, state)

/-- `eval_boolexp`, when `lock_nest_lev` can still be raised so many times. -/
def evalBoolexp : Nat → Int → Int → Int → Boolexp → State → Bool × State
  | 0, player, thing, from' => evalWith game 0 (fun _ state => (false, state)) player thing from'
  | level + 1, player, thing, from' =>
    let indirect (number : Int) (state : State) : Bool × State :=
      match parseBoolexp (game.scene state player true) (game.atrLock state number) with
      | none => (true, state)
      | some b => evalBoolexp level player number from' b state
    evalWith game (level + 1) indirect player thing from'

def evalBoolexpAtr (level : Nat) (player thing from' : Int) (key : List Char) (state : State) :
    Bool × State :=
  match parseBoolexp (game.scene state player true) key with
  | none => (true, state)
  | some b => evalBoolexp game level player thing from' b state

end Evaluation

section Printing

inductive BoolexpType
  | and
  | or
  | indir
  | const
  | atr
  | not
  | eval
  | is
  | carry
  | owner
deriving DecidableEq, Repr

/-- BOOLEXP_INDIR, BOOLEXP_IS, BOOLEXP_CARRY and BOOLEXP_OWNER. -/
def Prefix.type : Prefix → BoolexpType
  | indir => .indir
  | is => .is
  | carry => .carry
  | owner => .owner

variable {State : Type} (game : Game State)

def unparseObjectQuiet (loc : Int) : List Char :=
  if loc = nothing then ['-', '1']
  else if loc = home then ['-', '3']
  else '(' :: '#' :: (decimal loc ++ [')'])

/-- What stands for the attribute of a test: its name, or its number. -/
def unparseAttr (state : State) (number : Int) : List Char :=
  match game.atrNum state number with
  | some attr => attr.name
  | none => if 0 < number then decimal number else game.leftover

def inParens (needed : Bool) (text : List Char) : List Char :=
  if needed then '(' :: (text ++ [')']) else text

/-- `unparse_boolexp1`, for the format F_QUIET. -/
def unparseBoolexp1 (state : State) : BoolexpType → Boolexp → List Char
  | outer, .and sub1 sub2 =>
    inParens (outer = .not)
      (unparseBoolexp1 state .and sub1 ++ '&' :: unparseBoolexp1 state .and sub2)
  | outer, .or sub1 sub2 =>
    inParens (outer = .not ∨ outer = .and)
      (unparseBoolexp1 state .or sub1 ++ '|' :: unparseBoolexp1 state .or sub2)
  | _, .not sub1 => '!' :: unparseBoolexp1 state .not sub1
  | _, .unary type sub1 => type.token :: unparseBoolexp1 state type.type sub1
  | _, .const thing => unparseObjectQuiet thing
  | _, .atr number key => unparseAttr game state number ++ ':' :: key
  | _, .eval number key => unparseAttr game state number ++ '/' :: key

/-- `unparse_boolexp_quiet`.  Once the buffer is full, nothing more is written into it. -/
def unparseBoolexpQuiet (state : State) (b : Boolexp) : List Char :=
  (unparseBoolexp1 game state .const b).take (lbufSize - 1)

end Printing

end BattletechMux.Lock
