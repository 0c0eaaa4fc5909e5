/-
Module: BattletechMux.Players.Registry
Purpose: The table of player names and its texts, from player.c, object.c, set.c, stringutil.c and
  predicates.c.
Trusted boundary: texts hold no NUL and fit their buffers; isspace, isprint, isalpha and isalnum are
  those of ASCII; the hash table is the map it stands for; matching, permissions, fees and passwords
  are given with each command; other attributes, flags and places of objects are left out
-/
import BattletechMux.Foundation.CText
import BattletechMux.Hash.Refinement
import BattletechMux.Match.Wild

namespace BattletechMux.Players

section

open CText (isSpace)

abbrev Text := List Char

def fold (name : Text) : Text := name.map Char.toLower

/-- The loop of `trim_spaces`: the last space before a word is kept. -/
def trimFrom : Text → Text
  | [] => []
  | c :: rest =>
    if isSpace c then
      match rest.head? with
      | none => []
      | some next => if isSpace next then trimFrom rest else ' ' :: trimFrom rest
    else c :: trimFrom rest

def trimSpaces (string : Text) : Text := trimFrom (string.dropWhile isSpace)

/-- `munge_space` writes the same loop another way. -/
def mungeSpace (string : Text) : Text := trimSpaces string

/-- Where the comparison of `string_compare` stops, with spaces compressed. -/
def compareFrom : Nat → Text → Text → Text × Text
  | n + 1, c1 :: s1, c2 :: s2 =>
    if isSpace c1 ∧ isSpace c2 then
      compareFrom n (s1.dropWhile isSpace) (s2.dropWhile isSpace)
    else if c1.toLower = c2.toLower then compareFrom n s1 s2
    else (c1 :: s1, c2 :: s2)
  | _, s1, s2 => (s1, s2)

def comparePlain : Text → Text → Text × Text
  | c1 :: s1, c2 :: s2 =>
    if c1.toLower = c2.toLower then comparePlain s1 s2 else (c1 :: s1, c2 :: s2)
  | s1, s2 => (s1, s2)

def charAt (s : Text) : Char := s.headD '\x00'

def stringCompare (spaceCompress : Bool) (s1 s2 : Text) : Int :=
  if spaceCompress = false then
    let (s1, s2) := comparePlain s1 s2
    (charAt s1).toLower.toNat - (charAt s2).toLower.toNat
  else
    let s1 := s1.dropWhile isSpace
    let s2 := s2.dropWhile isSpace
    let (s1, s2) := compareFrom (s1.length + 1) s1 s2
    if s1 ≠ [] ∧ s2 ≠ [] then 1
    else if isSpace (charAt s1) then (charAt (s1.dropWhile isSpace)).toNat
    else if isSpace (charAt s2) then (charAt (s2.dropWhile isSpace)).toNat
    else if s1 ≠ [] ∨ s2 ≠ [] then 1
    else 0

/-- `strip_ansi`; `code` tells whether an escape sequence is being skipped. -/
def stripAnsi (code : Bool) : Text → Text
  | [] => []
  | c :: rest =>
    if code then stripAnsi (!c.isAlpha) rest
    else if c = '\x1b' then stripAnsi true rest
    else c :: stripAnsi false rest

def isPrint (c : Char) : Bool := 32 ≤ c.toNat && c.toNat < 127

/-- LOOKUP_TOKEN, NUMBER_TOKEN and NOT_TOKEN, and ARG_DELIMITER, AND_TOKEN and OR_TOKEN. -/
def firstTokens : Text := ['*', '#', '!']
def innerTokens : Text := ['=', '&', '|']

def okName (spaceCompress : Bool) (name : Text) : Bool :=
  stripAnsi false name ≠ [] && !isSpace (charAt name) &&
    name.all (fun c => isPrint c || c == '\x1b') && !isSpace (name.getLastD '\x00') &&
    name ≠ [] && !firstTokens.contains (charAt name) &&
    innerTokens.all (fun token => !name.contains token) &&
    stringCompare spaceCompress name "me".toList ≠ 0 &&
    stringCompare spaceCompress name "home".toList ≠ 0 &&
    stringCompare spaceCompress name "here".toList ≠ 0

def playerNameLimit : Nat := 22

def goodChars (nameSpaces : Bool) : Text :=
  if nameSpaces then " `$_-.,'".toList else "`$_-.,'".toList

def okPlayerName (spaceCompress nameSpaces : Bool) (name : Text) : Bool :=
  !isSpace (charAt name) && okName spaceCompress name && decide (name.length < playerNameLimit) &&
    name.all fun c => c.isAlphanum || (goodChars nameSpaces).contains c && c ≠ '\x1b'

/-! ## Tidy names -/

inductive Tidy : Text → Prop where
  | single {c : Char} (plain : isSpace c = false) : Tidy [c]
  | cons {c : Char} {rest : Text} (plain : isSpace c = false) (later : Tidy rest) :
      Tidy (c :: rest)
  | space {c : Char} {rest : Text} (plain : isSpace c = false) (later : Tidy rest) :
      Tidy (c :: ' ' :: rest)

variable {s : Text} {c : Char}

theorem Tidy.head (tidy : Tidy (c :: s)) : isSpace c = false := by
  cases tidy <;> assumption

theorem Tidy.ne_nil (tidy : Tidy s) : s ≠ [] := by
  cases tidy <;> exact List.cons_ne_nil _ _

theorem Tidy.dropWhile (tidy : Tidy s) : s.dropWhile isSpace = s := by
  cases s with
  | nil => rfl
  | cons c rest => exact List.dropWhile_cons_of_neg (by simp [tidy.head])

theorem Tidy.tail {c d : Char} (tidy : Tidy (c :: d :: s)) (plain : isSpace d = false) :
    Tidy (d :: s) := by
  cases tidy with
  | cons _ later => exact later
  | space _ _ => exact absurd plain (by decide)

theorem trimFrom_tidy (s : Text) : ∀ c, isSpace c = false → Tidy (c :: trimFrom s) := by
  induction s with
  | nil => exact fun c plain => .single plain
  | cons d rest ih =>
    intro c plain
    unfold trimFrom
    by_cases space : isSpace d = true
    · rw [if_pos space]
      cases rest with
      | nil => exact .single plain
      | cons next later =>
        dsimp only [List.head?_cons]
        by_cases more : isSpace next = true
        · rw [if_pos more]
          exact ih c plain
        · rw [if_neg more]
          unfold trimFrom
          rw [if_neg more]
          have word := ih c plain
          unfold trimFrom at word
          rw [if_neg more] at word
          exact .space plain (word.tail (by simpa using more))
    · rw [if_neg space]
      exact .cons plain (ih d (by simpa using space))

theorem trimSpaces_tidy (s : Text) (some : trimSpaces s ≠ []) : Tidy (trimSpaces s) := by
  unfold trimSpaces at some ⊢
  cases words : s.dropWhile isSpace with
  | nil => exact absurd (by rw [words]; rfl) some
  | cons c rest =>
    have plain : isSpace c = false := by
      have first := List.head?_dropWhile_not isSpace s
      rw [words] at first
      simpa using first
    unfold trimFrom
    rw [if_neg (by simp [plain])]
    exact trimFrom_tidy rest c plain

/-! ## Comparing -/

theorem toLower_toNat (c : Char) :
    c.toLower.toNat = if 65 ≤ c.toNat ∧ c.toNat ≤ 90 then c.toNat + 32 else c.toNat := by
  unfold Char.toLower
  by_cases upper : c.val ≥ 'A'.val ∧ c.val ≤ 'Z'.val
  · have bounds : 65 ≤ c.toNat ∧ c.toNat ≤ 90 :=
      ⟨UInt32.le_iff_toNat_le.mp upper.1, UInt32.le_iff_toNat_le.mp upper.2⟩
    rw [dif_pos upper, if_pos bounds]
    change (c.val + 32).toNat = _
    rw [UInt32.toNat_add]
    refine Nat.mod_eq_of_lt ?_
    have most := bounds.2
    change c.toNat + 32 < _
    omega
  · have bounds : ¬(65 ≤ c.toNat ∧ c.toNat ≤ 90) := fun both =>
      upper ⟨UInt32.le_iff_toNat_le.mpr both.1, UInt32.le_iff_toNat_le.mpr both.2⟩
    rw [dif_neg upper, if_neg bounds]

theorem isSpace_iff (c : Char) :
    isSpace c = true ↔ c.toNat = 32 ∨ 9 ≤ c.toNat ∧ c.toNat ≤ 13 := by
  unfold isSpace
  rw [decide_eq_true_iff, ← Char.toNat_inj]
  exact Iff.rfl

theorem isSpace_toLower {c d : Char} (eq : c.toLower = d.toLower) : isSpace c = isSpace d := by
  have codes := congrArg Char.toNat eq
  rw [toLower_toNat, toLower_toNat] at codes
  rw [Bool.eq_iff_iff, isSpace_iff, isSpace_iff]
  split at codes <;> split at codes <;> omega

def Whole (s : Text) : Prop := ∀ c ∈ s, c ≠ '\x00'

theorem toLower_eq_nul (nul : c.toLower = '\x00') : c = '\x00' := by
  have codes := congrArg Char.toNat nul
  rw [toLower_toNat] at codes
  rw [← Char.toNat_inj]
  change c.toNat = 0
  change _ = 0 at codes
  split at codes <;> omega

theorem comparePlain_iff {s1 s2 : Text} (whole1 : Whole s1) (whole2 : Whole s2) :
    (charAt (comparePlain s1 s2).1).toLower = (charAt (comparePlain s1 s2).2).toLower ↔
      fold s1 = fold s2 := by
  induction s1 generalizing s2 with
  | nil =>
    cases s2 with
    | nil => exact ⟨fun _ => rfl, fun _ => rfl⟩
    | cons c2 s2 =>
      refine ⟨fun nul => ?_, fun eq => absurd eq (by simp [fold])⟩
      exact absurd (toLower_eq_nul nul.symm) (whole2 c2 List.mem_cons_self)
  | cons c1 s1 ih =>
    cases s2 with
    | nil =>
      refine ⟨fun nul => ?_, fun eq => absurd eq (by simp [fold])⟩
      exact absurd (toLower_eq_nul nul) (whole1 c1 List.mem_cons_self)
    | cons c2 s2 =>
      unfold comparePlain
      by_cases eq : c1.toLower = c2.toLower
      · rw [if_pos eq]
        have rest := ih (fun c mem => whole1 c (List.mem_cons_of_mem _ mem))
          (fun c mem => whole2 c (List.mem_cons_of_mem _ mem))
        refine rest.trans ⟨fun folded => ?_, fun folded => (List.cons.inj folded).2⟩
        exact List.cons_eq_cons.mpr ⟨eq, folded⟩
      · rw [if_neg eq]
        exact ⟨fun first => absurd first eq, fun folded => (List.cons.inj folded).1⟩

inductive Rest : Text → Prop where
  | done : Rest []
  | word {s : Text} (tidy : Tidy s) : Rest s
  | space {s : Text} (tidy : Tidy s) : Rest (' ' :: s)

theorem Tidy.rest (tidy : Tidy (c :: s)) : Rest s := by
  cases tidy with
  | single _ => exact .done
  | cons _ later => exact .word later
  | space _ later => exact .space later

theorem Rest.after_space (rest : Rest (c :: s)) (space : isSpace c = true) : c = ' ' ∧ Tidy s := by
  cases rest with
  | word tidy => exact absurd (space.symm.trans tidy.head) (by simp)
  | space tidy => exact ⟨rfl, tidy⟩

theorem Rest.after_letter (rest : Rest (c :: s)) (plain : isSpace c = false) : Rest s := by
  cases rest with
  | word tidy => exact tidy.rest
  | space _ => exact absurd plain (by decide)

theorem compareFrom_spec {n : Nat} {s1 s2 : Text} (rest1 : Rest s1) (rest2 : Rest s2)
    (whole1 : Whole s1) (whole2 : Whole s2) (enough : s1.length < n) :
    (compareFrom n s1 s2 = ([], []) ∧ fold s1 = fold s2) ∨
      ∃ t1 t2, compareFrom n s1 s2 = (t1, t2) ∧ fold s1 ≠ fold s2 ∧ (t1 ≠ [] ∨ t2 ≠ []) ∧
        (Rest t1 ∧ Whole t1) ∧ Rest t2 ∧ Whole t2 := by
  induction n generalizing s1 s2 with
  | zero => exact absurd enough (Nat.not_lt_zero _)
  | succ n ih =>
    cases s1 with
    | nil =>
      cases s2 with
      | nil => exact .inl ⟨rfl, rfl⟩
      | cons c2 s2 =>
        exact .inr ⟨[], c2 :: s2, rfl, by simp [fold], .inr (List.cons_ne_nil _ _),
          ⟨rest1, whole1⟩, rest2, whole2⟩
    | cons c1 s1 =>
      cases s2 with
      | nil =>
        exact .inr ⟨c1 :: s1, [], rfl, by simp [fold], .inl (List.cons_ne_nil _ _),
          ⟨rest1, whole1⟩, rest2, whole2⟩
      | cons c2 s2 =>
        have later1 : Whole s1 := fun c mem => whole1 c (List.mem_cons_of_mem _ mem)
        have later2 : Whole s2 := fun c mem => whole2 c (List.mem_cons_of_mem _ mem)
        have fewer : s1.length < n := Nat.lt_of_succ_lt_succ enough
        -- One step in both, when the letters are the same.
        have on (eq : c1.toLower = c2.toLower) (next1 : Rest s1) (next2 : Rest s2) :
            (compareFrom n s1 s2 = ([], []) ∧ fold (c1 :: s1) = fold (c2 :: s2)) ∨
              ∃ t1 t2, compareFrom n s1 s2 = (t1, t2) ∧
                fold (c1 :: s1) ≠ fold (c2 :: s2) ∧ (t1 ≠ [] ∨ t2 ≠ []) ∧
                  (Rest t1 ∧ Whole t1) ∧ Rest t2 ∧ Whole t2 := by
          rcases ih next1 next2 later1 later2 fewer with
            ⟨ended, folded⟩ | ⟨t1, t2, stopped, folded, some, rests⟩
          · exact .inl ⟨ended, List.cons_eq_cons.mpr ⟨eq, folded⟩⟩
          · exact .inr ⟨t1, t2, stopped, fun both => folded (List.cons.inj both).2, some,
              rests⟩
        unfold compareFrom
        by_cases spaces : isSpace c1 = true ∧ isSpace c2 = true
        · obtain ⟨blank1, tidy1⟩ := rest1.after_space spaces.1
          obtain ⟨blank2, tidy2⟩ := rest2.after_space spaces.2
          rw [if_pos spaces, tidy1.dropWhile, tidy2.dropWhile]
          exact on (by rw [blank1, blank2]) (.word tidy1) (.word tidy2)
        · rw [if_neg spaces]
          by_cases eq : c1.toLower = c2.toLower
          · rw [if_pos eq]
            have letters : isSpace c1 = isSpace c2 := isSpace_toLower eq
            have plain1 : isSpace c1 = false := by
              cases space : isSpace c1 with
              | false => rfl
              | true => exact absurd ⟨space, letters.symm.trans space⟩ spaces
            exact on eq (rest1.after_letter plain1)
              (rest2.after_letter (letters.symm.trans plain1))
          · rw [if_neg eq]
            exact .inr ⟨_, _, rfl, fun folded => eq (List.cons.inj folded).1,
              .inl (List.cons_ne_nil _ _), ⟨rest1, whole1⟩, rest2, whole2⟩

theorem Rest.charAt_ne (rest : Rest s) (whole : Whole s) (some : s ≠ []) :
    isSpace (charAt s) = true → (charAt (s.dropWhile isSpace)).toNat ≠ 0 := by
  intro space
  cases s with
  | nil => exact absurd rfl some
  | cons c later =>
    obtain ⟨rfl, tidy⟩ := rest.after_space space
    rw [List.dropWhile_cons_of_pos (by decide), tidy.dropWhile]
    cases later with
    | nil => exact absurd rfl tidy.ne_nil
    | cons d last =>
      intro nul
      exact whole d (by simp) (Char.toNat_inj.mp nul)

theorem stringCompare_eq_zero (spaceCompress : Bool) {s1 s2 : Text} (tidy1 : Tidy s1)
    (tidy2 : Tidy s2) (whole1 : Whole s1) (whole2 : Whole s2) :
    stringCompare spaceCompress s1 s2 = 0 ↔ fold s1 = fold s2 := by
  unfold stringCompare
  cases spaceCompress with
  | false =>
    rw [if_pos rfl, ← comparePlain_iff whole1 whole2, ← Char.toNat_inj]
    dsimp only
    omega
  | true =>
    rw [if_neg (by simp), tidy1.dropWhile, tidy2.dropWhile]
    dsimp only
    rcases compareFrom_spec (n := s1.length + 1) (.word tidy1) (.word tidy2) whole1 whole2
        (Nat.lt_succ_self _) with
      ⟨ended, folded⟩ | ⟨t1, t2, stopped, folded, some, ⟨rest1, left1⟩, rest2, left2⟩
    · rw [ended]
      simp [folded, charAt]
    · rw [stopped]
      dsimp only
      refine iff_of_false ?_ folded
      split
      · decide
      split
      · next blank =>
        have left : t1 ≠ [] := by
          rintro rfl
          exact absurd blank (by decide)
        exact fun nul => rest1.charAt_ne left1 left blank (Int.ofNat.inj nul)
      split
      · next blank =>
        have left : t2 ≠ [] := by
          rintro rfl
          exact absurd blank (by decide)
        exact fun nul => rest2.charAt_ne left2 left blank (Int.ofNat.inj nul)
      decide

/-! ## Names of players -/

structure Proper (spaceCompress : Bool) (name : Text) : Prop where
  tidy : Tidy name
  whole : Whole name
  notNumber : charAt name ≠ '#'
  notMe : stringCompare spaceCompress name "me".toList ≠ 0

theorem okPlayerName_whole {spaceCompress nameSpaces : Bool} {name : Text}
    (ok : okPlayerName spaceCompress nameSpaces name = true) : Whole name := by
  unfold okPlayerName at ok
  have all := (Bool.and_eq_true_iff.mp ok).2
  rintro c mem rfl
  have good := List.all_eq_true.mp all _ mem
  cases nameSpaces <;> exact absurd good (by decide)

theorem okPlayerName_proper {spaceCompress nameSpaces : Bool} {string : Text}
    (ok : okPlayerName spaceCompress nameSpaces (trimSpaces string) = true) :
    Proper spaceCompress (trimSpaces string) := by
  have whole := okPlayerName_whole ok
  unfold okPlayerName okName at ok
  simp only [Bool.and_eq_true, Bool.not_eq_true', decide_eq_true_eq, ne_eq] at ok
  obtain ⟨⟨⟨-, ⟨⟨⟨⟨⟨⟨_, some⟩, first⟩, _⟩, me⟩, _⟩, _⟩⟩, _⟩, _⟩ := ok
  refine ⟨trimSpaces_tidy string some, whole, ?_, me⟩
  intro number
  rw [number] at first
  exact absurd first (by decide)

end

open CText (isSpace atoi)
open Function (update)
open Hash (Contents)

abbrev Dbref := Int

def nothing : Dbref := -1
def ambiguous : Dbref := -2
def god : Dbref := 1

/-- `mudconf` and the list of bad names. -/
structure Conf where
  spaceCompress : Bool
  nameSpaces : Bool
  parentNestLim : Nat
  badnames : List Text

structure Db where
  dbTop : Nat
  /-- TYPE_PLAYER. -/
  isPlayer : Dbref → Bool
  /-- A_NAME. -/
  name : Dbref → Text
  /-- A_ALIAS; empty when there is none. -/
  aliasOf : Dbref → Text
  /-- AF_PRIVATE of the alias. -/
  aliasPrivate : Dbref → Bool
  parent : Dbref → Dbref
  playerHtab : Contents Text Dbref

def Db.goodObj (db : Db) (x : Dbref) : Bool := decide (0 ≤ x ∧ x < db.dbTop)

def mbufSize : Nat := 400

/-- `s_Name`. -/
def Db.setName (db : Db) (thing : Dbref) (s : Text) : Db :=
  { db with name := update db.name thing (s.take mbufSize) }

/-- `atr_add` of A_ALIAS, and `atr_clr`. -/
def Db.setAlias (db : Db) (thing : Dbref) (newAlias : Text) (aflags : Bool) : Db :=
  { db with
    aliasOf := update db.aliasOf thing newAlias
    aliasPrivate := update db.aliasPrivate thing aflags }
def Db.clearAlias (db : Db) (thing : Dbref) : Db :=
  { db with aliasOf := update db.aliasOf thing [] }

def addPlayerName (db : Db) (player : Dbref) (name : Text) : Bool × Db :=
  let temp := fold name
  match db.playerHtab temp with
  | some p =>
    if p = ambiguous then (false, db)
    else if db.goodObj p && db.isPlayer p then (p == player, db)
    else (true, { db with playerHtab := update db.playerHtab temp (some player) })
  | none => (true, { db with playerHtab := update db.playerHtab temp (some player) })

def deletePlayerName (db : Db) (player : Dbref) (name : Text) : Bool × Db :=
  let temp := fold name
  match db.playerHtab temp with
  | some p =>
    if p = nothing ∨ player ≠ nothing ∧ p ≠ player then (false, db)
    else (true, { db with playerHtab := update db.playerHtab temp none })
  | none => (false, db)

def isNumber (str : Text) : Bool :=
  let str := str.dropWhile isSpace
  let justMinus := str = ['-']
  let str := if charAt str = '-' then str.tail else str
  let gotOne := (charAt str).isDigit
  let str := str.dropWhile Char.isDigit
  let str := if charAt str = '.' then str.tail else str
  let gotOne := gotOne || (charAt str).isDigit
  let str := (str.dropWhile Char.isDigit).dropWhile isSpace
  !justMinus && str = [] && gotOne

/-- `lookup_player` without `check_who`. -/
def lookupPlayer (conf : Conf) (db : Db) (doer : Dbref) (name : Text) : Dbref :=
  if stringCompare conf.spaceCompress name "me".toList = 0 then doer
  else if charAt name = '#' then
    let name := name.tail
    if isNumber name = false then nothing
    else
      let thing := atoi name
      if db.goodObj thing = false then nothing
      else if db.isPlayer thing || doer == god then thing else nothing
  else
    match db.playerHtab (fold name) with
    | none => nothing
    | some p => if db.goodObj p then p else nothing

def badnameCheck (conf : Conf) (name : Text) : Bool :=
  conf.badnames.all fun bad => !Match.quickWild bad name

/-- The loop of `atr_pget_str` for A_ALIAS, with the levels that are left; `first` marks the thing
itself.  It returns the alias, and whether it is private. -/
def pgetFrom (db : Db) (first : Bool) : Nat → Dbref → Text × Bool
  | 0, _ => ([], false)
  | lev + 1, parent =>
    if db.goodObj parent = false then ([], false)
    else if db.aliasOf parent ≠ [] ∧ (first || !db.aliasPrivate parent) then
      (db.aliasOf parent, db.aliasPrivate parent)
    else pgetFrom db false lev (db.parent parent)

def atrPget (conf : Conf) (db : Db) (thing : Dbref) : Text × Bool :=
  pgetFrom db true conf.parentNestLim thing

/-- The object that the freelist or the end of the database gives: no player. -/
def Db.isFree (db : Db) (obj : Dbref) : Bool :=
  obj == db.dbTop || (db.goodObj obj && !db.isPlayer obj)

def Db.newPlayer (db : Db) (obj : Dbref) : Db :=
  { db with
    dbTop := if obj = db.dbTop then db.dbTop + 1 else db.dbTop
    isPlayer := update db.isPlayer obj true
    aliasOf := update db.aliasOf obj []
    parent := update db.parent obj nothing }

/-- `create_player` with `create_obj`.  `allowed` tells whether the password will do and whether
the creator can pay. -/
def createPlayer (conf : Conf) (db : Db) (obj : Dbref) (name : Text) (allowed : Bool) : Db :=
  let buff := mungeSpace name
  if badnameCheck conf buff = false then db
  else if buff ≠ [] ∧ okPlayerName conf.spaceCompress conf.nameSpaces buff = false then db
  else if buff ≠ [] ∧ lookupPlayer conf db nothing buff ≠ nothing then db
  else if allowed = false then db
  else
    let db := (db.newPlayer obj).setName obj buff
    (addPlayerName db obj (db.name obj)).2

def doName (conf : Conf) (db : Db) (thing : Dbref) (newname : Text) : Db :=
  if newname = [] ∨ stripAnsi false newname = [] then db
  else if db.isPlayer thing then
    let buff := trimSpaces newname
    if okPlayerName conf.spaceCompress conf.nameSpaces buff = false ∨
        badnameCheck conf buff = false then db
    else if stringCompare conf.spaceCompress buff (db.name thing) ≠ 0 ∧
        lookupPlayer conf db nothing buff ≠ nothing then db
    else
      let db := (deletePlayerName db thing (db.name thing)).2
      let db := db.setName thing buff
      (addPlayerName db thing (db.name thing)).2
  else if okName conf.spaceCompress newname = false then db
  else db.setName thing newname

/-- Whether `do_alias` goes as far as to take the old alias from the table. -/
def aliasChanges (conf : Conf) (db : Db) (trimalias : Text) : Bool :=
  trimalias = [] ||
    lookupPlayer conf db nothing trimalias = nothing && badnameCheck conf trimalias &&
      okPlayerName conf.spaceCompress conf.nameSpaces trimalias

/-- `do_alias`.  `allowed` tells whether the doer controls the player, or may set the attribute. -/
def doAlias (conf : Conf) (db : Db) (thing : Dbref) (newAlias : Text) (allowed : Bool) : Db :=
  let (oldalias, aflags) := atrPget conf db thing
  if allowed = false then db
  else if db.isPlayer thing then
    let trimalias := trimSpaces newAlias
    if aliasChanges conf db trimalias = false then db
    else
      let db := (deletePlayerName db thing oldalias).2
      if trimalias = [] then db.clearAlias thing
      else
        let db := db.setAlias thing trimalias aflags
        let (added, db) := addPlayerName db thing trimalias
        if added then db else db.clearAlias thing
  else db.setAlias thing newAlias aflags

/-- `destroy_player` with `destroy_obj`. -/
def destroyPlayer (conf : Conf) (db : Db) (victim : Dbref) : Db :=
  let db := (deletePlayerName db victim (db.name victim)).2
  let db := (deletePlayerName db victim (atrPget conf db victim).1).2
  { db with
    isPlayer := update db.isPlayer victim false
    name := update db.name victim []
    aliasOf := update db.aliasOf victim []
    parent := update db.parent victim nothing }

def Db.objects (db : Db) : List Dbref := (List.range db.dbTop).map Int.ofNat

/-- The bodies of the loops of `load_player_names`. -/
def loadName (db : Db) (i : Dbref) : Db :=
  if db.isPlayer i then (addPlayerName db i (db.name i)).2 else db
def loadAlias (conf : Conf) (db : Db) (i : Dbref) : Db :=
  if db.isPlayer i then
    let inherited := (atrPget conf db i).1
    if inherited ≠ [] then (addPlayerName db i inherited).2 else db
  else db

def loadPlayerNames (conf : Conf) (db : Db) : Db :=
  let db := db.objects.foldl loadName db
  db.objects.foldl (loadAlias conf) db

inductive NameOp
  | create (obj : Dbref) (name : Text) (allowed : Bool)
  | name (thing : Dbref) (newname : Text)
  | setAlias (thing : Dbref) (newAlias : Text) (allowed : Bool)
  | destroy (victim : Dbref)
  | reload

/-- One command.  Matching finds objects of the database, and `purge_going` destroys players with
`destroy_player` only. -/
def Db.step (conf : Conf) (db : Db) : NameOp → Db
  | .create obj name allowed =>
    if db.isFree obj then createPlayer conf db obj name allowed else db
  | .name thing newname => if db.goodObj thing then doName conf db thing newname else db
  | .setAlias thing newAlias allowed =>
    if db.goodObj thing then doAlias conf db thing newAlias allowed else db
  | .destroy victim =>
    if db.goodObj victim && db.isPlayer victim then destroyPlayer conf db victim else db
  | .reload => loadPlayerNames conf { db with playerHtab := fun _ => none }

end BattletechMux.Players
