/-
Module: BattletechMux.Match.Wild
Purpose: The wildcard matchers of wild.c: quick_wild decides the language of the pattern; wild and
  wild1 remember what the wildcards stood for.
-/
import BattletechMux.Foundation.Glob

namespace BattletechMux.Match

section

open Glob

def equal (a b : Char) : Bool := a == b || a.toLower == b.toLower

/-- A literal character of the pattern against the next one of the data. -/
def literal (c : Char) (rest : List Char → Bool) : List Char → Bool
  | [] => false
  | d :: dstr => equal d c && rest dstr

/-- The last loop of `quick_wild`: each place where the character stands is tried. -/
def scan (c : Char) (rest : List Char → Bool) : List Char → Bool
  | [] => false
  | d :: dstr => (equal d c && rest dstr) || scan c rest dstr

mutual

def quickWild : List Char → List Char → Bool
  | [], dstr => dstr.isEmpty
  | t :: tstr, dstr =>
    if t = '*' then skipWild tstr dstr
    else if t = '?' then
      match dstr with
      | [] => false
      | _ :: dstr => quickWild tstr dstr
    else if t = '\\' then
      match tstr with
      | [] => dstr.isEmpty
      | c :: tstr => literal c (quickWild tstr) dstr
    else literal t (quickWild tstr) dstr

/-- `quick_wild` once it has skipped a `*`. -/
def skipWild : List Char → List Char → Bool
  | [], _ => true
  | t :: tstr, dstr =>
    if t = '?' then
      match dstr with
      | [] => false
      | _ :: dstr => skipWild tstr dstr
    else if t = '*' then skipWild tstr dstr
    else if t = '\\' then
      match tstr with
      | [] => true
      | c :: tstr => scan c (quickWild tstr) dstr
    else scan t (quickWild tstr) dstr

end

/-- The items of a pattern.  A backslash at the end stands for nothing. -/
def items : List Char → List (Item Char)
  | [] => []
  | t :: tstr =>
    if t = '*' then .star :: items tstr
    else if t = '?' then .any :: items tstr
    else if t = '\\' then
      match tstr with
      | [] => []
      | c :: tstr => .literal c :: items tstr
    else .literal t :: items tstr

section Shapes

variable (tstr : List Char)

@[simp] theorem items_nil : items [] = [] := rfl

@[simp] theorem items_star : items ('*' :: tstr) = .star :: items tstr := by
  cases tstr <;> rfl

@[simp] theorem items_any : items ('?' :: tstr) = .any :: items tstr := by
  cases tstr <;> rfl

@[simp] theorem items_backslash : items ['\\'] = [] := rfl

@[simp] theorem items_escaped (c : Char) :
    items ('\\' :: c :: tstr) = .literal c :: items tstr := rfl

theorem items_letter {c : Char} (notStar : c ≠ '*') (notAny : c ≠ '?')
    (notEscape : c ≠ '\\') : items (c :: tstr) = .literal c :: items tstr := by
  cases tstr <;> simp [items, notStar, notAny, notEscape]

variable (dstr : List Char)

@[simp] theorem quickWild_nil : quickWild [] dstr = dstr.isEmpty := rfl

@[simp] theorem quickWild_star : quickWild ('*' :: tstr) dstr = skipWild tstr dstr := by
  cases tstr <;> rfl

@[simp] theorem quickWild_any_nil : quickWild ('?' :: tstr) [] = false := by
  cases tstr <;> rfl

@[simp] theorem quickWild_any (d : Char) :
    quickWild ('?' :: tstr) (d :: dstr) = quickWild tstr dstr := by
  cases tstr <;> rfl

@[simp] theorem quickWild_backslash : quickWild ['\\'] dstr = dstr.isEmpty := rfl

@[simp] theorem quickWild_escaped (c : Char) :
    quickWild ('\\' :: c :: tstr) dstr = literal c (quickWild tstr) dstr := rfl

theorem quickWild_letter {c : Char} (notStar : c ≠ '*') (notAny : c ≠ '?')
    (notEscape : c ≠ '\\') : quickWild (c :: tstr) dstr = literal c (quickWild tstr) dstr := by
  cases tstr <;> exact (if_neg notStar).trans ((if_neg notAny).trans (if_neg notEscape))

@[simp] theorem skipWild_nil : skipWild [] dstr = true := rfl

@[simp] theorem skipWild_star : skipWild ('*' :: tstr) dstr = skipWild tstr dstr := by
  cases tstr <;> rfl

@[simp] theorem skipWild_any_nil : skipWild ('?' :: tstr) [] = false := by
  cases tstr <;> rfl

@[simp] theorem skipWild_any (d : Char) :
    skipWild ('?' :: tstr) (d :: dstr) = skipWild tstr dstr := by
  cases tstr <;> rfl

@[simp] theorem skipWild_backslash : skipWild ['\\'] dstr = true := rfl

theorem skipWild_letter {c : Char} (notStar : c ≠ '*') (notAny : c ≠ '?')
    (notEscape : c ≠ '\\') : skipWild (c :: tstr) dstr = scan c (quickWild tstr) dstr := by
  cases tstr <;> exact (if_neg notAny).trans ((if_neg notStar).trans (if_neg notEscape))

end Shapes

def SameLetter (a b : Char) : Prop := a.toLower = b.toLower

theorem equal_iff {a b : Char} : equal a b = true ↔ SameLetter a b := by
  unfold equal SameLetter
  constructor
  · intro same
    rcases Bool.or_eq_true_iff.mp same with here | lower
    · rw [eq_of_beq here]
    · exact eq_of_beq lower
  · intro lower
    simp [lower]

theorem literal_iff {c : Char} {rest : List Char → Bool} {dstr : List Char} :
    literal c rest dstr = true ↔
      ∃ d tail, dstr = d :: tail ∧ SameLetter d c ∧ rest tail = true := by
  cases dstr with
  | nil => simp [literal]
  | cons d dstr => simp [literal, equal_iff]

theorem scan_iff {c : Char} {rest : List Char → Bool} {dstr : List Char} :
    scan c rest dstr = true ↔
      ∃ s d tail, dstr = s ++ d :: tail ∧ SameLetter d c ∧ rest tail = true := by
  induction dstr with
  | nil => simp [scan]
  | cons d dstr ih =>
    rw [scan, Bool.or_eq_true_iff, Bool.and_eq_true_iff, equal_iff, ih]
    constructor
    · rintro (⟨letter, matched⟩ | ⟨s, d', tail, rfl, letter, matched⟩)
      · exact ⟨[], d, dstr, rfl, letter, matched⟩
      · exact ⟨d :: s, d', tail, rfl, letter, matched⟩
    · rintro ⟨s, d', tail, split, letter, matched⟩
      cases s with
      | nil =>
        obtain ⟨rfl, rfl⟩ := List.cons.inj split
        exact Or.inl ⟨letter, matched⟩
      | cons first s =>
        obtain ⟨rfl, rfl⟩ := List.cons.inj split
        exact Or.inr ⟨s, d', tail, rfl, letter, matched⟩

section Decides

variable {its : List (Item Char)} {rest : List Char → Bool}

section

variable (c : Char) (decides : ∀ dstr, rest dstr = true ↔ Matches SameLetter its dstr)
  (dstr : List Char)
include c decides dstr

theorem literal_matches :
    literal c rest dstr = true ↔ Matches SameLetter (.literal c :: its) dstr := by
  simp only [literal_iff, matches_literal, decides]

theorem scan_matches :
    scan c rest dstr = true ↔ Matches SameLetter (.star :: .literal c :: its) dstr := by
  simp only [scan_iff, matches_star_literal, decides]

end

/-- What the two parts of `quick_wild` decide. -/
structure Decides (tstr : List Char) : Prop where
  quick : ∀ dstr, quickWild tstr dstr = true ↔ Matches SameLetter (items tstr) dstr
  skip : ∀ dstr, skipWild tstr dstr = true ↔ Matches SameLetter (.star :: items tstr) dstr

theorem decides_nil : Decides [] where
  quick dstr := by simp
  skip dstr := by simp

variable {tstr : List Char}

theorem Decides.star (later : Decides tstr) : Decides ('*' :: tstr) where
  quick dstr := by
    rw [quickWild_star, items_star]
    exact later.skip dstr
  skip dstr := by
    rw [skipWild_star, items_star, matches_star_star]
    exact later.skip dstr

theorem Decides.any (later : Decides tstr) : Decides ('?' :: tstr) where
  quick dstr := by
    rw [items_any, matches_any]
    cases dstr with
    | nil => simp
    | cons d dstr => simp [later.quick dstr]
  skip dstr := by
    rw [items_any, matches_star_any]
    cases dstr with
    | nil => simp
    | cons d dstr => simp [later.skip dstr]

theorem decides_backslash : Decides ['\\'] where
  quick dstr := by simp
  skip dstr := by simp

theorem Decides.escaped (c : Char) (later : Decides tstr) : Decides ('\\' :: c :: tstr) where
  quick dstr := literal_matches c later.quick dstr
  skip dstr := scan_matches c later.quick dstr

theorem Decides.letter {c : Char} (notStar : c ≠ '*') (notAny : c ≠ '?')
    (notEscape : c ≠ '\\') (later : Decides tstr) : Decides (c :: tstr) where
  quick dstr := by
    rw [quickWild_letter tstr dstr notStar notAny notEscape,
      items_letter tstr notStar notAny notEscape]
    exact literal_matches c later.quick dstr
  skip dstr := by
    rw [skipWild_letter tstr dstr notStar notAny notEscape,
      items_letter tstr notStar notAny notEscape]
    exact scan_matches c later.quick dstr

theorem decides (tstr : List Char) : Decides tstr := by
  induction tstr using items.induct with
  | case1 => exact decides_nil
  | case2 tstr later => exact later.star
  | case3 tstr _ later => exact later.any
  | case4 => exact decides_backslash
  | case5 c tstr _ _ later => exact later.escaped c
  | case6 c tstr notStar notAny notEscape later => exact later.letter notStar notAny notEscape

end Decides

/-- `quick_wild` accepts the strings of the pattern's language, and no others. -/
theorem quickWild_iff (tstr dstr : List Char) :
    quickWild tstr dstr = true ↔ Matches SameLetter (items tstr) dstr :=
  (decides tstr).quick dstr

example : quickWild "*\\*?b".toList "a*xB".toList = true := by decide

end

open Function (update)

def lbufSize : Nat := 8000

/-- The elements of `args`: NULL, or a buffer with a string in it. -/
abbrev Args := Nat → Option (List Char)

section Wild1

variable (numargs : Nat)

/-- A string is put into `arglist[i]`. -/
def write (args : Args) (i : Nat) (s : List Char) : Option Args :=
  if i < numargs ∧ (args i).isSome ∧ s.length < lbufSize then
    some (update args i (some s))
  else none

/-- The loops that fill in `?`s: arguments from `argpos` on get the letters at
`datapos`, as far as there are arguments. -/
def fillExtra : Nat → List Char → Nat → Args → Option (List Char × Nat × Args)
  | 0, datapos, argpos, args => some (datapos, argpos, args)
  | numextra + 1, datapos, argpos, args =>
    if numargs ≤ argpos then some (datapos, argpos, args)
    else do
      let args ← write numargs args argpos (datapos.take 1)
      fillExtra numextra (datapos.drop 1) (argpos + 1) args

/-- What `wild1` does when it has found a match: the `*`, then the `?`s after it. -/
def fillMatch (datapos dstr : List Char) (numextra argpos : Nat) (args : Args) :
    Option Args := do
  let size := datapos.length - dstr.length - numextra
  let args ← write numargs args argpos (datapos.take size)
  let (_, _, args) ← fillExtra numargs numextra (datapos.drop size) (argpos + 1) args
  some args

def literalArgs (c : Char) (rest : List Char → Option (Bool × Args)) (args : Args) :
    List Char → Option (Bool × Args)
  | [] => some (false, args)
  | d :: dstr => if equal d c then rest dstr else some (false, args)

/-- The last loop of `wild1`: where the character stands and what follows matches. -/
def seek (c : Char) (rest : List Char → Args → Option (Bool × Args)) :
    List Char → Args → Option (Option (List Char) × Args)
  | [], args => some (none, args)
  | d :: dstr, args =>
    if equal d c then do
      let (found, args) ← rest dstr args
      if found then some (some (d :: dstr), args) else seek c rest dstr args
    else seek c rest dstr args

/-- The end of `wild1` after its last loop. -/
def fillFound (datapos : List Char) (numextra argpos : Nat) :
    Option (List Char) × Args → Option (Bool × Args)
  | (none, args) => some (false, args)
  | (some dstr, args) => do
      let args ← fillMatch numargs datapos dstr numextra argpos args
      some (true, args)

mutual

def wild1 : List Char → List Char → Nat → Args → Option (Bool × Args)
  | [], dstr, _, args => some (dstr.isEmpty, args)
  | t :: tstr, dstr, arg, args =>
    if t = '*' then
      if tstr.isEmpty then do
        let args ← write numargs args arg (dstr.take (lbufSize - 1))
        some (true, args)
      else wildStar tstr dstr (arg + 1) dstr arg 0 args
    else if t = '?' then
      match dstr with
      | [] => some (false, args)
      | d :: dstr => do
          let args ← write numargs args arg [d]
          if numargs ≤ arg + 1 then some (quickWild tstr dstr, args)
          else wild1 tstr dstr (arg + 1) args
    else if t = '\\' then
      match tstr with
      | [] => some (dstr.isEmpty, args)
      | c :: tstr => literalArgs c (fun dstr => wild1 tstr dstr arg args) args dstr
    else literalArgs t (fun dstr => wild1 tstr dstr arg args) args dstr

/-- `wild1` behind a `*`: that star is argument `argpos`, its data starts at
`datapos`, and `numextra` `?`s have followed it. -/
def wildStar : List Char → List Char → Nat → List Char → Nat → Nat → Args →
    Option (Bool × Args)
  | [], _, _, datapos, argpos, numextra, args => do
      let args ← fillMatch numargs datapos [] numextra argpos args
      some (true, args)
  | t :: tstr, dstr, arg, datapos, argpos, numextra, args =>
    if t = '?' then
      match dstr with
      | [] => some (false, args)
      | _ :: dstr => wildStar tstr dstr (arg + 1) datapos argpos (numextra + 1) args
    else if t = '*' then do
      let args ← write numargs args argpos []
      let (datapos, argpos, args) ← fillExtra numargs numextra datapos (argpos + 1) args
      if numargs ≤ argpos then some (quickWild (t :: tstr) dstr, args)
      else wildStar tstr dstr (arg + 1) datapos argpos 0 args
    else if t = '\\' then
      match tstr with
      | [] => do
          let args ← fillMatch numargs datapos [] numextra argpos args
          some (true, args)
      | c :: tstr => do
          let found ← seek c (fun dstr args =>
            if arg < numargs then wild1 tstr dstr arg args
            else some (quickWild tstr dstr, args)) dstr args
          fillFound numargs datapos numextra argpos found
    else do
      let found ← seek t (fun dstr args =>
        if arg < numargs then wild1 tstr dstr arg args
        else some (quickWild tstr dstr, args)) dstr args
      fillFound numargs datapos numextra argpos found

end

end Wild1

/-- The first loop of `wild`: the answer, or the pattern and the data from the first
wildcard on. -/
def wildFast : List Char → List Char → Bool ⊕ List Char × List Char
  | [], dstr => .inl dstr.isEmpty
  | t :: tstr, dstr =>
    if t = '*' ∨ t = '?' then .inr (t :: tstr, dstr)
    else if t = '\\' then
      match tstr, dstr with
      | [], dstr => .inl dstr.isEmpty
      | _ :: _, [] => .inl false
      | c :: tstr, d :: dstr => if equal d c then wildFast tstr dstr else .inl false
    else
      match dstr with
      | [] => .inl false
      | d :: dstr => if equal d t then wildFast tstr dstr else .inl false

/-- The buffers for the arguments; `fresh` is what is in a new one. -/
def allocArgs (fresh : Nat → List Char) (nargs : Nat) : List Char → Nat → Args → Args
  | [], _, args => args
  | c :: scan, i, args =>
    if nargs ≤ i then args
    else if c = '?' ∨ c = '*' then
      allocArgs fresh nargs scan (i + 1) (update args i (some (fresh i)))
    else allocArgs fresh nargs scan i args

/-- The last loop of `wild`: empty arguments are NULL, all of them when there is no
match. -/
def freeFake (nargs : Nat) (value : Bool) (args : Args) : Args := fun i =>
  if i < nargs ∧ (args i = some [] ∨ value = false) then none else args i

/-- The match that `wild` does. -/
def wildValue (nargs : Nat) (tstr dstr : List Char) (args : Args) : Option (Bool × Args) :=
  if nargs ≠ 0 then wild1 nargs tstr dstr 0 args else some (quickWild tstr dstr, args)

def wild (fresh : Nat → List Char) (tstr dstr : List Char) (args : Args) (nargs : Nat) :
    Option (Bool × Args) :=
  let args : Args := fun i => if i < nargs then none else args i
  match wildFast tstr dstr with
  | .inl value => some (value, args)
  | .inr (tstr, dstr) => do
      let args := allocArgs fresh nargs tstr 0 args
      let (value, args) ← wildValue nargs tstr dstr args
      some (value, freeFake nargs value args)

end BattletechMux.Match
