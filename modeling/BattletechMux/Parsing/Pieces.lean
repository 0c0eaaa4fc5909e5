/-
Module: BattletechMux.Parsing.Pieces
Purpose: parse_to cuts a string at its first free delimiter, and calls that follow one another
  return the pieces in order.
-/
import BattletechMux.Parsing.Scanning

namespace BattletechMux.Parsing

open List Option

open Function (update update_self update_of_ne)
open CText (isSpace)

section Ending

variable {mode : Mode} {mem : Memory} {start q : Int} {done out rest : Text} {s : Scan}
  {c : Char}

/-! ## The end of a piece -/

/-- The string that is left of what was written, and the memory around it. -/
structure Shown (mode : Mode) (mem : Memory) (q : Int) (done : Text) (s s' : Scan)
    (shown : Text) : Prop where
  cstr : s'.cstr = s.cstr
  string : StringAt s'.mem s'.rstr shown
  trimmed : Trimmed shown done
  exact : mode.verbatim → shown = done
  low : q ≤ s'.rstr
  high : s'.rstr + shown.length ≤ s.cstr
  frame : ∀ k, k < q ∨ s.cstr ≤ k → s'.mem k = mem k ∨ k = s.cstr ∧ s'.mem k = nul

theorem write_end {place : Int} {text : Text} (h : Holds s.mem q text)
    (solid : nul ∉ text) (low : start ≤ q) (at' : place = q + text.length)
    (high : place ≤ s.cstr) :
    ∃ s', s.write start place nul = some s' ∧ StringAt s'.mem q text ∧ s'.cstr = s.cstr ∧
      s'.rstr = s.rstr ∧ s'.zstr = s.zstr ∧ (∀ k, k ≠ place → s'.mem k = s.mem k) ∧
      s'.mem place = nul := by
  refine ⟨_, write_spec (by omega) high, ⟨?_, solid⟩, rfl, rfl, rfl,
    fun k o => update_of_ne o _ _, update_self _ _ _⟩
  refine (h.update_of_outside nul (.inr at'.ge)).snoc ?_
  rw [← at']
  exact update_self _ _ _

def inner (mode : Mode) (flag : BitVec 32) (trim : Text → Text) (text : Text) : Text :=
  if (mode.spaceCompress && (!mode.has evNoCompress || mode.has flag)) = true then trim text
  else text

theorem trimmed_inner {flag : BitVec 32} {trim : Text → Text} (text : Text)
    (trims : Trimmed (trim text) text) : Trimmed (inner mode flag trim text) text := by
  rw [inner]
  split_ifs
  · exact trims
  · exact Trimmed.refl text

theorem stripAround_eq {limit : Nat} : stripAround mode start limit s =
    (if (mode.spaceCompress && (!mode.has evNoCompress || mode.has evStripLs)) = true then
        skipSpaces s.mem limit (s.rstr + 1) else some (s.rstr + 1)).bind fun rstr =>
      (s.write start (rstr - 1) nul).bind fun s =>
        (if (mode.spaceCompress && (!mode.has evNoCompress || mode.has evStripTs)) = true then
          skipSpacesBack s.mem limit (s.zstr - 1) else some (s.zstr - 1)).bind fun zstr =>
          (s.write start zstr nul).bind fun s =>
            (s.write start zstr nul).map fun s => { s with rstr := rstr, zstr := zstr } := by
  simp only [stripAround, bind_eq_bind]
  split_ifs <;> rfl

theorem stripAround_spec {limit : Nat} {mid : Text} (hin : start ≤ q) (rstr : s.rstr = q)
    (zstr : s.zstr = q + ('{' :: mid ++ ['}']).length) (ahead : s.zstr ≤ s.cstr)
    (h : Holds s.mem q ('{' :: mid ++ ['}'])) (solid : nul ∉ mid)
    (hlt : mid.length < limit) (frame : ∀ k, k < q ∨ s.cstr ≤ k → s.mem k = mem k)
    (shown : ¬ mode.verbatim) (trimmed : Trimmed ('{' :: mid ++ ['}']) done) :
    ∃ s' shown, stripAround mode start limit s = some s' ∧ Shown mode mem q done s s' shown := by
  have length : (('{' :: mid ++ ['}']).length : Int) = mid.length + 2 := by simp; omega
  rw [length] at zstr
  have lead : (if (mode.spaceCompress && (!mode.has evNoCompress || mode.has evStripLs)) = true
      then skipSpaces s.mem limit (q + 1) else some (q + 1)) =
      some (q + 1 + (mid.length - (inner mode evStripLs (·.dropWhile isSpace) mid).length : Nat)) := by
    rw [inner]
    split_ifs
    · exact skipSpaces_spec h.2 solid (.inr rfl) hlt
    · simp
  obtain ⟨blanks, split⟩ : inner mode evStripLs (·.dropWhile isSpace) mid <:+ mid := by
    rw [inner]
    split_ifs
    · exact dropWhile_suffix isSpace
    · exact suffix_refl mid
  have trims := @trimmed_inner mode evStripLs (·.dropWhile isSpace) mid
    (Trimmed.dropWhile_isSpace mid)
  revert lead split trims
  generalize inner mode evStripLs (·.dropWhile isSpace) mid = mid₁
  rintro lead rfl trims
  simp only [length_append, Nat.add_sub_cancel, Nat.cast_add] at lead zstr hlt
  have solid₁ : nul ∉ mid₁ := fun ends => solid (mem_append_right blanks ends)
  -- the end is put behind the opening brace, or the last of the blanks
  set start₁ : Int := q + 1 + blanks.length with hstart₁
  set mem₁ := update s.mem (start₁ - 1) nul with hmem₁
  have holds₁ : Holds mem₁ start₁ mid₁ := by
    have middle : Holds s.mem (q + 1) (blanks ++ mid₁) := (holds_append.mp h.2).1
    exact (holds_append.mp middle).2.update_of_outside nul (.inl (by omega))
  have back : (if (mode.spaceCompress && (!mode.has evNoCompress || mode.has evStripTs)) = true
      then skipSpacesBack mem₁ limit (s.zstr - 1) else some (s.zstr - 1)) =
      some (start₁ + (inner mode evStripTs (·.rdropWhile isSpace) mid₁).length) := by
    have place : s.zstr - 1 = start₁ + mid₁.length := by omega
    rw [inner, place]
    split_ifs
    · exact skipSpacesBack_spec holds₁ solid₁ (update_self _ _ _) (by omega)
    · rfl
  obtain ⟨behind, split⟩ : inner mode evStripTs (·.rdropWhile isSpace) mid₁ <+: mid₁ := by
    rw [inner]
    split_ifs
    · exact rdropWhile_prefix isSpace mid₁
    · exact prefix_refl mid₁
  have trims₂ := @trimmed_inner mode evStripTs (·.rdropWhile isSpace) mid₁
    (Trimmed.rdropWhile_isSpace mid₁)
  revert back split trims₂
  generalize inner mode evStripTs (·.rdropWhile isSpace) mid₁ = mid₂
  rintro back rfl trims₂
  have holds₂ : Holds mem₁ start₁ mid₂ := (holds_append.mp holds₁).1
  simp only [length_append, Nat.cast_add] at zstr
  refine ⟨{ s with
      mem := update (update mem₁ (start₁ + mid₂.length) nul) (start₁ + mid₂.length) nul,
      rstr := start₁, zstr := start₁ + mid₂.length }, mid₂, ?_, ?_⟩
  · rw [stripAround_eq, rstr, lead, bind_some, write_spec (by omega) (by omega),
      bind_some]
    dsimp only
    rw [back, bind_some,
      write_spec (s := { s with mem := mem₁ }) (by omega) (show _ ≤ s.cstr by omega),
      bind_some, write_spec (s := { s with mem := update mem₁ _ nul }) (by omega)
        (show _ ≤ s.cstr by omega)]
    rfl
  · have bare : Trimmed (blanks ++ (mid₂ ++ behind))
        ('{' :: (blanks ++ (mid₂ ++ behind)) ++ ['}']) := by
      have left := (Trimmed.refl (blanks ++ (mid₂ ++ behind))).skip
        (show droppable '}' = true from rfl)
      exact left.trans ⟨sublist_cons_self _ _, by simp [droppable]⟩
    refine ⟨rfl, ⟨?_, fun ends => solid₁ (mem_append_left behind ends)⟩,
      ((trims₂.trans trims).trans bare).trans trimmed, fun same => absurd same shown, ?_, ?_, ?_⟩
    · rw [Function.update_idem]
      exact (holds₂.update_of_outside nul (.inr (le_refl _))).snoc (update_self _ _ _)
    · change q ≤ start₁
      omega
    · change start₁ + mid₂.length ≤ s.cstr
      omega
    · intro k outside
      left
      rw [Function.update_idem]
      change update mem₁ (start₁ + mid₂.length) nul k = mem k
      rw [update_of_ne (by omega), hmem₁, update_of_ne (by omega)]
      exact frame k outside

/-- What cleaning up may rely on: the string and what is around it before the scan. -/
structure Bounded (mode : Mode) (mem : Memory) (q : Int) (done : Text) : Prop where
  head : ∀ c, done.head? = some c → mem q = c
  plain : done = [] → mem q ≠ '{'
  before : mode.has evStrip = true → mode.has evStripAround = true → mem (q - 1) ≠ '}'

structure Written (mode : Mode) (mem : Memory) (q : Int) (done out : Text) (s : Scan) :
    Prop where
  rstr : s.rstr = q
  zstr : s.zstr = q + out.length
  ahead : s.zstr ≤ s.cstr
  held : Holds s.mem q out
  trimmed : Trimmed out done
  exact : mode.verbatim → out = done
  frame : ∀ k, k < q ∨ s.cstr ≤ k → s.mem k = mem k
  filled : mode.has evStripAround = true → s.mem q = '{' → s.mem (s.zstr - 1) = '}' → out ≠ []

def trailing (mode : Mode) (s : Scan) : Scan :=
  if (mode.spaceCompress || mode.has evStripTs) && !mode.has evNoCompress &&
      !s.first && s.mem (s.cstr - 1) == ' ' then { s with zstr := s.zstr - 1 } else s

theorem trailing_spec (core : Core mode mem q done out rest s)
    (started : s.first = false → done ≠ []) (bounded : Bounded mode mem q done) :
    ∃ out', Written mode mem q done out' (trailing mode s) := by
  have cstr := core.cstr
  have zstr := core.zstr
  have room := core.room
  by_cases trims : ((mode.spaceCompress || mode.has evStripTs) && !mode.has evNoCompress &&
      !s.first && s.mem (s.cstr - 1) == ' ') = true
  · rw [trailing, if_pos trims]
    simp only [Bool.and_eq_true, Bool.not_eq_true', beq_iff_eq] at trims
    obtain ⟨⟨⟨flags, compress⟩, fst⟩, blank⟩ := trims
    have rstr := core.rstr
    have last : done.getLast? = some ' ' := (core.behind_iff ' ').mp ⟨fun same =>
      started fst (length_eq_zero_iff.mp (by omega)), blank⟩
    obtain ⟨before, rfl⟩ := getLast?_eq_some_iff.mp (core.space last)
    rw [length_append, length_singleton] at zstr room
    push_cast at zstr
    refine ⟨before, rstr, ?_, ?_, (holds_append.mp core.held).1, core.trimmed.dropLast rfl,
      fun verbatim => ?_, core.frame, fun _ opens _ empty => ?_⟩
    · change s.zstr - 1 = q + before.length
      omega
    · change s.zstr - 1 ≤ s.cstr
      omega
    · -- with no flag nothing is left off
      have compresses := verbatim.1
      have strips := verbatim.2.2.2.1
      rw [Mode.compresses] at compresses
      rw [compress] at compresses strips
      simp_all
    · subst empty
      exact absurd (opens.symm.trans core.held.1) (by decide)
  · rw [trailing, if_neg trims]
    refine ⟨out, core.rstr, zstr, by omega, core.held, core.trimmed, core.exact, core.frame,
      fun around opens closes empty => ?_⟩
    have origin : mem q = '{' := (core.untouched empty).symm.trans opens
    cases read : done.head? with
    | none => exact bounded.plain (head?_eq_none_iff.mp read) origin
    | some c =>
      obtain rfl : '{' = c := origin.symm.trans (bounded.head c read)
      cases strips : mode.has evStrip with
      | false =>
        have fst := core.brace strips read
        simp [empty] at fst
      | true =>
        have place : s.zstr - 1 = q - 1 := by simp [zstr, empty]
        refine bounded.before strips around ?_
        rw [← core.frame (q - 1) (.inl (by omega)), ← place, closes]

theorem trailing_cstr (mode : Mode) (s : Scan) : (trailing mode s).cstr = s.cstr := by
  rw [trailing]
  split_ifs <;> rfl

theorem Written.around (written : Written mode mem q done out s)
    (around : mode.has evStripAround = true) (opens : s.mem q = '{')
    (closes : s.mem (s.zstr - 1) = '}') : ∃ mid, out = '{' :: mid ++ ['}'] := by
  have filled := written.filled around opens closes
  have held := written.held
  have zstr := written.zstr
  cases out with
  | nil => exact absurd rfl filled
  | cons c out =>
    obtain rfl : '{' = c := opens.symm.trans held.1
    rcases eq_nil_or_concat' out with rfl | ⟨mid, d, rfl⟩
    · rw [show s.zstr - 1 = q by simp [zstr], opens] at closes
      exact absurd closes (by decide)
    · have last : s.mem (q + ('{' :: mid).length) = d := by
        rw [← cons_append] at held
        exact held.last
      rw [show s.zstr - 1 = q + ('{' :: mid).length by simp [zstr]; omega, last] at closes
      exact ⟨mid, by rw [closes, cons_append]⟩

theorem parseToCleanup_spec {limit : Nat} (core : Core mode mem q done out rest s)
    (hin : start ≤ q) (started : s.first = false → done ≠ [])
    (bounded : Bounded mode mem q done) (hlt : done.length < limit) :
    ∃ s' shown, parseToCleanup mode start limit s = some s' ∧
      Shown mode mem q done s s' shown := by
  obtain ⟨out', written⟩ := trailing_spec core started bounded
  have solid : nul ∉ out' := fun ends => core.solid (written.trimmed.sublist.mem ends)
  have short := written.trimmed.sublist.length_le
  have cstr := trailing_cstr mode s
  have zstr := written.zstr
  have ahead := written.ahead
  have enter : parseToCleanup mode start limit s =
      if (mode.has evStripAround && (trailing mode s).mem (trailing mode s).rstr == '{' &&
        (trailing mode s).mem ((trailing mode s).zstr - 1) == '}') = true then
        stripAround mode start limit (trailing mode s)
      else (trailing mode s).write start (trailing mode s).zstr nul := rfl
  rw [enter]
  split_ifs with around
  · simp only [Bool.and_eq_true, beq_iff_eq, written.rstr] at around
    obtain ⟨mid, rfl⟩ := written.around around.1.1 around.1.2 around.2
    have solid' : nul ∉ mid := fun ends => solid (by simp [ends])
    have hlt' : mid.length < limit := by
      simp at short
      omega
    obtain ⟨s', shown, ran, shows⟩ := stripAround_spec hin written.rstr zstr ahead
      written.held solid' hlt' written.frame (fun verbatim => absurd
        (verbatim.2.2.2.2.symm.trans around.1.1) (by decide)) written.trimmed
    exact ⟨s', shown, ran, cstr ▸ shows.cstr, shows.string, shows.trimmed, shows.exact,
      shows.low, cstr ▸ shows.high, cstr ▸ shows.frame⟩
  · obtain ⟨s', wrote, string, cstr', rstr, -, frame, ends⟩ :=
      write_end written.held solid hin zstr ahead
    refine ⟨s', out', wrote, cstr'.trans cstr, ?_, written.trimmed, written.exact, ?_, ?_, ?_⟩
    · rwa [rstr, written.rstr]
    · rw [rstr, written.rstr]
    · rw [rstr, written.rstr]
      omega
    · intro k outside
      by_cases at' : k = (trailing mode s).zstr
      · subst at'
        exact .inr ⟨by omega, ends⟩
      · exact .inl ((frame k at').trans (written.frame k (by omega)))

end Ending

/-! ## A call -/

theorem lexes_exists (text : Text) : ∃ items, Lexes text items := by
  induction length : text.length using Nat.strong_induction_on generalizing text with
  | _ n ih =>
    subst length
    match text with
    | [] => exact ⟨[], .done⟩
    | c :: rest =>
      by_cases escape : c = '\\' ∨ c = '%'
      · match rest with
        | [] => exact ⟨_, .escapeEnd c escape⟩
        | d :: rest =>
          obtain ⟨items, lexes⟩ := ih rest.length (by simp) rest rfl
          exact ⟨_, .escape c d rest items escape lexes⟩
      · by_cases brace : c = '{'
        · subst brace
          have length := congrArg List.length (block_append 1 rest)
          rw [length_append] at length
          obtain ⟨items, lexes⟩ := ih (block 1 rest).2.length
            (by rw [length_cons]; omega) (block 1 rest).2 rfl
          exact ⟨_, .block rest items lexes⟩
        · obtain ⟨items, lexes⟩ := ih rest.length (by simp) rest rfl
          exact ⟨_, .plain c rest items escape brace lexes⟩

theorem Lexes.unique {text : Text} {items items' : List Item} (lexes : Lexes text items)
    (lexes' : Lexes text items') : items = items' := by
  induction lexes generalizing items' with
  | done => cases lexes' with | done => rfl
  | escapeEnd c escape =>
    cases lexes' with
    | escapeEnd => rfl
    | block => exact absurd escape (by decide)
    | plain _ _ _ escape' => exact absurd escape escape'
  | escape c d rest items escape lexes ih =>
    cases lexes' with
    | escape _ _ _ items' _ lexes' => rw [ih lexes']
    | block => exact absurd escape (by decide)
    | plain _ _ _ escape' => exact absurd escape escape'
  | block text items lexes ih =>
    cases lexes' with
    | escapeEnd _ escape => exact absurd escape (by decide)
    | escape _ _ _ _ escape => exact absurd escape (by decide)
    | block _ items' lexes' => rw [ih lexes']
    | plain _ _ _ _ brace => exact absurd rfl brace
  | plain c rest items escape brace lexes ih =>
    cases lexes' with
    | escapeEnd _ escape' => exact absurd escape' escape
    | escape _ _ _ _ escape' => exact absurd escape' escape
    | block => exact absurd rfl brace
    | plain _ _ items' _ _ lexes' => rw [ih lexes']

theorem Cut.unique {delim : Char} {text : Text} {cut cut' : Option (Text × Text)}
    (fst : Cut delim text cut) (snd : Cut delim text cut') : cut = cut' := by
  cases fst with
  | between items before post lexes fst =>
    cases snd with
    | between items' before' post' lexes' snd =>
      obtain rfl := lexes.unique lexes'
      have length := le_antisymm (fst.first before' post' snd.split snd.free)
        (snd.first before post fst.split fst.free)
      have same := append_inj (fst.split.symm.trans snd.split) length
      rw [same.1, (cons.inj same.2).2]
    | nowhere items' lexes' none' =>
      obtain rfl := lexes.unique lexes'
      exact absurd fst.free (none' before post fst.split)
  | nowhere items lexes none' =>
    cases snd with
    | between items' before' post' lexes' snd =>
      obtain rfl := lexes.unique lexes'
      exact absurd snd.free (none' before' post' snd.split)
    | nowhere => rfl

def endOf (dstr : Int) (text : Text) (cut : Option (Text × Text)) : Int :=
  dstr + text.length - (cut.elim 0 fun cut => cut.2.length + 1 : Nat)

/-- A piece and what a call shows of it, between the start of the string and its end. -/
structure Call (mode : Mode) (mem : Memory) (dstr : Int) (text raw : Text)
    (cut : Option (Text × Text)) (result : Result) : Prop where
  next : result.dstr = cut.map fun cut => dstr + (text.length - cut.2.length : Nat)
  shown : ∃ shown, StringAt result.mem result.rstr shown ∧ Trimmed shown raw ∧
    (mode.verbatim → shown = raw) ∧ dstr ≤ result.rstr ∧
    result.rstr + shown.length ≤ endOf dstr text cut
  frame : ∀ k, k < dstr ∨ endOf dstr text cut ≤ k →
    result.mem k = mem k ∨ k = endOf dstr text cut ∧ result.mem k = nul

def rawPiece (text : Text) (cut : Option (Text × Text)) : Text := cut.elim text (·.1)

section Calling

variable {mode : Mode} {delim : Char} {limit : Nat} {mem : Memory} {dstr q : Int}
  {text : Text}

theorem leading_split (mode : Mode) (text : Text) :
    ∃ blanks, text = blanks ++ leading mode text ∧ ∀ c ∈ blanks, isSpace c = true := by
  rw [leading]
  split_ifs
  · exact ⟨text.takeWhile isSpace, takeWhile_append_dropWhile.symm,
      fun c held => mem_takeWhile_imp held⟩
  · exact ⟨[], rfl, by simp⟩

theorem leading_head (compresses : mode.compresses = true) :
    (leading mode text).head? ≠ some ' ' := by
  rw [Mode.compresses, Bool.and_eq_true] at compresses
  rw [leading, if_pos (by simp [compresses])]
  intro blank
  have head := head?_dropWhile_not isSpace text
  rw [blank] at head
  exact absurd head (by decide)

theorem lead_spec (string : StringAt mem dstr text) (hlt : text.length + 1 < limit) :
    (if ((mode.spaceCompress || mode.has evStripLs) && !mode.has evNoCompress) = true then
      skipSpaces mem limit dstr else some dstr) =
      some (dstr + (text.length - (leading mode text).length : Nat)) := by
  rw [leading]
  split_ifs
  · exact skipSpaces_spec string.1 string.2 (.inl rfl) (by omega)
  · simp

theorem StringAt.head (string : StringAt mem q text) {c : Char} (fst : text.head? = some c) :
    mem q = c := by
  cases text with
  | nil => simp at fst
  | cons d text =>
    obtain rfl : d = c := by simpa using fst
    exact string.1.1

theorem core_start (string : StringAt mem q text) :
    Core mode mem q [] [] text
      { mem := mem, rstr := q, cstr := q, zstr := q, stack := [], first := true } where
  rstr := rfl
  cstr := (add_zero q).symm
  zstr := (add_zero q).symm
  room := le_refl _
  solid := by simp
  ahead := string
  behind := by simp
  held := trivial
  trimmed := Trimmed.refl []
  exact := fun _ => rfl
  space := id
  frame := fun _ _ => rfl
  untouched := fun _ => rfl
  brace := fun _ => id

theorem stops_plain {items : List Item} {read rest : Text} {cut : Bool}
    (string : StringAt mem q text) (lexes : Lexes text items)
    (stops : Stops delim [] items read rest cut) (empty : read = []) : mem q ≠ '{' := by
  intro brace
  cases text with
  | nil => exact absurd (string.1.1.symm.trans brace) (by decide)
  | cons c text =>
    obtain rfl : c = '{' := string.1.1.symm.trans brace
    cases lexes with
    | escapeEnd _ escape => exact absurd escape (by decide)
    | escape _ _ _ _ escape => exact absurd escape (by decide)
    | plain _ _ _ _ o => exact o rfl
    | block _ items lexes =>
      cases stops with
      | cut before post fst =>
        have split := fst.split
        cases before with
        | nil => simp at split
        | cons item before =>
          rw [cons_append, List.cons.injEq] at split
          rw [flat_cons, ← split.1] at empty
          simp [Item.text] at empty
      | end' => simp [flat_cons, Item.text] at empty

theorem parseTo_spec (string : StringAt mem dstr text) (safe : Safe mode delim mem dstr)
    (hlt : text.length + 1 < limit) :
    ∃ cut result, Cut delim (leading mode text) cut ∧
      parseTo mode delim limit mem dstr = some result ∧
      Call mode mem dstr text (rawPiece (leading mode text) cut) cut result := by
  by_cases empty : mem dstr = nul
  · obtain rfl : text = [] := by
      cases text with
      | nil => rfl
      | cons c text =>
        exact absurd mem_cons_self (string.1.1.symm.trans empty ▸ string.2)
    have none' : leading mode [] = [] := by
      rw [leading]
      split_ifs <;> rfl
    refine ⟨none, { mem := mem, rstr := dstr, dstr := none }, ?_, ?_, ?_⟩
    · rw [none']
      exact .nowhere [] .done fun before post split => absurd split.symm (by simp)
    · rw [parseTo, if_pos empty]
    · rw [none']
      exact ⟨rfl, ⟨[], string, Trimmed.refl [], fun _ => rfl, le_refl _, by simp [endOf]⟩,
        fun _ _ => .inl rfl⟩
  · obtain ⟨blanks, split, spaces⟩ := leading_split mode text
    have skipped : text.length - (leading mode text).length = blanks.length := by
      have length := congrArg List.length split
      rw [length_append] at length
      omega
    have lead := @lead_spec mode limit mem dstr text string hlt
    rw [skipped] at lead
    have head := @leading_head mode text
    generalize leading mode text = piece at split head ⊢
    subst split
    have string' := string.drop
    set q : Int := dstr + blanks.length with hq
    have hin : dstr ≤ q := by omega
    have short : piece.length ≤ (blanks ++ piece).length := by simp
    obtain ⟨items, lexes⟩ := lexes_exists piece
    have runs : Runs mode delim mem dstr q limit limit []
        { mem := mem, rstr := q, cstr := q, zstr := q, stack := [], first := true } [] items :=
      parseLoop_spec lexes (core_start string') hin
        ⟨fun first => absurd first (by simp), fun compresses _ => ⟨rfl, head compresses⟩⟩ rfl
        (by omega) (by omega)
    obtain ⟨cut, s, read, out, rest, ran, core, filled, stops⟩ := runs
    rw [nil_append] at core filled
    have bounded : Bounded mode mem q read := by
      refine ⟨fun c first => ?_, stops_plain string' lexes stops, fun strips around => ?_⟩
      · refine string'.head (c := c) ?_
        rw [← lexes.flat, ← stops.append, head?_append, first]
        rfl
      · rcases eq_nil_or_concat' blanks with rfl | ⟨before, c, rfl⟩
        · simpa [hq] using (safe strips around).1
        · have h : Holds mem dstr (before ++ [c]) := by
            have all := string.1
            rw [append_assoc] at all
            exact (holds_append.mp all).1
          have place : q - 1 = dstr + before.length := by simp [hq]; omega
          rw [place, h.last]
          rintro rfl
          exact absurd (spaces '}' (by simp)) (by decide)
    have size := congrArg List.length (stops.append.trans lexes.flat)
    rw [length_append] at size
    obtain ⟨s', shown, ended, shows⟩ := parseToCleanup_spec core hin filled bounded
      (show read.length < limit by omega)
    have cstr := core.cstr
    have returned : parseTo mode delim limit mem dstr = some
        { mem := s'.mem, rstr := s'.rstr, dstr := if cut then some (s'.cstr + 1) else none } := by
      rw [parseTo, if_neg empty, lead, bind_some, ran, bind_some]
      dsimp only
      rw [ended]
      rfl
    have low := shows.low
    have high := shows.high
    have frame := shows.frame
    cases stops with
    | cut before post first =>
      have ends : endOf dstr (blanks ++ piece) (some (flat before, flat post)) = s.cstr := by
        simp [endOf] at size ⊢
        omega
      refine ⟨some (flat before, flat post), _, .between items before post lexes first,
        returned, ?_, ⟨shown, shows.string, shows.trimmed, shows.exact, hin.trans low, ?_⟩,
        ?_⟩
      · rw [if_pos rfl, shows.cstr, map_some]
        simp at size ⊢
        omega
      · rwa [ends]
      · intro k outside
        rw [ends] at outside ⊢
        exact frame k (by omega)
    | end' none' =>
      have ends : endOf dstr (blanks ++ piece) none = s.cstr := by
        simp [endOf] at size ⊢
        omega
      rw [lexes.flat] at shows
      refine ⟨none, _, .nowhere items lexes none', returned, rfl,
        ⟨shown, shows.string, shows.trimmed, shows.exact, hin.trans low, ?_⟩, ?_⟩
      · rwa [ends]
      · intro k outside
        rw [ends] at outside ⊢
        exact frame k (by omega)

theorem Cut.split {before post : Text} (cut : Cut delim text (some (before, post))) :
    text = before ++ delim :: post := by
  cases cut with
  | between items before post lexes fst =>
    rw [← lexes.flat, fst.split]
    simp [flat, Item.text]

def Shows (mode : Mode) (mem : Memory) (place : Int) (raw : Text) : Prop :=
  ∃ shown, StringAt mem place shown ∧ Trimmed shown raw ∧ (mode.verbatim → shown = raw)

theorem splitAll_spec {calls : Nat} (string : StringAt mem dstr text)
    (safe : Safe mode delim mem dstr) (hlt : text.length + 1 < limit)
    (lasts : text.length < calls) :
    ∃ mem' strings pieces, splitAll mode delim limit calls mem dstr = some (mem', strings) ∧
      Pieces mode delim text pieces ∧ List.Forall₂ (Shows mode mem') strings pieces ∧
      ∀ k, k < dstr ∨ dstr + text.length < k → mem' k = mem k := by
  induction calls generalizing mem dstr text with
  | zero => exact absurd lasts (Nat.not_lt_zero _)
  | succ calls ih =>
    obtain ⟨cut, result, cuts, returned, call⟩ := parseTo_spec string safe hlt
    obtain ⟨shown, string', trimmed, exact', low, high⟩ := call.shown
    have next := call.next
    have frame := call.frame
    rw [splitAll, returned, bind_some]
    cases cut with
    | none =>
      rw [map_none] at next
      simp only [next]
      refine ⟨result.mem, [result.rstr], _, rfl, .last text cuts,
        .cons ⟨shown, string', trimmed, exact'⟩ .nil, fun k outside => ?_⟩
      simp only [endOf, elim_none, Nat.cast_zero, sub_zero] at frame
      rcases frame k (by omega) with same | ⟨at', -⟩
      · exact same
      · omega
    | some cut =>
      obtain ⟨before, post⟩ := cut
      rw [map_some] at next
      simp only [next]
      simp only [endOf, elim_some] at frame high
      obtain ⟨blanks, split, -⟩ := leading_split mode text
      rw [cuts.split] at split
      have length : text.length = blanks.length + before.length + 1 + post.length := by
        rw [split]
        simp
        omega
      have place : dstr + (text.length - post.length : Nat) =
          dstr + (blanks ++ before ++ [delim]).length := by
        simp
        omega
      have tail : StringAt result.mem (dstr + (text.length - post.length : Nat)) post := by
        rw [place]
        have origin : StringAt mem dstr (blanks ++ before ++ [delim] ++ post) := by
          rw [split] at string
          simpa using string
        refine origin.drop.frame fun k low' high' => ?_
        rw [← place] at low'
        rcases frame k (by omega) with same | ⟨at', -⟩
        · exact same
        · omega
      have safe' : Safe mode delim result.mem (dstr + (text.length - post.length : Nat)) := by
        intro strips around
        refine ⟨?_, (safe strips around).2⟩
        rcases frame (dstr + (text.length - post.length : Nat) - 1) (by omega) with
          same | ⟨-, ends⟩
        · have origin : StringAt mem dstr (blanks ++ before ++ delim :: post) := by
            rw [split] at string
            simpa using string
          have delim' : mem (dstr + (blanks ++ before).length) = delim := origin.drop.1.1
          have here : dstr + (text.length - post.length : Nat) - 1 =
              dstr + (blanks ++ before).length := by
            simp
            omega
          rw [same, here, delim']
          exact (safe strips around).2
        · rw [ends]
          decide
      obtain ⟨mem', strings, pieces, ran, others, shows, frame'⟩ :=
        ih tail safe' (by omega) (by omega)
      refine ⟨mem', result.rstr :: strings, before :: pieces, by rw [ran]; rfl,
        .next text before post pieces cuts others,
        .cons ⟨shown, ?_, trimmed, exact'⟩ shows, fun k outside => ?_⟩
      · exact string'.frame fun k low' high' => frame' k (by omega)
      · rw [frame' k (by omega)]
        rcases frame k (by omega) with same | ⟨at', -⟩
        · exact same
        · omega

end Calling

/-- A call cuts at the first free delimiter, in the only place there is for that, and calls
until nothing is left return all the pieces in order. -/
theorem parseTo_splits (mode : Mode) (delim : Char) (limit : Nat) (mem : Memory) (dstr : Int)
    (text : Text) (string : StringAt mem dstr text) (safe : Safe mode delim mem dstr)
    (enough : text.length + 1 < limit) :
    (∃ cut result, Cut delim (leading mode text) cut ∧
      (∀ cut', Cut delim (leading mode text) cut' → cut' = cut) ∧
      parseTo mode delim limit mem dstr = some result ∧
      Call mode mem dstr text (rawPiece (leading mode text) cut) cut result) ∧
    ∃ mem' strings pieces,
      splitAll mode delim limit (text.length + 1) mem dstr = some (mem', strings) ∧
      Pieces mode delim text pieces ∧ List.Forall₂ (Shows mode mem') strings pieces ∧
      ∀ k, k < dstr ∨ dstr + text.length < k → mem' k = mem k := by
  obtain ⟨cut, result, cuts, returned, call⟩ := parseTo_spec string safe enough
  exact ⟨⟨cut, result, cuts, fun cut' other => other.unique cuts, returned, call⟩,
    splitAll_spec string safe enough (Nat.lt_succ_self _)⟩

def memoryOf (text : Text) : Memory := fun k => if 0 ≤ k then text.getD k.toNat nul else nul

theorem parseTo_splits_list :
    ∃ mem' strings pieces,
      splitAll { spaceCompress := true, eval := evStrip } ',' 9 8
        (memoryOf ['{', 'a', ',', '}', ',', ' ', 'b']) 0 = some (mem', strings) ∧
      Pieces { spaceCompress := true, eval := evStrip } ',' ['{', 'a', ',', '}', ',', ' ', 'b']
        pieces ∧
      List.Forall₂ (Shows { spaceCompress := true, eval := evStrip } mem') strings pieces ∧
      ∀ k, k < 0 ∨ 0 + 7 < k →
        mem' k = memoryOf ['{', 'a', ',', '}', ',', ' ', 'b'] k :=
  (parseTo_splits { spaceCompress := true, eval := evStrip } ',' 9
    (memoryOf ['{', 'a', ',', '}', ',', ' ', 'b']) 0 ['{', 'a', ',', '}', ',', ' ', 'b']
    ⟨⟨rfl, rfl, rfl, rfl, rfl, rfl, rfl, rfl, trivial⟩, by decide⟩
    (fun _ => by decide) (by decide)).2

/-- Where `*dstr` is after a call for a string at the start of the memory. -/
def cutPlace (mode : Mode) (delim : Char) (text : Text) : Option (Option Int) :=
  (parseTo mode delim (text.length + 2) (memoryOf text) 0).map Result.dstr

/-- A comma behind 33 opening and 32 closing parentheses, a bracket inside a parenthesis, a
comma behind a bracket in an escape code and behind one in braces cut; an escape character and
a brace do not, nor does the blank at the start of a string. -/
theorem parseTo_exceptions :
    cutPlace { spaceCompress := false, eval := 0 } ','
      (List.replicate 33 '(' ++ List.replicate 32 ')' ++ [',']) = some (some 66) ∧
    cutPlace { spaceCompress := false, eval := 0 } ']' ['(', ']'] = some (some 2) ∧
    cutPlace { spaceCompress := false, eval := 0 } ',' [escChar, '[', ','] = some (some 3) ∧
    cutPlace { spaceCompress := false, eval := 0 } ',' ['{', '(', '}', ','] = some (some 4) ∧
    cutPlace { spaceCompress := false, eval := 0 } '%' ['%'] = some none ∧
    cutPlace { spaceCompress := false, eval := 0 } '\\' ['\\'] = some none ∧
    cutPlace { spaceCompress := false, eval := 0 } '{' ['{'] = some none ∧
    cutPlace { spaceCompress := true, eval := 0 } ' ' [' ', 'a', ' ', 'b'] = some (some 3) := by
  decide +kernel

end BattletechMux.Parsing
