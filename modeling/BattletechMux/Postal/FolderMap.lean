/-
Module: BattletechMux.Postal.FolderMap
Purpose: The names of mail folders are a map, in both directions, as long as players own
  themselves, no name is given to two folders, none is the number of a folder whose token does not
  come earlier, and the text fits.
-/
import Mathlib
import BattletechMux.Postal.Folders
import BattletechMux.Foundation.Machine

namespace BattletechMux.Postal.Folders

open List hiding all_eq_true map_map
open Option hiding all all_eq_true map map_map

open CText (isSpace decimal atoi strstr)

/-! ## Words -/

section Words

def Word (w : Text) : Prop := ∀ c ∈ w, c.isAlphanum = true

variable {w w' rest rest' : Text} {c c' : Char}

theorem word_decimal (fld : Nat) : Word (decimal fld) := by
  intro c mem
  rcases CText.decimal_chars mem with rfl | digit
  · rw [decimal, if_neg (by omega)] at mem
    exact absurd (CText.isDigit_of_mem mem) (by decide)
  · simp [Char.isAlphanum, digit]

theorem digit_decimal {fld : Nat} (mem : c ∈ decimal fld) : c.isDigit = true := by
  rw [decimal, if_neg (by omega)] at mem
  exact CText.isDigit_of_mem mem

theorem decimal_ne_nil (fld : Nat) : decimal fld ≠ [] := by
  rw [decimal, if_neg (by omega)]
  exact Nat.toDigits_ne_nil

theorem decimal_injective {m n : Nat} (eq : decimal m = decimal n) : m = n := by
  have parts := @CText.decimal_inj m n [] [] (by simp [CText.Stops]) (by simp [CText.Stops])
    (by simpa using eq)
  exact_mod_cast parts.1

theorem word_split (word : Word w) (word' : Word w') (stop : c.isAlphanum = false)
    (stop' : c'.isAlphanum = false) (eq : w ++ c :: rest = w' ++ c' :: rest') :
    w = w' ∧ c = c' ∧ rest = rest' := by
  have fst : w = w' := by
    have taken := congrArg (List.takeWhile Char.isAlphanum) eq
    rwa [takeWhile_append_of_pos word, takeWhile_append_of_pos word',
      takeWhile_cons_of_neg (by simp [stop]), takeWhile_cons_of_neg (by simp [stop']),
      append_nil, append_nil] at taken
  subst fst
  exact ⟨rfl, cons.inj (append_cancel_left eq)⟩

theorem toLower_eq_iff (plain : c'.isAlpha = false) : c.toLower = c'.toLower ↔ c = c' := by
  refine ⟨fun eq => ?_, fun eq => by rw [eq]⟩
  have plain₂ : c.isAlpha = false := by
    rw [← Char.isAlpha_toLower_eq_isAlpha, eq, Char.isAlpha_toLower_eq_isAlpha, plain]
  rw [Char.isAlpha, Bool.or_eq_false_iff] at plain plain₂
  rwa [@Char.toLower_eq_of_not_isUpper c (by simp [plain₂.1]),
    @Char.toLower_eq_of_not_isUpper c' (by simp [plain.1])] at eq

theorem not_isAlpha_of_isDigit (digit : c.isDigit = true) : c.isAlpha = false := by
  simp only [Char.isDigit, Char.isAlpha, Char.isUpper, Char.isLower, Bool.and_eq_true,
    decide_eq_true_eq, Bool.or_eq_false_iff, Bool.and_eq_false_imp, decide_eq_false_iff_not,
    ge_iff_le, UInt32.le_iff_toNat_le] at *
  have nine : '9'.val.toNat = 57 := rfl
  have capital : 'A'.val.toNat = 65 := rfl
  have small : 'a'.val.toNat = 97 := rfl
  omega

theorem stringPrefix_word {digits : Text} (number : ∀ c ∈ digits, c.isDigit = true)
    (word : Word w) (stop : c.isAlphanum = false) :
    stringPrefix (w ++ c :: rest) (digits ++ [':']) ≠ 0 ↔ w = digits ∧ c = ':' := by
  have counted : ∀ count, prefixLoop (w ++ c :: rest) (digits ++ [':']) count ≠ 0 ↔
      w = digits ∧ c = ':' := by
    induction digits generalizing w with
    | nil =>
      intro count
      cases w with
      | nil =>
        by_cases colon : c = ':'
        · subst colon
          simp [prefixLoop]
        · have differ : ¬c.toLower = ':' :=
            mt (toLower_eq_iff (show ':'.isAlpha = false by decide)).mp colon
          simp [prefixLoop, differ, colon]
      | cons x w =>
        have differ : x ≠ ':' := by
          rintro rfl
          exact absurd (word ':' (by simp)) (by decide)
        have differ' : ¬x.toLower = ':' :=
          mt (toLower_eq_iff (show ':'.isAlpha = false by decide)).mp differ
        simp [prefixLoop, differ']
    | cons d digits ih =>
      intro count
      have digit := number d (by simp)
      have plain := not_isAlpha_of_isDigit digit
      cases w with
      | nil =>
        have differ : c ≠ d := by
          rintro rfl
          rw [Char.isAlphanum, digit, Bool.or_true] at stop
          exact Bool.noConfusion stop
        have differ' := mt (toLower_eq_iff plain).mp differ
        simp [prefixLoop, differ']
      | cons x w =>
        rw [cons_append, cons_append, prefixLoop]
        by_cases eq : x = d
        · subst eq
          rw [if_pos rfl, ih (fun c mem => number c (by simp [mem]))
            (fun c mem => word c (by simp [mem]))]
          simp
        · rw [if_neg (mt (toLower_eq_iff plain).mp eq)]
          simp [eq]
  exact counted 0

def AtWord (rest : Text) : Prop := ∀ c ∈ rest.head?, c.isAlphanum = true

theorem matchLoop_word (sub : Text) {seps : Text} (word : Word w) (some' : w ≠ [])
    (stop : c.isAlphanum = false) (apart : ∀ c ∈ seps, c.isAlphanum = false)
    (atWord : AtWord rest) (limit : Nat) :
    matchLoop sub (limit + 1) (w ++ c :: (seps ++ rest)) =
      if stringPrefix (w ++ c :: (seps ++ rest)) sub ≠ 0 then some (w ++ c :: (seps ++ rest))
      else matchLoop sub limit rest := by
  have passed : ((w ++ c :: (seps ++ rest)).dropWhile Char.isAlphanum).dropWhile
      (fun c => !c.isAlphanum) = rest := by
    rw [dropWhile_append_of_pos word, dropWhile_cons_of_neg (by simp [stop]),
      dropWhile_cons_of_pos (by simp [stop]),
      dropWhile_append_of_pos (by simpa using apart)]
    cases rest with
    | nil => rfl
    | cons fst rest => exact dropWhile_cons_of_neg (by simp [atWord fst rfl])
  obtain ⟨fst, others, rfl⟩ := exists_cons_of_ne_nil some'
  rw [cons_append, matchLoop, ← cons_append, passed]

end Words

/-! ## The tokens of the text -/

/-- A token, with one blank behind it and `gap` more. -/
structure Entry where
  fld : Nat
  name : Text
  gap : Nat

def Entry.text (e : Entry) : Text := token e.fld e.name ++ ' ' :: List.replicate e.gap ' '

def render (entries : List Entry) : Text := entries.flatMap Entry.text

structure Tidy (e : Entry) : Prop where
  fld : e.fld ≤ maxFolders
  word : Word e.name
  some' : e.name ≠ []

section Tokens

variable {e : Entry} {entries before after : List Entry} {rest : Text} {f : Nat}

theorem text_append (e : Entry) (rest : Text) : e.text ++ rest = decimal e.fld ++ ':' ::
    (e.name ++ ':' :: (decimal e.fld ++ ' ' :: (List.replicate e.gap ' ' ++ rest))) := by
  simp [Entry.text, token]

theorem render_cons : render (e :: entries) = e.text ++ render entries := rfl

theorem render_append : render (before ++ after) = render before ++ render after :=
  flatMap_append

theorem atWord_append {w : Text} (word : Word w) (some' : w ≠ []) : AtWord (w ++ rest) := by
  obtain ⟨fst, others, rfl⟩ := exists_cons_of_ne_nil some'
  intro c is
  obtain rfl : fst = c := by simpa using is
  exact word fst (by simp)

theorem atWord_render (entries : List Entry) : AtWord (render entries) := by
  cases entries with
  | nil => simp [AtWord, render]
  | cons e entries =>
    rw [render_cons, text_append]
    exact atWord_append (word_decimal e.fld) (decimal_ne_nil e.fld)

theorem six_le_text (some' : e.name ≠ []) (rest : Text) :
    rest.length + 6 ≤ (e.text ++ rest).length := by
  have digits := length_pos_of_ne_nil (decimal_ne_nil e.fld)
  have letters := length_pos_of_ne_nil some'
  simp only [text_append, length_append, length_cons]
  omega

theorem matchLoop_here (eq : e.fld = f) (limit : Nat) :
    matchLoop (decimal f ++ [':']) (limit + 1) (e.text ++ rest) = some (e.text ++ rest) := by
  subst eq
  have hf : stringPrefix (e.text ++ rest) (decimal e.fld ++ [':']) ≠ 0 := by
    rw [text_append]
    exact (stringPrefix_word (fun _ => digit_decimal) (word_decimal e.fld)
      (show ':'.isAlphanum = false by decide)).mpr ⟨rfl, rfl⟩
  obtain ⟨fst, others, split⟩ := exists_cons_of_ne_nil
    (ne_nil_of_length_pos (l := e.text ++ rest) (by
      rw [text_append]
      simp))
  rw [split] at hf ⊢
  rw [matchLoop, if_pos hf]

theorem matchLoop_past (tidy : Tidy e) (o : e.fld ≠ f) (otherName : e.name ≠ decimal f)
    (atWord : AtWord rest) (limit : Nat) :
    matchLoop (decimal f ++ [':']) (limit + 3) (e.text ++ rest) =
      matchLoop (decimal f ++ [':']) limit rest := by
  have number : ∀ c ∈ decimal f, c.isDigit = true := fun _ => digit_decimal
  have colon : ':'.isAlphanum = false := by decide
  have blank : ' '.isAlphanum = false := by decide
  have blanks : ∀ c ∈ List.replicate e.gap ' ', c.isAlphanum = false := fun c mem =>
    (mem_replicate.mp mem).2 ▸ blank
  have digits := word_decimal e.fld
  have digits' := decimal_ne_nil e.fld
  rw [text_append]
  have fst := matchLoop_word (decimal f ++ [':']) digits digits' colon (forall_mem_nil _)
    (@atWord_append (':' :: (decimal e.fld ++ ' ' :: (List.replicate e.gap ' ' ++ rest))) e.name
      tidy.word tidy.some') (limit + 2)
  have snd := matchLoop_word (decimal f ++ [':']) tidy.word tidy.some' colon
    (forall_mem_nil _)
    (@atWord_append (' ' :: (List.replicate e.gap ' ' ++ rest)) (decimal e.fld) digits digits')
    (limit + 1)
  have third := matchLoop_word (decimal f ++ [':']) digits digits' blank blanks atWord limit
  rw [nil_append] at fst snd
  rw [fst, if_neg, snd, if_neg, third, if_neg]
  · rw [stringPrefix_word number digits blank]
    exact fun is => absurd is.2 (by decide)
  · rw [stringPrefix_word number tidy.word colon]
    exact fun is => otherName is.1
  · rw [stringPrefix_word number digits colon]
    exact fun is => o (decimal_injective is.1)

theorem matchLoop_render (after : List Entry) (tidy : ∀ e ∈ before, Tidy e)
    (missing : ∀ e ∈ before, e.fld ≠ f ∧ e.name ≠ decimal f) {limit : Nat}
    (hlt : (render (before ++ after)).length < limit) :
    ∃ left, (render after).length < left ∧
      matchLoop (decimal f ++ [':']) limit (render (before ++ after)) =
        matchLoop (decimal f ++ [':']) left (render after) := by
  induction before generalizing limit with
  | nil => exact ⟨limit, hlt, rfl⟩
  | cons e before ih =>
    have fst := tidy e (by simp)
    have long := six_le_text fst.some' (render (before ++ after))
    rw [cons_append, render_cons] at hlt ⊢
    obtain ⟨left, rfl⟩ : ∃ left, limit = left + 3 := ⟨limit - 3, by omega⟩
    rw [matchLoop_past fst (missing e (by simp)).1 (missing e (by simp)).2
      (atWord_render _) left]
    exact ih (fun e mem => tidy e (by simp [mem]))
      (fun e mem => missing e (by simp [mem])) (by omega)

theorem stringMatch_some (tidy : ∀ e ∈ before, Tidy e)
    (missing : ∀ e ∈ before, e.fld ≠ f ∧ e.name ≠ decimal f) (eq : e.fld = f) :
    stringMatch (render (before ++ e :: after)) (decimal f ++ [':']) =
      some (e.text ++ render after) := by
  obtain ⟨left, hlt, ran⟩ := matchLoop_render (e :: after) tidy missing
    (Nat.lt_succ_self _)
  obtain ⟨left, rfl⟩ : ∃ n, left = n + 1 := ⟨left - 1, by omega⟩
  rw [stringMatch, if_neg (by simp), ran, render_cons]
  exact matchLoop_here eq left

theorem stringMatch_none (tidy : ∀ e ∈ entries, Tidy e)
    (missing : ∀ e ∈ entries, e.fld ≠ f ∧ e.name ≠ decimal f) :
    stringMatch (render entries) (decimal f ++ [':']) = none := by
  obtain ⟨left, -, ran⟩ := matchLoop_render [] tidy missing
    (Nat.lt_succ_self (render (entries ++ [])).length)
  rw [append_nil] at ran
  rw [stringMatch, if_neg (by simp), ran]
  cases left <;> rfl

end Tokens

/-! ## strstr -/

section Strstr

variable {e : Entry} {entries before after : List Entry} {rest n : Text}

theorem name_at_word {w : Text} {c : Char} (name : Word n) (word : Word w)
    (stop : c.isAlphanum = false) : n ++ [':'] <+: w ++ c :: rest ↔ n = w ∧ c = ':' := by
  constructor
  · rintro ⟨more, eq⟩
    rw [append_assoc] at eq
    have split := word_split name word (by decide) stop eq
    exact ⟨split.1, split.2.1.symm⟩
  · rintro ⟨rfl, rfl⟩
    exact ⟨rest, by simp⟩

theorem colon_not_mem {w : Text} (word : Word w) : ':' ∉ w := fun mem =>
  absurd (word ':' mem) (by decide)

theorem strstr_here (tidy : Tidy e) (rest : Text) :
    strstr (':' :: (e.name ++ [':'])) (e.text ++ rest) = some (decimal e.fld).length := by
  rw [text_append, CText.strstr_skip (colon_not_mem (word_decimal e.fld)),
    CText.strstr_of_prefix (cons_prefix_cons.mpr ⟨rfl, (name_at_word tidy.word tidy.word
      (show ':'.isAlphanum = false by decide)).mpr ⟨rfl, rfl⟩⟩)]
  rfl

theorem strstr_past (tidy : Tidy e) (name : Word n) (o : n ≠ e.name) :
    strstr (':' :: (n ++ [':'])) (e.text ++ rest) =
      (strstr (':' :: (n ++ [':'])) rest).map (e.text.length + ·) := by
  have digits := word_decimal e.fld
  have blanks : ':' ∉ ' ' :: List.replicate e.gap ' ' := by
    intro mem
    rw [← replicate_succ] at mem
    exact absurd (mem_replicate.mp mem).2 (by decide)
  have fst : ¬ ':' :: (n ++ [':']) <+: ':' ::
      (e.name ++ ':' :: (decimal e.fld ++ ' ' :: (List.replicate e.gap ' ' ++ rest))) := by
    rw [cons_prefix_cons, name_at_word name tidy.word (by decide)]
    exact fun is => o is.2.1
  have snd : ¬ ':' :: (n ++ [':']) <+: ':' ::
      (decimal e.fld ++ ' ' :: (List.replicate e.gap ' ' ++ rest)) := by
    rw [cons_prefix_cons, name_at_word name digits (by decide)]
    exact fun is => absurd is.2.2 (by decide)
  rw [text_append, CText.strstr_skip (colon_not_mem digits), CText.strstr_cons_of_not fst,
    CText.strstr_skip (colon_not_mem tidy.word), CText.strstr_cons_of_not snd,
    CText.strstr_skip (colon_not_mem digits),
    ← @cons_append _ ' ' (List.replicate e.gap ' ') rest, CText.strstr_skip blanks]
  simp only [Option.map_map]
  congr 1
  funext place
  simp only [Function.comp_apply, Entry.text, token, length_append, length_cons]
  omega

theorem strstr_render (tidy : ∀ e ∈ before, Tidy e) (name : Word n)
    (missing : ∀ e ∈ before, n ≠ e.name) (rest : Text) :
    strstr (':' :: (n ++ [':'])) (render before ++ rest) =
      (strstr (':' :: (n ++ [':'])) rest).map ((render before).length + ·) := by
  induction before with
  | nil => simp [render]
  | cons e before ih =>
    rw [render_cons, append_assoc,
      strstr_past (tidy e (by simp)) name (missing e (by simp)),
      ih (fun e mem => tidy e (by simp [mem]))
        (fun e mem => missing e (by simp [mem])), Option.map_map]
    congr 1
    funext place
    simp only [Function.comp_apply, length_append]
    omega

theorem atoi_decimal {f : Nat} (small : f ≤ maxFolders) (rest : Text) :
    atoi (decimal f ++ ' ' :: rest) = f := by
  have bound : f ≤ 15 := small
  rw [atoi, CText.scanInt_decimal f (CText.stops_cons (by decide) rest)]
  exact CText.stored_of_bounds (n := (f : Int)) (by omega) (by omega)

end Strstr

/-! ## replace_string -/

section Replace

variable {e : Entry} {entries before after : List Entry} {rest n new : Text} {f : Nat}

theorem token_at_word {w : Text} {c : Char} (word : Word w) (stop : c.isAlphanum = false)
    (hf : token f n <+: w ++ c :: rest) :
    decimal f = w ∧ c = ':' ∧ n ++ ':' :: decimal f <+: rest := by
  obtain ⟨more, eq⟩ := hf
  rw [token, append_assoc, append_assoc, cons_append] at eq
  obtain ⟨is, colon, behind⟩ := word_split (word_decimal f) word (by decide) stop eq
  exact ⟨is, colon.symm, more, by rw [← behind, append_assoc]⟩

theorem replaceLoop_word {w : Text} {c : Char} (word : Word w) (stop : c.isAlphanum = false)
    (absent : ¬(c = ':' ∧ n ++ ':' :: decimal f <+: rest)) :
    replaceLoop (token f n) new (w ++ c :: rest) 0 =
      w ++ c :: replaceLoop (token f n) new rest 0 := by
  have not_at : ∀ w, Word w → ¬token f n <+: w ++ c :: rest := fun w word hf =>
    absent (token_at_word word stop hf).2
  induction w with
  | nil =>
    have absent' : ¬token f n <+: c :: rest := not_at [] word
    rw [nil_append, replaceLoop, if_neg absent']
    rfl
  | cons x w ih =>
    have absent' : ¬token f n <+: x :: (w ++ c :: rest) := not_at (x :: w) word
    rw [cons_append, replaceLoop, if_neg absent',
      ih fun c mem => word c (by simp [mem])]
    rfl

theorem replaceLoop_blanks (gap : Nat) : replaceLoop (token f n) new
    (List.replicate gap ' ' ++ rest) 0 =
      List.replicate gap ' ' ++ replaceLoop (token f n) new rest 0 := by
  induction gap with
  | zero => rfl
  | succ gap ih =>
    have blank := @replaceLoop_word (List.replicate gap ' ' ++ rest) n new f [] ' ' (by simp [Word])
      (by decide) (fun is => absurd is.1 (by decide))
    rw [nil_append, nil_append] at blank
    rw [replicate_succ, cons_append, blank, ih]
    rfl

theorem replaceLoop_past (tidy : Tidy e) (name : Word n) (o : n ≠ e.name) :
    replaceLoop (token f n) new (e.text ++ rest) 0 =
      e.text ++ replaceLoop (token f n) new rest 0 := by
  have colon : ':'.isAlphanum = false := by decide
  have digits := word_decimal e.fld
  rw [text_append, text_append, replaceLoop_word digits colon, replaceLoop_word tidy.word colon,
    replaceLoop_word digits (by decide), replaceLoop_blanks]
  · exact fun is => absurd is.1 (by decide)
  · rintro ⟨_, more, eq⟩
    rw [append_assoc] at eq
    exact absurd (word_split name digits colon (by decide) eq).2.1 (by decide)
  · rintro ⟨_, more, eq⟩
    rw [append_assoc] at eq
    exact o (word_split name tidy.word colon colon eq).1

theorem replaceLoop_skip (old new s : Text) (skip : Nat) :
    replaceLoop old new s skip = replaceLoop old new (s.drop skip) 0 := by
  induction s generalizing skip with
  | nil => cases skip <;> rfl
  | cons c s ih =>
    cases skip with
    | zero => rfl
    | succ skip => exact ih skip

theorem replaceLoop_here (e : Entry) (rest : Text) :
    replaceLoop (token e.fld e.name) new (e.text ++ rest) 0 =
      new ++ ' ' :: (List.replicate e.gap ' ' ++ replaceLoop (token e.fld e.name) new rest 0) := by
  obtain ⟨c, s, split⟩ : ∃ c s, token e.fld e.name = c :: s :=
    exists_cons_of_ne_nil (by simp [token])
  have text : e.text ++ rest = c :: (s ++ ' ' :: (List.replicate e.gap ' ' ++ rest)) := by
    rw [Entry.text, split]
    simp
  have hf : token e.fld e.name <+: c :: (s ++ ' ' :: (List.replicate e.gap ' ' ++ rest)) := by
    rw [split]
    exact ⟨_, cons_append⟩
  have behind : (s ++ ' ' :: (List.replicate e.gap ' ' ++ rest)).drop
      ((token e.fld e.name).length - 1) = List.replicate (e.gap + 1) ' ' ++ rest := by
    rw [split, length_cons, Nat.add_sub_cancel, drop_left]
    rfl
  rw [text, replaceLoop, if_pos hf, replaceLoop_skip, behind, replaceLoop_blanks]
  rfl

theorem replaceLoop_render (tidy : ∀ e ∈ before, Tidy e) (name : Word n)
    (missing : ∀ e ∈ before, n ≠ e.name) (rest : Text) :
    replaceLoop (token f n) new (render before ++ rest) 0 =
      render before ++ replaceLoop (token f n) new rest 0 := by
  induction before with
  | nil => rfl
  | cons e before ih =>
    rw [render_cons, append_assoc,
      replaceLoop_past (tidy e (by simp)) name (missing e (by simp)),
      ih (fun e mem => tidy e (by simp [mem]))
        (fun e mem => missing e (by simp [mem])), append_assoc]

end Replace

/-! ## The functions -/

/-- Each folder and each name is there once, and a name that is the number of another folder
comes behind the token of that folder. -/
structure Good (entries : List Entry) : Prop where
  tidy : ∀ e ∈ entries, Tidy e
  flds : (entries.map Entry.fld).Nodup
  names : (entries.map Entry.name).Nodup
  numbers : ∀ e ∈ entries, ∀ k ≤ maxFolders, k ≠ e.fld → e.name = decimal k →
    k ∈ (entries.map Entry.fld).takeWhile (· != e.fld)

section Functions

variable {e : Entry} {entries before after : List Entry} {name : Text} {f : Nat} {player : Dbref}

theorem render_eq_nil : render entries = [] ↔ entries = [] := by
  cases entries with
  | nil => simp [render]
  | cons e entries => simp [render_cons, text_append]

section

variable (good : Good (before ++ e :: after))
include good

theorem Good.fld_ne {e' : Entry} (mem : e' ∈ before ++ after) : e'.fld ≠ e.fld := by
  have nodup := good.flds
  rw [map_append, map_cons, nodup_middle, nodup_cons, ← map_append]
    at nodup
  exact fun eq => nodup.1 (mem_map.mpr ⟨e', mem, eq⟩)

theorem Good.name_ne {e' : Entry} (mem : e' ∈ before ++ after) : e.name ≠ e'.name := by
  have nodup := good.names
  rw [map_append, map_cons, nodup_middle, nodup_cons, ← map_append]
    at nodup
  exact fun eq => nodup.1 (mem_map.mpr ⟨e', mem, eq.symm⟩)

theorem Good.takeWhile_flds :
    ((before ++ e :: after).map Entry.fld).takeWhile (· != e.fld) = before.map Entry.fld := by
  rw [map_append, map_cons, takeWhile_append_of_pos,
    takeWhile_cons_of_neg (by simp), append_nil]
  intro k mem
  obtain ⟨e', member', rfl⟩ := mem_map.mp mem
  exact bne_iff_ne.mpr (good.fld_ne (mem_append_left after member'))

theorem Good.tidyBefore : ∀ e ∈ before, Tidy e :=
  fun e mem => good.tidy e (mem_append_left _ mem)

theorem Good.missing (small : e.fld ≤ maxFolders) :
    ∀ e' ∈ before, e'.fld ≠ e.fld ∧ e'.name ≠ decimal e.fld := by
  intro e' mem
  have o := good.fld_ne (mem_append_left after mem)
  refine ⟨o, fun number => ?_⟩
  obtain ⟨fst, snd, rfl⟩ := append_of_mem mem
  have earlier := good.numbers e' (by simp) e.fld small (Ne.symm o) number
  have good₂ := good
  rw [append_assoc, cons_append] at good₂ earlier
  rw [good₂.takeWhile_flds] at earlier
  obtain ⟨e₂, member₂, eq⟩ := mem_map.mp earlier
  exact good.fld_ne (by simp [member₂]) eq

end

theorem Good.missing_of_new (good : Good entries) (small : f ≤ maxFolders)
    (new : f ∉ entries.map Entry.fld) : ∀ e ∈ entries, e.fld ≠ f ∧ e.name ≠ decimal f := by
  intro e mem
  have o : e.fld ≠ f := fun eq => new (mem_map.mpr ⟨e, mem, eq⟩)
  refine ⟨o, fun number => ?_⟩
  exact new (takeWhile_subset _ (good.numbers e mem f small (Ne.symm o) number))

theorem getFolderName_some (good : Good (before ++ e :: after)) :
    getFolderName (render (before ++ e :: after)) e.fld = some e.name := by
  have small := (good.tidy e (by simp)).fld
  have word := (good.tidy e (by simp)).word
  have named : (e.text ++ render after).drop (decimal e.fld ++ [':']).length =
      e.name ++ ':' :: (decimal e.fld ++ ' ' :: (List.replicate e.gap ' ' ++ render after)) := by
    rw [text_append, append_cons (decimal e.fld) ':' (e.name ++ _), drop_left]
  rw [getFolderName, if_neg (mt render_eq_nil.mp (by simp)),
    stringMatch_some good.tidyBefore (good.missing small) rfl]
  dsimp only
  rw [named, if_pos (by simp), takeWhile_append_of_pos, takeWhile_cons_of_neg (by simp),
    append_nil]
  intro c mem
  exact bne_iff_ne.mpr fun is => colon_not_mem word (is ▸ mem)

theorem getFolderName_none (good : Good entries) (small : f ≤ maxFolders)
    (new : f ∉ entries.map Entry.fld) :
    getFolderName (render entries) f = some "unnamed".toList := by
  rw [getFolderName]
  by_cases empty : render entries = []
  · rw [if_pos empty]
  · rw [if_neg empty, stringMatch_none good.tidy (good.missing_of_new small new)]

theorem getFolderNumber_some (good : Good (before ++ e :: after)) (is : upcasestr name = e.name) :
    getFolderNumber (render (before ++ e :: after)) name = some (e.fld : Int) := by
  have tidy := good.tidy e (by simp)
  have length : name.length = e.name.length := by rw [← is, upcasestr, length_map]
  have hf : strstr (':' :: upcasestr name ++ [':']) (render (before ++ e :: after)) =
      some ((render before).length + (decimal e.fld).length) := by
    rw [is, render_append, render_cons, cons_append,
      strstr_render good.tidyBefore tidy.word
        (fun e' mem => good.name_ne (mem_append_left after mem)),
      strstr_here tidy]
    rfl
  have behind : (render (before ++ e :: after)).drop
      ((render before).length + (decimal e.fld).length + (2 + name.length)) =
      decimal e.fld ++ ' ' :: (List.replicate e.gap ' ' ++ render after) := by
    rw [render_append, render_cons, text_append, Nat.add_assoc, ← drop_drop, drop_left,
      ← drop_drop, drop_left, length, Nat.add_comm 2, drop_succ_cons,
      ← drop_drop (i := 1), drop_left]
    rfl
  rw [getFolderNumber, if_neg (mt render_eq_nil.mp (by simp)), hf]
  dsimp only
  rw [behind, if_pos (by simp [isSpace]), atoi_decimal tidy.fld]

theorem getFolderNumber_none (good : Good entries) (word : Word (upcasestr name))
    (missing : ∀ e ∈ entries, upcasestr name ≠ e.name) :
    getFolderNumber (render entries) name = some (-1) := by
  rw [getFolderNumber]
  by_cases empty : render entries = []
  · rw [if_pos empty]
  · have absent : strstr (':' :: upcasestr name ++ [':']) (render entries) = none := by
      have ran := strstr_render good.tidy word missing []
      rw [append_nil] at ran
      rw [cons_append, ran]
      rfl
    rw [if_neg empty, absent]

theorem atrAdd_of_room {attrs : Attributes} {text : Text} (some' : text ≠ [])
    (room : (info player).length + text.length ≤ lbufSize - 1) :
    atrAdd attrs player text player = Function.update attrs player (some ⟨player, text⟩) := by
  rw [atrAdd, if_neg some', take_of_length_le (by simpa using room), drop_left]

theorem takeWhile_text (tidy : Tidy e) (rest : Text) :
    (e.text ++ rest).takeWhile (fun c => !isSpace c) = token e.fld e.name := by
  have plain : ∀ w, Word w → ∀ c ∈ w, (!isSpace c) = true := by
    intro w word c mem
    have letter := word c mem
    by_contra space
    rw [Bool.not_eq_true, Bool.not_eq_false', isSpace, decide_eq_true_eq] at space
    rcases space with rfl | ⟨low, high⟩
    · exact absurd letter (by decide)
    · have low' : 9 ≤ c.toNat := low
      have high' : c.toNat ≤ 13 := high
      simp only [Char.isAlphanum, Char.isAlpha, Char.isUpper, Char.isLower, Char.isDigit,
        Bool.or_eq_true, Bool.and_eq_true, decide_eq_true_eq, ge_iff_le,
        UInt32.le_iff_toNat_le] at letter
      have value : c.toNat = c.val.toNat := rfl
      have nought : '0'.val.toNat = 48 := rfl
      have capital : 'A'.val.toNat = 65 := rfl
      have small : 'a'.val.toNat = 97 := rfl
      omega
  have digits := plain _ (word_decimal e.fld)
  have whole : ∀ c ∈ token e.fld e.name, (!isSpace c) = true := by
    intro c mem
    simp only [token, mem_append, mem_cons] at mem
    rcases mem with (inNumber | rfl | inName) | rfl | inNumber
    · exact digits c inNumber
    · rfl
    · exact plain _ tidy.word c inName
    · rfl
    · exact digits c inNumber
  rw [Entry.text, append_assoc, cons_append, takeWhile_append_of_pos whole,
    takeWhile_cons_of_neg (by simp [isSpace]), append_nil]

theorem renamed_old (good : Good (before ++ e :: after))
    (room : (info player).length + (render (before ++ e :: after)).length +
      (token e.fld (upcasestr name)).length + 1 ≤
        lbufSize - 1 + (token e.fld e.name).length) :
    let text := render (before ++ ⟨e.fld, upcasestr name, e.gap + 1⟩ :: after)
    renamed e.fld name (render (before ++ e :: after)) = some text ∧
      (info player).length + text.length ≤ lbufSize - 1 := by
  intro text
  have tidy := good.tidy e (by simp)
  have replaced : replaceLoop (token e.fld e.name) (token e.fld (upcasestr name) ++ [' '])
      (render (before ++ e :: after)) 0 = text := by
    have behind := @replaceLoop_render after e.name (token e.fld (upcasestr name) ++ [' ']) e.fld
      (fun e mem => good.tidy e (by simp [mem])) tidy.word
      (fun e' mem => good.name_ne (mem_append_right before mem)) []
    rw [append_nil] at behind
    rw [render_append, render_cons, replaceLoop_render good.tidyBefore tidy.word
      (fun e' mem => good.name_ne (mem_append_left after mem)), replaceLoop_here, behind,
      show text = _ from render_append, render_cons]
    simp [Entry.text, replaceLoop, replicate_succ]
  have length : text.length + (token e.fld e.name).length =
      (render (before ++ e :: after)).length + (token e.fld (upcasestr name)).length + 1 := by
    simp only [text, render_append, render_cons, Entry.text, length_append, length_cons,
      length_replicate]
    omega
  refine ⟨?_, by omega⟩
  rw [renamed, if_neg (mt render_eq_nil.mp (by simp)),
    stringMatch_some good.tidyBefore (good.missing tidy.fld) rfl]
  dsimp only
  rw [if_pos (by simp [text_append, isSpace]), takeWhile_text tidy, replaceString,
    if_neg (by simp [token]), replaced, take_of_length_le (by omega)]

theorem renamed_new (good : Good entries) (small : f ≤ maxFolders)
    (new : f ∉ entries.map Entry.fld)
    (room : (info player).length + (render entries).length +
      (token f (upcasestr name)).length + 1 ≤ lbufSize - 1) :
    let text := render (entries ++ [⟨f, upcasestr name, 0⟩])
    renamed f name (render entries) = some text ∧
      (info player).length + text.length ≤ lbufSize - 1 := by
  intro text
  have none' : (if render entries = [] then none
      else stringMatch (render entries) (decimal f ++ [':'])) = none := by
    by_cases empty : render entries = []
    · rw [if_pos empty]
    · rw [if_neg empty, stringMatch_none good.tidy (good.missing_of_new small new)]
  have appended : render entries ++ (token f (upcasestr name) ++ [' ']) = text := by
    simp [text, render, Entry.text]
  have length := congrArg List.length appended
  simp only [length_append, length_singleton] at length
  refine ⟨?_, by omega⟩
  rw [renamed, none']
  dsimp only
  rw [appended, take_of_length_le (by omega)]

end Functions

/-! ## Runs -/

def named (ops : List Naming) (player : Dbref) : Nat → Option Text :=
  ops.foldl (fun names op => if op.player = player
    then Function.update names op.fld (some (upcasestr op.name)) else names) fun _ => none

def order (ops : List Naming) (player : Dbref) : List Nat :=
  ops.foldl (fun flds op => if op.player = player ∧ op.fld ∉ flds then flds ++ [op.fld]
    else flds) []

/-- The two functions of mail.c agree with the names, in both directions. -/
structure IsMap (text : Text) (names : Nat → Option Text) : Prop where
  name : ∀ f ≤ maxFolders, getFolderName text f = some ((names f).getD "unnamed".toList)
  number : ∀ n (f : Nat), names f = some (upcasestr n) → getFolderNumber text n = some (f : Int)
  unknown : ∀ n, accepted n = true → (∀ f, names f ≠ some (upcasestr n)) →
    getFolderNumber text n = some (-1)

/-- The player is its own owner, the name is no other folder's, it is not the number of another
folder that was named later or not at all, and the text has room for the token. -/
structure Fits (owner : Dbref → Dbref) (before : List Naming) (attrs : Attributes)
    (op : Naming) : Prop where
  own : owner op.player = op.player
  unique : ∀ g, g ≠ op.fld → named before op.player g ≠ some (upcasestr op.name)
  number : ∀ k ≤ maxFolders, k ≠ op.fld → upcasestr op.name = decimal k →
    k ∈ (order before op.player).takeWhile (· != op.fld)
  room : (info op.player).length + (attrs.text op.player).length +
      (token op.fld (upcasestr op.name)).length + 1 ≤
    lbufSize - 1 + ((named before op.player op.fld).elim 0 fun old => (token op.fld old).length)

def Kept (text : Text) (names : Nat → Option Text) (flds : List Nat) : Prop :=
  ∃ entries, text = render entries ∧ Good entries ∧ entries.map Entry.fld = flds ∧
    (∀ e ∈ entries, names e.fld = some e.name) ∧ ∀ f ∉ flds, names f = none

section Runs

variable {text : Text} {names : Nat → Option Text} {flds : List Nat}

variable {name : Text}

theorem word_upcasestr (word : Word name) : Word (upcasestr name) := by
  intro c mem
  obtain ⟨d, member', rfl⟩ := mem_map.mp mem
  have letter := word d member'
  rw [Char.isAlphanum, Bool.or_eq_true] at letter ⊢
  refine letter.imp (fun alpha => (Char.isAlpha_toUpper_eq_isAlpha d).trans alpha) fun digit => ?_
  have plain := not_isAlpha_of_isDigit digit
  rw [Char.isAlpha, Bool.or_eq_false_iff] at plain
  rwa [Char.toUpper_eq_of_not_isLower (by simp [plain.2])]

theorem accepted_word (ok : accepted name = true) :
    Word (upcasestr name) ∧ upcasestr name ≠ [] := by
  simp only [accepted, Bool.and_eq_true, Bool.not_eq_true', isEmpty_eq_false_iff,
    List.all_eq_true] at ok
  exact ⟨word_upcasestr ok.2, by simpa [upcasestr] using ok.1.1⟩

theorem kept_nil : Kept [] (fun _ => none) [] :=
  ⟨[], rfl, ⟨by simp, nodup_nil, nodup_nil, by simp⟩, rfl, by simp, fun _ _ => rfl⟩

theorem Kept.isMap (kept : Kept text names flds) : IsMap text names := by
  obtain ⟨entries, rfl, good, rfl, has, misses⟩ := kept
  have entry_of : ∀ {f : Nat} {n : Text}, names f = some n → ∃ e ∈ entries, e.fld = f ∧ e.name = n := by
    intro f n is
    by_cases hin : f ∈ entries.map Entry.fld
    · obtain ⟨e, mem, rfl⟩ := mem_map.mp hin
      exact ⟨e, mem, rfl, some.inj ((has e mem).symm.trans is)⟩
    · rw [misses f hin] at is
      cases is
  refine ⟨fun f small => ?_, fun n f is => ?_, fun n ok missing => ?_⟩
  · by_cases hin : f ∈ entries.map Entry.fld
    · obtain ⟨e, mem, rfl⟩ := mem_map.mp hin
      rw [has e mem]
      obtain ⟨before, after, rfl⟩ := append_of_mem mem
      exact getFolderName_some good
    · rw [misses f hin]
      exact getFolderName_none good small hin
  · obtain ⟨e, mem, rfl, name⟩ := entry_of is
    obtain ⟨before, after, rfl⟩ := append_of_mem mem
    exact getFolderNumber_some good name.symm
  · refine getFolderNumber_none good (accepted_word ok).1 fun e mem eq => ?_
    exact missing e.fld (by rw [has e mem, eq])

theorem takeWhile_append_of_mem {k : Nat} (hin : k ∈ flds) (more : List Nat) :
    (flds ++ more).takeWhile (· != k) = flds.takeWhile (· != k) := by
  induction flds with
  | nil => cases hin
  | cons f flds ih =>
    rw [cons_append]
    by_cases eq : f = k
    · rw [takeWhile_cons_of_neg (by simp [eq]), takeWhile_cons_of_neg (by simp [eq])]
    · rw [takeWhile_cons_of_pos (by simp [eq]), takeWhile_cons_of_pos (by simp [eq]),
        ih ((mem_cons.mp hin).resolve_left (Ne.symm eq))]

theorem Good.rename {e : Entry} {before after : List Entry} {gap : Nat}
    (good : Good (before ++ e :: after)) (word : Word name) (some' : name ≠ [])
    (unique : ∀ e' ∈ before ++ after, e'.name ≠ name)
    (number : ∀ k ≤ maxFolders, k ≠ e.fld → name = decimal k →
      k ∈ ((before ++ e :: after).map Entry.fld).takeWhile (· != e.fld)) :
    Good (before ++ ⟨e.fld, name, gap⟩ :: after) := by
  have same_flds : (before ++ ⟨e.fld, name, gap⟩ :: after).map Entry.fld =
      (before ++ e :: after).map Entry.fld := by simp
  have old : ∀ e' ∈ before ++ after, e' ∈ before ++ e :: after := fun e' mem =>
    perm_middle.mem_iff.mpr (mem_cons_of_mem e mem)
  refine ⟨?_, same_flds ▸ good.flds, ?_, ?_⟩
  · intro e' mem
    rcases mem_cons.mp (perm_middle.mem_iff.mp mem) with rfl | o
    · exact ⟨(good.tidy e (by simp)).fld, word, some'⟩
    · exact good.tidy e' (old e' o)
  · have nodup := good.names
    rw [map_append, map_cons, nodup_middle, nodup_cons, ← map_append]
      at nodup ⊢
    refine ⟨fun again => ?_, nodup.2⟩
    obtain ⟨e', mem, eq⟩ := mem_map.mp again
    exact unique e' mem eq
  · intro e' mem
    rw [same_flds]
    rcases mem_cons.mp (perm_middle.mem_iff.mp mem) with rfl | o
    · exact number
    · exact good.numbers e' (old e' o)

theorem Good.append {entries : List Entry} {f : Nat} {gap : Nat}
    (good : Good entries) (small : f ≤ maxFolders) (word : Word name) (some' : name ≠ [])
    (new : f ∉ entries.map Entry.fld) (unique : ∀ e ∈ entries, e.name ≠ name)
    (number : ∀ k ≤ maxFolders, k ≠ f → name = decimal k → k ∈ entries.map Entry.fld) :
    Good (entries ++ [⟨f, name, gap⟩]) := by
  refine ⟨?_, ?_, ?_, ?_⟩
  · intro e mem
    rcases mem_append.mp mem with old | last
    · exact good.tidy e old
    · rw [mem_singleton.mp last]
      exact ⟨small, word, some'⟩
  · rw [map_append, map_singleton]
    exact good.flds.append (nodup_singleton f) (disjoint_singleton.mpr new)
  · rw [map_append, map_singleton]
    refine good.names.append (nodup_singleton name) (disjoint_singleton.mpr fun again => ?_)
    obtain ⟨e, mem, eq⟩ := mem_map.mp again
    exact unique e mem eq
  · intro e mem k small' differ is
    rw [map_append, map_singleton]
    rcases mem_append.mp mem with old | last
    · rw [takeWhile_append_of_mem (mem_map_of_mem old)]
      exact good.numbers e old k small' differ is
    · obtain rfl := mem_singleton.mp last
      rw [takeWhile_append_of_pos fun k mem =>
        bne_iff_ne.mpr (ne_of_mem_of_not_mem mem new)]
      exact mem_append_left _ (number k small' differ is)

theorem kept_add {player : Dbref} {f : Nat} (kept : Kept text names flds)
    (small : f ≤ maxFolders) (ok : accepted name = true)
    (unique : ∀ g, g ≠ f → names g ≠ some (upcasestr name))
    (number : ∀ k ≤ maxFolders, k ≠ f → upcasestr name = decimal k → k ∈ flds.takeWhile (· != f))
    (room : (info player).length + text.length + (token f (upcasestr name)).length + 1 ≤
      lbufSize - 1 + ((names f).elim 0 fun old => (token f old).length)) :
    ∃ text', renamed f name text = some text' ∧ text' ≠ [] ∧
      (info player).length + text'.length ≤ lbufSize - 1 ∧
      Kept text' (Function.update names f (some (upcasestr name)))
        (if f ∈ flds then flds else flds ++ [f]) := by
  obtain ⟨entries, rfl, good, rfl, has, misses⟩ := kept
  obtain ⟨word, some'⟩ := accepted_word ok
  by_cases hin : f ∈ entries.map Entry.fld
  · rw [if_pos hin]
    obtain ⟨e, mem, rfl⟩ := mem_map.mp hin
    rw [has e mem] at room
    obtain ⟨before, after, rfl⟩ := append_of_mem mem
    have old : ∀ e' ∈ before ++ after, e' ∈ before ++ e :: after := fun e' member' =>
      perm_middle.mem_iff.mpr (mem_cons_of_mem e member')
    have unique' : ∀ e' ∈ before ++ after, e'.name ≠ upcasestr name := fun e' member' eq =>
      unique e'.fld (good.fld_ne member') (by rw [has e' (old e' member'), eq])
    obtain ⟨ran, fits⟩ := renamed_old good room
    refine ⟨_, ran, mt render_eq_nil.mp (by simp), fits, _, rfl, good.rename word some' unique' number,
      by simp, fun e' member' => ?_, fun g outside => ?_⟩
    · rcases mem_cons.mp (perm_middle.mem_iff.mp member') with rfl | o
      · exact Function.update_self ..
      · rw [Function.update_of_ne (good.fld_ne o)]
        exact has e' (old e' o)
    · rw [Function.update_of_ne (ne_of_mem_of_not_mem hin outside).symm]
      exact misses g outside
  · rw [if_neg hin]
    rw [misses f hin] at room
    have o : ∀ e ∈ entries, e.fld ≠ f := fun e mem =>
      ne_of_mem_of_not_mem (mem_map_of_mem mem) hin
    have unique' : ∀ e ∈ entries, e.name ≠ upcasestr name := fun e mem eq =>
      unique e.fld (o e mem) (by rw [has e mem, eq])
    obtain ⟨ran, fits⟩ := renamed_new good small hin room
    refine ⟨_, ran, mt render_eq_nil.mp (by simp), fits, _, rfl,
      good.append small word some' hin unique' fun k small' differ is =>
        takeWhile_subset _ (number k small' differ is), by simp, fun e mem => ?_,
      fun g outside => ?_⟩
    · rcases mem_append.mp mem with old | last
      · rw [Function.update_of_ne (o e old)]
        exact has e old
      · rw [mem_singleton.mp last]
        exact Function.update_self ..
    · rw [mem_append, not_or, mem_singleton] at outside
      rw [Function.update_of_ne outside.2]
      exact misses g outside.1

/-- The attributes of players hold their names and are their own. -/
def AllKept (ops : List Naming) (attrs : Attributes) : Prop :=
  ∀ player, Kept (attrs.text player) (named ops player) (order ops player) ∧
    ∀ attr, attrs player = some attr → attr.owner = player

theorem step_kept {owner : Dbref → Dbref} {ops : List Naming} {attrs : Attributes} {op : Naming}
    (kept : AllKept ops attrs) (fits : Fits owner ops attrs op) :
    ∃ attrs', step owner attrs op = some attrs' ∧ AllKept (ops ++ [op]) attrs' := by
  obtain ⟨text', ran, some', room, kept'⟩ := kept_add (kept op.player).1 op.isFolder op.isName
    fits.unique fits.number fits.room
  have mine : (attrs op.player).elim (owner op.player) Attribute.owner = op.player := by
    cases stored : attrs op.player with
    | none => exact fits.own
    | some attr => exact (kept op.player).2 attr stored
  refine ⟨Function.update attrs op.player (some ⟨op.player, text'⟩), ?_, fun player => ?_⟩
  · simp only [step, addFolderName, atrGet, mine, ran, Option.map_some]
    rw [atrAdd_of_room some' room]
  by_cases mine : player = op.player
  · subst mine
    refine ⟨?_, fun attr stored => ?_⟩
    swap
    · rw [Function.update_self] at stored
      exact some.inj stored ▸ rfl
    have names : named (ops ++ [op]) op.player = Function.update (named ops op.player) op.fld
        (some (upcasestr op.name)) := by simp [named]
    have flds : order (ops ++ [op]) op.player = if op.fld ∈ order ops op.player
        then order ops op.player else order ops op.player ++ [op.fld] := by
      rw [order, foldl_append]
      simp only [foldl_cons, foldl_nil, true_and, ite_not]
      rfl
    rw [Attributes.text, Function.update_self, names, flds]
    exact kept'
  · have names : named (ops ++ [op]) player = named ops player := by
      simp [named, Ne.symm mine]
    have flds : order (ops ++ [op]) player = order ops player := by
      simp [order, Ne.symm mine]
    rw [Attributes.text, Function.update_of_ne mine, names, flds]
    exact kept player

theorem run_kept (owner : Dbref → Dbref) (ops : List Naming)
    (fits : ∀ before op, before ++ [op] <+: ops → ∀ attrs,
      Machine.run (step owner) (fun _ => none) before = some attrs →
        Fits owner before attrs op) :
    ∃ attrs, Machine.run (step owner) (fun _ => none) ops = some attrs ∧ AllKept ops attrs := by
  induction ops using List.reverseRecOn with
  | nil => exact ⟨_, rfl, fun _ => ⟨kept_nil, by simp⟩⟩
  | append_singleton ops op ih =>
    obtain ⟨attrs, ran, kept⟩ := ih fun before op' fst =>
      fits before op' (fst.trans (prefix_append ops [op]))
    obtain ⟨attrs', stepped, kept'⟩ := step_kept kept
      (fits ops op (prefix_refl _) attrs ran)
    refine ⟨attrs', ?_, kept'⟩
    rw [Machine.run_eq_foldlM, foldlM_append, ← Machine.run_eq_foldlM, ran]
    exact (bind_some ..).trans (by simp [stepped])

/-- In a run of calls that fit, the names of each player's folders are the last that were
given, `get_folder_name` and `get_folder_number` agree with them in both directions, and what
was never named has no name and no number. -/
theorem folders_map (owner : Dbref → Dbref) (ops : List Naming)
    (fits : ∀ before op, before ++ [op] <+: ops → ∀ attrs,
      Machine.run (step owner) (fun _ => none) before = some attrs →
        Fits owner before attrs op) :
    ∃ attrs, Machine.run (step owner) (fun _ => none) ops = some attrs ∧
      ∀ player, IsMap (attrs.text player) (named ops player) := by
  obtain ⟨attrs, ran, kept⟩ := run_kept owner ops fits
  exact ⟨attrs, ran, fun player => (kept player).1.isMap⟩

/-- A folder is named and named again. -/
theorem folders_map_renamed :
    ∃ attrs, Machine.run (step id) (fun _ => none)
        [⟨1, 11, "inbox".toList, by decide, by decide⟩,
          ⟨1, 11, "Old1".toList, by decide, by decide⟩] = some attrs ∧
      ∀ player, IsMap (attrs.text player) (named [⟨1, 11, "inbox".toList, by decide, by decide⟩,
        ⟨1, 11, "Old1".toList, by decide, by decide⟩] player) := by
  have no_number : ∀ {w : Text} {c : Char}, c ∈ w → c.isDigit = false → ∀ k : Nat, w ≠ decimal k :=
    fun member letter k is => Bool.noConfusion (letter.symm.trans (digit_decimal (is ▸ member)))
  refine folders_map id _ fun before op first attrs ran => ?_
  rcases before with _ | ⟨a, _ | ⟨b, before⟩⟩
  · obtain rfl := (cons_prefix_cons.mp first).1
    cases ran
    exact ⟨rfl, fun _ _ => by simp [named], fun k _ _ is =>
      absurd is (no_number (c := 'I') (by decide) (by decide) k), by decide⟩
  · obtain ⟨rfl, rest⟩ := cons_prefix_cons.mp first
    obtain rfl := (cons_prefix_cons.mp rest).1
    cases ran
    refine ⟨rfl, fun g other => ?_, fun k _ _ is =>
      absurd is (no_number (c := 'O') (by decide) (by decide) k), by decide⟩
    simp [named, Function.update_of_ne other]
  · have short := first.length_le
    simp only [length_append, length_cons, length_nil] at short
    omega

/-- Two folders with one name: the number of the second one is not found.  A name that is the
number of a folder without a name: the name of that folder is looked for behind the text.  A
robot of player 1: the text becomes its owner's. -/
theorem folders_clash :
    ((Machine.run (step id) (fun _ => none) [⟨1, 1, "a".toList, by decide, by decide⟩,
        ⟨1, 2, "a".toList, by decide, by decide⟩]).bind fun attrs =>
      getFolderNumber (attrs.text 1) "a".toList) = some 1 ∧
    ((Machine.run (step id) (fun _ => none)
        [⟨1, 3, "1".toList, by decide, by decide⟩]).map fun attrs =>
      (attrs.text 1, getFolderName (attrs.text 1) 1)) = some ("3:1:3 ".toList, none) ∧
    ((Machine.run (step fun _ => 1) (fun _ => none)
        [⟨2, 3, "a".toList, by decide, by decide⟩]).map fun attrs =>
      (attrs.text 1, getFolderName (attrs.text 2) 3)) =
        some ("3:A:3 ".toList, some "unnamed".toList) := by
  decide

end Runs

end BattletechMux.Postal.Folders
