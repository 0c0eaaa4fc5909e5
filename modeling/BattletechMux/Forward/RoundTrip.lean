/-
Module: BattletechMux.Forward.RoundTrip
Purpose: Forwarding lists from db.c: reading, writing and setting them, and what `fwdlist_load`
  makes of a text.
Trusted boundary: which objects are good, and to which of them a player may forward, are parameters
-/
import BattletechMux.Foundation.CText
import BattletechMux.Foundation.Words

namespace BattletechMux.Forward

section

open CText (isSpace atoi decimal)

abbrev Text := List Char
abbrev Dbref := Int

def lbufSize : Nat := 8000
def intSize : Nat := 4

/-- The objects there are and those that a player may forward to. -/
structure Scene where
  exists' : Nat → Bool
  permits : Dbref → Bool

namespace Scene

variable (scene : Scene)

def goodObj (target : Dbref) : Bool := decide (0 ≤ target) && scene.exists' target.toNat

/-- The negation of `fail` in `fwdlist_load`. -/
def allows (target : Dbref) : Bool := scene.goodObj target && scene.permits target

/-- What `fwdlist_load` has stored so far, and what it told the player. -/
structure Loaded where
  data : List Dbref
  errors : Nat
  notices : List Text

/-- What `fwdlist_load` does with what is between two white spaces. -/
def loadToken (l : Loaded) (dp : Text) : Loaded :=
  match dp with
  | '#' :: dp =>
    match dp.head? with
    | some c =>
      if c.isDigit then
        let target := atoi dp
        if scene.allows target then { l with data := l.data ++ [target] }
        else
          { l with
            errors := l.errors + 1
            notices := l.notices ++ ["Cannot forward to #".toList ++ decimal target ++
              ": Permission denied.".toList] }
      else l
    | none => l
  | _ => l

/-- The loop of `fwdlist_load`, of which `rounds` rounds are left. -/
def loadLoop : Nat → Text → Loaded → Loaded
  | 0, _, l => l
  | rounds + 1, bp, l =>
    let bp := bp.dropWhile isSpace
    let dp := bp.takeWhile fun c => !isSpace c
    let bp := (bp.dropWhile fun c => !isSpace c).drop 1
    let l := scene.loadToken l dp
    if bp = [] then l else loadLoop rounds bp l

def fwdlistLoad (atext : Text) : Loaded :=
  scene.loadLoop (atext.length + 1) atext { data := [], errors := 0, notices := [] }

def safeStr (s buff : Text) : Text := buff ++ s.take (lbufSize - 1 - buff.length)

def entry (target : Dbref) : Text := '#' :: decimal target ++ [' ']

/-- fwdlist_rewrite: the text, and how many entries it has. -/
def fwdlistRewrite (data : List Dbref) : Text × Nat :=
  data.foldl (fun (atext, count) target =>
    if scene.goodObj target then (safeStr (entry target) atext, count + 1)
    else (atext, count)) ([], 0)

/-- fwdlist_set: the list of the object. -/
def fwdlistSet (data : List Dbref) : Option (List Dbref) := if data = [] then none else some data

/-- fwdlist_ck: the list of the object, the text as it was rewritten, and whether to keep it. -/
def fwdlistCk (atext : Text) : Option (List Dbref) × Text × Bool :=
  let data := if atext = [] then [] else (scene.fwdlistLoad atext).data
  let (text, count) := scene.fwdlistRewrite data
  (fwdlistSet data, text, decide (0 < count) || atext.isEmpty)

end Scene

/-- The entries and their count are in a buffer of LBUF_SIZE bytes. -/
def Fits (data : List Dbref) : Prop := intSize * (data.length + 1) ≤ lbufSize

end

open List
open CText (isSpace atoi decimal scanInt scanNat scanInt_decimal isDigit_of_mem plain_of_isDigit)
open Words (words)

/-! ## Numbers -/

section Numbers

variable {c : Char} {text : Text}

theorem ofDigitChars_lt {digits : Text} (all : ∀ c ∈ digits, c.isDigit = true) :
    Nat.ofDigitChars 10 digits 0 < 10 ^ digits.length := by
  induction digits with
  | nil => simp
  | cons c rest ih =>
    have digit := all c mem_cons_self
    have value : c.toNat - '0'.toNat ≤ 9 := by
      simp only [Char.isDigit, Bool.and_eq_true, decide_eq_true_eq] at digit
      have upper : c.toNat ≤ '9'.toNat := digit.2
      have nine : '9'.toNat = 57 := rfl
      have zero : '0'.toNat = 48 := rfl
      omega
    have later := ih fun d mem => all d (mem_cons_of_mem c mem)
    rw [Nat.ofDigitChars_cons, Nat.ofDigitChars_eq_ofDigitChars_zero, length_cons, pow_succ]
    nlinarith [Nat.mul_le_mul_left (10 ^ rest.length) value]

theorem atoi_bounds (digit : c.isDigit = true) (rest : Text) :
    ∃ n : Nat, n < 10 ^ (c :: rest).length ∧ atoi (c :: rest) ≤ n ∧
      atoi (c :: rest) < 2 ^ 31 := by
  have plain := plain_of_isDigit digit
  have first : (c :: rest).takeWhile Char.isDigit ≠ [] := by
    rw [takeWhile_cons_of_pos digit]
    exact cons_ne_nil _ _
  have scanned : scanInt (c :: rest) =
      some (((Nat.ofDigitChars 10 ((c :: rest).takeWhile Char.isDigit) 0 : Nat) : Int),
        (c :: rest).dropWhile Char.isDigit) := by
    unfold scanInt
    rw [dropWhile_cons_of_neg (by simp [plain.1])]
    split
    · rename_i eq
      exact absurd (cons.inj eq).1 plain.2.1
    · rename_i eq
      exact absurd (cons.inj eq).1 plain.2.2
    · rw [scanNat, if_neg first]
      rfl
  have all : ∀ d ∈ (c :: rest).takeWhile Char.isDigit, d.isDigit = true := fun d mem =>
    mem_takeWhile_imp (p := Char.isDigit) mem
  have bound := ofDigitChars_lt all
  have longer : ((c :: rest).takeWhile Char.isDigit).length ≤ (c :: rest).length :=
    (takeWhile_sublist _).length_le
  refine ⟨_, lt_of_lt_of_le bound (Nat.pow_le_pow_right (by decide) longer), ?_⟩
  rw [atoi, scanned]
  dsimp only
  rw [Int.bmod_def]
  split <;> omega

theorem decimal_atoi_length (digit : c.isDigit = true) (rest : Text)
    (pos : 0 ≤ atoi (c :: rest)) :
    (decimal (atoi (c :: rest))).length ≤ (c :: rest).length := by
  obtain ⟨n, below, most, -⟩ := atoi_bounds digit rest
  rw [decimal, if_neg (not_lt.mpr pos),
    Nat.length_toDigits_le_iff (by decide) (show 0 < (c :: rest).length from Nat.succ_pos _)]
  omega

theorem atoi_decimal {n : Int} (low : 0 ≤ n) (high : n < 2 ^ 31) : atoi (decimal n) = n := by
  have stops : CText.Stops [] := fun c first => absurd first (by simp)
  have read := scanInt_decimal n stops
  rw [append_nil] at read
  rw [atoi, read]
  dsimp only
  have kept : max (-2 ^ 63) (min (2 ^ 63 - 1) n) = n := by omega
  rw [kept, Int.bmod_eq_of_le] <;> omega

theorem decimal_digits {n : Int} (low : 0 ≤ n) :
    (∀ c ∈ decimal n, c.isDigit = true) ∧ ∃ c rest, decimal n = c :: rest := by
  rw [decimal, if_neg (not_lt.mpr low)]
  refine ⟨fun c mem => isDigit_of_mem mem, ?_⟩
  cases digits : Nat.toDigits 10 n.natAbs with
  | nil => exact absurd digits Nat.toDigits_ne_nil
  | cons c rest => exact ⟨c, rest, rfl⟩

end Numbers

/-! ## Loading -/

namespace Scene

variable (scene : Scene)

/-- The target of a word, if the player may forward to it. -/
def target (word : Text) : Option Dbref :=
  match word with
  | '#' :: dp =>
    match dp.head? with
    | some c =>
      if c.isDigit = true ∧ scene.allows (atoi dp) = true then some (atoi dp) else none
    | none => none
  | _ => none

theorem target_digits (c : Char) (rest : Text) :
    scene.target ('#' :: c :: rest) =
      if c.isDigit = true ∧ scene.allows (atoi (c :: rest)) = true then some (atoi (c :: rest))
      else none :=
  rfl

theorem target_spec (word : Text) :
    (∃ c rest, word = '#' :: c :: rest ∧ c.isDigit = true ∧
      scene.allows (atoi (c :: rest)) = true ∧
      scene.target word = some (atoi (c :: rest))) ∨ scene.target word = none := by
  by_cases shape : ∃ c rest, word = '#' :: c :: rest
  · obtain ⟨c, rest, rfl⟩ := shape
    rw [target_digits]
    split_ifs with both
    · exact .inl ⟨c, rest, rfl, both.1, both.2, rfl⟩
    · exact .inr rfl
  · refine .inr ?_
    unfold target
    split
    · rename_i dp
      cases dp with
      | nil => rfl
      | cons c rest => exact absurd ⟨c, rest, rfl⟩ shape
    · rfl

theorem loadToken_data (l : Loaded) (word : Text) :
    (scene.loadToken l word).data = l.data ++ (scene.target word).toList := by
  unfold loadToken target
  split
  · rename_i dp
    cases dp with
    | nil => simp
    | cons c rest =>
      by_cases digit : c.isDigit = true <;>
        by_cases allowed : scene.allows (atoi (c :: rest)) = true <;> simp [digit, allowed]
  · rename_i other
    cases word with
    | nil => simp
    | cons c dp =>
      simp

theorem filterMap_target (word : Text) (rest : List Text) :
    (word :: rest).filterMap scene.target =
      (scene.target word).toList ++ rest.filterMap scene.target := by
  cases found : scene.target word <;> simp [found]

theorem loadLoop_data {rounds : Nat} {bp : Text} (room : bp.length < rounds) (l : Loaded) :
    (scene.loadLoop rounds bp l).data =
      l.data ++ (words isSpace bp).filterMap scene.target := by
  induction rounds generalizing bp l with
  | zero => omega
  | succ rounds ih =>
    have shorter : (bp.dropWhile isSpace).length ≤ bp.length :=
      (dropWhile_sublist _).length_le
    have first : ∀ c ∈ (bp.dropWhile isSpace).head?, isSpace c = false := by
      intro c mem
      have stop := head?_dropWhile_not isSpace bp
      rw [Option.mem_def.mp mem] at stop
      simpa using stop
    rw [loadLoop, ← Words.words_dropWhile bp]
    generalize bp.dropWhile isSpace = bp' at *
    cases bp' with
    | nil =>
      rw [Words.words_nil, takeWhile_nil, dropWhile_nil, drop_nil, if_pos rfl,
        loadToken_data]
      rfl
    | cons c text =>
      have parted := takeWhile_append_dropWhile (p := fun c => !isSpace c) (l := c :: text)
      have whole : ∀ d ∈ (c :: text).takeWhile fun c => !isSpace c, isSpace d = false := by
        intro d mem
        simpa using mem_takeWhile_imp (p := fun c => !isSpace c) mem
      have some' : (c :: text).takeWhile (fun c => !isSpace c) ≠ [] := by
        rw [takeWhile_cons_of_pos (by simp [first c rfl])]
        exact cons_ne_nil _ _
      have separates : ∀ s ∈ ((c :: text).dropWhile fun c => !isSpace c).head?,
          isSpace s = true := by
        intro s mem
        have stop := head?_dropWhile_not (fun c => !isSpace c) (c :: text)
        rw [Option.mem_def.mp mem] at stop
        simpa using stop
      generalize (c :: text).takeWhile (fun c => !isSpace c) = word at *
      generalize (c :: text).dropWhile (fun c => !isSpace c) = after at *
      rw [← parted]
      cases after with
      | nil =>
        rw [drop_nil, if_pos rfl, loadToken_data, append_nil,
          Words.words_last some' whole, filterMap_target, filterMap_nil, append_nil]
      | cons s rest =>
        rw [Words.words_word some' whole (separates s rfl), filterMap_target, drop_succ_cons,
          drop_zero, ← append_assoc, ← loadToken_data]
        split_ifs with over'
        · rw [over', Words.words_nil, filterMap_nil, append_nil]
        · refine ih ?_ _
          have length := congrArg List.length parted
          simp only [length_append, length_cons] at length shorter
          omega

theorem fwdlistLoad_eq (text : Text) :
    (scene.fwdlistLoad text).data = (words isSpace text).filterMap scene.target := by
  rw [fwdlistLoad, loadLoop_data scene (Nat.lt_succ_self _), nil_append]

theorem target_bounds {word : Text} {t : Dbref} (found : scene.target word = some t) :
    0 ≤ t ∧ t < 2 ^ 31 ∧ scene.allows t = true ∧ (entry t).length ≤ word.length + 1 := by
  obtain ⟨c, rest, rfl, digit, allowed, value⟩ | none' := scene.target_spec word
  · obtain rfl : atoi (c :: rest) = t := by
      rw [value] at found
      exact Option.some.inj found
    have low : 0 ≤ atoi (c :: rest) := by
      simp only [allows, goodObj, Bool.and_eq_true, decide_eq_true_eq] at allowed
      exact allowed.1.1
    obtain ⟨-, -, -, high⟩ := atoi_bounds digit rest
    have short := decimal_atoi_length digit rest low
    refine ⟨low, high, allowed, ?_⟩
    simp only [entry, length_append, length_cons, length_nil] at short ⊢
    omega
  · rw [none'] at found
    exact absurd found (by simp)

theorem mem_fwdlistLoad {text : Text} {t : Dbref} (mem : t ∈ (scene.fwdlistLoad text).data) :
    0 ≤ t ∧ t < 2 ^ 31 ∧ scene.allows t = true := by
  rw [fwdlistLoad_eq, mem_filterMap] at mem
  obtain ⟨word, -, found⟩ := mem
  obtain ⟨low, high, allowed, -⟩ := scene.target_bounds found
  exact ⟨low, high, allowed⟩

theorem target_decimal {t : Dbref} (low : 0 ≤ t) (high : t < 2 ^ 31) :
    scene.target ('#' :: decimal t) = if scene.allows t then some t else none := by
  obtain ⟨all, c, rest, shape⟩ := decimal_digits low
  have digit : c.isDigit = true := all c (by rw [shape]; exact mem_cons_self)
  have value := atoi_decimal low high
  rw [shape] at value ⊢
  rw [target_digits, value]
  simp only [digit, true_and]

/-! ## Writing -/

theorem safeStr_take (s text : Text) :
    safeStr s (text.take (lbufSize - 1)) = (text ++ s).take (lbufSize - 1) := by
  rw [safeStr, take_append, length_take]
  congr 2
  omega

theorem fwdlistRewrite_text (data : List Dbref) :
    (scene.fwdlistRewrite data).1 =
      ((data.filter scene.goodObj).flatMap entry).take (lbufSize - 1) := by
  suffices after : ∀ (text : Text) (count : Nat),
      (data.foldl (fun (atext, count) target =>
        if scene.goodObj target then (safeStr (entry target) atext, count + 1)
        else (atext, count)) (text.take (lbufSize - 1), count)).1 =
      (text ++ (data.filter scene.goodObj).flatMap entry).take (lbufSize - 1) from after [] 0
  induction data with
  | nil => intro text count; simp
  | cons t rest ih =>
    intro text count
    by_cases good : scene.goodObj t = true
    · rw [foldl_cons, filter_cons_of_pos good, flatMap_cons, ← append_assoc]
      dsimp only
      rw [if_pos good, safeStr_take]
      exact ih _ _
    · rw [foldl_cons, filter_cons_of_neg good]
      dsimp only
      rw [if_neg good]
      exact ih _ _

theorem entries_room (text : Text) (keep : Dbref → Bool) :
    (((scene.fwdlistLoad text).data.filter keep).flatMap entry).length ≤ text.length + 1 := by
  refine le_trans ?_ (Words.words_room isSpace text)
  rw [fwdlistLoad_eq]
  induction words isSpace text with
  | nil => simp
  | cons word rest ih =>
    rw [map_cons, sum_cons]
    cases found : scene.target word with
    | none =>
      rw [filterMap_cons_none found]
      omega
    | some t =>
      obtain ⟨-, -, -, short⟩ := scene.target_bounds found
      rw [filterMap_cons_some found, filter_cons]
      split_ifs
      · rw [flatMap_cons, length_append]
        omega
      · omega

theorem words_entries {data : List Dbref} (low : ∀ t ∈ data, 0 ≤ t) {room : Nat}
    (fits : (data.flatMap entry).length ≤ room + 1) :
    words isSpace ((data.flatMap entry).take room) = data.map fun t => '#' :: decimal t := by
  have spaced := Words.words_spaced (s := ' ') (data.map fun t => '#' :: decimal t) (by simp)
    (by
      intro word mem c inside
      obtain ⟨t, loaded, rfl⟩ := mem_map.mp mem
      rcases mem_cons.mp inside with rfl | inside
      · decide
      · exact (plain_of_isDigit ((decimal_digits (low t loaded)).1 c inside)).1)
    (show isSpace ' ' = true by decide)
  rw [flatMap_map] at spaced
  have whole : words isSpace (data.flatMap entry) = data.map fun t => '#' :: decimal t := spaced
  rw [← whole]
  rcases eq_nil_or_concat data with rfl | ⟨before, t, rfl⟩
  · rw [flatMap_nil, take_nil]
  · have ends : (before ++ [t]).flatMap entry =
        (before.flatMap entry ++ '#' :: decimal t) ++ [' '] := by
      rw [flatMap_append, flatMap_singleton, append_assoc]
      rfl
    rw [concat_eq_append] at fits ⊢
    rw [ends] at fits ⊢
    rw [length_append, length_singleton] at fits
    rw [Words.words_end _ (by decide), take_append]
    rcases Nat.lt_or_ge room (before.flatMap entry ++ '#' :: decimal t).length with less | more
    · omega
    · rw [take_of_length_le more]
      rcases Nat.eq_zero_or_pos (room - (before.flatMap entry ++ '#' :: decimal t).length) with
        zero | pos
      · rw [zero, take_zero, append_nil]
      · rw [take_of_length_le (by rw [length_singleton]; omega), Words.words_end _ (by decide)]

theorem fwdlistRewrite_load {text : Text} (short : text.length < lbufSize) (now : Scene) :
    (now.fwdlistLoad (now.fwdlistRewrite (scene.fwdlistLoad text).data).1).data =
      (scene.fwdlistLoad text).data.filter now.allows := by
  have room := scene.entries_room text now.goodObj
  have loaded : ∀ t ∈ (scene.fwdlistLoad text).data.filter now.goodObj, 0 ≤ t ∧ t < 2 ^ 31 := by
    intro t mem
    obtain ⟨low, high, -⟩ := scene.mem_fwdlistLoad (mem_of_mem_filter mem)
    exact ⟨low, high⟩
  rw [fwdlistRewrite_text, fwdlistLoad_eq, words_entries (fun t mem => (loaded t mem).1)
    (by simp only [lbufSize] at short ⊢; omega), filterMap_map]
  have good : ∀ t, now.allows t = true → now.goodObj t = true := by
    intro t allowed
    simp only [allows, Bool.and_eq_true] at allowed
    exact allowed.1
  generalize (scene.fwdlistLoad text).data = data at loaded
  clear room short
  induction data with
  | nil => rfl
  | cons t rest ih =>
    by_cases kept : now.goodObj t = true
    · rw [filter_cons_of_pos kept] at loaded ⊢
      obtain ⟨low, high⟩ := loaded t mem_cons_self
      have later := ih fun u mem => loaded u (mem_cons_of_mem t mem)
      rw [filterMap_cons, Function.comp_apply, now.target_decimal low high]
      rw [later]
      split_ifs with allowed <;> simp [allowed]
    · rw [filter_cons_of_neg kept] at loaded ⊢
      rw [filter_cons_of_neg (fun allowed => kept (good t allowed)), ih loaded]

end Scene

/-! ## Room -/

structure ListRight (scene : Scene) (text : Text) : Prop where
  fits : Fits (scene.fwdlistLoad text).data
  again : (scene.fwdlistLoad (scene.fwdlistRewrite (scene.fwdlistLoad text).data).1).data =
    (scene.fwdlistLoad text).data
  later : ∀ now : Scene,
    (now.fwdlistLoad (now.fwdlistRewrite (scene.fwdlistLoad text).data).1).data =
      (scene.fwdlistLoad text).data.filter now.allows

/-- A list fits if and only if no more words than an int less than the buffer name a target. -/
theorem listRight_iff (scene : Scene) (text : Text) (short : text.length < lbufSize) :
    ListRight scene text ↔
      (words isSpace text).countP (fun word => (scene.target word).isSome) ≤
        lbufSize / intSize - 1 := by
  have count : (scene.fwdlistLoad text).data.length =
      (words isSpace text).countP fun word => (scene.target word).isSome := by
    rw [scene.fwdlistLoad_eq, length_filterMap_eq_countP]
  rw [← count]
  constructor
  · intro right
    have fits := right.fits
    simp only [Fits, intSize, lbufSize] at fits ⊢
    omega
  · intro few
    refine ⟨?_, ?_, fun now => scene.fwdlistRewrite_load short now⟩
    · simp only [Fits, intSize, lbufSize] at few ⊢
      omega
    · rw [scene.fwdlistRewrite_load short scene]
      exact filter_eq_self.mpr fun t member => (scene.mem_fwdlistLoad member).2.2

def lobby : Scene where
  exists' := fun n => decide (n ≤ 1)
  permits := fun _ => true

/-- Two of four words name an object. -/
theorem listRight_lobby :
    "#1  here #01 #7".toList.length < lbufSize ∧ ListRight lobby "#1  here #01 #7".toList := by
  have short : "#1  here #01 #7".toList.length < lbufSize := by decide
  exact ⟨short, (listRight_iff lobby _ short).mpr (by decide)⟩

def crowd : Text := (List.replicate 2000 "#1".toList).flatMap fun word => word ++ [' ']

/-- A text of 6000 characters makes a list of 2000 entries. -/
theorem fwdlistLoad_crowd : crowd.length < lbufSize ∧
    (lobby.fwdlistLoad crowd).data.length = 2000 ∧ ¬ ListRight lobby crowd := by
  have whole : ∀ c ∈ "#1".toList, isSpace c = false := by simp [isSpace]
  have spaced := Words.words_spaced (s := ' ') (List.replicate 2000 "#1".toList)
    (fun word member => by rw [eq_of_mem_replicate member]; decide)
    (fun word member => by rw [eq_of_mem_replicate member]; exact whole)
    (show isSpace ' ' = true by decide)
  have one : lobby.target "#1".toList = some 1 := by decide
  have loaded : (lobby.fwdlistLoad crowd).data.length = 2000 := by
    rw [lobby.fwdlistLoad_eq, crowd, spaced, filterMap_replicate_of_some one,
      length_replicate]
  refine ⟨?_, loaded, fun right => ?_⟩
  · rw [crowd, length_flatMap, map_replicate, sum_replicate, smul_eq_mul]
    decide
  · have fits := right.fits
    rw [Fits, loaded] at fits
    exact absurd fits (by decide)

end BattletechMux.Forward
