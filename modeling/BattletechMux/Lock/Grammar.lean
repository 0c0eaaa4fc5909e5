/-
Module: BattletechMux.Lock.Grammar
Purpose: The grammar of locks, and that parse_boolexp reads it: the text it consumes has a
  derivation of the lock it returns, and a text with a derivation is read to its end with that lock.
-/
import BattletechMux.Lock.Parser

namespace BattletechMux.Lock

open List Option

open CText (isSpace)

section Blanks

def Blank (text : List Char) : Prop := ∀ c ∈ text, isSpace c = true

def StartsToken (text : List Char) : Prop := ∀ c ∈ text.head?, isSpace c = false

instance : (text : List Char) → Decidable (StartsToken text)
  | [] => isTrue (by simp [StartsToken])
  | c :: _ => decidable_of_iff (isSpace c = false) (by simp [StartsToken])

theorem blank_nil : Blank [] := fun _ mem => absurd mem not_mem_nil

theorem skip_of_startsToken {text : List Char} (token : StartsToken text) :
    skipWhitespace text = text := by
  cases text with
  | nil => rfl
  | cons c text =>
    rw [skipWhitespace, dropWhile_cons_of_neg]
    simpa using token c rfl

theorem skip_blank {blank text : List Char} (white : Blank blank) :
    skipWhitespace (blank ++ text) = skipWhitespace text := by
  induction blank with
  | nil => rfl
  | cons c blank ih =>
    rw [cons_append, skipWhitespace, dropWhile_cons_of_pos]
    · exact ih fun d mem => white d (mem_cons_of_mem _ mem)
    · exact white c mem_cons_self

theorem skip_blank_token {blank text : List Char} (white : Blank blank)
    (token : StartsToken text) : skipWhitespace (blank ++ text) = text :=
  (skip_blank white).trans (skip_of_startsToken token)

theorem skip_split (text : List Char) :
    ∃ blank, Blank blank ∧ text = blank ++ skipWhitespace text :=
  ⟨text.takeWhile isSpace, fun _ mem => mem_takeWhile_imp mem,
    takeWhile_append_dropWhile.symm⟩

theorem skip_startsToken (text : List Char) : StartsToken (skipWhitespace text) := by
  intro c first
  have := head?_dropWhile_not isSpace text
  rw [skipWhitespace] at first
  rw [mem_def.mp first] at this
  simpa using this

theorem strip_split (buf : List Char) :
    ∃ blank, Blank blank ∧ buf = stripTrailing buf ++ blank :=
  ⟨buf.rtakeWhile isSpace, fun _ mem => mem_rtakeWhile_imp mem,
    (rdropWhile_append_rtakeWhile ..).symm⟩

theorem strip_blank {blank buf : List Char} (white : Blank blank) :
    stripTrailing (buf ++ blank) = stripTrailing buf := by
  induction blank using List.reverseRecOn with
  | nil => rw [append_nil]
  | append_singleton blank c ih =>
    rw [← append_assoc, stripTrailing, rdropWhile_concat_pos]
    · exact ih fun d mem => white d (mem_append_left _ mem)
    · exact white c (mem_append_right _ (mem_singleton_self c))

end Blanks

inductive Symbol
  | E
  | T
  | F
  | L
deriving DecidableEq, Repr

def PlainStart (text : List Char) : Prop :=
  ∀ c ∈ (skipWhitespace text).head?, c ≠ '!' ∧ Prefix.ofToken c = none

instance (text : List Char) : Decidable (PlainStart text) :=
  match first : (skipWhitespace text).head? with
  | none => isTrue (by simp [PlainStart, first])
  | some c => decidable_of_iff (c ≠ '!' ∧ Prefix.ofToken c = none) (by simp [PlainStart, first])

structure IsAtom (text : List Char) : Prop where
  chars : ∀ c ∈ text, atomChar c = true
  start : StartsToken text
  bare : ∀ c ∈ text.head?, c ≠ '('
  stripped : stripTrailing text = text

/-- The grammar, with the lock a derivation stands for.  `takes` says which locks the
argument of a prefix operator may be. -/
inductive Derives (scene : Scene) (takes : Prefix → Boolexp → Bool) :
    Symbol → List Char → Boolexp → Prop
  | atom {blank text : List Char} {b : Boolexp} (white : Blank blank) (isAtom : IsAtom text)
      (resolves : atom scene text = some b) : Derives scene takes .L (blank ++ text) b
  | parens {blank blank' text : List Char} {b : Boolexp} (white : Blank blank)
      (inside : Derives scene takes .E text b) (white' : Blank blank') :
      Derives scene takes .L (blank ++ '(' :: (text ++ blank' ++ [')'])) b
  | not {blank text : List Char} {b : Boolexp} (white : Blank blank)
      (argument : Derives scene takes .F text b) :
      Derives scene takes .F (blank ++ '!' :: text) (.not b)
  | unary {blank text : List Char} {type : Prefix} {b : Boolexp} (white : Blank blank)
      (argument : Derives scene takes .L text b) (taken : takes type b = true) :
      Derives scene takes .F (blank ++ type.token :: text) (.unary type b)
  | plain {text : List Char} {b : Boolexp} (start : PlainStart text)
      (same : Derives scene takes .L text b) : Derives scene takes .F text b
  | and {blank text text' : List Char} {b b' : Boolexp} (first : Derives scene takes .F text b)
      (white : Blank blank) (second : Derives scene takes .T text' b') :
      Derives scene takes .T (text ++ blank ++ '&' :: text') (.and b b')
  | factor {text : List Char} {b : Boolexp} (same : Derives scene takes .F text b) :
      Derives scene takes .T text b
  | or {blank text text' : List Char} {b b' : Boolexp} (first : Derives scene takes .T text b)
      (white : Blank blank) (second : Derives scene takes .E text' b') :
      Derives scene takes .E (text ++ blank ++ '|' :: text') (.or b b')
  | term {text : List Char} {b : Boolexp} (same : Derives scene takes .T text b) :
      Derives scene takes .E text b

def IsLock (scene : Scene) (takes : Prefix → Boolexp → Bool) (buf : List Char) (b : Boolexp) :
    Prop :=
  buf ≠ [] ∧ ∃ text blank, buf = text ++ blank ∧ Blank blank ∧ Derives scene takes .E text b

section Reading

variable (scene : Scene)

def forget {text : List Char} (result : Option (Boolexp × Rest text)) :
    Option (Boolexp × List Char) :=
  result.map fun (b, rest) => (b, rest.1)

def read (text : List Char) : Symbol → Option (Boolexp × List Char)
  | .E => forget (parseE scene text)
  | .T => forget (parseT scene text)
  | .F => forget (parseF scene text)
  | .L => forget (parseL scene text)

def closed (b : Boolexp) : List Char → Option (Boolexp × List Char)
  | ')' :: after => some (b, after)
  | _ => none

/-- A binary operator and its second argument, if it is there. -/
def joined (token : Char) (join : Boolexp → Boolexp → Boolexp)
    (second : List Char → Option (Boolexp × List Char)) (b : Boolexp) :
    List Char → Option (Boolexp × List Char)
  | [] => some (b, [])
  | c :: after =>
    if c = token then (second after).map fun (b', rest) => (join b b', rest)
    else some (b, c :: after)

/-- The parser of `symbol` reads a `first`, and then, if the token is there, itself again. -/
def Joins (first symbol : Symbol) (token : Char) (join : Boolexp → Boolexp → Boolexp) : Prop :=
  ∀ text, read scene text symbol = (read scene text first).bind fun (b, rest) =>
    joined token join (read scene · symbol) b (skipWhitespace rest)

variable {scene} {text inside : List Char} {c : Char} {b : Boolexp}

theorem closed_of_ne (o : ∀ post, text ≠ ')' :: post) : closed b text = none := by
  unfold closed
  split
  · exact absurd rfl (o _)
  · rfl

theorem closed_eq_some {b' : Boolexp} {rest : List Char}
    (hf : closed b text = some (b', rest)) : text = ')' :: rest ∧ b' = b := by
  unfold closed at hf
  split at hf
  · cases hf
    exact ⟨rfl, rfl⟩
  · cases hf

theorem joined_of_ne {token : Char} {join : Boolexp → Boolexp → Boolexp}
    {snd : List Char → Option (Boolexp × List Char)} (o : ∀ post, text ≠ token :: post) :
    joined token join snd b text = some (b, text) := by
  cases text with
  | nil => rfl
  | cons c post => exact if_neg fun eq => o post (by rw [eq])

theorem joined_eq_some {token : Char} {join : Boolexp → Boolexp → Boolexp}
    {snd : List Char → Option (Boolexp × List Char)} {b' : Boolexp} {rest : List Char}
    (hf : joined token join snd b text = some (b', rest)) :
    (∃ post b₂, text = token :: post ∧ snd post = some (b₂, rest) ∧ b' = join b b₂) ∨
      b' = b ∧ rest = text := by
  cases text with
  | nil =>
    cases hf
    exact .inr ⟨rfl, rfl⟩
  | cons c post =>
    rw [joined] at hf
    split at hf
    · rename_i eq
      obtain ⟨⟨b₂, rest⟩, parsed, result⟩ := map_eq_some_iff.mp hf
      cases result
      exact .inl ⟨post, b₂, by rw [eq], parsed, rfl⟩
    · cases hf
      exact .inr ⟨rfl, rfl⟩

theorem read_parens (token : skipWhitespace text = '(' :: inside) :
    read scene text .L =
      (read scene inside .E).bind fun (b, rest) => closed b (skipWhitespace rest) := by
  change forget (parseL scene text) = _
  rw [parseL]
  split
  · rename_i post token'
    obtain rfl : post = inside := by
      rw [token] at token'
      exact (cons.inj token').2.symm
    rw [read]
    cases parseE scene post with
    | none => rfl
    | some result =>
      simp only [forget, map_some, bind_some]
      split
      · rename_i closing
        conv_rhs => rw [closing]
        rfl
      · rename_i o
        rw [closed_of_ne o]
        rfl
  · rename_i o
    exact absurd token (o inside)

theorem read_atom (o : ∀ inside, skipWhitespace text ≠ '(' :: inside) :
    read scene text .L =
      (atom scene (stripTrailing ((skipWhitespace text).takeWhile atomChar))).map
        fun b => (b, (skipWhitespace text).dropWhile atomChar) := by
  rw [read, parseL]
  split
  · rename_i inside token
    exact absurd token (o inside)
  · cases atom scene (stripTrailing ((skipWhitespace text).takeWhile atomChar)) <;> rfl

theorem read_F (token : skipWhitespace text = c :: inside) :
    read scene text .F =
      if c = '!' then (read scene inside .F).map fun (b, rest) => (.not b, rest)
      else match Prefix.ofToken c with
        | some type => (read scene inside .L).bind fun (b, rest) =>
          if type.takes b then some (.unary type b, rest) else none
        | none => read scene text .L := by
  change forget (parseF scene text) = _
  rw [parseF]
  split
  · rename_i empty
    rw [empty] at token
    cases token
  · rename_i c' post token'
    obtain ⟨rfl, rfl⟩ : c = c' ∧ inside = post := by
      rw [token] at token'
      exact cons.inj token'
    by_cases negated : c = '!'
    · rw [if_pos negated, if_pos negated, read]
      cases parseF scene inside <;> rfl
    · rw [if_neg negated, if_neg negated]
      cases Prefix.ofToken c with
      | none => rfl
      | some type =>
        simp only [read]
        cases parseL scene inside with
        | none => rfl
        | some result =>
          simp only [forget, map_some, bind_some]
          split <;> rfl

theorem read_plain (start : PlainStart text) : read scene text .F = read scene text .L := by
  cases first : skipWhitespace text with
  | nil =>
    change forget (parseF scene text) = _
    rw [parseF]
    split
    · rfl
    · rename_i token
      rw [first] at token
      cases token
  | cons c inside =>
    have plain := start c (by rw [first]; rfl)
    rw [read_F first, if_neg plain.1, plain.2]

theorem joins_T : Joins scene .F .T '&' .and := by
  intro text
  change forget (parseT scene text) = _
  rw [parseT, read]
  cases parseF scene text with
  | none => rfl
  | some result =>
    simp only [forget, map_some, bind_some]
    split
    · rename_i post token
      conv_rhs => rw [token, joined, if_pos rfl, read]
      cases parseT scene post <;> rfl
    · rename_i o
      rw [joined_of_ne o]
      rfl

theorem joins_E : Joins scene .T .E '|' .or := by
  intro text
  change forget (parseE scene text) = _
  rw [parseE, read]
  cases parseT scene text with
  | none => rfl
  | some result =>
    simp only [forget, map_some, bind_some]
    split
    · rename_i post token
      conv_rhs => rw [token, joined, if_pos rfl, read]
      cases parseE scene post <;> rfl
    · rename_i o
      rw [joined_of_ne o]
      rfl

end Reading

section Soundness

variable {scene : Scene} {text : List Char}

/-- What the parser of a nonterminal consumes has a derivation. -/
def Sound (scene : Scene) (symbol : Symbol) (text : List Char) : Prop :=
  ∀ b rest, read scene text symbol = some (b, rest) → ∃ consumed blank,
    text = consumed ++ (blank ++ rest) ∧ Blank blank ∧
      Derives scene Prefix.takes symbol consumed b

theorem head?_of_front {front whole : List Char} (front_starts : front <+: whole) {c : Char}
    (first : c ∈ front.head?) : c ∈ whole.head? := by
  obtain ⟨later, rfl⟩ := front_starts
  exact mem_head?_append_of_mem_head? first

theorem isAtom_strip {start : List Char} (token : StartsToken start)
    (o : ∀ inside, start ≠ '(' :: inside) :
    IsAtom (stripTrailing (start.takeWhile atomChar)) := by
  have inRun : stripTrailing (start.takeWhile atomChar) <+: start.takeWhile atomChar :=
    rdropWhile_prefix _ _
  have inStart := inRun.trans <| takeWhile_prefix _
  refine ⟨fun c mem => mem_takeWhile_imp (inRun.subset mem), ?_, ?_, ?_⟩
  · exact fun c first => token c (head?_of_front inStart first)
  · intro c first bare
    obtain ⟨inside, rfl⟩ := head?_eq_some_iff.mp (head?_of_front inStart first)
    exact o inside (by rw [bare])
  · exact rdropWhile_idempotent _ _

theorem sound_L (inner : ∀ later : List Char, later.length < text.length → Sound scene .E later) :
    Sound scene .L text := by
  intro b rest parsed
  obtain ⟨blank, white, split⟩ := skip_split text
  by_cases paren : ∃ inside, skipWhitespace text = '(' :: inside
  · obtain ⟨inside, token⟩ := paren
    rw [read_parens token] at parsed
    obtain ⟨⟨b', rest'⟩, parsedInside, closing⟩ := bind_eq_some_iff.mp parsed
    obtain ⟨close, rfl⟩ := closed_eq_some closing
    obtain ⟨consumed, blank₁, split₁, white₁, derives⟩ :=
      inner inside (length_lt_of_skip token) _ _ parsedInside
    obtain ⟨blank₂, white₂, split₂⟩ := skip_split rest'
    refine ⟨blank ++ '(' :: (consumed ++ (blank₁ ++ blank₂) ++ [')']), [], ?_, blank_nil,
      .parens white derives fun c mem => ?_⟩
    · rw [split, token, split₁, split₂, close]
      simp
    · exact (mem_append.mp mem).elim (white₁ c) (white₂ c)
  · have o : ∀ inside, skipWhitespace text ≠ '(' :: inside := fun inside token =>
      paren ⟨inside, token⟩
    rw [read_atom o] at parsed
    obtain ⟨b', resolves, result⟩ := map_eq_some_iff.mp parsed
    cases result
    obtain ⟨blank₁, white₁, split₁⟩ := strip_split ((skipWhitespace text).takeWhile atomChar)
    refine ⟨blank ++ stripTrailing ((skipWhitespace text).takeWhile atomChar), blank₁, ?_, white₁,
      .atom white (isAtom_strip (skip_startsToken text) o) resolves⟩
    conv_lhs => rw [split, ← takeWhile_append_dropWhile (p := atomChar)
      (l := skipWhitespace text), split₁]
    simp

theorem skip_append {more later : List Char} {c : Char} (first : skipWhitespace text = c :: more) :
    skipWhitespace (text ++ later) = c :: (more ++ later) := by
  obtain ⟨blank, white, split⟩ := skip_split text
  have token := skip_startsToken text
  rw [first] at split token
  rw [split, append_assoc]
  exact skip_blank_token white (show StartsToken (c :: (more ++ later)) from token)

theorem Prefix.token_of_ofToken {type : Prefix} {c : Char} (hf : Prefix.ofToken c = some type) :
    c = type.token := by
  unfold Prefix.ofToken at hf
  split_ifs at hf <;> cases hf <;> assumption

theorem sound_F (again : ∀ later : List Char, later.length < text.length → Sound scene .F later)
    (argument : ∀ later : List Char, later.length < text.length → Sound scene .L later)
    (eq : Sound scene .L text) : Sound scene .F text := by
  intro b rest parsed
  by_cases start : PlainStart text
  · rw [read_plain start] at parsed
    obtain ⟨consumed, blank, split, white, derives⟩ := eq b rest parsed
    refine ⟨consumed, blank, split, white, .plain (fun c first => start c ?_) derives⟩
    obtain ⟨more, first⟩ := head?_eq_some_iff.mp first
    rw [split, skip_append first]
    rfl
  · obtain ⟨blank, white, split⟩ := skip_split text
    cases token : skipWhitespace text with
    | nil =>
      refine absurd (fun c first => ?_) start
      rw [token] at first
      cases first
    | cons c inside =>
      rw [token] at split
      have shorter := length_lt_of_skip token
      rw [read_F token] at parsed
      split_ifs at parsed with negated
      · obtain ⟨⟨b', rest'⟩, parsedInside, result⟩ := map_eq_some_iff.mp parsed
        cases result
        obtain ⟨consumed, blank₁, split₁, white₁, derives⟩ := again inside shorter _ _ parsedInside
        refine ⟨blank ++ '!' :: consumed, blank₁, ?_, white₁, .not white derives⟩
        rw [split, split₁, negated]
        simp
      · cases operator : Prefix.ofToken c with
        | none =>
          refine absurd (fun d first => ?_) start
          rw [token] at first
          cases first
          exact ⟨negated, operator⟩
        | some type =>
          rw [operator] at parsed
          obtain ⟨⟨b', rest'⟩, parsedInside, result⟩ := bind_eq_some_iff.mp parsed
          simp only at result
          split_ifs at result with taken
          cases result
          obtain ⟨consumed, blank₁, split₁, white₁, derives⟩ :=
            argument inside shorter _ _ parsedInside
          refine ⟨blank ++ type.token :: consumed, blank₁, ?_, white₁,
            .unary white derives taken⟩
          rw [split, split₁, Prefix.token_of_ofToken operator]
          simp

theorem blank_append {blank blank' : List Char} (white : Blank blank) (white' : Blank blank') :
    Blank (blank ++ blank') := fun c mem =>
  (mem_append.mp mem).elim (white c) (white' c)

theorem length_lt_of_split {consumed blank rest post : List Char} {c : Char}
    (split : text = consumed ++ (blank ++ rest)) (token : skipWhitespace rest = c :: post) :
    post.length < text.length := by
  have shorter := length_lt_of_skip token
  rw [split, length_append, length_append]
  omega

theorem sound_joined {first symbol : Symbol} {token : Char} {join : Boolexp → Boolexp → Boolexp}
    (joins : Joins scene first symbol token join)
    (two : ∀ {blank text text' : List Char} {b b' : Boolexp},
      Derives scene Prefix.takes first text b → Blank blank →
      Derives scene Prefix.takes symbol text' b' →
      Derives scene Prefix.takes symbol (text ++ blank ++ token :: text') (join b b'))
    (one : ∀ {text : List Char} {b : Boolexp}, Derives scene Prefix.takes first text b →
      Derives scene Prefix.takes symbol text b)
    (head : Sound scene first text)
    (again : ∀ later : List Char, later.length < text.length → Sound scene symbol later) :
    Sound scene symbol text := by
  intro b rest parsed
  rw [joins] at parsed
  obtain ⟨⟨b₁, rest₁⟩, parsedFirst, result⟩ := bind_eq_some_iff.mp parsed
  obtain ⟨consumed, blank, split, white, derives⟩ := head _ _ parsedFirst
  obtain ⟨blank₁, white₁, split₁⟩ := skip_split rest₁
  rcases joined_eq_some result with ⟨post, b₂, operator, parsedSecond, rfl⟩ | ⟨rfl, rfl⟩
  · obtain ⟨consumed₂, blank₂, split₂, white₂, derives₂⟩ :=
      again post (length_lt_of_split split operator) _ _ parsedSecond
    refine ⟨consumed ++ (blank ++ blank₁) ++ token :: consumed₂, blank₂, ?_, white₂,
      two derives (blank_append white white₁) derives₂⟩
    rw [split, split₁, operator, split₂]
    simp
  · refine ⟨consumed, blank ++ blank₁, ?_, blank_append white white₁, one derives⟩
    conv_lhs => rw [split, split₁]
    simp

theorem sound (scene : Scene) (text : List Char) (symbol : Symbol) : Sound scene symbol text := by
  induction size : text.length using Nat.strong_induction_on generalizing text symbol with
  | _ n ih =>
    subst size
    have shorter (symbol : Symbol) (later : List Char) (less : later.length < text.length) :
        Sound scene symbol later := ih later.length less later symbol rfl
    have atL := sound_L (shorter .E)
    have atF := sound_F (shorter .F) (shorter .L) atL
    have atT := sound_joined joins_T .and .factor atF (shorter .T)
    cases symbol with
    | L => exact atL
    | F => exact atF
    | T => exact atT
    | E => exact sound_joined joins_E .or .term atT (shorter .E)

end Soundness

section Completeness

def follows : Symbol → List Char
  | .E => [')']
  | .T => ['|', ')']
  | .F => ['&', '|', ')']
  | .L => ['&', '|', ')']

def Follow (symbol : Symbol) (rest : List Char) : Prop := ∀ c ∈ rest.head?, c ∈ follows symbol

variable {scene : Scene} {symbol : Symbol} {rest : List Char}

theorem follow_nil (symbol : Symbol) : Follow symbol [] := fun _ first => absurd first (by simp)

variable {c : Char}

theorem follow_cons {post : List Char} (allowed : c ∈ follows symbol) :
    Follow symbol (c :: post) := by
  intro d first
  cases first
  exact allowed

theorem Follow.toL (follow : Follow symbol rest) : Follow .L rest := by
  intro c first
  have allowed := follow c first
  cases symbol <;> simp [follows] at allowed ⊢ <;> tauto

theorem Follow.stop (follow : Follow symbol rest) (first : c ∈ rest.head?) :
    atomChar c = false := by
  have allowed := follow.toL c first
  simp only [follows, mem_cons, not_mem_nil, or_false] at allowed
  rcases allowed with rfl | rfl | rfl <;> rfl

theorem atomChar_of_isSpace (space : isSpace c = true) : atomChar c = true := by
  by_contra stop
  simp only [atomChar, ne_eq, Bool.decide_and, Bool.and_eq_true, decide_eq_true_eq, not_and_or,
    not_not] at stop
  rcases stop with rfl | rfl | rfl <;> exact absurd space (by decide)

theorem Follow.startsToken (follow : Follow symbol rest) : StartsToken rest := by
  intro c first
  by_contra space
  rw [Bool.not_eq_false] at space
  exact absurd (atomChar_of_isSpace space) (by simp [follow.stop first])

theorem Follow.run (follow : Follow symbol rest) :
    rest.takeWhile atomChar = [] ∧ rest.dropWhile atomChar = rest := by
  cases rest with
  | nil => exact ⟨rfl, rfl⟩
  | cons c post =>
    have stop := follow.stop (c := c) rfl
    rw [takeWhile_cons_of_neg, dropWhile_cons_of_neg] <;> simp [stop]

/-- The parser of a nonterminal reads this text and stops in front of `rest`. -/
def Reads (scene : Scene) (symbol : Symbol) (text rest : List Char) (b : Boolexp) : Prop :=
  ∃ rest', read scene text symbol = some (b, rest') ∧ skipWhitespace rest' = rest

variable {text blank blank' : List Char}

theorem skip_atom (white : Blank blank) (isAtom : IsAtom text)
    (white' : Blank blank') (follow : Follow .L rest) :
    ∃ blank₁, Blank blank₁ ∧
      skipWhitespace (blank ++ text ++ (blank' ++ rest)) = text ++ (blank₁ ++ rest) ∧
      ∀ inside, text ++ (blank₁ ++ rest) ≠ '(' :: inside := by
  cases text with
  | nil =>
    refine ⟨[], blank_nil, ?_, ?_⟩
    · rw [append_nil, skip_blank white, skip_blank_token white' follow.startsToken]
      rfl
    · intro inside bare
      simp only [nil_append] at bare
      subst bare
      exact absurd (follow '(' rfl) (by decide)
  | cons c text =>
    refine ⟨blank', white', ?_, ?_⟩
    · rw [append_assoc]
      exact skip_blank_token white
        (show StartsToken (c :: (text ++ (blank' ++ rest))) from isAtom.start)
    · intro inside bare
      exact isAtom.bare c rfl (cons.inj bare).1

variable {b : Boolexp}

theorem reads_atom (white : Blank blank)
    (isAtom : IsAtom text) (resolves : atom scene text = some b) (white' : Blank blank')
    (follow : Follow .L rest) : Reads scene .L (blank ++ text ++ (blank' ++ rest)) rest b := by
  obtain ⟨blank₁, white₁, skipped, o⟩ := skip_atom white isAtom white' follow
  have chars : ∀ c ∈ text ++ blank₁, atomChar c = true := fun c mem =>
    (mem_append.mp mem).elim (isAtom.chars c) fun inBlank =>
      atomChar_of_isSpace (white₁ c inBlank)
  have run : (text ++ (blank₁ ++ rest)).takeWhile atomChar = text ++ blank₁ := by
    rw [← append_assoc, takeWhile_append_of_pos chars, follow.run.1, append_nil]
  have left : (text ++ (blank₁ ++ rest)).dropWhile atomChar = rest := by
    rw [← append_assoc, dropWhile_append_of_pos chars, follow.run.2]
  refine ⟨rest, ?_, skip_of_startsToken follow.startsToken⟩
  rw [← skipped] at o
  rw [read_atom o, skipped, run, left, strip_blank white₁, isAtom.stripped, resolves]
  rfl

theorem reads_parens (white : Blank blank)
    (inside : ∀ post : List Char,
      Reads scene .E (text ++ (blank' ++ ')' :: post)) (')' :: post) b)
    (later : List Char) (skipped : skipWhitespace later = rest) :
    Reads scene .L (blank ++ '(' :: (text ++ blank' ++ [')']) ++ later) rest b := by
  obtain ⟨rest', parsed, closing⟩ := inside later
  refine ⟨later, ?_, skipped⟩
  have token : skipWhitespace (blank ++ '(' :: (text ++ blank' ++ [')']) ++ later) =
      '(' :: (text ++ (blank' ++ ')' :: later)) := by
    rw [append_assoc, skip_blank white]
    simp [skipWhitespace, isSpace]
  rw [read_parens token, parsed]
  exact congrArg (closed b) closing

theorem skip_operator {blank text later : List Char} (white : Blank blank)
    (operator : isSpace c = false) :
    skipWhitespace (blank ++ c :: text ++ later) = c :: (text ++ later) := by
  rw [append_assoc]
  refine skip_blank_token white (show StartsToken (c :: (text ++ later)) from ?_)
  intro d first
  cases first
  exact operator

theorem reads_unary {text blank : List Char} {type : Prefix} (white : Blank blank)
    (taken : type.takes b = true) {later : List Char}
    (argument : Reads scene .L (text ++ later) rest b) :
    Reads scene .F (blank ++ type.token :: text ++ later) rest (.unary type b) := by
  obtain ⟨rest', parsed, skipped⟩ := argument
  refine ⟨rest', ?_, skipped⟩
  have operator : isSpace type.token = false ∧ type.token ≠ '!' ∧
      Prefix.ofToken type.token = some type := by cases type <;> decide
  rw [read_F (skip_operator white operator.1), if_neg operator.2.1, operator.2.2, parsed]
  exact if_pos taken

theorem plainStart_append {text blank : List Char} (start : PlainStart text) (white : Blank blank)
    (follow : Follow .F rest) : PlainStart (text ++ (blank ++ rest)) := by
  cases first : skipWhitespace text with
  | nil =>
    obtain ⟨blank₁, white₁, split⟩ := skip_split text
    rw [first, append_nil] at split
    intro c head
    rw [split, skip_blank white₁, skip_blank_token white follow.startsToken] at head
    have allowed := follow c head
    simp only [follows, mem_cons, not_mem_nil, or_false] at allowed
    rcases allowed with rfl | rfl | rfl <;> decide
  | cons c more =>
    intro d head
    rw [skip_append first] at head
    exact start d (by rw [first]; exact head)

theorem Follow.ne_cons (follow : Follow symbol rest) (o : c ∉ follows symbol)
    (post : List Char) : rest ≠ c :: post := by
  rintro rfl
  exact o (follow c rfl)

section Joined

variable {first : Symbol} {token : Char} {join : Boolexp → Boolexp → Boolexp}

theorem reads_two (joins : Joins scene first symbol token join) {text later : List Char}
    {b b' : Boolexp} (head : Reads scene first text (token :: later) b)
    (tail : Reads scene symbol later rest b') : Reads scene symbol text rest (join b b') := by
  obtain ⟨rest₁, parsed₁, operator⟩ := head
  obtain ⟨rest', parsed, skipped⟩ := tail
  refine ⟨rest', ?_, skipped⟩
  rw [joins, parsed₁, bind_some]
  simp only [operator]
  rw [joined, if_pos rfl, parsed]
  rfl

theorem reads_one (joins : Joins scene first symbol token join) {text : List Char} {b : Boolexp}
    (head : Reads scene first text rest b) (follow : Follow symbol rest)
    (o : token ∉ follows symbol) : Reads scene symbol text rest b := by
  obtain ⟨rest₁, parsed₁, skipped⟩ := head
  refine ⟨rest, ?_, skip_of_startsToken follow.startsToken⟩
  rw [joins, parsed₁, bind_some]
  simp only [skipped]
  exact joined_of_ne (follow.ne_cons o)

end Joined

theorem Follow.mono {symbol' : Symbol} (follow : Follow symbol rest)
    (more : ∀ c ∈ follows symbol, c ∈ follows symbol') : Follow symbol' rest :=
  fun c first => more c (follow c first)

theorem reads_of_derives {text : List Char} (derives : Derives scene Prefix.takes symbol text b) :
    ∀ {blank rest : List Char}, Blank blank → Follow symbol rest →
      Reads scene symbol (text ++ (blank ++ rest)) rest b := by
  induction derives with
  | atom white isAtom resolves =>
    intro blank rest white' follow
    exact reads_atom white isAtom resolves white' follow
  | parens white _ white₁ inside =>
    intro blank rest white' follow
    exact reads_parens white (fun _ => inside white₁ (follow_cons (by decide))) (blank ++ rest)
      (skip_blank_token white' follow.startsToken)
  | not white _ argument =>
    intro blank rest white' follow
    obtain ⟨rest', parsed, skipped⟩ := argument white' follow
    refine ⟨rest', ?_, skipped⟩
    rw [read_F (skip_operator white (by decide)), if_pos rfl, parsed]
    rfl
  | unary white _ taken argument =>
    intro blank rest white' follow
    exact reads_unary white taken (argument white' follow.toL)
  | plain start _ eq =>
    intro blank rest white' follow
    obtain ⟨rest', parsed, skipped⟩ := eq white' follow.toL
    exact ⟨rest', (read_plain (plainStart_append start white' follow)).trans parsed, skipped⟩
  | and _ white _ first snd =>
    intro blank rest white' follow
    rw [append_assoc, append_assoc, cons_append]
    exact reads_two joins_T (first white (follow_cons (by decide))) (snd white' follow)
  | factor _ eq =>
    intro blank rest white' follow
    exact reads_one joins_T (eq white' (follow.mono (by simp [follows]))) follow (by decide)
  | or _ white _ first snd =>
    intro blank rest white' follow
    rw [append_assoc, append_assoc, cons_append]
    exact reads_two joins_E (first white (follow_cons (by decide))) (snd white' follow)
  | term _ eq =>
    intro blank rest white' follow
    exact reads_one joins_E (eq white' (follow.mono (by simp [follows]))) follow (by decide)

end Completeness

theorem parseBoolexp_of_read {scene : Scene} {buf rest : List Char} {b : Boolexp} (some' : buf ≠ [])
    (parsed : read scene buf .E = some (b, rest)) : parseBoolexp scene buf = some b := by
  obtain ⟨⟨b', rest'⟩, parsed', result⟩ := map_eq_some_iff.mp parsed
  cases result
  rw [parseBoolexp, if_neg some', parsed']
  rfl

/-- The text parse_boolexp consumes, up to where `parsebuf` is then, derives the lock it
returns; a string of the grammar gives its lock. -/
theorem parse_boolexp_grammar (scene : Scene) (buf : List Char) (b : Boolexp) :
    (parseBoolexp scene buf = some b → ∃ consumed blank rest, parseE scene buf = some (b, rest) ∧
      buf = consumed ++ (blank ++ rest.1) ∧ Blank blank ∧
      Derives scene Prefix.takes .E consumed b) ∧
    (IsLock scene Prefix.takes buf b → parseBoolexp scene buf = some b) := by
  constructor
  · intro returned
    unfold parseBoolexp at returned
    split_ifs at returned
    obtain ⟨⟨b', rest⟩, parsed, rfl⟩ := map_eq_some_iff.mp returned
    obtain ⟨consumed, blank, split, white, derives⟩ :=
      sound scene buf .E b' rest.1 (by rw [read, parsed]; rfl)
    exact ⟨consumed, blank, rest, parsed, split, white, derives⟩
  · rintro ⟨some', text, blank, rfl, white, derives⟩
    obtain ⟨rest', parsed, _⟩ := reads_of_derives derives white (follow_nil .E)
    rw [append_nil] at parsed
    exact parseBoolexp_of_read some' parsed

section Compound

def oneObject : Scene where
  atrStr _ := none
  god := false
  internal := false
  goodObj thing := thing = 1
  matchResult name := if name = ['#', '1'] then 1 else nothing

theorem derives_one (takes : Prefix → Boolexp → Bool) :
    Derives oneObject takes .F ['#', '1'] (.const 1) :=
  .plain (by decide) (@Derives.atom oneObject takes [] ['#', '1'] (.const 1) blank_nil
    ⟨by simp [atomChar], by decide, by simp, by decide⟩ (by decide))

theorem derives_both (takes : Prefix → Boolexp → Bool) :
    Derives oneObject takes .L ['(', '#', '1', '&', '#', '1', ')']
      (.and (.const 1) (.const 1)) :=
  @Derives.parens oneObject takes [] [] ['#', '1', '&', '#', '1'] _ blank_nil
    (.term (@Derives.and oneObject takes [] ['#', '1'] ['#', '1'] _ _ (derives_one takes) blank_nil
      (.factor (derives_one takes)))) blank_nil

theorem parse_oneObject : parseBoolexp oneObject ['(', '#', '1', '&', '#', '1', ')'] =
    some (.and (.const 1) (.const 1)) :=
  (parse_boolexp_grammar oneObject _ _).2 ⟨by decide, _, [], (append_nil _).symm, blank_nil,
    .term (.factor (.plain (by decide) (derives_both Prefix.takes)))⟩

/-- "@(#1&#1)" is a string of the grammar, but the argument of `@` must be an object. -/
theorem compound_operand :
    IsLock oneObject (fun _ _ => true) ['@', '(', '#', '1', '&', '#', '1', ')']
      (.unary .indir (.and (.const 1) (.const 1))) ∧
    parseBoolexp oneObject ['@', '(', '#', '1', '&', '#', '1', ')'] = none := by
  refine ⟨⟨by decide, _, [], (append_nil _).symm, blank_nil, .term (.factor
    (@Derives.unary oneObject _ [] _ .indir _ blank_nil (derives_both _) rfl))⟩, ?_⟩
  obtain ⟨rest, argument, _⟩ :=
    reads_of_derives (derives_both Prefix.takes) blank_nil (follow_nil .L)
  have operator : skipWhitespace ['@', '(', '#', '1', '&', '#', '1', ')'] =
      '@' :: ['(', '#', '1', '&', '#', '1', ')'] := by decide
  have refused : read oneObject ['@', '(', '#', '1', '&', '#', '1', ')'] .F = none := by
    rw [read_F operator, if_neg (by decide)]
    exact congrArg (Option.bind · fun (b, rest) =>
      if Prefix.indir.takes b then some (Boolexp.unary .indir b, rest) else none) argument
  have none' : read oneObject ['@', '(', '#', '1', '&', '#', '1', ')'] .E = none := by
    rw [joins_E, joins_T, refused]
    rfl
  rw [parseBoolexp, if_neg (by decide)]
  exact map_eq_none_iff.mpr (map_eq_none_iff.mp none')

end Compound

end BattletechMux.Lock
