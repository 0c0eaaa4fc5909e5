/-
Module: BattletechMux.Lock.Reprint
Purpose: What a lock is after it has been stored as text and read again.
-/
import BattletechMux.Lock.Grammar

namespace BattletechMux.Lock

open List hiding all_eq_true
open Option hiding all all_eq_true

open CText (isSpace atoi decimal)

variable {State : Type}

section Sameness

variable (game : Game State)

/-- Two locks that say the same about everybody, in every state, and do the same to it. -/
def Same (b b' : Boolexp) : Prop :=
  ∀ level indirect player thing from' state,
    evalWith game level indirect player thing from' b state =
      evalWith game level indirect player thing from' b' state

variable {game} {a b c a' b' : Boolexp} {level : Nat} {indirect : Int → State → Bool × State}
  {player thing from' : Int} {state : State}

theorem evalWith_and :
    evalWith game level indirect player thing from' (.and a b) state =
      let (first, state) := evalWith game level indirect player thing from' a state
      if first then evalWith game level indirect player thing from' b state
      else (false, state) := rfl

theorem evalWith_or :
    evalWith game level indirect player thing from' (.or a b) state =
      let (first, state) := evalWith game level indirect player thing from' a state
      if first then (true, state)
      else evalWith game level indirect player thing from' b state := rfl

theorem evalWith_not :
    evalWith game level indirect player thing from' (.not a) state =
      let (passed, state) := evalWith game level indirect player thing from' a state
      (!passed, state) := rfl

theorem Same.refl (b : Boolexp) : Same game b b := fun _ _ _ _ _ _ => rfl

theorem Same.trans (fst : Same game a b) (snd : Same game b c) : Same game a c :=
  fun level indirect player thing from' state =>
    (fst level indirect player thing from' state).trans
      (snd level indirect player thing from' state)

theorem Same.not (eq : Same game a a') : Same game (.not a) (.not a') := by
  intro level indirect player thing from' state
  simp only [evalWith_not, eq level indirect player thing from' state]

theorem Same.and (fst : Same game a a') (snd : Same game b b') :
    Same game (.and a b) (.and a' b') := by
  intro level indirect player thing from' state
  simp only [evalWith_and, fst level indirect player thing from',
    snd level indirect player thing from']

theorem Same.or (fst : Same game a a') (snd : Same game b b') :
    Same game (.or a b) (.or a' b') := by
  intro level indirect player thing from' state
  simp only [evalWith_or, fst level indirect player thing from',
    snd level indirect player thing from']

theorem same_and_assoc (a b c : Boolexp) : Same game (.and a (.and b c)) (.and (.and a b) c) := by
  intro level indirect player thing from' state
  by_cases passed : (evalWith game level indirect player thing from' a state).1 = true
  · simp [evalWith_and, passed]
  · simp [evalWith_and, passed]

theorem same_or_assoc (a b c : Boolexp) : Same game (.or a (.or b c)) (.or (.or a b) c) := by
  intro level indirect player thing from' state
  by_cases passed : (evalWith game level indirect player thing from' a state).1 = true
  · simp [evalWith_or, passed]
  · simp [evalWith_or, passed]

end Sameness

section Joining

variable {game : Game State} {scene : Scene} {takes : Prefix → Boolexp → Bool}
  {text text' : List Char} {b b' : Boolexp}

theorem derives_and (fst : Derives scene takes .T text b)
    (snd : Derives scene takes .T text' b') :
    ∃ b₁, Derives scene takes .T (text ++ '&' :: text') b₁ ∧ Same game b₁ (.and b b') := by
  generalize symbol : Symbol.T = nonterminal at fst
  induction fst with
  | @and blank head rest bHead bRest factor white _ _ ih =>
    obtain ⟨b₁, derives, eq⟩ := ih symbol
    refine ⟨.and bHead b₁, ?_, ((Same.refl bHead).and eq).trans (same_and_assoc _ _ _)⟩
    simpa using Derives.and factor white derives
  | @factor head bHead factor =>
    refine ⟨.and bHead b', ?_, .refl _⟩
    simpa using Derives.and factor blank_nil snd
  | atom => cases symbol
  | parens => cases symbol
  | not => cases symbol
  | unary => cases symbol
  | plain => cases symbol
  | or => cases symbol
  | term => cases symbol

theorem derives_or (fst : Derives scene takes .E text b)
    (snd : Derives scene takes .E text' b') :
    ∃ b₁, Derives scene takes .E (text ++ '|' :: text') b₁ ∧ Same game b₁ (.or b b') := by
  generalize symbol : Symbol.E = nonterminal at fst
  induction fst with
  | @or blank head rest bHead bRest term white _ _ ih =>
    obtain ⟨b₁, derives, eq⟩ := ih symbol
    refine ⟨.or bHead b₁, ?_, ((Same.refl bHead).or eq).trans (same_or_assoc _ _ _)⟩
    simpa using Derives.or term white derives
  | @term head bHead term =>
    refine ⟨.or bHead b', ?_, .refl _⟩
    simpa using Derives.or term blank_nil snd
  | atom => cases symbol
  | parens => cases symbol
  | not => cases symbol
  | unary => cases symbol
  | plain => cases symbol
  | and => cases symbol
  | factor => cases symbol

end Joining

section Shape

/-- The key of an attribute test: what an atom can end with. -/
structure KeyText (key : List Char) : Prop where
  chars : ∀ c ∈ key, atomChar c = true
  stripped : stripTrailing key = key

def Formed : Boolexp → Prop
  | .and sub1 sub2 => Formed sub1 ∧ Formed sub2
  | .or sub1 sub2 => Formed sub1 ∧ Formed sub2
  | .not sub1 => Formed sub1
  | .unary type sub1 => type.takes sub1 = true ∧ Formed sub1
  | .const _ => True
  | .atr _ key => KeyText key
  | .eval _ key => KeyText key

variable {scene : Scene} {symbol : Symbol} {text name key : List Char} {b : Boolexp}

theorem stripped_iff (text : List Char) :
    stripTrailing text = text ↔ ∀ some' : text ≠ [], isSpace (text.getLast some') = false := by
  rw [stripTrailing, rdropWhile_eq_self_iff]
  simp

theorem stripped_append (front : List Char) (some' : text ≠ []) :
    stripTrailing (front ++ text) = front ++ text ↔ stripTrailing text = text := by
  rw [stripped_iff, stripped_iff]
  simp [some', getLast_append_of_ne_nil]

theorem key_stripped {c : Char} (stripped : stripTrailing (name ++ c :: key) = name ++ c :: key) :
    stripTrailing key = key := by
  by_cases empty : key = []
  · rw [empty]
    rfl
  · rw [append_cons] at stripped
    exact (stripped_append _ empty).mp stripped

theorem drop_takeWhile (p : Char → Bool) (text : List Char) :
    text.drop (text.takeWhile p).length = text.dropWhile p := by
  induction text with
  | nil => rfl
  | cons c text ih =>
    by_cases fst : p c = true
    · rw [takeWhile_cons_of_pos fst, dropWhile_cons_of_pos fst]
      exact ih
    · rw [takeWhile_cons_of_neg fst, dropWhile_cons_of_neg fst]
      rfl

theorem testAtr_formed (isAtom : IsAtom text) (hf : testAtr scene text = some b) : Formed b := by
  unfold testAtr at hf
  simp only [drop_takeWhile] at hf
  split at hf
  · cases hf
  · rename_i c key split
    have whole : text = text.takeWhile (fun c => c ≠ ':' ∧ c ≠ '/') ++ c :: key := by
      rw [← split, takeWhile_append_dropWhile]
    have formed : KeyText key := by
      refine ⟨fun d mem => isAtom.chars d ?_, key_stripped (c := c) (whole ▸ isAtom.stripped)⟩
      rw [whole]
      exact mem_append_right _ (mem_cons_of_mem _ mem)
    obtain ⟨number, _, rfl⟩ := map_eq_some_iff.mp hf
    split
    · exact formed
    · exact formed

theorem objectRef_formed (hf : objectRef scene text = some b) : Formed b := by
  unfold objectRef at hf
  simp only at hf
  split at hf
  · cases hf
  · split at hf
    · cases hf
    · cases hf
      trivial

theorem formed_of_derives (derives : Derives scene Prefix.takes symbol text b) : Formed b := by
  induction derives with
  | atom _ isAtom resolves =>
    unfold atom at resolves
    split at resolves
    · rename_i hf
      cases resolves
      exact testAtr_formed isAtom hf
    · exact objectRef_formed resolves
  | parens _ _ _ hin => exact hin
  | not _ _ argument => exact argument
  | unary _ _ taken argument => exact ⟨taken, argument⟩
  | plain _ _ eq => exact eq
  | and _ _ _ fst snd => exact ⟨fst, snd⟩
  | factor _ eq => exact eq
  | or _ _ _ fst snd => exact ⟨fst, snd⟩
  | term _ eq => exact eq

end Shape

section Names

variable {name : List Char} {c : Char}

theorem upper_le_of_isAlpha (letter : c.isAlpha = true) : 'A' ≤ c := by
  rcases (Bool.or_eq_true _ _).mp letter with upper | lower
  · exact (of_decide_eq_true upper : 'A' ≤ c ∧ c ≤ 'Z').1
  · exact le_trans (show 'A' ≤ 'a' by decide)
      (of_decide_eq_true ((Bool.and_eq_true _ _).mp lower).1)

theorem zero_le_of_isAlphanum (alphanum : c.isAlphanum = true) : '0' ≤ c := by
  rcases (Bool.or_eq_true _ _).mp alphanum with letter | digit
  · exact le_trans (show '0' ≤ 'A' by decide) (upper_le_of_isAlpha letter)
  · exact of_decide_eq_true ((Bool.and_eq_true _ _).mp digit).1

theorem not_space_of_isAlphanum (alphanum : c.isAlphanum = true) : isSpace c = false := by
  have low := zero_le_of_isAlphanum alphanum
  simp only [isSpace, decide_eq_false_iff_not, not_or, not_and, not_le]
  refine ⟨?_, fun _ => lt_of_lt_of_le (show '\r' < '0' by decide) low⟩
  rintro rfl
  exact absurd alphanum (by decide)

theorem not_isDigit_of_isAlpha (letter : c.isAlpha = true) : c.isDigit = false := by
  by_contra digit
  rw [Bool.not_eq_false] at digit
  have below : c ≤ '9' := of_decide_eq_true ((Bool.and_eq_true _ _).mp digit).2
  exact absurd (le_trans (upper_le_of_isAlpha letter) below) (by decide)

theorem named_chars (named : attrName name = true) (mem : c ∈ name) :
    c ≠ '|' ∧ c ≠ ':' ∧ isSpace c = false := by
  have plain : ∀ name : List Char, okAttrName name = true → c ∈ name →
      c ≠ '|' ∧ c ≠ ':' ∧ isSpace c = false := by
    intro name ok mem
    cases name with
    | nil => cases mem
    | cons fst rest =>
      simp only [okAttrName, Bool.and_eq_true, List.all_eq_true] at ok
      rcases (Bool.or_eq_true _ _).mp (ok.2 c mem) with alphanum | special
      · refine ⟨?_, ?_, not_space_of_isAlphanum alphanum⟩
        · rintro rfl
          exact absurd alphanum (by decide)
        · rintro rfl
          exact absurd alphanum (by decide)
      · revert special
        simp only [decide_eq_true_eq, mem_cons, not_mem_nil, or_false]
        rintro (rfl | rfl | rfl | rfl | rfl | rfl | rfl | rfl | rfl | rfl | rfl | rfl | rfl | rfl |
          rfl | rfl | rfl | rfl | rfl | rfl | rfl) <;> decide
  unfold attrName at named
  split at named
  · rcases mem_cons.mp mem with rfl | mem
    · decide
    · exact plain _ named mem
  · exact plain _ named mem

theorem named_start (named : attrName name = true) :
    ∃ c rest, name = c :: rest ∧ (c = '*' ∨ c.isAlpha = true) := by
  unfold attrName at named
  split at named
  · exact ⟨_, _, rfl, .inl rfl⟩
  · cases name with
    | nil => cases named
    | cons c rest =>
      simp only [okAttrName, Bool.and_eq_true] at named
      exact ⟨c, rest, rfl, .inr named.1⟩

theorem start_plain (start : c = '*' ∨ c.isAlpha = true) :
    c ≠ '(' ∧ c ≠ '!' ∧ c ≠ '#' ∧ Prefix.ofToken c = none := by
  have o : ∀ d : Char, ¬ (d = '*' ∨ d.isAlpha = true) → c ≠ d := fun d wrong eq =>
    wrong (eq ▸ start)
  refine ⟨o _ (by decide), o _ (by decide), o _ (by decide), ?_⟩
  rw [Prefix.ofToken, if_neg (o _ (by decide)), if_neg (o _ (by decide)),
    if_neg (o _ (by decide)), if_neg (o _ (by decide))]

end Names

section Atoms

variable {game : Game State} {state : State} {player number : Int} {key : List Char}

def Boolexp.attributes : Boolexp → List Int
  | .and sub1 sub2 => sub1.attributes ++ sub2.attributes
  | .or sub1 sub2 => sub1.attributes ++ sub2.attributes
  | .not sub1 => sub1.attributes
  | .unary _ sub1 => sub1.attributes
  | .const _ => []
  | .atr number _ => [number]
  | .eval number _ => [number]

def Boolexp.things : Boolexp → List Int
  | .and sub1 sub2 => sub1.things ++ sub2.things
  | .or sub1 sub2 => sub1.things ++ sub2.things
  | .not sub1 => sub1.things
  | .unary _ sub1 => sub1.things
  | .const thing => [thing]
  | .atr _ _ => []
  | .eval _ _ => []

/-- A number that still has an attribute, with a name that leads back to the number and
that ends neither an atom nor the name in front of a key. -/
def Readable (game : Game State) (state : State) (number : Int) : Prop :=
  ∃ attr ∈ game.atrNum state number,
    (game.atrStr state attr.name).map Attr.number = some number ∧
      ∀ c ∈ attr.name, c ≠ '&' ∧ c ≠ ')' ∧ c ≠ '/'

def attributeTest (sep : Char) (number : Int) (key : List Char) : Boolexp :=
  if sep = '/' then .eval number key else .atr number key

theorem plainStart_cons {c : Char} {rest : List Char} (token : isSpace c = false) (plain : c ≠ '!')
    (o : Prefix.ofToken c = none) : PlainStart (c :: rest) := by
  intro d fst
  rw [skip_of_startsToken (by simpa [StartsToken] using token)] at fst
  cases fst
  exact ⟨plain, o⟩

theorem testAtr_eq (scene : Scene) {name key : List Char} {sep : Char}
    (inName : ∀ c ∈ name, c ≠ ':' ∧ c ≠ '/') (separator : sep = ':' ∨ sep = '/') :
    testAtr scene (name ++ sep :: key) =
      ((scene.atrStr name).or
        (if scene.god ∧ name.all Char.isDigit then some (atoi name) else none)).map
          fun number => attributeTest sep number key := by
  have pass : ∀ c ∈ name, decide (c ≠ ':' ∧ c ≠ '/') = true := fun c mem =>
    decide_eq_true (inName c mem)
  have stops : ¬ decide (sep ≠ ':' ∧ sep ≠ '/') = true := by
    rcases separator with rfl | rfl <;> decide
  unfold testAtr
  simp only [drop_takeWhile]
  rw [takeWhile_append_of_pos pass, dropWhile_append_of_pos pass,
    takeWhile_cons_of_neg (p := fun c => decide (c ≠ ':' ∧ c ≠ '/')) stops,
    dropWhile_cons_of_neg (p := fun c => decide (c ≠ ':' ∧ c ≠ '/')) stops, append_nil]
  cases scene.atrStr name <;> rfl

theorem testAtr_name (scene : Scene) {name : List Char} {sep : Char}
    (inName : ∀ c ∈ name, c ≠ ':' ∧ c ≠ '/') (separator : sep = ':' ∨ sep = '/')
    (known : scene.atrStr name = some number) :
    testAtr scene (name ++ sep :: key) = some (attributeTest sep number key) := by
  rw [testAtr_eq scene inName separator, known]
  rfl

theorem testAtr_plain (scene : Scene) {text : List Char}
    (plain : ∀ c ∈ text, c ≠ ':' ∧ c ≠ '/') : testAtr scene text = none := by
  unfold testAtr
  simp only [drop_takeWhile]
  rw [dropWhile_eq_nil_iff.mpr fun c mem => decide_eq_true (plain c mem)]

theorem isAtom_test {name : List Char} {fst : Char} {more : List Char}
    (some' : name = fst :: more)
    (token : isSpace fst = false) (bare : fst ≠ '(') (chars : ∀ c ∈ name, atomChar c = true)
    (formed : KeyText key) {sep : Char} (separator : sep = ':' ∨ sep = '/') :
    IsAtom (name ++ sep :: key) := by
  refine ⟨?_, ?_, ?_, ?_⟩
  · intro c mem
    rcases mem_append.mp mem with inName | inKey
    · exact chars c inName
    · rcases mem_cons.mp inKey with rfl | inKey
      · rcases separator with rfl | rfl <;> decide
      · exact formed.chars c inKey
  · rw [some']
    simpa [StartsToken] using token
  · rw [some']
    simpa using bare
  · rw [stripped_append _ (cons_ne_nil _ _)]
    by_cases empty : key = []
    · rw [empty]
      rcases separator with rfl | rfl <;> decide
    · rw [← singleton_append, stripped_append _ empty]
      exact formed.stripped

theorem isAtom_name (attr : Attr) (plain : ∀ c ∈ attr.name, c ≠ '&' ∧ c ≠ ')')
    (formed : KeyText key) {sep : Char} (separator : sep = ':' ∨ sep = '/') :
    IsAtom (attr.name ++ sep :: key) := by
  obtain ⟨fst, more, name, start⟩ := named_start attr.named
  have mem : fst ∈ attr.name := name ▸ mem_cons_self
  refine isAtom_test name (named_chars attr.named mem).2.2 (start_plain start).1 ?_ formed separator
  intro c mem
  exact decide_eq_true ⟨(plain c mem).1, (named_chars attr.named mem).1, (plain c mem).2⟩

theorem plainStart_test (attr : Attr) (rest : List Char) : PlainStart (attr.name ++ rest) := by
  obtain ⟨fst, more, name, start⟩ := named_start attr.named
  have token := (named_chars attr.named (c := fst) (by rw [name]; exact mem_cons_self)).2.2
  rw [name]
  exact plainStart_cons token (start_plain start).2.1 (start_plain start).2.2.2

theorem derives_test (readable : Readable game state number) (formed : KeyText key) {sep : Char}
    (separator : sep = ':' ∨ sep = '/') :
    Derives (game.scene state player true) Prefix.takes .L
        (unparseAttr game state number ++ sep :: key) (attributeTest sep number key) ∧
      PlainStart (unparseAttr game state number ++ sep :: key) := by
  obtain ⟨attr, hf, back, plain⟩ := readable
  have printed : unparseAttr game state number = attr.name := by
    rw [unparseAttr, mem_def.mp hf]
  have isAtom := isAtom_name attr (fun c mem => ⟨(plain c mem).1, (plain c mem).2.1⟩)
    formed separator
  have resolves : testAtr (game.scene state player true) (attr.name ++ sep :: key) =
      some (attributeTest sep number key) :=
    testAtr_name _ (fun c mem => ⟨(named_chars attr.named mem).2.1, (plain c mem).2.2⟩)
      separator back
  rw [printed]
  refine ⟨@Derives.atom _ _ [] (attr.name ++ sep :: key) _ blank_nil isAtom ?_,
    plainStart_test attr _⟩
  rw [atom, resolves]

theorem isAtom_number {thing : Int} (natural : 0 ≤ thing) :
    IsAtom ('#' :: decimal thing) ∧ ∀ c ∈ '#' :: decimal thing, c ≠ ':' ∧ c ≠ '/' := by
  have written : decimal thing = Nat.toDigits 10 thing.natAbs := if_neg (by omega)
  have some' : decimal thing ≠ [] := written ▸ Nat.toDigits_ne_nil
  have digits : ∀ c ∈ decimal thing, c.isDigit = true := fun c mem =>
    CText.isDigit_of_mem (written ▸ mem)
  have o : ∀ d : Char, d.isDigit = false → ∀ c ∈ decimal thing, c ≠ d := by
    rintro d wrong c mem rfl
    exact absurd (digits c mem) (by simp [wrong])
  refine ⟨⟨?_, by simp [StartsToken, isSpace], by simp, ?_⟩, ?_⟩
  · intro c mem
    rcases mem_cons.mp mem with rfl | mem
    · decide
    · exact decide_eq_true ⟨o _ (by decide) c mem, o _ (by decide) c mem,
        o _ (by decide) c mem⟩
  · rw [← singleton_append, stripped_append _ some', stripped_iff]
    exact fun _ => (CText.plain_of_isDigit (digits _ (getLast_mem _))).1
  · intro c mem
    rcases mem_cons.mp mem with rfl | mem
    · decide
    · exact ⟨o _ (by decide) c mem, o _ (by decide) c mem⟩

theorem derives_const {thing : Int} (existing : game.goodObj state thing = true) :
    Derives (game.scene state player true) Prefix.takes .L (unparseObjectQuiet thing)
        (.const thing) ∧ PlainStart (unparseObjectQuiet thing) := by
  obtain ⟨natural, below, _⟩ := of_decide_eq_true existing
  have small := below.trans (game.dbTop_le state)
  have printed : unparseObjectQuiet thing = '(' :: '#' :: (decimal thing ++ [')']) := by
    rw [unparseObjectQuiet, if_neg (by rw [nothing]; omega), if_neg (by rw [home]; omega)]
  have number : atoi (decimal thing) = thing := by
    have scanned := @CText.scanInt_decimal [] thing (by simp [CText.Stops])
    rw [append_nil] at scanned
    rw [atoi, scanned]
    exact CText.stored_of_bounds (by omega) small
  have resolves : atom (game.scene state player true) ('#' :: decimal thing) =
      some (.const thing) := by
    have o : ¬ (thing = nothing ∨ thing = ambiguous) := by
      rw [nothing, ambiguous]
      omega
    rw [atom, testAtr_plain _ (isAtom_number natural).2]
    simp only [objectRef, Game.scene, number, if_pos, existing]
    exact if_neg o
  have inner : Derives (game.scene state player true) Prefix.takes .L ('#' :: decimal thing)
      (.const thing) :=
    @Derives.atom _ _ [] ('#' :: decimal thing) _ blank_nil (isAtom_number natural).1 resolves
  have factor := Derives.plain (plainStart_cons (by decide) (by decide) (by decide)) inner
  rw [printed]
  refine ⟨?_, plainStart_cons (by decide) (by decide) (by decide)⟩
  simpa using @Derives.parens _ _ [] [] _ _ blank_nil (.term (.factor factor)) blank_nil

end Atoms

section Printed

variable {game : Game State} {state : State} {player : Int} {b : Boolexp}

/-- The text of a lock under this operator derives a lock that says the same. -/
def Prints (game : Game State) (state : State) (player : Int) (symbol : Symbol)
    (outer : BoolexpType) (b : Boolexp) : Prop :=
  ∃ b₁, Derives (game.scene state player true) Prefix.takes symbol
    (unparseBoolexp1 game state outer b) b₁ ∧ Same game b₁ b

theorem Prints.mono {symbol symbol' : Symbol} {outer outer' : BoolexpType}
    (prints : Prints game state player symbol outer b)
    (text : unparseBoolexp1 game state outer' b = unparseBoolexp1 game state outer b)
    (more : ∀ {text b₁}, Derives (game.scene state player true) Prefix.takes symbol text b₁ →
      Derives (game.scene state player true) Prefix.takes symbol' text b₁) :
    Prints game state player symbol' outer' b := by
  obtain ⟨b₁, derives, eq⟩ := prints
  exact ⟨b₁, text ▸ more derives, eq⟩

theorem derives_inParens {scene : Scene} {text : List Char} {b₁ : Boolexp}
    (hin : Derives scene Prefix.takes .E text b₁) :
    Derives scene Prefix.takes .F (inParens true text) b₁ := by
  have parens := @Derives.parens scene Prefix.takes [] [] text b₁ blank_nil hin blank_nil
  simp only [nil_append, append_nil] at parens
  exact .plain (plainStart_cons (by decide) (by decide) (by decide)) parens

/-- What a lock with this text is read as, for each operator it can stand under. -/
structure Printed (game : Game State) (state : State) (player : Int) (b : Boolexp) : Prop where
  factor : Prints game state player .F .not b
  term : Prints game state player .T .and b
  expression : Prints game state player .E .or b

theorem Printed.of_factor (factor : Prints game state player .F .not b)
    (text : ∀ outer, unparseBoolexp1 game state outer b = unparseBoolexp1 game state .not b) :
    Printed game state player b where
  factor := factor
  term := factor.mono (text _) .factor
  expression := factor.mono (text _) fun derives => .term (.factor derives)

section

variable (existing : ∀ thing ∈ b.things, game.goodObj state thing = true)
  (readable : ∀ number ∈ b.attributes, Readable game state number)
include existing readable

theorem derives_argument {type : Prefix}
    (taken : type.takes b = true) (formed : Formed b) (outer : BoolexpType) :
    Derives (game.scene state player true) Prefix.takes .L (unparseBoolexp1 game state outer b) b := by
  cases b with
  | const thing => exact (derives_const (existing thing (mem_singleton_self _))).1
  | atr number key =>
    exact (derives_test (readable number (mem_singleton_self _)) formed (.inl rfl)).1
  | and | or | not | unary | eval => cases type <;> cases taken

theorem printed (formed : Formed b) : Printed game state player b := by
  induction b with
  | and sub1 sub2 fst snd =>
    obtain ⟨b₁, derives₁, same₁⟩ := (fst (fun thing mem => existing thing
      (mem_append_left _ mem)) (fun number mem => readable number
      (mem_append_left _ mem)) formed.1).term
    obtain ⟨b₂, derives₂, same₂⟩ := (snd (fun thing mem => existing thing
      (mem_append_right _ mem)) (fun number mem => readable number
      (mem_append_right _ mem)) formed.2).term
    obtain ⟨b, derives, eq⟩ := derives_and derives₁ derives₂
    have whole := eq.trans (same₁.and same₂)
    exact ⟨⟨b, derives_inParens (.term derives), whole⟩, ⟨b, derives, whole⟩,
      ⟨b, .term derives, whole⟩⟩
  | or sub1 sub2 fst snd =>
    obtain ⟨b₁, derives₁, same₁⟩ := (fst (fun thing mem => existing thing
      (mem_append_left _ mem)) (fun number mem => readable number
      (mem_append_left _ mem)) formed.1).expression
    obtain ⟨b₂, derives₂, same₂⟩ := (snd (fun thing mem => existing thing
      (mem_append_right _ mem)) (fun number mem => readable number
      (mem_append_right _ mem)) formed.2).expression
    obtain ⟨b, derives, eq⟩ := derives_or derives₁ derives₂
    have whole := eq.trans (same₁.or same₂)
    exact ⟨⟨b, derives_inParens derives, whole⟩, ⟨b, .factor (derives_inParens derives), whole⟩,
      ⟨b, derives, whole⟩⟩
  | not sub1 argument =>
    obtain ⟨b₁, derives, eq⟩ := (argument existing readable formed).factor
    exact .of_factor ⟨.not b₁, @Derives.not _ _ [] _ _ blank_nil derives, eq.not⟩ fun _ => rfl
  | unary type sub1 =>
    have argument := @derives_argument _ game state player sub1 existing readable type formed.1
      formed.2 type.type
    exact .of_factor ⟨.unary type sub1, @Derives.unary _ _ [] _ _ _ blank_nil argument formed.1,
      .refl _⟩ fun _ => rfl
  | const thing =>
    obtain ⟨derives, start⟩ := @derives_const _ game state player thing
      (existing thing (mem_singleton_self _))
    exact .of_factor ⟨_, .plain start derives, .refl _⟩ fun _ => rfl
  | atr number key =>
    obtain ⟨derives, start⟩ := @derives_test _ game state player number key
      (readable number (mem_singleton_self _)) formed ':' (.inl rfl)
    exact .of_factor ⟨_, .plain start derives, .refl _⟩ fun _ => rfl
  | eval number key =>
    obtain ⟨derives, start⟩ := @derives_test _ game state player number key
      (readable number (mem_singleton_self _)) formed '/' (.inr rfl)
    exact .of_factor ⟨_, .plain start derives, .refl _⟩ fun _ => rfl

end

end Printed

section Failing

variable {game : Game State} {state : State} {player : Int} {b : Boolexp}

/-- A number without an attribute, or with one whose name ends the atom too early or leads
to no attribute. -/
def Lost (game : Game State) (state : State) (number : Int) : Prop :=
  match game.atrNum state number with
  | none => 0 < number
  | some attr => (∀ c ∈ attr.name, c ≠ '/') ∧
      ((∃ c ∈ attr.name, c = '&' ∨ c = ')') ∨ game.atrStr state attr.name = none)

def Fails (game : Game State) (state : State) (player : Int) (symbol : Symbol)
    (outer : BoolexpType) (b : Boolexp) : Prop :=
  ∀ rest, Follow .L rest →
    read (game.scene state player true) (unparseBoolexp1 game state outer b ++ rest) symbol = none

theorem atom_fails {scene : Scene} (internal : scene.internal = true) {buf : List Char}
    (noTest : testAtr scene buf = none) (o : ∀ c ∈ buf.head?, c ≠ '#') :
    atom scene buf = none := by
  rw [atom, noTest]
  cases buf with
  | nil => simp [objectRef, internal]
  | cons c buf =>
    have plain := o c rfl
    simp only [objectRef, internal, if_true]
    split
    · rfl
    · rename_i hf
      split at hf
      · rename_i eq
        exact absurd (cons.inj eq).1 plain
      · cases hf

theorem read_L_fails {scene : Scene} {c : Char} {text : List Char} (token : isSpace c = false)
    (bare : c ≠ '(')
    (fails : atom scene (stripTrailing ((c :: text).takeWhile atomChar)) = none) :
    read scene (c :: text) .L = none := by
  have skipped : skipWhitespace (c :: text) = c :: text :=
    skip_of_startsToken (by simpa [StartsToken] using token)
  rw [read_atom (by rw [skipped]; intro hin eq; exact bare (cons.inj eq).1), skipped,
    fails]
  rfl

theorem read_atom_fails {scene : Scene} {text rest : List Char} (isAtom : IsAtom text)
    (some' : text ≠ []) (follow : Follow .L rest) (fails : atom scene text = none) :
    read scene (text ++ rest) .L = none := by
  cases text with
  | nil => exact absurd rfl some'
  | cons c text =>
    have run : (c :: (text ++ rest)).takeWhile atomChar = c :: text := by
      rw [← cons_append, takeWhile_append_of_pos isAtom.chars, follow.run.1,
        append_nil]
    refine read_L_fails (isAtom.start c rfl) (isAtom.bare c rfl) ?_
    exact (congrArg (fun buf => atom scene (stripTrailing buf)) run).trans
      ((congrArg (atom scene) isAtom.stripped).trans fails)

theorem read_name_fails {scene : Scene} (internal : scene.internal = true) (attr : Attr)
    (noSlash : ∀ c ∈ attr.name, c ≠ '/') (ends : ∃ c ∈ attr.name, c = '&' ∨ c = ')')
    (rest : List Char) : read scene (attr.name ++ rest) .L = none := by
  obtain ⟨fst, more, name, start⟩ := named_start attr.named
  have mem : fst ∈ attr.name := name ▸ mem_cons_self
  have cut : (attr.name ++ rest).takeWhile atomChar = attr.name.takeWhile atomChar := by
    rw [takeWhile_append]
    refine if_neg fun whole => ?_
    obtain ⟨c, inName, stop⟩ := ends
    have inFront : attr.name.takeWhile atomChar <+: attr.name := takeWhile_prefix _
    have all := takeWhile_eq_self_iff.mp (inFront.eq_of_length whole)
    rcases stop with rfl | rfl <;> exact absurd (all _ inName) (by decide)
  have inFront : stripTrailing (attr.name.takeWhile atomChar) <+: attr.name := by
    refine IsPrefix.trans ?_ <| takeWhile_prefix atomChar
    exact rdropWhile_prefix _ _
  have fails : atom scene (stripTrailing ((attr.name ++ rest).takeWhile atomChar)) = none := by
    rw [cut]
    refine atom_fails internal (testAtr_plain _ fun c mem => ?_) fun c head => ?_
    · have inName := inFront.subset mem
      exact ⟨(named_chars attr.named inName).2.1, noSlash c inName⟩
    · have head := head?_of_front inFront head
      rw [name] at head
      cases head
      exact (start_plain start).2.2.1
  rw [name] at fails ⊢
  exact read_L_fails (named_chars attr.named mem).2.2 (start_plain start).1 fails

theorem testAtr_unknown {scene : Scene} (notGod : scene.god = false) {name key : List Char}
    {sep : Char}
    (inName : ∀ c ∈ name, c ≠ ':' ∧ c ≠ '/') (separator : sep = ':' ∨ sep = '/')
    (unknown : scene.atrStr name = none) : testAtr scene (name ++ sep :: key) = none := by
  rw [testAtr_eq scene inName separator, unknown, notGod]
  rfl

theorem read_unknown_fails {scene : Scene} (internal : scene.internal = true)
    (notGod : scene.god = false) {name key rest : List Char} {fst : Char} {more : List Char}
    {sep : Char} (some' : name = fst :: more) (o : fst ≠ '#')
    (isAtom : IsAtom (name ++ sep :: key))
    (inName : ∀ c ∈ name, c ≠ ':' ∧ c ≠ '/') (separator : sep = ':' ∨ sep = '/')
    (unknown : scene.atrStr name = none) (follow : Follow .L rest) :
    read scene (name ++ sep :: key ++ rest) .L = none := by
  refine read_atom_fails isAtom (by simp) follow
    (atom_fails internal (testAtr_unknown notGod inName separator unknown) ?_)
  intro c head
  rw [some'] at head
  cases head
  exact o

theorem read_number_fails {number : Int} {key rest : List Char}
    (gone : game.atrNum state number = none)
    (pos : 0 < number) (mortal : player ≠ god) (formed : KeyText key) {sep : Char}
    (separator : sep = ':' ∨ sep = '/') (follow : Follow .L rest) :
    read (game.scene state player true) (unparseAttr game state number ++ sep :: key ++ rest) .L =
        none ∧ PlainStart (unparseAttr game state number ++ sep :: key ++ rest) := by
  have printed : unparseAttr game state number = Nat.toDigits 10 number.natAbs := by
    rw [unparseAttr, gone]
    exact (if_pos pos).trans (if_neg (by omega))
  have digits : ∀ c ∈ Nat.toDigits 10 number.natAbs, c.isDigit = true := fun _ =>
    CText.isDigit_of_mem
  have o : ∀ d : Char, d.isDigit = false → ∀ c ∈ Nat.toDigits 10 number.natAbs, c ≠ d := by
    rintro d wrong c mem rfl
    exact absurd (digits c mem) (by simp [wrong])
  obtain ⟨fst, more, name⟩ :=
    exists_cons_of_ne_nil (Nat.toDigits_ne_nil (b := 10) (n := number.natAbs))
  have mem : fst ∈ Nat.toDigits 10 number.natAbs := name ▸ mem_cons_self
  have token := (CText.plain_of_isDigit (digits fst mem)).1
  have unknown : (game.scene state player true).atrStr (Nat.toDigits 10 number.natAbs) = none := by
    refine map_eq_none_iff.mpr (eq_none_iff_forall_ne_some.mpr fun attr hf => ?_)
    obtain ⟨c, head, start⟩ := game.atrStr_start _ _ _ hf
    rw [name] at head
    cases head
    have digit := digits fst mem
    rcases start with rfl | letter
    · exact absurd digit (by decide)
    · exact absurd digit (by simp [not_isDigit_of_isAlpha letter])
  have chars : ∀ c ∈ Nat.toDigits 10 number.natAbs, atomChar c = true := fun c inName =>
    decide_eq_true ⟨o _ (by decide) c inName, o _ (by decide) c inName,
      o _ (by decide) c inName⟩
  have noToken : Prefix.ofToken fst = none := by
    rw [Prefix.ofToken, if_neg (o _ (by decide) _ mem),
      if_neg (o _ (by decide) _ mem), if_neg (o _ (by decide) _ mem),
      if_neg (o _ (by decide) _ mem)]
  rw [printed]
  constructor
  · exact read_unknown_fails rfl (decide_eq_false mortal) name (o _ (by decide) _ mem)
      (isAtom_test name token (o _ (by decide) _ mem) chars formed separator)
      (fun c inName => ⟨o _ (by decide) c inName, o _ (by decide) c inName⟩) separator unknown
      follow
  · rw [name]
    exact plainStart_cons token (o _ (by decide) _ mem) noToken

theorem read_test_fails {number : Int} {key rest : List Char} (lost : Lost game state number)
    (mortal : player ≠ god) (formed : KeyText key) {sep : Char} (separator : sep = ':' ∨ sep = '/')
    (follow : Follow .L rest) :
    read (game.scene state player true) (unparseAttr game state number ++ sep :: key ++ rest) .L =
        none ∧ PlainStart (unparseAttr game state number ++ sep :: key ++ rest) := by
  unfold Lost at lost
  split at lost
  · rename_i gone
    exact read_number_fails gone lost mortal formed separator follow
  · rename_i attr hf
    have printed : unparseAttr game state number = attr.name := by rw [unparseAttr, hf]
    obtain ⟨noSlash, ends⟩ := lost
    rw [printed, append_assoc]
    refine ⟨?_, plainStart_test attr _⟩
    by_cases early : ∃ c ∈ attr.name, c = '&' ∨ c = ')'
    · exact read_name_fails rfl attr noSlash early _
    · obtain ⟨fst, more, name, start⟩ := named_start attr.named
      have unknown := ends.resolve_left early
      rw [← append_assoc]
      refine read_unknown_fails rfl (decide_eq_false mortal) name (start_plain start).2.2.1
        (isAtom_name attr (fun c mem => ⟨?_, ?_⟩) formed separator)
        (fun c mem => ⟨(named_chars attr.named mem).2.1, noSlash c mem⟩) separator
        (map_eq_none_iff.mpr unknown) follow
      · exact fun eq => early ⟨c, mem, .inl eq⟩
      · exact fun eq => early ⟨c, mem, .inr eq⟩

theorem read_fails_of_first {scene : Scene} {fst symbol : Symbol} {token : Char}
    {join : Boolexp → Boolexp → Boolexp} (joins : Joins scene fst symbol token join)
    {text : List Char} (fails : read scene text fst = none) : read scene text symbol = none := by
  rw [joins, fails]
  rfl

theorem read_fails_of_second {scene : Scene} {fst symbol : Symbol} {token : Char}
    {join : Boolexp → Boolexp → Boolexp} (joins : Joins scene fst symbol token join)
    {text later : List Char} {b₁ : Boolexp} (head : Reads scene fst text (token :: later) b₁)
    (fails : read scene later symbol = none) : read scene text symbol = none := by
  obtain ⟨rest, parsed, operator⟩ := head
  rw [joins, parsed, bind_some]
  simp only [operator]
  rw [joined, if_pos rfl, fails]
  rfl

theorem read_and_fails {scene : Scene} {text later : List Char} {b₁ : Boolexp}
    (fst : Derives scene Prefix.takes .T text b₁) (fails : read scene later .T = none) :
    read scene (text ++ '&' :: later) .T = none := by
  generalize symbol : Symbol.T = nonterminal at fst
  induction fst with
  | @and blank head rest _ _ factor white _ _ ih =>
    have reads : Reads scene .F (head ++ (blank ++ '&' :: (rest ++ '&' :: later)))
        ('&' :: (rest ++ '&' :: later)) _ :=
      reads_of_derives factor white (follow_cons (by decide))
    simpa using read_fails_of_second joins_T reads (ih symbol)
  | @factor head _ factor =>
    have reads : Reads scene .F (head ++ ([] ++ '&' :: later)) ('&' :: later) _ :=
      reads_of_derives factor blank_nil (follow_cons (by decide))
    exact read_fails_of_second joins_T reads fails
  | atom => cases symbol
  | parens => cases symbol
  | not => cases symbol
  | unary => cases symbol
  | plain => cases symbol
  | or => cases symbol
  | term => cases symbol

theorem read_or_fails {scene : Scene} {text later : List Char} {b₁ : Boolexp}
    (fst : Derives scene Prefix.takes .E text b₁) (fails : read scene later .E = none) :
    read scene (text ++ '|' :: later) .E = none := by
  generalize symbol : Symbol.E = nonterminal at fst
  induction fst with
  | @or blank head rest _ _ term white _ _ ih =>
    have reads : Reads scene .T (head ++ (blank ++ '|' :: (rest ++ '|' :: later)))
        ('|' :: (rest ++ '|' :: later)) _ :=
      reads_of_derives term white (follow_cons (by decide))
    simpa using read_fails_of_second joins_E reads (ih symbol)
  | @term head _ term =>
    have reads : Reads scene .T (head ++ ([] ++ '|' :: later)) ('|' :: later) _ :=
      reads_of_derives term blank_nil (follow_cons (by decide))
    exact read_fails_of_second joins_E reads fails
  | atom => cases symbol
  | parens => cases symbol
  | not => cases symbol
  | unary => cases symbol
  | plain => cases symbol
  | and => cases symbol
  | factor => cases symbol

theorem read_parens_fails {scene : Scene} {text : List Char}
    (hin : ∀ rest, Follow .L rest → read scene (text ++ rest) .E = none) (rest : List Char) :
    read scene (inParens true text ++ rest) .F = none := by
  have start : PlainStart (inParens true text ++ rest) :=
    plainStart_cons (by decide) (by decide) (by decide)
  have token : skipWhitespace (inParens true text ++ rest) = '(' :: (text ++ ([')'] ++ rest)) := by
    rw [skip_of_startsToken (by simp [inParens, StartsToken, isSpace])]
    simp [inParens]
  rw [read_plain start, read_parens token, hin ([')'] ++ rest) (follow_cons (by decide))]
  rfl

structure Failing (game : Game State) (state : State) (player : Int) (b : Boolexp) : Prop where
  factor : Fails game state player .F .not b
  term : Fails game state player .T .and b
  expression : Fails game state player .E .or b

theorem Failing.of_factor (factor : Fails game state player .F .not b)
    (text : ∀ outer, unparseBoolexp1 game state outer b = unparseBoolexp1 game state .not b) :
    Failing game state player b where
  factor := factor
  term rest follow := by
    rw [text]
    exact read_fails_of_first joins_T (factor rest follow)
  expression rest follow := by
    rw [text]
    exact read_fails_of_first joins_E (read_fails_of_first joins_T (factor rest follow))

theorem unary_fails {type : Prefix} {sub1 : Boolexp}
    (argument : ∀ rest, Follow .L rest →
      read (game.scene state player true) (unparseBoolexp1 game state type.type sub1 ++ rest) .L = none) :
    Failing game state player (.unary type sub1) := by
  refine .of_factor (fun rest follow => ?_) fun _ => rfl
  have operator : isSpace type.token = false ∧ type.token ≠ '!' ∧
      Prefix.ofToken type.token = some type := by cases type <;> decide
  have fails := argument rest follow
  have token := @skip_operator type.token [] (unparseBoolexp1 game state type.type sub1) rest blank_nil
    operator.1
  rw [unparseBoolexp1]
  rw [nil_append] at token
  rw [read_F token, if_neg operator.2.1, operator.2.2, fails]
  rfl

theorem failing (existing : ∀ thing ∈ b.things, game.goodObj state thing = true)
    (known : ∀ number ∈ b.attributes, Readable game state number ∨ Lost game state number)
    (formed : Formed b) (mortal : player ≠ god)
    (bad : ¬ ∀ number ∈ b.attributes, Readable game state number) :
    Failing game state player b := by
  induction b with
  | and sub1 sub2 fst snd =>
    have existing₁ := fun thing mem => existing thing (mem_append_left _ mem)
    have existing₂ := fun thing mem => existing thing (mem_append_right _ mem)
    have known₁ := fun number mem => known number (mem_append_left _ mem)
    have known₂ := fun number mem => known number (mem_append_right _ mem)
    have fails : ∀ rest, Follow .L rest → read (game.scene state player true)
        (unparseBoolexp1 game state .and sub1 ++ '&' :: unparseBoolexp1 game state .and sub2 ++ rest)
        .T = none := by
      intro rest follow
      rw [append_assoc]
      by_cases readable : ∀ number ∈ sub1.attributes, Readable game state number
      · obtain ⟨b₁, derives, _⟩ := (@printed _ game state player sub1 existing₁ readable formed.1).term
        have bad₂ : ¬ ∀ number ∈ sub2.attributes, Readable game state number := fun readable₂ =>
          bad fun number mem => (mem_append.mp mem).elim (readable number) (readable₂ number)
        exact read_and_fails derives ((snd existing₂ known₂ formed.2 bad₂).term rest follow)
      · exact (fst existing₁ known₁ formed.1 readable).term _ (follow_cons (by decide))
    have whole := fun rest follow => read_fails_of_first joins_E (fails rest follow)
    exact ⟨fun rest _ => read_parens_fails whole rest, fails, whole⟩
  | or sub1 sub2 fst snd =>
    have existing₁ := fun thing mem => existing thing (mem_append_left _ mem)
    have existing₂ := fun thing mem => existing thing (mem_append_right _ mem)
    have known₁ := fun number mem => known number (mem_append_left _ mem)
    have known₂ := fun number mem => known number (mem_append_right _ mem)
    have fails : ∀ rest, Follow .L rest → read (game.scene state player true)
        (unparseBoolexp1 game state .or sub1 ++ '|' :: unparseBoolexp1 game state .or sub2 ++ rest)
        .E = none := by
      intro rest follow
      rw [append_assoc]
      by_cases readable : ∀ number ∈ sub1.attributes, Readable game state number
      · obtain ⟨b₁, derives, _⟩ :=
          (@printed _ game state player sub1 existing₁ readable formed.1).expression
        have bad₂ : ¬ ∀ number ∈ sub2.attributes, Readable game state number := fun readable₂ =>
          bad fun number mem => (mem_append.mp mem).elim (readable number) (readable₂ number)
        exact read_or_fails derives ((snd existing₂ known₂ formed.2 bad₂).expression rest follow)
      · exact (fst existing₁ known₁ formed.1 readable).expression _ (follow_cons (by decide))
    have hin := fun rest (_ : Follow .L rest) => read_parens_fails fails rest
    exact ⟨hin, fun rest follow => read_fails_of_first joins_T (hin rest follow), fails⟩
  | not sub1 argument =>
    refine .of_factor (fun rest follow => ?_) fun _ => rfl
    have fails := (argument existing known formed bad).factor rest follow
    have token := @skip_operator '!' [] (unparseBoolexp1 game state .not sub1) rest blank_nil
      (by decide)
    rw [nil_append] at token
    rw [unparseBoolexp1, read_F token, if_pos rfl, fails]
    rfl
  | unary type sub1 =>
    cases sub1 with
    | const thing => exact absurd (fun number mem => absurd mem not_mem_nil) bad
    | atr number key =>
      have lost := (known number (mem_singleton_self _)).resolve_left fun readable =>
        bad fun n mem => mem_singleton.mp mem ▸ readable
      exact unary_fails fun rest follow =>
        (read_test_fails lost mortal formed.2 (.inl rfl) follow).1
    | and | or | not | unary | eval => cases type <;> cases formed.1
  | const thing => exact absurd (fun number mem => absurd mem not_mem_nil) bad
  | atr number key =>
    have lost := (known number (mem_singleton_self _)).resolve_left fun readable =>
      bad fun n mem => mem_singleton.mp mem ▸ readable
    refine .of_factor (fun rest follow => ?_) fun _ => rfl
    have fails := @read_test_fails _ game state player number key rest lost mortal formed ':'
      (.inl rfl) follow
    exact (read_plain fails.2).trans fails.1
  | eval number key =>
    have lost := (known number (mem_singleton_self _)).resolve_left fun readable =>
      bad fun n mem => mem_singleton.mp mem ▸ readable
    refine .of_factor (fun rest follow => ?_) fun _ => rfl
    have fails := @read_test_fails _ game state player number key rest lost mortal formed '/'
      (.inr rfl) follow
    exact (read_plain fails.2).trans fails.1

end Failing

end BattletechMux.Lock
