/-
Module: BattletechMux.Lock.Keeping
Purpose: Which locks stay what they are when they are stored.
Trusted boundary: the attribute tables, the database and softcode are given
-/
import BattletechMux.Lock.Reprint

namespace BattletechMux.Lock

section

variable {State : Type}

section Keeping

variable (game : Game State) (state : State)

def Fits (b : Boolexp) : Prop :=
  (unparseBoolexp1 game state .const b).length ≤ lbufSize - 1

instance (b : Boolexp) : Decidable (Fits game state b) := inferInstanceAs (Decidable (_ ≤ _))

/-- The lock is there after it has been stored, whoever it is parsed for, and says the
same as before, at any level of nesting and in any state. -/
def Kept (b : Boolexp) : Prop :=
  ∀ player, ∃ b', parseBoolexp (game.scene state player true) (unparseBoolexpQuiet game state b) =
      some b' ∧
    ∀ level thing from' later, evalBoolexp game level player thing from' b' later =
      evalBoolexp game level player thing from' b later

variable {game state} {b b' : Boolexp} {player : Int}

theorem unparse_of_fits (fits : Fits game state b) :
    unparseBoolexpQuiet game state b = unparseBoolexp1 game state .or b := by
  have outer : unparseBoolexp1 game state .const b = unparseBoolexp1 game state .or b := by
    cases b <;> rfl
  rw [unparseBoolexpQuiet, List.take_of_length_le fits, outer]

theorem derives_ne_nil {scene : Scene} {symbol : Symbol} {text : List Char}
    (derives : Derives scene Prefix.takes symbol text b) (internal : scene.internal = true) :
    text ≠ [] := by
  induction derives with
  | atom _ _ resolves =>
    rintro empty
    rw [(List.append_eq_nil_iff.mp empty).2] at resolves
    exact absurd resolves (by
      rw [atom_fails internal (testAtr_plain _ (by simp)) (by simp)]
      simp)
  | parens | not | unary => simp
  | plain _ _ same => exact same
  | factor _ same => exact same
  | term _ same => exact same
  | and | or => simp

theorem Same.evalBoolexp (same : Same game b' b) (level : Nat) (player thing from' : Int)
    (later : State) : evalBoolexp game level player thing from' b' later =
      evalBoolexp game level player thing from' b later := by
  cases level with
  | zero => exact same ..
  | succ level => exact same ..

theorem kept_of_readable (formed : Formed b)
    (existing : ∀ thing ∈ b.things, game.goodObj state thing = true) (fits : Fits game state b)
    (readable : ∀ number ∈ b.attributes, Readable game state number) : Kept game state b := by
  intro player
  obtain ⟨b', derives, same⟩ := (@printed _ game state player b existing readable formed).expression
  obtain ⟨rest, parsed, _⟩ := reads_of_derives derives blank_nil (follow_nil .E)
  rw [List.append_nil, List.append_nil] at parsed
  refine ⟨b', ?_, fun level thing from' later => same.evalBoolexp level player thing from' later⟩
  rw [unparse_of_fits fits]
  exact parseBoolexp_of_read (derives_ne_nil derives rfl) parsed

theorem parseBoolexp_none_of_read {scene : Scene} {buf : List Char}
    (fails : read scene buf .E = none) : parseBoolexp scene buf = none := by
  have unread : parseE scene buf = none := Option.map_eq_none_iff.mp fails
  rw [parseBoolexp, unread]
  split <;> rfl

theorem opened_of_lost (formed : Formed b)
    (existing : ∀ thing ∈ b.things, game.goodObj state thing = true) (fits : Fits game state b)
    (known : ∀ number ∈ b.attributes, Readable game state number ∨ Lost game state number)
    (bad : ¬ ∀ number ∈ b.attributes, Readable game state number) (mortal : player ≠ god) :
    parseBoolexp (game.scene state player true) (unparseBoolexpQuiet game state b) = none := by
  have fails := (failing existing known formed mortal bad).expression [] (follow_nil .L)
  rw [List.append_nil] at fails
  rw [unparse_of_fits fits]
  exact parseBoolexp_none_of_read fails

end Keeping

theorem parseBoolexp_formed {scene : Scene} {buf : List Char} {b : Boolexp}
    (parsed : parseBoolexp scene buf = some b) : Formed b := by
  unfold parseBoolexp at parsed
  split_ifs at parsed
  obtain ⟨⟨b', rest⟩, hf, rfl⟩ := Option.map_eq_some_iff.mp parsed
  obtain ⟨_, _, _, _, derives⟩ := sound scene buf .E b' rest.1 (by rw [read, hf]; rfl)
  exact formed_of_derives derives

/-- A lock over existing objects is kept if its text fits and its attributes can be read
back; and if its text fits and no attribute is read back as another, only then. -/
theorem locks_kept (game : Game State) (state : State) (author : Scene) (buf : List Char)
    (b : Boolexp) (parsed : parseBoolexp author buf = some b)
    (existing : ∀ thing ∈ b.things, game.goodObj state thing = true) :
    (Fits game state b → (∀ number ∈ b.attributes, Readable game state number) →
      Kept game state b) ∧
    (Fits game state b →
      (∀ number ∈ b.attributes, Readable game state number ∨ Lost game state number) →
      Kept game state b → ∀ number ∈ b.attributes, Readable game state number) := by
  have formed := parseBoolexp_formed parsed
  refine ⟨kept_of_readable formed existing, fun fits known kept => ?_⟩
  by_contra bad
  obtain ⟨b', found, _⟩ := kept 2
  rw [opened_of_lost formed existing fits known bad (by decide)] at found
  cases found

section Small

/-- The attribute `Sex`. -/
def sex : Attr where
  number := 7
  name := ['S', 'e', 'x']
  numbered := by decide
  named := by decide

/-- A game with the attribute `Sex` and the objects #0, #1 and #2, where no softcode runs. -/
def smallGame : Game Unit where
  atrStr _ name := if name = ['s', 'e', 'x'] ∨ name = ['S', 'e', 'x'] then some sex else none
  atrStr_start := by
    intro _ name attr found
    split at found
    · rename_i known
      rcases known with rfl | rfl
      · exact ⟨'s', rfl, by decide⟩
      · exact ⟨'S', rfl, by decide⟩
    · cases found
  atrNum _ number := if number = 7 then some sex else none
  dbTop _ := 3
  dbTop_le _ := by decide
  typed _ _ := true
  matchResult _ _ name := if name = ['#', '1'] then 1 else nothing
  contents _ _ := []
  owner _ _ := 1
  atrPget _ _ _ := []
  atrLock _ _ := []
  seeAttr _ _ _ _ := true
  readAttr _ _ _ := true
  sameString s s' := s = s'
  exec _ _ _ _ text := (text, ())
  leftover := []

theorem parse_smallGame : parseBoolexp (smallGame.scene () 1 false)
    ['s', 'e', 'x', ':', 'm', '|', '#', '1'] = some (.or (.atr 7 ['m']) (.const 1)) := by
  have test : Derives (smallGame.scene () 1 false) Prefix.takes .L ['s', 'e', 'x', ':', 'm']
      (.atr 7 ['m']) := @Derives.atom _ _ [] ['s', 'e', 'x', ':', 'm'] _ blank_nil
    ⟨by simp [atomChar], by decide, by simp, by decide⟩ (by decide)
  have object : Derives (smallGame.scene () 1 false) Prefix.takes .L ['#', '1'] (.const 1) :=
    @Derives.atom _ _ [] ['#', '1'] _ blank_nil
      ⟨by simp [atomChar], by decide, by simp, by decide⟩ (by decide)
  have whole := @Derives.or _ _ [] _ _ _ _ (.factor (.plain (by decide) test)) blank_nil
    (.term (.factor (.plain (by decide) object)))
  obtain ⟨rest, parsed, _⟩ := reads_of_derives whole blank_nil (follow_nil .E)
  exact parseBoolexp_of_read (by simp) parsed

theorem locks_kept_smallGame : Kept smallGame () (.or (.atr 7 ['m']) (.const 1)) :=
  (locks_kept smallGame () (smallGame.scene () 1 false) _ _ parse_smallGame (by decide)).1
    (by decide) fun number member => by
      rw [List.mem_singleton.mp (show number ∈ [7] from member)]
      exact ⟨sex, rfl, rfl, by simp [sex]⟩

theorem parse_number : parseBoolexp (smallGame.scene () 1 false) ['9', '9', '9', ':', 'x'] =
    some (.atr 999 ['x']) := by
  have test : Derives (smallGame.scene () 1 false) Prefix.takes .L ['9', '9', '9', ':', 'x']
      (.atr 999 ['x']) := @Derives.atom _ _ [] ['9', '9', '9', ':', 'x'] _ blank_nil
    ⟨by simp [atomChar], by decide, by simp, by decide⟩ (by decide)
  obtain ⟨rest, parsed, _⟩ := reads_of_derives (.term (.factor (.plain (by decide) test))) blank_nil
    (follow_nil .E)
  exact parseBoolexp_of_read (by simp) parsed

/-- A lock of #1 on an attribute that does not exist lets nobody through; stored and read
again for #2 it is no lock. -/
theorem lock_opened :
    parseBoolexp (smallGame.scene () 1 false) ['9', '9', '9', ':', 'x'] = some (.atr 999 ['x']) ∧
    (evalBoolexp smallGame 0 2 0 0 (.atr 999 ['x']) ()).1 = false ∧
    parseBoolexp (smallGame.scene () 2 true)
      (unparseBoolexpQuiet smallGame () (.atr 999 ['x'])) = none ∧
    (evalBoolexpAtr smallGame 0 2 0 0 (unparseBoolexpQuiet smallGame () (.atr 999 ['x'])) ()).1 =
      true ∧
    ¬ Kept smallGame () (.atr 999 ['x']) := by
  have opened : parseBoolexp (smallGame.scene () 2 true)
      (unparseBoolexpQuiet smallGame () (.atr 999 ['x'])) = none := by
    refine opened_of_lost (parseBoolexp_formed parse_number) (by decide) (by decide)
      (fun number member => .inr ?_) (fun readable => ?_) (by decide)
    · rw [List.mem_singleton.mp (show number ∈ [999] from member)]
      show (0 : Int) < 999
      decide
    · obtain ⟨attr, found, _⟩ := readable 999 (List.mem_singleton_self _)
      cases found
  refine ⟨parse_number, rfl, opened, ?_, fun kept => ?_⟩
  · rw [evalBoolexpAtr, opened]
  · obtain ⟨b', found, _⟩ := kept 2
    rw [opened] at found
    cases found

end Small

end

end BattletechMux.Lock
