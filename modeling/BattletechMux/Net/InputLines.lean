/-
Module: BattletechMux.Net.InputLines
Purpose: The commands that process_input makes of the bytes it reads, and their number of bytes.
Trusted boundary: every READ returns some bytes
-/
import Mathlib.Algebra.Order.BigOperators.Group.List
import Mathlib.Data.List.TakeWhile
import Mathlib.Tactic.Ring

namespace BattletechMux.Net.InputLines

/-- A `char`, as its byte. -/
abbrev Byte := BitVec 8

def strlen (text : List Byte) : Nat := (text.takeWhile (· ≠ 0)).length

/-- `LBUF_SIZE - sizeof(CBLKHDR) - 1`: the characters that a command may have. -/
def room : Nat := 8000 - 8 - 1

/-- The fields of `DESC` for its input: the commands from `input_head` on, the characters of
`raw_input` before `raw_input_at`, and the counters. -/
structure Desc where
  input : List (List Byte)
  rawInput : Option (List Byte)
  inputSize : Int
  inputTot : Int
  inputLost : Int
deriving DecidableEq

/-- The variables of the loop in `process_input`: the characters from `raw_input->cmd` to `p`,
how far `raw_input_at` is, the commands, `in` and `lost`. -/
structure Loop where
  line : List Byte
  rawInputAt : Nat
  input : List (List Byte)
  in' : Int
  lost : Int

/-- `(isascii(*q) && isprint(*q)) || *q < 0` -/
def accepted (q : Byte) : Bool := (32 ≤ q && q < 127) || 128 ≤ q

/-- `'\b'` and 127 -/
def erases (q : Byte) : Bool := q == 8 || q == 127

def Loop.byte (s : Loop) (q : Byte) : Loop :=
  if q = 10 then
    if s.line ≠ [] then { s with line := [], rawInputAt := 0, input := s.input ++ [s.line] }
    else { s with in' := s.in' - 1 }
  else if erases q then
    { s with
      in' := s.in' - 2
      line := s.line.dropLast
      rawInputAt :=
        if s.line.dropLast.length < s.rawInputAt then s.rawInputAt - 1 else s.rawInputAt }
  else if s.line.length < room ∧ accepted q then { s with line := s.line ++ [q] }
  else { s with in' := s.in' - 1, lost := if room ≤ s.line.length then s.lost + 1 else s.lost }

def Desc.partialLine (d : Desc) : List Byte := d.rawInput.getD []

/-- The loop when it begins; a buffer is allocated when there is none. -/
def Desc.loop (d : Desc) (got : Nat) : Loop :=
  ⟨d.partialLine, d.partialLine.length, d.input, got, 0⟩

/-- What `process_input` does after its loop. -/
def Desc.leave (d : Desc) (got : Nat) (s : Loop) : Desc where
  input := s.input
  rawInput := if s.line ≠ [] then some s.line else none
  inputSize := d.inputSize + s.in'
  inputTot := d.inputTot + got
  inputLost := d.inputLost + s.lost

/-- `process_input` when READ returns these bytes. -/
def processInput (d : Desc) (buf : List Byte) : Desc :=
  d.leave buf.length (buf.foldl Loop.byte (d.loop buf.length))

/-- What `process_commands` does to the input when it takes a command. -/
def takeCommand (d : Desc) : Desc :=
  match d.input with
  | t :: later => { d with input := later, inputSize := d.inputSize - (strlen t + 1) }
  | [] => d

def initial : Desc := ⟨[], none, 0, 0, 0⟩

/-! ## What the fields mean -/

structure Fits (text : List Byte) : Prop where
  short : text.length ≤ room
  noEnd : ∀ q ∈ text, q ≠ 0

structure WellFormed (d : Desc) : Prop where
  commands : ∀ text ∈ d.input, Fits text
  line : Fits d.partialLine
  raw : d.rawInput ≠ some []

/-- The bytes of the commands, each with its newline, and of the partial line. -/
def Desc.bytes (d : Desc) : Nat :=
  (d.input.map fun text => strlen text + 1).sum + strlen d.partialLine

def Desc.Counted (d : Desc) : Prop := d.inputSize = d.bytes

def nextLine (line : List Byte) (q : Byte) : List Byte := (Loop.byte ⟨line, 0, [], 0, 0⟩ q).line

def ErasesText : List Byte → List Byte → Prop
  | _, [] => True
  | line, q :: rest => (erases q → line ≠ []) ∧ ErasesText (nextLine line q) rest

/-! ## One byte -/

theorem strlen_eq {text : List Byte} (fits : Fits text) : strlen text = text.length := by
  have all : text.takeWhile (· ≠ 0) = text := by
    rw [List.takeWhile_eq_self_iff]
    exact fun q mem => by simpa using fits.noEnd q mem
  rw [strlen, all]

theorem accepted_ne_zero {q : Byte} (accept : accepted q = true) : q ≠ 0 := by
  rintro rfl
  exact absurd accept (by decide)

theorem fits_nil : Fits [] := ⟨Nat.zero_le _, by simp⟩

theorem Fits.dropLast {text : List Byte} (fits : Fits text) : Fits text.dropLast where
  short := by
    rw [List.length_dropLast]
    exact (Nat.sub_le _ _).trans fits.short
  noEnd q mem := fits.noEnd q (List.dropLast_subset text mem)

namespace Loop

variable {s : Loop}

theorem byte_cases (s : Loop) (q : Byte) :
    erases q = false ∧ s.line ≠ [] ∧
      s.byte q = { s with line := [], rawInputAt := 0, input := s.input ++ [s.line] } ∨
    erases q = true ∧ (∃ start, s.byte q =
      { s with in' := s.in' - 2, line := s.line.dropLast, rawInputAt := start }) ∨
    erases q = false ∧ s.line.length < room ∧ accepted q = true ∧
      s.byte q = { s with line := s.line ++ [q] } ∨
    erases q = false ∧ ∃ lost, s.byte q = { s with in' := s.in' - 1, lost := lost } := by
  unfold Loop.byte
  by_cases newline : q = 10
  · have keeps : erases q = false := by rw [newline]; decide
    by_cases some' : s.line ≠ []
    · exact .inl ⟨keeps, some', by rw [if_pos newline, if_pos some']⟩
    · exact .inr (.inr (.inr ⟨keeps, s.lost, by rw [if_pos newline, if_neg some']⟩))
  · rw [if_neg newline]
    cases erase : erases q with
    | true => exact .inr (.inl ⟨rfl, _, rfl⟩)
    | false =>
      by_cases accept : s.line.length < room ∧ accepted q
      · exact .inr (.inr (.inl ⟨rfl, accept.1, accept.2, by simp [accept]⟩))
      · exact .inr (.inr (.inr ⟨rfl, _, by rw [if_neg accept]; rfl⟩))

structure Sound (s : Loop) : Prop where
  commands : ∀ text ∈ s.input, Fits text
  line : Fits s.line

def excess (s : Loop) (unread : Nat) : Int :=
  s.in' - ((s.input.map fun text => strlen text + 1).sum + strlen s.line + unread : Nat)

theorem Sound.byte (sound : s.Sound) (q : Byte) : (s.byte q).Sound := by
  rcases s.byte_cases q with ⟨-, -, eq⟩ | ⟨-, _, eq⟩ | ⟨-, short, accept, eq⟩ | ⟨-, _, eq⟩
  · rw [eq]
    refine ⟨fun text mem => ?_, fits_nil⟩
    rcases List.mem_append.mp mem with old | new
    · exact sound.commands text old
    · exact List.mem_singleton.mp new ▸ sound.line
  · rw [eq]
    exact ⟨sound.commands, sound.line.dropLast⟩
  · rw [eq]
    refine ⟨sound.commands, ?_, fun o mem => ?_⟩
    · rw [List.length_append]
      exact short
    · rcases List.mem_append.mp mem with old | new
      · exact sound.line.noEnd o old
      · exact List.mem_singleton.mp new ▸ accepted_ne_zero accept
  · rw [eq]
    exact ⟨sound.commands, sound.line⟩

theorem byte_line (s : Loop) (q : Byte) : (s.byte q).line = nextLine s.line q := by
  unfold nextLine Loop.byte
  split
  · split
    · rfl
    · rfl
  · split
    · rfl
    · split
      · rfl
      · rfl

theorem byte_excess (sound : s.Sound) (q : Byte) (unread : Nat) :
    (s.byte q).excess unread =
      s.excess (unread + 1) - if erases q ∧ s.line = [] then 1 else 0 := by
  have post := strlen_eq (sound.byte q).line
  have pre := strlen_eq sound.line
  unfold excess
  rcases s.byte_cases q with ⟨keeps, -, eq⟩ | ⟨erase, _, eq⟩ | ⟨keeps, -, -, eq⟩ |
    ⟨keeps, _, eq⟩
  · rw [eq] at post ⊢
    simp [keeps, post]
    ring
  · rw [eq] at post ⊢
    simp only [post, pre, erase, true_and, List.length_dropLast]
    cases s.line with
    | nil =>
      simp
      ring
    | cons fst rest =>
      simp
      ring
  · rw [eq] at post ⊢
    simp [keeps, post, pre]
    ring
  · rw [eq]
    simp [keeps]
    ring

theorem bytes_spec (sound : s.Sound) (buf : List Byte) :
    (buf.foldl Loop.byte s).Sound ∧
      (buf.foldl Loop.byte s).excess 0 ≤ s.excess buf.length ∧
      ((buf.foldl Loop.byte s).excess 0 = s.excess buf.length ↔ ErasesText s.line buf) := by
  induction buf generalizing s with
  | nil => exact ⟨sound, le_rfl, iff_of_true rfl trivial⟩
  | cons q rest ih =>
    obtain ⟨sound', below, exact⟩ := ih (sound.byte q)
    have one := byte_excess sound q rest.length
    rw [byte_line] at exact
    simp only [List.foldl_cons, List.length_cons, ErasesText, ← exact]
    refine ⟨sound', ?_, ?_⟩
    · split at one <;> omega
    · by_cases lost : erases q ∧ s.line = []
      · rw [if_pos lost] at one
        exact iff_of_false (by omega) fun kept => kept.1 lost.1 lost.2
      · rw [if_neg lost] at one
        rw [one, sub_zero]
        exact (and_iff_right fun erase empty => lost ⟨erase, empty⟩).symm

/-- The loop with other counters and another `raw_input_at`. -/
def shift (s : Loop) (in' lost : Int) (start : Nat) : Loop :=
  { s with in' := s.in' + in', lost := s.lost + lost, rawInputAt := start }

theorem bytes_shift (s : Loop) (in' lost : Int) (start : Nat) (buf : List Byte) :
    ∃ start', buf.foldl Loop.byte (s.shift in' lost start) =
      (buf.foldl Loop.byte s).shift in' lost start' := by
  induction buf generalizing s start with
  | nil => exact ⟨start, rfl⟩
  | cons q rest ih =>
    have one : ∃ start', (s.shift in' lost start).byte q = (s.byte q).shift in' lost start' := by
      unfold Loop.byte shift
      dsimp only
      split
      · split
        · exact ⟨0, rfl⟩
        · exact ⟨start, by rw [sub_add_eq_add_sub]⟩
      · split
        · exact ⟨_, by rw [sub_add_eq_add_sub]⟩
        · split
          · exact ⟨start, rfl⟩
          · refine ⟨start, ?_⟩
            split <;> simp only [sub_add_eq_add_sub, add_right_comm]
    obtain ⟨start', eq⟩ := one
    rw [List.foldl_cons, List.foldl_cons, eq]
    exact ih (s.byte q) start'

end Loop

/-! ## Reads -/

variable {d : Desc}

theorem leave_partialLine (d : Desc) (got : Nat) (s : Loop) :
    (d.leave got s).partialLine = s.line := by
  simp only [Desc.leave, Desc.partialLine]
  split
  · rfl
  · simp_all

theorem processInput_append (d : Desc) (fst snd : List Byte) :
    processInput (processInput d fst) snd = processInput d (fst ++ snd) := by
  unfold processInput
  generalize ran : fst.foldl Loop.byte (d.loop fst.length) = a
  obtain ⟨start, one⟩ :=
    Loop.bytes_shift (d.loop fst.length) snd.length 0 d.partialLine.length fst
  have again : a.shift snd.length 0 start =
      ((d.leave fst.length a).loop snd.length).shift a.in' a.lost start := by
    simp only [Loop.shift, Desc.loop, leave_partialLine, add_zero, zero_add, add_comm a.in']
    rfl
  obtain ⟨start', two⟩ :=
    Loop.bytes_shift ((d.leave fst.length a).loop snd.length) a.in' a.lost start snd
  have whole : d.loop (fst ++ snd).length =
      (d.loop fst.length).shift snd.length 0 d.partialLine.length := by
    simp [Loop.shift, Desc.loop]
  rw [List.foldl_append, whole, one, ran, again, two]
  simp only [Desc.leave, Loop.shift, List.length_append, Nat.cast_add, Desc.mk.injEq, true_and]
  exact ⟨rfl, by ring, by ring, by ring⟩

theorem processInput_flatten (d : Desc) (fst : List Byte) (reads : List (List Byte)) :
    (fst :: reads).foldl processInput d = processInput d (fst :: reads).flatten := by
  induction reads generalizing fst with
  | nil => simp
  | cons snd rest ih =>
    rw [List.foldl_cons, List.foldl_cons, processInput_append, ← List.foldl_cons, ih]
    simp

theorem processInput_nil (formed : WellFormed d) : processInput d [] = d := by
  obtain ⟨input, raw, size, tot, lost⟩ := d
  have some' := formed.raw
  cases raw with
  | none => simp [processInput, Desc.leave, Desc.loop, Desc.partialLine]
  | some line =>
    have filled : line ≠ [] := fun empty => some' (congrArg some empty)
    simp [processInput, Desc.leave, Desc.loop, Desc.partialLine, filled]

theorem processInput_spec (formed : WellFormed d) (counted : d.Counted) (buf : List Byte) :
    WellFormed (processInput d buf) ∧
      ((processInput d buf).Counted ↔ ErasesText d.partialLine buf) := by
  have sound : (d.loop buf.length).Sound := ⟨formed.commands, formed.line⟩
  obtain ⟨sound', -, exact⟩ := Loop.bytes_spec sound buf
  have line := leave_partialLine d buf.length (buf.foldl Loop.byte (d.loop buf.length))
  refine ⟨⟨sound'.commands, line ▸ sound'.line, ?_⟩, ?_⟩
  · simp only [processInput, Desc.leave]
    split
    · simpa using ‹_›
    · exact nofun
  · rw [show ErasesText d.partialLine buf = ErasesText (d.loop buf.length).line buf from rfl,
      ← exact, Desc.Counted, Desc.bytes, processInput, line]
    have pre : d.inputSize = d.bytes := counted
    simp only [Desc.leave, Desc.loop, Loop.excess, Desc.bytes] at pre ⊢
    push_cast at pre ⊢
    omega

/-! ## Taking the commands -/

theorem takeCommand_counted (counted : d.Counted) : (takeCommand d).Counted := by
  unfold takeCommand
  cases taken : d.input with
  | nil => exact counted
  | cons t later =>
    simp only [Desc.Counted, Desc.bytes, Desc.partialLine, taken, List.map_cons,
      List.sum_cons] at counted ⊢
    push_cast at counted ⊢
    omega

theorem takeAll (counted : d.Counted) :
    (takeCommand^[d.input.length] d).inputSize = strlen d.partialLine := by
  induction left : d.input.length generalizing d with
  | zero =>
    have empty : d.input = [] := List.length_eq_zero_iff.mp left
    simpa [Desc.Counted, Desc.bytes, empty] using counted
  | succ n ih =>
    have next := ih (takeCommand_counted counted)
    cases taken : d.input with
    | nil => simp [taken] at left
    | cons t later =>
      have one : (takeCommand d).input.length = n ∧
          (takeCommand d).partialLine = d.partialLine := by
        simp only [takeCommand, taken]
        exact ⟨by simpa [taken] using left, rfl⟩
      rw [Function.iterate_succ_apply, next one.1, one.2]

/-- For every descriptor, every stream and every two ways of cutting it into reads: the commands,
the partial line and the counters are the same, every text fits, and `input_size` is the number of
bytes exactly when no erasure comes where the line is empty. -/
theorem processInput_lines (d : Desc) (formed : WellFormed d) (counted : d.Counted)
    (reads : List (List Byte)) :
    (∀ others : List (List Byte), others.flatten = reads.flatten →
      others.foldl processInput d = reads.foldl processInput d) ∧
    WellFormed (reads.foldl processInput d) ∧
    ((reads.foldl processInput d).Counted ↔ ErasesText d.partialLine reads.flatten) ∧
    ((reads.foldl processInput d).Counted →
      (takeCommand^[(reads.foldl processInput d).input.length]
        (reads.foldl processInput d)).inputSize = strlen (reads.foldl processInput d).partialLine) := by
  have one : ∀ others : List (List Byte),
      others.foldl processInput d = processInput d others.flatten := by
    intro others
    cases others with
    | nil => exact (processInput_nil formed).symm
    | cons first rest => exact processInput_flatten d first rest
  obtain ⟨formed', exact⟩ := processInput_spec formed counted reads.flatten
  refine ⟨fun others same => by rw [one, one, same], ?_, ?_, takeAll⟩
  · rwa [one]
  · rwa [one]

/-- A command in two reads. -/
theorem processInput_lines_cut :
    [[104, 8, 105], [10, 106]].foldl processInput initial =
      [[104], [8, 105, 10, 106]].foldl processInput initial :=
  (processInput_lines initial ⟨by simp [initial], by exact fits_nil, nofun⟩ rfl
    [[104], [8, 105, 10, 106]]).1 _ rfl

/-- An erasure before anything was typed takes away a byte that was never counted. -/
theorem processInput_erases :
    (processInput initial [8]).inputSize = -1 ∧ (processInput initial [8]).bytes = 0 := by
  decide

end BattletechMux.Net.InputLines
