/-
Module: BattletechMux.Autopilot.Programs
Purpose: The program of an autopilot, from autopilot_commands.c and autopilot.c: a list of commands
  with arguments, and what adding, deleting and running them does to its memory.
Trusted boundary: what the events find out about the unit is any; a word that is no command has no
  arguments; notifications but for refusals, flags, maps and what commands do to the unit are left
  out
-/
import BattletechMux.Foundation.CText
import BattletechMux.Foundation.Packed

namespace BattletechMux.Autopilot

open CText (isSpace atoi)

section

open Function (update)

abbrev Text := List Char

inductive Com
  | dumbgoto | goto | dumbfollow | follow | leavebase | wait
  | speed | jump | startup | shutdown | autogun | stopgun | enterbase | load | unload | report
  | pickup | dropoff | enterbay
deriving DecidableEq, Repr

/-- The commands with their names and numbers of arguments. -/
def acom : List (Com × String × Nat) :=
  [(.dumbgoto, "dumbgoto", 2), (.goto, "goto", 2), (.dumbfollow, "dumbfollow", 1),
    (.follow, "follow", 1), (.leavebase, "leavebase", 1), (.wait, "wait", 2), (.speed, "speed", 1),
    (.jump, "jump", 1), (.startup, "startup", 0), (.shutdown, "shutdown", 0),
    (.autogun, "autogun", 0), (.stopgun, "stopgun", 0), (.enterbase, "enterbase", 1),
    (.load, "load", 0), (.unload, "unload", 0), (.report, "report", 0), (.pickup, "pickup", 1),
    (.dropoff, "dropoff", 0), (.enterbay, "enterbay", 0)]

def argcount (word : Nat) : Nat :=
  match acom[word]? with
  | some (_, _, count) => count
  | none => 0

def commandJump : Nat := 7

def memory : Nat := 100

/-- The program of an autopilot; the counters are bytes, and words have 16 bits. -/
structure Auto where
  speed : Nat
  programCounter : Nat
  firstFree : Nat
  commands : Nat → Nat

namespace Auto

def blank : Auto := ⟨100, 0, 0, fun _ => 0⟩

def gval (a : Auto) (b : Nat) : Int :=
  if a.programCounter + b < a.firstFree then a.commands (a.programCounter + b) else -1

def cclen (a : Auto) : Nat := 1 + argcount (a.commands a.programCounter)

def next (a : Auto) (i : Nat) : Nat := i + (argcount (a.commands i) + 1)

/-! ## autopilot_commands.c -/

/-- The loop of `auto_valid_progline`, so many times. -/
def validFrom (a : Auto) (p : Int) : Nat → Nat → Bool
  | 0, _ => false
  | times + 1, i =>
    if i < a.firstFree then
      if i = p then true else a.validFrom p times (a.next i)
    else false

/-- `auto_valid_progline`. -/
def validProgline (a : Auto) (p : Int) : Bool := a.validFrom p a.firstFree 0

/-- The loop of `auto_delcommand` that moves so many words down. -/
def moveDown (len : Nat) : Nat → Nat → (Nat → Nat) → Nat → Nat
  | 0, _, commands => commands
  | words + 1, i, commands =>
    moveDown len words (i + 1) (update commands (i - len) (commands i))

/-- The loop of `auto_delcommand` over jumps, so many times. -/
def moveJumps (len firstFree : Nat) : Nat → Nat → (Nat → Nat) → Nat → Nat
  | 0, _, commands => commands
  | times + 1, i, commands =>
    if i < firstFree then
      let commands :=
        if commands i = commandJump then
          update commands (i + 1) ((commands (i + 1) + 2 ^ 16 - len) % 2 ^ 16)
        else commands
      moveJumps len firstFree times (i + (argcount (commands i) + 1)) commands
    else commands

/-- What `auto_delcommand` does to take one command out. -/
def remove (a : Auto) (p : Nat) : Auto :=
  let len := argcount (a.commands p) + 1
  let commands := moveDown len (a.firstFree - (p + len)) (p + len) a.commands
  let programCounter :=
    if p ≤ a.programCounter then (a.programCounter + 2 ^ 8 - len) % 2 ^ 8 else a.programCounter
  let firstFree := (a.firstFree + 2 ^ 8 - len) % 2 ^ 8
  { a with
    programCounter := programCounter
    firstFree := firstFree
    commands := moveJumps len firstFree (firstFree - p) p commands }

/-- `auto_delcommand` takes all commands out, at most so many. -/
def removeAll : Nat → Auto → Auto
  | 0, a => a
  | times + 1, a => if 0 < a.firstFree then removeAll times (a.remove 0) else a

/-- `auto_delcommand`, and why it refuses. -/
def delcommand (a : Auto) (buffer : Text) : Auto × Option String :=
  let buffer := buffer.dropWhile isSpace
  if buffer = [] then (a, some "Argument expected!")
  else if atoi buffer = 0 ∧ buffer ≠ ['0'] then
    (a, some "Invalid argument - single number expected.")
  else if 0 ≤ atoi buffer then
    if a.validProgline (atoi buffer) then (a.remove (atoi buffer).toNat, none)
    else (a, some "Invalid : Argument out of range, or argument, not command.")
  else (removeAll a.firstFree a, none)

/-- `auto_jump`. -/
def jump (a : Auto) (buffer : Text) : Auto × Option String :=
  let buffer := buffer.dropWhile isSpace
  if buffer = [] then (a, some "Argument expected!")
  else if atoi buffer = 0 ∧ buffer ≠ ['0'] then
    (a, some "Invalid argument - single number expected.")
  else if a.validProgline (atoi buffer) then
    ({ a with programCounter := (atoi buffer % 2 ^ 8).toNat }, none)
  else (a, some "Invalid : Argument out of range, or argument, not command.")

end Auto

def mechParseattributes (buffer : Text) (maxargs : Nat) : List Text :=
  ((buffer.splitOnP fun c => c = ' ' ∨ c = '\t').filter (· ≠ [])).take maxargs

def readint (text : Text) : Option Int :=
  if text = [] ∨ (atoi text = 0 ∧ text ≠ ['0']) then none else some (atoi text)

/-- The command of a name, which `strcasecmp` compares. -/
def named (name : Text) : Option Nat :=
  acom.findIdx? fun (_, text, _) => name.map Char.toLower = text.toList

namespace Auto

/-- The loop of `auto_addcommand` over arguments, and whether all are numbers. -/
def addArguments : List Text → Nat → (Nat → Nat) → (Nat → Nat) × Bool
  | [], _, commands => (commands, true)
  | text :: rest, i, commands =>
    match readint text with
    | none => (commands, false)
    | some j => addArguments rest (i + 1) (update commands i (j % 2 ^ 16).toNat)

/-- `auto_addcommand`. -/
def addcommand (a : Auto) (buffer : Text) : Auto × Option String :=
  let args := mechParseattributes buffer 4
  if args.length = 4 then (a, some "Too huge number of arguments!")
  else match args with
  | [] => (a, some "At least one argument required.")
  | name :: texts =>
    match named name with
    | none => (a, some "Invalid command!")
    | some i =>
      let len := 1 + argcount i
      if args.length ≠ len then (a, some "Invalid number of arguments to the subcommand!")
      else if memory ≤ a.firstFree + len then (a, some "Insufficient memory!")
      else
        let (commands, numbers) :=
          addArguments texts (a.firstFree + 1) (update a.commands a.firstFree i)
        if numbers then
          ({ a with commands := commands, firstFree := (a.firstFree + len) % 2 ^ 8 }, none)
        else
          ({ a with commands := commands },
            some "Invalid argument to the subcommand - not a number.")

/-! ## autopilot.c -/

end Auto

/-- What the events find: whether the unit is on a map, with the autopilot in it and not destroyed,
is running, does not have to stand up or take off first, and sees others. -/
structure Outside where
  mapped : Bool
  aboard : Bool
  destroyed : Bool
  started : Bool
  upright : Bool
  seen : Bool

namespace Auto

def runs (a : Auto) (o : Outside) : Bool :=
  o.aboard && !o.destroyed && decide (a.programCounter < a.firstFree) &&
    decide (a.programCounter + a.cclen ≤ a.firstFree)

def advance (a : Auto) : Auto :=
  { a with programCounter := (a.programCounter + a.cclen) % 2 ^ 8 }

/-- `auto_com_event`. -/
def comEvent (a : Auto) (o : Outside) : Auto :=
  if !o.mapped then a
  else if !a.runs o then a
  else match acom[a.commands a.programCounter]? with
  | none => a
  | some (com, _) =>
    match com with
    | .follow | .dumbfollow | .goto | .dumbgoto | .leavebase => a
    | .load | .unload | .shutdown | .stopgun => a.advance
    | .enterbase | .autogun | .enterbay => if o.started then a.advance else a
    | .speed => { a with speed := (a.gval 1 % 2 ^ 16).toNat }.advance
    | .wait =>
      if a.gval 1 = 0 then a.advance
      else if a.gval 1 = 1 then if o.seen then a.advance else a
      else a.advance
    | .jump =>
      if a.validProgline (a.gval 1) then
        { a with programCounter := (a.gval 1 % 2 ^ 8).toNat }
      else a.advance
    | .startup => if o.started && o.upright then a.advance else a
    | .report | .pickup | .dropoff => a

/-- The events of goals, from `auto_goto_event` to `auto_leave_event`, when a goal is reached or
not. -/
def goalEvent (a : Auto) (o : Outside) (reached : Bool) : Auto :=
  if a.runs o && o.started && o.upright && reached then a.advance else a

end Auto

inductive Op
  | add (buffer : Text)
  | delete (buffer : Text)
  | jump (buffer : Text)
  | com (outside : Outside)
  | goal (outside : Outside) (reached : Bool)

def Auto.step (a : Auto) : Op → Auto
  | .add buffer => (a.addcommand buffer).1
  | .delete buffer => (a.delcommand buffer).1
  | .jump buffer => (a.jump buffer).1
  | .com outside => a.comEvent outside
  | .goal outside reached => a.goalEvent outside reached

end

open PackedMemory

structure Command where
  com : Nat
  args : List Nat
deriving DecidableEq, Repr

def Command.words (command : Command) : List Nat := command.com :: command.args

/-- A command of the table with as many arguments as it takes. -/
def Command.Formed (command : Command) : Prop :=
  command.com < acom.length ∧ command.args.length = argcount command.com

/-- Where a command of a program starts; at its length, where the program ends. -/
abbrev place (program : List Command) (index : Nat) : Nat := offset Command.words program index

namespace Auto

def programFrom (a : Auto) : Nat → Nat → List Command
  | 0, _ => []
  | commands + 1, i =>
    if i < a.firstFree then
      ⟨a.commands i, (List.range (argcount (a.commands i))).map fun j => a.commands (i + 1 + j)⟩ ::
        a.programFrom commands (a.next i)
    else []

def program (a : Auto) : List Command := a.programFrom a.firstFree 0

/-- Stepping from 0 reaches `firstFree`, and the counter is at a command, whose arguments are read
back, or not below `firstFree`. -/
structure Sound (a : Auto) : Prop where
  ends : ∃ steps, a.next^[steps] 0 = a.firstFree
  counter : (∃ k < a.program.length, a.programCounter = place a.program k) ∨
    a.firstFree ≤ a.programCounter
  reads : ∀ k command, a.program[k]? = some command → a.programCounter = place a.program k →
    a.gval 0 = command.com ∧
      ∀ (j arg : Nat), command.args[j]? = some arg → a.gval (1 + j) = arg

end Auto

/-- Where a command goes when command `k` is deleted. -/
def moved (k i : Nat) : Nat := if i < k then i else i - 1

/-- Command `k` is deleted: the others stay in order with their arguments, a jump to one that stays
is still one to it, and the counter stays at its command or goes on to the next. -/
structure Deleted (program program' : List Command) (counter counter' k : Nat) : Prop where
  length : program'.length + 1 = program.length
  others : ∀ i command, program[i]? = some command → i ≠ k →
    ∃ command', program'[moved k i]? = some command' ∧ command'.com = command.com ∧
      (command.com ≠ commandJump → command'.args = command.args) ∧
      ∀ j < program.length, j ≠ k → command.com = commandJump →
        command.args = [place program j] → command'.args = [place program' (moved k j)]
  stays : ∀ i ≤ program.length, i ≠ k → counter = place program i →
    counter' = place program' (moved k i)
  goesOn : counter = place program k → counter' = place program' k

def Asks (buffer : Text) (number : Int) : Prop :=
  buffer.dropWhile isSpace ≠ [] ∧
    (atoi (buffer.dropWhile isSpace) = 0 → buffer.dropWhile isSpace = ['0']) ∧
      atoi (buffer.dropWhile isSpace) = number

def Meant (a a' : Auto) : Op → Prop
  | .add buffer =>
    a'.programCounter = a.programCounter ∧
      if (a.addcommand buffer).2 = none then
        ∃ name texts com args, mechParseattributes buffer 4 = name :: texts ∧
          named name = some com ∧ args.map Int.ofNat = texts.map atoi ∧
            a'.program = a.program ++ [⟨com, args⟩]
      else a'.program = a.program
  | .delete buffer =>
    (∀ k < a.program.length, Asks buffer (place a.program k) →
      Deleted a.program a'.program a.programCounter a'.programCounter k) ∧
    ∀ number, Asks buffer number → number < 0 → a'.program = []
  | .jump buffer =>
    a'.program = a.program ∧ ∀ k < a.program.length, Asks buffer (place a.program k) →
      a'.programCounter = place a.program k
  | .com _ | .goal _ _ => a'.program = a.program

/-- An added argument is stored as it is, and a new command does not get under the counter; the
deleted command is not the one at the counter, and no jump to another goes over it. -/
def Settled (a : Auto) : Op → Prop
  | .add buffer =>
    (a.addcommand buffer).2 = none →
      (∀ text ∈ (mechParseattributes buffer 4).tail, 0 ≤ atoi text ∧ atoi text < 2 ^ 16) ∧
        (a.programCounter ≤ a.firstFree ∨
          a.firstFree + (mechParseattributes buffer 4).length ≤ a.programCounter)
  | .delete buffer =>
    ∀ k < a.program.length, Asks buffer (place a.program k) →
      a.programCounter ≠ place a.program k ∧
        ∀ i j command, a.program[i]? = some command → command.com = commandJump →
          j < a.program.length → command.args = [place a.program j] → i ≠ k → j ≠ k →
            (i < k ↔ j < k)
  | _ => True

inductive Run : Auto → Prop
  | blank : Run Auto.blank
  | step {a : Auto} (op : Op) (run : Run a) (settled : Settled a op) : Run (a.step op)

open List
open Function (update)

variable {a : Auto} {program before after rest : List Command} {command : Command}
  {commands : Nat → Nat}

/-! ## Programs in memory -/

theorem Command.words_ne_nil (command : Command) : command.words ≠ [] := cons_ne_nil _ _

theorem Command.length_words (command : Command) :
    command.words.length = command.args.length + 1 := length_cons

theorem Command.Formed.length_words (formed : command.Formed) :
    command.words.length = argcount command.com + 1 := by
  rw [Command.length_words, formed.2]

theorem place_zero (program : List Command) : place program 0 = 0 := rfl

theorem place_succ (command : Command) (program : List Command) (k : Nat) :
    place (command :: program) (k + 1) = command.words.length + place program k :=
  offset_cons_succ k

theorem length_le_words (program : List Command) :
    program.length ≤ (program.flatMap Command.words).length := by
  induction program with
  | nil => exact Nat.le_refl _
  | cons command rest ih =>
    rw [length_cons, flatMap_cons, length_append, command.length_words]
    omega

/-- The memory has this program, and nothing else below `firstFree`. -/
structure Holds (a : Auto) (program : List Command) : Prop where
  stored : Stores a.commands 0 (program.flatMap Command.words)
  length : a.firstFree = (program.flatMap Command.words).length
  formed : ∀ command ∈ program, command.Formed
  small : a.firstFree < memory

variable {i : Nat}

theorem stores_command (stored : Stores commands i command.words) (formed : command.Formed) :
    commands i = command.com ∧
      (List.range (argcount command.com)).map (fun j => commands (i + 1 + j)) = command.args := by
  refine ⟨stored.1, ext_getElem (by simp [formed.2]) fun j _ hin => ?_⟩
  rw [getElem_map, getElem_range]
  exact stored.2.get hin

theorem programFrom_eq {i n : Nat} (stored : Stores a.commands i (rest.flatMap Command.words))
    (ends : i + (rest.flatMap Command.words).length = a.firstFree)
    (formed : ∀ command ∈ rest, command.Formed) (hlt : rest.length ≤ n) :
    a.programFrom n i = rest := by
  induction rest generalizing i n with
  | nil =>
    cases n with
    | zero => rfl
    | succ n =>
      rw [Auto.programFrom, if_neg]
      exact Nat.not_lt_of_le (Nat.le_of_eq ends.symm)
  | cons command rest ih =>
    cases n with
    | zero => exact absurd hlt (Nat.not_succ_le_zero _)
    | succ n =>
      have here := formed command mem_cons_self
      rw [flatMap_cons, stores_append] at stored
      rw [flatMap_cons, length_append, command.length_words] at ends
      obtain ⟨word, args⟩ := stores_command stored.1 here
      have tail := ih stored.2 (by rw [command.length_words]; omega)
        (fun command mem => formed command (mem_cons_of_mem _ mem))
        (Nat.le_of_succ_le_succ hlt)
      rw [here.length_words] at tail
      rw [Auto.programFrom, if_pos (by omega), Auto.next, word, args, tail]

theorem Holds.program_eq (holds : Holds a program) : a.program = program := by
  refine programFrom_eq holds.stored ?_ holds.formed ?_
  · rw [Nat.zero_add, holds.length]
  · rw [holds.length]
    exact length_le_words program

theorem validFrom_iff {p : Int} {i n : Nat}
    (stored : Stores a.commands i (rest.flatMap Command.words))
    (ends : i + (rest.flatMap Command.words).length = a.firstFree)
    (formed : ∀ command ∈ rest, command.Formed) (hlt : rest.length ≤ n) :
    a.validFrom p n i = true ↔ ∃ k < rest.length, p = (i + place rest k : Nat) := by
  induction rest generalizing i n with
  | nil =>
    have none : a.validFrom p n i = false := by
      cases n with
      | zero => rfl
      | succ n =>
        rw [Auto.validFrom, if_neg]
        exact Nat.not_lt_of_le (Nat.le_of_eq ends.symm)
    rw [none]
    simp
  | cons command rest ih =>
    cases n with
    | zero => exact absurd hlt (Nat.not_succ_le_zero _)
    | succ n =>
      have here := formed command mem_cons_self
      rw [flatMap_cons, stores_append] at stored
      rw [flatMap_cons, length_append, command.length_words] at ends
      have tail := ih stored.2 (by rw [command.length_words]; omega)
        (fun command mem => formed command (mem_cons_of_mem _ mem))
        (Nat.le_of_succ_le_succ hlt)
      have word : a.commands i = command.com := stored.1.1
      rw [Auto.validFrom, if_pos (by omega), Auto.next, word, ← here.length_words]
      by_cases eq : (i : Int) = p
      · rw [if_pos eq]
        refine iff_of_true rfl ⟨0, Nat.zero_lt_succ _, ?_⟩
        rw [place_zero, Nat.add_zero, eq]
      · rw [if_neg eq, tail]
        constructor
        · rintro ⟨k, hin, hf⟩
          refine ⟨k + 1, Nat.succ_lt_succ hin, ?_⟩
          rw [hf, place_succ, Nat.add_assoc]
        · rintro ⟨k, hin, hf⟩
          cases k with
          | zero => exact absurd hf.symm eq
          | succ k =>
            refine ⟨k, Nat.lt_of_succ_lt_succ hin, ?_⟩
            rw [hf, place_succ, Nat.add_assoc]

theorem Holds.validProgline_iff (holds : Holds a program) (p : Int) :
    a.validProgline p = true ↔ ∃ k < program.length, p = (place program k : Nat) := by
  have hlt := length_le_words program
  rw [← holds.length] at hlt
  have hf := validFrom_iff (p := p) holds.stored (by rw [Nat.zero_add, holds.length])
    holds.formed hlt
  unfold Auto.validProgline
  simpa only [Nat.zero_add] using hf

/-! ## Deleting -/

theorem moveDown_stores {words : List Nat} {len p : Nat} (some : 0 < len)
    (stored : Stores commands (p + len) words) :
    Stores (Auto.moveDown len words.length (p + len) commands) p words ∧
      ∀ i < p, Auto.moveDown len words.length (p + len) commands i = commands i := by
  induction words generalizing p commands with
  | nil => exact ⟨trivial, fun i _ => rfl⟩
  | cons word rest ih =>
    have target : p + len - len = p := Nat.add_sub_cancel _ _
    have further : p + len + 1 = p + 1 + len := Nat.add_right_comm _ _ _
    rw [length_cons, Auto.moveDown, target, further, stored.1]
    have tail : Stores (update commands p word) (p + 1 + len) rest := by
      rw [← further]
      exact stored.2.congr fun i low _ => Function.update_of_ne (by omega) _ _
    obtain ⟨moved, eq⟩ := ih tail
    refine ⟨⟨?_, moved⟩, fun i below => ?_⟩
    · rw [eq p (Nat.lt_succ_self p), Function.update_self]
    · rw [eq i (Nat.lt_succ_of_lt below), Function.update_of_ne (Nat.ne_of_lt below)]

/-- What `auto_delcommand` makes of a later command. -/
def relocated (len : Nat) (command : Command) : Command :=
  if command.com = commandJump then
    ⟨command.com, command.args.map fun target => (target + 2 ^ 16 - len) % 2 ^ 16⟩
  else command

theorem relocated_com (len : Nat) (command : Command) :
    (relocated len command).com = command.com := by
  unfold relocated
  split <;> rfl

theorem relocated_length (len : Nat) (command : Command) :
    (relocated len command).args.length = command.args.length := by
  unfold relocated
  split
  · exact length_map _
  · rfl

theorem Command.Formed.relocated (formed : command.Formed) (len : Nat) :
    (relocated len command).Formed := by
  unfold Command.Formed
  rw [relocated_com, relocated_length]
  exact formed

theorem relocated_words_length (len : Nat) (program : List Command) :
    ((program.map (relocated len)).flatMap Command.words).length =
      (program.flatMap Command.words).length := by
  rw [length_flatMap, length_flatMap, map_map]
  refine congrArg List.sum (map_congr_left fun command _ => ?_)
  change (relocated len command).words.length = command.words.length
  rw [Command.length_words, Command.length_words, relocated_length]

theorem Command.Formed.target (formed : command.Formed) (isJump : command.com = commandJump) :
    ∃ target, command.args = [target] := by
  have one : command.args.length = 1 := by
    rw [formed.2, isJump]
    rfl
  exact length_eq_one_iff.mp one

theorem moveJumps_stores (len firstFree n : Nat)
    (stored : Stores commands i (rest.flatMap Command.words))
    (ends : i + (rest.flatMap Command.words).length = firstFree)
    (formed : ∀ command ∈ rest, command.Formed) (hlt : rest.length ≤ n) :
    Stores (Auto.moveJumps len firstFree n i commands) i
        ((rest.map (relocated len)).flatMap Command.words) ∧
      ∀ j < i, Auto.moveJumps len firstFree n i commands j = commands j := by
  induction rest generalizing i n commands with
  | nil =>
    have eq : Auto.moveJumps len firstFree n i commands = commands := by
      cases n with
      | zero => rfl
      | succ n =>
        rw [Auto.moveJumps, if_neg]
        exact Nat.not_lt_of_le (Nat.le_of_eq ends.symm)
    rw [eq]
    exact ⟨trivial, fun j _ => rfl⟩
  | cons command rest ih =>
    cases n with
    | zero => exact absurd hlt (Nat.not_succ_le_zero _)
    | succ n =>
      have here := formed command mem_cons_self
      have size := here.length_words
      rw [flatMap_cons] at stored
      rw [flatMap_cons, length_append] at ends
      have word : commands i = command.com := (stores_append.mp stored).1.1
      have written : ∃ commands', (if commands i = commandJump then
            update commands (i + 1) ((commands (i + 1) + 2 ^ 16 - len) % 2 ^ 16)
          else commands) = commands' ∧
          Stores commands' i ((relocated len command).words ++ rest.flatMap Command.words) ∧
            ∀ j ≤ i, commands' j = commands j := by
        unfold relocated
        rw [word]
        by_cases isJump : command.com = commandJump
        · obtain ⟨target, args⟩ := here.target isJump
          have words : command.words = [command.com] ++ [target] := congrArg _ args
          have old : commands (i + 1) = target := by
            rw [words] at stored
            exact (stores_append.mp stored).1.2.1
          refine ⟨_, rfl, ?_, fun j below => ?_⟩
          · rw [if_pos isJump, if_pos isJump, old, args]
            have stored' : Stores commands i
                ([command.com] ++ target :: rest.flatMap Command.words) := by
              rw [words] at stored
              exact stored
            exact stored'.set _
          · rw [if_pos isJump, Function.update_of_ne (by omega)]
        · rw [if_neg isJump, if_neg isJump]
          exact ⟨commands, rfl, stored, fun j _ => rfl⟩
      obtain ⟨commands', loop, stored', eq⟩ := written
      have word' : commands' i = command.com := (eq i (Nat.le_refl i)).trans word
      have length' : (relocated len command).words.length = command.words.length := by
        rw [Command.length_words, Command.length_words, relocated_length]
      rw [stores_append, length'] at stored'
      obtain ⟨moved, below⟩ := ih n stored'.2 (by omega)
        (fun command mem => formed command (mem_cons_of_mem _ mem))
        (Nat.le_of_succ_le_succ hlt)
      have pos : 0 < command.words.length := by omega
      rw [Auto.moveJumps, if_pos (by omega)]
      dsimp only
      rw [loop, word', ← size]
      refine ⟨?_, fun j less => ?_⟩
      · rw [map_cons, flatMap_cons, stores_append, length']
        refine ⟨stored'.1.congr fun j _ high => below j ?_, moved⟩
        rwa [length'] at high
      · rw [below j (by omega), eq j (Nat.le_of_lt less)]

theorem place_after (before : List Command) (after : List Command) :
    place (before ++ after) before.length = (before.flatMap Command.words).length := by
  have split : place (before ++ after) (before.length + 0) =
      (before.flatMap Command.words).length + place after 0 := offset_append_right 0
  rwa [place_zero, Nat.add_zero, Nat.add_zero] at split

theorem Holds.remove (holds : Holds a (before ++ command :: after)) :
    Holds (a.remove (before.flatMap Command.words).length)
        (before ++ after.map (relocated command.words.length)) ∧
      (a.remove (before.flatMap Command.words).length).firstFree + command.words.length =
        a.firstFree := by
  have here : command.Formed := holds.formed command (by simp)
  have stored := holds.stored
  have small : a.firstFree < 100 := holds.small
  have length := holds.length
  rw [flatMap_append, flatMap_cons, stores_append, stores_append, Nat.zero_add] at stored
  rw [flatMap_append, flatMap_cons, length_append, length_append] at length
  obtain ⟨low, mid, high⟩ := stored
  have word : a.commands (before.flatMap Command.words).length = command.com := mid.1
  have pos : 0 < command.words.length := length_pos_iff.mpr command.words_ne_nil
  generalize hlen : command.words.length = len at *
  generalize hp : (before.flatMap Command.words).length = p at *
  have len' : argcount command.com + 1 = len := by rw [← hlen, here.length_words]
  have free : (a.firstFree + 2 ^ 8 - len) % 2 ^ 8 = a.firstFree - len := by omega
  have words : a.firstFree - (p + len) = (after.flatMap Command.words).length := by omega
  obtain ⟨down, unmoved⟩ := moveDown_stores pos high
  have jumps := moveJumps_stores len (a.firstFree - len) (a.firstFree - len - p) down (by omega)
    (fun o mem => holds.formed o
      (mem_append_right before (mem_cons_of_mem command mem))) (by
      have hlt := length_le_words after
      omega)
  unfold Auto.remove
  dsimp only
  rw [word, len', free, words]
  refine ⟨⟨?_, ?_, ?_, ?_⟩, ?_⟩
  · rw [flatMap_append, stores_append, Nat.zero_add, hp]
    refine ⟨low.congr fun i _ below => ?_, jumps.1⟩
    rw [Nat.zero_add, hp] at below
    exact (jumps.2 i below).trans (unmoved i below)
  · rw [flatMap_append, length_append, relocated_words_length, hp]
    change a.firstFree - len = _
    omega
  · intro o mem
    rcases mem_append.mp mem with mem | mem
    · exact holds.formed o (mem_append_left _ mem)
    · obtain ⟨old, hin, rfl⟩ := mem_map.mp mem
      have listed := mem_append_right before (mem_cons_of_mem command hin)
      exact (holds.formed old listed).relocated len
  · change a.firstFree - len < 100
    omega
  · omega

theorem place_moved (after : List Command) (command : Command) (len : Nat)
    (o : i ≠ before.length)
    (hin : i ≤ (before ++ command :: after).length) :
    place (before ++ after.map (relocated len)) (moved before.length i) +
        (if i < before.length then 0 else command.words.length) =
      place (before ++ command :: after) i := by
  unfold moved
  by_cases earlier : i < before.length
  · rw [if_pos earlier, if_pos earlier, Nat.add_zero]
    have left : place (before ++ after.map (relocated len)) i = place before i :=
      offset_append_left (Nat.le_of_lt earlier)
    have left' : place (before ++ command :: after) i = place before i :=
      offset_append_left (Nat.le_of_lt earlier)
    rw [left, left']
  · rw [if_neg earlier, if_neg earlier]
    obtain ⟨d, rfl⟩ : ∃ d, i = before.length + (d + 1) :=
      ⟨i - before.length - 1, by omega⟩
    have right : place (before ++ command :: after) (before.length + (d + 1)) =
        (before.flatMap Command.words).length + place (command :: after) (d + 1) :=
      offset_append_right (d + 1)
    have right' : place (before ++ after.map (relocated len)) (before.length + d) =
        (before.flatMap Command.words).length + place (after.map (relocated len)) d :=
      offset_append_right d
    have eq : place (after.map (relocated len)) d = place after d := by
      unfold place offset
      rw [← map_take, relocated_words_length]
    rw [← Nat.add_assoc, Nat.add_sub_cancel, Nat.add_assoc before.length, right, right', eq,
      place_succ]
    omega

/-- The memory has this program, and the counter is at a command, at the end or past it. -/
structure Kept (a : Auto) (program : List Command) : Prop where
  holds : Holds a program
  byte : a.programCounter < 2 ^ 8
  counter : (∃ k ≤ program.length, a.programCounter = place program k) ∨
    a.firstFree < a.programCounter

theorem words_ne_nil (program : List Command) :
    ∀ command ∈ program, Command.words command ≠ [] :=
  fun command _ => command.words_ne_nil

theorem place_lt {i j : Nat} (less : i < j) (hin : j ≤ program.length) :
    place program i < place program j := offset_lt (words_ne_nil program) less hin

theorem place_inj {i j : Nat} (insideLeft : i ≤ program.length) (insideRight : j ≤ program.length)
    (eq : place program i = place program j) : i = j :=
  offset_inj (words_ne_nil program) insideLeft insideRight eq

theorem Holds.place_length (holds : Holds a program) :
    place program program.length = a.firstFree := offset_length.trans holds.length.symm

theorem Holds.place_le (holds : Holds a program) (hin : i ≤ program.length) :
    place program i ≤ a.firstFree := by
  rw [← holds.place_length]
  rcases Nat.lt_or_eq_of_le hin with less | rfl
  · exact Nat.le_of_lt (place_lt less (Nat.le_refl _))
  · exact Nat.le_refl _

theorem Holds.remove_counter (holds : Holds a (before ++ command :: after)) :
    (a.remove (before.flatMap Command.words).length).programCounter =
      if place (before ++ command :: after) before.length ≤ a.programCounter then
        (a.programCounter + 2 ^ 8 - command.words.length) % 2 ^ 8
      else a.programCounter := by
  have hin : before.length < (before ++ command :: after).length := by simp
  have stored := holds.stored.record hin
  rw [Nat.zero_add, getElem_append_right (Nat.le_refl _)] at stored
  simp only [Nat.sub_self, getElem_cons_zero] at stored
  have word : a.commands (before.flatMap Command.words).length = command.com := by
    rw [← place_after before (command :: after)]
    exact stored.1
  have here : command.Formed := holds.formed command (by simp)
  unfold Auto.remove
  dsimp only
  rw [word, ← here.length_words, place_after]

theorem Kept.counter_moved (kept : Kept a (before ++ command :: after))
    (hin : i ≤ (before ++ command :: after).length) (o : i ≠ before.length)
    (hf : a.programCounter = place (before ++ command :: after) i) :
    (a.remove (before.flatMap Command.words).length).programCounter =
      place (before ++ after.map (relocated command.words.length)) (moved before.length i) := by
  have byte := kept.byte
  have here : before.length < (before ++ command :: after).length := by simp
  have placed := place_moved after command command.words.length o hin
  rw [kept.holds.remove_counter]
  by_cases earlier : i < before.length
  · have below := place_lt earlier (Nat.le_of_lt here)
    rw [if_pos earlier] at placed
    rw [if_neg (by omega)]
    omega
  · have above := place_lt (lt_of_le_of_ne (Nat.le_of_not_lt earlier) (Ne.symm o)) hin
    rw [if_neg earlier] at placed
    rw [if_pos (by omega)]
    omega

theorem Kept.remove (kept : Kept a (before ++ command :: after))
    (away : a.programCounter ≠ place (before ++ command :: after) before.length) :
    Kept (a.remove (before.flatMap Command.words).length)
      (before ++ after.map (relocated command.words.length)) := by
  obtain ⟨holds, less⟩ := kept.holds.remove
  have byte := kept.byte
  have here : before.length < (before ++ command :: after).length := by simp
  refine ⟨holds, ?_, ?_⟩
  · rw [kept.holds.remove_counter]
    split
    · exact Nat.mod_lt _ (by decide)
    · exact byte
  · rcases kept.counter with ⟨i, hin, hf⟩ | past
    · have o : i ≠ before.length := by
        rintro rfl
        exact away hf
      refine .inl ⟨moved before.length i, ?_, kept.counter_moved hin o hf⟩
      unfold moved
      simp only [length_append, length_cons, length_map] at hin ⊢
      split <;> omega
    · right
      have below := kept.holds.place_le (Nat.le_of_lt here)
      rw [kept.holds.remove_counter, if_pos (Nat.le_trans below (Nat.le_of_lt past))]
      omega

theorem relocated_target {len : Nat} {command' : Command} (isJump : command'.com = commandJump)
    {target target' : Nat} (moved : target' + len = target) (small : target < 2 ^ 16)
    (args : command'.args = [target]) : (relocated len command').args = [target'] := by
  unfold relocated
  rw [if_pos isJump, args]
  change [(target + 2 ^ 16 - len) % 2 ^ 16] = [target']
  congr 1
  omega

theorem Kept.deleted (kept : Kept a (before ++ command :: after))
    (away : a.programCounter ≠ place (before ++ command :: after) before.length)
    (beside : ∀ i j o, (before ++ command :: after)[i]? = some o →
      o.com = commandJump → j < (before ++ command :: after).length →
        o.args = [place (before ++ command :: after) j] → i ≠ before.length →
          j ≠ before.length → (i < before.length ↔ j < before.length)) :
    Deleted (before ++ command :: after)
      (before ++ after.map (relocated command.words.length)) a.programCounter
      (a.remove (before.flatMap Command.words).length).programCounter before.length where
  length := by simp [Nat.add_assoc]
  others i o hf ne := by
    have small : a.firstFree < 100 := kept.holds.small
    unfold moved
    by_cases earlier : i < before.length
    · rw [if_pos earlier]
      rw [getElem?_append_left earlier] at hf
      refine ⟨o, by rw [getElem?_append_left earlier, hf], rfl, fun _ => rfl, ?_⟩
      intro j hin different' isJump args
      have eq := (beside i j o (by rw [getElem?_append_left earlier, hf]) isJump
        hin args ne different').mp earlier
      have placed := place_moved after command command.words.length
        different' (Nat.le_of_lt hin)
      rw [if_pos eq, Nat.add_zero] at placed
      rw [args, ← placed]
      rfl
    · have later : before.length < i := lt_of_le_of_ne (Nat.le_of_not_lt earlier) (Ne.symm ne)
      obtain ⟨d, rfl⟩ : ∃ d, i = before.length + (d + 1) := ⟨i - before.length - 1, by omega⟩
      have original := hf
      rw [getElem?_append_right (Nat.le_of_lt later), Nat.add_sub_cancel_left,
        getElem?_cons_succ] at hf
      refine ⟨relocated command.words.length o, ?_, relocated_com _ _, ?_, ?_⟩
      · rw [if_neg earlier, ← Nat.add_assoc, Nat.add_sub_cancel,
          getElem?_append_right (Nat.le_add_right _ _), Nat.add_sub_cancel_left,
          getElem?_map, hf]
        rfl
      · intro noJump
        unfold relocated
        rw [if_neg noJump]
      · intro j hin different' isJump args
        have eq : ¬j < before.length := fun less =>
          earlier ((beside _ j o original isJump hin args ne different').mpr less)
        have placed := place_moved after command command.words.length
          different' (Nat.le_of_lt hin)
        rw [if_neg eq] at placed
        have bound := kept.holds.place_le (Nat.le_of_lt hin)
        exact relocated_target isJump placed (by omega) args
  stays i hin ne hf := kept.counter_moved hin ne hf
  goesOn hf := absurd hf away

end BattletechMux.Autopilot
