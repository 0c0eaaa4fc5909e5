/-
Module: BattletechMux.Autopilot.Execution
Purpose: The memory of an autopilot is a program in every state that settled steps lead to, and
  these do to the program what they should.
-/
import BattletechMux.Autopilot.Programs

namespace BattletechMux.Autopilot

open List hiding getElem?_eq_some_iff

open Function (update)
open CText (isSpace atoi)
open PackedMemory

variable {a : Auto} {program : List Command} {buffer : Text} {commands : Nat → Nat}

/-! ## Reading -/

variable {k : Nat}

theorem Holds.command (h : Holds a program) (hin : k < program.length) :
    Stores a.commands (place program k) program[k].words := by
  have stored := h.stored.record hin
  rwa [Nat.zero_add] at stored

theorem place_next (hin : k < program.length) :
    place program (k + 1) = place program k + (program[k].args.length + 1) :=
  offset_succ hin

theorem Holds.next (h : Holds a program) (hin : k < program.length) :
    a.next (place program k) = place program (k + 1) := by
  have formed := h.formed program[k] (getElem_mem hin)
  rw [Auto.next, (h.command hin).1, ← formed.2, place_next hin]

theorem Holds.steps (h : Holds a program) (hin : k ≤ program.length) :
    a.next^[k] 0 = place program k := by
  induction k with
  | zero => rfl
  | succ k ih =>
    rw [Function.iterate_succ_apply', ih (Nat.le_of_succ_le hin),
      h.next hin]

theorem Kept.sound (kept : Kept a program) : a.Sound where
  ends := ⟨program.length, by
    rw [kept.holds.steps (Nat.le_refl _), kept.holds.place_length]⟩
  counter := by
    rw [kept.holds.program_eq]
    rcases kept.counter with ⟨k, hin, hf⟩ | past
    · rcases Nat.lt_or_eq_of_le hin with less | rfl
      · exact .inl ⟨k, less, hf⟩
      · rw [kept.holds.place_length] at hf
        exact .inr (Nat.le_of_eq hf.symm)
    · exact .inr (Nat.le_of_lt past)
  reads := by
    rw [kept.holds.program_eq]
    intro k command hf counter
    obtain ⟨hin, rfl⟩ := getElem?_eq_some_iff.mp hf
    have stored := kept.holds.command hin
    have next := place_next hin
    have free : place program (k + 1) ≤ a.firstFree := kept.holds.place_le hin
    unfold Auto.gval
    rw [counter]
    refine ⟨?_, fun j arg read => ?_⟩
    · rw [if_pos (by omega), Nat.add_zero, stored.1]
    · obtain ⟨within, rfl⟩ := getElem?_eq_some_iff.mp read
      rw [if_pos (by omega), ← Nat.add_assoc, stored.2.get within]

theorem Kept.blank : Kept Auto.blank [] where
  holds := ⟨trivial, rfl, fun _ mem => absurd mem not_mem_nil, by decide⟩
  byte := by decide
  counter := .inl ⟨0, Nat.le_refl _, rfl⟩

/-! ## Running -/

theorem Kept.advance (kept : Kept a program) {o : Outside} (runs : a.runs o = true) :
    Kept a.advance program := by
  have small : a.firstFree < 100 := kept.holds.small
  unfold Auto.runs at runs
  simp only [Bool.and_eq_true, decide_eq_true_eq] at runs
  refine ⟨⟨kept.holds.stored, kept.holds.length, kept.holds.formed, small⟩,
    Nat.mod_lt _ (by decide), ?_⟩
  rcases kept.counter with ⟨k, hin, hf⟩ | past
  · have hin' : k < program.length := by
      refine lt_of_le_of_ne hin ?_
      rintro rfl
      rw [kept.holds.place_length] at hf
      omega
    have next := kept.holds.next hin'
    have free := kept.holds.place_le (Nat.succ_le_of_lt hin')
    refine .inl ⟨k + 1, hin', ?_⟩
    rw [← next] at free ⊢
    unfold Auto.next at free ⊢
    unfold Auto.advance Auto.cclen
    rw [hf]
    dsimp only
    omega
  · omega

theorem Kept.jumped (kept : Kept a program) (hin : k < program.length) {p : Int}
    (hf : p = (place program k : Nat)) :
    Kept { a with programCounter := (p % 2 ^ 8).toNat } program ∧
      (p % 2 ^ 8).toNat = place program k := by
  have small : a.firstFree < 100 := kept.holds.small
  have free := kept.holds.place_le (Nat.le_of_lt hin)
  have counter : (p % 2 ^ 8).toNat = place program k := by omega
  refine ⟨⟨⟨kept.holds.stored, kept.holds.length, kept.holds.formed, small⟩, ?_, ?_⟩, counter⟩
  · change (p % 2 ^ 8).toNat < 2 ^ 8
    omega
  · exact .inl ⟨k, Nat.le_of_lt hin, counter⟩

theorem Kept.comEvent (kept : Kept a program) (o : Outside) : Kept (a.comEvent o) program := by
  unfold Auto.comEvent
  by_cases mapped : (!o.mapped) = true
  · rw [if_pos mapped]
    exact kept
  rw [if_neg mapped]
  by_cases runs : a.runs o = true
  · have onward := kept.advance runs
    rw [if_neg (by simp [runs])]
    cases acom[a.commands a.programCounter]? with
    | none => exact kept
    | some entry =>
      obtain ⟨com, name, count⟩ := entry
      cases com with
      | jump =>
        dsimp only
        split
        · next valid =>
          obtain ⟨k, inside, found⟩ := (kept.holds.validProgline_iff _).mp valid
          exact (kept.jumped inside found).1
        · exact onward
      | speed => exact ⟨⟨onward.holds.stored, onward.holds.length, onward.holds.formed,
          onward.holds.small⟩, onward.byte, onward.counter⟩
      | _ =>
        dsimp only
        repeat' split
        all_goals first | exact kept | exact onward
  · rw [if_pos (by simp [runs])]
    exact kept

theorem Kept.goalEvent (kept : Kept a program) (o : Outside) (reached : Bool) :
    Kept (a.goalEvent o reached) program := by
  unfold Auto.goalEvent
  split
  · next arrived =>
    simp only [Bool.and_eq_true] at arrived
    exact kept.advance arrived.1.1.1
  · exact kept

/-! ## Adding -/

def word (text : Text) : Nat := (atoi text % 2 ^ 16).toNat

theorem addArguments_below (texts : List Text) {i j : Nat} (below : j < i) :
    (Auto.addArguments texts i commands).1 j = commands j := by
  induction texts generalizing i commands with
  | nil => rfl
  | cons text rest ih =>
    rw [Auto.addArguments]
    cases readint text with
    | none => rfl
    | some number =>
      dsimp only
      rw [ih (Nat.lt_succ_of_lt below),
        Function.update_of_ne (Nat.ne_of_lt below)]

theorem addArguments_stores (texts : List Text) (i : Nat) (commands : Nat → Nat)
    (numbers : (Auto.addArguments texts i commands).2 = true) :
    Stores (Auto.addArguments texts i commands).1 i (texts.map word) := by
  induction texts generalizing i commands with
  | nil => trivial
  | cons text rest ih =>
    rw [Auto.addArguments] at numbers ⊢
    cases read : readint text with
    | none =>
      rw [read] at numbers
      exact absurd numbers (by simp)
    | some number =>
      rw [read] at numbers
      dsimp only at numbers ⊢
      have eq : number = atoi text := by
        unfold readint at read
        split at read
        · exact absurd read (by simp)
        · exact (Option.some.inj read).symm
      refine ⟨?_, ih _ _ numbers⟩
      rw [addArguments_below rest (Nat.lt_succ_self i), Function.update_self, eq, word]

theorem named_lt {name : Text} {com : Nat} (hf : named name = some com) :
    com < acom.length := by
  unfold named at hf
  exact (findIdx?_eq_some_iff_getElem.mp hf).1

theorem Holds.scratch (h : Holds a program)
    (eq : ∀ i < a.firstFree, commands i = a.commands i) :
    Holds { a with commands := commands } program where
  stored := h.stored.congr fun i _ below => eq i (by
    rw [h.length]
    omega)
  length := h.length
  formed := h.formed
  small := h.small

theorem Holds.addcommand (h : Holds a program) (buffer : Text) :
    (a.addcommand buffer).1.programCounter = a.programCounter ∧
      (((a.addcommand buffer).2 ≠ none ∧ (a.addcommand buffer).1.firstFree = a.firstFree ∧
          Holds (a.addcommand buffer).1 program) ∨
        ((a.addcommand buffer).2 = none ∧
          ∃ name texts com, mechParseattributes buffer 4 = name :: texts ∧ named name = some com ∧
            (a.addcommand buffer).1.firstFree = a.firstFree + (texts.length + 1) ∧
              Holds (a.addcommand buffer).1 (program ++ [⟨com, texts.map word⟩]))) := by
  unfold Auto.addcommand
  dsimp only
  by_cases many : (mechParseattributes buffer 4).length = 4
  · rw [if_pos many]
    exact ⟨rfl, .inl ⟨by simp, rfl, h⟩⟩
  rw [if_neg many]
  cases args : mechParseattributes buffer 4 with
  | nil => exact ⟨rfl, .inl ⟨by simp, rfl, h⟩⟩
  | cons name texts =>
    dsimp only
    cases hf : named name with
    | none => exact ⟨rfl, .inl ⟨by simp, rfl, h⟩⟩
    | some com =>
      dsimp only
      by_cases number : (name :: texts).length ≠ 1 + argcount com
      · rw [if_pos number]
        exact ⟨rfl, .inl ⟨by simp, rfl, h⟩⟩
      rw [if_neg number]
      have count : texts.length + 1 = 1 + argcount com := not_not.mp number
      by_cases full : memory ≤ a.firstFree + (1 + argcount com)
      · rw [if_pos full]
        exact ⟨rfl, .inl ⟨by simp, rfl, h⟩⟩
      rw [if_neg full]
      have below : ∀ i < a.firstFree, (Auto.addArguments texts (a.firstFree + 1)
          (update a.commands a.firstFree com)).1 i = a.commands i := fun i less => by
        rw [addArguments_below texts (Nat.lt_succ_of_lt less),
          Function.update_of_ne (Nat.ne_of_lt less)]
      have fst : (Auto.addArguments texts (a.firstFree + 1)
          (update a.commands a.firstFree com)).1 a.firstFree = com := by
        rw [addArguments_below texts (Nat.lt_succ_self _), Function.update_self]
      have stored := addArguments_stores texts (a.firstFree + 1)
        (update a.commands a.firstFree com)
      generalize Auto.addArguments texts (a.firstFree + 1)
        (update a.commands a.firstFree com) = ran at below fst stored ⊢
      obtain ⟨commands, numbers⟩ := ran
      have old := h.scratch below
      cases numbers with
      | false => exact ⟨rfl, .inl ⟨by simp, rfl, old⟩⟩
      | true =>
        have small : ¬100 ≤ a.firstFree + (1 + argcount com) := full
        have free : (a.firstFree + (1 + argcount com)) % 2 ^ 8 =
            a.firstFree + (texts.length + 1) := by omega
        refine ⟨rfl, .inr ⟨rfl, name, texts, com, rfl, hf, free, ⟨?_, ?_, ?_, ?_⟩⟩⟩
        · rw [flatMap_append, stores_append, Nat.zero_add, ← h.length]
          refine ⟨old.stored, ?_⟩
          rw [flatMap_cons, flatMap_nil, append_nil]
          exact ⟨fst, stored rfl⟩
        · rw [flatMap_append, length_append, ← h.length, flatMap_cons,
            flatMap_nil, append_nil, Command.length_words, length_map]
          exact free
        · intro command mem
          rcases mem_append.mp mem with mem | mem
          · exact h.formed command mem
          · obtain rfl := mem_singleton.mp mem
            refine ⟨named_lt hf, ?_⟩
            change (texts.map word).length = argcount com
            rw [length_map]
            omega
        · change (a.firstFree + (1 + argcount com)) % 2 ^ 8 < 100
          omega

theorem Kept.addcommand (kept : Kept a program) (settled : Settled a (.add buffer)) :
    (∃ program', Kept (a.addcommand buffer).1 program') ∧
      Meant a (a.addcommand buffer).1 (.add buffer) := by
  obtain ⟨counter, ⟨refused, free, h⟩ | ⟨added, name, texts, com, args, hf, free, h⟩⟩ :=
    kept.holds.addcommand buffer
  · refine ⟨⟨program, h, by rw [counter]; exact kept.byte, ?_⟩, counter, ?_⟩
    · rw [counter, free]
      exact kept.counter
    · rw [if_neg refused, h.program_eq, kept.holds.program_eq]
  · obtain ⟨small, room⟩ := settled added
    rw [args] at small room
    refine ⟨⟨_, h, by rw [counter]; exact kept.byte, ?_⟩, counter, ?_⟩
    · have ends := h.place_length
      rw [length_append, length_singleton] at ends
      have eq : ∀ k ≤ program.length,
          place (program ++ [⟨com, texts.map word⟩]) k = place program k :=
        fun k hin => offset_append_left hin
      rw [counter, free]
      rcases kept.counter with ⟨k, hin, here⟩ | past
      · refine .inl ⟨k, ?_, ?_⟩
        · rw [length_append]
          exact Nat.le_add_right_of_le hin
        · rw [eq k hin, here]
      · rw [length_cons] at room
        rcases Nat.lt_or_eq_of_le (room.resolve_left (Nat.not_le_of_lt past)) with more | exactly
        · exact .inr more
        · refine .inl ⟨program.length + 1, ?_, ?_⟩
          · rw [length_append, length_singleton]
          · rw [ends, free, exactly]
    · rw [if_pos added, h.program_eq, kept.holds.program_eq]
      refine ⟨name, texts, com, texts.map word, args, hf, ?_, rfl⟩
      rw [map_map]
      refine map_congr_left fun text mem => ?_
      have bounds := small text mem
      change ((atoi text % 2 ^ 16).toNat : Int) = atoi text
      omega

/-! ## Deleting and jumping -/

theorem Holds.removeAll (h : Holds a program) (byte : a.programCounter < 2 ^ 8) {n : Nat}
    (hlt : program.length ≤ n) :
    Holds (Auto.removeAll n a) [] ∧ (Auto.removeAll n a).programCounter < 2 ^ 8 := by
  induction n generalizing a program with
  | zero =>
    obtain rfl := length_eq_zero_iff.mp (Nat.le_zero.mp hlt)
    exact ⟨h, byte⟩
  | succ n ih =>
    rw [Auto.removeAll]
    cases program with
    | nil =>
      have free : a.firstFree = 0 := h.length
      rw [if_neg (by omega)]
      exact ⟨h, byte⟩
    | cons command rest =>
      have some : 0 < a.firstFree := by
        have words := length_le_words (command :: rest)
        rw [← h.length] at words
        exact Nat.lt_of_lt_of_le (Nat.succ_pos _) words
      have whole : Holds a ([] ++ command :: rest) := h
      have byte' : (a.remove 0).programCounter < 2 ^ 8 := by
        have counter := whole.remove_counter
        rw [flatMap_nil, length_nil] at counter
        rw [counter]
        split
        · exact Nat.mod_lt _ (by decide)
        · exact byte
      rw [if_pos some]
      refine ih whole.remove.1 byte' ?_
      rw [nil_append, length_map]
      exact Nat.le_of_succ_le_succ hlt

theorem Kept.delcommand_cases (kept : Kept a program) (buffer : Text) :
    (∃ k < program.length, Asks buffer (place program k) ∧
        (a.delcommand buffer).1 = a.remove (place program k)) ∨
      (∃ number < 0, Asks buffer number ∧
        (a.delcommand buffer).1 = Auto.removeAll a.firstFree a) ∨
      ((a.delcommand buffer).1 = a ∧ (∀ k < program.length, ¬Asks buffer (place program k)) ∧
        ∀ number < 0, ¬Asks buffer number) := by
  unfold Auto.delcommand Asks
  dsimp only
  generalize buffer.dropWhile isSpace = text
  by_cases empty : text = []
  · rw [if_pos empty]
    exact .inr (.inr ⟨rfl, fun _ _ asks => asks.1 empty, fun _ _ asks => asks.1 empty⟩)
  rw [if_neg empty]
  by_cases bad : atoi text = 0 ∧ text ≠ ['0']
  · rw [if_pos bad]
    exact .inr (.inr ⟨rfl, fun _ _ asks => bad.2 (asks.2.1 bad.1),
      fun _ _ asks => bad.2 (asks.2.1 bad.1)⟩)
  rw [if_neg bad]
  have fine : atoi text = 0 → text = ['0'] := fun zero =>
    not_not.mp fun o => bad ⟨zero, o⟩
  by_cases pos : 0 ≤ atoi text
  · rw [if_pos pos]
    by_cases valid : a.validProgline (atoi text) = true
    · obtain ⟨k, hin, hf⟩ := (kept.holds.validProgline_iff _).mp valid
      rw [if_pos valid]
      refine .inl ⟨k, hin, ⟨empty, fine, hf⟩, ?_⟩
      rw [hf, Int.toNat_natCast]
    · rw [if_neg valid]
      refine .inr (.inr ⟨rfl, fun k hin asks => ?_, fun number negative asks => ?_⟩)
      · exact valid ((kept.holds.validProgline_iff _).mpr ⟨k, hin, asks.2.2⟩)
      · exact absurd (asks.2.2 ▸ pos) (Int.not_le.mpr negative)
  · rw [if_neg pos]
    exact .inr (.inl ⟨atoi text, Int.not_le.mp pos, ⟨empty, fine, rfl⟩, rfl⟩)

theorem Asks.unique {fst snd : Int} (one : Asks buffer fst) (o : Asks buffer snd) :
    fst = snd := one.2.2.symm.trans o.2.2

theorem Kept.delcommand (kept : Kept a program) (settled : Settled a (.delete buffer)) :
    (∃ program', Kept (a.delcommand buffer).1 program') ∧
      Meant a (a.delcommand buffer).1 (.delete buffer) := by
  unfold Settled at settled
  unfold Meant
  rw [kept.holds.program_eq] at settled ⊢
  rcases kept.delcommand_cases buffer with ⟨k, hin, asks, ran⟩ | ⟨number, negative, asks, ran⟩ |
    ⟨ran, none, noNegative⟩
  · rw [ran]
    obtain ⟨away, beside⟩ := settled k hin asks
    obtain ⟨pre, command, post, rfl, rfl⟩ : ∃ pre command post,
        program = pre ++ command :: post ∧ k = pre.length := by
      refine ⟨program.take k, program[k], program.drop (k + 1), ?_, ?_⟩
      · rw [← drop_eq_getElem_cons hin, take_append_drop]
      · rw [length_take, Nat.min_eq_left (Nat.le_of_lt hin)]
    have removed := kept.remove away
    have deleted := kept.deleted away beside
    rw [place_after] at asks ⊢
    refine ⟨⟨_, removed⟩, fun k' hin' asks' => ?_, fun number asks' negative => ?_⟩
    · have eq : k' = pre.length := by
        refine place_inj (Nat.le_of_lt hin') (Nat.le_of_lt hin) ?_
        rw [place_after]
        exact Int.ofNat.inj (asks'.unique asks)
      rw [eq, removed.holds.program_eq]
      exact deleted
    · have hf := asks'.unique asks
      omega
  · have hlt := length_le_words program
    rw [← kept.holds.length] at hlt
    obtain ⟨h, byte⟩ := kept.holds.removeAll kept.byte hlt
    have free : (Auto.removeAll a.firstFree a).firstFree = 0 := h.length
    rw [ran]
    refine ⟨⟨[], h, byte, ?_⟩, fun k hin asks' => ?_, fun _ _ _ => h.program_eq⟩
    · rw [free]
      rcases Nat.eq_zero_or_pos (Auto.removeAll a.firstFree a).programCounter with zero | some
      · exact .inl ⟨0, Nat.le_refl _, zero⟩
      · exact .inr some
    · have hf := asks'.unique asks
      omega
  · rw [ran]
    exact ⟨⟨program, kept⟩, fun k hin asks => absurd asks (none k hin),
      fun number asks negative => absurd asks (noNegative number negative)⟩

theorem Kept.jump (kept : Kept a program) (buffer : Text) :
    Kept (a.jump buffer).1 program ∧ ∀ k < program.length, Asks buffer (place program k) →
      (a.jump buffer).1.programCounter = place program k := by
  unfold Auto.jump Asks
  dsimp only
  generalize buffer.dropWhile isSpace = text
  by_cases empty : text = []
  · rw [if_pos empty]
    exact ⟨kept, fun _ _ asks => absurd empty asks.1⟩
  rw [if_neg empty]
  by_cases bad : atoi text = 0 ∧ text ≠ ['0']
  · rw [if_pos bad]
    exact ⟨kept, fun _ _ asks => absurd (asks.2.1 bad.1) bad.2⟩
  rw [if_neg bad]
  by_cases valid : a.validProgline (atoi text) = true
  · obtain ⟨k, hin, hf⟩ := (kept.holds.validProgline_iff _).mp valid
    rw [if_pos valid]
    obtain ⟨kept', counter⟩ := kept.jumped hin hf
    refine ⟨kept', fun k' _ asks => ?_⟩
    exact counter.trans (Int.ofNat.inj (hf.symm.trans asks.2.2))
  · rw [if_neg valid]
    exact ⟨kept, fun k hin asks =>
      absurd ((kept.holds.validProgline_iff _).mpr ⟨k, hin, asks.2.2⟩) valid⟩

/-! ## Runs -/

theorem Kept.step (kept : Kept a program) {op : Op} (settled : Settled a op) :
    (∃ program', Kept (a.step op) program') ∧ Meant a (a.step op) op := by
  cases op with
  | add buffer => exact kept.addcommand settled
  | delete buffer => exact kept.delcommand settled
  | jump buffer =>
    obtain ⟨kept', counter⟩ := kept.jump buffer
    refine ⟨⟨program, kept'⟩, ?_⟩
    unfold Meant
    rw [kept.holds.program_eq]
    exact ⟨kept'.holds.program_eq, counter⟩
  | com outside =>
    have kept' := kept.comEvent outside
    exact ⟨⟨program, kept'⟩, kept'.holds.program_eq.trans kept.holds.program_eq.symm⟩
  | goal outside reached =>
    have kept' := kept.goalEvent outside reached
    exact ⟨⟨program, kept'⟩, kept'.holds.program_eq.trans kept.holds.program_eq.symm⟩

theorem Run.kept (run : Run a) : ∃ program, Kept a program := by
  induction run with
  | blank => exact ⟨[], Kept.blank⟩
  | step op _ settled ih =>
    obtain ⟨program, kept⟩ := ih
    exact (kept.step settled).1

/-- In every state that settled steps lead to, the memory is a program with the counter at a command
or past the end, and every further settled step does what it should. -/
theorem program_kept (run : Run a) :
    a.Sound ∧ ∀ op, Settled a op → Meant a (a.step op) op ∧ (a.step op).Sound := by
  obtain ⟨program, kept⟩ := run.kept
  refine ⟨kept.sound, fun op settled => ?_⟩
  obtain ⟨⟨program', kept'⟩, meant⟩ := kept.step settled
  exact ⟨meant, kept'.sound⟩

def programmed (lines : List String) : Auto :=
  lines.foldl (fun a line => a.step (.add line.toList)) Auto.blank

def patrol : Auto := programmed ["startup", "goto 5 7", "goto 9 7", "jump 4"]

theorem patrol_program : patrol.program = [⟨8, []⟩, ⟨1, [5, 7]⟩, ⟨1, [9, 7]⟩, ⟨7, [4]⟩] := by
  decide

theorem patrol_run : Run patrol := by
  have add : ∀ a : Auto, Run a → ∀ line : String,
      Settled a (.add line.toList) → Run (a.step (.add line.toList)) :=
    fun a run line settled => Run.step _ run settled
  refine add _ (add _ (add _ (add _ Run.blank "startup" ?_) "goto 5 7" ?_) "goto 9 7" ?_) "jump 4" ?_
  all_goals
    intro _
    decide

theorem patrol_settled : Settled patrol (.delete ['1']) := by
  unfold Settled
  rw [patrol_program]
  intro k hin asks
  have number := asks.2.2
  obtain rfl : k = 1 := by
    match k, hin with
    | 0, _ => exact absurd number (by decide)
    | 1, _ => rfl
    | 2, _ => exact absurd number (by decide)
    | 3, _ => exact absurd number (by decide)
  refine ⟨by decide, fun i j command hf isJump insideTarget args _ _ => ?_⟩
  match i with
  | 0 | 1 | 2 =>
    obtain rfl := Option.some.inj hf
    exact absurd isJump (by decide)
  | 3 =>
    obtain rfl := Option.some.inj hf
    obtain rfl : j = 2 := by
      match j, insideTarget with
      | 0, _ => exact absurd args (by decide)
      | 1, _ => exact absurd args (by decide)
      | 2, _ => rfl
      | 3, _ => exact absurd args (by decide)
    decide
  | _ + 4 => exact absurd hf (by simp)

theorem program_kept_patrol :
    patrol.Sound ∧ Meant patrol (patrol.step (.delete ['1'])) (.delete ['1']) :=
  have kept := program_kept patrol_run
  ⟨kept.1, (kept.2 (.delete ['1']) patrol_settled).1⟩

/-- Deleting a command before a jump that goes back further leads it astray, deleting one after a
jump over it leaves it behind, deleting the command at the counter sends the counter elsewhere, and
an argument may come back as another. -/
theorem jumps_go_astray :
    let back := programmed ["startup", "goto 5 7", "jump 0"]
    let on := programmed ["jump 5", "goto 5 7", "startup"]
    let first := programmed ["goto 5 7", "startup"]
    let speed := programmed ["speed -5"]
    (back.program = [⟨8, []⟩, ⟨1, [5, 7]⟩, ⟨7, [0]⟩] ∧
      (back.step (.delete ['1'])).program = [⟨8, []⟩, ⟨7, [65533]⟩]) ∧
    (on.program = [⟨7, [5]⟩, ⟨1, [5, 7]⟩, ⟨8, []⟩] ∧
      (on.step (.delete ['2'])).program = [⟨7, [5]⟩, ⟨8, []⟩]) ∧
    (first.programCounter = 0 ∧ (first.step (.delete ['0'])).program = [⟨8, []⟩] ∧
      (first.step (.delete ['0'])).programCounter = 253) ∧
    speed.gval 1 = 65531 := by
  decide +kernel

end BattletechMux.Autopilot
