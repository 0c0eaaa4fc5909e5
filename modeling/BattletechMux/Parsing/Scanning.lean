/-
Module: BattletechMux.Parsing.Scanning
Purpose: The loop of parse_to reads a string item by item and stops at its first free delimiter.
-/
import BattletechMux.Parsing.Splitter

namespace BattletechMux.Parsing

open List Option

open Function (update)
open CText (isSpace)

/-! ## Strings in memory -/

section Memory

variable {mem mem' : Memory} {p place : Int} {text rest : Text}

theorem holds_append : Holds mem p (text ++ rest) ↔
    Holds mem p text ∧ Holds mem (p + text.length) rest := by
  induction text generalizing p with
  | nil => simp [Holds]
  | cons c text ih =>
    rw [cons_append, Holds, Holds, ih, and_assoc, length_cons]
    push_cast
    rw [show p + 1 + (text.length : Int) = p + (text.length + 1) by omega]

theorem Holds.frame (h : Holds mem p text)
    (eq : ∀ k, p ≤ k → k < p + text.length → mem' k = mem k) : Holds mem' p text := by
  induction text generalizing p with
  | nil => trivial
  | cons c text ih =>
    rw [length_cons] at eq
    push_cast at eq
    exact ⟨(eq p (le_refl p) (by omega)).trans h.1,
      ih h.2 fun k low high => eq k (by omega) (by omega)⟩

theorem Holds.update_of_outside (h : Holds mem p text) (c : Char)
    (outside : place < p ∨ p + text.length ≤ place) : Holds (update mem place c) p text :=
  h.frame fun k low high => Function.update_of_ne (by omega) c mem

theorem Holds.snoc (h : Holds mem p text) {c : Char} (here : mem (p + text.length) = c) :
    Holds mem p (text ++ [c]) :=
  holds_append.mpr ⟨h, here, trivial⟩

theorem Holds.last {c : Char} (h : Holds mem p (text ++ [c])) :
    mem (p + text.length) = c :=
  (holds_append.mp h).2.1

theorem StringAt.frame (string : StringAt mem p text)
    (eq : ∀ k, p ≤ k → k ≤ p + text.length → mem' k = mem k) : StringAt mem' p text :=
  ⟨string.1.frame fun k low high => eq k low (by simp at high; omega), string.2⟩

theorem StringAt.drop (string : StringAt mem p (text ++ rest)) :
    StringAt mem (p + text.length) rest := by
  refine ⟨?_, fun ends => string.2 (mem_append_right text ends)⟩
  have h := string.1
  rw [append_assoc] at h
  exact (holds_append.mp h).2

theorem skipSpaces_spec {limit : Nat} {stop : Char} (h : Holds mem p (text ++ [stop]))
    (solid : nul ∉ text) (stops : stop = nul ∨ isSpace stop = false)
    (hlt : text.length < limit) :
    skipSpaces mem limit p = some (p + (text.length - (text.dropWhile isSpace).length : Nat)) := by
  induction text generalizing p limit with
  | nil =>
    obtain ⟨limit, rfl⟩ := Nat.exists_eq_succ_of_ne_zero (Nat.ne_zero_of_lt hlt)
    have here : mem p = stop := h.1
    rw [skipSpaces, if_neg]
    · simp
    · rw [here]
      rintro ⟨solid, space⟩
      rcases stops with rfl | o
      · exact solid rfl
      · exact absurd space (by simp [o])
  | cons c text ih =>
    obtain ⟨limit, rfl⟩ := Nat.exists_eq_succ_of_ne_zero (Nat.ne_zero_of_lt hlt)
    have here : mem p = c := h.1
    have o : c ≠ nul := fun eq => solid (eq ▸ mem_cons_self)
    rw [skipSpaces, here]
    cases space : isSpace c with
    | true =>
      rw [if_pos ⟨o, rfl⟩, ih h.2
        (fun ends => solid (mem_cons_of_mem c ends)) (by simpa using hlt),
        dropWhile_cons_of_pos space, length_cons]
      have short := (dropWhile_suffix isSpace (l := text)).length_le
      congr 1
      omega
    | false =>
      rw [if_neg (by simp), dropWhile_cons_of_neg (by simp [space])]
      simp

theorem skipSpacesBack_spec {limit : Nat} (h : Holds mem p text) (solid : nul ∉ text)
    (start : mem (p - 1) = nul) (hlt : text.length < limit) :
    skipSpacesBack mem limit (p + text.length) =
      some (p + (text.rdropWhile isSpace).length) := by
  induction text using List.reverseRecOn generalizing limit with
  | nil =>
    obtain ⟨limit, rfl⟩ := Nat.exists_eq_succ_of_ne_zero (Nat.ne_zero_of_lt hlt)
    rw [skipSpacesBack, if_neg]
    · rfl
    · rintro ⟨solid, -⟩
      exact solid (by simpa using start)
  | append_singleton text c ih =>
    obtain ⟨limit, rfl⟩ := Nat.exists_eq_succ_of_ne_zero (Nat.ne_zero_of_lt hlt)
    have here : mem (p + text.length) = c := h.last
    have o : c ≠ nul := fun eq => solid (by simp [eq])
    have place : p + ((text ++ [c]).length : Int) - 1 = p + text.length := by
      simp
      omega
    rw [skipSpacesBack, place, here]
    cases space : isSpace c with
    | true =>
      rw [if_pos ⟨o, rfl⟩, ih (holds_append.mp h).1
        (fun ends => solid (mem_append_left _ ends)) (by simp at hlt; omega),
        rdropWhile_concat_pos _ _ _ space]
    | false => rw [if_neg (by simp), rdropWhile_concat_neg _ _ _ (by simp [space])]

end Memory

/-! ## What is dropped -/

namespace Trimmed

theorem refl (text : Text) : Trimmed text text := ⟨List.Sublist.refl text, rfl⟩

theorem trans {a b c : Text} (fst : Trimmed a b) (snd : Trimmed b c) : Trimmed a c :=
  ⟨fst.sublist.trans snd.sublist, fst.kept.trans snd.kept⟩

theorem append {a b c d : Text} (left : Trimmed a b) (right : Trimmed c d) :
    Trimmed (a ++ c) (b ++ d) :=
  ⟨left.sublist.append right.sublist, by
    rw [filter_append, filter_append, left.kept, right.kept]⟩

theorem none' {text : Text} (all : ∀ c ∈ text, droppable c = true) : Trimmed [] text :=
  ⟨nil_sublist text, by
    rw [filter_nil, eq_comm, filter_eq_nil_iff]
    exact fun c held => by simp [all c held]⟩

theorem skip {out done : Text} {c : Char} (trimmed : Trimmed out done)
    (drop : droppable c = true) : Trimmed out (done ++ [c]) :=
  append_nil out ▸ trimmed.append (none' (by simpa using drop))

theorem dropLast {out done : Text} {c : Char} (trimmed : Trimmed (out ++ [c]) done)
    (drop : droppable c = true) : Trimmed out done :=
  ((refl out).skip drop).trans trimmed

theorem dropWhile_isSpace (text : Text) : Trimmed (text.dropWhile isSpace) text := by
  have split := takeWhile_append_dropWhile (p := isSpace) (l := text)
  have blanks : Trimmed [] (text.takeWhile isSpace) := none' fun c held => by
    simp [droppable, mem_takeWhile_imp held]
  have both := blanks.append (refl (text.dropWhile isSpace))
  rwa [nil_append, split] at both

theorem rdropWhile_isSpace (text : Text) : Trimmed (text.rdropWhile isSpace) text := by
  have split := rdropWhile_append_rtakeWhile (p := isSpace) (l := text)
  have blanks : Trimmed [] (text.rtakeWhile isSpace) := none' fun c held => by
    simp [droppable, mem_rtakeWhile_imp held]
  have both := (refl (text.rdropWhile isSpace)).append blanks
  rwa [append_nil, split] at both

end Trimmed

/-! ## What the scan keeps -/

section Scanning

variable {mode : Mode} {mem : Memory} {start q : Int} {done out rest : Text} {s : Scan}
  {c : Char}

/-- The scan of a string at `q`: it has read `done` and written `out`, and `rest` is ahead. -/
structure Core (mode : Mode) (mem : Memory) (q : Int) (done out rest : Text) (s : Scan) :
    Prop where
  rstr : s.rstr = q
  cstr : s.cstr = q + done.length
  zstr : s.zstr = q + out.length
  room : out.length ≤ done.length
  solid : nul ∉ done
  ahead : StringAt s.mem s.cstr rest
  behind : ∀ c, done.getLast? = some c → s.mem (s.cstr - 1) = c
  held : Holds s.mem q out
  trimmed : Trimmed out done
  exact : mode.verbatim → out = done
  space : done.getLast? = some ' ' → out.getLast? = some ' '
  frame : ∀ k, k < q ∨ s.cstr ≤ k → s.mem k = mem k
  untouched : out = [] → s.mem q = mem q
  brace : mode.has evStrip = false → done.head? = some '{' → out.head? = some '{'

theorem Core.marks (core : Core mode mem q done out rest s) (stack : List Char) (first : Bool) :
    Core mode mem q done out rest { s with stack := stack, first := first } :=
  ⟨core.1, core.2, core.3, core.4, core.5, core.6, core.7, core.8, core.9, core.10, core.11,
    core.12, core.13, core.14⟩

theorem Core.here (core : Core mode mem q done out (c :: rest) s) : s.here = c := core.ahead.1.1

theorem Core.here_nil (core : Core mode mem q done out [] s) : s.here = nul := core.ahead.1.1

section

variable (core : Core mode mem q done out (c :: rest) s)
include core

theorem Core.solid_cons : c ≠ nul :=
  fun eq => core.ahead.2 (eq ▸ mem_cons_self)

theorem Core.solid_snoc : nul ∉ done ++ [c] := by
  rw [mem_append, mem_singleton]
  rintro (ends | eq)
  · exact core.solid ends
  · exact core.solid_cons eq.symm

theorem Core.ahead_cons : StringAt s.mem (s.cstr + 1) rest :=
  ⟨core.ahead.1.2, fun ends => core.ahead.2 (mem_cons_of_mem c ends)⟩

end

theorem write_spec {place : Int} (low : start ≤ place) (high : place ≤ s.cstr) :
    s.write start place c = some { s with mem := update s.mem place c } :=
  if_pos ⟨low, high⟩

theorem nextChar_behind (level : s.cstr ≠ s.zstr) (low : start ≤ s.zstr)
    (high : s.zstr ≤ s.cstr) :
    s.nextChar start = some { s with
      mem := update s.mem s.zstr s.here, cstr := s.cstr + 1, zstr := s.zstr + 1 } := by
  rw [Scan.nextChar, if_neg level, write_spec low high]
  rfl

theorem head?_snoc {text : Text} (filled : text ≠ []) (c : Char) :
    (text ++ [c]).head? = text.head? := by
  cases text with
  | nil => exact absurd rfl filled
  | cons fst text => rfl

theorem Core.take (core : Core mode mem q done out (c :: rest) s) (hin : start ≤ q) :
    ∃ s', s.nextChar start = some s' ∧ Core mode mem q (done ++ [c]) (out ++ [c]) rest s' ∧
      s'.stack = s.stack ∧ s'.first = s.first := by
  have cstr := core.cstr
  have zstr := core.zstr
  have room := core.room
  have brace : mode.has evStrip = false → (done ++ [c]).head? = some '{' →
      (out ++ [c]).head? = some '{' := by
    intro strips fst
    cases done with
    | nil =>
      have empty : out = [] := length_eq_zero_iff.mp (Nat.le_zero.mp room)
      rwa [empty]
    | cons d done =>
      have filled := core.brace strips fst
      rwa [head?_snoc fun empty => by simp [empty] at filled]
  have exact : mode.verbatim → out ++ [c] = done ++ [c] := fun eq => by rw [core.exact eq]
  have space : (done ++ [c]).getLast? = some ' ' → (out ++ [c]).getLast? = some ' ' := by simp
  by_cases level : s.cstr = s.zstr
  · refine ⟨_, if_pos level, ?_, rfl, rfl⟩
    have eq : (q : Int) + out.length = s.cstr := by omega
    exact {
      rstr := core.rstr
      cstr := by
        simp
        omega
      zstr := by
        simp
        omega
      room := by simpa using room
      solid := core.solid_snoc
      ahead := core.ahead_cons
      behind := fun d last => by
        obtain rfl : c = d := by simpa using last
        simpa using core.ahead.1.1
      held := core.held.snoc (eq ▸ core.here)
      trimmed := core.trimmed.append (Trimmed.refl [c])
      exact := exact
      space := space
      frame := fun k outside => core.frame k (by
        change k < q ∨ s.cstr + 1 ≤ k at outside
        omega)
      untouched := fun empty => absurd empty (by simp)
      brace := brace }
  · have below : s.zstr < s.cstr := by omega
    refine ⟨_, nextChar_behind level (by omega) below.le, ?_, rfl, rfl⟩
    exact {
      rstr := core.rstr
      cstr := by
        simp
        omega
      zstr := by
        simp
        omega
      room := by simpa using room
      solid := core.solid_snoc
      ahead := core.ahead_cons.frame fun k low high => Function.update_of_ne (by omega) _ _
      behind := fun d last => by
        obtain rfl : c = d := by simpa using last
        change update s.mem s.zstr s.here (s.cstr + 1 - 1) = c
        rw [Function.update_of_ne (by omega), add_sub_cancel_right]
        exact core.here
      held := (core.held.update_of_outside _ (.inr (by omega))).snoc (by
        rw [← zstr, Function.update_self]
        exact core.here)
      trimmed := core.trimmed.append (Trimmed.refl [c])
      exact := exact
      space := space
      frame := fun k outside => by
        change k < q ∨ s.cstr + 1 ≤ k at outside
        exact (Function.update_of_ne (by omega) _ _).trans (core.frame k (by omega))
      untouched := fun empty => absurd empty (by simp)
      brace := brace }

theorem Core.pass (core : Core mode mem q done out (c :: rest) s) (drop : droppable c = true)
    (solid : c ≠ ' ') (shown : ¬ mode.verbatim) (brace : c = '{' → mode.has evStrip = true) :
    Core mode mem q (done ++ [c]) out rest s.skip where
  rstr := core.rstr
  cstr := by
    have cstr := core.cstr
    simp [Scan.skip]
    omega
  zstr := core.zstr
  room := by
    have room := core.room
    simp
    omega
  solid := core.solid_snoc
  ahead := core.ahead_cons
  behind := fun d last => by
    obtain rfl : c = d := by simpa using last
    simpa [Scan.skip] using core.ahead.1.1
  held := core.held
  trimmed := core.trimmed.skip drop
  exact := fun eq => absurd eq shown
  space := fun last => absurd (by simpa using last) solid
  frame := fun k outside => core.frame k (by
    change k < q ∨ s.cstr + 1 ≤ k at outside
    omega)
  untouched := core.untouched
  brace := fun strips fst => by
    cases done with
    | nil =>
      obtain rfl : c = '{' := by simpa using fst
      exact absurd (brace rfl) (by simp [strips])
    | cons d done => exact core.brace strips fst

theorem Core.takeSpace (core : Core mode mem q done out (' ' :: rest) s) (hin : start ≤ q)
    (last : done.getLast? = some ' ') (shown : ¬ mode.verbatim) :
    ∃ s', ({ s with zstr := s.zstr - 1 }).nextChar start = some s' ∧
      Core mode mem q (done ++ [' ']) out rest s' ∧ s'.stack = s.stack ∧
      s'.first = s.first := by
  obtain ⟨out, rfl⟩ : ∃ pre, out = pre ++ [' '] :=
    getLast?_eq_some_iff.mp (core.space last)
  have cstr := core.cstr
  have zstr := core.zstr
  have room := core.room
  simp only [length_append, length_singleton] at zstr room
  push_cast at zstr
  refine ⟨_, nextChar_behind (s := { s with zstr := s.zstr - 1 }) (show s.cstr ≠ s.zstr - 1 by
    omega) (show start ≤ s.zstr - 1 by omega) (show s.zstr - 1 ≤ s.cstr by omega), ?_, rfl, rfl⟩
  have place : s.zstr - 1 = q + out.length := by omega
  -- the blank is written where one stands already
  have unchanged : update s.mem (s.zstr - 1) s.here = s.mem := by
    rw [Function.update_eq_self_iff, core.here, place]
    exact core.held.last.symm
  exact {
    rstr := core.rstr
    cstr := by
      simp
      omega
    zstr := by
      simp
      omega
    room := by
      simp
      omega
    solid := core.solid_snoc
    ahead := by
      change StringAt (update s.mem (s.zstr - 1) s.here) (s.cstr + 1) rest
      rw [unchanged]
      exact core.ahead_cons
    behind := fun d eq => by
      obtain rfl : ' ' = d := by simpa using eq
      change update s.mem (s.zstr - 1) s.here (s.cstr + 1 - 1) = ' '
      rw [unchanged, add_sub_cancel_right]
      exact core.here
    held := by
      change Holds (update s.mem (s.zstr - 1) s.here) q _
      rw [unchanged]
      exact core.held
    trimmed := core.trimmed.skip rfl
    exact := fun eq => absurd eq shown
    space := by simp
    frame := fun k outside => by
      change update s.mem (s.zstr - 1) s.here k = mem k
      change k < q ∨ s.cstr + 1 ≤ k at outside
      rw [unchanged]
      exact core.frame k (by omega)
    untouched := fun empty => absurd empty (by simp)
    brace := fun strips fst => core.brace strips (by
      rwa [head?_snoc fun empty => by simp [empty] at last] at fst) }

theorem Core.passOrTake (core : Core mode mem q done out (c :: rest) s) (hin : start ≤ q)
    (drops : Prop) [Decidable drops] (drop : drops → droppable c = true ∧ c ≠ ' ')
    (shown : drops → ¬ mode.verbatim) (brace : drops → c = '{' → mode.has evStrip = true) :
    ∃ s' out', (if drops then some s.skip else s.nextChar start) = some s' ∧
      Core mode mem q (done ++ [c]) out' rest s' ∧ s'.stack = s.stack ∧ s'.first = s.first := by
  by_cases passes : drops
  · exact ⟨s.skip, out, if_pos passes,
      core.pass (drop passes).1 (drop passes).2 (shown passes) (brace passes), rfl, rfl⟩
  · obtain ⟨s', taken, core', stack, fst⟩ := core.take hin
    exact ⟨s', _, (if_neg passes).trans taken, core', stack, fst⟩

theorem not_verbatim_of_stripEsc (strips : mode.has evStripEsc = true) : ¬ mode.verbatim :=
  fun verbatim => absurd (verbatim.2.2.1.symm.trans strips) (by decide)

theorem not_verbatim_of_strip (strips : mode.has evStrip = true) : ¬ mode.verbatim :=
  fun verbatim => absurd (verbatim.2.1.symm.trans strips) (by decide)

theorem not_verbatim_of_compresses (compresses : mode.compresses = true) : ¬ mode.verbatim :=
  fun verbatim => absurd (verbatim.1.symm.trans compresses) (by decide)

theorem Core.escape (core : Core mode mem q done out (c :: rest) s) (hin : start ≤ q)
    (escape : c = '\\' ∨ c = '%') :
    ∃ s' out', (if s.here = '\\' ∧ mode.has evStripEsc = true then some s.skip
        else s.nextChar start) = some s' ∧
      Core mode mem q (done ++ [c]) out' rest s' ∧ s'.stack = s.stack ∧ s'.first = s.first := by
  rw [core.here]
  refine core.passOrTake hin _ ?_ (fun drops => not_verbatim_of_stripEsc drops.2) ?_
  · rintro ⟨rfl, -⟩
    decide
  · rintro ⟨rfl, -⟩ brace
    exact absurd brace (by decide)

theorem escaped_eq : escaped mode start s =
    (if s.here = '\\' ∧ mode.has evStripEsc = true then some s.skip else s.nextChar start).bind
      fun s => (if s.here ≠ nul then s.nextChar start else some s).bind
        fun s => some { s with first := false } := by
  simp only [escaped, bind_eq_bind]
  split_ifs <;> first | rfl | (congr 1; funext s; split_ifs <;> rfl)

theorem escaped_spec {d : Char} (core : Core mode mem q done out (c :: d :: rest) s)
    (inside : start ≤ q) (escape : c = '\\' ∨ c = '%') :
    ∃ s' out', escaped mode start s = some s' ∧ Core mode mem q (done ++ [c, d]) out' rest s' ∧
      s'.stack = s.stack ∧ s'.first = false := by
  obtain ⟨s₁, out₁, passes, core₁, stack₁, -⟩ := core.escape inside escape
  obtain ⟨s₂, taken, core₂, stack₂, -⟩ := core₁.take inside
  rw [append_assoc] at core₂
  refine ⟨_, _, ?_, core₂.marks s₂.stack false, stack₂.trans stack₁, rfl⟩
  rw [escaped_eq, passes, bind_some, core₁.here, if_pos core₁.solid_cons, taken]
  rfl

theorem escaped_end (core : Core mode mem q done out [c] s) (inside : start ≤ q)
    (escape : c = '\\' ∨ c = '%') :
    ∃ s' out', escaped mode start s = some s' ∧ Core mode mem q (done ++ [c]) out' [] s' ∧
      s'.stack = s.stack ∧ s'.first = false := by
  obtain ⟨s₁, out₁, passes, core₁, stack₁, -⟩ := core.escape inside escape
  refine ⟨_, _, ?_, core₁.marks s₁.stack false, stack₁, rfl⟩
  rw [escaped_eq, passes, bind_some, core₁.here_nil, if_neg (by simp)]
  rfl

/-! ## Braces -/

def levelBehind (level : Nat) (c : Char) : Nat :=
  if c = '{' then level + 1 else if c = '}' then level - 1 else level

theorem block_zero (text : Text) : block 0 text = ([], text) := by
  cases text <;> rfl

theorem block_nil (level : Nat) : block (level + 1) [] = ([], []) := rfl

variable {level : Nat}

theorem block_escapeEnd (escape : c = '\\' ∨ c = '%') : block (level + 1) [c] = ([c], []) := by
  rw [block.eq_def]
  exact if_pos escape

theorem block_escape {d : Char} (escape : c = '\\' ∨ c = '%') (rest : Text) :
    block (level + 1) (c :: d :: rest) =
      ([c, d] ++ (block (level + 1) rest).1, (block (level + 1) rest).2) := by
  rw [block.eq_def]
  exact if_pos escape

theorem block_plain (escape : ¬(c = '\\' ∨ c = '%')) (rest : Text) :
    block (level + 1) (c :: rest) =
      ([c] ++ (block (levelBehind (level + 1) c) rest).1,
        (block (levelBehind (level + 1) c) rest).2) := by
  rw [block.eq_def, levelBehind]
  dsimp only
  rw [if_neg escape]
  split_ifs <;> rfl

theorem braceChar_plain (escape : ¬(s.here = '\\' ∨ s.here = '%')) :
    braceChar mode start level s = some (levelBehind level s.here, s) := by
  rw [braceChar, if_neg escape, levelBehind]
  split_ifs <;> rfl

theorem block_append (level : Nat) (text : Text) :
    (block level text).1 ++ (block level text).2 = text := by
  induction level, text using block.induct with
  | case1 text => rw [block_zero, nil_append]
  | case2 level => rfl
  | case3 level c escape => rw [block_escapeEnd escape, append_nil]
  | case4 level c escape d text ih =>
    rw [block_escape escape, append_assoc, ih]
    rfl
  | case5 level text escape ih =>
    rw [block_plain escape]
    exact congrArg (List.cons '{') ih
  | case6 level text escape brace ih =>
    rw [block_plain escape]
    exact congrArg (List.cons '}') ih
  | case7 level c text escape brace brace' ih =>
    have stays : levelBehind (level + 1) c = level + 1 := by
      rw [levelBehind, if_neg brace, if_neg brace']
    rw [block_plain escape, stays, append_assoc, ih]
    rfl

/-- How the loop ends: in front of the brace that closes the block, or at the end. -/
inductive BlockEnds (text : Text) (level : Nat) (read rest : Text) : Nat → Prop where
  | closed (after : Text) (split : rest = '}' :: after)
      (block : block level text = (read ++ ['}'], after)) : BlockEnds text level read rest 0
  | open' (left : Nat) (split : rest = []) (block : block level text = (read, [])) :
      BlockEnds text level read rest (left + 1)

theorem BlockEnds.cons {text text' read rest : Text} {level level' left : Nat} {skipped : Text}
    (ends : BlockEnds text' level' read rest left)
    (block : block level text = (skipped ++ (block level' text').1, (block level' text').2)) :
    BlockEnds text level (skipped ++ read) rest left := by
  cases ends with
  | closed post split block' =>
    refine .closed post split ?_
    rw [block, block', append_assoc]
  | open' left split block' => exact .open' left split (by rw [block, block'])

theorem braceLoop_spec {limit : Nat} (level : Nat) (core : Core mode mem q done out rest s)
    (hin : start ≤ q) (hlt : rest.length + 1 < limit) :
    ∃ left s' read out' rest', braceLoop mode start limit (level + 1) s = some (left, s') ∧
      Core mode mem q (done ++ read) out' rest' s' ∧ s'.stack = s.stack ∧
      BlockEnds rest (level + 1) read rest' left := by
  induction limit generalizing level rest done out s with
  | zero => exact absurd hlt (by omega)
  | succ limit ih =>
    cases rest with
    | nil =>
      refine ⟨level + 1, s, [], out, [], ?_, by simpa using core, rfl,
        .open' level rfl (block_nil level)⟩
      rw [braceLoop, core.here_nil, if_neg (by simp)]
    | cons c rest =>
      rw [braceLoop, core.here, if_pos ⟨core.solid_cons, Nat.succ_pos level⟩]
      by_cases escape : c = '\\' ∨ c = '%'
      · cases rest with
        | nil =>
          -- nothing to escape
          obtain ⟨s₁, taken, core₁, stack₁, -⟩ := core.take hin
          have stays : braceChar mode start (level + 1) s = some (level + 1, s) := by
            have next : s.mem (s.cstr + 1) = nul := core.ahead_cons.1.1
            rw [braceChar, core.here, if_pos escape, if_neg (by simp [next])]
          obtain ⟨left, s', read, out', rest', ran, core', stack', ends⟩ :=
            ih level core₁
              (by simp at hlt ⊢; omega)
          refine ⟨left, s', [c] ++ read, out', rest', ?_,
            by simpa [append_assoc] using core', stack'.trans stack₁,
            ends.cons ?_⟩
          · rw [stays]
            dsimp only
            rw [if_pos (Nat.succ_pos level), taken]
            exact ran
          · rw [block_escapeEnd escape, block_nil]
            rfl
        | cons d rest =>
          obtain ⟨s₁, out₁, passes, core₁, stack₁, -⟩ := core.escape hin escape
          obtain ⟨s₂, taken, core₂, stack₂, -⟩ := core₁.take hin
          rw [append_assoc] at core₂
          have passed : braceChar mode start (level + 1) s = some (level + 1, s₁) := by
            have next : s.mem (s.cstr + 1) = d := core.ahead_cons.1.1
            rw [braceChar, core.here, if_pos escape, if_pos (next ▸ core₁.solid_cons)]
            rw [core.here] at passes
            split_ifs at passes ⊢
            · rw [some.inj passes]
            · rw [passes]
              rfl
          obtain ⟨left, s', read, out', rest', ran, core', stack', ends⟩ :=
            ih level core₂
              (by simp at hlt ⊢; omega)
          refine ⟨left, s', [c, d] ++ read, out', rest', ?_,
            by simpa [append_assoc] using core',
            stack'.trans (stack₂.trans stack₁), ends.cons ?_⟩
          · rw [passed]
            dsimp only
            rw [if_pos (Nat.succ_pos level), taken]
            exact ran
          · exact block_escape escape rest
      · rw [braceChar_plain (by rwa [core.here]), core.here]
        dsimp only
        rcases closes : levelBehind (level + 1) c with _ | level'
        · -- the brace that closes the block
          obtain rfl : c = '}' := by
            unfold levelBehind at closes
            split_ifs at closes with opens closes'
            exact closes'
          rw [if_neg (lt_irrefl 0)]
          obtain ⟨limit, rfl⟩ := Nat.exists_eq_succ_of_ne_zero
            (Nat.ne_zero_of_lt (Nat.lt_of_succ_lt_succ hlt))
          refine ⟨0, s, [], out, '}' :: rest, ?_, by simpa using core, rfl,
            .closed rest rfl ?_⟩
          · rw [braceLoop, if_neg (by simp)]
          · rw [block_plain escape, closes, block_zero]
            rfl
        · rw [if_pos (Nat.succ_pos level')]
          obtain ⟨s₁, taken, core₁, stack₁, -⟩ := core.take hin
          obtain ⟨left, s', read, out', rest', ran, core', stack', ends⟩ :=
            ih level' core₁
              (by simp at hlt ⊢; omega)
          refine ⟨left, s', [c] ++ read, out', rest', ?_,
            by simpa [append_assoc] using core', stack'.trans stack₁, ends.cons ?_⟩
          · rw [taken]
            exact ran
          · rw [block_plain escape, closes]

theorem braces_eq {limit : Nat} : braces mode start limit s =
    (if mode.has evStrip = true then some s.skip else s.nextChar start).bind fun s =>
      (braceLoop mode start limit 1 s).bind fun ended =>
        (if ended.1 = 0 then
            (if mode.has evStrip = true then some ended.2.skip else ended.2.nextChar start)
          else some ended.2).bind fun s => some { s with first := false } := by
  simp only [braces, bind_eq_bind]
  split_ifs <;> first | rfl | (congr 1; funext s; congr 1; funext ended; split_ifs <;> rfl)

theorem braces_spec {limit : Nat} (core : Core mode mem q done out ('{' :: rest) s)
    (inside : start ≤ q) (enough : rest.length + 1 < limit) :
    ∃ s' out', braces mode start limit s = some s' ∧
      Core mode mem q (done ++ '{' :: (block 1 rest).1) out' (block 1 rest).2 s' ∧
      s'.stack = s.stack ∧ s'.first = false := by
  obtain ⟨s₁, out₁, passes, core₁, stack₁, -⟩ := core.passOrTake inside
    (mode.has evStrip = true) (fun _ => by decide) not_verbatim_of_strip
    fun strips _ => strips
  obtain ⟨left, s₂, read, out₂, rest₂, ran, core₂, stack₂, ends⟩ :=
    braceLoop_spec 0 core₁ inside enough
  rw [braces_eq, passes, bind_some, ran, bind_some]
  cases ends with
  | open' left split block =>
    subst split
    rw [append_assoc] at core₂
    refine ⟨{ s₂ with first := false }, out₂, ?_, ?_, stack₂.trans stack₁, rfl⟩
    · rw [if_neg (Nat.succ_ne_zero left)]
      rfl
    · rw [block]
      exact core₂.marks s₂.stack false
  | closed after split block =>
    subst split
    obtain ⟨s₃, out₃, passes₃, core₃, stack₃, -⟩ := core₂.passOrTake inside
      (mode.has evStrip = true) (fun _ => by decide) not_verbatim_of_strip
      fun strips _ => strips
    rw [append_assoc, append_assoc] at core₃
    refine ⟨{ s₃ with first := false }, out₃, ?_, ?_, stack₃.trans (stack₂.trans stack₁), rfl⟩
    · rw [if_pos rfl, passes₃]
      rfl
    · rw [block]
      exact core₃.marks s₃.stack false

/-! ## The loop -/

/-- `first` says whether only blanks have been read; none have when they are compressed. -/
structure Ready (mode : Mode) (done rest : Text) (s : Scan) : Prop where
  started : s.first = false → done ≠ []
  fresh : mode.compresses = true → s.first = true → done = [] ∧ rest.head? ≠ some ' '

theorem ready_of_not_first (notFirst : s.first = false) (filled : done ≠ []) :
    Ready mode done rest s :=
  ⟨fun _ => filled, fun _ fst => absurd (notFirst.symm.trans fst) (by decide)⟩

theorem snoc_ne_nil (text : Text) (c : Char) : text ++ [c] ≠ [] := by simp

theorem Core.takeMarked (core : Core mode mem q done out (c :: rest) s) (hin : start ≤ q)
    (stack : List Char) (first : Bool) :
    ∃ s', ({ s with stack := stack, first := first }).nextChar start = some s' ∧
      Core mode mem q (done ++ [c]) (out ++ [c]) rest s' ∧ s'.stack = stack ∧
      s'.first = first :=
  (core.marks stack first).take hin

theorem Core.behind_iff (core : Core mode mem q done out rest s) (d : Char) :
    s.cstr ≠ s.rstr ∧ s.mem (s.cstr - 1) = d ↔ done.getLast? = some d := by
  have cstr := core.cstr
  have rstr := core.rstr
  constructor
  · rintro ⟨moved, last⟩
    cases read : done.getLast? with
    | none =>
      rw [getLast?_eq_none_iff] at read
      exact absurd cstr (by simpa [read, rstr] using moved)
    | some c => rw [← last, core.behind c read]
  · intro last
    refine ⟨fun eq => ?_, core.behind d last⟩
    have empty : done = [] := length_eq_zero_iff.mp (by omega)
    simp [empty] at last

theorem push_eq (s : Scan) (c : Char) :
    s.push c = { s with stack := if s.stack.length < stacklim then c :: s.stack else s.stack } := by
  rw [Scan.push]
  split_ifs <;> rfl

theorem plainChar_spec (core : Core mode mem q done out (c :: rest) s) (hin : start ≤ q)
    (ready : Ready mode done (c :: rest) s) (closes : ¬(c = ']' ∨ c = ')')) :
    ∃ s' out', (plainChar mode s).nextChar start = some s' ∧
      Core mode mem q (done ++ [c]) out' rest s' ∧
      s'.stack = brackets { text := done, opened := s.stack } c ∧
      Ready mode (done ++ [c]) rest s' := by
  have filled := snoc_ne_nil done c
  rw [plainChar, core.here]
  by_cases blank : c = ' '
  · subst blank
    have idle : brackets { text := done, opened := s.stack } ' ' = s.stack := by simp [brackets]
    rw [if_pos rfl, idle]
    by_cases compresses : mode.compresses = true
    · rw [if_pos compresses]
      by_cases first : s.first = true
      · exact absurd rfl (ready.fresh compresses first).2
      · rw [if_neg first]
        rw [Bool.not_eq_true] at first
        split_ifs with behind
        · have last : done.getLast? = some ' ' := by
            refine (core.behind_iff ' ').mp ⟨fun eq => ?_, behind⟩
            have cstr := core.cstr
            have rstr := core.rstr
            exact ready.started first (length_eq_zero_iff.mp (by omega))
          obtain ⟨s', taken, core', stack, first'⟩ :=
            core.takeSpace hin last (not_verbatim_of_compresses compresses)
          exact ⟨s', _, taken, core', stack, ready_of_not_first (first'.trans first) filled⟩
        · obtain ⟨s', taken, core', stack, first'⟩ := core.take hin
          exact ⟨s', _, taken, core', stack, ready_of_not_first (first'.trans first) filled⟩
    · rw [if_neg compresses]
      obtain ⟨s', taken, core', stack, -⟩ := core.take hin
      exact ⟨s', _, taken, core', stack, fun _ => filled,
        fun compresses' => absurd compresses' compresses⟩
  · have marked (stack : List Char) : ∃ s' out',
        ({ s with stack := stack, first := false }).nextChar start = some s' ∧
          Core mode mem q (done ++ [c]) out' rest s' ∧ s'.stack = stack ∧
          Ready mode (done ++ [c]) rest s' := by
      obtain ⟨s', taken, core', stack', first⟩ := core.takeMarked hin stack false
      exact ⟨s', _, taken, core', stack', ready_of_not_first first filled⟩
    rw [if_neg blank, push_eq, push_eq]
    by_cases opens : c = '['
    · subst opens
      rw [if_pos rfl]
      by_cases escaped : s.cstr ≠ s.rstr ∧ s.mem (s.cstr - 1) = escChar
      · have idle : brackets { text := done, opened := s.stack } '[' = s.stack := by
          simp [brackets, (core.behind_iff escChar).mp escaped]
        rw [if_pos escaped, idle]
        exact marked s.stack
      · have last : done.getLast? ≠ some escChar :=
          fun last => escaped ((core.behind_iff escChar).mpr last)
        have waits : brackets { text := done, opened := s.stack } '[' =
            if s.stack.length < stacklim then ']' :: s.stack else s.stack := by
          simp [brackets, last]
        rw [if_neg escaped, waits]
        exact marked _
    · rw [if_neg opens]
      by_cases opens' : c = '('
      · subst opens'
        have waits : brackets { text := done, opened := s.stack } '(' =
            if s.stack.length < stacklim then ')' :: s.stack else s.stack := by
          simp [brackets]
        rw [if_pos rfl, waits]
        exact marked _
      · have idle : brackets { text := done, opened := s.stack } c = s.stack := by
          rw [brackets, if_neg closes, if_neg (by simp [opens, opens'])]
        rw [if_neg opens', idle]
        exact marked s.stack

/-- How the loop stops among `items`, which follow `earlier`. -/
inductive Stops (delim : Char) (earlier items : List Item) : Text → Text → Bool → Prop where
  | cut (before after : List Item) (first : FirstCut delim earlier items before after) :
      Stops delim earlier items (flat before) (delim :: flat after) true
  | end' (none' : NoCut delim earlier items) : Stops delim earlier items (flat items) [] false

theorem flat_cons (item : Item) (items : List Item) :
    flat (item :: items) = item.text ++ flat items := flatMap_cons

theorem Lexes.flat {text : Text} {items : List Item} (lexes : Lexes text items) :
    flat items = text := by
  induction lexes with
  | done => rfl
  | escapeEnd c escape => rfl
  | escape c d rest items escape lexes ih =>
    rw [flat_cons, ih]
    rfl
  | block text items lexes ih =>
    rw [flat_cons, ih]
    exact congrArg (List.cons '{') (block_append 1 text)
  | plain c rest items escape brace lexes ih =>
    rw [flat_cons, ih]
    rfl

variable {earlier items : List Item}

theorem Stops.append {delim : Char} {read rest : Text} {cut : Bool}
    (stops : Stops delim earlier items read rest cut) : read ++ rest = flat items := by
  cases stops with
  | cut pre post fst =>
    rw [fst.split]
    simp [BattletechMux.Parsing.flat, Item.text]
  | end' none' => exact append_nil _

theorem Stops.cons {delim : Char} {item : Item} {read rest : Text}
    {cut : Bool} (stops : Stops delim (earlier ++ [item]) items read rest cut)
    (passes : item = .plain delim → ¬ Free delim (opened earlier)) :
    Stops delim earlier (item :: items) (item.text ++ read) rest cut := by
  cases stops with
  | cut pre post fst =>
    rw [← flat_cons]
    refine .cut (item :: pre) post ⟨by rw [fst.split, cons_append], ?_, ?_⟩
    · have free := fst.free
      rwa [append_assoc] at free
    · intro pre' post' split free
      cases pre' with
      | nil =>
        rw [nil_append, List.cons.injEq] at split
        rw [append_nil] at free
        exact absurd free (passes split.1)
      | cons item' pre' =>
        rw [cons_append, List.cons.injEq] at split
        obtain ⟨rfl, split⟩ := split
        exact Nat.succ_le_succ (fst.first pre' post' split (by
          rwa [append_assoc]))
  | end' none' =>
    rw [← flat_cons]
    refine .end' fun pre post split free => ?_
    cases pre with
    | nil =>
      rw [nil_append, List.cons.injEq] at split
      rw [append_nil] at free
      exact absurd free (passes split.1)
    | cons item' pre =>
      rw [cons_append, List.cons.injEq] at split
      obtain ⟨rfl, split⟩ := split
      exact none' pre post split (by rwa [append_assoc])

theorem stops_here {delim : Char} (free : Free delim (opened earlier)) :
    Stops delim earlier (.plain delim :: items) [] (delim :: flat items) true :=
  .cut [] items ⟨rfl, by rwa [append_nil], fun _ _ _ _ => Nat.zero_le _⟩

theorem brackets_closes (pre : Text) (closes : c = ']' ∨ c = ')') :
    brackets { text := pre, opened := s.stack } c =
      if c ∈ s.stack then (s.stack.dropWhile (· != c)).tail else s.stack :=
  if_pos closes

theorem passed_snoc (items : List Item) (item : Item) :
    passed (items ++ [item]) = (passed items).step item := by
  rw [passed, foldl_append]
  rfl

/-- The loop comes to an end where it is to stop among `items`, which follow `earlier`. -/
def Runs (mode : Mode) (delim : Char) (mem : Memory) (start q : Int) (limit rounds : Nat)
    (done : Text) (s : Scan) (earlier items : List Item) : Prop :=
  ∃ cut s' read out' rest', parseLoop mode delim start limit rounds s = some (cut, s') ∧
    Core mode mem q (done ++ read) out' rest' s' ∧
    (s'.first = false → done ++ read ≠ []) ∧ Stops delim earlier items read rest' cut

section Loop

variable {delim : Char} {limit rounds : Nat} {items earlier : List Item}

theorem runs_end (core : Core mode mem q done out [] s) (ready : Ready mode done [] s) :
    Runs mode delim mem start q limit (rounds + 1) done s earlier [] := by
  refine ⟨false, s, [], out, [], ?_, by rwa [append_nil], ?_, .end' fun _ _ split => ?_⟩
  · rw [parseLoop, core.here_nil, if_pos rfl]
  · rw [append_nil]
    exact ready.started
  · exact absurd split.symm (by simp)

theorem Runs.cons {item : Item} {s₁ : Scan}
    (runs : Runs mode delim mem start q limit rounds (done ++ item.text) s₁ (earlier ++ [item])
      items)
    (step : parseLoop mode delim start limit (rounds + 1) s =
      parseLoop mode delim start limit rounds s₁)
    (passes : item = .plain delim → ¬ Free delim (opened earlier)) :
    Runs mode delim mem start q limit (rounds + 1) done s earlier (item :: items) := by
  obtain ⟨cut, s', read, out', rest', ran, core, filled, stops⟩ := runs
  rw [append_assoc] at core filled
  exact ⟨cut, s', item.text ++ read, out', rest', step.trans ran, core, filled,
    stops.cons passes⟩

theorem parseLoop_spec (lexes : Lexes rest items) (core : Core mode mem q done out rest s)
    (hin : start ≤ q) (ready : Ready mode done rest s)
    (state : passed earlier = { text := done, opened := s.stack })
    (hlt : rest.length + 1 < limit) (lasts : rest.length < rounds) :
    Runs mode delim mem start q limit rounds done s earlier items := by
  induction lexes generalizing done out s earlier rounds with
  | done =>
    obtain ⟨rounds, rfl⟩ := Nat.exists_eq_succ_of_ne_zero (Nat.ne_zero_of_lt lasts)
    exact runs_end core ready
  | escapeEnd c escape =>
    obtain ⟨rounds, rfl⟩ := Nat.exists_eq_add_of_le' (show 2 ≤ rounds from lasts)
    obtain ⟨s₁, out₁, passes, core₁, -, first⟩ := escaped_end core hin escape
    refine (runs_end core₁ (ready_of_not_first first (snoc_ne_nil done c))).cons ?_ (by simp)
    rw [parseLoop, core.here, if_neg core.solid_cons, if_pos escape, passes]
    rfl
  | escape c d rest items escape lexes ih =>
    obtain ⟨rounds, rfl⟩ := Nat.exists_eq_succ_of_ne_zero (Nat.ne_zero_of_lt lasts)
    obtain ⟨s₁, out₁, passes, core₁, stack, first⟩ := escaped_spec core hin escape
    have next : passed (earlier ++ [.quoted [c, d]]) =
        { text := done ++ [c, d], opened := s₁.stack } := by
      rw [passed_snoc, state, stack]
      rfl
    refine (ih core₁ (ready_of_not_first first (by simp)) next
      (by simp at hlt; omega) (by simp at lasts; omega)).cons ?_ (by simp)
    rw [parseLoop, core.here, if_neg core.solid_cons, if_pos escape, passes]
    rfl
  | block text items lexes ih =>
    obtain ⟨rounds, rfl⟩ := Nat.exists_eq_succ_of_ne_zero (Nat.ne_zero_of_lt lasts)
    obtain ⟨s₁, out₁, passes, core₁, stack, first⟩ :=
      braces_spec core hin (Nat.lt_of_succ_lt hlt)
    have next : passed (earlier ++ [.quoted ('{' :: (block 1 text).1)]) =
        { text := done ++ '{' :: (block 1 text).1, opened := s₁.stack } := by
      rw [passed_snoc, state, stack]
      rfl
    have length := congrArg List.length (block_append 1 text)
    rw [length_append] at length
    rw [length_cons] at hlt lasts
    refine (ih core₁ (ready_of_not_first first (by simp)) next
      (by omega) (by omega)).cons ?_ (by simp)
    rw [parseLoop, core.here, if_neg core.solid_cons, if_neg (by decide), if_neg (by decide),
      if_pos rfl, passes]
    rfl
  | plain c rest items escape brace lexes ih =>
    obtain ⟨rounds, rfl⟩ := Nat.exists_eq_succ_of_ne_zero (Nat.ne_zero_of_lt lasts)
    rw [length_cons] at hlt lasts
    have opened' : opened earlier = s.stack := by rw [opened, state]
    -- what is taken is followed by the rest
    have goOn {s₁ : Scan} {out₁ : Text} (core₁ : Core mode mem q (done ++ [c]) out₁ rest s₁)
        (stack : s₁.stack = brackets { text := done, opened := s.stack } c)
        (ready₁ : Ready mode (done ++ [c]) rest s₁)
        (step : parseLoop mode delim start limit (rounds + 1) s =
          parseLoop mode delim start limit rounds s₁)
        (passes : c = delim → ¬ Free delim s.stack) :
        Runs mode delim mem start q limit (rounds + 1) done s earlier (.plain c :: items) := by
      have next : passed (earlier ++ [.plain c]) =
          { text := done ++ [c], opened := s₁.stack } := by
        rw [passed_snoc, state, stack]
        rfl
      refine (ih core₁ ready₁ next (by omega) (by omega)).cons step ?_
      intro eq
      rw [opened']
      exact passes (Item.plain.inj eq)
    have stopsHere (free : Free delim s.stack) (eq : c = delim)
        (step : parseLoop mode delim start limit (rounds + 1) s = some (true, s)) :
        Runs mode delim mem start q limit (rounds + 1) done s earlier (.plain c :: items) := by
      subst eq
      refine ⟨true, s, [], out, c :: rest, step, by rwa [append_nil], ?_, ?_⟩
      · rw [append_nil]
        exact ready.started
      · exact lexes.flat ▸ stops_here (opened' ▸ free)
    by_cases closes : c = ']' ∨ c = ')'
    · have enter : parseLoop mode delim start limit (rounds + 1) s =
          if c ∈ s.stack then
            ({ s with stack := (s.stack.dropWhile (· != c)).tail, first := false }.nextChar
              start).bind (parseLoop mode delim start limit rounds)
          else if c = delim then some (true, s)
          else ({ s with first := false }.nextChar start).bind
            (parseLoop mode delim start limit rounds) := by
        rw [parseLoop, core.here, if_neg core.solid_cons, if_neg escape, if_pos closes]
      have brackets' := brackets_closes (s := s) done closes
      by_cases held : c ∈ s.stack
      · rw [if_pos held] at enter brackets'
        obtain ⟨s₁, taken, core₁, stack, first⟩ := core.takeMarked hin
          (s.stack.dropWhile (· != c)).tail false
        refine goOn core₁ (stack.trans brackets'.symm)
          (ready_of_not_first first (snoc_ne_nil done c)) (by rw [enter, taken]; rfl) ?_
        rintro rfl
        rw [Free, if_pos closes]
        exact fun free => free held
      · rw [if_neg held] at enter brackets'
        by_cases eq : c = delim
        · refine stopsHere ?_ eq (enter.trans (if_pos eq))
          rwa [Free, ← eq, if_pos closes]
        · rw [if_neg eq] at enter
          obtain ⟨s₁, taken, core₁, stack, first⟩ := core.takeMarked hin s.stack false
          exact goOn core₁ (stack.trans brackets'.symm)
            (ready_of_not_first first (snoc_ne_nil done c)) (by rw [enter, taken]; rfl)
            fun same' => absurd same' eq
    · have enter : parseLoop mode delim start limit (rounds + 1) s =
          if c = delim ∧ s.stack = [] then some (true, s)
          else ((plainChar mode s).nextChar start).bind
            (parseLoop mode delim start limit rounds) := by
        rw [parseLoop, core.here, if_neg core.solid_cons, if_neg escape, if_neg closes,
          if_neg brace]
      by_cases cuts : c = delim ∧ s.stack = []
      · refine stopsHere ?_ cuts.1 (enter.trans (if_pos cuts))
        rw [Free, ← cuts.1, if_neg closes]
        exact cuts.2
      · rw [if_neg cuts] at enter
        obtain ⟨s₁, out₁, taken, core₁, stack, ready₁⟩ :=
          plainChar_spec core hin ready closes
        refine goOn core₁ stack ready₁ (by rw [enter, taken]; rfl) ?_
        rintro rfl
        rw [Free, if_neg closes]
        exact fun free => cuts ⟨rfl, free⟩

end Loop

end Scanning

end BattletechMux.Parsing
