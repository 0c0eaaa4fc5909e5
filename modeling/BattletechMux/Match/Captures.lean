/-
Module: BattletechMux.Match.Captures
Purpose: The matcher that remembers answers as the plain one does, and what it remembers gives the
  data back.
-/
import BattletechMux.Match.Wild

namespace BattletechMux.Match

open Glob List Option
open Function (update update_self update_of_ne)

/-- Between the two, only arguments from `lo` on and before `hi` were written, and the
buffers are the same. -/
structure Frame (lo hi : Nat) (args args' : Args) : Prop where
  allocated : ∀ i, (args' i).isSome = (args i).isSome
  outside : ∀ i, i < lo ∨ hi ≤ i → args' i = args i

namespace Frame

variable {lo hi lo' hi' : Nat} {args args' args'' : Args}

theorem refl (lo hi : Nat) (args : Args) : Frame lo hi args args := ⟨fun _ => rfl, fun _ _ => rfl⟩

theorem trans (first : Frame lo hi args args') (snd : Frame lo hi args' args'') :
    Frame lo hi args args'' where
  allocated i := (snd.allocated i).trans (first.allocated i)
  outside i there := (snd.outside i there).trans (first.outside i there)

theorem mono (frame : Frame lo hi args args') (below : lo' ≤ lo) (above : hi ≤ hi') :
    Frame lo' hi' args args' where
  allocated := frame.allocated
  outside i there := by
    apply frame.outside i
    omega

end Frame

/-- The arguments from `start` on, as far as there are any, are the captures. -/
def Holds (numargs : Nat) (args : Args) (start : Nat) (captures : List (List Char)) : Prop :=
  ∀ k < captures.length, start + k < numargs → args (start + k) = captures[k]?

namespace Holds

variable {numargs start : Nat} {args args' : Args} {s : List Char}
  {captures more : List (List Char)}

theorem nil (numargs : Nat) (args : Args) (start : Nat) : Holds numargs args start [] :=
  fun _ none' => absurd none' (Nat.not_lt_zero _)

theorem cons (here : start < numargs → args start = some s)
    (later : Holds numargs args (start + 1) captures) :
    Holds numargs args start (s :: captures) := by
  intro k hin bound
  cases k with
  | zero => exact here bound
  | succ k =>
    have shifted : start + (k + 1) = start + 1 + k := by omega
    rw [shifted]
    exact later k (Nat.lt_of_succ_lt_succ hin) (shifted ▸ bound)

theorem append (first : Holds numargs args start captures)
    (later : Holds numargs args (start + captures.length) more) :
    Holds numargs args start (captures ++ more) := by
  intro k hin bound
  rcases Nat.lt_or_ge k captures.length with pre | post
  · rw [getElem?_append_left pre]
    exact first k pre bound
  · rw [getElem?_append_right post]
    have shifted : start + k = start + captures.length + (k - captures.length) := by omega
    rw [length_append] at hin
    rw [shifted] at bound ⊢
    exact later (k - captures.length) (by omega) bound

theorem frame {lo hi : Nat} (h : Holds numargs args start captures)
    (frame : Frame lo hi args args') (apart : start + captures.length ≤ lo ∨ hi ≤ start) :
    Holds numargs args' start captures := by
  intro k hin bound
  rw [frame.outside (start + k) (by omega)]
  exact h k hin bound

theorem outOfRoom (captures : List (List Char)) (full : numargs ≤ start) :
    Holds numargs args start captures := by
  intro k _ bound
  omega

end Holds

def Room (numargs : Nat) (args : Args) (start count : Nat) : Prop :=
  ∀ i, start ≤ i → i < start + count → i < numargs → (args i).isSome = true

theorem Room.frame {numargs start count start' count' lo hi : Nat} {args args' : Args}
    (room : Room numargs args start count) (frame : Frame lo hi args args')
    (later : start ≤ start') (hin : start' + count' ≤ start + count) :
    Room numargs args' start' count' := by
  intro i from' pre bound
  rw [frame.allocated i]
  exact room i (Nat.le_trans later from') (Nat.lt_of_lt_of_le pre hin) bound

section Writes

variable {numargs start : Nat} {args : Args}

theorem write_spec {s : List Char} (hin : start < numargs)
    (allocated : (args start).isSome = true) (short : s.length < lbufSize) :
    ∃ args', write numargs args start s = some args' ∧
      Frame start (start + 1) args args' ∧ args' start = some s := by
  refine ⟨update args start (some s), if_pos ⟨hin, allocated, short⟩, ?_,
    update_self ..⟩
  constructor
  · intro i
    by_cases same : i = start
    · rw [same, update_self, allocated]
      rfl
    · rw [update_of_ne same]
  · intro i there
    exact update_of_ne (by omega) ..

def singles (letters : List Char) : List (List Char) := letters.map fun d => [d]

theorem length_singles (letters : List Char) : (singles letters).length = letters.length :=
  length_map _

theorem fillExtra_spec (letters rest : List Char) (start : Nat) (args : Args)
    (room : Room numargs args start letters.length) :
    ∃ datapos argpos args', fillExtra numargs letters.length (letters ++ rest) start args =
        some (datapos, argpos, args') ∧
      Frame start (min (start + letters.length) numargs) args args' ∧
      Holds numargs args' start (singles letters) ∧ argpos ≤ start + letters.length ∧
      (numargs ≤ argpos ∨ argpos = start + letters.length ∧ datapos = rest) := by
  induction letters generalizing start args with
  | nil =>
    exact ⟨rest, start, args, rfl, Frame.refl _ _ _, Holds.nil _ _ _, Nat.le_refl _,
      Or.inr ⟨rfl, rfl⟩⟩
  | cons d letters ih =>
    rcases Nat.lt_or_ge start numargs with hin | full
    · have short : [d].length < lbufSize := by simp [lbufSize]
      obtain ⟨args₁, written, frame₁, here⟩ :=
        write_spec hin (room start (Nat.le_refl _) (by simp) hin) short
      have roomLater : Room numargs args₁ (start + 1) letters.length :=
        room.frame frame₁ (Nat.le_succ start) (by simp; omega)
      obtain ⟨datapos, argpos, args', ran, frame, h, bound, ended⟩ :=
        ih (start + 1) args₁ roomLater
      have length : start + 1 + letters.length = start + (d :: letters).length := by
        simp
        omega
      refine ⟨datapos, argpos, args', ?_, ?_, ?_, ?_, ?_⟩
      · rw [length_cons, fillExtra, if_neg (Nat.not_le.mpr hin)]
        simp only [cons_append, take_succ_cons, take_zero, written,
          bind_eq_bind, bind_some, drop_succ_cons, drop_zero]
        exact ran
      · rw [length] at frame
        exact (frame₁.mono (Nat.le_refl _) (by simp; omega)).trans
          (frame.mono (Nat.le_succ start) (Nat.le_refl _))
      · refine Holds.cons (fun _ => ?_) h
        rw [frame.outside start (Or.inl (Nat.lt_succ_self start)), here]
      · exact length ▸ bound
      · exact length ▸ ended
    · refine ⟨d :: letters ++ rest, start, args, ?_, Frame.refl _ _ _,
        Holds.outOfRoom _ full, Nat.le_add_right _ _, Or.inl full⟩
      rw [length_cons, fillExtra, if_pos full]

theorem fillMatch_spec (star letters tail : List Char) (start : Nat) (args : Args)
    (hin : start < numargs) (room : Room numargs args start (letters.length + 1))
    (short : star.length < lbufSize) :
    ∃ args', fillMatch numargs (star ++ letters ++ tail) tail letters.length start args =
        some args' ∧
      Frame start (min (start + (letters.length + 1)) numargs) args args' ∧
      Holds numargs args' start (star :: singles letters) := by
  obtain ⟨args₁, written, frame₁, here⟩ :=
    write_spec hin (room start (Nat.le_refl _) (by omega) hin) short
  have roomLater : Room numargs args₁ (start + 1) letters.length :=
    room.frame frame₁ (Nat.le_succ start) (by omega)
  obtain ⟨datapos, argpos, args', ran, frame, h, _⟩ :=
    fillExtra_spec letters tail (start + 1) args₁ roomLater
  refine ⟨args', ?_, ?_, ?_⟩
  · have size : (star ++ letters ++ tail).length - tail.length - letters.length =
        star.length := by
      simp only [length_append]
      omega
    unfold fillMatch
    simp only [size]
    rw [append_assoc, take_left', drop_left', written]
    · simp only [bind_eq_bind, bind_some, ran]
    · rfl
    · rfl
  · exact (frame₁.mono (Nat.le_refl _) (by omega)).trans
      (frame.mono (Nat.le_succ start) (by omega))
  · refine Holds.cons (fun _ => ?_) h
    rw [frame.outside start (Or.inl (Nat.lt_succ_self start)), here]

end Writes

section Shapes

variable (numargs : Nat) (tstr dstr datapos : List Char) (start arg numextra : Nat) (args : Args)

theorem wild1_star_nil : wild1 numargs ['*'] dstr start args =
    (write numargs args start (dstr.take (lbufSize - 1))).bind fun args => some (true, args) := rfl

theorem wild1_star {tstr : List Char} (more : tstr ≠ []) :
    wild1 numargs ('*' :: tstr) dstr start args =
      wildStar numargs tstr dstr (start + 1) dstr start 0 args := by
  cases tstr with
  | nil => exact absurd rfl more
  | cons c tstr => rfl

theorem wild1_any_nil : wild1 numargs ('?' :: tstr) [] start args = some (false, args) := by
  cases tstr <;> rfl

theorem wild1_any (d : Char) : wild1 numargs ('?' :: tstr) (d :: dstr) start args =
    (write numargs args start [d]).bind fun args =>
      if numargs ≤ start + 1 then some (quickWild tstr dstr, args)
      else wild1 numargs tstr dstr (start + 1) args := by
  cases tstr <;> rfl

theorem wild1_letter {c : Char} (notStar : c ≠ '*') (notAny : c ≠ '?')
    (notEscape : c ≠ '\\') : wild1 numargs (c :: tstr) dstr start args =
      literalArgs c (fun dstr => wild1 numargs tstr dstr start args) args dstr := by
  cases tstr <;> exact (if_neg notStar).trans ((if_neg notAny).trans (if_neg notEscape))

theorem wildStar_any_nil : wildStar numargs ('?' :: tstr) [] arg datapos start numextra args =
    some (false, args) := by
  cases tstr <;> rfl

theorem wildStar_any (d : Char) :
    wildStar numargs ('?' :: tstr) (d :: dstr) arg datapos start numextra args =
      wildStar numargs tstr dstr (arg + 1) datapos start (numextra + 1) args := by
  cases tstr <;> rfl

theorem wildStar_star : wildStar numargs ('*' :: tstr) dstr arg datapos start numextra args =
    (write numargs args start []).bind fun args =>
      (fillExtra numargs numextra datapos (start + 1) args).bind fun filled =>
        if numargs ≤ filled.2.1 then some (quickWild ('*' :: tstr) dstr, filled.2.2)
        else wildStar numargs tstr dstr (arg + 1) filled.1 filled.2.1 0 filled.2.2 := by
  cases tstr <;> rfl

/-- What `wild1` goes on with behind a literal character. -/
def restArgs (dstr : List Char) (args : Args) : Option (Bool × Args) :=
  if arg < numargs then wild1 numargs tstr dstr arg args else some (quickWild tstr dstr, args)

theorem wildStar_letter {c : Char} (notStar : c ≠ '*') (notAny : c ≠ '?')
    (notEscape : c ≠ '\\') :
    wildStar numargs (c :: tstr) dstr arg datapos start numextra args =
      (seek c (restArgs numargs tstr arg) dstr args).bind
        (fillFound numargs datapos numextra start) := by
  cases tstr <;> exact (if_neg notAny).trans ((if_neg notStar).trans (if_neg notEscape))

end Shapes

/-- What a matcher that remembers has done to the arguments from `start` on. -/
structure Captured (numargs : Nat) (its : List (Item Char)) (start : Nat) (data : List Char)
    (value : Bool) (args args' : Args) : Prop where
  frame : Frame start numargs args args'
  captures : value = true →
    ∃ captures, Fills SameLetter its captures data ∧ Holds numargs args' start captures

section Pieces

variable {numargs start : Nat} {its : List (Item Char)} {args args' args₀ : Args}

theorem Captured.failed (its : List (Item Char)) (start : Nat) (data : List Char)
    (args : Args) : Captured numargs its start data false args args where
  frame := Frame.refl _ _ _
  captures none' := absurd none' Bool.false_ne_true

theorem Captured.quick {tstr : List Char} (full : numargs ≤ start) (data : List Char)
    (args : Args) :
    Captured numargs (items tstr) start data (quickWild tstr data) args args where
  frame := Frame.refl _ _ _
  captures matched := by
    obtain ⟨captures, fills⟩ := (quickWild_iff tstr data).mp matched
    exact ⟨captures, fills, Holds.outOfRoom captures full⟩

theorem Captured.nil (data : List Char) (args : Args) :
    Captured numargs [] start data data.isEmpty args args where
  frame := Frame.refl _ _ _
  captures matched := by
    rw [isEmpty_iff.mp matched]
    exact ⟨[], .nil, Holds.nil _ _ _⟩

theorem literalArgs_spec {rest : List Char → Option (Bool × Args)} {quick : List Char → Bool}
    (c : Char) (dstr : List Char) (short : dstr.length < lbufSize)
    (later : ∀ dstr, dstr.length < lbufSize → ∃ args', rest dstr = some (quick dstr, args') ∧
      Captured numargs its start dstr (quick dstr) args args') :
    ∃ args', literalArgs c rest args dstr = some (literal c quick dstr, args') ∧
      Captured numargs (.literal c :: its) start dstr (literal c quick dstr) args args' := by
  cases dstr with
  | nil => exact ⟨args, rfl, Captured.failed _ _ _ _⟩
  | cons d dstr =>
    rw [literalArgs, literal]
    cases letter : equal d c with
    | false => exact ⟨args, rfl, Captured.failed _ _ _ _⟩
    | true =>
      obtain ⟨args', ran, captured⟩ := later dstr (Nat.lt_of_succ_lt short)
      refine ⟨args', ran, captured.frame, fun matched => ?_⟩
      obtain ⟨captures, fills, h⟩ := captured.captures matched
      exact ⟨captures, .literal (equal_iff.mp letter) fills, h⟩

/-- A place that `seek` found: what is there, and what was remembered behind it. -/
structure Place (numargs : Nat) (its : List (Item Char)) (start : Nat) (c : Char)
    (dstr place : List Char) (args : Args) : Prop where
  here : ∃ skipped d tail captures, dstr = skipped ++ d :: tail ∧ place = d :: tail ∧
    SameLetter d c ∧ Fills SameLetter its captures tail ∧ Holds numargs args start captures

theorem Place.later {c d : Char} {dstr place : List Char}
    (hf : Place numargs its start c dstr place args) :
    Place numargs its start c (d :: dstr) place args := by
  obtain ⟨skipped, d', tail, captures, rfl, rest⟩ := hf.here
  exact ⟨d :: skipped, d', tail, captures, rfl, rest⟩

theorem seek_spec {rest : List Char → Args → Option (Bool × Args)} {quick : List Char → Bool}
    (c : Char)
    (later : ∀ dstr args, dstr.length < lbufSize → Frame start numargs args₀ args →
      ∃ args', rest dstr args = some (quick dstr, args') ∧
        Captured numargs its start dstr (quick dstr) args args')
    (dstr : List Char) (args : Args) (short : dstr.length < lbufSize)
    (pre : Frame start numargs args₀ args) :
    ∃ hf args', seek c rest dstr args = some (hf, args') ∧
      Frame start numargs args args' ∧ hf.isSome = scan c quick dstr ∧
      ∀ place, hf = some place → Place numargs its start c dstr place args' := by
  induction dstr generalizing args with
  | nil => exact ⟨none, args, rfl, Frame.refl _ _ _, rfl, by simp⟩
  | cons d dstr ih =>
    have shortLater := Nat.lt_of_succ_lt short
    rw [seek, scan]
    cases letter : equal d c with
    | false =>
      obtain ⟨hf, args', ran, frame, same, place⟩ :=
        ih args shortLater pre
      exact ⟨hf, args', ran, frame, same, fun at' is => (place at' is).later⟩
    | true =>
      obtain ⟨args₁, ran₁, captured⟩ := later dstr args shortLater pre
      simp only [if_true, ran₁, bind_eq_bind, bind_some, Bool.true_and]
      cases matched : quick dstr with
      | true =>
        obtain ⟨captures, fills, h⟩ := captured.captures matched
        refine ⟨some (d :: dstr), args₁, rfl, captured.frame, rfl, fun place is => ?_⟩
        obtain rfl := some.inj is
        exact ⟨[], d, dstr, captures, rfl, rfl, equal_iff.mp letter, fills, h⟩
      | false =>
        obtain ⟨hf, args', ran, frame, same, place⟩ :=
          ih args₁ shortLater (pre.trans captured.frame)
        exact ⟨hf, args', ran, captured.frame.trans frame, same,
          fun at' is => (place at' is).later⟩

end Pieces

section Stars

variable {numargs start : Nat} {args : Args} {its : List (Item Char)}

/-- The items of a `*` and the `?`s behind it, before others. -/
def starItems (numextra : Nat) (its : List (Item Char)) : List (Item Char) :=
  .star :: (List.replicate numextra .any ++ its)

theorem split_last (letters skipped : List Char) :
    ∃ star last, letters ++ skipped = star ++ last ∧ last.length = letters.length := by
  refine ⟨(letters ++ skipped).take skipped.length, (letters ++ skipped).drop skipped.length,
    (take_append_drop _ _).symm, ?_⟩
  rw [length_drop, length_append, Nat.add_sub_cancel]

theorem Captured.star {star last tail : List Char} {captures : List (List Char)} {args' : Args}
    (frame : Frame start numargs args args')
    (these : Holds numargs args' start (star :: singles last))
    (fills : Fills SameLetter its captures tail)
    (h : Holds numargs args' (start + (last.length + 1)) captures) :
    Captured numargs (starItems last.length its) start (star ++ (last ++ tail)) true args args' where
  frame := frame
  captures _ := by
    refine ⟨star :: (singles last ++ captures), .star star (fills.anys last), ?_⟩
    refine @Holds.append numargs start args' (star :: singles last) captures these ?_
    rwa [length_cons, length_singles]

theorem star_end (letters dstr : List Char) (hin : start < numargs)
    (room : Room numargs args start (letters.length + 1))
    (short : (letters ++ dstr).length < lbufSize) :
    ∃ args', ((fillMatch numargs (letters ++ dstr) [] letters.length start args).bind fun args =>
        some (true, args)) = some (true, args') ∧
      Captured numargs (starItems letters.length []) start (letters ++ dstr) true args args' := by
  obtain ⟨star, last, split, same⟩ := split_last letters dstr
  have shortStar : star.length < lbufSize := by
    rw [split, length_append] at short
    omega
  obtain ⟨args', ran, frame, h⟩ :=
    fillMatch_spec star last [] start args hin (same.symm ▸ room) shortStar
  rw [append_nil] at ran
  rw [split, ← same]
  refine ⟨args', by rw [ran]; rfl, ?_⟩
  have captured := Captured.star (frame.mono (Nat.le_refl _) (Nat.min_le_right _ _)) h .nil
    (Holds.nil _ _ _)
  rwa [append_nil] at captured

theorem star_literal {rest : List Char → Args → Option (Bool × Args)} {quick : List Char → Bool}
    (c : Char) (letters dstr : List Char) (hin : start < numargs)
    (room : Room numargs args start (letters.length + 1))
    (short : (letters ++ dstr).length < lbufSize)
    (later : ∀ dstr args', dstr.length < lbufSize →
      Frame (start + (letters.length + 1)) numargs args args' →
      ∃ args'', rest dstr args' = some (quick dstr, args'') ∧
        Captured numargs its (start + (letters.length + 1)) dstr (quick dstr) args' args'') :
    ∃ args', ((seek c rest dstr args).bind
        (fillFound numargs (letters ++ dstr) letters.length start)) =
          some (scan c quick dstr, args') ∧
      Captured numargs (starItems letters.length (.literal c :: its)) start (letters ++ dstr)
        (scan c quick dstr) args args' := by
  have shortData : dstr.length < lbufSize := by
    rw [length_append] at short
    omega
  obtain ⟨hf, args₁, ran, frame₁, same, place⟩ :=
    seek_spec c later dstr args shortData (Frame.refl _ _ _)
  have frameHere : Frame start numargs args args₁ :=
    frame₁.mono (Nat.le_add_right _ _) (Nat.le_refl _)
  rw [ran, bind_some, ← same]
  cases hf with
  | none => exact ⟨args₁, rfl, frameHere, fun none' => absurd none' Bool.false_ne_true⟩
  | some there =>
    obtain ⟨skipped, d, tail, captures, rfl, rfl, letter, fills, h⟩ := (place there rfl).here
    obtain ⟨star, last, split, lastLength⟩ := split_last letters skipped
    have shortStar : star.length < lbufSize := by
      rw [← append_assoc, split, length_append, length_append] at short
      omega
    have roomHere : Room numargs args₁ start (last.length + 1) :=
      room.frame frame₁ (Nat.le_refl _) (by omega)
    obtain ⟨args', filled, written, these⟩ :=
      fillMatch_spec star last (d :: tail) start args₁ hin roomHere shortStar
    rw [← append_assoc, split, ← lastLength]
    rw [← lastLength] at h
    refine ⟨args', ?_, ?_⟩
    · rw [fillFound, filled]
      rfl
    · rw [append_assoc]
      exact Captured.star
        (frameHere.trans (written.mono (Nat.le_refl _) (Nat.min_le_right _ _))) these
        (.literal letter fills) (h.frame written (Or.inr (Nat.min_le_left _ _)))

end Stars

section Agrees

variable (numargs : Nat)

/-- `wild1` gives the answer of `quick_wild`, and remembers what it captured. -/
def FirstAgrees (tstr : List Char) : Prop :=
  ∀ dstr start args, start < numargs → Room numargs args start (wilds (items tstr)) →
    dstr.length < lbufSize →
    ∃ args', wild1 numargs tstr dstr start args = some (quickWild tstr dstr, args') ∧
      Captured numargs (items tstr) start dstr (quickWild tstr dstr) args args'

/-- So it does behind a `*` and some `?`s, which have taken the letters. -/
def StarAgrees (tstr : List Char) : Prop :=
  ∀ letters dstr start args, start < numargs →
    Room numargs args start (letters.length + 1 + wilds (items tstr)) →
    (letters ++ dstr).length < lbufSize →
    ∃ args', wildStar numargs tstr dstr (start + (letters.length + 1)) (letters ++ dstr) start
        letters.length args = some (skipWild tstr dstr, args') ∧
      Captured numargs (starItems letters.length (items tstr)) start (letters ++ dstr)
        (skipWild tstr dstr) args args'

structure Agrees (tstr : List Char) : Prop where
  first : FirstAgrees numargs tstr
  star : StarAgrees numargs tstr

variable {numargs}

variable {tstr : List Char}

theorem restArgs_spec {start : Nat} {args₀ : Args} (agrees : FirstAgrees numargs tstr)
    (room : Room numargs args₀ start (wilds (items tstr))) (dstr : List Char) (args : Args)
    (short : dstr.length < lbufSize) (frame : Frame start numargs args₀ args) :
    ∃ args', restArgs numargs tstr start dstr args = some (quickWild tstr dstr, args') ∧
      Captured numargs (items tstr) start dstr (quickWild tstr dstr) args args' := by
  unfold restArgs
  rcases Nat.lt_or_ge start numargs with hin | full
  · rw [if_pos hin]
    exact agrees dstr start args hin (room.frame frame (Nat.le_refl _) (Nat.le_refl _)) short
  · rw [if_neg (Nat.not_lt.mpr full)]
    exact ⟨args, rfl, Captured.quick full dstr args⟩

theorem agrees_nil : Agrees numargs [] where
  first dstr _start args _ _ _ := ⟨args, rfl, Captured.nil dstr args⟩
  star letters dstr _start _ hin room short := star_end letters dstr hin room short

theorem agrees_backslash : Agrees numargs ['\\'] where
  first dstr _start args _ _ _ := ⟨args, rfl, Captured.nil dstr args⟩
  star letters dstr _start _ hin room short := star_end letters dstr hin room short

theorem Agrees.escaped (c : Char) (later : Agrees numargs tstr) :
    Agrees numargs ('\\' :: c :: tstr) where
  first dstr start args hin room short :=
    literalArgs_spec c dstr short fun dstr short => later.first dstr start args hin room short
  star letters dstr start args hin room short := by
    refine star_literal c letters dstr hin ?_ short ?_
    · exact room.frame (Frame.refl start start args) (Nat.le_refl _) (by omega)
    · intro dstr args' shortLater frame
      refine restArgs_spec later.first ?_ dstr args' shortLater frame
      exact room.frame (Frame.refl start start args) (Nat.le_add_right _ _)
        (by rw [items_escaped, wilds]; omega)

theorem Agrees.letter {c : Char} (notStar : c ≠ '*') (notAny : c ≠ '?')
    (notEscape : c ≠ '\\') (later : Agrees numargs tstr) : Agrees numargs (c :: tstr) where
  first dstr start args hin room short := by
    rw [items_letter tstr notStar notAny notEscape] at room ⊢
    rw [wild1_letter numargs tstr dstr start args notStar notAny notEscape,
      quickWild_letter tstr dstr notStar notAny notEscape]
    exact literalArgs_spec c dstr short fun dstr short =>
      later.first dstr start args hin room short
  star letters dstr start args hin room short := by
    rw [items_letter tstr notStar notAny notEscape, wilds] at room
    rw [items_letter tstr notStar notAny notEscape]
    rw [wildStar_letter numargs tstr dstr _ start _ _ args notStar notAny notEscape,
      skipWild_letter tstr dstr notStar notAny notEscape]
    refine star_literal c letters dstr hin ?_ short ?_
    · exact room.frame (Frame.refl start start args) (Nat.le_refl _) (by omega)
    · intro dstr args' shortLater frame
      refine restArgs_spec later.first ?_ dstr args' shortLater frame
      exact room.frame (Frame.refl start start args) (Nat.le_add_right _ _) (by omega)

theorem Agrees.any (later : Agrees numargs tstr) : Agrees numargs ('?' :: tstr) where
  first dstr start args hin room short := by
    rw [items_any] at room ⊢
    rw [wilds] at room
    cases dstr with
    | nil =>
      rw [quickWild_any_nil, wild1_any_nil]
      exact ⟨args, rfl, Captured.failed _ _ _ _⟩
    | cons d dstr =>
      have shortLetter : [d].length < lbufSize := by simp [lbufSize]
      obtain ⟨args₁, written, frame₁, here⟩ :=
        write_spec hin (room start (Nat.le_refl _) (by omega) hin) shortLetter
      have roomLater : Room numargs args₁ (start + 1) (wilds (items tstr)) :=
        room.frame frame₁ (Nat.le_succ start) (by omega)
      obtain ⟨args', ran, captured⟩ := restArgs_spec later.first roomLater dstr args₁
        (Nat.lt_of_succ_lt short) (Frame.refl _ _ _)
      refine ⟨args', ?_, ?_⟩
      · rw [quickWild_any, wild1_any, written, bind_some, ← ran, restArgs]
        simp only [← Nat.not_lt, ite_not]
      · rw [quickWild_any]
        refine ⟨(frame₁.mono (Nat.le_refl _) hin).trans
          (captured.frame.mono (Nat.le_succ start) (Nat.le_refl _)), fun matched => ?_⟩
        obtain ⟨captures, fills, h⟩ := captured.captures matched
        refine ⟨[d] :: captures, .any d fills, Holds.cons (fun _ => ?_) h⟩
        rw [captured.frame.outside start (Or.inl (Nat.lt_succ_self start)), here]
  star letters dstr start args hin room short := by
    rw [items_any] at room ⊢
    rw [wilds] at room
    cases dstr with
    | nil =>
      rw [skipWild_any_nil, wildStar_any_nil]
      exact ⟨args, rfl, Captured.failed _ _ _ _⟩
    | cons d dstr =>
      have length : (letters ++ [d]).length = letters.length + 1 := length_append
      have data : letters ++ d :: dstr = letters ++ [d] ++ dstr := append_cons ..
      obtain ⟨args', ran, captured⟩ := later.star (letters ++ [d]) dstr start args hin
        (room.frame (Frame.refl start start args) (Nat.le_refl _) (by omega)) (data ▸ short)
      have these : starItems (letters ++ [d]).length (items tstr) =
          starItems letters.length (.any :: items tstr) := by
        rw [starItems, length, replicate_succ', append_assoc]
        rfl
      rw [these, ← data] at captured
      rw [length, ← data] at ran
      rw [skipWild_any, wildStar_any]
      exact ⟨args', ran, captured⟩

theorem Agrees.star_first (later : Agrees numargs tstr) : FirstAgrees numargs ('*' :: tstr) := by
  intro dstr start args hin room short
  rw [items_star] at room ⊢
  rw [quickWild_star]
  cases tstr with
  | nil =>
    have whole : dstr.take (lbufSize - 1) = dstr := take_of_length_le (Nat.le_pred_of_lt short)
    obtain ⟨args', written, frame, here⟩ :=
      write_spec hin (room start (Nat.le_refl _) (by simp [wilds]) hin) short
    refine ⟨args', ?_, frame.mono (Nat.le_refl _) hin, fun _ => ?_⟩
    · rw [wild1_star_nil, whole, written]
      rfl
    · refine ⟨[dstr], ?_, Holds.cons (fun _ => here) (Holds.nil _ _ _)⟩
      have fills := Fills.star dstr (@Fills.nil Char SameLetter)
      rwa [append_nil] at fills
  | cons c tstr =>
    rw [wild1_star numargs dstr start args (cons_ne_nil c tstr)]
    rw [wilds] at room
    exact later.star [] dstr start args hin
      (room.frame (Frame.refl start start args) (Nat.le_refl _) (by simp; omega)) short

theorem Agrees.star_star (later : Agrees numargs tstr) : StarAgrees numargs ('*' :: tstr) := by
  intro letters dstr start args hin room short
  rw [items_star] at room ⊢
  rw [wilds] at room
  rw [skipWild_star, wildStar_star]
  have shortEmpty : ([] : List Char).length < lbufSize := by decide
  obtain ⟨args₁, written, frame₁, here⟩ :=
    write_spec hin (room start (Nat.le_refl _) (by omega) hin) shortEmpty
  obtain ⟨datapos, argpos, args₂, ran, frame₂, h, bound, ended⟩ :=
    fillExtra_spec letters dstr (start + 1) args₁
      (room.frame frame₁ (Nat.le_succ start) (by omega))
  have these : Holds numargs args₂ start ([] :: singles letters) := by
    refine Holds.cons (fun _ => ?_) h
    rw [frame₂.outside start (Or.inl (Nat.lt_succ_self start)), here]
  have frame : Frame start numargs args args₂ := (frame₁.mono (Nat.le_refl _) hin).trans
    (frame₂.mono (Nat.le_succ start) (Nat.min_le_right _ _))
  rw [written, bind_some, ran, bind_some]
  by_cases full : numargs ≤ argpos
  · refine ⟨args₂, ?_, frame, fun matched => ?_⟩
    · rw [if_pos full, quickWild_star]
    · rw [← quickWild_star, quickWild_iff, items_star] at matched
      obtain ⟨captures, fills⟩ := matched
      exact (Captured.star frame these fills (Holds.outOfRoom captures (by omega))).captures rfl
  · obtain ⟨rfl, rfl⟩ := ended.resolve_left full
    have next : start + 1 + letters.length = start + (letters.length + 1) := by omega
    rw [next] at full ran frame₂ ⊢
    obtain ⟨args', ranLater, captured⟩ := later.star [] datapos (start + (letters.length + 1))
      args₂ (Nat.not_le.mp full)
      (room.frame frame (Nat.le_add_right _ _) (by simp; omega))
      (by rw [length_append] at short; exact Nat.lt_of_le_of_lt (Nat.le_add_left _ _) short)
    refine ⟨args', ?_, ?_⟩
    · rw [if_neg full]
      exact ranLater
    · have frameAll : Frame start numargs args args' :=
        frame.trans (captured.frame.mono (Nat.le_add_right _ _) (Nat.le_refl _))
      refine ⟨frameAll, fun matched => ?_⟩
      obtain ⟨captures, fills, holdsLater⟩ := captured.captures matched
      have size : start + (([] : List Char) :: singles letters).length =
          start + (letters.length + 1) := by
        rw [length_cons, length_singles]
      have theseStill := these.frame captured.frame (Or.inl (Nat.le_of_eq size))
      exact (Captured.star frameAll theseStill fills holdsLater).captures rfl

theorem agrees (numargs : Nat) (tstr : List Char) : Agrees numargs tstr := by
  induction tstr using items.induct with
  | case1 => exact agrees_nil
  | case2 tstr later => exact ⟨later.star_first, later.star_star⟩
  | case3 tstr _ later => exact later.any
  | case4 => exact agrees_backslash
  | case5 c tstr _ _ later => exact later.escaped c
  | case6 c tstr notStar notAny notEscape later => exact later.letter notStar notAny notEscape

end Agrees

section Buffers

variable (fresh : Nat → List Char) {nargs : Nat}

/-- A character that `wild` allocates a buffer for. -/
def marked (c : Char) : Bool := c == '?' || c == '*'

theorem allocArgs_cons (c : Char) (scan : List Char) {i : Nat} (more : i < nargs) (args : Args) :
    allocArgs fresh nargs (c :: scan) i args =
      if marked c = true then allocArgs fresh nargs scan (i + 1) (update args i (some (fresh i)))
      else allocArgs fresh nargs scan i args := by
  rw [allocArgs, if_neg (Nat.not_le.mpr more)]
  simp [marked]

theorem allocArgs_outside (scan : List Char) (i : Nat) (args : Args) {j : Nat}
    (there : j < i ∨ nargs ≤ j) : allocArgs fresh nargs scan i args j = args j := by
  induction scan generalizing i args with
  | nil => rfl
  | cons c scan ih =>
    rcases Nat.lt_or_ge i nargs with more | full
    · rw [allocArgs_cons fresh c scan more]
      split
      · rw [ih (i + 1) _ (by omega), update_of_ne (by omega)]
      · exact ih i args there
    · rw [allocArgs, if_pos full]

theorem allocArgs_room (scan : List Char) (i : Nat) (args : Args) :
    Room nargs (allocArgs fresh nargs scan i args) i (scan.countP marked) := by
  induction scan generalizing i args with
  | nil =>
    intro j from' pre
    rw [countP_nil] at pre
    omega
  | cons c scan ih =>
    intro j from' pre bound
    rw [allocArgs_cons fresh c scan (by omega)]
    cases mark : marked c with
    | false =>
      rw [countP_cons_of_neg (by simp [mark])] at pre
      exact ih i args j from' pre bound
    | true =>
      rw [countP_cons_of_pos mark] at pre
      rcases Nat.lt_or_eq_of_le from' with post | rfl
      · exact ih (i + 1) _ j post (by omega) bound
      · rw [if_pos rfl, allocArgs_outside fresh scan (i + 1) _ (by omega),
          update_self]
        rfl

theorem wilds_items_le (tstr : List Char) : wilds (items tstr) ≤ tstr.countP marked := by
  induction tstr using items.induct with
  | case1 => exact Nat.le_refl _
  | case2 tstr later =>
    rw [items_star, wilds, countP_cons_of_pos rfl]
    exact Nat.succ_le_succ later
  | case3 tstr _ later =>
    rw [items_any, wilds, countP_cons_of_pos rfl]
    exact Nat.succ_le_succ later
  | case4 => exact Nat.zero_le _
  | case5 c tstr _ _ later =>
    rw [items_escaped, wilds, countP_cons, countP_cons]
    omega
  | case6 c tstr notStar notAny notEscape later =>
    rw [items_letter tstr notStar notAny notEscape, wilds, countP_cons]
    omega

end Buffers

section Wild

/-- What the first loop of `wild` says about the pattern and the data. -/
def Fast (tstr dstr : List Char) : Bool ⊕ List Char × List Char → Prop
  | .inl value =>
    quickWild tstr dstr = value ∧ (value = true → Fills SameLetter (items tstr) [] dstr)
  | .inr (tstr', dstr') =>
    quickWild tstr dstr = quickWild tstr' dstr' ∧ wilds (items tstr) = wilds (items tstr') ∧
      dstr'.length ≤ dstr.length ∧
      ∀ captures, Fills SameLetter (items tstr') captures dstr' →
        Fills SameLetter (items tstr) captures dstr

theorem Fast.letter {tstr pattern : List Char} (c d : Char) (dstr : List Char)
    (its : items pattern = .literal c :: items tstr)
    (quick : ∀ dstr, quickWild pattern dstr = literal c (quickWild tstr) dstr)
    (later : Fast tstr dstr (wildFast tstr dstr)) :
    Fast pattern (d :: dstr) (if equal d c then wildFast tstr dstr else .inl false) := by
  cases letter : equal d c with
  | false =>
    refine ⟨?_, fun none' => absurd none' Bool.false_ne_true⟩
    rw [quick, literal, letter, Bool.false_and]
  | true =>
    have value : quickWild pattern (d :: dstr) = quickWild tstr dstr := by
      rw [quick, literal, letter, Bool.true_and]
    rw [if_pos rfl]
    cases ran : wildFast tstr dstr with
    | inl answer =>
      rw [ran] at later
      refine ⟨value.trans later.1, fun matched => ?_⟩
      rw [its]
      exact .literal (equal_iff.mp letter) (later.2 matched)
    | inr more =>
      rw [ran] at later
      obtain ⟨same, count, shorter, fills⟩ := later
      refine ⟨value.trans same, ?_, Nat.le_succ_of_le shorter, fun captures filled => ?_⟩
      · rw [its, wilds, count]
      · rw [its]
        exact .literal (equal_iff.mp letter) (fills captures filled)

theorem Fast.ended {tstr pattern : List Char} {c : Char}
    (quick : ∀ dstr, quickWild pattern dstr = literal c (quickWild tstr) dstr) :
    Fast pattern [] (.inl false) :=
  ⟨quick [], fun none' => absurd none' Bool.false_ne_true⟩

theorem Fast.empty {pattern : List Char} (its : items pattern = [])
    (quick : ∀ dstr, quickWild pattern dstr = dstr.isEmpty) (dstr : List Char) :
    Fast pattern dstr (.inl dstr.isEmpty) := by
  refine ⟨quick dstr, fun none' => ?_⟩
  rw [its, isEmpty_iff.mp none']
  exact .nil

theorem wildFast_spec (tstr dstr : List Char) : Fast tstr dstr (wildFast tstr dstr) := by
  induction tstr using items.induct generalizing dstr with
  | case1 => exact Fast.empty rfl (fun _ => rfl) dstr
  | case2 tstr _ =>
    have stays : wildFast ('*' :: tstr) dstr = .inr ('*' :: tstr, dstr) := by
      cases tstr <;> cases dstr <;> rfl
    rw [stays]
    exact ⟨rfl, rfl, Nat.le_refl _, fun _ fills => fills⟩
  | case3 tstr _ _ =>
    have stays : wildFast ('?' :: tstr) dstr = .inr ('?' :: tstr, dstr) := by
      cases tstr <;> cases dstr <;> rfl
    rw [stays]
    exact ⟨rfl, rfl, Nat.le_refl _, fun _ fills => fills⟩
  | case4 => exact Fast.empty rfl (fun _ => rfl) dstr
  | case5 c tstr _ _ later =>
    cases dstr with
    | nil => exact Fast.ended (quickWild_escaped tstr · c)
    | cons d dstr =>
      exact Fast.letter c d dstr (items_escaped tstr c) (quickWild_escaped tstr · c)
        (later dstr)
  | case6 c tstr notStar notAny notEscape later =>
    have quick := fun dstr => quickWild_letter tstr dstr notStar notAny notEscape
    have notMarked : ¬ (c = '*' ∨ c = '?') := not_or.mpr ⟨notStar, notAny⟩
    cases dstr with
    | nil =>
      have ends : wildFast (c :: tstr) [] = .inl false := by
        cases tstr <;> exact (if_neg notMarked).trans (if_neg notEscape)
      rw [ends]
      exact Fast.ended quick
    | cons d dstr =>
      have goes : wildFast (c :: tstr) (d :: dstr) =
          if equal d c then wildFast tstr dstr else .inl false := by
        cases tstr <;> exact (if_neg notMarked).trans (if_neg notEscape)
      rw [goes]
      exact Fast.letter c d dstr (items_letter tstr notStar notAny notEscape) quick
        (later dstr)

theorem wildValue_spec {nargs : Nat} (tstr dstr : List Char) (args : Args)
    (room : Room nargs args 0 (wilds (items tstr))) (short : dstr.length < lbufSize) :
    ∃ args', wildValue nargs tstr dstr args = some (quickWild tstr dstr, args') ∧
      Captured nargs (items tstr) 0 dstr (quickWild tstr dstr) args args' := by
  unfold wildValue
  by_cases none' : nargs = 0
  · exact ⟨args, if_neg (not_not.mpr none'), Captured.quick (Nat.le_of_eq none') dstr args⟩
  · rw [if_pos none']
    exact (agrees nargs tstr).first dstr 0 args (Nat.pos_of_ne_zero none') room short

def captured (args : Args) (count : Nat) : List (List Char) :=
  (List.range count).map fun i => (args i).getD []

theorem captured_freeFake (nargs : Nat) (args : Args) (count : Nat) :
    captured (freeFake nargs true args) count = captured args count := by
  apply map_congr_left
  intro i _
  unfold freeFake
  split
  · next fake => rw [fake.2.resolve_right Bool.noConfusion]; rfl
  · rfl

theorem Holds.captured_eq {nargs : Nat} {args : Args} {captures : List (List Char)}
    (h : Holds nargs args 0 captures) (hlt : captures.length ≤ nargs) :
    captured args captures.length = captures := by
  apply ext_getElem
  · simp [captured]
  · intro i hin hin'
    have here := h i hin' (by omega)
    rw [Nat.zero_add, getElem?_eq_getElem hin'] at here
    simp [captured, here]

variable (fresh : Nat → List Char) (tstr : List Char) {dstr : List Char} (args : Args) (nargs : Nat)

/-- `wild` answers as `quick_wild` does; its arguments put in for the wildcards give the
data, when there is one for each; without a match they are all NULL, and the ones from
`nargs` on are never written. -/
theorem wild_agrees (short : dstr.length < lbufSize) :
    ∃ args', wild fresh tstr dstr args nargs = some (quickWild tstr dstr, args') ∧
      (quickWild tstr dstr = true → wilds (items tstr) ≤ nargs →
        Fills SameLetter (items tstr) (captured args' (wilds (items tstr))) dstr) ∧
      (quickWild tstr dstr = false → ∀ i < nargs, args' i = none) ∧
      ∀ i, nargs ≤ i → args' i = args i := by
  let cleared : Args := fun i => if i < nargs then none else args i
  have outside : ∀ i, nargs ≤ i → cleared i = args i := fun i past =>
    if_neg (Nat.not_lt.mpr past)
  have fast := wildFast_spec tstr dstr
  unfold wild
  cases ran : wildFast tstr dstr with
  | inl value =>
    rw [ran] at fast
    obtain ⟨rfl, fills⟩ := fast
    refine ⟨cleared, rfl, fun matched _ => ?_, fun _ i inside => if_pos inside, outside⟩
    have filled := fills matched
    rw [← filled.length_eq]
    exact filled
  | inr more =>
    rw [ran] at fast
    obtain ⟨same, count, shorter, fills⟩ := fast
    let ready := allocArgs fresh nargs more.1 0 cleared
    have room : Room nargs ready 0 (wilds (items more.1)) :=
      (allocArgs_room fresh more.1 0 cleared).frame (Frame.refl 0 0 ready) (Nat.le_refl _)
        (Nat.add_le_add_left (wilds_items_le more.1) 0)
    obtain ⟨args', matched, after⟩ :=
      wildValue_spec more.1 more.2 ready room (Nat.lt_of_le_of_lt shorter short)
    refine ⟨freeFake nargs (quickWild more.1 more.2) args', ?_, ?_, ?_, ?_⟩
    · change (wildValue nargs more.1 more.2 ready).bind _ = _
      rw [matched, same]
      rfl
    · intro accepted enough
      rw [same] at accepted
      obtain ⟨captures, filled, holds⟩ := after.captures accepted
      rw [accepted, captured_freeFake, count, ← filled.length_eq]
      rw [count, ← filled.length_eq] at enough
      rw [holds.captured_eq enough]
      exact fills captures filled
    · intro rejected i inside
      rw [same] at rejected
      exact if_pos ⟨inside, Or.inr rejected⟩
    · intro i past
      have kept : freeFake nargs (quickWild more.1 more.2) args' i = args' i :=
        if_neg fun fake => Nat.not_lt.mpr past fake.1
      rw [kept, after.frame.outside i (Or.inr past)]
      exact (allocArgs_outside fresh more.1 0 cleared (Or.inr past)).trans (outside i past)

end Wild

/-- On a pattern of two wildcards, with room for both. -/
theorem wild_agrees_two :
    ∃ args', wild (fun _ => []) ['*', 'A', '?'] ['x', 'a', 'b'] (fun _ => none) 2 =
        some (true, args') ∧
      Fills SameLetter (items ['*', 'A', '?']) (captured args' 2) ['x', 'a', 'b'] := by
  obtain ⟨args', ran, fills, _⟩ :=
    @wild_agrees (fun _ => []) ['*', 'A', '?'] ['x', 'a', 'b'] (fun _ => none) 2 (by decide)
  exact ⟨args', ran, fills rfl (by decide)⟩

end BattletechMux.Match
