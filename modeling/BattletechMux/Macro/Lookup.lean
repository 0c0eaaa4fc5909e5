/-
Module: BattletechMux.Macro.Lookup
Purpose: What `do_process_macro` finds in a macro set.
-/
import BattletechMux.Macro.Sets

namespace BattletechMux.Macro

open Option
open List hiding getElem?_eq_some_iff

/-! ## Order -/

theorem strcmp_cases (a b : Text) :
    (strcmp a b = .lt ∧ a < b) ∨ (strcmp a b = .eq ∧ a = b) ∨ (strcmp a b = .gt ∧ b < a) := by
  unfold strcmp cmp cmpUsing
  rcases lt_trichotomy a b with less | eq | more
  · exact Or.inl ⟨if_pos less, less⟩
  · subst eq
    exact Or.inr (Or.inl ⟨by rw [if_neg (lt_irrefl a), if_neg (lt_irrefl a)], rfl⟩)
  · exact Or.inr (Or.inr ⟨by rw [if_neg (lt_asymm more), if_pos more], more⟩)

theorem strcmp_eq_iff {a b : Text} : strcmp a b = .eq ↔ a = b := by
  rcases strcmp_cases a b with ⟨order, less⟩ | ⟨order, eq⟩ | ⟨order, more⟩ <;> rw [order]
  · exact iff_of_false (by decide) (ne_of_lt less)
  · exact iff_of_true rfl eq
  · exact iff_of_false (by decide) (ne_of_gt more)

theorem strcmp_gt_iff {a b : Text} : strcmp a b = .gt ↔ b < a := by
  rcases strcmp_cases a b with ⟨order, less⟩ | ⟨order, eq⟩ | ⟨order, more⟩ <;> rw [order]
  · exact iff_of_false (by decide) (lt_asymm less)
  · exact iff_of_false (by decide) (eq ▸ lt_irrefl a)
  · exact iff_of_true rfl more

theorem strcasecmp_eq (a b : Text) : strcasecmp a b = strcmp (lower a) (lower b) := rfl

/-! ## Search -/

section Search

variable {macros : List Entry} {next : Text}

variable {rounds : Nat} {first last : Int}

theorem findLoop_sound (low : 0 ≤ first) {i : Nat}
    (hf : findLoop next macros rounds first last = some i) :
    (first ≤ i ∧ (i : Int) ≤ last) ∧ ∃ e, macros[i]? = some e ∧ e.alias' = next := by
  induction rounds generalizing first last with
  | zero => cases hf
  | succ rounds ih =>
    rw [findLoop] at hf
    split at hf
    · rename_i more
      dsimp only at hf
      cases there : macros[((first + last) / 2).toNat]? with
      | none =>
        rw [there] at hf
        cases hf
      | some e =>
        rw [there] at hf
        dsimp only at hf
        cases order : strcmp next e.alias' with
        | eq =>
          rw [order] at hf
          obtain rfl := some.inj hf
          exact ⟨⟨by omega, by omega⟩, e, there, (strcmp_eq_iff.mp order).symm⟩
        | lt =>
          rw [order] at hf
          obtain ⟨hin, same⟩ := ih low hf
          exact ⟨⟨by omega, by omega⟩, same⟩
        | gt =>
          rw [order] at hf
          obtain ⟨hin, same⟩ := ih (by omega) hf
          exact ⟨⟨by omega, by omega⟩, same⟩
    · cases hf

theorem findLoop_probe (rounds : Nat) (more : first ≤ last) (low : 0 ≤ first)
    (high : last < macros.length) :
    ∃ (current : Nat) (probe : Entry), (first + last) / 2 = current ∧
      macros[current]? = some probe ∧ ∀ name, findLoop name macros (rounds + 1) first last =
        if name = probe.alias' then some current
        else if name < probe.alias' then findLoop name macros rounds first (current - 1)
        else findLoop name macros rounds (current + 1) last := by
  obtain ⟨current, middle⟩ : ∃ current : Nat, (first + last) / 2 = current :=
    ⟨((first + last) / 2).toNat, by omega⟩
  have there := getElem?_eq_getElem (show current < macros.length by omega)
  refine ⟨current, _, middle, there, fun name => ?_⟩
  rw [findLoop, if_pos more]
  simp only [middle, Int.toNat_natCast, there]
  rcases strcmp_cases name macros[current].alias' with
    ⟨order, less⟩ | ⟨order, eq⟩ | ⟨order, more'⟩
  · rw [order, if_neg (ne_of_lt less), if_pos less]
  · rw [order, if_pos eq]
  · rw [order, if_neg (ne_of_gt more'), if_neg (lt_asymm more')]

def Sorted (macros : List Entry) : Prop := macros.Pairwise fun e e' => e.alias' ≤ e'.alias'

def Increasing (macros : List Entry) : Prop := macros.Pairwise fun e e' => e.alias' < e'.alias'

theorem Sorted.le (sorted : Sorted macros) {i j : Nat} {e e' : Entry} (one : macros[i]? = some e)
    (two : macros[j]? = some e') (pre : i < j) : e.alias' ≤ e'.alias' := by
  obtain ⟨hin, rfl⟩ := getElem?_eq_some_iff.mp one
  obtain ⟨hin', rfl⟩ := getElem?_eq_some_iff.mp two
  exact pairwise_iff_getElem.mp sorted i j hin hin' pre

theorem findLoop_complete (sorted : Sorted macros)
    (room : last - first + 1 < rounds) (low : 0 ≤ first) (high : last < macros.length)
    {p : Nat} (hin : first ≤ p ∧ (p : Int) ≤ last) {e : Entry} (there : macros[p]? = some e)
    (eq : e.alias' = next) : (findLoop next macros rounds first last).isSome := by
  induction rounds generalizing first last with
  | zero => omega
  | succ rounds ih =>
    obtain ⟨current, probe, middle, probed, look⟩ :=
      findLoop_probe rounds (show first ≤ last by omega) low high
    rw [look]
    split
    · rfl
    · rename_i o
      split
      · rename_i less
        have left : p < current := by
          by_contra right
          rcases Nat.eq_or_lt_of_le (Nat.le_of_not_lt right) with equal | later
          · subst equal
            exact o (eq ▸ congrArg Entry.alias' (some.inj (there.symm.trans probed)))
          · exact absurd (sorted.le probed there later) (not_le_of_gt (eq ▸ less))
        exact ih (by omega) low (by omega) ⟨hin.1, by omega⟩
      · rename_i notLess
        have greater : probe.alias' < next := lt_of_le_of_ne (not_lt.mp notLess) (Ne.symm o)
        have right : current < p := by
          by_contra left
          rcases Nat.eq_or_lt_of_le (Nat.le_of_not_lt left) with equal | earlier
          · subst equal
            exact o (eq ▸ congrArg Entry.alias' (some.inj (there.symm.trans probed)))
          · exact absurd (sorted.le there probed earlier) (not_le_of_gt (eq ▸ greater))
        exact ih (by omega) (by omega) high ⟨by omega, hin.2⟩

def Distinct (macros : List Entry) : Prop := (macros.map Entry.alias').Nodup

theorem Distinct.unique (distinct : Distinct macros) {i j : Nat} {e e' : Entry}
    (one : macros[i]? = some e) (two : macros[j]? = some e') (eq : e.alias' = e'.alias') :
    i = j := by
  obtain ⟨hin, rfl⟩ := getElem?_eq_some_iff.mp one
  obtain ⟨hin', rfl⟩ := getElem?_eq_some_iff.mp two
  have nodup := pairwise_iff_getElem.mp distinct
  simp only [length_map, getElem_map] at nodup
  rcases lt_trichotomy i j with earlier | equal | later
  · exact absurd eq (nodup i j hin hin' earlier)
  · exact equal
  · exact absurd eq.symm (nodup j i hin' hin later)

theorem findLoop_increasing (nodup : Distinct macros)
    (room : last - first + 1 < rounds) (low : 0 ≤ first) (high : last < macros.length)
    (all : ∀ (p : Nat) (e : Entry), first ≤ p → (p : Int) ≤ last → macros[p]? = some e →
      (findLoop e.alias' macros rounds first last).isSome)
    {i j : Nat} {e e' : Entry} (pre : i < j) (lower : first ≤ i) (upper : (j : Int) ≤ last)
    (one : macros[i]? = some e) (two : macros[j]? = some e') : e.alias' < e'.alias' := by
  induction rounds generalizing first last i j e e' with
  | zero => omega
  | succ rounds ih =>
    obtain ⟨current, probe, middle, probed, look⟩ :=
      findLoop_probe rounds (show first ≤ last by omega) low high
    simp only [look] at all
    -- an alias before this place is less, or it would be looked for behind it
    have left : ∀ (p : Nat) (x : Entry), first ≤ p → p < current → macros[p]? = some x →
        x.alias' < probe.alias' ∧
          (findLoop x.alias' macros rounds first (current - 1)).isSome := by
      intro p x from' earlier there
      have o : x.alias' ≠ probe.alias' := fun eq =>
        absurd (nodup.unique there probed eq) (by omega)
      have hf := all p x from' (by omega) there
      rw [if_neg o] at hf
      split at hf
      · rename_i less
        exact ⟨less, hf⟩
      · obtain ⟨k, there'⟩ := isSome_iff_exists.mp hf
        obtain ⟨hin, y, here, eq⟩ := findLoop_sound (by omega) there'
        exact absurd (nodup.unique there here eq.symm) (by omega)
    have right : ∀ (p : Nat) (x : Entry), current < p → (p : Int) ≤ last →
        macros[p]? = some x → probe.alias' < x.alias' ∧
          (findLoop x.alias' macros rounds (current + 1) last).isSome := by
      intro p x later upTo there
      have o : x.alias' ≠ probe.alias' := fun eq =>
        absurd (nodup.unique there probed eq) (by omega)
      have hf := all p x (by omega) upTo there
      rw [if_neg o] at hf
      split at hf
      · obtain ⟨k, there'⟩ := isSome_iff_exists.mp hf
        obtain ⟨hin, y, here, eq⟩ := findLoop_sound low there'
        exact absurd (nodup.unique there here eq.symm) (by omega)
      · rename_i notLess
        exact ⟨lt_of_le_of_ne (not_lt.mp notLess) (Ne.symm o), hf⟩
    rcases lt_trichotomy j current with ends | here | later
    · exact ih (by omega) low (by omega)
        (fun p x from' upTo there => (left p x from' (by omega) there).2) pre lower
        (by omega) one two
    · subst here
      rw [← some.inj (probed.symm.trans two)]
      exact (left i e lower pre one).1
    · rcases lt_trichotomy i current with earlier | here | starts
      · exact (left i e lower earlier one).1.trans (right j e' later upper two).1
      · subst here
        rw [← some.inj (probed.symm.trans one)]
        exact (right j e' later upper two).1
      · exact ih (by omega) (by omega) high
          (fun p x from' upTo there => (right p x (by omega) upTo there).2) pre (by omega)
          upper one two

end Search

/-! ## Replacement -/

section Replacement

def before (prev : Option Char) (tar : Text) (i : Nat) : Option Char :=
  if i = 0 then prev else tar[i - 1]?

def IsStar (prev : Option Char) (tar : Text) (i : Nat) : Prop :=
  tar[i]? = some '*' ∧ before prev tar i ≠ some '%'

def IsEscape (tar : Text) (i : Nat) : Prop := tar[i]? = some '%' ∧ tar[i + 1]? = some '*'

instance (prev : Option Char) (tar : Text) (i : Nat) : Decidable (IsStar prev tar i) :=
  inferInstanceAs (Decidable (_ ∧ _))

instance (tar : Text) (i : Nat) : Decidable (IsEscape tar i) :=
  inferInstanceAs (Decidable (_ ∧ _))

def piece (s : Text) (prev : Option Char) (tar : Text) (i : Nat) : Text :=
  if IsStar prev tar i then s else if IsEscape tar i then [] else tar[i]?.toList

/-- The text with each star that is not escaped replaced, and without what escapes others. -/
def replaced (s tar : Text) : Text := (List.range tar.length).flatMap (piece s none tar)

def stars (tar : Text) : Nat :=
  (List.range tar.length).countP fun i => decide (IsStar none tar i)

def kept (tar : Text) : Nat :=
  (List.range tar.length).countP fun i => decide (¬ IsStar none tar i ∧ ¬ IsEscape tar i)

theorem before_succ (prev : Option Char) (c : Char) (tar : Text) (i : Nat) :
    before prev (c :: tar) (i + 1) = before (some c) tar i := by
  unfold before
  cases i <;> rfl

theorem piece_succ (s : Text) (prev : Option Char) (c : Char) (tar : Text) (i : Nat) :
    piece s prev (c :: tar) (i + 1) = piece s (some c) tar i := by
  have star : IsStar prev (c :: tar) (i + 1) ↔ IsStar (some c) tar i := by
    unfold IsStar
    rw [before_succ, getElem?_cons_succ]
  have escape : IsEscape (c :: tar) (i + 1) ↔ IsEscape tar i := by
    unfold IsEscape
    rw [getElem?_cons_succ, getElem?_cons_succ]
  exact if_congr star rfl (if_congr escape rfl (congrArg _ getElem?_cons_succ))

theorem pieces_cons (s : Text) (prev : Option Char) (c : Char) (tar : Text) :
    (List.range (c :: tar).length).flatMap (piece s prev (c :: tar)) =
      piece s prev (c :: tar) 0 ++ (List.range tar.length).flatMap (piece s (some c) tar) := by
  rw [length_cons, range_succ_eq_map, flatMap_cons, flatMap_map]
  exact congrArg _ (flatMap_congr fun i _ => piece_succ s prev c tar i)

theorem expand_pieces (s tar : Text) {prev : Option Char}
    (unescaped : prev = some '%' → tar.head? ≠ some '*') :
    expand s tar = (List.range tar.length).flatMap (piece s prev tar) := by
  induction tar using expand.induct generalizing prev with
  | case1 tar ih =>
    rw [expand, pieces_cons, pieces_cons, ← ih (absurd · (by decide))]
    rfl
  | case2 tar ih =>
    have star : IsStar prev ('*' :: tar) 0 := ⟨rfl, fun escaped => unescaped escaped rfl⟩
    rw [expand, pieces_cons, ← ih (absurd · (by decide)), piece, if_pos star]
  | case3 c tar noEscape noStar ih =>
    have plain : ¬ IsStar prev (c :: tar) 0 := fun star =>
      noStar (some.inj star.1)
    have single : ¬ IsEscape (c :: tar) 0 := by
      rintro ⟨percent, star⟩
      obtain ⟨rest, rfl⟩ : ∃ rest, tar = '*' :: rest := by
        cases tar with
        | nil => cases star
        | cons d rest => exact ⟨rest, by rw [some.inj star]⟩
      exact noEscape rest (some.inj percent) rfl
    have next : some c = some '%' → tar.head? ≠ some '*' := by
      intro percent star
      refine single ⟨percent, ?_⟩
      rw [← star, head?_eq_getElem?]
      rfl
    rw [expand, pieces_cons, ← ih next, piece, if_neg plain, if_neg single]
    · rfl
    · exact fun rest percent tail => noEscape rest percent tail
    · exact noStar
  | case4 => rfl

theorem expand_eq (s tar : Text) : expand s tar = replaced s tar :=
  expand_pieces s tar fun percent => absurd percent (by decide)

theorem pieces_length (s tar : Text) (places : List Nat)
    (hin : ∀ i ∈ places, i < tar.length) :
    (places.flatMap (piece s none tar)).length =
      places.countP (fun i => decide (¬ IsStar none tar i ∧ ¬ IsEscape tar i)) +
        places.countP (fun i => decide (IsStar none tar i)) * s.length := by
  induction places with
  | nil => simp
  | cons i places ih =>
    have here : tar[i]? = some (tar.get ⟨i, hin i mem_cons_self⟩) :=
      getElem?_eq_getElem _
    rw [flatMap_cons, length_append, countP_cons, countP_cons,
      ih fun j mem => hin j (mem_cons_of_mem i mem), piece]
    by_cases star : IsStar none tar i
    · simp only [star, not_true_eq_false, false_and, if_true, decide_true, decide_false,
        Bool.false_eq_true, if_false]
      ring
    · by_cases escape : IsEscape tar i
      · simp [star, escape]
      · simp only [star, escape, not_false_eq_true, and_self, if_true, decide_true,
          decide_false, Bool.false_eq_true, if_false, here, toList_some,
          length_singleton]
        ring

theorem replaced_length (s tar : Text) :
    (replaced s tar).length = kept tar + stars tar * s.length :=
  pieces_length s tar (List.range tar.length) fun _ => mem_range.mp

end Replacement

/-! ## Runs -/

section Runs

inductive Op where
  | define (player : Dbref) (cmd : Text)
  | undefine (player : Dbref) (cmd : Text)
  | load (player : Dbref) (status : BitVec 8) (desc : Text) (lines : List Line)

/-- A set that is loaded replaces the one there was; the program may end while it loads. -/
def step (m : MacroSet) : Op → Option MacroSet
  | .define player cmd => some (defMacro m player cmd).1
  | .undefine player cmd => some (undefMacro m player cmd).1
  | .load player status desc lines => loadSet player status desc lines

def Agree (a b : Text) : Prop := strcmp a b = strcasecmp a b

/-- The two orders agree on what comes into the set and what is there. -/
def Agreeing (m : MacroSet) : Op → Prop
  | .define _ cmd => ∀ name s, parseDef cmd = .ok (name, s) →
      ∀ e ∈ m.macros, Agree name e.alias'
  | .undefine _ _ => True
  | .load _ _ _ lines => ∀ macros, lines.mapM readMacro = some macros →
      ∀ e ∈ macros, ∀ e' ∈ macros, Agree e.alias' e'.alias'

/-- The set is in the order of `strcasecmp`. -/
def CaseSorted (macros : List Entry) : Prop := Bubble.Sorted (fun e : Entry => lower e.alias') macros

theorem Agree.symm {a b : Text} (agree : Agree a b) : Agree b a := by
  have swap : ∀ a b : Text, strcmp b a = (strcmp a b).swap := by
    intro a b
    rcases strcmp_cases a b with ⟨order, less⟩ | ⟨order, eq⟩ | ⟨order, more⟩
    · rw [order, strcmp_gt_iff.mpr less]
      rfl
    · rw [order, strcmp_eq_iff.mpr eq.symm]
      rfl
    · rcases strcmp_cases b a with ⟨order', _⟩ | ⟨_, eq⟩ | ⟨_, less⟩
      · rw [order, order']
        rfl
      · exact absurd eq (ne_of_lt more)
      · exact absurd less (lt_asymm more)
  unfold Agree at *
  rw [strcasecmp_eq] at *
  rw [swap, agree, ← swap]

theorem agree_of_lower {a b : Text} (small : lower a = a) (small' : lower b = b) : Agree a b := by
  rw [Agree, strcasecmp_eq, small, small']

theorem Agree.refl (a : Text) : Agree a a :=
  (strcmp_eq_iff.mpr rfl).trans (strcmp_eq_iff.mpr rfl).symm

theorem insertMacro_cases (m : MacroSet) (name s : Text) :
    (insertMacro m name s).1 = m ∨
      ∃ pre post, m.macros = pre ++ post ∧
        (insertMacro m name s).1 = { m with macros := pre ++ ⟨name, s⟩ :: post } ∧
        (∀ e ∈ pre, strcasecmp name e.alias' = .gt) ∧
        ∀ e rest, post = e :: rest → strcasecmp name e.alias' = .lt := by
  have split' := @takeWhile_append_dropWhile Entry
    (fun e => strcasecmp name e.alias' == .gt) m.macros
  have greater : ∀ e ∈ m.macros.takeWhile fun e => strcasecmp name e.alias' == .gt,
      strcasecmp name e.alias' = .gt := fun e mem =>
    beq_iff_eq.mp (mem_takeWhile_imp (p := fun e : Entry => strcasecmp name e.alias' == .gt)
      mem)
  have stop := @head?_dropWhile_not Entry (fun e => strcasecmp name e.alias' == .gt) m.macros
  unfold insertMacro
  dsimp only
  generalize (m.macros.takeWhile fun e => strcasecmp name e.alias' == .gt) = pre at *
  generalize (m.macros.dropWhile fun e => strcasecmp name e.alias' == .gt) = post at *
  cases post with
  | nil => exact Or.inr ⟨pre, [], split'.symm, rfl, greater, fun e rest same =>
        absurd same.symm (cons_ne_nil e rest)⟩
  | cons e rest =>
    dsimp only
    split
    · exact Or.inl rfl
    · rename_i o
      refine Or.inr ⟨pre, e :: rest, split'.symm, rfl, greater, fun e' rest' same => ?_⟩
      obtain ⟨rfl, rfl⟩ := cons.inj same
      cases order : strcasecmp name e.alias' with
      | lt => rfl
      | eq => exact absurd order o
      | gt => simp [order] at stop

theorem CaseSorted.insert {pre post : List Entry} {new : Entry}
    (sorted : CaseSorted (pre ++ post))
    (greater : ∀ e ∈ pre, strcasecmp new.alias' e.alias' = .gt)
    (less : ∀ e rest, post = e :: rest → strcasecmp new.alias' e.alias' = .lt) :
    CaseSorted (pre ++ new :: post) := by
  obtain ⟨left, right, across⟩ := pairwise_append.mp sorted
  have behind : ∀ e ∈ post, lower new.alias' ≤ lower e.alias' := by
    cases post with
    | nil => exact fun e mem => absurd mem not_mem_nil
    | cons first rest =>
      have below : lower new.alias' ≤ lower first.alias' := by
        rcases strcmp_cases (lower new.alias') (lower first.alias') with
          ⟨_, lt⟩ | ⟨_, eq⟩ | ⟨order, _⟩
        · exact lt.le
        · exact eq.le
        · exact absurd ((less first rest rfl).symm.trans order) (by decide)
      intro e mem
      rcases mem_cons.mp mem with rfl | later
      · exact below
      · exact below.trans ((pairwise_cons.mp right).1 e later)
  refine pairwise_append.mpr ⟨left, pairwise_cons.mpr ⟨behind, right⟩, ?_⟩
  intro e mem e' there
  rcases mem_cons.mp there with rfl | later
  · exact (strcmp_gt_iff.mp (greater e mem)).le
  · exact across e mem e' later

theorem undefMacro_sublist (m : MacroSet) (player : Dbref) (cmd : Text) :
    ((undefMacro m player cmd).1.macros).Sublist m.macros := by
  unfold undefMacro
  split
  · split
    · exact eraseIdx_sublist _ _
    · exact List.Sublist.refl _
  · exact List.Sublist.refl _

theorem loadSet_cases {player : Dbref} {status : BitVec 8} {desc : Text} {lines : List Line}
    {m : MacroSet} (loaded : loadSet player status desc lines = some m) :
    ∃ macros, lines.mapM readMacro = some macros ∧ m.macros = doSortMacroSet macros := by
  unfold loadSet at loaded
  cases read : lines.mapM readMacro with
  | none =>
    rw [read] at loaded
    cases loaded
  | some macros =>
    rw [read] at loaded
    exact ⟨macros, rfl, by rw [← some.inj loaded]⟩

theorem defMacro_cases (m : MacroSet) (player : Dbref) (cmd : Text) :
    (defMacro m player cmd).1 = m ∨
      ∃ name s, parseDef cmd = .ok (name, s) ∧
        (defMacro m player cmd).1 = (insertMacro m name s).1 := by
  unfold defMacro
  split
  · cases parsed : parseDef cmd with
    | error message => exact Or.inl rfl
    | ok definition => exact Or.inr ⟨definition.1, definition.2, rfl, rfl⟩
  · exact Or.inl rfl

theorem step_caseSorted {m m' : MacroSet} {op : Op} (stepped : step m op = some m')
    (sorted : CaseSorted m.macros) : CaseSorted m'.macros := by
  cases op with
  | define player cmd =>
    obtain rfl := some.inj stepped
    rcases defMacro_cases m player cmd with eq | ⟨name, s, -, inserted⟩
    · rwa [eq]
    · rw [inserted]
      rcases insertMacro_cases m name s with eq | ⟨pre, post, split', put, greater, less⟩
      · rwa [eq]
      · rw [put]
        exact CaseSorted.insert (split' ▸ sorted) greater less
  | undefine player cmd =>
    obtain rfl := some.inj stepped
    exact List.Pairwise.sublist (undefMacro_sublist m player cmd) sorted
  | load player status desc lines =>
    obtain ⟨macros, -, eq⟩ := loadSet_cases stepped
    rw [eq]
    exact Bubble.sort_sorted _ macros

def AllAgree (macros : List Entry) : Prop :=
  ∀ e ∈ macros, ∀ e' ∈ macros, Agree e.alias' e'.alias'

theorem AllAgree.insert {pre post : List Entry} {new : Entry}
    (agree : AllAgree (pre ++ post))
    (new' : ∀ e ∈ pre ++ post, Agree new.alias' e.alias') :
    AllAgree (pre ++ new :: post) := by
  have members : ∀ e ∈ pre ++ new :: post, e = new ∨ e ∈ pre ++ post := by
    intro e mem
    rcases mem_append.mp mem with first | snd
    · exact Or.inr (mem_append_left _ first)
    · rcases mem_cons.mp snd with here | later
      · exact Or.inl here
      · exact Or.inr (mem_append_right _ later)
  intro e mem e' member'
  rcases members e mem with rfl | old
  · rcases members e' member' with rfl | old'
    · exact Agree.refl _
    · exact new' e' old'
  · rcases members e' member' with rfl | old'
    · exact (new' e old).symm
    · exact agree e old e' old'

theorem step_agree {m m' : MacroSet} {op : Op} (agreeing : Agreeing m op)
    (stepped : step m op = some m') (agree : AllAgree m.macros) : AllAgree m'.macros := by
  cases op with
  | define player cmd =>
    obtain rfl := some.inj stepped
    rcases defMacro_cases m player cmd with eq | ⟨name, s, parsed, inserted⟩
    · rwa [eq]
    · rw [inserted]
      rcases insertMacro_cases m name s with eq | ⟨pre, post, split', put, -, -⟩
      · rwa [eq]
      · rw [put]
        exact AllAgree.insert (split' ▸ agree) (split' ▸ agreeing name s parsed)
  | undefine player cmd =>
    obtain rfl := some.inj stepped
    have sub := (undefMacro_sublist m player cmd).subset
    exact fun e mem e' member' => agree e (sub mem) e' (sub member')
  | load player status desc lines =>
    obtain ⟨macros, read, eq⟩ := loadSet_cases stepped
    have perm := Bubble.sort_perm (fun e : Entry => lower e.alias') macros
    rw [eq]
    exact fun e mem e' member' =>
      agreeing macros read e (perm.mem_iff.mp mem) e' (perm.mem_iff.mp member')

theorem CaseSorted.sorted {macros : List Entry} (sorted : CaseSorted macros)
    (agree : AllAgree macros) : Sorted macros := by
  refine Pairwise.imp_of_mem (fun {e e'} mem member' pre => ?_) sorted
  by_contra above
  have order : strcmp e.alias' e'.alias' = .gt := strcmp_gt_iff.mpr (not_le.mp above)
  rw [show strcmp e.alias' e'.alias' = strcasecmp e.alias' e'.alias' from
    agree e mem e' member', strcasecmp_eq, strcmp_gt_iff] at order
  exact absurd pre (not_le.mpr order)

end Runs

/-! ## Finding -/

section Finding

variable {m : MacroSet} {next s text : Text}

theorem findMacro_sound {i : Nat} (hf : findMacro m next = some i) :
    ∃ e, m.macros[i]? = some e ∧ e.alias' = next :=
  (findLoop_sound (le_refl 0) hf).2

theorem processSet_isSome (s : Text) :
    (processSet m next s).isSome ↔ (findMacro m next).isSome := by
  unfold processSet
  cases hf : findMacro m next with
  | none => exact Iff.rfl
  | some i =>
    obtain ⟨e, there, -⟩ := findMacro_sound hf
    simp [there]

theorem processSet_sound (hf : processSet m next s = some text) :
    ∃ e ∈ m.macros, e.alias' = next ∧ text = replaced s e.string := by
  unfold processSet at hf
  cases place : findMacro m next with
  | none =>
    rw [place] at hf
    cases hf
  | some i =>
    obtain ⟨e, there, eq⟩ := findMacro_sound place
    rw [place] at hf
    simp only [bind_eq_bind, bind_some, there, Option.some.injEq] at hf
    exact ⟨e, mem_of_getElem? there, eq, by rw [← hf, expand_eq]⟩

def Complete (m : MacroSet) : Prop :=
  ∀ next s, (processSet m next s).isSome ↔ ∃ e ∈ m.macros, e.alias' = next

theorem contains_of_processSet (hf : (processSet m next s).isSome) :
    ∃ e ∈ m.macros, e.alias' = next := by
  obtain ⟨text, hf⟩ := isSome_iff_exists.mp hf
  obtain ⟨e, mem, eq, -⟩ := processSet_sound hf
  exact ⟨e, mem, eq⟩

theorem Sorted.complete (sorted : Sorted m.macros) : Complete m := by
  intro next s
  refine ⟨contains_of_processSet, ?_⟩
  rintro ⟨e, mem, eq⟩
  obtain ⟨p, hin, there⟩ := mem_iff_getElem.mp mem
  rw [processSet_isSome]
  exact findLoop_complete sorted (by omega) (le_refl 0) (by omega) ⟨by omega, by omega⟩
    (getElem?_eq_some_iff.mpr ⟨hin, there⟩) eq

theorem Complete.increasing (complete : Complete m) (nodup : Distinct m.macros) :
    Increasing m.macros := by
  refine pairwise_iff_getElem.mpr fun i j below below' pre => ?_
  have all : ∀ (p : Nat) (e : Entry), (0 : Int) ≤ p → (p : Int) ≤ (m.macros.length : Int) - 1 →
      m.macros[p]? = some e →
        (findLoop e.alias' m.macros (m.macros.length + 1) 0 (m.macros.length - 1)).isSome :=
    fun p e _ _ there => (processSet_isSome []).mp
      ((complete e.alias' []).mpr ⟨e, mem_of_getElem? there, rfl⟩)
  exact findLoop_increasing nodup (by omega) (le_refl 0) (by omega) all pre (by omega)
    (by omega) (getElem?_eq_getElem below) (getElem?_eq_getElem below')

theorem Increasing.complete (increasing : Increasing m.macros) : Complete m :=
  Sorted.complete (List.Pairwise.imp (fun less => le_of_lt less) increasing)

end Finding

/-- In a set that definitions, removals and files made, a macro that is found has the alias
that was typed, and becomes its text with the stars replaced, if that fits.  Every macro is
found while the two orders agree on what comes into the set; and if no alias is there twice,
exactly while the aliases increase. -/
theorem lookup_runs {m₀ m : MacroSet} {ops : List Op} (new : m₀.macros = [])
    (reached : Machine.run step m₀ ops = some m) :
    (∀ next s text, processSet m next s = some text →
      ∃ e ∈ m.macros, e.alias' = next ∧ text = replaced s e.string ∧
        (text.length < lbufSize ↔ kept e.string + stars e.string * s.length < lbufSize)) ∧
    (Machine.Guarded step Agreeing m₀ ops → Complete m) ∧
    (Distinct m.macros → (Complete m ↔ Increasing m.macros)) := by
  have empty : CaseSorted m₀.macros ∧ AllAgree m₀.macros := by
    rw [new]
    exact ⟨.nil, fun e member => absurd member not_mem_nil⟩
  refine ⟨fun next s text found => ?_, fun guarded => ?_, fun distinct =>
    ⟨fun complete => complete.increasing distinct, fun increasing => increasing.complete⟩⟩
  · obtain ⟨e, member, same, rfl⟩ := processSet_sound found
    exact ⟨e, member, same, rfl, by rw [replaced_length]⟩
  · have kept' := @Machine.run_guarded MacroSet Op step Agreeing
      (fun m => CaseSorted m.macros ∧ AllAgree m.macros)
      (fun m op m' both agreeing stepped =>
        ⟨step_caseSorted stepped both.1, step_agree agreeing stepped both.2⟩)
      m₀ m ops empty guarded reached
    exact (kept'.1.sorted kept'.2).complete

/-- A set as `do_create_macro` makes it. -/
def created : MacroSet := ⟨1, 0, [], []⟩

def sorted2 : MacroSet :=
  { created with macros := [⟨['a'], "say *".toList⟩, ⟨['b'], "wave".toList⟩] }

theorem lookup_runs_small : Complete sorted2 := by
  refine (@lookup_runs created sorted2
    [.define 1 "b=wave".toList, .define 1 "a = say *".toList] rfl (by decide)).2.1 ?_
  refine ⟨fun name s _ e member => absurd member not_mem_nil, fun m' stepped =>
    ⟨fun name s parsed e member => ?_, fun _ _ => trivial⟩⟩
  obtain rfl := some.inj stepped
  obtain ⟨rfl, rfl⟩ := Prod.mk.inj (Except.ok.inj parsed)
  obtain rfl := mem_singleton.mp member
  exact agree_of_lower rfl rfl

def mixed : MacroSet :=
  { created with macros := [⟨['a'], "wave".toList⟩, ⟨['B'], "bow".toList⟩] }

/-- After two definitions the second macro is there and is not found; and the replacement of
two stars alone can take the whole buffer. -/
theorem lookup_loses :
    (Machine.run step created [.define 1 "a=wave".toList, .define 1 "B=bow".toList] = some mixed ∧
      (∃ e ∈ mixed.macros, e.alias' = ['B']) ∧ processSet mixed ['B'] [] = none) ∧
    ∃ s : Text, s.length < lbufSize ∧ ¬ (replaced s "**".toList).length < lbufSize := by
  refine ⟨⟨by decide, ⟨_, mem_cons_of_mem _ mem_cons_self, rfl⟩,
    by decide⟩, List.replicate 4000 'x', ?_, ?_⟩
  · rw [length_replicate]
    decide
  · rw [replaced_length, length_replicate]
    decide

end BattletechMux.Macro
