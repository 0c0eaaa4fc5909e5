/-
Module: BattletechMux.Weapons.TicSets
Purpose: TICs are sets of weapons, whatever commands change them; which rows of the array firetic
  reads, and when these are TICs and every TIC can be fired.
-/
import BattletechMux.Foundation.Machine
import BattletechMux.Weapons.Loss

namespace BattletechMux.Weapons

open List hiding getElem?_eq_some_iff mem_map
open Option hiding map mem_map

open CText (isSpace scanInt stored atoi)
open Ammo (Section Place Weapon)
open Machine (Since since_nil since_append foldl_since since_iff_of_sets since_iff_of_clears)

/-! ## Words -/

section Words

variable {i j : Nat} {word : BitVec 64} {mech : TicMech} {t n : Nat}

theorem ticBit_and : i < singleTiclongSize → j < singleTiclongSize →
    (ticBit i &&& ticBit j ≠ 0 ↔ i = j) ∧ (i ≠ j → ~~~ ticBit i &&& ticBit j = ticBit j) := by
  have all : ∀ i < 32, ∀ j < 32, (ticBit i &&& ticBit j ≠ 0 ↔ i = j) ∧
      (i ≠ j → ~~~ ticBit i &&& ticBit j = ticBit j) := by decide
  exact fun hin also => all i hin j also

theorem or_ticBit (hin : i < singleTiclongSize) (also : j < singleTiclongSize) :
    (word ||| ticBit i) &&& ticBit j ≠ 0 ↔ i = j ∨ word &&& ticBit j ≠ 0 := by
  rw [BitVec.and_comm, BitVec.and_or_distrib_left, BitVec.and_comm, BitVec.and_comm (ticBit j),
    ← (ticBit_and hin also).1]
  have zero := @BitVec.or_eq_zero_iff 64 (word &&& ticBit j) (ticBit i &&& ticBit j)
  change ¬ _ = 0#64 ↔ ¬ _ = 0#64 ∨ ¬ _ = 0#64
  tauto

theorem and_not_ticBit (hin : i < singleTiclongSize) (also : j < singleTiclongSize) :
    (word &&& ~~~ ticBit i) &&& ticBit j ≠ 0 ↔ i ≠ j ∧ word &&& ticBit j ≠ 0 := by
  rw [BitVec.and_assoc]
  by_cases same : i = j
  · subst same
    have none : ~~~ ticBit i &&& ticBit i = 0 := by
      rw [BitVec.and_comm]
      simp
    simp [none]
  · rw [(ticBit_and hin also).2 same]
    tauto

theorem weapnum_eq : n / singleTiclongSize = i / singleTiclongSize ∧
    i % singleTiclongSize = n % singleTiclongSize ↔ i = n := by
  unfold singleTiclongSize
  omega

theorem inTic_setTic : (mech.setTic i j word).inTic t n = true ↔
    if t = i ∧ n / singleTiclongSize = j then word &&& ticBit (n % singleTiclongSize) ≠ 0
    else mech.inTic t n = true := by
  unfold TicMech.inTic TicMech.setTic
  dsimp only
  split_ifs <;> simp

theorem mem_upTo {low high : Nat} : i ∈ upTo low high ↔ low ≤ i ∧ i ≤ high := by
  rw [upTo, mem_range'_1]
  omega

theorem mod_lt_ticlong (i : Nat) : i % singleTiclongSize < singleTiclongSize :=
  Nat.mod_lt i (by decide)

end Words

/-! ## Functions -/

section Functions

variable {presentTic low high t n : Nat} {mech : TicMech}

theorem addticSubFunc_inTic : (addticSubFunc presentTic mech low high).inTic t n = true ↔
    (t = presentTic ∧ low ≤ n ∧ n ≤ high) ∨ mech.inTic t n = true := by
  have one (mech : TicMech) (i : Nat) : (mech.setTic presentTic (i / singleTiclongSize)
      (mech.tic presentTic (i / singleTiclongSize) ||| ticBit (i % singleTiclongSize))).inTic t n =
        true ↔ (t = presentTic ∧ i = n) ∨ mech.inTic t n = true ∧ ¬ False := by
    have place := @weapnum_eq i n
    rw [inTic_setTic]
    split_ifs with here
    · rw [or_ticBit (mod_lt_ticlong i) (mod_lt_ticlong n), here.1, TicMech.inTic, bne_iff_ne, here.2]
      tauto
    · tauto
  refine (@foldl_since _ _ _ _ (fun mech : TicMech => mech.inTic t n = true) _ one _ mech).trans
    (since_iff_of_sets.trans (or_congr_left ⟨?_, fun ⟨same, hin⟩ =>
      ⟨n, mem_upTo.mpr hin, same, rfl⟩⟩))
  rintro ⟨i, hin, same, rfl⟩
  exact ⟨same, mem_upTo.mp hin⟩

theorem delticSubFunc_inTic : (delticSubFunc presentTic mech low high).inTic t n = true ↔
    mech.inTic t n = true ∧ ¬ (t = presentTic ∧ low ≤ n ∧ n ≤ high) := by
  have one (mech : TicMech) (i : Nat) : (mech.setTic presentTic (i / singleTiclongSize)
      (mech.tic presentTic (i / singleTiclongSize) &&& ~~~ ticBit (i % singleTiclongSize))).inTic t n =
        true ↔ False ∨ mech.inTic t n = true ∧ ¬ (t = presentTic ∧ i = n) := by
    have place := @weapnum_eq i n
    rw [inTic_setTic]
    split_ifs with here
    · rw [and_not_ticBit (mod_lt_ticlong i) (mod_lt_ticlong n), here.1, TicMech.inTic, bne_iff_ne,
        here.2]
      tauto
    · tauto
  refine (@foldl_since _ _ _ _ (fun mech : TicMech => mech.inTic t n = true) _ one _ mech).trans
    (since_iff_of_clears.trans (and_congr_right fun _ => ⟨fun apart ⟨same, hin⟩ =>
      apart n (mem_upTo.mpr hin) ⟨same, rfl⟩, ?_⟩))
  rintro apart i hin ⟨same, rfl⟩
  exact apart ⟨same, mem_upTo.mp hin⟩

theorem clearticSubFunc_inTic (small : n < maxWeaponsPerMech) :
    (clearticSubFunc mech low high).inTic t n = true ↔
      mech.inTic t n = true ∧ ¬ (low ≤ t ∧ t ≤ high) := by
  have word (i : Nat) (mech : TicMech) (j : Nat) : (mech.setTic i j 0).inTic t n = true ↔
      False ∨ mech.inTic t n = true ∧ ¬ (t = i ∧ n / singleTiclongSize = j) := by
    rw [inTic_setTic]
    split_ifs with here <;> simp [here]
  have hin : n / singleTiclongSize ∈ List.range ticlongs := by
    unfold maxWeaponsPerMech at small
    rw [mem_range, ticlongs, maxWeaponsPerMech, singleTiclongSize]
    omega
  have row (mech : TicMech) (i : Nat) : ((List.range ticlongs).foldl
      (fun mech j => mech.setTic i j 0) mech).inTic t n = true ↔
        False ∨ mech.inTic t n = true ∧ ¬ t = i := by
    refine (@foldl_since _ _ _ _ (fun mech : TicMech => mech.inTic t n = true) _ (word i) _ mech).trans
      (since_iff_of_clears.trans ?_)
    rw [false_or]
    exact and_congr_right fun _ => ⟨fun apart same => apart _ hin ⟨same, rfl⟩,
      fun apart j _ same => apart same.1⟩
  refine (@foldl_since _ _ _ _ (fun mech : TicMech => mech.inTic t n = true) _ row _ mech).trans
    (since_iff_of_clears.trans (and_congr_right fun _ =>
      ⟨fun apart hin => apart t (mem_upTo.mpr hin) rfl, ?_⟩))
  rintro apart i hin rfl
  exact apart (mem_upTo.mp hin)

end Functions

/-! ## Commands -/

inductive Change
  | added (presentTic low high : Nat)
  | deleted (presentTic low high : Nat)
  | cleared (low high : Nat)

namespace Change

def Adds (t n : Nat) : Change → Prop
  | added presentTic low high => t = presentTic ∧ low ≤ n ∧ n ≤ high
  | deleted .. => False
  | cleared .. => False

def Removes (t n : Nat) : Change → Prop
  | added .. => False
  | deleted presentTic low high => t = presentTic ∧ low ≤ n ∧ n ≤ high
  | cleared low high => low ≤ t ∧ t ≤ high

def apply (mech : TicMech) : Change → TicMech
  | added presentTic low high => addticSubFunc presentTic mech low high
  | deleted presentTic low high => delticSubFunc presentTic mech low high
  | cleared low high => clearticSubFunc mech low high

def Inside : Change → Prop
  | added presentTic _ high => presentTic < numTics ∧ high < maxWeaponsPerMech
  | deleted presentTic _ high => presentTic < numTics ∧ high < maxWeaponsPerMech
  | cleared _ high => high < numTics

variable {mech : TicMech} {change : Change} {t n : Nat}

theorem apply_inTic (small : n < maxWeaponsPerMech) : (change.apply mech).inTic t n = true ↔
    change.Adds t n ∨ mech.inTic t n = true ∧ ¬ change.Removes t n := by
  cases change with
  | added presentTic low high => simp [apply, addticSubFunc_inTic, Adds, Removes]
  | deleted presentTic low high => simp only [apply, delticSubFunc_inTic, Adds, Removes, false_or]
  | cleared low high => simp only [apply, clearticSubFunc_inTic small, Adds, Removes, false_or]

theorem apply_toBody : (change.apply mech).toBody = mech.toBody := by
  have kept {Item : Type} {step : TicMech → Item → TicMech}
      (one : ∀ mech item, (step mech item).toBody = mech.toBody) (items : List Item) :
      (items.foldl step mech).toBody = mech.toBody :=
    @Machine.foldl_invariant _ _ step (fun now => now.toBody = mech.toBody)
      (fun now item same => (one now item).trans same) mech items rfl
  cases change with
  | added presentTic low high =>
    refine kept ?_ (upTo low high)
    exact fun mech i => rfl
  | deleted presentTic low high =>
    refine kept ?_ (upTo low high)
    exact fun mech i => rfl
  | cleared low high =>
    refine kept ?_ (upTo low high)
    exact fun mech i => rfl

theorem apply_outside (hin : change.Inside) {k : Nat} (outside : numTics ≤ t ∨ ticlongs ≤ k) :
    (change.apply mech).tic t k = mech.tic t k := by
  have kept {step : TicMech → Nat → TicMech} {low high : Nat}
      (one : ∀ mech, ∀ i ∈ upTo low high, (step mech i).tic t k = mech.tic t k) :
      ((upTo low high).foldl step mech).tic t k = mech.tic t k :=
    @Machine.foldl_invariant_of_mem _ _ step (fun now => now.tic t k = mech.tic t k) mech _
      (fun now i mem same => (one now i mem).trans same) rfl
  have word (mech : TicMech) {i j : Nat} {word : BitVec 64} (apart : ¬ (t = i ∧ k = j)) :
      (mech.setTic i j word).tic t k = mech.tic t k := if_neg apart
  have place {i : Nat} (small : i < maxWeaponsPerMech) : i / singleTiclongSize < ticlongs := by
    unfold maxWeaponsPerMech at small
    rw [ticlongs, maxWeaponsPerMech, singleTiclongSize]
    omega
  cases change with
  | added presentTic low high =>
    obtain ⟨row, small⟩ := hin
    refine kept fun mech i mem => word mech ?_
    have := place ((mem_upTo.mp mem).2.trans_lt small)
    omega
  | deleted presentTic low high =>
    obtain ⟨row, small⟩ := hin
    refine kept fun mech i mem => word mech ?_
    have := place ((mem_upTo.mp mem).2.trans_lt small)
    omega
  | cleared low high =>
    have row : high < numTics := hin
    refine kept fun mech i mem => ?_
    have least := (mem_upTo.mp mem).2
    refine @Machine.foldl_invariant_of_mem _ _ _ (fun now => now.tic t k = mech.tic t k) mech _
      (fun now j column same => (word now ?_).trans same) rfl
    have := mem_range.mp column
    omega

end Change

section Commands

variable (mechWeapons : Int → Weapon)

/-- The ranges that a list hands on before a part of it is refused. -/
def selected (bitbybit : Nat) (mech : Mech) : List (List Char) → List (Nat × Nat)
  | [] => []
  | buffer :: c =>
    match accepted mechWeapons bitbybit mech buffer with
    | none => []
    | some range => range :: selected bitbybit mech c

/-- The changes of a list of weapons, for `addtic` and `deltic`. -/
def listed (change : Nat → Nat → Nat → Change) (mech : Mech) (arg list : List Char) : List Change :=
  match ticNumber arg with
  | none => []
  | some presentTic => (selected mechWeapons 0 mech (parts list)).map fun range =>
    change presentTic range.1 range.2

def cleared (mech : Mech) (arg : List Char) : List Change :=
  (selected mechWeapons 2 mech (parts arg)).map fun range => .cleared range.1 range.2

def changes (mech : Mech) : TicCommand → List Change
  | .addtic buffer =>
    match mechParseattributes 3 buffer with
    | [arg, list] => listed mechWeapons .added mech arg list
    | _ => []
  | .deltic buffer =>
    match mechParseattributes 3 buffer with
    | [arg] => cleared mechWeapons mech arg
    | [arg, list] => listed mechWeapons .deleted mech arg list
    | _ => []
  | .cleartic buffer =>
    match mechParseattributes 3 buffer with
    | [arg] => cleared mechWeapons mech arg
    | _ => []
  | .elsewhere _ => []

def bodyAfter (mech : Mech) : TicCommand → Mech
  | .elsewhere after => after
  | _ => mech

def history (mech : Mech) : List TicCommand → List Change
  | [] => []
  | command :: rest =>
    changes mechWeapons mech command ++ history (bodyAfter mech command) rest

variable {mechWeapons} {mech : TicMech} {t n : Nat}

theorem multiWeapSel_eq {bitbybit : Nat} (even : bitbybit % 2 = 0) {change : Nat → Nat → Change}
    {foo : TicMech → Nat → Nat → TicMech}
    (is : ∀ mech low high, foo mech low high = (change low high).apply mech)
    (list : List (List Char)) :
    multiWeapSel mechWeapons TicMech.toBody bitbybit (returnsZero foo) mech list =
      ((selected mechWeapons bitbybit mech.toBody list).map fun range =>
        change range.1 range.2).foldl Change.apply mech := by
  induction list generalizing mech with
  | nil => rfl
  | cons buffer c ih =>
    rw [multiWeapSel, selected]
    cases accepted mechWeapons bitbybit mech.toBody buffer with
    | none => rfl
    | some range =>
      have kept : (foo mech range.1 range.2).toBody = mech.toBody := by
        rw [is, Change.apply_toBody]
      simp only [even, ne_eq, not_true_eq_false, if_false, returnsZero, map_cons,
        foldl_cons]
      rw [← is, ← kept]
      exact ih

theorem listed_foldl {change : Nat → Nat → Nat → Change}
    {foo : Nat → TicMech → Nat → Nat → TicMech}
    (is : ∀ presentTic mech low high, foo presentTic mech low high =
      (change presentTic low high).apply mech) (arg list : List Char) :
    (match ticNumber arg with
      | none => mech
      | some presentTic =>
        multiWeapSel mechWeapons TicMech.toBody 0 (returnsZero (foo presentTic)) mech
          (parts list)) =
      (listed mechWeapons change mech.toBody arg list).foldl Change.apply mech := by
  unfold listed
  cases ticNumber arg with
  | none => rfl
  | some presentTic => exact multiWeapSel_eq rfl (is presentTic) (parts list)

theorem addticSub_eq (buffer : List Char) : addticSub mechWeapons mech buffer =
    (changes mechWeapons mech.toBody (.addtic buffer)).foldl Change.apply mech := by
  rw [addticSub, changes]
  rcases mechParseattributes 3 buffer with _ | ⟨arg, _ | ⟨list, _ | ⟨more, rest⟩⟩⟩
  · rfl
  · rfl
  · exact @listed_foldl mechWeapons mech .added addticSubFunc (fun _ _ _ _ => rfl) arg list
  · rfl

theorem clearticSub_eq (buffer : List Char) : clearticSub mechWeapons mech buffer =
    (changes mechWeapons mech.toBody (.cleartic buffer)).foldl Change.apply mech := by
  rw [clearticSub, changes]
  rcases mechParseattributes 3 buffer with _ | ⟨arg, _ | ⟨more, rest⟩⟩
  · rfl
  · exact @multiWeapSel_eq mechWeapons mech 2 rfl .cleared clearticSubFunc (fun _ _ _ => rfl)
      (parts arg)
  · rfl

theorem delticSub_eq (buffer : List Char) : delticSub mechWeapons mech buffer =
    (changes mechWeapons mech.toBody (.deltic buffer)).foldl Change.apply mech := by
  rw [delticSub, clearticSub_eq, changes, changes]
  rcases mechParseattributes 3 buffer with _ | ⟨arg, _ | ⟨list, _ | ⟨more, rest⟩⟩⟩
  · rfl
  · rfl
  · exact @listed_foldl mechWeapons mech .deleted delticSubFunc (fun _ _ _ _ => rfl) arg list
  · rfl

theorem performTic_tic (command : TicCommand) : (performTic mechWeapons mech command).tic =
    ((changes mechWeapons mech.toBody command).foldl Change.apply mech).tic := by
  cases command with
  | addtic buffer => rw [performTic, addticSub_eq]
  | deltic buffer => rw [performTic, delticSub_eq]
  | cleartic buffer => rw [performTic, clearticSub_eq]
  | elsewhere post => rfl

theorem performTic_toBody (command : TicCommand) :
    (performTic mechWeapons mech command).toBody = bodyAfter mech.toBody command := by
  have kept (list : List Change) : (list.foldl Change.apply mech).toBody = mech.toBody :=
    @Machine.foldl_invariant _ _ Change.apply (fun now => now.toBody = mech.toBody)
      (fun now change same => Change.apply_toBody.trans same) mech list rfl
  cases command with
  | addtic buffer => exact (congrArg TicMech.toBody (addticSub_eq buffer)).trans (kept _)
  | deltic buffer => exact (congrArg TicMech.toBody (delticSub_eq buffer)).trans (kept _)
  | cleartic buffer => exact (congrArg TicMech.toBody (clearticSub_eq buffer)).trans (kept _)
  | elsewhere post => rfl

theorem runTics_inTic (small : n < maxWeaponsPerMech) (commands : List TicCommand) :
    (runTics mechWeapons mech commands).inTic t n = true ↔
      Since (Change.Adds t n) (Change.Removes t n) (mech.inTic t n = true)
        (history mechWeapons mech.toBody commands) := by
  induction commands generalizing mech with
  | nil => exact since_nil.symm
  | cons command rest ih =>
    have one (mech : TicMech) (change : Change) := @Change.apply_inTic mech change t n small
    have fst := @foldl_since _ _ _ _ (fun mech : TicMech => mech.inTic t n = true) _ one
      (changes mechWeapons mech.toBody command) mech
    rw [TicMech.inTic, ← performTic_tic, ← TicMech.inTic] at fst
    rw [history, since_append, runTics, foldl_cons, ← runTics, ih,
      performTic_toBody, fst]

end Commands

/-! ## Weapons that are fired -/

section Firing

variable {mechWeapons : Int → Weapon} {gun : Gun} {body body' : Mech}

structure SameTypes (body body' : Mech) : Prop where
  isMech : body'.isMech = body.isMech
  type : ∀ place, (body'.criticals place).type = (body.criticals place).type

theorem SameTypes.refl (body : Mech) : SameTypes body body := ⟨rfl, fun _ => rfl⟩

theorem SameTypes.trans {body'' : Mech} (fst : SameTypes body body')
    (snd : SameTypes body' body'') : SameTypes body body'' :=
  ⟨snd.isMech.trans fst.isMech, fun place => (snd.type place).trans (fst.type place)⟩

theorem SameTypes.grouped (same : SameTypes body body') {index : Section}
    {groups : List (List Ammo.Critical)} : Grouped mechWeapons body' index groups ↔
      Grouped mechWeapons body index groups := by
  have kinds : kindAt body' index = kindAt body index := by
    funext loop
    rw [kindAt, kindAt, same.type]
  have crits : Ammo.getWeaponCrits mechWeapons body'.toMech =
      Ammo.getWeaponCrits mechWeapons body.toMech := by
    funext weapindx
    rw [Ammo.getWeaponCrits, Ammo.getWeaponCrits, same.isMech]
  rw [Grouped, Grouped, kinds, crits]

theorem SameTypes.length_weapons (same : SameTypes body body') :
    (weapons mechWeapons body').length = (weapons mechWeapons body).length := by
  have each (index : Section) : (weaponsIn mechWeapons body' index).length =
      (weaponsIn mechWeapons body index).length := by
    by_cases some : ∃ groups, Grouped mechWeapons body index groups
    · obtain ⟨groups, grouped⟩ := some
      rw [weaponsIn_eq grouped, weaponsIn_eq (same.grouped.mpr grouped), length_map,
        length_map]
    · have none (mech : Mech) (lacks : ¬ ∃ groups, Grouped mechWeapons mech index groups) :
          weaponsIn mechWeapons mech index = [] := by
        rw [weaponsIn]
        cases hf : findWeapons mechWeapons mech index with
        | none => rfl
        | some list =>
          obtain ⟨groups, grouped, -⟩ := findWeapons_iff.mp hf
          exact absurd ⟨groups, grouped⟩ lacks
      rw [none body some, none body' fun grouped => some (grouped.imp fun _ => same.grouped.mp)]
  simp only [weapons, length_flatMap, length_map, each]

theorem findWeaponNumberOnMech_iff {number : Nat} :
    (findWeaponNumberOnMech mechWeapons body number).1 ≠ -1 ↔
      number < (weapons mechWeapons body).length := by
  rw [findWeaponNumberOnMech_eq]
  cases hf : (weapons mechWeapons body)[number]? with
  | none => simpa using hf
  | some e =>
    have hin := (getElem?_eq_some_iff.mp hf).1
    exact iff_of_true (ticNum_ne (mem_of_getElem? hf)) hin

theorem accepted_weapons {buffer : List Char} {range : Nat × Nat} :
    accepted mechWeapons 0 body buffer = some range ↔
      readRange (buffer.dropWhile isSpace) = some range ∧
        range.2 < (weapons mechWeapons body).length := by
  rw [accepted, filter_eq_some_iff]
  simp [← findWeaponNumberOnMech_iff]

theorem fireWeapons_same {f : Bool} {i : Nat} {mech : TicMech} (bits : List (Nat × Nat)) :
    SameTypes mech.toBody (fireWeapons gun f i mech bits).1.toBody := by
  induction bits generalizing mech with
  | nil => exact .refl _
  | cons bit rest ih =>
    obtain ⟨k, j⟩ := bit
    have shot : SameTypes mech.toBody
        (gun.fireWeaponNumber mech (k * singleTiclongSize + j)).toBody :=
      ⟨gun.isMech mech _, gun.type mech _⟩
    rw [fireWeapons]
    dsimp only
    split_ifs
    · exact shot
    · exact shot
    · exact shot.trans ih
    · exact ih

/-- Rows that are read on the way from one reading to the next. -/
structure Reads (s s' : Reading) (visited : List Nat) : Prop where
  rows : s'.rows = s.rows ++ visited
  same : SameTypes s.mech.toBody s'.mech.toBody

theorem fireRows_reads {f : Bool} {s : Reading} (list : List Nat) :
    ∃ visited, visited <+: list ∧ (list ≠ [] → visited ≠ []) ∧
      Reads s (fireRows gun f s list).1 visited := by
  induction list generalizing s with
  | nil => exact ⟨[], prefix_rfl, id, (append_nil _).symm, .refl _⟩
  | cons i rest ih =>
    have same := @fireWeapons_same gun f i s.mech ticBits
    rw [fireRows]
    generalize fireWeapons gun f i s.mech ticBits = fired at same
    rcases fired with ⟨mech, _ | _⟩
    · obtain ⟨visited, pre, -, reads⟩ := @ih { s.visit i with mech }
      refine ⟨i :: visited, cons_prefix_cons.mpr ⟨rfl, pre⟩, fun _ => by simp, ?_,
        same.trans reads.same⟩
      rw [reads.rows, Reading.visit, append_assoc, singleton_append]
    · exact ⟨[i], cons_prefix_cons.mpr ⟨rfl, nil_prefix⟩, fun _ => by simp, rfl, same⟩

theorem rows_lt {s : Reading} {list : List (List Char)}
    (few : (weapons mechWeapons s.mech.toBody).length ≤ numTics)
    (small : ∀ row ∈ s.rows, row < numTics) :
    ∀ row ∈ (multiWeapSel mechWeapons (fun s => s.mech.toBody) 0 (fireticSubFunc gun) s list).rows,
      row < numTics := by
  induction list generalizing s with
  | nil => exact small
  | cons buffer c ih =>
    rw [multiWeapSel]
    cases named : accepted mechWeapons 0 s.mech.toBody buffer with
    | none => exact small
    | some range =>
      obtain ⟨i1, i2⟩ := range
      have high := (accepted_weapons.mp named).2
      obtain ⟨visited, pre, -, reads⟩ :=
        @fireRows_reads gun s.mech.fallen s (upTo i1 i2)
      have small' : ∀ row ∈ (fireticSubFunc gun s i1 i2).1.rows, row < numTics := by
        intro row mem
        rw [fireticSubFunc, reads.rows] at mem
        rcases mem_append.mp mem with old | new
        · exact small row old
        · have := (mem_upTo.mp (pre.subset new)).2
          exact (this.trans_lt high).trans_le few
      have few' := @SameTypes.length_weapons mechWeapons _ _ reads.same ▸ few
      simp only [Nat.zero_mod, ne_eq, not_true_eq_false, if_false]
      rcases made : fireticSubFunc gun s i1 i2 with ⟨s', _ | _⟩
      · rw [made] at small'
        rw [← fireticSubFunc, made] at few'
        exact ih few' small'
      · rw [made] at small'
        exact small'

end Firing

/-! ## Lists of numbers -/

section Lists

open CText (decimal scanInt_decimal stored_of_bounds stops_cons)

variable {a b : Nat}

section

variable (small : a < maxWeaponsPerMech)
include small

theorem stored_weapon : stored a = a := by
  unfold maxWeaponsPerMech at small
  exact stored_of_bounds (by omega) (by omega)

theorem isWeaponNumber_of_lt : isWeaponNumber a = true :=
  decide_eq_true ⟨Int.natCast_nonneg a, Int.ofNat_lt.mpr small⟩

theorem readRange_single : readRange (decimal a) = some (a, a) := by
  have scanned := @scanInt_decimal [] a (by simp [CText.Stops])
  rw [append_nil] at scanned
  have value : atoi (decimal a) = a := by
    rw [atoi, scanned]
    exact stored_weapon small
  have written : ¬ ((a : Int) = 0 ∧ decimal a ≠ ['0']) := by
    rintro ⟨zero, o⟩
    obtain rfl : a = 0 := Int.ofNat_eq_zero.mp zero
    exact o (by decide)
  rw [readRange, scanRange, scanned]
  simp only [value, isWeaponNumber_of_lt small, Int.toNat_natCast, Bool.not_true, Bool.false_eq_true,
    if_false, if_neg written]

theorem readRange_pair (also : b < maxWeaponsPerMech) :
    readRange (decimal a ++ '-' :: decimal b) = some (min a b, max a b) := by
  have fst := @scanInt_decimal ('-' :: decimal b) a (stops_cons (by decide) _)
  have snd := @scanInt_decimal [] b (by simp [CText.Stops])
  rw [append_nil] at snd
  have scanned : scanRange (decimal a ++ '-' :: decimal b) = some ((a : Int), (b : Int)) := by
    rw [scanRange, fst]
    simp only [snd, map_some, stored_weapon small, stored_weapon also]
  rw [readRange, scanned]
  simp [isWeaponNumber_of_lt small, isWeaponNumber_of_lt also]

end

end Lists

/-! ## When TICs are what they should be -/

section Kept

open CText (decimal)

variable {mechWeapons : Int → Weapon} {gun : Gun} {mech : TicMech}

/-- TICs are sets of weapons; what `firetic` and `listtic` read are TICs, and every TIC can be
fired. -/
structure TicsKept (mechWeapons : Int → Weapon) (mech : TicMech) : Prop where
  sets : ∀ commands, ∀ t < numTics, ∀ n < maxWeaponsPerMech,
    (runTics mechWeapons mech commands).inTic t n = true ↔
      Since (Change.Adds t n) (Change.Removes t n) (mech.inTic t n = true)
        (history mechWeapons mech.toBody commands)
  outside : ∀ commands t k, numTics ≤ t ∨ ticlongs ≤ k →
    (runTics mechWeapons mech commands).tic t k = mech.tic t k
  fired : ∀ gun buffer, ∀ row ∈ (mechFiretic mechWeapons gun mech buffer).rows, row < numTics
  listed : ∀ buffer, ∀ row ∈ (listticSub mechWeapons mech buffer).1.rows, row < numTics
  firable : mech.started = true → ∀ gun, ∀ t < numTics,
    t ∈ (mechFiretic mechWeapons gun mech (decimal t)).rows

theorem ticNumber_lt {arg : List Char} {t : Nat} (is : ticNumber arg = some t) : t < numTics := by
  rw [ticNumber, ite_none_right_eq_some] at is
  obtain ⟨⟨low, high⟩, same⟩ := is
  have := some.inj same
  omega

theorem readRange_lt {text : List Char} {range : Nat × Nat} (is : readRange text = some range) :
    range.2 < maxWeaponsPerMech := by
  rw [readRange] at is
  split at is
  · rw [ite_none_left_eq_some] at is
    obtain ⟨both, same⟩ := is
    obtain rfl := some.inj same
    simp only [isWeaponNumber, Bool.or_eq_true, Bool.not_eq_true', not_or, Bool.not_eq_false,
      decide_eq_true_eq] at both
    omega
  · simp only [ite_none_left_eq_some] at is
    obtain ⟨-, hin, same⟩ := is
    obtain rfl := some.inj same
    simp only [isWeaponNumber, Bool.not_eq_true', Bool.not_eq_false, decide_eq_true_eq] at hin
    omega

theorem selected_inside {bitbybit : Nat} {body : Mech} {list : List (List Char)} {range : Nat × Nat}
    (mem : range ∈ selected mechWeapons bitbybit body list) : range.2 < maxWeaponsPerMech ∧
      (bitbybit / 2 ≠ 0 → range.2 < numTics) := by
  induction list with
  | nil => exact absurd mem not_mem_nil
  | cons buffer c ih =>
    rw [selected] at mem
    cases named : accepted mechWeapons bitbybit body buffer with
    | none => simp [named] at mem
    | some fst =>
      simp only [named, mem_cons] at mem
      rcases mem with rfl | later
      · rw [accepted, filter_eq_some_iff] at named
        refine ⟨readRange_lt named.1, fun tics => ?_⟩
        simpa [tics] using named.2
      · exact ih later

theorem listed_inside {change : Nat → Nat → Nat → Change}
    (is : ∀ presentTic low high, presentTic < numTics → high < maxWeaponsPerMech →
      (change presentTic low high).Inside) {body : Mech} {arg list : List Char} {one : Change}
    (mem : one ∈ listed mechWeapons change body arg list) : one.Inside := by
  rw [listed] at mem
  cases number : ticNumber arg with
  | none => simp [number] at mem
  | some presentTic =>
    simp only [number, List.mem_map] at mem
    obtain ⟨range, hin, rfl⟩ := mem
    exact is _ _ _ (ticNumber_lt number) (selected_inside hin).1

theorem cleared_inside {body : Mech} {arg : List Char} {one : Change}
    (mem : one ∈ cleared mechWeapons body arg) : one.Inside := by
  obtain ⟨range, hin, rfl⟩ := List.mem_map.mp mem
  exact (selected_inside hin).2 (by decide)

theorem changes_inside {body : Mech} {command : TicCommand} {one : Change}
    (mem : one ∈ changes mechWeapons body command) : one.Inside := by
  have isAdded := @listed_inside mechWeapons .added fun _ _ _ row column => ⟨row, column⟩
  have isDeleted := @listed_inside mechWeapons .deleted fun _ _ _ row column => ⟨row, column⟩
  cases command with
  | addtic buffer =>
    rw [changes] at mem
    split at mem
    · exact isAdded mem
    · exact absurd mem not_mem_nil
  | deltic buffer =>
    rw [changes] at mem
    split at mem
    · exact cleared_inside mem
    · exact isDeleted mem
    · exact absurd mem not_mem_nil
  | cleartic buffer =>
    rw [changes] at mem
    split at mem
    · exact cleared_inside mem
    · exact absurd mem not_mem_nil
  | elsewhere post => exact absurd mem not_mem_nil

theorem runTics_outside (commands : List TicCommand) {t k : Nat}
    (outside : numTics ≤ t ∨ ticlongs ≤ k) :
    (runTics mechWeapons mech commands).tic t k = mech.tic t k := by
  refine @Machine.foldl_invariant _ _ (performTic mechWeapons)
    (fun now => now.tic t k = mech.tic t k) (fun now command same => ?_) mech commands rfl
  rw [performTic_tic]
  exact @Machine.foldl_invariant_of_mem _ _ Change.apply (fun now => now.tic t k = mech.tic t k) now
    _ (fun now one mem same => (Change.apply_outside (changes_inside mem) outside).trans same)
    same

theorem listticSub_rows {buffer : List Char} :
    ∀ row ∈ (listticSub mechWeapons mech buffer).1.rows, row < numTics := by
  have line {ticnum count i : Nat} {s : Reading} (hin : ticnum < numTics)
      (pre : ∀ row ∈ s.rows, row < numTics) :
      ∀ row ∈ (listticFun mechWeapons ticnum count s i).1.rows, row < numTics := by
    have visited : ∀ row ∈ (s.visit ticnum).rows, row < numTics := fun row mem =>
      (mem_append.mp mem).elim (pre row) fun last =>
        mem_singleton.mp last ▸ hin
    rw [listticFun]
    generalize (if i % 2 ≠ 0 then (count + 1) / 2 else 0) = more
    split_ifs
    · exact pre
    · dsimp only
      split
      · exact visited
      · split_ifs <;> exact visited
  rw [listticSub]
  split
  · split
    · simp
    · rename_i ticnum number
      have hin := ticNumber_lt number
      refine @Machine.foldl_invariant _ _ _ (fun now : Reading × List TicLine =>
        ∀ row ∈ now.1.rows, row < numTics) (fun now i pre => line hin pre) _ _
        (line hin ?_)
      exact fun row mem => mem_singleton.mp mem ▸ hin
  · simp

theorem fired_iff {t : Nat} (isTic : t < numTics) (started : mech.started = true) :
    t ∈ (mechFiretic mechWeapons gun mech (decimal t)).rows ↔
      t < (weapons mechWeapons mech.toBody).length := by
  have small : t < maxWeaponsPerMech := isTic.trans (by decide)
  have text : ∀ t : Nat, t < 4 → mechParseattributes 5 (decimal t) = [decimal t] ∧
      ticNumber (decimal t) = some t ∧ parts (decimal t) = [decimal t] ∧
        (decimal t).dropWhile isSpace = decimal t := by decide
  obtain ⟨words, number, alone, bare⟩ := text t isTic
  have named (body : Mech) : accepted mechWeapons 0 body (decimal t) = some (t, t) ↔
      t < (weapons mechWeapons body).length := by
    rw [accepted_weapons, bare, readRange_single small]
    exact and_iff_right rfl
  rw [mechFiretic, if_pos started, fireticSub, words]
  simp only [number, alone, multiWeapSel]
  cases hf : accepted mechWeapons 0 mech.toBody (decimal t) with
  | none =>
    refine iff_of_false (by simp) fun hin => ?_
    rw [(named mech.toBody).mpr hin] at hf
    exact absurd hf (by simp)
  | some range =>
    have hin := accepted_weapons.mp hf
    rw [bare, readRange_single small] at hin
    obtain ⟨rfl, hin⟩ := hin.imp_left some.inj
    refine iff_of_true ?_ hin
    obtain ⟨visited, pre, some, reads⟩ :=
      @fireRows_reads gun mech.fallen ⟨mech, []⟩ (upTo t t)
    have only : upTo t t = [t] := by
      rw [upTo, Nat.add_sub_cancel_left]
      rfl
    have all : visited = [t] := by
      rw [only] at pre some
      rcases visited with _ | ⟨fst, more⟩
      · exact absurd rfl (some (by simp))
      · obtain ⟨rfl, last⟩ := cons_prefix_cons.mp pre
        rw [prefix_nil.mp last]
    have rows : (fireticSubFunc gun ⟨mech, []⟩ t t).1.rows = [t] := by
      rw [fireticSubFunc, reads.rows, all]
      rfl
    simp only [Nat.zero_mod, ne_eq, not_true_eq_false, if_false]
    rcases made : fireticSubFunc gun ⟨mech, []⟩ t t with ⟨s', _ | _⟩ <;>
      simp [made] at rows <;> simp [rows]

def calm : Gun := ⟨fun mech _ => mech, fun _ _ => rfl, fun _ _ => rfl, fun _ _ _ => rfl⟩

theorem fireWeapons_calm {f : Bool} {i : Nat} (standing : f = mech.fallen)
    (started : mech.started = true) (bits : List (Nat × Nat)) :
    fireWeapons calm f i mech bits = (mech, false) := by
  induction bits with
  | nil => rfl
  | cons bit rest ih =>
    subst standing
    change (if _ then if _ then _ else if _ then _ else fireWeapons calm _ i mech rest
      else fireWeapons calm _ i mech rest) = _
    rw [ih]
    simp [calm, started]

theorem fireRows_calm {f : Bool} {s : Reading} (standing : f = s.mech.fallen)
    (started : s.mech.started = true) (list : List Nat) :
    fireRows calm f s list = ({ s with rows := s.rows ++ list }, false) := by
  induction list generalizing s with
  | nil => simp [fireRows]
  | cons i rest ih =>
    rw [fireRows, fireWeapons_calm standing started]
    refine (@ih { s.visit i with mech := s.mech } standing started).trans ?_
    simp [Reading.visit]

theorem reads_behind (started : mech.started = true)
    (many : numTics < (weapons mechWeapons mech.toBody).length) :
    numTics ∈ (mechFiretic mechWeapons calm mech (decimal 0 ++ '-' :: decimal 4)).rows := by
  have words : mechParseattributes 5 (decimal 0 ++ '-' :: decimal 4) =
      [decimal 0 ++ '-' :: decimal 4] := by decide
  have number : ticNumber (decimal 0 ++ '-' :: decimal 4) = some 0 := by decide
  have alone : parts (decimal 0 ++ '-' :: decimal 4) = [decimal 0 ++ '-' :: decimal 4] := by decide
  have named : accepted mechWeapons 0 mech.toBody (decimal 0 ++ '-' :: decimal 4) = some (0, 4) :=
    accepted_weapons.mpr ⟨@readRange_pair 0 4 (by decide) (by decide), many⟩
  rw [mechFiretic, if_pos started, fireticSub, words]
  simp only [number, alone, multiWeapSel, named, fireticSubFunc, Nat.zero_mod, ne_eq,
    not_true_eq_false, if_false, @fireRows_calm mech.fallen ⟨mech, []⟩ rfl started]
  decide

/-- TICs are what they should be when the mech has as many weapons as TICs. -/
theorem ticsKept_iff (mechWeapons : Int → Weapon) (mech : TicMech) :
    TicsKept mechWeapons mech ↔
      (mech.started = true → (weapons mechWeapons mech.toBody).length = numTics) := by
  constructor
  · intro kept started
    have enough := (@fired_iff mechWeapons calm mech 3 (by decide) started).mp
      (kept.firable started calm 3 (by decide))
    refine Nat.le_antisymm (Nat.not_lt.mp fun many => ?_) enough
    exact absurd (kept.fired calm _ _ (reads_behind started many)) (Nat.lt_irrefl _)
  · intro four
    refine ⟨fun commands t _ n small => runTics_inTic small commands,
      fun commands t k outside => runTics_outside commands outside, fun gun buffer => ?_,
      fun buffer => listticSub_rows, fun started gun t isTic => ?_⟩
    · rw [mechFiretic]
      split_ifs with started
      · have few := (four started).le
        rw [fireticSub]
        split
        · simp
        · split
          · simp
          · exact rows_lt few (by simp)
      · simp
    · rw [fired_iff isTic started, four started]
      exact isTic

def lasers (count : Nat) : TicMech where
  isMech := true
  criticals := fun place => if place.1 = 0 ∧ place.2.val < count then ⟨0, 5, 0, 0, none⟩
    else ⟨0, 0, 0, 0, none⟩
  brand := fun _ => 0
  weapDamageFlags := fun _ => 0
  isGroundVehicle := false
  recycle := fun _ => false
  sectIsDestroyed := fun _ => false
  tic := fun _ _ => 0
  fallen := false
  started := true

/-- With three lasers the last TIC cannot be fired; with five, `firetic 0-4` reads behind the
TICs. -/
theorem three_and_five_lasers :
    (mechFiretic (fun _ => ⟨.beam, 1, 0, 0⟩) calm (lasers 3) ['3']).rows = [] ∧
      (mechFiretic (fun _ => ⟨.beam, 1, 0, 0⟩) calm (lasers 5) ['0', '-', '4']).rows =
        [0, 1, 2, 3, 4] := by
  decide

end Kept

end BattletechMux.Weapons
