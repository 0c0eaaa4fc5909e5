/-
Module: BattletechMux.Weapons.Groups
Purpose: FindWeapons finds the weapons of a section exactly if each stands in one block of slots;
  all functions number them alike.
-/
import BattletechMux.Foundation.Tiling
import BattletechMux.Weapons.Losing

namespace BattletechMux.Weapons

section

open List hiding filter_filter map_map
open Option hiding filter filter_filter map map_map
open Ammo (Section Critical Place CriticalSlot Weapon getWeaponCrits weapon2I weaponBaseIndex)

variable {mechWeapons : Int → Weapon} {mech : Mech} {index : Section}

def kindAt (mech : Mech) (index : Section) (loop : Critical) : Option Int :=
  let type := (mech.criticals (index, loop)).type.toNat
  if isWeapon type then some (weapon2I type) else none

def Grouped (mechWeapons : Int → Weapon) (mech : Mech) (index : Section)
    (groups : List (List Critical)) : Prop :=
  Tiling (kindAt mech index) (getWeaponCrits mechWeapons mech.toMech) (List.finRange 12) groups

/-- What `FindWeapons_Advanced` notes down of a weapon. -/
def noted (mech : Mech) (index : Section) (group : List Critical) : Found :=
  let first := group.headD 0
  ⟨weapon2I (mech.criticals (index, first)).type.toNat, (mech.criticals (index, first)).data, first⟩

/-! ## The loop of FindWeapons -/

theorem kindAt_eq_some {loop : Critical} {k : Int} : kindAt mech index loop = some k ↔
    isWeapon (mech.criticals (index, loop)).type.toNat = true ∧
      weapon2I (mech.criticals (index, loop)).type.toNat = k := by
  simp only [kindAt]
  split_ifs with weapon <;> simp [weapon]

theorem kindAt_eq_none {loop : Critical} :
    kindAt mech index loop = none ↔
      isWeapon (mech.criticals (index, loop)).type.toNat = false := by
  simp only [kindAt]
  split_ifs with weapon <;> simp [weapon]

def Scan.Settled (mechWeapons : Int → Weapon) (mech : Mech) (s : Scan) : Prop :=
  s.numCrits = 0 ∨ s.numCrits = getWeaponCrits mechWeapons mech.toMech s.lastweap

theorem uglytest_eq_some {s s' : Scan} : uglytest mechWeapons mech s = some s' ↔
    s.Settled mechWeapons mech ∧ s' = { s with numCrits := 0 } := by
  rw [uglytest, Scan.Settled]
  split_ifs with open' complete
  · simp [open', complete]
  · rw [not_not] at complete
    simp [complete, eq_comm]
  · rw [not_not] at open'
    obtain ⟨found, lastweap, numCrits⟩ := s
    simp only at open'
    subst open'
    simp [eq_comm]

theorem scanSlot_eq_some {s s' : Scan} {loop : Critical}
    (begun : s.found = [] → s.numCrits = 0) :
    scanSlot mechWeapons mech index s loop = some s' ↔
      (kindAt mech index loop = none ∧ s.Settled mechWeapons mech ∧ s' = { s with numCrits := 0 }) ∨
      (∃ k, kindAt mech index loop = some k ∧ s.Settled mechWeapons mech ∧
        s' = s.push k (mech.criticals (index, loop)).data loop) ∨
      (kindAt mech index loop = some s.lastweap ∧ ¬ s.Settled mechWeapons mech ∧
        s' = { s with numCrits := s.numCrits + 1 }) := by
  rw [scanSlot]
  by_cases weapon : isWeapon (mech.criticals (index, loop)).type.toNat = true
  · have kind : kindAt mech index loop = some (weapon2I (mech.criticals (index, loop)).type.toNat) :=
      kindAt_eq_some.mpr ⟨weapon, rfl⟩
    simp only [weapon, if_true, kind, Option.some.injEq, reduceCtorEq, false_and, false_or,
      exists_eq_left']
    by_cases none : s.found = []
    · have settled : s.Settled mechWeapons mech := .inl (begun none)
      simp [none, settled, eq_comm]
    · rw [if_neg none]
      split_ifs with next
      · constructor
        · intro pushed
          obtain ⟨t, ugly, rfl⟩ := map_eq_some_iff.mp pushed
          obtain ⟨settled, rfl⟩ := uglytest_eq_some.mp ugly
          exact .inl ⟨settled, rfl⟩
        · rintro (⟨settled, rfl⟩ | ⟨eq, open', -⟩)
          · rw [uglytest_eq_some.mpr ⟨settled, rfl⟩]
            rfl
          · refine absurd ?_ open'
            rcases next with zero | o | full
            · exact .inl zero
            · exact absurd eq o
            · exact .inr (eq ▸ full)
      · rw [not_or, not_or, not_not] at next
        obtain ⟨some', eq, open'⟩ := next
        have unsettled : ¬ s.Settled mechWeapons mech := by
          rintro (zero | full)
          · exact some' zero
          · exact open' (eq ▸ full)
        simp [eq, unsettled, eq_comm]
  · have kind : kindAt mech index loop = none := kindAt_eq_none.mpr (by simpa using weapon)
    rw [if_neg weapon, uglytest_eq_some]
    simp [kind]

/-- The state of the loop in front of some slots: first come those that the last weapon lacks. -/
def Scan.Lacks (mechWeapons : Int → Weapon) (mech : Mech) (index : Section) (s : Scan)
    (lacking : List Critical) : Prop :=
  (∀ loop ∈ lacking, kindAt mech index loop = some s.lastweap) ∧
    (s.numCrits = 0 → lacking = []) ∧
    (s.numCrits ≠ 0 →
      s.numCrits + lacking.length = getWeaponCrits mechWeapons mech.toMech s.lastweap)

theorem Scan.Lacks.nil_iff {s : Scan} :
    s.Lacks mechWeapons mech index [] ↔ s.Settled mechWeapons mech := by
  simp only [Scan.Lacks, Scan.Settled, not_mem_nil, false_imp_iff, implies_true, true_and,
    length_nil, Nat.cast_zero, add_zero]
  exact or_iff_not_imp_left.symm

theorem foldlM_scanSlot {s : Scan} (counted : 0 ≤ s.numCrits)
    (begun : s.found = [] → s.numCrits = 0) (loops : List Critical) (found : List Found) :
    ((loops.foldlM (scanSlot mechWeapons mech index) s).bind (uglytest mechWeapons mech)).map
        Scan.found = some found ↔
      ∃ lacking rest groups, loops = lacking ++ rest ∧ s.Lacks mechWeapons mech index lacking ∧
        Tiling (kindAt mech index) (getWeaponCrits mechWeapons mech.toMech) rest groups ∧
        found = s.found ++ groups.map (noted mech index) := by
  induction loops generalizing s with
  | nil =>
    rw [foldlM_nil, map_eq_some_iff]
    constructor
    · rintro ⟨s', ugly, rfl⟩
      obtain ⟨settled, rfl⟩ := uglytest_eq_some.mp ugly
      exact ⟨[], [], [], rfl, Scan.Lacks.nil_iff.mpr settled, .nil, (append_nil _).symm⟩
    · rintro ⟨lacking, rest, groups, whole, lacks, tiling, rfl⟩
      obtain ⟨rfl, rfl⟩ := append_eq_nil_iff.mp whole.symm
      cases tiling
      exact ⟨_, uglytest_eq_some.mpr ⟨Scan.Lacks.nil_iff.mp lacks, rfl⟩,
        (append_nil _).symm⟩
  | cons loop loops ih =>
    have step : ((((loop :: loops).foldlM (scanSlot mechWeapons mech index) s).bind
        (uglytest mechWeapons mech)).map Scan.found = some found) ↔
        ∃ t, scanSlot mechWeapons mech index s loop = some t ∧
          ((loops.foldlM (scanSlot mechWeapons mech index) t).bind
            (uglytest mechWeapons mech)).map Scan.found = some found := by
      rw [foldlM_cons]
      cases scanSlot mechWeapons mech index s loop <;> simp
    rw [step]
    constructor
    · rintro ⟨t, scanned, later⟩
      rcases (scanSlot_eq_some begun).mp scanned with
        ⟨plain, settled, rfl⟩ | ⟨k, kind, settled, rfl⟩ | ⟨kind, open', rfl⟩
      · obtain ⟨lacking, rest, groups, rfl, lacks, tiling, rfl⟩ :=
          (ih (Int.le_refl 0) fun _ => rfl).mp later
        obtain rfl := lacks.2.1 rfl
        exact ⟨[], _, groups, rfl, Scan.Lacks.nil_iff.mpr settled, .skip plain tiling, rfl⟩
      · obtain ⟨lacking, rest, groups, rfl, lacks, tiling, rfl⟩ :=
          (ih (show (0 : Int) ≤ 1 by decide)
            fun none => absurd none (by simp [Scan.push])).mp later
        refine ⟨[], _, (loop :: lacking) :: groups, rfl, Scan.Lacks.nil_iff.mpr settled,
          .block (k := k) ?_ ?_ tiling, ?_⟩
        · exact forall_mem_cons.mpr ⟨kind, lacks.1⟩
        · have full := lacks.2.2 (show (1 : Int) ≠ 0 by decide)
          simp only [Scan.push] at full
          rw [← full, length_cons]
          push_cast
          ring
        · simp [Scan.push, noted, (kindAt_eq_some.mp kind).2]
      · have some' : s.numCrits ≠ 0 := fun zero => open' (.inl zero)
        obtain ⟨lacking, rest, groups, rfl, lacks, tiling, rfl⟩ :=
          (@ih { s with numCrits := s.numCrits + 1 }
            (show 0 ≤ s.numCrits + 1 by omega) fun none => absurd (begun none) some').mp later
        refine ⟨loop :: lacking, rest, groups, rfl,
          ⟨forall_mem_cons.mpr ⟨kind, lacks.1⟩, fun zero => absurd zero some', fun _ => ?_⟩,
          tiling, rfl⟩
        have full := lacks.2.2 (show s.numCrits + 1 ≠ 0 by omega)
        rw [← full, length_cons]
        push_cast
        ring
    · rintro ⟨lacking, rest, groups, whole, lacks, tiling, rfl⟩
      cases lacking with
      | nil =>
        have settled := Scan.Lacks.nil_iff.mp lacks
        obtain rfl : rest = loop :: loops := whole.symm
        cases tiling with
        | skip plain later =>
          exact ⟨_, (scanSlot_eq_some begun).mpr (.inl ⟨plain, settled, rfl⟩),
            (ih (Int.le_refl 0) fun _ => rfl).mpr
              ⟨[], loops, groups, rfl, Scan.Lacks.nil_iff.mpr (.inl rfl), later, rfl⟩⟩
        | @block k _ more rest groups kinds full later =>
          have kind := kinds loop mem_cons_self
          refine ⟨_, (scanSlot_eq_some begun).mpr (.inr (.inl ⟨k, kind, settled, rfl⟩)),
            (ih (show (0 : Int) ≤ 1 by decide)
              fun none => absurd none (by simp [Scan.push])).mpr
              ⟨more, rest, groups, rfl, ⟨fun o mem => kinds o (by simp [mem]),
                fun zero => absurd zero (by simp [Scan.push]), fun _ => ?_⟩, later, ?_⟩⟩
          · rw [length_cons] at full
            simp only [Scan.push]
            push_cast at full
            omega
          · simp [Scan.push, noted, (kindAt_eq_some.mp kind).2]
      | cons fst more =>
        obtain ⟨rfl, rfl⟩ := cons.inj whole
        have some' : s.numCrits ≠ 0 := fun zero => absurd (lacks.2.1 zero) (by simp)
        have full := lacks.2.2 some'
        rw [length_cons] at full
        push_cast at full
        have open' : ¬ s.Settled mechWeapons mech := by
          rintro (zero | complete)
          · exact some' zero
          · omega
        refine ⟨_, (scanSlot_eq_some begun).mpr
          (.inr (.inr ⟨lacks.1 loop mem_cons_self, open', rfl⟩)),
          (@ih { s with numCrits := s.numCrits + 1 }
            (show 0 ≤ s.numCrits + 1 by omega) fun none => absurd (begun none) some').mpr
            ⟨more, rest, groups, rfl, ⟨fun o mem => lacks.1 o (by simp [mem]),
              fun zero => absurd zero (show s.numCrits + 1 ≠ 0 by omega), fun _ => ?_⟩, tiling,
              rfl⟩⟩
        simp only
        omega

theorem findWeapons_iff {found : List Found} : findWeapons mechWeapons mech index = some found ↔
    ∃ groups, Grouped mechWeapons mech index groups ∧ found = groups.map (noted mech index) := by
  rw [findWeapons, foldlM_scanSlot (Int.le_refl 0) fun _ => rfl]
  constructor
  · rintro ⟨lacking, rest, groups, whole, lacks, tiling, rfl⟩
    obtain rfl := lacks.2.1 rfl
    obtain rfl : List.finRange 12 = rest := whole
    exact ⟨groups, tiling, rfl⟩
  · rintro ⟨groups, grouped, rfl⟩
    exact ⟨[], _, groups, rfl, Scan.Lacks.nil_iff.mpr (.inl rfl), grouped, rfl⟩

/-! ## All weapons -/

def allGroups (groups : Section → List (List Critical)) : List (Section × Nat × List Critical) :=
  (List.finRange 8).flatMap fun loop =>
    (groups loop).zipIdx.map fun entry => (loop, entry.2, entry.1)

abbrev Layout (mechWeapons : Int → Weapon) (mech : Mech)
    (groups : Section → List (List Critical)) : Prop :=
  ∀ index, Grouped mechWeapons mech index (groups index)

variable {groups : List (List Critical)}

theorem weaponsIn_eq (grouped : Grouped mechWeapons mech index groups) :
    weaponsIn mechWeapons mech index = groups.map (noted mech index) := by
  rw [weaponsIn, findWeapons_iff.mpr ⟨groups, grouped, rfl⟩]
  rfl

def weapons (mechWeapons : Int → Weapon) (mech : Mech) : List (Section × Found) :=
  (List.finRange 8).flatMap fun loop =>
    (weaponsIn mechWeapons mech loop).map fun found => (loop, found)

theorem numbered_eq {number runningSum : Nat} (low : runningSum ≤ number)
    (sections : List Section) :
    numbered mechWeapons mech number runningSum sections =
      (sections.flatMap fun loop =>
        (weaponsIn mechWeapons mech loop).map fun found => (loop, found))[number - runningSum]? := by
  induction sections generalizing runningSum with
  | nil => rfl
  | cons loop rest ih =>
    rw [numbered, flatMap_cons]
    split_ifs with here
    · rw [getElem?_append_left (by rw [length_map]; omega), getElem?_map]
    · rw [ih (by omega),
        getElem?_append_right (by rw [length_map]; omega), length_map]
      congr 1
      omega

theorem numbered_weapons (number : Nat) :
    numbered mechWeapons mech number 0 (List.finRange 8) = (weapons mechWeapons mech)[number]? :=
  numbered_eq (Nat.zero_le number) _

theorem numbered_groups {groups : Section → List (List Critical)}
    (layout : Layout mechWeapons mech groups) (number : Nat) :
    numbered mechWeapons mech number 0 (List.finRange 8) =
      (allGroups groups)[number]?.map fun e => (e.1, noted mech e.1 e.2.2) := by
  rw [numbered_weapons, ← getElem?_map, weapons, allGroups, map_flatMap]
  congr 2
  funext loop
  rw [weaponsIn_eq (layout loop), List.map_map, List.map_map]
  conv_lhs => rw [← zipIdx_map_fst 0 (groups loop), List.map_map]
  rfl

theorem groups_of_mem {found : Found} (mem : found ∈ weaponsIn mechWeapons mech index) :
    ∃ groups, Grouped mechWeapons mech index groups ∧
      weaponsIn mechWeapons mech index = groups.map (noted mech index) := by
  cases searched : findWeapons mechWeapons mech index with
  | none => exact absurd mem (by simp [weaponsIn, searched])
  | some list =>
    obtain ⟨groups, grouped, -⟩ := findWeapons_iff.mp searched
    exact ⟨groups, grouped, weaponsIn_eq grouped⟩

theorem listing_eq {groups : Section → List (List Critical)}
    (layout : Layout mechWeapons mech groups) :
    listing mechWeapons mech = (allGroups groups).map fun e =>
      (e.1, e.2.1, noted mech e.1 e.2.2) := by
  rw [listing, allGroups, map_flatMap]
  congr 1
  funext loop
  rw [weaponsIn_eq (layout loop), zipIdx_map, List.map_map, List.map_map]
  rfl

/-! ## The first slot of a weapon -/

theorem type_eq_iff {t : Nat} (weapon : isWeapon t = true) (loop : Critical) :
    (mech.criticals (index, loop)).type.toNat = t ↔
      kindAt mech index loop = some (weapon2I t) := by
  rw [kindAt_eq_some]
  constructor
  · rintro rfl
    exact ⟨weapon, rfl⟩
  · rintro ⟨-, eq⟩
    unfold weapon2I at eq
    omega

/-- The slots from `start` on that `FindFirstWeaponCrit` counts. -/
def critsFrom (mech : Mech) (index : Section) (wCritType : Nat) (start : Int) : List Critical :=
  (List.finRange 12).filter fun wCritIter =>
    decide (start ≤ wCritIter.val) && (mech.criticals (index, wCritIter)).type.toNat == wCritType

theorem critsFrom_critsFrom {wCritType : Nat} {start later : Int} (less : start ≤ later) :
    critsFrom mech index wCritType later =
      (critsFrom mech index wCritType start).filter fun crit => decide (later ≤ crit.val) := by
  rw [critsFrom, critsFrom, List.filter_filter]
  refine filter_congr fun crit _ => ?_
  by_cases post : later ≤ (crit.val : Int)
  · have : start ≤ (crit.val : Int) := less.trans post
    simp [post, this]
  · simp [post]

theorem findFirstWeaponCrit_cons {wSlot fst : Critical} {more : List Critical} {wCritType : Nat}
    {wMaxCrits start : Int} {depth : Nat} (slots : 0 < wMaxCrits)
    (crits : critsFrom mech index wCritType start = fst :: more) :
    Ammo.findFirstWeaponCrit mech.toMech index wSlot wCritType wMaxCrits (depth + 1) start =
      if wMaxCrits < (fst :: more).length ∧ fst.val + wMaxCrits ≤ wSlot.val then
        Ammo.findFirstWeaponCrit mech.toMech index wSlot wCritType wMaxCrits depth
          (fst.val + wMaxCrits)
      else some (some fst) := by
  have low : ¬ (fst.val : Int) + wMaxCrits < 0 := by omega
  unfold critsFrom at crits
  rw [Ammo.findFirstWeaponCrit]
  simp only [crits, head?_cons, map_some, getD_some, if_neg low]

theorem findFirstWeaponCrit_tiling {t : Nat} {loops : List Critical}
    (tiling : Tiling (kindAt mech index) (getWeaponCrits mechWeapons mech.toMech) loops groups)
    {group : List Critical} (mem : group ∈ groups) {wSlot : Critical} (within : wSlot ∈ group)
    (type : kindAt mech index wSlot = some (weapon2I t)) {begin : Nat}
    (places : loops.map Fin.val = List.range' begin loops.length) {start : Int}
    (low : start ≤ begin) (crits : critsFrom mech index t start =
      loops.filter fun crit => kindAt mech index crit = some (weapon2I t))
    {depth : Nat} (deep : groups.length ≤ depth) :
    Ammo.findFirstWeaponCrit mech.toMech index wSlot t
      (getWeaponCrits mechWeapons mech.toMech (weapon2I t)) depth start = some group.head? := by
  induction tiling generalizing begin start depth with
  | nil => exact absurd mem not_mem_nil
  | @skip a rest blocks plain later ih =>
    rw [map_cons, length_cons, range'_succ] at places
    rw [filter_cons_of_neg (by simp [plain])] at crits
    exact ih mem (cons.inj places).2 (low.trans (by omega)) crits deep
  | @block k fst more rest blocks kinds full later ih =>
    have whole := places
    rw [map_append, length_append, ← range'_append_1] at places
    have parts := append_inj places (by simp)
    have tail := parts.2
    by_cases eq : k = weapon2I t
    · -- slots of the type begin with this weapon
      subst eq
      have all : (fst :: more).filter
          (fun crit => decide (kindAt mech index crit = some (weapon2I t))) = fst :: more :=
        filter_eq_self.mpr fun crit hin => decide_eq_true (kinds crit hin)
      have slots : 0 < getWeaponCrits mechWeapons mech.toMech (weapon2I t) := by
        rw [← full, length_cons]
        omega
      have here : fst.val = begin := by
        have := parts.1
        rw [length_cons, range'_succ, map_cons] at this
        exact (cons.inj this).1
      rw [filter_append, all, cons_append] at crits
      obtain ⟨depth, rfl⟩ : ∃ d, depth = d + 1 := ⟨depth - 1, by
        rw [length_cons] at deep
        omega⟩
      rw [findFirstWeaponCrit_cons slots crits]
      have inRange : ∀ crit ∈ fst :: more, crit.val < begin + (fst :: more).length :=
        fun crit hin => by
          have := parts.1 ▸ mem_map_of_mem (f := Fin.val) hin
          exact (mem_range'_1.mp this).2
      rcases mem_cons.mp mem with rfl | further
      · rw [if_neg fun again => ?_]
        · rfl
        · have := inRange wSlot within
          omega
      · -- the slot is one of a later weapon
        have inLater : wSlot ∈ rest := by
          have : wSlot ∈ blocks.flatten := mem_flatten.mpr ⟨group, further, within⟩
          rw [later.flatten] at this
          exact (mem_filter.mp this).1
        have laterRange : ∀ crit ∈ rest, begin + (fst :: more).length ≤ crit.val :=
          fun crit hin => by
            have := tail ▸ mem_map_of_mem (f := Fin.val) hin
            exact (mem_range'_1.mp this).1
        have beyond := laterRange wSlot inLater
        have more' : 0 < (rest.filter fun crit =>
            decide (kindAt mech index crit = some (weapon2I t))).length :=
          length_pos_of_mem (mem_filter.mpr ⟨inLater, decide_eq_true type⟩)
        rw [if_pos ⟨by rw [← full, ← cons_append, length_append]; omega, by omega⟩]
        refine ih further tail (by omega) ?_
          (Nat.le_of_succ_le_succ deep)
        have less : start ≤ fst.val + getWeaponCrits mechWeapons mech.toMech (weapon2I t) := by
          omega
        rw [critsFrom_critsFrom less, crits, ← cons_append,
          filter_append, filter_eq_nil_iff.mpr fun crit hin => ?_, nil_append,
          filter_eq_self.mpr fun crit hin => ?_]
        · have := laterRange crit (mem_filter.mp hin).1
          exact decide_eq_true (by omega)
        · have := inRange crit hin
          rw [decide_eq_true_eq]
          omega
    · have none : (fst :: more).filter
          (fun crit => decide (kindAt mech index crit = some (weapon2I t))) = [] :=
        filter_eq_nil_iff.mpr fun crit hin => by
          rw [kinds crit hin]
          simpa using eq
      rw [filter_append, none, nil_append] at crits
      rcases mem_cons.mp mem with rfl | further
      · exact absurd (some.inj ((kinds wSlot within).symm.trans type)) eq
      · exact ih further tail (low.trans (by omega)) crits
          ((Nat.le_succ _).trans deep)

theorem findFirstWeaponCrit_group
    (grouped : Grouped mechWeapons mech index groups) {group : List Critical}
    (mem : group ∈ groups) {wSlot : Critical} (within : wSlot ∈ group) :
    Ammo.findFirstWeaponCrit mech.toMech index wSlot (mech.criticals (index, wSlot)).type.toNat
      (getWeaponCrits mechWeapons mech.toMech
        (weapon2I (mech.criticals (index, wSlot)).type.toNat)) 13 0 = some group.head? := by
  obtain ⟨k, fst, more, rfl, kinds, full⟩ := grouped.of_mem mem
  obtain ⟨weapon, rfl⟩ := kindAt_eq_some.mp (kinds wSlot within)
  have places : (List.finRange 12).map Fin.val = List.range' 0 (List.finRange 12).length := by
    decide
  refine findFirstWeaponCrit_tiling grouped mem within (kinds wSlot within) places
    (Int.le_refl 0) ?_ (grouped.length_le.trans (by decide))
  refine filter_congr fun crit _ => ?_
  rw [decide_eq_true (Int.natCast_nonneg crit.val), Bool.true_and, Bool.beq_eq_decide_eq,
    decide_eq_decide]
  exact type_eq_iff weapon crit

end

open Ammo (Section Critical Place CriticalSlot Weapon getWeaponCrits weapon2I)

variable {mechWeapons : Int → Weapon} {mech : Mech} {groups : Section → List (List Critical)}

def firstSlot (entry : Section × Nat × List Critical) : Place := (entry.1, entry.2.2.headD 0)

def numberSlot (entry : Section × Nat × List Critical) : Place := (entry.1, Fin.ofNat 12 entry.2.1)

def weaponOf (mech : Mech) (entry : Section × Nat × List Critical) : Int :=
  weapon2I (mech.criticals (firstSlot entry)).type.toNat

structure Consistent (mechWeapons : Int → Weapon) (mech : Mech)
    (groups : Section → List (List Critical)) : Prop where
  /-- `FindWeaponNumberOnMech_Advanced` goes to the first slot of the group with the number. -/
  numbered : ∀ number sight, findWeaponNumberOnMechAdvanced mechWeapons mech number sight =
    match (allGroups groups)[number]? with
    | some entry => (ticNum mechWeapons mech sight entry.1 (noted mech entry.1 entry.2.2),
        some (firstSlot entry))
    | none => (-1, none)
  /-- `FindWeaponIndex` gives the weapon of the group with the number. -/
  indexed : ∀ number : Nat, findWeaponIndex mechWeapons mech number =
    (((allGroups groups)[number]?).map (weaponOf mech)).getD (-1)
  /-- `FindWeaponFromIndex` names the first slot of a group of the weapon, which can be used. -/
  found : ∀ weapindx place, findWeaponFromIndex mechWeapons mech weapindx = some place →
    (∃ entry ∈ allGroups groups, weaponOf mech entry = weapindx ∧ firstSlot entry = place) ∧
      isReady mech place = true
  /-- `FindFirstWeaponCrit` comes from each slot of a group to its first slot, whatever state the
  slots are in. -/
  firstCrit : ∀ index, ∀ group ∈ groups index, ∀ wSlot ∈ group,
    Ammo.findFirstWeaponCrit mech.toMech index wSlot (mech.criticals (index, wSlot)).type.toNat
      (getWeaponCrits mechWeapons mech.toMech
        (weapon2I (mech.criticals (index, wSlot)).type.toNat)) 13 0 = some group.head?

/-- The slot that `FindWeaponFromIndex` asks speaks for the weapon: when it has passed over the
earlier groups of a weapon and the slot with a group's number is ready, so is the group. -/
def NumbersSpeak (mech : Mech) (groups : Section → List (List Critical)) : Prop :=
  ∀ before entry after, allGroups groups = before ++ entry :: after →
    (∀ earlier ∈ before, weaponOf mech earlier = weaponOf mech entry →
      isReady mech (numberSlot earlier) = false) →
    isReady mech (numberSlot entry) = true → isReady mech (firstSlot entry) = true

section

variable (layout : Layout mechWeapons mech groups)
include layout

theorem findWeaponFromIndex_eq_some {weapindx : Int} {place : Place} :
    findWeaponFromIndex mechWeapons mech weapindx = some place ↔
      ∃ pre e post, allGroups groups = pre ++ e :: post ∧
        weaponOf mech e = weapindx ∧ firstSlot e = place ∧
        isReady mech (numberSlot e) = true ∧
        ∀ earlier ∈ pre, weaponOf mech earlier = weapindx →
          isReady mech (numberSlot earlier) = false := by
  have searched : findWeaponFromIndex mechWeapons mech weapindx =
      ((allGroups groups).find? fun e =>
        decide (weaponOf mech e = weapindx ∧ isReady mech (numberSlot e) = true)).map
          firstSlot := by
    rw [findWeaponFromIndex, listing_eq layout, List.find?_filter, List.find?_map, Option.map_map]
    simp only [decide_eq_true_eq]
    rfl
  simp only [searched, Option.map_eq_some_iff, List.find?_eq_some_iff_append, decide_eq_true_eq,
    Bool.not_eq_true', decide_eq_false_iff_not, not_and, Bool.not_eq_true]
  constructor
  · rintro ⟨e, ⟨⟨weapon, ready⟩, pre, post, whole, passed⟩, fst⟩
    exact ⟨pre, e, post, whole, weapon, fst, ready, passed⟩
  · rintro ⟨pre, e, post, whole, weapon, fst, ready, passed⟩
    exact ⟨e, ⟨⟨weapon, ready⟩, pre, post, whole, passed⟩, fst⟩

theorem findWeaponNumberOnMechAdvanced_eq (number : Nat) (sight : Bool) :
    findWeaponNumberOnMechAdvanced mechWeapons mech number sight =
      match (allGroups groups)[number]? with
      | some e => (ticNum mechWeapons mech sight e.1 (noted mech e.1 e.2.2),
          some (firstSlot e))
      | none => (-1, none) := by
  rw [findWeaponNumberOnMechAdvanced, numbered_groups layout]
  cases (allGroups groups)[number]? <;> rfl

theorem findWeaponIndex_eq (number : Nat) :
    findWeaponIndex mechWeapons mech number =
      (((allGroups groups)[number]?).map (weaponOf mech)).getD (-1) := by
  rw [findWeaponIndex, if_neg (Int.not_lt.mpr (Int.natCast_nonneg number)), Int.toNat_natCast,
    numbered_groups layout]
  cases (allGroups groups)[number]? <;> rfl

end

/-- The weapons are numbered alike everywhere if and only if numbers speak for their groups. -/
theorem consistent_iff (layout : Layout mechWeapons mech groups) :
    Consistent mechWeapons mech groups ↔ NumbersSpeak mech groups := by
  constructor
  · intro consistent before entry after whole passed ready
    exact (consistent.found _ _ ((findWeaponFromIndex_eq_some layout).mpr
      ⟨before, entry, after, whole, rfl, rfl, ready, passed⟩)).2
  · intro speak
    refine ⟨findWeaponNumberOnMechAdvanced_eq layout, findWeaponIndex_eq layout,
      fun weapindx place found => ?_, fun index group member wSlot within =>
        findFirstWeaponCrit_group (layout index) member within⟩
    obtain ⟨before, entry, after, whole, rfl, rfl, ready, passed⟩ :=
      (findWeaponFromIndex_eq_some layout).mp found
    exact ⟨⟨entry, by rw [whole]; simp, rfl, rfl⟩, speak before entry after whole passed ready⟩

/-! ## One weapon -/

def twoSlots : Int → Weapon := fun _ => ⟨.beam, 2, 0, 0⟩

/-- A mech with a weapon in two slots of the first section. -/
def oneWeapon (first : Critical) (firemode : BitVec 32) : Mech where
  isMech := true
  criticals := fun place =>
    if place = (0, first) ∨ place = (0, first + 1) then ⟨0, 5, firemode, 0, none⟩
    else ⟨0, 0, 0, 0, none⟩
  brand := fun _ => 0
  weapDamageFlags := fun _ => 0
  isGroundVehicle := false
  recycle := fun _ => false
  sectIsDestroyed := fun _ => false

def oneGroup (first : Critical) : Section → List (List Critical) :=
  fun index => if index = 0 then [[first, first + 1]] else []

theorem layout_oneWeapon_zero : Layout twoSlots (oneWeapon 0 0) (oneGroup 0) := by
  intro index
  by_cases here : index = 0
  · subst here
    exact @Tiling.block _ _ (kindAt (oneWeapon 0 0) 0) _ 4 0 [1] [2, 3, 4, 5, 6, 7, 8, 9, 10, 11] []
      (by decide) rfl (.of_none (by decide))
  · rw [oneGroup, if_neg here]
    refine .of_none fun loop _ => kindAt_eq_none.mpr ?_
    simp [oneWeapon, here, isWeapon, Ammo.weaponBaseIndex]

theorem layout_oneWeapon_two :
    Layout twoSlots (oneWeapon 2 Ammo.destroyedMode) (oneGroup 2) := by
  intro index
  by_cases here : index = 0
  · subst here
    exact .skip rfl (.skip rfl (@Tiling.block _ _ (kindAt (oneWeapon 2 Ammo.destroyedMode) 0) _ 4 2
      [3] [4, 5, 6, 7, 8, 9, 10, 11] [] (by decide) rfl (.of_none (by decide))))
  · rw [oneGroup, if_neg here]
    refine .of_none fun loop _ => kindAt_eq_none.mpr ?_
    simp [oneWeapon, here, isWeapon, Ammo.weaponBaseIndex]

/-- A weapon that begins in the slot of its number is found when it can be used. -/
theorem consistent_oneWeapon : Consistent twoSlots (oneWeapon 0 0) (oneGroup 0) :=
  (consistent_iff layout_oneWeapon_zero).mpr fun before entry after whole _ _ => by
    have only : entry ∈ allGroups (oneGroup 0) := by rw [whole]; simp
    obtain rfl : entry = (0, 0, [0, 1]) := List.mem_singleton.mp only
    decide

/-- A destroyed weapon in the third slot is found: the first slot, which is asked, is no part of
it. -/
theorem destroyed_is_found :
    Layout twoSlots (oneWeapon 2 Ammo.destroyedMode) (oneGroup 2) ∧
      ¬ Consistent twoSlots (oneWeapon 2 Ammo.destroyedMode) (oneGroup 2) :=
  ⟨layout_oneWeapon_two, fun consistent =>
    absurd (consistent.found 4 (0, 2) (by decide)).2 (by decide)⟩

end BattletechMux.Weapons
