/-
Module: BattletechMux.Characters.Experience
Purpose: What a sheet that has been stored is retrieved as; experience and its bonus in one number.
-/
import Mathlib.Algebra.Order.Ring.Int
import BattletechMux.Characters.Sheets

namespace BattletechMux.Characters

open Function (update)

/-! ## Parts of a sheet -/

theorem not_belongs_plain {i : Nat} (plain : i ∈ Stats.healthCodes ++ Stats.attrCodes)
    (flag : Bool) : Stats.belongs flag i = false := by
  obtain ⟨-, lives, skill, advantage⟩ := Stats.plain_codes i plain
  cases flag <;> simp [Stats.belongs, lives, skill, advantage]

theorem not_attr_of_health : ∀ i ∈ Stats.healthCodes, i ∉ Stats.attrCodes := by decide

theorem not_skill_of_adv {i : Nat} (adv : Stats.belongs false i = true) :
    Stats.belongs true i = false := by
  by_cases lives : i = livesNumber
  · subst lives
    decide
  · have kind : kindOf i = .advantage := by simpa [Stats.belongs, lives] using adv
    simp [Stats.belongs, kind]

namespace Modes

def covers (modes : Modes) (i : Nat) : Bool :=
  modes.health && decide (i ∈ Stats.healthCodes) || modes.attrs && decide (i ∈ Stats.attrCodes) ||
    modes.advs && Stats.belongs false i || modes.skills && Stats.belongs true i

def experienced (modes : Modes) (i : Nat) : Bool :=
  modes.advs && Stats.belongs false i || modes.skills && Stats.belongs true i

variable {modes : Modes} {i : Nat}

theorem covers_health (mine : i ∈ Stats.healthCodes) : modes.covers i = modes.health := by
  have plain := not_belongs_plain (List.mem_append_left Stats.attrCodes mine)
  simp [covers, mine, not_attr_of_health i mine, plain]

theorem covers_attr (mine : i ∈ Stats.attrCodes) : modes.covers i = modes.attrs := by
  have plain := not_belongs_plain (List.mem_append_right Stats.healthCodes mine)
  have health : i ∉ Stats.healthCodes := fun health => not_attr_of_health i health mine
  simp [covers, mine, health, plain]

theorem experienced_belongs {flag : Bool} (mine : Stats.belongs flag i = true) :
    modes.experienced i = if flag then modes.skills else modes.advs := by
  cases flag with
  | false => simp [experienced, mine, not_skill_of_adv mine]
  | true =>
    have adv : Stats.belongs false i = false :=
      Bool.eq_false_iff.mpr fun adv => absurd mine (by simp [not_skill_of_adv adv])
    simp [experienced, mine, adv]

theorem covers_belongs {flag : Bool} (mine : Stats.belongs flag i = true) :
    modes.covers i = if flag then modes.skills else modes.advs := by
  have plain : i ∉ Stats.healthCodes ++ Stats.attrCodes := fun plain =>
    absurd mine (by simp [not_belongs_plain plain])
  rw [List.mem_append, not_or] at plain
  rw [← experienced_belongs mine]
  simp [covers, experienced, plain]

end Modes

namespace Stats

variable {s s0 t : Stats} {modes : Modes}

def record (s : Stats) : Record where
  health := s.healthText
  skills := s.genericStoreStuff true
  attrs := s.attrsText
  advs := s.genericStoreStuff false

def kept (s : Stats) (modes : Modes) : Stats where
  values := fun i => if modes.covers i then s.values i else 0
  lastUse := fun i => if modes.experienced i ∧ s.xp i ≠ 0 then s.lastUse i else 0
  xp := fun i => if modes.experienced i then s.xp i else 0

def merged (s : Stats) (modes : Modes) (t : Stats) : Stats where
  values := fun i => if modes.covers i then t.values i else s.values i
  lastUse := fun i => if modes.experienced i then t.lastUse i else s.lastUse i
  xp := fun i => if modes.experienced i then t.xp i else s.xp i

theorem kept_values (s : Stats) (modes : Modes) (i : Nat) :
    (s.kept modes).values i = if modes.covers i then s.values i else 0 := rfl

theorem kept_xp (s : Stats) (modes : Modes) (i : Nat) :
    (s.kept modes).xp i = if modes.experienced i then s.xp i else 0 := rfl

theorem kept_lastUse (s : Stats) (modes : Modes) (i : Nat) :
    (s.kept modes).lastUse i = if modes.experienced i ∧ s.xp i ≠ 0 then s.lastUse i else 0 := rfl

theorem merged_values (s : Stats) (modes : Modes) (t : Stats) (i : Nat) :
    (s.merged modes t).values i = if modes.covers i then t.values i else s.values i := rfl

theorem merged_xp (s : Stats) (modes : Modes) (t : Stats) (i : Nat) :
    (s.merged modes t).xp i = if modes.experienced i then t.xp i else s.xp i := rfl

theorem merged_lastUse (s : Stats) (modes : Modes) (t : Stats) (i : Nat) :
    (s.merged modes t).lastUse i = if modes.experienced i then t.lastUse i else s.lastUse i := rfl

def withValues (s : Stats) (codes : List Nat) (s0 : Stats) : Stats :=
  { s0 with values := fun i => if i ∈ codes then s.values i else s0.values i }

/-! ## Retrieving -/

def afterAdvs (s : Stats) (modes : Modes) : Stats :=
  let s0 := if modes.health then s.withValues healthCodes zero else zero
  if modes.advs then s.overlay (belongs false) s0 else s0

def afterAttrs (s : Stats) (modes : Modes) : Stats :=
  if modes.attrs then s.withValues attrCodes (s.afterAdvs modes) else s.afterAdvs modes

theorem blank_health (s : Stats) (health : Bool) :
    Blank (belongs false) (if health then s.withValues healthCodes zero else zero) := by
  intro i adv
  have plain : i ∉ healthCodes := fun mine =>
    absurd adv (by simp [not_belongs_plain (List.mem_append_left attrCodes mine)])
  cases health <;> simp [withValues, plain, zero]

theorem blank_afterAttrs (s : Stats) (modes : Modes) :
    Blank (belongs true) (s.afterAttrs modes) := by
  intro i skill
  have plain : i ∉ healthCodes ∧ i ∉ attrCodes := by
    rw [← not_or, ← List.mem_append]
    exact fun mine => absurd skill (by simp [not_belongs_plain mine])
  have adv : belongs false i = false :=
    Bool.eq_false_iff.mpr fun adv => absurd skill (by simp [not_skill_of_adv adv])
  have advs : (s.afterAdvs modes).values i = 0 ∧ (s.afterAdvs modes).xp i = 0 ∧
      (s.afterAdvs modes).lastUse i = 0 := by
    rw [afterAdvs]
    cases modes.health <;> cases modes.advs <;> simp [overlay, withValues, zero, adv, plain]
  rw [afterAttrs]
  cases modes.attrs <;> simp [withValues, plain, advs]

theorem if_overlay (is : Bool) (s s0 : Stats) (part : Nat → Bool) :
    (if is then s.overlay part s0 else s0) = s.overlay (fun i => is && part i) s0 := by
  cases is <;> rfl

theorem if_withValues (is : Bool) (s s0 : Stats) (codes : List Nat) :
    (if is then s.withValues codes s0 else s0) =
      { s0 with values := fun i => if is && decide (i ∈ codes) then s.values i else s0.values i } := by
  cases is <;> simp [withValues]

theorem kept_eq (s : Stats) (modes : Modes) :
    (if modes.skills then s.overlay (belongs true) (s.afterAttrs modes) else s.afterAttrs modes) =
      s.kept modes := by
  rw [afterAttrs, afterAdvs]
  simp only [if_overlay, if_withValues]
  ext i
  · simp only [overlay, kept, Modes.covers, zero]
    grind
  · simp only [overlay, kept, Modes.experienced, zero]
    grind
  · simp only [overlay, kept, Modes.experienced, zero]
    grind

end Stats

namespace Game

variable {g : Game} {player : Dbref} {s : Stats} {modes : Modes}

theorem retrieveHealth_written (written : g.record player = s.record) (s0 : Stats) :
    g.retrieveHealth player s0 = (g, s.withValues Stats.healthCodes s0) := by
  have numbers := Stats.scanInts_healthText s
  rw [retrieveHealth, written, Stats.record]
  simp only [numbers, Stats.svalue_plain (show ("Bruise", 6) ∈ named by decide) (by decide),
    Stats.svalue_plain (show ("Lethal", 7) ∈ named by decide) (by decide)]
  congr 1
  ext i
  · simp only [Stats.withValues, Function.update_apply, Stats.healthCodes]
    grind
  · rfl
  · rfl

theorem retrieveAttrs_written (written : g.record player = s.record) (s0 : Stats) :
    g.retrieveAttrs player s0 = (g, s.withValues Stats.attrCodes s0) := by
  have numbers := Stats.scanInts_attrsText s
  rw [retrieveAttrs, written, Stats.record]
  simp only [numbers, Stats.svalue_plain (show ("Build", 25) ∈ named by decide) (by decide),
    Stats.svalue_plain (show ("Reflexes", 26) ∈ named by decide) (by decide),
    Stats.svalue_plain (show ("Intuition", 27) ∈ named by decide) (by decide),
    Stats.svalue_plain (show ("Learn", 28) ∈ named by decide) (by decide),
    Stats.svalue_plain (show ("Charisma", 29) ∈ named by decide) (by decide)]
  congr 1
  ext i
  · simp only [Stats.withValues, Function.update_apply, Stats.attrCodes]
    grind
  · rfl
  · rfl

theorem retrieveStats_written (written : g.record player = s.record) (clean : s.Clean)
    (modes : Modes) : g.retrieveStats player modes = (g, s.kept modes) := by
  have health : (if modes.health then g.retrieveHealth player Stats.zero else (g, Stats.zero)) =
      (g, if modes.health then s.withValues Stats.healthCodes Stats.zero else Stats.zero) := by
    rw [retrieveHealth_written written]
    split_ifs <;> rfl
  have advs : (if modes.advs then
      (if modes.health then s.withValues Stats.healthCodes Stats.zero
        else Stats.zero).genericRetrieveStuff (g.record player).advs
      else if modes.health then s.withValues Stats.healthCodes Stats.zero else Stats.zero) =
      s.afterAdvs modes := by
    rw [written, Stats.record,
      Stats.genericRetrieveStuff_written (by simp) (Stats.blank_health s modes.health)]
    rfl
  have attrs : (if modes.attrs then g.retrieveAttrs player (s.afterAdvs modes)
      else (g, s.afterAdvs modes)) = (g, s.afterAttrs modes) := by
    rw [retrieveAttrs_written written, Stats.afterAttrs]
    split_ifs <;> rfl
  have skills : (if modes.skills then
      (s.afterAttrs modes).genericRetrieveStuff (g.record player).skills
      else s.afterAttrs modes) = s.kept modes := by
    rw [written, Stats.record, Stats.genericRetrieveStuff_written (fun _ => clean)
      (Stats.blank_afterAttrs s modes), Stats.kept_eq]
  rw [retrieveStats, health]
  simp only [advs, attrs, skills]

end Game

/-! ## Storing -/

namespace Stats

variable {s t : Stats} {modes : Modes}

theorem merged_value {i : Nat} {is : Bool} (covers : modes.covers i = is) :
    (s.merged modes t).values i = if is then t.values i else s.values i := by
  rw [← covers, merged]

theorem healthText_merged :
    (s.merged modes t).healthText = if modes.health then t.healthText else s.healthText := by
  simp only [healthText_eq, merged_value (Modes.covers_health (show 6 ∈ healthCodes by decide)),
    merged_value (Modes.covers_health (show 7 ∈ healthCodes by decide))]
  cases modes.health <;> rfl

theorem attrsText_merged :
    (s.merged modes t).attrsText = if modes.attrs then t.attrsText else s.attrsText := by
  simp only [attrsText_eq, merged_value (Modes.covers_attr (show 25 ∈ attrCodes by decide)),
    merged_value (Modes.covers_attr (show 26 ∈ attrCodes by decide)),
    merged_value (Modes.covers_attr (show 27 ∈ attrCodes by decide)),
    merged_value (Modes.covers_attr (show 28 ∈ attrCodes by decide)),
    merged_value (Modes.covers_attr (show 29 ∈ attrCodes by decide))]
  cases modes.attrs <;> rfl

theorem genericStoreStuff_merged (flag : Bool) : (s.merged modes t).genericStoreStuff flag =
    if (if flag then modes.skills else modes.advs) then t.genericStoreStuff flag
      else s.genericStoreStuff flag := by
  rw [← apply_ite fun u => genericStoreStuff u flag]
  refine genericStoreStuff_congr fun i mine => ?_
  simp only [merged, Modes.covers_belongs mine, Modes.experienced_belongs mine]
  cases (if flag then modes.skills else modes.advs) <;> simp

theorem record_merged : (s.merged modes t).record =
    { health := if modes.health then t.healthText else s.healthText
      skills := if modes.skills then t.genericStoreStuff true else s.genericStoreStuff true
      attrs := if modes.attrs then t.attrsText else s.attrsText
      advs := if modes.advs then t.genericStoreStuff false else s.genericStoreStuff false } := by
  rw [record, healthText_merged, attrsText_merged, genericStoreStuff_merged,
    genericStoreStuff_merged]
  rfl

end Stats

namespace Game

variable {g : Game} {player other : Dbref} {s : Stats}

theorem storeStats_written (is : g.isPlayer player = true) (written : g.record player = s.record)
    (t : Stats) (modes : Modes) :
    (g.storeStats player t modes).record player = (s.merged modes t).record := by
  rw [Stats.record_merged, storeStats, if_pos is, written]
  simp only [setRecord, Function.update_self, Stats.record]
  rcases modes with ⟨_ | _, _ | _, _ | _, _ | _⟩ <;> rfl

theorem storeStats_other (apart : other ≠ player) (t : Stats) (modes : Modes) :
    (g.storeStats player t modes).record other = g.record other := by
  by_cases is : g.isPlayer player = true
  · rw [storeStats, if_pos is]
    exact Function.update_of_ne apart _ _
  · rw [storeStats, if_neg is]

theorem storeStats_rest (g : Game) (player : Dbref) (t : Stats) (modes : Modes) :
    let next := g.storeStats player t modes
    next.isPlayer = g.isPlayer ∧ next.now = g.now ∧ next.cachedSkill = g.cachedSkill ∧
      next.cachedResult = g.cachedResult ∧
      (next.cachedTargetChar = g.cachedTargetChar ∨ next.cachedTargetChar = -1) := by
  by_cases is : g.isPlayer player = true
  · rw [storeStats, if_pos is]
    refine ⟨rfl, rfl, rfl, rfl, ?_⟩
    by_cases mine : ((modes.advs || modes.skills) && player == g.cachedTargetChar) = true
    · exact .inr (if_pos mine)
    · exact .inl (if_neg mine)
  · rw [storeStats, if_neg is]
    exact ⟨rfl, rfl, rfl, rfl, .inl rfl⟩

theorem storeStats_drops (is : g.isPlayer player = true) {modes : Modes}
    (drops : modes.advs = true ∨ modes.skills = true) (t : Stats) (mine : player ≠ -1) :
    (g.storeStats player t modes).cachedTargetChar ≠ player := by
  have part : (modes.advs || modes.skills) = true := by simpa using drops
  rw [storeStats, if_pos is]
  simp only [part, Bool.true_and]
  split_ifs with cached
  · exact Ne.symm mine
  · exact fun same => cached (beq_iff_eq.mpr same.symm)

end Game

theorem xpMax_eq : xpMax = 16777216 := by decide

namespace Stats

variable {s t : Stats} {code : Nat} {amount total bonus : Int}

/-! ## The bonus -/

theorem bonusLevels_bounds {levels : Nat} (times : Nat) {tx t : Int} (low : 1 ≤ t)
    (small : tx < xpMax) (enough : tx < t * 2 ^ levels) :
    0 ≤ bonusLevels times tx t ∧ bonusLevels times tx t ≤ levels := by
  rw [xpMax_eq] at small
  induction times generalizing tx t levels with
  | zero => exact ⟨Int.le_refl _, Int.natCast_nonneg _⟩
  | succ times ih =>
    rw [bonusLevels]
    split_ifs with more
    · cases levels with
      | zero => omega
      | succ levels =>
        have power : t ≤ t * 2 ^ levels :=
          le_mul_of_one_le_right (by omega) (one_le_pow₀ (by omega))
        have kept : (t * 3).bmod (2 ^ 32) = t * 3 := by
          apply Int.bmod_eq_of_le <;> omega
        rw [pow_succ] at enough
        have next : tx - t < t * 3 * 2 ^ levels := by lia
        have rest := ih (show 1 ≤ t * 3 by omega) (by omega) next
        rw [kept]
        omega
    · exact ⟨Int.le_refl _, Int.natCast_nonneg _⟩

def experience (s : Stats) (code : Nat) : Int := (s.xp code).toInt.tmod xpMax

theorem experience_lt (s : Stats) (code : Nat) : s.experience code < xpMax :=
  Int.tmod_lt_of_pos _ (by decide)

theorem figureXpBonus_bounds (s : Stats) (code : Nat) :
    0 ≤ s.figureXpBonus code ∧ s.figureXpBonus code ≤ 24 := by
  rw [figureXpBonus]
  split_ifs with threshold
  · omega
  · have least (t : Int) : 1 ≤ if t < 1 then 1 else t := by split_ifs <;> omega
    have power (t : Int) : 2 ^ 24 ≤ (if t < 1 then 1 else t) * 2 ^ 24 :=
      le_mul_of_one_le_left (by decide) (least t)
    exact bonusLevels_bounds _ (least _) (s.experience_lt code)
      (lt_of_lt_of_le (s.experience_lt code) (power _))

theorem figureXpBonus_zero (none : s.experience code = 0) : s.figureXpBonus code = 0 := by
  rw [experience] at none
  simp only [figureXpBonus, none, Int.toNat_zero, bonusLevels, ite_self]

/-! ## Experience and bonus in one number -/

def packed (total bonus : Int) : BitVec 32 := BitVec.ofInt 32 (total + xpMax * bonus)

section

variable (low : 0 ≤ total) (high : total < xpMax) (least : 0 ≤ bonus)
include low high least

theorem packed_toInt (most : bonus ≤ 24) : (packed total bonus).toInt = total + xpMax * bonus := by
  rw [xpMax_eq] at high
  rw [packed, BitVec.toInt_ofInt, xpMax_eq]
  apply Int.bmod_eq_of_le <;> omega

theorem packed_tmod (most : bonus ≤ 24) : (packed total bonus).toInt.tmod xpMax = total := by
  rw [packed_toInt low high least most, xpMax_eq] at *
  rw [Int.tmod_eq_emod_of_nonneg (by omega)]
  omega

theorem packed_tdiv (most : bonus ≤ 24) : (packed total bonus).toInt.tdiv xpMax = bonus := by
  rw [packed_toInt low high least most, xpMax_eq] at *
  rw [Int.tdiv_eq_ediv_of_nonneg (by omega)]
  omega

end

theorem packed_eq (s : Stats) (code : Nat) :
    packed (s.experience code) (s.charXpBonus code) = s.xp code := by
  rw [packed, experience, charXpBonus, Int.tmod_add_mul_tdiv, BitVec.ofInt_toInt]

theorem experience_add (least : 0 ≤ (s.xp code).toInt) (more : 0 ≤ amount)
    (high : s.experience code + amount < xpMax) :
    (s.xp code + BitVec.ofInt 32 amount).toInt.tmod xpMax = s.experience code + amount := by
  have limit := (s.xp code).toInt_lt
  rw [experience, xpMax_eq, Int.tmod_eq_emod_of_nonneg least] at *
  have sum : (s.xp code + BitVec.ofInt 32 amount).toInt = (s.xp code).toInt + amount := by
    rw [BitVec.toInt_add, BitVec.toInt_ofInt, Int.add_bmod_bmod]
    apply Int.bmod_eq_of_le <;> omega
  rw [sum, Int.tmod_eq_emod_of_nonneg (by omega)]
  omega

/-! ## What bonus and target depend on -/

theorem skillBase_congr (same : ∀ i ∈ attrCodes, s.values i = t.values i) (code : Nat) :
    s.skillBase code = t.skillBase code := by
  have value {name : String} {i : Nat} (entry : (name, i) ∈ named) (mine : i ∈ attrCodes) :
      s.gvalue name = t.gvalue name := by
    have plain := List.mem_append_right healthCodes mine
    rw [gvalue_plain entry plain, gvalue_plain entry plain, same i mine]
  rw [skillBase, skillBase, value (show ("build", 25) ∈ named by decide) (by decide),
    value (show ("reflexes", 26) ∈ named by decide) (by decide),
    value (show ("intuition", 27) ∈ named by decide) (by decide),
    value (show ("learn", 28) ∈ named by decide) (by decide),
    value (show ("charisma", 29) ∈ named by decide) (by decide)]

theorem skillBase_xp (s : Stats) (xp : Nat → BitVec 32) (code : Nat) :
    { s with xp := xp }.skillBase code = s.skillBase code := by
  have same : ∀ i ∈ attrCodes, ({ s with xp := xp } : Stats).values i = s.values i := fun _ _ => rfl
  exact skillBase_congr same code

theorem figureXpBonus_congr (base : s.skillBase code = t.skillBase code)
    (value : s.values code = t.values code) (same : s.experience code = t.experience code) :
    s.figureXpBonus code = t.figureXpBonus code := by
  have target : s.noxpTarget code = t.noxpTarget code := by
    rw [noxpTarget, noxpTarget, base, value]
  rw [experience, experience] at same
  simp only [figureXpBonus, target, same]

def target (s : Stats) (code : Nat) (modifier : Int) : Int :=
  if kindOf code ≠ .skill then 18
  else match s.skillBase code with
  | none => 18
  | some val =>
    if s.getstatvaluebycode code = -1 then 18
    else 18 - val - s.getstatvaluebycode code + modifier

theorem target_congr (base : s.skillBase code = t.skillBase code)
    (value : s.values code = t.values code) (xp : s.xp code = t.xp code) (modifier : Int) :
    s.target code modifier = t.target code modifier := by
  have skill : s.getstatvaluebycode code = t.getstatvaluebycode code := by
    rw [getstatvaluebycode, getstatvaluebycode, charXpBonus, charXpBonus, value, xp]
  rw [target, target, base, skill]

/-! ## Gains -/

def levels (s : Stats) (code : Nat) (total : Int) : Int :=
  { s with xp := update s.xp code (BitVec.ofInt 32 total) }.figureXpBonus code

theorem gainedXp_def (s : Stats) (code : Nat) (amount : Int) :
    s.gainedXp code amount =
      packed ((s.xp code + BitVec.ofInt 32 amount).toInt.tmod xpMax)
        ({ s with xp := update s.xp code (s.xp code + BitVec.ofInt 32 amount) }.figureXpBonus
          code) := by
  simp only [gainedXp, packed, Function.update_self]

theorem levels_eq (low : 0 ≤ total) (high : total < xpMax) {v : BitVec 32}
    (same : v.toInt.tmod xpMax = total) :
    { s with xp := update s.xp code v }.figureXpBonus code = s.levels code total := by
  have unpacked := packed_tmod low high (Int.le_refl 0) (by decide)
  rw [packed, mul_zero, add_zero] at unpacked
  refine figureXpBonus_congr ((skillBase_xp s _ code).trans (skillBase_xp s _ code).symm) rfl ?_
  simp only [experience, Function.update_self, same, unpacked]

theorem gainedXp_eq (least : 0 ≤ (s.xp code).toInt) (more : 0 ≤ amount)
    (high : s.experience code + amount < xpMax) :
    s.gainedXp code amount =
      packed (s.experience code + amount) (s.levels code (s.experience code + amount)) := by
  have positive : 0 ≤ s.experience code := Int.tmod_nonneg _ least
  have total := experience_add least more high
  rw [gainedXp_def, levels_eq (by omega) high total, total]

theorem gainedXp_congr (base : s.skillBase code = t.skillBase code)
    (value : s.values code = t.values code) (xp : s.xp code = t.xp code) (amount : Int) :
    s.gainedXp code amount = t.gainedXp code amount := by
  have bonus (v : BitVec 32) : { s with xp := update s.xp code v }.figureXpBonus code =
      { t with xp := update t.xp code v }.figureXpBonus code :=
    figureXpBonus_congr (((skillBase_xp s _ code).trans base).trans (skillBase_xp t _ code).symm)
      value (by simp [experience])
  rw [gainedXp_def, gainedXp_def, xp, bonus]

theorem gainedXp_zero (none : s.xp code = 0) : s.gainedXp code 0 = 0 := by
  have nothing : { s with xp := update s.xp code (s.xp code + BitVec.ofInt 32 0) }.figureXpBonus
      code = 0 := figureXpBonus_zero (by simp [experience, none])
  rw [gainedXp_def, nothing, none]
  decide

end Stats

end BattletechMux.Characters
