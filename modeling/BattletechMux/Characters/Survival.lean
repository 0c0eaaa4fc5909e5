/-
Module: BattletechMux.Characters.Survival
Purpose: A player's sheet over whole runs: what is retrieved is what has been set, and targets are
  those of the stored sheet, as long as no value is set that shares its short name or changes
  another, and attributes are not stored alone over a cached target.
-/
import BattletechMux.Characters.Experience

namespace BattletechMux.Characters

open Function (update)

/-! ## What sheets are for -/

/-- A sheet as players think of it: values, experience and its bonus, and when it was gained. -/
@[ext]
structure Sheet where
  values : Nat → Int
  experience : Nat → Int
  bonus : Nat → Int
  lastUse : Nat → BitVec 32

def Stats.sheet (s : Stats) : Sheet where
  values := fun i => (s.values i).toNat
  experience := s.experience
  bonus := s.charXpBonus
  lastUse := s.lastUse

namespace Sheet

def fresh : Sheet where
  values := fun i => if i = livesNumber ∨ kindOf i = .attribute then 1 else 0
  experience := fun _ => 0
  bonus := fun _ => 0
  lastUse := fun _ => 0

def stats (a : Sheet) : Stats where
  values := fun i => BitVec.ofInt 8 (a.values i)
  lastUse := a.lastUse
  xp := fun i => Stats.packed (a.experience i) (a.bonus i)

def set (a : Sheet) (code : Nat) (value : Int) : Sheet :=
  { a with values := update a.values code value }

def gain (a : Sheet) (code : Nat) (amount : Int) (now : BitVec 32) : Sheet :=
  let total := a.experience code + amount
  { a with
    experience := update a.experience code total
    bonus := update a.bonus code (a.stats.levels code total)
    lastUse := update a.lastUse code now }

def replace (a : Sheet) (modes : Modes) (t : Sheet) : Sheet where
  values := fun i => if modes.covers i then t.values i else a.values i
  experience := fun i => if modes.experienced i then t.experience i else a.experience i
  bonus := fun i => if modes.experienced i then t.bonus i else a.bonus i
  lastUse := fun i => if modes.experienced i then t.lastUse i else a.lastUse i

def after (player : Dbref) (g : Game) (a : Sheet) : Op → Sheet
  | .set p code value => if p = player then a.set code value else a
  | .gain p code amount =>
    if p = player ∧ kindOf code = .skill ∧ g.mayGain (a.stats.kept valuesCo) code = true then
      a.gain code amount g.now
    else a
  | .store p retrieve change modes =>
    if p = player then a.replace modes (change (a.stats.kept retrieve)).sheet else a
  | .target _ _ _ => a
  | .time _ => a

end Sheet

def Op.Allowed (player : Dbref) (a : Sheet) : Op → Prop
  | .set p _ value => p = player → 0 ≤ value ∧ value ≤ 255
  | .gain p code amount => p = player → kindOf code = .skill →
      0 ≤ amount ∧ 0 ≤ a.experience code ∧ 0 ≤ a.bonus code ∧ a.experience code + amount < xpMax
  | .store p retrieve _ modes => p = player →
      (modes.health = true → retrieve.health = true) ∧
        (modes.skills = true → retrieve.skills = true) ∧
        (modes.attrs = true → retrieve.attrs = true) ∧ (modes.advs = true → retrieve.advs = true)
  | .target _ _ _ => True
  | .time _ => True

/-- Nothing is set that has the short name of another value or changes one, and attributes are not
stored alone when that changes what the cached target is made of. -/
def Op.Settled (player : Dbref) (g : Game) (a : Sheet) : Op → Prop
  | .set p code value => p = player →
      (code = eeNumber → value = a.values code) ∧ (code ∈ shadowed → value = 0)
  | .gain p code amount => p = player → code ∈ shadowed →
      g.mayGain (a.stats.kept valuesCo) code = true → amount = 0
  | .store p retrieve change modes => p = player →
      (modes.skills = true → (change (a.stats.kept retrieve)).Clean) ∧
        (modes.attrs = true → modes.advs = false → modes.skills = false →
          g.cachedTargetChar = player →
          (change (a.stats.kept retrieve)).skillBase g.cachedSkill =
            a.stats.skillBase g.cachedSkill)
  | .target _ _ _ => True
  | .time _ => True

structure Start (player : Dbref) (g : Game) : Prop where
  isPlayer : g.isPlayer player = true
  real : 0 ≤ player
  stored : g.record player = Stats.createNewStats.record
  cached : g.cachedTargetChar ≠ player

inductive Reached (player : Dbref) (start : Game) : Game → Sheet → Prop
  | start : Reached player start start Sheet.fresh
  | step {g : Game} {a : Sheet} (reached : Reached player start g a) (op : Op)
      (allowed : op.Allowed player a) (settled : op.Settled player g a) :
      Reached player start (g.step op) (a.after player g op)

/-- What retrieve_stats and char_getskilltargetbycode give is what the sheet says. -/
structure Holds (player : Dbref) (g : Game) (a : Sheet) : Prop where
  values : ∀ code, valuesAll.covers code = true →
    ((g.retrieveStats player valuesAll).2.values code).toNat = a.values code
  experience : ∀ code, kindOf code = .skill → g.charGetxpbycode player code = a.experience code
  bonus : ∀ code, kindOf code = .skill →
    (g.retrieveStats player valuesAll).2.charXpBonus code = a.bonus code
  lastUse : ∀ code, kindOf code = .skill → a.experience code ≠ 0 →
    (g.retrieveStats player valuesAll).2.lastUse code = a.lastUse code
  target : ∀ code modifier,
    (g.charGetskilltargetbycode player code modifier).2 = a.stats.target code modifier

/-! ## Sheets in memory -/

namespace Stats

variable {s t : Stats} {modes : Modes}

theorem stats_sheet (s : Stats) : s.sheet.stats = s := by
  ext i
  · simp [sheet, Sheet.stats]
  · rfl
  · simp only [sheet, Sheet.stats, packed_eq]

theorem sheet_merged : (s.merged modes t).sheet = s.sheet.replace modes t.sheet := by
  ext i
  · simp only [sheet, merged, Sheet.replace]
    split_ifs <;> rfl
  · simp only [sheet, merged, Sheet.replace, experience]
    split_ifs <;> rfl
  · simp only [sheet, merged, Sheet.replace, charXpBonus]
    split_ifs <;> rfl
  · simp only [sheet, merged, Sheet.replace]

structure SameStored (s t : Stats) : Prop where
  values : ∀ i, valuesAll.covers i = true → s.values i = t.values i
  xp : ∀ i, valuesAll.experienced i = true → s.xp i = t.xp i
  lastUse : ∀ i, valuesAll.experienced i = true → s.xp i ≠ 0 → s.lastUse i = t.lastUse i

theorem covers_of_belongs {flag : Bool} {i : Nat} (mine : belongs flag i = true) :
    valuesAll.covers i = true ∧ valuesAll.experienced i = true := by
  rw [Modes.covers_belongs mine, Modes.experienced_belongs mine]
  cases flag <;> decide

theorem record_congr (eq : SameStored s t) : s.record = t.record := by
  have part (flag : Bool) : s.genericStoreStuff flag = t.genericStoreStuff flag := by
    refine genericStoreStuff_congr fun i mine => ?_
    obtain ⟨covers, experienced⟩ := covers_of_belongs mine
    exact ⟨eq.values i covers, eq.xp i experienced, eq.lastUse i experienced⟩
  have health (i : Nat) (mine : i ∈ healthCodes) : s.values i = t.values i :=
    eq.values i (Modes.covers_health mine)
  have attr (i : Nat) (mine : i ∈ attrCodes) : s.values i = t.values i :=
    eq.values i (Modes.covers_attr mine)
  simp only [record, part, healthText_eq, attrsText_eq, health 6 (by decide), health 7 (by decide),
    attr 25 (by decide), attr 26 (by decide), attr 27 (by decide), attr 28 (by decide),
    attr 29 (by decide)]

theorem createNewStats_eq : createNewStats.sheet = Sheet.fresh ∧ createNewStats.Clean := by
  have lives : createNewStats =
      ⟨update (fun i => if kindOf i = .attribute then 1 else 0) livesNumber 1, fun _ => 0,
        fun _ => 0⟩ := by
    rw [createNewStats, svalue_named (show ("lives", 5) ∈ named by decide), setstatvaluebycode,
      if_neg (by decide)]
    rfl
  constructor
  · rw [lives]
    ext i
    · simp only [sheet, Sheet.fresh, Function.update_apply]
      split_ifs <;> simp_all
    · simp only [sheet, experience, Sheet.fresh]
      rfl
    · simp only [sheet, charXpBonus, Sheet.fresh]
      rfl
    · rfl
  · rw [lives, Clean]
    decide

end Stats

/-! ## The invariant -/

/-- The player's record is that of a sheet, and a target that is cached is that of the sheet. -/
structure Kept (player : Dbref) (g : Game) (s : Stats) : Prop where
  isPlayer : g.isPlayer player = true
  real : 0 ≤ player
  written : g.record player = s.record
  clean : s.Clean
  cached : g.cachedTargetChar = player → kindOf g.cachedSkill = .skill →
    ∀ modifier, g.cachedResult + modifier = s.target g.cachedSkill modifier

namespace Kept

variable {player other : Dbref} {g g' : Game} {s t : Stats} {modes : Modes} {code : Nat}

section

variable (kept : Kept player g s)
include kept

theorem ne_nothing : player ≠ -1 := by
  have := kept.real
  lia

theorem retrieved (modes : Modes) : g.retrieveStats player modes = (g, s.kept modes) :=
  Game.retrieveStats_written kept.written kept.clean modes

theorem congr (eq : Stats.SameStored s t) : Kept player g t := by
  have attr (i : Nat) (mine : i ∈ Stats.attrCodes) : s.values i = t.values i :=
    eq.values i (Modes.covers_attr mine)
  refine ⟨kept.isPlayer, kept.real, kept.written.trans (Stats.record_congr eq), ?_, ?_⟩
  · intro i shadow
    have mine : Stats.belongs true i = true := by
      revert i
      decide
    obtain ⟨covers, experienced⟩ := Stats.covers_of_belongs mine
    exact ⟨eq.values i covers ▸ (kept.clean i shadow).1,
      eq.xp i experienced ▸ (kept.clean i shadow).2⟩
  · intro mine skill modifier
    obtain ⟨covers, experienced⟩ :=
      Stats.covers_of_belongs (show Stats.belongs true g.cachedSkill = true by simp [Stats.belongs, skill])
    rw [kept.cached mine skill]
    exact Stats.target_congr (Stats.skillBase_congr attr _) (eq.values _ covers)
      (eq.xp _ experienced) modifier

theorem stored (t : Stats) (clean : (s.merged modes t).Clean)
    (base : modes.attrs = true → modes.advs = false → modes.skills = false →
      g.cachedTargetChar = player → t.skillBase g.cachedSkill = s.skillBase g.cachedSkill) :
    Kept player (g.storeStats player t modes) (s.merged modes t) := by
  obtain ⟨isPlayer, -, skill, result, char⟩ := g.storeStats_rest player t modes
  refine ⟨isPlayer ▸ kept.isPlayer, kept.real,
    Game.storeStats_written kept.isPlayer kept.written t modes, clean, ?_⟩
  intro mine isSkill modifier
  -- the target is still cached: neither advantages nor skills have been stored
  have parts : ¬ (modes.advs = true ∨ modes.skills = true) := fun drops =>
    Game.storeStats_drops kept.isPlayer drops t kept.ne_nothing mine
  rw [not_or, Bool.not_eq_true, Bool.not_eq_true] at parts
  have was : g.cachedTargetChar = player :=
    char.elim (fun eq => eq.symm.trans mine) fun none => absurd (mine.symm.trans none)
      kept.ne_nothing
  rw [skill] at isSkill ⊢
  rw [result, kept.cached was isSkill]
  have mem : Stats.belongs true g.cachedSkill = true := by simp [Stats.belongs, isSkill]
  have values : modes.covers g.cachedSkill = false := (Modes.covers_belongs mem).trans parts.2
  have experienced : modes.experienced g.cachedSkill = false :=
    (Modes.experienced_belongs mem).trans parts.2
  refine Stats.target_congr ?_ ?_ ?_ modifier
  · cases attrs : modes.attrs with
    | false =>
      refine Stats.skillBase_congr (fun i mine => ?_) _
      rw [Stats.merged_value ((Modes.covers_attr mine).trans attrs)]
      rfl
    | true =>
      rw [← base attrs parts.1 parts.2 was]
      refine Stats.skillBase_congr (fun i mine => ?_) _
      rw [Stats.merged_value ((Modes.covers_attr mine).trans attrs)]
      rfl
  · rw [Stats.merged_value values]
    rfl
  · simp [Stats.merged, experienced]

theorem frame (isPlayer : g'.isPlayer = g.isPlayer) (record : g'.record player = g.record player)
    (cache : g'.cachedTargetChar = player → g'.cachedTargetChar = g.cachedTargetChar ∧
      g'.cachedSkill = g.cachedSkill ∧ g'.cachedResult = g.cachedResult) : Kept player g' s := by
  refine ⟨isPlayer ▸ kept.isPlayer, kept.real, record.trans kept.written, kept.clean, ?_⟩
  intro mine
  obtain ⟨char, skill, result⟩ := cache mine
  rw [skill, result]
  exact kept.cached (char ▸ mine)

theorem storeOther (apart : other ≠ player) (t : Stats) (modes : Modes) :
    Kept player (g.storeStats other t modes) s := by
  obtain ⟨isPlayer, -, skill, result, char⟩ := g.storeStats_rest other t modes
  refine kept.frame isPlayer (Game.storeStats_other apart.symm t modes) fun mine => ?_
  exact ⟨char.resolve_right fun none => kept.ne_nothing (mine.symm.trans none), skill, result⟩

theorem retrieveOther (apart : other ≠ player) (modes : Modes) :
    Kept player (g.retrieveStats other modes).1 s := by
  have health {g : Game} (kept : Kept player g s) (s0 : Stats) :
      Kept player (g.retrieveHealth other s0).1 s := by
    rw [Game.retrieveHealth]
    split
    · exact kept
    · exact kept.storeOther apart _ _
  have attrs {g : Game} (kept : Kept player g s) (s0 : Stats) :
      Kept player (g.retrieveAttrs other s0).1 s := by
    rw [Game.retrieveAttrs]
    split
    · exact kept
    · exact kept.storeOther apart _ _
  have first : Kept player
      (if modes.health then g.retrieveHealth other Stats.zero else (g, Stats.zero)).1 s := by
    split_ifs
    · exact health kept _
    · exact kept
  rw [Game.retrieveStats]
  generalize (if modes.health then g.retrieveHealth other Stats.zero else (g, Stats.zero)) = one
    at first ⊢
  have second (s0 : Stats) :
      Kept player (if modes.attrs then one.1.retrieveAttrs other s0 else (one.1, s0)).1 s := by
    split_ifs
    · exact attrs first _
    · exact first
  exact second _

end

/-! ## Steps -/

theorem setstatvaluebycode_eq {value : Int}
    (lives : code = eeNumber → value = (s.values code).toNat) :
    s.setstatvaluebycode code value =
      { s with values := update s.values code (BitVec.ofInt 8 value) } := by
  rw [Stats.setstatvaluebycode]
  split_ifs with combat
  · have eq : update s.values livesNumber (BitVec.ofInt 8 ((s.values livesNumber).toNat +
        (value - (s.values code).toNat))) = s.values := by
      rw [lives combat, sub_self, add_zero, BitVec.ofInt_natCast, BitVec.ofNat_toNat,
        BitVec.setWidth_eq, Function.update_eq_self]
    rw [eq]
  · rfl

theorem set (kept : Kept player g s) {value : Int}
    (lives : code = eeNumber → value = (s.values code).toNat)
    (apart : code ∈ shadowed → value = 0) :
    Kept player (g.charSetvaluebycode player code value)
      { s with values := update s.values code (BitVec.ofInt 8 value) } := by
  have combat : valuesAll.covers eeNumber = true := by decide
  have set : (s.kept valuesAll).setstatvaluebycode code value =
      { s.kept valuesAll with
        values := update (s.kept valuesAll).values code (BitVec.ofInt 8 value) } := by
    refine setstatvaluebycode_eq fun is => ?_
    subst is
    rw [lives rfl, Stats.kept_values, if_pos combat]
  rw [Game.charSetvaluebycode, kept.retrieved]
  simp only [set]
  refine (kept.stored _ ?_ (by simp [valuesAll])).congr ⟨?_, ?_, ?_⟩
  · intro i shadow
    obtain ⟨value, xp⟩ := kept.clean i shadow
    simp only [Stats.merged_values, Stats.merged_xp, Stats.kept_values, Stats.kept_xp,
      Function.update_apply, xp, value, ite_self, and_true]
    by_cases eq : i = code
    · rw [apart (eq ▸ shadow)]
      simp
    · simp [eq]
  · intro i covers
    simp only [Stats.merged_values, Stats.kept_values, Function.update_apply, covers, if_true]
  · intro i experienced
    simp only [Stats.merged_xp, Stats.kept_xp, experienced, if_true]
  · intro i experienced some'
    simp only [Stats.merged_xp, Stats.kept_xp, experienced, if_true] at some'
    simp only [Stats.merged_lastUse, Stats.kept_lastUse, experienced, if_true, some', true_and,
      ne_eq, not_false_eq_true]

theorem store (kept : Kept player g s) (retrieve : Modes) (change : Stats → Stats)
    (clean : modes.skills = true → (change (s.kept retrieve)).Clean)
    (base : modes.attrs = true → modes.advs = false → modes.skills = false →
      g.cachedTargetChar = player →
      (change (s.kept retrieve)).skillBase g.cachedSkill = s.skillBase g.cachedSkill) :
    Kept player (g.step (.store player retrieve change modes))
      (s.merged modes (change (s.kept retrieve))) := by
  rw [Game.step, kept.retrieved]
  refine kept.stored _ ?_ base
  intro i shadow
  have mine : Stats.belongs true i = true := by
    revert i
    decide
  rw [Stats.merged_values, Stats.merged_xp, Modes.covers_belongs mine,
    Modes.experienced_belongs mine, if_pos rfl]
  cases skills : modes.skills with
  | false => simpa using kept.clean i shadow
  | true => simpa using clean skills i shadow

def gained (s : Stats) (code : Nat) (amount : Int) (now : BitVec 32) : Stats :=
  { s with xp := update s.xp code (s.gainedXp code amount), lastUse := update s.lastUse code now }

theorem co_covers {i : Nat} (mine : Stats.belongs true i = true) :
    valuesCo.covers i = true ∧ valuesCo.experienced i = true :=
  ⟨Modes.covers_belongs mine, Modes.experienced_belongs mine⟩

theorem gainedXp_kept (skill : kindOf code = .skill) (s : Stats) (amount : Int) :
    (s.kept valuesCo).gainedXp code amount = s.gainedXp code amount := by
  have mine : Stats.belongs true code = true := by simp [Stats.belongs, skill]
  obtain ⟨covers, experienced⟩ := co_covers mine
  refine Stats.gainedXp_congr (Stats.skillBase_congr (fun i mine => ?_) code) ?_ ?_ amount
  · rw [Stats.kept_values, Modes.covers_attr mine]
    rfl
  · rw [Stats.kept_values, if_pos covers]
  · rw [Stats.kept_xp, if_pos experienced]

theorem charGainxpbycode_eq (kept : Kept player g s)
    (may : g.mayGain (s.kept valuesCo) code = true) (amount : Int) :
    g.charGainxpbycode player code amount =
      g.storeStats player (gained (s.kept valuesCo) code amount g.now) valuesSkills := by
  rw [Game.charGainxpbycode, kept.retrieved]
  simp only [may, if_true, gained]

theorem skills_covers (i : Nat) : valuesSkills.covers i = Stats.belongs true i := by
  simp [Modes.covers, valuesSkills]

theorem skills_experienced (i : Nat) : valuesSkills.experienced i = Stats.belongs true i := by
  simp [Modes.experienced, valuesSkills]

theorem merged_gained_values (i : Nat) (amount : Int) (now : BitVec 32) :
    (s.merged valuesSkills (gained (s.kept valuesCo) code amount now)).values i = s.values i := by
  rw [Stats.merged_values, skills_covers]
  split_ifs with mine
  · rw [gained, Stats.kept_values, if_pos (co_covers mine).1]
  · rfl

theorem merged_gained_xp (i : Nat) (amount : Int) (now : BitVec 32) :
    (s.merged valuesSkills (gained (s.kept valuesCo) code amount now)).xp i =
      if Stats.belongs true i ∧ i = code then (s.kept valuesCo).gainedXp code amount
      else s.xp i := by
  rw [Stats.merged_xp, skills_experienced]
  by_cases mine : Stats.belongs true i = true
  · rw [if_pos mine]
    simp only [gained, Function.update_apply, mine, true_and]
    rw [Stats.kept_xp, if_pos (co_covers mine).2]
  · rw [if_neg mine, if_neg fun both => mine both.1]

theorem merged_gained_lastUse {i : Nat} (some' : s.xp i ≠ 0 ∨ i = code) (amount : Int)
    (now : BitVec 32) :
    (s.merged valuesSkills (gained (s.kept valuesCo) code amount now)).lastUse i =
      if Stats.belongs true i ∧ i = code then now else s.lastUse i := by
  rw [Stats.merged_lastUse, skills_experienced]
  by_cases mine : Stats.belongs true i = true
  · rw [if_pos mine]
    simp only [gained, Function.update_apply, mine, true_and]
    split_ifs with eq
    · rfl
    · rw [Stats.kept_lastUse,
        if_pos ⟨(co_covers mine).2, some'.resolve_right eq⟩]
  · rw [if_neg mine, if_neg fun both => mine both.1]

theorem gain (kept : Kept player g s) (skill : kindOf code = .skill)
    (may : g.mayGain (s.kept valuesCo) code = true) {amount : Int}
    (apart : code ∈ shadowed → amount = 0) :
    Kept player (g.charGainxpbycode player code amount) (gained s code amount g.now) := by
  have mine : Stats.belongs true code = true := by simp [Stats.belongs, skill]
  have xp (i : Nat) :
      (s.merged valuesSkills (gained (s.kept valuesCo) code amount g.now)).xp i =
        (gained s code amount g.now).xp i := by
    rw [merged_gained_xp, gainedXp_kept skill]
    simp only [gained, Function.update_apply]
    by_cases eq : i = code
    · rw [if_pos ⟨eq ▸ mine, eq⟩, if_pos eq]
    · rw [if_neg fun both => eq both.2, if_neg eq]
  rw [charGainxpbycode_eq kept may]
  refine (kept.stored _ (fun i shadow => ⟨?_, ?_⟩) (by simp [valuesSkills])).congr
    ⟨fun i _ => ?_, fun i _ => xp i, fun i _ some' => ?_⟩
  · rw [merged_gained_values]
    exact (kept.clean i shadow).1
  · rw [xp]
    simp only [gained, Function.update_apply]
    split_ifs with eq
    · rw [apart (eq ▸ shadow), Stats.gainedXp_zero (kept.clean code (eq ▸ shadow)).2]
    · exact (kept.clean i shadow).2
  · rw [merged_gained_values]
    rfl
  · rw [xp] at some'
    by_cases eq : i = code
    · rw [merged_gained_lastUse (.inr eq), if_pos ⟨eq ▸ mine, eq⟩]
      simp only [gained, eq, Function.update_self]
    · have had : s.xp i ≠ 0 := by simpa [gained, eq] using some'
      rw [merged_gained_lastUse (.inl had), if_neg fun both => eq both.2]
      simp only [gained, Function.update_of_ne eq]

theorem gainOther (kept : Kept player g s) (skill : kindOf code ≠ .skill)
    (may : g.mayGain (s.kept valuesCo) code = true) (amount : Int) :
    Kept player (g.charGainxpbycode player code amount) s := by
  have other : ¬ Stats.belongs true code = true := by simp [Stats.belongs, skill]
  have apart {i : Nat} : ¬ (Stats.belongs true i = true ∧ i = code) := by
    rintro ⟨mine, rfl⟩
    exact other mine
  rw [charGainxpbycode_eq kept may]
  refine (kept.stored _ (fun i shadow => ⟨?_, ?_⟩) (by simp [valuesSkills])).congr
    ⟨fun i _ => merged_gained_values i amount g.now, fun i _ => ?_, fun i _ some' => ?_⟩
  · rw [merged_gained_values]
    exact (kept.clean i shadow).1
  · rw [merged_gained_xp, if_neg apart]
    exact (kept.clean i shadow).2
  · rw [merged_gained_xp, if_neg apart]
  · rw [merged_gained_xp, if_neg apart] at some'
    rw [merged_gained_lastUse (.inl some'), if_neg apart]

theorem target_kept (skill : kindOf code = .skill) (s : Stats) (modifier : Int) :
    (s.kept valuesCo).target code modifier = s.target code modifier := by
  obtain ⟨covers, experienced⟩ := co_covers (i := code) (by simp [Stats.belongs, skill])
  refine Stats.target_congr (Stats.skillBase_congr (fun i mine => ?_) code) ?_ ?_ modifier
  · rw [Stats.kept_values, Modes.covers_attr mine]
    rfl
  · rw [Stats.kept_values, if_pos covers]
  · rw [Stats.kept_xp, if_pos experienced]

theorem target (kept : Kept player g s) (code : Nat) (modifier : Int) :
    (g.charGetskilltargetbycode player code modifier).2 = s.target code modifier ∧
      Kept player (g.charGetskilltargetbycode player code modifier).1 s := by
  rw [Game.charGetskilltargetbycode, kept.retrieved]
  simp only [Game.skilltargetBase]
  by_cases skill : kindOf code = .skill
  · have eq := target_kept skill s
    rw [if_neg (not_not.mpr skill)]
    by_cases cached : g.cachedTargetChar = player ∧ g.cachedSkill = code
    · obtain ⟨char, rfl⟩ := cached
      rw [if_pos ⟨char, rfl⟩]
      exact ⟨kept.cached char skill modifier, kept⟩
    · rw [if_neg cached]
      rw [← eq, Stats.target, if_neg (not_not.mpr skill)]
      cases base : (s.kept valuesCo).skillBase code with
      | none => exact ⟨rfl, kept⟩
      | some val =>
        by_cases bad : (s.kept valuesCo).getstatvaluebycode code = -1
        · simp only [if_pos bad]
          exact ⟨trivial, kept⟩
        · simp only [if_neg bad]
          refine ⟨trivial, kept.isPlayer, kept.real, kept.written, kept.clean, fun _ _ modifier => ?_⟩
          rw [← eq, Stats.target, if_neg (not_not.mpr skill), base]
          simp only [if_neg bad]
  · rw [if_pos skill, Stats.target, if_pos skill]
    exact ⟨rfl, kept⟩

end Kept

/-! ## Runs -/

variable {s : Stats}

theorem sheet_set {code : Nat} {value : Int} (low : 0 ≤ value) (high : value ≤ 255) :
    ({ s with values := update s.values code (BitVec.ofInt 8 value) } : Stats).sheet =
      s.sheet.set code value := by
  ext i
  · simp only [Stats.sheet, Sheet.set, Function.update_apply]
    split_ifs
    · rw [BitVec.toNat_ofInt]
      omega
    · rfl
  · rfl
  · rfl
  · rfl

theorem sheet_gained {code : Nat} {amount : Int} (more : 0 ≤ amount)
    (experience : 0 ≤ s.sheet.experience code) (bonus : 0 ≤ s.sheet.bonus code)
    (high : s.sheet.experience code + amount < xpMax) (now : BitVec 32) :
    (Kept.gained s code amount now).sheet = s.sheet.gain code amount now := by
  have least : 0 ≤ (s.xp code).toInt := by
    have both := Int.tmod_add_mul_tdiv (s.xp code).toInt xpMax
    have part : 0 ≤ xpMax * (s.xp code).toInt.tdiv xpMax := mul_nonneg (by decide) bonus
    exact both ▸ add_nonneg experience part
  have total : 0 ≤ s.experience code + amount := add_nonneg experience more
  have gained := Stats.gainedXp_eq least more high
  obtain ⟨low, most⟩ : 0 ≤ s.levels code (s.experience code + amount) ∧
      s.levels code (s.experience code + amount) ≤ 24 := Stats.figureXpBonus_bounds _ code
  ext i
  · rfl
  · simp only [Stats.sheet, Stats.experience, Kept.gained, Sheet.gain, Function.update_apply]
    split_ifs
    · rw [gained]
      exact Stats.packed_tmod total high low most
    · rfl
  · simp only [Stats.sheet, Stats.charXpBonus, Kept.gained, Sheet.gain, Function.update_apply]
    split_ifs
    · rw [gained, Stats.packed_tdiv total high low most]
      exact congrArg (fun t => Stats.levels t code _) (Stats.stats_sheet s).symm
    · rfl
  · rfl

theorem Kept.skilltargetOther {player other : Dbref} {g : Game}
    (kept : Kept player g s) (apart : other ≠ player) (t : Stats) (code : Nat) (modifier : Int) :
    Kept player (g.skilltargetBase other t code modifier).1 s := by
  rw [Game.skilltargetBase]
  by_cases skill : kindOf code = .skill
  · rw [if_neg (not_not.mpr skill)]
    by_cases cached : g.cachedTargetChar = other ∧ g.cachedSkill = code
    · rw [if_pos cached]
      exact kept
    · rw [if_neg cached]
      cases t.skillBase code with
      | none => exact kept
      | some val =>
        by_cases bad : t.getstatvaluebycode code = -1
        · simpa only [if_pos bad] using kept
        · simp only [if_neg bad]
          exact kept.frame rfl rfl fun mine => absurd mine apart
  · rw [if_pos skill]
    exact kept

theorem Kept.stepOther {player : Dbref} {g : Game} (kept : Kept player g s) (op : Op)
    (apart : op.player ≠ some player) : Kept player (g.step op) s := by
  cases op with
  | set p code value =>
    have other : p ≠ player := fun eq => apart (congrArg some eq)
    exact (kept.retrieveOther other valuesAll).storeOther other _ _
  | gain p code amount =>
    have other : p ≠ player := fun eq => apart (congrArg some eq)
    have retrieved := kept.retrieveOther other valuesCo
    rw [Game.step, Game.charGainxpbycode]
    generalize g.retrieveStats p valuesCo = next at retrieved
    simp only
    split_ifs
    · exact retrieved.storeOther other _ _
    · exact retrieved
  | store p retrieve change modes =>
    have other : p ≠ player := fun eq => apart (congrArg some eq)
    exact (kept.retrieveOther other retrieve).storeOther other _ _
  | target p code modifier =>
    have other : p ≠ player := fun eq => apart (congrArg some eq)
    exact (kept.retrieveOther other valuesCo).skilltargetOther other _ code modifier
  | time now => exact kept.frame rfl rfl fun _ => ⟨rfl, rfl, rfl⟩

theorem Reached.kept {player : Dbref} {start g : Game} {a : Sheet} (starts : Start player start)
    (reached : Reached player start g a) : ∃ s : Stats, s.sheet = a ∧ Kept player g s := by
  induction reached with
  | start =>
    obtain ⟨fresh, clean⟩ := Stats.createNewStats_eq
    exact ⟨_, fresh, starts.isPlayer, starts.real, starts.stored, clean,
      fun mine => absurd mine starts.cached⟩
  | @step g a reached op allowed settled ih =>
    obtain ⟨s, rfl, kept⟩ := ih
    cases op with
    | set p code value =>
      by_cases mine : p = player
      · subst mine
        obtain ⟨low, high⟩ := allowed rfl
        obtain ⟨lives, apart⟩ := settled rfl
        exact ⟨_, (sheet_set low high).trans (if_pos rfl).symm, kept.set lives apart⟩
      · exact ⟨s, (if_neg mine).symm, kept.stepOther _ fun eq => mine (Option.some.inj eq)⟩
    | gain p code amount =>
      by_cases mine : p = player
      · subst mine
        rw [Sheet.after, Stats.stats_sheet]
        cases may : g.mayGain (s.kept valuesCo) code with
        | false =>
          rw [if_neg fun gains => absurd gains.2.2 (by simp)]
          refine ⟨s, rfl, ?_⟩
          rw [Game.step, Game.charGainxpbycode, kept.retrieved]
          simpa [may] using kept
        | true =>
          by_cases skill : kindOf code = .skill
          · obtain ⟨more, experience, bonus, high⟩ := allowed rfl skill
            rw [Op.Settled, Stats.stats_sheet] at settled
            rw [if_pos ⟨rfl, skill, rfl⟩]
            exact ⟨_, sheet_gained more experience bonus high g.now,
              kept.gain skill may fun shadow => settled rfl shadow may⟩
          · rw [if_neg fun gains => skill gains.2.1]
            exact ⟨s, rfl, kept.gainOther skill may amount⟩
      · exact ⟨s, (if_neg fun gains => mine gains.1).symm,
          kept.stepOther _ fun eq => mine (Option.some.inj eq)⟩
    | store p retrieve change modes =>
      by_cases mine : p = player
      · subst mine
        rw [Op.Settled, Stats.stats_sheet] at settled
        obtain ⟨clean, base⟩ := settled rfl
        rw [Sheet.after, if_pos rfl, Stats.stats_sheet]
        exact ⟨_, Stats.sheet_merged, kept.store retrieve change clean base⟩
      · exact ⟨s, (if_neg mine).symm, kept.stepOther _ fun eq => mine (Option.some.inj eq)⟩
    | target p code modifier =>
      by_cases mine : p = player
      · subst mine
        exact ⟨s, rfl, (kept.target code modifier).2⟩
      · exact ⟨s, rfl, kept.stepOther _ fun eq => mine (Option.some.inj eq)⟩
    | time now => exact ⟨s, rfl, kept.stepOther _ (by simp [Op.player])⟩

theorem Kept.holds {player : Dbref} {g : Game} (kept : Kept player g s) :
    Holds player g s.sheet := by
  have skillCovered {code : Nat} (skill : kindOf code = .skill) :
      valuesAll.experienced code = true ∧ valuesSkills.experienced code = true := by
    have mine : Stats.belongs true code = true := by simp [Stats.belongs, skill]
    exact ⟨Modes.experienced_belongs mine, Modes.experienced_belongs mine⟩
  refine ⟨fun code covers => ?_, fun code skill => ?_, fun code skill => ?_,
    fun code skill some' => ?_, fun code modifier => ?_⟩
  · rw [kept.retrieved, Stats.kept_values, if_pos covers]
    rfl
  · rw [Game.charGetxpbycode, kept.retrieved, Stats.kept_xp, if_pos (skillCovered skill).2]
    rfl
  · rw [kept.retrieved, Stats.charXpBonus, Stats.kept_xp, if_pos (skillCovered skill).1]
    rfl
  · have had : s.xp code ≠ 0 := by
      intro none
      refine some' ?_
      simp [Stats.sheet, Stats.experience, none]
    rw [kept.retrieved, Stats.kept_lastUse, if_pos ⟨(skillCovered skill).1, had⟩]
    rfl
  · rw [(kept.target code modifier).1, Stats.stats_sheet]

/-- Sheets survive: in every run what is retrieved is what has been set, and targets are those of
the sheet. -/
theorem sheets_survive {player : Dbref} {start g : Game} {a : Sheet}
    (starts : Start player start) (reached : Reached player start g a) : Holds player g a := by
  obtain ⟨s, rfl, kept⟩ := reached.kept starts
  exact kept.holds

def onePlayer : Game where
  isPlayer := fun x => x = 1
  record := fun _ => Stats.createNewStats.record
  now := 1000
  cachedTargetChar := -1
  cachedSkill := 0
  cachedResult := 0

/-- A skill is set and experience gained. -/
theorem sheets_survive_gain :
    Holds 1 ((onePlayer.step (.set 1 52 3)).step (.gain 1 52 10))
      ((Sheet.fresh.set 52 3).after 1 (onePlayer.step (.set 1 52 3)) (.gain 1 52 10)) := by
  have starts : Start 1 onePlayer := ⟨rfl, by decide, rfl, by decide⟩
  have first : Reached 1 onePlayer (onePlayer.step (.set 1 52 3)) (Sheet.fresh.set 52 3) :=
    Reached.start.step (.set 1 52 3) (fun _ => by decide) fun _ => ⟨by decide, by decide⟩
  exact sheets_survive starts (first.step (.gain 1 52 10)
    (fun _ _ => ⟨by decide, by decide, by decide, by decide⟩) fun _ shadow => absurd shadow
    (by decide))

/-- A value with the short name of another is retrieved as the other, Combat_Sense changes Lives,
and attributes that are stored alone leave a target that is not theirs. -/
theorem values_go_astray :
    let collided := ((onePlayer.step (.set 1 67 3)).retrieveStats 1 valuesAll).2
    let sensing := ((onePlayer.step (.set 1 11 1)).retrieveStats 1 valuesAll).2
    let alone := (onePlayer.step (.target 1 52 0)).step
      (.store 1 valuesAll (·.setstatvaluebycode 26 5) ⟨false, false, true, false⟩)
    (collided.values 67 = 0 ∧ collided.values 66 = 3) ∧ sensing.values livesNumber = 2 ∧
      (alone.charGetskilltargetbycode 1 52 0).2 = 16 ∧
      (alone.retrieveStats 1 valuesAll).2.target 52 0 = 12 := by
  decide +kernel

end BattletechMux.Characters
