/-
Module: BattletechMux.Objects.Parents
Purpose: The parents of objects: do_parent and do_clone from create.c, create_obj and destroy_obj
  from object.c.
Trusted boundary: matching, permissions, names and fees are given with each command; what does not
  touch parents or the free list is left out
-/
import BattletechMux.Foundation.Enclosure
import BattletechMux.Foundation.Machine
import Mathlib.Data.List.Infix

namespace BattletechMux.Objects

open Function (update)
open Relation (TransGen ReflTransGen)

abbrev Dbref := Int

def nothing : Dbref := -1

inductive ObjectType
  | room | thing | exit | player | garbage
deriving DecidableEq, Repr

/-- `mudconf.parent_nest_lim`. -/
structure Conf where
  parentNestLim : Int

structure Db where
  dbTop : Nat
  typeof : Dbref → ObjectType
  /-- The rest of IS_CLEAN: going, nowhere, with nothing in it, and owned by God. -/
  tidy : Dbref → Bool
  parent : Dbref → Dbref
  link : Dbref → Dbref
  freelist : Dbref

def Db.goodObj (db : Db) (x : Dbref) : Bool := decide (0 ≤ x ∧ x < db.dbTop)

def Db.isClean (db : Db) (x : Dbref) : Bool := db.typeof x == .garbage && db.tidy x

/-- `s_Parent`. -/
def Db.setParent (db : Db) (x parent : Dbref) : Db :=
  { db with parent := update db.parent x parent }

/-- ITER_PARENTS with so many levels left comes to `thing`. -/
def Db.iterParents (db : Db) (thing : Dbref) : Nat → Dbref → Bool
  | 0, _ => false
  | levels + 1, curr =>
    db.goodObj curr && (curr == thing || db.iterParents thing levels (db.parent curr))

/-- `do_parent`; without a name the parent is cleared. -/
def doParent (conf : Conf) (db : Db) (thing : Dbref) (pname : Option Dbref)
    (controls parentable : Bool) : Db :=
  if db.goodObj thing && controls then
    match pname with
    | none => db.setParent thing nothing
    | some parent =>
      if db.goodObj parent && parentable then
        if db.iterParents thing conf.parentNestLim.toNat parent then db
        else db.setParent thing parent
      else db
  else db

/-- The number `create_obj` uses: the first free one if it is clean, else a new one. -/
def Db.newNumber (db : Db) : Dbref :=
  if db.freelist ≠ nothing ∧ db.goodObj db.freelist = true ∧ db.isClean db.freelist = true then
    db.freelist
  else db.dbTop

def Db.takeNumber (db : Db) : Db :=
  if db.freelist ≠ nothing ∧ db.goodObj db.freelist = true ∧ db.isClean db.freelist = true then
    { db with freelist := db.link db.freelist }
  else { db with dbTop := db.dbTop + 1, freelist := nothing }

/-- `create_obj`, with what it says of names and fees. -/
def createObj (db : Db) (objtype : ObjectType) (allowed : Bool) : Option (Dbref × Db) :=
  if objtype ≠ .garbage ∧ allowed = true then
    let obj := db.newNumber
    let db := db.takeNumber
    some (obj, { db with
      typeof := update db.typeof obj objtype
      tidy := update db.tidy obj false
      parent := update db.parent obj nothing
      link := update db.link obj nothing })
  else none

/-- What `do_clone` is given, and what it finds of permissions, owners and homes. -/
structure Cloning where
  thing : Dbref
  /-- It may be seen, and an exit may be made here. -/
  examinable : Bool
  keyParent : Bool
  controls : Bool
  parentOk : Bool
  sameOwner : Bool
  /-- What `create_obj` says. -/
  allowed : Bool
  home : Dbref

/-- CLONE_PARENT is ignored for what one may not make a parent. -/
def Cloning.useParent (c : Cloning) : Bool := c.keyParent && (c.controls || c.parentOk)

/-- The parent of the clone; `none` when it gets none. -/
def Cloning.parent (c : Cloning) (db : Db) : Option Dbref :=
  if c.useParent then some c.thing
  else if c.sameOwner || (c.controls || c.parentOk) then some (db.parent c.thing)
  else none

def Cloning.setHome (c : Cloning) (db : Db) (clone : Dbref) : Db :=
  if db.typeof c.thing = .thing then { db with link := update db.link clone c.home } else db

/-- `do_clone` of what may be cloned. -/
def Cloning.make (c : Cloning) (db : Db) : Db :=
  match createObj db (db.typeof c.thing) c.allowed with
  | none => db
  | some (clone, db) =>
    let db := c.setHome db clone
    match c.parent db with
    | none => db
    | some parent => db.setParent clone parent

def doClone (db : Db) (c : Cloning) : Db :=
  if db.goodObj c.thing && c.examinable && db.typeof c.thing != .player then c.make db else db

def destroyObj (db : Db) (obj : Dbref) : Db :=
  if db.goodObj obj then
    { db with
      typeof := update db.typeof obj .garbage
      tidy := update db.tidy obj true
      parent := update db.parent obj nothing
      link := update db.link obj nothing }
  else db

inductive Op
  | doParent (thing : Dbref) (pname : Option Dbref) (controls parentable : Bool)
  | doClone (c : Cloning)
  | createObj (objtype : ObjectType) (allowed : Bool)
  | destroyObj (obj : Dbref)

def Db.step (conf : Conf) (db : Db) : Op → Db
  | .doParent thing pname controls parentable => doParent conf db thing pname controls parentable
  | .doClone c => doClone db c
  | .createObj objtype allowed => ((createObj db objtype allowed).map Prod.snd).getD db
  | .destroyObj obj => destroyObj db obj

def Db.after (conf : Conf) (db : Db) (ops : List Op) : Db := ops.foldl (Db.step conf) db

/-! ## Ancestors -/

def Db.Child (db : Db) (x y : Dbref) : Prop := db.goodObj x = true ∧ db.parent x = y

def Db.Acyclic (db : Db) : Prop := Enclosure.Acyclic db.Child

/-- `y` is `x` or an ancestor of it. -/
def Db.Above (db : Db) (x y : Dbref) : Prop := ReflTransGen db.Child x y

def Db.Sets (db db' : Db) (a b : Dbref) : Prop :=
  ∀ x y, db'.Child x y ↔ x ≠ a ∧ db.Child x y ∨ x = a ∧ y = b

theorem Db.Acyclic.sets_iff {db db' : Db} {a b : Dbref} (acyclic : db.Acyclic)
    (sets : db.Sets db' a b) : db'.Acyclic ↔ ¬db.Above b a :=
  Enclosure.Acyclic.move_iff acyclic sets

theorem setParent_sets {db : Db} {a : Dbref} (good : db.goodObj a = true) (b : Dbref) :
    db.Sets (db.setParent a b) a b := by
  intro x y
  unfold Db.Child Db.setParent
  change db.goodObj x = true ∧ update db.parent a b x = y ↔ _
  by_cases here : x = a
  · subst here
    simp [good, eq_comm]
  · simp [here]

theorem Db.Sets.trans {db db' db'' : Db} {a b c : Dbref} (one : db.Sets db' a b)
    (two : db'.Sets db'' a c) : db.Sets db'' a c := by
  intro x y
  rw [two, one]
  by_cases here : x = a <;> simp [here]

theorem not_above_nothing (db : Db) {a : Dbref} (object : 0 ≤ a) : ¬db.Above nothing a := by
  intro above
  rcases ReflTransGen.cases_head above with same | ⟨_, step, -⟩
  · rw [← same] at object
    exact absurd object (by decide)
  · exact absurd step.1 (by simp [Db.goodObj, nothing])

theorem below_succ_iff (x : Int) (n : Nat) :
    0 ≤ x ∧ x < ((n + 1 : Nat) : Int) ↔ x = n ∨ 0 ≤ x ∧ x < n := by
  omega

theorem goodObj_iff (db : Db) (x : Dbref) : db.goodObj x = true ↔ 0 ≤ x ∧ x < db.dbTop := by
  unfold Db.goodObj
  rw [decide_eq_true_iff]

theorem takeNumber_goodObj (db : Db) (x : Dbref) :
    db.takeNumber.goodObj x = true ↔ x = db.newNumber ∨ db.goodObj x = true := by
  unfold Db.takeNumber Db.newNumber
  split
  · next free =>
    refine ⟨Or.inr, ?_⟩
    rintro (rfl | good)
    · exact free.2.1
    · exact good
  · rw [goodObj_iff, goodObj_iff]
    exact below_succ_iff x db.dbTop

theorem takeNumber_parent (db : Db) : db.takeNumber.parent = db.parent := by
  unfold Db.takeNumber
  split <;> rfl

theorem newNumber_nonneg (db : Db) : 0 ≤ db.newNumber := by
  unfold Db.newNumber
  split
  · next free => exact ((goodObj_iff db _).mp free.2.1).1
  · exact Int.natCast_nonneg _

theorem createObj_sets {db db' : Db} {objtype : ObjectType} {allowed : Bool} {obj : Dbref}
    (created : createObj db objtype allowed = some (obj, db')) :
    obj = db.newNumber ∧ db.Sets db' obj nothing ∧ db'.goodObj obj = true := by
  unfold createObj at created
  split at created
  case isFalse => exact absurd created (by simp)
  obtain ⟨rfl, rfl⟩ := Prod.mk.inj (Option.some.inj created)
  refine ⟨rfl, fun x y => ?_, (takeNumber_goodObj db _).mpr (Or.inl rfl)⟩
  unfold Db.Child
  change db.takeNumber.goodObj x = true ∧
    update db.takeNumber.parent db.newNumber nothing x = y ↔ _
  rw [takeNumber_goodObj, takeNumber_parent]
  by_cases here : x = db.newNumber
  · rw [here, Function.update_self]
    exact ⟨fun step => Or.inr ⟨rfl, step.2.symm⟩, fun cases => ⟨Or.inl rfl,
      cases.elim (fun old => absurd rfl old.1) fun new => new.2.symm⟩⟩
  · simp [here]

theorem destroyObj_sets {db : Db} {obj : Dbref} (good : db.goodObj obj = true) :
    db.Sets (destroyObj db obj) obj nothing := by
  unfold destroyObj
  rw [if_pos good]
  exact setParent_sets good nothing

theorem setHome_goodObj (c : Cloning) (db : Db) (clone x : Dbref) :
    (c.setHome db clone).goodObj x = db.goodObj x := by
  unfold Cloning.setHome
  split <;> rfl

theorem setHome_parent (c : Cloning) (db : Db) (clone : Dbref) :
    (c.setHome db clone).parent = db.parent := by
  unfold Cloning.setHome
  split <;> rfl

theorem setHome_sets {db db' : Db} {a b : Dbref} (sets : db.Sets db' a b) (c : Cloning)
    (clone : Dbref) : db.Sets (c.setHome db' clone) a b := by
  intro x y
  rw [← sets x y]
  unfold Db.Child
  rw [setHome_goodObj, setHome_parent]

theorem make_sets {db created : Db} {c : Cloning} {clone : Dbref}
    (made : createObj db (db.typeof c.thing) c.allowed = some (clone, created)) :
    db.Sets (c.make db) clone ((c.parent (c.setHome created clone)).getD nothing) := by
  obtain ⟨-, sets, good⟩ := createObj_sets made
  have homed := setHome_sets sets c clone
  unfold Cloning.make
  rw [made]
  dsimp only
  cases c.parent (c.setHome created clone) with
  | none => exact homed
  | some parent =>
    exact homed.trans (setParent_sets ((setHome_goodObj c created clone clone).trans good) parent)

/-! ## Settled operations -/

/-- What an operation must not do: `do_parent` gives an object a parent that is the object or below
it, unless the object is found within the limit; `do_clone` uses a number that the thing or one of
its ancestors has. -/
def Op.Settled (conf : Conf) (db : Db) : Op → Prop
  | .doParent thing (some parent) controls parentable =>
    db.goodObj thing = true → controls = true → parentable = true → db.Above parent thing →
      ∃ level : Nat, level < conf.parentNestLim ∧ db.parent^[level] parent = thing
  | .doClone c =>
    c.examinable = true → c.allowed = true → (c.sameOwner || (c.controls || c.parentOk)) = true →
      db.typeof c.thing ≠ .player → db.typeof c.thing ≠ .garbage → db.goodObj c.thing = true →
        ¬db.Above c.thing db.newNumber
  | .doParent _ none _ _ | .createObj _ _ | .destroyObj _ => True

theorem iterParents_iff (db : Db) (thing : Dbref) (levels : Nat) (curr : Dbref) :
    db.iterParents thing levels curr = true ↔ ∃ level < levels,
      (∀ k ≤ level, db.goodObj (db.parent^[k] curr) = true) ∧ db.parent^[level] curr = thing := by
  induction levels generalizing curr with
  | zero => simp [Db.iterParents]
  | succ levels ih =>
    unfold Db.iterParents
    rw [Bool.and_eq_true, Bool.or_eq_true, beq_iff_eq, ih]
    constructor
    · rintro ⟨good, here | ⟨level, less, allGood, there⟩⟩
      · refine ⟨0, Nat.succ_pos _, fun k low => ?_, here⟩
        rw [Nat.le_zero.mp low]
        exact good
      · refine ⟨level + 1, Nat.succ_lt_succ less, fun k low => ?_, there⟩
        cases k with
        | zero => exact good
        | succ k => exact allGood k (Nat.le_of_succ_le_succ low)
    · rintro ⟨level, less, allGood, there⟩
      refine ⟨allGood 0 (Nat.zero_le _), ?_⟩
      cases level with
      | zero => exact Or.inl there
      | succ level =>
        exact Or.inr ⟨level, Nat.lt_of_succ_lt_succ less,
          fun k low => allGood (k + 1) (Nat.succ_le_succ low), there⟩

theorem above_iff (db : Db) (x y : Dbref) : db.Above x y ↔ ∃ level,
    (∀ k < level, db.goodObj (db.parent^[k] x) = true) ∧ db.parent^[level] x = y := by
  constructor
  · intro above
    induction above using ReflTransGen.head_induction_on with
    | refl => exact ⟨0, fun k less => absurd less (Nat.not_lt_zero k), rfl⟩
    | head step _ ih =>
      obtain ⟨good, rfl⟩ := step
      obtain ⟨level, allGood, there⟩ := ih
      refine ⟨level + 1, fun k less => ?_, there⟩
      cases k with
      | zero => exact good
      | succ k => exact allGood k (Nat.lt_of_succ_lt_succ less)
  · rintro ⟨level, allGood, rfl⟩
    induction level generalizing x with
    | zero => exact ReflTransGen.refl
    | succ level ih =>
      refine ReflTransGen.head ⟨allGood 0 (Nat.succ_pos _), rfl⟩ ?_
      exact ih (db.parent x) fun k less => allGood (k + 1) (Nat.succ_lt_succ less)

theorem not_above {db : Db} {x y : Dbref} (top : Nat)
    (ends : db.goodObj (db.parent^[top] x) = false)
    (absent : ∀ level ≤ top, db.parent^[level] x ≠ y) : ¬db.Above x y := by
  intro above
  obtain ⟨level, allGood, there⟩ := (above_iff db x y).mp above
  rcases Nat.lt_or_ge top level with high | low
  · exact absurd (allGood top high) (by rw [ends]; decide)
  · exact absent level low there

theorem iterParents_found {db : Db} {thing parent : Dbref} (good : db.goodObj thing = true)
    (above : db.Above parent thing) (levels : Nat) :
    db.iterParents thing levels parent = true ↔
      ∃ level < levels, db.parent^[level] parent = thing := by
  rw [iterParents_iff]
  refine ⟨fun ⟨level, less, _, there⟩ => ⟨level, less, there⟩, ?_⟩
  rintro ⟨level, less, there⟩
  obtain ⟨top, allGood, atTop⟩ := (above_iff db parent thing).mp above
  rcases Nat.lt_or_ge level top with low | high
  · exact ⟨level, less, fun k below => allGood k (Nat.lt_of_le_of_lt below low), there⟩
  · refine ⟨top, Nat.lt_of_le_of_lt high less, fun k below => ?_, atTop⟩
    rcases Nat.lt_or_eq_of_le below with before | rfl
    · exact allGood k before
    · rwa [atTop]

variable {conf : Conf} {db : Db}

theorem above_cases {x y : Dbref} (above : db.Above x y) : x = y ∨ db.Above (db.parent x) y := by
  rcases ReflTransGen.cases_head above with same | ⟨_, ⟨_, rfl⟩, rest⟩
  · exact Or.inl same
  · exact Or.inr rest

theorem above_good {x y : Dbref} (good : db.goodObj y = true) (above : db.Above x y) :
    db.goodObj x = true := by
  rcases ReflTransGen.cases_head above with rfl | ⟨_, step, -⟩
  · exact good
  · exact step.1

theorem doParent_acyclic_iff (acyclic : db.Acyclic) (thing : Dbref) (pname : Option Dbref)
    (controls parentable : Bool) :
    (doParent conf db thing pname controls parentable).Acyclic ↔
      (Op.doParent thing pname controls parentable).Settled conf db := by
  unfold doParent
  by_cases able : (db.goodObj thing && controls) = true
  case neg =>
    rw [if_neg able]
    refine iff_of_true acyclic ?_
    cases pname with
    | none => trivial
    | some parent => exact fun good controls => absurd (Bool.and_eq_true_iff.mpr ⟨good, controls⟩) able
  rw [if_pos able]
  obtain ⟨good, controlled⟩ := Bool.and_eq_true_iff.mp able
  cases pname with
  | none =>
    refine iff_of_true ?_ trivial
    exact (acyclic.sets_iff (setParent_sets good nothing)).mpr
      (not_above_nothing db ((goodObj_iff db thing).mp good).1)
  | some parent =>
    dsimp only
    by_cases may : (db.goodObj parent && parentable) = true
    case neg =>
      rw [if_neg may]
      refine iff_of_true acyclic fun _ _ parentable above => ?_
      exact absurd (Bool.and_eq_true_iff.mpr ⟨above_good good above, parentable⟩) may
    rw [if_pos may]
    by_cases above : db.Above parent thing
    · have settled : (Op.doParent thing (some parent) controls parentable).Settled conf db ↔
          ∃ level : Nat, level < conf.parentNestLim ∧ db.parent^[level] parent = thing :=
        ⟨fun all => all good controlled (Bool.and_eq_true_iff.mp may).2 above,
          fun found _ _ _ _ => found⟩
      have found := iterParents_found good above conf.parentNestLim.toNat
      simp only [Int.lt_toNat] at found
      rw [settled, ← found]
      split
      · next refused => exact iff_of_true acyclic refused
      · next passed =>
        refine iff_of_false (fun after => ?_) passed
        exact (acyclic.sets_iff (setParent_sets good parent)).mp after above
    · refine iff_of_true ?_ fun _ _ _ there => absurd there above
      split
      · exact acyclic
      · exact (acyclic.sets_iff (setParent_sets good parent)).mpr above

theorem newNumber_ne {thing : Dbref} (good : db.goodObj thing = true)
    (used : db.typeof thing ≠ .garbage) : db.newNumber ≠ thing := by
  rintro rfl
  unfold Db.newNumber at good used
  split at used
  · next free =>
    have clean := free.2.2
    unfold Db.isClean at clean
    exact used (beq_iff_eq.mp (Bool.and_eq_true_iff.mp clean).1)
  · next none =>
    rw [if_neg none, goodObj_iff] at good
    exact absurd good.2 (Int.lt_irrefl _)

theorem above_parent_iff {thing obj : Dbref} (good : db.goodObj thing = true)
    (other : obj ≠ thing) :
    db.Above (db.parent thing) obj ↔ db.Above thing obj := by
  refine ⟨ReflTransGen.head ⟨good, rfl⟩, fun above => ?_⟩
  exact (above_cases above).resolve_left fun same => other same.symm

section

variable (acyclic : db.Acyclic)
include acyclic

theorem make_acyclic_iff {c : Cloning} (good : db.goodObj c.thing = true)
    (used : db.typeof c.thing ≠ .garbage) (allowed : c.allowed = true) :
    (c.make db).Acyclic ↔ ((c.sameOwner || (c.controls || c.parentOk)) = true →
      ¬db.Above c.thing db.newNumber) := by
  have made : ∃ created, createObj db (db.typeof c.thing) c.allowed =
      some (db.newNumber, created) ∧ created.parent c.thing = db.parent c.thing := by
    unfold createObj
    rw [if_pos ⟨used, allowed⟩]
    refine ⟨_, rfl, ?_⟩
    change update db.takeNumber.parent db.newNumber nothing c.thing = db.parent c.thing
    rw [Function.update_of_ne (newNumber_ne good used).symm, takeNumber_parent]
  obtain ⟨created, made, parent⟩ := made
  rw [acyclic.sets_iff (make_sets made)]
  unfold Cloning.parent
  rw [setHome_parent, parent]
  have other := newNumber_ne good used
  split
  · next useParent =>
    have owner := (Bool.and_eq_true_iff.mp useParent).2
    rw [owner, Bool.or_true]
    exact ⟨fun outside _ => outside, fun outside => outside rfl⟩
  · split
    · next inherits =>
      rw [Option.getD_some, above_parent_iff good other]
      exact ⟨fun outside _ => outside, fun outside => outside inherits⟩
    · next none =>
      exact iff_of_true (not_above_nothing db (newNumber_nonneg db)) fun inherits =>
        absurd inherits none

theorem doClone_acyclic_iff (c : Cloning) :
    (doClone db c).Acyclic ↔ (Op.doClone c).Settled conf db := by
  unfold doClone
  by_cases able : (db.goodObj c.thing && c.examinable && db.typeof c.thing != .player) = true
  case neg =>
    rw [if_neg able]
    refine iff_of_true acyclic fun examinable _ _ living _ good => absurd ?_ able
    simp [good, examinable, living]
  rw [if_pos able]
  have facts : (db.goodObj c.thing = true ∧ c.examinable = true) ∧
      db.typeof c.thing ≠ .player := by
    simpa only [Bool.and_eq_true, bne_iff_ne] using able
  by_cases makes : db.typeof c.thing ≠ .garbage ∧ c.allowed = true
  · rw [make_acyclic_iff acyclic facts.1.1 makes.1 makes.2]
    exact ⟨fun outside _ _ inherits _ _ _ => outside inherits,
      fun settled inherits => settled facts.1.2 makes.2 inherits facts.2 makes.1 facts.1.1⟩
  · have unmade : createObj db (db.typeof c.thing) c.allowed = none := by
      unfold createObj
      rw [if_neg makes]
    unfold Cloning.make
    rw [unmade]
    exact iff_of_true acyclic fun _ allowed _ _ used _ => absurd ⟨used, allowed⟩ makes

theorem createObj_acyclic (objtype : ObjectType) (allowed : Bool) :
    (((createObj db objtype allowed).map Prod.snd).getD db).Acyclic := by
  cases made : createObj db objtype allowed with
  | none => exact acyclic
  | some created =>
    obtain ⟨same, sets, -⟩ := createObj_sets made
    rw [same] at sets
    exact (acyclic.sets_iff sets).mpr (not_above_nothing db (newNumber_nonneg db))

theorem destroyObj_acyclic (obj : Dbref) : (destroyObj db obj).Acyclic := by
  by_cases good : db.goodObj obj = true
  · exact (acyclic.sets_iff (destroyObj_sets good)).mpr
      (not_above_nothing db ((goodObj_iff db obj).mp good).1)
  · unfold destroyObj
    rw [if_neg good]
    exact acyclic

theorem step_acyclic_iff (op : Op) : (db.step conf op).Acyclic ↔ op.Settled conf db := by
  cases op with
  | doParent thing pname controls parentable =>
    exact doParent_acyclic_iff acyclic thing pname controls parentable
  | doClone c => exact doClone_acyclic_iff acyclic c
  | createObj objtype allowed => exact iff_of_true (createObj_acyclic acyclic objtype allowed) trivial
  | destroyObj obj => exact iff_of_true (destroyObj_acyclic acyclic obj) trivial

end

/-- In a run from a database without cycles of parents there are none in any state exactly when each
operation is settled. -/
theorem run_acyclic_iff (acyclic : db.Acyclic) (ops : List Op) :
    (∀ first, first <+: ops → (db.after conf first).Acyclic) ↔
      Machine.Guarded (fun db op => some (db.step conf op)) (fun db op => op.Settled conf db)
        db ops := by
  induction ops generalizing db with
  | nil =>
    refine iff_of_true (fun first none => ?_) trivial
    rw [List.prefix_nil.mp none]
    exact acyclic
  | cons op rest ih =>
    rw [Machine.guarded_cons_of_step rest rfl, ← step_acyclic_iff acyclic]
    constructor
    · intro always
      have one : (db.step conf op).Acyclic := always [op] (by simp)
      exact ⟨one, (ih one).mp fun first isPrefix =>
        always (op :: first) (List.cons_prefix_cons.mpr ⟨rfl, isPrefix⟩)⟩
    · rintro ⟨one, later⟩ first isPrefix
      cases first with
      | nil => exact acyclic
      | cons op' first =>
        obtain ⟨rfl, shorter⟩ := List.cons_prefix_cons.mp isPrefix
        exact (ih one).mpr later first shorter

/-- Things and their parents, with a free number that may be NOTHING. -/
def someDb (dbTop : Nat) (parent : Dbref → Dbref) (free : Dbref) : Db where
  dbTop := dbTop
  typeof x := if x = free then .garbage else .thing
  tidy _ := true
  parent := parent
  link _ := nothing
  freelist := free

theorem someDb_acyclic {dbTop : Nat} {parent : Dbref → Dbref} {free : Dbref}
    (older : ∀ x, (parent x + 1).toNat < (x + 1).toNat ∨ x < 0) :
    (someDb dbTop parent free).Acyclic := by
  have falls (x y : Dbref) (child : (someDb dbTop parent free).Child x y) :
      (y + 1).toNat < (x + 1).toNat := by
    obtain ⟨good, rfl⟩ := child
    exact (older x).resolve_right (Int.not_lt.mpr ((goodObj_iff _ x).mp good).1)
  exact Enclosure.Acyclic.of_rank falls

/-- A thing has another one as its parent; a third is made and gets that one as its own parent, and
is refused as a parent of it.  Then the second is destroyed. -/
def someOps : List Op :=
  [.createObj .thing true, .doParent 2 (some 1) true true, .doParent 0 (some 2) true true,
    .destroyObj 1]

theorem run_acyclic_iff_some :
    ((someDb 2 (fun x => if x = 1 then 0 else nothing) nothing).after ⟨10⟩ someOps).Acyclic := by
  have older (x : Int) : ((if x = 1 then 0 else -1) + 1).toNat < (x + 1).toNat ∨ x < 0 := by
    split <;> omega
  refine (run_acyclic_iff (someDb_acyclic older) someOps).mpr ?_ someOps (List.prefix_refl _)
  rw [someOps, Machine.guarded_cons_of_step _ rfl, Machine.guarded_cons_of_step _ rfl,
    Machine.guarded_cons_of_step _ rfl, Machine.guarded_cons_of_step _ rfl]
  refine ⟨trivial, fun _ _ _ above => ?_, fun _ _ _ _ => ⟨2, by decide, by decide⟩, trivial, trivial⟩
  exact absurd above (not_above 2 (by decide) (by decide))

def chainDb : Db := someDb 12 (fun x => x - 1) nothing

def danglingDb : Db := someDb 3 (fun x => if x = 2 then 1 else nothing) 1

/-- The last of a chain becomes the parent of the first, too far off to be found; and a free number
is taken for a clone of what has it as its parent. -/
theorem chain_closes :
    (chainDb.Acyclic ∧ ¬(chainDb.step ⟨10⟩ (.doParent 0 (some 11) true true)).Acyclic) ∧
      danglingDb.Acyclic ∧
        ¬(danglingDb.step ⟨10⟩ (.doClone ⟨2, true, true, true, true, true, true, 0⟩)).Acyclic := by
  have older (x : Int) : (x - 1 + 1).toNat < (x + 1).toNat ∨ x < 0 := by omega
  have older' (x : Int) : ((if x = 2 then 1 else -1) + 1).toNat < (x + 1).toNat ∨ x < 0 := by
    split <;> omega
  have chain : chainDb.Acyclic := someDb_acyclic older
  have dangling : danglingDb.Acyclic := someDb_acyclic older'
  refine ⟨⟨chain, fun after => ?_⟩, dangling, fun after => ?_⟩
  · have settled := (step_acyclic_iff chain _).mp after
    have above : chainDb.Above 11 0 := (above_iff _ _ _).mpr ⟨11, by decide, by decide⟩
    obtain ⟨level, less, there⟩ := settled rfl rfl rfl above
    have near : ∀ level < 10, chainDb.parent^[level] 11 ≠ 0 := by decide
    exact near level (Int.ofNat_lt.mp less) there
  · have settled := (step_acyclic_iff dangling _).mp after
    refine settled rfl rfl rfl (by decide) (by decide) rfl ?_
    exact (above_iff _ _ _).mpr ⟨1, by decide, by decide⟩

end BattletechMux.Objects
