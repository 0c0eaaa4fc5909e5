/-
Module: BattletechMux.Names.Agreement
Purpose: The user-defined attributes of vattr.c and the table of numbers of db.c: the two tables
  agree after every run whose calls take no name and no number twice.
-/
import BattletechMux.Hash.Iteration

namespace BattletechMux.Names

section

open Function (update)
open BattletechMux.Hash (CString Table Cursor hashfind hashadd hashdelete hashFirst forEntries)

abbrev Addr := Nat

structure Vattr where
  name : CString
  number : Int
  flags : Int
deriving DecidableEq, Repr

inductive Slot where
  | predefined
  | user (vp : Addr)
deriving DecidableEq, Repr

def vnameSize : Nat := 32
def aUserStart : Int := 256

def isAlpha (c : BitVec 8) : Bool :=
  (65 ≤ c.toNat && c.toNat ≤ 90) || (97 ≤ c.toNat && c.toNat ≤ 122)

def isAlnum (c : BitVec 8) : Bool := isAlpha c || (48 ≤ c.toNat && c.toNat ≤ 57)

/-- The other characters of a name: quote, question and exclamation mark, backquote, slash,
hyphen, underscore, point, and @#$^&~=+<>()%. -/
def nameMarks : List (BitVec 8) :=
  [39, 63, 33, 96, 47, 45, 95, 46, 64, 35, 36, 94, 38, 126, 61, 43, 60, 62, 40, 41, 37]

def okAttrName (attrname : CString) : Bool :=
  (match attrname with
    | c :: _ => isAlpha c
    | [] => false) &&
  attrname.all fun c => isAlnum c || nameMarks.contains c

def toUpper (c : BitVec 8) : BitVec 8 := if 97 ≤ c.toNat ∧ c.toNat ≤ 122 then c - 32 else c

def fixcase (name : CString) : CString := name.map toUpper

def cutName (name : CString) : CString :=
  if name.length > vnameSize then name.take (vnameSize - 1) else name

/-- The registry.  `initSize` is the setting by which the table of numbers grows. -/
structure Registry where
  vattrNameHtab : Table CString Addr
  vattr : Addr → Vattr
  live : Addr → Bool
  fresh : Addr
  anumTable : Int → Option Slot
  anumAlcTop : Int
  attrNext : Int
  initSize : Int

/-- The top of the table of numbers after `anum_extend`. -/
def extended (top delta newtop : Int) : Int :=
  if newtop ≤ top then top else if newtop < top + delta then top + delta else newtop

namespace Registry

variable (r : Registry)

def anumExtend (newtop : Int) : Registry :=
  let top := extended r.anumAlcTop r.initSize newtop
  { r with
    anumTable := fun i => if r.anumAlcTop < i ∧ i ≤ top then none else r.anumTable i
    anumAlcTop := top }

/-- `anum_set`, stuck outside the table. -/
def anumSet (number : Int) (slot : Option Slot) : Option Registry :=
  if 0 ≤ number ∧ number ≤ r.anumAlcTop then
    some { r with anumTable := update r.anumTable number slot }
  else none

def vattrFind (name : CString) : Option (Option Addr × Registry) :=
  if !okAttrName name then some (none, r)
  else do
    let (vp, htab) ← hashfind r.vattrNameHtab name
    some (vp, { r with vattrNameHtab := htab })

def vattrDefine (name : CString) (number flags : Int) : Option (Option Addr × Registry) := do
  let name := fixcase (cutName name)
  if !okAttrName name then some (none, r)
  else
    let (found, r) ← r.vattrFind name
    match found with
    | some vp => some (some vp, r)
    | none =>
      let vp := r.fresh
      let (_, htab) ← hashadd r.vattrNameHtab name vp
      let r : Registry :=
        { r with
          vattrNameHtab := htab
          vattr := update r.vattr vp ⟨name, number, flags⟩
          live := update r.live vp true
          fresh := vp + 1 }
      let r ← (r.anumExtend number).anumSet number (some (.user vp))
      some (some vp, r)

/-- The number that `vattr_alloc` takes. -/
def nextNumber : Int := if r.attrNext % 128 = 0 then r.attrNext + 1 else r.attrNext

def vattrAlloc (name : CString) (flags : Int) : Option (Option Addr × Registry) :=
  let number := r.nextNumber
  let r := { r with attrNext := number + 1 }
  (r.anumExtend number).vattrDefine name number flags

def vattrRename (name newname : CString) : Option (Option Addr × Registry) := do
  let name := fixcase name
  if !okAttrName name then some (none, r)
  else
    let newname := fixcase (cutName newname)
    if !okAttrName newname then some (none, r)
    else
      let (vp, htab) ← hashfind r.vattrNameHtab name
      let r := { r with vattrNameHtab := htab }
      match vp with
      | some vp =>
        some (some vp,
          { r with vattr := update r.vattr vp { r.vattr vp with name := newname } })
      | none => some (none, r)

/-- The record and its number are given up, and its entry. -/
def drop (vp : Addr) (name : CString) : Option Registry := do
  let r ← r.anumSet (r.vattr vp).number none
  let htab ← hashdelete r.vattrNameHtab name
  some { r with vattrNameHtab := htab, live := update r.live vp false }

def vattrDelete (name : CString) : Option Registry := do
  let name := fixcase name
  if !okAttrName name then some r
  else
    let (vp, htab) ← hashfind r.vattrNameHtab name
    let r := { r with vattrNameHtab := htab }
    match vp with
    | some vp => r.drop vp name
    | none => some r

/-- The body of the loop of `do_dbclean`, for one entry of the table. -/
def cleanEntry (notfree : Int → Bool) (r : Registry) (entry : Addr) : Option Registry :=
  let vp := r.vattrNameHtab.data entry
  if notfree (r.vattr vp).number then some r else r.drop vp (r.vattr vp).name

/-- `do_dbclean`; `notfree` says which numbers have a value on some object. -/
def doDbclean (notfree : Int → Bool) : Option Registry :=
  forEntries vattrNameHtab (cleanEntry notfree)
    (r.vattrNameHtab.hashsize * r.vattrNameHtab.allocated + 1) (hashFirst r.vattrNameHtab) r

/-- `atr_num`, for what it returns of a user-defined attribute. -/
def atrNum (anum : Int) : Option Slot :=
  if anum < aUserStart then r.anumTable anum
  else if r.anumAlcTop ≤ anum then none
  else r.anumTable anum

end Registry

inductive Op where
  | find (name : CString)
  | alloc (name : CString) (flags : Int)
  | define (name : CString) (number flags : Int)
  | rename (name newname : CString)
  | delete (name : CString)
  | dbclean (notfree : Int → Bool)

def step (r : Registry) : Op → Option Registry
  | .find name => (r.vattrFind name).map fun found => found.2
  | .alloc name flags => (r.vattrAlloc name flags).map fun found => found.2
  | .define name number flags => (r.vattrDefine name number flags).map fun found => found.2
  | .rename name newname => (r.vattrRename name newname).map fun found => found.2
  | .delete name => r.vattrDelete name
  | .dbclean notfree => r.doDbclean notfree

end

open Function (update update_self update_of_ne)
open BattletechMux.Hash (CString Contents Represents Table stringKeys hashfind)

/-! ## What the calls are to keep -/

structure Consistent (r : Registry) : Prop where
  /-- A name finds the attribute that has it, and no other does. -/
  find : ∀ name, ∃ found r', r.vattrFind name = some (found, r') ∧
    ∀ vp, found = some vp ↔ r.live vp = true ∧ (r.vattr vp).name = name
  num : ∀ vp, r.live vp = true → r.atrNum (r.vattr vp).number = some (.user vp)
  numbers : ∀ vp other, r.live vp = true → r.live other = true →
    (r.vattr vp).number = (r.vattr other).number → vp = other
  names : ∀ vp other, r.live vp = true → r.live other = true →
    (r.vattr vp).name = (r.vattr other).name → vp = other
  /-- Neither table refers to a freed attribute. -/
  slots : ∀ number vp, 0 ≤ number → number ≤ r.anumAlcTop →
    r.anumTable number = some (.user vp) → r.live vp = true ∧ (r.vattr vp).number = number
  entries : ∀ name vp htab, hashfind r.vattrNameHtab name = some (some vp, htab) →
    r.live vp = true

/-- A number that a new attribute may have: no attribute has it, and `atr_num` looks at it in
the table that is grown for it. -/
def FreeNumber (r : Registry) (number : Int) : Prop :=
  0 ≤ number ∧ (∀ vp, r.live vp = true → (r.vattr vp).number ≠ number) ∧
    (number < aUserStart ∨ number < extended r.anumAlcTop r.initSize number)

def NewName (r : Registry) (name : CString) : Prop :=
  okAttrName (fixcase (cutName name)) = true ∧
    ∀ vp, r.live vp = true → (r.vattr vp).name ≠ fixcase (cutName name)

def Sound (r : Registry) : Op → Prop
  | .alloc name _ => NewName r name → FreeNumber r r.nextNumber
  | .define name number _ => NewName r name → FreeNumber r number
  | .rename name newname =>
    okAttrName (fixcase (cutName newname)) = true →
      (∃ vp, r.live vp = true ∧ (r.vattr vp).name = fixcase name) →
        fixcase (cutName newname) = fixcase name
  | _ => True

/-! ## The table of numbers grows -/

theorem le_extended (top delta newtop : Int) :
    top ≤ extended top delta newtop ∧ newtop ≤ extended top delta newtop := by
  rw [extended]
  split
  · omega
  · split <;> omega

theorem extended_extended (top delta newtop : Int) :
    extended (extended top delta newtop) delta newtop = extended top delta newtop := by
  rw [extended, if_pos (le_extended top delta newtop).2]

theorem anumExtend_inside (r : Registry) {number : Int} (inside : number ≤ r.anumAlcTop)
    (newtop : Int) : (r.anumExtend newtop).anumTable number = r.anumTable number :=
  if_neg (by omega)

/-! ## The invariant -/

/-- The records behind the two tables; `contents` is the map that the table of names is. -/
structure Agrees (r : Registry) (chains : Nat → List Hash.Addr)
    (contents : Contents CString Addr) : Prop where
  held : Represents stringKeys r.vattrNameHtab chains contents
  named : ∀ name vp, contents name = some vp ↔ r.live vp = true ∧ (r.vattr vp).name = name
  ok : ∀ vp, r.live vp = true → okAttrName (r.vattr vp).name = true
  inside : ∀ vp, r.live vp = true → 0 ≤ (r.vattr vp).number ∧ (r.vattr vp).number ≤ r.anumAlcTop
  numbered : ∀ vp, r.live vp = true → r.anumTable (r.vattr vp).number = some (.user vp)
  answered : ∀ vp, r.live vp = true →
    (r.vattr vp).number < aUserStart ∨ (r.vattr vp).number < r.anumAlcTop
  back : ∀ number vp, 0 ≤ number → number ≤ r.anumAlcTop →
    r.anumTable number = some (.user vp) → r.live vp = true ∧ (r.vattr vp).number = number
  fresh : ∀ vp, r.fresh ≤ vp → r.live vp = false

variable {r : Registry} {chains : Nat → List Hash.Addr} {contents : Contents CString Addr}

namespace Agrees

section

variable (agrees : Agrees r chains contents)
include agrees

theorem withTable {htab : Table CString Addr}
    {chains' : Nat → List Hash.Addr} (held : Represents stringKeys htab chains' contents)
    (attrNext : Int) :
    Agrees { r with vattrNameHtab := htab, attrNext := attrNext } chains' contents where
  held := held
  named := agrees.named
  ok := agrees.ok
  inside := agrees.inside
  numbered := agrees.numbered
  answered := agrees.answered
  back := agrees.back
  fresh := agrees.fresh

theorem looked (name : CString) :
    ∃ htab chains', hashfind r.vattrNameHtab name = some (contents name, htab) ∧
      Agrees { r with vattrNameHtab := htab } chains' contents := by
  obtain ⟨htab, chains', ran, held⟩ := Hash.find_represents agrees.held name
  exact ⟨htab, chains', ran, agrees.withTable held.represents r.attrNext⟩

theorem contents_eq_none {name : CString} (bad : okAttrName name = false) :
    contents name = none := by
  cases hf : contents name with
  | none => rfl
  | some vp =>
    obtain ⟨alive, rfl⟩ := (agrees.named name vp).mp hf
    rw [agrees.ok vp alive] at bad
    cases bad

theorem found (name : CString) :
    ∃ htab chains', r.vattrFind name = some (contents name, { r with vattrNameHtab := htab }) ∧
      Agrees { r with vattrNameHtab := htab } chains' contents := by
  rw [Registry.vattrFind]
  cases bad : okAttrName name with
  | false => exact ⟨r.vattrNameHtab, chains, by rw [agrees.contents_eq_none bad]; rfl, agrees⟩
  | true =>
    obtain ⟨htab, chains', ran, agrees'⟩ := agrees.looked name
    exact ⟨htab, chains', by rw [ran]; rfl, agrees'⟩

theorem consistent : Consistent r where
  find := fun name => by
    obtain ⟨htab, _, ran, _⟩ := agrees.found name
    exact ⟨_, _, ran, agrees.named name⟩
  num := fun vp alive => by
    rw [Registry.atrNum]
    split
    · exact agrees.numbered vp alive
    · rw [if_neg, agrees.numbered vp alive]
      have := agrees.answered vp alive
      omega
  numbers := fun vp o alive alive' eq => by
    have fst := agrees.numbered vp alive
    rw [eq, agrees.numbered o alive'] at fst
    cases fst
    rfl
  names := fun vp o alive alive' eq => by
    have fst := (agrees.named _ vp).mpr ⟨alive, rfl⟩
    rw [eq, (agrees.named _ o).mpr ⟨alive', rfl⟩] at fst
    cases fst
    rfl
  slots := agrees.back
  entries := fun name vp htab ran => by
    obtain ⟨_, _, ran', _⟩ := agrees.looked name
    have eq : some vp = contents name := congrArg Prod.fst (Option.some.inj (ran.symm.trans ran'))
    exact ((agrees.named name vp).mp eq.symm).1

end

/-! ## The tables of names and numbers step by step -/

section

variable (agrees : Agrees r chains contents)
include agrees

theorem extend (newtop : Int) : Agrees (r.anumExtend newtop) chains contents where
  held := agrees.held
  named := agrees.named
  ok := agrees.ok
  inside := fun vp alive =>
    ⟨(agrees.inside vp alive).1,
      Int.le_trans (agrees.inside vp alive).2 (le_extended ..).1⟩
  numbered := fun vp alive => by
    rw [← agrees.numbered vp alive]
    exact anumExtend_inside r (agrees.inside vp alive).2 newtop
  answered := fun vp alive =>
    (agrees.answered vp alive).imp_right fun below => Int.lt_of_lt_of_le below (le_extended ..).1
  back := fun number vp low high slot => by
    by_cases old : number ≤ r.anumAlcTop
    · rw [anumExtend_inside r old] at slot
      exact agrees.back number vp low old slot
    · have empty : (r.anumExtend newtop).anumTable number = none := if_pos ⟨by omega, high⟩
      rw [empty] at slot
      cases slot
  fresh := agrees.fresh

theorem insert {name : CString} {number : Int} (flags : Int)
    (good : okAttrName name = true) (new : ∀ vp, r.live vp = true → (r.vattr vp).name ≠ name)
    (low : 0 ≤ number) (high : number ≤ r.anumAlcTop)
    (free : ∀ vp, r.live vp = true → (r.vattr vp).number ≠ number)
    (answers : number < aUserStart ∨ number < r.anumAlcTop)
    {htab : Table CString Addr} {chains' : Nat → List Hash.Addr}
    (held : Represents stringKeys htab chains' (update contents name (some r.fresh))) :
    Agrees
      { r with
        vattrNameHtab := htab
        vattr := update r.vattr r.fresh ⟨name, number, flags⟩
        live := update r.live r.fresh true
        fresh := r.fresh + 1
        anumTable := update r.anumTable number (some (.user r.fresh)) } chains'
      (update contents name (some r.fresh)) := by
  have dead := agrees.fresh r.fresh (Nat.le_refl _)
  -- the records of the others stay
  have o : ∀ vp, r.live vp = true → vp ≠ r.fresh := by
    rintro vp alive rfl
    rw [dead] at alive
    cases alive
  have record : ∀ vp, r.live vp = true →
      update r.vattr r.fresh ⟨name, number, flags⟩ vp = r.vattr vp :=
    fun vp alive => update_of_ne (o vp alive) ..
  have cases' : ∀ vp, update r.live r.fresh true vp = true → vp = r.fresh ∨ r.live vp = true := by
    intro vp alive
    by_cases eq : vp = r.fresh
    · exact Or.inl eq
    · rw [update_of_ne eq] at alive
      exact Or.inr alive
  refine ⟨held, fun key vp => ?_, fun vp alive => ?_, fun vp alive => ?_, fun vp alive => ?_,
    fun vp alive => ?_, fun i vp low' high' slot => ?_, fun vp above => ?_⟩
  · by_cases eq : vp = r.fresh
    · subst eq
      by_cases key' : key = name
      · subst key'
        simp
      · have missing : contents key ≠ some r.fresh := by
          intro hf
          have := ((agrees.named key _).mp hf).1
          rw [dead] at this
          cases this
        simp [key', missing, Ne.symm key']
    · dsimp only
      rw [update_of_ne eq, update_of_ne eq, ← agrees.named key vp]
      by_cases key' : key = name
      · subst key'
        have missing : contents key ≠ some vp := fun hf =>
          new vp ((agrees.named _ _).mp hf).1 ((agrees.named _ _).mp hf).2
        simp [missing, Ne.symm eq]
      · rw [update_of_ne key']
  · rcases cases' vp alive with rfl | alive
    · simpa using good
    · dsimp only
      rw [record vp alive]
      exact agrees.ok vp alive
  · rcases cases' vp alive with rfl | alive
    · simpa using ⟨low, high⟩
    · dsimp only
      rw [record vp alive]
      exact agrees.inside vp alive
  · rcases cases' vp alive with rfl | alive
    · simp
    · dsimp only
      rw [record vp alive, update_of_ne (free vp alive)]
      exact agrees.numbered vp alive
  · rcases cases' vp alive with rfl | alive
    · simpa using answers
    · dsimp only
      rw [record vp alive]
      exact agrees.answered vp alive
  · dsimp only at slot ⊢
    by_cases eq : i = number
    · subst eq
      rw [update_self] at slot
      cases slot
      simp
    · rw [update_of_ne eq] at slot
      obtain ⟨alive, numbered⟩ := agrees.back i vp low' high' slot
      rw [record vp alive, update_of_ne (o vp alive)]
      exact ⟨alive, numbered⟩
  · dsimp only at above ⊢
    rw [update_of_ne (Nat.ne_of_gt above)]
    exact agrees.fresh vp (Nat.le_of_lt above)

theorem define (name : CString) (number flags : Int)
    (sound : NewName r name → FreeNumber r number) :
    ∃ hf r' chains' contents', r.vattrDefine name number flags = some (hf, r') ∧
      Agrees r' chains' contents' := by
  rw [Registry.vattrDefine]
  dsimp only
  cases good : okAttrName (fixcase (cutName name)) with
  | false => exact ⟨none, r, chains, contents, rfl, agrees⟩
  | true =>
    obtain ⟨htab, chains', ran, agrees'⟩ := agrees.found (fixcase (cutName name))
    rw [ran]
    cases here : contents (fixcase (cutName name)) with
    | some vp => exact ⟨some vp, _, chains', contents, rfl, agrees'⟩
    | none =>
      have new : ∀ vp, r.live vp = true → (r.vattr vp).name ≠ fixcase (cutName name) := by
        intro vp alive eq
        rw [(agrees.named _ vp).mpr ⟨alive, eq⟩] at here
        cases here
      obtain ⟨low, free, answers⟩ := sound ⟨good, new⟩
      have grown := agrees'.extend number
      have high : number ≤ extended r.anumAlcTop r.initSize number := (le_extended ..).2
      obtain ⟨htab', chains'', added, held, _⟩ := agrees'.held.add_new here r.fresh
      have inserted := grown.insert flags good new low high free
        (answers.imp_right id) held
      refine ⟨some r.fresh, _, chains'', _, ?_, inserted⟩
      have set : Hash.hashadd htab (fixcase (cutName name)) r.fresh = some (0, htab') := added
      simp only [Bool.not_true, Bool.false_eq_true, if_false, Option.bind_eq_bind,
        Option.bind_some, set]
      rw [Registry.anumSet, if_pos ⟨low, high⟩]
      rfl

theorem drop {i : Nat} {pre post : List Hash.Addr}
    {e : Hash.Addr} (inside : i < r.vattrNameHtab.hashsize)
    (split : chains i = pre ++ e :: post) :
    ∃ r', r.drop (r.vattrNameHtab.data e) (r.vattr (r.vattrNameHtab.data e)).name =
        some r' ∧
      Agrees r' (update chains i (pre ++ post))
        (update contents (r.vattrNameHtab.target e) none) ∧
      r'.vattrNameHtab.next e = post.head? ∧
      r'.vattrNameHtab.hashsize = r.vattrNameHtab.hashsize := by
  have there := agrees.held.contents_target inside
    (show e ∈ chains i by rw [split]; exact List.mem_append_right _ List.mem_cons_self)
  obtain ⟨alive, name⟩ := (agrees.named _ _).mp there
  obtain ⟨htab, ran, held, next, size, _⟩ := agrees.held.delete_at inside split
  generalize r.vattrNameHtab.data e = vp at alive name there
  have range := agrees.inside vp alive
  -- the others have other names and numbers
  have o : ∀ vp', vp' ≠ vp → r.live vp' = true →
      (r.vattr vp').name ≠ r.vattrNameHtab.target e ∧
        (r.vattr vp').number ≠ (r.vattr vp).number := by
    intro vp' ne alive'
    constructor
    · exact fun eq => ne
        (agrees.consistent.names vp' vp alive' alive (eq.trans name.symm))
    · exact fun eq => ne (agrees.consistent.numbers vp' vp alive' alive eq)
  have rest : ∀ vp', update r.live vp false vp' = true → vp' ≠ vp ∧ r.live vp' = true := by
    intro vp' alive'
    by_cases eq : vp' = vp
    · rw [eq, update_self] at alive'
      cases alive'
    · rw [update_of_ne eq] at alive'
      exact ⟨eq, alive'⟩
  let r' : Registry :=
    { r with
      anumTable := update r.anumTable (r.vattr vp).number none
      vattrNameHtab := htab
      live := update r.live vp false }
  refine ⟨r', ?_, ⟨held, fun key vp' => ?_, fun vp' alive' => ?_, fun vp' alive' => ?_,
    fun vp' alive' => ?_, fun vp' alive' => ?_, fun number vp' low high slot => ?_,
    fun vp' above => ?_⟩, ?_, ?_⟩
  · rw [name]
    have set : Hash.hashdelete r.vattrNameHtab (r.vattrNameHtab.target e) = some htab := ran
    simp only [Registry.drop, Registry.anumSet, if_pos range, Option.bind_eq_bind,
      Option.bind_some, set]
    rfl
  · dsimp only [r']
    by_cases eq : vp' = vp
    · subst eq
      rw [update_self]
      by_cases key' : key = r.vattrNameHtab.target e
      · simp [key']
      · rw [update_of_ne key', agrees.named key vp', name]
        simp [Ne.symm key']
    · rw [update_of_ne eq, ← agrees.named key vp']
      by_cases key' : key = r.vattrNameHtab.target e
      · rw [key', update_self, there]
        simp [Ne.symm eq]
      · rw [update_of_ne key']
  · exact agrees.ok vp' (rest vp' alive').2
  · exact agrees.inside vp' (rest vp' alive').2
  · obtain ⟨ne, alive'⟩ := rest vp' alive'
    dsimp only [r']
    rw [update_of_ne (o vp' ne alive').2]
    exact agrees.numbered vp' alive'
  · exact agrees.answered vp' (rest vp' alive').2
  · dsimp only [r'] at slot ⊢
    by_cases eq : number = (r.vattr vp).number
    · rw [eq, update_self] at slot
      cases slot
    · rw [update_of_ne eq] at slot
      obtain ⟨alive', numbered⟩ := agrees.back number vp' low high slot
      have ne : vp' ≠ vp := by
        rintro rfl
        exact eq numbered.symm
      rw [update_of_ne ne]
      exact ⟨alive', numbered⟩
  · dsimp only [r']
    by_cases eq : vp' = vp
    · rw [eq, update_self]
    · rw [update_of_ne eq]
      exact agrees.fresh vp' above
  · exact next
  · exact size

end

end Agrees

/-! ## Calls and runs -/

def Agree (r : Registry) : Prop := ∃ chains contents, Agrees r chains contents

section

variable (agrees : Agrees r chains contents)
include agrees

theorem alloc_agree (name : CString) (flags : Int) (sound : Sound r (.alloc name flags)) :
    ∃ r', step r (.alloc name flags) = some r' ∧ Agree r' := by
  have grown := (agrees.withTable agrees.held (r.nextNumber + 1)).extend r.nextNumber
  obtain ⟨hf, r', chains', contents', ran, agrees'⟩ := grown.define name r.nextNumber flags
    fun new => by
      obtain ⟨low, free, answers⟩ := sound new
      refine ⟨low, free, answers.imp_right fun below => ?_⟩
      exact (extended_extended r.anumAlcTop r.initSize r.nextNumber).symm ▸ below
  exact ⟨r', congrArg (Option.map Prod.snd) ran, _, _, agrees'⟩

theorem rename_agree (name newname : CString) (sound : Sound r (.rename name newname)) :
    ∃ r', step r (.rename name newname) = some r' ∧ Agree r' := by
  rw [step, Registry.vattrRename]
  dsimp only
  cases old : okAttrName (fixcase name) with
  | false => exact ⟨r, rfl, _, _, agrees⟩
  | true =>
    cases new : okAttrName (fixcase (cutName newname)) with
    | false => exact ⟨r, rfl, _, _, agrees⟩
    | true =>
      obtain ⟨htab, chains', ran, agrees'⟩ := agrees.looked (fixcase name)
      rw [ran]
      cases here : contents (fixcase name) with
      | none => exact ⟨_, rfl, _, _, agrees'⟩
      | some vp =>
        obtain ⟨alive, named⟩ := (agrees.named _ vp).mp here
        have eq := sound new ⟨vp, alive, named⟩
        have unchanged : update r.vattr vp
            { r.vattr vp with name := fixcase (cutName newname) } = r.vattr := by
          rw [eq, ← named]
          exact Function.update_eq_self vp r.vattr
        refine ⟨{ r with vattrNameHtab := htab }, ?_, _, _, agrees'⟩
        simp only [Bool.not_true, Bool.false_eq_true, if_false, Option.bind_eq_bind,
          Option.bind_some, Option.map_some]
        rw [unchanged]

theorem delete_agree (name : CString) : ∃ r', step r (.delete name) = some r' ∧ Agree r' := by
  rw [step, Registry.vattrDelete]
  dsimp only
  cases good : okAttrName (fixcase name) with
  | false => exact ⟨r, rfl, _, _, agrees⟩
  | true =>
    obtain ⟨htab, chains', ran, agrees'⟩ := agrees.looked (fixcase name)
    rw [ran]
    cases here : contents (fixcase name) with
    | none => exact ⟨_, rfl, _, _, agrees'⟩
    | some vp =>
      -- the entry of the name, and that of the attribute
      obtain ⟨e, mem, target, data⟩ := (agrees'.held.contents _ vp).mp here
      obtain ⟨pre, post, split⟩ := List.append_of_mem mem
      obtain ⟨r', dropped, agrees'', _⟩ := agrees'.drop (agrees'.held.hval_lt _) split
      refine ⟨r', ?_, _, _, agrees''⟩
      have named := ((agrees.named _ vp).mp here).2
      dsimp only at target data dropped
      rw [data, named] at dropped
      exact dropped

theorem dbclean_agree (notfree : Int → Bool) :
    ∃ r', step r (.dbclean notfree) = some r' ∧ Agree r' := by
  let Good : Registry → (Nat → List Hash.Addr) → Prop := fun s chains =>
    s.vattrNameHtab.hashsize = r.vattrNameHtab.hashsize ∧ ∃ contents, Agrees s chains contents
  have h : ∀ {s chains}, Good s chains →
      s.vattrNameHtab.hashsize = r.vattrNameHtab.hashsize ∧
      ∀ i < r.vattrNameHtab.hashsize,
        LinkedMemory.Chain s.vattrNameHtab.next (s.vattrNameHtab.element i) (chains i) := by
    rintro s chains ⟨size, contents, agrees⟩
    exact ⟨size, size ▸ agrees.held.chain⟩
  have round : ∀ {s chains i pre e post}, Good s chains → i < r.vattrNameHtab.hashsize →
      chains i = pre ++ e :: post →
      ∃ s' kept, Registry.cleanEntry notfree s e = some s' ∧
        s'.vattrNameHtab.next e = post.head? ∧
        Good s' (update chains i (pre ++ kept ++ post)) := by
    rintro s chains i pre e post ⟨size, contents, agrees⟩ inside split
    rw [← size] at inside
    rw [Registry.cleanEntry]
    split
    · -- the entry stays
      have chain := agrees.held.chain i inside
      rw [split] at chain
      refine ⟨s, [e], rfl, chain.next_eq_head.head_eq, size, contents, ?_⟩
      rw [List.append_assoc, List.singleton_append, ← split, Function.update_eq_self]
      exact agrees
    · obtain ⟨s', ran, agrees', next, size'⟩ := agrees.drop inside split
      refine ⟨s', [], ran, next, size'.trans size,
        update contents (s.vattrNameHtab.target e) none, ?_⟩
      rw [List.append_nil]
      exact agrees'
  obtain ⟨r', chains', ran, _, contents', agrees'⟩ :=
    @Hash.forEntries_spec CString Addr Registry r.vattrNameHtab.hashsize Registry.vattrNameHtab
      (Registry.cleanEntry notfree) Good @h @round r chains ⟨rfl, contents, agrees⟩ _
      (Nat.lt_succ_of_le agrees.held.entries_le)
  exact ⟨r', ran, chains', contents', agrees'⟩

end

theorem step_agree (op : Op) (agree : Agree r) (sound : Sound r op) :
    ∃ r', step r op = some r' ∧ Agree r' := by
  obtain ⟨chains, contents, agrees⟩ := agree
  cases op with
  | find name =>
    obtain ⟨htab, chains', ran, agrees'⟩ := agrees.found name
    exact ⟨_, congrArg (Option.map Prod.snd) ran, _, _, agrees'⟩
  | alloc name flags => exact alloc_agree agrees name flags sound
  | define name number flags =>
    obtain ⟨hf, r', chains', contents', ran, agrees'⟩ :=
      agrees.define name number flags sound
    exact ⟨r', congrArg (Option.map Prod.snd) ran, _, _, agrees'⟩
  | rename name newname => exact rename_agree agrees name newname sound
  | delete name => exact delete_agree agrees name
  | dbclean notfree => exact dbclean_agree agrees notfree

/-- What `vattr_init` and the table of the predefined attributes leave. -/
structure Start (r : Registry) : Prop where
  table : ∃ (htab : Table CString Addr) (size : Int), r.vattrNameHtab = htab.init size
  live : ∀ vp, r.live vp = false
  slots : ∀ number vp, r.anumTable number ≠ some (.user vp)

theorem Start.agree (start : Start r) : Agree r := by
  obtain ⟨_, size, table⟩ := start.table
  have dead : ∀ {vp}, ¬ r.live vp = true := by
    intro vp
    rw [start.live vp]
    exact Bool.false_ne_true
  refine ⟨fun _ => [], fun _ => none, ?_, fun name vp => ?_, fun vp alive => absurd alive dead,
    fun vp alive => absurd alive dead, fun vp alive => absurd alive dead,
    fun vp alive => absurd alive dead,
    fun number vp _ _ slot => absurd slot (start.slots number vp), fun vp _ => start.live vp⟩
  · rw [table]
    exact Hash.init_represents _ size
  · simp [dead]

/-- In every run whose calls are sound the tables agree in every state reached. -/
theorem sound_calls_consistent (start : Start r) {ops : List Op}
    (sound : Machine.Guarded step Sound r ops) :
    ∃ r', Machine.run step r ops = some r' ∧ Consistent r' := by
  obtain ⟨r', ran, _, _, agrees⟩ := Machine.guarded_invariant
    (fun _ op agree sound => step_agree op agree sound) start.agree sound
  exact ⟨r', ran, agrees.consistent⟩

/-- The registry before the first attribute, with a table of four chains. -/
def blank : Registry where
  vattrNameHtab := Table.blank.init 4
  vattr := fun _ => ⟨[], 0, 0⟩
  live := fun _ => false
  fresh := 0
  anumTable := fun _ => none
  anumAlcTop := 0
  attrNext := aUserStart
  initSize := 1000

theorem blank_start : Start blank where
  table := ⟨Table.blank, 4, rfl⟩
  live := fun _ => rfl
  slots := fun _ _ slot => by cases slot

/-- An attribute is made, looked up, renamed to the name it has, and cleaned away. -/
theorem sound_calls_consistent_cleaned :
    ∃ r', Machine.run step blank
        [.alloc [97] 0, .find [65], .rename [97] [65], .dbclean fun _ => false] = some r' ∧
      Consistent r' := by
  apply sound_calls_consistent blank_start
  refine ⟨fun _ => ⟨by decide, ?_, Or.inr (by decide)⟩, fun _ _ => ⟨trivial, fun _ _ => ⟨?_, ?_⟩⟩⟩
  · rintro vp ⟨⟩
  · exact fun _ _ => by decide
  · exact fun _ _ => ⟨trivial, fun _ _ => trivial⟩

/-- After a renaming the attribute is not found under its name. -/
theorem renamed_is_not_found :
    ¬ ∀ r' : Registry, Machine.run step blank [.alloc [65] 0, .rename [65] [66]] = some r' →
      Consistent r' := by
  intro consistent
  have outcome : (Machine.run step blank [.alloc [65] 0, .rename [65] [66]]).map (fun r' =>
      (r'.live 0, (r'.vattr 0).name, (r'.vattrFind [66]).map Prod.fst)) =
        some (true, [66], some none) := by decide
  obtain ⟨r', ran, after⟩ := Option.map_eq_some_iff.mp outcome
  simp only [Prod.mk.injEq] at after
  obtain ⟨alive, name, missing⟩ := after
  obtain ⟨found, r'', looked, names⟩ := (consistent r' ran).find [66]
  rw [looked] at missing
  cases missing
  cases (names 0).mpr ⟨alive, name⟩

end BattletechMux.Names
