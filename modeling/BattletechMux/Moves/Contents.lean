/-
Module: BattletechMux.Moves.Contents
Purpose: Every player and every thing is on the list of its location and on no other, and every step
  of the movers keeps it so.
-/
import BattletechMux.Foundation.Chain
import BattletechMux.Foundation.Enclosure
import BattletechMux.Moves.Movers
import BattletechMux.Foundation.Machine

namespace BattletechMux.Moves

section

open Option
open List hiding Chain
open Function (update update_self update_of_ne)
open LinkedMemory (Chain)
open Enclosure (Acyclic)
open Relation (TransGen ReflTransGen)

def pointer (x : Dbref) : Option Dbref := if x = nothing then none else some x

theorem pointer_eq_some {x y : Dbref} : pointer x = some y ↔ x = y ∧ y ≠ nothing := by
  rw [pointer]
  split
  · rename_i is
    exact iff_of_false nofun fun eq => eq.2 (eq.1 ▸ is)
  · rename_i o
    exact ⟨fun eq => some.inj eq ▸ ⟨rfl, o⟩, fun eq => congrArg some eq.1⟩

theorem pointer_eq_none {x : Dbref} : pointer x = none ↔ x = nothing := by
  rw [pointer]
  split
  · rename_i is
    exact iff_of_true rfl is
  · rename_i o
    exact iff_of_false nofun o

namespace Db

def Listed (db : Db) (head : Dbref) (cells : List Dbref) : Prop :=
  Chain (fun x => pointer (db.next x)) (pointer head) cells

/-- A player or a thing, other than `out`, is in a place. -/
def Within (db : Db) (out : Option Dbref) (x y : Dbref) : Prop :=
  db.movable x = true ∧ out ≠ some x ∧ db.location x = y

end Db

/-- The lists of contents are `lists`, and nothing is inside itself; `out` is on no list. -/
structure Kept (db : Db) (lists : Dbref → List Dbref) (out : Option Dbref) : Prop where
  listed : ∀ p, db.goodObj p = true → db.Listed (db.contents p) (lists p)
  member : ∀ p x, x ∈ lists p ↔ db.Within out x p
  located : ∀ x, db.movable x = true → out ≠ some x → db.goodObj (db.location x) = true
  inside : ∀ x, db.movable x = true → db.goodObj x = true
  acyclic : Acyclic (db.Within out)

variable {db db' : Db} {lists : Dbref → List Dbref} {out : Option Dbref} {thing dest : Dbref}

theorem good_iff {x : Int} : db.goodObj x = true ↔ (0 : Int) ≤ x ∧ x < (db.dbTop : Int) :=
  decide_eq_true_iff

theorem ne_nothing_of_good {x : Int} (good : db.goodObj x = true) : x ≠ nothing := by
  intro eq
  have low := (good_iff.mp good).1
  rw [eq] at low
  exact absurd low (by decide)

variable {cells : List Dbref}

theorem length_le_dbTop (nodup : cells.Nodup) (good : ∀ x ∈ cells, db.goodObj x = true) :
    cells.length ≤ db.dbTop := by
  have small := @LinkedMemory.length_le_of_lt (cells.map Int.toNat) db.dbTop
    (Nodup.map_on (fun x member y member' eq => by
      have low := (good_iff.mp (good x member)).1
      have low' := (good_iff.mp (good y member')).1
      omega) nodup)
    fun n member => by
      obtain ⟨x, inside, rfl⟩ := mem_map.mp member
      have bounds := good_iff.mp (good x inside)
      omega
  rwa [length_map] at small

theorem Db.Listed.setNext {head x to' : Dbref} (listed : db.Listed head cells)
    (outside : x ∉ cells) : (db.setNext x to').Listed head cells :=
  Chain.congr listed fun y member => by
    have ne : y ≠ x := fun eq => outside (eq ▸ member)
    exact congrArg pointer (update_of_ne ne ..)

/-! ## remove_first -/

variable {limit : Nat}

theorem removeLoop_spec {front post : List Dbref} {pred prev : Dbref}
    (listed : db.Listed prev (front ++ pred :: thing :: post)) (hlt : front.length < limit) :
    db.removeLoop thing limit prev = some (db.setNext pred (db.next thing)) := by
  obtain ⟨limit, rfl⟩ := Nat.exists_eq_succ_of_ne_zero (Nat.ne_of_gt (Nat.zero_lt_of_lt hlt))
  induction front generalizing prev limit with
  | nil =>
    have nodup := Chain.nodup listed
    obtain ⟨start, link, _⟩ := listed
    obtain ⟨rfl, some'⟩ := pointer_eq_some.mp start
    obtain ⟨following, _⟩ := pointer_eq_some.mp link
    rw [Db.removeLoop, if_neg, if_pos following]
    rintro (none' | self)
    · exact some' none'
    · rw [following] at self
      exact (nodup_cons.mp nodup).1 (self ▸ mem_cons_self)
  | cons fst front ih =>
    obtain ⟨limit, rfl⟩ := Nat.exists_eq_succ_of_ne_zero (show limit ≠ 0 by
      rw [length_cons] at hlt
      omega)
    have nodup := Chain.nodup listed
    obtain ⟨start, rest⟩ := listed
    obtain ⟨rfl, some'⟩ := pointer_eq_some.mp start
    have notFirst := (nodup_cons.mp nodup).1
    -- the next one is not the thing, which comes later
    have next : db.next prev ∈ front ++ pred :: thing :: post ∧ db.next prev ≠ thing := by
      cases front with
      | nil =>
        obtain ⟨eq, _⟩ := pointer_eq_some.mp rest.1
        rw [eq]
        refine ⟨mem_cons_self, fun is => ?_⟩
        have later := (nodup_cons.mp (nodup_cons.mp nodup).2).1
        exact later (is ▸ mem_cons_self)
      | cons snd more =>
        obtain ⟨eq, _⟩ := pointer_eq_some.mp rest.1
        rw [eq]
        refine ⟨mem_cons_self, fun is => ?_⟩
        have later := (nodup_cons.mp (nodup_cons.mp nodup).2).1
        exact later (is ▸ mem_append_right more
          (mem_cons_of_mem pred mem_cons_self))
    rw [Db.removeLoop, if_neg, if_neg next.2]
    · refine ih rest limit ?_
      rw [length_cons] at hlt
      omega
    · rintro (none' | self)
      · exact some' none'
      · exact notFirst (self ▸ next.1)

theorem removeLoop_none {prev : Dbref}
    (listed : db.Listed prev cells) (outside : thing ∉ cells) (some' : thing ≠ nothing)
    (hlt : cells.length < limit) : db.removeLoop thing limit prev = some db := by
  obtain ⟨limit, rfl⟩ := Nat.exists_eq_succ_of_ne_zero (Nat.ne_of_gt (Nat.zero_lt_of_lt hlt))
  induction cells generalizing prev limit with
  | nil => exact if_pos (Or.inl (pointer_eq_none.mp listed))
  | cons cell cells ih =>
    obtain ⟨start, rest⟩ := listed
    obtain ⟨rfl, _⟩ := pointer_eq_some.mp start
    rw [length_cons] at hlt
    obtain ⟨limit, rfl⟩ := Nat.exists_eq_succ_of_ne_zero (show limit ≠ 0 by omega)
    rw [mem_cons, not_or] at outside
    rw [Db.removeLoop]
    split
    · rfl
    · rw [if_neg]
      · exact ih rest outside.2 limit (by omega)
      · intro hf
        cases cells with
        | nil =>
          exact some' (hf.symm.trans (pointer_eq_none.mp rest))
        | cons snd more =>
          obtain ⟨eq, _⟩ := pointer_eq_some.mp rest.1
          exact outside.2 (hf ▸ eq ▸ mem_cons_self)

theorem removeFirst_spec {head : Dbref} {pre post : List Dbref}
    (listed : db.Listed head (pre ++ thing :: post))
    (short : (pre ++ thing :: post).length ≤ db.dbTop) :
    ∃ head' next', db.removeFirst head thing = some (head', { db with next := next' }) ∧
      ({ db with next := next' } : Db).Listed head' (pre ++ post) ∧
      ∀ x, x ∉ pre → next' x = db.next x := by
  rcases eq_nil_or_concat pre with rfl | ⟨front, pred, rfl⟩
  · obtain ⟨eq, _⟩ := pointer_eq_some.mp listed.1
    exact ⟨db.next thing, db.next, if_pos eq, listed.2, fun _ _ => rfl⟩
  · rw [concat_eq_append] at *
    rw [append_assoc, singleton_append] at listed
    have nodup := Chain.nodup listed
    have fst : head ≠ thing := by
      intro is
      cases front with
      | nil =>
        obtain ⟨eq, _⟩ := pointer_eq_some.mp listed.1
        exact (nodup_cons.mp nodup).1 (eq ▸ is ▸ mem_cons_self)
      | cons o more =>
        obtain ⟨eq, _⟩ := pointer_eq_some.mp listed.1
        exact (nodup_cons.mp nodup).1 (eq ▸ is ▸ mem_append_right more
          (mem_cons_of_mem pred mem_cons_self))
    have hlt : front.length < db.dbTop + 1 := by
      simp only [length_append, length_cons] at short
      omega
    have loop := removeLoop_spec listed hlt
    refine ⟨head, update db.next pred (db.next thing), ?_, ?_, fun x notBefore => ?_⟩
    · rw [Db.removeFirst, if_neg fst, loop]
      rfl
    · have skipped := Chain.skip listed
      rw [append_assoc, singleton_append]
      refine skipped.congr fun x _ => ?_
      by_cases eq : x = pred
      · subst eq
        dsimp only
        rw [update_self, update_self]
      · dsimp only
        rw [update_of_ne eq, update_of_ne eq]
    · exact update_of_ne (fun eq => notBefore (by simp [eq])) ..

/-! ## Taking out and putting in -/

theorem Kept.lists_good (kept : Kept db lists out) {p x : Dbref} (member : x ∈ lists p) :
    db.goodObj x = true := kept.inside x ((kept.member p x).mp member).1

theorem Kept.out_notMem (kept : Kept db lists (some thing)) (p : Dbref) : thing ∉ lists p :=
  fun member => ((kept.member p thing).mp member).2.1 rfl

theorem Kept.length_le (kept : Kept db lists out) {p : Dbref} (good : db.goodObj p = true) :
    (lists p).length ≤ db.dbTop :=
  length_le_dbTop (Chain.nodup (kept.listed p good)) fun _ => kept.lists_good

theorem takeOut_spec (kept : Kept db lists none) (movable : db.movable thing = true) :
    ∃ db' lists', db.takeOut thing = some db' ∧ Kept db' lists' (some thing) ∧
      db'.typeOf = db.typeOf ∧ db'.dbTop = db.dbTop ∧ db'.location = db.location := by
  have place := kept.located thing movable nofun
  obtain ⟨pre, post, split⟩ := append_of_mem
    ((kept.member (db.location thing) thing).mpr ⟨movable, nofun, rfl⟩)
  have listed := kept.listed _ place
  rw [split] at listed
  obtain ⟨head, next, removed, listed', others⟩ := removeFirst_spec listed
    (split ▸ kept.length_le place)
  let db' : Db := ({ db with next := next } : Db).setContents (db.location thing) head
  have nodup := Chain.nodup listed
  have outside : thing ∉ pre ++ post := (nodup_middle.mp nodup).notMem
  have member : ∀ p x, x ∈ update lists (db.location thing) (pre ++ post) p ↔
      db'.Within (some thing) x p := by
    intro p x
    have within : db'.Within (some thing) x p ↔ x ≠ thing ∧ x ∈ lists p := by
      rw [kept.member p x]
      constructor
      · rintro ⟨is, o, there⟩
        exact ⟨fun eq => o (congrArg some eq.symm), is, nofun, there⟩
      · rintro ⟨o, is, _, there⟩
        exact ⟨is, fun eq => o (some.inj eq).symm, there⟩
    rw [within]
    by_cases eq : p = db.location thing
    · subst eq
      rw [update_self, split]
      constructor
      · intro inList
        refine ⟨fun is => outside (is ▸ inList), ?_⟩
        rcases mem_append.mp inList with earlier | later
        · exact mem_append_left _ earlier
        · exact mem_append_right _ (mem_cons_of_mem thing later)
      · rintro ⟨o, inList⟩
        simpa [o] using inList
    · rw [update_of_ne eq]
      refine ⟨fun inList => ⟨fun is => eq ?_, inList⟩, And.right⟩
      rw [is] at inList
      exact ((kept.member p thing).mp inList).2.2.symm
  refine ⟨db', _, ?_, ⟨fun p good => ?_, member, fun x is _ => kept.located x is
    nofun, kept.inside, kept.acyclic.mono fun x y within => ?_⟩,
    rfl, rfl, rfl⟩
  · rw [Db.takeOut, if_neg (ne_nothing_of_good place), removed]
    rfl
  · by_cases eq : p = db.location thing
    · subst eq
      rw [update_self, show db'.contents (db.location thing) = head from
        update_self ..]
      exact listed'
    · rw [update_of_ne eq, show db'.contents p = db.contents p from
        update_of_ne eq ..]
      refine Chain.congr (kept.listed p good) fun x inList => congrArg pointer (others x ?_)
      intro inBefore
      have there : x ∈ lists (db.location thing) := split ▸ mem_append_left _ inBefore
      exact eq (((kept.member p x).mp inList).2.2.symm.trans ((kept.member _ x).mp there).2.2)
  · exact ⟨within.1, nofun, within.2.2⟩

theorem putInto_spec (kept : Kept db lists (some thing)) (movable : db.movable thing = true)
    (good : db.goodObj dest = true)
    (outside : ¬ReflTransGen (db.Within (some thing)) dest thing) :
    Kept (db.putInto thing dest) (update lists dest (thing :: lists dest)) none ∧
      (db.putInto thing dest).typeOf = db.typeOf ∧ (db.putInto thing dest).dbTop = db.dbTop := by
  have put : db.putInto thing dest =
      { db with
        next := update db.next thing (db.contents dest)
        contents := update db.contents dest thing
        location := update db.location thing dest } := by
    rw [Db.putInto, if_neg (ne_nothing_of_good good)]
    rfl
  rw [put]
  let db' : Db :=
    { db with
      next := update db.next thing (db.contents dest)
      contents := update db.contents dest thing
      location := update db.location thing dest }
  have location : ∀ x, x ≠ thing → db'.location x = db.location x := fun x ne =>
    update_of_ne ne ..
  have here : db'.location thing = dest := update_self ..
  have older : ∀ {p x}, x ∈ lists p → x ≠ thing := fun inList eq =>
    kept.out_notMem _ (eq ▸ inList)
  have within : ∀ x p, db'.Within none x p ↔
      db.Within (some thing) x p ∨ x = thing ∧ p = dest := by
    intro x p
    by_cases eq : x = thing
    · subst eq
      refine ⟨fun is => Or.inr ⟨rfl, is.2.2.symm.trans here⟩, fun either => ?_⟩
      rcases either with is | is
      · exact absurd rfl is.2.1
      · exact ⟨movable, nofun, here.trans is.2.symm⟩
    · constructor
      · rintro ⟨is, _, there⟩
        exact Or.inl ⟨is, fun absurd => eq (some.inj absurd).symm,
          (location x eq).symm.trans there⟩
      · rintro (is | is)
        · exact ⟨is.1, nofun, (location x eq).trans is.2.2⟩
        · exact absurd is.1 eq
  refine ⟨⟨fun p inDb => ?_, fun p x => ?_, fun x is _ => ?_, kept.inside, ?_⟩, rfl, rfl⟩
  · by_cases eq : p = dest
    · subst eq
      rw [update_self]
      refine ⟨?_, ?_⟩
      · rw [show db'.contents p = thing from update_self ..]
        exact pointer_eq_some.mpr ⟨rfl, ne_nothing_of_good (kept.inside thing movable)⟩
      · have link : pointer (db'.next thing) = pointer (db.contents p) :=
          congrArg pointer (update_self ..)
        change Chain (fun x => pointer (db'.next x)) (pointer (db'.next thing)) (lists p)
        rw [link]
        exact Chain.congr (kept.listed p inDb) fun x inList =>
          congrArg pointer (update_of_ne (older inList) ..)
    · rw [update_of_ne eq, show db'.contents p = db.contents p from
        update_of_ne eq ..]
      exact Chain.congr (kept.listed p inDb) fun x inList =>
        congrArg pointer (update_of_ne (older inList) ..)
  · rw [within]
    by_cases eq : p = dest
    · subst eq
      rw [update_self, mem_cons, kept.member]
      tauto
    · rw [update_of_ne eq, kept.member]
      tauto
  · by_cases eq : x = thing
    · rw [eq, here]
      exact good
    · rw [location x eq]
      exact kept.located x is fun absurd => eq (some.inj absurd).symm
  · exact kept.acyclic.move (fun x y => (within x y).mp) outside

theorem moveObject_spec (kept : Kept db lists none) (movable : db.movable thing = true)
    (good : db.goodObj dest = true) (outside : ¬ReflTransGen (db.Within none) dest thing) :
    ∃ db' lists', db.moveObject thing dest = some db' ∧ Kept db' lists' none := by
  obtain ⟨db₁, lists₁, taken, kept₁, typeOf, dbTop, location⟩ := takeOut_spec kept movable
  have movable₁ : db₁.movable thing = true := by rwa [Db.movable, typeOf]
  have good₁ : db₁.goodObj dest = true := by rwa [Db.goodObj, dbTop]
  have fewer : ∀ x y, db₁.Within (some thing) x y → db.Within none x y := fun x y within =>
    ⟨by have := within.1; rwa [Db.movable, typeOf] at this, nofun,
      location ▸ within.2.2⟩
  obtain ⟨kept', _⟩ := putInto_spec kept₁ movable₁ good₁
    fun inside => outside (ReflTransGen.mono fewer _ _ inside)
  exact ⟨_, _, by rw [Db.moveObject, taken]; rfl, kept'⟩

/-! ## Lists that are walked through -/

theorem someOf_spec (is : Dbref → Bool) {head : Dbref}
    (listed : db.Listed head cells) (hlt : cells.length < limit) :
    ∃ hf, db.someOf is limit head = some hf := by
  obtain ⟨limit, rfl⟩ := Nat.exists_eq_succ_of_ne_zero (Nat.ne_of_gt (Nat.zero_lt_of_lt hlt))
  induction cells generalizing head limit with
  | nil => exact ⟨false, if_pos (Or.inl (pointer_eq_none.mp listed))⟩
  | cons cell cells ih =>
    obtain ⟨start, rest⟩ := listed
    obtain ⟨rfl, _⟩ := pointer_eq_some.mp start
    rw [length_cons] at hlt
    obtain ⟨limit, rfl⟩ := Nat.exists_eq_succ_of_ne_zero (show limit ≠ 0 by omega)
    rw [Db.someOf]
    split
    · exact ⟨false, rfl⟩
    · split
      · exact ⟨true, rfl⟩
      · exact ih rest limit (by omega)

theorem reverseLoop_spec {list newlist : Dbref} {cells turned : List Dbref}
    (listed : db.Listed list cells) (behind : db.Listed newlist turned)
    (nodup : (cells ++ turned).Nodup) (hlt : cells.length < limit) :
    ∃ head next, Db.reverseLoop limit list newlist db = some (head, { db with next := next }) ∧
      ({ db with next := next } : Db).Listed head (cells.reverse ++ turned) ∧
      ∀ x, x ∉ cells → next x = db.next x := by
  obtain ⟨limit, rfl⟩ := Nat.exists_eq_succ_of_ne_zero (Nat.ne_of_gt (Nat.zero_lt_of_lt hlt))
  induction cells generalizing list newlist turned limit db with
  | nil =>
    exact ⟨newlist, db.next, if_pos (pointer_eq_none.mp listed), behind, fun _ _ => rfl⟩
  | cons cell cells ih =>
    obtain ⟨start, rest⟩ := listed
    obtain ⟨rfl, some'⟩ := pointer_eq_some.mp start
    rw [length_cons] at hlt
    rw [cons_append, nodup_cons, mem_append, not_or] at nodup
    obtain ⟨⟨notLater, notTurned⟩, nodup⟩ := nodup
    obtain ⟨limit, rfl⟩ := Nat.exists_eq_succ_of_ne_zero (show limit ≠ 0 by omega)
    have rest' : (db.setNext list newlist).Listed (db.next list) cells :=
      Db.Listed.setNext rest notLater
    have behind' : (db.setNext list newlist).Listed list (list :: turned) := by
      refine ⟨pointer_eq_some.mpr ⟨rfl, some'⟩, ?_⟩
      change Chain _ (pointer (update db.next list newlist list)) turned
      rw [update_self]
      exact Db.Listed.setNext behind notTurned
    obtain ⟨head, next, ran, listed', others⟩ := ih rest' behind'
      (nodup_middle.mpr (nodup_cons.mpr
        ⟨by simp [notLater, notTurned], nodup⟩)) limit (by omega)
    refine ⟨head, next, ?_, ?_, fun x outside => ?_⟩
    · rw [Db.reverseLoop, if_neg some']
      exact ran
    · rwa [reverse_cons, append_assoc, singleton_append]
    · rw [mem_cons, not_or] at outside
      rw [others x outside.2]
      exact update_of_ne outside.1 ..

theorem reverse_spec (kept : Kept db lists none) {loc : Dbref} (good : db.goodObj loc = true) :
    ∃ head db', db.reverseList (db.contents loc) = some (head, db') ∧
      Kept (db'.setContents loc head) (update lists loc (lists loc).reverse) none := by
  have nodup := Chain.nodup (kept.listed loc good)
  obtain ⟨head, next, ran, listed, others⟩ := reverseLoop_spec (kept.listed loc good)
    (show db.Listed nothing [] from rfl) (by rwa [append_nil])
    (Nat.lt_succ_of_le (kept.length_le good))
  rw [append_nil] at listed
  refine ⟨head, _, ran, fun p inDb => ?_, fun p x => ?_, kept.located, kept.inside,
    kept.acyclic⟩
  · by_cases eq : p = loc
    · subst eq
      rw [update_self]
      change Db.Listed _ (update db.contents p head p) _
      rw [update_self]
      exact listed
    · rw [update_of_ne eq]
      change Db.Listed _ (update db.contents loc head p) _
      rw [update_of_ne eq]
      refine Chain.congr (kept.listed p inDb) fun x inList => congrArg pointer (others x ?_)
      intro inside
      exact eq (((kept.member p x).mp inList).2.2.symm.trans
        ((kept.member loc x).mp inside).2.2)
  · refine Iff.trans ?_ (kept.member p x)
    by_cases eq : p = loc
    · subst eq
      rw [update_self, mem_reverse]
    · rw [update_of_ne eq]

/-! ## What is neither a player nor a thing -/

theorem Kept.frame (kept : Kept db lists out) (dbTop : db'.dbTop = db.dbTop)
    (typeOf : db'.typeOf = db.typeOf) (contents : db'.contents = db.contents)
    (location : ∀ x, db.movable x = true → db'.location x = db.location x)
    (next : ∀ x, db.movable x = true → db'.next x = db.next x) : Kept db' lists out := by
  have movable : ∀ x, db'.movable x = db.movable x := fun x => by rw [Db.movable, typeOf]; rfl
  have goodObj : ∀ x, db'.goodObj x = db.goodObj x := fun x => by rw [Db.goodObj, dbTop]; rfl
  have within : ∀ x p, db'.Within out x p ↔ db.Within out x p := by
    intro x p
    constructor
    · rintro ⟨is, inPlace, there⟩
      rw [movable] at is
      exact ⟨is, inPlace, (location x is).symm.trans there⟩
    · rintro ⟨is, inPlace, there⟩
      exact ⟨(movable x).trans is, inPlace, (location x is).trans there⟩
  refine ⟨fun p good => ?_, fun p x => (kept.member p x).trans (within x p).symm,
    fun x is inPlace => ?_, fun x is => ?_, kept.acyclic.mono fun x y => (within x y).mp⟩
  · rw [goodObj] at good
    rw [contents]
    exact Chain.congr (kept.listed p good) fun x member =>
      congrArg pointer (next x ((kept.member p x).mp member).1)
  · rw [movable] at is
    rw [goodObj, location x is]
    exact kept.located x is inPlace
  · rw [movable] at is
    rw [goodObj]
    exact kept.inside x is

theorem removeFirst_others {head : Dbref} (listed : db.Listed head cells)
    (short : cells.length ≤ db.dbTop) (some' : thing ≠ nothing) :
    ∃ head' next', db.removeFirst head thing = some (head', { db with next := next' }) ∧
      ∀ x, x ∉ cells → next' x = db.next x := by
  by_cases member : thing ∈ cells
  · obtain ⟨pre, post, rfl⟩ := append_of_mem member
    obtain ⟨head', next', removed, _, others⟩ := removeFirst_spec listed short
    exact ⟨head', next', removed, fun x outside =>
      others x fun inBefore => outside (mem_append_left _ inBefore)⟩
  · by_cases fst : head = thing
    · exact ⟨db.next thing, db.next, if_pos fst, fun _ _ => rfl⟩
    · refine ⟨head, db.next, ?_, fun _ _ => rfl⟩
      rw [Db.removeFirst, if_neg fst,
        removeLoop_none listed member some' (Nat.lt_succ_of_le short)]
      rfl

theorem moveExit_spec (kept : Kept db lists out) {exit : Dbref}
    (isExit : db.movable exit = false) (some' : exit ≠ nothing)
    (listed : db.Listed (db.exits (db.exits exit)) cells) (short : cells.length ≤ db.dbTop)
    (exits : ∀ x ∈ cells, db.movable x = false) :
    ∃ db', db.moveExit exit dest = some db' ∧ Kept db' lists out := by
  obtain ⟨head, next, removed, others⟩ := removeFirst_others listed short some'
  let db₁ : Db := ({ db with next := next } : Db).setExits (db.exits exit) head
  let db₂ := ((db₁.insertFirst (db₁.exits dest) exit).2.setExits dest exit).setExits exit dest
  have moved : db.moveExit exit dest = some db₂ := by
    rw [Db.moveExit, removed]
    rfl
  refine ⟨db₂, moved, kept.frame rfl rfl rfl (fun _ _ => rfl) ?_⟩
  intro x is
  have ne : x ≠ exit := by
    intro eq
    rw [eq, isExit] at is
    exact Bool.noConfusion is
  refine (update_of_ne ne ..).trans (others x fun member => ?_)
  rw [exits x member] at is
  exact Bool.noConfusion is

/-! ## What is made -/

def Fresh (db : Db) (thing : Dbref) : Prop :=
  thing = db.dbTop ∨ db.goodObj thing = true ∧ db.typeOf thing = .garbage ∧
    ∀ x, db.movable x = true → db.location x ≠ thing

theorem make_good {objtype : ObjectType} {x : Int} :
    (db.make thing objtype).goodObj x = true ↔
      db.goodObj x = true ∨ thing = db.dbTop ∧ x = db.dbTop := by
  rw [good_iff, good_iff]
  by_cases new : thing = db.dbTop
  · rw [show (db.make thing objtype).dbTop = db.dbTop + 1 from if_pos new]
    simp only [new, true_and]
    omega
  · rw [show (db.make thing objtype).dbTop = db.dbTop from if_neg new]
    simp only [new, false_and, or_false]

theorem make_spec (kept : Kept db lists none) {objtype : ObjectType}
    (movable : objtype = .player ∨ objtype = .thing) (fresh : Fresh db thing) :
    Kept (db.make thing objtype) lists (some thing) ∧
      (db.make thing objtype).movable thing = true ∧
      ∀ x, ¬(db.make thing objtype).Within (some thing) x thing := by
  have typeOf : ∀ x, x ≠ thing → (db.make thing objtype).movable x = db.movable x := by
    intro x ne
    rw [Db.movable, Db.movable, show (db.make thing objtype).typeOf x = db.typeOf x from
      update_of_ne ne ..]
  have location : ∀ x, x ≠ thing → (db.make thing objtype).location x = db.location x :=
    fun x ne => update_of_ne ne ..
  -- nothing was in it, and it was in nothing
  have pre : db.movable thing = false ∧ ∀ x, db.movable x = true → db.location x ≠ thing := by
    rcases fresh with rfl | ⟨_, garbage, empty⟩
    · have outside : db.goodObj db.dbTop ≠ true := fun good =>
        Int.lt_irrefl _ (good_iff.mp good).2
      exact ⟨Bool.eq_false_iff.mpr fun is => outside (kept.inside _ is), fun x is there =>
        outside (there ▸ kept.located x is nofun)⟩
    · refine ⟨?_, empty⟩
      rw [Db.movable, garbage]
      rfl
  have notListed : ∀ p, thing ∉ lists p := fun p member => by
    have is := ((kept.member p thing).mp member).1
    rw [pre.1] at is
    exact Bool.noConfusion is
  have within : ∀ x p, (db.make thing objtype).Within (some thing) x p ↔ db.Within none x p := by
    intro x p
    by_cases eq : x = thing
    · subst eq
      exact iff_of_false (fun is => is.2.1 rfl) fun is => by
        have movable := is.1
        rw [pre.1] at movable
        exact Bool.noConfusion movable
    · rw [Db.Within, Db.Within, typeOf x eq, location x eq]
      simp [Ne.symm eq]
  refine ⟨⟨fun p good => ?_, fun p x => (kept.member p x).trans (within x p).symm,
    fun x is out => ?_, fun x is => ?_, kept.acyclic.mono fun x y => (within x y).mp⟩, ?_,
    fun x is => pre.2 x ((within x thing).mp is).1 ((within x thing).mp is).2.2⟩
  · by_cases eq : p = thing
    · subst eq
      have none' : lists p = [] := eq_nil_iff_forall_not_mem.mpr fun x member =>
        pre.2 x ((kept.member p x).mp member).1 ((kept.member p x).mp member).2.2
      rw [none']
      exact pointer_eq_none.mpr (update_self ..)
    · have old : db.goodObj p = true :=
        (make_good.mp good).resolve_right fun is => eq (is.2.trans is.1.symm)
      have contents : (db.make thing objtype).contents p = db.contents p :=
        update_of_ne eq ..
      rw [contents]
      exact Db.Listed.setNext (kept.listed p old) (notListed p)
  · have ne : x ≠ thing := fun eq => out (congrArg some eq.symm)
    rw [typeOf x ne] at is
    rw [location x ne]
    exact make_good.mpr (Or.inl (kept.located x is nofun))
  · by_cases eq : x = thing
    · subst eq
      refine make_good.mpr ?_
      rcases fresh with new | ⟨good, _⟩
      · exact Or.inr ⟨new, new⟩
      · exact Or.inl good
    · rw [typeOf x eq] at is
      exact make_good.mpr (Or.inl (kept.inside x is))
  · rw [Db.movable, show (db.make thing objtype).typeOf thing = objtype from
      update_self ..]
    simpa using movable

end

open Function (update)
open Relation (ReflTransGen)

/-- A player or a thing is moved to a place that is neither itself nor inside it; an exit is
moved from a list of exits; something new, or garbage in which nothing is, is made elsewhere. -/
def Frame.Sound (db : Db) (w : World) : Frame → Prop
  | .moveObject thing dest =>
    db.movable thing = true ∧ db.goodObj (Db.destOf w thing dest) = true ∧
      ¬ReflTransGen (db.Within none) (Db.destOf w thing dest) thing
  | .takeExit exit _ =>
    db.movable exit = false ∧ exit ≠ nothing ∧
      ∃ cells, db.Listed (db.exits (db.exits exit)) cells ∧ cells.length ≤ db.dbTop ∧
        ∀ x ∈ cells, db.movable x = false
  | .create thing objtype dest =>
    (objtype = .player ∨ objtype = .thing) ∧ Fresh db thing ∧ db.goodObj dest = true ∧
      dest ≠ thing
  | _ => True

def Sound (s : State) (w : World) : Prop :=
  ∀ frame later, s.todo = frame :: later → frame.Sound s.db w

def Frame.writes : Frame → Bool
  | .moveObject .. | .processStickyDropto .. | .takeExit .. | .link .. | .create .. => true
  | _ => false

variable {db db' : Db} {w : World} {lists : Dbref → List Dbref} {frame : Frame}

theorem perform_same (db : Db) (w : World) (reads : frame.writes = false) :
    ∃ frames, db.perform w frame = some (db, frames) := by
  cases frame with
  | moveObject | processStickyDropto | takeExit | link | create => exact Bool.noConfusion reads
  | moveThrough player exit loc divest =>
    simp only [Db.perform]
    cases db.typeOf loc <;> dsimp only <;> first | exact ⟨_, rfl⟩ | (split <;> exact ⟨_, rfl⟩)
  | doTeleport victim destination =>
    simp only [Db.perform]
    cases destination <;> dsimp only <;> split_ifs <;> exact ⟨_, rfl⟩
  | doGet player thing | doDrop player thing =>
    simp only [Db.perform]
    cases db.typeOf thing <;> dsimp only <;> split_ifs <;> exact ⟨_, rfl⟩
  | doEnter player thing =>
    simp only [Db.perform]
    cases db.typeOf thing <;> dsimp only <;> first | exact ⟨_, rfl⟩ | (split_ifs <;> exact ⟨_, rfl⟩)
  | _ =>
    simp only [Db.perform]
    first | exact ⟨_, rfl⟩ | (split_ifs <;> exact ⟨_, rfl⟩)

section

variable (kept : Kept db lists none)
include kept

theorem stickyDropto_keeps (loc : Dbref) :
    ∃ db' frames lists', db.stickyDropto w loc = some (db', frames) ∧ Kept db' lists' none := by
  unfold Db.stickyDropto
  split_ifs with cannot nowhere
  · exact ⟨db, [], lists, rfl, kept⟩
  · exact ⟨db, [], lists, rfl, kept⟩
  · have good : db.goodObj loc = true := by
      simp only [Bool.or_eq_true, not_or, Bool.not_eq_true', Bool.not_eq_false] at cannot
      exact cannot.1.1
    obtain ⟨stays, walked⟩ := someOf_spec w.dropper (kept.listed loc good)
      (Nat.lt_succ_of_le (kept.length_le good))
    rw [walked, Option.bind_eq_bind, Option.bind_some]
    cases stays with
    | true => exact ⟨db, [], lists, rfl, kept⟩
    | false =>
      obtain ⟨head, db', reversed, kept'⟩ := reverse_spec kept good
      simp only [Bool.false_eq_true, if_false, reversed, Option.bind_eq_bind, Option.bind_some]
      exact ⟨_, _, _, rfl, kept'⟩

theorem create_keeps {thing dest : Dbref} {objtype : ObjectType}
    (movable : objtype = .player ∨ objtype = .thing) (fresh : Fresh db thing)
    (good : db.goodObj dest = true) (apart : dest ≠ thing) :
    ∃ lists', Kept ((db.make thing objtype).putInto thing dest) lists' none := by
  obtain ⟨made, movable', empty⟩ := make_spec kept movable fresh
  refine ⟨_, (putInto_spec made movable' (make_good.mpr (Or.inl good)) fun inside => ?_).1⟩
  rcases ReflTransGen.cases_tail inside with same | ⟨last, _, step⟩
  · exact apart same.symm
  · exact empty last step

theorem link_keeps {thing : Dbref} (dest : Dbref) (o : db.movable thing = false) :
    Kept (db.setLocation thing dest) lists none := by
  refine kept.frame rfl rfl rfl (fun x is => ?_) fun _ _ => rfl
  refine Function.update_of_ne (fun same => ?_) ..
  rw [same, o] at is
  exact Bool.noConfusion is

theorem perform_keeps (sound : frame.Sound db w) :
    ∃ db' frames lists', db.perform w frame = some (db', frames) ∧ Kept db' lists' none := by
  by_cases writes : frame.writes = true
  · cases frame with
    | moveObject thing dest =>
      obtain ⟨movable, good, outside⟩ := sound
      obtain ⟨db', lists', moved, kept'⟩ := moveObject_spec kept movable good outside
      exact ⟨db', _, lists', by rw [Db.perform, moved]; rfl, kept'⟩
    | processStickyDropto loc => exact stickyDropto_keeps kept loc
    | takeExit exit dest =>
      obtain ⟨isExit, some', cells, listed, short, exits⟩ := sound
      obtain ⟨db', moved, kept'⟩ := moveExit_spec kept isExit some' listed short exits
      exact ⟨db', _, lists, by rw [Db.perform, moved]; rfl, kept'⟩
    | link thing dest =>
      rw [Db.perform]
      split_ifs with is
      · refine ⟨_, _, lists, rfl, link_keeps kept dest ?_⟩
        rcases is with is | is <;> rw [Db.movable, is] <;> rfl
      · exact ⟨db, [], lists, rfl, kept⟩
    | create thing objtype dest =>
      obtain ⟨movable, fresh, good, apart⟩ := sound
      obtain ⟨lists', kept'⟩ := create_keeps kept movable fresh good apart
      exact ⟨_, _, lists', rfl, kept'⟩
    | _ => exact Bool.noConfusion writes
  · obtain ⟨frames, same⟩ := perform_same db w (Bool.eq_false_iff.mpr writes)
    exact ⟨db, frames, lists, same, kept⟩

end

theorem step_keeps (s : State) (w : World) (kept : ∃ lists, Kept s.db lists none)
    (sound : Sound s w) : ∃ s', step s w = some s' ∧ ∃ lists, Kept s'.db lists none := by
  obtain ⟨lists, kept⟩ := kept
  obtain ⟨db, todo⟩ := s
  cases todo with
  | nil => exact ⟨_, rfl, lists, kept⟩
  | cons frame later =>
    obtain ⟨db', frames, lists', performed, kept'⟩ := perform_keeps kept (sound frame later rfl)
    refine ⟨⟨db', frames ++ later⟩, ?_, lists', kept'⟩
    rw [step]
    dsimp only
    rw [performed]
    rfl

/-- Every run of the movers, whatever softcode and players give on the way, keeps every player
and every thing on the list of its location and on no other, the lists finite and nothing inside
itself, as long as nothing is put into itself or into what is inside it. -/
theorem run_keeps_contents (s : State) (steps : List World)
    (kept : ∃ lists, Kept s.db lists none) (sound : Machine.Guarded step Sound s steps) :
    ∃ s', Machine.run step s steps = some s' ∧ ∃ lists, Kept s'.db lists none :=
  Machine.guarded_invariant step_keeps kept sound

/-! ## A bag in a box -/

def boxed : Db where
  dbTop := 4
  typeOf x := if x = 0 then .room else if x = 1 then .player else if x = 2 ∨ x = 3 then .thing
    else .garbage
  location x := if x = 1 ∨ x = 2 then 0 else if x = 3 then 2 else nothing
  contents x := if x = 0 then 1 else if x = 2 then 3 else nothing
  exits _ := nothing
  next x := if x = 1 then 2 else nothing

/-- What is in a place of `boxed`. -/
def boxedLists (p : Dbref) : List Dbref := if p = 0 then [1, 2] else if p = 2 then [3] else []

theorem boxed_movable {x : Dbref} : boxed.movable x = true ↔ x = 1 ∨ x = 2 ∨ x = 3 := by
  simp only [Db.movable, boxed]
  split_ifs <;> simp_all

theorem boxed_falls (x y : Dbref) (within : boxed.Within none x y) : y.toNat < x.toNat := by
  obtain ⟨is, -, rfl⟩ := within
  rcases boxed_movable.mp is with rfl | rfl | rfl <;> decide

theorem boxed_kept : Kept boxed boxedLists none where
  listed p _ := by
    by_cases room : p = 0
    · subst room
      exact ⟨rfl, rfl, rfl⟩
    · by_cases box : p = 2
      · subst box
        exact ⟨rfl, rfl⟩
      · rw [boxedLists, if_neg room, if_neg box]
        refine pointer_eq_none.mpr ?_
        simp only [boxed, if_neg room, if_neg box]
  member p x := by
    rw [Db.Within, boxed_movable]
    constructor
    · intro member
      rw [boxedLists] at member
      split_ifs at member with room box
      · rcases List.mem_pair.mp member with rfl | rfl
        · exact ⟨by simp, by decide, room.symm⟩
        · exact ⟨by simp, by decide, room.symm⟩
      · rw [List.mem_singleton.mp member]
        exact ⟨by simp, by decide, box.symm⟩
      · exact absurd member List.not_mem_nil
    · rintro ⟨rfl | rfl | rfl, -, rfl⟩ <;> decide
  located x is _ := by
    rcases boxed_movable.mp is with rfl | rfl | rfl <;> decide
  inside x is := by
    rcases boxed_movable.mp is with rfl | rfl | rfl <;> decide
  acyclic := Enclosure.Acyclic.of_rank boxed_falls

def quiet (calls : List Frame) : World :=
  ⟨fun _ => 0, fun _ => false, fun _ => false, fun _ _ => true, fun _ => false, fun _ => false,
    true, calls⟩

/-- The player gets the box, and the bag with it. -/
theorem run_keeps_contents_get :
    ∃ s', Machine.run step ⟨boxed, [.moveViaGeneric 2 1]⟩ (List.replicate 3 (quiet [])) = some s' ∧
      ∃ lists, Kept s'.db lists none := by
  refine run_keeps_contents _ _ ⟨boxedLists, boxed_kept⟩
    ⟨?_, fun s' moved => ⟨?_, fun s'' shown => ⟨?_, fun _ _ => trivial⟩⟩⟩
  · rintro frame later ⟨⟩
    trivial
  · cases moved
    rintro frame later ⟨⟩
    trivial
  · cases moved
    cases shown
    rintro frame later ⟨⟩
    exact ⟨rfl, rfl, Enclosure.not_inside_of_rank boxed_falls
      (by decide) (by decide)⟩

/-- The box is teleported into the bag that is in it. -/
theorem teleport_boom : ¬∀ (s : State) (steps : List World),
    (∃ lists, Kept s.db lists none) →
      ∃ s', Machine.run step s steps = some s' ∧ ∃ lists, Kept s'.db lists none := by
  intro always
  obtain ⟨s', ran, lists, kept⟩ := always ⟨boxed, []⟩
    (quiet [.doTeleport 2 (some 3)] :: List.replicate 8 (quiet [])) ⟨boxedLists, boxed_kept⟩
  have places : ((Machine.run step ⟨boxed, []⟩
      (quiet [.doTeleport 2 (some 3)] :: List.replicate 8 (quiet []))).map fun s =>
        (s.db.movable 2, s.db.movable 3, s.db.location 2, s.db.location 3)) =
      some (true, true, 3, 2) := by decide
  rw [ran] at places
  obtain ⟨box, places⟩ := Prod.mk.inj (Option.some.inj places)
  obtain ⟨bag, places⟩ := Prod.mk.inj places
  obtain ⟨boxPlace, bagPlace⟩ := Prod.mk.inj places
  exact kept.acyclic 2 (.head ⟨box, nofun, boxPlace⟩ (.single ⟨bag, nofun, bagPlace⟩))

end BattletechMux.Moves
