/-
Module: BattletechMux.Players.Index
Purpose: The table of player names has the name and the alias of each player and nothing else, as
  long as no player without a name is made, nobody clears his alias while he inherits his own name
  as one, and no alias is inherited at a restart that the table does not have yet.
-/
import BattletechMux.Players.Registry
import Mathlib

namespace BattletechMux.Players

open List hiding mem_map
open Option hiding map mem_map

open Function (update update_self update_of_ne)

def Db.Player (db : Db) (i : Dbref) : Prop := db.goodObj i = true ∧ db.isPlayer i = true

instance (db : Db) (i : Dbref) : Decidable (db.Player i) := inferInstanceAs (Decidable (_ ∧ _))

def Db.names (db : Db) (i : Dbref) : List Text :=
  db.name i :: if db.aliasOf i = [] then [] else [db.aliasOf i]

theorem Db.mem_names {db : Db} {i : Dbref} {name : Text} :
    name ∈ db.names i ↔ name = db.name i ∨ db.aliasOf i ≠ [] ∧ name = db.aliasOf i := by
  unfold Db.names
  split <;> simp_all

/-- The table has the names of the players, and nothing else; no alias is its player's name. -/
structure Indexed (conf : Conf) (db : Db) : Prop where
  found : ∀ i, db.Player i → ∀ name ∈ db.names i, db.playerHtab (fold name) = some i
  entry : ∀ key i, db.playerHtab key = some i → db.Player i ∧ ∃ name ∈ db.names i, key = fold name
  proper : ∀ i, db.Player i → ∀ name ∈ db.names i, Proper conf.spaceCompress name
  distinct : ∀ i, db.Player i → db.aliasOf i ≠ [] → fold (db.aliasOf i) ≠ fold (db.name i)

variable {conf : Conf} {db db' : Db} {x i : Dbref} {name : Text}

theorem Db.Player.ne_nothing (player : db.Player i) : i ≠ nothing := by
  rintro rfl
  exact absurd (of_decide_eq_true player.1).1 (by decide)

theorem Db.Player.ne_ambiguous (player : db.Player i) : i ≠ ambiguous := by
  rintro rfl
  exact absurd (of_decide_eq_true player.1).1 (by decide)

theorem Db.name_mem (db : Db) (i : Dbref) : db.name i ∈ db.names i := mem_cons_self

theorem Db.alias_mem (has : db.aliasOf i ≠ []) : db.aliasOf i ∈ db.names i :=
  Db.mem_names.mpr (.inr ⟨has, rfl⟩)

/-! ## Looking up -/

theorem lookup_proper (proper : Proper conf.spaceCompress name) (doer : Dbref) :
    lookupPlayer conf db doer name =
      match db.playerHtab (fold name) with
      | none => nothing
      | some p => if db.goodObj p then p else nothing := by
  unfold lookupPlayer
  refine (if_neg proper.notMe).trans ((if_neg proper.notNumber).trans ?_)
  cases db.playerHtab (fold name) <;> rfl

theorem Indexed.lookup (indexed : Indexed conf db) (player : db.Player i)
    (mem : name ∈ db.names i) (doer : Dbref) : lookupPlayer conf db doer name = i := by
  rw [lookup_proper (indexed.proper i player name mem), indexed.found i player name mem]
  exact if_pos player.1

theorem Indexed.unused (indexed : Indexed conf db) (proper : Proper conf.spaceCompress name)
    (free : lookupPlayer conf db nothing name = nothing) : db.playerHtab (fold name) = none := by
  rw [lookup_proper proper] at free
  cases held : db.playerHtab (fold name) with
  | none => rfl
  | some p =>
    have player := (indexed.entry _ p held).1
    rw [held] at free
    exact absurd ((if_pos player.1).symm.trans free) player.ne_nothing

theorem Indexed.apart (indexed : Indexed conf db) {j : Dbref} (one : db.Player i)
    (o : db.Player j) (ne : i ≠ j) {fst snd : Text} (firstMember : fst ∈ db.names i)
    (secondMember : snd ∈ db.names j) : stringCompare conf.spaceCompress fst snd ≠ 0 := by
  intro equal
  have firstProper := indexed.proper i one fst firstMember
  have secondProper := indexed.proper j o snd secondMember
  have eq := (stringCompare_eq_zero _ firstProper.tidy secondProper.tidy firstProper.whole
    secondProper.whole).mp equal
  have firstFound := indexed.found i one fst firstMember
  rw [eq, indexed.found j o snd secondMember] at firstFound
  exact ne (some.inj firstFound).symm

/-! ## The table -/

def Db.enter (db : Db) (key : Text) (entry : Option Dbref) : Db :=
  { db with playerHtab := update db.playerHtab key entry }

@[simp] theorem enter_playerHtab (key : Text) (entry : Option Dbref) :
    (db.enter key entry).playerHtab = update db.playerHtab key entry := rfl
@[simp] theorem enter_player (key : Text) (entry : Option Dbref) (i : Dbref) :
    (db.enter key entry).Player i = db.Player i := rfl
@[simp] theorem enter_names (key : Text) (entry : Option Dbref) (i : Dbref) :
    (db.enter key entry).names i = db.names i := rfl
@[simp] theorem enter_name (key : Text) (entry : Option Dbref) :
    (db.enter key entry).name = db.name := rfl
@[simp] theorem enter_aliasOf (key : Text) (entry : Option Dbref) :
    (db.enter key entry).aliasOf = db.aliasOf := rfl

variable {player : Dbref}

theorem add_unused (db : Db) (free : db.playerHtab (fold name) = none) :
    addPlayerName db player name = (true, db.enter (fold name) (some player)) := by
  unfold addPlayerName
  dsimp only
  rw [free]
  rfl

theorem add_used (db : Db) (held : db.playerHtab (fold name) = some i) (living : db.Player i) :
    (addPlayerName db player name).2 = db := by
  unfold addPlayerName
  dsimp only
  rw [held]
  dsimp only
  rw [if_neg living.ne_ambiguous, if_pos (by rw [living.1, living.2]; rfl)]

theorem delete_own (held : db.playerHtab (fold name) = some player) (some : player ≠ nothing) :
    (deletePlayerName db player name).2 = db.enter (fold name) none := by
  unfold deletePlayerName
  dsimp only
  rw [held]
  dsimp only
  rw [if_neg (by rintro (bad | ⟨-, bad⟩); exacts [some bad, bad rfl])]
  rfl

theorem delete_other (held : db.playerHtab (fold name) ≠ some player) (some : player ≠ nothing) :
    (deletePlayerName db player name).2 = db := by
  unfold deletePlayerName
  dsimp only
  split
  · next p entry =>
    rw [if_pos (.inr ⟨some, fun eq => held (eq ▸ entry)⟩)]
  · rfl

theorem Indexed.change (indexed : Indexed conf db) (x : Dbref)
    (players : ∀ i, i ≠ x → (db'.Player i ↔ db.Player i))
    (texts : ∀ i, i ≠ x → db'.name i = db.name i ∧ db'.aliasOf i = db.aliasOf i)
    (others : ∀ key i, i ≠ x → (db'.playerHtab key = some i ↔ db.playerHtab key = some i))
    (own : ∀ key, db'.playerHtab key = some x ↔ db'.Player x ∧ ∃ name ∈ db'.names x, key = fold name)
    (proper : db'.Player x → ∀ name ∈ db'.names x, Proper conf.spaceCompress name)
    (distinct : db'.Player x → db'.aliasOf x ≠ [] → fold (db'.aliasOf x) ≠ fold (db'.name x)) :
    Indexed conf db' := by
  have names (i : Dbref) (o : i ≠ x) : db'.names i = db.names i := by
    unfold Db.names
    rw [(texts i o).1, (texts i o).2]
  refine ⟨fun i player name mem => ?_, fun key i held => ?_, fun i player name mem => ?_,
    fun i player has => ?_⟩
  · by_cases eq : i = x
    · subst eq
      exact (own _).mpr ⟨player, name, mem, rfl⟩
    · rw [names i eq] at mem
      exact (others _ i eq).mpr (indexed.found i ((players i eq).mp player) name mem)
  · by_cases eq : i = x
    · subst eq
      exact (own key).mp held
    · obtain ⟨player, named⟩ := indexed.entry key i ((others key i eq).mp held)
      rw [names i eq]
      exact ⟨(players i eq).mpr player, named⟩
  · by_cases eq : i = x
    · subst eq
      exact proper player name mem
    · rw [names i eq] at mem
      exact indexed.proper i ((players i eq).mp player) name mem
  · by_cases eq : i = x
    · subst eq
      exact distinct player has
    · rw [(texts i eq).1, (texts i eq).2] at *
      exact indexed.distinct i ((players i eq).mp player) has

theorem Indexed.no_entry (indexed : Indexed conf db) (notPlayer : ¬db.Player x) (key : Text) :
    db.playerHtab key ≠ some x := fun held => notPlayer (indexed.entry key x held).1

/-! ## Commands -/

theorem okPlayerName_short {name : Text}
    (ok : okPlayerName conf.spaceCompress conf.nameSpaces name = true) :
    name.take mbufSize = name := by
  unfold okPlayerName at ok
  simp only [Bool.and_eq_true, decide_eq_true_eq] at ok
  have short : name.length < 22 := ok.1.2
  exact take_of_length_le (by unfold mbufSize; omega)

variable {htab : Text → Option Dbref}

theorem update_entry {k : Text} (empty : htab k = none) (o : i ≠ x) (key : Text) :
    update htab k (some x) key = some i ↔ htab key = some i := by
  by_cases eq : key = k
  · subst eq
    rw [update_self, empty]
    exact iff_of_false (fun both => o (some.inj both).symm) (by simp)
  · rw [update_of_ne eq]

theorem update_none_entry {k : Text} (held : htab k = some x) (o : i ≠ x) (key : Text) :
    update htab k none key = some i ↔ htab key = some i := by
  by_cases eq : key = k
  · subst eq
    rw [update_self, held]
    exact iff_of_false (by simp) fun both => o (some.inj both).symm
  · rw [update_of_ne eq]

theorem below_succ (i : Int) (n : Nat) : (0 ≤ i ∧ i < (n + 1 : Nat)) ↔ i = n ∨ 0 ≤ i ∧ i < n := by
  omega

theorem newPlayer_goodObj (free : db.isFree x = true) (i : Dbref) :
    (db.newPlayer x).goodObj i = true ↔ i = x ∨ db.goodObj i = true := by
  unfold Db.goodObj Db.newPlayer
  dsimp only
  by_cases top : x = db.dbTop
  · rw [if_pos top, decide_eq_true_iff, decide_eq_true_iff, top]
    exact below_succ i db.dbTop
  · rw [if_neg top]
    have hin : db.goodObj x = true := by
      unfold Db.isFree at free
      simp only [Bool.or_eq_true, beq_iff_eq, Bool.and_eq_true] at free
      exact (free.resolve_left top).1
    refine ⟨.inr, ?_⟩
    rintro (rfl | good)
    · exact hin
    · exact good

theorem newPlayer_player (free : db.isFree x = true) (i : Dbref) :
    (db.newPlayer x).Player i ↔ i = x ∨ db.Player i := by
  unfold Db.Player
  rw [newPlayer_goodObj free]
  by_cases eq : i = x
  · simp [eq, Db.newPlayer]
  · simp [eq, Db.newPlayer]

theorem not_player_of_free (free : db.isFree x = true) : ¬db.Player x := by
  rintro ⟨good, player⟩
  unfold Db.isFree at free
  rw [good, player] at free
  have top : x = db.dbTop := by simpa using free
  exact absurd (of_decide_eq_true good).2 (by rw [top]; exact Int.lt_irrefl _)

theorem create_indexed (indexed : Indexed conf db) {allowed : Bool} (free : db.isFree x = true)
    (named : allowed = true → badnameCheck conf (mungeSpace name) = true → mungeSpace name ≠ []) :
    Indexed conf (createPlayer conf db x name allowed) := by
  unfold createPlayer
  dsimp only
  split
  · exact indexed
  next good =>
  split
  · exact indexed
  next ok =>
  split
  · exact indexed
  next unused =>
  split
  · exact indexed
  next permitted =>
  have some : mungeSpace name ≠ [] := named (by simpa using permitted) (by simpa using good)
  have nameOk : okPlayerName conf.spaceCompress conf.nameSpaces (mungeSpace name) = true := by
    simpa [some] using ok
  have proper : Proper conf.spaceCompress (mungeSpace name) := okPlayerName_proper nameOk
  have empty := indexed.unused proper (by simpa [some] using unused)
  have stored : ((db.newPlayer x).setName x (mungeSpace name)).name x = mungeSpace name :=
    (update_self _ _ _).trans (okPlayerName_short nameOk)
  have noAlias : (db.newPlayer x).aliasOf x = [] := update_self _ _ _
  rw [stored, add_unused ((db.newPlayer x).setName x (mungeSpace name)) empty]
  have names : ((db.newPlayer x).setName x (mungeSpace name)).names x = [mungeSpace name] := by
    unfold Db.names
    rw [stored]
    exact congrArg _ (if_pos noAlias)
  refine indexed.change x (fun i o => ?_) (fun i o => ⟨?_, ?_⟩) (fun key i o => ?_)
    (fun key => ?_) (fun _ name mem => ?_) (fun _ has => absurd noAlias has)
  · exact (newPlayer_player free i).trans (or_iff_right o)
  · exact update_of_ne o _ _
  · exact update_of_ne o _ _
  · exact update_entry empty o key
  · have player : ((db.newPlayer x).setName x (mungeSpace name)).Player x :=
      (newPlayer_player free x).mpr (.inl rfl)
    have absent : ((db.newPlayer x).setName x (mungeSpace name)).playerHtab key ≠ Option.some x :=
      indexed.no_entry (not_player_of_free free) key
    simp only [enter_playerHtab, enter_player, enter_names, names, player, true_and]
    by_cases eq : key = fold (mungeSpace name)
    · subst eq
      simp
    · rw [update_of_ne eq]
      simpa [eq] using absent
  · rw [enter_names, names, mem_singleton] at mem
    exact mem ▸ proper

theorem Indexed.aside (indexed : Indexed conf db) (x : Dbref) (notPlayer : ¬db.Player x)
    (players : ∀ i, db'.Player i ↔ db.Player i)
    (texts : ∀ i, i ≠ x → db'.name i = db.name i ∧ db'.aliasOf i = db.aliasOf i)
    (table : db'.playerHtab = db.playerHtab) : Indexed conf db' := by
  have gone : ¬db'.Player x := mt (players x).mp notPlayer
  refine indexed.change x (fun i _ => players i) texts (fun key i _ => by rw [table])
    (fun key => ?_) (fun player => absurd player gone) (fun player => absurd player gone)
  rw [table]
  exact iff_of_false (indexed.no_entry notPlayer key) fun both => gone both.1

theorem Indexed.entry_iff (indexed : Indexed conf db) (player : db.Player x) (key : Text) :
    db.playerHtab key = some x ↔
      key = fold (db.name x) ∨ db.aliasOf x ≠ [] ∧ key = fold (db.aliasOf x) := by
  constructor
  · intro held
    obtain ⟨-, name, mem, rfl⟩ := indexed.entry key x held
    rcases Db.mem_names.mp mem with rfl | ⟨has, rfl⟩
    · exact .inl rfl
    · exact .inr ⟨has, rfl⟩
  · rintro (rfl | ⟨has, rfl⟩)
    · exact indexed.found x player _ (db.name_mem x)
    · exact indexed.found x player _ (Db.alias_mem has)

theorem exists_names (db : Db) (x : Dbref) (key : Text) :
    (∃ name ∈ db.names x, key = fold name) ↔
      key = fold (db.name x) ∨ db.aliasOf x ≠ [] ∧ key = fold (db.aliasOf x) := by
  constructor
  · rintro ⟨name, mem, rfl⟩
    rcases Db.mem_names.mp mem with rfl | ⟨has, rfl⟩
    · exact .inl rfl
    · exact .inr ⟨has, rfl⟩
  · rintro (rfl | ⟨has, rfl⟩)
    · exact ⟨_, db.name_mem x, rfl⟩
    · exact ⟨_, Db.alias_mem has, rfl⟩

theorem name_indexed (indexed : Indexed conf db) (good : db.goodObj x = true) :
    Indexed conf (doName conf db x name) := by
  unfold doName
  split
  · exact indexed
  split
  · next isPlayer =>
    dsimp only
    split
    · exact indexed
    next ok =>
    split
    · exact indexed
    next unused =>
    have player : db.Player x := ⟨good, isPlayer⟩
    have nameOk : okPlayerName conf.spaceCompress conf.nameSpaces (trimSpaces name) = true := by
      simpa using (not_or.mp ok).1
    have proper : Proper conf.spaceCompress (trimSpaces name) := okPlayerName_proper nameOk
    have old := indexed.found x player _ (db.name_mem x)
    rw [delete_own old player.ne_nothing]
    have stored : ((db.enter (fold (db.name x)) none).setName x (trimSpaces name)).name x =
        trimSpaces name := (update_self _ _ _).trans (okPlayerName_short nameOk)
    rw [stored]
    -- The new name is the old one in other letters, or nobody's.
    have spare : fold (trimSpaces name) = fold (db.name x) ∨
        db.playerHtab (fold (trimSpaces name)) = none := by
      have oldProper := indexed.proper x player _ (db.name_mem x)
      rcases Classical.em (fold (trimSpaces name) = fold (db.name x)) with eq | o
      · exact .inl eq
      · refine .inr (indexed.unused proper ?_)
        by_contra taken
        refine unused ⟨fun equal => o ?_, taken⟩
        exact (stringCompare_eq_zero _ proper.tidy oldProper.tidy proper.whole oldProper.whole).mp
          equal
    have free : ((db.enter (fold (db.name x)) none).setName x (trimSpaces name)).playerHtab
        (fold (trimSpaces name)) = none := by
      change update db.playerHtab (fold (db.name x)) none (fold (trimSpaces name)) = none
      rcases spare with eq | empty
      · rw [eq, update_self]
      · rw [Function.update_apply, empty, ite_self]
    rw [add_unused _ free]
    have distinct (has : db.aliasOf x ≠ []) : fold (db.aliasOf x) ≠ fold (trimSpaces name) := by
      rcases spare with eq | empty
      · rw [eq]
        exact indexed.distinct x player has
      · intro eq
        have held := indexed.found x player _ (Db.alias_mem has)
        rw [eq, empty] at held
        exact absurd held (by simp)
    refine indexed.change x (fun _ _ => Iff.rfl)
      (fun i o => ⟨update_of_ne o _ _, rfl⟩) (fun key i o => ?_)
      (fun key => ?_) (fun _ name mem => ?_) (fun _ has => ?_)
    · exact (update_entry free o key).trans (update_none_entry old o key)
    · rw [exists_names, enter_name, stored]
      change update (update db.playerHtab (fold (db.name x)) none) (fold (trimSpaces name))
        (some x) key = some x ↔ db.Player x ∧
          (key = fold (trimSpaces name) ∨ db.aliasOf x ≠ [] ∧ key = fold (db.aliasOf x))
      rw [and_iff_right player]
      by_cases new : key = fold (trimSpaces name)
      · rw [new, update_self]
        simp
      · rw [update_of_ne new, or_iff_right new]
        by_cases former : key = fold (db.name x)
        · rw [former, update_self]
          exact iff_of_false (by simp) fun both => indexed.distinct x player both.1 both.2.symm
        · rw [update_of_ne former, indexed.entry_iff player, or_iff_right former]
    · rcases Db.mem_names.mp mem with rfl | ⟨has, rfl⟩
      · rw [enter_name, stored]
        exact proper
      · exact indexed.proper x player _ (Db.alias_mem has)
    · rw [enter_name, stored]
      exact distinct has
  · next notPlayer =>
    split
    · exact indexed
    · exact indexed.aside x (fun player => notPlayer player.2) (fun _ => Iff.rfl)
        (fun i o => ⟨update_of_ne o _ _, rfl⟩) rfl

/-! ## Aliases -/

theorem pgetFrom_htab (htab : Text → Option Dbref) (fst : Bool) (lev : Nat) (parent : Dbref) :
    pgetFrom { db with playerHtab := htab } fst lev parent = pgetFrom db fst lev parent := by
  induction lev generalizing fst parent with
  | zero => rfl
  | succ lev ih =>
    unfold pgetFrom
    rw [ih]
    rfl

theorem atrPget_htab (htab : Text → Option Dbref) (thing : Dbref) :
    atrPget conf { db with playerHtab := htab } thing = atrPget conf db thing :=
  pgetFrom_htab htab true _ thing

theorem atrPget_own (limit : 0 < conf.parentNestLim) (good : db.goodObj x = true)
    (has : db.aliasOf x ≠ []) : (atrPget conf db x).1 = db.aliasOf x := by
  unfold atrPget
  cases levels : conf.parentNestLim with
  | zero => exact absurd limit (by rw [levels]; exact Nat.lt_irrefl 0)
  | succ lev =>
    unfold pgetFrom
    rw [if_neg (by simp [good]), if_pos ⟨has, rfl⟩]

def Db.withoutAlias (db : Db) (x : Dbref) : Db :=
  if db.aliasOf x = [] then db else db.enter (fold (db.aliasOf x)) none

theorem delete_oldalias (indexed : Indexed conf db) (limit : 0 < conf.parentNestLim)
    (player : db.Player x)
    (apart : db.aliasOf x = [] → fold (atrPget conf db x).1 ≠ fold (db.name x)) :
    (deletePlayerName db x (atrPget conf db x).1).2 = db.withoutAlias x := by
  unfold Db.withoutAlias
  by_cases has : db.aliasOf x = []
  · rw [if_pos has]
    refine delete_other (fun held => ?_) player.ne_nothing
    rcases (indexed.entry_iff player _).mp held with own | ⟨some, -⟩
    · exact apart has own
    · exact some has
  · rw [if_neg has, atrPget_own limit player.1 has]
    exact delete_own (indexed.found x player _ (Db.alias_mem has)) player.ne_nothing

theorem withoutAlias_entry (indexed : Indexed conf db) (player : db.Player x) (key : Text)
    (i : Dbref) :
    (db.withoutAlias x).playerHtab key = some i ↔
      db.playerHtab key = some i ∧ (i = x → key = fold (db.name x)) := by
  unfold Db.withoutAlias
  by_cases has : db.aliasOf x = []
  · rw [if_pos has]
    refine ⟨fun held => ⟨held, ?_⟩, And.left⟩
    rintro rfl
    exact ((indexed.entry_iff player key).mp held).resolve_right fun both => both.1 has
  · rw [if_neg has, enter_playerHtab]
    by_cases eq : key = fold (db.aliasOf x)
    · rw [eq, update_self, indexed.found x player _ (Db.alias_mem has)]
      refine iff_of_false (by simp) fun both => ?_
      exact indexed.distinct x player has (both.2 (some.inj both.1).symm)
    · rw [update_of_ne eq]
      refine ⟨fun held => ⟨held, ?_⟩, And.left⟩
      rintro rfl
      exact ((indexed.entry_iff player key).mp held).resolve_right fun both => eq both.2

theorem withoutAlias_fields (db : Db) (x : Dbref) :
    (db.withoutAlias x).dbTop = db.dbTop ∧ (db.withoutAlias x).isPlayer = db.isPlayer ∧
      (db.withoutAlias x).name = db.name ∧ (db.withoutAlias x).aliasOf = db.aliasOf := by
  unfold Db.withoutAlias
  split <;> exact ⟨rfl, rfl, rfl, rfl⟩

theorem withoutAlias_player (db : Db) (x i : Dbref) :
    (db.withoutAlias x).Player i ↔ db.Player i := by
  obtain ⟨top, players, -, -⟩ := withoutAlias_fields db x
  unfold Db.Player Db.goodObj
  rw [top, players]

theorem clear_indexed (indexed : Indexed conf db) (player : db.Player x) :
    Indexed conf ((db.withoutAlias x).clearAlias x) := by
  obtain ⟨-, -, name, aliasOf⟩ := withoutAlias_fields db x
  have gone : ((db.withoutAlias x).clearAlias x).aliasOf x = [] := update_self _ _ _
  have names : ((db.withoutAlias x).clearAlias x).names x = [db.name x] := by
    unfold Db.names
    rw [if_pos gone]
    exact congrArg (fun names => [names x]) name
  refine indexed.change x (fun i _ => withoutAlias_player db x i)
    (fun i o => ⟨congrFun name i, ?_⟩) (fun key i o => ?_) (fun key => ?_)
    (fun _ name mem => ?_) (fun _ has => absurd gone has)
  · exact (update_of_ne o _ _).trans (congrFun aliasOf i)
  · exact (withoutAlias_entry indexed player key i).trans
      (and_iff_left fun eq => absurd eq o)
  · rw [names]
    refine (withoutAlias_entry indexed player key x).trans ?_
    have living : ((db.withoutAlias x).clearAlias x).Player x :=
      (withoutAlias_player db x x).mpr player
    rw [indexed.entry_iff player, and_iff_right living]
    simp only [mem_singleton, exists_eq_left, forall_const]
    exact ⟨And.right, fun own => ⟨.inl own, own⟩⟩
  · rw [names, mem_singleton] at mem
    exact mem ▸ indexed.proper x player _ (db.name_mem x)

theorem set_indexed (indexed : Indexed conf db) (player : db.Player x) {newAlias : Text}
    (proper : Proper conf.spaceCompress newAlias)
    (empty : db.playerHtab (fold newAlias) = none) (aflags : Bool) :
    Indexed conf
      (((db.withoutAlias x).setAlias x newAlias aflags).enter (fold newAlias) (some x)) := by
  obtain ⟨-, -, name, aliasOf⟩ := withoutAlias_fields db x
  have some : newAlias ≠ [] := proper.tidy.ne_nil
  have free : (db.withoutAlias x).playerHtab (fold newAlias) = none := by
    refine eq_none_iff_forall_ne_some.mpr fun i held => ?_
    rw [withoutAlias_entry indexed player, empty] at held
    exact absurd held.1 (by simp)
  have stored : ((db.withoutAlias x).setAlias x newAlias aflags).aliasOf x = newAlias :=
    update_self _ _ _
  have named : ((db.withoutAlias x).setAlias x newAlias aflags).name x = db.name x :=
    congrFun name x
  refine indexed.change x (fun i _ => withoutAlias_player db x i)
    (fun i o => ⟨congrFun name i, ?_⟩) (fun key i o => ?_) (fun key => ?_)
    (fun _ name mem => ?_) (fun _ _ => ?_)
  · exact (update_of_ne o _ _).trans (congrFun aliasOf i)
  · refine (update_entry free o key).trans ?_
    exact (withoutAlias_entry indexed player key i).trans
      (and_iff_left fun eq => absurd eq o)
  · have living : ((db.withoutAlias x).setAlias x newAlias aflags).Player x :=
      (withoutAlias_player db x x).mpr player
    rw [exists_names, enter_name, enter_aliasOf, stored, named, enter_player,
      and_iff_right living, enter_playerHtab]
    by_cases new : key = fold newAlias
    · rw [new, update_self]
      simp [some]
    · rw [update_of_ne new]
      refine (withoutAlias_entry indexed player key x).trans ?_
      rw [indexed.entry_iff player]
      simp only [forall_const, new, and_false, or_false]
      exact ⟨And.right, fun own => ⟨.inl own, own⟩⟩
  · rcases Db.mem_names.mp mem with rfl | ⟨-, rfl⟩
    · rw [enter_name, named]
      exact indexed.proper x player _ (db.name_mem x)
    · rw [enter_aliasOf, stored]
      exact proper
  · rw [enter_name, enter_aliasOf, stored, named]
    intro eq
    have held := indexed.found x player _ (db.name_mem x)
    rw [← eq, empty] at held
    exact absurd held (by simp)

theorem alias_indexed (indexed : Indexed conf db) (limit : 0 < conf.parentNestLim)
    (good : db.goodObj x = true) {newAlias : Text} {allowed : Bool}
    (apart : db.isPlayer x = true → allowed = true →
      aliasChanges conf db (trimSpaces newAlias) = true → db.aliasOf x = [] →
        fold (atrPget conf db x).1 ≠ fold (db.name x)) :
    Indexed conf (doAlias conf db x newAlias allowed) := by
  unfold doAlias
  generalize inherited : atrPget conf db x = old
  obtain ⟨oldalias, aflags⟩ := old
  dsimp only
  split
  · exact indexed
  next permitted =>
  split
  · next isPlayer =>
    split
    · exact indexed
    next changes =>
    have player : db.Player x := ⟨good, isPlayer⟩
    have changes : aliasChanges conf db (trimSpaces newAlias) = true := by simpa using changes
    have cut := delete_oldalias indexed limit player
      (apart isPlayer (by simpa using permitted) changes)
    rw [inherited] at cut
    rw [cut]
    split
    · exact clear_indexed indexed player
    next some =>
    unfold aliasChanges at changes
    simp only [Bool.or_eq_true, Bool.and_eq_true, decide_eq_true_eq] at changes
    obtain ⟨⟨unused, -⟩, ok⟩ := changes.resolve_left some
    have proper := okPlayerName_proper ok
    have empty := indexed.unused proper unused
    have free : ((db.withoutAlias x).setAlias x (trimSpaces newAlias) aflags).playerHtab
        (fold (trimSpaces newAlias)) = none := by
      refine eq_none_iff_forall_ne_some.mpr fun i held => ?_
      have pre := ((withoutAlias_entry indexed player _ i).mp held).1
      exact absurd (empty.symm.trans pre) (by simp)
    rw [add_unused _ free]
    exact set_indexed indexed player proper empty aflags
  · next notPlayer =>
    exact indexed.aside x (fun player => notPlayer player.2) (fun _ => Iff.rfl)
      (fun i o => ⟨rfl, update_of_ne o _ _⟩) rfl

/-! ## Destruction -/

theorem destroy_indexed (indexed : Indexed conf db) (limit : 0 < conf.parentNestLim)
    (player : db.Player x) : Indexed conf (destroyPlayer conf db x) := by
  unfold destroyPlayer
  dsimp only
  have old := indexed.found x player _ (db.name_mem x)
  rw [delete_own old player.ne_nothing]
  have inherited : atrPget conf (db.enter (fold (db.name x)) none) x = atrPget conf db x :=
    atrPget_htab _ x
  rw [inherited]
  -- What is left to the victim is his alias, which is the one he is asked for.
  have left (key : Text)
      (held : (db.enter (fold (db.name x)) none).playerHtab key = some x) :
      key = fold (atrPget conf db x).1 := by
    rw [enter_playerHtab, Function.update_apply] at held
    split at held
    · exact absurd held (by simp)
    · next o =>
      obtain ⟨has, eq⟩ := ((indexed.entry_iff player key).mp held).resolve_left o
      rw [eq, atrPget_own limit player.1 has]
  obtain ⟨cut, last, fields, table⟩ : ∃ cut,
      (deletePlayerName (db.enter (fold (db.name x)) none) x (atrPget conf db x).1).2 = cut ∧
        (cut.dbTop = db.dbTop ∧ cut.isPlayer = db.isPlayer ∧ cut.name = db.name ∧
          cut.aliasOf = db.aliasOf) ∧
        ∀ key i, cut.playerHtab key = some i ↔ i ≠ x ∧ db.playerHtab key = some i := by
    refine ⟨_, rfl, ?_⟩
    by_cases held : (db.enter (fold (db.name x)) none).playerHtab
        (fold (atrPget conf db x).1) = some x
    · rw [delete_own held player.ne_nothing]
      refine ⟨⟨rfl, rfl, rfl, rfl⟩, fun key i => ?_⟩
      by_cases own : i = x
      · subst own
        refine iff_of_false (fun kept => ?_) fun both => both.1 rfl
        rw [enter_playerHtab, Function.update_apply] at kept
        split at kept
        · exact absurd kept (by simp)
        · next o => exact o (left key kept)
      · exact ((update_none_entry held own key).trans (update_none_entry old own key)).trans
          (and_iff_right own).symm
    · rw [delete_other held player.ne_nothing]
      refine ⟨⟨rfl, rfl, rfl, rfl⟩, fun key i => ?_⟩
      by_cases own : i = x
      · subst own
        exact iff_of_false (fun kept => held (left key kept ▸ kept)) fun both => both.1 rfl
      · exact (update_none_entry old own key).trans (and_iff_right own).symm
  rw [last]
  obtain ⟨top, players, name, aliasOf⟩ := fields
  refine indexed.change x (fun i o => ?_) (fun i o => ⟨?_, ?_⟩) (fun key i o => ?_)
    (fun key => ?_) (fun gone => ?_) (fun gone => ?_)
  · unfold Db.Player Db.goodObj
    dsimp only
    rw [top, update_of_ne o, players]
  · exact (update_of_ne o _ _).trans (congrFun name i)
  · exact (update_of_ne o _ _).trans (congrFun aliasOf i)
  · exact (table key i).trans (and_iff_right o)
  · refine iff_of_false (fun held => ((table key x).mp held).1 rfl) fun gone => ?_
    exact absurd gone.1.2 (by simp)
  · exact absurd gone.2 (by simp)
  · exact absurd gone.2 (by simp)

/-! ## A restart -/

/-- Whatever a player inherits as his alias is in the table when his turn comes. -/
def Db.Loadable (conf : Conf) (db : Db) : Prop :=
  ∀ i, db.Player i → db.aliasOf i = [] → (atrPget conf db i).1 ≠ [] →
    ∃ j, db.Player j ∧ (fold (atrPget conf db i).1 = fold (db.name j) ∨
      db.aliasOf j ≠ [] ∧ j < i ∧ fold (atrPget conf db i).1 = fold (db.aliasOf j))

def Db.withTable (db : Db) (htab : Text → Option Dbref) : Db := { db with playerHtab := htab }

theorem objects_range (P : Db → Dbref → Db) (start : Db) (n : Nat) :
    ((List.range (n + 1)).map Int.ofNat).foldl P start =
      P (((List.range n).map Int.ofNat).foldl P start) n := by
  rw [range_succ, map_append, foldl_append]
  rfl

theorem player_below (player : db.Player i) : 0 ≤ i ∧ i < db.dbTop := of_decide_eq_true player.1

theorem lt_succ_cast (i : Int) (n : Nat) : i < (n + 1 : Nat) ↔ i < n ∨ i = n := by
  omega

theorem player_of_lt {n : Nat} (hin : n < db.dbTop) (isPlayer : db.isPlayer n = true) :
    db.Player n := by
  refine ⟨decide_eq_true ⟨Int.natCast_nonneg n, ?_⟩, isPlayer⟩
  exact Int.ofNat_lt.mpr hin

theorem enter_step (name : Text) (player : db.Player x)
    (single : ∀ j, htab (fold name) = some j → j = x) :
    ∃ htab', (addPlayerName (db.withTable htab) x name).2 = db.withTable htab' ∧
      ∀ key j, htab' key = some j ↔ htab key = some j ∨ j = x ∧ key = fold name := by
  cases held : htab (fold name) with
  | none =>
    refine ⟨update htab (fold name) (some x),
      congrArg Prod.snd (add_unused (db.withTable htab) held), fun key j => ?_⟩
    by_cases eq : key = fold name
    · rw [eq, update_self, held]
      simp [eq_comm]
    · rw [update_of_ne eq]
      simp [eq]
  | some j =>
    obtain rfl := single j held
    refine ⟨htab, add_used (db.withTable htab) held player, fun key j => ?_⟩
    refine ⟨.inl, ?_⟩
    rintro (kept | ⟨rfl, rfl⟩)
    · exact kept
    · exact held

theorem load_names (indexed : Indexed conf db) (n : Nat) (hin : n ≤ db.dbTop) :
    ∃ htab, ((List.range n).map Int.ofNat).foldl loadName (db.withTable fun _ => none) =
        db.withTable htab ∧
      ∀ key i, htab key = some i ↔ db.Player i ∧ i < n ∧ key = fold (db.name i) := by
  induction n with
  | zero =>
    refine ⟨fun _ => none, rfl, fun key i => iff_of_false (by simp) ?_⟩
    exact fun both => absurd (player_below both.1).1 (Int.not_le.mpr both.2.1)
  | succ n ih =>
    obtain ⟨htab, loaded, spec⟩ := ih (Nat.le_of_succ_le hin)
    rw [objects_range, loaded]
    unfold loadName
    by_cases isPlayer : db.isPlayer n = true
    · have player := player_of_lt hin isPlayer
      obtain ⟨htab', entered, table⟩ := enter_step (db.name n) player fun j held => by
        obtain ⟨o, -, eq⟩ := (spec _ j).mp held
        have one := indexed.found n player _ (db.name_mem n)
        rw [eq, indexed.found j o _ (db.name_mem j)] at one
        exact some.inj one
      refine ⟨htab', (if_pos isPlayer).trans entered, fun key i => ?_⟩
      rw [table, spec, lt_succ_cast]
      constructor
      · rintro (⟨living, less, named⟩ | ⟨rfl, named⟩)
        · exact ⟨living, .inl less, named⟩
        · exact ⟨player, .inr rfl, named⟩
      · rintro ⟨living, less | rfl, named⟩
        · exact .inl ⟨living, less, named⟩
        · exact .inr ⟨rfl, named⟩
    · refine ⟨htab, if_neg isPlayer, fun key i => ?_⟩
      rw [spec, lt_succ_cast]
      refine ⟨fun all => ⟨all.1, .inl all.2.1, all.2.2⟩, ?_⟩
      rintro ⟨living, less | rfl, named⟩
      · exact ⟨living, less, named⟩
      · exact absurd living.2 isPlayer

theorem load_aliases (indexed : Indexed conf db) (limit : 0 < conf.parentNestLim)
    (loadable : db.Loadable conf) {names : Text → Option Dbref}
    (named : ∀ key i, names key = some i ↔ db.Player i ∧ key = fold (db.name i)) (n : Nat)
    (hin : n ≤ db.dbTop) :
    ∃ htab, ((List.range n).map Int.ofNat).foldl (loadAlias conf) (db.withTable names) =
        db.withTable htab ∧
      ∀ key i, htab key = some i ↔ db.Player i ∧ (key = fold (db.name i) ∨
        i < n ∧ db.aliasOf i ≠ [] ∧ key = fold (db.aliasOf i)) := by
  induction n with
  | zero =>
    refine ⟨names, rfl, fun key i => (named key i).trans (and_congr_right fun living => ?_)⟩
    refine (or_iff_left fun both => ?_).symm
    exact absurd (player_below living).1 (Int.not_le.mpr both.1)
  | succ n ih =>
    obtain ⟨htab, loaded, spec⟩ := ih (Nat.le_of_succ_le hin)
    rw [objects_range, loaded]
    -- Without an alias of one's own, nothing new belongs in the table.
    have keep (without : db.Player n → db.aliasOf n = []) (key : Text) (i : Dbref) :
        htab key = some i ↔ db.Player i ∧ (key = fold (db.name i) ∨
          i < (n + 1 : Nat) ∧ db.aliasOf i ≠ [] ∧ key = fold (db.aliasOf i)) := by
      rw [spec]
      refine and_congr_right fun living => or_congr_right ?_
      rw [lt_succ_cast]
      refine and_congr_left fun both => ⟨.inl, ?_⟩
      rintro (less | rfl)
      · exact less
      · exact absurd (without living) both.1
    have inherited : atrPget conf (db.withTable htab) n = atrPget conf db n := atrPget_htab htab n
    unfold loadAlias
    by_cases isPlayer : db.isPlayer n = true
    · have player := player_of_lt hin isPlayer
      dsimp only
      rw [if_pos (show (db.withTable htab).isPlayer n = true from isPlayer), inherited]
      by_cases has : db.aliasOf n = []
      · by_cases nobody : (atrPget conf db n).1 = []
        · exact ⟨htab, if_neg (not_not.mpr nobody), keep fun _ => has⟩
        · obtain ⟨j, o, owner⟩ := loadable n player has nobody
          have held : htab (fold (atrPget conf db n).1) = some j :=
            (spec _ j).mpr ⟨o, owner.imp id fun both => ⟨both.2.1, both.1, both.2.2⟩⟩
          refine ⟨htab, ?_, keep fun _ => has⟩
          rw [if_pos nobody]
          exact add_used (db.withTable htab) held o
      · rw [atrPget_own limit player.1 has, if_pos has]
        obtain ⟨htab', entered, table⟩ := enter_step (db.aliasOf n) player
          fun j held => by
            obtain ⟨o, eq⟩ := (spec _ j).mp held
            have one := indexed.found n player _ (Db.alias_mem has)
            rcases eq with eq | ⟨-, otherHas, eq⟩
            · rw [eq, indexed.found j o _ (db.name_mem j)] at one
              exact some.inj one
            · rw [eq, indexed.found j o _ (Db.alias_mem otherHas)] at one
              exact some.inj one
        refine ⟨htab', entered, fun key i => ?_⟩
        rw [table, spec, lt_succ_cast]
        constructor
        · rintro (⟨living, own | ⟨less, named⟩⟩ | ⟨rfl, own⟩)
          · exact ⟨living, .inl own⟩
          · exact ⟨living, .inr ⟨.inl less, named⟩⟩
          · exact ⟨player, .inr ⟨.inr rfl, has, own⟩⟩
        · rintro ⟨living, own | ⟨less | rfl, named⟩⟩
          · exact .inl ⟨living, .inl own⟩
          · exact .inl ⟨living, .inr ⟨less, named⟩⟩
          · exact .inr ⟨rfl, named.2⟩
    · exact ⟨htab, if_neg isPlayer, keep fun living => absurd living.2 isPlayer⟩

theorem load_indexed (indexed : Indexed conf db) (limit : 0 < conf.parentNestLim)
    (loadable : db.Loadable conf) :
    Indexed conf (loadPlayerNames conf { db with playerHtab := fun _ => none }) := by
  obtain ⟨names, loaded, named⟩ := load_names indexed db.dbTop (Nat.le_refl _)
  have named (key : Text) (i : Dbref) : names key = some i ↔ db.Player i ∧ key = fold (db.name i) := by
    rw [named]
    exact ⟨fun all => ⟨all.1, all.2.2⟩, fun both => ⟨both.1, (player_below both.1).2, both.2⟩⟩
  obtain ⟨htab, entered, table⟩ :=
    load_aliases indexed limit loadable named db.dbTop (Nat.le_refl _)
  have last : loadPlayerNames conf { db with playerHtab := fun _ => none } = db.withTable htab := by
    unfold loadPlayerNames
    change List.foldl (loadAlias conf) (List.foldl loadName (db.withTable fun _ => none) db.objects)
      (List.foldl loadName (db.withTable fun _ => none) db.objects).objects = _
    unfold Db.objects
    rw [loaded]
    exact entered
  have spec (key : Text) (i : Dbref) :
      htab key = some i ↔ db.Player i ∧ ∃ name ∈ db.names i, key = fold name := by
    rw [table, exists_names]
    refine and_congr_right fun living => or_congr_right ?_
    exact and_iff_right (player_below living).2
  rw [last]
  exact ⟨fun i player name mem => (spec _ i).mpr ⟨player, name, mem, rfl⟩,
    fun key i held => (spec key i).mp held, indexed.proper, indexed.distinct⟩

/-! ## Runs -/

def NameOp.Settled (conf : Conf) (db : Db) : NameOp → Prop
  | .create _ name allowed =>
    allowed = true → badnameCheck conf (mungeSpace name) = true → mungeSpace name ≠ []
  | .setAlias thing newAlias allowed =>
    db.isPlayer thing = true → allowed = true →
      aliasChanges conf db (trimSpaces newAlias) = true → db.aliasOf thing = [] →
        fold (atrPget conf db thing).1 ≠ fold (db.name thing)
  | .reload => db.Loadable conf
  | .name _ _ | .destroy _ => True

theorem mem_objects (db : Db) (i : Dbref) : i ∈ db.objects ↔ db.goodObj i = true := by
  unfold Db.objects Db.goodObj
  rw [List.mem_map, decide_eq_true_iff]
  constructor
  · rintro ⟨n, mem, rfl⟩
    exact ⟨Int.natCast_nonneg n, Int.ofNat_lt.mpr (mem_range.mp mem)⟩
  · rintro ⟨low, high⟩
    refine ⟨i.toNat, mem_range.mpr ?_, Int.toNat_of_nonneg low⟩
    exact (Int.toNat_lt low).mpr high

instance (conf : Conf) (db : Db) : Decidable (db.Loadable conf) :=
  decidable_of_iff (∀ i ∈ db.objects, db.isPlayer i = true → db.aliasOf i = [] →
    (atrPget conf db i).1 ≠ [] → ∃ j ∈ db.objects, db.isPlayer j = true ∧
      (fold (atrPget conf db i).1 = fold (db.name j) ∨
        db.aliasOf j ≠ [] ∧ j < i ∧ fold (atrPget conf db i).1 = fold (db.aliasOf j))) <| by
    simp only [mem_objects, Db.Loadable, Db.Player, and_imp, and_assoc]

instance NameOp.Settled.decidable (conf : Conf) (db : Db) :
    ∀ op : NameOp, Decidable (op.Settled conf db)
  | .create .. => inferInstanceAs (Decidable (_ → _ → _))
  | .setAlias .. => inferInstanceAs (Decidable (_ → _ → _ → _ → _))
  | .reload => inferInstanceAs (Decidable (db.Loadable conf))
  | .name _ _ | .destroy _ => isTrue trivial

theorem step_indexed (limit : 0 < conf.parentNestLim) (indexed : Indexed conf db) {op : NameOp}
    (settled : op.Settled conf db) : Indexed conf (db.step conf op) := by
  cases op with
  | create obj name allowed =>
    unfold Db.step
    dsimp only
    split
    · next free => exact create_indexed indexed free settled
    · exact indexed
  | name thing newname =>
    unfold Db.step
    dsimp only
    split
    · next good => exact name_indexed indexed good
    · exact indexed
  | setAlias thing newAlias allowed =>
    unfold Db.step
    dsimp only
    split
    · next good => exact alias_indexed indexed limit good settled
    · exact indexed
  | destroy victim =>
    unfold Db.step
    dsimp only
    split
    · next living => exact destroy_indexed indexed limit (Bool.and_eq_true_iff.mp living)
    · exact indexed
  | reload => exact load_indexed indexed limit settled

/-- After a run of settled commands, each player is found by his name and his alias, no two have
names that compare as equal, and the table has nothing else. -/
theorem run_indexed (limit : 0 < conf.parentNestLim) (indexed : Indexed conf db)
    {ops : List NameOp}
    (settled : Machine.Guarded (fun db op => some (db.step conf op))
      (fun db op => op.Settled conf db) db ops)
    (ran : Machine.run (fun db op => some (db.step conf op)) db ops = some db') :
    (∀ i, db'.Player i → ∀ name ∈ db'.names i, db'.playerHtab (fold name) = some i ∧
        ∀ doer, lookupPlayer conf db' doer name = i) ∧
      (∀ i j, db'.Player i → db'.Player j → i ≠ j → ∀ first ∈ db'.names i,
        ∀ second ∈ db'.names j, stringCompare conf.spaceCompress first second ≠ 0) ∧
      ∀ key i, db'.playerHtab key = some i →
        db'.Player i ∧ ∃ name ∈ db'.names i, key = fold name := by
  have last : Indexed conf db' := by
    refine Machine.run_guarded (fun db op db' indexed settled stepped => ?_) indexed settled ran
    obtain rfl := some.inj stepped
    exact step_indexed limit indexed settled
  refine ⟨fun i player name member => ⟨last.found i player name member, ?_⟩, ?_, last.entry⟩
  · exact last.lookup player member
  · intro i j one other different first firstMember second secondMember
    exact last.apart one other different firstMember secondMember

def someConf : Conf := ⟨true, true, 10, ["God*".toList]⟩

def emptyDb : Db where
  dbTop := 1
  isPlayer _ := false
  name _ := "Limbo".toList
  aliasOf _ := []
  aliasPrivate _ := false
  parent _ := nothing
  playerHtab _ := none

theorem emptyDb_indexed (conf : Conf) : Indexed conf emptyDb := by
  refine ⟨fun i player => ?_, fun key i held => ?_, fun i player => ?_, fun i player => ?_⟩
  · exact absurd player.2 (by simp [emptyDb])
  · exact absurd held (by simp [emptyDb])
  · exact absurd player.2 (by simp [emptyDb])
  · exact absurd player.2 (by simp [emptyDb])

/-- Two players are made; the second takes an alias and another name, the server is restarted, and
the first player is destroyed. -/
def someNames : List NameOp :=
  [.create 1 "Wizard".toList true, .create 2 "Bob".toList true,
    .setAlias 2 " bobby".toList true, .name 2 "Robert  Smith".toList, .reload, .destroy 1]

theorem run_indexed_some :
    lookupPlayer someConf (someNames.foldl (Db.step someConf) emptyDb) nothing
      "Robert Smith".toList = 2 := by
  have settled : Machine.Guarded (fun db op => some (Db.step someConf db op))
      (fun db op => op.Settled someConf db) emptyDb someNames := by decide
  have found := (run_indexed (by decide) (emptyDb_indexed someConf) settled rfl).1
  exact (found 2 (by decide) "Robert Smith".toList (by decide)).2 nothing

def heirDb : Db where
  dbTop := 3
  isPlayer x := x == 1
  name x := if x = 1 then "Bob".toList else "Thing".toList
  aliasOf x := if x = 2 then "bob".toList else []
  aliasPrivate _ := false
  parent x := if x = 1 then 2 else nothing
  playerHtab key := if key = "bob".toList then some 1 else none

def namelessDb : Db :=
  [NameOp.create 1 [] true, .create 2 [] true].foldl (Db.step someConf) emptyDb

def disinheritedDb : Db := heirDb.step someConf (.setAlias 1 [] true)

/-- Players without a name may be made, and more than one.  Who clears the alias that he inherits
may take his own name out of the table. -/
theorem nameless_players_clash :
    (namelessDb.Player 1 ∧ namelessDb.Player 2 ∧
      stringCompare someConf.spaceCompress (namelessDb.name 1) (namelessDb.name 2) = 0 ∧
      lookupPlayer someConf namelessDb nothing (namelessDb.name 2) = 1) ∧
    (heirDb.Player 1 ∧ lookupPlayer someConf heirDb nothing "Bob".toList = 1 ∧
      disinheritedDb.Player 1 ∧ disinheritedDb.name 1 = "Bob".toList ∧
      lookupPlayer someConf disinheritedDb nothing "Bob".toList = nothing) := by
  decide

end BattletechMux.Players
