/-
Module: BattletechMux.Quota.Balance
Purpose: Quota changes hands with the objects: what a player has left and what his objects are worth
  together stay the same, as long as a command is none of the few that charge for one thing and give
  another and the quota that remains fits an int.
-/
import BattletechMux.Quota.Building
import BattletechMux.Foundation.Machine
import Mathlib.Algebra.BigOperators.Group.Finset.Basic
import Mathlib.Data.BitVec
import Mathlib.Data.List.Infix
import Mathlib.Tactic.Abel

namespace BattletechMux.Quota

open List Option

open Function (update update_self update_of_ne)

def Conf.value (conf : Conf) : ObjType → Word
  | .room => conf.roomQuota
  | .thing => conf.thingQuota
  | .exit => conf.exitQuota
  | .player => conf.playerQuota
  | .garbage => 0

def Conf.Sensible (conf : Conf) : Prop := ∀ objtype, 0 ≤ (conf.value objtype).toInt

def held (conf : Conf) (db : Db) (p i : Dbref) : Word :=
  if db.owner i = p ∧ i ≠ p then conf.value (db.typeOf i) else 0

def worth (conf : Conf) (db : Db) (p : Dbref) : Word :=
  db.rquota p + ∑ i ∈ Finset.range db.dbTop, held conf db p i

/-- The value of what a player owns, and his quota with it: numbers beyond an int. -/
def possessions (conf : Conf) (db : Db) (p : Dbref) : Int :=
  ∑ i ∈ Finset.range db.dbTop, (held conf db p i).toInt

def total (conf : Conf) (db : Db) (p : Dbref) : Int :=
  (db.rquota p).toInt + possessions conf db p

def IsInt (n : Int) : Prop := -2 ^ 31 ≤ n ∧ n < 2 ^ 31

instance (n : Int) : Decidable (IsInt n) := inferInstanceAs (Decidable (_ ∧ _))

def Db.IsPlayer (db : Db) (p : Dbref) : Prop := p < db.dbTop ∧ db.typeOf p = .player

variable {conf : Conf} {db db' : Db} {powers : Powers} {p obj : Dbref}

theorem held_of_owner (owned : db.owner obj = p) (o : obj ≠ p) :
    held conf db p obj = conf.value (db.typeOf obj) := if_pos ⟨owned, o⟩

theorem held_of_other (notOwned : db.owner obj ≠ p) : held conf db p obj = 0 :=
  if_neg fun both => notOwned both.1

theorem held_of_worthless (worthless : conf.value (db.typeOf obj) = 0) :
    held conf db p obj = 0 := by
  unfold held
  rw [worthless, ite_self]

/-! ## Sums -/

theorem worth_of_one (hin : obj < db.dbTop) (top : db'.dbTop = db.dbTop)
    (others : ∀ i, i ≠ obj → held conf db' p i = held conf db p i)
    (change : db'.rquota p + held conf db' p obj = db.rquota p + held conf db p obj) :
    worth conf db' p = worth conf db p := by
  have mem : obj ∈ Finset.range db.dbTop := Finset.mem_range.mpr hin
  have rest : ∑ i ∈ (Finset.range db.dbTop).erase obj, held conf db' p i =
      ∑ i ∈ (Finset.range db.dbTop).erase obj, held conf db p i :=
    Finset.sum_congr rfl fun i inRest => others i (Finset.ne_of_mem_erase inRest)
  unfold worth
  rw [top, ← Finset.add_sum_erase _ (held conf db' p) mem,
    ← Finset.add_sum_erase _ (held conf db p) mem, rest, ← add_assoc, change, add_assoc]

theorem worth_of_new (top : db'.dbTop = db.dbTop + 1)
    (others : ∀ i, i ≠ db.dbTop → held conf db' p i = held conf db p i)
    (change : db'.rquota p + held conf db' p db.dbTop = db.rquota p) :
    worth conf db' p = worth conf db p := by
  have rest : ∑ i ∈ Finset.range db.dbTop, held conf db' p i =
      ∑ i ∈ Finset.range db.dbTop, held conf db p i :=
    Finset.sum_congr rfl fun i inRange => others i (Nat.ne_of_lt (Finset.mem_range.mp inRange))
  unfold worth
  rw [top, Finset.sum_range_succ, rest, ← change]
  abel

theorem worth_eq (conf : Conf) (db : Db) (p : Dbref) :
    worth conf db p = BitVec.ofInt 32 (total conf db p) := by
  unfold worth total possessions
  induction Finset.range db.dbTop using Finset.induction_on with
  | empty => simp
  | insert i rest notIn ih =>
    rw [Finset.sum_insert notIn, Finset.sum_insert notIn, add_left_comm, ih, Int.add_left_comm]
    simp only [BitVec.ofInt_add, BitVec.ofInt_toInt]

/-- Where the words agree, the numbers agree exactly if the quota that is due is an int. -/
theorem total_same_iff (same : worth conf db' p = worth conf db p) :
    total conf db' p = total conf db p ↔ IsInt (total conf db p - possessions conf db' p) := by
  have due : db'.rquota p = BitVec.ofInt 32 (total conf db p - possessions conf db' p) := by
    rw [worth_eq, worth_eq, total, BitVec.ofInt_add, BitVec.ofInt_toInt] at same
    rw [Int.sub_eq_add_neg, BitVec.ofInt_add, BitVec.ofInt_neg, ← same, add_neg_cancel_right]
  have range := And.intro (BitVec.le_toInt (db'.rquota p)) (BitVec.toInt_lt (x := db'.rquota p))
  constructor
  · intro eq
    rw [← eq, total, Int.add_sub_cancel]
    exact range
  · intro fits
    have read : (db'.rquota p).toInt = total conf db p - possessions conf db' p := by
      rw [due, BitVec.toInt_ofInt_eq_self (by decide) fits.1 fits.2]
    rw [total, read, Int.sub_add_cancel]

/-! ## Fees -/

structure SameButMoney (db db' : Db) : Prop where
  dbTop : db'.dbTop = db.dbTop
  typeOf : db'.typeOf = db.typeOf
  owner : db'.owner = db.owner
  rquota : db'.rquota = db.rquota
  loose : db'.loose = db.loose
  freelist : db'.freelist = db.freelist
  link : db'.link = db.link

theorem giveto_same (db : Db) (powers : Powers) (who : Dbref) (pennies : Word) :
    SameButMoney db (giveto db powers who pennies) := by
  unfold giveto
  split <;> exact ⟨rfl, rfl, rfl, rfl, rfl, rfl, rfl⟩

theorem payfor_same (db : Db) (powers : Powers) (who : Dbref) (cost : Word) :
    SameButMoney db (payfor db powers who cost).2 := by
  unfold payfor
  split
  · exact ⟨rfl, rfl, rfl, rfl, rfl, rfl, rfl⟩
  · dsimp only
    split <;> exact ⟨rfl, rfl, rfl, rfl, rfl, rfl, rfl⟩

def Conf.charge (conf : Conf) (quota : Word) : Word :=
  if conf.quotas = true ∧ 0 < quota.toInt then quota else 0

theorem charge_of_quotas (quotas : conf.quotas = true) {quota : Word} (pos : 0 ≤ quota.toInt) :
    conf.charge quota = quota := by
  unfold Conf.charge
  rcases Int.lt_or_le 0 quota.toInt with more | less
  · exact if_pos ⟨quotas, more⟩
  · rw [if_neg fun both => Int.not_lt.mpr less both.2]
    exact BitVec.eq_of_toInt_eq (Int.le_antisymm pos less)

theorem charge_of_no_quotas (quotas : conf.quotas = false) (quota : Word) :
    conf.charge quota = 0 := by
  simp [Conf.charge, quotas]

def Db.charged (db : Db) (conf : Conf) (who : Dbref) (quota : Word) : Db :=
  { db with
    rquota := update db.rquota (db.owner who) (db.rquota (db.owner who) - conf.charge quota) }

theorem charged_nothing {who : Dbref} {quota : Word} (nothing : conf.charge quota = 0) :
    db.charged conf who quota = db := by
  unfold Db.charged
  rw [nothing, sub_zero, Function.update_eq_self]

theorem pay_quota_charged {who : Dbref} {quota : Word} (quotas : conf.quotas = true)
    (paid : payQuota db powers who quota = some db') : db' = db.charged conf who quota := by
  unfold payQuota at paid
  rcases Int.lt_or_le 0 quota.toInt with more | less
  · rw [if_neg (Int.not_le.mpr more)] at paid
    have charge : conf.charge quota = quota := if_pos ⟨quotas, more⟩
    unfold Db.charged
    rw [charge]
    dsimp only at paid
    split at paid
    · exact absurd paid (by simp)
    · exact (some.inj paid).symm
  · rw [if_pos less] at paid
    have charge : conf.charge quota = 0 := if_neg fun both => Int.not_lt.mpr less both.2
    rw [charged_nothing charge]
    exact (some.inj paid).symm

theorem canpayfees_same {who : Dbref} {pennies quota : Word}
    (paid : canpayfees conf db powers who pennies quota = some db') :
    SameButMoney (db.charged conf who quota) db' := by
  unfold canpayfees at paid
  split at paid
  · exact absurd paid (by simp)
  · cases quotas : conf.quotas with
    | true =>
      rw [quotas] at paid
      obtain ⟨middle, charged, rfl⟩ :
          ∃ middle, payQuota db powers who quota = some middle ∧
            (payfor middle powers who pennies).2 = db' := by
        simpa [bind_eq_some_iff] using paid
      rw [← pay_quota_charged quotas charged]
      exact payfor_same _ _ _ _
    | false =>
      rw [quotas] at paid
      obtain rfl : (payfor db powers who pennies).2 = db' := by simpa using paid
      rw [charged_nothing (charge_of_no_quotas quotas quota)]
      exact payfor_same _ _ _ _

/-! ## Commands -/

/-- What a command does for the players before and after it. -/
def Balanced (conf : Conf) (db db' : Db) : Prop :=
  ∀ p, db.IsPlayer p → db'.IsPlayer p →
    (conf.quotas = true → worth conf db' p = worth conf db p) ∧
      (conf.quotas = false → db'.rquota p = db.rquota p)

/-- Where the new owner's charge and the old owner's refund come out even: nothing is charged,
or the thing stays, or it is nobody's own self and goes to the one who pays. -/
def ChownSettled (conf : Conf) (db : Db) (player thing new : Dbref) : Prop :=
  let receiver := if player = god then new else db.owner new
  (conf.chownPrice db thing).2 = 0 ∨
    (db.owner new = db.owner thing ∧
      (db.typeOf thing = .garbage ∨ receiver = db.owner thing)) ∨
    (db.typeOf thing ≠ .garbage ∧ db.owner thing ≠ thing ∧ receiver ≠ thing ∧
      db.owner new = receiver)

/-- `chown_all` takes the owner of what is no player. -/
def Db.playerOf (db : Db) (x : Dbref) : Dbref := if db.typeOf x ≠ .player then db.owner x else x

def BuildOp.Settled (conf : Conf) (db : Db) : BuildOp → Prop
  | .create _ player objtype cost _ _ =>
    conf.quotas = true → player.isSome = true → objtype = .player → cost = 0 →
      conf.startQuota.toInt ≤ 0
  | .destroy _ obj =>
    conf.quotas = true → db.typeOf obj = .garbage →
      db.goodOwner (db.owner obj) = false ∨ db.owner obj = obj
  | .linkExit _ player exit _ =>
    conf.quotas = false → db.owner exit = db.owner player ∨ conf.exitQuota = 0
  | .chown _ player thing owner _ =>
    conf.quotas = true → ∀ new, owner = some new → ChownSettled conf db player thing new
  | .chownAll fromPlayer toPlayer =>
    conf.quotas = false → ∀ i < db.dbTop, db.owner i = db.playerOf fromPlayer →
      i ≠ db.playerOf fromPlayer → conf.value (db.typeOf i) = 0 ∨
        (db.playerOf fromPlayer = db.playerOf toPlayer ∧ db.typeOf i ≠ .player)

instance (conf : Conf) (db : Db) (player thing new : Dbref) :
    Decidable (ChownSettled conf db player thing new) :=
  inferInstanceAs (Decidable (_ ∨ _ ∧ (_ ∨ _) ∨ _ ∧ _ ∧ _ ∧ _))

instance (db : Db) (p : Dbref) : Decidable (db.IsPlayer p) := inferInstanceAs (Decidable (_ ∧ _))

instance BuildOp.Settled.decidable (conf : Conf) (db : Db) :
    ∀ op : BuildOp, Decidable (op.Settled conf db)
  | .create .. => inferInstanceAs (Decidable (_ → _ → _ → _ → _))
  | .destroy .. => inferInstanceAs (Decidable (_ → _ → _))
  | .linkExit .. => inferInstanceAs (Decidable (_ → _))
  | .chown _ player thing owner _ =>
    match owner with
    | none => isTrue fun _ _ named => nomatch named
    | some new =>
      decidable_of_iff (conf.quotas = true → ChownSettled conf db player thing new)
        ⟨fun settled quotas _ named => some.inj named ▸ settled quotas,
          fun settled quotas => settled quotas new rfl⟩
  | .chownAll .. => inferInstanceAs (Decidable (_ → ∀ i < _, _ → _ → _))

theorem held_congr {i : Dbref} (owner : db'.owner i = db.owner i)
    (typeOf : db'.typeOf i = db.typeOf i) : held conf db' p i = held conf db p i := by
  unfold held
  rw [owner, typeOf]

theorem refund_value (present : db.typeOf obj ≠ .garbage) :
    (conf.refund db obj).2 = conf.value (db.typeOf obj) := by
  unfold Conf.refund
  cases kind : db.typeOf obj <;> first | rfl | exact absurd kind present

theorem chownPrice_value (present : db.typeOf obj ≠ .garbage) :
    (conf.chownPrice db obj).2 = conf.value (db.typeOf obj) := by
  unfold Conf.chownPrice
  cases kind : db.typeOf obj <;> first | rfl | exact absurd kind present

variable {objtype : ObjType} {price : Price} {cost : Word}

theorem price_value
    (priced : conf.price objtype cost = some price) (notOwn : price.selfOwned = false) :
    price.quota = conf.value objtype := by
  cases objtype with
  | player =>
    unfold Conf.price at priced
    dsimp only at priced
    split at priced
    · obtain rfl := some.inj priced
      rfl
    · obtain rfl := some.inj priced
      exact absurd notOwn (by simp)
  | garbage => exact absurd priced (by simp [Conf.price])
  | room | thing | exit =>
    obtain rfl := some.inj priced
    rfl

theorem price_selfOwned
    (priced : conf.price objtype cost = some price) (own : price.selfOwned = true) :
    objtype = .player ∧ cost = 0 ∧ price.quota = conf.startQuota := by
  cases objtype with
  | player =>
    unfold Conf.price at priced
    dsimp only at priced
    split at priced
    · obtain rfl := some.inj priced
      exact absurd own (by simp)
    · next free =>
      obtain rfl := some.inj priced
      exact ⟨rfl, not_not.mp free, rfl⟩
  | garbage => exact absurd priced (by simp [Conf.price])
  | room | thing | exit =>
    obtain rfl := some.inj priced
    exact absurd own (by simp)

theorem emptied_balanced (hin : obj < db.dbTop) (notSelf : p ≠ obj) {middle : Db}
    (top : middle.dbTop = db.dbTop) (typeOf : middle.typeOf = db.typeOf)
    (owner : middle.owner = db.owner)
    (paid : conf.quotas = true → middle.rquota p = db.rquota p + held conf db p obj)
    (free : conf.quotas = false → middle.rquota p = db.rquota p)
    (last : db' = { middle with
      typeOf := update middle.typeOf obj .garbage
      owner := update middle.owner obj god
      pennies := update middle.pennies obj 0
      rquota := update middle.rquota obj 0
      robot := update middle.robot obj false
      loose := update middle.loose obj true
      link := update middle.link obj none }) :
    (conf.quotas = true → worth conf db' p = worth conf db p) ∧
      (conf.quotas = false → db'.rquota p = db.rquota p) := by
  subst last
  have rquota : update middle.rquota obj 0 p = middle.rquota p := update_of_ne notSelf _ _
  refine ⟨fun quotas => ?_, fun quotas => rquota.trans (free quotas)⟩
  refine worth_of_one hin top (fun i o => ?_) ?_
  · refine held_congr ?_ ?_
    · exact (update_of_ne o _ _).trans (congrFun owner i)
    · exact (update_of_ne o _ _).trans (congrFun typeOf i)
  · rw [held_of_worthless (by simp [Conf.value]), add_zero]
    exact rquota.trans (paid quotas)

theorem destroy_balanced (settled : (BuildOp.destroy powers obj).Settled conf db)
    (destroyed : destroyObj conf db powers obj = some db') : Balanced conf db db' := by
  intro p pre post
  unfold destroyObj at destroyed
  split at destroyed
  case isFalse => exact absurd destroyed (by simp)
  next good =>
  have hin : obj < db.dbTop := of_decide_eq_true good
  have last := (some.inj destroyed).symm
  have notSelf : p ≠ obj := by
    rintro rfl
    rw [last] at post
    exact absurd post.2 (by simp)
  have notOwner (unpaid : ¬(db.goodOwner (db.owner obj) = true ∧ db.owner obj ≠ obj)) :
      db.owner obj ≠ p := by
    rintro rfl
    refine unpaid ⟨?_, notSelf⟩
    simp [Db.goodOwner, Db.goodObj, pre.1, pre.2]
  by_cases pays : db.goodOwner (db.owner obj) = true ∧ db.owner obj ≠ obj
  · rw [if_pos pays] at last
    have eq := giveto_same db powers (db.owner obj) (conf.refund db obj).1
    rcases Bool.eq_false_or_eq_true conf.quotas with quotas | quotas
    · simp only [quotas, if_true] at last
      refine emptied_balanced hin notSelf ?_ ?_ ?_ ?_ ?_ last
      · exact eq.dbTop
      · exact eq.typeOf
      · exact eq.owner
      · intro _
        have present : db.typeOf obj ≠ .garbage := fun garbage => by
          rcases settled quotas garbage with bad | own
          · exact absurd pays.1 (by simp [bad])
          · exact pays.2 own
        unfold addQuota
        dsimp only
        rw [eq.rquota, refund_value present]
        by_cases mine : p = db.owner obj
        · rw [mine, update_self, held_of_owner rfl (Ne.symm pays.2)]
        · rw [update_of_ne mine, held_of_other (Ne.symm mine), add_zero]
      · exact fun off => absurd (quotas.symm.trans off) (by simp)
    · simp only [quotas, Bool.false_eq_true, if_false] at last
      refine emptied_balanced hin notSelf eq.dbTop eq.typeOf eq.owner ?_ ?_ last
      · exact fun on => absurd (quotas.symm.trans on) (by simp)
      · exact fun _ => congrFun eq.rquota p
  · rw [if_neg pays] at last
    refine emptied_balanced hin notSelf rfl rfl rfl ?_ (fun _ => rfl) last
    intro _
    rw [held_of_other (notOwner pays), add_zero]

theorem worth_of_handed {receiver : Dbref} (hin : obj < db.dbTop) (top : db'.dbTop = db.dbTop)
    (typeOf : db'.typeOf = db.typeOf) (owner : db'.owner = update db.owner obj receiver)
    (change : db'.rquota p + (if receiver = p ∧ obj ≠ p then conf.value (db.typeOf obj) else 0) =
      db.rquota p + held conf db p obj) :
    worth conf db' p = worth conf db p := by
  refine worth_of_one hin top (fun i o => ?_) ?_
  · refine held_congr ?_ (congrFun typeOf i)
    rw [owner, update_of_ne o]
  · rw [← change]
    unfold held
    rw [owner, update_self, typeOf]

theorem update_loss_gain (quota : Dbref → Word) (loser winner p : Dbref) (loss gain : Word) :
    update (update quota loser (quota loser - loss)) winner
        (update quota loser (quota loser - loss) winner + gain) p =
      quota p - (if p = loser then loss else 0) + (if p = winner then gain else 0) := by
  by_cases lost : p = loser <;> by_cases won : p = winner
  · subst lost won
    simp
  · subst lost
    simp [won]
  · subst won
    simp [lost]
  · simp [lost, won]

/-- An object was handed over: somebody was charged, and its owner was paid back. -/
structure Traded (conf : Conf) (db db' : Db) (payer obj receiver : Dbref) (quota back : Word) :
    Prop where
  dbTop : db'.dbTop = db.dbTop
  typeOf : db'.typeOf = db.typeOf
  owner : db'.owner = update db.owner obj receiver
  rquota : ∀ p, db'.rquota p =
    db.rquota p - (if p = db.owner payer then conf.charge quota else 0) +
      (if p = db.owner obj then back else 0)

variable {payer receiver : Dbref} {quota back : Word}

theorem traded_of_fees {middle paid : Db} (fees : SameButMoney (db.charged conf payer quota) middle)
    (payment : SameButMoney middle paid) (last : db' = { addQuota paid (db.owner obj) back with
      owner := update db.owner obj receiver }) :
    Traded conf db db' payer obj receiver quota back := by
  subst last
  refine ⟨payment.dbTop.trans fees.dbTop, payment.typeOf.trans fees.typeOf, rfl, fun p => ?_⟩
  unfold addQuota
  dsimp only
  rw [payment.rquota, fees.rquota]
  exact update_loss_gain _ _ _ _ _ _

theorem add_quota_zero (db : Db) (who : Dbref) : addQuota db who 0 = db := by
  unfold addQuota
  rw [add_zero, Function.update_eq_self]

theorem Traded.worth_same
    (traded : Traded conf db db' payer obj receiver quota back) (hin : obj < db.dbTop)
    (even : (if p = db.owner obj then back else 0) +
        (if receiver = p ∧ obj ≠ p then conf.value (db.typeOf obj) else 0) =
      (if p = db.owner payer then conf.charge quota else 0) + held conf db p obj) :
    worth conf db' p = worth conf db p := by
  refine worth_of_handed hin traded.dbTop traded.typeOf traded.owner ?_
  rw [traded.rquota p, add_assoc, even]
  abel

theorem Traded.rquota_same
    (traded : Traded conf db db' payer obj receiver quota back) (quotas : conf.quotas = false)
    (nothing : back = 0) : db'.rquota p = db.rquota p := by
  rw [traded.rquota p, charge_of_no_quotas quotas, nothing, ite_self, ite_self, sub_zero,
    add_zero]

theorem link_balanced (sensible : conf.Sensible) {player exit : Dbref} {allowed : Bool}
    (hin : exit < db.dbTop) (isExit : db.typeOf exit = .exit)
    (settled : (BuildOp.linkExit powers player exit allowed).Settled conf db)
    (linked : linkExit conf db powers player exit allowed = some db') : Balanced conf db db' := by
  intro p pre _
  have notSelf : exit ≠ p := by
    rintro rfl
    exact absurd (isExit.symm.trans pre.2) (by simp)
  unfold linkExit at linked
  split at linked
  case isTrue => exact absurd linked (by simp)
  obtain ⟨middle, paid, linked⟩ := bind_eq_some_iff.mp linked
  have fees := canpayfees_same paid
  have owner : middle.owner = db.owner := fees.owner
  by_cases eq : db.owner exit = db.owner player
  · rw [if_neg (not_not.mpr eq), charged_nothing (by simp [Conf.charge])] at fees
    rw [owner, if_neg (not_not.mpr eq)] at linked
    obtain rfl := some.inj linked
    refine ⟨fun _ => worth_of_one hin fees.dbTop (fun i _ => ?_) ?_, fun _ => ?_⟩
    · exact held_congr (congrFun owner i) (congrFun fees.typeOf i)
    · rw [fees.rquota, held_congr (congrFun owner exit) (congrFun fees.typeOf exit)]
    · rw [fees.rquota]
  · rw [if_pos eq] at fees linked
    rw [owner, if_pos eq] at linked
    have payment := giveto_same middle powers (db.owner exit) conf.opencost
    have traded : Traded conf db db' player exit (db.owner player) conf.exitQuota
        conf.exitQuota := by
      refine traded_of_fees fees payment ((some.inj linked).symm.trans ?_)
      unfold addQuota
      dsimp only
      rw [payment.owner, owner]
    constructor
    · intro quotas
      refine traded.worth_same hin ?_
      have value : conf.value (db.typeOf exit) = conf.exitQuota := by rw [isExit]; rfl
      have charge : conf.charge conf.exitQuota = conf.exitQuota :=
        charge_of_quotas quotas (sensible .exit)
      unfold held
      rw [charge, value]
      simp only [ne_eq, notSelf, not_false_eq_true, and_true, eq_comm (a := p)]
      exact add_comm _ _
    · exact fun quotas => traded.rquota_same quotas ((settled quotas).resolve_left eq)

theorem do_chown_traded {player thing : Dbref} {owner : Option Dbref} {allowed : Bool}
    (chowned : doChown conf db powers player thing owner allowed = some db') :
    ∃ new, owner = some new ∧
      Traded conf db db' new thing (if player = god then new else db.owner new)
        (conf.chownPrice db thing).2 (if conf.quotas then (conf.chownPrice db thing).2 else 0) := by
  unfold doChown at chowned
  generalize conf.chownPrice db thing = price at chowned ⊢
  obtain ⟨cost, quota⟩ := price
  obtain ⟨new, named, chowned⟩ := bind_eq_some_iff.mp chowned
  refine ⟨new, named, ?_⟩
  split at chowned
  case isTrue => exact absurd chowned (by simp)
  split at chowned
  case isTrue => exact absurd chowned (by simp)
  obtain ⟨middle, paid, chowned⟩ := bind_eq_some_iff.mp chowned
  have fees := canpayfees_same paid
  have middleOwner : middle.owner = db.owner := fees.owner
  rw [middleOwner] at chowned
  have payment := giveto_same middle powers (db.owner thing) cost
  refine traded_of_fees fees payment ((some.inj chowned).symm.trans ?_)
  cases conf.quotas with
  | true =>
    unfold addQuota
    dsimp only
    rw [payment.owner, middleOwner]
    rfl
  | false =>
    simp only [Bool.false_eq_true, if_false]
    rw [add_quota_zero, payment.owner, middleOwner]

theorem chown_balanced (sensible : conf.Sensible) {player thing : Dbref} {owner : Option Dbref}
    {allowed : Bool} (hin : thing < db.dbTop)
    (settled : (BuildOp.chown powers player thing owner allowed).Settled conf db)
    (chowned : doChown conf db powers player thing owner allowed = some db') :
    Balanced conf db db' := by
  intro p pre _
  obtain ⟨new, named, traded⟩ := do_chown_traded chowned
  constructor
  · intro quotas
    refine traded.worth_same hin ?_
    rw [if_pos quotas]
    generalize receives : (if player = god then new else db.owner new) = receiver
    have worthless (gone : db.typeOf thing = .garbage) : conf.value (db.typeOf thing) = 0 := by
      rw [gone]
      rfl
    have one (gone : db.typeOf thing = .garbage) : (conf.chownPrice db thing).2 = 1 := by
      unfold Conf.chownPrice
      rw [gone]
    have pos : 0 ≤ (conf.chownPrice db thing).2.toInt := by
      by_cases gone : db.typeOf thing = .garbage
      · rw [one gone]
        decide
      · rw [chownPrice_value gone]
        exact sensible _
    have choice := settled quotas new named
    unfold ChownSettled at choice
    rw [receives] at choice
    rw [charge_of_quotas quotas pos]
    unfold held
    rcases choice with free | ⟨eq, gone | stays⟩ | ⟨present, notSelf, notReceiver, pays⟩
    · have present : db.typeOf thing ≠ .garbage := fun gone =>
        absurd ((one gone).symm.trans free) (by decide)
      have nothing := (chownPrice_value present).symm.trans free
      simp only [free, nothing, ite_self]
    · rw [eq]
      simp only [worthless gone, ite_self]
    · rw [eq, stays]
    · rw [chownPrice_value present, pays]
      have aside {owner : Dbref} (o : owner ≠ thing) :
          (owner = p ∧ thing ≠ p) = (p = owner) := by
        refine propext ⟨fun both => both.1.symm, ?_⟩
        rintro rfl
        exact ⟨rfl, o.symm⟩
      simp only [aside notSelf, aside notReceiver]
      exact add_comm _ _
  · exact fun quotas => traded.rquota_same quotas (by simp [quotas])

/-- What a new object is charged for: its value, if it gets the owner of its creator. -/
structure Paid (conf : Conf) (db middle : Db) (objtype : ObjType) (creator : Dbref)
    (price : Price) : Prop where
  dbTop : middle.dbTop = db.dbTop
  typeOf : middle.typeOf = db.typeOf
  owner : middle.owner = db.owner
  loose : middle.loose = db.loose
  freelist : middle.freelist = db.freelist
  charged : conf.quotas = true → ∀ p, middle.rquota p +
    (if price.selfOwned = false ∧ creator = p then conf.value objtype else 0) = db.rquota p
  free : conf.quotas = false → middle.rquota = db.rquota

theorem payForNew_paid (sensible : conf.Sensible) {player : Option Dbref} {okname inherits : Bool}
    {owner : Dbref} {middle : Db}
    (settled : (BuildOp.create powers player objtype cost okname inherits).Settled conf db)
    (priced : conf.price objtype cost = some price) (owned : db.newOwner player price = some owner)
    (paid : payForNew conf db powers player price = some middle) :
    Paid conf db middle objtype owner price := by
  cases player with
  | none =>
    obtain rfl := some.inj paid
    refine ⟨rfl, rfl, rfl, rfl, rfl, fun _ p => ?_, fun _ => rfl⟩
    have own : price.selfOwned = true := by
      cases own : price.selfOwned with
      | true => rfl
      | false => exact absurd owned (by simp [Db.newOwner, own])
    rw [if_neg (by simp [own]), add_zero]
  | some player =>
    have fees := canpayfees_same paid
    refine ⟨fees.dbTop, fees.typeOf, fees.owner, fees.loose, fees.freelist, fun quotas p => ?_,
      fun quotas => ?_⟩
    · rw [fees.rquota]
      cases own : price.selfOwned with
      | true =>
        obtain ⟨isPlayer, freeOfCost, quota⟩ := price_selfOwned priced own
        have less := settled quotas rfl isPlayer freeOfCost
        have charge : conf.charge price.quota = 0 := by
          rw [quota]
          exact if_neg fun both => Int.not_lt.mpr less both.2
        rw [charged_nothing charge]
        simp
      | false =>
        have charge : conf.charge price.quota = conf.value objtype := by
          rw [price_value priced own]
          exact charge_of_quotas quotas (sensible _)
        have creator : db.owner player = owner := by
          unfold Db.newOwner at owned
          rw [own] at owned
          simp only [Bool.false_eq_true, if_false, bind_some] at owned
          split at owned
          · exact some.inj owned
          · exact absurd owned (by simp)
        unfold Db.charged
        rw [charge, creator]
        by_cases mine : owner = p
        · subst mine
          simp
        · simp [mine, Ne.symm mine]
    · rw [fees.rquota, charged_nothing (charge_of_no_quotas quotas _)]

theorem newObject_cases (db : Db) :
    (∃ obj list, obj < db.dbTop ∧ db.typeOf obj = .garbage ∧
      newObject db = (obj, { db with freelist := list })) ∨
    ∃ list, newObject db = (db.dbTop, { db with freelist := list, dbTop := db.dbTop + 1 }) := by
  unfold newObject
  split
  · next obj _ =>
    split
    · next good =>
      obtain ⟨hin, clean⟩ := Bool.and_eq_true_iff.mp good
      have garbage : db.typeOf obj = .garbage := by
        unfold Db.isClean at clean
        simp only [Bool.and_eq_true, beq_iff_eq] at clean
        exact clean.1.1
      exact .inl ⟨obj, _, of_decide_eq_true hin, garbage, rfl⟩
    · exact .inr ⟨none, rfl⟩
  · next empty => exact .inr ⟨db.freelist, rfl⟩

theorem held_setUp {owner : Dbref} {robot : Bool} (notSelf : p ≠ obj) :
    held conf (setUp db obj objtype owner price robot) p obj =
      if price.selfOwned = false ∧ owner = p then conf.value objtype else 0 := by
  unfold held setUp
  cases price.selfOwned with
  | true => simp [Ne.symm notSelf]
  | false => simp [Ne.symm notSelf]

theorem held_setUp_other {owner i : Dbref} {robot : Bool} (o : i ≠ obj) :
    held conf (setUp db obj objtype owner price robot) p i = held conf db p i :=
  held_congr (update_of_ne o _ _) (update_of_ne o _ _)

theorem create_balanced (sensible : conf.Sensible) {player : Option Dbref} {okname inherits : Bool}
    (settled : (BuildOp.create powers player objtype cost okname inherits).Settled conf db)
    (created : createObj conf db powers player objtype cost okname inherits = some (obj, db')) :
    Balanced conf db db' := by
  intro p pre _
  unfold createObj at created
  obtain ⟨price, priced, created⟩ := bind_eq_some_iff.mp created
  split at created
  case isTrue => exact absurd created (by simp)
  obtain ⟨owner, owned, created⟩ := bind_eq_some_iff.mp created
  dsimp only at created
  split at created
  case isTrue => exact absurd created (by simp)
  obtain ⟨middle, charged, created⟩ := bind_eq_some_iff.mp created
  have paid := payForNew_paid sensible settled priced owned charged
  generalize decide (objtype = .player ∧ price.selfOwned = false) = robot at created
  have eq (i : Dbref) : held conf middle p i = held conf db p i :=
    held_congr (congrFun paid.owner i) (congrFun paid.typeOf i)
  rcases newObject_cases middle with ⟨new, list, hin, garbage, hf⟩ | ⟨list, hf⟩
  · rw [hf] at created
    have notSelf : p ≠ new := by
      rintro rfl
      exact absurd (pre.2.symm.trans ((congrFun paid.typeOf p).symm.trans garbage)) (by simp)
    obtain ⟨rfl, rfl⟩ := Prod.mk.inj (some.inj created)
    have rquota : update middle.rquota new (if objtype = .player then price.quota else 0) p =
        middle.rquota p := update_of_ne notSelf _ _
    refine ⟨fun quotas => worth_of_one (paid.dbTop ▸ hin) paid.dbTop (fun i o => ?_) ?_,
      fun quotas => rquota.trans (congrFun (paid.free quotas) p)⟩
    · exact (held_setUp_other o).trans (eq i)
    · have worthless : held conf db p new = 0 := by
        refine held_of_worthless ?_
        rw [← congrFun paid.typeOf new, garbage]
        rfl
      rw [held_setUp notSelf, worthless, add_zero, ← paid.charged quotas p]
      exact congrArg (· + _) rquota
  · rw [hf] at created
    have notSelf : p ≠ middle.dbTop := Nat.ne_of_lt (paid.dbTop ▸ pre.1)
    obtain ⟨rfl, rfl⟩ := Prod.mk.inj (some.inj created)
    have rquota : update middle.rquota middle.dbTop
        (if objtype = .player then price.quota else 0) p = middle.rquota p :=
      update_of_ne notSelf _ _
    refine ⟨fun quotas => worth_of_new (congrArg (· + 1) paid.dbTop) (fun i o => ?_) ?_,
      fun quotas => rquota.trans (congrFun (paid.free quotas) p)⟩
    · rw [← paid.dbTop] at o
      exact (held_setUp_other o).trans (eq i)
    · rw [← paid.dbTop, held_setUp notSelf, ← paid.charged quotas p]
      exact congrArg (· + _) rquota

/-! ## All objects of a player -/

/-- Whether `chown_all` takes an object along, and what it changes by it. -/
def Db.taken (db : Db) (fromPlayer i : Dbref) : Prop := db.owner i = fromPlayer ∧ i ≠ fromPlayer

instance (db : Db) (fromPlayer i : Dbref) : Decidable (db.taken fromPlayer i) :=
  inferInstanceAs (Decidable (_ ∧ _))

/-- What `chown_all` gives back for an object. -/
def Conf.out (conf : Conf) (db : Db) (fromPlayer i : Dbref) : Word :=
  if db.taken fromPlayer i then conf.value (db.typeOf i) else 0

/-- What `chown_all` charges for an object: a player is given to himself. -/
def Conf.into (conf : Conf) (db : Db) (fromPlayer i : Dbref) : Word :=
  if db.taken fromPlayer i ∧ db.typeOf i ≠ .player then conf.value (db.typeOf i) else 0

/-- The owner that `chown_all` leaves an object with. -/
def Db.ownerAfter (db : Db) (fromPlayer toPlayer i : Dbref) : Dbref :=
  if db.taken fromPlayer i then if db.typeOf i = .player then i else toPlayer else db.owner i

variable {fromPlayer toPlayer i : Dbref}

theorem chownOne_spec {owner : Dbref → Dbref} {out into : Word} (untouched : owner i = db.owner i) :
    chownOne conf db fromPlayer toPlayer (owner, out, into) i =
      (update owner i (db.ownerAfter fromPlayer toPlayer i),
        out + conf.out db fromPlayer i, into - conf.into db fromPlayer i) := by
  unfold chownOne
  dsimp only
  have eq : (owner i = fromPlayer ∧ owner i ≠ i) ↔ db.taken fromPlayer i := by
    unfold Db.taken
    rw [untouched]
    exact and_congr_right fun owned => by rw [owned, ne_comm]
  unfold Conf.out Conf.into Db.ownerAfter
  by_cases taken : db.taken fromPlayer i
  · rw [if_pos (eq.mpr taken)]
    cases kind : db.typeOf i <;> simp [taken, Conf.value]
  · rw [if_neg (mt eq.mp taken)]
    simp [taken, ← untouched]

theorem chown_loop (conf : Conf) (db : Db) (fromPlayer toPlayer : Dbref) (count : Nat) :
    (List.range count).foldl (chownOne conf db fromPlayer toPlayer) (db.owner, 0, 0) =
      (fun i => if i < count then db.ownerAfter fromPlayer toPlayer i else db.owner i,
        ∑ i ∈ Finset.range count, conf.out db fromPlayer i,
        -∑ i ∈ Finset.range count, conf.into db fromPlayer i) := by
  induction count with
  | zero => simp
  | succ count ih =>
    rw [range_succ, foldl_concat, ih, chownOne_spec (by simp)]
    refine Prod.ext (funext fun i => ?_) (Prod.ext ?_ ?_)
    · rcases Nat.lt_trichotomy i count with less | rfl | more
      · simp [update_of_ne (Nat.ne_of_lt less), less, Nat.lt_succ_of_lt less]
      · simp
      · simp [update_of_ne (Nat.ne_of_gt more), Nat.not_lt_of_gt more,
          Nat.not_lt.mpr (Nat.succ_le_of_lt more)]
    · exact (Finset.sum_range_succ _ _).symm
    · dsimp only
      rw [Finset.sum_range_succ]
      abel

def Conf.gain (conf : Conf) (db : Db) (fromPlayer toPlayer p i : Dbref) : Word :=
  (if p = fromPlayer then conf.out db fromPlayer i else 0) -
    (if p = toPlayer then conf.into db fromPlayer i else 0)

theorem chown_all_eq (conf : Conf) (db : Db) (fromPlayer toPlayer : Dbref) :
    chownAll conf db fromPlayer toPlayer =
      let loop := (List.range db.dbTop).foldl
        (chownOne conf db (db.playerOf fromPlayer) (db.playerOf toPlayer)) (db.owner, 0, 0)
      addQuota (addQuota { db with owner := loop.1 } (db.playerOf fromPlayer) loop.2.1)
        (db.playerOf toPlayer) loop.2.2 := rfl

theorem chown_all_owner (hin : i < db.dbTop) :
    (chownAll conf db fromPlayer toPlayer).owner i =
      db.ownerAfter (db.playerOf fromPlayer) (db.playerOf toPlayer) i := by
  rw [chown_all_eq, chown_loop]
  exact if_pos hin

theorem chown_all_rquota (fromPlayer toPlayer p : Dbref) :
    (chownAll conf db fromPlayer toPlayer).rquota p = db.rquota p +
      ∑ i ∈ Finset.range db.dbTop,
        conf.gain db (db.playerOf fromPlayer) (db.playerOf toPlayer) p i := by
  rw [chown_all_eq, chown_loop]
  generalize db.playerOf fromPlayer = giver
  generalize db.playerOf toPlayer = taker
  unfold addQuota Conf.gain
  dsimp only
  by_cases gives : p = giver <;> by_cases takes : p = taker
  · subst gives takes
    simp [add_assoc, sub_eq_add_neg, Finset.sum_add_distrib]
  · subst gives
    simp [takes]
  · subst takes
    simp [gives]
  · simp [gives, takes]

theorem held_after (player : db.typeOf p = .player)
    (owner : db'.owner i = db.ownerAfter fromPlayer toPlayer i)
    (typeOf : db'.typeOf i = db.typeOf i) :
    conf.gain db fromPlayer toPlayer p i + held conf db' p i = held conf db p i := by
  unfold held
  rw [owner, typeOf]
  unfold Conf.gain Conf.out Conf.into Db.ownerAfter
  by_cases taken : db.taken fromPlayer i
  · obtain ⟨owned, notGiver⟩ := taken
    have taken : db.taken fromPlayer i := ⟨owned, notGiver⟩
    -- Whoever gives the object is not the object, so what he owned is its value.
    have given : (db.owner i = p ∧ i ≠ p) = (p = fromPlayer) := by
      refine propext ⟨fun both => both.1.symm.trans owned, ?_⟩
      rintro rfl
      exact ⟨owned, notGiver⟩
    by_cases isPlayer : db.typeOf i = .player
    · have nobody : ¬(i = p ∧ i ≠ p) := fun both => both.2 both.1
      simp only [taken, isPlayer, if_true, given, nobody, if_false, ne_eq, not_true_eq_false,
        and_false, ite_self, sub_zero, add_zero]
    · have o : i ≠ p := by
        rintro rfl
        exact isPlayer player
      have owns : (db.owner i = p) = (p = fromPlayer) := by
        rw [owned]
        exact propext eq_comm
      simp only [taken, isPlayer, if_true, if_false, owns, o, ne_eq, not_false_eq_true,
        and_true, eq_comm (a := toPlayer)]
      abel
  · simp [taken]

theorem chown_all_balanced {fromPlayer toPlayer : Dbref}
    (settled : (BuildOp.chownAll fromPlayer toPlayer).Settled conf db) :
    Balanced conf db (chownAll conf db fromPlayer toPlayer) := by
  intro p pre _
  constructor
  · intro _
    unfold worth
    rw [chown_all_rquota]
    change _ + _ + ∑ i ∈ Finset.range db.dbTop, _ = _
    rw [add_assoc, ← Finset.sum_add_distrib]
    congr 1
    refine Finset.sum_congr rfl fun i mem => ?_
    exact held_after pre.2 (chown_all_owner (Finset.mem_range.mp mem)) rfl
  · intro quotas
    rw [chown_all_rquota, Finset.sum_eq_zero, add_zero]
    intro i mem
    unfold Conf.gain Conf.out Conf.into
    by_cases taken : db.taken (db.playerOf fromPlayer) i
    · rcases settled quotas i (Finset.mem_range.mp mem) taken.1 taken.2 with
        worthless | ⟨eq, notPlayer⟩
      · simp [worthless]
      · simp [← eq, taken, notPlayer]
    · simp [taken]

/-! ## Runs -/

theorem step_balanced (sensible : conf.Sensible) {op : BuildOp} (settled : op.Settled conf db) :
    Balanced conf db (db.step conf op).2 := by
  have still : Balanced conf db db := fun _ _ _ => ⟨fun _ => rfl, fun _ => rfl⟩
  cases op with
  | create powers player objtype cost okname inherits =>
    unfold Db.step
    dsimp only
    split
    · next created => exact create_balanced sensible settled created
    · exact still
  | destroy powers obj =>
    unfold Db.step
    dsimp only
    split
    · next destroyed => exact destroy_balanced settled destroyed
    · exact still
  | linkExit powers player exit allowed =>
    unfold Db.step
    dsimp only
    split
    · next good =>
      split
      · next linked =>
        exact link_balanced sensible (of_decide_eq_true good.1) good.2 settled linked
      · exact still
    · exact still
  | chown powers player thing owner allowed =>
    unfold Db.step
    dsimp only
    split
    · next good =>
      split
      · next chowned => exact chown_balanced sensible (of_decide_eq_true good) settled chowned
      · exact still
    · exact still
  | chownAll fromPlayer toPlayer => exact chown_all_balanced settled

theorem step_refused {op : BuildOp} (refused : (db.step conf op).1 = false) :
    (db.step conf op).2 = db := by
  unfold Db.step at refused ⊢
  cases op with
  | create powers player objtype cost okname inherits =>
    dsimp only at refused ⊢
    split at refused
    · exact absurd refused (by simp)
    · rfl
  | destroy powers obj =>
    dsimp only at refused ⊢
    split at refused
    · exact absurd refused (by simp)
    · rfl
  | linkExit powers player exit allowed =>
    dsimp only at refused ⊢
    split at refused
    · next good =>
      rw [if_pos good]
      split at refused
      · exact absurd refused (by simp)
      · rfl
    · next bad => rw [if_neg bad]
  | chown powers player thing owner allowed =>
    dsimp only at refused ⊢
    split at refused
    · next good =>
      rw [if_pos good]
      split at refused
      · exact absurd refused (by simp)
      · rfl
    · next bad => rw [if_neg bad]
  | chownAll fromPlayer toPlayer => exact absurd refused (by simp)

def Db.after (conf : Conf) (db : Db) (ops : List BuildOp) : Db :=
  ops.foldl (fun db op => (db.step conf op).2) db

abbrev Db.AllSettled (conf : Conf) (db : Db) (ops : List BuildOp) : Prop :=
  Machine.Guarded (fun db op => some (db.step conf op).2) (fun db op => op.Settled conf db) db ops

theorem run_worth (sensible : conf.Sensible) {ops : List BuildOp}
    (settled : db.AllSettled conf ops)
    (player : ∀ first, first <+: ops → (db.after conf first).IsPlayer p) :
    (conf.quotas = true → worth conf (db.after conf ops) p = worth conf db p) ∧
      (conf.quotas = false → (db.after conf ops).rquota p = db.rquota p) := by
  induction ops generalizing db with
  | nil => exact ⟨fun _ => rfl, fun _ => rfl⟩
  | cons op later ih =>
    have one := step_balanced sensible settled.1 p (player [] nil_prefix) (player [op] (by simp))
    have rest := ih (settled.2 _ rfl) fun first isPrefix =>
      player (op :: first) (cons_prefix_cons.mpr ⟨rfl, isPrefix⟩)
    exact ⟨fun quotas => (rest.1 quotas).trans (one.1 quotas),
      fun quotas => (rest.2 quotas).trans (one.2 quotas)⟩

/-- In a run of settled commands, what each player has left and what his objects are worth stay
the same together exactly if the quota that is due to him is an int; a refused command changes
nothing. -/
theorem run_balanced (sensible : conf.Sensible) {ops : List BuildOp}
    (settled : db.AllSettled conf ops)
    (player : ∀ first, first <+: ops → (db.after conf first).IsPlayer p) :
    (conf.quotas = true →
      (total conf (db.after conf ops) p = total conf db p ↔
        IsInt (total conf db p - possessions conf (db.after conf ops) p))) ∧
      (conf.quotas = false → (db.after conf ops).rquota p = db.rquota p) ∧
      ∀ first op, first ++ [op] <+: ops → ((db.after conf first).step conf op).1 = false →
        db.after conf (first ++ [op]) = db.after conf first := by
  obtain ⟨same, free⟩ := run_worth sensible settled player
  refine ⟨fun quotas => total_same_iff (same quotas), free, fun first op _ refused => ?_⟩
  unfold Db.after
  rw [foldl_append]
  exact step_refused refused

def noPowers : Powers := ⟨fun _ => false, fun _ => false, fun _ => false, fun _ => false⟩

def someConf (quotas : Bool) : Conf where
  quotas := quotas
  digcost := 10
  createmin := 10
  createmax := 505
  opencost := 1
  linkcost := 1
  robotcost := 1000
  paystart := 150
  sacfactor := 5
  sacadjust := -1
  roomQuota := 1
  thingQuota := 1
  exitQuota := 1
  playerQuota := 1
  startQuota := 20

/-- A room, the first player, another player, and an exit of his. -/
def someDb : Db where
  dbTop := 4
  typeOf x := if x = 0 then .room else if x < 3 then .player else .exit
  owner x := if x = 3 then 2 else if x = 0 then 1 else x
  pennies _ := 2000
  rquota x := if x = 1 ∨ x = 2 then 30 else 0
  robot _ := false
  loose _ := false
  freelist := none
  link _ := none

theorem someConf_sensible (quotas : Bool) : (someConf quotas).Sensible := by
  intro objtype
  cases objtype <;> simp [Conf.value, someConf]

/-- A player links the exit of another, builds a thing and a robot, gives the thing away and gets
everything of the other; the exit is destroyed. -/
def someRun : List BuildOp :=
  [.linkExit noPowers 1 3 true, .create noPowers (some 1) .thing 20 true true,
    .create noPowers (some 1) .player 1 true true, .chown noPowers 2 4 (some 2) true,
    .chownAll 2 1, .destroy noPowers 3]

theorem run_balanced_some :
    total (someConf true) (someDb.after (someConf true) someRun) 1 =
      total (someConf true) someDb 1 :=
  ((run_balanced (someConf_sensible true) (by decide) fun first isPrefix =>
    (by decide : ∀ first ∈ someRun.inits,
      (someDb.after (someConf true) first).IsPlayer 1) first
      ((mem_inits first someRun).mpr isPrefix)).1 rfl).mpr (by decide)

def richDb : Db := { someDb with rquota := fun _ => BitVec.intMax 32 }

/-- Without quotas, linking the exit of another adds to his quota; with quotas, a player who makes
another loses what that one starts with, and the quota of an exit goes beyond the largest int. -/
theorem link_exit_gives_quota :
    (someDb.IsPlayer 2 ∧
      (someDb.after (someConf false) [.linkExit noPowers 1 3 true]).IsPlayer 2 ∧
      (someDb.after (someConf false) [.linkExit noPowers 1 3 true]).rquota 2 =
        someDb.rquota 2 + 1) ∧
    ((someDb.after (someConf true) [.create noPowers (some 1) .player 0 true true]).IsPlayer 1 ∧
      total (someConf true)
          (someDb.after (someConf true) [.create noPowers (some 1) .player 0 true true]) 1 =
        total (someConf true) someDb 1 - 20) ∧
    (richDb.after (someConf true) [.destroy noPowers 3]).IsPlayer 2 ∧
      total (someConf true) (richDb.after (someConf true) [.destroy noPowers 3]) 2 =
        total (someConf true) richDb 2 - 2 ^ 32 := by
  decide

end BattletechMux.Quota
