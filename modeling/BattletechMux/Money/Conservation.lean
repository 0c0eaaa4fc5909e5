/-
Module: BattletechMux.Money.Conservation
Purpose: What `give_money` does to the money of the two parties.
-/
import BattletechMux.Money.Accounts
import Mathlib

namespace BattletechMux.Money

open Function (update)

variable {s : Game} {w : World} {gift : Gift}

/-! ## With the cache and without it -/

section

variable (coherent : Coherent s)
include coherent

theorem declines_spec :
    ∃ s', s.declines w gift = some ((ledgerOf s).declines w gift, s') ∧ Coherent s' ∧
      ledgerOf s' = ledgerOf s := by
  rw [Game.declines, Ledger.declines]
  by_cases wizard : w.wizard gift.giver = true
  · rw [if_pos wizard, wizard]
    exact ⟨s, rfl, coherent, rfl⟩
  · rw [if_neg wizard, Bool.eq_false_of_not_eq_true wizard, Bool.not_false, Bool.true_and]
    have typed : (ledgerOf s).typeOf gift.recipient = s.typeOf gift.recipient := rfl
    rw [typed]
    by_cases player : s.typeOf gift.recipient = .player
    · obtain ⟨s', ran, coherent', reloaded⟩ := pennies_spec coherent w gift.recipient
      rw [if_pos player, ran, decide_eq_true player, Bool.true_and]
      exact ⟨s', rfl, coherent', reloaded.ledger⟩
    · rw [if_neg player, decide_eq_false player, Bool.false_and, Bool.false_or]
      exact ⟨s, rfl, coherent, rfl⟩

theorem change_spec (cost : Word) :
    ∃ s', s.change w gift cost = some s' ∧ Coherent s' ∧
      ledgerOf s' = if gift.amount = cost then ledgerOf s
        else (ledgerOf s).give w gift.giver (gift.amount - cost) := by
  rw [Game.change]
  by_cases same : gift.amount = cost
  · have none' : ¬ gift.amount - cost = 1 := by
      rw [same, sub_self]
      decide
    rw [if_neg none', if_neg (not_not.mpr same), if_pos same]
    exact ⟨s, rfl, coherent, rfl⟩
  · obtain ⟨s', ran, coherent', ledger, -⟩ :=
      giveto_spec coherent w gift.giver (gift.amount - cost)
    rw [if_neg same]
    by_cases one : gift.amount - cost = 1
    · rw [if_pos one]
      rw [one] at ran
      exact ⟨s', ran, coherent', ledger⟩
    · rw [if_neg one, if_pos same]
      exact ⟨s', ran, coherent', ledger⟩

theorem handOver_spec (didIt : Game → Option Game) (cost : Word) :
    ∃ mid, s.handOver w gift didIt cost = didIt mid ∧ Coherent mid ∧
      ledgerOf mid = (ledgerOf s).handOver w gift cost := by
  obtain ⟨s₁, changed, coherent₁, ledger₁⟩ := @change_spec _ w gift coherent cost
  obtain ⟨s₂, given, coherent₂, ledger₂, -⟩ := giveto_spec coherent₁ w gift.recipient cost
  refine ⟨s₂, ?_, coherent₂, ?_⟩
  · rw [Game.handOver, changed, Option.bind_eq_bind, Option.bind_some, given, Option.bind_some]
  · rw [ledger₂, ledger₁, Ledger.handOver]

theorem settleGift_spec (didIt : Game → Option Game) :
    ∃ mid, s.settleGift w gift didIt =
        (if ((ledgerOf s).settleGift w gift).1 then didIt mid else some mid) ∧ Coherent mid ∧
      ledgerOf mid = ((ledgerOf s).settleGift w gift).2 := by
  rw [Game.settleGift, Ledger.settleGift]
  have typed : (ledgerOf s).typeOf gift.recipient = s.typeOf gift.recipient := rfl
  rw [typed]
  by_cases thing : s.typeOf gift.recipient = .thing
  · rw [if_pos thing, if_pos thing]
    by_cases poor : gift.amount.slt gift.declared = true
    · obtain ⟨s', ran, coherent', ledger, -⟩ := giveto_spec coherent w gift.giver gift.amount
      rw [if_pos poor, if_pos poor]
      exact ⟨s', ran, coherent', ledger⟩
    · rw [if_neg poor, if_neg poor]
      by_cases negative : gift.declared.slt 0 = true
      · rw [if_pos negative, if_pos negative]
        exact ⟨s, rfl, coherent, rfl⟩
      · rw [if_neg negative, if_neg negative]
        obtain ⟨mid, ran, coherent', ledger⟩ :=
          @handOver_spec _ w gift coherent didIt gift.declared
        exact ⟨mid, ran, coherent', ledger⟩
  · rw [if_neg thing, if_neg thing]
    obtain ⟨mid, ran, coherent', ledger⟩ :=
      @handOver_spec _ w gift coherent didIt gift.amount
    exact ⟨mid, ran, coherent', ledger⟩

theorem giveMoney_spec (didIt : Game → Option Game) :
    ∃ mid, s.giveMoney w gift didIt =
        (if ((ledgerOf s).giveMoney w gift).1 then didIt mid else some mid) ∧ Coherent mid ∧
      ledgerOf mid = ((ledgerOf s).giveMoney w gift).2 := by
  rw [Game.giveMoney, Ledger.giveMoney]
  by_cases negative : (gift.amount.slt 0 && !gift.steal) = true
  · rw [if_pos negative, if_pos negative]
    exact ⟨s, rfl, coherent, rfl⟩
  · rw [if_neg negative, if_neg negative]
    by_cases nothing' : gift.amount = 0
    · rw [if_pos nothing', if_pos nothing']
      exact ⟨s, rfl, coherent, rfl⟩
    · obtain ⟨s₁, asked, coherent₁, ledger₁⟩ := @declines_spec _ w gift coherent
      rw [if_neg nothing', if_neg nothing', asked, Option.bind_eq_bind, Option.bind_some]
      dsimp only
      by_cases declined : (ledgerOf s).declines w gift = true
      · rw [if_pos declined, if_pos declined]
        exact ⟨s₁, rfl, coherent₁, ledger₁⟩
      · obtain ⟨s₂, ran, coherent₂, ledger₂⟩ := payfor_spec coherent₁ w gift.giver gift.amount
        rw [ledger₁] at ran ledger₂
        rw [if_neg declined, if_neg declined, ran, Option.bind_some]
        dsimp only
        by_cases paid : (ledgerOf s).pays w gift.giver gift.amount = true
        · obtain ⟨mid, settled, coherent', ledger⟩ :=
            @settleGift_spec _ w gift coherent₂ didIt
          rw [ledger₂] at settled ledger
          rw [if_pos paid, if_pos paid]
          exact ⟨mid, settled, coherent', ledger⟩
        · rw [if_neg paid, if_neg paid]
          refine ⟨s₂, rfl, coherent₂, ?_⟩
          rw [Ledger.pays, Bool.or_eq_true, not_or] at paid
          rw [ledger₂, Ledger.pay, if_neg paid.1, if_neg paid.2]

end

/-! ## Where the money goes -/

def share (w : World) (who account : Dbref) (sum : Word) : Word :=
  if w.excused who = false ∧ w.owner who = account then sum else 0

theorem share_owner (who : Dbref) (sum : Word) :
    share w who (w.owner who) sum = if w.excused who = false then sum else 0 := by
  simp [share]

theorem share_sub (who account : Dbref) (a b : Word) :
    share w who account (a - b) = share w who account a - share w who account b := by
  unfold share
  split
  · rfl
  · exact (sub_self 0).symm

theorem give_money (l : Ledger) (who : Dbref) (sum : Word) (x : Dbref) :
    (l.give w who sum).money x = l.money x + share w who x sum := by
  rw [Ledger.give, share]
  by_cases excused : w.excused who = true
  · rw [if_pos excused, if_neg (by simp [excused]), add_zero]
  · rw [if_neg excused]
    by_cases own : w.owner who = x
    · subst own
      rw [if_pos ⟨Bool.eq_false_of_not_eq_true excused, rfl⟩]
      exact Function.update_self _ _ _
    · rw [if_neg fun both => own both.2, add_zero]
      exact Function.update_of_ne (Ne.symm own) _ _

theorem pay_money {l : Ledger} {who : Dbref} {sum : Word} (pays : l.pays w who sum = true)
    (x : Dbref) : (l.pay w who sum).money x = l.money x - share w who x sum := by
  rw [Ledger.pays, Bool.or_eq_true] at pays
  rw [Ledger.pay, share]
  by_cases excused : w.excused who = true
  · rw [if_pos excused, if_neg (by simp [excused]), sub_zero]
  · rw [if_neg excused, if_pos (pays.resolve_left excused)]
    by_cases own : w.owner who = x
    · subst own
      rw [if_pos ⟨Bool.eq_false_of_not_eq_true excused, rfl⟩]
      exact Function.update_self _ _ _
    · rw [if_neg fun both => own both.2, sub_zero]
      exact Function.update_of_ne (Ne.symm own) _ _

theorem give_rest (l : Ledger) (who : Dbref) (sum : Word) :
    l.give w who sum = { l with money := (l.give w who sum).money } := by
  rw [Ledger.give]
  split <;> rfl

theorem pay_rest (l : Ledger) (who : Dbref) (sum : Word) :
    l.pay w who sum = { l with money := (l.pay w who sum).money } := by
  rw [Ledger.pay]
  split
  · rfl
  · split <;> rfl

def Ledger.passed (l : Ledger) (gift : Gift) : Word :=
  if l.typeOf gift.recipient = .thing then gift.declared else gift.amount

theorem handOver_money (l : Ledger) (cost : Word) (x : Dbref) :
    (l.handOver w gift cost).money x = l.money x + share w gift.giver x (gift.amount - cost) +
      share w gift.recipient x cost := by
  rw [Ledger.handOver, give_money]
  by_cases same : gift.amount = cost
  · have nothing' : share w gift.giver x (gift.amount - cost) = 0 := by
      rw [same, sub_self, share, ite_self]
    rw [if_pos same, nothing', add_zero]
  · rw [if_neg same, give_money]

theorem giveMoney_accepted {l : Ledger} (accepted : (l.giveMoney w gift).1 = true) :
    l.pays w gift.giver gift.amount = true ∧
      (l.typeOf gift.recipient = .thing → gift.amount.slt gift.declared = false) ∧
      (l.giveMoney w gift).2 =
        (l.pay w gift.giver gift.amount).handOver w gift (l.passed gift) := by
  revert accepted
  have typed : (l.pay w gift.giver gift.amount).typeOf = l.typeOf := by rw [pay_rest]
  rw [Ledger.giveMoney]
  split
  · exact fun accepted => (Bool.false_ne_true accepted).elim
  · split
    · exact fun accepted => (Bool.false_ne_true accepted).elim
    · split
      · exact fun accepted => (Bool.false_ne_true accepted).elim
      · split
        · rename_i paid
          rw [Ledger.settleGift, typed, Ledger.passed]
          by_cases thing : l.typeOf gift.recipient = .thing
          · rw [if_pos thing, if_pos thing]
            split
            · exact fun accepted => (Bool.false_ne_true accepted).elim
            · rename_i hlt
              split
              · exact fun accepted => (Bool.false_ne_true accepted).elim
              · exact fun _ => ⟨paid, fun _ => Bool.eq_false_of_not_eq_true hlt, rfl⟩
          · rw [if_neg thing, if_neg thing]
            exact fun _ => ⟨paid, fun is => absurd is thing, rfl⟩
        · exact fun accepted => (Bool.false_ne_true accepted).elim

theorem giveMoney_refused {l : Ledger} (refused : (l.giveMoney w gift).1 = false)
    (declared : l.typeOf gift.recipient = .thing → gift.declared.slt 0 = true →
      gift.amount.slt gift.declared = true) :
    (l.giveMoney w gift).2 = l := by
  revert refused
  have typed : (l.pay w gift.giver gift.amount).typeOf = l.typeOf := by rw [pay_rest]
  rw [Ledger.giveMoney]
  split
  · exact fun _ => rfl
  · split
    · exact fun _ => rfl
    · split
      · exact fun _ => rfl
      · split
        · rename_i paid
          rw [Ledger.settleGift, typed]
          split
          · rename_i thing
            split
            · intro _
              dsimp only
              rw [give_rest, pay_rest]
              dsimp only
              have money : ((l.pay w gift.giver gift.amount).give w gift.giver gift.amount).money =
                  l.money := by
                funext x
                rw [give_money, pay_money paid, sub_add_cancel]
              rw [← pay_rest, money]
            · rename_i hlt
              rw [if_neg fun negative => hlt (declared thing negative)]
              exact fun accepted => (Bool.false_ne_true accepted.symm).elim
          · exact fun accepted => (Bool.false_ne_true accepted.symm).elim
        · exact fun _ => rfl

structure GiftRight (l : Ledger) (w : World) (gift : Gift) (accepted : Bool) (l' : Ledger) :
    Prop where
  refused : accepted = false → l' = l
  moved : accepted = true → ∀ x, l'.money x = l.money x - share w gift.giver x (l.passed gift) +
    share w gift.recipient x (l.passed gift)
  others : ∀ x, x ≠ w.owner gift.giver → x ≠ w.owner gift.recipient → l'.money x = l.money x
  total : w.excused gift.giver = false → w.excused gift.recipient = false →
    if w.owner gift.giver = w.owner gift.recipient then l'.money = l.money
    else l'.money (w.owner gift.giver) + l'.money (w.owner gift.recipient) =
      l.money (w.owner gift.giver) + l.money (w.owner gift.recipient)
  solvent : 0 ≤ (l.money (w.owner gift.giver)).toInt →
    0 ≤ (l.money (w.owner gift.recipient)).toInt →
    (l.money (w.owner gift.giver)).toInt - (l.passed gift).toInt < 2 ^ 31 →
    0 ≤ (l.money (w.owner gift.recipient)).toInt + (l.passed gift).toInt →
    (l.money (w.owner gift.recipient)).toInt + (l.passed gift).toInt < 2 ^ 31 →
    0 ≤ (l'.money (w.owner gift.giver)).toInt ∧ 0 ≤ (l'.money (w.owner gift.recipient)).toInt

theorem toInt_sub_nonneg {a b : Word} (low : 0 ≤ a.toInt - b.toInt)
    (high : a.toInt - b.toInt < 2 ^ 31) : 0 ≤ (a - b).toInt := by
  rw [BitVec.toInt_sub, Int.bmod_eq_of_le (by omega) (by omega)]
  exact low

theorem toInt_add_nonneg {a b : Word} (low : 0 ≤ a.toInt + b.toInt)
    (high : a.toInt + b.toInt < 2 ^ 31) : 0 ≤ (a + b).toInt := by
  rw [BitVec.toInt_add, Int.bmod_eq_of_le (by omega) (by omega)]
  exact low

theorem giftRight (l : Ledger) (w : World) (gift : Gift)
    (declared : l.typeOf gift.recipient = .thing → gift.declared.slt 0 = true →
      gift.amount.slt gift.declared = true) :
    GiftRight l w gift (l.giveMoney w gift).1 (l.giveMoney w gift).2 := by
  cases accepted : (l.giveMoney w gift).1 with
  | false =>
    rw [giveMoney_refused accepted declared]
    refine ⟨fun _ => rfl, fun taken => absurd taken (by decide), fun _ _ _ => rfl, fun _ _ => ?_,
      fun fst snd _ _ _ => ⟨fst, snd⟩⟩
    split <;> rfl
  | true =>
    obtain ⟨pays, hlt, result⟩ := giveMoney_accepted accepted
    generalize (l.giveMoney w gift).2 = l' at result
    have moved : ∀ x, l'.money x = l.money x - share w gift.giver x (l.passed gift) +
        share w gift.recipient x (l.passed gift) := by
      intro x
      rw [result, handOver_money, pay_money pays, share_sub]
      ring
    have away : ∀ who x sum, x ≠ w.owner who → share w who x sum = 0 := fun who x sum o =>
      if_neg fun both => o both.2.symm
    refine ⟨fun refused => (Bool.false_ne_true refused.symm).elim, fun _ => moved,
      fun x fst snd => ?_, fun payer payee => ?_, fun fst snd room low high => ?_⟩
    · rw [moved, away _ x _ fst, away _ x _ snd, sub_zero, add_zero]
    · split
      · rename_i same
        funext x
        rw [moved, share, share, payer, payee, same]
        ring
      · rename_i differ
        rw [moved, moved, away gift.recipient _ _ differ, away gift.giver _ _ (Ne.symm differ),
          share, share, if_pos ⟨payer, rfl⟩, if_pos ⟨payee, rfl⟩]
        ring
    · have hlt' : w.excused gift.giver = false →
          0 ≤ (l.money (w.owner gift.giver)).toInt - (l.passed gift).toInt := by
        intro payer
        rw [Ledger.pays, payer, Bool.false_or, BitVec.sle, decide_eq_true_eq] at pays
        have least : (l.passed gift).toInt ≤ gift.amount.toInt := by
          unfold Ledger.passed
          split
          · rename_i thing
            have no := hlt thing
            rw [BitVec.slt, decide_eq_false_iff_not, not_lt] at no
            exact no
          · exact le_rfl
        omega
      have gave : w.excused gift.giver = false →
          0 ≤ (l.money (w.owner gift.giver) - l.passed gift).toInt := fun payer =>
        toInt_sub_nonneg (hlt' payer) room
      have took : 0 ≤ (l.money (w.owner gift.recipient) + l.passed gift).toInt :=
        toInt_add_nonneg low high
      rw [moved, moved]
      by_cases same : w.owner gift.giver = w.owner gift.recipient
      · have payeeShare := share_owner (w := w) gift.recipient (l.passed gift)
        rw [← same] at payeeShare took ⊢
        rw [and_self, share_owner, payeeShare]
        split_ifs with payer payee payee
        · rwa [sub_add_cancel]
        · rw [add_zero]
          exact gave payer
        · rwa [sub_zero]
        · rwa [sub_zero, add_zero]
      · rw [away gift.recipient _ _ same, away gift.giver _ _ (Ne.symm same), add_zero, sub_zero,
          share_owner, share_owner]
        constructor
        · split_ifs with payer
          · exact gave payer
          · rwa [sub_zero]
        · split_ifs
          · exact took
          · rwa [add_zero]

/-- The game comes to the pay attributes with the money where it should be, or it stops with the
money where it was. -/
theorem giveMoney_right (coherent : Coherent s) (w : World) (gift : Gift)
    (didIt : Game → Option Game)
    (declared : s.typeOf gift.recipient = .thing → gift.declared.slt 0 = true →
      gift.amount.slt gift.declared = true) :
    ∃ accepted mid, s.giveMoney w gift didIt = (if accepted then didIt mid else some mid) ∧
      Coherent mid ∧ GiftRight (ledgerOf s) w gift accepted (ledgerOf mid) := by
  obtain ⟨mid, ran, coherent', ledger⟩ := @giveMoney_spec _ w gift coherent didIt
  refine ⟨((ledgerOf s).giveMoney w gift).1, mid, ran, coherent', ?_⟩
  rw [ledger]
  exact giftRight (ledgerOf s) w gift declared

/-- The town with another player, #4, where #5 has 100 and there is a thing, #3, of GOD's. -/
def richTown : Game :=
  { town with
    typeOf := fun x => if x = 1 ∨ x = 4 ∨ x = 5 then .player else if x = 3 then .thing else .room
    attr := fun x atr => if x = 5 ∧ atr = .money then some "100".toList else none
    attrList := fun x => if x = 5 then [.money] else [] }

theorem richTown_loaded : Loaded richTown where
  htab := fun _ => rfl
  head := rfl
  listed := fun obj atr stored => by
    have is : obj = 5 ∧ atr = .money := by
      by_contra o
      exact stored (if_neg o)
    obtain ⟨rfl, rfl⟩ := is
    exact List.mem_singleton_self _
  typed := fun x owns => by
    have player : x = 1 ∨ x = 4 ∨ x = 5 := by
      by_contra o
      rw [Game.ownsOthers] at owns
      simp only [richTown, o, if_false, decide_eq_true_eq] at owns
      split at owns <;> cases owns
    rcases player with rfl | rfl | rfl <;> rfl

def toll : Gift where
  giver := 5
  recipient := 3
  amount := 30
  steal := false
  paylimit := 10000
  luse := true
  costText := "20".toList

def tollWorld : World := { townWorld with owner := fun x => if x = 3 then 4 else x }

theorem giveMoney_right_toll :
    (richTown.giveMoney tollWorld toll some).map (fun s =>
      ((ledgerOf s).money 5, (ledgerOf s).money 4)) = some (80, 20) ∧
    ∃ accepted mid, richTown.giveMoney tollWorld toll some =
        (if accepted then some mid else some mid) ∧
      Coherent mid ∧ GiftRight (ledgerOf richTown) tollWorld toll accepted (ledgerOf mid) :=
  ⟨by decide, giveMoney_right richTown_loaded.coherent tollWorld toll some
    fun _ negative => absurd negative (by decide)⟩

/-- GOD gives #5 money that nobody has paid. -/
theorem giveMoney_free :
    ((ledgerOf richTown).money 1, (ledgerOf richTown).money 5) = (0, 100) ∧
    (richTown.giveMoney townWorld { toll with giver := 1, recipient := 5 } some).map (fun s =>
      ((ledgerOf s).money 1, (ledgerOf s).money 5)) = some (0, 130) := by
  decide

end BattletechMux.Money
