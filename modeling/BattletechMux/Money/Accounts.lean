/-
Module: BattletechMux.Money.Accounts
Purpose: Runs of the calls. As long as no player is destroyed whose entry in the cache has money
  that is still to be written, the game with its cache keeps the same books as the ledger without
  one.
-/
import BattletechMux.Foundation.Machine
import BattletechMux.Money.Flush

namespace BattletechMux.Money

open List Option

open Function (update update_self update_of_ne)

variable {s s' : Game} {obj : Dbref}

/-! ## Paying -/

theorem giveto_spec (coherent : Coherent s) (w : World) (who : Dbref) (amount : Word) :
    ∃ s', s.giveto w who amount = some s' ∧ Coherent s' ∧
      ledgerOf s' = (ledgerOf s).give w who amount ∧
      ∀ o, w.excused who = true ∨ w.owner who ≠ o → Clean s o → Clean s' o := by
  rw [Game.giveto, Ledger.give]
  by_cases excused : w.excused who = true
  · rw [if_pos excused, if_pos excused]
    exact ⟨s, rfl, coherent, rfl, fun _ _ => id⟩
  · rw [if_neg excused, if_neg excused]
    obtain ⟨s₁, ran, coherent₁, reloaded⟩ := pennies_spec coherent w (w.owner who)
    obtain ⟨s', paid, coherent', ledger, clean⟩ := sPennies_spec coherent₁.tended
      (fun player _ => coherent₁.right player)
      (fun pp hf changed => (coherent₁.right _ pp hf).1 changed) w
      ((ledgerOf s).money (w.owner who) + amount)
    refine ⟨s', ?_, coherent', ?_, fun o spared pre => ?_⟩
    · rw [ran]
      exact paid
    · rw [ledger, reloaded.ledger]
    · exact clean o (fun eq => (spared.resolve_left excused) eq.symm)
        (reloaded.clean pre)

theorem payfor_spec (coherent : Coherent s) (w : World) (who : Dbref) (cost : Word) :
    ∃ s', s.payfor w who cost = some ((ledgerOf s).pays w who cost, s') ∧ Coherent s' ∧
      ledgerOf s' = (ledgerOf s).pay w who cost := by
  rw [Game.payfor, Ledger.pay, Ledger.pays]
  by_cases excused : w.excused who = true
  · rw [if_pos excused, if_pos excused, excused, Bool.true_or]
    exact ⟨s, rfl, coherent, rfl⟩
  · rw [if_neg excused, if_neg excused, Bool.eq_false_of_not_eq_true excused, Bool.false_or]
    obtain ⟨s₁, ran, coherent₁, reloaded⟩ := pennies_spec coherent w (w.owner who)
    rw [ran, bind_eq_bind, bind_some]
    dsimp only
    by_cases hlt : cost.sle ((ledgerOf s).money (w.owner who)) = true
    · rw [if_pos hlt, if_pos hlt]
      obtain ⟨s', paid, coherent', ledger, _⟩ := sPennies_spec coherent₁.tended
        (fun player _ => coherent₁.right player)
        (fun pp hf changed => (coherent₁.right _ pp hf).1 changed) w
        ((ledgerOf s).money (w.owner who) - cost)
      exact ⟨s', by rw [paid, hlt]; rfl, coherent', by rw [ledger, reloaded.ledger]⟩
    · rw [if_neg hlt, if_neg hlt, Bool.eq_false_of_not_eq_true hlt]
      exact ⟨s₁, rfl, coherent₁, reloaded.ledger⟩

/-! ## Queues -/

theorem setQueue_spec (coherent : Coherent s) (w : World) {player : Dbref}
    (owns : s.ownsOthers player = true) (change : Word → Word) :
    ∃ pp s₁ s', s.pcacheFind w player = some (some pp, s₁) ∧ s₁.setQueue pp change = some s' ∧
      Coherent s' ∧ Reloaded player s s' := by
  obtain ⟨hf, s₁, ran, tended, reloaded, some', own⟩ :=
    pcacheFind_spec coherent.tended w player
  cases hf with
  | none => exact absurd rfl (some' owns)
  | some pp =>
    obtain ⟨cells, cached⟩ := tended
    have has := (own pp rfl).1
    have reloaded' := reloaded.trans (cached.reloaded has
      (e := { s₁.pcache pp with queue := change (s₁.pcache pp).queue }) (Or.inl rfl) rfl)
    refine ⟨pp, s₁, _, ran, ?_,
      reloaded'.coherent coherent ⟨cells, cached.setEntry rfl rfl rfl⟩, reloaded'⟩
    rw [Game.setQueue, cached.readEntry_eq has]
    rfl

theorem aQueue_spec (coherent : Coherent s) (w : World) (player : Dbref) (adj : Word) :
    ∃ s', s.aQueue w player adj = some s' ∧ Coherent s' ∧ Reloaded player s s' := by
  rw [Game.aQueue]
  by_cases owns : s.ownsOthers player = true
  · obtain ⟨pp, s₁, s', ran, changed, kept⟩ := setQueue_spec coherent w owns (· + adj)
    rw [if_pos owns, ran]
    exact ⟨s', changed, kept⟩
  · exact ⟨s, if_neg owns, coherent, Reloaded.refl player s⟩

theorem sQueue_spec (coherent : Coherent s) (w : World) (player : Dbref) (val : Word) :
    ∃ s', s.sQueue w player val = some s' ∧ Coherent s' ∧ Reloaded player s s' := by
  rw [Game.sQueue]
  by_cases owns : s.ownsOthers player = true
  · obtain ⟨pp, s₁, s', ran, changed, kept⟩ := setQueue_spec coherent w owns fun _ => val
    rw [if_pos owns, ran]
    exact ⟨s', changed, kept⟩
  · exact ⟨s, if_neg owns, coherent, Reloaded.refl player s⟩

/-! ## Objects that come and go -/

section

variable (coherent : Coherent s)
include coherent

theorem become_spec (clean : Clean s obj) (w : World)
    (objtype : ObjectType) (good : objtype = .player → s.goodObj obj = true) (n : Word) :
    ∃ s₁ s', s.atrFree w obj = some s₁ ∧ (s₁.setType obj objtype).sPennies w obj n = some s' ∧
      Coherent s' ∧ ledgerOf s' = (ledgerOf s).become obj objtype n := by
  obtain ⟨s₁, freed, fair, typeOf, dbTop, attr⟩ := atrFree_spec
    ⟨coherent.tended, fun player _ => coherent.right player, clean⟩ w
  let s₂ := s₁.setType obj objtype
  have typeOf₂ : s₂.typeOf = update s.typeOf obj objtype := by
    rw [← typeOf]
    rfl
  have tended : Tended s₂ := by
    obtain ⟨cells, cached⟩ := fair.tended
    refine ⟨cells, cached.chain, cached.live, cached.old, cached.found, cached.limits,
      cached.listed, fun x owns => ?_⟩
    rw [Game.goodObj, show s₂.dbTop = s.dbTop from dbTop]
    rw [Game.ownsOthers, typeOf₂] at owns
    by_cases eq : x = obj
    · rw [eq, update_self] at owns
      have := good (of_decide_eq_true owns)
      rwa [Game.goodObj, ← eq] at this
    · rw [update_of_ne eq, ← typeOf] at owns
      have := cached.typed x owns
      rwa [Game.goodObj, dbTop] at this
  obtain ⟨s', paid, coherent', ledger, _⟩ := sPennies_spec tended
    (fun player ne => (fair.right player ne).congr rfl rfl
      (by rw [typeOf₂, update_of_ne ne, typeOf]) rfl)
    (fun pp hf changed => by
      have unchanged := fair.clean pp hf
      rw [show (s₁.pcache pp).moneyCh = true from changed] at unchanged
      cases unchanged) w n
  refine ⟨s₁, s', freed, paid, coherent', ledger.trans ?_⟩
  have money : update (fun o => wordOf (s₂.attr o .money)) obj n =
      update (fun o => wordOf (s.attr o .money)) obj n := by
    funext o
    by_cases eq : o = obj
    · rw [eq, update_self, update_self]
    · rw [update_of_ne eq, update_of_ne eq,
        show s₂.attr = s₁.attr from rfl, attr, update_of_ne eq]
  have limit : (fun o => s₂.attr o .queueMax) =
      update (fun o => s.attr o .queueMax) obj none := by
    funext o
    by_cases eq : o = obj
    · rw [eq, update_self, show s₂.attr = s₁.attr from rfl, attr, update_self]
    · rw [update_of_ne eq, show s₂.attr = s₁.attr from rfl, attr,
        update_of_ne eq]
  rw [ledgerOf, ledgerOf, Ledger.setMoney, Ledger.become]
  dsimp only
  rw [money, limit, typeOf₂, show s₂.dbTop = s.dbTop from dbTop]

theorem Coherent.clean (o : s.ownsOthers obj = false) : Clean s obj := by
  intro pp hf
  cases changed : (s.pcache pp).moneyCh with
  | false => rfl
  | true =>
    have owns := (coherent.right obj pp hf).1 changed
    rw [o] at owns
    cases owns

theorem canAfford_spec (w : World) (who : Dbref) (amount : Word) :
    ∃ s', s.canAfford w who amount = some ((ledgerOf s).affords w who amount, s') ∧ Coherent s' ∧
      ledgerOf s' = ledgerOf s := by
  rw [Game.canAfford, Ledger.affords]
  by_cases free : (w.wizard who || w.wizard (w.owner who) || w.freeMoney who ||
    w.freeMoney (w.owner who)) = true
  · rw [if_pos free, free, Bool.true_or]
    exact ⟨s, rfl, coherent, rfl⟩
  · obtain ⟨s₁, ran, coherent₁, reloaded⟩ := pennies_spec coherent w (w.owner who)
    rw [if_neg free, eq_false_of_ne_true free, Bool.false_or, ran]
    exact ⟨s₁, rfl, coherent₁, reloaded.ledger⟩

theorem payFees_spec (w : World) (player : Dbref) (cost : Word) (quota : Bool) :
    ∃ s', s.payFees w player cost quota = some (((ledgerOf s).payFees w player cost quota).1, s') ∧
      Coherent s' ∧ ledgerOf s' = ((ledgerOf s).payFees w player cost quota).2 := by
  rw [Game.payFees, Ledger.payFees]
  by_cases nobody : player = nothing
  · rw [if_pos nobody, if_pos nobody]
    exact ⟨s, rfl, coherent, rfl⟩
  · obtain ⟨s₁, can, coherent₁, ledger₁⟩ := canAfford_spec coherent w player cost
    rw [if_neg nobody, if_neg nobody, Game.canpayfees, can, bind_eq_bind, bind_some]
    dsimp only
    by_cases may : ((ledgerOf s).affords w player cost && quota) = true
    · obtain ⟨s', ran, coherent', ledger⟩ := payfor_spec coherent₁ w player cost
      rw [if_pos may, if_pos may, ran]
      exact ⟨s', rfl, coherent', by rw [ledger, ledger₁]⟩
    · rw [if_neg may, if_neg may]
      exact ⟨s₁, rfl, coherent₁, ledger₁⟩

theorem numberFor_spec (recycled : Option Dbref) :
    ∃ obj s', s.numberFor recycled = (obj, s') ∧
      (ledgerOf s).numberFor recycled = (obj, ledgerOf s') ∧ Coherent s' ∧
      s'.goodObj obj = true ∧ s'.ownsOthers obj = false := by
  have new : ∃ obj s', ((s.dbTop : Dbref), { s with dbTop := s.dbTop + 1 }) = (obj, s') ∧
      (((ledgerOf s).dbTop : Dbref), { ledgerOf s with dbTop := (ledgerOf s).dbTop + 1 }) =
        (obj, ledgerOf s') ∧ Coherent s' ∧ s'.goodObj obj = true ∧ s'.ownsOthers obj = false := by
    obtain ⟨cells, cached⟩ := coherent.tended
    refine ⟨_, _, rfl, rfl, ⟨⟨cells, cached.chain, cached.live, cached.old, cached.found,
      cached.limits, cached.listed, fun x owns => ?_⟩, coherent.right⟩, ?_, ?_⟩
    · have good := of_decide_eq_true (cached.typed x owns)
      exact decide_eq_true
        ⟨good.1, Int.lt_trans good.2 (Int.ofNat_lt.mpr (Nat.lt_succ_self _))⟩
    · exact decide_eq_true ⟨Int.natCast_nonneg _, Int.ofNat_lt.mpr (Nat.lt_succ_self _)⟩
    · rw [← Bool.not_eq_true]
      exact fun owns => Int.lt_irrefl _ (of_decide_eq_true (cached.typed _ owns)).2
  cases recycled with
  | none => exact new
  | some obj =>
    rw [Game.numberFor, Ledger.numberFor]
    by_cases free : (s.goodObj obj && s.typeOf obj = .garbage) = true
    · rw [if_pos free]
      have free' := free
      rw [Bool.and_eq_true, decide_eq_true_eq] at free'
      refine ⟨obj, s, rfl, if_pos free, coherent, free'.1, ?_⟩
      rw [Game.ownsOthers, free'.2]
      rfl
    · rw [if_neg free, if_neg (show ¬((ledgerOf s).goodObj obj &&
        (ledgerOf s).typeOf obj = .garbage) = true from free)]
      exact new

theorem createObj_spec (w : World) (player : Dbref)
    (objtype : ObjectType) (cost : Word) (quota : Bool) (recycled : Option Dbref) :
    ∃ s', s.createObj w player objtype cost quota recycled = some s' ∧ Coherent s' ∧
      ledgerOf s' = (ledgerOf s).create w player objtype cost quota recycled := by
  rw [Game.createObj, Ledger.create]
  by_cases nothing' : objtype = .garbage
  · rw [if_pos nothing', if_pos nothing']
    exact ⟨s, rfl, coherent, rfl⟩
  obtain ⟨s₁, paying, coherent₁, ledger₁⟩ :=
    payFees_spec coherent w player (Game.feesFor w objtype cost).1 quota
  rw [if_neg nothing', if_neg nothing', paying, bind_eq_bind, bind_some]
  dsimp only
  rw [← ledger₁]
  by_cases paid : ((ledgerOf s).payFees w player (Game.feesFor w objtype cost).1 quota).1 = true
  · obtain ⟨obj, s₂, number, number', coherent₂, good, o⟩ := numberFor_spec coherent₁ recycled
    obtain ⟨s₃, s', freed, set, coherent', ledger⟩ := become_spec coherent₂
      (coherent₂.clean o) w objtype (fun _ => good) (Game.feesFor w objtype cost).2
    rw [if_pos paid, if_pos paid, number, number']
    dsimp only
    rw [freed]
    exact ⟨s', set, coherent', ledger⟩
  · rw [if_neg paid, if_neg paid]
    exact ⟨s₁, rfl, coherent₁, rfl⟩

theorem drain_spec (w : World) (drained : List Dbref) :
    ∃ s', Game.drain w drained s = some s' ∧ Coherent s' ∧
      ledgerOf s' = drained.foldl (fun l player => l.give w player w.waitcost) (ledgerOf s) ∧
      ∀ o, (∀ who ∈ drained, w.excused who = true ∨ w.owner who ≠ o) →
        Clean s o → Clean s' o := by
  induction drained generalizing s with
  | nil => exact ⟨s, rfl, coherent, rfl, fun _ _ => id⟩
  | cons player later ih =>
    obtain ⟨s₁, given, coherent₁, ledger₁, clean₁⟩ :=
      giveto_spec coherent w player w.waitcost
    obtain ⟨s₂, queued, coherent₂, reloaded⟩ := aQueue_spec coherent₁ w (w.owner player) (-1)
    obtain ⟨s', ran, coherent', ledger, clean⟩ := ih coherent₂
    refine ⟨s', ?_, coherent', ?_, fun o spared pre => ?_⟩
    · simp only [Game.drain, given, queued, bind_eq_bind, bind_some]
      exact ran
    · rw [ledger, reloaded.ledger, ledger₁, foldl_cons]
    · exact clean o (fun who mem => spared who (mem_cons_of_mem player mem))
        (reloaded.clean (clean₁ o (spared player mem_cons_self) pre))

theorem haltObj_spec (w : World) (obj : Dbref) (numhalted : Nat) (drained : List Dbref) :
    ∃ s', s.haltObj w obj numhalted drained = some s' ∧ Coherent s' ∧
      ledgerOf s' = (ledgerOf s).refund w obj numhalted drained ∧
      ∀ o, (∀ who ∈ w.owner obj :: drained, w.excused who = true ∨ w.owner who ≠ o) →
        Clean s o → Clean s' o := by
  obtain ⟨s₁, given, coherent₁, ledger₁, clean₁⟩ := giveto_spec coherent w (w.owner obj)
    (w.waitcost * BitVec.ofNat 32 numhalted)
  obtain ⟨s₂, queued, coherent₂, reloaded⟩ := aQueue_spec coherent₁ w (w.owner obj)
    (-BitVec.ofNat 32 numhalted)
  obtain ⟨s', ran, coherent', ledger, clean⟩ := drain_spec coherent₂ w drained
  refine ⟨s', ?_, coherent', ?_, fun o spared pre => ?_⟩
  · simp only [Game.haltObj, given, queued, bind_eq_bind, bind_some]
    exact ran
  · rw [ledger, reloaded.ledger, ledger₁]
    rfl
  · exact clean o (fun who mem => spared who (mem_cons_of_mem _ mem))
      (reloaded.clean (clean₁ o (spared _ mem_cons_self) pre))

theorem compensate_spec (w : World) (obj : Dbref) (robot : Bool) :
    ∃ s', s.compensate w obj robot = some s' ∧ Coherent s' ∧
      ledgerOf s' = (ledgerOf s).compensate w obj robot ∧
      ∀ o, w.excused (w.owner obj) = true ∨ w.owner (w.owner obj) ≠ o →
        Clean s o → Clean s' o := by
  rw [Game.compensate, Ledger.compensate]
  by_cases owned : (s.goodObj (w.owner obj) && s.ownsOthers (w.owner obj) &&
    w.owner obj ≠ obj) = true
  · -- looking at the money of the object changes no entry's money
    obtain ⟨s₁, val, coherent₁, reloaded⟩ : ∃ s₁, s.depositFor w obj robot =
        some ((ledgerOf s).deposit w obj robot, s₁) ∧ Coherent s₁ ∧ Reloaded obj s s₁ := by
      rw [Game.depositFor, Ledger.deposit, show (ledgerOf s).typeOf obj = s.typeOf obj from rfl]
      cases s.typeOf obj with
      | thing =>
        obtain ⟨s₁, ran, coherent₁, reloaded⟩ := pennies_spec coherent w obj
        exact ⟨s₁, by rw [ran]; rfl, coherent₁, reloaded⟩
      | room => exact ⟨s, rfl, coherent, Reloaded.refl obj s⟩
      | exit => exact ⟨s, rfl, coherent, Reloaded.refl obj s⟩
      | player => exact ⟨s, rfl, coherent, Reloaded.refl obj s⟩
      | garbage => exact ⟨s, rfl, coherent, Reloaded.refl obj s⟩
    obtain ⟨s', given, coherent', ledger, clean⟩ := giveto_spec coherent₁ w (w.owner obj)
      ((ledgerOf s).deposit w obj robot)
    rw [if_pos owned, val, bind_eq_bind, bind_some, show ((ledgerOf s).goodObj
      (w.owner obj) && (ledgerOf s).typeOf (w.owner obj) = .player && w.owner obj ≠ obj) = true
      from owned, if_pos rfl]
    exact ⟨s', given, coherent', by rw [ledger, reloaded.ledger], fun o spared pre =>
      clean o spared (reloaded.clean pre)⟩
  · rw [if_neg owned, if_neg (show ¬((ledgerOf s).goodObj (w.owner obj) &&
      (ledgerOf s).typeOf (w.owner obj) = .player && w.owner obj ≠ obj) = true from owned)]
    exact ⟨s, rfl, coherent, rfl, fun _ _ => id⟩

end

/-- A player is destroyed whose entry has no money that is to be written, not even by the
destruction. -/
def Settled (s : Game) (w : World) (obj : Dbref) (drained : List Dbref) : Prop :=
  Clean s obj ∧
    ∀ who ∈ w.owner obj :: drained, w.excused who = true ∨ w.owner who ≠ obj

theorem destroyObj_spec (coherent : Coherent s) (w : World) (obj : Dbref) (robot : Bool)
    (numhalted : Nat) (drained : List Dbref)
    (settled : s.goodObj obj = true → s.ownsOthers obj = true → Settled s w obj drained) :
    ∃ s', s.destroyObj w obj robot numhalted drained = some s' ∧ Coherent s' ∧
      ledgerOf s' = (ledgerOf s).destroy w obj robot numhalted drained := by
  rw [Game.destroyObj, Ledger.destroy, show (ledgerOf s).goodObj obj = s.goodObj obj from rfl]
  cases good : s.goodObj obj with
  | false => exact ⟨s, rfl, coherent, rfl⟩
  | true =>
    obtain ⟨s₁, halted, coherent₁, ledger₁, clean₁⟩ :=
      haltObj_spec coherent w obj numhalted drained
    obtain ⟨s₂, compensated, coherent₂, ledger₂, clean₂⟩ := compensate_spec coherent₁ w obj robot
    have clean : Clean s₂ obj := by
      cases owns : s₂.ownsOthers obj with
      | false => exact coherent₂.clean owns
      | true =>
        have types : s₂.ownsOthers obj = s.ownsOthers obj := by
          have eq : (ledgerOf s₂).typeOf = (ledgerOf s).typeOf := by
            rw [ledger₂, ledger₁]
            exact Ledger.compensate_refund_typeOf ..
          rw [Game.ownsOthers, Game.ownsOthers, show s₂.typeOf = s.typeOf from eq]
        obtain ⟨pre, spared⟩ := settled good (types ▸ owns)
        exact clean₂ obj (spared _ mem_cons_self) (clean₁ obj spared pre)
    obtain ⟨s₃, s', freed, set, coherent', ledger⟩ := become_spec coherent₂ clean w .garbage
      (fun is => absurd is (by decide)) 0
    refine ⟨s', ?_, coherent', ?_⟩
    · rw [Bool.not_true, if_neg Bool.false_ne_true]
      simp only [halted, compensated, freed, bind_eq_bind, bind_some]
      exact set
    · rw [ledger, ledger₂, ledger₁]
      rfl

/-! ## Runs -/

/-- A call that leaves no former player's money in the cache. -/
def Sound (s : Game) (call : World × Op) : Prop :=
  match call.2 with
  | .destroyObj obj _ _ drained =>
    s.goodObj obj = true → s.ownsOthers obj = true → Settled s call.1 obj drained
  | _ => True

theorem step_simulates (coherent : Coherent s) (call : World × Op) (sound : Sound s call) :
    ∃ s', step s call = some s' ∧ Coherent s' ∧ ledgerOf s' = (ledgerOf s).step call := by
  obtain ⟨w, op⟩ := call
  cases op with
  | pennies obj =>
    obtain ⟨s', ran, coherent', reloaded⟩ := pennies_spec coherent w obj
    exact ⟨s', congrArg (Option.map Prod.snd) ran, coherent', reloaded.ledger⟩
  | sPennies obj howfew =>
    obtain ⟨s', ran, coherent', ledger, _⟩ := sPennies_spec coherent.tended
      (fun player _ => coherent.right player)
      (fun pp hf changed => (coherent.right obj pp hf).1 changed) w howfew
    exact ⟨s', ran, coherent', ledger⟩
  | giveto who amount =>
    obtain ⟨s', ran, coherent', ledger, _⟩ := giveto_spec coherent w who amount
    exact ⟨s', ran, coherent', ledger⟩
  | payfor who cost =>
    obtain ⟨s', ran, coherent', ledger⟩ := payfor_spec coherent w who cost
    exact ⟨s', congrArg (Option.map Prod.snd) ran, coherent', ledger⟩
  | pcacheFind player =>
    obtain ⟨hf, s', ran, tended, reloaded, _⟩ := pcacheFind_spec coherent.tended w player
    exact ⟨s', congrArg (Option.map Prod.snd) ran, reloaded.coherent coherent tended,
      reloaded.ledger⟩
  | pcacheReload player =>
    obtain ⟨s', ran, tended, reloaded⟩ := pcacheReload_spec coherent.tended w player
    exact ⟨s', ran, reloaded.coherent coherent tended, reloaded.ledger⟩
  | pcacheTrim => exact pcacheTrim_spec coherent w
  | pcacheSync => exact pcacheSync_spec coherent w
  | pcachePurge player => exact pcachePurge_spec coherent player
  | aQueue player adj =>
    obtain ⟨s', ran, coherent', reloaded⟩ := aQueue_spec coherent w player adj
    exact ⟨s', ran, coherent', reloaded.ledger⟩
  | sQueue player val =>
    obtain ⟨s', ran, coherent', reloaded⟩ := sQueue_spec coherent w player val
    exact ⟨s', ran, coherent', reloaded.ledger⟩
  | setQueueMax thing buff => exact setQueueMax_spec coherent w thing buff
  | createObj player objtype cost quota recycled =>
    exact createObj_spec coherent w player objtype cost quota recycled
  | destroyObj obj robot numhalted drained =>
    exact destroyObj_spec coherent w obj robot numhalted drained sound

/-- A database that has been loaded: the cache is empty, the attributes are listed, and only
objects in it are players. -/
structure Loaded (s : Game) : Prop where
  htab : ∀ player, s.pcacheHtab player = none
  head : s.pcacheHead = none
  listed : ∀ obj atr, s.attr obj atr ≠ none → atr ∈ s.attrList obj
  typed : ∀ x, s.ownsOthers x = true → s.goodObj x = true

theorem Loaded.coherent (loaded : Loaded s) : Coherent s := by
  have absent : ∀ {player pp}, s.pcacheHtab player ≠ some pp := by
    intro player pp hf
    rw [loaded.htab player] at hf
    cases hf
  exact ⟨⟨[], loaded.head, fun _ => not_mem_nil.elim, fun _ => not_mem_nil.elim,
    fun player pp => iff_of_false absent fun is => not_mem_nil is.1,
    fun _ => not_mem_nil.elim, loaded.listed, loaded.typed⟩,
    fun player pp hf => absurd hf absent⟩

/-- What the game says about money is what the ledger says. -/
structure Books (s : Game) (l : Ledger) : Prop where
  /-- `Pennies` of an object is what was last set. -/
  pennies : ∀ w obj, ∃ s', s.pennies w obj = some (l.money obj, s')
  /-- Nothing else has been written into the attributes. -/
  money : ∀ obj, wordOf (s.attr obj .money) = l.money obj
  limit : ∀ obj, s.attr obj .queueMax = l.limit obj

theorem Coherent.books (coherent : Coherent s) : Books s (ledgerOf s) where
  pennies := fun w obj => by
    obtain ⟨s', ran, _⟩ := pennies_spec coherent w obj
    exact ⟨s', ran⟩
  money := fun _ => rfl
  limit := fun _ => rfl

/-- In every run in which every player is settled when it is destroyed, nothing is used after
it has been freed, money is what was last set on an object and the cache writes nothing else
into its attributes. -/
theorem sound_calls_keep_money (loaded : Loaded s) {calls : List (World × Op)}
    (sound : Machine.Guarded step Sound s calls) :
    ∃ s', Machine.run step s calls = some s' ∧
      Books s' (calls.foldl Ledger.step (ledgerOf s)) := by
  have coherent := loaded.coherent
  clear loaded
  induction calls generalizing s with
  | nil => exact ⟨s, rfl, coherent.books⟩
  | cons call later ih =>
    obtain ⟨s₁, stepped, coherent₁, ledger⟩ := step_simulates coherent call sound.1
    obtain ⟨s', ran, books⟩ := ih (sound.2 s₁ stepped) coherent₁
    refine ⟨s', ?_, ?_⟩
    · rw [Machine.run_cons, stepped]
      exact ran
    · rwa [foldl_cons, ← ledger]

instance (s : Game) (obj : Dbref) : Decidable (Clean s obj) :=
  inferInstanceAs (Decidable (∀ pp ∈ s.pcacheHtab obj, (s.pcache pp).moneyCh = false))

instance (s : Game) (w : World) (obj : Dbref) (drained : List Dbref) :
    Decidable (Settled s w obj drained) :=
  inferInstanceAs (Decidable (_ ∧ _))

instance (s : Game) : (call : World × Op) → Decidable (Sound s call)
  | (w, .destroyObj obj _ _ drained) => inferInstanceAs
      (Decidable (s.goodObj obj = true → s.ownsOthers obj = true → Settled s w obj drained))
  | (_, .pennies _) | (_, .sPennies _ _) | (_, .giveto _ _) | (_, .payfor _ _)
  | (_, .pcacheFind _) | (_, .pcacheReload _) | (_, .pcacheTrim) | (_, .pcacheSync)
  | (_, .pcachePurge _) | (_, .aQueue _ _) | (_, .sQueue _ _) | (_, .setQueueMax _ _)
  | (_, .createObj _ _ _ _ _) => isTrue trivial

def town : Game where
  typeOf := fun x => if x = 1 ∨ x = 5 then .player else .room
  dbTop := 6
  attr := fun _ _ => none
  attrList := fun _ => []
  pcacheHtab := fun _ => none
  pcacheHead := none
  pcache := fun _ => ⟨0, 0, 0, 0, false, false, false, false⟩
  next := fun _ => none
  live := fun _ => false
  fresh := 0

theorem town_loaded : Loaded town where
  htab := fun _ => rfl
  head := rfl
  listed := fun _ _ stored => absurd rfl stored
  typed := fun x owns => by
    have players : x = 1 ∨ x = 5 := by
      by_contra o
      have room : town.typeOf x = .room := if_neg o
      rw [Game.ownsOthers, room] at owns
      cases owns
    rcases players with rfl | rfl
    · rfl
    · rfl

def townWorld : World where
  owner := fun x => if x = 5 then 5 else 1
  wizard := fun x => decide (x = 1)
  freeMoney := fun _ => false
  immortal := fun _ => false
  queuemax := 100
  waitcost := 10
  digcost := 10
  opencost := 1
  robotcost := 1000
  createmin := 10
  createmax := 505
  sacfactor := 5
  sacadjust := -1
  paystart := 0

/-- #5, who belongs to GOD here, has money, which is flushed; it is destroyed, and its number
is that of a new thing. -/
theorem sound_calls_keep_money_recycled :
    ∃ s', Machine.run step town
        [(townWorld, .sPennies 5 100), (townWorld, .pcacheSync),
          ({ townWorld with owner := fun _ => 1 }, .destroyObj 5 false 2 [1]),
          (townWorld, .createObj 1 .thing 10 true (some 5)), (townWorld, .pcacheTrim)] =
          some s' ∧
      Books s' ([(townWorld, Op.sPennies 5 100), (townWorld, Op.pcacheSync),
        ({ townWorld with owner := fun _ => 1 }, Op.destroyObj 5 false 2 [1]),
        (townWorld, Op.createObj 1 .thing 10 true (some 5)), (townWorld, Op.pcacheTrim)].foldl
          Ledger.step (ledgerOf town)) :=
  sound_calls_keep_money town_loaded (by decide)

/-- The money of a player who has been destroyed is written onto the thing that has got the
number. -/
theorem former_money_is_flushed :
    ¬∀ s', Machine.run step town
        [(townWorld, .sPennies 5 100), (townWorld, .destroyObj 5 false 0 []),
          (townWorld, .createObj 1 .thing 10 true (some 5)), (townWorld, .pcacheSync)] =
          some s' →
      Books s' ([(townWorld, Op.sPennies 5 100), (townWorld, Op.destroyObj 5 false 0 []),
        (townWorld, Op.createObj 1 .thing 10 true (some 5)), (townWorld, Op.pcacheSync)].foldl
          Ledger.step (ledgerOf town)) := by
  intro books
  have outcome : (Machine.run step town
      [(townWorld, .sPennies 5 100), (townWorld, .destroyObj 5 false 0 []),
        (townWorld, .createObj 1 .thing 10 true (some 5)), (townWorld, .pcacheSync)]).map
        (fun s' => wordOf (s'.attr 5 .money)) = some 100 := by decide
  have meant : ([(townWorld, Op.sPennies 5 100), (townWorld, Op.destroyObj 5 false 0 []),
      (townWorld, Op.createObj 1 .thing 10 true (some 5)), (townWorld, Op.pcacheSync)].foldl
        Ledger.step (ledgerOf town)).money 5 = 1 := by decide
  obtain ⟨s', ran, after⟩ := map_eq_some_iff.mp outcome
  have money := (books s' ran).money 5
  rw [after, meant] at money
  revert money
  decide

end BattletechMux.Money
