/-
Module: BattletechMux.Money.Coherence
Purpose: The player cache and the attributes: the cache is a list whose entries the hash table
  finds, an entry has changed money only for a player, and a player's entry has the money of the
  attribute.
-/
import BattletechMux.Foundation.Chain
import BattletechMux.Money.PlayerCache

namespace BattletechMux.Money

open List Option

open Function (update update_self update_of_ne)
open LinkedMemory (Chain)

/-! ## Numbers as texts -/

theorem printed_ne_nil (n : Word) : printed n ≠ [] := by
  rw [printed, CText.decimal]
  split
  · exact cons_ne_nil _ _
  · exact Nat.toDigits_ne_nil

theorem wordOf_printed (n : Word) : wordOf (some (printed n)) = n := by
  have scanned := @CText.scanInt_decimal [] n.toInt (by simp [CText.Stops])
  rw [append_nil] at scanned
  have low := BitVec.le_toInt n
  have high := BitVec.toInt_lt (x := n)
  have read : CText.atoi (printed n) = n.toInt := by
    rw [printed, CText.atoi, scanned]
    exact CText.stored_of_bounds (by simpa using low) (by simpa using high)
  rw [wordOf, read, BitVec.ofInt_toInt]

/-! ## The invariant -/

/-- The cache is the list `cells`: the hash table finds the entries that are not dead. -/
structure Cached (s : Game) (cells : List Addr) : Prop where
  chain : Chain s.next s.pcacheHead cells
  live : ∀ pp ∈ cells, s.live pp = true
  old : ∀ pp ∈ cells, pp < s.fresh
  found : ∀ player pp, s.pcacheHtab player = some pp ↔
    pp ∈ cells ∧ (s.pcache pp).player = player ∧ (s.pcache pp).dead = false
  limits : ∀ pp ∈ cells, (s.pcache pp).qmaxCh = false
  listed : ∀ obj atr, s.attr obj atr ≠ none → atr ∈ s.attrList obj
  typed : ∀ x, s.ownsOthers x = true → s.goodObj x = true

/-- The money of an entry is to be written for a player only, and is that of the attribute. -/
def Right (s : Game) (player : Dbref) : Prop :=
  ∀ pp, s.pcacheHtab player = some pp →
    ((s.pcache pp).moneyCh = true → s.ownsOthers player = true) ∧
      (s.ownsOthers player = true → (s.pcache pp).money = wordOf (s.attr player .money))

def Clean (s : Game) (player : Dbref) : Prop :=
  ∀ pp, s.pcacheHtab player = some pp → (s.pcache pp).moneyCh = false

def Tended (s : Game) : Prop := ∃ cells, Cached s cells

structure Coherent (s : Game) : Prop where
  tended : Tended s
  right : ∀ player, Right s player

structure Fair (obj : Dbref) (s : Game) : Prop where
  tended : Tended s
  right : ∀ player, player ≠ obj → Right s player
  clean : Clean s obj

def ledgerOf (s : Game) : Ledger where
  typeOf := s.typeOf
  dbTop := s.dbTop
  money := fun obj => wordOf (s.attr obj .money)
  limit := fun obj => s.attr obj .queueMax

variable {s s' : Game} {w : World} {cells : List Addr} {player obj : Dbref} {pp : Addr}

/-- Nothing but the cache changes, and there only the entry of one player, which is as it was
or has the money of the attribute. -/
structure Reloaded (player : Dbref) (s s' : Game) : Prop where
  typeOf : s'.typeOf = s.typeOf
  dbTop : s'.dbTop = s.dbTop
  attr : s'.attr = s.attr
  others : ∀ other, other ≠ player → s'.pcacheHtab other = s.pcacheHtab other ∧
    ∀ pp, s.pcacheHtab other = some pp → s'.pcache pp = s.pcache pp
  money : ∀ pp, s'.pcacheHtab player = some pp →
    s.pcacheHtab player = some pp ∧ (s'.pcache pp).money = (s.pcache pp).money ∨
      (s'.pcache pp).money = wordOf (s.attr player .money)
  moneyCh : ∀ pp, s'.pcacheHtab player = some pp → (s'.pcache pp).moneyCh = true →
    s.pcacheHtab player = some pp ∧ (s.pcache pp).moneyCh = true

theorem Reloaded.refl (player : Dbref) (s : Game) : Reloaded player s s :=
  ⟨rfl, rfl, rfl, fun _ _ => ⟨rfl, fun _ _ => rfl⟩, fun _ found => Or.inl ⟨found, rfl⟩,
    fun _ found changed => ⟨found, changed⟩⟩

namespace Reloaded

section

variable (reloaded : Reloaded player s s')
include reloaded

theorem ownsOthers_eq (x : Dbref) : s'.ownsOthers x = s.ownsOthers x := by
  rw [Game.ownsOthers, Game.ownsOthers, reloaded.typeOf]

theorem ledger : ledgerOf s' = ledgerOf s := by
  rw [ledgerOf, ledgerOf, reloaded.typeOf, reloaded.dbTop, reloaded.attr]

theorem right {o : Dbref} (right : Right s o) : Right s' o := by
  intro pp found
  rw [reloaded.ownsOthers_eq, reloaded.attr]
  by_cases eq : o = player
  · subst eq
    constructor
    · intro changed
      obtain ⟨found', changed'⟩ := reloaded.moneyCh pp found changed
      exact (right pp found').1 changed'
    · intro owns
      rcases reloaded.money pp found with ⟨found', money⟩ | money
      · rw [money]
        exact (right pp found').2 owns
      · exact money
  · obtain ⟨htab, entries⟩ := reloaded.others o eq
    rw [htab] at found
    rw [entries pp found]
    exact right pp found

theorem clean {o : Dbref} (clean : Clean s o) : Clean s' o := by
  intro pp found
  by_cases eq : o = player
  · subst eq
    cases changed : (s'.pcache pp).moneyCh with
    | false => rfl
    | true =>
      obtain ⟨found', changed'⟩ := reloaded.moneyCh pp found changed
      rw [clean pp found'] at changed'
      cases changed'
  · obtain ⟨htab, entries⟩ := reloaded.others o eq
    rw [htab] at found
    rw [entries pp found]
    exact clean pp found

theorem coherent (coherent : Coherent s) (tended : Tended s') : Coherent s' :=
  ⟨tended, fun player => reloaded.right (coherent.right player)⟩

theorem fair (fair : Fair obj s) (tended : Tended s') : Fair obj s' :=
  ⟨tended, fun player ne => reloaded.right (fair.right player ne),
    reloaded.clean fair.clean⟩

end

end Reloaded

/-! ## Entries -/

section

variable (cached : Cached s cells)
include cached

theorem Cached.htab_inj {o : Dbref}
    (found : s.pcacheHtab player = some pp) (found' : s.pcacheHtab o = some pp) :
    player = o :=
  ((cached.found player pp).mp found).2.1.symm.trans ((cached.found o pp).mp found').2.1

theorem Cached.readEntry_eq (found : s.pcacheHtab player = some pp) :
    s.readEntry pp = some (s.pcache pp) :=
  if_pos (cached.live pp ((cached.found player pp).mp found).1)

theorem Cached.setEntry {e : PCache}
    (player' : e.player = (s.pcache pp).player) (dead : e.dead = (s.pcache pp).dead)
    (qmaxCh : e.qmaxCh = (s.pcache pp).qmaxCh) : Cached (s.setEntry pp e) cells where
  chain := cached.chain
  live := cached.live
  old := cached.old
  found := fun player o => by
    rw [show (s.setEntry pp e).pcacheHtab = s.pcacheHtab from rfl, cached.found player o,
      show (s.setEntry pp e).pcache = update s.pcache pp e from rfl]
    by_cases eq : o = pp
    · rw [eq, update_self, player', dead]
    · rw [update_of_ne eq]
  limits := fun o mem => by
    rw [show (s.setEntry pp e).pcache = update s.pcache pp e from rfl]
    by_cases eq : o = pp
    · rw [eq, update_self, qmaxCh]
      exact cached.limits pp (eq ▸ mem)
    · rw [update_of_ne eq]
      exact cached.limits o mem
  listed := cached.listed
  typed := cached.typed

theorem Cached.setEntry_others (found : s.pcacheHtab player = some pp)
    (e : PCache) (o : Dbref) (ne : o ≠ player) :
    (s.setEntry pp e).pcacheHtab o = s.pcacheHtab o ∧
      ∀ pp', s.pcacheHtab o = some pp' → (s.setEntry pp e).pcache pp' = s.pcache pp' :=
  ⟨rfl, fun _ found' => update_of_ne
    (fun eq => ne (cached.htab_inj (eq ▸ found') found)) ..⟩

theorem Cached.newEntry (none' : s.pcacheHtab player = none) :
    Cached (s.newEntry w player) (s.fresh :: cells) := by
  have ne : ∀ pp ∈ cells, pp ≠ s.fresh := fun pp mem =>
    Nat.ne_of_lt (cached.old pp mem)
  have outside : s.fresh ∉ cells := fun mem => ne _ mem rfl
  have e : ∀ pp ∈ cells, (s.newEntry w player).pcache pp = s.pcache pp := fun pp mem =>
    update_of_ne (ne pp mem) ..
  refine ⟨⟨rfl, ?_⟩, ?_, ?_, ?_, ?_, cached.listed, cached.typed⟩
  · rw [show (s.newEntry w player).next s.fresh = s.pcacheHead from update_self ..]
    exact cached.chain.congr fun pp mem => update_of_ne (ne pp mem) ..
  · intro pp mem
    rcases mem_cons.mp mem with rfl | mem
    · exact update_self ..
    · exact (update_of_ne (ne pp mem) ..).trans (cached.live pp mem)
  · intro pp mem
    rcases mem_cons.mp mem with rfl | mem
    · exact Nat.lt_succ_self _
    · exact Nat.lt_succ_of_lt (cached.old pp mem)
  · intro o pp
    rw [show (s.newEntry w player).pcacheHtab = update s.pcacheHtab player (some s.fresh) from rfl]
    by_cases new : pp = s.fresh
    · subst new
      rw [show (s.newEntry w player).pcache s.fresh = _ from update_self ..]
      by_cases eq : o = player
      · rw [eq, update_self]
        simp
      · rw [update_of_ne eq]
        refine iff_of_false (fun found => outside ((cached.found o _).mp found).1) ?_
        exact fun e => eq e.2.1.symm
    · by_cases eq : o = player
      · rw [eq, update_self]
        refine iff_of_false (fun found => new (some.inj found).symm) ?_
        rintro ⟨mem, is⟩
        have mem := (mem_cons.mp mem).resolve_left new
        rw [e pp mem] at is
        have found := (cached.found player pp).mpr ⟨mem, is⟩
        rw [none'] at found
        cases found
      · rw [update_of_ne eq, cached.found o pp, mem_cons]
        constructor
        · rintro ⟨mem, is⟩
          exact ⟨Or.inr mem, by rwa [e pp mem]⟩
        · rintro ⟨mem, is⟩
          have mem := mem.resolve_left new
          exact ⟨mem, by rwa [e pp mem] at is⟩
  · intro pp mem
    rcases mem_cons.mp mem with rfl | mem
    · rw [show (s.newEntry w player).pcache s.fresh = _ from update_self ..]
    · rw [e pp mem]
      exact cached.limits pp mem

end

theorem pcacheFind_spec (tended : Tended s) (w : World) (player : Dbref) :
    ∃ found s', s.pcacheFind w player = some (found, s') ∧ Tended s' ∧ Reloaded player s s' ∧
      (s.ownsOthers player = true → found ≠ none) ∧
      ∀ pp, found = some pp → s'.pcacheHtab player = some pp ∧ s.ownsOthers player = true := by
  obtain ⟨cells, cached⟩ := tended
  rw [Game.pcacheFind]
  by_cases owns : s.ownsOthers player = true
  · have good := cached.typed player owns
    rw [good, owns, if_neg (by decide)]
    cases has : s.pcacheHtab player with
    | some pp =>
      dsimp only
      rw [cached.readEntry_eq has, bind_eq_bind, bind_some]
      have e : (s.setEntry pp { s.pcache pp with ref := true }).pcache pp =
        { s.pcache pp with ref := true } := update_self ..
      refine ⟨some pp, _, rfl, ⟨cells, cached.setEntry rfl rfl rfl⟩,
        ⟨rfl, rfl, rfl, fun o ne => ?_, ?_, ?_⟩, fun _ => some_ne_none _, ?_⟩
      · exact cached.setEntry_others has _ o ne
      · intro pp' found
        obtain rfl : pp = pp' := some.inj (has.symm.trans found)
        exact Or.inl ⟨has, by rw [e]⟩
      · intro pp' found changed
        obtain rfl : pp = pp' := some.inj (has.symm.trans found)
        rw [e] at changed
        exact ⟨has, changed⟩
      · rintro pp' ⟨⟩
        exact ⟨has, rfl⟩
    | none =>
      have htab : (s.newEntry w player).pcacheHtab player = some s.fresh :=
        update_self ..
      refine ⟨some s.fresh, _, rfl, ⟨_, cached.newEntry has⟩,
        ⟨rfl, rfl, rfl, fun o ne => ⟨update_of_ne ne .., ?_⟩, ?_, ?_⟩,
        fun _ => some_ne_none _, ?_⟩
      · intro pp found
        exact update_of_ne
          (Nat.ne_of_lt (cached.old pp ((cached.found o pp).mp found).1)) ..
      · intro pp found
        obtain rfl : s.fresh = pp := some.inj (htab.symm.trans found)
        right
        rw [show (s.newEntry w player).pcache s.fresh = _ from update_self ..]
      · intro pp found changed
        obtain rfl : s.fresh = pp := some.inj (htab.symm.trans found)
        rw [show (s.newEntry w player).pcache s.fresh = _ from update_self ..] at changed
        cases changed
      · rintro pp ⟨⟩
        exact ⟨htab, rfl⟩
  · refine ⟨none, s, if_pos (by simp [owns]), ⟨cells, cached⟩, Reloaded.refl player s,
      fun owns' => absurd owns' owns, fun pp found => ?_⟩
    cases found

theorem Reloaded.trans {s'' : Game} (fst : Reloaded player s s')
    (snd : Reloaded player s' s'') : Reloaded player s s'' where
  typeOf := snd.typeOf.trans fst.typeOf
  dbTop := snd.dbTop.trans fst.dbTop
  attr := snd.attr.trans fst.attr
  others := fun o ne => by
    obtain ⟨htab, entries⟩ := fst.others o ne
    obtain ⟨htab', entries'⟩ := snd.others o ne
    exact ⟨htab'.trans htab, fun pp found => (entries' pp (htab ▸ found)).trans (entries pp found)⟩
  money := fun pp found => by
    rcases snd.money pp found with ⟨found', eq⟩ | eq
    · rw [eq]
      exact fst.money pp found'
    · right
      rw [eq, fst.attr]
  moneyCh := fun pp found changed => by
    obtain ⟨found', changed'⟩ := snd.moneyCh pp found changed
    exact fst.moneyCh pp found' changed'

theorem Cached.reloaded (cached : Cached s cells) (found : s.pcacheHtab player = some pp)
    {e : PCache}
    (money : e.money = (s.pcache pp).money ∨ e.money = wordOf (s.attr player .money))
    (moneyCh : e.moneyCh = (s.pcache pp).moneyCh) : Reloaded player s (s.setEntry pp e) := by
  have entry : (s.setEntry pp e).pcache pp = e := update_self ..
  refine ⟨rfl, rfl, rfl, cached.setEntry_others found e, fun pp' found' => ?_,
    fun pp' found' changed => ?_⟩
  · obtain rfl : pp = pp' := some.inj (found.symm.trans found')
    rw [entry]
    exact money.imp (fun eq => ⟨found, eq⟩) id
  · obtain rfl : pp = pp' := some.inj (found.symm.trans found')
    rw [entry, moneyCh] at changed
    exact ⟨found, changed⟩

theorem pcacheReload_spec (tended : Tended s) (w : World) (player : Dbref) :
    ∃ s', s.pcacheReload w player = some s' ∧ Tended s' ∧ Reloaded player s s' := by
  obtain ⟨found, s₁, ran, tended₁, reloaded, _, own⟩ := pcacheFind_spec tended w player
  rw [Game.pcacheReload, ran, bind_eq_bind, bind_some]
  cases found with
  | none => exact ⟨s₁, rfl, tended₁, reloaded⟩
  | some pp =>
    obtain ⟨has, _⟩ := own pp rfl
    obtain ⟨cells, cached⟩ := tended₁
    dsimp only
    rw [Game.pcacheReload1, cached.readEntry_eq has]
    refine ⟨_, rfl, ⟨cells, cached.setEntry rfl rfl rfl⟩,
      reloaded.trans (cached.reloaded has (Or.inr rfl) rfl)⟩

/-! ## Attributes -/

theorem Tended.store (tended : Tended s) (thing : Dbref) (atr : Attr) (buff : Text) :
    Tended (s.store thing atr buff) := by
  obtain ⟨cells, cached⟩ := tended
  refine ⟨cells, cached.chain, cached.live, cached.old, cached.found, cached.limits,
    fun obj o stored => ?_, cached.typed⟩
  have inList : o ∈ (s.store thing atr buff).attrList obj ↔
      o ∈ s.attrList obj ∨ obj = thing ∧ o = atr := by
    rw [Game.store]
    dsimp only
    split
    · rename_i already
      exact ⟨Or.inl, fun either => either.elim id fun is => is.1 ▸ is.2 ▸ already⟩
    · by_cases eq : obj = thing
      · rw [eq, update_self]
        simp
      · rw [update_of_ne eq]
        simp [eq]
  rw [inList]
  by_cases eq : obj = thing ∧ o = atr
  · exact Or.inr eq
  · left
    refine cached.listed obj o fun none' => stored ?_
    rw [Game.store]
    dsimp only
    by_cases here : obj = thing
    · rw [here, update_self, update_of_ne fun is => eq ⟨here, is⟩, ← here]
      exact none'
    · rwa [update_of_ne here]

theorem Tended.delete (tended : Tended s) (thing : Dbref) (atr : Attr) :
    Tended (s.delete thing atr) := by
  obtain ⟨cells, cached⟩ := tended
  refine ⟨cells, cached.chain, cached.live, cached.old, cached.found, cached.limits,
    fun obj o stored => ?_, cached.typed⟩
  rw [Game.delete] at stored ⊢
  dsimp only at stored ⊢
  by_cases here : obj = thing
  · subst here
    rw [update_self] at stored ⊢
    by_cases eq : o = atr
    · rw [eq, update_self] at stored
      exact absurd rfl stored
    · rw [update_of_ne eq] at stored
      exact (mem_erase_of_ne eq).mpr (cached.listed obj o stored)
  · rw [update_of_ne here] at stored ⊢
    exact cached.listed obj o stored

theorem Right.congr (right : Right s player) (htab : s'.pcacheHtab = s.pcacheHtab)
    (pcache : s'.pcache = s.pcache) (typeOf : s'.typeOf player = s.typeOf player)
    (money : wordOf (s'.attr player .money) = wordOf (s.attr player .money)) : Right s' player := by
  have owns : s'.ownsOthers player = s.ownsOthers player := by
    rw [Game.ownsOthers, Game.ownsOthers, typeOf]
  intro pp found
  rw [htab] at found
  rw [pcache, owns, money]
  exact right pp found

theorem setQueueMax_spec (hc : Coherent s) (w : World) (thing : Dbref) (buff : Text) :
    ∃ s', s.atrAddRaw w thing .queueMax buff = some s' ∧ Coherent s' ∧
      ledgerOf s' = (ledgerOf s).setLimit thing buff := by
  -- only the limit in the ledger changes
  have written : ∀ (stored : Option Text) (s' : Game), s'.typeOf = s.typeOf →
      s'.dbTop = s.dbTop →
      s'.attr = update s.attr thing (update (s.attr thing) .queueMax stored) →
      (stored = if buff = [] then none else some buff) →
      (∀ obj, wordOf (s'.attr obj .money) = wordOf (s.attr obj .money)) ∧
        ledgerOf s' = (ledgerOf s).setLimit thing buff := by
    intro stored s' typeOf dbTop attr is
    have money : ∀ obj, s'.attr obj .money = s.attr obj .money := by
      intro obj
      rw [attr]
      by_cases here : obj = thing
      · rw [here, update_self, update_of_ne (by decide)]
      · rw [update_of_ne here]
    refine ⟨fun obj => by rw [money], ?_⟩
    have limit : (fun obj => s'.attr obj .queueMax) =
        update (fun obj => s.attr obj .queueMax) thing stored := by
      funext obj
      rw [attr]
      by_cases here : obj = thing
      · rw [here, update_self, update_self, update_self]
      · rw [update_of_ne here, update_of_ne here]
    rw [ledgerOf, ledgerOf, Ledger.setLimit, typeOf, dbTop, limit, ← is]
    simp only [money]
  rw [Game.atrAddRaw]
  by_cases empty : buff = []
  · rw [if_pos empty]
    obtain ⟨money, ledger⟩ := written none (s.delete thing .queueMax) rfl rfl rfl
      (if_pos empty).symm
    exact ⟨_, rfl, ⟨hc.tended.delete _ _, fun player =>
      (hc.right player).congr rfl rfl rfl (money player)⟩, ledger⟩
  · rw [if_neg empty]
    obtain ⟨money, ledger⟩ := written (some buff) (s.store thing .queueMax buff) rfl rfl rfl
      (if_neg empty).symm
    have stored : Coherent (s.store thing .queueMax buff) :=
      ⟨hc.tended.store _ _ _, fun player =>
        (hc.right player).congr rfl rfl rfl (money player)⟩
    obtain ⟨s', ran, tended, reloaded⟩ := pcacheReload_spec stored.tended w thing
    exact ⟨s', ran, reloaded.coherent stored tended, reloaded.ledger.trans ledger⟩

/-! ## Money -/

theorem pennies_spec (hc : Coherent s) (w : World) (obj : Dbref) :
    ∃ s', s.pennies w obj = some ((ledgerOf s).money obj, s') ∧ Coherent s' ∧
      Reloaded obj s s' := by
  rw [Game.pennies]
  by_cases owns : s.ownsOthers obj = true
  · obtain ⟨found, s₁, ran, tended₁, reloaded, some', own⟩ := pcacheFind_spec hc.tended w obj
    cases found with
    | none => exact absurd rfl (some' owns)
    | some pp =>
      obtain ⟨has, _⟩ := own pp rfl
      have coherent₁ := reloaded.coherent hc tended₁
      obtain ⟨cells, cached⟩ := tended₁
      refine ⟨s₁, ?_, coherent₁, reloaded⟩
      rw [if_pos owns, ran, bind_eq_bind, bind_some]
      dsimp only
      rw [cached.readEntry_eq has, bind_eq_bind, bind_some,
        (coherent₁.right obj pp has).2 (by rw [reloaded.ownsOthers_eq]; exact owns),
        reloaded.attr]
      rfl
  · exact ⟨s, if_neg owns, hc, Reloaded.refl obj s⟩

theorem sPennies_spec (tended : Tended s) (others : ∀ player, player ≠ obj → Right s player)
    (own : ∀ pp, s.pcacheHtab obj = some pp → (s.pcache pp).moneyCh = true →
      s.ownsOthers obj = true) (w : World) (n : Word) :
    ∃ s', s.sPennies w obj n = some s' ∧ Coherent s' ∧
      ledgerOf s' = (ledgerOf s).setMoney obj n ∧
      ∀ o, o ≠ obj → Clean s o → Clean s' o := by
  -- the entry of a player gets the money, then the attribute does
  obtain ⟨s₁, cached₁, tended₁, others₁, clean₁, typeOf, dbTop, attr, right₁⟩ : ∃ s₁,
      s.cachePennies w obj n = some s₁ ∧ Tended s₁ ∧ (∀ player, player ≠ obj → Right s₁ player) ∧
      (∀ o, o ≠ obj → Clean s o → Clean s₁ o) ∧ s₁.typeOf = s.typeOf ∧
      s₁.dbTop = s.dbTop ∧ s₁.attr = s.attr ∧
      ∀ pp, s₁.pcacheHtab obj = some pp →
        ((s₁.pcache pp).moneyCh = true → s.ownsOthers obj = true) ∧
          (s.ownsOthers obj = true → (s₁.pcache pp).money = n) := by
    rw [Game.cachePennies]
    by_cases owns : s.ownsOthers obj = true
    · obtain ⟨found, s₁, ran, ⟨cells, cached⟩, reloaded, some', own'⟩ :=
        pcacheFind_spec tended w obj
      cases found with
      | none => exact absurd rfl (some' owns)
      | some pp =>
        obtain ⟨has, _⟩ := own' pp rfl
        let e : PCache := { s₁.pcache pp with money := n, moneyCh := true }
        have entry : (s₁.setEntry pp e).pcache pp = e := update_self ..
        have entries := cached.setEntry_others has e
        have cached' : Cached (s₁.setEntry pp e) cells := cached.setEntry rfl rfl rfl
        refine ⟨s₁.setEntry pp e, ?_, ⟨cells, cached'⟩, fun player ne => ?_,
          fun o ne clean => ?_, reloaded.typeOf, reloaded.dbTop, reloaded.attr,
          fun pp' has' => ?_⟩
        · rw [if_pos owns, ran, bind_eq_bind, bind_some]
          dsimp only
          rw [Game.setMoney, cached.readEntry_eq has]
          rfl
        · intro pp' has'
          have right := reloaded.right (others player ne) pp' has'
          rw [(entries player ne).2 pp' has']
          exact right
        · intro pp' has'
          rw [(entries o ne).2 pp' has']
          exact reloaded.clean clean pp' has'
        · obtain rfl : pp = pp' := some.inj (has.symm.trans has')
          rw [entry]
          exact ⟨fun _ => owns, fun _ => rfl⟩
    · refine ⟨s, if_neg owns, tended, others, fun _ _ => id, rfl, rfl, rfl, fun pp has => ?_⟩
      exact ⟨own pp has, fun owns' => absurd owns' owns⟩
  let s₂ := s₁.store obj .money (printed n)
  have moneyOf : ∀ o, wordOf (s₂.attr o .money) =
      update (fun obj => wordOf (s.attr obj .money)) obj n o := by
    intro o
    rw [show s₂.attr = update s₁.attr obj (update (s₁.attr obj) .money (some (printed n))) from rfl,
      attr]
    by_cases eq : o = obj
    · rw [eq, update_self, update_self, update_self, wordOf_printed]
    · rw [update_of_ne eq, update_of_ne eq]
  refine ⟨s₂, ?_, ⟨tended₁.store _ _ _, fun player => ?_⟩, ?_, fun o ne clean => ?_⟩
  · rw [Game.sPennies, cached₁, bind_eq_bind, bind_some, Game.atrAddRaw,
      if_neg (printed_ne_nil n)]
  · by_cases eq : player = obj
    · subst eq
      intro pp has
      rw [moneyOf, update_self, show s₂.ownsOthers player = s.ownsOthers player by
        rw [Game.ownsOthers, Game.ownsOthers, show s₂.typeOf = s₁.typeOf from rfl, typeOf]]
      exact right₁ pp has
    · refine (others₁ player eq).congr rfl rfl rfl ?_
      rw [moneyOf, update_of_ne eq, attr]
  · rw [ledgerOf, ledgerOf, Ledger.setMoney]
    have limit : (fun o => s₂.attr o .queueMax) = fun o => s.attr o .queueMax := by
      funext o
      rw [show s₂.attr = update s₁.attr obj (update (s₁.attr obj) .money (some (printed n)))
        from rfl, attr]
      by_cases eq : o = obj
      · rw [eq, update_self, update_of_ne (by decide)]
      · rw [update_of_ne eq]
    rw [show s₂.typeOf = s.typeOf from typeOf, show s₂.dbTop = s.dbTop from dbTop, limit,
      funext moneyOf]
  · exact clean₁ o ne clean

end BattletechMux.Money
