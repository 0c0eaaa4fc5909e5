/-
Module: BattletechMux.Money.Flush
Purpose: What writes the cache back or drops entries of it: saving, synchronizing, trimming and
  purging leave the ledger as it is.
-/
import BattletechMux.Money.Coherence

namespace BattletechMux.Money

open List Option

open Function (update update_self update_of_ne)
open LinkedMemory (Chain)

variable {s s' : Game} {w : World} {cells : List Addr} {player obj : Dbref} {pp : Addr}

/-- An entry is saved: the attributes are worth the same, and it is to be written no more. -/
structure Saved (pp : Addr) (s s' : Game) : Prop where
  typeOf : s'.typeOf = s.typeOf
  dbTop : s'.dbTop = s.dbTop
  pcacheHtab : s'.pcacheHtab = s.pcacheHtab
  pcacheHead : s'.pcacheHead = s.pcacheHead
  next : s'.next = s.next
  live : s'.live = s.live
  fresh : s'.fresh = s.fresh
  others : ∀ other, other ≠ pp → s'.pcache other = s.pcache other
  player : (s'.pcache pp).player = (s.pcache pp).player
  dead : (s'.pcache pp).dead = (s.pcache pp).dead
  money : (s'.pcache pp).money = (s.pcache pp).money
  moneyCh : (s'.pcache pp).moneyCh = true → (s.pcache pp).moneyCh = true
  qmaxCh : (s.pcache pp).qmaxCh = false → (s'.pcache pp).qmaxCh = false
  worth : ∀ other, wordOf (s'.attr other .money) = wordOf (s.attr other .money)
  limit : ∀ other, s'.attr other .queueMax = s.attr other .queueMax
  listed : (∀ other atr, s.attr other atr ≠ none → atr ∈ s.attrList other) →
    ∀ other atr, s'.attr other atr ≠ none → atr ∈ s'.attrList other

theorem Saved.refl (pp : Addr) (s : Game) : Saved pp s s :=
  ⟨rfl, rfl, rfl, rfl, rfl, rfl, rfl, fun _ _ => rfl, rfl, rfl, rfl, id, id, fun _ => rfl,
    fun _ => rfl, id⟩

section

variable (saved : Saved pp s s')
include saved

theorem Saved.ledger : ledgerOf s' = ledgerOf s := by
  rw [ledgerOf, ledgerOf, saved.typeOf, saved.dbTop]
  simp only [saved.worth, saved.limit]

theorem Saved.entry (o : Addr) :
    (s'.pcache o).player = (s.pcache o).player ∧
      (s'.pcache o).dead = (s.pcache o).dead ∧
      (s'.pcache o).money = (s.pcache o).money ∧
      ((s'.pcache o).moneyCh = true → (s.pcache o).moneyCh = true) ∧
      ((s.pcache o).qmaxCh = false → (s'.pcache o).qmaxCh = false) := by
  by_cases eq : o = pp
  · subst eq
    exact ⟨saved.player, saved.dead, saved.money, saved.moneyCh, saved.qmaxCh⟩
  · rw [saved.others o eq]
    exact ⟨rfl, rfl, rfl, id, id⟩

theorem Saved.cached (cached : Cached s cells) : Cached s' cells where
  chain := by
    rw [saved.next, saved.pcacheHead]
    exact cached.chain
  live := by
    rw [saved.live]
    exact cached.live
  old := by
    rw [saved.fresh]
    exact cached.old
  found := fun player o => by
    rw [saved.pcacheHtab, (saved.entry o).1, (saved.entry o).2.1]
    exact cached.found player o
  limits := fun o mem => (saved.entry o).2.2.2.2 (cached.limits o mem)
  listed := saved.listed cached.listed
  typed := fun x => by
    rw [Game.ownsOthers, Game.goodObj, saved.typeOf, saved.dbTop]
    exact cached.typed x

theorem Saved.right (right : Right s player) : Right s' player := by
  intro o hf
  rw [saved.pcacheHtab] at hf
  have owns : s'.ownsOthers player = s.ownsOthers player := by
    rw [Game.ownsOthers, Game.ownsOthers, saved.typeOf]
  obtain ⟨_, _, money, moneyCh, _⟩ := saved.entry o
  rw [owns, money, saved.worth]
  exact ⟨fun changed => (right o hf).1 (moneyCh changed), (right o hf).2⟩

theorem Saved.coherent (hc : Coherent s) : Coherent s' := by
  obtain ⟨cells, cached⟩ := hc.tended
  exact ⟨⟨cells, saved.cached cached⟩, fun player => saved.right (hc.right player)⟩

end

theorem pcacheSave_spec (alive : s.live pp = true) (limit : (s.pcache pp).qmaxCh = false)
    (money : (s.pcache pp).dead = false → (s.pcache pp).moneyCh = true →
      (s.pcache pp).money = wordOf (s.attr (s.pcache pp).player .money)) (w : World) :
    ∃ s', s.pcacheSave w pp = some s' ∧ Saved pp s s' := by
  have read : ∀ {t : Game}, t.live pp = true → t.readEntry pp = some (t.pcache pp) :=
    fun alive => if_pos alive
  rw [Game.pcacheSave, read alive, bind_eq_bind, bind_some]
  by_cases dead : (s.pcache pp).dead = true
  · rw [if_pos dead]
    exact ⟨s, rfl, Saved.refl pp s⟩
  have alive' := eq_false_of_ne_true dead
  rw [if_neg dead]
  -- the money is written, and is worth what it was
  obtain ⟨s₁, wrote, pcache, saved⟩ : ∃ s₁, s.saveMoney w (s.pcache pp) = some s₁ ∧
      s₁.pcache = s.pcache ∧ Saved pp s s₁ := by
    rw [Game.saveMoney]
    by_cases changed : (s.pcache pp).moneyCh = true
    · rw [if_pos changed, Game.atrAddRaw, if_neg (printed_ne_nil _)]
      refine ⟨_, rfl, rfl, rfl, rfl, rfl, rfl, rfl, rfl, rfl, fun _ _ => rfl, rfl, rfl, rfl, id,
        id, fun o => ?_, fun o => ?_, fun listed o atr stored => ?_⟩
      · rw [Game.store]
        dsimp only
        by_cases eq : o = (s.pcache pp).player
        · rw [eq, update_self, update_self, wordOf_printed,
            money alive' changed]
        · rw [update_of_ne eq]
      · rw [Game.store]
        dsimp only
        by_cases eq : o = (s.pcache pp).player
        · rw [eq, update_self, update_of_ne (by decide)]
        · rw [update_of_ne eq]
      · rw [Game.store] at stored ⊢
        dsimp only at stored ⊢
        by_cases eq : o = (s.pcache pp).player
        · rw [eq, update_self] at stored
          have either : atr = .money ∨ s.attr (s.pcache pp).player atr ≠ none := by
            by_cases is : atr = .money
            · exact Or.inl is
            · rw [update_of_ne is] at stored
              exact Or.inr stored
          rw [eq]
          split
          · rename_i already
            exact either.elim (fun is => is ▸ already) (listed _ atr)
          · rw [update_self]
            exact either.elim (fun is => is ▸ mem_append_right _ mem_cons_self)
              fun some' => mem_append_left _ (listed _ atr some')
        · rw [update_of_ne eq] at stored
          have mem := listed o atr stored
          split
          · exact mem
          · rwa [update_of_ne eq]
    · exact ⟨s, if_neg changed, rfl, Saved.refl pp s⟩
  let e : PCache := { s.pcache pp with moneyCh := false, qmaxCh := false }
  have entry : (s₁.setEntry pp e).pcache pp = e := update_self ..
  have alive₁ : s₁.live pp = true := by rw [saved.live]; exact alive
  refine ⟨s₁.setEntry pp e, ?_, saved.typeOf, saved.dbTop, saved.pcacheHtab, saved.pcacheHead,
    saved.next, saved.live, saved.fresh, fun o ne => ?_, ?_, ?_, ?_, ?_, ?_,
    saved.worth, saved.limit, saved.listed⟩
  · simp only [wrote, Game.saveQmax, limit, Bool.false_eq_true, if_false, read alive₁, pcache,
      bind_eq_bind, bind_some]
    rfl
  · exact (update_of_ne ne ..).trans (congrFun pcache o)
  · rw [entry]
  · rw [entry]
  · rw [entry]
  · intro changed
    rw [entry] at changed
    cases changed
  · intro _
    rw [entry]

theorem Coherent.pcacheSave (hc : Coherent s) (cached : Cached s cells)
    (mem : pp ∈ cells) (w : World) : ∃ s', s.pcacheSave w pp = some s' ∧ Saved pp s s' := by
  refine pcacheSave_spec (cached.live pp mem) (cached.limits pp mem) (fun dead changed => ?_) w
  have hf := (cached.found _ pp).mpr ⟨mem, rfl, dead⟩
  have right := hc.right _ pp hf
  exact right.2 (right.1 changed)

theorem pcacheSync_spec (hc : Coherent s) (w : World) :
    ∃ s', s.pcacheSync w = some s' ∧ Coherent s' ∧ ledgerOf s' = ledgerOf s := by
  have loop : ∀ (limit : Nat) (rest done : List Addr) (s : Game) (start : Option Addr),
      Coherent s → Cached s (done ++ rest) → Chain s.next start rest → rest.length < limit →
      ∃ s', Game.syncLoop w limit start s = some s' ∧ Coherent s' ∧ ledgerOf s' = ledgerOf s := by
    intro limit rest
    induction rest generalizing limit with
    | nil =>
      intro done s start hc _ chain hlt
      obtain ⟨limit, rfl⟩ := Nat.exists_eq_succ_of_ne_zero (Nat.ne_of_gt hlt)
      rw [LinkedMemory.chain_nil.mp chain]
      exact ⟨s, rfl, hc, rfl⟩
    | cons pp rest ih =>
      intro done s start hc cached chain hlt
      obtain ⟨limit, rfl⟩ := Nat.exists_eq_succ_of_ne_zero
        (Nat.ne_of_gt (Nat.zero_lt_of_lt hlt))
      obtain ⟨rfl, chain⟩ := chain
      obtain ⟨s₁, saved, eq⟩ := hc.pcacheSave cached
        (mem_append_right done mem_cons_self) w
      obtain ⟨s', ran, hc', ledger⟩ := ih limit (done ++ [pp]) s₁
        (s₁.next pp) (eq.coherent hc)
        (eq.cached (by rw [append_assoc]; exact cached))
        (by rw [eq.next]; exact chain) (Nat.lt_of_succ_lt_succ hlt)
      refine ⟨s', ?_, hc', ledger.trans eq.ledger⟩
      rw [Game.syncLoop, saved]
      exact ran
  obtain ⟨cells, cached⟩ := hc.tended
  refine loop (s.fresh + 1) cells [] s s.pcacheHead hc cached cached.chain ?_
  exact Nat.lt_succ_of_le (LinkedMemory.length_le_of_lt cached.chain.nodup cached.old)

/-! ## Trimming -/

theorem unlinkEntry_spec {done rest : List Addr} (cached : Cached s (done ++ pp :: rest)) :
    ∃ next head, s.unlinkEntry done.getLast? pp = some { s with next := next, pcacheHead := head } ∧
      Chain next head (done ++ rest) ∧ s.next pp = rest.head? ∧
      Chain next (s.next pp) rest := by
  have following : Chain s.next (s.next pp) rest := cached.chain.next_eq_head
  rcases eq_nil_or_concat done with rfl | ⟨front, last, rfl⟩
  · exact ⟨s.next, s.next pp, rfl, following, following.head_eq, following⟩
  · rw [concat_eq_append] at cached ⊢
    have chain := cached.chain
    rw [append_assoc, singleton_append] at chain
    have outside : last ∉ rest := by
      have nodup := (nodup_append.mp chain.nodup).2.1
      intro mem
      exact (nodup_cons.mp nodup).1 (mem_cons_of_mem pp mem)
    refine ⟨update s.next last (s.next pp), s.pcacheHead, ?_, ?_, following.head_eq,
      following.update_of_notMem outside⟩
    · rw [getLast?_concat, Game.unlinkEntry,
        if_pos (cached.live last (by simp))]
    · rw [append_assoc, singleton_append]
      exact chain.skip

theorem dropEntry_spec (hc : Coherent s) {done rest : List Addr}
    (cached : Cached s (done ++ pp :: rest)) (w : World) :
    ∃ s₁ s₂, s.unlinkEntry done.getLast? pp = some s₁ ∧
      s₁.retire w (s.pcache pp) pp = some s₂ ∧ Coherent (s₂.freeEntry pp) ∧
      Cached (s₂.freeEntry pp) (done ++ rest) ∧ ledgerOf (s₂.freeEntry pp) = ledgerOf s ∧
      Chain (s₂.freeEntry pp).next (s.next pp) rest := by
  obtain ⟨next, head, unlinked, chain, _, later⟩ := unlinkEntry_spec cached
  let s₁ : Game := { s with next := next, pcacheHead := head }
  have mem : pp ∈ done ++ pp :: rest := mem_append_right _ mem_cons_self
  have fewer : ∀ {q}, q ∈ done ++ rest ↔ q ∈ done ++ pp :: rest ∧ q ≠ pp := by
    intro q
    have outside : pp ∉ done ++ rest := (nodup_middle.mp cached.chain.nodup).notMem
    constructor
    · intro hin
      refine ⟨?_, fun eq => outside (eq ▸ hin)⟩
      rcases mem_append.mp hin with earlier | later
      · exact mem_append_left _ earlier
      · exact mem_append_right _ (mem_cons_of_mem pp later)
    · rintro ⟨hin, ne⟩
      simpa [ne] using hin
  have hf : (s.pcache pp).dead = false → s.pcacheHtab (s.pcache pp).player = some pp :=
    fun dead => (cached.found _ pp).mpr ⟨mem, rfl, dead⟩
  -- what is left of the hash table finds the other entries
  obtain ⟨s₂, retired, saved, htab⟩ : ∃ s₂, s₁.retire w (s.pcache pp) pp = some s₂ ∧
      Saved pp s₁ { s₂ with pcacheHtab := s.pcacheHtab } ∧
      ∀ player q, s₂.pcacheHtab player = some q ↔ s.pcacheHtab player = some q ∧ q ≠ pp := by
    rw [Game.retire]
    by_cases dead : (s.pcache pp).dead = true
    · refine ⟨s₁, if_pos dead, Saved.refl pp s₁, fun player q => ?_⟩
      rw [show s₁.pcacheHtab = s.pcacheHtab from rfl]
      refine ⟨fun hf => ⟨hf, fun eq => ?_⟩, And.left⟩
      have alive := ((cached.found player q).mp hf).2.2
      rw [eq, dead] at alive
      cases alive
    · have alive := eq_false_of_ne_true dead
      have right := hc.right _ pp (hf alive)
      obtain ⟨s₂, ran, saved⟩ := pcacheSave_spec (s := s₁) (cached.live pp mem)
        (cached.limits pp mem) (fun _ changed => right.2 (right.1 changed)) w
      refine ⟨s₂.nhashdelete (s.pcache pp).player, ?_, ?_, fun player q => ?_⟩
      · rw [if_neg dead, ran]
        rfl
      · have eq : ({ s₂.nhashdelete (s.pcache pp).player with pcacheHtab := s.pcacheHtab } : Game) =
            s₂ := by
          rw [Game.nhashdelete, ← show s₂.pcacheHtab = s.pcacheHtab from saved.pcacheHtab]
        rw [eq]
        exact saved
      · rw [Game.nhashdelete, show s₂.pcacheHtab = s.pcacheHtab from saved.pcacheHtab]
        dsimp only
        by_cases own : player = (s.pcache pp).player
        · rw [own, update_self]
          refine iff_of_false (fun absurd => nomatch absurd) fun is => is.2 ?_
          exact some.inj (is.1.symm.trans (hf alive))
        · rw [update_of_ne own]
          refine ⟨fun is => ⟨is, fun eq => own ?_⟩, And.left⟩
          exact ((cached.found player q).mp is).2.1.symm.trans (congrArg _ (congrArg _ eq))
  have cached' : Cached (s₂.freeEntry pp) (done ++ rest) := by
    refine ⟨?_, fun q hin => ?_, fun q hin => ?_, fun player q => ?_, fun q hin => ?_,
      saved.listed cached.listed, fun x => ?_⟩
    · rw [show (s₂.freeEntry pp).next = next from saved.next,
        show (s₂.freeEntry pp).pcacheHead = head from saved.pcacheHead]
      exact chain
    · obtain ⟨hin, ne⟩ := fewer.mp hin
      rw [show (s₂.freeEntry pp).live = update s₂.live pp false from rfl,
        update_of_ne ne, show s₂.live = s.live from saved.live]
      exact cached.live q hin
    · rw [show (s₂.freeEntry pp).fresh = s.fresh from saved.fresh]
      exact cached.old q (fewer.mp hin).1
    · rw [show (s₂.freeEntry pp).pcacheHtab = s₂.pcacheHtab from rfl, htab, cached.found player q,
        fewer]
      constructor
      · rintro ⟨⟨hin, is⟩, ne⟩
        refine ⟨⟨hin, ne⟩, ?_⟩
        rwa [show (s₂.freeEntry pp).pcache q = s.pcache q from saved.others q ne]
      · rintro ⟨⟨hin, ne⟩, is⟩
        rw [show (s₂.freeEntry pp).pcache q = s.pcache q from saved.others q ne] at is
        exact ⟨⟨hin, is⟩, ne⟩
    · obtain ⟨hin, ne⟩ := fewer.mp hin
      rw [show (s₂.freeEntry pp).pcache q = s.pcache q from saved.others q ne]
      exact cached.limits q hin
    · rw [Game.ownsOthers, Game.goodObj, show (s₂.freeEntry pp).typeOf = s.typeOf from saved.typeOf,
        show (s₂.freeEntry pp).dbTop = s.dbTop from saved.dbTop]
      exact cached.typed x
  refine ⟨s₁, s₂, unlinked, retired, ⟨⟨_, cached'⟩, fun player q hin => ?_⟩, cached',
    saved.ledger, ?_⟩
  · obtain ⟨hin, ne⟩ := (htab player q).mp hin
    have worth : wordOf (s₂.attr player .money) = wordOf (s.attr player .money) :=
      saved.worth player
    rw [Game.ownsOthers, show (s₂.freeEntry pp).typeOf = s.typeOf from saved.typeOf,
      show (s₂.freeEntry pp).pcache q = s.pcache q from saved.others q ne,
      show (s₂.freeEntry pp).attr = s₂.attr from rfl, worth]
    exact hc.right player q hin
  · rw [show (s₂.freeEntry pp).next = next from saved.next]
    exact later

theorem pcacheTrim_spec (hc : Coherent s) (w : World) :
    ∃ s', s.pcacheTrim w = some s' ∧ Coherent s' ∧ ledgerOf s' = ledgerOf s := by
  have loop : ∀ (limit : Nat) (rest done : List Addr) (s : Game) (start : Option Addr),
      Coherent s → Cached s (done ++ rest) → Chain s.next start rest → rest.length < limit →
      ∃ s', Game.trimLoop w limit done.getLast? start s = some s' ∧ Coherent s' ∧
        ledgerOf s' = ledgerOf s := by
    intro limit rest
    induction rest generalizing limit with
    | nil =>
      intro done s start hc _ chain hlt
      obtain ⟨limit, rfl⟩ := Nat.exists_eq_succ_of_ne_zero (Nat.ne_of_gt hlt)
      rw [LinkedMemory.chain_nil.mp chain]
      exact ⟨s, rfl, hc, rfl⟩
    | cons pp rest ih =>
      intro done s start hc cached chain hlt
      obtain ⟨limit, rfl⟩ := Nat.exists_eq_succ_of_ne_zero
        (Nat.ne_of_gt (Nat.zero_lt_of_lt hlt))
      obtain ⟨rfl, chain⟩ := chain
      have hlt' : rest.length < limit := Nat.lt_of_succ_lt_succ hlt
      have mem : pp ∈ done ++ pp :: rest := mem_append_right _ mem_cons_self
      have read : s.readEntry pp = some (s.pcache pp) := if_pos (cached.live pp mem)
      rw [Game.trimLoop, read, bind_eq_bind, bind_some]
      by_cases needed :
          (!(s.pcache pp).dead && ((s.pcache pp).queue ≠ 0 || (s.pcache pp).ref)) = true
      · -- the entry stays
        let e : PCache := { s.pcache pp with ref := false }
        have alive : (s.pcache pp).dead = false := by
          cases dead : (s.pcache pp).dead with
          | false => rfl
          | true => simp [dead] at needed
        have hf := (cached.found _ pp).mpr ⟨mem, rfl, alive⟩
        have cached' : Cached (s.setEntry pp e) (done ++ pp :: rest) :=
          cached.setEntry rfl rfl rfl
        have reloaded : Reloaded (s.pcache pp).player s (s.setEntry pp e) :=
          cached.reloaded hf (Or.inl rfl) rfl
        obtain ⟨s', ran, hc', ledger⟩ := ih limit (done ++ [pp])
          (s.setEntry pp e) (s.next pp) (reloaded.coherent hc ⟨_, cached'⟩)
          (by rw [append_assoc]; exact cached') chain hlt'
        rw [getLast?_concat] at ran
        exact ⟨s', (if_pos needed).trans ran, hc', ledger.trans reloaded.ledger⟩
      · obtain ⟨s₁, s₂, unlinked, retired, coherent₂, cached₂, ledger₂, chain₂⟩ :=
          dropEntry_spec hc cached w
        obtain ⟨s', ran, hc', ledger⟩ := ih limit done
          (s₂.freeEntry pp) (s.next pp) coherent₂ cached₂ chain₂ hlt'
        refine ⟨s', ?_, hc', ledger.trans ledger₂⟩
        rw [if_neg needed]
        simp only [unlinked, retired, bind_eq_bind, bind_some]
        exact ran
  obtain ⟨cells, cached⟩ := hc.tended
  refine loop (s.fresh + 1) cells [] s s.pcacheHead hc cached cached.chain ?_
  exact Nat.lt_succ_of_le (LinkedMemory.length_le_of_lt cached.chain.nodup cached.old)

/-! ## Purging -/

theorem pcachePurge_spec (hc : Coherent s) (player : Dbref) :
    ∃ s', s.pcachePurge player = some s' ∧ Coherent s' ∧ ledgerOf s' = ledgerOf s := by
  rw [Game.pcachePurge]
  cases has : s.pcacheHtab player with
  | none => exact ⟨s, rfl, hc, rfl⟩
  | some pp =>
    obtain ⟨cells, cached⟩ := hc.tended
    obtain ⟨mem, own, alive⟩ := (cached.found player pp).mp has
    let e : PCache :=
      { s.pcache pp with dead := true, ref := false, moneyCh := false, qmaxCh := false }
    have entry : (s.setEntry pp e).pcache pp = e := update_self ..
    let s' := (s.setEntry pp e).nhashdelete player
    have htab : ∀ o q, s'.pcacheHtab o = some q ↔
        s.pcacheHtab o = some q ∧ q ≠ pp := by
      intro o q
      rw [show s'.pcacheHtab = update s.pcacheHtab player none from rfl]
      by_cases eq : o = player
      · rw [eq, update_self]
        refine iff_of_false (fun absurd => nomatch absurd) fun is => is.2 ?_
        exact some.inj (is.1.symm.trans has)
      · rw [update_of_ne eq]
        refine ⟨fun hf => ⟨hf, fun is => eq (cached.htab_inj hf (is ▸ has))⟩, And.left⟩
    have others : ∀ q, q ≠ pp → s'.pcache q = s.pcache q := fun q ne =>
      update_of_ne ne ..
    have cached' : Cached s' cells := by
      refine ⟨cached.chain, cached.live, cached.old, fun o q => ?_, fun q hin => ?_,
        cached.listed, cached.typed⟩
      · rw [htab]
        by_cases eq : q = pp
        · refine iff_of_false (fun is => is.2 eq) fun is => ?_
          have dead := is.2.2
          rw [eq, show s'.pcache pp = e from entry] at dead
          cases dead
        · rw [others q eq, cached.found o q]
          exact ⟨And.left, fun is => ⟨is, eq⟩⟩
      · by_cases eq : q = pp
        · rw [eq, show s'.pcache pp = e from entry]
        · rw [others q eq]
          exact cached.limits q hin
    refine ⟨s', ?_, ⟨⟨cells, cached'⟩, fun o q hf => ?_⟩, rfl⟩
    · dsimp only
      rw [cached.readEntry_eq has, bind_eq_bind, bind_some]
      exact congrArg (fun player => some ((s.setEntry pp e).nhashdelete player)) own
    · obtain ⟨hf, ne⟩ := (htab o q).mp hf
      rw [others q ne]
      exact hc.right o q hf

/-! ## Freeing the attributes of an object -/

theorem Fair.delete (fair : Fair obj s) (atr : Attr) : Fair obj (s.delete obj atr) where
  tended := fair.tended.delete obj atr
  right := fun player ne => (fair.right player ne).congr rfl rfl rfl (by
    rw [Game.delete]
    dsimp only
    rw [update_of_ne ne])
  clean := fair.clean

theorem atrClr_spec (fair : Fair obj s) (w : World) (atr : Attr) :
    ∃ s', s.atrClr w obj atr = some s' ∧ Fair obj s' ∧ s'.typeOf = s.typeOf ∧
      s'.dbTop = s.dbTop ∧ s'.attr = update s.attr obj (update (s.attr obj) atr none) := by
  have fair' := fair.delete atr
  cases atr with
  | money => exact ⟨_, rfl, fair', rfl, rfl, rfl⟩
  | queueMax =>
    obtain ⟨s', ran, tended, reloaded⟩ := pcacheReload_spec fair'.tended w obj
    exact ⟨s', ran, reloaded.fair fair' tended, reloaded.typeOf, reloaded.dbTop, reloaded.attr⟩

theorem atrFree_spec (fair : Fair obj s) (w : World) :
    ∃ s', s.atrFree w obj = some s' ∧ Fair obj s' ∧ s'.typeOf = s.typeOf ∧ s'.dbTop = s.dbTop ∧
      s'.attr = update s.attr obj fun _ => none := by
  have loop : ∀ (list : List Attr) (s : Game), Fair obj s →
      ∃ s', Game.clearAll w obj list s = some s' ∧ Fair obj s' ∧ s'.typeOf = s.typeOf ∧
        s'.dbTop = s.dbTop ∧ (∀ o, o ≠ obj → s'.attr o = s.attr o) ∧
        ∀ atr, s'.attr obj atr ≠ none → s.attr obj atr ≠ none ∧ atr ∉ list := by
    intro list
    induction list with
    | nil => exact fun s fair => ⟨s, rfl, fair, rfl, rfl, fun _ _ => rfl,
        fun _ stored => ⟨stored, not_mem_nil⟩⟩
    | cons atr later ih =>
      intro s fair
      obtain ⟨s₁, cleared, fair₁, typeOf, dbTop, attr⟩ := atrClr_spec fair w atr
      obtain ⟨s', ran, fair', typeOf', dbTop', others, left'⟩ := ih s₁ fair₁
      refine ⟨s', ?_, fair', typeOf'.trans typeOf, dbTop'.trans dbTop,
        fun o ne => ?_, fun o stored => ?_⟩
      · rw [Game.clearAll, cleared]
        exact ran
      · rw [others o ne, attr, update_of_ne ne]
      · obtain ⟨pre, notLater⟩ := left' o stored
        rw [attr, update_self] at pre
        by_cases eq : o = atr
        · rw [eq, update_self] at pre
          exact absurd rfl pre
        · rw [update_of_ne eq] at pre
          refine ⟨pre, ?_⟩
          rw [mem_cons, not_or]
          exact ⟨eq, notLater⟩
  obtain ⟨cells, cached⟩ := fair.tended
  obtain ⟨s₁, ran, fair₁, typeOf, dbTop, others, left'⟩ := loop (s.attrList obj) s fair
  have none' : ∀ atr, s₁.attr obj atr = none := by
    intro atr
    by_contra stored
    obtain ⟨pre, notListed⟩ := left' atr stored
    exact notListed (cached.listed obj atr pre)
  obtain ⟨cells₁, cached₁⟩ := fair₁.tended
  refine ⟨{ s₁ with attrList := update s₁.attrList obj [] }, ?_, ⟨⟨cells₁, cached₁.chain,
    cached₁.live, cached₁.old, cached₁.found, cached₁.limits, fun o atr stored => ?_,
    cached₁.typed⟩, fair₁.right, fair₁.clean⟩, typeOf, dbTop, ?_⟩
  · rw [Game.atrFree, ran]
    rfl
  · dsimp only at stored ⊢
    by_cases eq : o = obj
    · rw [eq, none' atr] at stored
      exact absurd rfl stored
    · rw [update_of_ne eq]
      exact cached₁.listed o atr stored
  · funext o
    by_cases eq : o = obj
    · rw [eq, update_self]
      exact funext none'
    · rw [update_of_ne eq]
      exact others o eq

end BattletechMux.Money
