/-
Module: BattletechMux.Postal.Shelves
Purpose: The invariant of the mail system, of its mailboxes and, where it is wanted, of the counts
  of the texts, and what the functions of the table of texts, of a new mail and of a mail that is
  removed do to it.
-/
import BattletechMux.Foundation.Tally
import BattletechMux.Postal.Letters

namespace BattletechMux.Postal

open List Option

open Function (update update_self update_of_ne)
open Tally (tally tally_congr tally_succ tally_lose tally_pos)

def uses (s : Post) (i : Nat) (mp : Addr) : Bool := s.live mp && decide ((s.mail mp).number = i)

/-- The mailboxes, and with `strict` the counts and the texts; `sent` has the text that was
sent in a mail. -/
structure Holds (strict : Prop) (s : Post) (boxes : Dbref → List Addr) (sent : Addr → Text) :
    Prop where
  linked : Linked s boxes
  sentTo : ∀ player, ∀ mp ∈ boxes player, (s.mail mp).envelope.sentTo = player
  placed : ∀ mp, s.live mp = true → mp ∈ boxes (s.mail mp).envelope.sentTo
  inOrder : ∀ player, (boxes player).Pairwise (· < ·)
  fresh : ∀ mp, s.fresh ≤ mp → s.live mp = false
  numbers : ∀ mp, s.live mp = true →
    0 ≤ (s.mail mp).number ∧ (s.mail mp).number < s.mailDbTop
  freelist : s.mailFreelist < s.mailDbTop ∨ s.mailDbSize = 0 ∧ s.mailFreelist = 0
  size : s.mailDbTop ≤ s.mailDbSize
  counts : strict → ∀ i < s.mailDbTop, (s.mailList i).count = tally (uses s i) s.fresh
  texts : strict → ∀ mp, s.live mp = true →
    (s.mailList (s.mail mp).number.toNat).message = some (sent mp)

/-- A number that a mail may have: its slot is there and has the text. -/
structure Ready (strict : Prop) (s : Post) (number : Int) (text : Text) : Prop where
  low : 0 ≤ number
  high : number < s.mailDbTop
  message : strict → (s.mailList number.toNat).message = some text

structure Reshelved (s s' : Post) : Prop where
  mailHtab : s'.mailHtab = s.mailHtab
  mail : s'.mail = s.mail
  next : s'.next = s.next
  prev : s'.prev = s.prev
  live : s'.live = s.live
  fresh : s'.fresh = s.fresh
  mailDbTop : s.mailDbTop ≤ s'.mailDbTop
  /-- A slot with a text keeps it. -/
  kept : ∀ i < s.mailDbTop, (s.mailList i).message ≠ none → s'.mailList i = s.mailList i

/-- A number that is not in use, of a slot that may be empty. -/
structure Spare (strict : Prop) (s : Post) (number : Int) : Prop where
  low : 0 ≤ number
  high : number < s.mailDbTop
  unused : strict → ∀ mp, s.live mp = true → (s.mail mp).number ≠ number

structure Open (s : Post) : Prop where
  inside : s.mailFreelist < s.mailDbTop
  empty : (s.mailList s.mailFreelist).message = none

/-- Only the mailboxes and the counts change; there is a mail more. -/
structure Delivered (s s' : Post) (m : Mail) : Prop where
  mail : s'.mail = update s.mail s.fresh m
  live : s'.live = update s.live s.fresh true
  fresh : s'.fresh = s.fresh + 1
  mailDbTop : s'.mailDbTop = s.mailDbTop
  mailFreelist : s'.mailFreelist = s.mailFreelist
  messages : ∀ i, (s'.mailList i).message = (s.mailList i).message

theorem Reshelved.refl (s : Post) : Reshelved s s :=
  ⟨rfl, rfl, rfl, rfl, rfl, rfl, Nat.le_refl _, fun _ _ _ => rfl⟩

theorem Reshelved.trans {s s' s'' : Post} (fst : Reshelved s s') (snd : Reshelved s' s'') :
    Reshelved s s'' where
  mailHtab := snd.mailHtab.trans fst.mailHtab
  mail := snd.mail.trans fst.mail
  next := snd.next.trans fst.next
  prev := snd.prev.trans fst.prev
  live := snd.live.trans fst.live
  fresh := snd.fresh.trans fst.fresh
  mailDbTop := Nat.le_trans fst.mailDbTop snd.mailDbTop
  kept := fun i inside some' => by
    have eq := fst.kept i inside some'
    rw [snd.kept i (Nat.lt_of_lt_of_le inside fst.mailDbTop) (by rwa [eq]), eq]

variable {strict : Prop} {s : Post} {boxes : Dbref → List Addr} {sent : Addr → Text}

theorem Linked.congr {s s' : Post} (linked : Linked s boxes) (htab : s'.mailHtab = s.mailHtab)
    (next : s'.next = s.next) (prev : s'.prev = s.prev)
    (live : ∀ mp, s.live mp = true → s'.live mp = true) : Linked s' boxes where
  linked := fun player => by
    rw [next, prev, show s'.nhashfind player = s.nhashfind player by rw [Post.nhashfind, htab]; rfl]
    exact linked.linked player
  live := fun player mp mem => live mp (linked.live player mp mem)
  apart := linked.apart

theorem Ready.reshelved {s s' : Post} {number : Int} {text : Text}
    (ready : Ready strict s number text) (eq : Reshelved s s') : Ready strict s' number text := by
  refine ⟨ready.low, ?_, fun is => ?_⟩
  · have := eq.mailDbTop
    have := ready.high
    omega
  · have message := ready.message is
    have low := ready.low
    have high := ready.high
    rw [eq.kept number.toNat (by omega) (by rw [message]; exact (some_ne_none _)), message]

namespace Holds

theorem slot_eq {number : Int} (low : 0 ≤ number) (high : number < s.mailDbTop) :
    s.slot number = some number.toNat := if_pos ⟨low, high⟩

section

variable (holds : Holds strict s boxes sent)
include holds

theorem reshelve {s' : Post} (eq : Reshelved s s')
    (freelist : s'.mailFreelist < s'.mailDbTop ∨ s'.mailDbSize = 0 ∧ s'.mailFreelist = 0)
    (size : s'.mailDbTop ≤ s'.mailDbSize)
    (counts : strict → ∀ i < s'.mailDbTop, (s'.mailList i).count = tally (uses s i) s.fresh) :
    Holds strict s' boxes sent where
  linked := holds.linked.congr eq.mailHtab eq.next eq.prev fun mp => by
    rw [eq.live]
    exact id
  sentTo := eq.mail ▸ holds.sentTo
  placed := by
    rw [eq.live, eq.mail]
    exact holds.placed
  inOrder := holds.inOrder
  fresh := by
    rw [eq.live, eq.fresh]
    exact holds.fresh
  numbers := fun mp alive => by
    rw [eq.live] at alive
    rw [eq.mail]
    have bounds := holds.numbers mp alive
    have := eq.mailDbTop
    omega
  freelist := freelist
  size := size
  counts := fun is i inside => by
    have same' : uses s' i = uses s i := by
      funext mp
      rw [uses, uses, eq.live, eq.mail]
    rw [same', eq.fresh]
    exact counts is i inside
  texts := fun is mp alive => by
    rw [eq.live] at alive
    rw [eq.mail]
    have message := holds.texts is mp alive
    have bounds := holds.numbers mp alive
    rw [eq.kept _ (by omega) (by rw [message]; exact some_ne_none _), message]

theorem tally_above {i : Nat} (above : s.mailDbTop ≤ i) : tally (uses s i) s.fresh = 0 := by
  rw [tally_congr (show ∀ mp < s.fresh, uses s i mp = (fun _ => false) mp from fun mp _ => ?_)]
  · exact congrFun countP_false _
  · rw [uses]
    cases alive : s.live mp with
    | false => rfl
    | true =>
      have := (holds.numbers mp alive).2
      simp only [Bool.true_and, decide_eq_false_iff_not]
      omega

theorem grow (newtop : Nat) :
    Holds strict (s.mailDbGrow newtop) boxes sent ∧ Reshelved s (s.mailDbGrow newtop) ∧
      newtop ≤ (s.mailDbGrow newtop).mailDbTop ∧
      (s.mailDbGrow newtop).mailFreelist = s.mailFreelist := by
  rw [Post.mailDbGrow]
  split
  · rename_i hlt
    exact ⟨holds, Reshelved.refl s, hlt, rfl⟩
  · rename_i more
    have eq : Reshelved s (s.mailDbGrow newtop) := by
      rw [Post.mailDbGrow, if_neg more]
      refine ⟨rfl, rfl, rfl, rfl, rfl, rfl, by dsimp only; omega, fun i inside _ => ?_⟩
      exact if_neg (by omega)
    rw [Post.mailDbGrow, if_neg more] at eq
    refine ⟨holds.reshelve eq ?_ ?_ fun is i inside => ?_, eq, Nat.le_refl _, rfl⟩
    · have := holds.freelist
      dsimp only
      omega
    · dsimp only
      split
      · assumption
      · split <;> omega
    · dsimp only at inside ⊢
      by_cases old : i < s.mailDbTop
      · rw [if_neg (by omega)]
        exact holds.counts is i old
      · rw [if_pos (by omega), holds.tally_above (by omega)]
        rfl

theorem setEntry {i : Nat} {e : MailEntry}
    (count : strict → i < s.mailDbTop → e.count = tally (uses s i) s.fresh)
    (text : strict → ∀ mp, s.live mp = true → (s.mail mp).number.toNat = i →
      e.message = some (sent mp)) : Holds strict (s.setEntry i e) boxes sent where
  linked := holds.linked.congr rfl rfl rfl fun _ => id
  sentTo := holds.sentTo
  placed := holds.placed
  inOrder := holds.inOrder
  fresh := holds.fresh
  numbers := holds.numbers
  freelist := holds.freelist
  size := holds.size
  counts := fun is j inside => by
    by_cases eq : j = i
    · subst eq
      exact (congrArg MailEntry.count (update_self ..)).trans (count is inside)
    · exact (congrArg MailEntry.count (update_of_ne eq ..)).trans
        (holds.counts is j inside)
  texts := fun is mp alive => by
    by_cases eq : (s.mail mp).number.toNat = i
    · refine (congrArg MailEntry.message ?_).trans (text is mp alive eq)
      exact eq ▸ update_self ..
    · exact (congrArg MailEntry.message (update_of_ne eq ..)).trans
        (holds.texts is mp alive)

theorem deleteSpare {number : Int} (spare : Spare strict s number) :
    ∃ e, s.deleteMailMessage number = some (s.setEntry number.toNat e) ∧
      Holds strict (s.setEntry number.toNat e) boxes sent := by
  rw [Post.deleteMailMessage, slot_eq spare.low spare.high]
  refine ⟨_, rfl, holds.setEntry (fun is inside => ?_) fun is mp alive eq => ?_⟩
  · have none' : tally (uses s number.toNat) s.fresh = 0 := by
      rw [tally_congr (show ∀ mp < s.fresh, uses s number.toNat mp = (fun _ => false) mp
        from fun mp _ => ?_)]
      · exact congrFun countP_false _
      · rw [uses]
        cases alive : s.live mp with
        | false => rfl
        | true =>
          have := spare.unused is mp alive
          have := spare.low
          simp only [Bool.true_and, decide_eq_false_iff_not]
          omega
    rw [holds.counts is _ inside, none', if_pos (by decide)]
    rfl
  · have := spare.unused is mp alive
    have := (holds.numbers mp alive).1
    have := spare.low
    omega

end

theorem firstEmpty_spec {slots i j : Nat} (hf : s.firstEmpty slots i = some j) :
    j < i + slots ∧ (s.mailList j).message = none := by
  induction slots generalizing i with
  | zero => cases hf
  | succ slots ih =>
    rw [Post.firstEmpty] at hf
    split at hf
    · cases hf
      exact ⟨by omega, by assumption⟩
    · have later := ih hf
      exact ⟨by omega, later.2⟩

section

variable (holds : Holds strict s boxes sent)
include holds

theorem makeMailFreelist_spec :
    Holds strict s.makeMailFreelist boxes sent ∧ Reshelved s s.makeMailFreelist ∧
      Open s.makeMailFreelist := by
  rw [Post.makeMailFreelist]
  cases hf : s.firstEmpty s.mailDbTop 0 with
  | some i =>
    obtain ⟨inside, empty⟩ := firstEmpty_spec hf
    rw [Nat.zero_add] at inside
    have eq : Reshelved s { s with mailFreelist := i } :=
      ⟨rfl, rfl, rfl, rfl, rfl, rfl, Nat.le_refl _, fun _ _ _ => rfl⟩
    exact ⟨holds.reshelve eq (Or.inl inside) holds.size holds.counts, eq, inside, empty⟩
  | none =>
    obtain ⟨grown, eq, top, _⟩ := holds.grow (s.mailDbTop + 1)
    have same' : Reshelved s { s.mailDbGrow (s.mailDbTop + 1) with mailFreelist := s.mailDbTop } :=
      ⟨eq.mailHtab, eq.mail, eq.next, eq.prev, eq.live, eq.fresh, eq.mailDbTop,
        eq.kept⟩
    refine ⟨holds.reshelve same' (Or.inl top) grown.size fun is i inside => ?_, same', top, ?_⟩
    · have counts := grown.counts is i inside
      have same'' : uses (s.mailDbGrow (s.mailDbTop + 1)) i = uses s i := by
        funext mp
        rw [uses, uses, eq.live, eq.mail]
      rwa [same'', eq.fresh] at counts
    · dsimp only
      rw [Post.mailDbGrow, if_neg (by omega)]
      exact congrArg MailEntry.message (if_pos ⟨Nat.le_refl _, Nat.lt_succ_self _⟩)

theorem skipUsed_spec (inside : s.mailFreelist < s.mailDbTop) :
    ∃ s', Post.skipUsed 2 s = some s' ∧ Holds strict s' boxes sent ∧ Reshelved s s' ∧ Open s' ∧
      ((s.mailList s.mailFreelist).message = none → s' = s) := by
  have slot : ∀ {t : Post}, t.mailFreelist < t.mailDbTop →
      t.slot t.mailFreelist = some t.mailFreelist := fun inside =>
    (slot_eq (Int.natCast_nonneg _) (Int.ofNat_lt.mpr inside)).trans rfl
  rw [Post.skipUsed, slot inside, bind_eq_bind, bind_some]
  by_cases empty : (s.mailList s.mailFreelist).message = none
  · rw [if_pos empty]
    exact ⟨s, rfl, holds, Reshelved.refl s, ⟨inside, empty⟩, fun _ => rfl⟩
  · rw [if_neg empty]
    obtain ⟨kept, eq, open'⟩ := holds.makeMailFreelist_spec
    rw [Post.skipUsed, slot open'.inside, bind_eq_bind, bind_some,
      if_pos open'.empty]
    exact ⟨_, rfl, kept, eq, open', fun none' => absurd none' empty⟩

theorem fill (open' : Open s) (text : Text) : let s' := (s.setEntry s.mailFreelist
      { s.mailList s.mailFreelist with message := some text }).makeMailFreelist
    Holds strict s' boxes sent ∧ Reshelved s s' ∧ Open s' ∧ Ready strict s' s.mailFreelist text ∧
      Spare strict s' s.mailFreelist ∧ s'.mailFreelist ≠ s.mailFreelist := by
  intro s'
  have unused : strict → ∀ mp, s.live mp = true → (s.mail mp).number ≠ s.mailFreelist := by
    intro is mp alive eq
    have message := holds.texts is mp alive
    rw [eq, Int.toNat_natCast, open'.empty] at message
    cases message
  have filled : Holds strict (s.setEntry s.mailFreelist
      { s.mailList s.mailFreelist with message := some text }) boxes sent := by
    refine holds.setEntry (fun is inside => holds.counts is _ inside) fun is mp alive eq => ?_
    have := unused is mp alive
    have := (holds.numbers mp alive).1
    omega
  have written : Reshelved s (s.setEntry s.mailFreelist
      { s.mailList s.mailFreelist with message := some text }) := by
    refine ⟨rfl, rfl, rfl, rfl, rfl, rfl, Nat.le_refl _, fun i _ some' => ?_⟩
    refine update_of_ne (fun eq => some' ?_) ..
    rw [eq]
    exact open'.empty
  have message : ((s.setEntry s.mailFreelist
      { s.mailList s.mailFreelist with message := some text }).mailList s.mailFreelist).message =
      some text :=
    (congrArg MailEntry.message (update_self ..)).trans rfl
  obtain ⟨kept, eq, free⟩ := filled.makeMailFreelist_spec
  have there : (s'.mailList s.mailFreelist).message = some text := by
    refine (congrArg MailEntry.message (eq.kept _ open'.inside ?_)).trans message
    rw [message]
    exact some_ne_none _
  have high : (s.mailFreelist : Int) < s'.mailDbTop :=
    Int.ofNat_lt.mpr (Nat.lt_of_lt_of_le open'.inside eq.mailDbTop)
  refine ⟨kept, written.trans eq, free, ⟨Int.natCast_nonneg _, high, fun _ => there⟩,
    ⟨Int.natCast_nonneg _, high, fun is mp alive => ?_⟩, fun is => ?_⟩
  · rw [eq.live] at alive
    rw [eq.mail]
    exact unused is mp alive
  · have empty := free.empty
    rw [show s'.mailFreelist = s.mailFreelist from is, there] at empty
    cases empty

theorem addMailMessage_spec (w : World) (player : Dbref)
    {message : Text} (clear : Post.isClear message = false) :
    ∃ number s', s.addMailMessage w player message = some (number, s') ∧
      Holds strict s' boxes sent ∧ Reshelved s s' ∧ Open s' ∧
      Ready strict s' number (w.evaluate player message) ∧ Spare strict s' number ∧
      (s'.mailFreelist : Int) ≠ number ∧ (Open s → number = s.mailFreelist) ∧
      (strict → ∀ o text, Ready strict s o text → o ≠ number) := by
  obtain ⟨s₁, started, holds₁, same₁, inside, already⟩ : ∃ s₁,
      (if s.mailDbSize = 0 then s.mailDbGrow 1 else s) = s₁ ∧ Holds strict s₁ boxes sent ∧
      Reshelved s s₁ ∧ s₁.mailFreelist < s₁.mailDbTop ∧ (Open s → s₁ = s) := by
    have freelist := holds.freelist
    have size := holds.size
    split
    · obtain ⟨grown, eq, top, fst⟩ := holds.grow 1
      refine ⟨_, rfl, grown, eq, by omega, fun open' => ?_⟩
      have := open'.inside
      omega
    · exact ⟨s, rfl, holds, Reshelved.refl s, by omega, fun _ => rfl⟩
  obtain ⟨s₂, skipped, holds₂, same₂, open₂, unskipped⟩ := holds₁.skipUsed_spec inside
  obtain ⟨holds₃, same₃, open₃, ready, spare, o⟩ :=
    holds₂.fill open₂ (w.evaluate player message)
  refine ⟨s₂.mailFreelist, _, ?_, holds₃, same₁.trans (same₂.trans same₃), open₃, ready, spare,
    fun eq => o (Int.ofNat.inj eq), fun open' => ?_, fun is taken text taking eq => ?_⟩
  · rw [Post.addMailMessage, if_neg (by simp [clear]), started]
    simp only [skipped, bind_eq_bind, bind_some]
  · have was := already open'
    subst was
    rw [unskipped open'.empty]
  · have message := (taking.reshelved (same₁.trans same₂)).message is
    rw [eq, Int.toNat_natCast, open₂.empty] at message
    cases message

end

/-! ## Mails that come and go -/

theorem insertMail_spec (holds : Holds strict s boxes sent) {m : Mail} {text : Text}
    (ready : Ready strict s m.number text) :
    ∃ s', s.insertMail m = some s' ∧ Delivered s s' m ∧
      Holds strict s' (update boxes m.envelope.sentTo (boxes m.envelope.sentTo ++ [s.fresh]))
        (update sent s.fresh text) := by
  let i := m.number.toNat
  let s₁ := (s.newMail m).setEntry i
    { s.mailList i with count := (s.mailList i).count + 1 }
  have number : (i : Int) = m.number := Int.toNat_of_nonneg ready.low
  have counted : (s.newMail m).addCount m.number = some s₁ := by
    rw [Post.addCount, show (s.newMail m).slot m.number = some i from slot_eq ready.low ready.high]
    rfl
  have unborn : ∀ o, s.fresh ∉ boxes o := fun o mem => by
    have dead := holds.fresh s.fresh (Nat.le_refl _)
    rw [holds.linked.live o _ mem] at dead
    cases dead
  have old : ∀ {mp}, s.live mp = true → mp < s.fresh := fun {mp} alive => by
    by_contra above
    have dead := holds.fresh mp (Nat.not_lt.mp above)
    rw [alive] at dead
    cases dead
  have linked : Linked s₁ boxes := holds.linked.congr rfl rfl rfl fun mp alive =>
    (update_of_ne (Nat.ne_of_lt (old alive)) ..).trans alive
  have short : (boxes m.envelope.sentTo).length ≤ s₁.fresh + 1 :=
    Nat.le_succ_of_le (Nat.le_succ_of_le (LinkedMemory.length_le_of_lt
      (holds.linked.linked m.envelope.sentTo).chain.nodup
      fun mp mem => old (holds.linked.live _ mp mem)))
  obtain ⟨s₂, queued, relinked, linked₂⟩ := @enqueue_spec s₁ boxes m.envelope.sentTo linked _
    (show s₁.live s.fresh = true from update_self ..) unborn short
  have mail : s₂.mail = update s.mail s.fresh m := relinked.mail
  have live : s₂.live = update s.live s.fresh true := relinked.live
  have shelves : s₂.mailList = update s.mailList i
      { s.mailList i with count := (s.mailList i).count + 1 } := relinked.mailList
  have fresh : s₂.fresh = s.fresh + 1 := relinked.fresh
  have top : s₂.mailDbTop = s.mailDbTop := relinked.mailDbTop
  have messages : ∀ j, (s₂.mailList j).message = (s.mailList j).message := by
    intro j
    rw [shelves]
    by_cases eq : j = i
    · rw [eq, update_self]
    · rw [update_of_ne eq]
  -- a mail that is there is the new one or was there
  have cases' : ∀ mp, s₂.live mp = true → mp = s.fresh ∨ mp ≠ s.fresh ∧ s.live mp = true := by
    intro mp alive
    rw [live] at alive
    by_cases eq : mp = s.fresh
    · exact Or.inl eq
    · rw [update_of_ne eq] at alive
      exact Or.inr ⟨eq, alive⟩
  refine ⟨s₂, ?_, ⟨mail, live, fresh, top, relinked.mailFreelist, messages⟩, linked₂, ?_, ?_, ?_,
    ?_, ?_, ?_, ?_, ?_, ?_⟩
  · rw [Post.insertMail, counted]
    exact queued
  · intro player mp mem
    rw [mail]
    by_cases eq : player = m.envelope.sentTo
    · rw [eq, update_self] at mem
      rcases mem_append.mp mem with earlier | last
      · rw [update_of_ne fun is => unborn _ (is ▸ earlier), holds.sentTo _ mp earlier, eq]
      · rw [mem_singleton.mp last, update_self, eq]
    · rw [update_of_ne eq] at mem
      rw [update_of_ne fun is => unborn _ (is ▸ mem)]
      exact holds.sentTo player mp mem
  · intro mp alive
    rw [mail]
    rcases cases' mp alive with rfl | ⟨ne, alive⟩
    · rw [update_self, update_self]
      exact mem_append_right _ mem_cons_self
    · rw [update_of_ne ne]
      have place := holds.placed mp alive
      by_cases eq : (s.mail mp).envelope.sentTo = m.envelope.sentTo
      · rw [eq] at place ⊢
        rw [update_self]
        exact mem_append_left _ place
      · rwa [update_of_ne eq]
  · intro player
    by_cases eq : player = m.envelope.sentTo
    · rw [eq, update_self]
      refine pairwise_append.mpr ⟨holds.inOrder _, pairwise_singleton _ _,
        fun mp mem last isLast => ?_⟩
      rw [mem_singleton.mp isLast]
      exact old (holds.linked.live _ mp mem)
    · rw [update_of_ne eq]
      exact holds.inOrder player
  · intro mp above
    rw [fresh] at above
    rw [live, update_of_ne (Nat.ne_of_gt above)]
    exact holds.fresh mp (Nat.le_of_succ_le above)
  · intro mp alive
    rw [mail, top]
    rcases cases' mp alive with rfl | ⟨ne, alive⟩
    · rw [update_self]
      exact ⟨ready.low, ready.high⟩
    · rw [update_of_ne ne]
      exact holds.numbers mp alive
  · rw [relinked.mailFreelist, relinked.mailDbTop, relinked.mailDbSize]
    exact holds.freelist
  · rw [relinked.mailDbTop, relinked.mailDbSize]
    exact holds.size
  · intro is j inside
    rw [top] at inside
    have pre : tally (uses s₂ j) s.fresh = tally (uses s j) s.fresh :=
      tally_congr fun mp below => by
        rw [uses, uses, live, mail, update_of_ne (Nat.ne_of_lt below),
          update_of_ne (Nat.ne_of_lt below)]
    have new : uses s₂ j s.fresh = decide (i = j) := by
      rw [uses, live, mail, update_self, update_self, ← number]
      simp
    have counts := holds.counts is j inside
    rw [fresh, tally_succ, pre, new, shelves]
    by_cases eq : i = j
    · subst eq
      rw [update_self, decide_eq_true rfl, if_pos rfl]
      dsimp only
      omega
    · rw [update_of_ne (Ne.symm eq), decide_eq_false eq]
      exact counts
  · intro is mp alive
    rw [messages, mail]
    rcases cases' mp alive with rfl | ⟨ne, alive⟩
    · rw [update_self, update_self]
      exact ready.message is
    · rw [update_of_ne ne, update_of_ne ne]
      exact holds.texts is mp alive

theorem removeMail_spec (holds : Holds strict s boxes sent) {player : Dbref} {mp : Addr}
    {pre post : List Addr} (split : boxes player = pre ++ mp :: post) :
    ∃ s₁ s₂, s.unlinkMail player mp = some s₁ ∧ s₁.next mp = post.head? ∧
      s₁.freeMail mp = some s₂ ∧ s₂.mail = s.mail ∧ s₂.fresh = s.fresh ∧
      Holds strict s₂ (update boxes player (pre ++ post)) sent := by
  obtain ⟨s₁, unlinked, relinked, linked, following⟩ := unlinkMail_spec holds.linked split
  have there : mp ∈ boxes player := split ▸ mem_append_right _ mem_cons_self
  have alive := holds.linked.live player mp there
  obtain ⟨low, high⟩ := holds.numbers mp alive
  let i := (s.mail mp).number.toNat
  have number : (i : Int) = (s.mail mp).number := Int.toNat_of_nonneg low
  let count := (s.mailList i).count - 1
  let e : MailEntry := if count < 1 then ⟨none, 0⟩ else { s.mailList i with count := count }
  let s₂ : Post := { s₁.setEntry i e with live := update s₁.live mp false }
  have freed : s₁.freeMail mp = some s₂ := by
    rw [Post.freeMail, readMail_eq (by rw [relinked.live]; exact alive), bind_eq_bind,
      bind_some, relinked.mail, Post.deleteMailMessage,
      show s₁.slot (s.mail mp).number = some i from
        slot_eq low (by rw [relinked.mailDbTop]; exact high), relinked.mailList]
    rfl
  have nodup := (holds.linked.linked player).chain.nodup
  rw [split] at nodup
  have outside : mp ∉ pre ++ post := (nodup_middle.mp nodup).notMem
  have gone : ∀ o, mp ∉ update boxes player (pre ++ post) o := by
    intro o mem
    by_cases eq : o = player
    · rw [eq, update_self] at mem
      exact outside mem
    · rw [update_of_ne eq] at mem
      exact eq (holds.linked.apart o player mp mem there)
  have among : ∀ {o box}, box ∈ update boxes player (pre ++ post) o →
      box ∈ boxes o := by
    intro o box mem
    by_cases eq : o = player
    · rw [eq, update_self] at mem
      rw [eq, split]
      rcases mem_append.mp mem with earlier | later
      · exact mem_append_left _ earlier
      · exact mem_append_right _ (mem_cons_of_mem mp later)
    · rwa [update_of_ne eq] at mem
  -- the mails that are there are the others
  have others : ∀ {o}, s₂.live o = true ↔ o ≠ mp ∧ s.live o = true := by
    intro o
    have live : s₂.live o = update s.live mp false o := by rw [← relinked.live]
    rw [live]
    by_cases eq : o = mp
    · rw [eq, update_self]
      simp
    · rw [update_of_ne eq]
      simp [eq]
  have mail : s₂.mail = s.mail := relinked.mail
  have shelves : s₂.mailList = update s.mailList i e := by rw [← relinked.mailList]; rfl
  have used : uses s i mp = true := by
    rw [uses, alive, number]
    simp
  have inside : mp < s.fresh := by
    by_contra above
    have dead := holds.fresh mp (Nat.not_lt.mp above)
    rw [alive] at dead
    cases dead
  have fewer : tally (uses s i) s.fresh = tally (uses s₂ i) s.fresh + 1 := by
    refine tally_lose inside used ?_ fun o ne => ?_
    · rw [uses, show s₂.live mp = false from update_self ..]
      rfl
    · rw [uses, uses, mail, show s₂.live o = s.live o from ?_]
      exact (update_of_ne ne ..).trans (congrFun relinked.live o)
  refine ⟨s₁, s₂, unlinked, following, freed, mail, relinked.fresh, ⟨fun o => linked.linked o,
    fun o box mem => ?_, linked.apart⟩, ?_, ?_, ?_, ?_, ?_, ?_, ?_, ?_, ?_⟩
  · exact others.mpr ⟨fun is => gone o (is ▸ mem), holds.linked.live o box (among mem)⟩
  · intro o box mem
    rw [mail]
    exact holds.sentTo o box (among mem)
  · intro o alive'
    obtain ⟨ne, alive'⟩ := others.mp alive'
    have place := holds.placed o alive'
    rw [mail]
    by_cases eq : (s.mail o).envelope.sentTo = player
    · rw [eq] at place ⊢
      rw [update_self]
      rw [split] at place
      simpa [ne] using place
    · rwa [update_of_ne eq]
  · intro o
    by_cases eq : o = player
    · rw [eq, update_self]
      have ordered := holds.inOrder player
      rw [split] at ordered
      exact ordered.sublist ((sublist_cons_self mp post).append_left pre)
    · rw [update_of_ne eq]
      exact holds.inOrder o
  · intro o above
    have dead := holds.fresh o (relinked.fresh ▸ above)
    cases alive' : s₂.live o with
    | false => rfl
    | true =>
      rw [(others.mp alive').2] at dead
      cases dead
  · intro o alive'
    rw [mail, show s₂.mailDbTop = s.mailDbTop from relinked.mailDbTop]
    exact holds.numbers o (others.mp alive').2
  · have freelist := holds.freelist
    rwa [← relinked.mailFreelist, ← relinked.mailDbTop, ← relinked.mailDbSize] at freelist
  · have size := holds.size
    rwa [← relinked.mailDbTop, ← relinked.mailDbSize] at size
  · intro is j below
    rw [show s₂.fresh = s.fresh from relinked.fresh, shelves]
    have below' : j < s.mailDbTop := relinked.mailDbTop ▸ below
    have counts := holds.counts is j below'
    by_cases eq : j = i
    · subst eq
      rw [update_self]
      simp only [e, count]
      split
      · dsimp only
        omega
      · dsimp only
        omega
    · rw [update_of_ne eq, counts]
      refine congrArg _ (tally_congr fun o _ => ?_).symm
      rw [uses, uses, mail]
      by_cases is' : o = mp
      · have : (s.mail mp).number ≠ j := by
          rw [← number]
          exact fun is'' => eq (Int.ofNat.inj is'').symm
        simp [is', this]
      · rw [show s₂.live o = s.live o from
          (update_of_ne is' ..).trans (congrFun relinked.live o)]
  · intro is o alive'
    have texts := holds.texts is o (others.mp alive').2
    rw [shelves, mail]
    by_cases eq : (s.mail o).number.toNat = i
    · -- the other mail has the same text, which is kept for it
      have counts := holds.counts is i (by omega)
      have kept : 0 < tally (uses s₂ i) s.fresh := by
        refine tally_pos (a := o) ?_ ?_
        · by_contra above
          have dead := holds.fresh o (Nat.not_lt.mp above)
          rw [(others.mp alive').2] at dead
          cases dead
        · have := (holds.numbers o (others.mp alive').2).1
          rw [uses, alive', mail]
          simp only [Bool.true_and, decide_eq_true_eq]
          omega
      rw [eq] at texts ⊢
      rw [update_self, ← texts]
      simp only [e, count]
      rw [if_neg (by omega)]
    · rw [update_of_ne eq]
      exact texts

end Holds

end BattletechMux.Postal
