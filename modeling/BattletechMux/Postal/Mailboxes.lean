/-
Module: BattletechMux.Postal.Mailboxes
Purpose: The loops through mailboxes, and runs of the mail commands: when the mailboxes hold the
  letters that the commands are meant to leave.
-/
import BattletechMux.Postal.Delivery
import BattletechMux.Foundation.Machine

namespace BattletechMux.Postal

section

open List Option
open Function (update update_self update_of_ne)
open LinkedMemory (Chain)

variable {strict : Prop} {s s' : Post} {boxes : Dbref → List Addr} {sent : Addr → Text}

namespace Holds

theorem length_le (h : Holds strict s boxes sent) (player : Dbref) :
    (boxes player).length ≤ s.fresh := by
  refine LinkedMemory.length_le_of_lt (h.linked.linked player).chain.nodup fun mp mem => ?_
  by_contra above
  have dead := h.fresh mp (Nat.not_lt.mp above)
  rw [h.linked.live player mp mem] at dead
  cases dead

end Holds

/-! ## Removing mails -/

variable {key : Envelope → Dbref} {choose : Nat → Envelope → Nat × Bool}

theorem sweep_spec (h : Holds strict s boxes sent) {player : Dbref} (done : List Addr)
    {rest : List Addr} (split : boxes player = done ++ rest)
    (keys : ∀ mp ∈ rest, ∀ i, (choose i (s.mail mp).envelope).2 = true →
      key (s.mail mp).envelope = player) {limit : Nat} (hlt : rest.length < limit) (i : Nat) :
    ∃ s', Post.sweep key choose limit i rest.head? s = some s' ∧ s'.mail = s.mail ∧
      s'.fresh = s.fresh ∧ Holds strict s' (update boxes player
        (done ++ kept (fun i mp => choose i (s.mail mp).envelope) i rest)) sent := by
  obtain ⟨limit, rfl⟩ := Nat.exists_eq_succ_of_ne_zero (Nat.ne_of_gt (Nat.zero_lt_of_lt hlt))
  induction rest generalizing s boxes done limit i with
  | nil =>
    refine ⟨s, rfl, rfl, rfl, ?_⟩
    rw [kept, ← split, Function.update_eq_self]
    exact h
  | cons mp rest ih =>
    obtain ⟨limit, rfl⟩ := Nat.exists_eq_succ_of_ne_zero (show limit ≠ 0 by
      rw [length_cons] at hlt
      omega)
    have hlt' : rest.length < limit + 1 := by
      rw [length_cons] at hlt
      omega
    have there : mp ∈ boxes player := split ▸ mem_append_right _ mem_cons_self
    rw [head?_cons, Post.sweep, readMail_eq (h.linked.live player mp there),
      bind_eq_bind, bind_some, kept]
    dsimp only
    cases chosen : (choose i (s.mail mp).envelope).2 with
    | true =>
      obtain ⟨s₁, s₂, unlinked, following, freed, mail, fresh, holds₂⟩ :=
        h.removeMail_spec split
      obtain ⟨s', ran, mail', fresh', h'⟩ := ih holds₂
        done (update_self ..) (by
          rw [mail]
          exact fun o mem => keys o (mem_cons_of_mem mp mem))
        (choose i (s.mail mp).envelope).1 limit hlt'
      refine ⟨s', ?_, mail'.trans mail, fresh'.trans fresh, ?_⟩
      · rw [if_pos rfl, keys mp mem_cons_self i chosen]
        simp only [unlinked, freed, following, bind_eq_bind, bind_some]
        exact ran
      · rw [if_pos rfl]
        rw [mail, Function.update_idem] at h'
        exact h'
    | false =>
      have next : s.next mp = rest.head? := by
        have chain := (h.linked.linked player).chain
        rw [split] at chain
        exact chain.next_eq_head.head_eq
      obtain ⟨s', ran, mail', fresh', h'⟩ := ih h
        (done ++ [mp]) (by rw [split, append_assoc]; rfl)
        (fun o mem => keys o (mem_cons_of_mem mp mem))
        (choose i (s.mail mp).envelope).1 limit hlt'
      refine ⟨s', ?_, mail', fresh', ?_⟩
      · rw [if_neg Bool.false_ne_true, next]
        exact ran
      · rw [if_neg Bool.false_ne_true]
        rwa [append_assoc] at h'

theorem sweep_box (h : Holds strict s boxes sent) (player : Dbref)
    (keys : ∀ mp ∈ boxes player, ∀ i, (choose i (s.mail mp).envelope).2 = true →
      key (s.mail mp).envelope = player) :
    ∃ s', Post.sweep key choose (s.fresh + 1) 0 (s.nhashfind player) s = some s' ∧
      s'.mail = s.mail ∧ s'.fresh = s.fresh ∧ Holds strict s' (update boxes player
        (kept (fun i mp => choose i (s.mail mp).envelope) 0 (boxes player))) sent := by
  rw [(h.linked.linked player).chain.head_eq]
  exact sweep_spec h [] rfl keys (Nat.lt_succ_of_le (h.length_le player)) 0

theorem sweepAll_spec (h : Holds strict s boxes sent) (things thing : Nat)
    (keys : ∀ player, (thing : Int) ≤ player → player < thing + things → ∀ mp ∈ boxes player,
      ∀ i, (choose i (s.mail mp).envelope).2 = true → key (s.mail mp).envelope = player) :
    ∃ s', Post.sweepAll key choose things thing s = some s' ∧ s'.mail = s.mail ∧
      Holds strict s' (fun player =>
        if (thing : Int) ≤ player ∧ player < thing + things then
          kept (fun i mp => choose i (s.mail mp).envelope) 0 (boxes player)
        else boxes player) sent := by
  induction things generalizing s boxes thing with
  | zero =>
    refine ⟨s, rfl, rfl, ?_⟩
    have eq : (fun player => if (thing : Int) ≤ player ∧ player < thing + (0 : Nat) then
        kept (fun i mp => choose i (s.mail mp).envelope) 0 (boxes player)
      else boxes player) = boxes := by
      funext player
      exact if_neg (by omega)
    rw [eq]
    exact h
  | succ things ih =>
    obtain ⟨s₁, swept, mail, _, holds₁⟩ := sweep_box h thing
      (keys thing (Int.le_refl _) (by omega))
    obtain ⟨s', ran, mail', h'⟩ := ih holds₁ (thing + 1)
      fun player low high mp mem i chosen => by
        have ne : player ≠ thing := by omega
        rw [update_of_ne ne] at mem
        rw [mail] at chosen ⊢
        exact keys player (by omega) (by omega) mp mem i chosen
    refine ⟨s', ?_, mail'.trans mail, ?_⟩
    · rw [Post.sweepAll, swept]
      exact ran
    · have eq : (fun player =>
          if ((thing + 1 : Nat) : Int) ≤ player ∧ player < (thing + 1 : Nat) + (things : Int) then
            kept (fun i mp => choose i (s₁.mail mp).envelope) 0 (update boxes (thing : Int)
              (kept (fun i mp => choose i (s.mail mp).envelope) 0 (boxes thing)) player)
          else update boxes (thing : Int)
            (kept (fun i mp => choose i (s.mail mp).envelope) 0 (boxes thing)) player) =
          fun player =>
            if (thing : Int) ≤ player ∧ player < thing + (things + 1 : Nat) then
              kept (fun i mp => choose i (s.mail mp).envelope) 0 (boxes player)
            else boxes player := by
        funext player
        by_cases fst : player = thing
        · rw [if_neg (by omega), if_pos (by omega), fst, update_self]
        · rw [update_of_ne fst, mail]
          by_cases later : ((thing + 1 : Nat) : Int) ≤ player ∧
            player < (thing + 1 : Nat) + (things : Int)
          · rw [if_pos later, if_pos (by omega)]
          · rw [if_neg later, if_neg (by omega)]
      rwa [eq] at h'

theorem lettersOf_kept (eq : s'.mail = s.mail) (choose : Nat → Envelope → Nat × Bool)
    (cells : List Addr) :
    (kept (fun i mp => choose i (s.mail mp).envelope) 0 cells).map (letterOf s' sent) =
      kept (fun i letter => choose i letter.envelope) 0 (cells.map (letterOf s sent)) := by
  rw [letterOf_congr eq, ← kept_map]
  rfl

theorem sweep_letters (h : Holds strict s boxes sent) (player : Dbref)
    (key : Envelope → Dbref) (choose : Nat → Envelope → Nat × Bool)
    (keys : ∀ mp ∈ boxes player, ∀ i, (choose i (s.mail mp).envelope).2 = true →
      key (s.mail mp).envelope = player) :
    ∃ s' boxes', Post.sweep key choose (s.fresh + 1) 0 (s.nhashfind player) s = some s' ∧
      Holds strict s' boxes' sent ∧ lettersOf s' boxes' sent =
        update (lettersOf s boxes sent) player
          (kept (fun i letter => choose i letter.envelope) 0 (lettersOf s boxes sent player)) := by
  obtain ⟨s', ran, mail, _, h'⟩ := sweep_box h player keys
  refine ⟨s', _, ran, h', ?_⟩
  funext o
  by_cases eq : o = player
  · subst eq
    rw [lettersOf, update_self, update_self, lettersOf_kept mail]
    rfl
  · rw [lettersOf, update_of_ne eq, update_of_ne eq]
    refine map_congr_left fun mp _ => ?_
    rw [letterOf, letterOf, mail]

theorem sweepAll_letters (h : Holds strict s boxes sent) (dbTop : Nat)
    (key : Envelope → Dbref) (choose : Nat → Envelope → Nat × Bool)
    (keys : ∀ player : Dbref, 0 ≤ player → player < dbTop → ∀ mp ∈ boxes player,
      ∀ i, (choose i (s.mail mp).envelope).2 = true → key (s.mail mp).envelope = player) :
    ∃ s' boxes', Post.sweepAll key choose dbTop 0 s = some s' ∧
      Holds strict s' boxes' sent ∧
      lettersOf s' boxes' sent = (lettersOf s boxes sent).keepAll dbTop choose := by
  obtain ⟨s', ran, mail, h'⟩ := sweepAll_spec h dbTop 0
    fun player low high => keys player low (by simpa using high)
  refine ⟨s', _, ran, h', ?_⟩
  funext player
  rw [lettersOf, Letters.keepAll]
  simp only [Nat.cast_zero, Int.zero_add]
  split
  · exact lettersOf_kept mail choose _
  · rw [letterOf_congr mail]
    rfl

/-! ## Marking mails -/

def Mail.reread (m : Mail) (read : BitVec 32) : Mail :=
  { m with envelope := { m.envelope with read } }

theorem Holds.reread (h : Holds strict s boxes sent) (mp : Addr) (read : BitVec 32) :
    Holds strict { s with mail := update s.mail mp ((s.mail mp).reread read) } boxes sent := by
  have sentTo : ∀ o, (update s.mail mp ((s.mail mp).reread read) o).envelope.sentTo =
      (s.mail o).envelope.sentTo := by
    intro o
    by_cases eq : o = mp
    · rw [eq, update_self]
      rfl
    · rw [update_of_ne eq]
  have number : ∀ o, (update s.mail mp ((s.mail mp).reread read) o).number =
      (s.mail o).number := by
    intro o
    by_cases eq : o = mp
    · rw [eq, update_self]
      rfl
    · rw [update_of_ne eq]
  refine ⟨h.linked.congr rfl rfl rfl fun _ => id, ?_, ?_, h.inOrder, h.fresh, ?_,
    h.freelist, h.size, ?_, ?_⟩
  · intro player o mem
    exact (sentTo o).trans (h.sentTo player o mem)
  · intro o alive
    rw [show Post.mail _ o = _ from rfl, sentTo]
    exact h.placed o alive
  · intro o alive
    rw [show Post.mail _ o = _ from rfl, number]
    exact h.numbers o alive
  · intro is i hin
    refine (h.counts is i hin).trans (congrArg _ (Tally.tally_congr fun o _ => ?_))
    rw [uses, uses, ← number o]
  · intro is o alive
    rw [show Post.mail _ o = _ from rfl, number]
    exact h.texts is o alive

theorem markLoop_spec (h : Holds strict s boxes sent) {start : Option Addr} {rest : List Addr}
    (chain : Chain s.next start rest) (alive : ∀ mp ∈ rest, s.live mp = true)
    (counted : Envelope → Bool) (matched : Nat → Envelope → Bool)
    (change : BitVec 32 → BitVec 32) {limit : Nat} (hlt : rest.length < limit) (i : Nat) :
    ∃ s', Post.markLoop counted matched change limit i start s = some s' ∧
      Holds strict s' boxes sent ∧ (∀ mp, mp ∉ rest → s'.mail mp = s.mail mp) ∧
      rest.map (letterOf s' sent) = marked (fun letter => counted letter.envelope)
        (fun i letter => matched i letter.envelope)
        (fun letter =>
          { letter with envelope := { letter.envelope with read := change letter.envelope.read } })
        i (rest.map (letterOf s sent)) := by
  obtain ⟨limit, rfl⟩ := Nat.exists_eq_succ_of_ne_zero (Nat.ne_of_gt (Nat.zero_lt_of_lt hlt))
  induction rest generalizing s start limit i with
  | nil =>
    rw [LinkedMemory.chain_nil.mp chain]
    exact ⟨s, rfl, h, fun _ _ => rfl, rfl⟩
  | cons mp rest ih =>
    obtain ⟨limit, rfl⟩ := Nat.exists_eq_succ_of_ne_zero (show limit ≠ 0 by
      rw [length_cons] at hlt
      omega)
    have hlt' : rest.length < limit + 1 := by
      rw [length_cons] at hlt
      omega
    have outside : mp ∉ rest := (nodup_cons.mp chain.nodup).1
    obtain ⟨rfl, rest'⟩ := chain
    rw [Post.markLoop, readMail_eq (alive mp mem_cons_self), bind_eq_bind,
      bind_some, map_cons, marked]
    dsimp only
    let i' := if counted (s.mail mp).envelope then i + 1 else i
    let read := if counted (s.mail mp).envelope && matched i' (s.mail mp).envelope then
      change (s.mail mp).envelope.read else (s.mail mp).envelope.read
    let s₁ : Post := { s with mail := update s.mail mp ((s.mail mp).reread read) }
    obtain ⟨s', ran, h', others, letters⟩ := ih (s := s₁)
      (h.reread mp read) rest'
      (fun o mem => alive o (mem_cons_of_mem mp mem)) i' limit hlt'
    refine ⟨s', ran, h', fun o notMember => ?_, ?_⟩
    · rw [mem_cons, not_or] at notMember
      rw [others o notMember.2]
      exact update_of_ne notMember.1 ..
    · have fst : letterOf s' sent mp = if counted (s.mail mp).envelope &&
          matched i' (s.mail mp).envelope then
          { letterOf s sent mp with
            envelope := { (s.mail mp).envelope with read := change (s.mail mp).envelope.read } }
          else letterOf s sent mp := by
        rw [letterOf, others mp outside, show s₁.mail mp = _ from update_self ..]
        dsimp only [read]
        split
        · rfl
        · rfl
      have later : rest.map (letterOf s₁ sent) = rest.map (letterOf s sent) := by
        refine map_congr_left fun o mem => ?_
        have ne : o ≠ mp := fun eq => outside (eq ▸ mem)
        rw [letterOf, letterOf, show s₁.mail o = _ from update_of_ne ne ..]
      rw [map_cons, fst, letters, later]
      rfl

theorem doMailMark_letters (h : Holds strict s boxes sent) (player : Dbref)
    (counted : Envelope → Bool) (matched : Nat → Envelope → Bool)
    (change : BitVec 32 → BitVec 32) :
    ∃ s', s.doMailMark player counted matched change = some s' ∧ Holds strict s' boxes sent ∧
      lettersOf s' boxes sent = update (lettersOf s boxes sent) player
        (marked (fun letter => counted letter.envelope)
          (fun i letter => matched i letter.envelope)
          (fun letter =>
            { letter with
              envelope := { letter.envelope with read := change letter.envelope.read } })
          0 (lettersOf s boxes sent player)) := by
  obtain ⟨s', ran, h', others, letters⟩ := markLoop_spec h
    (h.linked.linked player).chain (h.linked.live player) counted matched change
    (Nat.lt_succ_of_le (h.length_le player)) 0
  refine ⟨s', ran, h', ?_⟩
  funext o
  by_cases eq : o = player
  · subst eq
    rw [update_self]
    exact letters
  · rw [update_of_ne eq]
    refine map_congr_left fun mp mem => ?_
    rw [letterOf, letterOf, others mp fun hin =>
      eq (h.linked.apart o player mp mem hin)]

/-! ## Loading mails -/

theorem loadRecords_spec (loose : ¬strict) (h : Holds strict s boxes sent)
    (hin : s.mailFreelist < s.mailDbTop) (texts : List (Int × Text)) {records : List Record}
    (numbers : ∀ record ∈ records, ∀ number, record.body = .inl number →
      0 ≤ number ∧ number < s.mailDbTop) :
    ∃ s' boxes' sent', Post.loadRecords records s = some s' ∧ Holds strict s' boxes' sent' ∧
      s.mailDbTop ≤ s'.mailDbTop ∧ lettersOf s' boxes' sent' =
        records.foldl (fun letters record =>
          letters.post ⟨record.envelope, Letters.textOf texts record⟩) (lettersOf s boxes sent) := by
  induction records generalizing s boxes sent with
  | nil => exact ⟨s, boxes, sent, rfl, h, Nat.le_refl _, rfl⟩
  | cons record later ih =>
    obtain ⟨number, s₁, numbered, holds₁, mail, top, inside₁, low, high⟩ : ∃ number s₁,
        s.recordNumber record.body = some (number, s₁) ∧ Holds strict s₁ boxes sent ∧
        s₁.mail = s.mail ∧ s.mailDbTop ≤ s₁.mailDbTop ∧ s₁.mailFreelist < s₁.mailDbTop ∧
        0 ≤ number ∧ number < s₁.mailDbTop := by
      cases body : record.body with
      | inl number =>
        obtain ⟨low, high⟩ := numbers record mem_cons_self number body
        exact ⟨number, s, rfl, h, rfl, Nat.le_refl _, hin, low, high⟩
      | inr text =>
        have size := h.size
        have filled : Holds strict (s.setEntry s.mailFreelist
            { s.mailList s.mailFreelist with message := some text }) boxes sent :=
          h.setEntry (fun is => absurd is loose) fun is => absurd is loose
        obtain ⟨h', eq, open'⟩ := filled.makeMailFreelist_spec
        have slot : s.slot s.mailFreelist = some s.mailFreelist :=
          (Holds.slot_eq (Int.natCast_nonneg _) (Int.ofNat_lt.mpr hin)).trans rfl
        refine ⟨s.mailFreelist, _, ?_, h', eq.mail, eq.mailDbTop, open'.inside,
          Int.natCast_nonneg _,
          Int.ofNat_lt.mpr (Nat.lt_of_lt_of_le hin eq.mailDbTop)⟩
        rw [Post.recordNumber, Post.addMailMessageNosig, if_neg (by omega)]
        simp only [slot, bind_eq_bind, bind_some]
    have ready : Ready strict s₁ number (Letters.textOf texts record) :=
      ⟨low, high, fun is => absurd is loose⟩
    obtain ⟨s₂, inserted, delivered, holds₂⟩ :=
      holds₁.insertMail_spec (m := ⟨record.envelope, number⟩) ready
    have top' : s₂.mailDbTop = s₁.mailDbTop := delivered.mailDbTop
    obtain ⟨s', boxes', sent', ran, h', grown, letters⟩ := ih holds₂
      (by rw [delivered.mailFreelist, top']; exact inside₁)
      fun o mem number body => by
        have := numbers o (mem_cons_of_mem record mem) number body
        omega
    refine ⟨s', boxes', sent', ?_, h', ?_, ?_⟩
    · rw [Post.loadRecords, numbered, bind_eq_bind, bind_some]
      dsimp only
      rw [inserted]
      exact ran
    · omega
    · rw [letters, delivered.letters holds₁, lettersOf_congr mail]
      rfl

theorem loadTexts_spec (loose : ¬strict) (h : Holds strict s boxes sent)
    {texts : List (Int × Text)}
    (numbers : ∀ text ∈ texts, 0 ≤ text.1 ∧ text.1 < s.mailDbTop) :
    ∃ s', Post.loadTexts texts s = some s' ∧ Holds strict s' boxes sent ∧ s'.mail = s.mail := by
  induction texts generalizing s with
  | nil => exact ⟨s, rfl, h, rfl⟩
  | cons text later ih =>
    obtain ⟨low, high⟩ := numbers text mem_cons_self
    have written : Holds strict (s.setEntry text.1.toNat
        { s.mailList text.1.toNat with message := some text.2 }) boxes sent :=
      h.setEntry (fun is => absurd is loose) fun is => absurd is loose
    obtain ⟨s', ran, h', mail⟩ := ih written fun o mem =>
      numbers o (mem_cons_of_mem text mem)
    refine ⟨s', ?_, h', mail⟩
    rw [Post.loadTexts, Post.newMailMessage, Holds.slot_eq low high]
    exact ran

def slotsOf (mailTop : Option Nat) : Nat :=
  match mailTop with
  | some mailTop => mailTop + 1
  | none => 1

theorem loadMail_spec (loose : ¬strict) (h : Holds strict s boxes sent)
    {mailTop : Option Nat} {records : List Record} {texts : List (Int × Text)}
    (recorded : ∀ record ∈ records, ∀ number, record.body = .inl number →
      0 ≤ number ∧ number < (s.mailDbGrow (slotsOf mailTop)).mailDbTop)
    (numbered : ∀ text ∈ texts,
      0 ≤ text.1 ∧ text.1 < (s.mailDbGrow (slotsOf mailTop)).mailDbTop) :
    ∃ s' boxes' sent', s.loadMail mailTop records texts = some s' ∧
      Holds strict s' boxes' sent' ∧ lettersOf s' boxes' sent' =
        records.foldl (fun letters record =>
          letters.post ⟨record.envelope, Letters.textOf texts record⟩) (lettersOf s boxes sent) := by
  obtain ⟨grown, eq, top, fst⟩ := h.grow (slotsOf mailTop)
  have pos : 0 < slotsOf mailTop := by
    cases mailTop with
    | none => exact Nat.one_pos
    | some mailTop => exact Nat.succ_pos _
  have freelist := grown.freelist
  have size := grown.size
  obtain ⟨s₁, boxes₁, sent₁, loaded, holds₁, above, letters⟩ :=
    loadRecords_spec loose grown (by omega) texts recorded
  obtain ⟨s', texted, h', mail⟩ := loadTexts_spec loose holds₁ fun text mem => by
    have := numbered text mem
    omega
  refine ⟨s', boxes₁, sent₁, ?_, h', ?_⟩
  · have unfolded : s.loadMail mailTop records texts =
        (Post.loadRecords records (s.mailDbGrow (slotsOf mailTop))).bind (Post.loadTexts texts) :=
      rfl
    rw [unfolded, loaded]
    exact texted
  · rw [lettersOf_congr mail, letters, lettersOf_congr eq.mail]

end

open Function (update)
open LinkedMemory (DoublyLinked)

variable {strict : Prop} {s s' : Post} {boxes : Dbref → List Addr} {sent : Addr → Text}

/-! ## One command -/

/-- A command that the mail system can do; with `strict` also one that keeps the texts. -/
def Sound (strict : Prop) (s : Post) (command : World × Op) : Prop :=
  let w := command.1
  match command.2 with
  | .send _ recipients _ _ message _ =>
    (Post.isClear message = true → addressed w recipients = []) ∧
      (strict → Balanced w recipients)
  | .nuke player =>
    player = god → ∀ mp, s.live mp = true →
      ¬(0 ≤ (s.mail mp).envelope.sentTo ∧ (s.mail mp).envelope.sentTo < w.dbTop)
  | .fix player =>
    w.wizard player = true → ∀ mp, s.live mp = true →
      0 ≤ (s.mail mp).envelope.sentTo → (s.mail mp).envelope.sentTo < w.dbTop →
      (!w.goodObj (s.mail mp).envelope.sentTo || !w.isPlayer (s.mail mp).envelope.sentTo) →
      (s.mail mp).envelope.sentTo = player
  | .load mailTop records texts =>
    ¬strict ∧ (∀ record ∈ records, ∀ number, record.body = .inl number →
      0 ≤ number ∧ number < (s.mailDbGrow (slotsOf mailTop)).mailDbTop) ∧
      ∀ text ∈ texts, 0 ≤ text.1 ∧ text.1 < (s.mailDbGrow (slotsOf mailTop)).mailDbTop
  | _ => True

def Carries (strict : Prop) (s : Post) (letters : Letters) : Prop :=
  ∃ boxes sent, Holds strict s boxes sent ∧ lettersOf s boxes sent = letters

theorem nukeAll_none (things thing : Nat)
    (none' : ∀ player, (thing : Int) ≤ player → player < thing + things →
      s.nhashfind player = none) : Post.nukeAll things thing s = some s := by
  induction things generalizing thing with
  | zero => rfl
  | succ things ih =>
    have fst := none' thing (Int.le_refl _) (by omega)
    have later := ih (thing + 1) fun player low high =>
      none' player (by omega) (by omega)
    rw [Post.nukeAll, fst, Post.nukeLoop]
    exact later

theorem doMailNuke_letters (h : Holds strict s boxes sent) {w : World} {player : Dbref}
    (sound : player = god → ∀ mp, s.live mp = true →
      ¬(0 ≤ (s.mail mp).envelope.sentTo ∧ (s.mail mp).envelope.sentTo < w.dbTop)) :
    s.doMailNuke w player = some s ∧ lettersOf s boxes sent =
      if player = god then (lettersOf s boxes sent).keepAll w.dbTop fun i _ => (i, true)
      else lettersOf s boxes sent := by
  rw [Post.doMailNuke]
  by_cases isGod : player = god
  · rw [if_neg (not_not.mpr isGod), if_pos isGod]
    have empty : ∀ o : Dbref, 0 ≤ o → o < w.dbTop → boxes o = [] := by
      intro o low high
      refine List.eq_nil_iff_forall_not_mem.mpr fun mp mem => ?_
      have far := sound isGod mp (h.linked.live o mp mem)
      rw [h.sentTo o mp mem] at far
      exact far ⟨low, high⟩
    refine ⟨nukeAll_none _ _ fun o low high => ?_, ?_⟩
    · have chain := (h.linked.linked o).chain
      rwa [empty o low (by simpa using high)] at chain
    · funext o
      rw [Letters.keepAll]
      split
      · rename_i hin
        rw [lettersOf, empty o hin.1 hin.2]
        rfl
      · rfl
  · rw [if_pos isGod, if_neg isGod]
    exact ⟨rfl, rfl⟩

variable {letters : Letters}

theorem step_simulates (carries : Carries strict s letters)
    (command : World × Op) (sound : Sound strict s command) :
    ∃ s', step s command = some s' ∧ Carries strict s' (letters.step command) := by
  obtain ⟨boxes, sent, h, rfl⟩ := carries
  obtain ⟨w, op⟩ := command
  cases op with
  | send player recipients tolist subject message flags =>
    obtain ⟨s', boxes', sent', ran, h', letters⟩ := mailToList_spec h w player recipients
      tolist subject message flags sound.1 sound.2
    exact ⟨s', ran, boxes', sent', h', letters⟩
  | retract player target matched =>
    obtain ⟨s', boxes', ran, h', letters⟩ := sweep_letters h target
      (fun _ => target) (fun i m =>
        if m.sentFrom = player then (i + 1, matched (i + 1) m && !m.isRead) else (i, false))
      fun _ _ _ _ => rfl
    exact ⟨s', ran, boxes', sent, h', letters⟩
  | purge player =>
    obtain ⟨s', boxes', ran, h', letters⟩ := sweep_letters h player
      (fun _ => player) (fun i m => (i, m.isCleared)) fun _ _ _ _ => rfl
    refine ⟨s', ran, boxes', sent, h', letters.trans ?_⟩
    rw [kept_filter fun letter : Letter => letter.envelope.isCleared]
    rfl
  | expire =>
    obtain ⟨s', boxes', ran, h', letters⟩ := sweepAll_letters h w.dbTop
      Envelope.sentTo (fun i m => (i, w.expired m.time && !m.isSafe))
      fun player _ _ mp mem _ _ => h.sentTo player mp mem
    exact ⟨s', ran, boxes', sent, h', letters⟩
  | nuke player =>
    obtain ⟨ran, letters⟩ := doMailNuke_letters h sound
    exact ⟨s, ran, boxes, sent, h, letters⟩
  | fix player =>
    have unfolded : step s (w, .fix player) = s.doMailFix w player := rfl
    rw [unfolded, Post.doMailFix]
    cases wizard : w.wizard player with
    | false =>
      refine ⟨s, rfl, boxes, sent, h, ?_⟩
      rw [Letters.step]
      dsimp only
      rw [wizard, if_neg Bool.false_ne_true]
    | true =>
      obtain ⟨s', boxes', ran, h', letters⟩ := sweepAll_letters h w.dbTop
        (fun _ => player) (fun i m => (i, !w.goodObj m.sentTo || !w.isPlayer m.sentTo))
        fun owner low high mp mem _ chosen => by
          have own := sound wizard mp (h.linked.live owner mp mem)
          rw [h.sentTo owner mp mem] at own
          rw [h.sentTo owner mp mem] at chosen
          exact (own low high chosen).symm
      refine ⟨s', ran, boxes', sent, h', letters.trans ?_⟩
      rw [Letters.step]
      dsimp only
      rw [wizard, if_pos rfl]
  | mark player counted matched change =>
    obtain ⟨s', ran, h', letters⟩ := doMailMark_letters h player counted matched change
    exact ⟨s', ran, boxes, sent, h', letters⟩
  | load mailTop records texts =>
    obtain ⟨s', boxes', sent', ran, h', letters⟩ :=
      loadMail_spec sound.1 h sound.2.1 sound.2.2
    exact ⟨s', ran, boxes', sent', h', letters⟩

/-! ## Runs -/

structure Started (s : Post) : Prop where
  mailHtab : ∀ player, s.mailHtab player = none
  live : ∀ mp, s.live mp = false
  mailDbTop : s.mailDbTop = 0
  mailDbSize : s.mailDbSize = 0
  mailFreelist : s.mailFreelist = 0

def Letters.empty : Letters := fun _ => []

theorem Started.carries (started : Started s) (strict : Prop) : Carries strict s Letters.empty := by
  have dead : ∀ {mp}, ¬s.live mp = true := fun {mp} alive => by
    rw [started.live mp] at alive
    cases alive
  refine ⟨fun _ => [], fun _ => [], ⟨⟨fun player => ⟨?_, trivial⟩, fun _ _ => List.not_mem_nil.elim,
    fun _ _ _ mem => (List.not_mem_nil mem).elim⟩, fun _ _ => List.not_mem_nil.elim,
    fun mp alive => absurd alive dead, fun _ => List.Pairwise.nil, fun mp _ => started.live mp,
    fun mp alive => absurd alive dead, Or.inr ⟨started.mailDbSize, started.mailFreelist⟩, ?_,
    fun _ i hin => ?_, fun _ mp alive => absurd alive dead⟩, rfl⟩
  · rw [LinkedMemory.chain_nil, Post.nhashfind, started.mailHtab]
    rfl
  · rw [started.mailDbTop]
    exact Nat.zero_le _
  · rw [started.mailDbTop] at hin
    exact absurd hin (Nat.not_lt_zero i)

theorem run_simulates (carries : Carries strict s letters)
    {commands : List (World × Op)} (sound : Machine.Guarded step (Sound strict) s commands) :
    ∃ s', Machine.run step s commands = some s' ∧
      Carries strict s' (commands.foldl Letters.step letters) := by
  induction commands generalizing s letters with
  | nil => exact ⟨s, rfl, carries⟩
  | cons command later ih =>
    obtain ⟨s₁, stepped, carries₁⟩ := step_simulates carries command sound.1
    obtain ⟨s', ran, carries'⟩ := ih carries₁ (sound.2 s₁ stepped)
    refine ⟨s', ?_, carries'⟩
    rw [Machine.run_cons, stepped]
    exact ran

structure InBoxes (s : Post) (boxes : Dbref → List Addr) (letters : Letters) : Prop where
  /-- The table has the first mail of a mailbox, and the links of the mails are mutual. -/
  linked : ∀ player, DoublyLinked s.next s.prev (s.nhashfind player) (boxes player)
  /-- No mail of a mailbox has been freed. -/
  live : ∀ player, ∀ mp ∈ boxes player, s.live mp = true
  sentTo : ∀ player, ∀ mp ∈ boxes player, (s.mail mp).envelope.sentTo = player
  /-- No mail is lost. -/
  placed : ∀ mp, s.live mp = true → mp ∈ boxes (s.mail mp).envelope.sentTo
  /-- The mails are in order of sending. -/
  inOrder : ∀ player, (boxes player).Pairwise (· < ·)
  /-- The mails are those that are meant to be there. -/
  letters : ∀ player, (boxes player).map (fun mp => (s.mail mp).envelope) =
    (letters player).map Letter.envelope

theorem InBoxes.first_mem (inBoxes : InBoxes s boxes letters)
    {player : Dbref} {mp : Addr} (hf : s.nhashfind player = some mp) : mp ∈ boxes player := by
  have fst := (inBoxes.linked player).chain.head_eq
  rw [hf] at fst
  exact List.mem_of_head? fst.symm

theorem Holds.inBoxes (h : Holds strict s boxes sent) :
    InBoxes s boxes (lettersOf s boxes sent) where
  linked := h.linked.linked
  live := h.linked.live
  sentTo := h.sentTo
  placed := h.placed
  inOrder := h.inOrder
  letters := fun player => by
    rw [lettersOf, List.map_map]
    rfl

/-- In every run whose commands are sound, the mailboxes are well-formed in every state
reached, and hold what the commands are meant to leave. -/
theorem sound_commands_keep_mailboxes (started : Started s) {commands : List (World × Op)}
    (sound : Machine.Guarded step (Sound False) s commands) :
    ∃ s' boxes, Machine.run step s commands = some s' ∧
      InBoxes s' boxes (commands.foldl Letters.step Letters.empty) := by
  obtain ⟨s', ran, boxes, sent, holds, letters⟩ := run_simulates (started.carries False) sound
  exact ⟨s', boxes, ran, letters ▸ holds.inBoxes⟩

def blank : Post where
  mailHtab := fun _ => none
  mail := fun _ => ⟨⟨0, 0, [], [], [], 0⟩, 0⟩
  next := fun _ => none
  prev := fun _ => none
  live := fun _ => false
  fresh := 0
  mailList := fun _ => ⟨none, 0⟩
  mailDbTop := 0
  mailDbSize := 0
  mailFreelist := 0

theorem blank_started : Started blank where
  mailHtab := fun _ => rfl
  live := fun _ => rfl
  mailDbTop := rfl
  mailDbSize := rfl
  mailFreelist := rfl

def game : World where
  dbTop := 6
  isPlayer := fun thing => decide (1 ≤ thing ∧ thing ≤ 5)
  goodObj := fun thing => decide (0 ≤ thing ∧ thing < 6)
  wizard := fun thing => decide (thing = god)
  time := "now".toList
  evaluate := fun _ message => message
  expired := fun time => decide (time = "long ago".toList)

def letterTo (targets : List Dbref) : Op :=
  .send 2 (targets.map .target) "them".toList "Hi".toList "Hello".toList 0

/-- A letter to two players and one to the room; one player retracts his letters. -/
theorem sound_commands_keep_mailboxes_retracted :
    ∃ s' boxes, Machine.run step blank
        [(game, letterTo [3, 4]), (game, letterTo [0]), (game, .retract 2 3 fun _ _ => true)] =
          some s' ∧
      InBoxes s' boxes ([(game, letterTo [3, 4]), (game, letterTo [0]),
        (game, Op.retract 2 3 fun _ _ => true)].foldl Letters.step Letters.empty) := by
  apply sound_commands_keep_mailboxes blank_started
  have hello : ¬Post.isClear "Hello".toList = true := by decide
  exact ⟨⟨fun clear => absurd clear hello, False.elim⟩, fun _ _ =>
    ⟨⟨fun clear => absurd clear hello, False.elim⟩, fun _ _ => ⟨trivial, fun _ _ => trivial⟩⟩⟩

/-- After GOD has nuked the post office, a mailbox still has the mail that is gone. -/
theorem nuked_mail_stays_in_its_box :
    ¬∀ s', Machine.run step blank [(game, letterTo [3]), (game, .nuke god)] = some s' →
      ∃ boxes, InBoxes s' boxes
        ([(game, letterTo [3]), (game, Op.nuke god)].foldl Letters.step Letters.empty) := by
  intro inBoxes
  have outcome : (Machine.run step blank [(game, letterTo [3]), (game, .nuke god)]).map (fun s' =>
      (s'.nhashfind 3, s'.live 0)) = some (some 0, false) := by decide
  obtain ⟨s', ran, after⟩ := Option.map_eq_some_iff.mp outcome
  rw [Prod.mk.injEq] at after
  obtain ⟨found, freed⟩ := after
  obtain ⟨boxes, holds⟩ := inBoxes s' ran
  have alive := holds.live 3 0 (holds.first_mem found)
  rw [freed] at alive
  cases alive

/-- What is meant by the counts and the texts: `all` are the mails of all mailboxes. -/
structure Counted (s : Post) (boxes : Dbref → List Addr) (all : List Addr) (letters : Letters) :
    Prop where
  once : all.Nodup
  everywhere : ∀ mp, mp ∈ all ↔ ∃ player, mp ∈ boxes player
  /-- The count of a slot is the number of the mails that have its number. -/
  counts : ∀ i < s.mailDbTop,
    (s.mailList i).count = (all.filter fun mp => (s.mail mp).number = i).length
  /-- A text is given up only when no mail names it: reading a mail gives what was sent in
  it. -/
  texts : ∀ player, (boxes player).map (fun mp => s.getMailMessage (s.mail mp).number) =
    (letters player).map fun letter => some (letter.text, s)

theorem Holds.counted (h : Holds True s boxes sent) :
    Counted s boxes ((List.range s.fresh).filter s.live) (lettersOf s boxes sent) where
  once := List.nodup_range.filter _
  everywhere := fun mp => by
    rw [List.mem_filter, List.mem_range]
    constructor
    · rintro ⟨_, alive⟩
      exact ⟨_, h.placed mp alive⟩
    · rintro ⟨player, mem⟩
      have alive := h.linked.live player mp mem
      refine ⟨?_, alive⟩
      by_contra above
      have dead := h.fresh mp (Nat.not_lt.mp above)
      rw [alive] at dead
      cases dead
  counts := fun i hin => by
    rw [h.counts trivial i hin, List.filter_filter, ← List.countP_eq_length_filter]
    refine congrArg _ (List.countP_congr fun mp _ => ?_)
    rw [uses, Bool.and_comm]
  texts := fun player => by
    rw [lettersOf, List.map_map]
    refine List.map_congr_left fun mp mem => ?_
    have alive := h.linked.live player mp mem
    obtain ⟨low, high⟩ := h.numbers mp alive
    rw [Post.getMailMessage, slot_eq low high, Option.bind_eq_bind, Option.bind_some,
      h.texts trivial mp alive]
    rfl

/-- In every run whose commands are sound, the counts are right in every state reached, and
reading a mail gives the text that was sent in it. -/
theorem sound_commands_keep_texts (started : Started s) {commands : List (World × Op)}
    (sound : Machine.Guarded step (Sound True) s commands) :
    ∃ s' boxes all, Machine.run step s commands = some s' ∧
      InBoxes s' boxes (commands.foldl Letters.step Letters.empty) ∧
      Counted s' boxes all (commands.foldl Letters.step Letters.empty) := by
  obtain ⟨s', ran, boxes, sent, holds, letters⟩ := run_simulates (started.carries True) sound
  exact ⟨s', boxes, _, ran, letters ▸ holds.inBoxes, letters ▸ holds.counted⟩

/-- A letter to two players; one is retracted, the other is read. -/
theorem sound_commands_keep_texts_retracted :
    ∃ s' boxes all, Machine.run step blank
        [(game, letterTo [3, 4]), (game, .retract 2 3 fun _ _ => true)] = some s' ∧
      InBoxes s' boxes ([(game, letterTo [3, 4]),
        (game, Op.retract 2 3 fun _ _ => true)].foldl Letters.step Letters.empty) ∧
      Counted s' boxes all ([(game, letterTo [3, 4]),
        (game, Op.retract 2 3 fun _ _ => true)].foldl Letters.step Letters.empty) := by
  apply sound_commands_keep_texts blank_started
  have hello : ¬Post.isClear "Hello".toList = true := by decide
  have players : Balanced game ([3, 4].map Recipient.target) := Or.inl (by decide)
  exact ⟨⟨fun clear => absurd clear hello, fun _ => players⟩,
    fun _ _ => ⟨trivial, fun _ _ => trivial⟩⟩

/-- A letter to a player and to a room: the text that the player got is given up. -/
theorem undelivered_text_is_lost :
    ¬∀ s', Machine.run step blank [(game, letterTo [3, 0])] = some s' →
      ∃ boxes all, InBoxes s' boxes
          ([(game, letterTo [3, 0])].foldl Letters.step Letters.empty) ∧
        Counted s' boxes all
          ([(game, letterTo [3, 0])].foldl Letters.step Letters.empty) := by
  intro counted
  have outcome : (Machine.run step blank [(game, letterTo [3, 0])]).map (fun s' =>
      (s'.nhashfind 3, (s'.mail 0).number, s'.mailDbTop, s'.mailList 0)) =
        some (some 0, 0, 2, ⟨none, 0⟩) := by decide
  obtain ⟨s', ran, after⟩ := Option.map_eq_some_iff.mp outcome
  simp only [Prod.mk.injEq] at after
  obtain ⟨found, number, top, slot⟩ := after
  obtain ⟨boxes, all, inBoxes, holds⟩ := counted s' ran
  have there : 0 ∈ all := (holds.everywhere 0).mpr ⟨3, inBoxes.first_mem found⟩
  have count := holds.counts 0 (by rw [top]; decide)
  rw [slot] at count
  have none' := List.length_eq_zero_iff.mp (Int.ofNat.inj count.symm)
  exact (List.filter_eq_nil_iff.mp none' 0 there) (by simp [number])

end BattletechMux.Postal
