/-
Module: BattletechMux.Postal.Delivery
Purpose: What sending does to the letters: a text is handed to one recipient after the other, and
  every player among them gets a letter with it.
-/
import BattletechMux.Postal.Shelves

namespace BattletechMux.Postal

open List Option

open Function (update update_self update_of_ne)

def letterOf (s : Post) (sent : Addr → Text) (mp : Addr) : Letter :=
  ⟨(s.mail mp).envelope, sent mp⟩

def lettersOf (s : Post) (boxes : Dbref → List Addr) (sent : Addr → Text) : Letters :=
  fun player => (boxes player).map (letterOf s sent)

def Keeps (strict : Prop) (s s' : Post) : Prop :=
  ∀ number text, Ready strict s number text → Ready strict s' number text

/-- The members of mail aliases that are no players, up to an alias that there is not. -/
def complaints (w : World) : List Recipient → Nat
  | [] => 0
  | .malias _ none :: _ => 0
  | .malias _ (some members) :: later =>
    (members.filter fun vic => !w.isPlayer vic).length + complaints w later
  | .target _ :: later => complaints w later

def Balanced (w : World) (recipients : List Recipient) : Prop :=
  (∀ target ∈ addressed w recipients, w.isPlayer target = true) ∨
    (∀ target ∈ addressed w recipients, w.isPlayer target = false) ∧ complaints w recipients ≤ 1

variable {strict : Prop} {s s' : Post} {boxes : Dbref → List Addr} {sent : Addr → Text}

theorem Keeps.trans {s'' : Post} (fst : Keeps strict s s') (snd : Keeps strict s' s'') :
    Keeps strict s s'' := fun number text ready => snd number text (fst number text ready)

theorem letterOf_congr (eq : s'.mail = s.mail) : letterOf s' sent = letterOf s sent := by
  funext mp
  rw [letterOf, letterOf, eq]

theorem lettersOf_congr (eq : s'.mail = s.mail) :
    lettersOf s' boxes sent = lettersOf s boxes sent := by
  funext player
  rw [lettersOf, lettersOf, letterOf_congr eq]

theorem Delivered.letters (holds : Holds strict s boxes sent) {m : Mail}
    (delivered : Delivered s s' m) (text : Text) :
    lettersOf s' (update boxes m.envelope.sentTo (boxes m.envelope.sentTo ++ [s.fresh]))
      (update sent s.fresh text) = (lettersOf s boxes sent).post ⟨m.envelope, text⟩ := by
  have old : ∀ player, (boxes player).map (letterOf s' (update sent s.fresh text)) =
      lettersOf s boxes sent player := by
    intro player
    refine map_congr_left fun mp mem => ?_
    have ne : mp ≠ s.fresh := fun eq => by
      have dead := holds.fresh mp (eq ▸ Nat.le_refl _)
      rw [holds.linked.live player mp mem] at dead
      cases dead
    rw [letterOf, letterOf, delivered.mail, update_of_ne ne,
      update_of_ne ne]
  have new : letterOf s' (update sent s.fresh text) s.fresh = ⟨m.envelope, text⟩ := by
    rw [letterOf, delivered.mail, update_self, update_self]
  funext player
  by_cases eq : player = m.envelope.sentTo
  · subst eq
    rw [lettersOf, update_self, map_append, map_singleton, old, new,
      Letters.post, update_self]
  · rw [lettersOf, update_of_ne eq, Letters.post, update_of_ne eq, old]

theorem Delivered.keeps {m : Mail} (delivered : Delivered s s' m) : Keeps strict s s' :=
  fun number _ ready => ⟨ready.low, by rw [delivered.mailDbTop]; exact ready.high, fun is => by
    rw [delivered.messages]
    exact ready.message is⟩

variable {number : Int}

theorem Delivered.spare {m : Mail} (delivered : Delivered s s' m)
    (spare : Spare strict s number) (ne : strict → m.number ≠ number) : Spare strict s' number := by
  refine ⟨spare.low, by rw [delivered.mailDbTop]; exact spare.high, fun is mp alive => ?_⟩
  rw [delivered.live] at alive
  rw [delivered.mail]
  by_cases eq : mp = s.fresh
  · rw [eq, update_self]
    exact ne is
  · rw [update_of_ne eq] at alive ⊢
    exact spare.unused is mp alive

/-! ## One recipient -/

variable {text : Text}

theorem sendMail_player (holds : Holds strict s boxes sent) {w : World} {target : Dbref}
    (isPlayer : w.isPlayer target = true) (player : Dbref) (tolist subject : Text)
    (flags : BitVec 32) (ready : Ready strict s number text) :
    ∃ s' boxes' sent', s.sendMail w player target tolist subject number flags = some s' ∧
      Holds strict s' boxes' sent' ∧ lettersOf s' boxes' sent' =
        (lettersOf s boxes sent).send w player target tolist subject text flags ∧
      Delivered s s' ⟨⟨target, player, w.time, subject, tolist, flags &&& mFmask⟩, number⟩ := by
  obtain ⟨s', inserted, delivered, holds'⟩ := holds.insertMail_spec
    (m := ⟨⟨target, player, w.time, subject, tolist, flags &&& mFmask⟩, number⟩) ready
  refine ⟨s', _, _, ?_, holds', ?_, delivered⟩
  · rw [Post.sendMail, isPlayer]
    exact inserted
  · rw [delivered.letters holds, Letters.send, if_pos isPlayer]

theorem sendMail_other (holds : Holds strict s boxes sent) {w : World} {target : Dbref}
    (o : w.isPlayer target = false) (player : Dbref) (tolist subject : Text)
    (flags : BitVec 32) (text : Text) (spare : Spare strict s number) :
    ∃ e, s.sendMail w player target tolist subject number flags =
        some (s.setEntry number.toNat e) ∧
      Holds strict (s.setEntry number.toNat e) boxes sent ∧
      lettersOf (s.setEntry number.toNat e) boxes sent =
        (lettersOf s boxes sent).send w player target tolist subject text flags := by
  obtain ⟨e, deleted, holds'⟩ := holds.deleteSpare spare
  refine ⟨e, ?_, holds', ?_⟩
  · rw [Post.sendMail, o]
    exact deleted
  · rw [Letters.send, o]
    rfl

theorem Ready.setEntry {number o : Int} (ready : Ready strict s number text)
    (low : 0 ≤ o) (ne : strict → number ≠ o) (e : MailEntry) :
    Ready strict (s.setEntry o.toNat e) number text := by
  refine ⟨ready.low, ready.high, fun is => ?_⟩
  have := ne is
  have := ready.low
  exact (congrArg MailEntry.message (update_of_ne (by omega) ..)).trans (ready.message is)

theorem aliasError_not_clear (vic : Dbref) (head : Text) :
    Post.isClear (Post.aliasError vic head) = false := by
  refine decide_eq_false fun eq => ?_
  have fst : 'A' :: ("lias Error: Bad Player ".toList ++ CText.decimal vic ++
    " for ".toList ++ head) = Post.aliasError vic head := rfl
  rw [← fst, map_cons] at eq
  have head := (cons.inj (eq.trans (show "clear".toList = 'c' :: "lear".toList from rfl))).1
  revert head
  decide

theorem complaint_spec (holds : Holds strict s boxes sent) (w : World) (player : Dbref)
    (tolist subject : Text) (vic : Dbref) (head : Text) :
    ∃ number s₁ s' boxes' sent',
      s.addMailMessage w player (Post.aliasError vic head) = some (number, s₁) ∧
      s₁.sendMail w god god tolist subject number 0 = some s' ∧
      Holds strict s' boxes' sent' ∧ lettersOf s' boxes' sent' =
        (lettersOf s boxes sent).send w god god tolist subject
          (w.evaluate player (Post.aliasError vic head)) 0 ∧
      Keeps strict s s' ∧
      ∀ o, Open s → (s.mailFreelist : Int) ≠ o → Spare strict s o →
        Spare strict s' o := by
  have clear := aliasError_not_clear vic head
  obtain ⟨number, s₁, added, holds₁, eq, _, ready, spare, _, used, fresh⟩ :=
    holds.addMailMessage_spec w player clear
  have spared : ∀ o, Spare strict s o → Spare strict s₁ o :=
    fun o old => by
      refine ⟨old.low, ?_, fun is mp alive => ?_⟩
      · have := old.high
        have := eq.mailDbTop
        omega
      · rw [eq.live] at alive
        rw [eq.mail]
        exact old.unused is mp alive
  cases isPlayer : w.isPlayer god with
  | true =>
    obtain ⟨s', boxes', sent', ran, holds', letters, delivered⟩ :=
      sendMail_player holds₁ isPlayer god tolist subject 0 ready
    refine ⟨number, s₁, s', boxes', sent', added, ran, holds', ?_, ?_, ?_⟩
    · rw [letters, lettersOf_congr eq.mail]
    · exact fun o text old => delivered.keeps o text (old.reshelved eq)
    · intro o open' free old
      exact delivered.spare (spared o old) fun _ is => free ((used open').symm.trans is)
  | false =>
    obtain ⟨e, ran, holds', letters⟩ := sendMail_other holds₁ isPlayer god tolist subject 0
      (w.evaluate player (Post.aliasError vic head)) spare
    refine ⟨number, s₁, _, boxes, sent, added, ran, holds', ?_, ?_, ?_⟩
    · rw [letters, lettersOf_congr eq.mail]
    · exact fun o text old => (old.reshelved eq).setEntry spare.low
        (fun is => fresh is o text old) e
    · intro o _ _ old
      have kept := spared o old
      exact ⟨kept.low, kept.high, kept.unused⟩

/-! ## Lists of recipients -/

section

variable (holds : Holds strict s boxes sent) (w : World) (player : Dbref)
include holds w player

theorem maliasSend_players (head tolist subject : Text) (flags : BitVec 32) {members : List Dbref}
    (ready : members.filter w.isPlayer ≠ [] → Ready strict s number text) :
    ∃ s' boxes' sent',
      Post.maliasSend w player head tolist subject number flags members s = some s' ∧
      Holds strict s' boxes' sent' ∧ lettersOf s' boxes' sent' =
        (lettersOf s boxes sent).sendMembers w player head tolist subject text flags members ∧
      Keeps strict s s' := by
  induction members generalizing s boxes sent with
  | nil => exact ⟨s, boxes, sent, rfl, holds, rfl, fun _ _ => id⟩
  | cons vic later ih =>
    rw [Post.maliasSend, Letters.sendMembers]
    cases isPlayer : w.isPlayer vic with
    | true =>
      obtain ⟨s₁, boxes₁, sent₁, ran, holds₁, letters, delivered⟩ := sendMail_player holds
        isPlayer player tolist subject flags (ready (by simp [isPlayer]))
      obtain ⟨s', boxes', sent', more, holds', letters', kept⟩ := ih holds₁
        fun _ => delivered.keeps _ _ (ready (by simp [isPlayer]))
      refine ⟨s', boxes', sent', ?_, holds', ?_, Keeps.trans delivered.keeps kept⟩
      · rw [if_pos rfl, ran]
        exact more
      · rw [letters', letters, if_pos rfl]
    | false =>
      obtain ⟨number', s₁, s₂, boxes₂, sent₂, added, ran, holds₂, letters, keeps, _⟩ :=
        complaint_spec holds w player tolist subject vic head
      obtain ⟨s', boxes', sent', more, holds', letters', kept⟩ := ih holds₂
        fun some' => keeps _ _ (ready (by simpa [isPlayer] using some'))
      refine ⟨s', boxes', sent', ?_, holds', ?_, Keeps.trans keeps kept⟩
      · rw [if_neg Bool.false_ne_true, added, bind_eq_bind, bind_some]
        dsimp only
        rw [ran]
        exact more
      · rw [letters', letters, if_neg Bool.false_ne_true]

theorem deliver_players (tolist subject : Text) (flags : BitVec 32) {recipients : List Recipient}
    (ready : addressed w recipients ≠ [] → Ready strict s number text)
    (players : strict → ∀ target ∈ addressed w recipients, w.isPlayer target = true) :
    ∃ s' boxes' sent', Post.deliver w player tolist subject number flags recipients s = some s' ∧
      Holds strict s' boxes' sent' ∧ lettersOf s' boxes' sent' =
        (lettersOf s boxes sent).sendAll w player tolist subject text flags recipients := by
  induction recipients generalizing s boxes sent with
  | nil => exact ⟨s, boxes, sent, rfl, holds, rfl⟩
  | cons recipient later ih =>
    cases recipient with
    | malias head members =>
      cases members with
      | none => exact ⟨s, boxes, sent, rfl, holds, rfl⟩
      | some members =>
        have split : addressed w (.malias head (some members) :: later) =
          members.filter w.isPlayer ++ addressed w later := rfl
        rw [split] at ready players
        obtain ⟨s₁, boxes₁, sent₁, ran, holds₁, letters, keeps⟩ :=
          maliasSend_players holds w player head tolist subject flags
            fun some' => ready fun none' => some' (append_eq_nil_iff.mp none').1
        obtain ⟨s', boxes', sent', more, holds', letters'⟩ := ih holds₁
          (fun some' => keeps _ _ (ready fun none' => some' (append_eq_nil_iff.mp none').2))
          fun is target mem => players is target (mem_append_right _ mem)
        refine ⟨s', boxes', sent', ?_, holds', ?_⟩
        · rw [Post.deliver, ran]
          exact more
        · rw [letters', letters, Letters.sendAll]
    | target target =>
      rw [Post.deliver, Letters.sendAll]
      by_cases nobody : target = nothing
      · have eq : addressed w (.target target :: later) = addressed w later := if_pos nobody
        rw [eq] at ready players
        rw [if_pos nobody, if_pos nobody]
        exact ih holds ready players
      · have split : addressed w (.target target :: later) = target :: addressed w later :=
          if_neg nobody
        rw [split] at ready players
        have fst := ready (cons_ne_nil _ _)
        rw [if_neg nobody, if_neg nobody]
        have rest : strict → ∀ target ∈ addressed w later, w.isPlayer target = true :=
          fun is target mem => players is target (mem_cons_of_mem _ mem)
        cases isPlayer : w.isPlayer target with
        | true =>
          obtain ⟨s₁, boxes₁, sent₁, ran, holds₁, letters, delivered⟩ :=
            sendMail_player holds isPlayer player tolist subject flags fst
          obtain ⟨s', boxes', sent', more, holds', letters'⟩ := ih holds₁
            (fun _ => delivered.keeps _ _ fst) rest
          refine ⟨s', boxes', sent', ?_, holds', ?_⟩
          · rw [ran]
            exact more
          · rw [letters', letters]
        | false =>
          have loose : ¬strict := fun is => by
            have := players is target mem_cons_self
            rw [isPlayer] at this
            cases this
          obtain ⟨e, ran, holds₁, letters⟩ := sendMail_other holds isPlayer player tolist
            subject flags text ⟨fst.low, fst.high, fun is => absurd is loose⟩
          obtain ⟨s', boxes', sent', more, holds', letters'⟩ := ih holds₁
            (fun _ => ⟨fst.low, fst.high, fun is => absurd is loose⟩) rest
          refine ⟨s', boxes', sent', ?_, holds', ?_⟩
          · rw [ran]
            exact more
          · rw [letters', letters]

theorem maliasSend_nobody (head tolist subject : Text) (flags : BitVec 32) (text : Text)
    {members : List Dbref} (nobody : members.filter w.isPlayer = [])
    (few : (members.filter fun vic => !w.isPlayer vic).length ≤ 1) (spare : Spare strict s number)
    (free : (members.filter fun vic => !w.isPlayer vic).length = 1 →
      Open s ∧ (s.mailFreelist : Int) ≠ number) :
    ∃ s' boxes' sent',
      Post.maliasSend w player head tolist subject number flags members s = some s' ∧
      Holds strict s' boxes' sent' ∧ lettersOf s' boxes' sent' =
        (lettersOf s boxes sent).sendMembers w player head tolist subject text flags members ∧
      Spare strict s' number ∧ (members = [] → s' = s) := by
  have all : (members.filter fun vic => !w.isPlayer vic) = members := by
    refine filter_eq_self.mpr fun vic mem => ?_
    have not' := filter_eq_nil_iff.mp nobody vic mem
    simpa using not'
  rw [all] at few free
  match members, few with
  | [], _ => exact ⟨s, boxes, sent, rfl, holds, rfl, spare, fun _ => rfl⟩
  | [vic], _ =>
    have isPlayer : w.isPlayer vic = false := by
      simpa using filter_eq_nil_iff.mp nobody vic mem_cons_self
    obtain ⟨open', o⟩ := free rfl
    obtain ⟨number', s₁, s', boxes', sent', added, ran, holds', letters, _, spared⟩ :=
      complaint_spec holds w player tolist subject vic head
    refine ⟨s', boxes', sent', ?_, holds', ?_, spared number open' o spare,
      fun none' => absurd none' (cons_ne_nil _ _)⟩
    · rw [Post.maliasSend, isPlayer, if_neg Bool.false_ne_true, added, bind_eq_bind,
        bind_some]
      dsimp only
      rw [ran]
      rfl
    · rw [letters, Letters.sendMembers, Letters.sendMembers, isPlayer,
        if_neg Bool.false_ne_true]

theorem deliver_nobody
    (tolist subject : Text) (flags : BitVec 32) (text : Text) {recipients : List Recipient}
    (nobody : ∀ target ∈ addressed w recipients, w.isPlayer target = false)
    (few : complaints w recipients ≤ 1) (spare : Spare strict s number)
    (free : complaints w recipients = 1 → Open s ∧ (s.mailFreelist : Int) ≠ number) :
    ∃ s' boxes' sent', Post.deliver w player tolist subject number flags recipients s = some s' ∧
      Holds strict s' boxes' sent' ∧ lettersOf s' boxes' sent' =
        (lettersOf s boxes sent).sendAll w player tolist subject text flags recipients := by
  induction recipients generalizing s boxes sent with
  | nil => exact ⟨s, boxes, sent, rfl, holds, rfl⟩
  | cons recipient later ih =>
    cases recipient with
    | malias head members =>
      cases members with
      | none => exact ⟨s, boxes, sent, rfl, holds, rfl⟩
      | some members =>
        have split : addressed w (.malias head (some members) :: later) =
          members.filter w.isPlayer ++ addressed w later := rfl
        have count : complaints w (.malias head (some members) :: later) =
          (members.filter fun vic => !w.isPlayer vic).length + complaints w later := rfl
        rw [split] at nobody
        rw [count] at few free
        have none' : members.filter w.isPlayer = [] := by
          refine filter_eq_nil_iff.mpr fun vic mem isPlayer => ?_
          have := nobody vic (mem_append_left _ (mem_filter.mpr ⟨mem, isPlayer⟩))
          rw [isPlayer] at this
          cases this
        obtain ⟨s₁, boxes₁, sent₁, ran, holds₁, letters, spare₁, idle⟩ :=
          maliasSend_nobody holds w player head tolist subject flags text none' (by omega)
            spare fun one => free (by omega)
        obtain ⟨s', boxes', sent', more, holds', letters'⟩ := ih holds₁
          (fun target mem => nobody target (mem_append_right _ mem)) (by omega)
          spare₁ fun one => by
            -- the complaint is still to come, so this alias had nobody
            have empty : members = [] := by
              rw [← length_eq_zero_iff]
              have all := members.length_eq_length_filter_add w.isPlayer
              rw [none', length_nil] at all
              omega
            rw [idle empty]
            exact free (by omega)
        refine ⟨s', boxes', sent', ?_, holds', ?_⟩
        · rw [Post.deliver, ran]
          exact more
        · rw [letters', letters, Letters.sendAll]
    | target target =>
      have count : complaints w (.target target :: later) = complaints w later := rfl
      rw [count] at few free
      rw [Post.deliver, Letters.sendAll]
      by_cases noTarget : target = nothing
      · have eq : addressed w (.target target :: later) = addressed w later :=
          if_pos noTarget
        rw [eq] at nobody
        rw [if_pos noTarget, if_pos noTarget]
        exact ih holds nobody few spare free
      · have split : addressed w (.target target :: later) = target :: addressed w later :=
          if_neg noTarget
        rw [split] at nobody
        rw [if_neg noTarget, if_neg noTarget]
        obtain ⟨e, ran, holds₁, letters⟩ := sendMail_other holds
          (nobody target mem_cons_self) player tolist subject flags text spare
        obtain ⟨s', boxes', sent', more, holds', letters'⟩ := ih holds₁
          (fun target mem => nobody target (mem_cons_of_mem _ mem)) few
          ⟨spare.low, spare.high, spare.unused⟩ fun one => by
            obtain ⟨open', o⟩ := free one
            have low := spare.low
            refine ⟨⟨open'.inside, ?_⟩, o⟩
            exact (congrArg MailEntry.message (update_of_ne
              (show s.mailFreelist ≠ number.toNat by omega) ..)).trans open'.empty
        refine ⟨s', boxes', sent', ?_, holds', ?_⟩
        · rw [ran]
          exact more
        · rw [letters', letters]

theorem mailToList_spec
    (recipients : List Recipient) (tolist subject message : Text) (flags : BitVec 32)
    (clear : Post.isClear message = true → addressed w recipients = [])
    (balanced : strict → Balanced w recipients) :
    ∃ s' boxes' sent',
      s.mailToList w player recipients tolist subject message flags = some s' ∧
      Holds strict s' boxes' sent' ∧ lettersOf s' boxes' sent' =
        (lettersOf s boxes sent).sendAll w player tolist subject (w.evaluate player message) flags
          recipients := by
  rw [Post.mailToList]
  by_cases empty : recipients = []
  · rw [if_pos empty, empty]
    exact ⟨s, boxes, sent, rfl, holds, rfl⟩
  rw [if_neg empty]
  cases is : Post.isClear message with
  | true =>
    have nobody := clear is
    rw [Post.addMailMessage, if_pos is, bind_eq_bind, bind_some]
    refine deliver_players holds w player tolist subject flags
      (fun some' => absurd nobody some') fun _ target mem => ?_
    rw [nobody] at mem
    cases mem
  | false =>
    obtain ⟨number, s₁, added, holds₁, eq, open', ready, spare, o, _⟩ :=
      holds.addMailMessage_spec w player is
    rw [added, bind_eq_bind, bind_some, ← lettersOf_congr eq.mail]
    by_cases players : strict → ∀ target ∈ addressed w recipients, w.isPlayer target = true
    · exact deliver_players holds₁ w player tolist subject flags (fun _ => ready) players
    · obtain ⟨is, not'⟩ := Classical.not_imp.mp players
      obtain ⟨nobody, few⟩ := (balanced is).resolve_left not'
      exact deliver_nobody holds₁ w player tolist subject flags _ nobody few spare
        fun _ => ⟨open', o⟩

end

end BattletechMux.Postal
