/-
Module: BattletechMux.Channels.Members
Purpose: One channel: the sorted array of its users and the list of those that are connected, and
  what joining, connecting, disconnecting and leaving do to them.
-/
import BattletechMux.Foundation.Bisect
import BattletechMux.Channels.Comsys

namespace BattletechMux.Channels

open List Option

open Function (update update_self update_of_ne)
open LinkedMemory (Chain)
open Bisection (Increasing mem_middle)
open BattletechMux.Hash (CString)

/-- The array of a channel's users is sorted by who, and the list of the connected ones is
among them. -/
structure Wired (s : Comsys) (ch : Addr) (on : List Addr) : Prop where
  here : s.channelLive ch = true
  increasing : Increasing (fun user => (s.user user).who) (s.channel ch).users
  live : ∀ user ∈ (s.channel ch).users, s.userLive user = true
  /-- There is a cell left over in the array, unless it is empty. -/
  room : (s.channel ch).users = [] ∨ (s.channel ch).users.length < (s.channel ch).maxUsers
  chain : Chain s.onNext (s.channel ch).onUsers on
  members : ∀ user ∈ on, user ∈ (s.channel ch).users

structure Touched (ch : Addr) (s s' : Comsys) : Prop where
  htab : s'.channelHtab = s.channelHtab
  count : s'.numChannels = s.numChannels
  live : s'.channelLive = s.channelLive
  fresh : s'.freshChannel = s.freshChannel
  others : ∀ other, other ≠ ch → s'.channel other = s.channel other
  name : (s'.channel ch).name = (s.channel ch).name
  frame : ∀ user, user ∉ (s.channel ch).users → s.userLive user = true →
    s'.user user = s.user user ∧ s'.userLive user = true ∧ s'.onNext user = s.onNext user
  users : ∀ user ∈ (s'.channel ch).users,
    user ∈ (s.channel ch).users ∨ s.userLive user = false
  bound : (∀ user, s.freshUser ≤ user → s.userLive user = false) →
    ∀ user, s'.freshUser ≤ user → s'.userLive user = false

namespace Touched

variable {ch : Addr} {s s' s'' : Comsys}

theorem refl (ch : Addr) (s : Comsys) : Touched ch s s where
  htab := rfl
  count := rfl
  live := rfl
  fresh := rfl
  others := fun _ _ => rfl
  name := rfl
  frame := fun _ _ alive => ⟨rfl, alive, rfl⟩
  users := fun _ mem => Or.inl mem
  bound := id

theorem trans (fst : Touched ch s s') (snd : Touched ch s' s'') : Touched ch s s'' where
  htab := snd.htab.trans fst.htab
  count := snd.count.trans fst.count
  live := snd.live.trans fst.live
  fresh := snd.fresh.trans fst.fresh
  others := fun o ne => (snd.others o ne).trans (fst.others o ne)
  name := snd.name.trans fst.name
  frame := fun user outside alive => by
    obtain ⟨eq, alive', link⟩ := fst.frame user outside alive
    have outside' : user ∉ (s'.channel ch).users := by
      intro mem
      rcases fst.users user mem with mem | dead
      · exact outside mem
      · rw [alive] at dead
        cases dead
    obtain ⟨same', alive'', link'⟩ := snd.frame user outside' alive'
    exact ⟨same'.trans eq, alive'', link'.trans link⟩
  users := fun user mem => by
    rcases snd.users user mem with mem | dead
    · exact fst.users user mem
    · by_cases hin : user ∈ (s.channel ch).users
      · exact Or.inl hin
      · cases alive : s.userLive user with
        | false => exact Or.inr rfl
        | true =>
          have alive' := (fst.frame user hin alive).2.1
          rw [alive'] at dead
          cases dead
  bound := fun bound => snd.bound (fst.bound bound)

end Touched

section Reading

variable {s : Comsys} {ch : Addr} {on : List Addr}

theorem readUser_of_live {user : Addr} (alive : s.userLive user = true) :
    s.readUser user = some (s.user user) := if_pos alive

theorem Wired.read (wired : Wired s ch on) : s.readChannel ch = some (s.channel ch) :=
  if_pos wired.here

theorem Wired.short (wired : Wired s ch on)
    (bound : ∀ user, s.freshUser ≤ user → s.userLive user = false) :
    on.length < s.freshUser + 1 := by
  refine Nat.lt_succ_of_le (LinkedMemory.length_le_of_lt wired.chain.nodup fun user mem => ?_)
  refine Nat.lt_of_not_le fun above => ?_
  have alive := wired.live user (wired.members user mem)
  rw [bound user above] at alive
  cases alive

theorem heardBy_spec {limit : Nat} {start : Option Addr} (chain : Chain s.onNext start on)
    (alive : ∀ user ∈ on, s.userLive user = true) (hlt : on.length < limit) :
    ∃ heard, s.heardBy limit start = some heard := by
  induction on generalizing limit start with
  | nil =>
    obtain ⟨limit, rfl⟩ := Nat.exists_eq_succ_of_ne_zero (Nat.ne_of_gt hlt)
    exact ⟨[], by rw [chain]; rfl⟩
  | cons user rest ih =>
    obtain ⟨limit, rfl⟩ := Nat.exists_eq_succ_of_ne_zero (Nat.ne_of_gt (Nat.zero_lt_of_lt hlt))
    obtain ⟨heard, ran⟩ := ih chain.2
      (fun o mem => alive o (mem_cons_of_mem user mem))
      (Nat.lt_of_succ_lt_succ hlt)
    refine ⟨if (s.user user).on then (s.user user).who :: heard else heard, ?_⟩
    rw [chain.1, Comsys.heardBy, readUser_of_live (alive user mem_cons_self),
      bind_eq_bind, bind_some, ran]
    rfl

theorem findOn_spec {limit : Nat} {start : Option Addr} (prevuser : Option Addr) (player : Dbref)
    (chain : Chain s.onNext start on) (alive : ∀ user ∈ on, s.userLive user = true)
    (hlt : on.length < limit) :
    (s.findOn player limit prevuser start = some none ∧
        ∀ user ∈ on, (s.user user).who ≠ player) ∨
      ∃ pre user post, on = pre ++ user :: post ∧ (s.user user).who = player ∧
        s.findOn player limit prevuser start = some (some (pre.getLast?.or prevuser, user)) := by
  induction on generalizing limit start prevuser with
  | nil =>
    obtain ⟨limit, rfl⟩ := Nat.exists_eq_succ_of_ne_zero (Nat.ne_of_gt hlt)
    refine Or.inl ⟨by rw [chain]; rfl, fun user mem => ?_⟩
    cases mem
  | cons user rest ih =>
    obtain ⟨limit, rfl⟩ := Nat.exists_eq_succ_of_ne_zero (Nat.ne_of_gt (Nat.zero_lt_of_lt hlt))
    rw [chain.1, Comsys.findOn, readUser_of_live (alive user mem_cons_self),
      bind_eq_bind, bind_some]
    by_cases is : (s.user user).who = player
    · rw [if_pos is]
      exact Or.inr ⟨[], user, rest, rfl, is, rfl⟩
    · rw [if_neg is]
      rcases ih (some user) chain.2
          (fun o mem => alive o (mem_cons_of_mem user mem))
          (Nat.lt_of_succ_lt_succ hlt) with
        ⟨ran, missing⟩ | ⟨pre, hf, post, split, is', ran⟩
      · refine Or.inl ⟨ran, fun o mem => ?_⟩
        rcases mem_cons.mp mem with rfl | later
        · exact is
        · exact missing o later
      · refine Or.inr ⟨user :: pre, hf, post, by rw [split]; rfl, is', ?_⟩
        rw [ran]
        cases pre <;> simp [getLast?_cons]

theorem selectLoop_eq {users : List Addr} (alive : ∀ user ∈ users, s.userLive user = true)
    (player : Dbref) (limit : Nat) (fst last : Int) :
    s.selectLoop users player limit fst last =
      (Bisection.bisect (fun user => (s.user user).who) users player limit fst last).bind
        fun hf => if hf.1 then users[hf.2]?.map some else some none := by
  induction limit generalizing fst last with
  | zero => rfl
  | succ limit ih =>
    rw [Comsys.selectLoop, Bisection.bisect]
    by_cases more : fst ≤ last
    · have middle : (last - fst) / 2 + fst = (fst + last) / 2 := by omega
      simp only [if_pos more, middle]
      cases is : users[((fst + last) / 2).toNat]? with
      | none => rfl
      | some user =>
        simp only [readUser_of_live (alive user (mem_of_getElem? is)),
          bind_eq_bind, bind_some]
        by_cases equal : (s.user user).who = player
        · simp [equal, is]
        · rw [if_neg equal, if_neg equal]
          by_cases less : (s.user user).who < player
          · rw [if_pos less, if_neg (lt_asymm less), ih]
          · have above := lt_of_le_of_ne (not_lt.mp less) (Ne.symm equal)
            rw [if_neg less, if_pos above, ih]
    · simp [if_neg more]

theorem selectUser_spec (wired : Wired s ch on) (player : Dbref) :
    ∃ hf, s.selectUser ch player = some hf ∧
      ∀ user, hf = some user ↔ user ∈ (s.channel ch).users ∧ (s.user user).who = player := by
  obtain ⟨hf, ran, where'⟩ := Bisection.bisect_spec wired.increasing player
  rw [Comsys.selectUser, wired.read, bind_eq_bind, bind_some,
    selectLoop_eq wired.live, ran, bind_some]
  cases where' with
  | @present pre post cell split equal =>
    refine ⟨some cell, by simp [split], fun user => ?_⟩
    have mem : cell ∈ (s.channel ch).users := split ▸ mem_append_right _ mem_cons_self
    constructor
    · rintro ⟨⟩
      exact ⟨mem, equal⟩
    · rintro ⟨there, is⟩
      exact congrArg some (wired.increasing.injective mem there (equal.trans is.symm))
  | absent split smaller larger =>
    refine ⟨none, rfl, fun user => ⟨nofun, ?_⟩⟩
    rintro ⟨mem, is⟩
    rw [split] at mem
    rcases mem_append.mp mem with earlier | later
    · exact absurd is (ne_of_lt (smaller user earlier))
    · exact absurd is (ne_of_gt (larger user later))

theorem placeOf_spec (wired : Wired s ch on) {player : Dbref}
    (missing : ∀ user ∈ (s.channel ch).users, (s.user user).who ≠ player) {i : Nat}
    {front back : List Addr} (split : (s.channel ch).users = front ++ back)
    (length : front.length = i) (larger : ∀ user ∈ back, player < (s.user user).who) :
    ∃ pre post, s.placeOf (s.channel ch).users player i = some pre.length ∧
      (s.channel ch).users = pre ++ post ∧
      (∀ user ∈ pre, (s.user user).who < player) ∧
      ∀ user ∈ post, player < (s.user user).who := by
  induction i generalizing front back with
  | zero =>
    have none' : front = [] := eq_nil_of_length_eq_zero length
    subst none'
    refine ⟨[], back, rfl, split, fun o mem => ?_, larger⟩
    cases mem
  | succ i ih =>
    obtain ⟨front, user, rfl⟩ : ∃ front' user, front = front' ++ [user] := by
      rcases eq_nil_or_concat front with rfl | ⟨front', user, rfl⟩
      · cases length
      · exact ⟨front', user, concat_eq_append⟩
    have length' : front.length = i := by simpa using length
    have there : (s.channel ch).users[i]? = some user := by simp [split, ← length']
    have mem := mem_of_getElem? there
    rw [Comsys.placeOf, there]
    simp only [readUser_of_live (wired.live user mem), bind_eq_bind, bind_some]
    by_cases above : player < (s.user user).who
    · rw [if_pos above]
      refine ih (split.trans (append_assoc ..)) length' ?_
      intro o inBack
      rcases mem_cons.mp inBack with rfl | later
      · exact above
      · exact larger o later
    · rw [if_neg above]
      have below : (s.user user).who < player :=
        lt_of_le_of_ne (not_lt.mp above) (missing user mem)
      refine ⟨front ++ [user], back, congrArg some length.symm, split, fun o inFront => ?_,
        larger⟩
      have increasing := wired.increasing
      rw [split, append_assoc, singleton_append] at increasing
      rcases mem_append.mp inFront with earlier | eq
      · exact Int.lt_trans (increasing.smaller.1 o earlier) below
      · rw [mem_singleton.mp eq]
        exact below

end Reading

/-! ## What the commands do to a channel -/

section Changing

variable {s : Comsys} {ch : Addr} {on : List Addr}

@[simp] theorem setChannel_self (s : Comsys) (ch : Addr) (cell : Channel) :
    (s.setChannel ch cell).channel ch = cell := update_self ..

theorem setChannel_of_ne (s : Comsys) (cell : Channel) {ch o : Addr} (ne : o ≠ ch) :
    (s.setChannel ch cell).channel o = s.channel o := update_of_ne ne ..

theorem Touched.set {cell : Channel} (name : cell.name = (s.channel ch).name)
    (users : ∀ user ∈ cell.users, user ∈ (s.channel ch).users) :
    Touched ch s (s.setChannel ch cell) where
  htab := rfl
  count := rfl
  live := rfl
  fresh := rfl
  others := fun _ ne => setChannel_of_ne s cell ne
  name := by rw [setChannel_self, name]
  frame := fun _ _ alive => ⟨rfl, alive, rfl⟩
  users := fun user mem => by
    rw [setChannel_self] at mem
    exact Or.inl (users user mem)
  bound := id

section

variable (wired : Wired s ch on) (bound : ∀ user, s.freshUser ≤ user → s.userLive user = false)
  (w : World)
include wired bound w

theorem comsend_eq (mess : CString) :
    ∃ history count, s.doComsend w ch mess = some (s.setChannel ch
      { s.channel ch with lastMessages := history, numMessages := count }) := by
  obtain ⟨heard, ran⟩ := heardBy_spec wired.chain
    (fun user mem => wired.live user (wired.members user mem)) (wired.short bound)
  rw [Comsys.doComsend, wired.read, bind_eq_bind, bind_some, ran]
  exact ⟨_, _, rfl⟩

theorem announce_eq (player : Dbref) (what : String) :
    ∃ history count, s.announce w player ch what = some (s.setChannel ch
      { s.channel ch with lastMessages := history, numMessages := count }) := by
  rw [Comsys.announce, wired.read, bind_eq_bind, bind_some]
  split
  · refine ⟨(s.channel ch).lastMessages, (s.channel ch).numMessages, ?_⟩
    rw [Comsys.setChannel, Function.update_eq_self]
  · exact comsend_eq wired bound w _

theorem announce_wired (player : Dbref) (what : String) :
    ∃ s', s.announce w player ch what = some s' ∧ Wired s' ch on ∧ Touched ch s s' ∧
      s'.userLive = s.userLive ∧ s'.user = s.user ∧
      (s'.channel ch).users = (s.channel ch).users := by
  obtain ⟨history, count, ran⟩ := announce_eq wired bound w player what
  refine ⟨_, ran, ⟨wired.here, ?_, ?_, ?_, ?_, ?_⟩, Touched.set rfl fun user mem => mem,
    rfl, rfl, by rw [setChannel_self]⟩ <;> rw [setChannel_self]
  · exact wired.increasing
  · exact wired.live
  · exact wired.room
  · exact wired.chain
  · exact wired.members

end

section

variable (wired : Wired s ch on)
include wired

theorem link_wired {user : Addr} (mem : user ∈ (s.channel ch).users) (off : user ∉ on) :
    let s' := { s with onNext := update s.onNext user (s.channel ch).onUsers }
    Wired (s'.setChannel ch { s.channel ch with onUsers := some user }) ch (user :: on) ∧
      Touched ch s (s'.setChannel ch { s.channel ch with onUsers := some user }) := by
  refine ⟨⟨wired.here, ?_, ?_, ?_, ?_, ?_⟩, ?_⟩
  · rw [setChannel_self]
    exact wired.increasing
  · rw [setChannel_self]
    exact wired.live
  · rw [setChannel_self]
    exact wired.room
  · rw [setChannel_self]
    exact wired.chain.push off
  · rw [setChannel_self]
    intro o inList
    rcases mem_cons.mp inList with rfl | inList
    · exact mem
    · exact wired.members o inList
  · refine ⟨rfl, rfl, rfl, rfl, fun o ne => setChannel_of_ne _ _ ne, ?_, ?_, ?_,
      id⟩
    · rw [setChannel_self]
    · intro o outside alive
      have ne : o ≠ user := fun eq => outside (eq ▸ mem)
      exact ⟨rfl, alive, update_of_ne ne ..⟩
    · rw [setChannel_self]
      exact fun o inUsers => Or.inl inUsers

theorem connect_wired
    (bound : ∀ user, s.freshUser ≤ user → s.userLive user = false) (player : Dbref) :
    ∃ s' on', s.connectAt player ch = some s' ∧ Wired s' ch on' ∧ Touched ch s s' := by
  rw [Comsys.connectAt, wired.read, bind_eq_bind, bind_some]
  rcases findOn_spec none player wired.chain
      (fun user mem => wired.live user (wired.members user mem)) (wired.short bound) with
    ⟨ran, missing⟩ | ⟨pre, user, post, _, _, ran⟩
  · obtain ⟨hf, selected, is⟩ := selectUser_spec wired player
    simp only [ran, selected, bind_eq_bind, bind_some]
    cases hf with
    | none => exact ⟨s, on, rfl, wired, Touched.refl ch s⟩
    | some user =>
      obtain ⟨mem, who⟩ := (is user).mp rfl
      have linked := link_wired wired mem fun inList => missing user inList who
      exact ⟨_, user :: on, rfl, linked.1, linked.2⟩
  · rw [ran]
    exact ⟨s, on, rfl, wired, Touched.refl ch s⟩

theorem disconnect_wired
    (bound : ∀ user, s.freshUser ≤ user → s.userLive user = false) (player : Dbref) :
    ∃ s' on', s.disconnectAt player ch = some s' ∧ Wired s' ch on' ∧ Touched ch s s' ∧
      (∀ user ∈ on', (s'.user user).who ≠ player) ∧ s'.user = s.user ∧
      (s'.channel ch).users = (s.channel ch).users := by
  rw [Comsys.disconnectAt, wired.read, bind_eq_bind, bind_some]
  rcases findOn_spec none player wired.chain
      (fun user mem => wired.live user (wired.members user mem)) (wired.short bound) with
    ⟨ran, missing⟩ | ⟨pre, user, post, split, who, ran⟩
  · rw [ran]
    exact ⟨s, on, rfl, wired, Touched.refl ch s, missing, rfl, rfl⟩
  · have chain := wired.chain
    have members := wired.members
    rw [split] at chain members
    -- the player is no other user of the channel
    have among : ∀ o ∈ pre ++ post, o ∈ (s.channel ch).users :=
      fun o inList => members o (mem_middle.mpr (Or.inr inList))
    have others : ∀ o ∈ pre ++ post, (s.user o).who ≠ player := by
      intro o inList is
      have eq := wired.increasing.injective (among o inList)
        (members user (mem_middle.mpr (Or.inl rfl))) (is.trans who.symm)
      rw [eq] at inList
      exact (nodup_middle.mp chain.nodup).notMem inList
    rw [ran]
    rcases eq_nil_or_concat pre with rfl | ⟨front, prevuser, rfl⟩
    · refine ⟨_, post, rfl, ⟨wired.here, ?_, ?_, ?_, ?_, ?_⟩,
        Touched.set rfl fun o mem => mem, others, rfl, by rw [setChannel_self]⟩ <;>
        rw [setChannel_self]
      · exact wired.increasing
      · exact wired.live
      · exact wired.room
      · exact chain.2
      · exact among
    · rw [concat_eq_append, getLast?_concat]
      have whole : Chain s.onNext (s.channel ch).onUsers (front ++ prevuser :: user :: post) := by
        simpa using chain
      refine ⟨_, front.concat prevuser ++ post, rfl,
        ⟨wired.here, wired.increasing, wired.live, wired.room, ?_, among⟩,
        ⟨rfl, rfl, rfl, rfl, fun _ _ => rfl, rfl, fun o outside alive => ?_,
          fun _ mem => Or.inl mem, id⟩, others, rfl, rfl⟩
      · simpa using whole.skip
      · have ne : o ≠ prevuser := by
          rintro rfl
          exact outside (members _ (by simp))
        exact ⟨rfl, alive, update_of_ne ne ..⟩

theorem farewell_wired
    (bound : ∀ user, s.freshUser ≤ user → s.userLive user = false) (w : World) (player : Dbref)
    (was : Bool) :
    ∃ s', s.farewell w player ch was = some s' ∧ Wired s' ch on ∧ Touched ch s s' ∧
      s'.userLive = s.userLive ∧ s'.user = s.user ∧
      (s'.channel ch).users = (s.channel ch).users := by
  rw [Comsys.farewell]
  split
  · exact announce_wired wired bound w player _
  · exact ⟨s, rfl, wired, Touched.refl ch s, rfl, rfl, rfl⟩

theorem dropUser_wired
    (bound : ∀ user, s.freshUser ≤ user → s.userLive user = false) (w : World) (player : Dbref)
    {pre post : List Addr} {user : Addr}
    (split : (s.channel ch).users = pre ++ user :: post) (off : user ∉ on) :
    ∃ s', s.dropUser w player ch pre.length user = some s' ∧ Wired s' ch on ∧
      Touched ch s s' ∧ (s'.channel ch).users = pre ++ post ∧ s'.user = s.user := by
  have alive := wired.live user (by simp [split])
  obtain ⟨said, ran, wired', touched, live, users, eq⟩ :=
    farewell_wired wired bound w player (s.user user).on
  have split' := eq.trans split
  have alive' : said.userLive user = true := live ▸ alive
  have others : ∀ o ∈ pre ++ post,
      o ∈ (said.channel ch).users ∧ o ≠ user := by
    intro o mem
    refine ⟨split' ▸ mem_middle.mpr (Or.inr mem), ?_⟩
    rintro rfl
    have nodup := split' ▸ Bisection.Increasing.nodup wired'.increasing
    exact (nodup_middle.mp nodup).notMem mem
  have increasing := wired'.increasing
  rw [split'] at increasing
  have erased : (pre ++ user :: post).eraseIdx pre.length = pre ++ post := by
    rw [eraseIdx_append_of_length_le (Nat.le_refl _), Nat.sub_self]
    rfl
  let s' : Comsys := { said with userLive := update said.userLive user false }
  refine ⟨s'.setChannel ch { said.channel ch with users := pre ++ post }, ?_,
    ⟨wired'.here, ?_, ?_, ?_, ?_, ?_⟩, touched.trans ⟨rfl, rfl, rfl, rfl, ?_, ?_, ?_, ?_, ?_⟩, ?_,
    users⟩
  · have read : s'.readChannel ch = some (said.channel ch) := if_pos wired'.here
    simp only [Comsys.dropUser, readUser_of_live alive, bind_eq_bind, bind_some, ran,
      Comsys.freeUser, if_pos alive']
    rw [read, bind_some, split', erased]
  · rw [setChannel_self]
    exact increasing.erase.1
  · rw [setChannel_self]
    intro o mem
    obtain ⟨hin, ne⟩ := others o mem
    exact (update_of_ne ne ..).trans (wired'.live o hin)
  · rw [setChannel_self]
    rcases wired'.room with none' | room
    · rw [split'] at none'
      exact absurd none' (by simp)
    · refine Or.inr ?_
      rw [split'] at room
      simp only [length_append, length_cons] at room ⊢
      omega
  · rw [setChannel_self]
    exact wired'.chain
  · rw [setChannel_self]
    intro o mem
    have hin := wired'.members o mem
    rw [split'] at hin
    rcases mem_middle.mp hin with rfl | hin
    · exact absurd mem off
    · exact hin
  · exact fun o ne => setChannel_of_ne s' _ ne
  · rw [setChannel_self]
  · intro o outside alive'
    have ne : o ≠ user := by
      rintro rfl
      exact outside (split' ▸ mem_append_right _ mem_cons_self)
    exact ⟨rfl, (update_of_ne ne ..).trans alive', rfl⟩
  · rw [setChannel_self]
    exact fun o mem => Or.inl (others o mem).1
  · intro bound' o above
    by_cases is : o = user
    · rw [is]
      exact update_self ..
    · exact (update_of_ne is ..).trans (bound' o above)
  · rw [setChannel_self]

end

/-- The memory with a new user for a player, that is linked in front of a list when it is
connected. -/
def withUser (s : Comsys) (player : Dbref) (connected : Bool) (onUsers : Option Addr) : Comsys :=
  { s with
    user := update s.user s.freshUser ⟨player, true, []⟩
    userLive := update s.userLive s.freshUser true
    freshUser := s.freshUser + 1
    onNext := if connected then update s.onNext s.freshUser onUsers else s.onNext }

theorem withUser_old (s : Comsys) (player : Dbref) (connected : Bool) (onUsers : Option Addr)
    {user : Addr} (old : user ≠ s.freshUser) :
    (withUser s player connected onUsers).user user = s.user user ∧
      (withUser s player connected onUsers).userLive user = s.userLive user ∧
      (withUser s player connected onUsers).onNext user = s.onNext user := by
  refine ⟨update_of_ne old .., update_of_ne old .., ?_⟩
  cases connected with
  | true => exact update_of_ne old ..
  | false => rfl

theorem enroll_wired (wired : Wired s ch on)
    (bound : ∀ user, s.freshUser ≤ user → s.userLive user = false) (w : World) {player : Dbref}
    (missing : ∀ user ∈ (s.channel ch).users, (s.user user).who ≠ player) :
    ∃ s' on', s.enroll w player ch = some s' ∧ Wired s' ch on' ∧ Touched ch s s' := by
  obtain ⟨pre, post, place, split, smaller, larger⟩ :=
    placeOf_spec wired missing (append_nil _).symm rfl nofun
  have dead := bound s.freshUser (Nat.le_refl _)
  have older : ∀ user, s.userLive user = true → user ≠ s.freshUser := by
    rintro user alive rfl
    rw [dead] at alive
    cases alive
  have old : ∀ user ∈ pre ++ post, user ≠ s.freshUser :=
    fun user mem => older user (wired.live user (split ▸ mem))
  let s' := withUser s player (w.undead player) (s.channel ch).onUsers
  have kept := fun {user} => @withUser_old s player (w.undead player) (s.channel ch).onUsers user
  -- the array grows by ten cells when this user would be its last
  obtain ⟨maxUsers, grown, room⟩ : ∃ maxUsers,
      (if (s.channel ch).maxUsers ≤ (s.channel ch).users.length + 1 then
        (s.channel ch).maxUsers + 10 else (s.channel ch).maxUsers) = maxUsers ∧
      (s.channel ch).users.length + 1 < maxUsers := by
    refine ⟨_, rfl, ?_⟩
    rcases wired.room with none' | room
    · rw [none', length_nil]
      split <;> omega
    · split <;> omega
  have inserted : (s.channel ch).users.insertIdx pre.length s.freshUser =
      pre ++ s.freshUser :: post := by
    rw [split]
    exact Bisection.insertIdx_split pre post s.freshUser
  let cell : Channel :=
    { s.channel ch with
      maxUsers := maxUsers
      users := pre ++ s.freshUser :: post
      onUsers := if w.undead player then some s.freshUser else (s.channel ch).onUsers }
  have ran : s.enroll w player ch = some (s'.setChannel ch cell) := by
    simp only [Comsys.enroll, wired.read, bind_eq_bind, bind_some, place, inserted,
      grown]
    rw [if_neg (Nat.not_lt_of_lt room)]
    rfl
  have off : s.freshUser ∉ on := fun inList => old _ (split ▸ wired.members _ inList) rfl
  have linked : Chain s'.onNext cell.onUsers
      (if w.undead player then s.freshUser :: on else on) := by
    simp only [s', cell, withUser]
    cases w.undead player with
    | true => exact wired.chain.push off
    | false => exact wired.chain
  refine ⟨_, if w.undead player then s.freshUser :: on else on, ran,
    ⟨wired.here, ?_, ?_, ?_, ?_, ?_⟩, rfl, rfl, rfl, rfl,
    fun o ne => setChannel_of_ne s' cell ne, ?_, fun user _ alive => ?_, ?_,
    fun _ user above => ?_⟩
  · rw [setChannel_self]
    have new : (s'.user s.freshUser).who = player := by simp [s', withUser]
    have increasing := wired.increasing
    rw [split] at increasing
    refine increasing.insert (fun user mem => ?_) (fun user mem => ?_) fun user mem => ?_
    · exact congrArg ComUser.who (kept (old user mem)).1
    · exact lt_of_lt_of_eq (smaller user mem) new.symm
    · exact lt_of_eq_of_lt new (larger user mem)
  · rw [setChannel_self]
    intro user mem
    rcases mem_middle.mp mem with rfl | mem
    · exact update_self ..
    · exact (kept (old user mem)).2.1.trans (wired.live user (split ▸ mem))
  · rw [setChannel_self]
    refine Or.inr (Nat.lt_of_le_of_lt (Nat.le_of_eq ?_) room)
    simp only [cell, split, length_append, length_cons, Nat.add_assoc]
  · rw [setChannel_self]
    exact linked
  · rw [setChannel_self]
    intro user inList
    refine mem_middle.mpr ?_
    split_ifs at inList
    · exact (mem_cons.mp inList).imp_right fun inList => split ▸ wired.members user inList
    · exact Or.inr (split ▸ wired.members user inList)
  · rw [setChannel_self]
  · obtain ⟨eq, live, link⟩ := kept (older user alive)
    exact ⟨eq, live.trans alive, link⟩
  · rw [setChannel_self]
    intro user mem
    rcases mem_middle.mp mem with rfl | mem
    · exact Or.inr dead
    · exact Or.inl (split ▸ mem)
  · exact (kept (Nat.ne_of_gt above)).2.1.trans (bound user (Nat.le_of_lt above))

theorem turnOn_wired (wired : Wired s ch on) {user : Addr}
    (mem : user ∈ (s.channel ch).users) :
    let s' := { s with user := update s.user user { s.user user with on := true } }
    Wired s' ch on ∧ Touched ch s s' := by
  have who : ∀ o,
      (update s.user user { s.user user with on := true } o).who = (s.user o).who := by
    intro o
    by_cases is : o = user
    · rw [is, update_self]
    · rw [update_of_ne is]
  refine ⟨⟨wired.here, ?_, wired.live, wired.room, wired.chain, wired.members⟩,
    rfl, rfl, rfl, rfl, fun _ _ => rfl, rfl, fun o outside alive => ⟨?_, alive, rfl⟩,
    fun _ hin => Or.inl hin, id⟩
  · exact wired.increasing.imp fun less => by
      dsimp only
      rwa [who, who]
  · have ne : o ≠ user := fun eq => outside (eq ▸ mem)
    exact update_of_ne ne ..

theorem join_wired (wired : Wired s ch on)
    (bound : ∀ user, s.freshUser ≤ user → s.userLive user = false) (w : World) (player : Dbref) :
    ∃ s' on', s.doJoinchannel w player ch = some s' ∧ Wired s' ch on' ∧ Touched ch s s' := by
  obtain ⟨hf, selected, is⟩ := selectUser_spec wired player
  rw [Comsys.doJoinchannel, selected, bind_eq_bind, bind_some]
  cases hf with
  | none =>
    obtain ⟨middle, on', ran, wired', touched⟩ := enroll_wired wired bound w fun user mem who =>
      nomatch (is user).mpr ⟨mem, who⟩
    obtain ⟨s', ran', wired'', touched', _⟩ :=
      announce_wired wired' (touched.bound bound) w player " has joined this channel."
    exact ⟨s', on', by simp only [ran, bind_eq_bind, bind_some, ran'], wired'',
      touched.trans touched'⟩
  | some user =>
    have mem := ((is user).mp rfl).1
    simp only [readUser_of_live (wired.live user mem), bind_eq_bind, bind_some]
    split
    · exact ⟨s, on, rfl, wired, Touched.refl ch s⟩
    · obtain ⟨wired', touched⟩ := turnOn_wired wired mem
      obtain ⟨s', ran', wired'', touched', _⟩ :=
        announce_wired wired' (touched.bound bound) w player " has joined this channel."
      exact ⟨s', on, ran', wired'', touched.trans touched'⟩

end Changing

end BattletechMux.Channels
