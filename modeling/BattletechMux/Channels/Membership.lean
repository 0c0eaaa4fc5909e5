/-
Module: BattletechMux.Channels.Membership
Purpose: In every run whose new channels have names that still differ when they are cut, the counter
  of the channels is right, every channel's array of users is sorted and its list of connected users
  is among them, and nothing is used after it has been freed.
-/
import BattletechMux.Channels.Members

namespace BattletechMux.Channels

open Option
open List hiding getElem?_eq_some_iff

open Function (update update_self update_of_ne)
open LinkedMemory (Chain)
open BattletechMux.Hash (CString Contents Represents Table stringKeys)

/-! ## What the commands are to keep -/

/-- The counter, the arrays and the lists of the channel system are right. -/
structure Wellformed (s : Comsys) : Prop where
  /-- The counter is the number of the entries of the table, which are channels. -/
  entries : ∃ chains : Nat → List Hash.Addr,
    (∀ i < s.channelHtab.hashsize, Chain s.channelHtab.next (s.channelHtab.element i) (chains i)) ∧
    s.numChannels = ((List.range s.channelHtab.hashsize).flatMap chains).length ∧
    ∀ i < s.channelHtab.hashsize, ∀ entry ∈ chains i,
      s.channelLive (s.channelHtab.data entry) = true
  /-- The users are sorted by who, so that `select_user` finds exactly them. -/
  sorted : ∀ ch, s.channelLive ch = true → (s.channel ch).users.Pairwise fun first second =>
    (s.user first).who < (s.user second).who
  members : ∀ ch, s.channelLive ch = true → ∀ player, ∃ found,
    s.selectUser ch player = some found ∧
      ∀ user, found = some user ↔ user ∈ (s.channel ch).users ∧ (s.user user).who = player
  live : ∀ ch, s.channelLive ch = true → ∀ user ∈ (s.channel ch).users, s.userLive user = true
  /-- The connected users are users, each once. -/
  onUsers : ∀ ch, s.channelLive ch = true → ∃ on, Chain s.onNext (s.channel ch).onUsers on ∧
    on.Nodup ∧ ∀ user ∈ on, user ∈ (s.channel ch).users

/-- A name that `do_createchannel` makes a channel of is no channel's name when it is cut. -/
def Sound (s : Comsys) (command : World × Op) : Prop :=
  match command.2 with
  | .create player channel =>
    command.1.haveComsys = true → channel ≠ [] → command.1.commAll player = true →
      (∀ ch, s.channelLive ch = true → (s.channel ch).name ≠ channel) →
        ∀ ch, s.channelLive ch = true → (s.channel ch).name ≠ cutName channel
  | _ => True

/-! ## The invariant -/

/-- The channels behind the table; `contents` is the map that the table is, and `on` has the
connected users of each channel. -/
structure Holds (s : Comsys) (chains : Nat → List Hash.Addr) (contents : Contents CString Addr)
    (on : Addr → List Addr) : Prop where
  held : Represents stringKeys s.channelHtab chains contents
  named : ∀ name ch,
    contents name = some ch ↔ s.channelLive ch = true ∧ (s.channel ch).name = name
  count : s.numChannels = s.channelHtab.entries
  wired : ∀ ch, s.channelLive ch = true → Wired s ch (on ch)
  apart : ∀ ch other user, s.channelLive ch = true → s.channelLive other = true →
    user ∈ (s.channel ch).users → user ∈ (s.channel other).users → ch = other
  bound : ∀ user, s.freshUser ≤ user → s.userLive user = false
  fresh : ∀ ch, s.freshChannel ≤ ch → s.channelLive ch = false

def Ok (s : Comsys) : Prop := ∃ chains contents on, Holds s chains contents on

variable {s : Comsys} {chains : Nat → List Hash.Addr} {contents : Contents CString Addr}
  {on : Addr → List Addr}

variable {ch : Addr}

theorem Wired.congr {s s' : Comsys} {on : List Addr} (wired : Wired s ch on)
    (eq : s'.channel ch = s.channel ch) (here : s'.channelLive ch = true)
    (frame : ∀ user ∈ (s.channel ch).users,
      s'.user user = s.user user ∧ s'.userLive user = true ∧ s'.onNext user = s.onNext user) :
    Wired s' ch on := by
  refine ⟨here, ?_, ?_, ?_, ?_, ?_⟩ <;> rw [eq]
  · refine wired.increasing.imp_of_mem fun {fst snd} one two less => ?_
    dsimp only
    rwa [(frame fst one).1, (frame snd two).1]
  · exact fun user mem => (frame user mem).2.1
  · exact wired.room
  · exact wired.chain.congr fun user inList => (frame user (wired.members user inList)).2.2
  · exact wired.members

namespace Holds

section

variable (holds : Holds s chains contents on)
include holds

theorem withTable {htab : Table CString Addr}
    {chains' : Nat → List Hash.Addr} (held : Represents stringKeys htab chains' contents)
    (entries : htab.entries = s.channelHtab.entries) :
    Holds { s with channelHtab := htab } chains' contents on where
  held := held
  named := holds.named
  count := holds.count.trans entries.symm
  wired := fun ch alive => (holds.wired ch alive).congr rfl alive
    fun user mem => ⟨rfl, (holds.wired ch alive).live user mem, rfl⟩
  apart := holds.apart
  bound := holds.bound
  fresh := holds.fresh

theorem selected (channel : CString) :
    ∃ htab chains', s.selectChannel channel =
        some (contents channel, { s with channelHtab := htab }) ∧
      Holds { s with channelHtab := htab } chains' contents on := by
  obtain ⟨htab, chains', ran, held, entries⟩ := holds.held.find_entries channel
  refine ⟨htab, chains', ?_, holds.withTable held entries⟩
  have ran' : Hash.hashfind s.channelHtab channel = some (contents channel, htab) := ran
  rw [Comsys.selectChannel, ran']
  rfl

theorem touch {s' : Comsys} {ch : Addr} {on' : List Addr}
    (alive : s.channelLive ch = true) (touched : Touched ch s s') (wired : Wired s' ch on') :
    Holds s' chains contents (update on ch on') := by
  -- a user of another channel is neither of this one nor new
  have outside : ∀ o, s.channelLive o = true → o ≠ ch →
      ∀ user ∈ (s.channel o).users, user ∉ (s.channel ch).users :=
    fun o alive' ne user mem hin =>
      ne (holds.apart o ch user alive' alive mem hin)
  have frame : ∀ o, s.channelLive o = true → o ≠ ch →
      ∀ user ∈ (s.channel o).users, user ∉ (s'.channel ch).users := by
    intro o alive' ne user mem hin
    rcases touched.users user hin with hin | dead
    · exact outside o alive' ne user mem hin
    · rw [(holds.wired o alive').live user mem] at dead
      cases dead
  refine ⟨touched.htab ▸ holds.held, fun name o => ?_, ?_, fun o alive' => ?_,
    fun fst snd user alive' alive'' inFirst inSecond => ?_, touched.bound holds.bound, ?_⟩
  · rw [holds.named name o, touched.live]
    by_cases eq : o = ch
    · rw [eq, touched.name]
    · rw [touched.others o eq]
  · rw [touched.count, touched.htab]
    exact holds.count
  · rw [touched.live] at alive'
    by_cases eq : o = ch
    · rw [eq, update_self]
      exact wired
    · rw [update_of_ne eq]
      exact (holds.wired o alive').congr (touched.others o eq)
        (touched.live ▸ alive') fun user mem =>
          touched.frame user (outside o alive' eq user mem)
            ((holds.wired o alive').live user mem)
  · rw [touched.live] at alive' alive''
    by_cases eq : fst = ch
    · by_cases same' : snd = ch
      · exact eq.trans same'.symm
      · rw [touched.others snd same'] at inSecond
        exact absurd (eq ▸ inFirst) (frame snd alive'' same' user inSecond)
    · rw [touched.others fst eq] at inFirst
      by_cases same' : snd = ch
      · exact absurd (same' ▸ inSecond) (frame fst alive' eq user inFirst)
      · rw [touched.others snd same'] at inSecond
        exact holds.apart fst snd user alive' alive'' inFirst inSecond
  · rw [touched.fresh, touched.live]
    exact holds.fresh

theorem wellformed : Wellformed s where
  entries := by
    refine ⟨chains, holds.held.chain, holds.count.trans holds.held.entries,
      fun i hin e mem => ?_⟩
    exact ((holds.named _ _).mp (holds.held.contents_target hin mem)).1
  sorted := fun ch alive => (holds.wired ch alive).increasing
  members := fun ch alive player => selectUser_spec (holds.wired ch alive) player
  live := fun ch alive => (holds.wired ch alive).live
  onUsers := fun ch alive => ⟨on ch, (holds.wired ch alive).chain,
    (holds.wired ch alive).chain.nodup, (holds.wired ch alive).members⟩

end

end Holds

/-! ## Commands about one channel -/

theorem join_ok (holds : Holds s chains contents on) (w : World) (player : Dbref)
    (channel : CString) : ∃ s', s.join w player channel = some s' ∧ Ok s' := by
  obtain ⟨htab, chains', ran, holds'⟩ := holds.selected channel
  rw [Comsys.join, ran, bind_eq_bind, bind_some]
  cases hf : contents channel with
  | none => exact ⟨_, rfl, _, _, _, holds'⟩
  | some ch =>
    have alive := ((holds'.named channel ch).mp hf).1
    obtain ⟨s', on', ran', wired, touched⟩ :=
      join_wired (holds'.wired ch alive) holds'.bound w player
    exact ⟨s', ran', _, _, _, holds'.touch alive touched wired⟩

theorem connect_ok (holds : Holds s chains contents on) (player : Dbref) (channel : CString) :
    ∃ s', s.doComconnectchannel player channel = some s' ∧ Ok s' := by
  obtain ⟨htab, chains', ran, holds'⟩ := holds.selected channel
  rw [Comsys.doComconnectchannel, ran, bind_eq_bind, bind_some]
  cases hf : contents channel with
  | none => exact ⟨_, rfl, _, _, _, holds'⟩
  | some ch =>
    have alive := ((holds'.named channel ch).mp hf).1
    obtain ⟨s', on', ran', wired, touched⟩ :=
      connect_wired (holds'.wired ch alive) holds'.bound player
    exact ⟨s', ran', _, _, _, holds'.touch alive touched wired⟩

variable {channel : CString}

section

variable (holds : Holds s chains contents on)
include holds

theorem disconnect_holds (player : Dbref) (hf : contents channel = some ch) :
    ∃ s' chains' on', s.doComdisconnectchannel player channel = some s' ∧
      Holds s' chains' contents on' ∧ (∀ user ∈ on' ch, (s'.user user).who ≠ player) ∧
      s'.user = s.user ∧ (s'.channel ch).users = (s.channel ch).users := by
  obtain ⟨htab, chains', ran, holds'⟩ := holds.selected channel
  have alive := ((holds'.named channel ch).mp hf).1
  obtain ⟨s', on', ran', wired, touched, off, eq, users⟩ :=
    disconnect_wired (holds'.wired ch alive) holds'.bound player
  refine ⟨s', chains', update on ch on', ?_, holds'.touch alive touched wired, ?_, eq, users⟩
  · rw [Comsys.doComdisconnectchannel, ran, bind_eq_bind, bind_some, hf]
    exact ran'
  · rw [update_self]
    exact off

theorem disconnect_ok (player : Dbref) (channel : CString) :
    ∃ s', s.doComdisconnectchannel player channel = some s' ∧ Ok s' := by
  cases hf : contents channel with
  | none =>
    obtain ⟨htab, chains', ran, holds'⟩ := holds.selected channel
    rw [Comsys.doComdisconnectchannel, ran, bind_eq_bind, bind_some, hf]
    exact ⟨_, rfl, _, _, _, holds'⟩
  | some ch =>
    obtain ⟨s', chains', on', ran, holds', _⟩ := disconnect_holds holds player hf
    exact ⟨s', ran, _, _, _, holds'⟩

theorem leaveAt_holds (w : World) (player : Dbref) (hf : contents channel = some ch) {i : Nat}
    {user : Addr}
    (there : (s.channel ch).users[i]? = some user) :
    ∃ s' chains' on', s.leaveAt w player channel ch i user = some s' ∧
      Holds s' chains' contents on' ∧
      (s'.channel ch).users.length ≤ (s.channel ch).users.length := by
  have alive := ((holds.named channel ch).mp hf).1
  have live := (holds.wired ch alive).live user (mem_of_getElem? there)
  rw [Comsys.leaveAt, readUser_of_live live, bind_eq_bind, bind_some]
  split
  · rename_i who
    obtain ⟨middle, chains', on', ran, holds', off, eq, users⟩ :=
      disconnect_holds holds player hf
    have alive' := ((holds'.named channel ch).mp hf).1
    obtain ⟨split, length⟩ := Bisection.split_at there
    rw [← users] at split
    have notOn : user ∉ on' ch := fun inList => off user inList (eq ▸ who)
    obtain ⟨s', ran', wired, touched, left, _⟩ :=
      dropUser_wired (holds'.wired ch alive') holds'.bound w player split notOn
    rw [users, length] at ran'
    refine ⟨s', chains', _, ?_, holds'.touch alive' touched wired, ?_⟩
    · rw [ran, bind_eq_bind, bind_some]
      exact ran'
    · rw [left, ← users]
      conv_rhs => rw [split]
      simp
  · exact ⟨s, chains, on, rfl, holds, Nat.le_refl _⟩

theorem leaveLoop_ok (w : World) (player : Dbref) (hf : contents channel = some ch)
    {limit i : Nat}
    (pos : 0 < limit) (hlt : (s.channel ch).users.length < i + limit) :
    ∃ s', Comsys.leaveLoop w player channel ch limit i s = some s' ∧ Ok s' := by
  induction limit generalizing s chains on i with
  | zero => exact absurd pos (Nat.lt_irrefl 0)
  | succ limit ih =>
    have alive := ((holds.named channel ch).mp hf).1
    rw [Comsys.leaveLoop, (holds.wired ch alive).read, bind_eq_bind, bind_some]
    cases there : (s.channel ch).users[i]? with
    | none => exact ⟨s, rfl, _, _, _, holds⟩
    | some user =>
      obtain ⟨s', chains', on', ran, holds', shorter⟩ :=
        leaveAt_holds holds w player hf there
      obtain ⟨hin, _⟩ := getElem?_eq_some_iff.mp there
      obtain ⟨s'', ran', ok⟩ :=
        @ih s' chains' on' holds' (i + 1) (by omega) (by omega)
      exact ⟨s'', by simp only [ran, bind_eq_bind, bind_some, ran'], ok⟩

theorem delcom_ok (w : World) (player : Dbref) (channel : CString) :
    ∃ s', s.doDelcomchannel w player channel = some s' ∧ Ok s' := by
  obtain ⟨htab, chains', ran, holds'⟩ := holds.selected channel
  rw [Comsys.doDelcomchannel, ran, bind_eq_bind, bind_some]
  cases hf : contents channel with
  | none => exact ⟨_, rfl, _, _, _, holds'⟩
  | some ch =>
    have alive := ((holds'.named channel ch).mp hf).1
    dsimp only
    rw [(holds'.wired ch alive).read, bind_eq_bind, bind_some]
    exact leaveLoop_ok holds' w player hf (Nat.succ_pos _) (by omega)

end

/-! ## New and freed channels -/

theorem insert_holds (holds : Holds s chains contents on) {cell : Channel} (none' : cell.users = [])
    (noneOn : cell.onUsers = none) (missing : contents cell.name = none)
    {htab : Table CString Addr} {chains' : Nat → List Hash.Addr}
    (held : Represents stringKeys htab chains' (update contents cell.name (some s.freshChannel)))
    (entries : htab.entries = s.channelHtab.entries + 1) :
    Holds
      { s with
        channelHtab := htab
        channel := update s.channel s.freshChannel cell
        channelLive := update s.channelLive s.freshChannel true
        freshChannel := s.freshChannel + 1
        numChannels := s.numChannels + 1 } chains'
      (update contents cell.name (some s.freshChannel)) (update on s.freshChannel []) := by
  have dead := holds.fresh s.freshChannel (Nat.le_refl _)
  have older : ∀ ch, s.channelLive ch = true → ch ≠ s.freshChannel := by
    rintro ch alive rfl
    rw [dead] at alive
    cases alive
  have record : ∀ ch, s.channelLive ch = true →
      update s.channel s.freshChannel cell ch = s.channel ch :=
    fun ch alive => update_of_ne (older ch alive) ..
  have known : ∀ ch, update s.channelLive s.freshChannel true ch = true →
      ch = s.freshChannel ∨ s.channelLive ch = true := by
    intro ch alive
    by_cases eq : ch = s.freshChannel
    · exact Or.inl eq
    · rw [update_of_ne eq] at alive
      exact Or.inr alive
  refine ⟨held, fun name ch => ?_, ?_, fun ch alive => ?_,
    fun ch o user alive alive' inFirst inSecond => ?_, holds.bound, fun ch above => ?_⟩
  · dsimp only
    by_cases eq : ch = s.freshChannel
    · subst eq
      rw [update_self, update_self]
      by_cases key : name = cell.name
      · simp [key]
      · have absent : contents name ≠ some s.freshChannel := by
          intro hf
          have := ((holds.named name _).mp hf).1
          rw [dead] at this
          cases this
        simp [key, absent, Ne.symm key]
    · rw [update_of_ne eq, update_of_ne eq, ← holds.named name ch]
      by_cases key : name = cell.name
      · simp [key, missing, Ne.symm eq]
      · rw [update_of_ne key]
  · dsimp only
    rw [entries, ← holds.count]
  · by_cases eq : ch = s.freshChannel
    · subst eq
      rw [update_self]
      refine ⟨update_self .., ?_, ?_, ?_, ?_, nofun⟩ <;>
        simp only [update_self, none']
      · exact List.Pairwise.nil
      · exact nofun
      · exact Or.inl trivial
      · exact noneOn
    · have alive' := (known ch alive).resolve_left eq
      rw [update_of_ne eq]
      exact (holds.wired ch alive').congr (record ch alive') alive
        fun user mem => ⟨rfl, (holds.wired ch alive').live user mem, rfl⟩
  · dsimp only at inFirst inSecond
    rcases known ch alive with rfl | alive
    · rw [update_self, none'] at inFirst
      cases inFirst
    · rcases known o alive' with rfl | alive'
      · rw [update_self, none'] at inSecond
        cases inSecond
      · rw [record ch alive] at inFirst
        rw [record o alive'] at inSecond
        exact holds.apart ch o user alive alive' inFirst inSecond
  · dsimp only at above ⊢
    rw [update_of_ne (Nat.ne_of_gt above)]
    exact holds.fresh ch (Nat.le_of_lt above)

theorem create_ok (holds : Holds s chains contents on) (w : World) (player : Dbref)
    (channel : CString) (sound : Sound s (w, .create player channel)) :
    ∃ s', s.doCreatechannel w player channel = some s' ∧ Ok s' := by
  rw [Comsys.doCreatechannel]
  cases comsys : w.haveComsys with
  | false => exact ⟨s, rfl, _, _, _, holds⟩
  | true =>
    obtain ⟨htab, chains', ran, holds'⟩ := holds.selected channel
    simp only [Bool.not_true, Bool.false_eq_true, if_false, ran, bind_eq_bind,
      bind_some]
    split
    · exact ⟨_, rfl, _, _, _, holds'⟩
    · rename_i admitted
      obtain ⟨unknown, nonempty, allowed⟩ := not_or.mp admitted |>.imp_right not_or.mp
      rw [Bool.not_eq_true, isSome_eq_false_iff, isNone_iff_eq_none] at unknown
      rw [Bool.not_eq_false] at allowed
      have ne : ∀ ch, s.channelLive ch = true → (s.channel ch).name ≠ channel := by
        intro ch alive eq
        rw [(holds.named channel ch).mpr ⟨alive, eq⟩] at unknown
        cases unknown
      have missing : contents (cutName channel) = none := by
        cases hf : contents (cutName channel) with
        | none => rfl
        | some ch =>
          obtain ⟨alive, eq⟩ := (holds.named _ ch).mp hf
          exact absurd eq (sound comsys nonempty allowed ne ch alive)
      obtain ⟨htab', chains'', added, held, entries⟩ :=
        holds'.held.add_new missing s.freshChannel
      have set : Hash.hashadd htab (cutName channel) s.freshChannel = some (0, htab') := added
      have inserted := @insert_holds _ chains' contents on holds'
        (Comsys.newChannel player channel) rfl rfl missing htab' chains'' held entries
      exact ⟨_, by rw [set]; rfl, _, _, _, inserted⟩

theorem freeUsers_eq {users : List Addr} (s : Comsys) (nodup : users.Nodup)
    (live : ∀ user ∈ users, s.userLive user = true) :
    users.foldlM Comsys.freeUser s = some
      { s with userLive := fun user => if user ∈ users then false else s.userLive user } := by
  induction users generalizing s with
  | nil => simp
  | cons user rest ih =>
    obtain ⟨fresh, nodup⟩ := nodup_cons.mp nodup
    rw [foldlM_cons, Comsys.freeUser, if_pos (live user mem_cons_self)]
    refine (ih _ nodup fun o mem => ?_).trans ?_
    · have ne : o ≠ user := fun eq => fresh (eq ▸ mem)
      exact (update_of_ne ne ..).trans
        (live o (mem_cons_of_mem user mem))
    · congr 2
      funext o
      by_cases eq : o = user
      · simp [eq]
      · simp [eq]

theorem remove_holds (holds : Holds s chains contents on) {name : CString}
    (hf : contents name = some ch) {htab : Table CString Addr} {chains' : Nat → List Hash.Addr}
    (held : Represents stringKeys htab chains' (update contents name none))
    (entries : htab.entries = s.channelHtab.entries - 1) :
    ∃ s', Comsys.freeChannel
        { s with channelHtab := htab, numChannels := s.numChannels - 1 } ch = some s' ∧
      Holds s' chains' (update contents name none) on ∧ s'.channelHtab = htab := by
  obtain ⟨alive, rfl⟩ := (holds.named name ch).mp hf
  have wired := holds.wired ch alive
  let s' : Comsys :=
    { s with
      channelHtab := htab
      numChannels := s.numChannels - 1
      userLive := fun user => if user ∈ (s.channel ch).users then false else s.userLive user
      channelLive := update s.channelLive ch false }
  have known : ∀ o, update s.channelLive ch false o = true →
      o ≠ ch ∧ s.channelLive o = true := by
    intro o alive'
    by_cases eq : o = ch
    · rw [eq, update_self] at alive'
      cases alive'
    · rw [update_of_ne eq] at alive'
      exact ⟨eq, alive'⟩
  refine ⟨s', ?_, ⟨held, fun key o => ?_, ?_, fun o alive' => ?_,
    fun fst snd user alive' alive'' => ?_, fun user above => ?_, fun o above => ?_⟩, rfl⟩
  · have freed := freeUsers_eq { s with channelHtab := htab, numChannels := s.numChannels - 1 }
      wired.increasing.nodup wired.live
    rw [Comsys.freeChannel, Comsys.readChannel, if_pos alive, bind_eq_bind,
      bind_some, freed]
    rfl
  · dsimp only [s']
    by_cases eq : o = ch
    · subst eq
      rw [update_self]
      by_cases key' : key = (s.channel o).name
      · simp [key']
      · rw [update_of_ne key', holds.named key o]
        simp [Ne.symm key']
    · rw [update_of_ne eq, ← holds.named key o]
      by_cases key' : key = (s.channel ch).name
      · rw [key', update_self, hf]
        simp [Ne.symm eq]
      · rw [update_of_ne key']
  · dsimp only [s']
    rw [entries, holds.count]
  · obtain ⟨ne, alive''⟩ := known o alive'
    refine (holds.wired o alive'').congr rfl alive' fun user mem => ⟨rfl, ?_, rfl⟩
    have outside : user ∉ (s.channel ch).users := fun hin =>
      ne (holds.apart o ch user alive'' alive mem hin)
    exact (if_neg outside).trans ((holds.wired o alive'').live user mem)
  · exact holds.apart fst snd user (known fst alive').2 (known snd alive'').2
  · dsimp only [s']
    rw [holds.bound user above, ite_self]
  · dsimp only [s']
    by_cases eq : o = ch
    · rw [eq, update_self]
    · rw [update_of_ne eq]
      exact holds.fresh o above

theorem destroy_ok (holds : Holds s chains contents on) (w : World) (player : Dbref)
    (channel : CString) : ∃ s', s.doDestroychannel w player channel = some s' ∧ Ok s' := by
  rw [Comsys.doDestroychannel]
  cases comsys : w.haveComsys with
  | false => exact ⟨s, rfl, _, _, _, holds⟩
  | true =>
    obtain ⟨htab, chains', ran, holds'⟩ := holds.selected channel
    simp only [Bool.not_true, Bool.false_eq_true, if_false, ran, bind_eq_bind,
      bind_some]
    cases hf : contents channel with
    | none => exact ⟨_, rfl, _, _, _, holds'⟩
    | some ch =>
      have alive := ((holds'.named channel ch).mp hf).1
      dsimp only
      rw [(holds'.wired ch alive).read, bind_some]
      split
      · exact ⟨_, rfl, _, _, _, holds'⟩
      · obtain ⟨htab', chains'', deleted, held, entries⟩ := holds'.held.delete_key hf
        have set : Hash.hashdelete htab channel = some htab' := deleted
        obtain ⟨s', freed, holds'', _⟩ := remove_holds holds' hf held entries
        exact ⟨s', by rw [set]; exact freed, _, _, _, holds''⟩

theorem nuke_ok (holds : Holds s chains contents on) (player : Dbref) :
    ∃ s', s.doChannelnuke player = some s' ∧ Ok s' := by
  let Good : Comsys → (Nat → List Hash.Addr) → Prop := fun s' chains =>
    s'.channelHtab.hashsize = s.channelHtab.hashsize ∧ ∃ contents on, Holds s' chains contents on
  have chained : ∀ {s' chains}, Good s' chains →
      s'.channelHtab.hashsize = s.channelHtab.hashsize ∧
      ∀ i < s.channelHtab.hashsize,
        Chain s'.channelHtab.next (s'.channelHtab.element i) (chains i) := by
    rintro s' chains ⟨size, contents, on, holds⟩
    exact ⟨size, size ▸ holds.held.chain⟩
  have round : ∀ {s₁ chains i pre e post}, Good s₁ chains → i < s.channelHtab.hashsize →
      chains i = pre ++ e :: post →
      ∃ s₂ kept, Comsys.nukeEntry player s₁ e = some s₂ ∧
        s₂.channelHtab.next e = post.head? ∧
        Good s₂ (update chains i (pre ++ kept ++ post)) := by
    rintro s₁ chains i pre e post ⟨size, contents, on, holds⟩ hin split
    rw [← size] at hin
    have there := holds.held.contents_target hin
      (show e ∈ chains i by rw [split]; exact mem_append_right _ mem_cons_self)
    obtain ⟨alive, name⟩ := (holds.named _ _).mp there
    rw [Comsys.nukeEntry]
    dsimp only
    rw [(holds.wired _ alive).read, bind_eq_bind, bind_some]
    split
    · obtain ⟨htab, deleted, held, next, size', entries⟩ := holds.held.delete_at hin split
      obtain ⟨s₂, freed, holds', table⟩ := remove_holds holds there held entries
      have set : Hash.hashdelete s₁.channelHtab (s₁.channel (s₁.channelHtab.data e)).name =
          some htab := by
        rw [name]
        exact deleted
      refine ⟨s₂, [], by rw [set]; exact freed, table ▸ next,
        table ▸ size'.trans size,
        update contents (s₁.channelHtab.target e) none, on, ?_⟩
      rw [append_nil]
      exact holds'
    · -- the entry stays
      have chain := holds.held.chain i hin
      rw [split] at chain
      refine ⟨s₁, [e], rfl, chain.next_eq_head.head_eq, size, contents, on, ?_⟩
      rw [append_assoc, singleton_append, ← split, Function.update_eq_self]
      exact holds
  obtain ⟨s', chains', ran, _, contents', on', holds'⟩ :=
    @Hash.forEntries_spec CString Addr Comsys s.channelHtab.hashsize Comsys.channelHtab
      (Comsys.nukeEntry player) Good @chained @round s chains ⟨rfl, contents, on, holds⟩ _
      (Nat.lt_succ_of_le holds.held.entries_le)
  exact ⟨s', ran, chains', contents', on', holds'⟩

/-! ## Runs -/

theorem step_holds (command : World × Op) (ok : Ok s) (sound : Sound s command) :
    ∃ s', step s command = some s' ∧ Ok s' := by
  obtain ⟨chains, contents, on, holds⟩ := ok
  obtain ⟨w, op⟩ := command
  cases op with
  | create player channel => exact create_ok holds w player channel sound
  | destroy player channel => exact destroy_ok holds w player channel
  | join player channel => exact join_ok holds w player channel
  | delcom player channel => exact delcom_ok holds w player channel
  | connect player channel => exact connect_ok holds player channel
  | disconnect player channel => exact disconnect_ok holds player channel
  | nuke player => exact nuke_ok holds player

/-- What `init_chantab` leaves. -/
structure Start (s : Comsys) : Prop where
  table : ∃ (htab : Table CString Addr) (size : Int), s.channelHtab = htab.init size
  count : s.numChannels = 0
  channels : ∀ ch, s.channelLive ch = false
  users : ∀ user, s.userLive user = false

theorem Start.ok (start : Start s) : Ok s := by
  obtain ⟨htab, size, table⟩ := start.table
  have dead : ∀ {ch}, ¬ s.channelLive ch = true := by
    intro ch
    rw [start.channels ch]
    exact Bool.false_ne_true
  refine ⟨fun _ => [], fun _ => none, fun _ => [], ?_, fun name ch => ?_, ?_,
    fun ch alive => absurd alive dead, fun ch _ _ alive => absurd alive dead,
    fun user _ => start.users user, fun ch _ => start.channels ch⟩
  · rw [table]
    exact Hash.init_represents htab size
  · simp [dead]
  · rw [start.count, table]
    rfl

/-- In every run whose commands are sound, nothing is used after it has been freed and the
channel system is well-formed in every state reached. -/
theorem sound_commands_wellformed (start : Start s) {commands : List (World × Op)}
    (sound : Machine.Guarded step Sound s commands) :
    ∃ s', Machine.run step s commands = some s' ∧ Wellformed s' := by
  obtain ⟨s', ran, chains, contents, on, holds⟩ := Machine.guarded_invariant
    (fun _ command ok sound => step_holds command ok sound) start.ok sound
  exact ⟨s', ran, holds.wellformed⟩

/-- The channel system before the first channel, with a table of four chains. -/
def blank : Comsys where
  channelHtab := Table.blank.init 4
  numChannels := 0
  channel := fun _ => Comsys.newChannel 0 []
  channelLive := fun _ => false
  freshChannel := 0
  user := fun _ => ⟨0, false, []⟩
  userLive := fun _ => false
  onNext := fun _ => none
  freshUser := 0

theorem blank_start : Start blank where
  table := ⟨Table.blank, 4, rfl⟩
  count := rfl
  channels := fun _ => rfl
  users := fun _ => rfl

def openWorld : World where
  haveComsys := true
  now := 0
  commAll := fun _ => true
  undead := fun _ => true
  dark := fun _ => false
  name := fun _ => text "Wizard"

/-- A channel is made, joined and left by two players, and destroyed. -/
theorem sound_commands_wellformed_public :
    ∃ s', Machine.run step blank
        [(openWorld, .create 1 (text "Public")), (openWorld, .join 7 (text "Public")),
          (openWorld, .join 3 (text "Public")), (openWorld, .disconnect 7 (text "Public")),
          (openWorld, .connect 7 (text "Public")), (openWorld, .delcom 3 (text "Public")),
          (openWorld, .destroy 1 (text "Public")), (openWorld, .nuke 1)] = some s' ∧
      Wellformed s' := by
  apply sound_commands_wellformed blank_start
  refine ⟨fun _ _ _ _ ch alive => ?_, fun _ _ => ⟨trivial, fun _ _ => ⟨trivial, fun _ _ =>
    ⟨trivial, fun _ _ => ⟨trivial, fun _ _ => ⟨trivial, fun _ _ => ⟨trivial, fun _ _ =>
      ⟨trivial, fun _ _ => trivial⟩⟩⟩⟩⟩⟩⟩⟩
  cases alive

def longName (last : BitVec 8) : CString := List.replicate 49 65 ++ [last]

/-- The second of two channels with such names is counted, and is not in the table. -/
theorem long_names_are_counted_twice :
    ¬ ∀ s' : Comsys, Machine.run step blank
      [(openWorld, .create 1 (longName 66)), (openWorld, .create 1 (longName 67))] = some s' →
      Wellformed s' := by
  intro wellformed
  have outcome : (Machine.run step blank
      [(openWorld, .create 1 (longName 66)), (openWorld, .create 1 (longName 67))]).map (fun s' =>
        (s'.numChannels, s'.channelHtab.hashsize,
          (List.range 4).map fun i => (s'.channelHtab.element i, s'.channelHtab.next 0))) =
        some (2, 4, [(none, none), (some 0, none), (none, none), (none, none)]) := by decide +kernel
  obtain ⟨s', ran, after⟩ := map_eq_some_iff.mp outcome
  simp only [Prod.mk.injEq, range_succ, range_zero, nil_append, cons_append,
    map_cons, map_nil, List.cons.injEq, and_true] at after
  obtain ⟨count, size, first, second, third, fourth⟩ := after
  obtain ⟨chains, chain, total, _⟩ := (wellformed s' ran).entries
  rw [size] at chain total
  have empty : ∀ i < 4, s'.channelHtab.element i = none → chains i = [] :=
    fun i inside none' => (chain i inside).unique none'
  have single : chains 1 = [0] :=
    (chain 1 (by decide)).unique ⟨second.1, second.2⟩
  have length : ((List.range 4).flatMap chains).length = 1 := by
    simp [range_succ, empty 0 (by decide) first.1, single, empty 2 (by decide) third.1,
      empty 3 (by decide) fourth.1]
  rw [count, length] at total
  cases total

end BattletechMux.Channels
