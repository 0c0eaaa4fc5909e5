/-
Module: BattletechMux.Net.Programs
Purpose: The PROG of a player, which all his descriptors share without counting: as long as nobody
  logs out of a descriptor that waits for an answer, every descriptor has the PROG of its player,
  and a PROG is freed once, when no descriptor has it any more.
-/
import BattletechMux.Net.Table
import Mathlib.Data.List.TakeWhile

namespace BattletechMux.Net

open List Option

open Function (update update_self update_of_ne)
open LinkedMemory (Chain)

structure Shared (t : DescTable) : Prop where
  /-- A descriptor has a PROG that was made for its player and has not been freed. -/
  held : ∀ d program, t.opened d = true → t.programData d = some program →
    t.connected d = true ∧ program < t.progs ∧ (t.prog program).doer = t.player d ∧
      t.freed program = 0
  /-- The descriptors of a player agree. -/
  agree : ∀ d e, t.Live d → t.Live e → t.player d = t.player e →
    t.programData d = t.programData e
  freedOnce : ∀ program, t.freed program ≤ 1
  /-- A PROG that no descriptor has was freed. -/
  kept : ∀ program, program < t.progs → t.freed program = 0 →
    ∃ d, t.opened d = true ∧ t.programData d = some program
  unused : ∀ program, t.progs ≤ program → t.freed program = 0

theorem start_shared : Shared DescTable.start := by
  constructor <;> simp [DescTable.start]

variable {t : DescTable} {cells : List Nat} {chains : Dbref → List Nat} {d : Nat}
  {player : Dbref}

theorem Threaded.mem_chain (threaded : Threaded t cells chains) :
    d ∈ chains player ↔ t.Live d ∧ t.player d = player :=
  threaded.hashed.member player d

variable {program : Nat}

theorem Shared.live (shared : Shared t) (isOpen : t.opened d = true)
    (carries : t.programData d = some program) : t.Live d :=
  ⟨isOpen, (shared.held d program isOpen carries).1⟩

theorem Shared.same_player (shared : Shared t) {e : Nat}
    (isOpen : t.opened d = true) (carries : t.programData d = some program)
    (otherOpen : t.opened e = true) (otherCarries : t.programData e = some program) :
    t.player d = t.player e :=
  (shared.held d program isOpen carries).2.2.1.symm.trans
    (shared.held e program otherOpen otherCarries).2.2.1

/-! ## Descriptors -/

theorem initializesock_shared (threaded : Threaded t cells chains) (shared : Shared t) :
    Shared t.initializesock := by
  have old : ∀ d, t.opened d = true → d ≠ t.allocated := fun d isOpen =>
    Nat.ne_of_lt (threaded.listed.open_below isOpen)
  refine ⟨fun d program isOpen carries => ?_, fun d e isLive otherLive eq => ?_,
    shared.freedOnce, fun program below notFreed => ?_, shared.unused⟩
  · by_cases isNew : d = t.allocated
    · simp [DescTable.initializesock, isNew] at carries
    · simp only [DescTable.initializesock, update_of_ne isNew] at isOpen carries ⊢
      exact shared.held d program isOpen carries
  · by_cases isNew : d = t.allocated
    · simp [DescTable.initializesock, DescTable.Live, isNew] at isLive
    · by_cases otherNew : e = t.allocated
      · simp [DescTable.initializesock, DescTable.Live, otherNew] at otherLive
      · simp only [DescTable.initializesock, DescTable.Live, update_of_ne isNew,
          update_of_ne otherNew] at isLive otherLive eq ⊢
        exact shared.agree d e isLive otherLive eq
  · obtain ⟨d, isOpen, carries⟩ := shared.kept program below notFreed
    have isOld := old d isOpen
    exact ⟨d, by simpa [DescTable.initializesock, isOld] using isOpen,
      by simpa [DescTable.initializesock, isOld] using carries⟩

theorem Shared.idle (shared : Shared t) (isOpen : t.opened d = true)
    (notConnected : t.connected d = false) : t.programData d = none := by
  cases carried : t.programData d with
  | none => rfl
  | some program =>
    have isLive := shared.live isOpen carried
    simp [DescTable.Live, notConnected] at isLive

theorem Shared.rethread (shared : Shared t) (hashnext : Nat → Option Nat)
    (descHtab : Dbref → Option Nat) (flagged : Dbref → Bool) :
    Shared { t with hashnext := hashnext, descHtab := descHtab, flagged := flagged } :=
  ⟨shared.held, shared.agree, shared.freedOnce, shared.kept, shared.unused⟩

theorem Shared.join (threaded : Threaded t cells chains) (shared : Shared t)
    (isOpen : t.opened d = true) (notConnected : t.connected d = false)
    {pending : Option Nat} (joins : ∀ e ∈ chains player, t.programData e = pending)
    (inherited : pending ≠ none → chains player ≠ []) :
    Shared { t with
      connected := update t.connected d true
      player := update t.player d player
      programData := update t.programData d pending } := by
  have idle := shared.idle isOpen notConnected
  -- What a connected descriptor of the player has is what the new one joins.
  have others : ∀ e, e ≠ d → t.Live e → t.player e = player → t.programData e = pending :=
    fun e _ isLive owned => joins e (threaded.mem_chain.mpr ⟨isLive, owned⟩)
  refine ⟨fun e program otherOpen carries => ?_, fun e f isLive otherLive eq => ?_,
    shared.freedOnce, fun program below notFreed => ?_, shared.unused⟩
  · by_cases here : e = d
    · subst here
      have isPending : pending = some program := by simpa using carries
      obtain ⟨fst, mem⟩ := exists_mem_of_ne_nil _ (inherited (by simp [isPending]))
      have carried := (joins fst mem).trans isPending
      obtain ⟨isLive, owned⟩ := threaded.mem_chain.mp mem
      obtain ⟨-, old, made, notFreed⟩ := shared.held fst program isLive.1 carried
      exact ⟨by simp, old, by simpa using made.trans owned, notFreed⟩
    · simp only [update_of_ne here] at carries ⊢
      exact shared.held e program otherOpen carries
  · simp only [DescTable.Live] at isLive otherLive
    by_cases here : e = d
    · by_cases there : f = d
      · rw [here, there]
      · simp only [here, update_self, update_of_ne there] at otherLive eq ⊢
        exact (others f there otherLive eq.symm).symm
    · by_cases there : f = d
      · simp only [there, update_self, update_of_ne here] at isLive eq ⊢
        exact others e here isLive eq
      · simp only [update_of_ne here, update_of_ne there] at isLive otherLive eq
        simpa [here, there] using shared.agree e f isLive otherLive eq
  · obtain ⟨e, otherOpen, carries⟩ := shared.kept program below notFreed
    have ne : e ≠ d := by
      rintro rfl
      simp [idle] at carries
    exact ⟨e, otherOpen, by simpa [ne] using carries⟩

theorem Shared.pending_eq (threaded : Threaded t cells chains) (shared : Shared t) {e : Nat}
    (mem : e ∈ chains player) :
    ((chains player).dropWhile fun e => (t.programData e).isNone).head?.bind t.programData =
      t.programData e := by
  have agree : ∀ f ∈ chains player, t.programData f = t.programData e := fun f o => by
    obtain ⟨isLive, owned⟩ := threaded.mem_chain.mp mem
    obtain ⟨otherLive, otherOwned⟩ := threaded.mem_chain.mp o
    exact shared.agree f e otherLive isLive (otherOwned.trans owned.symm)
  cases carries : t.programData e with
  | none =>
    have passed : ∀ f ∈ chains player, (t.programData f).isNone = true := fun f o => by
      rw [agree f o, carries]
      rfl
    rw [dropWhile_eq_nil_iff.mpr passed]
    rfl
  | some program =>
    obtain ⟨fst, rest, split⟩ := exists_cons_of_ne_nil (ne_nil_of_mem mem)
    have stops : t.programData fst = some program :=
      (agree fst (by simp [split])).trans carries
    rw [split, dropWhile_cons_of_neg (by simp [stops])]
    exact stops

theorem joins_of_idle (idle : t.programData d = none) (pending : Option Nat) :
    t.joins d pending = update t.programData d pending := by
  cases pending with
  | none => rw [← idle, Function.update_eq_self, idle]; rfl
  | some program => rfl

section

variable (threaded : Threaded t cells chains) (shared : Shared t)
include threaded shared

theorem connectPlayer_shared
    (isOpen : t.opened d = true) (notConnected : t.connected d = false) {t' : DescTable}
    (ran : t.connectPlayer d player = some t') : Shared t' := by
  obtain ⟨whole, -⟩ := connectPlayer_spec threaded isOpen notConnected player
  rw [some.inj (ran.symm.trans whole), DescTable.announceConnect, desc_addhash_eq,
    joins_of_idle (shared.idle isOpen notConnected)]
  refine Shared.rethread (Shared.join threaded shared isOpen notConnected
    (fun e mem => (shared.pending_eq threaded mem).symm) fun hf empty => ?_) _ _ _
  simp [empty] at hf

theorem createPlayer_shared (isOpen : t.opened d = true) (notConnected : t.connected d = false)
    (notFlagged : t.flagged player = false) : Shared (t.createPlayer d player) := by
  have idle := shared.idle isOpen notConnected
  have empty : chains player = [] := by
    have noChain := mt (threaded.hashed.flagged player).mpr (by simp [notFlagged])
    exact not_not.mp noChain
  have data : t.programData = update t.programData d none := by
    rw [← idle, Function.update_eq_self]
  have nothing : ∀ e ∈ chains player, t.programData e = none := by simp [empty]
  have joined := shared.join threaded isOpen notConnected nothing (by simp)
  rw [← data] at joined
  rw [DescTable.createPlayer, DescTable.announceConnect, desc_addhash_eq]
  exact joined.rethread _ _ _

theorem shutdownsock_logout_shared
    (isLive : t.Live d) (idle : t.programData d = none) {t' : DescTable}
    (ran : t.shutdownsock d .logout false = some t') : Shared t' := by
  obtain ⟨_, whole, -, hashnext, descHtab, flagged, fields⟩ := shutdownsock_logout threaded isLive
  rw [some.inj (ran.symm.trans whole), fields]
  refine ⟨fun e program isOpen carries => ?_, fun e f eLive fLive eq => ?_,
    shared.freedOnce, shared.kept, shared.unused⟩
  · have ne : e ≠ d := by
      rintro rfl
      simp [idle] at carries
    simp only [update_of_ne ne]
    exact shared.held e program isOpen carries
  · have eElse : e ≠ d := by
      rintro rfl
      simp [DescTable.Live] at eLive
    have fElse : f ≠ d := by
      rintro rfl
      simp [DescTable.Live] at fLive
    simp only [DescTable.Live, update_of_ne eElse, update_of_ne fElse]
      at eLive fLive eq
    exact shared.agree e f eLive fLive eq

end

theorem freedBy_eq (t : DescTable) (d : Nat) (others : List Nat) (program : Nat) :
    t.freedBy d others program =
      if t.programData d = some program ∧ others = [] then t.freed program + 1
      else t.freed program := by
  unfold DescTable.freedBy
  cases t.programData d with
  | none => simp
  | some carried =>
    by_cases last : others = []
    · by_cases eq : program = carried
      · simp [last, eq]
      · simp [last, eq, Ne.symm eq]
    · simp [last]

theorem shutdownsock_close_shared (threaded : Threaded t cells chains) (shared : Shared t)
    (isOpen : t.opened d = true) {reason : DiscReason} {forbidden : Bool}
    (goes : reason = .logout → forbidden = true ∨ t.connected d = false) {t' : DescTable}
    (ran : t.shutdownsock d reason forbidden = some t') : Shared t' := by
  obtain ⟨_, whole, -, hashnext, descHtab, flagged, fields⟩ :=
    shutdownsock_close threaded isOpen reason forbidden goes
  rw [some.inj (ran.symm.trans whole), fields]
  -- Another descriptor with the PROG of `d` is on the chain that is left.
  have remaining : ∀ e, e ≠ d → t.Live e → t.player e = t.player d →
      e ∈ (chains (t.player d)).erase d := fun e ne eLive eq =>
    (mem_erase_of_ne ne).mpr (threaded.mem_chain.mpr ⟨eLive, eq⟩)
  refine ⟨fun e program eOpen carries => ?_, fun e f eLive fLive eq => ?_,
    fun program => ?_, fun program below notFreed => ?_, fun program unused => ?_⟩
  · have ne : e ≠ d := by
      rintro rfl
      simp at eOpen
    simp only [update_of_ne ne] at eOpen
    obtain ⟨connected, old, made, notFreed⟩ := shared.held e program eOpen carries
    refine ⟨connected, old, made, ?_⟩
    dsimp only
    rw [freedBy_eq, if_neg, notFreed]
    rintro ⟨carried, last⟩
    have mem := remaining e ne ⟨eOpen, connected⟩
      (shared.same_player eOpen carries isOpen carried)
    simp [last] at mem
  · have eElse : e ≠ d := by
      rintro rfl
      simp [DescTable.Live] at eLive
    have fElse : f ≠ d := by
      rintro rfl
      simp [DescTable.Live] at fLive
    simp only [DescTable.Live, update_of_ne eElse, update_of_ne fElse]
      at eLive fLive
    exact shared.agree e f eLive fLive eq
  · dsimp only
    rw [freedBy_eq]
    split
    next last =>
      have notFreed := (shared.held d program isOpen last.1).2.2.2
      omega
    next => exact shared.freedOnce program
  · dsimp only at notFreed
    rw [freedBy_eq] at notFreed
    split at notFreed
    next => simp at notFreed
    next stays =>
      obtain ⟨e, eOpen, carries⟩ := shared.kept program below notFreed
      by_cases here : e = d
      · subst here
        have left : (chains (t.player e)).erase e ≠ [] := fun last => stays ⟨carries, last⟩
        obtain ⟨f, mem⟩ := exists_mem_of_ne_nil _ left
        have nodup := (threaded.hashed.chain (t.player e)).nodup
        obtain ⟨ne, hin⟩ := nodup.mem_erase_iff.mp mem
        obtain ⟨fLive, eq⟩ := threaded.mem_chain.mp hin
        have agree := shared.agree f e fLive (shared.live eOpen carries) eq
        exact ⟨f, by simpa [ne] using fLive.1, agree.trans carries⟩
      · exact ⟨e, by simpa [here] using eOpen, carries⟩
  · dsimp only
    rw [freedBy_eq, if_neg]
    · exact shared.unused program unused
    · rintro ⟨carried, -⟩
      have old := (shared.held d program isOpen carried).2.1
      exact absurd old (Nat.not_lt_of_le unused)

theorem tableCalls_shared : CallsKeep Shared fun t d => t.programData d = none where
  opening := fun _ ⟨_, _, threaded⟩ shared => initializesock_shared threaded shared
  connecting := fun _ _ _ _ ⟨_, _, threaded⟩ shared isOpen notConnected ran =>
    connectPlayer_shared threaded shared isOpen notConnected ran
  creating := fun _ _ _ ⟨_, _, threaded⟩ shared isOpen notConnected notFlagged =>
    createPlayer_shared threaded shared isOpen notConnected notFlagged
  closing := fun _ _ _ _ _ ⟨_, _, threaded⟩ shared isOpen goes ran =>
    shutdownsock_close_shared threaded shared isOpen goes ran
  loggingOut := fun _ _ _ ⟨_, _, threaded⟩ shared isLive idle ran =>
    shutdownsock_logout_shared threaded shared isLive idle ran

/-! ## Programs -/

theorem foldl_update {Value : Type*} (chain : List Nat) (value : Value) (data : Nat → Value)
    (e : Nat) :
    chain.foldl (fun data d => update data d value) data e =
      if e ∈ chain then value else data e := by
  induction chain generalizing data with
  | nil => simp
  | cons d rest ih =>
    rw [foldl_cons, ih]
    by_cases inRest : e ∈ rest
    · simp [inRest]
    · by_cases here : e = d <;> simp [inRest, here]

theorem endProgram_eq (threaded : Threaded t cells chains) (shared : Shared t)
    (mem : d ∈ chains player) (carries : t.programData d = some program) :
    t.endProgram player = some { t with
      freed := update t.freed program (t.freed program + 1)
      programData := fun e => if e ∈ chains player then none else t.programData e
      progCmd := update t.progCmd player "" } := by
  have below : ∀ d, t.Live d → d < t.allocated := fun d => threaded.live_below
  obtain ⟨fst, rest, split⟩ := exists_cons_of_ne_nil (ne_nil_of_mem mem)
  have entry : t.descHtab player = some fst := by
    have chain := threaded.hashed.chain player
    rw [split] at chain
    exact chain.1
  have headCarries : t.programData fst = some program := by
    obtain ⟨isLive, owned⟩ := threaded.mem_chain.mp mem
    obtain ⟨firstLive, firstOwned⟩ :=
      threaded.mem_chain.mp (show fst ∈ chains player by simp [split])
    exact (shared.agree fst d firstLive isLive (firstOwned.trans owned.symm)).trans carries
  have loop : DescTable.iterPlayer
      { t with freed := update t.freed program (t.freed program + 1) } player
      (fun programData all => update programData all none) t.programData =
      some fun e => if e ∈ chains player then none else t.programData e := by
    have freeing : Chained { t with freed := update t.freed program (t.freed program + 1) }
        t.Live chains := ⟨threaded.hashed.chain, threaded.hashed.member⟩
    rw [freeing.iterPlayer below]
    exact congrArg some (funext (foldl_update (chains player) none t.programData))
  unfold DescTable.endProgram
  simp only [entry, headCarries, loop, bind_eq_bind, bind_some]

theorem endProgram_shared (threaded : Threaded t cells chains) (shared : Shared t)
    (mem : d ∈ chains player) (carries : t.programData d = some program) :
    Shared { t with
      freed := update t.freed program (t.freed program + 1)
      programData := fun e => if e ∈ chains player then none else t.programData e
      progCmd := update t.progCmd player "" } := by
  obtain ⟨isLive, owned⟩ := threaded.mem_chain.mp mem
  have inChain : ∀ e, t.opened e = true → t.programData e = some program →
      e ∈ chains player := fun e isOpen eCarries =>
    threaded.mem_chain.mpr ⟨shared.live isOpen eCarries,
      (shared.same_player isOpen eCarries isLive.1 carries).trans owned⟩
  have ofChain : ∀ e ∈ chains player, t.programData e = some program := fun e o => by
    obtain ⟨eLive, eOwned⟩ := threaded.mem_chain.mp o
    exact (shared.agree e d eLive isLive (eOwned.trans owned.symm)).trans carries
  obtain ⟨-, old, -, notFreed⟩ := shared.held d program isLive.1 carries
  refine ⟨fun e o isOpen eCarries => ?_, fun e f eLive fLive eq => ?_,
    fun o => ?_, fun o below stays => ?_, fun o unused => ?_⟩
  · dsimp only at eCarries ⊢
    split at eCarries
    next => simp at eCarries
    next outside =>
      have ne : o ≠ program := by
        rintro rfl
        exact outside (inChain e isOpen eCarries)
      rw [update_of_ne ne]
      exact shared.held e o isOpen eCarries
  · have together : e ∈ chains player ↔ f ∈ chains player := by
      simp only [threaded.mem_chain]
      exact ⟨fun ⟨_, eOwned⟩ => ⟨fLive, eq.symm.trans eOwned⟩,
        fun ⟨_, fOwned⟩ => ⟨eLive, eq.trans fOwned⟩⟩
    simp only [together, shared.agree e f eLive fLive eq]
  · by_cases ended : o = program
    · subst ended
      simp [notFreed]
    · simpa [ended] using shared.freedOnce o
  · have ne : o ≠ program := by
      rintro rfl
      simp at stays
    simp only [update_of_ne ne] at stays
    obtain ⟨e, isOpen, eCarries⟩ := shared.kept o below stays
    have outside : e ∉ chains player := fun hin =>
      ne (some.inj (eCarries.symm.trans (ofChain e hin)))
    exact ⟨e, isOpen, by simpa [outside] using eCarries⟩
  · have ne : o ≠ program := by
      rintro rfl
      exact absurd old (Nat.not_lt_of_le unused)
    simpa [ne] using shared.unused o unused

def Sound (t : DescTable) : Prop := WellThreaded t ∧ Shared t

theorem Threaded.reprogram (threaded : Threaded t cells chains)
    (programData : Nat → Option Nat) (prog : Nat → Prog) (progs : Nat) (freed : Nat → Nat)
    (progCmd : Dbref → String) (queued : List Queued) :
    Threaded { t with
      programData := programData
      prog := prog
      progs := progs
      freed := freed
      progCmd := progCmd
      queued := queued } cells chains :=
  ⟨⟨threaded.listed.holds, threaded.listed.open_iff, threaded.listed.below,
    threaded.listed.falling⟩, ⟨threaded.hashed.chain, threaded.hashed.member⟩,
    threaded.hashed.flagged⟩

theorem endProgram_sound (sound : Sound t) (isLive : t.Live d) (owned : t.player d = player)
    (carries : t.programData d = some program) :
    ∃ t', t.endProgram player = some t' ∧ Sound t' := by
  obtain ⟨⟨cells, chains, threaded⟩, shared⟩ := sound
  have mem : d ∈ chains player := threaded.mem_chain.mpr ⟨isLive, owned⟩
  exact ⟨_, endProgram_eq threaded shared mem carries,
    ⟨cells, chains, threaded.reprogram _ _ _ _ _ _⟩,
    endProgram_shared threaded shared mem carries⟩

theorem handle_prog_sound (sound : Sound t) (isOpen : t.opened d = true)
    (carries : t.programData d = some program) (message : String) :
    ∃ t', t.handleProg d message = some t' ∧ Sound t' := by
  obtain ⟨⟨cells, chains, threaded⟩, shared⟩ := sound
  have isLive := shared.live isOpen carries
  let command : Queued :=
    { waitCause := (t.prog program).waitCause
      player := t.player d
      cmd := t.progCmd (t.player d)
      message := message
      waitRegs := (t.prog program).waitRegs }
  have queued : Sound { t with queued := t.queued ++ [command] } :=
    ⟨⟨cells, chains, threaded.reprogram t.programData t.prog t.progs t.freed t.progCmd _⟩,
      shared.held, shared.agree, shared.freedOnce, shared.kept, shared.unused⟩
  obtain ⟨t', ran, sound'⟩ := endProgram_sound queued (d := d) isLive rfl carries
  refine ⟨t', ?_, sound'⟩
  unfold DescTable.handleProg
  simp only [carries, bind_eq_bind, bind_some]
  exact ran

theorem foldl_or (cells : List Nat) (h : Nat → Bool) (start : Bool) :
    cells.foldl (fun hf d => hf || h d) start = (start || cells.any h) := by
  induction cells generalizing start with
  | nil => simp
  | cons d rest ih =>
    rw [foldl_cons, ih, any_cons, Bool.or_assoc]

theorem do_quitprog_sound (sound : Sound t) (doer : Dbref) (permitted : Bool) :
    ∃ t', t.doQuitprog doer permitted = some t' ∧ Sound t' := by
  have whole := sound
  obtain ⟨⟨cells, chains, threaded⟩, shared⟩ := sound
  by_cases proceeds : permitted = true ∧ t.flagged doer = true
  · have loop : t.iterPlayer doer (fun isprog d => isprog || (t.programData d).isSome) false =
        some ((chains doer).any fun d => (t.programData d).isSome) := by
      rw [threaded.hashed.toChained.iterPlayer fun d => threaded.live_below]
      exact congrArg some (foldl_or (chains doer) _ false)
    unfold DescTable.doQuitprog
    rw [if_pos proceeds, loop]
    cases isprog : (chains doer).any fun d => (t.programData d).isSome with
    | false => exact ⟨t, rfl, whole⟩
    | true =>
      obtain ⟨d, mem, carries⟩ := any_eq_true.mp isprog
      obtain ⟨program, carries⟩ := isSome_iff_exists.mp carries
      obtain ⟨isLive, owned⟩ := threaded.mem_chain.mp mem
      exact endProgram_sound whole isLive owned carries
  · exact ⟨t, if_neg proceeds, whole⟩

theorem Shared.start (threaded : Threaded t cells chains) (shared : Shared t)
    (idle : ∀ e ∈ chains player, t.programData e = none) (some' : chains player ≠ [])
    (program : Prog) (doer : program.doer = player) (progCmd : Dbref → String) :
    Shared { t with
      progs := t.progs + 1
      prog := update t.prog t.progs program
      programData := fun e => if e ∈ chains player then some t.progs else t.programData e
      progCmd := progCmd } := by
  have hin : ∀ e, e ∈ chains player ↔ t.Live e ∧ t.player e = player := fun e =>
    threaded.mem_chain
  refine ⟨fun e o isOpen carries => ?_, fun e f eLive fLive eq => ?_, shared.freedOnce,
    fun o below notFreed => ?_, fun o unused => shared.unused o (by
      exact Nat.le_of_succ_le unused)⟩
  · dsimp only at carries ⊢
    split at carries
    next mem =>
      obtain ⟨isLive, owned⟩ := (hin e).mp mem
      cases carries
      exact ⟨isLive.2, Nat.lt_succ_self _, by simpa using doer.trans owned.symm,
        shared.unused _ (Nat.le_refl _)⟩
    next =>
      obtain ⟨connected, old, made, notFreed⟩ := shared.held e o isOpen carries
      have ne : o ≠ t.progs := Nat.ne_of_lt old
      exact ⟨connected, Nat.lt_succ_of_lt old, by simpa [ne] using made, notFreed⟩
  · have together : e ∈ chains player ↔ f ∈ chains player := by
      simp only [hin]
      exact ⟨fun ⟨_, eOwned⟩ => ⟨fLive, eq.symm.trans eOwned⟩,
        fun ⟨_, fOwned⟩ => ⟨eLive, eq.trans fOwned⟩⟩
    simp only [together, shared.agree e f eLive fLive eq]
  · by_cases isNew : o = t.progs
    · subst isNew
      obtain ⟨e, mem⟩ := exists_mem_of_ne_nil _ some'
      exact ⟨e, ((hin e).mp mem).1.1, by simp [mem]⟩
    · have old : o < t.progs := Nat.lt_of_le_of_ne (Nat.le_of_lt_succ below) isNew
      obtain ⟨e, isOpen, carries⟩ := shared.kept o old notFreed
      have outside : e ∉ chains player := fun mem => by simp [idle e mem] at carries
      exact ⟨e, isOpen, by simpa [outside] using carries⟩

theorem do_prog_sound (sound : Sound t) (player doer : Dbref) (permitted : Bool)
    (cmd : String) (regs : List String) :
    ∃ t', t.doProg player doer permitted cmd regs = some t' ∧ Sound t' := by
  have whole := sound
  obtain ⟨⟨cells, chains, threaded⟩, shared⟩ := sound
  have below : ∀ d, t.Live d → d < t.allocated := fun d => threaded.live_below
  by_cases proceeds : permitted = true ∧ t.flagged doer = true
  · have named : Chained { t with progCmd := update t.progCmd doer cmd } t.Live chains :=
      ⟨threaded.hashed.chain, threaded.hashed.member⟩
    unfold DescTable.doProg
    rw [if_pos proceeds]
    simp only [named.pendingProgram below, bind_eq_bind, bind_some]
    cases pending : ((chains doer).dropWhile fun e => (t.programData e).isNone).head?.bind
      t.programData with
    | some program =>
      exact ⟨_, rfl, ⟨cells, chains,
        threaded.reprogram t.programData t.prog t.progs t.freed _ t.queued⟩,
        shared.held, shared.agree, shared.freedOnce, shared.kept, shared.unused⟩
    | none =>
      have idle : ∀ e ∈ chains doer, t.programData e = none := fun e mem =>
        (shared.pending_eq threaded mem).symm.trans pending
      have some' := (threaded.hashed.flagged doer).mp proceeds.2
      have started := shared.start threaded idle some' ⟨player, regs, doer⟩ rfl
        (update t.progCmd doer cmd)
      have allocated : Chained { t with
          progs := t.progs + 1
          prog := update t.prog t.progs ⟨player, regs, doer⟩
          progCmd := update t.progCmd doer cmd } t.Live chains :=
        ⟨threaded.hashed.chain, threaded.hashed.member⟩
      simp only [allocated.iterPlayer below]
      refine ⟨_, rfl, ⟨cells, chains, threaded.reprogram _ _ _ t.freed _ t.queued⟩, ?_⟩
      rw [funext (foldl_update (chains doer) (some t.progs) t.programData)]
      exact started
  · exact ⟨t, if_neg proceeds, whole⟩

/-! ## Runs -/

def ProgCall.logsOut : ProgCall → Option Nat
  | .table (.shutdownsock d .logout false) => some d
  | _ => none

instance liveDecidable (t : DescTable) (d : Nat) : Decidable (t.Live d) :=
  inferInstanceAs (Decidable (_ ∧ _))

def LogsOutClear (t : DescTable) (made : ProgCall) : Prop :=
  ∀ d ∈ made.logsOut, t.Live d → t.programData d = none

instance logsOutClearDecidable (t : DescTable) (made : ProgCall) :
    Decidable (LogsOutClear t made) :=
  inferInstanceAs (Decidable (∀ d ∈ made.logsOut, t.Live d → t.programData d = none))

theorem progCall_sound (sound : Sound t) (made : ProgCall) (clear : LogsOutClear t made) :
    ∃ t', progCall t made = some t' ∧ Sound t' := by
  cases made with
  | table made =>
    exact tableCall_keeps tableCalls_shared sound.1 sound.2 made
      fun d eq isLive => clear d (by rw [eq]; rfl) isLive
  | doProg player doer permitted cmd regs =>
    exact do_prog_sound sound player doer permitted cmd regs
  | handleProg d message =>
    by_cases waits : t.opened d = true ∧ (t.programData d).isSome = true
    · obtain ⟨program, carries⟩ := isSome_iff_exists.mp waits.2
      obtain ⟨t', ran, sound'⟩ := handle_prog_sound sound waits.1 carries message
      exact ⟨t', (if_pos waits).trans ran, sound'⟩
    · exact ⟨t, if_neg waits, sound⟩
  | doQuitprog doer permitted => exact do_quitprog_sound sound doer permitted

theorem start_sound : Sound DescTable.start :=
  ⟨⟨[], fun _ => [], start_threaded⟩, start_shared⟩

/-- In a run in which nobody logs out of a descriptor that waits for an answer, nothing goes
wrong and programs are shared as they should be. -/
theorem run_shared (made : List ProgCall)
    (clear : Machine.Guarded progCall LogsOutClear DescTable.start made) :
    ∃ t, Machine.run progCall DescTable.start made = some t ∧ Shared t := by
  obtain ⟨t, ran, sound⟩ := Machine.guarded_invariant
    (fun _ made sound clear => progCall_sound sound made clear) start_sound clear
  exact ⟨t, ran, sound.2⟩

/-- A player with two descriptors answers on one, after the other was closed; a third that
joined the program logs out once it is over. -/
def answeredOnce : List ProgCall :=
  [.table .initializesock, .table .initializesock, .table .initializesock,
    .table (.connectPlayer 0 1), .table (.connectPlayer 1 1),
    .doProg 1 1 true "say %0" ["r"], .table (.connectPlayer 2 1),
    .table (.shutdownsock 0 .quit false), .handleProg 1 "yes",
    .table (.shutdownsock 2 .logout false)]

theorem run_shared_answered :
    ∃ t, Machine.run progCall DescTable.start answeredOnce = some t ∧ Shared t :=
  run_shared answeredOnce (by decide)

/-- A player with two descriptors logs out of one during a program and answers on the other.
Then somebody connects on the first one, which still has the PROG, and answers again. -/
def answeredTwice : List ProgCall :=
  [.table .initializesock, .table .initializesock,
    .table (.connectPlayer 0 1), .table (.connectPlayer 1 1), .doProg 1 1 true "say %0" [],
    .table (.shutdownsock 0 .logout false), .handleProg 1 "yes",
    .table (.connectPlayer 0 2), .handleProg 0 "no"]

/-- Logging out leaves the program on the descriptor: it is freed a second time, and a line
that is typed before the next connection follows a null pointer. -/
theorem logout_keeps_program :
    (∃ t, Machine.run progCall DescTable.start answeredTwice = some t ∧ t.freed 0 = 2 ∧
      ¬ Shared t) ∧
    Machine.run progCall DescTable.start
      (answeredTwice.take 6 ++ [.handleProg 0 "connect Two"]) = none := by
  refine ⟨?_, by decide⟩
  have freed : (Machine.run progCall DescTable.start answeredTwice).map (fun t => t.freed 0) =
      some 2 := by decide
  obtain ⟨t, ran, twice⟩ := map_eq_some_iff.mp freed
  refine ⟨t, ran, twice, fun shared => ?_⟩
  have once := shared.freedOnce 0
  omega

end BattletechMux.Net
