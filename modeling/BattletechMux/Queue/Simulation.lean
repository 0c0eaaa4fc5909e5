/-
Module: BattletechMux.Queue.Simulation
Purpose: Every function of the server does to its memory what the function of that name does to the
  board: one lemma for each, from the loops up to a step, and from the step to runs from the empty
  server.
-/
import BattletechMux.Queue.Board

namespace BattletechMux.Queue

open List Option

open Function (update update_self update_of_ne)
open LinkedMemory (Fifo Chain picked walk seek walk_eq seek_eq)

variable {rules : Rules} {s s' : Server} {b b' : Board} {held held' : List Addr} {tmp : Addr}

@[simp] theorem Board.lane_setLane (lane : Lane) (entries : List Addr) :
    (b.setLane lane entries).lane lane = entries := by
  cases lane <;> rfl

@[simp] theorem Board.setLane_toReady (lane : Lane) (entries : List Addr) :
    (b.setLane lane entries).toReady = b.toReady := by
  cases lane <;> rfl

@[simp] theorem Board.setLane_lane (lane : Lane) : b.setLane lane (b.lane lane) = b := by
  cases lane <;> rfl

namespace Board.Tidy

theorem of_perm (tidy : b.Tidy held) (perm : (b'.all ++ held').Perm (b.all ++ held))
    (live : b'.live = b.live) (allocated : b'.allocated = b.allocated) : b'.Tidy held' where
  nodup := perm.nodup_iff.mpr tidy.nodup
  live entry := by rw [live, tidy.live, perm.mem_iff]
  below entry := by rw [live, allocated]; exact tidy.below entry

theorem release {entry : Addr} (tidy : b.Tidy (entry :: held)) (eq : b'.all = b.all)
    (live : b'.live = update b.live entry false) (allocated : b'.allocated = b.allocated) :
    b'.Tidy held := by
  have nodup := tidy.nodup
  rw [(@perm_middle _ entry b.all held).nodup_iff,
    nodup_cons] at nodup
  refine ⟨eq ▸ nodup.2, fun o => ?_, fun o alive => ?_⟩
  · rw [live, eq]
    by_cases gone : o = entry
    · subst gone
      simpa using nodup.1
    · rw [update_of_ne gone, tidy.live]
      simp [gone]
  · rw [live] at alive
    rw [allocated]
    by_cases gone : o = entry
    · simp [gone] at alive
    · rw [update_of_ne gone] at alive
      exact tidy.below o alive

theorem gone {entry : Addr} (tidy : b.Tidy []) (perm : b.all.Perm (entry :: b'.all))
    (live : b'.live = update b.live entry false) (allocated : b'.allocated = b.allocated) :
    b'.Tidy [] := by
  have off : Board.Tidy { b' with live := b.live } [entry] := by
    refine tidy.of_perm ?_ rfl allocated
    rw [append_nil]
    exact (perm_append_singleton entry b'.all).trans perm.symm
  exact off.release rfl live rfl

theorem fresh (tidy : b.Tidy []) : b.allocated ∉ b.all := by
  intro mem
  have alive := (tidy.live b.allocated).mpr (by simpa using mem)
  exact Nat.lt_irrefl _ (tidy.below b.allocated alive)

theorem born (tidy : b.Tidy []) (perm : (b'.all ++ held).Perm (b.allocated :: b.all))
    (live : b'.live = update b.live b.allocated true)
    (allocated : b'.allocated = b.allocated + 1) : b'.Tidy held := by
  refine ⟨?_, fun o => ?_, fun o alive => ?_⟩
  · exact perm.nodup_iff.mpr (nodup_cons.mpr ⟨tidy.fresh, by simpa using tidy.nodup⟩)
  · have old := tidy.live o
    rw [append_nil] at old
    rw [live, perm.mem_iff, mem_cons]
    by_cases new : o = b.allocated
    · simp [new]
    · rw [update_of_ne new, old]
      simp [new]
  · rw [allocated]
    by_cases new : o = b.allocated
    · exact Nat.lt_succ_of_le (Nat.le_of_eq new)
    · rw [live, update_of_ne new] at alive
      exact Nat.lt_succ_of_lt (tidy.below o alive)

theorem length_le (tidy : b.Tidy held) {entries : List Addr}
    (hin : entries.Sublist (b.all ++ held)) : entries.length ≤ b.allocated :=
  LinkedMemory.length_le_of_lt (tidy.nodup.sublist hin) fun entry mem =>
    tidy.below entry ((tidy.live entry).mpr (hin.subset mem))

end Board.Tidy

namespace Represents

theorem setCore (rep : Represents s b held) {core : Core} (live : core.live = b.live)
    (allocated : core.allocated = b.allocated) :
    Represents { s with toCore := core } { b with toCore := core } held :=
  { rep with
    core := rfl
    tidy := rep.tidy.of_perm (List.Perm.refl _) live allocated }

theorem limit (rep : Represents s b held) {entries : List Addr}
    (hin : entries.Sublist (b.all ++ held)) : entries.length < s.allocated + 1 := by
  have bound := rep.tidy.length_le hin
  rw [rep.core]
  omega

theorem player_sublist : b.player.Sublist (b.all ++ held) := by
  simp [Board.all]

theorem object_sublist : b.object.Sublist (b.all ++ held) := by
  simp only [Board.all, append_assoc]
  exact (sublist_append_left _ _).trans (sublist_append_right _ _)

theorem wait_sublist : b.wait.Sublist (b.all ++ held) := by
  simp only [Board.all, append_assoc]
  exact ((sublist_append_left _ _).trans (sublist_append_right _ _)).trans
    (sublist_append_right _ _)

theorem sem_sublist : b.sem.Sublist (b.all ++ held) := by
  simp only [Board.all]
  exact (sublist_append_right _ _).trans (sublist_append_left _ _)

theorem lane_sublist (lane : Lane) : (b.lane lane).Sublist (b.all ++ held) := by
  cases lane
  · exact wait_sublist
  · exact sem_sublist

theorem first_eq (rep : Represents s b held) (lane : Lane) :
    s.first lane = (b.lane lane).head? := by
  cases lane
  · exact rep.wait.head_eq
  · exact rep.sem.chain.head_eq

theorem next_eq (rep : Represents s b held) {lane : Lane} {pre post : List Addr}
    {point : Addr} (split : b.lane lane = pre ++ point :: post) :
    s.next point = post.head? := by
  cases lane
  · have chain := rep.wait
    rw [show b.wait = _ from split] at chain
    exact chain.next_eq_head.head_eq
  · have chain := rep.sem.chain
    rw [show b.sem = _ from split] at chain
    exact chain.next_eq_head.head_eq

end Represents

namespace Board.Tidy

variable {entry : Addr}

theorem not_player (tidy : b.Tidy held)
    (mem : entry ∈ b.object ∨ entry ∈ b.wait ∨ entry ∈ b.sem ∨ entry ∈ held) :
    entry ∉ b.player := by
  have nodup := tidy.nodup
  simp only [Board.all, append_assoc] at nodup
  intro inFront
  refine (nodup_append.mp nodup).2.2 entry inFront entry ?_ rfl
  simpa using mem

theorem not_object (tidy : b.Tidy held) (mem : entry ∈ b.wait ∨ entry ∈ b.sem ∨ entry ∈ held) :
    entry ∉ b.object := by
  have nodup := tidy.nodup
  simp only [Board.all, append_assoc] at nodup
  intro inFront
  refine (nodup_append.mp (nodup_append.mp nodup).2.1).2.2 entry inFront entry ?_ rfl
  simpa using mem

theorem not_wait (tidy : b.Tidy held) (mem : entry ∈ b.sem ∨ entry ∈ held) : entry ∉ b.wait := by
  have nodup := tidy.nodup
  rw [Board.all, append_assoc] at nodup
  intro inFront
  refine (nodup_append.mp nodup).2.2 entry (by simp [inFront]) entry ?_ rfl
  simpa using mem

theorem not_sem (tidy : b.Tidy held) (mem : entry ∈ held) : entry ∉ b.sem := by
  have nodup := tidy.nodup
  intro inFront
  exact (nodup_append.mp nodup).2.2 entry (by simp [Board.all, inFront]) entry mem rfl

end Board.Tidy

namespace Represents

theorem unlink (rep : Represents s b held) {lane : Lane} {pre post : List Addr}
    {point : Addr} (split : b.lane lane = pre ++ point :: post) :
    Represents (s.unlink lane pre.getLast? point) (b.setLane lane (pre ++ post))
      (point :: held) := by
  have tidy := rep.tidy
  have inLane : ∀ entry ∈ pre, entry ∈ b.lane lane := fun entry mem => by
    simp [split, mem]
  cases lane with
  | wait =>
    have entries : b.wait = pre ++ point :: post := split
    refine
      { core := rep.core
        player := rep.player.congr fun entry mem => LinkedMemory.cut_of_notMem fun inFront =>
          tidy.not_player (Or.inr (Or.inl (inLane entry inFront))) mem
        object := rep.object.congr fun entry mem => LinkedMemory.cut_of_notMem fun inFront =>
          tidy.not_object (Or.inl (inLane entry inFront)) mem
        wait := ?_
        sem := rep.sem.congr fun entry mem => LinkedMemory.cut_of_notMem fun inFront =>
          tidy.not_wait (Or.inl mem) (inLane entry inFront)
        tidy := tidy.of_perm ?_ rfl rfl }
    · exact Chain.cut (entries ▸ rep.wait)
    · simp only [Board.all, Board.setLane, entries]
      grind
  | sem =>
    have entries : b.sem = pre ++ point :: post := split
    refine
      { core := rep.core
        player := rep.player.congr fun entry mem => LinkedMemory.cut_of_notMem fun inFront =>
          tidy.not_player (Or.inr (Or.inr (Or.inl (inLane entry inFront)))) mem
        object := rep.object.congr fun entry mem => LinkedMemory.cut_of_notMem fun inFront =>
          tidy.not_object (Or.inr (Or.inl (inLane entry inFront))) mem
        wait := rep.wait.congr fun entry mem => LinkedMemory.cut_of_notMem fun inFront =>
          tidy.not_wait (Or.inl (inLane entry inFront)) mem
        sem := ?_
        tidy := tidy.of_perm ?_ rfl rfl }
    · exact Fifo.Holds.cut (entries ▸ rep.sem)
    · simp only [Board.all, Board.setLane, entries]
      grind

theorem clearLink (rep : Represents s b held) (mem : tmp ∈ held) :
    Represents { s with next := update s.next tmp none } b held := by
  have keep : ∀ {entries : List Addr}, tmp ∉ entries → ∀ entry ∈ entries,
      update s.next tmp none entry = s.next entry := by
    intro entries fresh entry hin
    refine update_of_ne ?_ _ _
    rintro rfl
    exact fresh hin
  exact
    { rep with
      player := rep.player.congr
        (keep (rep.tidy.not_player (Or.inr (Or.inr (Or.inr mem)))))
      object := rep.object.congr (keep (rep.tidy.not_object (Or.inr (Or.inr mem))))
      wait := rep.wait.congr (keep (rep.tidy.not_wait (Or.inr mem)))
      sem := rep.sem.congr (keep (rep.tidy.not_sem mem)) }

theorem giveQue (rep : Represents s b (tmp :: held)) :
    Represents (s.giveQue rules tmp) { b with toReady := b.toReady.giveQue rules tmp } held := by
  have tidy := rep.tidy
  have cleared : Represents
      { s with next := update s.next tmp none, toCore := b.toCore.setWaittime tmp 0 }
      { b with toCore := b.toCore.setWaittime tmp 0 } (tmp :: held) :=
    (rep.clearLink mem_cons_self).setCore rfl rfl
  have ended : update s.next tmp none tmp = none := update_self ..
  have notPlayer : tmp ∉ b.player := tidy.not_player (by simp)
  have notObject : tmp ∉ b.object := tidy.not_object (by simp)
  simp only [Server.giveQue, Ready.giveQue, rep.core]
  split
  · refine
      { core := rfl
        player := cleared.player.append notPlayer ended
        object := cleared.object.congr fun entry mem =>
          Fifo.append_of_notMem cleared.player (tidy.not_player (Or.inl mem))
        wait := cleared.wait.congr fun entry mem =>
          Fifo.append_of_notMem cleared.player (tidy.not_player (Or.inr (Or.inl mem)))
        sem := cleared.sem.congr fun entry mem =>
          Fifo.append_of_notMem cleared.player (tidy.not_player (Or.inr (Or.inr (Or.inl mem))))
        tidy := tidy.of_perm ?_ rfl rfl }
    simp only [Board.all]
    grind
  · refine
      { core := rfl
        player := cleared.player.congr fun entry mem =>
          Fifo.append_of_notMem cleared.object fun inObject =>
            tidy.not_player (Or.inl inObject) mem
        object := cleared.object.append notObject ended
        wait := cleared.wait.congr fun entry mem =>
          Fifo.append_of_notMem cleared.object (tidy.not_object (Or.inl mem))
        sem := cleared.sem.congr fun entry mem =>
          Fifo.append_of_notMem cleared.object (tidy.not_object (Or.inr (Or.inl mem)))
        tidy := tidy.of_perm ?_ rfl rfl }
    simp only [Board.all]
    grind

end Represents

/-- An effect on the objects and on the entry that neither allocates nor frees. -/
structure Keeps (effect : Core → Addr → Core) : Prop where
  live : ∀ core point, (effect core point).live = core.live
  allocated : ∀ core point, (effect core point).allocated = core.allocated
  info : ∀ core point other, other ≠ point → (effect core point).info other = core.info other

/-- What a loop does with a block it has unlinked, on the server and on the board. -/
structure Acts (act : Server → Addr → Option Server) (effect : Ready → Addr → Ready) :
    Prop where
  represents : ∀ {s b held point}, Represents s b (point :: held) →
    ∃ s', act s point = some s' ∧ Represents s' { b with toReady := effect b.toReady point } held
  info : ∀ ready point other, other ≠ point → (effect ready point).info other = ready.info other

theorem Ready.giveQue_info {r : Ready} {o : Addr} (ne : o ≠ tmp) :
    (r.giveQue rules tmp).info o = r.info o := by
  simp only [Ready.giveQue]
  split <;> simp [Core.note, Core.setWaittime, ne]

theorem Keeps.dropAfter {effect : Core → Addr → Core} (keeps : Keeps effect) :
    Acts (Server.dropAfter effect) (Ready.dropAfter effect) where
  represents := by
    intro s b held point rep
    have alive : b.live point = true := (rep.tidy.live point).mpr (by simp)
    have freed : (effect b.toCore point).free point =
        some ((effect b.toCore point).release point) := by
      rw [Core.free, keeps.live, alive, if_pos rfl]
    refine ⟨{ s with toCore := (effect b.toCore point).release point }, ?_, ?_⟩
    · simp only [Server.dropAfter, rep.core, freed, bind_eq_bind, bind_some]
    · refine { rep with core := rfl, tidy := rep.tidy.release rfl ?_ ?_ }
      · simp only [Ready.dropAfter, Core.release, keeps.live]
      · exact keeps.allocated b.toCore point
  info ready point o ne := keeps.info ready.toCore point o ne

theorem Keeps.giveAfter (rules : Rules) {effect : Core → Addr → Core} (keeps : Keeps effect) :
    Acts (Server.giveAfter rules effect) (Ready.giveAfter rules effect) where
  represents := by
    intro s b held point rep
    refine ⟨_, rfl, ?_⟩
    have changed := rep.setCore (keeps.live b.toCore point) (keeps.allocated b.toCore point)
    rw [rep.core]
    exact changed.giveQue
  info ready point o ne := by
    rw [Ready.giveAfter, Ready.giveQue_info ne]
    exact keeps.info ready.toCore point o ne

theorem Server.sweep_none {lane : Lane} {want : Block → Bool}
    {act : Server → Addr → Option Server} {hlt : Nat → Bool} {limit num : Nat}
    {trail : Option Addr} (room : 0 < limit) :
    s.sweep lane want act hlt limit trail none num = some (num, s) := by
  obtain ⟨limit, rfl⟩ := Nat.exists_eq_succ_of_ne_zero (Nat.ne_of_gt room)
  rfl

theorem Represents.sweepFrom {lane : Lane} {want : Block → Bool}
    {act : Server → Addr → Option Server} {effect : Ready → Addr → Ready}
    {hlt : Nat → Bool} (acts : Acts act effect) {pre rest : List Addr} {limit : Nat}
    (num : Nat) (rep : Represents s b held) (split : b.lane lane = pre ++ rest)
    (room : rest.length < limit) :
    let taken := (picked (fun point => want (b.info point)) hlt num rest).1
    let kept := (picked (fun point => want (b.info point)) hlt num rest).2
    ∃ s', s.sweep lane want act hlt limit pre.getLast? rest.head? num =
        some (num + taken.length, s') ∧
      Represents s'
        (Board.setLane { b with toReady := taken.foldl effect b.toReady } lane (pre ++ kept))
        held := by
  induction rest generalizing s b pre limit num with
  | nil =>
    obtain ⟨limit, rfl⟩ := Nat.exists_eq_succ_of_ne_zero (Nat.ne_of_gt room)
    refine ⟨s, rfl, ?_⟩
    have eq : Board.setLane { b with toReady := b.toReady } lane (pre ++ []) = b := by
      rw [← split]
      exact Board.setLane_lane lane
    simpa only [picked, foldl_nil, eq] using rep
  | cons point rest ih =>
    obtain ⟨limit, rfl⟩ :=
      Nat.exists_eq_succ_of_ne_zero (Nat.ne_of_gt (Nat.zero_lt_of_lt room))
    have following : s.next point = rest.head? := rep.next_eq split
    have shorter : rest.length < limit := by simpa using room
    have more : 0 < limit := Nat.zero_lt_of_lt shorter
    rw [head?_cons, Server.sweep, rep.core, following]
    cases wanted : want (b.info point) with
    | false =>
      have split' : b.lane lane = (pre ++ [point]) ++ rest := by simp [split]
      have last : (pre ++ [point]).getLast? = some point := by simp
      simp only [Bool.false_eq_true, if_false, picked, wanted]
      cases full : hlt num with
      | true =>
        refine ⟨s, Server.sweep_none more, ?_⟩
        have eq : Board.setLane { b with toReady := b.toReady } lane
            (pre ++ point :: rest) = b := by
          rw [← split]
          exact Board.setLane_lane lane
        simpa only [if_true, foldl_nil, eq] using rep
      | false =>
        obtain ⟨s', ran, rep'⟩ := ih num rep split' shorter
        rw [last] at ran
        exact ⟨s', ran, by simpa using rep'⟩
    | true =>
      obtain ⟨s₁, acted, rep₁⟩ := acts.represents (rep.unlink split)
      rw [Board.setLane_toReady] at rep₁
      simp only [if_true, picked, wanted, acted, bind_eq_bind, bind_some]
      cases full : hlt (num + 1) with
      | true =>
        refine ⟨s₁, Server.sweep_none more, ?_⟩
        cases lane <;> exact rep₁
      | false =>
        have nodup : point ∉ rest := by
          have chain := rep.tidy.nodup.sublist (Represents.lane_sublist (b := b) lane)
          rw [split, nodup_append] at chain
          exact (nodup_cons.mp chain.2.1).1
        have agree : ∀ o ∈ rest,
            want ((effect b.toReady point).info o) = want (b.info o) := by
          intro o mem
          rw [acts.info]
          rintro rfl
          exact nodup mem
        have again : Board.lane { b.setLane lane (pre ++ rest) with
            toReady := effect b.toReady point } lane = pre ++ rest := by
          cases lane <;> rfl
        obtain ⟨s', ran, rep'⟩ := ih (num + 1) rep₁ again shorter
        have eq := LinkedMemory.picked_congr hlt (num + 1) agree
        dsimp only at ran rep'
        rw [eq] at ran rep'
        simp only [Bool.false_eq_true, if_false, foldl_cons, length_cons]
        refine ⟨s', ?_, ?_⟩
        · rw [ran, Nat.add_right_comm, Nat.add_assoc]
        · cases lane <;> exact rep'

theorem Represents.sweep {act : Server → Addr → Option Server} {effect : Ready → Addr → Ready}
    (acts : Acts act effect) (rep : Represents s b held) (lane : Lane) (want : Block → Bool)
    (hlt : Nat → Bool) (num : Nat) :
    ∃ s', s.sweep lane want act hlt (s.allocated + 1) none (s.first lane) num =
        some ((b.sweep lane want effect hlt num).1, s') ∧
      Represents s' (b.sweep lane want effect hlt num).2 held := by
  rw [rep.first_eq lane]
  have room := rep.limit (Represents.lane_sublist lane)
  exact @Represents.sweepFrom _ _ _ lane want act effect hlt acts [] _ _ num rep rfl room

theorem haltWait_keeps : Keeps Core.haltWait := ⟨fun _ _ => rfl, fun _ _ => rfl, fun _ _ _ _ => rfl⟩

theorem haltSem_keeps : Keeps Core.haltSem := ⟨fun _ _ => rfl, fun _ _ => rfl, fun _ _ _ _ => rfl⟩

theorem same_keeps : Keeps fun core _ => core :=
    ⟨fun _ _ => rfl, fun _ _ => rfl, fun _ _ _ _ => rfl⟩

theorem expire_keeps : Keeps Core.expire where
  live _ _ := rfl
  allocated _ _ := rfl
  info core point o ne := by
    simp [Core.expire, Core.addTo, Core.setSemaphore, ne]

theorem giveto_eq (core : Core) (who : Option Dbref) (amount : Int) :
    core.giveto rules who amount =
      { core with pennies := (core.giveto rules who amount).pennies } := by
  unfold Core.giveto
  split <;> rfl

theorem sQueue_eq (core : Core) (player : Dbref) (val : Int) :
    core.sQueue rules player val =
      { core with queue := (core.sQueue rules player val).queue } := by
  unfold Core.sQueue
  split <;> rfl

theorem drain_keeps : Keeps (Core.drain rules) := by
  constructor <;> intros <;> simp only [Core.drain, Core.aQueue, Core.note] <;>
    rw [sQueue_eq, giveto_eq]

theorem mark_keeps (rules : Rules) (player object : Option Dbref) (entries : List Addr)
    (acc : Nat × Core) :
    (entries.foldl (Core.mark rules player object) acc).2.live = acc.2.live ∧
      (entries.foldl (Core.mark rules player object) acc).2.allocated = acc.2.allocated := by
  induction entries generalizing acc with
  | nil => exact ⟨rfl, rfl⟩
  | cons entry rest ih =>
    have one : (Core.mark rules player object acc entry).2.live = acc.2.live ∧
        (Core.mark rules player object acc entry).2.allocated = acc.2.allocated := by
      simp only [Core.mark]
      split
      · dsimp only
        split <;> exact ⟨rfl, rfl⟩
      · exact ⟨rfl, rfl⟩
    obtain ⟨live, allocated⟩ := ih (Core.mark rules player object acc entry)
    exact ⟨live.trans one.1, allocated.trans one.2⟩

theorem haltSettle_eq (core : Core) (player object : Option Dbref) (num : Nat) :
    core.haltSettle rules player object num =
      { core with
        pennies := (core.haltSettle rules player object num).pennies
        queue := (core.haltSettle rules player object num).queue } := by
  simp only [Core.haltSettle, Core.aQueue]
  split <;> rw [sQueue_eq, giveto_eq]

theorem Represents.mark (rules : Rules) (rep : Represents s b held) (player object : Option Dbref) :
    ∃ s', s.mark rules player object = some ((b.mark rules player object).1, s') ∧
      Represents s' (b.mark rules player object).2 held := by
  have players := walk_eq (Core.mark rules player object) rep.player.chain
    (rep.limit Represents.player_sublist) (0, b.toCore)
  have objects := walk_eq (Core.mark rules player object) rep.object.chain
    (rep.limit Represents.object_sublist)
    (b.player.foldl (Core.mark rules player object) (0, b.toCore))
  have keeps := mark_keeps rules player object (b.player ++ b.object) (0, b.toCore)
  rw [rep.core] at players objects
  refine ⟨_, ?_, rep.setCore keeps.1 keeps.2⟩
  simp only [Server.mark, rep.core, players, objects, bind_eq_bind, bind_some,
    Board.mark, foldl_append]

theorem haltQue_simulates (rules : Rules) (rep : Represents s b held)
    (player object : Option Dbref) :
    ∃ s', s.haltQue rules player object = some ((b.haltQue rules player object).1, s') ∧
      Represents s' (b.haltQue rules player object).2 held := by
  obtain ⟨s₁, marked, rep₁⟩ := Represents.mark rules rep player object
  obtain ⟨s₂, swept, rep₂⟩ := rep₁.sweep haltWait_keeps.dropAfter .wait
    (rules.queWant player object) (fun _ => false) (b.mark rules player object).1
  obtain ⟨s₃, sweptSem, rep₃⟩ := rep₂.sweep haltSem_keeps.dropAfter .sem
    (rules.queWant player object) (fun _ => false)
    ((b.mark rules player object).2.sweep .wait (rules.queWant player object)
      (Ready.dropAfter Core.haltWait) (fun _ => false) (b.mark rules player object).1).1
  refine ⟨{ s₃ with toCore := (b.haltQue rules player object).2.toCore }, ?_,
    rep₃.setCore ?_ ?_⟩
  · simp only [Server.haltQue, marked, swept, sweptSem, bind_eq_bind, bind_some,
      rep₃.core, Board.haltQue]
  · simp only [Board.haltQue]
    rw [haltSettle_eq]
  · simp only [Board.haltQue]
    rw [haltSettle_eq]

theorem nfySettle_eq (core : Core) (sem : Dbref) (attr : Nat) (key : NotifyKey) (count : Int) :
    core.nfySettle sem attr key count =
      { core with semaphore := (core.nfySettle sem attr key count).semaphore } := by
  unfold Core.nfySettle
  split <;> rfl

theorem nfyQue_simulates (rules : Rules) (rep : Represents s b held) (sem : Dbref) (attr : Nat)
    (key : NotifyKey) (count : Int) :
    ∃ s', s.nfyQue rules sem attr key count =
        some ((b.nfyQue rules sem attr key count).1, s') ∧
      Represents s' (b.nfyQue rules sem attr key count).2 held := by
  have acts : Acts
      (if key = .drain then Server.dropAfter (Core.drain rules)
        else Server.giveAfter rules fun c _ => c)
      (if key = .drain then Ready.dropAfter (Core.drain rules)
        else Ready.giveAfter rules fun c _ => c) := by
    split
    · exact drain_keeps.dropAfter
    · exact same_keeps.giveAfter rules
  obtain ⟨s₁, swept, rep₁⟩ := rep.sweep acts .sem
    (fun entry => entry.sem = some sem ∧ (entry.attr = attr ∨ attr = 0))
    (fun num => key = .nfy ∧ count ≤ num) 0
  have settled : ∀ {s : Server} {b : Board}, Represents s b held →
      Represents { s with toCore := b.toCore.nfySettle sem attr key count }
        { b with toCore := b.toCore.nfySettle sem attr key count } held := by
    intro s b rep
    refine rep.setCore ?_ ?_ <;> rw [nfySettle_eq]
  simp only [Server.nfyQue, Board.nfyQue, rep.core]
  by_cases waiting : 0 < (if attr ≠ 0 then b.semaphore (some sem) attr else 1)
  · rw [rep.core] at swept
    simp only [waiting, if_true, swept, bind_eq_bind, bind_some, rep₁.core]
    exact ⟨_, rfl, settled rep₁⟩
  · simp only [waiting, if_false, bind_eq_bind, bind_some, rep.core]
    exact ⟨_, rfl, settled rep⟩

theorem payfor_keeps {core paid : Core} {who : Dbref} {cost : Int}
    (pays : core.payfor rules who cost = some paid) :
    paid = { core with pennies := paid.pennies } := by
  unfold Core.payfor at pays
  split at pays
  · cases pays
    rfl
  · dsimp only at pays
    split at pays <;> cases pays
    rfl

theorem Represents.alloc (rep : Represents s b []) (entry : Block) :
    Represents
      { s with toCore := b.toCore.alloc entry, next := update s.next b.allocated none }
      { b with toCore := b.toCore.alloc entry } [b.allocated] := by
  have keep : ∀ {entries : List Addr}, entries.Sublist (b.all ++ []) → ∀ entry ∈ entries,
      update s.next b.allocated none entry = s.next entry := by
    intro entries hin entry mem
    refine update_of_ne ?_ _ _
    rintro rfl
    exact rep.tidy.fresh (by simpa using hin.subset mem)
  exact
    { core := rfl
      player := rep.player.congr (keep Represents.player_sublist)
      object := rep.object.congr (keep Represents.object_sublist)
      wait := rep.wait.congr (keep Represents.wait_sublist)
      sem := rep.sem.congr (keep Represents.sem_sublist)
      tidy := rep.tidy.born (perm_append_singleton b.allocated b.all) rfl rfl }

theorem setupQue_simulates (rules : Rules) (rep : Represents s b []) (player cause : Dbref)
    (comm : String)
    (draw : Nat) :
    ∃ s', s.setupQue rules player cause comm draw =
        some ((b.setupQue rules player cause comm draw).1, s') ∧
      Represents s' (b.setupQue rules player cause comm draw).2
        (b.setupQue rules player cause comm draw).1.toList := by
  unfold Server.setupQue Board.setupQue
  rw [rep.core]
  cases halted : b.halted player with
  | true => exact ⟨s, rfl, rep⟩
  | false =>
    rw [if_neg Bool.false_ne_true, if_neg Bool.false_ne_true]
    dsimp only
    cases pays : b.payfor rules player _ with
    | none => exact ⟨s, rfl, rep⟩
    | some core =>
      dsimp only
      have counted : Represents
          { s with toCore := core.aQueue rules (rules.owner player) 1 }
          { b with toCore := core.aQueue rules (rules.owner player) 1 } [] := by
        refine rep.setCore ?_ ?_ <;> rw [Core.aQueue, sQueue_eq, payfor_keeps pays]
      split
      · obtain ⟨s₁, halts, rep₁⟩ :=
          haltQue_simulates rules counted (some (rules.owner player)) none
        refine ⟨{ s₁ with halted := update s₁.halted player true }, ?_, ?_⟩
        · rw [halts]
          rfl
        · rw [rep₁.core]
          exact rep₁.setCore rfl rfl
      · exact ⟨_, rfl, counted.alloc (Board.entryOf player cause comm)⟩

theorem Represents.place (rep : Represents s b [tmp]) {pre post : List Addr}
    (split : b.wait = pre ++ post) :
    Represents
      { s with
        next := (LinkedMemory.place s.next s.qwait pre.getLast? post.head? tmp).1
        qwait := (LinkedMemory.place s.next s.qwait pre.getLast? post.head? tmp).2 }
      { b with wait := pre ++ tmp :: post } [] := by
  have tidy := rep.tidy
  have inWait : ∀ entry ∈ pre, entry ∈ b.wait := fun entry mem => by simp [split, mem]
  have keep : ∀ {entries : List Addr}, tmp ∉ entries → (∀ entry ∈ pre, entry ∉ entries) →
      ∀ entry ∈ entries,
        (LinkedMemory.place s.next s.qwait pre.getLast? post.head? tmp).1 entry =
          s.next entry := by
    intro entries fresh apart entry mem
    refine LinkedMemory.place_of_notMem (fun inFront => apart entry inFront mem) ?_
    rintro rfl
    exact fresh mem
  refine
    { core := rep.core
      player := rep.player.congr (keep (tidy.not_player (by simp)) fun entry mem =>
        tidy.not_player (Or.inr (Or.inl (inWait entry mem))))
      object := rep.object.congr (keep (tidy.not_object (by simp)) fun entry mem =>
        tidy.not_object (Or.inl (inWait entry mem)))
      wait := ?_
      sem := rep.sem.congr (keep (tidy.not_sem (by simp)) fun entry mem inSem =>
        tidy.not_wait (Or.inl inSem) (inWait entry mem))
      tidy := tidy.of_perm ?_ rfl rfl }
  · have chain := rep.wait
    rw [split] at chain
    refine chain.place ?_
    rw [← split]
    exact tidy.not_wait (by simp)
  · simp only [Board.all, split]
    grind

theorem Represents.appendSem (rep : Represents s b [tmp]) :
    Represents
      { s with
        next := (s.qsem.append (update s.next tmp none) tmp).1
        qsem := (s.qsem.append (update s.next tmp none) tmp).2 }
      { b with sem := b.sem ++ [tmp] } [] := by
  have tidy := rep.tidy
  have cleared := rep.clearLink (mem_singleton_self tmp)
  have ended : update s.next tmp none tmp = none := update_self ..
  refine
    { core := rep.core
      player := cleared.player.congr fun entry mem =>
        Fifo.append_of_notMem cleared.sem fun inSem =>
          tidy.not_player (Or.inr (Or.inr (Or.inl inSem))) mem
      object := cleared.object.congr fun entry mem =>
        Fifo.append_of_notMem cleared.sem fun inSem =>
          tidy.not_object (Or.inr (Or.inl inSem)) mem
      wait := cleared.wait.congr fun entry mem =>
        Fifo.append_of_notMem cleared.sem fun inSem =>
          tidy.not_wait (Or.inl inSem) mem
      sem := cleared.sem.append (tidy.not_sem (by simp)) ended
      tidy := tidy.of_perm ?_ rfl rfl }
  simp only [Board.all]
  grind

theorem enqueue_simulates (rules : Rules) (rep : Represents s b [tmp]) (now wait : Int)
    (sem : Option Dbref)
    (attr : Nat) :
    ∃ s', s.enqueue rules tmp now wait sem attr = some s' ∧
      Represents s' (b.enqueue rules tmp now wait sem attr) [] := by
  unfold Server.enqueue Board.enqueue
  simp only [rep.core]
  -- The block is filled in while it is held.
  have filled : Represents { s with toCore := b.toCore.fill tmp now wait sem attr }
      { b with toCore := b.toCore.fill tmp now wait sem attr } [tmp] := rep.setCore rfl rfl
  cases sem with
  | some sem => exact ⟨_, rfl, filled.appendSem⟩
  | none =>
    dsimp only
    split
    · exact ⟨_, rfl, filled.giveQue⟩
    · have room := rep.limit Represents.wait_sublist
      rw [rep.core] at room
      rw [show (b.toCore.fill tmp now wait none attr).allocated = b.allocated from rfl,
        seek_eq rep.wait room, or_none]
      refine ⟨_, rfl, filled.place ?_⟩
      exact (takeWhile_append_dropWhile ..).symm

theorem waitQue_simulates (rules : Rules) (rep : Represents s b []) (player cause : Dbref)
    (now wait : Int)
    (sem : Option Dbref) (attr : Nat) (comm : String) (draw : Nat) :
    ∃ s', s.waitQue rules player cause now wait sem attr comm draw = some s' ∧
      Represents s' (b.waitQue rules player cause now wait sem attr comm draw) [] := by
  unfold Server.waitQue Board.waitQue
  rw [rep.core]
  cases interp : b.interp with
  | false => exact ⟨s, rfl, rep⟩
  | true =>
    simp only [Bool.not_true, Bool.false_eq_true, if_false]
    obtain ⟨s₁, sets, rep₁⟩ :=
      setupQue_simulates rules rep player cause comm draw
    simp only [sets, bind_eq_bind, bind_some]
    cases made : b.setupQue rules player cause comm draw with
    | mk point b₁ =>
      rw [made] at rep₁
      cases point with
      | none => exact ⟨s₁, rfl, rep₁⟩
      | some tmp => exact enqueue_simulates rules rep₁ now wait sem attr

theorem doWait_simulates (rules : Rules) (rep : Represents s b []) (player cause : Dbref)
    (now howlong : Int)
    (thing : Dbref) (attr : Nat) (comm : String) (draw : Nat) :
    ∃ s', s.doWait rules player cause now howlong thing attr comm draw = some s' ∧
      Represents s' (b.doWait rules player cause now howlong thing attr comm draw) [] := by
  have counted : Represents { s with toCore := b.toCore.addTo (some thing) 1 attr }
      { b with toCore := b.toCore.addTo (some thing) 1 attr } [] := rep.setCore rfl rfl
  simp only [Server.doWait, Board.doWait, rep.core]
  split
  · exact waitQue_simulates rules counted ..
  · exact waitQue_simulates rules counted ..

theorem doNotify_simulates (rules : Rules) (rep : Represents s b []) (thing : Dbref) (attr : Nat)
    (key : NotifyKey) (loccount : Int) :
    ∃ s', s.doNotify rules thing attr key loccount = some s' ∧
      Represents s' (b.doNotify rules thing attr key loccount) [] := by
  unfold Server.doNotify Board.doNotify
  split
  · obtain ⟨s₁, notified, rep₁⟩ := nfyQue_simulates rules rep thing attr key loccount
    exact ⟨s₁, by rw [notified]; rfl, rep₁⟩
  · exact ⟨s, rfl, rep⟩

theorem destroyObj_simulates (rules : Rules) (rep : Represents s b []) (obj : Dbref) :
    ∃ s', s.destroyObj rules obj = some s' ∧ Represents s' (b.destroyObj rules obj) [] := by
  obtain ⟨s₁, halts, rep₁⟩ := haltQue_simulates rules rep none (some obj)
  obtain ⟨s₂, drains, rep₂⟩ := nfyQue_simulates rules rep₁ obj 0 .drain 0
  refine ⟨{ s₂ with semaphore := update s₂.semaphore (some obj) fun _ => 0 }, ?_, ?_⟩
  · simp only [Server.destroyObj, halts, drains, bind_eq_bind, bind_some]
  · rw [rep₂.core]
    exact rep₂.setCore rfl rfl

theorem puts_eq (entries : List Addr) (core : Core) :
    entries.foldl (fun c point => c.note (.put point)) core =
      { core with log := core.log ++ entries.map .put } := by
  induction entries generalizing core with
  | nil => simp
  | cons entry rest ih =>
    rw [foldl_cons, ih]
    simp [Core.note]

theorem spliceObject_simulates (rep : Represents s b []) :
    ∃ s', s.spliceObject = some s' ∧ Represents s' b.spliceObject [] := by
  have tidy := rep.tidy
  have puts := walk_eq (fun (c : Core) point => c.note (.put point)) rep.object.chain
    (rep.limit Represents.object_sublist) b.toCore
  have apart : ∀ entry, entry ∈ b.object ∨ entry ∈ b.wait ∨ entry ∈ b.sem → entry ∉ b.player :=
    fun entry mem => tidy.not_player (by grind)
  rw [rep.core] at puts
  refine ⟨_, by simp only [Server.spliceObject, rep.core, puts, bind_eq_bind,
    bind_some]; rfl, ?_⟩
  refine
    { core := rfl
      player := rep.player.splice rep.object fun entry mem => apart entry (Or.inl mem)
      object := Fifo.empty_holds _
      wait := rep.wait.congr fun entry mem =>
        Fifo.splice_of_notMem rep.player (apart entry (Or.inr (Or.inl mem)))
      sem := rep.sem.congr fun entry mem =>
        Fifo.splice_of_notMem rep.player (apart entry (Or.inr (Or.inr mem)))
      tidy := tidy.of_perm ?_ ?_ ?_ }
  · simp [Board.all, Board.spliceObject]
  · simp only [Board.spliceObject, puts_eq]
  · simp only [Board.spliceObject, puts_eq]

theorem Represents.next_giveQue (rep : Represents s b (tmp :: held)) :
    (s.giveQue rules tmp).next tmp = none := by
  have cleared := rep.clearLink mem_cons_self
  have ended : update s.next tmp none tmp = none := update_self ..
  unfold Server.giveQue
  dsimp only
  split
  · exact (Fifo.append_of_notMem cleared.player (rep.tidy.not_player (by simp))).trans ended
  · exact (Fifo.append_of_notMem cleared.object (rep.tidy.not_object (by simp))).trans ended

theorem waitLoop_simulates (rules : Rules) (rep : Represents s b []) (now : Int) :
    ∃ s', s.waitLoop rules now (s.allocated + 1) s.qwait = some s' ∧
      Represents s' (b.waitLoop rules now) [] := by
  have room := rep.limit Represents.wait_sublist
  cases entries : b.wait with
  | nil =>
    have empty : s.qwait = none := by simpa [entries] using rep.wait
    exact ⟨s, by rw [empty]; rfl, by simpa only [Board.waitLoop, entries] using rep⟩
  | cons point rest =>
    have chain := rep.wait
    rw [entries] at chain room
    obtain ⟨limit, more⟩ := Nat.exists_eq_add_of_lt room
    have twice : s.allocated + 1 = (rest.length + limit) + 2 := by
      rw [more, length_cons]
      omega
    rw [twice]
    simp only [chain.1, Server.waitLoop, Board.waitLoop, entries, rep.core]
    split
    · have off : Represents { s with toCore := b.toCore, qwait := s.next point }
          { b with wait := rest } [point] :=
        { rep with
          core := rfl
          wait := chain.2
          tidy := rep.tidy.of_perm (by simp only [Board.all, entries]; grind) rfl rfl }
      rw [off.next_giveQue]
      exact ⟨_, rfl, off.giveQue⟩
    · exact ⟨s, rfl, rep⟩

theorem doSecond_simulates (rules : Rules) (rep : Represents s b []) (now : Int) :
    ∃ s', s.doSecond rules now = some s' ∧ Represents s' (b.doSecond rules now) [] := by
  unfold Server.doSecond Board.doSecond
  rw [rep.core]
  cases dequeue : b.dequeue with
  | false => exact ⟨s, rfl, rep⟩
  | true =>
    obtain ⟨s₁, spliced, rep₁⟩ := spliceObject_simulates rep
    obtain ⟨s₂, waited, rep₂⟩ := waitLoop_simulates rules rep₁ now
    obtain ⟨s₃, expired, rep₃⟩ := rep₂.sweep (expire_keeps.giveAfter rules) .sem
      (fun entry => entry.waittime ≠ 0 ∧ entry.waittime ≤ now) (fun _ => false) 0
    refine ⟨s₃, ?_, rep₃⟩
    simp only [Bool.not_true, Bool.false_eq_true, if_false, spliced, waited, expired,
      bind_eq_bind, bind_some]

theorem Board.topPop_eq {rest : List Addr} (players : b.player = tmp :: rest) (frame : Frame)
    (outer : List Frame) :
    b.topPop frame outer =
      some
        { b with
          player := rest
          toCore :=
            { b.toCore.release tmp with
              frames := { frame with left := frame.left - 1, running := false } :: outer } } := by
  simp only [Board.topPop, players]

theorem topPop_simulates (rep : Represents s b []) (frame : Frame) (outer : List Frame) :
    Simulates (s.topPop frame outer) (b.topPop frame outer) := by
  unfold Server.topPop Board.topPop
  rw [rep.player.chain.head_eq]
  cases entries : b.player with
  | nil => trivial
  | cons tmp rest =>
    have h := rep.player
    rw [entries] at h
    have alive : b.live tmp = true := (rep.tidy.live tmp).mpr (by simp [Board.all, entries])
    have freed : b.toCore.free tmp = some (b.toCore.release tmp) := by
      rw [Core.free, alive, if_pos rfl]
    have off : Board.Tidy { b with player := rest } [tmp] :=
      rep.tidy.of_perm (by simp only [Board.all, entries]; grind) rfl rfl
    simp only [head?_cons, rep.core, freed, bind_eq_bind, bind_some]
    exact
      { rep with
        core := rfl
        player := h.pop
        tidy := off.release rfl rfl rfl }

theorem topReturn_represents (rep : Represents s b []) (frame : Frame) (outer : List Frame) :
    Represents (s.topReturn frame outer) (b.topReturn frame outer) [] := by
  simp only [Server.topReturn, Board.topReturn, rep.core]
  exact rep.setCore rfl rfl

theorem topNext_simulates (rules : Rules) (rep : Represents s b []) (frame : Frame)
    (outer : List Frame) :
    Simulates (s.topNext rules frame outer) (b.topNext rules frame outer) := by
  have returns := topReturn_represents rep frame outer
  have pops : ∀ {core : Core}, core.live = b.live → core.allocated = b.allocated →
      Simulates (Server.topPop { s with toCore := core } frame outer)
        (Board.topPop { b with toCore := core } frame outer) := fun live allocated =>
    topPop_simulates (rep.setCore live allocated) frame outer
  have takes : ∀ head player, (b.toCore.take rules head player).live = b.live ∧
      (b.toCore.take rules head player).allocated = b.allocated := by
    intro head player
    simp only [Core.take, Core.aQueue]
    rw [sQueue_eq, giveto_eq]
    exact ⟨rfl, rfl⟩
  unfold Server.topNext Board.topNext
  rw [rep.player.chain.head_eq]
  cases entries : b.player with
  | nil => exact returns
  | cons head rest =>
    dsimp only [head?_cons]
    by_cases ended : frame.left = 0
    · rw [if_pos ended, if_pos ended]
      exact returns
    · rw [if_neg ended, if_neg ended, rep.core]
      cases (b.info head).player with
      | none => exact topPop_simulates rep frame outer
      | some player =>
        obtain ⟨live, allocated⟩ := takes head player
        dsimp only
        rw [← entries]
        split
        · refine pops ?_ ?_ <;> rfl
        · split
          · refine pops ?_ ?_
            · exact live
            · exact allocated
          · refine rep.setCore ?_ ?_
            · exact live
            · exact allocated

theorem times_eq (time : Core → Addr → Int) (entries : List Addr) (core : Core) :
    ∃ info, entries.foldl (fun c point => c.setWaittime point (time c point)) core =
      { core with info := info } := by
  induction entries generalizing core with
  | nil => exact ⟨core.info, rfl⟩
  | cons entry rest ih =>
    obtain ⟨info, eq⟩ := ih (core.setWaittime entry (time core entry))
    exact ⟨info, eq⟩

theorem Board.warpTimes_eq (b : Board) (i : Int) :
    (b.warpTimes i).toCore =
      { b.toCore with info := (b.warpTimes i).info, dequeue := true } := by
  obtain ⟨waits, fst⟩ :=
    times_eq (fun _ _ => int32 (-i)) b.wait { b.toCore with dequeue := true }
  obtain ⟨sems, snd⟩ :=
    times_eq (fun c point => Core.warped i (c.info point).waittime) b.sem
      { b.toCore with dequeue := true, info := waits }
  simp only [Board.warpTimes, fst, snd]

theorem warpTimes_simulates (rep : Represents s b []) (i : Int) :
    ∃ s', s.warpTimes i = some s' ∧ Represents s' (b.warpTimes i) [] := by
  have waits := walk_eq (fun (c : Core) point => c.setWaittime point (int32 (-i))) rep.wait
    (rep.limit Represents.wait_sublist) { b.toCore with dequeue := true }
  have sems := walk_eq
    (fun (c : Core) point => c.setWaittime point (Core.warped i (c.info point).waittime))
    rep.sem.chain (rep.limit Represents.sem_sublist)
    (b.wait.foldl (fun c point => c.setWaittime point (int32 (-i)))
      { b.toCore with dequeue := true })
  rw [rep.core] at waits sems
  refine ⟨{ s with toCore := (b.warpTimes i).toCore }, ?_, rep.setCore ?_ ?_⟩
  · simp only [Server.warpTimes, rep.core, waits, sems, bind_eq_bind, bind_some,
      Board.warpTimes]
  · rw [Board.warpTimes_eq]
  · rw [Board.warpTimes_eq]

theorem queueWarp_simulates (rules : Rules) (rep : Represents s b []) (i now : Int) :
    ∃ s', s.queueWarp rules i now = some s' ∧ Represents s' (b.queueWarp rules i now) [] := by
  obtain ⟨s₁, warped, rep₁⟩ := warpTimes_simulates rep i
  obtain ⟨s₂, ran, rep₂⟩ := doSecond_simulates rules rep₁ now
  refine ⟨{ s₂ with dequeue := if !b.dequeue then false else s₂.dequeue }, ?_, ?_⟩
  · simp only [Server.queueWarp, warped, ran, rep.core, bind_eq_bind, bind_some]
  · rw [rep₂.core]
    exact rep₂.setCore rfl rfl

theorem call_simulates (rules : Rules) (rep : Represents s b []) (op : Op) :
    ∃ s', s.call rules op = some s' ∧ Represents s' (b.call rules op) [] := by
  have flags : ∀ {core : Core}, core.live = b.live → core.allocated = b.allocated →
      Represents { s with toCore := core } { b with toCore := core } [] :=
    fun live allocated => rep.setCore live allocated
  cases op with
  | wait => exact waitQue_simulates rules rep ..
  | semWait =>
    simp only [Server.call, Board.call]
    split
    · exact ⟨s, rfl, rep⟩
    · exact doWait_simulates rules rep ..
  | notify =>
    simp only [Server.call, Board.call]
    split
    · exact ⟨s, rfl, rep⟩
    · exact doNotify_simulates rules rep ..
  | halt player object =>
    obtain ⟨s₁, halts, rep₁⟩ := haltQue_simulates rules rep player object
    exact ⟨s₁, by simp only [Server.call, halts, map_some], rep₁⟩
  | destroy obj => exact destroyObj_simulates rules rep obj
  | second now => exact doSecond_simulates rules rep now
  | warp i now => exact queueWarp_simulates rules rep i now
  | top ncmds =>
    refine ⟨_, rfl, ?_⟩
    simp only [Board.call, Server.doTop, Board.doTop, rep.core]
    split
    · exact flags rfl rfl
    · exact rep
  | kick i =>
    refine ⟨_, rfl, ?_⟩
    simp only [Board.call, Server.queueKick, Board.queueKick, Server.doTop, Board.doTop, rep.core]
    exact flags rfl rfl
  | next => exact ⟨s, rfl, rep⟩
  | done => exact ⟨s, rfl, rep⟩
  | setHalted obj flag =>
    refine ⟨_, rfl, ?_⟩
    simp only [Board.call, rep.core]
    exact flags rfl rfl
  | setGoing obj flag =>
    refine ⟨_, rfl, ?_⟩
    simp only [Board.call, rep.core]
    exact flags rfl rfl
  | setControl interp dequeue =>
    refine ⟨_, rfl, ?_⟩
    simp only [Board.call, rep.core]
    exact flags rfl rfl

theorem step_simulates (rules : Rules) (rep : Represents s b []) (op : Op) :
    Simulates (s.step rules op) (b.step rules op) := by
  obtain ⟨s', called, rep'⟩ := call_simulates rules rep op
  unfold Server.step Board.step
  rw [rep.core]
  cases b.frames with
  | nil => simpa only [called, Simulates] using rep'
  | cons frame outer =>
    dsimp only
    split
    · split
      · exact topPop_simulates rep frame outer
      · simpa only [called, Simulates] using rep'
    · split
      · exact topNext_simulates rules rep frame outer
      · exact rep

theorem init_represents (pennies : Dbref → Int) :
    Represents (Server.init pennies) (Board.init pennies) [] where
  core := rfl
  player := Fifo.empty_holds _
  object := Fifo.empty_holds _
  wait := rfl
  sem := Fifo.empty_holds _
  tidy := ⟨by simp [Board.all, Board.init], by simp [Board.all, Board.init, Server.init],
    by simp [Board.init, Server.init]⟩

theorem Represents.board_eq (rep : Represents s b held) : s.board = b := by
  have players := LinkedMemory.visited_eq rep.player.chain (rep.limit Represents.player_sublist)
  have objects := LinkedMemory.visited_eq rep.object.chain (rep.limit Represents.object_sublist)
  have waits := LinkedMemory.visited_eq rep.wait (rep.limit Represents.wait_sublist)
  have sems := LinkedMemory.visited_eq rep.sem.chain (rep.limit Represents.sem_sublist)
  rw [Server.board, players, objects, waits, sems, rep.core]

theorem board_of_guarded_run {guard : Board → Op → Prop} {inv : Board → Prop}
    {pennies : Dbref → Int} {ops : List Op} (start : inv (Board.init pennies))
    (preserved : ∀ b op b', b.Tidy [] → inv b → guard b op → b.step rules op = some b' →
      inv b')
    (guarded : Machine.Guarded (Server.step rules) (fun s op => guard s.board op)
      (Server.init pennies) ops)
    (ran : Machine.run (Server.step rules) (Server.init pennies) ops = some s) :
    Represents s s.board [] ∧ inv s.board := by
  have kept : ∀ (s : Server) (op : Op) (s' : Server),
      Represents s s.board [] ∧ inv s.board → guard s.board op →
        s.step rules op = some s' → Represents s' s'.board [] ∧ inv s'.board := by
    rintro s op s' ⟨rep, h⟩ allowed stepped
    have both := step_simulates rules rep op
    rw [stepped] at both
    cases moved : s.board.step rules op with
    | none => simp [moved, Simulates] at both
    | some b' =>
      have rep' : Represents s' b' [] := by
        rw [moved] at both
        exact both
      rw [rep'.board_eq]
      exact ⟨rep', preserved _ op b' rep.tidy h allowed moved⟩
  refine Machine.run_guarded kept ?_ guarded ran
  have rep := init_represents pennies
  rw [rep.board_eq]
  exact ⟨rep, start⟩

theorem board_of_run {inv : Board → Prop} {pennies : Dbref → Int} {ops : List Op}
    (start : inv (Board.init pennies))
    (preserved : ∀ b op b', b.Tidy [] → inv b → b.step rules op = some b' → inv b')
    (ran : Machine.run (Server.step rules) (Server.init pennies) ops = some s) :
    Represents s s.board [] ∧ inv s.board := by
  have free : ∀ (b : Board) (op : Op) (b' : Board), b.Tidy [] → inv b →
      (fun _ _ => True : Board → Op → Prop) b op → b.step rules op = some b' → inv b' :=
    fun b op b' tidy h _ stepped => preserved b op b' tidy h stepped
  exact board_of_guarded_run start free (Machine.guarded_of_forall (fun _ _ => trivial) _ _) ran

/-- In every run, what the loops over the linked queues visit are the lists of a board that
performs the same operations, and the server gets stuck where the board does. -/
theorem queues_refine (rules : Rules) (pennies : Dbref → Int) (ops : List Op) :
    (Machine.run (Server.step rules) (Server.init pennies) ops).map Server.board =
      Machine.run (Board.step rules) (Board.init pennies) ops := by
  suffices general : ∀ (s : Server) (b : Board), Represents s b [] →
      (Machine.run (Server.step rules) s ops).map Server.board =
        Machine.run (Board.step rules) b ops from
    general _ _ (init_represents pennies)
  induction ops with
  | nil => exact fun s b rep => congrArg some rep.board_eq
  | cons op rest ih =>
    intro s b rep
    have both := step_simulates rules rep op
    rw [Machine.run_cons, Machine.run_cons]
    cases stepped : s.step rules op with
    | none =>
      cases moved : b.step rules op with
      | none => rfl
      | some b' => simp [stepped, moved, Simulates] at both
    | some s' =>
      cases moved : b.step rules op with
      | none => simp [stepped, moved, Simulates] at both
      | some b' =>
        rw [stepped, moved] at both
        exact ih s' b' both

end BattletechMux.Queue
