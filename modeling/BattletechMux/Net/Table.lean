/-
Module: BattletechMux.Net.Table
Purpose: In every state of the server the three records of a connection agree: the list of
  descriptors is linked both ways and holds the open ones, a player's chain holds his connected
  descriptors, and he is flagged when there are any.
-/
import BattletechMux.Net.Output

namespace BattletechMux.Net

open Function (update)
open LinkedMemory (BidirList Chain walk_eq seek_eq length_le_of_lt erase_of_eq_append)

/-! ## Threads -/

/-- The list holds the open descriptors.  A link leads to a descriptor that is older, also
from one that was freed. -/
structure Listed (t : DescTable) (cells : List Nat) : Prop where
  holds : t.descriptorList.Holds cells
  open_iff : ∀ d, d ∈ cells ↔ t.opened d = true
  below : ∀ d ∈ cells, d < t.allocated
  falling : ∀ d following, t.descriptorList.next d = some following → following < d

structure Chained (t : DescTable) (live : Nat → Prop) (chains : Dbref → List Nat) : Prop where
  chain : ∀ player, Chain t.hashnext (t.descHtab player) (chains player)
  member : ∀ player d, d ∈ chains player ↔ live d ∧ t.player d = player

structure Hashed (t : DescTable) (live : Nat → Prop) (chains : Dbref → List Nat) : Prop
    extends Chained t live chains where
  flagged : ∀ player, t.flagged player = true ↔ chains player ≠ []

def DescTable.Live (t : DescTable) (d : Nat) : Prop := t.opened d = true ∧ t.connected d = true

structure Threaded (t : DescTable) (cells : List Nat) (chains : Dbref → List Nat) : Prop where
  listed : Listed t cells
  hashed : Hashed t t.Live chains

theorem start_threaded : Threaded DescTable.start [] fun _ => [] where
  listed := ⟨⟨rfl, trivial⟩, by simp [DescTable.start], by simp, by simp [DescTable.start]⟩
  hashed := ⟨⟨fun _ => rfl, by simp [DescTable.start, DescTable.Live]⟩, by simp [DescTable.start]⟩

variable {t : DescTable} {cells : List Nat} {chains : Dbref → List Nat} {live : Nat → Prop}
  {d : Nat} {player : Dbref}

theorem Listed.open_below (listed : Listed t cells) (isOpen : t.opened d = true) :
    d < t.allocated :=
  listed.below d ((listed.open_iff d).mpr isOpen)

theorem Threaded.live_below (ht : Threaded t cells chains) (isLive : t.Live d) :
    d < t.allocated :=
  ht.listed.open_below isLive.1

theorem Chained.short (chained : Chained t live chains) (below : ∀ d, live d → d < t.allocated)
    (player : Dbref) : (chains player).length ≤ t.allocated :=
  length_le_of_lt (chained.chain player).nodup fun d member =>
    below d ((chained.member player d).mp member).1

theorem foldl_count (cells : List Nat) (num : Nat) :
    cells.foldl (fun num _ => num + 1) num = num + cells.length := by
  induction cells generalizing num with
  | nil => rfl
  | cons d rest ih =>
    rw [List.foldl_cons, ih, List.length_cons]
    omega

theorem Chained.iterPlayer (chained : Chained t live chains)
    (below : ∀ d, live d → d < t.allocated) {State : Type} (body : State → Nat → State)
    (state : State) :
    t.iterPlayer player body state = some ((chains player).foldl body state) :=
  walk_eq body (chained.chain player) (Nat.lt_succ_of_le (chained.short below player)) state

theorem Chained.count (chained : Chained t live chains) (below : ∀ d, live d → d < t.allocated) :
    t.iterPlayer player (fun num _ => num + 1) 0 = some (chains player).length := by
  rw [chained.iterPlayer below, foldl_count, Nat.zero_add]

/-! ## Connecting -/

theorem desc_addhash_eq (t : DescTable) (d : Nat) :
    t.descAddhash d = { t with
      hashnext := update t.hashnext d (t.descHtab (t.player d))
      descHtab := update t.descHtab (t.player d) (some d) } := by
  unfold DescTable.descAddhash
  cases e : t.descHtab (t.player d) with
  | none => simp [nhashadd, e]
  | some hdesc => simp [nhashrepl, e]

theorem Hashed.announceConnect (hashed : Hashed t live chains) (notLive : ¬ live d)
    (owner : t.player d = player) :
    Hashed (t.announceConnect player d) (fun o => live o ∨ o = d)
      (update chains player (d :: chains player)) := by
  have fresh : ∀ player, d ∉ chains player := fun player member =>
    notLive ((hashed.member player d).mp member).1
  subst owner
  rw [DescTable.announceConnect, desc_addhash_eq]
  refine ⟨⟨fun o => ?_, fun o e => ?_⟩, fun o => ?_⟩
  · by_cases eq : o = t.player d
    · subst eq
      simpa using (hashed.chain (t.player d)).push (fresh _)
    · simpa [eq] using (hashed.chain o).update_of_notMem (fresh o)
  · by_cases eq : o = t.player d
    · subst eq
      simp only [Function.update_self, List.mem_cons, hashed.member]
      constructor
      · rintro (rfl | ⟨isLive, owned⟩)
        · exact ⟨.inr rfl, rfl⟩
        · exact ⟨.inl isLive, owned⟩
      · rintro ⟨isLive | rfl, owned⟩
        · exact .inr ⟨isLive, owned⟩
        · exact .inl rfl
    · simp only [Function.update_of_ne eq, hashed.member]
      constructor
      · rintro ⟨isLive, owned⟩
        exact ⟨.inl isLive, owned⟩
      · rintro ⟨isLive | rfl, owned⟩
        · exact ⟨isLive, owned⟩
        · exact absurd owned.symm eq
  · by_cases eq : o = t.player d
    · subst eq
      simp
    · simpa [eq] using hashed.flagged o

/-! ## Disconnecting -/

variable {before after : List Nat}

theorem seek_descriptor {next : Nat → Option Nat} {start : Option Nat}
    {limit : Nat} (chain : Chain next start (before ++ d :: after))
    (hlt : (before ++ d :: after).length < limit) :
    LinkedMemory.seek next (fun hdesc => hdesc != d) limit none start =
      some (before.getLast?, some d) := by
  have apart : ∀ o ∈ before, (o != d) = true := by
    intro o member
    have nodup := (List.nodup_append.mp chain.nodup).2.2 o member d (by simp)
    simpa using nodup
  rw [seek_eq chain hlt, List.takeWhile_append_of_pos apart, List.dropWhile_append_of_pos apart]
  simp

theorem unhash_eq (chain : Chain t.hashnext (t.descHtab player) (before ++ d :: after)) :
    t.unhash player before.getLast? d = { t with
      hashnext :=
        (LinkedMemory.cut t.hashnext (t.descHtab player) before.getLast? d).1
      descHtab := update t.descHtab player
        (LinkedMemory.cut t.hashnext (t.descHtab player) before.getLast? d).2 } := by
  rcases List.eq_nil_or_concat before with rfl | ⟨front, last, rfl⟩
  · have e : t.descHtab player = some d := chain.1
    cases link : t.hashnext d with
    | none => simp [DescTable.unhash, LinkedMemory.cut, nhashdelete, link]
    | some hdesc => simp [DescTable.unhash, LinkedMemory.cut, nhashrepl, e, link]
  · simp [DescTable.unhash, LinkedMemory.cut]

theorem Chained.descDelhash (chained : Chained t live chains)
    (below : ∀ d, live d → d < t.allocated) (isLive : live d) :
    ∃ hashnext descHtab, t.descDelhash d =
        some { t with hashnext := hashnext, descHtab := descHtab } ∧
      ∀ player, Chain hashnext (descHtab player) ((chains player).erase d) := by
  have hin : d ∈ chains (t.player d) := (chained.member _ d).mpr ⟨isLive, rfl⟩
  obtain ⟨before, after, split⟩ := List.append_of_mem hin
  have chain := chained.chain (t.player d)
  have hlt := Nat.lt_succ_of_le (chained.short below (t.player d))
  have nodup := chain.nodup
  rw [split] at chain hlt
  let unlinked := LinkedMemory.cut t.hashnext (t.descHtab (t.player d)) before.getLast? d
  refine ⟨update unlinked.1 d none, update t.descHtab (t.player d) unlinked.2, ?_, ?_⟩
  · unfold DescTable.descDelhash
    simp only [seek_descriptor chain hlt, unhash_eq chain, Option.bind_eq_bind,
      Option.bind_some, Option.isSome_some, if_true]
    rfl
  · intro o
    by_cases eq : o = t.player d
    · subst eq
      have erased := erase_of_eq_append nodup split
      have gone : d ∉ before ++ after := by
        rw [← erased]
        exact nodup.not_mem_erase
      rw [erased, Function.update_self]
      exact chain.cut.update_of_notMem gone
    · have away : ∀ e ∈ chains o, e ∉ chains (t.player d) := by
        intro e inOther inHere
        have one := ((chained.member o e).mp inOther).2
        have two := ((chained.member _ e).mp inHere).2
        exact eq (one.symm.trans two)
      have absent : d ∉ chains o := fun member => away d member hin
      rw [List.erase_of_not_mem absent, Function.update_of_ne eq]
      refine Chain.update_of_notMem ((chained.chain o).congr fun e member => ?_) absent
      refine LinkedMemory.cut_of_notMem fun inBefore => away e member ?_
      rw [split]
      exact List.mem_append_left _ inBefore

theorem Hashed.announceDisconnect (hashed : Hashed t live chains)
    (below : ∀ d, live d → d < t.allocated) (isLive : live d) :
    ∃ hashnext descHtab flagged, t.announceDisconnect (t.player d) d =
        some { t with hashnext := hashnext, descHtab := descHtab, flagged := flagged } ∧
      Hashed { t with hashnext := hashnext, descHtab := descHtab, flagged := flagged }
        (fun o => live o ∧ o ≠ d) fun player => (chains player).erase d := by
  have hin : d ∈ chains (t.player d) := (hashed.member _ d).mpr ⟨isLive, rfl⟩
  have lengths := List.length_erase_of_mem hin
  have pos := List.length_pos_of_mem hin
  -- The flag is changed first; the chains do not depend on it.
  let flagged := if (chains (t.player d)).length < 2 then update t.flagged (t.player d) false
    else t.flagged
  have chained : Chained { t with flagged := flagged } live chains :=
    ⟨hashed.chain, hashed.member⟩
  obtain ⟨hashnext, descHtab, ran, links⟩ := chained.descDelhash below isLive
  refine ⟨hashnext, descHtab, flagged, ?_, ⟨links, ?_⟩, ?_⟩
  · unfold DescTable.announceDisconnect
    simp only [hashed.count below, Option.bind_eq_bind, Option.bind_some]
    rw [← ran]
    congr 1
    unfold flagged
    split <;> rfl
  · intro player e
    rw [(hashed.chain player).nodup.mem_erase_iff, hashed.member]
    constructor
    · rintro ⟨ne, isLive, owned⟩
      exact ⟨⟨isLive, ne⟩, owned⟩
    · rintro ⟨⟨isLive, ne⟩, owned⟩
      exact ⟨ne, isLive, owned⟩
  · intro player
    by_cases eq : player = t.player d
    · subst eq
      rw [← List.length_pos_iff, lengths]
      by_cases last : (chains (t.player d)).length < 2
      · simp [flagged, last]
        omega
      · have stays := (hashed.flagged (t.player d)).mpr (List.ne_nil_of_mem hin)
        simp [flagged, last, stays]
        omega
    · have absent : d ∉ chains player := fun member =>
        eq ((hashed.member player d).mp member).2.symm
      rw [List.erase_of_not_mem absent, ← hashed.flagged player]
      by_cases last : (chains (t.player d)).length < 2 <;> simp [flagged, last, eq]

/-! ## Closing -/

theorem unlink_eq {list : BidirList Nat} (holds : list.Holds (before ++ d :: after)) :
    DescTable.unlink list d = list.remove d := by
  have nodup := holds.chain.nodup
  have back : list.prev d = before.getLast? := by simpa using holds.back.prev_eq
  have forward : list.next d = after.head? := holds.chain.next_eq_head.head_eq
  rw [BidirList.remove_eq holds]
  rcases List.eq_nil_or_concat before with rfl | ⟨front, previous, rfl⟩
  · cases after <;> simp [DescTable.unlink, back, forward]
  · have ne : d ≠ previous := by
      intro eq
      simp [eq, List.nodup_append] at nodup
    have head : list.head = (front.concat previous ++ after).head? := by
      rw [holds.chain.head_eq]
      cases front <;> simp
    have last : (front.concat previous).getLast? = some previous := by simp
    rw [last] at back ⊢
    rw [← head]
    cases after <;> simp_all [DescTable.unlink]

theorem Listed.unlink (listed : Listed t cells) (isOpen : t.opened d = true) :
    Listed { t with
      descriptorList := DescTable.unlink t.descriptorList d
      opened := update t.opened d false } (cells.erase d) := by
  obtain ⟨before, after, split⟩ := List.append_of_mem ((listed.open_iff d).mpr isOpen)
  have holds := listed.holds
  have nodup := holds.chain.nodup
  have erased := erase_of_eq_append nodup split
  rw [split] at holds
  refine ⟨?_, fun e => ?_, fun e member => ?_, fun e following link => ?_⟩
  · rw [erased, unlink_eq holds]
    exact BidirList.remove_holds holds
  · rw [nodup.mem_erase_iff, listed.open_iff]
    by_cases eq : e = d <;> simp [eq]
  · exact listed.below e (List.mem_of_mem_erase member)
  · simp only [unlink_eq holds, BidirList.remove_eq holds] at link
    have forward : t.descriptorList.next d = after.head? := holds.chain.next_eq_head.head_eq
    rcases List.eq_nil_or_concat before with rfl | ⟨front, previous, rfl⟩
    · exact listed.falling e following (by simpa using link)
    · by_cases eq : e = previous
      · subst eq
        -- The descriptor before the one that goes leads past it.
        have whole : Chain t.descriptorList.next t.descriptorList.head
            (front ++ e :: d :: after) := by simpa using holds.chain
        have here : t.descriptorList.next e = some d := whole.next_eq_head.1
        have past : t.descriptorList.next d = some following := by
          rw [forward]
          simpa using link
        exact Nat.lt_trans (listed.falling d following past) (listed.falling e d here)
      · exact listed.falling e following (by simpa [eq] using link)

theorem Listed.unlink_next_self (listed : Listed t cells) (isOpen : t.opened d = true) :
    (DescTable.unlink t.descriptorList d).next d = t.descriptorList.next d := by
  obtain ⟨before, after, split⟩ := List.append_of_mem ((listed.open_iff d).mpr isOpen)
  have holds := listed.holds
  rw [split] at holds
  have apart : d ∉ before := fun member =>
    (List.nodup_append.mp holds.chain.nodup).2.2 d member d (by simp) rfl
  rw [unlink_eq holds]
  exact BidirList.remove_next_of_notMem holds apart

/-- How often the PROGs have been freed when `d` goes away and its player keeps `others`. -/
def DescTable.freedBy (t : DescTable) (d : Nat) (others : List Nat) : Nat → Nat :=
  match t.programData d with
  | some program =>
    if others = [] then update t.freed program (t.freed program + 1) else t.freed
  | none => t.freed

theorem dropProgram_eq (chained : Chained t live chains)
    (below : ∀ d, live d → d < t.allocated) :
    t.dropProgram d = some { t with freed := t.freedBy d (chains (t.player d)) } := by
  unfold DescTable.dropProgram DescTable.freedBy
  cases t.programData d with
  | none => rfl
  | some program =>
    simp only [chained.count below, Option.bind_eq_bind, Option.bind_some,
      List.length_eq_zero_iff]
    split <;> rfl

theorem closeDesc_eq (chained : Chained t live chains) (below : ∀ d, live d → d < t.allocated) :
    t.closeDesc d = some { t with
      descriptorList := DescTable.unlink t.descriptorList d
      freed := t.freedBy d (chains (t.player d))
      opened := update t.opened d false
      ndescriptors := t.ndescriptors - 1 } := by
  have relinked : Chained { t with descriptorList := DescTable.unlink t.descriptorList d } live
      chains := ⟨chained.chain, chained.member⟩
  unfold DescTable.closeDesc
  simp only [dropProgram_eq relinked below, Option.bind_eq_bind, Option.bind_some]
  rfl

theorem shutdownsock_close (ht : Threaded t cells chains) (isOpen : t.opened d = true)
    (reason : DiscReason) (forbidden : Bool)
    (goes : reason = .logout → forbidden = true ∨ t.connected d = false) :
    ∃ t', t.shutdownsock d reason forbidden = some t' ∧
      Threaded t' (cells.erase d) (fun player => (chains player).erase d) ∧
      ∃ hashnext descHtab flagged, t' = { t with
        descriptorList := DescTable.unlink t.descriptorList d
        hashnext := hashnext
        descHtab := descHtab
        flagged := flagged
        freed := t.freedBy d ((chains (t.player d)).erase d)
        opened := update t.opened d false
        ndescriptors := t.ndescriptors - 1 } := by
  have below : ∀ d, t.Live d → d < t.allocated := fun d => ht.live_below
  have listed := ht.listed.unlink isOpen
  cases connected : t.connected d with
  | true =>
    have stays : (if reason = .logout ∧ forbidden = true then DiscReason.quit else reason) ≠
        .logout := by
      split
      next => simp
      next kept =>
        intro logout
        rcases goes logout with isForbidden | notConnected
        · exact kept ⟨logout, isForbidden⟩
        · simp [connected] at notConnected
    obtain ⟨hashnext, descHtab, flagged, ran, hashed⟩ :=
      ht.hashed.announceDisconnect below ⟨isOpen, connected⟩
    have closed := closeDesc_eq (d := d) hashed.toChained fun e isLive => below e isLive.1
    have whole : t.shutdownsock d reason forbidden = DescTable.closeDesc { t with
        hashnext := hashnext, descHtab := descHtab, flagged := flagged } d := by
      simp only [DescTable.shutdownsock, isOpen, connected, if_true, ran, Option.bind_eq_bind,
        Option.bind_some, if_neg stays]
    refine ⟨_, whole.trans closed, ⟨⟨listed.holds, listed.open_iff, listed.below,
      listed.falling⟩, ⟨hashed.chain, fun player e => ?_⟩, hashed.flagged⟩, hashnext,
      descHtab, flagged, rfl⟩
    · rw [hashed.member]
      by_cases eq : e = d <;> simp [DescTable.Live, eq]
  | false =>
    have absent : ∀ player, d ∉ chains player := fun player member => by
      have isLive := ((ht.hashed.member player d).mp member).1
      simp [DescTable.Live, connected] at isLive
    have kept : (fun player => (chains player).erase d) = chains :=
      funext fun player => List.erase_of_not_mem (absent player)
    have closed := closeDesc_eq (d := d) ht.hashed.toChained below
    rw [kept, List.erase_of_not_mem (absent _)]
    have whole : t.shutdownsock d reason forbidden = t.closeDesc d := by
      simp [DescTable.shutdownsock, isOpen, connected]
    refine ⟨_, whole.trans closed, ⟨⟨listed.holds, listed.open_iff, listed.below,
      listed.falling⟩, ⟨ht.hashed.chain, fun player e => ?_⟩, ht.hashed.flagged⟩,
      t.hashnext, t.descHtab, t.flagged, rfl⟩
    · rw [ht.hashed.member]
      by_cases eq : e = d <;> simp [DescTable.Live, eq, connected]

theorem shutdownsock_logout (ht : Threaded t cells chains) (isLive : t.Live d) :
    ∃ t', t.shutdownsock d .logout false = some t' ∧
      Threaded t' cells (fun player => (chains player).erase d) ∧
      ∃ hashnext descHtab flagged, t' = { t with
        hashnext := hashnext
        descHtab := descHtab
        flagged := flagged
        connected := update t.connected d false
        player := update t.player d 0 } := by
  have below : ∀ d, t.Live d → d < t.allocated := fun d => ht.live_below
  obtain ⟨hashnext, descHtab, flagged, ran, hashed⟩ :=
    ht.hashed.announceDisconnect below isLive
  have listed := ht.listed
  have whole : t.shutdownsock d .logout false = some (DescTable.logOut { t with
      hashnext := hashnext, descHtab := descHtab, flagged := flagged } d) := by
    simp only [DescTable.shutdownsock, isLive.1, isLive.2, if_true, ran, Option.bind_eq_bind,
      Option.bind_some]
    rfl
  refine ⟨_, whole, ⟨⟨listed.holds, listed.open_iff, listed.below, listed.falling⟩,
    ⟨hashed.chain, fun player e => ?_⟩, hashed.flagged⟩, hashnext, descHtab, flagged, rfl⟩
  · rw [hashed.member]
    by_cases eq : e = d <;> simp [DescTable.Live, DescTable.logOut, eq]

/-! ## Loops -/

def WellThreaded (t : DescTable) : Prop := ∃ cells chains, Threaded t cells chains

def ClosingKeeps (kept : DescTable → Prop) : Prop :=
  ∀ t d reason t', WellThreaded t → kept t → t.opened d = true → reason ≠ .logout →
    t.shutdownsock d reason false = some t' → kept t'

variable {kept : DescTable → Prop}

theorem close_step (closing : ClosingKeeps kept)
    (ht : Threaded t cells chains) (holds : kept t) (isOpen : t.opened d = true)
    (reason : DiscReason) (goes : reason ≠ .logout) :
    ∃ t', t.shutdownsock d reason false = some t' ∧
      Threaded t' (cells.erase d) (fun player => (chains player).erase d) ∧
      t'.descriptorList.next d = t.descriptorList.next d ∧ kept t' := by
  obtain ⟨t', ran, ht', _, _, _, fields⟩ :=
    shutdownsock_close ht isOpen reason false fun eq => absurd eq goes
  refine ⟨t', ran, ht', ?_,
    closing t d reason t' ⟨cells, chains, ht⟩ holds isOpen goes ran⟩
  rw [fields]
  exact ht.listed.unlink_next_self isOpen

theorem head_bind_next {next : Nat → Option Nat} {start : Option Nat} {before rest : List Nat}
    (chain : Chain next start (before ++ rest)) : rest.head?.bind next = rest.tail.head? := by
  cases rest with
  | nil => rfl
  | cons d rest => exact chain.next_eq_head.head_eq

theorem erase_middle {before rest : List Nat} (nodup : (before ++ d :: rest).Nodup) :
    (before ++ d :: rest).erase d = before ++ rest :=
  erase_of_eq_append nodup rfl

section Loops

variable {kept : DescTable → Prop}

theorem bootLoop_spec (closing : ClosingKeeps kept) {rest : List Nat} {limit : Nat}
    (ht : Threaded t cells chains) (holds : kept t) (here : chains player = rest)
    (hlt : rest.length < limit) :
    ∃ t', DescTable.bootLoop limit rest.head? (rest.head?.bind t.hashnext) t = some t' ∧
      WellThreaded t' ∧ kept t' := by
  induction rest generalizing t cells chains limit with
  | nil =>
    obtain ⟨limit, rfl⟩ := Nat.exists_eq_add_of_lt hlt
    exact ⟨t, by simp [DescTable.bootLoop], ⟨cells, chains, ht⟩, holds⟩
  | cons d rest ih =>
    obtain ⟨limit, rfl⟩ :=
      Nat.exists_eq_succ_of_ne_zero (Nat.ne_of_gt (Nat.zero_lt_of_lt hlt))
    have member : d ∈ chains player := by simp [here]
    have isLive := ((ht.hashed.member player d).mp member).1
    have link : t.hashnext d = rest.head? := by
      have chain := ht.hashed.chain player
      rw [here] at chain
      exact chain.2.head_eq
    obtain ⟨t', ran, ht', -, holds'⟩ :=
      close_step closing ht holds isLive.1 .boot (by simp)
    obtain ⟨final, loop, done⟩ := ih ht' holds' (by simp [here])
      (Nat.lt_of_succ_lt_succ hlt)
    refine ⟨final, ?_, done⟩
    simpa [DescTable.bootLoop, ran, link] using loop

theorem closeLoop_spec (closing : ClosingKeeps kept) {choose : Nat → Option DiscReason}
    (stay : ∀ d, choose d ≠ some .logout)
    {before rest : List Nat} {limit : Nat} (ht : Threaded t (before ++ rest) chains)
    (holds : kept t) (hlt : rest.length < limit) :
    ∃ t', DescTable.closeLoop choose limit rest.head?
        (rest.head?.bind t.descriptorList.next) t = some t' ∧ WellThreaded t' ∧ kept t' := by
  induction rest generalizing t before chains limit with
  | nil =>
    obtain ⟨limit, rfl⟩ := Nat.exists_eq_add_of_lt hlt
    exact ⟨t, by simp [DescTable.closeLoop], ⟨_, chains, ht⟩, holds⟩
  | cons d rest ih =>
    obtain ⟨limit, rfl⟩ :=
      Nat.exists_eq_succ_of_ne_zero (Nat.ne_of_gt (Nat.zero_lt_of_lt hlt))
    have link := head_bind_next ht.listed.holds.chain
    have later := Nat.lt_of_succ_lt_succ hlt
    cases chosen : choose d with
    | none =>
      have passed : Threaded t ((before ++ [d]) ++ rest) chains := by simpa using ht
      obtain ⟨final, loop, done⟩ := ih passed holds later
      refine ⟨final, ?_, done⟩
      simpa [DescTable.closeLoop, chosen, show t.descriptorList.next d = rest.head? from link]
        using loop
    | some reason =>
      have isOpen : t.opened d = true := (ht.listed.open_iff d).mp (by simp)
      have goes : reason ≠ .logout := fun eq => stay d (by rw [chosen, eq])
      obtain ⟨t', ran, ht', -, holds'⟩ :=
        close_step closing ht holds isOpen reason goes
      rw [erase_middle ht.listed.holds.chain.nodup] at ht'
      obtain ⟨final, loop, done⟩ := ih ht' holds' later
      refine ⟨final, ?_, done⟩
      simpa [DescTable.closeLoop, chosen, ran,
        show t.descriptorList.next d = rest.head? from link] using loop

theorem brokenLoop_spec (closing : ClosingKeeps kept) (broken : Nat → Bool)
    {before rest : List Nat} {limit : Nat} (ht : Threaded t (before ++ rest) chains)
    (holds : kept t) (hlt : rest.length < limit) :
    ∃ t', DescTable.brokenLoop broken limit rest.head? t = some t' ∧
      WellThreaded t' ∧ kept t' := by
  induction rest generalizing t before chains limit with
  | nil =>
    obtain ⟨limit, rfl⟩ := Nat.exists_eq_add_of_lt hlt
    exact ⟨t, by simp [DescTable.brokenLoop], ⟨_, chains, ht⟩, holds⟩
  | cons d rest ih =>
    obtain ⟨limit, rfl⟩ :=
      Nat.exists_eq_succ_of_ne_zero (Nat.ne_of_gt (Nat.zero_lt_of_lt hlt))
    have link : t.descriptorList.next d = rest.head? :=
      head_bind_next ht.listed.holds.chain
    have later := Nat.lt_of_succ_lt_succ hlt
    cases isBroken : broken d with
    | false =>
      have passed : Threaded t ((before ++ [d]) ++ rest) chains := by simpa using ht
      obtain ⟨final, loop, done⟩ := ih passed holds later
      exact ⟨final, by simpa [DescTable.brokenLoop, isBroken, link] using loop, done⟩
    | true =>
      have isOpen : t.opened d = true := (ht.listed.open_iff d).mp (by simp)
      obtain ⟨t', ran, ht', stays, holds'⟩ :=
        close_step closing ht holds isOpen .sockDied (by simp)
      rw [erase_middle ht.listed.holds.chain.nodup] at ht'
      obtain ⟨final, loop, done⟩ := ih ht' holds' later
      exact ⟨final, by simpa [DescTable.brokenLoop, isBroken, ran, stays, link] using loop,
        done⟩

end Loops

/-! ## Calls -/

theorem initializesock_threaded (ht : Threaded t cells chains) :
    Threaded t.initializesock (t.allocated :: cells) chains := by
  have fresh : t.allocated ∉ cells := fun member =>
    Nat.lt_irrefl _ (ht.listed.below _ member)
  have old : ∀ d, t.Live d → d ≠ t.allocated := fun d isLive =>
    Nat.ne_of_lt (ht.live_below isLive)
  refine ⟨⟨BidirList.push_holds ht.listed.holds fresh, fun d => ?_, fun d member => ?_,
    fun d following link => ?_⟩, ⟨fun player => ?_, fun player d => ?_⟩, ht.hashed.flagged⟩
  · by_cases eq : d = t.allocated <;>
      simp [DescTable.initializesock, eq, ht.listed.open_iff]
  · rcases List.mem_cons.mp member with rfl | hin
    · exact Nat.lt_succ_self _
    · exact Nat.lt_succ_of_lt (ht.listed.below d hin)
  · by_cases eq : d = t.allocated
    · subst eq
      have head : t.descriptorList.head = some following := by
        simpa [DescTable.initializesock, BidirList.push] using link
      rw [ht.listed.holds.chain.head_eq] at head
      exact ht.listed.below following (List.mem_of_head? head)
    · exact ht.listed.falling d following
        (by simpa [DescTable.initializesock, BidirList.push, eq] using link)
  · refine (ht.hashed.chain player).update_of_notMem fun member => ?_
    exact old _ ((ht.hashed.member player _).mp member).1 rfl
  · rw [ht.hashed.member]
    by_cases eq : d = t.allocated
    · have notLive : ¬ t.Live d := fun isLive => old d isLive eq
      have isNew : ¬ t.initializesock.Live d := by
        simp [DescTable.initializesock, DescTable.Live, eq]
      simp [notLive, isNew]
    · simp [DescTable.initializesock, DescTable.Live, eq]

theorem Threaded.connect (ht : Threaded t cells chains) (isOpen : t.opened d = true)
    (notConnected : t.connected d = false) (player : Dbref)
    (programData : Nat → Option Nat) :
    Threaded (DescTable.announceConnect { t with
        connected := update t.connected d true
        player := update t.player d player
        programData := programData } player d)
      cells (update chains player (d :: chains player)) := by
  have listed := ht.listed
  have absent : ∀ player, d ∉ chains player := fun player member => by
    have isLive := ((ht.hashed.member player d).mp member).1
    simp [DescTable.Live, notConnected] at isLive
  have hashed : Hashed { t with
      connected := update t.connected d true
      player := update t.player d player
      programData := programData } t.Live chains := by
    refine ⟨⟨ht.hashed.chain, fun o e => ?_⟩, ht.hashed.flagged⟩
    rw [ht.hashed.member]
    by_cases eq : e = d <;> simp [DescTable.Live, eq, notConnected]
  have notLive : ¬ t.Live d := fun isLive => by simp [DescTable.Live, notConnected] at isLive
  have added := hashed.announceConnect notLive (Function.update_self d player t.player)
  refine ⟨?_, ⟨added.chain, fun o e => ?_⟩, added.flagged⟩
  · rw [DescTable.announceConnect, desc_addhash_eq]
    exact ⟨listed.holds, listed.open_iff, listed.below, listed.falling⟩
  · rw [added.member]
    have liveNow : (t.Live e ∨ e = d) ↔ (DescTable.announceConnect { t with
        connected := update t.connected d true
        player := update t.player d player
        programData := programData } player d).Live e := by
      rw [DescTable.announceConnect, desc_addhash_eq]
      by_cases eq : e = d <;> simp [DescTable.Live, eq, isOpen]
    rw [liveNow]

theorem Chained.pendingProgram (chained : Chained t live chains)
    (below : ∀ d, live d → d < t.allocated) :
    t.pendingProgram player =
      some (((chains player).dropWhile fun e => (t.programData e).isNone).head?.bind
        t.programData) := by
  have hlt := Nat.lt_succ_of_le (chained.short below player)
  unfold DescTable.pendingProgram
  rw [seek_eq (chained.chain player) hlt]
  rfl

/-- What the descriptors carry once `d` has joined what is pending. -/
def DescTable.joins (t : DescTable) (d : Nat) (pending : Option Nat) : Nat → Option Nat :=
  match pending with
  | some program => update t.programData d (some program)
  | none => t.programData

theorem connectPlayer_spec (ht : Threaded t cells chains) (isOpen : t.opened d = true)
    (notConnected : t.connected d = false) (player : Dbref) :
    t.connectPlayer d player = some (DescTable.announceConnect { t with
      connected := update t.connected d true
      player := update t.player d player
      programData := t.joins d
        (((chains player).dropWhile fun e => (t.programData e).isNone).head?.bind
          t.programData) } player d) ∧
    ∃ t', t.connectPlayer d player = some t' ∧
      Threaded t' cells (update chains player (d :: chains player)) := by
  have below : ∀ d, t.Live d → d < t.allocated := fun d => ht.live_below
  have chained : Chained { t with
      connected := update t.connected d true
      player := update t.player d player } t.Live chains := by
    refine ⟨ht.hashed.chain, fun o e => ?_⟩
    rw [ht.hashed.member]
    by_cases eq : e = d <;> simp [DescTable.Live, eq, notConnected]
  have ran : t.connectPlayer d player = some (DescTable.announceConnect { t with
      connected := update t.connected d true
      player := update t.player d player
      programData := t.joins d
        (((chains player).dropWhile fun e => (t.programData e).isNone).head?.bind
          t.programData) } player d) := by
    unfold DescTable.connectPlayer
    simp only [chained.pendingProgram below, Option.bind_eq_bind, Option.bind_some]
    generalize ((chains player).dropWhile fun e => (t.programData e).isNone).head?.bind
      t.programData = pending
    cases pending <;> rfl
  exact ⟨ran, _, ran, ht.connect isOpen notConnected player _⟩

/-- What every call leaves true, when whoever logs out is `clear` to do so. -/
structure CallsKeep (kept : DescTable → Prop) (clear : DescTable → Nat → Prop) : Prop where
  opening : ∀ t, WellThreaded t → kept t → kept t.initializesock
  connecting : ∀ t d player t', WellThreaded t → kept t → t.opened d = true →
    t.connected d = false → t.connectPlayer d player = some t' → kept t'
  creating : ∀ t d player, WellThreaded t → kept t → t.opened d = true →
    t.connected d = false → t.flagged player = false → kept (t.createPlayer d player)
  closing : ∀ t d reason forbidden t', WellThreaded t → kept t → t.opened d = true →
    (reason = .logout → forbidden = true ∨ t.connected d = false) →
    t.shutdownsock d reason forbidden = some t' → kept t'
  loggingOut : ∀ t d t', WellThreaded t → kept t → t.Live d → clear t d →
    t.shutdownsock d .logout false = some t' → kept t'

theorem CallsKeep.loops {clear : DescTable → Nat → Prop} (keep : CallsKeep kept clear) :
    ClosingKeeps kept :=
  fun t d reason t' wellThreaded holds isOpen goes ran =>
    keep.closing t d reason false t' wellThreaded holds isOpen (fun eq => absurd eq goes) ran

theorem tableCall_keeps {clear : DescTable → Nat → Prop}
    (keep : CallsKeep kept clear) (wellThreaded : WellThreaded t) (holds : kept t)
    (made : TableCall)
    (cleared : ∀ d, made = .shutdownsock d .logout false → t.Live d → clear t d) :
    ∃ t', tableCall t made = some t' ∧ WellThreaded t' ∧ kept t' := by
  have well := wellThreaded
  obtain ⟨cells, chains, ht⟩ := wellThreaded
  have length : cells.length < t.allocated + 1 := Nat.lt_succ_of_le
    (length_le_of_lt ht.listed.holds.chain.nodup ht.listed.below)
  have head : t.descriptorList.head = cells.head? := ht.listed.holds.chain.head_eq
  cases made with
  | initializesock =>
    exact ⟨_, rfl, ⟨_, chains, initializesock_threaded ht⟩, keep.opening t well holds⟩
  | connectPlayer d player =>
    by_cases ready : t.opened d ∧ t.connected d = false
    · obtain ⟨-, t', ran, ht'⟩ := connectPlayer_spec ht ready.1 ready.2 player
      exact ⟨t', by simpa [tableCall, ready] using ran, ⟨cells, _, ht'⟩,
        keep.connecting t d player t' well holds ready.1 ready.2 ran⟩
    · exact ⟨t, if_neg ready, well, holds⟩
  | createPlayer d player =>
    by_cases ready : t.opened d ∧ t.connected d = false ∧ t.flagged player = false
    · exact ⟨_, if_pos ready,
        ⟨cells, _, ht.connect ready.1 ready.2.1 player t.programData⟩,
        keep.creating t d player well holds ready.1 ready.2.1 ready.2.2⟩
    · exact ⟨t, if_neg ready, well, holds⟩
  | shutdownsock d reason forbidden =>
    by_cases isOpen : t.opened d = true
    · by_cases goes : reason = .logout → forbidden = true ∨ t.connected d = false
      · obtain ⟨t', ran, ht', -⟩ := shutdownsock_close ht isOpen reason forbidden goes
        exact ⟨t', by simpa [tableCall, isOpen] using ran, ⟨_, _, ht'⟩,
          keep.closing t d reason forbidden t' well holds isOpen goes ran⟩
      · simp only [Classical.not_imp, not_or, Bool.not_eq_true, Bool.not_eq_false] at goes
        obtain ⟨rfl, rfl, connected⟩ := goes
        obtain ⟨t', ran, ht', -⟩ := shutdownsock_logout ht ⟨isOpen, connected⟩
        exact ⟨t', by simpa [tableCall, isOpen] using ran, ⟨_, _, ht'⟩,
          keep.loggingOut t d t' well holds ⟨isOpen, connected⟩
            (cleared d rfl ⟨isOpen, connected⟩) ran⟩
    · exact ⟨t, if_neg isOpen, well, holds⟩
  | bootOff player =>
    have short := Nat.lt_succ_of_le
      (ht.hashed.short (fun d => ht.live_below) player)
    obtain ⟨t', ran, done⟩ := bootLoop_spec keep.loops ht holds rfl short
    rw [← (ht.hashed.chain player).head_eq] at ran
    exact ⟨t', ran, done⟩
  | closeChosen choose stay =>
    obtain ⟨t', ran, done⟩ :=
      closeLoop_spec keep.loops stay (List.nil_append cells ▸ ht) holds length
    rw [← head] at ran
    exact ⟨t', ran, done⟩
  | eradicateBrokenFd broken =>
    obtain ⟨t', ran, done⟩ :=
      brokenLoop_spec keep.loops broken (List.nil_append cells ▸ ht) holds length
    rw [← head] at ran
    exact ⟨t', ran, done⟩

theorem tableCall_threaded (wellThreaded : WellThreaded t) (made : TableCall) :
    ∃ t', tableCall t made = some t' ∧ WellThreaded t' := by
  have keep : CallsKeep (fun _ => True) fun _ _ => True := by
    constructor <;> intros <;> trivial
  obtain ⟨t', ran, done, -⟩ :=
    tableCall_keeps keep wellThreaded trivial made fun _ _ _ => trivial
  exact ⟨t', ran, done⟩

theorem tableCalls_threaded (wellThreaded : WellThreaded t) (line : List TableCall) :
    ∃ t', Machine.run tableCall t line = some t' ∧ WellThreaded t' :=
  Machine.run_invariant (fun _ made holds => tableCall_threaded holds made) line wellThreaded

/-! ## Runs -/

/-- The loop of `process_commands` has enough steps left: the descriptor it is at is below
them, and it goes down from there. -/
def Within (limit : Nat) : Option Nat → Option Nat → Prop
  | some d, dnext => d + 1 < limit ∧ ∀ e, dnext = some e → e < d
  | none, dnext => 0 < limit ∧ dnext = none

theorem commandLoop_threaded {line : Nat → List TableCall} {limit : Nat}
    {d dnext : Option Nat} (wellThreaded : WellThreaded t) (within : Within limit d dnext) :
    ∃ t', commandLoop line limit d dnext t = some t' ∧ WellThreaded t' := by
  induction limit generalizing t d dnext with
  | zero => cases d <;> simp [Within] at within
  | succ limit ih =>
    cases d with
    | none => exact ⟨t, rfl, wellThreaded⟩
    | some d =>
      have step : ∃ t', (if t.opened d then Machine.run tableCall t (line d) else some t) = some t' ∧
          WellThreaded t' := by
        split
        next => exact tableCalls_threaded wellThreaded (line d)
        next => exact ⟨t, rfl, wellThreaded⟩
      obtain ⟨middle, ran, wellThreaded'⟩ := step
      have falling : ∀ e following, middle.descriptorList.next e = some following →
          following < e := by
        obtain ⟨cells, chains, ht⟩ := wellThreaded'
        exact ht.listed.falling
      have later : Within limit dnext (dnext.bind middle.descriptorList.next) := by
        obtain ⟨room, down⟩ := within
        cases dnext with
        | none => exact ⟨by omega, rfl⟩
        | some e =>
          have lower := down e rfl
          exact ⟨by omega, fun following link => falling e following link⟩
      obtain ⟨final, loop, done⟩ := ih wellThreaded' later
      refine ⟨final, ?_, done⟩
      by_cases isOpen : t.opened d = true
      · rw [if_pos isOpen] at ran
        simpa [commandLoop, isOpen, ran] using loop
      · rw [if_neg isOpen] at ran
        cases ran
        simpa [commandLoop, isOpen] using loop

theorem happen_threaded (wellThreaded : WellThreaded t) (event : ServerEvent) :
    ∃ t', happen t event = some t' ∧ WellThreaded t' := by
  cases event with
  | call made => exact tableCall_threaded wellThreaded made
  | processCommands line =>
    refine commandLoop_threaded wellThreaded ?_
    obtain ⟨cells, chains, ht⟩ := wellThreaded
    cases head : t.descriptorList.head with
    | none => exact ⟨Nat.succ_pos _, rfl⟩
    | some d =>
      have member : d ∈ cells := by
        rw [ht.listed.holds.chain.head_eq] at head
        exact List.mem_of_head? head
      exact ⟨Nat.succ_lt_succ (ht.listed.below d member),
        fun e link => ht.listed.falling d e link⟩

/-- Every run of the server goes through, and the list, the chains and the flags agree at its
end. -/
theorem serve_threaded (events : List ServerEvent) :
    ∃ t, Machine.run happen DescTable.start events = some t ∧
      (∃ cells, t.descriptorList.Holds cells ∧ ∀ d, d ∈ cells ↔ t.opened d = true) ∧
      ∀ player, ∃ chain, Chain t.hashnext (t.descHtab player) chain ∧ chain.Nodup ∧
        (∀ d, d ∈ chain ↔
          t.opened d = true ∧ t.connected d = true ∧ t.player d = player) ∧
        (chain = [] → t.descHtab player = none) ∧
        (t.flagged player = true ↔ chain ≠ []) := by
  obtain ⟨t, ran, cells, chains, threaded⟩ :=
    Machine.run_invariant (fun _ event holds => happen_threaded holds event) events
      ⟨[], fun _ => [], start_threaded⟩
  refine ⟨t, ran, ⟨cells, threaded.listed.holds, threaded.listed.open_iff⟩, fun player =>
    ⟨chains player, threaded.hashed.chain player, (threaded.hashed.chain player).nodup,
      fun d => ?_, fun empty => ?_, threaded.hashed.flagged player⟩⟩
  · rw [threaded.hashed.member, DescTable.Live, and_assoc]
  · have chain := threaded.hashed.chain player
    rw [empty] at chain
    exact chain

end BattletechMux.Net
