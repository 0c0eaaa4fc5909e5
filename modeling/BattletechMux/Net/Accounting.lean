/-
Module: BattletechMux.Net.Accounting
Purpose: What the socket took and what waits in the blocks is what was queued, in order, without
  what was discarded; the counters count it, the pointers are those of the chain, no block holds
  more than fits in it, and what waits is above the limit by one write at most.
-/
import BattletechMux.Foundation.Lossy
import BattletechMux.Net.Output

namespace BattletechMux.Net

open List hiding map_map
open Option hiding map map_map

open Function (update update_self update_of_ne)
open LinkedMemory (Chain Fifo)
open Lossy (Account)

def capacity : Nat := outputBlockSize - (blockHeader + 1)

theorem strncpy_eq {b : List UInt8} (noNul : 0 ∉ b) {n : Nat} (short : n ≤ b.length) :
    strncpy b n = b.take n := by
  have all : (b.take n).takeWhile (· ≠ 0) = b.take n := by
    refine takeWhile_eq_self_iff.mpr fun c mem => decide_eq_true fun eq => ?_
    exact noNul (eq ▸ mem_of_mem_take mem)
  rw [strncpy, all, length_take, Nat.min_eq_left short, Nat.sub_self]
  exact append_nil _

def TextBlock.chars (block : TextBlock) : List UInt8 := block.data.drop block.start

namespace Descriptor

variable (d : Descriptor) (cells : List Nat)

def waiting : List UInt8 := cells.flatMap fun c => (d.block c).chars

def size : Nat := (cells.map fun c => (d.block c).nchars).sum

end Descriptor

/-- The blocks of the chain are `cells`; `due` characters are counted that are not in it yet. -/
structure Kept (queued : List UInt8) (d : Descriptor) (cells : List Nat) (due : Nat) : Prop where
  holds : d.output.Holds d.nxt cells
  allocated : ∀ c ∈ cells, c < d.allocated
  counted : ∀ c ∈ cells, (d.block c).start + (d.block c).nchars = (d.block c).data.length
  sized : d.outputSize = d.size cells + due
  room : ∀ c ∈ cells, (d.block c).data.length ≤ capacity
  full : ∀ c ∈ cells.dropLast, (d.block c).data.length = capacity
  whole : ∀ c ∈ cells.tail, (d.block c).start = 0
  account : ∃ lost : Nat, d.outputLost = lost ∧
    Account queued d.taken (d.waiting cells) lost capacity

variable {queued : List UInt8} {d d' : Descriptor} {cells rest : List Nat} {tb due : Nat}

theorem Kept.nodup (kept : Kept queued d cells due) : cells.Nodup := kept.holds.chain.nodup

theorem kept_initial : Kept [] .initial [] 0 where
  holds := Fifo.empty_holds _
  allocated _ mem := absurd mem not_mem_nil
  counted _ mem := absurd mem not_mem_nil
  sized := rfl
  room _ mem := absurd mem not_mem_nil
  full _ mem := absurd mem not_mem_nil
  whole _ mem := absurd mem not_mem_nil
  account := ⟨0, rfl, Account.start⟩

theorem size_cons : d.size (tb :: rest) = (d.block tb).nchars + d.size rest := sum_cons

theorem waiting_cons : d.waiting (tb :: rest) = (d.block tb).chars ++ d.waiting rest :=
  flatMap_cons

theorem size_congr (eq : ∀ c ∈ cells, d'.block c = d.block c) : d'.size cells = d.size cells :=
  congrArg List.sum (map_congr_left fun c mem => by rw [eq c mem])

theorem waiting_congr (eq : ∀ c ∈ cells, d'.block c = d.block c) :
    d'.waiting cells = d.waiting cells :=
  flatMap_congr fun c mem => by rw [eq c mem]

/-! ## Writing to the socket -/

section

variable (kept : Kept queued d (tb :: rest) 0)
include kept

theorem take_spec {cnt : Nat} (some' : cnt ≤ (d.block tb).nchars) :
    Kept queued (d.take tb cnt) (tb :: rest) 0 := by
  have others : ∀ c ∈ rest, (d.take tb cnt).block c = d.block c := fun c mem =>
    update_of_ne (fun (eq : c = tb) =>
      (nodup_cons.mp kept.nodup).1 (eq ▸ mem)) ..
  have here : (d.take tb cnt).block tb =
      { d.block tb with
        nchars := (d.block tb).nchars - cnt
        start := (d.block tb).start + cnt } := update_self ..
  have length : ∀ c ∈ tb :: rest, ((d.take tb cnt).block c).data = (d.block c).data := by
    intro c mem
    rcases mem_cons.mp mem with rfl | later
    · rw [here]
    · rw [others c later]
  refine ⟨kept.holds, kept.allocated, fun c mem => ?_, ?_, fun c mem => ?_,
    fun c mem => ?_, fun c mem => ?_, ?_⟩
  · rcases mem_cons.mp mem with rfl | later
    · rw [here]
      have counted := kept.counted c mem
      dsimp only
      omega
    · rw [others c later]
      exact kept.counted c mem
  · have sized := kept.sized
    rw [size_cons] at sized ⊢
    rw [size_congr others, here]
    change d.outputSize - cnt = _
    rw [sized]
    dsimp only
    omega
  · rw [length c mem]
    exact kept.room c mem
  · rw [length c (dropLast_subset _ mem)]
    exact kept.full c mem
  · rw [others c mem]
    exact kept.whole c mem
  · obtain ⟨lost, is, account⟩ := kept.account
    refine ⟨lost, is, ?_⟩
    have split : (d.block tb).chars = (d.block tb).chars.take cnt ++
        ((d.take tb cnt).block tb).chars := by
      rw [here, TextBlock.chars, TextBlock.chars, ← drop_drop, take_append_drop]
    rw [waiting_cons, split, append_assoc] at account
    rw [waiting_cons, waiting_congr others]
    exact account.hand

theorem flush_spec (writes : List Written) :
    ∃ emptied writes' d', Descriptor.flush tb writes d = (emptied, writes', d') ∧
      Kept queued d' (tb :: rest) 0 ∧ (emptied = true → (d'.block tb).nchars = 0) ∧
      d'.nxt = d.nxt ∧ d'.allocated = d.allocated ∧ d'.size rest = d.size rest ∧
      d'.outputSize ≤ d.outputSize := by
  induction writes generalizing d with
  | nil =>
    unfold Descriptor.flush
    split
    · rename_i empty
      exact ⟨_, _, _, rfl, kept, fun _ => empty, rfl, rfl, rfl, le_refl _⟩
    · exact ⟨_, _, _, rfl, kept, nofun, rfl, rfl, rfl, le_refl _⟩
  | cons write writes ih =>
    unfold Descriptor.flush
    split
    · rename_i empty
      exact ⟨_, _, _, rfl, kept, fun _ => empty, rfl, rfl, rfl, le_refl _⟩
    · cases write with
      | wouldBlock => exact ⟨_, _, _, rfl, kept, nofun, rfl, rfl, rfl, le_refl _⟩
      | count cnt =>
        have kept' := take_spec kept (Nat.min_le_right cnt (d.block tb).nchars)
        obtain ⟨emptied, writes', d', ran, kept'', empty, nxt, allocated, others, less⟩ :=
          ih kept'
        refine ⟨emptied, writes', d', ran, kept'', empty, nxt, allocated,
          others.trans (size_congr fun c mem => ?_), less.trans (Int.sub_le_self _ ?_)⟩
        · exact update_of_ne
            (fun (eq : c = tb) => (nodup_cons.mp kept.nodup).1 (eq ▸ mem)) ..
        · exact Int.natCast_nonneg _

theorem pop_spec (outputSize outputLost : Int)
    (sized : outputSize = d.outputSize - (d.block tb).nchars)
    (lost : outputLost = d.outputLost + (d.block tb).nchars) :
    Kept queued
      { d with output := d.output.pop d.nxt tb, outputSize := outputSize,
               outputLost := outputLost } rest 0 := by
  refine ⟨kept.holds.pop, fun c mem => kept.allocated c (mem_cons_of_mem tb mem),
    fun c mem => kept.counted c (mem_cons_of_mem tb mem), ?_,
    fun c mem => kept.room c (mem_cons_of_mem tb mem), fun c mem => ?_,
    fun c mem => kept.whole c (mem_of_mem_tail mem), ?_⟩
  · have all := kept.sized
    rw [size_cons] at all
    change outputSize = d.size rest + (0 : Nat)
    rw [sized, all]
    push_cast
    ring
  · cases rest with
    | nil => exact absurd mem not_mem_nil
    | cons snd rest => exact kept.full c (mem_cons_of_mem tb mem)
  · obtain ⟨pre, is, account⟩ := kept.account
    have length : (d.block tb).chars.length = (d.block tb).nchars := by
      have counted := kept.counted tb mem_cons_self
      rw [TextBlock.chars, length_drop]
      omega
    refine ⟨pre + (d.block tb).nchars, ?_, ?_⟩
    · change outputLost = _
      rw [lost, is]
      push_cast
      rfl
    · rw [waiting_cons] at account
      refine length ▸ account.lose ?_
      have room := kept.room tb mem_cons_self
      rw [TextBlock.chars, length_drop]
      omega

end

theorem processLoop_spec (kept : Kept queued d cells 0) (writes : List Written) {limit : Nat}
    (hlt : cells.length < limit) :
    ∃ d' cells', Descriptor.processLoop limit d.output.first writes d = some d' ∧
      Kept queued d' cells' 0 ∧ d'.size cells'.tail ≤ d.size cells.tail ∧
      d'.outputSize ≤ d.outputSize := by
  induction cells generalizing d writes limit with
  | nil =>
    obtain ⟨limit, rfl⟩ := Nat.exists_eq_succ_of_ne_zero (Nat.ne_of_gt hlt)
    rw [LinkedMemory.chain_nil.mp kept.holds.chain]
    exact ⟨d, [], rfl, kept, le_refl _, le_refl _⟩
  | cons tb rest ih =>
    obtain ⟨limit, rfl⟩ :=
      Nat.exists_eq_succ_of_ne_zero (Nat.ne_of_gt (Nat.zero_lt_of_lt hlt))
    obtain ⟨emptied, writes', d₁, flushed, kept₁, empty, nxt, allocated, others, less⟩ :=
      flush_spec kept writes
    rw [kept.holds.chain.1, Descriptor.processLoop, flushed]
    cases emptied with
    | false => exact ⟨d₁, tb :: rest, rfl, kept₁, others.le, less⟩
    | true =>
      have none' := empty rfl
      have popped := pop_spec kept₁ d₁.outputSize d₁.outputLost (by simp [none'])
        (by simp [none'])
      have next : d₁.nxt tb = (d₁.output.pop d₁.nxt tb).first := by
        rw [Fifo.pop]
        cases d₁.nxt tb <;> rfl
      obtain ⟨d', cells', ran, kept', rest', less'⟩ := ih popped writes'
        (Nat.lt_of_succ_lt_succ hlt)
      dsimp only
      rw [next]
      refine ⟨d', cells', ran, kept', rest'.trans ?_, less'.trans less⟩
      refine le_trans ?_ others.le
      cases rest with
      | nil => exact le_refl _
      | cons snd rest =>
        change d₁.size rest ≤ d₁.size (snd :: rest)
        rw [size_cons]
        exact Nat.le_add_left ..

theorem processOutput_spec (kept : Kept queued d cells 0) (writes : List Written) :
    ∃ d' cells', d.processOutput writes = some d' ∧ Kept queued d' cells' 0 ∧
      d'.size cells'.tail ≤ d.size cells.tail ∧ d'.outputSize ≤ d.outputSize :=
  processLoop_spec kept writes (Nat.lt_succ_of_le
    (LinkedMemory.length_le_of_lt kept.nodup kept.allocated))

/-! ## Queueing -/

theorem size_append (more : List Nat) : d.size (cells ++ more) = d.size cells + d.size more := by
  rw [Descriptor.size, map_append, sum_append]
  rfl

theorem waiting_append (more : List Nat) :
    d.waiting (cells ++ more) = d.waiting cells ++ d.waiting more := flatMap_append ..

theorem left_eq (n : Nat) : outputBlockSize - (blockHeader + n + 1) = capacity - n := by
  rw [capacity, Nat.sub_sub]
  congr 1
  omega

variable {front : List Nat}

theorem copy_spec {tp n : Nat} {b : List UInt8}
    (kept : Kept queued d (front ++ [tp]) (n + due)) (noNul : 0 ∉ b) (short : n ≤ b.length)
    (fits : (d.block tp).data.length + n ≤ capacity) :
    Kept (queued ++ b.take n) (d.copy tp b n) (front ++ [tp]) due := by
  have here : (d.copy tp b n).block tp =
      { d.block tp with
        data := (d.block tp).data ++ b.take n
        nchars := (d.block tp).nchars + n } := by
    rw [← strncpy_eq noNul short]
    exact update_self ..
  have others : ∀ c, c ≠ tp → (d.copy tp b n).block c = d.block c :=
    fun c ne => update_of_ne ne ..
  have apart : ∀ c ∈ front, c ≠ tp := by
    intro c mem eq
    have nodup := kept.nodup
    rw [nodup_append] at nodup
    exact nodup.2.2 c mem tp mem_cons_self eq
  have frontSame : ∀ c ∈ front, (d.copy tp b n).block c = d.block c :=
    fun c mem => others c (apart c mem)
  have copied : (b.take n).length = n := by rw [length_take, Nat.min_eq_left short]
  have counted := kept.counted tp (mem_append_right _ mem_cons_self)
  refine ⟨kept.holds, kept.allocated, fun c mem => ?_, ?_, fun c mem => ?_,
    fun c mem => ?_, fun c mem => ?_, ?_⟩
  · by_cases eq : c = tp
    · subst eq
      rw [here]
      dsimp only
      rw [length_append, copied]
      omega
    · rw [others c eq]
      exact kept.counted c mem
  · have sized := kept.sized
    rw [size_append] at sized ⊢
    rw [size_congr frontSame]
    change d.outputSize = _
    rw [sized]
    simp only [Descriptor.size, map_cons, map_nil, sum_singleton, here]
    push_cast
    ring
  · by_cases eq : c = tp
    · subst eq
      rw [here]
      dsimp only
      rwa [length_append, copied]
    · rw [others c eq]
      exact kept.room c mem
  · have inFront := mem
    rw [dropLast_concat] at inFront
    rw [frontSame c inFront]
    exact kept.full c mem
  · by_cases eq : c = tp
    · subst eq
      rw [here]
      exact kept.whole c mem
    · rw [others c eq]
      exact kept.whole c mem
  · obtain ⟨lost, is, account⟩ := kept.account
    refine ⟨lost, is, ?_⟩
    have longer : (d.copy tp b n).waiting (front ++ [tp]) =
        d.waiting (front ++ [tp]) ++ b.take n := by
      rw [waiting_append, waiting_append, waiting_congr frontSame]
      simp only [Descriptor.waiting, flatMap_singleton, here, TextBlock.chars]
      rw [drop_append_of_le_length (by omega), append_assoc]
    rw [longer]
    exact account.queue _

theorem chainBlock_spec {tp : Nat} (kept : Kept queued d (front ++ [tp]) due)
    (filled : (d.block tp).data.length = capacity) :
    Kept queued d.chainBlock (front ++ [tp] ++ [d.allocated]) due ∧
      d.chainBlock.block d.allocated = ⟨[], 0, 0⟩ ∧
      (∀ c ∈ front ++ [tp], d.chainBlock.block c = d.block c) ∧
      d.chainBlock.outputSize = d.outputSize := by
  have fresh : d.allocated ∉ front ++ [tp] := fun mem =>
    Nat.lt_irrefl _ (kept.allocated _ mem)
  have new : d.chainBlock.block d.allocated = ⟨[], 0, 0⟩ := update_self ..
  have eq : ∀ c ∈ front ++ [tp], d.chainBlock.block c = d.block c := fun c mem =>
    update_of_ne (fun (is : c = d.allocated) => fresh (is ▸ mem)) ..
  have holds : d.output.Holds d.malloc.2.nxt (front ++ [tp]) := kept.holds.congr fun c mem =>
    update_of_ne (fun (is : c = d.allocated) => fresh (is ▸ mem)) ..
  refine ⟨⟨holds.append fresh (update_self ..), fun c mem => ?_, fun c mem => ?_, ?_,
    fun c mem => ?_, fun c mem => ?_, fun c mem => ?_, ?_⟩, new, eq, rfl⟩
  · rcases mem_append.mp mem with old | last
    · exact Nat.lt_succ_of_lt (kept.allocated c old)
    · rw [mem_singleton.mp last]
      exact Nat.lt_succ_self _
  · rcases mem_append.mp mem with old | last
    · rw [eq c old]
      exact kept.counted c old
    · rw [mem_singleton.mp last, new]
      rfl
  · rw [size_append, size_congr eq]
    simp only [Descriptor.size, map_cons, map_nil, sum_singleton, new]
    exact kept.sized
  · rcases mem_append.mp mem with old | last
    · rw [eq c old]
      exact kept.room c old
    · rw [mem_singleton.mp last, new]
      exact Nat.zero_le _
  · rw [dropLast_concat] at mem
    rw [eq c mem]
    rcases mem_append.mp mem with inFront | last
    · exact kept.full c (by rwa [dropLast_concat])
    · rw [mem_singleton.mp last]
      exact filled
  · rw [tail_append_of_ne_nil (append_ne_nil_of_right_ne_nil _ (cons_ne_nil _ _))]
      at mem
    rcases mem_append.mp mem with old | last
    · rw [eq c (mem_of_mem_tail old)]
      exact kept.whole c old
    · rw [mem_singleton.mp last, new]
  · obtain ⟨lost, is, account⟩ := kept.account
    refine ⟨lost, is, ?_⟩
    rw [waiting_append, waiting_congr eq]
    simp only [Descriptor.waiting, flatMap_singleton, new]
    rwa [show TextBlock.chars ⟨[], 0, 0⟩ = [] from rfl, append_nil]

theorem fill_spec {tp limit : Nat} {b : List UInt8} (noNul : 0 ∉ b)
    (kept : Kept queued d (front ++ [tp]) b.length) (hlt : b.length + 1 < limit ∨
      b.length < limit ∧ (d.block tp).data.length < capacity) :
    ∃ d' more, Descriptor.fill limit b d = some d' ∧
      Kept (queued ++ b) d' (front ++ [tp] ++ more) 0 ∧ d'.outputSize = d.outputSize ∧
      ∀ c ∈ front ++ [tp], (d'.block c).start = (d.block c).start := by
  induction limit generalizing d front tp b queued with
  | zero => omega
  | succ limit ih =>
    have last : d.output.last = some tp := kept.holds.last.trans (by simp)
    have room := kept.room tp (mem_append_right _ mem_cons_self)
    have starts : ∀ n c, ((d.copy tp b n).block c).start = (d.block c).start := by
      intro n c
      by_cases eq : c = tp
      · subst eq
        simp only [Descriptor.copy, update_self]
      · simp only [Descriptor.copy, update_of_ne eq]
    rw [Descriptor.fill, last]
    dsimp only
    rw [left_eq]
    by_cases fits : b.length ≤ capacity - (d.block tp).data.length
    · rw [if_pos fits]
      refine ⟨_, [], rfl, ?_, rfl, fun c _ => starts _ c⟩
      rw [append_nil]
      have kept₀ : Kept queued d (front ++ [tp]) (b.length + 0) := kept
      have copied := copy_spec kept₀ noNul (le_refl _) (by omega)
      rwa [take_length] at copied
    · rw [if_neg fits]
      have short : capacity - (d.block tp).data.length ≤ b.length := by omega
      -- the rest of the block is filled, or it was full
      obtain ⟨d₁, is, kept₁, filled, eq, size⟩ : ∃ d₁,
          (if capacity - (d.block tp).data.length > 0
            then d.copy tp b (capacity - (d.block tp).data.length) else d) = d₁ ∧
          Kept (queued ++ b.take (capacity - (d.block tp).data.length)) d₁ (front ++ [tp])
            (b.drop (capacity - (d.block tp).data.length)).length ∧
          (d₁.block tp).data.length = capacity ∧
          (∀ c, (d₁.block c).start = (d.block c).start) ∧ d₁.outputSize = d.outputSize := by
        refine ⟨_, rfl, ?_⟩
        by_cases space : capacity - (d.block tp).data.length > 0
        · rw [if_pos space]
          have split : b.length = (capacity - (d.block tp).data.length) +
              (b.drop (capacity - (d.block tp).data.length)).length := by
            rw [length_drop]
            omega
          refine ⟨copy_spec (split ▸ kept) noNul short (by omega), ?_, starts _, rfl⟩
          simp only [Descriptor.copy, update_self, length_append,
            strncpy_eq noNul short, length_take]
          omega
        · rw [if_neg space]
          have none' : capacity - (d.block tp).data.length = 0 := by omega
          rw [none', take_zero, append_nil, drop_zero]
          exact ⟨kept, by omega, fun _ => rfl, rfl⟩
      rw [is]
      obtain ⟨chained, new, old, size'⟩ := chainBlock_spec kept₁ filled
      obtain ⟨d', more, ran, kept', size'', starts'⟩ := ih
        (b := b.drop (capacity - (d.block tp).data.length))
        (fun mem => noNul (mem_of_mem_drop mem)) chained (Or.inr (by
          rw [new, length_drop]
          have some' : 0 < capacity := by decide
          exact ⟨by omega, some'⟩))
      refine ⟨d', [d₁.allocated] ++ more, ran, ?_, (size''.trans size').trans size,
        fun c mem => ?_⟩
      · rw [append_assoc queued, take_append_drop] at kept'
        rwa [← append_assoc]
      · rw [starts' c (mem_append_left _ mem), old c mem, eq c]

theorem discard_spec (kept : Kept queued d cells 0) :
    Kept queued d.discard cells.tail 0 ∧ d.discard.outputSize = d.size cells.tail ∧
      d.discard.block = d.block := by
  cases cells with
  | nil =>
    have none' : d.output.first = none := kept.holds.chain
    rw [Descriptor.discard, none']
    exact ⟨kept, kept.sized, rfl⟩
  | cons tb rest =>
    have some' : d.output.first = some tb := kept.holds.chain.1
    have popped := pop_spec kept _ _ rfl rfl
    rw [Descriptor.discard, some']
    exact ⟨popped, popped.sized.trans (add_zero _), rfl⟩

theorem open_spec (kept : Kept queued d [] 0) :
    Kept queued { d.malloc.2 with output := ⟨some d.allocated, some d.allocated⟩ }
        [d.allocated] 0 ∧
      d.malloc.2.block d.allocated = ⟨[], 0, 0⟩ := by
  have new : d.malloc.2.block d.allocated = ⟨[], 0, 0⟩ := update_self ..
  refine ⟨⟨⟨⟨rfl, update_self ..⟩, rfl⟩, ?_, ?_, ?_, ?_, ?_, ?_, ?_⟩, new⟩
  · intro c mem
    rw [mem_singleton.mp mem]
    exact Nat.lt_succ_self _
  · intro c mem
    rw [mem_singleton.mp mem]
    change (d.malloc.2.block d.allocated).start + (d.malloc.2.block d.allocated).nchars =
      (d.malloc.2.block d.allocated).data.length
    rw [new]
    rfl
  · change d.outputSize = (d.malloc.2.size [d.allocated] : Nat) + (0 : Nat)
    rw [kept.sized]
    simp [Descriptor.size, new]
  · intro c mem
    rw [mem_singleton.mp mem]
    change (d.malloc.2.block d.allocated).data.length ≤ _
    rw [new]
    exact Nat.zero_le _
  · exact fun c mem => absurd mem not_mem_nil
  · exact fun c mem => absurd mem not_mem_nil
  · obtain ⟨lost, is, account⟩ := kept.account
    refine ⟨lost, is, ?_⟩
    have none' : d.malloc.2.waiting [d.allocated] = d.waiting [] := by
      simp only [Descriptor.waiting, flatMap_singleton, new]
      rfl
    exact none'.symm ▸ account

def Untouched (d : Descriptor) (cells : List Nat) : Prop :=
  ∀ c ∈ cells.head?, (d.block c).start = 0

theorem opened_spec (kept : Kept queued d cells 0) :
    ∃ d' front tp, (if d.output.first = none then
        { d.malloc.2 with output := ⟨some d.allocated, some d.allocated⟩ } else d) = d' ∧
      Kept queued d' (front ++ [tp]) 0 ∧ d'.outputSize = d.outputSize ∧
      (Untouched d cells → Untouched d' (front ++ [tp])) := by
  rcases eq_nil_or_concat cells with rfl | ⟨front, tp, rfl⟩
  · rw [if_pos (show d.output.first = none from kept.holds.chain)]
    obtain ⟨opened, new⟩ := open_spec kept
    refine ⟨_, [], d.allocated, rfl, opened, rfl, fun _ c mem => ?_⟩
    rw [← some.inj mem]
    exact congrArg TextBlock.start new
  · have some' : d.output.first ≠ none := by
      intro none'
      have empty := kept.holds.first_eq_none_iff.mp none'
      rw [concat_eq_append] at empty
      exact append_ne_nil_of_right_ne_nil front (cons_ne_nil tp []) empty
    rw [if_neg some']
    rw [concat_eq_append] at kept ⊢
    exact ⟨d, front, tp, rfl, kept, rfl, id⟩

theorem makeRoom_spec (kept : Kept queued d cells 0) (limit n : Nat) :
    ∃ front tp, Kept queued (d.makeRoom limit n) (front ++ [tp]) 0 ∧
      ((d.makeRoom limit n).outputSize + n ≤ limit ∨
        (d.makeRoom limit n).outputSize = d.size cells.tail ∧
          Untouched (d.makeRoom limit n) (front ++ [tp])) := by
  by_cases much : (limit : Int) - d.outputSize - n < 0
  · obtain ⟨kept₁, size, block⟩ := discard_spec kept
    obtain ⟨d', front, tp, is, kept', eq, untouched⟩ := opened_spec kept₁
    have made : d.makeRoom limit n = d' := by
      rw [Descriptor.makeRoom, if_pos much]
      exact is
    rw [made]
    refine ⟨front, tp, kept', Or.inr ⟨eq.trans size, untouched fun c mem => ?_⟩⟩
    rw [block]
    exact kept.whole c (mem_of_head? mem)
  · obtain ⟨d', front, tp, is, kept', eq, _⟩ := opened_spec kept
    have made : d.makeRoom limit n = d' := by
      rw [Descriptor.makeRoom, if_neg much]
      exact is
    rw [made]
    exact ⟨front, tp, kept', Or.inl (by omega)⟩

/-- All but the first block waits below the limit, and all of it no more than `most` above. -/
def Bounded (limit most : Nat) (d : Descriptor) (cells : List Nat) : Prop :=
  d.size cells.tail ≤ limit ∧ d.outputSize ≤ limit + most

theorem tail_size (kept : Kept queued d cells 0) {limit n : Nat} (few : n ≤ capacity)
    (below : d.outputSize ≤ limit + n)
    (either : d.outputSize ≤ limit ∨ Untouched d cells) : d.size cells.tail ≤ limit := by
  have sized := kept.sized
  match cells, kept, sized, either with
  | [], _, _, _ => exact Nat.zero_le _
  | [_], _, _, _ => exact Nat.zero_le _
  | tb :: snd :: rest, kept, sized, either =>
    rw [size_cons] at sized
    rcases either with small | untouched
    · change d.size (snd :: rest) ≤ limit
      omega
    · have counted := kept.counted tb mem_cons_self
      have full := kept.full tb mem_cons_self
      have whole := untouched tb rfl
      change d.size (snd :: rest) ≤ limit
      omega

theorem queueWrite_spec (kept : Kept queued d cells 0) (limit : Nat) (text : Text)
    (writes : List Written) :
    ∃ d' cells', d.queueWrite limit text writes = some d' ∧
      Kept (queued ++ text.bytes) d' cells' 0 ∧
      ∀ most, text.bytes.length ≤ most → most ≤ capacity → Bounded limit most d cells →
        Bounded limit most d' cells' := by
  by_cases empty : text.bytes.length ≤ 0
  · refine ⟨d, cells, if_pos empty, ?_, fun _ _ _ bounded => bounded⟩
    rwa [eq_nil_of_length_eq_zero (Nat.le_zero.mp empty), append_nil]
  · obtain ⟨d₁, cells₁, relieved, kept₁, rest₁⟩ : ∃ d₁ cells₁,
        d.relieve limit text.bytes.length writes = some d₁ ∧ Kept queued d₁ cells₁ 0 ∧
          d₁.size cells₁.tail ≤ d.size cells.tail := by
      rw [Descriptor.relieve]
      split
      · obtain ⟨d₁, cells₁, ran, kept₁, rest₁, _⟩ := processOutput_spec kept writes
        exact ⟨d₁, cells₁, ran, kept₁, rest₁⟩
      · exact ⟨d, cells, rfl, kept, le_refl _⟩
    obtain ⟨front, tp, kept₂, room⟩ := makeRoom_spec kept₁ limit text.bytes.length
    let d₂ := d₁.makeRoom limit text.bytes.length
    have due : Kept queued
        { d₂ with outputSize := d₂.outputSize + text.bytes.length,
                  outputTot := d₂.outputTot + text.bytes.length } (front ++ [tp])
        text.bytes.length :=
      ⟨kept₂.holds, kept₂.allocated, kept₂.counted, by
        have sized := kept₂.sized
        change d₂.outputSize + (text.bytes.length : Int) = (d₂.size (front ++ [tp]) : Int) + _
        rw [show d₂.outputSize = _ from sized]
        ring, kept₂.room, kept₂.full, kept₂.whole, kept₂.account⟩
    obtain ⟨d', more, ran, kept', size, starts⟩ := fill_spec text.noNul due
      (Or.inl (Nat.lt_succ_self (text.bytes.length + 1)))
    refine ⟨d', _, ?_, kept', fun most short fits bounded => ?_⟩
    · rw [Descriptor.queueWrite]
      dsimp only
      rw [if_neg empty, relieved, bind_eq_bind, bind_some]
      exact ran
    · have size' : d'.outputSize = d₂.outputSize + text.bytes.length := size
      have below : d'.outputSize ≤ limit + text.bytes.length := by
        rcases room with fits' | ⟨eq, _⟩
        · have : d₂.outputSize + text.bytes.length ≤ limit := fits'
          omega
        · have : d₂.outputSize = d₁.size cells₁.tail := eq
          have := bounded.1
          omega
      refine ⟨tail_size kept' (short.trans fits) below ?_, by omega⟩
      rcases room with fits' | ⟨_, untouched⟩
      · exact Or.inl (size'.trans_le fits')
      · refine Or.inr fun c mem => ?_
        have fst : (front ++ [tp] ++ more).head? = (front ++ [tp]).head? :=
          head?_append_of_ne_nil _
            (append_ne_nil_of_right_ne_nil _ (cons_ne_nil _ _))
        rw [fst] at mem
        rw [starts c (mem_of_head? mem)]
        exact untouched c mem

/-! ## Runs -/

def queues (calls : List Call) : List UInt8 := calls.flatMap Call.queues

theorem run_kept (limit : Nat) (calls : List Call) (kept : Kept queued d cells 0) :
    ∃ d' cells', Machine.run (perform limit) d calls = some d' ∧
      Kept (queued ++ queues calls) d' cells' 0 ∧
      ∀ most, (∀ call ∈ calls, call.queues.length ≤ most) → most ≤ capacity →
        Bounded limit most d cells → Bounded limit most d' cells' := by
  induction calls generalizing queued d cells with
  | nil => exact ⟨d, cells, rfl, by rwa [queues, flatMap_nil, append_nil],
      fun _ _ _ bounded => bounded⟩
  | cons call calls ih =>
    obtain ⟨d₁, cells₁, ran₁, kept₁, bounded₁⟩ : ∃ d₁ cells₁, perform limit d call = some d₁ ∧
        Kept (queued ++ call.queues) d₁ cells₁ 0 ∧
        ∀ most, call.queues.length ≤ most → most ≤ capacity → Bounded limit most d cells →
          Bounded limit most d₁ cells₁ := by
      cases call with
      | queueWrite text writes => exact queueWrite_spec kept limit text writes
      | processOutput writes =>
        obtain ⟨d₁, cells₁, ran, kept₁, rest, less⟩ := processOutput_spec kept writes
        exact ⟨d₁, cells₁, ran, by rwa [Call.queues, append_nil],
          fun most _ _ bounded => ⟨rest.trans bounded.1, less.trans bounded.2⟩⟩
    obtain ⟨d', cells', ran, kept', bounded'⟩ := ih kept₁
    refine ⟨d', cells', ?_, ?_, fun most small fits bounded => ?_⟩
    · rw [Machine.run_cons, ran₁, bind_some, ran]
    · rwa [queues, flatMap_cons, ← append_assoc]
    · exact bounded' most (fun o mem => small o (mem_cons_of_mem call mem))
        fits (bounded₁ most (small call mem_cons_self) fits bounded)

/-- After any calls on the output of a new descriptor, what the socket took and what waits in
the blocks is what was queued, in order, without pieces that were the rest of the first block
when they were discarded and that `output_lost` counts; the chain ends at `output_tail`, no block
is overfilled, `output_size` is what waits, and when every text is of LBUF_SIZE bytes at most
it is no more than the longest of them above the limit. -/
theorem run_accounted (limit : Nat) (calls : List Call) :
    ∃ d cells, Machine.run (perform limit) .initial calls = some d ∧
      d.output.Holds d.nxt cells ∧
      (∃ lost : Nat, d.outputLost = lost ∧
        Account (queues calls) d.taken (d.waiting cells) lost capacity) ∧
      d.outputSize = (cells.map fun c => ((d.block c).nchars : Int)).sum ∧
      (∀ c ∈ cells, (d.block c).chars.length = (d.block c).nchars ∧
        blockHeader + (d.block c).data.length < outputBlockSize) ∧
      ∀ most ≤ lbufSize, (∀ call ∈ calls, call.queues.length ≤ most) →
        d.outputSize ≤ limit + most := by
  obtain ⟨d, cells, ran, kept, bounded⟩ := run_kept limit calls kept_initial
  refine ⟨d, cells, ran, kept.holds, kept.account, ?_, fun c member => ⟨?_, ?_⟩,
    fun most small all => ?_⟩
  · rw [kept.sized, Descriptor.size, Nat.cast_zero, add_zero, Nat.cast_list_sum, List.map_map]
    rfl
  · have counted := kept.counted c member
    rw [TextBlock.chars, length_drop]
    omega
  · have room := kept.room c member
    have space : capacity = outputBlockSize - (blockHeader + 1) := rfl
    have positive : blockHeader + 1 < outputBlockSize := by decide
    omega
  · have fits : lbufSize ≤ capacity := by decide
    refine (bounded most all (small.trans fits) ⟨Nat.zero_le _, ?_⟩).2
    change (0 : Int) ≤ limit + most
    omega

end BattletechMux.Net
