/-
Module: BattletechMux.Pools.Soundness
Purpose: The pools through any sequence of calls: what is free is what was freed and not given out
  again, while no live buffer begins with the mark of a free one.
-/
import BattletechMux.Pools.Buffers
import BattletechMux.Foundation.Machine

namespace BattletechMux.Pools

open List Option
open Function (update update_self update_of_ne)

section

open LinkedMemory (Chain)

/-! ## Reset -/

section Reset

variable {heap : Addr → Option Block} {a : Addr} {b : Block}

def nextIn (heap : Addr → Option Block) (a : Addr) : Option Addr := (heap a).bind Block.next

def markedIn (heap : Addr → Option Block) (a : Addr) : Bool :=
  (heap a).any fun b => wordAt b.bytes 0 == poolMagicnum

theorem marked_eq (s : Arena) (a : Addr) : s.marked a = markedIn s.heap a := by
  rw [Arena.marked, markedIn]
  cases s.heap a <;> rfl

def Kept (heap heap' : Addr → Option Block) (a : Addr) : Prop :=
  ∃ b next nxtfree, heap a = some b ∧ heap' a = some { b with next := next, nxtfree := nxtfree }

theorem Kept.refl (there : heap a = some b) : Kept heap heap a :=
  ⟨b, b.next, b.nxtfree, there, there⟩

theorem Kept.trans {middle last : Addr → Option Block} (fst : Kept heap middle a)
    (snd : Kept middle last a) : Kept heap last a := by
  obtain ⟨b, next, nxtfree, there, between⟩ := fst
  obtain ⟨b', next', nxtfree', between', post⟩ := snd
  obtain rfl := some.inj (between.symm.trans between')
  exact ⟨b, next', nxtfree', there, post⟩

theorem Kept.marked {heap' : Addr → Option Block} (kept : Kept heap heap' a) :
    markedIn heap' a = markedIn heap a := by
  obtain ⟨b, next, nxtfree, there, post⟩ := kept
  rw [markedIn, post, markedIn, there]
  rfl

theorem resetLoop_spec {chain done : List Addr} {rounds : Nat} {ph newchain : Option Addr}
    (linked : Chain (nextIn heap) ph chain) (built : Chain (nextIn heap) newchain done)
    (apart : ∀ a ∈ chain, a ∉ done) (hlt : chain.length ≤ rounds)
    (there : ∀ a ∈ chain, ∃ b, heap a = some b) :
    ∃ newchain' heap', Arena.resetLoop rounds ph newchain heap = some (newchain', heap') ∧
      Chain (nextIn heap') newchain'
        ((chain.filter fun a => !markedIn heap a).reverse ++ done) ∧
      (∀ a, a ∉ chain → heap' a = heap a) ∧
      (∀ a ∈ chain, markedIn heap a = true → heap' a = none) ∧
      ∀ a ∈ chain, markedIn heap a = false → Kept heap heap' a := by
  induction chain generalizing rounds ph newchain heap done with
  | nil =>
    obtain rfl : ph = none := linked
    refine ⟨newchain, heap, by unfold Arena.resetLoop; rfl, built, fun _ _ => rfl, ?_, ?_⟩
    · exact fun a mem => absurd mem not_mem_nil
    · exact fun a mem => absurd mem not_mem_nil
  | cons a rest ih =>
    obtain ⟨new, -⟩ := nodup_cons.mp linked.nodup
    obtain ⟨rfl, later⟩ := linked
    obtain ⟨b, here⟩ := there a mem_cons_self
    have nextEq : nextIn heap a = b.next := by rw [nextIn, here, bind_some]
    have markEq : markedIn heap a = (wordAt b.bytes 0 == poolMagicnum) := by
      rw [markedIn, here, any_some]
    rw [nextEq] at later
    cases rounds with
    | zero => exact absurd hlt (Nat.not_succ_le_zero _)
    | succ rounds =>
      -- The loop goes on with what has become of the block, be it released or relinked.
      have goOn : ∀ (link : Option Block) (newchain' : Option Addr) (done' : List Addr),
          Chain (nextIn (update heap a link)) newchain' done' →
          (∀ c ∈ rest, c ∉ done') →
          ∃ newchain'' heap', Arena.resetLoop rounds b.next newchain' (update heap a link) =
              some (newchain'', heap') ∧
            Chain (nextIn heap') newchain''
              ((rest.filter fun c => !markedIn heap c).reverse ++ done') ∧
            heap' a = link ∧ (∀ c, c ∉ a :: rest → heap' c = heap c) ∧
            (∀ c ∈ rest, markedIn heap c = true → heap' c = none) ∧
            ∀ c ∈ rest, markedIn heap c = false → Kept heap heap' c := by
        intro link newchain' done' built' apart'
        have others : ∀ c ∈ rest, update heap a link c = heap c := fun c mem =>
          update_of_ne (fun eq : c = a => new (eq ▸ mem)) _ _
        have marks : ∀ c ∈ rest, markedIn (update heap a link) c = markedIn heap c :=
          fun c mem => by rw [markedIn, others c mem, markedIn]
        obtain ⟨newchain'', heap', ran, relinked, outside, released, kept⟩ :=
          ih (later.congr fun c mem => by
            rw [nextIn, others c mem, nextIn]) built' apart'
            (Nat.le_of_succ_le_succ hlt) fun c mem => by
              rw [others c mem]
              exact there c (mem_cons_of_mem a mem)
        rw [filter_congr fun c mem => congrArg _ (marks c mem)] at relinked
        refine ⟨newchain'', heap', ran, relinked, ?_, ?_, ?_, ?_⟩
        · rw [outside a new, update_self]
        · intro c away
          rw [mem_cons, not_or] at away
          rw [outside c away.2, update_of_ne away.1]
        · exact fun c mem mark => released c mem ((marks c mem).trans mark)
        · intro c mem mark
          obtain ⟨d, next, nxtfree, was, now⟩ := kept c mem ((marks c mem).trans mark)
          exact ⟨d, next, nxtfree, (others c mem).symm.trans was, now⟩
      have still : ∀ (link : Option Block), Chain (nextIn (update heap a link)) newchain done :=
        fun link => built.congr fun c mem => by
          have o : c ≠ a := by
            rintro rfl
            exact apart c mem_cons_self mem
          rw [nextIn, update_of_ne o, nextIn]
      unfold Arena.resetLoop
      rw [here, bind_eq_bind, bind_some]
      cases mark : markedIn heap a with
      | true =>
        rw [mark] at markEq
        obtain ⟨newchain', heap', ran, relinked, gone, outside, released, kept⟩ :=
          goOn none newchain done (still none) fun c mem =>
            apart c (mem_cons_of_mem a mem)
        rw [if_pos (beq_iff_eq.mp markEq.symm),
          filter_cons_of_neg (by rw [mark]; exact Bool.false_ne_true)]
        refine ⟨newchain', heap', ran, relinked, outside, ?_, ?_⟩
        · exact forall_mem_cons.mpr ⟨fun _ => gone, released⟩
        · refine forall_mem_cons.mpr ⟨fun unmarked => ?_, kept⟩
          exact absurd (mark.symm.trans unmarked) (by decide)
      | false =>
        rw [mark] at markEq
        have linkedIn : Chain (nextIn (update heap a
            (some { b with next := newchain, nxtfree := none }))) (some a) (a :: done) := by
          refine ⟨rfl, ?_⟩
          rw [nextIn, update_self]
          exact still _
        obtain ⟨newchain', heap', ran, relinked, there', outside, released, kept⟩ :=
          goOn _ (some a) (a :: done) linkedIn fun c mem => by
            rw [mem_cons, not_or]
            exact ⟨fun eq => new (eq ▸ mem), apart c (mem_cons_of_mem a mem)⟩
        rw [if_neg fun word => absurd (markEq.trans (beq_iff_eq.mpr word)) (by decide),
          filter_cons_of_pos (by rw [mark]; rfl), reverse_cons, append_assoc]
        refine ⟨newchain', heap', ran, relinked, outside, ?_, ?_⟩
        · refine forall_mem_cons.mpr ⟨fun marked => ?_, released⟩
          exact absurd (mark.symm.trans marked) (by decide)
        · exact forall_mem_cons.mpr ⟨fun _ => ⟨b, newchain, none, here, there'⟩, kept⟩

end Reset

theorem PoolSound.relinked {s s' : Arena} {p : PoolNum} {live freed order : List Addr}
    {newchain : Option Addr} (sound : PoolSound s p live freed)
    (linked : Chain (nextIn s'.heap) newchain order) (perm : order.Perm live)
    (kept : ∀ a ∈ live, Kept s.heap s'.heap a)
    (pool : s'.pools p =
      { s.pools p with
        chainHead := newchain
        freeHead := none
        maxAlloc := (s.pools p).numAlloc })
    (mallocs : s'.mallocs = s.mallocs) : PoolSound s' p live [] := by
  obtain ⟨chain, -, whole, short⟩ := sound.chain
  have room := whole.length_eq
  rw [length_append] at room
  refine ⟨⟨order, ?_, ?_, ?_⟩, ?_, ?_, ?_, ?_, ?_⟩
  · rw [pool]
    exact linked
  · rw [append_nil]
    exact perm
  · rw [perm.length_eq, mallocs]
    omega
  · rw [pool]
    rfl
  · intro a mem
    rw [append_nil] at mem
    obtain ⟨b, next, nxtfree, was, now⟩ := kept a mem
    obtain ⟨b', there, good⟩ := sound.blocks a (mem_append_left _ mem)
    obtain rfl := some.inj (was.symm.trans there)
    rw [pool]
    exact ⟨_, now, good.header, good.size, good.footer⟩
  · exact fun a mem => absurd mem not_mem_nil
  · rw [pool, ← sound.count]
  · rw [pool]
    exact sound.room

theorem resetPool_spec {w : Watched} (sound : Sound w) (p : PoolNum)
    (unmarked : ∀ a ∈ w.live p, w.arena.marked a = false) :
    ∃ s', w.arena.resetPool p = some s' ∧
      Sound { w with arena := s', freed := update w.freed p [] } ∧
      (∀ q, ∀ a ∈ w.live q, Kept w.arena.heap s'.heap a) ∧
      ∀ a ∈ w.freed p, s'.heap a = none := by
  have pool := sound.pool p
  have nodup := pool.nodup
  obtain ⟨chain, linked, perm, short⟩ := pool.chain
  have nothing : Chain (nextIn w.arena.heap) none [] := rfl
  obtain ⟨newchain, heap, ran, relinked, others, released, kept⟩ := resetLoop_spec linked nothing
    (fun _ _ => not_mem_nil) (Nat.le_succ_of_le short) fun a mem => by
      obtain ⟨b, there, -⟩ := pool.whole_of_mem perm a mem
      exact ⟨b, there⟩
  have onlyLive : (chain.filter fun a => !markedIn w.arena.heap a).Perm (w.live p) := by
    have filtered := perm.filter fun a => !markedIn w.arena.heap a
    have all : (w.live p).filter (fun a => !markedIn w.arena.heap a) = w.live p :=
      filter_eq_self.mpr fun a mem => by
        rw [← marked_eq, unmarked a mem, Bool.not_false]
    have none' : (w.freed p).filter (fun a => !markedIn w.arena.heap a) = [] :=
      filter_eq_nil_iff.mpr fun a mem => by
        rw [← marked_eq, pool.marks a mem]
        exact Bool.false_ne_true
    rwa [filter_append, all, none', append_nil] at filtered
  rw [append_nil] at relinked
  have keptLive : ∀ a ∈ w.live p, Kept w.arena.heap heap a := fun a mem =>
    kept a (perm.mem_iff.mpr (mem_append_left _ mem)) (by
      rw [← marked_eq, unmarked a mem])
  generalize result : ({ w.arena with heap := heap }.setPool p
    { w.arena.pools p with
      chainHead := newchain
      freeHead := none
      maxAlloc := (w.arena.pools p).numAlloc }) = s'
  have heapEq : s'.heap = heap := by rw [← result]; rfl
  have poolSelf : s'.pools p = { w.arena.pools p with
      chainHead := newchain
      freeHead := none
      maxAlloc := (w.arena.pools p).numAlloc } := by rw [← result, Arena.setPool_pools_self]
  have poolOther : ∀ q, q ≠ p → s'.pools q = w.arena.pools q := fun q o => by
    rw [← result, Arena.setPool_pools_of_ne o]
  have mallocs : s'.mallocs = w.arena.mallocs := by rw [← result]; rfl
  have others' : ∀ q, q ≠ p → ∀ a ∈ w.live q ++ w.freed q, heap a = w.arena.heap a :=
    fun q o a mem => others a fun hin =>
      sound.apart q p o a mem (perm.mem_iff.mp hin)
  refine ⟨s', ?_, ⟨fun q => ?_, fun q r o a mem => ?_⟩, fun q a mem => ?_, ?_⟩
  · rw [Arena.resetPool, bind_eq_bind, ran, bind_some, ← result]
  · by_cases eq : q = p
    · subst eq
      dsimp only
      rw [update_self]
      exact pool.relinked (by rw [heapEq]; exact relinked)
        ((reverse_perm _).trans onlyLive) (by rw [heapEq]; exact keptLive) poolSelf mallocs
    · dsimp only
      rw [update_of_ne eq]
      exact (sound.pool q).frame (fun a mem => by rw [heapEq, others' q eq a mem])
        (poolOther q eq) mallocs.ge
  · have pre : ∀ q, ∀ a ∈ w.live q ++ update w.freed p [] q, a ∈ w.live q ++ w.freed q := by
      intro q a mem
      by_cases eq : q = p
      · subst eq
        rw [update_self, append_nil] at mem
        exact mem_append_left _ mem
      · rwa [update_of_ne eq] at mem
    exact fun hin => sound.apart q r o a (pre q a mem) (pre r a hin)
  · rw [heapEq]
    by_cases eq : q = p
    · exact keptLive a (eq ▸ mem)
    · obtain ⟨b, there, -⟩ := (sound.pool q).blocks a (mem_append_left _ mem)
      have still := others' q eq a (mem_append_left _ mem)
      exact ⟨b, b.next, b.nxtfree, there, still.trans there⟩
  · intro a mem
    rw [heapEq]
    exact released a (perm.mem_iff.mpr (mem_append_right _ mem)) (by
      rw [← marked_eq, pool.marks a mem])

theorem poolReset_spec {w : Watched} (sound : Sound w)
    (unmarked : ∀ p, ∀ a ∈ w.live p, w.arena.marked a = false) :
    ∃ s', w.arena.poolReset = some s' ∧ Sound { w with arena := s', freed := fun _ => [] } ∧
      (∀ p, ∀ a ∈ w.live p, Kept w.arena.heap s'.heap a) := by
  suffices each : ∀ ps : List PoolNum, ∃ s', ps.foldlM (fun s p => s.resetPool p) w.arena = some s' ∧
      Sound { w with arena := s', freed := fun p => if p ∈ ps then [] else w.freed p } ∧
      ∀ p, ∀ a ∈ w.live p, Kept w.arena.heap s'.heap a by
    obtain ⟨s', ran, sound', kept⟩ := each poolNums
    simp only [mem_poolNums, if_true] at sound'
    exact ⟨s', ran, sound', kept⟩
  intro ps
  induction ps generalizing w with
  | nil =>
    refine ⟨w.arena, rfl, by simpa using sound, fun p a mem => ?_⟩
    obtain ⟨b, there, -⟩ := (sound.pool p).blocks a (mem_append_left _ mem)
    exact Kept.refl there
  | cons p rest ih =>
    obtain ⟨middle, fst, soundMiddle, keptFirst, -⟩ := resetPool_spec sound p (unmarked p)
    obtain ⟨s', ran, sound', keptLater⟩ := ih soundMiddle fun q a mem => by
      rw [marked_eq, (keptFirst q a mem).marked, ← marked_eq]
      exact unmarked q a mem
    refine ⟨s', ?_, ?_, fun q a mem => (keptFirst q a mem).trans (keptLater q a mem)⟩
    · rw [foldlM_cons, fst]
      exact ran
    · have eq : (fun q => if q ∈ rest then [] else update w.freed p [] q) =
          fun q => if q ∈ p :: rest then [] else w.freed q := by
        funext q
        by_cases here : q = p
        · subst here
          simp
        · simp [here]
      rw [← eq]
      exact sound'

end

/-! ## Runs -/

namespace Watched

/-- Buffers are freed into their pool, with none released since they were freed before; and no live
buffer begins with the mark when it is freed or when the pools are reset. -/
def Unmarked (w : Watched) : Call → Prop
  | .free p buf => buf ∈ w.freed p ∨ (buf ∈ w.live p ∧ w.arena.marked buf = false)
  | .reset => ∀ p, ∀ a ∈ w.live p, w.arena.marked a = false
  | _ => True

instance (w : Watched) : ∀ call, Decidable (w.Possible call)
  | .alloc _ h _ => inferInstanceAs (Decidable (w.arena.heap h = none))
  | .free _ _ => isTrue trivial
  | .reset => isTrue trivial
  | .write buf offset _ =>
    inferInstanceAs (Decidable (∃ p, buf ∈ w.live p ∧ offset < (w.arena.pools p).poolSize))

instance (w : Watched) : ∀ call, Decidable (w.Unmarked call)
  | .alloc _ _ _ => isTrue trivial
  | .free p buf =>
    inferInstanceAs (Decidable (buf ∈ w.freed p ∨ (buf ∈ w.live p ∧ w.arena.marked buf = false)))
  | .reset => inferInstanceAs (Decidable (∀ p, ∀ a ∈ w.live p, w.arena.marked a = false))
  | .write _ _ _ => isTrue trivial

def Fair (w : Watched) (call : Call) : Prop := w.Possible call ∧ w.Unmarked call

instance (w : Watched) (call : Call) : Decidable (w.Fair call) :=
  inferInstanceAs (Decidable (_ ∧ _))

end Watched

structure PoolRight (w : Watched) : Prop where
  alloc : ∀ p h bytes, w.arena.heap h = none →
    ∃ buf s', w.arena.poolAlloc p h bytes = some (buf, s') ∧ (∀ q, buf ∉ w.live q) ∧
      buf = (w.freed p).head?.getD h ∧ ∀ c, c ≠ buf → s'.heap c = w.arena.heap c
  free : ∀ p, ∀ a ∈ w.live p, w.arena.marked a = false →
    ∃ s', w.arena.poolFree p a = some s' ∧ (∀ c, c ≠ a → s'.heap c = w.arena.heap c) ∧
      ∀ h bytes, s'.heap h = none → ∃ s'', s'.poolAlloc p h bytes = some (a, s'')
  again : ∀ p, ∀ a ∈ w.freed p, w.arena.poolFree p a = some w.arena
  reset : (∀ p, ∀ a ∈ w.live p, w.arena.marked a = false) →
    ∃ s', w.arena.poolReset = some s' ∧ ∀ p, ∀ a ∈ w.live p, Kept w.arena.heap s'.heap a
  count : ∀ p, (w.arena.pools p).numAlloc = (w.live p).length

namespace Sound

variable {w : Watched}

variable {p : PoolNum}

section

variable (sound : Sound w)
include sound

theorem of_pool {a : Addr} {s' : Arena} {live freed : List Addr}
    (pool : PoolSound s' p live freed) (elsewhere : Elsewhere w.arena p a s')
    (own : ∀ c ∈ live ++ freed, c = a ∨ c ∈ w.live p ++ w.freed p)
    (away : ∀ q, q ≠ p → a ∉ w.live q ++ w.freed q) :
    Sound { arena := s', live := update w.live p live, freed := update w.freed p freed } := by
  have apart : ∀ q, q ≠ p → ∀ c ∈ live ++ freed, c ∉ w.live q ++ w.freed q := by
    intro q o c mem hin
    rcases own c mem with rfl | pre
    · exact away q o hin
    · exact sound.apart q p o c hin pre
  refine ⟨fun q => ?_, fun q r o c => ?_⟩
  · by_cases eq : q = p
    · subst eq
      dsimp only
      rw [update_self, update_self]
      exact pool
    · dsimp only
      rw [update_of_ne eq, update_of_ne eq]
      refine (sound.pool q).frame (fun c mem => elsewhere.heap c ?_) (elsewhere.pools q eq)
        elsewhere.mallocs
      exact fun equal => away q eq (equal ▸ mem)
  · dsimp only
    by_cases fst : q = p
    · subst fst
      rw [update_self, update_self, update_of_ne o.symm, update_of_ne o.symm]
      exact apart r o.symm c
    · rw [update_of_ne fst, update_of_ne fst]
      by_cases snd : r = p
      · subst snd
        rw [update_self, update_self]
        exact fun mem hin => apart q fst c hin mem
      · rw [update_of_ne snd, update_of_ne snd]
        exact sound.apart q r o c

theorem handed_apart {h : Addr} (fresh : w.arena.heap h = none) :
    (∀ q, (w.freed p).head?.getD h ∉ w.live q) ∧
      ∀ q, q ≠ p → (w.freed p).head?.getD h ∉ w.live q ++ w.freed q := by
  cases free : w.freed p with
  | nil =>
    refine ⟨fun q mem => ?_, fun q _ => (sound.pool q).notMem_of_heap fresh⟩
    exact (sound.pool q).notMem_of_heap fresh (mem_append_left _ mem)
  | cons a rest =>
    have mem : a ∈ w.live p ++ w.freed p := by simp [free]
    have o : ∀ q, q ≠ p → a ∉ w.live q ++ w.freed q := fun q apart =>
      sound.apart p q apart.symm a mem
    refine ⟨fun q hin => ?_, o⟩
    by_cases eq : q = p
    · subst eq
      exact disjoint_of_nodup_append (sound.pool q).nodup hin (by simp [free])
    · exact o q eq (mem_append_left _ hin)

theorem alloc {h : Addr} (fresh : w.arena.heap h = none) (bytes : Bytes) :
    ∃ buf s', w.arena.poolAlloc p h bytes = some (buf, s') ∧
      buf = (w.freed p).head?.getD h ∧ (∀ c, c ≠ buf → s'.heap c = w.arena.heap c) ∧
      Sound
        { arena := s'
          live := update w.live p (buf :: w.live p)
          freed := update w.freed p ((w.freed p).erase buf) } := by
  obtain ⟨buf, s', ran, which, pool, elsewhere⟩ := poolAlloc_spec sound p fresh bytes
  have rest : (w.freed p).erase buf = (w.freed p).tail := by
    rw [which]
    cases w.freed p with
    | nil => rfl
    | cons a rest => simp
  refine ⟨buf, s', ran, which, elsewhere.heap, ?_⟩
  rw [rest]
  refine sound.of_pool pool elsewhere (fun c mem => ?_) ?_
  · rcases mem_append.mp mem with hin | hin
    · exact (mem_cons.mp hin).imp_right (mem_append_left _)
    · exact .inr (mem_append_right _ (mem_of_mem_tail hin))
  · rw [which]
    exact (sound.handed_apart fresh).2

theorem free {a : Addr} (mem : a ∈ w.live p) (unmarked : w.arena.marked a = false) :
    ∃ s', w.arena.poolFree p a = some s' ∧
      (∀ c, c ≠ a → s'.heap c = w.arena.heap c) ∧
      Sound
        { arena := s'
          live := update w.live p ((w.live p).erase a)
          freed := update w.freed p (a :: w.freed p) } := by
  obtain ⟨s', ran, pool, elsewhere⟩ := poolFree_live sound mem unmarked
  refine ⟨s', ran, elsewhere.heap, sound.of_pool pool elsewhere (fun c hin => ?_) ?_⟩
  · rcases mem_append.mp hin with hin | hin
    · exact .inr (mem_append_left _ (mem_of_mem_erase hin))
    · exact (mem_cons.mp hin).imp_right (mem_append_right _)
  · exact fun q o => sound.apart p q o.symm a (mem_append_left _ mem)

theorem write {a : Addr} {b : Block} (mem : a ∈ w.live p)
    (there : w.arena.heap a = some b) {offset : Nat}
    (hin : offset < (w.arena.pools p).poolSize) (byte : UInt8) :
    Sound { w with
      arena := w.arena.setBlock a { b with bytes := update b.bytes offset byte } } := by
  have pool := (sound.pool p).write mem there hin byte
  have kept := sound.of_pool pool (a := a)
    ⟨fun c apart => Arena.setBlock_heap_of_ne apart, fun _ _ => rfl, le_rfl⟩
    (fun c here => .inr here)
    fun q o => sound.apart p q o.symm a (mem_append_left _ mem)
  rwa [Function.update_eq_self, Function.update_eq_self] at kept

theorem right : PoolRight w where
  alloc p h bytes fresh := by
    obtain ⟨buf, s', ran, which, others, -⟩ := sound.alloc (p := p) fresh bytes
    refine ⟨buf, s', ran, ?_, which, others⟩
    rw [which]
    exact (sound.handed_apart fresh).1
  free p a mem unmarked := by
    obtain ⟨s', ran, others, post⟩ := sound.free mem unmarked
    refine ⟨s', ran, others, fun h bytes fresh => ?_⟩
    obtain ⟨buf, s'', allocated, which, -⟩ := post.alloc (p := p) fresh bytes
    dsimp only at allocated which
    rw [update_self] at which
    obtain rfl : buf = a := which
    exact ⟨s'', allocated⟩
  again p a mem := poolFree_freed sound mem
  reset unmarked := by
    obtain ⟨s', ran, -, kept⟩ := poolReset_spec sound unmarked
    exact ⟨s', ran, kept⟩
  count p := (sound.pool p).count

end

theorem init (sizes : Sizes) (paranoidAlloc : Bool) : Sound (Watched.init sizes paranoidAlloc) where
  pool p :=
    { chain := ⟨[], rfl, List.Perm.nil, Nat.zero_le _⟩
      free := rfl
      blocks := fun _ mem => absurd mem not_mem_nil
      marks := fun _ mem => absurd mem not_mem_nil
      count := rfl
      room := sizes.room p }
  apart _ _ _ _ mem := absurd mem not_mem_nil

theorem step (sound : Sound w) {call : Call} (fair : w.Fair call) :
    ∃ w', w.step call = some w' ∧ Sound w' := by
  cases call with
  | alloc p h bytes =>
    obtain ⟨buf, s', ran, -, -, post⟩ := sound.alloc (p := p) fair.1 bytes
    exact ⟨_, by rw [Watched.step, ran]; rfl, post⟩
  | free p buf =>
    rcases fair.2 with freed | ⟨live, unmarked⟩
    · have notLive : buf ∉ w.live p := fun live =>
        disjoint_of_nodup_append (sound.pool p).nodup live freed
      refine ⟨w, ?_, sound⟩
      rw [Watched.step, poolFree_freed sound freed, bind_eq_bind, bind_some,
        if_neg notLive]
    · obtain ⟨s', ran, -, post⟩ := sound.free live unmarked
      refine ⟨_, ?_, post⟩
      rw [Watched.step, ran, bind_eq_bind, bind_some, if_pos live]
  | reset =>
    obtain ⟨s', ran, post, -⟩ := poolReset_spec sound fair.2
    exact ⟨_, by rw [Watched.step, ran]; rfl, post⟩
  | write buf offset byte =>
    obtain ⟨p, mem, hin⟩ := fair.1
    obtain ⟨b, there, -⟩ := (sound.pool p).blocks buf (mem_append_left _ mem)
    exact ⟨_, by rw [Watched.step, there]; rfl, sound.write mem there hin byte⟩

end Sound

/-- A run of such calls does not crash, and in every state it reaches the calls do what they
should. -/
theorem pool_sound (sizes : Sizes) (paranoidAlloc : Bool) (calls : List Call)
    (fair : Machine.Guarded Watched.step Watched.Fair (Watched.init sizes paranoidAlloc) calls) :
    ∃ w, Machine.run Watched.step (Watched.init sizes paranoidAlloc) calls = some w ∧
      PoolRight w := by
  have preserved : ∀ w call, Sound w → w.Fair call → ∃ w', w.step call = some w' ∧ Sound w' :=
    fun w call sound fair => sound.step fair
  obtain ⟨w, ran, sound⟩ :=
    Machine.guarded_invariant preserved (Sound.init sizes paranoidAlloc) fair
  exact ⟨w, ran, sound.right⟩

def typical : Sizes where
  size
    | .sbuf => 64
    | .mbuf => 400
    | .lbuf => 8000
    | .bool => 24
    | .desc => 400
    | .qentry => 136
    | .pcache => 32
  room := by
    intro p
    cases p <;> decide

def ordinary : List Call :=
  [.alloc .lbuf 1 fun _ => 0, .write 1 0 7, .alloc .lbuf 2 fun _ => 0, .free .lbuf 1,
    .free .lbuf 1, .alloc .lbuf 3 fun _ => 0, .free .lbuf 2, .reset]

theorem pool_sound_ordinary :
    ∃ w, Machine.run Watched.step (Watched.init typical true) ordinary = some w ∧ PoolRight w :=
  pool_sound typical true ordinary (by decide)

def overwritten : List Call :=
  [.alloc .lbuf 1 fun _ => 0, .write 1 0 0xef, .write 1 1 0xbe, .write 1 2 0xad, .write 1 3 0xde]

/-- It cannot be freed and stays counted; a reset releases it while it is live, and its place is
given out a second time. -/
theorem overwritten_lost :
    Machine.Guarded Watched.step Watched.Possible (Watched.init typical false)
      (overwritten ++ [.reset, .alloc .lbuf 1 fun _ => 0]) ∧
    ((Machine.run Watched.step (Watched.init typical false)
        (overwritten ++ [.free .lbuf 1])).map fun w =>
      (w.live .lbuf, (w.arena.pools .lbuf).numAlloc, (w.arena.pools .lbuf).freeHead)) =
        some ([], 1, none) ∧
    ((Machine.run Watched.step (Watched.init typical false)
        (overwritten ++ [.reset])).map fun w =>
      (w.live .lbuf, (w.arena.heap 1).isNone)) = some ([1], true) ∧
    ((Machine.run Watched.step (Watched.init typical false)
        (overwritten ++ [.reset, .alloc .lbuf 1 fun _ => 0])).map fun w =>
      w.live .lbuf) = some [1, 1] := by
  decide

end BattletechMux.Pools
