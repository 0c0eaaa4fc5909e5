/-
Module: BattletechMux.Mines.ChainReactions
Purpose: When what a cause sets off reads no free node, ends, makes each mine explode once and
  removes the mines it should: when the mines that are removed are alone in their hexes, are not
  saved by a call under way, and no mine is set off again.
-/
import BattletechMux.Mines.Explosions

namespace BattletechMux.Mines

open List hiding all_eq_true filter_filter
open Option hiding all all_eq_true filter filter_filter

open Function (update)
open LinkedMemory

variable {limit : Nat} {heap : Heap} {mines frees : List Cell} {mine : Cell → Mine}

/-! ## Lists -/

/-- The mines of a map are on one list and the free nodes on another. -/
structure Lists (heap : Heap) (mines frees : List Cell) : Prop where
  mined : Chain heap.next heap.head mines
  freed : Chain heap.next heap.free frees
  apart : ∀ cell ∈ mines, cell ∉ frees

theorem delMapobj_lists {pre post : List Cell} {foo : Cell}
    (lists : Lists heap (pre ++ foo :: post) frees) (hlt : pre.length ≤ limit) :
    Lists (delMapobj limit heap foo) (pre ++ post) (foo :: frees) ∧
      ∀ cell, cell ∉ pre → cell ≠ foo →
        (delMapobj limit heap foo).next cell = heap.next cell := by
  have nodup := lists.mined.nodup
  let list : SingleList Cell := ⟨heap.head, heap.next⟩
  have chained : Chain list.next list.head (pre ++ foo :: post) := lists.mined
  obtain ⟨removed, ran, chain, eq⟩ := SingleList.remove_spec chained hlt
  have fresh : foo ∉ pre ++ post := by
    rw [nodup_middle, nodup_cons] at nodup
    exact nodup.1
  unfold delMapobj
  rw [ran]
  dsimp only
  refine ⟨⟨chain.update_of_notMem fresh, ⟨rfl, ?_⟩, fun cell mem => ?_⟩,
    fun cell outside o => ?_⟩
  · change Chain (update removed.next foo heap.free) (update removed.next foo heap.free foo) frees
    rw [Function.update_self]
    have freed : Chain removed.next heap.free frees := lists.freed.congr fun cell mem =>
      eq cell fun here => lists.apart cell (mem_append_left _ here) mem
    exact freed.update_of_notMem fun mem => lists.apart foo (by simp) mem
  · rw [mem_cons, not_or]
    refine ⟨fun eq => fresh (eq ▸ mem), lists.apart cell ?_⟩
    rw [mem_append] at mem ⊢
    exact mem.imp_right (mem_cons_of_mem foo)
  · change update removed.next foo heap.free cell = heap.next cell
    rw [Function.update_of_ne o, eq cell outside]

def here (mine : Cell → Mine) (x y : Int) (cell : Cell) : Bool :=
  decide ((mine cell).x = x ∧ (mine cell).y = y)

theorem mapobjDel_rest (x y : Int) {kept rest : List Cell} {nodes : Nat}
    (lists : Lists heap (kept ++ rest) frees) (hlt : kept.length + rest.length ≤ limit)
    (many : rest.length ≤ nodes) :
    ∃ heap', mapobjDel limit mine x y nodes heap rest.head? = some heap' ∧
      Lists heap' (kept ++ rest.filter fun cell => !here mine x y cell)
        ((rest.filter (here mine x y)).reverse ++ frees) := by
  induction rest generalizing kept nodes heap frees with
  | nil =>
    refine ⟨heap, ?_, by simpa using lists⟩
    cases nodes <;> rfl
  | cons foo rest ih =>
    cases nodes with
    | zero => exact absurd many (by simp)
    | succ nodes =>
      have foo2 : heap.next foo = rest.head? := (lists.mined.next_eq_head).head_eq
      rw [head?_cons, mapobjDel]
      rw [foo2]
      have split : kept.length + (rest.length + 1) ≤ limit := hlt
      by_cases gone : (mine foo).x = x ∧ (mine foo).y = y
      · obtain ⟨deleted, -⟩ := delMapobj_lists lists (by omega : kept.length ≤ limit)
        obtain ⟨heap', ran, lists'⟩ := ih deleted (by omega)
          (Nat.le_of_succ_le_succ many)
        refine ⟨heap', ?_, ?_⟩
        · rw [if_pos gone]
          exact ran
        · have isHere : here mine x y foo = true := decide_eq_true gone
          rw [filter_cons_of_neg (by simp [isHere]), filter_cons_of_pos isHere,
            reverse_cons, append_assoc]
          exact lists'
      · have split' : kept ++ foo :: rest = (kept ++ [foo]) ++ rest := by simp
        rw [split'] at lists
        obtain ⟨heap', ran, lists'⟩ := ih lists
          (by rw [length_append, length_singleton]; omega)
          (Nat.le_of_succ_le_succ many)
        refine ⟨heap', ?_, ?_⟩
        · rw [if_neg gone]
          exact ran
        · have notHere : here mine x y foo = false := decide_eq_false gone
          rw [filter_cons_of_pos (by simp [notHere]),
            filter_cons_of_neg (by simp [notHere])]
          simpa using lists'

theorem mapobjDel_lists (mine : Cell → Mine) (x y : Int) (lists : Lists heap mines frees)
    (hlt : mines.length ≤ limit) :
    ∃ heap', mapobjDel limit mine x y limit heap heap.head = some heap' ∧
      Lists heap' (mines.filter fun cell => !here mine x y cell)
        ((mines.filter (here mine x y)).reverse ++ frees) := by
  have whole : Lists heap ([] ++ mines) frees := lists
  obtain ⟨heap', ran, lists'⟩ := mapobjDel_rest x y whole (by simpa using hlt) hlt
  rw [← lists.mined.head_eq] at ran
  exact ⟨heap', ran, lists'⟩

/-! ## What calls hold -/

def Frame.saved : Frame → Option Cell
  | .start _ => none
  | .walk _ o => o
  | .after _ _ _ o2 => o2

def Frame.doomed : Frame → Option Cell
  | .after _ o true _ => some o
  | _ => none

def State.pending (s : State) : List Cell := s.stack.filterMap Frame.doomed

def State.causesOf (farther : Int × Int → Int × Int → Int → Bool) (s : State) (o : Cell) : Nat :=
  s.causes.countP fun cause => decide (cause.fate farther (s.mine o) = .explode)

/-- No two causes set off a mine that is on the list, and a mine whose hex is cleared is alone in
it, and no other call under way goes on with it. -/
structure Settled (farther : Int × Int → Int × Int → Int → Bool) (s : State) : Prop where
  single : ∀ mines, Chain s.heap.next s.heap.head mines → ∀ o ∈ mines, s.causesOf farther o ≤ 1
  alone : ∀ cause o o2 rest, s.stack = .after cause o true o2 :: rest →
    ∀ mines, Chain s.heap.next s.heap.head mines → ∀ cell ∈ mines,
      here s.mine (s.mine o).x (s.mine o).y cell = true → cell = o
  unsaved : ∀ cause o o2 rest, s.stack = .after cause o true o2 :: rest →
    ∀ frame ∈ rest, frame.saved ≠ some o

def Frame.cause : Frame → Cause
  | .start cause | .walk cause _ | .after cause _ _ _ => cause

def distance (initial : List Cell) : Option Cell → Nat
  | none => 0
  | some o => initial.length - initial.idxOf o

def Frame.comesTo (initial : List Cell) (o : Cell) : Frame → Bool
  | .start _ => true
  | .walk _ o2 | .after _ _ _ o2 => decide (distance initial (some o) ≤ distance initial o2)

def Frame.setsOff (farther : Int × Int → Int × Int → Int → Bool) (mine : Cell → Mine)
    (initial : List Cell) (o : Cell) (frame : Frame) : Bool :=
  frame.comesTo initial o && decide (frame.cause.fate farther (mine o) = .explode)

/-- The mines left on the list are those that were there but for what was removed, no mine has
exploded twice, and calls go on with mines on the list; an explosion, or one that may still be, has
a cause of its own. -/
structure Sound (farther : Int × Int → Int × Int → Int → Bool) (initial : List Cell) (s : State)
    (mines frees : List Cell) : Prop where
  lists : Lists s.heap mines frees
  left : mines = initial.filter fun cell => decide (cell ∈ s.condemned → cell ∈ s.pending)
  once : s.exploded.Nodup
  known : ∀ cell ∈ s.exploded, cell ∈ initial
  went : ∀ cell ∈ s.condemned, cell ∈ s.exploded
  oncePending : s.pending.Nodup
  waiting : ∀ cell ∈ s.pending, cell ∈ s.condemned
  saved : ∀ frame ∈ s.stack, ∀ cell, frame.saved = some cell → cell ∈ mines
  ahead : ∀ frame ∈ s.stack, ∀ cell, frame.doomed = some cell → frame.saved ≠ some cell
  accounted : ∀ o ∈ mines,
    s.exploded.count o + s.stack.countP (Frame.setsOff farther s.mine initial o) ≤
      s.causesOf farther o

variable {farther : Int × Int → Int × Int → Int → Bool} {initial : List Cell} {s s' : State}

variable {cell : Cell}

theorem Sound.pending_mem (sound : Sound farther initial s mines frees) (mem : cell ∈ s.pending) :
    cell ∈ mines := by
  rw [sound.left, mem_filter]
  exact ⟨sound.known cell (sound.went cell (sound.waiting cell mem)),
    decide_eq_true fun _ => mem⟩

theorem Sound.reads_mem (sound : Sound farther initial s mines frees) (read : cell ∈ s.reads) :
    cell ∈ mines := by
  unfold State.reads at read
  split at read
  · next cause o rest top =>
    obtain rfl := mem_singleton.mp read
    exact sound.saved (.walk cause (some cell)) (by rw [top]; exact mem_cons_self) cell rfl
  · next cause o o2 rest top =>
    obtain rfl := mem_singleton.mp read
    refine sound.pending_mem ?_
    unfold State.pending
    rw [top, mem_filterMap]
    exact ⟨_, mem_cons_self, rfl⟩
  · exact absurd read (by simp)

/-! ## Steps -/

def Frame.cost (initial : List Cell) : Frame → Nat
  | .start _ => initial.length + 2
  | .walk _ o => distance initial o + 1
  | .after _ _ _ o2 => distance initial o2 + 2

def State.cost (initial : List Cell) (s : State) : Nat := (s.stack.map (Frame.cost initial)).sum

theorem idxOf_lt_of_sublist {l : List Cell} (nodup : l.Nodup) {a b : Cell}
    (inOrder : [a, b].Sublist l) : l.idxOf a < l.idxOf b := by
  have sorted : l.Pairwise fun a b => l.idxOf a < l.idxOf b := by
    rw [pairwise_iff_getElem]
    intro i j inI inJ less
    rwa [nodup.idxOf_getElem, nodup.idxOf_getElem]
  exact rel_of_pairwise_cons (sorted.sublist inOrder) (mem_singleton.mpr rfl)

variable {o : Cell}

theorem distance_next (nodup : initial.Nodup) (part : mines.Sublist initial)
    (chain : Chain heap.next heap.head mines) (mem : o ∈ mines) :
    distance initial (heap.next o) < distance initial (some o) := by
  obtain ⟨pre, post, rfl⟩ := append_of_mem mem
  have next := chain.next_eq_head.head_eq
  have hin := idxOf_lt_length_of_mem (part.subset mem)
  rw [next]
  cases post with
  | nil => exact Nat.sub_pos_of_lt hin
  | cons o2 post =>
    have two : [o, o2].Sublist initial := by
      refine List.Sublist.trans ?_ part
      exact List.Sublist.trans (by simp) (sublist_append_right pre _)
    have later := idxOf_lt_of_sublist nodup two
    unfold distance
    dsimp only [head?_cons]
    omega

theorem next_mem (chain : Chain heap.next heap.head mines) {o cell : Cell} (mem : o ∈ mines)
    (next : heap.next o = some cell) : cell ∈ mines := by
  obtain ⟨pre, post, rfl⟩ := append_of_mem mem
  have fst := chain.next_eq_head.head_eq
  rw [next] at fst
  exact mem_append_right _ (mem_cons_of_mem _ (mem_of_mem_head? fst.symm))

theorem head_mem (chain : Chain heap.next heap.head mines) (head : heap.head = some cell) :
    cell ∈ mines := by
  have fst := chain.head_eq
  rw [head] at fst
  exact mem_of_mem_head? fst.symm

theorem Sound.restack (sound : Sound farther initial s mines frees) {stack : List Frame}
    (eq : stack.filterMap Frame.doomed = s.pending)
    (saved : ∀ frame ∈ stack, ∀ cell, frame.saved = some cell → cell ∈ mines)
    (ahead : ∀ frame ∈ stack, ∀ cell, frame.doomed = some cell → frame.saved ≠ some cell)
    (fewer : ∀ o ∈ mines, stack.countP (Frame.setsOff farther s.mine initial o) ≤
      s.stack.countP (Frame.setsOff farther s.mine initial o)) :
    Sound farther initial { s with stack := stack } mines frees where
  lists := sound.lists
  left := by
    change mines = initial.filter fun cell =>
      decide (cell ∈ s.condemned → cell ∈ stack.filterMap Frame.doomed)
    rw [eq]
    exact sound.left
  once := sound.once
  known := sound.known
  went := sound.went
  oncePending := by
    change (stack.filterMap Frame.doomed).Nodup
    rw [eq]
    exact sound.oncePending
  waiting := by
    change ∀ cell ∈ stack.filterMap Frame.doomed, cell ∈ s.condemned
    rw [eq]
    exact sound.waiting
  saved := saved
  ahead := ahead
  accounted o mem :=
    Nat.le_trans (Nat.add_le_add_left (fewer o mem) _) (sound.accounted o mem)

theorem countP_top_le (p : Frame → Bool) (top top' : Frame) (less : p top' = true → p top = true)
    (rest : List Frame) : (top' :: rest).countP p ≤ (top :: rest).countP p := by
  rw [countP_cons, countP_cons]
  refine Nat.add_le_add_left ?_ _
  by_cases counts : p top' = true
  · rw [if_pos counts, if_pos (less counts)]
  · rw [if_neg counts]
    exact Nat.zero_le _

variable {rest : List Frame}

theorem Sound.walkOn (sound : Sound farther initial s mines frees) (top : Frame)
    (stack : s.stack = top :: rest) (idle : top.doomed = none) {o : Option Cell}
    (hin : ∀ cell, o = some cell → cell ∈ mines)
    (onward : ∀ cell ∈ mines, (Frame.walk top.cause o).comesTo initial cell = true →
      top.comesTo initial cell = true) :
    Sound farther initial { s with stack := .walk top.cause o :: rest } mines frees := by
  refine sound.restack ?_ ?_ ?_ ?_
  · unfold State.pending
    rw [stack, filterMap_cons_none rfl, filterMap_cons_none idle]
  · intro frame mem cell held
    rcases mem_cons.mp mem with rfl | mem
    · exact hin cell held
    · exact sound.saved frame (by rw [stack]; exact mem_cons_of_mem _ mem) cell held
  · intro frame mem cell doomed
    rcases mem_cons.mp mem with rfl | mem
    · exact absurd doomed (by simp [Frame.doomed])
    · exact sound.ahead frame (by rw [stack]; exact mem_cons_of_mem _ mem) cell doomed
  · intro cell mem
    rw [stack]
    refine countP_top_le _ _ _ (fun sets => ?_) rest
    unfold Frame.setsOff at sets ⊢
    rw [Bool.and_eq_true] at sets ⊢
    exact ⟨onward cell mem sets.1, sets.2⟩

theorem Sound.pop (sound : Sound farther initial s mines frees) {top : Frame}
    (stack : s.stack = top :: rest) (idle : top.doomed = none) :
    Sound farther initial { s with stack := rest } mines frees := by
  refine sound.restack ?_ ?_ ?_ ?_
  · unfold State.pending
    rw [stack, filterMap_cons_none idle]
  · intro frame mem
    exact sound.saved frame (by rw [stack]; exact mem_cons_of_mem _ mem)
  · intro frame mem
    exact sound.ahead frame (by rw [stack]; exact mem_cons_of_mem _ mem)
  · intro cell mem
    rw [stack, countP_cons]
    exact Nat.le_add_right _ _

theorem fate_updateMine (cause : Cause) (o : Mine) :
    cause.fate farther (updateMine o) = cause.fate farther o := by
  have eq : ∃ datas, updateMine o = { o with datas := datas } := by
    unfold updateMine
    dsimp only
    split
    · split
      · exact ⟨_, rfl⟩
      · exact ⟨_, rfl⟩
    · exact ⟨_, rfl⟩
  obtain ⟨datas, eq⟩ := eq
  rw [eq]
  cases cause <;> rfl

theorem fate_update (cause : Cause) (mine : Cell → Mine) (o cell : Cell) :
    cause.fate farther (update mine o (updateMine (mine o)) cell) =
      cause.fate farther (mine cell) := by
  by_cases eq : cell = o
  · rw [eq, Function.update_self, fate_updateMine]
  · rw [Function.update_of_ne eq]

variable {cause : Cause}

theorem Sound.fresh (sound : Sound farther initial s mines frees) (settled : Settled farther s)
    (stack : s.stack = .walk cause (some o) :: rest)
    (explodes : cause.fate farther (s.mine o) = .explode) : o ∉ s.exploded := by
  have hin : o ∈ mines :=
    sound.saved (.walk cause (some o)) (by rw [stack]; exact mem_cons_self) o rfl
  have accounted := sound.accounted o hin
  have single := settled.single mines sound.lists.mined o hin
  have sets : Frame.setsOff farther s.mine initial o (.walk cause (some o)) = true := by
    unfold Frame.setsOff
    rw [Bool.and_eq_true]
    exact ⟨decide_eq_true (Nat.le_refl _), decide_eq_true explodes⟩
  rw [stack, countP_cons_of_pos sets] at accounted
  exact count_eq_zero.mp (by omega)

theorem countP_start (mine : Cell → Mine) (cell : Cell) (hurt : List Cause) :
    (hurt.map Frame.start).countP (Frame.setsOff farther mine initial cell) =
      hurt.countP fun cause => decide (cause.fate farther (mine cell) = .explode) := by
  rw [countP_map]
  refine countP_congr fun cause _ => ?_
  unfold Function.comp Frame.setsOff Frame.comesTo Frame.cause
  rw [Bool.true_and]

section

variable (sound : Sound farther initial s mines frees)
  (stack : s.stack = .walk cause (some o) :: rest)
  (explodes : cause.fate farther (s.mine o) = .explode)
include sound stack explodes

theorem Sound.explode_accounted (nodup : initial.Nodup)
    (goes : Bool) (hurt : List Cause) (mem : cell ∈ mines) :
    (o :: s.exploded).count cell +
        (hurt.map Frame.start ++ Frame.after cause o goes (s.heap.next o) :: rest).countP
          (Frame.setsOff farther s.mine initial cell) ≤
      (hurt ++ s.causes).countP fun cause => decide (cause.fate farther (s.mine cell) = .explode) := by
  have hin : o ∈ mines :=
    sound.saved (.walk cause (some o)) (by rw [stack]; exact mem_cons_self) o rfl
  have part : mines.Sublist initial := by
    rw [sound.left]
    exact filter_sublist
  have nearer := distance_next nodup part sound.lists.mined hin
  have accounted := sound.accounted cell mem
  unfold State.causesOf at accounted
  rw [stack] at accounted
  rw [countP_append, countP_append, countP_start]
  by_cases eq : cell = o
  · subst eq
    have sets : Frame.setsOff farther s.mine initial cell (.walk cause (some cell)) = true := by
      unfold Frame.setsOff
      rw [Bool.and_eq_true]
      exact ⟨decide_eq_true (Nat.le_refl _), decide_eq_true explodes⟩
    have past : ¬Frame.setsOff farther s.mine initial cell
        (.after cause cell goes (s.heap.next cell)) = true := by
      unfold Frame.setsOff
      rw [Bool.and_eq_true]
      exact fun both => Nat.not_le_of_lt nearer (of_decide_eq_true both.1)
    rw [countP_cons_of_pos sets] at accounted
    rw [countP_cons_of_neg past, count_cons_self]
    omega
  · have fewer := countP_top_le (Frame.setsOff farther s.mine initial cell)
      (.walk cause (some o)) (.after cause o goes (s.heap.next o)) (fun sets => ?_) rest
    · rw [count_cons_of_ne (Ne.symm eq)]
      omega
    · unfold Frame.setsOff at sets ⊢
      rw [Bool.and_eq_true] at sets ⊢
      exact ⟨decide_eq_true (Nat.le_trans (of_decide_eq_true sets.1) (Nat.le_of_lt nearer)), sets.2⟩

theorem Sound.explode (nodup : initial.Nodup)
    (fresh : o ∉ s.exploded) (goes : Bool) (hurt : List Cause) :
    Sound farther initial
      { s with
        mine := update s.mine o (updateMine (s.mine o))
        stack := hurt.map .start ++ .after cause o goes (s.heap.next o) :: rest
        causes := hurt ++ s.causes
        exploded := o :: s.exploded
        condemned := if goes then o :: s.condemned else s.condemned } mines frees := by
  have hin : o ∈ mines :=
    sound.saved (.walk cause (some o)) (by rw [stack]; exact mem_cons_self) o rfl
  have listed : o ∈ initial := by
    rw [sound.left] at hin
    exact (mem_filter.mp hin).1
  have starts : (hurt.map Frame.start).filterMap Frame.doomed = [] := by
    rw [filterMap_eq_nil_iff]
    intro frame mem
    obtain ⟨cause, -, rfl⟩ := mem_map.mp mem
    rfl
  have below : rest.filterMap Frame.doomed = s.pending := by
    unfold State.pending
    rw [stack, filterMap_cons_none rfl]
  have notNext : s.heap.next o ≠ some o := by
    intro itself
    have nearer := distance_next sound.lists.mined.nodup (List.Sublist.refl mines)
      sound.lists.mined hin
    rw [itself] at nearer
    exact Nat.lt_irrefl _ nearer
  have unpending : o ∉ s.pending := fun mem => fresh (sound.went o (sound.waiting o mem))
  have pending : (hurt.map Frame.start ++ Frame.after cause o goes (s.heap.next o) :: rest).filterMap
      Frame.doomed = if goes then o :: s.pending else s.pending := by
    rw [filterMap_append, starts, nil_append, ← below]
    cases goes <;> rfl
  have frames : ∀ frame ∈ hurt.map Frame.start ++ Frame.after cause o goes (s.heap.next o) :: rest,
      (frame.saved = none ∧ frame.doomed = none) ∨
        frame = .after cause o goes (s.heap.next o) ∨ frame ∈ s.stack := by
    intro frame mem
    rcases mem_append.mp mem with start | mem
    · obtain ⟨cause, -, rfl⟩ := mem_map.mp start
      exact .inl ⟨rfl, rfl⟩
    · rcases mem_cons.mp mem with top | mem
      · exact .inr (.inl top)
      · exact .inr (.inr (by rw [stack]; exact mem_cons_of_mem _ mem))
  refine ⟨sound.lists, ?_, nodup_cons.mpr ⟨fresh, sound.once⟩, ?_, ?_, ?_, ?_, ?_, ?_, ?_⟩
  · unfold State.pending
    dsimp only
    rw [pending, sound.left]
    refine filter_congr fun cell _ => decide_eq_decide.mpr ?_
    cases goes with
    | false => exact Iff.rfl
    | true =>
      simp only [if_true, mem_cons]
      by_cases eq : cell = o
      · have quiet : cell ∉ s.condemned := fun mem => fresh (eq ▸ sound.went cell mem)
        exact ⟨fun _ _ => .inl eq, fun _ mem => absurd mem quiet⟩
      · simp only [eq, false_or]
  · exact forall_mem_cons.mpr ⟨listed, sound.known⟩
  · intro cell mem
    cases goes with
    | false => exact mem_cons_of_mem _ (sound.went cell mem)
    | true =>
      rcases mem_cons.mp mem with rfl | mem
      · exact mem_cons_self
      · exact mem_cons_of_mem _ (sound.went cell mem)
  · unfold State.pending
    dsimp only
    rw [pending]
    cases goes with
    | false => exact sound.oncePending
    | true => exact nodup_cons.mpr ⟨unpending, sound.oncePending⟩
  · unfold State.pending
    dsimp only
    rw [pending]
    cases goes with
    | false => exact sound.waiting
    | true =>
      intro cell mem
      rcases mem_cons.mp mem with rfl | mem
      · exact mem_cons_self
      · exact mem_cons_of_mem _ (sound.waiting cell mem)
  · intro frame mem cell held
    rcases frames frame mem with ⟨nothing, -⟩ | rfl | old
    · exact absurd (nothing.symm.trans held) (by simp)
    · exact next_mem sound.lists.mined hin held
    · exact sound.saved frame old cell held
  · intro frame mem cell doomed
    rcases frames frame mem with ⟨-, nothing⟩ | rfl | old
    · exact absurd (nothing.symm.trans doomed) (by simp)
    · cases goes with
      | false => exact absurd doomed (by simp [Frame.doomed])
      | true =>
        obtain rfl := some.inj doomed
        exact notNext
    · exact sound.ahead frame old cell doomed
  · intro cell mem
    have accounted := sound.explode_accounted stack explodes nodup goes hurt mem
    unfold State.causesOf
    dsimp only
    simp only [fate_update]
    have eq : Frame.setsOff farther (update s.mine o (updateMine (s.mine o))) initial cell =
        Frame.setsOff farther s.mine initial cell := by
      funext frame
      unfold Frame.setsOff
      rw [fate_update]
    rw [eq]
    exact accounted

end

theorem Sound.remove (sound : Sound farther initial s mines frees)
    {o2 : Option Cell} (stack : s.stack = .after cause o true o2 :: rest)
    (hlt : initial.length ≤ limit)
    (alone : ∀ cell ∈ mines, here s.mine (s.mine o).x (s.mine o).y cell = true → cell = o)
    (unsaved : ∀ frame ∈ rest, frame.saved ≠ some o) :
    ∃ heap mines' frees',
      mapobjDel limit s.mine (s.mine o).x (s.mine o).y limit s.heap s.heap.head = some heap ∧
        Sound farther initial { s with heap := heap, stack := .walk cause o2 :: rest } mines' frees' := by
  have pending : s.pending = o :: rest.filterMap Frame.doomed := by
    unfold State.pending
    rw [stack]
    rfl
  have nodup := sound.oncePending
  rw [pending, nodup_cons] at nodup
  have short : mines.length ≤ initial.length := by
    rw [sound.left]
    exact length_filter_le _ _
  obtain ⟨heap, ran, lists⟩ := mapobjDel_lists s.mine (s.mine o).x (s.mine o).y
    sound.lists (Nat.le_trans short hlt)
  have others : ∀ cell ∈ mines, here s.mine (s.mine o).x (s.mine o).y cell = decide (cell = o) := by
    intro cell mem
    refine Bool.eq_iff_iff.mpr ⟨fun eq => decide_eq_true (alone cell mem eq), fun eq => ?_⟩
    rw [of_decide_eq_true eq]
    exact decide_eq_true ⟨rfl, rfl⟩
  have stays : ∀ cell ∈ mines, cell ≠ o →
      cell ∈ mines.filter fun cell => !here s.mine (s.mine o).x (s.mine o).y cell := by
    intro cell mem other
    rw [mem_filter, others cell mem]
    exact ⟨mem, by simp [other]⟩
  refine ⟨heap, _, _, ran, lists, ?_, sound.once, sound.known, sound.went, nodup.2, ?_, ?_, ?_, ?_⟩
  · change mines.filter _ = initial.filter fun cell =>
      decide (cell ∈ s.condemned → cell ∈ rest.filterMap Frame.doomed)
    rw [filter_congr fun cell mem => congrArg not (others cell mem), sound.left,
      List.filter_filter, pending]
    refine filter_congr fun cell _ => ?_
    by_cases eq : cell = o
    · subst eq
      have condemned : cell ∈ s.condemned := sound.waiting cell (by
        rw [pending]
        exact mem_cons_self)
      simp [condemned, nodup.1]
    · simp [eq]
  · intro cell mem
    refine sound.waiting cell ?_
    rw [pending]
    exact mem_cons_of_mem _ mem
  · intro frame mem cell held
    rcases mem_cons.mp mem with rfl | mem
    · have top : Frame.after cause o true o2 ∈ s.stack := by
        rw [stack]
        exact mem_cons_self
      refine stays cell (sound.saved _ top cell held) ?_
      rintro rfl
      exact sound.ahead _ top cell rfl held
    · refine stays cell (sound.saved frame (by rw [stack]; exact mem_cons_of_mem _ mem)
        cell held) ?_
      rintro rfl
      exact unsaved frame mem held
  · intro frame mem cell doomed
    rcases mem_cons.mp mem with rfl | mem
    · exact absurd doomed (by simp [Frame.doomed])
    · exact sound.ahead frame (by rw [stack]; exact mem_cons_of_mem _ mem) cell doomed
  · intro cell mem
    have accounted := sound.accounted cell (mem_filter.mp mem).1
    rw [stack] at accounted
    refine Nat.le_trans (Nat.add_le_add_left (countP_top_le _ _ _ ?_ rest) _) accounted
    exact id

theorem distance_le (o : Option Cell) : distance initial o ≤ initial.length := by
  cases o with
  | none => exact Nat.zero_le _
  | some o => exact Nat.sub_le _ _

theorem cost_less {top top' : Frame} (stack : s.stack = top :: rest)
    (stack' : s'.stack = top' :: rest) (less : top'.cost initial < top.cost initial) :
    s'.cost initial < s.cost initial := by
  unfold State.cost
  rw [stack, stack', map_cons, map_cons, sum_cons, sum_cons]
  exact Nat.add_lt_add_right less _

theorem cost_pop {top : Frame} (stack : s.stack = top :: rest)
    (stack' : s'.stack = rest) (some : 0 < top.cost initial) :
    s'.cost initial < s.cost initial := by
  unfold State.cost
  rw [stack, stack', map_cons, sum_cons]
  exact Nat.lt_add_of_pos_left some

theorem Sound.step (sound : Sound farther initial s mines frees) (settled : Settled farther s)
    (nodup : initial.Nodup) (enough : initial.length ≤ limit) (busy : s.stack ≠ [])
    (hurt : List Cause) :
    ∃ s' mines' frees', s.step farther limit hurt = some s' ∧
      Sound farther initial s' mines' frees' ∧
        (s'.exploded.length = s.exploded.length ∧ s'.cost initial < s.cost initial ∨
          s'.exploded.length = s.exploded.length + 1) := by
  have part : mines.Sublist initial := by
    rw [sound.left]
    exact filter_sublist
  unfold State.step
  cases stack : s.stack with
  | nil => exact absurd stack busy
  | cons top rest =>
    have held : ∀ cell, top.saved = some cell → cell ∈ mines :=
      sound.saved top (by rw [stack]; exact mem_cons_self)
    cases top with
    | start cause =>
      refine ⟨_, _, _, rfl, sound.walkOn (.start cause) stack rfl
        (fun cell => head_mem sound.lists.mined) fun _ _ _ => rfl, .inl ⟨rfl, ?_⟩⟩
      exact cost_less stack rfl (Nat.lt_succ_of_le (Nat.succ_le_succ (distance_le _)))
    | walk cause o =>
      cases o with
      | none =>
        refine ⟨_, _, _, rfl, sound.pop stack rfl, .inl ⟨rfl, ?_⟩⟩
        exact cost_pop stack rfl (Nat.succ_pos _)
      | some o =>
        have inside : o ∈ mines := held o rfl
        have nearer := distance_next nodup part sound.lists.mined inside
        dsimp only
        cases fate : cause.fate farther (s.mine o) with
        | pass =>
          refine ⟨_, _, _, rfl, sound.walkOn (.walk cause (some o)) stack rfl
            (fun cell => next_mem sound.lists.mined inside) fun _ _ comes => ?_,
            .inl ⟨rfl, ?_⟩⟩
          · exact decide_eq_true (Nat.le_trans (of_decide_eq_true comes) (Nat.le_of_lt nearer))
          · exact cost_less stack rfl (Nat.succ_lt_succ nearer)
        | stop =>
          refine ⟨_, _, _, rfl, sound.pop stack rfl, .inl ⟨rfl, ?_⟩⟩
          exact cost_pop stack rfl (Nat.succ_pos _)
        | explode =>
          exact ⟨_, _, _, rfl, sound.explode stack fate nodup
            (sound.fresh settled stack fate) _ hurt, .inr rfl⟩
    | after cause o goes o2 =>
      dsimp only
      cases goes with
      | false =>
        refine ⟨_, _, _, rfl, sound.walkOn (.after cause o false o2) stack rfl held
          fun _ _ => id, .inl ⟨rfl, ?_⟩⟩
        exact cost_less stack rfl (Nat.lt_succ_self _)
      | true =>
        obtain ⟨heap, mines', frees', ran, sound'⟩ := sound.remove stack enough
          (settled.alone cause o o2 rest stack mines sound.lists.mined)
          (settled.unsaved cause o o2 rest stack)
        rw [if_pos rfl, ran]
        refine ⟨_, mines', frees', rfl, sound', .inl ⟨rfl, ?_⟩⟩
        exact cost_less stack rfl (Nat.lt_succ_self _)

/-! ## Reactions -/

theorem Sound.begin (lists : Lists heap mines frees) (mine : Cell → Mine) (cause : Cause) :
    Sound farther mines (State.begin mine heap cause) mines frees where
  lists := lists
  left := (filter_eq_self.mpr fun _ _ => rfl).symm
  once := nodup_nil
  known cell mem := absurd mem not_mem_nil
  went cell mem := absurd mem not_mem_nil
  oncePending := nodup_nil
  waiting cell mem := absurd mem not_mem_nil
  saved frame mem cell held := by
    obtain rfl := mem_singleton.mp mem
    exact absurd held (by simp [Frame.saved])
  ahead frame mem cell doomed := by
    obtain rfl := mem_singleton.mp mem
    exact absurd doomed (by simp [Frame.doomed])
  accounted o mem := by
    exact Nat.le_of_eq ((Nat.zero_add _).trans (countP_start mine o [cause]))

variable {hurt : Nat → List Cause}

theorem after_sound (sound : Sound farther initial s mines frees) (nodup : initial.Nodup)
    (hlt : initial.length ≤ limit)
    (settled : ∀ steps s', s.after farther limit hurt steps = some s' → Settled farther s')
    {steps : Nat} (ran : s.after farther limit hurt steps = some s') :
    ∃ mines' frees', Sound farther initial s' mines' frees' := by
  induction steps generalizing s' with
  | zero =>
    obtain rfl := some.inj ran
    exact ⟨mines, frees, sound⟩
  | succ steps ih =>
    obtain ⟨last, pre, stepped⟩ := bind_eq_some_iff.mp ran
    obtain ⟨mines', frees', sound'⟩ := ih pre
    have busy : last.stack ≠ [] := by
      intro idle
      unfold State.step at stepped
      rw [idle] at stepped
      exact absurd stepped (by simp)
    obtain ⟨next, mines'', frees'', stepped', sound'', -⟩ :=
      sound'.step (settled steps last pre) nodup hlt busy (hurt steps)
    obtain rfl := some.inj (stepped.symm.trans stepped')
    exact ⟨mines'', frees'', sound''⟩

theorem reaction_ends (nodup : initial.Nodup) (hlt : initial.length ≤ limit)
    (settled : ∀ steps s', s.after farther limit hurt steps = some s' → Settled farther s')
    {steps : Nat} {now : State} {listed free : List Cell}
    (ran : s.after farther limit hurt steps = some now)
    (sound : Sound farther initial now listed free) :
    ∃ steps last, s.after farther limit hurt steps = some last ∧ last.stack = [] := by
  by_cases idle : now.stack = []
  · exact ⟨steps, now, ran, idle⟩
  · obtain ⟨next, mines', frees', stepped, sound', progress⟩ :=
      sound.step (settled steps now ran) nodup hlt idle (hurt steps)
    have ran' : s.after farther limit hurt (steps + 1) = some next := by
      rw [State.after, ran, bind_some, stepped]
    exact reaction_ends nodup hlt settled ran' sound'
termination_by (initial.length - now.exploded.length, now.cost initial)
decreasing_by
  have few : next.exploded.length ≤ initial.length :=
    (subperm_of_subset sound'.once sound'.known).length_le
  rcases progress with ⟨eq, less⟩ | more
  · rw [eq]
    exact Prod.Lex.right _ less
  · exact Prod.Lex.left _ _ (by omega)

/-- In a settled reaction no call reads a node that is free, and no mine explodes twice; it is over
at some time, and then the list has lost the mines that have exploded and were to go. -/
theorem chain_reaction_safe (mine : Cell → Mine) (cause : Cause) (lists : Lists heap mines frees)
    (enough : mines.length ≤ limit)
    (settled : ∀ steps s, (State.begin mine heap cause).after farther limit hurt steps = some s →
      Settled farther s) :
    (∀ steps s, (State.begin mine heap cause).after farther limit hurt steps = some s →
      (∃ frees', Chain s.heap.next s.heap.free frees' ∧ ∀ cell ∈ s.reads, cell ∉ frees') ∧
        s.exploded.Nodup) ∧
    ∃ steps s, (State.begin mine heap cause).after farther limit hurt steps = some s ∧
      s.stack = [] ∧ (∀ cell ∈ s.condemned, cell ∈ s.exploded) ∧
        Chain s.heap.next s.heap.head (mines.filter fun cell => decide (cell ∉ s.condemned)) := by
  have distinct := lists.mined.nodup
  have start : Sound farther mines (State.begin mine heap cause) mines frees :=
    Sound.begin lists mine cause
  constructor
  · intro steps s ran
    obtain ⟨mines', frees', sound⟩ := after_sound start distinct enough settled ran
    exact ⟨⟨frees', sound.lists.freed, fun cell read =>
      sound.lists.apart cell (sound.reads_mem read)⟩, sound.once⟩
  · have now : (State.begin mine heap cause).after farther limit hurt 0 = some _ := rfl
    obtain ⟨steps, s, ran, idle⟩ := reaction_ends distinct enough settled now start
    obtain ⟨mines', frees', sound⟩ := after_sound start distinct enough settled ran
    refine ⟨steps, s, ran, idle, sound.went, ?_⟩
    have left : mines' = mines.filter fun cell => decide (cell ∉ s.condemned) := by
      rw [sound.left]
      unfold State.pending
      rw [idle]
      refine filter_congr fun cell _ => decide_eq_decide.mpr ?_
      simp
    rw [← left]
    exact sound.lists.mined

/-- Whether a state whose list of mines is known is settled. -/
def State.settled (farther : Int × Int → Int × Int → Int → Bool) (mines : List Cell) (s : State) :
    Bool :=
  decide (Chain s.heap.next s.heap.head mines) &&
    mines.all (fun o => decide (s.causesOf farther o ≤ 1)) &&
      match s.stack with
      | .after _ o true _ :: rest =>
        mines.all (fun cell =>
          !here s.mine (s.mine o).x (s.mine o).y cell || decide (cell = o)) &&
        rest.all fun frame => decide (frame.saved ≠ some o)
      | _ => true

theorem Settled.of_settled (settled : s.settled farther mines = true) : Settled farther s := by
  unfold State.settled at settled
  rw [Bool.and_eq_true, Bool.and_eq_true, List.all_eq_true] at settled
  obtain ⟨⟨chain, single⟩, clear⟩ := settled
  have eq : ∀ mines', Chain s.heap.next s.heap.head mines' → mines' = mines :=
    fun mines' chain' => chain'.unique (of_decide_eq_true chain)
  refine ⟨fun mines' chain' => ?_, fun cause o o2 rest stack mines' chain' => ?_,
    fun cause o o2 rest stack => ?_⟩
  · rw [eq mines' chain']
    exact fun o mem => of_decide_eq_true (single o mem)
  · rw [stack, Bool.and_eq_true, List.all_eq_true] at clear
    rw [eq mines' chain']
    intro cell mem isHere
    have alone := clear.1 cell mem
    rw [isHere] at alone
    exact of_decide_eq_true alone
  · rw [stack, Bool.and_eq_true, List.all_eq_true, List.all_eq_true] at clear
    exact fun frame mem => of_decide_eq_true (clear.2 frame mem)

def commandAndField : Cell → Mine
  | 0 => ⟨1, 1, .command, 10, 7⟩
  | _ => ⟨2, 2, .standard, 20, 0⟩

def twoCells : Heap := ⟨some 0, fun cell => if cell = 0 then some 1 else none, none⟩

def thrown (steps : Nat) : List Cause := if steps = 1 then [.unit 30 2 2] else []

theorem after_none {steps : Nat} (ended : s.after farther limit hurt steps = none) (more : Nat) :
    s.after farther limit hurt (steps + more) = none := by
  induction more with
  | zero => exact ended
  | succ more ih =>
    change (s.after farther limit hurt (steps + more)).bind _ = none
    rw [ih]
    rfl

theorem thrown_settled (steps : Nat) {s : State}
    (ran : (State.begin commandAndField twoCells (.channel 7)).after (fun _ _ _ => false) 2 thrown
      steps = some s) : Settled (fun _ _ _ => false) s := by
  have all : ∀ steps < 11, ∀ s ∈ (State.begin commandAndField twoCells (.channel 7)).after
      (fun _ _ _ => false) 2 thrown steps,
        s.settled (fun _ _ _ => false) (if steps ≤ 7 then [0, 1] else [1]) = true := by
    decide
  by_cases early : steps < 11
  · exact Settled.of_settled (all steps early s ran)
  · obtain ⟨more, rfl⟩ := Nat.exists_eq_add_of_le (Nat.le_of_not_lt early)
    rw [after_none (by decide) more] at ran
    exact absurd ran (by simp)

theorem chain_reaction_safe_thrown :
    ∃ steps s, (State.begin commandAndField twoCells (.channel 7)).after (fun _ _ _ => false) 2
        thrown steps = some s ∧ s.stack = [] ∧ (∀ cell ∈ s.condemned, cell ∈ s.exploded) ∧
      Chain s.heap.next s.heap.head ([0, 1].filter fun cell => decide (cell ∉ s.condemned)) :=
  have lists : Lists twoCells [0, 1] [] := ⟨⟨rfl, rfl, rfl⟩, rfl, by decide⟩
  (chain_reaction_safe commandAndField (.channel 7) lists (by decide) thrown_settled).2

/-- Two command mines in a hex, which one message sets off: the second is free when it is read, and
the first explodes again. -/
theorem two_mines_in_a_hex :
    let after := (State.begin (fun _ => ⟨1, 1, .command, 10, 7⟩) twoCells (.channel 7)).after
      (fun _ _ _ => false) 2 fun _ => []
    (after 3).map (fun s => (s.heap.head, s.heap.free, s.reads)) = some (none, some 1, [1]) ∧
      (after 4).map State.exploded = some [1, 0] ∧
        (after 6).map State.exploded = some [0, 1, 0] := by
  decide

end BattletechMux.Mines
