/-
Module: BattletechMux.Foundation.Tiling
Purpose: Lists that are laid out in blocks: things of one kind stand next to each other, as many as
  the kind asks for, and things of no kind stand anywhere between the blocks.
-/
import Mathlib.Data.List.Basic
import Mathlib.Data.List.Range

/-- `Tiling kind size list blocks`: the blocks of a list, in order. -/
inductive Tiling {α κ : Type*} (kind : α → Option κ) (size : κ → Int) :
    List α → List (List α) → Prop
  | nil : Tiling kind size [] []
  | skip {a : α} {rest : List α} {blocks : List (List α)} (plain : kind a = none)
      (later : Tiling kind size rest blocks) : Tiling kind size (a :: rest) blocks
  | block {k : κ} {first : α} {more rest : List α} {blocks : List (List α)}
      (kinds : ∀ a ∈ first :: more, kind a = some k)
      (full : ((first :: more).length : Int) = size k) (later : Tiling kind size rest blocks) :
      Tiling kind size (first :: more ++ rest) ((first :: more) :: blocks)

namespace Tiling

open List

variable {α κ : Type*} {kind : α → Option κ} {size : κ → Int} {list : List α}
  {blocks blocks' : List (List α)}

theorem of_mem (tiling : Tiling kind size list blocks) {block : List α} (mem : block ∈ blocks) :
    ∃ k first more, block = first :: more ∧ (∀ a ∈ block, kind a = some k) ∧
      (block.length : Int) = size k := by
  induction tiling with
  | nil => exact absurd mem not_mem_nil
  | skip plain later ih => exact ih mem
  | @block k first more rest blocks kinds full later ih =>
    rcases mem_cons.mp mem with rfl | further
    · exact ⟨k, first, more, rfl, kinds, full⟩
    · exact ih further

theorem flatten (tiling : Tiling kind size list blocks) :
    blocks.flatten = list.filter fun a => (kind a).isSome := by
  induction tiling with
  | nil => rfl
  | skip plain later ih =>
    rw [ih, filter_cons_of_neg (by simp [plain])]
  | @block k first more rest blocks kinds full later ih =>
    have all : (first :: more).filter (fun a => (kind a).isSome) = first :: more :=
      filter_eq_self.mpr fun a mem => by simp [kinds a mem]
    rw [flatten_cons, ih, filter_append, all]

theorem of_none {list : List α} (none : ∀ a ∈ list, kind a = none) : Tiling kind size list [] := by
  induction list with
  | nil => exact .nil
  | cons a rest ih =>
    exact .skip (none a mem_cons_self)
      (ih fun b mem => none b (mem_cons_of_mem a mem))

theorem length_le (tiling : Tiling kind size list blocks) : blocks.length ≤ list.length := by
  induction tiling with
  | nil => exact Nat.le_refl 0
  | skip plain later ih => exact Nat.le_succ_of_le ih
  | block kinds full later ih =>
    rw [length_cons, length_append, length_cons]
    omega

theorem filter_first [DecidableEq κ] {earlier later : List (List α)} {block : List α} {k : κ}
    (tiling : Tiling kind size list (earlier ++ block :: later))
    (passed : ∀ other ∈ earlier, ∀ a ∈ other, kind a ≠ some k)
    (kinds : ∀ a ∈ block, kind a = some k) :
    ∃ more, (list.filter fun a => kind a = some k) = block ++ more := by
  have kinded : (list.filter fun a => kind a = some k) =
      (list.filter fun a => (kind a).isSome).filter fun a => kind a = some k := by
    rw [filter_filter]
    refine filter_congr fun a _ => ?_
    cases kind a <;> simp
  have none : (earlier.flatten.filter fun a => decide (kind a = some k)) = [] :=
    filter_eq_nil_iff.mpr fun a mem => by
      obtain ⟨other, inside, mine⟩ := mem_flatten.mp mem
      simpa using passed other inside a mine
  have all : (block.filter fun a => decide (kind a = some k)) = block :=
    filter_eq_self.mpr fun a mem => decide_eq_true (kinds a mem)
  rw [kinded, ← tiling.flatten, flatten_append, flatten_cons, filter_append, none,
    nil_append, filter_append, all]
  exact ⟨_, rfl⟩

theorem consecutive (tiling : Tiling kind size list blocks) {place : α → Nat} {start : Nat}
    (places : list.map place = List.range' start list.length) {block : List α}
    (mem : block ∈ blocks) :
    ∃ begin, start ≤ begin ∧ begin + block.length ≤ start + list.length ∧
      block.map place = List.range' begin block.length := by
  induction tiling generalizing start with
  | nil => exact absurd mem not_mem_nil
  | @skip a rest blocks plain later ih =>
    rw [map_cons, length_cons, range'_succ] at places
    obtain ⟨begin, low, high, is⟩ := ih (cons.inj places).2 mem
    exact ⟨begin, by omega, by rw [length_cons]; omega, is⟩
  | @block k first more rest blocks kinds full later ih =>
    rw [map_append, length_append, ← range'_append_1] at places
    have parts := append_inj places (by simp)
    rcases mem_cons.mp mem with rfl | further
    · exact ⟨start, Nat.le_refl _, by rw [length_append]; omega, parts.1⟩
    · obtain ⟨begin, low, high, is⟩ := ih parts.2 further
      exact ⟨begin, by omega, by rw [length_append]; omega, is⟩

end Tiling
