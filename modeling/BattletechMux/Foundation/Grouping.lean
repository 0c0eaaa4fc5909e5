/-
Module: BattletechMux.Foundation.Grouping
Purpose: Items are gathered into entries, one for each key, while they are gone through: an item
  joins the entry of its key, or starts one.
-/
import Mathlib.Data.Finset.Card
import Mathlib.Data.Finset.Dedup
import Mathlib.Data.List.Nodup

/-- How items start and join entries, which have the key of their items. -/
structure Grouping (Item Entry Key : Type*) where
  itemKey : Item → Key
  key : Entry → Key
  start : Item → Entry
  join : Entry → Item → Entry
  key_start : ∀ item, key (start item) = itemKey item
  key_join : ∀ entry item, key (join entry item) = key entry

namespace Grouping

open List hiding any_eq_true map_map mem_map
open Option hiding any any_eq_true map map_map mem_map

variable {Item Entry Key : Type*} [DecidableEq Key] (g : Grouping Item Entry Key)

/-- An item joins every entry of its key, or starts one when there is none. -/
def put (entries : List Entry) (item : Item) : List Entry :=
  if entries.any fun entry => g.key entry = g.itemKey item then
    entries.map fun entry => if g.key entry = g.itemKey item then g.join entry item else entry
  else entries ++ [g.start item]

def gather (items : List Item) : List Entry := items.foldl g.put []

def group (items : List Item) (key : Key) : Option Entry :=
  match items.filter fun item => g.itemKey item = key with
  | [] => none
  | first :: rest => some (rest.foldl g.join (g.start first))

theorem gather_append (items : List Item) (item : Item) :
    g.gather (items ++ [item]) = g.put (g.gather items) item := by
  unfold gather
  rw [foldl_append]
  rfl

theorem group_append (items : List Item) (item : Item) (key : Key) :
    g.group (items ++ [item]) key =
      if g.itemKey item = key then
        some (match g.group items key with
          | none => g.start item
          | some e => g.join e item)
      else g.group items key := by
  unfold group
  rw [filter_append]
  by_cases mine : g.itemKey item = key
  · rw [if_pos mine, filter_singleton, decide_eq_true mine, cond_true]
    cases items.filter fun item => g.itemKey item = key with
    | nil => rfl
    | cons fst rest =>
      dsimp only [cons_append]
      rw [foldl_append]
      rfl
  · rw [if_neg mine, filter_singleton, decide_eq_false mine, cond_false, append_nil]

theorem key_group {items : List Item} {key : Key} {e : Entry}
    (grouped : g.group items key = some e) : g.key e = key := by
  induction items using List.reverseRecOn generalizing e with
  | nil => exact absurd grouped (by simp [group])
  | append_singleton items item ih =>
    rw [group_append] at grouped
    split at grouped
    · next mine =>
      obtain rfl := some.inj grouped
      cases pre : g.group items key with
      | none => exact (g.key_start item).trans mine
      | some old => exact (g.key_join old item).trans (ih pre)
    · exact ih grouped

def meet (item : Item) (entry : Entry) : Entry :=
  if g.key entry = g.itemKey item then g.join entry item else entry

@[simp] theorem key_meet (item : Item) (e : Entry) : g.key
    (g.meet item e) = g.key e := by
  unfold meet
  split
  · exact g.key_join e item
  · rfl

theorem any_iff {items : List Item} {entries : List Entry}
    (groups : ∀ e, e ∈ entries ↔ g.group items (g.key e) = some e) (key : Key) :
    (entries.any fun e => g.key e = key) = true ↔ (g.group items key).isSome := by
  rw [List.any_eq_true, isSome_iff_exists]
  constructor
  · rintro ⟨old, mem, eq⟩
    rw [← of_decide_eq_true eq]
    exact ⟨old, (groups old).mp mem⟩
  · rintro ⟨old, grouped⟩
    have eq := g.key_group grouped
    exact ⟨old, (groups old).mpr (eq.symm ▸ grouped), decide_eq_true eq⟩

theorem mem_gather (items : List Item) (e : Entry) :
    e ∈ g.gather items ↔ g.group items (g.key e) = some e := by
  induction items using List.reverseRecOn generalizing e with
  | nil => simp [gather, group]
  | append_singleton items item ih =>
    have known := g.any_iff ih (g.itemKey item)
    rw [gather_append, group_append, put]
    by_cases hf : (g.group items (g.itemKey item)).isSome
    · rw [if_pos (known.mpr hf)]
      change e ∈ (g.gather items).map (g.meet item) ↔ _
      obtain ⟨old, grouped⟩ := isSome_iff_exists.mp hf
      rw [List.mem_map]
      by_cases mine : g.itemKey item = g.key e
      · rw [if_pos mine, ← mine, grouped, some_inj]
        constructor
        · rintro ⟨pre, mem, rfl⟩
          rw [key_meet] at mine
          have eq := (ih pre).mp mem
          rw [← mine, grouped] at eq
          rw [some.inj eq, meet, if_pos mine.symm]
        · rintro rfl
          have eq := g.key_group grouped
          refine ⟨old, (ih old).mpr (eq.symm ▸ grouped), ?_⟩
          rw [meet, if_pos eq]
      · rw [if_neg mine, ← ih]
        have kept (pre : Entry) (eq : g.key pre = g.key e) :
            g.meet item pre = pre := by
          rw [meet, if_neg fun here => mine (here.symm.trans eq)]
        constructor
        · rintro ⟨pre, mem, rfl⟩
          rwa [kept pre (g.key_meet item pre).symm]
        · exact fun mem => ⟨e, mem, kept e rfl⟩
    · rw [if_neg fun any => hf (known.mp any), mem_append, mem_singleton]
      have fresh : g.group items (g.itemKey item) = none := not_isSome_iff_eq_none.mp hf
      by_cases mine : g.itemKey item = g.key e
      · rw [if_pos mine, ← mine, fresh, some_inj, ih, ← mine, fresh]
        exact ⟨fun cases => cases.elim (fun absurd => nomatch absurd) Eq.symm, fun new => .inr new.symm⟩
      · rw [if_neg mine, ← ih]
        refine ⟨fun cases => cases.resolve_right ?_, Or.inl⟩
        rintro rfl
        exact mine (g.key_start item).symm

theorem gather_keys_nodup (items : List Item) : ((g.gather items).map g.key).Nodup := by
  induction items using List.reverseRecOn with
  | nil => exact nodup_nil
  | append_singleton items item ih =>
    rw [gather_append, put]
    split
    · rw [List.map_map]
      have eq : g.key ∘ g.meet item = g.key := funext fun e => g.key_meet item e
      change ((g.gather items).map (g.key ∘ g.meet item)).Nodup
      rwa [eq]
    · next absent =>
      rw [map_append, map_singleton, ← concat_eq_append]
      refine ih.concat fun mem => absent ?_
      obtain ⟨old, hf, eq⟩ := List.mem_map.mp mem
      rw [List.any_eq_true]
      exact ⟨old, hf, decide_eq_true (eq.trans (g.key_start item))⟩

theorem group_isSome_iff (items : List Item) (key : Key) :
    (g.group items key).isSome ↔ key ∈ items.map g.itemKey := by
  unfold group
  rw [List.mem_map]
  cases hf : items.filter fun item => g.itemKey item = key with
  | nil =>
    rw [filter_eq_nil_iff] at hf
    simp only [isSome_none, Bool.false_eq_true, false_iff]
    rintro ⟨item, mem, eq⟩
    exact hf item mem (decide_eq_true eq)
  | cons fst rest =>
    have mem : fst ∈ items.filter fun item => g.itemKey item = key := by
      rw [hf]
      exact mem_cons_self
    rw [mem_filter] at mem
    exact iff_of_true rfl ⟨fst, mem.1, of_decide_eq_true mem.2⟩

theorem gather_length (items : List Item) :
    (g.gather items).length = (items.map g.itemKey).toFinset.card := by
  rw [← length_map g.key, ← toFinset_card_of_nodup (g.gather_keys_nodup items)]
  congr 1
  ext key
  rw [List.mem_toFinset, List.mem_toFinset, ← group_isSome_iff, List.mem_map,
    isSome_iff_exists]
  constructor
  · rintro ⟨e, mem, rfl⟩
    exact ⟨e, (g.mem_gather items e).mp mem⟩
  · rintro ⟨e, grouped⟩
    have eq := g.key_group grouped
    exact ⟨e, (g.mem_gather items e).mpr (eq.symm ▸ grouped), eq⟩

theorem length_le_put (entries : List Entry) (item : Item) :
    entries.length ≤ (g.put entries item).length := by
  unfold put
  split
  · rw [length_map]
  · rw [length_append]
    exact Nat.le_add_right _ _

theorem length_le_foldl (items : List Item) (entries : List Entry) :
    entries.length ≤ (items.foldl g.put entries).length := by
  induction items generalizing entries with
  | nil => exact Nat.le_refl _
  | cons item items ih =>
    exact Nat.le_trans (g.length_le_put entries item) (ih _)

end Grouping
