/-
Module: BattletechMux.Channels.AliasMap
Purpose: The aliases of a player are a finite map.
-/
import BattletechMux.Channels.Aliases
import BattletechMux.Foundation.Bisect
import BattletechMux.Macro.Lookup

namespace BattletechMux.Channels.Aliases

open List Option

open Function (update)
open Bisection (Increasing lookup)
open BattletechMux.Macro (Text lower strcasecmp strcmp_cases strcasecmp_eq)

/-! ## What a table holds -/

/-- The aliases of the table with their channels, in the order of the arrays. -/
structure Holds (c : Commac) (entries : List (Text × Text)) : Prop where
  count : c.numchannels = entries.length
  aliases : ∃ rest, c.alias' = entries.map (fun entry => some entry.1) ++ rest
  channels : ∃ rest, c.channels = entries.map (fun entry => some entry.2) ++ rest
  aliasSize : c.alias'.length = c.maxchannels
  channelsSize : c.channels.length = c.maxchannels

theorem holds_createNewCommac : Holds createNewCommac [] where
  count := rfl
  aliases := ⟨[], rfl⟩
  channels := ⟨[], rfl⟩
  aliasSize := rfl
  channelsSize := rfl

section Cells

variable {c : Commac} {entries before after : List (Text × Text)} {entry : Text × Text}

theorem readCell_middle (before after : Cells) (cell : Option Text) :
    readCell (before ++ cell :: after) before.length = cell := by
  simp [readCell]

theorem Holds.readAlias (h : Holds c (before ++ entry :: after)) :
    readCell c.alias' before.length = some entry.1 := by
  obtain ⟨rest, cells⟩ := h.aliases
  rw [cells, map_append, map_cons, append_assoc, cons_append]
  simpa using readCell_middle (before.map fun entry => some entry.1) _ (some entry.1)

theorem Holds.readChannel (h : Holds c (before ++ entry :: after)) :
    readCell c.channels before.length = some entry.2 := by
  obtain ⟨rest, cells⟩ := h.channels
  rw [cells, map_append, map_cons, append_assoc, cons_append]
  simpa using readCell_middle (before.map fun entry => some entry.2) _ (some entry.2)

theorem Holds.room (h : Holds c entries) : entries.length ≤ c.maxchannels := by
  obtain ⟨rest, cells⟩ := h.aliases
  have size := congrArg List.length cells
  rw [h.aliasSize, length_append, length_map] at size
  omega

theorem Holds.unique {o : List (Text × Text)} (h : Holds c entries)
    (h' : Holds c o) : entries = o := by
  have length : entries.length = o.length := h.count.symm.trans h'.count
  refine ext_getElem? fun i => ?_
  by_cases hin : i < entries.length
  · have split := (Bisection.split_at (getElem?_eq_getElem hin))
    have split' := (Bisection.split_at (getElem?_eq_getElem (length ▸ hin)))
    have alias' := (split.1 ▸ h).readAlias
    have channel := (split.1 ▸ h).readChannel
    have alias'' := (split'.1 ▸ h').readAlias
    have channel' := (split'.1 ▸ h').readChannel
    rw [split.2] at alias' channel
    rw [split'.2] at alias'' channel'
    rw [getElem?_eq_getElem hin, getElem?_eq_getElem (length ▸ hin)]
    exact congrArg some (Prod.ext (some.inj (alias'.symm.trans alias''))
      (some.inj (channel.symm.trans channel')))
  · rw [getElem?_eq_none (not_lt.mp hin),
      getElem?_eq_none (length ▸ not_lt.mp hin)]

end Cells

/-! ## Order -/

section Order

theorem strcasecmp_lt_iff {a b : Text} : strcasecmp a b = .lt ↔ lower a < lower b := by
  rw [strcasecmp_eq]
  rcases strcmp_cases (lower a) (lower b) with ⟨order, less⟩ | ⟨order, eq⟩ | ⟨order, more⟩ <;>
    rw [order]
  · exact iff_of_true rfl less
  · exact iff_of_false (by decide) (eq ▸ lt_irrefl _)
  · exact iff_of_false (by decide) (lt_asymm more)

theorem strcasecmp_gt_iff {a b : Text} : strcasecmp a b = .gt ↔ lower b < lower a := by
  rw [strcasecmp_eq]
  exact Macro.strcmp_gt_iff

theorem strcasecmp_eq_iff {a b : Text} : strcasecmp a b = .eq ↔ lower a = lower b := by
  rw [strcasecmp_eq]
  exact Macro.strcmp_eq_iff

theorem take_le (n : Nat) (text : Text) : text.take n ≤ text := by
  induction text generalizing n with
  | nil => simp
  | cons fst rest ih =>
    cases n with
    | zero => exact not_lt.mp (not_lt_nil (fst :: rest))
    | succ n =>
      refine not_lt.mp fun less => ?_
      rcases cons_lt_cons_iff.mp less with head | ⟨_, tail⟩
      · exact lt_irrefl fst head
      · exact not_lt.mpr (ih n) tail

theorem le_take_of_lt {n : Nat} {text short : Text} (fits : short.length ≤ n)
    (before : short < text) : short ≤ text.take n := by
  induction text generalizing n short with
  | nil => exact absurd before (not_lt_nil short)
  | cons fst rest ih =>
    cases short with
    | nil => exact not_lt.mp (not_lt_nil _)
    | cons letter short =>
      cases n with
      | zero => exact absurd fits (by simp)
      | succ n =>
        refine not_lt.mp fun less => ?_
        rw [take_succ_cons] at less
        rcases cons_lt_cons_iff.mp before with smaller | ⟨rfl, tail⟩
        · rcases cons_lt_cons_iff.mp less with head | ⟨rfl, _⟩
          · exact lt_asymm smaller head
          · exact lt_irrefl _ smaller
        · rcases cons_lt_cons_iff.mp less with head | ⟨_, tail'⟩
          · exact lt_irrefl _ head
          · exact not_lt.mpr (ih (Nat.le_of_succ_le_succ fits) tail) tail'

theorem lower_take (n : Nat) (text : Text) : lower (text.take n) = (lower text).take n :=
  map_take

theorem length_lower (text : Text) : (lower text).length = text.length := length_map _

end Order

/-! ## Places -/

section Places

variable {c : Commac} {before after : List (Text × Text)} (arg1 : Text)

theorem findWhere_spec (h : Holds c (before ++ after)) :
    findWhere c arg1 after.length before.length = some (before.length +
      (after.takeWhile fun entry => strcasecmp arg1 entry.1 == .gt).length) := by
  induction after generalizing before with
  | nil => rfl
  | cons entry after ih =>
    rw [length_cons, findWhere, h.readAlias]
    dsimp only
    by_cases order : strcasecmp arg1 entry.1 = .gt
    · have rest := @ih (before ++ [entry]) (by simpa using h)
      rw [length_append, length_singleton] at rest
      rw [if_pos order, rest, takeWhile_cons_of_pos (by simp [order]), length_cons]
      congr 1
      omega
    · rw [if_neg order, takeWhile_cons_of_neg (by simp [order])]
      rfl

theorem findWhere_split {entries : List (Text × Text)} (h : Holds c entries) :
    ∃ before after, entries = before ++ after ∧ findWhere c arg1 c.numchannels 0 = some before.length ∧
      (∀ entry ∈ before, lower entry.1 < lower arg1) ∧
      ∀ entry rest, after = entry :: rest → lower arg1 ≤ lower entry.1 := by
  have ran := @findWhere_spec c [] _ arg1 (by simpa using h)
  rw [length_nil, Nat.zero_add, ← h.count] at ran
  refine ⟨_, _, (takeWhile_append_dropWhile
    (p := fun entry => strcasecmp arg1 entry.1 == .gt)).symm, ran, fun entry mem => ?_,
    fun entry rest behind => ?_⟩
  · exact strcasecmp_gt_iff.mp (beq_iff_eq.mp (mem_takeWhile_imp
      (p := fun entry : Text × Text => strcasecmp arg1 entry.1 == .gt) mem))
  · have stop := head?_dropWhile_not
      (fun entry : Text × Text => strcasecmp arg1 entry.1 == .gt) entries
    rw [behind] at stop
    refine not_lt.mp fun less => ?_
    have stop' : (strcasecmp arg1 entry.1 == .gt) = false := stop
    rw [strcasecmp_gt_iff.mpr less] at stop'
    exact Bool.noConfusion stop'

theorem inUse_nil (h : Holds c before) : inUse c arg1 before.length = some none := by
  rw [inUse, if_neg (by simp [h.count])]

theorem inUse_cons {entry : Text × Text} (h : Holds c (before ++ entry :: after)) :
    inUse c arg1 before.length =
      some (if lower arg1 = lower entry.1 then some entry.2 else none) := by
  rw [inUse, if_pos (by simp [h.count]), h.readAlias]
  dsimp only
  rw [h.readChannel]
  by_cases eq : lower arg1 = lower entry.1
  · rw [if_pos (strcasecmp_eq_iff.mpr eq), if_pos eq]
    rfl
  · rw [if_neg (mt strcasecmp_eq_iff.mp eq), if_neg eq]

theorem findAlias_spec (h : Holds c (before ++ after)) :
    (findAlias c arg1 after.length before.length = some none ∧
        ∀ entry ∈ after, lower entry.1 ≠ lower arg1) ∨
      ∃ passed entry rest, after = passed ++ entry :: rest ∧ lower entry.1 = lower arg1 ∧
        findAlias c arg1 after.length before.length = some (some (before ++ passed).length) := by
  induction after generalizing before with
  | nil => exact Or.inl ⟨rfl, by simp⟩
  | cons entry after ih =>
    rw [length_cons, findAlias, h.readAlias]
    dsimp only
    by_cases eq : lower entry.1 = lower arg1
    · refine Or.inr ⟨[], entry, after, rfl, eq, ?_⟩
      rw [if_pos (strcasecmp_eq_iff.mpr eq.symm), append_nil]
    · rw [if_neg (fun order => eq (strcasecmp_eq_iff.mp order).symm)]
      have rest := @ih (before ++ [entry]) (by simpa using h)
      rw [length_append, length_singleton] at rest
      rcases rest with ⟨ran, missing⟩ | ⟨passed, found, rest, split, is, ran⟩
      · refine Or.inl ⟨ran, fun o mem => ?_⟩
        rcases mem_cons.mp mem with rfl | later
        · exact eq
        · exact missing o later
      · refine Or.inr ⟨entry :: passed, found, rest, by rw [split]; rfl, is, ?_⟩
        rw [ran, ← append_cons]

end Places

/-! ## Moving cells -/

section Cells

theorem memmove_up (before after rest : Cells) (spare : Option Text) :
    ∃ cell, memmove (before ++ after ++ spare :: rest) (before.length + 1) before.length
      after.length = some (before ++ cell :: (after ++ rest)) := by
  have room : before.length + 1 + after.length ≤
      (before ++ after ++ spare :: rest).length ∧ before.length + after.length ≤
      (before ++ after ++ spare :: rest).length := by
    simp only [length_append, length_cons]
    omega
  obtain ⟨cell, others, fst⟩ : ∃ cell others, after ++ [spare] = cell :: others := by
    cases after with
    | nil => exact ⟨spare, [], rfl⟩
    | cons cell others => exact ⟨cell, others ++ [spare], rfl⟩
  have whole : before ++ after ++ spare :: rest = before ++ cell :: (others ++ rest) := by
    rw [append_assoc, append_cons after, fst, cons_append]
  have kept : (before ++ after ++ spare :: rest).take (before.length + 1) = before ++ [cell] := by
    rw [whole, take_append, take_of_length_le (Nat.le_succ _)]
    simp
  have moved : ((before ++ after ++ spare :: rest).drop before.length).take after.length =
      after := by
    rw [append_assoc, drop_left, take_left]
  have behind : (before ++ after ++ spare :: rest).drop (before.length + 1 + after.length) =
      rest := by
    rw [append_cons, show before.length + 1 + after.length =
      (before ++ after ++ [spare]).length by simp; omega, drop_left]
  refine ⟨cell, ?_⟩
  rw [memmove, if_pos room, kept, moved, behind]
  simp

theorem memmove_down (before after rest : Cells) (cell : Option Text) :
    ∃ rest', memmove (before ++ cell :: (after ++ rest)) before.length (before.length + 1)
      after.length = some (before ++ after ++ rest') ∧ rest'.length = rest.length + 1 := by
  have room : before.length + after.length ≤ (before ++ cell :: (after ++ rest)).length ∧
      before.length + 1 + after.length ≤ (before ++ cell :: (after ++ rest)).length := by
    simp only [length_append, length_cons]
    omega
  have kept : (before ++ cell :: (after ++ rest)).take before.length = before := take_left
  have moved : ((before ++ cell :: (after ++ rest)).drop (before.length + 1)).take after.length =
      after := by
    rw [append_cons, show before.length + 1 = (before ++ [cell]).length by simp,
      drop_left, take_left]
  refine ⟨(before ++ cell :: (after ++ rest)).drop (before.length + after.length), ?_, ?_⟩
  · rw [memmove, if_pos room, kept, moved]
  · simp only [length_drop, length_append, length_cons]
    omega

theorem writeCell_middle (before after : Cells) (old new : Option Text) :
    writeCell (before ++ old :: after) before.length new = some (before ++ new :: after) := by
  rw [writeCell, if_pos (by simp), set_append_right _ _ (Nat.le_refl _), Nat.sub_self]
  rfl

end Cells

/-! ## The table -/

section Table

variable {c : Commac} {entries before after : List (Text × Text)}

theorem grow_spec (h : Holds c entries) :
    Holds c.grow entries ∧ entries.length < c.grow.maxchannels := by
  unfold Commac.grow
  by_cases full : c.maxchannels ≤ c.numchannels
  · rw [if_pos full]
    refine ⟨⟨h.count, ?_, ?_, ?_, ?_⟩, ?_⟩
    · obtain ⟨rest, cells⟩ := h.aliases
      exact ⟨_, by rw [realloc, cells, append_assoc]⟩
    · obtain ⟨rest, cells⟩ := h.channels
      exact ⟨_, by dsimp only; rw [realloc, cells, append_assoc]⟩
    · simp [realloc, h.aliasSize]
    · simp [realloc, h.channelsSize]
    · have room := h.room
      dsimp only
      omega
  · rw [if_neg full]
    exact ⟨h, by have count := h.count; omega⟩

theorem makeRoom_spec (h : Holds c (before ++ after))
    (room : (before ++ after).length < c.maxchannels) :
    ∃ roomy, c.makeRoom before.length = some roomy ∧
      roomy.numchannels = c.numchannels ∧ roomy.maxchannels = c.maxchannels ∧
      (∃ cell rest, roomy.alias' = before.map (fun entry => some entry.1) ++ cell ::
        (after.map (fun entry => some entry.1) ++ rest) ∧
        roomy.alias'.length = c.maxchannels) ∧
      ∃ cell rest, roomy.channels = before.map (fun entry => some entry.2) ++ cell ::
        (after.map (fun entry => some entry.2) ++ rest) ∧
        roomy.channels.length = c.maxchannels := by
  obtain ⟨aliasRest, aliases⟩ := h.aliases
  obtain ⟨channelRest, channels⟩ := h.channels
  have size := h.aliasSize
  have size' := h.channelsSize
  have count := h.count
  rw [aliases] at size
  rw [channels] at size'
  rw [length_append] at count room
  simp only [length_append, length_map] at size size'
  obtain ⟨spare, aliasRest, rfl⟩ : ∃ spare rest, aliasRest = spare :: rest :=
    exists_cons_of_length_pos (by omega)
  obtain ⟨spare', channelRest, rfl⟩ : ∃ spare rest, channelRest = spare :: rest :=
    exists_cons_of_length_pos (by omega)
  rw [map_append] at aliases channels
  cases after with
  | nil =>
    refine ⟨c, ?_, rfl, rfl, ⟨spare, aliasRest, by simpa using aliases, h.aliasSize⟩,
      spare', channelRest, by simpa using channels, h.channelsSize⟩
    rw [Commac.makeRoom, if_neg (by rw [count]; simp)]
  | cons entry after =>
    obtain ⟨cell, moved⟩ := memmove_up (before.map fun entry => some entry.1)
      ((entry :: after).map fun entry => some entry.1) aliasRest spare
    obtain ⟨cell', moved'⟩ := memmove_up (before.map fun entry => some entry.2)
      ((entry :: after).map fun entry => some entry.2) channelRest spare'
    have number : c.numchannels - before.length = (entry :: after).length := by omega
    rw [length_map, length_map] at moved moved'
    have made : c.makeRoom before.length = some { c with
        alias' := before.map (fun entry => some entry.1) ++ cell ::
          ((entry :: after).map (fun entry => some entry.1) ++ aliasRest)
        channels := before.map (fun entry => some entry.2) ++ cell' ::
          ((entry :: after).map (fun entry => some entry.2) ++ channelRest) } := by
      rw [Commac.makeRoom, if_pos (by rw [count]; simp), number, aliases, channels, moved, moved']
      rfl
    simp only [length_cons] at size size'
    refine ⟨_, made, rfl, rfl, ⟨cell, aliasRest, rfl, ?_⟩, cell', channelRest, rfl, ?_⟩
    · simp only [length_append, length_map, length_cons]
      omega
    · simp only [length_append, length_map, length_cons]
      omega

theorem insert_spec (h : Holds c (before ++ after)) (arg1 channel : Text) :
    ∃ roomy c', c.grow.makeRoom before.length = some roomy ∧
      roomy.put before.length arg1 channel = some c' ∧
      Holds c' (before ++ (arg1.take 5, channel) :: after) := by
  obtain ⟨grown, room⟩ := grow_spec h
  obtain ⟨roomy, made, numchannels, maxchannels, ⟨cell, aliasRest, aliases, size⟩,
    cell', channelRest, channels, size'⟩ := makeRoom_spec grown room
  have wrote := writeCell_middle (before.map fun entry => some entry.1)
    (after.map (fun entry => some entry.1) ++ aliasRest) cell (some (arg1.take 5))
  have wrote' := writeCell_middle (before.map fun entry => some entry.2)
    (after.map (fun entry => some entry.2) ++ channelRest) cell' (some channel)
  rw [length_map] at wrote wrote'
  have placed : roomy.put before.length arg1 channel = some { roomy with
      numchannels := roomy.numchannels + 1
      alias' := before.map (fun entry => some entry.1) ++ some (arg1.take 5) ::
        (after.map (fun entry => some entry.1) ++ aliasRest)
      channels := before.map (fun entry => some entry.2) ++ some channel ::
        (after.map (fun entry => some entry.2) ++ channelRest) } := by
    rw [Commac.put, aliases, channels, wrote, wrote']
    rfl
  have count := grown.count
  rw [aliases] at size
  rw [channels] at size'
  simp only [length_append, length_cons, length_map] at count size size'
  refine ⟨roomy, _, made, placed, ?_, ⟨aliasRest, by simp⟩, ⟨channelRest, by simp⟩, ?_, ?_⟩
  · simp only [length_append, length_cons]
    omega
  · simp only [length_append, length_cons, length_map]
    omega
  · simp only [length_append, length_cons, length_map]
    omega

theorem remove_spec {entry : Text × Text} (h : Holds c (before ++ entry :: after)) :
    ∃ c', c.remove before.length = some c' ∧ Holds c' (before ++ after) := by
  obtain ⟨aliasRest, aliases⟩ := h.aliases
  obtain ⟨channelRest, channels⟩ := h.channels
  have count := h.count
  rw [map_append, map_cons, append_assoc, cons_append] at aliases channels
  rw [length_append, length_cons] at count
  have freed := writeCell_middle (before.map fun entry => some entry.2)
    (after.map (fun entry => some entry.2) ++ channelRest) (some entry.2) none
  rw [length_map] at freed
  have size := h.aliasSize
  have size' := h.channelsSize
  rw [aliases] at size
  rw [channels] at size'
  simp only [length_append, length_cons, length_map] at size size'
  rw [Commac.remove, channels, freed, bind_eq_bind, bind_some]
  cases after with
  | nil =>
    rw [if_neg (by rw [count]; simp)]
    refine ⟨_, rfl, ?_, ⟨some entry.1 :: aliasRest, ?_⟩, ⟨none :: channelRest, ?_⟩, ?_, ?_⟩
    · simp [count]
    · simpa using aliases
    · simp
    · simpa [aliases] using size
    · simpa using size'
  | cons next after =>
    obtain ⟨aliasRest', moved, longer⟩ := memmove_down (before.map fun entry => some entry.1)
      ((next :: after).map fun entry => some entry.1) aliasRest (some entry.1)
    obtain ⟨channelRest', moved', longer'⟩ := memmove_down
      (before.map fun entry => some entry.2)
      ((next :: after).map fun entry => some entry.2) channelRest none
    rw [length_map, length_map] at moved moved'
    have number : c.numchannels - 1 - before.length = (next :: after).length := by
      rw [length_cons] at *
      omega
    rw [if_pos (by rw [count]; simp), number, aliases, moved, moved']
    refine ⟨_, rfl, ?_, ⟨aliasRest', ?_⟩, ⟨channelRest', ?_⟩, ?_, ?_⟩
    · simp [count]
    · simp
    · simp
    · simp only [length_append, length_map, length_cons] at size ⊢
      omega
    · simp only [length_append, length_map, length_cons] at size' ⊢
      omega

end Table

/-! ## get_channel_from_alias -/

section Search

variable {c : Commac} {entries : List (Text × Text)}

theorem searchAlias_eq (h : Holds c entries) (alias' : Text) (limit : Nat) {fst last : Int}
    (low : 0 ≤ fst) (high : last < entries.length) :
    searchAlias c alias' limit fst last =
      (Bisection.bisect key entries (lower alias') limit fst last).bind fun found =>
        if found.1 then entries[found.2]?.map Prod.snd else some [] := by
  induction limit generalizing fst last with
  | zero => rfl
  | succ limit ih =>
    rw [searchAlias, Bisection.bisect]
    by_cases more : fst ≤ last
    · have middle : (last - fst) / 2 + fst = (fst + last) / 2 := by omega
      simp only [if_pos more, middle]
      have hin : ((fst + last) / 2).toNat < entries.length := by omega
      obtain ⟨split, length⟩ := Bisection.split_at (getElem?_eq_getElem hin)
      have stored := (split ▸ h).readAlias
      have channel := (split ▸ h).readChannel
      rw [length] at stored channel
      rw [stored, getElem?_eq_getElem hin]
      dsimp only
      generalize is : entries[((fst + last) / 2).toNat] = entry at stored channel
      rw [show key entry = lower entry.1 from rfl]
      rcases strcmp_cases (lower alias') (lower entry.1) with
        ⟨order, less⟩ | ⟨order, eq⟩ | ⟨order, more'⟩
      · rw [strcasecmp_eq, order, if_neg (ne_of_gt less), if_pos less]
        exact ih low (by omega)
      · rw [strcasecmp_eq, order, if_pos eq.symm]
        simp [channel, hin, is]
      · rw [strcasecmp_eq, order, if_neg (ne_of_lt more'), if_neg (lt_asymm more')]
        exact ih (by omega) high
    · simp [if_neg more]

theorem getChannelFromAlias_spec (h : Holds c entries) (increasing : Increasing key entries)
    (alias' : Text) :
    getChannelFromAlias c alias' =
      some ((lookup key entries (lower alias')).elim [] Prod.snd) := by
  obtain ⟨found, ran, place⟩ := Bisection.bisect_spec increasing (lower alias')
  rw [getChannelFromAlias, h.count, searchAlias_eq h alias' _ (by omega) (by omega), ran,
    bind_some]
  cases place with
  | @present before after entry split equal =>
    subst split
    rw [← equal, Bisection.lookup_of_present increasing]
    simp
  | @absent before after split smaller larger =>
    rw [split, Bisection.lookup_append,
      Bisection.lookup_eq_none fun entry mem => ne_of_lt (smaller entry mem),
      Bisection.lookup_eq_none fun entry mem => ne_of_gt (larger entry mem)]
    rfl

end Search

/-! ## Commands -/

section Commands

variable {c : Commac} {entries : List (Text × Text)} {w : World} {arg1 arg2 : Text}

theorem doAddcom_spec {channel title : Text} (h : Holds c entries)
    (increasing : Increasing key entries)
    (checked : checkAddcom w arg1 arg2 = .ok (channel, title)) :
    ∃ c' notes, doAddcom w arg1 arg2 c = some (c', notes) ∧
      ((∃ entry ∈ entries, key entry = lower arg1) ∧ c' = c ∨
        ∃ before after, entries = before ++ after ∧
          (∀ entry ∈ before, key entry < lower arg1) ∧ (∀ entry ∈ after, lower arg1 < key entry) ∧
          Holds c' (before ++ (arg1.take 5, channel) :: after)) := by
  obtain ⟨before, after, rfl, place, smaller, larger⟩ := findWhere_split arg1 h
  rw [doAddcom, checked]
  simp only [place, bind_eq_bind, bind_some]
  obtain ⟨roomy, c', made, placed, h'⟩ := insert_spec h arg1 channel
  cases after with
  | nil =>
    rw [append_nil] at h
    rw [inUse_nil arg1 h]
    simp only [bind_some, made, placed]
    exact ⟨c', _, rfl, Or.inr ⟨before, [], rfl, smaller, by simp, h'⟩⟩
  | cons entry after =>
    rw [inUse_cons arg1 h]
    by_cases eq : lower arg1 = lower entry.1
    · rw [if_pos eq]
      exact ⟨c, _, rfl, Or.inl ⟨⟨entry, by simp, eq.symm⟩, rfl⟩⟩
    · rw [if_neg eq]
      simp only [bind_some, made, placed]
      have fst : lower arg1 < key entry := lt_of_le_of_ne (larger entry after rfl) eq
      refine ⟨c', _, rfl, Or.inr ⟨before, entry :: after, rfl, smaller, ?_, h'⟩⟩
      intro o mem
      rcases mem_cons.mp mem with rfl | later
      · exact fst
      · exact lt_trans fst (increasing.smaller.2 o later)

theorem doDelcom_spec (h : Holds c entries) (enabled : w.haveComsys = true) :
    ∃ c' notes, doDelcom w arg1 c = some (c', notes) ∧
      ((∀ entry ∈ entries, key entry ≠ lower arg1) ∧ c' = c ∨
        ∃ before entry after, entries = before ++ entry :: after ∧ key entry = lower arg1 ∧
          Holds c' (before ++ after)) := by
  rw [doDelcom, enabled]
  rcases @findAlias_spec c [] _ arg1 (by simpa using h) with
    ⟨ran, missing⟩ | ⟨before, entry, after, split, is, ran⟩
  · rw [length_nil, ← h.count] at ran
    simp only [ran]
    exact ⟨c, _, rfl, Or.inl ⟨missing, rfl⟩⟩
  · rw [length_nil, nil_append, ← h.count] at ran
    subst split
    obtain ⟨c', removed, h'⟩ := remove_spec h
    simp only [ran, bind_eq_bind, bind_some, h.readChannel, removed]
    exact ⟨c', _, rfl, Or.inr ⟨before, entry, after, rfl, is, h'⟩⟩

theorem clearFrom_spec (h : Holds c entries) (enabled : w.haveComsys = true) :
    ∃ c' notes, clearFrom w entries.length c = some (c', notes) ∧ Holds c' [] := by
  generalize size : entries.length = n
  induction n generalizing c entries with
  | zero =>
    rw [length_eq_zero_iff.mp size] at h
    exact ⟨c, [], rfl, h⟩
  | succ n ih =>
    obtain ⟨entries, last, rfl⟩ : ∃ rest last, entries = rest ++ [last] := by
      rcases eq_nil_or_concat entries with rfl | ⟨rest, last, split⟩
      · cases size
      · exact ⟨rest, last, by rw [split, concat_eq_append]⟩
    have length : entries.length = n := by simpa using size
    have stored := h.readAlias
    rw [length] at stored
    obtain ⟨c₁, notes, ran, ⟨missing, _⟩ | ⟨before, entry, after, split, _, h'⟩⟩ :=
      @doDelcom_spec _ _ _ last.1 h enabled
    · exact absurd rfl (missing last (by simp))
    · have shorter : (before ++ after).length = n := by
        have sizes := congrArg List.length split
        simp only [length_append, length_cons, length_nil] at sizes ⊢
        omega
      obtain ⟨c', more, ran', cleared⟩ := ih h' shorter
      refine ⟨c', notes ++ more, ?_, cleared⟩
      simp only [clearFrom, stored, ran, ran', bind_eq_bind, bind_some]

end Commands

/-! ## The map -/

/-- What the aliases are for: an alias, whatever its case, gives the alias that is stored and
its channel. -/
abbrev AliasMap := Text → Option (Text × Text)

def opMap (m : AliasMap) : Op → AliasMap
  | .addcom w arg1 arg2 =>
    match checkAddcom w arg1 arg2 with
    | .error _ => m
    | .ok (channel, _) =>
      if (m (lower arg1)).isSome then m
      else update m (lower (arg1.take 5)) (some (arg1.take 5, channel))
  | .delcom w arg1 => if w.haveComsys then update m (lower arg1) none else m
  | .clearcom w => if w.haveComsys then fun _ => none else m

/-- The table is strictly in the order of the search and holds the map, and the search finds
what the map says. -/
structure Sound (c : Commac) (m : AliasMap) : Prop where
  table : ∃ entries, Holds c entries ∧
    entries.Pairwise (fun first second => strcasecmp first.1 second.1 = .lt) ∧
    (∀ entry ∈ entries, entry.1.length ≤ 5) ∧ ∀ target, lookup key entries target = m target
  found : ∀ alias',
    getChannelFromAlias c alias' = some ((m (lower alias')).elim [] Prod.snd)

/-- A long alias is not added beside the one it is cut to. -/
def Fits (c : Commac) : Op → Prop
  | .addcom w arg1 arg2 =>
    (∃ names, checkAddcom w arg1 arg2 = .ok names) → 5 < arg1.length →
      ∀ i < c.numchannels, ∀ stored, readCell c.alias' i = some stored →
        lower stored ≠ lower (arg1.take 5)
  | .delcom .. => True
  | .clearcom .. => True

section Map

variable {c : Commac} {m : AliasMap} {entries before after : List (Text × Text)}

theorem increasing_iff : Increasing key entries ↔
    entries.Pairwise fun fst snd => strcasecmp fst.1 snd.1 = .lt := by
  simp only [strcasecmp_lt_iff]
  rfl

theorem sound_of (h : Holds c entries) (increasing : Increasing key entries)
    (short : ∀ entry ∈ entries, entry.1.length ≤ 5)
    (maps : ∀ target, lookup key entries target = m target) : Sound c m where
  table := ⟨entries, h, increasing_iff.mp increasing, short, maps⟩
  found := fun alias' => by rw [getChannelFromAlias_spec h increasing, maps]

theorem sound_createNewCommac : Sound createNewCommac fun _ => none :=
  sound_of holds_createNewCommac List.Pairwise.nil (by simp) fun _ => rfl

theorem lookup_of_mem {entry : Text × Text} (increasing : Increasing key entries)
    (mem : entry ∈ entries) : lookup key entries (key entry) = some entry := by
  obtain ⟨before, after, rfl⟩ := append_of_mem mem
  exact Bisection.lookup_of_present increasing

theorem key_le_cut {entry : Text × Text} {arg1 : Text} (short : entry.1.length ≤ 5)
    (less : key entry < lower arg1) : key entry ≤ lower (arg1.take 5) := by
  rw [lower_take]
  exact le_take_of_lt (le_of_eq_of_le (length_lower entry.1) short) less

theorem cut_le (arg1 : Text) : lower (arg1.take 5) ≤ lower arg1 := by
  rw [lower_take]
  exact take_le 5 (lower arg1)

theorem Holds.stored_iff (h : Holds c entries) {text : Text} :
    (∃ i < c.numchannels, readCell c.alias' i = some text) ↔ ∃ entry ∈ entries, entry.1 = text := by
  constructor
  · rintro ⟨i, hin, read⟩
    rw [h.count] at hin
    obtain ⟨split, length⟩ := Bisection.split_at (getElem?_eq_getElem hin)
    have stored := (split ▸ h).readAlias
    rw [length] at stored
    exact ⟨entries[i], getElem_mem hin, some.inj (stored.symm.trans read)⟩
  · rintro ⟨entry, mem, rfl⟩
    obtain ⟨before, after, rfl⟩ := append_of_mem mem
    exact ⟨before.length, by simp [h.count], h.readAlias⟩

end Map

/-! ## Runs -/

section Runs

variable {c : Commac} {m : AliasMap} {w : World} {arg1 arg2 : Text}

section

variable (sound : Sound c m)
include sound

theorem addcom_refused {note : Text} (checked : checkAddcom w arg1 arg2 = .error note) :
    ∃ c', step c (.addcom w arg1 arg2) = some c' ∧ Sound c' (opMap m (.addcom w arg1 arg2)) := by
  refine ⟨c, ?_, ?_⟩
  · rw [step, doAddcom, checked]
    rfl
  · rw [opMap, checked]
    exact sound

theorem addcom_step {names : Text × Text} (checked : checkAddcom w arg1 arg2 = .ok names) :
    ∃ c', step c (.addcom w arg1 arg2) = some c' ∧
      (Fits c (.addcom w arg1 arg2) → Sound c' (opMap m (.addcom w arg1 arg2))) ∧
      (¬Fits c (.addcom w arg1 arg2) → ∀ m', ¬Sound c' m') := by
  obtain ⟨entries, h, ordered, short, maps⟩ := sound.table
  have increasing := increasing_iff.mpr ordered
  obtain ⟨c', notes, ran, used | new⟩ := doAddcom_spec h increasing checked
  · obtain ⟨⟨entry, mem, eq⟩, rfl⟩ := used
    have stored := lookup_of_mem increasing mem
    rw [maps, eq] at stored
    refine ⟨c', by rw [step, ran]; rfl, fun _ => ?_, fun clash => absurd ?_ clash⟩
    · rw [opMap, checked]
      dsimp only
      rw [if_pos (by rw [stored]; rfl)]
      exact sound
    · -- an alias that is stored is no longer than five letters
      intro _ long
      have fits := short entry mem
      have lengths := congrArg List.length eq
      rw [key, length_lower, length_lower] at lengths
      exact absurd long (not_lt.mpr (lengths ▸ fits))
  · obtain ⟨before, after, rfl, smaller, larger, h'⟩ := new
    refine ⟨c', by rw [step, ran]; rfl, fun fits => ?_, fun clash m' sound' => ?_⟩
    · have apart : ∀ entry ∈ before, key entry < lower (arg1.take 5) := by
        intro entry mem
        refine lt_of_le_of_ne
          (key_le_cut (short entry (mem_append_left _ mem)) (smaller entry mem)) ?_
        by_cases long : 5 < arg1.length
        · obtain ⟨i, hin, read⟩ :=
            h.stored_iff.mpr ⟨entry, mem_append_left _ mem, rfl⟩
          exact fits ⟨names, checked⟩ long i hin entry.1 read
        · rw [take_of_length_le (not_lt.mp long)]
          exact ne_of_lt (smaller entry mem)
      have missing : m (lower arg1) = none := by
        rw [← maps]
        refine Bisection.lookup_eq_none fun entry mem => ?_
        rcases mem_append.mp mem with earlier | later
        · exact ne_of_lt (smaller entry earlier)
        · exact ne_of_gt (larger entry later)
      obtain ⟨increasing', maps'⟩ := @Bisection.Increasing.put _ _ _ _ (arg1.take 5, names.1) _ [] _
        (by simpa using increasing) apart
        (fun entry mem => lt_of_le_of_lt (cut_le arg1) (larger entry mem)) (by simp)
      refine sound_of h' increasing' (fun entry mem => ?_) fun target => ?_
      · rcases Bisection.mem_middle.mp mem with rfl | old
        · exact length_take_le 5 arg1
        · exact short entry old
      · rw [opMap, checked]
        dsimp only
        rw [maps', if_neg (by simp [missing] : ¬(m (lower arg1)).isSome), Function.update_apply,
          append_nil, maps]
        exact ite_congr rfl (fun _ => rfl) fun _ => rfl
    · obtain ⟨entries', h'', ordered', _, _⟩ := sound'.table
      rw [← h'.unique h''] at ordered'
      refine clash fun _ long i hin stored read eq => ?_
      obtain ⟨entry, mem, rfl⟩ := h.stored_iff.mp ⟨i, hin, read⟩
      have sides := (increasing_iff.mpr ordered').smaller
      rcases mem_append.mp mem with earlier | later
      · exact absurd eq (ne_of_lt (sides.1 entry earlier))
      · exact absurd eq (ne_of_gt (sides.2 entry later))

theorem delcom_step :
    ∃ c', step c (.delcom w arg1) = some c' ∧ Sound c' (opMap m (.delcom w arg1)) := by
  obtain ⟨entries, h, ordered, short, maps⟩ := sound.table
  have increasing := increasing_iff.mpr ordered
  by_cases enabled : w.haveComsys = true
  · rw [opMap, if_pos enabled]
    obtain ⟨c', notes, ran, ⟨missing, rfl⟩ | ⟨before, entry, after, rfl, is, h'⟩⟩ :=
      @doDelcom_spec _ _ _ arg1 h enabled
    · refine ⟨c', by rw [step, ran]; rfl, ?_⟩
      rw [Function.update_eq_self_iff.mpr]
      · exact sound
      · rw [← maps, Bisection.lookup_eq_none missing]
    · obtain ⟨increasing', maps'⟩ := increasing.erase
      refine ⟨c', by rw [step, ran]; rfl, sound_of h' increasing' (fun o mem => ?_)
        fun target => ?_⟩
      · exact short o (Bisection.mem_middle.mpr (Or.inr mem))
      · rw [maps', is, maps, Function.update_apply]
        exact ite_congr rfl (fun _ => rfl) fun _ => rfl
  · rw [opMap, if_neg enabled]
    refine ⟨c, ?_, sound⟩
    rw [step, doDelcom, eq_false_of_ne_true enabled]
    rfl

theorem clearcom_step :
    ∃ c', step c (.clearcom w) = some c' ∧ Sound c' (opMap m (.clearcom w)) := by
  obtain ⟨entries, h, _⟩ := sound.table
  by_cases enabled : w.haveComsys = true
  · rw [opMap, if_pos enabled]
    obtain ⟨c', notes, ran, cleared⟩ := clearFrom_spec h enabled
    refine ⟨c', ?_, sound_of cleared List.Pairwise.nil (by simp) fun _ => rfl⟩
    rw [step, doClearcom, enabled, h.count, Bool.not_true, if_neg Bool.false_ne_true, ran]
    rfl
  · rw [opMap, if_neg enabled]
    refine ⟨c, ?_, sound⟩
    rw [step, doClearcom, eq_false_of_ne_true enabled]
    rfl

theorem step_sound (op : Op) :
    ∃ c', step c op = some c' ∧ (Fits c op → Sound c' (opMap m op)) ∧
      (¬Fits c op → ∀ m', ¬Sound c' m') := by
  cases op with
  | addcom w arg1 arg2 =>
    cases checked : checkAddcom w arg1 arg2 with
    | error note =>
      obtain ⟨c', ran, sound'⟩ := addcom_refused sound checked
      refine ⟨c', ran, fun _ => sound', fun clash => absurd ?_ clash⟩
      rintro ⟨names, passes⟩
      cases checked.symm.trans passes
    | ok names => exact addcom_step sound checked
  | delcom w arg1 =>
    obtain ⟨c', ran, sound'⟩ := @delcom_step _ _ w arg1 sound
    exact ⟨c', ran, fun _ => sound', fun clash => absurd trivial clash⟩
  | clearcom w =>
    obtain ⟨c', ran, sound'⟩ := clearcom_step (w := w) sound
    exact ⟨c', ran, fun _ => sound', fun clash => absurd trivial clash⟩

end

/-- In a run the table is a strictly sorted map of what was added, the search finds it, and
no command is stuck, up to the first long alias that is added beside the one it is cut to;
there the table is no map any more. -/
theorem aliases_iff (sound : Sound c m) (ops : List Op) :
    (∀ before, before <+: ops →
        ∃ c', Machine.run step c before = some c' ∧ Sound c' (before.foldl opMap m)) ↔
      Machine.Guarded step Fits c ops := by
  induction ops generalizing c m with
  | nil =>
    refine iff_of_true (fun before none' => ?_) trivial
    rw [prefix_nil.mp none']
    exact ⟨c, rfl, sound⟩
  | cons op rest ih =>
    obtain ⟨c₁, stepped, keeps, breaks⟩ := step_sound sound op
    rw [Machine.guarded_cons_of_step rest stepped]
    constructor
    · intro always
      have fits : Fits c op := by
        by_contra clash
        obtain ⟨c', ran, sound'⟩ := always [op] (prefix_append [op] rest)
        rw [Machine.run_cons, stepped] at ran
        exact breaks clash _ (some.inj ran ▸ sound')
      refine ⟨fits, (ih (keeps fits)).mp fun before first => ?_⟩
      obtain ⟨c', ran, sound'⟩ := always (op :: before) (cons_prefix_cons.mpr ⟨rfl, first⟩)
      rw [Machine.run_cons, stepped] at ran
      exact ⟨c', ran, sound'⟩
    · rintro ⟨fits, later⟩ before first
      cases before with
      | nil => exact ⟨c, rfl, sound⟩
      | cons op' before =>
        obtain ⟨rfl, first'⟩ := cons_prefix_cons.mp first
        obtain ⟨c', ran, sound'⟩ := (ih (keeps fits)).mpr later before first'
        refine ⟨c', ?_, sound'⟩
        rw [Machine.run_cons, stepped]
        exact ran

def openWorld : World where
  haveComsys := true
  selectChannel := fun _ => true
  mayJoin := fun _ => true
  selectUser := fun _ => false

/-- Three aliases come and go. -/
theorem aliases_three :
    (∀ before, before <+: [Op.addcom openWorld "pub".toList "Public".toList,
        .addcom openWorld "Admin!!".toList "Admin,boss".toList, .delcom openWorld "PUB".toList,
        .clearcom openWorld] →
      ∃ c', Machine.run step createNewCommac before = some c' ∧
        Sound c' (before.foldl opMap fun _ => none)) ↔
    Machine.Guarded step Fits createNewCommac [.addcom openWorld "pub".toList "Public".toList,
        .addcom openWorld "Admin!!".toList "Admin,boss".toList, .delcom openWorld "PUB".toList,
        .clearcom openWorld] :=
  aliases_iff sound_createNewCommac _

/-- A long alias beside the one it is cut to: two places have the same alias, and both
commands that should find the second channel find another one or none. -/
theorem aliases_twice :
    ∃ c, Machine.run step createNewCommac [.addcom openWorld "abcde".toList "Public".toList,
        .addcom openWorld "abcdef".toList "Admin".toList] = some c ∧
      readCell c.alias' 0 = some "abcde".toList ∧ readCell c.alias' 1 = some "abcde".toList ∧
      getChannelFromAlias c "abcde".toList = some "Public".toList ∧
      getChannelFromAlias c "abcdef".toList = some [] := by
  refine ⟨_, rfl, ?_⟩
  decide

end Runs

end BattletechMux.Channels.Aliases
