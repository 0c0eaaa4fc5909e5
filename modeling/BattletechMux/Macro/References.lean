/-
Module: BattletechMux.Macro.References
Purpose: The slots of all players through any sequence of commands.
-/
import BattletechMux.Macro.Sets

namespace BattletechMux.Macro

open List Option

open CText (atoi)
open Players (isNumber)

/-! ## Records -/

/-- Records are in the bucket of their player, one for each. -/
structure Game.Chains (g : Game) : Prop where
  buckets : ∀ i, ∀ c ∈ g.commacTable i, c.who % numCommac = i
  unique : ∀ i, ((g.commacTable i).map Commac.who).Nodup

namespace Game

variable {g : Game} {c : Commac} {player : Nat}

theorem commac_who (hf : g.commac player = some c) : c.who = player :=
  beq_iff_eq.mp (find?_some (p := fun c : Commac => c.who == player) hf)

theorem commac_addCommac (g : Game) (c : Commac) (who : Nat) :
    (g.addCommac c).commac who = if c.who = who then some c else g.commac who := by
  unfold commac addCommac
  by_cases eq : c.who = who
  · subst eq
    simp
  · rw [if_neg eq]
    by_cases bucket : who % numCommac = c.who % numCommac
    · simp [bucket, eq]
    · simp [bucket]

theorem commac_store (g : Game) (c : Commac) (who : Nat) :
    (g.store c).commac who =
      if c.who = who then (g.commac who).map fun _ => c else g.commac who := by
  have keeps : ∀ d : Commac, (if d.who = c.who then c else d).who = d.who := by
    intro d
    split
    · rename_i eq
      exact eq.symm
    · rfl
  have mapped : ∀ list : List Commac,
      (list.map fun d => if d.who = c.who then c else d).find? (fun d => d.who == who) =
        (list.find? fun d => d.who == who).map fun d => if d.who = c.who then c else d := by
    intro list
    rw [find?_map]
    exact congrArg (Option.map _) (congrArg (List.find? · list) (funext fun d => by
      rw [Function.comp_apply, keeps]))
  unfold commac store
  by_cases bucket : who % numCommac = c.who % numCommac
  · simp only [bucket, Function.update_self, mapped]
    cases hf : (g.commacTable (c.who % numCommac)).find? fun d => d.who == who with
    | none => simp
    | some d =>
      have owner : d.who = who :=
        beq_iff_eq.mp (find?_some (p := fun d : Commac => d.who == who) hf)
      by_cases eq : c.who = who
      · simp [owner, eq]
      · simp [owner, eq, Ne.symm eq]
  · have o : c.who ≠ who := fun eq => bucket (eq ▸ rfl)
    rw [if_neg o]
    simp [bucket]

theorem commac_map (g : Game) (f : Commac → Commac) (keeps : ∀ c, (f c).who = c.who)
    (who : Nat) :
    ({ g with commacTable := fun i => (g.commacTable i).map f } : Game).commac who =
      (g.commac who).map f := by
  unfold commac
  rw [find?_map]
  exact congrArg (Option.map f) (congrArg (List.find? · _) (funext fun d => by
    rw [Function.comp_apply, keeps]))

theorem find?_eraseP_other (list : List Commac) {who o : Nat} (apart : who ≠ o) :
    (list.eraseP fun c => c.who == o).find? (fun c => c.who == who) =
      list.find? fun c => c.who == who := by
  induction list with
  | nil => rfl
  | cons c rest ih =>
    by_cases here : c.who = o
    · simp [here, Ne.symm apart]
    · by_cases hf : c.who = who
      · simp [hf, apart]
      · simp [here, hf, ih]

theorem find?_eraseP_self (list : List Commac) (who : Nat)
    (unique : (list.map Commac.who).Nodup) :
    (list.eraseP fun c => c.who == who).find? (fun c => c.who == who) = none := by
  induction list with
  | nil => rfl
  | cons c rest ih =>
    rw [map_cons, nodup_cons] at unique
    by_cases here : c.who = who
    · rw [eraseP_cons_of_pos (by simp [here]), find?_eq_none]
      intro d mem eq
      refine unique.1 (mem_map.mpr ⟨d, mem, ?_⟩)
      rw [here]
      exact beq_iff_eq.mp eq
    · rw [eraseP_cons_of_neg (by simp [here]), find?_cons_of_neg (by simp [here])]
      exact ih unique.2

section

variable (chains : g.Chains)
include chains

theorem commac_delCommac (who o : Nat) :
    (g.delCommac o).commac who = if who = o then none else g.commac who := by
  unfold commac delCommac
  by_cases eq : who = o
  · subst eq
    rw [if_pos rfl]
    simp [find?_eraseP_self _ who (chains.unique _)]
  · rw [if_neg eq]
    by_cases bucket : who % numCommac = o % numCommac
    · simp [bucket, find?_eraseP_other _ eq]
    · simp [bucket]

theorem Chains.addCommac (new : g.commac c.who = none) : (g.addCommac c).Chains := by
  constructor
  · intro i d mem
    by_cases bucket : i = c.who % numCommac
    · subst bucket
      simp only [Game.addCommac, Function.update_self] at mem
      rcases mem_cons.mp mem with rfl | old
      · rfl
      · exact chains.buckets _ d old
    · simp only [Game.addCommac, Function.update_of_ne bucket] at mem
      exact chains.buckets i d mem
  · intro i
    by_cases bucket : i = c.who % numCommac
    · subst bucket
      simp only [Game.addCommac, Function.update_self, map_cons, nodup_cons]
      refine ⟨fun mem => ?_, chains.unique _⟩
      obtain ⟨d, there, eq⟩ := mem_map.mp mem
      exact find?_eq_none.mp new d there (beq_iff_eq.mpr eq)
    · simp only [Game.addCommac, Function.update_of_ne bucket]
      exact chains.unique i

theorem Chains.map {f : Nat → Commac → Commac} (keeps : ∀ i c, (f i c).who = c.who) :
    ({ g with commacTable := fun i => (g.commacTable i).map (f i) } : Game).Chains := by
  constructor
  · intro i c mem
    obtain ⟨d, there, rfl⟩ := mem_map.mp mem
    rw [keeps]
    exact chains.buckets i d there
  · intro i
    have eq : Commac.who ∘ f i = Commac.who := funext (keeps i)
    simpa [eq] using chains.unique i

theorem Chains.store (c : Commac) : (g.store c).Chains := by
  have table : (g.store c).commacTable = fun i => (g.commacTable i).map fun d =>
      if i = c.who % numCommac ∧ d.who = c.who then c else d := by
    funext i
    by_cases bucket : i = c.who % numCommac
    · subst bucket
      simp [Game.store]
    · simp [Game.store, bucket]
  have moved := chains.map (f := fun i d => if i = c.who % numCommac ∧ d.who = c.who then c else d)
    (fun i d => by
      split
      · rename_i eq
        exact eq.2.symm
      · rfl)
  exact ⟨table ▸ moved.buckets, table ▸ moved.unique⟩

theorem Chains.delCommac (who : Nat) : (g.delCommac who).Chains := by
  have sub : ∀ i, ((g.delCommac who).commacTable i).Sublist (g.commacTable i) := by
    intro i
    by_cases bucket : i = who % numCommac
    · subst bucket
      simp only [Game.delCommac, Function.update_self]
      exact eraseP_sublist
    · simp only [Game.delCommac, Function.update_of_ne bucket]
      exact List.Sublist.refl _
  exact ⟨fun i c mem => chains.buckets i c ((sub i).subset mem),
    fun i => (chains.unique i).sublist ((sub i).map _)⟩

end

/-! ## Slots -/

/-- What is in the record of a player; a player without a record has nothing in use. -/
def read (g : Game) (who : Nat) (field : Commac → Int) : Int :=
  match g.commac who with
  | some c => field c
  | none => -1

def slot (g : Game) (who : Nat) (j : Slot) : Int := g.read who fun c => c.macros j

def current (g : Game) (who : Nat) : Int := g.read who Commac.curmac

def denotes (g : Game) (who : Nat) (j : Slot) (p : Ptr) : Prop :=
  ∃ i : Nat, g.slot who j = i ∧ g.macros[i]? = some p

theorem read_of_commac (hf : g.commac player = some c) (field : Commac → Int) :
    g.read player field = field c := by
  rw [read, hf]

theorem denotes_unique {who : Nat} {j : Slot} {p q : Ptr} (one : g.denotes who j p)
    (two : g.denotes who j q) : p = q := by
  obtain ⟨i, index, there⟩ := one
  obtain ⟨k, index', there'⟩ := two
  obtain rfl : i = k := by omega
  exact some.inj (there.symm.trans there')

variable {p : Ptr}

theorem not_empty_of_denotes {who : Nat} {j : Slot} (one : g.denotes who j p) :
    g.slot who j ≠ -1 := by
  obtain ⟨i, index, -⟩ := one
  omega

theorem getCommac_found (g : Game) (player : Nat) :
    (g.getCommac player).2.commac player = some (g.getCommac player).1 := by
  unfold getCommac
  cases hf : g.commac player with
  | none => exact (commac_addCommac g _ player).trans (if_pos rfl)
  | some c => exact hf

theorem getCommac_who (g : Game) (player : Nat) : (g.getCommac player).1.who = player :=
  commac_who (g.getCommac_found player)

theorem getCommac_memory (g : Game) (player : Nat) :
    (g.getCommac player).2.macros = g.macros ∧ (g.getCommac player).2.memory = g.memory ∧
      (g.getCommac player).2.fresh = g.fresh := by
  unfold getCommac
  cases g.commac player <;> exact ⟨rfl, rfl, rfl⟩

theorem read_getCommac (g : Game) (player who : Nat) {field : Commac → Int}
    (new : field (createNewCommac player) = -1) :
    (g.getCommac player).2.read who field = g.read who field := by
  unfold getCommac
  cases hf : g.commac player with
  | some c => rfl
  | none =>
    unfold read
    rw [commac_addCommac]
    by_cases here : player = who
    · subst here
      rw [if_pos (show (createNewCommac player).who = player from rfl), hf]
      exact new
    · rw [if_neg (show (createNewCommac player).who ≠ who from here)]

theorem Chains.getCommac (chains : g.Chains) (player : Nat) :
    (g.getCommac player).2.Chains := by
  unfold Game.getCommac
  cases hf : g.commac player with
  | some c => exact chains
  | none => exact chains.addCommac hf

theorem read_store (hf : g.commac player = some c) {c' : Commac} (eq : c'.who = player)
    (who : Nat) (field : Commac → Int) :
    (g.store c').read who field = if who = player then field c' else g.read who field := by
  unfold read
  rw [commac_store, eq]
  by_cases here : player = who
  · subst here
    rw [if_pos rfl, if_pos rfl, hf]
    rfl
  · rw [if_neg here, if_neg (Ne.symm here)]

theorem read_delCommac (chains : g.Chains) (o who : Nat) (field : Commac → Int) :
    (g.delCommac o).read who field = if who = o then -1 else g.read who field := by
  unfold read
  rw [commac_delCommac chains]
  by_cases eq : who = o
  · rw [if_pos eq, if_pos eq]
  · rw [if_neg eq, if_neg eq]

theorem clearSlot_who (set : Int) (c : Commac) (j : Slot) : (clearSlot set c j).who = c.who := by
  unfold clearSlot
  split
  · rfl
  · split <;> rfl

theorem clearSlots_who (set : Int) (c : Commac) : (clearSlots set c).who = c.who := by
  unfold clearSlots
  generalize List.finRange 5 = slots
  induction slots generalizing c with
  | nil => rfl
  | cons j rest ih =>
    rw [foldl_cons, ih, clearSlot_who]

def shifted (set v : Int) : Int := if v = set then -1 else if set < v then v - 1 else v

theorem clearSlot_macros (set : Int) (c : Commac) (j k : Slot) :
    (clearSlot set c j).macros k = if k = j then shifted set (c.macros k) else c.macros k := by
  unfold clearSlot shifted fill
  by_cases here : k = j
  · subst here
    rw [if_pos rfl]
    split
    · simp
    · split <;> simp
  · rw [if_neg here]
    split
    · simp [here]
    · split <;> simp [here]

theorem clearSlot_curmac (set : Int) (c : Commac) (j : Slot) :
    ((clearSlot set c j).curmac = -1 ∧ c.curmac = (j : Nat) ∧ c.macros j = set) ∨
      ((clearSlot set c j).curmac = c.curmac ∧ (c.curmac = (j : Nat) → c.macros j ≠ set)) := by
  unfold clearSlot
  by_cases eq : c.macros j = set
  · by_cases points : c.curmac = (j : Nat)
    · exact Or.inl ⟨by rw [if_pos eq]; exact if_pos points, points, eq⟩
    · exact Or.inr ⟨by rw [if_pos eq]; exact if_neg points, fun there => absurd there points⟩
  · refine Or.inr ⟨?_, fun _ => eq⟩
    rw [if_neg eq]
    split <;> rfl

theorem foldl_clearSlot_macros (set : Int) (c : Commac) (slots : List Slot)
    (nodup : slots.Nodup) (k : Slot) :
    (slots.foldl (clearSlot set) c).macros k =
      if k ∈ slots then shifted set (c.macros k) else c.macros k := by
  induction slots generalizing c with
  | nil => simp
  | cons j rest ih =>
    obtain ⟨new, nodup'⟩ := nodup_cons.mp nodup
    rw [foldl_cons, ih _ nodup', clearSlot_macros]
    by_cases here : k = j
    · subst here
      simp [new]
    · simp [here]

theorem clearSlots_macros (set : Int) (c : Commac) (k : Slot) :
    (clearSlots set c).macros k = shifted set (c.macros k) := by
  rw [clearSlots, foldl_clearSlot_macros set c _ (nodup_finRange 5),
    if_pos (mem_finRange k)]

theorem foldl_clearSlot_curmac (set : Int) (c : Commac) (slots : List Slot)
    (nodup : slots.Nodup) :
    (slots.foldl (clearSlot set) c).curmac = -1 ∨
      ((slots.foldl (clearSlot set) c).curmac = c.curmac ∧
        ∀ j ∈ slots, c.curmac = (j : Nat) → c.macros j ≠ set) := by
  induction slots generalizing c with
  | nil => exact Or.inr ⟨rfl, fun j mem => absurd mem not_mem_nil⟩
  | cons j rest ih =>
    obtain ⟨new, nodup'⟩ := nodup_cons.mp nodup
    rw [foldl_cons]
    rcases ih (clearSlot set c j) nodup' with cleared | ⟨stays, others⟩
    · exact Or.inl cleared
    · rcases clearSlot_curmac set c j with ⟨cleared, -, -⟩ | ⟨eq, o⟩
      · exact Or.inl (stays.trans cleared)
      · refine Or.inr ⟨stays.trans eq, fun k mem points => ?_⟩
        rcases mem_cons.mp mem with rfl | later
        · exact o points
        · have apart : k ≠ j := fun equal => new (equal ▸ later)
          have unequal := others k later (eq.trans points)
          rwa [clearSlot_macros, if_neg apart] at unequal

theorem clearSlots_curmac (set : Int) (c : Commac) :
    (clearSlots set c).curmac = -1 ∨
      ((clearSlots set c).curmac = c.curmac ∧
        ∀ j : Slot, c.curmac = (j : Nat) → c.macros j ≠ set) := by
  rcases foldl_clearSlot_curmac set c _ (nodup_finRange 5) with cleared | ⟨stays, others⟩
  · exact Or.inl cleared
  · exact Or.inr ⟨stays, fun j => others j (mem_finRange j)⟩

/-! ## What commands do -/

/-- The sets are different blocks that were given out and are not free. -/
structure Base (g : Game) : Prop extends g.Chains where
  live : ∀ p ∈ g.macros, (g.memory p).isSome
  nodup : g.macros.Nodup
  old : ∀ p ∈ g.macros, p < g.fresh

/-- Slots in use denote sets, and a current slot is in use. -/
structure Pointing (g : Game) : Prop where
  slots : ∀ who j, g.slot who j = -1 ∨ ∃ p, g.denotes who j p
  current : ∀ who, g.current who = -1 ∨
    ∃ j : Slot, g.current who = (j : Nat) ∧ g.slot who j ≠ -1

def Empties (who : Nat) : Command → Prop
  | .del player _ => player = who
  | .toast player _ => player = who
  | _ => False

/-- What becomes of the slots: each denotes what it did, or became empty since its set was
cleared or its player gave it up; one that was empty may have been filled. -/
structure Moves (g : Game) (cmd : Command) (g' : Game) : Prop where
  base : g'.Base
  kept : ∀ who j p, g.denotes who j p → g'.denotes who j p ∨
    (g'.slot who j = -1 ∧ (p ∉ g'.macros ∨ Empties who cmd))
  filled : ∀ who j, g.slot who j = -1 → g'.slot who j = -1 ∨ ∃ p, g'.denotes who j p
  current : ∀ who, g'.current who = -1 ∨
    ∃ j : Slot, g'.current who = (j : Nat) ∧ g'.slot who j ≠ -1

theorem slotAt_coe (j : Slot) : slotAt ((j : Nat) : Int) = some j := by
  unfold slotAt
  rw [dif_pos (by omega)]
  simp

theorem setAt_of_denotes {who : Nat} {j : Slot} (denotes : g.denotes who j p) :
    g.setAt (g.slot who j) = some p ∧ g.gMac (g.slot who j) = true := by
  obtain ⟨i, index, there⟩ := denotes
  have below := (List.getElem?_eq_some_iff.mp there).1
  rw [index]
  refine ⟨?_, decide_eq_true ⟨Int.natCast_nonneg i, Int.ofNat_lt.mpr below⟩⟩
  rw [setAt, if_pos (Int.natCast_nonneg i), Int.toNat_natCast, there]

theorem Moves.of_same {g' : Game} (cmd : Command) (pointing : g.Pointing) (base : g'.Base)
    (macros : g'.macros = g.macros) (slots : ∀ who j, g'.slot who j = g.slot who j)
    (current : ∀ who, g'.current who = g.current who) : g.Moves cmd g' := by
  have denotes : ∀ who j p, g'.denotes who j p ↔ g.denotes who j p := by
    intro who j p
    unfold Game.denotes
    rw [slots, macros]
  refine ⟨base, fun who j p there => Or.inl ((denotes who j p).mpr there),
    fun who j empty => Or.inl ((slots who j).trans empty), fun who => ?_⟩
  rw [current]
  rcases pointing.current who with none' | ⟨j, points, used⟩
  · exact Or.inl none'
  · exact Or.inr ⟨j, points, by rwa [slots]⟩

theorem Base.getCommac (base : g.Base) (player : Nat) : (g.getCommac player).2.Base := by
  obtain ⟨macros, memory, fresh⟩ := g.getCommac_memory player
  refine ⟨base.toChains.getCommac player, ?_, ?_, ?_⟩
  · rw [macros, memory]
    exact base.live
  · rw [macros]
    exact base.nodup
  · rw [macros, fresh]
    exact base.old

theorem Pointing.getCommac (pointing : g.Pointing) (player : Nat) :
    (g.getCommac player).2.Pointing := by
  have slots : ∀ who j, (g.getCommac player).2.slot who j = g.slot who j := fun who j =>
    g.read_getCommac player who rfl
  have current : ∀ who, (g.getCommac player).2.current who = g.current who := fun who =>
    g.read_getCommac player who rfl
  refine ⟨fun who j => ?_, fun who => ?_⟩
  · unfold Game.denotes
    rw [slots, (g.getCommac_memory player).1]
    exact pointing.slots who j
  · rw [current]
    simp only [slots]
    exact pointing.current who

variable {cmd : Command}

theorem Moves.of_getCommac {player : Nat} {g' : Game}
    (moves : (g.getCommac player).2.Moves cmd g') : g.Moves cmd g' := by
  have slots : ∀ who j, (g.getCommac player).2.slot who j = g.slot who j := fun who j =>
    g.read_getCommac player who rfl
  refine ⟨moves.base, fun who j p denotes => moves.kept who j p ?_,
    fun who j empty => moves.filled who j ?_, moves.current⟩
  · unfold Game.denotes at *
    rwa [slots, (g.getCommac_memory player).1]
  · rwa [slots]

theorem Moves.of_store {g' : Game} (pointing : g.Pointing) (base : g'.Base)
    (table : g'.commacTable = g.commacTable)
    (sets : ∀ (i : Nat) (p : Ptr), g.macros[i]? = some p → g'.macros[i]? = some p)
    (hf : g.commac player = some c) {c' : Commac} (eq : c'.who = player)
    (slots : ∀ j, c'.macros j = c.macros j ∨ (c'.macros j = -1 ∧ Empties player cmd) ∨
      (c.macros j = -1 ∧ ∃ (i : Nat) (p : Ptr), c'.macros j = i ∧ g'.macros[i]? = some p))
    (current : c'.curmac = -1 ∨ ∃ j : Slot, c'.curmac = (j : Nat) ∧ c'.macros j ≠ -1) :
    g.Moves cmd (g'.store c') := by
  have records : ∀ who, g'.commac who = g.commac who := fun who => by
    unfold commac
    rw [table]
  have hf' : g'.commac player = some c := (records player).trans hf
  have post : ∀ who field, (g'.store c').read who field =
      if who = player then field c' else g.read who field := by
    intro who field
    rw [read_store hf' eq]
    unfold read
    rw [records]
  have pre : ∀ j, g.slot player j = c.macros j := fun j => read_of_commac hf _
  refine ⟨⟨base.toChains.store c', base.live, base.nodup, base.old⟩, ?_, ?_, ?_⟩
  · rintro who j p ⟨i, index, there⟩
    by_cases here : who = player
    · subst here
      rw [pre] at index
      rcases slots j with stays | ⟨empty, given⟩ | ⟨empty, -⟩
      · refine Or.inl ⟨i, ?_, sets i p there⟩
        rw [slot, post, if_pos rfl, stays, index]
      · refine Or.inr ⟨?_, Or.inr given⟩
        rw [slot, post, if_pos rfl, empty]
      · omega
    · refine Or.inl ⟨i, ?_, sets i p there⟩
      rw [slot, post, if_neg here]
      exact index
  · intro who j empty
    by_cases here : who = player
    · subst here
      rw [pre] at empty
      unfold denotes
      rw [slot, post, if_pos rfl]
      rcases slots j with stays | ⟨none', -⟩ | ⟨-, i, p, index, there⟩
      · exact Or.inl (stays.trans empty)
      · exact Or.inl none'
      · exact Or.inr ⟨p, i, index, there⟩
    · left
      rw [slot, post, if_neg here]
      exact empty
  · intro who
    rw [Game.current, post]
    by_cases here : who = player
    · subst here
      rw [if_pos rfl]
      rcases current with none' | ⟨j, points, used⟩
      · exact Or.inl none'
      · refine Or.inr ⟨j, points, ?_⟩
        rwa [slot, post, if_pos rfl]
    · rw [if_neg here]
      rcases pointing.current who with none' | ⟨j, points, used⟩
      · exact Or.inl none'
      · refine Or.inr ⟨j, points, ?_⟩
        rwa [slot, post, if_neg here]

theorem Pointing.record (pointing : g.Pointing) (hf : g.commac player = some c) :
    (∀ j, c.macros j = -1 ∨ ∃ p, g.denotes player j p) ∧
      (c.curmac = -1 ∨ ∃ j : Slot, c.curmac = (j : Nat) ∧ c.macros j ≠ -1) := by
  have slots : ∀ j, g.slot player j = c.macros j := fun j => read_of_commac hf _
  have points : g.current player = c.curmac := read_of_commac hf _
  refine ⟨fun j => slots j ▸ pointing.slots player j, ?_⟩
  rw [← points]
  simp only [← slots]
  exact pointing.current player

theorem firstFree_empty {first : Slot} (free : firstFree c = some first) :
    c.macros first = -1 :=
  beq_iff_eq.mp (find?_some (p := fun i => c.macros i == -1) free)

theorem fill_macros (c : Commac) (i j : Slot) (set : Int) :
    (fill c i set).macros j = if j = i then set else c.macros j :=
  Function.update_apply c.macros i set j

theorem fill_slots {fst : Slot} (empty : c.macros fst = -1) {sets : List Ptr} {i : Nat}
    (there : sets[i]? = some p) (given : Prop) (j : Slot) :
    (fill c fst i).macros j = c.macros j ∨ ((fill c fst i).macros j = -1 ∧ given) ∨
      (c.macros j = -1 ∧
        ∃ (i' : Nat) (p : Ptr), (fill c fst i).macros j = i' ∧ sets[i']? = some p) := by
  rw [fill_macros]
  by_cases here : j = fst
  · rw [if_pos here]
    exact Or.inr (Or.inr ⟨here ▸ empty, i, p, rfl, there⟩)
  · exact Or.inl (if_neg here)

theorem fill_current {fst : Slot} (empty : c.macros fst = -1) {set : Int}
    (current : c.curmac = -1 ∨ ∃ j : Slot, c.curmac = (j : Nat) ∧ c.macros j ≠ -1) :
    c.curmac = -1 ∨ ∃ j : Slot, c.curmac = (j : Nat) ∧ (fill c fst set).macros j ≠ -1 := by
  refine current.imp_right fun ⟨j, points, used⟩ => ⟨j, points, ?_⟩
  have apart : j ≠ fst := fun eq => used (eq ▸ empty)
  rwa [fill_macros, if_neg apart]

theorem createMacro_moves (pointing : g.Pointing) (base : g.Base) (player : Nat) (s : Text) :
    ∃ g', g.perform (.create player s) = some g' ∧ g.Moves (.create player s) g' := by
  have pointing := pointing.getCommac player
  have base := base.getCommac player
  have hf := g.getCommac_found player
  have owner := g.getCommac_who player
  suffices post : ∃ g', g.perform (.create player s) = some g' ∧
      (g.getCommac player).2.Moves (.create player s) g' by
    obtain ⟨g', performed, moves⟩ := post
    exact ⟨g', performed, moves.of_getCommac⟩
  unfold perform createMacro
  dsimp only
  generalize (g.getCommac player).1 = c at *
  generalize (g.getCommac player).2 = g at *
  cases free : firstFree c with
  | none => exact ⟨g, rfl, .of_same _ pointing base rfl (fun _ _ => rfl) fun _ => rfl⟩
  | some fst =>
    have empty := firstFree_empty free
    refine ⟨_, rfl, ?_⟩
    dsimp only
    refine Moves.of_store pointing ?_ ?_ ?_ hf owner (fun j => ?_) ?_
    · refine ⟨⟨base.buckets, base.unique⟩, fun p mem => ?_, ?_, fun p mem => ?_⟩
      · rcases mem_append.mp mem with old | new
        · have earlier : p ≠ g.fresh := Nat.ne_of_lt (base.old p old)
          simpa [earlier] using base.live p old
        · obtain rfl := mem_singleton.mp new
          simp
      · refine nodup_append.mpr ⟨base.nodup, nodup_singleton _, ?_⟩
        intro p old q new
        rw [mem_singleton.mp new]
        exact Nat.ne_of_lt (base.old p old)
      · rcases mem_append.mp mem with old | new
        · exact Nat.lt_succ_of_lt (base.old p old)
        · rw [mem_singleton.mp new]
          exact Nat.lt_succ_self _
    · rfl
    · intro i p there
      have below := (List.getElem?_eq_some_iff.mp there).1
      rw [List.getElem?_append_left below, there]
    · exact fill_slots empty List.getElem?_concat_length _ j
    · refine Or.inr ⟨fst, rfl, ?_⟩
      show (fill c fst _).macros fst ≠ -1
      rw [fill_macros, if_pos rfl]
      omega

theorem addMacro_moves (pointing : g.Pointing) (base : g.Base) (player : Nat) (wizard : Bool)
    (s : Text) :
    ∃ g', g.perform (.add player wizard s) = some g' ∧ g.Moves (.add player wizard s) g' := by
  have pointing := pointing.getCommac player
  have base := base.getCommac player
  have hf := g.getCommac_found player
  have owner := g.getCommac_who player
  suffices post : ∃ g', g.perform (.add player wizard s) = some g' ∧
      (g.getCommac player).2.Moves (.add player wizard s) g' by
    obtain ⟨g', performed, moves⟩ := post
    exact ⟨g', performed, moves.of_getCommac⟩
  unfold perform addMacro
  dsimp only
  generalize (g.getCommac player).1 = c at *
  generalize (g.getCommac player).2 = g at *
  have eq : g.Moves (.add player wizard s) g :=
    .of_same _ pointing base rfl (fun _ _ => rfl) fun _ => rfl
  cases free : firstFree c with
  | none => exact ⟨g, rfl, eq⟩
  | some fst =>
    have empty := firstFree_empty free
    dsimp only
    by_cases number : isNumber s = true
    · rw [if_pos number]
      by_cases hin : 0 ≤ atoi s ∧ atoi s < g.macros.length
      · obtain ⟨i, index⟩ := Int.eq_ofNat_of_zero_le hin.1
        have below : i < g.macros.length := by omega
        have there := getElem?_eq_getElem below
        obtain ⟨m, live⟩ := isSome_iff_exists.mp
          (base.live g.macros[i] (getElem_mem below))
        have set : g.setAt (atoi s) = some g.macros[i] := by
          rw [setAt, if_pos hin.1, index, Int.toNat_natCast, there]
        rw [if_pos hin, set]
        simp only [bind_eq_bind, bind_some, live]
        split
        · refine ⟨_, rfl, ?_⟩
          rw [index]
          exact Moves.of_store pointing base rfl (fun _ _ => id) hf owner
            (fill_slots empty there _) (fill_current empty (pointing.record hf).2)
        · exact ⟨g, rfl, eq⟩
      · rw [if_neg hin]
        exact ⟨g, rfl, eq⟩
    · rw [if_neg number]
      exact ⟨g, rfl, eq⟩

theorem empty_slots (given : Empties player cmd) (set : Slot) {sets : List Ptr} (j : Slot) :
    (fill c set (-1)).macros j = c.macros j ∨
      ((fill c set (-1)).macros j = -1 ∧ Empties player cmd) ∨
      (c.macros j = -1 ∧
        ∃ (i : Nat) (p : Ptr), (fill c set (-1)).macros j = i ∧ sets[i]? = some p) := by
  rw [fill_macros]
  by_cases here : j = set
  · exact Or.inr (Or.inl ⟨if_pos here, given⟩)
  · exact Or.inl (if_neg here)

theorem delMacro_moves (pointing : g.Pointing) (base : g.Base) (player : Nat) (s : Text) :
    ∃ g', g.perform (.del player s) = some g' ∧ g.Moves (.del player s) g' := by
  have pointing := pointing.getCommac player
  have base := base.getCommac player
  have hf := g.getCommac_found player
  have owner := g.getCommac_who player
  suffices post : ∃ g', g.perform (.del player s) = some g' ∧
      (g.getCommac player).2.Moves (.del player s) g' by
    obtain ⟨g', performed, moves⟩ := post
    exact ⟨g', performed, moves.of_getCommac⟩
  unfold perform delMacro
  dsimp only
  generalize (g.getCommac player).1 = c at *
  generalize (g.getCommac player).2 = g at *
  have eq : g.Moves (.del player s) g :=
    .of_same _ pointing base rfl (fun _ _ => rfl) fun _ => rfl
  by_cases number : isNumber s = true
  · rw [if_pos number]
    cases at' : slotAt (atoi s) with
    | none => exact ⟨g, rfl, eq⟩
    | some set =>
      dsimp only
      have given : Empties player (.del player s) := rfl
      by_cases used : 0 ≤ c.macros set
      · rw [if_pos used]
        by_cases here : ((set : Nat) : Int) = (fill c set (-1)).curmac
        · rw [if_pos here]
          exact ⟨_, rfl, Moves.of_store pointing base rfl (fun _ _ => id) hf owner
            (empty_slots given set) (Or.inl rfl)⟩
        · rw [if_neg here]
          refine ⟨_, rfl, Moves.of_store pointing base rfl (fun _ _ => id) hf owner
            (empty_slots given set) ?_⟩
          refine (pointing.record hf).2.imp_right fun ⟨j, points, inUse⟩ => ⟨j, points, ?_⟩
          have apart : j ≠ set := fun equal => here (equal ▸ points.symm)
          rwa [fill_macros, if_neg apart]
      · rw [if_neg used]
        exact ⟨g, rfl, eq⟩
  · rw [if_neg number]
    exact ⟨g, rfl, eq⟩

theorem editMacro_moves (pointing : g.Pointing) (base : g.Base) (player : Nat) (s : Text) :
    ∃ g', g.perform (.edit player s) = some g' ∧ g.Moves (.edit player s) g' := by
  have pointing := pointing.getCommac player
  have base := base.getCommac player
  have hf := g.getCommac_found player
  have owner := g.getCommac_who player
  suffices post : ∃ g', g.perform (.edit player s) = some g' ∧
      (g.getCommac player).2.Moves (.edit player s) g' by
    obtain ⟨g', performed, moves⟩ := post
    exact ⟨g', performed, moves.of_getCommac⟩
  unfold perform editMacro
  dsimp only
  generalize (g.getCommac player).1 = c at *
  generalize (g.getCommac player).2 = g at *
  have eq : g.Moves (.edit player s) g :=
    .of_same _ pointing base rfl (fun _ _ => rfl) fun _ => rfl
  by_cases number : isNumber s = true
  · rw [if_pos number]
    cases at' : slotAt (atoi s) with
    | none => exact ⟨g, rfl, eq⟩
    | some set =>
      dsimp only
      by_cases valid : g.gMac (c.macros set) = true
      · rw [if_pos valid]
        have used : c.macros set ≠ -1 := by
          have bounds := of_decide_eq_true valid
          omega
        exact ⟨_, rfl, Moves.of_store pointing base rfl (fun _ _ => id) hf owner
          (fun _ => Or.inl rfl) (Or.inr ⟨set, rfl, used⟩)⟩
      · rw [if_neg valid]
        exact ⟨g, rfl, eq⟩
  · rw [if_neg number]
    exact ⟨g, rfl, eq⟩

section Cleared

variable {g' : Game} {i : Nat} {p : Ptr}

theorem read_clearSlots {set : Int}
    (table : g'.commacTable = fun b => (g.commacTable b).map (clearSlots set)) (who : Nat)
    (field : Commac → Int) : g'.read who field =
      match g.commac who with
      | some c => field (clearSlots set c)
      | none => -1 := by
  have moved : g'.commac who = (g.commac who).map (clearSlots set) := by
    rw [← commac_map g (clearSlots set) (clearSlots_who set) who]
    unfold commac
    rw [table]
  rw [read, moved]
  cases g.commac who <;> rfl

theorem slot_clearSlots
    (table : g'.commacTable = fun b => (g.commacTable b).map (clearSlots i)) (who : Nat)
    (j : Slot) : g'.slot who j = shifted i (g.slot who j) := by
  rw [slot, read_clearSlots table, slot, read]
  cases g.commac who with
  | some c => exact clearSlots_macros i c j
  | none =>
    dsimp only
    rw [shifted, if_neg (by omega), if_neg (by omega)]

theorem getElem?_shifted {sets : List Ptr} {k : Nat} {q : Ptr} (there : sets[k]? = some q)
    (apart : k ≠ i) :
    ∃ k' : Nat, shifted i k = k' ∧ (sets.eraseIdx i)[k']? = some q := by
  unfold shifted
  rw [if_neg (by omega)]
  rcases Nat.lt_or_gt_of_ne apart with pre | behind
  · refine ⟨k, if_neg (by omega), ?_⟩
    rw [getElem?_eraseIdx, if_pos pre, there]
  · refine ⟨k - 1, ?_, ?_⟩
    · rw [if_pos (by omega)]
      omega
    · rw [getElem?_eraseIdx, if_neg (by omega), Nat.sub_add_cancel (by omega), there]

theorem Moves.of_clear (cmd : Command) (pointing : g.Pointing) (base : g.Base)
    (there : g.macros[i]? = some p) (macros : g'.macros = g.macros.eraseIdx i)
    (memory : g'.memory = Function.update g.memory p none) (fresh : g'.fresh = g.fresh)
    (table : g'.commacTable = fun b => (g.commacTable b).map (clearSlots i)) :
    g.Moves cmd g' := by
  have slots := fun who j => slot_clearSlots table who j
  have gone : p ∉ g'.macros := by
    rw [macros, mem_eraseIdx_iff_getElem?]
    rintro ⟨k, apart, there'⟩
    obtain ⟨below, here⟩ := List.getElem?_eq_some_iff.mp there
    obtain ⟨below', here'⟩ := List.getElem?_eq_some_iff.mp there'
    exact apart (base.nodup.getElem_inj_iff.mp (here'.trans here.symm))
  have sub : ∀ q ∈ g'.macros, q ∈ g.macros := fun q mem =>
    (eraseIdx_sublist _ i).subset (macros ▸ mem)
  have renumbered : ∀ who j q, g.denotes who j q → q ≠ p → g'.denotes who j q := by
    rintro who j q ⟨k, index, there'⟩ o
    have apart : k ≠ i := fun eq => o (some.inj (there'.symm.trans (eq ▸ there)))
    obtain ⟨k', moved, there''⟩ := getElem?_shifted there' apart
    exact ⟨k', by rw [slots, index, moved], by rw [macros, there'']⟩
  refine ⟨⟨?_, fun q mem => ?_, ?_, fun q mem => ?_⟩, fun who j q denotes => ?_,
    fun who j empty => ?_, fun who => ?_⟩
  · have chains := base.toChains.map (f := fun _ => clearSlots i) fun _ => clearSlots_who i
    exact ⟨table ▸ chains.buckets, table ▸ chains.unique⟩
  · have o : q ≠ p := fun eq => gone (eq ▸ mem)
    rw [memory, Function.update_of_ne o]
    exact base.live q (sub q mem)
  · rw [macros]
    exact base.nodup.sublist (eraseIdx_sublist _ i)
  · rw [fresh]
    exact base.old q (sub q mem)
  · by_cases cleared : q = p
    · subst cleared
      obtain ⟨k, index, there'⟩ := denotes
      have eq : k = i := by
        obtain ⟨below, here⟩ := List.getElem?_eq_some_iff.mp there
        obtain ⟨below', here'⟩ := List.getElem?_eq_some_iff.mp there'
        exact base.nodup.getElem_inj_iff.mp (here'.trans here.symm)
      refine Or.inr ⟨?_, Or.inl gone⟩
      rw [slots, index, eq, shifted, if_pos rfl]
    · exact Or.inl (renumbered who j q denotes cleared)
  · left
    rw [slots, empty, shifted, if_neg (by omega), if_neg (by omega)]
  · have points := pointing.current who
    rw [Game.current, read_clearSlots table]
    cases hf : g.commac who with
    | none => exact Or.inl rfl
    | some c =>
      dsimp only
      rcases clearSlots_curmac i c with cleared | ⟨stays, others⟩
      · exact Or.inl cleared
      · rw [stays]
        refine (pointing.record hf).2.imp_right fun ⟨j, at', used⟩ => ⟨j, at', ?_⟩
        obtain ⟨q, k, index, there'⟩ := (pointing.slots who j).resolve_left fun empty =>
          used ((read_of_commac hf _).symm.trans empty)
        have eq : c.macros j = k := (read_of_commac hf _).symm.trans index
        have apart : k ≠ i := fun equal => others j at' (by omega)
        obtain ⟨k', moved, -⟩ := getElem?_shifted there' apart
        rw [slots, index, moved]
        omega

end Cleared

theorem clearMacroSet_moves (cmd : Command) (pointing : g.Pointing) (base : g.Base) {i : Nat}
    (there : g.macros[i]? = some p) :
    ∃ g', g.clearMacroSet i = some g' ∧ g.Moves cmd g' := by
  have below := (List.getElem?_eq_some_iff.mp there).1
  obtain ⟨m, live⟩ := Option.isSome_iff_exists.mp (base.live p (List.mem_of_getElem? there))
  have valid : g.gMac i = true := decide_eq_true (by omega)
  have set : g.setAt i = some p := by
    rw [setAt, if_pos (Int.natCast_nonneg i), Int.toNat_natCast, there]
  unfold clearMacroSet
  rw [if_pos valid, set]
  simp only [bind_eq_bind, bind_some, live, Int.toNat_natCast]
  exact ⟨_, rfl, Moves.of_clear cmd pointing base there rfl rfl rfl rfl⟩

theorem clearMacro_moves (pointing : g.Pointing) (base : g.Base) (player : Nat)
    (wizard : Bool) :
    ∃ g', g.perform (.clear player wizard) = some g' ∧ g.Moves (.clear player wizard) g' := by
  have pointing := pointing.getCommac player
  have base := base.getCommac player
  have hf := g.getCommac_found player
  suffices post : ∃ g', g.perform (.clear player wizard) = some g' ∧
      (g.getCommac player).2.Moves (.clear player wizard) g' by
    obtain ⟨g', performed, moves⟩ := post
    exact ⟨g', performed, moves.of_getCommac⟩
  unfold perform clearMacro
  dsimp only
  generalize (g.getCommac player).1 = c at *
  generalize (g.getCommac player).2 = g at *
  have eq : g.Moves (.clear player wizard) g :=
    .of_same _ pointing base rfl (fun _ _ => rfl) fun _ => rfl
  obtain ⟨slots, points⟩ := pointing.record hf
  by_cases idle : c.curmac = -1
  · rw [if_pos idle]
    exact ⟨g, rfl, eq⟩
  · obtain ⟨j, points, used⟩ := points.resolve_left idle
    obtain ⟨p, denotes⟩ := (slots j).resolve_left used
    have index : g.slot player j = c.macros j := read_of_commac hf _
    have set := (setAt_of_denotes denotes).1
    obtain ⟨i, slot, there⟩ := denotes
    obtain ⟨m, live⟩ := isSome_iff_exists.mp (base.live p (mem_of_getElem? there))
    rw [if_neg idle, points, slotAt_coe]
    simp only [bind_eq_bind, bind_some]
    rw [if_neg used, ← index, set]
    simp only [bind_some, live]
    split
    · exact ⟨g, rfl, eq⟩
    · split
      · exact ⟨g, rfl, eq⟩
      · obtain ⟨g', cleared, moves⟩ :=
          clearMacroSet_moves (.clear player wizard) pointing base there
        rw [slot, cleared]
        exact ⟨g', rfl, moves⟩

theorem toastPlayer_moves (pointing : g.Pointing) (base : g.Base) (player : Nat)
    (wizard : Bool) :
    ∃ g', g.perform (.toast player wizard) = some g' ∧ g.Moves (.toast player wizard) g' := by
  have reads := fun who field => read_delCommac base.toChains player who field
  have fresh : (g.delCommac player).current player = -1 := (reads player _).trans (if_pos rfl)
  -- the player has a new record afterwards, in which no slot is in use
  have performed : g.perform (.toast player wizard) =
      some ((g.delCommac player).getCommac player).2 := by
    have hf := (g.delCommac player).getCommac_found player
    have idle : ((g.delCommac player).getCommac player).1.curmac = -1 := by
      rw [← read_of_commac hf Commac.curmac,
        read_getCommac (g.delCommac player) player player rfl]
      exact fresh
    unfold perform toastPlayer clearMacro
    dsimp only
    rw [if_pos idle]
    rfl
  refine ⟨_, performed, ?_⟩
  obtain ⟨macros, memory, fresh⟩ := (g.delCommac player).getCommac_memory player
  have slots : ∀ who j, ((g.delCommac player).getCommac player).2.slot who j =
      if who = player then -1 else g.slot who j := fun who j =>
    (read_getCommac _ player who rfl).trans (reads who _)
  have current : ∀ who, ((g.delCommac player).getCommac player).2.current who =
      if who = player then -1 else g.current who := fun who =>
    (read_getCommac _ player who rfl).trans (reads who _)
  have chains := (base.toChains.delCommac player).getCommac player
  generalize ((g.delCommac player).getCommac player).2 = g' at *
  have eq : g'.macros = g.macros := macros
  refine ⟨⟨chains, ?_, ?_, ?_⟩, fun who j p denotes => ?_, fun who j empty => ?_, fun who => ?_⟩
  · rw [eq, memory]
    exact base.live
  · rw [eq]
    exact base.nodup
  · rw [eq, fresh]
    exact base.old
  · by_cases here : who = player
    · exact Or.inr ⟨(slots who j).trans (if_pos here), Or.inr here.symm⟩
    · obtain ⟨i, index, there⟩ := denotes
      exact Or.inl ⟨i, ((slots who j).trans (if_neg here)).trans index, by rw [eq, there]⟩
  · left
    rw [slots, empty, ite_self]
  · rw [current]
    by_cases here : who = player
    · exact Or.inl (if_pos here)
    · rw [if_neg here]
      refine (pointing.current who).imp_right fun ⟨j, points, used⟩ => ⟨j, points, ?_⟩
      rwa [slots, if_neg here]

/-! ## Using sets -/

section

variable (pointing : g.Pointing)
include pointing

theorem getMacroSet_cases (player : Nat) (which : Int) :
    g.getMacroSet player which = some ((g.getCommac player).2, none) ∨
      ∃ p ∈ g.macros, g.getMacroSet player which = some ((g.getCommac player).2, some p) := by
  have hf := g.getCommac_found player
  have pointing := pointing.getCommac player
  have macros := (g.getCommac_memory player).1
  unfold getMacroSet
  dsimp only
  generalize (g.getCommac player).1 = c at *
  generalize (g.getCommac player).2 = g' at *
  obtain ⟨slots, points⟩ := pointing.record hf
  have used : ∀ j, c.macros j ≠ -1 → ∃ p ∈ g.macros, g'.setAt (c.macros j) = some p := by
    intro j inUse
    obtain ⟨p, denotes⟩ := (slots j).resolve_left inUse
    have index : g'.slot player j = c.macros j := read_of_commac hf _
    refine ⟨p, ?_, index ▸ (setAt_of_denotes denotes).1⟩
    obtain ⟨i, -, there⟩ := denotes
    exact macros ▸ mem_of_getElem? there
  cases slotAt which with
  | some j =>
    dsimp only
    by_cases empty : c.macros j = -1
    · exact Or.inl (if_pos empty)
    · obtain ⟨p, mem, set⟩ := used j empty
      exact Or.inr ⟨p, mem, by rw [if_neg empty, set]; rfl⟩
  | none =>
    dsimp only
    by_cases idle : c.curmac = -1
    · exact Or.inl (if_neg (by omega))
    · obtain ⟨j, points, inUse⟩ := points.resolve_left idle
      obtain ⟨p, mem, set⟩ := used j inUse
      refine Or.inr ⟨p, mem, ?_⟩
      rw [if_pos (by omega), points, slotAt_coe]
      simp only [bind_eq_bind, bind_some]
      rw [if_neg inUse, set]
      rfl

theorem Moves.of_write (base : g.Base) {m : MacroSet} :
    g.Moves cmd { g with memory := Function.update g.memory p (some m) } := by
  refine Moves.of_same cmd pointing ⟨⟨base.buckets, base.unique⟩, fun q mem => ?_, base.nodup,
    base.old⟩ rfl (fun _ _ => rfl) fun _ => rfl
  by_cases eq : q = p
  · subst eq
    simp
  · simpa [eq] using base.live q mem

theorem define_moves (base : g.Base) (player : Nat) (cmd : Text) :
    (∃ g', g.perform (.define player cmd) = some g' ∧ g.Moves (.define player cmd) g') ∧
      ∃ g', g.perform (.undefine player cmd) = some g' ∧ g.Moves (.undefine player cmd) g' := by
  have post := pointing.getCommac player
  have based := base.getCommac player
  have live := based.live
  rw [(g.getCommac_memory player).1] at live
  unfold perform doDefMacro doUndefMacro
  dsimp only
  rcases getMacroSet_cases pointing player (-1) with none' | ⟨p, mem, set⟩
  · rw [none']
    constructor <;>
      exact ⟨_, rfl, Moves.of_getCommac (.of_same _ post based rfl (fun _ _ => rfl) fun _ => rfl)⟩
  · obtain ⟨m, here⟩ := isSome_iff_exists.mp (live p mem)
    rw [set]
    simp only [bind_eq_bind, bind_some, here, map_some]
    constructor <;> exact ⟨_, rfl, Moves.of_getCommac (Moves.of_write post based)⟩

theorem processSlots_reads (base : g.Base)
    (hf : g.commac player = some c) (next s : Text) (slots : List Slot) :
    ∃ text, g.processSlots next s c slots = some text := by
  induction slots with
  | nil => exact ⟨none, rfl⟩
  | cons j rest ih =>
    rw [processSlots]
    by_cases valid : g.gMac (c.macros j) = true
    · have used : c.macros j ≠ -1 := by
        have bounds := of_decide_eq_true valid
        omega
      obtain ⟨p, denotes⟩ := ((pointing.record hf).1 j).resolve_left used
      have index : g.slot player j = c.macros j := read_of_commac hf _
      have set := (setAt_of_denotes denotes).1
      obtain ⟨i, -, there⟩ := denotes
      obtain ⟨m, live⟩ := isSome_iff_exists.mp (base.live p (mem_of_getElem? there))
      rw [if_pos valid, ← index, set]
      simp only [bind_eq_bind, bind_some, live]
      cases processSet m next s with
      | some text => exact ⟨some text, rfl⟩
      | none => exact ih
    · rw [if_neg valid]
      exact ih

theorem process_moves (base : g.Base) (player : Nat) (next s : Text) :
    ∃ g', g.perform (.process player next s) = some g' ∧
      g.Moves (.process player next s) g' := by
  have post := pointing.getCommac player
  have based := base.getCommac player
  obtain ⟨text, searched⟩ := processSlots_reads post based (g.getCommac_found player) next s
    (List.finRange 5)
  refine ⟨(g.getCommac player).2, ?_,
    Moves.of_getCommac (.of_same _ post based rfl (fun _ _ => rfl) fun _ => rfl)⟩
  unfold perform processMacro
  dsimp only
  rw [searched]
  rfl

end

/-! ## Runs -/

theorem perform_moves (pointing : g.Pointing) (base : g.Base) (cmd : Command) :
    ∃ g', g.perform cmd = some g' ∧ g.Moves cmd g' := by
  cases cmd with
  | create player s => exact createMacro_moves pointing base player s
  | add player wizard s => exact addMacro_moves pointing base player wizard s
  | del player s => exact delMacro_moves pointing base player s
  | edit player s => exact editMacro_moves pointing base player s
  | clear player wizard => exact clearMacro_moves pointing base player wizard
  | define player cmd => exact (define_moves pointing base player cmd).1
  | undefine player cmd => exact (define_moves pointing base player cmd).2
  | process player next s => exact process_moves pointing base player next s
  | toast player wizard => exact toastPlayer_moves pointing base player wizard

def denoted (g : Game) (who : Nat) (j : Slot) : Option Ptr :=
  if g.slot who j = -1 then none else g.setAt (g.slot who j)

theorem denoted_of_denotes {who : Nat} {j : Slot} (denotes : g.denotes who j p) :
    g.denoted who j = some p := by
  rw [denoted, if_neg (not_empty_of_denotes denotes)]
  exact (setAt_of_denotes denotes).1

theorem Moves.pointing {g' : Game} (pointing : g.Pointing) (moves : g.Moves cmd g') :
    g'.Pointing := by
  refine ⟨fun who j => ?_, moves.current⟩
  rcases pointing.slots who j with empty | ⟨p, denotes⟩
  · exact moves.filled who j empty
  · rcases moves.kept who j p denotes with still | ⟨empty, -⟩
    · exact Or.inr ⟨p, still⟩
    · exact Or.inl empty

end Game

/-- A game, and what each slot was filled with when it was empty last. -/
structure Tracked where
  game : Game
  filled : Nat → Slot → Option Ptr

namespace Tracked

/-- A slot that was empty is noted with what it denotes after the command. -/
def step (t : Tracked) (cmd : Command) : Option Tracked := do
  let game ← t.game.perform cmd
  some { game, filled := fun who j =>
    if t.game.slot who j = -1 then game.denoted who j else t.filled who j }

def start : Tracked := { game := .empty, filled := fun _ _ => none }

/-- Every slot is empty, or an index of the set it was filled with, which is not cleared, and
every current slot is one in use. -/
structure Valid (t : Tracked) : Prop where
  base : t.game.Base
  slots : ∀ who j, t.game.slot who j = -1 ∨
    ∃ p, t.game.denotes who j p ∧ t.filled who j = some p ∧ (t.game.memory p).isSome
  current : ∀ who, t.game.current who = -1 ∨
    ∃ j : Slot, t.game.current who = (j : Nat) ∧ ∃ p, t.game.denotes who j p

theorem Valid.pointing {t : Tracked} (valid : t.Valid) : t.game.Pointing := by
  refine ⟨fun who j => ?_, fun who => ?_⟩
  · exact (valid.slots who j).imp_right fun ⟨p, denotes, _⟩ => ⟨p, denotes⟩
  · exact (valid.current who).imp_right fun ⟨j, points, p, denotes⟩ =>
      ⟨j, points, Game.not_empty_of_denotes denotes⟩

theorem Valid.step {t : Tracked} (valid : t.Valid) (cmd : Command) :
    ∃ t', t.step cmd = some t' ∧ t'.Valid ∧ t.game.Moves cmd t'.game := by
  obtain ⟨g', performed, moves⟩ := Game.perform_moves valid.pointing valid.base cmd
  have pointing := moves.pointing valid.pointing
  refine ⟨_, by rw [Tracked.step, performed]; rfl, ⟨moves.base, fun who j => ?_, fun who => ?_⟩,
    moves⟩
  · refine (pointing.slots who j).imp_right fun ⟨p, denotes⟩ => ⟨p, denotes, ?_, ?_⟩
    · dsimp only
      rcases valid.slots who j with empty | ⟨q, pre, noted, -⟩
      · rw [if_pos empty, Game.denoted_of_denotes denotes]
      · rw [if_neg (Game.not_empty_of_denotes pre), noted]
        rcases moves.kept who j q pre with still | ⟨empty, -⟩
        · rw [Game.denotes_unique still denotes]
        · exact absurd empty (Game.not_empty_of_denotes denotes)
    · obtain ⟨i, -, there⟩ := denotes
      exact moves.base.live p (mem_of_getElem? there)
  · refine (pointing.current who).imp_right fun ⟨j, points, used⟩ => ⟨j, points, ?_⟩
    exact (pointing.slots who j).resolve_left used

theorem start_valid : start.Valid :=
  ⟨⟨⟨fun _ _ mem => absurd mem not_mem_nil, fun _ => nodup_nil⟩,
      fun _ mem => absurd mem not_mem_nil, nodup_nil,
      fun _ mem => absurd mem not_mem_nil⟩,
    fun _ _ => Or.inl rfl, fun _ => Or.inl rfl⟩

/-- Through any sequence of commands no cleared set is read, every slot is empty or denotes
the set it was filled with, and every current slot denotes a set; and a command empties a slot
only as it clears its set, or takes the slot from its player. -/
theorem references_valid (cmds : List Command) :
    ∃ t, Machine.run step start cmds = some t ∧ t.Valid ∧
      ∀ cmd, ∃ t', t.step cmd = some t' ∧ t.game.Moves cmd t'.game := by
  have preserved : ∀ (t : Tracked) cmd, t.Valid → ∃ t', t.step cmd = some t' ∧ t'.Valid :=
    fun t cmd valid => (valid.step cmd).imp fun t' both => ⟨both.1, both.2.1⟩
  obtain ⟨t, ran, valid⟩ := Machine.run_invariant preserved cmds start_valid
  exact ⟨t, ran, valid, fun cmd => (valid.step cmd).imp fun t' both => ⟨both.1, both.2.2⟩⟩

end Tracked

end BattletechMux.Macro
