/-
Module: BattletechMux.Unit.NetworkLists
Purpose: The network functions as functions on lists.
-/
import BattletechMux.Foundation.Prefix
import BattletechMux.Unit.Frames

namespace BattletechMux.UnitWorld

open List hiding getElem?_eq_some_iff map_map
open Option hiding map map_map

open Function (update)
open ArrayPrefix (Holds)

structure Lists (n : Network) (limit : Nat) (items : List Dbref) : Prop where
  size : n.size = items.length
  short : items.length ≤ limit
  holds : Holds n.elem items

/-- The network holds a list, and −1 in the rest of its array. -/
structure Stores (n : Network) (limit : Nat) (items : List Dbref) : Prop
    extends Lists n limit items where
  rest : ∀ i, items.length ≤ i → i < limit → n.elem i = -1

theorem lists_nil {n : Network} {limit : Nat} (empty : n.size = 0) : Lists n limit [] :=
  ⟨empty, Nat.zero_le _, ArrayPrefix.holds_nil _⟩

namespace World

section

variable (w : World) (isC3 : Bool) (mech : Dbref)
include w isC3 mech

theorem network_setNetwork (n : Network) (kind : Bool) (other : Dbref) :
    (w.setNetwork isC3 mech n).network kind other =
      if kind = isC3 ∧ other = mech then n else w.network kind other := by
  by_cases eq : other = mech
  · subst eq
    cases kind <;> cases isC3 <;> simp [network, setNetwork, Unit.network, Unit.setNetwork]
  · simp [network, setNetwork, setUnit_unit_of_ne _ _ eq, eq]

@[simp] theorem network_setNetwork_self (n : Network) :
    (w.setNetwork isC3 mech n).network isC3 mech = n := by
  simp [network_setNetwork]

theorem network_setElem_self (i : Nat) (ref : Dbref) :
    (w.setElem isC3 mech i ref).network isC3 mech =
      { w.network isC3 mech with elem := update (w.network isC3 mech).elem i ref } :=
  network_setNetwork_self w isC3 mech _

theorem network_setSize_self (size : Int) :
    (w.setSize isC3 mech size).network isC3 mech = { w.network isC3 mech with size := size } :=
  network_setNetwork_self w isC3 mech _

end

end World

structure Writes (isC3 : Bool) (mech : Dbref) (w w' : World) : Prop where
  only : NetworkOnly w w'
  others : ∀ kind other, ¬ (kind = isC3 ∧ other = mech) →
    w'.network kind other = w.network kind other

namespace Writes

variable {isC3 : Bool} {mech : Dbref} {w w' w'' : World}

theorem refl (w : World) : Writes isC3 mech w w :=
  ⟨NetworkOnly.refl w, fun _ _ _ => rfl⟩

theorem trans (fst : Writes isC3 mech w w') (snd : Writes isC3 mech w' w'') :
    Writes isC3 mech w w'' where
  only := fst.only.trans snd.only
  others kind other ne :=
    (snd.others kind other ne).trans (fst.others kind other ne)

theorem setNetwork (w : World) (n : Network) :
    Writes isC3 mech w (w.setNetwork isC3 mech n) where
  only := NetworkOnly.setNetwork w isC3 mech n
  others kind other ne := by rw [World.network_setNetwork, if_neg ne]

theorem foldl {Item : Type} {step : World → Item → World}
    (each : ∀ w item, Writes isC3 mech w (step w item)) (items : List Item) (w : World) :
    Writes isC3 mech w (items.foldl step w) :=
  Machine.foldl_invariant (fun middle item wrote => wrote.trans (each middle item)) items
    (refl w)

end Writes

section Arrays

variable {isC3 : Bool} {mech : Dbref} {w : World}

theorem foldl_setElem (g : Nat → Dbref) (n : Nat) (w : World) :
    Writes isC3 mech w
        ((List.range n).foldl (fun w i => w.setElem isC3 mech i (g i)) w) ∧
      ((List.range n).foldl (fun w i => w.setElem isC3 mech i (g i)) w).network isC3 mech =
        { w.network isC3 mech with
          elem := fun i => if i < n then g i else (w.network isC3 mech).elem i } := by
  have elements : ∀ (indices : List Nat) (w : World),
      (indices.foldl (fun w i => w.setElem isC3 mech i (g i)) w).network isC3 mech =
        { w.network isC3 mech with
          elem := indices.foldl (fun elem i => update elem i (g i))
            (w.network isC3 mech).elem } := by
    intro indices
    induction indices with
    | nil => exact fun _ => rfl
    | cons i rest ih =>
      intro w
      rw [foldl_cons, ih, World.network_setElem_self]
      rfl
  constructor
  · exact Writes.foldl (fun w i => Writes.setNetwork w _) _ w
  · rw [elements, ArrayPrefix.foldl_update]

theorem storeNetwork_spec (items : List Dbref) (w : World) :
    Writes isC3 mech w (w.storeNetwork isC3 mech items) ∧
      ((w.storeNetwork isC3 mech items).network isC3 mech).size = items.length ∧
      ∀ i, ((w.storeNetwork isC3 mech items).network isC3 mech).elem i =
        if i < items.length then items.getD i 0 else (w.network isC3 mech).elem i := by
  obtain ⟨wrote, elements⟩ := @foldl_setElem isC3 mech (items.getD · 0) items.length w
  unfold World.storeNetwork
  refine ⟨wrote.trans (Writes.setNetwork _ _), ?_, ?_⟩
  · rw [World.network_setSize_self]
  · intro i
    rw [World.network_setSize_self, elements]

theorem clearNetworkWith_false_spec (validate : Dbref → World → Option World)
    (isC3 : Bool) (mech : Dbref) (w : World) :
    ∃ w', clearNetworkWith validate isC3 mech false w = some w' ∧ Writes isC3 mech w w' ∧
      Stores (w'.network isC3 mech) (networkLength isC3) [] := by
  have silent : ∀ (indices : List Nat) (w : World),
      indices.foldlM (clearElem validate isC3 mech false) w =
        some (indices.foldl (fun w i => w.setElem isC3 mech i (-1)) w) := by
    intro indices
    induction indices with
    | nil => exact fun _ => rfl
    | cons i rest ih => exact fun w => ih _
  obtain ⟨wrote, elements⟩ :=
    @foldl_setElem isC3 mech (fun _ => -1) (networkLength isC3) w
  refine ⟨((List.range (networkLength isC3)).foldl
    (fun w i => w.setElem isC3 mech i (-1)) w).setSize isC3 mech 0, ?_,
    wrote.trans (Writes.setNetwork _ _), lists_nil ?_, ?_⟩
  · simp [clearNetworkWith, silent]
  · rw [World.network_setSize_self]
  · intro i _ inside
    rw [World.network_setSize_self, elements]
    exact if_pos inside

theorem storeNetwork_stores {items : List Dbref}
    (cleared : Stores (w.network isC3 mech) (networkLength isC3) [])
    (short : items.length ≤ networkLength isC3) :
    Stores ((w.storeNetwork isC3 mech items).network isC3 mech) (networkLength isC3)
      items := by
  obtain ⟨_, size, elements⟩ := @storeNetwork_spec isC3 mech items w
  refine ⟨⟨size, short, ?_⟩, ?_⟩
  · intro i item found
    obtain ⟨inside, _⟩ := getElem?_eq_some_iff.mp found
    rw [elements, if_pos inside, getD_eq_getElem?_getD, found, getD_some]
  · intro i behind inside
    rw [elements, if_neg (Nat.not_lt.mpr behind)]
    exact cleared.rest i (Nat.zero_le _) inside

theorem eraseRef_spec (refToClear : Dbref) (w : World) :
    Writes isC3 mech w (eraseRef isC3 refToClear mech w) ∧
      ((eraseRef isC3 refToClear mech w).network isC3 mech).size =
        (w.network isC3 mech).size ∧
      ∀ i, i < networkLength isC3 →
        ((eraseRef isC3 refToClear mech w).network isC3 mech).elem i =
          if (w.network isC3 mech).elem i = refToClear then -1
          else (w.network isC3 mech).elem i := by
  have loop : ∀ n, ((List.range n).foldl (fun w i =>
      if (w.network isC3 mech).elem i = refToClear then w.setElem isC3 mech i (-1) else w)
        w).network isC3 mech =
      { w.network isC3 mech with
        elem := fun i => if i < n ∧ (w.network isC3 mech).elem i = refToClear then -1
          else (w.network isC3 mech).elem i } := by
    intro n
    induction n with
    | zero => simp
    | succ n ih =>
      rw [range_succ, foldl_append, foldl_cons, foldl_nil]
      have unread : ¬ (n < n ∧ (w.network isC3 mech).elem n = refToClear) :=
        fun both => Nat.lt_irrefl n both.1
      by_cases here : (w.network isC3 mech).elem n = refToClear
      · rw [if_pos, World.network_setElem_self, ih]
        · simp only [Network.mk.injEq, and_true]
          funext i
          by_cases last : i = n
          · subst last
            simp [here]
          · have below : i < n + 1 ↔ i < n := by omega
            simp [Function.update_of_ne last, below]
        · rw [ih]
          exact (if_neg unread).trans here
      · rw [if_neg, ih]
        · simp only [Network.mk.injEq, and_true]
          funext i
          by_cases last : i = n
          · subst last
            simp [here]
          · have below : i < n + 1 ↔ i < n := by omega
            simp [below]
        · rw [ih]
          exact fun eq => here ((if_neg unread).symm.trans eq)
  refine ⟨?_, ?_, ?_⟩
  · apply Writes.foldl
    intro w i
    split
    · exact Writes.setNetwork w _
    · exact Writes.refl w
  · unfold eraseRef
    rw [loop]
  · intro i inside
    unfold eraseRef
    rw [loop]
    simp [inside]

end Arrays

/-- A unit of the network that `getOtherMechInNetwork` finds. -/
def World.reaches (w : World) (isC3 : Bool) (mech ref : Dbref) : Bool :=
  w.isMech ref && reachable isC3 (w.unit mech) (w.unit ref)

theorem NetworkOnly.reaches {w w' : World} (only : NetworkOnly w w') (isC3 : Bool)
    (mech ref : Dbref) : w'.reaches isC3 mech ref = w.reaches isC3 mech ref := by
  simp only [World.reaches, only.isMech, only.reachable]

section Validate

variable {isC3 : Bool} {mech : Dbref} {w : World} {items : List Dbref}

theorem getOther_of_inside {i : Nat} (hin : (i : Int) < (w.network isC3 mech).size) :
    getOtherMechInNetwork w isC3 mech i =
      Option.guard (w.reaches isC3 mech) ((w.network isC3 mech).elem i) := by
  apply Option.ext
  intro other
  rw [getOther_eq_some, guard_eq_some_iff]
  constructor
  · rintro ⟨_, rfl, isMech, reach⟩
    exact ⟨rfl, by simp [World.reaches, isMech, reach]⟩
  · rintro ⟨rfl, reach⟩
    simp only [World.reaches, Bool.and_eq_true] at reach
    exact ⟨hin, rfl, reach.1, reach.2⟩

theorem getOther_of_outside {i : Nat} (outside : (w.network isC3 mech).size ≤ i) :
    getOtherMechInNetwork w isC3 mech i = none := by
  rw [getOtherMechInNetwork, if_pos outside]

theorem reachableMembers_eq
    (lists : Lists (w.network isC3 mech) (networkLength isC3) items) :
    reachableMembers w isC3 mech = items.filter (w.reaches isC3 mech) := by
  rw [← filterMap_eq_filter]
  apply lists.holds.filterMap_range lists.short
  · intro i inside
    apply getOther_of_inside
    rw [lists.size]
    exact Int.ofNat_lt.mpr inside
  · intro i outside
    apply getOther_of_outside
    rw [lists.size]
    exact Int.ofNat_le.mpr outside

variable {w' : World}

section

variable (only : NetworkOnly w w')
include only

theorem NetworkOnly.getMech (ref : Dbref) : w'.getMech ref = w.getMech ref := by
  simp only [World.getMech, only.isMech]

theorem NetworkOnly.countMaxC3Units (temp : List Dbref) (targMech : Option Dbref) :
    countMaxC3Units w' mech temp targMech = countMaxC3Units w mech temp targMech := by
  have hf : w'.getMech = w.getMech := funext only.getMech
  simp only [UnitWorld.countMaxC3Units, hf, only.workingC3Masters]

theorem NetworkOnly.addSlaves (maxC3Size : Nat) (temp kept : List Dbref) :
    addSlaves w' maxC3Size temp kept = addSlaves w maxC3Size temp kept := by
  induction temp generalizing kept with
  | nil => rfl
  | cons ref rest ih =>
    simp only [UnitWorld.addSlaves, only.getMech, only.workingC3Masters,
      ih]

theorem NetworkOnly.trimC3Network (temp : List Dbref) :
    trimC3Network w' mech temp = trimC3Network w mech temp := by
  simp only [UnitWorld.trimC3Network, only.countMaxC3Units, only.addSlaves, only.isMech,
    only.workingC3Masters]

end

theorem addSlaves_length_le (w : World) (maxC3Size : Nat) (temp kept : List Dbref)
    (room : kept.length < maxC3Size) :
    (addSlaves w maxC3Size temp kept).length ≤ maxC3Size := by
  induction temp generalizing kept with
  | nil => exact Nat.le_of_lt room
  | cons ref rest ih =>
    unfold addSlaves
    split
    · exact ih kept room
    · rename_i other _
      have bound : (if (w.unit other).workingC3Masters = 0 then kept ++ [ref]
          else kept).length ≤ maxC3Size := by
        split
        · rw [length_append, length_singleton]
          exact room
        · exact Nat.le_of_lt room
      by_cases full : (if (w.unit other).workingC3Masters = 0 then kept ++ [ref]
          else kept).length ≥ maxC3Size
      · simp only [full, if_true]
        exact bound
      · simp only [full, if_false]
        exact ih _ (Nat.not_le.mp full)

theorem trimC3Network_length_le (w : World) (mech : Dbref) (temp : List Dbref) :
    (trimC3Network w mech temp).length ≤ temp.length := by
  unfold trimC3Network
  simp only
  split
  · rename_i tooLong
    split
    · rename_i room
      exact (addSlaves_length_le w _ temp _ room).trans (Nat.le_of_lt tooLong)
    · exact length_filter_le _ _
  · exact Nat.le_refl _

def kept (w : World) (isC3 : Bool) (mech : Dbref) (items : List Dbref) : List Dbref :=
  let temp := items.filter (w.reaches isC3 mech)
  if isC3 ∧ (trimC3Network w mech temp).length ≠ temp.length then trimC3Network w mech temp
  else temp

theorem kept_length_le (w : World) (isC3 : Bool) (mech : Dbref) (items : List Dbref) :
    (kept w isC3 mech items).length ≤ items.length := by
  unfold kept
  simp only
  split
  · exact (trimC3Network_length_le w mech _).trans (length_filter_le _ _)
  · exact length_filter_le _ _

theorem NetworkOnly.kept (only : NetworkOnly w w') (isC3 : Bool)
    (mech : Dbref) (items : List Dbref) : kept w' isC3 mech items = kept w isC3 mech items := by
  have reach : w'.reaches isC3 mech = w.reaches isC3 mech :=
    funext fun ref => only.reaches isC3 mech ref
  simp only [UnitWorld.kept, reach, only.trimC3Network]

theorem keepReachable_spec (validate : Dbref → World → Option World)
    (lists : Lists (w.network isC3 mech) (networkLength isC3) items) :
    ∃ w', keepReachable (clearNetworkWith validate isC3 mech false) isC3 mech w = some w' ∧
      Writes isC3 mech w w' ∧
      Stores (w'.network isC3 mech) (networkLength isC3) (kept w isC3 mech items) := by
  have storing : ∀ (start : World) (list : List Dbref), list.length ≤ items.length →
      ∃ w', (do
        let w ← clearNetworkWith validate isC3 mech false start
        some (w.storeNetwork isC3 mech list)) = some w' ∧ Writes isC3 mech start w' ∧
          Stores (w'.network isC3 mech) (networkLength isC3) list := by
    intro start list fewer
    obtain ⟨cleared, clearing, wrote, blank⟩ :=
      clearNetworkWith_false_spec validate isC3 mech start
    refine ⟨cleared.storeNetwork isC3 mech list, by simp [clearing], ?_, ?_⟩
    · exact wrote.trans (storeNetwork_spec list cleared).1
    · exact storeNetwork_stores blank (fewer.trans lists.short)
  have temp : reachableMembers w isC3 mech = items.filter (w.reaches isC3 mech) :=
    reachableMembers_eq lists
  have short : (items.filter (w.reaches isC3 mech)).length ≤ items.length :=
    length_filter_le _ _
  obtain ⟨first, ran, wrote, stores⟩ := storing w _ short
  obtain ⟨cleared, clearing, eq⟩ := bind_eq_some_iff.mp ran
  obtain rfl := some.inj eq
  unfold keepReachable UnitWorld.kept
  simp only [temp, clearing, bind_eq_bind, bind_some,
    wrote.only.trimC3Network, stores.size]
  cases isC3 with
  | false => exact ⟨_, rfl, wrote, by simpa using stores⟩
  | true =>
    by_cases fits : (trimC3Network w mech (items.filter (w.reaches true mech))).length =
        (items.filter (w.reaches true mech)).length
    · refine ⟨_, ?_, wrote, ?_⟩
      · rw [if_pos rfl, if_pos (congrArg Nat.cast fits)]
      · simpa [fits] using stores
    · obtain ⟨second, ranAgain, wroteAgain, storesAgain⟩ :=
        storing (cleared.storeNetwork true mech (items.filter (w.reaches true mech)))
          _ ((trimC3Network_length_le w mech _).trans short)
      refine ⟨second, ?_, wrote.trans wroteAgain, ?_⟩
      · rw [if_pos rfl, if_neg (fun eq => fits (Int.natCast_inj.mp eq))]
        exact ranAgain
      · simpa [fits] using storesAgain

theorem validateNetwork_spec (depth : Nat) (works : (w.unit mech).working isC3 = true)
    (lists : Lists (w.network isC3 mech) (networkLength isC3) items) :
    ∃ w', validateNetwork isC3 (depth + 1) mech w = some w' ∧ Writes isC3 mech w w' ∧
      Stores (w'.network isC3 mech) (networkLength isC3) (kept w isC3 mech items) := by
  have size : ¬ ((w.unit mech).network isC3).size < 0 := by
    have eq : ((w.unit mech).network isC3).size = items.length := lists.size
    rw [eq]
    exact Int.not_lt.mpr (Int.natCast_nonneg _)
  rw [validateNetwork_of_working depth works]
  obtain ⟨w', ran, spec⟩ := keepReachable_spec (validateNetwork isC3 depth) lists
  exact ⟨w', (if_neg size).trans ran, spec⟩

theorem validate_spec (works : (w.unit mech).working isC3 = true)
    (lists : Lists (w.network isC3 mech) (networkLength isC3) items) :
    ∃ w', validate isC3 mech w = some w' ∧ Writes isC3 mech w w' ∧
      Stores (w'.network isC3 mech) (networkLength isC3) (kept w isC3 mech items) :=
  validateNetwork_spec 1 works lists

end Validate

def blanked (ref : Dbref) (items : List Dbref) : List Dbref :=
  items.map fun item => if item = ref then -1 else item

section Clear

variable {isC3 : Bool} {mech other : Dbref} {w : World} {items : List Dbref}

theorem kept_nil (w : World) (isC3 : Bool) (mech : Dbref) : kept w isC3 mech [] = [] :=
  eq_nil_of_length_eq_zero (Nat.le_zero.mp (kept_length_le w isC3 mech []))

theorem clearMechFromNetworkWith_spec (depth : Nat) (ref : Dbref)
    (works : (w.unit other).working isC3 = true)
    (lists : Lists (w.network isC3 other) (networkLength isC3) items) :
    ∃ w', clearMechFromNetworkWith (validateNetwork isC3 (depth + 1)) isC3 ref other w =
        some w' ∧ Writes isC3 other w w' ∧
      Lists (w'.network isC3 other) (networkLength isC3)
        (kept w isC3 other (blanked ref items)) ∧
      (w' = w ∨ Stores (w'.network isC3 other) (networkLength isC3)
        (kept w isC3 other (blanked ref items))) := by
  unfold clearMechFromNetworkWith
  by_cases empty : (w.network isC3 other).size = 0
  · have none' : items = [] := by
      apply eq_nil_of_length_eq_zero
      exact Int.natCast_inj.mp (lists.size.symm.trans empty)
    subst none'
    rw [if_pos empty]
    refine ⟨w, rfl, Writes.refl w, ?_, Or.inl rfl⟩
    rw [blanked, map_nil, kept_nil]
    exact lists
  · obtain ⟨wrote, size, elements⟩ := @eraseRef_spec isC3 other ref w
    have erased : Lists ((eraseRef isC3 ref other w).network isC3 other)
        (networkLength isC3) (blanked ref items) := by
      refine ⟨?_, ?_, lists.holds.map ?_⟩
      · rw [size, lists.size, blanked, length_map]
      · rw [blanked, length_map]
        exact lists.short
      · intro i inside
        exact elements i (inside.trans_le lists.short)
    obtain ⟨w', ran, wroteThen, stores⟩ := validateNetwork_spec depth
      ((wrote.only.working other).trans works) erased
    rw [wrote.only.kept] at stores
    rw [if_neg empty]
    exact ⟨w', ran, wrote.trans wroteThen, stores.toLists, Or.inr stores⟩

theorem clearElems_behind (validate : Dbref → World → Option World) (indices : List Nat)
    (w : World) (behind : ∀ i ∈ indices, (w.network isC3 mech).size ≤ i) :
    ∃ w', indices.foldlM (clearElem validate isC3 mech true) w = some w' ∧
      Writes isC3 mech w w' := by
  induction indices generalizing w with
  | nil => exact ⟨w, rfl, Writes.refl w⟩
  | cons i rest ih =>
    have wrote : Writes isC3 mech w (w.setElem isC3 mech i (-1)) := Writes.setNetwork w _
    obtain ⟨w', ran, wroteThen⟩ := ih (w.setElem isC3 mech i (-1)) (by
      intro later mem
      rw [network_setElem_size]
      exact behind later (mem_cons_of_mem i mem))
    refine ⟨w', ?_, wrote.trans wroteThen⟩
    have nobody := getOther_of_outside (behind i mem_cons_self)
    simpa [clearElem, nobody] using ran

theorem set_blank (k : Nat) (item : Dbref) (rest : List Dbref) :
    (List.replicate k (-1) ++ item :: rest).set k (-1) =
      List.replicate (k + 1) (-1) ++ rest := by
  rw [set_append_right _ _ (by simp)]
  simp [replicate_succ']

theorem clearElems_spec (depth : Nat) (lists : Dbref → List Dbref) (suffix : List Dbref)
    (k : Nat) (w : World)
    (own : Lists (w.network isC3 mech) (networkLength isC3)
      (List.replicate k (-1) ++ suffix))
    (nodup : suffix.Nodup) (notSelf : mech ∉ suffix)
    (theirs : ∀ ref ∈ suffix, w.reaches isC3 mech ref = true →
      Lists (w.network isC3 ref) (networkLength isC3) (lists ref)) :
    ∃ w', (List.range' k (networkLength isC3 - k)).foldlM
        (clearElem (validateNetwork isC3 (depth + 1)) isC3 mech true) w = some w' ∧
      NetworkOnly w w' ∧
      (∀ ref ∈ suffix, w.reaches isC3 mech ref = true →
        Lists (w'.network isC3 ref) (networkLength isC3)
          (kept w isC3 ref (blanked mech (lists ref)))) ∧
      ∀ kind ref, ¬ (kind = isC3 ∧
          (ref = mech ∨ ref ∈ suffix ∧ w.reaches isC3 mech ref = true)) →
        w'.network kind ref = w.network kind ref := by
  induction suffix generalizing k w with
  | nil =>
    have size : (w.network isC3 mech).size = k := by simpa using own.size
    obtain ⟨w', ran, wrote⟩ := @clearElems_behind isC3 mech
      (validateNetwork isC3 (depth + 1)) (List.range' k (networkLength isC3 - k)) w (by
        intro i mem
        rw [size]
        exact Int.ofNat_le.mpr (mem_range'_1.mp mem).1)
    refine ⟨w', ran, wrote.only, by simp, ?_⟩
    intro kind ref elsewhere
    apply wrote.others
    rintro ⟨rfl, rfl⟩
    exact elsewhere ⟨rfl, Or.inl rfl⟩
  | cons item rest ih =>
    obtain ⟨itemFresh, distinctRest⟩ := nodup_cons.mp nodup
    have notItem : item ≠ mech := fun eq => notSelf (eq ▸ mem_cons_self)
    have length : (List.replicate k (-1 : Dbref) ++ item :: rest).length =
        k + (rest.length + 1) := by simp
    have inside : k < networkLength isC3 := by
      have short := own.short
      rw [length] at short
      omega
    have more : networkLength isC3 - k = networkLength isC3 - (k + 1) + 1 := by omega
    -- the element at `k` is read, and blanked
    have found : getOtherMechInNetwork w isC3 mech k =
        Option.guard (w.reaches isC3 mech) item := by
      rw [getOther_of_inside, own.holds k item (by simp)]
      rw [own.size, length]
      exact Int.ofNat_lt.mpr (by omega)
    have blanks : Writes isC3 mech w (w.setElem isC3 mech k (-1)) := Writes.setNetwork w _
    have ownBlanked : Lists ((w.setElem isC3 mech k (-1)).network isC3 mech)
        (networkLength isC3) (List.replicate (k + 1) (-1) ++ rest) := by
      rw [World.network_setElem_self, ← set_blank k item rest]
      refine ⟨?_, ?_, own.holds.set k (-1)⟩
      · rw [length_set]
        exact own.size
      · rw [length_set]
        exact own.short
    -- the unit found is told
    obtain ⟨told, telling, toldOnly, toldItem, toldOthers⟩ : ∃ told,
        clearElem (validateNetwork isC3 (depth + 1)) isC3 mech true w k = some told ∧
        NetworkOnly w told ∧
        (w.reaches isC3 mech item = true →
          Lists (told.network isC3 item) (networkLength isC3)
            (kept w isC3 item (blanked mech (lists item)))) ∧
        ∀ kind ref, ¬ (kind = isC3 ∧ ref = item ∧ w.reaches isC3 mech item = true) →
          told.network kind ref = (w.setElem isC3 mech k (-1)).network kind ref := by
      by_cases reach : w.reaches isC3 mech item = true
      · have working : ((w.setElem isC3 mech k (-1)).unit item).working isC3 = true := by
          rw [blanks.only.working]
          exact working_of_reachable (Bool.and_eq_true_iff.mp reach).2
        have itemLists : Lists ((w.setElem isC3 mech k (-1)).network isC3 item)
            (networkLength isC3) (lists item) := by
          rw [blanks.others isC3 item (fun eq => notItem eq.2)]
          exact theirs item mem_cons_self reach
        obtain ⟨told, telling, wrote, itemKept, -⟩ :=
          clearMechFromNetworkWith_spec depth mech working itemLists
        rw [blanks.only.kept] at itemKept
        refine ⟨told, ?_, blanks.only.trans wrote.only, fun _ => itemKept, ?_⟩
        · simpa [clearElem, found, Option.guard, reach] using telling
        · intro kind ref elsewhere
          exact wrote.others kind ref fun eq => elsewhere ⟨eq.1, eq.2, reach⟩
      · refine ⟨_, by simp [clearElem, found, Option.guard, reach], blanks.only,
          fun reach' => absurd reach' reach, fun _ _ _ => rfl⟩
    have ownTold : Lists (told.network isC3 mech) (networkLength isC3)
        (List.replicate (k + 1) (-1) ++ rest) := by
      rw [toldOthers isC3 mech (fun eq => notItem eq.2.1.symm)]
      exact ownBlanked
    obtain ⟨w', ran, only, keeps, others⟩ := ih (k + 1) told ownTold
      distinctRest (fun mem => notSelf (mem_cons_of_mem item mem)) (by
        intro ref mem reach
        rw [toldOnly.reaches] at reach
        have ne : ref ≠ item := fun eq => itemFresh (eq ▸ mem)
        have notMech : ref ≠ mech := fun eq =>
          notSelf (eq ▸ mem_cons_of_mem item mem)
        rw [toldOthers isC3 ref (fun eq => ne eq.2.1),
          blanks.others isC3 ref (fun eq => notMech eq.2)]
        exact theirs ref (mem_cons_of_mem item mem) reach)
    refine ⟨w', ?_, toldOnly.trans only, ?_, ?_⟩
    · rw [more, range'_succ, foldlM_cons, telling]
      exact ran
    · intro ref mem reach
      rcases mem_cons.mp mem with rfl | later
      · have untouched := others isC3 ref (by
          rintro ⟨_, eq | ⟨again, _⟩⟩
          · exact notItem eq
          · exact itemFresh again)
        rw [untouched]
        exact toldItem reach
      · have result := keeps ref later ((toldOnly.reaches isC3 mech ref).trans reach)
        rwa [toldOnly.kept] at result
    · intro kind ref elsewhere
      have apart : ¬ (kind = isC3 ∧ (ref = mech ∨
          ref ∈ rest ∧ told.reaches isC3 mech ref = true)) := by
        rw [toldOnly.reaches]
        rintro ⟨rfl, eq | ⟨later, reach⟩⟩
        · exact elsewhere ⟨rfl, Or.inl eq⟩
        · exact elsewhere ⟨rfl, Or.inr ⟨mem_cons_of_mem item later, reach⟩⟩
      rw [others kind ref apart, toldOthers, blanks.others]
      · exact fun eq => elsewhere ⟨eq.1, Or.inl eq.2⟩
      · rintro ⟨rfl, rfl, reach⟩
        exact elsewhere ⟨rfl, Or.inr ⟨mem_cons_self, reach⟩⟩

theorem clearNetworkWith_spec (depth : Nat) (lists : Dbref → List Dbref)
    (own : Lists (w.network isC3 mech) (networkLength isC3) items)
    (nodup : items.Nodup) (notSelf : mech ∉ items)
    (theirs : ∀ ref ∈ items, w.reaches isC3 mech ref = true →
      Lists (w.network isC3 ref) (networkLength isC3) (lists ref)) :
    ∃ w', clearNetworkWith (validateNetwork isC3 (depth + 1)) isC3 mech true w = some w' ∧
      NetworkOnly w w' ∧ (w'.network isC3 mech).size = 0 ∧
      (∀ ref ∈ items, w.reaches isC3 mech ref = true →
        Lists (w'.network isC3 ref) (networkLength isC3)
          (kept w isC3 ref (blanked mech (lists ref)))) ∧
      ∀ kind ref, ¬ (kind = isC3 ∧
          (ref = mech ∨ ref ∈ items ∧ w.reaches isC3 mech ref = true)) →
        w'.network kind ref = w.network kind ref := by
  obtain ⟨told, ran, only, keeps, others⟩ :=
    clearElems_spec depth lists items 0 w (by simpa using own) nodup notSelf theirs
  have sized : Writes isC3 mech told (told.setSize isC3 mech 0) := Writes.setNetwork told _
  rw [Nat.sub_zero, ← range_eq_range'] at ran
  refine ⟨told.setSize isC3 mech 0, ?_, only.trans sized.only, ?_, ?_, ?_⟩
  · simp [clearNetworkWith, ran]
  · rw [World.network_setSize_self]
  · intro ref mem reach
    have ne : ref ≠ mech := fun eq => notSelf (eq ▸ mem)
    rw [sized.others isC3 ref (fun eq => ne eq.2)]
    exact keeps ref mem reach
  · intro kind ref elsewhere
    rw [sized.others kind ref (fun eq => elsewhere ⟨eq.1, Or.inl eq.2⟩)]
    exact others kind ref elsewhere

theorem clearNetworkWith_empty (validate : Dbref → World → Option World)
    (empty : (w.network isC3 mech).size = 0) :
    clearNetworkWith validate isC3 mech true w = clearNetworkWith validate isC3 mech false w := by
  have silent : ∀ (indices : List Nat) (w : World), (w.network isC3 mech).size = 0 →
      indices.foldlM (clearElem validate isC3 mech true) w =
        indices.foldlM (clearElem validate isC3 mech false) w := by
    intro indices
    induction indices with
    | nil => exact fun _ _ => rfl
    | cons i rest ih =>
      intro w size
      have nobody : getOtherMechInNetwork w isC3 mech i = none := by
        apply getOther_of_outside
        rw [size]
        exact Int.natCast_nonneg i
      have eq : clearElem validate isC3 mech true w i =
          clearElem validate isC3 mech false w i := by
        simp [clearElem, nobody]
      have still : ((w.setElem isC3 mech i (-1)).network isC3 mech).size = 0 := by
        rw [network_setElem_size]
        exact size
      rw [foldlM_cons, foldlM_cons, eq]
      exact ih _ still
  unfold clearNetworkWith
  rw [silent _ w empty]

theorem validate_of_idle (idle : (w.unit mech).working isC3 = false) :
    validate isC3 mech w = clearNetworkWith (validateNetwork isC3 1) isC3 mech true w := by
  have cleared : (!(w.unit mech).hasComputer isC3 || (w.unit mech).destroyed ||
      (w.unit mech).computerDestroyed isC3) = true := by
    unfold Unit.working at idle
    revert idle
    cases (w.unit mech).hasComputer isC3 <;> cases (w.unit mech).destroyed <;>
      cases (w.unit mech).computerDestroyed isC3 <;> decide
  unfold validate recursionDepth
  rw [validateNetwork, cleared]
  rfl

theorem validate_idle_spec (idle : (w.unit mech).working isC3 = false)
    (empty : (w.network isC3 mech).size = 0) :
    ∃ w', validate isC3 mech w = some w' ∧ Writes isC3 mech w w' ∧
      Stores (w'.network isC3 mech) (networkLength isC3) [] := by
  rw [validate_of_idle idle, clearNetworkWith_empty _ empty]
  exact clearNetworkWith_false_spec _ isC3 mech w

end Clear

section Replicate

variable {isC3 : Bool} {mech mechSrc mechDest : Dbref} {w : World} {items : List Dbref}

theorem Stores.array {n : Network} {limit : Nat} (stores : Stores n limit items) :
    (List.range limit).map n.elem =
      items ++ List.replicate (limit - items.length) (-1) := by
  obtain ⟨extra, rfl⟩ := Nat.exists_eq_add_of_le stores.short
  rw [range_add, map_append, stores.holds.map_range, Nat.add_sub_cancel_left]
  congr 1
  rw [List.map_map, eq_replicate_iff]
  constructor
  · simp
  · intro ref mem
    obtain ⟨i, hin, rfl⟩ := mem_map.mp mem
    exact stores.rest _ (Nat.le_add_right _ _)
      (Nat.add_lt_add_left (mem_range.mp hin) _)

theorem push_stores {ref : Dbref} {i : Nat} {size : Int}
    (stores : Stores (w.network isC3 mech) (networkLength isC3) items)
    (here : i = items.length) (counted : size = items.length + 1)
    (room : items.length < networkLength isC3) :
    Stores (((w.setElem isC3 mech i ref).setSize isC3 mech size).network isC3 mech)
      (networkLength isC3) (items ++ [ref]) := by
  subst here
  rw [World.network_setSize_self, World.network_setElem_self]
  refine ⟨⟨?_, ?_, stores.holds.append ref⟩, ?_⟩
  · simp [counted]
  · rw [length_append, length_singleton]
    exact room
  · intro j behind inside
    rw [length_append, length_singleton] at behind
    have ne : j ≠ items.length := by omega
    simp only [Function.update_of_ne ne]
    exact stores.rest j (by omega) inside

theorem push_writes (i : Nat) (ref : Dbref) (size : Int) (w : World) :
    Writes isC3 mech w ((w.setElem isC3 mech i ref).setSize isC3 mech size) := by
  have element : Writes isC3 mech w (w.setElem isC3 mech i ref) := Writes.setNetwork w _
  exact element.trans (Writes.setNetwork _ _)

/-- One round of the loop of `replicateC3Network`. -/
def copyElem (isC3 : Bool) (mechSrc mechDest : Dbref) (w : World) (i : Nat) : World :=
  if (w.network isC3 mechSrc).elem i = mechDest then w
  else
    (w.setElem isC3 mechDest (w.network isC3 mechDest).size.toNat
      ((w.network isC3 mechSrc).elem i)).setSize isC3 mechDest
        ((w.network isC3 mechDest).size + 1)

theorem replicateNetwork_eq (isC3 : Bool) (mechSrc mechDest : Dbref) (w : World) :
    replicateNetwork isC3 mechSrc mechDest w =
      (clearNetwork isC3 mechDest false w).bind fun w =>
        validate isC3 mechDest ((List.range (networkLength isC3)).foldl
          (copyElem isC3 mechSrc mechDest)
            ((w.setElem isC3 mechDest 0 mechSrc).setSize isC3 mechDest 1)) := rfl

theorem copyElems_spec (ne : mechSrc ≠ mechDest) (indices : List Nat) (w : World)
    (items : List Dbref)
    (stores : Stores (w.network isC3 mechDest) (networkLength isC3) items)
    (room : items.length + ((indices.map (w.network isC3 mechSrc).elem).filter
      fun ref => ref != mechDest).length ≤ networkLength isC3) :
    Writes isC3 mechDest w (indices.foldl (copyElem isC3 mechSrc mechDest) w) ∧
      Stores ((indices.foldl (copyElem isC3 mechSrc mechDest) w).network isC3 mechDest)
        (networkLength isC3) (items ++
          (indices.map (w.network isC3 mechSrc).elem).filter fun ref => ref != mechDest) := by
  induction indices generalizing w items with
  | nil => exact ⟨Writes.refl w, by simpa using stores⟩
  | cons i rest ih =>
    rw [map_cons] at room ⊢
    rw [foldl_cons]
    by_cases itself : (w.network isC3 mechSrc).elem i = mechDest
    · have skipped : copyElem isC3 mechSrc mechDest w i = w := if_pos itself
      have dropped : ((w.network isC3 mechSrc).elem i != mechDest) = false := by
        simp [itself]
      rw [filter_cons_of_neg (by simp [dropped])] at room ⊢
      rw [skipped]
      exact ih w items stores room
    · have pushed : copyElem isC3 mechSrc mechDest w i =
          (w.setElem isC3 mechDest (w.network isC3 mechDest).size.toNat
            ((w.network isC3 mechSrc).elem i)).setSize isC3 mechDest
              ((w.network isC3 mechDest).size + 1) := if_neg itself
      rw [filter_cons_of_pos (by simpa using itself)] at room ⊢
      rw [length_cons] at room
      have wrote := @push_writes isC3 mechDest (w.network isC3 mechDest).size.toNat
        ((w.network isC3 mechSrc).elem i) ((w.network isC3 mechDest).size + 1) w
      have longer := @push_stores isC3 mechDest w items
        ((w.network isC3 mechSrc).elem i) (w.network isC3 mechDest).size.toNat
        ((w.network isC3 mechDest).size + 1) stores (by rw [stores.size]; rfl)
        (congrArg (· + 1) stores.size) (by omega)
      have source := wrote.others isC3 mechSrc fun eq => ne eq.2
      rw [← pushed] at wrote longer source
      obtain ⟨wroteThen, stored⟩ := ih _ _ longer (by
        rw [source, length_append, length_singleton]
        omega)
      refine ⟨wrote.trans wroteThen, ?_⟩
      rwa [source, append_assoc, singleton_append] at stored

theorem World.reaches_blank (w : World) (isC3 : Bool) (mech : Dbref) :
    w.reaches isC3 mech (-1) = false := by
  unfold World.reaches
  cases isMech : w.isMech (-1) with
  | false => rfl
  | true => exact absurd (w.mech_pos _ isMech) (by decide)

theorem kept_append_blanks (w : World) (isC3 : Bool) (mech : Dbref) (items : List Dbref)
    (n : Nat) : kept w isC3 mech (items ++ List.replicate n (-1)) = kept w isC3 mech items := by
  have blanks : (List.replicate n (-1)).filter (w.reaches isC3 mech) = [] := by
    rw [filter_eq_nil_iff]
    intro ref mem
    rw [eq_of_mem_replicate mem, World.reaches_blank]
    decide
  simp only [kept, filter_append, blanks, append_nil]

theorem replicateNetwork_spec (ne : mechSrc ≠ mechDest)
    (works : (w.unit mechDest).working isC3 = true)
    (source : Stores (w.network isC3 mechSrc) (networkLength isC3) items)
    (mem : mechDest ∈ items) (isMech : w.isMech mechDest = true) :
    ∃ w', replicateNetwork isC3 mechSrc mechDest w = some w' ∧ Writes isC3 mechDest w w' ∧
      Stores (w'.network isC3 mechDest) (networkLength isC3) (kept w isC3 mechDest
        (mechSrc :: items.filter fun ref => ref != mechDest)) := by
  obtain ⟨cleared, clearing, wrote, blank⟩ :=
    clearNetworkWith_false_spec (validate isC3) isC3 mechDest w
  have room : 0 < networkLength isC3 := by cases isC3 <;> decide
  have seeded := @push_stores isC3 mechDest cleared [] mechSrc 0 1 blank rfl rfl room
  have seeds := @push_writes isC3 mechDest 0 mechSrc 1 cleared
  have notBlank : ((-1 : Dbref) != mechDest) = true := by
    have pos := w.mech_pos _ isMech
    rw [bne_iff_ne]
    rintro rfl
    exact absurd pos (by decide)
  have blanks : (List.replicate (networkLength isC3 - items.length) (-1)).filter
      (fun ref => ref != mechDest) = List.replicate (networkLength isC3 - items.length) (-1) := by
    rw [filter_eq_self]
    intro ref copy
    rw [eq_of_mem_replicate copy]
    exact notBlank
  have array : ((List.range (networkLength isC3)).map
      (((cleared.setElem isC3 mechDest 0 mechSrc).setSize isC3 mechDest 1).network isC3
        mechSrc).elem).filter (fun ref => ref != mechDest) =
      items.filter (fun ref => ref != mechDest) ++
        List.replicate (networkLength isC3 - items.length) (-1) := by
    rw [seeds.others isC3 mechSrc (fun eq => ne eq.2),
      wrote.others isC3 mechSrc (fun eq => ne eq.2), source.array,
      filter_append, blanks]
  have fewer : (items.filter fun ref => ref != mechDest).length < items.length := by
    rw [length_filter_lt_length_iff_exists]
    exact ⟨mechDest, mem, by simp⟩
  obtain ⟨copies, copied⟩ := copyElems_spec ne (List.range (networkLength isC3)) _ _
    seeded (by
      simp only [array, length_append, length_replicate, length_nil,
        length_singleton]
      have short := source.short
      omega)
  rw [array] at copied
  have prepared := (wrote.trans seeds).trans copies
  obtain ⟨w', ran, wroteThen, stores⟩ :=
    validate_spec ((prepared.only.working mechDest).trans works) copied.toLists
  refine ⟨w', ?_, prepared.trans wroteThen, ?_⟩
  · rw [replicateNetwork_eq]
    exact bind_eq_some_iff.mpr ⟨cleared, clearing, ran⟩
  · rw [prepared.only.kept, ← append_assoc, kept_append_blanks] at stores
    exact stores

end Replicate

section Add

variable {isC3 : Bool} {mech mechToAdd : Dbref} {w : World} {items : List Dbref}

theorem findFreePos_skip {n : Network} {i : Nat} (rest : List Nat) (front : List Nat)
    (taken : ∀ j ∈ front, 0 < n.elem j ∧ n.elem j ≠ mechToAdd) (free : ¬ 0 < n.elem i) :
    findFreePos n mechToAdd (front ++ i :: rest) = .free i := by
  induction front with
  | nil => simp [findFreePos, free]
  | cons j later ih =>
    obtain ⟨pos, other⟩ := taken j mem_cons_self
    have still := ih fun k mem => taken k (mem_cons_of_mem j mem)
    simpa [findFreePos, pos, other] using still

theorem findFreePos_eq {n : Network} {limit : Nat} (stores : Stores n limit items)
    (pos : ∀ ref ∈ items, 0 < ref) (absent : mechToAdd ∉ items)
    (room : items.length < limit) :
    findFreePos n mechToAdd (List.range limit) = .free items.length := by
  obtain ⟨extra, rfl⟩ := Nat.exists_eq_add_of_lt room
  have split : List.range (items.length + extra + 1) =
      List.range items.length ++ items.length ::
        (List.range extra).map (fun j => items.length + 1 + j) := by
    rw [Nat.add_assoc, range_add, Nat.add_comm extra 1, range_add, map_append]
    simp [Nat.add_assoc]
  rw [split]
  apply findFreePos_skip
  · intro j mem
    have hin := mem_range.mp mem
    have here := stores.holds j _ (getElem?_eq_getElem hin)
    have among := getElem_mem hin
    rw [here]
    exact ⟨pos _ among, fun eq => absent (eq ▸ among)⟩
  · rw [stores.rest _ (Nat.le_refl _) room]
    decide

theorem replicateElems_behind (indices : List Nat) (w : World)
    (behind : ∀ i ∈ indices, (w.network isC3 mech).size ≤ i) :
    indices.foldlM (replicateElem isC3 mech) w = some w := by
  induction indices with
  | nil => rfl
  | cons i rest ih =>
    have nobody := getOther_of_outside (behind i mem_cons_self)
    rw [foldlM_cons]
    simpa [replicateElem, nobody] using ih fun later mem =>
      behind later (mem_cons_of_mem i mem)

theorem replicateElems_spec (suffix front : List Dbref) (w : World)
    (source : Stores (w.network isC3 mech) (networkLength isC3) (front ++ suffix))
    (nodup : suffix.Nodup) (notSelf : mech ∉ suffix) :
    ∃ w', (List.range' front.length (networkLength isC3 - front.length)).foldlM
        (replicateElem isC3 mech) w = some w' ∧ NetworkOnly w w' ∧
      (∀ ref ∈ suffix, w.reaches isC3 mech ref = true →
        Stores (w'.network isC3 ref) (networkLength isC3) (kept w isC3 ref
          (mech :: (front ++ suffix).filter fun other => other != ref))) ∧
      ∀ kind ref, ¬ (kind = isC3 ∧ ref ∈ suffix ∧ w.reaches isC3 mech ref = true) →
        w'.network kind ref = w.network kind ref := by
  induction suffix generalizing front w with
  | nil =>
    refine ⟨w, ?_, NetworkOnly.refl w, by simp, fun _ _ _ => rfl⟩
    apply replicateElems_behind
    intro i mem
    rw [source.size, append_nil]
    exact Int.ofNat_le.mpr (mem_range'_1.mp mem).1
  | cons item rest ih =>
    obtain ⟨itemFresh, distinctRest⟩ := nodup_cons.mp nodup
    have notItem : mech ≠ item := fun eq => notSelf (eq ▸ mem_cons_self)
    have length : (front ++ item :: rest).length = front.length + (rest.length + 1) := by
      simp
    have inside : front.length < networkLength isC3 := by
      have short := source.short
      rw [length] at short
      omega
    have more : networkLength isC3 - front.length =
        networkLength isC3 - (front.length + 1) + 1 := by omega
    have found : getOtherMechInNetwork w isC3 mech front.length =
        Option.guard (w.reaches isC3 mech) item := by
      rw [getOther_of_inside, source.holds front.length item (by simp)]
      rw [source.size, length]
      exact Int.ofNat_lt.mpr (by omega)
    obtain ⟨copied, copying, copiedOnly, copiedItem, copiedOthers⟩ : ∃ copied,
        replicateElem isC3 mech w front.length = some copied ∧ NetworkOnly w copied ∧
        (w.reaches isC3 mech item = true →
          Stores (copied.network isC3 item) (networkLength isC3) (kept w isC3 item
            (mech :: (front ++ item :: rest).filter fun other => other != item))) ∧
        ∀ kind ref, ¬ (kind = isC3 ∧ ref = item ∧ w.reaches isC3 mech item = true) →
          copied.network kind ref = w.network kind ref := by
      by_cases reach : w.reaches isC3 mech item = true
      · obtain ⟨isMech, reachable⟩ := Bool.and_eq_true_iff.mp reach
        obtain ⟨copied, copying, wrote, lists⟩ := replicateNetwork_spec notItem
          (working_of_reachable reachable) source (by simp) isMech
        refine ⟨copied, ?_, wrote.only, fun _ => lists, ?_⟩
        · simpa [replicateElem, found, Option.guard, reach] using copying
        · intro kind ref elsewhere
          exact wrote.others kind ref fun eq => elsewhere ⟨eq.1, eq.2, reach⟩
      · refine ⟨w, by simp [replicateElem, found, Option.guard, reach], NetworkOnly.refl w,
          fun reach' => absurd reach' reach, fun _ _ _ => rfl⟩
    have sourceStill : Stores (copied.network isC3 mech) (networkLength isC3)
        ((front ++ [item]) ++ rest) := by
      rw [copiedOthers isC3 mech (fun eq => notItem eq.2.1), append_assoc]
      exact source
    obtain ⟨w', ran, only, copies, others⟩ := ih (front ++ [item]) copied
      sourceStill distinctRest (fun mem => notSelf (mem_cons_of_mem item mem))
    refine ⟨w', ?_, copiedOnly.trans only, ?_, ?_⟩
    · rw [more, range'_succ, foldlM_cons, copying]
      simpa using ran
    · intro ref mem reach
      rcases mem_cons.mp mem with rfl | later
      · rw [others isC3 ref (fun again => itemFresh again.2.1)]
        exact copiedItem reach
      · have result := copies ref later ((copiedOnly.reaches isC3 mech ref).trans reach)
        rwa [copiedOnly.kept, append_assoc] at result
    · intro kind ref elsewhere
      rw [others, copiedOthers]
      · rintro ⟨rfl, rfl, reach⟩
        exact elsewhere ⟨rfl, mem_cons_self, reach⟩
      · rw [copiedOnly.reaches]
        rintro ⟨rfl, later, reach⟩
        exact elsewhere ⟨rfl, mem_cons_of_mem item later, reach⟩

theorem addMechToNetwork_spec {valid : World} (validated : validate isC3 mech w = some valid)
    (wrote : Writes isC3 mech w valid)
    (stores : Stores (valid.network isC3 mech) (networkLength isC3) items)
    (pos : ∀ ref ∈ items, 0 < ref) (nodup : (items ++ [mechToAdd]).Nodup)
    (notSelf : mech ∉ items ++ [mechToAdd]) (room : items.length < networkLength isC3) :
    ∃ copied, addMechToNetwork isC3 mech mechToAdd w = validate isC3 mech copied ∧
      NetworkOnly w copied ∧
      Stores (copied.network isC3 mech) (networkLength isC3) (items ++ [mechToAdd]) ∧
      (∀ ref ∈ items ++ [mechToAdd], w.reaches isC3 mech ref = true →
        Stores (copied.network isC3 ref) (networkLength isC3) (kept w isC3 ref
          (mech :: (items ++ [mechToAdd]).filter fun other => other != ref))) ∧
      ∀ kind ref, ¬ (kind = isC3 ∧ (ref = mech ∨
          ref ∈ items ++ [mechToAdd] ∧ w.reaches isC3 mech ref = true)) →
        copied.network kind ref = w.network kind ref := by
  have absent : mechToAdd ∉ items := by
    intro mem
    exact (nodup_append.mp nodup).2.2 mechToAdd mem mechToAdd
      mem_cons_self rfl
  have size : ((valid.setElem isC3 mech items.length mechToAdd).network isC3 mech).size + 1 =
      items.length + 1 := by
    rw [network_setElem_size, stores.size]
  have pushed := @push_stores isC3 mech valid items mechToAdd items.length _ stores rfl size
    room
  have pushes := @push_writes isC3 mech items.length mechToAdd
    (((valid.setElem isC3 mech items.length mechToAdd).network isC3 mech).size + 1) valid
  have prepared := wrote.trans pushes
  obtain ⟨copied, ran, only, copies, others⟩ :=
    replicateElems_spec (items ++ [mechToAdd]) [] _ pushed nodup notSelf
  rw [length_nil, Nat.sub_zero, ← range_eq_range'] at ran
  refine ⟨copied, ?_, prepared.only.trans only, ?_, ?_, ?_⟩
  · have position : getFreeNetworkPos isC3 mech mechToAdd w =
        some (valid, .free items.length) := by
      simp [getFreeNetworkPos, validated, findFreePos_eq stores pos absent room]
    simp [addMechToNetwork, position, ran]
  · rw [others isC3 mech (fun eq => notSelf eq.2.1)]
    exact pushed
  · intro ref mem reach
    have result := copies ref mem ((prepared.only.reaches isC3 mech ref).trans reach)
    rwa [prepared.only.kept, nil_append] at result
  · intro kind ref elsewhere
    rw [others, prepared.others]
    · exact fun eq => elsewhere ⟨eq.1, Or.inl eq.2⟩
    · rw [prepared.only.reaches]
      rintro ⟨rfl, mem, reach⟩
      exact elsewhere ⟨rfl, Or.inr ⟨mem, reach⟩⟩

end Add

end BattletechMux.UnitWorld
