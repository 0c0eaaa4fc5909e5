/-
Module: BattletechMux.Foundation.Machine
Purpose: Runs of a partial deterministic machine. A machine is a step function from a state and an
  operation; a run performs a list of operations.
-/
import Mathlib.Logic.Basic
import Mathlib.Data.Option.Basic

namespace Machine

variable {State Op : Type*}

/-- Perform the operations in order; `none` when one of them gets stuck. -/
def run (step : State → Op → Option State) : State → List Op → Option State
  | s, [] => some s
  | s, op :: rest => (step s op).bind fun s => run step s rest

@[simp] theorem run_nil (step : State → Op → Option State) (s : State) :
    run step s [] = some s := rfl

@[simp] theorem run_cons (step : State → Op → Option State) (s : State)
    (op : Op) (rest : List Op) :
    run step s (op :: rest) = (step s op).bind fun s => run step s rest := rfl

theorem run_eq_foldlM (step : State → Op → Option State) (s : State) (ops : List Op) :
    run step s ops = ops.foldlM step s := by
  induction ops generalizing s with
  | nil => rfl
  | cons op rest ih =>
    rw [run_cons, List.foldlM_cons]
    exact congrArg _ (funext ih)

/-- Every operation of the run meets the guard in the state it is performed
in. -/
def Guarded (step : State → Op → Option State) (guard : State → Op → Prop) :
    State → List Op → Prop
  | _, [] => True
  | s, op :: rest => guard s op ∧ ∀ s', step s op = some s' → Guarded step guard s' rest

@[simp] theorem guarded_nil (step : State → Op → Option State)
    (guard : State → Op → Prop) (s : State) : Guarded step guard s [] := trivial

@[simp] theorem guarded_cons (step : State → Op → Option State)
    (guard : State → Op → Prop) (s : State) (op : Op) (rest : List Op) :
    Guarded step guard s (op :: rest) ↔
      guard s op ∧ ∀ s', step s op = some s' → Guarded step guard s' rest := Iff.rfl

theorem guarded_cons_of_step {step : State → Op → Option State}
    {guard : State → Op → Prop} {s s' : State} {op : Op} (rest : List Op)
    (stepped : step s op = some s') :
    Guarded step guard s (op :: rest) ↔ guard s op ∧ Guarded step guard s' rest := by
  simp [stepped]

theorem guarded_append {step : State → Op → Option State} {guard : State → Op → Prop}
    {s : State} {fst snd : List Op} :
    Guarded step guard s (fst ++ snd) ↔
      Guarded step guard s fst ∧
        ∀ s', run step s fst = some s' → Guarded step guard s' snd := by
  induction fst generalizing s with
  | nil => simp
  | cons op rest ih =>
    rw [List.cons_append, guarded_cons, guarded_cons, run_cons]
    cases stepped : step s op with
    | none => simp
    | some middle => simp [ih, and_assoc]

theorem guarded_of_forall {step : State → Op → Option State} {guard : State → Op → Prop}
    (always : ∀ s op, guard s op) (s : State) (ops : List Op) : Guarded step guard s ops := by
  induction ops generalizing s with
  | nil => trivial
  | cons op rest ih =>
    exact ⟨always s op, fun s' _ => ih s'⟩

/-- When the guard can be computed, so can the guard of a run. -/
instance Guarded.decidable (step : State → Op → Option State)
    (guard : State → Op → Prop) [decidableGuard : ∀ s op, Decidable (guard s op)] :
    ∀ s ops, Decidable (Guarded step guard s ops)
  | _, [] => isTrue trivial
  | s, op :: rest =>
    match stepped : step s op with
    | none => decidable_of_iff (guard s op) (by simp [stepped])
    | some s' =>
      have := Guarded.decidable step guard s' rest
      decidable_of_iff (guard s op ∧ Guarded step guard s' rest)
        (guarded_cons_of_step rest stepped).symm

theorem run_guarded {step : State → Op → Option State}
    {guard : State → Op → Prop} {inv : State → Prop}
    (preserved : ∀ s op s', inv s → guard s op → step s op = some s' →
      inv s')
    {s s' : State} {ops : List Op} (h : inv s)
    (guarded : Guarded step guard s ops) (ran : run step s ops = some s') :
    inv s' := by
  induction ops generalizing s with
  | nil => exact Option.some.inj ran ▸ h
  | cons op rest ih =>
    obtain ⟨middle, stepped, later⟩ := Option.bind_eq_some_iff.mp ran
    have kept := preserved s op middle h guarded.1 stepped
    exact ih kept (guarded.2 middle stepped) later

theorem run_invariant {step : State → Op → Option State}
    {inv : State → Prop}
    (preserved : ∀ s op, inv s → ∃ s', step s op = some s' ∧ inv s')
    {s : State} (ops : List Op) (h : inv s) :
    ∃ s', run step s ops = some s' ∧ inv s' := by
  induction ops generalizing s with
  | nil => exact ⟨s, rfl, h⟩
  | cons op rest ih =>
    obtain ⟨middle, stepped, kept⟩ := preserved s op h
    obtain ⟨last, ran, finally'⟩ := ih kept
    exact ⟨last, by simp [stepped, ran], finally'⟩

theorem guarded_invariant {step : State → Op → Option State} {guard : State → Op → Prop}
    {inv : State → Prop}
    (preserved : ∀ s op, inv s → guard s op → ∃ s', step s op = some s' ∧ inv s')
    {s : State} {ops : List Op} (h : inv s) (guarded : Guarded step guard s ops) :
    ∃ s', run step s ops = some s' ∧ inv s' := by
  induction ops generalizing s with
  | nil => exact ⟨s, rfl, h⟩
  | cons op rest ih =>
    obtain ⟨middle, stepped, kept⟩ := preserved s op h guarded.1
    obtain ⟨last, ran, finally'⟩ := ih kept (guarded.2 middle stepped)
    exact ⟨last, by simp [stepped, ran], finally'⟩

theorem foldlM_invariant {step : State → Op → Option State} {inv : State → Prop}
    (preserved : ∀ s op, inv s → ∃ s', step s op = some s' ∧ inv s')
    {s : State} (ops : List Op) (h : inv s) :
    ∃ s', ops.foldlM step s = some s' ∧ inv s' := by
  obtain ⟨s', ran, kept⟩ := run_invariant preserved ops h
  exact ⟨s', run_eq_foldlM step s ops ▸ ran, kept⟩

theorem foldl_invariant_of_mem {step : State → Op → State} {inv : State → Prop}
    {s : State} {ops : List Op}
    (preserved : ∀ s, ∀ op ∈ ops, inv s → inv (step s op))
    (h : inv s) : inv (ops.foldl step s) := by
  induction ops generalizing s with
  | nil => exact h
  | cons op rest ih =>
    apply ih
    · intro middle later member
      exact preserved middle later (List.mem_cons_of_mem op member)
    · exact preserved s op List.mem_cons_self h

theorem foldl_invariant {step : State → Op → State} {inv : State → Prop}
    (preserved : ∀ s op, inv s → inv (step s op))
    {s : State} (ops : List Op) (h : inv s) :
    inv (ops.foldl step s) :=
  foldl_invariant_of_mem (fun middle op _ => preserved middle op) h

def calls {Out : Type*} (step : State → Op → Option (Out × State)) :
    State → List Op → Option (List Out × State)
  | s, [] => some ([], s)
  | s, op :: later => do
      let (out, s) ← step s op
      let (outs, s) ← calls step s later
      some (out :: outs, s)

theorem calls_cons {Out : Type*} {step : State → Op → Option (Out × State)} {s s' s'' : State}
    {op : Op} {later : List Op} {out : Out} {outs : List Out}
    (stepped : step s op = some (out, s')) (ran : calls step s' later = some (outs, s'')) :
    calls step s (op :: later) = some (out :: outs, s'') := by
  simp only [calls, stepped, ran, Option.bind_eq_bind, Option.bind_some]

/-! ## Set and cleared -/

/-- What was set by one of the operations and cleared by none since, or was so before and cleared by
none. -/
def Since (sets clears : Op → Prop) (before : Prop) (ops : List Op) : Prop :=
  (∃ earlier op later, ops = earlier ++ op :: later ∧ sets op ∧ ∀ after ∈ later, ¬ clears after) ∨
    before ∧ ∀ op ∈ ops, ¬ clears op

section Since

variable {sets clears : Op → Prop} {before : Prop} {ops : List Op}

theorem since_nil : Since sets clears before [] ↔ before := by simp [Since]

theorem since_cons {op : Op} {rest : List Op} : Since sets clears before (op :: rest) ↔
    Since sets clears (sets op ∨ before ∧ ¬ clears op) rest := by
  constructor
  · rintro (⟨earlier, o, later, split, set, kept⟩ | ⟨held, kept⟩)
    · cases earlier with
      | nil =>
        obtain ⟨rfl, rfl⟩ := List.cons.inj split
        exact .inr ⟨.inl set, kept⟩
      | cons fst earlier =>
        obtain ⟨rfl, rfl⟩ := List.cons.inj split
        exact .inl ⟨earlier, o, later, rfl, set, kept⟩
    · obtain ⟨fst, later⟩ := List.forall_mem_cons.mp kept
      exact .inr ⟨.inr ⟨held, fst⟩, later⟩
  · rintro (⟨earlier, o, later, rfl, set, kept⟩ | ⟨set | ⟨held, kept⟩, later⟩)
    · exact .inl ⟨op :: earlier, o, later, rfl, set, kept⟩
    · exact .inl ⟨[], op, rest, rfl, set, later⟩
    · exact .inr ⟨held, List.forall_mem_cons.mpr ⟨kept, later⟩⟩

theorem since_append {others : List Op} : Since sets clears before (ops ++ others) ↔
    Since sets clears (Since sets clears before ops) others := by
  induction ops generalizing before with
  | nil => rw [List.nil_append, since_nil]
  | cons op rest ih =>
    rw [List.cons_append, since_cons, ih, since_cons]

theorem foldl_since {h : State → Prop} {step : State → Op → State}
    (one : ∀ s op, h (step s op) ↔ sets op ∨ h s ∧ ¬ clears op) (ops : List Op)
    (s : State) :
    h (ops.foldl step s) ↔ Since sets clears (h s) ops := by
  induction ops generalizing s with
  | nil => exact since_nil.symm
  | cons op rest ih => rw [List.foldl_cons, ih, one, since_cons]

theorem since_iff_of_sets : Since sets (fun _ => False) before ops ↔
    (∃ op ∈ ops, sets op) ∨ before := by
  refine or_congr ⟨?_, fun ⟨op, member, set⟩ => ?_⟩ (by simp)
  · rintro ⟨earlier, op, later, rfl, set, -⟩
    exact ⟨op, by simp, set⟩
  · obtain ⟨earlier, later, rfl⟩ := List.append_of_mem member
    exact ⟨earlier, op, later, rfl, set, fun _ _ => id⟩

theorem since_iff_of_clears : Since (fun _ => False) clears before ops ↔
    before ∧ ∀ op ∈ ops, ¬ clears op := by
  simp [Since]

end Since

end Machine
