import Mathlib

/-!
# Machines of partial steps

A machine is a step function `step : ω → σ → Option σ`: an operation either
completes and gives the next state, or does not complete (`none`, a panic of
the code it models), and then the machine has no next state along that
operation. This is what every safety result over runs needs: which states
are reachable, the induction principle that makes an invariant of a property
kept by every step, and the runs that exhibit a reachable state by listing
its operations.
-/

namespace Machine

universe u v

variable {σ : Type u} {ω : Type v}

/-- The states reached from `init` by completed steps. -/
inductive Reachable (step : ω → σ → Option σ) (init : σ) : σ → Prop
  | init : Reachable step init init
  | step {s s' : σ} (op : ω) : Reachable step init s → step op s = some s' → Reachable step init s'

/-- Operations in order from `s`; `none` as soon as one does not complete. -/
def run (step : ω → σ → Option σ) : List ω → σ → Option σ
  | [], s => some s
  | op :: ops, s => (step op s).bind (run step ops)

variable {step : ω → σ → Option σ} {init : σ}

@[simp] theorem run_nil (s : σ) : run step [] s = some s := rfl

@[simp] theorem run_cons (op : ω) (ops : List ω) (s : σ) :
    run step (op :: ops) s = (step op s).bind (run step ops) := rfl

theorem run_append (ops ops' : List ω) (s : σ) :
    run step (ops ++ ops') s = (run step ops s).bind (run step ops') := by
  induction ops generalizing s with
  | nil => rfl
  | cons op ops ih =>
      simp only [List.cons_append, run_cons]
      cases step op s with
      | none => rfl
      | some s' => exact ih s'

/-- A completed run from a reachable state ends in a reachable state. -/
theorem Reachable.run {s s' : σ} {ops : List ω} (h : Reachable step init s)
    (hrun : run step ops s = some s') : Reachable step init s' := by
  induction ops generalizing s with
  | nil => cases hrun; exact h
  | cons op ops ih =>
      rw [run_cons] at hrun
      cases hs : step op s with
      | none => rw [hs] at hrun; cases hrun
      | some t =>
          rw [hs] at hrun
          exact ih (h.step op hs) hrun

theorem reachable_of_run {s : σ} {ops : List ω} (hrun : run step ops init = some s) :
    Reachable step init s :=
  Reachable.init.run hrun

/-- The invariant rule: a property of `init` that every completed step keeps
holds of every reachable state. -/
theorem Reachable.invariant (inv : σ → Prop) (h0 : inv init)
    (hstep : ∀ op s s', inv s → step op s = some s' → inv s') {s : σ}
    (h : Reachable step init s) : inv s := by
  induction h with
  | init => exact h0
  | step op _ hs ih => exact hstep op _ _ ih hs

/-- The invariant rule for a property that holds until `stopped` does: every
step keeps `stopped` once it holds, so a state where it fails was reached
along states where it failed, and each of their steps keeps `inv`. -/
theorem Reachable.invariant_until (stopped inv : σ → Prop) (h0 : inv init)
    (hmono : ∀ op s s', stopped s → step op s = some s' → stopped s')
    (hstep : ∀ op s s', inv s → step op s = some s' → ¬ stopped s' → inv s') {s : σ}
    (h : Reachable step init s) (hs : ¬ stopped s) : inv s := by
  induction h with
  | init => exact h0
  | step op _ hst ih =>
      -- the state before the step was not stopped either
      have hprev := fun hstop => hs (hmono op _ _ hstop hst)
      exact hstep op _ _ (ih hprev) hst hs

/-! ## Guarded machines

A machine whose steps are only taken from the states a guard admits: its
reachable states are those of runs that never leave the guard before their
last step. -/

section Guarded

variable (good : σ → Prop) [DecidablePred good]

/-- `step`, taken only from the states that satisfy `good`. -/
def guarded (step : ω → σ → Option σ) : ω → σ → Option σ :=
  fun op s => if good s then step op s else none

variable {good}

theorem guarded_eq_some {op : ω} {s s' : σ} :
    guarded good step op s = some s' ↔ good s ∧ step op s = some s' := by
  unfold guarded
  split
  · next h => exact ⟨fun hs => ⟨h, hs⟩, fun hs => hs.2⟩
  · next h =>
      constructor
      · intro hs
        cases hs
      · intro hs
        exact absurd hs.1 h

/-- The guarded machine reaches only states the machine reaches. -/
theorem Reachable.of_guarded {s : σ} (h : Reachable (guarded good step) init s) :
    Reachable step init s := by
  induction h with
  | init => exact .init
  | step op _ hs ih => exact ih.step op (guarded_eq_some.mp hs).2

/-- The invariant rule of a guarded machine: each step may assume the guard. -/
theorem Reachable.invariant_guarded (inv : σ → Prop) (h0 : inv init)
    (hstep : ∀ op s s', good s → inv s → step op s = some s' → inv s') {s : σ}
    (h : Reachable (guarded good step) init s) : inv s :=
  h.invariant inv h0 fun op s s' hs hst =>
    hstep op s s' (guarded_eq_some.mp hst).1 hs (guarded_eq_some.mp hst).2

end Guarded

end Machine
