import Mathlib.Logic.Relation

/-! # Deterministic labelled machines

A `Machine` is a partial step function: `step s a` is the state after action
`a`, or `none` where `a` is not enabled in `s`.  All nondeterminism of an
environment lives in the choice of actions.

`Machine.Reach M ok` are the states of the runs whose every action meets the
side condition `ok` in the state it is taken in; with the trivial condition
these are the reachable states.  `Reach.invariant` is the induction over runs
that every whole-run theorem uses, and `run_ranked` the one that bounds how long a
run can stay in a phase.
-/

namespace LoongsonEjtag.Lib

/-- A deterministic machine over states `σ` and actions `α`. -/
structure Machine (σ : Type*) (α : Type*) where
  init : σ → Prop
  step : σ → α → Option σ

namespace Machine

variable {σ α : Type*} {M : Machine σ α}

/-- States of the runs of `M` in which every action taken meets `ok`. -/
inductive Reach (M : Machine σ α) (ok : σ → α → Prop) : σ → Prop
  | start {s : σ} : M.init s → Reach M ok s
  | next {s s' : σ} {a : α} : Reach M ok s → ok s a → M.step s a = some s' → Reach M ok s'

/-- No condition on the actions. -/
def anyAction (_ : σ) (_ : α) : Prop := True

instance (s : σ) (a : α) : Decidable (anyAction s a) := inferInstanceAs (Decidable True)

/-- States of all runs of `M`. -/
abbrev Reachable (M : Machine σ α) : σ → Prop := M.Reach anyAction

/-- A property that holds initially and is kept by every admitted step holds
    along every admitted run.  The step may assume that its source is itself
    reached by such a run, so invariants can be proved one on top of another. -/
theorem Reach.invariant {ok : σ → α → Prop} {P : σ → Prop}
    (start : ∀ s, M.init s → P s)
    (next : ∀ s s' a, M.Reach ok s → P s → ok s a → M.step s a = some s' → P s') :
    ∀ {s : σ}, M.Reach ok s → P s := by
  intro s reach
  induction reach with
  | start initial => exact start _ initial
  | next before admitted stepped ih => exact next _ _ _ before ih admitted stepped

/-- `M` from the state `s` on. -/
def startingAt (M : Machine σ α) (s : σ) : Machine σ α := { M with init := (· = s) }

/-- A run from a reachable state goes on to reachable states. -/
theorem Reach.further {ok : σ → α → Prop} {s s' : σ} (further : (M.startingAt s).Reach ok s')
    (reach : M.Reachable s) : M.Reachable s' := by
  induction further with
  | start initial => exact initial ▸ reach
  | next _ _ stepped ih => exact .next ih trivial stepped

/-- Take the actions of a list in order, as long as they meet `ok`. -/
def run (M : Machine σ α) (ok : σ → α → Prop) [∀ s a, Decidable (ok s a)] :
    σ → List α → Option σ
  | s, [] => some s
  | s, a :: rest => if ok s a then (M.step s a).bind fun s' => M.run ok s' rest else none

@[simp] theorem run_any_cons (s : σ) (a : α) (rest : List α) :
    M.run anyAction s (a :: rest) = (M.step s a).bind fun s' => M.run anyAction s' rest :=
  if_pos trivial

variable {ok : σ → α → Prop} [∀ s a, Decidable (ok s a)]

theorem run_reach {s s' : σ} {actions : List α} (reach : M.Reach ok s)
    (ran : M.run ok s actions = some s') : M.Reach ok s' := by
  induction actions generalizing s with
  | nil =>
    simp only [run, Option.some.injEq] at ran
    exact ran ▸ reach
  | cons a rest ih =>
    simp only [run] at ran
    split at ran
    · obtain ⟨middle, stepped, ran⟩ := Option.bind_eq_some_iff.mp ran
      exact ih (.next reach ‹_› stepped) ran
    · cases ran

/-- What every admitted step keeps, a run keeps from any state. -/
theorem run_keeps {P : σ → Prop} (next : ∀ s s' a, P s → ok s a → M.step s a = some s' → P s')
    {s s' : σ} {actions : List α} (holds : P s) (ran : M.run ok s actions = some s') : P s' := by
  induction actions generalizing s with
  | nil =>
    simp only [run, Option.some.injEq] at ran
    exact ran ▸ holds
  | cons a rest ih =>
    simp only [run] at ran
    split at ran
    · obtain ⟨middle, stepped, ran⟩ := Option.bind_eq_some_iff.mp ran
      exact ih (next _ _ _ holds ‹_› stepped) ran
    · cases ran

/-- What `f` adds up to over the actions of a run. -/
def total (M : Machine σ α) (f : σ → α → Nat) : σ → List α → Nat
  | _, [] => 0
  | s, a :: rest => f s a + (M.step s a).elim 0 fun s' => M.total f s' rest

@[simp] theorem total_zero (s : σ) (actions : List α) : M.total (fun _ _ => 0) s actions = 0 := by
  induction actions generalizing s with
  | nil => rfl
  | cons a rest ih =>
    rw [total]
    cases M.step s a with
    | none => rfl
    | some s' => simpa using ih s'

/-- The rule of a ranked phase: a step of phase `P` pays for its cost out of the
    rank, up to a refund, or leads to `Q`, which is never left.  A run that
    stays in `P` has paid for all its costs then. -/
theorem run_ranked {P : σ → Nat → Prop} {Q : σ → Prop} (cost refund : σ → α → Nat)
    (next : ∀ s s' a rank, P s rank → ok s a → M.step s a = some s' →
      Q s' ∨ ∃ rank', P s' rank' ∧ rank' + cost s a ≤ rank + refund s a)
    (stays : ∀ s s' a, Q s → ok s a → M.step s a = some s' → Q s')
    {s s' : σ} {rank : Nat} {actions : List α} (holds : P s rank)
    (ran : M.run ok s actions = some s') :
    Q s' ∨ ∃ rank', P s' rank' ∧
      rank' + M.total cost s actions ≤ rank + M.total refund s actions := by
  induction actions generalizing s rank with
  | nil =>
    simp only [run, Option.some.injEq] at ran
    exact .inr ⟨rank, ran ▸ holds, Nat.le_refl _⟩
  | cons a rest ih =>
    simp only [run] at ran
    split at ran
    · rename_i admitted
      obtain ⟨middle, stepped, ran⟩ := Option.bind_eq_some_iff.mp ran
      obtain done | ⟨rank', holds', paid⟩ := next _ _ _ _ holds admitted stepped
      · exact .inl (run_keeps stays done ran)
      · obtain done | ⟨rank'', holds'', paid'⟩ := ih holds' ran
        · exact .inl done
        · refine .inr ⟨rank'', holds'', ?_⟩
          simp only [total, stepped, Option.elim_some]
          omega
    · cases ran

/-- A run that can be computed reaches a state with the computed properties. -/
theorem exists_reach {s : σ} {actions : List α} (p : σ → Bool) (initial : M.init s)
    (ran : (M.run ok s actions).any p = true) : ∃ s', M.Reach ok s' ∧ p s' = true := by
  obtain ⟨s', result, holds⟩ := (Option.any_eq_true p _).mp ran
  exact ⟨s', run_reach (.start initial) result, holds⟩

end Machine

end LoongsonEjtag.Lib
