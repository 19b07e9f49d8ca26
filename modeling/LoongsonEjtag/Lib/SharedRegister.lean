import LoongsonEjtag.Lib.Machine
import Mathlib.Logic.Function.Basic

/-! # A register that several parties update

An update reads the register, works out what to store and stores it.  Other parties can store
between the two, and so can the register change on its own.

* `SharedRegister` — what a store does, given what was read for it, and what events do.
* `machine` — reads, stores and events in any order; a party has one update under way at
  most.
* `run_project` — a view of the register that only some updates and events can change is
  what these alone make of it, in every run.
-/

namespace LoongsonEjtag.Lib

/-- `store u read now` is the register after the store of an update that had found `read`. -/
structure SharedRegister (ρ υ ε : Type*) where
  store : υ → ρ → ρ → ρ
  event : ε → ρ → ρ

namespace SharedRegister

variable {ρ ρ' υ ε ι : Type*}

/-- The register, and what the parties have read for the updates that they are at. -/
structure State (ρ υ ι : Type*) where
  reg : ρ
  held : ι → Option (υ × ρ)

inductive Action (υ ε ι : Type*) where
  | read (party : ι) (u : υ)
  | store (party : ι) (u : υ)
  | event (e : ε)

variable [DecidableEq ι] [DecidableEq υ]

def step (R : SharedRegister ρ υ ε) (s : State ρ υ ι) : Action υ ε ι → Option (State ρ υ ι)
  | .read party u =>
    match s.held party with
    | none => some { s with held := Function.update s.held party (some (u, s.reg)) }
    | some _ => none
  | .store party u =>
    match s.held party with
    | none => none
    | some (v, read) =>
      if v = u then some ⟨R.store u read s.reg, Function.update s.held party none⟩ else none
  | .event e => some { s with reg := R.event e s.reg }

/-- From any contents, with no update under way. -/
def machine (R : SharedRegister ρ υ ε) : Machine (State ρ υ ι) (Action υ ε ι) where
  init s := ∀ party, s.held party = none
  step := R.step

/-! ## Views -/

/-- `view` shows what the updates and events of `updates` and `events` do, and nothing of
    the others. -/
structure View (R : SharedRegister ρ υ ε) (R' : SharedRegister ρ' υ ε) (view : ρ → ρ')
    (updates : υ → Bool) (events : ε → Bool) : Prop where
  store : ∀ u read now, updates u = true →
    view (R.store u read now) = R'.store u (view read) (view now)
  store_other : ∀ u read now, updates u = false → view (R.store u read now) = view now
  event : ∀ e now, events e = true → view (R.event e now) = R'.event e (view now)
  event_other : ∀ e now, events e = false → view (R.event e now) = view now

def Action.concerns (updates : υ → Bool) (events : ε → Bool) : Action υ ε ι → Bool
  | .read _ u | .store _ u => updates u
  | .event e => events e

/-- What a view shows of an update under way. -/
def shown (view : ρ → ρ') (updates : υ → Bool) : Option (υ × ρ) → Option (υ × ρ')
  | none => none
  | some (u, read) => if updates u then some (u, view read) else none

/-- What a view shows of a state. -/
def State.project (s : State ρ υ ι) (view : ρ → ρ') (updates : υ → Bool) : State ρ' υ ι where
  reg := view s.reg
  held party := shown view updates (s.held party)

variable {R : SharedRegister ρ υ ε} {R' : SharedRegister ρ' υ ε} {view : ρ → ρ'}
  {updates : υ → Bool} {events : ε → Bool} {s s' : State ρ υ ι} {a : Action υ ε ι}

omit [DecidableEq υ] in
theorem project_update {reg : ρ} {party : ι} {held : Option (υ × ρ)} :
    (⟨reg, Function.update s.held party held⟩ : State ρ υ ι).project view updates =
      ⟨view reg, Function.update (s.project view updates).held party
        (shown view updates held)⟩ := by
  have same : (fun other => shown view updates (Function.update s.held party held other)) =
      Function.update (fun other => shown view updates (s.held other)) party
        (shown view updates held) := by
    funext other
    by_cases is : other = party
    · rw [is, Function.update_self, Function.update_self]
    · rw [Function.update_of_ne is, Function.update_of_ne is]
  exact congrArg (State.mk (view reg)) same

omit [DecidableEq ι] [DecidableEq υ] in
theorem project_held {party : ι} {held : Option (υ × ρ)} (is : s.held party = held) :
    (s.project view updates).held party = shown view updates held :=
  congrArg (shown view updates) is

/-- A step that the view shows. -/
theorem step_project (views : R.View R' view updates events)
    (concerns : a.concerns updates events = true) (stepped : R.step s a = some s') :
    R'.step (s.project view updates) a = some (s'.project view updates) := by
  cases a with
  | read party u =>
    have concerns : updates u = true := concerns
    cases held : s.held party with
    | some _ => simp [step, held] at stepped
    | none =>
      simp only [step, held, Option.some.injEq] at stepped
      subst stepped
      have nothing : (s.project view updates).held party = none := project_held held
      simp only [step, nothing]
      rw [project_update, shown, if_pos concerns]
      rfl
  | store party u =>
    have concerns : updates u = true := concerns
    cases held : s.held party with
    | none => simp [step, held] at stepped
    | some pair =>
      obtain ⟨v, read⟩ := pair
      simp only [step, held] at stepped
      split at stepped
      · rename_i same
        subst same
        cases stepped
        have holds : (s.project view updates).held party = some (v, view read) :=
          (project_held held).trans (if_pos concerns)
        simp only [step, holds, if_true]
        rw [project_update, views.store v read s.reg concerns]
        rfl
      · cases stepped
  | event e =>
    cases stepped
    simp only [step, State.project]
    rw [views.event e s.reg concerns]

/-- A step of which the view shows nothing. -/
theorem step_hidden (views : R.View R' view updates events)
    (hidden : a.concerns updates events = false) (stepped : R.step s a = some s') :
    s'.project view updates = s.project view updates := by
  cases a with
  | read party u =>
    have hidden : updates u = false := hidden
    cases held : s.held party with
    | some _ => simp [step, held] at stepped
    | none =>
      simp only [step, held, Option.some.injEq] at stepped
      subst stepped
      have nothing : (s.project view updates).held party = none := project_held held
      rw [project_update, shown, if_neg (Bool.eq_false_iff.mp hidden), ← nothing,
        Function.update_eq_self]
      rfl
  | store party u =>
    have hidden : updates u = false := hidden
    cases held : s.held party with
    | none => simp [step, held] at stepped
    | some pair =>
      obtain ⟨v, read⟩ := pair
      simp only [step, held] at stepped
      split at stepped
      · rename_i same
        subst same
        cases stepped
        have nothing : (s.project view updates).held party = shown view updates none :=
          (project_held held).trans (if_neg (Bool.eq_false_iff.mp hidden))
        rw [project_update, views.store_other v read s.reg hidden, ← nothing,
          Function.update_eq_self]
        rfl
      · cases stepped
  | event e =>
    cases stepped
    simp only [State.project]
    rw [views.event_other e s.reg hidden]

theorem run_project (views : R.View R' view updates events) {actions : List (Action υ ε ι)}
    (ran : R.machine.run Machine.anyAction s actions = some s') :
    R'.machine.run Machine.anyAction (s.project view updates)
      (actions.filter (·.concerns updates events)) = some (s'.project view updates) := by
  induction actions generalizing s with
  | nil =>
    cases ran
    rfl
  | cons a rest ih =>
    rw [Machine.run_any_cons] at ran
    obtain ⟨middle, stepped, ran⟩ := Option.bind_eq_some_iff.mp ran
    cases concerns : a.concerns updates events with
    | true =>
      rw [List.filter_cons_of_pos concerns, Machine.run_any_cons]
      exact Option.bind_eq_some_iff.mpr ⟨_, step_project views concerns stepped, ih ran⟩
    | false =>
      rw [List.filter_cons_of_neg (by simp [concerns]), ← step_hidden views concerns stepped]
      exact ih ran

end SharedRegister

end LoongsonEjtag.Lib
