import Mathlib.Logic.Basic

/-! # Programs that may stop, and counted loops

`Except ε α` models a piece of code that either finishes with an `α` or stops
for a reason in `ε`.  This module has the inversion rules for its `bind` and
the counted loop `forUpTo` with its invariant rules: `forUpTo_invariant` for
what holds of a loop that finished, `forUpTo_total` for a loop none of whose
rounds stops, `forUpTo_decided` for a loop that stops exactly when a condition
on the number of rounds ends, `forUpTo_related` for two runs side by side, and
`SameOutcome.forUpTo` for two that also stop alike.
`FailsOnly E x` bounds the reasons for which `x` can stop, with one rule for
each construct.
-/

namespace LoongsonEjtag.Lib

universe u

variable {ε α β : Type u}

/-! ## Sequencing -/

@[simp] theorem ok_bind (a : α) (f : α → Except ε β) : (Except.ok a >>= f) = f a := rfl

@[simp] theorem error_bind (e : ε) (f : α → Except ε β) :
    ((Except.error e : Except ε α) >>= f) = .error e := rfl

/-- A sequence finishes exactly if both parts do. -/
theorem bind_eq_ok {x : Except ε α} {f : α → Except ε β} {b : β} :
    (x >>= f) = .ok b ↔ ∃ a, x = .ok a ∧ f a = .ok b := by
  cases x with
  | ok a => simp
  | error e => simp

/-- A sequence stops exactly if its first part does, or its second after it. -/
theorem bind_eq_error {x : Except ε α} {f : α → Except ε β} {e : ε} :
    (x >>= f) = .error e ↔ x = .error e ∨ ∃ a, x = .ok a ∧ f a = .error e := by
  cases x with
  | ok a => simp
  | error e => simp

theorem eq_ok_of_toOption {x : Except ε α} {a : α} (finished : x.toOption = some a) :
    x = .ok a := by
  cases x with
  | ok b => exact congrArg Except.ok (Option.some.inj finished)
  | error e => cases finished

/-! ## Counted loops -/

/-- `for (i = 0; i < n; ++i) a = body i a`. -/
def forUpTo (body : Nat → α → Except ε α) : Nat → α → Except ε α
  | 0, a => .ok a
  | n + 1, a => forUpTo body n a >>= body n

@[simp] theorem forUpTo_zero (body : Nat → α → Except ε α) (a : α) :
    forUpTo body 0 a = .ok a := rfl

theorem forUpTo_succ (body : Nat → α → Except ε α) (n : Nat) (a : α) :
    forUpTo body (n + 1) a = forUpTo body n a >>= body n := rfl

/-- Loop invariant for partial correctness. -/
theorem forUpTo_invariant {body : Nat → α → Except ε α} {n : Nat} {a b : α}
    (P : Nat → α → Prop) (start : P 0 a)
    (round : ∀ i x y, i < n → P i x → body i x = .ok y → P (i + 1) y)
    (finished : forUpTo body n a = .ok b) : P n b := by
  induction n generalizing b with
  | zero =>
    simp only [forUpTo_zero, Except.ok.injEq] at finished
    exact finished ▸ start
  | succ n ih =>
    obtain ⟨x, before, last⟩ := bind_eq_ok.mp finished
    have holds := ih (fun i x y below => round i x y (by omega)) before
    exact round n x b (by omega) holds last

/-- Loop invariant for total correctness: no round stops. -/
theorem forUpTo_total {body : Nat → α → Except ε α} {n : Nat} {a : α}
    (P : Nat → α → Prop) (start : P 0 a)
    (round : ∀ i x, i < n → P i x → ∃ y, body i x = .ok y ∧ P (i + 1) y) :
    ∃ b, forUpTo body n a = .ok b ∧ P n b := by
  induction n with
  | zero => exact ⟨a, rfl, start⟩
  | succ n ih =>
    obtain ⟨x, before, holds⟩ := ih fun i x below => round i x (by omega)
    obtain ⟨y, last, holds⟩ := round n x (by omega) holds
    exact ⟨y, by rw [forUpTo_succ, before, ok_bind, last], holds⟩

/-- Loop invariant for a loop that stops with `e` in the first round after which
    `good` no longer holds. -/
theorem forUpTo_decided {body : Nat → α → Except ε α} {n : Nat} {a : α} {e : ε}
    (P : Nat → α → Prop) (good : Nat → Prop) (start : P 0 a)
    (earlier : ∀ i, good (i + 1) → good i) (first : good 0)
    (round : ∀ i x, i < n → P i x →
      (good (i + 1) → ∃ y, body i x = .ok y ∧ P (i + 1) y) ∧
        (¬good (i + 1) → body i x = .error e)) :
    (good n → ∃ b, forUpTo body n a = .ok b ∧ P n b) ∧
      (¬good n → forUpTo body n a = .error e) := by
  induction n with
  | zero => exact ⟨fun _ => ⟨a, rfl, start⟩, fun bad => absurd first bad⟩
  | succ n ih =>
    obtain ⟨goes, stops⟩ := ih fun i x below => round i x (by omega)
    constructor
    · intro good
      obtain ⟨x, before, holds⟩ := goes (earlier n good)
      obtain ⟨y, last, holds⟩ := (round n x (by omega) holds).1 good
      exact ⟨y, by rw [forUpTo_succ, before, ok_bind, last], holds⟩
    · intro bad
      by_cases before : good n
      · -- The loop gets as far as its last round
        obtain ⟨x, ran, holds⟩ := goes before
        rw [forUpTo_succ, ran, ok_bind]
        exact (round n x (by omega) holds).2 bad
      · rw [forUpTo_succ, stops before, error_bind]

/-- Loops whose rounds keep a relation between two runs keep it. -/
theorem forUpTo_related {f : Nat → α → Except ε α} {g : Nat → β → Except ε β} {n : Nat}
    {a a' : α} {b b' : β} (R : Nat → α → β → Prop) (start : R 0 a b)
    (round : ∀ i x y x' y', i < n → R i x y → f i x = .ok x' → g i y = .ok y' → R (i + 1) x' y')
    (first : forUpTo f n a = .ok a') (second : forUpTo g n b = .ok b') : R n a' b' := by
  induction n generalizing a' b' with
  | zero =>
    simp only [forUpTo_zero, Except.ok.injEq] at first second
    exact first ▸ second ▸ start
  | succ n ih =>
    obtain ⟨x, before, last⟩ := bind_eq_ok.mp first
    obtain ⟨y, before', last'⟩ := bind_eq_ok.mp second
    have related := ih (fun i x y x' y' below => round i x y x' y' (by omega)) before before'
    exact round n x y a' b' (by omega) related last last'

/-- Loops with the same rounds are the same. -/
theorem forUpTo_congr {body body' : Nat → α → Except ε α} {n : Nat}
    (same : ∀ i a, i < n → body i a = body' i a) (a : α) :
    forUpTo body n a = forUpTo body' n a := by
  induction n with
  | zero => rfl
  | succ n ih =>
    have last : body n = body' n := funext fun a => same n a (by omega)
    rw [forUpTo_succ, forUpTo_succ, ih fun i a below => same i a (by omega), last]

/-! ## Two programs side by side -/

/-- Both finish, with related results, or both stop for the same reason. -/
inductive SameOutcome (R : α → β → Prop) : Except ε α → Except ε β → Prop
  | finished {a : α} {b : β} (related : R a b) : SameOutcome R (.ok a) (.ok b)
  | stopped (e : ε) : SameOutcome R (.error e) (.error e)

theorem SameOutcome.bind {γ δ : Type u} {R : α → β → Prop} {S : γ → δ → Prop} {x : Except ε α}
    {y : Except ε β} {f : α → Except ε γ} {g : β → Except ε δ} (first : SameOutcome R x y)
    (second : ∀ a b, R a b → SameOutcome S (f a) (g b)) : SameOutcome S (x >>= f) (y >>= g) := by
  cases first with
  | finished related => exact second _ _ related
  | stopped e => exact .stopped e

theorem SameOutcome.imp {R S : α → β → Prop} {x : Except ε α} {y : Except ε β}
    (same : SameOutcome R x y) (weaker : ∀ a b, R a b → S a b) : SameOutcome S x y := by
  cases same with
  | finished related => exact .finished (weaker _ _ related)
  | stopped e => exact .stopped e

theorem SameOutcome.of_finished {R : α → β → Prop} {x : Except ε α} {b : β}
    (same : SameOutcome R x (.ok b)) : ∃ a, x = .ok a ∧ R a b := by
  cases same with
  | finished related => exact ⟨_, rfl, related⟩

/-- What is known of the second program alone. -/
theorem SameOutcome.also {R : α → β → Prop} {P : β → Prop} {x : Except ε α} {y : Except ε β}
    (same : SameOutcome R x y) (known : ∀ b, y = .ok b → P b) :
    SameOutcome (fun a b => R a b ∧ P b) x y := by
  cases same with
  | finished related => exact .finished ⟨related, known _ rfl⟩
  | stopped e => exact .stopped e

theorem SameOutcome.forUpTo {f : Nat → α → Except ε α} {g : Nat → β → Except ε β} {n : Nat}
    {a : α} {b : β} (R : Nat → α → β → Prop) (start : R 0 a b)
    (round : ∀ i x y, i < n → R i x y → SameOutcome (R (i + 1)) (f i x) (g i y)) :
    SameOutcome (R n) (Lib.forUpTo f n a) (Lib.forUpTo g n b) := by
  induction n with
  | zero => exact .finished start
  | succ n ih =>
    have before := ih fun i x y below => round i x y (by omega)
    exact before.bind fun x y related => round n x y (by omega) related

/-! ## Reasons to stop -/

/-- `x` stops for reasons in `E` only. -/
def FailsOnly (E : ε → Prop) (x : Except ε α) : Prop := ∀ e, x = .error e → E e

variable {E : ε → Prop}

theorem FailsOnly.ok (a : α) : FailsOnly E (.ok a : Except ε α) := fun _ stopped => by cases stopped

theorem FailsOnly.error {e : ε} (allowed : E e) : FailsOnly E (.error e : Except ε α) := by
  intro e' stopped
  cases stopped
  exact allowed

theorem FailsOnly.bind {x : Except ε α} {f : α → Except ε β} (first : FailsOnly E x)
    (second : ∀ a, x = .ok a → FailsOnly E (f a)) : FailsOnly E (x >>= f) := by
  intro e stopped
  obtain stopped | ⟨a, finished, stopped⟩ := bind_eq_error.mp stopped
  · exact first e stopped
  · exact second a finished e stopped

theorem FailsOnly.forUpTo {body : Nat → α → Except ε α} (round : ∀ i a, FailsOnly E (body i a))
    (n : Nat) (a : α) : FailsOnly E (Lib.forUpTo body n a) := by
  induction n with
  | zero => exact .ok a
  | succ n ih => exact ih.bind fun b _ => round n b

theorem FailsOnly.mono {E' : ε → Prop} {x : Except ε α} (fails : FailsOnly E x)
    (weaker : ∀ e, E e → E' e) : FailsOnly E' x :=
  fun e stopped => weaker e (fails e stopped)

end LoongsonEjtag.Lib
