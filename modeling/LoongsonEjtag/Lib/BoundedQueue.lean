import Mathlib.Data.List.Basic

/-! # Bounded queues

A queue of at most `n` elements.  One that is full either refuses what is offered
(`offer`) or gives up its oldest elements for it (`force`); in both cases what is
longer than the whole queue loses its end.

`run` replays a list of calls and collects their results, and `run_refines` lifts
the agreement of two systems from one call to any number of them.
-/

namespace LoongsonEjtag.Lib

/-- Results and final state of the calls of a list. -/
def run {κ ρ σ : Type*} (call : κ → σ → ρ × σ) : List κ → σ → List ρ × σ
  | [], s => ([], s)
  | c :: cs, s => ((call c s).1 :: (run call cs (call c s).2).1, (run call cs (call c s).2).2)

/-- Two systems whose calls agree under `abs` agree over every list of calls. -/
theorem run_refines {κ ρ σ τ : Type*} {call : κ → σ → ρ × σ} {spec : κ → τ → ρ × τ} (abs : σ → τ)
    (agree : ∀ c s, (call c s).1 = (spec c (abs s)).1 ∧ abs (call c s).2 = (spec c (abs s)).2)
    (cs : List κ) (s : σ) :
    (run call cs s).1 = (run spec cs (abs s)).1 ∧
      abs (run call cs s).2 = (run spec cs (abs s)).2 := by
  induction cs generalizing s with
  | nil => exact ⟨rfl, rfl⟩
  | cons c cs ih =>
    obtain ⟨result, state⟩ := agree c s
    obtain ⟨results, final⟩ := ih (call c s).2
    rw [state] at results final
    exact ⟨by rw [run, run, result, results], final⟩

@[ext] structure BoundedQueue (α : Type*) (n : Nat) where
  contents : List α
  bounded : contents.length ≤ n

namespace BoundedQueue

variable {α : Type*} {n : Nat} (q : BoundedQueue α n)

def empty : BoundedQueue α n := ⟨[], Nat.zero_le _⟩

def room : Nat := n - q.contents.length

/-- Add as much as there is room for. -/
def offer (xs : List α) : BoundedQueue α n :=
  ⟨q.contents ++ xs.take q.room, by
    have bounded := q.bounded
    rw [List.length_append, List.length_take, room]
    omega⟩

/-- Add all, up to a whole queue, in place of the oldest elements where there is no
    room. -/
def force (xs : List α) : BoundedQueue α n :=
  ⟨(q.contents ++ xs.take n).drop (q.contents.length + (xs.take n).length - n), by
    rw [List.length_drop, List.length_append]
    omega⟩

/-- Give up the `m` oldest elements. -/
def discard (m : Nat) : BoundedQueue α n :=
  ⟨q.contents.drop m, by
    have bounded := q.bounded
    rw [List.length_drop]
    omega⟩

end BoundedQueue

end LoongsonEjtag.Lib
