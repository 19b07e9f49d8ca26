import Mathlib.Data.List.Basic

/-! # First-in first-out queues with history

A `Fifo` remembers everything that was ever pushed and popped.  That the two
histories and the contents agree is a field, so every queue built from `empty`
by `push` and `pop` delivers what was pushed, in order and exactly once.  A
buffer is shown to be a queue by naming the `Fifo` it stands for in every state.
-/

namespace LoongsonEjtag.Lib

structure Fifo (α : Type*) where
  pushed : List α
  popped : List α
  contents : List α
  inOrder : popped ++ contents = pushed

namespace Fifo

variable {α : Type*}

def empty : Fifo α := ⟨[], [], [], rfl⟩

def push (q : Fifo α) (xs : List α) : Fifo α :=
  ⟨q.pushed ++ xs, q.popped, q.contents ++ xs, by rw [← List.append_assoc, q.inOrder]⟩

/-- Take the `n` oldest elements, or all if there are fewer. -/
def pop (q : Fifo α) (n : Nat) : Fifo α :=
  ⟨q.pushed, q.popped ++ q.contents.take n, q.contents.drop n, by
    rw [List.append_assoc, List.take_append_drop, q.inOrder]⟩

@[simp] theorem pushed_push (q : Fifo α) (xs : List α) : (q.push xs).pushed = q.pushed ++ xs := rfl
@[simp] theorem popped_push (q : Fifo α) (xs : List α) : (q.push xs).popped = q.popped := rfl
@[simp] theorem contents_push (q : Fifo α) (xs : List α) :
    (q.push xs).contents = q.contents ++ xs := rfl
@[simp] theorem pushed_pop (q : Fifo α) (n : Nat) : (q.pop n).pushed = q.pushed := rfl
@[simp] theorem popped_pop (q : Fifo α) (n : Nat) :
    (q.pop n).popped = q.popped ++ q.contents.take n := rfl
@[simp] theorem contents_pop (q : Fifo α) (n : Nat) : (q.pop n).contents = q.contents.drop n := rfl

/-- An empty queue has delivered everything. -/
theorem popped_eq_pushed {q : Fifo α} (isEmpty : q.contents = []) : q.popped = q.pushed := by
  rw [← q.inOrder, isEmpty, List.append_nil]

end Fifo

end LoongsonEjtag.Lib
