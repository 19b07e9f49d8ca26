import Mathlib.Logic.Basic

/-! # Registers whose bits react to a store

A store to a peripheral's register does not replace it: some bits can only be cleared, some
are toggled, some take what is written and some do not react.

* `FieldRegister` — which bit does what, each at most one thing.
* `store` — the register after a store; `getLsbD_store_clears` and `getLsbD_store_toggles`, one
  bit of it.
-/

namespace LoongsonEjtag.Lib

/-- A one that is written to a bit of `clears` keeps it, and a zero clears it; a one that is
    written to a bit of `toggles` toggles it. -/
structure FieldRegister (w : Nat) where
  clears : BitVec w
  toggles : BitVec w
  plain : BitVec w
  clears_toggles : clears &&& toggles = 0
  clears_plain : clears &&& plain = 0
  toggles_plain : toggles &&& plain = 0

namespace FieldRegister

variable {w : Nat} (R : FieldRegister w)

def store (old written : BitVec w) : BitVec w :=
  (old &&& written &&& R.clears) ||| ((old ^^^ written) &&& R.toggles) |||
    (written &&& R.plain) ||| (old &&& ~~~(R.clears ||| R.toggles ||| R.plain))

variable {R} {old written : BitVec w} {k : Nat}

theorem getLsbD_exclusive {a b : BitVec w} (disjoint : a &&& b = 0) (inside : a.getLsbD k = true) :
    b.getLsbD k = false := by
  have bit : (a &&& b).getLsbD k = false := by
    rw [disjoint]
    exact BitVec.getLsbD_zero
  rw [BitVec.getLsbD_and, inside, Bool.true_and] at bit
  exact bit

theorem getLsbD_store_clears (bit : R.clears.getLsbD k = true) :
    (R.store old written).getLsbD k = (old.getLsbD k && written.getLsbD k) := by
  have toggles := getLsbD_exclusive R.clears_toggles bit
  have plain := getLsbD_exclusive R.clears_plain bit
  simp [store, bit, toggles, plain]

theorem getLsbD_store_toggles (bit : R.toggles.getLsbD k = true) :
    (R.store old written).getLsbD k = (old.getLsbD k ^^ written.getLsbD k) := by
  have clears := getLsbD_exclusive ((BitVec.and_comm _ _).trans R.clears_toggles) bit
  have plain := getLsbD_exclusive R.toggles_plain bit
  simp [store, bit, clears, plain]

end FieldRegister

end LoongsonEjtag.Lib
