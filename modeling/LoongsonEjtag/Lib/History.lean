import Mathlib.Data.List.Basic

/-! # Properties of the events of a trace

`Each P t` says of every event of the trace `t` that it and what precedes it
satisfy `P`.  A trace grows at its end, so such a property is kept by showing it
of the new events (`each_snoc`, `each_append`).
-/

namespace LoongsonEjtag.Lib

variable {ε : Type*}

/-- `P before e` for every event `e` of `t`, where `before` is the part of `t`
    in front of it. -/
def Each (P : List ε → ε → Prop) (t : List ε) : Prop :=
  ∀ before e after, t = before ++ e :: after → P before e

variable {P : List ε → ε → Prop} {t u : List ε} {e : ε}

theorem each_nil : Each P [] := fun before _ _ is => by simp at is

theorem each_snoc : Each P (t ++ [e]) ↔ Each P t ∧ P t e := by
  constructor
  · intro each
    refine ⟨fun before e' after is => each before e' (after ++ [e]) (by simp [is]), ?_⟩
    exact each t e [] rfl
  · rintro ⟨each, last⟩ before e' after is
    rcases List.eq_nil_or_concat after with rfl | ⟨rest, x, rfl⟩
    · obtain ⟨rfl, same⟩ := List.append_inj' is rfl
      cases same
      exact last
    · have shifted : t ++ [e] = (before ++ e' :: rest) ++ [x] := by
        rw [is]
        simp
      obtain ⟨rfl, -⟩ := List.append_inj' shifted rfl
      exact each before e' rest rfl

/-- New events that satisfy `P` wherever they stand. -/
theorem Each.append (each : Each P t) (new : ∀ before, ∀ e ∈ u, P before e) : Each P (t ++ u) := by
  induction u generalizing t with
  | nil => simpa using each
  | cons e u ih =>
    have grown : Each P (t ++ [e]) := each_snoc.mpr ⟨each, new t e (by simp)⟩
    have all := ih grown fun before e' member => new before e' (by simp [member])
    simpa using all

end LoongsonEjtag.Lib
