import LoongsonEjtag.Lib.Machine

/-! # Simulation between machines

`Simulates C ok A abs inv`: under the invariant, every admitted step of `C` is a
run of `A` between the images of its ends, of no step at all where the images are
the same.  Then the image of every state that `C` reaches is one that `A` reaches
(`Simulates.reachable`), and what holds of the runs of `A` holds of them.
-/

namespace LoongsonEjtag.Lib.Machine

variable {σ τ α β : Type*} {C : Machine σ α} {A : Machine τ β} {ok : σ → α → Prop}
  {abs : σ → τ} {inv : σ → Prop}

/-- The step may assume that `A` reaches the image of its source. -/
structure Simulates (C : Machine σ α) (ok : σ → α → Prop) (A : Machine τ β) (abs : σ → τ)
    (inv : σ → Prop) : Prop where
  start : ∀ s, C.init s → inv s ∧ A.init (abs s)
  next : ∀ s s' a, inv s → A.Reachable (abs s) → ok s a → C.step s a = some s' →
    inv s' ∧ ∃ actions, A.run anyAction (abs s) actions = some (abs s')

theorem Simulates.reachable (sim : Simulates C ok A abs inv) {s : σ} (reach : C.Reach ok s) :
    inv s ∧ A.Reachable (abs s) := by
  induction reach with
  | start initial =>
    obtain ⟨holds, initial⟩ := sim.start _ initial
    exact ⟨holds, .start initial⟩
  | next _ admitted stepped ih =>
    obtain ⟨holds, reachable⟩ := ih
    obtain ⟨holds', actions, ran⟩ := sim.next _ _ _ holds reachable admitted stepped
    exact ⟨holds', run_reach reachable ran⟩

/-- A run of no step. -/
theorem run_stutter {t t' : τ} (same : t' = t) : ∃ actions, A.run anyAction t actions = some t' :=
  ⟨[], congrArg some same.symm⟩

/-- A run of one step. -/
theorem run_once {t t' : τ} {b : β} (stepped : A.step t b = some t') :
    ∃ actions, A.run anyAction t actions = some t' :=
  ⟨[b], by rw [run_any_cons, stepped]; rfl⟩

end LoongsonEjtag.Lib.Machine
