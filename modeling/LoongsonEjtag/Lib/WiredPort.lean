import LoongsonEjtag.Lib.ScanTarget

/-! # A JTAG port on its wires

The port of `ScanTarget` takes a pair of levels for each clock.  On the wires there are no
clocks, but levels that change one after the other.

* `WiredPort` — a rising edge of TCK clocks the controller with the levels that TMS and
  TDI have, and after a falling one TDO shows the next bit of the path.
* `cycle` — TDI, TMS and a pulse on TCK are one clock of the port.
* `Settled.drives` — between the edges of a pulse TDO has the level that the port drives
  at that clock.
-/

namespace LoongsonEjtag.Lib

/-- `tdo` is what the port drives since the last falling edge, if anything. -/
structure WiredPort (σ : Type*) where
  tck : Bool
  tms : Bool
  tdi : Bool
  tdo : Option Bool
  port : TargetPort σ

variable {σ : Type*} {T : Target σ}

/-! ## Paths -/

/-- There is at least one bit between TDI and TDO, whatever is captured. -/
def Target.HasBits (T : Target σ) : Prop := ∀ reg core, T.capture reg core ≠ []

namespace TargetPort

/-- The bit a port shows. -/
def shown (p : TargetPort σ) : Option Bool := if p.state.shifts then p.path.head? else none

theorem clock_path (bits : T.HasBits) {p : TargetPort σ} (path : p.path ≠ [])
    (pins : Bool × Bool) : (p.clock T pins).path ≠ [] := by
  have shifted : (p.path ++ [pins.2]).tail ≠ [] := by
    cases at_path : p.path with
    | nil => exact absurd at_path path
    | cons bit rest => simp
  simp only [clock]
  split
  · exact path
  · exact bits .data p.core
  · exact bits .instruction p.core
  · exact shifted
  · exact shifted
  · exact path
  · exact path
  · exact path

theorem run_path (bits : T.HasBits) {p : TargetPort σ} (path : p.path ≠ [])
    (pins : List (Bool × Bool)) : (p.run T pins).path ≠ [] := by
  induction pins generalizing p with
  | nil => exact path
  | cons pin rest ih =>
    rw [run, List.foldl_cons, ← run]
    exact ih (clock_path bits path pin)

/-- With a bit in the path, TDO is not TDI. -/
theorem level_eq_shown {p : TargetPort σ} (path : p.path ≠ []) (tdi : Bool) :
    p.level tdi = p.shown := by
  rw [level, shown]
  split
  · cases at_path : p.path with
    | nil => exact absurd at_path path
    | cons bit rest => rfl
  · rfl

theorem levels_eq_shown (bits : T.HasBits) {p : TargetPort σ} (path : p.path ≠ [])
    (pins : List (Bool × Bool)) {k : Nat} (below : k < pins.length) :
    (p.levels T pins)[k]? = some (p.run T (pins.take k)).shown := by
  induction pins generalizing p k with
  | nil => cases below
  | cons pin rest ih =>
    cases k with
    | zero =>
      rw [levels, List.getElem?_cons_zero, level_eq_shown path]
      rfl
    | succ k =>
      rw [levels, List.getElem?_cons_succ, List.take_succ_cons, run, List.foldl_cons, ← run]
      exact ih (clock_path bits path pin) (Nat.lt_of_succ_lt_succ below)

end TargetPort

namespace WiredPort

/-! ## Edges -/

def setTdi (p : WiredPort σ) (on : Bool) : WiredPort σ := { p with tdi := on }

def setTms (p : WiredPort σ) (on : Bool) : WiredPort σ := { p with tms := on }

def setTck (T : Target σ) (p : WiredPort σ) : Bool → WiredPort σ
  | true => { p with tck := true, port := if p.tck then p.port else p.port.clock T (p.tms, p.tdi) }
  | false => { p with tck := false, tdo := if p.tck then p.port.shown else p.tdo }

/-- TDI and TMS are set up, and TCK has gone up. -/
def rise (T : Target σ) (p : WiredPort σ) (pins : Bool × Bool) : WiredPort σ :=
  ((p.setTdi pins.2).setTms pins.1).setTck T true

/-- A whole cycle of TCK. -/
def cycle (T : Target σ) (p : WiredPort σ) (pins : Bool × Bool) : WiredPort σ :=
  (p.rise T pins).setTck T false

def cycles (T : Target σ) (p : WiredPort σ) (pins : List (Bool × Bool)) : WiredPort σ :=
  pins.foldl (cycle T) p

theorem cycles_append (p : WiredPort σ) (first second : List (Bool × Bool)) :
    p.cycles T (first ++ second) = (p.cycles T first).cycles T second := by
  rw [cycles, cycles, cycles, List.foldl_append]

theorem cycle_tck (p : WiredPort σ) (pins : Bool × Bool) : (p.cycle T pins).tck = false := rfl

theorem cycle_tdo (p : WiredPort σ) (pins : Bool × Bool) :
    (p.cycle T pins).tdo = (p.cycle T pins).port.shown := rfl

theorem cycle_port {p : WiredPort σ} (low : p.tck = false) (pins : Bool × Bool) :
    (p.cycle T pins).port = p.port.clock T pins := by
  simp [cycle, rise, setTck, setTdi, setTms, low]

theorem cycles_tck {p : WiredPort σ} (low : p.tck = false) (pins : List (Bool × Bool)) :
    (p.cycles T pins).tck = false := by
  induction pins generalizing p with
  | nil => exact low
  | cons pin rest ih => exact ih (cycle_tck p pin)

theorem cycles_port {p : WiredPort σ} (low : p.tck = false) (pins : List (Bool × Bool)) :
    (p.cycles T pins).port = p.port.run T pins := by
  induction pins generalizing p with
  | nil => rfl
  | cons pin rest ih =>
    rw [cycles, List.foldl_cons, ← cycles, ih (cycle_tck p pin), cycle_port low]
    rfl

theorem cycles_tdo {p : WiredPort σ} (shown : p.tdo = p.port.shown) (pins : List (Bool × Bool)) :
    (p.cycles T pins).tdo = (p.cycles T pins).port.shown := by
  induction pins generalizing p with
  | nil => exact shown
  | cons pin rest ih => exact ih (cycle_tdo p pin)

/-! ## Between sequences -/

/-- TCK is low and TDO is up to date. -/
structure Settled (p : WiredPort σ) : Prop where
  low : p.tck = false
  shown : p.tdo = p.port.shown
  path : p.port.path ≠ []

theorem Settled.cycles {p : WiredPort σ} (bits : T.HasBits) (settled : p.Settled)
    (pins : List (Bool × Bool)) : (p.cycles T pins).Settled where
  low := cycles_tck settled.low pins
  shown := cycles_tdo settled.shown pins
  path := by
    rw [cycles_port settled.low]
    exact TargetPort.run_path bits settled.path pins

/-- After a first cycle TDO no longer depends on what it was. -/
theorem settled_cycles {p : WiredPort σ} (bits : T.HasBits) (low : p.tck = false)
    (path : p.port.path ≠ []) {pins : List (Bool × Bool)} (some : pins ≠ []) :
    (p.cycles T pins).Settled := by
  cases pins with
  | nil => exact absurd rfl some
  | cons pin rest =>
    have first : (p.cycle T pin).Settled := by
      refine ⟨cycle_tck p pin, cycle_tdo p pin, ?_⟩
      rw [cycle_port low]
      exact TargetPort.clock_path bits path pin
    exact first.cycles bits rest

/-- A sampler that looks while TCK is high sees what the port drives. -/
theorem Settled.drives {p : WiredPort σ} (bits : T.HasBits) (settled : p.Settled)
    {pins : List (Bool × Bool)} {tdo : Nat → Bool}
    (sees : ∀ k pin bit, pins[k]? = some pin →
      ((p.cycles T (pins.take k)).rise T pin).tdo = some bit → tdo k = bit) :
    p.port.Drives T pins tdo := by
  intro k bit level
  have below : k < pins.length := by
    obtain ⟨below, -⟩ := List.getElem?_eq_some_iff.mp level
    rwa [TargetPort.length_levels] at below
  rw [TargetPort.levels_eq_shown bits settled.path pins below] at level
  apply sees k pins[k] bit (List.getElem?_eq_getElem below)
  have before := settled.cycles bits (pins.take k)
  change (p.cycles T (pins.take k)).tdo = some bit
  rw [before.shown, cycles_port settled.low]
  exact Option.some.inj level

end WiredPort

end LoongsonEjtag.Lib
