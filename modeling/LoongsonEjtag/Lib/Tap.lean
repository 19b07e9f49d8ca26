import LoongsonEjtag.Lib.Bits

/-! # The TAP controller

The sixteen-state controller of a JTAG port, one step for each TCK clock.

* `TapState.run`, `TapState.clocksIn` — what a TMS sequence does.
* `ScansOnce` — from Run-Test/Idle it makes one scan of a given length and
  returns.
* `Tap` — the controller with the bits it shifts in, and the scans it has
  completed.
-/

namespace LoongsonEjtag.Lib

/-! ## The controller -/

inductive TapState where
  | testLogicReset
  | runTestIdle
  | selectDrScan
  | captureDr
  | shiftDr
  | exit1Dr
  | pauseDr
  | exit2Dr
  | updateDr
  | selectIrScan
  | captureIr
  | shiftIr
  | exit1Ir
  | pauseIr
  | exit2Ir
  | updateIr
deriving DecidableEq, Repr

/-- The two kinds of scans. -/
inductive TapRegister where
  | instruction
  | data
deriving DecidableEq, Repr

namespace TapState

/-- One rising edge of TCK. -/
def next : TapState → Bool → TapState
  | .testLogicReset, tms => if tms then .testLogicReset else .runTestIdle
  | .runTestIdle, tms => if tms then .selectDrScan else .runTestIdle
  | .selectDrScan, tms => if tms then .selectIrScan else .captureDr
  | .captureDr, tms => if tms then .exit1Dr else .shiftDr
  | .shiftDr, tms => if tms then .exit1Dr else .shiftDr
  | .exit1Dr, tms => if tms then .updateDr else .pauseDr
  | .pauseDr, tms => if tms then .exit2Dr else .pauseDr
  | .exit2Dr, tms => if tms then .updateDr else .shiftDr
  | .updateDr, tms => if tms then .selectDrScan else .runTestIdle
  | .selectIrScan, tms => if tms then .testLogicReset else .captureIr
  | .captureIr, tms => if tms then .exit1Ir else .shiftIr
  | .shiftIr, tms => if tms then .exit1Ir else .shiftIr
  | .exit1Ir, tms => if tms then .updateIr else .pauseIr
  | .pauseIr, tms => if tms then .exit2Ir else .pauseIr
  | .exit2Ir, tms => if tms then .updateIr else .shiftIr
  | .updateIr, tms => if tms then .selectDrScan else .runTestIdle

def run (s : TapState) (tms : List Bool) : TapState := tms.foldl next s

/-- Rising edges that find the controller in `watched`. -/
def clocksIn (watched : TapState) : TapState → List Bool → Nat
  | _, [] => 0
  | s, tms :: rest => (if s = watched then 1 else 0) + clocksIn watched (s.next tms) rest

theorem run_append (s : TapState) (first second : List Bool) :
    s.run (first ++ second) = (s.run first).run second := by
  rw [run, run, run, List.foldl_append]

theorem clocksIn_append (watched s : TapState) (first second : List Bool) :
    clocksIn watched s (first ++ second) =
      clocksIn watched s first + clocksIn watched (s.run first) second := by
  induction first generalizing s with
  | nil => simp [clocksIn, run]
  | cons tms rest ih =>
    rw [List.cons_append, clocksIn, clocksIn, ih, Nat.add_assoc]
    rfl

/-- Where TMS low changes nothing, zeros only count clocks. -/
theorem run_zeros {s : TapState} (stays : s.next false = s) (count : Nat) :
    s.run (List.replicate count false) = s := by
  induction count with
  | zero => rfl
  | succ count ih =>
    rw [List.replicate_succ, run, List.foldl_cons, stays]
    exact ih

theorem clocksIn_zeros {s : TapState} (stays : s.next false = s) (watched : TapState)
    (count : Nat) :
    clocksIn watched s (List.replicate count false) = if s = watched then count else 0 := by
  induction count with
  | zero => simp [clocksIn]
  | succ count ih =>
    rw [List.replicate_succ, clocksIn, stays, ih]
    by_cases isWatched : s = watched
    · simp [isWatched, Nat.add_comm]
    · simp [isWatched]

/-- The controller is in `watched` for the first time after `k` rising edges, and
    there is another one. -/
def FirstClock (watched s : TapState) (tms : List Bool) (k : Nat) : Prop :=
  k < tms.length ∧ clocksIn watched s (tms.take k) = 0 ∧ s.run (tms.take k) = watched

/-- A way into `watched` that is not left before its end. -/
theorem FirstClock.of_append {watched s : TapState} {enter rest : List Bool}
    (enters : s.run enter = watched) (unwatched : clocksIn watched s enter = 0)
    (more : rest ≠ []) : FirstClock watched s (enter ++ rest) enter.length := by
  have some : 0 < rest.length := List.length_pos_iff.mpr more
  rw [FirstClock, List.take_left]
  refine ⟨?_, unwatched, enters⟩
  rw [List.length_append]
  omega

end TapState

namespace TapRegister

/-- The state in which a scan shifts. -/
def shift : TapRegister → TapState
  | .instruction => .shiftIr
  | .data => .shiftDr

/-- The other kind of scan. -/
def other : TapRegister → TapRegister
  | .instruction => .data
  | .data => .instruction

theorem shift_stays (reg : TapRegister) : reg.shift.next false = reg.shift := by
  cases reg <;> rfl

theorem shift_ne_other (reg : TapRegister) : reg.shift ≠ reg.other.shift := by
  cases reg <;> decide

/-- TMS `110` leaves the shift state with one more shift. -/
theorem leave (reg : TapRegister) :
    reg.shift.run [true, true, false] = .runTestIdle ∧
      TapState.clocksIn reg.shift reg.shift [true, true, false] = 1 ∧
      TapState.clocksIn reg.other.shift reg.shift [true, true, false] = 0 := by
  cases reg <;> exact ⟨rfl, rfl, rfl⟩

end TapRegister

/-- From Run-Test/Idle the sequence shifts `len` times through the register,
    never through the other one, and ends in Run-Test/Idle. -/
structure ScansOnce (reg : TapRegister) (len : Nat) (tms : List Bool) : Prop where
  shifts : TapState.clocksIn reg.shift .runTestIdle tms = len
  only : TapState.clocksIn reg.other.shift .runTestIdle tms = 0
  returns : TapState.run .runTestIdle tms = .runTestIdle

instance (reg : TapRegister) (len : Nat) (tms : List Bool) : Decidable (ScansOnce reg len tms) :=
  decidable_of_iff (TapState.clocksIn reg.shift .runTestIdle tms = len ∧
    TapState.clocksIn reg.other.shift .runTestIdle tms = 0 ∧
    TapState.run .runTestIdle tms = .runTestIdle)
    ⟨fun ⟨shifts, only, returns⟩ => ⟨shifts, only, returns⟩,
      fun ⟨shifts, only, returns⟩ => ⟨shifts, only, returns⟩⟩

/-- The way into the shift state, `len - 1` zeros, `110`, and idle clocks. -/
theorem ScansOnce.of_word {reg : TapRegister} {enter : List Bool} {len : Nat}
    (enters : TapState.run .runTestIdle enter = reg.shift)
    (unshifted : TapState.clocksIn reg.shift .runTestIdle enter = 0)
    (only : TapState.clocksIn reg.other.shift .runTestIdle enter = 0) (some : 1 ≤ len)
    (idle : Nat) :
    ScansOnce reg len
      (enter ++ List.replicate (len - 1) false ++ [true, true, false] ++
        List.replicate idle false) := by
  obtain ⟨leaves, lastShift, noOther⟩ := reg.leave
  have inIdle : TapState.runTestIdle.next false = .runTestIdle := rfl
  have notIdle : ∀ r : TapRegister, TapState.runTestIdle ≠ r.shift := by
    intro r
    cases r <;> decide
  constructor
  · simp only [TapState.clocksIn_append, TapState.run_append, enters,
      TapState.run_zeros reg.shift_stays, TapState.clocksIn_zeros reg.shift_stays, leaves,
      TapState.clocksIn_zeros inIdle, unshifted, lastShift, if_true, if_neg (notIdle reg)]
    omega
  · simp only [TapState.clocksIn_append, TapState.run_append, enters,
      TapState.run_zeros reg.shift_stays, TapState.clocksIn_zeros reg.shift_stays, leaves,
      TapState.clocksIn_zeros inIdle, only, noOther, if_neg reg.shift_ne_other,
      if_neg (notIdle reg.other)]
  · simp only [TapState.run_append, enters, TapState.run_zeros reg.shift_stays, leaves,
      TapState.run_zeros inIdle]

/-! ## The shift path -/

/-- A completed scan: the bits shifted in, first bit first. -/
structure TapScan where
  reg : TapRegister
  bits : List Bool
deriving DecidableEq, Repr

/-- The controller, the bits shifted since the last capture, and the scans
    completed so far. -/
structure Tap where
  state : TapState
  held : List Bool
  scans : List TapScan
deriving DecidableEq, Repr

namespace Tap

/-- One rising edge with the levels of TMS and TDI. -/
def clock (t : Tap) (pins : Bool × Bool) : Tap :=
  match t.state with
  | .captureDr | .captureIr => { t with state := t.state.next pins.1, held := [] }
  | .shiftDr | .shiftIr => { t with state := t.state.next pins.1, held := t.held ++ [pins.2] }
  | .updateDr => { t with state := t.state.next pins.1, scans := t.scans ++ [⟨.data, t.held⟩] }
  | .updateIr =>
    { t with state := t.state.next pins.1, scans := t.scans ++ [⟨.instruction, t.held⟩] }
  | _ => { t with state := t.state.next pins.1 }

def run (t : Tap) (pins : List (Bool × Bool)) : Tap := pins.foldl clock t

theorem run_append (t : Tap) (first second : List (Bool × Bool)) :
    t.run (first ++ second) = (t.run first).run second := by
  rw [run, run, run, List.foldl_append]

/-- TMS and TDI in two pieces. -/
theorem run_zip_append (t : Tap) {tms₁ tdi₁ : List Bool} (tms₂ tdi₂ : List Bool)
    (length : tms₁.length = tdi₁.length) :
    t.run ((tms₁ ++ tms₂).zip (tdi₁ ++ tdi₂)) = (t.run (tms₁.zip tdi₁)).run (tms₂.zip tdi₂) := by
  rw [List.zip_append length, run_append]

/-- The controller in Run-Test/Idle, before any scan. -/
def idle : Tap := ⟨.runTestIdle, [], []⟩

/-- The bits of all completed scans through a register. -/
def scansOf (t : Tap) (reg : TapRegister) : List (List Bool) :=
  (t.scans.filter fun scan => scan.reg = reg).map TapScan.bits

section words

variable (held bits : List Bool) (scans : List TapScan) (last a b c d e : Bool)

theorem run_shift (reg : TapRegister) {count : Nat} (length : bits.length = count) :
    (⟨reg.shift, held, scans⟩ : Tap).run ((zeros count).zip bits) =
      ⟨reg.shift, held ++ bits, scans⟩ := by
  subst length
  induction bits generalizing held with
  | nil => simp [run]
  | cons bit rest ih =>
    have shifted : (⟨reg.shift, held, scans⟩ : Tap).clock (false, bit) =
        ⟨reg.shift, held ++ [bit], scans⟩ := by
      cases reg <;> rfl
    rw [List.length_cons, zeros, List.replicate_succ, List.zip_cons_cons, run, List.foldl_cons,
      shifted, ← run, ← zeros, ih, List.append_assoc, List.singleton_append]

theorem run_enterIr :
    (⟨.runTestIdle, held, scans⟩ : Tap).run
        ([false, true, true, false, false].zip [a, b, c, d, e]) =
      ⟨TapRegister.instruction.shift, [], scans⟩ := rfl

theorem run_irToDr :
    (⟨TapRegister.instruction.shift, held, scans⟩ : Tap).run
        ([true, true, true, false, false].zip [last, a, b, c, d]) =
      ⟨TapRegister.data.shift, [], scans ++ [⟨.instruction, held ++ [last]⟩]⟩ := rfl

theorem run_drToIr :
    (⟨TapRegister.data.shift, held, scans⟩ : Tap).run
        ([true, true, true, true, false, false].zip [last, a, b, c, d, e]) =
      ⟨TapRegister.instruction.shift, [], scans ++ [⟨.data, held ++ [last]⟩]⟩ := rfl

theorem run_drToIdle :
    (⟨TapRegister.data.shift, held, scans⟩ : Tap).run ([true, true, false].zip [last, a, b]) =
      ⟨.runTestIdle, held ++ [last], scans ++ [⟨.data, held ++ [last]⟩]⟩ := rfl

end words

end Tap

end LoongsonEjtag.Lib
