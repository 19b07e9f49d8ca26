import LoongsonEjtag.Lib.Machine
import LoongsonEjtag.Waveform

/-! # The activity LED

`led_task` of `main.c` lights the LED when a block was run since its last call, and puts it
out 300 ms later.  It keeps the time of the latest activity in a 32-bit counter of
milliseconds, and takes 0 for no activity.

* `EjtagLed` — the flag and the timer of `ejtag_ctx`, `systick_counter` and the pins.
* `ledMachine` — blocks, commands for the other pins, ticks and calls of `led_task` in any
  order.
* `led_shows_activity` — when the LED is lit, over all runs with `led_task` called in time:
  for 300 ms after the last activity, and for good if that was noticed at a time that is 0
  in the counter.
-/

namespace LoongsonEjtag

open Lib (Machine)

variable {τ : Type} (E : Outside τ) (version : HardwareVersion)

/-- `ejtag_ctx`, `systick_counter` and the board. -/
structure EjtagLed (τ : Type) where
  ledTurnOn : Bool
  ledTimerMs : BitVec 32
  systickCounter : BitVec 32
  wired : Wired τ

namespace EjtagLed

/-- `led_task`. -/
def ledTask (s : EjtagLed τ) : EjtagLed τ :=
  if s.ledTurnOn then
    { s with
      ledTurnOn := false
      ledTimerMs := s.systickCounter
      wired := s.wired.lsejtagImplIoManip E version .implIoLed true }
  else if s.ledTimerMs = 0 then s
  else if 300 ≤ s.systickCounter - s.ledTimerMs then
    { s with
      wired := s.wired.lsejtagImplIoManip E version .implIoLed false
      ledTimerMs := 0 }
  else s

/-- `SysTick_Handler`. -/
def sysTickHandler (s : EjtagLed τ) : EjtagLed τ :=
  { s with systickCounter := s.systickCounter + 1 }

/-- `lsejtag_impl_run_jtag`. -/
def runJtag (s : EjtagLed τ) (pins : List (Bool × Bool)) : EjtagLed τ :=
  { s with ledTurnOn := true, wired := s.wired.cycles E version pins }

def ioManip (s : EjtagLed τ) (io : LsejtagImplIo) (level : Bool) : EjtagLed τ :=
  { s with wired := s.wired.lsejtagImplIoManip E version io level }

/-- The LED is lit by a low level. -/
def lit (s : EjtagLed τ) : Bool := !s.wired.level version .ledActivity

end EjtagLed

/-! ## Runs -/

inductive LedAction where
  | tick
  | runJtag (pins : List (Bool × Bool))
  | ioManip (io : LsejtagImplIo) (level : Bool)
  | ledTask
deriving DecidableEq

/-- With the time that really goes by: that of the last call of `led_task`, and that of the
    last one that has noticed a block. -/
structure LedRun (τ : Type) where
  led : EjtagLed τ
  now : Nat
  called : Nat
  noticed : Option Nat

def ledStep (s : LedRun τ) : LedAction → Option (LedRun τ)
  | .tick => some { s with led := s.led.sysTickHandler, now := s.now + 1 }
  | .runJtag pins => some { s with led := s.led.runJtag E version pins }
  | .ioManip io level => some { s with led := s.led.ioManip E version io level }
  | .ledTask => some
    { s with
      led := s.led.ledTask E version
      called := s.now
      noticed := if s.led.ledTurnOn then some s.now else s.noticed }

/-- From `init_lsejtag` on, with the levels of `init_gpio`. -/
def ledMachine : Machine (LedRun τ) LedAction where
  init s := s.led.ledTurnOn = false ∧ s.led.ledTimerMs = 0 ∧
    s.led.systickCounter = BitVec.ofNat 32 s.now ∧ s.led.wired.board = initGpio version ∧
    s.called = s.now ∧ s.noticed = none
  step := ledStep E version

/-- `led_task` is called before the counter gets round, and no command is for the LED. -/
def LedInTime (s : LedRun τ) : LedAction → Prop
  | .ledTask => s.now - s.called + 300 ≤ 2 ^ 32
  | .ioManip io _ => io ≠ .implIoLed
  | _ => True

instance (s : LedRun τ) (a : LedAction) : Decidable (LedInTime s a) :=
  match a with
  | .ledTask => inferInstanceAs (Decidable (_ ≤ _))
  | .ioManip _ _ => inferInstanceAs (Decidable (_ ≠ _))
  | .tick | .runJtag _ => isTrue trivial

/-! ## The timer -/

/-- The timer and the LED, for the activity that was noticed last. -/
inductive LedTimer (called : Nat) : Option Nat → BitVec 32 → Bool → Prop
  | nothing : LedTimer called none 0 false
  | lost {noticed : Nat} (zero : BitVec.ofNat 32 noticed = 0) :
      LedTimer called (some noticed) 0 true
  | running {noticed : Nat} (counted : BitVec.ofNat 32 noticed ≠ 0) (order : noticed ≤ called)
      (recent : called - noticed < 300) :
      LedTimer called (some noticed) (BitVec.ofNat 32 noticed) true
  | expired {noticed : Nat} (counted : BitVec.ofNat 32 noticed ≠ 0)
      (old : 300 ≤ called - noticed) : LedTimer called (some noticed) 0 false

structure LedInv (s : LedRun τ) : Prop where
  order : s.called ≤ s.now
  clock : s.led.systickCounter = BitVec.ofNat 32 s.now
  timer : LedTimer s.called s.noticed s.led.ledTimerMs (s.led.lit version)

section step

variable {E version} {s s' : LedRun τ}

theorem lit_manip (w : Wired τ) (on : Bool) :
    (w.lsejtagImplIoManip E version .implIoLed on).level version .ledActivity = !on := by
  simp [Wired.lsejtagImplIoManip]

theorem lit_manip_other (w : Wired τ) {io : LsejtagImplIo} (other : io ≠ .implIoLed)
    (level : Bool) : (w.lsejtagImplIoManip E version io level).level version .ledActivity =
      w.level version .ledActivity := by
  cases io with
  | implIoLed => exact absurd rfl other
  | implIoTrst | implIoBrst | implIoDint => simp [Wired.lsejtagImplIoManip]

/-- A call that has noticed nothing new. -/
theorem LedTimer.called {called now : Nat} {noticed : Option Nat} {timer : BitVec 32}
    {lit : Bool} (inv : LedTimer called noticed timer lit) (order : called ≤ now)
    (inTime : now - called + 300 ≤ 2 ^ 32) :
    LedTimer now noticed
      (if timer = 0 then timer else if 300 ≤ BitVec.ofNat 32 now - timer then 0 else timer)
      (if timer = 0 then lit else if 300 ≤ BitVec.ofNat 32 now - timer then false else lit) := by
  cases inv with
  | nothing => exact .nothing
  | lost zero => exact .lost zero
  | expired counted old => exact .expired counted (by omega)
  | @running noticed counted before recent =>
    have elapsed : (BitVec.ofNat 32 now - BitVec.ofNat 32 noticed).toNat = now - noticed := by
      rw [BitVec.toNat_sub, BitVec.toNat_ofNat, BitVec.toNat_ofNat]
      omega
    have limit : 300 ≤ BitVec.ofNat 32 now - BitVec.ofNat 32 noticed ↔ 300 ≤ now - noticed := by
      rw [BitVec.le_def, elapsed]
      rfl
    rw [if_neg counted, if_neg counted]
    by_cases old : 300 ≤ BitVec.ofNat 32 now - BitVec.ofNat 32 noticed
    · rw [if_pos old, if_pos old]
      exact .expired counted (limit.mp old)
    · rw [if_neg old, if_neg old]
      rw [limit] at old
      exact .running counted (by omega) (by omega)

/-- A call that has noticed a block. -/
theorem LedTimer.lights (now : Nat) :
    LedTimer now (some now) (BitVec.ofNat 32 now) true := by
  by_cases zero : BitVec.ofNat 32 now = 0
  · rw [zero]
    exact .lost zero
  · exact .running zero (Nat.le_refl _) (by omega)

theorem LedInv.step {a : LedAction} (inv : LedInv version s) (inTime : LedInTime s a)
    (stepped : ledStep E version s a = some s') : LedInv version s' := by
  obtain ⟨order, clock, timer⟩ := inv
  cases a with
  | tick =>
    cases stepped
    refine ⟨Nat.le_succ_of_le order, ?_, timer⟩
    change s.led.systickCounter + 1 = BitVec.ofNat 32 (s.now + 1)
    rw [clock, BitVec.ofNat_add]
    rfl
  | runJtag pins =>
    cases stepped
    refine ⟨order, clock, ?_⟩
    have same : (s.led.runJtag E version pins).lit version = s.led.lit version :=
      congrArg not (s.led.wired.level_cycles pins (by decide))
    rw [same]
    exact timer
  | ioManip io level =>
    cases stepped
    refine ⟨order, clock, ?_⟩
    have same : (s.led.ioManip E version io level).lit version = s.led.lit version :=
      congrArg not (lit_manip_other s.led.wired inTime level)
    rw [same]
    exact timer
  | ledTask =>
    cases stepped
    by_cases on : s.led.ledTurnOn = true
    · have lights := LedTimer.lights s.now
      rw [← clock] at lights
      refine ⟨Nat.le_refl _, ?_, ?_⟩
      · rw [EjtagLed.ledTask, if_pos on]
        exact clock
      · rw [EjtagLed.ledTask, if_pos on, if_pos on]
        simpa [EjtagLed.lit, lit_manip] using lights
    · have later := timer.called order inTime
      rw [← clock] at later
      refine ⟨Nat.le_refl _, ?_, ?_⟩
      · rw [EjtagLed.ledTask, if_neg on]
        split
        · exact clock
        · split
          · exact clock
          · exact clock
      · rw [EjtagLed.ledTask, if_neg on, if_neg on]
        by_cases zero : s.led.ledTimerMs = 0
        · rw [if_pos zero, if_pos zero] at later
          rw [if_pos zero]
          exact later
        · rw [if_neg zero, if_neg zero] at later
          rw [if_neg zero]
          by_cases old : 300 ≤ s.led.systickCounter - s.led.ledTimerMs
          · rw [if_pos old, if_pos old] at later
            rw [if_pos old]
            simpa [EjtagLed.lit, lit_manip] using later
          · rw [if_neg old, if_neg old] at later
            rw [if_neg old]
            exact later

end step

/-- In every run in which `led_task` is called at least once in `2 ^ 32 - 300` ms, the LED is
    lit exactly if a block was noticed, and at the last call of `led_task` that was either
    less than 300 ms ago or at a time at which the counter was 0. -/
theorem led_shows_activity {s : LedRun τ}
    (reach : (ledMachine E version).Reach LedInTime s) :
    s.led.lit version = true ↔ ∃ noticed, s.noticed = some noticed ∧
      (s.called - noticed < 300 ∨ BitVec.ofNat 32 noticed = 0) := by
  have inv : LedInv version s := by
    apply reach.invariant (P := LedInv version)
    · rintro s ⟨off, timer, clock, board, called, noticed⟩
      refine ⟨Nat.le_of_eq called, clock, ?_⟩
      have dark : s.led.lit version = false := by
        rw [EjtagLed.lit, Wired.level, board]
        cases version <;> decide
      rw [noticed, timer, dark]
      exact .nothing
    · exact fun _ _ _ _ inv inTime stepped => inv.step inTime stepped
  obtain ⟨-, -, timer⟩ := inv
  generalize s.led.lit version = lit at timer
  generalize s.noticed = noticed at timer
  generalize s.led.ledTimerMs = timerMs at timer
  cases timer with
  | nothing => simp
  | lost zero => exact iff_of_true rfl ⟨_, rfl, .inr zero⟩
  | running _ _ recent => exact iff_of_true rfl ⟨_, rfl, .inl recent⟩
  | expired counted old =>
    refine iff_of_false Bool.false_ne_true ?_
    rintro ⟨_, is, recent | zero⟩
    · cases is
      omega
    · cases is
      exact counted zero

/-- A block at 5 ms, and then a command for TRST: 299 ms later the LED is lit, 300 ms later it
    is not. -/
def ledActivityRun (ms : Nat) : List LedAction :=
  List.replicate 5 .tick ++ [.runJtag [(true, true), (false, false)], .ledTask,
    .ioManip .implIoTrst false] ++ List.replicate ms .tick ++ [.ledTask]

def ledStart : LedRun Bool := ⟨⟨false, 0, 0, ⟨initGpio .v1_0, true⟩⟩, 0, 0, none⟩

theorem led_shows_activity_299 :
    (∃ s : LedRun Bool, s.now = 304 ∧ s.led.lit .v1_0 = true) ∧
      ∃ s : LedRun Bool, s.now = 305 ∧ s.led.lit .v1_0 = false := by
  have start : (ledMachine loopback .v1_0).init ledStart := ⟨rfl, rfl, rfl, rfl, rfl, rfl⟩
  have early : ((ledMachine loopback .v1_0).run LedInTime ledStart (ledActivityRun 299)).any
      (fun s => decide (s.now = 304 ∧ s.called = 304 ∧ s.noticed = some 5)) = true := by
    decide +kernel
  have late : ((ledMachine loopback .v1_0).run LedInTime ledStart (ledActivityRun 300)).any
      (fun s => decide (s.now = 305 ∧ s.called = 305 ∧ s.noticed = some 5)) = true := by
    decide +kernel
  obtain ⟨s, reach, holds⟩ := Machine.exists_reach _ start early
  obtain ⟨s', reach', holds'⟩ := Machine.exists_reach _ start late
  obtain ⟨now, called, noticed⟩ := of_decide_eq_true holds
  obtain ⟨now', called', noticed'⟩ := of_decide_eq_true holds'
  refine ⟨⟨s, now, (led_shows_activity _ _ reach).mpr ⟨5, noticed, .inl ?_⟩⟩,
    s', now', ?_⟩
  · rw [called]
    decide
  · rw [Bool.eq_false_iff, Ne, led_shows_activity _ _ reach']
    rintro ⟨at_ms, is, recent | zero⟩
    · rw [noticed'] at is
      cases is
      rw [called'] at recent
      exact absurd recent (by decide)
    · rw [noticed'] at is
      cases is
      exact absurd zero (by decide)

end LoongsonEjtag
