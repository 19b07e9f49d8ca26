import LoongsonEjtag.Ctx

/-! # The pins of the adapter

`hwdef.h`, the pin macros and `lsejtag_impl_io_manip` of `lsejtag_port.c`, and the levels
that `init_gpio` of `main.c` leaves.

* `Board` — the output latches of the ports.
* `Board.level_drive` — a macro changes the level of its own pin, and no other bit of any
  port.
* `Wired` — the board with whatever it is connected to.
-/

namespace LoongsonEjtag

open Lib (Dword)

/-! ## Ports -/

inductive Gpio where
  | gpioa
  | gpiob
  | gpiod
deriving DecidableEq, Repr

/-- A `GPIO_Pin_n` of a port. -/
structure GpioPin where
  gpio : Gpio
  bit : Fin 16
deriving DecidableEq, Repr

def GpioPin.mask (pin : GpioPin) : BitVec 16 := BitVec.twoPow 16 pin.bit

/-- `OUTDR` of each port. -/
structure Board where
  gpioa : BitVec 16
  gpiob : BitVec 16
  gpiod : BitVec 16
deriving DecidableEq, Repr

/-- A store to `BSHR`: the low half sets bits, and the high half clears bits that the low
    half does not set. -/
def bshr (outdr : BitVec 16) (value : BitVec 32) : BitVec 16 :=
  (outdr &&& ~~~(value >>> 16).setWidth 16) ||| value.setWidth 16

namespace Board

def outdr (board : Board) : Gpio → BitVec 16
  | .gpioa => board.gpioa
  | .gpiob => board.gpiob
  | .gpiod => board.gpiod

def store (board : Board) (gpio : Gpio) (value : BitVec 32) : Board :=
  match gpio with
  | .gpioa => { board with gpioa := bshr board.gpioa value }
  | .gpiob => { board with gpiob := bshr board.gpiob value }
  | .gpiod => { board with gpiod := bshr board.gpiod value }

def level (board : Board) (pin : GpioPin) : Bool := (board.outdr pin.gpio).getLsbD pin.bit

/-- `GPIO->BSHR = PIN` for a high level, and `GPIO->BSHR = (PIN << 16)` for a low one. -/
def drive (board : Board) (pin : GpioPin) (on : Bool) : Board :=
  board.store pin.gpio (if on then pin.mask.setWidth 32 else pin.mask.setWidth 32 <<< 16)

variable {board : Board} {pin other : GpioPin}

@[simp] theorem outdr_store (gpio gpio' : Gpio) (value : BitVec 32) :
    (board.store gpio value).outdr gpio' =
      if gpio' = gpio then bshr (board.outdr gpio) value else board.outdr gpio' := by
  cases gpio <;> cases gpio' <;> rfl

theorem getLsbD_mask (pin : GpioPin) (k : Fin 16) :
    pin.mask.getLsbD k = decide (k = pin.bit) := by
  rw [GpioPin.mask, BitVec.getLsbD_twoPow, decide_eq_true pin.bit.isLt, Bool.true_and,
    decide_eq_decide, Fin.ext_iff, eq_comm]

theorem getLsbD_bshr_high (outdr mask : BitVec 16) {k : Nat} (low : k < 16) :
    (bshr outdr (mask.setWidth 32)).getLsbD k = (outdr.getLsbD k || mask.getLsbD k) := by
  have above : mask.getLsbD (16 + k) = false := BitVec.getLsbD_of_ge _ _ (by omega)
  simp only [bshr, BitVec.getLsbD_or, BitVec.getLsbD_and, BitVec.getLsbD_not,
    BitVec.getLsbD_setWidth, BitVec.getLsbD_ushiftRight, above, low]
  simp [show k < 32 by omega]

theorem getLsbD_bshr_low (outdr mask : BitVec 16) {k : Nat} (low : k < 16) :
    (bshr outdr (mask.setWidth 32 <<< 16)).getLsbD k = (outdr.getLsbD k && !mask.getLsbD k) := by
  simp only [bshr, BitVec.getLsbD_or, BitVec.getLsbD_and, BitVec.getLsbD_not,
    BitVec.getLsbD_setWidth, BitVec.getLsbD_ushiftRight, BitVec.getLsbD_shiftLeft, low]
  simp [show 16 + k < 32 by omega, show k < 32 by omega, show ¬16 + k < 16 by omega]

theorem getLsbD_bshr (outdr : BitVec 16) (pin : GpioPin) (on : Bool) (k : Fin 16) :
    (bshr outdr (if on then pin.mask.setWidth 32 else pin.mask.setWidth 32 <<< 16)).getLsbD k =
      if k = pin.bit then on else outdr.getLsbD k := by
  cases on with
  | true =>
    rw [if_pos rfl, getLsbD_bshr_high _ _ k.isLt, getLsbD_mask]
    by_cases same : k = pin.bit <;> simp [same]
  | false =>
    rw [if_neg Bool.false_ne_true, getLsbD_bshr_low _ _ k.isLt, getLsbD_mask]
    by_cases same : k = pin.bit <;> simp [same]

/-- Only the pin itself changes. -/
theorem level_drive (on : Bool) :
    (board.drive pin on).level other = if other = pin then on else board.level other := by
  obtain ⟨gpio, bit⟩ := pin
  obtain ⟨gpio', bit'⟩ := other
  rw [level, drive, outdr_store]
  by_cases same : gpio' = gpio
  · subst same
    simp only [if_true, getLsbD_bshr, GpioPin.mk.injEq, true_and, level]
  · simp [same, level]

end Board

/-! ## The board -/

/-- `CH32LSEJTAG_HARDWARE_VERSION`. -/
inductive HardwareVersion where
  | v1_0
  | v1_1
deriving DecidableEq, Repr

/-- The outputs of the adapter. -/
inductive Line where
  | tdi
  | tms
  | tck
  | trst
  | brst
  | dint
  | ledStatus
  | ledActivity
deriving DecidableEq, Repr

/-- `EJTAG_TDI_GPIO`, `EJTAG_TDI_PIN` and so on. -/
def Line.pin (version : HardwareVersion) : Line → GpioPin
  | .tdi => ⟨.gpioa, 7⟩
  | .tms => ⟨.gpioa, 4⟩
  | .tck => ⟨.gpioa, 3⟩
  | .trst => ⟨.gpiob, 1⟩
  | .brst =>
    match version with
    | .v1_0 => ⟨.gpioa, 2⟩
    | .v1_1 => ⟨.gpioa, 5⟩
  | .dint => ⟨.gpioa, 1⟩
  | .ledStatus => ⟨.gpiod, 0⟩
  | .ledActivity => ⟨.gpiod, 1⟩

/-- `EJTAG_TDO_PIN`, an input. -/
def ejtagTdoPin : GpioPin := ⟨.gpioa, 6⟩

theorem Line.pin_inj {version : HardwareVersion} {line other : Line} :
    line.pin version = other.pin version ↔ line = other := by
  cases version <;> cases line <;> cases other <;> decide

/-- `init_gpio`: the reset lines are released, and the activity LED, which is lit by a low
    level, is off. -/
def initGpio (version : HardwareVersion) : Board :=
  let board : Board := ⟨0, 0, 0⟩
  let board := board.drive (Line.ledStatus.pin version) false
  let board := board.drive (Line.ledActivity.pin version) true
  let board := board.drive (Line.trst.pin version) true
  let board := board.drive (Line.brst.pin version) true
  let board := board.drive (Line.tdi.pin version) false
  let board := board.drive (Line.tms.pin version) false
  let board := board.drive (Line.tck.pin version) false
  board.drive (Line.dint.pin version) false

/-! ## What it is connected to -/

/-- Something outside that sees the outputs change, and `GPIOA->INDR` as it makes it. -/
structure Outside (τ : Type) where
  drive : Line → Bool → τ → τ
  indr : τ → BitVec 16

structure Wired (τ : Type) where
  board : Board
  outside : τ

namespace Wired

variable {τ : Type} (E : Outside τ) (version : HardwareVersion)

/-- `ASSERT_TDI`, `DEASSERT_TDI` and so on. -/
def drive (w : Wired τ) (line : Line) (on : Bool) : Wired τ :=
  ⟨w.board.drive (line.pin version) on, E.drive line on w.outside⟩

/-- `CAPTURE_TDO`. -/
def captureTdo (w : Wired τ) : Bool := E.indr w.outside &&& ejtagTdoPin.mask != 0

/-- `lsejtag_impl_io_manip`. -/
def lsejtagImplIoManip (w : Wired τ) (io : LsejtagImplIo) (level : Bool) : Wired τ :=
  match io with
  | .implIoLed => w.drive E version .ledActivity !level
  | .implIoTrst => w.drive E version .trst level
  | .implIoBrst => w.drive E version .brst level
  | .implIoDint => w.drive E version .dint level

/-- The level an output has. -/
def level (w : Wired τ) (line : Line) : Bool := w.board.level (line.pin version)

variable {E version}

@[simp] theorem level_drive (w : Wired τ) (line other : Line) (on : Bool) :
    (w.drive E version line on).level version other =
      if other = line then on else w.level version other := by
  rw [level, drive, Board.level_drive]
  simp only [Line.pin_inj]
  rfl

theorem captureTdo_eq (w : Wired τ) :
    w.captureTdo E = (E.indr w.outside).getLsbD ejtagTdoPin.bit := by
  rw [captureTdo, GpioPin.mask, BitVec.and_twoPow]
  cases (E.indr w.outside).getLsbD ejtagTdoPin.bit <;> rfl

end Wired

end LoongsonEjtag
