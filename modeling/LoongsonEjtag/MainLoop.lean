import LoongsonEjtag.Dispatch
import LoongsonEjtag.Lib.Machine

/-! # The main loop

`main` of `main.c` as a machine.  A step is either the arrival of USB OUT data
in the RX ring, or the main loop's next call: `lsejtag_dispatch`, or the action
its result asks for.  Arrivals can fall between a dispatch and its action.

The free TX space and the TDO levels are inputs of every step.  `led_task`
touches neither the context nor the ring and is left out.
-/

namespace LoongsonEjtag

open Lib (Byte Machine)

/-- The next thing `main` does.  `halted` is a program that does not return. -/
inductive MainPc where
  | dispatch
  | execute
  | flushTdo
  | runJtag
  | halted (why : Halt)
deriving DecidableEq, Repr

structure MainState where
  world : World
  pc : MainPc

/-- What the environment supplies to a step. -/
inductive MainInput where
  | usbOut (bytes : List Byte)
  | poll (txFree : Nat) (tdo : Nat → Bool)

/-- The switch over the dispatch result.  `dpr_too_long` ends in `while (1)`. -/
def afterDispatch : LsejtagDispatchResult → MainPc
  | .dprExecute => .execute
  | .dprFlushTdo => .flushTdo
  | .dprRunJtag => .runJtag
  | .dprTooLong => .halted .tooLongPanic
  | .dprIncomplete | .dprUnknownCmd | .dprClean => .dispatch

/-- `w`, and there the event of entering `lsejtag_execute`. -/
def World.enterExecute (w : World) : World := w.log (.execute w.ctx.continuation w.ctx.cmd)

/-- Capacity of the RX ring. -/
def usbrxCapacity : Nat := 256

/-- The main loop's next call. -/
def mainPoll (s : MainState) (txFree : Nat) (tdo : Nat → Bool) : Option MainState :=
  match s.pc with
  | .dispatch =>
    match lsejtagDispatch s.world with
    | .ok (result, w) => some ⟨w, afterDispatch result⟩
    | .error why => some ⟨s.world, .halted why⟩
  | .execute =>
    match lsejtagExecute s.world.enterExecute txFree tdo with
    | .ok (result, w) => some ⟨w.log (.executed result), .dispatch⟩
    | .error why => some ⟨s.world.enterExecute, .halted why⟩
  | .flushTdo =>
    match lsejtagFlushTdo s.world txFree with
    | .ok (_, w) => some ⟨w, .dispatch⟩
    | .error why => some ⟨s.world, .halted why⟩
  | .runJtag =>
    match lsejtagRunJtag s.world tdo with
    | .ok w => some ⟨w, .dispatch⟩
    | .error why => some ⟨s.world, .halted why⟩
  | .halted _ => none

/-- New bytes in the RX ring. -/
def World.receive (w : World) (bytes : List Byte) : World :=
  { w with rx := w.rx ++ bytes }.log (.usbOut bytes)

def mainStep (s : MainState) : MainInput → Option MainState
  | .usbOut bytes =>
    if s.world.rx.length + bytes.length ≤ usbrxCapacity then
      some { s with world := s.world.receive bytes }
    else none
  | .poll txFree tdo => mainPoll s txFree tdo

/-- The world after `init_software`. -/
def World.start : World := ⟨lsejtagInitCtx, [], []⟩

def MainState.start : MainState := ⟨World.start, .dispatch⟩

/-- The firmware from `lsejtag_init_ctx` on. -/
def mainLoop : Machine MainState MainInput where
  init s := s = .start
  step := mainStep

/-- Calls the main loop makes. -/
def mainCalls (_ : MainState) : MainInput → Nat
  | .usbOut _ => 0
  | .poll _ _ => 1

/-- `n` calls of the main loop with `txFree` bytes of TX space and a TDO line
    that never rises. -/
def polls (txFree n : Nat) : List MainInput := List.replicate n (.poll txFree fun _ => false)

end LoongsonEjtag
