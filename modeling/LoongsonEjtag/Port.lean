import LoongsonEjtag.Ctx
import LoongsonEjtag.Lib.Loop

/-! # Port functions

The functions of `lsejtag_impl.h` as `lsejtag_port.c` implements them, and the
completion callbacks of `lsejtag.h`.

* `lsejtagImplUsbrxConsume` — takes bytes from the RX ring; a request for more
  than the ring holds is cut to what it holds, as `chry_ringbuffer_read` does.
* `lsejtagImplRunJtag` — the bit-banged JTAG engine.  `tdo k` is the level of
  TDO sampled at the `k`-th rising edge of the call.
-/

namespace LoongsonEjtag

open Lib (Byte Dword u32 sub32 overlay forUpTo)

/-! ## USB -/

/-- `memcpy` into the command buffer; `none` if it would run past its end. -/
def copyToCmd (buf : Vector Byte 256) (offset : Nat) (bytes : List Byte) :
    Option (Vector Byte 256) :=
  if fits : offset + bytes.length ≤ 256 then some (overlay buf offset bytes fits) else none

/-- `lsejtag_impl_usbrx_consume(ctx->buffered_cmd + offset, len)`. -/
def lsejtagImplUsbrxConsume (w : World) (offset len : Nat) : Except Halt World :=
  match copyToCmd w.ctx.bufferedCmd offset (w.rx.take len) with
  | some buf =>
    .ok { ctx := { w.ctx with bufferedCmd := buf }
          rx := w.rx.drop len
          trace := w.trace ++ [.consume offset len w.rx.length (w.rx.take len)] }
  | none => .error (.consumeOverrun offset len w.rx.length)

/-! ## Completion callbacks -/

/-- `lsejtag_jtag_complete_tdi` and `lsejtag_jtag_complete_tms`, which the port
    always calls one after the other.  Through a null `active_bufblk` the two
    stores go to a low address outside the context. -/
def LsejtagCtx.completeActive (ctx : LsejtagCtx) : LsejtagCtx :=
  match ctx.activeBufblk with
  | none => ctx
  | some id => ctx.setJtagbuf id (ctx.jtagbuf id).completed

def lsejtagJtagComplete (w : World) : World :=
  { w with ctx := w.ctx.completeActive }.log (.complete w.ctx.activeBufblk)

/-- `lsejtag_jtag_complete_tdo`. -/
def LsejtagCtx.completeTdo (ctx : LsejtagCtx) (dwordsRecvd : Nat) : LsejtagCtx :=
  { ctx with
    tdoBusy := false
    tdoHaveNewData := true
    tdoDmaPtr := ctx.tdoDmaPtr + dwordsRecvd
    tdoInDwords := u32 (ctx.tdoInDwords + dwordsRecvd) }

def lsejtagJtagCompleteTdo (w : World) (dwordsRecvd : Nat) : World :=
  { w with ctx := w.ctx.completeTdo dwordsRecvd }.log
    (.completeTdo ((w.ctx.tdoInData.toList.drop w.ctx.tdoDmaPtr).take dwordsRecvd))

/-! ## The bit-banged JTAG engine -/

/-- Locals of `lsejtag_impl_run_jtag`, the TDO buffer it fills, and the levels
    of TDI and TMS at the rising TCK edges so far.  The buffer has `n` dwords, those
    of the context by default. -/
structure JtagRegs (n : Nat := 64) where
  tdiReg : Dword
  tmsReg : Dword
  tdoReg : Dword
  tdoCounter : Nat
  tdiBits : Nat
  tdoSkipBits : Nat
  tdoBuf : Vector Dword n
  tdoPtr : Option Nat
  clocks : Nat
  pulses : List (Bool × Bool)

variable {n : Nat}

/-- `*tdo_buf = tdo_reg`. -/
def JtagRegs.store (r : JtagRegs n) : Except Halt (JtagRegs n) :=
  match r.tdoPtr with
  | none => .error .outOfBounds
  | some i =>
    if inside : i < n then .ok { r with tdoBuf := r.tdoBuf.set i r.tdoReg inside }
    else .error .outOfBounds

/-- Set up TDI and TMS, raise TCK, and sample TDO where it is to be captured. -/
def JtagRegs.pulse (tdo : Nat → Bool) (tdoBits : Nat) (r : JtagRegs n) : JtagRegs n :=
  let r := { r with
    pulses := r.pulses ++ [(r.tdiReg.getLsbD 0, r.tmsReg.getLsbD 0)]
    clocks := r.clocks + 1
    tdiReg := r.tdiReg >>> 1
    tmsReg := r.tmsReg >>> 1 }
  if r.tdoSkipBits ≠ 0 then { r with tdoSkipBits := r.tdoSkipBits - 1 }
  else if r.tdoCounter < tdoBits then
    { r with
      tdoCounter := r.tdoCounter + 1
      tdoReg := r.tdoReg >>> 1 ||| (if tdo (r.clocks - 1) then 0x80000000 else 0) }
  else r

/-- One round of the bit loop. -/
def JtagRegs.clockBit (tdo : Nat → Bool) (tdoBits : Nat) (r : JtagRegs n) :
    Except Halt (JtagRegs n) :=
  let r := r.pulse tdo tdoBits
  if r.tdoCounter ≠ 0 ∧ r.tdoCounter % 32 = 0 then do
    let r ← r.store
    .ok { r with tdoPtr := r.tdoPtr.map (· + 1) }
  else .ok r

/-- One round of the dword loop. -/
def JtagRegs.clockDword (tdi tms : List Dword) (tdo : Nat → Bool) (tdoBits i : Nat)
    (r : JtagRegs n) : Except Halt (JtagRegs n) :=
  match tdi[i]?, tms[i]? with
  | some tdiReg, some tmsReg => do
    let r ← forUpTo (fun _ => JtagRegs.clockBit tdo tdoBits) (min r.tdiBits 32)
      { r with tdiReg, tmsReg }
    .ok { r with tdiBits := sub32 r.tdiBits 32 }
  | _, _ => .error .outOfBounds

/-- `lsejtag_impl_run_jtag` up to the completion callbacks. -/
def jtagShift (seq : JtagSeq) (tdoBuf : Vector Dword n) (tdoPtr : Option Nat)
    (tdo : Nat → Bool) : Except Halt (JtagRegs n) := do
  let outDwords := u32 (seq.tdiBits + 31) / 32
  let r ← forUpTo (JtagRegs.clockDword seq.tdi seq.tms tdo seq.tdoBits) outDwords
    { tdiReg := 0, tmsReg := 0, tdoReg := 0, tdoCounter := 0, tdiBits := seq.tdiBits
      tdoSkipBits := seq.tdoSkipBits, tdoBuf, tdoPtr, clocks := 0, pulses := [] }
  if r.tdoCounter ≠ 0 ∧ r.tdoCounter % 32 ≠ 0 then r.store else .ok r

/-- `lsejtag_impl_run_jtag`; `tdoPtr` is `none` for a null TDO buffer. -/
def lsejtagImplRunJtag (w : World) (seq : JtagSeq) (tdoPtr : Option Nat) (tdo : Nat → Bool) :
    Except Halt World := do
  let r ← jtagShift seq w.ctx.tdoInData tdoPtr tdo
  let w := { w with ctx := { w.ctx with tdoInData := r.tdoBuf } }
  .ok (lsejtagJtagCompleteTdo (lsejtagJtagComplete w) (u32 (r.tdoCounter + 31) / 32))

end LoongsonEjtag
