import LoongsonEjtag.Cmdimpl

/-! # Dispatch and execution

`lsejtag_dispatch` and `lsejtag_execute` of `lsejtag.c`.  The labels that
`lsejtag_dispatch` jumps to, `wait_cfg` and `wait_payload`, are functions of the
locals `len_rx` and `len_avail`, which the entry paths leave at different
values.
-/

namespace LoongsonEjtag

open Lib (u32 sub32)
open Wire

/-- Result and world of a call of `lsejtag_dispatch`. -/
abbrev DispatchM := Except Halt (LsejtagDispatchResult × World)

/-! ## Fetching a command -/

namespace LsejtagCtx

/-- The command is complete. -/
def toExecute (ctx : LsejtagCtx) : LsejtagCtx := { ctx with cmdBufState := .cbsExecute }

/-- The command misses `size` bytes of payload. -/
def toWaitPayload (ctx : LsejtagCtx) (size : Nat) : LsejtagCtx :=
  { ctx with cmdBufWaitPayloadSize := size, cmdBufState := .cbsWaitPayload }

end LsejtagCtx

/-- Consume `len` bytes to the end of the buffered command. -/
def bufferMore (w : World) (len : Nat) : Except Halt World := do
  let w ← lsejtagImplUsbrxConsume w w.ctx.bufferedLength len
  .ok { w with ctx := { w.ctx with bufferedLength := u32 (w.ctx.bufferedLength + len) } }

/-- `wait_payload`. -/
def waitPayload (w : World) (lenRx : Nat) : DispatchM :=
  let missing := w.ctx.cmdBufWaitPayloadSize
  if lenRx < missing then do
    let w ← bufferMore w lenRx
    .ok (.dprIncomplete, { w with ctx := { w.ctx with
      cmdBufWaitPayloadSize := sub32 missing lenRx } })
  else do
    -- Only what is missing; the rest of the ring is the next command.
    let w ← bufferMore w missing
    .ok (.dprExecute, { w with ctx := { w.ctx.toExecute with cmdBufWaitPayloadSize := 0 } })

/-- Behind the switch of `wait_cfg`: the configuration section is not there
    yet, so everything available belongs to it. -/
def bufferRest (w : World) (lenRx : Nat) : DispatchM := do
  let w ← bufferMore w lenRx
  .ok (.dprIncomplete, w)

/-- The configuration section of an IR/DR scan, which tells the payload size. -/
def waitIrdrCfg (w : World) (lenRx lenAvail : Nat) : DispatchM :=
  if lenAvail > 4 then do
    let consumeLen := sub32 4 w.ctx.bufferedLength
    let w ← bufferMore w consumeLen
    let w := { w with ctx := w.ctx.toWaitPayload (bit2dword (irseqLenBits w.ctx.cmd) * 4) }
    -- The command buffer is not cleaned: the caller has to stop here.
    if u32 (w.ctx.bufferedLength + w.ctx.cmdBufWaitPayloadSize) > 256 then .ok (.dprTooLong, w)
    else waitPayload w (sub32 lenRx consumeLen)
  else bufferRest w lenRx

/-- The loopback test does not count the bytes it fetches. -/
def waitLoopbackCfg (w : World) (lenRx lenAvail : Nat) : DispatchM :=
  if lenAvail > 6 then do
    let w ← lsejtagImplUsbrxConsume w w.ctx.bufferedLength (sub32 6 w.ctx.bufferedLength)
    .ok (.dprExecute, { w with ctx := w.ctx.toExecute })
  else bufferRest w lenRx

/-- The configuration section of a fast read or write, which ends at
    `expectLen`. -/
def waitFastCfg (w : World) (expectLen lenRx lenAvail : Nat) : DispatchM :=
  if lenAvail > expectLen then do
    let w ← bufferMore w (sub32 expectLen w.ctx.bufferedLength)
    .ok (.dprExecute, { w with ctx := w.ctx.toExecute })
  else bufferRest w lenRx

/-- `wait_cfg`. -/
def waitCfg (w : World) (lenRx lenAvail : Nat) : DispatchM :=
  match op w.ctx.cmd with
  -- No configuration section, but a payload that depends on the direction.
  | some .opProbeMemRw =>
    waitPayload { w with ctx := w.ctx.toWaitPayload (if isWrite w.ctx.cmd then 8 else 4) } lenRx
  | some .opIoManip | some .opGetFirmwareDate =>
    .ok (.dprExecute, { w with ctx := w.ctx.toExecute })
  | some .opIrRw | some .opDrRw => waitIrdrCfg w lenRx lenAvail
  | some .opLoopbackTest => waitLoopbackCfg w lenRx lenAvail
  | some .opFastTargetMemWriteFastdata | some .opFastTargetMemWrite =>
    waitFastCfg w (if chainedCoreCount w.ctx.cmd = 0 then 8 else 10) lenRx lenAvail
  -- The section of a read has the core in it on any chain.
  | some .opFastTargetMemReadFastdata | some .opFastTargetMemRead =>
    waitFastCfg w 10 lenRx lenAvail
  | none =>
    .ok (.dprUnknownCmd, { w with ctx := { w.ctx with
      bufferedLength := 0
      cmdBufState := .cbsClean } })

/-- Consume `len` bytes of header to `offset`, after which `buffered` bytes are
    there and the parser is in `state`. -/
def fetchHeader (w : World) (offset len buffered : Nat) (state : LsejtagCmdBufState) :
    Except Halt World := do
  let w ← lsejtagImplUsbrxConsume w offset len
  .ok { w with ctx := { w.ctx with bufferedLength := buffered, cmdBufState := state } }

/-- The switch over `cmd_buf_state`. -/
def dispatchCmdBuf (w : World) : DispatchM :=
  let lenRx := w.rx.length
  let lenAvail := u32 (lenRx + w.ctx.bufferedLength)
  match w.ctx.cmdBufState with
  | .cbsClean =>
    if lenRx = 0 then .ok (.dprClean, w)
    else if lenRx = 1 then do
      let w ← fetchHeader w 0 1 1 .cbsWaitHeader
      .ok (.dprIncomplete, w)
    else do
      let w ← fetchHeader w 0 2 2 .cbsWaitCfg
      waitCfg w (sub32 lenRx 2) (sub32 lenAvail 2)
  | .cbsWaitHeader =>
    if lenRx = 0 then .ok (.dprIncomplete, w)
    else do
      let w ← fetchHeader w 1 1 2 .cbsWaitCfg
      waitCfg w (sub32 lenRx 1) (sub32 lenAvail 1)
  | .cbsWaitCfg => waitCfg w lenRx lenAvail
  | .cbsWaitPayload => waitPayload w lenRx
  | .cbsExecute => .ok (.dprExecute, w)

/-- `lsejtag_dispatch`. -/
def lsejtagDispatch (w : World) : DispatchM :=
  if w.ctx.tdoShouldFlush then .ok (.dprFlushTdo, w)
  else if w.ctx.tdoImmediateFlush && w.ctx.tdoHaveNewData then
    -- From here on until the queue is empty the first branch is taken.
    .ok (.dprFlushTdo, { w with ctx := { w.ctx with
      tdoHaveNewData := false
      tdoShouldFlush := true } })
  else if w.ctx.jtagbufA.prepared || w.ctx.jtagbufB.prepared then .ok (.dprRunJtag, w)
  else if w.rx.length = 0 ∧ w.ctx.bufferedLength = 0 then .ok (.dprClean, w)
  else dispatchCmdBuf w

/-! ## Execution -/

/-- `lsejtag_execute_continuation`. -/
def lsejtagExecuteContinuation (w : World) : ExecM :=
  match LsejtagCmdOp.ofCode? w.ctx.contOp with
  | some .opFastTargetMemWriteFastdata | some .opFastTargetMemWrite =>
    cmdimplContinueFastMemWrite w
  | some .opFastTargetMemReadFastdata | some .opFastTargetMemRead =>
    cmdimplContinueFastMemRead w
  | _ => .ok (.cerBadContinue, w)

/-- The switch over the op code. -/
def executeCommand (w : World) (txFree : Nat) (tdo : Nat → Bool) : ExecM :=
  match op w.ctx.cmd with
  | some .opProbeMemRw => cmdimplProbeMemRw w txFree
  | some .opIoManip => cmdimplIoManip w tdo
  | some .opIrRw => cmdimplIrdrWrite w true
  | some .opDrRw => cmdimplIrdrWrite w false
  -- A bare `break`: the command stays in the buffer.
  | some .opLoopbackTest => .ok (.cerSuccess, w)
  | some .opFastTargetMemWriteFastdata => cmdimplFastMemWrite w true tdo
  | some .opFastTargetMemWrite => cmdimplFastMemWrite w false tdo
  | some .opFastTargetMemReadFastdata => cmdimplFastMemRead w true tdo
  | some .opFastTargetMemRead => cmdimplFastMemRead w false tdo
  | some .opGetFirmwareDate => cmdimplGetFirmwareDate w txFree
  | none => .ok (.cerSuccess, w)

/-- `lsejtag_execute`. -/
def lsejtagExecute (w : World) (txFree : Nat) (tdo : Nat → Bool) : ExecM :=
  if w.ctx.cmdBufState ≠ .cbsExecute then .ok (.cerNotReady, w)
  else if w.ctx.continuation then lsejtagExecuteContinuation w
  else executeCommand w txFree tdo

end LoongsonEjtag
