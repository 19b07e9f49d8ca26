import LoongsonEjtag.Wire

/-! # The library context

`lsejtag_ctx` and the outside world as the library sees it.

The context record is flat in the source; here its fields come in the groups
the header file comments on (command buffer, parameters, continuation, TDO
queue, JTAG blocks), so that a routine that leaves a group alone says so with
one equation.  Pointers into `tdo_in_data` are indices, and a pointer to a
JTAG block is the block's name.

`World` adds what the port functions act on: the unread bytes of the USB RX
ring, and the trace of everything the library asked of its port.
-/

namespace LoongsonEjtag

open Lib (Byte Dword)

/-! ## `lsejtag_ctx` -/

/-- `lsejtag_cmd_buf_state`. -/
inductive LsejtagCmdBufState where
  | cbsClean
  | cbsWaitHeader
  | cbsWaitCfg
  | cbsWaitPayload
  | cbsExecute
deriving DecidableEq, Repr

/-- The scratch area and command buffer. -/
structure CmdBuf where
  bufferedLength : Nat
  bufferedCmd : Vector Byte 256
  cmdBufWaitPayloadSize : Nat
  cmdBufState : LsejtagCmdBufState

/-- Parameters the host may write. -/
structure JtagParams where
  paramIrLenBits : Byte
  paramIrSkip : Byte
  paramIrControl : Byte
  paramIrData : Byte
  paramIrAddress : Byte
  paramIrFastdata : Byte
  paramJtagClkDiv : Nat
  paramJtagTdoSampleTiming : Nat

/-- The continuation context of the fast memory commands. -/
structure ContCtx where
  continuation : Bool
  contOp : Nat
  is64bitCpu : Bool
  useFastdata : Bool
  coreCount : Nat
  targetCore : Nat
  bitsPerXfer : Nat
  xfersPerBufblk : Nat
  drseqDwordlen : Nat
  drseqBitlen : Nat
  tdoSkipBits : Nat
  tdiBitlen : Nat
  xfersLeft : Nat

/-- The TDO queue: dwords `tdoFlushPtr .. tdoDmaPtr` of `tdoInData` are
    collected and not yet sent. -/
structure TdoQueue where
  tdoInDwords : Nat
  tdoInData : Vector Dword 64
  tdoDmaPtr : Nat
  tdoFlushPtr : Nat
  tdoBusy : Bool
  tdoImmediateFlush : Bool
  tdoHaveNewData : Bool
  tdoShouldFlush : Bool

/-- `lsejtag_jtagbuf_blk`. -/
structure JtagbufBlk where
  tdiBusy : Bool
  tmsBusy : Bool
  prepared : Bool
  immediateFlushTdo : Bool
  tdiData : Vector Dword 64
  tmsData : Vector Dword 64
  tdiBits : Nat
  tdoBits : Nat
  tdoSkipBits : Nat

/-- The word `busy` overlays the three flags in a union: it is nonzero exactly
    if one of them is set. -/
def JtagbufBlk.busy (blk : JtagbufBlk) : Bool := blk.tdiBusy || blk.tmsBusy || blk.prepared

/-- The block after its TDI and TMS transfers completed. -/
def JtagbufBlk.completed (blk : JtagbufBlk) : JtagbufBlk :=
  { blk with tdiBusy := false, tmsBusy := false }

theorem JtagbufBlk.completed_eq {blk : JtagbufBlk} (tdi : blk.tdiBusy = false)
    (tms : blk.tmsBusy = false) : blk.completed = blk := by
  cases blk
  simp_all [completed]

inductive BufId where
  | a
  | b
deriving DecidableEq, Repr

/-- `lsejtag_ctx`. -/
structure LsejtagCtx extends CmdBuf, JtagParams, ContCtx, TdoQueue where
  jtagbufA : JtagbufBlk
  jtagbufB : JtagbufBlk
  activeBufblk : Option BufId

namespace LsejtagCtx

def jtagbuf (ctx : LsejtagCtx) : BufId → JtagbufBlk
  | .a => ctx.jtagbufA
  | .b => ctx.jtagbufB

def setJtagbuf (ctx : LsejtagCtx) (id : BufId) (blk : JtagbufBlk) : LsejtagCtx :=
  match id with
  | .a => { ctx with jtagbufA := blk }
  | .b => { ctx with jtagbufB := blk }

/-- The context with the TMS and TDI sequences of block `id` replaced. -/
def putSeq (ctx : LsejtagCtx) (id : BufId) (tms tdi : Vector Dword 64) : LsejtagCtx :=
  ctx.setJtagbuf id { ctx.jtagbuf id with tmsData := tms, tdiData := tdi }

/-- The buffered command as raw bytes. -/
def cmd (ctx : LsejtagCtx) : List Byte := ctx.bufferedCmd.toList

/-- No block is being run or waits to be, and no capture is in progress. -/
def periphFree (ctx : LsejtagCtx) : Bool :=
  !ctx.jtagbufA.busy && !ctx.jtagbufB.busy && !ctx.tdoBusy

@[simp] theorem jtagbuf_a (ctx : LsejtagCtx) : ctx.jtagbuf .a = ctx.jtagbufA := rfl
@[simp] theorem jtagbuf_b (ctx : LsejtagCtx) : ctx.jtagbuf .b = ctx.jtagbufB := rfl

section setJtagbuf

variable (ctx : LsejtagCtx) (id : BufId) (blk : JtagbufBlk)

@[simp] theorem toCmdBuf_setJtagbuf : (ctx.setJtagbuf id blk).toCmdBuf = ctx.toCmdBuf := by
  cases id <;> rfl

@[simp] theorem toJtagParams_setJtagbuf :
    (ctx.setJtagbuf id blk).toJtagParams = ctx.toJtagParams := by
  cases id <;> rfl

@[simp] theorem toContCtx_setJtagbuf : (ctx.setJtagbuf id blk).toContCtx = ctx.toContCtx := by
  cases id <;> rfl

@[simp] theorem toTdoQueue_setJtagbuf : (ctx.setJtagbuf id blk).toTdoQueue = ctx.toTdoQueue := by
  cases id <;> rfl

@[simp] theorem activeBufblk_setJtagbuf :
    (ctx.setJtagbuf id blk).activeBufblk = ctx.activeBufblk := by
  cases id <;> rfl

@[simp] theorem setJtagbuf_jtagbuf : ctx.setJtagbuf id (ctx.jtagbuf id) = ctx := by
  cases id <;> rfl

@[simp] theorem jtagbuf_setJtagbuf : (ctx.setJtagbuf id blk).jtagbuf id = blk := by
  cases id <;> rfl

@[simp] theorem cmd_setJtagbuf : (ctx.setJtagbuf id blk).cmd = ctx.cmd := by
  simp [cmd]

end setJtagbuf

section putSeq

variable (ctx : LsejtagCtx) (id : BufId) (tms tdi : Vector Dword 64)

@[simp] theorem toCmdBuf_putSeq : (ctx.putSeq id tms tdi).toCmdBuf = ctx.toCmdBuf := by
  simp [putSeq]

@[simp] theorem toJtagParams_putSeq :
    (ctx.putSeq id tms tdi).toJtagParams = ctx.toJtagParams := by
  simp [putSeq]

@[simp] theorem toContCtx_putSeq : (ctx.putSeq id tms tdi).toContCtx = ctx.toContCtx := by
  simp [putSeq]

@[simp] theorem toTdoQueue_putSeq : (ctx.putSeq id tms tdi).toTdoQueue = ctx.toTdoQueue := by
  simp [putSeq]

@[simp] theorem putSeq_putSeq (tms' tdi' : Vector Dword 64) :
    (ctx.putSeq id tms tdi).putSeq id tms' tdi' = ctx.putSeq id tms' tdi' := by
  cases id <;> rfl

@[simp] theorem periphFree_putSeq : (ctx.putSeq id tms tdi).periphFree = ctx.periphFree := by
  cases id <;> rfl

end putSeq

end LsejtagCtx

/-! ## Initialisation -/

/-- A zeroed block. -/
def JtagbufBlk.zero : JtagbufBlk where
  tdiBusy := false
  tmsBusy := false
  prepared := false
  immediateFlushTdo := false
  tdiData := Vector.replicate 64 0
  tmsData := Vector.replicate 64 0
  tdiBits := 0
  tdoBits := 0
  tdoSkipBits := 0

/-- `lsejtag_init_ctx`: everything zero, the TDO pointers at the start of the
    buffer, and the IR parameters of MIPS. -/
def lsejtagInitCtx : LsejtagCtx where
  bufferedLength := 0
  bufferedCmd := Vector.replicate 256 0
  cmdBufWaitPayloadSize := 0
  cmdBufState := .cbsClean
  paramIrLenBits := 5
  paramIrSkip := 0xFF
  paramIrControl := 0xA
  paramIrData := 0x9
  paramIrAddress := 0x8
  paramIrFastdata := 0xE
  paramJtagClkDiv := 0
  paramJtagTdoSampleTiming := 0
  continuation := false
  contOp := 0
  is64bitCpu := false
  useFastdata := false
  coreCount := 0
  targetCore := 0
  bitsPerXfer := 0
  xfersPerBufblk := 0
  drseqDwordlen := 0
  drseqBitlen := 0
  tdoSkipBits := 0
  tdiBitlen := 0
  xfersLeft := 0
  tdoInDwords := 0
  tdoInData := Vector.replicate 64 0
  tdoDmaPtr := 0
  tdoFlushPtr := 0
  tdoBusy := false
  tdoImmediateFlush := false
  tdoHaveNewData := false
  tdoShouldFlush := false
  jtagbufA := JtagbufBlk.zero
  jtagbufB := JtagbufBlk.zero
  activeBufblk := none

/-! ## The outside world -/

/-- `lsejtag_dispatch_result`.  `dpr_corrupt_state` is missing: it reports a
    `cmd_buf_state` outside its enumeration. -/
inductive LsejtagDispatchResult where
  | dprExecute
  | dprClean
  | dprIncomplete
  | dprFlushTdo
  | dprRunJtag
  | dprTooLong
  | dprUnknownCmd
deriving DecidableEq, Repr

/-- `lsejtag_cmd_exec_result`. -/
inductive LsejtagCmdExecResult where
  | cerSuccess
  | cerContinue
  | cerAwaitJtagBuf
  | cerAwaitUsbTx
  | cerNotReady
  | cerBadContinue
deriving DecidableEq, Repr

/-- `lsejtag_impl_io`. -/
inductive LsejtagImplIo where
  | implIoLed
  | implIoTrst
  | implIoBrst
  | implIoDint
deriving DecidableEq, Repr

/-- `lsejtag_impl_recfg`. -/
inductive LsejtagImplRecfg where
  | implRecfgClkfreq
  | implRecfgTdoSampleTime
deriving DecidableEq, Repr

/-- Why a routine does not return.  The first three are undefined in C, the
    others are what the firmware itself does: a failed `assert`, the two
    `PANIC` loops and a busy-wait that nothing ends. -/
inductive Halt where
  | outOfBounds
  | badShift
  | consumeOverrun (offset len avail : Nat)
  | assertFailed
  | watermarkPanic
  | tooLongPanic
  | spin
deriving DecidableEq, Repr

/-- The arguments of `lsejtag_impl_run_jtag`. -/
structure JtagSeq where
  tdi : List Dword
  tms : List Dword
  tdiBits : Nat
  tdoBits : Nat
  tdoSkipBits : Nat
deriving DecidableEq, Repr

/-- What a prepared block hands to `lsejtag_impl_run_jtag`. -/
def JtagbufBlk.seq (blk : JtagbufBlk) : JtagSeq :=
  ⟨blk.tdiData.toList, blk.tmsData.toList, blk.tdiBits, blk.tdoBits, blk.tdoSkipBits⟩

/-- Everything observable at the library's boundary, in order.

    `usbOut` is the host's side: bytes that became available in the RX ring.
    `execute` and `executed` bracket a call of `lsejtag_execute`, the first
    with the command it is presented.  `prepared` marks a block that becomes
    ready; `runBlock` and `runDirect` are calls of `lsejtag_impl_run_jtag`, by
    `lsejtag_run_jtag` and by a command itself; `complete` and `completeTdo`
    are its completion callbacks. -/
inductive Event where
  | usbOut (bytes : List Byte)
  | consume (offset len avail : Nat) (got : List Byte)
  | respond (bytes : List Byte)
  | flush (bytes : List Byte)
  | ioManip (io : LsejtagImplIo) (level : Bool)
  | reconfigure (type : LsejtagImplRecfg) (param : Nat)
  | prepared (seq : JtagSeq)
  | runBlock (seq : JtagSeq)
  | runDirect (seq : JtagSeq)
  | complete (active : Option BufId)
  | completeTdo (dwords : List Dword)
  | execute (continuation : Bool) (cmd : List Byte)
  | executed (result : LsejtagCmdExecResult)
deriving DecidableEq, Repr

/-- The context, the unread bytes of the RX ring and the trace so far. -/
structure World where
  ctx : LsejtagCtx
  rx : List Byte
  trace : List Event

/-- Record an event. -/
def World.log (w : World) (e : Event) : World := { w with trace := w.trace ++ [e] }

@[simp] theorem World.ctx_log (w : World) (e : Event) : (w.log e).ctx = w.ctx := rfl
@[simp] theorem World.rx_log (w : World) (e : Event) : (w.log e).rx = w.rx := rfl
@[simp] theorem World.trace_log (w : World) (e : Event) :
    (w.log e).trace = w.trace ++ [e] := rfl

end LoongsonEjtag
