import LoongsonEjtag.DwordBuf
import LoongsonEjtag.Jtag

/-! # Command implementations

The functions of `cmdimpl.c`.  `txFree` is what `lsejtag_impl_usbtx_free_len`
returns during the call and `tdo` the TDO levels sampled by JTAG sequences that
the call runs itself.
-/

namespace LoongsonEjtag

open Lib (Byte Dword u32 sub32 le32 dwordBytes forUpTo)
open Wire

/-- Result and world of a command. -/
abbrev ExecM := Except Halt (LsejtagCmdExecResult × World)

/-! ## Shared helpers -/

/-- `return_data_len_required`. -/
def returnDataLenRequired (ctx : LsejtagCtx) : Nat :=
  let cmd := ctx.cmd
  match op cmd with
  | some .opProbeMemRw => if isWrite cmd then 0 else 4
  | some .opIoManip => 0
  | some .opIrRw | some .opDrRw =>
    if readBack cmd then 0 else bit2dword (irseqLenBits cmd) * 4
  | some .opLoopbackTest | some .opGetFirmwareDate => 4
  | some .opFastTargetMemWriteFastdata | some .opFastTargetMemWrite => 0
  | some .opFastTargetMemReadFastdata | some .opFastTargetMemRead =>
    u32 (bit2dword ((if cpuIs64bit cmd then 64 else 32) + chainedCoreCount cmd) * 4 *
      dataLenXferCount cmd)
  | none => 0

/-- `wait_until_jtag_periph_free`: with a synchronous port nothing can end a
    wait that does not end at once. -/
def waitUntilJtagPeriphFree (w : World) : Except Halt World :=
  if w.ctx.periphFree then .ok w else .error .spin

/-- `cmd_buf_clean`. -/
def cmdBufClean (ctx : LsejtagCtx) : LsejtagCtx :=
  { ctx with bufferedLength := 0, cmdBufState := .cbsClean, cmdBufWaitPayloadSize := 0 }

/-- The first free JTAG buffer. -/
def LsejtagCtx.freeJtagbuf (ctx : LsejtagCtx) : Option BufId :=
  if !ctx.jtagbufA.busy then some .a
  else if !ctx.jtagbufB.busy then some .b
  else none

/-- `lsejtag_impl_usbtx(data, 4)` by a command. -/
def respond (w : World) (data : Dword) : World := w.log (.respond (dwordBytes data))

/-! ## Firmware date -/

/-- `LSEJTAG_FIRMWARE_DATE`. -/
def lsejtagFirmwareDate : Dword := 0x20210129

/-- `cmdimpl_get_firmware_date`. -/
def cmdimplGetFirmwareDate (w : World) (txFree : Nat) : ExecM :=
  if returnDataLenRequired w.ctx > txFree then .ok (.cerAwaitUsbTx, w)
  else
    let w := respond w lsejtagFirmwareDate
    .ok (.cerSuccess, { w with ctx := cmdBufClean w.ctx })

/-! ## Probe memory -/

def lsejtagParamAddrIrLen : Nat := 0x02730000
def lsejtagParamAddrIrSkip : Nat := 0x02730004
def lsejtagParamAddrIrControl : Nat := 0x02730008
def lsejtagParamAddrIrData : Nat := 0x0273000c
def lsejtagParamAddrIrAddress : Nat := 0x02730010
def lsejtagParamAddrIrFastdata : Nat := 0x02730014

/-- The highest set bit among the lowest `n` bits of `data`, as a mask. -/
def highestBit (data : Nat) : Nat → Option Nat
  | 0 => none
  | n + 1 => if data.testBit n then some (2 ^ n) else highestBit data n

/-- The `is_write` branch of `cmdimpl_probe_mem_rw`. -/
def probeMemWrite (w : World) : Except Halt World :=
  let ctx := w.ctx
  let data := dataToWrite ctx.cmd
  let byte : Byte := BitVec.ofNat 8 data
  match addr ctx.cmd with
  | 0x81000070 =>
    match data / 2 ^ 16 with
    | 1 => do
      let clkDiv := (highestBit data 16).getD 0
      let w := { w with ctx := { ctx with paramJtagClkDiv := clkDiv } }
      let w ← waitUntilJtagPeriphFree w
      .ok (w.log (.reconfigure .implRecfgClkfreq clkDiv))
    | 2 => .ok { w with ctx := { ctx with paramJtagTdoSampleTiming := data % 4 } }
    | _ => .ok w
  | 0x02730000 => .ok { w with ctx := { ctx with paramIrLenBits := byte } }
  | 0x02730004 => .ok { w with ctx := { ctx with paramIrSkip := byte } }
  | 0x02730008 => .ok { w with ctx := { ctx with paramIrControl := byte } }
  | 0x0273000c => .ok { w with ctx := { ctx with paramIrData := byte } }
  | 0x02730010 => .ok { w with ctx := { ctx with paramIrAddress := byte } }
  | 0x02730014 => .ok { w with ctx := { ctx with paramIrFastdata := byte } }
  | _ => .ok w

/-- The value the read branch of `cmdimpl_probe_mem_rw` returns. -/
def probeMemRead (ctx : LsejtagCtx) : Dword :=
  match addr ctx.cmd with
  | 0x40 => BitVec.ofNat 32 lsejtagParamAddrIrLen
  | 0x44 => BitVec.ofNat 32 lsejtagParamAddrIrSkip
  | 0x48 => BitVec.ofNat 32 lsejtagParamAddrIrControl
  | 0x4c => BitVec.ofNat 32 lsejtagParamAddrIrData
  | 0x50 => BitVec.ofNat 32 lsejtagParamAddrIrAddress
  | 0x54 => BitVec.ofNat 32 lsejtagParamAddrIrFastdata
  | 0x02730000 => ctx.paramIrLenBits.setWidth 32
  | 0x02730004 => ctx.paramIrSkip.setWidth 32
  | 0x02730008 => ctx.paramIrControl.setWidth 32
  | 0x0273000c => ctx.paramIrData.setWidth 32
  | 0x02730010 => ctx.paramIrAddress.setWidth 32
  | 0x02730014 => ctx.paramIrFastdata.setWidth 32
  | _ => 0

/-- `cmdimpl_probe_mem_rw`. -/
def cmdimplProbeMemRw (w : World) (txFree : Nat) : ExecM :=
  if isWrite w.ctx.cmd then do
    let w ← probeMemWrite w
    .ok (.cerSuccess, { w with ctx := cmdBufClean w.ctx })
  else if returnDataLenRequired w.ctx > txFree then .ok (.cerAwaitUsbTx, w)
  else
    let w := respond w (probeMemRead w.ctx)
    .ok (.cerSuccess, { w with ctx := cmdBufClean w.ctx })

/-! ## I/O ports -/

/-- `io_maximum`. -/
def ioMaximum : Nat := 7

/-- The overkill TMS reset sequence of `io_tap_reset`. -/
def tapResetSeq : JtagSeq := ⟨[0x0, 0x0], [0xffffffff, 0x7fffffff], 64, 0, 0⟩

/-- The port cases of `cmdimpl_io_manip`. -/
def ioManipPort (w : World) (tdo : Nat → Bool) : Except Halt World :=
  let level := level w.ctx.cmd
  match portId w.ctx.cmd with
  | 0 => .ok (w.log (.ioManip .implIoLed level))
  | 3 => .ok (w.log (.ioManip .implIoTrst level))
  | 4 => .ok (w.log (.ioManip .implIoBrst level))
  | 5 => .ok (w.log (.ioManip .implIoDint level))
  | 6 => do
    let w ← waitUntilJtagPeriphFree w
    let w ← lsejtagImplRunJtag (w.log (.runDirect tapResetSeq)) tapResetSeq none tdo
    waitUntilJtagPeriphFree w
  | _ => .ok w

/-- `cmdimpl_io_manip`. -/
def cmdimplIoManip (w : World) (tdo : Nat → Bool) : ExecM :=
  -- An early return, before the command buffer is cleaned.
  if portId w.ctx.cmd > ioMaximum then .ok (.cerSuccess, w)
  else do
    let w ← ioManipPort w tdo
    .ok (.cerSuccess, { w with ctx := cmdBufClean w.ctx })

/-! ## IR/DR scans -/

/-- Bits in front of the data: `01100` for IR, `0100` for DR. -/
def irdrOffset (isir : Bool) : Nat := if isir then 5 else 4

/-- `irseq[i]`. -/
def irseqDword (cmd : List Byte) (i : Nat) : Except Halt Dword :=
  if 4 + 4 * i + 4 ≤ 256 then .ok (BitVec.ofNat 32 (le32 cmd (4 + 4 * i)))
  else .error .outOfBounds

/-- One round of the data loops, which differ in the shift only. -/
def irdrFillDword (cmd : List Byte) (off i : Nat) (tdi : DwordBuf) : Except Halt DwordBuf := do
  let data ← irseqDword cmd i
  let tdi ← tdi.update i (· ||| data <<< off)
  tdi.write (i + 1) (data >>> (32 - off))

/-- The closing `110` of the TMS sequence. -/
def irdrCloseTms (len off : Nat) (tms : DwordBuf) : Except Halt DwordBuf :=
  let tmsbuf := len / 32
  let bitshift := sub32 (off + len) 1 % 32
  do
    let tms ← tms.update tmsbuf (· ||| 0x3#32 <<< bitshift)
    if bitshift ≥ 30 then tms.write (tmsbuf + 1) (0x3#32 >>> (32 - bitshift)) else .ok tms

/-- The block `cmdimpl_irdr_write` fills in. -/
def irdrBlock (blk : JtagbufBlk) (cmd : List Byte) (isir : Bool) : Except Halt JtagbufBlk := do
  let off := irdrOffset isir
  let len := irseqLenBits cmd
  let bitlen := off + len + 2
  let dwordlen := bit2dword bitlen
  let tms ← DwordBuf.clear blk.tmsData dwordlen
  let tdi ← DwordBuf.clear blk.tdiData dwordlen
  let tms ← tms.write 0 (if isir then 0x6 else 0x2)
  -- The data is not masked: bits behind its end are what the host sent.
  let tdi ← forUpTo (irdrFillDword cmd off) (bit2dword len) tdi
  let tms ← irdrCloseTms len off tms
  .ok { blk with
    tdiData := tdi
    tmsData := tms
    tdiBits := bitlen
    -- Set for a read-back only
    tdoSkipBits := if readBack cmd then off else blk.tdoSkipBits
    tdoBits := if readBack cmd then len else 0
    immediateFlushTdo := immediateSendBack cmd
    prepared := true }

/-- `cmdimpl_irdr_write`. -/
def cmdimplIrdrWrite (w : World) (isir : Bool) : ExecM :=
  match w.ctx.freeJtagbuf with
  | none => .ok (.cerAwaitJtagBuf, w)
  | some id =>
    -- What is queued has to go before there is room for the TDO bits of the scan.
    if sub32 256 (u32 (4 * w.ctx.tdoInDwords)) < returnDataLenRequired w.ctx then
      .ok (.cerAwaitUsbTx, { w with ctx := { w.ctx with tdoShouldFlush := true } })
    else do
      let blk ← irdrBlock (w.ctx.jtagbuf id) w.ctx.cmd isir
      .ok (.cerSuccess,
        { w with ctx := cmdBufClean (w.ctx.setJtagbuf id blk) }.log (.prepared blk.seq))

/-! ## Fast memory access: transfer sequences -/

/-- A JTAG sequence under construction. -/
structure SeqBuf where
  tms : DwordBuf
  tdi : DwordBuf
  bitshift : Nat

namespace SeqBuf

/-- `bitshift += append_bits(tms_data, bitshift, field, bits)`. -/
def appendTms (s : SeqBuf) (field : Dword) (bits : Nat) : Except Halt SeqBuf := do
  let tms ← appendBits s.tms s.bitshift field bits
  .ok { s with tms, bitshift := s.bitshift + bits }

/-- `bitshift += append_bits(tdi_data, bitshift, field, bits)`. -/
def appendTdi (s : SeqBuf) (field : Dword) (bits : Nat) : Except Halt SeqBuf := do
  let tdi ← appendBits s.tdi s.bitshift field bits
  .ok { s with tdi, bitshift := s.bitshift + bits }

/-- `bitshift += bits`. -/
def skip (s : SeqBuf) (bits : Nat) : SeqBuf := { s with bitshift := u32 (s.bitshift + bits) }

/-- `--bitshift`. -/
def back (s : SeqBuf) : SeqBuf := { s with bitshift := sub32 s.bitshift 1 }

end SeqBuf

/-- The IR bits of all cores: `active` for the target core and SKIP for the
    others, in the order `coreAt` visits the chain. -/
def appendIr (ctx : LsejtagCtx) (active : Byte) (coreAt : Nat → Nat) (s : SeqBuf) :
    Except Halt SeqBuf :=
  let irLen := ctx.paramIrLenBits.toNat
  if ctx.coreCount ≠ 0 then
    forUpTo (fun i s =>
      s.appendTdi
        ((if coreAt i = ctx.targetCore then active else ctx.paramIrSkip).setWidth 32) irLen)
      ctx.coreCount s
  else s.appendTdi (active.setWidth 32) irLen

/-- `for (core = core_count - 1; core >= 0; --core)`. -/
def lastCoreFirst (ctx : LsejtagCtx) (i : Nat) : Nat := ctx.coreCount - 1 - i

/-- The bits of one transfer, in the two layouts that `cmdimpl_fast_mem_write`
    and `cmdimpl_fast_mem_read` share. -/
def fastMemXfer (ctx : LsejtagCtx) (useFastdata : Bool) (skipbits : Nat) (s : SeqBuf) :
    Except Halt SeqBuf :=
  if useFastdata then do
    -- Shift-DR, the data and PrAcc, idle
    let s ← s.appendTms 0x2 4
    let s := s.skip (sub32 ctx.drseqBitlen 1)
    s.appendTms 0x3 3
  else do
    -- Shift-IR, DATA for the target core
    let s ← s.appendTms 0x6 5
    let s ← appendIr ctx ctx.paramIrData (lastCoreFirst ctx) s
    -- Shift-DR, the data
    let s ← s.back.appendTms 0x7 5
    let s := s.skip (sub32 ctx.drseqBitlen 1)
    -- Shift-IR, CONTROL for the target core: this loop counts cores upwards
    let s ← s.appendTms 0xf 6
    let s ← appendIr ctx ctx.paramIrControl id s
    -- Shift-DR, the control word
    let s ← s.back.appendTms 0x7 5
    let s := s.skip skipbits
    let tdi ← appendDword s.tdi s.bitshift 0xc000
    let s := { s with tdi }.skip 32
    s.back.appendTms 0x3 3

/-- `select_fastdata`. -/
def selectFastdata (w : World) (tdo : Nat → Bool) : Except Halt World := do
  let ctx := w.ctx
  let coreCount := if ctx.coreCount ≠ 0 then ctx.coreCount else 1
  let bitlen := 7 + coreCount * ctx.paramIrLenBits.toNat
  let tms ← DwordBuf.clear ctx.jtagbufA.tmsData (bit2dword bitlen)
  let tdi ← DwordBuf.clear ctx.jtagbufA.tdiData (bit2dword bitlen)
  let s ← SeqBuf.appendTms { tms, tdi, bitshift := 0 } 0x6 5
  let s ← appendIr ctx ctx.paramIrFastdata (lastCoreFirst ctx) s
  let s ← s.back.appendTms 0x3 3
  let w ← lsejtagRunJtag { w with ctx := ctx.putSeq .a s.tms s.tdi } tdo
  waitUntilJtagPeriphFree w

/-- `if (select) select_fastdata(ctx);`. -/
def selectFastdataIf (select : Bool) (w : World) (tdo : Nat → Bool) : Except Halt World :=
  if select then selectFastdata w tdo else .ok w

/-- `fast_mem_rw_get_bits_per_xfer`. -/
def fastMemRwGetBitsPerXfer (ctx : LsejtagCtx) : Nat :=
  let coreCount := if ctx.coreCount ≠ 0 then ctx.coreCount else 1
  let skipbits := if ctx.coreCount ≠ 0 then ctx.coreCount - 1 else 0
  let irBits := u32 (sub32 (coreCount * ctx.paramIrLenBits.toNat) 1 + skipbits)
  if ctx.useFastdata then (if ctx.is64bitCpu then 71 else 39) + skipbits
  else if ctx.is64bitCpu then u32 (118 + 2 * irBits)
  else u32 (86 + 2 * irBits)

/-- How both continuations end: done when no transfer is left. -/
def finishXfers (w : World) : LsejtagCmdExecResult × World :=
  if w.ctx.xfersLeft = 0 then
    (.cerSuccess, { w with ctx := { cmdBufClean w.ctx with continuation := false } })
  else (.cerContinue, w)

/-! ## Fast memory write -/

/-- The command parameters and block sizes `cmdimpl_fast_mem_write` works out. -/
def fastMemWriteSetup (ctx : LsejtagCtx) (useFastdata : Bool) : LsejtagCtx :=
  let cmd := ctx.cmd
  let coreCount := chainedCoreCount cmd
  let skipbits := if coreCount ≠ 0 then coreCount - 1 else 0
  let drseqBitlen := skipbits + (if cpuIs64bit cmd then 64 else 32) + (if useFastdata then 1 else 0)
  let ctx := { ctx with
    contOp := opCode cmd
    is64bitCpu := cpuIs64bit cmd
    useFastdata := if coreCount ≠ 0 then useFastdata else true
    coreCount
    targetCore := if coreCount ≠ 0 then atCpuCore cmd else 0
    drseqBitlen
    drseqDwordlen := bit2dword drseqBitlen }
  let bitsPerXfer := fastMemRwGetBitsPerXfer ctx
  let xfersPerBufblk := min (dataLenXferCount cmd)
    (min (256 / (ctx.drseqDwordlen * 4)) (2048 / bitsPerXfer))
  { ctx with
    bitsPerXfer
    xfersPerBufblk
    tdiBitlen := xfersPerBufblk * bitsPerXfer }

/-- One round of the loop that copies the first transfer behind the others. -/
def copyXfer (bitsPerXfer : Nat) (s : SeqBuf) : Except Halt SeqBuf := do
  let s ← forUpTo (fun j s => do
      let tdi ← appendDword s.tdi s.bitshift (← s.tdi.read j)
      let tms ← appendDword s.tms s.bitshift (← s.tms.read j)
      .ok { tms, tdi, bitshift := s.bitshift + 32 })
    (bitsPerXfer / 32) s
  if bitsPerXfer % 32 ≠ 0 then do
    let bits := bitsPerXfer % 32
    let j := bitsPerXfer / 32
    -- Dword `j` already holds the start of the second transfer behind these bits.
    let tdi ← appendBits s.tdi s.bitshift (← s.tdi.read j) bits
    let tms ← appendBits s.tms s.bitshift (← s.tms.read j) bits
    .ok { tms, tdi, bitshift := s.bitshift + bits }
  else .ok s

/-- `cmdimpl_fast_mem_write`. -/
def cmdimplFastMemWrite (w : World) (useFastdata : Bool) (tdo : Nat → Bool) : ExecM := do
  let cmd := w.ctx.cmd
  let w := { w with ctx := fastMemWriteSetup w.ctx useFastdata }
  let bitsPerXfer := w.ctx.bitsPerXfer
  let skipbits := if w.ctx.coreCount ≠ 0 then w.ctx.coreCount - 1 else 0
  let w ← waitUntilJtagPeriphFree w
  let w := w.log (.reconfigure .implRecfgClkfreq (jtagClkDiv cmd))
  let w ← selectFastdataIf (useFastdata && w.ctx.coreCount ≠ 0) w tdo
  -- Every transfer is rounded up to dwords here, but copied without gaps below.
  let dwords := bit2dword bitsPerXfer * w.ctx.xfersPerBufblk
  let tms ← DwordBuf.clear w.ctx.jtagbufA.tmsData dwords
  let tdi ← DwordBuf.clear w.ctx.jtagbufA.tdiData dwords
  let s ← fastMemXfer w.ctx useFastdata skipbits { tms, tdi, bitshift := 0 }
  if s.bitshift ≠ bitsPerXfer then .error .assertFailed
  else do
    let s ← forUpTo (fun _ => copyXfer bitsPerXfer) (w.ctx.xfersPerBufblk - 1) s
    let copied := bit2dword w.ctx.tdiBitlen
    let tmsB ← DwordBuf.copyFrom w.ctx.jtagbufB.tmsData s.tms copied
    let tdiB ← DwordBuf.copyFrom w.ctx.jtagbufB.tdiData s.tdi copied
    .ok (.cerContinue, { w with ctx := {
        (w.ctx.putSeq .a s.tms s.tdi).putSeq .b tmsB tdiB with
      bufferedLength := 0
      xfersLeft := dataLenXferCount cmd
      continuation := true } })

/-- `databuf[i]`. -/
def databufDword (cmd : List Byte) (i : Nat) : Except Halt Dword :=
  if 4 * i + 4 ≤ 256 then .ok (BitVec.ofNat 32 (le32 cmd (4 * i))) else .error .outOfBounds

/-- Where the data of a transfer starts, from the start of the transfer. -/
def dataBitoffset (ctx : LsejtagCtx) : Nat :=
  let coreCount := if ctx.coreCount = 0 then 1 else ctx.coreCount
  if ctx.useFastdata then 4 else u32 (coreCount * ctx.paramIrLenBits.toNat + 9)

/-- Place the DR sequence of transfer `i`; `databuf` has advanced by the dwords
    of the transfers before it. -/
def placeXfer (ctx : LsejtagCtx) (i : Nat) (tdi : DwordBuf) : Except Halt DwordBuf := do
  let bitshift := i * ctx.bitsPerXfer + dataBitoffset ctx
  let databuf := i * bit2dword ctx.drseqBitlen
  let tdi ← forUpTo (fun j tdi => do
      replaceDword tdi (bitshift + 32 * j) (← databufDword ctx.cmd (databuf + j)))
    (ctx.drseqBitlen / 32) tdi
  if ctx.drseqBitlen % 32 ≠ 0 then do
    let last := ctx.drseqBitlen / 32
    replaceBits tdi (bitshift + 32 * last) (← databufDword ctx.cmd (databuf + last))
      (ctx.drseqBitlen % 32)
  else .ok tdi

/-- Truncate the premade sequence to the transfers that are left. -/
def truncateXfers (ctx : LsejtagCtx) : LsejtagCtx :=
  if ctx.xfersPerBufblk > ctx.xfersLeft then
    { ctx with
      xfersPerBufblk := ctx.xfersLeft
      tdiBitlen := u32 (ctx.bitsPerXfer * ctx.xfersLeft) }
  else ctx

section truncateXfers

variable (ctx : LsejtagCtx)

@[simp] theorem xfersPerBufblk_truncateXfers :
    (truncateXfers ctx).xfersPerBufblk = min ctx.xfersPerBufblk ctx.xfersLeft := by
  rw [truncateXfers]
  split
  · rename_i fewer
    exact (Nat.min_eq_right (Nat.le_of_lt fewer)).symm
  · rename_i enough
    exact (Nat.min_eq_left (Nat.le_of_not_lt enough)).symm

@[simp] theorem xfersLeft_truncateXfers : (truncateXfers ctx).xfersLeft = ctx.xfersLeft := by
  rw [truncateXfers]
  split <;> rfl

@[simp] theorem drseqDwordlen_truncateXfers :
    (truncateXfers ctx).drseqDwordlen = ctx.drseqDwordlen := by
  rw [truncateXfers]
  split <;> rfl

@[simp] theorem contOp_truncateXfers : (truncateXfers ctx).contOp = ctx.contOp := by
  rw [truncateXfers]
  split <;> rfl

@[simp] theorem continuation_truncateXfers :
    (truncateXfers ctx).continuation = ctx.continuation := by
  rw [truncateXfers]
  split <;> rfl

@[simp] theorem toCmdBuf_truncateXfers : (truncateXfers ctx).toCmdBuf = ctx.toCmdBuf := by
  rw [truncateXfers]
  split <;> rfl

end truncateXfers

/-- Bytes of payload one block needs. -/
def blockBytes (ctx : LsejtagCtx) : Nat := u32 (ctx.xfersPerBufblk * (ctx.drseqDwordlen * 4))

/-- Fetch payload for one block; the flag tells whether the block is complete. -/
def fetchPayload (w : World) : Except Halt (Bool × World) :=
  let need := blockBytes w.ctx
  let length := w.ctx.bufferedLength
  if length < need then
    let availLen := w.rx.length
    if u32 (length + availLen) ≥ need then do
      let readLen := sub32 need length
      let w ← lsejtagImplUsbrxConsume w length readLen
      .ok (true, { w with ctx := { w.ctx with bufferedLength := u32 (length + readLen) } })
    else do
      let w ← lsejtagImplUsbrxConsume w length availLen
      .ok (false, { w with ctx := { w.ctx with bufferedLength := u32 (length + availLen) } })
  else .ok (true, w)

/-- Fill a free block with the buffered transfers and account for them. -/
def prepareWriteBlock (w : World) : ExecM :=
  match w.ctx.freeJtagbuf with
  | none => .ok (.cerAwaitJtagBuf, w)
  | some id => do
    let blk := w.ctx.jtagbuf id
    let tdi ← forUpTo (placeXfer w.ctx) w.ctx.xfersPerBufblk blk.tdiData
    let blk := { blk with
      -- `immediate_flush_tdo` stays as the last user of the block left it.
      tdiData := tdi
      tdiBits := w.ctx.tdiBitlen
      tdoBits := 0
      prepared := true }
    let ctx := w.ctx.setJtagbuf id blk
    let ctx := { ctx with
      bufferedLength := 0
      xfersLeft := sub32 ctx.xfersLeft ctx.xfersPerBufblk }
    .ok (finishXfers ({ w with ctx }.log (.prepared blk.seq)))

/-- `cmdimpl_continue_fast_mem_write`. -/
def cmdimplContinueFastMemWrite (w : World) : ExecM := do
  let (complete, w) ← fetchPayload { w with ctx := truncateXfers w.ctx }
  if complete then prepareWriteBlock w else .ok (.cerContinue, w)

/-! ## Fast memory read -/

/-- The parameters `cmdimpl_fast_mem_read` works out.  `core_count` is a local
    that still has the count of the previous fast command. -/
def fastMemReadSetup (ctx : LsejtagCtx) (useFastdata : Bool) : LsejtagCtx :=
  let cmd := ctx.cmd
  let coreCount := if ctx.coreCount ≠ 0 then ctx.coreCount else 1
  let ctx := { ctx with
    contOp := opCode cmd
    coreCount := if chainedCoreCount cmd ≠ 0 then chainedCoreCount cmd else 1 }
  -- `is_64bit_cpu`, `use_fastdata` and `target_core` are those of the last write.
  let skipbits := ctx.coreCount - 1
  let drseqBitlen := skipbits + (if ctx.is64bitCpu then 64 else 32) + (if useFastdata then 1 else 0)
  let bitsPerXfer := fastMemRwGetBitsPerXfer ctx
  { ctx with
    drseqBitlen
    drseqDwordlen := bit2dword drseqBitlen
    bitsPerXfer
    tdiBitlen := bitsPerXfer
    tdoSkipBits := if useFastdata then 4 else 9 + coreCount * ctx.paramIrLenBits.toNat }

/-- `cmdimpl_fast_mem_read`. -/
def cmdimplFastMemRead (w : World) (useFastdata : Bool) (tdo : Nat → Bool) : ExecM := do
  let cmd := w.ctx.cmd
  let w := { w with ctx := fastMemReadSetup w.ctx useFastdata }
  let w ← waitUntilJtagPeriphFree w
  let w := w.log (.reconfigure .implRecfgClkfreq (jtagClkDiv cmd))
  let w ← selectFastdataIf useFastdata w tdo
  let tms ← DwordBuf.clear w.ctx.jtagbufA.tmsData (bit2dword w.ctx.tdiBitlen)
  let tdi ← DwordBuf.clear w.ctx.jtagbufA.tdiData (bit2dword w.ctx.tdiBitlen)
  let s ← fastMemXfer w.ctx useFastdata (w.ctx.coreCount - 1) { tms, tdi, bitshift := 0 }
  if s.bitshift ≠ w.ctx.bitsPerXfer then .error .assertFailed
  else
    .ok (.cerContinue, { w with ctx := { w.ctx.putSeq .a s.tms s.tdi with
      bufferedLength := 0
      xfersLeft := dataLenXferCount cmd
      continuation := true } })

/-- `cmdimpl_continue_fast_mem_read`. -/
def cmdimplContinueFastMemRead (w : World) : ExecM :=
  if sub32 64 w.ctx.tdoInDwords < w.ctx.drseqDwordlen then
    .ok (.cerContinue, { w with ctx := { w.ctx with tdoImmediateFlush := true } })
  else if w.ctx.jtagbufA.busy then .ok (.cerAwaitJtagBuf, w)
  else
    let blk := { w.ctx.jtagbufA with
      tdiBits := w.ctx.tdiBitlen
      tdoBits := bit2dword w.ctx.drseqBitlen * 32
      tdoSkipBits := w.ctx.tdoSkipBits
      prepared := true }
    let ctx := { w.ctx with jtagbufA := blk, xfersLeft := sub32 w.ctx.xfersLeft 1 }
    .ok (finishXfers ({ w with ctx }.log (.prepared blk.seq)))

end LoongsonEjtag
