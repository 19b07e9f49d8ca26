import LoongsonEjtag.Dispatched

/-! # Why a call may not return

Bounds on the reasons for which each function can stop.  A command can leave a
JTAG buffer or fail its assertion; only bytes consumed from the ring can run
past the command buffer; and from a free engine nothing waits forever.
-/

namespace LoongsonEjtag

open Lib (Byte Dword forUpTo FailsOnly)
open Wire

/-- An access outside a JTAG buffer, a shift by too much, a failed assertion. -/
def Halt.IsFault : Halt → Prop
  | .outOfBounds | .badShift | .assertFailed => True
  | _ => False

theorem Halt.isFault_outOfBounds (why : Halt) (outside : why = .outOfBounds) : why.IsFault :=
  outside ▸ trivial

/-- Consumed bytes ran past the command buffer. -/
def Halt.IsOverrun : Halt → Prop
  | .consumeOverrun _ _ _ => True
  | _ => False

/-! ## Buffers and bit writers -/

section buffers

variable {n : Nat}

theorem DwordBuf.read_fails (buf : DwordBuf n) (i : Nat) : FailsOnly Halt.IsFault (buf.read i) := by
  rw [DwordBuf.read]
  split
  · exact .ok _
  · exact .error trivial

theorem DwordBuf.write_fails (buf : DwordBuf n) (i : Nat) (value : Dword) :
    FailsOnly Halt.IsFault (buf.write i value) := by
  rw [DwordBuf.write]
  split
  · exact .ok _
  · exact .error trivial

theorem DwordBuf.update_fails (buf : DwordBuf n) (i : Nat) (f : Dword → Dword) :
    FailsOnly Halt.IsFault (buf.update i f) :=
  (buf.read_fails i).bind fun _ _ => buf.write_fails i _

theorem DwordBuf.clear_fails (buf : DwordBuf n) (count : Nat) :
    FailsOnly Halt.IsFault (buf.clear count) := by
  rw [DwordBuf.clear]
  split
  · exact .ok _
  · exact .error trivial

theorem DwordBuf.copyFrom_fails (buf src : DwordBuf n) (count : Nat) :
    FailsOnly Halt.IsFault (buf.copyFrom src count) := by
  rw [DwordBuf.copyFrom]
  split
  · exact .ok _
  · exact .error trivial

section writers

variable (buf : DwordBuf n) (bitshift : Nat) (field : Dword) (bits : Nat)

theorem appendBits_fails : FailsOnly Halt.IsFault (appendBits buf bitshift field bits) := by
  simp only [appendBits]
  split
  · split
    · exact buf.update_fails _ _
    · exact (buf.update_fails _ _).bind fun after _ => after.update_fails _ _
  · exact .error trivial

theorem appendDword_fails : FailsOnly Halt.IsFault (appendDword buf bitshift field) := by
  simp only [appendDword]
  split
  · exact buf.write_fails _ _
  · exact (buf.update_fails _ _).bind fun after _ => after.update_fails _ _

theorem replaceBits_fails : FailsOnly Halt.IsFault (replaceBits buf bitshift field bits) := by
  simp only [replaceBits]
  split
  · split
    · exact buf.update_fails _ _
    · exact (buf.update_fails _ _).bind fun after _ => after.update_fails _ _
  · exact .error trivial

theorem replaceDword_fails : FailsOnly Halt.IsFault (replaceDword buf bitshift field) := by
  simp only [replaceDword]
  split
  · exact buf.write_fails _ _
  · exact (buf.update_fails _ _).bind fun after _ => after.update_fails _ _

end writers

end buffers

/-! ## The engine -/

section engine

variable {n : Nat}

theorem JtagRegs.store_fails (r : JtagRegs n) : FailsOnly (· = Halt.outOfBounds) r.store := by
  rw [JtagRegs.store]
  split
  · exact .error rfl
  · split
    · exact .ok _
    · exact .error rfl

theorem JtagRegs.clockBit_fails (tdo : Nat → Bool) (tdoBits : Nat) (r : JtagRegs n) :
    FailsOnly (· = Halt.outOfBounds) (r.clockBit tdo tdoBits) := by
  simp only [JtagRegs.clockBit]
  split
  · exact (JtagRegs.store_fails _).bind fun _ _ => .ok _
  · exact .ok _

theorem JtagRegs.clockDword_fails (tdi tms : List Dword) (tdo : Nat → Bool) (tdoBits i : Nat)
    (r : JtagRegs n) :
    FailsOnly (· = Halt.outOfBounds) (r.clockDword tdi tms tdo tdoBits i) := by
  simp only [JtagRegs.clockDword]
  split
  · exact (FailsOnly.forUpTo (fun _ x => x.clockBit_fails tdo tdoBits) _ _).bind fun _ _ => .ok _
  · exact .error rfl

end engine

/-- The engine stops only at the end of an array. -/
theorem lsejtagImplRunJtag_fails (w : World) (seq : JtagSeq) (pointer : Option Nat)
    (tdo : Nat → Bool) :
    FailsOnly (· = Halt.outOfBounds) (lsejtagImplRunJtag w seq pointer tdo) := by
  refine FailsOnly.bind ?_ fun _ _ => .ok _
  refine (FailsOnly.forUpTo (fun i r => r.clockDword_fails _ _ tdo _ i) _ _).bind fun r _ => ?_
  split
  · exact r.store_fails
  · exact .ok _

theorem lsejtagRunJtag_fails (w : World) (tdo : Nat → Bool) :
    FailsOnly (fun e => e.IsFault ∨ e = .watermarkPanic) (lsejtagRunJtag w tdo) := by
  simp only [lsejtagRunJtag]
  split
  · exact .ok _
  · split
    · exact .ok _
    · refine FailsOnly.bind ((lsejtagImplRunJtag_fails _ _ _ tdo).mono ?_) fun _ _ => ?_
      · exact fun why outside => .inl (why.isFault_outOfBounds outside)
      split
      · exact .error (.inr rfl)
      · exact .ok _

theorem lsejtagFlushTdo_fails (w : World) (maxSendBytes : Nat) :
    FailsOnly Halt.IsFault (lsejtagFlushTdo w maxSendBytes) := by
  have sends : ∀ dwords, FailsOnly Halt.IsFault (flushDwords w dwords) := by
    intro dwords
    rw [flushDwords]
    split
    · exact .ok _
    · exact .error trivial
  simp only [lsejtagFlushTdo]
  split
  · exact (sends _).bind fun _ _ => .ok _
  · exact (sends _).bind fun _ _ => .ok _

/-! ## Commands -/

section sequences

variable (ctx : LsejtagCtx) (s : SeqBuf)

theorem SeqBuf.appendTms_fails (field : Dword) (bits : Nat) :
    FailsOnly Halt.IsFault (s.appendTms field bits) :=
  (appendBits_fails _ _ _ _).bind fun _ _ => .ok _

theorem SeqBuf.appendTdi_fails (field : Dword) (bits : Nat) :
    FailsOnly Halt.IsFault (s.appendTdi field bits) :=
  (appendBits_fails _ _ _ _).bind fun _ _ => .ok _

theorem appendIr_fails (active : Byte) (coreAt : Nat → Nat) :
    FailsOnly Halt.IsFault (appendIr ctx active coreAt s) := by
  simp only [appendIr]
  split
  · exact .forUpTo (fun _ s => s.appendTdi_fails _ _) _ _
  · exact s.appendTdi_fails _ _

theorem fastMemXfer_fails (useFastdata : Bool) (skipbits : Nat) :
    FailsOnly Halt.IsFault (fastMemXfer ctx useFastdata skipbits s) := by
  simp only [fastMemXfer]
  split
  · exact (s.appendTms_fails _ _).bind fun s _ => SeqBuf.appendTms_fails _ _ _
  · refine (s.appendTms_fails _ _).bind fun s _ => ?_
    refine (appendIr_fails ctx s _ _).bind fun s _ => ?_
    refine (SeqBuf.appendTms_fails _ _ _).bind fun s _ => ?_
    refine (SeqBuf.appendTms_fails _ _ _).bind fun s _ => ?_
    refine (appendIr_fails ctx s _ _).bind fun s _ => ?_
    refine (SeqBuf.appendTms_fails _ _ _).bind fun s _ => ?_
    exact (appendDword_fails _ _ _).bind fun _ _ => SeqBuf.appendTms_fails _ _ _

theorem copyXfer_fails (bitsPerXfer : Nat) : FailsOnly Halt.IsFault (copyXfer bitsPerXfer s) := by
  refine FailsOnly.bind (.forUpTo (fun j s => ?_) _ _) fun s _ => ?_
  · refine (DwordBuf.read_fails _ _).bind fun _ _ => ?_
    refine (appendDword_fails _ _ _).bind fun _ _ => ?_
    refine (DwordBuf.read_fails _ _).bind fun _ _ => ?_
    exact (appendDword_fails _ _ _).bind fun _ _ => .ok _
  · split
    · refine (DwordBuf.read_fails _ _).bind fun _ _ => ?_
      refine (appendBits_fails _ _ _ _).bind fun _ _ => ?_
      refine (DwordBuf.read_fails _ _).bind fun _ _ => ?_
      exact (appendBits_fails _ _ _ _).bind fun _ _ => .ok _
    · exact .ok _

end sequences

theorem databufDword_fails (cmd : List Byte) (i : Nat) :
    FailsOnly Halt.IsFault (databufDword cmd i) := by
  rw [databufDword]
  split
  · exact .ok _
  · exact .error trivial

theorem placeXfer_fails (ctx : LsejtagCtx) (i : Nat) (tdi : DwordBuf) :
    FailsOnly Halt.IsFault (placeXfer ctx i tdi) := by
  refine FailsOnly.bind (.forUpTo (fun j tdi => ?_) _ _) fun tdi _ => ?_
  · exact (databufDword_fails _ _).bind fun _ _ => replaceDword_fails _ _ _
  · split
    · exact (databufDword_fails _ _).bind fun _ _ => replaceBits_fails _ _ _ _
    · exact .ok _

theorem irdrBlock_fails (blk : JtagbufBlk) (cmd : List Byte) (isir : Bool) :
    FailsOnly Halt.IsFault (irdrBlock blk cmd isir) := by
  have data : ∀ i, FailsOnly Halt.IsFault (irseqDword cmd i) := by
    intro i
    rw [irseqDword]
    split
    · exact .ok _
    · exact .error trivial
  have fill : ∀ off i tdi, FailsOnly Halt.IsFault (irdrFillDword cmd off i tdi) := fun off i tdi =>
    (data i).bind fun _ _ => (tdi.update_fails _ _).bind fun tdi _ => tdi.write_fails _ _
  have close : ∀ len off tms, FailsOnly Halt.IsFault (irdrCloseTms len off tms) := by
    intro len off tms
    refine (DwordBuf.update_fails _ _ _).bind fun tms _ => ?_
    split
    · exact tms.write_fails _ _
    · exact .ok _
  refine (DwordBuf.clear_fails _ _).bind fun _ _ => ?_
  refine (DwordBuf.clear_fails _ _).bind fun _ _ => ?_
  refine (DwordBuf.write_fails _ _ _).bind fun _ _ => ?_
  refine (FailsOnly.forUpTo (fun i tdi => fill _ i tdi) _ _).bind fun _ _ => ?_
  exact (close _ _ _).bind fun _ _ => .ok _

section free

variable {w : World} (tdo : Nat → Bool)

theorem waitUntilJtagPeriphFree_fails (free : w.ctx.periphFree = true) :
    FailsOnly Halt.IsFault (waitUntilJtagPeriphFree w) := by
  rw [waitUntilJtagPeriphFree_ok free]
  exact .ok _

theorem selectFastdata_fails (free : w.ctx.periphFree = true) :
    FailsOnly Halt.IsFault (selectFastdata w tdo) := by
  refine (DwordBuf.clear_fails _ _).bind fun _ _ => ?_
  refine (DwordBuf.clear_fails _ _).bind fun _ _ => ?_
  refine (SeqBuf.appendTms_fails _ _ _).bind fun s _ => ?_
  refine (appendIr_fails _ s _ _).bind fun s _ => ?_
  refine (SeqBuf.appendTms_fails _ _ _).bind fun s _ => ?_
  let after : World := { w with ctx := w.ctx.putSeq .a s.tms s.tdi }
  have stillFree : after.ctx.periphFree = true := by simpa [after] using free
  have skipped : lsejtagRunJtag after tdo = .ok after :=
    lsejtagRunJtag_unprepared (LsejtagCtx.preparedBufblk_of_periphFree stillFree) tdo
  rw [skipped, Lib.ok_bind, waitUntilJtagPeriphFree_ok stillFree]
  exact .ok _

theorem selectFastdataIf_fails (select : Bool) (free : w.ctx.periphFree = true) :
    FailsOnly Halt.IsFault (selectFastdataIf select w tdo) := by
  rw [selectFastdataIf]
  split
  · exact selectFastdata_fails tdo free
  · exact .ok _

theorem cmdimplFastMemWrite_fails (useFastdata : Bool) (free : w.ctx.periphFree = true) :
    FailsOnly Halt.IsFault (cmdimplFastMemWrite w useFastdata tdo) := by
  have setupFree : (fastMemWriteSetup w.ctx useFastdata).periphFree = true := free
  simp only [cmdimplFastMemWrite]
  refine FailsOnly.bind (waitUntilJtagPeriphFree_fails setupFree) fun waitedFor waited => ?_
  cases waitUntilJtagPeriphFree_eq waited
  refine FailsOnly.bind (selectFastdataIf_fails tdo _ setupFree) fun _ _ => ?_
  refine (DwordBuf.clear_fails _ _).bind fun _ _ => ?_
  refine (DwordBuf.clear_fails _ _).bind fun _ _ => ?_
  refine (fastMemXfer_fails _ _ _ _).bind fun _ _ => ?_
  split
  · exact .error trivial
  · refine (FailsOnly.forUpTo (fun _ s => copyXfer_fails s _) _ _).bind fun _ _ => ?_
    refine (DwordBuf.copyFrom_fails _ _ _).bind fun _ _ => ?_
    exact (DwordBuf.copyFrom_fails _ _ _).bind fun _ _ => .ok _

theorem cmdimplFastMemRead_fails (useFastdata : Bool) (free : w.ctx.periphFree = true) :
    FailsOnly Halt.IsFault (cmdimplFastMemRead w useFastdata tdo) := by
  have setupFree : (fastMemReadSetup w.ctx useFastdata).periphFree = true := free
  simp only [cmdimplFastMemRead]
  refine FailsOnly.bind (waitUntilJtagPeriphFree_fails setupFree) fun waitedFor waited => ?_
  cases waitUntilJtagPeriphFree_eq waited
  refine FailsOnly.bind (selectFastdataIf_fails tdo _ setupFree) fun _ _ => ?_
  refine (DwordBuf.clear_fails _ _).bind fun _ _ => ?_
  refine (DwordBuf.clear_fails _ _).bind fun _ _ => ?_
  refine (fastMemXfer_fails _ _ _ _).bind fun _ _ => ?_
  split
  · exact .error trivial
  · exact .ok _

theorem cmdimplIoManip_fails (free : w.ctx.periphFree = true) (small : w.ctx.tdoInDwords ≤ 64) :
    FailsOnly Halt.IsFault (cmdimplIoManip w tdo) := by
  simp only [cmdimplIoManip]
  split
  · exact .ok _
  · refine FailsOnly.bind ?_ fun _ _ => .ok _
    simp only [ioManipPort]
    split
    · exact .ok _
    · exact .ok _
    · exact .ok _
    · exact .ok _
    · rw [waitUntilJtagPeriphFree_ok free, Lib.ok_bind]
      have faults := (lsejtagImplRunJtag_fails (w.log (.runDirect tapResetSeq)) tapResetSeq none
        tdo).mono Halt.isFault_outOfBounds
      refine faults.bind fun after ran => ?_
      obtain rfl := lsejtagImplRunJtag_silent (w := w.log _) free small rfl ran
      exact waitUntilJtagPeriphFree_fails free
    · exact .ok _

theorem cmdimplProbeMemRw_fails (txFree : Nat) (free : w.ctx.periphFree = true) :
    FailsOnly Halt.IsFault (cmdimplProbeMemRw w txFree) := by
  simp only [cmdimplProbeMemRw]
  split
  · refine FailsOnly.bind ?_ fun _ _ => .ok _
    simp only [probeMemWrite]
    split
    · split
      · have stillFree : ({ w.ctx with
            paramJtagClkDiv := (highestBit (dataToWrite w.ctx.cmd) 16).getD 0 } :
            LsejtagCtx).periphFree = true := free
        exact FailsOnly.bind (waitUntilJtagPeriphFree_fails stillFree) fun _ _ => .ok _
      · exact .ok _
      · exact .ok _
    all_goals exact .ok _
  · split
    · exact .ok _
    · exact .ok _

/-- A command that starts fresh fails only by a fault of its own. -/
theorem executeCommand_fails (txFree : Nat) (free : w.ctx.periphFree = true)
    (small : w.ctx.tdoInDwords ≤ 64) : FailsOnly Halt.IsFault (executeCommand w txFree tdo) := by
  have irdr : ∀ isir, FailsOnly Halt.IsFault (cmdimplIrdrWrite w isir) := by
    intro isir
    simp only [cmdimplIrdrWrite, LsejtagCtx.freeJtagbuf_of_periphFree free]
    split
    · exact .ok _
    · exact (irdrBlock_fails _ _ _).bind fun _ _ => .ok _
  simp only [executeCommand]
  split
  · exact cmdimplProbeMemRw_fails txFree free
  · exact cmdimplIoManip_fails tdo free small
  · exact irdr true
  · exact irdr false
  · exact .ok _
  · exact cmdimplFastMemWrite_fails tdo true free
  · exact cmdimplFastMemWrite_fails tdo false free
  · exact cmdimplFastMemRead_fails tdo true free
  · exact cmdimplFastMemRead_fails tdo false free
  · simp only [cmdimplGetFirmwareDate]
    split
    · exact .ok _
    · exact .ok _
  · exact .ok _

end free

/-! ## Consuming -/

theorem lsejtagImplUsbrxConsume_fails (w : World) (offset len : Nat) :
    FailsOnly Halt.IsOverrun (lsejtagImplUsbrxConsume w offset len) := by
  rw [lsejtagImplUsbrxConsume]
  split
  · exact .ok _
  · exact .error trivial

theorem bufferMore_fails (w : World) (len : Nat) :
    FailsOnly Halt.IsOverrun (bufferMore w len) :=
  (lsejtagImplUsbrxConsume_fails w _ len).bind fun _ _ => .ok _

theorem waitPayload_fails (w : World) (lenRx : Nat) :
    FailsOnly Halt.IsOverrun (waitPayload w lenRx) := by
  simp only [waitPayload]
  split
  · exact (bufferMore_fails w _).bind fun _ _ => .ok _
  · exact (bufferMore_fails w _).bind fun _ _ => .ok _

theorem bufferRest_fails (w : World) (lenRx : Nat) :
    FailsOnly Halt.IsOverrun (bufferRest w lenRx) :=
  (bufferMore_fails w lenRx).bind fun _ _ => .ok _

theorem waitFastCfg_fails (w : World) (expectLen lenRx lenAvail : Nat) :
    FailsOnly Halt.IsOverrun (waitFastCfg w expectLen lenRx lenAvail) := by
  simp only [waitFastCfg]
  split
  · exact (bufferMore_fails w _).bind fun _ _ => .ok _
  · exact bufferRest_fails w lenRx

theorem waitCfg_fails (w : World) (lenRx lenAvail : Nat) :
    FailsOnly Halt.IsOverrun (waitCfg w lenRx lenAvail) := by
  have irdr : FailsOnly Halt.IsOverrun (waitIrdrCfg w lenRx lenAvail) := by
    simp only [waitIrdrCfg]
    split
    · refine (bufferMore_fails w _).bind fun _ _ => ?_
      split
      · exact .ok _
      · exact waitPayload_fails _ _
    · exact bufferRest_fails w lenRx
  simp only [waitCfg]
  split
  · exact waitPayload_fails _ _
  · exact .ok _
  · exact .ok _
  · exact irdr
  · exact irdr
  · simp only [waitLoopbackCfg]
    split
    · exact (lsejtagImplUsbrxConsume_fails w _ _).bind fun _ _ => .ok _
    · exact bufferRest_fails w lenRx
  · exact waitFastCfg_fails w _ _ _
  · exact waitFastCfg_fails w _ _ _
  · exact waitFastCfg_fails w _ _ _
  · exact waitFastCfg_fails w _ _ _
  · exact .ok _

theorem dispatchCmdBuf_fails (w : World) : FailsOnly Halt.IsOverrun (dispatchCmdBuf w) := by
  have header : ∀ offset len buffered state,
      FailsOnly Halt.IsOverrun (fetchHeader w offset len buffered state) :=
    fun offset len _ _ => (lsejtagImplUsbrxConsume_fails w offset len).bind fun _ _ => .ok _
  simp only [dispatchCmdBuf]
  split
  · split
    · exact .ok _
    · split
      · exact (header _ _ _ _).bind fun _ _ => .ok _
      · exact (header _ _ _ _).bind fun _ _ => waitCfg_fails _ _ _
  · split
    · exact .ok _
    · exact (header _ _ _ _).bind fun _ _ => waitCfg_fails _ _ _
  · exact waitCfg_fails _ _ _
  · exact waitPayload_fails _ _
  · exact .ok _

/-- `lsejtag_dispatch` fails only where it consumes. -/
theorem lsejtagDispatch_fails (w : World) : FailsOnly Halt.IsOverrun (lsejtagDispatch w) := by
  simp only [lsejtagDispatch]
  split
  · exact .ok _
  · split
    · exact .ok _
    · split
      · exact .ok _
      · split
        · exact .ok _
        · exact dispatchCmdBuf_fails w

/-- A fast write is being continued and fails to fetch payload. -/
def FetchFails (w : World) (why : Halt) : Prop :=
  (∃ fastdata, LsejtagCmdOp.ofCode? w.ctx.contOp = some (writeOp fastdata)) ∧
    fetchPayload { w with ctx := truncateXfers w.ctx } = .error why

/-- A continuation fails by a fault, or where it fetches payload. -/
theorem lsejtagExecuteContinuation_fails {w : World} (free : w.ctx.periphFree = true) :
    FailsOnly (fun e => e.IsFault ∨ FetchFails w e) (lsejtagExecuteContinuation w) := by
  have write : ∀ fastdata, LsejtagCmdOp.ofCode? w.ctx.contOp = some (writeOp fastdata) →
      FailsOnly (fun e => e.IsFault ∨ FetchFails w e) (cmdimplContinueFastMemWrite w) := by
    intro fastdata isOp
    refine FailsOnly.bind (fun e failed => .inr ⟨⟨fastdata, isOp⟩, failed⟩)
      fun ⟨complete, middle⟩ fetch => ?_
    have middleFree : middle.ctx.periphFree = true :=
      (fetchPayload_fetched fetch).periphFree.trans ((truncateXfers_periphFree w.ctx).trans free)
    refine FailsOnly.mono (E := Halt.IsFault) ?_ fun _ => .inl
    cases complete with
    | false => exact .ok _
    | true =>
      simp only [if_true, prepareWriteBlock, LsejtagCtx.freeJtagbuf_of_periphFree middleFree]
      exact (FailsOnly.forUpTo (placeXfer_fails _) _ _).bind fun _ _ => .ok _
  have read : FailsOnly Halt.IsFault (cmdimplContinueFastMemRead w) := by
    simp only [cmdimplContinueFastMemRead]
    split
    · exact .ok _
    · split
      · exact .ok _
      · exact .ok _
  simp only [lsejtagExecuteContinuation]
  split
  · exact write true ‹_›
  · exact write false ‹_›
  · exact read.mono fun _ => .inl
  · exact read.mono fun _ => .inl
  · exact .ok _

theorem fetchPayload_fails (w : World) : FailsOnly Halt.IsOverrun (fetchPayload w) := by
  simp only [fetchPayload]
  split
  · split
    · exact (lsejtagImplUsbrxConsume_fails _ _ _).bind fun _ _ => .ok _
    · exact (lsejtagImplUsbrxConsume_fails _ _ _).bind fun _ _ => .ok _
  · exact .ok _

/-- From a free engine `lsejtag_execute` fails by a fault of the command, or
    where a continuation fetches payload. -/
theorem lsejtagExecute_fails {w : World} (txFree : Nat) (tdo : Nat → Bool)
    (free : w.ctx.periphFree = true) (small : w.ctx.tdoInDwords ≤ 64) :
    FailsOnly (fun e => e.IsFault ∨ w.ctx.continuation = true ∧ FetchFails w e)
      (lsejtagExecute w txFree tdo) := by
  simp only [lsejtagExecute]
  split
  · exact .ok _
  · split
    · rename_i continues
      exact (lsejtagExecuteContinuation_fails free).mono fun _ => .imp_right (⟨continues, ·⟩)
    · exact (executeCommand_fails tdo txFree free small).mono fun _ => .inl

end LoongsonEjtag
