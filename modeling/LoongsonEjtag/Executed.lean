import LoongsonEjtag.Dispatch
import LoongsonEjtag.Capture

/-! # What a call of `lsejtag_execute` can do

`Executed w r w'` lists the ways a call that starts with a free JTAG engine can
return, one constructor for each, and `lsejtagExecute_executed` shows that there
are no others.  Every invariant of the main loop is proved from this list.
-/

namespace LoongsonEjtag

open Lib (Byte u32 sub32 forUpTo bind_eq_ok)
open Wire

/-! ## Consuming payload -/

theorem lsejtagImplUsbrxConsume_ok {w w' : World} {offset len : Nat}
    (consumed : lsejtagImplUsbrxConsume w offset len = .ok w') :
    ∃ buf, copyToCmd w.ctx.bufferedCmd offset (w.rx.take len) = some buf ∧
      w' = ⟨{ w.ctx with bufferedCmd := buf }, w.rx.drop len,
        w.trace ++ [.consume offset len w.rx.length (w.rx.take len)]⟩ := by
  simp only [lsejtagImplUsbrxConsume] at consumed
  split at consumed
  · rename_i buf copied
    exact ⟨buf, copied, by simpa using consumed.symm⟩
  · cases consumed

/-- `w` after `len` bytes were consumed to the end of the buffered command,
    which now holds `buf`. -/
def World.fed (w : World) (buf : Vector Byte 256) (len : Nat) : World :=
  ⟨{ w.ctx with bufferedCmd := buf, bufferedLength := u32 (w.ctx.bufferedLength + len) },
    w.rx.drop len,
    w.trace ++ [.consume w.ctx.bufferedLength len w.rx.length (w.rx.take len)]⟩

/-- The ways `fetchPayload` can return. -/
inductive PayloadFetched (w : World) : Bool → World → Prop
  | enough (complete : blockBytes w.ctx ≤ w.ctx.bufferedLength) : PayloadFetched w true w
  | filled (buf : Vector Byte 256) (missing : w.ctx.bufferedLength < blockBytes w.ctx)
      (arrived : blockBytes w.ctx ≤ u32 (w.ctx.bufferedLength + w.rx.length))
      (copied : copyToCmd w.ctx.bufferedCmd w.ctx.bufferedLength
        (w.rx.take (sub32 (blockBytes w.ctx) w.ctx.bufferedLength)) = some buf) :
      PayloadFetched w true (w.fed buf (sub32 (blockBytes w.ctx) w.ctx.bufferedLength))
  | short (buf : Vector Byte 256) (missing : w.ctx.bufferedLength < blockBytes w.ctx)
      (waiting : u32 (w.ctx.bufferedLength + w.rx.length) < blockBytes w.ctx)
      (copied : copyToCmd w.ctx.bufferedCmd w.ctx.bufferedLength (w.rx.take w.rx.length) =
        some buf) :
      PayloadFetched w false (w.fed buf w.rx.length)

theorem fetchPayload_fetched {w w' : World} {complete : Bool}
    (fetched : fetchPayload w = .ok (complete, w')) : PayloadFetched w complete w' := by
  simp only [fetchPayload] at fetched
  split at fetched
  · rename_i missing
    split at fetched
    · rename_i arrived
      obtain ⟨after, consumed, finished⟩ := bind_eq_ok.mp fetched
      obtain ⟨buf, copied, rfl⟩ := lsejtagImplUsbrxConsume_ok consumed
      cases finished
      exact .filled buf missing arrived copied
    · rename_i waiting
      obtain ⟨after, consumed, finished⟩ := bind_eq_ok.mp fetched
      obtain ⟨buf, copied, rfl⟩ := lsejtagImplUsbrxConsume_ok consumed
      cases finished
      exact .short buf missing (by omega) copied
  · rename_i complete
    cases fetched
    exact .enough (by omega)

theorem PayloadFetched.returns {w w' : World} {complete : Bool}
    (fetched : PayloadFetched w complete w') : fetchPayload w = .ok (complete, w') := by
  cases fetched with
  | enough complete => rw [fetchPayload, if_neg (by omega)]
  | filled buf missing arrived copied =>
    simp [fetchPayload, missing, arrived, lsejtagImplUsbrxConsume, copied, World.fed]
  | short buf missing waiting copied =>
    simp only [List.take_length] at copied
    simp [fetchPayload, missing, Nat.not_le_of_lt waiting, lsejtagImplUsbrxConsume, copied,
      World.fed]

/-! ## The free JTAG engine -/

namespace LsejtagCtx

/-- With a free engine all busy flags are down and no block is prepared. -/
theorem periphFree_iff {ctx : LsejtagCtx} : ctx.periphFree = true ↔
    (ctx.jtagbufA.tdiBusy = false ∧ ctx.jtagbufA.tmsBusy = false ∧
      ctx.jtagbufA.prepared = false) ∧
    (ctx.jtagbufB.tdiBusy = false ∧ ctx.jtagbufB.tmsBusy = false ∧
      ctx.jtagbufB.prepared = false) ∧ ctx.tdoBusy = false := by
  simp [periphFree, JtagbufBlk.busy, and_assoc]

theorem freeJtagbuf_of_periphFree {ctx : LsejtagCtx} (free : ctx.periphFree = true) :
    ctx.freeJtagbuf = some .a := by
  obtain ⟨⟨tdi, tms, prepared⟩, -⟩ := periphFree_iff.mp free
  simp [freeJtagbuf, JtagbufBlk.busy, tdi, tms, prepared]

theorem preparedBufblk_of_periphFree {ctx : LsejtagCtx} (free : ctx.periphFree = true) :
    ctx.preparedBufblk = none := by
  obtain ⟨⟨-, -, preparedA⟩, ⟨-, -, preparedB⟩, -⟩ := periphFree_iff.mp free
  simp [preparedBufblk, preparedA, preparedB]

end LsejtagCtx

theorem waitUntilJtagPeriphFree_ok {w : World} (free : w.ctx.periphFree = true) :
    waitUntilJtagPeriphFree w = .ok w := by
  simp [waitUntilJtagPeriphFree, free]

/-- `select_fastdata` leaves nothing but its sequence in `jtagbuf_a`: it never
    marks the block as prepared, so its `lsejtag_run_jtag` finds none. -/
theorem selectFastdata_ok {w w' : World} {tdo : Nat → Bool} (free : w.ctx.periphFree = true)
    (selected : selectFastdata w tdo = .ok w') :
    ∃ tms tdi, w' = { w with ctx := w.ctx.putSeq .a tms tdi } := by
  obtain ⟨_, -, selected⟩ := bind_eq_ok.mp selected
  obtain ⟨_, -, selected⟩ := bind_eq_ok.mp selected
  obtain ⟨_, -, selected⟩ := bind_eq_ok.mp selected
  obtain ⟨_, -, selected⟩ := bind_eq_ok.mp selected
  obtain ⟨s, -, selected⟩ := bind_eq_ok.mp selected
  let after : World := { w with ctx := w.ctx.putSeq .a s.tms s.tdi }
  have stillFree : after.ctx.periphFree = true := by simpa [after] using free
  have skipped : lsejtagRunJtag after tdo = .ok after :=
    lsejtagRunJtag_unprepared (LsejtagCtx.preparedBufblk_of_periphFree stillFree) tdo
  rw [skipped, Lib.ok_bind, waitUntilJtagPeriphFree_ok stillFree] at selected
  exact ⟨s.tms, s.tdi, (Except.ok.inj selected).symm⟩

/-! ## The list of outcomes -/

/-- The commands whose every success cleans the command buffer: all but the
    loopback test and I/O ports above the maximum. -/
def cleansUp (cmd : List Byte) : Bool :=
  match op cmd with
  | some .opLoopbackTest | none => false
  | some .opIoManip => portId cmd ≤ ioMaximum
  | some _ => true

/-- The IR and DR scans. -/
def isIrdr (cmd : List Byte) : Prop := op cmd = some .opIrRw ∨ op cmd = some .opDrRw

instance (cmd : List Byte) : Decidable (isIrdr cmd) := inferInstanceAs (Decidable (_ ∨ _))

/-- The commands that are done in one call without a scan. -/
def isAtOnce (cmd : List Byte) : Prop :=
  op cmd = some .opProbeMemRw ∨ op cmd = some .opIoManip ∨ op cmd = some .opGetFirmwareDate

theorem isAtOnce.noScan {cmd : List Byte} (atOnce : isAtOnce cmd) : ¬isIrdr cmd := by
  obtain isOp | isOp | isOp := atOnce <;> simp [isIrdr, isOp]

/-- The op code of a fast write. -/
def writeOp (fastdata : Bool) : LsejtagCmdOp :=
  if fastdata then .opFastTargetMemWriteFastdata else .opFastTargetMemWrite

/-- The op code of a fast read. -/
def readOp (fastdata : Bool) : LsejtagCmdOp :=
  if fastdata then .opFastTargetMemReadFastdata else .opFastTargetMemRead

/-- A block that is ready and not yet running. -/
structure JtagbufBlk.Ready (blk : JtagbufBlk) : Prop where
  tdiIdle : blk.tdiBusy = false
  tmsIdle : blk.tmsBusy = false
  prepared : blk.prepared = true

/-- `w` after a continuation made `blk` ready, with `left` transfers to go. -/
def World.placed (w : World) (blk : JtagbufBlk) (buffered left : Nat) : World :=
  { w with ctx := { w.ctx with
      jtagbufA := blk, bufferedLength := buffered, xfersLeft := left } }.log (.prepared blk.seq)

/-- The ways `lsejtag_execute` can return when it starts with a free engine. -/
inductive Executed (w : World) : LsejtagCmdExecResult → World → Prop
  /-- No room for the answer. -/
  | awaitTx (fresh : w.ctx.continuation = false) : Executed w .cerAwaitUsbTx w
  /-- No room for the dwords of a scan. -/
  | awaitFlush (fresh : w.ctx.continuation = false) (irdr : isIrdr w.ctx.cmd)
      (full : sub32 256 (u32 (4 * w.ctx.tdoInDwords)) < returnDataLenRequired w.ctx) :
      Executed w .cerAwaitUsbTx { w with ctx := { w.ctx with tdoShouldFlush := true } }
  /-- A command that is done at once. -/
  | answered (fresh : w.ctx.continuation = false) (cleans : cleansUp w.ctx.cmd = true)
      (atOnce : isAtOnce w.ctx.cmd) (params : JtagParams) (es : List Event)
      (answers : AllAnswers es) :
      Executed w .cerSuccess
        ⟨cmdBufClean { w.ctx with toJtagParams := params }, w.rx, w.trace ++ es⟩
  /-- The TAP reset, which runs a sequence of its own. -/
  | tapReset (fresh : w.ctx.continuation = false) (cleans : cleansUp w.ctx.cmd = true)
      (atOnce : isAtOnce w.ctx.cmd) (es : List Event) (answers : AllAnswers es) :
      Executed w .cerSuccess
        ⟨cmdBufClean { w.ctx with tdoHaveNewData := true }, w.rx, w.trace ++ es⟩
  /-- Success without cleaning the command buffer. -/
  | kept (fresh : w.ctx.continuation = false) (cleans : cleansUp w.ctx.cmd = false) :
      Executed w .cerSuccess w
  /-- A scan is ready. -/
  | scanned (fresh : w.ctx.continuation = false) (irdr : isIrdr w.ctx.cmd)
      (fits : returnDataLenRequired w.ctx ≤ sub32 256 (u32 (4 * w.ctx.tdoInDwords)))
      (blk : JtagbufBlk) (ready : blk.Ready)
      (tdoBits : blk.tdoBits = if readBack w.ctx.cmd then irseqLenBits w.ctx.cmd else 0)
      (immediate : blk.immediateFlushTdo = immediateSendBack w.ctx.cmd) :
      Executed w .cerSuccess
        ({ w with ctx := cmdBufClean { w.ctx with jtagbufA := blk } }.log (.prepared blk.seq))
  /-- A fast write is set up. -/
  | writeStarted (fresh : w.ctx.continuation = false) (fastdata : Bool)
      (isOp : op w.ctx.cmd = some (writeOp fastdata)) (tmsA tdiA tmsB tdiB : DwordBuf) :
      Executed w .cerContinue
        ⟨{ ((fastMemWriteSetup w.ctx fastdata).putSeq .a tmsA tdiA).putSeq .b tmsB tdiB with
            bufferedLength := 0
            xfersLeft := dataLenXferCount w.ctx.cmd
            continuation := true },
          w.rx, w.trace ++ [.reconfigure .implRecfgClkfreq (jtagClkDiv w.ctx.cmd)]⟩
  /-- A fast read is set up. -/
  | readStarted (fresh : w.ctx.continuation = false) (fastdata : Bool)
      (isOp : op w.ctx.cmd = some (readOp fastdata)) (tms tdi : DwordBuf) :
      Executed w .cerContinue
        ⟨{ (fastMemReadSetup w.ctx fastdata).putSeq .a tms tdi with
            bufferedLength := 0
            xfersLeft := dataLenXferCount w.ctx.cmd
            continuation := true },
          w.rx, w.trace ++ [.reconfigure .implRecfgClkfreq (jtagClkDiv w.ctx.cmd)]⟩
  /-- A fast write still misses payload for its next block. -/
  | payloadShort (continues : w.ctx.continuation = true) (fastdata : Bool)
      (isOp : LsejtagCmdOp.ofCode? w.ctx.contOp = some (writeOp fastdata)) (w' : World)
      (fetched : PayloadFetched { w with ctx := truncateXfers w.ctx } false w') :
      Executed w .cerContinue w'
  /-- The next block of a fast write is ready. -/
  | blockWritten (continues : w.ctx.continuation = true) (fastdata : Bool)
      (isOp : LsejtagCmdOp.ofCode? w.ctx.contOp = some (writeOp fastdata)) (middle : World)
      (fetched : PayloadFetched { w with ctx := truncateXfers w.ctx } true middle)
      (tdi : DwordBuf)
      (filled : forUpTo (placeXfer middle.ctx) middle.ctx.xfersPerBufblk
        middle.ctx.jtagbufA.tdiData = .ok tdi)
      (r : LsejtagCmdExecResult) (w' : World)
      (ends : (r, w') = finishXfers (middle.placed
        { middle.ctx.jtagbufA with
            tdiData := tdi, tdiBits := middle.ctx.tdiBitlen, tdoBits := 0, prepared := true }
        0 (sub32 middle.ctx.xfersLeft middle.ctx.xfersPerBufblk))) :
      Executed w r w'
  /-- No room for the dwords of a fast read. -/
  | readFull (continues : w.ctx.continuation = true) (fastdata : Bool)
      (isOp : LsejtagCmdOp.ofCode? w.ctx.contOp = some (readOp fastdata))
      (full : sub32 64 w.ctx.tdoInDwords < w.ctx.drseqDwordlen) :
      Executed w .cerContinue { w with ctx := { w.ctx with tdoImmediateFlush := true } }
  /-- The next block of a fast read is ready. -/
  | blockRead (continues : w.ctx.continuation = true) (fastdata : Bool)
      (isOp : LsejtagCmdOp.ofCode? w.ctx.contOp = some (readOp fastdata))
      (fits : w.ctx.drseqDwordlen ≤ sub32 64 w.ctx.tdoInDwords)
      (r : LsejtagCmdExecResult) (w' : World)
      (ends : (r, w') = finishXfers (w.placed
        { w.ctx.jtagbufA with
            tdiBits := w.ctx.tdiBitlen
            tdoBits := bit2dword w.ctx.drseqBitlen * 32
            tdoSkipBits := w.ctx.tdoSkipBits
            prepared := true }
        w.ctx.bufferedLength (sub32 w.ctx.xfersLeft 1))) :
      Executed w r w'
  /-- A continuation of no known command. -/
  | badContinue (continues : w.ctx.continuation = true)
      (unknown : ∀ fastdata, LsejtagCmdOp.ofCode? w.ctx.contOp ≠ some (writeOp fastdata) ∧
        LsejtagCmdOp.ofCode? w.ctx.contOp ≠ some (readOp fastdata)) :
      Executed w .cerBadContinue w

/-! ## One lemma for each command -/

section commands

variable {w w' : World} {r : LsejtagCmdExecResult} {tdo : Nat → Bool}

theorem waitUntilJtagPeriphFree_eq (waited : waitUntilJtagPeriphFree w = .ok w') : w' = w := by
  simp only [waitUntilJtagPeriphFree] at waited
  split at waited
  · exact (Except.ok.inj waited).symm
  · cases waited

/-- Completing an engine that is free changes nothing. -/
theorem completeActive_free {ctx : LsejtagCtx} (free : ctx.periphFree = true) :
    ctx.completeActive = ctx := by
  obtain ⟨⟨tdiA, tmsA, -⟩, ⟨tdiB, tmsB, -⟩, -⟩ := LsejtagCtx.periphFree_iff.mp free
  rw [LsejtagCtx.completeActive]
  split
  · rfl
  · rename_i id _
    have idle : (ctx.jtagbuf id).completed = ctx.jtagbuf id := by
      cases id with
      | a => exact JtagbufBlk.completed_eq tdiA tmsA
      | b => exact JtagbufBlk.completed_eq tdiB tmsB
    rw [idle, LsejtagCtx.setJtagbuf_jtagbuf]

theorem completeTdo_zero {ctx : LsejtagCtx} (free : ctx.periphFree = true)
    (small : ctx.tdoInDwords ≤ 64) :
    ctx.completeTdo 0 = { ctx with tdoHaveNewData := true } := by
  have notBusy : ctx.tdoBusy = false := (LsejtagCtx.periphFree_iff.mp free).2.2
  have count : u32 ctx.tdoInDwords = ctx.tdoInDwords := Lib.u32_eq (by omega)
  simp [LsejtagCtx.completeTdo, count, ← notBusy]

/-- A sequence without TDO leaves only the flag for new data behind. -/
theorem lsejtagImplRunJtag_silent {seq : JtagSeq} {pointer : Option Nat}
    (free : w.ctx.periphFree = true) (small : w.ctx.tdoInDwords ≤ 64) (silent : seq.tdoBits = 0)
    (ran : lsejtagImplRunJtag w seq pointer tdo = .ok w') :
    w' = ⟨{ w.ctx with tdoHaveNewData := true }, w.rx,
      w.trace ++ [.complete w.ctx.activeBufblk, .completeTdo []]⟩ := by
  obtain ⟨regs, shifted, completed⟩ := bind_eq_ok.mp ran
  obtain ⟨sameBuf, nothing⟩ := jtagShift_silent silent shifted
  simp only [JtagRegs.dwords] at nothing
  rw [sameBuf, nothing] at completed
  cases completed
  change lsejtagJtagCompleteTdo (lsejtagJtagComplete w) 0 = _
  simp [lsejtagJtagCompleteTdo, lsejtagJtagComplete, completeActive_free free,
    completeTdo_zero free small, World.log]

theorem probeMemWrite_ok (wrote : probeMemWrite w = .ok w') :
    ∃ params es, (∀ e ∈ es, ∃ type param, e = .reconfigure type param) ∧
      w' = ⟨{ w.ctx with toJtagParams := params }, w.rx, w.trace ++ es⟩ := by
  have silent : ∀ params : JtagParams,
      .ok { w with ctx := { w.ctx with toJtagParams := params } } = (.ok w' : Except Halt World) →
      ∃ params es, (∀ e ∈ es, ∃ type param, e = .reconfigure type param) ∧
        w' = ⟨{ w.ctx with toJtagParams := params }, w.rx, w.trace ++ es⟩ :=
    fun params wrote => ⟨params, [], nofun, by simpa using (Except.ok.inj wrote).symm⟩
  simp only [probeMemWrite] at wrote
  split at wrote
  · split at wrote
    · obtain ⟨after, waited, finished⟩ := bind_eq_ok.mp wrote
      cases waitUntilJtagPeriphFree_eq waited
      cases finished
      refine ⟨_, [.reconfigure .implRecfgClkfreq _], ?_, rfl⟩
      exact fun e member => ⟨_, _, List.mem_singleton.mp member⟩
    · exact silent _ wrote
    · exact silent w.ctx.toJtagParams wrote
  all_goals exact silent _ wrote

theorem cmdimplProbeMemRw_executed {txFree : Nat} (fresh : w.ctx.continuation = false)
    (isOp : op w.ctx.cmd = some .opProbeMemRw)
    (executed : cmdimplProbeMemRw w txFree = .ok (r, w')) : Executed w r w' := by
  have cleans : cleansUp w.ctx.cmd = true := by simp [cleansUp, isOp]
  have atOnce : isAtOnce w.ctx.cmd := by simp [isAtOnce, isOp]
  simp only [cmdimplProbeMemRw] at executed
  split at executed
  · obtain ⟨after, wrote, finished⟩ := bind_eq_ok.mp executed
    obtain ⟨params, es, reconfigures, rfl⟩ := probeMemWrite_ok wrote
    cases finished
    have answers : AllAnswers es := by
      intro e member
      obtain ⟨_, _, rfl⟩ := reconfigures e member
      rfl
    exact .answered fresh cleans atOnce params es answers
  · split at executed
    · cases executed
      exact .awaitTx fresh
    · cases executed
      exact .answered fresh cleans atOnce w.ctx.toJtagParams [.respond _]
        (by simp [AllAnswers, Event.isAnswer])

theorem cmdimplGetFirmwareDate_executed {txFree : Nat} (fresh : w.ctx.continuation = false)
    (isOp : op w.ctx.cmd = some .opGetFirmwareDate)
    (executed : cmdimplGetFirmwareDate w txFree = .ok (r, w')) : Executed w r w' := by
  have cleans : cleansUp w.ctx.cmd = true := by simp [cleansUp, isOp]
  have atOnce : isAtOnce w.ctx.cmd := by simp [isAtOnce, isOp]
  simp only [cmdimplGetFirmwareDate] at executed
  split at executed
  · cases executed
    exact .awaitTx fresh
  · cases executed
    exact .answered fresh cleans atOnce w.ctx.toJtagParams [.respond _]
        (by simp [AllAnswers, Event.isAnswer])

theorem cmdimplIoManip_executed (free : w.ctx.periphFree = true)
    (small : w.ctx.tdoInDwords ≤ 64) (fresh : w.ctx.continuation = false)
    (isOp : op w.ctx.cmd = some .opIoManip)
    (executed : cmdimplIoManip w tdo = .ok (r, w')) : Executed w r w' := by
  simp only [cmdimplIoManip] at executed
  split at executed
  · rename_i above
    cases executed
    exact .kept fresh (by simpa [cleansUp, isOp] using above)
  · rename_i within
    have cleans : cleansUp w.ctx.cmd = true := by simpa [cleansUp, isOp] using within
    have atOnce : isAtOnce w.ctx.cmd := by simp [isAtOnce, isOp]
    obtain ⟨after, port, finished⟩ := bind_eq_ok.mp executed
    cases finished
    have answered : ∀ e : Event, e.isAnswer = true →
        Executed w .cerSuccess ⟨cmdBufClean w.ctx, w.rx, w.trace ++ [e]⟩ := fun e answer =>
      .answered fresh cleans atOnce w.ctx.toJtagParams [e] (by simpa [AllAnswers] using answer)
    simp only [ioManipPort] at port
    split at port
    · cases port
      exact answered (.ioManip .implIoLed _) rfl
    · cases port
      exact answered (.ioManip .implIoTrst _) rfl
    · cases port
      exact answered (.ioManip .implIoBrst _) rfl
    · cases port
      exact answered (.ioManip .implIoDint _) rfl
    · rw [waitUntilJtagPeriphFree_ok free, Lib.ok_bind] at port
      obtain ⟨ran, direct, waited⟩ := bind_eq_ok.mp port
      cases waitUntilJtagPeriphFree_eq waited
      obtain rfl := lsejtagImplRunJtag_silent (w := w.log _) free small rfl
        direct
      simp only [World.trace_log, List.append_assoc]
      exact .tapReset fresh cleans atOnce _ (by simp [AllAnswers, Event.isAnswer])
    · cases port
      simpa using Executed.answered fresh cleans atOnce w.ctx.toJtagParams [] (by simp [AllAnswers])

/-- How the block of a scan is filled in. -/
theorem irdrBlock_built {blk blk' : JtagbufBlk} {cmd : List Byte} {isir : Bool}
    (built : irdrBlock blk cmd isir = .ok blk') :
    ∃ (tms tdi staged filled closed : DwordBuf),
      DwordBuf.clear blk.tmsData (bit2dword (irdrOffset isir + irseqLenBits cmd + 2)) = .ok tms ∧
      DwordBuf.clear blk.tdiData (bit2dword (irdrOffset isir + irseqLenBits cmd + 2)) = .ok tdi ∧
      tms.write 0 (if isir then 0x6 else 0x2) = .ok staged ∧
      forUpTo (irdrFillDword cmd (irdrOffset isir)) (bit2dword (irseqLenBits cmd)) tdi =
        .ok filled ∧
      irdrCloseTms (irseqLenBits cmd) (irdrOffset isir) staged = .ok closed ∧
      blk' = { blk with
        tdiData := filled
        tmsData := closed
        tdiBits := irdrOffset isir + irseqLenBits cmd + 2
        tdoSkipBits := if readBack cmd then irdrOffset isir else blk.tdoSkipBits
        tdoBits := if readBack cmd then irseqLenBits cmd else 0
        immediateFlushTdo := immediateSendBack cmd
        prepared := true } := by
  obtain ⟨tms, clearTms, built⟩ := bind_eq_ok.mp built
  obtain ⟨tdi, clearTdi, built⟩ := bind_eq_ok.mp built
  obtain ⟨staged, stage, built⟩ := bind_eq_ok.mp built
  obtain ⟨filled, fill, built⟩ := bind_eq_ok.mp built
  obtain ⟨closed, close, built⟩ := bind_eq_ok.mp built
  cases built
  exact ⟨tms, tdi, staged, filled, closed, clearTms, clearTdi, stage, fill, close, rfl⟩

theorem irdrBlock_ok {blk blk' : JtagbufBlk} {cmd : List Byte} {isir : Bool}
    (built : irdrBlock blk cmd isir = .ok blk') :
    blk'.tdiBusy = blk.tdiBusy ∧ blk'.tmsBusy = blk.tmsBusy ∧ blk'.prepared = true ∧
      blk'.tdoBits = (if readBack cmd then irseqLenBits cmd else 0) ∧
      blk'.immediateFlushTdo = immediateSendBack cmd := by
  obtain ⟨_, _, _, _, _, -, -, -, -, -, rfl⟩ := irdrBlock_built built
  exact ⟨rfl, rfl, rfl, rfl, rfl⟩

theorem cmdimplIrdrWrite_executed {isir : Bool} (free : w.ctx.periphFree = true)
    (fresh : w.ctx.continuation = false) (irdr : isIrdr w.ctx.cmd)
    (executed : cmdimplIrdrWrite w isir = .ok (r, w')) : Executed w r w' := by
  simp only [cmdimplIrdrWrite, LsejtagCtx.freeJtagbuf_of_periphFree free] at executed
  split at executed
  · rename_i full
    cases executed
    exact .awaitFlush fresh irdr full
  · rename_i fits
    obtain ⟨blk, built, finished⟩ := bind_eq_ok.mp executed
    cases finished
    obtain ⟨tdiBusy, tmsBusy, prepared, tdoBits, immediate⟩ := irdrBlock_ok built
    obtain ⟨⟨tdi, tms, -⟩, -⟩ := LsejtagCtx.periphFree_iff.mp free
    exact .scanned fresh irdr (by omega) blk ⟨tdiBusy.trans tdi, tmsBusy.trans tms, prepared⟩
      tdoBits immediate

/-- The fast commands may select FASTDATA first. -/
theorem selectFastdataIf_ok {select : Bool} (selected : selectFastdataIf select w tdo = .ok w')
    (free : w.ctx.periphFree = true) :
    w' = w ∨ ∃ tms tdi, w' = { w with ctx := w.ctx.putSeq .a tms tdi } := by
  rw [selectFastdataIf] at selected
  split at selected
  · exact .inr (selectFastdata_ok free selected)
  · exact .inl (Except.ok.inj selected).symm

/-- A write that starts has built one transfer in a cleared area, of the length
    that was computed for it, has copied it behind itself, and has copied block A to
    block B. -/
theorem cmdimplFastMemWrite_built {fastdata : Bool}
    (executed : cmdimplFastMemWrite w fastdata tdo = .ok (r, w')) :
    w.ctx.periphFree = true ∧ r = .cerContinue ∧
      ∃ (selected : World) (tms tdi tmsB tdiB : DwordBuf) (s s' : SeqBuf),
      selectFastdataIf (fastdata && (fastMemWriteSetup w.ctx fastdata).coreCount ≠ 0)
        ({ w with ctx := fastMemWriteSetup w.ctx fastdata }.log
          (.reconfigure .implRecfgClkfreq (jtagClkDiv w.ctx.cmd))) tdo = .ok selected ∧
      DwordBuf.clear selected.ctx.jtagbufA.tmsData
        (bit2dword (fastMemWriteSetup w.ctx fastdata).bitsPerXfer *
          (fastMemWriteSetup w.ctx fastdata).xfersPerBufblk) = .ok tms ∧
      DwordBuf.clear selected.ctx.jtagbufA.tdiData
        (bit2dword (fastMemWriteSetup w.ctx fastdata).bitsPerXfer *
          (fastMemWriteSetup w.ctx fastdata).xfersPerBufblk) = .ok tdi ∧
      fastMemXfer selected.ctx fastdata ((fastMemWriteSetup w.ctx fastdata).coreCount - 1)
        { tms, tdi, bitshift := 0 } = .ok s ∧
      s.bitshift = (fastMemWriteSetup w.ctx fastdata).bitsPerXfer ∧
      forUpTo (fun _ => copyXfer (fastMemWriteSetup w.ctx fastdata).bitsPerXfer)
        ((fastMemWriteSetup w.ctx fastdata).xfersPerBufblk - 1) s = .ok s' ∧
      DwordBuf.copyFrom selected.ctx.jtagbufB.tmsData s'.tms
        (bit2dword (fastMemWriteSetup w.ctx fastdata).tdiBitlen) = .ok tmsB ∧
      DwordBuf.copyFrom selected.ctx.jtagbufB.tdiData s'.tdi
        (bit2dword (fastMemWriteSetup w.ctx fastdata).tdiBitlen) = .ok tdiB ∧
      w' = ⟨{ ((fastMemWriteSetup w.ctx fastdata).putSeq .a s'.tms s'.tdi).putSeq .b tmsB tdiB with
          bufferedLength := 0
          xfersLeft := dataLenXferCount w.ctx.cmd
          continuation := true },
        w.rx, w.trace ++ [.reconfigure .implRecfgClkfreq (jtagClkDiv w.ctx.cmd)]⟩ := by
  have skips : (if (fastMemWriteSetup w.ctx fastdata).coreCount ≠ 0 then
      (fastMemWriteSetup w.ctx fastdata).coreCount - 1 else 0) =
        (fastMemWriteSetup w.ctx fastdata).coreCount - 1 := by
    split <;> omega
  simp only [cmdimplFastMemWrite, skips] at executed
  obtain ⟨waitedFor, waited, executed⟩ := bind_eq_ok.mp executed
  have free : (fastMemWriteSetup w.ctx fastdata).periphFree = true := by
    simp only [waitUntilJtagPeriphFree] at waited
    split at waited
    · assumption
    · cases waited
  cases waitUntilJtagPeriphFree_eq waited
  obtain ⟨selected, select, executed⟩ := bind_eq_ok.mp executed
  obtain ⟨tms, clearTms, executed⟩ := bind_eq_ok.mp executed
  obtain ⟨tdi, clearTdi, executed⟩ := bind_eq_ok.mp executed
  obtain ⟨s, first, executed⟩ := bind_eq_ok.mp executed
  split at executed
  · cases executed
  rename_i passed
  obtain ⟨s', copied, executed⟩ := bind_eq_ok.mp executed
  obtain ⟨tmsB, copyTms, executed⟩ := bind_eq_ok.mp executed
  obtain ⟨tdiB, copyTdi, executed⟩ := bind_eq_ok.mp executed
  cases executed
  have result := selectFastdataIf_ok select free
  refine ⟨free, rfl, selected, tms, tdi, tmsB, tdiB, s, s', select, ?_⟩
  -- The FASTDATA scan is in block A, which is cleared behind it.
  obtain rfl | ⟨_, _, rfl⟩ := result
  · exact ⟨clearTms, clearTdi, first, not_not.mp passed, copied, copyTms, copyTdi, rfl⟩
  · simp only [LsejtagCtx.putSeq_putSeq]
    exact ⟨clearTms, clearTdi, first, not_not.mp passed, copied, copyTms, copyTdi, rfl⟩

/-- What a fast write leaves when it is set up. -/
theorem cmdimplFastMemWrite_ok {fastdata : Bool}
    (executed : cmdimplFastMemWrite w fastdata tdo = .ok (r, w')) :
    w.ctx.periphFree = true ∧ r = .cerContinue ∧ ∃ tmsA tdiA tmsB tdiB, w' =
      ⟨{ ((fastMemWriteSetup w.ctx fastdata).putSeq .a tmsA tdiA).putSeq .b tmsB tdiB with
          bufferedLength := 0
          xfersLeft := dataLenXferCount w.ctx.cmd
          continuation := true },
        w.rx, w.trace ++ [.reconfigure .implRecfgClkfreq (jtagClkDiv w.ctx.cmd)]⟩ := by
  obtain ⟨free, continues, _, _, _, tmsB, tdiB, _, s', -, -, -, -, -, -, -, -, isStart⟩ :=
    cmdimplFastMemWrite_built executed
  exact ⟨free, continues, s'.tms, s'.tdi, tmsB, tdiB, isStart⟩

theorem cmdimplFastMemWrite_executed {fastdata : Bool} (fresh : w.ctx.continuation = false)
    (isOp : op w.ctx.cmd = some (writeOp fastdata))
    (executed : cmdimplFastMemWrite w fastdata tdo = .ok (r, w')) : Executed w r w' := by
  obtain ⟨-, rfl, tmsA, tdiA, tmsB, tdiB, rfl⟩ := cmdimplFastMemWrite_ok executed
  exact .writeStarted fresh fastdata isOp tmsA tdiA tmsB tdiB

/-- A read that starts has built one transfer in a cleared area, of the length
    that was computed for it. -/
theorem cmdimplFastMemRead_ok {fastdata : Bool} (free : w.ctx.periphFree = true)
    (executed : cmdimplFastMemRead w fastdata tdo = .ok (r, w')) :
    r = .cerContinue ∧ ∃ (selected : World) (tms tdi : DwordBuf) (s : SeqBuf),
      selectFastdataIf fastdata ({ w with ctx := fastMemReadSetup w.ctx fastdata }.log
        (.reconfigure .implRecfgClkfreq (jtagClkDiv w.ctx.cmd))) tdo = .ok selected ∧
      DwordBuf.clear selected.ctx.jtagbufA.tmsData
        (bit2dword (fastMemReadSetup w.ctx fastdata).bitsPerXfer) = .ok tms ∧
      DwordBuf.clear selected.ctx.jtagbufA.tdiData
        (bit2dword (fastMemReadSetup w.ctx fastdata).bitsPerXfer) = .ok tdi ∧
      fastMemXfer selected.ctx fastdata ((fastMemReadSetup w.ctx fastdata).coreCount - 1)
        { tms, tdi, bitshift := 0 } = .ok s ∧
      s.bitshift = (fastMemReadSetup w.ctx fastdata).bitsPerXfer ∧
      w' = ⟨{ (fastMemReadSetup w.ctx fastdata).putSeq .a s.tms s.tdi with
          bufferedLength := 0
          xfersLeft := dataLenXferCount w.ctx.cmd
          continuation := true },
        w.rx, w.trace ++ [.reconfigure .implRecfgClkfreq (jtagClkDiv w.ctx.cmd)]⟩ := by
  have setupFree : (fastMemReadSetup w.ctx fastdata).periphFree = true := free
  simp only [cmdimplFastMemRead] at executed
  obtain ⟨waitedFor, waited, executed⟩ := bind_eq_ok.mp executed
  cases waitUntilJtagPeriphFree_eq waited
  obtain ⟨selected, select, executed⟩ := bind_eq_ok.mp executed
  obtain ⟨tms, clearTms, executed⟩ := bind_eq_ok.mp executed
  obtain ⟨tdi, clearTdi, executed⟩ := bind_eq_ok.mp executed
  obtain ⟨s, built, executed⟩ := bind_eq_ok.mp executed
  split at executed
  · cases executed
  rename_i passed
  cases executed
  have result := selectFastdataIf_ok select setupFree
  refine ⟨rfl, selected, tms, tdi, s, select, ?_⟩
  obtain rfl | ⟨_, _, rfl⟩ := result
  · exact ⟨clearTms, clearTdi, built, not_not.mp passed, rfl⟩
  · simp only [LsejtagCtx.putSeq_putSeq]
    exact ⟨clearTms, clearTdi, built, not_not.mp passed, rfl⟩

theorem cmdimplFastMemRead_executed {fastdata : Bool} (free : w.ctx.periphFree = true)
    (fresh : w.ctx.continuation = false) (isOp : op w.ctx.cmd = some (readOp fastdata))
    (executed : cmdimplFastMemRead w fastdata tdo = .ok (r, w')) : Executed w r w' := by
  obtain ⟨rfl, _, _, _, s, -, -, -, -, -, rfl⟩ := cmdimplFastMemRead_ok free executed
  exact .readStarted fresh fastdata isOp s.tms s.tdi

theorem truncateXfers_periphFree (ctx : LsejtagCtx) :
    (truncateXfers ctx).periphFree = ctx.periphFree := by
  rw [truncateXfers]
  split <;> rfl

theorem PayloadFetched.periphFree {complete : Bool} (fetched : PayloadFetched w complete w') :
    w'.ctx.periphFree = w.ctx.periphFree := by
  cases fetched <;> rfl

theorem cmdimplContinueFastMemWrite_executed (fastdata : Bool) (free : w.ctx.periphFree = true)
    (continues : w.ctx.continuation = true)
    (isOp : LsejtagCmdOp.ofCode? w.ctx.contOp = some (writeOp fastdata))
    (executed : cmdimplContinueFastMemWrite w = .ok (r, w')) : Executed w r w' := by
  obtain ⟨⟨complete, middle⟩, fetch, executed⟩ := bind_eq_ok.mp executed
  have fetched := fetchPayload_fetched fetch
  have middleFree : middle.ctx.periphFree = true :=
    fetched.periphFree.trans ((truncateXfers_periphFree w.ctx).trans free)
  cases complete with
  | false =>
    cases executed
    exact .payloadShort continues fastdata isOp w' fetched
  | true =>
    simp only [if_true, prepareWriteBlock, LsejtagCtx.freeJtagbuf_of_periphFree middleFree]
      at executed
    obtain ⟨tdi, filled, finished⟩ := bind_eq_ok.mp executed
    exact .blockWritten continues fastdata isOp middle fetched tdi filled r w'
      (Except.ok.inj finished).symm

theorem cmdimplContinueFastMemRead_executed (fastdata : Bool) (free : w.ctx.periphFree = true)
    (continues : w.ctx.continuation = true)
    (isOp : LsejtagCmdOp.ofCode? w.ctx.contOp = some (readOp fastdata))
    (executed : cmdimplContinueFastMemRead w = .ok (r, w')) : Executed w r w' := by
  obtain ⟨⟨tdi, tms, prepared⟩, -⟩ := LsejtagCtx.periphFree_iff.mp free
  have notBusy : w.ctx.jtagbufA.busy = false := by simp [JtagbufBlk.busy, tdi, tms, prepared]
  simp only [cmdimplContinueFastMemRead, notBusy, Bool.false_eq_true, if_false] at executed
  split at executed
  · rename_i full
    cases executed
    exact .readFull continues fastdata isOp full
  · rename_i fits
    exact .blockRead continues fastdata isOp (by omega) r w' (Except.ok.inj executed).symm

theorem lsejtagExecuteContinuation_executed (free : w.ctx.periphFree = true)
    (continues : w.ctx.continuation = true)
    (executed : lsejtagExecuteContinuation w = .ok (r, w')) : Executed w r w' := by
  simp only [lsejtagExecuteContinuation] at executed
  split at executed
  · exact cmdimplContinueFastMemWrite_executed true free continues ‹_› executed
  · exact cmdimplContinueFastMemWrite_executed false free continues ‹_› executed
  · exact cmdimplContinueFastMemRead_executed true free continues ‹_› executed
  · exact cmdimplContinueFastMemRead_executed false free continues ‹_› executed
  · cases executed
    refine .badContinue continues fun fastdata => ?_
    cases fastdata <;> simp_all [writeOp, readOp]

theorem executeCommand_executed {txFree : Nat} (free : w.ctx.periphFree = true)
    (small : w.ctx.tdoInDwords ≤ 64) (fresh : w.ctx.continuation = false)
    (executed : executeCommand w txFree tdo = .ok (r, w')) : Executed w r w' := by
  simp only [executeCommand] at executed
  split at executed
  · exact cmdimplProbeMemRw_executed fresh ‹_› executed
  · exact cmdimplIoManip_executed free small fresh ‹_› executed
  · exact cmdimplIrdrWrite_executed free fresh (.inl ‹_›) executed
  · exact cmdimplIrdrWrite_executed free fresh (.inr ‹_›) executed
  · rename_i loopback
    cases executed
    exact .kept fresh (by simp [cleansUp, loopback])
  · exact cmdimplFastMemWrite_executed fresh ‹_› executed
  · exact cmdimplFastMemWrite_executed fresh ‹_› executed
  · exact cmdimplFastMemRead_executed free fresh ‹_› executed
  · exact cmdimplFastMemRead_executed free fresh ‹_› executed
  · exact cmdimplGetFirmwareDate_executed fresh ‹_› executed
  · rename_i unknown
    cases executed
    exact .kept fresh (by simp [cleansUp, unknown])

/-- Every return of `lsejtag_execute` from a free engine is one of the list. -/
theorem lsejtagExecute_executed {txFree : Nat} (free : w.ctx.periphFree = true)
    (small : w.ctx.tdoInDwords ≤ 64) (ready : w.ctx.cmdBufState = .cbsExecute)
    (executed : lsejtagExecute w txFree tdo = .ok (r, w')) : Executed w r w' := by
  simp only [lsejtagExecute, ready, ne_eq, not_true_eq_false, if_false] at executed
  split at executed
  · exact lsejtagExecuteContinuation_executed free ‹_› executed
  · rename_i fresh
    exact executeCommand_executed free small (by simpa using fresh) executed

end commands

end LoongsonEjtag
