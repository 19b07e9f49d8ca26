import LoongsonEjtag.Progress
import LoongsonEjtag.TdoOrder
import LoongsonEjtag.TdoRoom
import LoongsonEjtag.TdoStream
import LoongsonEjtag.ReadSetup

/-! # The start of a fast read

What a fast read is to return, what it needs for that in the state its setup
leaves, and the calls that the main loop makes for it.

* `FastReadReturns` — everything that was asked for is sent.
* `ReadGoesThrough` — the flag of the block, the ring and the layout are as needed.
* `readIsSetUp` — what every setup that succeeds leaves.
-/

namespace LoongsonEjtag

open Lib (u32 u32_eq sub32 sub32_eq dwordsBytes)
open Lib.Machine (anyAction)
open Wire

/-! ## What a read is to return -/

namespace Event

/-- Events of running a block and sending what it collected. -/
def isSending : Event → Bool
  | .usbOut _ | .runBlock _ | .complete _ | .completeTdo _ | .flush _ => true
  | .consume _ _ _ _ | .respond _ | .ioManip _ _ | .reconfigure _ _ | .prepared _ | .runDirect _
  | .execute _ _ | .executed _ => false

/-- Events of a read that goes on. -/
def isReading : Event → Bool
  | .prepared _ => true
  | .execute continuation _ => continuation
  | .executed r => r = .cerContinue
  | e => e.isSending

end Event

def AllSending (t : List Event) : Prop := ∀ e ∈ t, e.isSending = true

def AllReading (t : List Event) : Prop := ∀ e ∈ t, e.isReading = true

/-- The scan of a read that is set up. -/
def LsejtagCtx.readSeq (ctx : LsejtagCtx) : JtagSeq :=
  ⟨ctx.jtagbufA.tdiData.toList, ctx.jtagbufA.tmsData.toList, ctx.tdiBitlen,
    bit2dword ctx.drseqBitlen * 32, ctx.tdoSkipBits⟩

section returns

variable (start : MainState)

/-- `scans` has the scans of the read that is set up in `start`, `sends` what
    follows `cer_success`, and all that was collected by then is sent. -/
structure ReadSent (scans sends : List Event) : Prop where
  reading : AllReading scans
  sending : AllSending sends
  prepared : preparedSeqs scans =
    List.replicate start.world.ctx.xfersLeft start.world.ctx.readSeq
  collected : (reported (scans ++ sends)).length =
    start.world.ctx.xfersLeft * start.world.ctx.drseqDwordlen
  sent : flushed (scans ++ sends) =
    dwordsBytes start.world.ctx.pendingDwords ++ dwordsBytes (reported (scans ++ sends))

/-- `es`, which followed `start`, has the whole read in it. -/
def ReadFinished (es : List Event) : Prop :=
  ∃ scans sends rest, es = scans ++ .executed .cerSuccess :: sends ++ rest ∧
    ReadSent start scans sends

/-- `es` has the start of the read in it: some of the scans, or all of them and
    `cer_success`. -/
def ReadUnderway (es : List Event) : Prop :=
  (AllReading es ∧ ∃ scans ≤ start.world.ctx.xfersLeft - 1,
      preparedSeqs es = List.replicate scans start.world.ctx.readSeq) ∨
    ∃ scans sends, es = scans ++ .executed .cerSuccess :: sends ∧ AllReading scans ∧
      AllSending sends ∧ preparedSeqs scans =
        List.replicate start.world.ctx.xfersLeft start.world.ctx.readSeq

end returns

/-- Calls that are lost where a flush finds no room for a dword: the flush, and
    the dispatch that asks for it again. -/
def starvedCalls (s : MainState) : MainInput → Nat
  | .usbOut _ => 0
  | .poll txFree _ => if s.pc = .flushTdo ∧ txFree < 4 then 2 else 0

/-- Calls a read needs: two for each dword that is sent, two each for preparing
    and running a scan, and two to ask for a flush. -/
def LsejtagCtx.readCalls (ctx : LsejtagCtx) : Nat :=
  2 + 2 * ctx.tdoInDwords + ctx.xfersLeft * (2 * ctx.drseqDwordlen + 4)

/-- However the main loop goes on, the read is whole, or it is under way and the
    loop has not made the calls it needs and those that found no room. -/
def FastReadReturns (start : MainState) : Prop :=
  ∀ inputs s, mainLoop.run anyAction start inputs = some s →
    ∃ es, s.world.trace = start.world.trace ++ es ∧
      (ReadFinished start es ∨
        ReadUnderway start es ∧ s.Running ∧ mainLoop.total mainCalls start inputs <
          start.world.ctx.readCalls + mainLoop.total starvedCalls start inputs)

/-! ## When it does -/

/-- Where in the TDO buffer the first scan starts: behind what is there, or in
    front if it has to be sent before. -/
def LsejtagCtx.firstScanAt (ctx : LsejtagCtx) : Nat :=
  if ctx.tdoInDwords + ctx.drseqDwordlen ≤ 64 then ctx.tdoInDwords else 0

/-- What the flow of a read depends on and its setup leaves as it is, or takes as
    it comes: a count that is not zero, a block that has its data flushed, bytes
    in the ring, and scans that sample their last dword inside the TDO buffer. -/
structure ReadGoesThrough (w : World) : Prop where
  counted : w.ctx.xfersLeft ≠ 0
  asks : w.ctx.jtagbufA.immediateFlushTdo = true
  waiting : w.rx ≠ []
  samples : w.ctx.tdoSkipBits + 32 * (w.ctx.drseqDwordlen - 1) < w.ctx.tdiBitlen
  room : w.ctx.readSeq.StoresFit w.ctx.firstScanAt

/-- `lsejtag_execute` continues a fast read. -/
structure ContinuesRead (ctx : LsejtagCtx) : Prop where
  continues : ctx.continuation = true
  ready : ctx.cmdBufState = .cbsExecute
  isOp : ∃ fastdata, LsejtagCmdOp.ofCode? ctx.contOp = some (readOp fastdata)

/-- A read is set up in `ctx`. -/
structure ReadIsSetUp (ctx : LsejtagCtx) : Prop where
  quiet : ctx.Quiet
  continues : ContinuesRead ctx
  consumed : ctx.bufferedLength = 0
  sized : DrseqSized ctx
  some : 1 ≤ ctx.drseqDwordlen
  few : ctx.drseqDwordlen ≤ 64
  fits : ctx.tdiBitlen ≤ 2048
  small : ctx.xfersLeft < 2 ^ 32
  new : ctx.tdoInDwords ≠ 0 → ctx.tdoHaveNewData = true

/-! ## Collected dwords are announced -/

/-- Whatever is in the TDO queue is announced as new, or on its way out. -/
def Announced (ctx : LsejtagCtx) : Prop :=
  ctx.tdoInDwords ≠ 0 → ctx.tdoHaveNewData = true ∨ ctx.tdoShouldFlush = true

theorem SameEngine.announced {ctx ctx' : LsejtagCtx} (same : SameEngine ctx ctx')
    (before : Announced ctx) : Announced ctx' := by
  rw [Announced, same.tdo]
  exact before

theorem finishXfers_announced {w w' : World} {blk : JtagbufBlk} {buffered left : Nat}
    {r : LsejtagCmdExecResult} (ends : (r, w') = finishXfers (w.placed blk buffered left))
    (before : Announced w.ctx) : Announced w'.ctx :=
  (finishXfers_same ends).1.announced before

theorem Executed.announced {w w' : World} {r : LsejtagCmdExecResult} (executed : Executed w r w')
    (before : Announced w.ctx) : Announced w'.ctx := by
  cases executed with
  | awaitFlush => exact fun _ => .inr rfl
  | tapReset => exact fun _ => .inl rfl
  | payloadShort _ _ _ _ fetched =>
    exact ((SameEngine.truncateXfers w.ctx).trans fetched.moved.sameEngine).announced before
  | blockWritten _ _ _ _ fetched _ _ _ _ ends =>
    have same := (SameEngine.truncateXfers w.ctx).trans fetched.moved.sameEngine
    exact finishXfers_announced ends (same.announced before)
  | blockRead _ _ _ _ _ _ ends => exact finishXfers_announced ends before
  | _ => exact before

theorem flushedTdo_announced {ctx : LsejtagCtx} (should : ctx.tdoShouldFlush = true)
    (dwords : Nat) : Announced (ctx.flushedTdo dwords) := by
  rw [LsejtagCtx.flushedTdo]
  split
  · exact fun some => absurd rfl some
  · exact fun _ => .inr should

theorem mainLoop_announced {s : MainState} (reach : mainLoop.Reachable s) :
    Announced s.world.ctx := by
  apply reach.invariant (P := fun s => Announced s.world.ctx)
  · rintro s rfl some
    exact absurd rfl some
  · intro s s' input reach before _ stepped
    cases mainStep_stepped (mainLoop_inv reach) stepped with
    | dispatched _ r w' dispatched =>
      cases dispatched with
      | flushNew => exact fun _ => .inr rfl
      | parsed _ _ _ _ parsed =>
        obtain ⟨-, rfl, -⟩ | returned := dispatchCmdBuf_returned parsed
        · exact before
        · exact returned.moved.sameEngine.announced before
      | _ => exact before
    | executed _ _ _ r w' executed => exact executed.announced before
    | flushed _ should dwords _ w' ctx =>
      rw [ctx]
      exact flushedTdo_announced should dwords
    | ran _ _ _ w' _ ran =>
      rw [ran.ctx]
      exact fun _ => .inl rfl
    | _ => exact before

/-! ## After the setup -/

theorem executeCommand_read {w : World} {fastdata : Bool}
    (isOp : op w.ctx.cmd = some (readOp fastdata)) (txFree : Nat) (tdo : Nat → Bool) :
    executeCommand w txFree tdo = cmdimplFastMemRead w fastdata tdo := by
  cases fastdata <;> simp only [executeCommand, isOp, readOp] <;> rfl

theorem cmdimplFastMemRead_sets_up {w w' : World} {fastdata : Bool} {tdo : Nat → Bool}
    {r : LsejtagCmdExecResult} (quiet : w.ctx.Quiet) (free : w.ctx.periphFree = true)
    (ready : w.ctx.cmdBufState = .cbsExecute) (isOp : op w.ctx.cmd = some (readOp fastdata))
    (announced : Announced w.ctx) (returned : cmdimplFastMemRead w fastdata tdo = .ok (r, w')) :
    ReadIsSetUp w'.ctx := by
  obtain ⟨-, _, _, _, s, -, clearTms, -, -, -, rfl⟩ := cmdimplFastMemRead_ok free returned
  have area := DwordBuf.clear_inside clearTms
  have cores := readCores_bounds w.ctx.cmd
  have dr := drseqBitlen_readSetup w.ctx fastdata
  have width := cpuWidth_bounds w.ctx
  refine ⟨⟨quiet.noFlush, quiet.noNewData, quiet.noBlockA, quiet.noBlockB⟩,
    ⟨rfl, ready, fastdata, isOp⟩, rfl, rfl, ?_, ?_, ?_, ?_, ?_⟩
  · change 1 ≤ bit2dword (fastMemReadSetup w.ctx fastdata).drseqBitlen
    rw [dr, bit2dword]
    omega
  · change bit2dword (fastMemReadSetup w.ctx fastdata).drseqBitlen ≤ 64
    rw [dr, bit2dword]
    split <;> omega
  · change (fastMemReadSetup w.ctx fastdata).bitsPerXfer ≤ 2048
    rw [bit2dword] at area
    omega
  · exact Lib.le32_lt _ _
  · intro some
    have announced := announced some
    rw [quiet.noFlush, Bool.false_eq_true, or_false] at announced
    exact announced

/-- The state behind a setup that succeeded. -/
theorem readIsSetUp {s start : MainState} {fastdata : Bool} {txFree : Nat} {tdo : Nat → Bool}
    (reach : mainLoop.Reachable s) (at_pc : s.pc = .execute)
    (fresh : s.world.ctx.continuation = false)
    (isOp : op s.world.ctx.cmd = some (readOp fastdata))
    (stepped : mainStep s (.poll txFree tdo) = some start) (returned : start.pc = .dispatch) :
    ReadIsSetUp start.world.ctx := by
  have inv := mainLoop_inv reach
  obtain ⟨quiet, ready⟩ := inv.pc.execute at_pc
  have free : s.world.enterExecute.ctx.periphFree = true :=
    inv.engine.idle.periphFree quiet.noBlockA
  have executes : lsejtagExecute s.world.enterExecute txFree tdo =
      cmdimplFastMemRead s.world.enterExecute fastdata tdo := by
    have notReady : ¬s.world.enterExecute.ctx.cmdBufState ≠ .cbsExecute := not_not.mpr ready
    have notContinued : ¬s.world.enterExecute.ctx.continuation = true := by
      rw [World.enterExecute, World.ctx_log, fresh]
      decide
    rw [lsejtagExecute, if_neg notReady, if_neg notContinued]
    exact executeCommand_read (w := s.world.enterExecute) isOp txFree tdo
  simp only [mainStep, mainPoll, at_pc, executes] at stepped
  split at stepped
  · rename_i r w' setUp
    cases stepped
    have isSetUp : ReadIsSetUp w'.ctx := cmdimplFastMemRead_sets_up (w := s.world.enterExecute)
      quiet free ready isOp (mainLoop_announced reach) setUp
    exact isSetUp
  · cases stepped
    cases returned

/-! ## The calls of a read -/

section calls

variable {w : World}

theorem lsejtagDispatch_scan (quiet : w.ctx.Quiet) (ready : w.ctx.cmdBufState = .cbsExecute)
    (waiting : w.rx ≠ []) : lsejtagDispatch w = .ok (.dprExecute, w) := by
  rw [lsejtagDispatch_quiet quiet fun ⟨noRx, _⟩ => waiting noRx]
  simp only [dispatchCmdBuf, ready]

theorem lsejtagDispatch_run (calm : w.ctx.tdoShouldFlush = false)
    (old : (w.ctx.tdoImmediateFlush && w.ctx.tdoHaveNewData) = false)
    (prepared : w.ctx.jtagbufA.prepared = true) :
    lsejtagDispatch w = .ok (.dprRunJtag, w) := by
  simp [lsejtagDispatch, calm, old, prepared]

/-- A flush that is due is dispatched, and is no longer news then. -/
theorem lsejtagDispatch_send (due : w.ctx.tdoShouldFlush = true ∨
      (w.ctx.tdoImmediateFlush && w.ctx.tdoHaveNewData) = true) :
    ∃ new, lsejtagDispatch w = .ok (.dprFlushTdo, { w with ctx := { w.ctx with
      tdoHaveNewData := new, tdoShouldFlush := true } }) := by
  by_cases should : w.ctx.tdoShouldFlush = true
  · refine ⟨w.ctx.tdoHaveNewData, ?_⟩
    have same : { w with ctx := { w.ctx with tdoShouldFlush := true } } = w := by
      rw [← should]
    rw [lsejtagDispatch, if_pos should, same]
  · refine ⟨false, ?_⟩
    rw [lsejtagDispatch, if_neg should, if_pos (due.resolve_left should)]

/-- The block the continuation makes ready. -/
def LsejtagCtx.readBlk (ctx : LsejtagCtx) : JtagbufBlk :=
  { ctx.jtagbufA with
    tdiBits := ctx.tdiBitlen
    tdoBits := bit2dword ctx.drseqBitlen * 32
    tdoSkipBits := ctx.tdoSkipBits
    prepared := true }

section continues

variable (reads : ContinuesRead w.ctx) (txFree : Nat) (tdo : Nat → Bool)
include reads

theorem lsejtagExecute_read :
    lsejtagExecute w txFree tdo = cmdimplContinueFastMemRead w := by
  obtain ⟨continues, ready, fastdata, isOp⟩ := reads
  rw [lsejtagExecute, if_neg (not_not.mpr ready), if_pos continues, lsejtagExecuteContinuation,
    isOp]
  cases fastdata <;> rfl

/-- Without room for a scan the continuation asks for a flush. -/
theorem lsejtagExecute_full (bounded : w.ctx.tdoInDwords ≤ 64)
    (full : 64 < w.ctx.tdoInDwords + w.ctx.drseqDwordlen) :
    lsejtagExecute w txFree tdo =
      .ok (.cerContinue, { w with ctx := { w.ctx with tdoImmediateFlush := true } }) := by
  rw [lsejtagExecute_read reads txFree tdo, cmdimplContinueFastMemRead,
    sub32_eq bounded (by decide), if_pos (by omega)]

theorem lsejtagExecute_scan (bounded : w.ctx.tdoInDwords ≤ 64)
    (fits : w.ctx.tdoInDwords + w.ctx.drseqDwordlen ≤ 64)
    (free : w.ctx.periphFree = true) :
    lsejtagExecute w txFree tdo = .ok (finishXfers
      (w.placed w.ctx.readBlk w.ctx.bufferedLength (sub32 w.ctx.xfersLeft 1))) := by
  have notBusy : ¬w.ctx.jtagbufA.busy = true := by
    obtain ⟨⟨tdi, tms, prepared⟩, -⟩ := LsejtagCtx.periphFree_iff.mp free
    simp [JtagbufBlk.busy, tdi, tms, prepared]
  rw [lsejtagExecute_read reads txFree tdo, cmdimplContinueFastMemRead,
    sub32_eq bounded (by decide), if_neg (by omega), if_neg notBusy]
  rfl

end continues

/-- The command ends with its last transfer. -/
theorem finishXfers_left {w' : World} {r : LsejtagCmdExecResult}
    (ends : (r, w') = finishXfers w) :
    r = (if w.ctx.xfersLeft = 0 then .cerSuccess else .cerContinue) ∧
      (w.ctx.xfersLeft ≠ 0 → w' = w) := by
  rw [finishXfers] at ends
  split at ends
  · rename_i last
    cases ends
    exact ⟨(if_pos last).symm, fun more => absurd last more⟩
  · rename_i more
    cases ends
    exact ⟨(if_neg more).symm, fun _ => rfl⟩

theorem flushedTdo_keeps (ctx : LsejtagCtx) (dwords : Nat) :
    (ctx.flushedTdo dwords).toContCtx = ctx.toContCtx ∧
      (ctx.flushedTdo dwords).cmdBufState = ctx.cmdBufState ∧
      (ctx.flushedTdo dwords).jtagbufA = ctx.jtagbufA := by
  rw [LsejtagCtx.flushedTdo]
  split <;> exact ⟨rfl, rfl, rfl⟩

/-- A block is run exactly if all its stores are inside the TDO buffer and it samples
    as many dwords as the watermark check expects. -/
theorem lsejtagRunJtag_runs_iff (tdo : Nat → Bool) (idle : w.ctx.periphWorking = false)
    (prepared : w.ctx.jtagbufA.prepared = true) (fits : w.ctx.jtagbufA.tdiBits ≤ 2048)
    (bounded : w.ctx.tdoInDwords ≤ 64) :
    (∃ w', lsejtagRunJtag w tdo = .ok w') ↔
      w.ctx.jtagbufA.seq.StoresFit w.ctx.tdoDmaPtr ∧
        (w.ctx.jtagbufA.seq.tdoSampled w.ctx.jtagbufA.tdiBits + 31) / 32 =
          u32 (w.ctx.jtagbufA.tdoBits + 31) / 32 := by
  have picked : w.ctx.preparedBufblk = some .a := by
    rw [LsejtagCtx.preparedBufblk, if_pos prepared]
  have mark : (w.ctx.startBufblk .a).tdoInDwords = w.ctx.tdoInDwords := rfl
  obtain ⟨goes, stops⟩ := blockRun_decided
    ({ w with ctx := w.ctx.startBufblk .a }.log (.runBlock w.ctx.jtagbufA.seq)) tdo fits
    w.ctx.tdoDmaPtr
  simp only [lsejtagRunJtag, idle, picked, Bool.false_eq_true, if_false, LsejtagCtx.jtagbuf_a]
  by_cases room : w.ctx.jtagbufA.seq.StoresFit w.ctx.tdoDmaPtr
  · obtain ⟨r, w', ran, -, dwords, -, captured⟩ := goes room
    have sampled : w.ctx.jtagbufA.seq.tdoSampled w.ctx.jtagbufA.tdiBits ≤
        w.ctx.jtagbufA.tdiBits := Nat.le_trans (Nat.min_le_right _ _) (Nat.sub_le _ _)
    have reports : r.dwords =
        (w.ctx.jtagbufA.seq.tdoSampled w.ctx.jtagbufA.tdiBits + 31) / 32 := captured.dwords_eq
    have expected := Lib.u32_lt (w.ctx.jtagbufA.tdoBits + 31)
    rw [World.ctx_log, mark, reports, u32_eq (by omega)] at dwords
    have whole : u32 (w.ctx.tdoInDwords + u32 (w.ctx.jtagbufA.tdoBits + 31) / 32) =
        w.ctx.tdoInDwords + u32 (w.ctx.jtagbufA.tdoBits + 31) / 32 := u32_eq (by omega)
    simp only [ran, Lib.ok_bind, dwords, whole]
    constructor
    · rintro ⟨_, returned⟩
      split at returned
      · cases returned
      · rename_i same
        exact ⟨room, by omega⟩
    · rintro ⟨-, same⟩
      rw [if_neg (by omega)]
      exact ⟨_, rfl⟩
  · rw [stops room, Lib.error_bind]
    constructor
    · rintro ⟨_, returned⟩
      cases returned
    · exact fun runs => absurd runs.1 room

theorem lsejtagFlushTdo_flushes (bounded : w.ctx.tdoFlushPtr + w.ctx.tdoInDwords ≤ 64)
    (maxSendBytes : Nat) : ∃ sent w', lsejtagFlushTdo w maxSendBytes = .ok (sent, w') := by
  have bytes : u32 (w.ctx.tdoInDwords * 4) = w.ctx.tdoInDwords * 4 := u32_eq (by omega)
  have sends : ∀ dwords ≤ w.ctx.tdoInDwords, ∃ w', flushDwords w dwords = .ok w' := by
    intro dwords few
    rw [flushDwords, if_pos (by omega)]
    exact ⟨_, rfl⟩
  simp only [lsejtagFlushTdo, bytes]
  split
  · obtain ⟨w', sent⟩ := sends _ (Nat.le_refl _)
    rw [sent]
    exact ⟨_, _, rfl⟩
  · obtain ⟨w', sent⟩ := sends (maxSendBytes / 4) (by omega)
    rw [sent]
    exact ⟨_, _, rfl⟩

end calls

end LoongsonEjtag
