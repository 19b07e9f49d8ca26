import LoongsonEjtag.BlockOrder

/-! # Room in the TDO buffer

`return_data_len_required` asks for no room exactly when a scan reads back, so
`cmdimpl_irdr_write` never holds back a read-back that does not fit.  As long as
every read-back does fit when it is executed, no prepared block reports more
than there is room for.
-/

namespace LoongsonEjtag

open Lib (Byte sub32_eq)
open Lib.Machine (anyAction)
open Wire

/-! ## Transfers of the fast commands -/

/-- The dwords kept free for a transfer hold its bits. -/
def DrseqSized (ctx : LsejtagCtx) : Prop := ctx.drseqDwordlen = bit2dword ctx.drseqBitlen

/-- The two contexts agree about the length of a transfer. -/
structure SameDrseq (ctx ctx' : LsejtagCtx) : Prop where
  dwordlen : ctx'.drseqDwordlen = ctx.drseqDwordlen
  bitlen : ctx'.drseqBitlen = ctx.drseqBitlen

namespace SameDrseq

variable {ctx ctx' ctx'' : LsejtagCtx}

theorem trans (first : SameDrseq ctx ctx') (second : SameDrseq ctx' ctx'') :
    SameDrseq ctx ctx'' :=
  ⟨second.dwordlen.trans first.dwordlen, second.bitlen.trans first.bitlen⟩

theorem sized (same : SameDrseq ctx ctx') (sized : DrseqSized ctx) : DrseqSized ctx' := by
  rw [DrseqSized, same.dwordlen, same.bitlen]
  exact sized

theorem truncateXfers (ctx : LsejtagCtx) : SameDrseq ctx (truncateXfers ctx) := by
  rw [LoongsonEjtag.truncateXfers]
  split <;> exact ⟨rfl, rfl⟩

end SameDrseq

theorem ParserMoved.sameDrseq {w w' : World} (moved : ParserMoved w w') :
    SameDrseq w.ctx w'.ctx := by
  constructor <;> rw [moved.cont]

theorem finishXfers_drseq {w w' : World} {blk : JtagbufBlk} {buffered left : Nat}
    {r : LsejtagCmdExecResult} (ends : (r, w') = finishXfers (w.placed blk buffered left)) :
    SameDrseq w.ctx w'.ctx := by
  rw [finishXfers] at ends
  split at ends <;> cases ends <;> exact ⟨rfl, rfl⟩

theorem Executed.drseq {w w' : World} {r : LsejtagCmdExecResult} (executed : Executed w r w')
    (sized : DrseqSized w.ctx) : DrseqSized w'.ctx := by
  cases executed with
  | writeStarted => simp [DrseqSized, fastMemWriteSetup]
  | readStarted => simp [DrseqSized, fastMemReadSetup]
  | payloadShort _ _ _ _ fetched =>
    exact ((SameDrseq.truncateXfers w.ctx).trans fetched.moved.sameDrseq).sized sized
  | blockWritten _ _ _ _ fetched _ _ _ _ ends =>
    have middle := (SameDrseq.truncateXfers w.ctx).trans fetched.moved.sameDrseq
    exact (middle.trans (finishXfers_drseq ends)).sized sized
  | blockRead _ _ _ _ _ _ ends => exact (finishXfers_drseq ends).sized sized
  | _ => exact sized

/-! ## Room for the prepared block -/

/-- Dwords block `blk` will report fit behind the DMA pointer. -/
def TdoFits (ctx : LsejtagCtx) (blk : JtagbufBlk) : Prop :=
  ctx.tdoDmaPtr + bit2dword blk.tdoBits ≤ 64

instance (ctx : LsejtagCtx) (blk : JtagbufBlk) : Decidable (TdoFits ctx blk) :=
  inferInstanceAs (Decidable (_ ≤ _))

/-- A step is harmless unless it executes a read-back scan for which there is no
    room. -/
def ReadBackFits (s : MainState) : MainInput → Prop
  | .usbOut _ => True
  | .poll _ _ => s.pc = .execute → s.world.ctx.continuation = false → isIrdr s.world.ctx.cmd →
      readBack s.world.ctx.cmd = true →
      s.world.ctx.tdoInDwords + bit2dword (irseqLenBits s.world.ctx.cmd) ≤ 64

instance (s : MainState) (input : MainInput) : Decidable (ReadBackFits s input) :=
  match input with
  | .usbOut _ => inferInstanceAs (Decidable True)
  | .poll _ _ => inferInstanceAs (Decidable (_ → _ → _ → _ → _))

/-- The prepared block fits, and the next transfer of a fast read will. -/
structure RoomInv (ctx : LsejtagCtx) : Prop where
  fits : ctx.jtagbufA.prepared = true → TdoFits ctx ctx.jtagbufA
  drseq : DrseqSized ctx

theorem bit2dword_mul (n : Nat) : bit2dword (n * 32) = n := by
  simp only [bit2dword]
  omega

/-- Without a flush going on nothing is half flushed. -/
theorem EngineInv.dma_of_calm {w : World} (inv : EngineInv w)
    (calm : w.ctx.tdoShouldFlush = false) : w.ctx.tdoDmaPtr = w.ctx.tdoInDwords := by
  obtain ⟨q, is⟩ := inv.queue
  have pointers := is.pointers
  have start : w.ctx.tdoFlushPtr = 0 := by
    by_contra moved
    simpa [calm] using inv.partly moved
  omega

theorem EngineInv.dma_eq {w : World} (inv : EngineInv w) (quiet : w.ctx.Quiet) :
    w.ctx.tdoDmaPtr = w.ctx.tdoInDwords :=
  inv.dma_of_calm quiet.noFlush

theorem Executed.room {w w' : World} {r : LsejtagCmdExecResult} (inv : EngineInv w)
    (quiet : w.ctx.Quiet) (executed : Executed w r w') (room : RoomInv w.ctx)
    (readBackFits : isIrdr w.ctx.cmd → readBack w.ctx.cmd = true → w.ctx.continuation = false →
      w.ctx.tdoInDwords + bit2dword (irseqLenBits w.ctx.cmd) ≤ 64) : RoomInv w'.ctx := by
  have free := inv.idle.periphFree quiet.noBlockA
  have effect := executed.engineEffect free
  have dma := inv.dma_eq quiet
  have bounded := inv.bounded
  have noBits : bit2dword 0 = 0 := rfl
  refine ⟨fun prepared => ?_, executed.drseq room.drseq⟩
  have newBlock : ∀ blk : JtagbufBlk, w'.ctx.jtagbufA = blk →
      w.ctx.tdoInDwords + bit2dword blk.tdoBits ≤ 64 → TdoFits w'.ctx w'.ctx.jtagbufA := by
    rintro blk rfl fits
    rw [TdoFits, effect.tdo.dma, dma]
    exact fits
  cases executed with
  | scanned fresh irdr _ blk _ tdoBits =>
    refine newBlock blk rfl ?_
    rw [tdoBits]
    split
    · exact readBackFits irdr ‹_› fresh
    · omega
  | blockWritten _ _ _ _ _ _ _ _ _ ends =>
    refine newBlock _ (finishXfers_same ends).1.blockA ?_
    simpa [World.placed, noBits] using bounded
  | blockRead _ _ _ fits _ _ ends =>
    refine newBlock _ (finishXfers_same ends).1.blockA ?_
    have sized : w.ctx.drseqDwordlen = bit2dword w.ctx.drseqBitlen := room.drseq
    rw [sub32_eq bounded (by decide)] at fits
    simp only [World.placed, World.ctx_log, bit2dword_mul]
    omega
  | payloadShort _ _ _ _ fetched =>
    rw [fetched.moved.blockA, (SameEngine.truncateXfers w.ctx).blockA, quiet.noBlockA] at prepared
    cases prepared
  | _ =>
    -- no block was made ready, and none was before
    have before : w.ctx.jtagbufA.prepared = true := prepared
    rw [quiet.noBlockA] at before
    cases before

theorem SameEngine.tdoFits {ctx ctx' : LsejtagCtx} (same : SameEngine ctx ctx')
    (fits : ctx.jtagbufA.prepared = true → TdoFits ctx ctx.jtagbufA) :
    ctx'.jtagbufA.prepared = true → TdoFits ctx' ctx'.jtagbufA := by
  intro prepared
  rw [same.blockA] at prepared ⊢
  simpa [TdoFits, same.tdo] using fits prepared

/-- A flush makes room. -/
theorem flushedTdo_room {ctx : LsejtagCtx} (room : RoomInv ctx) (dwords : Nat) :
    RoomInv (ctx.flushedTdo dwords) := by
  obtain ⟨fits, drseq⟩ := room
  rw [LsejtagCtx.flushedTdo]
  split
  · refine ⟨fun prepared => ?_, drseq⟩
    have before : ctx.tdoDmaPtr + bit2dword ctx.jtagbufA.tdoBits ≤ 64 := fits prepared
    show 0 + bit2dword ctx.jtagbufA.tdoBits ≤ 64
    omega
  · exact ⟨fits, drseq⟩

theorem roomInv {s : MainState} (reach : mainLoop.Reach ReadBackFits s) :
    RoomInv s.world.ctx := by
  apply reach.invariant (P := fun s => RoomInv s.world.ctx)
  · rintro s rfl
    exact ⟨nofun, rfl⟩
  · intro s s' input reach room readBackFits step
    have inv := mainLoop_inv reach
    have stepped := mainStep_stepped inv step
    cases stepped with
    | received bytes => exact ⟨room.fits, room.drseq⟩
    | dispatched _ r w' dispatched =>
      cases dispatched with
      | parsed _ _ _ _ parsed =>
        obtain ⟨-, rfl, -⟩ | returned := dispatchCmdBuf_returned parsed
        · exact room
        · exact ⟨returned.moved.sameEngine.tdoFits room.fits,
            returned.moved.sameDrseq.sized room.drseq⟩
      | _ => exact ⟨room.fits, room.drseq⟩
    | executed at_pc quiet _ r w' executed =>
      have after := executed.room inv.engine.enterExecute quiet ⟨room.fits, room.drseq⟩ ?_
      · exact ⟨after.fits, after.drseq⟩
      · exact fun irdr readsBack fresh => readBackFits at_pc fresh irdr readsBack
    | flushed _ _ dwords _ w' ctx =>
      rw [ctx]
      exact flushedTdo_room room dwords
    | ran _ _ _ w' _ ran =>
      refine ⟨fun prepared => ?_, ?_⟩
      · rw [ran.ctx] at prepared
        cases prepared
      · rw [ran.ctx]
        exact room.drseq
    | _ => exact ⟨room.fits, room.drseq⟩

/-- In every run whose read-back scans all have room when they are executed, the
    block `lsejtag_run_jtag` starts fits behind the DMA pointer.  A run ends with
    the first access outside an array. -/
theorem prepared_block_fits {s : MainState} (reach : mainLoop.Reach ReadBackFits s) {id : BufId}
    (prepared : s.world.ctx.preparedBufblk = some id) :
    TdoFits s.world.ctx (s.world.ctx.jtagbuf id) := by
  have unusedB := (mainLoop_inv reach).engine.idle.unusedB
  simp only [LsejtagCtx.preparedBufblk, unusedB] at prepared
  split at prepared
  · cases prepared
    exact (roomInv reach).fits ‹_›
  · cases prepared

/-- A DR scan of 64 bits with read-back. -/
def drReadBack64 : List Byte := [0x00, 0x16, 0x40, 0x00] ++ List.replicate 8 0

/-- A DR scan of 2016 bits with read-back. -/
def drReadBack2016 : List Byte := [0x00, 0x16, 0xe0, 0x07] ++ List.replicate 252 0

/-- The first of them fits. -/
theorem prepared_block_fits_first : ∃ s : MainState, s.pc = .runJtag ∧
    s.world.ctx.preparedBufblk = some .a ∧ TdoFits s.world.ctx (s.world.ctx.jtagbuf .a) := by
  have ran : (mainLoop.run ReadBackFits .start ([.usbOut drReadBack64] ++ polls 64 3)).any
      (fun s => decide (s.pc = .runJtag ∧ s.world.ctx.preparedBufblk = some .a)) = true := by
    decide +kernel
  obtain ⟨s, reach, holds⟩ := Lib.Machine.exists_reach _ rfl ran
  obtain ⟨at_pc, prepared⟩ := of_decide_eq_true holds
  exact ⟨s, at_pc, prepared, prepared_block_fits reach prepared⟩

/-- Two dwords are collected, and a block that reports 63 more is started. -/
theorem read_back_overflows : ∃ s, mainLoop.Reachable s ∧ s.pc = .runJtag ∧
    isIrdr s.world.ctx.cmd ∧ s.world.ctx.preparedBufblk = some .a ∧
    ¬TdoFits s.world.ctx s.world.ctx.jtagbufA := by
  have ran : (mainLoop.run anyAction .start ([.usbOut drReadBack64] ++ polls 64 5 ++
      [.usbOut drReadBack2016] ++ polls 64 3)).any (fun s => decide (s.pc = .runJtag ∧
        isIrdr s.world.ctx.cmd ∧ s.world.ctx.preparedBufblk = some .a ∧
        ¬TdoFits s.world.ctx s.world.ctx.jtagbufA)) = true := by
    decide +kernel
  obtain ⟨s, reach, holds⟩ := Lib.Machine.exists_reach _ rfl ran
  exact ⟨s, reach, of_decide_eq_true holds⟩

end LoongsonEjtag
