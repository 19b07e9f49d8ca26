import LoongsonEjtag.ParserInv
import LoongsonEjtag.Placement

/-! # A call of `cmdimpl_continue_fast_mem_write`

What one continuation of a fast write does, from any state it can be in.

* `XferReady` — what a call needs.
* `XferCalled` — the ways it returns: it still misses payload, or it places the
  transfers of the next block.
* `XfersPlaced` — what it leaves in the second case.
-/

namespace LoongsonEjtag

open Lib (u32_eq sub32 sub32_eq forUpTo)
open Wire

/-! ## The layout of a transfer -/

/-- The contexts agree about the layout of a transfer. -/
structure SameXfer (ctx ctx' : LsejtagCtx) : Prop where
  bits : ctx'.bitsPerXfer = ctx.bitsPerXfer
  bitlen : ctx'.drseqBitlen = ctx.drseqBitlen
  dwordlen : ctx'.drseqDwordlen = ctx.drseqDwordlen
  offset : dataBitoffset ctx' = dataBitoffset ctx

namespace SameXfer

variable {ctx ctx' ctx'' : LsejtagCtx}

theorem trans (first : SameXfer ctx ctx') (second : SameXfer ctx' ctx'') : SameXfer ctx ctx'' :=
  ⟨second.bits.trans first.bits, second.bitlen.trans first.bitlen,
    second.dwordlen.trans first.dwordlen, second.offset.trans first.offset⟩

/-- The layout is part of the continuation and the parameters. -/
theorem of_cont (cont : ctx'.toContCtx = ctx.toContCtx)
    (params : ctx'.toJtagParams = ctx.toJtagParams) : SameXfer ctx ctx' := by
  constructor <;> simp only [dataBitoffset, cont, params]

theorem truncateXfers (ctx : LsejtagCtx) : SameXfer ctx (truncateXfers ctx) := by
  rw [LoongsonEjtag.truncateXfers]
  split <;> exact ⟨rfl, rfl, rfl, rfl⟩

theorem placeSequence (same : SameXfer ctx ctx') :
    LoongsonEjtag.placeSequence ctx' = LoongsonEjtag.placeSequence ctx := by
  funext i seq tdi
  simp only [LoongsonEjtag.placeSequence, same.bits, same.bitlen, same.offset]

theorem fits (same : SameXfer ctx ctx') (fits : XferFits ctx) : XferFits ctx' := by
  rw [XferFits, same.bits, same.bitlen, same.offset]
  exact fits

end SameXfer

/-! ## The ways a call returns -/

/-- What a call needs: an idle engine, a premade sequence that fits one buffer,
    and a partly buffered block at most. -/
structure XferReady (ctx : LsejtagCtx) : Prop where
  idle : EngineIdle ctx
  fits : XferFits ctx
  dwordlen : ctx.drseqDwordlen = bit2dword ctx.drseqBitlen
  template : ctx.tdiBitlen = ctx.xfersPerBufblk * ctx.bitsPerXfer
  bits : ctx.xfersPerBufblk * ctx.bitsPerXfer ≤ 2048
  bytes : ctx.xfersPerBufblk * (ctx.drseqDwordlen * 4) ≤ 256
  counts : ctx.xfersLeft < 2 ^ 32
  partly : ctx.bufferedLength = 0 ∨ ctx.bufferedLength <
    min ctx.xfersPerBufblk ctx.xfersLeft * (ctx.drseqDwordlen * 4)

/-- The room stays when the blocks do not grow. -/
theorem XferReady.fewer {ctx ctx' : LsejtagCtx} (ready : XferReady ctx) (idle : EngineIdle ctx')
    (same : SameXfer ctx ctx') (few : ctx'.xfersPerBufblk ≤ ctx.xfersPerBufblk)
    (template : ctx'.tdiBitlen = ctx'.xfersPerBufblk * ctx'.bitsPerXfer)
    (counts : ctx'.xfersLeft < 2 ^ 32)
    (partly : ctx'.bufferedLength = 0 ∨ ctx'.bufferedLength <
      min ctx'.xfersPerBufblk ctx'.xfersLeft * (ctx'.drseqDwordlen * 4)) : XferReady ctx' := by
  refine ⟨idle, same.fits ready.fits, ?_, template, ?_, ?_, counts, partly⟩
  · rw [same.dwordlen, same.bitlen]
    exact ready.dwordlen
  · rw [same.bits]
    exact (Nat.mul_le_mul_right _ few).trans ready.bits
  · rw [same.dwordlen]
    exact (Nat.mul_le_mul_right _ few).trans ready.bytes

/-- The block a call makes of `xfers` transfers. -/
def World.writeBlock (w : World) (tdi : DwordBuf) : JtagbufBlk :=
  { w.ctx.jtagbufA with
    tdiData := tdi, tdiBits := w.ctx.tdiBitlen, tdoBits := 0, prepared := true }

/-- The ways a call can return. -/
inductive XferCalled (w : World) : LsejtagCmdExecResult → World → Prop
  /-- All there is belongs to the next block and does not complete it. -/
  | short (w' : World) (moved : ParserMoved { w with ctx := truncateXfers w.ctx } w')
      (parsed : Parsed True { w with ctx := truncateXfers w.ctx } w.rx.length w'
        w.ctx.cmdBufState (w.ctx.bufferedLength + w.rx.length) w.ctx.cmdBufWaitPayloadSize)
      (missing : w.ctx.bufferedLength + w.rx.length <
        min w.ctx.xfersPerBufblk w.ctx.xfersLeft * (w.ctx.drseqDwordlen * 4)) :
      XferCalled w .cerContinue w'
  /-- The next block is ready. -/
  | placed (k : Nat) (middle : World)
      (moved : ParserMoved { w with ctx := truncateXfers w.ctx } middle)
      (parsed : Parsed True { w with ctx := truncateXfers w.ctx } k middle
        w.ctx.cmdBufState (w.ctx.bufferedLength + k) w.ctx.cmdBufWaitPayloadSize)
      (complete : w.ctx.bufferedLength + k =
        min w.ctx.xfersPerBufblk w.ctx.xfersLeft * (w.ctx.drseqDwordlen * 4))
      (tdi : DwordBuf)
      (filled : forUpTo (fun i => placeSequence middle.ctx i (drSequence middle.ctx i))
        (min w.ctx.xfersPerBufblk w.ctx.xfersLeft) w.ctx.jtagbufA.tdiData = .ok tdi)
      (r : LsejtagCmdExecResult) (w' : World)
      (ends : (r, w') = finishXfers (middle.placed (middle.writeBlock tdi) 0
        (w.ctx.xfersLeft - min w.ctx.xfersPerBufblk w.ctx.xfersLeft))) :
      XferCalled w r w'

theorem prepareWriteBlock_ok {w : World} (free : w.ctx.periphFree = true) {tdi : DwordBuf}
    (filled : forUpTo (placeXfer w.ctx) w.ctx.xfersPerBufblk w.ctx.jtagbufA.tdiData = .ok tdi) :
    prepareWriteBlock w = .ok (finishXfers
      (w.placed (w.writeBlock tdi) 0 (sub32 w.ctx.xfersLeft w.ctx.xfersPerBufblk))) := by
  simp only [prepareWriteBlock, LsejtagCtx.freeJtagbuf_of_periphFree free, LsejtagCtx.jtagbuf_a,
    filled, Lib.ok_bind]
  rfl

/-- The layout survives a fetch. -/
theorem ParserMoved.sameXfer {w w' : World} (moved : ParserMoved w w') : SameXfer w.ctx w'.ctx :=
  .of_cont moved.cont (by rw [moved.ctx])

/-- Every call returns, in one of these ways. -/
theorem cmdimplContinueFastMemWrite_called {w : World} (ready : XferReady w.ctx)
    (unprepared : w.ctx.jtagbufA.prepared = false) (ring : w.rx.length ≤ 256) :
    ∃ r w', cmdimplContinueFastMemWrite w = .ok (r, w') ∧ XferCalled w r w' := by
  obtain ⟨idle, fits, dwordlen, template, bits, bytes, counts, partly⟩ := ready
  obtain ⟨complete, middle, k, fetch, parsed, block⟩ := fetchPayload_write ring bytes partly
  have fetched := fetchPayload_fetched fetch
  have moved := fetched.moved
  obtain ⟨xfers, size, left, -⟩ := contCtx_truncated moved.cont
  simp only [cmdimplContinueFastMemWrite, fetch, Lib.ok_bind]
  cases complete with
  | false =>
    obtain ⟨rfl, missing⟩ := block
    exact ⟨_, _, rfl, .short middle moved parsed missing⟩
  | true =>
    have middleFree : middle.ctx.periphFree = true :=
      fetched.periphFree.trans ((truncateXfers_periphFree w.ctx).trans (idle.periphFree unprepared))
    have same : SameXfer w.ctx middle.ctx := (SameXfer.truncateXfers w.ctx).trans moved.sameXfer
    have sameA : middle.ctx.jtagbufA = w.ctx.jtagbufA :=
      ((SameEngine.truncateXfers w.ctx).trans moved.sameEngine).blockA
    have fewer := Nat.min_le_left w.ctx.xfersPerBufblk w.ctx.xfersLeft
    obtain ⟨tdi, placed, filled⟩ := placeXfers_total (same.fits fits)
      (n := min w.ctx.xfersPerBufblk w.ctx.xfersLeft)
      (by rw [same.bits]; exact (Nat.mul_le_mul_right _ fewer).trans bits)
      (by rw [same.bitlen, ← dwordlen]; exact (Nat.mul_le_mul_right _ fewer).trans bytes)
      middle.ctx.jtagbufA.tdiData
    obtain ⟨r, w', ends⟩ : ∃ r w', (r, w') = finishXfers (middle.placed (middle.writeBlock tdi) 0
        (w.ctx.xfersLeft - min w.ctx.xfersPerBufblk w.ctx.xfersLeft)) := ⟨_, _, rfl⟩
    refine ⟨r, w', ?_, .placed k middle moved parsed block tdi (sameA ▸ filled) r w' ends⟩
    have toGo : sub32 middle.ctx.xfersLeft middle.ctx.xfersPerBufblk =
        w.ctx.xfersLeft - min w.ctx.xfersPerBufblk w.ctx.xfersLeft := by
      rw [left, xfers, sub32_eq (Nat.min_le_right _ _) counts]
    simp only [if_true]
    rw [prepareWriteBlock_ok middleFree (xfers ▸ placed), toGo, ends]

/-! ## Placing a block -/

/-- Every consume between `w` and `w'` is within bounds. -/
def AddsWithinBounds (w w' : World) : Prop :=
  ∃ es, w'.trace = w.trace ++ es ∧ ∀ e ∈ es, WithinBounds e

theorem AddsWithinBounds.trans {w w' w'' : World} (first : AddsWithinBounds w w')
    (second : AddsWithinBounds w' w'') : AddsWithinBounds w w'' := by
  obtain ⟨es, trace, bounds⟩ := first
  obtain ⟨fs, trace', bounds'⟩ := second
  refine ⟨es ++ fs, by rw [trace', trace, List.append_assoc], fun e member => ?_⟩
  exact (List.mem_append.mp member).elim (bounds e) (bounds' e)

theorem OutputOnly.addsWithinBounds {w w' : World} (output : OutputOnly w w') :
    AddsWithinBounds w w' := by
  obtain ⟨-, es, trace, output⟩ := output
  refine ⟨es, trace, fun e member => ?_⟩
  cases e with
  | consume => cases output _ member
  | _ => trivial

/-- What a call leaves when it has placed `count` transfers. -/
structure XfersPlaced (w : World) (count k : Nat) (r : LsejtagCmdExecResult) (w' : World) :
    Prop where
  same : SameXfer w.ctx w'.ctx
  idle : EngineIdle w'.ctx
  xfers : w'.ctx.xfersPerBufblk = count
  template : w'.ctx.tdiBitlen = count * w'.ctx.bitsPerXfer
  left : w'.ctx.xfersLeft = w.ctx.xfersLeft - count
  nothing : w'.ctx.bufferedLength = 0
  prepared : w'.ctx.jtagbufA.prepared = true
  tdiBits : w'.ctx.jtagbufA.tdiBits = count * w'.ctx.bitsPerXfer
  tdoBits : w'.ctx.jtagbufA.tdoBits = 0
  filled : forUpTo (fun i => placeSequence w'.ctx i (drSequence w'.ctx i)) count
    w.ctx.jtagbufA.tdiData = .ok w'.ctx.jtagbufA.tdiData
  result : r = if w'.ctx.xfersLeft = 0 then .cerSuccess else .cerContinue
  content : w'.ctx.cmd.take (count * (w.ctx.drseqDwordlen * 4)) = w.buffered ++ w.rx.take k
  kept : RxKept w w'
  trace : consumed w'.trace = consumed w.trace ++ w.rx.take k
  bounds : AddsWithinBounds w w'

theorem tdiBitlen_truncateXfers {ctx : LsejtagCtx} (ready : XferReady ctx) :
    (truncateXfers ctx).tdiBitlen =
      min ctx.xfersPerBufblk ctx.xfersLeft * (truncateXfers ctx).bitsPerXfer := by
  have bits := ready.bits
  have template := ready.template
  rw [truncateXfers]
  split
  · rename_i fewer
    have within : ctx.bitsPerXfer * ctx.xfersLeft ≤ 2048 := by
      rw [Nat.mul_comm]
      exact (Nat.mul_le_mul_right _ (Nat.le_of_lt fewer)).trans bits
    rw [Nat.min_eq_right (Nat.le_of_lt fewer)]
    exact (u32_eq (by omega)).trans (Nat.mul_comm _ _)
  · rename_i enough
    rw [Nat.min_eq_left (Nat.le_of_not_lt enough)]
    exact template

/-- A call that made a block ready placed the transfers of one block, or those
    that are left. -/
theorem xfersPlaced {w middle w' : World} {k : Nat} {tdi : DwordBuf} {r : LsejtagCmdExecResult}
    (ready : XferReady w.ctx) (moved : ParserMoved { w with ctx := truncateXfers w.ctx } middle)
    (parsed : Parsed True { w with ctx := truncateXfers w.ctx } k middle
      w.ctx.cmdBufState (w.ctx.bufferedLength + k) w.ctx.cmdBufWaitPayloadSize)
    (complete : w.ctx.bufferedLength + k =
      min w.ctx.xfersPerBufblk w.ctx.xfersLeft * (w.ctx.drseqDwordlen * 4))
    (filled : forUpTo (fun i => placeSequence middle.ctx i (drSequence middle.ctx i))
      (min w.ctx.xfersPerBufblk w.ctx.xfersLeft) w.ctx.jtagbufA.tdiData = .ok tdi)
    (ends : (r, w') = finishXfers (middle.placed (middle.writeBlock tdi) 0
      (w.ctx.xfersLeft - min w.ctx.xfersPerBufblk w.ctx.xfersLeft))) :
    XfersPlaced w (min w.ctx.xfersPerBufblk w.ctx.xfersLeft) k r w' := by
  have same : SameXfer w.ctx middle.ctx := (SameXfer.truncateXfers w.ctx).trans moved.sameXfer
  have engine := (SameEngine.truncateXfers w.ctx).trans moved.sameEngine
  obtain ⟨xfers, -⟩ := contCtx_truncated moved.cont
  have template : middle.ctx.tdiBitlen =
      min w.ctx.xfersPerBufblk w.ctx.xfersLeft * middle.ctx.bitsPerXfer := by
    rw [moved.cont]
    exact tdiBitlen_truncateXfers ready
  have content : middle.ctx.cmd.take (w.ctx.bufferedLength + k) = w.buffered ++ w.rx.take k := by
    have content := parsed.took.content
    have sameCmd := toCmdBuf_truncateXfers w.ctx
    simp only [World.buffered, LsejtagCtx.cmd, sameCmd] at content
    exact content
  rw [complete] at content
  have truncated : RxKept w { w with ctx := truncateXfers w.ctx } := .same rfl rfl
  have kept : RxKept w w' := truncated.trans (moved.rxKept.trans (outputOnly_placed ends).rxKept)
  have trace : consumed w'.trace = consumed w.trace ++ w.rx.take k := by
    obtain ⟨-, es, isTrace, output⟩ := outputOnly_placed ends
    rw [isTrace, consumed_append, output.consumed_eq, List.append_nil, moved.took parsed.took]
  have bounds : AddsWithinBounds w w' := by
    obtain ⟨es, trace, bounds⟩ := parsed.trace
    exact AddsWithinBounds.trans ⟨es, trace, bounds trivial⟩
      (outputOnly_placed ends).addsWithinBounds
  have idle : EngineIdle middle.ctx := ready.idle.same engine
  obtain ⟨none, rfl, rfl⟩ | ⟨some, rfl, rfl⟩ := finishXfers_cases ends
  · exact ⟨⟨same.bits, same.bitlen, same.dwordlen, same.offset⟩,
      ⟨idle.tdiA, idle.tmsA, idle.tdiB, idle.tmsB, idle.unusedB, idle.tdo⟩, xfers, template, rfl,
      rfl, rfl, template, rfl, filled, (if_pos none).symm, content, kept, trace, bounds⟩
  · exact ⟨⟨same.bits, same.bitlen, same.dwordlen, same.offset⟩,
      ⟨idle.tdiA, idle.tmsA, idle.tdiB, idle.tmsB, idle.unusedB, idle.tdo⟩, xfers, template, rfl,
      rfl, rfl, template, rfl, filled, (if_neg some).symm, content, kept, trace, bounds⟩

end LoongsonEjtag
