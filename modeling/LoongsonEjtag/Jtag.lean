import LoongsonEjtag.Port

/-! # Running JTAG blocks and flushing TDO

`lsejtag_run_jtag` and `lsejtag_flush_tdo` of `lsejtag.c`.
-/

namespace LoongsonEjtag

open Lib (Dword u32 sub32 dwordsBytes)

namespace LsejtagCtx

/-- The JTAG peripheral is still working. -/
def periphWorking (ctx : LsejtagCtx) : Bool :=
  ctx.tdoBusy || ctx.jtagbufA.tdiBusy || ctx.jtagbufA.tmsBusy ||
    ctx.jtagbufB.tdiBusy || ctx.jtagbufB.tmsBusy

/-- The block `lsejtag_run_jtag` picks. -/
def preparedBufblk (ctx : LsejtagCtx) : Option BufId :=
  if ctx.jtagbufA.prepared then some .a
  else if ctx.jtagbufB.prepared then some .b
  else none

/-- Collected dwords that wait to be sent. -/
def pendingDwords (ctx : LsejtagCtx) : List Dword :=
  (ctx.tdoInData.toList.drop ctx.tdoFlushPtr).take ctx.tdoInDwords

end LsejtagCtx

/-- The context while block `id` is being run. -/
def LsejtagCtx.startBufblk (ctx : LsejtagCtx) (id : BufId) : LsejtagCtx :=
  let blk := ctx.jtagbuf id
  let ctx := ctx.setJtagbuf id { blk with tdiBusy := true, tmsBusy := true }
  { ctx with
    activeBufblk := some id
    tdoImmediateFlush := blk.immediateFlushTdo
    tdoBusy := if blk.tdoBits ≠ 0 then true else ctx.tdoBusy }

/-- `lsejtag_run_jtag`. -/
def lsejtagRunJtag (w : World) (tdo : Nat → Bool) : Except Halt World :=
  if w.ctx.periphWorking then .ok w
  else match w.ctx.preparedBufblk with
  | none => .ok w
  | some id => do
    let blk := w.ctx.jtagbuf id
    let tdoBufMark := w.ctx.tdoInDwords
    let w ← lsejtagImplRunJtag ({ w with ctx := w.ctx.startBufblk id }.log (.runBlock blk.seq))
      blk.seq (some w.ctx.tdoDmaPtr) tdo
    if u32 (tdoBufMark + u32 (blk.tdoBits + 31) / 32) ≠ w.ctx.tdoInDwords then
      .error .watermarkPanic
    else
      .ok { w with ctx := w.ctx.setJtagbuf id { w.ctx.jtagbuf id with prepared := false } }

/-- `lsejtag_impl_usbtx((uint8_t *)ctx->tdo_flush_ptr, dwords * 4)`. -/
def flushDwords (w : World) (dwords : Nat) : Except Halt World :=
  if w.ctx.tdoFlushPtr + dwords ≤ 64 then
    .ok (w.log (.flush
      (dwordsBytes ((w.ctx.tdoInData.toList.drop w.ctx.tdoFlushPtr).take dwords))))
  else .error .outOfBounds

/-- `lsejtag_flush_tdo`; `maxSendBytes` is what `lsejtag_impl_usbtx_free_len`
    returns.  The result is the byte count of the source's `return`. -/
def lsejtagFlushTdo (w : World) (maxSendBytes : Nat) : Except Halt (Nat × World) :=
  if maxSendBytes ≥ u32 (w.ctx.tdoInDwords * 4) then do
    let w ← flushDwords w w.ctx.tdoInDwords
    let w := { w with ctx := { w.ctx with
      tdoInDwords := 0
      tdoFlushPtr := 0
      tdoDmaPtr := 0
      tdoImmediateFlush := false
      tdoShouldFlush := false } }
    .ok (w.ctx.tdoInDwords * 4, w)
  else do
    let sendDwords := maxSendBytes / 4
    let w ← flushDwords w sendDwords
    .ok (sendDwords * 4, { w with ctx := { w.ctx with
      tdoFlushPtr := w.ctx.tdoFlushPtr + sendDwords
      tdoInDwords := sub32 w.ctx.tdoInDwords sendDwords } })

end LoongsonEjtag
