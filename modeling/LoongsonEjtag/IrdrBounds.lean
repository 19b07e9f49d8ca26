import LoongsonEjtag.IrdrTms
import LoongsonEjtag.ParserInv

/-! # Bounds of an IR/DR scan

* `ParserInv.irseqLenBits_le` — the size check of the parser lets scans of up to
  2016 bits through: 4 bytes of header and configuration and 63 dwords.
* `irdrBlock_returns_iff` — `cmdimpl_irdr_write` can build exactly these.  The
  dword it carries to behind the payload is the one that runs out first.
* `irdr_inside_buffers` — so no scan that is executed leaves a buffer.

A consume that runs past the command buffer while a section is fetched stops the
program before the size check.
-/

namespace LoongsonEjtag

open Lib (Byte Machine forUpTo forUpTo_succ bind_eq_ok)
open Wire

/-! ## What the parser lets through -/

theorem isIrdr.payloadLen {cmd : List Byte} {o : LsejtagCmdOp} (irdr : isIrdr cmd)
    (isOp : op cmd = some o) :
    configEnd o cmd = 4 ∧ bufferedPayloadLen o cmd = bit2dword (irseqLenBits cmd) * 4 := by
  obtain ir | dr := irdr
  · cases isOp.symm.trans ir
    exact ⟨rfl, rfl⟩
  · cases isOp.symm.trans dr
    exact ⟨rfl, rfl⟩

theorem ParserInv.irseqLenBits_le {ctx : LsejtagCtx} (inv : ParserInv ctx)
    (state : ctx.cmdBufState = .cbsExecute) (fresh : ctx.continuation = false)
    (irdr : isIrdr ctx.cmd) : irseqLenBits ctx.cmd ≤ 2016 := by
  cases inv with
  | ready _ _ _ o isOp _ _ fits =>
    obtain ⟨config, payload⟩ := irdr.payloadLen isOp
    rw [config, payload, bit2dword] at fits
    omega
  | continued _ continues => exact absurd (fresh.symm.trans continues) (by decide)
  | _ state' => exact absurd (state.symm.trans state') (by decide)

/-! ## What the writers can take -/

theorem irdrFillDword_inside {cmd : List Byte} {off i : Nat} {tdi tdi' : DwordBuf}
    (filled : irdrFillDword cmd off i tdi = .ok tdi') : i + 1 < 64 := by
  obtain ⟨data, -, filled⟩ := bind_eq_ok.mp filled
  obtain ⟨first, -, carried⟩ := bind_eq_ok.mp filled
  exact DwordBuf.write_inside carried

theorem irdrBlock_returns_iff (blk : JtagbufBlk) (cmd : List Byte) (isir : Bool) :
    (∃ blk', irdrBlock blk cmd isir = .ok blk') ↔ irseqLenBits cmd ≤ 2016 := by
  constructor
  · rintro ⟨blk', built⟩
    obtain ⟨_, tdi, _, filled, _, -, -, -, fill, -, -⟩ := irdrBlock_built built
    -- The last round of the data loop writes the dword behind its own.
    cases rounds : bit2dword (irseqLenBits cmd) with
    | zero =>
      rw [bit2dword] at rounds
      omega
    | succ i =>
      rw [rounds, forUpTo_succ] at fill
      obtain ⟨before, -, last⟩ := bind_eq_ok.mp fill
      have inside := irdrFillDword_inside last
      rw [bit2dword] at rounds
      omega
  · exact irdrBlock_total blk isir

theorem cmdimplIrdrWrite_returns {w : World} (isir : Bool) (few : irseqLenBits w.ctx.cmd ≤ 2016) :
    ∃ r w', cmdimplIrdrWrite w isir = .ok (r, w') := by
  simp only [cmdimplIrdrWrite]
  cases w.ctx.freeJtagbuf with
  | none => exact ⟨_, _, rfl⟩
  | some id =>
    simp only
    split
    · exact ⟨_, _, rfl⟩
    · obtain ⟨blk, built⟩ := irdrBlock_total (w.ctx.jtagbuf id) isir few
      rw [built]
      exact ⟨_, _, rfl⟩

theorem lsejtagExecute_irdr_returns {w : World} (fresh : w.ctx.continuation = false)
    (irdr : isIrdr w.ctx.cmd) (few : irseqLenBits w.ctx.cmd ≤ 2016) (txFree : Nat)
    (tdo : Nat → Bool) : ∃ r w', lsejtagExecute w txFree tdo = .ok (r, w') := by
  simp only [lsejtagExecute, fresh, Bool.false_eq_true, if_false]
  split
  · exact ⟨_, _, rfl⟩
  · obtain ir | dr := irdr
    · simp only [executeCommand, ir]
      exact cmdimplIrdrWrite_returns true few
    · simp only [executeCommand, dr]
      exact cmdimplIrdrWrite_returns false few

/-- A scan that the main loop is about to execute has at most 2016 bits.  Every
    access for a scan of that size is inside its buffer, in either block and for
    either register, and for no larger one.  So the execution returns. -/
theorem irdr_inside_buffers {s : MainState} (reach : mainLoop.Reachable s)
    (at_pc : s.pc = .execute) (fresh : s.world.ctx.continuation = false)
    (irdr : isIrdr s.world.ctx.cmd) :
    irseqLenBits s.world.ctx.cmd ≤ 2016 ∧
    (∀ (blk : JtagbufBlk) (cmd : List Byte) (isir : Bool),
      (∃ blk', irdrBlock blk cmd isir = .ok blk') ↔ irseqLenBits cmd ≤ 2016) ∧
    ∀ (txFree : Nat) (tdo : Nat → Bool),
      ∃ r w', lsejtagExecute s.world.enterExecute txFree tdo = .ok (r, w') := by
  have running : s.Running := by
    intro why halted
    exact absurd (at_pc.symm.trans halted) (by simp)
  have inv := (mainLoop_parserInv reach).parser running
  obtain ⟨-, state⟩ := (mainLoop_inv reach).pc.execute at_pc
  have few := inv.irseqLenBits_le state fresh irdr
  exact ⟨few, irdrBlock_returns_iff, lsejtagExecute_irdr_returns fresh irdr few⟩

/-- The longest DR scan, in two USB packets with a split inside its payload. -/
theorem irdr_inside_buffers_longest : ∃ s, mainLoop.Reachable s ∧ s.pc = .execute ∧
    irseqLenBits s.world.ctx.cmd = 2016 ∧
    (∃ blk', irdrBlock s.world.ctx.jtagbufA s.world.ctx.cmd false = .ok blk') ∧
    ∃ r w', lsejtagExecute s.world.enterExecute 64 (fun _ => false) = .ok (r, w') := by
  have ran : (mainLoop.run Machine.anyAction .start
      ([.usbOut ([0x00, 0x14, 0xe0, 0x07] ++ List.replicate 60 0xff)] ++ polls 64 1 ++
        [.usbOut (List.replicate 192 0xff)] ++ polls 64 1)).any (fun s =>
        decide (s.pc = .execute ∧ s.world.ctx.continuation = false ∧
          isIrdr s.world.ctx.cmd ∧ irseqLenBits s.world.ctx.cmd = 2016)) = true := by
    decide +kernel
  obtain ⟨s, reach, holds⟩ := Machine.exists_reach _ rfl ran
  obtain ⟨pc, fresh, irdr, longest⟩ := of_decide_eq_true holds
  obtain ⟨few, built, returns⟩ := irdr_inside_buffers reach pc fresh irdr
  exact ⟨s, reach, pc, longest, (built _ _ false).mpr few, returns 64 _⟩

end LoongsonEjtag
