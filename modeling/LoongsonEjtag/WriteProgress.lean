import LoongsonEjtag.FastWrite
import LoongsonEjtag.WriteSetup

/-! # Progress of a fast write

A fast write ends if no block of it is empty.

* `KeepsProgress` — a call that finds the payload of its block places transfers,
  and there are no more blocks than transfers.
* `fast_write_progress_iff` — the block size is a matter of the length of a
  transfer; whether the write gets that far is not.
-/

namespace LoongsonEjtag

open Lib (Machine)
open Wire

/-! ## The measure -/

/-- The transfers that are left go down with every block. -/
structure KeepsProgress (n : Nat) (s : XferState) : Prop where
  /-- A call that finds the payload of its block. -/
  call : s.result ≠ .cerSuccess → s.world.ctx.preparedBufblk = none →
    s.world.ctx.nextXfers * (s.world.ctx.drseqDwordlen * 4) ≤
        s.world.ctx.bufferedLength + s.world.rx.length →
      ∃ r w', cmdimplContinueFastMemWrite s.world = .ok (r, w') ∧
        w'.ctx.xfersLeft < s.world.ctx.xfersLeft ∧
        (r = .cerSuccess ↔ w'.ctx.xfersLeft = 0)
  /-- The block it prepares does not keep the next call from being made. -/
  run : s.world.ctx.preparedBufblk.isSome → ∀ tdo, ∃ w', lsejtagRunJtag s.world tdo = .ok w'
  blocks : s.blocks.length + s.world.ctx.xfersLeft ≤ n

/-- The call returns with blocks of at least one transfer, and the write goes on
    until none is left. -/
def MakesProgress (w : World) (fastdata : Bool) (tdo : Nat → Bool) : Prop :=
  ∃ start, cmdimplFastMemWrite w fastdata tdo = .ok (.cerContinue, start) ∧
    1 ≤ start.ctx.xfersPerBufblk ∧
    ∀ s, (fastWrite start).Reachable s → KeepsProgress (dataLenXferCount w.ctx.cmd) s

theorem FastWriteInv.keepsProgress {start : World} {n : Nat} {s : XferState}
    (inv : FastWriteInv start n s) (some : 1 ≤ n) : KeepsProgress n s := by
  have goesOn := inv.goesOn
  constructor
  · intro active unprepared enough
    obtain ⟨r, w', returned, places⟩ := goesOn.call active unprepared
    have placed := places enough
    have notDone : ¬(s.result = .cerSuccess ∨ s.world.ctx.preparedBufblk.isSome = true) := by
      rw [unprepared]
      simpa using active
    have stepped : fastWriteStep s .call = .some (s.called r w') := by
      rw [fastWriteStep, if_neg notDone, returned]
    have after := inv.step stepped
    -- Something is left until the call that succeeds
    have left : s.world.ctx.xfersLeft ≠ 0 := by
      obtain ⟨success, -⟩ | ⟨-, none⟩ := inv.result
      · exact absurd success active
      · intro zero
        have := (none zero).2
        omega
    have next := goesOn.next left
    have total := inv.left
    have total' : (s.called r w').placed + w'.ctx.xfersLeft = n := after.left
    refine ⟨r, w', returned, by omega, ?_⟩
    obtain ⟨success, -, none⟩ | ⟨continues, more⟩ := after.result
    · exact ⟨fun _ => none, fun _ => success⟩
    · have isResult : r = .cerContinue := continues
      constructor
      · intro success
        rw [isResult] at success
        cases success
      · intro zero
        have noCall : s.calls + 1 = 0 := (more zero).1
        omega
  · exact goesOn.run
  · -- Every block has a transfer
    have counted : s.blocks.length ≤ s.placed := by
      have positive : ∀ xfers ∈ s.blocks.map XferBlock.xfers, 1 ≤ xfers := by
        intro xfers member
        obtain ⟨b, isBlock, rfl⟩ := List.mem_map.mp member
        exact (inv.placed b isBlock).2 some
      have sum := List.length_le_sum_of_one_le _ positive
      rw [List.length_map] at sum
      exact sum
    have total := inv.left
    omega

/-! ## The block size -/

theorem xfersPerBufblk_setup_pos_iff {ctx : LsejtagCtx} (fastdata : Bool)
    (some : 1 ≤ dataLenXferCount ctx.cmd) :
    1 ≤ (fastMemWriteSetup ctx fastdata).xfersPerBufblk ↔ ctx.cmdXferBits fastdata ≤ 2048 := by
  constructor
  · intro pos
    by_contra long
    have none : 2048 / ctx.cmdXferBits fastdata = 0 := Nat.div_eq_of_lt (by omega)
    have atMost : (fastMemWriteSetup ctx fastdata).xfersPerBufblk ≤
        2048 / ctx.cmdXferBits fastdata := by
      rw [← bitsPerXfer_setup_eq]
      exact (Nat.min_le_right _ _).trans (Nat.min_le_right _ _)
    omega
  · intro fits
    rw [← bitsPerXfer_setup_eq] at fits
    exact xfersPerBufblk_setup_pos ctx fastdata some fits

/-- For a fast write of at least one transfer: the block size is at least one
    exactly if a transfer fits a buffer, and the write makes progress exactly if
    its setup also stays inside the buffer and passes its assertion.  A write is
    followed up to its first access outside an array. -/
theorem fast_write_progress_iff {w : World} (fastdata : Bool) (tdo : Nat → Bool)
    (free : w.ctx.periphFree = true) (some : 1 ≤ dataLenXferCount w.ctx.cmd)
    (ir : 1 ≤ w.ctx.paramIrLenBits.toNat) (short : w.ctx.paramIrLenBits.toNat ≤ 8)
    (ring : w.rx.length ≤ usbrxCapacity) :
    (1 ≤ (fastMemWriteSetup w.ctx fastdata).xfersPerBufblk ↔
        w.ctx.cmdXferBits fastdata ≤ 2048) ∧
      (MakesProgress w fastdata tdo ↔
        w.ctx.cmdXferBits fastdata ≤ 2048 ∧ w.ctx.clearedDwords fastdata ≤ 64 ∧
          (fastdata = true ∨ chainedCoreCount w.ctx.cmd ≠ 0)) := by
  have blockSize := xfersPerBufblk_setup_pos_iff fastdata some
  refine ⟨blockSize, ?_⟩
  constructor
  · intro progress
    obtain ⟨start, returned, pos, -⟩ := progress
    obtain ⟨-, -, _, _, _, _, isStart⟩ := cmdimplFastMemWrite_ok returned
    have fits : w.ctx.cmdXferBits fastdata ≤ 2048 := by
      apply blockSize.mp
      rw [isStart] at pos
      exact pos
    have decided := fastMemWrite_decided w fastdata tdo free ir short fits
    have within : w.ctx.clearedDwords fastdata ≤ 64 := by
      -- Beyond the buffer the clear fails; without a core in the chain the assertion does.
      by_contra beyond
      rw [decided.overrun (by omega)] at returned
      cases returned
    have layout : fastdata = true ∨ chainedCoreCount w.ctx.cmd ≠ 0 := by
      by_contra differs
      rw [decided.mismatch within differs] at returned
      cases returned
    exact ⟨fits, within, layout⟩
  · intro condition
    obtain ⟨fits, within, layout⟩ := condition
    obtain ⟨start, returned, premade⟩ :=
      (fastMemWrite_decided w fastdata tdo free ir short fits).returns within layout
    refine ⟨start, returned, ?_, ?_⟩
    · rw [premade.xfers, ← xfersPerBufblk_setup_eq]
      exact blockSize.mpr fits
    · intro s reach
      have startFits : start.ctx.bitsPerXfer ≤ 2048 := premade.bits.trans_le fits
      exact (fastWriteInv_of_setup returned startFits ring reach).keepsProgress some

theorem fast_write_progress_middle_core : MakesProgress middleCore false (fun _ => false) :=
  (fast_write_progress_iff false _ (by decide +kernel) (by decide +kernel) (by decide +kernel)
    (by decide +kernel) (by decide)).2.mpr (by decide +kernel)

/-- The IR length is set to 8. -/
def setIrLen8 : List Lib.Byte := [0x01, 0x04, 0x00, 0x00, 0x73, 0x02, 8, 0, 0, 0]

/-- A fast write of one word without FASTDATA to the first of 127 cores. -/
def chain127 : List Lib.Byte := [127, 0x34, 1, 0, 1, 0, 0, 0, 0, 0]

/-- A transfer of 2368 bits does not fit: a block would have none. -/
theorem fast_write_to_127_cores_stalls : ∃ s, mainLoop.Reachable s ∧ s.pc = .execute ∧
    op s.world.ctx.cmd = some (writeOp false) ∧ s.world.ctx.continuation = false ∧
    s.world.ctx.periphFree = true ∧ s.world.ctx.paramIrLenBits = 8 ∧
    dataLenXferCount s.world.ctx.cmd = 1 ∧
    (fastMemWriteSetup s.world.ctx false).xfersPerBufblk = 0 ∧
    ¬MakesProgress s.world false (fun _ => false) := by
  have ran : (mainLoop.run Machine.anyAction .start
      ([.usbOut (setIrLen8 ++ chain127 ++ List.replicate 4 0xff)] ++ polls 64 3)).any (fun s =>
        decide (s.pc = .execute ∧ op s.world.ctx.cmd = some (writeOp false) ∧
          s.world.ctx.continuation = false ∧ s.world.ctx.periphFree = true ∧
          s.world.ctx.paramIrLenBits = 8 ∧ dataLenXferCount s.world.ctx.cmd = 1 ∧
          (fastMemWriteSetup s.world.ctx false).xfersPerBufblk = 0)) = true := by
    decide +kernel
  obtain ⟨s, reach, holds⟩ := Machine.exists_reach _ rfl ran
  obtain ⟨pc, isOp, fresh, free, ir, one, none⟩ := of_decide_eq_true holds
  refine ⟨s, reach, pc, isOp, fresh, free, ir, one, none, ?_⟩
  intro progress
  obtain ⟨start, returned, pos, -⟩ := progress
  obtain ⟨-, -, _, _, _, _, isStart⟩ := cmdimplFastMemWrite_ok returned
  have same : start.ctx.xfersPerBufblk = (fastMemWriteSetup s.world.ctx false).xfersPerBufblk := by
    rw [isStart]
    rfl
  omega

end LoongsonEjtag
