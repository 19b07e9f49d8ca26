import LoongsonEjtag.Engine

/-! # What a finished command leaves to the parser

`cmd_buf_clean` is called on every successful exit of a command but two: the
loopback test, which `lsejtag_execute` does not implement, and the early return
of `cmdimpl_io_manip` for a port above the maximum.  After these the same
command is executed again and again.
-/

namespace LoongsonEjtag

open Lib (bind_eq_ok)
open Lib.Machine (anyAction)
open Wire

/-- The parser is ready for a new command. -/
structure ParserClean (ctx : LsejtagCtx) : Prop where
  state : ctx.cmdBufState = .cbsClean
  buffered : ctx.bufferedLength = 0
  waiting : ctx.cmdBufWaitPayloadSize = 0
  continuation : ctx.continuation = false

theorem parserClean_cmdBufClean {ctx : LsejtagCtx} (fresh : ctx.continuation = false) :
    ParserClean (cmdBufClean ctx) :=
  ⟨rfl, rfl, rfl, fresh⟩

section commands

variable {w w' : World} {txFree : Nat} {tdo : Nat → Bool}

theorem finishXfers_clean (ends : finishXfers w = (.cerSuccess, w')) : ParserClean w'.ctx := by
  rw [finishXfers] at ends
  split at ends
  · cases ends
    exact ⟨rfl, rfl, rfl, rfl⟩
  · cases ends

theorem lsejtagImplRunJtag_cont {seq : JtagSeq} {pointer : Option Nat}
    (ran : lsejtagImplRunJtag w seq pointer tdo = .ok w') : w'.ctx.toContCtx = w.ctx.toContCtx := by
  obtain ⟨r, -, finished⟩ := bind_eq_ok.mp ran
  cases finished
  simp only [lsejtagJtagCompleteTdo, lsejtagJtagComplete, World.ctx_log, LsejtagCtx.completeTdo,
    LsejtagCtx.completeActive]
  split <;> simp

theorem ioManipPort_cont (port : ioManipPort w tdo = .ok w') :
    w'.ctx.toContCtx = w.ctx.toContCtx := by
  simp only [ioManipPort] at port
  split at port
  · cases port; rfl
  · cases port; rfl
  · cases port; rfl
  · cases port; rfl
  · obtain ⟨_, waited, port⟩ := bind_eq_ok.mp port
    cases waitUntilJtagPeriphFree_eq waited
    obtain ⟨_, ran, waited⟩ := bind_eq_ok.mp port
    cases waitUntilJtagPeriphFree_eq waited
    have kept := lsejtagImplRunJtag_cont ran
    exact kept
  · cases port; rfl

theorem cmdimplProbeMemRw_clean (fresh : w.ctx.continuation = false)
    (success : cmdimplProbeMemRw w txFree = .ok (.cerSuccess, w')) : ParserClean w'.ctx := by
  simp only [cmdimplProbeMemRw] at success
  split at success
  · obtain ⟨after, wrote, finished⟩ := bind_eq_ok.mp success
    obtain ⟨params, es, -, rfl⟩ := probeMemWrite_ok wrote
    cases finished
    exact parserClean_cmdBufClean fresh
  · split at success
    · cases success
    · cases success
      exact parserClean_cmdBufClean fresh

theorem cmdimplGetFirmwareDate_clean (fresh : w.ctx.continuation = false)
    (success : cmdimplGetFirmwareDate w txFree = .ok (.cerSuccess, w')) :
    ParserClean w'.ctx := by
  simp only [cmdimplGetFirmwareDate] at success
  split at success
  · cases success
  · cases success
    exact parserClean_cmdBufClean fresh

theorem cmdimplIrdrWrite_clean {isir : Bool} (fresh : w.ctx.continuation = false)
    (success : cmdimplIrdrWrite w isir = .ok (.cerSuccess, w')) : ParserClean w'.ctx := by
  simp only [cmdimplIrdrWrite] at success
  split at success
  · cases success
  · split at success
    · cases success
    · obtain ⟨blk, -, finished⟩ := bind_eq_ok.mp success
      cases finished
      exact parserClean_cmdBufClean (by simpa using fresh)

/-- An I/O command cleans up exactly if its port is in range. -/
theorem cmdimplIoManip_clean (fresh : w.ctx.continuation = false)
    (ready : w.ctx.cmdBufState = .cbsExecute)
    (success : cmdimplIoManip w tdo = .ok (.cerSuccess, w')) :
    ParserClean w'.ctx ↔ portId w.ctx.cmd ≤ ioMaximum := by
  simp only [cmdimplIoManip] at success
  split at success
  · rename_i above
    cases success
    exact ⟨fun clean => by simp [clean.state] at ready, fun within => absurd above (by omega)⟩
  · rename_i within
    obtain ⟨after, port, finished⟩ := bind_eq_ok.mp success
    cases finished
    refine ⟨fun _ => by omega, fun _ => parserClean_cmdBufClean ?_⟩
    rw [ioManipPort_cont port]
    exact fresh

/-- The commands with a continuation do not finish in their first call. -/
theorem fastMem_continues {useFastdata : Bool} {r : LsejtagCmdExecResult} :
    (cmdimplFastMemWrite w useFastdata tdo = .ok (r, w') → r = .cerContinue) ∧
    (cmdimplFastMemRead w useFastdata tdo = .ok (r, w') → r = .cerContinue) := by
  constructor
  · exact fun returned => (cmdimplFastMemWrite_ok returned).2.1
  · intro returned
    simp only [cmdimplFastMemRead] at returned
    obtain ⟨_, -, returned⟩ := bind_eq_ok.mp returned
    obtain ⟨_, -, returned⟩ := bind_eq_ok.mp returned
    obtain ⟨_, -, returned⟩ := bind_eq_ok.mp returned
    obtain ⟨_, -, returned⟩ := bind_eq_ok.mp returned
    obtain ⟨_, -, returned⟩ := bind_eq_ok.mp returned
    split at returned
    · cases returned
    · cases returned
      rfl

/-- A continuation that succeeds has placed its last transfer and cleans up. -/
theorem lsejtagExecuteContinuation_clean
    (success : lsejtagExecuteContinuation w = .ok (.cerSuccess, w')) : ParserClean w'.ctx := by
  have write : cmdimplContinueFastMemWrite w = .ok (.cerSuccess, w') → ParserClean w'.ctx := by
    intro success
    obtain ⟨⟨complete, middle⟩, -, placed⟩ := bind_eq_ok.mp success
    cases complete with
    | false => cases placed
    | true =>
      simp only [if_true, prepareWriteBlock] at placed
      split at placed
      · cases placed
      · obtain ⟨tdi, -, finished⟩ := bind_eq_ok.mp placed
        exact finishXfers_clean (Except.ok.inj finished)
  have read : cmdimplContinueFastMemRead w = .ok (.cerSuccess, w') → ParserClean w'.ctx := by
    intro success
    simp only [cmdimplContinueFastMemRead] at success
    split at success
    · cases success
    · split at success
      · cases success
      · exact finishXfers_clean (Except.ok.inj success)
  simp only [lsejtagExecuteContinuation] at success
  split at success
  · exact write success
  · exact write success
  · exact read success
  · exact read success
  · cases success

theorem executeCommand_clean (fresh : w.ctx.continuation = false)
    (ready : w.ctx.cmdBufState = .cbsExecute)
    (success : executeCommand w txFree tdo = .ok (.cerSuccess, w')) :
    ParserClean w'.ctx ↔ cleansUp w.ctx.cmd = true := by
  have unclean : w' = w → ¬ParserClean w'.ctx := by
    rintro rfl clean
    simp [clean.state] at ready
  simp only [executeCommand] at success
  split at success
  · rename_i isOp
    simpa [cleansUp, isOp] using cmdimplProbeMemRw_clean fresh success
  · rename_i isOp
    simpa [cleansUp, isOp] using cmdimplIoManip_clean fresh ready success
  · rename_i isOp
    simpa [cleansUp, isOp] using cmdimplIrdrWrite_clean fresh success
  · rename_i isOp
    simpa [cleansUp, isOp] using cmdimplIrdrWrite_clean fresh success
  · rename_i isOp
    simpa [cleansUp, isOp] using unclean (Prod.mk.inj (Except.ok.inj success)).2.symm
  · cases fastMem_continues.1 success
  · cases fastMem_continues.1 success
  · cases fastMem_continues.2 success
  · cases fastMem_continues.2 success
  · rename_i isOp
    simpa [cleansUp, isOp] using cmdimplGetFirmwareDate_clean fresh success
  · rename_i isOp
    simpa [cleansUp, isOp] using unclean (Prod.mk.inj (Except.ok.inj success)).2.symm

end commands

/-- A call of `lsejtag_execute` that succeeds leaves the parser clean exactly if
    it ended a continuation or its command is one that cleans up. -/
theorem finished_command_clean_iff {w w' : World} {txFree : Nat} {tdo : Nat → Bool}
    (ready : w.ctx.cmdBufState = .cbsExecute)
    (success : lsejtagExecute w txFree tdo = .ok (.cerSuccess, w')) :
    ParserClean w'.ctx ↔ w.ctx.continuation = true ∨ cleansUp w.ctx.cmd = true := by
  simp only [lsejtagExecute, ready, ne_eq, not_true_eq_false, if_false] at success
  split at success
  · rename_i continues
    simpa [continues] using lsejtagExecuteContinuation_clean success
  · rename_i fresh
    have fresh : w.ctx.continuation = false := by simpa using fresh
    simpa [fresh] using executeCommand_clean fresh ready success

/-- The other commands succeed without any effect. -/
theorem lsejtagExecute_unclean {w : World} (txFree : Nat) (tdo : Nat → Bool)
    (ready : w.ctx.cmdBufState = .cbsExecute) (fresh : w.ctx.continuation = false)
    (unclean : cleansUp w.ctx.cmd = false) :
    lsejtagExecute w txFree tdo = .ok (.cerSuccess, w) := by
  simp only [lsejtagExecute, ready, fresh, executeCommand, ne_eq, not_true_eq_false, if_false,
    Bool.false_eq_true]
  cases isOp : op w.ctx.cmd with
  | none => rfl
  | some o =>
    cases o with
    | opIoManip =>
      have above : portId w.ctx.cmd > ioMaximum := by simpa [cleansUp, isOp] using unclean
      simp only [cmdimplIoManip, if_pos above]
    | opLoopbackTest => rfl
    | _ => simp [cleansUp, isOp] at unclean

/-- The firmware date is answered and the parser is clean. -/
theorem finished_command_clean_firmware_date : ∃ (s : MainState) (w' : World),
    lsejtagExecute s.world 64 (fun _ => false) = .ok (.cerSuccess, w') ∧ ParserClean w'.ctx := by
  have ran : (mainLoop.run anyAction .start ([.usbOut [0x00, 0x7c]] ++ polls 64 1)).any
      (fun s => decide (s.world.ctx.cmdBufState = .cbsExecute ∧ cleansUp s.world.ctx.cmd = true) &&
        (match lsejtagExecute s.world 64 (fun _ => false) with
          | .ok (.cerSuccess, _) => true
          | _ => false)) = true := by
    decide +kernel
  obtain ⟨s, -, holds⟩ := Lib.Machine.exists_reach _ rfl ran
  obtain ⟨state, succeeded⟩ := Bool.and_eq_true_iff.mp holds
  obtain ⟨ready, cleans⟩ := of_decide_eq_true state
  split at succeeded
  · rename_i w' success
    exact ⟨s, w', success, (finished_command_clean_iff ready success).mpr (.inr cleans)⟩
  · cases succeeded

/-- A loopback test, with two requests for the firmware date behind it, succeeds
    and stays in the buffer. -/
theorem loopback_test_stays : ∃ (s : MainState) (w' : World), mainLoop.Reachable s ∧
    s.pc = .execute ∧ s.world.ctx.cmdBufState = .cbsExecute ∧
    lsejtagExecute s.world 64 (fun _ => false) = .ok (.cerSuccess, w') ∧
    ¬ParserClean w'.ctx := by
  have ran : (mainLoop.run anyAction .start
      ([.usbOut [0x00, 0x20, 0x01, 0x02, 0x03, 0x04, 0x00, 0x7c, 0x00, 0x7c]] ++ polls 64 1)).any
      (fun s => decide (s.pc = .execute ∧ s.world.ctx.cmdBufState = .cbsExecute ∧
        s.world.ctx.continuation = false ∧ cleansUp s.world.ctx.cmd = false)) = true := by
    decide +kernel
  obtain ⟨s, reach, holds⟩ := Lib.Machine.exists_reach _ rfl ran
  obtain ⟨at_pc, ready, fresh, unclean⟩ := of_decide_eq_true holds
  exact ⟨s, s.world, reach, at_pc, ready, lsejtagExecute_unclean _ _ ready fresh unclean,
    fun clean => by simp [clean.state] at ready⟩

end LoongsonEjtag
