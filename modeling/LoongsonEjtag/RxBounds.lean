import LoongsonEjtag.ParserInv

/-! # What is asked of the RX ring

Which calls of `lsejtag_impl_usbrx_consume` ask for no more than the ring holds
and stay inside the command buffer.

All of them do in a run in which `wait_cfg` is never entered by a dispatch with
more bytes buffered than the configuration section has.  Where it is, the bytes
still to consume wrap to almost `2 ^ 32`.
-/

namespace LoongsonEjtag

open Lib (u32_eq sub32 sub32_wrap bind_eq_ok)
open Lib.Machine (anyAction)
open Wire

/-- Not more bytes are buffered than the configuration section has. -/
def LsejtagCtx.ConfigNotExceeded (ctx : LsejtagCtx) : Prop :=
  ∀ o ∈ op ctx.cmd, ctx.bufferedLength ≤ configEnd o ctx.cmd

instance (ctx : LsejtagCtx) : Decidable ctx.ConfigNotExceeded :=
  inferInstanceAs (Decidable (∀ o ∈ op ctx.cmd, _))

/-- The next step does not enter `wait_cfg` with the section exceeded. -/
def EntersWithinConfig (s : MainState) : MainInput → Prop
  | .usbOut _ => True
  | .poll _ _ => s.pc = .dispatch → s.world.ctx.Quiet →
      s.world.ctx.cmdBufState = .cbsWaitCfg → s.world.ctx.ConfigNotExceeded

instance (s : MainState) : (input : MainInput) → Decidable (EntersWithinConfig s input)
  | .usbOut _ => inferInstanceAs (Decidable True)
  | .poll _ _ => inferInstanceAs (Decidable (_ → _))

/-! ## Parser steps -/

/-- All events so far are within bounds. -/
def AllWithin (w : World) : Prop := ∀ e ∈ w.trace, WithinBounds e

section steps

variable {w w' : World}

theorem AllWithin.append {es : List Event} (within : AllWithin w)
    (trace : w'.trace = w.trace ++ es) (new : ∀ e ∈ es, WithinBounds e) : AllWithin w' := by
  intro e member
  rw [trace] at member
  exact (List.mem_append.mp member).elim (within e) (new e)

theorem Parsed.allWithin {sound : Prop} {k buffered waiting : Nat} {state : LsejtagCmdBufState}
    (parsed : Parsed sound w k w' state buffered waiting) (holds : sound)
    (within : AllWithin w) : AllWithin w' := by
  obtain ⟨es, trace, bounds⟩ := parsed.trace
  exact within.append trace (bounds holds)

theorem HeaderFetched.allWithin {middle : World} {h lenAvail : Nat}
    (fetched : HeaderFetched w h middle lenAvail) (within : AllWithin w) : AllWithin middle := by
  cases fetched with
  | there => exact within
  | second _ _ parsed => exact parsed.allWithin trivial within
  | both _ _ parsed => exact parsed.allWithin trivial within

/-- A header that was fetched just now does not exceed the section. -/
theorem HeaderFetched.notExceeded {middle : World} {h lenAvail : Nat} {o : LsejtagCmdOp}
    (fetched : HeaderFetched w h middle lenAvail) (isOp : op middle.ctx.cmd = some o)
    (entered : w.ctx.cmdBufState = .cbsWaitCfg → w.ctx.ConfigNotExceeded) :
    middle.ctx.bufferedLength ≤ configEnd o middle.ctx.cmd := by
  cases fetched with
  | there state => exact entered state o isOp
  | second _ _ parsed | both _ _ parsed => exact parsed.buffered.le.trans (configEnd_le o _)

theorem ParserStepped.allWithin {r : LsejtagDispatchResult}
    (entered : w.ctx.cmdBufState = .cbsWaitCfg → w.ctx.ConfigNotExceeded)
    (stepped : ParserStepped w r w') (within : AllWithin w) : AllWithin w' := by
  cases stepped with
  | firstByte _ _ _ parsed => exact parsed.allWithin trivial within
  | noByte | ready => exact within
  | unknown middle fetched => exact fetched.allWithin within
  | config middle fetched o isOp _ _ _ returned =>
    obtain ⟨state, buffered, waiting, k, parsed, -⟩ := returned
    exact parsed.allWithin (fetched.notExceeded isOp entered) (fetched.allWithin within)
  | payloadRest _ _ _ parsed | payload _ _ _ parsed => exact parsed.allWithin trivial within

theorem OutputOnly.allWithin (output : OutputOnly w w') (within : AllWithin w) :
    AllWithin w' := by
  obtain ⟨-, es, trace, output⟩ := output
  refine within.append trace fun e member => ?_
  have out := output e member
  cases e with
  | consume => cases out
  | _ => trivial

/-- A command consumes within bounds. -/
theorem Executed.allWithin {r : LsejtagCmdExecResult} (inv : ParserInv w.ctx)
    (ring : w.rx.length ≤ 256) (executed : Executed w r w') (within : AllWithin w) :
    AllWithin w' := by
  obtain output | ⟨fastdata, complete, middle, continues, isOp, fetched, output⟩ :=
    executed.fetches
  · exact output.allWithin within
  · obtain ⟨fits, partly⟩ := inv.writing continues isOp
    obtain ⟨-, k, parsed, -⟩ := fetched.write ring fits partly
    exact output.allWithin (parsed.allWithin trivial within)

end steps

/-! ## Runs -/

/-- All consumes so far are within bounds, and none has run past the buffer. -/
structure RxSound (s : MainState) : Prop where
  within : AllWithin s.world
  noOverrun : ∀ why, s.pc = .halted why → ¬why.IsOverrun

theorem Halt.IsFault.not_overrun {why : Halt} (fault : why.IsFault) : ¬why.IsOverrun := by
  cases why <;> simp_all [Halt.IsFault, Halt.IsOverrun]

theorem afterDispatch_noOverrun (r : LsejtagDispatchResult) (why : Halt)
    (halted : afterDispatch r = .halted why) : ¬why.IsOverrun := by
  cases r <;> simp only [afterDispatch, reduceCtorEq, MainPc.halted.injEq] at halted
  exact halted ▸ id

/-- Entered within the section, `wait_cfg` has room. -/
theorem cfgRoom_of_notExceeded {w : World}
    (entered : w.ctx.cmdBufState = .cbsWaitCfg → w.ctx.ConfigNotExceeded) : CfgRoom w :=
  fun state o isOp beyond => absurd (entered state o isOp) (Nat.not_le_of_lt beyond)

theorem RxSound.step {s s' : MainState} {input : MainInput} (parser : MainParser s)
    (inv : RxSound s) (entered : EntersWithinConfig s input) (stepped : MainStepped s input s') :
    RxSound s' := by
  obtain ⟨within, noOverrun⟩ := inv
  obtain ⟨rx, inv⟩ := parser
  have running : ∀ {pc}, s.pc = pc → (∀ why, pc ≠ .halted why) → ParserInv s.world.ctx :=
    fun is notHalted => inv fun why halted => notHalted why (is.symm.trans halted)
  cases stepped with
  | received bytes =>
    have trace : (s.world.receive bytes).trace = s.world.trace ++ [.usbOut bytes] := rfl
    exact ⟨within.append trace (by simp [WithinBounds]), noOverrun⟩
  | dispatched at_pc r w' dispatched =>
    refine ⟨?_, afterDispatch_noOverrun r⟩
    cases dispatched with
    | flushing | flushNew | run | empty => exact within
    | parsed quiet some _ _ parsed =>
      have entered := entered at_pc quiet
      obtain ⟨r', after, total, stepped⟩ := dispatchCmdBuf_stepped (running at_pc nofun) rx.ring
        some (cfgRoom_of_notExceeded entered)
      -- The command entered with its configuration inside the buffer, so the parser returns.
      cases parsed.symm.trans total
      exact stepped.allWithin entered within
  | executed at_pc _ _ r w' executed =>
    have inv : ParserInv s.world.enterExecute.ctx := running at_pc nofun
    have started : AllWithin s.world.enterExecute :=
      within.append rfl (by simp [WithinBounds])
    exact ⟨(executed.allWithin inv rx.ring started).append rfl (by simp [WithinBounds]), nofun⟩
  | flushed _ _ _ _ w' _ _ trace => exact ⟨within.append trace (by simp [WithinBounds]), nofun⟩
  | ran _ _ _ w' _ ran => exact ⟨within.append ran.trace (by simp [WithinBounds]), nofun⟩
  | nothingToRun => exact ⟨within, nofun⟩
  | dispatchFailed at_pc why failed =>
    obtain ⟨quiet, some, failed⟩ := lsejtagDispatch_error failed
    obtain ⟨_, _, total, -⟩ := dispatchCmdBuf_stepped (running at_pc nofun) rx.ring some
      (cfgRoom_of_notExceeded (entered at_pc quiet))
    cases failed.symm.trans total
  | executeFailed at_pc _ _ why failed =>
    have trace : s.world.enterExecute.trace = s.world.trace ++ [_] := rfl
    refine ⟨within.append trace (by simp [WithinBounds]), ?_⟩
    rintro _ ⟨⟩
    -- Either the command's own code failed, or the fetch of its payload, which the parser's
    -- invariant rules out.
    obtain fault | ⟨continues, ⟨fastdata, isOp⟩, failed⟩ := failed
    · exact fault.not_overrun
    · have inv : ParserInv s.world.enterExecute.ctx := running at_pc nofun
      obtain ⟨fits, partly⟩ := inv.writing continues isOp
      obtain ⟨_, _, _, total, -⟩ := fetchPayload_write (w := s.world.enterExecute) rx.ring fits
        partly
      cases failed.symm.trans total
  | callFailed why failed =>
    refine ⟨within, ?_⟩
    rintro _ ⟨⟩
    obtain fault | rfl := failed
    · exact fault.not_overrun
    · exact id

/-- `len` bytes were asked for, behind those that are buffered. -/
def Consumed (w : World) (len : Nat) (w' : World) : Prop :=
  .consume w.ctx.bufferedLength len w.rx.length (w.rx.take len) ∈ w'.trace

section consumed

variable {w w' : World} {r : LsejtagDispatchResult} {lenRx lenAvail : Nat}

theorem consumed_moved {len : Nat} {middle : World}
    (consumed : lsejtagImplUsbrxConsume w w.ctx.bufferedLength len = .ok middle)
    (moved : ParserMoved middle w') : Consumed w len w' := by
  obtain ⟨buf, -, rfl⟩ := lsejtagImplUsbrxConsume_ok consumed
  obtain ⟨es, trace, -⟩ := moved.trace
  rw [Consumed, trace]
  simp

theorem bufferMore_consumed {len : Nat} {middle : World} (fed : bufferMore w len = .ok middle)
    (moved : ParserMoved middle w') : Consumed w len w' := by
  obtain ⟨after, consumed, counted⟩ := bind_eq_ok.mp fed
  cases counted
  exact consumed_moved consumed ((ParserMoved.setCmdBuf after _).trans moved)

theorem waitIrdrCfg_consumed (enough : 4 < lenAvail)
    (waited : waitIrdrCfg w lenRx lenAvail = .ok (r, w')) :
    Consumed w (sub32 4 w.ctx.bufferedLength) w' := by
  simp only [waitIrdrCfg, gt_iff_lt, if_pos enough] at waited
  obtain ⟨after, fed, waited⟩ := bind_eq_ok.mp waited
  have entered := ParserMoved.setCmdBuf after
    (after.ctx.toWaitPayload (bit2dword (irseqLenBits after.ctx.cmd) * 4)).toCmdBuf
  split at waited
  · cases waited
    exact bufferMore_consumed fed entered
  · exact bufferMore_consumed fed (entered.trans (waitPayload_returned waited).moved)

theorem waitLoopbackCfg_consumed (enough : 6 < lenAvail)
    (waited : waitLoopbackCfg w lenRx lenAvail = .ok (r, w')) :
    Consumed w (sub32 6 w.ctx.bufferedLength) w' := by
  simp only [waitLoopbackCfg, gt_iff_lt, if_pos enough] at waited
  obtain ⟨after, consumed, finished⟩ := bind_eq_ok.mp waited
  cases finished
  exact consumed_moved consumed (.setCmdBuf after _)

theorem waitFastCfg_consumed {c : Nat} (enough : c < lenAvail)
    (waited : waitFastCfg w c lenRx lenAvail = .ok (r, w')) :
    Consumed w (sub32 c w.ctx.bufferedLength) w' := by
  simp only [waitFastCfg, gt_iff_lt, if_pos enough] at waited
  obtain ⟨after, fed, finished⟩ := bind_eq_ok.mp waited
  cases finished
  exact bufferMore_consumed fed (.setCmdBuf after _)

theorem waitCfg_consumed {o : LsejtagCmdOp} (isOp : op w.ctx.cmd = some o)
    (config : 2 < configEnd o w.ctx.cmd) (enough : configEnd o w.ctx.cmd < lenAvail)
    (waited : waitCfg w lenRx lenAvail = .ok (r, w')) :
    Consumed w (sub32 (configEnd o w.ctx.cmd) w.ctx.bufferedLength) w' := by
  simp only [waitCfg, isOp] at waited
  cases o with
  | opProbeMemRw | opIoManip | opGetFirmwareDate => exact absurd config (Nat.lt_irrefl 2)
  | opIrRw | opDrRw => exact waitIrdrCfg_consumed enough waited
  | opLoopbackTest => exact waitLoopbackCfg_consumed enough waited
  | opFastTargetMemWriteFastdata | opFastTargetMemWrite =>
    simp only [fastCfgEnd_eq] at waited
    exact waitFastCfg_consumed enough waited
  | opFastTargetMemReadFastdata | opFastTargetMemRead => exact waitFastCfg_consumed enough waited

end consumed

/-- A dispatch that enters `wait_cfg` with the section exceeded asks for more
    than the ring can hold, or does not return. -/
theorem exceeded_overreads {s : MainState} {ok : MainState → MainInput → Prop}
    (reach : mainLoop.Reach ok s) (running : s.Running) (quiet : s.world.ctx.Quiet)
    (state : s.world.ctx.cmdBufState = .cbsWaitCfg)
    (exceeded : ¬s.world.ctx.ConfigNotExceeded) {r : LsejtagDispatchResult} {w' : World}
    (dispatched : lsejtagDispatch s.world = .ok (r, w')) :
    ∃ len, 256 < len ∧ Consumed s.world len w' := by
  obtain ⟨⟨-, ring⟩, inv⟩ := mainLoop_parserInv reach
  rw [usbrxCapacity] at ring
  cases inv running with
  | waitCfg _ _ _ o isOp config header atMost =>
    have small := configEnd_le_ten o s.world.ctx.cmd
    have beyond : configEnd o s.world.ctx.cmd < s.world.ctx.bufferedLength := by
      simp only [LsejtagCtx.ConfigNotExceeded, Option.mem_def, isOp, Option.some.injEq,
        forall_eq'] at exceeded
      omega
    rw [lsejtagDispatch_quiet quiet (fun nothing => by omega), dispatchCmdBuf] at dispatched
    simp only [state] at dispatched
    refine ⟨_, ?_, waitCfg_consumed isOp config ?_ dispatched⟩
    · rw [sub32_wrap beyond (by omega)]
      omega
    · rw [u32_eq (by omega)]
      omega
  | _ state' => simp [state] at state'

/-- In every run in which `wait_cfg` is never entered with the section exceeded,
    every consume asks for bytes that are there and stays in the command buffer. -/
theorem consumes_within_bounds {s : MainState} (reach : mainLoop.Reach EntersWithinConfig s) :
    (∀ offset len avail got, .consume offset len avail got ∈ s.world.trace →
      len ≤ avail ∧ offset + len ≤ 256) ∧
    ∀ offset len avail, s.pc ≠ .halted (.consumeOverrun offset len avail) := by
  have sound : RxSound s := by
    apply reach.invariant
    · rintro s rfl
      exact ⟨List.forall_mem_nil _, nofun⟩
    · intro s s' input reach inv entered stepped
      have poll := mainStep_stepped (mainLoop_inv reach) stepped
      exact inv.step (mainLoop_parserInv reach) entered poll
  exact ⟨fun _ _ _ _ member => sound.within _ member,
    fun _ _ _ halted => sound.noOverrun _ halted trivial⟩

/-- A DR scan is received whole, and then a request for the firmware date. -/
theorem consumes_within_bounds_scan : ∃ s : MainState, s.world.rx = [] ∧
    (∀ offset len avail got, .consume offset len avail got ∈ s.world.trace →
      len ≤ avail ∧ offset + len ≤ 256) ∧
    ∀ offset len avail, s.pc ≠ .halted (.consumeOverrun offset len avail) := by
  have ran : (mainLoop.run EntersWithinConfig .start
      ([.usbOut [0x00, 0x14, 0x20, 0x00, 0x01, 0x02, 0x03, 0x04]] ++ polls 64 2)).any
      (fun s => decide (s.world.rx = [] ∧ s.pc = .dispatch)) = true := by
    decide +kernel
  obtain ⟨s, reach, holds⟩ := Lib.Machine.exists_reach _ rfl ran
  exact ⟨s, (of_decide_eq_true holds).1, consumes_within_bounds reach⟩

/-- A DR scan of 64 bits whose first 6 bytes arrive alone, and 4 more later: the
    second entry of `wait_cfg` asks for `2 ^ 32 - 2` bytes. -/
theorem split_scan_overreads : ∃ s : MainState, mainLoop.Reachable s ∧
    .consume 6 (2 ^ 32 - 2) 4 [0x03, 0x04, 0x05, 0x06] ∈ s.world.trace := by
  have ran : (mainLoop.run anyAction .start
      ([.usbOut [0x00, 0x16, 0x40, 0x00, 0x01, 0x02]] ++ polls 64 1 ++
        [.usbOut [0x03, 0x04, 0x05, 0x06]] ++ polls 64 1)).any
      (fun s => decide (.consume 6 (2 ^ 32 - 2) 4 [0x03, 0x04, 0x05, 0x06] ∈ s.world.trace)) =
        true := by
    decide +kernel
  obtain ⟨s, reach, holds⟩ := Lib.Machine.exists_reach _ rfl ran
  exact ⟨s, reach, of_decide_eq_true holds⟩

end LoongsonEjtag
