import LoongsonEjtag.BlockOrder
import LoongsonEjtag.TargetCore

/-! # FASTDATA is not selected

`select_fastdata` builds an IR scan in `jtagbuf_a`, but no block that
`lsejtag_run_jtag` would run: nothing of it gets to the pins.

* `jtagPins` — the bits that calls of `lsejtag_impl_run_jtag` are given.
* `BeforeBlocks` — a fast write with FASTDATA that has not prepared a block yet.
* `fastdata_never_selected` — in all runs no bit is handed over before the first
  block of the write.
-/

namespace LoongsonEjtag

open Lib (Machine Tap)
open Wire

/-! ## Bits on the pins -/

/-- TMS and TDI of a sequence, clock by clock. -/
def JtagSeq.pins (seq : JtagSeq) : List (Bool × Bool) :=
  (List.range seq.tdiBits).map fun p =>
    ((seq.tms.getD (p / 32) 0).getLsbD (p % 32), (seq.tdi.getD (p / 32) 0).getLsbD (p % 32))

/-- The bits an event hands to `lsejtag_impl_run_jtag`. -/
def Event.jtagPins : Event → List (Bool × Bool)
  | .runBlock seq | .runDirect seq => seq.pins
  | _ => []

/-- The bits handed over by a stretch of the trace. -/
def jtagPins (es : List Event) : List (Bool × Bool) := es.flatMap Event.jtagPins

/-- From Run-Test/Idle, the bits make one scan, which puts FASTDATA into the IR of
    the target core and SKIP into all others, and return. -/
structure SelectsFastdata (ctx : LsejtagCtx) (pins : List (Bool × Bool)) : Prop where
  scan : (Tap.idle.run pins).scans = [⟨.instruction,
    chainBits ctx ctx.paramIrFastdata (lastCoreFirst ctx) ctx.coreCount⟩]
  returns : (Tap.idle.run pins).state = .runTestIdle

section pins

variable {es fs : List Event}

theorem jtagPins_prefix (first : es <+: fs) (none : jtagPins fs = []) : jtagPins es = [] := by
  apply List.flatMap_eq_nil_iff.mpr
  intro e member
  exact List.flatMap_eq_nil_iff.mp none e (first.subset member)

/-- The parser only consumes. -/
theorem ParserMoved.jtagPins_eq {w w' : World} (moved : ParserMoved w w') :
    ∃ es, w'.trace = w.trace ++ es ∧ jtagPins es = [] ∧ preparedSeqs es = [] := by
  obtain ⟨es, trace, consumes⟩ := moved.trace
  refine ⟨es, trace, ?_, ?_⟩
  all_goals
    apply List.flatMap_eq_nil_iff.mpr
    intro e member
    obtain ⟨_, _, _, _, rfl⟩ := consumes e member
    rfl

/-- No scan without bits. -/
theorem not_selectsFastdata_nil (ctx : LsejtagCtx) : ¬SelectsFastdata ctx [] := by
  intro selects
  have scan := selects.scan
  cases scan

end pins

/-! ## Up to the first block -/

/-- The command that is being executed. -/
def LsejtagCtx.currentOp (ctx : LsejtagCtx) : Option LsejtagCmdOp :=
  if ctx.continuation then LsejtagCmdOp.ofCode? ctx.contOp else op ctx.cmd

/-- A fast write with FASTDATA that has not prepared a block, or a program that has
    stopped. -/
inductive BeforeBlocks (s : MainState) : Prop
  | writing (state : s.world.ctx.cmdBufState = .cbsExecute)
      (isOp : s.world.ctx.currentOp = some (writeOp true))
      (unprepared : s.world.ctx.jtagbufA.prepared = false)
  | halted (why : Halt) (at_pc : s.pc = .halted why)

/-- Nothing is handed over between `s` and `s'`, and as long as no block is
    prepared the write is still before its blocks. -/
def HandsNothing (s s' : MainState) : Prop :=
  ∃ es, s'.world.trace = s.world.trace ++ es ∧ jtagPins es = [] ∧
    (preparedSeqs es = [] → BeforeBlocks s')

section steps

variable {s s' : MainState} {w w' : World}

theorem HandsNothing.same (trace : s'.world.trace = s.world.trace) (before : BeforeBlocks s') :
    HandsNothing s s' :=
  ⟨[], by rw [trace, List.append_nil], rfl, fun _ => before⟩

/-- A call of `lsejtag_execute` is bracketed by its own two events. -/
theorem HandsNothing.of_call {r : LsejtagCmdExecResult} {es : List Event}
    (trace : w'.trace = w.enterExecute.trace ++ es) (none : jtagPins es = [])
    (before : preparedSeqs es = [] → BeforeBlocks ⟨w'.log (.executed r), .dispatch⟩) :
    HandsNothing ⟨w, .execute⟩ ⟨w'.log (.executed r), .dispatch⟩ := by
  have enter : w.enterExecute.trace = w.trace ++ [.execute w.ctx.continuation w.ctx.cmd] := rfl
  refine ⟨.execute w.ctx.continuation w.ctx.cmd :: (es ++ [.executed r]), ?_, ?_, ?_⟩
  · simp [trace, enter]
  · simp [jtagPins, Event.jtagPins, List.flatMap_append] at none ⊢
    exact none
  · intro unprepared
    apply before
    simpa [Event.preparedSeq] using unprepared

/-- The dispatcher leaves a command alone that is being executed. -/
theorem Dispatched.handsNothing {r : LsejtagDispatchResult}
    (state : w.ctx.cmdBufState = .cbsExecute) (isOp : w.ctx.currentOp = some (writeOp true))
    (unprepared : w.ctx.jtagbufA.prepared = false) (dispatched : Dispatched w r w') :
    HandsNothing ⟨w, .dispatch⟩ ⟨w', afterDispatch r⟩ := by
  cases dispatched with
  | flushing => exact .same rfl (.writing state isOp unprepared)
  | flushNew => exact .same rfl (.writing state isOp unprepared)
  | run => exact .same rfl (.writing state isOp unprepared)
  | empty => exact .same rfl (.writing state isOp unprepared)
  | parsed _ _ _ _ parsed =>
    simp only [dispatchCmdBuf, state] at parsed
    cases parsed
    exact .same rfl (.writing state isOp unprepared)

theorem Executed.handsNothing {r : LsejtagCmdExecResult}
    (state : w.ctx.cmdBufState = .cbsExecute) (isOp : w.ctx.currentOp = some (writeOp true))
    (unprepared : w.ctx.jtagbufA.prepared = false) (executed : Executed w.enterExecute r w') :
    HandsNothing ⟨w, .execute⟩ ⟨w'.log (.executed r), .dispatch⟩ := by
  -- The current opcode is the one in the buffer or the one kept for continuing.
  have freshOp : w.ctx.continuation = false → op w.ctx.cmd = some (writeOp true) := by
    intro fresh
    rw [LsejtagCtx.currentOp, fresh] at isOp
    exact isOp
  have contOp : w.ctx.continuation = true →
      LsejtagCmdOp.ofCode? w.ctx.contOp = some (writeOp true) := by
    intro continues
    rw [LsejtagCtx.currentOp, continues] at isOp
    exact isOp
  have writes : op w.ctx.cmd = some (writeOp true) →
      ¬isAtOnce w.ctx.cmd ∧ ¬isIrdr w.ctx.cmd ∧ cleansUp w.ctx.cmd = true := by
    intro isWrite
    simp [isAtOnce, isIrdr, cleansUp, isWrite, writeOp]
  -- The block is unprepared on entry, so only the call that prepares the first data block
  -- can hand bits over, and the prefix then holds its `prepared` event.
  cases executed with
  | awaitTx fresh =>
    apply HandsNothing.of_call (List.append_nil _).symm rfl
    intro _
    exact .writing state isOp unprepared
  | awaitFlush fresh irdr => exact absurd irdr (writes (freshOp fresh)).2.1
  | answered fresh _ atOnce => exact absurd atOnce (writes (freshOp fresh)).1
  | tapReset fresh _ atOnce => exact absurd atOnce (writes (freshOp fresh)).1
  | kept fresh cleans =>
    have cleanUp := (writes (freshOp fresh)).2.2
    rw [show cleansUp w.ctx.cmd = false from cleans] at cleanUp
    cases cleanUp
  | scanned fresh irdr => exact absurd irdr (writes (freshOp fresh)).2.1
  | writeStarted fresh fastdata starts =>
    apply HandsNothing.of_call rfl rfl
    intro _
    exact .writing state (freshOp fresh) unprepared
  | readStarted fresh fastdata starts =>
    have isRead : op w.ctx.cmd = some (readOp fastdata) := starts
    rw [freshOp fresh] at isRead
    cases fastdata <;> cases isRead
  | payloadShort continues fastdata _ _ fetched =>
    obtain ⟨es, trace, none, -⟩ := fetched.moved.jtagPins_eq
    apply HandsNothing.of_call trace none
    intro _
    have cont := fetched.moved.cont
    have engine := (SameEngine.truncateXfers w.ctx).trans fetched.moved.sameEngine
    have going : w'.ctx.continuation = true := by
      rw [cont]
      exact (continuation_truncateXfers w.ctx).trans continues
    refine .writing ?_ ?_ ?_
    · -- The fetch changes the buffer and its length
      have sameState : w'.ctx.cmdBufState = (truncateXfers w.ctx).cmdBufState := by
        cases fetched
        rfl
      have sameCmd := toCmdBuf_truncateXfers w.ctx
      change w'.ctx.cmdBufState = _
      rw [sameState, sameCmd]
      exact state
    · change LsejtagCtx.currentOp w'.ctx = _
      rw [LsejtagCtx.currentOp, going, if_pos rfl, cont]
      exact (congrArg LsejtagCmdOp.ofCode? (contOp_truncateXfers w.ctx)).trans (contOp continues)
    · rw [← unprepared]
      exact congrArg JtagbufBlk.prepared engine.blockA
  | blockWritten continues fastdata _ middle fetched tdi filled r w' ends =>
    obtain ⟨es, trace, none, -⟩ := fetched.moved.jtagPins_eq
    obtain ⟨-, sameTrace, -⟩ := finishXfers_same ends
    obtain ⟨seq, added⟩ : ∃ seq, w'.trace = middle.trace ++ [.prepared seq] := ⟨_, sameTrace⟩
    have trace' : w'.trace = w.enterExecute.trace ++ (es ++ [.prepared seq]) := by
      rw [added, trace, List.append_assoc]
    apply HandsNothing.of_call trace'
    · rw [jtagPins, List.flatMap_append, ← jtagPins, none]
      rfl
    · intro unprepared
      simp [Event.preparedSeq] at unprepared
  | readFull continues fastdata reads =>
    have isRead : LsejtagCmdOp.ofCode? w.ctx.contOp = some (readOp fastdata) := reads
    rw [contOp continues] at isRead
    cases fastdata <;> cases isRead
  | blockRead continues fastdata reads =>
    have isRead : LsejtagCmdOp.ofCode? w.ctx.contOp = some (readOp fastdata) := reads
    rw [contOp continues] at isRead
    cases fastdata <;> cases isRead
  | badContinue continues unknown => exact absurd (contOp continues) (unknown true).1

theorem BeforeBlocks.step {input : MainInput} (before : BeforeBlocks s)
    (stepped : MainStepped s input s') : HandsNothing s s' := by
  cases before with
  | halted why at_pc =>
    cases stepped with
    | received bytes => exact ⟨[.usbOut bytes], rfl, rfl, fun _ => .halted why at_pc⟩
    | callFailed why => exact .same rfl (.halted why rfl)
    | dispatched here => exact absurd (at_pc.symm.trans here) (by simp)
    | executed here => exact absurd (at_pc.symm.trans here) (by simp)
    | flushed here => exact absurd (at_pc.symm.trans here) (by simp)
    | ran here => exact absurd (at_pc.symm.trans here) (by simp)
    | nothingToRun here => exact absurd (at_pc.symm.trans here) (by simp)
    | dispatchFailed here => exact absurd (at_pc.symm.trans here) (by simp)
    | executeFailed here => exact absurd (at_pc.symm.trans here) (by simp)
  | writing state isOp unprepared =>
    cases stepped with
    | received bytes =>
      exact ⟨[.usbOut bytes], rfl, rfl, fun _ => .writing state isOp unprepared⟩
    | dispatched _ r w' dispatched => exact dispatched.handsNothing state isOp unprepared
    | executed _ _ _ r w' executed => exact executed.handsNothing state isOp unprepared
    | flushed _ _ dwords _ w' ctx _ trace =>
      refine ⟨[.flush _], trace, rfl, fun _ => ?_⟩
      rw [LsejtagCtx.flushedTdo] at ctx
      -- A flush touches the queue of TDO dwords only
      split at ctx
      all_goals exact .writing (ctx ▸ state) (ctx ▸ isOp) (ctx ▸ unprepared)
    | ran _ _ _ _ prepared =>
      rw [unprepared] at prepared
      cases prepared
    | nothingToRun => exact .same rfl (.writing state isOp unprepared)
    | dispatchFailed _ why => exact .same rfl (.halted why rfl)
    | executeFailed _ _ _ why => exact ⟨[.execute _ _], rfl, rfl, fun _ => .halted why rfl⟩
    | callFailed why => exact .same rfl (.halted why rfl)

end steps

/-- What is handed over from `s` to `t`: nothing before the first block. -/
def NothingBeforeBlocks (s t : MainState) : Prop :=
  ∃ es, t.world.trace = s.world.trace ++ es ∧
    (∀ first, first <+: es → preparedSeqs first = [] → jtagPins first = []) ∧
    (preparedSeqs es = [] → BeforeBlocks t)

theorem NothingBeforeBlocks.step {s t t' : MainState} {input : MainInput}
    (so_far : NothingBeforeBlocks s t) (stepped : MainStepped t input t') :
    NothingBeforeBlocks s t' := by
  obtain ⟨es, trace, nothing, before⟩ := so_far
  by_cases none : preparedSeqs es = []
  · obtain ⟨fs, added, silent, still⟩ := (before none).step stepped
    refine ⟨es ++ fs, by rw [added, trace, List.append_assoc], ?_, ?_⟩
    · intro first isFirst unprepared
      have silentAll : jtagPins (es ++ fs) = [] := by
        rw [jtagPins, List.flatMap_append, ← jtagPins, ← jtagPins, silent,
          nothing es (List.prefix_refl es) none, List.append_nil]
      exact jtagPins_prefix isFirst silentAll
    · intro unprepared
      rw [preparedSeqs_append, none, List.nil_append] at unprepared
      exact still unprepared
  · obtain ⟨fs, added⟩ := stepped.callStep.grows
    refine ⟨es ++ fs, by rw [added, trace, List.append_assoc], ?_, ?_⟩
    · intro first isFirst unprepared
      -- The first block is in `es`, so `first` ends before it.
      obtain within | ⟨rest, rfl⟩ :=
        List.prefix_or_prefix_of_prefix isFirst (List.prefix_append es fs)
      · exact nothing first within unprepared
      · rw [preparedSeqs_append] at unprepared
        exact absurd (List.append_eq_nil_iff.mp unprepared).1 none
    · intro unprepared
      rw [preparedSeqs_append] at unprepared
      exact absurd (List.append_eq_nil_iff.mp unprepared).1 none

/-- In no run does a fast write with FASTDATA hand a bit to the engine before its
    first block is ready, so it does not select FASTDATA. -/
theorem fastdata_never_selected {s t : MainState} (reach : mainLoop.Reachable s)
    (ready : s.pc = .execute) (fresh : s.world.ctx.continuation = false)
    (isOp : op s.world.ctx.cmd = some (writeOp true))
    (later : (mainLoop.startingAt s).Reachable t) {es first : List Event}
    (trace : t.world.trace = s.world.trace ++ es) (isFirst : first <+: es)
    (unprepared : preparedSeqs first = []) :
    jtagPins first = [] ∧
      ¬SelectsFastdata (fastMemWriteSetup s.world.ctx true) (jtagPins first) := by
  obtain ⟨quiet, state⟩ := (mainLoop_inv reach).pc.execute ready
  have current : s.world.ctx.currentOp = some (writeOp true) := by
    rw [LsejtagCtx.currentOp, fresh]
    exact isOp
  -- Along the run the trace gains no pin event before a `prepared` one.
  have nothing : NothingBeforeBlocks s t := by
    apply later.invariant
    · rintro s rfl
      refine ⟨[], (List.append_nil _).symm, ?_, ?_⟩
      · intro first isFirst _
        rw [List.prefix_nil.mp isFirst]
        rfl
      · intro _
        exact .writing state current quiet.noBlockA
    · intro t t' input before so_far _ stepped
      have inv := mainLoop_inv (before.further reach)
      exact so_far.step (mainStep_stepped inv stepped)
  obtain ⟨es', trace', noBits, -⟩ := nothing
  have same : es' = es := List.append_cancel_left (trace'.symm.trans trace)
  have silent : jtagPins first = [] := noBits first (same ▸ isFirst) unprepared
  refine ⟨silent, ?_⟩
  rw [silent]
  exact not_selectsFastdata_nil _

/-- A fast write of one word with FASTDATA to a single chained core. -/
def oneCoreFastdata : List Lib.Byte := [1, 0x30, 1, 0, 1, 0, 0, 0, 0, 0] ++ List.replicate 8 0xff

/-- Its whole run.  The sixth event is its block becoming ready. -/
theorem oneCoreFastdata_run : ∃ s t es, mainLoop.Reachable s ∧ s.pc = .execute ∧
    s.world.ctx.continuation = false ∧ op s.world.ctx.cmd = some (writeOp true) ∧
    chainedCoreCount s.world.ctx.cmd = 1 ∧ s.world.ctx.paramIrLenBits = 5 ∧
    (mainLoop.startingAt s).Reachable t ∧ t.world.trace = s.world.trace ++ es ∧
    preparedSeqs (es.take 5) = [] ∧ preparedSeqs (es.take 6) ≠ [] ∧
    .executed .cerSuccess ∈ es ∧ jtagPins (es.take 5) = [] ∧
    (Tap.idle.run (jtagPins es)).scans.map Lib.TapScan.reg = [.data] := by
  have ran : (mainLoop.run Machine.anyAction .start ([.usbOut oneCoreFastdata] ++ polls 64 1)).any
      (fun s => decide (s.pc = .execute ∧ s.world.ctx.continuation = false ∧
          op s.world.ctx.cmd = some (writeOp true) ∧ chainedCoreCount s.world.ctx.cmd = 1 ∧
          s.world.ctx.paramIrLenBits = 5) &&
        ((mainLoop.startingAt s).run Machine.anyAction s (polls 64 5)).any fun t =>
          let es := t.world.trace.drop s.world.trace.length
          decide (t.world.trace = s.world.trace ++ es ∧ preparedSeqs (es.take 5) = [] ∧
            preparedSeqs (es.take 6) ≠ [] ∧ .executed .cerSuccess ∈ es ∧
            jtagPins (es.take 5) = [] ∧
            (Tap.idle.run (jtagPins es)).scans.map Lib.TapScan.reg = [.data])) = true := by
    decide +kernel
  obtain ⟨s, reach, holds⟩ := Machine.exists_reach _ rfl ran
  obtain ⟨here, ran⟩ := Bool.and_eq_true_iff.mp holds
  obtain ⟨pc, fresh, isOp, cores, ir⟩ := of_decide_eq_true here
  obtain ⟨t, later, holds⟩ := Machine.exists_reach _ rfl ran
  exact ⟨s, t, _, reach, pc, fresh, isOp, cores, ir, later, of_decide_eq_true holds⟩

theorem oneCoreFastdata_hands_nothing : ∃ first, preparedSeqs first = [] ∧ first ≠ [] ∧
    jtagPins first = [] := by
  obtain ⟨s, t, es, reach, pc, fresh, isOp, -, -, later, trace, none, some, -⟩ :=
    oneCoreFastdata_run
  refine ⟨es.take 5, none, ?_, (fastdata_never_selected reach pc fresh isOp later trace
    (List.take_prefix 5 es) none).1⟩
  rintro empty
  have isNil : es = [] := by simpa using empty
  rw [isNil] at some
  exact some rfl

/-- What reaches the pins is the DR scan of the block alone. -/
theorem fastdata_write_to_one_core_unselected : ∃ s t es, mainLoop.Reachable s ∧
    s.pc = .execute ∧ s.world.ctx.continuation = false ∧
    op s.world.ctx.cmd = some (writeOp true) ∧ chainedCoreCount s.world.ctx.cmd = 1 ∧
    s.world.ctx.paramIrLenBits = 5 ∧ (mainLoop.startingAt s).Reachable t ∧
    t.world.trace = s.world.trace ++ es ∧
    preparedSeqs (es.take 5) = [] ∧ preparedSeqs (es.take 6) ≠ [] ∧
    ¬SelectsFastdata (fastMemWriteSetup s.world.ctx true) (jtagPins (es.take 5)) ∧
    .executed .cerSuccess ∈ es ∧
    (Tap.idle.run (jtagPins es)).scans.map Lib.TapScan.reg = [.data] := by
  obtain ⟨s, t, es, reach, pc, fresh, isOp, cores, ir, later, trace, none, some, success, nothing,
    scans⟩ := oneCoreFastdata_run
  refine ⟨s, t, es, reach, pc, fresh, isOp, cores, ir, later, trace, none, some, ?_, success, scans⟩
  rw [nothing]
  exact not_selectsFastdata_nil _

end LoongsonEjtag
