import LoongsonEjtag.Engine
import LoongsonEjtag.Lib.History

/-! # JTAG order and buffer discipline

Where the calls of `lsejtag_execute` stand in a trace, and what that says about
the blocks prepared and handed to the engine before them.

* `CallStep` — a step of the main loop is inside a call or is one.
* `WaitsNext`, `handedNext` — what the main loop does with a block that waits.
* `handed_within` — it is handed over with the second call at the latest.
* `jtag_blocks_in_order` — order and buffer discipline together.
-/

namespace LoongsonEjtag

open Lib (Byte Dword Each each_nil each_snoc)
open Lib.Machine (anyAction)
open Wire

/-! ## The calls in a trace -/

namespace Event

/-- Not the start or the end of a call of `lsejtag_execute`. -/
def isInner : Event → Bool
  | .execute _ _ | .executed _ => false
  | _ => true

end Event

/-- Only events inside or between calls. -/
def AllInner (t : List Event) : Prop := ∀ e ∈ t, e.isInner = true

instance (t : List Event) : Decidable (AllInner t) :=
  inferInstanceAs (Decidable (∀ e ∈ t, e.isInner = true))

theorem AllInner.append {t u : List Event} (first : AllInner t) (second : AllInner u) :
    AllInner (t ++ u) :=
  fun e member => (List.mem_append.mp member).elim (first e) (second e)

theorem AllAnswers.allInner {t : List Event} (answers : AllAnswers t) : AllInner t := by
  intro e member
  have := answers e member
  cases e <;> simp_all [Event.isInner, Event.isAnswer]

theorem ParserMoved.inner {w w' : World} (moved : ParserMoved w w') :
    ∃ es, w'.trace = w.trace ++ es ∧ AllInner es := by
  obtain ⟨es, trace, consumes⟩ := moved.trace
  refine ⟨es, trace, fun e member => ?_⟩
  obtain ⟨_, _, _, _, rfl⟩ := consumes e member
  rfl

theorem Dispatched.inner {w w' : World} {r : LsejtagDispatchResult}
    (dispatched : Dispatched w r w') : ∃ es, w'.trace = w.trace ++ es ∧ AllInner es := by
  have nothing : ∃ es, w.trace = w.trace ++ es ∧ AllInner es :=
    ⟨[], by simp, fun _ member => by cases member⟩
  cases dispatched with
  | flushing => exact nothing
  | flushNew => exact nothing
  | run => exact nothing
  | empty => exact nothing
  | parsed _ _ _ _ parsed =>
    obtain ⟨-, rfl, -⟩ | returned := dispatchCmdBuf_returned parsed
    · exact nothing
    · exact returned.moved.inner

theorem placed_inner {middle w' : World} {blk : JtagbufBlk} {buffered left : Nat}
    {r : LsejtagCmdExecResult} {t es : List Event}
    (ends : (r, w') = finishXfers (middle.placed blk buffered left))
    (trace : middle.trace = t ++ es) (inner : AllInner es) :
    ∃ es, w'.trace = t ++ es ∧ AllInner es := by
  obtain ⟨-, sameTrace, -⟩ := finishXfers_same ends
  refine ⟨es ++ [.prepared blk.seq], ?_, inner.append (by simp [AllInner, Event.isInner])⟩
  rw [sameTrace, World.placed, World.trace_log, trace, List.append_assoc]

/-- A command's events are inner events. -/
theorem Executed.inner {w w' : World} {r : LsejtagCmdExecResult} (executed : Executed w r w') :
    ∃ es, w'.trace = w.trace ++ es ∧ AllInner es := by
  have nothing : ∃ es, w.trace = w.trace ++ es ∧ AllInner es :=
    ⟨[], by simp, fun _ member => by cases member⟩
  have reconfigured : ∀ type param, AllInner [.reconfigure type param] := by
    simp [AllInner, Event.isInner]
  cases executed with
  | awaitTx => exact nothing
  | awaitFlush => exact nothing
  | answered _ _ _ _ es answers => exact ⟨es, rfl, answers.allInner⟩
  | tapReset _ _ _ es answers => exact ⟨es, rfl, answers.allInner⟩
  | kept => exact nothing
  | scanned _ _ _ blk => exact ⟨[.prepared blk.seq], rfl, by simp [AllInner, Event.isInner]⟩
  | writeStarted => exact ⟨_, rfl, reconfigured _ _⟩
  | readStarted => exact ⟨_, rfl, reconfigured _ _⟩
  | payloadShort _ _ _ _ fetched => exact fetched.moved.inner
  | blockWritten _ _ _ _ fetched _ _ _ _ ends =>
    obtain ⟨es, trace, inner⟩ := fetched.moved.inner
    exact placed_inner ends trace inner
  | readFull => exact nothing
  | blockRead _ _ _ _ _ _ ends =>
    exact placed_inner ends (List.append_nil _).symm fun _ member => by cases member
  | badContinue => exact nothing

theorem Executed.ne_awaitJtagBuf {w w' : World} {r : LsejtagCmdExecResult}
    (executed : Executed w r w') : r ≠ .cerAwaitJtagBuf := by
  have finishes : ∀ middle : World, (r, w') = finishXfers middle → r ≠ .cerAwaitJtagBuf := by
    intro middle ends
    rw [finishXfers] at ends
    split at ends <;> cases ends <;> simp
  cases executed with
  | blockWritten _ _ _ _ _ _ _ _ _ ends => exact finishes _ ends
  | blockRead _ _ _ _ _ _ ends => exact finishes _ ends
  | _ => simp

/-- A step of the main loop adds inner events, or is a call of
    `lsejtag_execute`. -/
inductive CallStep (s : MainState) : MainState → Prop
  | inner (s' : MainState) (es : List Event) (trace : s'.world.trace = s.world.trace ++ es)
      (allInner : AllInner es) : CallStep s s'
  | call (quiet : s.world.ctx.Quiet) (r : LsejtagCmdExecResult) (w' : World)
      (executed : Executed s.world.enterExecute r w') (es : List Event)
      (trace : w'.trace = s.world.trace ++
        .execute s.world.ctx.continuation s.world.ctx.cmd :: es) (allInner : AllInner es) :
      CallStep s ⟨w'.log (.executed r), .dispatch⟩
  | failed (quiet : s.world.ctx.Quiet) (why : Halt) :
      CallStep s ⟨s.world.enterExecute, .halted why⟩

theorem MainStepped.callStep {s s' : MainState} {input : MainInput}
    (stepped : MainStepped s input s') : CallStep s s' := by
  have nothing : AllInner [] := fun _ member => by cases member
  cases stepped with
  | received bytes => exact .inner _ [.usbOut bytes] rfl (by simp [AllInner, Event.isInner])
  | dispatched _ r w' dispatched =>
    obtain ⟨es, trace, inner⟩ := dispatched.inner
    exact .inner _ es trace inner
  | executed _ quiet _ r w' executed =>
    obtain ⟨es, trace, inner⟩ := executed.inner
    exact .call quiet r w' executed es (by simpa [World.enterExecute] using trace) inner
  | flushed _ _ _ _ w' _ _ trace =>
    exact .inner _ _ trace (by simp [AllInner, Event.isInner])
  | ran _ _ _ w' _ ran => exact .inner _ _ ran.trace (by simp [AllInner, Event.isInner])
  | nothingToRun => exact .inner _ [] (by simp) nothing
  | dispatchFailed => exact .inner _ [] (by simp) nothing
  | executeFailed _ quiet _ why => exact .failed quiet why
  | callFailed => exact .inner _ [] (by simp) nothing

/-- Every step adds to the trace. -/
theorem CallStep.grows {s s' : MainState} (step : CallStep s s') :
    ∃ es, s'.world.trace = s.world.trace ++ es := by
  cases step with
  | inner _ es trace => exact ⟨es, trace⟩
  | call _ r w' _ es trace =>
    refine ⟨.execute s.world.ctx.continuation s.world.ctx.cmd :: (es ++ [.executed r]), ?_⟩
    rw [World.trace_log, trace, List.append_assoc]
    rfl
  | failed _ why => exact ⟨[.execute _ _], rfl⟩

/-! ## Blocks and calls -/

/-- At the start of a call all blocks prepared before have been handed over; no
    call ends for want of a block. -/
def InOrder (before : List Event) : Event → Prop
  | .execute _ _ => preparedSeqs before = handedSeqs before
  | .executed r => r ≠ .cerAwaitJtagBuf
  | _ => True

theorem AllInner.inOrder {es : List Event} (inner : AllInner es) :
    ∀ before, ∀ e ∈ es, InOrder before e := by
  intro before e member
  have := inner e member
  cases e <;> simp_all [Event.isInner, InOrder]

theorem calls_inOrder {s : MainState} (reach : mainLoop.Reachable s) :
    Each InOrder s.world.trace := by
  apply reach.invariant (P := fun s => Each InOrder s.world.trace)
  · rintro s rfl
    exact each_nil
  · intro s s' input reach each _ stepped
    have inv := mainLoop_inv reach
    have allHanded : s.world.ctx.Quiet → InOrder s.world.trace (.execute
        s.world.ctx.continuation s.world.ctx.cmd) := by
      intro quiet
      have handed := inv.engine.handed
      simpa [InOrder, BlocksHanded, LsejtagCtx.waitingSeqs, quiet.noBlockA] using handed
    cases (mainStep_stepped inv stepped).callStep with
    | inner _ es trace inner =>
      rw [trace]
      exact each.append inner.inOrder
    | call quiet r w' executed es trace inner =>
      have started : Each InOrder w'.trace := by
        rw [trace, ← List.singleton_append, ← List.append_assoc]
        exact (each_snoc.mpr ⟨each, allHanded quiet⟩).append inner.inOrder
      exact each_snoc.mpr ⟨started, executed.ne_awaitJtagBuf⟩
    | failed quiet why => exact each_snoc.mpr ⟨each, allHanded quiet⟩

/-! ## The hand-over -/

/-- A block that waits is what the main loop takes up next: no flush goes before
    it, and `lsejtag_run_jtag` is only called while there is one. -/
structure WaitsNext (s : MainState) : Prop where
  noFlush : s.world.ctx.jtagbufA.prepared = true → s.world.ctx.tdoShouldFlush = false
  noNewData : s.world.ctx.jtagbufA.prepared = true →
    (s.world.ctx.tdoImmediateFlush && s.world.ctx.tdoHaveNewData) = false
  atRun : s.pc = .runJtag → s.world.ctx.jtagbufA.prepared = true

namespace WaitsNext

variable {s : MainState} {w : World} {pc : MainPc}

theorem unprepared (none : w.ctx.jtagbufA.prepared = false) (notRun : pc ≠ .runJtag) :
    WaitsNext ⟨w, pc⟩ :=
  ⟨fun waits => absurd (none.symm.trans waits) Bool.false_ne_true,
    fun waits => absurd (none.symm.trans waits) Bool.false_ne_true, fun is => absurd is notRun⟩

theorem sameCtx (waits : WaitsNext s) (same : w.ctx = s.world.ctx) (notRun : pc ≠ .runJtag) :
    WaitsNext ⟨w, pc⟩ := by
  refine ⟨?_, ?_, fun is => absurd is notRun⟩
  · rw [same]
    exact waits.noFlush
  · rw [same]
    exact waits.noNewData

end WaitsNext

theorem placed_tdoQueue {w w' : World} {blk : JtagbufBlk} {buffered left : Nat}
    {r : LsejtagCmdExecResult} (ends : (r, w') = finishXfers (w.placed blk buffered left)) :
    w'.ctx.toTdoQueue = w.ctx.toTdoQueue :=
  (finishXfers_same ends).1.tdo

/-- A command that prepares a block leaves the TDO queue as it was. -/
theorem Executed.tdoQueue_of_prepared {w w' : World} {r : LsejtagCmdExecResult}
    (executed : Executed w r w') (unprepared : w.ctx.jtagbufA.prepared = false) :
    w'.ctx.jtagbufA.prepared = false ∨ w'.ctx.toTdoQueue = w.ctx.toTdoQueue := by
  cases executed with
  | awaitTx | awaitFlush | answered | tapReset | kept | readFull | badContinue =>
    exact .inl unprepared
  | scanned | writeStarted | readStarted => exact .inr rfl
  | payloadShort _ _ _ _ fetched =>
    exact .inr ((SameEngine.truncateXfers w.ctx).trans fetched.moved.sameEngine).tdo
  | blockWritten _ _ _ middle fetched _ _ _ _ ends =>
    have same := (SameEngine.truncateXfers w.ctx).trans fetched.moved.sameEngine
    exact .inr ((placed_tdoQueue ends).trans same.tdo)
  | blockRead _ _ _ _ _ _ ends => exact .inr (placed_tdoQueue ends)

theorem WaitsNext.dispatched {s : MainState} {w' : World} {r : LsejtagDispatchResult}
    (waits : WaitsNext s) (idle : EngineIdle s.world.ctx) (dispatched : Dispatched s.world r w') :
    WaitsNext ⟨w', afterDispatch r⟩ := by
  cases dispatched with
  | flushing => exact waits.sameCtx rfl (by simp [afterDispatch])
  | flushNew _ immediate new =>
    -- New data that is sent back at once is never there along with a block that waits.
    refine .unprepared ?_ (by simp [afterDispatch])
    by_contra prepared
    have old := waits.noNewData (Bool.not_eq_false _ ▸ prepared)
    simp [immediate, new] at old
  | run calm old prepared =>
    refine ⟨fun _ => calm, fun _ => old, fun _ => ?_⟩
    rwa [idle.unusedB, Bool.or_false] at prepared
  | empty quiet => exact .unprepared quiet.noBlockA (by simp [afterDispatch])
  | parsed quiet _ _ _ parsed =>
    obtain ⟨rfl, rfl, -⟩ | ⟨moved, result⟩ := dispatchCmdBuf_returned parsed
    · exact .unprepared quiet.noBlockA (by simp [afterDispatch])
    · refine .unprepared ((congrArg JtagbufBlk.prepared moved.blockA).trans quiet.noBlockA) ?_
      generalize w'.ctx.cmdBufState = after at result
      cases result <;> simp [afterDispatch]

theorem WaitsNext.step {s s' : MainState} {input : MainInput} (waits : WaitsNext s)
    (inv : MainInv s) (stepped : MainStepped s input s') : WaitsNext s' := by
  cases stepped with
  | received bytes => exact ⟨waits.noFlush, waits.noNewData, waits.atRun⟩
  | dispatched _ r w' dispatched => exact waits.dispatched inv.engine.idle dispatched
  | executed _ quiet _ r w' executed =>
    -- A block that this call prepares finds the flush flags down, as the dispatch left them.
    rcases executed.tdoQueue_of_prepared quiet.noBlockA with none | same
    · exact .unprepared none (by simp)
    · refine ⟨fun _ => ?_, fun _ => ?_, by simp⟩
      · exact (congrArg TdoQueue.tdoShouldFlush same).trans quiet.noFlush
      · have immediate := congrArg TdoQueue.tdoImmediateFlush same
        have new := congrArg TdoQueue.tdoHaveNewData same
        change (w'.ctx.tdoImmediateFlush && w'.ctx.tdoHaveNewData) = false
        rw [immediate, new]
        exact quiet.noNewData
  | flushed _ should dwords _ w' ctx =>
    refine .unprepared ?_ (by simp)
    have blockA : w'.ctx.jtagbufA = s.world.ctx.jtagbufA := by
      rw [ctx, LsejtagCtx.flushedTdo]
      split <;> rfl
    rw [blockA]
    -- The loop is only here with the flush flag up.
    by_contra prepared
    have calm := waits.noFlush (Bool.not_eq_false _ ▸ prepared)
    exact absurd (calm.symm.trans should) Bool.false_ne_true
  | ran _ buf dwords w' _ ran =>
    refine .unprepared ?_ (by simp)
    rw [ran.ctx]
    rfl
  | nothingToRun => exact waits.sameCtx rfl (by simp)
  | dispatchFailed => exact waits.sameCtx rfl (by simp)
  | executeFailed => exact waits.sameCtx rfl (by simp)
  | callFailed => exact waits.sameCtx rfl (by simp)

theorem mainLoop_waitsNext {s : MainState} (reach : mainLoop.Reachable s) : WaitsNext s :=
  reach.invariant (fun _ initial => initial ▸ .unprepared rfl (by simp))
    fun _ _ _ before waits _ stepped =>
      waits.step (mainLoop_inv before) (mainStep_stepped (mainLoop_inv before) stepped)

/-- `lsejtag_run_jtag` with a block `seq` that waits: it goes to
    `lsejtag_impl_run_jtag`, which returns or leaves an array. -/
inductive HandsOver (s : MainState) (seq : JtagSeq) (tdo : Nat → Bool) : MainState → Prop
  /-- The block is run and does not wait any more. -/
  | returned (w : World) (dwords : List Dword)
      (trace : w.trace = s.world.trace ++
        [.runBlock seq, .complete (some .a), .completeTdo dwords])
      (none : w.ctx.waitingSeqs = []) : HandsOver s seq tdo ⟨w, .dispatch⟩
  | outOfBounds (w : World) (trace : w.trace = s.world.trace ++ [.runBlock seq])
      (left : lsejtagImplRunJtag w seq (some s.world.ctx.tdoDmaPtr) tdo = .error .outOfBounds) :
      HandsOver s seq tdo { s with pc := .halted .outOfBounds }
  /-- The block is run and reports other dwords than it was to capture. -/
  | watermarkPanic (w w' : World) (trace : w.trace = s.world.trace ++ [.runBlock seq])
      (ran : lsejtagImplRunJtag w seq (some s.world.ctx.tdoDmaPtr) tdo = .ok w') :
      HandsOver s seq tdo { s with pc := .halted .watermarkPanic }

/-- What becomes of a block that waits: `lsejtag_dispatch` sends the main loop to
    `lsejtag_run_jtag`, which hands it over. -/
structure HandedNext (s : MainState) : Prop where
  place : s.world.ctx.waitingSeqs ≠ [] →
    s.pc = .dispatch ∨ s.pc = .runJtag ∨ ∃ why, s.pc = .halted why
  dispatched : s.world.ctx.waitingSeqs ≠ [] → s.pc = .dispatch → ∀ txFree tdo,
    mainLoop.step s (.poll txFree tdo) = some { s with pc := .runJtag }
  handed : s.pc = .runJtag → ∃ seq, s.world.ctx.waitingSeqs = [seq] ∧ ∀ txFree tdo,
    ∃ s', mainLoop.step s (.poll txFree tdo) = some s' ∧ HandsOver s seq tdo s'

/-- `w`, where the first block is about to go to `lsejtag_impl_run_jtag`. -/
def World.enterRunJtag (w : World) : World :=
  { w with ctx := w.ctx.startBufblk .a }.log (.runBlock w.ctx.jtagbufA.seq)

/-- `lsejtag_run_jtag` called with the first block prepared. -/
theorem mainPoll_handsOver {s : MainState} (at_pc : s.pc = .runJtag) (inv : EngineInv s.world)
    (prepared : s.world.ctx.jtagbufA.prepared = true) (txFree : Nat) (tdo : Nat → Bool) :
    ∃ s', mainPoll s txFree tdo = some s' ∧ HandsOver s s.world.ctx.jtagbufA.seq tdo s' := by
  have free := inv.idle.periphWorking
  have picked : s.world.ctx.preparedBufblk = some .a := by
    rw [LsejtagCtx.preparedBufblk, if_pos prepared]
  simp only [mainPoll, at_pc]
  cases called : lsejtagRunJtag s.world tdo with
  | ok w =>
    obtain ⟨buf, dwords, ran⟩ := lsejtagRunJtag_ran free picked called
    refine ⟨_, rfl, .returned w _ ran.trace ?_⟩
    rw [ran.ctx]
    rfl
  | error why =>
    refine ⟨_, rfl, ?_⟩
    -- What went wrong is the call of the engine or the check behind it.
    simp only [lsejtagRunJtag, free, picked, Bool.false_eq_true, if_false] at called
    obtain left | ⟨w, ran, checked⟩ := Lib.bind_eq_error.mp called
    · obtain rfl := lsejtagImplRunJtag_fails _ _ _ _ _ left
      exact .outOfBounds s.world.enterRunJtag rfl left
    · split at checked
      · cases checked
        exact .watermarkPanic s.world.enterRunJtag w rfl ran
      · cases checked

theorem handedNext {s : MainState} (reach : mainLoop.Reachable s) : HandedNext s := by
  have inv := mainLoop_inv reach
  have next := mainLoop_waitsNext reach
  have waiting : s.world.ctx.waitingSeqs ≠ [] → s.world.ctx.jtagbufA.prepared = true := by
    intro waits
    by_contra unprepared
    exact waits (if_neg unprepared)
  refine ⟨fun waits => ?_, fun waits at_pc txFree tdo => ?_, fun at_pc => ?_⟩
  · -- `lsejtag_execute` and `lsejtag_flush_tdo` are only called while no block waits.
    have prepared := waiting waits
    cases at_pc : s.pc with
    | dispatch => exact .inl rfl
    | runJtag => exact .inr (.inl rfl)
    | halted why => exact .inr (.inr ⟨why, rfl⟩)
    | execute =>
      have quiet := (inv.pc.execute at_pc).1
      exact absurd (quiet.noBlockA.symm.trans prepared) Bool.false_ne_true
    | flushTdo =>
      have calm := next.noFlush prepared
      exact absurd (calm.symm.trans (inv.pc.flushTdo at_pc)) Bool.false_ne_true
  · have prepared := waiting waits
    change mainPoll s txFree tdo = _
    simp only [mainPoll, at_pc, lsejtagDispatch, next.noFlush prepared, next.noNewData prepared,
      prepared, Bool.true_or, Bool.false_eq_true, if_false, if_true]
    rfl
  · have prepared := next.atRun at_pc
    exact ⟨_, if_pos prepared, mainPoll_handsOver at_pc inv.engine prepared⟩

/-- The loop stopped while a block was run. -/
def MainState.HaltedRunning (s : MainState) : Prop :=
  s.pc = .halted .outOfBounds ∨ s.pc = .halted .watermarkPanic

/-- The calls until a block that waits is handed over. -/
def MainPc.callsToHandOver : MainPc → Nat
  | .dispatch => 2
  | .runJtag => 1
  | _ => 0

/-- What waited in `start` still does, and is handed over with the `rank`-th call. -/
structure StillWaits (start s : MainState) (rank : Nat) : Prop where
  reach : mainLoop.Reachable s
  waiting : s.world.ctx.waitingSeqs = start.world.ctx.waitingSeqs
  handed : handedSeqs s.world.trace = handedSeqs start.world.trace
  calls : s.pc.callsToHandOver = rank
  positive : 0 < rank

/-- What waited in `start` has gone to the engine. -/
structure HandedSince (start s : MainState) : Prop where
  reach : mainLoop.Reachable s
  handed : handedSeqs start.world.trace ++ start.world.ctx.waitingSeqs <+:
    handedSeqs s.world.trace ∨ s.HaltedRunning

section handedSince

variable {start s s' : MainState} {input : MainInput}

theorem StillWaits.step {rank : Nat} (still : StillWaits start s rank)
    (waits : start.world.ctx.waitingSeqs ≠ []) (stepped : mainLoop.step s input = some s') :
    HandedSince start s' ∨
      ∃ rank', StillWaits start s' rank' ∧ rank' + mainCalls s input ≤ rank := by
  obtain ⟨reach, waiting, handed, rfl, positive⟩ := still
  have reach' : mainLoop.Reachable s' := .next reach trivial stepped
  have next := handedNext reach
  cases input with
  | usbOut bytes =>
    -- Bytes that arrive are no call, and change neither the block nor what was handed over.
    obtain ⟨-, received⟩ := Option.ite_none_right_eq_some.mp stepped
    obtain rfl := Option.some.inj received
    refine .inr ⟨_, ⟨reach', waiting, ?_, rfl, positive⟩, Nat.le_refl _⟩
    simpa [World.receive, Event.handedSeq] using handed
  | poll txFree tdo =>
    cases at_pc : s.pc with
    | dispatch =>
      have moved := next.dispatched (waiting ▸ waits) at_pc txFree tdo
      obtain rfl := Option.some.inj (moved.symm.trans stepped)
      exact .inr ⟨1, ⟨reach', waiting, handed, rfl, Nat.one_pos⟩, Nat.le_refl _⟩
    | runJtag =>
      -- This is the call that hands the block over.
      obtain ⟨seq, is, called⟩ := next.handed at_pc
      obtain ⟨after, moved, hands⟩ := called txFree tdo
      obtain rfl := Option.some.inj (moved.symm.trans stepped)
      refine .inl ⟨reach', ?_⟩
      cases hands with
      | returned w dwords trace =>
        refine .inl ⟨[], ?_⟩
        rw [trace, ← waiting, is, ← handed]
        simp [Event.handedSeq]
      | outOfBounds => exact .inr (.inl rfl)
      | watermarkPanic => exact .inr (.inr rfl)
    | execute | flushTdo | halted => simp [at_pc, MainPc.callsToHandOver] at positive

theorem HandedSince.step (since : HandedSince start s)
    (stepped : mainLoop.step s input = some s') : HandedSince start s' := by
  obtain ⟨reach, handed | halted⟩ := since
  · -- The trace only grows.
    obtain ⟨es, trace⟩ := (mainStep_stepped (mainLoop_inv reach) stepped).callStep.grows
    refine ⟨.next reach trivial stepped, .inl (handed.trans ?_)⟩
    rw [trace, handedSeqs_append]
    exact List.prefix_append _ _
  · refine ⟨.next reach trivial stepped, .inr ?_⟩
    -- A loop that has stopped takes bytes in and makes no call.
    cases input with
    | usbOut bytes =>
      obtain ⟨-, received⟩ := Option.ite_none_right_eq_some.mp stepped
      exact Option.some.inj received ▸ halted
    | poll txFree tdo =>
      rcases halted with is | is <;> simp [mainLoop, mainStep, mainPoll, is] at stepped

/-- A block that waits in a running main loop is handed over with the second call
    from there, if not with the first. -/
theorem handed_within {inputs : List MainInput} (reach : mainLoop.Reachable start)
    (running : ∀ why, start.pc ≠ .halted why) (waits : start.world.ctx.waitingSeqs ≠ [])
    (ran : mainLoop.run anyAction start inputs = some s)
    (calls : 2 ≤ mainLoop.total mainCalls start inputs) : HandedSince start s := by
  have atStart : StillWaits start start start.pc.callsToHandOver := by
    refine ⟨reach, rfl, rfl, rfl, ?_⟩
    rcases (handedNext reach).place waits with is | is | ⟨why, is⟩
    · simp [is, MainPc.callsToHandOver]
    · simp [is, MainPc.callsToHandOver]
    · exact absurd is (running why)
  have most : start.pc.callsToHandOver ≤ 2 := by
    cases start.pc <;> simp [MainPc.callsToHandOver]
  -- Every call pays one of the calls that are left, so two of them leave none.
  have ranked := Lib.Machine.run_ranked (P := StillWaits start) (Q := HandedSince start) mainCalls
    (fun _ _ => 0) (fun _ _ _ _ still _ stepped => still.step waits stepped)
    (fun _ _ _ since _ stepped => since.step stepped) atStart ran
  obtain since | ⟨rank, still, paid⟩ := ranked
  · exact since
  · have positive := still.positive
    rw [Lib.Machine.total_zero] at paid
    omega

end handedSince

/-- In every run of the main loop, as long as it does not leave an array:

    * the two blocks are never both prepared;
    * the blocks handed to the engine are the blocks prepared, in the same order
      and each once, but for the one that still waits, and at the start of every
      `lsejtag_execute` none waits;
    * `lsejtag_dispatch` answers a block that waits with `lsejtag_run_jtag`, which
      calls `lsejtag_impl_run_jtag` with it, and from then on it does not wait; so
      the second call after its preparation hands it over at the latest;
    * whenever `lsejtag_execute` is called the blocks and TDO are free, no call
      returns `cer_await_jtag_buf`, and no wait for the engine hangs. -/
theorem jtag_blocks_in_order {s : MainState} (reach : mainLoop.Reachable s) :
    ¬(s.world.ctx.jtagbufA.prepared = true ∧ s.world.ctx.jtagbufB.prepared = true) ∧
    preparedSeqs s.world.trace = handedSeqs s.world.trace ++ s.world.ctx.waitingSeqs ∧
    (∀ before continuation cmd after,
      s.world.trace = before ++ .execute continuation cmd :: after →
      preparedSeqs before = handedSeqs before) ∧
    HandedNext s ∧
    ((∀ why, s.pc ≠ .halted why) → s.world.ctx.waitingSeqs ≠ [] → ∀ inputs s',
      mainLoop.run anyAction s inputs = some s' → 2 ≤ mainLoop.total mainCalls s inputs →
      HandedSince s s') ∧
    (s.pc = .execute → s.world.ctx.periphFree = true) ∧
    .executed .cerAwaitJtagBuf ∉ s.world.trace ∧
    s.pc ≠ .halted .spin := by
  have inv := mainLoop_inv reach
  have each := calls_inOrder reach
  refine ⟨?_, inv.engine.handed, ?_, handedNext reach, ?_, ?_, ?_, inv.pc.noSpin⟩
  · simp [inv.engine.idle.unusedB]
  · exact fun before continuation cmd after is => each before _ after is
  · exact fun running waits inputs s' ran calls => handed_within reach running waits ran calls
  · exact fun at_pc => inv.engine.idle.periphFree (inv.pc.execute at_pc).1.noBlockA
  · intro member
    obtain ⟨before, after, is⟩ := List.append_of_mem member
    exact each before _ after is rfl

/-- A DR scan of 64 bits that is to be sent back at once. -/
def drSendBack64 : List Byte := [0x00, 0x17, 0x40, 0x00] ++ List.replicate 8 0

/-- The scan waits to be run in `s`, and a request for the firmware date behind it
    to be executed in `t`. -/
theorem jtag_blocks_in_order_scan : ∃ s t : MainState, s.pc = .runJtag ∧ t.pc = .execute ∧
    (∃ seq, s.world.ctx.waitingSeqs = [seq] ∧
      handedSeqs s.world.trace ++ [seq] <+: handedSeqs t.world.trace) ∧
    preparedSeqs t.world.trace = handedSeqs t.world.trace ++ t.world.ctx.waitingSeqs ∧
    t.world.ctx.periphFree = true := by
  have ran : (mainLoop.run anyAction .start
      ([.usbOut (drSendBack64 ++ [0x00, 0x7c])] ++ polls 64 3)).any (fun s =>
        decide (s.pc = .runJtag ∧ s.world.ctx.waitingSeqs ≠ [] ∧
          2 ≤ mainLoop.total mainCalls s (polls 64 4)) &&
        (mainLoop.run anyAction s (polls 64 4)).any fun t => decide (t.pc = .execute)) = true := by
    decide +kernel
  obtain ⟨s, reach, holds⟩ := Lib.Machine.exists_reach _ rfl ran
  obtain ⟨before, after⟩ := Bool.and_eq_true_iff.mp holds
  obtain ⟨at_pc, waits, calls⟩ := of_decide_eq_true before
  obtain ⟨t, goesOn, executes⟩ := (Option.any_eq_true _ _).mp after
  have executes : t.pc = .execute := of_decide_eq_true executes
  have atT := jtag_blocks_in_order (Lib.Machine.run_reach reach goesOn)
  obtain ⟨-, -, -, next, within, -⟩ := jtag_blocks_in_order reach
  have since := within (by simp [at_pc]) waits _ t goesOn calls
  obtain ⟨seq, waiting, -⟩ := next.handed at_pc
  refine ⟨s, t, at_pc, executes, ⟨seq, waiting, ?_⟩, atT.2.1, atT.2.2.2.2.2.1 executes⟩
  rcases since.handed with handed | is | is
  · exact waiting ▸ handed
  · exact absurd (executes.symm.trans is) nofun
  · exact absurd (executes.symm.trans is) nofun

end LoongsonEjtag
