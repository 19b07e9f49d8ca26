import LoongsonEjtag.FastRead

/-! # How a fast read ends

A read that misses one of the conditions of `ReadGoesThrough` does not return what was
asked for: it goes on past its last scan, stops in the first one, waits for the host, or
succeeds with its last dwords unsent.

* `ReadFails` — where a read is that will not be whole, as an invariant.
* `fast_read_returns_iff` — everything is returned exactly if the conditions are met.
* `fast_read_keeps_last` — it is not, where the flag of the block is down.
-/

namespace LoongsonEjtag

open Lib (Byte Machine)
open Lib.Machine (anyAction)
open Wire

/-! ## Traces without a whole read -/

section traces

variable {start : MainState} {es more : List Event}

/-- What goes on comes before the success. -/
theorem AllReading.before_success {scans tail : List Event} (reading : AllReading es)
    (same : es ++ more = scans ++ .executed .cerSuccess :: tail) :
    ∃ further, scans = es ++ further := by
  obtain ⟨further, is, -⟩ | ⟨further, rfl, is⟩ := List.append_eq_append_iff.mp same
  · exact ⟨further, is⟩
  · cases further with
    | nil => exact ⟨[], by simp⟩
    | cons e rest =>
      cases is
      have goesOn := reading (.executed .cerSuccess) (by simp)
      simp [Event.isReading] at goesOn

/-- A trace has one first success. -/
theorem AllReading.success_unique {scans scans' tail tail' : List Event}
    (reading : AllReading scans) (reading' : AllReading scans')
    (same : scans ++ .executed .cerSuccess :: tail =
      scans' ++ .executed .cerSuccess :: tail') : scans = scans' ∧ tail = tail' := by
  obtain ⟨further, rfl⟩ := reading.before_success same
  obtain ⟨further', is⟩ := reading'.before_success same.symm
  obtain rfl : further = [] := by
    have length := congrArg List.length is
    simp only [List.length_append] at length
    exact List.length_eq_zero_iff.mp (by omega)
  simp at same
  exact ⟨by simp, same⟩

theorem AllReading.unfinished (reading : AllReading es) : ¬ReadFinished start es := by
  rintro ⟨scans, sends, rest, same, -⟩
  have same : es ++ [] = scans ++ .executed .cerSuccess :: (sends ++ rest) := by simpa using same
  obtain ⟨further, rfl⟩ := reading.before_success same
  have length := congrArg List.length same
  simp only [List.length_append, List.length_cons, List.length_nil] at length
  omega

/-- A read with more scans than it is to have is not whole, and will not be. -/
theorem AllReading.overscanned (reading : AllReading es)
    (many : start.world.ctx.xfersLeft < (preparedSeqs es).length) :
    ¬ReadFinished start (es ++ more) := by
  rintro ⟨scans, sends, rest, same, sent⟩
  have same : es ++ more = scans ++ .executed .cerSuccess :: (sends ++ rest) := by
    simpa using same
  obtain ⟨further, rfl⟩ := reading.before_success same
  have count := congrArg List.length sent.prepared
  simp only [preparedSeqs_append, List.length_append, List.length_replicate] at count
  omega

theorem ReadFinished.collects (finished : ReadFinished start es) :
    start.world.ctx.xfersLeft * start.world.ctx.drseqDwordlen ≤ (reported es).length := by
  obtain ⟨scans, sends, rest, rfl, sent⟩ := finished
  have collected := sent.collected
  simp only [reported_append, reported_cons, Event.reportedDwords, List.nil_append,
    List.length_append] at collected ⊢
  omega

end traces

/-! ## Reads that fail -/

/-- What keeps a read from its end: nothing asks for the flush of its last scan, or
    its first scan is not run. -/
def ReadBlocked (start : LsejtagCtx) (phase : ReadPhase) (left : Nat) : Prop :=
  start.jtagbufA.immediateFlushTdo = false ∨
    left + phase.unrun = start.xfersLeft ∧ ¬start.ScanRuns start.firstScanAt

/-- The read has succeeded with dwords in the queue that nothing asks to flush. -/
structure ReadUnsent (start s : MainState) (es : List Event) : Prop where
  quiet : s.world.ctx.Quiet
  queued : s.world.ctx.tdoInDwords ≠ 0
  history : ReadHistory start.world.ctx 0 0 es

/-- A read before its first scan. -/
structure ReadUnscanned (s : MainState) (es : List Event) : Prop where
  pc : s.pc = .dispatch ∨ s.pc = .execute ∨ s.pc = .flushTdo
  reads : ContinuesRead s.world.ctx
  unprepared : s.world.ctx.jtagbufA.prepared = false
  reading : AllReading es

/-- The ways in which a read is not whole after `es`, and will not be. -/
inductive ReadFails (start s : MainState) (es : List Event) : Prop
  | blocked (counted : start.world.ctx.xfersLeft ≠ 0) (phase : ReadPhase) (left : Nat)
      (reading : Reading start s phase left es)
      (blocked : ReadBlocked start.world.ctx phase left)
  | stopped (why : Halt) (halted : s.pc = .halted why)
      (few : (reported es).length <
        start.world.ctx.xfersLeft * start.world.ctx.drseqDwordlen)
  | unsent (unsent : ReadUnsent start s es)
  | uncounted (none : start.world.ctx.xfersLeft = 0) (unscanned : ReadUnscanned s es)
  | lost (lost : ∀ more, ¬ReadFinished start (es ++ more))

section fails

variable {start s s' : MainState} {phase : ReadPhase} {left : Nat} {es more : List Event}
  {input : MainInput} {txFree : Nat} {tdo : Nat → Bool}

/-- A read that is blocked has a scan to prepare or to run. -/
theorem ReadBlocked.left_or_unrun (blocked : ReadBlocked start.world.ctx phase left)
    (counted : start.world.ctx.xfersLeft ≠ 0) (reading : Reading start s phase left es) :
    1 ≤ left + phase.unrun := by
  cases reading.holds with
  | scan more => omega
  | run => exact Nat.le_add_left 1 left
  | send _ _ _ asked =>
    obtain down | ⟨all, -⟩ := blocked
    · by_contra none
      have asks := asked (by omega)
      simp [asks] at down
    · omega

/-- So it has not collected everything. -/
theorem ReadBlocked.few (blocked : ReadBlocked start.world.ctx phase left)
    (counted : start.world.ctx.xfersLeft ≠ 0) (setUp : ReadIsSetUp start.world.ctx)
    (reading : Reading start s phase left es) : (reported es).length <
      start.world.ctx.xfersLeft * start.world.ctx.drseqDwordlen := by
  have more := blocked.left_or_unrun counted reading
  have le := reading.le
  have collected := reading.history.collected
  have dword : 1 ≤ (left + phase.unrun) * start.world.ctx.drseqDwordlen :=
    Nat.mul_pos more setUp.some
  have all : start.world.ctx.xfersLeft * start.world.ctx.drseqDwordlen =
      (start.world.ctx.xfersLeft - left) * start.world.ctx.drseqDwordlen +
        left * start.world.ctx.drseqDwordlen := by
    rw [← Nat.add_mul, Nat.sub_add_cancel (by omega)]
  rw [Nat.add_mul] at dword
  omega

/-- The last dwords of an unsent read are not sent before something else happens. -/
theorem ReadUnsent.unfinished (unsent : ReadUnsent start s es)
    (begins : mainLoop.Reachable start) (reach : mainLoop.Reachable s)
    (trace : s.world.trace = start.world.trace ++ es)
    (other : ∀ e ∈ more.head?, e.isSending = false) : ¬ReadFinished start (es ++ more) := by
  rintro ⟨scans, sends, rest, same, sent⟩
  have sent_between := sent_between begins reach trace
  have all := unsent.history.collected
  obtain ⟨scans', sends', rfl, reading, -⟩ := unsent.history.succeeded rfl
  have same : scans' ++ .executed .cerSuccess :: (sends' ++ more) =
      scans ++ .executed .cerSuccess :: (sends ++ rest) := by simpa using same
  obtain ⟨rfl, tails⟩ := reading.success_unique sent.reading same
  -- What a whole read sends ends before the first event of something else.
  obtain ⟨further, rfl⟩ : ∃ further, sends' = sends ++ further := by
    obtain ⟨further, is, rfl⟩ | ⟨further, is, -⟩ := List.append_eq_append_iff.mp tails
    · cases further with
      | nil => exact ⟨[], by simpa using is.symm⟩
      | cons e _ =>
        have sending := sent.sending e (by simp [is])
        simp [other e (by simp)] at sending
    · exact ⟨further, is⟩
  obtain ⟨_, queue⟩ := (mainLoop_inv reach).engine.queue
  have pending := queue.length_pendingDwords
  have queued := unsent.queued
  have flushes := congrArg List.length sent.sent
  have stream := congrArg List.length sent_between
  have collected := sent.collected
  simp only [flushed_append, flushed_cons, reported_append, reported_cons, Event.flushedBytes,
    Event.reportedDwords, List.nil_append, List.length_append, Lib.length_dwordsBytes,
    Nat.sub_zero] at flushes stream collected all
  omega

theorem ReadFails.unfinished (fails : ReadFails start s es) (setUp : ReadIsSetUp start.world.ctx)
    (begins : mainLoop.Reachable start) (reach : mainLoop.Reachable s)
    (trace : s.world.trace = start.world.trace ++ es) : ¬ReadFinished start es := by
  intro finished
  have collects := finished.collects
  cases fails with
  | blocked counted phase left reading blocked =>
    have few := blocked.few counted setUp reading
    omega
  | stopped why halted few => omega
  | unsent unsent =>
    have whole : ReadFinished start (es ++ []) := by rwa [List.append_nil]
    exact unsent.unfinished begins reach trace (by simp) whole
  | uncounted none unscanned => exact unscanned.reading.unfinished finished
  | lost lost =>
    apply lost []
    rwa [List.append_nil]

/-! ## One step of a read that fails -/

/-- The read that is set up in `start` fails in `s`. -/
def ReadFailsIn (start s : MainState) : Prop :=
  ∃ es, s.world.trace = start.world.trace ++ es ∧ ReadFails start s es

theorem ReadUnsent.stays (unsent : ReadUnsent start s es)
    (trace : s.world.trace = start.world.trace ++ es) (same : s'.world = s.world) :
    ReadFailsIn start s' := by
  obtain ⟨quiet, queued, history⟩ := unsent
  rw [← same] at quiet queued trace
  exact ⟨es, trace, .unsent ⟨quiet, queued, history⟩⟩

/-- With the first event that is not of the read it is too late for its last dwords. -/
theorem ReadUnsent.lost {e : Event} {rest : List Event} (unsent : ReadUnsent start s es)
    (begins : mainLoop.Reachable start) (reach : mainLoop.Reachable s)
    (trace : s.world.trace = start.world.trace ++ es) (other : e.isSending = false)
    (grown : s'.world.trace = s.world.trace ++ e :: rest) : ReadFailsIn start s' := by
  refine ⟨es ++ e :: rest, by rw [grown, trace, List.append_assoc], .lost fun more => ?_⟩
  rw [List.append_assoc]
  exact unsent.unfinished begins reach trace (by simpa using other)

theorem ReadUnsent.step (unsent : ReadUnsent start s es)
    (begins : mainLoop.Reachable start) (reach : mainLoop.Reachable s)
    (trace : s.world.trace = start.world.trace ++ es)
    (stepped : mainStep s input = some s') : ReadFailsIn start s' := by
  have quiet := unsent.quiet
  cases mainStep_stepped (mainLoop_inv reach) stepped with
  | received bytes fits =>
    refine ⟨es ++ [.usbOut bytes], ?_, .unsent ⟨⟨quiet.noFlush, quiet.noNewData, quiet.noBlockA,
      quiet.noBlockB⟩, unsent.queued, unsent.history.sends [.usbOut bytes] ?_ ?_⟩⟩
    · rw [World.receive, World.trace_log, trace, List.append_assoc]
    · simp [AllSending, Event.isSending]
    · simp [Event.reportedDwords]
  | dispatched at_pc r w' dispatched =>
    cases dispatched with
    | flushing should => simp [quiet.noFlush] at should
    | flushNew calm immediate new =>
      have old := quiet.noNewData
      simp [immediate, new] at old
    | run calm old prepared => simp [quiet.noBlockA, quiet.noBlockB] at prepared
    | empty => exact unsent.stays trace rfl
    | parsed _ _ r w' parsed =>
      obtain ⟨-, rfl, -⟩ | returned := dispatchCmdBuf_returned parsed
      · exact unsent.stays trace rfl
      · have moved := returned.moved
        obtain ⟨fs, grown, consumes⟩ := moved.trace
        cases fs with
        | nil =>
          have tdo : w'.ctx.tdoInDwords = s.world.ctx.tdoInDwords :=
            congrArg TdoQueue.tdoInDwords moved.tdo
          rw [List.append_nil] at grown
          exact ⟨es, grown.trans trace,
            .unsent ⟨moved.quiet quiet, tdo ▸ unsent.queued, unsent.history⟩⟩
        | cons e rest =>
          obtain ⟨_, _, _, _, rfl⟩ := consumes e List.mem_cons_self
          exact unsent.lost begins reach trace rfl grown
  | executed _ _ _ r w' executed =>
    obtain ⟨fs, grown, -⟩ := executed.inner
    have trace' : (w'.log (.executed r)).trace = s.world.trace ++
        .execute s.world.ctx.continuation s.world.ctx.cmd :: (fs ++ [.executed r]) := by
      simp [grown, World.enterExecute]
    exact unsent.lost begins reach trace rfl trace'
  | flushed _ should => simp [quiet.noFlush] at should
  | ran _ _ _ _ prepared => simp [quiet.noBlockA] at prepared
  | executeFailed _ _ _ why =>
    have trace' : s.world.enterExecute.trace = s.world.trace ++
        [.execute s.world.ctx.continuation s.world.ctx.cmd] := rfl
    exact unsent.lost begins reach trace rfl trace'
  | _ => exact unsent.stays trace rfl

theorem ReadUnscanned.dispatched (unscanned : ReadUnscanned s es) (reach : mainLoop.Reachable s)
    (at_pc : s.pc = .dispatch) (stepped : mainStep s (.poll txFree tdo) = some s') :
    s'.world.trace = s.world.trace ∧ ReadUnscanned s' es := by
  obtain ⟨-, reads, unprepared, reading⟩ := unscanned
  have engine := (mainLoop_inv reach).engine
  simp only [mainStep, mainPoll, at_pc] at stepped
  split at stepped
  · rename_i r w' dispatched
    cases stepped
    cases lsejtagDispatch_dispatched dispatched with
    | flushing => exact ⟨rfl, .inr (.inr rfl), reads, unprepared, reading⟩
    | flushNew =>
      exact ⟨rfl, .inr (.inr rfl), ⟨reads.continues, reads.ready, reads.isOp⟩, unprepared, reading⟩
    | run _ _ prepared => simp [unprepared, engine.idle.unusedB] at prepared
    | empty => exact ⟨rfl, .inl rfl, reads, unprepared, reading⟩
    | parsed _ _ _ _ parsed =>
      simp only [dispatchCmdBuf, reads.ready] at parsed
      cases parsed
      exact ⟨rfl, .inr (.inl rfl), reads, unprepared, reading⟩
  · rename_i why failed
    obtain ⟨-, -, failed⟩ := lsejtagDispatch_error failed
    simp [dispatchCmdBuf, reads.ready] at failed

/-- The first scan of no transfers is one too many. -/
theorem ReadUnscanned.executed (unscanned : ReadUnscanned s es)
    (none : start.world.ctx.xfersLeft = 0) (reach : mainLoop.Reachable s)
    (trace : s.world.trace = start.world.trace ++ es) (at_pc : s.pc = .execute)
    (stepped : mainStep s (.poll txFree tdo) = some s') : ReadFailsIn start s' := by
  obtain ⟨-, reads, unprepared, reading⟩ := unscanned
  have engine := (mainLoop_inv reach).engine
  by_cases fits : s.world.ctx.tdoInDwords + s.world.ctx.drseqDwordlen ≤ 64
  · have scans := lsejtagExecute_scan (w := s.world.enterExecute) reads txFree tdo engine.bounded
      fits (engine.idle.periphFree unprepared)
    generalize ends : finishXfers _ = finished at scans
    obtain ⟨r, w'⟩ := finished
    obtain ⟨-, sameTrace, -⟩ := finishXfers_same ends.symm
    simp only [mainStep, mainPoll, at_pc, scans, Option.some.injEq] at stepped
    subst stepped
    refine ⟨es ++ [.execute true s.world.ctx.cmd, .prepared s.world.ctx.readBlk.seq] ++
      [.executed r], ?_, .lost fun more => ?_⟩
    · rw [World.trace_log, sameTrace]
      simp [World.placed, World.enterExecute, trace, reads.continues, LsejtagCtx.readBlk]
    · rw [List.append_assoc]
      apply (reading.append (by simp [AllReading, Event.isReading])).overscanned
      simp [none, Event.preparedSeq]
  · have returned := lsejtagExecute_full (w := s.world.enterExecute) reads txFree tdo
      engine.bounded (Nat.lt_of_not_le fits)
    simp only [mainStep, mainPoll, at_pc, returned, Option.some.injEq] at stepped
    subst stepped
    refine ⟨es ++ [.execute true s.world.ctx.cmd, .executed .cerContinue], ?_, .uncounted none
      ⟨.inl rfl, ⟨reads.continues, reads.ready, reads.isOp⟩, unprepared, reading.append ?_⟩⟩
    · simp [World.enterExecute, trace, reads.continues]
    · simp [AllReading, Event.isReading]

theorem ReadUnscanned.flushed (unscanned : ReadUnscanned s es)
    (none : start.world.ctx.xfersLeft = 0) (reach : mainLoop.Reachable s)
    (trace : s.world.trace = start.world.trace ++ es) (at_pc : s.pc = .flushTdo)
    (stepped : mainStep s (.poll txFree tdo) = some s') : ReadFailsIn start s' := by
  obtain ⟨-, reads, unprepared, reading⟩ := unscanned
  have engine := (mainLoop_inv reach).engine
  have inside : s.world.ctx.tdoFlushPtr + s.world.ctx.tdoInDwords ≤ 64 := by
    obtain ⟨q, is⟩ := engine.queue
    exact is.pointers ▸ is.inside
  obtain ⟨count, w', returned⟩ := lsejtagFlushTdo_flushes inside txFree
  simp only [mainStep, mainPoll, at_pc, returned, Option.some.injEq] at stepped
  subst stepped
  obtain ⟨dwords, -, ctx, -, flush⟩ := lsejtagFlushTdo_ok engine.bounded returned
  obtain ⟨cont, state, blk⟩ := flushedTdo_keeps s.world.ctx dwords
  rw [← ctx] at cont state blk
  refine ⟨_, by rw [flush, trace, List.append_assoc], .uncounted none ⟨.inl rfl,
    ⟨?_, state.trans reads.ready, ?_⟩, blk ▸ unprepared, reading.append ?_⟩⟩
  · rw [cont]
    exact reads.continues
  · rw [cont]
    exact reads.isOp
  · simp [AllReading, Event.isReading, Event.isSending]

theorem ReadUnscanned.step (unscanned : ReadUnscanned s es)
    (none : start.world.ctx.xfersLeft = 0) (reach : mainLoop.Reachable s)
    (trace : s.world.trace = start.world.trace ++ es)
    (stepped : mainStep s input = some s') : ReadFailsIn start s' := by
  cases input with
  | usbOut bytes =>
    simp only [mainStep] at stepped
    split at stepped
    · cases stepped
      obtain ⟨pc, reads, unprepared, reading⟩ := unscanned
      refine ⟨es ++ [.usbOut bytes], ?_, .uncounted none ⟨pc, ⟨reads.continues, reads.ready,
        reads.isOp⟩, unprepared, reading.append ?_⟩⟩
      · rw [World.receive, World.trace_log, trace, List.append_assoc]
      · simp [AllReading, Event.isReading, Event.isSending]
    · cases stepped
  | poll txFree tdo =>
    obtain at_pc | at_pc | at_pc := unscanned.pc
    · obtain ⟨same, unscanned⟩ := unscanned.dispatched reach at_pc stepped
      exact ⟨es, same.trans trace, .uncounted none unscanned⟩
    · exact unscanned.executed none reach trace at_pc stepped
    · exact unscanned.flushed none reach trace at_pc stepped

/-- A blocked read stays blocked, stops in its first scan, or ends unsent. -/
theorem ReadBlocked.ran (blocked : ReadBlocked start.world.ctx .run left)
    (counted : start.world.ctx.xfersLeft ≠ 0) (setUp : ReadIsSetUp start.world.ctx)
    (reading : Reading start s .run left es) (at_pc : s.pc = .runJtag)
    (stepped : mainStep s (.poll txFree tdo) = some s') : ReadFailsIn start s' := by
  have few := blocked.few counted setUp reading
  have reach := reading.reach_step stepped
  have engine := (mainLoop_inv reading.reach).engine
  have runs := readScan_runs_iff setUp engine tdo reading.holds
  simp only [mainStep, mainPoll, at_pc] at stepped
  split at stepped
  · rename_i w' returned
    cases stepped
    -- The first scan has been run, so it is the flag that blocks the read.
    have down : start.world.ctx.jtagbufA.immediateFlushTdo = false := by
      obtain down | ⟨first, stops⟩ := blocked
      · exact down
      · have runs := runs.mp ⟨w', returned⟩
        cases reading.holds with
        | run _ _ _ _ _ starts =>
        rw [starts (.inr first), show left + 1 = _ from first, LsejtagCtx.scanAt, if_pos rfl]
          at runs
        exact absurd runs stops
    obtain ⟨es', ran⟩ := reading.ran setUp returned
    have quiet : w'.ctx.Quiet :=
      ⟨ran.calm, by rw [ran.asks, down]; rfl, ran.unprepared, ran.unpreparedB⟩
    refine ⟨es', ran.trace, ?_⟩
    by_cases last : left = 0
    · subst last
      have count := ran.count
      have dword := setUp.some
      have queued : w'.ctx.tdoInDwords ≠ 0 := by omega
      exact .unsent ⟨quiet, queued, ran.history⟩
    · have le : left + 1 ≤ start.world.ctx.xfersLeft := reading.le
      refine .blocked counted .scan left ⟨reach, ran.trace, Nat.le_of_succ_le le, .inl rfl,
        ran.kept, .scan last quiet (fun _ => ran.new) ?_, ran.history⟩ (.inl down)
      rintro (asks | first)
      · simp [down] at asks
      · omega
  · rename_i why failed
    cases stepped
    exact ⟨es, reading.trace, .stopped why rfl few⟩

theorem ReadBlocked.step (blocked : ReadBlocked start.world.ctx phase left)
    (counted : start.world.ctx.xfersLeft ≠ 0) (setUp : ReadIsSetUp start.world.ctx)
    (begins : mainLoop.Reachable start) (reading : Reading start s phase left es)
    (stepped : mainStep s input = some s') : ReadFailsIn start s' := by
  cases input with
  | usbOut bytes =>
    have after := (reading.received stepped).1
    exact ⟨_, after.trace, .blocked counted phase left after blocked⟩
  | poll txFree tdo =>
    obtain at_pc | at_pc := reading.pc
    · have after := (reading.dispatched at_pc stepped).1
      exact ⟨es, after.trace, .blocked counted phase left after blocked⟩
    · cases phase with
      | scan =>
        by_cases fits : s.world.ctx.tdoInDwords + s.world.ctx.drseqDwordlen ≤ 64
        · -- One transfer less to go, and one scan more that is not run.
          obtain ⟨es', after, -⟩ := reading.scanned setUp at_pc fits stepped
          refine ⟨es', after.trace, .blocked counted .run (left - 1) after ?_⟩
          have more := blocked.left_or_unrun counted reading
          obtain down | ⟨all, stops⟩ := blocked
          · exact .inl down
          · refine .inr ⟨?_, stops⟩
            simp only [ReadPhase.unrun] at all more ⊢
            omega
        · obtain ⟨es', after, -⟩ := reading.filled setUp at_pc (Nat.lt_of_not_le fits) stepped
          exact ⟨es', after.trace, .blocked counted .send left after blocked⟩
      | run => exact blocked.ran counted setUp reading at_pc stepped
      | send =>
        have more : 1 ≤ left := blocked.left_or_unrun counted reading
        obtain ⟨es', trace, ⟨none, -⟩ | ⟨phase', after, unrun, -⟩⟩ :=
          reading.sent begins at_pc stepped
        · omega
        · refine ⟨es', trace, .blocked counted phase' left after ?_⟩
          rw [ReadBlocked, unrun]
          exact blocked

theorem ReadFails.step (fails : ReadFails start s es) (setUp : ReadIsSetUp start.world.ctx)
    (begins : mainLoop.Reachable start) (reach : mainLoop.Reachable s)
    (trace : s.world.trace = start.world.trace ++ es)
    (stepped : mainStep s input = some s') : ReadFailsIn start s' := by
  cases fails with
  | blocked counted phase left reading blocked =>
    exact blocked.step counted setUp begins reading stepped
  | stopped why halted few =>
    cases input with
    | usbOut bytes =>
      simp only [mainStep] at stepped
      split at stepped
      · cases stepped
        refine ⟨es ++ [.usbOut bytes], ?_, .stopped why halted ?_⟩
        · rw [World.receive, World.trace_log, trace, List.append_assoc]
        · simpa [Event.reportedDwords] using few
      · cases stepped
    | poll txFree tdo =>
      simp only [mainStep, mainPoll, halted] at stepped
      cases stepped
  | unsent unsent => exact unsent.step begins reach trace stepped
  | uncounted none unscanned => exact unscanned.step none reach trace stepped
  | lost lost =>
    obtain ⟨rest, grown⟩ := (mainStep_stepped (mainLoop_inv reach) stepped).callStep.grows
    refine ⟨es ++ rest, by rw [grown, trace, List.append_assoc], .lost fun more => ?_⟩
    rw [List.append_assoc]
    exact lost _

end fails

/-! ## Whole runs -/

section runs

variable {start s s' : MainState} {inputs : List MainInput}

/-- A read that starts to fail is whole in no state of any run. -/
theorem ReadFails.never_finished (fails : ReadFails start start [])
    (setUp : ReadIsSetUp start.world.ctx) (begins : mainLoop.Reachable start)
    (ran : mainLoop.run anyAction start inputs = some s) {es : List Event}
    (trace : s.world.trace = start.world.trace ++ es) : ¬ReadFinished start es := by
  have next : ∀ s s' input, (mainLoop.Reachable s ∧ ReadFailsIn start s) → anyAction s input →
      mainLoop.step s input = some s' → mainLoop.Reachable s' ∧ ReadFailsIn start s' := by
    rintro s s' input ⟨reach, es, trace, fails⟩ - stepped
    exact ⟨.next reach trivial stepped, fails.step setUp begins reach trace stepped⟩
  obtain ⟨reach, es', trace', fails'⟩ :=
    Machine.run_keeps next ⟨begins, [], (List.append_nil _).symm, fails⟩ ran
  obtain rfl : es = es' := List.append_cancel_left (trace.symm.trans trace')
  exact fails'.unfinished setUp begins reach trace

theorem MainState.Running.polls (running : s.Running) (txFree : Nat) (tdo : Nat → Bool) :
    ∃ s', mainStep s (.poll txFree tdo) = some s' := by
  cases at_pc : s.pc with
  | halted why => exact absurd at_pc (running why)
  | _ =>
    simp only [mainStep, mainPoll, at_pc]
    split <;> exact ⟨_, rfl⟩

/-- The main loop goes on for `n` calls if it does not stop before. -/
theorem run_polls (s : MainState) (n : Nat) :
    (∃ s', mainLoop.run anyAction s (polls 64 n) = some s') ∨
      ∃ m s', mainLoop.run anyAction s (polls 64 m) = some s' ∧ ¬s'.Running := by
  induction n generalizing s with
  | zero => exact .inl ⟨s, rfl⟩
  | succ n ih =>
    by_cases running : s.Running
    · obtain ⟨next, stepped⟩ := running.polls 64 fun _ => false
      have ran : ∀ k, mainLoop.run anyAction s (polls 64 (k + 1)) =
          mainLoop.run anyAction next (polls 64 k) := by
        intro k
        have step : mainLoop.step s (.poll 64 fun _ => false) = some next := stepped
        rw [polls, List.replicate_succ, Machine.run_any_cons, step, Option.bind_some, polls]
      obtain ⟨s', after⟩ | ⟨m, s', after, halted⟩ := ih next
      · exact .inl ⟨s', (ran n).trans after⟩
      · exact .inr ⟨m + 1, s', (ran m).trans after, halted⟩
    · exact .inr ⟨0, s, rfl, running⟩

theorem total_polls {n : Nat} (ran : mainLoop.run anyAction s (polls 64 n) = some s') :
    mainLoop.total mainCalls s (polls 64 n) = n ∧
      mainLoop.total starvedCalls s (polls 64 n) = 0 := by
  induction n generalizing s with
  | zero => exact ⟨rfl, rfl⟩
  | succ n ih =>
    rw [polls, List.replicate_succ] at ran ⊢
    rw [Machine.run_any_cons] at ran
    obtain ⟨next, stepped, ran⟩ := Option.bind_eq_some_iff.mp ran
    obtain ⟨calls, starved⟩ := ih ran
    rw [polls] at calls starved
    constructor
    · simp only [Machine.total, stepped, Option.elim_some, calls, mainCalls]
      omega
    · simp [Machine.total, stepped, Option.elim_some, starved, starvedCalls]

/-- A read that returns everything is whole at the end of a run. -/
theorem FastReadReturns.finishes (returns : FastReadReturns start) :
    ∃ n s es, mainLoop.run anyAction start (polls 64 n) = some s ∧
      s.world.trace = start.world.trace ++ es ∧ ReadFinished start es := by
  obtain ⟨s, ran⟩ | ⟨m, s, ran, halted⟩ := run_polls start start.world.ctx.readCalls
  · obtain ⟨es, trace, finished | ⟨-, -, few⟩⟩ := returns _ s ran
    · exact ⟨_, s, es, ran, trace, finished⟩
    · obtain ⟨calls, starved⟩ := total_polls ran
      omega
  · obtain ⟨es, trace, finished | ⟨-, running, -⟩⟩ := returns _ s ran
    · exact ⟨m, s, es, ran, trace, finished⟩
    · exact absurd running halted

theorem ReadFails.not_returns (fails : ReadFails start start [])
    (setUp : ReadIsSetUp start.world.ctx) (begins : mainLoop.Reachable start) :
    ¬FastReadReturns start := by
  intro returns
  obtain ⟨n, s, es, ran, trace, finished⟩ := returns.finishes
  exact fails.never_finished setUp begins ran trace finished

end runs

/-! ## Every condition is needed -/

namespace FastReadReturns

variable {start : MainState} (returns : FastReadReturns start)
  (setUp : ReadIsSetUp start.world.ctx) (at_pc : start.pc = .dispatch)
include returns setUp at_pc

/-- With an empty ring a dispatch finds nothing to do, and the read stays where it is: a
    host that waits for its data before it sends anything else waits for ever. -/
theorem waiting : start.world.rx ≠ [] := by
  intro noRx
  have stays : mainLoop.step start (.poll 64 fun _ => false) = some start := by
    have clean := lsejtagDispatch_empty setUp.quiet noRx setUp.consumed
    simp only [mainLoop, mainStep, mainPoll, at_pc, clean, afterDispatch]
    rw [← at_pc]
  have waits : ∀ n, mainLoop.run anyAction start (polls 64 n) = some start := by
    intro n
    induction n with
    | zero => rfl
    | succ n ih =>
      rw [polls, List.replicate_succ, Machine.run_any_cons, stays]
      exact ih
  obtain ⟨n, s, es, ran, trace, finished⟩ := returns.finishes
  obtain rfl : start = s := Option.some_injective _ ((waits n).symm.trans ran)
  obtain rfl : es = [] := by simpa using trace
  exact AllReading.unfinished (fun e member => by cases member) finished

variable (begins : mainLoop.Reachable start)
include begins

/-- A count of zero is counted down from, and a scan is prepared. -/
theorem counted : start.world.ctx.xfersLeft ≠ 0 := by
  intro none
  have unscanned : ReadUnscanned start [] :=
    ⟨.inl at_pc, setUp.continues, setUp.quiet.noBlockA, fun e member => by cases member⟩
  exact (ReadFails.uncounted none unscanned).not_returns setUp begins returns

/-- A read that starts blocked stays so. -/
theorem not_blocked :
    ¬ReadBlocked start.world.ctx .scan start.world.ctx.xfersLeft := by
  intro blocked
  have counted := returns.counted setUp at_pc begins
  have first := Reading.first setUp begins at_pc counted (returns.waiting setUp at_pc)
  exact (ReadFails.blocked counted _ _ first blocked).not_returns setUp begins returns

theorem asks : start.world.ctx.jtagbufA.immediateFlushTdo = true := by
  by_contra down
  exact returns.not_blocked setUp at_pc begins (.inl (by simpa using down))

theorem scanRuns : start.world.ctx.ScanRuns start.world.ctx.firstScanAt := by
  by_contra stops
  exact returns.not_blocked setUp at_pc begins (.inr ⟨rfl, stops⟩)

end FastReadReturns

/-- After the setup of a fast read every run of the main loop prepares exactly the scans
    that were asked for, succeeds with the last one and sends all their dwords, with no
    call but those that are counted, exactly if the read goes through.  A run ends with
    the first store outside the TDO buffer. -/
theorem fast_read_returns_iff {s start : MainState} {fastdata : Bool} {txFree : Nat}
    {tdo : Nat → Bool} (reach : mainLoop.Reachable s) (at_pc : s.pc = .execute)
    (fresh : s.world.ctx.continuation = false)
    (isOp : op s.world.ctx.cmd = some (readOp fastdata))
    (stepped : mainStep s (.poll txFree tdo) = some start) (returned : start.pc = .dispatch) :
    FastReadReturns start ↔ ReadGoesThrough start.world := by
  have setUp := readIsSetUp reach at_pc fresh isOp stepped returned
  have begins : mainLoop.Reachable start := .next (a := .poll txFree tdo) reach trivial stepped
  constructor
  · intro returns
    obtain ⟨room, samples⟩ := returns.scanRuns setUp returned begins
    exact ⟨returns.counted setUp returned begins, returns.asks setUp returned begins,
      returns.waiting setUp returned, samples, room⟩
  · exact fun good => good.returns setUp begins returned

/-- A fast read of `count` words from a single chained core. -/
def oneCoreReadOf (count : Byte) : List Byte := [1, 0x3c, 1, 0, count, 0, 0, 0, 0, 0]

/-- Two words are read behind a scan that was sent back at once. -/
theorem fast_read_returns_two : ∃ s start : MainState, mainLoop.Reachable s ∧
    mainStep s (.poll 64 fun _ => false) = some start ∧ start.world.ctx.xfersLeft = 2 ∧
    FastReadReturns start := by
  have ran : (mainLoop.run anyAction .start
      ([.usbOut [0x00, 0x17, 0x20, 0x00, 1, 2, 3, 4]] ++ polls 64 6 ++
        [.usbOut (oneCoreReadOf 2 ++ List.replicate 4 0xff)] ++ polls 64 1)).any (fun s =>
          (mainStep s (.poll 64 fun _ => false)).any fun start => decide (
            (s.pc = .execute ∧ s.world.ctx.continuation = false ∧
              op s.world.ctx.cmd = some (readOp false)) ∧
            start.pc = .dispatch ∧ start.world.ctx.xfersLeft = 2 ∧
            start.world.ctx.jtagbufA.immediateFlushTdo = true ∧ start.world.rx ≠ [] ∧
            start.world.ctx.tdoSkipBits + 32 * (start.world.ctx.drseqDwordlen - 1) <
              start.world.ctx.tdiBitlen ∧
            start.world.ctx.readSeq.StoresFit start.world.ctx.firstScanAt)) = true := by
    decide +kernel
  obtain ⟨s, reach, ran⟩ := Machine.exists_reach _ rfl ran
  obtain ⟨start, stepped, holds⟩ := (Option.any_eq_true _ _).mp ran
  obtain ⟨⟨at_pc, fresh, isOp⟩, returned, two, asks, waiting, samples, room⟩ :=
    of_decide_eq_true holds
  have good : ReadGoesThrough start.world := ⟨by omega, asks, waiting, samples, room⟩
  exact ⟨s, start, reach, stepped, two,
    (fast_read_returns_iff reach at_pc fresh isOp stepped returned).mpr good⟩

/-- One word, read by the first command of all: `cer_success` is returned and the
    dword is collected, but no flush follows. -/
theorem fast_read_keeps_last : ∃ s start t : MainState, mainLoop.Reachable s ∧
    s.pc = .execute ∧ s.world.ctx.continuation = false ∧
    op s.world.ctx.cmd = some (readOp false) ∧
    mainStep s (.poll 64 fun _ => false) = some start ∧ start.pc = .dispatch ∧
    start.world.ctx.xfersLeft = 1 ∧ mainLoop.run anyAction start (polls 64 10) = some t ∧
    .executed .cerSuccess ∈ t.world.trace ∧ t.world.ctx.tdoInDwords = 1 ∧
    ¬FastReadReturns start := by
  have ran : (mainLoop.run anyAction .start
      ([.usbOut (oneCoreReadOf 1 ++ List.replicate 4 0xff)] ++ polls 64 1)).any (fun s =>
        (mainStep s (.poll 64 fun _ => false)).any fun start =>
          (mainLoop.run anyAction start (polls 64 10)).any fun t => decide (
            (s.pc = .execute ∧ s.world.ctx.continuation = false ∧
              op s.world.ctx.cmd = some (readOp false)) ∧
            (start.pc = .dispatch ∧ start.world.ctx.xfersLeft = 1 ∧
              start.world.ctx.jtagbufA.immediateFlushTdo = false) ∧
            .executed .cerSuccess ∈ t.world.trace ∧ t.world.ctx.tdoInDwords = 1)) = true := by
    decide +kernel
  obtain ⟨s, reach, ran⟩ := Machine.exists_reach _ rfl ran
  obtain ⟨start, stepped, ran⟩ := (Option.any_eq_true _ _).mp ran
  obtain ⟨t, ran, holds⟩ := (Option.any_eq_true _ _).mp ran
  obtain ⟨⟨at_pc, fresh, isOp⟩, ⟨returned, one, down⟩, succeeded, kept⟩ := of_decide_eq_true holds
  refine ⟨s, start, t, reach, at_pc, fresh, isOp, stepped, returned, one, ran, succeeded, kept, ?_⟩
  intro returns
  have setUp := readIsSetUp reach at_pc fresh isOp stepped returned
  have begins : mainLoop.Reachable start :=
    .next (a := .poll 64 fun _ => false) reach trivial stepped
  simp [returns.asks setUp returned begins] at down

end LoongsonEjtag
