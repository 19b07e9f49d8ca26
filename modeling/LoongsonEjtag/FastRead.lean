import LoongsonEjtag.ReadStart

/-! # The run of a fast read

From its setup on, a fast read is three things in turn: the continuation
prepares a scan, `lsejtag_run_jtag` runs it, and `lsejtag_flush_tdo` sends what
it collected.  Nothing but flags decides between them: `immediate_flush_tdo` of
the block, which the read leaves as it finds it, and bytes in the RX ring, which
a read has no use for.

* `Reading` — the three phases as an invariant, with a bound on the calls that are
  left in each.
* `ReadGoesThrough.returns` — a read that goes through returns everything.
-/

namespace LoongsonEjtag

open Lib (Byte u32 u32_eq sub32 sub32_eq dwordsBytes Machine)

/-! ## Phases of a read -/

/-- A scan that starts at `at_dword` of the TDO buffer is run to its end. -/
structure LsejtagCtx.ScanRuns (ctx : LsejtagCtx) (at_dword : Nat) : Prop where
  room : ctx.readSeq.StoresFit at_dword
  samples : ctx.tdoSkipBits + 32 * (ctx.drseqDwordlen - 1) < ctx.tdiBitlen

/-- Such a scan is run at the start of the buffer, too. -/
theorem LsejtagCtx.ScanRuns.flushed {ctx : LsejtagCtx} {at_dword : Nat}
    (runs : ctx.ScanRuns at_dword) : ctx.ScanRuns 0 := by
  have room := runs.room
  refine ⟨?_, runs.samples⟩
  rw [JtagSeq.StoresFit] at room ⊢
  omega

inductive ReadPhase where
  /-- The next scan is to be prepared. -/
  | scan
  /-- A scan is to be run. -/
  | run
  /-- Collected dwords are to be sent. -/
  | send

namespace ReadPhase

/-- The call that a phase is dispatched to. -/
def call : ReadPhase → MainPc
  | .scan => .execute
  | .run => .runJtag
  | .send => .flushTdo

/-- Scans that are prepared and not run. -/
def unrun : ReadPhase → Nat
  | .run => 1
  | .scan | .send => 0

/-- Calls to the end of the read, from a dispatch in the phase on. -/
def calls (dwords collected left : Nat) : ReadPhase → Nat
  | .scan => (if collected = 0 then 0 else 2) + 2 * collected + left * (2 * dwords + 4)
  | .run => 2 + 2 * (collected + dwords) + left * (2 * dwords + 4)
  | .send => 2 * collected + left * (2 * dwords + 4)

/-- Every phase has calls to go, one more than the dispatch. -/
theorem two_le_calls {dwords collected left : Nat} (phase : ReadPhase)
    (some : collected ≠ 0 ∨ left ≠ 0 ∨ phase = .run) :
    2 ≤ phase.calls dwords collected left := by
  have scans : left ≠ 0 → 4 ≤ left * (2 * dwords + 4) := fun more =>
    Nat.le_trans (Nat.le_add_left 4 (2 * dwords)) (Nat.le_mul_of_pos_left _ (by omega))
  cases phase with
  | run =>
    simp only [calls]
    omega
  | scan =>
    obtain some | more | never := some
    · simp only [calls, if_neg some]
      omega
    · have := scans more
      simp only [calls]
      omega
    · cases never
  | send =>
    obtain some | more | never := some
    · simp only [calls]
      omega
    · have := scans more
      simp only [calls]
      omega
    · cases never

section ranks

variable {dwords collected left : Nat}

theorem calls_scanned (more : left ≠ 0) :
    ReadPhase.run.calls dwords collected (left - 1) + 2 ≤
      ReadPhase.scan.calls dwords collected left := by
  have scan : left * (2 * dwords + 4) = (left - 1) * (2 * dwords + 4) + (2 * dwords + 4) := by
    rw [← Nat.succ_mul, Nat.succ_eq_add_one, Nat.sub_add_cancel (by omega)]
  simp only [calls, scan]
  omega

theorem calls_filled (some : collected ≠ 0) :
    ReadPhase.send.calls dwords collected left + 2 ≤
      ReadPhase.scan.calls dwords collected left := by
  simp only [calls, if_neg some]
  omega

theorem calls_ran : ReadPhase.send.calls dwords (collected + dwords) left + 2 =
    ReadPhase.run.calls dwords collected left := by
  simp only [calls]
  omega

theorem calls_emptied (some : collected ≠ 0) :
    ReadPhase.scan.calls dwords 0 left + 2 ≤ ReadPhase.send.calls dwords collected left := by
  simp only [calls, if_true]
  omega

end ranks

end ReadPhase

/-- Where a scan starts, with `left` scans to prepare and everything flushed that
    was collected by the ones before. -/
def LsejtagCtx.scanAt (start : LsejtagCtx) (left : Nat) : Nat :=
  if left = start.xfersLeft then start.firstScanAt else 0

theorem LsejtagCtx.scanAt_fits {start : LsejtagCtx} (few : start.drseqDwordlen ≤ 64)
    (left : Nat) : start.scanAt left + start.drseqDwordlen ≤ 64 := by
  rw [scanAt, firstScanAt]
  split
  · split <;> omega
  · omega

/-- The first scan starts behind what is pending if it fits in there. -/
theorem LsejtagCtx.scanAt_first {start : LsejtagCtx}
    (fits : start.tdoInDwords + start.drseqDwordlen ≤ 64) :
    start.scanAt start.xfersLeft = start.tdoInDwords := by
  rw [scanAt, if_pos rfl, firstScanAt, if_pos fits]

theorem LsejtagCtx.scanAt_flushed {start : LsejtagCtx} {left : Nat}
    (full : left = start.xfersLeft → 64 < start.tdoInDwords + start.drseqDwordlen) :
    start.scanAt left = 0 := by
  rw [scanAt]
  split
  · rename_i first
    have full := full first
    rw [firstScanAt, if_neg (by omega)]
  · rfl

section phases

variable (start : LsejtagCtx) (left : Nat)

/-- The continuation context is that of `start`, with `left` transfers to go. -/
structure ReadContinues (ctx : LsejtagCtx) : Prop where
  continuation : ctx.continuation = start.continuation
  contOp : ctx.contOp = start.contOp
  dwordlen : ctx.drseqDwordlen = start.drseqDwordlen
  bitlen : ctx.drseqBitlen = start.drseqBitlen
  skips : ctx.tdoSkipBits = start.tdoSkipBits
  tdiBitlen : ctx.tdiBitlen = start.tdiBitlen
  xfersLeft : ctx.xfersLeft = left
  ready : ctx.cmdBufState = .cbsExecute

theorem ReadContinues.same {start : LsejtagCtx} {left : Nat} {ctx ctx' : LsejtagCtx}
    (continues : ReadContinues start left ctx) (cont : ctx'.toContCtx = ctx.toContCtx)
    (state : ctx'.cmdBufState = ctx.cmdBufState) : ReadContinues start left ctx' := by
  constructor <;> simp only [cont, state, continues.continuation, continues.contOp,
    continues.dwordlen, continues.bitlen, continues.skips, continues.tdiBitlen,
    continues.xfersLeft, continues.ready]

theorem ReadContinues.reads {start : LsejtagCtx} {left : Nat} {ctx : LsejtagCtx}
    (continues : ReadContinues start left ctx) (reads : ContinuesRead start) :
    ContinuesRead ctx :=
  ⟨continues.continuation.trans reads.continues, continues.ready, continues.contOp ▸ reads.isOp⟩

/-- What the calls of a read keep, with `left` transfers to go. -/
structure ReadKept (w : World) : Prop where
  continues : left ≠ 0 → ReadContinues start left w.ctx
  tdi : w.ctx.jtagbufA.tdiData = start.jtagbufA.tdiData
  tms : w.ctx.jtagbufA.tmsData = start.jtagbufA.tmsData
  asks : w.ctx.jtagbufA.immediateFlushTdo = start.jtagbufA.immediateFlushTdo
  waiting : w.rx ≠ []

/-- A call that keeps the continuation and the sequences of the block. -/
theorem ReadKept.same {start : LsejtagCtx} {left : Nat} {w w' : World}
    (kept : ReadKept start left w) (cont : w'.ctx.toContCtx = w.ctx.toContCtx)
    (state : w'.ctx.cmdBufState = w.ctx.cmdBufState)
    (tdi : w'.ctx.jtagbufA.tdiData = w.ctx.jtagbufA.tdiData)
    (tms : w'.ctx.jtagbufA.tmsData = w.ctx.jtagbufA.tmsData)
    (asks : w'.ctx.jtagbufA.immediateFlushTdo = w.ctx.jtagbufA.immediateFlushTdo)
    (rx : w'.rx = w.rx) : ReadKept start left w' where
  continues more := (kept.continues more).same cont state
  tdi := tdi.trans kept.tdi
  tms := tms.trans kept.tms
  asks := asks.trans kept.asks
  waiting := rx ▸ kept.waiting

/-- What each phase is known by.  Where the first scan starts is known, and where a
    later one does if what was collected before has been flushed. -/
inductive ReadPhaseAt (ctx : LsejtagCtx) : ReadPhase → Prop
  | scan (more : left ≠ 0) (quiet : ctx.Quiet)
      (new : ctx.tdoInDwords ≠ 0 → ctx.tdoHaveNewData = true)
      (starts : start.jtagbufA.immediateFlushTdo = true ∨ left = start.xfersLeft →
        ctx.tdoInDwords = start.scanAt left ∨
          left = start.xfersLeft ∧ ctx.tdoInDwords = start.tdoInDwords) : ReadPhaseAt ctx .scan
  | run (prepared : ctx.jtagbufA.prepared = true) (seq : ctx.jtagbufA.seq = start.readSeq)
      (calm : ctx.tdoShouldFlush = false)
      (old : (ctx.tdoImmediateFlush && ctx.tdoHaveNewData) = false)
      (fits : ctx.tdoInDwords + start.drseqDwordlen ≤ 64)
      (starts : start.jtagbufA.immediateFlushTdo = true ∨ left + 1 = start.xfersLeft →
        ctx.tdoInDwords = start.scanAt (left + 1)) : ReadPhaseAt ctx .run
  | send (unprepared : ctx.jtagbufA.prepared = false) (some : ctx.tdoInDwords ≠ 0)
      (due : ctx.tdoShouldFlush = true ∨
        (ctx.tdoImmediateFlush && ctx.tdoHaveNewData) = true)
      (asked : left = 0 → start.jtagbufA.immediateFlushTdo = true)
      (full : left = start.xfersLeft → 64 < start.tdoInDwords + start.drseqDwordlen) :
      ReadPhaseAt ctx .send

end phases

/-- What the read has done so far, with `left` transfers to go and `unrun` scans
    that are prepared and not run. -/
structure ReadHistory (start : LsejtagCtx) (left unrun : Nat) (es : List Event) : Prop where
  prepared : preparedSeqs es = List.replicate (start.xfersLeft - left) start.readSeq
  collected : (reported es).length + unrun * start.drseqDwordlen =
    (start.xfersLeft - left) * start.drseqDwordlen
  reading : left ≠ 0 → AllReading es
  succeeded : left = 0 → ∃ scans sends, es = scans ++ .executed .cerSuccess :: sends ∧
    AllReading scans ∧ AllSending sends

/-- The read that is set up in `start` is in `phase`, and `es` followed `start`. -/
structure Reading (start s : MainState) (phase : ReadPhase) (left : Nat) (es : List Event) :
    Prop where
  reach : mainLoop.Reachable s
  trace : s.world.trace = start.world.trace ++ es
  le : left + phase.unrun ≤ start.world.ctx.xfersLeft
  pc : s.pc = .dispatch ∨ s.pc = phase.call
  kept : ReadKept start.world.ctx left s.world
  holds : ReadPhaseAt start.world.ctx left s.world.ctx phase
  history : ReadHistory start.world.ctx left phase.unrun es

/-- Calls to the end of the read. -/
def readCallsLeft (start s : MainState) (phase : ReadPhase) (left : Nat) : Nat :=
  phase.calls start.world.ctx.drseqDwordlen s.world.ctx.tdoInDwords left -
    if s.pc = .dispatch then 0 else 1

/-! ## What is left of it in the trace -/

theorem AllSending.append {t u : List Event} (first : AllSending t) (second : AllSending u) :
    AllSending (t ++ u) :=
  List.forall_mem_append.mpr ⟨first, second⟩

theorem AllReading.append {t u : List Event} (first : AllReading t) (second : AllReading u) :
    AllReading (t ++ u) :=
  List.forall_mem_append.mpr ⟨first, second⟩

theorem AllSending.allReading {t : List Event} (sending : AllSending t) : AllReading t := by
  intro e member
  have := sending e member
  cases e <;> simp_all [Event.isSending, Event.isReading]

theorem AllSending.preparedSeqs_eq {t : List Event} (sending : AllSending t) :
    preparedSeqs t = [] := by
  apply List.flatMap_eq_nil_iff.mpr
  intro e member
  have := sending e member
  cases e <;> simp_all [Event.isSending, Event.preparedSeq]

namespace ReadHistory

variable {start : LsejtagCtx} {left unrun unrun' : Nat} {es more : List Event}

/-- Running and sending go on with the history. -/
theorem sends (history : ReadHistory start left unrun es) (more : List Event)
    (sending : AllSending more)
    (collected : (reported more).length + unrun' * start.drseqDwordlen =
      unrun * start.drseqDwordlen) : ReadHistory start left unrun' (es ++ more) := by
  obtain ⟨prepared, before, reading, succeeded⟩ := history
  refine ⟨?_, ?_, fun some => (reading some).append sending.allReading, fun none => ?_⟩
  · rw [preparedSeqs_append, sending.preparedSeqs_eq, List.append_nil, prepared]
  · rw [reported_append, List.length_append]
    omega
  · obtain ⟨scans, sends, rfl, allReading, allSending⟩ := succeeded none
    exact ⟨scans, sends ++ more, by simp, allReading, allSending.append sending⟩

/-- So does a call that neither prepares a scan nor runs one. -/
theorem reads (history : ReadHistory start left unrun es) (some : left ≠ 0)
    (reading : AllReading more) (noScan : preparedSeqs more = []) (nothing : reported more = []) :
    ReadHistory start left unrun (es ++ more) := by
  obtain ⟨prepared, before, earlier, -⟩ := history
  refine ⟨?_, ?_, fun _ => (earlier some).append reading, fun none => absurd none some⟩
  · rw [preparedSeqs_append, noScan, List.append_nil, prepared]
  · rw [reported_append, nothing, List.append_nil, before]

/-- A scan is prepared, and with the last of them the continuation succeeds. -/
theorem scans (history : ReadHistory start left 0 es) (some : left ≠ 0)
    (le : left ≤ start.xfersLeft) (cmd : List Byte) :
    ReadHistory start (left - 1) 1 (es ++ [.execute true cmd, .prepared start.readSeq,
      .executed (if left - 1 = 0 then .cerSuccess else .cerContinue)]) := by
  obtain ⟨prepared, before, reading, -⟩ := history
  have one : start.xfersLeft - (left - 1) = start.xfersLeft - left + 1 := by omega
  have called : AllReading [.execute true cmd, .prepared start.readSeq] := by
    simp [AllReading, Event.isReading]
  refine ⟨?_, ?_, ?_, ?_⟩
  · rw [one, List.replicate_succ', preparedSeqs_append, prepared]
    simp [Event.preparedSeq]
  · rw [one, Nat.succ_mul (start.xfersLeft - left), ← before]
    simp [Event.reportedDwords]
  · intro more
    rw [if_neg more]
    apply (reading some).append
    intro e member
    simp only [List.mem_cons, List.not_mem_nil, or_false] at member
    obtain rfl | rfl | rfl := member <;> simp [Event.isReading]
  · intro none
    rw [if_pos none]
    exact ⟨es ++ [.execute true cmd, .prepared start.readSeq], [], by simp,
      (reading some).append called, fun e member => by cases member⟩

theorem scans_eq {scans sends : List Event} (history : ReadHistory start 0 unrun
      (scans ++ .executed .cerSuccess :: sends)) (sending : AllSending sends) :
    preparedSeqs scans = List.replicate start.xfersLeft start.readSeq := by
  have prepared := history.prepared
  rw [preparedSeqs_append, preparedSeqs_cons, sending.preparedSeqs_eq] at prepared
  simpa [Event.preparedSeq] using prepared

end ReadHistory

theorem Reading.underway {start s : MainState} {phase : ReadPhase} {left : Nat} {es : List Event}
    (reading : Reading start s phase left es) : ReadUnderway start es := by
  have le := reading.le
  have history := reading.history
  by_cases last : left = 0
  · subst last
    obtain ⟨scans, sends, rfl, allReading, allSending⟩ := history.succeeded rfl
    exact .inr ⟨scans, sends, rfl, allReading, allSending, history.scans_eq allSending⟩
  · exact .inl ⟨history.reading last, _, by omega, history.prepared⟩

theorem Reading.running {start s : MainState} {phase : ReadPhase} {left : Nat} {es : List Event}
    (reading : Reading start s phase left es) : s.Running := by
  rintro why halted
  have pc := reading.pc
  rw [halted] at pc
  cases phase <;> simp [ReadPhase.call] at pc

/-- What is flushed between two states of a run, and what is pending in the second, was
    pending in the first or was reported since. -/
theorem sent_between {start s : MainState} {es : List Event} (begins : mainLoop.Reachable start)
    (reach : mainLoop.Reachable s) (trace : s.world.trace = start.world.trace ++ es) :
    flushed es ++ dwordsBytes s.world.ctx.pendingDwords =
      dwordsBytes start.world.ctx.pendingDwords ++ dwordsBytes (reported es) := by
  obtain ⟨_, is⟩ := (mainLoop_inv begins).engine.queue
  obtain ⟨_, is'⟩ := (mainLoop_inv reach).engine.queue
  have before := is.stream
  have after := is'.stream
  rw [trace, flushed_append, reported_append, Lib.dwordsBytes_append, ← before,
    List.append_assoc, List.append_assoc] at after
  exact List.append_cancel_left after

/-- With the last scan run and the queue empty the read is whole. -/
theorem ReadHistory.finished {start s : MainState} {es : List Event}
    (begins : mainLoop.Reachable start) (reach : mainLoop.Reachable s)
    (trace : s.world.trace = start.world.trace ++ es)
    (history : ReadHistory start.world.ctx 0 0 es) (empty : s.world.ctx.tdoInDwords = 0) :
    ReadFinished start es := by
  obtain ⟨scans, sends, rfl, reading, sending⟩ := history.succeeded rfl
  have sent := sent_between begins reach trace
  have nothing : s.world.ctx.pendingDwords = [] := by
    rw [LsejtagCtx.pendingDwords, empty, List.take_zero]
  rw [nothing] at sent
  have collected := history.collected
  refine ⟨scans, sends, [], by simp, reading, sending, history.scans_eq sending, ?_, ?_⟩
  · simpa [Event.reportedDwords] using collected
  · simpa [Event.reportedDwords, Event.flushedBytes, dwordsBytes] using sent

theorem ReadFinished.append {start : MainState} {es : List Event} (finished : ReadFinished start es)
    (more : List Event) : ReadFinished start (es ++ more) := by
  obtain ⟨scans, sends, rest, rfl, sent⟩ := finished
  exact ⟨scans, sends, rest ++ more, by simp, sent⟩

/-! ## One step of a read -/

section steps

variable {start s s' : MainState} {phase : ReadPhase} {left txFree : Nat} {es : List Event}
  {tdo : Nat → Bool}

theorem Reading.reach_step {input : MainInput} (reading : Reading start s phase left es)
    (stepped : mainStep s input = some s') : mainLoop.Reachable s' :=
  .next (a := input) reading.reach trivial stepped

theorem Reading.received {bytes : List Byte} (reading : Reading start s phase left es)
    (stepped : mainStep s (.usbOut bytes) = some s') :
    Reading start s' phase left (es ++ [.usbOut bytes]) ∧
      readCallsLeft start s' phase left = readCallsLeft start s phase left := by
  have reach := reading.reach_step stepped
  simp only [mainStep] at stepped
  split at stepped
  · cases stepped
    obtain ⟨-, trace, le, pc, kept, holds, history⟩ := reading
    refine ⟨⟨reach, ?_, le, pc, ⟨kept.continues, kept.tdi, kept.tms, kept.asks, ?_⟩,
      ?_, history.sends _ ?_ ?_⟩, rfl⟩
    · simp [World.receive, trace]
    · simp [World.receive, kept.waiting]
    · cases holds with
      | scan more quiet new starts => exact .scan more quiet new starts
      | run prepared seq calm old fits starts => exact .run prepared seq calm old fits starts
      | send unprepared some due asked full => exact .send unprepared some due asked full
    · simp [AllSending, Event.isSending]
    · simp [Event.reportedDwords]
  · cases stepped

theorem Reading.two_le_calls (reading : Reading start s phase left es) :
    2 ≤ phase.calls start.world.ctx.drseqDwordlen s.world.ctx.tdoInDwords left := by
  apply phase.two_le_calls
  cases reading.holds with
  | scan more => exact .inr (.inl more)
  | run => exact .inr (.inr rfl)
  | send _ some => exact .inl some

/-- A dispatch is the first of the calls a phase has to go. -/
theorem Reading.calls_dispatched (reading : Reading start s phase left es)
    (at_pc : s.pc = .dispatch) (w : World)
    (same : w.ctx.tdoInDwords = s.world.ctx.tdoInDwords) :
    readCallsLeft start ⟨w, phase.call⟩ phase left + 1 = readCallsLeft start s phase left := by
  have calls := reading.two_le_calls
  have notDispatch : phase.call ≠ .dispatch := by
    cases phase <;> exact nofun
  rw [readCallsLeft, readCallsLeft, same, if_pos at_pc, if_neg notDispatch]
  omega

/-- The call is the second of them. -/
theorem readCallsLeft_called {phase' : ReadPhase} {left' : Nat}
    (at_pc : s.pc = phase.call) (w : World)
    (fewer : phase'.calls start.world.ctx.drseqDwordlen w.ctx.tdoInDwords left' + 2 ≤
      phase.calls start.world.ctx.drseqDwordlen s.world.ctx.tdoInDwords left) :
    readCallsLeft start ⟨w, .dispatch⟩ phase' left' + 1 ≤ readCallsLeft start s phase left := by
  have notDispatch : s.pc ≠ .dispatch := by
    rw [at_pc]
    cases phase <;> exact nofun
  simp only [readCallsLeft, if_true, if_neg notDispatch]
  omega

/-- A dispatch asks for the call of the phase. -/
theorem Reading.dispatched (reading : Reading start s phase left es) (at_pc : s.pc = .dispatch)
    (stepped : mainStep s (.poll txFree tdo) = some s') :
    Reading start s' phase left es ∧
      readCallsLeft start s' phase left + 1 = readCallsLeft start s phase left := by
  have reach := reading.reach_step stepped
  have calls := reading.calls_dispatched at_pc
  obtain ⟨-, trace, le, -, kept, holds, history⟩ := reading
  simp only [mainStep, mainPoll, at_pc] at stepped
  cases holds with
  | scan more quiet new starts =>
    rw [lsejtagDispatch_scan quiet (kept.continues more).ready kept.waiting] at stepped
    cases stepped
    exact ⟨⟨reach, trace, le, .inr rfl, kept, .scan more quiet new starts, history⟩,
      calls _ rfl⟩
  | run prepared seq calm old fits starts =>
    rw [lsejtagDispatch_run calm old prepared] at stepped
    cases stepped
    exact ⟨⟨reach, trace, le, .inr rfl, kept, .run prepared seq calm old fits starts, history⟩,
      calls _ rfl⟩
  | send unprepared some due asked full =>
    obtain ⟨new, dispatched⟩ := lsejtagDispatch_send due
    rw [dispatched] at stepped
    cases stepped
    exact ⟨⟨reach, trace, le, .inr rfl,
      kept.same rfl rfl rfl rfl rfl rfl, .send unprepared some (.inl rfl) asked full, history⟩,
      calls _ rfl⟩

/-- A flush sends what there is room for.  With the last dword of the last scan
    the read is whole. -/
theorem Reading.sent (begins : mainLoop.Reachable start)
    (reading : Reading start s .send left es) (at_pc : s.pc = .flushTdo)
    (stepped : mainStep s (.poll txFree tdo) = some s') :
    ∃ es', s'.world.trace = start.world.trace ++ es' ∧ (left = 0 ∧ ReadFinished start es' ∨
      ∃ phase', Reading start s' phase' left es' ∧ phase'.unrun = 0 ∧
        readCallsLeft start s' phase' left + 1 ≤
          readCallsLeft start s .send left + starvedCalls s (.poll txFree tdo)) := by
  have reach := reading.reach_step stepped
  obtain ⟨engine, pc⟩ := mainLoop_inv reading.reach
  have should := pc.flushTdo at_pc
  obtain ⟨-, trace, le, -, kept, holds, history⟩ := reading
  cases holds with
  | send unprepared some due asked full =>
  have bounded := engine.bounded
  have inside : s.world.ctx.tdoFlushPtr + s.world.ctx.tdoInDwords ≤ 64 := by
    obtain ⟨q, is⟩ := engine.queue
    exact is.pointers ▸ is.inside
  obtain ⟨count, w', returned⟩ := lsejtagFlushTdo_flushes inside txFree
  simp only [mainStep, mainPoll, at_pc, returned, Option.some.injEq] at stepped
  subst stepped
  obtain ⟨dwords, isMin, ctx, rx, flush⟩ := lsejtagFlushTdo_ok bounded returned
  let sent : Event := .flush (dwordsBytes (s.world.ctx.pendingDwords.take dwords))
  have trace' : w'.trace = start.world.trace ++ (es ++ [sent]) := by
    rw [flush, trace, List.append_assoc]
  have history' : ReadHistory start.world.ctx left 0 (es ++ [sent]) :=
    history.sends [sent] (by simp [AllSending, Event.isSending, sent])
      (by simp [Event.reportedDwords, sent, ReadPhase.unrun])
  refine ⟨es ++ [sent], trace', ?_⟩
  have kept' : ReadKept start.world.ctx left w' := by
    obtain ⟨cont, state, blk⟩ := flushedTdo_keeps s.world.ctx dwords
    rw [← ctx] at cont state blk
    exact kept.same cont state (by rw [blk]) (by rw [blk]) (by rw [blk]) rx
  by_cases all : dwords = s.world.ctx.tdoInDwords
  · rw [LsejtagCtx.flushedTdo, if_pos all] at ctx
    have empty : w'.ctx.tdoInDwords = 0 := by rw [ctx]
    by_cases last : left = 0
    · subst last
      exact .inl ⟨rfl, history'.finished begins reach trace' empty⟩
    · have quiet : w'.ctx.Quiet := by
        rw [ctx]
        exact ⟨rfl, rfl, unprepared, engine.idle.unusedB⟩
      have starts : w'.ctx.tdoInDwords = start.world.ctx.scanAt left := by
        rw [empty, LsejtagCtx.scanAt_flushed full]
      refine .inr ⟨.scan, ⟨reach, trace', le, .inl rfl, kept', .scan last quiet
        (fun some => absurd empty some) (fun _ => .inl starts), history'⟩, rfl, ?_⟩
      apply Nat.le_add_right_of_le
      apply readCallsLeft_called at_pc
      rw [empty]
      exact ReadPhase.calls_emptied some
  · rw [LsejtagCtx.flushedTdo, if_neg all] at ctx
    have rest : w'.ctx.tdoInDwords = s.world.ctx.tdoInDwords - dwords := by rw [ctx]
    have more : w'.ctx.tdoInDwords ≠ 0 := by omega
    refine .inr ⟨.send, ⟨reach, trace', le, .inl rfl, kept', .send ?_ more (.inl ?_) asked full,
      history'⟩, rfl, ?_⟩
    · rw [ctx]
      exact unprepared
    · rw [ctx]
      exact should
    · -- Without room for a dword the flush costs two calls and sends nothing.
      simp only [readCallsLeft, ReadPhase.calls, starvedCalls, at_pc, rest]
      simp only [if_true, reduceCtorEq, if_false, true_and]
      split <;> omega

end steps

/-! ## The calls that prepare, run and send scans -/

section scans

variable {start s s' : MainState} {phase : ReadPhase} {left txFree : Nat} {es : List Event}
  {tdo : Nat → Bool} (setUp : ReadIsSetUp start.world.ctx)
include setUp

/-- The dwords that the watermark check expects of a scan. -/
theorem readMark {blk : JtagbufBlk} (seq : blk.seq = start.world.ctx.readSeq) :
    u32 (blk.tdoBits + 31) / 32 = start.world.ctx.drseqDwordlen := by
  have sized : start.world.ctx.drseqDwordlen = bit2dword start.world.ctx.drseqBitlen :=
    setUp.sized
  have few := setUp.few
  have tdoBits : blk.tdoBits = start.world.ctx.drseqDwordlen * 32 := by
    rw [sized]
    exact congrArg JtagSeq.tdoBits seq
  rw [tdoBits, u32_eq (by omega)]
  omega

/-- The continuation prepares the next scan. -/
theorem Reading.scanned (reading : Reading start s .scan left es) (at_pc : s.pc = .execute)
    (fits : s.world.ctx.tdoInDwords + s.world.ctx.drseqDwordlen ≤ 64)
    (stepped : mainStep s (.poll txFree tdo) = some s') :
    ∃ es', Reading start s' .run (left - 1) es' ∧
      readCallsLeft start s' .run (left - 1) + 1 ≤ readCallsLeft start s .scan left := by
  have reach := reading.reach_step stepped
  have engine := (mainLoop_inv reading.reach).engine
  obtain ⟨-, trace, le, -, ⟨continues, tdi, tms, asks, waiting⟩, holds, history⟩ := reading
  cases holds with
  | scan more quiet new starts =>
  have same := continues more
  have reads := same.reads setUp.continues
  have scans := lsejtagExecute_scan (w := s.world.enterExecute) reads txFree tdo engine.bounded
    fits (engine.idle.periphFree quiet.noBlockA)
  have isLeft : sub32 s.world.enterExecute.ctx.xfersLeft 1 = left - 1 := by
    have small := setUp.small
    have before : s.world.enterExecute.ctx.xfersLeft = left := same.xfersLeft
    rw [before, sub32_eq (by omega) (by omega)]
  rw [isLeft] at scans
  generalize ends : finishXfers _ = finished at scans
  obtain ⟨r, w'⟩ := finished
  obtain ⟨sameEngine, sameTrace, sameRx⟩ := finishXfers_same ends.symm
  obtain ⟨isResult, goesOn⟩ := finishXfers_left ends.symm
  simp only [mainStep, mainPoll, at_pc, scans, Option.some.injEq] at stepped
  subst stepped
  have isBlk : w'.ctx.jtagbufA = s.world.ctx.readBlk := sameEngine.blockA
  have tdoQueue : w'.ctx.toTdoQueue = s.world.ctx.toTdoQueue := sameEngine.tdo
  have isSeq : s.world.ctx.readBlk.seq = start.world.ctx.readSeq := by
    simp only [LsejtagCtx.readBlk, JtagbufBlk.seq, LsejtagCtx.readSeq, tdi, tms, same.bitlen,
      same.skips, same.tdiBitlen]
  have prepared : w'.ctx.jtagbufA.prepared = true := by
    rw [isBlk]
    rfl
  rw [same.dwordlen] at fits
  have again : left - 1 + 1 = left := by omega
  refine ⟨_, ⟨reach, ?_, again ▸ le, .inl rfl, ⟨?_, ?_, ?_, ?_, ?_⟩,
    .run prepared ?_ ?_ ?_ ?_ ?_, history.scans more le s.world.ctx.cmd⟩, ?_⟩
  · rw [World.trace_log, sameTrace, isResult]
    simp [World.placed, World.enterExecute, trace, reads.continues, isSeq]
  · -- the context is the command's own until its last transfer
    intro further
    obtain rfl := goesOn further
    exact ⟨same.continuation, same.contOp, same.dwordlen, same.bitlen, same.skips,
      same.tdiBitlen, rfl, same.ready⟩
  · rw [World.ctx_log, isBlk]
    exact tdi
  · rw [World.ctx_log, isBlk]
    exact tms
  · rw [World.ctx_log, isBlk]
    exact asks
  · rw [World.rx_log, sameRx]
    exact waiting
  · rw [World.ctx_log, isBlk, isSeq]
  · rw [World.ctx_log, tdoQueue]
    exact quiet.noFlush
  · rw [World.ctx_log, tdoQueue]
    exact quiet.noNewData
  · rw [World.ctx_log, tdoQueue]
    exact fits
  · rw [World.ctx_log, tdoQueue, again]
    intro known
    obtain starts | ⟨first, pending⟩ := starts known
    · exact starts
    · rw [pending] at fits ⊢
      rw [first, LsejtagCtx.scanAt_first fits]
  · apply readCallsLeft_called at_pc
    rw [World.ctx_log, tdoQueue]
    exact ReadPhase.calls_scanned more

/-- Without room for a scan the continuation asks for a flush, and there is
    something to flush. -/
theorem Reading.filled (reading : Reading start s .scan left es) (at_pc : s.pc = .execute)
    (full : 64 < s.world.ctx.tdoInDwords + s.world.ctx.drseqDwordlen)
    (stepped : mainStep s (.poll txFree tdo) = some s') :
    ∃ es', Reading start s' .send left es' ∧
      readCallsLeft start s' .send left + 1 ≤ readCallsLeft start s .scan left := by
  have reach := reading.reach_step stepped
  have engine := (mainLoop_inv reading.reach).engine
  obtain ⟨-, trace, le, -, kept, holds, history⟩ := reading
  cases holds with
  | scan more quiet new starts =>
  have same := kept.continues more
  have reads := same.reads setUp.continues
  have returned := lsejtagExecute_full (w := s.world.enterExecute) reads txFree tdo engine.bounded
    full
  simp only [mainStep, mainPoll, at_pc, returned, Option.some.injEq] at stepped
  subst stepped
  rw [same.dwordlen] at full
  have some : s.world.ctx.tdoInDwords ≠ 0 := by
    have few := setUp.few
    omega
  have pending : left = start.world.ctx.xfersLeft →
      64 < start.world.ctx.tdoInDwords + start.world.ctx.drseqDwordlen := by
    intro first
    obtain starts | ⟨-, pending⟩ := starts (.inr first)
    · have fits := LsejtagCtx.scanAt_fits setUp.few left
      omega
    · rwa [pending] at full
  refine ⟨es ++ [.execute true s.world.ctx.cmd, .executed .cerContinue],
    ⟨reach, ?_, le, .inl rfl, kept.same rfl rfl rfl rfl rfl rfl,
      .send quiet.noBlockA some (.inr (new some)) (fun none => absurd none more) pending, ?_⟩, ?_⟩
  · simp [World.enterExecute, trace, reads.continues]
  · exact history.reads more (by simp [AllReading, Event.isReading])
      (by simp [Event.preparedSeq]) (by simp [Event.reportedDwords])
  · apply readCallsLeft_called at_pc
    exact ReadPhase.calls_filled some

/-- A scan samples as many dwords as are kept free for it exactly if it has clocks for
    a sample in the last one. -/
theorem readSeq_reports_iff :
    (start.world.ctx.readSeq.tdoSampled start.world.ctx.tdiBitlen + 31) / 32 =
        start.world.ctx.drseqDwordlen ↔
      start.world.ctx.tdoSkipBits + 32 * (start.world.ctx.drseqDwordlen - 1) <
        start.world.ctx.tdiBitlen := by
  have sized : start.world.ctx.drseqDwordlen = bit2dword start.world.ctx.drseqBitlen :=
    setUp.sized
  have some := setUp.some
  simp only [JtagSeq.tdoSampled, LsejtagCtx.readSeq, ← sized]
  omega

theorem readScan_runs_iff {w : World} (engine : EngineInv w) (tdo : Nat → Bool)
    (holds : ReadPhaseAt start.world.ctx left w.ctx .run) :
    (∃ w', lsejtagRunJtag w tdo = .ok w') ↔ start.world.ctx.ScanRuns w.ctx.tdoInDwords := by
  cases holds with
  | run prepared seq calm old fits starts =>
  have tdiBits : w.ctx.jtagbufA.tdiBits = start.world.ctx.tdiBitlen :=
    congrArg JtagSeq.tdiBits seq
  have mark := readMark setUp seq
  rw [lsejtagRunJtag_runs_iff tdo engine.idle.periphWorking prepared (tdiBits ▸ setUp.fits)
    engine.bounded, mark, seq, tdiBits, engine.dma_of_calm calm, readSeq_reports_iff setUp]
  exact ⟨fun ⟨room, samples⟩ => ⟨room, samples⟩, fun ⟨room, samples⟩ => ⟨room, samples⟩⟩

/-- What running a scan leaves. -/
structure ScanRan (start s : MainState) (left : Nat) (w' : World) (es : List Event) : Prop where
  trace : w'.trace = start.world.trace ++ es
  kept : ReadKept start.world.ctx left w'
  count : w'.ctx.tdoInDwords = s.world.ctx.tdoInDwords + start.world.ctx.drseqDwordlen
  unprepared : w'.ctx.jtagbufA.prepared = false
  unpreparedB : w'.ctx.jtagbufB.prepared = false
  calm : w'.ctx.tdoShouldFlush = false
  asks : w'.ctx.tdoImmediateFlush = start.world.ctx.jtagbufA.immediateFlushTdo
  new : w'.ctx.tdoHaveNewData = true
  history : ReadHistory start.world.ctx left 0 es

theorem Reading.ran {w' : World} (reading : Reading start s .run left es)
    (returned : lsejtagRunJtag s.world tdo = .ok w') : ∃ es', ScanRan start s left w' es' := by
  have engine := (mainLoop_inv reading.reach).engine
  obtain ⟨-, trace, le, -, kept, holds, history⟩ := reading
  cases holds with
  | run prepared seq calm old fits starts =>
  have dma := engine.dma_of_calm calm
  have picked : s.world.ctx.preparedBufblk = some .a := by
    rw [LsejtagCtx.preparedBufblk, if_pos prepared]
  obtain ⟨buf, dwords, ran⟩ := lsejtagRunJtag_ran engine.idle.periphWorking picked returned
  -- The watermark check has compared the two counts.
  obtain rfl : dwords = start.world.ctx.drseqDwordlen := by
    have watermark := ran.watermark
    have inside := ran.room
    have few := setUp.few
    rw [LsejtagCtx.jtagbuf_a, readMark setUp seq, u32_eq (by omega), u32_eq (by omega)] at watermark
    omega
  refine ⟨es ++ [.runBlock (s.world.ctx.jtagbuf .a).seq, .complete (Option.some .a),
      .completeTdo ((buf.toList.drop s.world.ctx.tdoDmaPtr).take
        start.world.ctx.drseqDwordlen)], ?_, ?_, ?_, ?_, ?_, ?_, ?_, ?_, ?_⟩
  · rw [ran.trace, trace, List.append_assoc]
  · apply kept.same _ _ _ _ _ ran.rx
    all_goals
      rw [ran.ctx]
      rfl
  · rw [ran.ctx]
    exact u32_eq (by omega)
  · rw [ran.ctx]
    rfl
  · rw [ran.ctx]
    exact engine.idle.unusedB
  · rw [ran.ctx]
    exact calm
  · rw [ran.ctx]
    exact kept.asks
  · rw [ran.ctx]
    rfl
  · have length : ((buf.toList.drop s.world.ctx.tdoDmaPtr).take
        start.world.ctx.drseqDwordlen).length = start.world.ctx.drseqDwordlen := by
      rw [List.length_take, List.length_drop, Vector.length_toList]
      omega
    apply history.sends
    · simp [AllSending, Event.isSending]
    · simp only [reported_cons, reported_nil, Event.reportedDwords, List.nil_append,
        List.append_nil, length, ReadPhase.unrun]
      omega

/-- What the scan of a block that asks for it reports is to be sent. -/
theorem Reading.ran_sends {w' : World} (reading : Reading start s .run left es)
    (at_pc : s.pc = .runJtag) (reach : mainLoop.Reachable ⟨w', .dispatch⟩)
    (ran : ScanRan start s left w' es')
    (asks : start.world.ctx.jtagbufA.immediateFlushTdo = true) :
    Reading start ⟨w', .dispatch⟩ .send left es' ∧
      readCallsLeft start ⟨w', .dispatch⟩ .send left + 1 ≤ readCallsLeft start s .run left := by
  have le : left + 1 ≤ start.world.ctx.xfersLeft := reading.le
  have count := ran.count
  have some : w'.ctx.tdoInDwords ≠ 0 := by
    have atLeast := setUp.some
    omega
  have due : (w'.ctx.tdoImmediateFlush && w'.ctx.tdoHaveNewData) = true := by
    rw [ran.asks, asks, ran.new]
    rfl
  refine ⟨⟨reach, ran.trace, Nat.le_of_succ_le le, .inl rfl, ran.kept,
    .send ran.unprepared some (.inr due) (fun _ => asks) (fun first => by omega), ran.history⟩, ?_⟩
  apply readCallsLeft_called at_pc
  rw [count]
  exact ReadPhase.calls_ran.le

/-- The setup leaves the read at its first scan. -/
theorem Reading.first (begins : mainLoop.Reachable start) (at_pc : start.pc = .dispatch)
    (counted : start.world.ctx.xfersLeft ≠ 0) (waiting : start.world.rx ≠ []) :
    Reading start start .scan start.world.ctx.xfersLeft [] := by
  refine ⟨begins, (List.append_nil _).symm, Nat.le_refl _, .inl at_pc,
    ⟨fun _ => ⟨rfl, rfl, rfl, rfl, rfl, rfl, rfl, setUp.continues.ready⟩, rfl, rfl, rfl, waiting⟩,
    .scan counted setUp.quiet setUp.new (fun _ => .inr ⟨rfl, rfl⟩), ?_, ?_, ?_, ?_⟩
  · simp
  · simp [ReadPhase.unrun]
  · exact fun _ e member => by cases member
  · exact fun none => absurd none counted

end scans

/-! ## A read that goes through -/

/-- What a run from `start` comes to if it comes to an end of the read. -/
def ReadDone (start s : MainState) : Prop :=
  mainLoop.Reachable s ∧ ∃ es, s.world.trace = start.world.trace ++ es ∧ ReadFinished start es

/-- A read that is under way, and the calls to its end. -/
def ReadRank (start s : MainState) (rank : Nat) : Prop :=
  ∃ phase left es, Reading start s phase left es ∧ rank = readCallsLeft start s phase left

section goes

variable {start s s' : MainState} {input : MainInput}

/-- Every scan of it is run. -/
theorem ReadGoesThrough.scanRuns {left : Nat} (good : ReadGoesThrough start.world)
    (holds : ReadPhaseAt start.world.ctx left s.world.ctx .run) :
    start.world.ctx.ScanRuns s.world.ctx.tdoInDwords := by
  have first : start.world.ctx.ScanRuns start.world.ctx.firstScanAt := ⟨good.room, good.samples⟩
  cases holds with
  | run prepared seq calm old fits starts =>
  rw [starts (.inl good.asks), LsejtagCtx.scanAt]
  split
  · exact first
  · exact first.flushed

theorem ReadRank.step {rank : Nat} (setUp : ReadIsSetUp start.world.ctx)
    (good : ReadGoesThrough start.world) (begins : mainLoop.Reachable start)
    (ranked : ReadRank start s rank) (stepped : mainStep s input = some s') :
    ReadDone start s' ∨ ∃ rank', ReadRank start s' rank' ∧
      rank' + mainCalls s input ≤ rank + starvedCalls s input := by
  obtain ⟨phase, left, es, reading, rfl⟩ := ranked
  cases input with
  | usbOut bytes =>
    obtain ⟨after, same⟩ := reading.received stepped
    exact .inr ⟨_, ⟨phase, left, _, after, rfl⟩, same.le⟩
  | poll txFree tdo =>
    obtain at_pc | at_pc := reading.pc
    · obtain ⟨after, fewer⟩ := reading.dispatched at_pc stepped
      exact .inr ⟨_, ⟨phase, left, _, after, rfl⟩, Nat.le_add_right_of_le fewer.le⟩
    · cases phase with
      | scan =>
        by_cases fits : s.world.ctx.tdoInDwords + s.world.ctx.drseqDwordlen ≤ 64
        · obtain ⟨es', after, fewer⟩ := reading.scanned setUp at_pc fits stepped
          exact .inr ⟨_, ⟨.run, left - 1, es', after, rfl⟩, Nat.le_add_right_of_le fewer⟩
        · obtain ⟨es', after, fewer⟩ :=
            reading.filled setUp at_pc (Nat.lt_of_not_le fits) stepped
          exact .inr ⟨_, ⟨.send, left, es', after, rfl⟩, Nat.le_add_right_of_le fewer⟩
      | run =>
        have engine := (mainLoop_inv reading.reach).engine
        have reach := reading.reach_step stepped
        obtain ⟨w', returned⟩ := (readScan_runs_iff setUp engine tdo reading.holds).mpr
          (good.scanRuns reading.holds)
        obtain ⟨es', ran⟩ := reading.ran setUp returned
        simp only [mainStep, mainPoll, at_pc, ReadPhase.call, returned,
          Option.some.injEq] at stepped
        subst stepped
        obtain ⟨after, fewer⟩ := reading.ran_sends setUp at_pc reach ran good.asks
        exact .inr ⟨_, ⟨.send, left, es', after, rfl⟩, Nat.le_add_right_of_le fewer⟩
      | send =>
        obtain ⟨es', trace, ⟨-, finished⟩ | ⟨phase', after, -, fewer⟩⟩ :=
          reading.sent begins at_pc stepped
        · exact .inl ⟨reading.reach_step stepped, es', trace, finished⟩
        · exact .inr ⟨_, ⟨phase', left, es', after, rfl⟩, fewer⟩

theorem readRank_start (setUp : ReadIsSetUp start.world.ctx) (good : ReadGoesThrough start.world)
    (begins : mainLoop.Reachable start) (at_pc : start.pc = .dispatch) :
    ∃ rank ≤ start.world.ctx.readCalls, ReadRank start start rank := by
  refine ⟨_, ?_, _, _, _, Reading.first setUp begins at_pc good.counted good.waiting, rfl⟩
  simp only [readCallsLeft, ReadPhase.calls, LsejtagCtx.readCalls, at_pc, if_true]
  split <;> omega

end goes

theorem ReadDone.step {start s s' : MainState} {input : MainInput} (done : ReadDone start s)
    (stepped : mainStep s input = some s') : ReadDone start s' := by
  obtain ⟨reach, es, trace, finished⟩ := done
  obtain ⟨more, grown⟩ := (mainStep_stepped (mainLoop_inv reach) stepped).callStep.grows
  exact ⟨.next (a := input) reach trivial stepped, es ++ more,
    by rw [grown, trace, List.append_assoc], finished.append more⟩

theorem ReadRank.underway {start s : MainState} {rank : Nat} (ranked : ReadRank start s rank) :
    1 ≤ rank ∧ s.Running ∧ ∃ es, s.world.trace = start.world.trace ++ es ∧
      ReadUnderway start es := by
  obtain ⟨phase, left, es, reading, rfl⟩ := ranked
  refine ⟨?_, reading.running, es, reading.trace, reading.underway⟩
  have calls := reading.two_le_calls
  rw [readCallsLeft]
  split <;> omega

/-! ## Whole runs -/

/-- After the setup of a fast read that goes through, every run of the main loop
    prepares exactly the scans that were asked for, succeeds with the last one and
    sends all their dwords, however little TX space a flush finds: no call is
    needed but those counted by `readCalls`, and two for each starved flush. -/
theorem ReadGoesThrough.returns {start : MainState} (good : ReadGoesThrough start.world)
    (setUp : ReadIsSetUp start.world.ctx) (begins : mainLoop.Reachable start)
    (at_pc : start.pc = .dispatch) : FastReadReturns start := by
  obtain ⟨rank, calls, ranked⟩ := readRank_start setUp good begins at_pc
  intro inputs t ran
  obtain ⟨-, es, trace, finished⟩ | ⟨rank', ranked', paid⟩ :=
    Machine.run_ranked mainCalls starvedCalls
      (fun _ _ _ _ ranked _ stepped => ranked.step setUp good begins stepped)
      (fun _ _ _ done _ stepped => ReadDone.step done stepped) ranked ran
  · exact ⟨es, trace, .inl finished⟩
  · obtain ⟨more, running, es, trace, underway⟩ := ranked'.underway
    exact ⟨es, trace, .inr ⟨underway, running, by omega⟩⟩

end LoongsonEjtag
