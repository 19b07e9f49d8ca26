import LoongsonEjtag.BlockOrder

/-! # The TDO stream back to the host

* `tdo_fifo` — the TDO queue is a first-in first-out queue over whole runs.
* `immediate_send_back` — a scan that asks for it has everything sent before
  the next command.
-/

namespace LoongsonEjtag

open Lib (Byte Each each_nil each_snoc Fifo dwordsBytes)
open Lib.Machine (anyAction)
open Wire

/-! ## First in, first out -/

theorem TdoIs.length_pendingDwords {q : Fifo Byte} {w : World} (is : TdoIs q w) :
    w.ctx.pendingDwords.length = w.ctx.tdoInDwords := by
  have pointers := is.pointers
  have inside := is.inside
  simp only [LsejtagCtx.pendingDwords, List.length_take, List.length_drop, Vector.length_toList]
  omega

theorem TdoIs.stream {q : Fifo Byte} {w : World} (is : TdoIs q w) :
    flushed w.trace ++ dwordsBytes w.ctx.pendingDwords = dwordsBytes (reported w.trace) := by
  rw [← is.popped, ← is.contents, ← is.pushed, q.inOrder]

/-- In every run of the main loop whose captures stay inside `tdo_in_data`, the
    pointers and the count agree, what was flushed followed by what is pending is
    what was reported, and an empty queue has both pointers at the start. -/
theorem tdo_fifo {s : MainState} (reach : mainLoop.Reachable s) :
    s.world.ctx.tdoFlushPtr + s.world.ctx.tdoInDwords = s.world.ctx.tdoDmaPtr ∧
    s.world.ctx.pendingDwords.length = s.world.ctx.tdoInDwords ∧
    flushed s.world.trace ++ dwordsBytes s.world.ctx.pendingDwords =
      dwordsBytes (reported s.world.trace) ∧
    (s.world.ctx.tdoInDwords = 0 → s.world.ctx.tdoFlushPtr = 0 ∧ s.world.ctx.tdoDmaPtr = 0) := by
  obtain ⟨q, is⟩ := (mainLoop_inv reach).engine.queue
  refine ⟨is.pointers, is.length_pendingDwords, is.stream, fun empty => ?_⟩
  have start := is.restart empty
  have pointers := is.pointers
  omega

/-- One of two dwords is flushed. -/
theorem tdo_fifo_partial : ∃ s : MainState, s.world.ctx.tdoFlushPtr = 1 ∧
    s.world.ctx.tdoInDwords = 1 ∧
    flushed s.world.trace ++ dwordsBytes s.world.ctx.pendingDwords =
      dwordsBytes (reported s.world.trace) := by
  have ran : (mainLoop.run anyAction .start ([.usbOut drSendBack64] ++ polls 4 6)).any
      (fun s => decide (s.world.ctx.tdoFlushPtr = 1 ∧ s.world.ctx.tdoInDwords = 1)) = true := by
    decide +kernel
  obtain ⟨s, reach, holds⟩ := Lib.Machine.exists_reach _ rfl ran
  obtain ⟨moved, pending⟩ := of_decide_eq_true holds
  exact ⟨s, moved, pending, (tdo_fifo reach).2.2.1⟩

/-! ## Immediate send-back -/

/-- What the last call of `lsejtag_execute` was presented, unless it was a
    continuation, and whether it has succeeded. -/
structure LastCall where
  command : Option (List Byte)
  succeeded : Bool

def LastCall.next (last : LastCall) : Event → LastCall
  | .execute continuation cmd => ⟨if continuation then none else some cmd, false⟩
  | .executed r => { last with succeeded := r = .cerSuccess }
  | _ => last

def lastCall (trace : List Event) : LastCall := trace.foldl LastCall.next ⟨none, false⟩

@[simp] theorem lastCall_snoc (t : List Event) (e : Event) :
    lastCall (t ++ [e]) = (lastCall t).next e := by
  simp [lastCall]

theorem AllInner.lastCall_append {es : List Event} (inner : AllInner es) (t : List Event) :
    lastCall (t ++ es) = lastCall t := by
  induction es generalizing t with
  | nil => simp
  | cons e es ih =>
    have rest : AllInner es := fun e' member => inner e' (by simp [member])
    have first := inner e (by simp)
    rw [← List.singleton_append, ← List.append_assoc, ih rest, lastCall_snoc]
    cases e <;> simp_all [Event.isInner, LastCall.next]

/-- A successful scan with read-back that is to be sent at once. -/
structure SendsBack (last : LastCall) (cmd : List Byte) : Prop where
  last : last = ⟨some cmd, true⟩
  irdr : isIrdr cmd
  readBack : readBack cmd = true
  immediate : immediateSendBack cmd = true

/-- The request for a flush is on its way: in the block, in the flags a finished
    run leaves, in the flush decision, or done. -/
structure FlushDue (ctx : LsejtagCtx) : Prop where
  inBlock : ctx.jtagbufA.prepared = true → ctx.jtagbufA.immediateFlushTdo = true
  stage : ctx.jtagbufA.prepared = true ∨
    (ctx.tdoImmediateFlush && ctx.tdoHaveNewData) = true ∨ ctx.tdoShouldFlush = true ∨
    ctx.tdoInDwords = 0

theorem SameEngine.flushDue {ctx ctx' : LsejtagCtx} (same : SameEngine ctx ctx')
    (due : FlushDue ctx) : FlushDue ctx' := by
  obtain ⟨inBlock, stage⟩ := due
  exact ⟨by rw [same.blockA]; exact inBlock, by rw [same.blockA, same.tdo]; exact stage⟩

theorem Dispatched.flushDue {w w' : World} {r : LsejtagDispatchResult}
    (dispatched : Dispatched w r w') (due : FlushDue w.ctx) : FlushDue w'.ctx := by
  cases dispatched with
  | flushing => exact due
  | flushNew => exact ⟨due.inBlock, .inr (.inr (.inl rfl))⟩
  | run => exact due
  | empty => exact due
  | parsed _ _ _ _ parsed =>
    obtain ⟨-, rfl, -⟩ | returned := dispatchCmdBuf_returned parsed
    · exact due
    · exact returned.moved.sameEngine.flushDue due

/-- The run of a block that asks for a flush passes the request on. -/
theorem JtagRan.flushDue {w w' : World} {buf : Vector Lib.Dword 64} {dwords : Nat}
    (ran : JtagRan w .a buf dwords w') (prepared : w.ctx.jtagbufA.prepared = true)
    (due : FlushDue w.ctx) : FlushDue w'.ctx := by
  have immediate : w'.ctx.tdoImmediateFlush = true := by
    rw [ran.ctx]
    exact due.inBlock prepared
  have new : w'.ctx.tdoHaveNewData = true := by
    rw [ran.ctx]
    rfl
  have unprepared : w'.ctx.jtagbufA.prepared = false := by
    rw [ran.ctx]
    rfl
  exact ⟨by simp [unprepared], .inr (.inl (by simp [immediate, new]))⟩

/-- A partial flush leaves the request standing, a complete one fulfils it. -/
theorem flushedTdo_flushDue {ctx : LsejtagCtx} (should : ctx.tdoShouldFlush = true)
    (due : FlushDue ctx) (dwords : Nat) : FlushDue (ctx.flushedTdo dwords) := by
  rw [LsejtagCtx.flushedTdo]
  split
  · exact ⟨due.inBlock, .inr (.inr (.inr rfl))⟩
  · exact ⟨due.inBlock, .inr (.inr (.inl should))⟩

/-- Of the outcomes of a fresh scan only one is a success, and its block has the
    scan's flush request. -/
theorem Executed.flushDue {w w' : World} (executed : Executed w .cerSuccess w')
    (fresh : w.ctx.continuation = false) (irdr : isIrdr w.ctx.cmd)
    (immediate : immediateSendBack w.ctx.cmd = true) : FlushDue w'.ctx := by
  cases executed with
  | answered _ _ atOnce => exact absurd irdr atOnce.noScan
  | tapReset _ _ atOnce => exact absurd irdr atOnce.noScan
  | kept _ cleans => rcases irdr with is | is <;> simp [cleansUp, is] at cleans
  | scanned _ _ _ blk ready _ asks =>
    exact ⟨fun _ => asks.trans immediate, .inl ready.prepared⟩
  | blockWritten continues => simp [fresh] at continues
  | blockRead continues => simp [fresh] at continues

/-- After a scan that is to be sent back the flush is due until it is done. -/
theorem sendsBack_flushDue {s : MainState} (reach : mainLoop.Reachable s) :
    ∀ cmd, SendsBack (lastCall s.world.trace) cmd → FlushDue s.world.ctx := by
  refine reach.invariant
    (P := fun s => ∀ cmd, SendsBack (lastCall s.world.trace) cmd → FlushDue s.world.ctx) ?_ ?_
  · rintro s rfl cmd ⟨last, -, -, -⟩
    cases last
  · intro s s' input reach due _ stepped cmd sends
    have inv := mainLoop_inv reach
    -- A step inside the same call keeps the last call, hence what is due.
    have keeps : ∀ es, s'.world.trace = s.world.trace ++ es → AllInner es →
        FlushDue s.world.ctx := by
      intro es trace inner
      rw [trace, inner.lastCall_append] at sends
      exact due cmd sends
    have nothing : AllInner [] := fun _ member => by cases member
    cases mainStep_stepped inv stepped with
    | received bytes => exact keeps [.usbOut bytes] rfl (by simp [AllInner, Event.isInner])
    | dispatched _ r w' dispatched =>
      obtain ⟨es, trace, inner⟩ := dispatched.inner
      exact dispatched.flushDue (keeps es trace inner)
    | executed _ quiet _ r w' executed =>
      obtain ⟨es, trace, inner⟩ := executed.inner
      obtain ⟨last, irdr, -, immediate⟩ := sends
      rw [World.trace_log, lastCall_snoc, trace, inner.lastCall_append, World.enterExecute,
        World.trace_log, lastCall_snoc] at last
      simp only [LastCall.next, LastCall.mk.injEq, decide_eq_true_eq] at last
      obtain ⟨command, rfl⟩ := last
      -- A continued call presents no new command and cannot be a scan.
      split at command
      · cases command
      · rename_i fresh
        cases command
        have fresh : s.world.ctx.continuation = false := by simpa using fresh
        exact executed.flushDue fresh irdr immediate
    | flushed _ should dwords _ w' ctx _ trace =>
      have before := keeps _ trace (by simp [AllInner, Event.isInner])
      exact ctx ▸ flushedTdo_flushDue should before dwords
    | ran _ _ _ w' prepared ran =>
      exact ran.flushDue prepared (keeps _ ran.trace (by simp [AllInner, Event.isInner]))
    | nothingToRun => exact keeps [] (by simp) nothing
    | dispatchFailed => exact keeps [] (by simp) nothing
    | executeFailed =>
      have last := sends.last
      simp [World.enterExecute, LastCall.next] at last
    | callFailed => exact keeps [] (by simp) nothing

/-- Nothing collected is left when a command starts after such a scan. -/
def SentBack (before : List Event) : Event → Prop
  | .execute _ _ => ∀ cmd, SendsBack (lastCall before) cmd →
      flushed before = dwordsBytes (reported before)
  | _ => True

theorem calls_sentBack {s : MainState} (reach : mainLoop.Reachable s) :
    Each SentBack s.world.trace := by
  have inner_sentBack : ∀ es, AllInner es → ∀ before, ∀ e ∈ es, SentBack before e := by
    intro es inner before e member
    have := inner e member
    cases e <;> simp_all [Event.isInner, SentBack]
  apply reach.invariant (P := fun s => Each SentBack s.world.trace)
  · rintro s rfl
    exact each_nil
  · intro s s' input reach each _ stepped
    have inv := mainLoop_inv reach
    have sent : s.world.ctx.Quiet → SentBack s.world.trace (.execute
        s.world.ctx.continuation s.world.ctx.cmd) := by
      intro quiet cmd sends
      obtain ⟨-, stage⟩ := sendsBack_flushDue reach cmd sends
      have empty : s.world.ctx.tdoInDwords = 0 := by
        simpa [quiet.noBlockA, quiet.noNewData, quiet.noFlush] using stage
      obtain ⟨q, is⟩ := inv.engine.queue
      have nothing : q.contents = [] := by
        simp [is.contents, LsejtagCtx.pendingDwords, empty]
      rw [← is.popped, ← is.pushed, Fifo.popped_eq_pushed nothing]
    cases (mainStep_stepped inv stepped).callStep with
    | inner _ es trace inner =>
      rw [trace]
      exact each.append (inner_sentBack es inner)
    | call quiet r w' executed es trace inner =>
      have started : Each SentBack w'.trace := by
        rw [trace, ← List.singleton_append, ← List.append_assoc]
        exact (each_snoc.mpr ⟨each, sent quiet⟩).append (inner_sentBack es inner)
      exact each_snoc.mpr ⟨started, trivial⟩
    | failed quiet why => exact each_snoc.mpr ⟨each, sent quiet⟩

/-- Whenever a scan with read-back and immediate send-back has succeeded, its
    block has been run and every dword collected so far has been flushed before
    the next call of `lsejtag_execute` begins. -/
theorem immediate_send_back {s : MainState} (reach : mainLoop.Reachable s)
    {before during between after : List Event} {cmd next : List Byte} {continuation : Bool}
    (scan : isIrdr cmd) (readsBack : readBack cmd = true)
    (immediate : immediateSendBack cmd = true) (duringInner : AllInner during)
    (betweenInner : AllInner between)
    (trace : s.world.trace = before ++ .execute false cmd :: during ++
      .executed .cerSuccess :: between ++ .execute continuation next :: after) :
    let past := before ++ .execute false cmd :: during ++ .executed .cerSuccess :: between
    preparedSeqs past = handedSeqs past ∧ flushed past = dwordsBytes (reported past) := by
  intro past
  have last : lastCall past = ⟨some cmd, true⟩ := by
    have split : past = (((before ++ [.execute false cmd]) ++ during) ++
        [.executed .cerSuccess]) ++ between := by simp [past]
    rw [split, betweenInner.lastCall_append, lastCall_snoc, duringInner.lastCall_append,
      lastCall_snoc]
    simp [LastCall.next]
  have handed := calls_inOrder reach past _ after trace
  exact ⟨handed, calls_sentBack reach past _ after trace cmd ⟨last, scan, readsBack, immediate⟩⟩

/-- The command that event `i` of a trace presents. -/
def commandAt (t : List Event) (i : Nat) : List Byte :=
  match t[i]? with
  | some (.execute _ cmd) => cmd
  | _ => []

/-- The two dwords of a scan leave in two partial flushes before the firmware
    date is asked for. -/
theorem immediate_send_back_scan : ∃ (trace past after : List Event) (next : List Byte),
    trace = past ++ .execute false next :: after ∧ (reported past).length = 2 ∧
    flushed past = dwordsBytes (reported past) := by
  have ran : (mainLoop.run anyAction .start
      ([.usbOut (drSendBack64 ++ [0x00, 0x7c])] ++ polls 4 11)).any (fun s => decide (
        let t := s.world.trace
        let cmd := commandAt t 4
        t = t.take 4 ++ .execute false cmd :: (t.drop 5).take 1 ++
          .executed .cerSuccess :: (t.drop 7).take 6 ++
          .execute false (commandAt t 13) :: t.drop 14 ∧
        isIrdr cmd ∧ readBack cmd = true ∧ immediateSendBack cmd = true ∧
        AllInner ((t.drop 5).take 1) ∧ AllInner ((t.drop 7).take 6) ∧
        (reported (t.take 4 ++ .execute false cmd :: (t.drop 5).take 1 ++
          .executed .cerSuccess :: (t.drop 7).take 6)).length = 2)) = true := by
    decide +kernel
  obtain ⟨s, reach, holds⟩ := Lib.Machine.exists_reach _ rfl ran
  obtain ⟨trace, scan, readsBack, immediate, during, between, two⟩ := of_decide_eq_true holds
  exact ⟨s.world.trace, _, _, _, trace, two,
    (immediate_send_back reach scan readsBack immediate during between trace).2⟩

end LoongsonEjtag
