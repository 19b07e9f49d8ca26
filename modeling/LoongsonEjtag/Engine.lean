import LoongsonEjtag.Faults
import LoongsonEjtag.MainLoop
import LoongsonEjtag.Lib.Fifo

/-! # The JTAG engine over whole runs

What holds of the JTAG blocks and the TDO queue in every reachable state of the
main loop.

* `EngineIdle` — between two calls the engine is idle and `jtagbuf_b` unused.
* `BlocksHanded` — the blocks prepared so far are the blocks handed to the
  engine so far and the one that waits.
* `TdoIs` — the two TDO pointers, the count and the buffer are the queue `q`,
  which was pushed what the engine reported and popped what was flushed.
* `PcAgrees` — what the main loop's position says about the flags.

`mainLoop_engine` puts them together: one lemma for each call the main loop
makes, then the induction over runs.
-/

namespace LoongsonEjtag

open Lib (Byte Dword u32_eq Fifo dwordsBytes)
open Wire

/-! ## Contexts that agree about the engine -/

/-- The two contexts have the same TDO queue and blocks. -/
structure SameEngine (ctx ctx' : LsejtagCtx) : Prop where
  tdo : ctx'.toTdoQueue = ctx.toTdoQueue
  blockA : ctx'.jtagbufA = ctx.jtagbufA
  blockB : ctx'.jtagbufB = ctx.jtagbufB

namespace SameEngine

variable {ctx ctx' ctx'' : LsejtagCtx}

theorem trans (first : SameEngine ctx ctx') (second : SameEngine ctx' ctx'') :
    SameEngine ctx ctx'' :=
  ⟨second.tdo.trans first.tdo, second.blockA.trans first.blockA, second.blockB.trans first.blockB⟩

theorem truncateXfers (ctx : LsejtagCtx) : SameEngine ctx (truncateXfers ctx) := by
  rw [LoongsonEjtag.truncateXfers]
  split <;> exact ⟨rfl, rfl, rfl⟩

end SameEngine

theorem ParserMoved.sameEngine {w w' : World} (moved : ParserMoved w w') :
    SameEngine w.ctx w'.ctx :=
  ⟨moved.tdo, moved.blockA, moved.blockB⟩

/-- Fetching payload is a parser step too. -/
theorem PayloadFetched.moved {w w' : World} {complete : Bool}
    (fetched : PayloadFetched w complete w') : ParserMoved w w' := by
  have fed : ∀ buf len, ParserMoved w (w.fed buf len) := fun buf len =>
    ⟨rfl, by simp [World.fed, Event.consumedBytes], [_], rfl, by simp⟩
  cases fetched with
  | enough => exact .refl w
  | filled buf => exact fed buf _
  | short buf => exact fed buf _

theorem finishXfers_same {w w' : World} {r : LsejtagCmdExecResult}
    (ends : (r, w') = finishXfers w) :
    SameEngine w.ctx w'.ctx ∧ w'.trace = w.trace ∧ w'.rx = w.rx := by
  rw [finishXfers] at ends
  split at ends
  all_goals
    cases ends
    exact ⟨⟨rfl, rfl, rfl⟩, rfl, rfl⟩

/-! ## What a command does to the engine -/

/-- The part of the TDO queue that holds data, and the busy flag. -/
structure SameTdo (ctx ctx' : LsejtagCtx) : Prop where
  count : ctx'.tdoInDwords = ctx.tdoInDwords
  data : ctx'.tdoInData = ctx.tdoInData
  dma : ctx'.tdoDmaPtr = ctx.tdoDmaPtr
  flush : ctx'.tdoFlushPtr = ctx.tdoFlushPtr
  busy : ctx'.tdoBusy = ctx.tdoBusy

theorem SameEngine.sameTdo {ctx ctx' : LsejtagCtx} (same : SameEngine ctx ctx') :
    SameTdo ctx ctx' := by
  constructor <;> rw [same.tdo]

/-- The flags of a block. -/
structure SameFlags (blk blk' : JtagbufBlk) : Prop where
  tdi : blk'.tdiBusy = blk.tdiBusy
  tms : blk'.tmsBusy = blk.tmsBusy
  prepared : blk'.prepared = blk.prepared

/-- A command makes one block ready at most, the first, and leaves the collected
    TDO data alone. -/
structure EngineEffect (w w' : World) : Prop where
  tdo : SameTdo w.ctx w'.ctx
  blockB : SameFlags w.ctx.jtagbufB w'.ctx.jtagbufB
  blockA : (SameFlags w.ctx.jtagbufA w'.ctx.jtagbufA ∧
      ∃ es, w'.trace = w.trace ++ es ∧ AllQuiet es) ∨
    (w'.ctx.jtagbufA.Ready ∧
      ∃ es, w'.trace = w.trace ++ es ++ [.prepared w'.ctx.jtagbufA.seq] ∧ AllQuiet es)

theorem SameFlags.refl (blk : JtagbufBlk) : SameFlags blk blk := ⟨rfl, rfl, rfl⟩

/-- Commands that leave the engine alone altogether. -/
theorem EngineEffect.untouched {w w' : World} (same : SameEngine w.ctx w'.ctx) {es : List Event}
    (trace : w'.trace = w.trace ++ es) (quiet : AllQuiet es) : EngineEffect w w' :=
  ⟨same.sameTdo, same.blockB ▸ .refl _, .inl ⟨same.blockA ▸ .refl _, es, trace, quiet⟩⟩

/-- The continuations that make a block ready. -/
theorem EngineEffect.placed {w middle w' : World} {blk : JtagbufBlk} {buffered left : Nat}
    {r : LsejtagCmdExecResult} (same : SameEngine w.ctx middle.ctx) {es : List Event}
    (trace : middle.trace = w.trace ++ es) (quiet : AllQuiet es) (ready : blk.Ready)
    (ends : (r, w') = finishXfers (middle.placed blk buffered left)) : EngineEffect w w' := by
  obtain ⟨finished, sameTrace, -⟩ := finishXfers_same ends
  have tdo : w'.ctx.toTdoQueue = w.ctx.toTdoQueue := finished.tdo.trans same.tdo
  have blockA : w'.ctx.jtagbufA = blk := finished.blockA
  have blockB : w'.ctx.jtagbufB = w.ctx.jtagbufB := finished.blockB.trans same.blockB
  refine ⟨by constructor <;> rw [tdo], blockB ▸ .refl _, .inr ⟨blockA ▸ ready, es, ?_, quiet⟩⟩
  rw [sameTrace, blockA]
  simp [World.placed, trace]

theorem allQuiet_nil : AllQuiet [] := fun _ member => by cases member

theorem allQuiet_reconfigure (type : LsejtagImplRecfg) (param : Nat) :
    AllQuiet [.reconfigure type param] := by
  simp [AllQuiet, Event.isQuiet, Event.isAnswer]

/-- Every outcome of a command has this effect. -/
theorem Executed.engineEffect {w w' : World} {r : LsejtagCmdExecResult}
    (free : w.ctx.periphFree = true) (executed : Executed w r w') : EngineEffect w w' := by
  obtain ⟨⟨tdi, tms, -⟩, -⟩ := LsejtagCtx.periphFree_iff.mp free
  -- A command leaves the blocks alone, rewrites one while it is unprepared, or prepares
  -- it with bits its buffers hold.
  cases executed with
  | awaitTx => exact .untouched ⟨rfl, rfl, rfl⟩ (List.append_nil _).symm allQuiet_nil
  | awaitFlush =>
    exact ⟨⟨rfl, rfl, rfl, rfl, rfl⟩, .refl _,
      .inl ⟨.refl _, [], (List.append_nil _).symm, allQuiet_nil⟩⟩
  | answered _ _ _ params es answers => exact .untouched ⟨rfl, rfl, rfl⟩ rfl answers.allQuiet
  | tapReset _ _ _ es answers =>
    exact ⟨⟨rfl, rfl, rfl, rfl, rfl⟩, .refl _, .inl ⟨.refl _, es, rfl, answers.allQuiet⟩⟩
  | kept => exact .untouched ⟨rfl, rfl, rfl⟩ (List.append_nil _).symm allQuiet_nil
  | scanned _ _ _ blk ready =>
    exact ⟨⟨rfl, rfl, rfl, rfl, rfl⟩, .refl _,
      .inr ⟨ready, [], by simp [cmdBufClean], allQuiet_nil⟩⟩
  | writeStarted _ fastdata _ tmsA tdiA tmsB tdiB =>
    exact ⟨⟨rfl, rfl, rfl, rfl, rfl⟩, ⟨rfl, rfl, rfl⟩,
      .inl ⟨⟨rfl, rfl, rfl⟩, _, rfl, allQuiet_reconfigure _ _⟩⟩
  | readStarted _ fastdata _ tms tdi =>
    exact ⟨⟨rfl, rfl, rfl, rfl, rfl⟩, ⟨rfl, rfl, rfl⟩,
      .inl ⟨⟨rfl, rfl, rfl⟩, _, rfl, allQuiet_reconfigure _ _⟩⟩
  | payloadShort _ _ _ _ fetched =>
    obtain ⟨es, trace, quiet, -⟩ := fetched.moved.quietTrace
    exact .untouched ((SameEngine.truncateXfers w.ctx).trans fetched.moved.sameEngine) trace quiet
  | blockWritten _ _ _ middle fetched tdi' _ _ _ ends =>
    obtain ⟨es, trace, quiet, -⟩ := fetched.moved.quietTrace
    have same := (SameEngine.truncateXfers w.ctx).trans fetched.moved.sameEngine
    have ready : JtagbufBlk.Ready { middle.ctx.jtagbufA with
        tdiData := tdi', tdiBits := middle.ctx.tdiBitlen, tdoBits := 0, prepared := true } :=
      ⟨same.blockA ▸ tdi, same.blockA ▸ tms, rfl⟩
    exact .placed same trace quiet ready ends
  | readFull =>
    exact ⟨⟨rfl, rfl, rfl, rfl, rfl⟩, .refl _,
      .inl ⟨.refl _, [], (List.append_nil _).symm, allQuiet_nil⟩⟩
  | blockRead _ _ _ _ _ _ ends =>
    have ready : JtagbufBlk.Ready { w.ctx.jtagbufA with
        tdiBits := w.ctx.tdiBitlen
        tdoBits := bit2dword w.ctx.drseqBitlen * 32
        tdoSkipBits := w.ctx.tdoSkipBits
        prepared := true } := ⟨tdi, tms, rfl⟩
    exact .placed ⟨rfl, rfl, rfl⟩ (List.append_nil _).symm allQuiet_nil ready ends
  | badContinue => exact .untouched ⟨rfl, rfl, rfl⟩ (List.append_nil _).symm allQuiet_nil

/-! ## The invariants -/

/-- Between two calls the engine is idle, and `jtagbuf_b` is never used. -/
structure EngineIdle (ctx : LsejtagCtx) : Prop where
  tdiA : ctx.jtagbufA.tdiBusy = false
  tmsA : ctx.jtagbufA.tmsBusy = false
  tdiB : ctx.jtagbufB.tdiBusy = false
  tmsB : ctx.jtagbufB.tmsBusy = false
  unusedB : ctx.jtagbufB.prepared = false
  tdo : ctx.tdoBusy = false

/-- The block that is ready and not yet handed to the engine. -/
def LsejtagCtx.waitingSeqs (ctx : LsejtagCtx) : List JtagSeq :=
  if ctx.jtagbufA.prepared then [ctx.jtagbufA.seq] else []

/-- Blocks are handed over in the order in which they were prepared. -/
def BlocksHanded (w : World) : Prop :=
  preparedSeqs w.trace = handedSeqs w.trace ++ w.ctx.waitingSeqs

/-- The TDO queue of `w` is `q`. -/
structure TdoIs (q : Fifo Byte) (w : World) : Prop where
  pointers : w.ctx.tdoFlushPtr + w.ctx.tdoInDwords = w.ctx.tdoDmaPtr
  inside : w.ctx.tdoDmaPtr ≤ 64
  restart : w.ctx.tdoInDwords = 0 → w.ctx.tdoFlushPtr = 0
  contents : q.contents = dwordsBytes w.ctx.pendingDwords
  pushed : q.pushed = dwordsBytes (reported w.trace)
  popped : q.popped = flushed w.trace

theorem EngineIdle.periphFree {ctx : LsejtagCtx} (idle : EngineIdle ctx)
    (unprepared : ctx.jtagbufA.prepared = false) : ctx.periphFree = true :=
  LsejtagCtx.periphFree_iff.mpr
    ⟨⟨idle.tdiA, idle.tmsA, unprepared⟩, ⟨idle.tdiB, idle.tmsB, idle.unusedB⟩, idle.tdo⟩

theorem EngineIdle.periphWorking {ctx : LsejtagCtx} (idle : EngineIdle ctx) :
    ctx.periphWorking = false := by
  simp [LsejtagCtx.periphWorking, idle.tdiA, idle.tmsA, idle.tdiB, idle.tmsB, idle.tdo]

theorem EngineIdle.same {ctx ctx' : LsejtagCtx} (idle : EngineIdle ctx)
    (same : SameEngine ctx ctx') : EngineIdle ctx' := by
  obtain ⟨tdiA, tmsA, tdiB, tmsB, unusedB, tdo⟩ := idle
  exact ⟨same.blockA ▸ tdiA, same.blockA ▸ tmsA, same.blockB ▸ tdiB, same.blockB ▸ tmsB,
    same.blockB ▸ unusedB, by rw [same.tdo]; exact tdo⟩

/-! ## Commands -/

section effect

variable {w w' : World} (effect : EngineEffect w w')
include effect

theorem EngineEffect.idle (idle : EngineIdle w.ctx) : EngineIdle w'.ctx := by
  obtain ⟨tdo, blockB, blockA⟩ := effect
  have idleA : w'.ctx.jtagbufA.tdiBusy = false ∧ w'.ctx.jtagbufA.tmsBusy = false := by
    obtain ⟨flags, -⟩ | ⟨ready, -⟩ := blockA
    · exact ⟨flags.tdi.trans idle.tdiA, flags.tms.trans idle.tmsA⟩
    · exact ⟨ready.tdiIdle, ready.tmsIdle⟩
  exact ⟨idleA.1, idleA.2, blockB.tdi.trans idle.tdiB, blockB.tms.trans idle.tmsB,
    blockB.prepared.trans idle.unusedB, tdo.busy.trans idle.tdo⟩

theorem EngineEffect.handed (unprepared : w.ctx.jtagbufA.prepared = false)
    (handed : BlocksHanded w) : BlocksHanded w' := by
  simp only [BlocksHanded, LsejtagCtx.waitingSeqs, unprepared] at handed ⊢
  obtain ⟨flags, es, trace, quiet⟩ | ⟨ready, es, trace, quiet⟩ := effect.blockA
  · rw [flags.prepared, unprepared, trace]
    simpa [quiet.preparedSeqs_eq, quiet.handedSeqs_eq] using handed
  · rw [ready.prepared, trace]
    simpa [quiet.preparedSeqs_eq, quiet.handedSeqs_eq, Event.preparedSeq, Event.handedSeq]
      using handed

end effect

theorem TdoIs.same {q : Fifo Byte} {w w' : World} (is : TdoIs q w) (same : SameTdo w.ctx w'.ctx)
    (sameReported : reported w'.trace = reported w.trace)
    (sameFlushed : flushed w'.trace = flushed w.trace) : TdoIs q w' := by
  obtain ⟨count, data, dma, flush, -⟩ := same
  refine ⟨?_, dma ▸ is.inside, ?_, ?_, sameReported ▸ is.pushed, sameFlushed ▸ is.popped⟩
  · rw [count, flush, dma, is.pointers]
  · rw [count, flush]
    exact is.restart
  · rw [is.contents, LsejtagCtx.pendingDwords, LsejtagCtx.pendingDwords, count, data, flush]

theorem EngineEffect.tdoIs {w w' : World} (effect : EngineEffect w w') {q : Fifo Byte}
    (is : TdoIs q w) : TdoIs q w' := by
  obtain ⟨-, es, trace, quiet⟩ | ⟨-, es, trace, quiet⟩ := effect.blockA
  all_goals
    refine is.same effect.tdo ?_ ?_
    · simp [trace, quiet.reported_eq, Event.reportedDwords]
    · simp [trace, quiet.flushed_eq, Event.flushedBytes]

/-! ## Running a block -/

section ran

variable {w w' : World} {buf : Vector Dword 64} {dwords : Nat}

theorem JtagRan.idle (ran : JtagRan w .a buf dwords w') (idle : EngineIdle w.ctx) :
    EngineIdle w'.ctx := by
  rw [ran.ctx]
  exact ⟨rfl, rfl, idle.tdiB, idle.tmsB, idle.unusedB, rfl⟩

theorem JtagRan.handed (ran : JtagRan w .a buf dwords w')
    (prepared : w.ctx.jtagbufA.prepared = true) (handed : BlocksHanded w) : BlocksHanded w' := by
  have unprepared : w'.ctx.jtagbufA.prepared = false := by
    rw [ran.ctx]
    rfl
  simp only [BlocksHanded, LsejtagCtx.waitingSeqs, prepared, unprepared, if_true] at handed ⊢
  rw [ran.trace]
  simpa [Event.preparedSeq, Event.handedSeq] using handed

/-- A run appends what it reports to the queue. -/
theorem JtagRan.tdoIs (ran : JtagRan w .a buf dwords w') {q : Fifo Byte} (is : TdoIs q w) :
    TdoIs (q.push (dwordsBytes ((buf.toList.drop w.ctx.tdoDmaPtr).take dwords))) w' := by
  obtain ⟨before, room, -, ctx, -, trace⟩ := ran
  obtain ⟨pointers, inside, restart, contents, pushed, popped⟩ := is
  have count : w'.ctx.tdoInDwords = w.ctx.tdoInDwords + dwords := by
    rw [ctx]
    exact u32_eq (by omega)
  have data : w'.ctx.tdoInData = buf := by rw [ctx]; rfl
  have dma : w'.ctx.tdoDmaPtr = w.ctx.tdoDmaPtr + dwords := by rw [ctx]; rfl
  have flush : w'.ctx.tdoFlushPtr = w.ctx.tdoFlushPtr := by rw [ctx]; rfl
  have older : buf.toList.take w.ctx.tdoDmaPtr = w.ctx.tdoInData.toList.take w.ctx.tdoDmaPtr := by
    refine List.ext_getElem (by simp) fun i low high => ?_
    simp only [List.length_take, Vector.length_toList] at low
    simpa using before i (by omega) (by omega)
  have pending : w'.ctx.pendingDwords =
      w.ctx.pendingDwords ++ (buf.toList.drop w.ctx.tdoDmaPtr).take dwords := by
    simp only [LsejtagCtx.pendingDwords, count, data, flush]
    rw [List.take_add, List.drop_drop, pointers, List.take_drop, pointers, older, ← pointers,
      ← List.take_drop]
  refine ⟨by omega, by omega, by omega, ?_, ?_, ?_⟩
  · rw [pending, Lib.dwordsBytes_append, Fifo.contents_push, contents]
  · simp [trace, pushed, Event.reportedDwords]
  · simp [trace, popped, Event.flushedBytes]

end ran

/-! ## Flushing -/

theorem tdoIs_flush {w w' : World} {q : Fifo Byte} {dwords : Nat} (is : TdoIs q w)
    (bounded : dwords ≤ w.ctx.tdoInDwords) (ctx : w'.ctx = w.ctx.flushedTdo dwords)
    (trace : w'.trace = w.trace ++ [.flush (dwordsBytes (w.ctx.pendingDwords.take dwords))]) :
    TdoIs (q.pop (4 * dwords)) w' := by
  obtain ⟨pointers, inside, restart, contents, pushed, popped⟩ := is
  have sent : (q.pop (4 * dwords)).popped = flushed w'.trace := by
    simp [trace, popped, contents, Lib.dwordsBytes_take, Event.flushedBytes]
  have reports : (q.pop (4 * dwords)).pushed = dwordsBytes (reported w'.trace) := by
    simp [trace, pushed, Event.reportedDwords]
  have rest : (q.pop (4 * dwords)).contents = dwordsBytes (w.ctx.pendingDwords.drop dwords) := by
    rw [Fifo.contents_pop, contents, Lib.dwordsBytes_drop]
  by_cases all : dwords = w.ctx.tdoInDwords
  · rw [LsejtagCtx.flushedTdo, if_pos all] at ctx
    have count : w'.ctx.tdoInDwords = 0 := by rw [ctx]
    have flush : w'.ctx.tdoFlushPtr = 0 := by rw [ctx]
    have dma : w'.ctx.tdoDmaPtr = 0 := by rw [ctx]
    have nothing : w.ctx.pendingDwords.drop dwords = [] := by
      simp [LsejtagCtx.pendingDwords, all]
    refine ⟨by omega, by omega, fun _ => flush, ?_, reports, sent⟩
    rw [rest, nothing, LsejtagCtx.pendingDwords, count, List.take_zero]
  · rw [LsejtagCtx.flushedTdo, if_neg all] at ctx
    have count : w'.ctx.tdoInDwords = w.ctx.tdoInDwords - dwords := by rw [ctx]
    have flush : w'.ctx.tdoFlushPtr = w.ctx.tdoFlushPtr + dwords := by rw [ctx]
    have dma : w'.ctx.tdoDmaPtr = w.ctx.tdoDmaPtr := by rw [ctx]
    have data : w'.ctx.tdoInData = w.ctx.tdoInData := by rw [ctx]
    refine ⟨by omega, by omega, by omega, ?_, reports, sent⟩
    rw [rest, LsejtagCtx.pendingDwords, LsejtagCtx.pendingDwords, count, flush, data,
      List.drop_take, List.drop_drop]

/-! ## The main loop -/

/-- What the engine and the queue are like between two calls. -/
structure EngineInv (w : World) : Prop where
  idle : EngineIdle w.ctx
  handed : BlocksHanded w
  queue : ∃ q, TdoIs q w
  partly : w.ctx.tdoFlushPtr ≠ 0 → w.ctx.tdoShouldFlush = true

/-- What the main loop's position says. -/
structure PcAgrees (s : MainState) : Prop where
  execute : s.pc = .execute → s.world.ctx.Quiet ∧ s.world.ctx.cmdBufState = .cbsExecute
  flushTdo : s.pc = .flushTdo → s.world.ctx.tdoShouldFlush = true
  noSpin : s.pc ≠ .halted .spin

namespace EngineInv

variable {w w' : World}

theorem bounded (inv : EngineInv w) : w.ctx.tdoInDwords ≤ 64 := by
  obtain ⟨q, is⟩ := inv.queue
  have pointers := is.pointers
  have inside := is.inside
  omega

/-- Whatever keeps TDO data, blocks and flags and adds quiet events only. -/
theorem sameEngine (inv : EngineInv w) (same : SameEngine w.ctx w'.ctx) {es : List Event}
    (trace : w'.trace = w.trace ++ es) (quiet : AllQuiet es) : EngineInv w' := by
  obtain ⟨idle, handed, ⟨q, is⟩, partly⟩ := inv
  refine ⟨idle.same same, ?_, ⟨q, is.same same.sameTdo ?_ ?_⟩, ?_⟩
  · simpa [BlocksHanded, LsejtagCtx.waitingSeqs, same.blockA, trace, quiet.preparedSeqs_eq,
      quiet.handedSeqs_eq] using handed
  · simp [trace, quiet.reported_eq]
  · simp [trace, quiet.flushed_eq]
  · rw [same.tdo]
    exact partly

/-- Only the flags of the flush decision change. -/
theorem setFlags (inv : EngineInv w) (new immediate should : Bool)
    (kept : w.ctx.tdoShouldFlush = true → should = true) :
    EngineInv { w with ctx := { w.ctx with
      tdoHaveNewData := new, tdoImmediateFlush := immediate, tdoShouldFlush := should } } := by
  obtain ⟨idle, handed, ⟨q, is⟩, partly⟩ := inv
  exact ⟨⟨idle.tdiA, idle.tmsA, idle.tdiB, idle.tmsB, idle.unusedB, idle.tdo⟩, handed,
    ⟨q, is.same ⟨rfl, rfl, rfl, rfl, rfl⟩ rfl rfl⟩, fun moved => kept (partly moved)⟩

theorem dispatched {r : LsejtagDispatchResult} (inv : EngineInv w)
    (dispatched : Dispatched w r w') : EngineInv w' := by
  cases dispatched with
  | flushing => exact inv
  | flushNew => exact inv.setFlags _ _ true fun _ => rfl
  | run => exact inv
  | empty => exact inv
  | parsed _ _ _ _ parsed =>
    obtain ⟨-, rfl, -⟩ | returned := dispatchCmdBuf_returned parsed
    · exact inv
    · obtain ⟨es, trace, quiet, -⟩ := returned.moved.quietTrace
      exact inv.sameEngine returned.moved.sameEngine trace quiet

theorem executed {r : LsejtagCmdExecResult} (inv : EngineInv w) (quiet : w.ctx.Quiet)
    (executed : Executed w r w') : EngineInv w' := by
  have free := inv.idle.periphFree quiet.noBlockA
  have effect := executed.engineEffect free
  obtain ⟨idle, handed, ⟨q, is⟩, partly⟩ := inv
  refine ⟨effect.idle idle, effect.handed quiet.noBlockA handed, ⟨q, effect.tdoIs is⟩, ?_⟩
  -- nothing is half flushed when a command starts
  intro moved
  rw [effect.tdo.flush] at moved
  exact absurd (partly moved) (by simp [quiet.noFlush])

theorem ranJtag (inv : EngineInv w) {buf : Vector Dword 64} {dwords : Nat}
    (prepared : w.ctx.jtagbufA.prepared = true) (ran : JtagRan w .a buf dwords w') :
    EngineInv w' := by
  obtain ⟨idle, handed, ⟨q, is⟩, partly⟩ := inv
  refine ⟨ran.idle idle, ran.handed prepared handed, ⟨_, ran.tdoIs is⟩, ?_⟩
  rw [ran.ctx]
  exact partly

theorem flushedTdo (inv : EngineInv w) (should : w.ctx.tdoShouldFlush = true) {dwords : Nat}
    (bounded : dwords ≤ w.ctx.tdoInDwords) (ctx : w'.ctx = w.ctx.flushedTdo dwords)
    (trace : w'.trace = w.trace ++ [.flush (dwordsBytes (w.ctx.pendingDwords.take dwords))]) :
    EngineInv w' := by
  obtain ⟨idle, handed, ⟨q, is⟩, partly⟩ := inv
  refine ⟨?_, ?_, ⟨_, tdoIs_flush is bounded ctx trace⟩, ?_⟩
  · rw [ctx, LsejtagCtx.flushedTdo]
    split <;>
      exact ⟨idle.tdiA, idle.tmsA, idle.tdiB, idle.tmsB, idle.unusedB, idle.tdo⟩
  · have blockA : w'.ctx.jtagbufA = w.ctx.jtagbufA := by
      rw [ctx, LsejtagCtx.flushedTdo]
      split <;> rfl
    simpa [BlocksHanded, LsejtagCtx.waitingSeqs, blockA, trace, Event.preparedSeq,
      Event.handedSeq] using handed
  · rw [ctx, LsejtagCtx.flushedTdo]
    split
    · exact fun moved => absurd rfl moved
    · exact fun _ => should

end EngineInv

theorem PcAgrees.dispatch (w : World) : PcAgrees ⟨w, .dispatch⟩ := ⟨nofun, nofun, nofun⟩

theorem PcAgrees.halted (w : World) {why : Halt} (noSpin : why ≠ .spin) :
    PcAgrees ⟨w, .halted why⟩ :=
  ⟨nofun, nofun, fun spins => noSpin (MainPc.halted.inj spins)⟩

/-- Every result of a dispatch suits the position it leads to. -/
theorem Dispatched.pcAgrees {w w' : World} {r : LsejtagDispatchResult}
    (dispatched : Dispatched w r w') : PcAgrees ⟨w', afterDispatch r⟩ := by
  cases dispatched with
  | flushing should => exact ⟨nofun, fun _ => should, nofun⟩
  | flushNew => exact ⟨nofun, fun _ => rfl, nofun⟩
  | run => exact ⟨nofun, nofun, nofun⟩
  | empty => exact .dispatch w
  | parsed quiet _ _ _ parsed =>
    obtain ⟨rfl, rfl, -⟩ | ⟨moved, result⟩ := dispatchCmdBuf_returned parsed
    · exact .dispatch w'
    · have stillQuiet : w'.ctx.Quiet := moved.quiet quiet
      generalize state : w'.ctx.cmdBufState = after at result
      cases result with
      | execute => exact ⟨fun _ => ⟨stillQuiet, state⟩, nofun, nofun⟩
      | incomplete => exact .dispatch w'
      | tooLong => exact .halted w' (by simp)
      | unknownCmd => exact .dispatch w'

/-- `EngineInv` and `PcAgrees` together are kept by every step. -/
structure MainInv (s : MainState) : Prop where
  engine : EngineInv s.world
  pc : PcAgrees s

/-- The steps the main loop can take from a state in `MainInv`. -/
inductive MainStepped (s : MainState) : MainInput → MainState → Prop
  | received (bytes : List Byte) (fits : s.world.rx.length + bytes.length ≤ usbrxCapacity) :
      MainStepped s (.usbOut bytes) { s with world := s.world.receive bytes }
  | dispatched {txFree tdo} (at_pc : s.pc = .dispatch) (r : LsejtagDispatchResult) (w' : World)
      (dispatched : Dispatched s.world r w') :
      MainStepped s (.poll txFree tdo) ⟨w', afterDispatch r⟩
  | executed {txFree tdo} (at_pc : s.pc = .execute) (quiet : s.world.ctx.Quiet)
      (ready : s.world.ctx.cmdBufState = .cbsExecute) (r : LsejtagCmdExecResult) (w' : World)
      (executed : Executed s.world.enterExecute r w') :
      MainStepped s (.poll txFree tdo) ⟨w'.log (.executed r), .dispatch⟩
  | flushed {txFree tdo} (at_pc : s.pc = .flushTdo) (should : s.world.ctx.tdoShouldFlush = true)
      (dwords : Nat) (bounded : dwords ≤ s.world.ctx.tdoInDwords) (w' : World)
      (ctx : w'.ctx = s.world.ctx.flushedTdo dwords) (rx : w'.rx = s.world.rx)
      (trace : w'.trace = s.world.trace ++
        [.flush (dwordsBytes (s.world.ctx.pendingDwords.take dwords))]) :
      MainStepped s (.poll txFree tdo) ⟨w', .dispatch⟩
  | ran {txFree tdo} (at_pc : s.pc = .runJtag) (buf : Vector Dword 64) (dwords : Nat)
      (w' : World) (prepared : s.world.ctx.jtagbufA.prepared = true)
      (ran : JtagRan s.world .a buf dwords w') :
      MainStepped s (.poll txFree tdo) ⟨w', .dispatch⟩
  | nothingToRun {txFree tdo} (at_pc : s.pc = .runJtag) :
      MainStepped s (.poll txFree tdo) { s with pc := .dispatch }
  | dispatchFailed {txFree tdo} (at_pc : s.pc = .dispatch) (why : Halt)
      (failed : lsejtagDispatch s.world = .error why) :
      MainStepped s (.poll txFree tdo) { s with pc := .halted why }
  | executeFailed {txFree tdo} (at_pc : s.pc = .execute) (quiet : s.world.ctx.Quiet)
      (ready : s.world.ctx.cmdBufState = .cbsExecute) (why : Halt)
      (failed : why.IsFault ∨
        s.world.ctx.continuation = true ∧ FetchFails s.world.enterExecute why) :
      MainStepped s (.poll txFree tdo) ⟨s.world.enterExecute, .halted why⟩
  | callFailed {txFree tdo} (why : Halt) (failed : why.IsFault ∨ why = .watermarkPanic) :
      MainStepped s (.poll txFree tdo) { s with pc := .halted why }

/-- The world an `lsejtag_execute` starts in is as good as the one before. -/
theorem EngineInv.enterExecute {w : World} (inv : EngineInv w) : EngineInv w.enterExecute :=
  have trace : w.enterExecute.trace = w.trace ++ [.execute w.ctx.continuation w.ctx.cmd] := rfl
  inv.sameEngine ⟨rfl, rfl, rfl⟩ trace (by simp [AllQuiet, Event.isQuiet])

theorem mainPoll_stepped {s s' : MainState} {txFree : Nat} {tdo : Nat → Bool} (inv : MainInv s)
    (polled : mainPoll s txFree tdo = some s') : MainStepped s (.poll txFree tdo) s' := by
  obtain ⟨engine, pc⟩ := inv
  -- One case per place of the main loop, then the outcome of the call made there.
  simp only [mainPoll] at polled
  split at polled
  · rename_i at_pc
    split at polled
    · cases polled
      exact .dispatched at_pc _ _ (lsejtagDispatch_dispatched ‹_›)
    · cases polled
      exact .dispatchFailed at_pc _ ‹_›
  · rename_i at_pc
    obtain ⟨quiet, ready⟩ := pc.execute at_pc
    have free : s.world.enterExecute.ctx.periphFree = true :=
      engine.idle.periphFree quiet.noBlockA
    split at polled
    · cases polled
      exact .executed at_pc quiet ready _ _
        (lsejtagExecute_executed free engine.bounded ready ‹_›)
    · cases polled
      exact .executeFailed at_pc quiet ready _
        (lsejtagExecute_fails txFree tdo free engine.bounded _ ‹_›)
  · rename_i at_pc
    split at polled
    · cases polled
      obtain ⟨dwords, is, ctx, rx, trace⟩ := lsejtagFlushTdo_ok engine.bounded ‹_›
      exact .flushed at_pc (pc.flushTdo at_pc) dwords (by omega) _ ctx rx trace
    · cases polled
      exact .callFailed _ (.inl (lsejtagFlushTdo_fails _ txFree _ ‹_›))
  · rename_i at_pc
    split at polled
    · rename_i w' returned
      cases polled
      cases prepared : s.world.ctx.preparedBufblk with
      | none =>
        rw [lsejtagRunJtag_unprepared prepared] at returned
        cases returned
        exact .nothingToRun at_pc
      | some id =>
        obtain ⟨buf, dwords, ran⟩ :=
          lsejtagRunJtag_ran engine.idle.periphWorking prepared returned
        -- Only block A is ever prepared, so a prepared block is block A.
        simp only [LsejtagCtx.preparedBufblk, engine.idle.unusedB] at prepared
        split at prepared
        · cases prepared
          exact .ran at_pc buf dwords w' ‹_› ran
        · cases prepared
    · cases polled
      exact .callFailed _ (lsejtagRunJtag_fails _ tdo _ ‹_›)
  · cases polled

theorem mainStep_stepped {s s' : MainState} {input : MainInput} (inv : MainInv s)
    (stepped : mainStep s input = some s') : MainStepped s input s' := by
  cases input with
  | usbOut bytes =>
    simp only [mainStep] at stepped
    split at stepped
    · cases stepped
      exact .received bytes ‹_›
    · cases stepped
  | poll txFree tdo => exact mainPoll_stepped inv stepped

theorem Halt.IsFault.ne_spin {why : Halt} (fault : why.IsFault) : why ≠ .spin := by
  rintro rfl
  exact fault

theorem Halt.IsOverrun.ne_spin {why : Halt} (overrun : why.IsOverrun) : why ≠ .spin := by
  rintro rfl
  exact overrun

/-- One step of the main loop. -/
theorem MainInv.step {s s' : MainState} {input : MainInput} (inv : MainInv s)
    (stepped : MainStepped s input s') : MainInv s' := by
  obtain ⟨engine, pc⟩ := inv
  cases stepped with
  | received bytes =>
    have trace : (s.world.receive bytes).trace = s.world.trace ++ [.usbOut bytes] := rfl
    exact ⟨engine.sameEngine ⟨rfl, rfl, rfl⟩ trace (by simp [AllQuiet, Event.isQuiet]),
      pc.execute, pc.flushTdo, pc.noSpin⟩
  | dispatched _ r w' dispatched => exact ⟨engine.dispatched dispatched, dispatched.pcAgrees⟩
  | executed _ quiet ready r w' executed =>
    have after := engine.enterExecute.executed quiet executed
    have trace : (w'.log (.executed r)).trace = w'.trace ++ [.executed r] := rfl
    exact ⟨after.sameEngine ⟨rfl, rfl, rfl⟩ trace (by simp [AllQuiet, Event.isQuiet]), .dispatch _⟩
  | flushed _ should dwords bounded w' ctx rx trace =>
    exact ⟨engine.flushedTdo should bounded ctx trace, .dispatch w'⟩
  | ran _ buf dwords w' prepared ran => exact ⟨engine.ranJtag prepared ran, .dispatch w'⟩
  | nothingToRun => exact ⟨engine, .dispatch _⟩
  -- A halted loop keeps the world it had; that the reason is never the endless wait for
  -- the engine is what the invariant claims of it.
  | dispatchFailed _ why failed =>
    exact ⟨engine, .halted _ (lsejtagDispatch_fails _ why failed).ne_spin⟩
  | executeFailed _ quiet ready why failed =>
    refine ⟨engine.enterExecute, .halted _ ?_⟩
    obtain fault | ⟨-, -, failed⟩ := failed
    · exact fault.ne_spin
    · exact (fetchPayload_fails _ why failed).ne_spin
  | callFailed why failed =>
    refine ⟨engine, .halted _ ?_⟩
    obtain fault | rfl := failed
    · exact fault.ne_spin
    · simp

theorem engineInv_start : EngineInv World.start := by
  refine ⟨⟨rfl, rfl, rfl, rfl, rfl, rfl⟩, rfl,
    ⟨Fifo.empty, rfl, by decide, fun _ => rfl, ?_, rfl, rfl⟩, fun moved => absurd rfl moved⟩
  simp [Fifo.empty, LsejtagCtx.pendingDwords, World.start, lsejtagInitCtx]

/-- `MainInv` holds in every state of every run. -/
theorem mainLoop_inv {ok : MainState → MainInput → Prop} {s : MainState}
    (reach : mainLoop.Reach ok s) : MainInv s :=
  reach.invariant (fun _ initial => initial ▸ ⟨engineInv_start, .dispatch _⟩)
    fun _ _ _ _ inv _ stepped => inv.step (mainStep_stepped inv stepped)

end LoongsonEjtag
