import LoongsonEjtag.Executed

/-! # What a call of `lsejtag_dispatch` can do

A dispatch decides in this order: flush TDO, run JTAG, nothing to do, parse.

* `LsejtagCtx.Quiet` — no flush and no block is pending, so the parser is
  reached.
* `Dispatched` — the four decisions.
* `ParserMoved` — the parser touches the command buffer only, and every byte it
  takes from the ring is in the trace.
-/

namespace LoongsonEjtag

open Lib (bind_eq_ok)
open Wire

/-! ## The order of decisions -/

/-- Neither a flush nor a prepared block keeps the dispatch from the parser. -/
structure LsejtagCtx.Quiet (ctx : LsejtagCtx) : Prop where
  noFlush : ctx.tdoShouldFlush = false
  noNewData : (ctx.tdoImmediateFlush && ctx.tdoHaveNewData) = false
  noBlockA : ctx.jtagbufA.prepared = false
  noBlockB : ctx.jtagbufB.prepared = false

theorem LsejtagCtx.quiet_iff {ctx : LsejtagCtx} : ctx.Quiet ↔
    ctx.tdoShouldFlush = false ∧ (ctx.tdoImmediateFlush && ctx.tdoHaveNewData) = false ∧
      ctx.jtagbufA.prepared = false ∧ ctx.jtagbufB.prepared = false :=
  ⟨fun ⟨f, n, a, b⟩ => ⟨f, n, a, b⟩, fun ⟨f, n, a, b⟩ => ⟨f, n, a, b⟩⟩

instance (ctx : LsejtagCtx) : Decidable ctx.Quiet := decidable_of_iff _ LsejtagCtx.quiet_iff.symm

/-- The ways `lsejtag_dispatch` can return. -/
inductive Dispatched (w : World) : LsejtagDispatchResult → World → Prop
  | flushing (should : w.ctx.tdoShouldFlush = true) : Dispatched w .dprFlushTdo w
  | flushNew (calm : w.ctx.tdoShouldFlush = false) (immediate : w.ctx.tdoImmediateFlush = true)
      (new : w.ctx.tdoHaveNewData = true) :
      Dispatched w .dprFlushTdo { w with ctx := { w.ctx with
        tdoHaveNewData := false
        tdoShouldFlush := true } }
  | run (calm : w.ctx.tdoShouldFlush = false)
      (old : (w.ctx.tdoImmediateFlush && w.ctx.tdoHaveNewData) = false)
      (prepared : (w.ctx.jtagbufA.prepared || w.ctx.jtagbufB.prepared) = true) :
      Dispatched w .dprRunJtag w
  | empty (quiet : w.ctx.Quiet) (noRx : w.rx = []) (noCmd : w.ctx.bufferedLength = 0) :
      Dispatched w .dprClean w
  | parsed (quiet : w.ctx.Quiet) (some : ¬(w.rx = [] ∧ w.ctx.bufferedLength = 0))
      (r : LsejtagDispatchResult) (w' : World) (parsed : dispatchCmdBuf w = .ok (r, w')) :
      Dispatched w r w'

theorem lsejtagDispatch_dispatched {w w' : World} {r : LsejtagDispatchResult}
    (dispatched : lsejtagDispatch w = .ok (r, w')) : Dispatched w r w' := by
  simp only [lsejtagDispatch] at dispatched
  split at dispatched
  · rename_i should
    cases dispatched
    exact .flushing should
  rename_i calm
  have calm : w.ctx.tdoShouldFlush = false := by simpa using calm
  split at dispatched
  · rename_i new
    cases dispatched
    simp only [Bool.and_eq_true] at new
    exact .flushNew calm new.1 new.2
  rename_i old
  have old : (w.ctx.tdoImmediateFlush && w.ctx.tdoHaveNewData) = false := by simpa using old
  split at dispatched
  · rename_i prepared
    cases dispatched
    exact .run calm old prepared
  rename_i unprepared
  simp only [Bool.or_eq_true, not_or, Bool.not_eq_true] at unprepared
  have quiet : w.ctx.Quiet := ⟨calm, old, unprepared.1, unprepared.2⟩
  split at dispatched
  · rename_i nothing
    cases dispatched
    exact .empty quiet (List.length_eq_zero_iff.mp nothing.1) nothing.2
  · rename_i some
    exact .parsed quiet (fun ⟨rx, cmd⟩ => some ⟨by simp [rx], cmd⟩) r w' dispatched

/-- In a quiet context with something to parse, a dispatch is a parser step. -/
theorem lsejtagDispatch_quiet {w : World} (quiet : w.ctx.Quiet)
    (some : ¬(w.rx = [] ∧ w.ctx.bufferedLength = 0)) : lsejtagDispatch w = dispatchCmdBuf w := by
  simp only [lsejtagDispatch, quiet.noFlush, quiet.noNewData, quiet.noBlockA, quiet.noBlockB,
    Bool.or_self, Bool.false_eq_true, if_false, List.length_eq_zero_iff]
  rw [if_neg some]

/-- A dispatch stops only in the parser. -/
theorem lsejtagDispatch_error {w : World} {why : Halt} (failed : lsejtagDispatch w = .error why) :
    w.ctx.Quiet ∧ ¬(w.rx = [] ∧ w.ctx.bufferedLength = 0) ∧ dispatchCmdBuf w = .error why := by
  simp only [lsejtagDispatch] at failed
  split at failed
  · cases failed
  rename_i calm
  split at failed
  · cases failed
  rename_i old
  split at failed
  · cases failed
  rename_i unprepared
  simp only [Bool.or_eq_true, not_or, Bool.not_eq_true] at calm old unprepared
  split at failed
  · cases failed
  · rename_i some
    exact ⟨⟨calm, old, unprepared.1, unprepared.2⟩,
      fun ⟨rx, cmd⟩ => some ⟨by simp [rx], cmd⟩, failed⟩

/-! ## The parser's frame -/

/-- `w'` comes from `w` by parser steps. -/
structure ParserMoved (w w' : World) : Prop where
  ctx : w'.ctx = { w.ctx with toCmdBuf := w'.ctx.toCmdBuf }
  bytes : consumed w'.trace ++ w'.rx = consumed w.trace ++ w.rx
  trace : ∃ es, w'.trace = w.trace ++ es ∧
    ∀ e ∈ es, ∃ offset len avail got, e = .consume offset len avail got

namespace ParserMoved

variable {w w' w'' : World}

theorem refl (w : World) : ParserMoved w w := ⟨rfl, rfl, [], by simp, by simp⟩

/-- Changing the command buffer alone. -/
theorem setCmdBuf (w : World) (buf : CmdBuf) :
    ParserMoved w { w with ctx := { w.ctx with toCmdBuf := buf } } :=
  ⟨rfl, rfl, [], by simp, by simp⟩

theorem trans (first : ParserMoved w w') (second : ParserMoved w' w'') : ParserMoved w w'' := by
  obtain ⟨es, traceEs, consumesEs⟩ := first.trace
  obtain ⟨fs, traceFs, consumesFs⟩ := second.trace
  refine ⟨?_, second.bytes.trans first.bytes, es ++ fs, ?_, ?_⟩
  · have changed := second.ctx
    rw [first.ctx] at changed
    exact changed
  · rw [traceFs, traceEs, List.append_assoc]
  · intro e member
    exact (List.mem_append.mp member).elim (consumesEs e) (consumesFs e)

theorem tdo (moved : ParserMoved w w') : w'.ctx.toTdoQueue = w.ctx.toTdoQueue := by
  rw [moved.ctx]

theorem cont (moved : ParserMoved w w') : w'.ctx.toContCtx = w.ctx.toContCtx := by
  rw [moved.ctx]

theorem blockA (moved : ParserMoved w w') : w'.ctx.jtagbufA = w.ctx.jtagbufA := by
  rw [moved.ctx]

theorem blockB (moved : ParserMoved w w') : w'.ctx.jtagbufB = w.ctx.jtagbufB := by
  rw [moved.ctx]

theorem quiet (moved : ParserMoved w w') (quiet : w.ctx.Quiet) : w'.ctx.Quiet := by
  obtain ⟨noFlush, noNewData, noBlockA, noBlockB⟩ := quiet
  constructor
  · rw [moved.tdo]; exact noFlush
  · rw [moved.tdo]; exact noNewData
  · rw [moved.blockA]; exact noBlockA
  · rw [moved.blockB]; exact noBlockB

/-- What the parser adds to the trace is quiet. -/
theorem quietTrace (moved : ParserMoved w w') :
    ∃ es, w'.trace = w.trace ++ es ∧ AllQuiet es ∧ arrived es = [] := by
  obtain ⟨es, trace, consumes⟩ := moved.trace
  refine ⟨es, trace, fun e member => ?_, List.flatMap_eq_nil_iff.mpr fun e member => ?_⟩
  · obtain ⟨_, _, _, _, rfl⟩ := consumes e member
    rfl
  · obtain ⟨_, _, _, _, rfl⟩ := consumes e member
    rfl

end ParserMoved

/-! ## Every parser step stays in the frame -/

section moves

variable {w w' : World} {r : LsejtagDispatchResult}

theorem lsejtagImplUsbrxConsume_moved {offset len : Nat}
    (consumed : lsejtagImplUsbrxConsume w offset len = .ok w') : ParserMoved w w' := by
  obtain ⟨buf, -, rfl⟩ := lsejtagImplUsbrxConsume_ok consumed
  refine ⟨rfl, by simp [Event.consumedBytes], [_], rfl, ?_⟩
  simp only [List.mem_singleton]
  exact fun e is => ⟨_, _, _, _, is⟩

theorem bufferMore_moved {len : Nat} (fed : bufferMore w len = .ok w') : ParserMoved w w' := by
  obtain ⟨after, consumed, finished⟩ := bind_eq_ok.mp fed
  cases finished
  exact (lsejtagImplUsbrxConsume_moved consumed).trans (.setCmdBuf after _)

theorem fetchHeader_moved {offset len buffered : Nat} {state : LsejtagCmdBufState}
    (fetched : fetchHeader w offset len buffered state = .ok w') : ParserMoved w w' := by
  obtain ⟨after, consumed, finished⟩ := bind_eq_ok.mp fetched
  cases finished
  exact (lsejtagImplUsbrxConsume_moved consumed).trans (.setCmdBuf after _)

/-- The results of the parser once it has looked at a header. -/
inductive ParserResult : LsejtagDispatchResult → LsejtagCmdBufState → Prop
  | execute : ParserResult .dprExecute .cbsExecute
  | incomplete (state : LsejtagCmdBufState) : ParserResult .dprIncomplete state
  | tooLong (state : LsejtagCmdBufState) : ParserResult .dprTooLong state
  | unknownCmd : ParserResult .dprUnknownCmd .cbsClean

/-- `w'` and `r` are what a parser step from `w` leaves and returns. -/
structure ParserReturned (w : World) (r : LsejtagDispatchResult) (w' : World) : Prop where
  moved : ParserMoved w w'
  result : ParserResult r w'.ctx.cmdBufState

theorem ParserMoved.returned {middle : World} (moved : ParserMoved w middle)
    (rest : ParserReturned middle r w') : ParserReturned w r w' :=
  ⟨moved.trans rest.moved, rest.result⟩

theorem waitPayload_returned {lenRx : Nat} (waited : waitPayload w lenRx = .ok (r, w')) :
    ParserReturned w r w' := by
  simp only [waitPayload] at waited
  split at waited
  · obtain ⟨after, fed, finished⟩ := bind_eq_ok.mp waited
    cases finished
    exact ⟨(bufferMore_moved fed).trans (.setCmdBuf after _), .incomplete _⟩
  · obtain ⟨after, fed, finished⟩ := bind_eq_ok.mp waited
    cases finished
    exact ⟨(bufferMore_moved fed).trans (.setCmdBuf after _), .execute⟩

theorem bufferRest_returned {lenRx : Nat} (waited : bufferRest w lenRx = .ok (r, w')) :
    ParserReturned w r w' := by
  obtain ⟨after, fed, finished⟩ := bind_eq_ok.mp waited
  cases finished
  exact ⟨bufferMore_moved fed, .incomplete _⟩

theorem waitIrdrCfg_returned {lenRx lenAvail : Nat}
    (waited : waitIrdrCfg w lenRx lenAvail = .ok (r, w')) : ParserReturned w r w' := by
  simp only [waitIrdrCfg] at waited
  split at waited
  · obtain ⟨after, fed, waited⟩ := bind_eq_ok.mp waited
    have moved := (bufferMore_moved fed).trans (.setCmdBuf after
      (after.ctx.toWaitPayload (bit2dword (irseqLenBits after.ctx.cmd) * 4)).toCmdBuf)
    split at waited
    · cases waited
      exact ⟨moved, .tooLong _⟩
    · exact moved.returned (waitPayload_returned waited)
  · exact bufferRest_returned waited

theorem waitLoopbackCfg_returned {lenRx lenAvail : Nat}
    (waited : waitLoopbackCfg w lenRx lenAvail = .ok (r, w')) : ParserReturned w r w' := by
  simp only [waitLoopbackCfg] at waited
  split at waited
  · obtain ⟨after, consumed, finished⟩ := bind_eq_ok.mp waited
    cases finished
    exact ⟨(lsejtagImplUsbrxConsume_moved consumed).trans (.setCmdBuf after _), .execute⟩
  · exact bufferRest_returned waited

theorem waitFastCfg_returned {expectLen lenRx lenAvail : Nat}
    (waited : waitFastCfg w expectLen lenRx lenAvail = .ok (r, w')) : ParserReturned w r w' := by
  simp only [waitFastCfg] at waited
  split at waited
  · obtain ⟨after, fed, finished⟩ := bind_eq_ok.mp waited
    cases finished
    exact ⟨(bufferMore_moved fed).trans (.setCmdBuf after _), .execute⟩
  · exact bufferRest_returned waited

theorem waitCfg_returned {lenRx lenAvail : Nat}
    (waited : waitCfg w lenRx lenAvail = .ok (r, w')) : ParserReturned w r w' := by
  simp only [waitCfg] at waited
  split at waited
  · exact (ParserMoved.setCmdBuf w _).returned (waitPayload_returned waited)
  · cases waited
    exact ⟨.setCmdBuf w _, .execute⟩
  · cases waited
    exact ⟨.setCmdBuf w _, .execute⟩
  · exact waitIrdrCfg_returned waited
  · exact waitIrdrCfg_returned waited
  · exact waitLoopbackCfg_returned waited
  · exact waitFastCfg_returned waited
  · exact waitFastCfg_returned waited
  · exact waitFastCfg_returned waited
  · exact waitFastCfg_returned waited
  · cases waited
    exact ⟨.setCmdBuf w _, .unknownCmd⟩

/-- A parser step either finds a clean buffer and an empty ring, or moves. -/
theorem dispatchCmdBuf_returned (parsed : dispatchCmdBuf w = .ok (r, w')) :
    (r = .dprClean ∧ w' = w ∧ w.rx = [] ∧ w.ctx.cmdBufState = .cbsClean) ∨
      ParserReturned w r w' := by
  simp only [dispatchCmdBuf] at parsed
  split at parsed
  · rename_i clean
    split at parsed
    · rename_i noRx
      cases parsed
      exact .inl ⟨rfl, rfl, List.length_eq_zero_iff.mp noRx, clean⟩
    · split at parsed
      · obtain ⟨after, fetched, finished⟩ := bind_eq_ok.mp parsed
        cases finished
        exact .inr ⟨fetchHeader_moved fetched, .incomplete _⟩
      · obtain ⟨after, fetched, waited⟩ := bind_eq_ok.mp parsed
        exact .inr ((fetchHeader_moved fetched).returned (waitCfg_returned waited))
  · split at parsed
    · cases parsed
      exact .inr ⟨.refl w, .incomplete _⟩
    · obtain ⟨after, fetched, waited⟩ := bind_eq_ok.mp parsed
      exact .inr ((fetchHeader_moved fetched).returned (waitCfg_returned waited))
  · exact .inr (waitCfg_returned parsed)
  · exact .inr (waitPayload_returned parsed)
  · rename_i ready
    cases parsed
    exact .inr ⟨.refl w, ready ▸ .execute⟩

end moves

end LoongsonEjtag
