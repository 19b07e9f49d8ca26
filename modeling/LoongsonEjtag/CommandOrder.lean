import LoongsonEjtag.Framing

/-! # The order of commands

The commands `lsejtag_execute` is presented are the commands the host encoded,
in order and with all their bytes, however the stream is cut into arrivals.

* `Shows` — a trace presents the first commands of a list, the last one perhaps
  in part, and has consumed just their bytes.
* `Framed` — how that hangs together with the state of the parser between two
  calls.
* `commands_in_order` — it does so in every run that meets `FramingOk`.
-/

namespace LoongsonEjtag

open Lib (Byte dwordsBytes sub32 sub32_lt sub32_eq)
open Lib.Machine (anyAction)
open Wire

/-! ## What has been presented -/

/-- The trace presents `done` and `f`, which is part of the next command `c`, and
    their bytes are what has been consumed. -/
structure Shows (cmds : List Cmd) (t : List Event) (phase : CallPhase) (done : List Cmd) (c : Cmd)
    (rest : List Cmd) (f : Frame) : Prop where
  split : cmds = done ++ c :: rest
  shown : presented t = ⟨done.map Cmd.toFrame, some f, phase⟩
  part : PartOf f c
  bytes : consumed t = encodeAll done ++ f.encode

namespace Shows

variable {cmds done rest : List Cmd} {t es : List Event} {phase : CallPhase} {c : Cmd} {f : Frame}

theorem firstOf (shows : Shows cmds t phase done c rest f) :
    FirstOf (presented t).frames cmds := by
  refine .last done c rest shows.split f shows.part ?_
  rw [shows.shown]
  rfl

theorem output (shows : Shows cmds t phase done c rest f) (output : AllOutput es) :
    Shows cmds (t ++ es) phase done c rest f := by
  refine ⟨shows.split, ?_, shows.part, ?_⟩
  · rw [output.presented, shows.shown]
  · rw [consumed_append, output.consumed_eq, List.append_nil, shows.bytes]

/-- The call that presents the command returns. -/
theorem executed (shows : Shows cmds t phase done c rest f) (r : LsejtagCmdExecResult)
    (phase' : CallPhase)
    (ends : ∀ p : Presented, p.event (.executed r) = { p with phase := phase' }) :
    Shows cmds (t ++ [.executed r]) phase' done c rest f := by
  refine ⟨shows.split, ?_, shows.part, ?_⟩
  · rw [presented_append, List.foldl_cons, List.foldl_nil, ends, shows.shown]
  · rw [consumed_append, shows.bytes]
    simp [Event.consumedBytes]

/-- A continued command is called again. -/
theorem enters (shows : Shows cmds t phase done c rest f) (cmd : List Byte) :
    Shows cmds (t ++ [.execute true cmd]) phase done c rest f := by
  refine ⟨shows.split, ?_, shows.part, ?_⟩
  · rw [presented_append, shows.shown]
    rfl
  · rw [consumed_append, shows.bytes]
    simp [Event.consumedBytes]

/-- What a continued command consumes is its payload. -/
theorem consumes (shows : Shows cmds t .continued done c rest f) (consumes : AllConsumes es)
    (stream : consumed (t ++ es) <+: encodeAll cmds)
    (fits : f.payload.length + (consumed es).length ≤ c.payload.length) :
    Shows cmds (t ++ es) .continued done c rest (f.more (consumed es)) := by
  obtain ⟨split, shown, part, bytes⟩ := shows
  refine ⟨split, ?_, ?_, ?_⟩
  · rw [consumes.presented, shown]
    rfl
  · rw [consumed_append, bytes, split, encodeAll_append, List.append_assoc,
      List.prefix_append_right_inj, ← Frame.encode_more, encodeAll_cons] at stream
    have header : (f.more (consumed es)).header = f.header := rfl
    have config : (f.more (consumed es)).config = f.config := rfl
    have length : (f.more (consumed es)).payload.length ≤ c.payload.length := by
      simpa [Frame.more] using fits
    obtain ⟨sameHeader, sameConfig, payload⟩ := frame_of_encoded stream
      (by rw [header, part.header, c.headerLen]) (by rw [config, part.config]) length
    refine ⟨sameHeader, sameConfig, payload, fun notWrite => payload.eq_of_length ?_⟩
    have whole := congrArg List.length (part.whole notWrite)
    have longer : f.payload.length ≤ (f.more (consumed es)).payload.length := by
      simp [Frame.more]
    omega
  · rw [consumed_append, bytes, Frame.encode_more, List.append_assoc]

end Shows

/-! ## Payload of a continued command -/

/-- Bytes of payload that a continued command has not fetched yet. -/
def contLeft (ctx : LsejtagCtx) : Nat :=
  match LsejtagCmdOp.ofCode? ctx.contOp with
  | some .opFastTargetMemWriteFastdata | some .opFastTargetMemWrite =>
    ctx.xfersLeft * (ctx.drseqDwordlen * 4) - ctx.bufferedLength
  | _ => 0

theorem contLeft_write {ctx : LsejtagCtx} {fastdata : Bool}
    (isOp : LsejtagCmdOp.ofCode? ctx.contOp = some (writeOp fastdata)) :
    contLeft ctx = ctx.xfersLeft * (ctx.drseqDwordlen * 4) - ctx.bufferedLength := by
  cases fastdata <;> simp only [contLeft, isOp, writeOp] <;> rfl

theorem contLeft_read {ctx : LsejtagCtx} {fastdata : Bool}
    (isOp : LsejtagCmdOp.ofCode? ctx.contOp = some (readOp fastdata)) : contLeft ctx = 0 := by
  cases fastdata <;> simp only [contLeft, isOp, readOp] <;> rfl

/-- The setup of a fast write makes its sequences as long as the host pads them. -/
theorem drseqDwordlen_fastMemWriteSetup (ctx : LsejtagCtx) (fastdata : Bool) :
    (fastMemWriteSetup ctx fastdata).drseqDwordlen = xferDwords fastdata ctx.cmd := by
  have skipbits : (if chainedCoreCount ctx.cmd ≠ 0 then chainedCoreCount ctx.cmd - 1 else 0) =
      chainedCoreCount ctx.cmd - 1 := by
    split <;> omega
  simp only [fastMemWriteSetup, xferDwords, skipbits]

/-! ## Between two calls -/

/-- What has been presented, and where the rest of the command is. -/
inductive Framed (cmds : List Cmd) (w : World) : Prop
  /-- The next command is being fetched. -/
  | fetching (done rest : List Cmd) (split : cmds = done ++ rest)
      (fresh : w.ctx.continuation = false) (ended : (presented w.trace).phase = .done)
      (shown : (presented w.trace).frames = done.map Cmd.toFrame)
      (bytes : consumed w.trace = encodeAll done ++ w.taken)
  /-- The command has been presented and waits for room. -/
  | waiting (done : List Cmd) (c : Cmd) (rest : List Cmd)
      (shows : Shows cmds w.trace .again done c rest (frameOf w.ctx.cmd))
      (fresh : w.ctx.continuation = false) (state : w.ctx.cmdBufState = .cbsExecute)
  /-- The command has been presented and is continued. -/
  | continued (done : List Cmd) (c : Cmd) (rest : List Cmd) (f : Frame)
      (shows : Shows cmds w.trace .continued done c rest f)
      (continues : w.ctx.continuation = true) (state : w.ctx.cmdBufState = .cbsExecute)
      (left : f.payload.length + contLeft w.ctx = c.payload.length)
      (counts : w.ctx.xfersLeft < 2 ^ 32)

section framed

variable {cmds : List Cmd} {w w' : World}

theorem Framed.firstOf (framed : Framed cmds w) : FirstOf (presented w.trace).frames cmds := by
  cases framed with
  | fetching done rest split _ _ shown => exact .whole done rest split shown
  | waiting done c rest shows | continued done c rest f shows => exact shows.firstOf

/-- Every byte consumed is in a frame, or taken for the next one. -/
theorem Framed.consumed_eq (framed : Framed cmds w) :
    consumed w.trace = (presented w.trace).frames.flatMap Frame.encode ++
      (if (presented w.trace).phase = .done then w.taken else []) := by
  cases framed with
  | fetching done rest _ _ ended shown bytes => rw [bytes, shown, flatMap_encode, if_pos ended]
  | waiting done c rest shows | continued done c rest f shows =>
    rw [shows.bytes, shows.shown]
    simp [Presented.frames, flatMap_encode]

/-- It is about the command buffer, the continuation and what has been presented
    only. -/
theorem Framed.congr (framed : Framed cmds w) (cmdBuf : w'.ctx.toCmdBuf = w.ctx.toCmdBuf)
    (cont : w'.ctx.toContCtx = w.ctx.toContCtx) (es : List Event) (trace : w'.trace = w.trace ++ es)
    (same : presented (w.trace ++ es) = presented w.trace) (consumes : consumed es = []) :
    Framed cmds w' := by
  have bytesAre : consumed w'.trace = consumed w.trace := by
    rw [trace, consumed_append, consumes, List.append_nil]
  have taken : w'.taken = w.taken := by
    simp only [World.taken, World.buffered, LsejtagCtx.cmd, cmdBuf]
  have left : contLeft w'.ctx = contLeft w.ctx := by simp only [contLeft, cmdBuf, cont]
  have cmd : w'.ctx.cmd = w.ctx.cmd := by simp only [LsejtagCtx.cmd, cmdBuf]
  cases framed with
  | fetching done rest split fresh ended shown bytes =>
    refine .fetching done rest split (by rw [cont]; exact fresh) ?_ ?_ ?_
    · rw [trace, same, ended]
    · rw [trace, same, shown]
    · rw [bytesAre, taken, bytes]
  | waiting done c rest shows fresh state =>
    refine .waiting done c rest ⟨shows.split, ?_, ?_, ?_⟩ (by rw [cont]; exact fresh)
      (by rw [cmdBuf]; exact state)
    · rw [trace, same, cmd, shows.shown]
    · rw [cmd]
      exact shows.part
    · rw [bytesAre, cmd, shows.bytes]
  | continued done c rest f shows continues state isLeft counts =>
    refine .continued done c rest f ⟨shows.split, ?_, shows.part, ?_⟩
      (by rw [cont]; exact continues) (by rw [cmdBuf]; exact state) (by rw [left]; exact isLeft)
      (by rw [cont]; exact counts)
    · rw [trace, same, shows.shown]
    · rw [bytesAre, shows.bytes]

/-! ## Calls of `lsejtag_execute` -/

/-- A command that has become ready is the next one, and executing it presents
    it. -/
theorem Framed.presents (framed : Framed cmds w) (inv : ParserInv w.ctx)
    (stream : consumed w.trace ++ w.rx <+: encodeAll cmds)
    (state : w.ctx.cmdBufState = .cbsExecute) (fresh : w.ctx.continuation = false) :
    ∃ phase done c rest, Shows cmds w.enterExecute.trace phase done c rest (frameOf w.ctx.cmd) ∧
      op w.ctx.cmd = some c.op ∧ payloadLen c.op w.ctx.cmd = c.payload.length := by
  -- The buffered command is a frame at the front of what is left of the stream, so it is
  -- the front of the next command.
  have next : ∀ {cmds'}, (frameOf w.ctx.cmd).encode <+: encodeAll cmds' → ∃ c rest,
      cmds' = c :: rest ∧ op w.ctx.cmd = some c.op ∧ PartOf (frameOf w.ctx.cmd) c ∧
        payloadLen c.op w.ctx.cmd = c.payload.length := by
    intro cmds' first
    cases inv with
    | ready _ _ _ o isOp _ _ fits =>
      have length : w.ctx.cmd.length = 256 := by simp [LsejtagCtx.cmd]
      obtain ⟨c, rest, split, rfl, part, payload⟩ := frameOf_first isOp (by omega) first
      exact ⟨c, rest, split, isOp, part, payload⟩
    | continued _ continues => simp [fresh] at continues
    | _ state' => simp [state] at state'
  have trace : w.enterExecute.trace = w.trace ++ [.execute false w.ctx.cmd] := by
    rw [World.enterExecute, World.trace_log, fresh]
  have bytesAre : consumed w.enterExecute.trace = consumed w.trace := by
    rw [trace]
    simp [Event.consumedBytes]
  cases framed with
  | fetching done rest split _ ended shown bytes =>
    rw [World.taken, if_pos state] at bytes
    rw [bytes, split, encodeAll_append, List.append_assoc, List.prefix_append_right_inj] at stream
    obtain ⟨c, rest, rfl, isOp, part, payload⟩ := next ((List.prefix_append _ _).trans stream)
    refine ⟨.done, done, c, rest, ⟨split, ?_, part, bytesAre.trans bytes⟩, isOp, payload⟩
    rw [trace, presented_append, List.foldl_cons, List.foldl_nil, Presented.event, ended, shown]
    exact if_neg (by simp)
  | waiting done c rest shows =>
    obtain ⟨split, shown, part, bytes⟩ := shows
    rw [bytes, split, encodeAll_append, List.append_assoc, List.prefix_append_right_inj] at stream
    obtain ⟨c', rest', same, isOp, part', payload⟩ := next ((List.prefix_append _ _).trans stream)
    cases same
    refine ⟨.again, done, c, rest, ⟨split, ?_, part, bytesAre.trans bytes⟩, isOp, payload⟩
    rw [trace, presented_append, shown]
    exact if_pos ⟨rfl, rfl⟩
  | continued _ _ _ _ _ continues => simp [fresh] at continues

/-- A command that is done makes way for the next one. -/
theorem Shows.finished {t es : List Event} {phase : CallPhase} {done rest : List Cmd} {c : Cmd}
    {f : Frame} (shows : Shows cmds t phase done c rest f)
    (complete : f.payload.length = c.payload.length) (trace : w.trace = t ++ es)
    (output : AllOutput es) (fresh : w.ctx.continuation = false)
    (state : w.ctx.cmdBufState = .cbsClean) (nothing : w.ctx.bufferedLength = 0) :
    Framed cmds (w.log (.executed .cerSuccess)) := by
  have after := (shows.output output).executed .cerSuccess .done fun _ => rfl
  have isTrace : (w.log (.executed .cerSuccess)).trace = t ++ es ++ [.executed .cerSuccess] := by
    rw [World.trace_log, trace]
  have taken : (w.log (.executed .cerSuccess)).taken = [] := by
    simp [World.taken, state, World.buffered, nothing]
  have isCmd := shows.part.eq_toFrame complete
  refine .fetching (done ++ [c]) rest (by simp [shows.split]) fresh ?_ ?_ ?_
  · rw [isTrace, after.shown]
  · rw [isTrace, after.shown, isCmd]
    simp [Presented.frames]
  · rw [isTrace, after.bytes, taken, isCmd]
    simp

theorem frameOf_payload {cmd : List Byte} {o : LsejtagCmdOp} (isOp : op cmd = some o) :
    (frameOf cmd).payload.length ≤ bufferedPayloadLen o cmd := by
  simp only [frameOf, isOp, List.length_take]
  exact Nat.min_le_left _ _

theorem isAtOnce.notWrite {cmd : List Byte} {o : LsejtagCmdOp} (atOnce : isAtOnce cmd)
    (isOp : op cmd = some o) : ¬o.IsFastWrite := by
  rintro ⟨fastdata, rfl⟩
  cases fastdata <;> simp [isAtOnce, isOp, writeOp] at atOnce

theorem isIrdr.notWrite {cmd : List Byte} {o : LsejtagCmdOp} (irdr : isIrdr cmd)
    (isOp : op cmd = some o) : ¬o.IsFastWrite := by
  rintro ⟨fastdata, rfl⟩
  cases fastdata <;> simp [isIrdr, isOp, writeOp] at irdr

/-- The first call of a command. -/
theorem Shows.begun {phase : CallPhase} {done rest : List Cmd} {c : Cmd} {r : LsejtagCmdExecResult}
    (shows : Shows cmds w.trace phase done c rest (frameOf w.ctx.cmd))
    (isOp : op w.ctx.cmd = some c.op) (payload : payloadLen c.op w.ctx.cmd = c.payload.length)
    (state : w.ctx.cmdBufState = .cbsExecute) (fresh : w.ctx.continuation = false)
    (cleans : cleansUp w.ctx.cmd = true) (executed : Executed w r w') :
    Framed cmds (w'.log (.executed r)) := by
  have whole : ¬c.op.IsFastWrite → (frameOf w.ctx.cmd).payload.length = c.payload.length :=
    fun notWrite => congrArg List.length (shows.part.whole notWrite)
  -- A command that continues has counted its transfers, and what it still takes of the
  -- ring is the payload that was not framed with it.
  have begins : ∀ {w' : World} {es : List Event}, w'.trace = w.trace ++ es →
      AllOutput es → w'.ctx.continuation = true → w'.ctx.cmdBufState = .cbsExecute →
      (frameOf w.ctx.cmd).payload.length + contLeft w'.ctx = c.payload.length →
      w'.ctx.xfersLeft = dataLenXferCount w.ctx.cmd →
      Framed cmds (w'.log (.executed .cerContinue)) := by
    intro w' es trace output continues state left counts
    have after := (shows.output output).executed .cerContinue .continued fun _ => rfl
    refine .continued done c rest _ ?_ continues state left ?_
    · rwa [World.trace_log, trace]
    · rw [World.ctx_log, counts]
      exact Lib.le32_lt _ _
  -- Commands that answer at once end here; fast ones start their transfers.
  cases executed with
  | awaitTx | awaitFlush =>
    exact .waiting done c rest (shows.executed _ .again fun _ => rfl) fresh state
  | answered _ _ atOnce _ es answers | tapReset _ _ atOnce es answers =>
    exact shows.finished (whole (atOnce.notWrite isOp)) rfl answers.allOutput fresh rfl rfl
  | kept _ keeps => simp [keeps] at cleans
  | scanned _ irdr =>
    exact shows.finished (whole (irdr.notWrite isOp)) rfl
      (by simp [AllOutput, Event.isOutput]) fresh rfl rfl
  | writeStarted _ fastdata isWriteOp tmsA tdiA tmsB tdiB =>
    have isOp' : c.op = writeOp fastdata := Option.some.inj (isOp.symm.trans isWriteOp)
    refine begins rfl (by simp [AllOutput, Event.isOutput]) rfl state ?_ rfl
    have bytes : dataLenXferCount w.ctx.cmd *
        ((fastMemWriteSetup w.ctx fastdata).drseqDwordlen * 4) = c.payload.length := by
      rw [drseqDwordlen_fastMemWriteSetup, ← payload, isOp']
      cases fastdata <;> rfl
    have left : ∀ ctx : LsejtagCtx, ctx.contOp = opCode w.ctx.cmd →
        contLeft ctx = ctx.xfersLeft * (ctx.drseqDwordlen * 4) - ctx.bufferedLength :=
      fun ctx same => contLeft_write (by rw [same]; exact isWriteOp)
    have none : bufferedPayloadLen c.op w.ctx.cmd = 0 := by
      rw [isOp']
      cases fastdata <;> rfl
    have nothing := frameOf_payload isOp
    rw [left _ rfl]
    change _ + (dataLenXferCount w.ctx.cmd *
      ((fastMemWriteSetup w.ctx fastdata).drseqDwordlen * 4) - 0) = _
    omega
  | readStarted _ fastdata isReadOp tms tdi =>
    have isOp' : c.op = readOp fastdata := Option.some.inj (isOp.symm.trans isReadOp)
    refine begins rfl (by simp [AllOutput, Event.isOutput]) rfl state ?_ rfl
    have left : ∀ ctx : LsejtagCtx, ctx.contOp = opCode w.ctx.cmd → contLeft ctx = 0 :=
      fun ctx same => contLeft_read (by rw [same]; exact isReadOp)
    rw [left _ rfl]
    apply whole
    rintro ⟨fastdata', isWrite⟩
    exact writeOp_ne_readOp _ _ (isWrite.symm.trans isOp')
  | payloadShort continues | blockWritten continues | readFull continues | blockRead continues
  | badContinue continues => simp [fresh] at continues

/-- A fast write fetches payload of its command. -/
theorem Shows.fetched {done rest : List Cmd} {c : Cmd} {f : Frame} {complete fastdata : Bool}
    (shows : Shows cmds w.trace .continued done c rest f) (inv : ParserInv w.ctx)
    (ring : w.rx.length ≤ 256) (stream : consumed w.trace ++ w.rx <+: encodeAll cmds)
    (continues : w.ctx.continuation = true)
    (isOp : LsejtagCmdOp.ofCode? w.ctx.contOp = some (writeOp fastdata))
    (left : f.payload.length + contLeft w.ctx = c.payload.length)
    (fetched : PayloadFetched { w with ctx := truncateXfers w.ctx } complete w') :
    ∃ f' k, Shows cmds w'.trace .continued done c rest f' ∧
      w'.ctx.bufferedLength = w.ctx.bufferedLength + k ∧
      w'.ctx.cmdBufState = w.ctx.cmdBufState ∧
      f'.payload.length + (w.ctx.xfersLeft * (w.ctx.drseqDwordlen * 4) -
        (w.ctx.bufferedLength + k)) = c.payload.length ∧
      (complete = true → w.ctx.bufferedLength + k =
        min w.ctx.xfersPerBufblk w.ctx.xfersLeft * (w.ctx.drseqDwordlen * 4)) := by
  obtain ⟨fits, partly⟩ := inv.writing continues isOp
  obtain ⟨-, k, parsed, block⟩ := fetched.write ring fits partly
  obtain ⟨es, trace, consumes⟩ := fetched.moved.trace
  have trace : w'.trace = w.trace ++ es := trace
  have bytes : consumed w'.trace ++ w'.rx = consumed w.trace ++ w.rx := fetched.moved.bytes
  have rx : w'.rx = w.rx.drop k := parsed.took.rx
  have available : k ≤ w.rx.length := parsed.took.fits
  -- A fetch never goes past the block, and a block never past the command.
  have inside : w.ctx.bufferedLength + k ≤
      min w.ctx.xfersPerBufblk w.ctx.xfersLeft * (w.ctx.drseqDwordlen * 4) := by
    cases complete with
    | true => exact Nat.le_of_eq block
    | false => exact Nat.le_of_lt block.2
  have within := inside.trans
    (Nat.mul_le_mul_right (w.ctx.drseqDwordlen * 4) (Nat.min_le_right _ w.ctx.xfersLeft))
  have length : (consumed es).length = k := by
    have took := fetched.moved.took parsed.took
    rw [trace, consumed_append, List.append_cancel_left_eq] at took
    rw [took, List.length_take_of_le available]
  rw [contLeft_write isOp] at left
  have reached : consumed (w.trace ++ es) <+: encodeAll cmds := by
    rw [← trace]
    exact (List.prefix_append _ w'.rx).trans (bytes ▸ stream)
  refine ⟨f.more (consumed es), k, ?_, parsed.buffered, parsed.state, ?_, fun all => ?_⟩
  · rw [trace]
    exact shows.consumes consumes reached (by omega)
  · simp only [Frame.more, List.length_append, length]
    omega
  · rwa [if_pos all] at block

/-- A continuation that made a block ready ends its command with the last of its
    payload. -/
theorem Shows.placed {done rest : List Cmd} {c : Cmd} {f : Frame} {r : LsejtagCmdExecResult}
    {blk : JtagbufBlk} {buffered left : Nat}
    (shows : Shows cmds w.trace .continued done c rest f)
    (continues : w.ctx.continuation = true) (state : w.ctx.cmdBufState = .cbsExecute)
    (payload : f.payload.length + contLeft (w.placed blk buffered left).ctx = c.payload.length)
    (last : left = 0 → contLeft (w.placed blk buffered left).ctx = 0) (counts : left < 2 ^ 32)
    (ends : (r, w') = finishXfers (w.placed blk buffered left)) :
    Framed cmds (w'.log (.executed r)) := by
  have output : AllOutput [.prepared blk.seq] := by simp [AllOutput, Event.isOutput]
  obtain ⟨none, rfl, rfl⟩ | ⟨-, rfl, rfl⟩ := finishXfers_cases ends
  · refine shows.finished ?_ rfl output rfl rfl rfl
    rw [last none] at payload
    exact payload
  · exact .continued done c rest f ((shows.output output).executed _ _ fun _ => rfl) continues state
      payload counts

/-- Every later call of a command. -/
theorem Shows.goesOn {done rest : List Cmd} {c : Cmd} {f : Frame} {r : LsejtagCmdExecResult}
    (shows : Shows cmds w.trace .continued done c rest f) (inv : ParserInv w.ctx)
    (ring : w.rx.length ≤ 256) (stream : consumed w.trace ++ w.rx <+: encodeAll cmds)
    (continues : w.ctx.continuation = true) (state : w.ctx.cmdBufState = .cbsExecute)
    (left : f.payload.length + contLeft w.ctx = c.payload.length)
    (counts : w.ctx.xfersLeft < 2 ^ 32) (executed : Executed w r w') :
    Framed cmds (w'.log (.executed r)) := by
  cases executed with
  | awaitTx fresh | awaitFlush fresh | answered fresh | tapReset fresh | kept fresh | scanned fresh
  | writeStarted fresh | readStarted fresh => simp [continues] at fresh
  | payloadShort _ fastdata isOp _ fetched =>
    -- The bytes fetched are missing less now; no transfer is accounted for yet.
    obtain ⟨f', k, shows', buffered, sameState, payload, -⟩ :=
      shows.fetched inv ring stream continues isOp left fetched
    have cont : w'.ctx.toContCtx = (truncateXfers w.ctx).toContCtx := fetched.moved.cont
    obtain ⟨-, size, count, stillOp, still⟩ := contCtx_truncated cont
    refine .continued done c rest f' (shows'.executed _ _ fun _ => rfl) (still.trans continues)
      (sameState.trans state) ?_ (by rw [World.ctx_log, count]; exact counts)
    rw [World.ctx_log, contLeft_write (stillOp ▸ isOp), size, count, buffered]
    exact payload
  | blockWritten _ fastdata isOp middle fetched tdi _ _ _ ends =>
    -- A complete block: its bytes leave the buffer and its transfers the count.
    obtain ⟨f', k, shows', -, sameState, payload, block⟩ :=
      shows.fetched inv ring stream continues isOp left fetched
    have cont : middle.ctx.toContCtx = (truncateXfers w.ctx).toContCtx := fetched.moved.cont
    obtain ⟨xfers, size, count, stillOp, still⟩ := contCtx_truncated cont
    have toGo : sub32 middle.ctx.xfersLeft middle.ctx.xfersPerBufblk =
        w.ctx.xfersLeft - min w.ctx.xfersPerBufblk w.ctx.xfersLeft := by
      rw [count, xfers, sub32_eq (Nat.min_le_right _ _) counts]
    have stillLeft : ∀ blk left, contLeft (middle.placed blk 0 left).ctx =
        left * (middle.ctx.drseqDwordlen * 4) - 0 := fun _ _ => contLeft_write (stillOp ▸ isOp)
    rw [toGo] at ends
    refine shows'.placed (still.trans continues) (sameState.trans state) ?_ (fun none => ?_)
      (by omega) ends
    · rw [stillLeft, size, Nat.sub_mul, ← block rfl]
      exact payload
    · rw [stillLeft, none]
      omega
  | readFull =>
    exact .continued done c rest f (shows.executed _ _ fun _ => rfl) continues state left counts
  | blockRead _ fastdata isOp _ _ _ ends =>
    -- A read has no payload to miss.
    have nothing : ∀ blk buffered left, contLeft (w.placed blk buffered left).ctx = 0 :=
      fun _ _ _ => contLeft_read isOp
    refine shows.placed continues state ?_ (fun _ => nothing _ _ _) ?_ ends
    · rw [nothing, ← contLeft_read isOp]
      exact left
    · exact sub32_lt _ _
  | badContinue _ unknown =>
    obtain ⟨fastdata, isOp, -, -⟩ | ⟨fastdata, isOp, -⟩ := inv.cont continues
    · exact absurd isOp (unknown fastdata).1
    · exact absurd isOp (unknown fastdata).2

/-- Every call keeps the frames in order. -/
theorem Framed.executed {r : LsejtagCmdExecResult} (framed : Framed cmds w)
    (inv : ParserInv w.ctx) (ring : w.rx.length ≤ 256)
    (stream : consumed w.trace ++ w.rx <+: encodeAll cmds)
    (state : w.ctx.cmdBufState = .cbsExecute)
    (cleans : w.ctx.continuation = false → cleansUp w.ctx.cmd = true)
    (executed : Executed w.enterExecute r w') : Framed cmds (w'.log (.executed r)) := by
  cases fresh : w.ctx.continuation with
  | false =>
    obtain ⟨phase, done, c, rest, shows, isOp, payload⟩ :=
      framed.presents inv stream state fresh
    exact Shows.begun (w := w.enterExecute) shows isOp payload state fresh (cleans fresh) executed
  | true =>
    cases framed with
    | fetching _ _ _ notCont | waiting _ _ _ _ notCont => simp [fresh] at notCont
    | continued done c rest f shows _ _ left counts =>
      have entered : Shows cmds w.enterExecute.trace .continued done c rest f := by
        rw [World.enterExecute, World.trace_log, fresh]
        exact shows.enters w.ctx.cmd
      have sameBytes : consumed w.enterExecute.trace = consumed w.trace := by
        rw [entered.bytes, shows.bytes]
      exact Shows.goesOn (w := w.enterExecute) entered inv ring (by rw [sameBytes]; exact stream)
        fresh state left counts executed

/-- A call that does not return has presented its command. -/
theorem Framed.entered (framed : Framed cmds w) (inv : ParserInv w.ctx)
    (stream : consumed w.trace ++ w.rx <+: encodeAll cmds)
    (state : w.ctx.cmdBufState = .cbsExecute) :
    FirstOf (presented w.enterExecute.trace).frames cmds := by
  cases fresh : w.ctx.continuation with
  | false =>
    obtain ⟨phase, done, c, rest, shows, -⟩ := framed.presents inv stream state fresh
    exact shows.firstOf
  | true =>
    have same : presented w.enterExecute.trace = presented w.trace := by
      rw [World.enterExecute, World.trace_log, fresh, presented_append]
      rfl
    rw [same]
    exact framed.firstOf

/-! ## Parser steps -/

theorem op_known {c : Cmd} {rest : List Cmd} {bytes : List Byte}
    (first : bytes <+: encodeAll (c :: rest)) (header : 2 ≤ bytes.length) : op bytes ≠ none := by
  obtain ⟨c', rest', -, isOp, -⟩ := cmd_of_encoded first header
  simp [isOp]

/-- While a command is fetched, nothing is presented and its bytes are taken. -/
theorem Framed.parsed {r : LsejtagDispatchResult} (framed : Framed cmds w) (inv : ParserInv w.ctx)
    (own : w.ctx.cmdBufState = .cbsWaitCfg → TakesOwnBytes w)
    (stream : consumed w.trace ++ w.rx <+: encodeAll cmds) (moved : ParserMoved w w')
    (stepped : ParserStepped w r w') :
    (presented w'.trace).frames = (presented w.trace).frames ∧
      (r ≠ .dprTooLong → Framed cmds w') := by
  by_cases ready : w.ctx.cmdBufState = .cbsExecute
  · cases stepped with
    | ready => exact ⟨rfl, fun _ => framed⟩
    | firstByte state | noByte state | payloadRest state | payload state =>
      simp [ready] at state
    | unknown _ fetched | config _ fetched => exact absurd ready fetched.notReady
  cases framed with
  | fetching done rest split fresh ended shown bytes =>
    obtain ⟨es, trace, consumes⟩ := moved.trace
    have same : presented w'.trace = presented w.trace := by
      rw [trace, AllConsumes.presented consumes, if_neg (by simp [ended])]
    refine ⟨by rw [same], fun fine => ?_⟩
    -- The bytes pending are the head of a command of the stream.
    have known : 2 ≤ w.pendingBytes.length → op w.pendingBytes ≠ none := by
      intro header
      rw [bytes, split, encodeAll_append, List.append_assoc, List.prefix_append_right_inj,
        taken_rx_fetching ready] at stream
      cases rest with
      | nil =>
        rw [encodeAll_nil, List.prefix_nil] at stream
        simp [stream] at header
      | cons c rest => exact op_known stream header
    refine .fetching done rest split ((congrArg ContCtx.continuation moved.cont).trans fresh)
      (by rw [same, ended]) (by rw [same, shown]) ?_
    have takes := stepped.taken_rx inv own known fine
    have total := moved.bytes
    rw [bytes, List.append_assoc, ← takes, ← List.append_assoc] at total
    exact List.append_cancel_right total
  | waiting _ _ _ _ _ state | continued _ _ _ _ _ _ state => exact absurd state ready

end framed

/-! ## Over whole runs -/

/-- What is known between two calls if the host sends `cmds`. -/
structure MainFramed (cmds : List Cmd) (s : MainState) : Prop where
  firstOf : FirstOf (presented s.world.trace).frames cmds
  framed : s.Running → Framed cmds s.world

theorem MainFramed.of_framed {cmds : List Cmd} {s : MainState} (framed : Framed cmds s.world) :
    MainFramed cmds s :=
  ⟨framed.firstOf, fun _ => framed⟩

theorem MainFramed.step {cmds : List Cmd} {s s' : MainState} {input : MainInput}
    (inv : MainFramed cmds s) (main : MainParser s)
    (stream : consumed s.world.trace ++ s.world.rx <+: encodeAll cmds)
    (fine : FramingOk s input) (stepped : MainStepped s input s') : MainFramed cmds s' := by
  have running : ∀ {pc}, s.pc = pc → (∀ why, pc ≠ .halted why) → s.Running :=
    fun is notHalted why halted => notHalted why (is.symm.trans halted)
  cases stepped with
  | received bytes =>
    have trace : (s.world.receive bytes).trace = s.world.trace ++ [.usbOut bytes] := rfl
    have same : presented (s.world.trace ++ [.usbOut bytes]) = presented s.world.trace := by
      rw [presented_append]
      rfl
    refine ⟨?_, fun running => (inv.framed running).congr rfl rfl _ trace same rfl⟩
    rw [trace, same]
    exact inv.firstOf
  | dispatched at_pc r w' dispatched =>
    have running := running at_pc (by simp)
    have framed := inv.framed running
    cases dispatched with
    | flushing | run | empty => exact .of_framed framed
    | flushNew =>
      exact .of_framed (framed.congr rfl rfl [] (List.append_nil _).symm (by simp) rfl)
    | parsed quiet some _ _ parsed =>
      -- Without room for the configuration the parser runs over the buffer, so the step
      -- would have been `dispatchFailed`.
      by_cases room : CfgRoom s.world
      · obtain ⟨r', after, total, stepped⟩ :=
          dispatchCmdBuf_stepped (main.parser running) main.rx.ring some room
        cases parsed.symm.trans total
        obtain ⟨-, rfl, -⟩ | returned := dispatchCmdBuf_returned parsed
        · exact .of_framed framed
        · obtain ⟨sameFrames, after⟩ := framed.parsed (main.parser running) (fine.1 at_pc quiet)
            stream returned.moved stepped
          -- A command that is too long halts the loop, where nothing is claimed any more.
          refine ⟨by rw [sameFrames]; exact inv.firstOf, fun running' => after ?_⟩
          exact fun tooLong => running' _ (by rw [tooLong]; rfl)
      · obtain ⟨why, -, failed⟩ :=
          dispatchCmdBuf_overruns (main.parser running) main.rx.ring room
        cases parsed.symm.trans failed
  | executed at_pc quiet ready r w' executed =>
    have running := running at_pc (by simp)
    exact .of_framed ((inv.framed running).executed (main.parser running) main.rx.ring stream ready
      (fine.2 at_pc) executed)
  | flushed at_pc _ dwords _ w' ctx _ trace =>
    have output : AllOutput [.flush (dwordsBytes (s.world.ctx.pendingDwords.take dwords))] := by
      simp [AllOutput, Event.isOutput]
    refine .of_framed ((inv.framed (running at_pc (by simp))).congr ?_ ?_ _ trace
      (output.presented _) output.consumed_eq)
    all_goals
      rw [ctx, LsejtagCtx.flushedTdo]
      split <;> rfl
  | ran at_pc _ _ w' _ ran =>
    refine .of_framed ((inv.framed (running at_pc (by simp))).congr ?_ ?_ _ ran.trace
      (AllOutput.presented (by simp [AllOutput, Event.isOutput]) _) rfl)
    all_goals
      rw [ran.ctx]
      rfl
  | nothingToRun at_pc => exact .of_framed (inv.framed (running at_pc (by simp)))
  | dispatchFailed | callFailed => exact ⟨inv.firstOf, fun running => absurd rfl (running _)⟩
  | executeFailed at_pc quiet ready why =>
    have running := running at_pc (by simp)
    exact ⟨(inv.framed running).entered (main.parser running) stream ready,
      fun running => absurd rfl (running why)⟩

/-- In every run in which only bytes of the pending command are taken and every
    command leaves the buffer, the commands presented are the first of those the
    host sent, and the bytes consumed are theirs and those of the next one. -/
theorem commands_in_order {s : MainState} (reach : mainLoop.Reach FramingOk s) (cmds : List Cmd)
    (stream : arrived s.world.trace <+: encodeAll cmds) :
    FirstOf (presented s.world.trace).frames cmds ∧
    (s.Running → consumed s.world.trace =
      (presented s.world.trace).frames.flatMap Frame.encode ++
        (if (presented s.world.trace).phase = .done then s.world.taken else [])) := by
  have framed : MainFramed cmds s := by
    revert stream
    refine reach.invariant (P := fun s => LoongsonEjtag.arrived s.world.trace <+: encodeAll cmds →
      MainFramed cmds s) ?_ ?_
    · rintro s rfl -
      exact .of_framed (.fetching [] cmds rfl rfl rfl rfl rfl)
    · intro s s' input reach inv fine stepped stream'
      have main := mainLoop_parserInv reach
      have stepped := mainStep_stepped (mainLoop_inv reach) stepped
      have stream := stepped.arrived.trans stream'
      exact (inv stream).step main (by rw [main.rx.stream]; exact stream) fine stepped
  exact ⟨framed.firstOf, fun running => (framed.framed running).consumed_eq⟩

/-! ## Three commands -/

/-- A DR scan of 32 bits. -/
def drScan : Cmd where
  header := [0x00, 0x14]
  config := [0x20, 0x00]
  payload := [0x01, 0x02, 0x03, 0x04]
  op := .opDrRw
  opIs := by decide
  headerLen := rfl
  configIs := rfl
  payloadIs := by decide

/-- A request for the firmware date. -/
def getFirmwareDate : Cmd where
  header := [0x00, 0x7c]
  config := []
  payload := []
  op := .opGetFirmwareDate
  opIs := by decide
  headerLen := rfl
  configIs := rfl
  payloadIs := rfl

/-- The LED is switched on. -/
def ledOn : Cmd where
  header := [0x01, 0x0c]
  config := []
  payload := []
  op := .opIoManip
  opIs := by decide
  headerLen := rfl
  configIs := rfl
  payloadIs := rfl

/-- The scan arrives in two pieces, the second with the first half of the request
    behind it, and both commands are executed. -/
theorem commands_in_order_scan : ∃ s : MainState,
    (presented s.world.trace).frames = [drScan.toFrame, getFirmwareDate.toFrame] ∧
    FirstOf (presented s.world.trace).frames [drScan, getFirmwareDate] ∧
    (s.Running → consumed s.world.trace =
      (presented s.world.trace).frames.flatMap Frame.encode ++
        (if (presented s.world.trace).phase = .done then s.world.taken else [])) := by
  have ran : (mainLoop.run FramingOk .start
      ([.usbOut [0x00, 0x14, 0x20]] ++ polls 64 1 ++
        [.usbOut [0x00, 0x01, 0x02, 0x03, 0x04, 0x00]] ++ polls 64 4 ++ [.usbOut [0x7c]] ++
        polls 64 2)).any (fun s => decide
          ((presented s.world.trace).frames = [drScan.toFrame, getFirmwareDate.toFrame] ∧
            arrived s.world.trace = encodeAll [drScan, getFirmwareDate])) = true := by
    decide +kernel
  obtain ⟨s, reach, holds⟩ := Lib.Machine.exists_reach _ rfl ran
  obtain ⟨shown, sent⟩ := of_decide_eq_true holds
  exact ⟨s, shown, commands_in_order reach _ (sent ▸ List.prefix_refl _)⟩

theorem FirstOf.headers {frames : List Frame} {cmds : List Cmd} (first : FirstOf frames cmds) :
    frames.map Frame.header <+: cmds.map fun c => c.header := by
  cases first with
  | whole done rest split areFrames =>
    rw [split, areFrames, List.map_map, List.map_append]
    exact List.prefix_append _ _
  | last done c rest split f part areFrames =>
    rw [split, areFrames, List.map_append, List.map_map, List.map_append, List.map_cons,
      List.map_cons, part.header]
    exact (List.prefix_append_right_inj _).mpr ⟨_, rfl⟩

/-- The first 6 bytes of the scan arrive alone, and the second entry of
    `wait_cfg` swallows the request behind the rest: the LED command is presented
    in its place. -/
theorem split_scan_loses_command : ∃ s : MainState, mainLoop.Reachable s ∧
    arrived s.world.trace = encodeAll [drScan, getFirmwareDate, ledOn] ∧
    ¬FirstOf (presented s.world.trace).frames [drScan, getFirmwareDate, ledOn] := by
  have ran : (mainLoop.run anyAction .start
      ([.usbOut [0x00, 0x14, 0x20, 0x00, 0x01, 0x02]] ++ polls 64 1 ++
        [.usbOut [0x03, 0x04, 0x00, 0x7c]] ++ polls 64 1 ++ [.usbOut [0x01, 0x0c]] ++
        polls 64 5)).any (fun s => decide
          (arrived s.world.trace = encodeAll [drScan, getFirmwareDate, ledOn] ∧
            ¬(presented s.world.trace).frames.map Frame.header <+:
              [drScan, getFirmwareDate, ledOn].map fun c => c.header)) = true := by
    decide +kernel
  obtain ⟨s, reach, holds⟩ := Lib.Machine.exists_reach _ rfl ran
  obtain ⟨sent, wrong⟩ := of_decide_eq_true holds
  exact ⟨s, reach, sent, fun first => wrong first.headers⟩

end LoongsonEjtag
