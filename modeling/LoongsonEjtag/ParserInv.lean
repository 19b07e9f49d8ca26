import LoongsonEjtag.Parser

/-! # The parser over whole runs

* `ParserInv` — what the parser's variables are like in each of its states.
* `ParserStepped` — the steps the parser takes from there, with the bytes each
  of them moves.
* `mainLoop_parserInv` — `ParserInv` holds in every state of every run that does
  not stop.
-/

namespace LoongsonEjtag

open Lib (Byte u32 u32_eq sub32 sub32_eq sub32_wrap bind_eq_ok)
open Wire

/-! ## The parser's states -/

/-- A fast command that is being continued. -/
inductive ContInv (ctx : LsejtagCtx) : Prop
  | write (fastdata : Bool)
      (isOp : LsejtagCmdOp.ofCode? ctx.contOp = some (writeOp fastdata))
      (fits : ctx.xfersPerBufblk * (ctx.drseqDwordlen * 4) ≤ 256)
      (partly : ctx.bufferedLength = 0 ∨ ctx.bufferedLength <
        min ctx.xfersPerBufblk ctx.xfersLeft * (ctx.drseqDwordlen * 4)) :
      ContInv ctx
  | read (fastdata : Bool) (isOp : LsejtagCmdOp.ofCode? ctx.contOp = some (readOp fastdata))
      (nothing : ctx.bufferedLength = 0) :
      ContInv ctx

/-- What the parser's variables are like in each of its states. -/
inductive ParserInv (ctx : LsejtagCtx) : Prop
  | clean (state : ctx.cmdBufState = .cbsClean) (fresh : ctx.continuation = false)
      (noWait : ctx.cmdBufWaitPayloadSize = 0) (nothing : ctx.bufferedLength = 0) :
      ParserInv ctx
  | waitHeader (state : ctx.cmdBufState = .cbsWaitHeader) (fresh : ctx.continuation = false)
      (noWait : ctx.cmdBufWaitPayloadSize = 0) (one : ctx.bufferedLength = 1) :
      ParserInv ctx
  | waitCfg (state : ctx.cmdBufState = .cbsWaitCfg) (fresh : ctx.continuation = false)
      (noWait : ctx.cmdBufWaitPayloadSize = 0) (o : LsejtagCmdOp) (isOp : op ctx.cmd = some o)
      (config : 2 < configEnd o ctx.cmd) (header : 2 ≤ ctx.bufferedLength)
      (atMost : ctx.bufferedLength ≤ configEnd o ctx.cmd + 2) :
      ParserInv ctx
  | waitPayload (state : ctx.cmdBufState = .cbsWaitPayload) (fresh : ctx.continuation = false)
      (waits : 0 < ctx.cmdBufWaitPayloadSize) (o : LsejtagCmdOp) (isOp : op ctx.cmd = some o)
      (isKind : o.kind = .payload) (config : configEnd o ctx.cmd ≤ ctx.bufferedLength)
      (counts : ctx.bufferedLength + ctx.cmdBufWaitPayloadSize =
        configEnd o ctx.cmd + bufferedPayloadLen o ctx.cmd)
      (fits : ctx.bufferedLength + ctx.cmdBufWaitPayloadSize ≤ 256) :
      ParserInv ctx
  | ready (state : ctx.cmdBufState = .cbsExecute) (fresh : ctx.continuation = false)
      (noWait : ctx.cmdBufWaitPayloadSize = 0) (o : LsejtagCmdOp) (isOp : op ctx.cmd = some o)
      (header : 2 ≤ ctx.bufferedLength) (bounded : ctx.bufferedLength ≤ 256)
      (fits : configEnd o ctx.cmd + bufferedPayloadLen o ctx.cmd ≤ 256) :
      ParserInv ctx
  | continued (state : ctx.cmdBufState = .cbsExecute) (continues : ctx.continuation = true)
      (noWait : ctx.cmdBufWaitPayloadSize = 0) (cont : ContInv ctx) :
      ParserInv ctx

theorem configEnd_le (o : LsejtagCmdOp) (cmd : List Byte) : 2 ≤ configEnd o cmd :=
  Nat.le_add_right 2 _

theorem configEnd_le_ten (o : LsejtagCmdOp) (cmd : List Byte) : configEnd o cmd ≤ 10 := by
  cases o <;> simp only [configEnd, configLen] <;> grind

theorem bufferedPayloadLen_eq_zero {o : LsejtagCmdOp} (notPayload : o.kind ≠ .payload)
    (cmd : List Byte) : bufferedPayloadLen o cmd = 0 := by
  cases o <;> first | rfl | exact absurd rfl notPayload

/-! ## The parser's steps -/

/-- The header is complete in `middle`, which took `h` bytes to get there.  The
    last argument is the value of `len_avail` at `wait_cfg`: each entry path
    makes something else of it. -/
inductive HeaderFetched (w : World) : Nat → World → Nat → Prop
  | there (state : w.ctx.cmdBufState = .cbsWaitCfg) :
      HeaderFetched w 0 w (w.ctx.bufferedLength + w.rx.length)
  | second (state : w.ctx.cmdBufState = .cbsWaitHeader) (middle : World)
      (parsed : Parsed True w 1 middle .cbsWaitCfg 2 0) :
      HeaderFetched w 1 middle (middle.rx.length + 1)
  | both (state : w.ctx.cmdBufState = .cbsClean) (middle : World)
      (parsed : Parsed True w 2 middle .cbsWaitCfg 2 0) :
      HeaderFetched w 2 middle middle.rx.length

/-- The steps of the parser. -/
inductive ParserStepped (w : World) : LsejtagDispatchResult → World → Prop
  | firstByte (state : w.ctx.cmdBufState = .cbsClean) (one : w.rx.length = 1) (w' : World)
      (parsed : Parsed True w 1 w' .cbsWaitHeader 1 0) :
      ParserStepped w .dprIncomplete w'
  | noByte (state : w.ctx.cmdBufState = .cbsWaitHeader) (noRx : w.rx = []) :
      ParserStepped w .dprIncomplete w
  | unknown {h lenAvail : Nat} (middle : World) (fetched : HeaderFetched w h middle lenAvail)
      (noOp : op middle.ctx.cmd = none) :
      ParserStepped w .dprUnknownCmd { middle with ctx := { middle.ctx with
        bufferedLength := 0, cmdBufState := .cbsClean } }
  | config {h lenAvail : Nat} (middle : World) (fetched : HeaderFetched w h middle lenAvail)
      (o : LsejtagCmdOp) (isOp : op middle.ctx.cmd = some o)
      (entry : CfgEntry middle (configEnd o middle.ctx.cmd) lenAvail) (r : LsejtagDispatchResult)
      (w' : World) (returned : CfgReturned middle o lenAvail r w') :
      ParserStepped w r w'
  | payloadRest (state : w.ctx.cmdBufState = .cbsWaitPayload)
      (short : w.rx.length < w.ctx.cmdBufWaitPayloadSize) (w' : World)
      (parsed : Parsed True w w.rx.length w' .cbsWaitPayload
        (w.ctx.bufferedLength + w.rx.length) (w.ctx.cmdBufWaitPayloadSize - w.rx.length)) :
      ParserStepped w .dprIncomplete w'
  | payload (state : w.ctx.cmdBufState = .cbsWaitPayload)
      (enough : w.ctx.cmdBufWaitPayloadSize ≤ w.rx.length) (w' : World)
      (parsed : Parsed True w w.ctx.cmdBufWaitPayloadSize w' .cbsExecute
        (w.ctx.bufferedLength + w.ctx.cmdBufWaitPayloadSize) 0) :
      ParserStepped w .dprExecute w'
  | ready (state : w.ctx.cmdBufState = .cbsExecute) : ParserStepped w .dprExecute w

section steps

variable {w w' : World} {r : LsejtagDispatchResult}

theorem fetchHeader_total (w : World) (len buffered : Nat) (state : LsejtagCmdBufState)
    (noWait : w.ctx.cmdBufWaitPayloadSize = 0) (available : len ≤ w.rx.length)
    (inside : w.ctx.bufferedLength + len ≤ 256) :
    ∃ w', fetchHeader w w.ctx.bufferedLength len buffered state = .ok w' ∧
      Parsed True w len w' state buffered 0 := by
  obtain ⟨after, consumed, parsed⟩ := consume_total w len (by omega)
  rw [Nat.min_eq_left available, noWait] at parsed
  refine ⟨_, by rw [fetchHeader, consumed]; rfl, ?_⟩
  have counted := (parsed.set state 0).count buffered
  have same : after.ctx.cmdBufWaitPayloadSize = 0 := parsed.waiting
  rw [← same] at counted ⊢
  exact counted.weaken fun _ => available

/-- Behind a header that was fetched just now, `wait_cfg` is entered with two
    bytes in the buffer. -/
theorem cfgEntry_header {middle : World} {k lenAvail : Nat}
    (parsed : Parsed True w k middle .cbsWaitCfg 2 0) (o : LsejtagCmdOp)
    (ring : w.rx.length ≤ 256) (least : middle.rx.length ≤ lenAvail)
    (most : lenAvail ≤ middle.rx.length + 1) :
    CfgEntry middle (configEnd o middle.ctx.cmd) lenAvail := by
  have rx : middle.rx.length = w.rx.length - k := by rw [parsed.took.rx, List.length_drop]
  have low := configEnd_le o middle.ctx.cmd
  have buffered := parsed.buffered
  constructor <;> try omega
  · exact parsed.state
  · exact parsed.waiting
  · exact configEnd_le_ten o _

/-- The step behind the header. -/
theorem headerFetched_stepped {middle : World} {h lenAvail : Nat}
    (fetched : HeaderFetched w h middle lenAvail)
    (entry : ∀ o, op middle.ctx.cmd = some o →
      CfgEntry middle (configEnd o middle.ctx.cmd) lenAvail) :
    ∃ r w', waitCfg middle middle.rx.length lenAvail = .ok (r, w') ∧ ParserStepped w r w' := by
  cases isOp : op middle.ctx.cmd with
  | none => exact ⟨_, _, by simp only [waitCfg, isOp], .unknown middle fetched isOp⟩
  | some o =>
    obtain ⟨r, w', waited, returned⟩ := waitCfg_total isOp (entry o isOp)
    exact ⟨r, w', waited, .config middle fetched o isOp (entry o isOp) r w' returned⟩

/-- There is room for the ring behind a section that is already exceeded. -/
def CfgRoom (w : World) : Prop :=
  w.ctx.cmdBufState = .cbsWaitCfg → ∀ o ∈ op w.ctx.cmd,
    configEnd o w.ctx.cmd < w.ctx.bufferedLength → w.ctx.bufferedLength + w.rx.length ≤ 256

theorem dispatchCmdBuf_stepped (inv : ParserInv w.ctx) (ring : w.rx.length ≤ 256)
    (some : ¬(w.rx = [] ∧ w.ctx.bufferedLength = 0)) (room : CfgRoom w) :
    ∃ r w', dispatchCmdBuf w = .ok (r, w') ∧ ParserStepped w r w' := by
  simp only [dispatchCmdBuf]
  cases inv with
  | clean state _ noWait nothing =>
    have avail : w.rx.length ≠ 0 := fun zero => some ⟨List.length_eq_zero_iff.mp zero, nothing⟩
    simp only [state, if_neg avail]
    split
    · rename_i one
      obtain ⟨w', fetched, parsed⟩ := fetchHeader_total w 1 1 .cbsWaitHeader noWait (by omega)
        (by omega)
      rw [nothing] at fetched
      exact ⟨_, w', by rw [fetched, Lib.ok_bind], .firstByte state one w' parsed⟩
    · -- Both bytes of the header, and on to the section with what is left of the ring.
      obtain ⟨middle, fetched, parsed⟩ := fetchHeader_total w 2 2 .cbsWaitCfg noWait (by omega)
        (by omega)
      have rx : middle.rx.length = w.rx.length - 2 := by rw [parsed.took.rx, List.length_drop]
      have lenRx : sub32 w.rx.length 2 = middle.rx.length := by rw [rx, sub32_eq] <;> omega
      rw [nothing] at fetched
      rw [nothing, Nat.add_zero, u32_eq (by omega), fetched, Lib.ok_bind, lenRx]
      exact headerFetched_stepped (.both state middle parsed) fun o _ =>
        cfgEntry_header parsed o ring (by omega) (by omega)
  | waitHeader state _ noWait one =>
    simp only [state]
    split
    · rename_i none
      exact ⟨_, w, rfl, .noByte state (List.length_eq_zero_iff.mp none)⟩
    · obtain ⟨middle, fetched, parsed⟩ := fetchHeader_total w 1 2 .cbsWaitCfg noWait (by omega)
        (by omega)
      have rx : middle.rx.length = w.rx.length - 1 := by rw [parsed.took.rx, List.length_drop]
      have lenRx : sub32 w.rx.length 1 = middle.rx.length := by rw [rx, sub32_eq] <;> omega
      have lenAvail : sub32 (u32 (w.rx.length + 1)) 1 = middle.rx.length + 1 := by
        rw [u32_eq (by omega), sub32_eq (by omega) (by omega)]
        omega
      rw [one] at fetched
      rw [one, fetched, Lib.ok_bind, lenRx, lenAvail]
      exact headerFetched_stepped (.second state middle parsed) fun o _ =>
        cfgEntry_header parsed o ring (by omega) (by omega)
  | waitCfg state _ noWait o isOp config header atMost =>
    have small := configEnd_le_ten o w.ctx.cmd
    simp only [state]
    rw [Nat.add_comm, u32_eq (by omega)]
    -- On this entry `len_avail` includes the header, behind the two others it does not.
    refine headerFetched_stepped (.there state) fun o' isOp' => ?_
    cases isOp.symm.trans isOp'
    exact ⟨state, noWait, header, atMost, small, ring, Nat.le_refl _, by omega, fun _ => rfl,
      by omega, room state o isOp⟩
  | waitPayload state _ waits o isOp isKind config counts fits =>
    simp only [state]
    obtain ⟨w', waited⟩ := waitPayload_total fits
    rw [state] at waited
    split at waited
    · exact ⟨_, w', waited.1, .payloadRest state ‹_› w' waited.2⟩
    · exact ⟨_, w', waited.1, .payload state (by omega) w' waited.2⟩
  | ready state | continued state => simp only [state]; exact ⟨_, w, rfl, .ready state⟩

theorem consume_overruns {c : Nat} (beyond : c < w.ctx.bufferedLength)
    (small : w.ctx.bufferedLength ≤ 256) (ring : w.rx.length ≤ 256)
    (noRoom : 256 < w.ctx.bufferedLength + w.rx.length) :
    lsejtagImplUsbrxConsume w w.ctx.bufferedLength (sub32 c w.ctx.bufferedLength) =
      .error (.consumeOverrun w.ctx.bufferedLength (sub32 c w.ctx.bufferedLength) w.rx.length) := by
  have wraps := sub32_wrap beyond (by omega)
  have all : w.rx.take (sub32 c w.ctx.bufferedLength) = w.rx :=
    List.take_of_length_le (by rw [wraps]; omega)
  simp only [lsejtagImplUsbrxConsume, copyToCmd, all, dif_neg (Nat.not_le_of_lt noRoom)]

theorem waitFastCfg_overruns {c lenRx lenAvail : Nat} {why : Halt} (enough : c < lenAvail)
    (fails : lsejtagImplUsbrxConsume w w.ctx.bufferedLength (sub32 c w.ctx.bufferedLength) =
      .error why) : waitFastCfg w c lenRx lenAvail = .error why := by
  simp only [waitFastCfg, gt_iff_lt, if_pos enough, bufferMore, fails]
  rfl

/-- Every section's own consume fails if it runs past the command buffer. -/
theorem waitCfg_overruns {o : LsejtagCmdOp} {lenRx lenAvail : Nat} {why : Halt}
    (isOp : op w.ctx.cmd = some o) (config : 2 < configEnd o w.ctx.cmd)
    (enough : configEnd o w.ctx.cmd < lenAvail)
    (fails : lsejtagImplUsbrxConsume w w.ctx.bufferedLength
      (sub32 (configEnd o w.ctx.cmd) w.ctx.bufferedLength) = .error why) :
    waitCfg w lenRx lenAvail = .error why := by
  simp only [waitCfg, isOp]
  cases o with
  | opProbeMemRw | opIoManip | opGetFirmwareDate => exact absurd config (Nat.lt_irrefl 2)
  | opIrRw | opDrRw =>
    have enough : 4 < lenAvail := enough
    have fails : lsejtagImplUsbrxConsume w w.ctx.bufferedLength
      (sub32 4 w.ctx.bufferedLength) = .error why := fails
    simp only [waitIrdrCfg, gt_iff_lt, if_pos enough, bufferMore, fails]
    rfl
  | opLoopbackTest =>
    have enough : 6 < lenAvail := enough
    have fails : lsejtagImplUsbrxConsume w w.ctx.bufferedLength
      (sub32 6 w.ctx.bufferedLength) = .error why := fails
    simp only [waitLoopbackCfg, gt_iff_lt, if_pos enough, fails]
    rfl
  | opFastTargetMemWriteFastdata | opFastTargetMemWrite =>
    simp only [fastCfgEnd_eq]
    exact waitFastCfg_overruns enough fails
  | opFastTargetMemReadFastdata | opFastTargetMemRead => exact waitFastCfg_overruns enough fails

/-- Without that room the swallowed ring runs past the command buffer. -/
theorem dispatchCmdBuf_overruns (inv : ParserInv w.ctx) (ring : w.rx.length ≤ 256)
    (noRoom : ¬CfgRoom w) : ∃ why : Halt, why.IsOverrun ∧ dispatchCmdBuf w = .error why := by
  simp only [CfgRoom, not_forall, Nat.not_le] at noRoom
  obtain ⟨state, o, isOp, beyond, noRoom⟩ := noRoom
  have isOp : op w.ctx.cmd = some o := isOp
  cases inv with
  | waitCfg _ _ _ o' isOp' config header atMost =>
    cases isOp.symm.trans isOp'
    have small := configEnd_le_ten o w.ctx.cmd
    have fails := consume_overruns beyond (by omega) ring noRoom
    have overruns : waitCfg w w.rx.length (u32 (w.rx.length + w.ctx.bufferedLength)) = _ :=
      waitCfg_overruns isOp config (by rw [u32_eq (by omega)]; omega) fails
    refine ⟨.consumeOverrun w.ctx.bufferedLength
      (sub32 (configEnd o w.ctx.cmd) w.ctx.bufferedLength) w.rx.length, trivial, ?_⟩
    simp only [dispatchCmdBuf, state, overruns]
  | _ state' => simp [state] at state'

end steps

/-! ## The invariant, step by step -/

/-- The invariant is about the command buffer and the continuation only. -/
theorem ParserInv.congr {ctx ctx' : LsejtagCtx} (inv : ParserInv ctx)
    (cmdBuf : ctx'.toCmdBuf = ctx.toCmdBuf) (cont : ctx'.toContCtx = ctx.toContCtx) :
    ParserInv ctx' := by
  obtain ⟨buf, _, fields, _, _, _, _⟩ := ctx
  obtain ⟨buf', _, fields', _, _, _, _⟩ := ctx'
  cases cmdBuf
  cases cont
  cases inv with
  | clean state fresh noWait nothing => exact .clean state fresh noWait nothing
  | waitHeader state fresh noWait one => exact .waitHeader state fresh noWait one
  | waitCfg state fresh noWait o isOp config header atMost =>
    exact .waitCfg state fresh noWait o isOp config header atMost
  | waitPayload state fresh waits o isOp isKind config counts fits =>
    exact .waitPayload state fresh waits o isOp isKind config counts fits
  | ready state fresh noWait o isOp header bounded fits =>
    exact .ready state fresh noWait o isOp header bounded fits
  | continued state continues noWait cont =>
    refine .continued state continues noWait ?_
    cases cont with
    | write fastdata isOp fits partly => exact .write fastdata isOp fits partly
    | read fastdata isOp nothing => exact .read fastdata isOp nothing

theorem ParserInv.fresh {ctx : LsejtagCtx} (inv : ParserInv ctx)
    (notReady : ctx.cmdBufState ≠ .cbsExecute) : ctx.continuation = false := by
  cases inv with
  | clean _ fresh | waitHeader _ fresh | waitCfg _ fresh | waitPayload _ fresh | ready _ fresh =>
    exact fresh
  | continued state => exact absurd state notReady

theorem ParserInv.cont {ctx : LsejtagCtx} (inv : ParserInv ctx)
    (continues : ctx.continuation = true) : ContInv ctx := by
  cases inv with
  | clean _ fresh | waitHeader _ fresh | waitCfg _ fresh | waitPayload _ fresh | ready _ fresh =>
    simp [fresh] at continues
  | continued _ _ _ cont => exact cont

theorem ParserInv.noWait {ctx : LsejtagCtx} (inv : ParserInv ctx)
    (ready : ctx.cmdBufState = .cbsExecute) : ctx.cmdBufWaitPayloadSize = 0 := by
  cases inv with
  | ready _ _ noWait | continued _ _ noWait => exact noWait
  | _ state => simp [ready] at state

theorem HeaderFetched.notReady {w middle : World} {h lenAvail : Nat}
    (fetched : HeaderFetched w h middle lenAvail) : w.ctx.cmdBufState ≠ .cbsExecute := by
  cases fetched <;> simp_all

section config

variable {w w' : World} {r : LsejtagDispatchResult}

/-- The header stays while the buffer grows. -/
theorem Took.op {k : Nat} (took : Took w k w') (header : 2 ≤ w.ctx.bufferedLength) :
    Wire.op w'.ctx.cmd = Wire.op w.ctx.cmd := by
  rw [← op_take w'.ctx.cmd (Nat.le_refl 2), took.take_cmd header, op_take _ (Nat.le_refl 2)]

theorem Took.configEnd {k : Nat} (took : Took w k w') (header : 2 ≤ w.ctx.bufferedLength)
    (o : LsejtagCmdOp) : Wire.configEnd o w'.ctx.cmd = Wire.configEnd o w.ctx.cmd := by
  rw [← configEnd_take w'.ctx.cmd o (Nat.le_refl 2), took.take_cmd header,
    configEnd_take _ o (Nat.le_refl 2)]

theorem Took.bufferedPayloadLen {k : Nat} (took : Took w k w') {o : LsejtagCmdOp}
    (config : Wire.configEnd o w.ctx.cmd ≤ w.ctx.bufferedLength) :
    Wire.bufferedPayloadLen o w'.ctx.cmd = Wire.bufferedPayloadLen o w.ctx.cmd := by
  have sameEnd := took.configEnd ((configEnd_le o _).trans config) o
  rw [← bufferedPayloadLen_take w'.ctx.cmd o (sameEnd.le.trans config),
    took.take_cmd (Nat.le_refl _), bufferedPayloadLen_take _ o config]

/-- The bytes a parser step took are those the trace says it consumed. -/
theorem ParserMoved.took {k : Nat} (moved : ParserMoved w w')
    (took : Took w k w') : consumed w'.trace = consumed w.trace ++ w.rx.take k := by
  have bytes := moved.bytes
  rw [took.rx] at bytes
  conv at bytes => rhs; rw [← List.take_append_drop k w.rx, ← List.append_assoc]
  exact List.append_cancel_right bytes

theorem CfgReturned.inv {o : LsejtagCmdOp} {lenAvail : Nat}
    (entry : CfgEntry w (configEnd o w.ctx.cmd) lenAvail) (isOp : op w.ctx.cmd = some o)
    (fresh : w'.ctx.continuation = false) (returned : CfgReturned w o lenAvail r w')
    (fine : r ≠ .dprTooLong) : ParserInv w'.ctx := by
  obtain ⟨state, buffered, waiting, k, parsed, stage⟩ := returned
  have sameOp := (parsed.took.op entry.header).trans isOp
  have sameEnd := parsed.took.configEnd entry.header o
  have low := configEnd_le o w.ctx.cmd
  have bufferedIs := parsed.buffered
  have waitingIs := parsed.waiting
  obtain ⟨-, -, header, atMost, small, -, avail, slack, -, noConfig, -⟩ := entry
  have noPayload : o.kind ≠ .payload →
      configEnd o w'.ctx.cmd + bufferedPayloadLen o w'.ctx.cmd ≤ 256 := fun notPayload => by
    have none := bufferedPayloadLen_eq_zero notPayload w'.ctx.cmd
    omega
  cases stage with
  | bare isKind =>
    exact .ready parsed.state fresh waitingIs o sameOp (by omega) (by omega)
      (noPayload (by simp [isKind]))
  | rest config short =>
    exact .waitCfg parsed.state fresh waitingIs o sameOp (by omega) (by omega) (by omega)
  | tooLong => exact absurd rfl fine
  | payloadRest isKind configured fits short =>
    exact .waitPayload parsed.state fresh (by omega) o sameOp isKind (by omega) (by omega)
      (by omega)
  | payload => exact .ready parsed.state fresh waitingIs o sameOp (by omega) (by omega) (by omega)
  | loopback isKind | fast isKind =>
    exact .ready parsed.state fresh waitingIs o sameOp (by omega) (by omega)
      (noPayload (by simp [isKind]))

theorem ParserStepped.inv (inv : ParserInv w.ctx)
    (cont : w'.ctx.toContCtx = w.ctx.toContCtx) (stepped : ParserStepped w r w')
    (fine : r ≠ .dprTooLong) : ParserInv w'.ctx := by
  have stillFresh : w.ctx.cmdBufState ≠ .cbsExecute → w'.ctx.continuation = false := fun notReady =>
    (congrArg ContCtx.continuation cont).trans (inv.fresh notReady)
  cases stepped with
  | firstByte state _ _ parsed =>
    exact .waitHeader parsed.state (stillFresh (by simp [state])) parsed.waiting parsed.buffered
  | noByte => exact inv
  | unknown middle fetched =>
    refine .clean rfl (stillFresh fetched.notReady) ?_ rfl
    cases fetched with
    | there state =>
      cases inv with
      | waitCfg _ _ noWait => exact noWait
      | _ state' => simp [state] at state'
    | second _ _ parsed => exact parsed.waiting
    | both _ _ parsed => exact parsed.waiting
  | config middle fetched o isOp entry _ _ returned =>
    exact returned.inv entry isOp (stillFresh fetched.notReady) fine
  | payloadRest state short _ parsed =>
    -- The section is buffered already, so more bytes do not change what it says.
    cases inv with
    | waitPayload _ fresh waits o isOp isKind config counts fits =>
      have header : 2 ≤ w.ctx.bufferedLength := (configEnd_le o _).trans config
      have samePayload := parsed.took.bufferedPayloadLen config
      have bufferedIs := parsed.buffered
      have waitingIs := parsed.waiting
      have sameEnd := parsed.took.configEnd header o
      exact .waitPayload parsed.state (stillFresh (by simp [state])) (by omega) o
        ((parsed.took.op header).trans isOp) isKind (by omega) (by omega) (by omega)
    | _ state' => simp [state] at state'
  | payload state enough _ parsed =>
    cases inv with
    | waitPayload _ fresh waits o isOp isKind config counts fits =>
      have header : 2 ≤ w.ctx.bufferedLength := (configEnd_le o _).trans config
      have bufferedIs := parsed.buffered
      have sameEnd := parsed.took.configEnd header o
      have samePayload := parsed.took.bufferedPayloadLen config
      exact .ready parsed.state (stillFresh (by simp [state])) parsed.waiting o
        ((parsed.took.op header).trans isOp) (by omega) (by omega) (by omega)
    | _ state' => simp [state] at state'
  | ready => exact inv

end config

/-! ## Continuations -/

theorem writeOp_ne_readOp (fastdata fastdata' : Bool) : writeOp fastdata ≠ readOp fastdata' := by
  cases fastdata <;> cases fastdata' <;> decide

/-- A consume and the count behind it. -/
theorem bufferMore_eq_ok {w w' : World} {len : Nat} (fed : bufferMore w len = .ok w') :
    ∃ after, lsejtagImplUsbrxConsume w w.ctx.bufferedLength len = .ok after ∧
      w' = { after with ctx := { after.ctx with
        bufferedLength := u32 (w.ctx.bufferedLength + len) } } := by
  obtain ⟨after, consumed, finished⟩ := bind_eq_ok.mp fed
  refine ⟨after, consumed, ?_⟩
  obtain ⟨buf, -, rfl⟩ := lsejtagImplUsbrxConsume_ok consumed
  exact (Except.ok.inj finished).symm

/-- Fetching payload for a block takes what is missing of it, or the whole ring
    if that is less. -/
theorem fetchPayload_total {w : World} (ring : w.rx.length ≤ 256)
    (partly : w.ctx.bufferedLength ≤ blockBytes w.ctx) (fits : blockBytes w.ctx ≤ 256) :
    ∃ complete w' k, fetchPayload w = .ok (complete, w') ∧
      Parsed True w k w' w.ctx.cmdBufState (w.ctx.bufferedLength + k)
        w.ctx.cmdBufWaitPayloadSize ∧
      (if complete then w.ctx.bufferedLength + k = blockBytes w.ctx
        else k = w.rx.length ∧ w.ctx.bufferedLength + k < blockBytes w.ctx) := by
  have sum : u32 (w.ctx.bufferedLength + w.rx.length) = w.ctx.bufferedLength + w.rx.length :=
    u32_eq (by omega)
  simp only [fetchPayload, sum]
  split
  · rename_i missing
    split
    · rename_i enough
      obtain ⟨w', fed, parsed⟩ := bufferMore_exact w (blockBytes w.ctx - w.ctx.bufferedLength)
        (by omega) (by omega)
      obtain ⟨after, consumed, rfl⟩ := bufferMore_eq_ok fed
      rw [sub32_eq partly (by omega), consumed]
      exact ⟨true, _, _, rfl, parsed, by simp only [if_true]; omega⟩
    · rename_i short
      obtain ⟨w', fed, parsed⟩ := bufferMore_exact w w.rx.length (Nat.le_refl _) (by omega)
      obtain ⟨after, consumed, rfl⟩ := bufferMore_eq_ok fed
      rw [sum] at parsed
      rw [consumed]
      refine ⟨false, _, _, rfl, parsed, ?_⟩
      rw [if_neg Bool.false_ne_true]
      exact ⟨rfl, Nat.lt_of_not_ge short⟩
  · exact ⟨true, w, 0, rfl, ⟨.refl (by omega), rfl, rfl, rfl, [], by simp, by simp⟩,
      by simp only [if_true]; omega⟩

/-- The payload of a truncated block. -/
theorem blockBytes_truncateXfers {ctx : LsejtagCtx}
    (fits : ctx.xfersPerBufblk * (ctx.drseqDwordlen * 4) ≤ 256) :
    blockBytes (truncateXfers ctx) =
      min ctx.xfersPerBufblk ctx.xfersLeft * (ctx.drseqDwordlen * 4) ∧
    blockBytes (truncateXfers ctx) ≤ 256 := by
  have fewer : min ctx.xfersPerBufblk ctx.xfersLeft * (ctx.drseqDwordlen * 4) ≤ 256 :=
    (Nat.mul_le_mul_right _ (Nat.min_le_left _ _)).trans fits
  rw [blockBytes, xfersPerBufblk_truncateXfers, drseqDwordlen_truncateXfers, u32_eq (by omega)]
  exact ⟨rfl, fewer⟩

/-- What a fast write fetches for its next block. -/
theorem fetchPayload_write {w : World} (ring : w.rx.length ≤ 256)
    (fits : w.ctx.xfersPerBufblk * (w.ctx.drseqDwordlen * 4) ≤ 256)
    (partly : w.ctx.bufferedLength = 0 ∨ w.ctx.bufferedLength <
      min w.ctx.xfersPerBufblk w.ctx.xfersLeft * (w.ctx.drseqDwordlen * 4)) :
    let block := min w.ctx.xfersPerBufblk w.ctx.xfersLeft * (w.ctx.drseqDwordlen * 4)
    ∃ complete w' k, fetchPayload { w with ctx := truncateXfers w.ctx } = .ok (complete, w') ∧
      Parsed True { w with ctx := truncateXfers w.ctx } k w' w.ctx.cmdBufState
        (w.ctx.bufferedLength + k) w.ctx.cmdBufWaitPayloadSize ∧
      (if complete then w.ctx.bufferedLength + k = block
        else k = w.rx.length ∧ w.ctx.bufferedLength + k < block) := by
  obtain ⟨size, bounded⟩ := blockBytes_truncateXfers fits
  have same : (truncateXfers w.ctx).toCmdBuf = w.ctx.toCmdBuf := toCmdBuf_truncateXfers w.ctx
  have total := fetchPayload_total (w := { w with ctx := truncateXfers w.ctx }) ring
    (by rw [same]; exact (show w.ctx.bufferedLength ≤ blockBytes (truncateXfers w.ctx) by omega))
    bounded
  simpa only [same, size] using total

theorem finishXfers_cases {w w' : World} {r : LsejtagCmdExecResult}
    (ends : (r, w') = finishXfers w) :
    (w.ctx.xfersLeft = 0 ∧ r = .cerSuccess ∧
      w' = { w with ctx := { cmdBufClean w.ctx with continuation := false } }) ∨
    (w.ctx.xfersLeft ≠ 0 ∧ r = .cerContinue ∧ w' = w) := by
  rw [finishXfers] at ends
  split at ends
  · cases ends
    exact .inl ⟨‹_›, rfl, rfl⟩
  · cases ends
    exact .inr ⟨‹_›, rfl, rfl⟩

theorem fastMemWriteSetup_fits (ctx : LsejtagCtx) (fastdata : Bool) :
    (fastMemWriteSetup ctx fastdata).xfersPerBufblk *
      ((fastMemWriteSetup ctx fastdata).drseqDwordlen * 4) ≤ 256 := by
  refine le_trans (Nat.mul_le_mul_right _ ?_) (Nat.div_mul_le_self 256 _)
  exact (Nat.min_le_right _ _).trans (Nat.min_le_left _ _)

section executed

variable {w w' : World} {r : LsejtagCmdExecResult}

/-- A continuation that placed a block either ends its command or goes on. -/
theorem parserInv_finishXfers {middle : World} (ends : (r, w') = finishXfers middle)
    (inv : ParserInv middle.ctx) : ParserInv w'.ctx := by
  obtain ⟨-, -, rfl⟩ | ⟨-, -, rfl⟩ := finishXfers_cases ends
  · exact .clean rfl rfl rfl rfl
  · exact inv

/-- A fetch by a fast write, and what it leaves of the continuation. -/
theorem PayloadFetched.write {complete : Bool} (ring : w.rx.length ≤ 256)
    (fits : w.ctx.xfersPerBufblk * (w.ctx.drseqDwordlen * 4) ≤ 256)
    (partly : w.ctx.bufferedLength = 0 ∨ w.ctx.bufferedLength <
      min w.ctx.xfersPerBufblk w.ctx.xfersLeft * (w.ctx.drseqDwordlen * 4))
    (fetched : PayloadFetched { w with ctx := truncateXfers w.ctx } complete w') :
    let block := min w.ctx.xfersPerBufblk w.ctx.xfersLeft * (w.ctx.drseqDwordlen * 4)
    w'.ctx.toContCtx = (truncateXfers w.ctx).toContCtx ∧
    ∃ k, Parsed True { w with ctx := truncateXfers w.ctx } k w' w.ctx.cmdBufState
        (w.ctx.bufferedLength + k) w.ctx.cmdBufWaitPayloadSize ∧
      (if complete then w.ctx.bufferedLength + k = block
        else k = w.rx.length ∧ w.ctx.bufferedLength + k < block) := by
  obtain ⟨complete', after, k, total, parsed, counts⟩ := fetchPayload_write ring fits partly
  cases fetched.returns.symm.trans total
  exact ⟨fetched.moved.cont, k, parsed, counts⟩

theorem parserInv_placedWrite (blk : JtagbufBlk) (left : Nat) {fastdata : Bool}
    (state : w.ctx.cmdBufState = .cbsExecute) (continues : w.ctx.continuation = true)
    (noWait : w.ctx.cmdBufWaitPayloadSize = 0)
    (isOp : LsejtagCmdOp.ofCode? w.ctx.contOp = some (writeOp fastdata))
    (fits : w.ctx.xfersPerBufblk * (w.ctx.drseqDwordlen * 4) ≤ 256) :
    ParserInv (w.placed blk 0 left).ctx :=
  .continued state continues noWait (.write fastdata isOp fits (.inl rfl))

theorem parserInv_placedRead (blk : JtagbufBlk) (left : Nat) {fastdata : Bool}
    (state : w.ctx.cmdBufState = .cbsExecute) (continues : w.ctx.continuation = true)
    (noWait : w.ctx.cmdBufWaitPayloadSize = 0)
    (isOp : LsejtagCmdOp.ofCode? w.ctx.contOp = some (readOp fastdata))
    (nothing : w.ctx.bufferedLength = 0) :
    ParserInv (w.placed blk w.ctx.bufferedLength left).ctx :=
  .continued state continues noWait (.read fastdata isOp nothing)

/-- What the continuation context is like after a truncation. -/
theorem contCtx_truncated {ctx ctx' : LsejtagCtx}
    (same : ctx'.toContCtx = (truncateXfers ctx).toContCtx) :
    ctx'.xfersPerBufblk = min ctx.xfersPerBufblk ctx.xfersLeft ∧
    ctx'.drseqDwordlen = ctx.drseqDwordlen ∧ ctx'.xfersLeft = ctx.xfersLeft ∧
    ctx'.contOp = ctx.contOp ∧ ctx'.continuation = ctx.continuation := by
  rw [same]
  simp

/-- Where a fast write stands when it is continued. -/
theorem ParserInv.writing {ctx : LsejtagCtx} {fastdata : Bool} (inv : ParserInv ctx)
    (continues : ctx.continuation = true)
    (isOp : LsejtagCmdOp.ofCode? ctx.contOp = some (writeOp fastdata)) :
    ctx.xfersPerBufblk * (ctx.drseqDwordlen * 4) ≤ 256 ∧
    (ctx.bufferedLength = 0 ∨ ctx.bufferedLength <
      min ctx.xfersPerBufblk ctx.xfersLeft * (ctx.drseqDwordlen * 4)) := by
  obtain ⟨_, _, fits, partly⟩ | ⟨_, other⟩ := inv.cont continues
  · exact ⟨fits, partly⟩
  · exact absurd (Option.some.inj (isOp.symm.trans other)) (writeOp_ne_readOp _ _)

theorem ParserInv.executed (inv : ParserInv w.ctx) (ring : w.rx.length ≤ 256)
    (state : w.ctx.cmdBufState = .cbsExecute) (executed : Executed w r w') :
    ParserInv w'.ctx := by
  have noWait := inv.noWait state
  cases executed with
  | awaitTx => exact inv
  | awaitFlush => exact inv.congr rfl rfl
  | answered fresh => exact .clean rfl fresh rfl rfl
  | tapReset fresh => exact .clean rfl fresh rfl rfl
  | kept => exact inv
  | scanned fresh => exact .clean rfl fresh rfl rfl
  | writeStarted _ fastdata isOp =>
    exact .continued state rfl noWait
      (.write fastdata isOp (fastMemWriteSetup_fits w.ctx fastdata) (.inl rfl))
  | readStarted _ fastdata isOp => exact .continued state rfl noWait (.read fastdata isOp rfl)
  | payloadShort continues fastdata isOp _ fetched =>
    obtain ⟨fits, partly⟩ := inv.writing continues isOp
    obtain ⟨sameCont, k, parsed, -, short⟩ := fetched.write ring fits partly
    obtain ⟨xfers, size, left, stillOp, still⟩ := contCtx_truncated sameCont
    refine .continued (parsed.state.trans state) (still.trans continues)
      (parsed.waiting.trans noWait) (.write fastdata (stillOp ▸ isOp) ?_ (.inr ?_))
    · rw [xfers, size]
      exact (Nat.mul_le_mul_right _ (Nat.min_le_left _ _)).trans fits
    · rw [parsed.buffered, xfers, size, left, Nat.min_assoc, Nat.min_self]
      exact short
  | blockWritten continues fastdata isOp middle fetched tdi _ _ _ ends =>
    obtain ⟨fits, partly⟩ := inv.writing continues isOp
    obtain ⟨sameCont, k, parsed, -⟩ := fetched.write ring fits partly
    obtain ⟨xfers, size, -, stillOp, still⟩ := contCtx_truncated sameCont
    refine parserInv_finishXfers ends (parserInv_placedWrite _ _ (parsed.state.trans state)
      (still.trans continues) (parsed.waiting.trans noWait) (stillOp ▸ isOp) ?_)
    rw [xfers, size]
    exact (Nat.mul_le_mul_right _ (Nat.min_le_left _ _)).trans fits
  | readFull => exact inv.congr rfl rfl
  | blockRead continues fastdata isOp _ _ _ ends =>
    obtain ⟨_, other, -⟩ | ⟨_, _, nothing⟩ := inv.cont continues
    · exact absurd (Option.some.inj (other.symm.trans isOp)) (writeOp_ne_readOp _ _)
    · exact parserInv_finishXfers ends
        (parserInv_placedRead _ _ state continues noWait isOp nothing)
  | badContinue => exact inv

end executed

/-! ## The RX ring -/

/-- `w'` differs from `w` by output, and perhaps by its context. -/
structure OutputOnly (w w' : World) : Prop where
  rx : w'.rx = w.rx
  trace : ∃ es, w'.trace = w.trace ++ es ∧ AllOutput es

theorem OutputOnly.same {w w' : World} (rx : w'.rx = w.rx) (trace : w'.trace = w.trace) :
    OutputOnly w w' :=
  ⟨rx, [], by rw [trace, List.append_nil], fun _ member => by cases member⟩

theorem outputOnly_placed {w w' : World} {blk : JtagbufBlk} {buffered left : Nat}
    {r : LsejtagCmdExecResult} (ends : (r, w') = finishXfers (w.placed blk buffered left)) :
    OutputOnly w w' := by
  obtain ⟨-, sameTrace, sameRx⟩ := finishXfers_same ends
  exact ⟨sameRx, [.prepared blk.seq], sameTrace, by simp [AllOutput, Event.isOutput]⟩

/-- A command takes bytes from the ring only where a fast write fetches its
    payload. -/
theorem Executed.fetches {w w' : World} {r : LsejtagCmdExecResult} (executed : Executed w r w') :
    OutputOnly w w' ∨ ∃ fastdata complete middle, w.ctx.continuation = true ∧
      LsejtagCmdOp.ofCode? w.ctx.contOp = some (writeOp fastdata) ∧
      PayloadFetched { w with ctx := truncateXfers w.ctx } complete middle ∧
      OutputOnly middle w' := by
  cases executed with
  | awaitTx | awaitFlush | kept | readFull | badContinue => exact .inl (.same rfl rfl)
  | answered _ _ _ _ es answers | tapReset _ _ _ es answers =>
    exact .inl ⟨rfl, es, rfl, answers.allOutput⟩
  | scanned | writeStarted | readStarted =>
    exact .inl ⟨rfl, _, rfl, by simp [AllOutput, Event.isOutput]⟩
  | payloadShort continues fastdata isOp _ fetched =>
    exact .inr ⟨fastdata, false, w', continues, isOp, fetched, .same rfl rfl⟩
  | blockWritten continues fastdata isOp middle fetched _ _ _ _ ends =>
    exact .inr ⟨fastdata, true, middle, continues, isOp, fetched, outputOnly_placed ends⟩
  | blockRead _ _ _ _ _ _ ends => exact .inl (outputOnly_placed ends)

/-- Bytes leave the ring only by being consumed, and none arrives. -/
structure RxKept (w w' : World) : Prop where
  bytes : consumed w'.trace ++ w'.rx = consumed w.trace ++ w.rx
  trace : ∃ es, w'.trace = w.trace ++ es ∧ arrived es = []

namespace RxKept

variable {w w' w'' : World}

theorem silent {es : List Event} (rx : w'.rx = w.rx) (trace : w'.trace = w.trace ++ es)
    (consumes : consumed es = []) (arrives : arrived es = []) : RxKept w w' :=
  ⟨by rw [trace, rx, consumed_append, consumes, List.append_nil], es, trace, arrives⟩

theorem trans (first : RxKept w w') (second : RxKept w' w'') : RxKept w w'' := by
  obtain ⟨es, trace, arrives⟩ := first.trace
  obtain ⟨fs, trace', arrives'⟩ := second.trace
  exact ⟨second.bytes.trans first.bytes, es ++ fs, by rw [trace', trace, List.append_assoc],
    by rw [arrived_append, arrives, arrives', List.append_nil]⟩

theorem rx_le (kept : RxKept w w') : w'.rx.length ≤ w.rx.length := by
  obtain ⟨bytes, es, trace, -⟩ := kept
  rw [trace, consumed_append, List.append_assoc, List.append_cancel_left_eq] at bytes
  rw [← bytes, List.length_append]
  omega

end RxKept

theorem OutputOnly.rxKept {w w' : World} (output : OutputOnly w w') : RxKept w w' := by
  obtain ⟨rx, es, trace, output⟩ := output
  exact .silent rx trace output.consumed_eq output.arrived_eq

theorem RxKept.same {w w' : World} (rx : w'.rx = w.rx) (trace : w'.trace = w.trace) :
    RxKept w w' :=
  (OutputOnly.same rx trace).rxKept

theorem ParserMoved.rxKept {w w' : World} (moved : ParserMoved w w') : RxKept w w' := by
  obtain ⟨es, trace, -, arrives⟩ := moved.quietTrace
  exact ⟨moved.bytes, es, trace, arrives⟩

theorem Executed.rxKept {w w' : World} {r : LsejtagCmdExecResult} (executed : Executed w r w') :
    RxKept w w' := by
  obtain output | ⟨_, _, middle, -, -, fetched, output⟩ := executed.fetches
  · exact output.rxKept
  · have truncated : RxKept w { w with ctx := truncateXfers w.ctx } :=
      .same rfl rfl
    exact truncated.trans (fetched.moved.rxKept.trans output.rxKept)

theorem Dispatched.rxKept {w w' : World} {r : LsejtagDispatchResult}
    (dispatched : Dispatched w r w') : RxKept w w' := by
  cases dispatched with
  | flushing | flushNew | run | empty => exact .same rfl rfl
  | parsed _ _ _ _ parsed =>
    obtain ⟨-, rfl, -⟩ | returned := dispatchCmdBuf_returned parsed
    · exact .same rfl rfl
    · exact returned.moved.rxKept

/-- What arrived is what was consumed and what the ring holds, which fits. -/
structure RxInv (w : World) : Prop where
  stream : consumed w.trace ++ w.rx = arrived w.trace
  ring : w.rx.length ≤ usbrxCapacity

theorem RxKept.inv {w w' : World} (kept : RxKept w w') (inv : RxInv w) : RxInv w' := by
  obtain ⟨es, trace, arrives⟩ := kept.trace
  refine ⟨?_, kept.rx_le.trans inv.ring⟩
  rw [kept.bytes, inv.stream, trace, arrived_append, arrives, List.append_nil]

/-- Every step but an arrival leaves the stream alone. -/
theorem MainStepped.rxKept {s s' : MainState} {input : MainInput}
    (stepped : MainStepped s input s') : RxKept s.world s'.world ∨
      ∃ bytes, s.world.rx.length + bytes.length ≤ usbrxCapacity ∧
        s'.world = s.world.receive bytes := by
  have entered : RxKept s.world s.world.enterExecute := .silent rfl rfl rfl rfl
  cases stepped with
  | received bytes fits => exact .inr ⟨bytes, fits, rfl⟩
  | dispatched _ r w' dispatched => exact .inl dispatched.rxKept
  | executed _ _ _ r w' executed =>
    have returned : RxKept w' (w'.log (.executed r)) := .silent rfl rfl rfl rfl
    exact .inl (entered.trans (executed.rxKept.trans returned))
  | flushed _ _ _ _ w' _ rx trace => exact .inl (.silent rx trace rfl rfl)
  | ran _ _ _ w' _ ran => exact .inl (.silent ran.rx ran.trace rfl rfl)
  | executeFailed => exact .inl entered
  | nothingToRun | dispatchFailed | callFailed => exact .inl (.same rfl rfl)

theorem RxInv.step {s s' : MainState} {input : MainInput} (inv : RxInv s.world)
    (stepped : MainStepped s input s') : RxInv s'.world := by
  obtain kept | ⟨bytes, fits, received⟩ := stepped.rxKept
  · exact kept.inv inv
  · rw [received]
    refine ⟨?_, by simpa [World.receive] using fits⟩
    simp [World.receive, Event.consumedBytes, Event.arrivedBytes, ← inv.stream]

/-- What the host has sent only grows. -/
theorem MainStepped.arrived {s s' : MainState} {input : MainInput}
    (stepped : MainStepped s input s') :
    LoongsonEjtag.arrived s.world.trace <+: LoongsonEjtag.arrived s'.world.trace := by
  obtain ⟨-, es, trace, -⟩ | ⟨bytes, -, received⟩ := stepped.rxKept
  · rw [trace, arrived_append]
    exact List.prefix_append _ _
  · rw [received]
    simp [World.receive]

/-! ## Over whole runs -/

/-- The main loop has not stopped. -/
def MainState.Running (s : MainState) : Prop := ∀ why, s.pc ≠ .halted why

/-- The state of the parser between two calls. -/
structure MainParser (s : MainState) : Prop where
  rx : RxInv s.world
  parser : s.Running → ParserInv s.world.ctx

theorem MainParser.step {s s' : MainState} {input : MainInput}
    (inv : MainParser s) (stepped : MainStepped s input s') : MainParser s' := by
  refine ⟨inv.rx.step stepped, ?_⟩
  obtain ⟨rx, parser⟩ := inv
  have running : ∀ {pc}, s.pc = pc → (∀ why, pc ≠ .halted why) → ParserInv s.world.ctx :=
    fun is notHalted => parser fun why halted => notHalted why (is.symm.trans halted)
  cases stepped with
  | received => exact parser
  | dispatched at_pc r w' dispatched =>
    intro running'
    have inv := running at_pc (by simp)
    cases dispatched with
    | flushing | run | empty => exact inv
    | flushNew => exact inv.congr rfl rfl
    | parsed quiet some _ _ parsed =>
      by_cases room : CfgRoom s.world
      · obtain ⟨r', after, total, stepped⟩ := dispatchCmdBuf_stepped inv rx.ring some room
        cases parsed.symm.trans total
        obtain ⟨-, rfl, -⟩ | returned := dispatchCmdBuf_returned parsed
        · exact inv
        · exact stepped.inv inv returned.moved.cont fun tooLong => running' _ (by rw [tooLong]; rfl)
      · obtain ⟨why, -, failed⟩ := dispatchCmdBuf_overruns inv rx.ring room
        cases parsed.symm.trans failed
  | executed at_pc quiet ready r w' executed =>
    have entered : ParserInv s.world.enterExecute.ctx := running at_pc (by simp)
    have after : ParserInv w'.ctx := entered.executed rx.ring ready executed
    exact fun _ => after
  | flushed at_pc _ dwords _ w' ctx =>
    refine fun _ => (running at_pc (by simp)).congr ?_ ?_
    all_goals
      rw [ctx, LsejtagCtx.flushedTdo]
      split <;> rfl
  | ran at_pc _ _ w' _ ran =>
    refine fun _ => (running at_pc (by simp)).congr ?_ ?_ <;> rw [ran.ctx] <;> rfl
  | nothingToRun at_pc => exact fun _ => running at_pc (by simp)
  | dispatchFailed _ why | executeFailed _ _ _ why | callFailed why =>
    exact fun running' => absurd rfl (running' why)

/-- The ring and the parser in every state of every run. -/
theorem mainLoop_parserInv {ok : MainState → MainInput → Prop} {s : MainState}
    (reach : mainLoop.Reach ok s) : MainParser s := by
  apply reach.invariant
  · rintro s rfl
    exact ⟨⟨rfl, Nat.zero_le _⟩, fun _ => .clean rfl rfl rfl rfl⟩
  · exact fun _ _ _ reach inv _ stepped =>
      inv.step (mainStep_stepped (mainLoop_inv reach) stepped)

end LoongsonEjtag
