import LoongsonEjtag.Pending
import LoongsonEjtag.Frames

/-! # Command framing

Which bytes the parser takes for a command, as long as it takes no byte that is
not part of the pending command and no command stays in the buffer.

* `FramingOk` — that condition.
* `World.taken` — the bytes of the pending command that have left the ring.
* `ParserStepped.taken_rx` — a parser step moves bytes from the ring to there.
* `frameOf_first` — a command that was taken from a stream of commands is the
  first of them.
-/

namespace LoongsonEjtag

open Lib (Byte)
open Wire

/-! ## The condition -/

/-- Beyond the section nothing is taken but payload of the pending command. -/
def TakesOwnBytes (w : World) : Prop :=
  ∀ o ∈ op w.ctx.cmd, configEnd o w.ctx.cmd < w.ctx.bufferedLength →
    w.ctx.bufferedLength + w.rx.length ≤
      configEnd o w.ctx.cmd + bufferedPayloadLen o w.ctx.cmd

instance (w : World) : Decidable (TakesOwnBytes w) :=
  inferInstanceAs (Decidable (∀ o ∈ op w.ctx.cmd, _))

/-- The next step takes only bytes of the pending command, and executes only
    commands that leave the buffer when they are done. -/
def FramingOk (s : MainState) : MainInput → Prop
  | .usbOut _ => True
  | .poll _ _ =>
    (s.pc = .dispatch → s.world.ctx.Quiet → s.world.ctx.cmdBufState = .cbsWaitCfg →
      TakesOwnBytes s.world) ∧
    (s.pc = .execute → s.world.ctx.continuation = false → cleansUp s.world.ctx.cmd = true)

instance (s : MainState) (input : MainInput) : Decidable (FramingOk s input) := by
  cases input with
  | usbOut => exact inferInstanceAs (Decidable True)
  | poll => exact inferInstanceAs (Decidable (_ ∧ _))

/-! ## What the parser takes -/

/-- The bytes of the pending command that have left the ring. -/
def World.taken (w : World) : List Byte :=
  if w.ctx.cmdBufState = .cbsExecute then (frameOf w.ctx.cmd).encode else w.buffered

section parser

variable {w w' : World}

theorem taken_rx_fetching (notReady : w.ctx.cmdBufState ≠ .cbsExecute) :
    w.taken ++ w.rx = w.pendingBytes := by
  rw [World.taken, if_neg notReady, World.pendingBytes]

/-- A step that ends with the command complete took the command's bytes. -/
theorem Parsed.taken_rx {sound : Prop} {k buffered waiting : Nat} {o : LsejtagCmdOp}
    (parsed : Parsed sound w k w' .cbsExecute buffered waiting) (isOp : op w'.ctx.cmd = some o)
    (counts : configEnd o w'.ctx.cmd + bufferedPayloadLen o w'.ctx.cmd =
      w.ctx.bufferedLength + k) : w'.taken ++ w'.rx = w.pendingBytes := by
  rw [World.taken, if_pos parsed.state, encode_frameOf isOp, counts, parsed.took.content,
    parsed.took.rx, List.append_assoc, List.take_append_drop, World.pendingBytes]

theorem CfgReturned.taken_rx {o : LsejtagCmdOp} {lenAvail : Nat} {r : LsejtagDispatchResult}
    (isOp : op w.ctx.cmd = some o) (entry : CfgEntry w (configEnd o w.ctx.cmd) lenAvail)
    (own : configEnd o w.ctx.cmd < w.ctx.bufferedLength →
      w.ctx.bufferedLength + w.rx.length ≤ configEnd o w.ctx.cmd + bufferedPayloadLen o w.ctx.cmd)
    (returned : CfgReturned w o lenAvail r w') (fine : r ≠ .dprTooLong) :
    w'.taken ++ w'.rx = w.pendingBytes := by
  obtain ⟨state, buffered, waiting, k, parsed, stage⟩ := returned
  have sameOp := (parsed.took.op entry.header).trans isOp
  have sameEnd := parsed.took.configEnd entry.header o
  have samePayload : configEnd o w.ctx.cmd < w.ctx.bufferedLength →
      bufferedPayloadLen o w'.ctx.cmd = bufferedPayloadLen o w.ctx.cmd :=
    fun beyond => parsed.took.bufferedPayloadLen (Nat.le_of_lt beyond)
  -- A complete command holds its configuration and payload and nothing behind them.
  have counts : ∀ n, Parsed (w.ctx.bufferedLength ≤ configEnd o w.ctx.cmd) w k w' .cbsExecute
      buffered waiting → configEnd o w'.ctx.cmd + bufferedPayloadLen o w'.ctx.cmd = n →
      n = w.ctx.bufferedLength + k → w'.taken ++ w'.rx = w.pendingBytes :=
    fun n parsed length isCount => parsed.taken_rx sameOp (length.trans isCount)
  have noPayload := fun notPayload : o.kind ≠ .payload =>
    bufferedPayloadLen_eq_zero notPayload w'.ctx.cmd
  have fetching : state ≠ .cbsExecute → buffered = w.ctx.bufferedLength + k →
      w'.taken ++ w'.rx = w.pendingBytes := by
    rintro notReady rfl
    rw [taken_rx_fetching (by rw [parsed.state]; exact notReady), parsed.pendingBytes]
  -- By the kind of the command: its configuration ends the frame, or a payload follows.
  cases stage with
  | bare isKind =>
    have none := noPayload (by simp [isKind])
    have header := entry.noConfig (configEnd_bare isKind _)
    have isEnd := configEnd_bare isKind w'.ctx.cmd
    exact counts _ parsed rfl (by omega)
  | rest => exact fetching (by simp) rfl
  | tooLong => exact absurd rfl fine
  | payloadRest => exact fetching (by simp) rfl
  | payload isKind configured fits complete =>
    refine counts _ parsed rfl ?_
    split
    · omega
    · omega
  | loopback isKind configured | fast isKind configured =>
    have none := noPayload (by simp [isKind])
    have none' := bufferedPayloadLen_eq_zero (o := o) (by simp [isKind]) w.ctx.cmd
    have avail := entry.avail
    refine counts _ parsed rfl ?_
    rw [configTake]
    split <;> omega

/-- A parser step moves bytes from the ring to the pending command. -/
theorem ParserStepped.taken_rx {r : LsejtagDispatchResult} (inv : ParserInv w.ctx)
    (own : w.ctx.cmdBufState = .cbsWaitCfg → TakesOwnBytes w)
    (known : 2 ≤ w.pendingBytes.length → op w.pendingBytes ≠ none)
    (stepped : ParserStepped w r w') (fine : r ≠ .dprTooLong) :
    w'.taken ++ w'.rx = w.taken ++ w.rx := by
  -- Bytes move into the buffer, and the buffered command is pending as a whole.
  have fetching : ∀ {k state waiting},
      Parsed True w k w' state (w.ctx.bufferedLength + k) waiting →
      w.ctx.cmdBufState ≠ .cbsExecute → state ≠ .cbsExecute →
      w'.taken ++ w'.rx = w.taken ++ w.rx := by
    intro k state waiting parsed notReady notReady'
    rw [taken_rx_fetching notReady, taken_rx_fetching (by rw [parsed.state]; exact notReady'),
      parsed.pendingBytes]
  cases stepped with
  | firstByte state one _ parsed =>
    cases inv with
    | clean _ _ _ nothing =>
      have counted : Parsed True w 1 w' .cbsWaitHeader (w.ctx.bufferedLength + 1) 0 := by
        rwa [nothing]
      exact fetching counted (by simp [state]) (by simp)
    | _ state' => simp [state] at state'
  | noByte | ready => rfl
  | unknown middle fetched noOp =>
    obtain ⟨-, midOp, -, length⟩ := fetched.pending inv
    have header := fetched.header inv
    exact absurd (midOp.symm.trans noOp) (known (by omega))
  | config middle fetched o isOp entry _ _ returned =>
    obtain ⟨same, -⟩ := fetched.pending inv
    rw [taken_rx_fetching fetched.notReady, ← same]
    -- Bytes beyond the configuration come only from an earlier `wait_cfg`: the header alone
    -- ends before it.
    refine returned.taken_rx isOp entry (fun beyond => ?_) fine
    cases fetched with
    | there state => exact own state o isOp beyond
    | second _ _ parsed | both _ _ parsed =>
      have low := configEnd_le o middle.ctx.cmd
      have buffered := parsed.buffered
      omega
  | payloadRest state _ _ parsed => exact fetching parsed (by simp [state]) (by simp)
  | payload state _ _ parsed =>
    cases inv with
    | waitPayload _ _ _ o isOp _ config counts =>
      have header := (configEnd_le o w.ctx.cmd).trans config
      rw [taken_rx_fetching (w := w) (by simp [state])]
      refine parsed.taken_rx ((parsed.took.op header).trans isOp) ?_
      rw [parsed.took.configEnd header, parsed.took.bufferedPayloadLen config, counts]
    | _ state' => simp [state] at state'

end parser

/-! ## The first command -/

theorem bufferedPayloadLen_le (o : LsejtagCmdOp) (cmd : List Byte) :
    bufferedPayloadLen o cmd ≤ payloadLen o cmd := by
  cases o <;> first | exact Nat.le_refl _ | exact Nat.zero_le _

theorem bufferedPayloadLen_whole {o : LsejtagCmdOp} (notWrite : ¬o.IsFastWrite)
    (cmd : List Byte) : bufferedPayloadLen o cmd = payloadLen o cmd := by
  cases o with
  | opFastTargetMemWriteFastdata => exact absurd ⟨true, rfl⟩ notWrite
  | opFastTargetMemWrite => exact absurd ⟨false, rfl⟩ notWrite
  | _ => rfl

/-- A buffered command whose bytes begin a stream of commands is the first of
    them. -/
theorem frameOf_first {cmd : List Byte} {cmds : List Cmd} {o : LsejtagCmdOp}
    (isOp : op cmd = some o) (long : configEnd o cmd + bufferedPayloadLen o cmd ≤ cmd.length)
    (first : (frameOf cmd).encode <+: encodeAll cmds) :
    ∃ c rest, cmds = c :: rest ∧ o = c.op ∧ PartOf (frameOf cmd) c ∧
      payloadLen o cmd = c.payload.length := by
  have low := configEnd_le o cmd
  have bytes := first
  rw [encode_frameOf isOp] at bytes
  have length : (cmd.take (configEnd o cmd + bufferedPayloadLen o cmd)).length =
      configEnd o cmd + bufferedPayloadLen o cmd := by
    rw [List.length_take]
    omega
  obtain ⟨c, rest, rfl, isOp', isEnd, isLen⟩ := cmd_of_encoded bytes (by omega)
  rw [op_take cmd (by omega), isOp, Option.some.injEq] at isOp'
  subst isOp'
  rw [configEnd_take cmd c.op (by omega)] at isEnd
  rw [payloadLen_take cmd c.op (by omega)] at isLen
  have payloadIs := isLen (by omega)
  refine ⟨c, rest, rfl, rfl, ?_, payloadIs⟩
  have isFrame : frameOf cmd = ⟨cmd.take 2, (cmd.drop 2).take (configLen c.op cmd),
    (cmd.drop (configEnd c.op cmd)).take (bufferedPayloadLen c.op cmd)⟩ := by
    simp only [frameOf, isOp]
  have configIs : configLen c.op cmd = c.config.length := by
    rw [configEnd] at isEnd
    omega
  have fewer := bufferedPayloadLen_le c.op cmd
  have payloadLength : (frameOf cmd).payload.length = bufferedPayloadLen c.op cmd := by
    simp only [isFrame, List.length_take, List.length_drop]
    omega
  obtain ⟨header, config, payload⟩ := frame_of_encoded first
    (by simp only [isFrame, List.length_take]; omega)
    (by simp only [isFrame, List.length_take, List.length_drop]; omega) (by omega)
  refine ⟨header, config, payload, fun notWrite => payload.eq_of_length ?_⟩
  rw [payloadLength, bufferedPayloadLen_whole notWrite, payloadIs]

end LoongsonEjtag
