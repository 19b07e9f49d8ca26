import LoongsonEjtag.ParserInv

/-! # The pending command

The bytes of the command that is being fetched, wherever they are: first those
in the buffer, then those in the ring.  Every step of the parser that counts
what it takes leaves them alone.
-/

namespace LoongsonEjtag

open Lib (Byte)
open Wire

/-- The bytes of the pending command and behind it: first those buffered, then
    those in the ring. -/
def World.pendingBytes (w : World) : List Byte := w.buffered ++ w.rx

section pending

variable {w w' : World}

theorem length_pendingBytes (bounded : w.ctx.bufferedLength ≤ 256) :
    w.pendingBytes.length = w.ctx.bufferedLength + w.rx.length := by
  simp [World.pendingBytes, World.buffered, LsejtagCtx.cmd, bounded]

theorem take_pendingBytes {n : Nat} (bounded : w.ctx.bufferedLength ≤ 256)
    (within : n ≤ w.ctx.bufferedLength) : w.pendingBytes.take n = w.ctx.cmd.take n := by
  have length : w.ctx.cmd.length = 256 := by simp [LsejtagCtx.cmd]
  rw [World.pendingBytes, World.buffered, List.take_append_of_le_length
    (by rw [List.length_take]; omega), List.take_take, Nat.min_eq_left within]

theorem op_pendingBytes (bounded : w.ctx.bufferedLength ≤ 256)
    (header : 2 ≤ w.ctx.bufferedLength) : op w.pendingBytes = op w.ctx.cmd := by
  rw [← op_take w.pendingBytes (Nat.le_refl 2), take_pendingBytes bounded header,
    op_take _ (Nat.le_refl 2)]

theorem configEnd_pendingBytes (bounded : w.ctx.bufferedLength ≤ 256)
    (header : 2 ≤ w.ctx.bufferedLength) (o : LsejtagCmdOp) :
    configEnd o w.pendingBytes = configEnd o w.ctx.cmd := by
  rw [← configEnd_take w.pendingBytes o (Nat.le_refl 2), take_pendingBytes bounded header,
    configEnd_take _ o (Nat.le_refl 2)]

theorem payloadLen_pendingBytes (bounded : w.ctx.bufferedLength ≤ 256) {o : LsejtagCmdOp}
    (config : configEnd o w.ctx.cmd ≤ w.ctx.bufferedLength) :
    payloadLen o w.pendingBytes = payloadLen o w.ctx.cmd := by
  have same := configEnd_pendingBytes bounded ((configEnd_le o _).trans config) o
  rw [← payloadLen_take w.pendingBytes o (same.le.trans config),
    take_pendingBytes bounded (Nat.le_refl _), payloadLen_take _ o config]

/-- A step that counts what it takes keeps the pending bytes. -/
theorem Parsed.pendingBytes {sound : Prop} {k waiting : Nat} {state : LsejtagCmdBufState}
    (parsed : Parsed sound w k w' state (w.ctx.bufferedLength + k) waiting) :
    w'.pendingBytes = w.pendingBytes := by
  have content := parsed.took.content
  rw [World.pendingBytes, World.pendingBytes, World.buffered, parsed.buffered, content,
    parsed.took.rx, List.append_assoc, List.take_append_drop]

theorem ParserInv.bounded {ctx : LsejtagCtx} (inv : ParserInv ctx) : ctx.bufferedLength ≤ 256 := by
  cases inv with
  | clean _ _ _ nothing => omega
  | waitHeader _ _ _ one => omega
  | waitCfg _ _ _ o _ _ _ atMost =>
    have small := configEnd_le_ten o ctx.cmd
    omega
  | waitPayload _ _ _ _ _ _ _ _ fits => omega
  | ready _ _ _ _ _ _ bounded => exact bounded
  | continued _ _ _ cont =>
    cases cont with
    | write _ _ fits partly =>
      have fewer := Nat.mul_le_mul_right (ctx.drseqDwordlen * 4)
        (Nat.min_le_left ctx.xfersPerBufblk ctx.xfersLeft)
      omega
    | read _ _ nothing => omega

theorem configEnd_bare {o : LsejtagCmdOp} (isKind : o.kind = .bare) (cmd : List Byte) :
    configEnd o cmd = 2 := by
  cases o <;> first | rfl | cases isKind

theorem bufferedPayloadLen_payload {o : LsejtagCmdOp} (isKind : o.kind = .payload)
    (cmd : List Byte) : bufferedPayloadLen o cmd = payloadLen o cmd := by
  cases o <;> first | rfl | cases isKind

/-- Fetching the header moves it from the ring to the buffer. -/
theorem HeaderFetched.pending {middle : World} {h lenAvail : Nat} (inv : ParserInv w.ctx)
    (fetched : HeaderFetched w h middle lenAvail) :
    middle.pendingBytes = w.pendingBytes ∧ op middle.ctx.cmd = op w.pendingBytes ∧
      (∀ o, configEnd o middle.ctx.cmd = configEnd o w.pendingBytes) ∧
      w.pendingBytes.length = middle.ctx.bufferedLength + middle.rx.length := by
  have facts : ∀ middle : World, middle.pendingBytes = w.pendingBytes →
      2 ≤ middle.ctx.bufferedLength → middle.ctx.bufferedLength ≤ 256 →
      middle.pendingBytes = w.pendingBytes ∧ op middle.ctx.cmd = op w.pendingBytes ∧
        (∀ o, configEnd o middle.ctx.cmd = configEnd o w.pendingBytes) ∧
        w.pendingBytes.length = middle.ctx.bufferedLength + middle.rx.length := by
    intro middle same header bounded
    rw [← same]
    exact ⟨rfl, (op_pendingBytes bounded header).symm,
      fun o => (configEnd_pendingBytes bounded header o).symm, length_pendingBytes bounded⟩
  cases fetched with
  | there state =>
    have bounded := inv.bounded
    cases inv with
    | waitCfg _ _ _ _ _ _ header => exact facts w rfl header bounded
    | _ state' => simp [state] at state'
  | second state _ parsed =>
    have buffered := parsed.buffered
    cases inv with
    | waitHeader _ _ _ one =>
      exact facts middle (Parsed.pendingBytes (k := 1) (by rwa [one])) (by omega) (by omega)
    | _ state' => simp [state] at state'
  | both state _ parsed =>
    have buffered := parsed.buffered
    cases inv with
    | clean _ _ _ nothing =>
      exact facts middle (Parsed.pendingBytes (k := 2) (by rwa [nothing])) (by omega) (by omega)
    | _ state' => simp [state] at state'

theorem HeaderFetched.header {middle : World} {h lenAvail : Nat} (inv : ParserInv w.ctx)
    (fetched : HeaderFetched w h middle lenAvail) : 2 ≤ middle.ctx.bufferedLength := by
  cases fetched with
  | there state =>
    cases inv with
    | waitCfg _ _ _ _ _ _ header => exact header
    | _ state' => simp [state] at state'
  | second _ _ parsed | both _ _ parsed => exact parsed.buffered.ge

/-- In `cbs_wait_payload` the bytes still missing complete the payload. -/
theorem ParserInv.payload_pending {o : LsejtagCmdOp} (inv : ParserInv w.ctx)
    (state : w.ctx.cmdBufState = .cbsWaitPayload) (isOp : op w.pendingBytes = some o) :
    0 < w.ctx.cmdBufWaitPayloadSize ∧ configEnd o w.pendingBytes ≤ w.ctx.bufferedLength ∧
      w.ctx.bufferedLength + w.ctx.cmdBufWaitPayloadSize =
        configEnd o w.pendingBytes + payloadLen o w.pendingBytes := by
  have bounded := inv.bounded
  cases inv with
  | waitPayload _ _ waits o' isOp' isKind config counts fits =>
    have header := (configEnd_le o' w.ctx.cmd).trans config
    cases isOp'.symm.trans ((op_pendingBytes bounded header).symm.trans isOp)
    rw [configEnd_pendingBytes bounded header o, payloadLen_pendingBytes bounded config,
      ← bufferedPayloadLen_payload isKind]
    exact ⟨waits, config, counts⟩
  | _ state' => simp [state] at state'

end pending

end LoongsonEjtag
