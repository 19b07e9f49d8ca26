import LoongsonEjtag.Engine

/-! # The command parser

What one parser step does to the bytes of the pending command, for every state
the parser can be in.

* `Took` — bytes moved from the ring to the end of the buffered command.
* `CfgStage` — the ways `wait_cfg` can go on, in numbers: which bytes it takes,
  and the state, `buffered_length` and `cmd_buf_wait_payload_size` it leaves.
* `waitCfg_total`, `waitPayload_total` — the code does just that, and returns.

`wait_cfg` can be entered with more bytes buffered than the configuration
section has: its first entry takes everything in the ring as long as that is at
most two bytes (one after `cbs_wait_header`) more than the section.  The next
entry then computes the bytes still to consume below zero, which wraps, and
consumes the whole ring.
-/

namespace LoongsonEjtag

open Lib (Byte u32 u32_eq sub32 sub32_eq sub32_wrap overlay take_overlay)
open Wire

/-! ## Moving bytes to the buffer -/

/-- The pending command's bytes so far. -/
def World.buffered (w : World) : List Byte := w.ctx.cmd.take w.ctx.bufferedLength

/-- `k` bytes moved from the ring to the end of the buffered command. -/
structure Took (w : World) (k : Nat) (w' : World) : Prop where
  fits : k ≤ w.rx.length
  inside : w.ctx.bufferedLength + k ≤ 256
  content : w'.ctx.cmd.take (w.ctx.bufferedLength + k) = w.buffered ++ w.rx.take k
  rx : w'.rx = w.rx.drop k
  nothing : k = 0 → w'.ctx.cmd = w.ctx.cmd

namespace Took

variable {w w' w'' : World} {k l : Nat}

theorem refl (inside : w.ctx.bufferedLength ≤ 256) : Took w 0 w :=
  ⟨Nat.zero_le _, inside, by simp [World.buffered], rfl, fun _ => rfl⟩

theorem trans (first : Took w k w') (second : Took w' l w'')
    (counted : w'.ctx.bufferedLength = w.ctx.bufferedLength + k) : Took w (k + l) w'' := by
  obtain ⟨fits, inside, content, rx, nothing⟩ := first
  obtain ⟨fits', inside', content', rx', nothing'⟩ := second
  rw [rx, List.length_drop] at fits'
  rw [World.buffered, counted, content, rx, List.append_assoc] at content'
  refine ⟨by omega, by omega, ?_, by rw [rx', rx, List.drop_drop], fun none => ?_⟩
  · rw [← Nat.add_assoc, content', List.take_add]
  · rw [nothing' (by omega), nothing (by omega)]

/-- A second step that took nothing. -/
theorem still (first : Took w k w') (second : Took w' 0 w'') : Took w k w'' := by
  have same := second.nothing rfl
  refine ⟨first.fits, first.inside, same ▸ first.content, ?_, fun none => ?_⟩
  · rw [second.rx, List.drop_zero, first.rx]
  · rw [same, first.nothing none]

/-- What was buffered before is still there. -/
theorem take_cmd (took : Took w k w') {n : Nat} (within : n ≤ w.ctx.bufferedLength) :
    w'.ctx.cmd.take n = w.ctx.cmd.take n := by
  have content := congrArg (List.take n) took.content
  have length : w.ctx.cmd.length = 256 := by simp [LsejtagCtx.cmd]
  have inside := took.inside
  rw [List.take_take, Nat.min_eq_left (by omega), World.buffered, List.take_append_of_le_length
    (by simp only [List.length_take]; omega), List.take_take, Nat.min_eq_left within] at content
  exact content

end Took

theorem copyToCmd_total (buf : Vector Byte 256) (offset : Nat) (bytes : List Byte)
    (fits : offset + bytes.length ≤ 256) :
    ∃ buf', copyToCmd buf offset bytes = some buf' ∧
      buf'.toList.take (offset + bytes.length) = buf.toList.take offset ++ bytes ∧
      (bytes = [] → buf'.toList = buf.toList) := by
  refine ⟨overlay buf offset bytes fits, by simp [copyToCmd, fits], take_overlay _ _ _ _, ?_⟩
  rintro rfl
  simp [Lib.toList_overlay]

/-! ## Parser steps in numbers -/

/-- A consume that asks for no more than there is, and stays in the command
    buffer. -/
def WithinBounds : Event → Prop
  | .consume offset len avail _ => len ≤ avail ∧ offset + len ≤ 256
  | _ => True

/-- A parser step took `k` bytes and left these values.  `sound` is when all its
    consumes are within bounds. -/
structure Parsed (sound : Prop) (w : World) (k : Nat) (w' : World) (state : LsejtagCmdBufState)
    (buffered waiting : Nat) : Prop where
  took : Took w k w'
  state : w'.ctx.cmdBufState = state
  buffered : w'.ctx.bufferedLength = buffered
  waiting : w'.ctx.cmdBufWaitPayloadSize = waiting
  trace : ∃ es, w'.trace = w.trace ++ es ∧ (sound → ∀ e ∈ es, WithinBounds e)

namespace Parsed

variable {sound sound' : Prop} {w w' w'' : World} {k l buffered waiting buffered' waiting' : Nat}
  {state state' : LsejtagCmdBufState}

/-- Two steps in a row, when the first counted what it took. -/
theorem trans (first : Parsed sound w k w' state buffered waiting)
    (second : Parsed sound' w' l w'' state' buffered' waiting')
    (counted : buffered = w.ctx.bufferedLength + k) :
    Parsed (sound ∧ sound') w (k + l) w'' state' buffered' waiting' := by
  obtain ⟨es, trace, bounds⟩ := first.trace
  obtain ⟨fs, trace', bounds'⟩ := second.trace
  refine ⟨first.took.trans second.took (first.buffered.trans counted), second.state,
    second.buffered, second.waiting, es ++ fs, ?_, ?_⟩
  · rw [trace', trace, List.append_assoc]
  · rintro ⟨holds, holds'⟩ e member
    exact (List.mem_append.mp member).elim (bounds holds e) (bounds' holds' e)

/-- A second step that took nothing, after one that was not sound. -/
theorem still (first : Parsed sound w k w' state buffered waiting)
    (second : Parsed sound' w' 0 w'' state' buffered' waiting') (unsound : ¬sound) :
    Parsed sound w k w'' state' buffered' waiting' := by
  obtain ⟨es, trace, -⟩ := first.trace
  obtain ⟨fs, trace', -⟩ := second.trace
  refine ⟨first.took.still second.took, second.state, second.buffered, second.waiting, es ++ fs,
    ?_, fun holds => absurd holds unsound⟩
  rw [trace', trace, List.append_assoc]

theorem weaken (parsed : Parsed sound w k w' state buffered waiting) (stronger : sound' → sound) :
    Parsed sound' w k w' state buffered waiting := by
  obtain ⟨es, trace, bounds⟩ := parsed.trace
  exact ⟨parsed.took, parsed.state, parsed.buffered, parsed.waiting, es, trace,
    fun holds => bounds (stronger holds)⟩

/-- Setting the parser's variables moves no bytes. -/
theorem set (parsed : Parsed sound w k w' state buffered waiting)
    (state' : LsejtagCmdBufState) (waiting' : Nat) :
    Parsed sound w k { w' with ctx := { w'.ctx with
      cmdBufState := state', cmdBufWaitPayloadSize := waiting' } } state' buffered waiting' :=
  ⟨⟨parsed.took.fits, parsed.took.inside, parsed.took.content, parsed.took.rx,
    parsed.took.nothing⟩, rfl, parsed.buffered, rfl, parsed.trace⟩

theorem toExecute (parsed : Parsed sound w k w' state buffered waiting) :
    Parsed sound w k { w' with ctx := w'.ctx.toExecute } .cbsExecute buffered waiting :=
  ⟨⟨parsed.took.fits, parsed.took.inside, parsed.took.content, parsed.took.rx,
    parsed.took.nothing⟩, rfl, parsed.buffered, parsed.waiting, parsed.trace⟩

/-- Setting the count moves no bytes. -/
theorem count (parsed : Parsed sound w k w' state buffered waiting) (buffered' : Nat) :
    Parsed sound w k { w' with ctx := { w'.ctx with bufferedLength := buffered' } } state buffered'
      waiting :=
  ⟨⟨parsed.took.fits, parsed.took.inside, parsed.took.content, parsed.took.rx,
    parsed.took.nothing⟩, parsed.state, rfl, parsed.waiting, parsed.trace⟩

end Parsed

/-- A consume to the end of the buffered command takes what the ring has of
    `len` bytes. -/
theorem consume_total (w : World) (len : Nat)
    (inside : w.ctx.bufferedLength + min len w.rx.length ≤ 256) :
    ∃ w', lsejtagImplUsbrxConsume w w.ctx.bufferedLength len = .ok w' ∧
      Parsed (len ≤ w.rx.length) w (min len w.rx.length) w' w.ctx.cmdBufState
        w.ctx.bufferedLength w.ctx.cmdBufWaitPayloadSize := by
  have taken : (w.rx.take len).length = min len w.rx.length := List.length_take
  obtain ⟨buf, copied, content, nothing⟩ := copyToCmd_total w.ctx.bufferedCmd
    w.ctx.bufferedLength (w.rx.take len) (by omega)
  refine ⟨⟨{ w.ctx with bufferedCmd := buf }, w.rx.drop len, w.trace ++
    [.consume w.ctx.bufferedLength len w.rx.length (w.rx.take len)]⟩,
    by simp [lsejtagImplUsbrxConsume, copied], ⟨Nat.min_le_right _ _, inside, ?_, ?_, ?_⟩, rfl, rfl,
    rfl, _, rfl, ?_⟩
  · rw [LsejtagCtx.cmd, ← taken, content, taken, ← List.take_eq_take_min]
    rfl
  · exact List.drop_eq_drop_min
  · intro zero
    exact nothing (by rw [← List.length_eq_zero_iff, taken, zero])
  · intro available e member
    rw [List.mem_singleton.mp member]
    exact ⟨available, by omega⟩

/-- `bufferMore` takes what there is of `len` bytes, and counts `len`. -/
theorem bufferMore_total (w : World) (len : Nat)
    (inside : w.ctx.bufferedLength + min len w.rx.length ≤ 256) :
    ∃ w', bufferMore w len = .ok w' ∧
      Parsed (len ≤ w.rx.length) w (min len w.rx.length) w' w.ctx.cmdBufState
        (u32 (w.ctx.bufferedLength + len)) w.ctx.cmdBufWaitPayloadSize := by
  obtain ⟨after, consumed, parsed⟩ := consume_total w len inside
  refine ⟨_, by rw [bufferMore, consumed]; rfl, ?_⟩
  rw [parsed.buffered]
  exact parsed.count _

/-- Bytes that are all there. -/
theorem bufferMore_exact (w : World) (len : Nat) (available : len ≤ w.rx.length)
    (inside : w.ctx.bufferedLength + len ≤ 256) :
    ∃ w', bufferMore w len = .ok w' ∧
      Parsed True w len w' w.ctx.cmdBufState (w.ctx.bufferedLength + len)
        w.ctx.cmdBufWaitPayloadSize := by
  obtain ⟨w', fed, parsed⟩ := bufferMore_total w len (by omega)
  rw [Nat.min_eq_left available, u32_eq (by omega)] at parsed
  exact ⟨w', fed, parsed.weaken fun _ => available⟩

/-- `wait_payload` with an exact count of the ring. -/
theorem waitPayload_total {w : World} (inside : w.ctx.bufferedLength +
    w.ctx.cmdBufWaitPayloadSize ≤ 256) :
    ∃ w', if w.rx.length < w.ctx.cmdBufWaitPayloadSize then
        waitPayload w w.rx.length = .ok (.dprIncomplete, w') ∧
        Parsed True w w.rx.length w' w.ctx.cmdBufState (w.ctx.bufferedLength + w.rx.length)
          (w.ctx.cmdBufWaitPayloadSize - w.rx.length)
      else waitPayload w w.rx.length = .ok (.dprExecute, w') ∧
        Parsed True w w.ctx.cmdBufWaitPayloadSize w' .cbsExecute
          (w.ctx.bufferedLength + w.ctx.cmdBufWaitPayloadSize) 0 := by
  split
  · rename_i short
    obtain ⟨after, fed, parsed⟩ := bufferMore_exact w w.rx.length (Nat.le_refl _) (by omega)
    refine ⟨_, ?_, parsed.set w.ctx.cmdBufState _⟩
    simp only [waitPayload, if_pos short, fed, Lib.ok_bind, ← parsed.state]
    rw [sub32_eq (by omega) (by omega)]
  · rename_i enough
    obtain ⟨after, fed, parsed⟩ := bufferMore_exact w w.ctx.cmdBufWaitPayloadSize (by omega) inside
    refine ⟨_, ?_, parsed.set .cbsExecute 0⟩
    simp only [waitPayload, if_neg enough, fed, Lib.ok_bind]
    rfl

/-- `wait_payload` after the ring was swallowed: it counts up to `lenRx` bytes and
    moves none. -/
theorem waitPayload_swallowed {w : World} (lenRx : Nat) (empty : w.rx = [])
    (inside : w.ctx.bufferedLength + w.ctx.cmdBufWaitPayloadSize ≤ 256) :
    ∃ w', if lenRx < w.ctx.cmdBufWaitPayloadSize then
        waitPayload w lenRx = .ok (.dprIncomplete, w') ∧
        Parsed False w 0 w' w.ctx.cmdBufState (w.ctx.bufferedLength + lenRx)
          (w.ctx.cmdBufWaitPayloadSize - lenRx)
      else waitPayload w lenRx = .ok (.dprExecute, w') ∧
        Parsed False w 0 w' .cbsExecute
          (w.ctx.bufferedLength + w.ctx.cmdBufWaitPayloadSize) 0 := by
  have noRx : w.rx.length = 0 := by simp [empty]
  split
  · rename_i short
    obtain ⟨after, fed, parsed⟩ := bufferMore_total w lenRx (by omega)
    rw [noRx, Nat.min_zero, u32_eq (by omega)] at parsed
    refine ⟨_, ?_, (parsed.weaken False.elim).set w.ctx.cmdBufState _⟩
    simp only [waitPayload, if_pos short, fed, Lib.ok_bind, ← parsed.state]
    rw [sub32_eq (by omega) (by omega)]
  · rename_i enough
    obtain ⟨after, fed, parsed⟩ := bufferMore_total w w.ctx.cmdBufWaitPayloadSize (by omega)
    rw [noRx, Nat.min_zero, u32_eq (by omega)] at parsed
    refine ⟨_, ?_, (parsed.weaken False.elim).set .cbsExecute 0⟩
    simp only [waitPayload, if_neg enough, fed, Lib.ok_bind]
    rfl

/-! ## The configuration section -/

/-- How a command goes on behind its header. -/
inductive CmdKind where
  | bare
  | payload
  | loopback
  | fast
deriving DecidableEq

def LsejtagCmdOp.kind : LsejtagCmdOp → CmdKind
  | .opIoManip | .opGetFirmwareDate => .bare
  | .opProbeMemRw | .opIrRw | .opDrRw => .payload
  | .opLoopbackTest => .loopback
  | .opFastTargetMemWriteFastdata | .opFastTargetMemWrite
  | .opFastTargetMemReadFastdata | .opFastTargetMemRead => .fast

/-- Bytes `wait_cfg` takes for a section that ends at `c`: those missing, or the
    whole ring if there are too many already. -/
def configTake (c b rxLen : Nat) : Nat := if b ≤ c then c - b else rxLen

/-- The ways `wait_cfg` goes on with `b` bytes buffered and `rxLen` in the ring,
    for a section that ends at `c` and `p` bytes of payload.  `enough` is the
    outcome of the length test. -/
inductive CfgStage (kind : CmdKind) (c p b rxLen : Nat) (enough : Prop) :
    LsejtagDispatchResult → LsejtagCmdBufState → Nat → Nat → Nat → Prop
  | bare (isKind : kind = .bare) :
      CfgStage kind c p b rxLen enough .dprExecute .cbsExecute b 0 0
  | rest (config : 2 < c) (short : ¬enough) :
      CfgStage kind c p b rxLen enough .dprIncomplete .cbsWaitCfg (b + rxLen) 0 rxLen
  | tooLong (isKind : kind = .payload) (configured : enough) (long : 256 < c + p) :
      CfgStage kind c p b rxLen enough .dprTooLong .cbsWaitPayload c p (configTake c b rxLen)
  | payloadRest (isKind : kind = .payload) (configured : 2 < c → enough) (fits : c + p ≤ 256)
      (short : b + rxLen < c + p) :
      CfgStage kind c p b rxLen enough .dprIncomplete .cbsWaitPayload (b + rxLen)
        (c + p - (b + rxLen)) rxLen
  | payload (isKind : kind = .payload) (configured : 2 < c → enough) (fits : c + p ≤ 256)
      (complete : c + p ≤ b + rxLen) :
      CfgStage kind c p b rxLen enough .dprExecute .cbsExecute (c + p) 0
        (if b ≤ c then c + p - b else rxLen)
  | loopback (isKind : kind = .loopback) (configured : enough) :
      CfgStage kind c p b rxLen enough .dprExecute .cbsExecute b 0 (configTake c b rxLen)
  | fast (isKind : kind = .fast) (configured : enough) :
      CfgStage kind c p b rxLen enough .dprExecute .cbsExecute c 0 (configTake c b rxLen)

section cfg

variable {w : World} {lenAvail : Nat}

/-- Where `wait_cfg` is entered: `b` bytes are buffered, at most two more than
    the section has, and `lenAvail` counts the bytes of the ring and of the
    buffer, the latter perhaps without the header. -/
structure CfgEntry (w : World) (c lenAvail : Nat) : Prop where
  state : w.ctx.cmdBufState = .cbsWaitCfg
  noWait : w.ctx.cmdBufWaitPayloadSize = 0
  header : 2 ≤ w.ctx.bufferedLength
  atMost : w.ctx.bufferedLength ≤ c + 2
  small : c ≤ 10
  ring : w.rx.length ≤ 256
  avail : lenAvail ≤ w.ctx.bufferedLength + w.rx.length
  slack : w.ctx.bufferedLength + w.rx.length ≤ lenAvail + 2
  exact : c < w.ctx.bufferedLength → lenAvail = w.ctx.bufferedLength + w.rx.length
  noConfig : c = 2 → w.ctx.bufferedLength = 2
  room : c < w.ctx.bufferedLength → w.ctx.bufferedLength + w.rx.length ≤ 256

/-- The section is not there yet. -/
theorem bufferRest_total {c : Nat} (entry : CfgEntry w c lenAvail) (short : ¬c < lenAvail) :
    ∃ w', bufferRest w w.rx.length = .ok (.dprIncomplete, w') ∧
      Parsed (w.ctx.bufferedLength ≤ c) w w.rx.length w' .cbsWaitCfg
        (w.ctx.bufferedLength + w.rx.length) 0 := by
  have slack := entry.slack
  have small := entry.small
  obtain ⟨w', fed, parsed⟩ := bufferMore_exact w w.rx.length (Nat.le_refl _) (by omega)
  refine ⟨w', by rw [bufferRest, fed, Lib.ok_bind], ?_⟩
  rw [entry.state, entry.noWait] at parsed
  exact parsed.weaken fun _ => trivial

/-- The consume of the section itself, and what it wraps to beyond its end. -/
theorem takeConfig_total {c : Nat} (entry : CfgEntry w c lenAvail) (enough : c < lenAvail) :
    ∃ w', bufferMore w (sub32 c w.ctx.bufferedLength) = .ok w' ∧
      Parsed (w.ctx.bufferedLength ≤ c) w (configTake c w.ctx.bufferedLength w.rx.length) w'
        .cbsWaitCfg c 0 := by
  obtain ⟨state, noWait, header, atMost, small, ring, avail, slack, exact, noConfig, room⟩ := entry
  rw [configTake]
  by_cases within : w.ctx.bufferedLength ≤ c
  · obtain ⟨w', fed, parsed⟩ := bufferMore_exact w (c - w.ctx.bufferedLength) (by omega) (by omega)
    rw [state, noWait, Nat.add_sub_cancel' within] at parsed
    rw [sub32_eq within (by omega), if_pos within]
    exact ⟨w', fed, parsed.weaken fun _ => trivial⟩
  · have beyond : c < w.ctx.bufferedLength := by omega
    have room := room beyond
    have wraps := sub32_wrap beyond (by omega)
    obtain ⟨w', fed, parsed⟩ := bufferMore_total w (sub32 c w.ctx.bufferedLength)
      (by rw [wraps]; omega)
    rw [if_neg within]
    refine ⟨w', fed, ?_⟩
    have all : min (sub32 c w.ctx.bufferedLength) w.rx.length = w.rx.length := by
      rw [wraps]
      omega
    have back : u32 (w.ctx.bufferedLength + sub32 c w.ctx.bufferedLength) = c := by
      rw [wraps, u32]
      omega
    rw [state, noWait, all, back] at parsed
    exact parsed.weaken fun fits => absurd fits within

/-- The outcome `r`, `w'` of `wait_cfg` for a command `o`, in numbers. -/
def CfgReturned (w : World) (o : LsejtagCmdOp) (lenAvail : Nat) (r : LsejtagDispatchResult)
    (w' : World) : Prop :=
  let c := configEnd o w.ctx.cmd
  let b := w.ctx.bufferedLength
  ∃ state buffered waiting k, Parsed (b ≤ c) w k w' state buffered waiting ∧
    CfgStage o.kind c (bufferedPayloadLen o w'.ctx.cmd) b w.rx.length (c < lenAvail) r state
      buffered waiting k

/-- The payload's part of `wait_cfg`, behind the section. -/
theorem waitPayload_stage {middle : World} {c k p : Nat}
    (taken : Parsed (w.ctx.bufferedLength ≤ c) w k middle .cbsWaitPayload c p)
    (isTake : k = configTake c w.ctx.bufferedLength w.rx.length)
    (arrived : c ≤ w.ctx.bufferedLength + w.rx.length) (configured : 2 < c → c < lenAvail)
    (fits : c + p ≤ 256) :
    ∃ r w', waitPayload middle (w.ctx.bufferedLength + w.rx.length - c) = .ok (r, w') ∧
      w'.ctx.cmd.take c = middle.ctx.cmd.take c ∧
      ∃ state buffered waiting k,
        Parsed (w.ctx.bufferedLength ≤ c) w k w' state buffered waiting ∧
        CfgStage .payload c p w.ctx.bufferedLength w.rx.length (c < lenAvail) r state buffered
          waiting k := by
  have rx := taken.took.rx
  have within := taken.took.fits
  have bufferedIs := taken.buffered
  have inside : middle.ctx.bufferedLength + middle.ctx.cmdBufWaitPayloadSize ≤ 256 := by
    rw [bufferedIs, taken.waiting]
    exact fits
  -- Unless the section was exceeded, the payload is what the ring has behind it.
  by_cases counted : w.ctx.bufferedLength ≤ c
  · rw [configTake, if_pos counted] at isTake
    have left : middle.rx.length = w.ctx.bufferedLength + w.rx.length - c := by
      rw [rx, List.length_drop]
      omega
    have counts : c = w.ctx.bufferedLength + k := by omega
    obtain ⟨w', waits⟩ := waitPayload_total inside
    rw [left, bufferedIs, taken.waiting, taken.state] at waits
    split at waits
    · rename_i short
      obtain ⟨waited, parsed⟩ := waits
      refine ⟨_, w', waited, parsed.took.take_cmd (by omega), _, _, _, _,
        (taken.trans parsed counts).weaken (⟨·, trivial⟩), ?_⟩
      rw [show c + (w.ctx.bufferedLength + w.rx.length - c) =
          w.ctx.bufferedLength + w.rx.length by omega,
        show p - (w.ctx.bufferedLength + w.rx.length - c) =
          c + p - (w.ctx.bufferedLength + w.rx.length) by omega,
        show k + (w.ctx.bufferedLength + w.rx.length - c) = w.rx.length by omega]
      exact .payloadRest rfl configured fits (by omega)
    · rename_i enough
      obtain ⟨waited, parsed⟩ := waits
      refine ⟨_, w', waited, parsed.took.take_cmd (by omega), _, _, _, _,
        (taken.trans parsed counts).weaken (⟨·, trivial⟩), ?_⟩
      rw [show k + p = if w.ctx.bufferedLength ≤ c then c + p - w.ctx.bufferedLength
        else w.rx.length by rw [if_pos counted]; omega]
      exact .payload rfl configured fits (by omega)
  · -- The whole ring was swallowed for the section, so there is no payload to take.
    rw [configTake, if_neg counted] at isTake
    have swallowed : middle.rx = [] := by rw [rx, isTake, List.drop_length]
    obtain ⟨w', waits⟩ := waitPayload_swallowed (w.ctx.bufferedLength + w.rx.length - c) swallowed
      inside
    rw [bufferedIs, taken.waiting, taken.state] at waits
    split at waits
    · rename_i short
      obtain ⟨waited, parsed⟩ := waits
      refine ⟨_, w', waited, parsed.took.take_cmd (by omega), _, _, _, _,
        taken.still parsed counted, ?_⟩
      rw [show c + (w.ctx.bufferedLength + w.rx.length - c) =
          w.ctx.bufferedLength + w.rx.length by omega,
        show p - (w.ctx.bufferedLength + w.rx.length - c) =
          c + p - (w.ctx.bufferedLength + w.rx.length) by omega, isTake]
      exact .payloadRest rfl configured fits (by omega)
    · rename_i enough
      obtain ⟨waited, parsed⟩ := waits
      refine ⟨_, w', waited, parsed.took.take_cmd (by omega), _, _, _, _,
        taken.still parsed counted, ?_⟩
      rw [show k = if w.ctx.bufferedLength ≤ c then c + p - w.ctx.bufferedLength
        else w.rx.length by rw [if_neg counted, isTake]]
      exact .payload rfl configured fits (by omega)

/-- A command without a section has its payload right behind the header. -/
theorem waitProbe_total (entry : CfgEntry w 2 lenAvail) (p : Nat) (fits : 2 + p ≤ 256) :
    ∃ r w', waitPayload { w with ctx := w.ctx.toWaitPayload p } w.rx.length = .ok (r, w') ∧
      w'.ctx.cmd.take 2 = w.ctx.cmd.take 2 ∧
      ∃ state buffered waiting k,
        Parsed (w.ctx.bufferedLength ≤ 2) w k w' state buffered waiting ∧
        CfgStage .payload 2 p w.ctx.bufferedLength w.rx.length (2 < lenAvail) r state buffered
          waiting k := by
  have header : w.ctx.bufferedLength = 2 := entry.noConfig rfl
  have nothing : Parsed True w 0 w w.ctx.cmdBufState 2 w.ctx.cmdBufWaitPayloadSize :=
    ⟨.refl (by omega), rfl, header, rfl, [], by simp, by simp⟩
  have entered := (nothing.set .cbsWaitPayload p).weaken fun _ : w.ctx.bufferedLength ≤ 2 => trivial
  have staged := waitPayload_stage entered (by simp [configTake, header]) (by omega)
    (show 2 < 2 → 2 < lenAvail by omega) fits
  rwa [show w.ctx.bufferedLength + w.rx.length - 2 = w.rx.length by omega] at staged

theorem waitIrdrCfg_total (entry : CfgEntry w 4 lenAvail) :
    ∃ r w', waitIrdrCfg w w.rx.length lenAvail = .ok (r, w') ∧
      ∃ state buffered waiting k,
        Parsed (w.ctx.bufferedLength ≤ 4) w k w' state buffered waiting ∧
        CfgStage .payload 4 (bit2dword (irseqLenBits w'.ctx.cmd) * 4) w.ctx.bufferedLength
          w.rx.length (4 < lenAvail) r state buffered waiting k := by
  by_cases enough : 4 < lenAvail
  · obtain ⟨after, fed, taken⟩ := takeConfig_total entry enough
    have bits : irseqLenBits after.ctx.cmd < 2 ^ 16 := Lib.le16_lt _ _
    have size : u32 (after.ctx.bufferedLength + bit2dword (irseqLenBits after.ctx.cmd) * 4) =
        4 + bit2dword (irseqLenBits after.ctx.cmd) * 4 := by
      rw [taken.buffered]
      apply u32_eq
      simp only [bit2dword]
      omega
    have entered := taken.set .cbsWaitPayload (bit2dword (irseqLenBits after.ctx.cmd) * 4)
    have avail := entry.avail
    have atMost := entry.atMost
    have ring := entry.ring
    simp only [waitIrdrCfg, gt_iff_lt, if_pos enough, fed, Lib.ok_bind, LsejtagCtx.toWaitPayload]
    by_cases long : 256 < 4 + bit2dword (irseqLenBits after.ctx.cmd) * 4
    · rw [if_pos (by rw [size]; exact long)]
      exact ⟨_, _, rfl, _, _, _, _, entered, .tooLong rfl enough long⟩
    · have left : sub32 w.rx.length (sub32 4 w.ctx.bufferedLength) =
          w.ctx.bufferedLength + w.rx.length - 4 := by
        by_cases counted : w.ctx.bufferedLength ≤ 4
        · rw [sub32_eq counted (by omega), sub32_eq (by omega) (by omega)]
          omega
        · have wraps := sub32_wrap (a := 4) (b := w.ctx.bufferedLength) (by omega) (by omega)
          rw [wraps, sub32_wrap (by omega) (by omega)]
          omega
      obtain ⟨r, w', waited, kept, state, buffered, waiting, k, parsed, stage⟩ :=
        waitPayload_stage entered rfl (by omega) (fun _ => enough) (by omega)
      have same : irseqLenBits w'.ctx.cmd = irseqLenBits after.ctx.cmd := by
        rw [← irseqLenBits_take w'.ctx.cmd (Nat.le_refl 4), kept]
        exact irseqLenBits_take after.ctx.cmd (Nat.le_refl 4)
      rw [if_neg (by rw [size]; exact long), left]
      exact ⟨r, w', waited, state, buffered, waiting, k, parsed, same ▸ stage⟩
  · obtain ⟨w', fed, parsed⟩ := bufferRest_total entry enough
    simp only [waitIrdrCfg, gt_iff_lt, if_neg enough]
    exact ⟨_, w', fed, _, _, _, _, parsed, .rest (by omega) enough⟩

theorem waitLoopbackCfg_total (entry : CfgEntry w 6 lenAvail) (p : Nat) :
    ∃ r w', waitLoopbackCfg w w.rx.length lenAvail = .ok (r, w') ∧
      ∃ state buffered waiting k,
        Parsed (w.ctx.bufferedLength ≤ 6) w k w' state buffered waiting ∧
        CfgStage .loopback 6 p w.ctx.bufferedLength w.rx.length (6 < lenAvail) r state buffered
          waiting k := by
  by_cases enough : 6 < lenAvail
  · have avail := entry.avail
    have atMost := entry.atMost
    have room := entry.room
    have isTake : min (sub32 6 w.ctx.bufferedLength) w.rx.length =
        configTake 6 w.ctx.bufferedLength w.rx.length := by
      rw [configTake]
      split
      · rw [sub32_eq (by omega) (by omega)]
        omega
      · rw [sub32_wrap (a := 6) (b := w.ctx.bufferedLength) (by omega) (by omega)]
        omega
    obtain ⟨after, consumed, parsed⟩ := consume_total w (sub32 6 w.ctx.bufferedLength) (by
      rw [isTake, configTake]
      split <;> omega)
    rw [isTake, entry.noWait] at parsed
    refine ⟨_, _, ?_, _, _, _, _, parsed.toExecute.weaken ?_, .loopback rfl enough⟩
    · simp only [waitLoopbackCfg, gt_iff_lt, if_pos enough, consumed, Lib.ok_bind]
    · intro counted
      rw [sub32_eq counted (by omega)]
      omega
  · obtain ⟨w', fed, parsed⟩ := bufferRest_total entry enough
    simp only [waitLoopbackCfg, gt_iff_lt, if_neg enough]
    exact ⟨_, w', fed, _, _, _, _, parsed, .rest (by omega) enough⟩

theorem waitFastCfg_total {c : Nat} (entry : CfgEntry w c lenAvail) (config : 2 < c) (p : Nat) :
    ∃ r w', waitFastCfg w c w.rx.length lenAvail = .ok (r, w') ∧
      ∃ state buffered waiting k,
        Parsed (w.ctx.bufferedLength ≤ c) w k w' state buffered waiting ∧
        CfgStage .fast c p w.ctx.bufferedLength w.rx.length (c < lenAvail) r state buffered
          waiting k := by
  by_cases enough : c < lenAvail
  · obtain ⟨after, fed, taken⟩ := takeConfig_total entry enough
    simp only [waitFastCfg, gt_iff_lt, if_pos enough, fed, Lib.ok_bind]
    exact ⟨_, _, rfl, _, _, _, _, taken.toExecute, .fast rfl enough⟩
  · obtain ⟨w', fed, parsed⟩ := bufferRest_total entry enough
    simp only [waitFastCfg, gt_iff_lt, if_neg enough]
    exact ⟨_, w', fed, _, _, _, _, parsed, .rest config enough⟩

/-- `wait_cfg` returns, and goes on in one of the ways of `CfgStage`. -/
theorem waitCfg_total {o : LsejtagCmdOp} (isOp : op w.ctx.cmd = some o)
    (entry : CfgEntry w (configEnd o w.ctx.cmd) lenAvail) :
    ∃ r w', waitCfg w w.rx.length lenAvail = .ok (r, w') ∧ CfgReturned w o lenAvail r w' := by
  cases o with
  | opProbeMemRw =>
    obtain ⟨r, w', waited, kept, staged⟩ := waitProbe_total entry
      (if isWrite w.ctx.cmd then 8 else 4) (by split <;> omega)
    have same : isWrite w'.ctx.cmd = isWrite w.ctx.cmd := by
      rw [← isWrite_take w'.ctx.cmd (Nat.le_refl 2), kept, isWrite_take _ (Nat.le_refl 2)]
    refine ⟨r, w', by simpa only [waitCfg, isOp] using waited, ?_⟩
    simpa only [CfgReturned, bufferedPayloadLen, payloadLen, same, LsejtagCmdOp.kind, configEnd,
      configLen] using staged
  | opIoManip | opGetFirmwareDate =>
    have header : w.ctx.bufferedLength = 2 := entry.noConfig rfl
    have nothing : Parsed (w.ctx.bufferedLength ≤ 2) w 0 w w.ctx.cmdBufState
        w.ctx.bufferedLength 0 :=
      ⟨.refl (by omega), rfl, rfl, entry.noWait, [], by simp, by simp⟩
    refine ⟨_, _, by simp only [waitCfg, isOp]; rfl, _, _, _, _, nothing.toExecute, ?_⟩
    exact .bare rfl
  | opIrRw | opDrRw =>
    obtain ⟨r, w', waited, staged⟩ := waitIrdrCfg_total entry
    exact ⟨r, w', by simpa only [waitCfg, isOp] using waited, staged⟩
  | opLoopbackTest =>
    obtain ⟨r, w', waited, staged⟩ := waitLoopbackCfg_total entry 0
    exact ⟨r, w', by simpa only [waitCfg, isOp] using waited, staged⟩
  | opFastTargetMemWriteFastdata | opFastTargetMemWrite =>
    obtain ⟨r, w', waited, staged⟩ := waitFastCfg_total entry
      (by simp only [configEnd, configLen]; split <;> omega) 0
    refine ⟨r, w', ?_, staged⟩
    simp only [waitCfg, isOp, ← waited, configEnd, configLen]
    split <;> rfl
  | opFastTargetMemReadFastdata | opFastTargetMemRead =>
    obtain ⟨r, w', waited, staged⟩ := waitFastCfg_total (c := 10) entry (by decide) 0
    exact ⟨r, w', by simpa only [waitCfg, isOp] using waited, staged⟩

end cfg

end LoongsonEjtag
