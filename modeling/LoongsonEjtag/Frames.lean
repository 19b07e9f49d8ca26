import LoongsonEjtag.Executed

/-! # The frames presented to `lsejtag_execute`

* `frameOf` — the sections of a buffered command.
* `presented` — the frames a trace shows `lsejtag_execute` to be called with.
* `FirstOf` — frames that are the first of a list of commands.
* `cmd_of_encoded` — what the first bytes of a stream of commands say.
-/

namespace LoongsonEjtag

open Lib (Byte)
open Wire

/-! ## The frame of a buffered command -/

/-- The sections of the buffered command.  The payload of a fast write is not
    buffered with it. -/
def frameOf (cmd : List Byte) : Frame :=
  match op cmd with
  | some o =>
    { header := cmd.take 2
      config := (cmd.drop 2).take (configLen o cmd)
      payload := (cmd.drop (configEnd o cmd)).take (bufferedPayloadLen o cmd) }
  | none => ⟨cmd.take 2, [], []⟩

theorem encode_frameOf {cmd : List Byte} {o : LsejtagCmdOp} (isOp : op cmd = some o) :
    (frameOf cmd).encode = cmd.take (configEnd o cmd + bufferedPayloadLen o cmd) := by
  simp only [frameOf, isOp, Frame.encode]
  rw [List.take_add, configEnd, List.take_add]

/-- More payload for a frame. -/
def Frame.more (f : Frame) (bytes : List Byte) : Frame := { f with payload := f.payload ++ bytes }

@[simp] theorem Frame.encode_more (f : Frame) (bytes : List Byte) :
    (f.more bytes).encode = f.encode ++ bytes := by
  simp [Frame.more, Frame.encode]

@[simp] theorem Frame.more_nil (f : Frame) : f.more [] = f := by simp [Frame.more]

@[simp] theorem Frame.more_more (f : Frame) (bytes bytes' : List Byte) :
    (f.more bytes).more bytes' = f.more (bytes ++ bytes') := by
  simp [Frame.more]

/-! ## The frames of a trace -/

/-- How the last call of `lsejtag_execute` ended: its command is done, is to be
    presented again, or is continued. -/
inductive CallPhase where
  | done
  | again
  | continued
deriving DecidableEq

/-- The frames presented so far, the last one apart. -/
structure Presented where
  before : List Frame
  last : Option Frame
  phase : CallPhase

namespace Presented

def frames (p : Presented) : List Frame := p.before ++ p.last.toList

/-- A call of `lsejtag_execute` presents its command, unless it repeats a call
    that had to wait with the same command; what is consumed while a command is
    continued is payload of that command. -/
def event (p : Presented) : Event → Presented
  | .execute false cmd =>
    if p.phase = .again ∧ p.last = some (frameOf cmd) then p
    else ⟨p.frames, some (frameOf cmd), .done⟩
  | .consume _ _ _ got =>
    if p.phase = .continued then { p with last := p.last.map (·.more got) } else p
  | .executed .cerSuccess => { p with phase := .done }
  | .executed .cerContinue => { p with phase := .continued }
  | .executed .cerAwaitUsbTx | .executed .cerAwaitJtagBuf => { p with phase := .again }
  | _ => p

end Presented

/-- What a trace presents to `lsejtag_execute`. -/
def presented (trace : List Event) : Presented := trace.foldl Presented.event ⟨[], none, .done⟩

@[simp] theorem presented_append (t u : List Event) :
    presented (t ++ u) = u.foldl Presented.event (presented t) := List.foldl_append

theorem AllOutput.presented {u : List Event} (output : AllOutput u) (t : List Event) :
    presented (t ++ u) = presented t := by
  rw [presented_append]
  generalize LoongsonEjtag.presented t = p
  induction u with
  | nil => rfl
  | cons e u ih =>
    have first := output e (by simp)
    have same : p.event e = p := by cases e <;> first | rfl | cases first
    rw [List.foldl_cons, same]
    exact ih fun e member => output e (by simp [member])

/-- Only consumes. -/
def AllConsumes (t : List Event) : Prop :=
  ∀ e ∈ t, ∃ offset len avail got, e = .consume offset len avail got

theorem AllConsumes.presented {u : List Event} (consumes : AllConsumes u) (t : List Event) :
    presented (t ++ u) =
      if (presented t).phase = .continued then
        { presented t with last := (presented t).last.map (·.more (consumed u)) }
      else presented t := by
  rw [presented_append]
  generalize LoongsonEjtag.presented t = p
  induction u generalizing p with
  | nil => simp
  | cons e u ih =>
    obtain ⟨_, _, _, got, rfl⟩ := consumes e (by simp)
    rw [List.foldl_cons, ih (fun e member => consumes e (by simp [member]))]
    by_cases continued : p.phase = .continued
    · simp only [Presented.event, if_pos continued, Option.map_map, consumed_cons,
        Event.consumedBytes]
      congr 2
      funext f
      exact f.more_more got _
    · simp only [Presented.event, if_neg continued]

/-! ## The first commands of a list -/

/-- A fast write, whose payload is presented piece by piece. -/
def LsejtagCmdOp.IsFastWrite (o : LsejtagCmdOp) : Prop := ∃ fastdata, o = writeOp fastdata

/-- The frame is the command; of a fast write some payload may be missing yet. -/
structure PartOf (f : Frame) (c : Cmd) : Prop where
  header : f.header = c.header
  config : f.config = c.config
  payload : f.payload <+: c.payload
  whole : ¬c.op.IsFastWrite → f.payload = c.payload

/-- The frames are the first of `cmds`, the last one perhaps in part. -/
inductive FirstOf (frames : List Frame) (cmds : List Cmd) : Prop
  | whole (done rest : List Cmd) (split : cmds = done ++ rest)
      (areFrames : frames = done.map Cmd.toFrame) : FirstOf frames cmds
  | last (done : List Cmd) (c : Cmd) (rest : List Cmd) (split : cmds = done ++ c :: rest)
      (f : Frame) (part : PartOf f c) (areFrames : frames = done.map Cmd.toFrame ++ [f]) :
      FirstOf frames cmds

@[simp] theorem encodeAll_nil : encodeAll [] = [] := rfl

@[simp] theorem encodeAll_append (cmds cmds' : List Cmd) :
    encodeAll (cmds ++ cmds') = encodeAll cmds ++ encodeAll cmds' := by
  simp [encodeAll]

@[simp] theorem encodeAll_cons (c : Cmd) (cmds : List Cmd) :
    encodeAll (c :: cmds) = c.encode ++ encodeAll cmds := rfl

theorem flatMap_encode (cmds : List Cmd) :
    (cmds.map Cmd.toFrame).flatMap Frame.encode = encodeAll cmds := by
  simp [encodeAll, List.flatMap_map]

/-! ## Reading a stream of commands -/

/-- The first bytes of a stream tell its first command: the header its op code
    and the length of its section, the section the length of its payload. -/
theorem cmd_of_encoded {bytes : List Byte} {cmds : List Cmd} (first : bytes <+: encodeAll cmds)
    (header : 2 ≤ bytes.length) :
    ∃ c rest, cmds = c :: rest ∧ op bytes = some c.op ∧
      configEnd c.op bytes = 2 + c.config.length ∧
      (2 + c.config.length ≤ bytes.length → payloadLen c.op bytes = c.payload.length) := by
  cases cmds with
  | nil =>
    rw [encodeAll_nil, List.prefix_nil] at first
    simp [first] at header
  | cons c rest =>
    have taken : ∀ n ≤ bytes.length, bytes.take n = (encodeAll (c :: rest)).take n := by
      intro n within
      obtain ⟨more, whole⟩ := first
      rw [← whole, List.take_append_of_le_length within]
    have isHeader : bytes.take 2 = c.header := by
      rw [taken 2 header, encodeAll_cons, Frame.encode, List.append_assoc, List.append_assoc]
      exact List.take_left' c.headerLen
    have isEnd : configEnd c.op bytes = 2 + c.config.length := by
      rw [← configEnd_take bytes c.op (Nat.le_refl 2), isHeader, configEnd, c.configIs]
    refine ⟨c, rest, rfl, ?_, isEnd, fun config => ?_⟩
    · rw [← op_take bytes (Nat.le_refl 2), isHeader, c.opIs]
    · have isConfig : bytes.take (2 + c.config.length) = c.header ++ c.config := by
        rw [taken _ config, encodeAll_cons, Frame.encode, List.append_assoc]
        exact List.take_left' (by rw [List.length_append, c.headerLen])
      rw [← payloadLen_take bytes c.op isEnd.le, isConfig, c.payloadIs]

/-- A frame with sections of the right lengths is the next command. -/
theorem frame_of_encoded {f : Frame} {c : Cmd} {more : List Byte}
    (first : f.encode <+: c.encode ++ more) (header : f.header.length = 2)
    (config : f.config.length = c.config.length)
    (payload : f.payload.length ≤ c.payload.length) :
    f.header = c.header ∧ f.config = c.config ∧ f.payload <+: c.payload := by
  obtain ⟨rest, whole⟩ := first
  simp only [Frame.encode, List.append_assoc] at whole
  obtain ⟨sameHeader, whole⟩ := List.append_inj whole (header.trans c.headerLen.symm)
  obtain ⟨sameConfig, whole⟩ := List.append_inj whole config
  refine ⟨sameHeader, sameConfig, ?_⟩
  exact List.prefix_of_prefix_length_le ⟨rest, whole⟩ (List.prefix_append _ _) payload

/-- A whole frame is the command itself. -/
theorem PartOf.eq_toFrame {f : Frame} {c : Cmd} (part : PartOf f c)
    (complete : f.payload.length = c.payload.length) : f = c.toFrame := by
  obtain ⟨header, config, payload, -⟩ := part
  have samePayload := payload.eq_of_length complete
  cases f
  simp_all

end LoongsonEjtag
