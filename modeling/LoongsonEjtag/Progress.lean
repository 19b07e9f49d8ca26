import LoongsonEjtag.Pending

/-! # When dispatching gets on

Whether repeated calls of `lsejtag_dispatch`, with no new input, get from a
complete command to a result that makes the main loop act.

* `CommandArrived`, `ContinuationReady` — nothing is missing that the host would
  have to send.
* `Stalls` — the states in which the parser waits nonetheless: a continuation
  with nothing buffered, which the first test of the dispatch takes for a clean
  parser; a command that ends with its configuration section, which is accepted
  only when another byte follows; and a section exceeded so far that the ring
  does not fit behind it.
-/

namespace LoongsonEjtag

open Lib (Byte)
open Lib.Machine (anyAction)
open Wire

/-! ## Complete commands -/

/-- All bytes of the pending command have arrived. -/
def CommandArrived (w : World) : Prop :=
  w.ctx.continuation = false ∧ ∃ o, op w.pendingBytes = some o ∧
    configEnd o w.pendingBytes + payloadLen o w.pendingBytes ≤ w.pendingBytes.length

/-- A continuation can take its next step without further bytes: only a fast
    write needs any. -/
def ContinuationReady (w : World) : Prop :=
  w.ctx.continuation = true ∧ ∀ fastdata,
    LsejtagCmdOp.ofCode? w.ctx.contOp = some (writeOp fastdata) →
      blockBytes (truncateXfers w.ctx) ≤ w.ctx.bufferedLength + w.rx.length

/-! ## Repeated dispatches -/

/-- Call `lsejtag_dispatch` `n` times and then once more. -/
def dispatchAgain : Nat → World → DispatchM
  | 0, w => lsejtagDispatch w
  | n + 1, w => do
    let (_, w) ← lsejtagDispatch w
    dispatchAgain n w

/-- Some call returns a result that makes the main loop act. -/
def ReachesResult (w : World) : Prop :=
  ∃ n r w', dispatchAgain n w = .ok (r, w') ∧ r ≠ .dprIncomplete ∧ r ≠ .dprClean

/-- Dispatching gets on whenever nothing is missing, and `dpr_clean` means what
    its documentation says. -/
structure DispatchProgresses (w : World) : Prop where
  reaches : CommandArrived w ∨ ContinuationReady w → ReachesResult w
  clean : ∀ w', lsejtagDispatch w = .ok (.dprClean, w') →
    w.ctx.cmdBufState = .cbsClean ∧ w.ctx.continuation = false

/-! ## Stalls -/

/-- A continuation with nothing buffered and nothing to read. -/
def ContinuationIdle (w : World) : Prop :=
  w.ctx.continuation = true ∧ w.ctx.bufferedLength = 0 ∧ w.rx = []

/-- The pending command has no payload, and its section is the last thing that
    arrived. -/
def EndsWithConfig (w : World) : Prop :=
  w.ctx.cmdBufState ≠ .cbsExecute ∧ ∃ o, op w.pendingBytes = some o ∧
    2 < configEnd o w.pendingBytes ∧ payloadLen o w.pendingBytes = 0 ∧
    w.pendingBytes.length = configEnd o w.pendingBytes

/-- The parser is reached and does not get on. -/
def Stalls (w : World) : Prop :=
  w.ctx.Quiet ∧ (ContinuationIdle w ∨ EndsWithConfig w ∨ CommandArrived w ∧ ¬CfgRoom w)

section stalls

variable {w w' : World}

/-- A result other than the two that make the main loop dispatch again. -/
theorem reachesResult_now {r : LsejtagDispatchResult} (dispatched : lsejtagDispatch w = .ok (r, w'))
    (notIncomplete : r ≠ .dprIncomplete) (notClean : r ≠ .dprClean) : ReachesResult w :=
  ⟨0, r, w', dispatched, notIncomplete, notClean⟩

theorem reachesResult_later {r : LsejtagDispatchResult}
    (dispatched : lsejtagDispatch w = .ok (r, w')) (later : ReachesResult w') :
    ReachesResult w := by
  obtain ⟨n, r', w'', again, notIncomplete, notClean⟩ := later
  exact ⟨n + 1, r', w'', by rw [dispatchAgain, dispatched]; exact again, notIncomplete, notClean⟩

/-- Too short a section is buffered, and the parser waits for the rest. -/
theorem CfgStage.rest_of_short {o : LsejtagCmdOp} {cmd : List Byte} {p b rxLen : Nat}
    {enough : Prop} {r : LsejtagDispatchResult} {state : LsejtagCmdBufState}
    {buffered waiting k : Nat} (config : 2 < configEnd o cmd) (short : ¬enough)
    (stage : CfgStage o.kind (configEnd o cmd) p b rxLen enough r state buffered waiting k) :
    r = .dprIncomplete ∧ state = .cbsWaitCfg ∧ buffered = b + rxLen ∧ k = rxLen := by
  cases stage with
  | bare isKind =>
    rw [configEnd_bare isKind] at config
    omega
  | rest => exact ⟨rfl, rfl, rfl, rfl⟩
  | tooLong _ configured | loopback _ configured | fast _ configured =>
    exact absurd configured short
  | payloadRest _ configured | payload _ configured => exact absurd (configured config) short

theorem ParserStepped.ne_clean {r : LsejtagDispatchResult} (stepped : ParserStepped w r w') :
    r ≠ .dprClean := by
  cases stepped with
  | config _ _ _ _ _ _ _ returned =>
    obtain ⟨_, _, _, _, -, stage⟩ := returned
    cases stage <;> simp
  | _ => simp

/-- A command that is complete waits only in `wait_cfg`, everything buffered. -/
theorem ParserStepped.rest_of_arrived (inv : ParserInv w.ctx) (arrived : CommandArrived w)
    (stepped : ParserStepped w .dprIncomplete w') :
    w.ctx.cmdBufState ≠ .cbsExecute ∧ w'.ctx.cmdBufState = .cbsWaitCfg ∧ w'.rx = [] ∧
      w'.pendingBytes = w.pendingBytes ∧
      (w.ctx.cmdBufState = .cbsWaitCfg → EndsWithConfig w) := by
  obtain ⟨-, o, isOp, complete⟩ := arrived
  have low := configEnd_le o w.pendingBytes
  have length := length_pendingBytes inv.bounded
  -- The command is pending as a whole, so each wait for more of its bytes contradicts the
  -- counts, except the one that finds its section complete and no payload behind it.
  generalize isResult : LsejtagDispatchResult.dprIncomplete = r at stepped
  cases stepped with
  | firstByte state one =>
    cases inv with
    | clean _ _ _ nothing => omega
    | _ state' => simp [state] at state'
  | noByte state noRx =>
    cases inv with
    | waitHeader _ _ _ one =>
      rw [noRx, List.length_nil] at length
      omega
    | _ state' => simp [state] at state'
  | unknown | payload | ready => cases isResult
  | config middle fetched o' isOp' entry _ _ returned =>
    cases isResult
    obtain ⟨state, buffered, waiting, k, parsed, stage⟩ := returned
    obtain ⟨same, midOp, midEnd, midLength⟩ := fetched.pending inv
    cases isOp'.symm.trans (midOp.trans isOp)
    have midEnd := midEnd o
    have header := entry.header
    have avail := entry.avail
    generalize isState : state = left at parsed stage
    cases stage with
    | rest config short =>
      refine ⟨fetched.notReady, parsed.state, ?_, parsed.pendingBytes.trans same, fun state => ?_⟩
      · rw [parsed.took.rx, List.drop_length]
      · cases fetched with
        | there => exact ⟨by simp [state], o, isOp, by omega, by omega, by omega⟩
        | second state' | both state' => simp [state] at state'
    | payloadRest isKind configured fits short =>
      have taken := parsed.pendingBytes.trans same
      have after := parsed.buffered
      have sameEnd := parsed.took.configEnd header o
      have payload := payloadLen_pendingBytes (w := w') (o := o) (by omega) (by omega)
      rw [taken, ← bufferedPayloadLen_payload isKind w'.ctx.cmd] at payload
      omega
  | payloadRest state short =>
    have counts := inv.payload_pending state isOp
    omega

/-- A command that ends with its section makes no step but to be buffered. -/
theorem ParserStepped.rest_of_ends {r : LsejtagDispatchResult} (inv : ParserInv w.ctx)
    (ends : EndsWithConfig w) (stepped : ParserStepped w r w') :
    r = .dprIncomplete ∧ EndsWithConfig w' := by
  obtain ⟨notReady, o, isOp, config, noPayload, isEnd⟩ := ends
  have length := length_pendingBytes inv.bounded
  cases stepped with
  | firstByte state one =>
    cases inv with
    | clean _ _ _ nothing => omega
    | _ state' => simp [state] at state'
  | noByte state noRx =>
    cases inv with
    | waitHeader _ _ _ one =>
      rw [noRx, List.length_nil] at length
      omega
    | _ state' => simp [state] at state'
  | unknown middle fetched noOp =>
    obtain ⟨-, midOp, -⟩ := fetched.pending inv
    cases noOp.symm.trans (midOp.trans isOp)
  | config middle fetched o' isOp' entry _ _ returned =>
    obtain ⟨state, buffered, waiting, k, parsed, stage⟩ := returned
    obtain ⟨same, midOp, midEnd, midLength⟩ := fetched.pending inv
    cases isOp'.symm.trans (midOp.trans isOp)
    have midEnd := midEnd o
    have avail := entry.avail
    obtain ⟨rfl, rfl, rfl, rfl⟩ := stage.rest_of_short (by omega) (by omega)
    refine ⟨rfl, by simp [parsed.state], o, ?_⟩
    rw [parsed.pendingBytes, same]
    exact ⟨isOp, config, noPayload, isEnd⟩
  | payloadRest state | payload state =>
    have counts := inv.payload_pending state isOp
    omega
  | ready state => exact absurd state notReady

end stalls

/-! ## Getting on -/

/-- A world the main loop can dispatch from, with the parser next. -/
structure ParserNext (w : World) : Prop where
  quiet : w.ctx.Quiet
  inv : ParserInv w.ctx
  ring : w.rx.length ≤ 256
  some : ¬(w.rx = [] ∧ w.ctx.bufferedLength = 0)

namespace ParserNext

variable {w w' : World}

/-- With room for the ring, the dispatch is a step of the parser. -/
theorem stepped (next : ParserNext w) (room : CfgRoom w) :
    ∃ r w', lsejtagDispatch w = .ok (r, w') ∧ ParserStepped w r w' ∧ ParserMoved w w' := by
  obtain ⟨quiet, inv, ring, some⟩ := next
  obtain ⟨r, w', parsed, stepped⟩ := dispatchCmdBuf_stepped inv ring some room
  refine ⟨r, w', (lsejtagDispatch_quiet quiet some).trans parsed, stepped, ?_⟩
  obtain ⟨-, rfl, -⟩ | returned := dispatchCmdBuf_returned parsed
  · exact .refl w'
  · exact returned.moved

/-- The parser is next again while bytes are pending. -/
theorem after (next : ParserNext w) (moved : ParserMoved w w')
    (stepped : ParserStepped w .dprIncomplete w') (pending : w'.pendingBytes ≠ []) :
    ParserNext w' := by
  refine ⟨moved.quiet next.quiet, stepped.inv next.inv moved.cont (by simp),
    moved.rxKept.rx_le.trans next.ring, fun ⟨rx, nothing⟩ => pending ?_⟩
  simp [World.pendingBytes, World.buffered, rx, nothing]

theorem pending_ne_nil (next : ParserNext w) : w.pendingBytes ≠ [] := by
  intro nil
  have length := length_pendingBytes next.inv.bounded
  rw [nil, List.length_nil] at length
  exact next.some ⟨List.length_eq_zero_iff.mp (by omega), by omega⟩

theorem ends_step (next : ParserNext w) (ends : EndsWithConfig w) :
    ∃ w', lsejtagDispatch w = .ok (.dprIncomplete, w') ∧ ParserNext w' ∧ EndsWithConfig w' := by
  have room : CfgRoom w := by
    intro state o isOp beyond
    obtain ⟨-, o', isOp', -, -, isEnd⟩ := ends
    obtain ⟨-, midOp, midEnd, midLength⟩ := (HeaderFetched.there state).pending next.inv
    cases isOp'.symm.trans (midOp.symm.trans isOp)
    have midEnd := midEnd o
    omega
  obtain ⟨r, w', dispatched, stepped, moved⟩ := next.stepped room
  obtain ⟨rfl, ends'⟩ := stepped.rest_of_ends next.inv ends
  refine ⟨w', dispatched, next.after moved stepped ?_, ends'⟩
  obtain ⟨-, o, -, config, -, isEnd⟩ := ends'
  intro nil
  have length := congrArg List.length nil
  rw [isEnd, List.length_nil] at length
  omega

/-- A command that ends with its section is waited on for ever. -/
theorem ends_incomplete {n : Nat} {r : LsejtagDispatchResult} (next : ParserNext w)
    (ends : EndsWithConfig w) (again : dispatchAgain n w = .ok (r, w')) : r = .dprIncomplete := by
  induction n generalizing w with
  | zero =>
    obtain ⟨_, dispatched, -⟩ := next.ends_step ends
    cases again.symm.trans dispatched
    rfl
  | succ n ih =>
    obtain ⟨middle, dispatched, next', ends'⟩ := next.ends_step ends
    rw [dispatchAgain, dispatched, Lib.ok_bind] at again
    exact ih next' ends' again

/-- In `wait_cfg` one dispatch is enough for a complete command. -/
theorem waitCfg_reaches (next : ParserNext w) (arrived : CommandArrived w)
    (notEnds : ¬EndsWithConfig w) (room : CfgRoom w) (state : w.ctx.cmdBufState = .cbsWaitCfg) :
    ReachesResult w := by
  obtain ⟨r, w', dispatched, stepped, -⟩ := next.stepped room
  refine reachesResult_now dispatched ?_ stepped.ne_clean
  rintro rfl
  obtain ⟨-, -, -, -, ends⟩ := stepped.rest_of_arrived next.inv arrived
  exact notEnds (ends state)

/-- Anywhere else two are. -/
theorem arrived_reaches (next : ParserNext w) (arrived : CommandArrived w)
    (notEnds : ¬EndsWithConfig w) (room : CfgRoom w) : ReachesResult w := by
  obtain ⟨r, w', dispatched, stepped, moved⟩ := next.stepped room
  by_cases incomplete : r = .dprIncomplete
  · cases incomplete
    obtain ⟨notReady, state, rx, same, -⟩ := stepped.rest_of_arrived next.inv arrived
    have next' := next.after moved stepped (same ▸ next.pending_ne_nil)
    have bounded := next'.inv.bounded
    refine reachesResult_later dispatched (next'.waitCfg_reaches ?_ ?_ ?_ state)
    · obtain ⟨fresh, command⟩ := arrived
      rw [CommandArrived, same, moved.cont]
      exact ⟨fresh, command⟩
    · rintro ⟨-, ends⟩
      rw [same] at ends
      exact notEnds ⟨notReady, ends⟩
    · intro _ _ _ _
      rw [rx]
      exact bounded
  · exact reachesResult_now dispatched incomplete stepped.ne_clean

end ParserNext

/-! ## Exactly when -/

theorem lsejtagDispatch_busy {w : World} (busy : ¬w.ctx.Quiet) :
    ∃ r w', lsejtagDispatch w = .ok (r, w') ∧ r ≠ .dprIncomplete ∧ r ≠ .dprClean := by
  simp only [lsejtagDispatch]
  split
  · exact ⟨_, _, rfl, by simp, by simp⟩
  rename_i calm
  split
  · exact ⟨_, _, rfl, by simp, by simp⟩
  rename_i old
  split
  · exact ⟨_, _, rfl, by simp, by simp⟩
  rename_i unprepared
  simp only [Bool.or_eq_true, not_or, Bool.not_eq_true] at calm old unprepared
  exact absurd ⟨calm, old, unprepared.1, unprepared.2⟩ busy

theorem lsejtagDispatch_empty {w : World} (quiet : w.ctx.Quiet) (noRx : w.rx = [])
    (nothing : w.ctx.bufferedLength = 0) : lsejtagDispatch w = .ok (.dprClean, w) := by
  simp [lsejtagDispatch, quiet.noFlush, quiet.noNewData, quiet.noBlockA, quiet.noBlockB, noRx,
    nothing]

section exactly

variable {w : World} (inv : ParserInv w.ctx) (ring : w.rx.length ≤ 256)
include inv ring

theorem not_progresses_of_stalls (stalls : Stalls w) : ¬DispatchProgresses w := by
  rintro ⟨reaches, clean⟩
  obtain ⟨quiet, ⟨continues, nothing, noRx⟩ | ends | ⟨arrived, noRoom⟩⟩ := stalls
  · have fresh := (clean w (lsejtagDispatch_empty quiet noRx nothing)).2
    simp [fresh] at continues
  · have length := length_pendingBytes inv.bounded
    have next : ParserNext w := by
      refine ⟨quiet, inv, ring, fun ⟨noRx, nothing⟩ => ?_⟩
      obtain ⟨-, o, -, config, -, isEnd⟩ := ends
      rw [noRx, nothing, List.length_nil] at length
      omega
    have arrived : CommandArrived w := by
      obtain ⟨notReady, o, isOp, -, noPayload, isEnd⟩ := ends
      exact ⟨inv.fresh notReady, o, isOp, by omega⟩
    obtain ⟨n, r, w', again, notIncomplete, -⟩ := reaches (.inl arrived)
    exact notIncomplete (next.ends_incomplete ends again)
  · obtain ⟨why, -, failed⟩ := dispatchCmdBuf_overruns inv ring noRoom
    have some : ¬(w.rx = [] ∧ w.ctx.bufferedLength = 0) := by
      rintro ⟨noRx, nothing⟩
      exact noRoom fun _ _ _ _ => by simp [noRx, nothing]
    have stops : lsejtagDispatch w = .error why := (lsejtagDispatch_quiet quiet some).trans failed
    obtain ⟨n, r, w', again, -⟩ := reaches (.inl arrived)
    cases n with
    | zero => cases again.symm.trans stops
    | succ n =>
      rw [dispatchAgain, stops] at again
      cases again

theorem progresses_of_not_stalls (fine : ¬Stalls w) : DispatchProgresses w := by
  -- While a scan or a flush is pending the dispatcher asks for it, whatever the parser holds.
  by_cases quiet : w.ctx.Quiet
  swap
  · obtain ⟨r, w', dispatched, notIncomplete, notClean⟩ := lsejtagDispatch_busy quiet
    refine ⟨fun _ => reachesResult_now dispatched notIncomplete notClean, fun w'' clean => ?_⟩
    cases dispatched.symm.trans clean
    exact absurd rfl notClean
  by_cases empty : w.rx = [] ∧ w.ctx.bufferedLength = 0
  · -- nothing buffered and nothing to read: only a clean parser is left
    obtain ⟨noRx, nothing⟩ := empty
    have fresh : w.ctx.continuation = false := by
      cases continues : w.ctx.continuation with
      | false => rfl
      | true => exact absurd ⟨quiet, .inl ⟨continues, nothing, noRx⟩⟩ fine
    refine ⟨?_, fun _ _ => ⟨?_, fresh⟩⟩
    · rintro (⟨-, o, -, complete⟩ | ⟨continues, -⟩)
      · have low := configEnd_le o w.pendingBytes
        rw [length_pendingBytes inv.bounded, noRx, nothing, List.length_nil] at complete
        omega
      · simp [fresh] at continues
    · cases inv with
      | clean state => exact state
      | waitHeader _ _ _ one => omega
      | waitCfg _ _ _ _ _ _ header => omega
      | waitPayload _ _ _ o _ _ config =>
        have low := configEnd_le o w.ctx.cmd
        omega
      | ready _ _ _ _ _ header => omega
      | continued _ continues => simp [fresh] at continues
  · have next : ParserNext w := ⟨quiet, inv, ring, empty⟩
    refine ⟨?_, fun w' dispatched => ?_⟩
    · rintro (arrived | ⟨continues, -⟩)
      · exact next.arrived_reaches arrived (fun ends => fine ⟨quiet, .inr (.inl ends)⟩)
          (by_contra fun noRoom => fine ⟨quiet, .inr (.inr ⟨arrived, noRoom⟩)⟩)
      · have ready : w.ctx.cmdBufState = .cbsExecute := by
          by_contra notReady
          simp [inv.fresh notReady] at continues
        have parsed : lsejtagDispatch w = .ok (.dprExecute, w) := by
          rw [lsejtagDispatch_quiet quiet empty]
          simp only [dispatchCmdBuf, ready]
        exact reachesResult_now parsed (by simp) (by simp)
    · rw [lsejtagDispatch_quiet quiet empty] at dispatched
      obtain ⟨-, -, -, state⟩ | ⟨-, result⟩ := dispatchCmdBuf_returned dispatched
      · exact ⟨state, inv.fresh (by simp [state])⟩
      · cases result

end exactly

/-- In every state the main loop can be in before an access outside an array,
    dispatching gets on unless the state is one of those that stall. -/
theorem dispatch_progresses_iff {s : MainState} (reach : mainLoop.Reachable s)
    (running : s.Running) : DispatchProgresses s.world ↔ ¬Stalls s.world := by
  obtain ⟨⟨-, ring⟩, inv⟩ := mainLoop_parserInv reach
  exact ⟨fun progresses stalls => not_progresses_of_stalls (inv running) ring stalls progresses,
    progresses_of_not_stalls (inv running) ring⟩

/-- A request for the firmware date gets on: it has no section to wait for. -/
theorem dispatch_progresses_firmware_date : ∃ s : MainState, mainLoop.Reachable s ∧
    CommandArrived s.world ∧ DispatchProgresses s.world := by
  have ran : (mainLoop.run anyAction .start [.usbOut [0x00, 0x7c]]).any
      (fun s => decide (s.pc = .dispatch ∧ s.world.ctx.continuation = false ∧
        s.world.ctx.cmdBufState = .cbsClean ∧
        s.world.pendingBytes = [0x00, 0x7c])) = true := by
    decide +kernel
  obtain ⟨s, reach, holds⟩ := Lib.Machine.exists_reach _ rfl ran
  obtain ⟨at_pc, fresh, state, pending⟩ := of_decide_eq_true holds
  have running : s.Running := fun why => by simp [at_pc]
  have isOp : op s.world.pendingBytes = some .opGetFirmwareDate := by
    rw [pending]
    decide
  refine ⟨s, reach, ⟨fresh, _, isOp, by simp [pending, configEnd, configLen, payloadLen]⟩,
    (dispatch_progresses_iff reach running).mpr ?_⟩
  rintro ⟨-, ⟨continues, -⟩ | ⟨-, o, isOp', config, -⟩ | ⟨-, noRoom⟩⟩
  · simp [fresh] at continues
  · cases isOp.symm.trans isOp'
    exact absurd config (Nat.lt_irrefl 2)
  · exact noRoom fun state' => by simp [state] at state'

/-- A fast read is complete with its configuration section, and is waited on. -/
theorem fast_read_waited_on : ∃ s : MainState, mainLoop.Reachable s ∧ s.Running ∧
    CommandArrived s.world ∧ ¬DispatchProgresses s.world := by
  have ran : (mainLoop.run anyAction .start
      [.usbOut [0x00, 0x3c, 0x00, 0x00, 0x01, 0x00, 0x00, 0x00, 0x00, 0x00]]).any
      (fun s => decide (s.pc = .dispatch ∧ s.world.ctx.Quiet ∧
        s.world.ctx.continuation = false ∧ s.world.ctx.cmdBufState = .cbsClean ∧
        op s.world.pendingBytes = some .opFastTargetMemRead ∧
        s.world.pendingBytes.length = 10)) = true := by
    decide +kernel
  obtain ⟨s, reach, holds⟩ := Lib.Machine.exists_reach _ rfl ran
  obtain ⟨at_pc, quiet, fresh, state, isOp, length⟩ := of_decide_eq_true holds
  have running : s.Running := fun why => by simp [at_pc]
  obtain ⟨⟨-, ring⟩, inv⟩ := mainLoop_parserInv reach
  have ends : EndsWithConfig s.world :=
    ⟨by simp [state], _, isOp, by simp [configEnd, configLen], rfl, length⟩
  exact ⟨s, reach, running, ⟨fresh, _, isOp, length.ge⟩,
    not_progresses_of_stalls (inv running) ring ⟨quiet, .inr (.inl ends)⟩⟩

end LoongsonEjtag
