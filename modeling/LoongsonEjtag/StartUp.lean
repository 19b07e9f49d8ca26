import LoongsonEjtag.Engine
import LoongsonEjtag.Lib.History

/-! # From reset to the main loop

`main` brings the TAP controller into a known state before it enters its loop:
`init_reset_tap_via_tms` hands a sequence of its own to `lsejtag_impl_run_jtag`,
as `io_tap_reset` does later.  Whoever calls it, the routine completes through
`active_bufblk`.

* `fromReset` — the machine from reset on.
* `CompletesAfter` — a completion refers to a block exactly if
  `lsejtag_run_jtag` has started one before.
* `completions_real_iff` — so it is in every run, and the start-up reset always
  completes through a null pointer.
-/

namespace LoongsonEjtag

open Lib (Byte Dword Machine Each each_nil each_snoc bind_eq_ok)
open Wire

/-! ## `main` -/

/-- `main` before and in its loop. -/
inductive MainPhase where
  | reset
  | initialised (world : World)
  | looping (s : MainState)

/-- The sequence of `init_reset_tap_via_tms`. -/
def startUpResetSeq : JtagSeq := ⟨[0], [0x0FFFFFFF], 32, 0, 0⟩

/-- `init_reset_tap_via_tms`. -/
def initResetTapViaTms (w : World) (tdo : Nat → Bool) : Except Halt World :=
  lsejtagImplRunJtag (w.log (.runDirect startUpResetSeq)) startUpResetSeq none tdo

/-- The next call of `main`, or new bytes from the host: once `init_software` is
    through they can arrive at any time. -/
def mainPhaseStep : MainPhase → MainInput → Option MainPhase
  | .reset, .usbOut _ => none
  | .reset, .poll _ _ => some (.initialised World.start)
  | .initialised w, .usbOut bytes =>
    if w.rx.length + bytes.length ≤ usbrxCapacity then some (.initialised (w.receive bytes))
    else none
  | .initialised w, .poll _ tdo =>
    match initResetTapViaTms w tdo with
    | .ok w => some (.looping ⟨w, .dispatch⟩)
    | .error why => some (.looping ⟨w, .halted why⟩)
  | .looping s, input => (mainStep s input).map .looping

/-- The firmware from reset on. -/
def fromReset : Machine MainPhase MainInput where
  init s := s = .reset
  step := mainPhaseStep

namespace MainPhase

def trace : MainPhase → List Event
  | .reset => []
  | .initialised w => w.trace
  | .looping s => s.world.trace

/-- The start-up reset is behind. -/
def inLoop : MainPhase → Bool
  | .looping _ => true
  | _ => false

end MainPhase

/-! ## Completions in a trace -/

def Event.completedBufblk : Event → List (Option BufId)
  | .complete active => [active]
  | _ => []

/-- What the completions of a trace refer to. -/
def completions (t : List Event) : List (Option BufId) := t.flatMap Event.completedBufblk

/-- `lsejtag_run_jtag` has started a block. -/
def RanBlock (t : List Event) : Prop := ∃ seq, Event.runBlock seq ∈ t

/-- A completion refers to a block exactly if one was started before it. -/
def CompletesAfter (before : List Event) : Event → Prop
  | .complete active => active ≠ none ↔ RanBlock before
  | _ => True

theorem ranBlock_concat {t : List Event} {e : Event} :
    RanBlock (t ++ [e]) ↔ RanBlock t ∨ ∃ seq, e = .runBlock seq := by
  simp only [RanBlock, List.mem_append, List.mem_singleton, exists_or, eq_comm]

/-! ## The active block -/

/-- `active_bufblk` refers to a block once one was started. -/
structure ActiveInv (w : World) : Prop where
  active : w.ctx.activeBufblk ≠ none ↔ RanBlock w.trace
  completes : Each CompletesAfter w.trace

/-- An event that starts no block, and completes through `active` if at all. -/
def Event.KeepsActive (active : Option BufId) : Event → Prop
  | .runBlock _ => False
  | .complete through => through = active
  | _ => True

/-- A call that leaves `active_bufblk` alone. -/
structure KeepsActive (w w' : World) : Prop where
  active : w'.ctx.activeBufblk = w.ctx.activeBufblk
  trace : ∃ es, w'.trace = w.trace ++ es ∧ ∀ e ∈ es, e.KeepsActive w.ctx.activeBufblk

namespace KeepsActive

variable {w w' w'' : World}

/-- Nothing is added to the trace. -/
theorem silent (active : w'.ctx.activeBufblk = w.ctx.activeBufblk) (trace : w'.trace = w.trace) :
    KeepsActive w w' :=
  ⟨active, [], by rw [trace, List.append_nil], fun _ member => by cases member⟩

theorem one {e : Event} (active : w'.ctx.activeBufblk = w.ctx.activeBufblk)
    (trace : w'.trace = w.trace ++ [e]) (keeps : e.KeepsActive w.ctx.activeBufblk) :
    KeepsActive w w' :=
  ⟨active, [e], trace, fun _ member => by rw [List.mem_singleton.mp member]; exact keeps⟩

theorem trans (first : KeepsActive w w') (second : KeepsActive w' w'') : KeepsActive w w'' := by
  obtain ⟨active, es, trace, keeps⟩ := first
  obtain ⟨active', es', trace', keeps'⟩ := second
  refine ⟨active'.trans active, es ++ es', ?_, ?_⟩
  · rw [trace', trace, List.append_assoc]
  · intro e member
    obtain member | member := List.mem_append.mp member
    · exact keeps e member
    · rw [← active]
      exact keeps' e member

end KeepsActive

namespace ActiveInv

variable {w w' : World}

theorem event (inv : ActiveInv w) {e : Event} (active : w'.ctx.activeBufblk = w.ctx.activeBufblk)
    (trace : w'.trace = w.trace ++ [e]) (keeps : e.KeepsActive w.ctx.activeBufblk) :
    ActiveInv w' := by
  have noBlock : ¬∃ seq, e = .runBlock seq := by
    rintro ⟨seq, rfl⟩
    exact keeps
  constructor
  · rw [active, trace, ranBlock_concat, inv.active]
    exact (or_iff_left noBlock).symm
  · rw [trace]
    refine each_snoc.mpr ⟨inv.completes, ?_⟩
    cases e with
    | complete through =>
      rw [show through = w.ctx.activeBufblk from keeps]
      exact inv.active
    | _ => trivial

theorem keeps (inv : ActiveInv w) (keeps : KeepsActive w w') : ActiveInv w' := by
  obtain ⟨active, es, trace, keeps⟩ := keeps
  induction es generalizing w with
  | nil =>
    rw [List.append_nil] at trace
    exact ⟨by rw [active, trace]; exact inv.active, by rw [trace]; exact inv.completes⟩
  | cons e es ih =>
    have next : ActiveInv (w.log e) :=
      inv.event rfl rfl (keeps e List.mem_cons_self)
    refine ih next active ?_ fun e' member => keeps e' (List.mem_cons_of_mem e member)
    rw [trace, World.trace_log, List.append_assoc, List.singleton_append]

/-- A block is started and completes through itself. -/
theorem ran (inv : ActiveInv w) {id : BufId} {buf : Vector Dword 64} {dwords : Nat}
    (ran : JtagRan w id buf dwords w') : ActiveInv w' := by
  have started : RanBlock (w.trace ++ [.runBlock (w.ctx.jtagbuf id).seq]) :=
    ranBlock_concat.mpr (.inr ⟨_, rfl⟩)
  have active : w'.ctx.activeBufblk = some id := by
    rw [ran.ctx]
    rfl
  have trace : w'.trace = w.trace ++ [.runBlock (w.ctx.jtagbuf id).seq] ++ [.complete (some id)] ++
      [.completeTdo ((buf.toList.drop w.ctx.tdoDmaPtr).take dwords)] := by
    rw [ran.trace]
    simp
  have before : Each CompletesAfter (w.trace ++ [.runBlock (w.ctx.jtagbuf id).seq]) :=
    each_snoc.mpr ⟨inv.completes, trivial⟩
  have completed : Each CompletesAfter
      (w.trace ++ [.runBlock (w.ctx.jtagbuf id).seq] ++ [.complete (some id)]) :=
    each_snoc.mpr ⟨before, fun _ => started, fun _ => by simp⟩
  constructor
  · rw [active, trace, ranBlock_concat, ranBlock_concat]
    exact ⟨fun _ => .inl (.inl started), fun _ => by simp⟩
  · rw [trace]
    exact each_snoc.mpr ⟨completed, trivial⟩

end ActiveInv

/-! ## Commands -/

section commands

variable {w w' : World} {r : LsejtagCmdExecResult} {txFree : Nat} {tdo : Nat → Bool}

theorem cmdimplProbeMemRw_keepsActive (executed : cmdimplProbeMemRw w txFree = .ok (r, w')) :
    KeepsActive w w' := by
  simp only [cmdimplProbeMemRw] at executed
  split at executed
  · obtain ⟨after, wrote, finished⟩ := bind_eq_ok.mp executed
    obtain ⟨params, es, reconfigures, rfl⟩ := probeMemWrite_ok wrote
    cases finished
    refine ⟨rfl, es, rfl, ?_⟩
    intro e member
    obtain ⟨_, _, rfl⟩ := reconfigures e member
    trivial
  · split at executed
    · cases executed
      exact .silent rfl rfl
    · cases executed
      exact .one rfl rfl trivial

theorem cmdimplGetFirmwareDate_keepsActive
    (executed : cmdimplGetFirmwareDate w txFree = .ok (r, w')) : KeepsActive w w' := by
  simp only [cmdimplGetFirmwareDate] at executed
  split at executed
  · cases executed
    exact .silent rfl rfl
  · cases executed
    exact .one rfl rfl trivial

/-- A sequence that is handed to the port directly completes through whatever
    block was active before. -/
theorem direct_keepsActive {seq : JtagSeq} (free : w.ctx.periphFree = true)
    (small : w.ctx.tdoInDwords ≤ 64) (silent : seq.tdoBits = 0)
    (ran : lsejtagImplRunJtag (w.log (.runDirect seq)) seq none tdo = .ok w') :
    KeepsActive w w' := by
  obtain rfl := lsejtagImplRunJtag_silent (w := w.log _) free small silent ran
  refine ⟨rfl, [.runDirect seq, .complete w.ctx.activeBufblk, .completeTdo []], ?_, ?_⟩
  · simp
  · simp [Event.KeepsActive]

theorem cmdimplIoManip_keepsActive (free : w.ctx.periphFree = true)
    (small : w.ctx.tdoInDwords ≤ 64) (executed : cmdimplIoManip w tdo = .ok (r, w')) :
    KeepsActive w w' := by
  simp only [cmdimplIoManip] at executed
  split at executed
  · cases executed
    exact .silent rfl rfl
  · obtain ⟨after, port, finished⟩ := bind_eq_ok.mp executed
    cases finished
    have clean : KeepsActive after { after with ctx := cmdBufClean after.ctx } := .silent rfl rfl
    refine .trans ?_ clean
    simp only [ioManipPort] at port
    split at port
    · cases port
      exact .one rfl rfl trivial
    · cases port
      exact .one rfl rfl trivial
    · cases port
      exact .one rfl rfl trivial
    · cases port
      exact .one rfl rfl trivial
    · rw [waitUntilJtagPeriphFree_ok free, Lib.ok_bind] at port
      obtain ⟨ran, direct, waited⟩ := bind_eq_ok.mp port
      cases waitUntilJtagPeriphFree_eq waited
      exact direct_keepsActive free small rfl direct
    · cases port
      exact .silent rfl rfl

theorem PayloadFetched.keepsActive {complete : Bool} (fetched : PayloadFetched w complete w') :
    KeepsActive w w' := by
  cases fetched with
  | enough => exact .silent rfl rfl
  | filled => exact .one rfl rfl trivial
  | short => exact .one rfl rfl trivial

theorem truncateXfers_keepsActive (w : World) :
    KeepsActive w { w with ctx := truncateXfers w.ctx } := by
  rw [truncateXfers]
  split
  · exact .silent rfl rfl
  · exact .silent rfl rfl

theorem finishXfers_keepsActive (ends : (r, w') = finishXfers w) : KeepsActive w w' := by
  rw [finishXfers] at ends
  split at ends
  · cases ends
    exact .silent rfl rfl
  · cases ends
    exact .silent rfl rfl

theorem World.placed_keepsActive (w : World) (blk : JtagbufBlk) (buffered left : Nat) :
    KeepsActive w (w.placed blk buffered left) := .one rfl rfl trivial

/-- What takes more than one step of the main loop never runs JTAG itself. -/
theorem Executed.keepsActive (executed : Executed w r w')
    (notAtOnce : w.ctx.continuation = false → ¬isAtOnce w.ctx.cmd) : KeepsActive w w' := by
  cases executed with
  | awaitTx | kept | badContinue => exact .silent rfl rfl
  | awaitFlush | readFull => exact .silent rfl rfl
  | answered fresh _ atOnce | tapReset fresh _ atOnce => exact absurd atOnce (notAtOnce fresh)
  | scanned => exact .one rfl rfl trivial
  | writeStarted | readStarted => exact .one rfl rfl trivial
  | payloadShort _ _ _ _ fetched => exact (truncateXfers_keepsActive w).trans fetched.keepsActive
  | blockWritten _ _ _ middle fetched _ _ _ _ ends =>
    have fetch := (truncateXfers_keepsActive w).trans fetched.keepsActive
    exact (fetch.trans (middle.placed_keepsActive _ _ _)).trans (finishXfers_keepsActive ends)
  | blockRead _ _ _ _ _ _ ends =>
    exact (w.placed_keepsActive _ _ _).trans (finishXfers_keepsActive ends)

theorem lsejtagExecute_keepsActive (free : w.ctx.periphFree = true)
    (small : w.ctx.tdoInDwords ≤ 64) (ready : w.ctx.cmdBufState = .cbsExecute)
    (executed : lsejtagExecute w txFree tdo = .ok (r, w')) : KeepsActive w w' := by
  by_cases atOnce : w.ctx.continuation = false ∧ isAtOnce w.ctx.cmd
  · obtain ⟨fresh, atOnce⟩ := atOnce
    simp only [lsejtagExecute, ready, fresh, ne_eq, not_true_eq_false, Bool.false_eq_true,
      if_false] at executed
    obtain isOp | isOp | isOp := atOnce
    · simp only [executeCommand, isOp] at executed
      exact cmdimplProbeMemRw_keepsActive executed
    · simp only [executeCommand, isOp] at executed
      exact cmdimplIoManip_keepsActive free small executed
    · simp only [executeCommand, isOp] at executed
      exact cmdimplGetFirmwareDate_keepsActive executed
  · exact (lsejtagExecute_executed free small ready executed).keepsActive
      fun fresh isAtOnce => atOnce ⟨fresh, isAtOnce⟩

end commands

/-! ## The main loop -/

theorem ParserMoved.keepsActive {w w' : World} (moved : ParserMoved w w') : KeepsActive w w' := by
  obtain ⟨es, trace, consumes⟩ := moved.trace
  refine ⟨by rw [moved.ctx], es, trace, ?_⟩
  intro e member
  obtain ⟨_, _, _, _, rfl⟩ := consumes e member
  trivial

theorem Dispatched.keepsActive {w w' : World} {r : LsejtagDispatchResult}
    (dispatched : Dispatched w r w') : KeepsActive w w' := by
  cases dispatched with
  | flushing | run | empty => exact .silent rfl rfl
  | flushNew => exact .silent rfl rfl
  | parsed _ _ _ _ parsed =>
    obtain ⟨-, rfl, -⟩ | returned := dispatchCmdBuf_returned parsed
    · exact .silent rfl rfl
    · exact returned.moved.keepsActive

theorem flushedTdo_active (ctx : LsejtagCtx) (dwords : Nat) :
    (ctx.flushedTdo dwords).activeBufblk = ctx.activeBufblk := by
  rw [LsejtagCtx.flushedTdo]
  split <;> rfl

/-- A step of the main loop leaves `active_bufblk` alone or runs a block. -/
inductive ActiveStepped (w w' : World) : Prop
  | keeps (keeps : KeepsActive w w')
  | ran {id : BufId} {buf : Vector Dword 64} {dwords : Nat} (ran : JtagRan w id buf dwords w')

theorem ActiveStepped.active {w w' : World} (stepped : ActiveStepped w w') (inv : ActiveInv w) :
    ActiveInv w' := by
  cases stepped with
  | keeps keeps => exact inv.keeps keeps
  | ran ran => exact inv.ran ran

theorem ActiveStepped.grows {w w' : World} (stepped : ActiveStepped w w') :
    ∃ es, w'.trace = w.trace ++ es := by
  cases stepped with
  | keeps keeps =>
    obtain ⟨es, trace, -⟩ := keeps.trace
    exact ⟨es, trace⟩
  | ran ran => exact ⟨_, ran.trace⟩

theorem mainPoll_execute {s s' : MainState} {txFree : Nat} {tdo : Nat → Bool}
    (at_pc : s.pc = .execute) (polled : mainPoll s txFree tdo = some s') :
    (∃ r w', lsejtagExecute s.world.enterExecute txFree tdo = .ok (r, w') ∧
      s' = ⟨w'.log (.executed r), .dispatch⟩) ∨
    ∃ why, s' = ⟨s.world.enterExecute, .halted why⟩ := by
  simp only [mainPoll, at_pc] at polled
  split at polled
  · cases polled
    exact .inl ⟨_, _, ‹_›, rfl⟩
  · cases polled
    exact .inr ⟨_, rfl⟩

theorem mainStep_active {s s' : MainState} {input : MainInput} (main : MainInv s)
    (stepped : mainStep s input = some s') : ActiveStepped s.world s'.world := by
  have entered : KeepsActive s.world s.world.enterExecute := .one rfl rfl trivial
  cases mainStep_stepped main stepped with
  | received => exact .keeps (.one rfl rfl trivial)
  | dispatched _ _ _ dispatched => exact .keeps dispatched.keepsActive
  | executed at_pc quiet ready =>
    obtain ⟨r, w', executed, same⟩ | ⟨why, same⟩ := mainPoll_execute at_pc stepped
    · have free : s.world.enterExecute.ctx.periphFree = true :=
        main.engine.idle.periphFree quiet.noBlockA
      have call := lsejtagExecute_keepsActive free main.engine.bounded ready executed
      have logged : KeepsActive w' (w'.log (.executed r)) := .one rfl rfl trivial
      rw [same]
      exact .keeps ((entered.trans call).trans logged)
    · exact absurd (congrArg MainState.pc same) (by simp)
  | flushed _ _ dwords _ w' ctx _ trace =>
    refine .keeps (.one ?_ trace trivial)
    rw [ctx, flushedTdo_active]
  | ran _ _ _ _ _ ran => exact .ran ran
  | nothingToRun | dispatchFailed | callFailed => exact .keeps (.silent rfl rfl)
  | executeFailed => exact .keeps entered

/-! ## Whole runs -/

/-- The start-up reset never fails, and completes through a null pointer. -/
theorem initResetTapViaTms_returns {w : World} (inv : EngineInv w) (tdo : Nat → Bool)
    (init : w.ctx = lsejtagInitCtx) :
    initResetTapViaTms w tdo = .ok ⟨{ w.ctx with tdoHaveNewData := true }, w.rx,
      w.trace ++ [.runDirect startUpResetSeq, .complete none, .completeTdo []]⟩ := by
  have free : w.ctx.periphFree = true := by rw [init]; rfl
  have silentRun : ∃ r, jtagShift startUpResetSeq w.ctx.tdoInData none tdo = .ok r ∧
      r.tdoBuf = w.ctx.tdoInData ∧ r.dwords = 0 :=
    jtagShift_silent_total none rfl (by decide) (by decide) (by decide)
  obtain ⟨r, shifted, -⟩ := silentRun
  obtain ⟨w', ran⟩ : ∃ w', initResetTapViaTms w tdo = .ok w' := by
    rw [initResetTapViaTms, lsejtagImplRunJtag, World.ctx_log, shifted]
    exact ⟨_, rfl⟩
  have result := lsejtagImplRunJtag_silent (w := w.log (.runDirect startUpResetSeq)) free
    inv.bounded rfl ran
  have noBlock : w.ctx.activeBufblk = none := by rw [init]; rfl
  rw [ran, result]
  simp [noBlock]

/-- What the firmware is like in each part of `main`. -/
def MainPhaseInv : MainPhase → Prop
  | .reset => True
  | .initialised w => EngineInv w ∧ w.ctx = lsejtagInitCtx ∧ ActiveInv w ∧
      ∀ active, Event.complete active ∉ w.trace
  | .looping s => MainInv s ∧ ActiveInv s.world ∧ Event.complete none ∈ s.world.trace

theorem activeInv_start : ActiveInv World.start := by
  refine ⟨?_, each_nil⟩
  constructor
  · intro wrong
    exact absurd rfl wrong
  · rintro ⟨_, member⟩
    cases member

theorem MainPhaseInv.step {s s' : MainPhase} {input : MainInput} (inv : MainPhaseInv s)
    (stepped : mainPhaseStep s input = some s') : MainPhaseInv s' := by
  cases s with
  | reset =>
    cases input with
    | usbOut bytes => cases stepped
    | poll txFree tdo =>
      cases stepped
      exact ⟨engineInv_start, rfl, activeInv_start, fun _ member => by cases member⟩
  | initialised w =>
    obtain ⟨engine, init, active, none⟩ := inv
    cases input with
    | usbOut bytes =>
      simp only [mainPhaseStep] at stepped
      split at stepped
      · cases stepped
        have trace : (w.receive bytes).trace = w.trace ++ [.usbOut bytes] := rfl
        refine ⟨engine.sameEngine ⟨rfl, rfl, rfl⟩ trace (by simp [AllQuiet, Event.isQuiet]), init,
          active.event rfl trace trivial, ?_⟩
        intro through
        simpa [trace] using none through
      · cases stepped
    | poll txFree tdo =>
      simp only [mainPhaseStep, initResetTapViaTms_returns engine tdo init] at stepped
      cases stepped
      have flagged := engine.setFlags true w.ctx.tdoImmediateFlush w.ctx.tdoShouldFlush id
      have noBlock : w.ctx.activeBufblk = Option.none := by rw [init]; rfl
      have after : EngineInv ⟨{ w.ctx with tdoHaveNewData := true }, w.rx,
          w.trace ++ [.runDirect startUpResetSeq, .complete Option.none, .completeTdo []]⟩ :=
        flagged.sameEngine ⟨rfl, rfl, rfl⟩ rfl
          (by simp [AllQuiet, Event.isQuiet, Event.isAnswer])
      refine ⟨⟨after, .dispatch _⟩, ?_, ?_⟩
      · refine active.keeps ⟨rfl, _, rfl, ?_⟩
        simp [Event.KeepsActive, noBlock]
      · simp
  | looping m =>
    obtain ⟨main, active, completed⟩ := inv
    simp only [mainPhaseStep, Option.map_eq_some_iff] at stepped
    obtain ⟨m', stepped, rfl⟩ := stepped
    have activeStep := mainStep_active main stepped
    refine ⟨main.step (mainStep_stepped main stepped), activeStep.active active, ?_⟩
    obtain ⟨es, trace⟩ := activeStep.grows
    rw [trace]
    exact List.mem_append_left es completed

theorem fromReset_inv {s : MainPhase} (reach : fromReset.Reachable s) : MainPhaseInv s := by
  apply reach.invariant
  · rintro s rfl
    trivial
  · exact fun _ _ _ _ inv _ stepped => inv.step stepped

/-- In no run that gets to the main loop does every completion refer to a block:
    the start-up reset does not.  Of the single completions, exactly those do that
    come after `lsejtag_run_jtag` has started a block. -/
theorem completions_real_iff {s : MainPhase} (reach : fromReset.Reachable s) :
    ((∀ active, Event.complete active ∈ s.trace → active ≠ none) ↔ s.inLoop = false) ∧
    ∀ before active after, s.trace = before ++ .complete active :: after →
      (active ≠ none ↔ RanBlock before) := by
  have inv := fromReset_inv reach
  cases s with
  | reset =>
    refine ⟨⟨fun _ => rfl, fun _ _ member => by cases member⟩, ?_⟩
    intro before active after trace
    simp [MainPhase.trace] at trace
  | initialised w =>
    obtain ⟨-, -, active, none⟩ := inv
    refine ⟨⟨fun _ => rfl, fun _ through member => absurd member (none through)⟩, ?_⟩
    exact fun before through after trace => active.completes before _ after trace
  | looping m =>
    obtain ⟨-, active, completed⟩ := inv
    refine ⟨⟨fun real => absurd rfl (real none completed), fun starting => by cases starting⟩, ?_⟩
    exact fun before through after trace => active.completes before _ after trace

/-- Before the first command. -/
theorem completions_real_first : ∃ s, fromReset.Reachable s ∧ s.inLoop = true ∧
    ¬∀ active, Event.complete active ∈ s.trace → active ≠ none := by
  have ran : (fromReset.run Machine.anyAction .reset (polls 64 2)).any (·.inLoop) = true := by
    decide +kernel
  obtain ⟨s, reach, looping⟩ := Machine.exists_reach _ rfl ran
  refine ⟨s, reach, looping, ?_⟩
  rw [(completions_real_iff reach).1, looping]
  decide

/-- The start-up reset, `io_tap_reset` as the first command, and a DR scan. -/
theorem tap_resets_complete_null : ∃ s, fromReset.Reachable s ∧
    completions s.trace = [none, none, some .a] ∧ Event.complete none ∈ s.trace := by
  have ran : (fromReset.run Machine.anyAction .reset
      (polls 64 2 ++ [.usbOut [0x0c, 0x0c]] ++ polls 64 2 ++
        [.usbOut [0x00, 0x14, 32, 0, 1, 2, 3, 4]] ++ polls 64 4)).any (fun s =>
        decide (completions s.trace = [none, none, some .a] ∧
          Event.complete none ∈ s.trace)) = true := by
    decide +kernel
  obtain ⟨s, reach, holds⟩ := Machine.exists_reach _ rfl ran
  exact ⟨s, reach, of_decide_eq_true holds⟩

end LoongsonEjtag
