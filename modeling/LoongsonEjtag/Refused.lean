import LoongsonEjtag.Engine

/-! # Refused commands

A command for which there is no room returns `cer_await_usb_tx` or
`cer_await_jtag_buf`, and the main loop calls it again.

* `executeCommand_refused` — a refusal leaves everything but `tdo_should_flush`.
* `Waits` — until the next call the main loop only takes bytes in and flushes.
* `executeCommand_granted` — a command that is not refused does the same
  whatever the TDO queue holds.
* `refused_commands_change_nothing` — so the second call does what the first one
  would have done.
-/

namespace LoongsonEjtag

open Lib (Byte bind_eq_ok Machine)
open Wire

/-- The results that ask to call again. -/
def LsejtagCmdExecResult.isRefusal : LsejtagCmdExecResult → Bool
  | .cerAwaitUsbTx | .cerAwaitJtagBuf => true
  | .cerSuccess | .cerContinue | .cerNotReady | .cerBadContinue => false

/-- The commands that check for a resource. -/
def mayRefuse (cmd : List Byte) : Prop :=
  op cmd = some .opGetFirmwareDate ∨ (op cmd = some .opProbeMemRw ∧ isWrite cmd = false) ∨
    isIrdr cmd

/-- Nothing is sent, consumed or run, and the context is the same up to
    `tdo_should_flush`. -/
structure RefusedUnchanged (w w' : World) : Prop where
  rx : w'.rx = w.rx
  trace : w'.trace = w.trace
  ctx : w'.ctx = w.ctx ∨ w'.ctx = { w.ctx with tdoShouldFlush := true }

/-- The two contexts are the same outside the TDO queue. -/
def SameOutsideTdo (ctx ctx' : LsejtagCtx) : Prop :=
  ctx' = { ctx with toTdoQueue := ctx'.toTdoQueue }

/-- The call that leads from `w` to `w'` and the one from `v` to `v'` do the same,
    and neither touches the TDO queue or the RX ring. -/
structure SameEffect (w w' v v' : World) : Prop where
  ctx : SameOutsideTdo w'.ctx v'.ctx
  queues : w'.ctx.toTdoQueue = w.ctx.toTdoQueue ∧ v'.ctx.toTdoQueue = v.ctx.toTdoQueue
  rings : w'.rx = w.rx ∧ v'.rx = v.rx
  events : ∃ es, w'.trace = w.trace ++ es ∧ v'.trace = v.trace ++ es

variable {w w' v : World} {r : LsejtagCmdExecResult} {txFree : Nat} {tdo : Nat → Bool}

/-! ## Refusals -/

theorem RefusedUnchanged.refl (w : World) : RefusedUnchanged w w := ⟨rfl, rfl, .inl rfl⟩

/-- Raising the flush flag is a change inside the TDO queue. -/
theorem RefusedUnchanged.outsideTdo (unchanged : RefusedUnchanged w w') :
    SameOutsideTdo w.ctx w'.ctx := by
  obtain kept | flush := unchanged.ctx
  · rw [kept]
    rfl
  · rw [flush]
    rfl

theorem cmdimplIrdrWrite_refused {isir : Bool}
    (executed : cmdimplIrdrWrite w isir = .ok (r, w')) (refusal : r.isRefusal = true) :
    RefusedUnchanged w w' := by
  rw [cmdimplIrdrWrite] at executed
  split at executed
  · cases executed
    exact .refl w
  · split at executed
    · cases executed
      exact ⟨rfl, rfl, .inr rfl⟩
    · obtain ⟨blk, -, finished⟩ := bind_eq_ok.mp executed
      cases finished
      cases refusal

theorem cmdimplFastMemRead_continues {fastdata : Bool}
    (executed : cmdimplFastMemRead w fastdata tdo = .ok (r, w')) : r = .cerContinue := by
  simp only [cmdimplFastMemRead] at executed
  obtain ⟨_, -, executed⟩ := bind_eq_ok.mp executed
  obtain ⟨_, -, executed⟩ := bind_eq_ok.mp executed
  obtain ⟨_, -, executed⟩ := bind_eq_ok.mp executed
  obtain ⟨_, -, executed⟩ := bind_eq_ok.mp executed
  obtain ⟨_, -, executed⟩ := bind_eq_ok.mp executed
  split at executed <;> cases executed
  rfl

/-- Every early return comes before every effect. -/
theorem executeCommand_refused (executed : executeCommand w txFree tdo = .ok (r, w'))
    (refusal : r.isRefusal = true) : mayRefuse w.ctx.cmd ∧ RefusedUnchanged w w' := by
  rw [executeCommand] at executed
  split at executed
  case h_1 isOp =>
    rw [cmdimplProbeMemRw] at executed
    split at executed
    · obtain ⟨after, -, finished⟩ := bind_eq_ok.mp executed
      cases finished
      cases refusal
    · rename_i read
      split at executed <;> cases executed
      · exact ⟨.inr (.inl ⟨isOp, by simpa using read⟩), .refl w⟩
      · cases refusal
  case h_2 isOp =>
    rw [cmdimplIoManip] at executed
    split at executed
    · cases executed
      cases refusal
    · obtain ⟨after, -, finished⟩ := bind_eq_ok.mp executed
      cases finished
      cases refusal
  case h_3 isOp => exact ⟨.inr (.inr (.inl isOp)), cmdimplIrdrWrite_refused executed refusal⟩
  case h_4 isOp => exact ⟨.inr (.inr (.inr isOp)), cmdimplIrdrWrite_refused executed refusal⟩
  case h_10 isOp =>
    rw [cmdimplGetFirmwareDate] at executed
    split at executed <;> cases executed
    · exact ⟨.inl isOp, .refl w⟩
    · cases refusal
  case h_6 => cases (cmdimplFastMemWrite_ok executed).2.1 ▸ refusal
  case h_7 => cases (cmdimplFastMemWrite_ok executed).2.1 ▸ refusal
  case h_8 => cases cmdimplFastMemRead_continues executed ▸ refusal
  case h_9 => cases cmdimplFastMemRead_continues executed ▸ refusal
  all_goals
    cases executed
    cases refusal

/-! ## Between the calls -/

/-- The host's bytes and flushed TDO data. -/
def Event.isTraffic : Event → Bool
  | .usbOut _ | .flush _ => true
  | _ => false

/-- From `w` on, only the TDO queue has changed, and what is in `es` has gone over
    USB. -/
structure Waits (w : World) (s : MainState) : Prop where
  ctx : SameOutsideTdo w.ctx s.world.ctx
  notRunning : s.pc ≠ .runJtag
  traffic : ∃ es, s.world.trace = w.trace ++ es ∧ (∀ e ∈ es, e.isTraffic = true) ∧
    s.world.rx = w.rx ++ arrived es

/-- No call of `lsejtag_execute`. -/
def noExecute (s : MainState) (_ : MainInput) : Prop := s.pc ≠ .execute

theorem SameOutsideTdo.trans {ctx ctx' ctx'' : LsejtagCtx} (first : SameOutsideTdo ctx ctx')
    (second : SameOutsideTdo ctx' ctx'') : SameOutsideTdo ctx ctx'' := by
  rw [SameOutsideTdo] at first second ⊢
  rw [first] at second
  exact second

theorem SameOutsideTdo.symm {ctx ctx' : LsejtagCtx} (same : SameOutsideTdo ctx ctx') :
    SameOutsideTdo ctx' ctx := by
  rw [SameOutsideTdo] at same ⊢
  rw [same]

/-- A flush keeps all but the TDO queue. -/
theorem flushedTdo_same (ctx : LsejtagCtx) (dwords : Nat) :
    SameOutsideTdo ctx (ctx.flushedTdo dwords) := by
  rw [LsejtagCtx.flushedTdo]
  split <;> rfl

theorem Waits.quietly {s s' : MainState} (waits : Waits w s)
    (ctx : SameOutsideTdo s.world.ctx s'.world.ctx) (notRunning : s'.pc ≠ .runJtag)
    (es : List Event) (trace : s'.world.trace = s.world.trace ++ es)
    (traffic : ∀ e ∈ es, e.isTraffic = true) (rx : s'.world.rx = s.world.rx ++ arrived es) :
    Waits w s' := by
  obtain ⟨before, traceBefore, trafficBefore, rxBefore⟩ := waits.traffic
  refine ⟨waits.ctx.trans ctx, notRunning, before ++ es, ?_, ?_, ?_⟩
  · rw [trace, traceBefore, List.append_assoc]
  · exact List.forall_mem_append.mpr ⟨trafficBefore, traffic⟩
  · rw [rx, rxBefore, arrived_append, List.append_assoc]

/-- A complete command that waits is dispatched as it is. -/
theorem dispatchCmdBuf_ready (ready : w.ctx.cmdBufState = .cbsExecute) :
    dispatchCmdBuf w = .ok (.dprExecute, w) := by
  simp only [dispatchCmdBuf, ready]

theorem Waits.step {s s' : MainState} {input : MainInput} (waits : Waits w s)
    (ready : w.ctx.cmdBufState = .cbsExecute) (noBlockA : w.ctx.jtagbufA.prepared = false)
    (noBlockB : w.ctx.jtagbufB.prepared = false) (noCall : noExecute s input)
    (stepped : MainStepped s input s') : Waits w s' := by
  have ctx := waits.ctx
  have readyNow : s.world.ctx.cmdBufState = .cbsExecute := by rw [ctx]; exact ready
  have unpreparedA : s.world.ctx.jtagbufA.prepared = false := by rw [ctx]; exact noBlockA
  have unpreparedB : s.world.ctx.jtagbufB.prepared = false := by rw [ctx]; exact noBlockB
  cases stepped with
  | received bytes =>
    exact waits.quietly rfl waits.notRunning [.usbOut bytes] rfl (by simp [Event.isTraffic])
      (by simp [World.receive, Event.arrivedBytes])
  | dispatched at_pc r w' dispatched =>
    -- The same context up to the TDO flags, and the same ring and trace.
    have still (next : SameOutsideTdo s.world.ctx w'.ctx) (trace : w'.trace = s.world.trace)
        (rx : w'.rx = s.world.rx) (notRunning : afterDispatch r ≠ .runJtag) :
        Waits w ⟨w', afterDispatch r⟩ :=
      waits.quietly next notRunning [] (by simp [trace]) (by simp) (by simp [rx])
    cases dispatched with
    | flushing => exact still rfl rfl rfl (by decide)
    | flushNew => exact still rfl rfl rfl (by decide)
    | run _ _ prepared => simp [unpreparedA, unpreparedB] at prepared
    | empty => exact still rfl rfl rfl (by decide)
    | parsed _ _ _ _ parsed =>
      rw [dispatchCmdBuf_ready readyNow] at parsed
      cases parsed
      exact still rfl rfl rfl (by decide)
  | executed at_pc => exact absurd at_pc noCall
  | flushed _ _ dwords _ w' ctx rx trace =>
    exact waits.quietly (ctx ▸ flushedTdo_same _ dwords) (by simp) _ trace
      (by simp [Event.isTraffic]) (by simp [rx, Event.arrivedBytes])
  | ran _ _ _ _ prepared => exact Bool.noConfusion (unpreparedA.symm.trans prepared)
  | nothingToRun at_pc => exact absurd at_pc waits.notRunning
  | executeFailed at_pc => exact absurd at_pc noCall
  | dispatchFailed => exact ⟨waits.ctx, by simp, waits.traffic⟩
  | callFailed => exact ⟨waits.ctx, by simp, waits.traffic⟩

/-! ## The second call -/

/-- With this free space the call is not refused. -/
def Granted (w : World) (txFree : Nat) (tdo : Nat → Bool) : Prop :=
  ∀ r w', lsejtagExecute w txFree tdo = .ok (r, w') → r.isRefusal = false

theorem SameOutsideTdo.cmd {ctx ctx' : LsejtagCtx} (same : SameOutsideTdo ctx ctx') :
    ctx'.cmd = ctx.cmd := by
  rw [same]
  rfl

theorem respond_same (same : SameOutsideTdo w.ctx v.ctx) (data : Lib.Dword) :
    SameEffect w { respond w data with ctx := cmdBufClean w.ctx }
      v { respond v data with ctx := cmdBufClean v.ctx } := by
  refine ⟨?_, ⟨rfl, rfl⟩, ⟨rfl, rfl⟩, [.respond (Lib.dwordBytes data)], rfl, rfl⟩
  change SameOutsideTdo (cmdBufClean w.ctx) (cmdBufClean v.ctx)
  rw [same]
  rfl

variable {txFree' : Nat} {tdo' : Nat → Bool}

theorem cmdimplGetFirmwareDate_granted (same : SameOutsideTdo w.ctx v.ctx)
    (executed : cmdimplGetFirmwareDate w txFree = .ok (r, w')) (accepted : r.isRefusal = false)
    (granted : ∀ r v', cmdimplGetFirmwareDate v txFree' = .ok (r, v') → r.isRefusal = false) :
    ∃ v', cmdimplGetFirmwareDate v txFree' = .ok (r, v') ∧ SameEffect w w' v v' := by
  rw [cmdimplGetFirmwareDate] at executed granted ⊢
  split at executed <;> cases executed
  · cases accepted
  split at granted
  · exact absurd (granted _ _ rfl) (by decide)
  · rename_i room
    rw [if_neg room]
    exact ⟨_, rfl, respond_same same _⟩

theorem cmdimplProbeMemRw_granted (same : SameOutsideTdo w.ctx v.ctx)
    (read : isWrite w.ctx.cmd = false) (executed : cmdimplProbeMemRw w txFree = .ok (r, w'))
    (accepted : r.isRefusal = false)
    (granted : ∀ r v', cmdimplProbeMemRw v txFree' = .ok (r, v') → r.isRefusal = false) :
    ∃ v', cmdimplProbeMemRw v txFree' = .ok (r, v') ∧ SameEffect w w' v v' := by
  have readToo : isWrite v.ctx.cmd = false := by rw [same.cmd]; exact read
  have value : probeMemRead v.ctx = probeMemRead w.ctx := by
    rw [same]
    rfl
  simp only [cmdimplProbeMemRw, read, readToo, Bool.false_eq_true, if_false]
    at executed granted ⊢
  split at executed <;> cases executed
  · cases accepted
  split at granted
  · exact absurd (granted _ _ rfl) (by decide)
  · rename_i room
    rw [if_neg room, value]
    exact ⟨_, rfl, respond_same same _⟩

theorem cmdimplIrdrWrite_granted {isir : Bool} (same : SameOutsideTdo w.ctx v.ctx)
    (executed : cmdimplIrdrWrite w isir = .ok (r, w')) (accepted : r.isRefusal = false)
    (granted : ∀ r v', cmdimplIrdrWrite v isir = .ok (r, v') → r.isRefusal = false) :
    ∃ v', cmdimplIrdrWrite v isir = .ok (r, v') ∧ SameEffect w w' v v' := by
  have sameFree : v.ctx.freeJtagbuf = w.ctx.freeJtagbuf := by
    rw [same]
    rfl
  have sameBlock (id : BufId) : v.ctx.jtagbuf id = w.ctx.jtagbuf id := by
    rw [same]
    cases id <;> rfl
  rw [cmdimplIrdrWrite] at executed granted ⊢
  rw [sameFree] at granted ⊢
  split at executed
  · cases executed
    cases accepted
  rename_i id free
  split at executed
  · cases executed
    cases accepted
  obtain ⟨blk, built, finished⟩ := bind_eq_ok.mp executed
  cases finished
  simp only [free] at granted
  by_cases full : Lib.sub32 256 (Lib.u32 (4 * v.ctx.tdoInDwords)) < returnDataLenRequired v.ctx
  · simp only [if_pos full] at granted
    exact absurd (granted _ _ rfl) (by decide)
  · rw [if_neg full, sameBlock, same.cmd, built]
    refine ⟨_, rfl, ?_, ⟨?_, ?_⟩, ⟨rfl, rfl⟩, [.prepared blk.seq], rfl, rfl⟩
    · change SameOutsideTdo (cmdBufClean (w.ctx.setJtagbuf id blk))
        (cmdBufClean (v.ctx.setJtagbuf id blk))
      rw [same]
      cases id <;> rfl
    · exact LsejtagCtx.toTdoQueue_setJtagbuf w.ctx id blk
    · exact LsejtagCtx.toTdoQueue_setJtagbuf v.ctx id blk

/-- What a command does that is not refused does not depend on the TDO queue, the
    ring, the free space or TDO. -/
theorem lsejtagExecute_granted (same : SameOutsideTdo w.ctx v.ctx)
    (ready : w.ctx.cmdBufState = .cbsExecute) (fresh : w.ctx.continuation = false)
    (may : mayRefuse w.ctx.cmd) (executed : lsejtagExecute w txFree tdo = .ok (r, w'))
    (accepted : r.isRefusal = false) (granted : Granted v txFree' tdo') :
    ∃ v', lsejtagExecute v txFree' tdo' = .ok (r, v') ∧ SameEffect w w' v v' := by
  have readyToo : v.ctx.cmdBufState = .cbsExecute := by rw [same]; exact ready
  have freshToo : v.ctx.continuation = false := by rw [same]; exact fresh
  rw [Granted] at granted
  simp only [lsejtagExecute, ready, readyToo, fresh, freshToo, ne_eq, not_true_eq_false,
    if_false, Bool.false_eq_true, executeCommand, same.cmd] at executed granted ⊢
  rcases may with isOp | ⟨isOp, read⟩ | isOp | isOp <;> simp only [isOp] at executed granted ⊢
  · exact cmdimplGetFirmwareDate_granted same executed accepted granted
  · exact cmdimplProbeMemRw_granted same read executed accepted granted
  · exact cmdimplIrdrWrite_granted same executed accepted granted
  · exact cmdimplIrdrWrite_granted same executed accepted granted

/-! ## Runs -/

/-- The next call that is not refused, whenever it comes, does what the call in
    `s` would have done with another TDO queue and more free space. -/
def RetriesAlike (s : MainState) (s' : MainState) : Prop :=
  ∀ again, (mainLoop.startingAt s').Reach noExecute again → again.pc = .execute →
    (∃ es, again.world.trace = s'.world.trace ++ es ∧ ∀ e ∈ es, e.isTraffic = true) ∧
    ∀ txFree tdo r w', lsejtagExecute again.world.enterExecute txFree tdo = .ok (r, w') →
      r.isRefusal = false →
      ∀ v txFree' tdo', SameOutsideTdo s.world.ctx v.ctx → Granted v txFree' tdo' →
        ∃ v', lsejtagExecute v txFree' tdo' = .ok (r, v') ∧
          SameEffect again.world.enterExecute w' v v'

/-- From the return of a refused call on, the main loop waits. -/
theorem waits_refused {s again : MainState} (inv : MainInv s) (reach : mainLoop.Reachable s)
    (at_pc : s.pc = .execute) (unchanged : RefusedUnchanged s.world.enterExecute w')
    (polled : mainStep s (.poll txFree tdo) = some ⟨w'.log (.executed r), .dispatch⟩)
    (further : (mainLoop.startingAt ⟨w'.log (.executed r), .dispatch⟩).Reach noExecute again) :
    Waits (w'.log (.executed r)) again := by
  obtain ⟨quiet, ready⟩ := inv.pc.execute at_pc
  have same : SameOutsideTdo s.world.ctx w'.ctx := unchanged.outsideTdo
  have after : mainLoop.Reachable ⟨w'.log (.executed r), .dispatch⟩ :=
    .next (a := .poll txFree tdo) reach trivial polled
  refine further.invariant (fun _ initial => ?_)
    fun middle next input before waits noCall stepped => ?_
  · cases initial
    exact ⟨rfl, by simp, [], (List.append_nil _).symm, List.forall_mem_nil _,
      (List.append_nil _).symm⟩
  · have middleInv := mainLoop_inv (before.further after)
    refine waits.step ?_ ?_ ?_ noCall (mainStep_stepped middleInv stepped)
    · change w'.ctx.cmdBufState = .cbsExecute
      rw [same]
      exact ready
    · change w'.ctx.jtagbufA.prepared = false
      rw [same]
      exact quiet.noBlockA
    · change w'.ctx.jtagbufB.prepared = false
      rw [same]
      exact quiet.noBlockB

theorem refused_commands_change_nothing {s : MainState} (reach : mainLoop.Reachable s)
    (fresh : s.world.ctx.continuation = false)
    (executed : lsejtagExecute s.world.enterExecute txFree tdo = .ok (r, w'))
    (refusal : r.isRefusal = true) :
    RefusedUnchanged s.world.enterExecute w' ∧
      (s.pc = .execute → ∀ s', mainStep s (.poll txFree tdo) = some s' → RetriesAlike s s') := by
  have inv := mainLoop_inv reach
  have ready : s.world.enterExecute.ctx.cmdBufState = .cbsExecute := by
    by_contra notReady
    rw [lsejtagExecute, if_pos notReady] at executed
    cases executed
    cases refusal
  have command : executeCommand s.world.enterExecute txFree tdo = .ok (r, w') := by
    rwa [lsejtagExecute, if_neg (not_not.mpr ready), if_neg (by simp [World.enterExecute, fresh])]
      at executed
  obtain ⟨may, unchanged⟩ := executeCommand_refused command refusal
  refine ⟨unchanged, fun at_pc s' polled again further pc => ?_⟩
  have returned : s' = ⟨w'.log (.executed r), .dispatch⟩ := by
    simp only [mainStep, mainPoll, at_pc, executed, Option.some.injEq] at polled
    exact polled.symm
  subst returned
  have waits := waits_refused inv reach at_pc unchanged polled further
  obtain ⟨es, trace, traffic, -⟩ := waits.traffic
  refine ⟨⟨es, trace, traffic⟩, ?_⟩
  intro txFree₂ tdo₂ r₂ w₂ executed₂ accepted v txFree₃ tdo₃ same granted
  have later : SameOutsideTdo s.world.ctx again.world.enterExecute.ctx :=
    SameOutsideTdo.trans unchanged.outsideTdo waits.ctx
  refine lsejtagExecute_granted (later.symm.trans same) ?_ ?_ ?_ executed₂ accepted granted
  · rw [later]
    exact ready
  · rw [later]
    exact fresh
  · rw [later.cmd]
    exact may

/-- A firmware date request finds 3 bytes free. -/
theorem refused_commands_change_nothing_date : ∃ (s : MainState) (w' : World),
    lsejtagExecute s.world.enterExecute 3 (fun _ => false) = .ok (.cerAwaitUsbTx, w') ∧
      RefusedUnchanged s.world.enterExecute w' ∧
      ∀ s', mainStep s (.poll 3 fun _ => false) = some s' → RetriesAlike s s' := by
  have ran : (mainLoop.run Machine.anyAction .start
      [.usbOut [0x00, 0x7c], .poll 3 fun _ => false]).any (fun s =>
        decide (s.pc = .execute ∧ s.world.ctx.continuation = false ∧
          (lsejtagExecute s.world.enterExecute 3 fun _ => false).toOption.map Prod.fst =
            some .cerAwaitUsbTx)) = true := by
    decide +kernel
  obtain ⟨s, reach, holds⟩ := Machine.exists_reach (M := mainLoop) _ rfl ran
  obtain ⟨at_pc, fresh, refused⟩ := of_decide_eq_true holds
  cases executed : lsejtagExecute s.world.enterExecute 3 fun _ => false with
  | error => simp [executed, Except.toOption] at refused
  | ok result =>
    obtain ⟨r, w'⟩ := result
    obtain rfl : r = .cerAwaitUsbTx := by simpa [executed, Except.toOption] using refused
    obtain ⟨unchanged, retries⟩ := refused_commands_change_nothing reach fresh executed rfl
    exact ⟨s, w', executed, unchanged, retries at_pc⟩

end LoongsonEjtag
