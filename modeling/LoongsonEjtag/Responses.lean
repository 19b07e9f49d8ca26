import LoongsonEjtag.Engine
import LoongsonEjtag.Ringbuffer

/-! # Room for every response

The return value of the ring write in `lsejtag_impl_usbtx` is ignored, so bytes
that do not fit are lost without notice.

* `usbtxCalls` — the calls of `lsejtag_impl_usbtx` in a trace.
* `SendsAtMost` — one call at most, with data of a certain kind.
* `Response` — no more bytes than were free when the library asked, and none
  only in a flush.
* `responses_fit` — so the TX ring stores every byte, whatever it holds.
-/

namespace LoongsonEjtag

open Lib (Byte Dword dwordBytes bind_eq_ok Machine)
open Wire

/-- The data `lsejtag_impl_usbtx` is called with. -/
def Event.usbtxData : Event → List (List Byte)
  | .respond bytes | .flush bytes => [bytes]
  | _ => []

def usbtxCalls (trace : List Event) : List (List Byte) := trace.flatMap Event.usbtxData

@[simp] theorem usbtxCalls_append (t u : List Event) :
    usbtxCalls (t ++ u) = usbtxCalls t ++ usbtxCalls u := by simp [usbtxCalls]

@[simp] theorem usbtxCalls_cons (e : Event) (t : List Event) :
    usbtxCalls (e :: t) = e.usbtxData ++ usbtxCalls t := rfl

@[simp] theorem usbtxCalls_nil : usbtxCalls [] = [] := rfl

/-- From `w` to `w'` nothing is sent. -/
def SendsNothing (w w' : World) : Prop :=
  ∃ es, w'.trace = w.trace ++ es ∧ usbtxCalls es = []

/-- From `w` to `w'` there is one call at most, with data that satisfy `P`. -/
def SendsAtMost (P : List Byte → Prop) (w w' : World) : Prop :=
  ∃ es, w'.trace = w.trace ++ es ∧
    (usbtxCalls es = [] ∨ ∃ data, usbtxCalls es = [data] ∧ P data)

/-- The answer of a command. -/
def IsAnswer (txFree : Nat) (data : List Byte) : Prop := data.length = 4 ∧ 4 ≤ txFree

/-- What the main loop sends in one call, with `txFree` bytes free. -/
structure Response (s : MainState) (txFree : Nat) (data : List Byte) : Prop where
  fits : data.length ≤ txFree
  empty : data = [] → s.pc = .flushTdo ∧ (s.world.ctx.tdoInDwords = 0 ∨ txFree < 4)

variable {w w' w'' : World} {txFree : Nat} {tdo : Nat → Bool} {r : LsejtagCmdExecResult}
  {P : List Byte → Prop}

namespace SendsNothing

theorem refl (w : World) : SendsNothing w w := ⟨[], (List.append_nil _).symm, rfl⟩

theorem trans (first : SendsNothing w w') (second : SendsNothing w' w'') : SendsNothing w w'' := by
  obtain ⟨es, trace, none⟩ := first
  obtain ⟨fs, trace', none'⟩ := second
  exact ⟨es ++ fs, by rw [trace', trace, List.append_assoc], by simp [none, none']⟩

theorem atMost (nothing : SendsNothing w w') : SendsAtMost P w w' := by
  obtain ⟨es, trace, none⟩ := nothing
  exact ⟨es, trace, .inl none⟩

/-- A parser step takes bytes in and sends none. -/
theorem moved (moved : ParserMoved w w') : SendsNothing w w' := by
  obtain ⟨es, trace, consumes⟩ := moved.trace
  refine ⟨es, trace, List.flatMap_eq_nil_iff.mpr fun e member => ?_⟩
  obtain ⟨_, _, _, _, rfl⟩ := consumes e member
  rfl

end SendsNothing

namespace SendsAtMost

theorem after (sends : SendsAtMost P w' w'') (before : SendsNothing w w') :
    SendsAtMost P w w'' := by
  obtain ⟨es, trace, none⟩ := before
  obtain ⟨fs, trace', call⟩ := sends
  exact ⟨es ++ fs, by rw [trace', trace, List.append_assoc], by simpa [none] using call⟩

theorem before (sends : SendsAtMost P w w') (after : SendsNothing w' w'') :
    SendsAtMost P w w'' := by
  obtain ⟨es, trace, call⟩ := sends
  obtain ⟨fs, trace', none⟩ := after
  exact ⟨es ++ fs, by rw [trace', trace, List.append_assoc], by simpa [none] using call⟩

theorem mono {Q : List Byte → Prop} (sends : SendsAtMost P w w')
    (weaker : ∀ data, P data → Q data) :
    SendsAtMost Q w w' := by
  obtain ⟨es, trace, none | ⟨data, one, holds⟩⟩ := sends
  · exact ⟨es, trace, .inl none⟩
  · exact ⟨es, trace, .inr ⟨data, one, weaker data holds⟩⟩

end SendsAtMost

/-! ## The commands -/

theorem respond_answers (data : Dword) (ctx : LsejtagCtx) (room : 4 ≤ txFree) :
    SendsAtMost (IsAnswer txFree) w { respond w data with ctx } :=
  ⟨[.respond (dwordBytes data)], rfl, .inr ⟨_, rfl, rfl, room⟩⟩

theorem cmdimplGetFirmwareDate_answers (isOp : op w.ctx.cmd = some .opGetFirmwareDate)
    (executed : cmdimplGetFirmwareDate w txFree = .ok (r, w')) :
    SendsAtMost (IsAnswer txFree) w w' := by
  rw [cmdimplGetFirmwareDate, returnDataLenRequired] at executed
  simp only [isOp] at executed
  split at executed
  case isTrue =>
    cases executed
    exact (SendsNothing.refl w).atMost
  case isFalse room =>
    cases executed
    exact respond_answers _ _ (by omega)

theorem cmdimplProbeMemRw_answers (isOp : op w.ctx.cmd = some .opProbeMemRw)
    (executed : cmdimplProbeMemRw w txFree = .ok (r, w')) :
    SendsAtMost (IsAnswer txFree) w w' := by
  rw [cmdimplProbeMemRw, returnDataLenRequired] at executed
  simp only [isOp] at executed
  cases write : isWrite w.ctx.cmd with
  | true =>
    simp only [write, if_true] at executed
    obtain ⟨after, wrote, finished⟩ := bind_eq_ok.mp executed
    obtain ⟨params, es, reconfigures, rfl⟩ := probeMemWrite_ok wrote
    cases finished
    refine SendsNothing.atMost ⟨es, rfl, List.flatMap_eq_nil_iff.mpr fun e member => ?_⟩
    obtain ⟨_, _, rfl⟩ := reconfigures e member
    rfl
  | false =>
    simp only [write, Bool.false_eq_true, if_false] at executed
    split at executed
    case isTrue =>
      cases executed
      exact (SendsNothing.refl w).atMost
    case isFalse room =>
      cases executed
      exact respond_answers _ _ (by omega)

theorem lsejtagImplRunJtag_nothing {seq : JtagSeq} {tdoPtr : Option Nat}
    (ran : lsejtagImplRunJtag w seq tdoPtr tdo = .ok w') : SendsNothing w w' := by
  obtain ⟨regs, -, completed⟩ := bind_eq_ok.mp ran
  cases completed
  have complete (w : World) : SendsNothing w (lsejtagJtagComplete w) := ⟨[.complete _], rfl, rfl⟩
  exact (complete _).trans ⟨[.completeTdo _], rfl, rfl⟩

theorem ioManipPort_nothing (port : ioManipPort w tdo = .ok w') : SendsNothing w w' := by
  simp only [ioManipPort] at port
  split at port
  case h_5 =>
    obtain ⟨free, waited, port⟩ := bind_eq_ok.mp port
    obtain ⟨ran, direct, waitedAgain⟩ := bind_eq_ok.mp port
    cases waitUntilJtagPeriphFree_eq waited
    cases waitUntilJtagPeriphFree_eq waitedAgain
    have reset : SendsNothing w (w.log (.runDirect tapResetSeq)) := ⟨[_], rfl, rfl⟩
    exact reset.trans (lsejtagImplRunJtag_nothing direct)
  case h_6 =>
    cases port
    exact .refl w
  all_goals
    cases port
    exact ⟨[.ioManip _ _], rfl, rfl⟩

theorem cmdimplIoManip_nothing (executed : cmdimplIoManip w tdo = .ok (r, w')) :
    SendsNothing w w' := by
  rw [cmdimplIoManip] at executed
  split at executed
  · cases executed
    exact .refl w
  · obtain ⟨after, port, finished⟩ := bind_eq_ok.mp executed
    cases finished
    exact (ioManipPort_nothing port).trans ⟨[], (List.append_nil _).symm, rfl⟩

/-- The commands that are done at once. -/
theorem executeCommand_answers (atOnce : isAtOnce w.ctx.cmd)
    (executed : executeCommand w txFree tdo = .ok (r, w')) :
    SendsAtMost (IsAnswer txFree) w w' := by
  rw [executeCommand] at executed
  obtain isOp | isOp | isOp := atOnce <;> simp only [isOp] at executed
  · exact cmdimplProbeMemRw_answers isOp executed
  · exact (cmdimplIoManip_nothing executed).atMost
  · exact cmdimplGetFirmwareDate_answers isOp executed

theorem finishXfers_nothing {w w' : World} (ends : (r, w') = finishXfers w) : SendsNothing w w' :=
  ⟨[], by rw [(finishXfers_same ends).2.1, List.append_nil], rfl⟩

/-- A call of `lsejtag_execute`. -/
theorem lsejtagExecute_answers (free : w.ctx.periphFree = true) (small : w.ctx.tdoInDwords ≤ 64)
    (ready : w.ctx.cmdBufState = .cbsExecute)
    (executed : lsejtagExecute w txFree tdo = .ok (r, w')) :
    SendsAtMost (IsAnswer txFree) w w' := by
  have answered (fresh : w.ctx.continuation = false) (atOnce : isAtOnce w.ctx.cmd) :
      SendsAtMost (IsAnswer txFree) w w' := by
    rw [lsejtagExecute, if_neg (by simp [ready]), if_neg (by simp [fresh])] at executed
    exact executeCommand_answers atOnce executed
  have quiet (es : List Event) (none : usbtxCalls es = []) (trace : w'.trace = w.trace ++ es) :
      SendsAtMost (IsAnswer txFree) w w' := SendsNothing.atMost ⟨es, trace, none⟩
  cases lsejtagExecute_executed free small ready executed with
  | answered fresh _ atOnce => exact answered fresh atOnce
  | tapReset fresh _ atOnce => exact answered fresh atOnce
  | awaitTx => exact quiet [] rfl (List.append_nil _).symm
  | awaitFlush => exact quiet [] rfl (List.append_nil _).symm
  | kept => exact quiet [] rfl (List.append_nil _).symm
  | scanned _ _ _ blk => exact quiet [.prepared blk.seq] rfl rfl
  | writeStarted => exact quiet [.reconfigure _ _] rfl rfl
  | readStarted => exact quiet [.reconfigure _ _] rfl rfl
  | payloadShort _ _ _ _ fetched => exact (SendsNothing.moved fetched.moved).atMost
  | blockWritten _ _ _ middle fetched _ _ _ _ ends =>
    have placed : SendsNothing middle w' :=
      SendsNothing.trans ⟨[.prepared _], rfl, rfl⟩ (finishXfers_nothing ends)
    exact ((SendsNothing.moved fetched.moved).trans placed).atMost
  | readFull => exact quiet [] rfl (List.append_nil _).symm
  | blockRead _ _ _ _ _ _ ends =>
    exact (SendsNothing.trans ⟨[.prepared _], rfl, rfl⟩ (finishXfers_nothing ends)).atMost
  | badContinue => exact quiet [] rfl (List.append_nil _).symm

/-- Collected dwords lie within the buffer. -/
theorem length_pendingDwords (inv : EngineInv w) :
    w.ctx.pendingDwords.length = w.ctx.tdoInDwords := by
  obtain ⟨q, is⟩ := inv.queue
  have pointers := is.pointers
  have inside := is.inside
  rw [LsejtagCtx.pendingDwords, List.length_take, List.length_drop, Vector.length_toList]
  omega

/-- A call of `lsejtag_flush_tdo`, full or partial. -/
theorem lsejtagFlushTdo_sends {sent : Nat} (inv : EngineInv w)
    (flushed : lsejtagFlushTdo w txFree = .ok (sent, w')) :
    SendsAtMost (fun data => data.length = 4 * min w.ctx.tdoInDwords (txFree / 4)) w w' := by
  obtain ⟨dwords, is, -, -, trace⟩ := lsejtagFlushTdo_ok inv.bounded flushed
  refine ⟨_, trace, .inr ⟨_, rfl, ?_⟩⟩
  simp only [Lib.length_dwordsBytes, List.length_take, length_pendingDwords inv]
  omega

/-! ## The main loop -/

theorem mainPoll_sends {s s' : MainState} (inv : MainInv s)
    (polled : mainPoll s txFree tdo = some s') :
    SendsAtMost (Response s txFree) s.world s'.world := by
  obtain ⟨engine, pc⟩ := inv
  have entered : SendsNothing s.world s.world.enterExecute := ⟨[.execute _ _], rfl, rfl⟩
  simp only [mainPoll] at polled
  split at polled
  case h_1 at_pc =>
    -- The dispatcher consumes at most.
    split at polled
    · cases polled
      cases lsejtagDispatch_dispatched ‹_› with
      | parsed _ _ _ _ parsed =>
        obtain ⟨-, rfl, -⟩ | returned := dispatchCmdBuf_returned parsed
        · exact (SendsNothing.refl _).atMost
        · exact (SendsNothing.moved returned.moved).atMost
      | flushNew => exact SendsNothing.atMost ⟨[], (List.append_nil _).symm, rfl⟩
      | flushing => exact (SendsNothing.refl _).atMost
      | run => exact (SendsNothing.refl _).atMost
      | empty => exact (SendsNothing.refl _).atMost
    · cases polled
      exact (SendsNothing.refl _).atMost
  case h_2 at_pc =>
    obtain ⟨quiet, ready⟩ := pc.execute at_pc
    split at polled
    · cases polled
      have answers := lsejtagExecute_answers (engine.idle.periphFree quiet.noBlockA) engine.bounded
        (w := s.world.enterExecute) ready ‹_›
      -- An answer is one dword, and the call asked for the room.
      refine ((answers.after entered).before ⟨[.executed _], rfl, rfl⟩).mono ?_
      rintro data ⟨four, room⟩
      exact ⟨by omega, fun none => absurd four (by simp [none])⟩
    · cases polled
      exact entered.atMost
  case h_3 at_pc =>
    -- A flush cuts what it sends to the room.
    split at polled
    · cases polled
      refine (lsejtagFlushTdo_sends engine ‹_›).mono fun data length => ⟨by omega, fun none => ?_⟩
      rw [none, List.length_nil] at length
      exact ⟨at_pc, by omega⟩
    · cases polled
      exact (SendsNothing.refl _).atMost
  case h_4 at_pc =>
    split at polled
    · rename_i ran
      cases polled
      cases prepared : s.world.ctx.preparedBufblk with
      | none =>
        rw [lsejtagRunJtag_unprepared prepared] at ran
        cases ran
        exact (SendsNothing.refl _).atMost
      | some id =>
        obtain ⟨buf, dwords, ran⟩ := lsejtagRunJtag_ran engine.idle.periphWorking prepared ran
        exact SendsNothing.atMost ⟨_, ran.trace, rfl⟩
    · cases polled
      exact (SendsNothing.refl _).atMost
  case h_5 => cases polled

/-- What the calls of `es` rely on if `txFree` bytes were free when the library
    asked and at least as many are when it writes. -/
structure ResponsesFit (txFree : Nat) (es : List Event) : Prop where
  atMostOne : (usbtxCalls es).length ≤ 1
  fits : ∀ data ∈ usbtxCalls es, data.length ≤ txFree
  stored : ∀ data ∈ usbtxCalls es, ∀ rb : ChryRingbuffer 8, txFree ≤ rb.getFree.toNat →
    (rb.write data).unread = rb.unread ++ data

/-- In every run, whatever the free space at each call, no response byte is
    dropped. -/
theorem responses_fit {s s' : MainState} (reach : mainLoop.Reachable s)
    (polled : mainStep s (.poll txFree tdo) = some s') :
    ∃ es, s'.world.trace = s.world.trace ++ es ∧ ResponsesFit txFree es := by
  obtain ⟨es, trace, sends⟩ := mainPoll_sends (mainLoop_inv reach) polled
  refine ⟨es, trace, ?_⟩
  obtain none | ⟨data, one, response⟩ := sends
  · exact ⟨by simp [none], by simp [none], by simp [none]⟩
  · have most : ∀ data ∈ usbtxCalls es, data.length ≤ txFree := by simpa [one] using response.fits
    refine ⟨by simp [one], most, fun data member rb room => ?_⟩
    have free := rb.toNat_getFree
    have sound := rb.toNat_getUsed_le
    have few := most data member
    exact ChryRingbuffer.unread_write (by omega)

/-- The answer to a firmware date request, with room for exactly its 4 bytes. -/
theorem responses_fit_date : ∃ (s s' : MainState) (es : List Event),
    s'.world.trace = s.world.trace ++ es ∧ ResponsesFit 4 es ∧
      usbtxCalls es = [dwordBytes lsejtagFirmwareDate] := by
  have ran : ((mainLoop.run Machine.anyAction .start
      [.usbOut [0x00, 0x7c], .poll 4 fun _ => false]).any fun s =>
        (mainStep s (.poll 4 fun _ => false)).any fun s' =>
          decide (usbtxCalls (s'.world.trace.drop s.world.trace.length) =
            [dwordBytes lsejtagFirmwareDate])) = true := by
    decide +kernel
  obtain ⟨s, reach, holds⟩ := Machine.exists_reach (M := mainLoop) _ rfl ran
  obtain ⟨s', polled, holds⟩ := (Option.any_eq_true _ _).mp holds
  obtain ⟨es, trace, fit⟩ := responses_fit reach polled
  refine ⟨s, s', es, trace, fit, ?_⟩
  have sends := of_decide_eq_true holds
  rwa [trace, List.drop_left] at sends

end LoongsonEjtag
