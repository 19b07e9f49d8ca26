import LoongsonEjtag.Lib.History
import LoongsonEjtag.Responses
import LoongsonEjtag.TxSteps

/-! # Zero-length packets

The main loop and the IN path together.  A flush of zero dwords calls
`lsejtag_impl_usbtx` with no bytes, and on an idle endpoint that starts a
transfer of length zero.

* `firmware` — the machine, in which the main loop sends into the TX ring.
* `FlushHasData` — the condition on the flushes.
* `zero_length_terminates` — then a zero-length transfer is started only behind
  the completion of one of whole packets; `empty_flush_starts` is the other case.
-/

namespace LoongsonEjtag

open Lib (Byte Machine Each each_nil each_snoc)

structure Firmware where
  main : MainState
  tx : UsbTx

inductive FirmwareInput where
  | usbOut (bytes : List Byte)
  | poll (tdo : Nat → Bool)
  | inComplete

/-- What the main loop sent from `main` to `main'`. -/
def sentBetween (main main' : MainState) : List (List Byte) :=
  usbtxCalls (main'.world.trace.drop main.world.trace.length)

/-- The free space a call sees is that of the TX ring, and what it sends goes
    there. -/
def firmwareStep (f : Firmware) : FirmwareInput → Option Firmware
  | .usbOut bytes => (mainStep f.main (.usbOut bytes)).map fun main => { f with main := main }
  | .poll tdo =>
    (mainStep f.main (.poll f.tx.lsejtagImplUsbtxFreeLen tdo)).map fun main =>
      { main := main, tx := (sentBetween f.main main).foldl UsbTx.lsejtagImplUsbtx f.tx }
  | .inComplete => if f.tx.inEp.txValid then some { f with tx := f.tx.usbdIrqHandler } else none

def firmware : Machine Firmware FirmwareInput where
  init f := f.main = .start ∧ ∃ pool, f.tx = (UsbTx.initCherryusb pool).usbdSetEndpoint
  step := firmwareStep

/-- A zero-length transfer stands directly behind the completion of a transfer of
    whole packets. -/
def Terminates (before : List UsbTxEvent) (e : UsbTxEvent) : Prop :=
  e = .start [] → ∃ payload, before.getLast? = some (.complete payload) ∧ WholePackets payload

/-- A call of `lsejtag_flush_tdo` finds TDO data, or a transmission in progress. -/
def FlushHasData (f : Firmware) : FirmwareInput → Prop
  | .poll _ => f.main.pc = .flushTdo →
      f.main.world.ctx.tdoInDwords ≠ 0 ∨ f.tx.epTxBusyFlag = true
  | _ => True

instance (f : Firmware) : ∀ input, Decidable (FlushHasData f input)
  | .poll _ => inferInstanceAs (Decidable (_ → _))
  | .usbOut _ => inferInstanceAs (Decidable True)
  | .inComplete => inferInstanceAs (Decidable True)

structure FirmwareInv (f : Firmware) : Prop where
  main : MainInv f.main
  flow : f.tx.InFlow
  terminates : Each Terminates f.tx.trace

variable {t : UsbTx} {f f' : Firmware}

/-! ## The IN path -/

theorem terminates_other {before : List UsbTxEvent} {e : UsbTxEvent} (other : e ≠ .start []) :
    Terminates before e := fun is => absurd is other

/-- A call that has data, or finds the endpoint busy, starts no zero-length
    transfer. -/
theorem usbtx_terminates (flow : t.InFlow) (terminates : Each Terminates t.trace)
    {data : List Byte} (room : data.length ≤ t.lsejtagImplUsbtxFreeLen)
    (some : data ≠ [] ∨ t.epTxBusyFlag = true) :
    Each Terminates (t.lsejtagImplUsbtx data).trace := by
  have written : Each Terminates (t.ringbufferWrite data).trace :=
    each_snoc.mpr ⟨terminates, terminates_other (by simp)⟩
  have called := UsbTx.lsejtagImplUsbtx_called flow.ready data
  generalize t.lsejtagImplUsbtx data = t' at called ⊢
  cases called with
  | busy => exact written
  | started flag start len payload oldest =>
    have free : t.lsejtagImplUsbtxFreeLen = 2 ^ 8 - t.rbEjtagWrite.getUsed.toNat :=
      t.rbEjtagWrite.toNat_getFree
    have sound := t.rbEjtagWrite.toNat_getUsed_le
    have unread : (t.rbEjtagWrite.write data).unread = t.rbEjtagWrite.unread ++ data :=
      ChryRingbuffer.unread_write (by omega)
    have data : data ≠ [] := some.resolve_right (by simp [flag])
    have payload : payload ≠ [] := oldest.some fun none =>
      data (List.append_eq_nil_iff.mp (unread.symm.trans none)).2
    exact each_snoc.mpr ⟨written, terminates_other (by simpa using payload)⟩

/-- A completion starts a zero-length transfer only behind whole packets. -/
theorem inComplete_terminates (flow : t.InFlow) (valid : t.inEp.txValid = true)
    (terminates : Each Terminates t.trace) : Each Terminates t.usbdIrqHandler.trace := by
  have taken : Each Terminates t.taken.trace :=
    each_snoc.mpr ⟨terminates, terminates_other (by simp)⟩
  have completed := UsbTx.usbdIrqHandler_completed flow.ready valid
  generalize t.usbdIrqHandler = t' at completed ⊢
  cases completed with
  | terminated whole =>
    exact each_snoc.mpr ⟨taken, fun _ => ⟨t.inEp.packet, List.getLast?_concat, whole⟩⟩
  | continued _ _ _ payload more oldest =>
    have payload : payload ≠ [] := oldest.some more
    exact each_snoc.mpr ⟨taken, terminates_other (by simpa using payload)⟩
  | ended => exact each_snoc.mpr ⟨taken, terminates_other (by simp)⟩

/-! ## Steps -/

/-- A call of the main loop makes one call of `lsejtag_impl_usbtx` at most. -/
theorem sentBetween_cases {main main' : MainState} {txFree : Nat} {tdo : Nat → Bool}
    (inv : MainInv main) (polled : mainStep main (.poll txFree tdo) = some main') :
    sentBetween main main' = [] ∨
      ∃ data, sentBetween main main' = [data] ∧ Response main txFree data := by
  obtain ⟨es, trace, sends⟩ := mainPoll_sends inv polled
  rwa [sentBetween, trace, List.drop_left]

theorem FirmwareInv.step {input : FirmwareInput} (inv : FirmwareInv f)
    (hasData : FlushHasData f input) (stepped : firmwareStep f input = some f') :
    FirmwareInv f' := by
  obtain ⟨main, flow, terminates⟩ := inv
  cases input with
  | usbOut bytes =>
    obtain ⟨main', received, rfl⟩ := Option.map_eq_some_iff.mp stepped
    exact ⟨main.step (mainStep_stepped main received), flow, terminates⟩
  | inComplete =>
    obtain ⟨valid, completed⟩ := Option.ite_none_right_eq_some.mp stepped
    obtain rfl := Option.some.inj completed
    exact ⟨main, flow.inComplete valid, inComplete_terminates flow valid terminates⟩
  | poll tdo =>
    obtain ⟨main', polled, rfl⟩ := Option.map_eq_some_iff.mp stepped
    refine ⟨main.step (mainStep_stepped main polled), ?_, ?_⟩
    · obtain none | ⟨data, one, -⟩ := sentBetween_cases main polled
      · rw [none]
        exact flow
      · rw [one]
        exact flow.usbtx data
    · obtain none | ⟨data, one, response⟩ := sentBetween_cases main polled
      · rw [none]
        exact terminates
      · rw [one]
        refine usbtx_terminates flow terminates response.fits ?_
        by_contra both
        obtain ⟨none, idle⟩ := not_or.mp both
        obtain ⟨at_pc, nothing⟩ := response.empty (not_not.mp none)
        have dwords := (hasData at_pc).resolve_right idle
        -- An idle endpoint leaves the whole ring free.
        have empty := flow.idle (flow.busy ▸ Bool.not_eq_true _ ▸ idle)
        have used := congrArg List.length empty
        rw [ChryRingbuffer.length_unread, List.length_nil] at used
        have free : f.tx.lsejtagImplUsbtxFreeLen = 2 ^ 8 - f.tx.rbEjtagWrite.getUsed.toNat :=
          f.tx.rbEjtagWrite.toNat_getFree
        omega

/-! ## Runs -/

theorem firmwareInv (reach : firmware.Reach FlushHasData f) : FirmwareInv f := by
  refine reach.invariant ?_ fun _ _ _ _ inv hasData stepped => inv.step hasData stepped
  rintro ⟨main, tx⟩ ⟨rfl, pool, rfl⟩
  refine ⟨⟨engineInv_start, .dispatch _⟩, ⟨⟨rfl, rfl, rfl, nofun, nofun, nofun, nofun⟩, rfl, ?_⟩,
    each_nil⟩
  exact fun _ => ChryRingbuffer.unread_fresh rfl rfl

theorem zero_length_terminates (reach : firmware.Reach FlushHasData f) :
    Each Terminates f.tx.trace :=
  (firmwareInv reach).terminates

/-- 64 bytes read back by one scan, and the zero-length packet behind them. -/
theorem zero_length_terminates_scan : ∃ f : Firmware, Each Terminates f.tx.trace ∧
    (startedPayloads f.tx.trace).map List.length = [64, 0] := by
  have ran : (firmware.run FlushHasData
      ⟨.start, (UsbTx.initCherryusb (Vector.replicate _ 0)).usbdSetEndpoint⟩
      ([.usbOut ([0x00, 0x17, 0x00, 0x02] ++ List.replicate 64 0)] ++
        List.replicate 6 (.poll fun _ => false) ++ [.inComplete])).any (fun f =>
          decide ((startedPayloads f.tx.trace).map List.length = [64, 0])) = true := by
    decide +kernel
  obtain ⟨f, reach, holds⟩ := Machine.exists_reach (M := firmware) _ ⟨rfl, _, rfl⟩ ran
  exact ⟨f, zero_length_terminates reach, of_decide_eq_true holds⟩

/-- The condition is exact: a flush that does not meet it starts a zero-length
    transfer behind no completion. -/
theorem empty_flush_starts (reach : firmware.Reach FlushHasData f) (at_pc : f.main.pc = .flushTdo)
    (nothing : f.main.world.ctx.tdoInDwords = 0) (idle : f.tx.epTxBusyFlag = false)
    (tdo : Nat → Bool) (stepped : firmwareStep f (.poll tdo) = some f') :
    ¬Each Terminates f'.tx.trace := by
  obtain ⟨main, flow, -⟩ := firmwareInv reach
  obtain ⟨main', polled, rfl⟩ := Option.map_eq_some_iff.mp stepped
  have flushed : sentBetween f.main main' = [[]] := by
    obtain ⟨q, is⟩ := main.engine.queue
    have pointer := is.restart nothing
    have zero : Lib.u32 0 = 0 := Lib.u32_eq (by decide)
    obtain ⟨w, returned, trace⟩ : ∃ w, lsejtagFlushTdo f.main.world f.tx.lsejtagImplUsbtxFreeLen =
        .ok (0, w) ∧ w.trace = f.main.world.trace ++ [.flush []] := by
      simp [lsejtagFlushTdo, zero, flushDwords, nothing, pointer]
    simp only [mainStep, mainPoll, at_pc, returned, Option.some.injEq] at polled
    rw [← polled, sentBetween, trace, List.drop_left]
    rfl
  rw [flushed]
  change ¬Each Terminates (f.tx.lsejtagImplUsbtx []).trace
  have called := UsbTx.lsejtagImplUsbtx_called flow.ready []
  generalize f.tx.lsejtagImplUsbtx [] = t' at called ⊢
  cases called with
  | busy flag => exact Bool.noConfusion (idle.symm.trans flag)
  | started _ start len payload oldest =>
    have unread : (f.tx.rbEjtagWrite.write []).unread = [] := by
      rw [ChryRingbuffer.unread_write_cut, flow.idle (flow.busy ▸ idle)]
      exact List.take_nil
    have empty : payload = [] := List.prefix_nil.mp (unread ▸ oldest.oldest)
    intro each
    obtain ⟨-, terminates⟩ := each_snoc.mp each
    obtain ⟨payload, last, -⟩ := terminates (by rw [empty])
    change (f.tx.trace ++ [UsbTxEvent.usbtx []]).getLast? = _ at last
    rw [List.getLast?_concat] at last
    cases last

/-- A scan that is read back at once, and then a fast write of one word: the block
    of the write still has the flag of the scan, and its end is flushed. -/
theorem fast_write_sends_empty : ∃ f, firmware.Reachable f ∧ ¬Each Terminates f.tx.trace ∧
    startedPayloads f.tx.trace = [[0, 0, 0, 0], []] := by
  have ran : (firmware.run Machine.anyAction
      ⟨.start, (UsbTx.initCherryusb (Vector.replicate _ 0)).usbdSetEndpoint⟩
      ([.usbOut [0x00, 0x17, 0x20, 0x00, 1, 2, 3, 4]] ++
        List.replicate 6 (.poll fun _ => false) ++
        [.inComplete, .usbOut [0x00, 0x30, 0x01, 0x00, 0x01, 0x00, 0x00, 0x00,
          0x11, 0x22, 0x33, 0x44, 0x55, 0x66, 0x77, 0x88]] ++
        List.replicate 8 (.poll fun _ => false))).any (fun f =>
          decide (f.tx.trace = f.tx.trace.take 5 ++ .start [] :: f.tx.trace.drop 6 ∧
            (f.tx.trace.take 5).getLast? = some (.usbtx []) ∧
            startedPayloads f.tx.trace = [[0, 0, 0, 0], []])) = true := by
    decide +kernel
  obtain ⟨f, reach, holds⟩ := Machine.exists_reach (M := firmware) _ ⟨rfl, _, rfl⟩ ran
  obtain ⟨trace, before, starts⟩ := of_decide_eq_true holds
  refine ⟨f, reach, fun each => ?_, starts⟩
  obtain ⟨payload, last, -⟩ := each _ _ _ trace rfl
  rw [before] at last
  cases last

end LoongsonEjtag
