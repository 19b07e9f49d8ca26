import LoongsonEjtag.RxFifo

/-! # Who may start an OUT read

`lsejtag_impl_usbrx_consume` resets the ring and starts a read without a lock.
This is safe if the busy flag is up whenever a read is outstanding.  The flag is
down from `init_cherryusb` on, and the configuration event starts its read
without raising it.

* `usbRxRestarts` — the OUT path with a history of whether the consumer has
  restarted reception.
* `rx_restart_protocol` — the flag is right from the first restart on, and while
  a read is outstanding not before.
-/

namespace LoongsonEjtag

open Lib (Byte Machine)

/-- The test of `lsejtag_impl_usbrx_consume` once `len` bytes are read: reception
    has stopped and waits for the consumer. -/
def UsbRx.stalledAfter (u : UsbRx) (len : BitVec 32) : Bool :=
  !u.epRxBusyFlag && (u.ringbufferRead len).rbEjtagRead.checkEmpty

structure UsbRxRestarts where
  usb : UsbRx
  /-- History: the consumer has started a read. -/
  restarted : Bool

def usbRxRestartsStep (s : UsbRxRestarts) (input : UsbRxInput) : Option UsbRxRestarts :=
  (usbRxStep s.usb input).map fun usb =>
    match input with
    | .packet _ => { s with usb := usb }
    | .consume len => { usb := usb, restarted := s.restarted || s.usb.stalledAfter len }

/-- From the configuration event on. -/
def usbRxRestarts : Machine UsbRxRestarts UsbRxInput where
  init s := usbRx.init s.usb ∧ s.restarted = false
  step := usbRxRestartsStep

/-- The flag is up while a read is outstanding.  So the consumer resets the ring
    and starts a read only while none is, and between its test and the reset no
    packet is taken. -/
structure RestartSafe (u : UsbRx) : Prop where
  flag : u.outEp.rxValid = true → u.epRxBusyFlag = true
  noneOutstanding : ∀ len, u.stalledAfter len = true → u.outEp.rxValid = false
  nothingBetween : ∀ len, u.stalledAfter len = true → ∀ packet,
    usbRxStep (u.ringbufferRead len) (.packet packet) = none

structure RestartInv (s : UsbRxRestarts) : Prop where
  fifo : UsbRxInv s.usb
  before : s.restarted = false → s.usb.epRxBusyFlag = false
  after : s.restarted = true → s.usb.outEp.rxValid = true → s.usb.epRxBusyFlag = true

variable {u u' : UsbRx} {s s' : UsbRxRestarts}

/-! ## Steps -/

/-- A read that is started leaves the flag alone. -/
theorem usbdEpStartRead_flag (data : Nat) (len : BitVec 32) :
    (u.usbdEpStartRead data len).epRxBusyFlag = u.epRxBusyFlag := by
  rw [UsbRx.usbdEpStartRead]
  split <;> rfl

/-- A completion leaves the flag alone, or takes it down with no read outstanding. -/
theorem usbdEjtagBulkOutComplete_flag (stopped : u.outEp.rxValid = false) (nbytes : BitVec 32) :
    (u.usbdEjtagBulkOutComplete nbytes).epRxBusyFlag = u.epRxBusyFlag ∨
      (u.usbdEjtagBulkOutComplete nbytes).epRxBusyFlag = false ∧
        (u.usbdEjtagBulkOutComplete nbytes).outEp.rxValid = false := by
  have complete : (u.transferComplete nbytes).epRxBusyFlag = u.epRxBusyFlag ∧
      (u.transferComplete nbytes).outEp = u.outEp := by
    rw [UsbRx.transferComplete]
    split <;> exact ⟨rfl, rfl⟩
  rw [UsbRx.usbdEjtagBulkOutComplete]
  simp only
  split
  · exact .inl ((usbdEpStartRead_flag _ _).trans complete.1)
  · refine .inr ⟨rfl, ?_⟩
    rw [complete.2]
    exact stopped

theorem usbdIrqHandler_flag {packet : List Byte} (handled : u.usbdIrqHandler packet = some u') :
    u'.epRxBusyFlag = u.epRxBusyFlag ∨ u'.epRxBusyFlag = false ∧ u'.outEp.rxValid = false := by
  rw [UsbRx.usbdIrqHandler] at handled
  split at handled
  case isTrue fits =>
    simp only at handled
    split at handled
    · obtain rfl := Option.some.inj handled
      exact usbdEjtagBulkOutComplete_flag
        (u := { u.packetCopied packet fits with published := _ }) rfl _
    · exact Option.some.inj handled ▸ .inl rfl
  case isFalse => cases handled

/-- A call restarts reception, and the flag is up; or it changes neither flag nor
    endpoint. -/
theorem lsejtagImplUsbrxConsume_flag (len : BitVec 32) :
    u.stalledAfter len = true ∧ (u.lsejtagImplUsbrxConsume len).epRxBusyFlag = true ∨
      u.stalledAfter len = false ∧ u.lsejtagImplUsbrxConsume len = u.ringbufferRead len := by
  cases stalled : u.stalledAfter len with
  | true =>
    refine .inl ⟨rfl, ?_⟩
    have test : (!(u.ringbufferRead len).epRxBusyFlag &&
        (u.ringbufferRead len).rbEjtagRead.checkEmpty) = true := stalled
    rw [UsbRx.lsejtagImplUsbrxConsume]
    simp only
    rw [if_pos test, usbdEpStartRead_flag]
  | false =>
    refine .inr ⟨rfl, ?_⟩
    have test : (!(u.ringbufferRead len).epRxBusyFlag &&
        (u.ringbufferRead len).rbEjtagRead.checkEmpty) = false := stalled
    rw [UsbRx.lsejtagImplUsbrxConsume]
    simp only
    rw [if_neg (by rw [test]; decide)]

theorem restartInv_configured (initial : usbRxRestarts.init s) : RestartInv s := by
  obtain ⟨⟨pool, configured⟩, first⟩ := initial
  refine ⟨usbRxInv_configured configured, fun _ => ?_, fun restarted => ?_⟩
  · simp only [UsbRx.usbdEventConfigured, Option.ite_none_right_eq_some, Option.some.injEq]
      at configured
    rw [← configured.2, usbdEpStartRead_flag]
    rfl
  · exact Bool.noConfusion (first.symm.trans restarted)

theorem RestartInv.step {input : UsbRxInput} (inv : RestartInv s)
    (stepped : usbRxRestartsStep s input = some s') : RestartInv s' := by
  obtain ⟨usb, moved, rfl⟩ := Option.map_eq_some_iff.mp stepped
  have fifo := inv.fifo.step moved
  cases input with
  | packet bytes =>
    obtain ⟨⟨valid, -⟩, handled⟩ := Option.ite_none_right_eq_some.mp moved
    rcases usbdIrqHandler_flag handled with same | ⟨down, idle⟩
    · exact ⟨fifo, fun first => same.trans (inv.before first),
        fun restarted _ => same.trans (inv.after restarted valid)⟩
    · refine ⟨fifo, fun _ => down, fun _ valid => ?_⟩
      exact Bool.noConfusion (idle.symm.trans valid)
  | consume len =>
    obtain rfl := Option.some.inj moved
    rcases lsejtagImplUsbrxConsume_flag (u := s.usb) len with ⟨stalled, up⟩ | ⟨stalled, same⟩
    · refine ⟨fifo, fun first => ?_, fun _ _ => up⟩
      exact absurd (Bool.or_eq_false_iff.mp first).2 (by simp [stalled])
    · have restarted : (s.restarted || s.usb.stalledAfter len) = s.restarted := by
        rw [stalled, Bool.or_false]
      refine ⟨fifo, ?_, ?_⟩
      · simp only [restarted, same]
        exact inv.before
      · simp only [restarted, same]
        exact inv.after

/-! ## Runs -/

/-- In every order of packets and consumer calls the protocol is kept exactly
    where no read is outstanding or the consumer has restarted reception. -/
theorem rx_restart_protocol (reach : usbRxRestarts.Reachable s) :
    RestartSafe s.usb ↔ s.usb.outEp.rxValid = false ∨ s.restarted = true := by
  have inv : RestartInv s :=
    reach.invariant (fun _ initial => restartInv_configured initial)
      fun _ _ _ _ inv _ stepped => inv.step stepped
  constructor
  · intro safe
    cases valid : s.usb.outEp.rxValid with
    | false => exact .inl rfl
    | true =>
      refine .inr ?_
      by_contra first
      have down := inv.before (Bool.not_eq_true _ ▸ first)
      exact Bool.noConfusion ((safe.flag valid).symm.trans down)
  · intro condition
    have flag : s.usb.outEp.rxValid = true → s.usb.epRxBusyFlag = true := by
      intro valid
      rcases condition with idle | restarted
      · exact Bool.noConfusion (idle.symm.trans valid)
      · exact inv.after restarted valid
    have idle : ∀ len, s.usb.stalledAfter len = true → s.usb.outEp.rxValid = false := by
      intro len stalled
      obtain ⟨down, -⟩ := Bool.and_eq_true_iff.mp stalled
      by_contra valid
      simp [flag (Bool.not_eq_false _ ▸ valid)] at down
    refine ⟨flag, idle, fun len stalled packet => if_neg fun enabled => ?_⟩
    exact Bool.noConfusion ((idle len stalled).symm.trans enabled.1)

/-- A consumer that has emptied the ring after the first read has restarted
    reception, and the flag is up. -/
theorem rx_restart_protocol_restarted : ∃ s : UsbRxRestarts,
    (RestartSafe s.usb ↔ s.usb.outEp.rxValid = false ∨ s.restarted = true) ∧
      s.usb.outEp.rxValid = true ∧ s.restarted = true := by
  have ran : ((initCherryusb (Vector.replicate _ 0)).usbdSetEndpoint.usbdEventConfigured).any
      (fun start => (usbRxRestarts.run Machine.anyAction ⟨start, false⟩
        [.packet (List.replicate 10 2), .consume 10]).any fun s =>
          decide (s.usb.outEp.rxValid = true ∧ s.restarted = true)) = true := by
    decide +kernel
  obtain ⟨start, configured, holds⟩ := (Option.any_eq_true _ _).mp ran
  obtain ⟨s, reach, holds⟩ :=
    Machine.exists_reach (M := usbRxRestarts) _ ⟨⟨_, configured⟩, rfl⟩ holds
  exact ⟨s, rx_restart_protocol reach, of_decide_eq_true holds⟩

/-- After the first packet the next read is outstanding with the flag down.  The
    consumer takes the 10 bytes and its test holds; a packet that comes now is
    published and then dropped with the reset. -/
theorem read_outstanding_unflagged : ∃ s, usbRxRestarts.Reachable s ∧ ¬RestartSafe s.usb ∧
    s.usb.stalledAfter 10 = true ∧
      (usbRxStep (s.usb.ringbufferRead 10) (.packet [7])).any
        (fun u => u.rbEjtagRead.unread = [7]) = true := by
  have ran : ((initCherryusb (Vector.replicate _ 0)).usbdSetEndpoint.usbdEventConfigured).any
      (fun start => (usbRxRestarts.run Machine.anyAction ⟨start, false⟩
        [.packet (List.replicate 10 2)]).any fun s =>
          decide ((s.usb.outEp.rxValid = true ∧ s.usb.epRxBusyFlag = false) ∧
            s.usb.stalledAfter 10 = true ∧
              (usbRxStep (s.usb.ringbufferRead 10) (.packet [7])).any
                (fun u => u.rbEjtagRead.unread = [7]) = true)) = true := by
    decide +kernel
  obtain ⟨start, configured, holds⟩ := (Option.any_eq_true _ _).mp ran
  obtain ⟨s, reach, holds⟩ :=
    Machine.exists_reach (M := usbRxRestarts) _ ⟨⟨_, configured⟩, rfl⟩ holds
  obtain ⟨⟨valid, down⟩, dropped⟩ := of_decide_eq_true holds
  exact ⟨s, reach, fun safe => Bool.noConfusion ((safe.flag valid).symm.trans down), dropped⟩

end LoongsonEjtag
