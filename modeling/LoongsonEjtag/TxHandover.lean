import LoongsonEjtag.TxSteps

/-! # The IN path under interruption

`lsejtag_impl_usbtx` runs in the main loop and `USBD_IRQHandler` may interrupt it
anywhere.  Here the call is a sequence of steps with a program counter, and a
completion may come between any two of them.

* `txHandover` — the machine, and `usbtx_uninterrupted`, that its steps in a row
  are the call.
* `HandoverInv` — what holds at each program counter.
* `tx_handover` — in runs without a completion that ends the transmission after
  the transfer is started and before the flag is set, the flag is right whenever
  no call is in progress.  In the other case (`ended_unnoticed`) it stays up, and
  nothing is ever sent again (`stalled_for_good`).
-/

namespace LoongsonEjtag

open Lib (Byte Machine)

/-- The next step of `lsejtag_impl_usbtx`. -/
inductive UsbtxPc where
  | idle
  | busyTest
  | linearReadSetup
  | startWrite (readAddr : Nat) (availLen : BitVec 32)
  | setFlag
deriving DecidableEq

structure TxMain where
  usb : UsbTx
  pc : UsbtxPc

inductive TxMainInput where
  | usbtx (data : List Byte)
  | next
  | inComplete
deriving DecidableEq

namespace TxMain

variable (m : TxMain)

/-- The step the program counter stands for. -/
def next : Option TxMain :=
  match m.pc with
  | .idle => none
  | .busyTest =>
    some { m with pc := if !m.usb.epTxBusyFlag then .linearReadSetup else .idle }
  | .linearReadSetup =>
    let read := m.usb.rbEjtagWrite.linearReadSetup
    some { m with pc := .startWrite read.1 (UsbTx.minLen m.usb.usbdGetEpMps read.2) }
  | .startWrite readAddr availLen =>
    some { usb := m.usb.usbdEpStartWrite (some readAddr) availLen, pc := .setFlag }
  | .setFlag => some { usb := { m.usb with epTxBusyFlag := true }, pc := .idle }

/-- A call starts with the ring write.  The completion of an outstanding transfer
    is one step, whatever `main` is about to do. -/
def step : TxMainInput → Option TxMain
  | .usbtx data =>
    if m.pc = .idle then some { usb := m.usb.ringbufferWrite data, pc := .busyTest } else none
  | .next => m.next
  | .inComplete => if m.usb.inEp.txValid then some { m with usb := m.usb.usbdIrqHandler } else none

end TxMain

/-- From the configured device on. -/
def txHandover : Machine TxMain TxMainInput where
  init m := ∃ pool, m = ⟨(UsbTx.initCherryusb pool).usbdSetEndpoint, .idle⟩
  step := TxMain.step

variable {m m' : TxMain}

/-- The steps of a call in a row are `lsejtag_impl_usbtx`. -/
theorem usbtx_uninterrupted (m : TxMain) (idle : m.pc = .idle) (data : List Byte) :
    ∃ count, txHandover.run Machine.anyAction m (.usbtx data :: List.replicate count .next) =
      some ⟨m.usb.lsejtagImplUsbtx data, .idle⟩ := by
  cases flag : m.usb.epTxBusyFlag with
  | true =>
    refine ⟨1, ?_⟩
    have busy : (m.usb.ringbufferWrite data).epTxBusyFlag = true := flag
    simp [List.replicate, Machine.run, Machine.anyAction, txHandover, TxMain.step, TxMain.next,
      idle, UsbTx.lsejtagImplUsbtx, busy]
  | false =>
    refine ⟨4, ?_⟩
    have free : (m.usb.ringbufferWrite data).epTxBusyFlag = false := flag
    simp [List.replicate, Machine.run, Machine.anyAction, txHandover, TxMain.step, TxMain.next,
      idle, UsbTx.lsejtagImplUsbtx, free, UsbTx.sendOldest]

/-! ## The invariant -/

/-- What the program counter says about the flag and the transfer. -/
def Handover (m : TxMain) : Prop :=
  match m.pc with
  | .idle => m.usb.epTxBusyFlag = m.usb.inEp.txValid ∧
      (m.usb.inEp.txValid = false → m.usb.rbEjtagWrite.unread = [])
  | .busyTest => m.usb.epTxBusyFlag = m.usb.inEp.txValid
  | .linearReadSetup => m.usb.inEp.txValid = false
  | .startWrite readAddr availLen => m.usb.inEp.txValid = false ∧
      readAddr = m.usb.rbEjtagWrite.linearReadSetup.1 ∧
      availLen = UsbTx.minLen m.usb.usbdGetEpMps m.usb.rbEjtagWrite.linearReadSetup.2
  | .setFlag => m.usb.inEp.txValid = true

structure HandoverInv (m : TxMain) : Prop where
  ready : m.usb.InReady
  handover : Handover m

/-- The completion of the outstanding transfer starts another one: a zero-length
    one, or one of the bytes behind the packet. -/
def SendsOn (t : UsbTx) : Prop :=
  WholePackets t.inEp.packet ∨ t.inEp.packet.length < t.rbEjtagWrite.unread.length

instance (t : UsbTx) : Decidable (SendsOn t) := inferInstanceAs (Decidable (_ ∨ _))

/-- No transmission ends between the start of a transfer and the setting of the
    flag. -/
def EndsNoticed (m : TxMain) (input : TxMainInput) : Prop :=
  input = .inComplete → m.pc = .setFlag → SendsOn m.usb

instance (m : TxMain) (input : TxMainInput) : Decidable (EndsNoticed m input) :=
  inferInstanceAs (Decidable (_ → _))

theorem handoverInv_start (initial : txHandover.init m) : HandoverInv m := by
  obtain ⟨pool, rfl⟩ := initial
  refine ⟨⟨rfl, rfl, rfl, nofun, nofun, nofun, nofun⟩, rfl, fun _ => ?_⟩
  exact ChryRingbuffer.unread_fresh rfl rfl

theorem HandoverInv.usbtx (inv : HandoverInv m) (idle : m.pc = .idle) (data : List Byte) :
    HandoverInv ⟨m.usb.ringbufferWrite data, .busyTest⟩ := by
  obtain ⟨usb, pc⟩ := m
  cases idle
  exact ⟨inv.ready.ringbufferWrite data, inv.handover.1⟩

theorem HandoverInv.next (inv : HandoverInv m) (stepped : m.next = some m') : HandoverInv m' := by
  obtain ⟨usb, pc⟩ := m
  obtain ⟨ready, handover⟩ := inv
  cases pc with
  | idle => cases stepped
  | busyTest =>
    obtain rfl := Option.some.inj stepped
    refine ⟨ready, ?_⟩
    have busy : usb.epTxBusyFlag = usb.inEp.txValid := handover
    cases flag : usb.epTxBusyFlag with
    | true =>
      simp only [Handover, flag, Bool.not_true, Bool.false_eq_true, if_false]
      refine ⟨flag ▸ busy, fun idle => ?_⟩
      exact absurd (flag.symm.trans (busy.trans idle)) nofun
    | false =>
      simp only [Handover, Bool.not_false, if_true]
      exact busy ▸ flag
  | linearReadSetup =>
    obtain rfl := Option.some.inj stepped
    exact ⟨ready, handover, rfl, rfl⟩
  | startWrite readAddr availLen =>
    -- The ring is as it was when the region was looked up.
    obtain ⟨-, addr, avail⟩ := handover
    simp only at addr avail
    obtain ⟨start, len, payload, sends, oldest⟩ :=
      UsbTx.sendOldest_eq ready.enabled ready.epMps ready.txMsgEpMps
    have started : usb.usbdEpStartWrite (some readAddr) availLen = usb.sendOldest := by
      rw [addr, avail]
      rfl
    obtain rfl := Option.some.inj stepped
    simp only
    rw [started, sends]
    exact ⟨.sending ready.enabled ready.epMps ready.txMsgEpMps oldest.whole oldest.small
      oldest.oldest, rfl⟩
  | setFlag =>
    obtain rfl := Option.some.inj stepped
    refine ⟨ready.withFlag true, Eq.symm handover, fun idle => ?_⟩
    exact absurd (Eq.trans (Eq.symm handover) idle) nofun

theorem HandoverInv.inComplete (inv : HandoverInv m) (valid : m.usb.inEp.txValid = true)
    (noticed : m.pc = .setFlag → SendsOn m.usb) :
    HandoverInv ⟨m.usb.usbdIrqHandler, m.pc⟩ := by
  obtain ⟨usb, pc⟩ := m
  obtain ⟨ready, handover⟩ := inv
  refine ⟨ready.inComplete valid, ?_⟩
  cases pc with
  | idle =>
    have flow := UsbTx.InFlow.inComplete ⟨ready, handover.1, handover.2⟩ valid
    exact ⟨flow.busy, flow.idle⟩
  | busyTest =>
    have busy : usb.epTxBusyFlag = usb.inEp.txValid := handover
    have flow := UsbTx.InFlow.inComplete
      ⟨ready, busy, fun idle => absurd (Eq.trans (Eq.symm valid) idle) nofun⟩ valid
    exact flow.busy
  -- Before the transfer is started there is none to complete.
  | linearReadSetup => exact absurd (Eq.trans (Eq.symm valid) handover) nofun
  | startWrite => exact absurd (Eq.trans (Eq.symm valid) handover.1) nofun
  -- The transfer completes before the flag is set: it has to start another one.
  | setFlag =>
    have goesOn := noticed rfl
    have taken := congrArg List.length (ready.taken valid)
    have completed := UsbTx.usbdIrqHandler_completed ready valid
    change usb.usbdIrqHandler.inEp.txValid = true
    generalize usb.usbdIrqHandler = t' at completed ⊢
    cases completed with
    | terminated => rfl
    | continued => rfl
    | ended short empty =>
      rw [List.length_append, empty, List.length_nil] at taken
      rcases goesOn with whole | more
      · exact absurd whole short
      · change usb.inEp.packet.length < usb.rbEjtagWrite.unread.length at more
        change usb.inEp.packet.length + 0 = usb.rbEjtagWrite.unread.length at taken
        omega

theorem HandoverInv.step {input : TxMainInput} (inv : HandoverInv m)
    (noticed : EndsNoticed m input) (stepped : m.step input = some m') : HandoverInv m' := by
  cases input with
  | usbtx data =>
    obtain ⟨idle, written⟩ := Option.ite_none_right_eq_some.mp stepped
    exact Option.some.inj written ▸ inv.usbtx idle data
  | next => exact inv.next stepped
  | inComplete =>
    obtain ⟨valid, completed⟩ := Option.ite_none_right_eq_some.mp stepped
    exact Option.some.inj completed ▸ inv.inComplete valid (noticed rfl)

/-! ## Runs -/

/-- The flag is up exactly while a transfer is outstanding, and bytes in the ring
    are on their way. -/
structure HandedOver (t : UsbTx) : Prop where
  busy : t.epTxBusyFlag = true ↔ t.inEp.txValid = true
  goesOn : t.rbEjtagWrite.unread ≠ [] → t.inEp.txValid = true

theorem handoverInv (reach : txHandover.Reach EndsNoticed m) : HandoverInv m :=
  reach.invariant (fun _ initial => handoverInv_start initial)
    fun _ _ _ _ inv noticed stepped => inv.step noticed stepped

theorem tx_handover (reach : txHandover.Reach EndsNoticed m) (idle : m.pc = .idle) :
    HandedOver m.usb := by
  have inv := handoverInv reach
  obtain ⟨usb, pc⟩ := m
  cases idle
  obtain ⟨busy, empty⟩ := inv.handover
  refine ⟨by simp only at busy ⊢; rw [busy], fun some => ?_⟩
  cases valid : usb.inEp.txValid with
  | true => rfl
  | false => exact absurd (empty valid) some

/-- A call of 10 bytes, and a completion while no call is in progress. -/
theorem tx_handover_call : ∃ m : TxMain, HandedOver m.usb ∧
    completedBytes m.usb.trace = List.replicate 10 7 ∧ m.usb.epTxBusyFlag = false := by
  have ran : (txHandover.run EndsNoticed
      ⟨(UsbTx.initCherryusb (Vector.replicate _ 0)).usbdSetEndpoint, .idle⟩
      [.usbtx (List.replicate 10 7), .next, .next, .next, .next, .inComplete]).any (fun m =>
        decide (m.pc = .idle ∧ completedBytes m.usb.trace = List.replicate 10 7 ∧
          m.usb.epTxBusyFlag = false)) = true := by
    decide +kernel
  obtain ⟨m, reach, holds⟩ := Machine.exists_reach (M := txHandover) _ ⟨_, rfl⟩ ran
  obtain ⟨idle, sent, flag⟩ := of_decide_eq_true holds
  exact ⟨m, tx_handover reach idle, sent, flag⟩

/-- The condition is exact: a completion that does not meet it leaves the flag up
    with no transfer outstanding. -/
theorem ended_unnoticed (reach : txHandover.Reach EndsNoticed m) (started : m.pc = .setFlag)
    (ends : ¬SendsOn m.usb) :
    ∃ m', txHandover.run Machine.anyAction m [.inComplete, .next] = some m' ∧ m'.pc = .idle ∧
      m'.usb.epTxBusyFlag = true ∧ m'.usb.inEp.txValid = false := by
  have inv := handoverInv reach
  obtain ⟨usb, pc⟩ := m
  cases started
  have valid : usb.inEp.txValid = true := inv.handover
  refine ⟨⟨{ usb.usbdIrqHandler with epTxBusyFlag := true }, .idle⟩, ?_, rfl, rfl, ?_⟩
  · simp [Machine.run, Machine.anyAction, txHandover, TxMain.step, TxMain.next, valid]
  · obtain ⟨whole, none⟩ := not_or.mp ends
    have taken := congrArg List.length (inv.ready.taken valid)
    have completed := UsbTx.usbdIrqHandler_completed inv.ready valid
    simp only at completed taken whole none ⊢
    generalize usb.usbdIrqHandler = t' at completed ⊢
    cases completed with
    | terminated is => exact absurd is whole
    | continued _ _ _ _ more =>
      rw [List.length_append] at taken
      have some := List.length_pos_iff.mpr more
      omega
    | ended => rfl

/-- The flag is up and no transfer is outstanding. -/
structure Stalled (m : TxMain) : Prop where
  flag : m.usb.epTxBusyFlag = true
  idle : m.usb.inEp.txValid = false
  pc : m.pc = .idle ∨ m.pc = .busyTest

theorem Stalled.step {input : TxMainInput} (stalled : Stalled m)
    (stepped : m.step input = some m') : Stalled m' := by
  obtain ⟨usb, pc⟩ := m
  obtain ⟨flag, idle, pc⟩ := stalled
  cases input with
  | usbtx data =>
    obtain ⟨-, written⟩ := Option.ite_none_right_eq_some.mp stepped
    exact Option.some.inj written ▸ ⟨flag, idle, .inr rfl⟩
  | next =>
    rcases pc with rfl | rfl
    · cases stepped
    · obtain rfl := Option.some.inj stepped
      refine ⟨flag, idle, .inl ?_⟩
      have busy : usb.epTxBusyFlag = true := flag
      simp [busy]
  | inComplete =>
    obtain ⟨valid, -⟩ := Option.ite_none_right_eq_some.mp stepped
    exact absurd (Eq.trans (Eq.symm idle) valid) nofun

/-- It does not get out of this state. -/
theorem stalled_for_good {inputs : List TxMainInput} (stalled : Stalled m)
    (ran : txHandover.run Machine.anyAction m inputs = some m') : Stalled m' :=
  Machine.run_keeps (fun _ _ _ stalled _ stepped => stalled.step stepped) stalled ran

/-- A transfer of 10 bytes is complete before the flag is set.  The flag stays up,
    and the 4 bytes of the next call stay in the ring with no transfer outstanding. -/
theorem completion_before_flag : ∃ m : TxMain, txHandover.Reachable m ∧ m.pc = .idle ∧
    m.usb.epTxBusyFlag = true ∧ m.usb.inEp.txValid = false ∧ m.usb.rbEjtagWrite.unread ≠ [] := by
  have ran : (txHandover.run Machine.anyAction
      ⟨(UsbTx.initCherryusb (Vector.replicate _ 0)).usbdSetEndpoint, .idle⟩
      [.usbtx (List.replicate 10 7), .next, .next, .next, .inComplete, .next,
        .usbtx (List.replicate 4 8), .next]).any (fun m =>
        decide (m.pc = .idle ∧ m.usb.epTxBusyFlag = true ∧ m.usb.inEp.txValid = false ∧
          m.usb.rbEjtagWrite.unread ≠ [])) = true := by
    decide +kernel
  obtain ⟨m, reach, holds⟩ := Machine.exists_reach (M := txHandover) _ ⟨_, rfl⟩ ran
  exact ⟨m, reach, of_decide_eq_true holds⟩

end LoongsonEjtag
