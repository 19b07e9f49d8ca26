import LoongsonEjtag.UsbTx

/-! # What the IN path can do

With the endpoint enabled and a well-formed transfer outstanding, a completion
ends in one of three ways (`InCompleted`), and a call of `lsejtag_impl_usbtx` in
one of two (`UsbtxCalled`).  Every invariant of the IN path is proved from these
lists.
-/

namespace LoongsonEjtag

open Lib (Byte)

/-- Transfers of a positive multiple of the packet size, which need a zero-length
    packet behind them. -/
def WholePackets (payload : List Byte) : Prop := payload ≠ [] ∧ 64 ∣ payload.length

instance (payload : List Byte) : Decidable (WholePackets payload) :=
  inferInstanceAs (Decidable (_ ∧ _))

namespace UsbTx

/-- A transfer of `payload` has started. -/
def sending (t : UsbTx) (data : Option Nat) (len : BitVec 32) (payload : List Byte) : UsbTx :=
  { t with inEp := { t.inEp with
      xferBuf := data
      xferLen := len
      actualXferLen := 0
      txValid := true
      packet := payload
      sent := [] } }.log (.start payload)

/-- The outstanding transfer is complete and its bytes are out of the ring. -/
def taken (t : UsbTx) : UsbTx :=
  { t.packetSent.log (.complete t.inEp.packet) with
    rbEjtagWrite := t.rbEjtagWrite.linearReadDone (BitVec.ofNat 32 t.inEp.packet.length) }

/-- Nothing is left to send. -/
def ended (t : UsbTx) : UsbTx :=
  { t with rbEjtagWrite := t.rbEjtagWrite.reset, epTxBusyFlag := false }.log (.reset [] false)

/-- The endpoint is configured, and an outstanding transfer is one packet of the
    oldest bytes. -/
structure InReady (t : UsbTx) : Prop where
  enabled : t.inEp.epEnable = true
  epMps : t.inEp.epMps = 64
  txMsgEpMps : t.txMsgEpMps = 64
  whole : t.inEp.txValid = true → t.inEp.xferLen.toNat = t.inEp.packet.length
  small : t.inEp.txValid = true → t.inEp.packet.length ≤ 64
  fresh : t.inEp.txValid = true → t.inEp.actualXferLen = 0 ∧ t.inEp.sent = []
  oldest : t.inEp.txValid = true → t.inEp.packet <+: t.rbEjtagWrite.unread

/-- The transfer that `sendOldest` starts. -/
structure Oldest (t : UsbTx) (len : BitVec 32) (payload : List Byte) : Prop where
  whole : len.toNat = payload.length
  small : payload.length ≤ 64
  oldest : payload <+: t.rbEjtagWrite.unread
  some : t.rbEjtagWrite.unread ≠ [] → payload ≠ []

/-- The ways a completion can end. -/
inductive InCompleted (t : UsbTx) : UsbTx → Prop
  /-- A zero-length packet follows. -/
  | terminated (whole : WholePackets t.inEp.packet) : InCompleted t (t.taken.sending none 0 [])
  /-- More bytes are there and follow. -/
  | continued (short : ¬WholePackets t.inEp.packet) (start : Nat) (len : BitVec 32)
      (payload : List Byte) (more : t.taken.rbEjtagWrite.unread ≠ [])
      (oldest : Oldest t.taken len payload) :
      InCompleted t (t.taken.sending (some start) len payload)
  /-- The end of a transmission. -/
  | ended (short : ¬WholePackets t.inEp.packet) (empty : t.taken.rbEjtagWrite.unread = []) :
      InCompleted t t.taken.ended

/-- The ways `lsejtag_impl_usbtx` can go on once `data` is in the ring. -/
inductive UsbtxCalled (t : UsbTx) (data : List Byte) : UsbTx → Prop
  | busy (flag : t.epTxBusyFlag = true) : UsbtxCalled t data (t.ringbufferWrite data)
  | started (flag : t.epTxBusyFlag = false) (start : Nat) (len : BitVec 32)
      (payload : List Byte) (oldest : Oldest (t.ringbufferWrite data) len payload) :
      UsbtxCalled t data
        { (t.ringbufferWrite data).sending (some start) len payload with epTxBusyFlag := true }

variable {t : UsbTx}

theorem toNat_minLen (a b : BitVec 32) : (minLen a b).toNat = min a.toNat b.toNat := by
  rw [minLen]
  split <;> bv_omega

theorem sendOldest_eq (enabled : t.inEp.epEnable = true) (epMps : t.inEp.epMps = 64)
    (txMsgEpMps : t.txMsgEpMps = 64) :
    ∃ start len payload, t.sendOldest = t.sending (some start) len payload ∧
      Oldest t len payload := by
  obtain ⟨avail, -⟩ := t.rbEjtagWrite.linearReadSetup_eq
  have mps : (BitVec.setWidth 32 (64 : BitVec 16)).toNat = 64 := rfl
  have position : t.rbEjtagWrite.outIdx.toNat % 2 ^ 8 < 2 ^ 8 := Nat.mod_lt _ (by decide)
  have length := t.rbEjtagWrite.length_unread
  obtain ⟨len, is⟩ : ∃ len, len = minLen t.usbdGetEpMps t.rbEjtagWrite.linearReadSetup.2 :=
    ⟨_, rfl⟩
  have cut : len.toNat = min 64 t.rbEjtagWrite.linearReadSetup.2.toNat := by
    rw [is, toNat_minLen, usbdGetEpMps, txMsgEpMps, mps]
  have packet : minLen len (t.inEp.epMps.setWidth 32) = len := by
    apply BitVec.eq_of_toNat_eq
    rw [toNat_minLen, epMps, mps]
    omega
  have data : t.poolBytes (some t.rbEjtagWrite.linearReadSetup.1) len =
      t.rbEjtagWrite.unread.take len.toNat :=
    ChryRingbuffer.linearReadSetup_data (by omega)
  have taken : (t.rbEjtagWrite.unread.take len.toNat).length = len.toNat := by
    rw [List.length_take]
    omega
  refine ⟨t.rbEjtagWrite.linearReadSetup.1, len, _, ?_, taken.symm, by omega,
    List.take_prefix _ _, fun some => ?_⟩
  · simp only [sendOldest]
    rw [← is, usbdEpStartWrite, if_neg (by simp), if_pos enabled, packet, data, sending]
  · have more := List.length_pos_iff.mpr some
    exact List.length_pos_iff.mp (by omega)

theorem zeroLength_eq (enabled : t.inEp.epEnable = true) :
    t.usbdEpStartWrite none 0 = t.sending none 0 [] := by
  simp [usbdEpStartWrite, enabled, poolBytes, sending]

/-- Every completion ends in one of the ways of the list. -/
theorem usbdIrqHandler_completed (ready : InReady t) (valid : t.inEp.txValid = true) :
    InCompleted t t.usbdIrqHandler := by
  have length : (BitVec.ofNat 32 t.inEp.packet.length).toNat = t.inEp.packet.length := by
    have small := ready.small valid
    rw [BitVec.toNat_ofNat, Nat.mod_eq_of_lt (by omega)]
  have writeCount : t.inEp.xferLen = BitVec.ofNat 32 t.inEp.packet.length :=
    BitVec.eq_of_toNat_eq ((ready.whole valid).trans length.symm)
  -- A transfer is one packet, so the first interrupt is also the last.
  have usedUp : t.packetSent.inEp.xferLen = 0 := by
    change t.inEp.xferLen - BitVec.ofNat 32 t.inEp.packet.length = 0
    rw [writeCount, BitVec.sub_self]
    rfl
  have actual : t.packetSent.inEp.actualXferLen = BitVec.ofNat 32 t.inEp.packet.length := by
    change t.inEp.actualXferLen + BitVec.ofNat 32 t.inEp.packet.length = _
    rw [(ready.fresh valid).1]
    exact BitVec.zero_add _
  have sent : t.packetSent.inEp.sent = t.inEp.packet := by
    change t.inEp.sent ++ t.inEp.packet = _
    rw [(ready.fresh valid).2, List.nil_append]
  have whole : BitVec.ofNat 32 t.inEp.packet.length % t.taken.usbdGetEpMps = 0 ∧
      BitVec.ofNat 32 t.inEp.packet.length ≠ 0 ↔ WholePackets t.inEp.packet := by
    have mps : t.taken.usbdGetEpMps.toNat = 64 := by
      change (t.txMsgEpMps.setWidth 32).toNat = 64
      rw [ready.txMsgEpMps]
      rfl
    have zero : (0 : BitVec 32).toNat = 0 := rfl
    rw [WholePackets, ← List.length_pos_iff, ← BitVec.toNat_inj, ne_eq, ← BitVec.toNat_inj,
      BitVec.toNat_umod, mps, length, zero]
    omega
  rw [usbdIrqHandler]
  simp only [usedUp, if_true]
  rw [usbdEventEpInCompleteHandler, sent, actual]
  -- What the callback does then: terminate, go on with the ring, or stop.
  change InCompleted t (if BitVec.ofNat 32 t.inEp.packet.length % t.taken.usbdGetEpMps = 0 ∧
      BitVec.ofNat 32 t.inEp.packet.length ≠ 0 then t.taken.usbdEpStartWrite none 0
    else if !t.taken.rbEjtagWrite.checkEmpty then t.taken.sendOldest
    else { t.taken with rbEjtagWrite := _, epTxBusyFlag := false }.log
      (.reset t.taken.rbEjtagWrite.unread false))
  by_cases isWhole : WholePackets t.inEp.packet
  · rw [if_pos (whole.mpr isWhole), @zeroLength_eq t.taken ready.enabled]
    exact .terminated isWhole
  · rw [if_neg (mt whole.mp isWhole)]
    cases empty : t.taken.rbEjtagWrite.checkEmpty with
    | true =>
      have nothing := ChryRingbuffer.checkEmpty_iff.mp empty
      rw [nothing]
      exact .ended isWhole nothing
    | false =>
      have more : t.taken.rbEjtagWrite.unread ≠ [] := fun nothing =>
        absurd (ChryRingbuffer.checkEmpty_iff.mpr nothing) (by simp [empty])
      obtain ⟨start, len, payload, sends, oldest⟩ :=
        @sendOldest_eq t.taken ready.enabled ready.epMps ready.txMsgEpMps
      simp only [Bool.not_false, if_true]
      rw [sends]
      exact .continued isWhole start len payload more oldest

/-- Every call goes on in one of the ways of the list. -/
theorem lsejtagImplUsbtx_called (ready : InReady t) (data : List Byte) :
    UsbtxCalled t data (t.lsejtagImplUsbtx data) := by
  rw [lsejtagImplUsbtx]
  cases flag : t.epTxBusyFlag with
  | true =>
    have busy : (t.ringbufferWrite data).epTxBusyFlag = true := flag
    simp only [busy, Bool.not_true]
    exact .busy flag
  | false =>
    have idle : (t.ringbufferWrite data).epTxBusyFlag = false := flag
    obtain ⟨start, len, payload, sends, oldest⟩ :=
      @sendOldest_eq (t.ringbufferWrite data) ready.enabled ready.epMps ready.txMsgEpMps
    simp only [idle, Bool.not_false, if_true]
    rw [sends]
    exact .started flag start len payload oldest

/-! ## What they keep -/

/-- The library's bytes do not change what is known of the transfer. -/
theorem InReady.ringbufferWrite (ready : InReady t) (data : List Byte) :
    InReady (t.ringbufferWrite data) := by
  obtain ⟨enabled, epMps, txMsgEpMps, whole, small, fresh, oldest⟩ := ready
  refine ⟨enabled, epMps, txMsgEpMps, whole, small, fresh, fun valid => ?_⟩
  change t.inEp.packet <+: (t.rbEjtagWrite.write data).unread
  rw [ChryRingbuffer.unread_write_cut]
  exact (oldest valid).trans (List.prefix_append _ _)

theorem InReady.withFlag (ready : InReady t) (flag : Bool) :
    InReady { t with epTxBusyFlag := flag } :=
  ⟨ready.enabled, ready.epMps, ready.txMsgEpMps, ready.whole, ready.small, ready.fresh,
    ready.oldest⟩

theorem InReady.sending {data : Option Nat} {len : BitVec 32} {payload : List Byte}
    (enabled : t.inEp.epEnable = true) (epMps : t.inEp.epMps = 64)
    (txMsgEpMps : t.txMsgEpMps = 64) (whole : len.toNat = payload.length)
    (small : payload.length ≤ 64) (oldest : payload <+: t.rbEjtagWrite.unread) :
    InReady (t.sending data len payload) :=
  ⟨enabled, epMps, txMsgEpMps, fun _ => whole, fun _ => small, fun _ => ⟨rfl, rfl⟩, fun _ => oldest⟩

theorem InReady.inComplete (ready : InReady t) (valid : t.inEp.txValid = true) :
    InReady t.usbdIrqHandler := by
  have completed := usbdIrqHandler_completed ready valid
  generalize t.usbdIrqHandler = t' at completed ⊢
  cases completed with
  | terminated =>
    exact .sending ready.enabled ready.epMps ready.txMsgEpMps rfl (Nat.zero_le _) List.nil_prefix
  | continued _ _ _ _ _ oldest =>
    exact .sending ready.enabled ready.epMps ready.txMsgEpMps oldest.whole oldest.small
      oldest.oldest
  | ended => exact ⟨ready.enabled, ready.epMps, ready.txMsgEpMps, nofun, nofun, nofun, nofun⟩

/-- The packet that is sent goes out of the ring. -/
theorem InReady.taken (ready : InReady t) (valid : t.inEp.txValid = true) :
    t.inEp.packet ++ t.taken.rbEjtagWrite.unread = t.rbEjtagWrite.unread := by
  have small := ready.small valid
  have length : (BitVec.ofNat 32 t.inEp.packet.length).toNat = t.inEp.packet.length := by
    rw [BitVec.toNat_ofNat, Nat.mod_eq_of_lt (by omega)]
  have left : t.taken.rbEjtagWrite.unread = t.rbEjtagWrite.unread.drop t.inEp.packet.length := by
    rw [← length]
    exact ChryRingbuffer.unread_linearReadDone _
  obtain ⟨rest, is⟩ := ready.oldest valid
  rw [left, ← is, List.drop_left]

/-- The flag tells whether a transfer is outstanding, which it is while bytes are
    unread. -/
structure InFlow (t : UsbTx) : Prop where
  ready : InReady t
  busy : t.epTxBusyFlag = t.inEp.txValid
  idle : t.inEp.txValid = false → t.rbEjtagWrite.unread = []

theorem InFlow.inComplete (flow : InFlow t) (valid : t.inEp.txValid = true) :
    InFlow t.usbdIrqHandler := by
  have ready := flow.ready.inComplete valid
  have completed := usbdIrqHandler_completed flow.ready valid
  generalize t.usbdIrqHandler = t' at completed ready ⊢
  cases completed with
  | terminated => exact ⟨ready, flow.busy.trans valid, nofun⟩
  | continued => exact ⟨ready, flow.busy.trans valid, nofun⟩
  | ended => exact ⟨ready, rfl, fun _ => ChryRingbuffer.unread_fresh rfl rfl⟩

theorem InFlow.usbtx (flow : InFlow t) (data : List Byte) : InFlow (t.lsejtagImplUsbtx data) := by
  have called := lsejtagImplUsbtx_called flow.ready data
  generalize t.lsejtagImplUsbtx data = t' at called ⊢
  cases called with
  | busy flag =>
    have valid : t.inEp.txValid = true := flow.busy ▸ flag
    refine ⟨flow.ready.ringbufferWrite data, flow.busy, fun idle => ?_⟩
    exact absurd (valid.symm.trans idle) nofun
  | started flag start len payload oldest =>
    have ready := flow.ready.ringbufferWrite data
    refine ⟨.withFlag ?_ true, rfl, nofun⟩
    exact .sending ready.enabled ready.epMps ready.txMsgEpMps oldest.whole oldest.small
      oldest.oldest

end UsbTx

end LoongsonEjtag
