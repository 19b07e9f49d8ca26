import LoongsonEjtag.UsbRx

/-! # The OUT path is a queue that never stops

Producer and consumer hand the duty to start the next read to each other
through the busy flag.  What ties flag, indices and read together:

* `Outstanding` — what holds of the ring while a read is outstanding.
* `UsbRxInv` — the invariant.  While no read is outstanding, the flag is down and
  bytes are unread, so the consumer that takes the last of them starts one.
* `usb_out_fifo` — consumed and unread bytes are the published ones.
-/

namespace LoongsonEjtag

open Lib (Byte Machine)

/-! ## The invariant -/

/-- A read is outstanding whose first packets are already behind the input index. -/
structure Outstanding (u : UsbRx) : Prop where
  actual : u.outEp.actualXferLen.toNat = u.outEp.received.length
  start : u.outEp.xferBuf = u.rbEjtagRead.inIdx.toNat % 2 ^ 8 + u.outEp.received.length
  inPool : u.outEp.xferBuf + u.outEp.xferLen.toNat ≤ 2 ^ 8
  room : u.rbEjtagRead.getUsed.toNat + u.outEp.received.length + u.outEp.xferLen.toNat ≤ 2 ^ 8
  packets : 64 ∣ u.outEp.xferLen.toNat
  unfilled : 0 < u.outEp.xferLen.toNat
  copied : u.rbEjtagRead.vacant u.outEp.received.length = u.outEp.received

structure UsbRxInv (u : UsbRx) : Prop where
  enabled : u.outEp.epEnable = true
  epMps : u.outEp.epMps = 64
  rxMsgEpMps : u.rxMsgEpMps = 64
  inOrder : u.consumed ++ u.rbEjtagRead.unread = u.published
  outstanding : u.outEp.rxValid = true → Outstanding u
  waiting : u.outEp.rxValid = false → u.epRxBusyFlag = false ∧ u.rbEjtagRead.unread ≠ []

/-! ## Starting a read -/

variable {u : UsbRx}

/-- A read into the region the ring offers. -/
theorem Outstanding.started {len : BitVec 32} (enabled : u.outEp.epEnable = true)
    (offered : len.toNat ≤ u.rbEjtagRead.linearWriteSetup.2.toNat) (packets : 64 ∣ len.toNat)
    (unfilled : 0 < len.toNat) :
    Outstanding (u.usbdEpStartRead u.rbEjtagRead.linearWriteSetup.1 len) := by
  obtain ⟨avail, start⟩ := u.rbEjtagRead.linearWriteSetup_eq
  have start := start (by omega)
  have sound := u.rbEjtagRead.toNat_getUsed_le
  rw [UsbRx.usbdEpStartRead, if_pos enabled]
  exact ⟨rfl, start, by simp only; omega, by simp; omega, packets, unfilled, rfl⟩

theorem UsbRxInv.started {len : BitVec 32} (enabled : u.outEp.epEnable = true)
    (epMps : u.outEp.epMps = 64) (rxMsgEpMps : u.rxMsgEpMps = 64)
    (inOrder : u.consumed ++ u.rbEjtagRead.unread = u.published)
    (started : Outstanding (u.usbdEpStartRead u.rbEjtagRead.linearWriteSetup.1 len)) :
    UsbRxInv (u.usbdEpStartRead u.rbEjtagRead.linearWriteSetup.1 len) := by
  rw [UsbRx.usbdEpStartRead, if_pos enabled] at started ⊢
  exact ⟨enabled, epMps, rxMsgEpMps, inOrder, fun _ => started, nofun⟩

theorem usbRxInv_configured {pool : Vector Byte (2 ^ 8)}
    (configured : (initCherryusb pool).usbdSetEndpoint.usbdEventConfigured = some u) :
    UsbRxInv u := by
  have whole : (initCherryusb pool).usbdSetEndpoint.rbEjtagRead.linearWriteSetup.2.toNat = 2 ^ 8 :=
    ChryRingbuffer.linearWriteSetup_fresh rfl rfl
  simp only [UsbRx.usbdEventConfigured, Option.ite_none_right_eq_some, Option.some.injEq]
    at configured
  obtain ⟨-, rfl⟩ := configured
  exact .started rfl rfl rfl (ChryRingbuffer.unread_fresh rfl rfl)
    (.started rfl le_rfl (whole ▸ by decide) (whole ▸ by decide))

/-! ## A packet -/

/-- The bytes of a completed transfer are behind the unread ones. -/
theorem transferComplete_eq {nbytes : BitVec 32}
    (room : u.rbEjtagRead.getUsed.toNat + nbytes.toNat ≤ 2 ^ 8) :
    ∃ rb, u.transferComplete nbytes = { u with rbEjtagRead := rb } ∧
      rb.unread = u.rbEjtagRead.unread ++ u.rbEjtagRead.vacant nbytes.toNat ∧
      (nbytes = 0 → rb = u.rbEjtagRead) := by
  rw [UsbRx.transferComplete]
  split
  case isTrue some =>
    exact ⟨_, rfl, ChryRingbuffer.unread_linearWriteDone room, fun none => absurd none some⟩
  case isFalse none =>
    rw [not_not.mp none]
    exact ⟨u.rbEjtagRead, rfl, (List.append_nil _).symm, fun _ => rfl⟩

/-- A read completes: its bytes are published, and the next one is started or
    left to the consumer, who then has bytes to take. -/
theorem UsbRxInv.complete (enabled : u.outEp.epEnable = true)
    (epMps : u.outEp.epMps = 64) (rxMsgEpMps : u.rxMsgEpMps = 64)
    (inOrder : u.consumed ++ u.rbEjtagRead.unread = u.published)
    (stopped : u.outEp.rxValid = false)
    (actual : u.outEp.actualXferLen.toNat = u.outEp.received.length)
    (copied : u.rbEjtagRead.vacant u.outEp.received.length = u.outEp.received)
    (room : u.rbEjtagRead.getUsed.toNat + u.outEp.received.length ≤ 2 ^ 8)
    (ample : u.outEp.received = [] → 64 ≤ u.rbEjtagRead.linearWriteSetup.2.toNat) :
    UsbRxInv u.usbdEventEpOutCompleteHandler := by
  obtain ⟨rb, complete, unread, unchanged⟩ :=
    @transferComplete_eq { u with published := u.published ++ u.outEp.received }
      u.outEp.actualXferLen (actual ▸ room)
  have published : u.consumed ++ rb.unread = u.published ++ u.outEp.received := by
    rw [unread, actual, ← List.append_assoc, inOrder, copied]
  have mps : BitVec.setWidth 32 (64 : BitVec 16) = 64 := rfl
  rw [UsbRx.usbdEventEpOutCompleteHandler, UsbRx.usbdEjtagBulkOutComplete, complete]
  simp only [UsbRx.usbdGetEpMps, rxMsgEpMps, mps]
  split
  case isTrue enough =>
    exact .started enabled epMps rfl published (.started enabled enough (by decide) (by decide))
  case isFalse short =>
    refine ⟨enabled, epMps, rfl, published, fun valid => ?_, fun _ => ⟨rfl, fun none => ?_⟩⟩
    · exact absurd (stopped.symm.trans valid) nofun
    · -- Nothing was received, so the ring offers what it offered to the read.
      rw [unread, actual, copied, List.append_eq_nil_iff] at none
      have nbytes : u.outEp.actualXferLen = 0 :=
        BitVec.eq_of_toNat_eq (actual.trans (congrArg List.length none.2))
      rw [unchanged nbytes] at short
      exact short (ample none.2)

/-- The space a read of no bytes leaves. -/
theorem Outstanding.ample (outstanding : Outstanding u) (empty : u.outEp.received = []) :
    64 ≤ u.rbEjtagRead.linearWriteSetup.2.toNat := by
  have least := Nat.le_of_dvd outstanding.unfilled outstanding.packets
  have inPool := outstanding.inPool
  have room := outstanding.room
  rw [outstanding.start, empty] at inPool
  rw [empty] at room
  rw [ChryRingbuffer.linearWriteSetup_eq.1]
  simp only [List.length_nil] at inPool room
  omega

/-- The interrupt of a packet. -/
theorem UsbRxInv.packet (inv : UsbRxInv u) (valid : u.outEp.rxValid = true) {packet : List Byte}
    (atMost : packet.length ≤ 64) : ∃ u', u.usbdIrqHandler packet = some u' ∧ UsbRxInv u' := by
  have outstanding := inv.outstanding valid
  have least := Nat.le_of_dvd outstanding.unfilled outstanding.packets
  have inPool := outstanding.inPool
  have start := outstanding.start
  have room := outstanding.room
  have fits : u.outEp.xferBuf + packet.length ≤ 2 ^ 8 := by omega
  have readCount : (BitVec.ofNat 32 packet.length).toNat = packet.length := by
    rw [BitVec.toNat_ofNat, Nat.mod_eq_of_lt (by omega)]
  have unread : (u.packetCopied packet fits).rbEjtagRead.unread = u.rbEjtagRead.unread :=
    ChryRingbuffer.unread_copyIn outstanding.start fits (by omega)
  have inOrder : u.consumed ++ (u.packetCopied packet fits).rbEjtagRead.unread = u.published :=
    unread ▸ inv.inOrder
  have received : (u.outEp.received ++ packet).length = u.outEp.received.length + packet.length :=
    List.length_append
  have copied : (u.packetCopied packet fits).rbEjtagRead.vacant
      (u.outEp.received ++ packet).length = u.outEp.received ++ packet := by
    have filled := ChryRingbuffer.vacant_copyIn outstanding.start fits
    rw [outstanding.copied, ← received] at filled
    exact filled
  have actual : (u.outEp.actualXferLen + BitVec.ofNat 32 packet.length).toNat =
      (u.outEp.received ++ packet).length := by
    rw [BitVec.toNat_add, outstanding.actual, readCount, received, Nat.mod_eq_of_lt (by omega)]
  have left : (u.outEp.xferLen - BitVec.ofNat 32 packet.length).toNat =
      u.outEp.xferLen.toNat - packet.length := by
    rw [BitVec.toNat_sub_of_le (by rw [BitVec.le_def]; omega), readCount]
  rw [UsbRx.usbdIrqHandler, dif_pos fits]
  simp only
  split
  case isTrue completes =>
    refine ⟨_, rfl, .complete inv.enabled inv.epMps inv.rxMsgEpMps inOrder rfl actual copied ?_ ?_⟩
    · change u.rbEjtagRead.getUsed.toNat + (u.outEp.received ++ packet).length ≤ 2 ^ 8
      omega
    · exact fun empty => outstanding.ample (List.append_eq_nil_iff.mp empty).1
  case isFalse continues =>
    -- A whole packet, and the read is not used up.
    obtain ⟨whole, more⟩ := not_or.mp continues
    have mps : (BitVec.setWidth 32 (64 : BitVec 16)).toNat = 64 := rfl
    have length : packet.length = 64 := by
      change ¬ BitVec.ofNat 32 packet.length < BitVec.setWidth 32 u.outEp.epMps at whole
      rw [inv.epMps, BitVec.lt_def, mps] at whole
      omega
    have unfilled : u.outEp.xferLen.toNat - packet.length ≠ 0 := fun none =>
      more (BitVec.eq_of_toNat_eq (left.trans none))
    refine ⟨_, rfl, inv.enabled, inv.epMps, inv.rxMsgEpMps, inOrder, fun _ => ?_, nofun⟩
    refine ⟨actual, ?_, ?_, ?_, ?_, ?_, copied⟩
    · change u.outEp.xferBuf + packet.length =
        u.rbEjtagRead.inIdx.toNat % 2 ^ 8 + (u.outEp.received ++ packet).length
      omega
    · change u.outEp.xferBuf + packet.length + (u.outEp.xferLen - _).toNat ≤ 2 ^ 8
      omega
    · change u.rbEjtagRead.getUsed.toNat + (u.outEp.received ++ packet).length +
        (u.outEp.xferLen - _).toNat ≤ 2 ^ 8
      omega
    · change 64 ∣ (u.outEp.xferLen - _).toNat
      rw [left, length]
      exact Nat.dvd_sub outstanding.packets (Nat.dvd_refl 64)
    · change 0 < (u.outEp.xferLen - _).toNat
      omega

/-! ## The consumer -/

theorem UsbRxInv.consume (inv : UsbRxInv u) (len : BitVec 32) :
    UsbRxInv (u.lsejtagImplUsbrxConsume len) := by
  have unread : (u.ringbufferRead len).rbEjtagRead.unread = u.rbEjtagRead.unread.drop len.toNat :=
    ChryRingbuffer.unread_read len
  have inOrder : (u.ringbufferRead len).consumed ++ (u.ringbufferRead len).rbEjtagRead.unread =
      u.published := by
    have data : (u.ringbufferRead len).consumed =
        u.consumed ++ u.rbEjtagRead.unread.take len.toNat :=
      congrArg (u.consumed ++ ·) (ChryRingbuffer.peek_snd len)
    rw [data, unread, List.append_assoc, List.take_append_drop, inv.inOrder]
  rw [UsbRx.lsejtagImplUsbrxConsume]
  simp only
  split
  case isTrue drained =>
    -- The flag is down and nothing is left: the duty to start the next read is here.
    obtain ⟨-, empty⟩ := Bool.and_eq_true_iff.mp drained
    rw [ChryRingbuffer.checkEmpty_iff.mp empty] at inOrder
    have whole : (u.ringbufferRead len).rbEjtagRead.reset.linearWriteSetup.2.toNat = 2 ^ 8 :=
      ChryRingbuffer.linearWriteSetup_fresh rfl rfl
    have fresh : (u.ringbufferRead len).rbEjtagRead.reset.unread = [] :=
      ChryRingbuffer.unread_fresh rfl rfl
    have mps : u.rxMsgEpMps.setWidth 32 = 64 := by
      rw [inv.rxMsgEpMps]
      rfl
    have enough : (u.rxMsgEpMps.setWidth 32).toNat ≤
        (u.ringbufferRead len).rbEjtagRead.reset.linearWriteSetup.2.toNat := by
      rw [mps, whole]
      decide
    have packets : 64 ∣ (u.rxMsgEpMps.setWidth 32).toNat := by rw [mps]; decide
    have unfilled : 0 < (u.rxMsgEpMps.setWidth 32).toNat := by rw [mps]; decide
    refine UsbRxInv.started inv.enabled inv.epMps inv.rxMsgEpMps ?_
      (.started inv.enabled enough packets unfilled)
    rw [fresh]
    exact inOrder
  case isFalse busy =>
    have fewer := congrArg List.length unread
    rw [List.length_drop, ChryRingbuffer.length_unread, ChryRingbuffer.length_unread] at fewer
    refine ⟨inv.enabled, inv.epMps, inv.rxMsgEpMps, inOrder, fun valid => ?_, fun idle => ?_⟩
    · obtain ⟨actual, start, inPool, room, packets, unfilled, copied⟩ := inv.outstanding valid
      have room' : (u.ringbufferRead len).rbEjtagRead.getUsed.toNat +
          u.outEp.received.length + u.outEp.xferLen.toNat ≤ 2 ^ 8 := by omega
      exact ⟨actual, start, inPool, room', packets, unfilled, copied⟩
    · have down := (inv.waiting idle).1
      refine ⟨down, fun none => busy ?_⟩
      exact Bool.and_eq_true_iff.mpr
        ⟨congrArg Bool.not down, ChryRingbuffer.checkEmpty_iff.mpr none⟩

/-! ## Runs -/

/-- The position is in the destination of the read. -/
def FsdevEpState.InWindow (ep : FsdevEpState) (position : Nat) : Prop :=
  ep.xferBuf ≤ position + ep.actualXferLen.toNat ∧ position < ep.xferBuf + ep.xferLen.toNat

/-- The position holds an unread byte. -/
def ChryRingbuffer.Holds {k : Nat} (rb : ChryRingbuffer k) (position : Nat) : Prop :=
  ∃ i < rb.getUsed.toNat, (rb.outIdx.toNat + i) % 2 ^ k = position

/-- The bytes taken and those still there are the bytes of the completed reads;
    the destination of an outstanding read is in the pool and holds no unread
    byte; it takes every packet; and there is one, or something to consume. -/
structure RxFifo (u : UsbRx) : Prop where
  inOrder : u.consumed ++ u.rbEjtagRead.unread = u.published
  inPool : u.outEp.rxValid = true → ∀ position, u.outEp.InWindow position → position < 2 ^ 8
  apart : u.outEp.rxValid = true → ∀ position, u.outEp.InWindow position →
    ¬ u.rbEjtagRead.Holds position
  accepts : u.outEp.rxValid = true → ∀ packet : List Byte, packet.length ≤ 64 →
    (u.usbdIrqHandler packet).isSome
  goesOn : u.outEp.rxValid = true ∨ u.rbEjtagRead.unread ≠ []

theorem UsbRxInv.step {input : UsbRxInput} {u' : UsbRx} (inv : UsbRxInv u)
    (stepped : usbRxStep u input = some u') : UsbRxInv u' := by
  cases input with
  | packet bytes =>
    obtain ⟨⟨valid, atMost⟩, handled⟩ := Option.ite_none_right_eq_some.mp stepped
    obtain ⟨u'', result, inv'⟩ := inv.packet valid atMost
    rw [result, Option.some.injEq] at handled
    exact handled ▸ inv'
  | consume len => exact Option.some.inj stepped ▸ inv.consume len

theorem UsbRxInv.fifo (inv : UsbRxInv u) : RxFifo u where
  inOrder := inv.inOrder
  inPool valid position within := within.2.trans_le (inv.outstanding valid).inPool
  apart valid position within := by
    rintro ⟨i, unread, at_⟩
    obtain ⟨behind, before⟩ := within
    obtain ⟨actual, start, inPool, room, -, -, -⟩ := inv.outstanding valid
    obtain ⟨j, is⟩ := Nat.exists_eq_add_of_le
      (show u.rbEjtagRead.inIdx.toNat % 2 ^ 8 ≤ position by omega)
    exact ChryRingbuffer.vacant_apart unread (by omega) (by omega) (at_.trans is)
  accepts valid packet atMost := by
    obtain ⟨u', handled, -⟩ := inv.packet valid atMost
    exact Option.isSome_iff_exists.mpr ⟨u', handled⟩
  goesOn := by
    cases valid : u.outEp.rxValid with
    | true => exact .inl rfl
    | false => exact .inr (inv.waiting valid).2

/-- The OUT path in every order of packets and consumer calls. -/
theorem usb_out_fifo (reach : usbRx.Reachable u) : RxFifo u := by
  have inv : UsbRxInv u :=
    reach.invariant (fun _ ⟨_, configured⟩ => usbRxInv_configured configured)
      fun _ _ _ _ inv _ stepped => inv.step stepped
  exact inv.fifo

/-- The first read takes two whole packets and a short one; the consumer empties
    the ring and starts over; three packets later it takes 100 bytes while the
    fourth is outstanding, and the fifth goes around the end of the pool. -/
def aroundTheEnd : List UsbRxInput :=
  [whole, whole, .packet (List.replicate 10 2), .consume 138, whole, whole, whole, .consume 100,
    whole, whole]
where
  whole : UsbRxInput := .packet (List.replicate 64 1)

theorem usb_out_fifo_around : ∃ u, RxFifo u ∧ u.outEp.rxValid = false ∧
    u.rbEjtagRead.inIdx = 320 ∧ u.rbEjtagRead.outIdx = 100 := by
  have ran : ((initCherryusb (Vector.replicate _ 0)).usbdSetEndpoint.usbdEventConfigured).any
      (fun start => (usbRx.run Machine.anyAction start aroundTheEnd).any fun u =>
        decide (u.outEp.rxValid = false ∧ u.rbEjtagRead.inIdx = 320 ∧
          u.rbEjtagRead.outIdx = 100)) = true := by
    decide +kernel
  obtain ⟨start, configured, holds⟩ := (Option.any_eq_true _ _).mp ran
  obtain ⟨u, reach, holds⟩ := Machine.exists_reach (M := usbRx) _ ⟨_, configured⟩ holds
  exact ⟨u, usb_out_fifo reach, of_decide_eq_true holds⟩

end LoongsonEjtag
