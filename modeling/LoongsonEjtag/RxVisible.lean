import LoongsonEjtag.UsbRx

/-! # When a received packet becomes visible

A packet is in the ring once the read that took it is complete.  The read that
`USBD_EVENT_CONFIGURED` starts is for all of the ring, the later ones are for one
packet.  `lsejtag_impl_usbrx_consume` runs in the main loop, and the interrupt of
a packet may come between any two of its steps.

* `usbRxArrivals` — the OUT path with the call in steps and a count of the bytes
  received; `consume_uninterrupted` says that its steps in a row are the call.
* `Kept` — the condition under which a packet is not lost, and
  `kept_of_undisturbed`, what it comes to while the consumer restarts reception
  undisturbed.
* `ArrivalInv` — what holds at each program counter.
* `packets_visible` — in runs that meet the condition, what was received is
  consumed or in the ring; a packet that does not meet it is lost.
-/

namespace LoongsonEjtag

open Lib (Byte Machine)

/-! ## The consumer in steps -/

/-- The next step of `lsejtag_impl_usbrx_consume`. -/
inductive ConsumePc where
  | idle
  | advanceOut (size : BitVec 32) (copied : List Byte)
  | flagTest
  | emptyTest
  | reset
  | writeSetup
  | setFlag (destPtr : Nat)
  | startRead (destPtr : Nat)
deriving DecidableEq

/-- `rb->out += size`, behind the peek in `chry_ringbuffer_read`. -/
def ChryRingbuffer.advanceOut {k : Nat} (rb : ChryRingbuffer k) (size : BitVec 32)
    (held : size.toNat ≤ rb.getUsed.toNat) : ChryRingbuffer k :=
  { rb with
    outIdx := rb.outIdx + size
    sound := by
      have sound := rb.sound
      rw [getUsed] at held
      bv_omega }

/-- The bytes of a read are consumed once they are out of the ring. -/
def UsbRx.advanceOut (u : UsbRx) (size : BitVec 32) (copied : List Byte)
    (held : size.toNat ≤ u.rbEjtagRead.getUsed.toNat) : UsbRx :=
  { u with
    rbEjtagRead := u.rbEjtagRead.advanceOut size held
    consumed := u.consumed ++ copied }

structure UsbRxArrivals where
  usb : UsbRx
  pc : ConsumePc
  /-- History: the bytes of all packets that were handled. -/
  received : Nat
  /-- History: a packet has come, or the consumer has started a read. -/
  begun : Bool

inductive UsbRxArrivalsInput where
  | packet (bytes : List Byte)
  | consume (len : BitVec 32)
  | next
deriving DecidableEq

namespace UsbRxArrivals

variable (s : UsbRxArrivals)

/-- The step the program counter stands for.  An `out` ahead of `in` would be
    `none`.  The stores of the reset are one step, and so are those of
    `usbd_ep_start_read`: no packet comes between them. -/
def next : Option UsbRxArrivals :=
  match s.pc with
  | .idle => none
  | .advanceOut size copied =>
    if held : size.toNat ≤ s.usb.rbEjtagRead.getUsed.toNat then
      some { s with usb := s.usb.advanceOut size copied held, pc := .flagTest }
    else none
  | .flagTest => some { s with pc := if !s.usb.epRxBusyFlag then .emptyTest else .idle }
  | .emptyTest => some { s with pc := if s.usb.rbEjtagRead.checkEmpty then .reset else .idle }
  | .reset =>
    some { s with
      usb := { s.usb with rbEjtagRead := s.usb.rbEjtagRead.reset }
      pc := .writeSetup }
  | .writeSetup => some { s with pc := .setFlag s.usb.rbEjtagRead.linearWriteSetup.1 }
  | .setFlag destPtr =>
    some { s with usb := { s.usb with epRxBusyFlag := true }, pc := .startRead destPtr }
  | .startRead destPtr =>
    some { s with
      usb := s.usb.usbdEpStartRead destPtr s.usb.usbdGetEpMps
      pc := .idle
      begun := true }

/-- A call starts with the peek.  The interrupt of a packet is one step, whatever
    `main` is about to do. -/
def step : UsbRxArrivalsInput → Option UsbRxArrivals
  | .packet bytes => (usbRxStep s.usb (.packet bytes)).map fun usb =>
      { s with usb := usb, received := s.received + bytes.length, begun := true }
  | .consume len =>
    if s.pc = .idle then
      let peeked := s.usb.rbEjtagRead.peek len
      some { s with pc := .advanceOut peeked.1 peeked.2 }
    else none
  | .next => s.next

/-- All bytes received have been consumed or can be. -/
def Visible : Prop := s.usb.consumed.length + s.usb.rbEjtagRead.getUsed.toNat = s.received

instance : Decidable s.Visible := inferInstanceAs (Decidable (_ = _))

end UsbRxArrivals

/-- From the configuration event on. -/
def usbRxArrivals : Machine UsbRxArrivals UsbRxArrivalsInput where
  init s := usbRx.init s.usb ∧ s.pc = .idle ∧ s.received = 0 ∧ s.begun = false
  step := UsbRxArrivals.step

variable {s s' : UsbRxArrivals} {u u' : UsbRx}

/-- The steps of a call in a row are `lsejtag_impl_usbrx_consume`. -/
theorem consume_uninterrupted (idle : s.pc = .idle) (len : BitVec 32) :
    ∃ count begun,
      usbRxArrivals.run Machine.anyAction s (.consume len :: List.replicate count .next) =
        some ⟨s.usb.lsejtagImplUsbrxConsume len, .idle, s.received, begun⟩ := by
  have held : (s.usb.rbEjtagRead.peek len).1.toNat ≤ s.usb.rbEjtagRead.getUsed.toNat := by
    rw [ChryRingbuffer.toNat_peek_fst]
    exact Nat.min_le_right _ _
  have read : s.usb.advanceOut _ (s.usb.rbEjtagRead.peek len).2 held = s.usb.ringbufferRead len :=
    rfl
  cases flag : s.usb.epRxBusyFlag with
  | true =>
    refine ⟨2, s.begun, ?_⟩
    have busy : (s.usb.ringbufferRead len).epRxBusyFlag = true := flag
    simp [List.replicate, usbRxArrivals, UsbRxArrivals.step, UsbRxArrivals.next, idle, held, read,
      UsbRx.lsejtagImplUsbrxConsume, busy, Machine.run, Machine.anyAction]
  | false =>
    have down : (s.usb.ringbufferRead len).epRxBusyFlag = false := flag
    cases empty : (s.usb.ringbufferRead len).rbEjtagRead.checkEmpty with
    | true =>
      refine ⟨7, true, ?_⟩
      simp [List.replicate, usbRxArrivals, UsbRxArrivals.step, UsbRxArrivals.next, idle, held,
        read, UsbRx.lsejtagImplUsbrxConsume, down, empty, Machine.run, Machine.anyAction]
    | false =>
      refine ⟨3, s.begun, ?_⟩
      simp [List.replicate, usbRxArrivals, UsbRxArrivals.step, UsbRxArrivals.next, idle, held,
        read, UsbRx.lsejtagImplUsbrxConsume, down, empty, Machine.run, Machine.anyAction]

/-! ## Counts -/

/-- A linear write adds what fits. -/
theorem ChryRingbuffer.toNat_getUsed_linearWriteDone {k : Nat} (rb : ChryRingbuffer k)
    (size : BitVec 32) :
    (rb.linearWriteDone size).getUsed.toNat = min (rb.getUsed.toNat + size.toNat) (2 ^ k) := by
  have below := rb.size_lt
  have sound := rb.toNat_getUsed_le
  have unused := rb.toNat_size_sub sound
  have clamped := toNat_clamp size (rb.mask + 1 - rb.getUsed)
  generalize is : (if size > rb.mask + 1 - rb.getUsed then rb.mask + 1 - rb.getUsed else size) =
    added at clamped
  have moved : (rb.linearWriteDone size).inIdx = rb.inIdx + added := congrArg (rb.inIdx + ·) is
  rw [getUsed, moved]
  simp only [getUsed, linearWriteDone] at unused sound clamped ⊢
  bv_omega

theorem ChryRingbuffer.toNat_getUsed_advanceOut {k : Nat} (rb : ChryRingbuffer k)
    {size : BitVec 32} (held : size.toNat ≤ rb.getUsed.toNat) :
    (rb.advanceOut size held).getUsed.toNat = rb.getUsed.toNat - size.toNat := by
  simp only [getUsed, advanceOut] at held ⊢
  bv_omega

theorem ChryRingbuffer.toNat_getUsed_fresh {k : Nat} {rb : ChryRingbuffer k} (inIdx : rb.inIdx = 0)
    (outIdx : rb.outIdx = 0) : rb.getUsed.toNat = 0 := by
  rw [← rb.length_unread, unread_fresh inIdx outIdx]
  rfl

/-- The OUT endpoint is open, with packets of 64 bytes. -/
structure RxOpen (u : UsbRx) : Prop where
  enabled : u.outEp.epEnable = true
  epMps : u.outEp.epMps = 64
  rxMsgEpMps : u.rxMsgEpMps = 64

/-- The read that is outstanding, if any, is for one packet, which has not
    come. -/
def PacketRead (u : UsbRx) : Prop :=
  u.outEp.rxValid = true → u.outEp.actualXferLen = 0 ∧ u.outEp.xferLen = 64

/-- A read of `usbd_get_ep_mps` bytes is for one packet. -/
theorem RxOpen.started (isOpen : RxOpen u) (data : Nat) :
    RxOpen (u.usbdEpStartRead data u.usbdGetEpMps) ∧
      PacketRead (u.usbdEpStartRead data u.usbdGetEpMps) := by
  rw [UsbRx.usbdEpStartRead, if_pos isOpen.enabled, UsbRx.usbdGetEpMps, isOpen.rxMsgEpMps]
  exact ⟨⟨isOpen.enabled, isOpen.epMps, rfl⟩, fun _ => ⟨rfl, rfl⟩⟩

/-- Pool and ring have room for all that the outstanding read takes. -/
def ReadRoom (u : UsbRx) : Prop :=
  u.outEp.rxValid = true → u.outEp.xferBuf + u.outEp.xferLen.toNat ≤ 2 ^ 8 ∧
    u.rbEjtagRead.getUsed.toNat + u.outEp.xferLen.toNat ≤ 2 ^ 8

/-- A read into a region the ring offers. -/
theorem readRoom_started {len : BitVec 32} (isOpen : RxOpen u)
    (offered : len.toNat ≤ u.rbEjtagRead.linearWriteSetup.2.toNat) (some : 0 < len.toNat) :
    ReadRoom (u.usbdEpStartRead u.rbEjtagRead.linearWriteSetup.1 len) := by
  obtain ⟨avail, start⟩ := u.rbEjtagRead.linearWriteSetup_eq
  have start := start (by omega)
  have sound := u.rbEjtagRead.toNat_getUsed_le
  rw [UsbRx.usbdEpStartRead, if_pos isOpen.enabled]
  intro _
  simp only
  omega

theorem RxOpen.mps (isOpen : RxOpen u) : u.usbdGetEpMps.toNat = 64 := by
  rw [UsbRx.usbdGetEpMps, isOpen.rxMsgEpMps]
  rfl

/-- The read that is outstanding, if any, is for one packet and has room for it. -/
structure ReadReady (u : UsbRx) : Prop where
  isOpen : RxOpen u
  packet : PacketRead u
  room : ReadRoom u

/-- Starting a read moves no bytes. -/
theorem usbdEpStartRead_same (u : UsbRx) (data : Nat) (len : BitVec 32) :
    (u.usbdEpStartRead data len).rbEjtagRead = u.rbEjtagRead ∧
      (u.usbdEpStartRead data len).consumed = u.consumed := by
  rw [UsbRx.usbdEpStartRead]
  split <;> exact ⟨rfl, rfl⟩

/-- `u` is `before` with `added` more bytes in the ring, as far as they fit. -/
structure Added (before : UsbRx) (added : Nat) (u : UsbRx) : Prop where
  used : u.rbEjtagRead.getUsed.toNat = min (before.rbEjtagRead.getUsed.toNat + added) (2 ^ 8)
  consumed : u.consumed = before.consumed

theorem transferComplete_added (u : UsbRx) (nbytes : BitVec 32) :
    Added u nbytes.toNat (u.transferComplete nbytes) := by
  rw [UsbRx.transferComplete]
  split
  case isTrue some => exact ⟨ChryRingbuffer.toNat_getUsed_linearWriteDone _ _, rfl⟩
  case isFalse none =>
    have sound := u.rbEjtagRead.toNat_getUsed_le
    have zero : nbytes.toNat = 0 := congrArg BitVec.toNat (not_not.mp none)
    refine ⟨?_, rfl⟩
    rw [zero, Nat.add_zero, Nat.min_eq_left sound]

/-- A read completes: its bytes are in the ring, and the next one may be started. -/
theorem outComplete_added (isOpen : RxOpen u) (stopped : u.outEp.rxValid = false) :
    Added u u.outEp.actualXferLen.toNat u.usbdEventEpOutCompleteHandler ∧
      ReadReady u.usbdEventEpOutCompleteHandler := by
  rw [UsbRx.usbdEventEpOutCompleteHandler, UsbRx.usbdEjtagBulkOutComplete]
  generalize isAfter :
    UsbRx.transferComplete { u with published := u.published ++ u.outEp.received }
      u.outEp.actualXferLen = after
  have added : Added u u.outEp.actualXferLen.toNat after := by
    obtain ⟨used, consumed⟩ := transferComplete_added
      { u with published := u.published ++ u.outEp.received } u.outEp.actualXferLen
    rw [isAfter] at used consumed
    exact ⟨used, consumed⟩
  have kept : after.outEp = u.outEp ∧ after.rxMsgEpMps = u.rxMsgEpMps := by
    rw [← isAfter, UsbRx.transferComplete]
    split <;> exact ⟨rfl, rfl⟩
  have stillOpen : RxOpen after := by
    constructor
    · rw [kept.1]
      exact isOpen.enabled
    · rw [kept.1]
      exact isOpen.epMps
    · rw [kept.2]
      exact isOpen.rxMsgEpMps
  simp only
  split
  case isTrue enough =>
    obtain ⟨sameRing, sameConsumed⟩ :=
      usbdEpStartRead_same after after.rbEjtagRead.linearWriteSetup.1 after.usbdGetEpMps
    obtain ⟨startedOpen, packet⟩ := stillOpen.started after.rbEjtagRead.linearWriteSetup.1
    have some : 0 < after.usbdGetEpMps.toNat := by
      rw [stillOpen.mps]
      decide
    refine ⟨⟨?_, ?_⟩, startedOpen, packet, readRoom_started stillOpen enough some⟩
    · rw [sameRing]
      exact added.used
    · rw [sameConsumed]
      exact added.consumed
  case isFalse =>
    have idle : after.outEp.rxValid = false := kept.1 ▸ stopped
    refine ⟨⟨added.used, added.consumed⟩,
      ⟨stillOpen.enabled, stillOpen.epMps, stillOpen.rxMsgEpMps⟩, fun valid => ?_, fun valid => ?_⟩
    · exact absurd (idle.symm.trans valid) nofun
    · exact absurd (idle.symm.trans valid) nofun

/-- The read completes with a packet of this length. -/
def UsbRx.Completes (u : UsbRx) (packet : List Byte) : Prop :=
  packet.length < 64 ∨ u.outEp.xferLen = 64

/-- A packet completes the read exactly if it is short or uses the read up. -/
theorem usbdIrqHandler_added {packet : List Byte} (isOpen : RxOpen u)
    (fresh : u.outEp.actualXferLen = 0) (atMost : packet.length ≤ 64)
    (handled : u.usbdIrqHandler packet = some u') :
    (u.Completes packet → Added u packet.length u' ∧ ReadReady u') ∧
      (¬u.Completes packet → Added u 0 u') := by
  have mps : u.outEp.epMps.setWidth 32 = 64#32 := by
    rw [isOpen.epMps]
    rfl
  have length : (BitVec.ofNat 32 packet.length).toNat = packet.length := by
    rw [BitVec.toNat_ofNat, Nat.mod_eq_of_lt (by omega)]
  -- The lengths are 32-bit in the driver; the packet is at most one MPS.
  have completes : (BitVec.ofNat 32 packet.length < u.outEp.epMps.setWidth 32 ∨
      u.outEp.xferLen - BitVec.ofNat 32 packet.length = 0) ↔ u.Completes packet := by
    rw [mps, UsbRx.Completes]
    by_cases short : packet.length < 64
    · simp only [short, true_or, iff_true]
      left
      rw [BitVec.lt_def, length]
      exact short
    · have full : packet.length = 64 := by omega
      rw [full]
      have notBelow : ¬BitVec.ofNat 32 64 < 64#32 := by decide
      simp only [notBelow, false_or, Nat.lt_irrefl]
      constructor <;> intro used <;> bv_omega
  rw [UsbRx.usbdIrqHandler] at handled
  split at handled
  · rename_i fits
    simp only at handled
    have actual : (u.packetCopied packet fits).outEp.actualXferLen.toNat = packet.length := by
      change (u.outEp.actualXferLen + BitVec.ofNat 32 packet.length).toNat = _
      rw [fresh]
      exact (congrArg BitVec.toNat (BitVec.zero_add _)).trans length
    split at handled
    · rename_i complete
      cases handled
      refine ⟨fun _ => ?_, fun incomplete => absurd (completes.mp complete) incomplete⟩
      obtain ⟨⟨used, consumed⟩, after⟩ := outComplete_added (u := u.packetCopied packet fits)
        ⟨isOpen.enabled, isOpen.epMps, isOpen.rxMsgEpMps⟩ rfl
      rw [actual] at used
      exact ⟨⟨used, consumed⟩, after⟩
    · -- The bytes are in the pool, and the ring has not been told of them.
      rename_i incomplete
      cases handled
      refine ⟨fun complete => absurd (completes.mpr complete) incomplete, fun _ => ⟨?_, rfl⟩⟩
      exact (Nat.min_eq_left u.rbEjtagRead.toNat_getUsed_le).symm
  · cases handled

/-! ## The condition -/

/-- The input is not a packet that gets lost: a full one while the read of the
    configuration event is the only one so far, one between the consumer's
    emptiness test and its reset, or one without room in the ring or in the pool
    behind the destination of the read. -/
def Kept (s : UsbRxArrivals) : UsbRxArrivalsInput → Prop
  | .packet bytes => (s.begun = false → bytes.length < 64) ∧ (s.pc = .reset → bytes = []) ∧
      s.usb.rbEjtagRead.getUsed.toNat + bytes.length ≤ 2 ^ 8 ∧
      s.usb.outEp.xferBuf + bytes.length ≤ 2 ^ 8
  | _ => True

instance (s : UsbRxArrivals) : (input : UsbRxArrivalsInput) → Decidable (Kept s input)
  | .packet _ => inferInstanceAs (Decidable (_ ∧ _))
  | .consume _ | .next => inferInstanceAs (Decidable True)

/-- The consumer has found that it is to restart reception and has not done so. -/
def ConsumePc.Restarting : ConsumePc → Prop
  | .reset | .writeSetup | .setFlag _ | .startRead _ => True
  | _ => False

/-- The input is no full packet as the first and none during a restart. -/
def Undisturbed (s : UsbRxArrivals) : UsbRxArrivalsInput → Prop
  | .packet bytes => (s.begun = false → bytes.length < 64) ∧ ¬s.pc.Restarting
  | _ => True

/-! ## Runs -/

/-- What a call that is under way relies on. -/
def Calling (s : UsbRxArrivals) : Prop :=
  match s.pc with
  | .advanceOut size copied =>
    size.toNat ≤ s.usb.rbEjtagRead.getUsed.toNat ∧ copied.length = size.toNat
  | .reset => s.usb.rbEjtagRead.getUsed.toNat = 0
  | _ => True

/-- Everything received is in the ring or consumed; at first the read for all of
    the ring is outstanding, later one for a packet. -/
structure ArrivalInv (s : UsbRxArrivals) : Prop where
  isOpen : RxOpen s.usb
  visible : s.Visible
  first : s.begun = false → s.usb.outEp.actualXferLen = 0 ∧ s.usb.outEp.xferLen = 256
  later : s.begun = true → PacketRead s.usb
  calling : Calling s

theorem arrivalInv_configured (initial : usbRxArrivals.init s) : ArrivalInv s := by
  obtain ⟨⟨pool, configured⟩, idle, none, fresh⟩ := initial
  have whole : (initCherryusb pool).usbdSetEndpoint.rbEjtagRead.linearWriteSetup.2.toNat = 2 ^ 8 :=
    ChryRingbuffer.linearWriteSetup_fresh rfl rfl
  simp only [UsbRx.usbdEventConfigured, Option.ite_none_right_eq_some, Option.some.injEq]
    at configured
  obtain ⟨-, is⟩ := configured
  refine ⟨?_, ?_, fun _ => ?_, fun begun => ?_, ?_⟩
  · rw [← is]
    exact ⟨rfl, rfl, rfl⟩
  · obtain ⟨sameRing, sameConsumed⟩ := usbdEpStartRead_same (initCherryusb pool).usbdSetEndpoint
      (initCherryusb pool).usbdSetEndpoint.rbEjtagRead.linearWriteSetup.1
      (initCherryusb pool).usbdSetEndpoint.rbEjtagRead.linearWriteSetup.2
    rw [UsbRxArrivals.Visible, ← is, none, sameRing, sameConsumed,
      ChryRingbuffer.toNat_getUsed_fresh rfl rfl]
    rfl
  · rw [← is]
    exact ⟨rfl, BitVec.eq_of_toNat_eq whole⟩
  · rw [fresh] at begun
    cases begun
  · rw [Calling, idle]
    trivial

/-- An outstanding read has got nothing yet. -/
theorem ArrivalInv.nothingYet (inv : ArrivalInv s) (valid : s.usb.outEp.rxValid = true) :
    s.usb.outEp.actualXferLen = 0 := by
  cases begun : s.begun with
  | false => exact (inv.first begun).1
  | true => exact (inv.later begun valid).1

/-- A packet adds to the ring, and what a call relies on is kept. -/
theorem Calling.added {usb : UsbRx} {received : Nat} {begun : Bool} {count : Nat}
    (calling : Calling s) (added : Added s.usb count usb) (nothing : s.pc = .reset → count = 0) :
    Calling ⟨usb, s.pc, received, begun⟩ := by
  obtain ⟨before, pc, _, _⟩ := s
  have sound := before.rbEjtagRead.toNat_getUsed_le
  have used := added.used
  simp only at used nothing
  cases pc with
  | advanceOut size copied =>
    obtain ⟨held, length⟩ := calling
    refine ⟨?_, length⟩
    simp only at held ⊢
    omega
  | reset =>
    -- A ring that was found empty stays so, as nothing was added.
    have none := nothing rfl
    have empty : before.rbEjtagRead.getUsed.toNat = 0 := calling
    change usb.rbEjtagRead.getUsed.toNat = 0
    omega
  | _ => trivial

/-- A packet that is no full one as the first completes the read it comes for. -/
theorem ArrivalInv.completed {bytes : List Byte} (inv : ArrivalInv s)
    (notFirst : s.begun = false → bytes.length < 64)
    (moved : usbRxStep s.usb (.packet bytes) = some u) :
    Added s.usb bytes.length u ∧ ReadReady u := by
  obtain ⟨⟨valid, atMost⟩, handled⟩ := Option.ite_none_right_eq_some.mp moved
  have completes : s.usb.Completes bytes := by
    cases begun : s.begun with
    | false => exact .inl (notFirst begun)
    | true => exact .inr (inv.later begun valid).2
  exact (usbdIrqHandler_added inv.isOpen (inv.nothingYet valid) atMost handled).1 completes

theorem ArrivalInv.packet {bytes : List Byte} (inv : ArrivalInv s) (kept : Kept s (.packet bytes))
    (moved : usbRxStep s.usb (.packet bytes) = some u) :
    ArrivalInv ⟨u, s.pc, s.received + bytes.length, true⟩ := by
  obtain ⟨notFirst, notReset, room, -⟩ := kept
  obtain ⟨added, ready⟩ := inv.completed notFirst moved
  refine ⟨ready.isOpen, ?_, nofun, fun _ => ready.packet, inv.calling.added added fun at_pc => ?_⟩
  · have visible : s.usb.consumed.length + s.usb.rbEjtagRead.getUsed.toNat = s.received :=
      inv.visible
    have used := added.used
    change u.consumed.length + u.rbEjtagRead.getUsed.toNat = s.received + bytes.length
    rw [added.consumed]
    omega
  · rw [notReset at_pc]
    rfl

/-- The consumer's own steps move bytes from the ring to the consumer. -/
theorem ArrivalInv.next (inv : ArrivalInv s) (moved : s.next = some s') : ArrivalInv s' := by
  obtain ⟨usb, pc, received, begun⟩ := s
  obtain ⟨isOpen, visible, first, later, calling⟩ := inv
  have visible : usb.consumed.length + usb.rbEjtagRead.getUsed.toNat = received := visible
  cases pc with
  | idle => cases moved
  | advanceOut size copied =>
    obtain ⟨held, length⟩ := calling
    simp only at held
    simp only [UsbRxArrivals.next, held, dif_pos] at moved
    obtain rfl := Option.some.inj moved
    refine ⟨⟨isOpen.enabled, isOpen.epMps, isOpen.rxMsgEpMps⟩, ?_, first, later, trivial⟩
    change (usb.consumed ++ copied).length +
      (usb.rbEjtagRead.advanceOut size held).getUsed.toNat = received
    rw [List.length_append, length, ChryRingbuffer.toNat_getUsed_advanceOut]
    omega
  | flagTest =>
    obtain rfl := Option.some.inj moved
    refine ⟨isOpen, visible, first, later, ?_⟩
    cases flag : usb.epRxBusyFlag <;> simp [Calling]
  | emptyTest =>
    obtain rfl := Option.some.inj moved
    refine ⟨isOpen, visible, first, later, ?_⟩
    cases empty : usb.rbEjtagRead.checkEmpty with
    | true =>
      have nothing := ChryRingbuffer.checkEmpty_iff.mp empty
      have used := usb.rbEjtagRead.length_unread
      rw [nothing] at used
      simpa [Calling] using used.symm
    | false => simp [Calling]
  | reset =>
    obtain rfl := Option.some.inj moved
    -- The reset drops nothing: the ring has been empty since the test.
    have none : usb.rbEjtagRead.getUsed.toNat = 0 := calling
    refine ⟨⟨isOpen.enabled, isOpen.epMps, isOpen.rxMsgEpMps⟩, ?_, first, later, trivial⟩
    have empty : usb.rbEjtagRead.reset.getUsed.toNat = 0 :=
      ChryRingbuffer.toNat_getUsed_fresh rfl rfl
    change usb.consumed.length + usb.rbEjtagRead.reset.getUsed.toNat = received
    omega
  | writeSetup =>
    obtain rfl := Option.some.inj moved
    exact ⟨isOpen, visible, first, later, trivial⟩
  | setFlag destPtr =>
    obtain rfl := Option.some.inj moved
    exact ⟨⟨isOpen.enabled, isOpen.epMps, isOpen.rxMsgEpMps⟩, visible, first, later, trivial⟩
  | startRead destPtr =>
    -- From here on the read is for one packet, also if it replaces the first one.
    obtain rfl := Option.some.inj moved
    obtain ⟨stillOpen, read⟩ := isOpen.started destPtr
    obtain ⟨sameRing, sameConsumed⟩ := usbdEpStartRead_same usb destPtr usb.usbdGetEpMps
    refine ⟨stillOpen, ?_, nofun, fun _ => read, trivial⟩
    rw [UsbRxArrivals.Visible, sameRing, sameConsumed]
    exact visible

theorem ArrivalInv.step {input : UsbRxArrivalsInput} (inv : ArrivalInv s) (kept : Kept s input)
    (stepped : s.step input = some s') : ArrivalInv s' := by
  cases input with
  | packet bytes =>
    obtain ⟨usb, moved, rfl⟩ := Option.map_eq_some_iff.mp stepped
    exact inv.packet kept moved
  | consume len =>
    obtain ⟨-, moved⟩ := Option.ite_none_right_eq_some.mp stepped
    obtain rfl := Option.some.inj moved
    refine ⟨inv.isOpen, inv.visible, inv.first, inv.later, ?_⟩
    have count := s.usb.rbEjtagRead.toNat_peek_fst len
    have copied := congrArg List.length (s.usb.rbEjtagRead.peek_snd len)
    rw [List.length_take, ChryRingbuffer.length_unread, ← count] at copied
    exact ⟨count.trans_le (Nat.min_le_right _ _), copied⟩
  | next => exact inv.next stepped

theorem arrivalInv (reach : usbRxArrivals.Reach Kept s) : ArrivalInv s :=
  reach.invariant (fun _ initial => arrivalInv_configured initial)
    fun _ _ _ _ inv kept stepped => inv.step kept stepped

/-! ## Restarts without packets -/

/-- What an undisturbed restart relies on. -/
def Restarted (s : UsbRxArrivals) : Prop :=
  match s.pc with
  | .writeSetup => s.usb.rbEjtagRead.inIdx = 0 ∧ s.usb.rbEjtagRead.outIdx = 0
  | .setFlag destPtr | .startRead destPtr =>
    destPtr = s.usb.rbEjtagRead.linearWriteSetup.1 ∧
      s.usb.rbEjtagRead.linearWriteSetup.2.toNat = 2 ^ 8
  | _ => True

structure UndisturbedInv (s : UsbRxArrivals) : Prop where
  arrivals : ArrivalInv s
  room : ReadRoom s.usb
  restarted : Restarted s

/-- A packet that can come and disturbs no restart finds room. -/
theorem UndisturbedInv.kept {input : UsbRxArrivalsInput} (inv : UndisturbedInv s)
    (undisturbed : Undisturbed s input) (stepped : s.step input = some s') : Kept s input := by
  cases input with
  | packet bytes =>
    obtain ⟨usb, moved, -⟩ := Option.map_eq_some_iff.mp stepped
    obtain ⟨⟨valid, atMost⟩, -⟩ := Option.ite_none_right_eq_some.mp moved
    obtain ⟨notFirst, notRestarting⟩ := undisturbed
    obtain ⟨inPool, inRing⟩ := inv.room valid
    -- There is room for what the read is for, which is one packet at least.
    have onePacket : 64 ≤ s.usb.outEp.xferLen.toNat := by
      cases begun : s.begun with
      | false =>
        rw [(inv.arrivals.first begun).2]
        decide
      | true =>
        rw [(inv.arrivals.later begun valid).2]
        decide
    refine ⟨notFirst, fun at_pc => absurd ?_ notRestarting, by omega, by omega⟩
    rw [at_pc]
    trivial
  | consume | next => trivial

theorem UndisturbedInv.next (inv : UndisturbedInv s) (moved : s.next = some s') :
    ReadRoom s'.usb ∧ Restarted s' := by
  obtain ⟨usb, pc, received, begun⟩ := s
  obtain ⟨⟨isOpen, -, -, -, calling⟩, room, restarted⟩ := inv
  have fits : usb.outEp.rxValid = true → usb.outEp.xferBuf + usb.outEp.xferLen.toNat ≤ 2 ^ 8 ∧
    usb.rbEjtagRead.getUsed.toNat + usb.outEp.xferLen.toNat ≤ 2 ^ 8 := room
  cases pc with
  | idle => cases moved
  | advanceOut size copied =>
    obtain ⟨held, -⟩ := calling
    simp only at held
    simp only [UsbRxArrivals.next, held, dif_pos] at moved
    obtain rfl := Option.some.inj moved
    refine ⟨fun valid => ?_, trivial⟩
    -- What is consumed makes room.
    obtain ⟨inPool, inRing⟩ := fits valid
    have fewer := usb.rbEjtagRead.toNat_getUsed_advanceOut held
    refine ⟨inPool, ?_⟩
    change (usb.rbEjtagRead.advanceOut size held).getUsed.toNat + usb.outEp.xferLen.toNat ≤ 2 ^ 8
    omega
  | flagTest =>
    obtain rfl := Option.some.inj moved
    refine ⟨room, ?_⟩
    cases flag : usb.epRxBusyFlag <;> simp [Restarted]
  | emptyTest =>
    obtain rfl := Option.some.inj moved
    refine ⟨room, ?_⟩
    cases empty : usb.rbEjtagRead.checkEmpty <;> simp [Restarted]
  | reset =>
    obtain rfl := Option.some.inj moved
    refine ⟨fun valid => ?_, rfl, rfl⟩
    obtain ⟨inPool, -⟩ := fits valid
    have empty : usb.rbEjtagRead.reset.getUsed.toNat = 0 :=
      ChryRingbuffer.toNat_getUsed_fresh rfl rfl
    refine ⟨inPool, ?_⟩
    change usb.rbEjtagRead.reset.getUsed.toNat + usb.outEp.xferLen.toNat ≤ 2 ^ 8
    omega
  | writeSetup =>
    obtain rfl := Option.some.inj moved
    exact ⟨room, rfl, ChryRingbuffer.linearWriteSetup_fresh restarted.1 restarted.2⟩
  | setFlag destPtr =>
    obtain rfl := Option.some.inj moved
    exact ⟨room, restarted⟩
  | startRead destPtr =>
    obtain rfl := Option.some.inj moved
    have isOpen : RxOpen usb := isOpen
    have restarted : destPtr = usb.rbEjtagRead.linearWriteSetup.1 ∧
      usb.rbEjtagRead.linearWriteSetup.2.toNat = 2 ^ 8 := restarted
    obtain ⟨rfl, whole⟩ := restarted
    have mps := isOpen.mps
    refine ⟨readRoom_started isOpen ?_ ?_, trivial⟩
    · rw [mps]
      exact whole ▸ (by decide : 64 ≤ 2 ^ 8)
    · rw [mps]
      decide

theorem UndisturbedInv.step {input : UsbRxArrivalsInput} (inv : UndisturbedInv s)
    (undisturbed : Undisturbed s input) (stepped : s.step input = some s') :
    UndisturbedInv s' := by
  have arrivals := inv.arrivals.step (inv.kept undisturbed stepped) stepped
  cases input with
  | packet bytes =>
    obtain ⟨notFirst, notRestarting⟩ := undisturbed
    obtain ⟨usb, moved, rfl⟩ := Option.map_eq_some_iff.mp stepped
    refine ⟨arrivals, (inv.arrivals.completed notFirst moved).2.room, ?_⟩
    simp only [Restarted]
    split <;> simp_all [ConsumePc.Restarting]
  | consume len =>
    obtain ⟨-, moved⟩ := Option.ite_none_right_eq_some.mp stepped
    obtain rfl := Option.some.inj moved
    exact ⟨arrivals, inv.room, trivial⟩
  | next =>
    obtain ⟨room, restarted⟩ := inv.next stepped
    exact ⟨arrivals, room, restarted⟩

theorem undisturbedInv_configured (initial : usbRxArrivals.init s) : UndisturbedInv s := by
  refine ⟨arrivalInv_configured initial, ?_, ?_⟩
  · obtain ⟨⟨pool, configured⟩, -⟩ := initial
    have whole : (initCherryusb pool).usbdSetEndpoint.rbEjtagRead.linearWriteSetup.2.toNat =
        2 ^ 8 := ChryRingbuffer.linearWriteSetup_fresh rfl rfl
    simp only [UsbRx.usbdEventConfigured, Option.ite_none_right_eq_some, Option.some.injEq]
      at configured
    rw [← configured.2]
    exact readRoom_started ⟨rfl, rfl, rfl⟩ le_rfl (by rw [whole]; decide)
  · rw [Restarted, initial.2.1]
    trivial

/-- In runs that begin with no full packet and in which none comes while the
    consumer restarts reception, every packet is kept. -/
theorem kept_of_undisturbed (reach : usbRxArrivals.Reach Undisturbed s) :
    usbRxArrivals.Reach Kept s := by
  have both : usbRxArrivals.Reach Kept s ∧ UndisturbedInv s :=
    reach.invariant (P := fun s => usbRxArrivals.Reach Kept s ∧ UndisturbedInv s)
      (fun _ initial => ⟨.start initial, undisturbedInv_configured initial⟩)
      fun _ _ _ _ before undisturbed stepped =>
        ⟨.next before.1 (before.2.kept undisturbed stepped) stepped,
          before.2.step undisturbed stepped⟩
  exact both.1

/-! ## Visible packets -/

/-- A packet that is taken lies in the pool. -/
theorem usbdIrqHandler_inside {packet : List Byte} :
    (u.usbdIrqHandler packet).isSome ↔ u.outEp.xferBuf + packet.length ≤ 2 ^ 8 := by
  rw [UsbRx.usbdIrqHandler]
  split
  case isTrue fits =>
    simp only [fits, iff_true]
    split <;> rfl
  case isFalse outside =>
    simp only [outside, iff_false]
    exact Bool.false_ne_true

/-- A packet that does not meet the condition is missing at once, or as soon as
    the consumer has reset the ring. -/
theorem ArrivalInv.lost {bytes : List Byte} (inv : ArrivalInv s)
    (notKept : ¬Kept s (.packet bytes)) (stepped : s.step (.packet bytes) = some s') :
    ¬s'.Visible ∨ ∃ s'', s'.next = some s'' ∧ ¬s''.Visible := by
  obtain ⟨usb, moved, rfl⟩ := Option.map_eq_some_iff.mp stepped
  obtain ⟨⟨valid, atMost⟩, handled⟩ := Option.ite_none_right_eq_some.mp moved
  obtain ⟨complete, incomplete⟩ :=
    usbdIrqHandler_added inv.isOpen (inv.nothingYet valid) atMost handled
  have inPool := usbdIrqHandler_inside.mp (Option.isSome_of_eq_some handled)
  have visible : s.usb.consumed.length + s.usb.rbEjtagRead.getUsed.toNat = s.received :=
    inv.visible
  have missing : usb.consumed.length + usb.rbEjtagRead.getUsed.toNat < s.received + bytes.length →
      ¬UsbRxArrivals.Visible ⟨usb, s.pc, s.received + bytes.length, true⟩ := Nat.ne_of_lt
  by_cases completes : s.usb.Completes bytes
  · obtain ⟨⟨used, consumed⟩, -⟩ := complete completes
    by_cases room : s.usb.rbEjtagRead.getUsed.toNat + bytes.length ≤ 2 ^ 8
    · -- It is in the ring, and the consumer is about to reset that.
      have notFirst : s.begun = false → bytes.length < 64 := by
        intro fresh
        rcases completes with short | whole
        · exact short
        · rw [(inv.first fresh).2] at whole
          exact absurd whole (by decide)
      obtain ⟨at_pc, some⟩ : s.pc = .reset ∧ bytes ≠ [] := by
        by_contra other
        refine notKept ⟨notFirst, fun at_pc => ?_, room, inPool⟩
        exact by_contra fun some => other ⟨at_pc, some⟩
      have length := List.length_pos_iff.mpr some
      have empty : s.usb.rbEjtagRead.getUsed.toNat = 0 := by
        have calling := inv.calling
        rwa [Calling, at_pc] at calling
      have dropped : usb.rbEjtagRead.reset.getUsed.toNat = 0 :=
        ChryRingbuffer.toNat_getUsed_fresh rfl rfl
      refine .inr ⟨_, by rw [UsbRxArrivals.next, at_pc], Nat.ne_of_lt ?_⟩
      change usb.consumed.length + usb.rbEjtagRead.reset.getUsed.toNat <
        s.received + bytes.length
      rw [consumed]
      omega
    · -- The ring takes only a part of it.
      refine .inl (missing ?_)
      rw [consumed]
      omega
  · -- A full packet that leaves its read incomplete adds nothing.
    obtain ⟨used, consumed⟩ := incomplete completes
    have full : ¬bytes.length < 64 := fun short => completes (.inl short)
    refine .inl (missing ?_)
    rw [consumed]
    omega

/-- In every run whose packets all meet the condition, and come neither inside the
    reset nor inside the consumer's `usbd_ep_start_read`, what was received has been
    consumed or is in the ring; the packets that meet it are handled and a call
    that is under way goes on.  A packet that does not meet it is lost. -/
theorem packets_visible (reach : usbRxArrivals.Reach Kept s) :
    s.Visible ∧
    (∀ bytes, s.usb.outEp.rxValid = true → bytes.length ≤ 64 → Kept s (.packet bytes) →
      (usbRxArrivals.step s (.packet bytes)).isSome) ∧
    (s.pc ≠ .idle → (usbRxArrivals.step s .next).isSome) ∧
    ∀ bytes s', usbRxArrivals.step s (.packet bytes) = some s' → ¬Kept s (.packet bytes) →
      ¬s'.Visible ∨ ∃ s'', usbRxArrivals.step s' .next = some s'' ∧ ¬s''.Visible := by
  have inv := arrivalInv reach
  refine ⟨inv.visible, ?_, ?_, fun bytes s' stepped notKept => inv.lost notKept stepped⟩
  · intro bytes valid atMost kept
    change ((usbRxStep s.usb (.packet bytes)).map _).isSome
    rw [Option.isSome_map, usbRxStep, if_pos ⟨valid, atMost⟩]
    exact usbdIrqHandler_inside.mpr kept.2.2.2
  · intro under
    change s.next.isSome
    have calling := inv.calling
    rw [Calling] at calling
    rw [UsbRxArrivals.next]
    cases at_pc : s.pc with
    | idle => exact absurd at_pc under
    | advanceOut size copied =>
      rw [at_pc] at calling
      simp only [calling.1, dif_pos]
      rfl
    | _ => rfl

/-- A short packet comes first, a full one while its bytes are being consumed. -/
theorem packets_visible_after_short : ∃ s : UsbRxArrivals, s.received = 74 ∧
    s.usb.consumed.length = 10 ∧ s.Visible := by
  have ran : ((initCherryusb (Vector.replicate _ 0)).usbdSetEndpoint.usbdEventConfigured).any
      (fun start => (usbRxArrivals.run Kept ⟨start, .idle, 0, false⟩
        [.packet (List.replicate 10 2), .consume 10, .next, .packet (List.replicate 64 1), .next,
          .next]).any fun s =>
          decide (s.received = 74 ∧ s.usb.consumed.length = 10)) = true := by
    decide +kernel
  obtain ⟨start, configured, holds⟩ := (Option.any_eq_true _ _).mp ran
  obtain ⟨s, reach, holds⟩ :=
    Machine.exists_reach (M := usbRxArrivals) _ ⟨⟨_, configured⟩, rfl, rfl, rfl⟩ holds
  obtain ⟨received, consumed⟩ := of_decide_eq_true holds
  exact ⟨s, received, consumed, (packets_visible reach).1⟩

/-- Three runs in which packets get lost.  A full packet comes first: it stays in
    a read that is not complete.  The consumer takes the 10 bytes of a first
    packet and finds the ring empty; 10 more come before it resets the ring.  And
    255 bytes come between the reset and the start of the read, which takes 64
    more into a ring with room for one byte. -/
theorem packets_lost :
    (∃ s, usbRxArrivals.Reachable s ∧ s.received = 64 ∧ s.usb.consumed = [] ∧
      s.usb.rbEjtagRead.getUsed = 0 ∧ ¬s.Visible) ∧
    (∃ s, usbRxArrivals.Reachable s ∧ s.received = 20 ∧ s.usb.consumed.length = 10 ∧
      s.usb.rbEjtagRead.getUsed = 0 ∧ ¬s.Visible) ∧
    ∃ s, usbRxArrivals.Reachable s ∧ s.received = 319 ∧ s.usb.consumed = [] ∧
      s.usb.rbEjtagRead.getUsed = 256 ∧ ¬s.Visible := by
  have ran : ((initCherryusb (Vector.replicate _ 0)).usbdSetEndpoint.usbdEventConfigured).any
      (fun start =>
        (usbRxArrivals.run Machine.anyAction ⟨start, .idle, 0, false⟩
          [.packet (List.replicate 64 1)]).any (fun s =>
            decide (s.received = 64 ∧ s.usb.consumed = [] ∧ s.usb.rbEjtagRead.getUsed = 0 ∧
              ¬s.Visible)) &&
        (usbRxArrivals.run Machine.anyAction ⟨start, .idle, 0, false⟩
          [.packet (List.replicate 10 2), .consume 10, .next, .next, .next,
            .packet (List.replicate 10 3), .next]).any (fun s =>
            decide (s.received = 20 ∧ s.usb.consumed.length = 10 ∧
              s.usb.rbEjtagRead.getUsed = 0 ∧ ¬s.Visible)) &&
        (usbRxArrivals.run Machine.anyAction ⟨start, .idle, 0, false⟩
          [.consume 0, .next, .next, .next, .next, .next, .packet (List.replicate 63 1),
            .packet (List.replicate 64 2), .packet (List.replicate 64 3),
            .packet (List.replicate 64 4), .next, .next,
            .packet (List.replicate 64 5)]).any (fun s =>
            decide (s.received = 319 ∧ s.usb.consumed = [] ∧ s.usb.rbEjtagRead.getUsed = 256 ∧
              ¬s.Visible))) = true := by
    decide +kernel
  obtain ⟨start, configured, holds⟩ := (Option.any_eq_true _ _).mp ran
  obtain ⟨both, noRoom⟩ := Bool.and_eq_true_iff.mp holds
  obtain ⟨first, between⟩ := Bool.and_eq_true_iff.mp both
  have initial : usbRxArrivals.init ⟨start, .idle, 0, false⟩ := ⟨⟨_, configured⟩, rfl, rfl, rfl⟩
  obtain ⟨a, reachA, holdsA⟩ := Machine.exists_reach _ initial first
  obtain ⟨b, reachB, holdsB⟩ := Machine.exists_reach _ initial between
  obtain ⟨c, reachC, holdsC⟩ := Machine.exists_reach _ initial noRoom
  exact ⟨⟨a, reachA, of_decide_eq_true holdsA⟩, ⟨b, reachB, of_decide_eq_true holdsB⟩,
    ⟨c, reachC, of_decide_eq_true holdsC⟩⟩

end LoongsonEjtag
