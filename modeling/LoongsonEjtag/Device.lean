import LoongsonEjtag.Lib.Simulation
import LoongsonEjtag.Progress
import LoongsonEjtag.RxCalls
import LoongsonEjtag.RxFifo
import LoongsonEjtag.TxFifo
import LoongsonEjtag.ZeroLength

/-! # The whole device

The OUT endpoint with the RX ring, the main loop, and the IN endpoint with the TX
ring, as one machine: `USBD_IRQHandler` comes between any two calls of `main`, and
what a call sees of the rings is what the handler has left there.  (What it does to a
call of the USB glue that it interrupts is in `RxVisible` and `TxHandover`.)

* `device` — the machine.  The library has no list of received bytes of its own
  here: before every call it is the contents of the ring.
* `device_refines` — with that, the main loop does what `mainLoop` does.
* `device_streams` — no byte is lost, doubled or out of order between the host's
  OUT packets and the library, and between the library and the host's IN packets.
* `waiting_accepts` — while the library waits for bytes, the host can send some.
-/

namespace LoongsonEjtag

open Lib (Byte Machine)

/-- `hostOut` is history: the packets of the host, in order. -/
structure Device where
  rx : UsbRx
  main : MainState
  tx : UsbTx
  hostOut : List Byte

inductive DeviceInput where
  | outPacket (bytes : List Byte)
  | poll (tdo : Nat → Bool)
  | inComplete

namespace MainState

/-- The library's view of a ring that holds `rx`. -/
def withRx (s : MainState) (rx : List Byte) : MainState :=
  { s with world := { s.world with rx := rx } }

/-- New bytes in the ring, if there are any. -/
def arrive (s : MainState) (bytes : List Byte) : MainState :=
  if bytes = [] then s else { s with world := s.world.receive bytes }

end MainState

/-- What a packet made available to the library. -/
def publishedBetween (rx rx' : UsbRx) : List Byte := rx'.published.drop rx.published.length

/-- The calls of `lsejtag_impl_usbrx_consume` from `main` to `main'`. -/
def consumedBetween (main main' : MainState) : List Nat :=
  consumeLens (main'.world.trace.drop main.world.trace.length)

namespace UsbRx

/-- One call after the other. -/
def consumeAll (u : UsbRx) (lens : List Nat) : UsbRx :=
  lens.foldl (fun u len => u.lsejtagImplUsbrxConsume (BitVec.ofNat 32 len)) u

/-- The packets of a read that is not complete. -/
def inFlight (u : UsbRx) : List Byte := if u.outEp.rxValid then u.outEp.received else []

end UsbRx

/-- The main loop as it finds the ring. -/
def Device.view (d : Device) : MainState := d.main.withRx d.rx.rbEjtagRead.unread

/-- A packet of the host, the main loop's next call, and the host taking a packet. -/
def deviceStep (d : Device) : DeviceInput → Option Device
  | .outPacket bytes =>
    (usbRxStep d.rx (.packet bytes)).map fun rx =>
      { d with
        rx := rx
        main := d.view.arrive (publishedBetween d.rx rx)
        hostOut := d.hostOut ++ bytes }
  | .poll tdo =>
    (mainStep d.view (.poll d.tx.lsejtagImplUsbtxFreeLen tdo)).map fun main =>
      { d with
        main := main
        rx := d.rx.consumeAll (consumedBetween d.view main)
        tx := (sentBetween d.view main).foldl UsbTx.lsejtagImplUsbtx d.tx }
  | .inComplete => if d.tx.inEp.txValid then some { d with tx := d.tx.usbdIrqHandler } else none

/-- From the configuration on, with both rings as `init_cherryusb` leaves them. -/
def device : Machine Device DeviceInput where
  init d := d.main = .start ∧ usbRx.init d.rx ∧ usbTx.init d.tx ∧ d.hostOut = []
  step := deviceStep

/-! ## The OUT side -/

section out

variable {u u' : UsbRx}

/-- A call takes the oldest bytes, whether it starts a read or not. -/
theorem unread_consume (u : UsbRx) (len : BitVec 32) :
    (u.lsejtagImplUsbrxConsume len).rbEjtagRead.unread = u.rbEjtagRead.unread.drop len.toNat ∧
      (u.lsejtagImplUsbrxConsume len).consumed =
        u.consumed ++ u.rbEjtagRead.unread.take len.toNat ∧
      (u.lsejtagImplUsbrxConsume len).published = u.published := by
  have unread : (u.ringbufferRead len).rbEjtagRead.unread = u.rbEjtagRead.unread.drop len.toNat :=
    ChryRingbuffer.unread_read len
  have taken : (u.ringbufferRead len).consumed =
      u.consumed ++ u.rbEjtagRead.unread.take len.toNat :=
    congrArg (u.consumed ++ ·) (ChryRingbuffer.peek_snd len)
  rw [UsbRx.lsejtagImplUsbrxConsume]
  simp only
  split
  case isTrue drained =>
    -- The ring is reset where it is empty already.
    have empty := ChryRingbuffer.checkEmpty_iff.mp (Bool.and_eq_true_iff.mp drained).2
    have fresh : (u.ringbufferRead len).rbEjtagRead.reset.unread = [] :=
      ChryRingbuffer.unread_fresh rfl rfl
    rw [← unread, empty]
    simp only [UsbRx.usbdEpStartRead]
    split
    · exact ⟨fresh, taken, rfl⟩
    · exact ⟨fresh, taken, rfl⟩
  case isFalse => exact ⟨unread, taken, rfl⟩

/-- A read that is not the first one completes with its first packet. -/
def ReadsPacket (u : UsbRx) : Prop :=
  u.outEp.rxValid = true → u.published = [] ∨
    u.outEp.received = [] ∧ u.outEp.xferLen.toNat = 64

/-- A read of one packet that starts. -/
theorem ReadsPacket.started {start : Nat} (enabled : u.outEp.epEnable = true)
    (rxMsgEpMps : u.rxMsgEpMps = 64) :
    ReadsPacket (u.usbdEpStartRead start u.usbdGetEpMps) ∧
      (u.usbdEpStartRead start u.usbdGetEpMps).inFlight = [] := by
  rw [UsbRx.usbdEpStartRead, if_pos enabled, UsbRx.usbdGetEpMps, rxMsgEpMps]
  exact ⟨fun _ => .inr ⟨rfl, rfl⟩, rfl⟩

/-- A complete read publishes its packets; the next one starts from nothing. -/
theorem outComplete_streams (enabled : u.outEp.epEnable = true) (rxMsgEpMps : u.rxMsgEpMps = 64)
    (stopped : u.outEp.rxValid = false) :
    ReadsPacket u.usbdEventEpOutCompleteHandler ∧
      u.usbdEventEpOutCompleteHandler.published = u.published ++ u.outEp.received ∧
      u.usbdEventEpOutCompleteHandler.consumed = u.consumed ∧
      u.usbdEventEpOutCompleteHandler.inFlight = [] := by
  obtain ⟨v, complete, enabled, rxMsgEpMps, stopped, published, consumed⟩ :
      ∃ v, UsbRx.transferComplete { u with published := u.published ++ u.outEp.received }
          u.outEp.actualXferLen = v ∧ v.outEp.epEnable = true ∧ v.rxMsgEpMps = 64 ∧
        v.outEp.rxValid = false ∧ v.published = u.published ++ u.outEp.received ∧
        v.consumed = u.consumed := by
    refine ⟨_, rfl, ?_⟩
    rw [UsbRx.transferComplete]
    split
    · exact ⟨enabled, rxMsgEpMps, stopped, rfl, rfl⟩
    · exact ⟨enabled, rxMsgEpMps, stopped, rfl, rfl⟩
  rw [UsbRx.usbdEventEpOutCompleteHandler, UsbRx.usbdEjtagBulkOutComplete, complete]
  simp only
  split
  case isTrue enough =>
    obtain ⟨reads, nothing⟩ :=
      @ReadsPacket.started v v.rbEjtagRead.linearWriteSetup.1 enabled rxMsgEpMps
    refine ⟨reads, ?_, ?_, nothing⟩
    · rw [UsbRx.usbdEpStartRead, if_pos enabled, ← published]
    · rw [UsbRx.usbdEpStartRead, if_pos enabled, ← consumed]
  case isFalse short =>
    refine ⟨fun valid => ?_, published, consumed, ?_⟩
    · exact absurd (stopped.symm.trans valid) Bool.false_ne_true
    · simp [UsbRx.inFlight, stopped]

/-- A packet is published or in flight behind what was, and nothing is consumed. -/
theorem packet_streams (inv : UsbRxInv u) (valid : u.outEp.rxValid = true)
    (reads : ReadsPacket u) {packet : List Byte} (atMost : packet.length ≤ 64)
    (handled : u.usbdIrqHandler packet = some u') :
    ReadsPacket u' ∧ u'.published ++ u'.inFlight = u.published ++ u.inFlight ++ packet ∧
      u'.consumed = u.consumed ∧ u.published <+: u'.published := by
  have before : u.inFlight = u.outEp.received := if_pos valid
  rw [UsbRx.usbdIrqHandler] at handled
  split at handled
  case isTrue fits =>
    simp only at handled
    split at handled
    case isTrue completes =>
      obtain rfl := Option.some.inj handled
      obtain ⟨reads', published, consumed, nothing⟩ :=
        @outComplete_streams (u.packetCopied packet fits) inv.enabled inv.rxMsgEpMps rfl
      have received : (u.packetCopied packet fits).outEp.received = u.outEp.received ++ packet :=
        rfl
      refine ⟨reads', ?_, consumed, ?_⟩
      · rw [published, nothing, received, before, List.append_nil, ← List.append_assoc]
        rfl
      · rw [published]
        exact List.prefix_append _ _
    case isFalse continues =>
      obtain rfl := Option.some.inj handled
      obtain ⟨whole, more⟩ := not_or.mp continues
      have readCount : (BitVec.ofNat 32 packet.length).toNat = packet.length := by
        rw [BitVec.toNat_ofNat, Nat.mod_eq_of_lt (by omega)]
      have first : u.published = [] := by
        apply (reads valid).resolve_right
        rintro ⟨_, one⟩
        -- A read of one packet would be complete.
        have mps : (BitVec.setWidth 32 (64 : BitVec 16)).toNat = 64 := rfl
        change ¬ BitVec.ofNat 32 packet.length < BitVec.setWidth 32 u.outEp.epMps at whole
        rw [inv.epMps, BitVec.lt_def, mps] at whole
        apply more
        change u.outEp.xferLen - BitVec.ofNat 32 packet.length = 0
        apply BitVec.eq_of_toNat_eq
        rw [BitVec.toNat_sub_of_le (by rw [BitVec.le_def]; omega), readCount]
        change u.outEp.xferLen.toNat - packet.length = 0
        omega
      refine ⟨fun _ => .inl first, ?_, rfl, List.prefix_refl _⟩
      rw [before]
      exact (List.append_assoc u.published u.outEp.received packet).symm
  case isFalse => cases handled

/-- The consumer leaves the packets of an incomplete read alone once something is
    published. -/
theorem consume_streams (inv : UsbRxInv u) (reads : ReadsPacket u) (some : u.published ≠ [])
    (len : BitVec 32) :
    ReadsPacket (u.lsejtagImplUsbrxConsume len) ∧
      (u.lsejtagImplUsbrxConsume len).inFlight = u.inFlight := by
  rw [UsbRx.lsejtagImplUsbrxConsume]
  simp only
  split
  case isTrue drained =>
    obtain ⟨reads', nothing⟩ := @ReadsPacket.started
      { u.ringbufferRead len with
        rbEjtagRead := (u.ringbufferRead len).rbEjtagRead.reset, epRxBusyFlag := true }
      (u.ringbufferRead len).rbEjtagRead.reset.linearWriteSetup.1 inv.enabled inv.rxMsgEpMps
    refine ⟨reads', nothing.trans ?_⟩
    rw [UsbRx.inFlight]
    split
    case isTrue valid => exact ((reads valid).resolve_left some).1.symm
    case isFalse => rfl
  case isFalse => exact ⟨reads, rfl⟩

/-- All calls of a step. -/
theorem consumeAll_streams {es : List Event} {rx rx' : List Byte} (drains : Drains rx es rx')
    (inv : UsbRxInv u) (reads : ReadsPacket u) (some : consumeLens es ≠ [] → u.published ≠ [])
    (same : u.rbEjtagRead.unread = rx) :
    UsbRxInv (u.consumeAll (consumeLens es)) ∧ ReadsPacket (u.consumeAll (consumeLens es)) ∧
      (u.consumeAll (consumeLens es)).rbEjtagRead.unread = rx' ∧
      (u.consumeAll (consumeLens es)).consumed = u.consumed ++ consumed es ∧
      (u.consumeAll (consumeLens es)).published = u.published ∧
      (u.consumeAll (consumeLens es)).inFlight = u.inFlight := by
  induction drains generalizing u with
  | nil => exact ⟨inv, reads, same, (List.append_nil _).symm, rfl, rfl⟩
  | consume offset len small rest ih =>
    subst same
    have published := some (by simp [Event.consumeLen])
    have count : (BitVec.ofNat 32 len).toNat = len := by
      rw [BitVec.toNat_ofNat, Nat.mod_eq_of_lt small]
    obtain ⟨unread, taken, kept⟩ := unread_consume u (BitVec.ofNat 32 len)
    obtain ⟨reads', inFlight⟩ := consume_streams inv reads published (BitVec.ofNat 32 len)
    rw [count] at unread taken
    obtain ⟨inv', reads'', left, consumed, same, flight⟩ :=
      ih (inv.consume (BitVec.ofNat 32 len)) reads' (fun _ => by rw [kept]; exact published) unread
    refine ⟨inv', reads'', left, ?_, same.trans kept, flight.trans inFlight⟩
    rw [consumed_cons, ← List.append_assoc]
    exact consumed.trans (congrArg (· ++ _) taken)
  | @other rx rx' es e noCall rest ih =>
    have lens : consumeLens (e :: es) = consumeLens es := by rw [consumeLens_cons, noCall]; rfl
    have bytes : e.consumedBytes = [] := by
      cases e with
      | consume => cases noCall
      | _ => rfl
    rw [lens] at some ⊢
    rw [consumed_cons, bytes]
    exact ih inv reads some same

end out

/-! ## The IN side -/

section in_

variable {t : UsbTx}

/-- A call adds its data to what was written, and a completion adds nothing. -/
theorem writtenBytes_usbtx (ready : t.InReady) (data : List Byte) :
    writtenBytes (t.lsejtagImplUsbtx data).trace = writtenBytes t.trace ++ data := by
  have called := UsbTx.lsejtagImplUsbtx_called ready data
  generalize t.lsejtagImplUsbtx data = t' at called ⊢
  cases called with
  | busy =>
    have trace : (t.ringbufferWrite data).trace = t.trace ++ [.usbtx data] := rfl
    simp [trace, writtenBytes, UsbTxEvent.writtenBytes]
  | started _ start len payload =>
    have trace : ((t.ringbufferWrite data).sending (some start) len payload).trace =
        t.trace ++ [.usbtx data] ++ [.start payload] := rfl
    simp [trace, writtenBytes, UsbTxEvent.writtenBytes]

theorem writtenBytes_inComplete (ready : t.InReady) (valid : t.inEp.txValid = true) :
    writtenBytes t.usbdIrqHandler.trace = writtenBytes t.trace := by
  have completed := UsbTx.usbdIrqHandler_completed ready valid
  generalize t.usbdIrqHandler = t' at completed ⊢
  have taken : t.taken.trace = t.trace ++ [.complete t.inEp.packet] := rfl
  cases completed with
  | terminated =>
    have trace : (t.taken.sending none 0 []).trace = t.taken.trace ++ [.start []] := rfl
    rw [trace, taken]
    simp [writtenBytes, UsbTxEvent.writtenBytes]
  | continued _ start len payload =>
    have trace : (t.taken.sending (some start) len payload).trace =
        t.taken.trace ++ [.start payload] := rfl
    rw [trace, taken]
    simp [writtenBytes, UsbTxEvent.writtenBytes]
  | ended =>
    have trace : t.taken.ended.trace = t.taken.trace ++ [.reset [] false] := rfl
    rw [trace, taken]
    simp [writtenBytes, UsbTxEvent.writtenBytes]

end in_

/-! ## Steps -/

structure DeviceInv (d : Device) : Prop where
  rx : UsbRxInv d.rx
  reads : ReadsPacket d.rx
  tx : TxInv d.tx
  ring : d.main.world.rx = d.rx.rbEjtagRead.unread
  consumed : consumed d.main.world.trace = d.rx.consumed
  hostOut : d.rx.published ++ d.rx.inFlight = d.hostOut
  untouched : d.rx.published = [] → d.main = .start
  written : writtenBytes d.tx.trace = (usbtxCalls d.main.world.trace).flatten

section steps

variable {d d' : Device}

/-- With the ring in step, the library sees what it has left there. -/
theorem DeviceInv.view_eq (inv : DeviceInv d) : d.view = d.main := by
  rw [Device.view, ← inv.ring]
  rfl

theorem deviceInv_start (initial : device.init d) : DeviceInv d := by
  obtain ⟨main, ⟨pool, configured⟩, ⟨pool', tx⟩, hostOut⟩ := initial
  have rx := usbRxInv_configured configured
  obtain ⟨published, received, consumed⟩ :
      d.rx.published = [] ∧ d.rx.outEp.received = [] ∧ d.rx.consumed = [] := by
    simp only [UsbRx.usbdEventConfigured, Option.ite_none_right_eq_some, Option.some.injEq]
      at configured
    obtain ⟨-, started⟩ := configured
    rw [← started]
    exact ⟨rfl, rfl, rfl⟩
  have unread : d.rx.rbEjtagRead.unread = [] := by
    have inOrder := rx.inOrder
    rw [consumed, published] at inOrder
    exact inOrder
  refine ⟨rx, fun _ => .inl published, tx ▸ .configured pool', ?_, ?_, ?_, fun _ => main, ?_⟩
  · rw [main, unread]
    rfl
  · rw [main, consumed]
    rfl
  · simp [UsbRx.inFlight, published, received, hostOut]
  · rw [main, tx]
    rfl

theorem DeviceInv.outPacket (inv : DeviceInv d) {bytes : List Byte}
    (stepped : deviceStep d (.outPacket bytes) = some d') :
    DeviceInv d' ∧ ∃ actions, mainLoop.run Machine.anyAction d.main actions = some d'.main := by
  obtain ⟨rx', received, rfl⟩ := Option.map_eq_some_iff.mp stepped
  obtain ⟨⟨valid, atMost⟩, handled⟩ := Option.ite_none_right_eq_some.mp received
  have rxInv : UsbRxInv rx' := inv.rx.step received
  obtain ⟨reads, flight, consumed, new, published⟩ :=
    packet_streams inv.rx valid inv.reads atMost handled
  have between : publishedBetween d.rx rx' = new := by
    rw [publishedBetween, ← published, List.drop_left]
  -- What is published is unread.
  have unread : rx'.rbEjtagRead.unread = d.main.world.rx ++ new := by
    have after := rxInv.inOrder
    rw [consumed, ← published, ← inv.rx.inOrder, List.append_assoc,
      List.append_cancel_left_eq] at after
    rw [after, inv.ring]
  rw [inv.view_eq, between]
  by_cases none : new = []
  · subst none
    rw [List.append_nil] at unread published
    refine ⟨⟨rxInv, reads, inv.tx, unread.symm, inv.consumed.trans consumed.symm, ?_, ?_,
      inv.written⟩, Lib.Machine.run_stutter rfl⟩
    · exact flight.trans (congrArg (· ++ bytes) inv.hostOut)
    · exact fun nothing => inv.untouched (published.trans nothing)
  · have arrives : d.main.arrive new = { d.main with world := d.main.world.receive new } :=
      if_neg none
    have room : d.main.world.rx.length + new.length ≤ usbrxCapacity := by
      have fits := rx'.rbEjtagRead.toNat_getUsed_le
      rw [← ChryRingbuffer.length_unread, unread, List.length_append] at fits
      exact fits
    have ran : mainLoop.step d.main (.usbOut new) =
        some { d.main with world := d.main.world.receive new } := if_pos room
    rw [arrives]
    refine ⟨⟨rxInv, reads, inv.tx, unread.symm, ?_, ?_, ?_, ?_⟩, Lib.Machine.run_once ran⟩
    · simp [World.receive, Event.consumedBytes, inv.consumed, consumed]
    · exact flight.trans (congrArg (· ++ bytes) inv.hostOut)
    · intro nothing
      rw [← published, List.append_eq_nil_iff] at nothing
      exact absurd nothing.2 none
    · simp [World.receive, Event.usbtxData, inv.written]

theorem DeviceInv.poll (inv : DeviceInv d) (reach : mainLoop.Reachable d.main)
    {tdo : Nat → Bool} (stepped : deviceStep d (.poll tdo) = some d') :
    DeviceInv d' ∧ ∃ actions, mainLoop.run Machine.anyAction d.main actions = some d'.main := by
  obtain ⟨main', polled, rfl⟩ := Option.map_eq_some_iff.mp stepped
  rw [inv.view_eq] at polled ⊢
  have mainInv := mainLoop_inv reach
  have ring := (mainLoop_parserInv reach).rx.ring
  obtain ⟨es, trace, drains⟩ := mainPoll_drained mainInv ring polled
  have lens : consumedBetween d.main main' = consumeLens es := by
    rw [consumedBetween, trace, List.drop_left]
  have sends : sentBetween d.main main' = usbtxCalls es := by
    rw [sentBetween, trace, List.drop_left]
  -- The first call that takes bytes comes behind the first arrival.
  have untouched : d.rx.published = [] → main' = .start ∧ es = [] := by
    intro nothing
    have start := inv.untouched nothing
    rw [start] at polled trace
    obtain rfl : main' = .start := (Option.some.inj polled).symm
    exact ⟨rfl, (List.append_eq_nil_iff.mp trace.symm).2⟩
  have some : consumeLens es ≠ [] → d.rx.published ≠ [] := by
    intro calls nothing
    rw [(untouched nothing).2] at calls
    exact calls rfl
  obtain ⟨rxInv, reads, unread, consumed, published, flight⟩ :=
    consumeAll_streams drains inv.rx inv.reads some inv.ring.symm
  have written : TxInv ((usbtxCalls es).foldl UsbTx.lsejtagImplUsbtx d.tx) ∧
      writtenBytes ((usbtxCalls es).foldl UsbTx.lsejtagImplUsbtx d.tx).trace =
        writtenBytes d.tx.trace ++ (usbtxCalls es).flatten := by
    obtain nothing | ⟨data, one, response⟩ := sentBetween_cases mainInv polled
    · rw [← sends, nothing]
      exact ⟨inv.tx, (List.append_nil _).symm⟩
    · rw [← sends, one, List.flatten_singleton]
      exact ⟨inv.tx.usbtx response.fits, writtenBytes_usbtx inv.tx.ready data⟩
  have ran : mainLoop.step d.main (.poll d.tx.lsejtagImplUsbtxFreeLen tdo) = .some main' := polled
  rw [lens, sends]
  refine ⟨⟨rxInv, reads, written.1, unread.symm, ?_, ?_, ?_, ?_⟩, Lib.Machine.run_once ran⟩
  · rw [trace, consumed_append, inv.consumed, consumed]
  · rw [published, flight, inv.hostOut]
  · intro nothing
    rw [published] at nothing
    exact (untouched nothing).1
  · rw [written.2, inv.written, trace, usbtxCalls_append, List.flatten_append]

theorem DeviceInv.inComplete (inv : DeviceInv d) (stepped : deviceStep d .inComplete = some d') :
    DeviceInv d' ∧ ∃ actions, mainLoop.run Machine.anyAction d.main actions = some d'.main := by
  obtain ⟨valid, completed⟩ := Option.ite_none_right_eq_some.mp stepped
  obtain rfl := Option.some.inj completed
  refine ⟨⟨inv.rx, inv.reads, inv.tx.inComplete valid, inv.ring, inv.consumed, inv.hostOut,
    inv.untouched, ?_⟩, Lib.Machine.run_stutter rfl⟩
  exact (writtenBytes_inComplete inv.tx.ready valid).trans inv.written

end steps

/-! ## Runs -/

/-- The device under the main loop of the library: packets that publish something
    are arrivals, and the other interrupts are not seen. -/
theorem device_simulates :
    Machine.Simulates device Machine.anyAction mainLoop Device.main DeviceInv where
  start _ initial := ⟨deviceInv_start initial, initial.1⟩
  next d d' input inv reach _ stepped := by
    cases input with
    | outPacket bytes => exact inv.outPacket stepped
    | poll tdo => exact inv.poll reach stepped
    | inComplete => exact inv.inComplete stepped

variable {d : Device}

/-- Whatever the interrupts do between its calls, the main loop is in a state of
    `mainLoop`, and the ring holds the bytes it has not taken. -/
theorem device_refines (reach : device.Reachable d) :
    mainLoop.Reachable d.main ∧ d.rx.rbEjtagRead.unread = d.main.world.rx := by
  obtain ⟨inv, reachable⟩ := device_simulates.reachable reach
  exact ⟨reachable, inv.ring.symm⟩

/-- The host's packets are what the library has taken, what the ring holds and what
    an incomplete read has got; what the library has written is what the host has
    got and what the ring holds.  And neither side is given up: the endpoint takes a
    packet, or there is something to take; what is in the TX ring is on its way. -/
structure DeviceStreams (d : Device) : Prop where
  out : consumed d.main.world.trace ++ d.rx.rbEjtagRead.unread ++ d.rx.inFlight = d.hostOut
  in_ : completedBytes d.tx.trace ++ d.tx.rbEjtagWrite.unread =
    (usbtxCalls d.main.world.trace).flatten
  accepts : d.rx.outEp.rxValid = true ∨ d.rx.rbEjtagRead.unread ≠ []
  sends : d.tx.rbEjtagWrite.unread ≠ [] → d.tx.inEp.txValid = true

theorem device_streams (reach : device.Reachable d) : DeviceStreams d := by
  obtain ⟨inv, -⟩ := device_simulates.reachable reach
  refine ⟨?_, ?_, inv.rx.fifo.goesOn, inv.tx.fifo.goesOn⟩
  · rw [inv.consumed, inv.rx.inOrder, inv.hostOut]
  · rw [inv.tx.inOrder, inv.written]

/-- A host that sends two packets, a main loop that answers, and the host taking the
    answer: the firmware date. -/
def dateRequest : List DeviceInput :=
  [.outPacket [0x00], .poll quiet, .outPacket [0x7c], .poll quiet, .poll quiet, .inComplete]
where
  quiet : Nat → Bool := fun _ => false

theorem exists_dateRequest : ∃ d, device.Reachable d ∧ d.hostOut = [0x00, 0x7c] ∧
    completedBytes d.tx.trace = Lib.dwordBytes lsejtagFirmwareDate := by
  have ran : ((initCherryusb (Vector.replicate _ 0)).usbdSetEndpoint.usbdEventConfigured).any
      (fun rx => (device.run Machine.anyAction
        ⟨rx, .start, (UsbTx.initCherryusb (Vector.replicate _ 0)).usbdSetEndpoint, []⟩
        dateRequest).any fun d =>
          decide (d.hostOut = [0x00, 0x7c] ∧
            completedBytes d.tx.trace = Lib.dwordBytes lsejtagFirmwareDate)) = true := by
    decide +kernel
  obtain ⟨rx, configured, ran⟩ := (Option.any_eq_true _ _).mp ran
  obtain ⟨d, reach, holds⟩ :=
    Machine.exists_reach (M := device) _ ⟨rfl, ⟨_, configured⟩, ⟨_, rfl⟩, rfl⟩ ran
  exact ⟨d, reach, of_decide_eq_true holds⟩

theorem device_refines_date : ∃ d : Device, d.hostOut = [0x00, 0x7c] ∧
    mainLoop.Reachable d.main ∧ d.rx.rbEjtagRead.unread = d.main.world.rx := by
  obtain ⟨d, reach, hostOut, -⟩ := exists_dateRequest
  obtain ⟨refines, ring⟩ := device_refines reach
  exact ⟨d, hostOut, refines, ring⟩

theorem device_streams_date : ∃ d, DeviceStreams d ∧ d.hostOut = [0x00, 0x7c] ∧
    completedBytes d.tx.trace = Lib.dwordBytes lsejtagFirmwareDate := by
  obtain ⟨d, reach, hostOut, date⟩ := exists_dateRequest
  exact ⟨d, device_streams reach, hostOut, date⟩

/-! ## Waiting -/

/-- A parser that waits for more has taken all there is. -/
theorem ParserStepped.incomplete_drains {w w' : World}
    (stepped : ParserStepped w .dprIncomplete w') : w'.rx = [] := by
  generalize isResult : LsejtagDispatchResult.dprIncomplete = r at stepped
  cases stepped with
  | firstByte _ one _ parsed => rw [parsed.took.rx, ← one, List.drop_length]
  | noByte _ noRx => exact noRx
  | unknown | payload | ready => cases isResult
  | config middle _ o _ _ _ _ returned =>
    cases isResult
    obtain ⟨state, buffered, waiting, k, parsed, stage⟩ := returned
    cases stage with
    | rest | payloadRest => rw [parsed.took.rx, List.drop_length]
  | payloadRest _ _ _ parsed => rw [parsed.took.rx, List.drop_length]

/-- A dispatch that asks for nothing to be done leaves an empty ring. -/
theorem dispatch_waits {w w' : World} {r : LsejtagDispatchResult} (inv : ParserInv w.ctx)
    (ring : w.rx.length ≤ usbrxCapacity) (dispatched : lsejtagDispatch w = .ok (r, w'))
    (waits : r = .dprIncomplete ∨ r = .dprClean) : w'.rx = [] := by
  cases lsejtagDispatch_dispatched dispatched with
  | flushing | flushNew | run => simp at waits
  | empty _ noRx => exact noRx
  | parsed _ some _ _ parsed =>
    by_cases room : CfgRoom w
    · obtain ⟨r', after, total, stepped⟩ := dispatchCmdBuf_stepped inv ring some room
      cases parsed.symm.trans total
      obtain rfl | rfl := waits
      · exact stepped.incomplete_drains
      · exact absurd rfl stepped.ne_clean
    · obtain ⟨why, -, failed⟩ := dispatchCmdBuf_overruns inv ring room
      cases parsed.symm.trans failed

/-- The two ends never wait for each other: when a dispatch returns `dpr_incomplete`
    or `dpr_clean`, the ring is empty and the endpoint takes the host's next packet. -/
theorem waiting_accepts {d' : Device} {tdo : Nat → Bool} {r : LsejtagDispatchResult} {w : World}
    (reach : device.Reachable d) (at_pc : d.main.pc = .dispatch)
    (dispatched : lsejtagDispatch d.main.world = .ok (r, w))
    (waits : r = .dprIncomplete ∨ r = .dprClean) (stepped : deviceStep d (.poll tdo) = some d') :
    d'.rx.rbEjtagRead.unread = [] ∧ d'.rx.outEp.rxValid = true ∧
      ∀ packet : List Byte, packet.length ≤ 64 →
        (deviceStep d' (.outPacket packet)).isSome := by
  obtain ⟨inv, refines⟩ := device_simulates.reachable reach
  obtain ⟨parserRx, parser⟩ := mainLoop_parserInv refines
  have running : d.main.Running := fun why halted => by simp [at_pc] at halted
  have empty : w.rx = [] := dispatch_waits (parser running) parserRx.ring dispatched waits
  have inv' : DeviceInv d' := (inv.poll refines stepped).1
  obtain ⟨main', polled, rfl⟩ := Option.map_eq_some_iff.mp stepped
  rw [inv.view_eq] at polled inv' ⊢
  have world : main'.world = w := by
    simp only [mainStep, mainPoll, at_pc, dispatched, Option.some.injEq] at polled
    rw [← polled]
  have unread := inv'.ring.symm
  simp only at unread ⊢
  rw [world, empty] at unread
  have fifo := inv'.rx.fifo
  have valid := fifo.goesOn.resolve_right (not_not.mpr unread)
  refine ⟨unread, valid, fun packet atMost => ?_⟩
  have accepted := fifo.accepts valid packet atMost
  simp only [deviceStep, usbRxStep, Option.isSome_map]
  rw [if_pos ⟨valid, atMost⟩]
  exact accepted

/-- One byte of a header has arrived, and the library waits for the other. -/
theorem waiting_accepts_header : ∃ d d' : Device, d.main.world.rx = [0x00] ∧
    d'.rx.rbEjtagRead.unread = [] ∧ (deviceStep d' (.outPacket [0x7c])).isSome := by
  have ran : ((initCherryusb (Vector.replicate _ 0)).usbdSetEndpoint.usbdEventConfigured).any
      (fun rx => (device.run Machine.anyAction
        ⟨rx, .start, (UsbTx.initCherryusb (Vector.replicate _ 0)).usbdSetEndpoint, []⟩
        [.outPacket [0x00]]).any fun d =>
          decide (d.main.world.rx = [0x00] ∧ d.main.pc = .dispatch ∧
            (lsejtagDispatch d.main.world).toOption.any (·.1 == .dprIncomplete) = true) &&
          (deviceStep d (.poll fun _ => false)).isSome) = true := by
    decide +kernel
  obtain ⟨rx, configured, ran⟩ := (Option.any_eq_true _ _).mp ran
  obtain ⟨d, reach, holds⟩ :=
    Machine.exists_reach (M := device) _ ⟨rfl, ⟨_, configured⟩, ⟨_, rfl⟩, rfl⟩ ran
  obtain ⟨holds, polls⟩ := Bool.and_eq_true_iff.mp holds
  obtain ⟨arrived, at_pc, incomplete⟩ := of_decide_eq_true holds
  obtain ⟨d', stepped⟩ := Option.isSome_iff_exists.mp polls
  obtain ⟨⟨r, w⟩, dispatched, isResult⟩ := (Option.any_eq_true _ _).mp incomplete
  have dispatched : lsejtagDispatch d.main.world = .ok (r, w) := by
    cases result : lsejtagDispatch d.main.world with
    | ok pair => rw [result] at dispatched; exact congrArg _ (Option.some.inj dispatched)
    | error => rw [result] at dispatched; cases dispatched
  obtain ⟨empty, -, accepts⟩ :=
    waiting_accepts reach at_pc dispatched (.inl (eq_of_beq isResult)) stepped
  exact ⟨d, d', arrived, empty, accepts [0x7c] (by decide)⟩

end LoongsonEjtag
