import LoongsonEjtag.Lib.Machine
import LoongsonEjtag.Ringbuffer

/-! # The USB OUT path

How the bytes of the host get into the RX ring: the OUT endpoint of
`usb_dc_fsdev.c`, the callbacks of `usb_descriptors.c` and the consumer of
`lsejtag_port.c`.

* `UsbRx` — the ring, the busy flag and the endpoint, with a history of what was
  published and consumed.
* `usbRx` — interrupts and consumer calls in any order, from the first
  configuration on.
-/

namespace LoongsonEjtag

open Lib (Byte Machine)

/-- The OUT endpoint in `g_fsdev_udc.out_ep`.  Its destinations lie in the pool
    of `rb_ejtag_read`, and `xferBuf` is an offset into it.  `rxValid` is the
    status of the endpoint register: a read is outstanding. -/
structure FsdevEpState where
  epMps : BitVec 16
  epEnable : Bool
  xferBuf : Nat
  xferLen : BitVec 32
  actualXferLen : BitVec 32
  rxValid : Bool
  /-- History: the packets of the read, in order. -/
  received : List Byte

/-- `rxMsgEpMps` is the packet size `usbd_core.c` keeps for the endpoint. -/
structure UsbRx where
  rbEjtagRead : ChryRingbuffer 8
  epRxBusyFlag : Bool
  rxMsgEpMps : BitVec 16
  outEp : FsdevEpState
  /-- History: the bytes of the completed reads. -/
  published : List Byte
  /-- History: the bytes handed to the consumer. -/
  consumed : List Byte

/-- `init_cherryusb`, with the driver state cleared. -/
def initCherryusb (pool : Vector Byte (2 ^ 8)) : UsbRx where
  rbEjtagRead := .init pool ChryRingbuffer.usbRing_small
  epRxBusyFlag := false
  rxMsgEpMps := 0
  outEp := ⟨0, false, 0, 0, 0, false, []⟩
  published := []
  consumed := []

namespace UsbRx

variable (u : UsbRx)

/-! ## The driver -/

/-- `usbd_set_endpoint` with the descriptor of the OUT endpoint, whose packet
    size is `USB_BULK_EP_MPS_FS`, and the `usbd_ep_open` in it. -/
def usbdSetEndpoint : UsbRx :=
  { u with
    rxMsgEpMps := 64
    outEp := { u.outEp with epMps := 64, epEnable := true } }

/-- `usbd_get_ep_mps`, where it is used as a length. -/
def usbdGetEpMps : BitVec 32 := u.rxMsgEpMps.setWidth 32

/-- `usbd_ep_start_read`; no caller passes a null pointer. -/
def usbdEpStartRead (data : Nat) (dataLen : BitVec 32) : UsbRx :=
  if u.outEp.epEnable then
    { u with outEp := { u.outEp with
        xferBuf := data
        xferLen := dataLen
        actualXferLen := 0
        rxValid := true
        received := [] } }
  else u

/-! ## The callbacks -/

/-- The last transfer is complete. -/
def transferComplete (nbytes : BitVec 32) : UsbRx :=
  if nbytes ≠ 0 then { u with rbEjtagRead := u.rbEjtagRead.linearWriteDone nbytes } else u

/-- `usbd_ejtag_bulk_out_complete`. -/
def usbdEjtagBulkOutComplete (nbytes : BitVec 32) : UsbRx :=
  let u := u.transferComplete nbytes
  let (destPtr, availLen) := u.rbEjtagRead.linearWriteSetup
  if availLen ≥ u.usbdGetEpMps then u.usbdEpStartRead destPtr u.usbdGetEpMps
  else { u with epRxBusyFlag := false }

/-- `usbd_event_handler` for `USBD_EVENT_CONFIGURED`; `none` where its assertion
    fails. -/
def usbdEventConfigured : Option UsbRx :=
  let (destPtr, availLen) := u.rbEjtagRead.linearWriteSetup
  if availLen ≥ u.usbdGetEpMps then some (u.usbdEpStartRead destPtr availLen) else none

/-- `usbd_event_ep_out_complete_handler`. -/
def usbdEventEpOutCompleteHandler : UsbRx :=
  { u with published := u.published ++ u.outEp.received }.usbdEjtagBulkOutComplete
    u.outEp.actualXferLen

/-- A packet is in the pool, and the status is no longer valid. -/
def packetCopied (packet : List Byte) (fits : u.outEp.xferBuf + packet.length ≤ 2 ^ 8) : UsbRx :=
  let readCount := BitVec.ofNat 32 packet.length
  { u with
    rbEjtagRead := u.rbEjtagRead.copyIn u.outEp.xferBuf packet fits
    outEp := { u.outEp with
      xferBuf := u.outEp.xferBuf + packet.length
      xferLen := u.outEp.xferLen - readCount
      actualXferLen := u.outEp.actualXferLen + readCount
      rxValid := false
      received := u.outEp.received ++ packet } }

/-- What `USBD_IRQHandler` does with a packet on the OUT endpoint.  The
    controller takes no other until the status is set to valid again; `none` is
    a copy past the end of the pool. -/
def usbdIrqHandler (packet : List Byte) : Option UsbRx :=
  if fits : u.outEp.xferBuf + packet.length ≤ 2 ^ 8 then
    let u := u.packetCopied packet fits
    if BitVec.ofNat 32 packet.length < u.outEp.epMps.setWidth 32 ∨ u.outEp.xferLen = 0 then
      some u.usbdEventEpOutCompleteHandler
    else some { u with outEp := { u.outEp with rxValid := true } }
  else none

/-! ## The consumer -/

def ringbufferRead (len : BitVec 32) : UsbRx :=
  { u with
    rbEjtagRead := (u.rbEjtagRead.read len).2
    consumed := u.consumed ++ (u.rbEjtagRead.read len).1 }

/-- `lsejtag_impl_usbrx_consume`. -/
def lsejtagImplUsbrxConsume (len : BitVec 32) : UsbRx :=
  let u := u.ringbufferRead len
  if !u.epRxBusyFlag && u.rbEjtagRead.checkEmpty then
    let u := { u with rbEjtagRead := u.rbEjtagRead.reset, epRxBusyFlag := true }
    u.usbdEpStartRead u.rbEjtagRead.linearWriteSetup.1 u.usbdGetEpMps
  else u

end UsbRx

/-! ## The machine -/

inductive UsbRxInput where
  | packet (bytes : List Byte)
  | consume (len : BitVec 32)
  deriving DecidableEq

/-- The interrupt of a packet, for which the host has at most 64 bytes, and a
    call of the consumer, each in one step. -/
def usbRxStep (u : UsbRx) : UsbRxInput → Option UsbRx
  | .packet bytes =>
    if u.outEp.rxValid = true ∧ bytes.length ≤ 64 then u.usbdIrqHandler bytes else none
  | .consume len => some (u.lsejtagImplUsbrxConsume len)

/-- Whatever was in the pool before, from the first configuration on. -/
def usbRx : Machine UsbRx UsbRxInput where
  init u := ∃ pool, (initCherryusb pool).usbdSetEndpoint.usbdEventConfigured = some u
  step := usbRxStep

end LoongsonEjtag
