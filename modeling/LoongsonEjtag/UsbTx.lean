import LoongsonEjtag.Lib.Machine
import LoongsonEjtag.Ringbuffer

/-! # The USB IN path

How the bytes of the TX ring get to the host: `lsejtag_impl_usbtx` of
`lsejtag_port.c`, the IN endpoint of `usb_dc_fsdev.c` and the completion callback
of `usb_descriptors.c`.

* `UsbTx` — the ring, the busy flag and the endpoint, with a trace of what was
  written, started, completed and reset.
* `usbTx` — calls of `lsejtag_impl_usbtx` and completions in any order, on a
  configured device.
-/

namespace LoongsonEjtag

open Lib (Byte Machine)

/-- The IN endpoint in `g_fsdev_udc.in_ep`.  `xferBuf` is an offset into the pool
    of `rb_ejtag_write`, or null; `packet` is what was copied to the controller,
    and `txValid` the status of the endpoint register: a transfer is outstanding. -/
structure FsdevInEp where
  epMps : BitVec 16
  epEnable : Bool
  xferBuf : Option Nat
  xferLen : BitVec 32
  actualXferLen : BitVec 32
  txValid : Bool
  packet : List Byte
  /-- History: the packets of the transfer that the host has, in order. -/
  sent : List Byte

inductive UsbTxEvent where
  | usbtx (data : List Byte)
  | start (payload : List Byte)
  | complete (payload : List Byte)
  | reset (unread : List Byte) (outstanding : Bool)
deriving DecidableEq, Repr

/-- `txMsgEpMps` is the packet size `usbd_core.c` keeps for the endpoint. -/
structure UsbTx where
  rbEjtagWrite : ChryRingbuffer 8
  epTxBusyFlag : Bool
  txMsgEpMps : BitVec 16
  inEp : FsdevInEp
  trace : List UsbTxEvent

/-! ## Reading a trace -/

namespace UsbTxEvent

def writtenBytes : UsbTxEvent → List Byte
  | .usbtx data => data
  | _ => []

def completedBytes : UsbTxEvent → List Byte
  | .complete payload => payload
  | _ => []

def startedPayload : UsbTxEvent → List (List Byte)
  | .start payload => [payload]
  | _ => []

end UsbTxEvent

/-- Bytes passed to `lsejtag_impl_usbtx`. -/
def writtenBytes (trace : List UsbTxEvent) : List Byte := trace.flatMap UsbTxEvent.writtenBytes

/-- Payload of the completed transfers. -/
def completedBytes (trace : List UsbTxEvent) : List Byte := trace.flatMap UsbTxEvent.completedBytes

/-- The transfers started, oldest first. -/
def startedPayloads (trace : List UsbTxEvent) : List (List Byte) :=
  trace.flatMap UsbTxEvent.startedPayload

section append

variable (u v : List UsbTxEvent)

@[simp] theorem writtenBytes_append :
    writtenBytes (u ++ v) = writtenBytes u ++ writtenBytes v := by simp [writtenBytes]
@[simp] theorem completedBytes_append :
    completedBytes (u ++ v) = completedBytes u ++ completedBytes v := by simp [completedBytes]
@[simp] theorem startedPayloads_append :
    startedPayloads (u ++ v) = startedPayloads u ++ startedPayloads v := by simp [startedPayloads]

end append

/-! ## The driver -/

namespace UsbTx

variable (t : UsbTx)

def log (e : UsbTxEvent) : UsbTx := { t with trace := t.trace ++ [e] }

/-- `usbd_set_endpoint` with the descriptor of the IN endpoint, whose packet size
    is `USB_BULK_EP_MPS_FS`, and the `usbd_ep_open` in it. -/
def usbdSetEndpoint : UsbTx :=
  { t with
    txMsgEpMps := 64
    inEp := { t.inEp with epMps := 64, epEnable := true } }

/-- `usbd_get_ep_mps`, where it is used as a length. -/
def usbdGetEpMps : BitVec 32 := t.txMsgEpMps.setWidth 32

/-- `len` bytes from a pointer into the pool. -/
def poolBytes (data : Option Nat) (len : BitVec 32) : List Byte :=
  match data with
  | some start => (t.rbEjtagWrite.pool.toList.drop start).take len.toNat
  | none => []

/-- `MIN`. -/
def minLen (a b : BitVec 32) : BitVec 32 := if a < b then a else b

/-- `usbd_ep_start_write`. -/
def usbdEpStartWrite (data : Option Nat) (dataLen : BitVec 32) : UsbTx :=
  if data = none ∧ dataLen ≠ 0 then t
  else if t.inEp.epEnable then
    { t with inEp := { t.inEp with
        xferBuf := data
        xferLen := dataLen
        actualXferLen := 0
        txValid := true
        packet := t.poolBytes data (minLen dataLen (t.inEp.epMps.setWidth 32))
        sent := [] } }.log (.start (t.poolBytes data dataLen))
  else t

/-! ## The callbacks -/

/-- The oldest bytes, as many as are in a row and fit a packet, are sent. -/
def sendOldest : UsbTx :=
  let read := t.rbEjtagWrite.linearReadSetup
  t.usbdEpStartWrite (some read.1) (minLen t.usbdGetEpMps read.2)

/-- `usbd_ejtag_bulk_in_complete`. -/
def usbdEjtagBulkInComplete (nbytes : BitVec 32) : UsbTx :=
  let t := { t with rbEjtagWrite := t.rbEjtagWrite.linearReadDone nbytes }
  if nbytes % t.usbdGetEpMps = 0 ∧ nbytes ≠ 0 then t.usbdEpStartWrite none 0
  else if !t.rbEjtagWrite.checkEmpty then t.sendOldest
  else
    { t with rbEjtagWrite := t.rbEjtagWrite.reset, epTxBusyFlag := false }.log
      (.reset t.rbEjtagWrite.unread t.inEp.txValid)

/-- `usbd_event_ep_in_complete_handler`. -/
def usbdEventEpInCompleteHandler : UsbTx :=
  (t.log (.complete t.inEp.sent)).usbdEjtagBulkInComplete t.inEp.actualXferLen

/-- The host has taken the packet. -/
def packetSent : UsbTx :=
  let writeCount := BitVec.ofNat 32 t.inEp.packet.length
  { t with inEp := { t.inEp with
      xferBuf := t.inEp.xferBuf.map (· + t.inEp.packet.length)
      xferLen := t.inEp.xferLen - writeCount
      actualXferLen := t.inEp.actualXferLen + writeCount
      txValid := false
      sent := t.inEp.sent ++ t.inEp.packet } }

/-- What `USBD_IRQHandler` does when the host has taken a packet from the IN
    endpoint. -/
def usbdIrqHandler : UsbTx :=
  let t := t.packetSent
  if t.inEp.xferLen = 0 then t.usbdEventEpInCompleteHandler
  else
    let writeCount := minLen t.inEp.xferLen (t.inEp.epMps.setWidth 32)
    { t with inEp := { t.inEp with
        packet := t.poolBytes t.inEp.xferBuf writeCount, txValid := true } }

/-! ## The library's side -/

/-- `lsejtag_impl_usbtx_free_len`. -/
def lsejtagImplUsbtxFreeLen : Nat := t.rbEjtagWrite.getFree.toNat

/-- The ring write of `lsejtag_impl_usbtx`. -/
def ringbufferWrite (data : List Byte) : UsbTx :=
  { t with rbEjtagWrite := t.rbEjtagWrite.write data }.log (.usbtx data)

/-- `lsejtag_impl_usbtx`. -/
def lsejtagImplUsbtx (data : List Byte) : UsbTx :=
  let t := t.ringbufferWrite data
  if !t.epTxBusyFlag then { t.sendOldest with epTxBusyFlag := true } else t

/-- `init_cherryusb`, with the driver state cleared. -/
def initCherryusb (pool : Vector Byte (2 ^ 8)) : UsbTx where
  rbEjtagWrite := .init pool ChryRingbuffer.usbRing_small
  epTxBusyFlag := false
  txMsgEpMps := 0
  inEp := ⟨0, false, none, 0, 0, false, [], []⟩
  trace := []

end UsbTx

/-! ## The machine -/

inductive UsbTxInput where
  | usbtx (data : List Byte)
  | inComplete
deriving DecidableEq

/-- A call of `lsejtag_impl_usbtx` with data that fit, and the completion of the
    packet of an outstanding transfer, each in one step. -/
def usbTxStep (t : UsbTx) : UsbTxInput → Option UsbTx
  | .usbtx data =>
    if data.length ≤ t.lsejtagImplUsbtxFreeLen then some (t.lsejtagImplUsbtx data) else none
  | .inComplete => if t.inEp.txValid then some t.usbdIrqHandler else none

/-- Whatever was in the pool before; the configuration event leaves the IN path
    alone. -/
def usbTx : Machine UsbTx UsbTxInput where
  init t := ∃ pool, t = (UsbTx.initCherryusb pool).usbdSetEndpoint
  step := usbTxStep

end LoongsonEjtag
