import LoongsonEjtag.Pma
import LoongsonEjtag.Lib.Machine

/-! # The driver of the USB controller

`usb_dc_fsdev.c` down to the endpoint registers and the packet memory, and the controller
with them.

* `Fsdev` — the registers, the packet memory and `g_fsdev_udc`.
* `usbdEpOpen`, `usbdEpStartWrite`, `usbdEpStartRead` — what `usbd_core.c` and the callbacks
  call.
* `usbdIrqIn`, `usbdIrqOut` — `USBD_IRQHandler` for a packet that the host has taken or sent.
* `fsdev` — calls, interrupts and transactions on the bus in any order, from a bus reset on.
-/

namespace LoongsonEjtag

open Lib (Byte Machine)

/-! ## State -/

/-- `struct fsdev_ep_state`, but for `ep_stalled`, which nothing uses.  `xferBuf` is what is
    at the pointer, and `copied` what has been copied to the places before it. -/
structure FsdevEp where
  epMps : Nat
  epType : BitVec 2
  epEnable : Bool
  epPmaBufLen : Nat
  epPmaAddr : Nat
  xferBuf : Nat → Byte
  xferLen : BitVec 32
  actualXferLen : BitVec 32
  copied : List Byte

inductive FsdevEvent where
  | startWrite (ep : Nat) (data : List Byte)
  | inPacket (ep : Nat) (packet : List Byte)
  | inComplete (ep : Nat) (nbytes : BitVec 32)
  | startRead (ep : Nat) (dataLen : BitVec 32)
  | outPacket (ep : Nat) (packet : List Byte)
  | outComplete (ep : Nat) (data : List Byte) (nbytes : BitVec 32)
  | setup (packet : List Byte)
deriving DecidableEq, Repr

/-- The endpoint and the direction of an event. -/
def FsdevEvent.of : FsdevEvent → EpDir × Nat
  | .startWrite ep _ | .inPacket ep _ | .inComplete ep _ => (.tx, ep)
  | .startRead ep _ | .outPacket ep _ | .outComplete ep _ _ => (.rx, ep)
  | .setup _ => (.rx, 0)

/-- `in_ep` of `g_fsdev_udc` is `ep .tx`, and `out_ep` is `ep .rx`.  There is a register for
    every index of these arrays here; the controller has `EP0R` to `EP7R`. -/
structure Fsdev where
  epr : Nat → BitVec 16
  pma : Pma
  pmaOffset : Nat
  ep : EpDir → Nat → FsdevEp
  /-- History. -/
  trace : List FsdevEvent

namespace Fsdev

variable (s : Fsdev)

def side (dir : EpDir) (e : Nat) : EpSide := dir.view (s.epr e)

def setEpr (e : Nat) (reg : BitVec 16) : Fsdev := { s with epr := Function.update s.epr e reg }

/-- One of the macros of `usb_fsdev_reg.h` that write an endpoint register. -/
def update (e : Nat) (u : EpUpdate) : Fsdev :=
  s.setEpr e (usbEp.store (s.epr e) (u.value (s.epr e)))

/-- `PCD_CLEAR_RX_DTOG` and `PCD_CLEAR_TX_DTOG`. -/
def clearDtog (dir : EpDir) (e : Nat) : Fsdev :=
  if s.epr e &&& usbEpDtog dir ≠ 0 then s.update e (.dtog dir) else s

def setEp (dir : EpDir) (e : Nat) (ep : FsdevEp) : Fsdev :=
  { s with ep := fun d i => if (d, i) = (dir, e) then ep else s.ep d i }

def storePma (addr : Nat) (value : BitVec 16) : Fsdev :=
  { s with pma := Function.update s.pma addr value }

def writePma (buf : Nat → Byte) (addr n : Nat) : Fsdev :=
  { s with pma := fsdevWritePma s.pma buf addr n }

def log (event : FsdevEvent) : Fsdev := { s with trace := s.trace ++ [event] }

/-! ## Opening an endpoint -/

end Fsdev

structure UsbEndpointDescriptor where
  bEndpointAddress : Byte
  bmAttributes : Byte
  wMaxPacketSize : BitVec 16
deriving DecidableEq, Repr

/-- `USB_EP_GET_IDX`. -/
def usbEpGetIdx (ep : Byte) : Nat := (ep &&& 0x7f).toNat

/-- `USB_EP_DIR_IS_OUT` or not. -/
def usbEpDir (ep : Byte) : EpDir := if ep &&& 0x80 = 0 then .rx else .tx

namespace UsbEndpointDescriptor

variable (ep : UsbEndpointDescriptor)

def idx : Nat := usbEpGetIdx ep.bEndpointAddress

def dir : EpDir := usbEpDir ep.bEndpointAddress

/-- `USB_GET_MAXPACKETSIZE`. -/
def mps : Nat := (ep.wMaxPacketSize &&& 0x7ff).toNat

/-- `USB_GET_ENDPOINT_TYPE`. -/
def type : BitVec 2 := ep.bmAttributes.setWidth 2

/-- `wEpRegVal`, in its field; isochronous endpoints are not supported. -/
def wEpRegVal : Option (BitVec 2) :=
  match ep.type with
  | 0 => some 1
  | 1 => none
  | 2 => some 0
  | 3 => some 3

end UsbEndpointDescriptor

def configUsbdevEpNum : Nat := 16
def configUsbFsdevRamSize : Nat := 512

/-- `USB_BTABLE_SIZE`. -/
def usbBtableSize : Nat := 8 * configUsbdevEpNum

namespace Fsdev

variable (s : Fsdev)

/-- The type and the address in the register, and the fields that are set before the buffer
    is looked at. -/
def configure (ep : UsbEndpointDescriptor) (wEpRegVal : BitVec 2) : Fsdev :=
  ((s.update ep.idx (.setType wEpRegVal)).update ep.idx (.setAddress (BitVec.ofNat 4 ep.idx))).setEp
    ep.dir ep.idx { s.ep ep.dir ep.idx with
      epMps := ep.mps
      epType := ep.type
      epEnable := true }

/-- The buffer for an endpoint whose packets do not fit the one it has. -/
def allocate (dir : EpDir) (e mps : Nat) : Fsdev :=
  { (s.setEp dir e { s.ep dir e with epPmaBufLen := mps, epPmaAddr := s.pmaOffset }).storePma
      (pcdEpAddress dir e) (evenAddress (BitVec.ofNat 32 s.pmaOffset)) with
    pmaOffset := s.pmaOffset + mps }

/-- The end of `usbd_ep_open`. -/
def opened (dir : EpDir) (e mps : Nat) : Fsdev :=
  match dir with
  | .rx =>
    (s.storePma (pcdEpCnt .rx e) (pcdSetEpCntRxReg (s.pma (pcdEpCnt .rx e)) mps)).clearDtog .rx e
  | .tx => (s.clearDtog .tx e).update e (.setStatus .tx .nak)

/-- `usbd_ep_open`, with what it returns. -/
def usbdEpOpen (ep : UsbEndpointDescriptor) : Int × Fsdev :=
  if ep.idx > configUsbdevEpNum - 1 then (-1, s)
  else
    match ep.wEpRegVal with
    | none => (-1, s)
    | some wEpRegVal =>
      let s := s.configure ep wEpRegVal
      if ep.mps > (s.ep ep.dir ep.idx).epPmaBufLen then
        if s.pmaOffset + ep.mps > configUsbFsdevRamSize then (-1, s)
        else (0, (s.allocate ep.dir ep.idx ep.mps).opened ep.dir ep.idx ep.mps)
      else (0, s.opened ep.dir ep.idx ep.mps)

/-! ## Transfers -/

/-- `n` bytes at the pointer are ready for the host. -/
def offer (e n : Nat) : Fsdev :=
  ((s.writePma (s.ep .tx e).xferBuf (s.ep .tx e).epPmaAddr n).storePma (pcdEpCnt .tx e)
    (BitVec.ofNat 16 n)).update e (.setStatus .tx .valid)

/-- A transfer to the host from a buffer. -/
def writeFrom (e : Nat) (data : Nat → Byte) (dataLen : BitVec 32) : Fsdev :=
  let s := s.setEp .tx e { s.ep .tx e with
    xferBuf := data
    xferLen := dataLen
    actualXferLen := 0 }
  (s.offer e (min dataLen.toNat (s.ep .tx e).epMps)).log
    (.startWrite e ((List.range dataLen.toNat).map data))

/-- `usbd_ep_start_write`; the pointer `data` is null or has bytes behind it. -/
def usbdEpStartWrite (ep : Byte) (data : Option (Nat → Byte)) (dataLen : BitVec 32) :
    Int × Fsdev :=
  let e := usbEpGetIdx ep
  if data.isNone ∧ dataLen ≠ 0 then (-1, s)
  else if !(s.ep .tx e).epEnable then (-2, s)
  else (0, s.writeFrom e (data.getD fun _ => 0) dataLen)

/-- A transfer from the host into a buffer. -/
def readInto (e : Nat) (dataLen : BitVec 32) : Fsdev :=
  let s := s.setEp .rx e { s.ep .rx e with
    copied := []
    xferLen := dataLen
    actualXferLen := 0 }
  (s.update e (.setStatus .rx .valid)).log (.startRead e dataLen)

/-- `usbd_ep_start_read`; `null` is whether the pointer is. -/
def usbdEpStartRead (ep : Byte) (null : Bool) (dataLen : BitVec 32) : Int × Fsdev :=
  let e := usbEpGetIdx ep
  if null = true ∧ dataLen ≠ 0 then (-1, s)
  else if !(s.ep .rx e).epEnable then (-2, s)
  else (0, s.readInto e dataLen)

/-- `usbd_ep_set_stall`. -/
def usbdEpSetStall (ep : Byte) : Fsdev :=
  s.update (usbEpGetIdx ep) (.setStatus (usbEpDir ep) .stall)

/-! ## Interrupts -/

/-- The flag is cleared, and the transfer moved on by the packet that the host has taken. -/
def inTaken (e : Nat) : Fsdev :=
  let s := s.update e (.clearCtr .tx)
  let writeCount := packetCount (s.pma (pcdEpCnt .tx e))
  s.setEp .tx e { s.ep .tx e with
    xferBuf := fun k => (s.ep .tx e).xferBuf (k + writeCount)
    xferLen := (s.ep .tx e).xferLen - BitVec.ofNat 32 writeCount
    actualXferLen := (s.ep .tx e).actualXferLen + BitVec.ofNat 32 writeCount }

/-- `read_count`, which has 8 bits. -/
def readCount (e : Nat) : Nat := packetCount (s.pma (pcdEpCnt .rx e)) % 2 ^ 8

/-- The same, with the packet that the host has sent. -/
def outArrived (e : Nat) : Fsdev :=
  let s := s.update e (.clearCtr .rx)
  s.setEp .rx e { s.ep .rx e with
    copied := (s.ep .rx e).copied ++ fsdevReadPma s.pma (s.ep .rx e).epPmaAddr (s.readCount e)
    xferLen := (s.ep .rx e).xferLen - BitVec.ofNat 32 (s.readCount e)
    actualXferLen := (s.ep .rx e).actualXferLen + BitVec.ofNat 32 (s.readCount e) }

/-- `USBD_IRQHandler` with `USB_EP_CTR_TX`, for an endpoint other than 0. -/
def usbdIrqIn (e : Nat) : Fsdev :=
  let s := s.inTaken e
  if (s.ep .tx e).xferLen = 0 then s.log (.inComplete e (s.ep .tx e).actualXferLen)
  else s.offer e (min (s.ep .tx e).xferLen.toNat (s.ep .tx e).epMps)

/-- The same with `USB_EP_CTR_RX`. -/
def usbdIrqOut (e : Nat) : Fsdev :=
  let readCount := s.readCount e
  let s := s.outArrived e
  if readCount < (s.ep .rx e).epMps ∨ (s.ep .rx e).xferLen = 0 then
    s.log (.outComplete e (s.ep .rx e).copied (s.ep .rx e).actualXferLen)
  else s.update e (.setStatus .rx .valid)

/-- `USBD_IRQHandler` for endpoint 0, up to the callback; what is behind it are calls and the
    device address. -/
def usbdIrqEp0In : Fsdev :=
  let s := s.inTaken 0
  s.log (.inComplete 0 (s.ep .tx 0).actualXferLen)

def usbdIrqEp0Out : Fsdev :=
  let s := s.outArrived 0
  s.log (.outComplete 0 (s.ep .rx 0).copied (s.ep .rx 0).actualXferLen)

def usbdIrqEp0Setup : Fsdev :=
  let s := s.update 0 (.clearCtr .rx)
  s.log (.setup (fsdevReadPma s.pma (s.ep .rx 0).epPmaAddr (s.readCount 0)))

/-! ## The controller -/

def transaction (e : Nat) (t : EpTransaction) : Fsdev := s.setEpr e (t.next (s.epr e))

/-- What the controller sends. -/
def packetOffered (e : Nat) : List Byte :=
  s.pma.bytes (s.pma (pcdEpAddress .tx e)).toNat (packetCount (s.pma (pcdEpCnt .tx e)))

/-- The host takes a packet. -/
def hostIn (e : Nat) : Fsdev := (s.transaction e (.done .tx)).log (.inPacket e (s.packetOffered e))

/-- The controller stores a packet; what is in the last half word behind an odd number of
    bytes is up to it. -/
def store (e : Nat) (packet : List Byte) (behind : Byte) : Fsdev :=
  (s.writePma (packet.getD · behind) (s.pma (pcdEpAddress .rx e)).toNat packet.length).storePma
    (pcdEpCnt .rx e) (countReceived (s.pma (pcdEpCnt .rx e)) packet.length)

/-- The host sends a packet. -/
def hostOut (e : Nat) (packet : List Byte) (behind : Byte) : Fsdev :=
  ((s.store e packet behind).transaction e (.done .rx)).log (.outPacket e packet)

/-- The host sends a SETUP packet. -/
def hostSetup (packet : List Byte) : Fsdev := (s.store 0 packet 0).transaction 0 .setup

end Fsdev

/-! ## The machine -/

inductive FsdevAction where
  | epOpen (ep : UsbEndpointDescriptor)
  | startWrite (ep : Byte) (data : Option (Nat → Byte)) (dataLen : BitVec 32)
  | startRead (ep : Byte) (null : Bool) (dataLen : BitVec 32)
  | setStall (ep : Byte)
  | hostIn (ep : Nat)
  | hostOut (ep : Nat) (packet : List Byte) (behind : Byte)
  | hostSetup (packet : List Byte)
  | irqIn (ep : Nat)
  | irqOut (ep : Nat)
  | irqSetup

/-- The endpoint, where the source has no check of it. -/
def FsdevAction.unchecked : FsdevAction → Nat
  | .epOpen _ | .hostSetup _ | .irqSetup => 0
  | .startWrite ep _ _ | .startRead ep _ _ | .setStall ep => usbEpGetIdx ep
  | .hostIn e | .hostOut e _ _ | .irqIn e | .irqOut e => e

namespace Fsdev

/-- A packet needs a valid direction, and room in its buffer; an interrupt its flag. -/
def act (s : Fsdev) : FsdevAction → Option Fsdev
  | .epOpen ep => some (s.usbdEpOpen ep).2
  | .startWrite ep data dataLen => some (s.usbdEpStartWrite ep data dataLen).2
  | .startRead ep null dataLen => some (s.usbdEpStartRead ep null dataLen).2
  | .setStall ep => some (s.usbdEpSetStall ep)
  | .hostIn e => if (s.side .tx e).stat = EpStatus.valid.code then some (s.hostIn e) else none
  | .hostOut e packet behind =>
    if (s.side .rx e).stat = EpStatus.valid.code ∧
        packet.length ≤ rxBlockBytes (s.pma (pcdEpCnt .rx e)) then
      some (s.hostOut e packet behind)
    else none
  | .hostSetup packet => if packet.length = 8 then some (s.hostSetup packet) else none
  | .irqIn e =>
    if (s.side .tx e).ctr then some (if e = 0 then s.usbdIrqEp0In else s.usbdIrqIn e) else none
  | .irqOut e =>
    if (s.side .rx e).ctr then some (if e = 0 then s.usbdIrqEp0Out else s.usbdIrqOut e) else none
  | .irqSetup => if (s.side .rx 0).ctr then some s.usbdIrqEp0Setup else none

/-- `none` is also an endpoint that the arrays do not have. -/
def step (s : Fsdev) (a : FsdevAction) : Option Fsdev :=
  if a.unchecked < configUsbdevEpNum then s.act a else none

end Fsdev

/-- `ep0` of `usbd_event_reset_handler`. -/
def ep0Descriptor (bEndpointAddress : Byte) : UsbEndpointDescriptor := ⟨bEndpointAddress, 0, 64⟩

/-- After the `memset` of `g_fsdev_udc`; the bus reset clears the endpoint registers. -/
def clearedUdc (pma : Pma) : Fsdev :=
  ⟨fun _ => 0, pma, usbBtableSize, fun _ _ => ⟨0, 0, false, 0, 0, fun _ => 0, 0, 0, []⟩, []⟩

/-- `usbd_event_reset_handler`, as far as the driver is concerned. -/
def usbdEventResetHandler (s : Fsdev) : Fsdev :=
  ((s.usbdEpOpen (ep0Descriptor 0x80)).2.usbdEpOpen (ep0Descriptor 0x00)).2

/-- What `USBD_IRQHandler` does after a bus reset. -/
def usbReset (pma : Pma) : Fsdev :=
  (usbdEventResetHandler (clearedUdc pma)).update 0 (.setStatus .rx .valid)

def fsdev : Machine Fsdev FsdevAction where
  init s := ∃ pma, s = usbReset pma
  step := Fsdev.step

end LoongsonEjtag
