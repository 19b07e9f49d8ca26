import LoongsonEjtag.FsdevSteps
import LoongsonEjtag.Lib.Pipe
import LoongsonEjtag.Lib.Simulation

/-! # The endpoints as pipes

* `Fsdev.inPipe`, `Fsdev.outPipe` — the transfers of an endpoint, as the caller and the host
  see them.
* `endpoints_are_pipes` — registers, packet memory and driver make up pipes, whatever else
  takes place.
* `transfers_arrive` — what the host takes and sends is in the transfers.
-/

namespace LoongsonEjtag

open Lib (Byte InPhase InPipe Machine OutPhase OutPipe)

namespace FsdevEvent

def written : FsdevEvent → List (List Byte)
  | .startWrite _ data => [data]
  | _ => []

def inBytes : FsdevEvent → List Byte
  | .inPacket _ packet => packet
  | _ => []

def inLength : FsdevEvent → List Nat
  | .inComplete _ nbytes => [nbytes.toNat]
  | _ => []

def outBytes : FsdevEvent → List Byte
  | .outPacket _ packet => packet
  | _ => []

def received : FsdevEvent → List (List Byte)
  | .outComplete _ data _ => [data]
  | _ => []

end FsdevEvent

namespace Fsdev

section pipes

variable (s : Fsdev) (e : Nat)

/-- What is left of a transfer to the host. -/
def left : List Byte := (List.range (s.ep .tx e).xferLen.toNat).map (s.ep .tx e).xferBuf

def inPhase : InPhase Byte :=
  if (s.side .tx e).ctr then .taken (s.left e) (s.ep .tx e).actualXferLen.toNat
  else if (s.side .tx e).stat = EpStatus.valid.code then
    .offered (s.left e) (s.ep .tx e).actualXferLen.toNat
  else .idle

def inPipe : InPipe Byte where
  mps := (s.ep .tx e).epMps
  phase := s.inPhase e
  started := (s.events .tx e).flatMap FsdevEvent.written
  got := (s.events .tx e).flatMap FsdevEvent.inBytes
  completed := (s.events .tx e).flatMap FsdevEvent.inLength

/-- What is in the packet memory. -/
def packetStored : List Byte :=
  s.pma.bytes (s.ep .rx e).epPmaAddr (packetCount (s.pma (pcdEpCnt .rx e)))

/-- The buffer of a transfer from the host. -/
def bufferLen : Nat := (s.ep .rx e).copied.length + (s.ep .rx e).xferLen.toNat

def outPhase : OutPhase Byte :=
  if (s.side .rx e).ctr then .arrived (s.bufferLen e) (s.ep .rx e).copied (s.packetStored e)
  else if (s.side .rx e).stat = EpStatus.valid.code then
    .armed (s.bufferLen e) (s.ep .rx e).copied
  else .idle

def outPipe : OutPipe Byte where
  mps := (s.ep .rx e).epMps
  phase := s.outPhase e
  sent := (s.events .rx e).flatMap FsdevEvent.outBytes
  received := (s.events .rx e).flatMap FsdevEvent.received

end pipes

variable {s s' : Fsdev} {e n : Nat}

theorem inPhase_idle (idle : ¬s.Busy .tx e) : s.inPhase e = .idle := by
  obtain ⟨flag, valid⟩ := not_or.mp idle
  rw [inPhase, if_neg flag, if_neg valid]

theorem outPhase_idle (idle : ¬s.Busy .rx e) : s.outPhase e = .idle := by
  obtain ⟨flag, valid⟩ := not_or.mp idle
  rw [outPhase, if_neg flag, if_neg valid]

/-- The lengths of a transfer that is moved on by a packet. -/
theorem toNat_moved {rest done : BitVec 32} (left : n ≤ rest.toNat)
    (total : done.toNat + n < 2 ^ 32) :
    (rest - BitVec.ofNat 32 n).toNat = rest.toNat - n ∧
      (done + BitVec.ofNat 32 n).toNat = done.toNat + n := by
  have small : (BitVec.ofNat 32 n).toNat = n := by
    rw [BitVec.toNat_ofNat, Nat.mod_eq_of_lt (by omega)]
  constructor
  · rw [BitVec.toNat_sub_of_le, small]
    rwa [BitVec.le_def, small]
  · rw [BitVec.toNat_add, small, Nat.mod_eq_of_lt total]

/-! ## To the host -/

/-- What is in the packet memory is the next packet of the transfer. -/
structure InInv (e : Nat) (s : Fsdev) : Prop where
  apart : (s.side .tx e).ctr = true → (s.side .tx e).stat ≠ EpStatus.valid.code
  count : s.Busy .tx e → s.pma (pcdEpCnt .tx e) =
    BitVec.ofNat 16 (min (s.ep .tx e).xferLen.toNat (s.ep .tx e).epMps)
  bytes : (s.side .tx e).stat = EpStatus.valid.code →
    s.pma.bytes (s.ep .tx e).epPmaAddr (min (s.ep .tx e).xferLen.toNat (s.ep .tx e).epMps) =
      (s.left e).take (s.ep .tx e).epMps
  total : s.Busy .tx e →
    (s.ep .tx e).actualXferLen.toNat + (s.ep .tx e).xferLen.toNat < 2 ^ 32

theorem take_left (s : Fsdev) (e : Nat) : (s.left e).take (s.ep .tx e).epMps =
    (List.range (min (s.ep .tx e).xferLen.toNat (s.ep .tx e).epMps)).map (s.ep .tx e).xferBuf := by
  rw [left, ← List.map_take, List.take_range, Nat.min_comm]

/-- A packet that is offered is in the packet memory. -/
theorem offer_packet (ready : s.Ready) (below : e < configUsbdevEpNum)
    (on : (s.ep .tx e).epEnable = true) (most : n ≤ (s.ep .tx e).epMps) :
    (s.offer e n).pma (pcdEpCnt .tx e) = BitVec.ofNat 16 n ∧
      (s.offer e n).pma.bytes (s.ep .tx e).epPmaAddr n =
        (List.range n).map (s.ep .tx e).xferBuf := by
  have fits := most.trans ((ready.each .tx e below).sized on).2
  constructor
  · simp [offer]
  · rw [← @bytes_write s.pma (s.ep .tx e).xferBuf (s.ep .tx e).epPmaAddr n]
    apply bytes_congr
    intro a least most
    have mem : (s.region .tx e).Mem a := ⟨least, by simp only [region]; omega⟩
    have low := (pcdEp_lt .tx below).2
    have high := (ready.buffers.within mem).1
    rw [offer, pma_update, pma_storePma, Function.update_of_ne (by omega), pma_writePma]

theorem offer_side (s : Fsdev) (e n : Nat) :
    (s.offer e n).side .tx e = { s.side .tx e with stat := EpStatus.valid.code } := by
  simp [offer, EpUpdate.effect]

theorem offer_ep (s : Fsdev) (e n : Nat) : (s.offer e n).ep = s.ep := rfl

theorem InInv.same (inv : InInv e s) (ready : ReadyAt .tx e s) (same : Same .tx e s s') :
    InInv e s' := by
  obtain ⟨apart, count, bytes, total⟩ := inv
  constructor
  · rwa [same.side]
  · rwa [Busy, same.side, same.ep, same.pma _ (.inr (.inl rfl))]
  · intro valid
    rw [same.side] at valid
    have fits := (ready.sized (ready.enabled (.inr valid))).2
    have left : s'.left e = s.left e := by rw [left, left, same.ep]
    rw [same.ep, left, ← bytes valid]
    apply bytes_congr
    intro a least most
    exact same.pma a (.inr (.inr ⟨least, by simp only [region]; omega⟩))
  · rwa [Busy, same.side, same.ep]

theorem inPipe_same (same : Same .tx e s s') : s'.inPipe e = s.inPipe e := by
  simp only [inPipe, inPhase, left, same.side, same.ep, same.events]

/-- The rest of a transfer is offered. -/
theorem InInv.offer (ready : s.Ready) (below : e < configUsbdevEpNum)
    (on : (s.ep .tx e).epEnable = true) (flag : (s.side .tx e).ctr = false)
    (total : (s.ep .tx e).actualXferLen.toNat + (s.ep .tx e).xferLen.toNat < 2 ^ 32)
    (is : n = min (s.ep .tx e).xferLen.toNat (s.ep .tx e).epMps) : InInv e (s.offer e n) := by
  obtain ⟨count, bytes⟩ := offer_packet (n := n) ready below on (by omega)
  constructor
  · rw [offer_side, flag]
    rintro ⟨⟩
  · rintro -
    rw [offer_ep, count, is]
  · rintro -
    rw [offer_ep, ← is, bytes, is, ← take_left]
    rfl
  · rintro -
    exact total

theorem offer_inPhase (flag : (s.side .tx e).ctr = false) :
    (s.offer e n).inPhase e = .offered (s.left e) (s.ep .tx e).actualXferLen.toNat := by
  rw [inPhase, offer_side, flag]
  rfl

/-- A call of `usbd_ep_start_write`. -/
theorem writeFrom_pipe (ready : s.Ready) (below : e < configUsbdevEpNum)
    (on : (s.ep .tx e).epEnable = true) (idle : ¬s.Busy .tx e) {data : Nat → Byte}
    {dataLen : BitVec 32} : InInv e (s.writeFrom e data dataLen) ∧
      (s.inPipe e).step (.start ((List.range dataLen.toNat).map data)) =
        some ((s.writeFrom e data dataLen).inPipe e) := by
  have flag : (s.side .tx e).ctr = false := Bool.eq_false_iff.mpr (not_or.mp idle).1
  let m := s.setEp .tx e { s.ep .tx e with xferBuf := data, xferLen := dataLen, actualXferLen := 0 }
  have fields : Local .tx e s m := .setEp rfl rfl rfl rfl
  have mEp : m.ep .tx e =
      { s.ep .tx e with xferBuf := data, xferLen := dataLen, actualXferLen := 0 } := if_pos rfl
  have on' : (m.ep .tx e).epEnable = true := fields.enable.trans on
  have offered : InInv e (m.offer e (min dataLen.toNat (m.ep .tx e).epMps)) := by
    apply InInv.offer (ready.local fields) below on' flag
    · rw [mEp]
      exact (Nat.zero_add _).trans_lt dataLen.isLt
    · rw [mEp]
  have left : m.left e = (List.range dataLen.toNat).map data := by rw [left, mEp]
  refine ⟨⟨offered.apart, offered.count, offered.bytes, offered.total⟩, ?_⟩
  have phase : (s.writeFrom e data dataLen).inPhase e =
      .offered ((List.range dataLen.toNat).map data) 0 := by
    have offer := @offer_inPhase m e (min dataLen.toNat (m.ep .tx e).epMps) flag
    rw [left, mEp] at offer
    exact offer
  simp only [inPipe, phase, inPhase_idle idle, InPipe.step]
  simp [writeFrom, Fsdev.offer, FsdevEvent.of, FsdevEvent.written, FsdevEvent.inBytes,
    FsdevEvent.inLength]

/-- The host takes the packet that is offered. -/
theorem hostIn_pipe (ready : s.Ready) (below : e < configUsbdevEpNum) (inv : InInv e s)
    (valid : (s.side .tx e).stat = EpStatus.valid.code) :
    InInv e (s.hostIn e) ∧ (s.inPipe e).step .take = some ((s.hostIn e).inPipe e) := by
  have flag : (s.side .tx e).ctr = false := Bool.eq_false_iff.mpr fun flag => inv.apart flag valid
  have at_e := ready.each .tx e below
  obtain ⟨some, sized⟩ := at_e.sized (at_e.enabled (.inr valid))
  have addr := at_e.described (Nat.lt_of_lt_of_le some sized)
  have small : min (s.ep .tx e).xferLen.toNat (s.ep .tx e).epMps < 1024 := by
    have most := ready.mps_le below (at_e.enabled (.inr valid))
    omega
  have packet : s.packetOffered e = (s.left e).take (s.ep .tx e).epMps := by
    rw [packetOffered, addr, inv.count (.inr valid), packetCount_ofNat small]
    exact inv.bytes valid
  have side : (s.hostIn e).side .tx e =
      ⟨true, !(s.side .tx e).dtog, EpStatus.nak.code⟩ := by
    simp [hostIn, EpTransaction.onSide, valid]
  constructor
  · constructor
    · rw [side]
      rintro - ⟨⟩
    · rintro -
      exact inv.count (.inr valid)
    · rw [side]
      rintro ⟨⟩
    · rintro -
      exact inv.total (.inr valid)
  · have before : s.inPhase e = .offered (s.left e) (s.ep .tx e).actualXferLen.toNat := by
      rw [inPhase, flag, valid]
      rfl
    have after : (s.hostIn e).inPhase e =
        .taken (s.left e) (s.ep .tx e).actualXferLen.toNat := by
      rw [inPhase, side]
      rfl
    simp only [inPipe, before, after, InPipe.step, ← packet]
    simp [hostIn, FsdevEvent.of, FsdevEvent.written, FsdevEvent.inBytes, FsdevEvent.inLength]

/-- The transfer, moved on by a packet. -/
theorem inTaken_transfer (ready : s.Ready) (below : e < configUsbdevEpNum) (inv : InInv e s)
    (flag : (s.side .tx e).ctr = true) :
    (s.inTaken e).left e = (s.left e).drop (s.ep .tx e).epMps ∧
      ((s.inTaken e).ep .tx e).actualXferLen.toNat = (s.ep .tx e).actualXferLen.toNat +
        ((s.left e).take (s.ep .tx e).epMps).length ∧
      ((s.inTaken e).ep .tx e).actualXferLen.toNat + ((s.inTaken e).ep .tx e).xferLen.toNat =
        (s.ep .tx e).actualXferLen.toNat + (s.ep .tx e).xferLen.toNat := by
  have most := ready.mps_le below ((ready.each .tx e below).enabled (.inl flag))
  have total := inv.total (.inl flag)
  obtain ⟨n, is⟩ : ∃ n, n = min (s.ep .tx e).xferLen.toNat (s.ep .tx e).epMps := ⟨_, rfl⟩
  have count : packetCount ((s.update e (.clearCtr .tx)).pma (pcdEpCnt .tx e)) = n := by
    rw [pma_update, inv.count (.inl flag), is]
    exact packetCount_ofNat (by omega)
  have moved : (s.inTaken e).ep .tx e = { s.ep .tx e with
      xferBuf := fun k => (s.ep .tx e).xferBuf (k + n)
      xferLen := (s.ep .tx e).xferLen - BitVec.ofNat 32 n
      actualXferLen := (s.ep .tx e).actualXferLen + BitVec.ofNat 32 n } := by
    simp only [inTaken, count]
    exact if_pos rfl
  obtain ⟨rest, done⟩ := @toNat_moved n (s.ep .tx e).xferLen (s.ep .tx e).actualXferLen (by omega)
    (by omega)
  have length : ((s.left e).take (s.ep .tx e).epMps).length = n := by
    rw [take_left, List.length_map, List.length_range, is]
  refine ⟨?_, ?_, ?_⟩
  · rw [left, moved]
    apply List.ext_getElem
    · simp only [rest, left, List.length_map, List.length_range, List.length_drop]
      omega
    · intro k inside _
      simp only [rest, List.length_map, List.length_range] at inside
      have same : k + n = (s.ep .tx e).epMps + k := by omega
      simp [left, same]
  · rw [moved, length]
    exact done
  · rw [moved]
    change ((s.ep .tx e).actualXferLen + BitVec.ofNat 32 n).toNat +
      ((s.ep .tx e).xferLen - BitVec.ofNat 32 n).toNat = _
    rw [done, rest]
    omega

/-- The interrupt for a packet that the host has taken. -/
theorem usbdIrqIn_pipe (ready : s.Ready) (below : e < configUsbdevEpNum) (inv : InInv e s)
    (flag : (s.side .tx e).ctr = true) :
    InInv e (s.usbdIrqIn e) ∧ (s.inPipe e).step .complete = some ((s.usbdIrqIn e).inPipe e) := by
  have on := (ready.each .tx e below).enabled (.inl flag)
  have taken : Local .tx e s (s.inTaken e) := local_inTaken
  obtain ⟨rest, count, same⟩ := inTaken_transfer ready below inv flag
  have total := inv.total (.inl flag)
  have side : (s.inTaken e).side .tx e = { s.side .tx e with ctr := false } := by
    simp [inTaken, EpUpdate.effect]
  have before : s.inPhase e = .taken (s.left e) (s.ep .tx e).actualXferLen.toNat := by
    rw [inPhase, flag]
    rfl
  have length : ((s.inTaken e).left e).length = ((s.inTaken e).ep .tx e).xferLen.toNat := by
    rw [left, List.length_map, List.length_range]
  simp only [inPipe, before, InPipe.step, InPipe.goOn, ← rest, ← count]
  rw [usbdIrqIn]
  by_cases ended : ((s.inTaken e).ep .tx e).xferLen = 0
  · have nothing : (s.inTaken e).left e = [] := by
      rw [← List.length_eq_zero_iff, length, ended]
      rfl
    have idle : ¬(s.inTaken e).Busy .tx e := by
      rw [Busy, side]
      exact not_or.mpr ⟨Bool.false_ne_true, inv.apart flag⟩
    have after : ((s.inTaken e).log (.inComplete e ((s.inTaken e).ep .tx e).actualXferLen)).inPhase
        e = .idle := inPhase_idle idle
    simp only [if_pos ended, if_pos nothing, after]
    constructor
    · have busy := not_or.mp idle
      exact ⟨fun now => absurd now busy.1, fun now => absurd now idle, fun now => absurd now busy.2,
        fun now => absurd now idle⟩
    · simp [inTaken, FsdevEvent.of, FsdevEvent.written, FsdevEvent.inBytes, FsdevEvent.inLength]
  · have something : (s.inTaken e).left e ≠ [] := by
      rw [Ne, ← List.length_eq_zero_iff, length]
      exact fun zero => ended (BitVec.eq_of_toNat_eq zero)
    have off : ((s.inTaken e).side .tx e).ctr = false := by rw [side]
    simp only [if_neg ended, if_neg something, offer_inPhase off]
    constructor
    · exact .offer (ready.local taken) below (taken.enable.trans on) off (same ▸ total) rfl
    · simp [inTaken, Fsdev.offer]

/-! ## From the host -/

structure OutInv (e : Nat) (s : Fsdev) : Prop where
  apart : (s.side .rx e).ctr = true → (s.side .rx e).stat ≠ EpStatus.valid.code
  count : s.Busy .rx e → (s.ep .rx e).actualXferLen.toNat = (s.ep .rx e).copied.length
  total : s.Busy .rx e → s.bufferLen e < 2 ^ 32
  told : ∀ data nbytes, .outComplete e data nbytes ∈ s.events .rx e → nbytes.toNat = data.length

theorem OutInv.same (inv : OutInv e s) (same : Same .rx e s s') : OutInv e s' := by
  obtain ⟨apart, count, total, told⟩ := inv
  constructor
  · rwa [same.side]
  · rwa [Busy, same.side, same.ep]
  · rwa [Busy, same.side, bufferLen, same.ep]
  · rwa [same.events]

theorem outPipe_same (ready : s.Ready) (below : e < configUsbdevEpNum)
    (same : Same .rx e s s') (fits : (s.side .rx e).ctr = true →
      packetCount (s.pma (pcdEpCnt .rx e)) ≤ (s.ep .rx e).epMps) : s'.outPipe e = s.outPipe e := by
  have stored : (s.side .rx e).ctr = true → s'.packetStored e = s.packetStored e := by
    intro flag
    have at_e := ready.each .rx e below
    have room := (at_e.sized (at_e.enabled (.inl flag))).2
    have most := fits flag
    rw [packetStored, packetStored, same.ep, same.pma _ (.inr (.inl rfl))]
    apply bytes_congr
    intro a least last
    exact same.pma a (.inr (.inr ⟨least, by simp only [region]; omega⟩))
  have phase : s'.outPhase e = s.outPhase e := by
    simp only [outPhase, bufferLen, same.side, same.ep]
    split
    case isTrue flag => rw [stored flag]
    case isFalse => rfl
  rw [outPipe, outPipe, phase, same.ep, same.events]

/-- The packet that has come in is one of the pipe's. -/
theorem packetStored_le (reach : OutPipe.machine.Reachable (s.outPipe e))
    (flag : (s.side .rx e).ctr = true) :
    packetCount (s.pma (pcdEpCnt .rx e)) ≤ (s.ep .rx e).epMps ∧
      packetCount (s.pma (pcdEpCnt .rx e)) ≤ (s.ep .rx e).xferLen.toNat := by
  have conserved := OutPipe.conserved reach
  have arrived : (s.outPipe e).phase =
      .arrived (s.bufferLen e) (s.ep .rx e).copied (s.packetStored e) := if_pos flag
  have length : (s.packetStored e).length = packetCount (s.pma (pcdEpCnt .rx e)) :=
    length_bytes _ _ _
  have inside := conserved.inside arrived
  have fits := conserved.fits
  simp only [OutPipe.Fits, arrived] at fits
  obtain ⟨-, -, -, most⟩ := fits
  rw [length] at most inside
  refine ⟨most, ?_⟩
  rw [bufferLen] at inside
  omega

theorem readInto_ep (s : Fsdev) (e : Nat) (dataLen : BitVec 32) :
    (s.readInto e dataLen).ep .rx e =
      { s.ep .rx e with copied := [], xferLen := dataLen, actualXferLen := 0 } :=
  if_pos rfl

/-- A call of `usbd_ep_start_read`. -/
theorem readInto_pipe (inv : OutInv e s) (idle : ¬s.Busy .rx e) {dataLen : BitVec 32}
    (room : 0 < dataLen.toNat) (whole : (s.ep .rx e).epMps ∣ dataLen.toNat) :
    OutInv e (s.readInto e dataLen) ∧
      (s.outPipe e).step (.start dataLen.toNat) = some ((s.readInto e dataLen).outPipe e) := by
  have flag : (s.side .rx e).ctr = false := Bool.eq_false_iff.mpr (not_or.mp idle).1
  have side : (s.readInto e dataLen).side .rx e =
      ⟨false, (s.side .rx e).dtog, EpStatus.valid.code⟩ := by
    simp [readInto, EpUpdate.effect, flag]
  have events : (s.readInto e dataLen).events .rx e =
      s.events .rx e ++ [.startRead e dataLen] := by
    simp [readInto, FsdevEvent.of]
  have len : (s.readInto e dataLen).bufferLen e = dataLen.toNat := by
    rw [bufferLen, readInto_ep]
    exact Nat.zero_add _
  constructor
  · constructor
    · rw [side]
      rintro ⟨⟩
    · rintro -
      rw [readInto_ep]
      rfl
    · rintro -
      rw [len]
      exact dataLen.isLt
    · intro data nbytes told
      rw [events, List.mem_append, List.mem_singleton] at told
      exact inv.told data nbytes (told.resolve_right fun is => by cases is)
  · have after : (s.readInto e dataLen).outPhase e = .armed dataLen.toNat [] := by
      rw [outPhase, side, len, readInto_ep]
      rfl
    simp only [outPipe, outPhase_idle idle, after, OutPipe.step, events, readInto_ep,
      if_pos (And.intro room whole)]
    simp [FsdevEvent.outBytes, FsdevEvent.received]

/-- The host sends a packet. -/
theorem hostOut_pipe (ready : s.Ready) (below : e < configUsbdevEpNum) (inv : OutInv e s)
    (valid : (s.side .rx e).stat = EpStatus.valid.code) {packet : List Byte} {behind : Byte}
    (most : packet.length ≤ (s.ep .rx e).epMps) :
    OutInv e (s.hostOut e packet behind) ∧
      (s.outPipe e).step (.send packet) = some ((s.hostOut e packet behind).outPipe e) := by
  have flag : (s.side .rx e).ctr = false := Bool.eq_false_iff.mpr fun flag => inv.apart flag valid
  have at_e := ready.each .rx e below
  have on := at_e.enabled (.inr valid)
  obtain ⟨positive, sized⟩ := at_e.sized on
  have addr := at_e.described (Nat.lt_of_lt_of_le positive sized)
  have few := (at_e.room rfl on).1
  have side : (s.hostOut e packet behind).side .rx e =
      ⟨true, !(s.side .rx e).dtog, EpStatus.nak.code⟩ := by
    simp [hostOut, store, EpTransaction.onSide, valid]
  have ep : (s.hostOut e packet behind).ep = s.ep := rfl
  have len : (s.hostOut e packet behind).bufferLen e = s.bufferLen e := rfl
  have events : (s.hostOut e packet behind).events .rx e =
      s.events .rx e ++ [.outPacket e packet] := by
    simp [hostOut, store, FsdevEvent.of]
  have stored : (s.hostOut e packet behind).packetStored e = packet := by
    have count : packetCount ((s.hostOut e packet behind).pma (pcdEpCnt .rx e)) =
        packet.length := by
      simp only [hostOut, store, pma_log, pma_transaction, pma_storePma, Function.update_self]
      exact packetCount_received _ (by omega)
    have copy : (List.range packet.length).map (packet.getD · behind) = packet := by
      apply List.ext_getElem
      · rw [List.length_map, List.length_range]
      · intro k _ inside
        simp [inside]
    have written : (fsdevWritePma s.pma (packet.getD · behind) (s.ep .rx e).epPmaAddr
        packet.length).bytes (s.ep .rx e).epPmaAddr packet.length = packet :=
      bytes_write.trans copy
    rw [packetStored, count, ep]
    refine Eq.trans ?_ written
    apply bytes_congr
    intro a least last
    have mem : (s.region .rx e).Mem a := ⟨least, by simp only [region]; omega⟩
    have low := (pcdEp_lt .rx below).2
    have high := (ready.buffers.within mem).1
    simp only [hostOut, store, pma_log, pma_transaction, pma_storePma, pma_writePma, addr]
    rw [Function.update_of_ne (by omega)]
  constructor
  · constructor
    · rw [side]
      rintro - ⟨⟩
    · rintro -
      exact inv.count (.inr valid)
    · rintro -
      exact inv.total (.inr valid)
    · intro data nbytes told
      rw [events, List.mem_append, List.mem_singleton] at told
      exact inv.told data nbytes (told.resolve_right fun is => by cases is)
  · have before : s.outPhase e = .armed (s.bufferLen e) (s.ep .rx e).copied := by
      rw [outPhase, flag, valid]
      rfl
    have after : (s.hostOut e packet behind).outPhase e =
        .arrived (s.bufferLen e) (s.ep .rx e).copied packet := by
      rw [outPhase, side, stored]
      rfl
    simp only [outPipe, before, after, OutPipe.step, events, ep, if_pos most]
    simp [FsdevEvent.outBytes, FsdevEvent.received]

/-- The transfer, moved on by the packet that has come in. -/
theorem outArrived_transfer (ready : s.Ready) (below : e < configUsbdevEpNum) (inv : OutInv e s)
    (reach : OutPipe.machine.Reachable (s.outPipe e)) (flag : (s.side .rx e).ctr = true) :
    s.readCount e = (s.packetStored e).length ∧
      ((s.outArrived e).ep .rx e).copied = (s.ep .rx e).copied ++ s.packetStored e ∧
      (s.outArrived e).bufferLen e = s.bufferLen e ∧
      ((s.outArrived e).ep .rx e).actualXferLen.toNat =
        ((s.ep .rx e).copied ++ s.packetStored e).length := by
  obtain ⟨most, inside⟩ := packetStored_le reach flag
  have at_e := ready.each .rx e below
  have few := (at_e.room rfl (at_e.enabled (.inl flag))).1
  have total := inv.total (.inl flag)
  have length : (s.packetStored e).length = packetCount (s.pma (pcdEpCnt .rx e)) :=
    length_bytes _ _ _
  have readCount : s.readCount e = packetCount (s.pma (pcdEpCnt .rx e)) :=
    Nat.mod_eq_of_lt (by omega)
  obtain ⟨n, is⟩ : ∃ n, n = s.readCount e := ⟨_, rfl⟩
  have stored : fsdevReadPma s.pma (s.ep .rx e).epPmaAddr n = s.packetStored e := by
    rw [fsdevReadPma_eq, is, readCount, packetStored]
  have moved : (s.outArrived e).ep .rx e = { s.ep .rx e with
      copied := (s.ep .rx e).copied ++ s.packetStored e
      xferLen := (s.ep .rx e).xferLen - BitVec.ofNat 32 n
      actualXferLen := (s.ep .rx e).actualXferLen + BitVec.ofNat 32 n } := by
    rw [← stored, is]
    exact if_pos rfl
  have count := inv.count (.inl flag)
  rw [bufferLen] at total
  obtain ⟨rest, done⟩ := @toNat_moved n (s.ep .rx e).xferLen (s.ep .rx e).actualXferLen (by omega)
    (by omega)
  refine ⟨readCount.trans length.symm, ?_, ?_, ?_⟩
  · rw [moved]
  · rw [bufferLen, bufferLen, moved]
    change ((s.ep .rx e).copied ++ s.packetStored e).length +
      ((s.ep .rx e).xferLen - BitVec.ofNat 32 n).toNat = _
    rw [rest, List.length_append, length]
    omega
  · rw [moved]
    change ((s.ep .rx e).actualXferLen + BitVec.ofNat 32 n).toNat = _
    rw [done, count, List.length_append, length]
    omega

/-- The interrupt for a packet that the host has sent. -/
theorem usbdIrqOut_pipe (ready : s.Ready) (below : e < configUsbdevEpNum) (inv : OutInv e s)
    (reach : OutPipe.machine.Reachable (s.outPipe e)) (flag : (s.side .rx e).ctr = true) :
    OutInv e (s.usbdIrqOut e) ∧
      (s.outPipe e).step .complete = some ((s.usbdIrqOut e).outPipe e) := by
  obtain ⟨readCount, copied, len, actual⟩ := outArrived_transfer ready below inv reach flag
  have total := inv.total (.inl flag)
  have mps : ((s.outArrived e).ep .rx e).epMps = (s.ep .rx e).epMps := local_outArrived.mps
  have side : (s.outArrived e).side .rx e = { s.side .rx e with ctr := false } := by
    simp [outArrived, EpUpdate.effect]
  have events : (s.outArrived e).events .rx e = s.events .rx e := by simp [outArrived]
  have before : s.outPhase e =
      .arrived (s.bufferLen e) (s.ep .rx e).copied (s.packetStored e) := if_pos flag
  have full : ((s.ep .rx e).copied ++ s.packetStored e).length = s.bufferLen e ↔
      ((s.outArrived e).ep .rx e).xferLen = 0 := by
    rw [← len, bufferLen, copied, ← BitVec.toNat_inj]
    change _ ↔ _ = 0
    omega
  simp only [outPipe, before, OutPipe.step, OutPipe.goOn, full, ← readCount]
  rw [usbdIrqOut]
  by_cases ended : s.readCount e < (s.ep .rx e).epMps ∨ ((s.outArrived e).ep .rx e).xferLen = 0
  · have idle : ¬(s.outArrived e).Busy .rx e := by
      rw [Busy, side]
      exact not_or.mpr ⟨Bool.false_ne_true, inv.apart flag⟩
    have after : ((s.outArrived e).log (.outComplete e ((s.outArrived e).ep .rx e).copied
        ((s.outArrived e).ep .rx e).actualXferLen)).outPhase e = .idle := outPhase_idle idle
    simp only [mps, if_pos ended, after]
    constructor
    · have busy := not_or.mp idle
      refine ⟨fun now => absurd now busy.1, fun now => absurd now idle, fun now => absurd now idle,
        ?_⟩
      intro data nbytes told
      rw [events_log, List.mem_append, FsdevEvent.of, if_pos rfl, List.mem_singleton] at told
      obtain earlier | now := told
      · exact inv.told data nbytes earlier
      · cases now
        rw [actual, copied]
    · simp [events, copied, mps, FsdevEvent.of, FsdevEvent.outBytes, FsdevEvent.received]
  · have off : ((s.outArrived e).side .rx e).ctr = false := by rw [side]
    have side' : ((s.outArrived e).update e (.setStatus .rx .valid)).side .rx e =
        { (s.outArrived e).side .rx e with stat := EpStatus.valid.code } := by
      simp [EpUpdate.effect]
    have after : ((s.outArrived e).update e (.setStatus .rx .valid)).outPhase e =
        .armed (s.bufferLen e) ((s.ep .rx e).copied ++ s.packetStored e) := by
      rw [outPhase, side', off, ← copied, ← len]
      rfl
    simp only [mps, if_neg ended, after]
    constructor
    · constructor
      · rw [side', off]
        rintro ⟨⟩
      · rintro -
        rw [ep_update, actual, copied]
      · rintro -
        exact len ▸ total
      · exact inv.told
    · simp [events, mps]

/-! ## Steps and runs -/

/-- A bus reset leaves the other endpoints cleared. -/
theorem usbReset_other (pma : Pma) (d : EpDir) (positive : 0 < e) (below : e < configUsbdevEpNum) :
    Same d e (clearedUdc pma) (usbReset pma) := by
  obtain ⟨first, second⟩ := opened_ep0 pma
  have other : ∀ dir : EpDir, (d, e) ≠ (dir, 0) := by
    rintro dir ⟨⟩
    exact absurd positive (Nat.lt_irrefl 0)
  apply ((first.same d e below (other _)).trans (second.same d e below (other _))).trans
  exact .update fun is => absurd is (Nat.ne_of_gt positive)

theorem OpenedAt.inPipe {ep : UsbEndpointDescriptor} (opened : OpenedAt ep s s')
    (dir : ep.dir = .tx) (idx : ep.idx = e) (idle : ¬s.Busy .tx e) :
    InInv e s' ∧ (s.inPipe e).step (.size ep.mps) = some (s'.inPipe e) := by
  have side := opened.side
  have mps := opened.mps
  rw [dir, idx] at side mps
  have idle' : ¬s'.Busy .tx e := by
    rw [Busy, side]
    exact not_or.mpr ⟨(not_or.mp idle).1, fun valid => by cases valid⟩
  constructor
  · have busy := not_or.mp idle'
    exact ⟨fun now => absurd now busy.1, fun now => absurd now idle', fun now => absurd now busy.2,
      fun now => absurd now idle'⟩
  · simp only [Fsdev.inPipe, inPhase_idle idle, inPhase_idle idle', InPipe.step, mps, opened.events]

theorem OpenedAt.outPipe {ep : UsbEndpointDescriptor} (opened : OpenedAt ep s s')
    (dir : ep.dir = .rx) (idx : ep.idx = e) (idle : ¬s.Busy .rx e) (inv : OutInv e s) :
    OutInv e s' ∧ (s.outPipe e).step (.size ep.mps) = some (s'.outPipe e) := by
  have side := opened.side
  have mps := opened.mps
  rw [dir, idx] at side mps
  have idle' : ¬s'.Busy .rx e := by
    rw [Busy, side]
    exact idle
  constructor
  · have busy := not_or.mp idle'
    refine ⟨fun now => absurd now busy.1, fun now => absurd now idle', fun now => absurd now idle',
      ?_⟩
    rw [opened.events]
    exact inv.told
  · simp only [Fsdev.outPipe, outPhase_idle idle, outPhase_idle idle', OutPipe.step, mps,
      opened.events]

/-- One step of the driver, or of the host, at the IN direction of an endpoint. -/
theorem inPipe_step {a : FsdevAction} (positive : 0 < e) (below : e < configUsbdevEpNum)
    (ready : s.Ready) (control : s.Control) (inv : InInv e s) (allowed : s.Allowed a)
    (stepped : s.step a = some s') :
    InInv e s' ∧
      ∃ actions, InPipe.machine.run Machine.anyAction (s.inPipe e) actions =
        some (s'.inPipe e) := by
  obtain ⟨-, -, elsewhere⟩ := step_ready ready control allowed stepped
  by_cases here : a.At .tx e
  case neg =>
    have same := elsewhere .tx e below here
    exact ⟨inv.same (ready.each .tx e below) same, Machine.run_stutter (inPipe_same same)⟩
  rw [step] at stepped
  split at stepped
  case isFalse => cases stepped
  cases a with
  | epOpen ep =>
    obtain ⟨ok, -, idle, -, even, -⟩ := allowed
    obtain ⟨dir, idx⟩ := Prod.mk.inj here
    rw [← dir, ← idx] at idle
    cases stepped
    have opened := usbdEpOpen_opened ready.buffers ok even
    obtain ⟨inv', sized⟩ := opened.inPipe dir.symm idx.symm idle
    exact ⟨inv', Machine.run_once (b := .size ep.mps) sized⟩
  | startWrite ep data dataLen =>
    obtain ⟨-, rfl⟩ := Prod.mk.inj here
    cases stepped
    obtain nothing | ⟨on, buf, is⟩ := usbdEpStartWrite_cases s ep data dataLen
    · rw [nothing]
      exact ⟨inv, Machine.run_stutter rfl⟩
    · rw [is]
      obtain ⟨inv', started⟩ := @writeFrom_pipe _ _ ready below on (allowed (Nat.ne_of_gt positive))
        buf dataLen
      exact ⟨inv', Machine.run_once (b := .start _) started⟩
  | hostIn i =>
    obtain ⟨-, rfl⟩ := Prod.mk.inj here
    simp only [act] at stepped
    split at stepped <;> cases stepped
    rename_i valid
    obtain ⟨inv', taken⟩ := hostIn_pipe ready below inv valid
    exact ⟨inv', Machine.run_once (b := .take) taken⟩
  | irqIn i =>
    obtain ⟨-, rfl⟩ := Prod.mk.inj here
    simp only [act] at stepped
    split at stepped <;> cases stepped
    rename_i flag
    rw [if_neg (Nat.ne_of_gt positive)]
    obtain ⟨inv', completed⟩ := usbdIrqIn_pipe ready below inv flag
    exact ⟨inv', Machine.run_once (b := .complete) completed⟩
  | setStall ep =>
    have zero : usbEpGetIdx ep = 0 := allowed
    rw [FsdevAction.At, zero] at here
    exact absurd (Prod.mk.inj here).2 (Nat.ne_of_gt positive)
  | hostSetup => exact absurd here (Nat.ne_of_gt positive)
  | startRead | hostOut | irqOut | irqSetup => cases (Prod.mk.inj here).1

/-- The same of the OUT direction. -/
theorem outPipe_step {a : FsdevAction} (positive : 0 < e) (below : e < configUsbdevEpNum)
    (ready : s.Ready) (control : s.Control) (inv : OutInv e s)
    (reach : OutPipe.machine.Reachable (s.outPipe e)) (allowed : s.Allowed a)
    (stepped : s.step a = some s') :
    OutInv e s' ∧
      ∃ actions, OutPipe.machine.run Machine.anyAction (s.outPipe e) actions =
        some (s'.outPipe e) := by
  obtain ⟨-, -, elsewhere⟩ := step_ready ready control allowed stepped
  by_cases here : a.At .rx e
  case neg =>
    have same := elsewhere .rx e below here
    have stays := outPipe_same ready below same fun flag => (packetStored_le reach flag).1
    exact ⟨inv.same same, Machine.run_stutter stays⟩
  rw [step] at stepped
  split at stepped
  case isFalse => cases stepped
  cases a with
  | epOpen ep =>
    obtain ⟨ok, -, idle, -, even, -⟩ := allowed
    obtain ⟨dir, idx⟩ := Prod.mk.inj here
    rw [← dir, ← idx] at idle
    cases stepped
    have opened := usbdEpOpen_opened ready.buffers ok even
    obtain ⟨inv', sized⟩ := opened.outPipe dir.symm idx.symm idle inv
    exact ⟨inv', Machine.run_once (b := .size ep.mps) sized⟩
  | startRead ep null dataLen =>
    obtain ⟨-, rfl⟩ := Prod.mk.inj here
    cases stepped
    obtain nothing | ⟨-, is⟩ := usbdEpStartRead_cases s ep null dataLen
    · rw [nothing]
      exact ⟨inv, Machine.run_stutter rfl⟩
    · rw [is]
      obtain ⟨idle, room, whole⟩ := allowed (Nat.ne_of_gt positive)
      obtain ⟨inv', started⟩ := readInto_pipe inv idle room whole
      exact ⟨inv', Machine.run_once (b := .start _) started⟩
  | hostOut i packet behind =>
    obtain ⟨-, rfl⟩ := Prod.mk.inj here
    simp only [act] at stepped
    split at stepped <;> cases stepped
    rename_i valid
    obtain ⟨inv', sent⟩ := @hostOut_pipe _ _ ready below inv valid.1 packet behind allowed
    exact ⟨inv', Machine.run_once (b := .send packet) sent⟩
  | irqOut i =>
    obtain ⟨-, rfl⟩ := Prod.mk.inj here
    simp only [act] at stepped
    split at stepped <;> cases stepped
    rename_i flag
    rw [if_neg (Nat.ne_of_gt positive)]
    obtain ⟨inv', completed⟩ := usbdIrqOut_pipe ready below inv reach flag
    exact ⟨inv', Machine.run_once (b := .complete) completed⟩
  | setStall ep =>
    have zero : usbEpGetIdx ep = 0 := allowed
    rw [FsdevAction.At, zero] at here
    exact absurd (Prod.mk.inj here).2 (Nat.ne_of_gt positive)
  | hostSetup => exact absurd here (Nat.ne_of_gt positive)
  | irqSetup => exact absurd (Prod.mk.inj here).2 (Nat.ne_of_gt positive)
  | startWrite | hostIn | irqIn => cases (Prod.mk.inj here).1

theorem inPipe_simulates (positive : 0 < e) (below : e < configUsbdevEpNum) :
    Machine.Simulates fsdev Allowed InPipe.machine (·.inPipe e)
      (fun s => s.Ready ∧ s.Control ∧ InInv e s) where
  start := by
    rintro s ⟨pma, rfl⟩
    obtain ⟨ready, control⟩ := usbReset_ready pma
    have same := usbReset_other pma .tx positive below
    have idle := cleared_idle pma .tx e
    have busy := not_or.mp idle
    have cleared : InInv e (clearedUdc pma) :=
      ⟨fun now => absurd now busy.1, fun now => absurd now idle, fun now => absurd now busy.2,
        fun now => absurd now idle⟩
    refine ⟨⟨ready, control, cleared.same ((ready_cleared pma).each .tx e below) same⟩, ?_⟩
    rw [inPipe_same same]
    exact ⟨inPhase_idle idle, rfl, rfl, rfl⟩
  next := by
    rintro s s' a ⟨ready, control, inv⟩ - allowed stepped
    obtain ⟨ready', control', -⟩ := step_ready ready control allowed stepped
    obtain ⟨inv', ran⟩ := inPipe_step positive below ready control inv allowed stepped
    exact ⟨⟨ready', control', inv'⟩, ran⟩

theorem outPipe_simulates (positive : 0 < e) (below : e < configUsbdevEpNum) :
    Machine.Simulates fsdev Allowed OutPipe.machine (·.outPipe e)
      (fun s => s.Ready ∧ s.Control ∧ OutInv e s) where
  start := by
    rintro s ⟨pma, rfl⟩
    obtain ⟨ready, control⟩ := usbReset_ready pma
    have same := usbReset_other pma .rx positive below
    have idle := cleared_idle pma .rx e
    have busy := not_or.mp idle
    have cleared : OutInv e (clearedUdc pma) :=
      ⟨fun now => absurd now busy.1, fun now => absurd now idle, fun now => absurd now idle,
        fun _ _ told => absurd told List.not_mem_nil⟩
    refine ⟨⟨ready, control, cleared.same same⟩, ?_⟩
    rw [outPipe_same (ready_cleared pma) below same fun flag => absurd flag busy.1]
    exact ⟨outPhase_idle idle, rfl, rfl⟩
  next := by
    rintro s s' a ⟨ready, control, inv⟩ reach allowed stepped
    obtain ⟨ready', control', -⟩ := step_ready ready control allowed stepped
    obtain ⟨inv', ran⟩ := outPipe_step positive below ready control inv reach allowed stepped
    exact ⟨⟨ready', control', inv'⟩, ran⟩

end Fsdev

end LoongsonEjtag
