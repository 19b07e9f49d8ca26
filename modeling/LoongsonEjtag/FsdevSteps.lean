import LoongsonEjtag.FsdevFrame

/-! # The steps of the driver

* `local_offer`, `local_inTaken`, `local_outArrived`, `local_store` — where the parts of a
  transfer are seen.
* `OpenedAt` — what `usbd_ep_open` does when it returns 0.
* `Allowed` — what the callers and the host keep to.
* `step_ready`, `step_same` — the invariant of every allowed step, and its frame.
* `buffers_apart` — the buffers that are handed out, whatever is allowed.
-/

namespace LoongsonEjtag

open Lib (Arena Byte Machine Region)

namespace Fsdev

variable {s s' : Fsdev} {d dir : EpDir} {i e n : Nat}

/-! ## Transfers -/

theorem local_offer (ready : s.Ready) (below : e < configUsbdevEpNum)
    (on : (s.ep .tx e).epEnable = true) (most : n ≤ (s.ep .tx e).epMps) :
    Local .tx e s (s.offer e n) := by
  have fits := most.trans ((ready.each .tx e below).sized on).2
  have copy : Local .tx e s (s.writePma (s.ep .tx e).xferBuf (s.ep .tx e).epPmaAddr n) :=
    .writePma ready.buffers below fits
  have count := copy.trans
    (@Local.storeCnt _ _ _ (BitVec.ofNat 16 n) (ready.buffers.local copy) below (.inr rfl))
  exact count.trans (.setStatus fun _ => on)

theorem local_inTaken : Local .tx e s (s.inTaken e) :=
  Local.clearCtr.trans (.setEp rfl rfl rfl rfl)

theorem local_outArrived : Local .rx e s (s.outArrived e) :=
  Local.clearCtr.trans (.setEp rfl rfl rfl rfl)

theorem local_writeFrom (ready : s.Ready) (below : e < configUsbdevEpNum)
    (on : (s.ep .tx e).epEnable = true) {data : Nat → Byte} {dataLen : BitVec 32} :
    Local .tx e s (s.writeFrom e data dataLen) := by
  have fields : Local .tx e s (s.setEp .tx e { s.ep .tx e with
      xferBuf := data, xferLen := dataLen, actualXferLen := 0 }) := .setEp rfl rfl rfl rfl
  have offered := fields.trans (local_offer (ready.local fields) below (fields.enable ▸ on)
    (Nat.min_le_right dataLen.toNat _))
  exact offered.trans (.log rfl)

theorem local_readInto (on : (s.ep .rx e).epEnable = true) {dataLen : BitVec 32} :
    Local .rx e s (s.readInto e dataLen) := by
  have fields : Local .rx e s (s.setEp .rx e { s.ep .rx e with
      copied := [], xferLen := dataLen, actualXferLen := 0 }) := .setEp rfl rfl rfl rfl
  exact (fields.trans (.setStatus fun _ => fields.enable ▸ on)).trans (.log rfl)

/-- `usbd_ep_start_write` starts a transfer, or does nothing. -/
theorem usbdEpStartWrite_cases (s : Fsdev) (ep : Byte) (data : Option (Nat → Byte))
    (dataLen : BitVec 32) :
    (s.usbdEpStartWrite ep data dataLen).2 = s ∨
      (s.ep .tx (usbEpGetIdx ep)).epEnable = true ∧ ∃ buf,
        (s.usbdEpStartWrite ep data dataLen).2 = s.writeFrom (usbEpGetIdx ep) buf dataLen := by
  rw [usbdEpStartWrite]
  split
  case isTrue => exact .inl rfl
  case isFalse =>
    split
    case isTrue => exact .inl rfl
    case isFalse on => exact .inr ⟨by simpa using on, _, rfl⟩

theorem usbdEpStartRead_cases (s : Fsdev) (ep : Byte) (null : Bool) (dataLen : BitVec 32) :
    (s.usbdEpStartRead ep null dataLen).2 = s ∨
      (s.ep .rx (usbEpGetIdx ep)).epEnable = true ∧
        (s.usbdEpStartRead ep null dataLen).2 = s.readInto (usbEpGetIdx ep) dataLen := by
  rw [usbdEpStartRead]
  split
  case isTrue => exact .inl rfl
  case isFalse =>
    split
    case isTrue => exact .inl rfl
    case isFalse on => exact .inr ⟨by simpa using on, rfl⟩

theorem local_usbdIrqIn (ready : s.Ready) (below : e < configUsbdevEpNum)
    (on : (s.ep .tx e).epEnable = true) : Local .tx e s (s.usbdIrqIn e) := by
  have taken : Local .tx e s (s.inTaken e) := local_inTaken
  rw [usbdIrqIn]
  split
  case isTrue => exact taken.trans (.log rfl)
  case isFalse =>
    exact taken.trans (local_offer (ready.local taken) below (taken.enable ▸ on)
      (Nat.min_le_right _ _))

theorem local_usbdIrqOut (on : (s.ep .rx e).epEnable = true) :
    Local .rx e s (s.usbdIrqOut e) := by
  have arrived : Local .rx e s (s.outArrived e) := local_outArrived
  rw [usbdIrqOut]
  split
  case isTrue => exact arrived.trans (.log rfl)
  case isFalse => exact arrived.trans (.setStatus fun _ => arrived.enable ▸ on)

theorem local_store (ready : s.Ready) (below : e < configUsbdevEpNum)
    (on : (s.ep .rx e).epEnable = true) {packet : List Byte} {behind : Byte}
    (most : packet.length ≤ (s.ep .rx e).epMps) : Local .rx e s (s.store e packet behind) := by
  have at_e := ready.each .rx e below
  obtain ⟨some, sized⟩ := at_e.sized on
  have addr : (s.pma (pcdEpAddress .rx e)).toNat = (s.ep .rx e).epPmaAddr :=
    at_e.described (Nat.lt_of_lt_of_le some sized)
  have small : packet.length < 1024 := by
    have := (at_e.room rfl on).1
    omega
  have copy : Local .rx e s
      (s.writePma (packet.getD · behind) (s.ep .rx e).epPmaAddr packet.length) :=
    .writePma ready.buffers below (most.trans sized)
  rw [store, addr]
  apply copy.trans
  apply Local.storeCnt (ready.buffers.local copy) below
  obtain same | out := copy.room
  · rw [rxBlockBytes_received _ small, same]
    exact .inl rfl
  · cases out

/-! ## Opening -/

section opening

variable {ep : UsbEndpointDescriptor} {w : BitVec 2} {mps : Nat}

theorem Same.configure (other : (d, i) ≠ (ep.dir, ep.idx)) : Same d i s (s.configure ep w) :=
  ((Same.update fun _ => rfl).trans (.update fun _ => rfl)).trans (.setEp other)

theorem configure_ep : ((s.configure ep w).ep ep.dir ep.idx).epMps = ep.mps ∧
    ((s.configure ep w).ep ep.dir ep.idx).epEnable = true := by
  simp [Fsdev.configure]

theorem configure_side : (s.configure ep w).side d i = s.side d i := by
  simp only [Fsdev.configure, side_setEp, side_update, EpUpdate.effect]
  split <;> rfl

theorem configure_region : (s.configure ep w).region d i = s.region d i := by
  by_cases is : (d, i) = (ep.dir, ep.idx)
  · cases is
    simp [Fsdev.region, Fsdev.configure]
  · exact (Same.configure is).region

theorem Buffers.configure (buffers : s.Buffers) : (s.configure ep w).Buffers :=
  buffers.congr rfl fun _ _ => configure_region

theorem Buffers.allocate (buffers : s.Buffers)
    (fits : s.pmaOffset + mps ≤ configUsbFsdevRamSize) (even : 2 ∣ mps) :
    (s.allocate dir e mps).Buffers := by
  obtain ⟨arena, isOffset, isRegion⟩ := buffers
  refine ⟨arena.grow (dir, e) mps (isOffset ▸ fits) even, congrArg (· + mps) isOffset, ?_⟩
  intro d i
  by_cases is : (d, i) = (dir, e)
  · simp [Arena.grow, Fsdev.region, Fsdev.allocate, is, isOffset]
  · have kept : (arena.grow (dir, e) mps (isOffset ▸ fits) even).region (d, i) =
        arena.region (d, i) := Function.update_of_ne is _ _
    rw [kept, isRegion]
    simp [Fsdev.region, Fsdev.allocate, is]

theorem Same.allocate (buffers : s.Buffers) (below : e < configUsbdevEpNum)
    (other : (d, i) ≠ (dir, e)) : Same d i s (s.allocate dir e mps) := by
  have fields : Same d i s
      (s.setEp dir e { s.ep dir e with epPmaBufLen := mps, epPmaAddr := s.pmaOffset }) :=
    .setEp other
  have foreign := (buffers.foreign_descriptor below other).1
  apply fields.trans
  have stored := @Same.storePma _ d i _ (evenAddress (BitVec.ofNat 32 s.pmaOffset))
    (fun owns => foreign (by rwa [Owns, fields.region] at owns))
  exact ⟨stored.side, stored.ep, stored.pma, stored.events⟩

theorem evenAddress_toNat {n : Nat} (even : 2 ∣ n) (small : n ≤ 512) :
    (evenAddress (BitVec.ofNat 32 n)).toNat = n := by
  obtain ⟨k, rfl⟩ := even
  rw [evenAddress, BitVec.toNat_setWidth, BitVec.toNat_shiftLeft, BitVec.toNat_ushiftRight,
    BitVec.toNat_ofNat, Nat.shiftLeft_eq, Nat.shiftRight_eq_div_pow]
  omega

theorem Same.opened (buffers : s.Buffers) (below : e < configUsbdevEpNum)
    (other : (d, i) ≠ (dir, e)) : Same d i s (s.opened dir e mps) := by
  cases dir with
  | rx =>
    have foreign := (buffers.foreign_descriptor below other).2
    exact (Same.storePma foreign).trans (.clearDtog other)
  | tx =>
    apply (Same.clearDtog other).trans
    apply Same.update
    rintro rfl
    have different : EpDir.tx ≠ d := fun is => other (by rw [is])
    simp [EpUpdate.isOf, different]

theorem opened_ep : (s.opened dir e mps).ep = s.ep := by
  cases dir <;> simp [opened]

theorem opened_offset : (s.opened dir e mps).pmaOffset = s.pmaOffset := by
  cases dir <;> simp [opened]

theorem Buffers.opened (buffers : s.Buffers) : (s.opened dir e mps).Buffers :=
  buffers.congr opened_offset fun d i => by rw [Fsdev.region, Fsdev.region, opened_ep]

theorem opened_address : (s.opened dir e mps).pma (pcdEpAddress dir e) =
    s.pma (pcdEpAddress dir e) := by
  cases dir with
  | rx => simp [opened, pcdEpAddress, pcdEpCnt]
  | tx => simp [opened]

/-- What `usbd_ep_open` comes to. -/
theorem usbdEpOpen_cases (s : Fsdev) (ep : UsbEndpointDescriptor) :
    ((s.usbdEpOpen ep).1 = -1 ∧
      ((s.usbdEpOpen ep).2 = s ∨ ∃ w, (s.usbdEpOpen ep).2 = s.configure ep w)) ∨
    ((s.usbdEpOpen ep).1 = 0 ∧ ep.idx < configUsbdevEpNum ∧ ∃ w,
      if ep.mps > (s.ep ep.dir ep.idx).epPmaBufLen then
        s.pmaOffset + ep.mps ≤ configUsbFsdevRamSize ∧ (s.usbdEpOpen ep).2 =
          ((s.configure ep w).allocate ep.dir ep.idx ep.mps).opened ep.dir ep.idx ep.mps
      else (s.usbdEpOpen ep).2 = (s.configure ep w).opened ep.dir ep.idx ep.mps) := by
  rw [usbdEpOpen]
  split
  case isTrue => exact .inl ⟨rfl, .inl rfl⟩
  case isFalse below =>
    split
    case h_1 => exact .inl ⟨rfl, .inl rfl⟩
    case h_2 w _ =>
      have len : ((s.configure ep w).ep ep.dir ep.idx).epPmaBufLen =
          (s.ep ep.dir ep.idx).epPmaBufLen := by simp [Fsdev.configure]
      have offset : (s.configure ep w).pmaOffset = s.pmaOffset := rfl
      have below : ep.idx < configUsbdevEpNum := by
        simp only [configUsbdevEpNum] at below ⊢
        omega
      simp only [len, offset]
      split
      case isTrue =>
        split
        case isTrue => exact .inl ⟨rfl, .inr ⟨w, rfl⟩⟩
        case isFalse fits => exact .inr ⟨rfl, below, w, by simpa using fits⟩
      case isFalse => exact .inr ⟨rfl, below, w, rfl⟩

/-- What `usbd_ep_open` leaves when it returns 0. -/
structure OpenedAt (ep : UsbEndpointDescriptor) (s s' : Fsdev) : Prop where
  below : ep.idx < configUsbdevEpNum
  buffers : s'.Buffers
  same : ∀ d i, i < configUsbdevEpNum → (d, i) ≠ (ep.dir, ep.idx) → Same d i s s'
  mps : (s'.ep ep.dir ep.idx).epMps = ep.mps
  enable : (s'.ep ep.dir ep.idx).epEnable = true
  sized : ep.mps ≤ (s'.ep ep.dir ep.idx).epPmaBufLen
  described : (0 < (s.ep ep.dir ep.idx).epPmaBufLen →
      (s.pma (pcdEpAddress ep.dir ep.idx)).toNat = (s.ep ep.dir ep.idx).epPmaAddr) →
    0 < (s'.ep ep.dir ep.idx).epPmaBufLen →
      (s'.pma (pcdEpAddress ep.dir ep.idx)).toNat = (s'.ep ep.dir ep.idx).epPmaAddr
  side : s'.side ep.dir ep.idx = match ep.dir with
    | .rx => { s.side ep.dir ep.idx with dtog := false }
    | .tx => ⟨(s.side ep.dir ep.idx).ctr, false, EpStatus.nak.code⟩
  room : ep.dir = .rx → 0 < ep.mps → ep.mps ≤ 1024 →
    ep.mps ≤ rxBlockBytes (s'.pma (pcdEpCnt .rx ep.idx))
  events : ∀ d i, s'.events d i = s.events d i
  offset : s'.pmaOffset ≤ s.pmaOffset + ep.mps

theorem opened_side (s : Fsdev) (dir : EpDir) (e mps : Nat) :
    (s.opened dir e mps).side dir e = match dir with
      | .rx => { s.side dir e with dtog := false }
      | .tx => ⟨(s.side dir e).ctr, false, EpStatus.nak.code⟩ := by
  cases dir <;> simp [opened, EpUpdate.effect]

theorem opened_room (some : 0 < mps) (most : mps ≤ 1024) :
    mps ≤ rxBlockBytes ((s.opened .rx e mps).pma (pcdEpCnt .rx e)) := by
  rw [opened, pma_clearDtog, pma_storePma, Function.update_self]
  exact (rxBlockBytes_bounds some most _).1

theorem opened_events (d : EpDir) (i : Nat) : (s.opened dir e mps).events d i = s.events d i := by
  cases dir <;> simp [opened]

/-- The end of `usbd_ep_open` on a buffer that is large enough. -/
theorem OpenedAt.of_opened {m : Fsdev} (below : ep.idx < configUsbdevEpNum) (buffers : m.Buffers)
    (same : ∀ d i, i < configUsbdevEpNum → (d, i) ≠ (ep.dir, ep.idx) → Same d i s m)
    (mps : (m.ep ep.dir ep.idx).epMps = ep.mps) (enable : (m.ep ep.dir ep.idx).epEnable = true)
    (sized : ep.mps ≤ (m.ep ep.dir ep.idx).epPmaBufLen)
    (described : (0 < (s.ep ep.dir ep.idx).epPmaBufLen →
        (s.pma (pcdEpAddress ep.dir ep.idx)).toNat = (s.ep ep.dir ep.idx).epPmaAddr) →
      0 < (m.ep ep.dir ep.idx).epPmaBufLen →
        (m.pma (pcdEpAddress ep.dir ep.idx)).toNat = (m.ep ep.dir ep.idx).epPmaAddr)
    (side : m.side ep.dir ep.idx = s.side ep.dir ep.idx)
    (events : ∀ d i, m.events d i = s.events d i)
    (offset : m.pmaOffset ≤ s.pmaOffset + ep.mps) :
    OpenedAt ep s (m.opened ep.dir ep.idx ep.mps) where
  below := below
  buffers := buffers.opened
  same d i small other := (same d i small other).trans (.opened buffers below other)
  mps := by rw [opened_ep, mps]
  enable := by rw [opened_ep, enable]
  sized := by rwa [opened_ep]
  described before some := by
    rw [opened_ep] at some ⊢
    rw [opened_address]
    exact described before some
  side := by
    rw [opened_side, side]
  room out some most := by
    rw [out]
    exact opened_room some most
  events d i := (opened_events d i).trans (events d i)
  offset := by rwa [opened_offset]

theorem usbdEpOpen_opened (buffers : s.Buffers) (ok : (s.usbdEpOpen ep).1 = 0)
    (even : 2 ∣ ep.mps) : OpenedAt ep s (s.usbdEpOpen ep).2 := by
  obtain ⟨failed, -⟩ | ⟨-, below, w, opened⟩ := usbdEpOpen_cases s ep
  · rw [failed] at ok
    cases ok
  · obtain ⟨mps, enable⟩ := @configure_ep s ep w
    have len : ((s.configure ep w).ep ep.dir ep.idx).epPmaBufLen =
        (s.ep ep.dir ep.idx).epPmaBufLen := by simp [Fsdev.configure]
    have addr : ((s.configure ep w).ep ep.dir ep.idx).epPmaAddr =
        (s.ep ep.dir ep.idx).epPmaAddr := by simp [Fsdev.configure]
    have events : ∀ d i, (s.configure ep w).events d i = s.events d i := fun _ _ => rfl
    split at opened
    case isTrue =>
      obtain ⟨fits, is⟩ := opened
      rw [is]
      have inside : s.pmaOffset ≤ 512 ∧ 2 ∣ s.pmaOffset := by
        obtain ⟨arena, isOffset, -⟩ := buffers
        rw [← isOffset]
        exact ⟨arena.within.2, arena.aligned.1⟩
      apply OpenedAt.of_opened below
      · exact buffers.configure.allocate fits even
      · intro d i small other
        exact (Same.configure other).trans (.allocate buffers.configure below other)
      · simpa [Fsdev.allocate] using mps
      · simpa [Fsdev.allocate] using enable
      · simp [Fsdev.allocate]
      · rintro - -
        have offset : (s.configure ep w).pmaOffset = s.pmaOffset := rfl
        simpa [Fsdev.allocate, offset] using evenAddress_toNat inside.2 inside.1
      · exact configure_side
      · exact events
      · exact Nat.le_refl _
    case isFalse large =>
      rw [opened]
      apply OpenedAt.of_opened below
      · exact buffers.configure
      · intro d i _ other
        exact .configure other
      · exact mps
      · exact enable
      · rw [len]
        exact Nat.not_lt.mp large
      · rw [len, addr]
        exact id
      · exact configure_side
      · exact events
      · exact Nat.le_add_right _ _

theorem usbdEpOpen_ok (below : ep.idx < configUsbdevEpNum) (type : ep.wEpRegVal = some w)
    (room : s.pmaOffset + ep.mps ≤ configUsbFsdevRamSize) : (s.usbdEpOpen ep).1 = 0 := by
  have known : ¬ep.idx > configUsbdevEpNum - 1 := by
    simp only [configUsbdevEpNum] at below ⊢
    omega
  have fits : ¬(s.configure ep w).pmaOffset + ep.mps > configUsbFsdevRamSize := Nat.not_lt.mpr room
  rw [usbdEpOpen, if_neg known]
  simp only [type, if_neg fits]
  split <;> rfl

end opening

/-! ## Steps -/

/-- What the callers and the host keep to: endpoints are opened and transfers started where
    none is under way; packet sizes are even, and those of OUT endpoints fit `read_count`;
    a read has room for whole packets; the host sends no more than a packet.  Endpoint 0 is
    opened at the bus reset, and nobody else is halted. -/
def Allowed (s : Fsdev) : FsdevAction → Prop
  | .epOpen ep => (s.usbdEpOpen ep).1 = 0 ∧ ep.idx ≠ 0 ∧ ¬s.Busy ep.dir ep.idx ∧
      0 < ep.mps ∧ 2 ∣ ep.mps ∧ (ep.dir = .rx → ep.mps < 256)
  | .startWrite ep _ _ => usbEpGetIdx ep ≠ 0 → ¬s.Busy .tx (usbEpGetIdx ep)
  | .startRead ep _ dataLen => usbEpGetIdx ep ≠ 0 → ¬s.Busy .rx (usbEpGetIdx ep) ∧
      0 < dataLen.toNat ∧ (s.ep .rx (usbEpGetIdx ep)).epMps ∣ dataLen.toNat
  | .setStall ep => usbEpGetIdx ep = 0
  | .hostOut e packet _ => packet.length ≤ (s.ep .rx e).epMps
  | .hostIn _ | .hostSetup _ | .irqIn _ | .irqOut _ | .irqSetup => True

instance (s : Fsdev) (a : FsdevAction) : Decidable (s.Allowed a) :=
  match a with
  | .epOpen _ => inferInstanceAs (Decidable (_ ∧ _ ∧ _ ∧ _ ∧ _ ∧ (_ → _)))
  | .startWrite _ _ _ => inferInstanceAs (Decidable (_ → _))
  | .startRead _ _ _ => inferInstanceAs (Decidable (_ → _ ∧ _ ∧ _))
  | .setStall _ => inferInstanceAs (Decidable (_ = _))
  | .hostOut _ _ _ => inferInstanceAs (Decidable (_ ≤ _))
  | .hostIn _ | .hostSetup _ | .irqIn _ | .irqOut _ | .irqSetup => isTrue trivial

end Fsdev

/-- Where an action is seen. -/
def FsdevAction.At (d : EpDir) (i : Nat) : FsdevAction → Prop
  | .epOpen ep => (d, i) = (ep.dir, ep.idx)
  | .startWrite ep _ _ => (d, i) = (.tx, usbEpGetIdx ep)
  | .startRead ep _ _ => (d, i) = (.rx, usbEpGetIdx ep)
  | .setStall ep => (d, i) = (usbEpDir ep, usbEpGetIdx ep)
  | .hostIn e | .irqIn e => (d, i) = (.tx, e)
  | .hostOut e _ _ | .irqOut e => (d, i) = (.rx, e)
  | .hostSetup _ => i = 0
  | .irqSetup => (d, i) = (.rx, 0)

namespace Fsdev

variable {s s' : Fsdev} {d dir : EpDir} {i e : Nat}

/-- Endpoint 0 takes the packets of control transfers. -/
structure Control (s : Fsdev) : Prop where
  enable : ∀ d, (s.ep d 0).epEnable = true
  mps : (s.ep .rx 0).epMps = 64

theorem Control.local (control : s.Control) (step : Local dir e s s') : s'.Control := by
  have small : 0 < configUsbdevEpNum := by decide
  constructor
  · intro d
    by_cases is : (d, 0) = (dir, e)
    · cases is
      rw [step.enable, control.enable]
    · rw [(step.same d 0 small is).ep, control.enable]
  · by_cases is : (EpDir.rx, 0) = (dir, e)
    · cases is
      rw [step.mps, control.mps]
    · rw [(step.same .rx 0 small is).ep, control.mps]

theorem local_hostIn : Local .tx e s (s.hostIn e) := Local.done.trans (.log rfl)

theorem local_hostOut (ready : s.Ready) (below : e < configUsbdevEpNum)
    (on : (s.ep .rx e).epEnable = true) {packet : List Byte} {behind : Byte}
    (most : packet.length ≤ (s.ep .rx e).epMps) : Local .rx e s (s.hostOut e packet behind) :=
  ((local_store ready below on most).trans .done).trans (.log rfl)

theorem local_usbdEpSetStall {ep : Byte} :
    Local (usbEpDir ep) (usbEpGetIdx ep) s (s.usbdEpSetStall ep) :=
  .setStatus fun valid => by cases valid

theorem local_usbdIrqEp0In : Local .tx 0 s s.usbdIrqEp0In := local_inTaken.trans (.log rfl)

theorem local_usbdIrqEp0Out : Local .rx 0 s s.usbdIrqEp0Out := local_outArrived.trans (.log rfl)

theorem local_usbdIrqEp0Setup : Local .rx 0 s s.usbdIrqEp0Setup :=
  Local.clearCtr.trans (.log rfl)

/-- A SETUP packet stops what is under way at endpoint 0. -/
theorem setup_other (other : i ≠ 0) : Same d i s (s.transaction 0 .setup) :=
  .transaction fun is => absurd is other

theorem Ready.setup (ready : s.Ready) (control : s.Control) : (s.transaction 0 .setup).Ready := by
  refine ⟨ready.buffers.congr rfl fun _ _ => rfl, ?_⟩
  intro d i below
  by_cases is : i = 0
  · subst is
    obtain ⟨-, sized, described, room⟩ := ready.each d 0 below
    exact ⟨fun _ => control.enable d, sized, described, room⟩
  · exact (ready.each d i below).same (setup_other is)

theorem Ready.opened {ep : UsbEndpointDescriptor} (ready : s.Ready) (opened : OpenedAt ep s s')
    (some : 0 < ep.mps) (small : ep.dir = .rx → ep.mps < 256) : s'.Ready := by
  refine ⟨opened.buffers, ?_⟩
  intro d i below
  by_cases is : (d, i) = (ep.dir, ep.idx)
  · cases is
    constructor
    · exact fun _ => opened.enable
    · rintro -
      rw [opened.mps]
      exact ⟨some, opened.sized⟩
    · exact opened.described (ready.each _ _ below).described
    · intro out _
      have few := small out
      rw [opened.mps, out]
      exact ⟨few, opened.room out some (by omega)⟩
  · exact (ready.each d i below).same (opened.same d i below is)

/-- Every allowed step keeps the buffers and the registers in order. -/
theorem step_ready {a : FsdevAction} (ready : s.Ready) (control : s.Control)
    (allowed : s.Allowed a) (stepped : s.step a = some s') :
    s'.Ready ∧ s'.Control ∧
      ∀ d i, i < configUsbdevEpNum → ¬a.At d i → Same d i s s' := by
  have ofLocal : ∀ {dir e s'}, Local dir e s s' → (∀ d i, ¬a.At d i → (d, i) ≠ (dir, e)) →
      s'.Ready ∧ s'.Control ∧ ∀ d i, i < configUsbdevEpNum → ¬a.At d i → Same d i s s' :=
    fun step here => ⟨ready.local step, control.local step,
      fun d i below other => step.same d i below (here d i other)⟩
  rw [step] at stepped
  split at stepped
  case isFalse => cases stepped
  case isTrue below =>
    have on : ∀ d i, i < configUsbdevEpNum → s.Busy d i → (s.ep d i).epEnable = true :=
      fun d i small => (ready.each d i small).enabled
    cases a with
    | epOpen ep =>
      obtain ⟨ok, notControl, -, some, even, small⟩ := allowed
      cases stepped
      have opened := usbdEpOpen_opened ready.buffers ok even
      refine ⟨ready.opened opened some small, ⟨?_, ?_⟩, opened.same⟩
      · intro d
        rw [(opened.same d 0 (by decide) (by simp [Ne.symm notControl])).ep, control.enable]
      · rw [(opened.same .rx 0 (by decide) (by simp [Ne.symm notControl])).ep, control.mps]
    | startWrite ep data dataLen =>
      cases stepped
      obtain none | ⟨enable, buf, is⟩ := usbdEpStartWrite_cases s ep data dataLen
      · rw [none]
        exact ofLocal (Local.refl : Local .tx (usbEpGetIdx ep) s s) fun _ _ => id
      · rw [is]
        exact ofLocal (local_writeFrom ready below enable) fun _ _ => id
    | startRead ep null dataLen =>
      cases stepped
      obtain none | ⟨enable, is⟩ := usbdEpStartRead_cases s ep null dataLen
      · rw [none]
        exact ofLocal (Local.refl : Local .rx (usbEpGetIdx ep) s s) fun _ _ => id
      · rw [is]
        exact ofLocal (local_readInto enable) fun _ _ => id
    | setStall ep =>
      cases stepped
      exact ofLocal local_usbdEpSetStall fun _ _ => id
    | hostIn e =>
      simp only [act] at stepped
      split at stepped <;> cases stepped
      exact ofLocal local_hostIn fun _ _ => id
    | hostOut e packet behind =>
      simp only [act] at stepped
      split at stepped <;> cases stepped
      rename_i valid
      exact ofLocal (local_hostOut ready below (on _ _ below (.inr valid.1)) allowed) fun _ _ => id
    | hostSetup packet =>
      simp only [act] at stepped
      split at stepped <;> cases stepped
      rename_i eight
      have most : packet.length ≤ (s.ep .rx 0).epMps := by
        rw [eight, control.mps]
        decide
      have store : Local .rx 0 s (s.store 0 packet 0) :=
        local_store ready (by decide) (control.enable .rx) most
      have control' := control.local store
      refine ⟨(ready.local store).setup control', ⟨control'.enable, control'.mps⟩, ?_⟩
      intro d i small other
      have elsewhere : (d, i) ≠ (EpDir.rx, 0) := fun is => other (Prod.mk.inj is).2
      exact (store.same d i small elsewhere).trans (setup_other other)
    | irqIn e =>
      simp only [act] at stepped
      split at stepped <;> cases stepped
      rename_i flag
      split
      case isTrue zero =>
        subst zero
        exact ofLocal local_usbdIrqEp0In fun _ _ => id
      case isFalse =>
        exact ofLocal (local_usbdIrqIn ready below (on _ _ below (.inl flag))) fun _ _ => id
    | irqOut e =>
      simp only [act] at stepped
      split at stepped <;> cases stepped
      rename_i flag
      split
      case isTrue zero =>
        subst zero
        exact ofLocal local_usbdIrqEp0Out fun _ _ => id
      case isFalse =>
        exact ofLocal (local_usbdIrqOut (on _ _ below (.inl flag))) fun _ _ => id
    | irqSetup =>
      simp only [act] at stepped
      split at stepped <;> cases stepped
      exact ofLocal local_usbdIrqEp0Setup fun _ _ => id

/-! ## Runs -/

theorem buffers_cleared (pma : Pma) : (clearedUdc pma).Buffers :=
  ⟨.empty (by decide) (by decide), rfl, fun _ _ => rfl⟩

theorem cleared_idle (pma : Pma) (d : EpDir) (i : Nat) : ¬(clearedUdc pma).Busy d i := by
  have idle : d.view 0 = ⟨false, false, EpStatus.dis.code⟩ := by cases d <;> decide
  have side : (clearedUdc pma).side d i = ⟨false, false, EpStatus.dis.code⟩ := idle
  rw [Busy, side]
  simp [EpStatus.code]

theorem ready_cleared (pma : Pma) : (clearedUdc pma).Ready := by
  refine ⟨buffers_cleared pma, ?_⟩
  intro d i _
  constructor
  · intro busy
    exact absurd busy (cleared_idle pma d i)
  · rintro ⟨⟩
  · rintro ⟨⟩
  · rintro - ⟨⟩

/-- The bus reset opens endpoint 0. -/
theorem opened_ep0 (pma : Pma) :
    OpenedAt (ep0Descriptor 0x80) (clearedUdc pma)
        ((clearedUdc pma).usbdEpOpen (ep0Descriptor 0x80)).2 ∧
      OpenedAt (ep0Descriptor 0x00) ((clearedUdc pma).usbdEpOpen (ep0Descriptor 0x80)).2
        (usbdEventResetHandler (clearedUdc pma)) := by
  have first : OpenedAt (ep0Descriptor 0x80) (clearedUdc pma) _ :=
    usbdEpOpen_opened (buffers_cleared pma)
      (usbdEpOpen_ok (w := 1) (by decide) (by decide)
        (show usbBtableSize + 64 ≤ configUsbFsdevRamSize by decide)) (by decide)
  have room : ((clearedUdc pma).usbdEpOpen (ep0Descriptor 0x80)).2.pmaOffset + 64 ≤
      configUsbFsdevRamSize :=
    (Nat.add_le_add_right first.offset 64).trans
      (show usbBtableSize + 64 + 64 ≤ configUsbFsdevRamSize by decide)
  exact ⟨first, usbdEpOpen_opened first.buffers
    (usbdEpOpen_ok (w := 1) (by decide) (by decide) room) (by decide)⟩

theorem usbReset_ready (pma : Pma) : (usbReset pma).Ready ∧ (usbReset pma).Control := by
  obtain ⟨first, second⟩ := opened_ep0 pma
  have ready := ((ready_cleared pma).opened first (by decide) (by decide)).opened second
    (by decide) (by decide)
  have last : Local .rx 0 _ (usbReset pma) := .setStatus fun _ => second.enable
  refine ⟨ready.local last, Control.local ⟨?_, second.mps⟩ last⟩
  intro d
  cases d with
  | rx => exact second.enable
  | tx =>
    rw [(second.same .tx 0 (by decide) (by decide)).ep]
    exact first.enable

theorem reach_ready (reach : fsdev.Reach Allowed s) : s.Ready ∧ s.Control := by
  apply reach.invariant
  · rintro s ⟨pma, rfl⟩
    exact usbReset_ready pma
  · rintro s s' a _ ⟨ready, control⟩ allowed stepped
    obtain ⟨ready', control', -⟩ := step_ready ready control allowed stepped
    exact ⟨ready', control'⟩

/-- Endpoints 1 and 2 are opened; a transfer of 66 bytes to the host is under way while a
    packet of three bytes comes in, which ends the read. -/
def twoTransfers : List FsdevAction :=
  [.epOpen ⟨0x81, 2, 64⟩, .epOpen ⟨0x02, 2, 64⟩,
    .startWrite 0x81 (some fun k => BitVec.ofNat 8 k) 66, .startRead 0x02 false 128, .hostIn 1,
    .hostOut 2 [7, 8, 9] 0, .irqOut 2, .irqIn 1, .hostIn 1, .irqIn 1]

def transfersDone (s : Fsdev) : Bool :=
  s.trace.getLast? = some (.inComplete 1 66) &&
    s.trace.contains (.outComplete 2 [7, 8, 9] 3) && s.trace.contains (.inPacket 1 [64, 65])

theorem exists_twoTransfers : ∃ s, fsdev.Reach Allowed s ∧ transfersDone s = true := by
  have ran : (fsdev.run Allowed (usbReset fun _ => 0) twoTransfers).any transfersDone = true := by
    decide +kernel
  exact Machine.exists_reach transfersDone ⟨fun _ => 0, rfl⟩ ran

end Fsdev

end LoongsonEjtag
