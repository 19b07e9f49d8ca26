import LoongsonEjtag.Fsdev
import LoongsonEjtag.Lib.Arena

/-! # What the driver does to the other endpoints

* `Fsdev.Same` — one direction of an endpoint is as before, with its descriptor, its buffer
  and its history.
* `Fsdev.Buffers` — the buffers are apart.
* `Fsdev.Ready` — what every call and every packet rests on.
* `step_same` — an action is seen only where it takes place.
* `buffers_apart` — the buffers that `usbd_ep_open` hands out.
-/

namespace LoongsonEjtag

open Lib (Arena Byte Machine Region)

namespace Fsdev

/-! ## One direction of an endpoint -/

section state

variable (s : Fsdev)

/-- The buffer in the packet memory. -/
def region (d : EpDir) (i : Nat) : Region := ⟨(s.ep d i).epPmaAddr, (s.ep d i).epPmaBufLen⟩

/-- The words of the descriptor and the buffer. -/
def Owns (d : EpDir) (i a : Nat) : Prop :=
  a = pcdEpAddress d i ∨ a = pcdEpCnt d i ∨ (s.region d i).Mem a

def events (d : EpDir) (i : Nat) : List FsdevEvent := s.trace.filter (·.of = (d, i))

end state

structure Same (d : EpDir) (i : Nat) (s s' : Fsdev) : Prop where
  side : s'.side d i = s.side d i
  ep : s'.ep d i = s.ep d i
  pma : ∀ a, s.Owns d i a → s'.pma a = s.pma a
  events : s'.events d i = s.events d i

variable {s s' s'' : Fsdev} {d dir : EpDir} {i e : Nat}

theorem Same.refl : Same d i s s := ⟨rfl, rfl, fun _ _ => rfl, rfl⟩

theorem Same.region (same : Same d i s s') : s'.region d i = s.region d i := by
  simp only [Fsdev.region, same.ep]

theorem Same.trans (same : Same d i s s') (same' : Same d i s' s'') : Same d i s s'' where
  side := same'.side.trans same.side
  ep := same'.ep.trans same.ep
  pma a owns := by
    have owns' : s'.Owns d i a := by
      rw [Owns, same.region]
      exact owns
    exact (same'.pma a owns').trans (same.pma a owns)
  events := same'.events.trans same.events

/-! ## The parts of a step -/

theorem dtog_iff (dir : EpDir) (reg : BitVec 16) :
    reg &&& usbEpDtog dir ≠ 0 ↔ (dir.view reg).dtog = true := by
  have one : usbEpDtog dir = BitVec.twoPow 16 (dir.pos + 2) := by cases dir <;> rfl
  have some : BitVec.twoPow 16 (dir.pos + 2) ≠ 0 := by cases dir <;> decide
  rw [one, BitVec.and_twoPow, EpDir.view]
  split <;> simp_all

theorem side_setEpr (reg : BitVec 16) :
    (s.setEpr e reg).side d i = if i = e then d.view reg else s.side d i := by
  by_cases is : i = e
  · subst is
    simp [side, setEpr]
  · simp [side, setEpr, is]

@[simp] theorem side_update (u : EpUpdate) :
    (s.update e u).side d i = if i = e then u.effect d (s.side d i) else s.side d i := by
  rw [update, side_setEpr]
  split
  case isTrue is =>
    rw [is, view_store]
    exact effect_eq fun _ _ => rfl
  case isFalse => rfl

@[simp] theorem side_transaction (t : EpTransaction) :
    (s.transaction e t).side d i = if i = e then t.onSide d (s.side d i) else s.side d i := by
  rw [transaction, side_setEpr]
  split
  case isTrue is =>
    rw [is, view_next]
    rfl
  case isFalse => rfl

@[simp] theorem side_clearDtog :
    (s.clearDtog dir e).side d i =
      if (d, i) = (dir, e) then { s.side d i with dtog := false } else s.side d i := by
  rw [clearDtog]
  simp only [dtog_iff]
  by_cases set : (dir.view (s.epr e)).dtog = true
  · have here : (s.side dir e).dtog = true := set
    rw [if_pos set, side_update]
    by_cases is : i = e
    · by_cases same : d = dir
      · subst is same
        simp [EpUpdate.effect, here]
      · simp [is, same, EpUpdate.effect, Ne.symm same]
    · simp [is]
  · rw [if_neg set]
    split
    case isTrue is =>
      cases is
      have here : (s.side d i).dtog = false := Bool.eq_false_iff.mpr set
      rw [← here]
    case isFalse => rfl

section parts

variable {reg : BitVec 16} {ep : FsdevEp} {a : Nat} {value : BitVec 16} {buf : Nat → Byte}
  {addr n : Nat} {event : FsdevEvent} {u : EpUpdate} {t : EpTransaction}

@[simp] theorem side_setEp : (s.setEp dir e ep).side d i = s.side d i := rfl
@[simp] theorem side_storePma : (s.storePma a value).side d i = s.side d i := rfl
@[simp] theorem side_writePma : (s.writePma buf addr n).side d i = s.side d i := rfl
@[simp] theorem side_log : (s.log event).side d i = s.side d i := rfl

@[simp] theorem ep_setEp :
    (s.setEp dir e ep).ep d i = if (d, i) = (dir, e) then ep else s.ep d i := rfl
@[simp] theorem ep_update : (s.update e u).ep = s.ep := rfl
@[simp] theorem ep_transaction : (s.transaction e t).ep = s.ep := rfl
@[simp] theorem ep_storePma : (s.storePma a value).ep = s.ep := rfl
@[simp] theorem ep_writePma : (s.writePma buf addr n).ep = s.ep := rfl
@[simp] theorem ep_log : (s.log event).ep = s.ep := rfl
@[simp] theorem ep_clearDtog : (s.clearDtog dir e).ep = s.ep := by
  rw [clearDtog]
  split <;> rfl

@[simp] theorem pma_setEp : (s.setEp dir e ep).pma = s.pma := rfl
@[simp] theorem pma_update : (s.update e u).pma = s.pma := rfl
@[simp] theorem pma_transaction : (s.transaction e t).pma = s.pma := rfl
@[simp] theorem pma_storePma : (s.storePma a value).pma = Function.update s.pma a value := rfl
@[simp] theorem pma_writePma : (s.writePma buf addr n).pma = fsdevWritePma s.pma buf addr n := rfl
@[simp] theorem pma_log : (s.log event).pma = s.pma := rfl
@[simp] theorem pma_clearDtog : (s.clearDtog dir e).pma = s.pma := by
  rw [clearDtog]
  split <;> rfl

@[simp] theorem events_setEp : (s.setEp dir e ep).events d i = s.events d i := rfl
@[simp] theorem events_update : (s.update e u).events d i = s.events d i := rfl
@[simp] theorem events_transaction : (s.transaction e t).events d i = s.events d i := rfl
@[simp] theorem events_storePma : (s.storePma a value).events d i = s.events d i := rfl
@[simp] theorem events_writePma : (s.writePma buf addr n).events d i = s.events d i := rfl
@[simp] theorem events_clearDtog : (s.clearDtog dir e).events d i = s.events d i := by
  rw [clearDtog]
  split <;> rfl
@[simp] theorem events_log : (s.log event).events d i =
    s.events d i ++ if event.of = (d, i) then [event] else [] := by
  simp [events, log, List.filter_cons]

@[simp] theorem offset_setEp : (s.setEp dir e ep).pmaOffset = s.pmaOffset := rfl
@[simp] theorem offset_update : (s.update e u).pmaOffset = s.pmaOffset := rfl
@[simp] theorem offset_transaction : (s.transaction e t).pmaOffset = s.pmaOffset := rfl
@[simp] theorem offset_storePma : (s.storePma a value).pmaOffset = s.pmaOffset := rfl
@[simp] theorem offset_writePma : (s.writePma buf addr n).pmaOffset = s.pmaOffset := rfl
@[simp] theorem offset_log : (s.log event).pmaOffset = s.pmaOffset := rfl
@[simp] theorem offset_clearDtog : (s.clearDtog dir e).pmaOffset = s.pmaOffset := by
  rw [clearDtog]
  split <;> rfl

/-! ## Where a part of a step is not seen -/

theorem effect_other {side : EpSide} (other : u.isOf d = false) : u.effect d side = side := by
  cases u with
  | setStatus dir' wState | clearCtr dir' | dtog dir' =>
    have different : dir' ≠ d := by simpa [EpUpdate.isOf] using other
    simp [EpUpdate.effect, different]
  | setType | setAddress => rfl

theorem Same.update (other : i = e → u.isOf d = false) : Same d i s (s.update e u) := by
  refine ⟨?_, rfl, fun _ _ => rfl, rfl⟩
  rw [side_update]
  split
  case isTrue is => exact effect_other (other is)
  case isFalse => rfl

theorem Same.transaction (other : i = e → t.isOf d = false) : Same d i s (s.transaction e t) := by
  refine ⟨?_, rfl, fun _ _ => rfl, rfl⟩
  rw [side_transaction]
  split
  case isTrue is =>
    exact (view_next d t _).symm.trans ((epRegister_view d).event_other t _ (other is))
  case isFalse => rfl

theorem Same.clearDtog (other : (d, i) ≠ (dir, e)) : Same d i s (s.clearDtog dir e) := by
  constructor
  · rw [side_clearDtog, if_neg other]
  · rw [ep_clearDtog]
  · intro a _
    rw [pma_clearDtog]
  · rw [events_clearDtog]

theorem Same.setEp (other : (d, i) ≠ (dir, e)) : Same d i s (s.setEp dir e ep) :=
  ⟨rfl, by rw [ep_setEp, if_neg other], fun _ _ => rfl, rfl⟩

theorem Same.storePma (foreign : ¬s.Owns d i a) : Same d i s (s.storePma a value) := by
  refine ⟨rfl, rfl, ?_, rfl⟩
  intro b owns
  rw [pma_storePma, Function.update_of_ne]
  rintro rfl
  exact foreign owns

theorem Same.writePma (foreign : ∀ a, addr ≤ a → a < addr + n → ¬s.Owns d i a) :
    Same d i s (s.writePma buf addr n) := by
  refine ⟨rfl, rfl, ?_, rfl⟩
  intro a owns
  rw [pma_writePma]
  apply write_outside
  by_cases least : addr ≤ a
  · exact .inr (Nat.not_lt.mp fun most => foreign a least most owns)
  · exact .inl (Nat.not_le.mp least)

theorem Same.log (other : event.of ≠ (d, i)) : Same d i s (s.log event) :=
  ⟨rfl, rfl, fun _ _ => rfl, by rw [events_log, if_neg other, List.append_nil]⟩

end parts

/-! ## The buffers -/

/-- The buffers are regions of an arena behind the buffer descriptors. -/
def Buffers (s : Fsdev) : Prop :=
  ∃ arena : Arena (EpDir × Nat) usbBtableSize configUsbFsdevRamSize 2,
    arena.offset = s.pmaOffset ∧ ∀ d i, arena.region (d, i) = s.region d i

section buffers

variable {a : Nat}

theorem Buffers.congr (buffers : s.Buffers) (offset : s'.pmaOffset = s.pmaOffset)
    (regions : ∀ d i, s'.region d i = s.region d i) : s'.Buffers := by
  obtain ⟨arena, isOffset, isRegion⟩ := buffers
  exact ⟨arena, isOffset.trans offset.symm, fun d i => (isRegion d i).trans (regions d i).symm⟩

theorem Buffers.within (buffers : s.Buffers) (mem : (s.region d i).Mem a) : 128 ≤ a ∧ a < 512 := by
  obtain ⟨arena, -, isRegion⟩ := buffers
  rw [← isRegion] at mem
  have some : 0 < (arena.region (d, i)).len := by
    obtain ⟨least, most⟩ := mem
    omega
  obtain ⟨base, -⟩ := arena.inside (d, i) some
  have limit := arena.within.2
  have below := Arena.Mem.below arena mem
  simp only [usbBtableSize, configUsbdevEpNum, configUsbFsdevRamSize] at base limit
  exact ⟨Nat.le_trans base mem.1, Nat.lt_of_lt_of_le below limit⟩

theorem Buffers.len_le (buffers : s.Buffers) (d : EpDir) (i : Nat) : (s.region d i).len ≤ 512 := by
  obtain ⟨arena, -, isRegion⟩ := buffers
  rw [← isRegion]
  have limit := arena.within.2
  simp only [configUsbFsdevRamSize] at limit
  by_cases some : 0 < (arena.region (d, i)).len
  · have inside := arena.inside (d, i) some
    omega
  · omega

theorem pcdEp_lt (dir : EpDir) (below : e < configUsbdevEpNum) :
    pcdEpAddress dir e < 128 ∧ pcdEpCnt dir e < 128 := by
  rw [configUsbdevEpNum] at below
  cases dir <;> simp only [pcdEpAddress, pcdEpCnt] <;> omega

theorem pcdEp_ne (other : (d, i) ≠ (dir, e)) :
    pcdEpAddress dir e ≠ pcdEpAddress d i ∧ pcdEpCnt dir e ≠ pcdEpCnt d i ∧
      pcdEpAddress dir e ≠ pcdEpCnt d i ∧ pcdEpCnt dir e ≠ pcdEpAddress d i := by
  have different : d = dir → i ≠ e := fun is same => other (by rw [is, same])
  cases d <;> cases dir <;> simp [pcdEpAddress, pcdEpCnt] at different ⊢ <;> omega

/-- No other endpoint has a descriptor's words. -/
theorem Buffers.foreign_descriptor (buffers : s.Buffers) (below : e < configUsbdevEpNum)
    (other : (d, i) ≠ (dir, e)) :
    ¬s.Owns d i (pcdEpAddress dir e) ∧ ¬s.Owns d i (pcdEpCnt dir e) := by
  obtain ⟨addresses, counts, address, count⟩ := pcdEp_ne other
  obtain ⟨lowAddress, lowCount⟩ := pcdEp_lt dir below
  constructor
  · rintro (is | is | mem)
    · exact addresses is
    · exact address is
    · exact Nat.not_lt.mpr (buffers.within mem).1 lowAddress
  · rintro (is | is | mem)
    · exact count is
    · exact counts is
    · exact Nat.not_lt.mpr (buffers.within mem).1 lowCount

/-- No other endpoint has a buffer's words. -/
theorem Buffers.foreign_buffer (buffers : s.Buffers) (below : i < configUsbdevEpNum)
    (other : (d, i) ≠ (dir, e)) (mem : (s.region dir e).Mem a) : ¬s.Owns d i a := by
  obtain ⟨least, -⟩ := buffers.within mem
  obtain ⟨lowAddress, lowCount⟩ := pcdEp_lt d below
  rintro (rfl | rfl | both)
  · omega
  · omega
  · obtain ⟨arena, -, isRegion⟩ := buffers
    rw [← isRegion] at mem both
    exact arena.apart _ _ other a both mem

end buffers

/-! ## Calls and packets at one endpoint -/

/-- A transfer is under way: the host can take or send a packet, or has done so. -/
def Busy (d : EpDir) (i : Nat) (s : Fsdev) : Prop :=
  (s.side d i).ctr = true ∨ (s.side d i).stat = EpStatus.valid.code

instance : Decidable (s.Busy d i) := inferInstanceAs (Decidable (_ ∨ _))

/-- What an endpoint needs for its packets. -/
structure ReadyAt (d : EpDir) (i : Nat) (s : Fsdev) : Prop where
  enabled : s.Busy d i → (s.ep d i).epEnable = true
  sized : (s.ep d i).epEnable = true →
    0 < (s.ep d i).epMps ∧ (s.ep d i).epMps ≤ (s.ep d i).epPmaBufLen
  described : 0 < (s.ep d i).epPmaBufLen →
    (s.pma (pcdEpAddress d i)).toNat = (s.ep d i).epPmaAddr
  room : d = .rx → (s.ep d i).epEnable = true →
    (s.ep d i).epMps < 256 ∧ (s.ep d i).epMps ≤ rxBlockBytes (s.pma (pcdEpCnt d i))

structure Ready (s : Fsdev) : Prop where
  buffers : s.Buffers
  each : ∀ d i, i < configUsbdevEpNum → ReadyAt d i s

theorem Ready.mps_le (ready : s.Ready) (below : i < configUsbdevEpNum)
    (on : (s.ep d i).epEnable = true) : (s.ep d i).epMps ≤ 512 :=
  ((ready.each d i below).sized on).2.trans (ready.buffers.len_le d i)

theorem ReadyAt.same (ready : ReadyAt d i s) (same : Same d i s s') : ReadyAt d i s' := by
  have address := same.pma _ (.inl rfl)
  have count := same.pma _ (.inr (.inl rfl))
  obtain ⟨enabled, sized, described, room⟩ := ready
  constructor
  · rw [Busy, same.side, same.ep]
    exact enabled
  · rw [same.ep]
    exact sized
  · rw [address, same.ep]
    exact described
  · rw [count, same.ep]
    exact room

/-- A step at one direction of an endpoint, for a transfer. -/
structure Local (dir : EpDir) (e : Nat) (s s' : Fsdev) : Prop where
  same : ∀ d i, i < configUsbdevEpNum → (d, i) ≠ (dir, e) → Same d i s s'
  regions : ∀ d i, s'.region d i = s.region d i
  offset : s'.pmaOffset = s.pmaOffset
  mps : (s'.ep dir e).epMps = (s.ep dir e).epMps
  enable : (s'.ep dir e).epEnable = (s.ep dir e).epEnable
  address : s'.pma (pcdEpAddress dir e) = s.pma (pcdEpAddress dir e)
  room : rxBlockBytes (s'.pma (pcdEpCnt dir e)) = rxBlockBytes (s.pma (pcdEpCnt dir e)) ∨ dir = .tx
  busy : s'.Busy dir e → (s.ep dir e).epEnable = true ∨ s.Busy dir e

section steps

variable {ep : FsdevEp} {value : BitVec 16} {buf : Nat → Byte} {n : Nat} {event : FsdevEvent}

theorem Local.trans (first : Local dir e s s') (second : Local dir e s' s'') :
    Local dir e s s'' where
  same d i below other := (first.same d i below other).trans (second.same d i below other)
  regions d i := (second.regions d i).trans (first.regions d i)
  offset := second.offset.trans first.offset
  mps := second.mps.trans first.mps
  enable := second.enable.trans first.enable
  address := second.address.trans first.address
  room := by
    obtain same | out := second.room
    · exact first.room.imp_left same.trans
    · exact .inr out
  busy now := by
    obtain on | before := second.busy now
    · exact .inl (first.enable ▸ on)
    · exact first.busy before

theorem Local.refl : Local dir e s s :=
  ⟨fun _ _ _ _ => .refl, fun _ _ => rfl, rfl, rfl, rfl, rfl, .inl rfl, .inr⟩

theorem Buffers.local (buffers : s.Buffers) (step : Local dir e s s') : s'.Buffers :=
  buffers.congr step.offset step.regions

theorem Ready.local (ready : s.Ready) (step : Local dir e s s') : s'.Ready := by
  refine ⟨ready.buffers.local step, ?_⟩
  intro d i below
  by_cases is : (d, i) = (dir, e)
  · cases is
    obtain ⟨enabled, sized, described, room⟩ := ready.each dir e below
    have region := step.regions dir e
    simp only [Fsdev.region, Region.mk.injEq] at region
    obtain ⟨addr, len⟩ := region
    constructor
    · intro busy
      rw [step.enable]
      exact (step.busy busy).elim id enabled
    · rw [step.enable, step.mps, len]
      exact sized
    · rw [len, step.address, addr]
      exact described
    · rintro rfl
      rw [step.enable, step.mps]
      obtain same | out := step.room
      · rw [same]
        exact room rfl
      · cases out
  · exact (ready.each d i below).same (step.same d i below is)

theorem Local.setStatus {wState : EpStatus}
    (on : wState = .valid → (s.ep dir e).epEnable = true) :
    Local dir e s (s.update e (.setStatus dir wState)) where
  same d i _ other := by
    apply Same.update
    rintro rfl
    have different : dir ≠ d := fun is => other (by rw [is])
    simp [EpUpdate.isOf, different]
  regions _ _ := rfl
  offset := rfl
  mps := rfl
  enable := rfl
  address := rfl
  room := .inl rfl
  busy now := by
    simp only [Busy, side_update, if_true, EpUpdate.effect] at now
    obtain flag | valid := now
    · exact .inr (.inl flag)
    · cases wState <;> simp [EpStatus.code] at valid on
      exact .inl on

theorem Local.clearCtr : Local dir e s (s.update e (.clearCtr dir)) where
  same d i _ other := by
    apply Same.update
    rintro rfl
    have different : dir ≠ d := fun is => other (by rw [is])
    simp [EpUpdate.isOf, different]
  regions _ _ := rfl
  offset := rfl
  mps := rfl
  enable := rfl
  address := rfl
  room := .inl rfl
  busy now := by
    simp only [Busy, side_update, if_true, EpUpdate.effect] at now
    obtain flag | valid := now
    · cases flag
    · exact .inr (.inr valid)

theorem Local.done : Local dir e s (s.transaction e (.done dir)) where
  same d i _ other := by
    apply Same.transaction
    rintro rfl
    have different : dir ≠ d := fun is => other (by rw [is])
    simp [EpTransaction.isOf, different]
  regions _ _ := rfl
  offset := rfl
  mps := rfl
  enable := rfl
  address := rfl
  room := .inl rfl
  busy now := by
    simp only [Busy, side_transaction, if_true, EpTransaction.onSide, true_and] at now
    split at now
    case isTrue valid => exact .inr (.inr valid)
    case isFalse => exact .inr now

theorem Local.setEp (mps : ep.epMps = (s.ep dir e).epMps)
    (enable : ep.epEnable = (s.ep dir e).epEnable)
    (len : ep.epPmaBufLen = (s.ep dir e).epPmaBufLen)
    (addr : ep.epPmaAddr = (s.ep dir e).epPmaAddr) : Local dir e s (s.setEp dir e ep) where
  same d i _ other := Same.setEp other
  regions d i := by
    by_cases is : (d, i) = (dir, e)
    · cases is
      simp [Fsdev.region, len, addr]
    · rw [(Same.setEp is).region]
  offset := rfl
  mps := by simp [mps]
  enable := by simp [enable]
  address := rfl
  room := .inl rfl
  busy := .inr

theorem Local.log (here : event.of = (dir, e)) : Local dir e s (s.log event) where
  same _ _ _ other := Same.log (here ▸ Ne.symm other)
  regions _ _ := rfl
  offset := rfl
  mps := rfl
  enable := rfl
  address := rfl
  room := .inl rfl
  busy := .inr

theorem Local.storeCnt (buffers : s.Buffers) (below : e < configUsbdevEpNum)
    (room : rxBlockBytes value = rxBlockBytes (s.pma (pcdEpCnt dir e)) ∨ dir = .tx) :
    Local dir e s (s.storePma (pcdEpCnt dir e) value) where
  same d i _ other := Same.storePma (buffers.foreign_descriptor below other).2
  regions _ _ := rfl
  offset := rfl
  mps := rfl
  enable := rfl
  address := by
    rw [pma_storePma, Function.update_of_ne]
    cases dir <;> simp [pcdEpAddress, pcdEpCnt]
  room := by
    rw [pma_storePma, Function.update_self]
    exact room
  busy := .inr

/-- A packet that fits its buffer. -/
theorem Local.writePma (buffers : s.Buffers) (below : e < configUsbdevEpNum)
    (fits : n ≤ (s.ep dir e).epPmaBufLen) :
    Local dir e s (s.writePma buf (s.ep dir e).epPmaAddr n) := by
  have inside : ∀ a, (s.ep dir e).epPmaAddr ≤ a → a < (s.ep dir e).epPmaAddr + n →
      (s.region dir e).Mem a := fun a least most => ⟨least, by simp only [Fsdev.region]; omega⟩
  have low : ∀ a < 128, fsdevWritePma s.pma buf (s.ep dir e).epPmaAddr n a = s.pma a := by
    intro a small
    apply write_outside
    by_cases least : (s.ep dir e).epPmaAddr ≤ a
    · refine .inr (Nat.not_lt.mp fun most => ?_)
      exact Nat.not_lt.mpr (buffers.within (inside a least most)).1 small
    · exact .inl (Nat.not_le.mp least)
  obtain ⟨lowAddress, lowCount⟩ := pcdEp_lt dir below
  refine ⟨?_, fun _ _ => rfl, rfl, rfl, rfl, low _ lowAddress, .inl ?_, .inr⟩
  · intro d i below other
    apply Same.writePma
    intro a least most
    exact buffers.foreign_buffer below other (inside a least most)
  · rw [pma_writePma, low _ lowCount]

end steps

end Fsdev

end LoongsonEjtag
