import LoongsonEjtag.Lib.FieldRegister
import LoongsonEjtag.Lib.SharedRegister
import Mathlib.Data.Fintype.Basic

/-! # The endpoint registers of the USB controller

The macros of `usb_fsdev_reg.h` that write an endpoint register read it first, and the
controller, an interrupt or the main loop can change it in between.

* `usbEp` — which bits of the register a store can clear, toggle or set.
* `EpUpdate.value` — what each macro stores, for what it has read.
* `view_store` — what a store does to one direction of the endpoint, whatever has changed
  since the read.
* `epRegister` — the register, as the driver and the transactions on the bus share it.
* `directions_independent` — one direction of an endpoint sees nothing of the other.
* `updates_linearize` — if a status is updated by one party at a time, and only while no
  transaction can take place, each update does what it is for.
-/

namespace LoongsonEjtag

open Lib (FieldRegister Machine SharedRegister)

/-! ## The register -/

/-- `EPnR`. -/
def usbEp : FieldRegister 16 where
  clears := 0x8080
  toggles := 0x7070
  plain := 0x070f
  clears_toggles := by decide
  clears_plain := by decide
  toggles_plain := by decide

inductive EpDir where
  | rx
  | tx
deriving DecidableEq, Repr

def EpDir.other : EpDir → EpDir
  | .rx => .tx
  | .tx => .rx

/-- `USB_EP_CTR_RX` and `USB_EP_CTR_TX`. -/
def usbEpCtr : EpDir → BitVec 16
  | .rx => 0x8000
  | .tx => 0x0080

/-- `USB_EP_DTOG_RX` and `USB_EP_DTOG_TX`. -/
def usbEpDtog : EpDir → BitVec 16
  | .rx => 0x4000
  | .tx => 0x0040

/-- `USB_EPRX_STAT` and `USB_EPTX_STAT`. -/
def usbEpStat : EpDir → BitVec 16
  | .rx => 0x3000
  | .tx => 0x0030

/-- `USB_EPRX_DTOG1` and `USB_EPTX_DTOG1`. -/
def usbEpDtog1 : EpDir → BitVec 16
  | .rx => 0x1000
  | .tx => 0x0010

/-- `USB_EPRX_DTOG2` and `USB_EPTX_DTOG2`. -/
def usbEpDtog2 : EpDir → BitVec 16
  | .rx => 0x2000
  | .tx => 0x0020

def usbEpSetup : BitVec 16 := 0x0800
def usbEpTField : BitVec 16 := 0x0600
def usbEpKind : BitVec 16 := 0x0100
def usbEpaddrField : BitVec 16 := 0x000f

def usbEpregMask : BitVec 16 :=
  usbEpCtr .rx ||| usbEpSetup ||| usbEpTField ||| usbEpKind ||| usbEpCtr .tx ||| usbEpaddrField

inductive EpStatus where
  | dis
  | stall
  | nak
  | valid
deriving DecidableEq, Repr

/-- `USB_EP_RX_DIS` and so on. -/
def usbEpStatus : EpDir → EpStatus → BitVec 16
  | _, .dis => 0x0000
  | .rx, .stall => 0x1000
  | .rx, .nak => 0x2000
  | .rx, .valid => 0x3000
  | .tx, .stall => 0x0010
  | .tx, .nak => 0x0020
  | .tx, .valid => 0x0030

/-! ## The macros -/

/-- `PCD_SET_EP_RX_STATUS` and `PCD_SET_EP_TX_STATUS`. -/
def pcdSetEpStatus (dir : EpDir) (wState : EpStatus) (read : BitVec 16) : BitVec 16 :=
  let wRegVal := read &&& (usbEpStat dir ||| usbEpregMask)
  let wRegVal := if usbEpDtog1 dir &&& usbEpStatus dir wState ≠ 0 then
    wRegVal ^^^ usbEpDtog1 dir else wRegVal
  let wRegVal := if usbEpDtog2 dir &&& usbEpStatus dir wState ≠ 0 then
    wRegVal ^^^ usbEpDtog2 dir else wRegVal
  wRegVal ||| usbEpCtr .rx ||| usbEpCtr .tx

/-- `PCD_CLEAR_RX_EP_CTR` and `PCD_CLEAR_TX_EP_CTR`. -/
def pcdClearEpCtr (dir : EpDir) (read : BitVec 16) : BitVec 16 :=
  read &&& (~~~usbEpCtr dir &&& usbEpregMask) ||| usbEpCtr dir.other

/-- `PCD_RX_DTOG` and `PCD_TX_DTOG`. -/
def pcdDtog (dir : EpDir) (read : BitVec 16) : BitVec 16 :=
  read &&& usbEpregMask ||| usbEpCtr .rx ||| usbEpCtr .tx ||| usbEpDtog dir

/-- `PCD_SET_EPTYPE`. -/
def pcdSetEptype (wType : BitVec 16) (read : BitVec 16) : BitVec 16 :=
  read &&& (~~~usbEpTField &&& usbEpregMask) ||| wType ||| usbEpCtr .tx ||| usbEpCtr .rx

/-- `PCD_SET_EP_ADDRESS`. -/
def pcdSetEpAddress (bAddr : BitVec 16) (read : BitVec 16) : BitVec 16 :=
  (read &&& usbEpregMask ||| bAddr) ||| usbEpCtr .rx ||| usbEpCtr .tx

/-- `wType` and `bAddr` have no bits outside their fields. -/
inductive EpUpdate where
  | setStatus (dir : EpDir) (wState : EpStatus)
  | clearCtr (dir : EpDir)
  | dtog (dir : EpDir)
  | setType (wType : BitVec 2)
  | setAddress (bAddr : BitVec 4)
deriving DecidableEq, Repr

def EpUpdate.value : EpUpdate → BitVec 16 → BitVec 16
  | .setStatus dir wState, read => pcdSetEpStatus dir wState read
  | .clearCtr dir, read => pcdClearEpCtr dir read
  | .dtog dir, read => pcdDtog dir read
  | .setType wType, read => pcdSetEptype (wType.setWidth 16 <<< 9) read
  | .setAddress bAddr, read => pcdSetEpAddress (bAddr.setWidth 16) read

/-! ## One direction -/

/-- The flag, the toggle and the status of a direction. -/
structure EpSide where
  ctr : Bool
  dtog : Bool
  stat : BitVec 2
deriving DecidableEq, Repr

/-- The first status bit. -/
def EpDir.pos : EpDir → Nat
  | .rx => 12
  | .tx => 4

def EpDir.view (dir : EpDir) (reg : BitVec 16) : EpSide :=
  ⟨reg.getLsbD (dir.pos + 3), reg.getLsbD (dir.pos + 2), reg.extractLsb' dir.pos 2⟩

def EpStatus.code : EpStatus → BitVec 2
  | .dis => 0
  | .stall => 1
  | .nak => 2
  | .valid => 3

/-- The bits that an update stores in a direction; `read` is the status it has read there. -/
def EpUpdate.stored (dir : EpDir) (read : BitVec 2) : EpUpdate → EpSide
  | .setStatus dir' wState => ⟨true, false, if dir' = dir then read ^^^ wState.code else 0⟩
  | .clearCtr dir' => ⟨decide (dir' ≠ dir), false, 0⟩
  | .dtog dir' => ⟨true, decide (dir' = dir), 0⟩
  | .setType _ | .setAddress _ => ⟨true, false, 0⟩

/-- What an update does to a direction; `held` is what it has read. -/
def EpUpdate.onSide (dir : EpDir) (held now : EpSide) (u : EpUpdate) : EpSide :=
  let stored := u.stored dir held.stat
  ⟨now.ctr && stored.ctr, now.dtog ^^ stored.dtog, now.stat ^^^ stored.stat⟩

theorem view_ext {dir : EpDir} {reg : BitVec 16} {side : EpSide}
    (ctr : reg.getLsbD (dir.pos + 3) = side.ctr) (dtog : reg.getLsbD (dir.pos + 2) = side.dtog)
    (high : reg.getLsbD (dir.pos + 1) = side.stat.getLsbD 1)
    (low : reg.getLsbD dir.pos = side.stat.getLsbD 0) : dir.view reg = side := by
  have stat : reg.extractLsb' dir.pos 2 = side.stat := by
    apply BitVec.eq_of_getLsbD_eq
    intro k below
    rw [BitVec.getLsbD_extractLsb', decide_eq_true below, Bool.true_and]
    match k, below with
    | 0, _ => exact low
    | 1, _ => exact high
  rw [EpDir.view, ctr, dtog, stat]

theorem getLsbD_stat (dir : EpDir) (reg : BitVec 16) :
    (dir.view reg).stat.getLsbD 0 = reg.getLsbD dir.pos ∧
      (dir.view reg).stat.getLsbD 1 = reg.getLsbD (dir.pos + 1) := by
  simp [EpDir.view]

/-- In each direction an update stores what it means to, whatever is in the other. -/
theorem view_value (dir : EpDir) (u : EpUpdate) (read : BitVec 16) :
    dir.view (u.value read) = u.stored dir (dir.view read).stat := by
  cases u with
  | setStatus dir' wState =>
    cases dir <;> cases dir' <;> cases wState <;> apply view_ext <;>
      simp [EpUpdate.value, EpUpdate.stored, pcdSetEpStatus, usbEpDtog1, usbEpDtog2, usbEpStatus,
        usbEpStat, usbEpregMask, usbEpCtr, usbEpSetup, usbEpTField, usbEpKind, usbEpaddrField,
        EpDir.pos, EpStatus.code, EpDir.view]
  | clearCtr dir' =>
    cases dir <;> cases dir' <;> apply view_ext <;>
      simp [EpUpdate.value, EpUpdate.stored, pcdClearEpCtr, usbEpregMask, usbEpCtr, usbEpSetup,
        usbEpTField, usbEpKind, usbEpaddrField, EpDir.pos, EpDir.other]
  | dtog dir' =>
    cases dir <;> cases dir' <;> apply view_ext <;>
      simp [EpUpdate.value, EpUpdate.stored, pcdDtog, usbEpregMask, usbEpCtr, usbEpSetup,
        usbEpTField, usbEpKind, usbEpaddrField, EpDir.pos, usbEpDtog]
  | setType wType =>
    cases dir <;> apply view_ext <;>
      simp [EpUpdate.value, EpUpdate.stored, pcdSetEptype, usbEpregMask, usbEpCtr, usbEpSetup,
        usbEpTField, usbEpKind, usbEpaddrField, EpDir.pos]
  | setAddress bAddr =>
    cases dir <;> apply view_ext <;>
      simp [EpUpdate.value, EpUpdate.stored, pcdSetEpAddress, usbEpregMask, usbEpCtr, usbEpSetup,
        usbEpTField, usbEpKind, usbEpaddrField, EpDir.pos]

theorem view_store (dir : EpDir) (u : EpUpdate) (read now : BitVec 16) :
    dir.view (usbEp.store now (u.value read)) = u.onSide dir (dir.view read) (dir.view now) := by
  obtain ⟨nowLow, nowHigh⟩ := getLsbD_stat dir now
  obtain ⟨low, high⟩ := getLsbD_stat dir (u.value read)
  have value := view_value dir u read
  apply view_ext
  · rw [FieldRegister.getLsbD_store_clears (by cases dir <;> decide), EpUpdate.onSide, ← value]
    rfl
  · rw [FieldRegister.getLsbD_store_toggles (by cases dir <;> decide), EpUpdate.onSide, ← value]
    rfl
  · rw [FieldRegister.getLsbD_store_toggles (by cases dir <;> decide), EpUpdate.onSide, ← value,
      BitVec.getLsbD_xor, nowHigh, high]
  · rw [FieldRegister.getLsbD_store_toggles (by cases dir <;> decide), EpUpdate.onSide, ← value,
      BitVec.getLsbD_xor, nowLow, low]

/-! ## Transactions -/

/-- What the controller does by itself: it completes a transaction of a direction that is
    valid, and takes a SETUP packet at any time. -/
inductive EpTransaction where
  | done (dir : EpDir)
  | setup
deriving DecidableEq, Repr

def EpTransaction.next (reg : BitVec 16) : EpTransaction → BitVec 16
  | .done dir =>
    if (dir.view reg).stat = EpStatus.valid.code then
      ((reg ||| usbEpCtr dir) ^^^ (usbEpDtog dir ||| usbEpDtog1 dir)) &&&
        match dir with
        | .rx => ~~~usbEpSetup
        | .tx => ~~~0
    else reg
  | .setup =>
    (reg ||| usbEpCtr .rx ||| usbEpSetup ||| usbEpDtog .rx ||| usbEpDtog .tx |||
      usbEpDtog2 .rx ||| usbEpDtog2 .tx) &&& ~~~(usbEpDtog1 .rx ||| usbEpDtog1 .tx)

/-- What that is for a direction. -/
def EpTransaction.onSide (dir : EpDir) (side : EpSide) : EpTransaction → EpSide
  | .done dir' =>
    if dir' = dir ∧ side.stat = EpStatus.valid.code then ⟨true, !side.dtog, EpStatus.nak.code⟩
    else side
  | .setup => ⟨decide (dir = .rx) || side.ctr, true, EpStatus.nak.code⟩

theorem view_next (dir : EpDir) (t : EpTransaction) (reg : BitVec 16) :
    dir.view (t.next reg) = t.onSide dir (dir.view reg) := by
  cases t with
  | setup =>
    cases dir <;> apply view_ext <;>
      simp [EpTransaction.next, EpTransaction.onSide, usbEpCtr, usbEpSetup, usbEpDtog, usbEpDtog1,
        usbEpDtog2, EpDir.pos, EpStatus.code, EpDir.view]
  | done dir' =>
    by_cases valid : (dir'.view reg).stat = EpStatus.valid.code
    · obtain ⟨low, high⟩ := getLsbD_stat dir' reg
      rw [valid] at low high
      by_cases same : dir' = dir
      · subst same
        simp only [EpTransaction.next, EpTransaction.onSide, valid, and_self, if_true]
        cases dir' <;> simp [EpDir.pos, EpStatus.code] at low high <;> apply view_ext <;>
          simp [low, high, usbEpCtr, usbEpSetup, usbEpDtog, usbEpDtog1, EpDir.pos, EpStatus.code,
            EpDir.view]
      · simp only [EpTransaction.next, EpTransaction.onSide, valid, same, false_and, if_true,
          if_false]
        cases dir <;> cases dir' <;> simp at same <;> apply view_ext <;>
          simp [usbEpCtr, usbEpSetup, usbEpDtog, usbEpDtog1, EpDir.pos, EpDir.view]
    · have idle : ¬(dir' = dir ∧ (dir.view reg).stat = EpStatus.valid.code) := by
        rintro ⟨rfl, now⟩
        exact valid now
      simp only [EpTransaction.next, EpTransaction.onSide, if_neg valid, if_neg idle]

/-! ## Sharing the register -/

/-- An endpoint register, with the macros for updates. -/
def epRegister : SharedRegister (BitVec 16) EpUpdate EpTransaction where
  store u read now := usbEp.store now (u.value read)
  event t now := t.next now

/-- A direction of it. -/
def epSide (dir : EpDir) : SharedRegister EpSide EpUpdate EpTransaction where
  store u read now := u.onSide dir read now
  event t now := t.onSide dir now

def EpUpdate.isOf (dir : EpDir) : EpUpdate → Bool
  | .setStatus dir' _ | .clearCtr dir' | .dtog dir' => dir' = dir
  | .setType _ | .setAddress _ => false

def EpTransaction.isOf (dir : EpDir) : EpTransaction → Bool
  | .done dir' => dir' = dir
  | .setup => true

theorem onSide_other {dir : EpDir} {u : EpUpdate} (other : u.isOf dir = false)
    (held now : EpSide) : u.onSide dir held now = now := by
  have nothing : u.stored dir held.stat = ⟨true, false, 0⟩ := by
    cases u with
    | setStatus dir' wState => simp_all [EpUpdate.stored, EpUpdate.isOf]
    | clearCtr dir' => simp_all [EpUpdate.stored, EpUpdate.isOf]
    | dtog dir' => simp_all [EpUpdate.stored, EpUpdate.isOf]
    | setType _ | setAddress _ => rfl
  simp [EpUpdate.onSide, nothing]

theorem epRegister_view (dir : EpDir) :
    epRegister.View (epSide dir) dir.view (EpUpdate.isOf dir) (EpTransaction.isOf dir) where
  store u read now _ := view_store dir u read now
  store_other u read now other := (view_store dir u read now).trans (onSide_other other _ _)
  event t now _ := view_next dir t now
  event_other t now other := by
    refine (view_next dir t now).trans ?_
    cases t with
    | done dir' =>
      have different : dir' ≠ dir := by simpa [EpTransaction.isOf] using other
      exact if_neg fun both => different both.1
    | setup => cases other

variable {ι : Type} [DecidableEq ι]

/-- However the updates of the parties and the transactions interleave, one direction of the
    endpoint is what its own make of it: no flag of a completed transaction is lost to an
    update of the other direction, and no status or data toggle is disturbed. -/
theorem directions_independent (dir : EpDir)
    {s s' : SharedRegister.State (BitVec 16) EpUpdate ι}
    {actions : List (SharedRegister.Action EpUpdate EpTransaction ι)}
    (ran : epRegister.machine.run Machine.anyAction s actions = some s') :
    (epSide dir).machine.run Machine.anyAction (s.project dir.view (EpUpdate.isOf dir))
      (actions.filter (·.concerns (EpUpdate.isOf dir) (EpTransaction.isOf dir))) =
        some (s'.project dir.view (EpUpdate.isOf dir)) :=
  SharedRegister.run_project (epRegister_view dir) ran

/-- The main loop (`false`) makes the IN direction valid, and between its read and its store a
    packet comes in and the interrupt clears its flag. -/
def preemptedUpdate : List (SharedRegister.Action EpUpdate EpTransaction Bool) :=
  [.read false (.setStatus .tx .valid), .event (.done .rx), .read true (.clearCtr .rx),
    .store true (.clearCtr .rx), .store false (.setStatus .tx .valid)]

/-- A register with a valid OUT and an idle IN direction, and no update under way. -/
def idleRegister : SharedRegister.State (BitVec 16) EpUpdate Bool := ⟨0x3022, fun _ => none⟩

theorem directions_independent_preempted :
    ∃ s : SharedRegister.State (BitVec 16) EpUpdate Bool,
      epRegister.machine.run Machine.anyAction idleRegister preemptedUpdate = some s ∧
      ((epSide .rx).machine.run Machine.anyAction
        (idleRegister.project EpDir.rx.view (EpUpdate.isOf .rx))
        [.event (.done .rx), .read true (.clearCtr .rx), .store true (.clearCtr .rx)]).map (·.reg) =
          some ⟨false, true, EpStatus.nak.code⟩ := by
  have computed : ((epRegister.machine.run Machine.anyAction idleRegister preemptedUpdate).map
      fun s => EpDir.rx.view s.reg) = some ⟨false, true, EpStatus.nak.code⟩ := by decide
  obtain ⟨s, ran, view⟩ := Option.map_eq_some_iff.mp computed
  have alone := directions_independent .rx ran
  exact ⟨s, ran, (congrArg (Option.map (·.reg)) alone).trans (congrArg some view)⟩

/-! ## One updater at a time -/

/-- What an update is for. -/
def EpUpdate.effect (dir : EpDir) (side : EpSide) : EpUpdate → EpSide
  | .setStatus dir' wState => if dir' = dir then { side with stat := wState.code } else side
  | .clearCtr dir' => if dir' = dir then { side with ctr := false } else side
  | .dtog dir' => if dir' = dir then { side with dtog := !side.dtog } else side
  | .setType _ | .setAddress _ => side

/-- As if an update were done when it is stored. -/
def effectOf (dir : EpDir) (side : EpSide) :
    SharedRegister.Action EpUpdate EpTransaction ι → EpSide
  | .read _ _ => side
  | .store _ u => u.effect dir side
  | .event t => t.onSide dir side

/-- An update of the status of `dir` is under way. -/
def holdsStatus (dir : EpDir) : Option (EpUpdate × BitVec 16) → Bool
  | some (.setStatus dir' _, _) => dir' = dir
  | _ => false

/-- The status of `dir` is updated by one party at a time, and not while it is valid; no
    SETUP packet comes in between. -/
def OneUpdater (dir : EpDir) (s : SharedRegister.State (BitVec 16) EpUpdate ι) :
    SharedRegister.Action EpUpdate EpTransaction ι → Prop
  | .read _ (.setStatus dir' _) => dir' = dir →
      (dir.view s.reg).stat ≠ EpStatus.valid.code ∧ ∀ party, holdsStatus dir (s.held party) = false
  | .event .setup => ∀ party, holdsStatus dir (s.held party) = false
  | _ => True

instance [Fintype ι] (dir : EpDir) (s : SharedRegister.State (BitVec 16) EpUpdate ι)
    (a : SharedRegister.Action EpUpdate EpTransaction ι) : Decidable (OneUpdater dir s a) :=
  match a with
  | .read _ (.setStatus _ _) => inferInstanceAs (Decidable (_ → _))
  | .event .setup => inferInstanceAs (Decidable (∀ _, _))
  | .read _ (.clearCtr _) | .read _ (.dtog _) | .read _ (.setType _) | .read _ (.setAddress _)
  | .store _ _ | .event (.done _) => isTrue trivial

/-- Whoever updates the status of `dir` has read the status that is there, and is alone. -/
def StatusHeld (dir : EpDir) (reg : BitVec 16) (held : ι → Option (EpUpdate × BitVec 16)) : Prop :=
  ∀ party wState read, held party = some (.setStatus dir wState, read) →
    (dir.view read).stat = (dir.view reg).stat ∧
      (dir.view reg).stat ≠ EpStatus.valid.code ∧
        ∀ other, other ≠ party → holdsStatus dir (held other) = false

section linear

variable {dir : EpDir} {s s' : SharedRegister.State (BitVec 16) EpUpdate ι} {reg : BitVec 16}
  {held : ι → Option (EpUpdate × BitVec 16)}

theorem effect_eq {u : EpUpdate} {read now : EpSide}
    (same : ∀ wState, u = .setStatus dir wState → read.stat = now.stat) :
    u.onSide dir read now = u.effect dir now := by
  cases u with
  | setStatus dir' wState =>
    by_cases is : dir' = dir
    · subst is
      have again : now.stat ^^^ (now.stat ^^^ wState.code) = wState.code := by
        rw [← BitVec.xor_assoc, BitVec.xor_self, BitVec.zero_xor]
      simp only [EpUpdate.onSide, EpUpdate.stored, EpUpdate.effect, same wState rfl, if_true,
        Bool.and_true, Bool.xor_false, again]
    · simp [EpUpdate.onSide, EpUpdate.stored, EpUpdate.effect, is]
  | clearCtr dir' =>
    by_cases is : dir' = dir <;> simp [EpUpdate.onSide, EpUpdate.stored, EpUpdate.effect, is]
  | dtog dir' =>
    by_cases is : dir' = dir <;> simp [EpUpdate.onSide, EpUpdate.stored, EpUpdate.effect, is]
  | setType _ | setAddress _ => simp [EpUpdate.onSide, EpUpdate.stored, EpUpdate.effect]

/-- Neither a store for anything but the status nor a completed transaction of a direction
    that is not valid changes the status. -/
theorem stat_effect {u : EpUpdate} {side : EpSide} (other : ∀ wState, u ≠ .setStatus dir wState) :
    (u.effect dir side).stat = side.stat := by
  cases u with
  | setStatus dir' wState =>
    have different : dir' ≠ dir := fun is => other wState (is ▸ rfl)
    simp [EpUpdate.effect, different]
  | clearCtr dir' => simp only [EpUpdate.effect]; split <;> rfl
  | dtog dir' => simp only [EpUpdate.effect]; split <;> rfl
  | setType _ | setAddress _ => rfl

theorem holdsStatus_iff {held : Option (EpUpdate × BitVec 16)} :
    holdsStatus dir held = true ↔ ∃ wState read, held = some (.setStatus dir wState, read) := by
  constructor
  · intro holds
    match held, holds with
    | some (.setStatus dir' wState, read), holds =>
      obtain rfl : dir' = dir := of_decide_eq_true holds
      exact ⟨wState, read, rfl⟩
  · rintro ⟨wState, read, rfl⟩
    exact decide_eq_true rfl

theorem StatusHeld.read (inv : StatusHeld dir reg held) {party : ι} {u : EpUpdate}
    (alone : ∀ wState, u = .setStatus dir wState → (dir.view reg).stat ≠ EpStatus.valid.code ∧
      ∀ other, holdsStatus dir (held other) = false) :
    StatusHeld dir reg (Function.update held party (some (u, reg))) := by
  intro holder wState read holds
  by_cases is : holder = party
  · subst is
    rw [Function.update_self] at holds
    cases holds
    obtain ⟨idle, others⟩ := alone wState rfl
    refine ⟨rfl, idle, fun other different => ?_⟩
    rw [Function.update_of_ne different]
    exact others other
  · rw [Function.update_of_ne is] at holds
    obtain ⟨same, idle, others⟩ := inv holder wState read holds
    refine ⟨same, idle, fun other different => ?_⟩
    by_cases reads : other = party
    · rw [reads, Function.update_self, Bool.eq_false_iff]
      intro updates
      obtain ⟨wState', _, pair⟩ := holdsStatus_iff.mp updates
      cases pair
      have noHolder := (alone wState' rfl).2 holder
      rw [Bool.eq_false_iff, Ne, holdsStatus_iff] at noHolder
      exact noHolder ⟨wState, read, holds⟩
    · rw [Function.update_of_ne reads]
      exact others other different

theorem StatusHeld.store (inv : StatusHeld dir reg held) {party : ι} {u : EpUpdate}
    {read : BitVec 16} (holds : held party = some (u, read)) :
    dir.view (usbEp.store reg (u.value read)) = u.effect dir (dir.view reg) ∧
      StatusHeld dir (usbEp.store reg (u.value read)) (Function.update held party none) := by
  have after : dir.view (usbEp.store reg (u.value read)) = u.effect dir (dir.view reg) := by
    rw [view_store]
    apply effect_eq
    rintro wState rfl
    exact (inv party wState read holds).1
  refine ⟨after, ?_⟩
  intro holder wState value keeps
  by_cases is : holder = party
  · rw [is, Function.update_self] at keeps
    cases keeps
  · rw [Function.update_of_ne is] at keeps
    obtain ⟨same, idle, others⟩ := inv holder wState value keeps
    have noStatus : ∀ wState', u ≠ .setStatus dir wState' := by
      rintro wState' rfl
      have noHolder := others party (Ne.symm is)
      rw [Bool.eq_false_iff, Ne, holdsStatus_iff] at noHolder
      exact noHolder ⟨wState', read, holds⟩
    rw [after, stat_effect noStatus]
    refine ⟨same, idle, fun other different => ?_⟩
    by_cases stores : other = party
    · rw [stores, Function.update_self]
      rfl
    · rw [Function.update_of_ne stores]
      exact others other different

omit [DecidableEq ι] in
theorem StatusHeld.event (inv : StatusHeld dir reg held) {t : EpTransaction}
    (between : t = .setup → ∀ party, holdsStatus dir (held party) = false) :
    StatusHeld dir (t.next reg) held := by
  intro holder wState read holds
  obtain ⟨same, idle, others⟩ := inv holder wState read holds
  cases t with
  | done dir' =>
    have kept : dir.view (EpTransaction.next reg (.done dir')) = dir.view reg :=
      (view_next dir _ reg).trans (if_neg fun both => idle both.2)
    rw [kept]
    exact ⟨same, idle, others⟩
  | setup =>
    have noHolder := between rfl holder
    rw [Bool.eq_false_iff, Ne, holdsStatus_iff] at noHolder
    exact absurd ⟨wState, read, holds⟩ noHolder

theorem StatusHeld.step {a : SharedRegister.Action EpUpdate EpTransaction ι}
    (inv : StatusHeld dir s.reg s.held) (one : OneUpdater dir s a)
    (stepped : epRegister.step s a = some s') :
    dir.view s'.reg = effectOf dir (dir.view s.reg) a ∧ StatusHeld dir s'.reg s'.held := by
  cases a with
  | read party u =>
    cases free : s.held party with
    | some _ => simp [SharedRegister.step, free] at stepped
    | none =>
      simp only [SharedRegister.step, free, Option.some.injEq] at stepped
      subst stepped
      refine ⟨rfl, inv.read ?_⟩
      rintro wState rfl
      exact one rfl
  | store party u =>
    cases holds : s.held party with
    | none => simp [SharedRegister.step, holds] at stepped
    | some pair =>
      obtain ⟨v, read⟩ := pair
      simp only [SharedRegister.step, holds] at stepped
      split at stepped
      · rename_i same
        subst same
        cases stepped
        exact inv.store holds
      · cases stepped
  | event t =>
    cases stepped
    refine ⟨view_next dir t s.reg, inv.event ?_⟩
    rintro rfl
    exact one

end linear

/-- In a run in which the status of a direction is updated by one party at a time, and only
    while the direction is not valid, the direction is as if every update were done at once
    when it is stored: the status is the one that was stored last, or that transactions have
    left since. -/
theorem updates_linearize [Fintype ι] (dir : EpDir)
    {s s' : SharedRegister.State (BitVec 16) EpUpdate ι} (idle : ∀ party, s.held party = none)
    {actions : List (SharedRegister.Action EpUpdate EpTransaction ι)}
    (ran : epRegister.machine.run (OneUpdater dir) s actions = some s') :
    dir.view s'.reg = actions.foldl (effectOf dir) (dir.view s.reg) := by
  have start : StatusHeld dir s.reg s.held := fun party wState read holds => by
    rw [idle party] at holds
    cases holds
  clear idle
  induction actions generalizing s with
  | nil =>
    cases ran
    rfl
  | cons a rest ih =>
    simp only [Machine.run] at ran
    split at ran
    · rename_i one
      obtain ⟨middle, stepped, ran⟩ := Option.bind_eq_some_iff.mp ran
      obtain ⟨after, held⟩ := start.step one stepped
      rw [List.foldl_cons, ← after]
      exact ih ran held
    · cases ran

theorem updates_linearize_preempted :
    ∃ s : SharedRegister.State (BitVec 16) EpUpdate Bool,
      epRegister.machine.run (OneUpdater .tx) idleRegister preemptedUpdate = some s ∧
      EpDir.tx.view s.reg = ⟨false, false, EpStatus.valid.code⟩ := by
  have ran : (epRegister.machine.run (OneUpdater .tx) idleRegister preemptedUpdate).isSome = true :=
    by decide
  obtain ⟨s, ran⟩ := Option.isSome_iff_exists.mp ran
  exact ⟨s, ran, (updates_linearize .tx (fun _ => rfl) ran).trans (by decide)⟩

end LoongsonEjtag
