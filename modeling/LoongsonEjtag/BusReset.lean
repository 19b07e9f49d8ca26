import LoongsonEjtag.TxSteps
import LoongsonEjtag.UsbRx

/-! # Bus resets

A bus reset clears `g_fsdev_udc` and with it the outstanding transfers, while the
rings and the busy flags of the glue stay as they are; `usbd_event_handler` does
nothing for `USBD_EVENT_RESET`.

* `usbGlue` — both endpoints, with bus resets and SET_CONFIGURATION requests at
  any point.
* `RecoveryOk` — the condition on the steps under which a reset does no harm.
* `bus_reset_recovery` — then the busy flag is right after every configuration
  and no assertion fails; `recovery_fails` is the other case.
-/

namespace LoongsonEjtag

open Lib (Byte Machine)

/-- `configuration` is that of `usbd_core.c` being nonzero; after a failed
    assertion nothing moves. -/
structure UsbGlue where
  rx : UsbRx
  tx : UsbTx
  configuration : Bool
  assertFailed : Bool

inductive UsbGlueInput where
  | packet (bytes : List Byte)
  | consume (len : BitVec 32)
  | usbtx (data : List Byte)
  | inComplete
  | busReset
  | setConfiguration
deriving DecidableEq

/-- The `memset` of the OUT endpoint, whose register the controller has cleared. -/
def UsbRx.disabled (u : UsbRx) : UsbRx := { u with outEp := ⟨0, false, 0, 0, 0, false, []⟩ }

/-- The `memset` of the IN endpoint, whose register the controller has cleared. -/
def UsbTx.disabled (t : UsbTx) : UsbTx :=
  { t with inEp := ⟨0, false, none, 0, 0, false, [], []⟩ }

namespace UsbGlue

variable (g : UsbGlue)

/-- `USBD_IRQHandler` for `USB_ISTR_RESET`, and `usbd_event_reset_handler`. -/
def busReset : UsbGlue :=
  { g with rx := g.rx.disabled, tx := g.tx.disabled, configuration := false }

/-- The end of an event handler, or its failed assertion. -/
def handled : Option UsbRx → UsbGlue
  | some rx => { g with rx := rx }
  | none => { g with assertFailed := true }

/-- `usbd_set_configuration`, and the event handler it ends in. -/
def setConfiguration : UsbGlue :=
  let g := { g with
    rx := g.rx.usbdSetEndpoint
    tx := g.tx.usbdSetEndpoint
    configuration := true }
  g.handled g.rx.usbdEventConfigured

def step : UsbGlueInput → Option UsbGlue
  | .packet bytes => (usbRxStep g.rx (.packet bytes)).map fun rx => { g with rx := rx }
  | .consume len => some { g with rx := g.rx.lsejtagImplUsbrxConsume len }
  | .usbtx data => some { g with tx := g.tx.lsejtagImplUsbtx data }
  | .inComplete =>
    if g.tx.inEp.txValid then some { g with tx := g.tx.usbdIrqHandler } else none
  | .busReset => some g.busReset
  | .setConfiguration => if g.configuration then none else some g.setConfiguration

end UsbGlue

/-- From `init_cherryusb` on, before the first configuration. -/
def usbGlue : Machine UsbGlue UsbGlueInput where
  init g := ∃ rxPool txPool, g = ⟨initCherryusb rxPool, UsbTx.initCherryusb txPool, false, false⟩
  step g input := if g.assertFailed then none else g.step input

/-- The region behind the input index of the RX ring takes a packet. -/
def RxRoom (u : UsbRx) : Prop :=
  u.rbEjtagRead.getUsed.toNat + 64 ≤ 2 ^ 8 ∧ u.rbEjtagRead.inIdx.toNat % 2 ^ 8 + 64 ≤ 2 ^ 8

instance (u : UsbRx) : Decidable (RxRoom u) := inferInstanceAs (Decidable (_ ∧ _))

/-- A reset comes while no IN transfer is outstanding, nothing is sent until the
    device is configured again, and then the RX ring takes a packet. -/
def RecoveryOk (g : UsbGlue) : UsbGlueInput → Prop
  | .busReset => g.tx.inEp.txValid = false
  | .usbtx _ => g.configuration = true
  | .setConfiguration => RxRoom g.rx
  | _ => True

instance (g : UsbGlue) : ∀ input, Decidable (RecoveryOk g input)
  | .busReset => inferInstanceAs (Decidable (_ = _))
  | .usbtx _ => inferInstanceAs (Decidable (_ = _))
  | .setConfiguration => inferInstanceAs (Decidable (RxRoom _))
  | .packet _ => inferInstanceAs (Decidable True)
  | .consume _ => inferInstanceAs (Decidable True)
  | .inComplete => inferInstanceAs (Decidable True)

/-- Once configured, the flag is up only while a transfer is outstanding, and
    after every call one is; the assertion of the configuration event holds. -/
structure BusRecovered (g : UsbGlue) : Prop where
  flag : g.configuration = true → g.tx.epTxBusyFlag = true → g.tx.inEp.txValid = true
  assertion : g.assertFailed = false
  reaches : g.configuration = true → ∀ data, (g.tx.lsejtagImplUsbtx data).inEp.txValid = true

/-! ## The invariant -/

/-- An IN path that is switched off and has nothing to send. -/
structure UsbTx.InRest (t : UsbTx) : Prop where
  disabled : t.inEp.epEnable = false
  noTransfer : t.inEp.txValid = false
  flag : t.epTxBusyFlag = false
  empty : t.rbEjtagWrite.unread = []

structure RecoveryInv (g : UsbGlue) : Prop where
  assertion : g.assertFailed = false
  on : g.configuration = true → g.tx.InFlow
  off : g.configuration = false → g.tx.InRest

variable {g g' : UsbGlue}

theorem UsbTx.InRest.configured {t : UsbTx} (rest : t.InRest) : t.usbdSetEndpoint.InFlow := by
  have idle : t.usbdSetEndpoint.inEp.txValid = false := rest.noTransfer
  have absurdly {P : Prop} (valid : t.usbdSetEndpoint.inEp.txValid = true) : P :=
    absurd (idle.symm.trans valid) nofun
  exact ⟨⟨rfl, rfl, rfl, absurdly, absurdly, absurdly, absurdly⟩,
    rest.flag.trans rest.noTransfer.symm, fun _ => rest.empty⟩

theorem UsbTx.InFlow.reset {t : UsbTx} (flow : t.InFlow) (idle : t.inEp.txValid = false) :
    t.disabled.InRest :=
  ⟨rfl, rfl, flow.busy.trans idle, flow.idle idle⟩

/-- The assertion is the condition on the ring. -/
theorem usbdEventConfigured_isSome_iff (u : UsbRx) :
    u.usbdSetEndpoint.usbdEventConfigured.isSome ↔ RxRoom u := by
  have mps : (u.usbdSetEndpoint.usbdGetEpMps).toNat = 64 := rfl
  have sound := u.rbEjtagRead.toNat_getUsed_le
  have inRing : u.rbEjtagRead.inIdx.toNat % 2 ^ 8 < 2 ^ 8 := Nat.mod_lt _ (by decide)
  have avail := u.rbEjtagRead.linearWriteSetup_eq.1
  have ring : u.usbdSetEndpoint.rbEjtagRead = u.rbEjtagRead := rfl
  rw [UsbRx.usbdEventConfigured, ring]
  simp only [Option.isSome_ite, ge_iff_le, BitVec.le_def, mps, RxRoom]
  rw [avail]
  omega

theorem setConfiguration_rx (g : UsbGlue) :
    g.setConfiguration.tx = g.tx.usbdSetEndpoint ∧ g.setConfiguration.configuration = true ∧
      (g.setConfiguration.assertFailed = false ↔ g.assertFailed = false ∧ RxRoom g.rx) := by
  have room := usbdEventConfigured_isSome_iff g.rx
  rw [UsbGlue.setConfiguration]
  generalize g.rx.usbdSetEndpoint.usbdEventConfigured = event at room ⊢
  cases event with
  | some rx => exact ⟨rfl, rfl, fun holds => ⟨holds, room.mp rfl⟩, fun both => both.1⟩
  | none => exact ⟨rfl, rfl, nofun, fun both => absurd (room.mpr both.2) nofun⟩

theorem RecoveryInv.step {input : UsbGlueInput} (inv : RecoveryInv g) (ok : RecoveryOk g input)
    (stepped : usbGlue.step g input = some g') : RecoveryInv g' := by
  obtain ⟨assertion, on, off⟩ := inv
  obtain ⟨-, stepped⟩ := Option.ite_none_left_eq_some.mp stepped
  cases input with
  | packet bytes =>
    obtain ⟨rx, -, rfl⟩ := Option.map_eq_some_iff.mp stepped
    exact ⟨assertion, on, off⟩
  | consume len =>
    obtain rfl := Option.some.inj stepped
    exact ⟨assertion, on, off⟩
  | usbtx data =>
    obtain rfl := Option.some.inj stepped
    have configured : g.configuration = true := ok
    exact ⟨assertion, fun _ => (on configured).usbtx data,
      fun not => absurd (configured.symm.trans not) nofun⟩
  | inComplete =>
    obtain ⟨valid, completed⟩ := Option.ite_none_right_eq_some.mp stepped
    obtain rfl := Option.some.inj completed
    refine ⟨assertion, fun configured => (on configured).inComplete valid, fun not => ?_⟩
    exact absurd ((off not).noTransfer.symm.trans valid) nofun
  | busReset =>
    obtain rfl := Option.some.inj stepped
    -- The device is not configured any more, with the flag and the ring as they were.
    refine ⟨assertion, nofun, fun _ => ?_⟩
    cases configured : g.configuration with
    | true => exact (on configured).reset ok
    | false => exact ⟨rfl, rfl, (off configured).flag, (off configured).empty⟩
  | setConfiguration =>
    obtain ⟨not, configured⟩ := Option.ite_none_left_eq_some.mp stepped
    obtain rfl := Option.some.inj configured
    obtain ⟨tx, configuration, holds⟩ := setConfiguration_rx g
    refine ⟨holds.mpr ⟨assertion, ok⟩, fun _ => ?_, fun not => ?_⟩
    · rw [tx]
      exact (off (Bool.not_eq_true _ ▸ not)).configured
    · exact absurd (configuration.symm.trans not) nofun

/-! ## Runs -/

theorem recoveryInv (reach : usbGlue.Reach RecoveryOk g) : RecoveryInv g := by
  refine reach.invariant ?_ fun _ _ _ _ inv ok stepped => inv.step ok stepped
  rintro _ ⟨rxPool, txPool, rfl⟩
  exact ⟨rfl, nofun, fun _ => ⟨rfl, rfl, rfl, ChryRingbuffer.unread_fresh rfl rfl⟩⟩

theorem UsbTx.InFlow.usbtx_outstanding {t : UsbTx} (flow : t.InFlow) (data : List Byte) :
    (t.lsejtagImplUsbtx data).inEp.txValid = true := by
  have called := UsbTx.lsejtagImplUsbtx_called flow.ready data
  generalize t.lsejtagImplUsbtx data = t' at called ⊢
  cases called with
  | busy flag => exact flow.busy.symm.trans flag
  | started => rfl

/-- Runs that meet the condition recover from every bus reset.  A run ends where a
    packet would be copied past the end of the OUT pool. -/
theorem bus_reset_recovery (reach : usbGlue.Reach RecoveryOk g) : BusRecovered g := by
  obtain ⟨assertion, on, -⟩ := recoveryInv reach
  exact ⟨fun configured flag => (on configured).busy.symm.trans flag, assertion,
    fun configured data => (on configured).usbtx_outstanding data⟩

/-- A reset behind the end of a transmission, with 10 bytes unread in the RX ring. -/
theorem bus_reset_recovery_idle : ∃ g, BusRecovered g ∧ g.configuration = true ∧
    g.rx.rbEjtagRead.unread = List.replicate 10 7 := by
  have ran : (usbGlue.run RecoveryOk
      ⟨initCherryusb (Vector.replicate _ 0), UsbTx.initCherryusb (Vector.replicate _ 0),
        false, false⟩
      [.setConfiguration, .packet (List.replicate 10 7), .usbtx [1, 2, 3], .inComplete, .busReset,
        .setConfiguration]).any (fun g =>
          decide (g.configuration = true ∧
            g.rx.rbEjtagRead.unread = List.replicate 10 7)) = true := by
    decide +kernel
  obtain ⟨g, reach, holds⟩ := Machine.exists_reach (M := usbGlue) _ ⟨_, _, rfl⟩ ran
  exact ⟨g, bus_reset_recovery reach, of_decide_eq_true holds⟩

/-- The condition is exact: with a step that does not meet it, and a
    SET_CONFIGURATION behind it if it is not one itself, the flag is up with no
    transfer outstanding or the assertion has failed. -/
theorem recovery_fails {input : UsbGlueInput} (reach : usbGlue.Reach RecoveryOk g)
    (stepped : usbGlue.step g input = some g') (harmful : ¬RecoveryOk g input) :
    ¬BusRecovered g' ∨ ¬BusRecovered g'.setConfiguration := by
  obtain ⟨assertion, on, off⟩ := recoveryInv reach
  obtain ⟨-, stepped⟩ := Option.ite_none_left_eq_some.mp stepped
  -- A flag that is up while the endpoint is switched off stays up.
  have flagStays (flag : g'.tx.epTxBusyFlag = true) (idle : g'.tx.inEp.txValid = false) :
      ¬BusRecovered g'.setConfiguration := by
    intro recovered
    obtain ⟨tx, configuration, -⟩ := setConfiguration_rx g'
    have valid := recovered.flag configuration (by rw [tx]; exact flag)
    rw [tx] at valid
    exact absurd (idle.symm.trans valid) nofun
  cases input with
  | packet => exact absurd trivial harmful
  | consume => exact absurd trivial harmful
  | inComplete => exact absurd trivial harmful
  | busReset =>
    obtain rfl := Option.some.inj stepped
    have valid : g.tx.inEp.txValid = true := Bool.not_eq_false _ ▸ harmful
    refine .inr (flagStays ?_ rfl)
    change g.tx.epTxBusyFlag = true
    cases configured : g.configuration with
    | true => exact (on configured).busy.trans valid
    | false => exact absurd ((off configured).noTransfer.symm.trans valid) nofun
  | usbtx data =>
    obtain rfl := Option.some.inj stepped
    have rest := off (Bool.not_eq_true _ ▸ harmful)
    have idle : (!(g.tx.ringbufferWrite data).epTxBusyFlag) = true := by
      change (!g.tx.epTxBusyFlag) = true
      rw [rest.flag]
      rfl
    -- The endpoint refuses the transfer.
    have refused : (g.tx.ringbufferWrite data).sendOldest = g.tx.ringbufferWrite data := by
      have disabled : (g.tx.ringbufferWrite data).inEp.epEnable = false := rest.disabled
      simp [UsbTx.sendOldest, UsbTx.usbdEpStartWrite, disabled]
    refine .inr (flagStays ?_ ?_)
    · change (g.tx.lsejtagImplUsbtx data).epTxBusyFlag = true
      rw [UsbTx.lsejtagImplUsbtx, if_pos idle]
    · change (g.tx.lsejtagImplUsbtx data).inEp.txValid = false
      rw [UsbTx.lsejtagImplUsbtx, if_pos idle, refused]
      exact rest.noTransfer
  | setConfiguration =>
    obtain ⟨-, configured⟩ := Option.ite_none_left_eq_some.mp stepped
    obtain rfl := Option.some.inj configured
    refine .inl fun recovered => harmful ?_
    exact ((setConfiguration_rx g).2.2.mp recovered.assertion).2

/-- A reset under a transfer of 3 bytes: the flag stays up, and after the
    configuration 2 more bytes are in the ring with no transfer outstanding. -/
theorem reset_under_transfer : ∃ g, usbGlue.Reachable g ∧ ¬BusRecovered g ∧
    g.tx.rbEjtagWrite.unread = [1, 2, 3, 4, 5] ∧ g.tx.inEp.txValid = false := by
  have ran : (usbGlue.run Machine.anyAction
      ⟨initCherryusb (Vector.replicate _ 0), UsbTx.initCherryusb (Vector.replicate _ 0),
        false, false⟩
      [.setConfiguration, .usbtx [1, 2, 3], .busReset, .setConfiguration, .usbtx [4, 5]]).any
        (fun g => decide ((g.configuration = true ∧ g.tx.epTxBusyFlag = true) ∧
          g.tx.rbEjtagWrite.unread = [1, 2, 3, 4, 5] ∧ g.tx.inEp.txValid = false)) = true := by
    decide +kernel
  obtain ⟨g, reach, holds⟩ := Machine.exists_reach (M := usbGlue) _ ⟨_, _, rfl⟩ ran
  obtain ⟨⟨configured, flag⟩, unread, idle⟩ := of_decide_eq_true holds
  refine ⟨g, reach, fun recovered => ?_, unread, idle⟩
  exact absurd (idle.symm.trans (recovered.flag configured flag)) nofun

end LoongsonEjtag
