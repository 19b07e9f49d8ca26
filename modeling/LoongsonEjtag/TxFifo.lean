import LoongsonEjtag.Lib.History
import LoongsonEjtag.TxSteps

/-! # The IN path is a queue that never stops

The duty to start a transfer alternates between the library and the completion
callback, and the busy flag says whose it is.

* `TxInv` — the invariant: the flag is up exactly while a transfer is
  outstanding, and without one nothing is unread.
* `usb_in_fifo` — completed and unread bytes are the written ones, and every
  transfer of whole packets is followed by a zero-length one.
-/

namespace LoongsonEjtag

open Lib (Byte Machine Each each_nil each_snoc)

/-- A zero-length transfer, or one that does not follow a transfer of whole packets. -/
def Follows (before : List (List Byte)) (payload : List Byte) : Prop :=
  ∀ last ∈ before.getLast?, WholePackets last → payload = []

/-- Resets of a ring in which bytes are unread, or under an outstanding transfer. -/
def UsbTxEvent.isWildReset : UsbTxEvent → Bool
  | .reset unread outstanding => !unread.isEmpty || outstanding
  | _ => false

structure TxInv (t : UsbTx) : Prop where
  ready : t.InReady
  inOrder : completedBytes t.trace ++ t.rbEjtagWrite.unread = writtenBytes t.trace
  busy : t.epTxBusyFlag = t.inEp.txValid
  idle : t.inEp.txValid = false → t.rbEjtagWrite.unread = []
  last : t.inEp.txValid = true → (startedPayloads t.trace).getLast? = some t.inEp.packet
  done : t.inEp.txValid = false → ∀ last ∈ (startedPayloads t.trace).getLast?, ¬WholePackets last
  follows : Each Follows (startedPayloads t.trace)
  tame : ∀ e ∈ t.trace, e.isWildReset = false

/-- Completed and unread bytes are the written ones; the flag tells whether a
    transfer is outstanding, which it is while bytes are unread; a zero-length
    transfer follows one of whole packets, and only that; resets find the ring
    empty and no transfer outstanding. -/
structure TxFifo (t : UsbTx) : Prop where
  inOrder : completedBytes t.trace ++ t.rbEjtagWrite.unread = writtenBytes t.trace
  busy : t.epTxBusyFlag = true ↔ t.inEp.txValid = true
  goesOn : t.rbEjtagWrite.unread ≠ [] → t.inEp.txValid = true
  follows : Each Follows (startedPayloads t.trace)
  terminated : ∀ last ∈ (startedPayloads t.trace).getLast?, WholePackets last →
    t.inEp.txValid = true
  resets : ∀ unread outstanding, .reset unread outstanding ∈ t.trace →
    unread = [] ∧ outstanding = false

variable {t t' : UsbTx}

/-! ## Steps -/

theorem TxInv.configured (pool : Vector Byte (2 ^ 8)) :
    TxInv (UsbTx.initCherryusb pool).usbdSetEndpoint where
  ready := ⟨rfl, rfl, rfl, nofun, nofun, nofun, nofun⟩
  inOrder := ChryRingbuffer.unread_fresh rfl rfl
  busy := rfl
  idle _ := ChryRingbuffer.unread_fresh rfl rfl
  last := nofun
  done _ := nofun
  follows := each_nil
  tame := nofun

theorem TxInv.flow (inv : TxInv t) : t.InFlow := ⟨inv.ready, inv.busy, inv.idle⟩

/-- A transfer starts while none is outstanding and the flag is up. -/
theorem TxInv.sending {data : Option Nat} {len : BitVec 32} {payload : List Byte}
    (flow : (t.sending data len payload).InFlow)
    (inOrder : completedBytes t.trace ++ t.rbEjtagWrite.unread = writtenBytes t.trace)
    (next : Follows (startedPayloads t.trace) payload)
    (follows : Each Follows (startedPayloads t.trace))
    (tame : ∀ e ∈ t.trace, e.isWildReset = false) :
    TxInv (t.sending data len payload) := by
  have starts : startedPayloads (t.trace ++ [.start payload]) =
      startedPayloads t.trace ++ [payload] := startedPayloads_append _ _
  refine ⟨flow.ready, ?_, flow.busy, nofun, ?_, nofun, ?_, ?_⟩
  · change completedBytes (t.trace ++ [.start payload]) ++ t.rbEjtagWrite.unread =
      writtenBytes (t.trace ++ [.start payload])
    simpa [completedBytes, writtenBytes, UsbTxEvent.completedBytes, UsbTxEvent.writtenBytes]
      using inOrder
  · intro _
    change (startedPayloads (t.trace ++ [.start payload])).getLast? = some payload
    rw [starts, List.getLast?_concat]
  · change Each Follows (startedPayloads (t.trace ++ [.start payload]))
    rw [starts]
    exact each_snoc.mpr ⟨follows, next⟩
  · exact List.forall_mem_append.mpr ⟨tame, by simp [UsbTxEvent.isWildReset]⟩

theorem TxInv.inComplete (inv : TxInv t) (valid : t.inEp.txValid = true) :
    TxInv t.usbdIrqHandler := by
  have taken := inv.ready.taken valid
  have trace : t.taken.trace = t.trace ++ [.complete t.inEp.packet] := rfl
  have inOrder : completedBytes t.taken.trace ++ t.taken.rbEjtagWrite.unread =
      writtenBytes t.taken.trace := by
    rw [trace, completedBytes_append, writtenBytes_append, List.append_assoc]
    simpa [completedBytes, writtenBytes, UsbTxEvent.completedBytes, UsbTxEvent.writtenBytes, taken]
      using inv.inOrder
  have starts : startedPayloads t.taken.trace = startedPayloads t.trace := by
    simp [trace, startedPayloads, UsbTxEvent.startedPayload]
  have last := inv.last valid
  have tame : ∀ e ∈ t.taken.trace, e.isWildReset = false :=
    List.forall_mem_append.mpr ⟨inv.tame, by simp [UsbTxEvent.isWildReset]⟩
  have completed := UsbTx.usbdIrqHandler_completed inv.ready valid
  have flow := inv.flow.inComplete valid
  generalize t.usbdIrqHandler = t' at completed flow ⊢
  -- The zero-length packet follows whole packets, and data a short one.
  cases completed with
  | terminated whole =>
    exact .sending flow inOrder (fun _ _ _ => rfl) (starts ▸ inv.follows) tame
  | continued short start len payload more oldest =>
    refine .sending flow inOrder ?_ (starts ▸ inv.follows) tame
    intro p isLast whole
    rw [starts, last, Option.mem_some] at isLast
    exact absurd (isLast ▸ whole) short
  | ended short empty =>
    -- The ring is reset, but it was empty.
    have fresh : t.taken.rbEjtagWrite.reset.unread = [] := ChryRingbuffer.unread_fresh rfl rfl
    have same : startedPayloads (t.taken.trace ++ [.reset [] false]) = startedPayloads t.trace := by
      rw [startedPayloads_append, starts]
      exact List.append_nil _
    refine ⟨flow.ready, ?_, flow.busy, flow.idle, fun busy => absurd busy Bool.false_ne_true,
      fun _ p isLast => ?_, ?_, ?_⟩
    · change completedBytes (t.taken.trace ++ [_]) ++ t.taken.rbEjtagWrite.reset.unread =
        writtenBytes (t.taken.trace ++ [_])
      rw [empty] at inOrder
      simpa [fresh, completedBytes, writtenBytes, UsbTxEvent.completedBytes,
        UsbTxEvent.writtenBytes] using inOrder
    · change p ∈ (startedPayloads (t.taken.trace ++ [.reset [] false])).getLast? at isLast
      rw [same, last, Option.mem_some] at isLast
      exact isLast ▸ short
    · change Each Follows (startedPayloads (t.taken.trace ++ [.reset [] false]))
      exact same ▸ inv.follows
    · exact List.forall_mem_append.mpr ⟨tame, by simp [UsbTxEvent.isWildReset]⟩

theorem TxInv.usbtx (inv : TxInv t) {data : List Byte}
    (room : data.length ≤ t.lsejtagImplUsbtxFreeLen) : TxInv (t.lsejtagImplUsbtx data) := by
  have free : t.lsejtagImplUsbtxFreeLen = 2 ^ 8 - t.rbEjtagWrite.getUsed.toNat :=
    t.rbEjtagWrite.toNat_getFree
  have sound := t.rbEjtagWrite.toNat_getUsed_le
  have written : (t.rbEjtagWrite.write data).unread = t.rbEjtagWrite.unread ++ data :=
    ChryRingbuffer.unread_write (by omega)
  have inOrder : completedBytes (t.trace ++ [.usbtx data]) ++
      (t.rbEjtagWrite.write data).unread = writtenBytes (t.trace ++ [.usbtx data]) := by
    rw [completedBytes_append, writtenBytes_append, written, ← inv.inOrder]
    simp [completedBytes, writtenBytes, UsbTxEvent.completedBytes, UsbTxEvent.writtenBytes]
  have starts : startedPayloads (t.trace ++ [.usbtx data]) = startedPayloads t.trace := by
    rw [startedPayloads_append]
    exact List.append_nil _
  have follows : Each Follows (startedPayloads (t.trace ++ [.usbtx data])) := starts ▸ inv.follows
  have tame : ∀ e ∈ t.trace ++ [.usbtx data], e.isWildReset = false :=
    List.forall_mem_append.mpr ⟨inv.tame, by simp [UsbTxEvent.isWildReset]⟩
  have called := UsbTx.lsejtagImplUsbtx_called inv.ready data
  have flow := inv.flow.usbtx data
  generalize t.lsejtagImplUsbtx data = t' at called flow ⊢
  cases called with
  | busy flag =>
    have valid : t.inEp.txValid = true := inv.busy ▸ flag
    refine ⟨flow.ready, inOrder, flow.busy, flow.idle, fun _ => ?_, fun idle => ?_, follows, tame⟩
    · change (startedPayloads (t.trace ++ [.usbtx data])).getLast? = some t.inEp.packet
      rw [starts]
      exact inv.last valid
    · exact Bool.noConfusion (valid.symm.trans idle)
  | started flag start len payload oldest =>
    have idle : t.inEp.txValid = false := inv.busy ▸ flag
    refine @TxInv.sending { t.ringbufferWrite data with epTxBusyFlag := true } _ _ _
      flow inOrder ?_ follows tame
    intro p isLast whole
    change p ∈ (startedPayloads (t.trace ++ [.usbtx data])).getLast? at isLast
    exact absurd whole (inv.done idle p (starts ▸ isLast))

/-! ## Runs -/

theorem TxInv.step {input : UsbTxInput} (inv : TxInv t) (stepped : usbTxStep t input = some t') :
    TxInv t' := by
  cases input with
  | usbtx data =>
    obtain ⟨room, called⟩ := Option.ite_none_right_eq_some.mp stepped
    exact Option.some.inj called ▸ inv.usbtx room
  | inComplete =>
    obtain ⟨valid, completed⟩ := Option.ite_none_right_eq_some.mp stepped
    exact Option.some.inj completed ▸ inv.inComplete valid

theorem TxInv.fifo (inv : TxInv t) : TxFifo t where
  inOrder := inv.inOrder
  busy := by rw [inv.busy]
  goesOn some := by
    cases valid : t.inEp.txValid with
    | true => rfl
    | false => exact absurd (inv.idle valid) some
  follows := inv.follows
  terminated last isLast whole := by
    cases valid : t.inEp.txValid with
    | true => rfl
    | false => exact absurd whole (inv.done valid last isLast)
  resets unread outstanding member := by
    have tame := inv.tame _ member
    simpa [UsbTxEvent.isWildReset] using tame

/-- The IN path in every order of calls and completions. -/
theorem usb_in_fifo (reach : usbTx.Reachable t) : TxFifo t := by
  have inv : TxInv t := by
    refine reach.invariant ?_ fun _ _ _ _ inv _ stepped => inv.step stepped
    rintro _ ⟨pool, rfl⟩
    exact .configured pool
  exact inv.fifo

/-- 100 bytes go out as a packet of 64, a zero-length one and one of 36, while 60
    more arrive; these follow after the third completion. -/
theorem usb_in_fifo_packets : ∃ t, TxFifo t ∧
    (startedPayloads t.trace).map List.length = [64, 0, 64, 0] ∧ t.inEp.txValid = true := by
  have ran : (usbTx.run Machine.anyAction
      (UsbTx.initCherryusb (Vector.replicate _ 0)).usbdSetEndpoint
      [.usbtx (List.replicate 100 1), .inComplete, .usbtx (List.replicate 60 2), .inComplete,
        .inComplete]).any (fun t =>
          decide ((startedPayloads t.trace).map List.length = [64, 0, 64, 0] ∧
            t.inEp.txValid = true)) = true := by
    decide +kernel
  obtain ⟨t, reach, holds⟩ := Machine.exists_reach (M := usbTx) _ ⟨_, rfl⟩ ran
  exact ⟨t, usb_in_fifo reach, of_decide_eq_true holds⟩

end LoongsonEjtag
