import LoongsonEjtag.Lib.WiredPort
import LoongsonEjtag.ProbedTarget
import LoongsonEjtag.Waveform

/-! # A target on the pins

The target of `ProbedTarget` answers in levels at clocks.  Here it is connected to the pins:
it is clocked by rising edges of TCK, its TDO changes after falling ones, and where it does
not drive TDO the input floats.

* `ProbedTarget.outside` — the target, as something that is connected to the board.
* `wiredAfter` — board and target after a trace.
* `SeesPins` — the firmware samples TDO at its pin, while a block is run.
* `pins_carry_jtag` — then it samples what the target drives at the clocks, and each of its
  events does to the target what it does in `ProbedTarget`.
-/

namespace LoongsonEjtag

open Lib (Machine TapRegister Target TargetPort WiredPort)

variable {σ : Type} (T : ProbedTarget σ)

namespace ProbedTarget

/-! ## The target on the pins -/

/-- The target does something with one of the other pins. -/
def manip (io : LsejtagImplIo) (level : Bool) (p : WiredPort σ) : WiredPort σ :=
  { p with port := { p.port with core := T.io io level p.port.core } }

/-- `indr` is what port A reads with the target on it. -/
def outside (indr : WiredPort σ → BitVec 16) : Outside (WiredPort σ) where
  drive
    | .tdi, on, p => p.setTdi on
    | .tms, on, p => p.setTms on
    | .tck, on, p => p.setTck T.toTarget on
    | .trst, on, p => T.manip .implIoTrst on p
    | .brst, on, p => T.manip .implIoBrst on p
    | .dint, on, p => T.manip .implIoDint on p
    | .ledActivity, on, p => T.manip .implIoLed (!on) p
    | .ledStatus, _, p => p
  indr := indr

/-- Where the target drives TDO, its pin reads so. -/
def ReadsTdo (indr : WiredPort σ → BitVec 16) : Prop :=
  ∀ p bit, p.tdo = some bit → (indr p).getLsbD ejtagTdoPin.bit = bit

variable (indr : WiredPort σ → BitVec 16) (version : HardwareVersion)

/-- What an event does to the board and the target. -/
def wiredEvent (w : Wired (WiredPort σ)) : Event → Wired (WiredPort σ)
  | .runBlock seq | .runDirect seq => w.cycles (T.outside indr) version seq.pins
  | .ioManip io level => w.lsejtagImplIoManip (T.outside indr) version io level
  | _ => w

def wiredAfter (w : Wired (WiredPort σ)) (t : List Event) : Wired (WiredPort σ) :=
  t.foldl (T.wiredEvent indr version) w

/-- While a block is run, TDO is sampled at its pin. -/
def SeesPins (w : Wired (WiredPort σ)) : MainPhase → MainInput → Prop
  | .looping s, .poll _ tdo => s.pc = .runJtag → ∀ id ∈ s.world.ctx.preparedBufblk,
      ∀ k < (s.world.ctx.jtagbuf id).tdiBits,
        tdo k = (T.wiredAfter indr version w s.world.trace).sampled (T.outside indr) version
          (s.world.ctx.jtagbuf id).seq k
  | _, _ => True

instance (w : Wired (WiredPort σ)) (s : MainPhase) (input : MainInput) :
    Decidable (T.SeesPins indr version w s input) :=
  match s, input with
  | .looping _, .poll _ _ => inferInstanceAs (Decidable (_ → _))
  | .looping _, .usbOut _ | .reset, _ | .initialised _, _ => isTrue trivial

variable {T indr version} {w : Wired (WiredPort σ)}

/-! ## Events -/

theorem outside_cycles (w : Wired (WiredPort σ)) (pins : List (Bool × Bool)) :
    (w.cycles (T.outside indr) version pins).outside = w.outside.cycles T.toTarget pins := by
  induction pins generalizing w with
  | nil => rfl
  | cons pin rest ih => exact ih _

theorem outside_manip (w : Wired (WiredPort σ)) (io : LsejtagImplIo) (level : Bool) :
    (w.lsejtagImplIoManip (T.outside indr) version io level).outside =
      T.manip io level w.outside := by
  cases io with
  | implIoLed =>
    have lit : (T.outside indr).drive .ledActivity (!level) w.outside =
        T.manip .implIoLed (!!level) w.outside := rfl
    rw [Bool.not_not] at lit
    exact lit
  | implIoTrst | implIoBrst | implIoDint => rfl

/-- An event leaves TCK low, and does to the port what it means. -/
theorem wiredEvent_port (low : w.outside.tck = false) (e : Event) :
    (T.wiredEvent indr version w e).outside.tck = false ∧
      (T.wiredEvent indr version w e).outside.port = T.event w.outside.port e := by
  cases e with
  | runBlock seq | runDirect seq =>
    rw [wiredEvent, outside_cycles]
    exact ⟨WiredPort.cycles_tck low _, WiredPort.cycles_port low _⟩
  | ioManip io level =>
    rw [wiredEvent, outside_manip]
    exact ⟨low, rfl⟩
  | _ => exact ⟨low, rfl⟩

theorem wiredAfter_port (low : w.outside.tck = false) (t : List Event) :
    (T.wiredAfter indr version w t).outside.tck = false ∧
      (T.wiredAfter indr version w t).outside.port = T.portAfter w.outside.port t := by
  induction t generalizing w with
  | nil => exact ⟨low, rfl⟩
  | cons e rest ih =>
    obtain ⟨low', port⟩ := @wiredEvent_port _ T indr version _ low e
    obtain ⟨lowRest, portRest⟩ := ih low'
    refine ⟨lowRest, portRest.trans ?_⟩
    rw [port]
    rfl

/-! ## TDO between blocks -/

theorem wiredEvent_path (bits : T.HasBits) (low : w.outside.tck = false)
    (path : w.outside.port.path ≠ []) (e : Event) :
    (T.wiredEvent indr version w e).outside.port.path ≠ [] := by
  rw [(wiredEvent_port low e).2]
  cases e with
  | runBlock seq | runDirect seq => exact TargetPort.run_path bits path seq.pins
  | _ => exact path

theorem wiredEvent_settled (bits : T.HasBits) (settled : w.outside.Settled) (e : Event) :
    (T.wiredEvent indr version w e).outside.Settled := by
  cases e with
  | runBlock seq | runDirect seq =>
    rw [wiredEvent, outside_cycles]
    exact settled.cycles bits seq.pins
  | ioManip io level =>
    rw [wiredEvent, outside_manip]
    exact ⟨settled.low, settled.shown, settled.path⟩
  | _ => exact settled

theorem wiredAfter_settled (bits : T.HasBits) (settled : w.outside.Settled) (t : List Event) :
    (T.wiredAfter indr version w t).outside.Settled := by
  induction t generalizing w with
  | nil => exact settled
  | cons e rest ih => exact ih (wiredEvent_settled bits settled e)

/-- The start-up reset settles the port, whatever was on its TDO before. -/
theorem wiredAfter_startUp (bits : T.HasBits) (low : w.outside.tck = false)
    (path : w.outside.port.path ≠ []) {t : List Event} (ran : .runDirect startUpResetSeq ∈ t) :
    (T.wiredAfter indr version w t).outside.Settled := by
  induction t generalizing w with
  | nil => cases ran
  | cons e rest ih =>
    obtain rfl | later := List.mem_cons.mp ran
    · have settled : (T.wiredEvent indr version w
          (.runDirect startUpResetSeq)).outside.Settled := by
        rw [wiredEvent, outside_cycles]
        exact WiredPort.settled_cycles bits low path (by decide)
      exact wiredAfter_settled bits settled rest
    · exact ih (wiredEvent_port low e).1 (wiredEvent_path bits low path e) later

theorem outside_rise (w : Wired (WiredPort σ)) (pins : Bool × Bool) :
    (w.rise (T.outside indr) version pins).outside = w.outside.rise T.toTarget pins := rfl

/-- What is sampled at the pin is what the port drives at the clock. -/
theorem sampled_drives (bits : T.HasBits) (reads : ReadsTdo indr) (settled : w.outside.Settled)
    {seq : JtagSeq} {tdo : Nat → Bool}
    (sees : ∀ k < seq.tdiBits, tdo k = w.sampled (T.outside indr) version seq k) :
    w.outside.port.Drives T.toTarget seq.pins tdo := by
  apply settled.drives bits
  intro k pin bit at_pin shows
  obtain ⟨below, is⟩ := List.getElem?_eq_some_iff.mp at_pin
  rw [JtagSeq.pins_eq_level, List.length_map, List.length_range] at below
  have pin : pin = (seq.level k).swap := by
    rw [← is]
    simp [JtagSeq.pins_eq_level]
  have earlier : seq.pins.take k = (List.range k).map fun j => (seq.level j).swap := by
    rw [JtagSeq.pins_eq_level, ← List.map_take, List.take_range, Nat.min_eq_left (by omega)]
  rw [sees k below, Wired.sampled, Wired.captureTdo_eq]
  apply reads
  rw [outside_rise, outside_cycles, ← earlier, ← pin]
  exact shows

end ProbedTarget

/-! ## Runs -/

/-- The start-up reset has been run. -/
def MainPhase.Started : MainPhase → Prop
  | .looping s => .runDirect startUpResetSeq ∈ s.world.trace
  | _ => True

theorem MainPhase.Started.step {s s' : MainPhase} {input : MainInput} (inv : MainPhaseInv s)
    (started : s.Started) (stepped : mainPhaseStep s input = some s') : s'.Started := by
  cases s with
  | reset =>
    cases input with
    | usbOut bytes => cases stepped
    | poll txFree tdo =>
      cases stepped
      trivial
  | initialised w =>
    obtain ⟨engine, init, -, -⟩ := inv
    cases input with
    | usbOut bytes =>
      simp only [mainPhaseStep] at stepped
      split at stepped
      · cases stepped
        trivial
      · cases stepped
    | poll txFree tdo =>
      simp only [mainPhaseStep, initResetTapViaTms_returns engine tdo init] at stepped
      cases stepped
      simp [Started]
  | looping m =>
    obtain ⟨main, -, -⟩ := inv
    simp only [mainPhaseStep, Option.map_eq_some_iff] at stepped
    obtain ⟨m', stepped, rfl⟩ := stepped
    obtain ⟨es, trace⟩ := (mainStep_stepped main stepped).callStep.grows
    change _ ∈ m'.world.trace
    rw [trace]
    exact List.mem_append_left es started

section runs

variable {T} {indr : WiredPort σ → BitVec 16} {version : HardwareVersion} {w : Wired (WiredPort σ)}

open ProbedTarget in
/-- From reset on, with any target of either hardware version that is connected to the pins
    when TCK is low, and whatever is read where the target does not drive TDO: if the firmware
    samples TDO at its pin, then its run is one in which the samples are what the target
    drives at the clocks; the events of the run do to the target on the pins what they mean;
    and TCK is low after each of them. -/
theorem pins_carry_jtag (bits : T.HasBits) (reads : ReadsTdo indr) (low : w.outside.tck = false)
    (path : w.outside.port.path ≠ []) {s : MainPhase}
    (reach : fromReset.Reach (T.SeesPins indr version w) s) :
    fromReset.Reach (T.Answers w.outside.port) s ∧
      (T.wiredAfter indr version w s.trace).outside.port =
        T.portAfter w.outside.port s.trace ∧
      (T.wiredAfter indr version w s.trace).outside.tck = false := by
  obtain ⟨lowAfter, port⟩ := @wiredAfter_port _ T indr version _ low s.trace
  refine ⟨?_, port, lowAfter⟩
  have run : fromReset.Reach (T.Answers w.outside.port) s ∧ MainPhaseInv s ∧ s.Started := by
    apply reach.invariant
    · rintro s rfl
      exact ⟨.start rfl, trivial, trivial⟩
    · rintro s s' input _ ⟨before, inv, started⟩ sees stepped
      refine ⟨.next before ?_ stepped, inv.step stepped, started.step inv stepped⟩
      cases s with
      | reset | initialised => trivial
      | looping m =>
        cases input with
        | usbOut bytes => trivial
        | poll txFree tdo =>
          intro at_pc prepared
          have picked : m.world.ctx.preparedBufblk = some .a := if_pos prepared
          obtain ⟨-, port⟩ := @wiredAfter_port _ T indr version _ low m.world.trace
          rw [← port]
          exact sampled_drives bits reads (wiredAfter_startUp bits low path started)
            (sees at_pc .a picked)
  exact run.1

end runs

/-- A target with a data register of one bit, which a reset sets. -/
def oneBit : ProbedTarget Bool where
  capture
    | .instruction, _ => [true, false]
    | .data, core => [core]
  update
    | .instruction, core, _ => core
    | .data, _, bits => bits.headD false
  reset _ := true
  reset_reset _ := rfl
  io _ _ core := core

/-- An input with a pull-up. -/
def pulledUp (p : WiredPort Bool) : BitVec 16 := if p.tdo.getD true then 0xffff else 0

/-- The target is connected in the middle of a scan. -/
def oneBitWired : Wired (WiredPort Bool) :=
  ⟨initGpio .v1_0, ⟨false, true, true, some false, ⟨.shiftDr, [false], false⟩⟩⟩

/-- A DR scan of eight bits, of which seven come back behind the one of the register. -/
def oneBitRun : List MainInput :=
  let tdo k := !([5, 6, 10].contains k)
  List.replicate 2 (.poll 64 tdo) ++ [.usbOut [0x00, 0x17, 8, 0, 0x5c, 0, 0, 0]] ++
    List.replicate 6 (.poll 64 tdo)

def oneBitServed : MainPhase → Bool
  | .looping s => decide (flushed s.world.trace = [0, 0, 0, 0xb9])
  | _ => false

theorem pins_carry_jtag_one_bit : ∃ s : MainState,
    fromReset.Reach (oneBit.Answers oneBitWired.outside.port) (.looping s) ∧
    (oneBit.wiredAfter pulledUp .v1_0 oneBitWired s.world.trace).outside.tck = false ∧
    flushed s.world.trace = [0, 0, 0, 0xb9] := by
  have ran : (fromReset.run (oneBit.SeesPins pulledUp .v1_0 oneBitWired) .reset oneBitRun).any
      oneBitServed = true := by
    decide +kernel
  obtain ⟨phase, reach, holds⟩ := Machine.exists_reach _ rfl ran
  have bits : oneBit.HasBits := fun reg _ => by cases reg <;> simp [oneBit]
  have reads : ProbedTarget.ReadsTdo pulledUp := by
    intro p bit shows
    rw [pulledUp, shows]
    cases bit <;> rfl
  cases phase with
  | reset | initialised => cases holds
  | looping s =>
    obtain ⟨answers, -, low⟩ := pins_carry_jtag bits reads rfl (by decide) reach
    exact ⟨s, answers, low, of_decide_eq_true holds⟩

end LoongsonEjtag
