import LoongsonEjtag.Gpio
import LoongsonEjtag.PinOutput

/-! # The waveform of a block

`lsejtag_impl_run_jtag` again, store by store: what it writes to the ports, in the order of
the source, and `INDR` where it is read.

* `jtagShiftPins` — the function with a board and what is connected to it.
* `Wired.cycles` — TDI and TMS are set up, TCK goes up and down, for every bit.
* `jtag_shift_waveform` — whatever is connected, the function is `jtagShift` with the levels
  of TDO that it finds there, and its stores are these cycles.
-/

namespace LoongsonEjtag

open Lib (Dword u32 sub32 u32_eq sub32_eq forUpTo SameOutcome eq_ok_of_toOption)

variable {τ : Type} (E : Outside τ) (version : HardwareVersion) {n : Nat}

/-! ## The function -/

/-- One round of the bit loop. -/
def clockBitPins (tdoBits : Nat) (x : JtagRegs n × Wired τ) :
    Except Halt (JtagRegs n × Wired τ) :=
  let (r, w) := x
  let w := w.drive E version .tdi (r.tdiReg.getLsbD 0)
  let w := w.drive E version .tms (r.tmsReg.getLsbD 0)
  let w := w.drive E version .tck true
  let r := r.pulse (fun _ => w.captureTdo E) tdoBits
  let w := w.drive E version .tck false
  if r.tdoCounter ≠ 0 ∧ r.tdoCounter % 32 = 0 then do
    let r ← r.store
    .ok ({ r with tdoPtr := r.tdoPtr.map (· + 1) }, w)
  else .ok (r, w)

/-- One round of the dword loop. -/
def clockDwordPins (tdi tms : List Dword) (tdoBits i : Nat) (x : JtagRegs n × Wired τ) :
    Except Halt (JtagRegs n × Wired τ) :=
  let (r, w) := x
  match tdi[i]?, tms[i]? with
  | some tdiReg, some tmsReg => do
    let (r, w) ← forUpTo (fun _ => clockBitPins E version tdoBits) (min r.tdiBits 32)
      ({ r with tdiReg, tmsReg }, w)
    .ok ({ r with tdiBits := sub32 r.tdiBits 32 }, w)
  | _, _ => .error .outOfBounds

/-- `lsejtag_impl_run_jtag` up to the completion callbacks. -/
def jtagShiftPins (seq : JtagSeq) (tdoBuf : Vector Dword n) (tdoPtr : Option Nat) (w : Wired τ) :
    Except Halt (JtagRegs n × Wired τ) := do
  let outDwords := u32 (seq.tdiBits + 31) / 32
  let (r, w) ← forUpTo (clockDwordPins E version seq.tdi seq.tms seq.tdoBits) outDwords
    ({ tdiReg := 0, tmsReg := 0, tdoReg := 0, tdoCounter := 0, tdiBits := seq.tdiBits
       tdoSkipBits := seq.tdoSkipBits, tdoBuf, tdoPtr, clocks := 0, pulses := [] }, w)
  if r.tdoCounter ≠ 0 ∧ r.tdoCounter % 32 ≠ 0 then do
    let r ← r.store
    .ok (r, w)
  else .ok (r, w)

/-! ## Cycles -/

namespace Wired

/-- TDI and TMS are set up, and TCK has gone up. -/
def rise (w : Wired τ) (pins : Bool × Bool) : Wired τ :=
  ((w.drive E version .tdi pins.2).drive E version .tms pins.1).drive E version .tck true

def cycle (w : Wired τ) (pins : Bool × Bool) : Wired τ :=
  (w.rise E version pins).drive E version .tck false

/-- The cycles of a sequence of levels of TMS and TDI. -/
def cycles (w : Wired τ) (pins : List (Bool × Bool)) : Wired τ := pins.foldl (cycle E version) w

/-- The level of TDO in cycle `k` of a sequence. -/
def sampled (w : Wired τ) (seq : JtagSeq) (k : Nat) : Bool :=
  ((w.cycles E version ((List.range k).map fun j => (seq.level j).swap)).rise E version
    (seq.level k).swap).captureTdo E

variable {E version}

theorem cycles_append (w : Wired τ) (first second : List (Bool × Bool)) :
    w.cycles E version (first ++ second) =
      (w.cycles E version first).cycles E version second := by
  rw [cycles, cycles, cycles, List.foldl_append]

theorem level_cycle (w : Wired τ) (pins : Bool × Bool) (line : Line) :
    (w.cycle E version pins).level version line =
      match line with
      | .tck => false
      | .tms => pins.1
      | .tdi => pins.2
      | line => w.level version line := by
  simp only [cycle, rise, level_drive]
  cases line <;> rfl

/-- The other outputs. -/
theorem level_cycles (w : Wired τ) (pins : List (Bool × Bool)) {line : Line}
    (other : line ≠ .tck ∧ line ≠ .tms ∧ line ≠ .tdi) :
    (w.cycles E version pins).level version line = w.level version line := by
  induction pins generalizing w with
  | nil => rfl
  | cons pin rest ih =>
    rw [cycles, List.foldl_cons, ← cycles, ih, level_cycle]
    obtain ⟨tck, tms, tdi⟩ := other
    cases line with
    | tck => exact absurd rfl tck
    | tms => exact absurd rfl tms
    | tdi => exact absurd rfl tdi
    | _ => rfl

theorem cycles_tck (w : Wired τ) (low : w.level version .tck = false)
    (pins : List (Bool × Bool)) : (w.cycles E version pins).level version .tck = false := by
  induction pins generalizing w with
  | nil => exact low
  | cons pin rest ih => exact ih _ (level_cycle w pin .tck)

end Wired

/-! ## Side by side -/

/-- The registers are those of `jtagShift`, and the board has gone through their pulses. -/
def Mirrors (w : Wired τ) (x : JtagRegs n × Wired τ) (r : JtagRegs n) : Prop :=
  x = (r, w.cycles E version (r.pulses.map Prod.swap))

section mirror

variable {E version} {w : Wired τ} {seq : JtagSeq} {buf : Vector Dword n}
  {x : JtagRegs n × Wired τ} {r : JtagRegs n} {i count : Nat}

/-- A round, once its samples and stores are put together. -/
theorem clockBitPins_eq (tdoBits : Nat) (r : JtagRegs n) (w : Wired τ) {level : Bool × Bool}
    (is : (r.tdiReg.getLsbD 0, r.tmsReg.getLsbD 0) = level) {tdo : Nat → Bool}
    (sample : (w.rise E version level.swap).captureTdo E = tdo r.clocks) :
    clockBitPins E version tdoBits (r, w) =
      (r.clockBit tdo tdoBits).map fun r => (r, w.cycle E version level.swap) := by
  subst is
  have pulse : r.pulse (fun _ => tdo r.clocks) tdoBits = r.pulse tdo tdoBits := rfl
  simp only [Prod.swap_prod_mk, Wired.rise] at sample
  simp only [clockBitPins, JtagRegs.clockBit, sample, pulse]
  split
  · cases (r.pulse tdo tdoBits).store with
    | ok stored => rfl
    | error e => rfl
  · rfl

theorem Mirrors.clockBit (mirrors : Mirrors E version w x r) (shifting : Shifting seq i count r)
    (low : count < 32) :
    SameOutcome (fun x r => Mirrors E version w x r ∧ Shifting seq i (count + 1) r)
      (clockBitPins E version seq.tdoBits x)
      (r.clockBit (w.sampled E version seq) seq.tdoBits) := by
  obtain rfl : x = (r, w.cycles E version (r.pulses.map Prod.swap)) := mirrors
  have level : (r.tdiReg.getLsbD 0, r.tmsReg.getLsbD 0) = seq.level r.clocks := by
    have dword : (32 * i + count) / 32 = i := by omega
    have bit : (32 * i + count) % 32 = count := by omega
    rw [shifting.tdi, shifting.tms, shifting.clocks, JtagSeq.level, dword, bit,
      BitVec.getLsbD_ushiftRight, BitVec.getLsbD_ushiftRight, Nat.add_zero]
  have before : r.pulses.map Prod.swap =
      (List.range r.clocks).map fun j => (seq.level j).swap := by
    rw [shifting.pulses, shifting.clocks, List.map_map]
    rfl
  have sample : ((w.cycles E version (r.pulses.map Prod.swap)).rise E version
      (seq.level r.clocks).swap).captureTdo E = w.sampled E version seq r.clocks := by
    rw [before]
    rfl
  rw [clockBitPins_eq seq.tdoBits r _ level sample]
  cases clocked : r.clockBit (w.sampled E version seq) seq.tdoBits with
  | error e => exact .stopped e
  | ok r' =>
    have next := shifting.clockBit low clocked
    have pulses : r'.pulses = r.pulses ++ [seq.level r.clocks] := by
      have count : 32 * i + (count + 1) = r.clocks + 1 := by rw [shifting.clocks]; rfl
      rw [next.pulses, shifting.pulses, count, ← shifting.clocks, List.range_succ,
        List.map_append]
      rfl
    have mirrored : (r', (w.cycles E version (r.pulses.map Prod.swap)).cycle E version
        (seq.level r.clocks).swap) = (r', w.cycles E version (r'.pulses.map Prod.swap)) := by
      rw [pulses, List.map_append, Wired.cycles_append]
      rfl
    exact .finished ⟨mirrored, next⟩

theorem Mirrors.clockDword (mirrors : Mirrors E version w x r) (shifted : Shifted seq i r)
    (more : 32 * i < seq.tdiBits) (small : seq.tdiBits < 2 ^ 32) :
    SameOutcome (fun x r => Mirrors E version w x r ∧ Shifted seq (i + 1) r)
      (clockDwordPins E version seq.tdi seq.tms seq.tdoBits i x)
      (r.clockDword seq.tdi seq.tms (w.sampled E version seq) seq.tdoBits i) := by
  refine SameOutcome.also ?_ fun r' clocked => shifted.clockDword more small clocked
  obtain rfl : x = (r, w.cycles E version (r.pulses.map Prod.swap)) := mirrors
  have before : seq.dwordClocks i = 32 * i := Nat.min_eq_right (by omega)
  simp only [clockDwordPins, JtagRegs.clockDword]
  cases atTdi : seq.tdi[i]? with
  | none => exact .stopped Halt.outOfBounds
  | some tdiReg =>
    cases atTms : seq.tms[i]? with
    | none => exact .stopped Halt.outOfBounds
    | some tmsReg =>
      have loaded : Shifting seq i 0 { r with tdiReg, tmsReg } := by
        refine ⟨shifted.clocks.trans before, ?_, ?_, ?_⟩
        · rw [← before]
          exact shifted.pulses
        · simp [List.getD_eq_getElem?_getD, atTdi]
        · simp [List.getD_eq_getElem?_getD, atTms]
      apply SameOutcome.bind (R := fun x y => Mirrors E version w x y ∧
        Shifting seq i (min r.tdiBits 32) y)
      · apply SameOutcome.forUpTo (fun count x y => Mirrors E version w x y ∧
          Shifting seq i count y) ⟨rfl, loaded⟩
        rintro count x y below ⟨mirrors, shifting⟩
        exact mirrors.clockBit shifting (by omega)
      · rintro _ y ⟨rfl, -⟩
        exact .finished rfl

end mirror

/-! ## Runs -/

/-- Whatever is connected to the pins, the function does what `jtagShift` does if the levels
    of TDO are those it finds while TCK is high; it finishes or stops alike, and when it
    finishes the board has gone through one cycle of TCK for every pulse.  No other output
    is touched, and TCK is low as before. -/
theorem jtag_shift_waveform (seq : JtagSeq) (small : seq.tdiBits + 31 < 2 ^ 32)
    (buf : Vector Dword n) (pointer : Option Nat) (w : Wired τ)
    (low : w.level version .tck = false) :
    SameOutcome (fun x r => x.1 = r ∧ x.2 = w.cycles E version seq.pins ∧
        x.2.level version .tck = false ∧ ∀ line, line ≠ .tck ∧ line ≠ .tms ∧ line ≠ .tdi →
          x.2.level version line = w.level version line)
      (jtagShiftPins E version seq buf pointer w)
      (jtagShift seq buf pointer (w.sampled E version seq)) := by
  have mirror : SameOutcome (Mirrors E version w) (jtagShiftPins E version seq buf pointer w)
      (jtagShift seq buf pointer (w.sampled E version seq)) := by
    have outDwords : u32 (seq.tdiBits + 31) / 32 = (seq.tdiBits + 31) / 32 := by rw [u32_eq small]
    have noClock : seq.dwordClocks 0 = 0 := Nat.min_zero _
    simp only [jtagShiftPins, jtagShift, outDwords]
    apply SameOutcome.bind (R := fun x r => Mirrors E version w x r ∧
      Shifted seq ((seq.tdiBits + 31) / 32) r)
    · apply SameOutcome.forUpTo (fun i x r => Mirrors E version w x r ∧ Shifted seq i r)
      · exact ⟨rfl, noClock.symm, by rw [noClock]; rfl, fun _ => rfl⟩
      · rintro i x r below ⟨mirrors, shifted⟩
        exact mirrors.clockDword shifted (by omega) (by omega)
    · rintro _ r ⟨rfl, -⟩
      split
      · cases store : r.store with
        | ok stored =>
          obtain ⟨_, _, -, rfl⟩ := JtagRegs.store_ok store
          exact .finished rfl
        | error e => exact .stopped e
      · exact .finished rfl
  have output := mirror.also fun r shifted => jtagShift_output small shifted
  apply output.imp
  rintro _ r ⟨rfl, faithful⟩
  rw [faithful.pins]
  exact ⟨rfl, rfl, w.cycles_tck low _, fun line other => w.level_cycles _ other⟩

/-- TDO is TDI. -/
def loopback : Outside Bool where
  drive
    | .tdi, on, _ => on
    | _, _, tdi => tdi
  indr tdi := if tdi then 0xffff else 0

/-- Five bits that come back. -/
theorem jtag_shift_waveform_loopback : ∃ x,
    jtagShiftPins loopback .v1_1 ⟨[0x0d], [0x10], 5, 5, 0⟩ #v[0] (some 0)
      ⟨initGpio .v1_1, true⟩ = .ok x ∧
    x.1.tdoBuf = #v[0x68000000] ∧ x.2.level .v1_1 .tms = true ∧
    x.2.level .v1_1 .tck = false ∧ x.2.level .v1_1 .trst = true := by
  have same := jtag_shift_waveform loopback .v1_1 ⟨[0x0d], [0x10], 5, 5, 0⟩ (by decide) #v[0]
    (some 0) ⟨initGpio .v1_1, true⟩ (by decide)
  have captured : (jtagShift ⟨[0x0d], [0x10], 5, 5, 0⟩ #v[0] (some 0)
      ((⟨initGpio .v1_1, true⟩ : Wired Bool).sampled loopback .v1_1
        ⟨[0x0d], [0x10], 5, 5, 0⟩)).toOption.any
          (fun r => decide (r.tdoBuf = #v[0x68000000])) = true := by
    decide +kernel
  obtain ⟨r, finished, buf⟩ := (Option.any_eq_true _ _).mp captured
  have shifted := eq_ok_of_toOption finished
  have buf := of_decide_eq_true buf
  rw [shifted] at same
  obtain ⟨x, ran, regs, board, low, others⟩ := same.of_finished
  refine ⟨x, ran, regs ▸ buf, ?_, low, ?_⟩
  · rw [board]
    decide
  · rw [others .trst (by decide)]
    decide

end LoongsonEjtag
