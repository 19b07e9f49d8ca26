import LoongsonEjtag.FastdataSelect
import LoongsonEjtag.TdoCapture

/-! # What is put on the pins

`lsejtag_impl_run_jtag` clocks TDI and TMS out dword by dword, whatever it
captures in between.

* `Shifting` — the registers after some bits of a dword.
* `jtagShift_output` — a finished run has made one pulse for every bit, with the
  levels the buffers have there.
* `run_output_faithful` — it finishes wherever its stores have room, and from
  buffers that end with their last bit: it reads no dword behind that.
-/

namespace LoongsonEjtag

open Lib (Dword u32 u32_eq sub32 sub32_eq forUpTo forUpTo_invariant bind_eq_ok)

variable {n : Nat}

/-! ## One bit -/

/-- TDI and TMS of bit `k`: bit `k % 32` of dword `k / 32`. -/
def JtagSeq.level (seq : JtagSeq) (k : Nat) : Bool × Bool :=
  ((seq.tdi.getD (k / 32) 0).getLsbD (k % 32), (seq.tms.getD (k / 32) 0).getLsbD (k % 32))

/-- The bits a sequence stands for in the trace are these levels. -/
theorem JtagSeq.pins_eq_level (seq : JtagSeq) :
    seq.pins = (List.range seq.tdiBits).map fun k => (seq.level k).swap := rfl

/-- What is left of dword `i` after `count` bits of it, and what is on the pins so
    far. -/
structure Shifting (seq : JtagSeq) (i count : Nat) (r : JtagRegs n) : Prop where
  clocks : r.clocks = 32 * i + count
  pulses : r.pulses = (List.range (32 * i + count)).map seq.level
  tdi : r.tdiReg = seq.tdi.getD i 0 >>> count
  tms : r.tmsReg = seq.tms.getD i 0 >>> count

section bits

variable {seq : JtagSeq} {tdo : Nat → Bool} {tdoBits i count : Nat} {r r' : JtagRegs n}

/-- Every pulse takes the lowest bit of both registers, captured or not. -/
theorem pulse_output (tdo : Nat → Bool) (tdoBits : Nat) (r : JtagRegs n) :
    (r.pulse tdo tdoBits).clocks = r.clocks + 1 ∧
      (r.pulse tdo tdoBits).pulses =
        r.pulses ++ [(r.tdiReg.getLsbD 0, r.tmsReg.getLsbD 0)] ∧
      (r.pulse tdo tdoBits).tdiReg = r.tdiReg >>> 1 ∧
      (r.pulse tdo tdoBits).tmsReg = r.tmsReg >>> 1 := by
  simp only [JtagRegs.pulse]
  split
  · exact ⟨rfl, rfl, rfl, rfl⟩
  · split
    · exact ⟨rfl, rfl, rfl, rfl⟩
    · exact ⟨rfl, rfl, rfl, rfl⟩

theorem Shifting.pulse (shifting : Shifting seq i count r) (low : count < 32) :
    Shifting seq i (count + 1) (r.pulse tdo tdoBits) := by
  obtain ⟨clocks, pulses, tdi, tms⟩ := shifting
  obtain ⟨clocks', pulses', tdi', tms'⟩ := pulse_output tdo tdoBits r
  have dword : (32 * i + count) / 32 = i := by omega
  have bit : (32 * i + count) % 32 = count := by omega
  refine ⟨?_, ?_, ?_, ?_⟩
  · rw [clocks', clocks, Nat.add_assoc]
  · rw [pulses', pulses, tdi, tms, ← Nat.add_assoc, List.range_succ, List.map_append,
      List.map_singleton, JtagSeq.level, dword, bit, BitVec.getLsbD_ushiftRight,
      BitVec.getLsbD_ushiftRight, Nat.add_zero]
  · rw [tdi', tdi, ← BitVec.shiftRight_add]
  · rw [tms', tms, ← BitVec.shiftRight_add]

/-- The store of a full TDO register changes neither the registers nor the pins. -/
theorem Shifting.clockBit (shifting : Shifting seq i count r) (low : count < 32)
    (clocked : r.clockBit tdo tdoBits = .ok r') : Shifting seq i (count + 1) r' := by
  have pulsed : Shifting seq i (count + 1) (r.pulse tdo tdoBits) := shifting.pulse low
  simp only [JtagRegs.clockBit] at clocked
  split at clocked
  · obtain ⟨stored, store, finished⟩ := bind_eq_ok.mp clocked
    obtain ⟨_, _, -, rfl⟩ := JtagRegs.store_ok store
    cases finished
    exact ⟨pulsed.clocks, pulsed.pulses, pulsed.tdi, pulsed.tms⟩
  · cases clocked
    exact pulsed

end bits

/-! ## All dwords -/

/-- What `dwords` dwords have put on the pins.  The bits that are left wrap below
    zero in the last round, where they are not read again. -/
structure Shifted (seq : JtagSeq) (dwords : Nat) (r : JtagRegs n) : Prop where
  clocks : r.clocks = seq.dwordClocks dwords
  pulses : r.pulses = (List.range (seq.dwordClocks dwords)).map seq.level
  left : 32 * dwords < seq.tdiBits → r.tdiBits = seq.tdiBits - 32 * dwords

section dwords

variable {seq : JtagSeq} {tdo : Nat → Bool} {buf : Vector Dword n} {i : Nat} {r r' : JtagRegs n}

theorem Shifted.clockDword (shifted : Shifted seq i r) (more : 32 * i < seq.tdiBits)
    (small : seq.tdiBits < 2 ^ 32)
    (clocked : r.clockDword seq.tdi seq.tms tdo seq.tdoBits i = .ok r') :
    Shifted seq (i + 1) r' := by
  have left := shifted.left more
  have before : seq.dwordClocks i = 32 * i := Nat.min_eq_right (by omega)
  have upTo : seq.dwordClocks (i + 1) = 32 * i + min r.tdiBits 32 := by
    rw [left, JtagSeq.dwordClocks]
    omega
  simp only [JtagRegs.clockDword] at clocked
  split at clocked
  · rename_i tdiReg tmsReg atTdi atTms
    obtain ⟨x, ran, finished⟩ := bind_eq_ok.mp clocked
    cases finished
    have loaded : Shifting seq i 0 { r with tdiReg, tmsReg } := by
      refine ⟨?_, ?_, ?_, ?_⟩
      · exact shifted.clocks.trans before
      · rw [← before]
        exact shifted.pulses
      · simp [List.getD_eq_getElem?_getD, atTdi]
      · simp [List.getD_eq_getElem?_getD, atTms]
    have done : Shifting seq i (min r.tdiBits 32) x ∧ x.tdiBits = r.tdiBits := by
      refine forUpTo_invariant
        (fun count (x : JtagRegs n) => Shifting seq i count x ∧ x.tdiBits = r.tdiBits)
        ⟨loaded, rfl⟩ ?_ ran
      intro count x y below kept bit
      obtain ⟨shifting, same⟩ := kept
      exact ⟨shifting.clockBit (by omega) bit, (clockBit_tdiBits bit).trans same⟩
    obtain ⟨shifting, same⟩ := done
    refine ⟨?_, ?_, ?_⟩
    · rw [upTo]
      exact shifting.clocks
    · rw [upTo]
      exact shifting.pulses
    · intro further
      simp only [same, left]
      rw [sub32_eq (by omega) (by omega)]
      omega
  · cases clocked

/-- What a run of all bits has put on the pins. -/
structure OutputFaithful (seq : JtagSeq) (r : JtagRegs n) : Prop where
  clocks : r.clocks = seq.tdiBits
  count : r.pulses.length = seq.tdiBits
  levels : ∀ k, k < seq.tdiBits → r.pulses[k]? = some (seq.level k)

/-- No matter how many samples are taken, and where they are stored. -/
theorem jtagShift_output {pointer : Option Nat} (small : seq.tdiBits + 31 < 2 ^ 32)
    (shifted : jtagShift seq buf pointer tdo = .ok r) : OutputFaithful seq r := by
  have outDwords : u32 (seq.tdiBits + 31) / 32 = (seq.tdiBits + 31) / 32 := by rw [u32_eq small]
  have allClocks : seq.dwordClocks ((seq.tdiBits + 31) / 32) = seq.tdiBits := by
    rw [JtagSeq.dwordClocks]
    omega
  obtain ⟨last, ran, finished⟩ := bind_eq_ok.mp shifted
  rw [outDwords] at ran
  have output : Shifted seq ((seq.tdiBits + 31) / 32) last := by
    refine forUpTo_invariant (fun i (x : JtagRegs n) => Shifted seq i x) ?_ ?_ ran
    · have noClock : seq.dwordClocks 0 = 0 := Nat.min_zero _
      exact ⟨noClock.symm, by rw [noClock]; rfl, fun _ => rfl⟩
    · intro i x y below shifted clocked
      exact shifted.clockDword (by omega) (by omega) clocked
  have same : r.clocks = last.clocks ∧ r.pulses = last.pulses := by
    split at finished
    · obtain ⟨_, _, -, rfl⟩ := JtagRegs.store_ok finished
      exact ⟨rfl, rfl⟩
    · cases finished
      exact ⟨rfl, rfl⟩
  have pulses : r.pulses = (List.range seq.tdiBits).map seq.level := by
    rw [same.2, output.pulses, allClocks]
  refine ⟨?_, ?_, ?_⟩
  · rw [same.1, output.clocks, allClocks]
  · rw [pulses, List.length_map, List.length_range]
  · intro k below
    rw [pulses, List.getElem?_map, List.getElem?_range below, Option.map_some]

/-- The trace shows the bits that get to the pins. -/
theorem OutputFaithful.pins (output : OutputFaithful seq r) :
    r.pulses.map Prod.swap = seq.pins := by
  apply List.ext_getElem?
  intro k
  by_cases below : k < seq.tdiBits
  · rw [JtagSeq.pins_eq_level, List.getElem?_map, List.getElem?_map, output.levels k below,
      List.getElem?_range below]
    rfl
  · have short : r.pulses.length ≤ k := by rw [output.count]; omega
    rw [List.getElem?_eq_none (by simpa using short),
      List.getElem?_eq_none (by simp [JtagSeq.pins]; omega)]

end dwords

/-- TDI and TMS buffers that end with the dword of the last bit are enough: a run
    reads nothing behind it, for any TDO lengths.  It makes one pulse for every
    bit, with the levels of that bit; and it finishes in every TDO buffer that
    takes its stores, of which it makes finitely many, and only there. -/
theorem run_output_faithful (seq : JtagSeq) (tdo : Nat → Bool) (some : 0 < seq.tdiBits)
    (small : seq.tdiBits ≤ 2 ^ 32 - 32) (tdi : seq.tdi.length = (seq.tdiBits + 31) / 32)
    (tms : seq.tms.length = (seq.tdiBits + 31) / 32) :
    (∀ (n : Nat) (buf : Vector Dword n) (pointer : Option Nat) (r : JtagRegs n),
      jtagShift seq buf pointer tdo = .ok r → OutputFaithful seq r) ∧
    (∀ (n : Nat) (buf : Vector Dword n) (start : Nat),
      (∃ r, jtagShift seq buf (.some start) tdo = .ok r) ↔ seq.StoresFit start n) ∧
    (∀ (n : Nat) (buf : Vector Dword n), seq.tdoBits = 0 →
      ∃ r, jtagShift seq buf none tdo = .ok r) ∧
    ∀ start, ∃ n, seq.StoresFit start n := by
  have tdiEnough : seq.tdiBits ≤ 32 * seq.tdi.length := by omega
  have tmsEnough : seq.tdiBits ≤ 32 * seq.tms.length := by omega
  have noWrap : seq.tdiBits + 31 < 4294967296 := by omega
  refine ⟨?_, ?_, ?_, ?_⟩
  · intro n buf pointer r shifted
    exact jtagShift_output noWrap shifted
  · intro n buf start
    obtain ⟨goes, stops⟩ := jtagShift_decided seq tdo buf tdiEnough tmsEnough noWrap start
    constructor
    · rintro ⟨r, shifted⟩
      by_contra noRoom
      rw [stops noRoom] at shifted
      cases shifted
    · intro room
      obtain ⟨r, shifted, -⟩ := goes room
      exact ⟨r, shifted⟩
  · intro n buf silent
    have silentRun : ∃ r, jtagShift seq buf none tdo = .ok r ∧ r.tdoBuf = buf ∧ r.dwords = 0 :=
      jtagShift_silent_total none silent tdiEnough tmsEnough noWrap
    obtain ⟨r, shifted, -⟩ := silentRun
    exact ⟨r, shifted⟩
  · intro start
    exact ⟨start + seq.tdoStores, .inr (Nat.le_refl _)⟩

/-- 33 bits, of which 3 are captured. -/
theorem run_output_faithful_33 : ∃ r : JtagRegs 1,
    jtagShift ⟨[0x80000001, 1], [6, 1], 33, 3, 4⟩ #v[0] (.some 0) (fun _ => true) = .ok r ∧
    r.pulses.length = 33 ∧ r.pulses[31]? = .some (true, false) ∧
    r.pulses[32]? = .some (true, true) := by
  obtain ⟨faithful, finishes, -, -⟩ := run_output_faithful
    ⟨[0x80000001, 1], [6, 1], 33, 3, 4⟩ (fun _ => true) (by decide) (by decide) rfl rfl
  obtain ⟨r, shifted⟩ := (finishes 1 #v[0] 0).mpr (by decide)
  have output := faithful 1 #v[0] (.some 0) r shifted
  exact ⟨r, shifted, output.count, output.levels 31 (by decide), output.levels 32 (by decide)⟩

end LoongsonEjtag
