import LoongsonEjtag.Capture
import LoongsonEjtag.Lib.Bits

/-! # TDO capture, clock by clock

What `lsejtag_impl_run_jtag` has sampled and stored after any number of clocks.

* `tdoSampled` — samples taken; `strayStores` — stores on clocks after the
  capture of a whole number of dwords, when the counter stands still at a
  multiple of 32.
* `Clocked` — the registers and the TDO buffer after some clocks.
* `jtagShift_decided` — a run finishes exactly if all its stores are inside the
  TDO buffer, and `TdoCaptured` says what it leaves there.
-/

namespace LoongsonEjtag

open Lib (Dword u32 u32_eq sub32 forUpTo forUpTo_decided ShiftedIn)

/-! ## Counting samples and stores -/

namespace JtagSeq

variable (seq : JtagSeq)

/-- The TDO counter after `clocks` clocks. -/
def tdoSampled (clocks : Nat) : Nat := min seq.tdoBits (clocks - seq.tdoSkipBits)

/-- Stores on the clocks after the capture. -/
def strayStores (clocks : Nat) : Nat :=
  if seq.tdoBits ≠ 0 ∧ seq.tdoBits % 32 = 0 then clocks - (seq.tdoSkipBits + seq.tdoBits) else 0

/-- All stores of the bit loop. -/
def loopStores (clocks : Nat) : Nat := seq.tdoSampled clocks / 32 + seq.strayStores clocks

/-- All stores of a run. -/
def tdoStores : Nat := (seq.tdoSampled seq.tdiBits + 31) / 32 + seq.strayStores seq.tdiBits

/-- All stores of the first `clocks` clocks of a run that starts at dword `start`
    are inside the TDO buffer of `n` dwords. -/
def LoopFits (start clocks : Nat) (n : Nat := 64) : Prop :=
  seq.loopStores clocks = 0 ∨ start + seq.loopStores clocks ≤ n

/-- All stores of a run that starts at dword `start` are. -/
def StoresFit (start : Nat) (n : Nat := 64) : Prop :=
  seq.tdoStores = 0 ∨ start + seq.tdoStores ≤ n

instance (start n : Nat) : Decidable (seq.StoresFit start n) :=
  inferInstanceAs (Decidable (_ ∨ _))

theorem loopStores_succ (clocks : Nat) :
    seq.loopStores (clocks + 1) = seq.loopStores clocks +
      if seq.tdoSampled (clocks + 1) ≠ 0 ∧ seq.tdoSampled (clocks + 1) % 32 = 0 then 1 else 0 := by
  have sampled : seq.tdoSampled clocks = min seq.tdoBits (clocks - seq.tdoSkipBits) := rfl
  have next : seq.tdoSampled (clocks + 1) = min seq.tdoBits (clocks + 1 - seq.tdoSkipBits) := rfl
  rw [loopStores, loopStores, strayStores, strayStores]
  by_cases grid : seq.tdoBits ≠ 0 ∧ seq.tdoBits % 32 = 0
  · by_cases full : seq.tdoSampled (clocks + 1) ≠ 0 ∧ seq.tdoSampled (clocks + 1) % 32 = 0
    · rw [if_pos grid, if_pos grid, if_pos full]
      omega
    · rw [if_pos grid, if_pos grid, if_neg full]
      omega
  · by_cases full : seq.tdoSampled (clocks + 1) ≠ 0 ∧ seq.tdoSampled (clocks + 1) % 32 = 0
    · rw [if_neg grid, if_neg grid, if_pos full]
      omega
    · rw [if_neg grid, if_neg grid, if_neg full]
      omega

theorem loopStores_le_succ (clocks : Nat) :
    seq.loopStores clocks ≤ seq.loopStores (clocks + 1) := by
  rw [loopStores_succ]
  exact Nat.le_add_right _ _

theorem loopStores_mono {earlier later : Nat} (order : earlier ≤ later) :
    seq.loopStores earlier ≤ seq.loopStores later := by
  induction order with
  | refl => exact Nat.le_refl _
  | step _ ih => exact Nat.le_trans ih (seq.loopStores_le_succ _)

theorem LoopFits.earlier {seq : JtagSeq} {start earlier later n : Nat}
    (fits : seq.LoopFits start later n) (order : earlier ≤ later) :
    seq.LoopFits start earlier n := by
  have grows := seq.loopStores_mono order
  rw [LoopFits] at fits ⊢
  omega

/-- The dword the next store writes is the last whole one that was sampled. -/
theorem store_dword {clocks before : Nat} (whole : seq.tdoSampled clocks % 32 = 0)
    (counted : seq.loopStores clocks = before + 1) :
    32 * min before (seq.tdoBits / 32 - 1) = seq.tdoSampled clocks - 32 := by
  simp only [loopStores, tdoSampled, strayStores] at whole counted ⊢
  split at counted <;> omega

end JtagSeq

/-! ## One clock -/

variable {n : Nat}

/-- After `clocks` clocks of a run that started at dword `start` of `buf`. -/
structure Clocked (seq : JtagSeq) (tdo : Nat → Bool) (buf : Vector Dword n) (start clocks : Nat)
    (r : JtagRegs n) : Prop where
  clock : r.clocks = clocks
  skip : r.tdoSkipBits = seq.tdoSkipBits - clocks
  counter : r.tdoCounter = seq.tdoSampled clocks
  reg : ShiftedIn (fun k => tdo (seq.tdoSkipBits + k)) (seq.tdoSampled clocks) r.tdoReg
  pointer : r.tdoPtr = some (start + seq.loopStores clocks)
  room : seq.LoopFits start clocks n
  stored : ∀ d, (inside : start + d < n) → d < seq.loopStores clocks → ∀ p, p < 32 →
    r.tdoBuf[start + d].getLsbD p =
      tdo (seq.tdoSkipBits + (32 * min d (seq.tdoBits / 32 - 1) + p))
  kept : ∀ i, (inside : i < n) → i < start ∨ start + seq.loopStores clocks ≤ i →
    r.tdoBuf[i] = buf[i]

section clocks

variable {seq : JtagSeq} {tdo : Nat → Bool} {buf : Vector Dword n} {start clocks : Nat}
  {r : JtagRegs n}

/-- Neither the dwords being shifted out nor the bits left are part of it. -/
theorem Clocked.load (clocked : Clocked seq tdo buf start clocks r) (tdiReg tmsReg : Dword)
    (tdiBits : Nat) :
    Clocked seq tdo buf start clocks { r with tdiReg, tmsReg, tdiBits } := by
  obtain ⟨count, skip, counter, reg, pointer, room, stored, kept⟩ := clocked
  exact ⟨count, skip, counter, reg, pointer, room, stored, kept⟩

/-- The bit loop does not count the bits left. -/
theorem clockBit_tdiBits {tdoBits : Nat} {r' : JtagRegs n}
    (clocked : r.clockBit tdo tdoBits = .ok r') : r'.tdiBits = r.tdiBits := by
  have pulsed : (r.pulse tdo tdoBits).tdiBits = r.tdiBits := by
    simp only [JtagRegs.pulse]
    split
    · rfl
    · split <;> rfl
  simp only [JtagRegs.clockBit] at clocked
  split at clocked
  · obtain ⟨stored, store, finished⟩ := Lib.bind_eq_ok.mp clocked
    obtain ⟨i, inside, -, rfl⟩ := JtagRegs.store_ok store
    cases finished
    exact pulsed
  · cases clocked
    exact pulsed

/-- A clock skips, samples, or finds everything sampled. -/
theorem pulse_sampled (clocked : Clocked seq tdo buf start clocks r) :
    (r.pulse tdo seq.tdoBits).clocks = clocks + 1 ∧
      (r.pulse tdo seq.tdoBits).tdoSkipBits = seq.tdoSkipBits - (clocks + 1) ∧
      (r.pulse tdo seq.tdoBits).tdoCounter = seq.tdoSampled (clocks + 1) ∧
      ShiftedIn (fun k => tdo (seq.tdoSkipBits + k)) (seq.tdoSampled (clocks + 1))
        (r.pulse tdo seq.tdoBits).tdoReg := by
  obtain ⟨count, skip, counter, reg, -, -, -, -⟩ := clocked
  have sampled : seq.tdoSampled clocks = min seq.tdoBits (clocks - seq.tdoSkipBits) := rfl
  have next : seq.tdoSampled (clocks + 1) = min seq.tdoBits (clocks + 1 - seq.tdoSkipBits) := rfl
  simp only [JtagRegs.pulse]
  split
  · rename_i skipping
    have same : seq.tdoSampled (clocks + 1) = seq.tdoSampled clocks := by omega
    rw [same]
    exact ⟨by rw [count], by simp only; omega, counter, reg⟩
  · rename_i started
    split
    · rename_i sampling
      have one : seq.tdoSampled (clocks + 1) = seq.tdoSampled clocks + 1 := by omega
      have here : seq.tdoSkipBits + seq.tdoSampled clocks = clocks := by omega
      rw [one]
      refine ⟨by rw [count], by simp only; omega, by simp only [counter], ?_⟩
      have shifted := reg.next
      simpa [here, count] using shifted
    · rename_i complete
      have same : seq.tdoSampled (clocks + 1) = seq.tdoSampled clocks := by omega
      rw [same]
      exact ⟨by rw [count], by simp only; omega, counter, reg⟩

/-- One round of the bit loop goes on exactly if its store, if there is one, is
    inside the buffer. -/
theorem clockBit_decided (clocked : Clocked seq tdo buf start clocks r) :
    (seq.LoopFits start (clocks + 1) n →
        ∃ r', r.clockBit tdo seq.tdoBits = .ok r' ∧ Clocked seq tdo buf start (clocks + 1) r') ∧
      (¬seq.LoopFits start (clocks + 1) n →
        r.clockBit tdo seq.tdoBits = .error .outOfBounds) := by
  obtain ⟨count, skip, counter, reg⟩ := pulse_sampled clocked
  obtain ⟨samePointer, sameBuf, -⟩ := pulse_frame tdo seq.tdoBits r
  have pointer : (r.pulse tdo seq.tdoBits).tdoPtr = some (start + seq.loopStores clocks) :=
    samePointer.trans clocked.pointer
  have step := seq.loopStores_succ clocks
  simp only [JtagRegs.clockBit, counter]
  -- The register is full and stored, or it takes another bit and the buffer stays as it
  -- is.
  split
  · rename_i full
    rw [if_pos full] at step
    have content := seq.store_dword full.2 step
    simp only [JtagRegs.store, pointer]
    constructor
    · intro room
      have inside : start + seq.loopStores clocks < n := by
        rw [JtagSeq.LoopFits] at room
        omega
      rw [dif_pos inside]
      refine ⟨_, rfl, count, skip, counter, reg, ?_, room, ?_, ?_⟩
      · simp only [Option.map_some, step, Nat.add_assoc]
      · intro d insideD below p few
        simp only [sameBuf]
        by_cases last : d = seq.loopStores clocks
        · -- The dword just stored is the register
          subst last
          rw [Vector.getElem_set_self, reg.dword few (by omega), content]
        · rw [Vector.getElem_set_ne _ _ (by omega)]
          exact clocked.stored d insideD (by omega) p few
      · intro i insideI outside
        simp only [sameBuf]
        rw [Vector.getElem_set_ne _ _ (by omega)]
        exact clocked.kept i insideI (by omega)
    · intro noRoom
      have outside : ¬start + seq.loopStores clocks < n := by
        rw [JtagSeq.LoopFits] at noRoom
        omega
      rw [dif_neg outside]
      rfl
  · rename_i partly
    rw [if_neg partly] at step
    rw [Nat.add_zero] at step
    constructor
    · intro room
      refine ⟨_, rfl, count, skip, counter, reg, ?_, room, ?_, ?_⟩
      · rw [step]
        exact pointer
      · rw [step, sameBuf]
        exact clocked.stored
      · rw [step, sameBuf]
        exact clocked.kept
    · intro noRoom
      rw [JtagSeq.LoopFits, step] at noRoom
      exact absurd clocked.room noRoom

/-! ## Whole runs -/

/-- The bits of one dword are clocked one after the other. -/
theorem clockBits_decided (count : Nat) (clocked : Clocked seq tdo buf start clocks r) :
    (seq.LoopFits start (clocks + count) n →
        ∃ r', forUpTo (fun _ => JtagRegs.clockBit tdo seq.tdoBits) count r = .ok r' ∧
          Clocked seq tdo buf start (clocks + count) r' ∧ r'.tdiBits = r.tdiBits) ∧
      (¬seq.LoopFits start (clocks + count) n →
        forUpTo (fun _ => JtagRegs.clockBit tdo seq.tdoBits) count r = .error .outOfBounds) := by
  refine forUpTo_decided
    (fun j x => Clocked seq tdo buf start (clocks + j) x ∧ x.tdiBits = r.tdiBits)
    (fun j => seq.LoopFits start (clocks + j) n) ⟨clocked, rfl⟩ ?_ clocked.room ?_
  · intro j room
    exact room.earlier (Nat.le_succ (clocks + j))
  · intro j x _ holds
    obtain ⟨goes, stops⟩ := clockBit_decided holds.1
    constructor
    · intro room
      obtain ⟨y, ran, after⟩ := goes room
      exact ⟨y, ran, after, (clockBit_tdiBits ran).trans holds.2⟩
    · exact stops

/-- Clocks of the first `dwords` dwords. -/
def JtagSeq.dwordClocks (seq : JtagSeq) (dwords : Nat) : Nat := min seq.tdiBits (32 * dwords)

/-- One round of the dword loop clocks 32 bits, the last round what is left. -/
theorem clockDword_decided {i : Nat} (tdi : i < seq.tdi.length) (tms : i < seq.tms.length)
    (more : 32 * i < seq.tdiBits) (small : seq.tdiBits < 4294967296)
    (clocked : Clocked seq tdo buf start (seq.dwordClocks i) r)
    (left : r.tdiBits = seq.tdiBits - 32 * i) :
    (seq.LoopFits start (seq.dwordClocks (i + 1)) n →
        ∃ r', r.clockDword seq.tdi seq.tms tdo seq.tdoBits i = .ok r' ∧
          Clocked seq tdo buf start (seq.dwordClocks (i + 1)) r' ∧
          (32 * (i + 1) < seq.tdiBits → r'.tdiBits = seq.tdiBits - 32 * (i + 1))) ∧
      (¬seq.LoopFits start (seq.dwordClocks (i + 1)) n →
        r.clockDword seq.tdi seq.tms tdo seq.tdoBits i = .error .outOfBounds) := by
  have atTdi : seq.tdi[i]? = some seq.tdi[i] := List.getElem?_eq_getElem tdi
  have atTms : seq.tms[i]? = some seq.tms[i] := List.getElem?_eq_getElem tms
  have upTo : seq.dwordClocks (i + 1) = seq.dwordClocks i + min r.tdiBits 32 := by
    rw [left, JtagSeq.dwordClocks, JtagSeq.dwordClocks]
    omega
  -- `tdi_bits` is unsigned and wraps in the last round, where it is not read again: the
  -- count is claimed only while another round follows.
  have counted : 32 * (i + 1) < seq.tdiBits →
      sub32 (seq.tdiBits - 32 * i) 32 = seq.tdiBits - 32 * (i + 1) := by
    intro further
    rw [Lib.sub32_eq (by omega) (by omega)]
    omega
  obtain ⟨goes, stops⟩ := clockBits_decided (min r.tdiBits 32)
    (clocked.load seq.tdi[i] seq.tms[i] r.tdiBits)
  rw [upTo]
  simp only [JtagRegs.clockDword, atTdi, atTms]
  constructor
  · intro room
    obtain ⟨x, ran, after, same⟩ := goes room
    refine ⟨{ x with tdiBits := sub32 x.tdiBits 32 }, ?_, after.load _ _ _, ?_⟩
    · simp only [ran, Lib.ok_bind]
    · intro further
      have bits : x.tdiBits = seq.tdiBits - 32 * i := same.trans left
      rw [bits]
      exact counted further
  · intro noRoom
    simp only [stops noRoom, Lib.error_bind]

/-- What a finished run has left in `tdo_buf`: the whole dwords, the last dword
    with the samples on top, and copies of the last whole one behind them. -/
structure TdoCaptured (seq : JtagSeq) (tdo : Nat → Bool) (buf : Vector Dword n) (start : Nat)
    (r : JtagRegs n) : Prop where
  counter : r.tdoCounter = seq.tdoSampled seq.tdiBits
  room : seq.StoresFit start n
  whole : ∀ d, (inside : start + d < n) → d < seq.tdoSampled seq.tdiBits / 32 → ∀ p, p < 32 →
    r.tdoBuf[start + d].getLsbD p = tdo (seq.tdoSkipBits + (32 * d + p))
  last : ∀ inside : start + seq.tdoSampled seq.tdiBits / 32 < n,
    seq.tdoSampled seq.tdiBits % 32 ≠ 0 →
      ShiftedIn (fun k => tdo (seq.tdoSkipBits + k)) (seq.tdoSampled seq.tdiBits)
        r.tdoBuf[start + seq.tdoSampled seq.tdiBits / 32]
  stray : ∀ d, (inside : start + d < n) → (seq.tdoSampled seq.tdiBits + 31) / 32 ≤ d →
    d < seq.tdoStores → ∀ p, p < 32 →
      r.tdoBuf[start + d].getLsbD p = tdo (seq.tdoSkipBits + (seq.tdoBits - 32 + p))
  kept : ∀ i, (inside : i < n) → i < start ∨ start + seq.tdoStores ≤ i → r.tdoBuf[i] = buf[i]

/-- The bit loop and the store behind it. -/
theorem finish_decided (clocked : Clocked seq tdo buf start seq.tdiBits r) :
    (seq.StoresFit start n →
        ∃ r', (if r.tdoCounter ≠ 0 ∧ r.tdoCounter % 32 ≠ 0 then r.store else .ok r) = .ok r' ∧
          TdoCaptured seq tdo buf start r') ∧
      (¬seq.StoresFit start n →
        (if r.tdoCounter ≠ 0 ∧ r.tdoCounter % 32 ≠ 0 then r.store else .ok r) =
          .error .outOfBounds) := by
  obtain ⟨-, -, counter, reg, pointer, roomSoFar, stored, kept⟩ := clocked
  have sampled : seq.tdoSampled seq.tdiBits = min seq.tdoBits (seq.tdiBits - seq.tdoSkipBits) :=
    rfl
  have inLoop : seq.loopStores seq.tdiBits =
      seq.tdoSampled seq.tdiBits / 32 + seq.strayStores seq.tdiBits := rfl
  have inAll : seq.tdoStores =
      (seq.tdoSampled seq.tdiBits + 31) / 32 + seq.strayStores seq.tdiBits := rfl
  have strays : seq.strayStores seq.tdiBits ≠ 0 →
      seq.tdoBits % 32 = 0 ∧ seq.tdoSampled seq.tdiBits = seq.tdoBits := by
    rw [JtagSeq.strayStores]
    split <;> omega
  rw [counter]
  split
  · rename_i rest
    -- No clock followed the last sample
    have few : seq.strayStores seq.tdiBits = 0 := by
      by_cases none : seq.strayStores seq.tdiBits = 0
      · exact none
      · have whole := strays none
        omega
    have here : seq.loopStores seq.tdiBits = seq.tdoSampled seq.tdiBits / 32 := by omega
    simp only [JtagRegs.store, pointer]
    constructor
    · intro room
      have inside : start + seq.loopStores seq.tdiBits < n := by
        rw [JtagSeq.StoresFit] at room
        omega
      rw [dif_pos inside]
      refine ⟨_, rfl, counter, room, ?_, ?_, ?_, ?_⟩
      · intro d insideD below p low
        simp only
        rw [Vector.getElem_set_ne _ _ (by omega), stored d insideD (by omega) p low]
        rw [Nat.min_eq_left (by omega)]
      · intro _ _
        simp only [here]
        rw [Vector.getElem_set_self]
        exact reg
      · intro d _ behind below
        omega
      · intro i insideI outside
        simp only
        rw [Vector.getElem_set_ne _ _ (by omega)]
        exact kept i insideI (by omega)
    · intro noRoom
      have outside : ¬start + seq.loopStores seq.tdiBits < n := by
        rw [JtagSeq.StoresFit] at noRoom
        omega
      rw [dif_neg outside]
  · rename_i grid
    have all : seq.tdoStores = seq.loopStores seq.tdiBits := by omega
    constructor
    · intro room
      refine ⟨r, rfl, counter, room, ?_, ?_, ?_, ?_⟩
      · intro d insideD below p low
        rw [stored d insideD (by omega) p low, Nat.min_eq_left (by omega)]
      · intro _ rest
        omega
      · intro d insideD behind below p low
        have complete := strays (by omega)
        rw [stored d insideD (by omega) p low, Nat.min_eq_right (by omega)]
        rw [show 32 * (seq.tdoBits / 32 - 1) = seq.tdoBits - 32 by omega]
      · intro i insideI outside
        exact kept i insideI (by omega)
    · intro noRoom
      rw [JtagSeq.StoresFit, all] at noRoom
      exact absurd roomSoFar noRoom

/-- Before the first clock. -/
theorem clocked_start (seq : JtagSeq) (tdo : Nat → Bool) (buf : Vector Dword n) (start : Nat) :
    Clocked seq tdo buf start 0
      { tdiReg := 0, tmsReg := 0, tdoReg := 0, tdoCounter := 0, tdiBits := seq.tdiBits
        tdoSkipBits := seq.tdoSkipBits, tdoBuf := buf, tdoPtr := some start, clocks := 0
        pulses := [] } := by
  have noSample : seq.tdoSampled 0 = 0 := by
    rw [JtagSeq.tdoSampled]
    omega
  have noStore : seq.loopStores 0 = 0 := by
    rw [JtagSeq.loopStores, noSample, JtagSeq.strayStores]
    split <;> omega
  refine ⟨rfl, rfl, noSample.symm, ?_, by rw [noStore]; rfl, .inl noStore, ?_, fun _ _ _ => rfl⟩
  · rw [noSample]
    exact ShiftedIn.zero _
  · intro d _ below
    omega

/-- The dword loop. -/
theorem clockDwords_decided {dwords : Nat} (tdi : seq.tdiBits ≤ 32 * seq.tdi.length)
    (tms : seq.tdiBits ≤ 32 * seq.tms.length) (small : seq.tdiBits < 4294967296)
    (few : dwords ≤ (seq.tdiBits + 31) / 32) (clocked : Clocked seq tdo buf start 0 r)
    (left : r.tdiBits = seq.tdiBits) :
    (seq.LoopFits start (seq.dwordClocks dwords) n →
        ∃ r', forUpTo (JtagRegs.clockDword seq.tdi seq.tms tdo seq.tdoBits) dwords r = .ok r' ∧
          Clocked seq tdo buf start (seq.dwordClocks dwords) r' ∧
          (32 * dwords < seq.tdiBits → r'.tdiBits = seq.tdiBits - 32 * dwords)) ∧
      (¬seq.LoopFits start (seq.dwordClocks dwords) n →
        forUpTo (JtagRegs.clockDword seq.tdi seq.tms tdo seq.tdoBits) dwords r =
          .error .outOfBounds) := by
  have noClock : seq.dwordClocks 0 = 0 := Nat.min_zero _
  refine forUpTo_decided
    (fun i x => Clocked seq tdo buf start (seq.dwordClocks i) x ∧
      (32 * i < seq.tdiBits → x.tdiBits = seq.tdiBits - 32 * i))
    (fun i => seq.LoopFits start (seq.dwordClocks i) n) ?_ ?_ ?_ ?_
  · rw [noClock]
    exact ⟨clocked, fun _ => left⟩
  · intro i room
    have order : seq.dwordClocks i ≤ seq.dwordClocks (i + 1) := by
      rw [JtagSeq.dwordClocks, JtagSeq.dwordClocks]
      omega
    exact room.earlier order
  · rw [noClock]
    exact clocked.room
  · intro i x below holds
    have more : 32 * i < seq.tdiBits := by omega
    exact clockDword_decided (by omega) (by omega) more small holds.1 (holds.2 more)

/-- A run whose buffers reach far enough finishes exactly if every store is
    inside the TDO buffer. -/
theorem jtagShift_decided (seq : JtagSeq) (tdo : Nat → Bool) (buf : Vector Dword n)
    (tdi : seq.tdiBits ≤ 32 * seq.tdi.length) (tms : seq.tdiBits ≤ 32 * seq.tms.length)
    (small : seq.tdiBits + 31 < 4294967296) (start : Nat) :
    (seq.StoresFit start n →
        ∃ r, jtagShift seq buf (some start) tdo = .ok r ∧ TdoCaptured seq tdo buf start r) ∧
      (¬seq.StoresFit start n →
        jtagShift seq buf (some start) tdo = .error .outOfBounds) := by
  have outDwords : u32 (seq.tdiBits + 31) / 32 = (seq.tdiBits + 31) / 32 := by rw [u32_eq small]
  have allClocks : seq.dwordClocks ((seq.tdiBits + 31) / 32) = seq.tdiBits := by
    rw [JtagSeq.dwordClocks]
    omega
  obtain ⟨goes, stops⟩ := clockDwords_decided tdi tms (by omega) (Nat.le_refl _)
    (clocked_start seq tdo buf start) rfl
  rw [allClocks] at goes stops
  simp only [jtagShift, outDwords]
  -- The loop stores full dwords only; the rest is stored behind it, so a run can fail in
  -- the loop or after it.
  by_cases inLoop : seq.LoopFits start seq.tdiBits n
  · obtain ⟨x, ran, clocked, -⟩ := goes inLoop
    rw [ran]
    exact finish_decided clocked
  · rw [stops inLoop]
    constructor
    · intro room
      have fewer : seq.loopStores seq.tdiBits ≤ seq.tdoStores := by
        rw [JtagSeq.loopStores, JtagSeq.tdoStores]
        omega
      rw [JtagSeq.StoresFit] at room
      rw [JtagSeq.LoopFits] at inLoop
      omega
    · intro _
      rfl

end clocks

end LoongsonEjtag
