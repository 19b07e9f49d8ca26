import LoongsonEjtag.BitWriters
import LoongsonEjtag.Executed
import LoongsonEjtag.Lib.Tap
import LoongsonEjtag.MainLoop

/-! # The TMS sequence of an IR/DR scan

`cmdimpl_irdr_write` documents the TMS sequence it builds:
`[IR:01100  DR:0100] + [(SeqBitLen-1)x 0] + [110]`.  It finds the bit of the
closing `110` from the end of the data, but the dword from the length of the
data alone, without the prefix.

* `irdrBlock_total` — a scan of 1 to 2016 bits can always be built.
* `bitAt_irdrBlock` — the TMS bits it gets.
* `irdr_tms_sequence` — they are the documented ones exactly if the prefix does
  not push the end of the data into the next dword; otherwise the TAP controller
  does not shift as often as the scan has bits.
-/

namespace LoongsonEjtag

open Lib (Byte Dword Machine u32 sub32 sub32_eq bitAt bitsFrom forUpTo_total bind_eq_ok
  TapRegister ScansOnce)
open Wire

/-! ## The documented sequence -/

/-- `[IR:01100  DR:0100] + [(SeqBitLen-1)x 0] + [110]`. -/
def irdrTmsSequence (isir : Bool) (len : Nat) : List Bool :=
  (if isir then [false, true, true, false, false] else [false, true, false, false]) ++
    List.replicate (len - 1) false ++ [true, true, false]

/-- The register a scan goes through. -/
def irdrRegister (isir : Bool) : TapRegister := if isir then .instruction else .data

theorem scansOnce_irdrTmsSequence (isir : Bool) {len : Nat} (some : 1 ≤ len) (idle : Nat) :
    ScansOnce (irdrRegister isir) len
      (irdrTmsSequence isir len ++ List.replicate idle false) := by
  cases isir with
  | true => exact .of_word rfl rfl rfl some idle
  | false => exact .of_word rfl rfl rfl some idle

/-! ## The sequence that is built -/

/-- Where the closing `110` starts: in the dword `len / 32`. -/
def irdrClosingBit (isir : Bool) (len : Nat) : Nat :=
  32 * (len / 32) + (irdrOffset isir + len - 1) % 32

/-- TMS bit `p` of the block: the ones of the prefix, and the two that close. -/
def irdrTmsBit (isir : Bool) (len p : Nat) : Bool :=
  decide (p = 1 ∨ isir = true ∧ p = 2) ||
    decide (p = irdrClosingBit isir len ∨ p = irdrClosingBit isir len + 1)

theorem irdrOffset_bounds (isir : Bool) : 4 ≤ irdrOffset isir ∧ irdrOffset isir ≤ 5 := by
  cases isir <;> decide

/-- A bit of the documented sequence, with idle clocks behind it. -/
theorem getD_irdrTmsSequence (isir : Bool) {len : Nat} (some : 1 ≤ len) (idle p : Nat) :
    (irdrTmsSequence isir len ++ List.replicate idle false).getD p false =
      (decide (p = 1 ∨ isir = true ∧ p = 2) ||
        decide (p = irdrOffset isir + len - 1 ∨ p = irdrOffset isir + len - 1 + 1)) := by
  have word : (if isir then [false, true, true, false, false]
      else [false, true, false, false]).length = irdrOffset isir := by
    cases isir <;> rfl
  have bounds := irdrOffset_bounds isir
  rw [irdrTmsSequence, List.append_assoc, List.append_assoc]
  by_cases inWord : p < irdrOffset isir
  · rw [List.getD_append _ _ _ _ (by omega)]
    have notClosing : decide (p = irdrOffset isir + len - 1 ∨
        p = irdrOffset isir + len - 1 + 1) = false := decide_eq_false (by omega)
    rw [notClosing, Bool.or_false]
    clear notClosing word bounds
    revert p
    cases isir <;> decide
  · -- Behind the prefix: the zeros of the data, and then the `110` and zeros.
    rw [List.getD_append_right _ _ _ _ (by omega), word]
    have notWord : decide (p = 1 ∨ isir = true ∧ p = 2) = false := decide_eq_false (by omega)
    rw [notWord, Bool.false_or]
    by_cases inData : p - irdrOffset isir < len - 1
    · rw [List.getD_append _ _ _ _ (by rw [List.length_replicate]; exact inData)]
      exact (Lib.getD_zeros ..).trans (decide_eq_false (by omega)).symm
    · rw [List.getD_append_right _ _ _ _ (by rw [List.length_replicate]; omega),
        List.length_replicate]
      obtain ⟨q, isAt⟩ := Nat.exists_eq_add_of_le (show irdrOffset isir + len - 1 ≤ p by omega)
      have index : p - irdrOffset isir - (len - 1) = q := by omega
      rw [index]
      match q with
      | 0 => exact (decide_eq_true (by omega)).symm
      | 1 => exact (decide_eq_true (by omega)).symm
      | q + 2 =>
        rw [decide_eq_false (by omega)]
        cases q with
        | zero => rfl
        | succ q => exact Lib.getD_zeros ..

/-- If the `110` starts where the data of a scan of `len'` bits ends, the
    sequence is the documented one for that length, and idles after it. -/
theorem irdrTmsBit_eq_sequence {isir : Bool} {len len' : Nat} (some : 1 ≤ len')
    (fits : len' ≤ len)
    (closing : irdrClosingBit isir len = irdrOffset isir + len' - 1) :
    (List.range (irdrOffset isir + len + 2)).map (irdrTmsBit isir len) =
      irdrTmsSequence isir len' ++ List.replicate (len - len') false := by
  apply List.ext_getElem
  · cases isir <;> simp [irdrTmsSequence, irdrOffset] <;> omega
  · intro p _ inside
    rw [List.getElem_map, List.getElem_range, irdrTmsBit, closing,
      ← List.getD_eq_getElem _ false inside, getD_irdrTmsSequence isir some]

/-! ## The block -/

theorem getLsbD_three (q : Nat) : (0x3#32).getLsbD q = decide (q < 2) := by
  rw [BitVec.getLsbD_ofNat, show 3 = 2 ^ 2 - 1 from rfl, Nat.testBit_two_pow_sub_one]
  rw [← Bool.decide_and]
  exact decide_eq_decide.mpr (by omega)

/-- The first stage. -/
theorem getLsbD_stage (isir : Bool) (q : Nat) :
    (if isir then 0x6 else 0x2 : Dword).getLsbD q = decide (q = 1 ∨ isir = true ∧ q = 2) := by
  by_cases low : q < 32
  · revert q
    cases isir <;> decide
  · rw [BitVec.getLsbD_of_ge _ _ (by omega)]
    exact (decide_eq_false (by omega)).symm

theorem irdrCloseTms_bits {len off : Nat} {tms tms' : DwordBuf}
    (closed : irdrCloseTms len off tms = .ok tms') (some : 0 < off + len)
    (small : off + len < 2 ^ 32) {p : Nat}
    (clear : p / 32 = len / 32 + 1 → bitAt tms p = false) :
    bitAt tms' p = (bitAt tms p ||
      decide (p = 32 * (len / 32) + (off + len - 1) % 32 ∨
        p = 32 * (len / 32) + (off + len - 1) % 32 + 1)) := by
  simp only [irdrCloseTms, sub32_eq some small] at closed
  obtain ⟨first, low, high⟩ := bind_eq_ok.mp closed
  split at high
  · rename_i straddles
    rw [DwordBuf.write_bits high, DwordBuf.update_or low]
    by_cases carried : p / 32 = len / 32 + 1
    · rw [if_pos carried, clear carried, BitVec.getLsbD_ushiftRight, getLsbD_three, Bool.false_or]
      exact decide_eq_decide.mpr (by omega)
    · rw [if_neg carried, BitVec.getLsbD_shiftLeft, getLsbD_three]
      congr 1
      rw [← decide_not, ← Bool.decide_and, ← Bool.decide_and, ← Bool.decide_and]
      exact decide_eq_decide.mpr (by omega)
  · rename_i oneDword
    rw [← Except.ok.inj high, DwordBuf.update_or low, BitVec.getLsbD_shiftLeft, getLsbD_three]
    congr 1
    rw [← decide_not, ← Bool.decide_and, ← Bool.decide_and, ← Bool.decide_and]
    exact decide_eq_decide.mpr (by omega)

/-- 2016 bits end in dword 63, but at its fifth bit at most. -/
theorem irdrCloseTms_total {len off : Nat} (tms : DwordBuf) (few : len ≤ 2016) (low : 4 ≤ off)
    (high : off ≤ 5) : ∃ tms', irdrCloseTms len off tms = .ok tms' := by
  have last : sub32 (off + len) 1 = off + len - 1 := sub32_eq (by omega) (by omega)
  obtain ⟨first, wrote⟩ := DwordBuf.update_total tms (i := len / 32) (by omega)
    (· ||| 0x3#32 <<< ((off + len - 1) % 32))
  simp only [irdrCloseTms, last, wrote, Lib.ok_bind]
  by_cases straddles : (off + len - 1) % 32 ≥ 30
  · rw [if_pos straddles]
    exact DwordBuf.write_total first (by omega) _
  · rw [if_neg straddles]
    exact ⟨first, rfl⟩

section irdrBlock

variable {blk blk' : JtagbufBlk} {cmd : List Byte} {isir : Bool}

theorem irdrBlock_tdiBits (built : irdrBlock blk cmd isir = .ok blk') :
    blk'.tdiBits = irdrOffset isir + irseqLenBits cmd + 2 := by
  obtain ⟨_, _, _, _, _, -, -, -, -, -, rfl⟩ := irdrBlock_built built
  rfl

theorem bitAt_irdrBlock (built : irdrBlock blk cmd isir = .ok blk') {p : Nat}
    (below : p < irdrOffset isir + irseqLenBits cmd + 2) :
    bitAt blk'.tmsData p = irdrTmsBit isir (irseqLenBits cmd) p := by
  have short : irseqLenBits cmd < 2 ^ 16 := Lib.le16_lt cmd 2
  have offset := irdrOffset_bounds isir
  obtain ⟨cleared, _, staged, _, closed, clear, -, stage, -, close, rfl⟩ := irdrBlock_built built
  -- Every bit of the sequence lies in the area that was cleared.
  have zero : bitAt cleared p = false := by
    rw [DwordBuf.clear_bits clear, bit2dword]
    simp
    omega
  have first : bitAt staged p = decide (p = 1 ∨ isir = true ∧ p = 2) := by
    rw [DwordBuf.write_bits stage, getLsbD_stage, zero]
    by_cases inFirst : p / 32 = 0
    · have same : p % 32 = p := by omega
      rw [if_pos inFirst, same]
    · rw [if_neg inFirst]
      exact (decide_eq_false (by omega)).symm
  have behind : p / 32 = irseqLenBits cmd / 32 + 1 → bitAt staged p = false := by
    intro carried
    rw [first]
    exact decide_eq_false (by omega)
  rw [irdrCloseTms_bits close (by omega) (by omega) behind, first]
  rfl

/-- A scan of up to 2016 bits fits into `irseq` and both buffers. -/
theorem irdrBlock_total (blk : JtagbufBlk) (isir : Bool) (few : irseqLenBits cmd ≤ 2016) :
    ∃ blk', irdrBlock blk cmd isir = .ok blk' := by
  have offset := irdrOffset_bounds isir
  have room : bit2dword (irdrOffset isir + irseqLenBits cmd + 2) ≤ 64 := by
    rw [bit2dword]
    omega
  obtain ⟨tms, clearTms⟩ := DwordBuf.clear_total blk.tmsData room
  obtain ⟨tdi, clearTdi⟩ := DwordBuf.clear_total blk.tdiData room
  have fills : ∀ i tdi, i < bit2dword (irseqLenBits cmd) → True →
      ∃ tdi', irdrFillDword cmd (irdrOffset isir) i tdi = .ok tdi' ∧ True := by
    intro i tdi below _
    rw [bit2dword] at below
    obtain ⟨first, wrote⟩ := DwordBuf.update_total tdi (i := i) (by omega)
      (· ||| BitVec.ofNat 32 (Lib.le32 cmd (4 + 4 * i)) <<< irdrOffset isir)
    obtain ⟨second, carried⟩ := DwordBuf.write_total first (i := i + 1) (by omega)
      (BitVec.ofNat 32 (Lib.le32 cmd (4 + 4 * i)) >>> (32 - irdrOffset isir))
    refine ⟨second, ?_, trivial⟩
    rw [irdrFillDword, irseqDword, if_pos (by omega), Lib.ok_bind, wrote, Lib.ok_bind, carried]
  obtain ⟨filled, fill, -⟩ := forUpTo_total (a := tdi) (fun _ _ => True) trivial fills
  obtain ⟨staged, stage⟩ := DwordBuf.write_total tms (i := 0) (by decide)
    (if isir then 0x6 else 0x2)
  obtain ⟨closed, close⟩ := irdrCloseTms_total staged few offset.1 offset.2
  simp only [irdrBlock, clearTms, clearTdi, stage, fill, close, Lib.ok_bind]
  exact ⟨_, rfl⟩

end irdrBlock

/-! ## When it is the documented one -/

/-- The prefix does not push the end of the data into the next dword. -/
def ClosesInPlace (isir : Bool) (len : Nat) : Prop := len % 32 + irdrOffset isir ≤ 32

instance (isir : Bool) (len : Nat) : Decidable (ClosesInPlace isir len) :=
  inferInstanceAs (Decidable (_ ≤ _))

section sequence

variable {isir : Bool} {len : Nat}

theorem irdrTmsBit_documented (some : 1 ≤ len) (inPlace : ClosesInPlace isir len) :
    (List.range (irdrOffset isir + len + 2)).map (irdrTmsBit isir len) =
      irdrTmsSequence isir len := by
  have offset := irdrOffset_bounds isir
  rw [ClosesInPlace] at inPlace
  have closing : irdrClosingBit isir len = irdrOffset isir + len - 1 := by
    rw [irdrClosingBit]
    omega
  rw [irdrTmsBit_eq_sequence some le_rfl closing]
  simp

/-- Where the data ends in the next dword, the `110` comes 32 clocks early. -/
theorem irdrTmsBit_early (misplaced : ¬ClosesInPlace isir len) :
    ¬ScansOnce (irdrRegister isir) len
      ((List.range (irdrOffset isir + len + 2)).map (irdrTmsBit isir len)) := by
  have offset := irdrOffset_bounds isir
  rw [ClosesInPlace] at misplaced
  intro once
  by_cases long : 32 ≤ len
  · -- A scan of `len - 32` bits is left, and 32 clocks in Run-Test/Idle.
    have closing : irdrClosingBit isir len = irdrOffset isir + (len - 32) - 1 := by
      rw [irdrClosingBit]
      omega
    rw [irdrTmsBit_eq_sequence (by omega) (Nat.sub_le len 32) closing] at once
    have shorter := scansOnce_irdrTmsSequence isir (show 1 ≤ len - 32 by omega) (len - (len - 32))
    have clocks := once.shifts.symm.trans shorter.shifts
    omega
  · -- The `110` falls into the prefix.
    have shifts := once.shifts
    cases isir with
    | true =>
      have lengths : len = 28 ∨ len = 29 ∨ len = 30 ∨ len = 31 := by
        simp only [irdrOffset, if_true] at misplaced
        omega
      obtain rfl | rfl | rfl | rfl := lengths <;> revert shifts <;> decide
    | false =>
      have lengths : len = 29 ∨ len = 30 ∨ len = 31 := by
        simp only [irdrOffset, Bool.false_eq_true, if_false] at misplaced
        omega
      obtain rfl | rfl | rfl := lengths <;> revert shifts <;> decide

end sequence

/-- With a free block and room for its answer, a scan of up to 2016 bits is built. -/
theorem cmdimplIrdrWrite_builds {w : World} {id : BufId} (isir : Bool)
    (few : irseqLenBits w.ctx.cmd ≤ 2016) (free : w.ctx.freeJtagbuf = .some id)
    (room : returnDataLenRequired w.ctx ≤ sub32 256 (u32 (4 * w.ctx.tdoInDwords))) :
    ∃ w' blk, cmdimplIrdrWrite w isir = .ok (.cerSuccess, w') ∧ w'.ctx.jtagbuf id = blk ∧
      irdrBlock (w.ctx.jtagbuf id) w.ctx.cmd isir = .ok blk := by
  obtain ⟨blk, built⟩ := irdrBlock_total (w.ctx.jtagbuf id) isir few
  refine ⟨{ w with ctx := cmdBufClean (w.ctx.setJtagbuf id blk) }.log (.prepared blk.seq), blk,
    ?_, ?_, built⟩
  · simp only [cmdimplIrdrWrite, free, if_neg (Nat.not_lt_of_le room), built, Lib.ok_bind]
  · cases id <;> rfl

/-- The block `cmdimpl_irdr_write` prepares always has `off + len + 2` bits.  Its
    TMS bits are the documented ones, and make the TAP controller shift `len`
    times, exactly if the closing `110` is in place. -/
theorem irdr_tms_sequence {w : World} {id : BufId} (isir : Bool)
    (some : 1 ≤ irseqLenBits w.ctx.cmd) (few : irseqLenBits w.ctx.cmd ≤ 2016)
    (free : w.ctx.freeJtagbuf = .some id)
    (room : returnDataLenRequired w.ctx ≤ sub32 256 (u32 (4 * w.ctx.tdoInDwords))) :
    ∃ w', cmdimplIrdrWrite w isir = .ok (.cerSuccess, w') ∧
      (w'.ctx.jtagbuf id).prepared = true ∧
      (w'.ctx.jtagbuf id).tdiBits = irdrOffset isir + irseqLenBits w.ctx.cmd + 2 ∧
      (bitsFrom (w'.ctx.jtagbuf id).tmsData 0 (w'.ctx.jtagbuf id).tdiBits =
        irdrTmsSequence isir (irseqLenBits w.ctx.cmd) ↔
          ClosesInPlace isir (irseqLenBits w.ctx.cmd)) ∧
      (ScansOnce (irdrRegister isir) (irseqLenBits w.ctx.cmd)
        (bitsFrom (w'.ctx.jtagbuf id).tmsData 0 (w'.ctx.jtagbuf id).tdiBits) ↔
          ClosesInPlace isir (irseqLenBits w.ctx.cmd)) := by
  obtain ⟨w', blk, executed, block, built⟩ := cmdimplIrdrWrite_builds isir few free room
  have bits := irdrBlock_tdiBits built
  obtain ⟨-, -, prepared, -, -⟩ := irdrBlock_ok built
  have tms : bitsFrom blk.tmsData 0 blk.tdiBits =
      (List.range (irdrOffset isir + irseqLenBits w.ctx.cmd + 2)).map
        (irdrTmsBit isir (irseqLenBits w.ctx.cmd)) := by
    rw [bits, bitsFrom]
    apply List.map_congr_left
    intro p below
    rw [Nat.zero_add, bitAt_irdrBlock built (List.mem_range.mp below)]
  -- The two equivalences share their directions: in place gives the documented bits,
  -- these scan once, and what scans once has its closing bits in place.
  have documented : ClosesInPlace isir (irseqLenBits w.ctx.cmd) →
      bitsFrom blk.tmsData 0 blk.tdiBits = irdrTmsSequence isir (irseqLenBits w.ctx.cmd) :=
    fun inPlace => tms.trans (irdrTmsBit_documented some inPlace)
  have scans : bitsFrom blk.tmsData 0 blk.tdiBits =
      irdrTmsSequence isir (irseqLenBits w.ctx.cmd) →
      ScansOnce (irdrRegister isir) (irseqLenBits w.ctx.cmd)
        (bitsFrom blk.tmsData 0 blk.tdiBits) := by
    intro isDocumented
    have once := scansOnce_irdrTmsSequence isir some 0
    rw [List.replicate_zero, List.append_nil] at once
    rw [isDocumented]
    exact once
  have inPlace : ScansOnce (irdrRegister isir) (irseqLenBits w.ctx.cmd)
      (bitsFrom blk.tmsData 0 blk.tdiBits) → ClosesInPlace isir (irseqLenBits w.ctx.cmd) := by
    intro once
    by_contra misplaced
    rw [tms] at once
    exact irdrTmsBit_early misplaced once
  refine ⟨w', executed, ?_⟩
  rw [block]
  exact ⟨prepared, bits, ⟨fun isDocumented => inPlace (scans isDocumented), documented⟩,
    ⟨inPlace, fun fits => scans (documented fits)⟩⟩

/-- A DR scan of 32 bits, buffered and ready to be executed. -/
def drScan32 : World :=
  { World.start with ctx := { lsejtagInitCtx with
      bufferedCmd := ((Vector.replicate 256 0).set 1 0x14).set 2 32 } }

theorem irdr_tms_sequence_dr32 : ∃ w', cmdimplIrdrWrite drScan32 false = .ok (.cerSuccess, w') ∧
    w'.ctx.jtagbufA.tdiBits = 38 ∧
    bitsFrom w'.ctx.jtagbufA.tmsData 0 38 = irdrTmsSequence false 32 ∧
    ScansOnce .data 32 (bitsFrom w'.ctx.jtagbufA.tmsData 0 38) := by
  have len : irseqLenBits drScan32.ctx.cmd = 32 := by decide
  have free : drScan32.ctx.freeJtagbuf = some .a := rfl
  obtain ⟨w', executed, -, bits, documented, scans⟩ :=
    irdr_tms_sequence (w := drScan32) false (by decide) (by decide) free (by decide +kernel)
  rw [len] at bits documented scans
  rw [bits] at documented scans
  exact ⟨w', executed, bits, documented.mpr (by decide), scans.mpr (by decide)⟩

/-- An IR scan of 28 bits.  The closing `110` starts with its first TMS bit, so
    the controller goes to Test-Logic-Reset and never shifts. -/
theorem ir_scan_of_28_bits_resets : ∃ s, mainLoop.Reachable s ∧ s.pc = .runJtag ∧
    op s.world.ctx.cmd = some .opIrRw ∧ irseqLenBits s.world.ctx.cmd = 28 ∧
    s.world.ctx.preparedBufblk = some .a ∧
    bitsFrom s.world.ctx.jtagbufA.tmsData 0 s.world.ctx.jtagbufA.tdiBits ≠
      irdrTmsSequence true 28 ∧
    ¬ScansOnce .instruction 28
      (bitsFrom s.world.ctx.jtagbufA.tmsData 0 s.world.ctx.jtagbufA.tdiBits) := by
  have ran : (mainLoop.run Machine.anyAction .start
      ([.usbOut [0x00, 0x10, 28, 0, 0x78, 0x56, 0x34, 0x12]] ++ polls 64 3)).any (fun s =>
        decide (s.pc = .runJtag ∧ op s.world.ctx.cmd = some .opIrRw ∧
          irseqLenBits s.world.ctx.cmd = 28 ∧ s.world.ctx.preparedBufblk = some .a ∧
          bitsFrom s.world.ctx.jtagbufA.tmsData 0 s.world.ctx.jtagbufA.tdiBits ≠
            irdrTmsSequence true 28 ∧
          ¬ScansOnce .instruction 28
            (bitsFrom s.world.ctx.jtagbufA.tmsData 0 s.world.ctx.jtagbufA.tdiBits))) = true := by
    decide +kernel
  obtain ⟨s, reach, holds⟩ := Machine.exists_reach _ rfl ran
  exact ⟨s, reach, of_decide_eq_true holds⟩

end LoongsonEjtag
