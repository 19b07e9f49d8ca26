import LoongsonEjtag.WriteSetup

/-! # The template of a fast write, with and without FASTDATA

What `cmdimpl_fast_mem_write` leaves in the two JTAG buffers, whatever they held
before.

* `writeTms`, `writeTdi` — the sequence of a transfer as the comments of
  `fast_mem_rw_get_bits_per_xfer` give it.
* `PremadeWrite.spells` — the buffers hold copies of it.
* `fast_write_template` — every transfer reads like the first one, in both
  buffers, and takes the TAP controller from Run-Test/Idle back to it.
* `fast_write_length_iff` — the closed formula, the bits that are built and the
  offset of the data agree.
-/

namespace LoongsonEjtag

open Lib (Byte Dword u32 u32_eq sub32 sub32_eq bitAt bitsFrom Spells zeros lowBits TapState
  bind_eq_ok)
open Wire

/-! ## The sequence of a transfer -/

/-- TMS of a transfer with FASTDATA: `0100`, zeros, `110`. -/
def fastdataTms (drBits : Nat) : List Bool :=
  [false, true, false, false] ++ zeros (drBits - 1) ++ [true, true, false]

/-- TMS of a transfer for a context that has been set up. -/
def writeTms (ctx : LsejtagCtx) (fastdata : Bool) : List Bool :=
  if fastdata then fastdataTms ctx.drseqBitlen
  else xferTms (ctx.coreCount * ctx.paramIrLenBits.toNat) ctx.drseqBitlen (ctx.coreCount - 1)

/-- TDI of it, with room for the data. -/
def writeTdi (ctx : LsejtagCtx) (fastdata : Bool) : List Bool :=
  if fastdata then zeros (ctx.drseqBitlen + 6)
  else xferTdi (chainBits ctx ctx.paramIrData (lastCoreFirst ctx) ctx.coreCount)
    (chainBits ctx ctx.paramIrControl id ctx.coreCount) ctx.drseqBitlen (ctx.coreCount - 1)

section layout

variable {ctx : LsejtagCtx} {fastdata : Bool} {limit : Nat} {s s' : SeqBuf}

theorem lowBits_fastdata : lowBits 0x2 4 = [false, true, false, false] := by decide

theorem fastMemXfer_spells_fastdata {skipbits : Nat} (dr : 0 < ctx.drseqBitlen)
    (small : ctx.drseqBitlen + 6 < 2 ^ 32) (tms : Spells limit s.tms [])
    (tdi : Spells limit s.tdi []) (start : s.bitshift = 0)
    (built : fastMemXfer ctx true skipbits s = .ok s') :
    Spells limit s'.tms (fastdataTms ctx.drseqBitlen) ∧
      Spells limit s'.tdi (zeros (ctx.drseqBitlen + 6)) := by
  simp only [fastMemXfer, if_true] at built
  obtain ⟨s₁, shiftDr, idle⟩ := bind_eq_ok.mp built
  rw [sub32_eq dr (by omega)] at idle
  obtain ⟨tms₁, tdi₁, at₁⟩ := appendTms_spells tms 0 start shiftDr
  obtain ⟨tms₂, tdi₂, -⟩ := skipTms_spells tms₁ (ctx.drseqBitlen - 1) (by simp; omega)
    (by omega) idle
  rw [lowBits_fastdata, lowBits_idle] at tms₂
  refine ⟨tms₂, ?_⟩
  rw [tdi₂, tdi₁]
  exact tdi.pad (ctx.drseqBitlen + 6)

/-- What is built in a cleared area, in either layout. -/
theorem fastMemXfer_layout (layout : fastdata = true ∨ ctx.coreCount ≠ 0)
    (ir : 0 < ctx.paramIrLenBits.toNat) (dr : 0 < ctx.drseqBitlen)
    (room : builtBits ctx fastdata (ctx.coreCount - 1) ≤ limit) (small : limit < 2 ^ 32)
    (tms : Spells limit s.tms []) (tdi : Spells limit s.tdi []) (start : s.bitshift = 0)
    (built : fastMemXfer ctx fastdata (ctx.coreCount - 1) s = .ok s') :
    Spells limit s'.tms (writeTms ctx fastdata) ∧ Spells limit s'.tdi (writeTdi ctx fastdata) := by
  rw [builtBits] at room
  cases fastdata with
  | true =>
    rw [if_pos rfl] at room
    exact fastMemXfer_spells_fastdata dr (by omega) tms tdi start built
  | false =>
    have chained : ctx.coreCount ≠ 0 := by simpa using layout
    rw [if_neg (by decide), irFields, if_pos chained] at room
    obtain ⟨spellsTms, spellsTdi, -⟩ :=
      fastMemXfer_spells chained ir dr room small tms tdi start built
    exact ⟨spellsTms, spellsTdi⟩

theorem length_writeTms (layout : fastdata = true ∨ ctx.coreCount ≠ 0)
    (ir : 0 < ctx.paramIrLenBits.toNat) (dr : 0 < ctx.drseqBitlen) :
    (writeTms ctx fastdata).length = builtBits ctx fastdata (ctx.coreCount - 1) := by
  cases fastdata with
  | true =>
    simp only [writeTms, builtBits, if_true, fastdataTms, List.length_append, List.length_cons,
      List.length_nil, Lib.length_zeros]
    omega
  | false =>
    have chained : ctx.coreCount ≠ 0 := by simpa using layout
    have irBits : 0 < ctx.coreCount * ctx.paramIrLenBits.toNat :=
      Nat.mul_pos (Nat.pos_of_ne_zero chained) ir
    simp only [writeTms, builtBits, Bool.false_eq_true, if_false, irFields, if_pos chained]
    exact length_xferTms _ irBits dr

theorem length_writeTdi (layout : fastdata = true ∨ ctx.coreCount ≠ 0) :
    (writeTdi ctx fastdata).length = builtBits ctx fastdata (ctx.coreCount - 1) := by
  cases fastdata with
  | true => simp only [writeTdi, builtBits, if_true, Lib.length_zeros]
  | false =>
    have chained : ctx.coreCount ≠ 0 := by simpa using layout
    simp only [writeTdi, builtBits, Bool.false_eq_true, if_false, irFields, if_pos chained]
    exact length_xferTdi _ _ (length_chainBits ..) (length_chainBits ..)

/-! ## The TAP controller over a transfer -/

/-- A transfer goes from Run-Test/Idle back to it. -/
theorem run_writeTms (ctx : LsejtagCtx) (fastdata : Bool) :
    TapState.run .runTestIdle (writeTms ctx fastdata) = .runTestIdle := by
  have irStays : TapState.shiftIr.next false = .shiftIr := rfl
  have drStays : TapState.shiftDr.next false = .shiftDr := rfl
  have enterDr : TapState.run .runTestIdle [false, true, false, false] = .shiftDr := rfl
  have enterIr : TapState.run .runTestIdle [false, true, true, false, false] = .shiftIr := rfl
  have irToDr : TapState.run .shiftIr [true, true, true, false, false] = .shiftDr := rfl
  have drToIr : TapState.run .shiftDr [true, true, true, true, false, false] = .shiftIr := rfl
  have leave : TapState.run .shiftDr [true, true, false] = .runTestIdle := rfl
  rw [writeTms]
  cases fastdata with
  | true =>
    rw [if_pos rfl, fastdataTms, zeros]
    simp only [TapState.run_append, enterDr, TapState.run_zeros drStays, leave]
  | false =>
    rw [if_neg (by decide), xferTms]
    simp only [zeros, TapState.run_append, enterIr, TapState.run_zeros irStays, irToDr,
      TapState.run_zeros drStays, drToIr, leave]

theorem run_copies {tms : List Bool} (returns : TapState.run .runTestIdle tms = .runTestIdle)
    (count : Nat) : TapState.run .runTestIdle (copies count tms) = .runTestIdle := by
  induction count with
  | zero => rfl
  | succ count ih => rw [(copies_succ count tms).1, TapState.run_append, returns, ih]

end layout

/-! ## The buffers -/

section premade

variable {w start : World} {fastdata : Bool}

theorem cmdBlockXfers_pos (fastdata : Bool) (some : 1 ≤ dataLenXferCount w.ctx.cmd)
    (fits : (fastMemWriteSetup w.ctx fastdata).bitsPerXfer ≤ 2048) :
    1 ≤ w.ctx.cmdBlockXfers fastdata := by
  rw [← xfersPerBufblk_setup_eq]
  exact xfersPerBufblk_setup_pos w.ctx fastdata some fits

theorem length_setupTms (layout : fastdata = true ∨ chainedCoreCount w.ctx.cmd ≠ 0)
    (ir : 1 ≤ w.ctx.paramIrLenBits.toNat) :
    (writeTms (fastMemWriteSetup w.ctx fastdata) fastdata).length = w.ctx.cmdXferBits fastdata ∧
      (writeTdi (fastMemWriteSetup w.ctx fastdata) fastdata).length =
        w.ctx.cmdXferBits fastdata := by
  have width := dataWidth_bounds w.ctx.cmd
  have dr : 0 < (fastMemWriteSetup w.ctx fastdata).drseqBitlen := by
    rw [drseqBitlen_setup_eq]
    omega
  have irSetup : 0 < (fastMemWriteSetup w.ctx fastdata).paramIrLenBits.toNat := ir
  have bits := (builtBits_setup_iff w.ctx fastdata).mpr layout
  exact ⟨(length_writeTms layout irSetup dr).trans bits, (length_writeTdi layout).trans bits⟩

/-- The buffers hold one transfer after the other. -/
theorem PremadeWrite.spells (premade : PremadeWrite w fastdata start)
    (layout : fastdata = true ∨ chainedCoreCount w.ctx.cmd ≠ 0)
    (ir : 1 ≤ w.ctx.paramIrLenBits.toNat) (some : 1 ≤ w.ctx.cmdBlockXfers fastdata) :
    Spells (32 * w.ctx.clearedDwords fastdata) start.ctx.jtagbufA.tmsData
        (copies (w.ctx.cmdBlockXfers fastdata)
          (writeTms (fastMemWriteSetup w.ctx fastdata) fastdata)) ∧
      Spells (32 * w.ctx.clearedDwords fastdata) start.ctx.jtagbufA.tdiData
        (copies (w.ctx.cmdBlockXfers fastdata)
          (writeTdi (fastMemWriteSetup w.ctx fastdata) fastdata)) ∧
      w.ctx.cmdBlockXfers fastdata * w.ctx.cmdXferBits fastdata ≤
        32 * w.ctx.clearedDwords fastdata := by
  obtain ⟨⟨_, _, tms, tdi, s, s', clearTms, clearTdi, first, bitshift, copied, tmsA, tdiA⟩, -⟩ :=
    premade
  obtain ⟨lengthTms, lengthTdi⟩ := length_setupTms layout ir
  have width := dataWidth_bounds w.ctx.cmd
  have dr : 0 < (fastMemWriteSetup w.ctx fastdata).drseqBitlen := by
    rw [drseqBitlen_setup_eq]
    omega
  have bits := (builtBits_setup_iff w.ctx fastdata).mpr layout
  have dwords := DwordBuf.clear_inside clearTms
  have area : w.ctx.cmdBlockXfers fastdata * w.ctx.cmdXferBits fastdata ≤
      32 * w.ctx.clearedDwords fastdata := le_clearedArea _ _
  have one : w.ctx.cmdXferBits fastdata ≤
      w.ctx.cmdBlockXfers fastdata * w.ctx.cmdXferBits fastdata :=
    Nat.le_mul_of_pos_left _ some
  have irSetup : 0 < (fastMemWriteSetup w.ctx fastdata).paramIrLenBits.toNat := ir
  -- One transfer in the cleared area, then the loop that repeats it.
  obtain ⟨spellsTms, spellsTdi⟩ := fastMemXfer_layout layout irSetup dr
    (bits.trans_le (one.trans area)) (by omega) (DwordBuf.clear_spells clearTms)
    (DwordBuf.clear_spells clearTdi) rfl first
  rw [← lengthTms] at bitshift copied
  obtain ⟨allTms, allTdi⟩ := copyXfers_spells spellsTms spellsTdi (lengthTdi.trans lengthTms.symm)
    bitshift some (by rw [lengthTms]; exact area) copied
  rw [← tmsA] at allTms
  rw [← tdiA] at allTdi
  exact ⟨allTms, allTdi, area⟩

/-- A stretch of whole transfers from the start of the buffer. -/
theorem bitsFrom_first_copies {limit count n : Nat} {buf : DwordBuf} {xfer : List Bool}
    (spells : Spells limit buf (copies count xfer)) (few : n ≤ count)
    (room : count * xfer.length ≤ limit) :
    bitsFrom buf 0 (n * xfer.length) = copies n xfer := by
  have upTo : n * xfer.length ≤ count * xfer.length := Nat.mul_le_mul_right _ few
  have split : copies count xfer = [] ++ copies n xfer ++ copies (count - n) xfer := by
    rw [List.nil_append, ← copies_add]
    congr 1
    omega
  rw [split] at spells
  have read := spells.bitsFrom_eq (by rw [length_copies, List.length_nil]; omega)
  rw [length_copies] at read
  exact read

/-- Equal stretches have equal bits. -/
theorem bitAt_of_bitsFrom {buf : DwordBuf} {first second count k : Nat}
    (same : bitsFrom buf first count = bitsFrom buf second count) (below : k < count) :
    bitAt buf (first + k) = bitAt buf (second + k) := by
  have entry := congrArg (fun bits => bits.getD k false) same
  simpa [bitsFrom, List.getD_eq_getElem?_getD, below] using entry

end premade

/-- The premade sequence of a fast write of at least one transfer. -/
theorem fast_write_template {w : World} (fastdata : Bool) (tdo : Nat → Bool)
    (free : w.ctx.periphFree = true) (some : 1 ≤ dataLenXferCount w.ctx.cmd)
    (layout : fastdata = true ∨ chainedCoreCount w.ctx.cmd ≠ 0)
    (ir : 1 ≤ w.ctx.paramIrLenBits.toNat) (short : w.ctx.paramIrLenBits.toNat ≤ 8)
    (fits : (fastMemWriteSetup w.ctx fastdata).bitsPerXfer ≤ 2048)
    (cleared : bit2dword (fastMemWriteSetup w.ctx fastdata).bitsPerXfer *
      (fastMemWriteSetup w.ctx fastdata).xfersPerBufblk ≤ 64) :
    ∃ start, cmdimplFastMemWrite w fastdata tdo = .ok (.cerContinue, start) ∧
      1 ≤ start.ctx.xfersPerBufblk ∧
      start.ctx.tdiBitlen = start.ctx.xfersPerBufblk * start.ctx.bitsPerXfer ∧
      (∀ i, i < start.ctx.xfersPerBufblk → ∀ k, k < start.ctx.bitsPerXfer →
        bitAt start.ctx.jtagbufA.tmsData (i * start.ctx.bitsPerXfer + k) =
            bitAt start.ctx.jtagbufA.tmsData k ∧
          bitAt start.ctx.jtagbufA.tdiData (i * start.ctx.bitsPerXfer + k) =
            bitAt start.ctx.jtagbufA.tdiData k) ∧
      bitsFrom start.ctx.jtagbufA.tmsData 0 start.ctx.bitsPerXfer =
        writeTms (fastMemWriteSetup w.ctx fastdata) fastdata ∧
      (∀ p, p < start.ctx.tdiBitlen →
        bitAt start.ctx.jtagbufB.tmsData p = bitAt start.ctx.jtagbufA.tmsData p ∧
          bitAt start.ctx.jtagbufB.tdiData p = bitAt start.ctx.jtagbufA.tdiData p) ∧
      ∀ id n, n ≤ start.ctx.xfersPerBufblk →
        TapState.run .runTestIdle
          (bitsFrom (start.ctx.jtagbuf id).tmsData 0 (n * start.ctx.bitsPerXfer)) =
            .runTestIdle := by
  have pos := cmdBlockXfers_pos fastdata some fits
  rw [bitsPerXfer_setup_eq] at fits cleared
  rw [xfersPerBufblk_setup_eq] at cleared
  obtain ⟨start, returned, premade⟩ :=
    (fastMemWrite_decided w fastdata tdo free ir short fits).returns cleared layout
  obtain ⟨spellsTms, spellsTdi, area⟩ := premade.spells layout ir pos
  obtain ⟨lengthTms, lengthTdi⟩ := length_setupTms layout ir
  obtain ⟨-, ⟨_, copyTms⟩, ⟨_, copyTdi⟩, bits, xfers, bitlen⟩ := premade
  have inCopy : start.ctx.tdiBitlen ≤ 32 * bit2dword start.ctx.tdiBitlen := by
    rw [bit2dword]
    omega
  refine ⟨start, returned, by rw [xfers]; exact pos, by rw [xfers, bits, bitlen], ?_, ?_, ?_, ?_⟩
  · -- Copy `i` and copy 0 spell the same bits, so each bit of one is that of the other.
    intro i below k inside
    rw [xfers] at below
    rw [bits] at inside ⊢
    have tms := fun j (below : j < w.ctx.cmdBlockXfers fastdata) =>
      bitsFrom_copies spellsTms below (by rw [lengthTms]; exact area)
    have tdi := fun j (below : j < w.ctx.cmdBlockXfers fastdata) =>
      bitsFrom_copies spellsTdi below (by rw [lengthTdi]; exact area)
    rw [lengthTms] at tms
    rw [lengthTdi] at tdi
    have sameTms := bitAt_of_bitsFrom ((tms i below).trans (tms 0 pos).symm) inside
    have sameTdi := bitAt_of_bitsFrom ((tdi i below).trans (tdi 0 pos).symm) inside
    rw [Nat.zero_mul, Nat.zero_add] at sameTms sameTdi
    exact ⟨sameTms, sameTdi⟩
  · have first := bitsFrom_copies spellsTms pos (by rw [lengthTms]; exact area)
    rw [lengthTms, Nat.zero_mul] at first
    rw [bits]
    exact first
  · -- Block B is copied by dwords, and these cover every bit that is handed over.
    intro p inside
    rw [DwordBuf.copyFrom_bits copyTms, DwordBuf.copyFrom_bits copyTdi, if_pos (by omega),
      if_pos (by omega)]
    exact ⟨rfl, rfl⟩
  · -- The first `n` copies are runs from Run-Test/Idle to itself.
    intro id n few
    rw [xfers] at few
    have stretch := bitsFrom_first_copies spellsTms few (by rw [lengthTms]; exact area)
    have upTo : n * w.ctx.cmdXferBits fastdata ≤
        w.ctx.cmdBlockXfers fastdata * w.ctx.cmdXferBits fastdata := Nat.mul_le_mul_right _ few
    rw [lengthTms, ← bits] at stretch
    have sameStretch : bitsFrom (start.ctx.jtagbuf id).tmsData 0 (n * start.ctx.bitsPerXfer) =
        bitsFrom start.ctx.jtagbufA.tmsData 0 (n * start.ctx.bitsPerXfer) := by
      cases id with
      | a => rfl
      | b => exact bitsFrom_copyFrom copyTms (by rw [bits, Nat.zero_add]; omega)
    rw [sameStretch, stretch]
    exact run_copies (run_writeTms _ _) n

/-- The middle one of three cores is written without FASTDATA. -/
theorem fast_write_template_middle_core : ∃ start,
    cmdimplFastMemWrite middleCore false (fun _ => false) = .ok (.cerContinue, start) ∧
      start.ctx.xfersPerBufblk = 2 ∧
      TapState.run .runTestIdle
        (bitsFrom (start.ctx.jtagbuf .b).tmsData 0 (2 * start.ctx.bitsPerXfer)) =
          .runTestIdle := by
  have count : (fastMemWriteSetup middleCore.ctx false).xfersPerBufblk = 2 := by decide +kernel
  obtain ⟨start, returned, -, -, -, -, -, runs⟩ := fast_write_template (w := middleCore) false
    (fun _ => false) (by decide +kernel) (by decide +kernel) (.inr (by decide +kernel))
    (by decide +kernel) (by decide +kernel) (by decide +kernel) (by decide +kernel)
  obtain ⟨-, -, _, _, _, _, isStart⟩ := cmdimplFastMemWrite_ok returned
  have two : start.ctx.xfersPerBufblk = 2 := by
    rw [isStart]
    exact count
  exact ⟨start, returned, two, runs .b 2 (by rw [two])⟩

/-! ## Three lengths of a transfer -/

/-- The transfer that is built has the computed length, and its first data bit is
    where the continuation places the data. -/
structure LengthsAgree (w : World) (fastdata : Bool) (tdo : Nat → Bool) : Prop where
  /-- In a cleared area, for which the call has the context and SKIP bits of the
      setup. -/
  built : ∀ tms tdi : DwordBuf,
    Spells (fastMemWriteSetup w.ctx fastdata).bitsPerXfer tms [] →
    Spells (fastMemWriteSetup w.ctx fastdata).bitsPerXfer tdi [] →
      ∃ s, fastMemXfer (fastMemWriteSetup w.ctx fastdata) fastdata
          (chainedCoreCount w.ctx.cmd - 1) { tms, tdi, bitshift := 0 } = .ok s ∧
        s.bitshift = (fastMemWriteSetup w.ctx fastdata).bitsPerXfer ∧
        TapState.FirstClock .shiftDr .runTestIdle (bitsFrom s.tms 0 s.bitshift)
          (dataBitoffset (fastMemWriteSetup w.ctx fastdata))
  asserted : cmdimplFastMemWrite w fastdata tdo ≠ .error .assertFailed

section lengths

variable {w : World} {fastdata : Bool}

/-- The data of a transfer starts where TMS first gets to Shift-DR. -/
theorem firstClock_writeTms (layout : fastdata = true ∨ chainedCoreCount w.ctx.cmd ≠ 0)
    (ir : 1 ≤ w.ctx.paramIrLenBits.toNat) (short : w.ctx.paramIrLenBits.toNat ≤ 8) :
    TapState.FirstClock .shiftDr .runTestIdle
      (writeTms (fastMemWriteSetup w.ctx fastdata) fastdata)
      (dataBitoffset (fastMemWriteSetup w.ctx fastdata)) := by
  have few : chainedCoreCount w.ctx.cmd < 128 := Nat.mod_lt _ (by decide)
  cases fastdata with
  | true =>
    have uses : (fastMemWriteSetup w.ctx true).useFastdata = true := by
      simp only [fastMemWriteSetup]
      split <;> rfl
    rw [dataBitoffset, if_pos uses, writeTms, if_pos rfl, fastdataTms, List.append_assoc]
    have enters : TapState.run .runTestIdle [false, true, false, false] = .shiftDr := rfl
    exact TapState.FirstClock.of_append enters rfl (by simp)
  | false =>
    have chained : chainedCoreCount w.ctx.cmd ≠ 0 := by simpa using layout
    have uses : (fastMemWriteSetup w.ctx false).useFastdata = false := if_pos chained
    have cores : (fastMemWriteSetup w.ctx false).coreCount = chainedCoreCount w.ctx.cmd := rfl
    have irLen : (fastMemWriteSetup w.ctx false).paramIrLenBits = w.ctx.paramIrLenBits := rfl
    have irBits : 0 < chainedCoreCount w.ctx.cmd * w.ctx.paramIrLenBits.toNat :=
      Nat.mul_pos (Nat.pos_of_ne_zero chained) ir
    have upTo : chainedCoreCount w.ctx.cmd * w.ctx.paramIrLenBits.toNat ≤ 127 * 8 :=
      Nat.mul_le_mul (by omega) short
    rw [dataBitoffset, uses, cores, if_neg chained, if_neg (by decide), irLen,
      u32_eq (by omega), writeTms, if_neg (by decide), xferTms, cores, irLen]
    generalize chainedCoreCount w.ctx.cmd * w.ctx.paramIrLenBits.toNat = L at irBits
    -- 01100, the IR bits but the last one, and 11100
    have irStays : TapState.shiftIr.next false = .shiftIr := rfl
    have enterIr : TapState.run .runTestIdle [false, true, true, false, false] = .shiftIr := rfl
    have irToDr : TapState.run .shiftIr [true, true, true, false, false] = .shiftDr := rfl
    have enters : TapState.run .runTestIdle ([false, true, true, false, false] ++ zeros (L - 1) ++
        [true, true, true, false, false]) = .shiftDr := by
      simp only [TapState.run_append, enterIr, zeros, TapState.run_zeros irStays, irToDr]
    have unwatched : TapState.clocksIn .shiftDr .runTestIdle
        ([false, true, true, false, false] ++ zeros (L - 1) ++
          [true, true, true, false, false]) = 0 := by
      simp only [TapState.clocksIn_append, TapState.run_append, enterIr, zeros,
        TapState.run_zeros irStays, TapState.clocksIn_zeros irStays, reduceCtorEq, if_false]
      rfl
    have length : L + 9 = ([false, true, true, false, false] ++ zeros (L - 1) ++
        [true, true, true, false, false]).length := by
      simp
      omega
    rw [length]
    generalize [false, true, true, false, false] ++ zeros (L - 1) ++
      [true, true, true, false, false] = enter at enters unwatched
    rw [List.append_assoc _ (zeros (L - 1)), List.append_assoc, List.append_assoc,
      List.append_assoc, List.append_assoc]
    exact TapState.FirstClock.of_append enters unwatched (by simp)

/-- The formula, the sequence and the offset of the data agree exactly if there is
    FASTDATA or a chain. -/
theorem fast_write_length_iff (fastdata : Bool) (tdo : Nat → Bool)
    (free : w.ctx.periphFree = true) (ir : 1 ≤ w.ctx.paramIrLenBits.toNat)
    (short : w.ctx.paramIrLenBits.toNat ≤ 8)
    (fits : (fastMemWriteSetup w.ctx fastdata).bitsPerXfer ≤ 2048) :
    LengthsAgree w fastdata tdo ↔ fastdata = true ∨ chainedCoreCount w.ctx.cmd ≠ 0 := by
  have bits : (fastMemWriteSetup w.ctx fastdata).bitsPerXfer = w.ctx.cmdXferBits fastdata :=
    bitsPerXfer_setup_eq w.ctx fastdata
  rw [bits] at fits
  have agrees := builtBits_setup_iff w.ctx fastdata
  have width := dataWidth_bounds w.ctx.cmd
  have dr : 1 ≤ (fastMemWriteSetup w.ctx fastdata).drseqBitlen := by
    rw [drseqBitlen_setup_eq]
    omega
  have irSetup : 1 ≤ (fastMemWriteSetup w.ctx fastdata).paramIrLenBits.toNat := ir
  have fewSetup : (fastMemWriteSetup w.ctx fastdata).paramIrLenBits.toNat < 32 :=
    Nat.lt_of_le_of_lt short (by decide)
  have build := fun tms tdi =>
    fastMemXfer_builds (fastMemWriteSetup w.ctx fastdata) fastdata (chainedCoreCount w.ctx.cmd - 1)
      tms tdi fewSetup dr (builtBits_setup_lt fastdata ir short fits)
  constructor
  · intro lengths
    -- Any cleared buffer will do
    obtain ⟨none, clear⟩ := DwordBuf.clear_total w.ctx.jtagbufA.tmsData (le_refl 64)
    have nothing : Spells (fastMemWriteSetup w.ctx fastdata).bitsPerXfer none [] := by
      intro p below
      exact DwordBuf.clear_spells clear p (by omega)
    obtain ⟨s, first, bitshift, -⟩ := lengths.built none none nothing nothing
    obtain ⟨s', first', bitshift'⟩ := build none none
    rw [first] at first'
    cases first'
    exact agrees.mp (bitshift'.symm.trans (bitshift.trans bits))
  · intro layout
    have length := (agrees.mpr layout).trans bits.symm
    refine ⟨fun tms tdi clearTms clearTdi => ?_, fun stopped => ?_⟩
    · obtain ⟨s, first, bitshift⟩ := build tms tdi
      have layoutSetup : fastdata = true ∨ (fastMemWriteSetup w.ctx fastdata).coreCount ≠ 0 :=
        layout
      have small : (fastMemWriteSetup w.ctx fastdata).bitsPerXfer < 2 ^ 32 := by omega
      obtain ⟨spells, -⟩ := fastMemXfer_layout (s := ⟨tms, tdi, 0⟩) layoutSetup irSetup dr
        length.le small clearTms clearTdi rfl first
      obtain ⟨lengthTms, -⟩ := length_setupTms layout ir
      rw [← bits] at lengthTms
      refine ⟨s, first, bitshift.trans length, ?_⟩
      rw [bitshift, length, ← lengthTms, spells.bitsFrom_all lengthTms.le]
      exact firstClock_writeTms layout ir short
    · have decided := fastMemWrite_decided w fastdata tdo free ir short fits
      by_cases within : w.ctx.clearedDwords fastdata ≤ 64
      · obtain ⟨start, returned, -⟩ := decided.returns within layout
        rw [returned] at stopped
        cases stopped
      · rw [decided.overrun (by omega)] at stopped
        cases stopped

end lengths

theorem fast_write_length_middle_core : LengthsAgree middleCore false (fun _ => false) :=
  (fast_write_length_iff false _ (by decide +kernel) (by decide +kernel) (by decide +kernel)
    (by decide +kernel)).mpr (.inr (by decide +kernel))

/-- A fast write of one word without FASTDATA and without a chain. -/
def singleWord : List Byte := [0, 0x34, 1, 0, 1, 0, 0, 0]

/-- 39 bits are computed for it and 94 are built. -/
theorem fast_write_without_chain_asserts : ∃ s, mainLoop.Reachable s ∧ s.pc = .execute ∧
    op s.world.ctx.cmd = some (writeOp false) ∧ s.world.ctx.continuation = false ∧
    s.world.ctx.periphFree = true ∧ s.world.ctx.paramIrLenBits = 5 ∧
    (fastMemWriteSetup s.world.ctx false).bitsPerXfer = 39 ∧
    cmdimplFastMemWrite s.world false (fun _ => false) = .error .assertFailed ∧
    ¬LengthsAgree s.world false (fun _ => false) := by
  have ran : (mainLoop.run Lib.Machine.anyAction .start
      ([.usbOut (singleWord ++ List.replicate 4 0xff)] ++ polls 64 1)).any (fun s =>
        decide (s.pc = .execute ∧ op s.world.ctx.cmd = some (writeOp false) ∧
          s.world.ctx.continuation = false ∧ s.world.ctx.periphFree = true ∧
          s.world.ctx.paramIrLenBits = 5 ∧ s.world.ctx.cmdXferBits false = 39 ∧
          s.world.ctx.clearedDwords false ≤ 64 ∧
          ¬(false = true ∨ chainedCoreCount s.world.ctx.cmd ≠ 0))) = true := by
    decide +kernel
  obtain ⟨s, reach, holds⟩ := Lib.Machine.exists_reach _ rfl ran
  obtain ⟨pc, isOp, fresh, free, ir, bits, within, layout⟩ := of_decide_eq_true holds
  have length : 1 ≤ s.world.ctx.paramIrLenBits.toNat ∧
      s.world.ctx.paramIrLenBits.toNat ≤ 8 := by
    rw [ir]
    decide
  have decided := fastMemWrite_decided s.world false (fun _ => false) free length.1 length.2
    (by omega)
  have stopped := decided.mismatch within layout
  exact ⟨s, reach, pc, isOp, fresh, free, ir, (bitsPerXfer_setup_eq _ false).trans bits,
    stopped, fun lengths => lengths.asserted stopped⟩

end LoongsonEjtag
