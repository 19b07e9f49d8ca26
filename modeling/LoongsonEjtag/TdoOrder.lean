import LoongsonEjtag.MainLoop
import LoongsonEjtag.TdoCapture

/-! # Where captured samples go

The two things `lsejtag_impl.h` asks of the TDO buffer, for a run of one JTAG
buffer: that nothing but the reported dwords is written, and that samples fill
it from LSB to MSB.

* Stores on the clocks behind a capture of whole dwords break the first.
* The last dword of a capture that ends off the dword grid has its samples on
  top, which breaks the second.
-/

namespace LoongsonEjtag

open Lib (Dword u32 u32_eq bitAt bitAt_eq)

/-! ## Runs of one JTAG buffer -/

section blocks

variable {blk : JtagbufBlk} {tdo : Nat → Bool} {start : Nat}

/-- The callbacks of a finished run only count. -/
theorem lsejtagImplRunJtag_finished {w : World} {seq : JtagSeq} {pointer : Option Nat}
    {r : JtagRegs} (shifted : jtagShift seq w.ctx.tdoInData pointer tdo = .ok r) :
    ∃ w', lsejtagImplRunJtag w seq pointer tdo = .ok w' ∧ w'.ctx.tdoInData = r.tdoBuf ∧
      w'.ctx.tdoInDwords = u32 (w.ctx.tdoInDwords + r.dwords) ∧
      w'.ctx.tdoDmaPtr = w.ctx.tdoDmaPtr + r.dwords := by
  simp only [lsejtagImplRunJtag, shifted, Lib.ok_bind]
  refine ⟨_, rfl, ?_⟩
  simp only [lsejtagJtagCompleteTdo, lsejtagJtagComplete, World.ctx_log, LsejtagCtx.completeTdo,
    LsejtagCtx.completeActive]
  split
  · exact ⟨rfl, rfl, rfl⟩
  · rename_i id active
    cases id <;> exact ⟨rfl, rfl, rfl⟩

/-- `jtagShift_decided` for the buffers of a block. -/
theorem blockRun_decided (w : World) (tdo : Nat → Bool) (fits : blk.tdiBits ≤ 2048)
    (start : Nat) :
    (blk.seq.StoresFit start →
        ∃ r w', lsejtagImplRunJtag w blk.seq (some start) tdo = .ok w' ∧
          w'.ctx.tdoInData = r.tdoBuf ∧ w'.ctx.tdoInDwords = u32 (w.ctx.tdoInDwords + r.dwords) ∧
          w'.ctx.tdoDmaPtr = w.ctx.tdoDmaPtr + r.dwords ∧
          TdoCaptured blk.seq tdo w.ctx.tdoInData start r) ∧
      (¬blk.seq.StoresFit start →
        lsejtagImplRunJtag w blk.seq (some start) tdo = .error .outOfBounds) := by
  have fits' : blk.seq.tdiBits ≤ 2048 := fits
  have tdi : blk.seq.tdi.length = 64 := Vector.length_toList
  have tms : blk.seq.tms.length = 64 := Vector.length_toList
  obtain ⟨goes, stops⟩ := jtagShift_decided blk.seq tdo w.ctx.tdoInData (by omega) (by omega)
    (by omega) start
  constructor
  · intro room
    obtain ⟨r, shifted, captured⟩ := goes room
    obtain ⟨w', ran, buf, dwords, pointer⟩ := lsejtagImplRunJtag_finished shifted
    exact ⟨r, w', ran, buf, dwords, pointer, captured⟩
  · intro noRoom
    simp only [lsejtagImplRunJtag, stops noRoom, Lib.error_bind]

/-- Dwords the run of a block reports. -/
theorem TdoCaptured.dwords_eq {buf : Vector Dword 64} {r : JtagRegs} {seq : JtagSeq}
    (captured : TdoCaptured seq tdo buf start r) :
    r.dwords = (seq.tdoSampled seq.tdiBits + 31) / 32 := by
  have room := captured.room
  rw [JtagSeq.StoresFit] at room
  have stores : seq.tdoStores =
      (seq.tdoSampled seq.tdiBits + 31) / 32 + seq.strayStores seq.tdiBits := rfl
  rw [JtagRegs.dwords, captured.counter, u32_eq (by omega)]

end blocks

/-! ## Only what is reported -/

/-- Dwords that `lsejtag_impl_run_jtag` has to report for a block. -/
def JtagbufBlk.tdoDwords (blk : JtagbufBlk) : Nat :=
  (min blk.tdoBits (blk.tdiBits - blk.tdoSkipBits) + 31) / 32

/-- From every state the run of the block finishes, reports `tdoDwords` dwords
    and changes no other dword of the TDO buffer. -/
def StoresOnlyReported (blk : JtagbufBlk) (tdo : Nat → Bool) : Prop :=
  ∀ w start, start + blk.tdoDwords ≤ 64 →
    ∃ w', lsejtagImplRunJtag w blk.seq (some start) tdo = .ok w' ∧
      w'.ctx.tdoInDwords = u32 (w.ctx.tdoInDwords + blk.tdoDwords) ∧
      w'.ctx.tdoDmaPtr = w.ctx.tdoDmaPtr + blk.tdoDwords ∧
      ∀ i, (inside : i < 64) → i < start ∨ start + blk.tdoDwords ≤ i →
        w'.ctx.tdoInData[i] = w.ctx.tdoInData[i]

/-- The clocks of a block end with its capture, or the capture ends inside a
    dword. -/
def CaptureEndsRun (blk : JtagbufBlk) : Prop :=
  blk.tdoBits = 0 ∨ blk.tdoBits % 32 ≠ 0 ∨ blk.tdiBits ≤ blk.tdoSkipBits + blk.tdoBits

instance (blk : JtagbufBlk) : Decidable (CaptureEndsRun blk) :=
  inferInstanceAs (Decidable (_ ∨ _))

theorem strayStores_eq_zero_iff {blk : JtagbufBlk} :
    blk.seq.strayStores blk.seq.tdiBits = 0 ↔ CaptureEndsRun blk := by
  have bits : blk.seq.tdoBits = blk.tdoBits := rfl
  have total : blk.seq.tdiBits = blk.tdiBits := rfl
  have skip : blk.seq.tdoSkipBits = blk.tdoSkipBits := rfl
  rw [JtagSeq.strayStores, CaptureEndsRun]
  by_cases grid : blk.seq.tdoBits ≠ 0 ∧ blk.seq.tdoBits % 32 = 0
  · rw [if_pos grid]
    omega
  · rw [if_neg grid]
    omega

theorem tdoStores_eq (blk : JtagbufBlk) :
    blk.seq.tdoStores = blk.tdoDwords + blk.seq.strayStores blk.seq.tdiBits := rfl

/-- A run that captures whole dwords and goes on overwrites the dword behind
    them, whatever the samples are. -/
theorem StoresOnlyReported.endsRun {blk : JtagbufBlk} {tdo : Nat → Bool}
    (fits : blk.tdiBits ≤ 2048) (only : StoresOnlyReported blk tdo) : CaptureEndsRun blk := by
  by_cases ends : CaptureEndsRun blk
  · exact ends
  · exfalso
    have strays : blk.seq.strayStores blk.seq.tdiBits ≠ 0 :=
      fun none => ends (strayStores_eq_zero_iff.mp none)
    have stores := tdoStores_eq blk
    have sampled : blk.tdoDwords ≤ 64 := by
      rw [JtagbufBlk.tdoDwords]
      omega
    -- The dword behind the capture starts out with the other level in bit 0
    let other : Dword := if tdo (blk.tdoSkipBits + (blk.tdoBits - 32 + 0)) then 0 else 1
    have differs : other.getLsbD 0 ≠ tdo (blk.tdoSkipBits + (blk.tdoBits - 32 + 0)) := by
      simp only [other]
      split <;> simp_all
    let w : World :=
      { ctx := { lsejtagInitCtx with tdoInData := Vector.replicate 64 other }, rx := [],
        trace := [] }
    obtain ⟨w', ran, -, -, kept⟩ := only w 0 (by omega)
    by_cases room : blk.seq.StoresFit 0
    · have inside : 0 + blk.tdoDwords < 64 := by
        rw [JtagSeq.StoresFit] at room
        omega
      have behind : blk.tdoDwords < blk.seq.tdoStores := by omega
      obtain ⟨r, w'', ran', buf, -, -, captured⟩ :=
        (blockRun_decided w tdo fits 0).1 room
      cases ran.symm.trans ran'
      have stray := captured.stray blk.tdoDwords inside (Nat.le_refl _) behind 0 (by decide)
      have same := kept (0 + blk.tdoDwords) inside (.inr (Nat.le_refl _))
      apply differs
      calc other.getLsbD 0
        _ = (w.ctx.tdoInData[0 + blk.tdoDwords]).getLsbD 0 := by simp [w]
        _ = (r.tdoBuf[0 + blk.tdoDwords]).getLsbD 0 := by rw [← same]; simp only [buf]
        _ = tdo (blk.tdoSkipBits + (blk.tdoBits - 32 + 0)) := stray
    · cases ran.symm.trans ((blockRun_decided w tdo fits 0).2 room)

/-- The engine stores only what it reports exactly if no clock follows a capture
    of whole dwords. -/
theorem runJtag_storesOnlyReported_iff (blk : JtagbufBlk) (tdo : Nat → Bool)
    (fits : blk.tdiBits ≤ 2048) : StoresOnlyReported blk tdo ↔ CaptureEndsRun blk := by
  constructor
  · exact fun only => only.endsRun fits
  · intro ends w start room
    have stores := tdoStores_eq blk
    rw [strayStores_eq_zero_iff.mpr ends, Nat.add_zero] at stores
    obtain ⟨r, w', ran, buf, dwords, pointer, captured⟩ :=
      (blockRun_decided w tdo fits start).1 (.inr (by omega))
    have reported : r.dwords = blk.tdoDwords := captured.dwords_eq
    rw [reported] at dwords pointer
    refine ⟨w', ran, dwords, pointer, ?_⟩
    intro i inside outside
    simp only [buf]
    exact captured.kept i inside (by rw [stores]; exact outside)

/-- The block of a DR scan of 32 bits that reads back. -/
def drReadBack32 : JtagbufBlk :=
  { JtagbufBlk.zero with tdiBits := 38, tdoBits := 32, tdoSkipBits := 4, prepared := true }

/-- Its last two clocks store again, behind the one dword that is reported. -/
theorem dr_read_back_of_32_bits_overruns :
    drReadBack32.tdiBits ≤ 2048 ∧ drReadBack32.tdoDwords = 1 ∧
      ¬StoresOnlyReported drReadBack32 fun _ => true :=
  ⟨by decide, by decide, fun only => absurd (only.endsRun (by decide)) (by decide)⟩

/-- A DR scan of 33 bits ends its capture inside a dword. -/
theorem dr_read_back_of_33_bits_stays :
    StoresOnlyReported { drReadBack32 with tdiBits := 39, tdoBits := 33 } fun _ => true :=
  (runJtag_storesOnlyReported_iff _ _ (by decide)).mpr (by decide)

/-! ## The order of the samples -/

/-- After a run that starts at dword `start` of the TDO buffer, bit `k % 32` of
    dword `k / 32` from there is the sample of clock `tdo_skip_bits + k`. -/
def SamplesInOrder (w : World) (blk : JtagbufBlk) (start : Nat) (tdo : Nat → Bool) : Prop :=
  ∃ w', lsejtagImplRunJtag w blk.seq (some start) tdo = .ok w' ∧
    ∀ k, k < blk.tdoBits →
      bitAt w'.ctx.tdoInData (32 * start + k) = tdo (blk.tdoSkipBits + k)

/-- Each sample of the last, partial dword is the sample as many clocks before
    it as bits of the dword stay unused; a missing one counts as low. -/
def LastDwordRepeats (blk : JtagbufBlk) (tdo : Nat → Bool) : Prop :=
  ∀ k, 32 * (blk.tdoBits / 32) ≤ k → k < blk.tdoBits →
    tdo (blk.tdoSkipBits + k) =
      (decide (32 ≤ k + blk.tdoBits % 32) &&
        tdo (blk.tdoSkipBits + (k + blk.tdoBits % 32 - 32)))

/-- A capture of whole dwords has no such dword. -/
theorem LastDwordRepeats.of_whole {blk : JtagbufBlk} {tdo : Nat → Bool}
    (whole : blk.tdoBits % 32 = 0) : LastDwordRepeats blk tdo := by
  intro k behind below
  omega

section order

variable {blk : JtagbufBlk} {tdo : Nat → Bool} {start : Nat} {buf : Vector Dword 64} {r : JtagRegs}

/-- Where sample `k` of a finished capture is expected, and what is there. -/
theorem TdoCaptured.bitAt_eq (captured : TdoCaptured blk.seq tdo buf start r)
    (within : blk.tdoSkipBits + blk.tdoBits ≤ blk.tdiBits) {k : Nat} (below : k < blk.tdoBits) :
    bitAt r.tdoBuf (32 * start + k) =
      if k < 32 * (blk.tdoBits / 32) then tdo (blk.tdoSkipBits + k)
      else decide (32 ≤ k + blk.tdoBits % 32) &&
        tdo (blk.tdoSkipBits + (k + blk.tdoBits % 32 - 32)) := by
  have sampled : blk.seq.tdoSampled blk.seq.tdiBits = blk.tdoBits := Nat.min_eq_left (by
    have skip : blk.seq.tdoSkipBits = blk.tdoSkipBits := rfl
    have total : blk.seq.tdiBits = blk.tdiBits := rfl
    have bits : blk.seq.tdoBits = blk.tdoBits := rfl
    omega)
  obtain ⟨-, room, whole, last, -, -⟩ := captured
  rw [JtagSeq.StoresFit, JtagSeq.tdoStores] at room
  rw [sampled] at whole last room
  have dword : (32 * start + k) / 32 = start + k / 32 := by omega
  have low : (32 * start + k) % 32 = k % 32 := by omega
  rw [Lib.bitAt_eq (show (32 * start + k) / 32 < 64 by omega)]
  simp only [dword, low]
  by_cases inWhole : k < 32 * (blk.tdoBits / 32)
  · rw [if_pos inWhole, whole (k / 32) (by omega) (by omega) (k % 32) (by omega), Nat.div_add_mod]
    rfl
  · rw [if_neg inWhole]
    have isLast : k / 32 = blk.tdoBits / 32 := by omega
    -- The register was shifted down once for each sample, and no further
    have top := last (by omega) (by omega) (k % 32) (by omega)
    have moved : blk.tdoBits + k % 32 = k + blk.tdoBits % 32 := by omega
    simp only [isLast]
    rw [top, moved]
    rfl

theorem SamplesInOrder.repeats {w : World} (ordered : SamplesInOrder w blk start tdo)
    (within : blk.tdoSkipBits + blk.tdoBits ≤ blk.tdiBits) (fits : blk.tdiBits ≤ 2048) :
    blk.seq.StoresFit start ∧ LastDwordRepeats blk tdo := by
  obtain ⟨w', ran, ordered⟩ := ordered
  by_cases room : blk.seq.StoresFit start
  · refine ⟨room, ?_⟩
    intro k behind below
    obtain ⟨r, w'', ran', buf, -, -, captured⟩ := (blockRun_decided w tdo fits start).1 room
    cases ran.symm.trans ran'
    rw [← ordered k below, buf, captured.bitAt_eq within below, if_neg (by omega)]
  · cases ran.symm.trans ((blockRun_decided w tdo fits start).2 room)

end order

/-- The samples of a run are in order exactly if all its stores are inside the
    TDO buffer and the last, partial dword happens to repeat itself.  A run ends
    with its first store outside the buffer. -/
theorem runJtag_samplesInOrder_iff (w : World) (blk : JtagbufBlk) (start : Nat) (tdo : Nat → Bool)
    (within : blk.tdoSkipBits + blk.tdoBits ≤ blk.tdiBits) (fits : blk.tdiBits ≤ 2048) :
    SamplesInOrder w blk start tdo ↔
      blk.seq.StoresFit start ∧ LastDwordRepeats blk tdo := by
  constructor
  · exact fun ordered => ordered.repeats within fits
  · rintro ⟨room, repeats⟩
    obtain ⟨r, w', ran, buf, -, -, captured⟩ := (blockRun_decided w tdo fits start).1 room
    refine ⟨w', ran, ?_⟩
    intro k below
    rw [buf, captured.bitAt_eq within below]
    by_cases inWhole : k < 32 * (blk.tdoBits / 32)
    · rw [if_pos inWhole]
    · rw [if_neg inWhole, repeats k (by omega) below]

theorem dr_read_back_of_32_bits_ordered : SamplesInOrder World.start drReadBack32 0 fun _ => true :=
  (runJtag_samplesInOrder_iff _ _ _ _ (by decide) (by decide)).mpr
    ⟨by decide, LastDwordRepeats.of_whole rfl⟩

/-- The block of an IR scan of 5 bits that reads back. -/
def irReadBack5 : JtagbufBlk :=
  { JtagbufBlk.zero with tdiBits := 12, tdoBits := 5, tdoSkipBits := 5, prepared := true }

/-- Its first sample ends up in bit 27. -/
theorem ir_read_back_of_5_bits_misplaced :
    irReadBack5.tdoSkipBits + irReadBack5.tdoBits ≤ irReadBack5.tdiBits ∧
      irReadBack5.tdiBits ≤ 2048 ∧
      ¬SamplesInOrder World.start irReadBack5 0 (fun clock => clock == 5) := by
  refine ⟨by decide, by decide, ?_⟩
  intro ordered
  have repeats := (ordered.repeats (by decide) (by decide)).2 0 (by decide) (by decide)
  exact absurd repeats (by decide)

/-- Only a whole number of dwords is in order for whatever the target sends. -/
theorem everySampleOrdered_iff (w : World) (blk : JtagbufBlk)
    (within : blk.tdoSkipBits + blk.tdoBits ≤ blk.tdiBits) (fits : blk.tdiBits ≤ 2048)
    {start : Nat} (room : blk.seq.StoresFit start) :
    (∀ tdo, SamplesInOrder w blk start tdo) ↔ blk.tdoBits % 32 = 0 := by
  constructor
  · intro ordered
    by_contra rest
    -- Only the first sample of the last dword is high
    let first := 32 * (blk.tdoBits / 32)
    have repeats := ((ordered fun clock => clock == blk.tdoSkipBits + first).repeats within
      fits).2 first (Nat.le_refl _) (by omega)
    simp only [beq_self_eq_true] at repeats
    obtain ⟨full, same⟩ := (Bool.and_eq_true _ _).mp repeats.symm
    have full := of_decide_eq_true full
    have same := eq_of_beq same
    omega
  · intro whole tdo
    obtain ⟨r, w', ran, buf, -, -, captured⟩ := (blockRun_decided w tdo fits start).1 room
    refine ⟨w', ran, ?_⟩
    intro k below
    rw [buf, captured.bitAt_eq within below, if_pos (by omega)]

end LoongsonEjtag
