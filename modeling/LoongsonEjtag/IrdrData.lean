import LoongsonEjtag.IrdrTms
import LoongsonEjtag.TdoOrder

/-! # The data path of an IR/DR scan

What `cmdimpl_irdr_write` shifts out and what the engine samples for it.

* `irdrFill_bits` — the loop over the data dwords: the high bits of a dword are
  carried into the next one, which the next round ORs into.
* `TdoCaptured.scan` — the window of the capture is the window of the data.
* `irdr_data_path` — both, for every scan that is accepted.
-/

namespace LoongsonEjtag

open Lib (Byte Dword byteAt le32 u32 u32_eq sub32 bitAt forUpTo forUpTo_invariant bind_eq_ok)
open Wire

/-- Bit `k` of the data of a scan, from the LSB of its first byte on. -/
def irseqBit (cmd : List Byte) (k : Nat) : Bool := (byteAt cmd (4 + k / 8)).getLsbD (k % 8)

/-! ## Shifting out -/

section filling

variable {cmd : List Byte} {off i : Nat} {tdi tdi' : DwordBuf}

theorem irseqDword_bits {data : Dword} (wasRead : irseqDword cmd i = .ok data) {q : Nat}
    (low : q < 32) : data.getLsbD q = irseqBit cmd (32 * i + q) := by
  rw [irseqDword] at wasRead
  split at wasRead
  · cases wasRead
    rw [Lib.getLsbD_le32 _ _ low, irseqBit, show (32 * i + q) / 8 = 4 * i + q / 8 by omega,
      show (32 * i + q) % 8 = q % 8 by omega, Nat.add_assoc]
  · cases wasRead

/-- The first `rounds` dwords of the data are in place, and dword `rounds` holds
    nothing but what the last of them carried into it. -/
def FilledTdi (cmd : List Byte) (off rounds : Nat) (tdi : DwordBuf) : Prop :=
  ∀ p, p / 32 ≤ rounds →
    bitAt tdi p = (decide (off ≤ p ∧ p < off + 32 * rounds) && irseqBit cmd (p - off))

theorem irdrFillDword_bits (few : off < 32) (some : 0 < off) (filled : FilledTdi cmd off i tdi)
    (fill : irdrFillDword cmd off i tdi = .ok tdi') : FilledTdi cmd off (i + 1) tdi' := by
  obtain ⟨data, wasRead, stores⟩ := bind_eq_ok.mp fill
  obtain ⟨low, ored, carried⟩ := bind_eq_ok.mp stores
  intro p inside
  rw [DwordBuf.write_bits carried]
  by_cases next : p / 32 = i + 1
  · -- The dword behind: what did not fit into this one
    rw [if_pos next, BitVec.getLsbD_ushiftRight]
    by_cases spilled : 32 - off + p % 32 < 32
    · rw [irseqDword_bits wasRead spilled, decide_eq_true (by omega), Bool.true_and]
      congr 1
      omega
    · rw [BitVec.getLsbD_of_ge _ _ (by omega), decide_eq_false (by omega), Bool.false_and]
  · rw [if_neg next, DwordBuf.update_or ored, filled p (by omega), BitVec.getLsbD_shiftLeft]
    by_cases here : p / 32 = i
    · rw [decide_eq_true here, decide_eq_true (show p % 32 < 32 by omega)]
      by_cases before : p % 32 < off
      · -- Below the shift the dword keeps what was carried into it
        rw [decide_eq_true before]
        simp only [Bool.true_and, Bool.not_true, Bool.false_and, Bool.or_false]
        congr 1
        exact decide_eq_decide.mpr (by omega)
      · rw [decide_eq_false before, irseqDword_bits wasRead (by omega),
          decide_eq_false (show ¬(off ≤ p ∧ p < off + 32 * i) by omega),
          decide_eq_true (show off ≤ p ∧ p < off + 32 * (i + 1) by omega)]
        simp only [Bool.true_and, Bool.not_false, Bool.false_and, Bool.false_or]
        congr 1
        omega
    · rw [decide_eq_false here]
      simp only [Bool.false_and, Bool.or_false]
      congr 1
      exact decide_eq_decide.mpr (by omega)

theorem irdrFill_bits {count : Nat} (few : off < 32) (some : 0 < off)
    (clear : ∀ p, p / 32 = 0 → bitAt tdi p = false)
    (fill : forUpTo (irdrFillDword cmd off) count tdi = .ok tdi') :
    FilledTdi cmd off count tdi' := by
  refine forUpTo_invariant (fun i tdi => FilledTdi cmd off i tdi) ?_ ?_ fill
  · intro p first
    rw [clear p (by omega), decide_eq_false (by omega), Bool.false_and]
  · intro i x y _ filled round
    exact irdrFillDword_bits few some filled round

end filling

section irdrBlock

variable {blk blk' : JtagbufBlk} {cmd : List Byte} {isir : Bool}

/-- The data of the scan follows zeros for the clocks that lead to the shift
    state. -/
theorem irdrBlock_data (built : irdrBlock blk cmd isir = .ok blk') {p : Nat}
    (below : p < irdrOffset isir + irseqLenBits cmd) :
    bitAt blk'.tdiData p =
      (decide (irdrOffset isir ≤ p) && irseqBit cmd (p - irdrOffset isir)) := by
  have offset := irdrOffset_bounds isir
  obtain ⟨_, cleared, _, filled, _, -, clear, -, fill, -, rfl⟩ := irdrBlock_built built
  have zero : ∀ p, p / 32 = 0 → bitAt cleared p = false := by
    intro p first
    rw [DwordBuf.clear_bits clear, bit2dword, decide_eq_false (by omega), Bool.false_and]
  have bits := irdrFill_bits (by omega) (by omega) zero fill p (by rw [bit2dword]; omega)
  rw [bits, bit2dword]
  congr 1
  exact decide_eq_decide.mpr (by omega)

theorem irdrBlock_window (built : irdrBlock blk cmd isir = .ok blk') (reads : readBack cmd = true) :
    blk'.tdoSkipBits = irdrOffset isir ∧ blk'.tdoBits = irseqLenBits cmd := by
  obtain ⟨_, _, _, _, _, -, -, -, -, -, rfl⟩ := irdrBlock_built built
  simp only [reads, if_true]
  exact ⟨trivial, trivial⟩

end irdrBlock

/-! ## Reading back -/

/-- Where the engine leaves sample `k` of `len`: whole dwords in place, the last
    one with its samples on top. -/
def sampleBit (len k : Nat) : Nat :=
  if k < 32 * (len / 32) then k else k + (32 - len % 32)

/-- The engine took `len` samples, those of the clocks from `off` on, and left
    them from dword `start` of the TDO buffer on. -/
structure ScanCaptured (off len start : Nat) (tdo : Nat → Bool) (r : JtagRegs) : Prop where
  count : r.tdoCounter = len
  dwords : r.dwords = bit2dword len
  samples : ∀ k, k < len → bitAt r.tdoBuf (32 * start + sampleBit len k) = tdo (off + k)

theorem TdoCaptured.scan {seq : JtagSeq} {tdo : Nat → Bool} {buf : Vector Dword 64} {start : Nat}
    {r : JtagRegs} (captured : TdoCaptured seq tdo buf start r)
    (within : seq.tdoSkipBits + seq.tdoBits ≤ seq.tdiBits) :
    ScanCaptured seq.tdoSkipBits seq.tdoBits start tdo r := by
  have sampled : seq.tdoSampled seq.tdiBits = seq.tdoBits := Nat.min_eq_left (by omega)
  have dwords := captured.dwords_eq
  obtain ⟨counter, room, whole, last, -, -⟩ := captured
  rw [JtagSeq.StoresFit, JtagSeq.tdoStores] at room
  rw [sampled] at counter dwords whole last room
  refine ⟨counter, dwords, ?_⟩
  intro k below
  rw [sampleBit]
  by_cases inWhole : k < 32 * (seq.tdoBits / 32)
  · rw [if_pos inWhole, Lib.bitAt_eq (show (32 * start + k) / 32 < 64 by omega)]
    have dword : (32 * start + k) / 32 = start + k / 32 := by omega
    have low : (32 * start + k) % 32 = k % 32 := by omega
    simp only [dword, low]
    rw [whole (k / 32) (by omega) (by omega) (k % 32) (by omega), Nat.div_add_mod]
  · rw [if_neg inWhole]
    -- `rest` samples are in the last dword, from bit `32 - rest` on
    obtain ⟨j, isAt⟩ := Nat.exists_eq_add_of_le (Nat.le_of_not_lt inWhole)
    have dword : (32 * start + (k + (32 - seq.tdoBits % 32))) / 32 =
        start + seq.tdoBits / 32 := by omega
    have low : (32 * start + (k + (32 - seq.tdoBits % 32))) % 32 =
        j + (32 - seq.tdoBits % 32) := by omega
    rw [Lib.bitAt_eq (show (32 * start + (k + (32 - seq.tdoBits % 32))) / 32 < 64 by omega)]
    simp only [dword, low]
    rw [last (by omega) (by omega) _ (by omega), decide_eq_true (by omega), Bool.true_and]
    congr 2
    omega

/-- A block whose capture ends with its last clock or before passes the
    watermark check of `lsejtag_run_jtag`. -/
theorem lsejtagRunJtag_no_panic {v : World} {id : BufId} (tdo : Nat → Bool)
    (picked : v.ctx.preparedBufblk = some id)
    (within : (v.ctx.jtagbuf id).tdoSkipBits + (v.ctx.jtagbuf id).tdoBits ≤
      (v.ctx.jtagbuf id).tdiBits)
    (fits : (v.ctx.jtagbuf id).tdiBits ≤ 2048) :
    lsejtagRunJtag v tdo ≠ .error .watermarkPanic := by
  rw [lsejtagRunJtag]
  by_cases working : v.ctx.periphWorking = true
  · rw [if_pos working]
    intro wrong
    cases wrong
  · rw [if_neg working]
    simp only [picked]
    obtain ⟨goes, stops⟩ := blockRun_decided
      ({ v with ctx := v.ctx.startBufblk id }.log (.runBlock (v.ctx.jtagbuf id).seq)) tdo fits
      v.ctx.tdoDmaPtr
    by_cases room : (v.ctx.jtagbuf id).seq.StoresFit v.ctx.tdoDmaPtr
    · obtain ⟨r, w', ran, -, dwords, -, captured⟩ := goes room
      have mark : (v.ctx.startBufblk id).tdoInDwords = v.ctx.tdoInDwords := by
        cases id <;> rfl
      have reported := (captured.scan within).dwords
      have bits : (v.ctx.jtagbuf id).seq.tdoBits = (v.ctx.jtagbuf id).tdoBits := rfl
      rw [World.ctx_log, mark, reported, bit2dword] at dwords
      rw [ran, Lib.ok_bind, if_neg]
      · intro wrong
        cases wrong
      · rw [dwords, bits, u32_eq (show (v.ctx.jtagbuf id).tdoBits + 31 < 2 ^ 32 by omega)]
        exact fun different => different rfl
    · rw [stops room, Lib.error_bind]
      intro wrong
      cases wrong

/-- What running the block of a scan of `len` bits with data from clock `off` on
    captures: the first `off + len` clocks take the samples, and the two clocks
    that close the scan take none. -/
structure ReadsBack (seq : JtagSeq) (off len : Nat) : Prop where
  captures : ∀ buf start tdo, start + bit2dword len ≤ 64 →
    ∃ r, jtagShift { seq with tdiBits := off + len } buf (some start) tdo = .ok r ∧
      ScanCaptured off len start tdo r
  finishes : ∀ buf start tdo, seq.StoresFit start →
    ∃ r, jtagShift seq buf (some start) tdo = .ok r ∧ ScanCaptured off len start tdo r
  stops : ∀ (buf : Vector Dword 64) start tdo, ¬seq.StoresFit start →
    jtagShift seq buf (some start) tdo = .error .outOfBounds

theorem JtagbufBlk.readsBack {blk : JtagbufBlk}
    (within : blk.tdoSkipBits + blk.tdoBits ≤ blk.tdiBits) (fits : blk.tdiBits ≤ 2048) :
    ReadsBack blk.seq blk.tdoSkipBits blk.tdoBits := by
  have total : blk.seq.tdiBits = blk.tdiBits := rfl
  have tdi : blk.seq.tdi.length = 64 := Vector.length_toList
  have tms : blk.seq.tms.length = 64 := Vector.length_toList
  constructor
  · intro buf start tdo room
    have cut := jtagShift_decided { blk.seq with tdiBits := blk.tdoSkipBits + blk.tdoBits } tdo buf
      (by simp only; omega) (by simp only; omega) (by simp only; omega) start
    have stores : JtagSeq.tdoStores { blk.seq with tdiBits := blk.tdoSkipBits + blk.tdoBits } =
        bit2dword blk.tdoBits := by
      have few : blk.tdoBits ≤ blk.tdoSkipBits + blk.tdoBits - blk.tdoSkipBits := by omega
      simp only [JtagSeq.tdoStores, JtagSeq.tdoSampled, JtagSeq.strayStores, JtagbufBlk.seq,
        Nat.min_eq_left few, Nat.sub_self, ite_self, bit2dword, Nat.add_zero]
    obtain ⟨r, ran, captured⟩ := cut.1 (.inr (by rw [stores]; exact room))
    exact ⟨r, ran, captured.scan (Nat.le_refl _)⟩
  · intro buf start tdo room
    obtain ⟨r, ran, captured⟩ :=
      (jtagShift_decided blk.seq tdo buf (by omega) (by omega) (by omega) start).1 room
    exact ⟨r, ran, captured.scan within⟩
  · intro buf start tdo noRoom
    exact (jtagShift_decided blk.seq tdo buf (by omega) (by omega) (by omega) start).2 noRoom

/-! ## The whole path -/

/-- The block `cmdimpl_irdr_write` prepares shifts out the data behind `off`
    zeros, and with `read_back` samples TDO exactly while it does, so that the
    watermark check accepts its run. -/
theorem irdr_data_path {w : World} {id : BufId} (isir : Bool)
    (some : 1 ≤ irseqLenBits w.ctx.cmd) (few : irseqLenBits w.ctx.cmd ≤ 2016)
    (free : w.ctx.freeJtagbuf = .some id)
    (room : returnDataLenRequired w.ctx ≤ sub32 256 (u32 (4 * w.ctx.tdoInDwords))) :
    ∃ w', cmdimplIrdrWrite w isir = .ok (.cerSuccess, w') ∧
      (w'.ctx.jtagbuf id).prepared = true ∧
      (∀ j, j < irdrOffset isir → bitAt (w'.ctx.jtagbuf id).tdiData j = false) ∧
      (∀ k, k < irseqLenBits w.ctx.cmd →
        bitAt (w'.ctx.jtagbuf id).tdiData (irdrOffset isir + k) = irseqBit w.ctx.cmd k) ∧
      (readBack w.ctx.cmd = true →
        ReadsBack (w'.ctx.jtagbuf id).seq (irdrOffset isir) (irseqLenBits w.ctx.cmd) ∧
        ∀ v tdo, v.ctx.preparedBufblk = .some id → v.ctx.jtagbuf id = w'.ctx.jtagbuf id →
          lsejtagRunJtag v tdo ≠ .error .watermarkPanic) := by
  have offset := irdrOffset_bounds isir
  obtain ⟨w', blk, executed, block, built⟩ := cmdimplIrdrWrite_builds isir few free room
  have bits := irdrBlock_tdiBits built
  obtain ⟨-, -, prepared, -, -⟩ := irdrBlock_ok built
  refine ⟨w', executed, ?_⟩
  rw [block]
  refine ⟨prepared, ?_, ?_, ?_⟩
  · intro j before
    rw [irdrBlock_data built (by omega), decide_eq_false (by omega), Bool.false_and]
  · intro k inside
    rw [irdrBlock_data built (by omega), decide_eq_true (by omega), Bool.true_and,
      Nat.add_sub_cancel_left]
  · intro reads
    obtain ⟨skip, window⟩ := irdrBlock_window built reads
    have within : blk.tdoSkipBits + blk.tdoBits ≤ blk.tdiBits := by omega
    have fits : blk.tdiBits ≤ 2048 := by omega
    have readsBack := JtagbufBlk.readsBack within fits
    rw [skip, window] at readsBack
    refine ⟨readsBack, ?_⟩
    intro v tdo picked same
    rw [← same] at within fits
    exact lsejtagRunJtag_no_panic tdo picked within fits

/-- A DR scan of 32 bits with `read_back`, buffered and ready to be executed. -/
def drReadScan32 : World :=
  { World.start with ctx := { lsejtagInitCtx with
      bufferedCmd := Lib.overlay (Vector.replicate 256 0) 0 [0x00, 0x16, 32, 0x00, 0xA5]
        (by decide) } }

theorem irdr_data_path_dr32 : ∃ w', cmdimplIrdrWrite drReadScan32 false = .ok (.cerSuccess, w') ∧
    (∀ k, k < 32 → bitAt w'.ctx.jtagbufA.tdiData (4 + k) = irseqBit drReadScan32.ctx.cmd k) ∧
    ReadsBack w'.ctx.jtagbufA.seq 4 32 := by
  have len : irseqLenBits drReadScan32.ctx.cmd = 32 := by decide
  have free : drReadScan32.ctx.freeJtagbuf = some .a := rfl
  obtain ⟨w', executed, -, -, data, reads⟩ :=
    irdr_data_path (w := drReadScan32) false (by decide) (by decide) free (by decide +kernel)
  rw [len] at data reads
  exact ⟨w', executed, data, (reads (by decide)).1⟩

end LoongsonEjtag
