import LoongsonEjtag.BitWriters
import LoongsonEjtag.Executed

/-! # Placing DR sequences

`cmdimpl_continue_fast_mem_write` walks through the buffered command with
`databuf` and writes the DR sequence of each transfer into the premade TDI data.

* `drSequence` — the dwords it reads for a transfer.
* `placeSequence` — the writes that put them in place.
* `XferFits` — the data bits lie inside the bits of a transfer, so every write
  stays inside the TDI buffer.
-/

namespace LoongsonEjtag

open Lib (Dword u32 sub32 dwordAt dwordsBytes forUpTo forUpTo_congr forUpTo_total)
open Wire

/-! ## DR sequences -/

/-- The dwords `databuf` walks over for transfer `i`. -/
def drSequence (ctx : LsejtagCtx) (i : Nat) : List Dword :=
  (List.range (bit2dword ctx.drseqBitlen)).map fun j =>
    dwordAt ctx.cmd (4 * (i * bit2dword ctx.drseqBitlen + j))

@[simp] theorem length_drSequence (ctx : LsejtagCtx) (i : Nat) :
    (drSequence ctx i).length = bit2dword ctx.drseqBitlen := by
  simp [drSequence]

/-- The DR sequences of the first transfers are the first bytes of the buffer. -/
theorem dwordsBytes_drSequences (ctx : LsejtagCtx) {n : Nat}
    (inside : n * (bit2dword ctx.drseqBitlen * 4) ≤ 256) :
    ((List.range n).map (drSequence ctx)).flatMap dwordsBytes =
      ctx.cmd.take (n * (bit2dword ctx.drseqBitlen * 4)) := by
  have length : ctx.cmd.length = 256 := by simp [LsejtagCtx.cmd]
  induction n with
  | zero => simp
  | succ n ih =>
    rw [Nat.succ_mul] at inside
    have start : n * (bit2dword ctx.drseqBitlen * 4) = 4 * (n * bit2dword ctx.drseqBitlen) := by
      rw [← Nat.mul_assoc, Nat.mul_comm 4]
    rw [List.range_succ, List.map_append, List.flatMap_append, ih (by omega), List.map_singleton,
      List.flatMap_singleton, drSequence, Lib.dwordsBytes_dwordsAt _ (by omega), ← start,
      Nat.mul_comm 4, Nat.add_mul n 1, Nat.one_mul, List.take_add]

/-- Write the DR sequence of transfer `i`. -/
def placeSequence (ctx : LsejtagCtx) (i : Nat) (seq : List Dword) (tdi : DwordBuf) :
    Except Halt DwordBuf := do
  let bitshift := i * ctx.bitsPerXfer + dataBitoffset ctx
  let tdi ← forUpTo (fun j tdi => replaceDword tdi (bitshift + 32 * j) (seq.getD j 0))
    (ctx.drseqBitlen / 32) tdi
  if ctx.drseqBitlen % 32 ≠ 0 then
    let last := ctx.drseqBitlen / 32
    replaceBits tdi (bitshift + 32 * last) (seq.getD last 0) (ctx.drseqBitlen % 32)
  else .ok tdi

theorem databufDword_drSequence {ctx : LsejtagCtx} {i j : Nat}
    (below : j < bit2dword ctx.drseqBitlen)
    (inside : (i + 1) * (bit2dword ctx.drseqBitlen * 4) ≤ 256) :
    databufDword ctx.cmd (i * bit2dword ctx.drseqBitlen + j) =
      .ok ((drSequence ctx i).getD j 0) := by
  have fits : 4 * (i * bit2dword ctx.drseqBitlen + j) + 4 ≤ 256 := by
    have start : i * (bit2dword ctx.drseqBitlen * 4) = 4 * (i * bit2dword ctx.drseqBitlen) := by
      rw [← Nat.mul_assoc, Nat.mul_comm 4]
    rw [Nat.succ_mul] at inside
    omega
  rw [databufDword, if_pos fits, drSequence]
  simp [List.getD_eq_getElem?_getD, below, dwordAt]

/-- As long as `databuf` stays in the buffer, its dwords are all that a transfer
    takes from there. -/
theorem placeXfer_eq {ctx : LsejtagCtx} {i : Nat}
    (inside : (i + 1) * (bit2dword ctx.drseqBitlen * 4) ≤ 256) (tdi : DwordBuf) :
    placeXfer ctx i tdi = placeSequence ctx i (drSequence ctx i) tdi := by
  have whole : ∀ j (tdi : DwordBuf), j < ctx.drseqBitlen / 32 →
      (databufDword ctx.cmd (i * bit2dword ctx.drseqBitlen + j) >>= fun d =>
        replaceDword tdi (i * ctx.bitsPerXfer + dataBitoffset ctx + 32 * j) d) =
      replaceDword tdi (i * ctx.bitsPerXfer + dataBitoffset ctx + 32 * j)
        ((drSequence ctx i).getD j 0) := by
    intro j tdi below
    rw [databufDword_drSequence (by rw [bit2dword]; omega) inside, Lib.ok_bind]
  simp only [placeXfer, placeSequence]
  rw [forUpTo_congr whole]
  congr 1
  funext tdi
  split
  · rw [databufDword_drSequence (by rw [bit2dword]; omega) inside, Lib.ok_bind]
  · rfl

/-! ## Room for the data -/

/-- The data bits lie inside the bits of a transfer. -/
def XferFits (ctx : LsejtagCtx) : Prop :=
  dataBitoffset ctx + ctx.drseqBitlen < ctx.bitsPerXfer

theorem placeSequence_total {ctx : LsejtagCtx} (fits : XferFits ctx) {i : Nat}
    (inside : (i + 1) * ctx.bitsPerXfer ≤ 2048) (seq : List Dword) (tdi : DwordBuf) :
    ∃ tdi', placeSequence ctx i seq tdi = .ok tdi' := by
  rw [XferFits] at fits
  rw [Nat.succ_mul] at inside
  have round : ∀ j (tdi : DwordBuf), j < ctx.drseqBitlen / 32 → True → ∃ tdi', replaceDword tdi
      (i * ctx.bitsPerXfer + dataBitoffset ctx + 32 * j) (seq.getD j 0) = .ok tdi' ∧ True := by
    intro j tdi below _
    obtain ⟨tdi', wrote⟩ : ∃ tdi', replaceDword tdi
        (i * ctx.bitsPerXfer + dataBitoffset ctx + 32 * j) (seq.getD j 0) = .ok tdi' :=
      replaceDword_total tdi _ (by omega)
    exact ⟨tdi', wrote, trivial⟩
  obtain ⟨middle, placed, -⟩ := forUpTo_total (a := tdi) (fun _ _ => True) trivial round
  simp only [placeSequence, placed, Lib.ok_bind]
  split
  · exact replaceBits_total _ _ (by omega) (by omega) (by omega)
  · exact ⟨middle, rfl⟩

/-- A block of `n` transfers is filled with their DR sequences, one after the
    other. -/
theorem placeXfers_total {ctx : LsejtagCtx} (fits : XferFits ctx) {n : Nat}
    (bits : n * ctx.bitsPerXfer ≤ 2048)
    (bytes : n * (bit2dword ctx.drseqBitlen * 4) ≤ 256) (tdi : DwordBuf) :
    ∃ tdi', forUpTo (placeXfer ctx) n tdi = .ok tdi' ∧
      forUpTo (fun i => placeSequence ctx i (drSequence ctx i)) n tdi = .ok tdi' := by
  have round : ∀ i tdi, i < n → True →
      ∃ tdi', placeSequence ctx i (drSequence ctx i) tdi = .ok tdi' ∧ True := by
    intro i tdi below _
    have within := (Nat.mul_le_mul_right ctx.bitsPerXfer (show i + 1 ≤ n from below)).trans bits
    obtain ⟨tdi', placed⟩ := placeSequence_total fits within (drSequence ctx i) tdi
    exact ⟨tdi', placed, trivial⟩
  obtain ⟨tdi', placed, -⟩ := forUpTo_total (a := tdi) (fun _ _ => True) trivial round
  refine ⟨tdi', ?_, placed⟩
  rw [← placed]
  refine forUpTo_congr (fun i tdi below => placeXfer_eq ?_ tdi) tdi
  exact (Nat.mul_le_mul_right _ (show i + 1 ≤ n from below)).trans bytes

/-! ## The setup of a fast write -/

section setup

variable (ctx : LsejtagCtx) (fastdata : Bool)

/-- A transfer that selects DATA and CONTROL is longer than its first half, also
    where the IR bits wrap below zero. -/
theorem irBits_room {cores irBits data : Nat} (few : cores < 128) (short : irBits ≤ 127 * 255)
    (width : data ≤ 64) :
    u32 (irBits + 9) + (cores - 1 + data) <
      u32 (54 + data + 2 * u32 (sub32 irBits 1 + (cores - 1))) := by
  simp only [u32, sub32]
  omega

/-- The setup always leaves room: behind the data bits of a transfer there are at
    least the two that lead back to Run-Test/Idle. -/
theorem xferFits_fastMemWriteSetup : XferFits (fastMemWriteSetup ctx fastdata) := by
  have few : chainedCoreCount ctx.cmd < 128 := Nat.mod_lt _ (by decide)
  have short : chainedCoreCount ctx.cmd * ctx.paramIrLenBits.toNat ≤ 127 * 255 :=
    Nat.mul_le_mul (by omega) (Nat.le_of_lt_succ ctx.paramIrLenBits.isLt)
  simp only [XferFits, dataBitoffset, fastMemWriteSetup, fastMemRwGetBitsPerXfer]
  by_cases single : chainedCoreCount ctx.cmd = 0
  · cases fastdata <;> cases cpuIs64bit ctx.cmd <;> simp [single]
  · cases fastdata with
    | true => cases cpuIs64bit ctx.cmd <;> simp [single] <;> omega
    | false =>
      cases cpuIs64bit ctx.cmd with
      | true => simpa [single] using irBits_room few short (show 64 ≤ 64 by decide)
      | false => simpa [single] using irBits_room few short (show 32 ≤ 64 by decide)

theorem drseqDwordlen_setup_eq : (fastMemWriteSetup ctx fastdata).drseqDwordlen =
    bit2dword (fastMemWriteSetup ctx fastdata).drseqBitlen := rfl

theorem drseqDwordlen_setup_le : 0 < (fastMemWriteSetup ctx fastdata).drseqDwordlen ∧
    (fastMemWriteSetup ctx fastdata).drseqDwordlen ≤ 6 := by
  have few : chainedCoreCount ctx.cmd < 128 := Nat.mod_lt _ (by decide)
  rw [drseqDwordlen_setup_eq]
  simp only [bit2dword, fastMemWriteSetup]
  grind

/-- A block of the premade transfers fills at most one buffer. -/
theorem xfersPerBufblk_setup_bits :
    (fastMemWriteSetup ctx fastdata).xfersPerBufblk *
      (fastMemWriteSetup ctx fastdata).bitsPerXfer ≤ 2048 :=
  (Nat.mul_le_mul_right _ ((Nat.min_le_right _ _).trans (Nat.min_le_right _ _))).trans
    (Nat.div_mul_le_self 2048 _)

/-- If one transfer fits, every block has one. -/
theorem xfersPerBufblk_setup_pos (some : 0 < dataLenXferCount ctx.cmd)
    (fits : (fastMemWriteSetup ctx fastdata).bitsPerXfer ≤ 2048) :
    0 < (fastMemWriteSetup ctx fastdata).xfersPerBufblk := by
  have room := xferFits_fastMemWriteSetup ctx fastdata
  obtain ⟨dwords, few⟩ := drseqDwordlen_setup_le ctx fastdata
  have bits : 0 < (fastMemWriteSetup ctx fastdata).bitsPerXfer := by
    rw [XferFits] at room
    omega
  have isMin : (fastMemWriteSetup ctx fastdata).xfersPerBufblk = min (dataLenXferCount ctx.cmd)
      (min (256 / ((fastMemWriteSetup ctx fastdata).drseqDwordlen * 4))
        (2048 / (fastMemWriteSetup ctx fastdata).bitsPerXfer)) := rfl
  rw [isMin, Nat.lt_min, Nat.lt_min]
  exact ⟨some, Nat.div_pos (by omega) (by omega), Nat.div_pos fits bits⟩

end setup

end LoongsonEjtag
