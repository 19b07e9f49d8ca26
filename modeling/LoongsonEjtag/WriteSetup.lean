import LoongsonEjtag.TargetCore
import LoongsonEjtag.XferBuild

/-! # What becomes of the setup of a fast write

Whether `cmdimpl_fast_mem_write` returns is a matter of the command and the IR
length alone.

* `writeXferBits`, `writeBlockXfers` — the length of a transfer and the transfers
  of a block, as formulas over these.
* `fastMemWrite_decided` — the memory that is cleared may reach past the buffer,
  and the transfer that is built may not have the computed length.
-/

namespace LoongsonEjtag

open Lib (Machine u32 sub32 forUpTo bind_eq_ok bind_eq_error)
open Wire

/-! ## Formulas -/

/-- Data bits of a transfer. -/
def dataWidth (cmd : List Lib.Byte) : Nat := if cpuIs64bit cmd then 64 else 32

/-- Data bits for the CPU a context is set up for. -/
def LsejtagCtx.cpuWidth (ctx : LsejtagCtx) : Nat := if ctx.is64bitCpu then 64 else 32

/-- Bits of a transfer to `cores` chained cores, 0 in the GS232 mode. -/
def writeXferBits (cores irLen width : Nat) (fastdata : Bool) : Nat :=
  if fastdata = true ∨ cores = 0 then cores - 1 + width + 7
  else 2 * (cores * irLen) + 2 * (cores - 1) + width + 52

/-- Transfers of a block, of `count` that are asked for. -/
def writeBlockXfers (count cores irLen width : Nat) (fastdata : Bool) : Nat :=
  min count
    (min (256 / (4 * bit2dword (cores - 1 + width + if fastdata then 1 else 0)))
      (2048 / writeXferBits cores irLen width fastdata))

/-- The length of a transfer of the buffered command. -/
def LsejtagCtx.cmdXferBits (ctx : LsejtagCtx) (fastdata : Bool) : Nat :=
  writeXferBits (chainedCoreCount ctx.cmd) ctx.paramIrLenBits.toNat (dataWidth ctx.cmd) fastdata

/-- The transfers of a block of the buffered command. -/
def LsejtagCtx.cmdBlockXfers (ctx : LsejtagCtx) (fastdata : Bool) : Nat :=
  writeBlockXfers (dataLenXferCount ctx.cmd) (chainedCoreCount ctx.cmd) ctx.paramIrLenBits.toNat
    (dataWidth ctx.cmd) fastdata

section formulas

variable {ctx : LsejtagCtx} {fastdata : Bool}

theorem dataWidth_bounds (cmd : List Lib.Byte) : 32 ≤ dataWidth cmd ∧ dataWidth cmd ≤ 64 := by
  rw [dataWidth]
  split <;> decide

theorem drseqBitlen_setup_eq (ctx : LsejtagCtx) (fastdata : Bool) :
    (fastMemWriteSetup ctx fastdata).drseqBitlen =
      chainedCoreCount ctx.cmd - 1 + dataWidth ctx.cmd + if fastdata then 1 else 0 := by
  simp only [fastMemWriteSetup, dataWidth]
  by_cases single : chainedCoreCount ctx.cmd = 0
  · rw [if_neg (not_not.mpr single), single]
  · rw [if_pos single]

/-- The closed formula for a context that is set up.  Where an IR length of 0 makes
    it wrap, the wraps cancel. -/
theorem fastMemRwGetBitsPerXfer_eq {ctx : LsejtagCtx} (cores : ctx.coreCount < 128)
    (layout : ctx.useFastdata = true ∨ ctx.coreCount ≠ 0) :
    fastMemRwGetBitsPerXfer ctx =
      writeXferBits ctx.coreCount ctx.paramIrLenBits.toNat ctx.cpuWidth ctx.useFastdata := by
  have upTo : ctx.coreCount * ctx.paramIrLenBits.toNat ≤ 127 * 255 :=
    Nat.mul_le_mul (by omega) (Nat.le_of_lt_succ ctx.paramIrLenBits.isLt)
  have skips : (if ctx.coreCount ≠ 0 then ctx.coreCount - 1 else 0) = ctx.coreCount - 1 := by
    split <;> omega
  simp only [fastMemRwGetBitsPerXfer, skips, writeXferBits, LsejtagCtx.cpuWidth]
  by_cases uses : ctx.useFastdata = true
  · rw [if_pos uses, if_pos (Or.inl uses)]
    cases ctx.is64bitCpu <;> simp only [if_true, Bool.false_eq_true, if_false] <;> omega
  · have chained : ctx.coreCount ≠ 0 := layout.resolve_left uses
    rw [if_neg uses, if_neg (not_or.mpr ⟨uses, chained⟩), if_pos chained]
    generalize ctx.coreCount * ctx.paramIrLenBits.toNat = L at upTo
    simp only [sub32, u32]
    cases ctx.is64bitCpu <;> simp only [if_true, Bool.false_eq_true, if_false] <;> omega

theorem bitsPerXfer_setup_eq (ctx : LsejtagCtx) (fastdata : Bool) :
    (fastMemWriteSetup ctx fastdata).bitsPerXfer = ctx.cmdXferBits fastdata := by
  have few : chainedCoreCount ctx.cmd < 128 := Nat.mod_lt _ (by decide)
  have isGet : (fastMemWriteSetup ctx fastdata).bitsPerXfer =
      fastMemRwGetBitsPerXfer (fastMemWriteSetup ctx fastdata) := rfl
  have uses : (fastMemWriteSetup ctx fastdata).useFastdata =
      if chainedCoreCount ctx.cmd ≠ 0 then fastdata else true := rfl
  have cores : (fastMemWriteSetup ctx fastdata).coreCount = chainedCoreCount ctx.cmd := rfl
  have irLen : (fastMemWriteSetup ctx fastdata).paramIrLenBits = ctx.paramIrLenBits := rfl
  have width : (fastMemWriteSetup ctx fastdata).cpuWidth = dataWidth ctx.cmd := rfl
  by_cases chained : chainedCoreCount ctx.cmd ≠ 0
  · rw [if_pos chained] at uses
    rw [isGet, fastMemRwGetBitsPerXfer_eq few (.inr chained), cores, irLen, width, uses,
      LsejtagCtx.cmdXferBits]
  · -- Without a chain the formula is the one for FASTDATA in any case
    rw [if_neg chained] at uses
    rw [isGet, fastMemRwGetBitsPerXfer_eq few (.inl uses), cores, irLen, width, uses,
      LsejtagCtx.cmdXferBits, writeXferBits, writeXferBits, if_pos (.inl rfl),
      if_pos (.inr (not_not.mp chained))]

theorem xfersPerBufblk_setup_eq (ctx : LsejtagCtx) (fastdata : Bool) :
    (fastMemWriteSetup ctx fastdata).xfersPerBufblk = ctx.cmdBlockXfers fastdata := by
  have isMin : (fastMemWriteSetup ctx fastdata).xfersPerBufblk = min (dataLenXferCount ctx.cmd)
      (min (256 / (bit2dword (fastMemWriteSetup ctx fastdata).drseqBitlen * 4))
        (2048 / (fastMemWriteSetup ctx fastdata).bitsPerXfer)) := rfl
  rw [isMin, bitsPerXfer_setup_eq, drseqBitlen_setup_eq, Nat.mul_comm _ 4]
  rfl

/-- What is built for a command is what is computed for it, unless it is to be
    built without FASTDATA and computed with it. -/
theorem builtBits_setup_iff (ctx : LsejtagCtx) (fastdata : Bool) :
    builtBits (fastMemWriteSetup ctx fastdata) fastdata (chainedCoreCount ctx.cmd - 1) =
        ctx.cmdXferBits fastdata ↔
      fastdata = true ∨ chainedCoreCount ctx.cmd ≠ 0 := by
  have cores : (fastMemWriteSetup ctx fastdata).coreCount = chainedCoreCount ctx.cmd := rfl
  have irLen : (fastMemWriteSetup ctx fastdata).paramIrLenBits = ctx.paramIrLenBits := rfl
  rw [builtBits, LsejtagCtx.cmdXferBits, writeXferBits, drseqBitlen_setup_eq, irFields, cores,
    irLen]
  cases fastdata with
  | true =>
    simp only [if_true, true_or]
  | false =>
    by_cases single : chainedCoreCount ctx.cmd = 0
    · simp only [single, ne_eq, not_true_eq_false, Bool.false_eq_true, or_true, or_false, if_true,
        if_false, iff_false]
      omega
    · simp only [single, ne_eq, not_false_eq_true, Bool.false_eq_true, or_true, or_false, if_true,
        if_false, iff_true]
      omega

/-- No transfer fills a buffer to its last bit: without FASTDATA that would make
    the number of cores times one more than the IR length 983 or 967. -/
theorem cmdXferBits_ne_full (ctx : LsejtagCtx) (fastdata : Bool)
    (ir : 1 ≤ ctx.paramIrLenBits.toNat) (short : ctx.paramIrLenBits.toNat ≤ 8) :
    ctx.cmdXferBits fastdata ≠ 2048 := by
  have few : chainedCoreCount ctx.cmd < 128 := Nat.mod_lt _ (by decide)
  have width : dataWidth ctx.cmd = 64 ∨ dataWidth ctx.cmd = 32 := by
    rw [dataWidth]
    cases cpuIs64bit ctx.cmd
    · exact .inr rfl
    · exact .inl rfl
  rw [LsejtagCtx.cmdXferBits, writeXferBits]
  generalize ctx.paramIrLenBits.toNat = irLen at ir short
  split
  · omega
  · have lengths : irLen = 1 ∨ irLen = 2 ∨ irLen = 3 ∨ irLen = 4 ∨ irLen = 5 ∨ irLen = 6 ∨
        irLen = 7 ∨ irLen = 8 := by omega
    obtain rfl | rfl | rfl | rfl | rfl | rfl | rfl | rfl := lengths <;> omega

/-- A transfer of a length that fits is built inside the buffer. -/
theorem builtBits_setup_lt (fastdata : Bool) (ir : 1 ≤ ctx.paramIrLenBits.toNat)
    (short : ctx.paramIrLenBits.toNat ≤ 8) (fits : ctx.cmdXferBits fastdata ≤ 2048) :
    builtBits (fastMemWriteSetup ctx fastdata) fastdata (chainedCoreCount ctx.cmd - 1) < 2048 := by
  have notFull := cmdXferBits_ne_full ctx fastdata ir short
  by_cases layout : fastdata = true ∨ chainedCoreCount ctx.cmd ≠ 0
  · rw [(builtBits_setup_iff ctx fastdata).mpr layout]
    omega
  · -- Without a chain there is one IR field
    rw [not_or, not_not, Bool.not_eq_true] at layout
    obtain ⟨rfl, single⟩ := layout
    have width := dataWidth_bounds ctx.cmd
    have cores : (fastMemWriteSetup ctx false).coreCount = 0 := single
    have irLen : (fastMemWriteSetup ctx false).paramIrLenBits = ctx.paramIrLenBits := rfl
    rw [builtBits, irFields, drseqBitlen_setup_eq, single, cores, irLen]
    simp only [Bool.false_eq_true, if_false, ne_eq, not_true_eq_false]
    omega

theorem cmdXferBits_pos (ctx : LsejtagCtx) (fastdata : Bool) : 32 ≤ ctx.cmdXferBits fastdata := by
  have width := dataWidth_bounds ctx.cmd
  rw [LsejtagCtx.cmdXferBits, writeXferBits]
  split <;> omega

end formulas

/-! ## The call -/

/-- `select_fastdata` is carried out if its scan ends inside the buffer. -/
theorem selectFastdata_total {w : World} (tdo : Nat → Bool) (free : w.ctx.periphFree = true)
    (few : w.ctx.paramIrLenBits.toNat < 32)
    (inside : 7 + irFields w.ctx * w.ctx.paramIrLenBits.toNat < 2048) :
    ∃ w', selectFastdata w tdo = .ok w' := by
  have dwords : bit2dword (7 + irFields w.ctx * w.ctx.paramIrLenBits.toNat) ≤ 64 := by
    rw [bit2dword]
    omega
  obtain ⟨tms, clearTms⟩ := DwordBuf.clear_total w.ctx.jtagbufA.tmsData dwords
  obtain ⟨tdi, clearTdi⟩ := DwordBuf.clear_total w.ctx.jtagbufA.tdiData dwords
  obtain ⟨s₁, shiftIr, at₁⟩ := appendTms_builds ⟨tms, tdi, 0⟩ 0x6 5 (by decide) (by simp)
  simp only [Nat.zero_add] at at₁
  obtain ⟨s₂, fields, at₂⟩ := appendIr_builds w.ctx w.ctx.paramIrFastdata (lastCoreFirst w.ctx) s₁
    few (by omega)
  obtain ⟨s₃, idle, at₃⟩ := backTms_builds s₂ 0x3 3 (by decide) (by omega) (by omega)
  have stillFree : (w.ctx.putSeq .a s₃.tms s₃.tdi).periphFree = true := by simpa using free
  have skipped := lsejtagRunJtag_unprepared
    (w := { w with ctx := w.ctx.putSeq .a s₃.tms s₃.tdi })
    (LsejtagCtx.preparedBufblk_of_periphFree stillFree) tdo
  rw [irFields] at clearTms clearTdi
  refine ⟨{ w with ctx := w.ctx.putSeq .a s₃.tms s₃.tdi }, ?_⟩
  exact bind_eq_ok.mpr ⟨tms, clearTms, bind_eq_ok.mpr ⟨tdi, clearTdi,
    bind_eq_ok.mpr ⟨s₁, shiftIr, bind_eq_ok.mpr ⟨s₂, fields, bind_eq_ok.mpr ⟨s₃, idle,
      bind_eq_ok.mpr ⟨_, skipped, waitUntilJtagPeriphFree_ok stillFree⟩⟩⟩⟩⟩⟩

/-- The scans to all chains end inside it. -/
theorem selectFastdata_short {ctx : LsejtagCtx} (short : ctx.paramIrLenBits.toNat ≤ 8)
    (cores : ctx.coreCount < 128) : 7 + irFields ctx * ctx.paramIrLenBits.toNat < 2048 := by
  have fields : irFields ctx ≤ 127 := by
    rw [irFields]
    split <;> omega
  have few : irFields ctx * ctx.paramIrLenBits.toNat ≤ 127 * 8 := Nat.mul_le_mul fields short
  omega

/-- The cleared area of a block: every transfer is rounded up to dwords. -/
def LsejtagCtx.clearedDwords (ctx : LsejtagCtx) (fastdata : Bool) : Nat :=
  bit2dword (ctx.cmdXferBits fastdata) * ctx.cmdBlockXfers fastdata

/-- How the sequences came about that a setup leaves in the two buffers: cleared,
    filled with one transfer, which is copied behind itself, and copied from
    buffer to buffer. -/
structure PremadeWrite (w : World) (fastdata : Bool) (start : World) : Prop where
  built : ∃ (tmsData tdiData tms tdi : DwordBuf) (s s' : SeqBuf),
    tmsData.clear (w.ctx.clearedDwords fastdata) = .ok tms ∧
    tdiData.clear (w.ctx.clearedDwords fastdata) = .ok tdi ∧
    fastMemXfer (fastMemWriteSetup w.ctx fastdata) fastdata (chainedCoreCount w.ctx.cmd - 1)
      { tms, tdi, bitshift := 0 } = .ok s ∧
    s.bitshift = w.ctx.cmdXferBits fastdata ∧
    forUpTo (fun _ => copyXfer (w.ctx.cmdXferBits fastdata)) (w.ctx.cmdBlockXfers fastdata - 1) s =
      .ok s' ∧
    start.ctx.jtagbufA.tmsData = s'.tms ∧ start.ctx.jtagbufA.tdiData = s'.tdi
  copiedTms : ∃ old : DwordBuf, old.copyFrom start.ctx.jtagbufA.tmsData
    (bit2dword start.ctx.tdiBitlen) = .ok start.ctx.jtagbufB.tmsData
  copiedTdi : ∃ old : DwordBuf, old.copyFrom start.ctx.jtagbufA.tdiData
    (bit2dword start.ctx.tdiBitlen) = .ok start.ctx.jtagbufB.tdiData
  bits : start.ctx.bitsPerXfer = w.ctx.cmdXferBits fastdata
  xfers : start.ctx.xfersPerBufblk = w.ctx.cmdBlockXfers fastdata
  bitlen : start.ctx.tdiBitlen = w.ctx.cmdBlockXfers fastdata * w.ctx.cmdXferBits fastdata

/-- How a setup ends that gets as far as clearing the buffer. -/
structure SetupDecided (w : World) (fastdata : Bool) (tdo : Nat → Bool) : Prop where
  overrun : 64 < w.ctx.clearedDwords fastdata →
    cmdimplFastMemWrite w fastdata tdo = .error .outOfBounds
  mismatch : w.ctx.clearedDwords fastdata ≤ 64 →
    ¬(fastdata = true ∨ chainedCoreCount w.ctx.cmd ≠ 0) →
      cmdimplFastMemWrite w fastdata tdo = .error .assertFailed
  returns : w.ctx.clearedDwords fastdata ≤ 64 →
    fastdata = true ∨ chainedCoreCount w.ctx.cmd ≠ 0 →
      ∃ start, cmdimplFastMemWrite w fastdata tdo = .ok (.cerContinue, start) ∧
        PremadeWrite w fastdata start

/-- What a transfer is built from. -/
structure SameLayout (ctx ctx' : LsejtagCtx) : Prop where
  cores : ctx.coreCount = ctx'.coreCount
  target : ctx.targetCore = ctx'.targetCore
  drseq : ctx.drseqBitlen = ctx'.drseqBitlen
  irLen : ctx.paramIrLenBits = ctx'.paramIrLenBits
  irSkip : ctx.paramIrSkip = ctx'.paramIrSkip
  irData : ctx.paramIrData = ctx'.paramIrData
  irControl : ctx.paramIrControl = ctx'.paramIrControl

theorem SameLayout.of_groups {ctx ctx' : LsejtagCtx} (cont : ctx.toContCtx = ctx'.toContCtx)
    (params : ctx.toJtagParams = ctx'.toJtagParams) : SameLayout ctx ctx' := by
  constructor
  · rw [cont]
  · rw [cont]
  · rw [cont]
  · rw [params]
  · rw [params]
  · rw [params]
  · rw [params]

theorem fastMemXfer_congr {ctx ctx' : LsejtagCtx} (same : SameLayout ctx ctx') :
    fastMemXfer ctx = fastMemXfer ctx' := by
  obtain ⟨cores, target, drseq, irLen, irSkip, irData, irControl⟩ := same
  have order : lastCoreFirst ctx = lastCoreFirst ctx' := by
    funext i
    rw [lastCoreFirst, lastCoreFirst, cores]
  have ir : appendIr ctx = appendIr ctx' := by
    funext active coreAt s
    simp only [appendIr, cores, target, irLen, irSkip]
  funext fastdata skipbits s
  simp only [fastMemXfer, ir, order, drseq, irData, irControl]

/-- Selecting FASTDATA leaves alone what a transfer is built from. -/
theorem selectFastdataIf_sameLayout {select : Bool} {w after : World} {tdo : Nat → Bool}
    (selected : selectFastdataIf select w tdo = .ok after) (free : w.ctx.periphFree = true) :
    SameLayout after.ctx w.ctx := by
  obtain rfl | ⟨_, _, rfl⟩ := selectFastdataIf_ok selected free
  · exact .of_groups rfl rfl
  · exact .of_groups (by simp) (by simp)

theorem premadeWrite {w start : World} {fastdata : Bool} {tdo : Nat → Bool}
    {r : LsejtagCmdExecResult} (setup : cmdimplFastMemWrite w fastdata tdo = .ok (r, start)) :
    PremadeWrite w fastdata start := by
  obtain ⟨free, -, selected, tms, tdi, tmsB, tdiB, s, s', select, clearTms, clearTdi, first, passed,
    copied, copyTms, copyTdi, rfl⟩ := cmdimplFastMemWrite_built setup
  have bits := bitsPerXfer_setup_eq w.ctx fastdata
  have xfers := xfersPerBufblk_setup_eq w.ctx fastdata
  have same : SameLayout selected.ctx (fastMemWriteSetup w.ctx fastdata) :=
    selectFastdataIf_sameLayout select free
  rw [fastMemXfer_congr same] at first
  rw [bits, xfers] at clearTms clearTdi copied
  rw [bits] at passed
  have bitlen : (fastMemWriteSetup w.ctx fastdata).tdiBitlen =
      w.ctx.cmdBlockXfers fastdata * w.ctx.cmdXferBits fastdata := by
    rw [← bits, ← xfers]
    rfl
  exact ⟨⟨_, _, tms, tdi, s, s', clearTms, clearTdi, first, passed, copied, rfl, rfl⟩,
    ⟨_, copyTms⟩, ⟨_, copyTdi⟩, bits, xfers, bitlen⟩

/-- The FASTDATA instruction is sent, or nothing. -/
theorem selectFastdataIf_total {w : World} (select : Bool) (tdo : Nat → Bool)
    (free : w.ctx.periphFree = true) (few : w.ctx.paramIrLenBits.toNat < 32)
    (inside : select = true → 7 + irFields w.ctx * w.ctx.paramIrLenBits.toNat < 2048) :
    ∃ w', selectFastdataIf select w tdo = .ok w' ∧ w'.ctx.toContCtx = w.ctx.toContCtx ∧
      w'.ctx.toJtagParams = w.ctx.toJtagParams := by
  cases select with
  | false => exact ⟨w, rfl, rfl, rfl⟩
  | true =>
    obtain ⟨w', selected⟩ := selectFastdata_total tdo free few (inside rfl)
    obtain ⟨tms, tdi, rfl⟩ := selectFastdata_ok free selected
    exact ⟨_, selected, by simp, by simp⟩

/-- Clearing the buffer, building the first transfer and copying it, for a
    context that has been set up. -/
theorem fastMemWrite_decided (w : World) (fastdata : Bool) (tdo : Nat → Bool)
    (free : w.ctx.periphFree = true) (ir : 1 ≤ w.ctx.paramIrLenBits.toNat)
    (short : w.ctx.paramIrLenBits.toNat ≤ 8) (fits : w.ctx.cmdXferBits fastdata ≤ 2048) :
    SetupDecided w fastdata tdo := by
  have few : chainedCoreCount w.ctx.cmd < 128 := Nat.mod_lt _ (by decide)
  have bits := bitsPerXfer_setup_eq w.ctx fastdata
  have xfers := xfersPerBufblk_setup_eq w.ctx fastdata
  have total : w.ctx.cmdBlockXfers fastdata * w.ctx.cmdXferBits fastdata ≤ 2048 := by
    rw [← bits, ← xfers]
    exact xfersPerBufblk_setup_bits w.ctx fastdata
  let setUp : World := { w with ctx := fastMemWriteSetup w.ctx fastdata }.log
    (.reconfigure .implRecfgClkfreq (jtagClkDiv w.ctx.cmd))
  have setUpFree : setUp.ctx.periphFree = true := free
  have setUpFew : setUp.ctx.paramIrLenBits.toNat < 32 := Nat.lt_of_le_of_lt short (by decide)
  obtain ⟨after, selected, cont, params⟩ := selectFastdataIf_total
    (fastdata && (fastMemWriteSetup w.ctx fastdata).coreCount ≠ 0) tdo setUpFree setUpFew
    (fun _ => selectFastdata_short short few)
  have waited : waitUntilJtagPeriphFree { w with ctx := fastMemWriteSetup w.ctx fastdata } =
      .ok { w with ctx := fastMemWriteSetup w.ctx fastdata } := waitUntilJtagPeriphFree_ok free
  -- Selecting FASTDATA leaves every field the transfer is laid out by.
  have same : SameLayout after.ctx (fastMemWriteSetup w.ctx fastdata) := .of_groups cont params
  have blocks : after.ctx.xfersPerBufblk = w.ctx.cmdBlockXfers fastdata := by
    rw [cont]
    exact xfers
  have area : bit2dword (fastMemWriteSetup w.ctx fastdata).bitsPerXfer * after.ctx.xfersPerBufblk =
      w.ctx.clearedDwords fastdata := by
    rw [bits, blocks]
    rfl
  have dr : 1 ≤ (fastMemWriteSetup w.ctx fastdata).drseqBitlen := by
    have width := dataWidth_bounds w.ctx.cmd
    rw [drseqBitlen_setup_eq]
    omega
  have skips : (if (fastMemWriteSetup w.ctx fastdata).coreCount ≠ 0 then
      (fastMemWriteSetup w.ctx fastdata).coreCount - 1 else 0) =
      chainedCoreCount w.ctx.cmd - 1 := by
    change (if chainedCoreCount w.ctx.cmd ≠ 0 then chainedCoreCount w.ctx.cmd - 1 else 0) = _
    split <;> omega
  have agrees := builtBits_setup_iff w.ctx fastdata
  have build := fun tms tdi => fastMemXfer_builds (fastMemWriteSetup w.ctx fastdata) fastdata
    (chainedCoreCount w.ctx.cmd - 1) tms tdi setUpFew dr (builtBits_setup_lt fastdata ir short fits)
  -- The three outcomes split at the two clears and at the assertion on the bits of the
  -- first transfer; everything behind the assertion is in range.
  constructor
  · intro beyond
    have clears : DwordBuf.clear after.ctx.jtagbufA.tmsData
        (bit2dword (fastMemWriteSetup w.ctx fastdata).bitsPerXfer * after.ctx.xfersPerBufblk) =
        .error .outOfBounds := by
      rw [DwordBuf.clear, area, if_neg (by omega)]
    exact bind_eq_error.mpr (.inr ⟨_, waited, bind_eq_error.mpr (.inr ⟨after, selected,
      bind_eq_error.mpr (.inl clears)⟩)⟩)
  all_goals
    intro within layout
    rw [← area] at within
    obtain ⟨tms, clearTms⟩ := DwordBuf.clear_total after.ctx.jtagbufA.tmsData within
    obtain ⟨tdi, clearTdi⟩ := DwordBuf.clear_total after.ctx.jtagbufA.tdiData within
    obtain ⟨s, first, bitshift⟩ := build tms tdi
    rw [← fastMemXfer_congr same, ← skips] at first
  · have differs : s.bitshift ≠ (fastMemWriteSetup w.ctx fastdata).bitsPerXfer := by
      rw [bitshift, bits]
      exact fun same => layout (agrees.mp same)
    exact bind_eq_error.mpr (.inr ⟨_, waited, bind_eq_error.mpr (.inr ⟨after, selected,
      bind_eq_error.mpr (.inr ⟨tms, clearTms, bind_eq_error.mpr (.inr ⟨tdi, clearTdi,
        bind_eq_error.mpr (.inr ⟨s, first, if_pos differs⟩)⟩)⟩)⟩)⟩)
  · have agreed : s.bitshift = (fastMemWriteSetup w.ctx fastdata).bitsPerXfer := by
      rw [bitshift, bits]
      exact agrees.mpr layout
    have dword : 32 ≤ (fastMemWriteSetup w.ctx fastdata).bitsPerXfer := by
      rw [bits]
      exact cmdXferBits_pos w.ctx fastdata
    -- The first transfer is there already: the loop adds one less than the block holds.
    have room : (after.ctx.xfersPerBufblk - 1 + 1) *
        (fastMemWriteSetup w.ctx fastdata).bitsPerXfer ≤ 2048 := by
      rw [blocks, bits]
      by_cases none : w.ctx.cmdBlockXfers fastdata = 0
      · rw [none]
        omega
      · rw [show w.ctx.cmdBlockXfers fastdata - 1 + 1 = w.ctx.cmdBlockXfers fastdata by omega]
        exact total
    obtain ⟨s', copied⟩ := copyXfers_total s dword room agreed
    have bitlen : bit2dword after.ctx.tdiBitlen ≤ 64 := by
      have length : after.ctx.tdiBitlen =
          w.ctx.cmdBlockXfers fastdata * w.ctx.cmdXferBits fastdata := by
        rw [cont, ← xfers, ← bits]
        rfl
      rw [length, bit2dword]
      omega
    obtain ⟨tmsB, copyTms⟩ := DwordBuf.copyFrom_total after.ctx.jtagbufB.tmsData s'.tms bitlen
    obtain ⟨tdiB, copyTdi⟩ := DwordBuf.copyFrom_total after.ctx.jtagbufB.tdiData s'.tdi bitlen
    obtain ⟨start, returned⟩ : ∃ start,
        cmdimplFastMemWrite w fastdata tdo = .ok (.cerContinue, start) :=
      ⟨_, bind_eq_ok.mpr ⟨_, waited, bind_eq_ok.mpr ⟨after, selected,
        bind_eq_ok.mpr ⟨tms, clearTms, bind_eq_ok.mpr ⟨tdi, clearTdi, bind_eq_ok.mpr ⟨s, first,
          (if_neg (not_not.mpr agreed)).trans (bind_eq_ok.mpr ⟨s', copied,
            bind_eq_ok.mpr ⟨tmsB, copyTms, bind_eq_ok.mpr ⟨tdiB, copyTdi, rfl⟩⟩⟩)⟩⟩⟩⟩⟩⟩
    exact ⟨start, returned, premadeWrite returned⟩

/-- No access of the setup leaves its buffer exactly if the cleared area is inside
    it. -/
theorem fast_write_inside_iff {w : World} (fastdata : Bool) (tdo : Nat → Bool)
    (free : w.ctx.periphFree = true) (ir : 1 ≤ w.ctx.paramIrLenBits.toNat)
    (short : w.ctx.paramIrLenBits.toNat ≤ 8)
    (fits : (fastMemWriteSetup w.ctx fastdata).bitsPerXfer ≤ 2048) :
    cmdimplFastMemWrite w fastdata tdo ≠ .error .outOfBounds ↔
      w.ctx.clearedDwords fastdata ≤ 64 := by
  rw [bitsPerXfer_setup_eq] at fits
  have decided := fastMemWrite_decided w fastdata tdo free ir short fits
  constructor
  · intro inside
    by_contra beyond
    exact inside (decided.overrun (by omega))
  · intro within stopped
    by_cases layout : fastdata = true ∨ chainedCoreCount w.ctx.cmd ≠ 0
    · obtain ⟨start, returned, -⟩ := decided.returns within layout
      rw [returned] at stopped
      cases stopped
    · rw [decided.mismatch within layout] at stopped
      cases stopped

/-- A fast write of 31 words with FASTDATA to the first of 28 cores. -/
def chain28 : List Lib.Byte := [28, 0x30, 1, 0, 31, 0, 0, 0, 0, 0]

/-- Its transfers of 66 bits take 3 dwords each to clear, and 31 make a block. -/
theorem fast_write_of_31_to_28_cores_overruns : ∃ s, mainLoop.Reachable s ∧ s.pc = .execute ∧
    op s.world.ctx.cmd = some (writeOp true) ∧ s.world.ctx.continuation = false ∧
    s.world.ctx.periphFree = true ∧ s.world.ctx.paramIrLenBits = 5 ∧
    (fastMemWriteSetup s.world.ctx true).bitsPerXfer = 66 ∧
    cmdimplFastMemWrite s.world true (fun _ => false) = .error .outOfBounds := by
  have ran : (mainLoop.run Machine.anyAction .start
      ([.usbOut (chain28 ++ List.replicate 4 0xff)] ++ polls 64 1)).any (fun s =>
        decide (s.pc = .execute ∧ op s.world.ctx.cmd = some (writeOp true) ∧
          s.world.ctx.continuation = false ∧ s.world.ctx.periphFree = true ∧
          s.world.ctx.paramIrLenBits = 5 ∧ s.world.ctx.cmdXferBits true = 66 ∧
          64 < s.world.ctx.clearedDwords true)) = true := by
    decide +kernel
  obtain ⟨s, reach, holds⟩ := Machine.exists_reach _ rfl ran
  obtain ⟨pc, isOp, fresh, free, ir, bits, beyond⟩ := of_decide_eq_true holds
  have length : 1 ≤ s.world.ctx.paramIrLenBits.toNat ∧
      s.world.ctx.paramIrLenBits.toNat ≤ 8 := by
    rw [ir]
    decide
  have decided := fastMemWrite_decided s.world true (fun _ => false) free length.1 length.2
    (by omega)
  exact ⟨s, reach, pc, isOp, fresh, free, ir, (bitsPerXfer_setup_eq _ true).trans bits,
    decided.overrun beyond⟩

theorem fast_write_inside_middle_core :
    cmdimplFastMemWrite middleCore false (fun _ => false) ≠ .error .outOfBounds :=
  (fast_write_inside_iff false _ (by decide +kernel) (by decide +kernel) (by decide +kernel)
    (by decide +kernel)).mpr (by decide +kernel)

end LoongsonEjtag
