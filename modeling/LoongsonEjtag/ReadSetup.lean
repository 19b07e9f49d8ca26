import LoongsonEjtag.Engine
import LoongsonEjtag.WriteSetup

/-! # The setup of a fast read

`cmdimpl_fast_mem_read` works from its command and from fields of the context
that only a fast write sets: `is_64bit_cpu`, `use_fastdata` and `target_core`.
Its `core_count` is that of the fast command before it.

* `fastMemXfer_agree` — two runs over buffers that have the same bits.
* `fastMemRead_returns_iff` — when the call returns with its assertion passed.
* `fast_read_setups_agree_iff` — two histories come to the same setup exactly if
  both left what the command asks for.
-/

namespace LoongsonEjtag

open Lib (Byte Dword Machine SameBits bitsFrom Spells u32 sub32 sub32_eq forUpTo_related
  bind_eq_ok bind_eq_error)
open Wire

/-! ## Two runs of a transfer -/

/-- Two sequences under construction with the same bits below `limit`. -/
structure SeqBuf.Agree (limit : Nat) (s t : SeqBuf) : Prop where
  tms : SameBits limit s.tms t.tms
  tdi : SameBits limit s.tdi t.tdi
  bitshift : s.bitshift = t.bitshift

namespace SeqBuf.Agree

variable {limit bits : Nat} {field : Dword} {s s' t t' : SeqBuf}

theorem back (agree : Agree limit s t) : Agree limit s.back t.back := by
  obtain ⟨tms, tdi, moved⟩ := s.back_fields
  obtain ⟨tms', tdi', moved'⟩ := t.back_fields
  constructor
  · rw [tms, tms']
    exact agree.tms
  · rw [tdi, tdi']
    exact agree.tdi
  · rw [moved, moved', agree.bitshift]

theorem skip (agree : Agree limit s t) (skipped : Nat) :
    Agree limit (s.skip skipped) (t.skip skipped) := by
  obtain ⟨tms, tdi, moved⟩ := s.skip_fields skipped
  obtain ⟨tms', tdi', moved'⟩ := t.skip_fields skipped
  constructor
  · rw [tms, tms']
    exact agree.tms
  · rw [tdi, tdi']
    exact agree.tdi
  · rw [moved, moved', agree.bitshift]

theorem appendTms (agree : Agree limit s t) (appended : s.appendTms field bits = .ok s')
    (appended' : t.appendTms field bits = .ok t') : Agree limit s' t' := by
  obtain ⟨_, wrote, finished⟩ := bind_eq_ok.mp appended
  obtain ⟨_, wrote', finished'⟩ := bind_eq_ok.mp appended'
  cases finished
  cases finished'
  rw [← agree.bitshift] at wrote'
  have sameTms := agree.tms.adds (appendBits_adds wrote) (appendBits_adds wrote')
  exact ⟨sameTms, agree.tdi, congrArg (· + bits) agree.bitshift⟩

theorem appendTdi (agree : Agree limit s t) (appended : s.appendTdi field bits = .ok s')
    (appended' : t.appendTdi field bits = .ok t') : Agree limit s' t' := by
  obtain ⟨_, wrote, finished⟩ := bind_eq_ok.mp appended
  obtain ⟨_, wrote', finished'⟩ := bind_eq_ok.mp appended'
  cases finished
  cases finished'
  rw [← agree.bitshift] at wrote'
  have sameTdi := agree.tdi.adds (appendBits_adds wrote) (appendBits_adds wrote')
  exact ⟨agree.tms, sameTdi, congrArg (· + bits) agree.bitshift⟩

theorem appendIr (agree : Agree limit s t) {ctx : LsejtagCtx} {active : Byte}
    {coreAt : Nat → Nat} (appended : LoongsonEjtag.appendIr ctx active coreAt s = .ok s')
    (appended' : LoongsonEjtag.appendIr ctx active coreAt t = .ok t') : Agree limit s' t' := by
  by_cases chained : ctx.coreCount ≠ 0
  · simp only [LoongsonEjtag.appendIr, if_pos chained] at appended appended'
    refine forUpTo_related (fun _ => Agree limit) agree ?_ appended appended'
    intro i x y x' y' _ soFar wrote wrote'
    exact soFar.appendTdi wrote wrote'
  · simp only [LoongsonEjtag.appendIr, if_neg chained] at appended appended'
    exact agree.appendTdi appended appended'

end SeqBuf.Agree

/-- What is built depends on the context and on the bits it is built over. -/
theorem fastMemXfer_agree {limit skipbits : Nat} {ctx : LsejtagCtx} {fastdata : Bool}
    {s s' t t' : SeqBuf} (agree : s.Agree limit t)
    (built : fastMemXfer ctx fastdata skipbits s = .ok s')
    (built' : fastMemXfer ctx fastdata skipbits t = .ok t') : s'.Agree limit t' := by
  cases fastdata with
  | true =>
    simp only [fastMemXfer, if_true] at built built'
    obtain ⟨s₁, shiftDr, idle⟩ := bind_eq_ok.mp built
    obtain ⟨t₁, shiftDr', idle'⟩ := bind_eq_ok.mp built'
    have agree₁ := agree.appendTms shiftDr shiftDr'
    exact (agree₁.skip _).appendTms idle idle'
  | false =>
    simp only [fastMemXfer, Bool.false_eq_true, if_false] at built built'
    obtain ⟨s₁, shiftIr, built⟩ := bind_eq_ok.mp built
    obtain ⟨t₁, shiftIr', built'⟩ := bind_eq_ok.mp built'
    obtain ⟨s₂, data, built⟩ := bind_eq_ok.mp built
    obtain ⟨t₂, data', built'⟩ := bind_eq_ok.mp built'
    have agree₂ := (agree.appendTms shiftIr shiftIr').appendIr data data'
    obtain ⟨s₃, shiftDr, built⟩ := bind_eq_ok.mp built
    obtain ⟨t₃, shiftDr', built'⟩ := bind_eq_ok.mp built'
    have agree₃ := agree₂.back.appendTms shiftDr shiftDr'
    obtain ⟨s₄, toIr, built⟩ := bind_eq_ok.mp built
    obtain ⟨t₄, toIr', built'⟩ := bind_eq_ok.mp built'
    have agree₄ := (agree₃.skip _).appendTms toIr toIr'
    obtain ⟨s₅, control, built⟩ := bind_eq_ok.mp built
    obtain ⟨t₅, control', built'⟩ := bind_eq_ok.mp built'
    have agree₅ := agree₄.appendIr control control'
    obtain ⟨s₆, toDr, built⟩ := bind_eq_ok.mp built
    obtain ⟨t₆, toDr', built'⟩ := bind_eq_ok.mp built'
    have agree₆ := (agree₅.back.appendTms toDr toDr').skip skipbits
    -- The control word goes where both runs have got to.
    obtain ⟨word, wrote, idle⟩ := bind_eq_ok.mp built
    obtain ⟨word', wrote', idle'⟩ := bind_eq_ok.mp built'
    rw [← agree₆.bitshift] at wrote'
    have sameWord := appendDword_sameBits agree₆.tdi wrote wrote'
    have agree₇ : SeqBuf.Agree limit { s₆.skip skipbits with tdi := word }
        { t₆.skip skipbits with tdi := word' } := ⟨agree₆.tms, sameWord, agree₆.bitshift⟩
    exact (agree₇.skip 32).back.appendTms idle idle'

/-! ## The parameters of a read -/

/-- Cores of the chain of a read, which is never empty. -/
def readCores (cmd : List Byte) : Nat :=
  if chainedCoreCount cmd ≠ 0 then chainedCoreCount cmd else 1

/-- Everything a read appends can be shifted and is inside the buffers: the scan
    that selects FASTDATA, or else the transfer. -/
def ReadFits (cores irLen width : Nat) (fastdata : Bool) : Prop :=
  irLen < 32 ∧
    (if fastdata then 7 + cores * irLen else writeXferBits cores irLen width false) < 2048

instance (cores irLen width : Nat) (fastdata : Bool) :
    Decidable (ReadFits cores irLen width fastdata) := inferInstanceAs (Decidable (_ ∧ _))

section parameters

variable {ctx : LsejtagCtx}

theorem readCores_bounds (cmd : List Byte) : 1 ≤ readCores cmd ∧ readCores cmd < 128 := by
  have few : chainedCoreCount cmd < 128 := Nat.mod_lt _ (by decide)
  rw [readCores]
  split <;> omega

theorem irBits_le (ctx : LsejtagCtx) :
    readCores ctx.cmd * ctx.paramIrLenBits.toNat ≤ 127 * 255 := by
  have cores := readCores_bounds ctx.cmd
  have irLen := ctx.paramIrLenBits.isLt
  exact Nat.mul_le_mul (by omega) (by omega)

/-- The two layouts of a transfer to a chain differ in length. -/
theorem writeXferBits_inj {cores irLen width : Nat} (chained : 1 ≤ cores) {fastdata used : Bool} :
    writeXferBits cores irLen width used = writeXferBits cores irLen width fastdata ↔
      used = fastdata := by
  have single : cores ≠ 0 := by omega
  cases used <;> cases fastdata <;> simp [writeXferBits, single] <;> omega

theorem cpuWidth_bounds (ctx : LsejtagCtx) : 32 ≤ ctx.cpuWidth ∧ ctx.cpuWidth ≤ 64 := by
  rw [LsejtagCtx.cpuWidth]
  split <;> decide

/-- Only a fast write sets the width. -/
theorem drseqBitlen_readSetup (ctx : LsejtagCtx) (fastdata : Bool) :
    (fastMemReadSetup ctx fastdata).drseqBitlen =
      readCores ctx.cmd - 1 + ctx.cpuWidth + if fastdata then 1 else 0 := rfl

/-- The length is computed for the layout of the last fast write. -/
theorem bitsPerXfer_readSetup (ctx : LsejtagCtx) (fastdata : Bool) :
    (fastMemReadSetup ctx fastdata).bitsPerXfer =
      writeXferBits (readCores ctx.cmd) ctx.paramIrLenBits.toNat ctx.cpuWidth
        ctx.useFastdata := by
  have cores := readCores_bounds ctx.cmd
  have isGet : (fastMemReadSetup ctx fastdata).bitsPerXfer =
      fastMemRwGetBitsPerXfer (fastMemReadSetup ctx fastdata) := rfl
  have chain : (fastMemReadSetup ctx fastdata).coreCount = readCores ctx.cmd := rfl
  rw [isGet, fastMemRwGetBitsPerXfer_eq (by omega) (.inr (by omega)), chain]
  rfl

/-- The transfer is built for the layout of the command. -/
theorem builtBits_readSetup (ctx : LsejtagCtx) (fastdata : Bool) :
    builtBits (fastMemReadSetup ctx fastdata) fastdata (readCores ctx.cmd - 1) =
      writeXferBits (readCores ctx.cmd) ctx.paramIrLenBits.toNat ctx.cpuWidth fastdata := by
  have cores := readCores_bounds ctx.cmd
  have single : readCores ctx.cmd ≠ 0 := by omega
  have chain : (fastMemReadSetup ctx fastdata).coreCount = readCores ctx.cmd := rfl
  have irLen : (fastMemReadSetup ctx fastdata).paramIrLenBits = ctx.paramIrLenBits := rfl
  rw [builtBits, irFields, chain, irLen, if_pos single, drseqBitlen_readSetup, writeXferBits]
  cases fastdata with
  | true => simp only [if_true, true_or]
  | false =>
    simp only [Bool.false_eq_true, if_false, false_or, single]
    omega

/-- The transfer of a read that fits is shorter than the buffer. -/
theorem ReadFits.xferBits {cores irLen width : Nat} {fastdata : Bool}
    (fits : ReadFits cores irLen width fastdata)
    (few : cores < 128) (narrow : width ≤ 64) :
    writeXferBits cores irLen width fastdata < 2048 := by
  cases fastdata with
  | true =>
    rw [writeXferBits, if_pos (.inl rfl)]
    omega
  | false => exact fits.2

end parameters

/-! ## The call -/

section call

variable {w : World} {fastdata : Bool} {tdo : Nat → Bool}

/-- A scan that was built to select FASTDATA is inside the buffer. -/
theorem selectFastdata_inside {w' : World} (selected : selectFastdata w tdo = .ok w') :
    w.ctx.paramIrLenBits.toNat < 32 ∧
      7 + irFields w.ctx * w.ctx.paramIrLenBits.toNat < 2048 := by
  obtain ⟨_, clear, selected⟩ := bind_eq_ok.mp selected
  obtain ⟨_, -, selected⟩ := bind_eq_ok.mp selected
  obtain ⟨s₁, shiftIr, selected⟩ := bind_eq_ok.mp selected
  obtain ⟨s₂, fields, selected⟩ := bind_eq_ok.mp selected
  obtain ⟨s₃, idle, -⟩ := bind_eq_ok.mp selected
  have area : bit2dword (7 + irFields w.ctx * w.ctx.paramIrLenBits.toNat) ≤ 64 :=
    DwordBuf.clear_inside clear
  rw [bit2dword] at area
  have at₁ : s₁.bitshift = 0 + 5 := appendTms_moves shiftIr
  obtain ⟨few, at₂⟩ := appendIr_moves fields
  have inside := appendTms_inside idle
  have at₃ := backTms_moves (by omega) (by omega) idle
  exact ⟨few, by omega⟩

/-- A read whose IR fields and bits fit gets as far as its assertion, which passes
    if the last fast write had the layout of the read. -/
theorem fastMemRead_decided (tdo : Nat → Bool) (free : w.ctx.periphFree = true)
    (fits : ReadFits (readCores w.ctx.cmd) w.ctx.paramIrLenBits.toNat w.ctx.cpuWidth fastdata)
    (area : bit2dword (fastMemReadSetup w.ctx fastdata).bitsPerXfer ≤ 64) :
    (w.ctx.useFastdata = fastdata →
        ∃ start, cmdimplFastMemRead w fastdata tdo = .ok (.cerContinue, start)) ∧
      (w.ctx.useFastdata ≠ fastdata →
        cmdimplFastMemRead w fastdata tdo = .error .assertFailed) := by
  have few := fits.1
  have inside := fits.2
  have cores := readCores_bounds w.ctx.cmd
  have width := cpuWidth_bounds w.ctx
  have single : readCores w.ctx.cmd ≠ 0 := by omega
  let setUp : World := { w with ctx := fastMemReadSetup w.ctx fastdata }.log
    (.reconfigure .implRecfgClkfreq (jtagClkDiv w.ctx.cmd))
  have setUpFree : setUp.ctx.periphFree = true := free
  have setUpFew : setUp.ctx.paramIrLenBits.toNat < 32 := few
  have selects : fastdata = true →
      7 + irFields setUp.ctx * setUp.ctx.paramIrLenBits.toNat < 2048 := by
    rintro rfl
    rw [if_pos rfl] at inside
    have chain : setUp.ctx.coreCount = readCores w.ctx.cmd := rfl
    rw [irFields, chain, if_pos single]
    exact inside
  obtain ⟨after, selected, cont, params⟩ :=
    selectFastdataIf_total fastdata tdo setUpFree setUpFew selects
  obtain ⟨tms, clearTms⟩ := DwordBuf.clear_total after.ctx.jtagbufA.tmsData area
  obtain ⟨tdi, clearTdi⟩ := DwordBuf.clear_total after.ctx.jtagbufA.tdiData area
  have same : SameLayout after.ctx (fastMemReadSetup w.ctx fastdata) := .of_groups cont params
  have total := builtBits_readSetup w.ctx fastdata
  have short : builtBits (fastMemReadSetup w.ctx fastdata) fastdata
      (readCores w.ctx.cmd - 1) < 2048 := by
    rw [total]
    exact fits.xferBits cores.2 width.2
  have dr : 1 ≤ (fastMemReadSetup w.ctx fastdata).drseqBitlen := by
    rw [drseqBitlen_readSetup]
    omega
  obtain ⟨s, built, bitshift⟩ := fastMemXfer_builds (fastMemReadSetup w.ctx fastdata) fastdata
    (readCores w.ctx.cmd - 1) tms tdi few dr short
  rw [← fastMemXfer_congr same] at built
  have waited : waitUntilJtagPeriphFree { w with ctx := fastMemReadSetup w.ctx fastdata } =
      .ok { w with ctx := fastMemReadSetup w.ctx fastdata } := waitUntilJtagPeriphFree_ok free
  have chain : after.ctx.coreCount = readCores w.ctx.cmd := by
    rw [cont]
    rfl
  have bitlen : after.ctx.tdiBitlen = (fastMemReadSetup w.ctx fastdata).bitsPerXfer := by
    rw [cont]
    rfl
  have bits : after.ctx.bitsPerXfer = (fastMemReadSetup w.ctx fastdata).bitsPerXfer := by
    rw [cont]
    rfl
  rw [← bitlen] at clearTms clearTdi
  rw [← chain] at built
  -- The transfer has the length of its own layout; what it is compared with has
  -- the length of the layout that is left.
  constructor
  · intro mode
    have passes : s.bitshift = after.ctx.bitsPerXfer := by
      rw [bits, bitsPerXfer_readSetup, mode, bitshift, total]
    exact ⟨_, bind_eq_ok.mpr ⟨_, waited, bind_eq_ok.mpr ⟨after, selected,
      bind_eq_ok.mpr ⟨tms, clearTms, bind_eq_ok.mpr ⟨tdi, clearTdi, bind_eq_ok.mpr ⟨s, built,
        if_neg (not_not.mpr passes)⟩⟩⟩⟩⟩⟩
  · intro mode
    have fails : s.bitshift ≠ after.ctx.bitsPerXfer := by
      rw [bits, bitsPerXfer_readSetup, bitshift, total]
      intro same
      exact mode ((writeXferBits_inj cores.1).mp same.symm)
    exact bind_eq_error.mpr (.inr ⟨_, waited, bind_eq_error.mpr (.inr ⟨after, selected,
      bind_eq_error.mpr (.inr ⟨tms, clearTms, bind_eq_error.mpr (.inr ⟨tdi, clearTdi,
        bind_eq_error.mpr (.inr ⟨s, built, if_pos fails⟩)⟩)⟩)⟩)⟩)

/-- The call returns exactly if the last fast write had the layout of the read and
    the read fits. -/
theorem fastMemRead_returns_iff (tdo : Nat → Bool) (free : w.ctx.periphFree = true) :
    (∃ start, cmdimplFastMemRead w fastdata tdo = .ok (.cerContinue, start)) ↔
      w.ctx.useFastdata = fastdata ∧
        ReadFits (readCores w.ctx.cmd) w.ctx.paramIrLenBits.toNat w.ctx.cpuWidth fastdata := by
  have cores := readCores_bounds w.ctx.cmd
  have width := cpuWidth_bounds w.ctx
  have single : readCores w.ctx.cmd ≠ 0 := by omega
  have total := builtBits_readSetup w.ctx fastdata
  constructor
  · intro returned
    obtain ⟨start, returned⟩ := returned
    obtain ⟨-, selected, tms, tdi, s, select, -, -, built, passes, -⟩ :=
      cmdimplFastMemRead_ok free returned
    have dr : 1 ≤ (fastMemReadSetup w.ctx fastdata).drseqBitlen := by
      rw [drseqBitlen_readSetup]
      omega
    have same : SameLayout selected.ctx (fastMemReadSetup w.ctx fastdata) :=
      selectFastdataIf_sameLayout select free
    have inside := fastMemXfer_inside built
    rw [fastMemXfer_congr same] at built
    -- No chain is long enough for the bit counter to wrap
    have small : builtBits (fastMemReadSetup w.ctx fastdata) fastdata
        (readCores w.ctx.cmd - 1) < 2 ^ 32 := by
      have irBits := irBits_le w.ctx
      rw [total, writeXferBits]
      split <;> omega
    obtain ⟨bitshift, few⟩ := fastMemXfer_moves rfl dr small built
    rw [total] at bitshift
    rw [bitsPerXfer_readSetup, bitshift] at passes
    refine ⟨((writeXferBits_inj cores.1).mp passes).symm, ?_⟩
    cases fastdata with
    | true =>
      obtain ⟨fewIr, scan⟩ := selectFastdata_inside select
      have chain : (fastMemReadSetup w.ctx true).coreCount = readCores w.ctx.cmd := rfl
      have fields : irFields (fastMemReadSetup w.ctx true) = readCores w.ctx.cmd := by
        rw [irFields, chain, if_pos single]
      exact ⟨fewIr, fields ▸ scan⟩
    | false => exact ⟨few rfl, bitshift ▸ inside⟩
  · intro condition
    obtain ⟨mode, fits⟩ := condition
    have area : bit2dword (fastMemReadSetup w.ctx fastdata).bitsPerXfer ≤ 64 := by
      have short := fits.xferBits cores.2 width.2
      rw [bitsPerXfer_readSetup, mode, bit2dword]
      omega
    exact (fastMemRead_decided tdo free fits area).1 mode

end call

/-! ## Two histories -/

/-- What the blocks of a read take from its setup: the sequence in `jtagbuf_a` up
    to `tdi_bitlen`, and the lengths. -/
structure ReadTemplate where
  tms : List Bool
  tdi : List Bool
  drseqBitlen : Nat
  bitsPerXfer : Nat
  tdoSkipBits : Nat

def LsejtagCtx.readTemplate (ctx : LsejtagCtx) : ReadTemplate where
  tms := bitsFrom ctx.jtagbufA.tmsData 0 ctx.tdiBitlen
  tdi := bitsFrom ctx.jtagbufA.tdiData 0 ctx.tdiBitlen
  drseqBitlen := ctx.drseqBitlen
  bitsPerXfer := ctx.bitsPerXfer
  tdoSkipBits := ctx.tdoSkipBits

/-- The setup of a read returns, so its assertion holds, and has taken the width
    and the target core from the command. -/
structure ReadStarted (w : World) (fastdata : Bool) (tdo : Nat → Bool) (start : World) :
    Prop where
  returned : cmdimplFastMemRead w fastdata tdo = .ok (.cerContinue, start)
  width : start.ctx.is64bitCpu = cpuIs64bit w.ctx.cmd
  core : start.ctx.targetCore = atCpuCore w.ctx.cmd

/-- Two contexts start the read that they hold, and with the same template. -/
def ReadSetupsAgree (w w' : World) (fastdata : Bool) (tdo tdo' : Nat → Bool) : Prop :=
  ∃ start start', ReadStarted w fastdata tdo start ∧ ReadStarted w' fastdata tdo' start' ∧
    start.ctx.readTemplate = start'.ctx.readTemplate

/-- Two contexts hold the same fast read and have the same IR parameters.  Of
    these, ADDRESS and FASTDATA are not part of a transfer and may differ. -/
structure SameRead (ctx ctx' : LsejtagCtx) (fastdata : Bool) : Prop where
  isOp : op ctx.cmd = some (readOp fastdata)
  command : ctx.cmd.take (configEnd (readOp fastdata) ctx.cmd) =
    ctx'.cmd.take (configEnd (readOp fastdata) ctx.cmd)
  irLen : ctx.paramIrLenBits = ctx'.paramIrLenBits
  irSkip : ctx.paramIrSkip = ctx'.paramIrSkip
  irData : ctx.paramIrData = ctx'.paramIrData
  irControl : ctx.paramIrControl = ctx'.paramIrControl

/-- The fields that a read takes from the context, as the last fast write left
    them, have the values of its own header and op. -/
structure LeftForRead (ctx : LsejtagCtx) (fastdata : Bool) : Prop where
  width : ctx.is64bitCpu = cpuIs64bit ctx.cmd
  core : ctx.targetCore = atCpuCore ctx.cmd
  mode : ctx.useFastdata = fastdata

/-- Cores of the last fast command; none counts as one. -/
def LsejtagCtx.lastCores (ctx : LsejtagCtx) : Nat := if ctx.coreCount ≠ 0 then ctx.coreCount else 1

section histories

variable {ctx ctx' : LsejtagCtx} {w w' start start' : World} {fastdata : Bool}
  {tdo tdo' : Nat → Bool}

/-- What a started read has in its context. -/
structure ReadBuilt (w : World) (fastdata : Bool) (start : World) : Prop where
  width : start.ctx.is64bitCpu = w.ctx.is64bitCpu
  core : start.ctx.targetCore = w.ctx.targetCore
  drseq : start.ctx.drseqBitlen =
    readCores w.ctx.cmd - 1 + w.ctx.cpuWidth + if fastdata then 1 else 0
  bits : start.ctx.bitsPerXfer = (fastMemReadSetup w.ctx fastdata).bitsPerXfer
  bitlen : start.ctx.tdiBitlen = (fastMemReadSetup w.ctx fastdata).bitsPerXfer
  skips : start.ctx.tdoSkipBits =
    if fastdata then 4 else 9 + w.ctx.lastCores * w.ctx.paramIrLenBits.toNat
  built : ∃ (tmsData tdiData tms tdi : DwordBuf) (s : SeqBuf),
    tmsData.clear (bit2dword (fastMemReadSetup w.ctx fastdata).bitsPerXfer) = .ok tms ∧
    tdiData.clear (bit2dword (fastMemReadSetup w.ctx fastdata).bitsPerXfer) = .ok tdi ∧
    fastMemXfer (fastMemReadSetup w.ctx fastdata) fastdata (readCores w.ctx.cmd - 1)
      { tms, tdi, bitshift := 0 } = .ok s ∧
    start.ctx.jtagbufA.tmsData = s.tms ∧ start.ctx.jtagbufA.tdiData = s.tdi

theorem readBuilt (free : w.ctx.periphFree = true)
    (returned : cmdimplFastMemRead w fastdata tdo = .ok (.cerContinue, start)) :
    ReadBuilt w fastdata start := by
  obtain ⟨-, selected, tms, tdi, s, select, clearTms, clearTdi, built, -, rfl⟩ :=
    cmdimplFastMemRead_ok free returned
  have same : SameLayout selected.ctx (fastMemReadSetup w.ctx fastdata) :=
    selectFastdataIf_sameLayout select free
  rw [fastMemXfer_congr same] at built
  exact ⟨rfl, rfl, rfl, rfl, rfl, rfl, _, _, tms, tdi, s, clearTms, clearTdi, built, rfl, rfl⟩

theorem SameRead.fields (same : SameRead ctx ctx' fastdata) :
    chainedCoreCount ctx.cmd = chainedCoreCount ctx'.cmd ∧
      cpuIs64bit ctx.cmd = cpuIs64bit ctx'.cmd ∧ atCpuCore ctx.cmd = atCpuCore ctx'.cmd := by
  have config : configEnd (readOp fastdata) ctx.cmd = 10 := by
    cases fastdata <;> rfl
  have command := same.command
  rw [config] at command
  refine ⟨?_, ?_, ?_⟩
  · rw [← chainedCoreCount_take ctx.cmd (n := 10) (by decide), command,
      chainedCoreCount_take _ (by decide)]
  · rw [← cpuIs64bit_take ctx.cmd (n := 10) (by decide), command, cpuIs64bit_take _ (by decide)]
  · rw [← atCpuCore_take ctx.cmd (n := 10) (by decide), command, atCpuCore_take _ (by decide)]

theorem SameRead.readCores_eq (same : SameRead ctx ctx' fastdata) :
    readCores ctx.cmd = readCores ctx'.cmd := by
  rw [readCores, readCores, same.fields.1]

theorem LeftForRead.cpuWidth_eq (left : LeftForRead ctx fastdata) :
    ctx.cpuWidth = dataWidth ctx.cmd := by
  rw [LsejtagCtx.cpuWidth, dataWidth, left.width]

theorem SameRead.cpuWidth_eq (same : SameRead ctx ctx' fastdata)
    (left : LeftForRead ctx fastdata) (left' : LeftForRead ctx' fastdata) :
    ctx.cpuWidth = ctx'.cpuWidth := by
  rw [left.cpuWidth_eq, left'.cpuWidth_eq, dataWidth, dataWidth, same.fields.2.1]

/-- Contexts that were left for the same read are set up alike. -/
theorem SameRead.sameLayout (same : SameRead ctx ctx' fastdata)
    (left : LeftForRead ctx fastdata) (left' : LeftForRead ctx' fastdata) :
    SameLayout (fastMemReadSetup ctx fastdata) (fastMemReadSetup ctx' fastdata) where
  cores := same.readCores_eq
  target := left.core.trans (same.fields.2.2.trans left'.core.symm)
  drseq := by
    rw [drseqBitlen_readSetup, drseqBitlen_readSetup, same.readCores_eq,
      same.cpuWidth_eq left left']
  irLen := same.irLen
  irSkip := same.irSkip
  irData := same.irData
  irControl := same.irControl

theorem SameRead.bitsPerXfer_eq (same : SameRead ctx ctx' fastdata)
    (left : LeftForRead ctx fastdata) (left' : LeftForRead ctx' fastdata) :
    (fastMemReadSetup ctx fastdata).bitsPerXfer =
      (fastMemReadSetup ctx' fastdata).bitsPerXfer := by
  rw [bitsPerXfer_readSetup, bitsPerXfer_readSetup, same.readCores_eq, same.irLen,
    same.cpuWidth_eq left left', left.mode, left'.mode]

/-- Both sequences are built over zeros. -/
theorem ReadBuilt.sameBits (same : SameRead w.ctx w'.ctx fastdata)
    (left : LeftForRead w.ctx fastdata) (left' : LeftForRead w'.ctx fastdata)
    (built : ReadBuilt w fastdata start) (built' : ReadBuilt w' fastdata start') :
    SameBits (fastMemReadSetup w.ctx fastdata).bitsPerXfer
        start.ctx.jtagbufA.tmsData start'.ctx.jtagbufA.tmsData ∧
      SameBits (fastMemReadSetup w.ctx fastdata).bitsPerXfer
        start.ctx.jtagbufA.tdiData start'.ctx.jtagbufA.tdiData := by
  obtain ⟨_, _, tms, tdi, s, clearTms, clearTdi, xfer, isTms, isTdi⟩ := built.built
  obtain ⟨_, _, tms', tdi', s', clearTms', clearTdi', xfer', isTms', isTdi'⟩ := built'.built
  have area : (fastMemReadSetup w.ctx fastdata).bitsPerXfer ≤
      32 * bit2dword (fastMemReadSetup w.ctx fastdata).bitsPerXfer := by
    rw [bit2dword]
    omega
  rw [← same.bitsPerXfer_eq left left'] at clearTms' clearTdi'
  have zeros : SeqBuf.Agree (fastMemReadSetup w.ctx fastdata).bitsPerXfer
      ⟨tms, tdi, 0⟩ ⟨tms', tdi', 0⟩ := by
    constructor
    · intro p below
      exact (DwordBuf.clear_spells clearTms).sameBits (DwordBuf.clear_spells clearTms') p
        (by omega)
    · intro p below
      exact (DwordBuf.clear_spells clearTdi).sameBits (DwordBuf.clear_spells clearTdi') p
        (by omega)
    · rfl
  rw [← fastMemXfer_congr (same.sameLayout left left'), ← same.readCores_eq] at xfer'
  have agree := fastMemXfer_agree zeros xfer xfer'
  rw [isTms, isTms', isTdi, isTdi']
  exact ⟨agree.tms, agree.tdi⟩

theorem ReadBuilt.readTemplate_eq (same : SameRead w.ctx w'.ctx fastdata)
    (left : LeftForRead w.ctx fastdata) (left' : LeftForRead w'.ctx fastdata)
    (skips : fastdata = true ∨ w.ctx.lastCores * w.ctx.paramIrLenBits.toNat =
      w'.ctx.lastCores * w'.ctx.paramIrLenBits.toNat)
    (built : ReadBuilt w fastdata start) (built' : ReadBuilt w' fastdata start') :
    start.ctx.readTemplate = start'.ctx.readTemplate := by
  have sameBits := same.bitsPerXfer_eq left left'
  obtain ⟨sameTms, sameTdi⟩ := built.sameBits same left left' built'
  simp only [LsejtagCtx.readTemplate, ReadTemplate.mk.injEq]
  rw [built.bits, built.bitlen, built.drseq, built.skips, built'.bits, built'.bitlen,
    built'.drseq, built'.skips, ← sameBits, same.readCores_eq, same.cpuWidth_eq left left']
  refine ⟨sameTms.bitsFrom_eq (by omega), sameTdi.bitsFrom_eq (by omega), rfl, rfl, ?_⟩
  obtain rfl | sameSkips := skips
  · rfl
  · rw [sameSkips]

/-- Two reachable contexts that hold the same fast read set it up alike exactly if
    the fast commands before left both what the command asks for, the read fits, and
    without FASTDATA their chains have IR sequences of the same length. -/
theorem fast_read_setups_agree_iff {s s' : MainState} (reach : mainLoop.Reachable s)
    (reach' : mainLoop.Reachable s') (ready : s.pc = .execute) (ready' : s'.pc = .execute)
    (fastdata : Bool) (same : SameRead s.world.ctx s'.world.ctx fastdata)
    (tdo tdo' : Nat → Bool) :
    ReadSetupsAgree s.world s'.world fastdata tdo tdo' ↔
      LeftForRead s.world.ctx fastdata ∧ LeftForRead s'.world.ctx fastdata ∧
        (fastdata = true ∨ s.world.ctx.lastCores * s.world.ctx.paramIrLenBits.toNat =
          s'.world.ctx.lastCores * s'.world.ctx.paramIrLenBits.toNat) ∧
        ReadFits (readCores s.world.ctx.cmd) s.world.ctx.paramIrLenBits.toNat
          (dataWidth s.world.ctx.cmd) fastdata := by
  have inv := mainLoop_inv reach
  have inv' := mainLoop_inv reach'
  have free := inv.engine.idle.periphFree (inv.pc.execute ready).1.noBlockA
  have free' := inv'.engine.idle.periphFree (inv'.pc.execute ready').1.noBlockA
  constructor
  · intro agree
    obtain ⟨start, start', started, started', template⟩ := agree
    have built := readBuilt free started.returned
    have built' := readBuilt free' started'.returned
    -- A setup that returns has passed the assertion, which compares with the mode left over.
    obtain ⟨mode, fits⟩ := (fastMemRead_returns_iff tdo free).mp ⟨start, started.returned⟩
    obtain ⟨mode', -⟩ := (fastMemRead_returns_iff tdo' free').mp ⟨start', started'.returned⟩
    have left : LeftForRead s.world.ctx fastdata :=
      ⟨built.width.symm.trans started.width, built.core.symm.trans started.core, mode⟩
    have left' : LeftForRead s'.world.ctx fastdata :=
      ⟨built'.width.symm.trans started'.width, built'.core.symm.trans started'.core, mode'⟩
    refine ⟨left, left', ?_, left.cpuWidth_eq ▸ fits⟩
    -- The width and the core are the command's own on both sides; the chain length left
    -- over shows only in the bits skipped before the data.
    have skips := congrArg ReadTemplate.tdoSkipBits template
    change start.ctx.tdoSkipBits = start'.ctx.tdoSkipBits at skips
    rw [built.skips, built'.skips] at skips
    cases fastdata with
    | true => exact .inl rfl
    | false =>
      rw [if_neg (by decide), if_neg (by decide)] at skips
      exact .inr (Nat.add_left_cancel skips)
  · intro condition
    obtain ⟨left, left', skips, fits⟩ := condition
    rw [← left.cpuWidth_eq] at fits
    have fits' := fits
    rw [same.readCores_eq, same.irLen, same.cpuWidth_eq left left'] at fits'
    obtain ⟨start, returned⟩ := (fastMemRead_returns_iff tdo free).mpr ⟨left.mode, fits⟩
    obtain ⟨start', returned'⟩ := (fastMemRead_returns_iff tdo' free').mpr ⟨left'.mode, fits'⟩
    have built := readBuilt free returned
    have built' := readBuilt free' returned'
    refine ⟨start, start', ⟨returned, ?_, ?_⟩, ⟨returned', ?_, ?_⟩, ?_⟩
    · exact built.width.trans left.width
    · exact built.core.trans left.core
    · exact built'.width.trans left'.width
    · exact built'.core.trans left'.core
    · exact built.readTemplate_eq same left left' skips built'

end histories

/-- A fast read of one word from a single chained core. -/
def oneCoreRead (fastdata : Bool) : List Byte :=
  [1, if fastdata then 0x38 else 0x3c, 1, 0, 1, 0, 0, 0, 0, 0]

/-- A fast write of one word to it, in front of that read. -/
def oneCoreWriteRead (fastdata : Bool) : List Byte :=
  [1, if fastdata then 0x30 else 0x34, 1, 0, 1, 0, 0, 0, 0, 0] ++
    List.replicate (if fastdata then 8 else 4) 0xff ++ oneCoreRead fastdata

/-- The same read as the first command, and behind the write. -/
theorem oneCoreRead_runs (fastdata : Bool) : ∃ s s', mainLoop.Reachable s ∧
    mainLoop.Reachable s' ∧ s.pc = .execute ∧ s'.pc = .execute ∧
    s.world.ctx.continuation = false ∧ s'.world.ctx.continuation = false ∧
    SameRead s.world.ctx s'.world.ctx fastdata ∧
    s.world.ctx.useFastdata = false ∧ LeftForRead s'.world.ctx fastdata ∧
    s.world.ctx.is64bitCpu = cpuIs64bit s.world.ctx.cmd ∧
    s.world.ctx.targetCore = atCpuCore s.world.ctx.cmd ∧
    s.world.ctx.lastCores = s'.world.ctx.lastCores ∧ s.world.ctx.paramIrLenBits = 5 ∧
    readCores s.world.ctx.cmd = 1 ∧ dataWidth s.world.ctx.cmd = 32 := by
  have ran : (mainLoop.run Machine.anyAction .start
      ([.usbOut (oneCoreRead fastdata ++ List.replicate 4 0xff)] ++ polls 64 1)).any (fun s =>
        (mainLoop.run Machine.anyAction .start
          ([.usbOut (oneCoreWriteRead fastdata ++ List.replicate 4 0xff)] ++ polls 64 7)).any
            fun s' => decide ((s.pc = .execute ∧ s'.pc = .execute ∧
              s.world.ctx.continuation = false ∧ s'.world.ctx.continuation = false) ∧
              (op s.world.ctx.cmd = some (readOp fastdata) ∧
                s.world.ctx.cmd.take (configEnd (readOp fastdata) s.world.ctx.cmd) =
                  s'.world.ctx.cmd.take (configEnd (readOp fastdata) s.world.ctx.cmd) ∧
                s.world.ctx.paramIrLenBits = s'.world.ctx.paramIrLenBits ∧
                s.world.ctx.paramIrSkip = s'.world.ctx.paramIrSkip ∧
                s.world.ctx.paramIrData = s'.world.ctx.paramIrData ∧
                s.world.ctx.paramIrControl = s'.world.ctx.paramIrControl) ∧
              (s'.world.ctx.is64bitCpu = cpuIs64bit s'.world.ctx.cmd ∧
                s'.world.ctx.targetCore = atCpuCore s'.world.ctx.cmd ∧
                s'.world.ctx.useFastdata = fastdata) ∧
              s.world.ctx.useFastdata = false ∧
              s.world.ctx.is64bitCpu = cpuIs64bit s.world.ctx.cmd ∧
              s.world.ctx.targetCore = atCpuCore s.world.ctx.cmd ∧
              s.world.ctx.lastCores = s'.world.ctx.lastCores ∧
              s.world.ctx.paramIrLenBits = 5 ∧ readCores s.world.ctx.cmd = 1 ∧
              dataWidth s.world.ctx.cmd = 32)) = true := by
    -- Both runs are computed, for the read with and without FASTDATA.
    cases fastdata <;> decide +kernel
  obtain ⟨s, reach, ran⟩ := Machine.exists_reach _ rfl ran
  obtain ⟨s', reach', holds⟩ := Machine.exists_reach _ rfl ran
  obtain ⟨⟨pc, pc', fresh, fresh'⟩, ⟨isOp, command, irLen, irSkip, irData, irControl⟩,
    ⟨width', core', mode'⟩, mode, rest⟩ := of_decide_eq_true holds
  exact ⟨s, s', reach, reach', pc, pc', fresh, fresh',
    ⟨isOp, command, irLen, irSkip, irData, irControl⟩, mode, ⟨width', core', mode'⟩, rest⟩

/-- Without FASTDATA both histories are as good. -/
theorem oneCoreRead_agrees : ∃ s s', mainLoop.Reachable s ∧ mainLoop.Reachable s' ∧
    s.pc = .execute ∧ s'.pc = .execute ∧ SameRead s.world.ctx s'.world.ctx false ∧
    ReadSetupsAgree s.world s'.world false (fun _ => false) (fun _ => false) := by
  obtain ⟨s, s', reach, reach', pc, pc', -, -, same, mode, left', width, core, cores, ir, one,
    narrow⟩ := oneCoreRead_runs false
  refine ⟨s, s', reach, reach', pc, pc', same, ?_⟩
  apply (fast_read_setups_agree_iff reach reach' pc pc' false same _ _).mpr
  refine ⟨⟨width, core, mode⟩, left', .inr ?_, ?_⟩
  · rw [cores, same.irLen]
  · rw [one, ir, narrow]
    decide

/-- With FASTDATA, the read fails its assertion as the first command, which it
    passes behind the write. -/
theorem first_fastdata_read_asserts : ∃ s s', mainLoop.Reachable s ∧ mainLoop.Reachable s' ∧
    s.pc = .execute ∧ s'.pc = .execute ∧ s.world.ctx.continuation = false ∧
    s'.world.ctx.continuation = false ∧ SameRead s.world.ctx s'.world.ctx true ∧
    cmdimplFastMemRead s.world true (fun _ => false) = .error .assertFailed ∧
    (∃ start, cmdimplFastMemRead s'.world true (fun _ => false) = .ok (.cerContinue, start)) ∧
    ¬ReadSetupsAgree s.world s'.world true (fun _ => false) (fun _ => false) := by
  obtain ⟨s, s', reach, reach', pc, pc', fresh, fresh', same, mode, left', width, core, cores, ir,
    one, narrow⟩ := oneCoreRead_runs true
  have inv := mainLoop_inv reach
  have inv' := mainLoop_inv reach'
  have free := inv.engine.idle.periphFree (inv.pc.execute pc).1.noBlockA
  have free' := inv'.engine.idle.periphFree (inv'.pc.execute pc').1.noBlockA
  have cpuWidth : s.world.ctx.cpuWidth = 32 := by
    rw [LsejtagCtx.cpuWidth, width]
    exact narrow
  have cpuWidth' : s'.world.ctx.cpuWidth = 32 := by
    rw [left'.cpuWidth_eq, dataWidth, ← same.fields.2.1]
    exact narrow
  have fits : ReadFits (readCores s.world.ctx.cmd) s.world.ctx.paramIrLenBits.toNat
      s.world.ctx.cpuWidth true := by
    rw [one, ir, cpuWidth]
    decide
  have fits' : ReadFits (readCores s'.world.ctx.cmd) s'.world.ctx.paramIrLenBits.toNat
      s'.world.ctx.cpuWidth true := by
    rw [← same.readCores_eq, ← same.irLen, one, ir, cpuWidth']
    decide
  -- The length of a transfer without FASTDATA is computed for it
  have area : bit2dword (fastMemReadSetup s.world.ctx true).bitsPerXfer ≤ 64 := by
    rw [bitsPerXfer_readSetup, one, ir, cpuWidth, mode]
    decide
  have asserts := (fastMemRead_decided (fun _ => false) free fits area).2 (by simp [mode])
  refine ⟨s, s', reach, reach', pc, pc', fresh, fresh', same, asserts, ?_, ?_⟩
  · exact (fastMemRead_returns_iff _ free').mpr ⟨left'.mode, fits'⟩
  · intro agree
    obtain ⟨start, -, started, -⟩ := agree
    have returned := started.returned
    rw [asserts] at returned
    cases returned

end LoongsonEjtag
