import LoongsonEjtag.BitWriters
import LoongsonEjtag.Executed

/-! # The premade sequence of a fast write

`cmdimpl_fast_mem_write` builds the sequence of one transfer with `append_bits`
and `append_dword` in a cleared area, and copies it behind itself.

* `xferTms`, `xferTdi` — the sequence without FASTDATA as the comments in the
  source give it.
* `fastMemXfer_spells` — what is built.
* `copyXfer_spells` — a copy of the first transfer, at any alignment.
* `TemplateBuilt.reads` — every transfer of the template, in both buffers.
-/

namespace LoongsonEjtag

open Lib (Byte Dword u32 u32_eq sub32 sub32_eq bitAt lowBits length_lowBits bitsFrom Spells zeros
  forUpTo forUpTo_invariant bind_eq_ok)
open Wire

/-! ## Appending -/

namespace SeqBuf

/-- `back` and `skip` move the bitshift only.  The equations are proved field by
    field: compared as whole records, the wrap of `u32` would be unfolded. -/
theorem back_fields (s : SeqBuf) :
    s.back.tms = s.tms ∧ s.back.tdi = s.tdi ∧ s.back.bitshift = sub32 s.bitshift 1 := by
  obtain ⟨tms, tdi, bitshift⟩ := s
  simp only [back, and_self]

theorem skip_fields (s : SeqBuf) (bits : Nat) :
    (s.skip bits).tms = s.tms ∧ (s.skip bits).tdi = s.tdi ∧
      (s.skip bits).bitshift = u32 (s.bitshift + bits) := by
  obtain ⟨tms, tdi, bitshift⟩ := s
  simp only [skip, and_self]

end SeqBuf

section append

variable {limit bits : Nat} {field : Dword} {s s' : SeqBuf} {tms tdi : List Bool}

theorem appendTms_inside (appended : s.appendTms field bits = .ok s') : s'.bitshift < 2048 := by
  obtain ⟨buf, wrote, finished⟩ := bind_eq_ok.mp appended
  cases finished
  exact appendBits_inside wrote

theorem appendTms_spells (spells : Spells limit s.tms tms) (gap : Nat)
    (behind : s.bitshift = tms.length + gap) (appended : s.appendTms field bits = .ok s') :
    Spells limit s'.tms (tms ++ zeros gap ++ lowBits field bits) ∧
      s'.tdi = s.tdi ∧ s'.bitshift = s.bitshift + bits := by
  obtain ⟨buf, wrote, finished⟩ := bind_eq_ok.mp appended
  cases finished
  rw [behind] at wrote
  exact ⟨spells.adds_behind (appendBits_adds wrote), rfl, rfl⟩

/-- `--bitshift` in front of a TMS field. -/
theorem backTms_spells (spells : Spells limit s.tms tms) (gap : Nat)
    (behind : s.bitshift = tms.length + gap + 1) (small : s.bitshift < 2 ^ 32)
    (appended : s.back.appendTms field bits = .ok s') :
    Spells limit s'.tms (tms ++ zeros gap ++ lowBits field bits) ∧
      s'.tdi = s.tdi ∧ s'.bitshift = s.bitshift - 1 + bits := by
  obtain ⟨sameTms, sameTdi, moved⟩ := s.back_fields
  rw [sub32_eq (by omega) small] at moved
  rw [← sameTms] at spells
  obtain ⟨after, stillTdi, bitshift⟩ := appendTms_spells spells gap (by omega) appended
  exact ⟨after, stillTdi.trans sameTdi, by rw [bitshift, moved]⟩

/-- Bits left at zero in front of a TMS field. -/
theorem skipTms_spells (spells : Spells limit s.tms tms) {skipped : Nat} (gap : Nat)
    (behind : s.bitshift + skipped = tms.length + gap) (small : s.bitshift + skipped < 2 ^ 32)
    (appended : (s.skip skipped).appendTms field bits = .ok s') :
    Spells limit s'.tms (tms ++ zeros gap ++ lowBits field bits) ∧
      s'.tdi = s.tdi ∧ s'.bitshift = s.bitshift + skipped + bits := by
  obtain ⟨sameTms, sameTdi, moved⟩ := s.skip_fields skipped
  rw [u32_eq small] at moved
  rw [← sameTms] at spells
  obtain ⟨after, stillTdi, bitshift⟩ := appendTms_spells spells gap (by omega) appended
  exact ⟨after, stillTdi.trans sameTdi, by rw [bitshift, moved]⟩

theorem appendTdi_spells (spells : Spells limit s.tdi tdi) (gap : Nat)
    (behind : s.bitshift = tdi.length + gap) (appended : s.appendTdi field bits = .ok s') :
    Spells limit s'.tdi (tdi ++ zeros gap ++ lowBits field bits) ∧
      s'.tms = s.tms ∧ s'.bitshift = s.bitshift + bits := by
  obtain ⟨buf, wrote, finished⟩ := bind_eq_ok.mp appended
  cases finished
  rw [behind] at wrote
  exact ⟨spells.adds_behind (appendBits_adds wrote), rfl, rfl⟩

/-- A dword appended behind skipped bits. -/
theorem skipDword_spells {skipped : Nat} {word : DwordBuf} (spells : Spells limit s.tdi tdi)
    (gap : Nat) (behind : s.bitshift + skipped = tdi.length + gap)
    (room : s.bitshift + skipped + 32 ≤ limit) (small : limit < 2 ^ 32)
    (wrote : appendDword (s.skip skipped).tdi (s.skip skipped).bitshift field = .ok word) :
    Spells limit word (tdi ++ zeros gap ++ lowBits field 32) := by
  obtain ⟨-, sameTdi, moved⟩ := s.skip_fields skipped
  rw [u32_eq (by omega)] at moved
  rw [sameTdi, moved, behind] at wrote
  have clear : ∀ p, tdi.length + gap ≤ p → p < tdi.length + gap + 32 → bitAt s.tdi p = false := by
    intro p above below
    rw [spells p (by omega), List.getD_eq_default _ _ (by omega)]
  exact spells.adds_behind ((appendDword_puts wrote clear).adds clear)

/-- The IR bits of a chain, in the order in which they are shifted. -/
def chainBits (ctx : LsejtagCtx) (active : Byte) (coreAt : Nat → Nat) (count : Nat) : List Bool :=
  (List.range count).flatMap fun i =>
    lowBits ((if coreAt i = ctx.targetCore then active else ctx.paramIrSkip).setWidth 32)
      ctx.paramIrLenBits.toNat

@[simp] theorem length_chainBits (ctx : LsejtagCtx) (active : Byte) (coreAt : Nat → Nat)
    (count : Nat) :
    (chainBits ctx active coreAt count).length = count * ctx.paramIrLenBits.toNat := by
  induction count with
  | zero => simp [chainBits]
  | succ count ih =>
    rw [chainBits] at ih
    rw [chainBits, List.range_succ, List.flatMap_append, List.length_append, ih]
    simp [Nat.succ_mul]

theorem appendIr_spells {ctx : LsejtagCtx} {active : Byte} {coreAt : Nat → Nat}
    (chained : ctx.coreCount ≠ 0) (spells : Spells limit s.tdi tdi) (gap : Nat)
    (behind : s.bitshift = tdi.length + gap) (appended : appendIr ctx active coreAt s = .ok s') :
    Spells limit s'.tdi (tdi ++ zeros gap ++ chainBits ctx active coreAt ctx.coreCount) ∧
      s'.tms = s.tms ∧
      s'.bitshift = s.bitshift + ctx.coreCount * ctx.paramIrLenBits.toNat := by
  simp only [appendIr, if_pos chained] at appended
  let P : Nat → SeqBuf → Prop := fun i s' =>
    Spells limit s'.tdi (tdi ++ zeros gap ++ chainBits ctx active coreAt i) ∧
      s'.tms = s.tms ∧ s'.bitshift = s.bitshift + i * ctx.paramIrLenBits.toNat
  have start : P 0 s := by
    have padded := spells.pad gap
    exact ⟨by simpa [chainBits] using padded, rfl, by simp⟩
  refine forUpTo_invariant P start ?_ appended
  intro i before after _ holds wrote
  obtain ⟨soFar, sameTms, bitshift⟩ := holds
  have length : before.bitshift =
      (tdi ++ zeros gap ++ chainBits ctx active coreAt i).length + 0 := by
    simp only [List.length_append, Lib.length_zeros, length_chainBits, bitshift, behind]
    rfl
  obtain ⟨more, stillTms, moved⟩ := appendTdi_spells soFar 0 length wrote
  refine ⟨?_, stillTms.trans sameTms, ?_⟩
  · rw [Lib.zeros_zero, List.append_nil, List.append_assoc] at more
    rw [chainBits, List.range_succ, List.flatMap_append, List.flatMap_singleton]
    exact more
  · rw [moved, bitshift, Nat.succ_mul, Nat.add_assoc]

end append

/-! ## One transfer -/

/-- TMS of a transfer without FASTDATA: `01100`, zeros, `11100`, zeros, `111100`,
    zeros, `11100`, zeros, `110`. -/
def xferTms (irBits drBits skipbits : Nat) : List Bool :=
  [false, true, true, false, false] ++ zeros (irBits - 1) ++
    [true, true, true, false, false] ++ zeros (drBits - 1) ++
    [true, true, true, true, false, false] ++ zeros (irBits - 1) ++
    [true, true, true, false, false] ++ zeros (skipbits + 31) ++ [true, true, false]

/-- TDI of such a transfer: the IR bits that select DATA, room for the data, the
    IR bits that select CONTROL, and the control word behind its SKIP bits. -/
def xferTdi (data control : List Bool) (drBits skipbits : Nat) : List Bool :=
  zeros 5 ++ data ++ zeros (drBits + 9) ++ control ++ zeros (skipbits + 4) ++
    lowBits 0xc000 32 ++ zeros 2

theorem lowBits_shiftIr : lowBits 0x6 5 = [false, true, true, false, false] := by decide

theorem lowBits_shiftDr : lowBits 0x7 5 = [true, true, true, false, false] := by decide

theorem lowBits_shiftIr' : lowBits 0xf 6 = [true, true, true, true, false, false] := by decide

theorem lowBits_idle : lowBits 0x3 3 = [true, true, false] := by decide

theorem fastMemXfer_spells {ctx : LsejtagCtx} {limit skipbits : Nat} {s s' : SeqBuf}
    (chained : ctx.coreCount ≠ 0) (ir : 0 < ctx.paramIrLenBits.toNat)
    (dr : 0 < ctx.drseqBitlen)
    (room : 2 * (ctx.coreCount * ctx.paramIrLenBits.toNat) + ctx.drseqBitlen + skipbits + 52 ≤
      limit)
    (small : limit < 2 ^ 32) (tms : Spells limit s.tms []) (tdi : Spells limit s.tdi [])
    (start : s.bitshift = 0) (built : fastMemXfer ctx false skipbits s = .ok s') :
    Spells limit s'.tms (xferTms (ctx.coreCount * ctx.paramIrLenBits.toNat) ctx.drseqBitlen
        skipbits) ∧
      Spells limit s'.tdi (xferTdi
        (chainBits ctx ctx.paramIrData (lastCoreFirst ctx) ctx.coreCount)
        (chainBits ctx ctx.paramIrControl id ctx.coreCount) ctx.drseqBitlen skipbits) ∧
      s'.bitshift =
        2 * (ctx.coreCount * ctx.paramIrLenBits.toNat) + ctx.drseqBitlen + skipbits + 52 := by
  have irBits : 0 < ctx.coreCount * ctx.paramIrLenBits.toNat :=
    Nat.mul_pos (Nat.pos_of_ne_zero chained) ir
  simp only [fastMemXfer, Bool.false_eq_true, if_false] at built
  obtain ⟨s₁, shiftIr, built⟩ := bind_eq_ok.mp built
  obtain ⟨s₂, data, built⟩ := bind_eq_ok.mp built
  obtain ⟨s₃, shiftDr, built⟩ := bind_eq_ok.mp built
  obtain ⟨s₄, shiftIr', built⟩ := bind_eq_ok.mp built
  obtain ⟨s₅, control, built⟩ := bind_eq_ok.mp built
  obtain ⟨s₆, shiftDr', built⟩ := bind_eq_ok.mp built
  obtain ⟨word, wrote, idle⟩ := bind_eq_ok.mp built
  generalize isL : ctx.coreCount * ctx.paramIrLenBits.toNat = L at *
  have drLess : sub32 ctx.drseqBitlen 1 = ctx.drseqBitlen - 1 := sub32_eq dr (by omega)
  rw [drLess] at shiftIr'
  -- 01100, and the IR bits behind it.
  obtain ⟨tms₁, tdi₁, at₁⟩ := appendTms_spells tms 0 start shiftIr
  rw [← tdi₁] at tdi
  obtain ⟨tdi₂, tms₂, at₂⟩ := appendIr_spells chained tdi 5 (by simp; omega) data
  rw [isL] at at₂
  rw [← tms₂] at tms₁
  -- 11100 starts on the last of them.
  obtain ⟨tms₃, tdi₃, at₃⟩ := backTms_spells tms₁ (L - 1) (by simp; omega) (by omega) shiftDr
  -- 111100 behind the data.
  obtain ⟨tms₄, tdi₄, at₄⟩ := skipTms_spells tms₃ (ctx.drseqBitlen - 1) (by simp; omega)
    (by omega) shiftIr'
  rw [← tdi₄.trans tdi₃] at tdi₂
  obtain ⟨tdi₅, tms₅, at₅⟩ := appendIr_spells chained tdi₂ (ctx.drseqBitlen + 9)
    (by simp; omega) control
  rw [isL] at at₅
  rw [← tms₅] at tms₄
  -- 11100, the control word, and 110 on its last bit.
  obtain ⟨tms₆, tdi₆, at₆⟩ := backTms_spells tms₄ (L - 1) (by simp; omega) (by omega) shiftDr'
  rw [← tdi₆] at tdi₅
  have tdi₇ := skipDword_spells tdi₅ (skipbits + 4) (by simp; omega) (by omega) small wrote
  obtain ⟨sameTms, -, at₇⟩ := s₆.skip_fields skipbits
  rw [u32_eq (by omega)] at at₇
  rw [← sameTms] at tms₆
  generalize s₆.skip skipbits = s₇ at idle tms₆ at₇
  obtain ⟨sameTms', sameTdi', at₈⟩ := SeqBuf.skip_fields { s₇ with tdi := word } 32
  change _ = u32 (s₇.bitshift + 32) at at₈
  rw [u32_eq (by omega)] at at₈
  rw [show s₇.tms = _ from sameTms'.symm] at tms₆
  rw [show word = _ from sameTdi'.symm] at tdi₇
  generalize SeqBuf.skip { s₇ with tdi := word } 32 = s₈ at idle tms₆ tdi₇ at₈
  obtain ⟨tms₉, tdi₉, at₉⟩ := backTms_spells tms₆ (skipbits + 31) (by simp; omega) (by omega) idle
  rw [← tdi₉] at tdi₇
  refine ⟨?_, ?_, by omega⟩
  · rw [lowBits_shiftIr, lowBits_shiftDr, lowBits_shiftIr', lowBits_idle] at tms₉
    exact tms₉
  · rw [xferTdi]
    exact (tdi₇.pad 2)

/-- The last field appended lies inside the buffer. -/
theorem fastMemXfer_inside {ctx : LsejtagCtx} {fastdata : Bool} {skipbits : Nat} {s s' : SeqBuf}
    (built : fastMemXfer ctx fastdata skipbits s = .ok s') : s'.bitshift < 2048 := by
  cases fastdata with
  | true =>
    simp only [fastMemXfer, if_true] at built
    obtain ⟨_, -, idle⟩ := bind_eq_ok.mp built
    exact appendTms_inside idle
  | false =>
    simp only [fastMemXfer, Bool.false_eq_true, if_false] at built
    obtain ⟨_, -, built⟩ := bind_eq_ok.mp built
    obtain ⟨_, -, built⟩ := bind_eq_ok.mp built
    obtain ⟨_, -, built⟩ := bind_eq_ok.mp built
    obtain ⟨_, -, built⟩ := bind_eq_ok.mp built
    obtain ⟨_, -, built⟩ := bind_eq_ok.mp built
    obtain ⟨_, -, built⟩ := bind_eq_ok.mp built
    obtain ⟨_, -, idle⟩ := bind_eq_ok.mp built
    exact appendTms_inside idle

/-! ## Copies -/

section copy

variable {limit : Nat} {first rest : List Bool}

/-- A dword of the first transfer, read back from the buffer. -/
theorem lowBits_read {buf : DwordBuf} {j count : Nat} {value : Dword}
    (spells : Spells limit buf (first ++ rest)) (wasRead : buf.read j = .ok value)
    (few : count ≤ 32) (inside : 32 * j + count ≤ first.length) (room : first.length ≤ limit) :
    lowBits value count = (first.drop (32 * j)).take count := by
  apply List.ext_getElem
  · simp
    omega
  · intro k below _
    rw [length_lowBits] at below
    simp only [lowBits, List.getElem_map, List.getElem_range, List.getElem_take,
      List.getElem_drop]
    rw [DwordBuf.read_bits wasRead (by omega), spells _ (by omega),
      List.getD_append _ _ _ _ (by omega), List.getD_eq_getElem _ _ (by omega)]

theorem copyDword_spells {buf buf' : DwordBuf} {j : Nat} {value : Dword}
    (spells : Spells limit buf (first ++ rest)) (wasRead : buf.read j = .ok value)
    (inside : 32 * j + 32 ≤ first.length) (room : first.length + rest.length + 32 ≤ limit)
    (wrote : appendDword buf (first.length + rest.length) value = .ok buf') :
    Spells limit buf' (first ++ (rest ++ (first.drop (32 * j)).take 32)) := by
  have length : (first ++ rest).length = first.length + rest.length := List.length_append
  have clear : ∀ p, first.length + rest.length ≤ p → p < first.length + rest.length + 32 →
      bitAt buf p = false := by
    intro p above below
    rw [spells p (by omega), List.getD_eq_default _ _ (by omega)]
  have added := (appendDword_puts wrote clear).adds clear
  rw [← length] at added
  rw [← lowBits_read spells wasRead le_rfl inside (by omega), ← List.append_assoc]
  exact spells.adds added

theorem copyBits_spells {buf buf' : DwordBuf} {j bits : Nat} {value : Dword}
    (spells : Spells limit buf (first ++ rest)) (wasRead : buf.read j = .ok value)
    (few : bits ≤ 32) (inside : 32 * j + bits ≤ first.length) (room : first.length ≤ limit)
    (wrote : appendBits buf (first.length + rest.length) value bits = .ok buf') :
    Spells limit buf' (first ++ (rest ++ (first.drop (32 * j)).take bits)) := by
  have added := appendBits_adds wrote
  rw [← List.length_append] at added
  rw [← lowBits_read spells wasRead few inside room, ← List.append_assoc]
  exact spells.adds added

variable {first' rest' : List Bool} {s s' : SeqBuf} {newTms newTdi : DwordBuf}
  {tmsDword tdiDword : Dword}

/-- `count` bits of the first transfer stand behind the others again. -/
structure CopiedBits (limit : Nat) (first rest first' rest' : List Bool) (count : Nat)
    (s : SeqBuf) : Prop where
  tms : Spells limit s.tms (first ++ (rest ++ first.take count))
  tdi : Spells limit s.tdi (first' ++ (rest' ++ first'.take count))
  moved : s.bitshift = first.length + rest.length + count

theorem CopiedBits.dword {j : Nat} (copied : CopiedBits limit first rest first' rest' (32 * j) s)
    (length : first'.length = first.length) (length' : rest'.length = rest.length)
    (room : first.length + rest.length + first.length ≤ limit) (below : j < first.length / 32)
    (readTms : s.tms.read j = .ok tmsDword) (readTdi : s.tdi.read j = .ok tdiDword)
    (wroteTms : appendDword s.tms s.bitshift tmsDword = .ok newTms)
    (wroteTdi : appendDword s.tdi s.bitshift tdiDword = .ok newTdi) :
    CopiedBits limit first rest first' rest' (32 * (j + 1)) ⟨newTms, newTdi, s.bitshift + 32⟩ := by
  obtain ⟨tms, tdi, moved⟩ := copied
  have taken : (rest ++ first.take (32 * j)).length = rest.length + 32 * j := by
    simp
    omega
  have taken' : (rest' ++ first'.take (32 * j)).length = rest'.length + 32 * j := by
    simp
    omega
  have next := copyDword_spells tms readTms (by omega) (by omega)
    (by rw [taken, ← Nat.add_assoc, ← moved]; exact wroteTms)
  have next' := copyDword_spells tdi readTdi (by omega) (by omega)
    (by rw [taken', ← Nat.add_assoc, length, length', ← moved]; exact wroteTdi)
  rw [List.append_assoc, ← List.take_add] at next next'
  exact ⟨next, next', by rw [Nat.mul_succ, ← Nat.add_assoc, ← moved]⟩

/-- The bits behind the last full dword. -/
theorem CopiedBits.leftover {j bits : Nat}
    (copied : CopiedBits limit first rest first' rest' (32 * j) s)
    (length : first'.length = first.length) (length' : rest'.length = rest.length)
    (room : first.length ≤ limit) (few : bits ≤ 32) (split : 32 * j + bits = first.length)
    (readTms : s.tms.read j = .ok tmsDword) (readTdi : s.tdi.read j = .ok tdiDword)
    (wroteTms : appendBits s.tms s.bitshift tmsDword bits = .ok newTms)
    (wroteTdi : appendBits s.tdi s.bitshift tdiDword bits = .ok newTdi) :
    CopiedBits limit first rest first' rest' first.length
      ⟨newTms, newTdi, s.bitshift + bits⟩ := by
  obtain ⟨tms, tdi, moved⟩ := copied
  have taken : (rest ++ first.take (32 * j)).length = rest.length + 32 * j := by
    simp
    omega
  have taken' : (rest' ++ first'.take (32 * j)).length = rest'.length + 32 * j := by
    simp
    omega
  have next := copyBits_spells tms readTms few (by omega) (by omega)
    (by rw [taken, ← Nat.add_assoc, ← moved]; exact wroteTms)
  have next' := copyBits_spells tdi readTdi few (by omega) (by omega)
    (by rw [taken', ← Nat.add_assoc, length, length', ← moved]; exact wroteTdi)
  rw [List.append_assoc, ← List.take_add, split] at next next'
  refine ⟨next, next', ?_⟩
  change s.bitshift + bits = _
  omega

/-- The first transfer is copied behind the others: its full dwords are no longer
    written to while they are read, and the mask of `append_bits` cuts the last
    one. -/
theorem copyXfer_spells (tms : Spells limit s.tms (first ++ rest))
    (tdi : Spells limit s.tdi (first' ++ rest')) (length : first'.length = first.length)
    (length' : rest'.length = rest.length) (bitshift : s.bitshift = first.length + rest.length)
    (room : s.bitshift + first.length ≤ limit) (copied : copyXfer first.length s = .ok s') :
    Spells limit s'.tms (first ++ (rest ++ first)) ∧
      Spells limit s'.tdi (first' ++ (rest' ++ first')) ∧
      s'.bitshift = s.bitshift + first.length := by
  rw [bitshift] at room
  obtain ⟨middle, dwords, leftover⟩ := bind_eq_ok.mp copied
  have start : CopiedBits limit first rest first' rest' (32 * 0) s := by
    refine ⟨?_, ?_, bitshift⟩
    · simpa using tms
    · simpa using tdi
  -- The loop invariant: after `j` dwords the first `32 * j` bits are copied.
  have dwords : CopiedBits limit first rest first' rest' (32 * (first.length / 32)) middle := by
    refine forUpTo_invariant (fun j => CopiedBits limit first rest first' rest' (32 * j)) start ?_
      dwords
    intro j before after below holds wrote
    obtain ⟨tdiDword, readTdi, wrote⟩ := bind_eq_ok.mp wrote
    obtain ⟨newTdi, wroteTdi, wrote⟩ := bind_eq_ok.mp wrote
    obtain ⟨tmsDword, readTms, wrote⟩ := bind_eq_ok.mp wrote
    obtain ⟨newTms, wroteTms, finished⟩ := bind_eq_ok.mp wrote
    cases finished
    exact holds.dword length length' room below readTms readTdi wroteTms wroteTdi
  have all : CopiedBits limit first rest first' rest' first.length s' := by
    split at leftover
    · obtain ⟨tdiDword, readTdi, leftover⟩ := bind_eq_ok.mp leftover
      obtain ⟨newTdi, wroteTdi, leftover⟩ := bind_eq_ok.mp leftover
      obtain ⟨tmsDword, readTms, leftover⟩ := bind_eq_ok.mp leftover
      obtain ⟨newTms, wroteTms, finished⟩ := bind_eq_ok.mp leftover
      cases finished
      exact dwords.leftover length length' (by omega) (by omega) (Nat.div_add_mod _ _) readTms
        readTdi wroteTms wroteTdi
    · -- Nothing is left over.
      have whole : 32 * (first.length / 32) = first.length := by omega
      rw [whole] at dwords
      rw [← Except.ok.inj leftover]
      exact dwords
  obtain ⟨allTms, allTdi, moved⟩ := all
  rw [List.take_length] at allTms
  rw [← length, List.take_length] at allTdi
  exact ⟨allTms, allTdi, by rw [moved, bitshift]⟩

end copy

/-! ## The template -/

/-- `count` transfers in a row. -/
def copies (count : Nat) (xfer : List Bool) : List Bool := (List.replicate count xfer).flatten

@[simp] theorem length_copies (count : Nat) (xfer : List Bool) :
    (copies count xfer).length = count * xfer.length := by
  simp [copies]

theorem copies_add (first second : Nat) (xfer : List Bool) :
    copies (first + second) xfer = copies first xfer ++ copies second xfer := by
  rw [copies, copies, copies, List.replicate_add, List.flatten_append]

@[simp] theorem copies_one (xfer : List Bool) : copies 1 xfer = xfer := by
  simp [copies]

/-- One more transfer, in front or behind. -/
theorem copies_succ (count : Nat) (xfer : List Bool) :
    copies (count + 1) xfer = xfer ++ copies count xfer ∧
      copies (count + 1) xfer = copies count xfer ++ xfer := by
  constructor
  · rw [Nat.add_comm, copies_add, copies_one]
  · rw [copies_add, copies_one]

/-- Transfer `i` of the template reads like the first one. -/
theorem bitsFrom_copies {limit count i : Nat} {buf : DwordBuf} {xfer : List Bool}
    (spells : Spells limit buf (copies count xfer)) (below : i < count)
    (room : count * xfer.length ≤ limit) :
    bitsFrom buf (i * xfer.length) xfer.length = xfer := by
  have split : copies count xfer = copies i xfer ++ xfer ++ copies (count - (i + 1)) xfer := by
    have index : count = i + 1 + (count - (i + 1)) := by omega
    conv_lhs => rw [index, copies_add, copies_add, copies_one]
  rw [split] at spells
  have upTo : (i + 1) * xfer.length ≤ count * xfer.length := Nat.mul_le_mul_right _ below
  rw [Nat.succ_mul] at upTo
  have read := spells.bitsFrom_eq (by rw [length_copies]; omega)
  rw [length_copies] at read
  exact read

theorem copyXfers_spells {limit count : Nat} {tms tdi : List Bool} {s s' : SeqBuf}
    (spellsTms : Spells limit s.tms tms) (spellsTdi : Spells limit s.tdi tdi)
    (length : tdi.length = tms.length) (bitshift : s.bitshift = tms.length) (some : 1 ≤ count)
    (room : count * tms.length ≤ limit)
    (copied : forUpTo (fun _ => copyXfer tms.length) (count - 1) s = .ok s') :
    Spells limit s'.tms (copies count tms) ∧ Spells limit s'.tdi (copies count tdi) := by
  obtain ⟨rounds, rfl⟩ := Nat.exists_eq_add_of_le' some
  rw [Nat.add_sub_cancel] at copied
  let P : Nat → SeqBuf → Prop := fun i s' =>
    Spells limit s'.tms (copies (i + 1) tms) ∧ Spells limit s'.tdi (copies (i + 1) tdi) ∧
      s'.bitshift = (i + 1) * tms.length
  have start : P 0 s := by
    refine ⟨?_, ?_, ?_⟩
    · rw [Nat.zero_add, copies_one]
      exact spellsTms
    · rw [Nat.zero_add, copies_one]
      exact spellsTdi
    · rw [Nat.zero_add, Nat.one_mul]
      exact bitshift
  obtain ⟨tms, tdi, -⟩ : P rounds s' := by
    refine forUpTo_invariant P start ?_ copied
    intro i before after below holds wrote
    obtain ⟨soFar, soFar', moved⟩ := holds
    rw [(copies_succ i tms).1] at soFar
    rw [(copies_succ i tdi).1] at soFar'
    have upTo : (i + 2) * tms.length ≤ (rounds + 1) * tms.length :=
      Nat.mul_le_mul_right _ (by omega)
    rw [Nat.add_mul] at upTo moved
    obtain ⟨next, next', ends⟩ := copyXfer_spells soFar soFar' length
      (by rw [length_copies, length_copies, length]) (by rw [length_copies]; omega) (by omega) wrote
    rw [← (copies_succ i tms).2, ← (copies_succ (i + 1) tms).1] at next
    rw [← (copies_succ i tdi).2, ← (copies_succ (i + 1) tdi).1] at next'
    refine ⟨next, next', ?_⟩
    rw [ends, Nat.add_mul, Nat.add_mul]
    omega
  exact ⟨tms, tdi⟩

theorem length_xferTms {irBits drBits : Nat} (skipbits : Nat) (ir : 0 < irBits)
    (dr : 0 < drBits) :
    (xferTms irBits drBits skipbits).length = 2 * irBits + drBits + skipbits + 52 := by
  simp only [xferTms, List.length_append, List.length_cons, List.length_nil, Lib.length_zeros]
  omega

theorem length_xferTdi {data control : List Bool} {irBits : Nat} (drBits skipbits : Nat)
    (first : data.length = irBits) (second : control.length = irBits) :
    (xferTdi data control drBits skipbits).length = 2 * irBits + drBits + skipbits + 52 := by
  simp only [xferTdi, List.length_append, length_lowBits, Lib.length_zeros]
  omega

/-- What `cmdimpl_fast_mem_write` works out, without FASTDATA for a chain. -/
theorem fastMemWriteSetup_chained {ctx : LsejtagCtx} (chained : chainedCoreCount ctx.cmd ≠ 0)
    (ir : 0 < ctx.paramIrLenBits.toNat) :
    (fastMemWriteSetup ctx false).coreCount = chainedCoreCount ctx.cmd ∧
      (fastMemWriteSetup ctx false).targetCore = atCpuCore ctx.cmd ∧
      32 ≤ (fastMemWriteSetup ctx false).drseqBitlen ∧
      (fastMemWriteSetup ctx false).bitsPerXfer =
        2 * (chainedCoreCount ctx.cmd * ctx.paramIrLenBits.toNat) +
          (fastMemWriteSetup ctx false).drseqBitlen + (chainedCoreCount ctx.cmd - 1) + 52 := by
  have few : chainedCoreCount ctx.cmd < 128 := Nat.mod_lt _ (by decide)
  have short : chainedCoreCount ctx.cmd * ctx.paramIrLenBits.toNat ≤ 127 * 255 :=
    Nat.mul_le_mul (by omega) (Nat.le_of_lt_succ ctx.paramIrLenBits.isLt)
  have some : 0 < chainedCoreCount ctx.cmd * ctx.paramIrLenBits.toNat :=
    Nat.mul_pos (Nat.pos_of_ne_zero chained) ir
  refine ⟨rfl, if_pos chained, ?_, ?_⟩
  · simp only [fastMemWriteSetup]
    cases cpuIs64bit ctx.cmd <;> simp only [if_true, Bool.false_eq_true, if_false] <;> omega
  · simp only [fastMemWriteSetup, fastMemRwGetBitsPerXfer, if_pos chained, Bool.false_eq_true,
      if_false]
    generalize chainedCoreCount ctx.cmd * ctx.paramIrLenBits.toNat = irBits at *
    have inner : u32 (sub32 irBits 1 + (chainedCoreCount ctx.cmd - 1)) =
        irBits - 1 + (chainedCoreCount ctx.cmd - 1) := by
      rw [sub32_eq some (by omega), u32_eq (by omega)]
    rw [inner]
    cases cpuIs64bit ctx.cmd with
    | true =>
      rw [if_pos rfl, if_pos rfl, u32_eq (by omega)]
      omega
    | false =>
      rw [if_neg (by decide), if_neg (by decide), u32_eq (by omega)]
      omega

theorem bitsFrom_copyFrom {buf buf' src : DwordBuf} {count offset bits : Nat}
    (copied : buf.copyFrom src count = .ok buf') (inside : offset + bits ≤ 32 * count) :
    bitsFrom buf' offset bits = bitsFrom src offset bits := by
  rw [bitsFrom, bitsFrom]
  apply List.map_congr_left
  intro k below
  have := List.mem_range.mp below
  rw [DwordBuf.copyFrom_bits copied, if_pos (by omega)]

/-- A cleared area holds nothing. -/
theorem DwordBuf.clear_spells {old cleared : DwordBuf} {count : Nat}
    (clear : old.clear count = .ok cleared) : Spells (32 * count) cleared [] := by
  intro p inside
  rw [DwordBuf.clear_bits clear, decide_eq_false (by omega)]
  rfl

/-- The cleared area holds the transfers with every one rounded up to dwords. -/
theorem le_clearedArea (count bits : Nat) : count * bits ≤ 32 * (bit2dword bits * count) := by
  have rounded : bits ≤ 32 * bit2dword bits := by
    rw [bit2dword]
    omega
  rw [← Nat.mul_assoc, Nat.mul_comm]
  exact Nat.mul_le_mul_right _ rounded

/-- One transfer, built in a cleared area and copied, for a chain whose IR bits
    and transfer length are `irBits` and `xferBits`. -/
theorem built_template {ctx : LsejtagCtx} {tmsData tdiData tms tdi : DwordBuf} {s s' : SeqBuf}
    {count : Nat} (chained : ctx.coreCount ≠ 0) (ir : 0 < ctx.paramIrLenBits.toNat)
    (dr : 0 < ctx.drseqBitlen)
    (bits : ctx.bitsPerXfer = 2 * (ctx.coreCount * ctx.paramIrLenBits.toNat) +
      ctx.drseqBitlen + (ctx.coreCount - 1) + 52)
    (clearTms : tmsData.clear (bit2dword ctx.bitsPerXfer * count) = .ok tms)
    (clearTdi : tdiData.clear (bit2dword ctx.bitsPerXfer * count) = .ok tdi)
    (first : fastMemXfer ctx false (ctx.coreCount - 1) { tms, tdi, bitshift := 0 } = .ok s)
    (copied : forUpTo (fun _ => copyXfer ctx.bitsPerXfer) (count - 1) s = .ok s') {i : Nat}
    (below : i < count) :
    bitsFrom s'.tms (i * ctx.bitsPerXfer) ctx.bitsPerXfer =
        xferTms (ctx.coreCount * ctx.paramIrLenBits.toNat) ctx.drseqBitlen (ctx.coreCount - 1) ∧
      bitsFrom s'.tdi (i * ctx.bitsPerXfer) ctx.bitsPerXfer =
        xferTdi (chainBits ctx ctx.paramIrData (lastCoreFirst ctx) ctx.coreCount)
          (chainBits ctx ctx.paramIrControl id ctx.coreCount) ctx.drseqBitlen
          (ctx.coreCount - 1) := by
  have irBits : 0 < ctx.coreCount * ctx.paramIrLenBits.toNat :=
    Nat.mul_pos (Nat.pos_of_ne_zero chained) ir
  have lengthTms := length_xferTms (ctx.coreCount - 1) irBits dr
  have lengthTdi := length_xferTdi ctx.drseqBitlen (ctx.coreCount - 1)
    (length_chainBits ctx ctx.paramIrData (lastCoreFirst ctx) ctx.coreCount)
    (length_chainBits ctx ctx.paramIrControl id ctx.coreCount)
  rw [← bits] at lengthTms lengthTdi
  have area := le_clearedArea count ctx.bitsPerXfer
  have one : ctx.bitsPerXfer ≤ count * ctx.bitsPerXfer := Nat.le_mul_of_pos_left _ (by omega)
  have dwords := DwordBuf.clear_inside clearTms
  obtain ⟨spellsTms, spellsTdi, bitshift⟩ := fastMemXfer_spells chained ir dr (by omega)
    (by omega) (DwordBuf.clear_spells clearTms) (DwordBuf.clear_spells clearTdi) rfl first
  rw [← bits, ← lengthTms] at bitshift
  rw [← lengthTms] at copied
  -- The built transfer is repeated, so copy `i` reads back as the first.
  obtain ⟨allTms, allTdi⟩ := copyXfers_spells spellsTms spellsTdi (lengthTdi.trans lengthTms.symm)
    bitshift (by omega) (by rw [lengthTms]; exact area) copied
  have readTms := bitsFrom_copies allTms below (by rw [lengthTms]; exact area)
  have readTdi := bitsFrom_copies allTdi below (by rw [lengthTdi]; exact area)
  rw [lengthTms] at readTms
  rw [lengthTdi] at readTdi
  exact ⟨readTms, readTdi⟩

/-- How the premade sequences came about that a setup without FASTDATA leaves in
    the two buffers. -/
structure TemplateBuilt (ctx : LsejtagCtx) (start : World) : Prop where
  built : ∃ (tmsData tdiData tms tdi : DwordBuf) (s s' : SeqBuf),
    tmsData.clear (bit2dword ctx.bitsPerXfer * ctx.xfersPerBufblk) = .ok tms ∧
    tdiData.clear (bit2dword ctx.bitsPerXfer * ctx.xfersPerBufblk) = .ok tdi ∧
    fastMemXfer ctx false (ctx.coreCount - 1) { tms, tdi, bitshift := 0 } = .ok s ∧
    s.bitshift = ctx.bitsPerXfer ∧
    forUpTo (fun _ => copyXfer ctx.bitsPerXfer) (ctx.xfersPerBufblk - 1) s = .ok s' ∧
    start.ctx.jtagbufA.tmsData = s'.tms ∧ start.ctx.jtagbufA.tdiData = s'.tdi
  copiedTms : ∃ old : DwordBuf, old.copyFrom start.ctx.jtagbufA.tmsData
    (bit2dword ctx.tdiBitlen) = .ok start.ctx.jtagbufB.tmsData
  copiedTdi : ∃ old : DwordBuf, old.copyFrom start.ctx.jtagbufA.tdiData
    (bit2dword ctx.tdiBitlen) = .ok start.ctx.jtagbufB.tdiData
  cont : start.ctx.xfersPerBufblk = ctx.xfersPerBufblk

theorem templateBuilt {w start : World} {tdo : Nat → Bool} {r : LsejtagCmdExecResult}
    (setup : cmdimplFastMemWrite w false tdo = .ok (r, start)) :
    TemplateBuilt (fastMemWriteSetup w.ctx false) start := by
  obtain ⟨-, -, selected, tms, tdi, tmsB, tdiB, s, s', select, clearTms, clearTdi, first, passed,
    copied, copyTms, copyTdi, rfl⟩ := cmdimplFastMemWrite_built setup
  cases select
  exact ⟨⟨_, _, tms, tdi, s, s', clearTms, clearTdi, first, passed, copied, rfl, rfl⟩,
    ⟨_, copyTms⟩, ⟨_, copyTdi⟩, rfl⟩

/-- Every transfer of the template reads like the documented sequence, in both
    buffers and whatever they held before. -/
theorem TemplateBuilt.reads {ctx : LsejtagCtx} {start : World} (template : TemplateBuilt ctx start)
    (chained : ctx.coreCount ≠ 0) (ir : 0 < ctx.paramIrLenBits.toNat) (dr : 0 < ctx.drseqBitlen)
    (bits : ctx.bitsPerXfer = 2 * (ctx.coreCount * ctx.paramIrLenBits.toNat) +
      ctx.drseqBitlen + (ctx.coreCount - 1) + 52)
    (total : ctx.tdiBitlen = ctx.xfersPerBufblk * ctx.bitsPerXfer) (block : BufId) {i : Nat}
    (below : i < start.ctx.xfersPerBufblk) :
    bitsFrom (start.ctx.jtagbuf block).tmsData (i * ctx.bitsPerXfer) ctx.bitsPerXfer =
        xferTms (ctx.coreCount * ctx.paramIrLenBits.toNat) ctx.drseqBitlen (ctx.coreCount - 1) ∧
      bitsFrom (start.ctx.jtagbuf block).tdiData (i * ctx.bitsPerXfer) ctx.bitsPerXfer =
        xferTdi (chainBits ctx ctx.paramIrData (lastCoreFirst ctx) ctx.coreCount)
          (chainBits ctx ctx.paramIrControl id ctx.coreCount) ctx.drseqBitlen
          (ctx.coreCount - 1) := by
  obtain ⟨⟨_, _, tms, tdi, s, s', clearTms, clearTdi, first, -, copied, tmsA, tdiA⟩,
    ⟨_, copyTms⟩, ⟨_, copyTdi⟩, cont⟩ := template
  rw [cont] at below
  have reads := built_template chained ir dr bits clearTms clearTdi first copied below
  rw [← tmsA, ← tdiA] at reads
  cases block with
  | a => exact reads
  | b =>
    have inside : i * ctx.bitsPerXfer + ctx.bitsPerXfer ≤ 32 * bit2dword ctx.tdiBitlen := by
      have upTo : (i + 1) * ctx.bitsPerXfer ≤ ctx.xfersPerBufblk * ctx.bitsPerXfer :=
        Nat.mul_le_mul_right _ below
      rw [Nat.succ_mul, ← total] at upTo
      rw [bit2dword]
      omega
    rw [LsejtagCtx.jtagbuf_b, bitsFrom_copyFrom copyTms inside, bitsFrom_copyFrom copyTdi inside]
    exact reads

/-- A transfer that was built fits. -/
theorem TemplateBuilt.fits {ctx : LsejtagCtx} {start : World} (template : TemplateBuilt ctx start) :
    ctx.bitsPerXfer ≤ 2048 := by
  obtain ⟨⟨_, _, tms, tdi, s, -, -, -, first, bitshift, -⟩, -⟩ := template
  have inside := fastMemXfer_inside first
  omega

end LoongsonEjtag
