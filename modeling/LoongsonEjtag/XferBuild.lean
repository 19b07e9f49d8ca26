import LoongsonEjtag.Lib.Tap
import LoongsonEjtag.Placement
import LoongsonEjtag.XferTemplate
import Mathlib.Data.Nat.Prime.Basic

/-! # Building the first transfer of a fast write

No write into the JTAG buffer fails as long as the sequence ends before the end
of the buffer.

* `builtBits` — the bits that are appended; `fastMemXfer_builds` — a transfer
  that fits is built and has that many; `fastMemXfer_moves` — so has every
  transfer that was built.
* `copyXfers_total` — it can be copied until the buffer is full.
-/

namespace LoongsonEjtag

open Lib (Byte Dword u32 u32_eq sub32 sub32_eq bitsFrom Spells zeros TapState forUpTo
  forUpTo_invariant forUpTo_total bind_eq_ok)
open Wire

/-! ## Appending inside the buffer -/

section builds

variable {s : SeqBuf}

theorem appendTms_builds (s : SeqBuf) (field : Dword) (bits : Nat) (few : bits < 32)
    (inside : s.bitshift + bits < 2048) :
    ∃ s', s.appendTms field bits = .ok s' ∧ s'.bitshift = s.bitshift + bits := by
  obtain ⟨tms, wrote⟩ := appendBits_total s.tms field s.bitshift few inside
  rw [SeqBuf.appendTms, wrote, Lib.ok_bind]
  exact ⟨_, rfl, rfl⟩

theorem backTms_builds (s : SeqBuf) (field : Dword) (bits : Nat) (few : bits < 32)
    (some : 1 ≤ s.bitshift) (inside : s.bitshift - 1 + bits < 2048) :
    ∃ s', s.back.appendTms field bits = .ok s' ∧ s'.bitshift = s.bitshift - 1 + bits := by
  obtain ⟨-, -, moved⟩ := s.back_fields
  rw [sub32_eq some (by omega)] at moved
  rw [← moved] at inside ⊢
  exact appendTms_builds s.back field bits few inside

theorem skipTms_builds (s : SeqBuf) (field : Dword) (skipped bits : Nat) (few : bits < 32)
    (inside : s.bitshift + skipped + bits < 2048) :
    ∃ s', (s.skip skipped).appendTms field bits = .ok s' ∧
      s'.bitshift = s.bitshift + skipped + bits := by
  obtain ⟨-, -, moved⟩ := s.skip_fields skipped
  rw [u32_eq (by omega)] at moved
  rw [← moved] at inside ⊢
  exact appendTms_builds (s.skip skipped) field bits few inside

theorem appendTdi_builds (s : SeqBuf) (field : Dword) {bits : Nat} (few : bits < 32)
    (inside : s.bitshift + bits < 2048) :
    ∃ s', s.appendTdi field bits = .ok s' ∧ s'.bitshift = s.bitshift + bits := by
  obtain ⟨tdi, wrote⟩ := appendBits_total s.tdi field s.bitshift few inside
  rw [SeqBuf.appendTdi, wrote, Lib.ok_bind]
  exact ⟨_, rfl, rfl⟩

/-- IR fields of a scan; without a chain there is one. -/
def irFields (ctx : LsejtagCtx) : Nat := if ctx.coreCount ≠ 0 then ctx.coreCount else 1

theorem appendIr_builds (ctx : LsejtagCtx) (active : Byte) (coreAt : Nat → Nat) (s : SeqBuf)
    (few : ctx.paramIrLenBits.toNat < 32)
    (inside : s.bitshift + irFields ctx * ctx.paramIrLenBits.toNat < 2048) :
    ∃ s', appendIr ctx active coreAt s = .ok s' ∧
      s'.bitshift = s.bitshift + irFields ctx * ctx.paramIrLenBits.toNat := by
  rw [irFields] at inside ⊢
  by_cases chained : ctx.coreCount ≠ 0
  · rw [if_pos chained] at inside ⊢
    simp only [appendIr, if_pos chained]
    refine forUpTo_total
      (fun i (s' : SeqBuf) => s'.bitshift = s.bitshift + i * ctx.paramIrLenBits.toNat)
      (by simp) ?_
    intro i x below moved
    have upTo : (i + 1) * ctx.paramIrLenBits.toNat ≤ ctx.coreCount * ctx.paramIrLenBits.toNat :=
      Nat.mul_le_mul_right _ below
    rw [Nat.succ_mul] at upTo ⊢
    obtain ⟨y, appended, next⟩ := appendTdi_builds x
      ((if coreAt i = ctx.targetCore then active else ctx.paramIrSkip).setWidth 32) few
      (by omega)
    exact ⟨y, appended, by omega⟩
  · rw [if_neg chained] at inside ⊢
    simp only [appendIr, if_neg chained]
    rw [Nat.one_mul] at inside ⊢
    exact appendTdi_builds s _ few inside

end builds

/-! ## The first transfer -/

/-- Bits that are appended for a transfer. -/
def builtBits (ctx : LsejtagCtx) (fastdata : Bool) (skipbits : Nat) : Nat :=
  if fastdata then ctx.drseqBitlen + 6
  else 2 * (irFields ctx * ctx.paramIrLenBits.toNat) + ctx.drseqBitlen + skipbits + 52

/-- A transfer that ends before the end of the buffer can be built. -/
theorem fastMemXfer_builds (ctx : LsejtagCtx) (fastdata : Bool) (skipbits : Nat)
    (tms tdi : DwordBuf) (few : ctx.paramIrLenBits.toNat < 32) (dr : 1 ≤ ctx.drseqBitlen)
    (inside : builtBits ctx fastdata skipbits < 2048) :
    ∃ s, fastMemXfer ctx fastdata skipbits { tms, tdi, bitshift := 0 } = .ok s ∧
      s.bitshift = builtBits ctx fastdata skipbits := by
  have drLess : sub32 ctx.drseqBitlen 1 = ctx.drseqBitlen - 1 := by
    cases fastdata with
    | true =>
      rw [builtBits, if_pos rfl] at inside
      exact sub32_eq dr (by omega)
    | false =>
      rw [builtBits, if_neg (by decide)] at inside
      exact sub32_eq dr (by omega)
  cases fastdata with
  | true =>
    rw [builtBits, if_pos rfl] at inside ⊢
    simp only [fastMemXfer, if_true, drLess]
    obtain ⟨s₁, shiftDr, at₁⟩ := appendTms_builds ⟨tms, tdi, 0⟩ 0x2 4 (by decide)
      (by simp)
    simp only [Nat.zero_add] at at₁
    obtain ⟨s₂, idle, at₂⟩ := skipTms_builds s₁ 0x3 (ctx.drseqBitlen - 1) 3
      (by decide) (by omega)
    rw [shiftDr, Lib.ok_bind, idle]
    exact ⟨s₂, rfl, by omega⟩
  | false =>
    rw [builtBits, if_neg (by decide)] at inside ⊢
    simp only [fastMemXfer, Bool.false_eq_true, if_false, drLess]
    generalize isL : irFields ctx * ctx.paramIrLenBits.toNat = L at *
    -- Shift-IR and DATA
    obtain ⟨s₁, shiftIr, at₁⟩ := appendTms_builds ⟨tms, tdi, 0⟩ 0x6 5 (by decide)
      (by simp)
    simp only [Nat.zero_add] at at₁
    obtain ⟨s₂, data, at₂⟩ := appendIr_builds ctx ctx.paramIrData (lastCoreFirst ctx) s₁ few
      (by rw [isL]; omega)
    rw [isL] at at₂
    -- Shift-DR and the data
    obtain ⟨s₃, shiftDr, at₃⟩ := backTms_builds s₂ 0x7 5 (by decide) (by omega) (by omega)
    obtain ⟨s₄, shiftIr', at₄⟩ :=
      skipTms_builds s₃ 0xf (ctx.drseqBitlen - 1) 6 (by decide) (by omega)
    -- CONTROL
    obtain ⟨s₅, control, at₅⟩ := appendIr_builds ctx ctx.paramIrControl id s₄ few
      (by rw [isL]; omega)
    rw [isL] at at₅
    obtain ⟨s₆, shiftDr', at₆⟩ := backTms_builds s₅ 0x7 5 (by decide) (by omega)
      (by omega)
    -- The control word
    obtain ⟨-, -, at₇⟩ := s₆.skip_fields skipbits
    rw [u32_eq (by omega)] at at₇
    obtain ⟨word, wrote⟩ := appendDword_total (s₆.skip skipbits).tdi 0xc000
      ((s₆.skip skipbits).bitshift) (by omega)
    obtain ⟨-, -, at₈⟩ := SeqBuf.skip_fields { s₆.skip skipbits with tdi := word } 32
    change _ = u32 ((s₆.skip skipbits).bitshift + 32) at at₈
    rw [u32_eq (by omega)] at at₈
    obtain ⟨s₉, idle, at₉⟩ := backTms_builds (SeqBuf.skip { s₆.skip skipbits with tdi := word } 32)
      0x3 3 (by decide) (by omega) (by omega)
    rw [shiftIr, Lib.ok_bind, data, Lib.ok_bind, shiftDr, Lib.ok_bind, shiftIr', Lib.ok_bind,
      control, Lib.ok_bind, shiftDr', Lib.ok_bind, wrote, Lib.ok_bind, idle]
    exact ⟨s₉, rfl, by omega⟩

/-! ## What was built -/

section moves

variable {ctx : LsejtagCtx} {field : Dword} {bits : Nat} {s s' : SeqBuf}

theorem appendTms_moves (appended : s.appendTms field bits = .ok s') :
    s'.bitshift = s.bitshift + bits := by
  obtain ⟨_, -, finished⟩ := bind_eq_ok.mp appended
  cases finished
  rfl

theorem backTms_moves (some : 1 ≤ s.bitshift) (small : s.bitshift < 2 ^ 32)
    (appended : s.back.appendTms field bits = .ok s') :
    s'.bitshift = s.bitshift - 1 + bits := by
  obtain ⟨-, -, moved⟩ := s.back_fields
  rw [sub32_eq some small] at moved
  rw [appendTms_moves appended, moved]

theorem skipTms_moves {skipped : Nat} (small : s.bitshift + skipped < 2 ^ 32)
    (appended : (s.skip skipped).appendTms field bits = .ok s') :
    s'.bitshift = s.bitshift + skipped + bits := by
  obtain ⟨-, -, moved⟩ := s.skip_fields skipped
  rw [u32_eq small] at moved
  rw [appendTms_moves appended, moved]

theorem appendTdi_moves (appended : s.appendTdi field bits = .ok s') :
    bits < 32 ∧ s'.bitshift = s.bitshift + bits := by
  obtain ⟨_, wrote, finished⟩ := bind_eq_ok.mp appended
  cases finished
  exact ⟨appendBits_few wrote, rfl⟩

theorem appendIr_moves {active : Byte} {coreAt : Nat → Nat}
    (appended : appendIr ctx active coreAt s = .ok s') :
    ctx.paramIrLenBits.toNat < 32 ∧
      s'.bitshift = s.bitshift + irFields ctx * ctx.paramIrLenBits.toNat := by
  rw [irFields]
  by_cases chained : ctx.coreCount ≠ 0
  · simp only [appendIr, if_pos chained] at appended
    rw [if_pos chained]
    let P : Nat → SeqBuf → Prop := fun i s' =>
      (0 < i → ctx.paramIrLenBits.toNat < 32) ∧
        s'.bitshift = s.bitshift + i * ctx.paramIrLenBits.toNat
    have holds : P ctx.coreCount s' := by
      refine forUpTo_invariant P ⟨by simp, by simp⟩ ?_ appended
      intro i before after _ soFar wrote
      obtain ⟨few, moved⟩ := appendTdi_moves wrote
      exact ⟨fun _ => few, by rw [moved, soFar.2, Nat.succ_mul, Nat.add_assoc]⟩
    exact ⟨holds.1 (Nat.pos_of_ne_zero chained), holds.2⟩
  · simp only [appendIr, if_neg chained] at appended
    rw [if_neg chained, Nat.one_mul]
    exact appendTdi_moves appended

/-- A transfer that was built has the bits that are appended for it, and IR fields
    that `append_bits` can shift. -/
theorem fastMemXfer_moves {fastdata : Bool} {skipbits : Nat} (start : s.bitshift = 0)
    (dr : 1 ≤ ctx.drseqBitlen) (small : builtBits ctx fastdata skipbits < 2 ^ 32)
    (built : fastMemXfer ctx fastdata skipbits s = .ok s') :
    s'.bitshift = builtBits ctx fastdata skipbits ∧
      (fastdata = false → ctx.paramIrLenBits.toNat < 32) := by
  rw [builtBits] at small ⊢
  cases fastdata with
  | true =>
    rw [if_pos rfl] at small ⊢
    simp only [fastMemXfer, if_true] at built
    obtain ⟨s₁, shiftDr, idle⟩ := bind_eq_ok.mp built
    rw [sub32_eq dr (by omega)] at idle
    have at₁ := appendTms_moves shiftDr
    have at₂ := skipTms_moves (by omega) idle
    exact ⟨by omega, fun without => by cases without⟩
  | false =>
    rw [if_neg (by decide)] at small ⊢
    simp only [fastMemXfer, Bool.false_eq_true, if_false] at built
    obtain ⟨s₁, shiftIr, built⟩ := bind_eq_ok.mp built
    obtain ⟨s₂, data, built⟩ := bind_eq_ok.mp built
    obtain ⟨s₃, shiftDr, built⟩ := bind_eq_ok.mp built
    obtain ⟨s₄, shiftIr', built⟩ := bind_eq_ok.mp built
    obtain ⟨s₅, control, built⟩ := bind_eq_ok.mp built
    obtain ⟨s₆, shiftDr', built⟩ := bind_eq_ok.mp built
    obtain ⟨word, -, idle⟩ := bind_eq_ok.mp built
    rw [sub32_eq dr (by omega)] at shiftIr'
    obtain ⟨few, at₂⟩ := appendIr_moves data
    obtain ⟨-, at₅⟩ := appendIr_moves control
    generalize irFields ctx * ctx.paramIrLenBits.toNat = L at *
    have at₁ := appendTms_moves shiftIr
    have at₃ := backTms_moves (by omega) (by omega) shiftDr
    have at₄ := skipTms_moves (by omega) shiftIr'
    have at₆ := backTms_moves (by omega) (by omega) shiftDr'
    obtain ⟨-, -, at₇⟩ := s₆.skip_fields skipbits
    rw [u32_eq (by omega)] at at₇
    generalize s₆.skip skipbits = s₇ at idle at₇
    obtain ⟨-, -, at₈⟩ := SeqBuf.skip_fields { s₇ with tdi := word } 32
    change _ = u32 (s₇.bitshift + 32) at at₈
    rw [u32_eq (by omega)] at at₈
    generalize SeqBuf.skip { s₇ with tdi := word } 32 = s₈ at idle at₈
    have at₉ := backTms_moves (by omega) (by omega) idle
    exact ⟨by omega, fun _ => few⟩

end moves

/-! ## Copies -/

/-- A transfer can be copied if the copy ends in the buffer.  Leftover bits must
    end before its end: the dword behind them is accessed too. -/
theorem copyXfer_total {bits : Nat} (s : SeqBuf) (inside : s.bitshift + bits ≤ 2048)
    (before : bits % 32 ≠ 0 → s.bitshift + bits ≠ 2048) :
    ∃ s', copyXfer bits s = .ok s' ∧ s'.bitshift = s.bitshift + bits := by
  have reads : ∀ (buf : DwordBuf) j, 32 * j < bits → ∃ value, buf.read j = .ok value := by
    intro buf j below
    exact ⟨_, dif_pos (by omega)⟩
  obtain ⟨middle, dwords, moved⟩ : ∃ s', forUpTo (fun j (s : SeqBuf) => do
      let tdi ← appendDword s.tdi s.bitshift (← s.tdi.read j)
      let tms ← appendDword s.tms s.bitshift (← s.tms.read j)
      Except.ok (⟨tms, tdi, s.bitshift + 32⟩ : SeqBuf)) (bits / 32) s = .ok s' ∧
        s'.bitshift = s.bitshift + 32 * (bits / 32) := by
    refine forUpTo_total (fun j (x : SeqBuf) => x.bitshift = s.bitshift + 32 * j) rfl ?_
    intro j x below moved
    obtain ⟨tdiDword, readTdi⟩ := reads x.tdi j (by omega)
    obtain ⟨tmsDword, readTms⟩ := reads x.tms j (by omega)
    obtain ⟨tdi, wroteTdi⟩ := appendDword_total x.tdi tdiDword x.bitshift (by omega)
    obtain ⟨tms, wroteTms⟩ := appendDword_total x.tms tmsDword x.bitshift (by omega)
    refine ⟨⟨tms, tdi, x.bitshift + 32⟩, ?_, by simp only; omega⟩
    rw [readTdi, Lib.ok_bind, wroteTdi, Lib.ok_bind, readTms, Lib.ok_bind, wroteTms, Lib.ok_bind]
  rw [copyXfer, dwords, Lib.ok_bind]
  by_cases rest : bits % 32 ≠ 0
  · have short := before rest
    obtain ⟨tdiDword, readTdi⟩ := reads middle.tdi (bits / 32) (by omega)
    obtain ⟨tmsDword, readTms⟩ := reads middle.tms (bits / 32) (by omega)
    obtain ⟨tdi, wroteTdi⟩ := appendBits_total middle.tdi tdiDword middle.bitshift
      (show bits % 32 < 32 by omega) (by omega)
    obtain ⟨tms, wroteTms⟩ := appendBits_total middle.tms tmsDword middle.bitshift
      (show bits % 32 < 32 by omega) (by omega)
    refine ⟨⟨tms, tdi, middle.bitshift + bits % 32⟩, ?_, by simp only; omega⟩
    rw [if_pos rest]
    simp only [readTdi, wroteTdi, readTms, wroteTms, Lib.ok_bind]
  · rw [if_neg rest]
    exact ⟨middle, rfl, by omega⟩

/-- Transfers of one dword and more that fill the buffer end on dwords: their
    length is a power of two. -/
theorem whole_dwords_of_full {bits count : Nat} (some : 32 ≤ bits) (full : count * bits = 2048) :
    bits % 32 = 0 := by
  have divides : bits ∣ 2 ^ 11 := ⟨count, by rw [Nat.mul_comm, full]; rfl⟩
  obtain ⟨k, -, rfl⟩ := (Nat.dvd_prime_pow Nat.prime_two).mp divides
  have large : 5 ≤ k := by
    by_contra small
    have below : 2 ^ k ≤ 2 ^ 4 := Nat.pow_le_pow_right (by decide) (by omega)
    omega
  obtain ⟨j, rfl⟩ := Nat.exists_eq_add_of_le large
  rw [Nat.pow_add]
  exact Nat.mul_mod_right _ _

theorem copyXfers_total {bits count : Nat} (s : SeqBuf) (some : 32 ≤ bits)
    (inside : (count + 1) * bits ≤ 2048) (first : s.bitshift = bits) :
    ∃ s', forUpTo (fun _ => copyXfer bits) count s = .ok s' := by
  obtain ⟨s', copied, -⟩ : ∃ s', forUpTo (fun _ => copyXfer bits) count s = .ok s' ∧
      s'.bitshift = (count + 1) * bits := by
    refine forUpTo_total (fun i (x : SeqBuf) => x.bitshift = (i + 1) * bits) (by simp [first]) ?_
    intro i x below moved
    have upTo : (i + 2) * bits ≤ (count + 1) * bits := Nat.mul_le_mul_right _ (by omega)
    have next : (i + 2) * bits = (i + 1) * bits + bits := Nat.succ_mul _ _
    have before : bits % 32 ≠ 0 → x.bitshift + bits ≠ 2048 := by
      intro rest ends
      exact rest (whole_dwords_of_full some (next.trans (by omega)))
    obtain ⟨y, copied, after⟩ := copyXfer_total x (by omega) before
    exact ⟨y, copied, by rw [after, moved, Nat.succ_mul (i + 1)]⟩
  exact ⟨s', copied⟩

end LoongsonEjtag
