import LoongsonEjtag.DwordBuf
import LoongsonEjtag.Lib.Bits
import LoongsonEjtag.Lib.Loop

/-! # What the bit writers write

The writers of `cmdimpl.c` bit by bit.

* `appendBits_adds`, `appendDword_puts` — what is appended ends up where it
  should; `append_dword` overwrites an aligned dword and adds to others.
* `replaceDword_puts` — `replace_dword` replaces its 32 bits exactly.
* `replaceBits_bits` — the masks of `replace_bits` keep `replaceKeeps`, which is
  everything outside the field only where the offset in its dword is the width
  of the field (`replaceBits_puts`, `replaceKeeps_wrong`).
* `write_total` and the like — inside the buffer none of them fails.
-/

namespace LoongsonEjtag

open Lib (Dword bitAt bitAt_eq bitAt_set Adds Puts SameBits bind_eq_ok)

variable {n : Nat} {buf buf' : DwordBuf n}

/-! ## Dwords -/

namespace DwordBuf

theorem write_bits {i : Nat} {value : Dword} (wrote : buf.write i value = .ok buf') (p : Nat) :
    bitAt buf' p = if p / 32 = i then value.getLsbD (p % 32) else bitAt buf p := by
  rw [write] at wrote
  split at wrote
  · cases wrote
    exact bitAt_set _ _ _
  · cases wrote

theorem update_bits {i : Nat} {f : Dword → Dword} (updated : buf.update i f = .ok buf') (p : Nat) :
    bitAt buf' p =
      if p / 32 = i then (f (buf[p / 32]?.getD 0)).getLsbD (p % 32) else bitAt buf p := by
  obtain ⟨old, wasRead, wrote⟩ := bind_eq_ok.mp updated
  rw [read] at wasRead
  split at wasRead
  · rename_i inside
    cases wasRead
    rw [write_bits wrote]
    by_cases same : p / 32 = i
    · subst same
      simp [inside]
    · simp [same]
  · cases wasRead

theorem read_bits {i q : Nat} {value : Dword} (wasRead : buf.read i = .ok value) (low : q < 32) :
    value.getLsbD q = bitAt buf (32 * i + q) := by
  rw [read] at wasRead
  split at wasRead
  · rename_i inside
    cases wasRead
    exact Lib.getLsbD_eq_bitAt inside low
  · cases wasRead

/-- `buf[i] |= value`. -/
theorem update_or {i : Nat} {value : Dword} (updated : buf.update i (· ||| value) = .ok buf')
    (p : Nat) :
    bitAt buf' p = (bitAt buf p || (decide (p / 32 = i) && value.getLsbD (p % 32))) := by
  rw [update_bits updated]
  by_cases same : p / 32 = i
  · simp [same, bitAt]
  · simp [same]

/-- `buf[i] = (buf[i] & mask) | value`. -/
theorem update_mask {i : Nat} {mask value : Dword}
    (updated : buf.update i (fun tmp => (tmp &&& mask) ||| value) = .ok buf') (p : Nat) :
    bitAt buf' p =
      if p / 32 = i then (bitAt buf p && mask.getLsbD (p % 32)) || value.getLsbD (p % 32)
      else bitAt buf p := by
  rw [update_bits updated]
  simp [bitAt]

theorem clear_bits {count : Nat} (cleared : buf.clear count = .ok buf') (p : Nat) :
    bitAt buf' p = (decide (32 * count ≤ p) && bitAt buf p) := by
  rw [clear] at cleared
  split at cleared
  · rw [← Except.ok.inj cleared]
    by_cases inside : p / 32 < n
    · rw [bitAt_eq inside, bitAt_eq inside]
      by_cases low : p / 32 < count
      · simp [low, show ¬32 * count ≤ p by omega]
      · simp [low, show 32 * count ≤ p by omega]
    · simp [bitAt, inside]
  · cases cleared

theorem copyFrom_bits {src : DwordBuf n} {count : Nat} (copied : buf.copyFrom src count = .ok buf')
    (p : Nat) : bitAt buf' p = if p < 32 * count then bitAt src p else bitAt buf p := by
  rw [copyFrom] at copied
  split at copied
  · rename_i few
    rw [← Except.ok.inj copied]
    by_cases inside : p / 32 < n
    · rw [bitAt_eq inside, bitAt_eq inside, bitAt_eq inside]
      by_cases low : p / 32 < count
      · simp [low, show p < 32 * count by omega]
      · simp [low, show ¬p < 32 * count by omega]
    · simp [bitAt, inside]
  · cases copied

end DwordBuf

/-! ## Masks -/

theorem getLsbD_fieldMasked (field : Dword) (bits q : Nat) :
    (fieldMasked field bits).getLsbD q = (decide (q < bits) && field.getLsbD q) := by
  rw [fieldMasked, show 0xFFFFFFFF#32 = BitVec.allOnes 32 from rfl]
  simp only [BitVec.getLsbD_and, BitVec.getLsbD_not, BitVec.getLsbD_shiftLeft,
    BitVec.getLsbD_allOnes]
  grind

/-- `~(0xFFFFFFFF << count)`. -/
theorem getLsbD_lowMask {count q : Nat} (inside : q < 32) :
    (~~~(0xFFFFFFFF#32 <<< count)).getLsbD q = decide (q < count) := by
  rw [show 0xFFFFFFFF#32 = BitVec.allOnes 32 from rfl]
  simp only [BitVec.getLsbD_not, BitVec.getLsbD_shiftLeft, BitVec.getLsbD_allOnes]
  grind

/-- `0xFFFFFFFF >> (32 - count)`. -/
theorem getLsbD_lowOnes {count q : Nat} (few : count ≤ 32) :
    (0xFFFFFFFF#32 >>> (32 - count)).getLsbD q = decide (q < count) := by
  rw [show 0xFFFFFFFF#32 = BitVec.allOnes 32 from rfl]
  simp only [BitVec.getLsbD_ushiftRight, BitVec.getLsbD_allOnes]
  grind

/-- `0xFFFFFFFF << count`. -/
theorem getLsbD_highOnes {count q : Nat} (inside : q < 32) :
    (0xFFFFFFFF#32 <<< count).getLsbD q = decide (count ≤ q) := by
  rw [show 0xFFFFFFFF#32 = BitVec.allOnes 32 from rfl]
  simp only [BitVec.getLsbD_shiftLeft, BitVec.getLsbD_allOnes]
  grind

section fieldMasked

variable {bitshift bits p : Nat} (field : Dword)

/-- The part of a field in the dword it starts in. -/
theorem getLsbD_field_shifted (inFirst : p / 32 = bitshift / 32) :
    (fieldMasked field bits <<< (bitshift % 32)).getLsbD (p % 32) =
      (decide (bitshift ≤ p ∧ p < bitshift + bits) && field.getLsbD (p - bitshift)) := by
  have low : p % 32 < 32 := Nat.mod_lt _ (by decide)
  rw [BitVec.getLsbD_shiftLeft, getLsbD_fieldMasked]
  by_cases before : p % 32 < bitshift % 32
  · have outside : ¬bitshift ≤ p := by omega
    simp [before, outside]
  · have start : p % 32 - bitshift % 32 = p - bitshift := by omega
    have window : decide (p - bitshift < bits) = decide (bitshift ≤ p ∧ p < bitshift + bits) :=
      decide_eq_decide.mpr (by omega)
    rw [start, window]
    simp [before, low]

/-- The part that is carried over to the next dword. -/
theorem getLsbD_field_carried (inSecond : p / 32 = bitshift / 32 + 1) :
    (fieldMasked field bits >>> (32 - bitshift % 32)).getLsbD (p % 32) =
      (decide (bitshift ≤ p ∧ p < bitshift + bits) && field.getLsbD (p - bitshift)) := by
  have start : 32 - bitshift % 32 + p % 32 = p - bitshift := by omega
  have window : decide (p - bitshift < bits) = decide (bitshift ≤ p ∧ p < bitshift + bits) :=
    decide_eq_decide.mpr (by omega)
  rw [BitVec.getLsbD_ushiftRight, getLsbD_fieldMasked, start, window]

end fieldMasked

/-! ## The writers -/

theorem appendBits_adds {bitshift bits : Nat} {field : Dword}
    (appended : appendBits buf bitshift field bits = .ok buf') :
    Adds bitshift bits field buf buf' := by
  intro p
  simp only [appendBits] at appended
  split at appended
  · split at appended
    · rename_i oneDword
      rw [DwordBuf.update_or appended]
      simp only [BitVec.getLsbD_shiftLeft, getLsbD_fieldMasked]
      grind
    · rename_i twoDwords
      obtain ⟨first, low, high⟩ := bind_eq_ok.mp appended
      rw [DwordBuf.update_or high, DwordBuf.update_or low]
      simp only [BitVec.getLsbD_shiftLeft, BitVec.getLsbD_ushiftRight, getLsbD_fieldMasked]
      grind
  · cases appended

theorem appendDword_puts {bitshift : Nat} {field : Dword}
    (appended : appendDword buf bitshift field = .ok buf')
    (clear : ∀ p, bitshift ≤ p → p < bitshift + 32 → bitAt buf p = false) :
    Puts bitshift 32 field buf buf' := by
  intro p
  have zero := clear p
  simp only [appendDword] at appended
  split at appended
  · rename_i aligned
    rw [DwordBuf.write_bits appended]
    grind
  · rename_i straddles
    obtain ⟨first, low, high⟩ := bind_eq_ok.mp appended
    rw [DwordBuf.update_or high, DwordBuf.update_or low]
    simp only [BitVec.getLsbD_shiftLeft, BitVec.getLsbD_ushiftRight]
    grind

/-- Whether the dword is written or ORed, what becomes of a bit depends on that
    bit only. -/
theorem appendDword_sameBits {limit bitshift : Nat} {field : Dword} {next next' : DwordBuf n}
    (same : SameBits limit buf buf') (wrote : appendDword buf bitshift field = .ok next)
    (wrote' : appendDword buf' bitshift field = .ok next') : SameBits limit next next' := by
  intro p below
  simp only [appendDword] at wrote wrote'
  by_cases aligned : bitshift % 32 = 0
  · rw [if_pos aligned] at wrote wrote'
    rw [DwordBuf.write_bits wrote, DwordBuf.write_bits wrote', same p below]
  · rw [if_neg aligned] at wrote wrote'
    obtain ⟨_, low, high⟩ := bind_eq_ok.mp wrote
    obtain ⟨_, low', high'⟩ := bind_eq_ok.mp wrote'
    rw [DwordBuf.update_or high, DwordBuf.update_or low, DwordBuf.update_or high',
      DwordBuf.update_or low', same p below]

theorem replaceDword_puts {bitshift : Nat} {field : Dword}
    (replaced : replaceDword buf bitshift field = .ok buf') : Puts bitshift 32 field buf buf' := by
  intro p
  have low : p % 32 < 32 := Nat.mod_lt _ (by decide)
  simp only [replaceDword] at replaced
  split at replaced
  · rename_i aligned
    rw [DwordBuf.write_bits replaced]
    grind
  · rename_i straddles
    obtain ⟨first, lower, upper⟩ := bind_eq_ok.mp replaced
    have few : bitshift % 32 ≤ 32 := by omega
    rw [DwordBuf.update_mask upper, DwordBuf.update_mask lower]
    -- Each dword keeps one side of the offset and takes the field on the other.
    simp only [getLsbD_lowMask low, BitVec.getLsbD_not, getLsbD_lowOnes few,
      BitVec.getLsbD_shiftLeft, BitVec.getLsbD_ushiftRight]
    by_cases inFirst : p / 32 = bitshift / 32
    · have notSecond : ¬p / 32 = bitshift / 32 + 1 := by omega
      by_cases before : p % 32 < bitshift % 32
      · have outside : ¬(bitshift ≤ p ∧ p < bitshift + 32) := by omega
        rw [if_neg notSecond, if_pos inFirst, if_neg outside]
        simp [before]
      · have inside : bitshift ≤ p ∧ p < bitshift + 32 := by omega
        have start : p % 32 - bitshift % 32 = p - bitshift := by omega
        rw [if_neg notSecond, if_pos inFirst, if_pos inside, start]
        simp [before, low]
    · by_cases inSecond : p / 32 = bitshift / 32 + 1
      · by_cases before : p % 32 < bitshift % 32
        · have inside : bitshift ≤ p ∧ p < bitshift + 32 := by omega
          have start : 32 - bitshift % 32 + p % 32 = p - bitshift := by omega
          rw [if_pos inSecond, if_neg inFirst, if_pos inside, start]
          simp [before]
        · have outside : ¬(bitshift ≤ p ∧ p < bitshift + 32) := by omega
          have past : 32 ≤ 32 - bitshift % 32 + p % 32 := by omega
          rw [if_pos inSecond, if_neg inFirst, if_neg outside, BitVec.getLsbD_of_ge _ _ past]
          simp [before, low]
      · have outside : ¬(bitshift ≤ p ∧ p < bitshift + 32) := by omega
        rw [if_neg inSecond, if_neg inFirst, if_neg outside]

/-- The bits that the masks of `replace_bits` keep.  Within one dword they clear
    the bits from `bits` to `2 * bits`; in the first of two dwords they keep the
    lowest `bits` bits. -/
def replaceKeeps (bitshift bits p : Nat) : Bool :=
  if bitshift % 32 < 32 - bits then
    !decide (p / 32 = bitshift / 32 ∧ bits ≤ p % 32 ∧ p % 32 < 2 * bits)
  else
    !decide (p / 32 = bitshift / 32 ∧ bits ≤ p % 32) &&
      !decide (p / 32 = bitshift / 32 + 1 ∧ p % 32 + 32 < bitshift % 32 + bits)

theorem replaceBits_bits {bitshift bits : Nat} {field : Dword}
    (replaced : replaceBits buf bitshift field bits = .ok buf') (p : Nat) :
    bitAt buf' p = ((bitAt buf p && replaceKeeps bitshift bits p) ||
      (decide (bitshift ≤ p ∧ p < bitshift + bits) && field.getLsbD (p - bitshift))) := by
  have low : p % 32 < 32 := Nat.mod_lt _ (by decide)
  simp only [replaceBits] at replaced
  split at replaced
  · rename_i width
    have few : bits ≤ 32 := by omega
    split at replaced
    · rename_i oneDword
      rw [DwordBuf.update_mask replaced, replaceKeeps, if_pos oneDword]
      by_cases inFirst : p / 32 = bitshift / 32
      · -- The ones are shifted by the width, not by the offset.
        have cleared : (~~~(0xFFFFFFFF#32 >>> (32 - bits) <<< bits)).getLsbD (p % 32) =
            !decide (bits ≤ p % 32 ∧ p % 32 < 2 * bits) := by
          simp only [BitVec.getLsbD_not, BitVec.getLsbD_shiftLeft, getLsbD_lowOnes few]
          rw [Bool.eq_iff_iff]
          simp [low]
          omega
        rw [if_pos inFirst, cleared, getLsbD_field_shifted _ inFirst]
        simp [inFirst]
      · have outside : ¬(bitshift ≤ p ∧ p < bitshift + bits) := by omega
        simp [inFirst, outside]
    · rename_i twoDwords
      obtain ⟨first, lower, upper⟩ := bind_eq_ok.mp replaced
      rw [DwordBuf.update_mask upper, DwordBuf.update_mask lower, replaceKeeps, if_neg twoDwords]
      by_cases inFirst : p / 32 = bitshift / 32
      · have notSecond : ¬p / 32 = bitshift / 32 + 1 := by omega
        rw [if_neg notSecond, if_pos inFirst, getLsbD_lowOnes few,
          getLsbD_field_shifted _ inFirst]
        simp [inFirst, decide_not.symm]
      · by_cases inSecond : p / 32 = bitshift / 32 + 1
        · -- The mask of the second dword is the right one.
          have kept : decide (bitshift % 32 + bits - 32 ≤ p % 32) =
              !decide (p % 32 + 32 < bitshift % 32 + bits) := by
            rw [← decide_not]
            exact decide_eq_decide.mpr (by omega)
          rw [if_pos inSecond, if_neg inFirst, getLsbD_highOnes low, kept,
            getLsbD_field_carried _ inSecond]
          simp [inSecond]
        · have outside : ¬(bitshift ≤ p ∧ p < bitshift + bits) := by omega
          simp [inSecond, inFirst, outside]
  · cases replaced

/-- Where the field starts at the bit of its dword that its width gives, the
    masks keep exactly what is outside. -/
theorem replaceKeeps_eq {bitshift bits : Nat} (width : bitshift % 32 = bits) (p : Nat) :
    replaceKeeps bitshift bits p = !decide (bitshift ≤ p ∧ p < bitshift + bits) := by
  rw [replaceKeeps]
  by_cases oneDword : bitshift % 32 < 32 - bits
  · rw [if_pos oneDword]
    congr 1
    exact decide_eq_decide.mpr (by omega)
  · rw [if_neg oneDword, ← Bool.not_or, ← Bool.decide_or]
    congr 1
    exact decide_eq_decide.mpr (by omega)

theorem replaceBits_puts {bitshift bits : Nat} {field : Dword} (width : bitshift % 32 = bits)
    (replaced : replaceBits buf bitshift field bits = .ok buf') :
    Puts bitshift bits field buf buf' := by
  intro p
  rw [replaceBits_bits replaced, replaceKeeps_eq width]
  by_cases inside : bitshift ≤ p ∧ p < bitshift + bits
  · simp [inside]
  · simp [inside]

/-- Anywhere else they keep a bit of the field, or they clear the bit in front
    of it. -/
theorem replaceKeeps_wrong (bitshift bits : Nat) (some : 0 < bits) (few : bits < 32)
    (width : bitshift % 32 ≠ bits) :
    (∃ k, k < bits ∧ replaceKeeps bitshift bits (bitshift + k) = true) ∨
      (0 < bitshift % 32 ∧ replaceKeeps bitshift bits (bitshift - 1) = false) := by
  by_cases oneDword : bitshift % 32 < 32 - bits
  · left
    by_cases before : bitshift % 32 < bits
    · refine ⟨0, some, ?_⟩
      grind [replaceKeeps]
    · refine ⟨bits - 1, by omega, ?_⟩
      grind [replaceKeeps]
  · by_cases before : bitshift % 32 < bits
    · left
      refine ⟨0, some, ?_⟩
      grind [replaceKeeps]
    · right
      refine ⟨by omega, ?_⟩
      grind [replaceKeeps]

/-! ## Inside the buffer -/

theorem DwordBuf.write_total (buf : DwordBuf n) {i : Nat} (inside : i < n) (value : Dword) :
    ∃ buf', buf.write i value = .ok buf' := by
  simp [DwordBuf.write, inside]

theorem DwordBuf.write_inside {i : Nat} {value : Dword} (wrote : buf.write i value = .ok buf') :
    i < n := by
  rw [DwordBuf.write] at wrote
  split at wrote
  · assumption
  · cases wrote

theorem DwordBuf.clear_total (buf : DwordBuf n) {count : Nat} (inside : count ≤ n) :
    ∃ buf', buf.clear count = .ok buf' := by
  simp [DwordBuf.clear, inside]

theorem DwordBuf.clear_inside {count : Nat} (cleared : buf.clear count = .ok buf') :
    count ≤ n := by
  rw [DwordBuf.clear] at cleared
  split at cleared
  · assumption
  · cases cleared

theorem DwordBuf.copyFrom_total (buf src : DwordBuf n) {count : Nat} (inside : count ≤ n) :
    ∃ buf', buf.copyFrom src count = .ok buf' := by
  simp [DwordBuf.copyFrom, inside]

theorem DwordBuf.update_total (buf : DwordBuf n) {i : Nat} (inside : i < n) (f : Dword → Dword) :
    ∃ buf', buf.update i f = .ok buf' := by
  simp [DwordBuf.update, DwordBuf.read, DwordBuf.write, inside]

theorem DwordBuf.update_inside {i : Nat} {f : Dword → Dword} (updated : buf.update i f = .ok buf') :
    i < n := by
  obtain ⟨_, wasRead, -⟩ := bind_eq_ok.mp updated
  rw [DwordBuf.read] at wasRead
  split at wasRead
  · assumption
  · cases wasRead

theorem appendBits_total (buf : DwordBuf n) (field : Dword) (bitshift : Nat) {bits : Nat}
    (few : bits < 32) (inside : bitshift + bits < 32 * n) :
    ∃ buf', appendBits buf bitshift field bits = .ok buf' := by
  simp only [appendBits, few, if_true]
  split
  · exact buf.update_total (by omega) _
  · obtain ⟨first, wrote⟩ := buf.update_total (i := bitshift / 32) (by omega)
      (· ||| fieldMasked field bits <<< (bitshift % 32))
    rw [wrote]
    exact first.update_total (by omega) _

theorem appendBits_inside {bitshift bits : Nat} {field : Dword}
    (appended : appendBits buf bitshift field bits = .ok buf') : bitshift + bits < 32 * n := by
  simp only [appendBits] at appended
  split at appended
  · split at appended
    · have inside := DwordBuf.update_inside appended
      omega
    · obtain ⟨_, -, upper⟩ := bind_eq_ok.mp appended
      have inside := DwordBuf.update_inside upper
      omega
  · cases appended

/-- No field is wider than a shift by `bits` can make it. -/
theorem appendBits_few {bitshift bits : Nat} {field : Dword}
    (appended : appendBits buf bitshift field bits = .ok buf') : bits < 32 := by
  simp only [appendBits] at appended
  split at appended
  · assumption
  · cases appended

theorem appendDword_total (buf : DwordBuf n) (field : Dword) (bitshift : Nat)
    (inside : bitshift + 32 ≤ 32 * n) : ∃ buf', appendDword buf bitshift field = .ok buf' := by
  simp only [appendDword]
  split
  · exact buf.write_total (by omega) field
  · obtain ⟨first, wrote⟩ := buf.update_total (i := bitshift / 32) (by omega)
      (· ||| field <<< (bitshift % 32))
    rw [wrote]
    exact first.update_total (by omega) _

theorem appendDword_inside {bitshift : Nat} {field : Dword}
    (appended : appendDword buf bitshift field = .ok buf') : bitshift + 32 ≤ 32 * n := by
  simp only [appendDword] at appended
  split at appended
  · have inside := DwordBuf.write_inside appended
    omega
  · obtain ⟨_, -, upper⟩ := bind_eq_ok.mp appended
    have inside := DwordBuf.update_inside upper
    omega

theorem replaceDword_total (buf : DwordBuf n) (field : Dword) {bitshift : Nat}
    (inside : bitshift + 32 ≤ 32 * n) : ∃ buf', replaceDword buf bitshift field = .ok buf' := by
  simp only [replaceDword]
  split
  · simp [DwordBuf.write, show bitshift / 32 < n by omega]
  · obtain ⟨first, wrote⟩ := buf.update_total (i := bitshift / 32) (by omega) fun tmp =>
      (tmp &&& ~~~(0xFFFFFFFF#32 <<< (bitshift % 32))) ||| field <<< (bitshift % 32)
    rw [wrote]
    exact first.update_total (by omega) _

/-- The dword behind the field is written even if the field ends with the dword
    before it. -/
theorem replaceBits_total (buf : DwordBuf n) (field : Dword) {bitshift bits : Nat} (some : 0 < bits)
    (few : bits < 32) (inside : bitshift + bits < 32 * n) :
    ∃ buf', replaceBits buf bitshift field bits = .ok buf' := by
  simp only [replaceBits, some, few, and_self, if_true]
  split
  · exact buf.update_total (by omega) _
  · obtain ⟨first, wrote⟩ := buf.update_total (i := bitshift / 32) (by omega) fun tmp =>
      (tmp &&& 0xFFFFFFFF#32 >>> (32 - bits)) ||| fieldMasked field bits <<< (bitshift % 32)
    rw [wrote]
    exact first.update_total (by omega) _

theorem replaceBits_inside {bitshift bits : Nat} {field : Dword}
    (replaced : replaceBits buf bitshift field bits = .ok buf') : bitshift + bits < 32 * n := by
  simp only [replaceBits] at replaced
  split at replaced
  · split at replaced
    · have inside := DwordBuf.update_inside replaced
      omega
    · obtain ⟨_, -, upper⟩ := bind_eq_ok.mp replaced
      have inside := DwordBuf.update_inside upper
      omega
  · cases replaced

end LoongsonEjtag
