import Mathlib.Data.List.Basic
import Mathlib.Data.Vector.Basic

/-! # Bytes, dwords and fixed-size buffers

* `u32`, `sub32` — unsigned 32-bit arithmetic on `Nat`, with its wrap.
* `byteAt`, `le16`, `le32` — little-endian reads from a byte list; each read
  depends only on the bytes it covers (`le16_take`, `le32_take`).
* `dwordBytes`, `dwordsBytes` — the bytes of a dword buffer in memory order.
* `overlay` — the effect of `memcpy` into a fixed-size buffer, and what it
  leaves and sets (`take_overlay`).
-/

namespace LoongsonEjtag.Lib

abbrev Byte := BitVec 8

abbrev Dword := BitVec 32

/-! ## Unsigned 32-bit arithmetic -/

/-- The value of a 32-bit unsigned computation whose exact result is `n`.  Both
    operations are irreducible: unfolded, `2 ^ 32` is a unary numeral. -/
@[irreducible] def u32 (n : Nat) : Nat := n % 2 ^ 32

/-- `a - b` on 32-bit unsigned operands: below zero it wraps. -/
@[irreducible] def sub32 (a b : Nat) : Nat := u32 (a + (2 ^ 32 - u32 b))

theorem u32_eq {n : Nat} (small : n < 2 ^ 32) : u32 n = n := by
  rw [u32, Nat.mod_eq_of_lt small]

theorem u32_lt (n : Nat) : u32 n < 2 ^ 32 := by
  rw [u32]
  exact Nat.mod_lt _ (by decide)

theorem sub32_lt (a b : Nat) : sub32 a b < 2 ^ 32 := by
  rw [sub32]
  exact u32_lt _

theorem sub32_eq {a b : Nat} (ordered : b ≤ a) (small : a < 2 ^ 32) : sub32 a b = a - b := by
  simp only [sub32, u32]; omega

theorem sub32_wrap {a b : Nat} (below : a < b) (small : b < 2 ^ 32) :
    sub32 a b = 2 ^ 32 - (b - a) := by
  simp only [sub32, u32]; omega

/-! ## Little-endian reads -/

def byteAt (bytes : List Byte) (offset : Nat) : Byte := bytes.getD offset 0

def le16 (bytes : List Byte) (offset : Nat) : Nat :=
  (byteAt bytes offset).toNat + 256 * (byteAt bytes (offset + 1)).toNat

def le32 (bytes : List Byte) (offset : Nat) : Nat :=
  le16 bytes offset + 65536 * le16 bytes (offset + 2)

theorem byteAt_take {n offset : Nat} (inside : offset < n) (bytes : List Byte) :
    byteAt (bytes.take n) offset = byteAt bytes offset := by
  simp [byteAt, List.getD_eq_getElem?_getD, List.getElem?_take_of_lt inside]

theorem le16_take {n offset : Nat} (inside : offset + 2 ≤ n) (bytes : List Byte) :
    le16 (bytes.take n) offset = le16 bytes offset := by
  simp only [le16]
  rw [byteAt_take (by omega), byteAt_take (by omega)]

theorem le32_take {n offset : Nat} (inside : offset + 4 ≤ n) (bytes : List Byte) :
    le32 (bytes.take n) offset = le32 bytes offset := by
  simp only [le32]
  rw [le16_take (by omega), le16_take (by omega)]

theorem le16_lt (bytes : List Byte) (offset : Nat) : le16 bytes offset < 2 ^ 16 := by
  have low := (byteAt bytes offset).isLt
  have high := (byteAt bytes (offset + 1)).isLt
  simp only [le16]; omega

theorem le32_lt (bytes : List Byte) (offset : Nat) : le32 bytes offset < 2 ^ 32 := by
  have low := le16_lt bytes offset
  have high := le16_lt bytes (offset + 2)
  simp only [le32]; omega

/-- Bits of a little-endian dword are those of its bytes, in order. -/
theorem getLsbD_le32 (bytes : List Byte) (offset : Nat) {q : Nat} (low : q < 32) :
    (BitVec.ofNat 32 (le32 bytes offset)).getLsbD q =
      (byteAt bytes (offset + q / 8)).getLsbD (q % 8) := by
  have split16 : ∀ offset q, q < 16 →
      (le16 bytes offset).testBit q = (byteAt bytes (offset + q / 8)).getLsbD (q % 8) := by
    intro offset q below
    rw [le16, Nat.add_comm, show 256 = 2 ^ 8 from rfl,
      Nat.testBit_two_pow_mul_add _ (byteAt bytes offset).isLt]
    by_cases first : q < 8
    · rw [if_pos first, show q / 8 = 0 by omega, show q % 8 = q by omega]
      rfl
    · rw [if_neg first, show q / 8 = 1 by omega, show q % 8 = q - 8 by omega]
      rfl
  rw [BitVec.getLsbD_ofNat, decide_eq_true low, Bool.true_and, le32, Nat.add_comm,
    show 65536 = 2 ^ 16 from rfl, Nat.testBit_two_pow_mul_add _ (le16_lt bytes offset)]
  by_cases first : q < 16
  · rw [if_pos first, split16 _ _ first]
  · rw [if_neg first, split16 _ _ (by omega), show (q - 16) % 8 = q % 8 by omega,
      show offset + 2 + (q - 16) / 8 = offset + q / 8 by omega]

/-! ## Memory order of dwords -/

/-- The four bytes of a dword, lowest address first. -/
def dwordBytes (d : Dword) : List Byte :=
  [d.setWidth 8, (d >>> 8).setWidth 8, (d >>> 16).setWidth 8, (d >>> 24).setWidth 8]

def dwordsBytes (ds : List Dword) : List Byte := ds.flatMap dwordBytes

@[simp] theorem length_dwordBytes (d : Dword) : (dwordBytes d).length = 4 := rfl

@[simp] theorem dwordsBytes_nil : dwordsBytes [] = [] := rfl

@[simp] theorem dwordsBytes_append (ds es : List Dword) :
    dwordsBytes (ds ++ es) = dwordsBytes ds ++ dwordsBytes es := by
  simp [dwordsBytes]

theorem dwordsBytes_cons (d : Dword) (ds : List Dword) :
    dwordsBytes (d :: ds) = dwordBytes d ++ dwordsBytes ds := rfl

@[simp] theorem length_dwordsBytes (ds : List Dword) : (dwordsBytes ds).length = ds.length * 4 := by
  simp [dwordsBytes, List.length_flatMap]

theorem dwordsBytes_take (ds : List Dword) (n : Nat) :
    (dwordsBytes ds).take (4 * n) = dwordsBytes (ds.take n) := by
  induction n generalizing ds with
  | zero => simp
  | succ n ih =>
    cases ds with
    | nil => simp
    | cons d ds =>
      rw [List.take_succ_cons, dwordsBytes_cons, dwordsBytes_cons, ← ih ds,
        show 4 * (n + 1) = (dwordBytes d).length + 4 * n by simp; omega,
        List.take_length_add_append]

theorem dwordsBytes_drop (ds : List Dword) (n : Nat) :
    (dwordsBytes ds).drop (4 * n) = dwordsBytes (ds.drop n) := by
  induction n generalizing ds with
  | zero => simp
  | succ n ih =>
    cases ds with
    | nil => simp
    | cons d ds =>
      rw [List.drop_succ_cons, dwordsBytes_cons, ← ih ds,
        show 4 * (n + 1) = (dwordBytes d).length + 4 * n by simp; omega,
        List.drop_length_add_append]

theorem dwordBytes_ofBytes (b₀ b₁ b₂ b₃ : Byte) :
    dwordBytes (BitVec.ofNat 32
      (b₀.toNat + 256 * b₁.toNat + 65536 * (b₂.toNat + 256 * b₃.toNat))) = [b₀, b₁, b₂, b₃] := by
  have h₀ := b₀.isLt
  have h₁ := b₁.isLt
  have h₂ := b₂.isLt
  have h₃ := b₃.isLt
  simp only [dwordBytes, List.cons.injEq, and_true]
  refine ⟨?_, ?_, ?_, ?_⟩
  all_goals
    apply BitVec.eq_of_toNat_eq
    simp only [BitVec.toNat_setWidth, BitVec.toNat_ushiftRight, BitVec.toNat_ofNat,
      Nat.shiftRight_eq_div_pow]
    omega

/-- The dword at a byte offset in memory. -/
def dwordAt (bytes : List Byte) (offset : Nat) : Dword := BitVec.ofNat 32 (le32 bytes offset)

theorem dwordBytes_dwordAt {bytes : List Byte} {offset : Nat} (inside : offset + 4 ≤ bytes.length) :
    dwordBytes (dwordAt bytes offset) = (bytes.drop offset).take 4 := by
  have isByte : ∀ j < 4, bytes[offset + j]? = some (byteAt bytes (offset + j)) := by
    intro j below
    simp [byteAt, show offset + j < bytes.length by omega]
  rw [dwordAt, le32, le16, le16, dwordBytes_ofBytes]
  refine List.ext_getElem? fun j => ?_
  rw [List.getElem?_take, List.getElem?_drop]
  obtain rfl | rfl | rfl | rfl | beyond : j = 0 ∨ j = 1 ∨ j = 2 ∨ j = 3 ∨ 4 ≤ j := by omega
  · exact (isByte 0 (by decide)).symm
  · exact (isByte 1 (by decide)).symm
  · exact (isByte 2 (by decide)).symm
  · exact (isByte 3 (by decide)).symm
  · rw [if_neg (by omega)]
    exact List.getElem?_eq_none beyond

/-- `count` dwords of memory from dword `start` on are its bytes. -/
theorem dwordsBytes_dwordsAt {bytes : List Byte} (start : Nat) {count : Nat}
    (inside : 4 * (start + count) ≤ bytes.length) :
    dwordsBytes ((List.range count).map fun j => dwordAt bytes (4 * (start + j))) =
      (bytes.drop (4 * start)).take (4 * count) := by
  induction count with
  | zero => simp
  | succ count ih =>
    rw [List.range_succ, List.map_append, dwordsBytes_append, ih (by omega), List.map_singleton,
      dwordsBytes_cons, dwordsBytes_nil, List.append_nil, dwordBytes_dwordAt (by omega),
      Nat.mul_succ, List.take_add, List.drop_drop, Nat.mul_add]

/-! ## Copies into fixed-size buffers -/

variable {α : Type*} {n : Nat}

/-- `v` with the entries from `offset` on replaced by `xs`. -/
def overlay (v : Vector α n) (offset : Nat) (xs : List α) (fits : offset + xs.length ≤ n) :
    Vector α n :=
  ⟨(v.toList.take offset ++ xs ++ v.toList.drop (offset + xs.length)).toArray, by
    simp only [List.size_toArray, List.length_append, List.length_take, List.length_drop,
      Vector.length_toList]
    omega⟩

theorem toList_overlay (v : Vector α n) (offset : Nat) (xs : List α)
    (fits : offset + xs.length ≤ n) :
    (overlay v offset xs fits).toList =
      v.toList.take offset ++ xs ++ v.toList.drop (offset + xs.length) := by
  simp [overlay, Vector.toList]

theorem overlay_nil (v : Vector α n) (offset : Nat) (fits : offset + 0 ≤ n) :
    overlay v offset [] fits = v := by
  apply Vector.toList_inj.mp
  simp [toList_overlay]

theorem getElem?_overlay_outside {v : Vector α n} {offset p : Nat} {xs : List α}
    (fits : offset + xs.length ≤ n)
    (outside : p < offset ∨ offset + xs.length ≤ p) :
    (overlay v offset xs fits).toList[p]? = v.toList[p]? := by
  have lengths : (v.toList.take offset).length = offset := by simp; omega
  rw [toList_overlay]
  rcases outside with before | after
  · rw [List.append_assoc, List.getElem?_append_left (by omega), List.getElem?_take_of_lt before]
  · rw [List.getElem?_append_right (by simp [lengths]; omega), List.getElem?_drop]
    congr 1
    simp [lengths]
    omega

theorem getElem?_overlay_inside {v : Vector α n} {offset j : Nat} {xs : List α}
    (fits : offset + xs.length ≤ n)
    (inside : j < xs.length) : (overlay v offset xs fits).toList[offset + j]? = xs[j]? := by
  have lengths : (v.toList.take offset).length = offset := by simp; omega
  rw [toList_overlay, List.append_assoc, List.getElem?_append_right (by omega), lengths,
    Nat.add_sub_cancel_left, List.getElem?_append_left inside]

/-- A copy to `offset` extends what was there before `offset`. -/
theorem take_overlay (v : Vector α n) (offset : Nat) (xs : List α)
    (fits : offset + xs.length ≤ n) :
    (overlay v offset xs fits).toList.take (offset + xs.length) =
      v.toList.take offset ++ xs := by
  have lengths : (v.toList.take offset ++ xs).length = offset + xs.length := by
    simp only [List.length_append, List.length_take, Vector.length_toList]
    omega
  rw [toList_overlay, List.take_append_of_le_length (by omega), List.take_of_length_le (by omega)]

end LoongsonEjtag.Lib
