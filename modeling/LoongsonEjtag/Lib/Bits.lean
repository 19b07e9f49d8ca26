import LoongsonEjtag.Lib.Bytes
import Mathlib.Data.List.GetD

/-! # Bits of a dword buffer

A buffer of 32-bit dwords as one sequence of bits, from the LSB of dword 0
upwards.

* `bitAt` — one bit; `ofBits` — a buffer with given bits.
* `bitsFrom` — a stretch of bits as a list.
* `Adds`, `Puts` — a field was ORed into a window, or replaced what it held.
* `Spells` — the bits below a limit are a given list and nothing behind it.
* `SameBits` — two buffers have the same bits below a limit.
* `ShiftedIn` — a dword that levels were shifted into from the top.
-/

namespace LoongsonEjtag.Lib

variable {n : Nat} {buf buf' : Vector Dword n}

/-! ## One bit -/

/-- Bit `p`, and `false` outside the buffer. -/
def bitAt (buf : Vector Dword n) (p : Nat) : Bool := (buf[p / 32]?.getD 0).getLsbD (p % 32)

theorem bitAt_eq {p : Nat} (inside : p / 32 < n) :
    bitAt buf p = buf[p / 32].getLsbD (p % 32) := by
  simp [bitAt, inside]

theorem bitAt_set {i : Nat} (inside : i < n) (value : Dword) (p : Nat) :
    bitAt (buf.set i value inside) p =
      if p / 32 = i then value.getLsbD (p % 32) else bitAt buf p := by
  by_cases same : p / 32 = i
  · subst same
    simp [bitAt, inside]
  · have other : i ≠ p / 32 := fun eq => same eq.symm
    simp [bitAt, same, other]

/-- The bits of one dword. -/
theorem getLsbD_eq_bitAt {i q : Nat} (inside : i < n) (few : q < 32) :
    buf[i].getLsbD q = bitAt buf (32 * i + q) := by
  have dword : (32 * i + q) / 32 = i := by omega
  have rest : (32 * i + q) % 32 = q := by omega
  simp [bitAt, dword, rest, inside]

/-- The buffer with bits `f`. -/
def ofBits (n : Nat) (f : Nat → Bool) : Vector Dword n :=
  Vector.ofFn fun i =>
    (BitVec.ofBoolListLE ((List.range 32).map fun j => f (32 * i.val + j))).setWidth 32

theorem bitAt_ofBits (f : Nat → Bool) {p : Nat} (inside : p < 32 * n) :
    bitAt (ofBits n f) p = f p := by
  have dword : p / 32 < n := by omega
  have low : p % 32 < 32 := Nat.mod_lt _ (by decide)
  rw [bitAt_eq dword, ofBits, Vector.getElem_ofFn, BitVec.getLsbD_setWidth,
    BitVec.getLsbD_ofBoolListLE]
  simp [List.getD_eq_getElem?_getD, low, Nat.div_add_mod]

/-! ## Fields -/

/-- The low `count` bits of `field`, LSB first. -/
def lowBits (field : Dword) (count : Nat) : List Bool := (List.range count).map field.getLsbD

@[simp] theorem length_lowBits (field : Dword) (count : Nat) :
    (lowBits field count).length = count := by
  simp [lowBits]

theorem getD_lowBits (field : Dword) (count k : Nat) :
    (lowBits field count).getD k false = (decide (k < count) && field.getLsbD k) := by
  by_cases below : k < count
  · simp [lowBits, List.getD_eq_getElem?_getD, below]
  · simp [lowBits, List.getD_eq_getElem?_getD, below]

/-- `count` bits from bit `start` on. -/
def bitsFrom (buf : Vector Dword n) (start count : Nat) : List Bool :=
  (List.range count).map fun k => bitAt buf (start + k)

@[simp] theorem length_bitsFrom (buf : Vector Dword n) (start count : Nat) :
    (bitsFrom buf start count).length = count := by
  simp [bitsFrom]

theorem bitsFrom_add (buf : Vector Dword n) (start first second : Nat) :
    bitsFrom buf start (first + second) =
      bitsFrom buf start first ++ bitsFrom buf (start + first) second := by
  simp [bitsFrom, List.range_add, Function.comp_def, Nat.add_assoc]

/-- `field` was ORed into the `count` bits from `offset` on. -/
def Adds (offset count : Nat) (field : Dword) (buf buf' : Vector Dword n) : Prop :=
  ∀ p, bitAt buf' p =
    (bitAt buf p || (decide (offset ≤ p ∧ p < offset + count) && field.getLsbD (p - offset)))

/-- The `count` bits from `offset` on were replaced by `field`. -/
def Puts (offset count : Nat) (field : Dword) (buf buf' : Vector Dword n) : Prop :=
  ∀ p, bitAt buf' p =
    if offset ≤ p ∧ p < offset + count then field.getLsbD (p - offset) else bitAt buf p

/-- In a cleared window both are the same. -/
theorem Puts.adds {offset count : Nat} {field : Dword} (puts : Puts offset count field buf buf')
    (clear : ∀ p, offset ≤ p → p < offset + count → bitAt buf p = false) :
    Adds offset count field buf buf' := by
  intro p
  rw [puts p]
  by_cases inside : offset ≤ p ∧ p < offset + count
  · simp [inside, clear p inside.1 inside.2]
  · simp [inside]

theorem Adds.puts {offset count : Nat} {field : Dword} (adds : Adds offset count field buf buf')
    (clear : ∀ p, offset ≤ p → p < offset + count → bitAt buf p = false) :
    Puts offset count field buf buf' := by
  intro p
  rw [adds p]
  by_cases inside : offset ≤ p ∧ p < offset + count
  · simp [inside, clear p inside.1 inside.2]
  · simp [inside]

/-! ## Bit strings -/

def zeros (count : Nat) : List Bool := List.replicate count false

@[simp] theorem length_zeros (count : Nat) : (zeros count).length = count :=
  List.length_replicate

@[simp] theorem zeros_zero : zeros 0 = [] := rfl

theorem zeros_append_zeros (first second : Nat) :
    zeros first ++ zeros second = zeros (first + second) := List.replicate_append_replicate

theorem getD_zeros (count k : Nat) : (zeros count).getD k false = false := by
  by_cases below : k < count
  · rw [zeros, List.getD_replicate false below]
  · rw [List.getD_eq_default _ _ (by simpa using below)]

/-- Below `limit` the buffer reads `bits` and then nothing but zeros. -/
def Spells (limit : Nat) (buf : Vector Dword n) (bits : List Bool) : Prop :=
  ∀ p, p < limit → bitAt buf p = bits.getD p false

namespace Spells

variable {limit : Nat} {bits : List Bool}

/-- Zeros behind the string are already there. -/
theorem pad (spells : Spells limit buf bits) (count : Nat) :
    Spells limit buf (bits ++ zeros count) := by
  intro p below
  rw [spells p below]
  by_cases inside : p < bits.length
  · rw [List.getD_append _ _ _ _ inside]
  · rw [List.getD_append_right _ _ _ _ (by omega), List.getD_eq_default _ _ (by omega),
      getD_zeros]

/-- A field added right behind the string extends it. -/
theorem adds (spells : Spells limit buf bits) {count : Nat} {field : Dword}
    (added : Adds bits.length count field buf buf') :
    Spells limit buf' (bits ++ lowBits field count) := by
  intro p below
  rw [added p, spells p below]
  by_cases inside : p < bits.length
  · rw [List.getD_append _ _ _ _ inside]
    simp [show ¬bits.length ≤ p by omega]
  · have window : (bits.length ≤ p ∧ p < bits.length + count) ↔ p - bits.length < count := by
      omega
    rw [List.getD_append_right _ _ _ _ (by omega), List.getD_eq_default _ _ (by omega),
      getD_lowBits, Bool.false_or, decide_eq_decide.mpr window]

/-- A field added further behind leaves zeros in between. -/
theorem adds_behind (spells : Spells limit buf bits) {gap count : Nat} {field : Dword}
    (added : Adds (bits.length + gap) count field buf buf') :
    Spells limit buf' (bits ++ zeros gap ++ lowBits field count) := by
  refine (spells.pad gap).adds ?_
  rw [List.length_append, length_zeros]
  exact added

/-- The string can be read back, stretch by stretch. -/
theorem bitsFrom_eq {first middle last : List Bool}
    (spells : Spells limit buf (first ++ middle ++ last))
    (inside : first.length + middle.length ≤ limit) :
    bitsFrom buf first.length middle.length = middle := by
  apply List.ext_getElem
  · simp
  · intro k _ below
    simp only [bitsFrom, List.getElem_map, List.getElem_range]
    rw [spells _ (by omega), List.append_assoc, List.getD_append_right _ _ _ _ (by omega),
      Nat.add_sub_cancel_left, List.getD_append _ _ _ _ below, List.getD_eq_getElem _ _ below]

/-- All of it, from the start. -/
theorem bitsFrom_all (spells : Spells limit buf bits) (inside : bits.length ≤ limit) :
    bitsFrom buf 0 bits.length = bits := by
  have spells : Spells limit buf ([] ++ bits ++ []) := by simpa using spells
  exact spells.bitsFrom_eq (by simpa using inside)

end Spells

/-! ## Two buffers -/

/-- Below `limit` both buffers have the same bits. -/
def SameBits (limit : Nat) (buf buf' : Vector Dword n) : Prop :=
  ∀ p, p < limit → bitAt buf p = bitAt buf' p

theorem Spells.sameBits {limit : Nat} {bits : List Bool} (spells : Spells limit buf bits)
    (spells' : Spells limit buf' bits) : SameBits limit buf buf' := by
  intro p below
  rw [spells p below, spells' p below]

namespace SameBits

variable {limit : Nat} {next next' : Vector Dword n}

theorem bitsFrom_eq (same : SameBits limit buf buf') {start count : Nat}
    (inside : start + count ≤ limit) : bitsFrom buf start count = bitsFrom buf' start count := by
  apply List.map_congr_left
  intro k member
  have below : k < count := List.mem_range.mp member
  exact same (start + k) (by omega)

theorem adds (same : SameBits limit buf buf') {offset count : Nat} {field : Dword}
    (added : Adds offset count field buf next) (added' : Adds offset count field buf' next') :
    SameBits limit next next' := by
  intro p below
  rw [added p, added' p, same p below]

end SameBits

/-! ## Shift registers -/

/-- The levels `level 0 .. level (count - 1)` were shifted into a cleared dword,
    each at bit 31: the last one is on top. -/
def ShiftedIn (level : Nat → Bool) (count : Nat) (reg : Dword) : Prop :=
  ∀ p, p < 32 → reg.getLsbD p = (decide (32 ≤ count + p) && level (count + p - 32))

namespace ShiftedIn

variable {level : Nat → Bool} {count : Nat} {reg : Dword}

theorem zero (level : Nat → Bool) : ShiftedIn level 0 0 := by
  intro p below
  simp [show ¬32 ≤ p by omega]

theorem next (shifted : ShiftedIn level count reg) :
    ShiftedIn level (count + 1) (reg >>> 1 ||| if level count then 0x80000000 else 0) := by
  intro p below
  have top : (if level count then 0x80000000 else 0 : Dword).getLsbD p =
      (decide (p = 31) && level count) := by
    by_cases high : level count = true
    · have only : ∀ q : Fin 32, (0x80000000 : Dword).getLsbD q.val = decide (q.val = 31) := by
        decide
      rw [if_pos high, high, Bool.and_true]
      exact only ⟨p, below⟩
    · simp [high]
  rw [BitVec.getLsbD_or, BitVec.getLsbD_ushiftRight, top]
  by_cases last : p = 31
  · subst last
    rw [BitVec.getLsbD_of_ge _ _ (by decide)]
    simp
  · -- Every other bit comes from the bit above it
    rw [shifted (1 + p) (by omega), show count + 1 + p = count + (1 + p) by omega]
    simp [last]

/-- After a whole number of dwords the register is the last of them. -/
theorem dword (shifted : ShiftedIn level count reg) {p : Nat} (below : p < 32)
    (full : 32 ≤ count) : reg.getLsbD p = level (count - 32 + p) := by
  rw [shifted p below, show count + p - 32 = count - 32 + p by omega]
  simp [show 32 ≤ count + p by omega]

end ShiftedIn

end LoongsonEjtag.Lib
