import LoongsonEjtag.Lib.Ring

/-! # The ring buffer

`chry_ringbuffer.c`.  The two indices run freely and wrap at `2 ^ 32`; an index
masked with the pool size is a position in the pool.

* `ChryRingbuffer` — carries that it never holds more than its pool.
* `unread` — the bytes it holds, oldest first.
* `peek_snd`, `unread_read` — a read takes from the front of `unread`.
* `linearWriteSetup_eq`, `unread_linearWriteDone` — a linear write adds to its
  end.
* `vacant_apart`, `unread_copyIn` — what is behind the input index is not unread.
* `unread_write_cut`, `linearReadSetup_eq`, `unread_linearReadDone` — the same for
  the side that is written by the library and read linearly by the driver.
-/

namespace LoongsonEjtag

open Lib (Byte cells overlay)

/-- `chry_ringbuffer_t` over a pool of `2 ^ k` bytes: `chry_ringbuffer_init`
    refuses every other size, and the size is a `uint32_t`. -/
structure ChryRingbuffer (k : Nat) where
  inIdx : BitVec 32
  outIdx : BitVec 32
  pool : Vector Byte (2 ^ k)
  small : k < 32
  sound : (inIdx - outIdx).toNat ≤ 2 ^ k

/-- `if (a > b) a = b`. -/
theorem toNat_clamp (a b : BitVec 32) :
    (if a > b then b else a).toNat = min a.toNat b.toNat := by
  split <;> bv_omega

namespace ChryRingbuffer

variable {k : Nat}

/-! ## Indices -/

theorem size_lt (rb : ChryRingbuffer k) : 2 ^ k < 2 ^ 32 :=
  Nat.pow_lt_pow_right (by decide) rb.small

/-- The pool size divides `2 ^ 32`, so a wrapped index is at the position of the
    exact sum. -/
theorem toNat_add_mod (rb : ChryRingbuffer k) (x y : BitVec 32) :
    (x + y).toNat % 2 ^ k = (x.toNat + y.toNat) % 2 ^ k := by
  have divides : 2 ^ k ∣ 2 ^ 32 := Nat.pow_dvd_pow 2 rb.small.le
  rw [BitVec.toNat_add, Nat.mod_mod_of_dvd _ divides]

def mask (_ : ChryRingbuffer k) : BitVec 32 := BitVec.ofNat 32 (2 ^ k - 1)

variable (rb : ChryRingbuffer k)

/-- `chry_ringbuffer_get_used`. -/
def getUsed : BitVec 32 := rb.inIdx - rb.outIdx

theorem toNat_getUsed_le : rb.getUsed.toNat ≤ 2 ^ k := rb.sound

theorem toNat_mask : rb.mask.toNat = 2 ^ k - 1 := by
  have below := rb.size_lt
  rw [mask, BitVec.toNat_ofNat, Nat.mod_eq_of_lt (by omega)]

/-- `x & mask`. -/
theorem toNat_and_mask (x : BitVec 32) : (x &&& rb.mask).toNat = x.toNat % 2 ^ k := by
  rw [BitVec.toNat_and, rb.toNat_mask, Nat.and_two_pow_sub_one_eq_mod]

/-- `mask + 1`. -/
theorem toNat_size : (rb.mask + 1).toNat = 2 ^ k := by
  have below := rb.size_lt
  have positive : 0 < 2 ^ k := Nat.two_pow_pos k
  have one : (1 : BitVec 32).toNat = 1 := rfl
  rw [BitVec.toNat_add, rb.toNat_mask, one, Nat.sub_add_cancel positive, Nat.mod_eq_of_lt below]

/-- `mask + 1 - x` for an `x` up to the pool size. -/
theorem toNat_size_sub {x : BitVec 32} (most : x.toNat ≤ 2 ^ k) :
    (rb.mask + 1 - x).toNat = 2 ^ k - x.toNat := by
  rw [BitVec.toNat_sub_of_le (by rw [BitVec.le_def, rb.toNat_size]; exact most), rb.toNat_size]

/-- The input index is as far behind the output index as bytes are unread. -/
theorem inIdx_mod :
    rb.inIdx.toNat % 2 ^ k = (rb.outIdx.toNat + rb.getUsed.toNat) % 2 ^ k := by
  rw [← rb.toNat_add_mod, getUsed]
  congr 2
  bv_omega

/-! ## Operations -/

/-- `chry_ringbuffer_init`. -/
def init (pool : Vector Byte (2 ^ k)) (small : k < 32) : ChryRingbuffer k where
  inIdx := 0
  outIdx := 0
  pool := pool
  small := small
  sound := Nat.zero_le _

/-- The size of both USB rings is allowed. -/
theorem usbRing_small : 8 < 32 := by decide

/-- `chry_ringbuffer_reset`. -/
def reset : ChryRingbuffer k := { rb with inIdx := 0, outIdx := 0, sound := Nat.zero_le _ }

/-- `chry_ringbuffer_check_empty`. -/
def checkEmpty : Bool := rb.inIdx == rb.outIdx

/-- `chry_ringbuffer_peek`: the size it returns and the bytes it copies. -/
def peek (size : BitVec 32) : BitVec 32 × List Byte :=
  let used := rb.inIdx - rb.outIdx
  let size := if size > used then used else size
  let offset := rb.outIdx &&& rb.mask
  let remain := rb.mask + 1 - offset
  let remain := if remain > size then size else remain
  (size, (rb.pool.toList.drop offset.toNat).take remain.toNat ++
    rb.pool.toList.take (size - remain).toNat)

theorem toNat_peek_fst (size : BitVec 32) :
    (rb.peek size).1.toNat = min size.toNat rb.getUsed.toNat := toNat_clamp _ _

/-- `chry_ringbuffer_read`: the bytes it copies and the buffer after it. -/
def read (size : BitVec 32) : List Byte × ChryRingbuffer k :=
  ((rb.peek size).2, { rb with
    outIdx := rb.outIdx + (rb.peek size).1
    sound := by
      have taken := rb.toNat_peek_fst size
      have sound := rb.sound
      rw [getUsed] at taken
      bv_omega })

/-- `chry_ringbuffer_linear_write_setup`: the offset into the pool of the pointer
    it returns, and `*size`. -/
def linearWriteSetup : Nat × BitVec 32 :=
  let unused := rb.mask + 1 - (rb.inIdx - rb.outIdx)
  let offset := rb.inIdx &&& rb.mask
  let remain := rb.mask + 1 - offset
  let remain := if remain > unused then unused else remain
  if remain ≠ 0 then (offset.toNat, remain) else (0, unused - remain)

/-- `chry_ringbuffer_linear_write_done`. -/
def linearWriteDone (size : BitVec 32) : ChryRingbuffer k :=
  let unused := rb.mask + 1 - (rb.inIdx - rb.outIdx)
  let size' := if size > unused then unused else size
  { rb with
    inIdx := rb.inIdx + size'
    sound := by
      have clamped : size'.toNat ≤ 2 ^ k - rb.getUsed.toNat := by
        rw [← rb.toNat_size_sub rb.toNat_getUsed_le]
        exact (toNat_clamp _ _).trans_le (Nat.min_le_right _ _)
      have sound := rb.sound
      have below := rb.size_lt
      rw [getUsed] at clamped
      bv_omega }

/-- `chry_ringbuffer_get_free`. -/
def getFree : BitVec 32 := rb.mask + 1 - (rb.inIdx - rb.outIdx)

theorem toNat_getFree : rb.getFree.toNat = 2 ^ k - rb.getUsed.toNat :=
  rb.toNat_size_sub rb.toNat_getUsed_le

/-- `size` in `chry_ringbuffer_write` once it is cut to what fits; `data` is
    shorter than `2 ^ 32`. -/
def writeSize (data : List Byte) : BitVec 32 :=
  let unused := rb.mask + 1 - (rb.inIdx - rb.outIdx)
  let size := BitVec.ofNat 32 data.length
  if size > unused then unused else size

/-- `remain` in `chry_ringbuffer_write`. -/
def writeRemain (data : List Byte) : BitVec 32 :=
  let remain := rb.mask + 1 - (rb.inIdx &&& rb.mask)
  if remain > rb.writeSize data then rb.writeSize data else remain

theorem toNat_writeSize (data : List Byte) :
    (rb.writeSize data).toNat = min (data.length % 2 ^ 32) (2 ^ k - rb.getUsed.toNat) := by
  rw [← rb.toNat_getFree, ← BitVec.toNat_ofNat]
  exact toNat_clamp _ _

theorem toNat_writeRemain (data : List Byte) :
    (rb.writeRemain data).toNat =
      min (2 ^ k - rb.inIdx.toNat % 2 ^ k) (rb.writeSize data).toNat := by
  have position : rb.inIdx.toNat % 2 ^ k < 2 ^ k := Nat.mod_lt _ (Nat.two_pow_pos k)
  have offset := rb.toNat_and_mask rb.inIdx
  rw [← offset, ← rb.toNat_size_sub (by omega)]
  exact toNat_clamp _ _

theorem toNat_writeSize_sub (data : List Byte) :
    (rb.writeSize data - rb.writeRemain data).toNat =
      (rb.writeSize data).toNat - (rb.writeRemain data).toNat := by
  have remain := rb.toNat_writeRemain data
  exact BitVec.toNat_sub_of_le (by rw [BitVec.le_def]; omega)

/-- `chry_ringbuffer_write`, without the size it returns.  What does not fit is
    dropped. -/
def write (data : List Byte) : ChryRingbuffer k :=
  have fits : (rb.inIdx &&& rb.mask).toNat +
      (data.take (rb.writeRemain data).toNat).length ≤ 2 ^ k := by
    have position : rb.inIdx.toNat % 2 ^ k < 2 ^ k := Nat.mod_lt _ (Nat.two_pow_pos k)
    have upToEnd := rb.toNat_writeRemain data
    rw [List.length_take, rb.toNat_and_mask]
    omega
  have fits' : 0 + ((data.drop (rb.writeRemain data).toNat).take
      (rb.writeSize data - rb.writeRemain data).toNat).length ≤ 2 ^ k := by
    have cut := rb.toNat_writeSize data
    have rest := rb.toNat_writeSize_sub data
    rw [List.length_take]
    omega
  { rb with
    inIdx := rb.inIdx + rb.writeSize data
    pool := overlay (overlay rb.pool (rb.inIdx &&& rb.mask).toNat
        (data.take (rb.writeRemain data).toNat) fits) 0
      ((data.drop (rb.writeRemain data).toNat).take
        (rb.writeSize data - rb.writeRemain data).toNat) fits'
    sound := by
      have cut := rb.toNat_writeSize data
      have sound := rb.sound
      have below := rb.size_lt
      rw [getUsed] at cut
      generalize rb.writeSize data = size at cut
      bv_omega }

/-- `chry_ringbuffer_linear_read_setup`: the offset into the pool of the pointer it
    returns, and `*size`. -/
def linearReadSetup : Nat × BitVec 32 :=
  let used := rb.inIdx - rb.outIdx
  let offset := rb.outIdx &&& rb.mask
  let remain := rb.mask + 1 - offset
  let remain := if remain > used then used else remain
  if remain ≠ 0 then (offset.toNat, remain) else (0, used - remain)

/-- `chry_ringbuffer_drop`, without the size it returns. -/
def drop (size : BitVec 32) : ChryRingbuffer k :=
  let used := rb.inIdx - rb.outIdx
  let size' := if size > used then used else size
  { rb with
    outIdx := rb.outIdx + size'
    sound := by
      have clamped : size'.toNat = min size.toNat rb.getUsed.toNat := toNat_clamp _ _
      have sound := rb.sound
      rw [getUsed] at clamped
      bv_omega }

/-- `chry_ringbuffer_linear_read_done`. -/
def linearReadDone (size : BitVec 32) : ChryRingbuffer k := rb.drop size

/-- A copy into the pool, as a driver makes it between setup and done. -/
def copyIn (offset : Nat) (data : List Byte) (fits : offset + data.length ≤ 2 ^ k) :
    ChryRingbuffer k :=
  { rb with pool := overlay rb.pool offset data fits }

/-! ## Contents -/

/-- The bytes between the two indices, oldest first. -/
def unread : List Byte := cells rb.pool rb.outIdx.toNat rb.getUsed.toNat

/-- The `count` bytes behind the input index, which a linear write fills. -/
def vacant (count : Nat) : List Byte := cells rb.pool rb.inIdx.toNat count

variable {rb}

@[simp] theorem length_unread : rb.unread.length = rb.getUsed.toNat := by simp [unread]

/-- With both indices at zero nothing is unread. -/
theorem unread_fresh (inIdx : rb.inIdx = 0) (outIdx : rb.outIdx = 0) : rb.unread = [] := by
  simp [unread, getUsed, inIdx, outIdx]

theorem checkEmpty_iff : rb.checkEmpty = true ↔ rb.unread = [] := by
  rw [← List.length_eq_zero_iff, length_unread, checkEmpty, beq_iff_eq, getUsed]
  constructor
  · rintro same
    rw [same, BitVec.sub_self]
    rfl
  · intro none
    bv_omega

/-! ## Reads -/

/-- A copy in two parts, up to the end of the pool and from its start. -/
theorem twoParts {count remain : BitVec 32} (most : count.toNat ≤ 2 ^ k)
    (upToEnd : remain.toNat = min (2 ^ k - rb.outIdx.toNat % 2 ^ k) count.toNat) :
    (rb.pool.toList.drop (rb.outIdx &&& rb.mask).toNat).take remain.toNat ++
        rb.pool.toList.take (count - remain).toNat =
      cells rb.pool rb.outIdx.toNat count.toNat := by
  have position : rb.outIdx.toNat % 2 ^ k < 2 ^ k := Nat.mod_lt _ (Nat.two_pow_pos k)
  rw [rb.toNat_and_mask, BitVec.toNat_sub_of_le (by rw [BitVec.le_def]; omega), upToEnd]
  rcases Nat.le_total (2 ^ k) (rb.outIdx.toNat % 2 ^ k + count.toNat) with past | inside
  · rw [Nat.min_eq_left (by omega), Lib.cells_around past most]
  · rw [Nat.min_eq_right (by omega), Nat.sub_self, List.take_zero, List.append_nil,
      Lib.cells_inside inside]

/-- A read copies the oldest bytes. -/
theorem peek_snd (size : BitVec 32) : (rb.peek size).2 = rb.unread.take size.toNat := by
  have count := rb.toNat_peek_fst size
  have position : rb.outIdx.toNat % 2 ^ k < 2 ^ k := Nat.mod_lt _ (Nat.two_pow_pos k)
  have sound := rb.toNat_getUsed_le
  have oldest : rb.unread.take size.toNat =
      cells rb.pool rb.outIdx.toNat (rb.peek size).1.toNat := by
    rw [List.take_eq_take_min, length_unread, ← count]
    exact Lib.take_cells (by omega)
  have offset := rb.toNat_and_mask rb.outIdx
  have remain := toNat_clamp (rb.mask + 1 - (rb.outIdx &&& rb.mask)) (rb.peek size).1
  rw [rb.toNat_size_sub (by omega), offset] at remain
  have most : (rb.peek size).1.toNat ≤ 2 ^ k := by omega
  rw [oldest]
  exact twoParts most remain

/-- A read takes from the front. -/
theorem unread_read (size : BitVec 32) :
    (rb.read size).2.unread = rb.unread.drop size.toNat := by
  have count := rb.toNat_peek_fst size
  have used : (rb.read size).2.getUsed.toNat = rb.getUsed.toNat - (rb.peek size).1.toNat := by
    simp only [getUsed, read] at count ⊢
    bv_omega
  have oldest : rb.unread.drop size.toNat = rb.unread.drop (rb.peek size).1.toNat := by
    rw [count]
    rcases Nat.le_total size.toNat rb.getUsed.toNat with less | more
    · rw [Nat.min_eq_left less]
    · rw [Nat.min_eq_right more, List.drop_of_length_le (by simpa using more),
        List.drop_of_length_le (by simp)]
  rw [oldest, unread, unread, used, Lib.drop_cells (by omega)]
  exact Lib.cells_congr (rb.toNat_add_mod _ _)

/-! ## Linear writes -/

/-- The region offered ends where the pool or the vacant space does, and starts
    at the position of the input index unless it is empty. -/
theorem linearWriteSetup_eq :
    rb.linearWriteSetup.2.toNat =
        min (2 ^ k - rb.inIdx.toNat % 2 ^ k) (2 ^ k - rb.getUsed.toNat) ∧
      (0 < rb.linearWriteSetup.2.toNat → rb.linearWriteSetup.1 = rb.inIdx.toNat % 2 ^ k) := by
  have position : rb.inIdx.toNat % 2 ^ k < 2 ^ k := Nat.mod_lt _ (Nat.two_pow_pos k)
  have offset := rb.toNat_and_mask rb.inIdx
  have unused : (rb.mask + 1 - (rb.inIdx - rb.outIdx)).toNat = 2 ^ k - rb.getUsed.toNat :=
    rb.toNat_size_sub rb.toNat_getUsed_le
  have remain := toNat_clamp (rb.mask + 1 - (rb.inIdx &&& rb.mask))
    (rb.mask + 1 - (rb.inIdx - rb.outIdx))
  rw [rb.toNat_size_sub (by omega), offset, unused] at remain
  simp only [linearWriteSetup]
  generalize (if rb.mask + 1 - (rb.inIdx &&& rb.mask) > rb.mask + 1 - (rb.inIdx - rb.outIdx) then
    rb.mask + 1 - (rb.inIdx - rb.outIdx) else rb.mask + 1 - (rb.inIdx &&& rb.mask)) = r at remain ⊢
  by_cases none : r = 0
  · -- The pool is full, and the region offered at its start is empty too.
    rw [if_neg (not_not.mpr none), none]
    have zero : r.toNat = 0 := congrArg BitVec.toNat none
    have offered : (rb.mask + 1 - (rb.inIdx - rb.outIdx) - 0).toNat = 2 ^ k - rb.getUsed.toNat :=
      (congrArg BitVec.toNat (BitVec.sub_zero _)).trans unused
    exact ⟨offered.trans (by omega), fun some => absurd (offered ▸ some) (by omega)⟩
  · rw [if_pos none]
    exact ⟨remain, fun _ => offset⟩

/-- With both indices at zero the whole pool is offered. -/
theorem linearWriteSetup_fresh (inIdx : rb.inIdx = 0) (outIdx : rb.outIdx = 0) :
    rb.linearWriteSetup.2.toNat = 2 ^ k := by
  rw [linearWriteSetup_eq.1, getUsed, inIdx, outIdx]
  simp

/-- A linear write adds the bytes behind the input index at the end. -/
theorem unread_linearWriteDone {size : BitVec 32}
    (room : rb.getUsed.toNat + size.toNat ≤ 2 ^ k) :
    (rb.linearWriteDone size).unread = rb.unread ++ rb.vacant size.toNat := by
  have below := rb.size_lt
  have unused := rb.toNat_size_sub rb.toNat_getUsed_le
  have whole : (if size > rb.mask + 1 - rb.getUsed then rb.mask + 1 - rb.getUsed else size) =
      size := if_neg (by rw [gt_iff_lt, BitVec.lt_def]; omega)
  have moved : (rb.linearWriteDone size).inIdx = rb.inIdx + size := congrArg (rb.inIdx + ·) whole
  have used : (rb.linearWriteDone size).getUsed.toNat = rb.getUsed.toNat + size.toNat := by
    rw [getUsed, moved]
    simp only [getUsed, linearWriteDone] at room ⊢
    bv_omega
  rw [unread, used, Lib.cells_add]
  exact congrArg (rb.unread ++ ·) (Lib.cells_congr rb.inIdx_mod.symm)

/-- A position behind the input index holds no unread byte. -/
theorem vacant_apart {i j : Nat} (unread : i < rb.getUsed.toNat)
    (inPool : rb.inIdx.toNat % 2 ^ k + j < 2 ^ k) (room : rb.getUsed.toNat + j < 2 ^ k) :
    (rb.outIdx.toNat + i) % 2 ^ k ≠ rb.inIdx.toNat % 2 ^ k + j := by
  have ahead : (rb.outIdx.toNat + (rb.getUsed.toNat + j)) % 2 ^ k =
      rb.inIdx.toNat % 2 ^ k + j := by
    rw [← Lib.ring_straight inPool, ← Nat.add_assoc, Nat.add_mod, ← rb.inIdx_mod, ← Nat.add_mod]
  rw [← ahead]
  exact Lib.ring_apart (show i < rb.getUsed.toNat + j by omega) room

variable {start offset : Nat} {data : List Byte}

/-- A copy behind the input index leaves the unread bytes. -/
theorem unread_copyIn (behind : start = rb.inIdx.toNat % 2 ^ k + offset)
    (fits : start + data.length ≤ 2 ^ k)
    (room : rb.getUsed.toNat + offset + data.length ≤ 2 ^ k) :
    (rb.copyIn start data fits).unread = rb.unread := by
  change cells (overlay _ _ _ fits) rb.outIdx.toNat rb.getUsed.toNat = _
  refine Lib.cells_overlay_apart fits fun i below => ?_
  by_contra inside
  obtain ⟨j, reaches⟩ : ∃ j, rb.inIdx.toNat % 2 ^ k + j = (rb.outIdx.toNat + i) % 2 ^ k :=
    ⟨_, Nat.add_sub_cancel' (by omega)⟩
  exact vacant_apart below (by omega) (by omega) reaches.symm

/-- Copies one after another fill the vacant bytes in order. -/
theorem vacant_copyIn (behind : start = rb.inIdx.toNat % 2 ^ k + offset)
    (fits : start + data.length ≤ 2 ^ k) :
    (rb.copyIn start data fits).vacant (offset + data.length) = rb.vacant offset ++ data := by
  change cells (overlay _ _ _ fits) rb.inIdx.toNat _ = _
  rw [Lib.cells_add]
  congr 1
  · refine Lib.cells_overlay_apart fits fun i below => .inl ?_
    exact (Lib.ring_straight (by omega)).trans_lt (by omega)
  · rcases data.eq_nil_or_concat with rfl | ⟨_, _, rfl⟩
    · rfl
    · rw [List.length_concat] at fits
      exact Lib.cells_overlay _ ((Lib.ring_straight (by omega)).trans behind.symm)

/-! ## Writes -/

/-- A write adds what it does not cut off at the end. -/
theorem unread_write_cut (data : List Byte) :
    (rb.write data).unread = rb.unread ++ data.take (rb.writeSize data).toNat := by
  have below := rb.size_lt
  have sound := rb.toNat_getUsed_le
  have position : rb.inIdx.toNat % 2 ^ k < 2 ^ k := Nat.mod_lt _ (Nat.two_pow_pos k)
  have cut := rb.toNat_writeSize data
  have remain := rb.toNat_writeRemain data
  have rest := rb.toNat_writeSize_sub data
  have length : (data.take (rb.writeSize data).toNat).length = (rb.writeSize data).toNat := by
    have most := Nat.mod_le data.length (2 ^ 32)
    rw [List.length_take]
    omega
  have pool : (rb.write data).pool = Lib.overlayAround rb.pool rb.inIdx.toNat
      (data.take (rb.writeSize data).toNat) (by omega) := by
    have first : data.take (rb.writeRemain data).toNat =
        (data.take (rb.writeSize data).toNat).take (2 ^ k - rb.inIdx.toNat % 2 ^ k) := by
      rw [remain, List.take_take]
    have second : (data.drop (rb.writeRemain data).toNat).take
        (rb.writeSize data - rb.writeRemain data).toNat =
          (data.take (rb.writeSize data).toNat).drop (2 ^ k - rb.inIdx.toNat % 2 ^ k) := by
      rw [rest, List.drop_take, remain]
      rcases Nat.le_total (2 ^ k - rb.inIdx.toNat % 2 ^ k) (rb.writeSize data).toNat
        with past | inside
      · rw [Nat.min_eq_left past]
      · rw [Nat.min_eq_right inside, Nat.sub_self, Nat.sub_eq_zero_of_le inside, List.take_zero,
          List.take_zero]
    simp only [write, Lib.overlayAround, rb.toNat_and_mask, first, second]
  have used : (rb.write data).getUsed.toNat =
      rb.getUsed.toNat + (data.take (rb.writeSize data).toNat).length := by
    have moved : (rb.write data).getUsed = rb.inIdx + rb.writeSize data - rb.outIdx := rfl
    rw [moved, length]
    rw [getUsed] at cut sound ⊢
    generalize rb.writeSize data = size at cut
    bv_omega
  rw [unread, used, Lib.cells_add, pool]
  congr 1
  · exact Lib.cells_overlayAround_apart _ rb.inIdx_mod (by omega)
  · exact (Lib.cells_congr rb.inIdx_mod.symm).trans (Lib.cells_overlayAround _)

/-- A write that fits is whole. -/
theorem unread_write {data : List Byte} (room : rb.getUsed.toNat + data.length ≤ 2 ^ k) :
    (rb.write data).unread = rb.unread ++ data := by
  have below := rb.size_lt
  have whole : data.length ≤ (rb.writeSize data).toNat := by
    rw [rb.toNat_writeSize, Nat.mod_eq_of_lt (by omega)]
    omega
  rw [unread_write_cut, List.take_of_length_le whole]

/-! ## Linear reads -/

/-- The region offered starts at the oldest byte, and ends where the pool or the
    unread bytes do. -/
theorem linearReadSetup_eq :
    rb.linearReadSetup.2.toNat = min (2 ^ k - rb.outIdx.toNat % 2 ^ k) rb.getUsed.toNat ∧
      (0 < rb.linearReadSetup.2.toNat → rb.linearReadSetup.1 = rb.outIdx.toNat % 2 ^ k) := by
  have position : rb.outIdx.toNat % 2 ^ k < 2 ^ k := Nat.mod_lt _ (Nat.two_pow_pos k)
  have offset := rb.toNat_and_mask rb.outIdx
  have remain := toNat_clamp (rb.mask + 1 - (rb.outIdx &&& rb.mask)) (rb.inIdx - rb.outIdx)
  rw [rb.toNat_size_sub (by omega), offset] at remain
  simp only [linearReadSetup]
  generalize (if rb.mask + 1 - (rb.outIdx &&& rb.mask) > rb.inIdx - rb.outIdx then
    rb.inIdx - rb.outIdx else rb.mask + 1 - (rb.outIdx &&& rb.mask)) = r at remain ⊢
  by_cases none : r = 0
  · -- Nothing is unread, and the region offered at the start of the pool is empty too.
    rw [if_neg (not_not.mpr none), none]
    have zero : r.toNat = 0 := congrArg BitVec.toNat none
    have offered : (rb.inIdx - rb.outIdx - 0).toNat = rb.getUsed.toNat :=
      congrArg BitVec.toNat (BitVec.sub_zero _)
    have empty : rb.getUsed.toNat = 0 := by
      rw [getUsed]
      omega
    exact ⟨offered.trans (by omega), fun some => absurd (offered ▸ some) (by omega)⟩
  · rw [if_pos none]
    exact ⟨remain, fun _ => offset⟩

/-- The oldest bytes in memory order. -/
theorem linearReadSetup_data {count : Nat} (most : count ≤ rb.linearReadSetup.2.toNat) :
    (rb.pool.toList.drop rb.linearReadSetup.1).take count = rb.unread.take count := by
  obtain ⟨avail, start⟩ := rb.linearReadSetup_eq
  have position : rb.outIdx.toNat % 2 ^ k < 2 ^ k := Nat.mod_lt _ (Nat.two_pow_pos k)
  by_cases some : 0 < rb.linearReadSetup.2.toNat
  · rw [start some, unread, Lib.take_cells (by omega), Lib.cells_inside (by omega)]
  · rw [show count = 0 by omega, List.take_zero, List.take_zero]

theorem unread_linearReadDone (size : BitVec 32) :
    (rb.linearReadDone size).unread = rb.unread.drop size.toNat := unread_read size

end ChryRingbuffer

end LoongsonEjtag
