import LoongsonEjtag.Lib.BoundedQueue
import LoongsonEjtag.Ringbuffer

/-! # The ring buffer is a bounded queue

The calls of `chry_ringbuffer.h`, all of them, against a queue of bytes that knows
nothing of indices, masks and the two parts of a copy.

* `overwrite`, `overwriteByte` — the calls that give up the oldest bytes.
* `RingCall` — the calls, `ChryRingbuffer.call` and `queueCall` — what they do to
  the ring and to the queue.
* `ring_refines_queue` — every list of calls has the same results on both, from
  any position of the indices on.
* `linear_agrees` — the driver's way around the calls, a pointer into the pool,
  does what `chry_ringbuffer_write` and `chry_ringbuffer_read` do.
-/

namespace LoongsonEjtag

open Lib (Byte cells overlay overlayAround BoundedQueue)

namespace ChryRingbuffer

variable {k : Nat} (rb : ChryRingbuffer k)

/-! ## Calls not used by the firmware -/

/-- `chry_ringbuffer_reset_read`. -/
def resetRead : ChryRingbuffer k :=
  { rb with outIdx := rb.inIdx, sound := by rw [BitVec.sub_self]; exact Nat.zero_le _ }

/-- `chry_ringbuffer_get_size`. -/
def getSize : BitVec 32 := rb.mask + 1

/-- `chry_ringbuffer_check_full`. -/
def checkFull : Bool := rb.getUsed > rb.mask

theorem toNat_and_mask_lt (x : BitVec 32) : (x &&& rb.mask).toNat < 2 ^ k := by
  rw [rb.toNat_and_mask]
  exact Nat.mod_lt _ (Nat.two_pow_pos k)

theorem checkFull_iff : rb.checkFull = true ↔ rb.getUsed.toNat = 2 ^ k := by
  have mask := rb.toNat_mask
  have sound := rb.toNat_getUsed_le
  have positive : 0 < 2 ^ k := Nat.two_pow_pos k
  rw [checkFull, decide_eq_true_iff, gt_iff_lt, BitVec.lt_def]
  omega

/-- A byte behind the input index, which goes on by one. -/
def put (byte : Byte) (room : rb.getUsed.toNat < 2 ^ k) : ChryRingbuffer k :=
  { rb with
    inIdx := rb.inIdx + 1
    pool := rb.pool.set (rb.inIdx &&& rb.mask).toNat byte (rb.toNat_and_mask_lt _)
    sound := by
      have below := rb.size_lt
      rw [getUsed] at room
      bv_omega }

/-- The output index goes on by one. -/
def skip (some : 0 < rb.getUsed.toNat) : ChryRingbuffer k :=
  { rb with
    outIdx := rb.outIdx + 1
    sound := by
      have sound := rb.sound
      rw [getUsed] at some
      bv_omega }

theorem toNat_getUsed_skip (some : 0 < rb.getUsed.toNat) :
    (rb.skip some).getUsed.toNat = rb.getUsed.toNat - 1 := by
  simp only [getUsed, skip] at some ⊢
  bv_omega

/-- `chry_ringbuffer_write_byte`. -/
def writeByte (byte : Byte) : Bool × ChryRingbuffer k :=
  if full : rb.checkFull = true then (false, rb)
  else (true, rb.put byte (by
    have sound := rb.toNat_getUsed_le
    rw [checkFull_iff] at full
    omega))

/-- `chry_ringbuffer_overwrite_byte`, which always returns `true`. -/
def overwriteByte (byte : Byte) : ChryRingbuffer k :=
  if full : rb.checkFull = true then
    (rb.skip (by
      rw [rb.checkFull_iff.mp full]
      exact Nat.two_pow_pos k)).put byte (by
        rw [toNat_getUsed_skip, rb.checkFull_iff.mp full]
        exact Nat.sub_one_lt (Nat.two_pow_pos k).ne')
  else rb.put byte (by
    have sound := rb.toNat_getUsed_le
    rw [checkFull_iff] at full
    omega)

/-- `chry_ringbuffer_peek_byte`; `none` where it returns `false`. -/
def peekByte : Option Byte :=
  if rb.checkEmpty then none
  else some (rb.pool.get ⟨(rb.outIdx &&& rb.mask).toNat, rb.toNat_and_mask_lt _⟩)

theorem getUsed_pos (some : ¬rb.checkEmpty = true) : 0 < rb.getUsed.toNat := by
  rw [checkEmpty_iff, ← List.length_eq_zero_iff, length_unread] at some
  omega

/-- `chry_ringbuffer_read_byte`. -/
def readByte : Option Byte × ChryRingbuffer k :=
  (rb.peekByte, if empty : rb.checkEmpty = true then rb else rb.skip (rb.getUsed_pos empty))

/-- `chry_ringbuffer_drop_byte`. -/
def dropByte : Bool × ChryRingbuffer k :=
  if empty : rb.checkEmpty = true then (false, rb) else (true, rb.skip (rb.getUsed_pos empty))

/-- `size` in `chry_ringbuffer_overwrite` once it is cut to the pool; `data` is
    shorter than `2 ^ 32`. -/
def overwriteSize (data : List Byte) : BitVec 32 :=
  let unused := rb.mask + 1 - (rb.inIdx - rb.outIdx)
  let size := BitVec.ofNat 32 data.length
  if size > unused then (if size > rb.mask + 1 then rb.mask + 1 else size) else size

/-- `out` in `chry_ringbuffer_overwrite`. -/
def overwriteOut (data : List Byte) : BitVec 32 :=
  let unused := rb.mask + 1 - (rb.inIdx - rb.outIdx)
  let size := BitVec.ofNat 32 data.length
  if size > unused then rb.outIdx + (rb.overwriteSize data - unused) else rb.outIdx

/-- `remain` in `chry_ringbuffer_overwrite`. -/
def overwriteRemain (data : List Byte) : BitVec 32 :=
  let remain := rb.mask + 1 - (rb.inIdx &&& rb.mask)
  if remain > rb.overwriteSize data then rb.overwriteSize data else remain

theorem toNat_overwriteSize (data : List Byte) :
    (rb.overwriteSize data).toNat = min (data.length % 2 ^ 32) (2 ^ k) := by
  have size := rb.toNat_size
  have free := rb.toNat_getFree
  have length : (BitVec.ofNat 32 data.length).toNat = data.length % 2 ^ 32 := BitVec.toNat_ofNat _ _
  rw [getFree] at free
  rw [overwriteSize]
  split
  · rw [toNat_clamp, size, length]
  · rename_i fits
    rw [gt_iff_lt, BitVec.lt_def, Nat.not_lt] at fits
    omega

theorem toNat_overwriteRemain (data : List Byte) :
    (rb.overwriteRemain data).toNat =
      min (2 ^ k - rb.inIdx.toNat % 2 ^ k) (rb.overwriteSize data).toNat := by
  have position : rb.inIdx.toNat % 2 ^ k < 2 ^ k := Nat.mod_lt _ (Nat.two_pow_pos k)
  have offset := rb.toNat_and_mask rb.inIdx
  rw [← offset, ← rb.toNat_size_sub (by omega)]
  exact toNat_clamp _ _

/-- The output index moves on by the bytes that are given up. -/
theorem overwriteOut_eq (data : List Byte) :
    ∃ lost : BitVec 32, rb.overwriteOut data = rb.outIdx + lost ∧
      lost.toNat = rb.getUsed.toNat + (rb.overwriteSize data).toNat - 2 ^ k := by
  have sound := rb.toNat_getUsed_le
  have size := rb.toNat_overwriteSize data
  have free := rb.toNat_getFree
  have length : (BitVec.ofNat 32 data.length).toNat = data.length % 2 ^ 32 := BitVec.toNat_ofNat _ _
  rw [overwriteOut]
  change ∃ lost, (if BitVec.ofNat 32 data.length > rb.getFree then
    rb.outIdx + (rb.overwriteSize data - rb.getFree) else rb.outIdx) = _ ∧ _
  split
  case isTrue more =>
    rw [gt_iff_lt, BitVec.lt_def] at more
    refine ⟨_, rfl, ?_⟩
    rw [BitVec.toNat_sub_of_le (by rw [BitVec.le_def]; omega)]
    omega
  case isFalse fits =>
    rw [gt_iff_lt, BitVec.lt_def, Nat.not_lt] at fits
    refine ⟨0, (BitVec.add_zero _).symm, ?_⟩
    change 0 = _
    omega

/-- `chry_ringbuffer_overwrite`: the size it returns and the buffer after it. -/
def overwrite (data : List Byte) : BitVec 32 × ChryRingbuffer k :=
  have fits : (rb.inIdx &&& rb.mask).toNat +
      (data.take (rb.overwriteRemain data).toNat).length ≤ 2 ^ k := by
    have position := rb.toNat_and_mask_lt rb.inIdx
    have upToEnd := rb.toNat_overwriteRemain data
    rw [List.length_take, rb.toNat_and_mask]
    omega
  have fits' : 0 + ((data.drop (rb.overwriteRemain data).toNat).take
      (rb.overwriteSize data - rb.overwriteRemain data).toNat).length ≤ 2 ^ k := by
    have size := rb.toNat_overwriteSize data
    have upToEnd := rb.toNat_overwriteRemain data
    rw [BitVec.toNat_sub_of_le (by rw [BitVec.le_def]; omega), List.length_take]
    omega
  (rb.overwriteSize data,
  { rb with
    inIdx := rb.inIdx + rb.overwriteSize data
    outIdx := rb.overwriteOut data
    pool := overlay (overlay rb.pool (rb.inIdx &&& rb.mask).toNat
        (data.take (rb.overwriteRemain data).toNat) fits) 0
      ((data.drop (rb.overwriteRemain data).toNat).take
        (rb.overwriteSize data - rb.overwriteRemain data).toNat) fits'
    sound := by
      obtain ⟨lost, out, count⟩ := rb.overwriteOut_eq data
      have size := rb.toNat_overwriteSize data
      have sound := rb.toNat_getUsed_le
      have below := rb.size_lt
      rw [out]
      rw [getUsed] at count sound
      generalize rb.overwriteSize data = size' at count size
      bv_omega })

/-! ## What they do to the contents -/

variable {rb}

/-- The byte at the front. -/
theorem peekByte_eq : rb.peekByte = rb.unread.head? := by
  rw [peekByte]
  split
  case isTrue empty => rw [checkEmpty_iff.mp empty, List.head?_nil]
  case isFalse some =>
    have first := rb.getUsed_pos some
    rw [List.head?_eq_getElem?, unread, Lib.getElem?_cells first, Nat.add_zero]
    have inside : rb.outIdx.toNat % 2 ^ k < 2 ^ k := Nat.mod_lt _ (Nat.two_pow_pos k)
    simp [Vector.get, rb.toNat_and_mask, inside]

theorem unread_skip (some : 0 < rb.getUsed.toNat) :
    (rb.skip some).unread = rb.unread.drop 1 := by
  rw [unread, toNat_getUsed_skip, unread, Lib.drop_cells some]
  exact Lib.cells_congr (rb.toNat_add_mod _ _)

theorem unread_resetRead : rb.resetRead.unread = [] := by
  rw [← List.length_eq_zero_iff, length_unread, getUsed, resetRead]
  simp

theorem toList_set_eq {v : Vector Byte (2 ^ k)} {i : Nat} (below : i < 2 ^ k) (byte : Byte)
    (fits : i + [byte].length ≤ 2 ^ k) : v.set i byte below = overlay v i [byte] fits := by
  apply Vector.toList_inj.mp
  rw [Lib.toList_overlay, Vector.toList_set, List.set_eq_take_append_cons_drop]
  simp [below]

theorem unread_put (byte : Byte) (room : rb.getUsed.toNat < 2 ^ k) :
    (rb.put byte room).unread = rb.unread ++ [byte] := by
  have below := rb.toNat_and_mask_lt rb.inIdx
  have position := rb.toNat_and_mask rb.inIdx
  have size := rb.size_lt
  have used : (rb.put byte room).getUsed.toNat = rb.getUsed.toNat + 1 := by
    simp only [getUsed, put] at room ⊢
    bv_omega
  have pool : (rb.put byte room).pool = overlay rb.pool (rb.inIdx.toNat % 2 ^ k) [byte]
      (by rw [← position]; exact below) := by
    simp only [put]
    rw [toList_set_eq below byte below]
    congr 1
  rw [unread, used, Lib.cells_add, pool]
  congr 1
  · change cells _ rb.outIdx.toNat rb.getUsed.toNat = _
    refine Lib.cells_overlay_apart _ fun i unread => ?_
    have apart := vacant_apart (j := 0) unread (by omega) (by omega)
    rw [List.length_singleton]
    omega
  · exact (Lib.cells_congr rb.inIdx_mod.symm).trans (Lib.cells_overlay _ rfl)

/-- The two parts of a copy, for any length of the data. -/
theorem twoCopies_eq {data : List Byte} {start offset size remain rest : Nat}
    (position : offset = start % 2 ^ k) (upToEnd : remain = min (2 ^ k - start % 2 ^ k) size)
    (left : rest = size - remain) (most : (data.take size).length ≤ 2 ^ k)
    (fits : offset + (data.take remain).length ≤ 2 ^ k)
    (fits' : 0 + ((data.drop remain).take rest).length ≤ 2 ^ k) :
    overlay (overlay rb.pool offset (data.take remain) fits) 0 ((data.drop remain).take rest)
        fits' = overlayAround rb.pool start (data.take size) most := by
  have first : data.take remain = (data.take size).take (2 ^ k - start % 2 ^ k) := by
    rw [upToEnd, List.take_take]
  have second : (data.drop remain).take rest =
      (data.take size).drop (2 ^ k - start % 2 ^ k) := by
    rw [left, List.drop_take, upToEnd]
    rcases Nat.le_total (2 ^ k - start % 2 ^ k) size with past | inside
    · rw [Nat.min_eq_left past]
    · rw [Nat.min_eq_right inside, Nat.sub_self, Nat.sub_eq_zero_of_le inside, List.take_zero,
        List.take_zero]
  subst position
  simp only [overlayAround, first, second]

/-- The oldest bytes make room for what does not fit. -/
theorem unread_overwrite {data : List Byte} (small : data.length < 2 ^ 32) :
    (rb.overwrite data).2.unread = (rb.unread ++ data.take (2 ^ k)).drop
      (rb.unread.length + (data.take (2 ^ k)).length - 2 ^ k) := by
  have below := rb.size_lt
  have sound := rb.toNat_getUsed_le
  have position : rb.inIdx.toNat % 2 ^ k < 2 ^ k := Nat.mod_lt _ (Nat.two_pow_pos k)
  have size := rb.toNat_overwriteSize data
  have remain := rb.toNat_overwriteRemain data
  obtain ⟨lost, out, count⟩ := rb.overwriteOut_eq data
  rw [Nat.mod_eq_of_lt small] at size
  have whole : data.take (rb.overwriteSize data).toNat = data.take (2 ^ k) := by
    rw [size, Nat.min_comm, ← List.take_eq_take_min]
  have length : (data.take (2 ^ k)).length = (rb.overwriteSize data).toNat := by
    rw [List.length_take, size, Nat.min_comm]
  have moved : (rb.overwrite data).2.outIdx = rb.outIdx + lost := out
  have used : (rb.overwrite data).2.getUsed.toNat =
      rb.getUsed.toNat - lost.toNat + (data.take (2 ^ k)).length := by
    change (rb.inIdx + rb.overwriteSize data - rb.overwriteOut data).toNat = _
    rw [out, length]
    rw [getUsed] at sound count ⊢
    generalize rb.overwriteSize data = size' at size count
    bv_omega
  have pool : (rb.overwrite data).2.pool =
      overlayAround rb.pool rb.inIdx.toNat (data.take (2 ^ k)) (by omega) := by
    simp only [overwrite, ← whole]
    apply twoCopies_eq (rb.toNat_and_mask _) remain
    exact BitVec.toNat_sub_of_le (by rw [BitVec.le_def]; omega)
  have start : (rb.outIdx + lost).toNat % 2 ^ k = (rb.outIdx.toNat + lost.toNat) % 2 ^ k :=
    rb.toNat_add_mod _ _
  have behind : rb.inIdx.toNat % 2 ^ k =
      ((rb.outIdx + lost).toNat + (rb.getUsed.toNat - lost.toNat)) % 2 ^ k := by
    rw [Nat.add_mod, start, ← Nat.add_mod, rb.inIdx_mod]
    congr 1
    omega
  have kept : cells rb.pool (rb.outIdx + lost).toNat (rb.getUsed.toNat - lost.toNat) =
      rb.unread.drop lost.toNat := by
    rw [unread, Lib.drop_cells (by omega)]
    exact Lib.cells_congr start
  have excess : rb.unread.length + (data.take (2 ^ k)).length - 2 ^ k = lost.toNat := by
    rw [length_unread, length, count]
  rw [excess, List.drop_append_of_le_length (by rw [length_unread]; omega)]
  change cells (rb.overwrite data).2.pool (rb.overwrite data).2.outIdx.toNat
    (rb.overwrite data).2.getUsed.toNat = _
  rw [used, Lib.cells_add, pool, moved]
  congr 1
  · exact (Lib.cells_overlayAround_apart _ behind (by omega)).trans kept
  · exact (Lib.cells_congr behind.symm).trans (Lib.cells_overlayAround _)

/-- Without a byte there is nothing to take from the front. -/
theorem unread_empty (empty : rb.checkEmpty = true) : rb.unread.drop 1 = rb.unread := by
  rw [checkEmpty_iff.mp empty, List.drop_nil]

theorem checkFull_eq : rb.checkFull = decide (2 ^ k - rb.unread.length = 0) := by
  have sound := rb.toNat_getUsed_le
  rw [Bool.eq_iff_iff, rb.checkFull_iff, decide_eq_true_iff, length_unread]
  omega

theorem checkEmpty_eq : rb.checkEmpty = rb.unread.isEmpty := by
  rw [Bool.eq_iff_iff, checkEmpty_iff, List.isEmpty_iff]

end ChryRingbuffer

/-! ## Calls -/

/-- Data of a length that a `uint32_t` can tell. -/
abbrev SizedData := { data : List Byte // data.length < 2 ^ 32 }

/-- The functions of `chry_ringbuffer.h` but for the set-up and the linear ones. -/
inductive RingCall where
  | reset
  | resetRead
  | getSize
  | getUsed
  | getFree
  | checkFull
  | checkEmpty
  | writeByte (byte : Byte)
  | overwriteByte (byte : Byte)
  | peekByte
  | readByte
  | dropByte
  | write (data : SizedData)
  | overwrite (data : SizedData)
  | peek (size : BitVec 32)
  | read (size : BitVec 32)
  | drop (size : BitVec 32)

/-- What a call returns and copies out. -/
inductive RingResult where
  | nothing
  | count (n : Nat)
  | flag (value : Bool)
  | byte (value : Option Byte)
  | bytes (n : Nat) (data : List Byte)
deriving DecidableEq

/-- A call on the ring. -/
def ChryRingbuffer.call {k : Nat} (c : RingCall) (rb : ChryRingbuffer k) :
    RingResult × ChryRingbuffer k :=
  match c with
  | .reset => (.nothing, rb.reset)
  | .resetRead => (.nothing, rb.resetRead)
  | .getSize => (.count rb.getSize.toNat, rb)
  | .getUsed => (.count rb.getUsed.toNat, rb)
  | .getFree => (.count rb.getFree.toNat, rb)
  | .checkFull => (.flag rb.checkFull, rb)
  | .checkEmpty => (.flag rb.checkEmpty, rb)
  | .writeByte byte => (.flag (rb.writeByte byte).1, (rb.writeByte byte).2)
  | .overwriteByte byte => (.flag true, rb.overwriteByte byte)
  | .peekByte => (.byte rb.peekByte, rb)
  | .readByte => (.byte rb.readByte.1, rb.readByte.2)
  | .dropByte => (.flag rb.dropByte.1, rb.dropByte.2)
  | .write data => (.count (rb.writeSize data).toNat, rb.write data)
  | .overwrite data => (.count (rb.overwrite data).1.toNat, (rb.overwrite data).2)
  | .peek size => (.bytes (rb.peek size).1.toNat (rb.peek size).2, rb)
  | .read size => (.bytes (rb.peek size).1.toNat (rb.read size).1, (rb.read size).2)
  -- The size is cut to what is unread, as in a read.
  | .drop size => (.count (rb.peek size).1.toNat, rb.drop size)

/-- What a call means for a queue of `n` bytes at most. -/
def queueCall {n : Nat} (c : RingCall) (q : BoundedQueue Byte n) :
    RingResult × BoundedQueue Byte n :=
  match c with
  | .reset | .resetRead => (.nothing, .empty)
  | .getSize => (.count n, q)
  | .getUsed => (.count q.contents.length, q)
  | .getFree => (.count q.room, q)
  | .checkFull => (.flag (q.room = 0), q)
  | .checkEmpty => (.flag q.contents.isEmpty, q)
  | .writeByte byte => (.flag (q.room ≠ 0), q.offer [byte])
  | .overwriteByte byte => (.flag true, q.force [byte])
  | .peekByte => (.byte q.contents.head?, q)
  | .readByte => (.byte q.contents.head?, q.discard 1)
  | .dropByte => (.flag (!q.contents.isEmpty), q.discard 1)
  | .write data => (.count (min data.1.length q.room), q.offer data.1)
  | .overwrite data => (.count (min data.1.length n), q.force data.1)
  | .peek size => (.bytes (min size.toNat q.contents.length) (q.contents.take size.toNat), q)
  | .read size =>
    (.bytes (min size.toNat q.contents.length) (q.contents.take size.toNat),
      q.discard size.toNat)
  | .drop size => (.count (min size.toNat q.contents.length), q.discard size.toNat)

variable {k : Nat}

/-- The queue a ring stands for. -/
def ChryRingbuffer.queue (rb : ChryRingbuffer k) : BoundedQueue Byte (2 ^ k) :=
  ⟨rb.unread, ChryRingbuffer.length_unread.trans_le rb.toNat_getUsed_le⟩

namespace ChryRingbuffer

variable {rb rb' : ChryRingbuffer k}

theorem queue_eq {q : BoundedQueue Byte (2 ^ k)} (unread : rb.unread = q.contents) :
    rb.queue = q := BoundedQueue.ext unread

theorem room_queue : rb.queue.room = 2 ^ k - rb.getUsed.toNat :=
  congrArg (2 ^ k - ·) length_unread

/-- A byte that is written, or refused where there is no room. -/
theorem writeByte_queue (byte : Byte) :
    (rb.writeByte byte).1 = decide (rb.queue.room ≠ 0) ∧
      (rb.writeByte byte).2.queue = rb.queue.offer [byte] := by
  have full := rb.checkFull_iff
  have sound := rb.toNat_getUsed_le
  rw [room_queue, writeByte]
  split
  case isTrue isFull =>
    have none : 2 ^ k - rb.getUsed.toNat = 0 := by rw [full.mp isFull, Nat.sub_self]
    refine ⟨by simp [none], queue_eq ?_⟩
    change rb.unread = rb.unread ++ [byte].take rb.queue.room
    rw [room_queue, none, List.take_zero, List.append_nil]
  case isFalse notFull =>
    rw [full] at notFull
    refine ⟨by simp; omega, queue_eq ?_⟩
    rw [unread_put]
    change _ = rb.unread ++ [byte].take rb.queue.room
    rw [List.take_of_length_le]
    rw [room_queue, List.length_singleton]
    omega

theorem overwriteByte_queue (byte : Byte) :
    (rb.overwriteByte byte).queue = rb.queue.force [byte] := by
  have positive : 0 < 2 ^ k := Nat.two_pow_pos k
  have full := rb.checkFull_iff
  have sound := rb.toNat_getUsed_le
  have one : [byte].take (2 ^ k) = [byte] := List.take_of_length_le positive
  apply queue_eq
  rw [overwriteByte, BoundedQueue.force]
  simp only [one, queue, length_unread, List.length_singleton]
  split
  case isTrue isFull =>
    have used := full.mp isFull
    rw [unread_put, unread_skip, used, Nat.add_sub_cancel_left,
      List.drop_append_of_le_length (by rw [length_unread]; omega)]
  case isFalse notFull =>
    rw [full] at notFull
    rw [unread_put, Nat.sub_eq_zero_of_le (by omega), List.drop_zero]

/-- A byte at the front that is taken, if there is one. -/
theorem readByte_queue : rb.readByte.2.queue = rb.queue.discard 1 := by
  apply queue_eq
  rw [readByte]
  simp only
  split
  case isTrue empty => exact (unread_empty empty).symm
  case isFalse some => exact unread_skip (rb.getUsed_pos some)

theorem dropByte_queue :
    rb.dropByte.1 = !rb.queue.contents.isEmpty ∧ rb.dropByte.2.queue = rb.queue.discard 1 := by
  have isEmpty : rb.checkEmpty = rb.queue.contents.isEmpty := checkEmpty_eq
  rw [dropByte]
  split
  case isTrue empty =>
    exact ⟨by rw [← isEmpty, empty]; rfl, queue_eq (unread_empty empty).symm⟩
  case isFalse some =>
    refine ⟨?_, queue_eq (unread_skip (rb.getUsed_pos some))⟩
    rw [← isEmpty, Bool.eq_false_of_not_eq_true some]
    rfl

theorem write_queue (data : SizedData) :
    (rb.writeSize data).toNat = min data.1.length rb.queue.room ∧
      (rb.write data).queue = rb.queue.offer data.1 := by
  have size := rb.toNat_writeSize data
  rw [Nat.mod_eq_of_lt data.2, ← room_queue] at size
  refine ⟨size, queue_eq ?_⟩
  rw [unread_write_cut, size, Nat.min_comm, ← List.take_eq_take_min]
  rfl

theorem overwrite_queue (data : SizedData) :
    (rb.overwrite data).1.toNat = min data.1.length (2 ^ k) ∧
      (rb.overwrite data).2.queue = rb.queue.force data.1 := by
  have size := rb.toNat_overwriteSize data
  rw [Nat.mod_eq_of_lt data.2] at size
  exact ⟨size, queue_eq (unread_overwrite data.2)⟩

theorem read_queue (size : BitVec 32) :
    (rb.peek size).1.toNat = min size.toNat rb.queue.contents.length ∧
      (rb.peek size).2 = rb.queue.contents.take size.toNat ∧
      (rb.read size).2.queue = rb.queue.discard size.toNat := by
  refine ⟨?_, peek_snd size, queue_eq (unread_read size)⟩
  rw [rb.toNat_peek_fst, queue, length_unread]

/-- One call. -/
theorem call_queue (c : RingCall) (rb : ChryRingbuffer k) :
    (rb.call c).1 = (queueCall c rb.queue).1 ∧ (rb.call c).2.queue = (queueCall c rb.queue).2 := by
  cases c with
  | reset => exact ⟨rfl, queue_eq (unread_fresh rfl rfl)⟩
  | resetRead => exact ⟨rfl, queue_eq unread_resetRead⟩
  | getSize => exact ⟨congrArg _ rb.toNat_size, rfl⟩
  | getUsed => exact ⟨congrArg _ length_unread.symm, rfl⟩
  | getFree => exact ⟨congrArg _ (rb.toNat_getFree.trans room_queue.symm), rfl⟩
  | checkFull => exact ⟨congrArg _ checkFull_eq, rfl⟩
  | checkEmpty => exact ⟨congrArg _ checkEmpty_eq, rfl⟩
  | writeByte byte =>
    obtain ⟨flag, queue⟩ := @writeByte_queue _ rb byte
    exact ⟨congrArg _ flag, queue⟩
  | overwriteByte byte => exact ⟨rfl, overwriteByte_queue byte⟩
  | peekByte => exact ⟨congrArg _ peekByte_eq, rfl⟩
  | readByte => exact ⟨congrArg _ peekByte_eq, readByte_queue⟩
  | dropByte =>
    obtain ⟨flag, queue⟩ := @dropByte_queue _ rb
    exact ⟨congrArg _ flag, queue⟩
  | write data =>
    obtain ⟨count, queue⟩ := @write_queue _ rb data
    exact ⟨congrArg _ count, queue⟩
  | overwrite data =>
    obtain ⟨count, queue⟩ := @overwrite_queue _ rb data
    exact ⟨congrArg _ count, queue⟩
  | peek size =>
    obtain ⟨count, data, -⟩ := @read_queue _ rb size
    exact ⟨congrArg₂ _ count data, rfl⟩
  | read size =>
    obtain ⟨count, data, queue⟩ := @read_queue _ rb size
    exact ⟨congrArg₂ _ count data, queue⟩
  | drop size =>
    obtain ⟨count, -, queue⟩ := @read_queue _ rb size
    exact ⟨congrArg _ count, queue⟩

end ChryRingbuffer

/-- Any calls, from any contents and any position of the indices on, also across
    the wrap at `2 ^ 32`: same results, same contents. -/
theorem ring_refines_queue (calls : List RingCall) (rb : ChryRingbuffer k) :
    (Lib.run ChryRingbuffer.call calls rb).1 = (Lib.run queueCall calls rb.queue).1 ∧
      (Lib.run ChryRingbuffer.call calls rb).2.queue = (Lib.run queueCall calls rb.queue).2 :=
  Lib.run_refines ChryRingbuffer.queue ChryRingbuffer.call_queue calls rb

/-! ## Around the calls -/

namespace ChryRingbuffer

variable {rb : ChryRingbuffer k}

/-- The region offered is in the pool. -/
theorem linearWriteSetup_fits (rb : ChryRingbuffer k) :
    rb.linearWriteSetup.1 + rb.linearWriteSetup.2.toNat ≤ 2 ^ k := by
  have position : rb.inIdx.toNat % 2 ^ k < 2 ^ k := Nat.mod_lt _ (Nat.two_pow_pos k)
  obtain ⟨offered, start⟩ := rb.linearWriteSetup_eq
  by_cases some : 0 < rb.linearWriteSetup.2.toNat
  · rw [start some]
    omega
  · -- The pointer of an empty region is the start of the pool.
    have offset := rb.toNat_and_mask_lt rb.inIdx
    have empty : rb.linearWriteSetup.2.toNat = 0 := Nat.eq_zero_of_not_pos some
    rw [empty, linearWriteSetup]
    split <;> split <;> omega

/-- A driver that fills the region offered with the front of `data`, and gives it
    back. -/
def linearWrite (rb : ChryRingbuffer k) (data : List Byte) : ChryRingbuffer k :=
  have fits : rb.linearWriteSetup.1 + (data.take rb.linearWriteSetup.2.toNat).length ≤ 2 ^ k := by
    have region := rb.linearWriteSetup_fits
    rw [List.length_take]
    omega
  (rb.copyIn rb.linearWriteSetup.1 (data.take rb.linearWriteSetup.2.toNat) fits).linearWriteDone
    (BitVec.ofNat 32 (data.take rb.linearWriteSetup.2.toNat).length)

/-- A driver that takes up to `size` bytes from the region offered, and gives it
    back. -/
def linearRead (rb : ChryRingbuffer k) (size : BitVec 32) : List Byte × ChryRingbuffer k :=
  let count := if size > rb.linearReadSetup.2 then rb.linearReadSetup.2 else size
  ((rb.pool.toList.drop rb.linearReadSetup.1).take count.toNat, rb.linearReadDone count)

/-- A copy to the region offered, and done. -/
theorem unread_linearWritten {written : List Byte}
    (most : written.length ≤ rb.linearWriteSetup.2.toNat)
    (fits : rb.linearWriteSetup.1 + written.length ≤ 2 ^ k) :
    ((rb.copyIn rb.linearWriteSetup.1 written fits).linearWriteDone
      (BitVec.ofNat 32 written.length)).unread = rb.unread ++ written := by
  have below := rb.size_lt
  have sound := rb.toNat_getUsed_le
  obtain ⟨offered, start⟩ := rb.linearWriteSetup_eq
  have count : (BitVec.ofNat 32 written.length).toNat = written.length :=
    (BitVec.toNat_ofNat _ _).trans (Nat.mod_eq_of_lt (by omega))
  have room : (rb.copyIn rb.linearWriteSetup.1 written fits).getUsed.toNat +
      (BitVec.ofNat 32 written.length).toNat ≤ 2 ^ k := by
    change rb.getUsed.toNat + _ ≤ _
    omega
  rw [unread_linearWriteDone room, count]
  cases written with
  | nil =>
    rw [copyIn, Lib.overlay_nil, List.append_nil]
    exact List.append_nil _
  | cons byte bytes =>
    have behind : rb.linearWriteSetup.1 = rb.inIdx.toNat % 2 ^ k + 0 :=
      start (Nat.lt_of_lt_of_le (Nat.succ_pos _) most)
    have filled := vacant_copyIn behind fits
    rw [Nat.zero_add] at filled
    rw [unread_copyIn behind fits (by omega), filled]
    rfl

/-- The region offered, up to its end, is written. -/
theorem unread_linearWrite (rb : ChryRingbuffer k) (data : List Byte) :
    (rb.linearWrite data).unread = rb.unread ++ data.take rb.linearWriteSetup.2.toNat :=
  unread_linearWritten (List.length_take_le _ _) _

theorem unread_linearRead (rb : ChryRingbuffer k) (size : BitVec 32) :
    (rb.linearRead size).1 = rb.unread.take (min size.toNat rb.linearReadSetup.2.toNat) ∧
      (rb.linearRead size).2.unread =
        rb.unread.drop (min size.toNat rb.linearReadSetup.2.toNat) := by
  have count := toNat_clamp size rb.linearReadSetup.2
  rw [← count]
  refine ⟨linearReadSetup_data ?_, unread_linearReadDone _⟩
  rw [count]
  exact Nat.min_le_right _ _

/-- Behind a whole region, the next one is all the room that is left. -/
theorem linearWrite_offered {data : List Byte}
    (whole : rb.linearWriteSetup.2.toNat ≤ data.length) :
    (rb.linearWrite data).linearWriteSetup.2.toNat =
      rb.queue.room - rb.linearWriteSetup.2.toNat := by
  obtain ⟨offered, -⟩ := rb.linearWriteSetup_eq
  obtain ⟨next, -⟩ := (rb.linearWrite data).linearWriteSetup_eq
  have position : rb.inIdx.toNat % 2 ^ k < 2 ^ k := Nat.mod_lt _ (Nat.two_pow_pos k)
  have used : (rb.linearWrite data).getUsed.toNat =
      rb.getUsed.toNat + rb.linearWriteSetup.2.toNat := by
    have written := congrArg List.length (rb.unread_linearWrite data)
    rwa [length_unread, List.length_append, length_unread, List.length_take,
      Nat.min_eq_left whole] at written
  have reached : (rb.linearWrite data).inIdx.toNat % 2 ^ k =
      (rb.inIdx.toNat % 2 ^ k + rb.linearWriteSetup.2.toNat) % 2 ^ k := by
    rw [inIdx_mod, used, rb.inIdx_mod, Nat.mod_add_mod, ← Nat.add_assoc]
    rfl
  rw [next, room_queue, used, reached]
  by_cases around : rb.linearWriteSetup.2.toNat = 2 ^ k - rb.inIdx.toNat % 2 ^ k
  · rw [around, Nat.add_sub_cancel' position.le, Nat.mod_self]
    omega
  · omega

/-- The same of a read. -/
theorem linearRead_offered {size : BitVec 32} (whole : rb.linearReadSetup.2.toNat ≤ size.toNat) :
    (rb.linearRead size).2.linearReadSetup.2.toNat =
      rb.getUsed.toNat - rb.linearReadSetup.2.toNat := by
  obtain ⟨offered, -⟩ := rb.linearReadSetup_eq
  obtain ⟨next, -⟩ := (rb.linearRead size).2.linearReadSetup_eq
  have sound := rb.toNat_getUsed_le
  have position : rb.outIdx.toNat % 2 ^ k < 2 ^ k := Nat.mod_lt _ (Nat.two_pow_pos k)
  have used : (rb.linearRead size).2.getUsed.toNat =
      rb.getUsed.toNat - rb.linearReadSetup.2.toNat := by
    have left := congrArg List.length (rb.unread_linearRead size).2
    rwa [length_unread, List.length_drop, length_unread, Nat.min_eq_right whole] at left
  have reached : (rb.linearRead size).2.outIdx.toNat % 2 ^ k =
      (rb.outIdx.toNat % 2 ^ k + rb.linearReadSetup.2.toNat) % 2 ^ k := by
    have count := toNat_clamp size rb.linearReadSetup.2
    have taken := toNat_clamp (if size > rb.linearReadSetup.2 then rb.linearReadSetup.2 else size)
      rb.getUsed
    rw [count, Nat.min_eq_right whole, Nat.min_eq_left (by omega)] at taken
    rw [Nat.mod_add_mod, ← taken, ← rb.toNat_add_mod]
    rfl
  rw [next, used, reached]
  by_cases around : rb.linearReadSetup.2.toNat = 2 ^ k - rb.outIdx.toNat % 2 ^ k
  · rw [around, Nat.add_sub_cancel' position.le, Nat.mod_self]
    omega
  · omega

theorem linearWrite_twice (rb : ChryRingbuffer k) (data : List Byte) :
    ((rb.linearWrite data).linearWrite (data.drop rb.linearWriteSetup.2.toNat)).queue =
      rb.queue.offer data := by
  obtain ⟨offered, -⟩ := rb.linearWriteSetup_eq
  have room := rb.room_queue
  apply queue_eq
  rw [unread_linearWrite, unread_linearWrite, List.append_assoc]
  change _ = rb.unread ++ data.take rb.queue.room
  congr 1
  rcases Nat.le_total rb.linearWriteSetup.2.toNat data.length with whole | part
  · rw [linearWrite_offered whole, ← List.take_add, Nat.add_sub_cancel' (by omega)]
  · rw [List.drop_of_length_le part, List.take_nil, List.append_nil, List.take_of_length_le part,
      List.take_of_length_le (by omega)]

theorem linearRead_twice (rb : ChryRingbuffer k) (size : BitVec 32) :
    let first := rb.linearRead size
    let second := first.2.linearRead (size - BitVec.ofNat 32 first.1.length)
    first.1 ++ second.1 = rb.unread.take size.toNat ∧
      second.2.unread = rb.unread.drop size.toNat := by
  intro first second
  have below := rb.size_lt
  have sound := rb.toNat_getUsed_le
  obtain ⟨offered, -⟩ := rb.linearReadSetup_eq
  obtain ⟨bytes, left⟩ := rb.unread_linearRead size
  have length : first.1.length = min size.toNat rb.linearReadSetup.2.toNat := by
    rw [show first.1 = _ from bytes, List.length_take, length_unread]
    omega
  have rest : (size - BitVec.ofNat 32 first.1.length).toNat =
      size.toNat - min size.toNat rb.linearReadSetup.2.toNat := by
    have count : (BitVec.ofNat 32 first.1.length).toNat = first.1.length :=
      (BitVec.toNat_ofNat _ _).trans (Nat.mod_eq_of_lt (by omega))
    rw [BitVec.toNat_sub_of_le (by rw [BitVec.le_def]; omega), count, length]
  obtain ⟨bytes', left'⟩ := first.2.unread_linearRead (size - BitVec.ofNat 32 first.1.length)
  rw [rest, show first.2.unread = _ from left] at bytes' left'
  rw [show second.1 = _ from bytes', show second.2.unread = _ from left',
    show first.1 = _ from bytes, ← List.take_add, List.drop_drop]
  rcases Nat.le_total rb.linearReadSetup.2.toNat size.toNat with whole | part
  · rw [show first.2.linearReadSetup.2.toNat = _ from linearRead_offered whole,
      Nat.min_eq_right whole, Nat.sub_min_sub_right, Nat.add_sub_cancel' (by omega)]
    rcases Nat.le_total size.toNat rb.getUsed.toNat with less | more
    · rw [Nat.min_eq_left less]
      exact ⟨rfl, rfl⟩
    · -- All of the contents, in two parts.
      have longer : rb.unread.length ≤ size.toNat := by rw [length_unread]; exact more
      rw [Nat.min_eq_right more, ← length_unread, List.take_length, List.drop_length,
        List.take_of_length_le longer, List.drop_of_length_le longer]
      exact ⟨rfl, rfl⟩
  · rw [Nat.min_eq_left part, Nat.sub_self, Nat.zero_min]
    exact ⟨rfl, rfl⟩

end ChryRingbuffer

/-- Two accesses through the pointer, one to each side of the end of the pool, do
    what one call does, `chry_ringbuffer_write` and `chry_ringbuffer_read`. -/
theorem linear_agrees (rb : ChryRingbuffer k) (data : SizedData) (size : BitVec 32) :
    ((rb.linearWrite data.1).linearWrite (data.1.drop rb.linearWriteSetup.2.toNat)).queue =
        (rb.write data.1).queue ∧
      let first := rb.linearRead size
      let second := first.2.linearRead (size - BitVec.ofNat 32 first.1.length)
      first.1 ++ second.1 = (rb.read size).1 ∧ second.2.queue = (rb.read size).2.queue :=
  ⟨by rw [ChryRingbuffer.linearWrite_twice, (ChryRingbuffer.write_queue data).2],
    by
      obtain ⟨bytes, left⟩ := rb.linearRead_twice size
      exact ⟨bytes.trans (ChryRingbuffer.peek_snd size).symm,
        ChryRingbuffer.queue_eq (left.trans (ChryRingbuffer.unread_read size).symm)⟩⟩

end LoongsonEjtag
