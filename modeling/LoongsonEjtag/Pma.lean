import LoongsonEjtag.Lib.Bytes
import LoongsonEjtag.EpRegister

/-! # The packet memory

The packet memory of the USB controller has words of 16 bits.  `fsdev_write_pma` and
`fsdev_read_pma` of `usb_dc_fsdev.c` copy packets to and from it; the buffer descriptors are
in its first words.

* `Pma` — the words, by the address the controller has for them.
* `fsdevReadPma_eq` — the bytes that are read.
* `byteAt_write`, `write_outside` — what a copy leaves in the buffer, and outside.
* `rxBlockBytes_bounds` — the room of an OUT buffer in the units of the controller.
* `packetCount_received` — the count of a packet, beside them in the descriptor.
-/

namespace LoongsonEjtag

open Lib (Byte)

/-- The half word at each even address; `PMA_ACCESS` is the step of the CPU's addresses
    for one of them. -/
abbrev Pma := Nat → BitVec 16

/-! ## Copies -/

/-- `temp1 | (*pBuf << 8)`. -/
def halfWord (low high : Byte) : BitVec 16 := low.setWidth 16 ||| high.setWidth 16 <<< 8

/-- A round of the loop of `fsdev_write_pma`. -/
def writeHalfWord (pbUsrBuf : Nat → Byte) (wPMABufAddr i : Nat) (pma : Pma) : Pma :=
  Function.update pma (wPMABufAddr + 2 * i) (halfWord (pbUsrBuf (2 * i)) (pbUsrBuf (2 * i + 1)))

/-- The loop of `fsdev_write_pma`. -/
def writeHalfWords (pbUsrBuf : Nat → Byte) (wPMABufAddr : Nat) : Nat → Pma → Pma
  | 0, pma => pma
  | n + 1, pma => writeHalfWord pbUsrBuf wPMABufAddr n (writeHalfWords pbUsrBuf wPMABufAddr n pma)

/-- `fsdev_write_pma`; for an odd number of bytes it takes one more from the user's
    buffer. -/
def fsdevWritePma (pma : Pma) (pbUsrBuf : Nat → Byte) (wPMABufAddr : Nat) (wNBytes : Nat) : Pma :=
  writeHalfWords pbUsrBuf wPMABufAddr ((wNBytes + 1) / 2) pma

/-- The two bytes of a half word. -/
def halfWordBytes (temp : BitVec 16) : List Byte := [temp.setWidth 8, (temp >>> 8).setWidth 8]

/-- `fsdev_read_pma`. -/
def fsdevReadPma (pma : Pma) (wPMABufAddr wNBytes : Nat) : List Byte :=
  (List.range (wNBytes / 2)).flatMap (fun i => halfWordBytes (pma (wPMABufAddr + 2 * i))) ++
    if wNBytes % 2 ≠ 0 then [(pma (wPMABufAddr + 2 * (wNBytes / 2))).setWidth 8] else []

/-- Byte `k` of a buffer. -/
def Pma.byteAt (pma : Pma) (addr k : Nat) : Byte :=
  if k % 2 = 0 then (pma (addr + 2 * (k / 2))).setWidth 8
  else (pma (addr + 2 * (k / 2)) >>> 8).setWidth 8

/-- The bytes of a buffer, as the controller sends them. -/
def Pma.bytes (pma : Pma) (addr count : Nat) : List Byte := (List.range count).map (pma.byteAt addr)

section copies

variable {pma : Pma} {buf : Nat → Byte} {addr n : Nat}

theorem halfWord_bytes (low high : Byte) :
    (halfWord low high).setWidth 8 = low ∧ (halfWord low high >>> 8).setWidth 8 = high := by
  constructor
  · apply BitVec.eq_of_getLsbD_eq
    intro k below
    simp [halfWord]
  · apply BitVec.eq_of_getLsbD_eq
    intro k below
    have inside : 8 + k < 16 := by omega
    simp [halfWord, below, inside]

/-- The half words that are read, byte by byte. -/
theorem flatMap_halfWords (pma : Pma) (addr m : Nat) :
    (List.range m).flatMap (fun i => halfWordBytes (pma (addr + 2 * i))) =
      pma.bytes addr (2 * m) := by
  induction m with
  | zero => rfl
  | succ m ih =>
    have even : 2 * m % 2 = 0 := by omega
    have odd : (2 * m + 1) % 2 ≠ 0 := by omega
    have index : 2 * m / 2 = m := by omega
    have index' : (2 * m + 1) / 2 = m := by omega
    have bytes : pma.bytes addr (2 * (m + 1)) =
        pma.bytes addr (2 * m) ++ [pma.byteAt addr (2 * m), pma.byteAt addr (2 * m + 1)] := by
      rw [Pma.bytes, Nat.mul_succ, List.range_succ, List.range_succ, List.map_append,
        List.map_append, List.append_assoc]
      rfl
    rw [List.range_succ, List.flatMap_append, ih, bytes, Pma.byteAt, if_pos even, index,
      Pma.byteAt, if_neg odd, index']
    rfl

theorem fsdevReadPma_eq (pma : Pma) (addr n : Nat) :
    fsdevReadPma pma addr n = pma.bytes addr n := by
  rw [fsdevReadPma, flatMap_halfWords]
  by_cases odd : n % 2 ≠ 0
  · have whole : n = 2 * (n / 2) + 1 := by omega
    have even : 2 * (n / 2) % 2 = 0 := by omega
    have last : pma.byteAt addr (2 * (n / 2)) = (pma (addr + 2 * (n / 2))).setWidth 8 := by
      rw [Pma.byteAt, if_pos even, Nat.mul_div_cancel_left _ Nat.two_pos]
    rw [if_pos odd, ← last]
    conv => rhs; rw [whole, Pma.bytes, List.range_succ, List.map_append]
    rfl
  · have whole : 2 * (n / 2) = n := by omega
    rw [if_neg odd, whole, List.append_nil]

theorem writeHalfWords_inside {i : Nat} (below : i < n) :
    writeHalfWords buf addr n pma (addr + 2 * i) = halfWord (buf (2 * i)) (buf (2 * i + 1)) := by
  induction n with
  | zero => exact absurd below (Nat.not_lt_zero i)
  | succ n ih =>
    rw [writeHalfWords, writeHalfWord]
    by_cases last : i = n
    · rw [last, Function.update_self]
    · rw [Function.update_of_ne (by omega)]
      exact ih (by omega)

theorem writeHalfWords_outside {a : Nat} (outside : a < addr ∨ addr + 2 * n ≤ a + 1) :
    writeHalfWords buf addr n pma a = pma a := by
  induction n with
  | zero => rfl
  | succ n ih =>
    rw [writeHalfWords, writeHalfWord, Function.update_of_ne (by omega)]
    exact ih (by omega)

theorem byteAt_write {k : Nat} (below : k < n) :
    (fsdevWritePma pma buf addr n).byteAt addr k = buf k := by
  obtain ⟨low, high⟩ := halfWord_bytes (buf (2 * (k / 2))) (buf (2 * (k / 2) + 1))
  rw [Pma.byteAt, fsdevWritePma, writeHalfWords_inside (by omega)]
  split
  case isTrue even =>
    rw [low]
    congr 1
    omega
  case isFalse odd =>
    rw [high]
    congr 1
    omega

/-- What is copied is what the controller sends. -/
theorem bytes_write : (fsdevWritePma pma buf addr n).bytes addr n = (List.range n).map buf :=
  List.map_congr_left fun _ member => byteAt_write (List.mem_range.mp member)

/-- A copy stays in its buffer. -/
theorem write_outside {a : Nat} (outside : a < addr ∨ addr + n ≤ a) :
    fsdevWritePma pma buf addr n a = pma a := by
  by_cases odd : n % 2 = 1
  · exact writeHalfWords_outside (by omega)
  · exact writeHalfWords_outside (by omega)

/-- Only the half words of the buffer matter for its bytes. -/
theorem bytes_congr {pma' : Pma} (same : ∀ a, addr ≤ a → a < addr + n → pma' a = pma a) :
    pma'.bytes addr n = pma.bytes addr n := by
  apply List.map_congr_left
  intro k member
  have below := List.mem_range.mp member
  rw [Pma.byteAt, Pma.byteAt, same _ (by omega) (by omega)]

theorem length_bytes (pma : Pma) (addr n : Nat) : (pma.bytes addr n).length = n := by
  simp [Pma.bytes]

end copies

/-! ## Buffer descriptors -/

/-- `PCD_EP_TX_ADDRESS` and `PCD_EP_RX_ADDRESS`, with `BTABLE_ADDRESS` 0. -/
def pcdEpAddress (dir : EpDir) (bEpNum : Nat) : Nat :=
  match dir with
  | .tx => 8 * bEpNum
  | .rx => 8 * bEpNum + 4

/-- `PCD_EP_TX_CNT` and `PCD_EP_RX_CNT`. -/
def pcdEpCnt (dir : EpDir) (bEpNum : Nat) : Nat :=
  match dir with
  | .tx => 8 * bEpNum + 2
  | .rx => 8 * bEpNum + 6

/-- `PCD_SET_EP_TX_ADDRESS` and `PCD_SET_EP_RX_ADDRESS` store this. -/
def evenAddress (wAddr : BitVec 32) : BitVec 16 := (wAddr >>> 1 <<< 1).setWidth 16

/-- `PCD_SET_EP_CNT_RX_REG`; `old` is what is there before. -/
def pcdSetEpCntRxReg (old : BitVec 16) (wCount : Nat) : BitVec 16 :=
  if wCount = 0 then old &&& ~~~0x7c00 ||| 0x8000
  else if wCount ≤ 62 then
    -- `PCD_CALC_BLK2`
    let wNBlocks := wCount / 2 + if wCount % 2 ≠ 0 then 1 else 0
    BitVec.ofNat 16 (wNBlocks * 1024)
  else
    -- `PCD_CALC_BLK32`
    let wNBlocks := wCount / 32 - if wCount % 32 = 0 then 1 else 0
    BitVec.ofNat 16 (wNBlocks * 1024) ||| 0x8000

/-- The room of an OUT buffer, for the controller. -/
def rxBlockBytes (reg : BitVec 16) : Nat :=
  let blocks := (reg.extractLsb' 10 5).toNat
  if reg.getLsbD 15 then 32 * (blocks + 1) else 2 * blocks

/-- `PCD_GET_EP_RX_CNT` and `PCD_GET_EP_TX_CNT`. -/
def packetCount (reg : BitVec 16) : Nat := (reg &&& 0x3ff).toNat

/-- The controller puts the length of a packet into the descriptor. -/
def countReceived (reg : BitVec 16) (length : Nat) : BitVec 16 :=
  reg &&& 0xfc00 ||| BitVec.ofNat 16 length

/-- The buffer takes a packet of `wCount` bytes, and less than a block more. -/
theorem rxBlockBytes_bounds {wCount : Nat} (some : 0 < wCount) (most : wCount ≤ 1024)
    (old : BitVec 16) : wCount ≤ rxBlockBytes (pcdSetEpCntRxReg old wCount) ∧
      rxBlockBytes (pcdSetEpCntRxReg old wCount) < wCount + 32 := by
  have all : ∀ c : Fin 1025, 0 < c.val → c.val ≤ rxBlockBytes (pcdSetEpCntRxReg 0 c.val) ∧
      rxBlockBytes (pcdSetEpCntRxReg 0 c.val) < c.val + 32 := by
    decide +kernel
  have same : pcdSetEpCntRxReg old wCount = pcdSetEpCntRxReg 0 wCount := by
    simp only [pcdSetEpCntRxReg, Nat.ne_of_gt some, if_false]
  rw [same]
  exact all ⟨wCount, by omega⟩ some

theorem getLsbD_countReceived (reg : BitVec 16) {length k : Nat} (small : length < 1024) :
    (countReceived reg length).getLsbD k =
      if k < 10 then (BitVec.ofNat 16 length).getLsbD k else reg.getLsbD k := by
  have field : ∀ j : Fin 16, (0xfc00#16).getLsbD j.val = decide (10 ≤ j.val) := by decide
  by_cases inside : k < 16
  · have mask : (0xfc00#16).getLsbD k = decide (10 ≤ k) := field ⟨k, inside⟩
    have bits : (countReceived reg length).getLsbD k =
        ((reg.getLsbD k && decide (10 ≤ k)) || (BitVec.ofNat 16 length).getLsbD k) := by
      rw [← mask, countReceived, BitVec.getLsbD_or]
      exact congrArg (· || _) BitVec.getLsbD_and
    rw [bits]
    split
    case isTrue low => simp [Nat.not_le.mpr low]
    case isFalse high =>
      have beyond : length.testBit k = false :=
        Nat.testBit_lt_two_pow (Nat.lt_of_lt_of_le small
          (Nat.pow_le_pow_right Nat.two_pos (Nat.not_lt.mp high)))
      simp [BitVec.getLsbD_ofNat, beyond, Nat.not_lt.mp high]
  · rw [if_neg (by omega), BitVec.getLsbD_of_ge _ k (by omega), BitVec.getLsbD_of_ge _ k (by omega)]

theorem rxBlockBytes_received (reg : BitVec 16) {length : Nat} (small : length < 1024) :
    rxBlockBytes (countReceived reg length) = rxBlockBytes reg := by
  have blocks : (countReceived reg length).extractLsb' 10 5 = reg.extractLsb' 10 5 := by
    apply BitVec.eq_of_getLsbD_eq
    intro k below
    rw [BitVec.getLsbD_extractLsb', BitVec.getLsbD_extractLsb', getLsbD_countReceived reg small,
      if_neg (by omega)]
  have size : (countReceived reg length).getLsbD 15 = reg.getLsbD 15 := by
    rw [getLsbD_countReceived reg small, if_neg (by omega)]
  rw [rxBlockBytes, rxBlockBytes, blocks, size]

theorem packetCount_ofNat {length : Nat} (small : length < 1024) :
    packetCount (BitVec.ofNat 16 length) = length := by
  rw [packetCount, BitVec.toNat_and, BitVec.toNat_ofNat, Nat.mod_eq_of_lt (by omega)]
  exact (Nat.and_two_pow_sub_one_eq_mod length 10).trans (Nat.mod_eq_of_lt small)

theorem packetCount_received (reg : BitVec 16) {length : Nat} (small : length < 1024) :
    packetCount (countReceived reg length) = length := by
  have field : ∀ j : Fin 16, (0x3ff#16).getLsbD j.val = decide (j.val < 10) := by decide
  have same : countReceived reg length &&& 0x3ff = BitVec.ofNat 16 length &&& 0x3ff := by
    apply BitVec.eq_of_getLsbD_eq
    intro k below
    have mask : (0x3ff#16).getLsbD k = decide (k < 10) := field ⟨k, below⟩
    refine BitVec.getLsbD_and.trans (Eq.trans ?_ BitVec.getLsbD_and.symm)
    rw [getLsbD_countReceived reg small]
    change (_ && (0x3ff#16).getLsbD k) = (_ && (0x3ff#16).getLsbD k)
    rw [mask]
    split
    case isTrue => rfl
    case isFalse high => simp [high]
  exact (congrArg BitVec.toNat same).trans (packetCount_ofNat small)

end LoongsonEjtag
