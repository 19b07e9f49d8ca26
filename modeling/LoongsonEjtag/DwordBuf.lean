import LoongsonEjtag.Ctx

/-! # Bit writers over dword buffers

Access to a buffer of dwords, and the four static writers of `cmdimpl.c` that
place a bit field at a bit offset: `append_bits` and `append_dword` into cleared
memory, `replace_bits` and `replace_dword` over older data.  They take a pointer
and are written for buffers of any size; the TDI and TMS buffers of a JTAG block
have 64 dwords.  An access outside the buffer and a shift by 32 or more stop the
program.
-/

namespace LoongsonEjtag

open Lib (Dword)

/-- A buffer of `n` dwords, by default one of a JTAG block. -/
abbrev DwordBuf (n : Nat := 64) := Vector Dword n

variable {n : Nat}

namespace DwordBuf

def read (buf : DwordBuf n) (i : Nat) : Except Halt Dword :=
  if inside : i < n then .ok buf[i] else .error .outOfBounds

def write (buf : DwordBuf n) (i : Nat) (value : Dword) : Except Halt (DwordBuf n) :=
  if inside : i < n then .ok (buf.set i value inside) else .error .outOfBounds

/-- `buf[i] = f(buf[i])`. -/
def update (buf : DwordBuf n) (i : Nat) (f : Dword → Dword) : Except Halt (DwordBuf n) := do
  let value ← buf.read i
  buf.write i (f value)

/-- `memset(buf, 0, count * 4)`. -/
def clear (buf : DwordBuf n) (count : Nat) : Except Halt (DwordBuf n) :=
  if count ≤ n then .ok (Vector.ofFn fun i => if i.val < count then 0 else buf[i.val])
  else .error .outOfBounds

/-- `memcpy(buf, src, count * 4)`. -/
def copyFrom (buf src : DwordBuf n) (count : Nat) : Except Halt (DwordBuf n) :=
  if count ≤ n then .ok (Vector.ofFn fun i => if i.val < count then src[i.val] else buf[i.val])
  else .error .outOfBounds

end DwordBuf

/-- The low `bits` bits of `field`; the shift is by less than 32. -/
def fieldMasked (field : Dword) (bits : Nat) : Dword := field &&& ~~~(0xFFFFFFFF#32 <<< bits)

/-- `append_bits`, without its result `bits`. -/
def appendBits (destBuf : DwordBuf n) (bitshift : Nat) (field : Dword) (bits : Nat) :
    Except Halt (DwordBuf n) :=
  let dwordshift := bitshift / 32
  let localBitshift := bitshift % 32
  if bits < 32 then
    if localBitshift < 32 - bits then
      destBuf.update dwordshift (· ||| fieldMasked field bits <<< localBitshift)
    else do
      let destBuf ← destBuf.update dwordshift (· ||| fieldMasked field bits <<< localBitshift)
      destBuf.update (dwordshift + 1) (· ||| fieldMasked field bits >>> (32 - localBitshift))
  else .error .badShift

/-- `append_dword`, without its result 32. -/
def appendDword (destBuf : DwordBuf n) (bitshift : Nat) (field : Dword) :
    Except Halt (DwordBuf n) :=
  let dwordshift := bitshift / 32
  let localBitshift := bitshift % 32
  if localBitshift = 0 then destBuf.write dwordshift field
  else do
    let destBuf ← destBuf.update dwordshift (· ||| field <<< localBitshift)
    destBuf.update (dwordshift + 1) (· ||| field >>> (32 - localBitshift))

/-- `replace_bits`, without its result `bits`. -/
def replaceBits (destBuf : DwordBuf n) (bitshift : Nat) (field : Dword) (bits : Nat) :
    Except Halt (DwordBuf n) :=
  let dwordshift := bitshift / 32
  let localBitshift := bitshift % 32
  if 0 < bits ∧ bits < 32 then
    if localBitshift < 32 - bits then
      destBuf.update dwordshift fun tmp =>
        (tmp &&& ~~~(0xFFFFFFFF#32 >>> (32 - bits) <<< bits)) |||
          fieldMasked field bits <<< localBitshift
    else do
      let destBuf ← destBuf.update dwordshift fun tmp =>
        (tmp &&& 0xFFFFFFFF#32 >>> (32 - bits)) ||| fieldMasked field bits <<< localBitshift
      destBuf.update (dwordshift + 1) fun tmp =>
        (tmp &&& 0xFFFFFFFF#32 <<< (localBitshift + bits - 32)) |||
          fieldMasked field bits >>> (32 - localBitshift)
  else .error .badShift

/-- `replace_dword`, without its result 32. -/
def replaceDword (destBuf : DwordBuf n) (bitshift : Nat) (field : Dword) :
    Except Halt (DwordBuf n) :=
  let dwordshift := bitshift / 32
  let localBitshift := bitshift % 32
  if localBitshift = 0 then destBuf.write dwordshift field
  else do
    let destBuf ← destBuf.update dwordshift fun tmp =>
      (tmp &&& ~~~(0xFFFFFFFF#32 <<< localBitshift)) ||| field <<< localBitshift
    destBuf.update (dwordshift + 1) fun tmp =>
      (tmp &&& ~~~(0xFFFFFFFF#32 >>> (32 - localBitshift))) ||| field >>> (32 - localBitshift)

end LoongsonEjtag
