import LoongsonEjtag.Lib.Bytes

/-! # Command layouts

The command layouts of `cmd_headers.h`, read from raw bytes, and the frames a
host sends.

* `op`, `isWrite`, `irseqLenBits`, … — the fields of the packed header structs
  and of the configuration sections.  Bit-fields are allocated from the least
  significant bit and multi-byte fields are little-endian, as the target's
  compiler lays them out.
* `configLen`, `payloadLen`, `Frame`, `Cmd` — how many bytes of configuration
  and payload follow a header, and the well-formed commands of the protocol.
-/

namespace LoongsonEjtag

open Lib (Byte le16 le32 le16_take le32_take)

/-- `BIT2DWORD`: dwords needed to hold `bits` bits. -/
def bit2dword (bits : Nat) : Nat := (bits + 31) / 32

/-- `lsejtag_cmd_op`. -/
inductive LsejtagCmdOp where
  | opProbeMemRw
  | opIoManip
  | opIrRw
  | opDrRw
  | opLoopbackTest
  | opFastTargetMemWriteFastdata
  | opFastTargetMemWrite
  | opFastTargetMemReadFastdata
  | opFastTargetMemRead
  | opGetFirmwareDate
deriving DecidableEq, Repr

/-- The command an op code stands for, if any. -/
def LsejtagCmdOp.ofCode? : Nat → Option LsejtagCmdOp
  | 0x01 => some .opProbeMemRw
  | 0x03 => some .opIoManip
  | 0x04 => some .opIrRw
  | 0x05 => some .opDrRw
  | 0x08 => some .opLoopbackTest
  | 0x0c => some .opFastTargetMemWriteFastdata
  | 0x0d => some .opFastTargetMemWrite
  | 0x0e => some .opFastTargetMemReadFastdata
  | 0x0f => some .opFastTargetMemRead
  | 0x1f => some .opGetFirmwareDate
  | _ => none

namespace Wire

/-! ## Header fields -/

/-- The 16-bit header word. -/
def u16 (cmd : List Byte) : Nat := le16 cmd 0

/-- Bits 10 to 15 of the header. -/
def opCode (cmd : List Byte) : Nat := u16 cmd / 2 ^ 10

def op (cmd : List Byte) : Option LsejtagCmdOp := LsejtagCmdOp.ofCode? (opCode cmd)

def isWrite (cmd : List Byte) : Bool := (u16 cmd).testBit 0

def level (cmd : List Byte) : Bool := (u16 cmd).testBit 0

def portId (cmd : List Byte) : Nat := u16 cmd / 2 % 2 ^ 7

def immediateSendBack (cmd : List Byte) : Bool := (u16 cmd).testBit 8

def readBack (cmd : List Byte) : Bool := (u16 cmd).testBit 9

def chainedCoreCount (cmd : List Byte) : Nat := u16 cmd % 2 ^ 7

def cpuIs64bit (cmd : List Byte) : Bool := (u16 cmd).testBit 7

/-! ## Configuration and payload fields -/

def addr (cmd : List Byte) : Nat := le32 cmd 2

def dataToWrite (cmd : List Byte) : Nat := le32 cmd 6

def irseqLenBits (cmd : List Byte) : Nat := le16 cmd 2

def jtagClkDiv (cmd : List Byte) : Nat := le16 cmd 2

def dataLenXferCount (cmd : List Byte) : Nat := le32 cmd 4

def atCpuCore (cmd : List Byte) : Nat := le16 cmd 8

/-! ## Frame lengths -/

/-- Dwords of one DR sequence of a fast write, as the host pads it: one SKIP
    bit for every other core, the data word, and PrAcc with FASTDATA. -/
def xferDwords (fastdata : Bool) (cmd : List Byte) : Nat :=
  bit2dword (chainedCoreCount cmd - 1 + (if cpuIs64bit cmd then 64 else 32) +
    (if fastdata then 1 else 0))

/-- Bytes of the configuration section behind the header.  A fast write without
    chained cores has no `at_cpu_core` field. -/
def configLen (op : LsejtagCmdOp) (cmd : List Byte) : Nat :=
  match op with
  | .opProbeMemRw | .opIoManip | .opGetFirmwareDate => 0
  | .opIrRw | .opDrRw => 2
  | .opLoopbackTest => 4
  | .opFastTargetMemWriteFastdata | .opFastTargetMemWrite =>
    if chainedCoreCount cmd = 0 then 6 else 8
  | .opFastTargetMemReadFastdata | .opFastTargetMemRead => 8

/-- Bytes of payload behind the configuration section. -/
def payloadLen (op : LsejtagCmdOp) (cmd : List Byte) : Nat :=
  match op with
  | .opProbeMemRw => if isWrite cmd then 8 else 4
  | .opIrRw | .opDrRw => bit2dword (irseqLenBits cmd) * 4
  | .opFastTargetMemWriteFastdata => dataLenXferCount cmd * (xferDwords true cmd * 4)
  | .opFastTargetMemWrite => dataLenXferCount cmd * (xferDwords false cmd * 4)
  | .opIoManip | .opGetFirmwareDate | .opLoopbackTest
  | .opFastTargetMemReadFastdata | .opFastTargetMemRead => 0

/-- Where the configuration section ends, counted from the header. -/
def configEnd (op : LsejtagCmdOp) (cmd : List Byte) : Nat := 2 + configLen op cmd

/-- Where the section of a fast write ends, as the dispatcher counts it. -/
theorem fastCfgEnd_eq (cmd : List Byte) : (if chainedCoreCount cmd = 0 then 8 else 10) =
    2 + if chainedCoreCount cmd = 0 then 6 else 8 := by
  split <;> rfl

/-- The payload of a fast write is not part of the buffered command: the
    continuation fetches it. -/
def bufferedPayloadLen (op : LsejtagCmdOp) (cmd : List Byte) : Nat :=
  match op with
  | .opFastTargetMemWriteFastdata | .opFastTargetMemWrite => 0
  | op => payloadLen op cmd

/-! ## What the fields depend on -/

section take

variable {n : Nat} (cmd : List Byte)

theorem u16_take (header : 2 ≤ n) : u16 (cmd.take n) = u16 cmd := le16_take (by omega) cmd

theorem op_take (header : 2 ≤ n) : op (cmd.take n) = op cmd := by
  rw [op, op, opCode, opCode, u16_take cmd header]

theorem isWrite_take (header : 2 ≤ n) : isWrite (cmd.take n) = isWrite cmd := by
  rw [isWrite, isWrite, u16_take cmd header]

theorem chainedCoreCount_take (header : 2 ≤ n) :
    chainedCoreCount (cmd.take n) = chainedCoreCount cmd := by
  rw [chainedCoreCount, chainedCoreCount, u16_take cmd header]

theorem cpuIs64bit_take (header : 2 ≤ n) : cpuIs64bit (cmd.take n) = cpuIs64bit cmd := by
  rw [cpuIs64bit, cpuIs64bit, u16_take cmd header]

theorem irseqLenBits_take (config : 4 ≤ n) : irseqLenBits (cmd.take n) = irseqLenBits cmd :=
  le16_take (by omega) cmd

theorem dataLenXferCount_take (config : 8 ≤ n) :
    dataLenXferCount (cmd.take n) = dataLenXferCount cmd :=
  le32_take (by omega) cmd

theorem atCpuCore_take (config : 10 ≤ n) : atCpuCore (cmd.take n) = atCpuCore cmd :=
  le16_take (by omega) cmd

theorem xferDwords_take (fastdata : Bool) (header : 2 ≤ n) :
    xferDwords fastdata (cmd.take n) = xferDwords fastdata cmd := by
  rw [xferDwords, xferDwords, chainedCoreCount_take cmd header, cpuIs64bit_take cmd header]

/-- The length of the configuration section is in the header. -/
theorem configLen_take (o : LsejtagCmdOp) (header : 2 ≤ n) :
    configLen o (cmd.take n) = configLen o cmd := by
  cases o <;> simp only [configLen, chainedCoreCount_take cmd header]

theorem configEnd_take (o : LsejtagCmdOp) (header : 2 ≤ n) :
    configEnd o (cmd.take n) = configEnd o cmd := by
  rw [configEnd, configEnd, configLen_take cmd o header]

/-- The length of the payload is in the header and the configuration section. -/
theorem payloadLen_take (o : LsejtagCmdOp) (config : configEnd o cmd ≤ n) :
    payloadLen o (cmd.take n) = payloadLen o cmd := by
  have header : 2 ≤ n := by
    simp only [configEnd] at config
    omega
  cases o with
  | opProbeMemRw => simp only [payloadLen, isWrite_take cmd header]
  | opIrRw | opDrRw => simp only [payloadLen, irseqLenBits_take cmd config]
  | opFastTargetMemWriteFastdata | opFastTargetMemWrite =>
    have count : 8 ≤ n := by
      simp only [configEnd, configLen] at config
      split at config <;> omega
    simp only [payloadLen, dataLenXferCount_take cmd count, xferDwords_take cmd _ header]
  | _ => rfl

theorem bufferedPayloadLen_take (o : LsejtagCmdOp) (config : configEnd o cmd ≤ n) :
    bufferedPayloadLen o (cmd.take n) = bufferedPayloadLen o cmd := by
  cases o with
  | opFastTargetMemWriteFastdata | opFastTargetMemWrite => rfl
  | _ => exact payloadLen_take cmd _ config

end take

end Wire

/-! ## Frames -/

/-- A command cut into its three sections. -/
structure Frame where
  header : List Byte
  config : List Byte
  payload : List Byte
deriving DecidableEq, Repr

namespace Frame

def encode (f : Frame) : List Byte := f.header ++ f.config ++ f.payload

end Frame

/-- A well-formed command: a known op code and sections of the lengths its
    layout prescribes. -/
structure Cmd extends Frame where
  op : LsejtagCmdOp
  opIs : Wire.op header = some op
  headerLen : header.length = 2
  configIs : config.length = Wire.configLen op header
  payloadIs : payload.length = Wire.payloadLen op (header ++ config)

/-- What the host puts on the wire for a list of commands. -/
def encodeAll (cmds : List Cmd) : List Byte := cmds.flatMap fun c => c.encode

end LoongsonEjtag
