import LoongsonEjtag.Lib.Machine
import LoongsonEjtag.Lib.Loop
import LoongsonEjtag.Lib.Bytes
import LoongsonEjtag.Wire
import LoongsonEjtag.Ctx
import LoongsonEjtag.Trace
import LoongsonEjtag.Port
import LoongsonEjtag.Jtag
import LoongsonEjtag.Capture
import LoongsonEjtag.Cmdimpl
import LoongsonEjtag.Dispatch
import LoongsonEjtag.Executed
import LoongsonEjtag.Dispatched
import LoongsonEjtag.Faults
import LoongsonEjtag.MainLoop
import LoongsonEjtag.Lib.Fifo
import LoongsonEjtag.Engine
import LoongsonEjtag.StartUp
import LoongsonEjtag.Cleanup
import LoongsonEjtag.Parser
import LoongsonEjtag.ParserInv
import LoongsonEjtag.RxBounds
import LoongsonEjtag.Pending
import LoongsonEjtag.Progress
import LoongsonEjtag.Frames
import LoongsonEjtag.Framing
import LoongsonEjtag.CommandOrder
import LoongsonEjtag.Placement
import LoongsonEjtag.XferCall
import LoongsonEjtag.FastWrite
import LoongsonEjtag.RxFifo
import LoongsonEjtag.TxFifo
import LoongsonEjtag.Lib.History
import LoongsonEjtag.BlockOrder
import LoongsonEjtag.TdoStream
import LoongsonEjtag.TdoRoom
import LoongsonEjtag.TxHandover
import LoongsonEjtag.RxRestart
import LoongsonEjtag.BusReset
import LoongsonEjtag.Responses
import LoongsonEjtag.Refused
import LoongsonEjtag.ZeroLength
import LoongsonEjtag.Lib.Bits
import LoongsonEjtag.BitWriters
import LoongsonEjtag.FieldWriters
import LoongsonEjtag.Lib.Tap
import LoongsonEjtag.IrdrTms
import LoongsonEjtag.IrdrBounds
import LoongsonEjtag.DataBits
import LoongsonEjtag.XferTemplate
import LoongsonEjtag.TargetCore
import LoongsonEjtag.TdoCapture
import LoongsonEjtag.TdoOrder
import LoongsonEjtag.IrdrData
import LoongsonEjtag.XferBuild
import LoongsonEjtag.WriteSetup
import LoongsonEjtag.WriteTemplate
import LoongsonEjtag.WriteProgress
import LoongsonEjtag.FastdataSelect
import LoongsonEjtag.PinOutput
import LoongsonEjtag.RxVisible
import LoongsonEjtag.ReadSetup
import LoongsonEjtag.ReadStart
import LoongsonEjtag.FastRead
import LoongsonEjtag.ReadOutcome
import LoongsonEjtag.Lib.Simulation
import LoongsonEjtag.RxCalls
import LoongsonEjtag.Device
import LoongsonEjtag.Lib.BoundedQueue
import LoongsonEjtag.RingQueue
import LoongsonEjtag.Lib.ScanTarget
import LoongsonEjtag.ProbedTarget
import LoongsonEjtag.Lib.WiredPort
import LoongsonEjtag.Gpio
import LoongsonEjtag.Waveform
import LoongsonEjtag.WiredTarget
import LoongsonEjtag.LedTask
import LoongsonEjtag.Lib.FieldRegister
import LoongsonEjtag.Lib.SharedRegister
import LoongsonEjtag.EpRegister
import LoongsonEjtag.Pma
import LoongsonEjtag.Fsdev
import LoongsonEjtag.Lib.Arena
import LoongsonEjtag.FsdevFrame
import LoongsonEjtag.FsdevSteps
import LoongsonEjtag.Lib.Pipe
import LoongsonEjtag.FsdevPipes
