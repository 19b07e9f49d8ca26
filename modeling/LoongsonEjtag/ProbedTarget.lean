import LoongsonEjtag.IrdrData
import LoongsonEjtag.FastdataSelect
import LoongsonEjtag.Lib.ScanTarget
import LoongsonEjtag.StartUp
import LoongsonEjtag.TdoStream

/-! # What the host's commands do to the target

The firmware between a host and a target: pins that the engine moves, TDO as the
target drives it, and nothing known about the target but what a JTAG port is.

* `ProbedTarget` — the target with its other pins.
* `serve` — what a command means to the target, without blocks, buffers and clocks.
* `irdrBlock_pins` — the block of a scan is one scan of the TAP controller.
* `commands_reach_target` — in every run of scans and commands without a scan, the
  target is where the commands lead it, and the host gets what the scans read.
-/

namespace LoongsonEjtag

open Lib (Byte Dword Machine Each TapRegister Target TargetPort scanTms zeros bitAt bitsFrom
  bind_eq_ok dwordsBytes)
open Wire

/-! ## The target -/

/-- `io` is what the pins besides the JTAG port do. -/
structure ProbedTarget (σ : Type*) extends Target σ where
  io : LsejtagImplIo → Bool → σ → σ

variable {σ : Type*} (T : ProbedTarget σ)

namespace ProbedTarget

/-- What an event does to the target. -/
def event (p : TargetPort σ) : Event → TargetPort σ
  | .runBlock seq | .runDirect seq => p.run T.toTarget seq.pins
  | .ioManip io level => { p with core := T.io io level p.core }
  | _ => p

/-- The target after a trace. -/
def portAfter (p : TargetPort σ) (t : List Event) : TargetPort σ := t.foldl T.event p

theorem portAfter_append (p : TargetPort σ) (t u : List Event) :
    T.portAfter p (t ++ u) = T.portAfter (T.portAfter p t) u := by
  rw [portAfter, portAfter, portAfter, List.foldl_append]

theorem portAfter_runDirect (p : TargetPort σ) (seq : JtagSeq) (t : List Event) :
    T.portAfter p (.runDirect seq :: t) = T.portAfter (p.run T.toTarget seq.pins) t := rfl

theorem portAfter_runBlock (p : TargetPort σ) (seq : JtagSeq) (t : List Event) :
    T.portAfter p (.runBlock seq :: t) = T.portAfter (p.run T.toTarget seq.pins) t := rfl

end ProbedTarget

/-! ## What a command means -/

/-- The data of a scan, first bit first. -/
def irseqBits (cmd : List Byte) : List Bool := (List.range (irseqLenBits cmd)).map (irseqBit cmd)

@[simp] theorem length_irseqBits (cmd : List Byte) :
    (irseqBits cmd).length = irseqLenBits cmd := by
  simp [irseqBits]

/-- Of the two scans, `op_ir_rw`. -/
def isIr (cmd : List Byte) : Bool := op cmd == some .opIrRw

/-- The register of an IR or DR command. -/
def scanRegister (cmd : List Byte) : TapRegister := irdrRegister (isIr cmd)

/-- The target, and what scans with `read_back` have read. -/
structure Served (σ : Type*) where
  core : σ
  returned : List (List Bool)

namespace ProbedTarget

/-- `cmdimpl_io_manip` without the pins that are the port's own. -/
def serveIo (core : σ) (cmd : List Byte) : σ :=
  match portId cmd with
  | 0 => T.io .implIoLed (level cmd) core
  | 3 => T.io .implIoTrst (level cmd) core
  | 4 => T.io .implIoBrst (level cmd) core
  | 5 => T.io .implIoDint (level cmd) core
  | 6 => T.reset core
  | _ => core

/-- A command, as the host means it. -/
def serve (s : Served σ) (cmd : List Byte) : Served σ :=
  if isIrdr cmd then
    { core := T.scanned (scanRegister cmd) s.core (irseqBits cmd)
      returned := if readBack cmd then
        s.returned ++ [T.scanOut (scanRegister cmd) s.core (irseqBits cmd)] else s.returned }
  else if op cmd = some .opIoManip then { s with core := T.serveIo s.core cmd }
  else s

def serveAll (core : σ) (cmds : List (List Byte)) : Served σ := cmds.foldl T.serve ⟨core, []⟩

theorem serveAll_concat (core : σ) (cmds : List (List Byte)) (cmd : List Byte) :
    T.serveAll core (cmds ++ [cmd]) = T.serve (T.serveAll core cmds) cmd := by
  rw [serveAll, List.foldl_append]
  rfl

end ProbedTarget

/-! ## Commands of a trace -/

/-- The command of the call that is going on, and those that have succeeded. -/
structure CallTrace where
  current : Option (List Byte)
  served : List (List Byte)

def CallTrace.next (c : CallTrace) : Event → CallTrace
  | .execute continuation cmd => { c with current := if continuation then none else some cmd }
  | .executed .cerSuccess => ⟨none, c.served ++ c.current.toList⟩
  | .executed _ => { c with current := none }
  | _ => c

/-- Commands that `lsejtag_execute` was presented first and that have succeeded. -/
def servedCmds (t : List Event) : List (List Byte) :=
  (t.foldl CallTrace.next ⟨none, []⟩).served

/-! ## The block of a scan -/

section block

variable {blk blk' : JtagbufBlk} {cmd : List Byte} {isir : Bool}

theorem irdrTmsSequence_eq (isir : Bool) (len : Nat) :
    irdrTmsSequence isir len = scanTms (irdrRegister isir) len := by
  rw [irdrTmsSequence, scanTms, List.append_assoc]
  cases isir <;> rfl

theorem length_enter (isir : Bool) : (irdrRegister isir).enter.length = irdrOffset isir := by
  cases isir <;> rfl

/-- The pins of a block from its two buffers. -/
theorem JtagbufBlk.pins_seq (blk : JtagbufBlk) :
    blk.seq.pins = (bitsFrom blk.tmsData 0 blk.tdiBits).zip
      (bitsFrom blk.tdiData 0 blk.tdiBits) := by
  rw [bitsFrom, bitsFrom, List.zip_map']
  apply List.map_congr_left
  intro p _
  simp [JtagbufBlk.seq, bitAt, List.getD_eq_getElem?_getD]

theorem irdrBlock_tms (built : irdrBlock blk cmd isir = .ok blk') (some : 1 ≤ irseqLenBits cmd)
    (inPlace : ClosesInPlace isir (irseqLenBits cmd)) :
    bitsFrom blk'.tmsData 0 blk'.tdiBits = scanTms (irdrRegister isir) (irseqLenBits cmd) := by
  rw [← irdrTmsSequence_eq, ← irdrTmsBit_documented some inPlace, irdrBlock_tdiBits built]
  apply List.map_congr_left
  intro p member
  rw [Nat.zero_add, bitAt_irdrBlock built (List.mem_range.mp member)]

/-- The data, in front of it zeros, and behind it whatever is in the buffer. -/
theorem irdrBlock_tdi (built : irdrBlock blk cmd isir = .ok blk') :
    bitsFrom blk'.tdiData 0 blk'.tdiBits = zeros (irdrOffset isir) ++ (irseqBits cmd ++
      bitsFrom blk'.tdiData (irdrOffset isir + irseqLenBits cmd) 2) := by
  have front : bitsFrom blk'.tdiData 0 (irdrOffset isir) = zeros (irdrOffset isir) := by
    apply List.eq_replicate_iff.mpr
    refine ⟨Lib.length_bitsFrom .., ?_⟩
    intro bit member
    obtain ⟨p, below, rfl⟩ := List.mem_map.mp member
    have below := List.mem_range.mp below
    rw [Nat.zero_add, irdrBlock_data built (by omega), decide_eq_false (by omega), Bool.false_and]
  have data : bitsFrom blk'.tdiData (irdrOffset isir) (irseqLenBits cmd) = irseqBits cmd := by
    apply List.map_congr_left
    intro k member
    have below := List.mem_range.mp member
    rw [irdrBlock_data built (by omega), decide_eq_true (by omega), Bool.true_and,
      Nat.add_sub_cancel_left]
  rw [irdrBlock_tdiBits built, Lib.bitsFrom_add, Lib.bitsFrom_add, front, Nat.zero_add,
    Nat.zero_add, data, List.append_assoc]

/-- The block of a scan that closes in place is one scan through its register. -/
theorem irdrBlock_pins (built : irdrBlock blk cmd isir = .ok blk') (some : 1 ≤ irseqLenBits cmd)
    (inPlace : ClosesInPlace isir (irseqLenBits cmd)) :
    ∃ trail : List Bool, trail.length = 2 ∧
      blk'.seq.pins = (scanTms (irdrRegister isir) (irseqBits cmd).length).zip
        (zeros (irdrOffset isir) ++ (irseqBits cmd ++ trail)) := by
  refine ⟨bitsFrom blk'.tdiData (irdrOffset isir + irseqLenBits cmd) 2,
    Lib.length_bitsFrom .., ?_⟩
  rw [JtagbufBlk.pins_seq, irdrBlock_tms built some inPlace, irdrBlock_tdi built, length_irseqBits]

/-- All of it is in the buffers. -/
theorem irdrBlock_inside (built : irdrBlock blk cmd isir = .ok blk') : blk'.tdiBits ≤ 2048 := by
  have bits := irdrBlock_tdiBits built
  obtain ⟨_, _, _, _, _, clear, -⟩ := irdrBlock_built built
  have inside := DwordBuf.clear_inside clear
  rw [bit2dword] at inside
  omega

end block

/-! ## What a run reports -/

/-- Bit `p` of a list of dwords. -/
def dwordsBit (dwords : List Dword) (p : Nat) : Bool :=
  (dwords.getD (p / 32) 0).getLsbD (p % 32)

/-- The dwords of a scan, with its bits where the engine leaves them. -/
structure Carries (bits : List Bool) (dwords : List Dword) : Prop where
  count : dwords.length = bit2dword bits.length
  samples : ∀ k, k < bits.length →
    bits[k]? = some (dwordsBit dwords (sampleBit bits.length k))

theorem dwordsBit_window {buf : Vector Dword 64} {start count p : Nat}
    (inside : p < 32 * count) :
    dwordsBit ((buf.toList.drop start).take count) p = bitAt buf (32 * start + p) := by
  have dword : (32 * start + p) / 32 = start + p / 32 := by omega
  have bit : (32 * start + p) % 32 = p % 32 := by omega
  rw [dwordsBit, bitAt, dword, bit, List.getD_eq_getElem?_getD,
    List.getElem?_take_of_lt (by omega), List.getElem?_drop]
  simp

theorem sampleBit_lt {len k : Nat} (below : k < len) : sampleBit len k < 32 * bit2dword len := by
  rw [sampleBit, bit2dword]
  split <;> omega

theorem ScanCaptured.carries {off len start : Nat} {tdo : Nat → Bool} {r : JtagRegs}
    (captured : ScanCaptured off len start tdo r) (room : r.dwords = 0 ∨ start + r.dwords ≤ 64)
    {bits : List Bool} (length : bits.length = len)
    (sampled : ∀ k, k < len → bits[k]? = some (tdo (off + k))) :
    Carries bits ((r.tdoBuf.toList.drop start).take r.dwords) := by
  obtain ⟨-, dwords, samples⟩ := captured
  subst length
  refine ⟨?_, ?_⟩
  · rw [List.length_take, List.length_drop, Vector.length_toList, dwords]
    rw [dwords] at room
    omega
  · intro k below
    rw [sampled k below, dwordsBit_window (by rw [dwords]; exact sampleBit_lt below),
      samples k below]

/-- A block that was run has been shifted. -/
theorem JtagRan.shifted {w w' : World} {tdo : Nat → Bool} {buf : Vector Dword 64} {dwords : Nat}
    (free : w.ctx.periphWorking = false) (prepared : w.ctx.jtagbufA.prepared = true)
    (run : lsejtagRunJtag w tdo = .ok w') (ran : JtagRan w .a buf dwords w') :
    ∃ r, jtagShift w.ctx.jtagbufA.seq w.ctx.tdoInData (some w.ctx.tdoDmaPtr) tdo = .ok r ∧
      r.tdoBuf = buf ∧ r.dwords = dwords := by
  have picked : w.ctx.preparedBufblk = some .a := by
    rw [LsejtagCtx.preparedBufblk, if_pos prepared]
  simp only [lsejtagRunJtag, free, picked, Bool.false_eq_true, if_false] at run
  obtain ⟨after, engine, finished⟩ := bind_eq_ok.mp run
  obtain ⟨r, shifted, completed⟩ := bind_eq_ok.mp engine
  cases completed
  split at finished
  · cases finished
  · cases finished
    have data := congrArg (fun ctx : LsejtagCtx => ctx.tdoInData) ran.ctx
    have pointer := congrArg (fun ctx : LsejtagCtx => ctx.tdoDmaPtr) ran.ctx
    exact ⟨r, shifted, data, Nat.add_left_cancel pointer⟩

/-! ## The run of a scan -/

/-- A waiting block of a scan that closes in place. -/
structure ScanWaits (cmd : List Byte) (ctx : LsejtagCtx) : Prop where
  irdr : isIrdr cmd
  nonempty : 1 ≤ irseqLenBits cmd
  inPlace : ClosesInPlace (isIr cmd) (irseqLenBits cmd)
  prepared : ctx.jtagbufA.prepared = true
  built : ∃ blk, irdrBlock blk cmd (isIr cmd) = .ok ctx.jtagbufA

section scan

variable {T} {cmd : List Byte} {w w' : World} {tdo : Nat → Bool} {path : List Bool} {core : σ}
  {buf : Vector Dword 64} {dwords : Nat}

/-- The target is scanned. -/
theorem ScanWaits.target (waits : ScanWaits cmd w.ctx) :
    ∃ path', (⟨.runTestIdle, path, core⟩ : TargetPort σ).run T.toTarget w.ctx.jtagbufA.seq.pins =
      ⟨.runTestIdle, path', T.scanned (scanRegister cmd) core (irseqBits cmd)⟩ := by
  obtain ⟨blk, built⟩ := waits.built
  obtain ⟨trail, after, pins⟩ := irdrBlock_pins built waits.nonempty waits.inPlace
  have bits : irseqBits cmd ≠ [] := by
    rw [← List.length_pos_iff, length_irseqBits]
    exact waits.nonempty
  rw [pins]
  exact ⟨_, TargetPort.run_scanTms bits (by rw [Lib.length_zeros, length_enter]) after⟩

/-- With `read_back` the dwords reported carry what the scan reads, without it there
    are none. -/
theorem ScanWaits.reports (waits : ScanWaits cmd w.ctx) (free : w.ctx.periphWorking = false)
    (run : lsejtagRunJtag w tdo = .ok w') (ran : JtagRan w .a buf dwords w')
    (drives : TargetPort.Drives T.toTarget ⟨.runTestIdle, path, core⟩ w.ctx.jtagbufA.seq.pins tdo) :
    if readBack cmd then
      Carries (T.scanOut (scanRegister cmd) core (irseqBits cmd))
        ((buf.toList.drop w.ctx.tdoDmaPtr).take dwords)
    else dwords = 0 := by
  obtain ⟨blk, built⟩ := waits.built
  obtain ⟨trail, after, pins⟩ := irdrBlock_pins built waits.nonempty waits.inPlace
  have total := irdrBlock_tdiBits built
  have inside := irdrBlock_inside built
  have bits : irseqBits cmd ≠ [] := by
    rw [← List.length_pos_iff, length_irseqBits]
    exact waits.nonempty
  obtain ⟨r, shifted, rfl, rfl⟩ := ran.shifted free waits.prepared run
  have captured : TdoCaptured w.ctx.jtagbufA.seq tdo w.ctx.tdoInData w.ctx.tdoDmaPtr r := by
    have isBits : w.ctx.jtagbufA.seq.tdiBits = w.ctx.jtagbufA.tdiBits := rfl
    have tdi : w.ctx.jtagbufA.seq.tdi.length = 64 := Vector.length_toList
    have tms : w.ctx.jtagbufA.seq.tms.length = 64 := Vector.length_toList
    obtain ⟨goes, stops⟩ := jtagShift_decided w.ctx.jtagbufA.seq tdo w.ctx.tdoInData (by omega)
      (by omega) (by omega) w.ctx.tdoDmaPtr
    by_cases fits : w.ctx.jtagbufA.seq.StoresFit w.ctx.tdoDmaPtr
    · obtain ⟨r', shifted', captured⟩ := goes fits
      rw [shifted] at shifted'
      cases shifted'
      exact captured
    · rw [stops fits] at shifted
      cases shifted
  by_cases reads : readBack cmd = true
  · rw [if_pos reads]
    obtain ⟨skip, window⟩ := irdrBlock_window built reads
    have scan := captured.scan (show w.ctx.jtagbufA.tdoSkipBits + w.ctx.jtagbufA.tdoBits ≤
      w.ctx.jtagbufA.tdiBits by omega)
    rw [pins] at drives
    apply scan.carries ran.room
    · rw [Target.length_scanOut, length_irseqBits]
      exact window.symm
    · intro k below
      have isBits : w.ctx.jtagbufA.seq.tdoBits = irseqLenBits cmd := window
      have isSkip : w.ctx.jtagbufA.seq.tdoSkipBits = irdrOffset (isIr cmd) := skip
      rw [isSkip, ← length_enter]
      exact drives.scanTms bits (by rw [Lib.length_zeros, length_enter]) after
        (by rw [length_irseqBits]; omega)
  · have none : w.ctx.jtagbufA.seq.tdoBits = 0 := by
      obtain ⟨-, -, -, tdoBits, -⟩ := irdrBlock_ok built
      exact tdoBits.trans (if_neg reads)
    rw [if_neg reads, captured.dwords_eq, JtagSeq.tdoSampled, none, Nat.zero_min]

end scan

/-! ## Calls -/

/-- Scans that close in place, and commands without a scan except for the TRST pin,
    which resets the controller behind the probe's back. -/
def Servable (cmd : List Byte) : Prop :=
  isIrdr cmd ∧ 1 ≤ irseqLenBits cmd ∧ ClosesInPlace (isIr cmd) (irseqLenBits cmd) ∨
    isAtOnce cmd ∧ (op cmd = some .opIoManip → portId cmd ≠ 3)

instance (cmd : List Byte) : Decidable (isAtOnce cmd) :=
  inferInstanceAs (Decidable (_ ∨ _ ∨ _))

instance (cmd : List Byte) : Decidable (Servable cmd) := inferInstanceAs (Decidable (_ ∨ _))

/-- Events that leave the target, the reported dwords and the current call alone. -/
def Event.offTarget : Event → Bool
  | .usbOut _ | .consume _ _ _ _ | .respond _ | .flush _ | .reconfigure _ _ | .prepared _
  | .complete _ => true
  | .ioManip _ _ | .runBlock _ | .runDirect _ | .completeTdo _ | .execute _ _ | .executed _ =>
    false

/-- What `cmdimpl_io_manip` adds to a trace. -/
def ioEvents (cmd : List Byte) (active : Option BufId) : List Event :=
  match portId cmd with
  | 0 => [.ioManip .implIoLed (level cmd)]
  | 3 => [.ioManip .implIoTrst (level cmd)]
  | 4 => [.ioManip .implIoBrst (level cmd)]
  | 5 => [.ioManip .implIoDint (level cmd)]
  | 6 => [.runDirect tapResetSeq, .complete active, .completeTdo []]
  | _ => []

/-- The ways a call of `lsejtag_execute` for a servable command can return. -/
inductive ServedCall (w : World) : LsejtagCmdExecResult → World → Prop
  | refused (r : LsejtagCmdExecResult) (w' : World) (failed : r ≠ .cerSuccess)
      (trace : w'.trace = w.trace) (blockA : w'.ctx.jtagbufA = w.ctx.jtagbufA) : ServedCall w r w'
  | scan (irdr : isIrdr w.ctx.cmd) (blk : JtagbufBlk) (w' : World)
      (built : irdrBlock w.ctx.jtagbufA w.ctx.cmd (isIr w.ctx.cmd) = .ok blk)
      (prepared : blk.prepared = true) (trace : w'.trace = w.trace ++ [.prepared blk.seq])
      (blockA : w'.ctx.jtagbufA = blk) : ServedCall w .cerSuccess w'
  | io (isOp : op w.ctx.cmd = some .opIoManip) (w' : World)
      (trace : w'.trace = w.trace ++ ioEvents w.ctx.cmd w.ctx.activeBufblk)
      (blockA : w'.ctx.jtagbufA = w.ctx.jtagbufA) : ServedCall w .cerSuccess w'
  | silent (noScan : ¬isIrdr w.ctx.cmd) (noIo : op w.ctx.cmd ≠ some .opIoManip) (w' : World)
      (es : List Event) (trace : w'.trace = w.trace ++ es)
      (off : ∀ e ∈ es, e.offTarget = true) (blockA : w'.ctx.jtagbufA = w.ctx.jtagbufA) :
      ServedCall w .cerSuccess w'

section calls

variable {w w' : World} {r : LsejtagCmdExecResult} {tdo : Nat → Bool} {txFree : Nat}

theorem cmdimplIrdrWrite_served (free : w.ctx.periphFree = true) (irdr : isIrdr w.ctx.cmd)
    (executed : cmdimplIrdrWrite w (isIr w.ctx.cmd) = .ok (r, w')) : ServedCall w r w' := by
  simp only [cmdimplIrdrWrite, LsejtagCtx.freeJtagbuf_of_periphFree free] at executed
  split at executed
  · cases executed
    exact .refused _ _ (by simp) rfl rfl
  · obtain ⟨blk, built, finished⟩ := bind_eq_ok.mp executed
    cases finished
    obtain ⟨-, -, prepared, -, -⟩ := irdrBlock_ok built
    exact .scan irdr blk _ built prepared rfl rfl

theorem cmdimplIoManip_served (free : w.ctx.periphFree = true) (small : w.ctx.tdoInDwords ≤ 64)
    (isOp : op w.ctx.cmd = some .opIoManip)
    (executed : cmdimplIoManip w tdo = .ok (r, w')) : ServedCall w r w' := by
  simp only [cmdimplIoManip] at executed
  split at executed
  · rename_i above
    cases executed
    have none : ioEvents w.ctx.cmd w.ctx.activeBufblk = [] := by
      rw [ioEvents]
      rw [ioMaximum] at above
      split <;> first | rfl | omega
    exact .io isOp w (by rw [none, List.append_nil]) rfl
  · obtain ⟨after, port, finished⟩ := bind_eq_ok.mp executed
    cases finished
    simp only [ioManipPort] at port
    have served : ∀ middle : World, middle.ctx.jtagbufA = w.ctx.jtagbufA →
        middle.trace = w.trace ++ ioEvents w.ctx.cmd w.ctx.activeBufblk →
        ServedCall w .cerSuccess { middle with ctx := cmdBufClean middle.ctx } :=
      fun middle blockA trace => .io isOp _ trace blockA
    split at port
    case h_5 isPort =>
      rw [waitUntilJtagPeriphFree_ok free, Lib.ok_bind] at port
      obtain ⟨ran, direct, waited⟩ := bind_eq_ok.mp port
      cases waitUntilJtagPeriphFree_eq waited
      obtain rfl := lsejtagImplRunJtag_silent (w := w.log _) free small rfl direct
      apply served
      · rfl
      · rw [ioEvents, isPort, World.trace_log, List.append_assoc]
        rfl
    case h_6 l₀ l₃ l₄ l₅ l₆ =>
      cases port
      apply served w rfl
      rw [ioEvents]
      split <;> simp_all
    all_goals
      rename_i isPort
      cases port
      apply served
      · rfl
      · rw [ioEvents, isPort]
        rfl

theorem executeCommand_served (free : w.ctx.periphFree = true) (small : w.ctx.tdoInDwords ≤ 64)
    (servable : Servable w.ctx.cmd) (executed : executeCommand w txFree tdo = .ok (r, w')) :
    ServedCall w r w' := by
  rw [executeCommand] at executed
  obtain ⟨irdr, -, -⟩ | ⟨isProbe | isIo | isDate, -⟩ := servable
  · obtain isOp | isOp := irdr
    · have ir : isIr w.ctx.cmd = true := by rw [isIr, isOp]; rfl
      simp only [isOp] at executed
      exact cmdimplIrdrWrite_served free (.inl isOp) (by rw [ir]; exact executed)
    · have dr : isIr w.ctx.cmd = false := by rw [isIr, isOp]; rfl
      simp only [isOp] at executed
      exact cmdimplIrdrWrite_served free (.inr isOp) (by rw [dr]; exact executed)
  · have noScan : ¬isIrdr w.ctx.cmd := isAtOnce.noScan (.inl isProbe)
    have noIo : op w.ctx.cmd ≠ some .opIoManip := by simp [isProbe]
    simp only [isProbe, cmdimplProbeMemRw] at executed
    split at executed
    · obtain ⟨after, wrote, finished⟩ := bind_eq_ok.mp executed
      obtain ⟨params, es, reconfigures, rfl⟩ := probeMemWrite_ok wrote
      cases finished
      refine .silent noScan noIo _ es rfl ?_ rfl
      intro e member
      obtain ⟨_, _, rfl⟩ := reconfigures e member
      rfl
    · split at executed
      · cases executed
        exact .refused _ _ (by simp) rfl rfl
      · cases executed
        exact .silent noScan noIo _ [.respond _] rfl (by simp [Event.offTarget]) rfl
  · simp only [isIo] at executed
    exact cmdimplIoManip_served free small isIo executed
  · have noScan : ¬isIrdr w.ctx.cmd := isAtOnce.noScan (.inr (.inr isDate))
    have noIo : op w.ctx.cmd ≠ some .opIoManip := by simp [isDate]
    simp only [isDate, cmdimplGetFirmwareDate] at executed
    split at executed
    · cases executed
      exact .refused _ _ (by simp) rfl rfl
    · cases executed
      exact .silent noScan noIo _ [.respond _] rfl (by simp [Event.offTarget]) rfl

end calls

/-! ## The target and the trace -/

section trace

variable {p : TargetPort σ} {t es : List Event} {c : CallTrace}

theorem portAfter_off (off : ∀ e ∈ es, e.offTarget = true) (p : TargetPort σ) :
    T.portAfter p es = p := by
  induction es with
  | nil => rfl
  | cons e es ih =>
    have first : T.event p e = p := by
      have isOff := off e List.mem_cons_self
      cases e <;> first | rfl | cases isOff
    rw [ProbedTarget.portAfter, List.foldl_cons, first]
    exact ih fun e' member => off e' (List.mem_cons_of_mem e member)

theorem reported_off (off : ∀ e ∈ es, e.offTarget = true) : reported es = [] := by
  apply List.flatMap_eq_nil_iff.mpr
  intro e member
  have isOff := off e member
  cases e <;> first | rfl | cases isOff

theorem next_off (off : ∀ e ∈ es, e.offTarget = true) (c : CallTrace) :
    es.foldl CallTrace.next c = c := by
  induction es with
  | nil => rfl
  | cons e es ih =>
    have first : c.next e = c := by
      have isOff := off e List.mem_cons_self
      cases e <;> first | rfl | cases isOff
    rw [List.foldl_cons, first]
    exact ih fun e' member => off e' (List.mem_cons_of_mem e member)

theorem next_ioEvents (cmd : List Byte) (active : Option BufId) (c : CallTrace) :
    (ioEvents cmd active).foldl CallTrace.next c = c := by
  rw [ioEvents]
  split <;> rfl

theorem reported_ioEvents (cmd : List Byte) (active : Option BufId) :
    reported (ioEvents cmd active) = [] := by
  rw [ioEvents]
  split <;> rfl

theorem tapResetSeq_tms :
    tapResetSeq.pins.map Prod.fst = List.replicate 63 true ++ zeros (0 + 1) := by
  decide

/-- Where the port is idle, the pins of `cmdimpl_io_manip` do what the command means. -/
theorem portAfter_ioEvents (cmd : List Byte) (active : Option BufId) (path : List Bool)
    (core : σ) :
    T.portAfter ⟨.runTestIdle, path, core⟩ (ioEvents cmd active) =
      ⟨.runTestIdle, path, T.serveIo core cmd⟩ := by
  rw [ioEvents, ProbedTarget.serveIo]
  split
  case h_5 isPort =>
    rw [T.portAfter_runDirect, TargetPort.run_resetTms_idle tapResetSeq_tms (by decide)]
    rfl
  all_goals simp_all [ProbedTarget.portAfter, ProbedTarget.event]

/-- The events of a call, between its start and its end. -/
theorem servedCmds_call (keeps : ∀ c : CallTrace, es.foldl CallTrace.next c = c) (cmd : List Byte)
    (r : LsejtagCmdExecResult) :
    servedCmds (t ++ .execute false cmd :: (es ++ [.executed r])) =
      servedCmds t ++ if r = .cerSuccess then [cmd] else [] := by
  rw [servedCmds, List.foldl_append, List.foldl_cons, List.foldl_append, keeps]
  cases r with
  | cerSuccess => rfl
  | _ => exact (List.append_nil _).symm

theorem portAfter_call (p : TargetPort σ) (cmd : List Byte) (r : LsejtagCmdExecResult) :
    T.portAfter p (t ++ .execute false cmd :: (es ++ [.executed r])) =
      T.portAfter (T.portAfter p t) es := by
  rw [T.portAfter_append, ← List.cons_append, T.portAfter_append]
  rfl

theorem reported_call (cmd : List Byte) (r : LsejtagCmdExecResult) :
    reported (t ++ .execute false cmd :: (es ++ [.executed r])) = reported t ++ reported es := by
  simp [Event.reportedDwords]

end trace

/-! ## The invariant -/

/-- The block that waits is the scan of the last command. -/
inductive CmdWaits (ctx : LsejtagCtx) : List (List Byte) → Prop
  | nothing (unprepared : ctx.jtagbufA.prepared = false) : CmdWaits ctx []
  | scan (cmd : List Byte) (waits : ScanWaits cmd ctx) : CmdWaits ctx [cmd]

/-- The target has got as far as `done`, and the dwords reported so far carry what
    was read. -/
structure ServedInv (p : TargetPort σ) (core : σ) (w : World) (done waiting : List (List Byte)) :
    Prop where
  served : servedCmds w.trace = done ++ waiting
  port : ∃ path, T.portAfter p w.trace = ⟨.runTestIdle, path, (T.serveAll core done).core⟩
  returned : ∃ chunks, List.Forall₂ Carries (T.serveAll core done).returned chunks ∧
    reported w.trace = chunks.flatten
  waits : CmdWaits w.ctx waiting

namespace ServedInv

variable {T} {p : TargetPort σ} {core : σ} {w w' : World} {done waiting : List (List Byte)}
  {r : LsejtagCmdExecResult} {es : List Event}

/-- Events off the target. -/
theorem off (inv : ServedInv T p core w done waiting) (trace : w'.trace = w.trace ++ es)
    (off : ∀ e ∈ es, e.offTarget = true) (blockA : w'.ctx.jtagbufA = w.ctx.jtagbufA) :
    ServedInv T p core w' done waiting := by
  obtain ⟨served, port, returned, waits⟩ := inv
  refine ⟨?_, ?_, ?_, ?_⟩
  · rw [trace, servedCmds, List.foldl_append, next_off off]
    exact served
  · rw [trace, ProbedTarget.portAfter_append, portAfter_off T off]
    exact port
  · rw [trace, reported_append, reported_off off, List.append_nil]
    exact returned
  · cases waits with
    | nothing unprepared => exact .nothing (blockA ▸ unprepared)
    | scan cmd waits =>
      obtain ⟨irdr, nonempty, inPlace, prepared, built⟩ := waits
      exact .scan cmd ⟨irdr, nonempty, inPlace, blockA ▸ prepared, blockA ▸ built⟩

/-- A call that does not return. -/
theorem entered (inv : ServedInv T p core w done waiting) :
    ServedInv T p core w.enterExecute done waiting := by
  obtain ⟨served, ⟨path, port⟩, ⟨chunks, carries, returned⟩, waits⟩ := inv
  refine ⟨?_, ⟨path, ?_⟩, ⟨chunks, carries, ?_⟩, waits⟩
  · rw [World.enterExecute, World.trace_log, servedCmds, List.foldl_append]
    exact served
  · rw [World.enterExecute, World.trace_log, ProbedTarget.portAfter_append, port]
    rfl
  · rw [World.enterExecute, World.trace_log, reported_append, returned]
    exact List.append_nil _

/-- With no block waiting, a call serves its command or is refused. -/
theorem called (inv : ServedInv T p core w done waiting)
    (unprepared : w.ctx.jtagbufA.prepared = false) (fresh : w.ctx.continuation = false)
    (servable : Servable w.ctx.cmd) (call : ServedCall w.enterExecute r w') :
    ∃ done waiting, ServedInv T p core (w'.log (.executed r)) done waiting := by
  obtain ⟨served, ⟨path, port⟩, ⟨chunks, carries, returned⟩, waits⟩ := inv
  have none : waiting = [] := by
    cases waits with
    | nothing => rfl
    | scan _ waits =>
      have prepared := waits.prepared
      rw [unprepared] at prepared
      cases prepared
  rw [none, List.append_nil] at served
  have entered : w.enterExecute.trace = w.trace ++ [.execute false w.ctx.cmd] := by
    rw [World.enterExecute, fresh]
    rfl
  have trace : ∀ es, w'.trace = w.enterExecute.trace ++ es → (w'.log (.executed r)).trace =
      w.trace ++ .execute false w.ctx.cmd :: (es ++ [.executed r]) := by
    intro es added
    rw [World.trace_log, added, entered, List.append_assoc, List.append_assoc]
    rfl
  -- A command that is done at once.
  have atOnce : ∀ es core', w'.trace = w.enterExecute.trace ++ es →
      w'.ctx.jtagbufA = w.ctx.jtagbufA → r = .cerSuccess →
      (∀ c : CallTrace, es.foldl CallTrace.next c = c) → reported es = [] →
      T.portAfter ⟨.runTestIdle, path, (T.serveAll core done).core⟩ es =
        ⟨.runTestIdle, path, core'⟩ →
      T.serve (T.serveAll core done) w.ctx.cmd = { T.serveAll core done with core := core' } →
      ServedInv T p core (w'.log (.executed r)) (done ++ [w.ctx.cmd]) [] := by
    intro es core' added blockA success keeps nothing target means
    refine ⟨?_, ⟨path, ?_⟩, ⟨chunks, ?_, ?_⟩, .nothing (blockA ▸ unprepared)⟩
    · rw [trace es added, servedCmds_call keeps, served, if_pos success, List.append_nil]
    · rw [trace es added, portAfter_call, port, target, T.serveAll_concat, means]
    · rw [T.serveAll_concat, means]
      exact carries
    · rw [trace es added, reported_call, nothing, List.append_nil, returned]
  cases call with
  | refused _ _ failed added blockA =>
    rw [← List.append_nil w.enterExecute.trace] at added
    refine ⟨done, [], ?_, ⟨path, ?_⟩, ⟨chunks, carries, ?_⟩, .nothing (blockA ▸ unprepared)⟩
    · rw [trace [] added, servedCmds_call fun _ => rfl, served, if_neg failed]
    · rw [trace [] added, portAfter_call, port]
      rfl
    · rw [trace [] added, reported_call, returned]
      exact List.append_nil _
  | scan irdr blk _ built prepared added blockA =>
    obtain ⟨-, nonempty, inPlace⟩ : isIrdr w.ctx.cmd ∧ 1 ≤ irseqLenBits w.ctx.cmd ∧
        ClosesInPlace (isIr w.ctx.cmd) (irseqLenBits w.ctx.cmd) := by
      obtain scan | ⟨atOnce, -⟩ := servable
      · exact scan
      · exact absurd irdr atOnce.noScan
    refine ⟨done, [w.ctx.cmd], ?_, ⟨path, ?_⟩, ⟨chunks, carries, ?_⟩,
      .scan _ ⟨irdr, nonempty, inPlace, ?_, w.ctx.jtagbufA, ?_⟩⟩
    · rw [trace _ added, servedCmds_call fun _ => rfl, served, if_pos rfl]
    · rw [trace _ added, portAfter_call, port]
      rfl
    · rw [trace _ added, reported_call, returned]
      exact List.append_nil _
    · rw [World.ctx_log, blockA, prepared]
    · rw [World.ctx_log, blockA]
      exact built
  | io isOp _ added blockA =>
    have noScan : ¬isIrdr w.ctx.cmd := isAtOnce.noScan (.inr (.inl isOp))
    refine ⟨_, [], atOnce _ (T.serveIo (T.serveAll core done).core w.ctx.cmd) added blockA rfl
      (next_ioEvents _ _) (reported_ioEvents _ _) (portAfter_ioEvents T _ _ _ _) ?_⟩
    exact (if_neg noScan).trans (if_pos isOp)
  | silent noScan noIo _ es added off blockA =>
    refine ⟨_, [], atOnce es _ added blockA rfl (next_off off) (reported_off off)
      (portAfter_off T off _) ?_⟩
    exact (if_neg noScan).trans (if_neg noIo)

/-- The block that waits is run. -/
theorem ran (inv : ServedInv T p core w done waiting) {tdo : Nat → Bool}
    {buf : Vector Dword 64} {dwords : Nat} (free : w.ctx.periphWorking = false)
    (prepared : w.ctx.jtagbufA.prepared = true) (run : lsejtagRunJtag w tdo = .ok w')
    (ran : JtagRan w .a buf dwords w')
    (drives : (T.portAfter p w.trace).Drives T.toTarget w.ctx.jtagbufA.seq.pins tdo) :
    ServedInv T p core w' (done ++ waiting) [] := by
  obtain ⟨served, ⟨path, port⟩, ⟨chunks, carries, returned⟩, waits⟩ := inv
  rw [port] at drives
  cases waits with
  | nothing unprepared =>
    rw [prepared] at unprepared
    cases unprepared
  | scan cmd waits =>
    obtain ⟨path', target⟩ := @ScanWaits.target σ T cmd w path (T.serveAll core done).core waits
    have reports := waits.reports free run ran drives
    have served' : servedCmds w'.trace = done ++ [cmd] := by
      rw [ran.trace, servedCmds, List.foldl_append]
      exact served
    have port' : T.portAfter p w'.trace = ⟨.runTestIdle, path',
        (T.serveAll core (done ++ [cmd])).core⟩ := by
      rw [ran.trace, T.portAfter_append, port, T.portAfter_runBlock, T.serveAll_concat,
        ProbedTarget.serve, if_pos waits.irdr]
      exact target
    have unprepared : w'.ctx.jtagbufA.prepared = false := by
      rw [ran.ctx]
      rfl
    have reported' : reported w'.trace =
        chunks.flatten ++ (buf.toList.drop w.ctx.tdoDmaPtr).take dwords := by
      rw [ran.trace, reported_append, returned]
      simp [Event.reportedDwords]
    have returned' : (T.serveAll core (done ++ [cmd])).returned =
        if readBack cmd then (T.serveAll core done).returned ++
          [T.scanOut (scanRegister cmd) (T.serveAll core done).core (irseqBits cmd)]
        else (T.serveAll core done).returned := by
      rw [T.serveAll_concat, ProbedTarget.serve, if_pos waits.irdr]
    refine ⟨by rw [served', List.append_nil], ⟨path', port'⟩, ?_, .nothing unprepared⟩
    by_cases reads : readBack cmd = true
    · rw [if_pos reads] at reports returned'
      refine ⟨chunks ++ [(buf.toList.drop w.ctx.tdoDmaPtr).take dwords], ?_, ?_⟩
      · rw [returned']
        exact List.rel_append carries (.cons reports .nil)
      · rw [reported', List.flatten_append, List.flatten_singleton]
    · rw [if_neg reads] at reports returned'
      refine ⟨chunks, by rw [returned']; exact carries, ?_⟩
      rw [reported', reports, List.take_zero, List.append_nil]

end ServedInv

/-! ## Runs of the firmware -/

/-- Every command the library is presented is servable, and none goes on. -/
def Event.isServable : Event → Bool
  | .execute continuation cmd => !continuation && decide (Servable cmd)
  | _ => true

def OnlyServable (t : List Event) : Prop := ∀ e ∈ t, e.isServable = true

instance (t : List Event) : Decidable (OnlyServable t) :=
  inferInstanceAs (Decidable (∀ e ∈ t, e.isServable = true))

namespace ProbedTarget

/-- While a block is run, TDO is what the target makes of it. -/
def Answers (p : TargetPort σ) : MainPhase → MainInput → Prop
  | .looping s, .poll _ tdo => s.pc = .runJtag → s.world.ctx.jtagbufA.prepared = true →
      (T.portAfter p s.world.trace).Drives T.toTarget s.world.ctx.jtagbufA.seq.pins tdo
  | _, _ => True

instance (p : TargetPort σ) (s : MainPhase) (input : MainInput) :
    Decidable (T.Answers p s input) :=
  match s, input with
  | .looping _, .poll _ _ => inferInstanceAs (Decidable (_ → _ → _))
  | .looping _, .usbOut _ | .reset, _ | .initialised _, _ => isTrue trivial

/-- The target when the main loop is entered. -/
def startCore (p : TargetPort σ) : σ := (p.run T.toTarget startUpResetSeq.pins).core

theorem startUp_port (p : TargetPort σ) :
    (∃ path, p.run T.toTarget startUpResetSeq.pins =
      ⟨.runTestIdle, path, T.startCore p⟩) ∧ ∃ core, T.startCore p = T.reset core := by
  have tms : startUpResetSeq.pins.map Prod.fst = List.replicate 28 true ++ zeros (3 + 1) := by
    decide
  obtain ⟨path, core, run⟩ := TargetPort.run_resetTms (T := T.toTarget) p tms (by decide)
  have isCore : T.startCore p = T.reset core := by rw [startCore, run]
  exact ⟨⟨path, by rw [run, isCore]⟩, core, isCore⟩

end ProbedTarget

section runs

variable {T} {p : TargetPort σ}

theorem Dispatched.off {w w' : World} {r : LsejtagDispatchResult} (dispatched : Dispatched w r w') :
    ∃ es, w'.trace = w.trace ++ es ∧ (∀ e ∈ es, e.offTarget = true) ∧
      w'.ctx.jtagbufA = w.ctx.jtagbufA := by
  have nothing : ∃ es, w.trace = w.trace ++ es ∧ (∀ e ∈ es, e.offTarget = true) ∧
      w.ctx.jtagbufA = w.ctx.jtagbufA :=
    ⟨[], (List.append_nil _).symm, by simp, rfl⟩
  cases dispatched with
  | flushing | run | empty => exact nothing
  | flushNew => exact ⟨[], (List.append_nil _).symm, by simp, rfl⟩
  | parsed _ _ _ _ parsed =>
    obtain ⟨-, rfl, -⟩ | returned := dispatchCmdBuf_returned parsed
    · exact nothing
    · obtain ⟨es, trace, consumes⟩ := returned.moved.trace
      refine ⟨es, trace, ?_, returned.moved.blockA⟩
      intro e member
      obtain ⟨_, _, _, _, rfl⟩ := consumes e member
      rfl

/-- A call that has returned, of a servable command. -/
theorem lsejtagExecute_served {w w' : World} {r : LsejtagCmdExecResult} {txFree : Nat}
    {tdo : Nat → Bool} (free : w.ctx.periphFree = true) (small : w.ctx.tdoInDwords ≤ 64)
    (ready : w.ctx.cmdBufState = .cbsExecute) (fresh : w.ctx.continuation = false)
    (servable : Servable w.ctx.cmd) (executed : lsejtagExecute w txFree tdo = .ok (r, w')) :
    ServedCall w r w' := by
  simp only [lsejtagExecute, ready, fresh, ne_eq, not_true_eq_false, if_false,
    Bool.false_eq_true] at executed
  exact executeCommand_served free small servable executed

theorem mainPoll_run {s : MainState} {w' : World} {txFree : Nat} {tdo : Nat → Bool}
    (at_pc : s.pc = .runJtag) (polled : mainPoll s txFree tdo = some ⟨w', .dispatch⟩) :
    lsejtagRunJtag s.world tdo = .ok w' := by
  simp only [mainPoll, at_pc] at polled
  split at polled
  · cases polled
    assumption
  · cases polled

theorem mainStep_served {s s' : MainState} {input : MainInput} {core : σ}
    {done waiting : List (List Byte)} (main : MainInv s)
    (answers : T.Answers p (.looping s) input) (stepped : mainStep s input = some s')
    (only : OnlyServable s'.world.trace) (inv : ServedInv T p core s.world done waiting) :
    ∃ done waiting, ServedInv T p core s'.world done waiting := by
  cases mainStep_stepped main stepped with
  | received bytes =>
    have trace : (s.world.receive bytes).trace = s.world.trace ++ [.usbOut bytes] := rfl
    exact ⟨_, _, inv.off trace (by simp [Event.offTarget]) rfl⟩
  | dispatched _ _ _ dispatched =>
    obtain ⟨es, trace, off, blockA⟩ := dispatched.off
    exact ⟨_, _, inv.off trace off blockA⟩
  | executed at_pc quiet ready _ _ call =>
    obtain ⟨r, w', executed, same⟩ | ⟨why, same⟩ := mainPoll_execute at_pc stepped
    · have free : s.world.enterExecute.ctx.periphFree = true :=
        main.engine.idle.periphFree quiet.noBlockA
      obtain ⟨fresh, servable⟩ : s.world.ctx.continuation = false ∧ Servable s.world.ctx.cmd := by
        obtain ⟨es, trace, -⟩ := call.inner
        have isServable := only (.execute s.world.ctx.continuation s.world.ctx.cmd) (by
          rw [World.trace_log, trace, World.enterExecute, World.trace_log]
          simp)
        simpa [Event.isServable] using isServable
      rw [same]
      exact inv.called quiet.noBlockA fresh servable
        (lsejtagExecute_served free main.engine.bounded ready fresh servable executed)
    · exact absurd (congrArg MainState.pc same) (by simp)
  | flushed _ _ dwords _ w' ctx _ trace =>
    have blockA : w'.ctx.jtagbufA = s.world.ctx.jtagbufA := by
      rw [ctx, LsejtagCtx.flushedTdo]
      split <;> rfl
    exact ⟨_, _, inv.off trace (by simp [Event.offTarget]) blockA⟩
  | ran at_pc buf dwords w' prepared ran =>
    exact ⟨_, _, inv.ran main.engine.idle.periphWorking prepared (mainPoll_run at_pc stepped) ran
      (answers at_pc prepared)⟩
  | nothingToRun | dispatchFailed | callFailed => exact ⟨_, _, inv⟩
  | executeFailed => exact ⟨_, _, inv.entered⟩

/-- What holds in each part of `main`. -/
def ServedPhase (T : ProbedTarget σ) (p : TargetPort σ) : MainPhase → Prop
  | .reset => True
  | .initialised w => ∃ arrivals : List (List Byte), w.trace = arrivals.map .usbOut
  | .looping s => OnlyServable s.world.trace →
      ∃ done waiting, ServedInv T p (T.startCore p) s.world done waiting

theorem ServedPhase.step {s s' : MainPhase} {input : MainInput} (main : MainPhaseInv s)
    (answers : T.Answers p s input) (inv : ServedPhase T p s)
    (stepped : mainPhaseStep s input = some s') : ServedPhase T p s' := by
  cases s with
  | reset =>
    cases input with
    | usbOut bytes => cases stepped
    | poll txFree tdo =>
      cases stepped
      exact ⟨[], rfl⟩
  | initialised w =>
    obtain ⟨engine, init, -, -⟩ := main
    obtain ⟨arrivals, trace⟩ := inv
    cases input with
    | usbOut bytes =>
      simp only [mainPhaseStep] at stepped
      split at stepped
      · cases stepped
        refine ⟨arrivals ++ [bytes], ?_⟩
        rw [World.receive, World.trace_log, trace, List.map_append]
        rfl
      · cases stepped
    | poll txFree tdo =>
      simp only [mainPhaseStep, initResetTapViaTms_returns engine tdo init] at stepped
      cases stepped
      intro _
      have off : ∀ e ∈ w.trace, e.offTarget = true := by
        intro e member
        rw [trace] at member
        obtain ⟨bytes, -, rfl⟩ := List.mem_map.mp member
        rfl
      obtain ⟨path, port⟩ := (T.startUp_port p).1
      refine ⟨[], [], ?_, ⟨path, ?_⟩, ⟨[], .nil, ?_⟩, .nothing ?_⟩
      · rw [servedCmds, List.foldl_append, next_off off]
        rfl
      · rw [T.portAfter_append, portAfter_off T off, T.portAfter_runDirect, port]
        rfl
      · rw [reported_append, reported_off off]
        rfl
      · rw [init]
        rfl
  | looping m =>
    obtain ⟨main, -, -⟩ := main
    simp only [mainPhaseStep, Option.map_eq_some_iff] at stepped
    obtain ⟨m', stepped, rfl⟩ := stepped
    intro only
    have before : OnlyServable m.world.trace := by
      obtain ⟨es, trace⟩ := (mainStep_stepped main stepped).callStep.grows
      intro e member
      apply only
      rw [trace]
      exact List.mem_append_left es member
    obtain ⟨done, waiting, served⟩ := inv before
    exact mainStep_served main answers stepped only served

theorem servedPhase {s : MainPhase} (reach : fromReset.Reach (T.Answers p) s) :
    MainPhaseInv s ∧ ServedPhase T p s := by
  apply reach.invariant (P := fun s => MainPhaseInv s ∧ ServedPhase T p s)
  · rintro s rfl
    exact ⟨trivial, trivial⟩
  · exact fun _ _ _ _ ⟨main, served⟩ answers stepped =>
      ⟨main.step stepped, served.step main answers stepped⟩

end runs

/-- From reset on, with any target behind the port and any state of its controller, in
    every run in which the commands are scans that close in place and commands without
    a scan:

    * the target is in Run-Test/Idle, where the commands that succeeded lead it from its
      reset state, one after the other, but for the scan whose block still waits;
    * the dwords reported carry what the scans with `read_back` have read, in order, and
      they are what was sent to the host and what waits to be. -/
theorem commands_reach_target (p : TargetPort σ) {s : MainState}
    (reach : fromReset.Reach (T.Answers p) (.looping s)) (only : OnlyServable s.world.trace) :
    (∃ core, T.startCore p = T.reset core) ∧ ∃ done waiting,
      servedCmds s.world.trace = done ++ waiting ∧ waiting.length ≤ 1 ∧
      (waiting = [] ↔ s.world.ctx.jtagbufA.prepared = false) ∧
      (∃ path, T.portAfter p s.world.trace =
        ⟨.runTestIdle, path, (T.serveAll (T.startCore p) done).core⟩) ∧
      ∃ chunks, List.Forall₂ Carries (T.serveAll (T.startCore p) done).returned chunks ∧
        reported s.world.trace = chunks.flatten ∧
        flushed s.world.trace ++ dwordsBytes s.world.ctx.pendingDwords =
          dwordsBytes chunks.flatten := by
  obtain ⟨⟨main, -, -⟩, served⟩ := servedPhase reach
  obtain ⟨done, waiting, commands, port, ⟨chunks, carries, returned⟩, waits⟩ := served only
  obtain ⟨q, is⟩ := main.engine.queue
  refine ⟨(T.startUp_port p).2, done, waiting, commands, ?_, ?_, port, chunks, carries, returned,
    returned ▸ is.stream⟩
  · cases waits with
    | nothing => exact Nat.zero_le 1
    | scan => exact Nat.le_refl 1
  · cases waits with
    | nothing unprepared => exact ⟨fun _ => unprepared, fun _ => rfl⟩
    | scan cmd waits =>
      refine ⟨fun none => (List.cons_ne_nil _ _ none).elim, fun unprepared => ?_⟩
      rw [waits.prepared] at unprepared
      cases unprepared

/-- A target with two plain registers; a reset puts a device code into the IR. -/
def twoRegisters : ProbedTarget (List Bool × List Bool) where
  capture
    | .instruction, core => core.1
    | .data, core => core.2
  update
    | .instruction, core, bits => (bits, core.2)
    | .data, core, bits => (core.1, bits)
  reset core := ([true, false, false, false, false], core.2)
  reset_reset _ := rfl
  io _ _ core := core

/-- A port that is stopped in the middle of a DR scan. -/
def pausedPort : TargetPort (List Bool × List Bool) :=
  ⟨.pauseDr, [true, true, false, true, false, false, true, false], ([], [])⟩

/-- A DR scan of eight bits that is read and sent back at once. -/
def pausedPortRun : List MainInput :=
  let tdo k := pausedPort.path.getD (k - 4) false
  List.replicate 2 (.poll 64 tdo) ++ [.usbOut [0x00, 0x17, 8, 0, 0x5c, 0, 0, 0]] ++
    List.replicate 6 (.poll 64 tdo)

/-- The scan is done. -/
def pausedPortServed : MainPhase → Bool
  | .looping s => decide (OnlyServable s.world.trace ∧ s.world.ctx.jtagbufA.prepared = false ∧
      (twoRegisters.serveAll (twoRegisters.startCore pausedPort)
        (servedCmds s.world.trace)).core = ([true, false, false, false, false],
          [false, false, true, true, true, false, true, false]) ∧
      (twoRegisters.serveAll (twoRegisters.startCore pausedPort)
        (servedCmds s.world.trace)).returned = [pausedPort.path])
  | _ => false

/-- The register holds the bits of the scan, and the bits it held are on their way to
    the host. -/
theorem commands_reach_target_paused : ∃ s : MainState,
    (twoRegisters.portAfter pausedPort s.world.trace).core =
      ([true, false, false, false, false], [false, false, true, true, true, false, true, false]) ∧
    ∃ chunk, Carries pausedPort.path chunk ∧ reported s.world.trace = chunk := by
  have ran : (fromReset.run (twoRegisters.Answers pausedPort) .reset pausedPortRun).any
      pausedPortServed = true := by
    decide +kernel
  obtain ⟨phase, reach, holds⟩ := Machine.exists_reach _ rfl ran
  cases phase with
  | reset | initialised => cases holds
  | looping s =>
    obtain ⟨only, unprepared, core, returned⟩ := of_decide_eq_true holds
    obtain ⟨-, done, waiting, served, -, none, ⟨path, port⟩, chunks, carries, reports, -⟩ :=
      commands_reach_target twoRegisters pausedPort reach only
    rw [none.mpr unprepared, List.append_nil] at served
    rw [served] at core returned
    rw [returned] at carries
    refine ⟨s, by rw [port, core], ?_⟩
    obtain ⟨chunk, _, carried, rest, rfl⟩ := List.forall₂_cons_left_iff.mp carries
    cases rest
    exact ⟨chunk, carried, by rw [reports, List.flatten_singleton]⟩

end LoongsonEjtag
