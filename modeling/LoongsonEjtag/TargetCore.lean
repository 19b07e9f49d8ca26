import LoongsonEjtag.Lib.Tap
import LoongsonEjtag.MainLoop
import LoongsonEjtag.Placement
import LoongsonEjtag.XferTemplate

/-! # The cores a fast write talks to

Without FASTDATA every transfer makes two IR scans, one that selects DATA and
one that selects CONTROL.  The loop for DATA visits the cores from the last to
the first, the loop for CONTROL from the first to the last.

* `run_xfer` — the scans the TAP controllers of the chain make of a transfer.
* `data_control_same_core` — both IR scans address one core exactly if the
  target is in the middle of the chain or one of the instructions is SKIP.
-/

namespace LoongsonEjtag

open Lib (Byte lowBits bitsFrom zeros zeros_append_zeros Tap)
open Wire

/-! ## The scans of a transfer -/

/-- The transfer without its last IR bits, cut where the TMS words are. -/
theorem xferTdi_words (data control : List Bool) (x y : Bool) {drBits : Nat} (skipbits : Nat)
    (some : 0 < drBits) :
    xferTdi (data ++ [x]) (control ++ [y]) drBits skipbits =
      zeros 5 ++ (data ++ ([x, false, false, false, false] ++ (zeros (drBits - 1) ++
        (zeros 6 ++ (control ++ ([y, false, false, false, false] ++
          ((zeros skipbits ++ lowBits 0xc000 31) ++ [false, false, false]))))))) := by
  have room : zeros (drBits + 9) = zeros 4 ++ (zeros (drBits - 1) ++ zeros 6) := by
    rw [zeros_append_zeros, zeros_append_zeros]
    congr 1
    omega
  have skips : zeros (skipbits + 4) = zeros 4 ++ zeros skipbits := by
    rw [zeros_append_zeros, Nat.add_comm]
  have word : lowBits 0xc000 32 = lowBits 0xc000 31 ++ [false] := by decide
  rw [xferTdi, room, skips, word]
  simp only [List.append_assoc]
  rfl

theorem run_xfer (data control : List Bool) {irBits drBits : Nat} (skipbits : Nat)
    (some : 0 < irBits) (data_length : data.length = irBits)
    (control_length : control.length = irBits) (dr : 0 < drBits) :
    (Tap.idle.run ((xferTms irBits drBits skipbits).zip
      (xferTdi data control drBits skipbits))).scans =
        [⟨.instruction, data⟩, ⟨.data, zeros drBits⟩, ⟨.instruction, control⟩,
          ⟨.data, zeros skipbits ++ lowBits 0xc000 32⟩] := by
  obtain rfl | ⟨data, x, rfl⟩ := List.eq_nil_or_concat' data
  · rw [List.length_nil] at data_length
    omega
  obtain rfl | ⟨control, y, rfl⟩ := List.eq_nil_or_concat' control
  · rw [List.length_nil] at control_length
    omega
  rw [List.length_append, List.length_singleton] at data_length control_length
  have data_zeros : data.length = irBits - 1 := by omega
  have control_zeros : control.length = irBits - 1 := by omega
  have dr_zeros : (zeros (drBits - 1)).length = drBits - 1 := by simp
  have word_zeros : (zeros skipbits ++ lowBits 0xc000 31).length = skipbits + 31 := by simp
  have drBits_eq : zeros (drBits - 1) ++ [false] = zeros drBits := by
    rw [show [false] = zeros 1 from rfl, zeros_append_zeros, Nat.sub_add_cancel dr]
  have word_eq : zeros skipbits ++ lowBits 0xc000 31 ++ [false] =
      zeros skipbits ++ lowBits 0xc000 32 := by
    rw [List.append_assoc, show lowBits 0xc000 31 ++ [false] = lowBits 0xc000 32 by decide]
  rw [xferTdi_words data control x y skipbits dr, xferTms, ← word_eq, ← drBits_eq, Tap.idle]
  generalize zeros skipbits ++ lowBits 0xc000 31 = word at word_zeros ⊢
  rw [show zeros 5 = [false, false, false, false, false] from rfl,
    show zeros 6 = [false, false, false, false, false, false] from rfl]
  simp only [List.append_assoc]
  -- Each word in turn, with the zeros in between.
  rw [Tap.run_zip_append, Tap.run_enterIr,
    Tap.run_zip_append, Tap.run_shift _ _ _ _ data_zeros,
    Tap.run_zip_append, Tap.run_irToDr,
    Tap.run_zip_append, Tap.run_shift _ _ _ _ dr_zeros,
    Tap.run_zip_append, Tap.run_drToIr,
    Tap.run_zip_append, Tap.run_shift _ _ _ _ control_zeros,
    Tap.run_zip_append, Tap.run_irToDr,
    Tap.run_zip_append, Tap.run_shift _ _ _ _ word_zeros, Tap.run_drToIdle]
  · simp
  all_goals simp
  all_goals omega

/-! ## Chains -/

/-- IR bits that put `active` into the instruction register of the chain's
    position `p`, counted from TDO, and SKIP into every other one. -/
def chainIr (ctx : LsejtagCtx) (active : Byte) (p : Nat) : List Bool :=
  (List.range ctx.coreCount).flatMap fun q =>
    lowBits ((if q = p then active else ctx.paramIrSkip).setWidth 32) ctx.paramIrLenBits.toNat

section chain

variable {ctx : LsejtagCtx} {active : Byte} {p q : Nat}

theorem chainBits_eq_chainIr {coreAt : Nat → Nat}
    (position : ∀ i < ctx.coreCount, coreAt i = ctx.targetCore ↔ i = p) :
    chainBits ctx active coreAt ctx.coreCount = chainIr ctx active p := by
  apply List.flatMap_congr
  intro i below
  simp only [position i (List.mem_range.mp below)]

/-- Fields of the same length that concatenate to the same string are the same. -/
theorem flatMap_range_inj {f g : Nat → List Bool} (length : ∀ i, (f i).length = (g i).length)
    {n : Nat} (same : (List.range n).flatMap f = (List.range n).flatMap g) {i : Nat}
    (below : i < n) : f i = g i := by
  induction n with
  | zero => omega
  | succ n ih =>
    rw [List.range_succ, List.flatMap_append, List.flatMap_append, List.flatMap_singleton,
      List.flatMap_singleton] at same
    obtain ⟨front, last⟩ := List.append_inj' same (length n)
    by_cases isLast : i = n
    · subst isLast
      exact last
    · exact ih front (by omega)

/-- As far as its length goes, the instruction is SKIP. -/
def IsSkip (ctx : LsejtagCtx) (active : Byte) : Prop :=
  lowBits (active.setWidth 32) ctx.paramIrLenBits.toNat =
    lowBits (ctx.paramIrSkip.setWidth 32) ctx.paramIrLenBits.toNat

/-- Other positions are told apart exactly if the instruction is not SKIP. -/
theorem chainIr_inj (below : p < ctx.coreCount)
    (same : chainIr ctx active p = chainIr ctx active q) :
    p = q ∨ IsSkip ctx active := by
  by_cases here : p = q
  · exact .inl here
  · have field := flatMap_range_inj (by simp) same below
    rw [if_pos rfl, if_neg here] at field
    exact .inr field

theorem chainIr_skip (skip : IsSkip ctx active) : chainIr ctx active p = chainIr ctx active q := by
  apply List.flatMap_congr
  intro i _
  rw [IsSkip] at skip
  by_cases first : i = p
  · by_cases second : i = q
    · rw [if_pos first, if_pos second]
    · rw [if_pos first, if_neg second, skip]
  · by_cases second : i = q
    · rw [if_neg first, if_pos second, skip]
    · rw [if_neg first, if_neg second]

end chain

/-! ## One core -/

/-- The two IR scans of a transfer address one core, first with DATA and then
    with CONTROL. -/
def AddressesOneCore (ctx : LsejtagCtx) (tms tdi : List Bool) : Prop :=
  ∃ p < ctx.coreCount, (Tap.idle.run (tms.zip tdi)).scansOf .instruction =
    [chainIr ctx ctx.paramIrData p, chainIr ctx ctx.paramIrControl p]

instance (ctx : LsejtagCtx) (tms tdi : List Bool) : Decidable (AddressesOneCore ctx tms tdi) :=
  inferInstanceAs (Decidable (∃ p < ctx.coreCount, _))

/-- The target is in the middle of the chain, or an instruction is SKIP. -/
def SameCore (ctx : LsejtagCtx) : Prop :=
  2 * ctx.targetCore + 1 = ctx.coreCount ∨ IsSkip ctx ctx.paramIrData ∨
    IsSkip ctx ctx.paramIrControl

theorem addressesOneCore_iff {ctx : LsejtagCtx} (target : ctx.targetCore < ctx.coreCount)
    (ir : 0 < ctx.paramIrLenBits.toNat) (dr : 0 < ctx.drseqBitlen) (skipbits : Nat) :
    AddressesOneCore ctx
        (xferTms (ctx.coreCount * ctx.paramIrLenBits.toNat) ctx.drseqBitlen skipbits)
        (xferTdi (chainBits ctx ctx.paramIrData (lastCoreFirst ctx) ctx.coreCount)
          (chainBits ctx ctx.paramIrControl id ctx.coreCount) ctx.drseqBitlen skipbits) ↔
      SameCore ctx := by
  have irBits : 0 < ctx.coreCount * ctx.paramIrLenBits.toNat := Nat.mul_pos (by omega) ir
  have scans := run_xfer (chainBits ctx ctx.paramIrData (lastCoreFirst ctx) ctx.coreCount)
    (chainBits ctx ctx.paramIrControl id ctx.coreCount) skipbits irBits (length_chainBits ..)
    (length_chainBits ..) dr
  -- DATA goes to the mirror image of the position CONTROL goes to.
  have data : chainBits ctx ctx.paramIrData (lastCoreFirst ctx) ctx.coreCount =
      chainIr ctx ctx.paramIrData (ctx.coreCount - 1 - ctx.targetCore) := by
    apply chainBits_eq_chainIr
    intro i below
    rw [lastCoreFirst]
    omega
  have control : chainBits ctx ctx.paramIrControl id ctx.coreCount =
      chainIr ctx ctx.paramIrControl ctx.targetCore :=
    chainBits_eq_chainIr fun i _ => Iff.rfl
  rw [AddressesOneCore, Tap.scansOf, scans, data, control, SameCore]
  simp only [List.filter_cons, List.filter_nil, reduceCtorEq, decide_true, decide_false,
    if_true, Bool.false_eq_true, if_false, List.map_cons, List.map_nil, List.cons.injEq,
    and_true]
  constructor
  · intro ⟨p, below, first, second⟩
    obtain position | skip := chainIr_inj (by omega) first
    · obtain position' | skip := chainIr_inj target second
      · left
        omega
      · exact .inr (.inr skip)
    · exact .inr (.inl skip)
  · intro same
    obtain middle | skip | skip := same
    · have position : ctx.coreCount - 1 - ctx.targetCore = ctx.targetCore := by omega
      exact ⟨ctx.targetCore, target, by rw [position], rfl⟩
    · exact ⟨ctx.targetCore, target, chainIr_skip skip, rfl⟩
    · exact ⟨ctx.coreCount - 1 - ctx.targetCore, by omega, rfl, chainIr_skip skip⟩

/-- Only the length of the chain and the IR parameters matter. -/
theorem addressesOneCore_congr {ctx ctx' : LsejtagCtx} (cores : ctx'.coreCount = ctx.coreCount)
    (params : ctx'.toJtagParams = ctx.toJtagParams) :
    AddressesOneCore ctx' = AddressesOneCore ctx := by
  funext tms tdi
  simp only [AddressesOneCore, chainIr, cores, params]

theorem TemplateBuilt.addresses {ctx : LsejtagCtx} {start : World}
    (template : TemplateBuilt ctx start) (target : ctx.targetCore < ctx.coreCount)
    (ir : 0 < ctx.paramIrLenBits.toNat) (dr : 0 < ctx.drseqBitlen)
    (bits : ctx.bitsPerXfer = 2 * (ctx.coreCount * ctx.paramIrLenBits.toNat) +
      ctx.drseqBitlen + (ctx.coreCount - 1) + 52)
    (total : ctx.tdiBitlen = ctx.xfersPerBufblk * ctx.bitsPerXfer) (id : BufId) {i : Nat}
    (below : i < start.ctx.xfersPerBufblk) :
    AddressesOneCore ctx
        (bitsFrom (start.ctx.jtagbuf id).tmsData (i * ctx.bitsPerXfer) ctx.bitsPerXfer)
        (bitsFrom (start.ctx.jtagbuf id).tdiData (i * ctx.bitsPerXfer) ctx.bitsPerXfer) ↔
      SameCore ctx := by
  obtain ⟨readTms, readTdi⟩ := template.reads (by omega) ir dr bits total id below
  rw [readTms, readTdi]
  exact addressesOneCore_iff target ir dr _

/-- For a fast write without FASTDATA on a chain: the two IR scans of every
    transfer of the premade sequence address one core exactly if there is no
    transfer, the target is in the middle of the chain, or one of the two
    instructions is SKIP.  The setup returns: it does not where the area it clears
    leaves a buffer. -/
theorem data_control_same_core {w start : World} {tdo : Nat → Bool} {r : LsejtagCmdExecResult}
    (setup : cmdimplFastMemWrite w false tdo = .ok (r, start))
    (chained : 1 ≤ chainedCoreCount w.ctx.cmd)
    (target : atCpuCore w.ctx.cmd < chainedCoreCount w.ctx.cmd)
    (ir : 1 ≤ w.ctx.paramIrLenBits.toNat) :
    (∀ id, ∀ i < start.ctx.xfersPerBufblk, AddressesOneCore start.ctx
      (bitsFrom (start.ctx.jtagbuf id).tmsData (i * start.ctx.bitsPerXfer) start.ctx.bitsPerXfer)
      (bitsFrom (start.ctx.jtagbuf id).tdiData (i * start.ctx.bitsPerXfer)
        start.ctx.bitsPerXfer)) ↔
      dataLenXferCount w.ctx.cmd = 0 ∨
        2 * atCpuCore w.ctx.cmd + 1 = chainedCoreCount w.ctx.cmd ∨
        IsSkip w.ctx w.ctx.paramIrData ∨ IsSkip w.ctx w.ctx.paramIrControl := by
  obtain ⟨cores, isTarget, dr, bits⟩ := fastMemWriteSetup_chained (by omega) ir
  have template := templateBuilt setup
  have xfers := xfersPerBufblk_setup_pos w.ctx false
  obtain ⟨-, -, tmsA, tdiA, tmsB, tdiB, isStart⟩ := cmdimplFastMemWrite_ok setup
  -- The rest of the call leaves the length of a transfer and the chain alone.
  have sameBits : start.ctx.bitsPerXfer = (fastMemWriteSetup w.ctx false).bitsPerXfer := by
    rw [isStart]
    rfl
  have same : AddressesOneCore start.ctx = AddressesOneCore (fastMemWriteSetup w.ctx false) := by
    apply addressesOneCore_congr
    · rw [isStart]
      rfl
    · rw [isStart]
      rfl
  have sameCore : SameCore (fastMemWriteSetup w.ctx false) ↔
      2 * atCpuCore w.ctx.cmd + 1 = chainedCoreCount w.ctx.cmd ∨
        IsSkip w.ctx w.ctx.paramIrData ∨ IsSkip w.ctx w.ctx.paramIrControl := by
    rw [SameCore, isTarget, cores]
    rfl
  have inRange : (fastMemWriteSetup w.ctx false).targetCore <
      (fastMemWriteSetup w.ctx false).coreCount := by
    rw [isTarget, cores]
    exact target
  have addresses := fun id i => template.addresses inRange ir (by omega) (by rw [cores]; exact bits)
    rfl id (i := i)
  rw [← sameCore, same, sameBits]
  constructor
  · intro all
    by_cases empty : dataLenXferCount w.ctx.cmd = 0
    · exact .inl empty
    · -- There is a transfer, the first one.
      have pos : 0 < start.ctx.xfersPerBufblk := by
        rw [template.cont]
        exact xfers (Nat.pos_of_ne_zero empty) template.fits
      exact .inr ((addresses .a 0 pos).mp (all .a 0 pos))
  · intro condition id i below
    obtain empty | condition := condition
    · have none : start.ctx.xfersPerBufblk ≤ dataLenXferCount w.ctx.cmd := by
        rw [template.cont]
        exact Nat.min_le_left _ _
      omega
    · exact (addresses id i below).mpr condition

/-- A fast write of two 32-bit words to the middle one of three cores, without
    FASTDATA and ready to be executed. -/
def middleCore : World :=
  ⟨{ lsejtagInitCtx with
      bufferedCmd := Lib.overlay (Vector.replicate 256 0) 0
        [0x03, 0x34, 0x01, 0x00, 0x02, 0x00, 0x00, 0x00, 0x01, 0x00] (by decide)
      bufferedLength := 10
      cmdBufState := .cbsExecute }, [], []⟩

theorem data_control_same_core_middle : ∃ start : World, start.ctx.xfersPerBufblk = 2 ∧
    ∀ id, ∀ i < start.ctx.xfersPerBufblk, AddressesOneCore start.ctx
      (bitsFrom (start.ctx.jtagbuf id).tmsData (i * start.ctx.bitsPerXfer) start.ctx.bitsPerXfer)
      (bitsFrom (start.ctx.jtagbuf id).tdiData (i * start.ctx.bitsPerXfer)
        start.ctx.bitsPerXfer) := by
  have ran : (cmdimplFastMemWrite middleCore false fun _ => false).toOption.any
      (fun start => decide (start.2.ctx.xfersPerBufblk = 2)) = true := by
    decide +kernel
  obtain ⟨⟨r, start⟩, setup, holds⟩ := (Option.any_eq_true _ _).mp ran
  have two := of_decide_eq_true holds
  have returned := Lib.eq_ok_of_toOption setup
  have condition := data_control_same_core returned (by decide +kernel) (by decide +kernel)
    (by decide +kernel)
  refine ⟨start, two, condition.mpr (.inr (.inl ?_))⟩
  decide +kernel

/-- A fast write of one word to the first of two cores puts DATA at position 1
    and CONTROL at position 0. -/
theorem data_goes_to_mirror_core : ∃ s, mainLoop.Reachable s ∧ s.world.ctx.coreCount = 2 ∧
    s.world.ctx.targetCore = 0 ∧ s.world.ctx.xfersPerBufblk = 1 ∧
    (Tap.idle.run ((bitsFrom s.world.ctx.jtagbufA.tmsData 0 s.world.ctx.bitsPerXfer).zip
      (bitsFrom s.world.ctx.jtagbufA.tdiData 0 s.world.ctx.bitsPerXfer))).scansOf .instruction =
        [chainIr s.world.ctx s.world.ctx.paramIrData 1,
          chainIr s.world.ctx s.world.ctx.paramIrControl 0] ∧
    ¬AddressesOneCore s.world.ctx
      (bitsFrom s.world.ctx.jtagbufA.tmsData 0 s.world.ctx.bitsPerXfer)
      (bitsFrom s.world.ctx.jtagbufA.tdiData 0 s.world.ctx.bitsPerXfer) := by
  have ran : (mainLoop.run Lib.Machine.anyAction .start
      ([.usbOut ([0x02, 0x34, 0x01, 0x00, 0x01, 0x00, 0x00, 0x00, 0x00, 0x00] ++
        List.replicate 4 0xff)] ++ polls 64 5)).any (fun s =>
          decide (s.world.ctx.coreCount = 2 ∧ s.world.ctx.targetCore = 0 ∧
            s.world.ctx.xfersPerBufblk = 1 ∧
            (Tap.idle.run ((bitsFrom s.world.ctx.jtagbufA.tmsData 0 s.world.ctx.bitsPerXfer).zip
              (bitsFrom s.world.ctx.jtagbufA.tdiData 0 s.world.ctx.bitsPerXfer))).scansOf
                .instruction =
                  [chainIr s.world.ctx s.world.ctx.paramIrData 1,
                    chainIr s.world.ctx s.world.ctx.paramIrControl 0] ∧
            ¬AddressesOneCore s.world.ctx
              (bitsFrom s.world.ctx.jtagbufA.tmsData 0 s.world.ctx.bitsPerXfer)
              (bitsFrom s.world.ctx.jtagbufA.tdiData 0 s.world.ctx.bitsPerXfer))) = true := by
    decide +kernel
  obtain ⟨s, reach, holds⟩ := Lib.Machine.exists_reach _ rfl ran
  exact ⟨s, reach, of_decide_eq_true holds⟩

end LoongsonEjtag
