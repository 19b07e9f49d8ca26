import LoongsonEjtag.Jtag
import LoongsonEjtag.Trace

/-! # What a JTAG run and a flush do

`lsejtag_run_jtag` as one step of the context: which dwords the engine may
overwrite, how many it reports, and what becomes of the block.  The engine
stores a dword on every clock on which its TDO counter is a nonzero multiple of
32, also on the clocks after the capture; all of these stores are at or behind
the TDO pointer it was started with, and there is one for each dword reported.
-/

namespace LoongsonEjtag

open Lib (Dword u32 u32_eq sub32 forUpTo forUpTo_invariant forUpTo_total bind_eq_ok dwordsBytes)

/-! ## The engine -/

variable {n : Nat}

theorem JtagRegs.store_ok {r r' : JtagRegs n} (stored : r.store = .ok r') :
    ∃ i, ∃ inside : i < n,
      r.tdoPtr = some i ∧ r' = { r with tdoBuf := r.tdoBuf.set i r.tdoReg inside } := by
  simp only [JtagRegs.store] at stored
  split at stored
  · cases stored
  · rename_i i pointer
    split at stored
    · rename_i inside
      exact ⟨i, inside, pointer, by simpa using stored.symm⟩
    · cases stored

/-- The capture of a run that started at dword `start` of `buf`. -/
structure Captured (buf : Vector Dword n) (start : Nat) (tdoBits : Nat) (r : JtagRegs n) :
    Prop where
  counter : r.tdoCounter ≤ tdoBits
  pointer : ∃ p, r.tdoPtr = some p ∧ start + r.tdoCounter / 32 ≤ p
  room : r.tdoCounter < 32 ∨ start + r.tdoCounter / 32 ≤ n
  before : ∀ i, (inside : i < n) → i < start → r.tdoBuf[i] = buf[i]

section engine

variable {buf : Vector Dword n} {start tdoBits : Nat} {tdo : Nat → Bool} {r r' : JtagRegs n}

theorem pulse_frame (tdo : Nat → Bool) (tdoBits : Nat) (r : JtagRegs n) :
    (r.pulse tdo tdoBits).tdoPtr = r.tdoPtr ∧ (r.pulse tdo tdoBits).tdoBuf = r.tdoBuf ∧
      ((r.pulse tdo tdoBits).tdoCounter = r.tdoCounter ∨
        (r.tdoCounter < tdoBits ∧ (r.pulse tdo tdoBits).tdoCounter = r.tdoCounter + 1)) := by
  simp only [JtagRegs.pulse]
  split
  · exact ⟨rfl, rfl, .inl rfl⟩
  · split
    · exact ⟨rfl, rfl, .inr ⟨‹_›, rfl⟩⟩
    · exact ⟨rfl, rfl, .inl rfl⟩

theorem captured_clockBit (captured : Captured buf start tdoBits r)
    (clocked : r.clockBit tdo tdoBits = .ok r') : Captured buf start tdoBits r' := by
  obtain ⟨counter, ⟨p, pointer, behind⟩, room, before⟩ := captured
  obtain ⟨samePointer, sameBuf, counts⟩ := pulse_frame tdo tdoBits r
  simp only [JtagRegs.clockBit] at clocked
  split at clocked
  · rename_i full
    obtain ⟨stored, store, finished⟩ := bind_eq_ok.mp clocked
    obtain ⟨i, inside, pointerIs, rfl⟩ := JtagRegs.store_ok store
    cases finished
    have : i = p := by simpa [samePointer, pointer] using pointerIs.symm
    subst this
    refine ⟨by grind, ⟨i + 1, by simp [samePointer, pointer], by grind⟩, by grind, ?_⟩
    intro j insideJ belowStart
    simp only [sameBuf]
    rw [Vector.getElem_set_ne _ _ (by grind)]
    exact before j insideJ belowStart
  · rename_i partly
    cases clocked
    exact ⟨by grind, ⟨p, by rw [samePointer, pointer], by grind⟩, by grind,
      fun i inside below => by rw [sameBuf]; exact before i inside below⟩

/-- `Captured` does not speak of the registers a new dword loads. -/
theorem Captured.load (captured : Captured buf start tdoBits r) (tdiReg tmsReg : Dword) :
    Captured buf start tdoBits { r with tdiReg, tmsReg } :=
  ⟨captured.counter, captured.pointer, captured.room, captured.before⟩

theorem captured_clockDword {tdi tms : List Dword} {i : Nat}
    (captured : Captured buf start tdoBits r)
    (clocked : r.clockDword tdi tms tdo tdoBits i = .ok r') : Captured buf start tdoBits r' := by
  simp only [JtagRegs.clockDword] at clocked
  split at clocked
  · obtain ⟨x, bits, finished⟩ := bind_eq_ok.mp clocked
    cases finished
    have shifted : Captured buf start tdoBits x :=
      forUpTo_invariant (fun _ => Captured buf start tdoBits) (captured.load _ _)
        (fun _ _ _ _ holds clocked => captured_clockBit holds clocked) bits
    exact ⟨shifted.counter, shifted.pointer, shifted.room, shifted.before⟩
  · cases clocked

/-- Dwords a run reports. -/
def JtagRegs.dwords (r : JtagRegs n) : Nat := u32 (r.tdoCounter + 31) / 32

/-- Everything before the start of the capture survives it, and the reported
    dwords lie inside the buffer. -/
theorem jtagShift_captures {seq : JtagSeq} {buf : Vector Dword 64} {r : JtagRegs}
    (shifted : jtagShift seq buf (some start) tdo = .ok r) :
    (∀ i, (inside : i < 64) → i < start → r.tdoBuf[i] = buf[i]) ∧
      (r.dwords = 0 ∨ start + r.dwords ≤ 64) := by
  obtain ⟨last, clocked, finished⟩ := bind_eq_ok.mp shifted
  have captured : Captured buf start seq.tdoBits last := by
    refine forUpTo_invariant (fun _ => Captured buf start seq.tdoBits) ?_
      (fun _ _ _ _ holds clocked => captured_clockDword holds clocked) clocked
    exact ⟨Nat.zero_le _, ⟨start, rfl, by simp⟩, .inl (by simp), fun _ _ _ => rfl⟩
  obtain ⟨counter, ⟨p, pointer, behind⟩, room, before⟩ := captured
  have small : u32 (last.tdoCounter + 31) = last.tdoCounter + 31 := u32_eq (by omega)
  split at finished
  · obtain ⟨i, inside, pointerIs, rfl⟩ := JtagRegs.store_ok finished
    have : i = p := by simpa [pointer] using pointerIs.symm
    subst this
    refine ⟨fun j insideJ below => ?_, .inr ?_⟩
    · rw [Vector.getElem_set_ne _ _ (by omega)]
      exact before j insideJ below
    · simp only [JtagRegs.dwords, small]; omega
  · cases finished
    refine ⟨before, ?_⟩
    simp only [JtagRegs.dwords, small]; omega

/-- Without bits to capture the counter stays at zero, and nothing is stored. -/
theorem clockBit_silent (tdo : Nat → Bool) (zero : r.tdoCounter = 0) :
    r.clockBit tdo 0 = .ok (r.pulse tdo 0) ∧ (r.pulse tdo 0).tdoBuf = r.tdoBuf ∧
      (r.pulse tdo 0).tdoCounter = 0 := by
  obtain ⟨-, pulsedBuf, counts⟩ := pulse_frame tdo 0 r
  have still : (r.pulse tdo 0).tdoCounter = 0 := by omega
  refine ⟨?_, pulsedBuf, still⟩
  simp only [JtagRegs.clockBit, still, ne_eq, not_true_eq_false, false_and, if_false]

/-- A run that captures nothing ends, and touches no TDO dword. -/
theorem jtagShift_silent_total {seq : JtagSeq} (pointer : Option Nat) (silent : seq.tdoBits = 0)
    (tdi : seq.tdiBits ≤ 32 * seq.tdi.length) (tms : seq.tdiBits ≤ 32 * seq.tms.length)
    (small : seq.tdiBits + 31 < 4294967296) :
    ∃ r, jtagShift seq buf pointer tdo = .ok r ∧ r.tdoBuf = buf ∧ r.dwords = 0 := by
  have bits : ∀ count (x : JtagRegs n), x.tdoBuf = buf ∧ x.tdoCounter = 0 →
      ∃ y, forUpTo (fun _ => JtagRegs.clockBit tdo 0) count x = .ok y ∧
        y.tdoBuf = buf ∧ y.tdoCounter = 0 := by
    intro count x holds
    refine forUpTo_total (fun _ (x : JtagRegs n) => x.tdoBuf = buf ∧ x.tdoCounter = 0) holds ?_
    intro _ x _ ⟨sameBuf, zero⟩
    obtain ⟨clocked, pulsedBuf, still⟩ := clockBit_silent tdo zero
    exact ⟨_, clocked, pulsedBuf.trans sameBuf, still⟩
  have outDwords : u32 (seq.tdiBits + 31) / 32 = (seq.tdiBits + 31) / 32 := by rw [u32_eq small]
  obtain ⟨last, clocked, sameBuf, zero⟩ : ∃ y,
      forUpTo (JtagRegs.clockDword seq.tdi seq.tms tdo 0) (u32 (seq.tdiBits + 31) / 32)
        { tdiReg := 0, tmsReg := 0, tdoReg := 0, tdoCounter := 0, tdiBits := seq.tdiBits
          tdoSkipBits := seq.tdoSkipBits, tdoBuf := buf, tdoPtr := pointer, clocks := 0
          pulses := [] } = .ok y ∧ y.tdoBuf = buf ∧ y.tdoCounter = 0 := by
    refine forUpTo_total (fun _ (x : JtagRegs n) => x.tdoBuf = buf ∧ x.tdoCounter = 0)
      ⟨rfl, rfl⟩ ?_
    intro i x below holds
    have atTdi : seq.tdi[i]? = some (seq.tdi[i]) := List.getElem?_eq_getElem (by omega)
    have atTms : seq.tms[i]? = some (seq.tms[i]) := List.getElem?_eq_getElem (by omega)
    obtain ⟨y, ran, holds⟩ := bits (min x.tdiBits 32)
      { x with tdiReg := seq.tdi[i], tmsReg := seq.tms[i] } holds
    refine ⟨{ y with tdiBits := sub32 y.tdiBits 32 }, ?_, holds.1, holds.2⟩
    simp only [JtagRegs.clockDword, atTdi, atTms, ran, Lib.ok_bind]
  refine ⟨last, ?_, sameBuf, by simp [JtagRegs.dwords, zero, u32]⟩
  simp only [jtagShift, silent, clocked, Lib.ok_bind, zero, ne_eq, not_true_eq_false, false_and,
    if_false]

/-- A run that captures nothing touches no TDO dword. -/
theorem jtagShift_silent {seq : JtagSeq} {pointer : Option Nat} (silent : seq.tdoBits = 0)
    (shifted : jtagShift seq buf pointer tdo = .ok r) : r.tdoBuf = buf ∧ r.dwords = 0 := by
  obtain ⟨last, clocked, finished⟩ := bind_eq_ok.mp shifted
  rw [silent] at clocked
  have unchanged : last.tdoBuf = buf ∧ last.tdoCounter = 0 := by
    refine forUpTo_invariant (fun _ x => x.tdoBuf = buf ∧ x.tdoCounter = 0) ⟨rfl, rfl⟩ ?_ clocked
    intro i x y _ holds clocked
    simp only [JtagRegs.clockDword] at clocked
    split at clocked
    · obtain ⟨z, bits, finished⟩ := bind_eq_ok.mp clocked
      cases finished
      refine forUpTo_invariant (fun _ x => x.tdoBuf = buf ∧ x.tdoCounter = 0) (by exact holds) ?_
        bits
      intro _ x y _ ⟨sameBuf, zero⟩ bit
      obtain ⟨clocked, pulsedBuf, still⟩ := clockBit_silent tdo zero
      cases bit.symm.trans clocked
      exact ⟨pulsedBuf.trans sameBuf, still⟩
    · cases clocked
  rw [if_neg (by simp [unchanged.2])] at finished
  cases finished
  exact ⟨unchanged.1, by simp [JtagRegs.dwords, unchanged.2, u32]⟩

end engine

/-! ## `lsejtag_run_jtag` -/

/-- The context after block `id` was run: the engine left `buf` behind and
    reported `dwords`. -/
def LsejtagCtx.ranBufblk (ctx : LsejtagCtx) (id : BufId) (buf : Vector Dword 64) (dwords : Nat) :
    LsejtagCtx :=
  let blk := ctx.jtagbuf id
  { ctx.setJtagbuf id { blk.completed with prepared := false } with
    activeBufblk := some id
    tdoInDwords := u32 (ctx.tdoInDwords + dwords)
    tdoInData := buf
    tdoDmaPtr := ctx.tdoDmaPtr + dwords
    tdoBusy := false
    tdoImmediateFlush := blk.immediateFlushTdo
    tdoHaveNewData := true }

/-- Block `id` of `w` was run and `w'` is the world after it. -/
structure JtagRan (w : World) (id : BufId) (buf : Vector Dword 64) (dwords : Nat)
    (w' : World) : Prop where
  before : ∀ i, (inside : i < 64) → i < w.ctx.tdoDmaPtr → buf[i] = w.ctx.tdoInData[i]
  room : dwords = 0 ∨ w.ctx.tdoDmaPtr + dwords ≤ 64
  watermark : u32 (w.ctx.tdoInDwords + u32 ((w.ctx.jtagbuf id).tdoBits + 31) / 32) =
    u32 (w.ctx.tdoInDwords + dwords)
  ctx : w'.ctx = w.ctx.ranBufblk id buf dwords
  rx : w'.rx = w.rx
  trace : w'.trace = w.trace ++ [.runBlock (w.ctx.jtagbuf id).seq, .complete (some id),
    .completeTdo ((buf.toList.drop w.ctx.tdoDmaPtr).take dwords)]

theorem lsejtagRunJtag_unprepared {w : World} (none : w.ctx.preparedBufblk = none)
    (tdo : Nat → Bool) : lsejtagRunJtag w tdo = .ok w := by
  simp [lsejtagRunJtag, none]

theorem lsejtagRunJtag_ran {w w' : World} {id : BufId} {tdo : Nat → Bool}
    (free : w.ctx.periphWorking = false) (prepared : w.ctx.preparedBufblk = some id)
    (ran : lsejtagRunJtag w tdo = .ok w') : ∃ buf dwords, JtagRan w id buf dwords w' := by
  simp only [lsejtagRunJtag, free, prepared, Bool.false_eq_true, if_false] at ran
  obtain ⟨after, engine, finished⟩ := bind_eq_ok.mp ran
  obtain ⟨r, shifted, completed⟩ := bind_eq_ok.mp engine
  cases completed
  have startBuf : (w.ctx.startBufblk id).tdoInData = w.ctx.tdoInData := by
    cases id <;> rfl
  obtain ⟨before, room⟩ := jtagShift_captures shifted
  split at finished
  · cases finished
  · rename_i watermark
    cases finished
    refine ⟨r.tdoBuf, r.dwords, ?_, room, ?_, ?_, rfl, ?_⟩
    · intro i inside below
      simpa [startBuf] using before i inside below
    · cases id <;> simpa [JtagRegs.dwords, LsejtagCtx.startBufblk, LsejtagCtx.setJtagbuf,
        lsejtagJtagComplete, lsejtagJtagCompleteTdo, LsejtagCtx.completeActive,
        LsejtagCtx.completeTdo] using watermark
    · cases id <;> rfl
    · cases id <;> simp [lsejtagJtagComplete, lsejtagJtagCompleteTdo, LsejtagCtx.completeActive,
        LsejtagCtx.startBufblk, LsejtagCtx.setJtagbuf, JtagRegs.dwords]

/-- A prepared block that captures nothing can always be run. -/
theorem lsejtagRunJtag_silent_total {w : World} (tdo : Nat → Bool)
    (free : w.ctx.periphWorking = false) (prepared : w.ctx.jtagbufA.prepared = true)
    (silent : w.ctx.jtagbufA.tdoBits = 0) (fits : w.ctx.jtagbufA.tdiBits ≤ 2048) :
    ∃ w', lsejtagRunJtag w tdo = .ok w' := by
  have picked : w.ctx.preparedBufblk = some .a := by
    rw [LsejtagCtx.preparedBufblk, if_pos prepared]
  have sameBuf : (w.ctx.startBufblk .a).tdoInData = w.ctx.tdoInData := rfl
  have silent' : w.ctx.jtagbufA.seq.tdoBits = 0 := silent
  obtain ⟨r, shifted, -, none⟩ : ∃ r, jtagShift w.ctx.jtagbufA.seq w.ctx.tdoInData
      (some w.ctx.tdoDmaPtr) tdo = .ok r ∧ r.tdoBuf = w.ctx.tdoInData ∧ r.dwords = 0 :=
    jtagShift_silent_total _ silent' (by simpa [JtagbufBlk.seq] using fits)
      (by simpa [JtagbufBlk.seq] using fits) (by simp only [JtagbufBlk.seq]; omega)
  have dwords : u32 (r.tdoCounter + 31) / 32 = 0 := none
  have mark : u32 (w.ctx.jtagbufA.tdoBits + 31) / 32 = 0 := by
    rw [silent, u32_eq (by decide)]
  simp only [lsejtagRunJtag, free, picked, Bool.false_eq_true, if_false, lsejtagImplRunJtag,
    World.ctx_log, LsejtagCtx.jtagbuf_a, sameBuf, shifted, Lib.ok_bind, dwords, mark]
  rw [if_neg]
  · exact ⟨_, rfl⟩
  · exact fun wrong => wrong rfl

/-! ## `lsejtag_flush_tdo` -/

/-- The context after `dwords` dwords of the queue were sent. -/
def LsejtagCtx.flushedTdo (ctx : LsejtagCtx) (dwords : Nat) : LsejtagCtx :=
  if dwords = ctx.tdoInDwords then
    { ctx with
      tdoInDwords := 0
      tdoFlushPtr := 0
      tdoDmaPtr := 0
      tdoImmediateFlush := false
      tdoShouldFlush := false }
  else
    { ctx with
      tdoFlushPtr := ctx.tdoFlushPtr + dwords
      tdoInDwords := ctx.tdoInDwords - dwords }

/-- A flush sends the oldest collected dwords, all of them or as many as fit. -/
theorem lsejtagFlushTdo_ok {w w' : World} {maxSendBytes sent : Nat}
    (small : w.ctx.tdoInDwords ≤ 64)
    (flushed : lsejtagFlushTdo w maxSendBytes = .ok (sent, w')) :
    ∃ dwords, dwords = min w.ctx.tdoInDwords (maxSendBytes / 4) ∧
      w'.ctx = w.ctx.flushedTdo dwords ∧ w'.rx = w.rx ∧
      w'.trace = w.trace ++ [.flush (dwordsBytes (w.ctx.pendingDwords.take dwords))] := by
  have bytes : u32 (w.ctx.tdoInDwords * 4) = w.ctx.tdoInDwords * 4 := u32_eq (by omega)
  simp only [lsejtagFlushTdo, bytes, flushDwords] at flushed
  split at flushed
  · rename_i complete
    obtain ⟨middle, logged, finished⟩ := bind_eq_ok.mp flushed
    split at logged
    · cases logged
      cases finished
      refine ⟨w.ctx.tdoInDwords, by omega, ?_, rfl, ?_⟩
      · simp [LsejtagCtx.flushedTdo]
      · simp [LsejtagCtx.pendingDwords, List.take_take]
    · cases logged
  · rename_i partly
    obtain ⟨middle, logged, finished⟩ := bind_eq_ok.mp flushed
    split at logged
    · cases logged
      cases finished
      refine ⟨maxSendBytes / 4, by omega, ?_, rfl, ?_⟩
      · rw [LsejtagCtx.flushedTdo, if_neg (by omega)]
        simp only [World.ctx_log]
        rw [Lib.sub32_eq (by omega) (by omega)]
      · simp [LsejtagCtx.pendingDwords, List.take_take, show min (maxSendBytes / 4)
          w.ctx.tdoInDwords = maxSendBytes / 4 by omega]
    · cases logged

end LoongsonEjtag
