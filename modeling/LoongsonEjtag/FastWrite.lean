import LoongsonEjtag.XferCall
import Mathlib.Algebra.GroupWithZero.Nat

/-! # Fast writes

A fast write from the state `cmdimpl_fast_mem_write` leaves, as a machine of its
own: payload arrives, `cmdimpl_continue_fast_mem_write` is called, and every
block it prepares is run before the next call.

* `fastWrite` — the machine, which keeps a record of the blocks.
* `FastWriteInv` — its invariant.
* `fast_write_delivers` — every transfer is placed once, in order, and the
  payload of no other is consumed.
-/

namespace LoongsonEjtag

open Lib (Byte Dword dwordsBytes length_dwordsBytes forUpTo forUpTo_congr Machine)
open Wire

/-! ## The machine -/

/-- A block of a fast write: how many transfers it has, their DR sequences, and
    the TDI data before and after they were placed. -/
structure XferBlock where
  xfers : Nat
  tdiBits : Nat
  drSequences : List (List Dword)
  premade : DwordBuf
  tdiData : DwordBuf

/-- The block `id` that a call made ready between `w` and `w'`. -/
def XferBlock.of (w w' : World) (id : BufId) : XferBlock where
  xfers := w'.ctx.xfersPerBufblk
  tdiBits := (w'.ctx.jtagbuf id).tdiBits
  drSequences := (List.range w'.ctx.xfersPerBufblk).map (drSequence w'.ctx)
  premade := (w.ctx.jtagbuf id).tdiData
  tdiData := (w'.ctx.jtagbuf id).tdiData

structure XferState where
  world : World
  result : LsejtagCmdExecResult
  calls : Nat
  blocks : List XferBlock

inductive XferInput where
  | usbOut (bytes : List Byte)
  | call
  | run (tdo : Nat → Bool)

/-- The state after a call. -/
def XferState.called (s : XferState) (result : LsejtagCmdExecResult) (w : World) : XferState where
  world := w
  result := result
  calls := s.calls + 1
  blocks := s.blocks ++ (w.ctx.preparedBufblk.map (XferBlock.of s.world w)).toList

def fastWriteStep (s : XferState) : XferInput → Option XferState
  | .usbOut bytes =>
    if s.world.rx.length + bytes.length ≤ usbrxCapacity then
      some { s with world := s.world.receive bytes }
    else none
  | .call =>
    if s.result = .cerSuccess ∨ s.world.ctx.preparedBufblk.isSome then none
    else match cmdimplContinueFastMemWrite s.world with
    | .ok (result, w) => some (s.called result w)
    | .error _ => none
  | .run tdo =>
    if s.world.ctx.preparedBufblk.isSome then
      match lsejtagRunJtag s.world tdo with
      | .ok w => some { s with world := w }
      | .error _ => none
    else none

/-- A fast write that was set up in `start`. -/
def fastWrite (start : World) : Machine XferState XferInput where
  init s := s = ⟨start, .cerContinue, 0, []⟩
  step := fastWriteStep

namespace XferState

/-- Transfers placed so far. -/
def placed (s : XferState) : Nat := (s.blocks.map XferBlock.xfers).sum

/-- The DR sequences placed so far. -/
def drSequences (s : XferState) : List (List Dword) := s.blocks.flatMap XferBlock.drSequences

end XferState

/-- The block is the premade one with its DR sequences put in place, one after
    the other. -/
structure XferBlock.Placed (ctx : LsejtagCtx) (b : XferBlock) : Prop where
  tdiBits : b.tdiBits = b.xfers * ctx.bitsPerXfer
  fits : b.tdiBits ≤ 2048
  count : b.drSequences.length = b.xfers
  lengths : ∀ seq ∈ b.drSequences, seq.length = ctx.drseqDwordlen
  filled : forUpTo (fun i => placeSequence ctx i (b.drSequences.getD i [])) b.xfers b.premade =
    .ok b.tdiData

/-! ## The invariant -/

/-- Between two calls of a fast write of `n` transfers that was set up in
    `start`. -/
structure FastWriteInv (start : World) (n : Nat) (s : XferState) : Prop where
  same : SameXfer start.ctx s.world.ctx
  ready : XferReady s.world.ctx
  runnable : s.world.ctx.jtagbufA.prepared = true →
    s.world.ctx.jtagbufA.tdoBits = 0 ∧ s.world.ctx.jtagbufA.tdiBits ≤ 2048
  left : s.placed + s.world.ctx.xfersLeft = n
  alive : 0 < s.world.ctx.xfersLeft → 0 < s.world.ctx.xfersPerBufblk
  result : s.result = .cerSuccess ∧ 0 < s.calls ∧ s.world.ctx.xfersLeft = 0 ∨
    s.result = .cerContinue ∧ (s.world.ctx.xfersLeft = 0 → s.calls = 0 ∧ n = 0)
  placed : ∀ b ∈ s.blocks, b.Placed start.ctx ∧ (0 < n → 0 < b.xfers)
  stream : consumed s.world.trace =
    consumed start.trace ++ s.drSequences.flatMap dwordsBytes ++ s.world.buffered
  rx : ∃ bytes, arrived s.world.trace = arrived start.trace ++ bytes ∧
    consumed s.world.trace ++ s.world.rx = consumed start.trace ++ start.rx ++ bytes
  ring : s.world.rx.length ≤ 256
  bounds : AddsWithinBounds start s.world

section invariant

variable {start : World} {n : Nat} {s : XferState}

theorem XferReady.preparedBufblk {ctx : LsejtagCtx} (ready : XferReady ctx) :
    ctx.preparedBufblk = if ctx.jtagbufA.prepared then some .a else none := by
  rw [LsejtagCtx.preparedBufblk, ready.idle.unusedB]
  rfl

/-- Bytes leave the ring in order. -/
theorem RxKept.rxBytes {w w' : World} (kept : RxKept w w')
    (rx : ∃ bytes, arrived w.trace = arrived start.trace ++ bytes ∧
      consumed w.trace ++ w.rx = consumed start.trace ++ start.rx ++ bytes) :
    ∃ bytes, arrived w'.trace = arrived start.trace ++ bytes ∧
      consumed w'.trace ++ w'.rx = consumed start.trace ++ start.rx ++ bytes := by
  obtain ⟨bytes, came, order⟩ := rx
  obtain ⟨es, trace, none⟩ := kept.trace
  refine ⟨bytes, ?_, kept.bytes.trans order⟩
  rw [trace, arrived_append, none, List.append_nil, came]

/-- The block a call made ready. -/
theorem XfersPlaced.block {w w' : World} {count k : Nat} {r : LsejtagCmdExecResult}
    {ctx : LsejtagCtx} (called : XfersPlaced w count k r w') (same : SameXfer ctx w'.ctx)
    (dwordlen : w'.ctx.drseqDwordlen = bit2dword w'.ctx.drseqBitlen)
    (fits : count * w'.ctx.bitsPerXfer ≤ 2048) :
    (XferBlock.of w w' .a).Placed ctx ∧ (XferBlock.of w w' .a).xfers = count := by
  have count' : (XferBlock.of w w' .a).xfers = count := called.xfers
  refine ⟨⟨?_, called.tdiBits.trans_le fits, by simp [XferBlock.of], ?_, ?_⟩, count'⟩
  · rw [count', ← same.bits]
    exact called.tdiBits
  · intro seq member
    obtain ⟨i, -, rfl⟩ := List.mem_map.mp member
    rw [length_drSequence, ← dwordlen, same.dwordlen]
  · rw [count', ← same.placeSequence]
    refine Eq.trans (forUpTo_congr (fun i tdi below => ?_) _) called.filled
    have entry : (XferBlock.of w w' .a).drSequences.getD i [] = drSequence w'.ctx i := by
      simp [XferBlock.of, called.xfers, List.getD_eq_getElem?_getD, below]
    rw [entry]

/-- A call that places transfers. -/
theorem FastWriteInv.calledPlaced {r : LsejtagCmdExecResult} {w' : World} {k : Nat}
    (inv : FastWriteInv start n s) (active : s.result ≠ .cerSuccess)
    (called : XfersPlaced s.world (min s.world.ctx.xfersPerBufblk s.world.ctx.xfersLeft) k r w') :
    FastWriteInv start n (s.called r w') := by
  obtain ⟨same, ready, -, left, alive, result, placed, stream, rx, ring, bounds⟩ := inv
  generalize isCount : min s.world.ctx.xfersPerBufblk s.world.ctx.xfersLeft = count at called
  have few : count ≤ s.world.ctx.xfersPerBufblk := isCount ▸ Nat.min_le_left _ _
  have fewLeft : count ≤ s.world.ctx.xfersLeft := isCount ▸ Nat.min_le_right _ _
  have toGo := called.left
  have same' := called.same
  have counts := ready.counts
  have ready' : XferReady w'.ctx := by
    apply ready.fewer called.idle same' _ _ (by omega) (.inl called.nothing)
    · rw [called.xfers]
      exact few
    · rw [called.xfers]
      exact called.template
  have fits : count * w'.ctx.bitsPerXfer ≤ 2048 := called.xfers ▸ ready'.bits
  obtain ⟨block, xfers⟩ := called.block (same.trans same') ready'.dwordlen fits
  -- The call prepared block A, which is one more block of the run.
  have blocks : (s.called r w').blocks = s.blocks ++ [XferBlock.of s.world w' .a] := by
    simp [XferState.called, ready'.preparedBufblk, called.prepared]
  -- The call returned no success before, so the write was not yet done.
  have continues : s.world.ctx.xfersLeft = 0 → n = 0 := by
    obtain ⟨success, -⟩ | ⟨-, none⟩ := result
    · exact absurd success active
    · exact fun zero => (none zero).2
  refine ⟨same.trans same', ready', fun _ => ⟨called.tdoBits, called.tdiBits.trans_le fits⟩, ?_,
    ?_, ?_, ?_, ?_, called.kept.rxBytes rx, called.kept.rx_le.trans ring,
    bounds.trans called.bounds⟩
  · -- What the new block placed is no longer left.
    rw [XferState.placed, blocks]
    simp only [List.map_append, List.sum_append, List.map_cons, List.map_nil, List.sum_cons,
      List.sum_nil, xfers]
    change s.placed + (count + 0) + w'.ctx.xfersLeft = n
    omega
  · intro some
    change 0 < w'.ctx.xfersLeft at some
    change 0 < w'.ctx.xfersPerBufblk
    have := alive (by omega)
    rw [called.xfers]
    omega
  · have isResult : (s.called r w').result = _ := called.result
    by_cases none : w'.ctx.xfersLeft = 0
    · exact .inl ⟨isResult.trans (if_pos none), Nat.succ_pos _, none⟩
    · exact .inr ⟨isResult.trans (if_neg none), fun zero => absurd zero none⟩
  · intro b member
    rw [blocks, List.mem_append, List.mem_singleton] at member
    obtain old | rfl := member
    · exact placed b old
    · refine ⟨block, fun some => ?_⟩
      have := alive (by omega)
      omega
  · -- The payload of the block is what was buffered and what the call fetched.
    have bytes : (XferBlock.of s.world w' .a).drSequences.flatMap dwordsBytes =
        s.world.buffered ++ s.world.rx.take k := by
      rw [← called.content, XferBlock.of, called.xfers, ready.dwordlen, ← same'.bitlen]
      refine dwordsBytes_drSequences w'.ctx ?_
      rw [← ready'.dwordlen, ← called.xfers]
      exact ready'.bytes
    have drSequences : (s.called r w').drSequences =
        s.drSequences ++ (XferBlock.of s.world w' .a).drSequences := by
      simp [XferState.drSequences, blocks]
    have nothing : (s.called r w').world.buffered = [] := by
      rw [World.buffered]
      change w'.ctx.cmd.take w'.ctx.bufferedLength = []
      rw [called.nothing, List.take_zero]
    rw [nothing, drSequences, List.flatMap_append, bytes]
    change consumed w'.trace = _
    rw [called.trace, stream]
    simp only [List.append_assoc, List.append_nil]

/-- A call that still misses payload. -/
theorem FastWriteInv.calledShort {w' : World} (inv : FastWriteInv start n s)
    (unprepared : s.world.ctx.jtagbufA.prepared = false)
    (moved : ParserMoved { s.world with ctx := truncateXfers s.world.ctx } w')
    (parsed : Parsed True { s.world with ctx := truncateXfers s.world.ctx } s.world.rx.length w'
      s.world.ctx.cmdBufState (s.world.ctx.bufferedLength + s.world.rx.length)
      s.world.ctx.cmdBufWaitPayloadSize)
    (missing : s.world.ctx.bufferedLength + s.world.rx.length <
      min s.world.ctx.xfersPerBufblk s.world.ctx.xfersLeft * (s.world.ctx.drseqDwordlen * 4)) :
    FastWriteInv start n (s.called .cerContinue w') := by
  obtain ⟨same, ready, -, left, alive, result, placed, stream, rx, ring, bounds⟩ := inv
  -- Only the block's size was cut to what is left; the layout and block A are untouched.
  have same' : SameXfer s.world.ctx w'.ctx :=
    (SameXfer.truncateXfers s.world.ctx).trans moved.sameXfer
  have engine := (SameEngine.truncateXfers s.world.ctx).trans moved.sameEngine
  obtain ⟨xfers, size, sameLeft, -⟩ := contCtx_truncated moved.cont
  have few := Nat.min_le_left s.world.ctx.xfersPerBufblk s.world.ctx.xfersLeft
  have buffered : w'.ctx.bufferedLength = _ := parsed.buffered
  have ready' : XferReady w'.ctx := by
    apply ready.fewer (ready.idle.same engine) same' _ _ (sameLeft ▸ ready.counts) (.inr _)
    · rw [xfers]
      exact few
    · rw [xfers, moved.cont]
      exact tdiBitlen_truncateXfers ready
    · -- The block is as short of payload as it was found to be.
      rw [buffered, xfers, sameLeft, size, Nat.min_assoc, Nat.min_self]
      exact missing
  have stillUnprepared : w'.ctx.jtagbufA.prepared = false := engine.blockA ▸ unprepared
  have blocks : (s.called .cerContinue w').blocks = s.blocks := by
    simp [XferState.called, ready'.preparedBufblk, stillUnprepared]
  -- Payload is missing, so transfers are left.
  have some : 0 < s.world.ctx.xfersLeft := by
    refine Nat.pos_of_ne_zero fun zero => ?_
    simp [zero] at missing
  have truncated : RxKept s.world { s.world with ctx := truncateXfers s.world.ctx } :=
    .same rfl rfl
  have kept := truncated.trans moved.rxKept
  refine ⟨same.trans same', ready', fun prepared => ?_, ?_, fun _ => ?_, .inr ⟨rfl, ?_⟩, ?_, ?_,
    kept.rxBytes rx, kept.rx_le.trans ring, ?_⟩
  · change w'.ctx.jtagbufA.prepared = true at prepared
    simp [stillUnprepared] at prepared
  · rw [XferState.placed, blocks]
    change s.placed + w'.ctx.xfersLeft = n
    rw [sameLeft, left]
  · change 0 < w'.ctx.xfersPerBufblk
    rw [xfers]
    exact Nat.lt_min.mpr ⟨alive some, some⟩
  · change w'.ctx.xfersLeft = 0 → _
    intro zero
    omega
  · rw [blocks]
    exact placed
  · -- Everything in the ring is buffered now.
    have content := parsed.took.content
    have sameCmd := toCmdBuf_truncateXfers s.world.ctx
    simp only [World.buffered, LsejtagCtx.cmd, sameCmd] at content
    have nowBuffered : w'.buffered = s.world.buffered ++ s.world.rx.take s.world.rx.length := by
      simp only [World.buffered, LsejtagCtx.cmd, buffered]
      exact content
    have took : consumed w'.trace = consumed s.world.trace ++ s.world.rx.take s.world.rx.length :=
      moved.took parsed.took
    rw [XferState.drSequences, blocks]
    change consumed w'.trace = _ ++ w'.buffered
    rw [took, stream, nowBuffered, XferState.drSequences]
    simp only [List.append_assoc]
  · obtain ⟨es, trace, within⟩ := parsed.trace
    exact bounds.trans ⟨es, trace, within trivial⟩

/-- Being ready is about the command buffer, the continuation and the engine. -/
theorem XferReady.congr {ctx ctx' : LsejtagCtx} (ready : XferReady ctx) (idle : EngineIdle ctx')
    (cmdBuf : ctx'.toCmdBuf = ctx.toCmdBuf) (cont : ctx'.toContCtx = ctx.toContCtx)
    (params : ctx'.toJtagParams = ctx.toJtagParams) : XferReady ctx' := by
  obtain ⟨-, fits, dwordlen, template, bits, bytes, counts, partly⟩ := ready
  refine ⟨idle, (SameXfer.of_cont cont params).fits fits, ?_, ?_, ?_, ?_, ?_, ?_⟩
  all_goals
    simp only [cmdBuf, cont]
    assumption

/-- Running the block keeps the continuation. -/
theorem FastWriteInv.ran {w' : World} {tdo : Nat → Bool} (inv : FastWriteInv start n s)
    (some : s.world.ctx.preparedBufblk.isSome = true)
    (returned : lsejtagRunJtag s.world tdo = .ok w') :
    FastWriteInv start n { s with world := w' } := by
  have isPrepared := inv.ready.preparedBufblk
  obtain ⟨same, ready, -, left, alive, result, placed, stream, rx, ring, bounds⟩ := inv
  cases prepared : s.world.ctx.jtagbufA.prepared with
  | false => simp [isPrepared, prepared] at some
  | true =>
    rw [prepared, if_pos rfl] at isPrepared
    obtain ⟨buf, dwords, ran⟩ := lsejtagRunJtag_ran ready.idle.periphWorking isPrepared returned
    have cmdBuf : w'.ctx.toCmdBuf = s.world.ctx.toCmdBuf := by rw [ran.ctx]; rfl
    have cont : w'.ctx.toContCtx = s.world.ctx.toContCtx := by rw [ran.ctx]; rfl
    have params : w'.ctx.toJtagParams = s.world.ctx.toJtagParams := by rw [ran.ctx]; rfl
    have after : w'.ctx.jtagbufA.prepared = false := by rw [ran.ctx]; rfl
    -- The run reads block A and clears its flag; it takes nothing from the ring.
    have output : OutputOnly s.world w' :=
      ⟨ran.rx, _, ran.trace, by simp [AllOutput, Event.isOutput]⟩
    have kept := output.rxKept
    refine ⟨same.trans (.of_cont cont params), ready.congr (ran.idle ready.idle) cmdBuf cont params,
      fun prepared => ?_, ?_, ?_, ?_, placed, ?_, kept.rxBytes rx, kept.rx_le.trans ring,
      bounds.trans output.addsWithinBounds⟩
    · simp [after] at prepared
    · rw [cont]
      exact left
    · rw [cont]
      exact alive
    · rw [cont]
      exact result
    · have silent : consumed w'.trace = consumed s.world.trace := by
        rw [ran.trace]
        simp [Event.consumedBytes]
      have buffered : w'.buffered = s.world.buffered := by
        simp only [World.buffered, LsejtagCtx.cmd, cmdBuf]
      rw [silent, buffered]
      exact stream

/-- One step of the fast write. -/
theorem FastWriteInv.step {s' : XferState} {input : XferInput} (inv : FastWriteInv start n s)
    (stepped : fastWriteStep s input = some s') : FastWriteInv start n s' := by
  have isPrepared := inv.ready.preparedBufblk
  cases input with
  | usbOut bytes =>
    simp only [fastWriteStep] at stepped
    split at stepped
    · rename_i fits
      cases stepped
      obtain ⟨same, ready, runnable, left, alive, result, placed, stream, ⟨came, arrivals, order⟩,
        ring, bounds⟩ := inv
      refine ⟨same, ready, runnable, left, alive, result, placed, ?_, ⟨came ++ bytes, ?_, ?_⟩, ?_,
        ?_⟩
      · have silent : consumed (s.world.receive bytes).trace = consumed s.world.trace := by
          simp [World.receive, Event.consumedBytes]
        exact silent.trans stream
      · simp [World.receive, arrivals, Event.arrivedBytes]
      · simp [World.receive, Event.consumedBytes, ← List.append_assoc, order]
      · simpa [World.receive, usbrxCapacity] using fits
      · exact bounds.trans ⟨[.usbOut bytes], rfl, by simp [WithinBounds]⟩
    · cases stepped
  | call =>
    simp only [fastWriteStep] at stepped
    split at stepped
    · cases stepped
    · rename_i active
      -- The call is made only while no block is prepared and no success was returned.
      rw [not_or] at active
      have unprepared : s.world.ctx.jtagbufA.prepared = false := by
        cases prepared : s.world.ctx.jtagbufA.prepared with
        | false => rfl
        | true => simp [isPrepared, prepared] at active
      obtain ⟨r, w', total, called⟩ :=
        cmdimplContinueFastMemWrite_called inv.ready unprepared inv.ring
      rw [total] at stepped
      cases stepped
      cases called with
      | short _ moved parsed missing => exact inv.calledShort unprepared moved parsed missing
      | placed k middle moved parsed complete tdi filled _ _ ends =>
        exact inv.calledPlaced active.1
          (xfersPlaced inv.ready moved parsed complete filled ends)
  | run tdo =>
    simp only [fastWriteStep] at stepped
    split at stepped
    · rename_i some
      split at stepped
      · rename_i w' returned
        cases stepped
        exact inv.ran some returned
      · cases stepped
    · cases stepped

end invariant

/-! ## Over whole runs -/

/-- What a fast write of `n` transfers that was set up in `start` has done when
    it is in `s`. -/
structure Delivers (start : World) (n : Nat) (s : XferState) : Prop where
  /-- Bytes leave the ring in the order in which they came. -/
  order : ∃ bytes, arrived s.world.trace = arrived start.trace ++ bytes ∧
    consumed s.world.trace ++ s.world.rx = consumed start.trace ++ start.rx ++ bytes
  /-- They are the DR sequences of the blocks so far, and those buffered for the
      next one. -/
  sequences : consumed s.world.trace =
    consumed start.trace ++ s.drSequences.flatMap dwordsBytes ++ s.world.buffered
  blocks : ∀ b ∈ s.blocks, b.Placed start.ctx ∧ (0 < n → 0 < b.xfers)
  placed : s.placed ≤ n
  /-- No consume asks for more than there is or runs past the buffer. -/
  bounds : AddsWithinBounds start s.world
  buffered : s.world.ctx.bufferedLength ≤ 256
  result : s.result = .cerSuccess ↔ 0 < s.calls ∧ s.placed = n
  total : s.result = .cerSuccess → (consumed s.world.trace).length =
    (consumed start.trace).length + n * (start.ctx.drseqDwordlen * 4)

/-- Transfers of the next block. -/
def LsejtagCtx.nextXfers (ctx : LsejtagCtx) : Nat := min ctx.xfersPerBufblk ctx.xfersLeft

/-- The fast write can go on: blocks run, calls return, and a call that finds the
    payload of the next block places it. -/
structure GoesOn (s : XferState) : Prop where
  run : s.world.ctx.preparedBufblk.isSome → ∀ tdo, ∃ w', lsejtagRunJtag s.world tdo = .ok w'
  call : s.result ≠ .cerSuccess → s.world.ctx.preparedBufblk = none → ∃ r w',
    cmdimplContinueFastMemWrite s.world = .ok (r, w') ∧
      (s.world.ctx.nextXfers * (s.world.ctx.drseqDwordlen * 4) ≤
          s.world.ctx.bufferedLength + s.world.rx.length →
        (s.called r w').placed = s.placed + s.world.ctx.nextXfers)
  next : s.world.ctx.xfersLeft ≠ 0 → 0 < s.world.ctx.nextXfers

theorem length_drSequences {ctx : LsejtagCtx} {blocks : List XferBlock}
    (placed : ∀ b ∈ blocks, b.Placed ctx) :
    ((blocks.flatMap XferBlock.drSequences).flatMap dwordsBytes).length =
      (blocks.map XferBlock.xfers).sum * (ctx.drseqDwordlen * 4) := by
  induction blocks with
  | nil => simp
  | cons b blocks ih =>
    have first := placed b (by simp)
    have sizes : b.drSequences.map (fun seq => (dwordsBytes seq).length) =
        b.drSequences.map fun _ => ctx.drseqDwordlen * 4 :=
      List.map_congr_left fun seq member => by rw [length_dwordsBytes, first.lengths seq member]
    rw [List.flatMap_cons, List.flatMap_append, List.length_append,
      ih fun b member => placed b (by simp [member]), List.length_flatMap, sizes, List.map_const',
      List.sum_replicate_nat, first.count, List.map_cons, List.sum_cons, Nat.add_mul]

theorem FastWriteInv.delivers {start : World} {n : Nat} {s : XferState}
    (inv : FastWriteInv start n s) : Delivers start n s := by
  obtain ⟨same, ready, runnable, left, alive, result, placed, stream, rx, ring, bounds⟩ := inv
  have fewer := Nat.mul_le_mul_right (s.world.ctx.drseqDwordlen * 4)
    (Nat.min_le_left s.world.ctx.xfersPerBufblk s.world.ctx.xfersLeft)
  have partly := ready.partly
  have bytes := ready.bytes
  refine ⟨rx, stream, placed, by omega, bounds, by omega, ?_, fun success => ?_⟩
  · obtain ⟨success, called, none⟩ | ⟨continues, active⟩ := result
    · exact ⟨fun _ => ⟨called, by omega⟩, fun _ => success⟩
    · refine ⟨fun success => by simp [continues] at success, fun ⟨called, all⟩ => ?_⟩
      have := (active (by omega)).1
      omega
  · obtain ⟨-, -, none⟩ | ⟨continues, -⟩ := result
    · have nothing : s.world.ctx.bufferedLength = 0 := by
        rw [none, Nat.min_zero, Nat.zero_mul] at partly
        omega
      have isPlaced : (s.blocks.map XferBlock.xfers).sum = n := by
        rw [XferState.placed] at left
        omega
      rw [stream, World.buffered, nothing, List.take_zero, List.append_nil, List.length_append,
        XferState.drSequences, length_drSequences fun b member => (placed b member).1, isPlaced]
    · simp [continues] at success

theorem FastWriteInv.goesOn {start : World} {n : Nat} {s : XferState}
    (inv : FastWriteInv start n s) : GoesOn s := by
  have isPrepared := inv.ready.preparedBufblk
  refine ⟨fun some tdo => ?_, fun active unprepared => ?_, fun some => ?_⟩
  · cases prepared : s.world.ctx.jtagbufA.prepared with
    | false => simp [isPrepared, prepared] at some
    | true =>
      obtain ⟨tdoBits, tdiBits⟩ := inv.runnable prepared
      exact lsejtagRunJtag_silent_total tdo inv.ready.idle.periphWorking prepared tdoBits tdiBits
  · have unprepared : s.world.ctx.jtagbufA.prepared = false := by
      cases prepared : s.world.ctx.jtagbufA.prepared with
      | false => rfl
      | true => simp [isPrepared, prepared] at unprepared
    obtain ⟨r, w', total, called⟩ :=
      cmdimplContinueFastMemWrite_called inv.ready unprepared inv.ring
    refine ⟨r, w', total, fun enough => ?_⟩
    cases called with
    | short _ _ _ missing => exact absurd missing (Nat.not_lt.mpr enough)
    | placed k middle moved parsed complete tdi filled _ _ ends =>
      have placed := xfersPlaced inv.ready moved parsed complete filled ends
      have after := inv.calledPlaced active placed
      have left := inv.left
      have left' : (s.called r w').placed + w'.ctx.xfersLeft = n := after.left
      have toGo := placed.left
      rw [LsejtagCtx.nextXfers]
      omega
  · exact Nat.lt_min.mpr ⟨inv.alive (by omega), by omega⟩

/-- The invariant holds from the setup on. -/
theorem fastWriteInv_of_setup {w start : World} {fastdata : Bool} {tdo : Nat → Bool}
    {r : LsejtagCmdExecResult} (setup : cmdimplFastMemWrite w fastdata tdo = .ok (r, start))
    (fits : start.ctx.bitsPerXfer ≤ 2048) (ring : w.rx.length ≤ usbrxCapacity) {s : XferState}
    (reach : (fastWrite start).Reachable s) :
    FastWriteInv start (dataLenXferCount w.ctx.cmd) s := by
  refine reach.invariant ?_ fun _ _ _ _ inv _ stepped => inv.step stepped
  rintro s rfl
  obtain ⟨free, -, tmsA, tdiA, tmsB, tdiB, rfl⟩ := cmdimplFastMemWrite_ok setup
  obtain ⟨⟨tdiIdle, tmsIdle, unprepared⟩, ⟨tdiIdleB, tmsIdleB, unusedB⟩, tdoIdle⟩ :=
    LsejtagCtx.periphFree_iff.mp free
  have room := fastMemWriteSetup_fits w.ctx fastdata
  have bits := xfersPerBufblk_setup_bits w.ctx fastdata
  refine ⟨⟨rfl, rfl, rfl, rfl⟩, ⟨⟨tdiIdle, tmsIdle, tdiIdleB, tmsIdleB, unusedB, tdoIdle⟩,
    xferFits_fastMemWriteSetup w.ctx fastdata, rfl, rfl, bits, room, Lib.le32_lt _ _, .inl rfl⟩,
    fun prepared => ?_, Nat.zero_add _, fun some => ?_, .inr ⟨rfl, fun none => ⟨rfl, none⟩⟩,
    nofun, ?_, ⟨[], by simp, by simp⟩, ring, ⟨[], by simp, by simp⟩⟩
  · exact absurd (unprepared.symm.trans prepared) nofun
  · exact xfersPerBufblk_setup_pos w.ctx fastdata some fits
  · simp [XferState.drSequences, World.buffered]

/-- A fast write that was set up in `start`, in every order in which its payload
    may arrive.  The setup returns: it does not where the area it clears leaves a
    buffer or its assertion fails. -/
theorem fast_write_delivers {w start : World} {fastdata : Bool} {tdo : Nat → Bool}
    {r : LsejtagCmdExecResult} (setup : cmdimplFastMemWrite w fastdata tdo = .ok (r, start))
    (fits : start.ctx.bitsPerXfer ≤ 2048) (ring : w.rx.length ≤ usbrxCapacity) {s : XferState}
    (reach : (fastWrite start).Reachable s) :
    Delivers start (dataLenXferCount w.ctx.cmd) s ∧ GoesOn s := by
  have inv := fastWriteInv_of_setup setup fits ring reach
  exact ⟨inv.delivers, inv.goesOn⟩

/-- A fast write of 3 words with FASTDATA and without chained cores is ready to
    be executed. -/
def threeWords : World :=
  ⟨{ lsejtagInitCtx with
      bufferedCmd := Lib.overlay (Vector.replicate 256 0) 0
        [0x00, 0x30, 0x01, 0x00, 0x03, 0x00, 0x00, 0x00] (by decide)
      bufferedLength := 8
      cmdBufState := .cbsExecute }, [], []⟩

/-- The payload arrives in pieces of 5, 12 and 7 bytes, and the third call places
    the 3 words. -/
theorem fast_write_delivers_three : ∃ start s, s.result = .cerSuccess ∧ s.calls = 3 ∧
    Delivers start 3 s ∧ GoesOn s := by
  have ran : (cmdimplFastMemWrite threeWords true fun _ => false).toOption.any (fun start =>
      decide (start.2.ctx.bitsPerXfer ≤ 2048) &&
        ((fastWrite start.2).run Machine.anyAction ⟨start.2, .cerContinue, 0, []⟩
          [.usbOut (List.replicate 5 0x11), .call, .usbOut (List.replicate 12 0x22), .call,
            .usbOut (List.replicate 7 0x33), .call, .run fun _ => false]).any fun s =>
          decide (s.result = .cerSuccess ∧ s.calls = 3)) = true := by
    decide +kernel
  obtain ⟨⟨r, start⟩, setup, holds⟩ := (Option.any_eq_true _ _).mp ran
  obtain ⟨fits, holds⟩ := Bool.and_eq_true_iff.mp holds
  obtain ⟨s, reach, holds⟩ := Machine.exists_reach _ rfl holds
  obtain ⟨success, calls⟩ := of_decide_eq_true holds
  have returned : cmdimplFastMemWrite threeWords true (fun _ => false) = .ok (r, start) :=
    Lib.eq_ok_of_toOption setup
  exact ⟨start, s, success, calls,
    fast_write_delivers returned (of_decide_eq_true fits) (Nat.zero_le _) reach⟩

end LoongsonEjtag
