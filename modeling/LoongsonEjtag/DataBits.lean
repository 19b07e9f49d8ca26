import LoongsonEjtag.XferCall
import Mathlib.Data.Nat.Find

/-! # Where a fast write puts its data bits

`cmdimpl_continue_fast_mem_write` writes the DR sequences over the data of an
earlier block, bit by bit.

* `placeDwords_bits` — the full dwords of a sequence end up in place.
* `placeSequence_exact` — so does the whole sequence where its leftover bits are
  a field that `replace_bits` replaces exactly (`ExactField`).
* `placeSequence_wrong` — anywhere else some old data or some payload is lost.
* `placeXfers_exact`, `placeXfers_wrong` — the same for a block of transfers.
-/

namespace LoongsonEjtag

open Lib (Byte Dword bitAt forUpTo forUpTo_congr forUpTo_invariant bind_eq_ok)
open Wire

/-- Bit `k` of a DR sequence. -/
def seqBit (seq : List Dword) (k : Nat) : Bool := (seq.getD (k / 32) 0).getLsbD (k % 32)

/-- The first data bit of transfer `i`. -/
def dataBitshift (ctx : LsejtagCtx) (i : Nat) : Nat := i * ctx.bitsPerXfer + dataBitoffset ctx

/-- Bit `p` belongs to the data of one of the first `n` transfers. -/
def DataBit (ctx : LsejtagCtx) (n p : Nat) : Prop :=
  ∃ i < n, dataBitshift ctx i ≤ p ∧ p < dataBitshift ctx i + ctx.drseqBitlen

/-! ## One DR sequence -/

theorem placeDwords_bits {start count : Nat} {seq : List Dword} {tdi tdi' : DwordBuf}
    (placed : forUpTo (fun j tdi => replaceDword tdi (start + 32 * j) (seq.getD j 0)) count tdi =
      .ok tdi') (p : Nat) :
    bitAt tdi' p =
      if start ≤ p ∧ p < start + 32 * count then seqBit seq (p - start) else bitAt tdi p := by
  refine forUpTo_invariant (fun j tdi' => bitAt tdi' p =
    if start ≤ p ∧ p < start + 32 * j then seqBit seq (p - start) else bitAt tdi p) ?_ ?_ placed
  · simp
  · intro j before after _ holds replaced
    rw [replaceDword_puts replaced p, holds]
    by_cases here : start + 32 * j ≤ p ∧ p < start + 32 * j + 32
    · have dword : (p - start) / 32 = j := by omega
      have rest : (p - start) % 32 = p - (start + 32 * j) := by omega
      rw [if_pos here, if_pos (by omega), seqBit, dword, rest]
    · rw [if_neg here]
      by_cases earlier : start ≤ p ∧ p < start + 32 * j
      · rw [if_pos earlier, if_pos (by omega)]
      · rw [if_neg earlier, if_neg (by omega)]

section placeSequence

variable {ctx : LsejtagCtx} {i : Nat} {seq : List Dword} {tdi tdi' : DwordBuf}

/-- Where the leftover bits of a sequence go. -/
def leftoverBitshift (ctx : LsejtagCtx) (i : Nat) : Nat :=
  dataBitshift ctx i + 32 * (ctx.drseqBitlen / 32)

/-- What a sequence does to each bit: the full dwords first, then the leftover
    bits with the masks of `replace_bits`. -/
theorem placeSequence_bits (placed : placeSequence ctx i seq tdi = .ok tdi') :
    ∃ middle : DwordBuf,
      (∀ p, bitAt middle p =
        if dataBitshift ctx i ≤ p ∧ p < leftoverBitshift ctx i
        then seqBit seq (p - dataBitshift ctx i) else bitAt tdi p) ∧
      (ctx.drseqBitlen % 32 = 0 ∧ tdi' = middle ∨
        0 < ctx.drseqBitlen % 32 ∧
          replaceBits middle (leftoverBitshift ctx i) (seq.getD (ctx.drseqBitlen / 32) 0)
            (ctx.drseqBitlen % 32) = .ok tdi') := by
  obtain ⟨middle, dwords, leftover⟩ := bind_eq_ok.mp placed
  refine ⟨middle, placeDwords_bits dwords, ?_⟩
  split at leftover
  · exact .inr ⟨by omega, leftover⟩
  · exact .inl ⟨by omega, (Except.ok.inj leftover).symm⟩

/-- A field of the leftover bits reads them from the last dword. -/
theorem seqBit_leftover {p : Nat} (behind : leftoverBitshift ctx i ≤ p)
    (below : p < leftoverBitshift ctx i + ctx.drseqBitlen % 32) :
    (seq.getD (ctx.drseqBitlen / 32) 0).getLsbD (p - leftoverBitshift ctx i) =
      seqBit seq (p - dataBitshift ctx i) := by
  rw [leftoverBitshift] at behind below ⊢
  have dword : (p - dataBitshift ctx i) / 32 = ctx.drseqBitlen / 32 := by omega
  have rest : (p - dataBitshift ctx i) % 32 =
      p - (dataBitshift ctx i + 32 * (ctx.drseqBitlen / 32)) := by omega
  rw [seqBit, dword, rest]

/-- The leftover bits of transfer `i` start where `replace_bits` works. -/
def ExactField (ctx : LsejtagCtx) (i : Nat) : Prop :=
  ctx.drseqBitlen % 32 = 0 ∨ dataBitshift ctx i % 32 = ctx.drseqBitlen % 32

theorem placeSequence_exact (aligned : ExactField ctx i)
    (placed : placeSequence ctx i seq tdi = .ok tdi') (p : Nat) :
    bitAt tdi' p =
      if dataBitshift ctx i ≤ p ∧ p < dataBitshift ctx i + ctx.drseqBitlen
      then seqBit seq (p - dataBitshift ctx i) else bitAt tdi p := by
  obtain ⟨middle, dwords, ⟨whole, rfl⟩ | ⟨some, replaced⟩⟩ := placeSequence_bits placed
  · have ends : leftoverBitshift ctx i = dataBitshift ctx i + ctx.drseqBitlen := by
      rw [leftoverBitshift]
      omega
    rw [dwords, ends]
  · have width : leftoverBitshift ctx i % 32 = ctx.drseqBitlen % 32 := by
      rw [leftoverBitshift]
      obtain none | same := aligned <;> omega
    have ends : leftoverBitshift ctx i + ctx.drseqBitlen % 32 =
        dataBitshift ctx i + ctx.drseqBitlen := by
      rw [leftoverBitshift]
      omega
    rw [replaceBits_puts width replaced p, dwords]
    by_cases leftover : leftoverBitshift ctx i ≤ p ∧
        p < leftoverBitshift ctx i + ctx.drseqBitlen % 32
    · have inside : dataBitshift ctx i ≤ p ∧ p < dataBitshift ctx i + ctx.drseqBitlen := by
        rw [leftoverBitshift] at leftover
        omega
      rw [if_pos leftover, if_pos inside, seqBit_leftover leftover.1 leftover.2]
    · rw [if_neg leftover]
      by_cases full : dataBitshift ctx i ≤ p ∧ p < leftoverBitshift ctx i
      · rw [if_pos full, if_pos (by omega)]
      · rw [if_neg full, if_neg (by omega)]

/-- Transfers behind never reach in front of their data: the leftover bits come
    behind a full dword at least. -/
theorem placeSequence_below (dwords : 32 ≤ ctx.drseqBitlen)
    (placed : placeSequence ctx i seq tdi = .ok tdi') {p : Nat} (below : p < dataBitshift ctx i) :
    bitAt tdi' p = bitAt tdi p := by
  obtain ⟨middle, full, ⟨-, rfl⟩ | ⟨-, replaced⟩⟩ := placeSequence_bits placed
  · rw [full, if_neg (by omega)]
  · have far : p / 32 < leftoverBitshift ctx i / 32 := by
      rw [leftoverBitshift]
      omega
    have kept : replaceKeeps (leftoverBitshift ctx i) (ctx.drseqBitlen % 32) p = true := by
      rw [replaceKeeps]
      split
      · simp
        omega
      · simp
        omega
    have outside : ¬(leftoverBitshift ctx i ≤ p ∧
        p < leftoverBitshift ctx i + ctx.drseqBitlen % 32) := by
      rw [leftoverBitshift]
      omega
    rw [replaceBits_bits replaced, kept, full, if_neg (by omega)]
    simp [outside]

/-- Where they do not, there is a payload of equal bits that does not arrive if
    the data of the earlier block were ones. -/
theorem placeSequence_wrong (dwords : 32 ≤ ctx.drseqBitlen) (misaligned : ¬ExactField ctx i) :
    ∃ v : Bool, ∃ k < ctx.drseqBitlen, ∀ (seq : List Dword) (tdi tdi' : DwordBuf),
      (∀ j < ctx.drseqBitlen, seqBit seq j = v) →
      (∀ p, dataBitshift ctx i ≤ p → p < dataBitshift ctx i + ctx.drseqBitlen →
        bitAt tdi p = true) →
      placeSequence ctx i seq tdi = .ok tdi' → bitAt tdi' (dataBitshift ctx i + k) = !v := by
  rw [ExactField, not_or] at misaligned
  obtain ⟨some, width⟩ := misaligned
  have offset : leftoverBitshift ctx i % 32 = dataBitshift ctx i % 32 := by
    rw [leftoverBitshift]
    omega
  obtain ⟨k, inside, kept⟩ | ⟨-, cleared⟩ := replaceKeeps_wrong
    (leftoverBitshift ctx i) (ctx.drseqBitlen % 32) (by omega) (Nat.mod_lt _ (by decide))
    (by omega)
  · -- A bit of the field that is kept: the payload is zeros, the old data shows.
    refine ⟨false, 32 * (ctx.drseqBitlen / 32) + k, by omega, ?_⟩
    intro seq tdi tdi' zeros ones placed
    have position : dataBitshift ctx i + (32 * (ctx.drseqBitlen / 32) + k) =
        leftoverBitshift ctx i + k := by
      rw [leftoverBitshift]
      omega
    obtain ⟨middle, full, ⟨none, -⟩ | ⟨-, replaced⟩⟩ := placeSequence_bits placed
    · exact absurd none some
    · have old : bitAt middle (leftoverBitshift ctx i + k) = true := by
        rw [full, if_neg (by omega)]
        rw [leftoverBitshift]
        exact ones _ (by omega) (by omega)
      rw [position, replaceBits_bits replaced, kept, old]
      rfl
  · -- The bit in front of the field is cleared: the payload is ones.
    refine ⟨true, 32 * (ctx.drseqBitlen / 32) - 1, by omega, ?_⟩
    intro seq tdi tdi' ones _ placed
    have position : dataBitshift ctx i + (32 * (ctx.drseqBitlen / 32) - 1) =
        leftoverBitshift ctx i - 1 := by
      rw [leftoverBitshift]
      omega
    obtain ⟨middle, full, ⟨none, -⟩ | ⟨-, replaced⟩⟩ := placeSequence_bits placed
    · exact absurd none some
    · have inFront : ¬(leftoverBitshift ctx i ≤ leftoverBitshift ctx i - 1 ∧
          leftoverBitshift ctx i - 1 < leftoverBitshift ctx i + ctx.drseqBitlen % 32) := by
        rw [leftoverBitshift]
        omega
      rw [position, replaceBits_bits replaced, cleared]
      simp [inFront]

end placeSequence

/-! ## A block -/

section block

variable {ctx : LsejtagCtx} {seqs : Nat → List Dword} {n : Nat} {tdi tdi' : DwordBuf}

/-- A transfer is longer than its data, so the data of the next one starts
    behind. -/
theorem dataBitshift_next (fits : XferFits ctx) {i j : Nat} (earlier : i < j) :
    dataBitshift ctx i + ctx.drseqBitlen < dataBitshift ctx j := by
  rw [XferFits] at fits
  have steps : (i + 1) * ctx.bitsPerXfer ≤ j * ctx.bitsPerXfer :=
    Nat.mul_le_mul_right _ earlier
  rw [Nat.succ_mul] at steps
  rw [dataBitshift, dataBitshift]
  omega

theorem placeXfers_exact (fits : XferFits ctx) (aligned : ∀ i < n, ExactField ctx i)
    (filled : forUpTo (fun i => placeSequence ctx i (seqs i)) n tdi = .ok tdi') :
    (∀ i < n, ∀ k < ctx.drseqBitlen,
        bitAt tdi' (dataBitshift ctx i + k) = seqBit (seqs i) k) ∧
      ∀ p, ¬DataBit ctx n p → bitAt tdi' p = bitAt tdi p := by
  refine forUpTo_invariant (fun m tdi' => (∀ i < m, ∀ k < ctx.drseqBitlen,
      bitAt tdi' (dataBitshift ctx i + k) = seqBit (seqs i) k) ∧
    ∀ p, ¬DataBit ctx m p → bitAt tdi' p = bitAt tdi p) ?_ ?_ filled
  · exact ⟨fun i below => absurd below (Nat.not_lt_zero i), fun p _ => rfl⟩
  · intro m before after below holds placed
    obtain ⟨data, rest⟩ := holds
    have bits := placeSequence_exact (aligned m below) placed
    constructor
    · intro i upTo k inside
      by_cases last : i = m
      · subst last
        rw [bits, if_pos (by omega), Nat.add_sub_cancel_left]
      · have earlier := dataBitshift_next fits (show i < m by omega)
        rw [bits, if_neg (by omega)]
        exact data i (by omega) k inside
    · intro p outside
      have notLast : ¬(dataBitshift ctx m ≤ p ∧ p < dataBitshift ctx m + ctx.drseqBitlen) :=
        fun inside => outside ⟨m, Nat.lt_succ_self m, inside⟩
      rw [bits, if_neg notLast]
      apply rest
      intro ⟨i, upTo, inside⟩
      exact outside ⟨i, Nat.lt_succ_of_lt upTo, inside⟩

/-- If the fields of a block are not all exact, the first one that is not leaves
    a wrong bit that the transfers behind it do not touch. -/
theorem placeXfers_wrong (fits : XferFits ctx) (dwords : 32 ≤ ctx.drseqBitlen)
    (misaligned : ¬∀ i < n, ExactField ctx i) :
    ∃ v : Bool, ∃ i < n, ∃ k < ctx.drseqBitlen,
      ∀ (seqs : Nat → List Dword) (tdi tdi' : DwordBuf),
        (∀ j < ctx.drseqBitlen, seqBit (seqs i) j = v) →
        (∀ p, DataBit ctx n p → bitAt tdi p = true) →
        forUpTo (fun i => placeSequence ctx i (seqs i)) n tdi = .ok tdi' →
        bitAt tdi' (dataBitshift ctx i + k) = !v := by
  classical
  have some : ∃ i, i < n ∧ ¬ExactField ctx i := by
    by_contra none
    exact misaligned fun i below => by_contra fun bad => none ⟨i, below, bad⟩
  obtain ⟨below, bad⟩ := Nat.find_spec some
  have least : ∀ j < Nat.find some, ExactField ctx j := by
    intro j earlier
    by_contra worse
    exact Nat.find_min some earlier ⟨by omega, worse⟩
  generalize Nat.find some = i at below bad least
  obtain ⟨v, k, inside, wrong⟩ := placeSequence_wrong dwords bad
  refine ⟨v, i, below, k, inside, ?_⟩
  intro seqs tdi tdi' payload old filled
  -- Up to transfer `i` its bits are the old ones, then bit `k` is wrong.
  have after := forUpTo_invariant (fun m tdi' => if m ≤ i
    then ∀ p, dataBitshift ctx i ≤ p → bitAt tdi' p = bitAt tdi p
    else bitAt tdi' (dataBitshift ctx i + k) = !v) (by simp) ?_ filled
  · rwa [if_neg (by omega)] at after
  · intro m before next _ holds placed
    by_cases earlier : m < i
    · rw [if_pos (by omega)] at holds ⊢
      have ends := dataBitshift_next fits earlier
      intro p behind
      rw [placeSequence_exact (least m earlier) placed, if_neg (by omega)]
      exact holds p behind
    · rw [if_neg (by omega)]
      by_cases here : m = i
      · subst here
        rw [if_pos le_rfl] at holds
        refine wrong _ before next payload ?_ placed
        intro p behind upTo
        rw [holds p behind]
        exact old p ⟨m, below, behind, upTo⟩
      · rw [if_neg (by omega)] at holds
        have starts := dataBitshift_next fits (show i < m by omega)
        rw [placeSequence_below dwords placed (by omega)]
        exact holds

end block

/-! ## Continuation calls -/

theorem freeJtagbuf_unprepared {ctx : LsejtagCtx} {id : BufId}
    (free : ctx.freeJtagbuf = some id) : (ctx.jtagbuf id).prepared = false := by
  rw [LsejtagCtx.freeJtagbuf] at free
  split at free
  · cases free
    simp_all [JtagbufBlk.busy]
  · split at free
    · cases free
      simp_all [JtagbufBlk.busy]
    · cases free

/-- The blocks stay as they are while payload is fetched. -/
theorem PayloadFetched.blocks {w w' : World} {complete : Bool}
    (fetched : PayloadFetched { w with ctx := truncateXfers w.ctx } complete w') :
    w'.ctx.freeJtagbuf = w.ctx.freeJtagbuf ∧ w'.ctx.jtagbuf = w.ctx.jtagbuf := by
  have truncated : (truncateXfers w.ctx).freeJtagbuf = w.ctx.freeJtagbuf ∧
      (truncateXfers w.ctx).jtagbuf = w.ctx.jtagbuf := by
    rw [truncateXfers]
    split <;> exact ⟨rfl, rfl⟩
  cases fetched <;> exact truncated

theorem prepareWriteBlock_free {w w' : World} {r : LsejtagCmdExecResult} {id : BufId}
    (free : w.ctx.freeJtagbuf = some id) (prepares : prepareWriteBlock w = .ok (r, w')) :
    forUpTo (placeXfer w.ctx) w.ctx.xfersPerBufblk (w.ctx.jtagbuf id).tdiData =
        .ok (w'.ctx.jtagbuf id).tdiData ∧ (w'.ctx.jtagbuf id).prepared = true ∧
      drSequence w'.ctx = drSequence w.ctx := by
  simp only [prepareWriteBlock, free] at prepares
  obtain ⟨tdi, filled, ends⟩ := bind_eq_ok.mp prepares
  obtain ⟨-, -, rfl⟩ | ⟨-, -, rfl⟩ := finishXfers_cases (Except.ok.inj ends).symm
  · rw [filled]
    cases id <;> exact ⟨rfl, rfl, rfl⟩
  · rw [filled]
    cases id <;> exact ⟨rfl, rfl, rfl⟩

/-- Outside the data of its transfers the block still holds the premade sequence. -/
def TemplateKept (start w : World) (id : BufId) : Prop :=
  ∀ p, p < start.ctx.xfersPerBufblk * start.ctx.bitsPerXfer →
    ¬DataBit start.ctx start.ctx.xfersPerBufblk p →
    bitAt (w.ctx.jtagbuf id).tdiData p = bitAt (start.ctx.jtagbuf id).tdiData p

/-- A call of the fast write set up in `start` that prepares a block of `n`
    transfers in buffer `id`, over any data of an earlier block. -/
structure WriteCall (start w w' : World) (id : BufId) (n : Nat) : Prop where
  same : SameXfer start.ctx w.ctx
  xfers : w.ctx.xfersPerBufblk ≤ start.ctx.xfersPerBufblk
  count : min w.ctx.xfersPerBufblk w.ctx.xfersLeft = n
  free : w.ctx.freeJtagbuf = some id
  template : TemplateKept start w id
  returned : ∃ r, cmdimplContinueFastMemWrite w = .ok (r, w')
  prepared : (w'.ctx.jtagbuf id).prepared = true

/-- Every data bit of the block is in place, and every other bit is that of the
    premade sequence. -/
structure PlacesData (start w' : World) (id : BufId) (n : Nat) : Prop where
  data : ∀ i < n, ∀ k < start.ctx.drseqBitlen,
    bitAt (w'.ctx.jtagbuf id).tdiData
        (i * start.ctx.bitsPerXfer + dataBitoffset start.ctx + k) =
      seqBit (drSequence w'.ctx i) k
  rest : ∀ p, p < n * start.ctx.bitsPerXfer → ¬DataBit start.ctx n p →
    bitAt (w'.ctx.jtagbuf id).tdiData p = bitAt (start.ctx.jtagbuf id).tdiData p

section calls

variable {w₀ start w w' : World} {fastdata : Bool} {tdo : Nat → Bool}
  {r : LsejtagCmdExecResult} {id : BufId} {n : Nat}

/-- What the setup guarantees about its transfers. -/
structure XfersSetUp (ctx : LsejtagCtx) : Prop where
  fits : XferFits ctx
  dwords : 32 ≤ ctx.drseqBitlen
  dwordlen : ctx.drseqDwordlen = bit2dword ctx.drseqBitlen
  bits : ctx.xfersPerBufblk * ctx.bitsPerXfer ≤ 2048
  bytes : ctx.xfersPerBufblk * (bit2dword ctx.drseqBitlen * 4) ≤ 256

theorem xfersSetUp (setup : cmdimplFastMemWrite w₀ fastdata tdo = .ok (r, start)) :
    XfersSetUp start.ctx ∧ start.ctx.periphFree = true := by
  obtain ⟨free, -, tmsA, tdiA, tmsB, tdiB, rfl⟩ := cmdimplFastMemWrite_ok setup
  refine ⟨⟨xferFits_fastMemWriteSetup w₀.ctx fastdata, ?_, rfl,
    xfersPerBufblk_setup_bits w₀.ctx fastdata, fastMemWriteSetup_fits w₀.ctx fastdata⟩, free⟩
  change 32 ≤ (fastMemWriteSetup w₀.ctx fastdata).drseqBitlen
  simp only [fastMemWriteSetup]
  cases cpuIs64bit w₀.ctx.cmd <;> simp only [if_true, Bool.false_eq_true, if_false] <;> omega

/-- A call that prepares a block fills it with the sequences it has buffered. -/
theorem WriteCall.filled (setUp : XfersSetUp start.ctx) (call : WriteCall start w w' id n) :
    forUpTo (fun i => placeSequence start.ctx i (drSequence w'.ctx i)) n
      (w.ctx.jtagbuf id).tdiData = .ok (w'.ctx.jtagbuf id).tdiData := by
  obtain ⟨r, returned⟩ := call.returned
  obtain ⟨⟨complete, middle⟩, fetch, returned⟩ := bind_eq_ok.mp returned
  have fetched := fetchPayload_fetched fetch
  obtain ⟨sameFree, sameBlocks⟩ := fetched.blocks
  cases complete with
  | false =>
    -- Without its payload the call leaves the block unprepared.
    cases returned
    have unprepared := freeJtagbuf_unprepared call.free
    rw [← sameBlocks, call.prepared] at unprepared
    cases unprepared
  | true =>
    obtain ⟨placed, -, sameSeqs⟩ := prepareWriteBlock_free (sameFree.trans call.free) returned
    have moved := fetched.moved
    have same : SameXfer start.ctx middle.ctx :=
      call.same.trans ((SameXfer.truncateXfers w.ctx).trans moved.sameXfer)
    obtain ⟨xfers, -⟩ := contCtx_truncated moved.cont
    rw [xfers, call.count, sameBlocks] at placed
    rw [← placed]
    refine (forUpTo_congr (fun i tdi below => ?_) _).symm
    have within : (i + 1) * (bit2dword start.ctx.drseqBitlen * 4) ≤ 256 := by
      have most : i + 1 ≤ start.ctx.xfersPerBufblk := by
        have fewer := call.count
        have upper := call.xfers
        omega
      exact (Nat.mul_le_mul_right _ most).trans setUp.bytes
    rw [placeXfer_eq (by rw [same.bitlen]; exact within), same.placeSequence, sameSeqs]

/-- A call that has all of its payload buffered prepares its block. -/
theorem cmdimplContinueFastMemWrite_full (free : w.ctx.periphFree = true) (fits : XferFits w.ctx)
    (dwordlen : w.ctx.drseqDwordlen = bit2dword w.ctx.drseqBitlen)
    (count : min w.ctx.xfersPerBufblk w.ctx.xfersLeft = n) (bits : n * w.ctx.bitsPerXfer ≤ 2048)
    (bytes : n * (bit2dword w.ctx.drseqBitlen * 4) ≤ 256)
    (full : w.ctx.bufferedLength = n * (w.ctx.drseqDwordlen * 4)) :
    ∃ r w', cmdimplContinueFastMemWrite w = .ok (r, w') ∧ w'.ctx.jtagbufA.prepared = true ∧
      drSequence w'.ctx = drSequence w.ctx := by
  have same := SameXfer.truncateXfers w.ctx
  have xfers : (truncateXfers w.ctx).xfersPerBufblk = n :=
    (xfersPerBufblk_truncateXfers w.ctx).trans count
  have truncatedFree : (truncateXfers w.ctx).periphFree = true :=
    (truncateXfers_periphFree w.ctx).trans free
  have buffered : (truncateXfers w.ctx).toCmdBuf = w.ctx.toCmdBuf := toCmdBuf_truncateXfers w.ctx
  have complete : blockBytes (truncateXfers w.ctx) ≤ (truncateXfers w.ctx).bufferedLength := by
    rw [blockBytes, xfers, same.dwordlen, buffered, full, dwordlen, Lib.u32_eq (by omega)]
  have fetch := (PayloadFetched.enough (w := { w with ctx := truncateXfers w.ctx })
    complete).returns
  obtain ⟨tdi, placed, -⟩ := placeXfers_total (same.fits fits) (n := n)
    (by rw [same.bits]; exact bits) (by rw [same.bitlen]; exact bytes)
    (truncateXfers w.ctx).jtagbufA.tdiData
  have prepares := prepareWriteBlock_ok (w := { w with ctx := truncateXfers w.ctx })
    truncatedFree (xfers.symm ▸ placed)
  generalize finishXfers _ = result at prepares
  obtain ⟨r, w'⟩ := result
  have isFree := LsejtagCtx.freeJtagbuf_of_periphFree truncatedFree
  obtain ⟨-, prepared, sameSeqs⟩ := prepareWriteBlock_free
    (w := { w with ctx := truncateXfers w.ctx }) isFree prepares
  have truncatedSeqs : drSequence (truncateXfers w.ctx) = drSequence w.ctx := by
    funext i
    simp only [drSequence, LsejtagCtx.cmd, same.bitlen, buffered]
  refine ⟨r, w', ?_, prepared, sameSeqs.trans truncatedSeqs⟩
  simp only [cmdimplContinueFastMemWrite, fetch, Lib.ok_bind, if_true, prepares]

/-- All leftover bits of a block start where `replace_bits` works. -/
def ExactFields (ctx : LsejtagCtx) (n : Nat) : Prop :=
  ctx.drseqBitlen % 32 = 0 ∨
    ∀ i < n, (i * ctx.bitsPerXfer + dataBitoffset ctx) % 32 = ctx.drseqBitlen % 32

theorem exactFields_iff {ctx : LsejtagCtx} : ExactFields ctx n ↔ ∀ i < n, ExactField ctx i := by
  constructor
  · intro fields i below
    exact fields.imp_right fun aligned => aligned i below
  · intro fields
    by_cases whole : ctx.drseqBitlen % 32 = 0
    · exact .inl whole
    · exact .inr fun i below => (fields i below).resolve_left whole

theorem WriteCall.placesData (setUp : XfersSetUp start.ctx) (exact : ExactFields start.ctx n)
    (call : WriteCall start w w' id n) : PlacesData start w' id n := by
  obtain ⟨data, rest⟩ := placeXfers_exact setUp.fits (exactFields_iff.mp exact)
    (call.filled setUp)
  refine ⟨data, fun p below outside => ?_⟩
  have fewer : n ≤ start.ctx.xfersPerBufblk := by
    have count := call.count
    have upper := call.xfers
    omega
  rw [rest p outside]
  refine call.template p (below.trans_le (Nat.mul_le_mul_right _ fewer)) ?_
  -- The data of transfer `n` and those after it comes behind the block.
  intro ⟨i, upTo, inside⟩
  by_cases early : i < n
  · exact outside ⟨i, early, inside⟩
  · have starts : n * start.ctx.bitsPerXfer ≤ i * start.ctx.bitsPerXfer :=
      Nat.mul_le_mul_right _ (by omega)
    rw [dataBitshift] at inside
    omega

/-- Such a call leaves the premade sequence to the next one. -/
theorem WriteCall.templateKept (setUp : XfersSetUp start.ctx) (exact : ExactFields start.ctx n)
    (call : WriteCall start w w' id n) : TemplateKept start w' id := by
  obtain ⟨-, rest⟩ := placeXfers_exact setUp.fits (exactFields_iff.mp exact) (call.filled setUp)
  intro p below outside
  have fewer : n ≤ start.ctx.xfersPerBufblk := by
    have count := call.count
    have upper := call.xfers
    omega
  have noData : ¬DataBit start.ctx n p := fun ⟨i, upTo, inside⟩ =>
    outside ⟨i, upTo.trans_le fewer, inside⟩
  rw [rest p noData]
  exact call.template p below outside

/-! ### Calls with a constant payload -/

theorem dwordAt_replicate (payload : Byte) {offset : Nat} (inside : offset + 4 ≤ 256) :
    Lib.dwordAt (List.replicate 256 payload) offset =
      BitVec.ofNat 32 (payload.toNat * 0x01010101) := by
  have byte : ∀ q, q < 256 → Lib.byteAt (List.replicate 256 payload) q = payload := by
    intro q below
    rw [Lib.byteAt, List.getD_eq_getElem?_getD, List.getElem?_replicate, if_pos below,
      Option.getD_some]
  rw [Lib.dwordAt, Lib.le32, Lib.le16, Lib.le16, byte _ (by omega), byte _ (by omega),
    byte _ (by omega), byte _ (by omega)]
  congr 1
  omega

/-- All bits of the sequences in a constant buffer are the same. -/
theorem seqBit_constant {ctx : LsejtagCtx} (v : Bool) {i k : Nat}
    (cmd : ctx.cmd = List.replicate 256 (if v then 0xff else 0))
    (within : (i + 1) * (bit2dword ctx.drseqBitlen * 4) ≤ 256) (inside : k < ctx.drseqBitlen) :
    seqBit (drSequence ctx i) k = v := by
  have dword : k / 32 < bit2dword ctx.drseqBitlen := by
    rw [bit2dword]
    omega
  have product : i * (bit2dword ctx.drseqBitlen * 4) = 4 * (i * bit2dword ctx.drseqBitlen) := by
    rw [← Nat.mul_assoc, Nat.mul_comm 4]
  rw [Nat.succ_mul] at within
  have low : k % 32 < 32 := Nat.mod_lt _ (by decide)
  rw [seqBit, drSequence, cmd, List.getD_eq_getElem?_getD, List.getElem?_map,
    List.getElem?_range dword, Option.map_some, Option.getD_some,
    dwordAt_replicate _ (by omega)]
  generalize k % 32 = q at low
  revert q
  cases v <;> decide

/-- The premade sequence with ones for data. -/
theorem exists_onesForData (setUp : XfersSetUp start.ctx) : ∃ tdi : DwordBuf,
    (∀ p, p < start.ctx.xfersPerBufblk * start.ctx.bitsPerXfer →
      ¬DataBit start.ctx start.ctx.xfersPerBufblk p →
      bitAt tdi p = bitAt start.ctx.jtagbufA.tdiData p) ∧
    ∀ p, DataBit start.ctx start.ctx.xfersPerBufblk p → bitAt tdi p = true := by
  classical
  have room := setUp.bits
  refine ⟨Lib.ofBits 64 fun p => decide (DataBit start.ctx start.ctx.xfersPerBufblk p) ||
    bitAt start.ctx.jtagbufA.tdiData p, ?_, ?_⟩
  · intro p below outside
    rw [Lib.bitAt_ofBits _ (by omega), decide_eq_false outside, Bool.false_or]
  · intro p data
    have isData := decide_eq_true data
    obtain ⟨i, below, -, inside⟩ := data
    have ends : (i + 1) * start.ctx.bitsPerXfer ≤
        start.ctx.xfersPerBufblk * start.ctx.bitsPerXfer := Nat.mul_le_mul_right _ below
    have fits := setUp.fits
    rw [XferFits] at fits
    rw [dataBitshift] at inside
    rw [Nat.succ_mul] at ends
    rw [Lib.bitAt_ofBits _ (by omega), isData, Bool.true_or]

/-- The state before the last `n` transfers, with all of their payload buffered. -/
def World.refilled (start : World) (n : Nat) (payload : Byte) (tdi : DwordBuf) : World :=
  { start with ctx := { start.ctx with
      bufferedCmd := Vector.replicate 256 payload
      bufferedLength := n * (start.ctx.drseqDwordlen * 4)
      xfersLeft := n
      jtagbufA := { start.ctx.jtagbufA with tdiData := tdi } } }

theorem exists_writeCall (setUp : XfersSetUp start.ctx) (free : start.ctx.periphFree = true)
    (fewer : n ≤ start.ctx.xfersPerBufblk) (v : Bool) :
    ∃ w w', WriteCall start w w' .a n ∧
      (∀ i < n, ∀ k < start.ctx.drseqBitlen, seqBit (drSequence w'.ctx i) k = v) ∧
      ∀ p, DataBit start.ctx n p → bitAt w.ctx.jtagbufA.tdiData p = true := by
  obtain ⟨tdi, kept, ones⟩ := exists_onesForData setUp
  let payload : Byte := if v then 0xff else 0
  have refilledFree : (start.refilled n payload tdi).ctx.periphFree = true := free
  have bytes := (Nat.mul_le_mul_right _ fewer).trans setUp.bytes
  obtain ⟨r, w', returned, prepared, seqs⟩ := cmdimplContinueFastMemWrite_full
    (w := start.refilled n payload tdi) (n := n) refilledFree setUp.fits setUp.dwordlen
    (Nat.min_eq_right fewer) ((Nat.mul_le_mul_right _ fewer).trans setUp.bits) bytes rfl
  have isFree := LsejtagCtx.freeJtagbuf_of_periphFree refilledFree
  refine ⟨start.refilled n payload tdi, w', ⟨⟨rfl, rfl, rfl, rfl⟩, le_rfl, Nat.min_eq_right fewer,
    isFree, kept, ⟨r, returned⟩, prepared⟩, ?_, ?_⟩
  · intro i below k inside
    rw [seqs]
    exact seqBit_constant v Vector.toList_replicate
      ((Nat.mul_le_mul_right _ (show i + 1 ≤ n from below)).trans bytes) inside
  · intro p ⟨i, below, here⟩
    exact ones p ⟨i, below.trans_le fewer, here⟩

/-- For a fast write that was set up and blocks of `n` transfers: every call
    places every data bit and nothing else, in either buffer and over any older
    data, exactly if all leftover fields of the block are exact.  The setup
    returns: it does not where the area it clears leaves a buffer or its assertion
    fails. -/
theorem fast_write_places_data (setup : cmdimplFastMemWrite w₀ fastdata tdo = .ok (r, start))
    (fewer : n ≤ start.ctx.xfersPerBufblk) :
    (∀ w w' id, WriteCall start w w' id n → PlacesData start w' id n) ↔
      ExactFields start.ctx n := by
  obtain ⟨setUp, free⟩ := xfersSetUp setup
  constructor
  · intro places
    by_contra inexact
    obtain ⟨v, i, below, k, inside, wrong⟩ := placeXfers_wrong setUp.fits setUp.dwords
      (fun fields => inexact (exactFields_iff.mpr fields))
    obtain ⟨w, w', call, payload, old⟩ := exists_writeCall setUp free fewer v
    have placed := (places w w' .a call).data i below k inside
    have lost := wrong _ _ _ (payload i below) old (call.filled setUp)
    rw [payload i below k inside] at placed
    rw [dataBitshift, placed] at lost
    cases v <;> cases lost
  · intro exact w w' id call
    exact call.placesData setUp exact

end calls

/-- A fast write of one 32-bit word to a single chained core, without FASTDATA
    and ready to be executed. -/
def singleCore : World :=
  ⟨{ lsejtagInitCtx with
      bufferedCmd := Lib.overlay (Vector.replicate 256 0) 0
        [0x01, 0x34, 0x01, 0x00, 0x01, 0x00, 0x00, 0x00, 0x00, 0x00] (by decide)
      bufferedLength := 10
      cmdBufState := .cbsExecute }, [], []⟩

/-- Its sequence is one dword. -/
theorem fast_write_places_data_single : ∃ start, start.ctx.xfersPerBufblk = 1 ∧
    start.ctx.drseqBitlen = 32 ∧
    ∀ w w' id, WriteCall start w w' id 1 → PlacesData start w' id 1 := by
  have ran : (cmdimplFastMemWrite singleCore false fun _ => false).toOption.any
      (fun start => decide (start.2.ctx.xfersPerBufblk = 1 ∧ start.2.ctx.drseqBitlen = 32)) =
        true := by
    decide +kernel
  obtain ⟨⟨r, start⟩, setup, holds⟩ := (Option.any_eq_true _ _).mp ran
  obtain ⟨one, bitlen⟩ := of_decide_eq_true holds
  have returned := Lib.eq_ok_of_toOption setup
  refine ⟨start, one, bitlen, (fast_write_places_data returned (n := 1) one.ge).mpr (.inl ?_)⟩
  rw [show start.ctx.drseqBitlen = 32 from bitlen]

/-- With FASTDATA on a single core the 33rd bit lands at bit 4 of dword 1 of the
    block, but `replace_bits` clears bit 1 of it, which is data bit 29. -/
theorem fastdata_loses_bit : ∃ s, mainLoop.Reachable s ∧ s.pc = .runJtag ∧
    s.world.ctx.preparedBufblk = some .a ∧ s.world.ctx.jtagbufA.tdiBits = 39 ∧
    dataBitoffset s.world.ctx = 4 ∧ seqBit (drSequence s.world.ctx 0) 29 = true ∧
    bitAt s.world.ctx.jtagbufA.tdiData (4 + 29) = false := by
  have ran : (mainLoop.run Lib.Machine.anyAction .start
      ([.usbOut ([0x01, 0x30, 0x01, 0x00, 0x01, 0x00, 0x00, 0x00, 0x00, 0x00] ++
        List.replicate 8 0xff)] ++ polls 64 5)).any (fun s =>
          decide (s.pc = .runJtag ∧ s.world.ctx.preparedBufblk = some .a ∧
            s.world.ctx.jtagbufA.tdiBits = 39 ∧ dataBitoffset s.world.ctx = 4 ∧
            seqBit (drSequence s.world.ctx 0) 29 = true ∧
            bitAt s.world.ctx.jtagbufA.tdiData (4 + 29) = false)) = true := by
    decide +kernel
  obtain ⟨s, reach, holds⟩ := Lib.Machine.exists_reach _ rfl ran
  exact ⟨s, reach, of_decide_eq_true holds⟩

end LoongsonEjtag
