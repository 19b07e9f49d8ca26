import LoongsonEjtag.BitWriters

/-! # Which writes are exact

The four writers of `cmdimpl.c` on buffers of any size, at every offset.

* `ReplacesExactly`, `MasksHarmless` — `replace_bits` updates its field and
  nothing else unless its masks, which are those of `replaceKeeps`, touch a bit
  that matters.
* `appendBitsShifting`, `appendDwordShifting` — the append writers with every
  shift of the source checked.
* `appendAll_spells` — consecutive appends into cleared bits give the
  concatenation of the fields.

`append_bits` and `replace_bits` also access the dword behind a field that ends
with its dword, so the last field of a full buffer leaves it.
-/

namespace LoongsonEjtag

open Lib (Dword bitAt Adds Puts Spells ofBits bitAt_ofBits lowBits FailsOnly ok_bind
  bind_eq_ok)

variable {n : Nat} {buf buf' : DwordBuf n}

/-! ## `replace_bits` -/

/-- The `bits` bits from `bitshift` on become those of `field`, and no other bit
    changes. -/
def ReplacesExactly (buf : DwordBuf n) (bitshift : Nat) (field : Dword) (bits : Nat) : Prop :=
  ∃ buf', replaceBits buf bitshift field bits = .ok buf' ∧ Puts bitshift bits field buf buf'

/-- What the masks let through into the field is set in the field as well, and
    what they cut off outside it was clear. -/
structure MasksHarmless (buf : DwordBuf n) (bitshift : Nat) (field : Dword) (bits : Nat) :
    Prop where
  kept : ∀ k, k < bits → replaceKeeps bitshift bits (bitshift + k) = true →
    bitAt buf (bitshift + k) = true → field.getLsbD k = true
  cleared : ∀ p, p < bitshift ∨ bitshift + bits ≤ p → bitAt buf p = true →
    replaceKeeps bitshift bits p = true

theorem MasksHarmless.puts {bitshift bits : Nat} {field : Dword}
    (harmless : MasksHarmless buf bitshift field bits)
    (replaced : replaceBits buf bitshift field bits = .ok buf') :
    Puts bitshift bits field buf buf' := by
  intro p
  rw [replaceBits_bits replaced]
  by_cases inside : bitshift ≤ p ∧ p < bitshift + bits
  · have kept := harmless.kept (p - bitshift) (by omega)
    rw [Nat.add_sub_cancel' inside.1] at kept
    rw [if_pos inside, decide_eq_true inside, Bool.true_and]
    cases held : bitAt buf p && replaceKeeps bitshift bits p with
    | false => rfl
    | true =>
      rw [Bool.and_eq_true] at held
      exact (kept held.2 held.1).symm
  · have cleared := harmless.cleared p (by omega)
    rw [if_neg inside, decide_eq_false inside, Bool.false_and, Bool.or_false]
    cases held : bitAt buf p with
    | false => rfl
    | true => exact cleared held

theorem MasksHarmless.of_puts {bitshift bits : Nat} {field : Dword}
    (replaced : replaceBits buf bitshift field bits = .ok buf')
    (puts : Puts bitshift bits field buf buf') : MasksHarmless buf bitshift field bits where
  kept k below keeps held := by
    have inside : bitshift ≤ bitshift + k ∧ bitshift + k < bitshift + bits := by omega
    have wrote := puts (bitshift + k)
    rw [replaceBits_bits replaced, if_pos inside, keeps, held, Nat.add_sub_cancel_left] at wrote
    exact wrote.symm
  cleared p outside held := by
    have notInside : ¬(bitshift ≤ p ∧ p < bitshift + bits) := by omega
    have wrote := puts p
    rw [replaceBits_bits replaced, if_neg notInside, decide_eq_false notInside, held] at wrote
    simpa using wrote

theorem replacesExactly_iff (buf : DwordBuf n) (field : Dword) {bitshift bits : Nat}
    (some : 1 ≤ bits) (few : bits ≤ 31) :
    ReplacesExactly buf bitshift field bits ↔
      bitshift + bits < 32 * n ∧ MasksHarmless buf bitshift field bits := by
  constructor
  · rintro ⟨buf', replaced, puts⟩
    exact ⟨replaceBits_inside replaced, .of_puts replaced puts⟩
  · rintro ⟨inside, harmless⟩
    obtain ⟨buf', replaced⟩ := replaceBits_total buf field some (by omega) inside
    exact ⟨buf', replaced, harmless.puts replaced⟩

/-- A buffer with all bits set and a field without any tell every wrong mask. -/
theorem width_of_masksHarmless {bitshift bits : Nat} (some : 1 ≤ bits) (few : bits ≤ 31)
    (inside : bitshift + bits ≤ 32 * n)
    (harmless : MasksHarmless (ofBits n fun _ => true) bitshift 0 bits) :
    bitshift % 32 = bits := by
  by_contra width
  obtain ⟨k, below, keeps⟩ | ⟨behind, cuts⟩ :=
    replaceKeeps_wrong bitshift bits some (by omega) width
  · have held : bitAt (ofBits n fun _ => true) (bitshift + k) = true :=
      bitAt_ofBits _ (by omega)
    have set := harmless.kept k below keeps held
    simp at set
  · have held : bitAt (ofBits n fun _ => true) (bitshift - 1) = true :=
      bitAt_ofBits _ (by omega)
    have keeps := harmless.cleared (bitshift - 1) (by omega) held
    rw [cuts] at keeps
    cases keeps

/-- For given contents the masks have to be harmless; whatever was stored before,
    the offset in the dword has to be the width of the field. -/
theorem replaceBits_exact_iff (bitshift bits : Nat) (some : 1 ≤ bits) (few : bits ≤ 31)
    (inside : bitshift + bits ≤ 32 * n) :
    (∀ (buf : DwordBuf n) (field : Dword), ReplacesExactly buf bitshift field bits ↔
      bitshift + bits < 32 * n ∧ MasksHarmless buf bitshift field bits) ∧
    ((∀ (buf : DwordBuf n) (field : Dword), ReplacesExactly buf bitshift field bits) ↔
      bitshift + bits < 32 * n ∧ bitshift % 32 = bits) := by
  refine ⟨fun buf field => replacesExactly_iff buf field some few, ?_, ?_⟩
  · intro exactly
    obtain ⟨before, harmless⟩ :=
      (replacesExactly_iff (ofBits n fun _ => true) 0 some few).mp (exactly _ _)
    exact ⟨before, width_of_masksHarmless some few inside harmless⟩
  · rintro ⟨before, width⟩ buf field
    obtain ⟨buf', replaced⟩ := replaceBits_total buf field some (by omega) before
    exact ⟨buf', replaced, replaceBits_puts width replaced⟩

/-- An 8-bit field at bit 8 of two dwords. -/
theorem replaceBits_exact_at_width :
    (1 ≤ 8 ∧ 8 ≤ 31 ∧ 8 + 8 ≤ 32 * 2) ∧
      ((∀ (buf : DwordBuf 2) (field : Dword), ReplacesExactly buf 8 field 8 ↔
          8 + 8 < 32 * 2 ∧ MasksHarmless buf 8 field 8) ∧
        ((∀ (buf : DwordBuf 2) (field : Dword), ReplacesExactly buf 8 field 8) ↔
          8 + 8 < 32 * 2 ∧ 8 % 32 = 8)) :=
  ⟨by decide, replaceBits_exact_iff 8 8 (by decide) (by decide) (by decide)⟩

/-- Replacing the lowest byte of a dword of ones by zeros clears the byte above
    it instead. -/
theorem replaceBits_clears_next_byte :
    replaceBits #v[0xFFFFFFFF, 0] 0 0 8 = .ok #v[0xFFFF00FF, 0] ∧
      ¬ReplacesExactly #v[0xFFFFFFFF, 0] 0 0 8 := by
  refine ⟨by decide, ?_⟩
  rintro ⟨buf', replaced, puts⟩
  have result : replaceBits #v[0xFFFFFFFF, 0] 0 0 8 = .ok #v[0xFFFF00FF, 0] := by decide
  rw [result] at replaced
  cases replaced
  exact absurd (puts 0) (by decide)

/-! ## Shifts

In C a shift of a 32-bit value by 32 or more is undefined, in Lean it is not: the
shifts of the append writers once more, each with its count checked. -/

/-- `value << count`. -/
def shiftLeft (value : Dword) (count : Nat) : Except Halt Dword :=
  if count < 32 then .ok (value <<< count) else .error .badShift

/-- `value >> count`. -/
def shiftRight (value : Dword) (count : Nat) : Except Halt Dword :=
  if count < 32 then .ok (value >>> count) else .error .badShift

theorem shiftLeft_ok {value : Dword} {count : Nat} (few : count < 32) :
    shiftLeft value count = .ok (value <<< count) := if_pos few

theorem shiftRight_ok {value : Dword} {count : Nat} (few : count < 32) :
    shiftRight value count = .ok (value >>> count) := if_pos few

/-- `append_bits`, shift by shift. -/
def appendBitsShifting (destBuf : DwordBuf n) (bitshift : Nat) (field : Dword) (bits : Nat) :
    Except Halt (DwordBuf n) := do
  let dwordshift := bitshift / 32
  let localBitshift := bitshift % 32
  let mask ← shiftLeft 0xFFFFFFFF#32 bits
  let fieldMasked := field &&& ~~~mask
  let low ← shiftLeft fieldMasked localBitshift
  if localBitshift < 32 - bits then
    destBuf.update dwordshift (· ||| low)
  else do
    let destBuf ← destBuf.update dwordshift (· ||| low)
    let high ← shiftRight fieldMasked (32 - localBitshift)
    destBuf.update (dwordshift + 1) (· ||| high)

/-- `append_dword`, shift by shift. -/
def appendDwordShifting (destBuf : DwordBuf n) (bitshift : Nat) (field : Dword) :
    Except Halt (DwordBuf n) :=
  let dwordshift := bitshift / 32
  let localBitshift := bitshift % 32
  if localBitshift = 0 then destBuf.write dwordshift field
  else do
    let low ← shiftLeft field localBitshift
    let destBuf ← destBuf.update dwordshift (· ||| low)
    let high ← shiftRight field (32 - localBitshift)
    destBuf.update (dwordshift + 1) (· ||| high)

/-- Only the width of the field can be too much: a second dword is there only
    behind a positive offset. -/
theorem appendBitsShifting_eq (buf : DwordBuf n) (bitshift : Nat) (field : Dword) (bits : Nat) :
    appendBitsShifting buf bitshift field bits = appendBits buf bitshift field bits := by
  simp only [appendBitsShifting, appendBits]
  by_cases few : bits < 32
  · have low : bitshift % 32 < 32 := Nat.mod_lt _ (by decide)
    rw [shiftLeft_ok few, ok_bind, shiftLeft_ok low, ok_bind, if_pos few]
    by_cases oneDword : bitshift % 32 < 32 - bits
    · rw [if_pos oneDword, if_pos oneDword]
      rfl
    · have behind : 32 - bitshift % 32 < 32 := by omega
      rw [if_neg oneDword, if_neg oneDword, shiftRight_ok behind]
      rfl
  · rw [if_neg few, shiftLeft, if_neg few]
    rfl

theorem appendDwordShifting_eq (buf : DwordBuf n) (bitshift : Nat) (field : Dword) :
    appendDwordShifting buf bitshift field = appendDword buf bitshift field := by
  simp only [appendDwordShifting, appendDword]
  by_cases aligned : bitshift % 32 = 0
  · rw [if_pos aligned, if_pos aligned]
  · have low : bitshift % 32 < 32 := Nat.mod_lt _ (by decide)
    have behind : 32 - bitshift % 32 < 32 := by omega
    rw [if_neg aligned, if_neg aligned, shiftLeft_ok low, ok_bind, shiftRight_ok behind]
    rfl

theorem DwordBuf.write_leaves (buf : DwordBuf n) (i : Nat) (value : Dword) :
    FailsOnly (· = Halt.outOfBounds) (buf.write i value) := by
  rw [DwordBuf.write]
  split
  · exact .ok _
  · exact .error rfl

theorem DwordBuf.update_leaves (buf : DwordBuf n) (i : Nat) (f : Dword → Dword) :
    FailsOnly (· = Halt.outOfBounds) (buf.update i f) := by
  refine FailsOnly.bind ?_ fun _ _ => buf.write_leaves i _
  rw [DwordBuf.read]
  split
  · exact .ok _
  · exact .error rfl

theorem appendBits_leaves (buf : DwordBuf n) (bitshift : Nat) (field : Dword) {bits : Nat}
    (few : bits ≤ 31) :
    FailsOnly (· = Halt.outOfBounds) (appendBits buf bitshift field bits) := by
  simp only [appendBits, if_pos (show bits < 32 by omega)]
  split
  · exact buf.update_leaves _ _
  · exact (buf.update_leaves _ _).bind fun after _ => after.update_leaves _ _

theorem appendDword_leaves (buf : DwordBuf n) (bitshift : Nat) (field : Dword) :
    FailsOnly (· = Halt.outOfBounds) (appendDword buf bitshift field) := by
  simp only [appendDword]
  split
  · exact buf.write_leaves _ _
  · exact (buf.update_leaves _ _).bind fun after _ => after.update_leaves _ _

/-! ## One append -/

/-- The bits of a window are clear. -/
def WindowClear (buf : DwordBuf n) (bitshift bits : Nat) : Prop :=
  ∀ p, bitshift ≤ p → p < bitshift + bits → bitAt buf p = false

theorem appendBits_exact_iff {bitshift bits : Nat} (field : Dword) (few : bits ≤ 31)
    (clear : WindowClear buf bitshift bits) :
    (∃ buf', appendBits buf bitshift field bits = .ok buf' ∧
      Puts bitshift bits field buf buf') ↔ bitshift + bits < 32 * n := by
  constructor
  · rintro ⟨buf', appended, -⟩
    exact appendBits_inside appended
  · intro inside
    obtain ⟨buf', appended⟩ := appendBits_total buf field bitshift (by omega) inside
    exact ⟨buf', appended, (appendBits_adds appended).puts clear⟩

theorem appendDword_exact {bitshift : Nat} (field : Dword) (inside : bitshift + 32 ≤ 32 * n)
    (clear : WindowClear buf bitshift 32) :
    ∃ buf', appendDword buf bitshift field = .ok buf' ∧ Puts bitshift 32 field buf buf' := by
  obtain ⟨buf', appended⟩ := appendDword_total buf field bitshift inside
  exact ⟨buf', appended, appendDword_puts appended clear⟩

theorem replaceDword_exact (buf : DwordBuf n) {bitshift : Nat} (field : Dword)
    (inside : bitshift + 32 ≤ 32 * n) :
    ∃ buf', replaceDword buf bitshift field = .ok buf' ∧ Puts bitshift 32 field buf buf' := by
  obtain ⟨buf', replaced⟩ := replaceDword_total buf field inside
  exact ⟨buf', replaced, replaceDword_puts replaced⟩

/-! ## A sequence of appends -/

/-- A field on its way into a buffer. -/
inductive Append where
  | bits (field : Dword) (count : Nat)
  | dword (field : Dword)
deriving DecidableEq, Repr

namespace Append

/-- The widths `append_bits` is for. -/
def Sized : Append → Prop
  | .bits _ count => 1 ≤ count ∧ count ≤ 31
  | .dword _ => True

def string : Append → List Bool
  | .bits field count => lowBits field count
  | .dword field => lowBits field 32

def length : Append → Nat
  | .bits _ count => count
  | .dword _ => 32

@[simp] theorem length_string (a : Append) : a.string.length = a.length := by
  cases a <;> simp [string, length]

def run (buf : DwordBuf n) (bitshift : Nat) : Append → Except Halt (DwordBuf n)
  | .bits field count => appendBits buf bitshift field count
  | .dword field => appendDword buf bitshift field

/-- `append_bits` needs a dword behind its field. -/
def Inside (n bitshift : Nat) : Append → Prop
  | .bits _ count => bitshift + count < 32 * n
  | .dword _ => bitshift + 32 ≤ 32 * n

end Append

/-- `bitshift += append…(buf, bitshift, …)` for one field after the other. -/
def appendAll (buf : DwordBuf n) (bitshift : Nat) : List Append → Except Halt (DwordBuf n)
  | [] => .ok buf
  | a :: rest => do
    let buf ← a.run buf bitshift
    appendAll buf (bitshift + a.length) rest

/-- The bits of all fields, one after the other. -/
def concatenation (fields : List Append) : List Bool := fields.flatMap Append.string

theorem length_concatenation_cons (a : Append) (rest : List Append) :
    (concatenation (a :: rest)).length = a.length + (concatenation rest).length := by
  simp [concatenation]

/-- Behind what was appended everything is clear, so the next field is put there. -/
theorem Append.run_spells {done : List Bool} (a : Append)
    (spells : Spells (32 * n) buf done) (ran : a.run buf done.length = .ok buf') :
    Spells (32 * n) buf' (done ++ a.string) := by
  cases a with
  | bits field count => exact spells.adds (appendBits_adds ran)
  | dword field =>
    have inside := appendDword_inside ran
    have clear : WindowClear buf done.length 32 := by
      intro p above below
      rw [spells p (by omega), List.getD_eq_default _ _ above]
    exact spells.adds ((appendDword_puts ran clear).adds clear)

theorem Append.run_iff (buf : DwordBuf n) (bitshift : Nat) {a : Append} (sized : a.Sized) :
    (∃ buf', a.run buf bitshift = .ok buf') ↔ a.Inside n bitshift := by
  constructor
  · rintro ⟨buf', ran⟩
    cases a with
    | bits field count => exact appendBits_inside ran
    | dword field => exact appendDword_inside ran
  · intro inside
    cases a with
    | bits field count =>
      have few : count ≤ 31 := sized.2
      exact appendBits_total buf field bitshift (by omega) inside
    | dword field => exact appendDword_total buf field bitshift inside

/-- The last bit of the buffer is not that of an `append_bits` field. -/
def LeavesRoom (n bitshift : Nat) (fields : List Append) : Prop :=
  ∀ field count, fields.getLast? = some (.bits field count) →
    bitshift + (concatenation fields).length < 32 * n

theorem appendAll_spells {done : List Bool} (fields : List Append)
    (spells : Spells (32 * n) buf done) (ran : appendAll buf done.length fields = .ok buf') :
    Spells (32 * n) buf' (done ++ concatenation fields) := by
  induction fields generalizing buf done with
  | nil =>
    cases ran
    simpa [concatenation] using spells
  | cons a rest ih =>
    obtain ⟨next, first, others⟩ := bind_eq_ok.mp ran
    have nextSpells := a.run_spells spells first
    rw [← a.length_string, ← List.length_append] at others
    have restSpells := ih nextSpells others
    rwa [List.append_assoc] at restSpells

/-- Only the last field can end with the buffer. -/
theorem appendAll_iff (buf : DwordBuf n) {bitshift : Nat} {fields : List Append}
    (sized : ∀ a ∈ fields, a.Sized)
    (inside : bitshift + (concatenation fields).length ≤ 32 * n) :
    (∃ buf', appendAll buf bitshift fields = .ok buf') ↔ LeavesRoom n bitshift fields := by
  induction fields generalizing buf bitshift with
  | nil => simp [appendAll, LeavesRoom]
  | cons a rest ih =>
    have aSized : a.Sized := sized a List.mem_cons_self
    have restSized : ∀ b ∈ rest, b.Sized := fun b member => sized b (List.mem_cons_of_mem a member)
    rw [length_concatenation_cons] at inside
    have restIff : ∀ buf : DwordBuf n,
        (∃ buf', appendAll buf (bitshift + a.length) rest = .ok buf') ↔
          LeavesRoom n (bitshift + a.length) rest := fun buf => ih buf restSized (by omega)
    cases rest with
    | nil =>
      have alone : appendAll buf bitshift [a] = a.run buf bitshift := bind_pure _
      rw [alone, a.run_iff buf bitshift aSized]
      cases a with
      | bits field count => simp [LeavesRoom, Append.Inside, concatenation, Append.string]
      | dword field =>
        simpa [LeavesRoom, Append.Inside, concatenation, Append.length] using inside
    | cons b others =>
      -- The field behind `a` has at least one bit.
      have more : 1 ≤ b.length := by
        have bSized := restSized b List.mem_cons_self
        cases b with
        | bits field count => exact bSized.1
        | dword field => simp [Append.length]
      rw [length_concatenation_cons] at inside
      have aInside : a.Inside n bitshift := by
        cases a with
        | bits field count =>
          rw [Append.length] at inside
          rw [Append.Inside]
          omega
        | dword field =>
          rw [Append.length] at inside
          rw [Append.Inside]
          omega
      obtain ⟨next, first⟩ := (a.run_iff buf bitshift aSized).mpr aInside
      have sameLast : LeavesRoom n bitshift (a :: b :: others) ↔
          LeavesRoom n (bitshift + a.length) (b :: others) := by
        rw [LeavesRoom, LeavesRoom, List.getLast?_cons_cons, length_concatenation_cons a,
          Nat.add_assoc]
      rw [sameLast, ← restIff next, appendAll, first]
      rfl

/-- `replace_dword` and `append_dword` are exact at every offset; `append_bits` is
    unless its field ends with the buffer, and so is a sequence of appends unless
    it ends so. -/
theorem writers_exact_iff (n : Nat) :
    (∀ (buf : DwordBuf n) (bitshift : Nat) (field : Dword), bitshift + 32 ≤ 32 * n →
      ∃ buf', replaceDword buf bitshift field = .ok buf' ∧ Puts bitshift 32 field buf buf') ∧
    (∀ (buf : DwordBuf n) (bitshift : Nat) (field : Dword), bitshift + 32 ≤ 32 * n →
      WindowClear buf bitshift 32 →
      ∃ buf', appendDword buf bitshift field = .ok buf' ∧ Puts bitshift 32 field buf buf') ∧
    (∀ (buf : DwordBuf n) (bitshift : Nat) (field : Dword) (bits : Nat), 1 ≤ bits → bits ≤ 31 →
      bitshift + bits ≤ 32 * n → WindowClear buf bitshift bits →
      ((∃ buf', appendBits buf bitshift field bits = .ok buf' ∧
        Puts bitshift bits field buf buf') ↔ bitshift + bits < 32 * n)) ∧
    (∀ (buf : DwordBuf n) (bitshift : Nat) (field : Dword) (bits : Nat), bits ≤ 31 →
      appendBitsShifting buf bitshift field bits = appendBits buf bitshift field bits ∧
      appendBits buf bitshift field bits ≠ .error .badShift ∧
      appendDwordShifting buf bitshift field = appendDword buf bitshift field ∧
      appendDword buf bitshift field ≠ .error .badShift) ∧
    (∀ (buf : DwordBuf n) (fields : List Append), WindowClear buf 0 (32 * n) →
      (∀ a ∈ fields, a.Sized) → (concatenation fields).length ≤ 32 * n →
      ((∃ buf', appendAll buf 0 fields = .ok buf' ∧
        Spells (32 * n) buf' (concatenation fields)) ↔ LeavesRoom n 0 fields)) := by
  refine ⟨?_, ?_, ?_, ?_, ?_⟩
  · intro buf bitshift field inside
    exact replaceDword_exact buf field inside
  · intro buf bitshift field inside clear
    exact appendDword_exact field inside clear
  · intro buf bitshift field bits _ few _ clear
    exact appendBits_exact_iff field few clear
  · intro buf bitshift field bits few
    refine ⟨appendBitsShifting_eq _ _ _ _, ?_, appendDwordShifting_eq _ _ _, ?_⟩
    · intro stopped
      cases appendBits_leaves buf bitshift field few _ stopped
    · intro stopped
      cases appendDword_leaves buf bitshift field _ stopped
  · intro buf fields clear sized inside
    rw [← appendAll_iff buf sized (by omega)]
    constructor
    · rintro ⟨buf', ran, -⟩
      exact ⟨buf', ran⟩
    · rintro ⟨buf', ran⟩
      have empty : Spells (32 * n) buf [] := by
        intro p below
        rw [clear p (Nat.zero_le p) (by omega), List.getD_nil]
      exact ⟨buf', ran, by simpa using appendAll_spells fields empty ran⟩

/-- SKIP for core 111 in the second IR scan of a fast write without FASTDATA to 123
    cores with an IR length of 8, which starts at bit 1152. -/
theorem appendBits_leaves_buffer :
    appendBits (Vector.replicate 64 0) (1152 + 8 * 111) 0xff 8 = .error .outOfBounds ∧
      ¬∃ buf', appendBits (Vector.replicate 64 0) (1152 + 8 * 111) 0xff 8 = .ok buf' ∧
        Puts (1152 + 8 * 111) 8 0xff (Vector.replicate 64 0) buf' := by
  have stops : appendBits (Vector.replicate 64 0) (1152 + 8 * 111) 0xff 8 =
      .error .outOfBounds := by
    decide +kernel
  refine ⟨stops, ?_⟩
  rintro ⟨buf', appended, -⟩
  rw [stops] at appended
  cases appended

end LoongsonEjtag
