import LoongsonEjtag.Lib.Tap

/-! # A target behind a TAP controller

What a JTAG port is for: a scan through a register shifts out what the target
captures and shifts in what it updates.

* `Target` — capture, update and reset, of any state.
* `TargetPort` — the target with its controller and the shift path in between; the path is
  as long as what was captured, whatever that is.
* `TargetPort.levels` — the level of TDO at each rising edge, where the port drives it.
* `run_scanTms`, `levels_scanTms` — one scan through a register, and what it reads.
* `run_resetTms` — enough ones reset the target.
-/

namespace LoongsonEjtag.Lib

/-- What a target does with the registers of its port. -/
structure Target (σ : Type*) where
  capture : TapRegister → σ → List Bool
  update : TapRegister → σ → List Bool → σ
  reset : σ → σ
  reset_reset : ∀ s, reset (reset s) = reset s

/-- The first bit of `path` is the next one out. -/
structure TargetPort (σ : Type*) where
  state : TapState
  path : List Bool
  core : σ

namespace TapState

def shifts : TapState → Bool
  | .shiftDr | .shiftIr => true
  | _ => false

end TapState

namespace TargetPort

variable {σ : Type*} (T : Target σ)

/-- A rising edge with the levels of TMS and TDI. -/
def clock (p : TargetPort σ) (pins : Bool × Bool) : TargetPort σ :=
  match p.state with
  | .testLogicReset => { p with state := p.state.next pins.1, core := T.reset p.core }
  | .captureDr => { p with state := p.state.next pins.1, path := T.capture .data p.core }
  | .captureIr => { p with state := p.state.next pins.1, path := T.capture .instruction p.core }
  | .shiftDr | .shiftIr =>
    { p with state := p.state.next pins.1, path := (p.path ++ [pins.2]).tail }
  | .updateDr =>
    { p with state := p.state.next pins.1, core := T.update .data p.core p.path }
  | .updateIr =>
    { p with state := p.state.next pins.1, core := T.update .instruction p.core p.path }
  | _ => { p with state := p.state.next pins.1 }

def run (p : TargetPort σ) (pins : List (Bool × Bool)) : TargetPort σ := pins.foldl (clock T) p

/-- TDO at a rising edge; no one drives it outside the shift states. -/
def level (p : TargetPort σ) (tdi : Bool) : Option Bool :=
  if p.state.shifts then some (p.path.headD tdi) else none

def levels : TargetPort σ → List (Bool × Bool) → List (Option Bool)
  | _, [] => []
  | p, pins :: rest => p.level pins.2 :: levels (p.clock T pins) rest

/-- `tdo` has the level of the port wherever there is one. -/
def Drives (p : TargetPort σ) (pins : List (Bool × Bool)) (tdo : Nat → Bool) : Prop :=
  ∀ k bit, (p.levels T pins)[k]? = some (some bit) → tdo k = bit

variable {T} {p : TargetPort σ} {core : σ} {path : List Bool}

theorem run_append (p : TargetPort σ) (first second : List (Bool × Bool)) :
    p.run T (first ++ second) = (p.run T first).run T second := by
  rw [run, run, run, List.foldl_append]

theorem levels_append (p : TargetPort σ) (first second : List (Bool × Bool)) :
    p.levels T (first ++ second) = p.levels T first ++ (p.run T first).levels T second := by
  induction first generalizing p with
  | nil => rfl
  | cons pins rest ih => rw [List.cons_append, levels, levels, ih, List.cons_append, run, run,
      List.foldl_cons]

theorem length_levels (p : TargetPort σ) (pins : List (Bool × Bool)) :
    (p.levels T pins).length = pins.length := by
  induction pins generalizing p with
  | nil => rfl
  | cons pin rest ih => rw [levels, List.length_cons, List.length_cons, ih]

theorem run_state (p : TargetPort σ) (pins : List (Bool × Bool)) :
    (p.run T pins).state = p.state.run (pins.map Prod.fst) := by
  induction pins generalizing p with
  | nil => rfl
  | cons pin rest ih =>
    have next : (p.clock T pin).state = p.state.next pin.1 := by
      rw [clock]
      split <;> rfl
    rw [run, List.foldl_cons, ← run, ih, next]
    rfl

theorem drives_iff {pins : List (Bool × Bool)} {tdo : Nat → Bool} : p.Drives T pins tdo ↔
    ∀ k ∈ List.range pins.length, ∀ bit ∈ ((p.levels T pins)[k]?).join, tdo k = bit := by
  constructor
  · intro drives k _ bit level
    exact drives k bit (Option.join_eq_some_iff.mp level)
  · intro all k bit level
    have below : k < (p.levels T pins).length := (List.getElem?_eq_some_iff.mp level).1
    rw [length_levels] at below
    exact all k (List.mem_range.mpr below) bit (Option.join_eq_some_iff.mpr level)

instance (T : Target σ) (p : TargetPort σ) (pins : List (Bool × Bool)) (tdo : Nat → Bool) :
    Decidable (p.Drives T pins tdo) := decidable_of_iff _ drives_iff.symm

/-! ## Shifting -/

theorem clock_shift (reg : TapRegister) (bit : Bool) :
    (⟨reg.shift, path, core⟩ : TargetPort σ).clock T (false, bit) =
      ⟨reg.shift, (path ++ [bit]).tail, core⟩ := by
  cases reg <;> rfl

theorem level_shift (reg : TapRegister) (bit : Bool) :
    (⟨reg.shift, path, core⟩ : TargetPort σ).level bit = some (path.headD bit) := by
  cases reg <;> rfl

/-- What was in the path comes out first, and then what went in. -/
theorem run_shift (reg : TapRegister) (bits : List Bool) {count : Nat}
    (length : bits.length = count) :
    (⟨reg.shift, path, core⟩ : TargetPort σ).run T ((zeros count).zip bits) =
      ⟨reg.shift, (path ++ bits).drop count, core⟩ := by
  subst length
  induction bits generalizing path with
  | nil => simp [run]
  | cons bit rest ih =>
    rw [List.length_cons, zeros, List.replicate_succ, List.zip_cons_cons, run, List.foldl_cons,
      clock_shift, ← run, ← zeros, ih]
    cases path with
    | nil => rfl
    | cons first others =>
      rw [List.cons_append, List.tail_cons, List.append_assoc, List.singleton_append,
        List.cons_append, List.drop_succ_cons]

theorem levels_shift (reg : TapRegister) (bits : List Bool) {count : Nat}
    (length : bits.length = count) :
    (⟨reg.shift, path, core⟩ : TargetPort σ).levels T ((zeros count).zip bits) =
      ((path ++ bits).take count).map some := by
  subst length
  induction bits generalizing path with
  | nil => simp [levels]
  | cons bit rest ih =>
    rw [List.length_cons, zeros, List.replicate_succ, List.zip_cons_cons, levels, clock_shift,
      level_shift, ← zeros, ih]
    cases path with
    | nil => rfl
    | cons first others =>
      rw [List.cons_append, List.tail_cons, List.append_assoc, List.singleton_append,
        List.cons_append, List.take_succ_cons, List.map_cons, List.headD_cons]

end TargetPort

/-! ## Scans -/

/-- TMS from Run-Test/Idle into the shift state. -/
def TapRegister.enter : TapRegister → List Bool
  | .instruction => [false, true, true, false, false]
  | .data => [false, true, false, false]

/-- TMS of a scan of `len` bits that ends in Run-Test/Idle. -/
def scanTms (reg : TapRegister) (len : Nat) : List Bool :=
  reg.enter ++ (zeros (len - 1) ++ [true, true, false])

namespace Target

variable {σ : Type*} (T : Target σ)

/-- What a scan reads: the front of the captured bits, and of its own bits where it is
    longer than the register. -/
def scanOut (reg : TapRegister) (core : σ) (bits : List Bool) : List Bool :=
  (T.capture reg core ++ bits).take bits.length

/-- What a scan does: the rest is what the target is updated with. -/
def scanned (reg : TapRegister) (core : σ) (bits : List Bool) : σ :=
  T.update reg core ((T.capture reg core ++ bits).drop bits.length)

variable {T}

@[simp] theorem length_scanOut (reg : TapRegister) (core : σ) (bits : List Bool) :
    (T.scanOut reg core bits).length = bits.length := by
  simp [scanOut]

end Target

namespace TargetPort

variable {σ : Type*} {T : Target σ} {p : TargetPort σ} {core : σ} {path : List Bool}
  {reg : TapRegister} {lead bits trail : List Bool}

theorem run_enter (length : lead.length = reg.enter.length) :
    (⟨.runTestIdle, path, core⟩ : TargetPort σ).run T (reg.enter.zip lead) =
      ⟨reg.shift, T.capture reg core, core⟩ := by
  cases reg with
  | instruction =>
    match lead, length with
    | [_, _, _, _, _], _ => rfl
  | data =>
    match lead, length with
    | [_, _, _, _], _ => rfl

theorem levels_enter (length : lead.length = reg.enter.length) :
    (⟨.runTestIdle, path, core⟩ : TargetPort σ).levels T (reg.enter.zip lead) =
      List.replicate reg.enter.length none := by
  cases reg with
  | instruction =>
    match lead, length with
    | [_, _, _, _, _], _ => rfl
  | data =>
    match lead, length with
    | [_, _, _, _], _ => rfl

theorem run_leave (last a b : Bool) :
    (⟨reg.shift, path, core⟩ : TargetPort σ).run T ([true, true, false].zip [last, a, b]) =
      ⟨.runTestIdle, (path ++ [last]).tail, T.update reg core (path ++ [last]).tail⟩ := by
  cases reg <;> rfl

theorem levels_leave (last a b : Bool) :
    (⟨reg.shift, path, core⟩ : TargetPort σ).levels T ([true, true, false].zip [last, a, b]) =
      [some (path.headD last), none, none] := by
  cases reg <;> rfl

/-- The pins of a scan, cut where the controller enters and leaves the shift state. -/
theorem scanTms_zip {front : List Bool} {last a b : Bool}
    (length : lead.length = reg.enter.length) :
    (scanTms reg (front ++ [last]).length).zip (lead ++ ((front ++ [last]) ++ [a, b])) =
      reg.enter.zip lead ++ ((zeros front.length).zip front ++
        [true, true, false].zip [last, a, b]) := by
  rw [scanTms, List.length_append, List.length_singleton, Nat.add_sub_cancel,
    List.zip_append length.symm, List.append_assoc, List.singleton_append,
    List.zip_append (length_zeros _)]

theorem tail_drop_concat {n : Nat} {xs : List Bool} {last : Bool} (most : n ≤ xs.length) :
    (xs.drop n ++ [last]).tail = (xs ++ [last]).drop (n + 1) := by
  rw [← List.drop_append_of_le_length most, ← List.drop_one, List.drop_drop]

theorem take_concat_headD {n : Nat} {xs : List Bool} {last : Bool} (most : n ≤ xs.length) :
    xs.take n ++ [(xs.drop n).headD last] = (xs ++ [last]).take (n + 1) := by
  induction xs generalizing n with
  | nil =>
    obtain rfl := Nat.le_zero.mp most
    rfl
  | cons x xs ih =>
    cases n with
    | zero => rfl
    | succ n =>
      rw [List.take_succ_cons, List.drop_succ_cons, List.cons_append, List.cons_append,
        List.take_succ_cons, ih (Nat.le_of_succ_le_succ most)]

/-- One scan. -/
theorem run_scanTms (some : bits ≠ []) (length : lead.length = reg.enter.length)
    (after : trail.length = 2) :
    (⟨.runTestIdle, path, core⟩ : TargetPort σ).run T
        ((scanTms reg bits.length).zip (lead ++ (bits ++ trail))) =
      ⟨.runTestIdle, (T.capture reg core ++ bits).drop bits.length,
        T.scanned reg core bits⟩ := by
  obtain rfl | ⟨front, last, rfl⟩ := List.eq_nil_or_concat' bits
  · exact absurd rfl some
  match trail, after with
  | [a, b], _ =>
    have most : front.length ≤ (T.capture reg core ++ front).length := by simp
    rw [scanTms_zip length, run_append, run_enter length, run_append, run_shift reg front rfl,
      run_leave, tail_drop_concat most, Target.scanned, List.length_append, List.length_singleton,
      List.append_assoc]

/-- TDO is driven while the bits are shifted, with what the scan reads. -/
theorem levels_scanTms (some : bits ≠ []) (length : lead.length = reg.enter.length)
    (after : trail.length = 2) :
    (⟨.runTestIdle, path, core⟩ : TargetPort σ).levels T
        ((scanTms reg bits.length).zip (lead ++ (bits ++ trail))) =
      List.replicate reg.enter.length none ++
        ((T.scanOut reg core bits).map Option.some ++ [none, none]) := by
  obtain rfl | ⟨front, last, rfl⟩ := List.eq_nil_or_concat' bits
  · exact absurd rfl some
  match trail, after with
  | [a, b], _ =>
    have most : front.length ≤ (T.capture reg core ++ front).length := by simp
    rw [scanTms_zip length, levels_append, levels_enter length, run_enter length, levels_append,
      levels_shift reg front rfl, run_shift reg front rfl, levels_leave, Target.scanOut,
      List.length_append, List.length_singleton, ← List.append_assoc (T.capture reg core),
      ← take_concat_headD most]
    simp

/-- A sampler behind the lead-in gets what the scan reads. -/
theorem Drives.scanTms {tdo : Nat → Bool} (some : bits ≠ [])
    (length : lead.length = reg.enter.length) (after : trail.length = 2)
    (drives : Drives T (⟨.runTestIdle, path, core⟩ : TargetPort σ)
      ((scanTms reg bits.length).zip (lead ++ (bits ++ trail))) tdo)
    {k : Nat} (below : k < bits.length) :
    (T.scanOut reg core bits)[k]? = Option.some (tdo (reg.enter.length + k)) := by
  have inside : k < (T.scanOut reg core bits).length := by
    rw [Target.length_scanOut]
    exact below
  have bit := List.getElem?_eq_getElem inside
  rw [drives (reg.enter.length + k) _ ?_, bit]
  rw [levels_scanTms some length after, List.getElem?_append_right (by simp), List.length_replicate,
    Nat.add_sub_cancel_left, List.getElem?_append_left (by simpa using below), List.getElem?_map,
    bit]
  rfl

/-! ## Resets -/

/-- Ones hold Test-Logic-Reset. -/
theorem run_hold (pins : List (Bool × Bool)) (ones : ∀ pin ∈ pins, pin.1 = true) :
    ∃ core', (⟨.testLogicReset, path, core⟩ : TargetPort σ).run T pins =
      ⟨.testLogicReset, path, core'⟩ ∧ T.reset core' = T.reset core := by
  induction pins generalizing core with
  | nil => exact ⟨core, rfl, rfl⟩
  | cons pin rest ih =>
    have others : ∀ other ∈ rest, other.1 = true := fun other member =>
      ones other (List.mem_cons_of_mem pin member)
    obtain ⟨core', held, same⟩ := @ih (T.reset core) others
    have stays : (⟨.testLogicReset, path, core⟩ : TargetPort σ).clock T pin =
        ⟨.testLogicReset, path, T.reset core⟩ := by
      simp only [clock, ones pin List.mem_cons_self, TapState.next, if_true]
    refine ⟨core', ?_, same.trans (T.reset_reset core)⟩
    rw [run, List.foldl_cons, stays, ← run, held]

/-- Zeros hold Run-Test/Idle. -/
theorem run_idle (pins : List (Bool × Bool)) (zeros : ∀ pin ∈ pins, pin.1 = false) :
    (⟨.runTestIdle, path, core⟩ : TargetPort σ).run T pins = ⟨.runTestIdle, path, core⟩ := by
  induction pins with
  | nil => rfl
  | cons pin rest ih =>
    have stays : (⟨.runTestIdle, path, core⟩ : TargetPort σ).clock T pin =
        ⟨.runTestIdle, path, core⟩ := by
      simp [clock, zeros pin List.mem_cons_self, TapState.next]
    rw [run, List.foldl_cons, stays, ← run]
    exact ih fun other member => zeros other (List.mem_cons_of_mem pin member)

/-- From Test-Logic-Reset, with any number of ones. -/
theorem run_release (p : TargetPort σ) (at_reset : p.state = .testLogicReset)
    {pins : List (Bool × Bool)} {ones idle : Nat}
    (tms : pins.map Prod.fst = List.replicate ones true ++ zeros (idle + 1)) :
    p.run T pins = ⟨.runTestIdle, p.path, T.reset p.core⟩ := by
  obtain ⟨state, path, core⟩ := p
  cases at_reset
  obtain ⟨held, rest, rfl, areOnes, isRest⟩ := List.map_eq_append_iff.mp tms
  rw [zeros, List.replicate_succ] at isRest
  obtain ⟨pin, others, rfl, isZero, areZeros⟩ := List.map_eq_cons_iff.mp isRest
  have ones : ∀ pin ∈ held, pin.1 = true := fun pin member =>
    List.eq_of_mem_replicate (areOnes ▸ List.mem_map_of_mem member)
  have zeros : ∀ pin ∈ others, pin.1 = false := fun pin member =>
    List.eq_of_mem_replicate (areZeros ▸ List.mem_map_of_mem member)
  obtain ⟨core', run, same⟩ := @run_hold σ T core path held ones
  have leaves : (⟨.testLogicReset, path, core'⟩ : TargetPort σ).clock T pin =
      ⟨.runTestIdle, path, T.reset core'⟩ := by
    simp [clock, isZero, TapState.next]
  rw [run_append, run, TargetPort.run, List.foldl_cons, leaves, ← TargetPort.run,
    run_idle others zeros, same]

/-- Ones that lead to Test-Logic-Reset, and more. -/
theorem run_reset_after {least ones idle : Nat} (p : TargetPort σ) {pins : List (Bool × Bool)}
    (tms : pins.map Prod.fst = List.replicate ones true ++ zeros (idle + 1)) (enough : least ≤ ones)
    (leads : p.state.run (List.replicate least true) = .testLogicReset) :
    p.run T pins = ⟨.runTestIdle, (p.run T (pins.take least)).path,
      T.reset (p.run T (pins.take least)).core⟩ := by
  have first : (pins.take least).map Prod.fst = List.replicate least true := by
    rw [List.map_take, tms, List.take_append_of_le_length (by simpa using enough),
      List.take_replicate, Nat.min_eq_left enough]
  have rest : (pins.drop least).map Prod.fst =
      List.replicate (ones - least) true ++ zeros (idle + 1) := by
    rw [List.map_drop, tms, List.drop_append_of_le_length (by simpa using enough),
      List.drop_replicate]
  have at_reset : (p.run T (pins.take least)).state = .testLogicReset := by
    rw [run_state, first, leads]
  conv_lhs => rw [← List.take_append_drop least pins, run_append]
  exact run_release _ at_reset rest

/-- Five ones are enough from any state. -/
theorem run_resetTms {ones idle : Nat} (p : TargetPort σ) {pins : List (Bool × Bool)}
    (tms : pins.map Prod.fst = List.replicate ones true ++ zeros (idle + 1)) (enough : 5 ≤ ones) :
    ∃ path core, p.run T pins = ⟨.runTestIdle, path, T.reset core⟩ := by
  refine ⟨_, _, run_reset_after p tms enough ?_⟩
  cases p.state <;> rfl

/-- In Run-Test/Idle they reset the target and do nothing else. -/
theorem run_resetTms_idle {ones idle : Nat} {pins : List (Bool × Bool)}
    (tms : pins.map Prod.fst = List.replicate ones true ++ zeros (idle + 1)) (enough : 3 ≤ ones) :
    (⟨.runTestIdle, path, core⟩ : TargetPort σ).run T pins =
      ⟨.runTestIdle, path, T.reset core⟩ := by
  have long : 3 ≤ pins.length := by
    have length := congrArg List.length tms
    simp at length
    omega
  match pins, long with
  | a :: b :: c :: rest, _ =>
    obtain ⟨first, second, third⟩ : a.1 = true ∧ b.1 = true ∧ c.1 = true := by
      obtain ⟨n, rfl⟩ := Nat.exists_eq_add_of_le' enough
      simp only [List.replicate_succ, List.map_cons, List.cons_append, List.cons.injEq] at tms
      exact ⟨tms.1, tms.2.1, tms.2.2.1⟩
    rw [run_reset_after _ tms enough rfl]
    simp [run, clock, first, second, third, TapState.next]

end TargetPort

end LoongsonEjtag.Lib
