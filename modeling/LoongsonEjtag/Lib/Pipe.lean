import LoongsonEjtag.Lib.Machine
import Mathlib.Data.List.Basic

/-! # Transfers in packets

A transfer between a device and a host is cut into packets of at most `mps` items.  The host
takes or sends a packet when it likes, and the device is told afterwards; it goes on with the
next packet then, or the transfer is complete.

* `InPipe` — from the device to the host; `InPipe.Conserved` — what the host has taken and
  what is left are the transfers that were started.
* `OutPipe` — from the host to the device; `OutPipe.Conserved` — what the host has sent is
  in the transfers, and each of them stays in its buffer.
-/

namespace LoongsonEjtag.Lib

variable {α : Type*}

/-! ## To the host -/

/-- `left` is what the device has not been told of, and `count` what it has. -/
inductive InPhase (α : Type*) where
  | idle
  | offered (left : List α) (count : Nat)
  | taken (left : List α) (count : Nat)

/-- With the transfers that were started, what the host has taken, and the lengths of the
    complete transfers. -/
structure InPipe (α : Type*) where
  mps : Nat
  phase : InPhase α
  started : List (List α)
  got : List α
  completed : List Nat

inductive InAction (α : Type*) where
  | size (mps : Nat)
  | start (data : List α)
  | take
  | complete

namespace InPipe

/-- What the device does when it is told: the rest of the transfer, if there is any. -/
def goOn (p : InPipe α) (left : List α) (count : Nat) : InPipe α :=
  if left = [] then { p with phase := .idle, completed := p.completed ++ [count] }
  else { p with phase := .offered left count }

def step (p : InPipe α) : InAction α → Option (InPipe α)
  | .size mps =>
    match p.phase with
    | .idle => some { p with mps := mps }
    | _ => none
  | .start data =>
    match p.phase with
    | .idle => some { p with phase := .offered data 0, started := p.started ++ [data] }
    | _ => none
  | .take =>
    match p.phase with
    | .offered left count =>
      some { p with phase := .taken left count, got := p.got ++ left.take p.mps }
    | _ => none
  | .complete =>
    match p.phase with
    | .taken left count => some (p.goOn (left.drop p.mps) (count + (left.take p.mps).length))
    | _ => none

def machine : Machine (InPipe α) (InAction α) where
  init p := p.phase = .idle ∧ p.started = [] ∧ p.got = [] ∧ p.completed = []
  step := step

/-- What the host has yet to take of the transfer under way. -/
def left (p : InPipe α) : List α :=
  match p.phase with
  | .idle => []
  | .offered left _ => left
  | .taken left _ => left.drop p.mps

/-- The length of the transfer under way. -/
def underway (p : InPipe α) : List Nat :=
  match p.phase with
  | .idle => []
  | .offered left count | .taken left count => [count + left.length]

structure Conserved (p : InPipe α) : Prop where
  bytes : p.got ++ p.left = p.started.flatten
  lengths : p.completed ++ p.underway = p.started.map List.length

theorem Conserved.goOn {p : InPipe α} {left : List α} {count : Nat}
    (bytes : p.got ++ left = p.started.flatten)
    (lengths : p.completed ++ [count + left.length] = p.started.map List.length) :
    (p.goOn left count).Conserved := by
  rw [InPipe.goOn]
  split
  case isTrue nothing =>
    subst nothing
    exact ⟨bytes, (List.append_nil _).trans lengths⟩
  case isFalse => exact ⟨bytes, lengths⟩

theorem Conserved.step {p p' : InPipe α} {a : InAction α} (inv : p.Conserved)
    (stepped : p.step a = some p') : p'.Conserved := by
  obtain ⟨mps, phase, started, got, completed⟩ := p
  obtain ⟨bytes, lengths⟩ := inv
  cases a <;> cases phase <;> cases stepped
  case size.idle => exact ⟨bytes, lengths⟩
  case start.idle data =>
    have bytes : got = started.flatten := (List.append_nil _).symm.trans bytes
    have lengths : completed = started.map List.length := (List.append_nil _).symm.trans lengths
    constructor
    · simp [left, bytes]
    · simp [underway, lengths]
  case take.offered rest count =>
    constructor
    · simpa [left] using bytes
    · simpa [underway] using lengths
  case complete.taken rest count =>
    have cut : (rest.take mps).length + (rest.drop mps).length = rest.length := by
      rw [← List.length_append, List.take_append_drop]
    apply Conserved.goOn bytes
    change completed ++ [_ + (rest.take mps).length + (rest.drop mps).length] = _
    rw [Nat.add_assoc, cut]
    exact lengths

theorem conserved {p : InPipe α} (reach : machine.Reachable p) : p.Conserved := by
  apply reach.invariant
  · rintro p ⟨idle, started, got, completed⟩
    constructor
    · simp [left, idle, started, got]
    · simp [underway, idle, started, completed]
  · intro p p' a _ inv _ stepped
    exact inv.step stepped

end InPipe

/-! ## From the host -/

/-- `len` is the size of the buffer, `got` what is in it, and `packet` what the device has not
    been told of. -/
inductive OutPhase (α : Type*) where
  | idle
  | armed (len : Nat) (got : List α)
  | arrived (len : Nat) (got packet : List α)

/-- With what the host has sent, and the complete transfers. -/
structure OutPipe (α : Type*) where
  mps : Nat
  phase : OutPhase α
  sent : List α
  received : List (List α)

inductive OutAction (α : Type*) where
  | size (mps : Nat)
  | start (len : Nat)
  | send (packet : List α)
  | complete

namespace OutPipe

/-- A short packet ends a transfer, and so does a full buffer. -/
def goOn (p : OutPipe α) (len : Nat) (got packet : List α) : OutPipe α :=
  if packet.length < p.mps ∨ (got ++ packet).length = len then
    { p with phase := .idle, received := p.received ++ [got ++ packet] }
  else { p with phase := .armed len (got ++ packet) }

/-- A buffer has room for whole packets. -/
def step (p : OutPipe α) : OutAction α → Option (OutPipe α)
  | .size mps =>
    match p.phase with
    | .idle => some { p with mps := mps }
    | _ => none
  | .start len =>
    match p.phase with
    | .idle => if 0 < len ∧ p.mps ∣ len then some { p with phase := .armed len [] } else none
    | _ => none
  | .send packet =>
    match p.phase with
    | .armed len got =>
      if packet.length ≤ p.mps then
        some { p with phase := .arrived len got packet, sent := p.sent ++ packet }
      else none
    | _ => none
  | .complete =>
    match p.phase with
    | .arrived len got packet => some (p.goOn len got packet)
    | _ => none

def machine : Machine (OutPipe α) (OutAction α) where
  init p := p.phase = .idle ∧ p.sent = [] ∧ p.received = []
  step := step

/-- What has come in of the transfer under way. -/
def partly (p : OutPipe α) : List α :=
  match p.phase with
  | .idle => []
  | .armed _ got => got
  | .arrived _ got packet => got ++ packet

/-- The buffer has room for the next packet. -/
def Fits (p : OutPipe α) : Prop :=
  match p.phase with
  | .idle => True
  | .armed len got => p.mps ∣ len ∧ p.mps ∣ got.length ∧ got.length < len
  | .arrived len got packet =>
    p.mps ∣ len ∧ p.mps ∣ got.length ∧ got.length < len ∧ packet.length ≤ p.mps

structure Conserved (p : OutPipe α) : Prop where
  bytes : p.received.flatten ++ p.partly = p.sent
  fits : p.Fits

/-- Multiples of the packet size are at least a packet apart. -/
theorem room_of_dvd {mps len got : Nat} (buffer : mps ∣ len) (packets : mps ∣ got)
    (some : got < len) : got + mps ≤ len := by
  obtain ⟨k, rfl⟩ := buffer
  obtain ⟨m, rfl⟩ := packets
  have fewer : m < k := Nat.lt_of_mul_lt_mul_left some
  rw [← Nat.mul_succ]
  exact Nat.mul_le_mul_left mps fewer

/-- Nothing is put behind the end of the buffer. -/
theorem Conserved.inside {p : OutPipe α} (inv : p.Conserved) {len : Nat} {got packet : List α}
    (arrived : p.phase = .arrived len got packet) : got.length + packet.length ≤ len := by
  have fits := inv.fits
  simp only [Fits, arrived] at fits
  obtain ⟨buffer, packets, some, most⟩ := fits
  exact Nat.le_trans (Nat.add_le_add_left most _) (room_of_dvd buffer packets some)

theorem Conserved.step {p p' : OutPipe α} {a : OutAction α} (inv : p.Conserved)
    (stepped : p.step a = some p') : p'.Conserved := by
  have inside := @Conserved.inside _ p inv
  obtain ⟨mps, phase, sent, received⟩ := p
  obtain ⟨bytes, fits⟩ := inv
  cases a with
  | size => cases phase <;> cases stepped; exact ⟨bytes, trivial⟩
  | start len =>
    cases phase with
    | idle =>
      simp only [OutPipe.step] at stepped
      split at stepped <;> cases stepped
      rename_i room
      exact ⟨bytes, room.2, Nat.dvd_zero mps, room.1⟩
    | armed | arrived => cases stepped
  | send packet =>
    cases phase with
    | armed len got =>
      simp only [OutPipe.step] at stepped
      split at stepped <;> cases stepped
      rename_i most
      obtain ⟨buffer, packets, some⟩ := fits
      refine ⟨?_, buffer, packets, some, most⟩
      have bytes : received.flatten ++ got = sent := bytes
      change received.flatten ++ (got ++ packet) = sent ++ packet
      rw [← bytes, List.append_assoc]
    | idle | arrived => cases stepped
  | complete =>
    cases phase with
    | arrived len got packet =>
      obtain ⟨buffer, packets, some, most⟩ := fits
      have inside := inside rfl
      simp only [OutPipe.step, goOn, List.length_append] at stepped
      split at stepped <;> cases stepped
      · refine ⟨?_, trivial⟩
        simpa [partly] using bytes
      · rename_i goesOn
        obtain ⟨full, room⟩ := not_or.mp goesOn
        have whole : packet.length = mps := Nat.le_antisymm most (Nat.not_lt.mp full)
        have length : (got ++ packet).length = got.length + mps := by
          rw [List.length_append, whole]
        refine ⟨bytes, buffer, ?_, ?_⟩
        · rw [length]
          exact Nat.dvd_add packets (Nat.dvd_refl mps)
        · rw [List.length_append]
          omega
    | idle | armed => cases stepped

theorem conserved {p : OutPipe α} (reach : machine.Reachable p) : p.Conserved := by
  apply reach.invariant
  · rintro p ⟨idle, sent, received⟩
    constructor
    · simp [partly, idle, sent, received]
    · simp [Fits, idle]
  · intro p p' a _ inv _ stepped
    exact inv.step stepped

end OutPipe

end LoongsonEjtag.Lib
