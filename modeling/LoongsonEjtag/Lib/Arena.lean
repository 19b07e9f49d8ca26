import Mathlib.Logic.Function.Basic
import Mathlib.Order.Basic

/-! # An arena that only grows

Regions of a memory are handed out one behind the other, until it is used up; an owner that
needs more than it has is given a new region, and nothing is ever taken back.

* `Arena` — who has which region; that they are inside, aligned and apart is part of it.
* `Arena.grow` — a new region for an owner, if there is room.
-/

namespace LoongsonEjtag.Lib

structure Region where
  start : Nat
  len : Nat
deriving DecidableEq, Repr

def Region.Mem (a : Nat) (r : Region) : Prop := r.start ≤ a ∧ a < r.start + r.len

/-- Regions of owners `ι` in the addresses from `base` to `limit`, in units of `unit`. -/
structure Arena (ι : Type*) (base limit unit : Nat) where
  offset : Nat
  region : ι → Region
  within : base ≤ offset ∧ offset ≤ limit
  inside : ∀ i, 0 < (region i).len →
    base ≤ (region i).start ∧ (region i).start + (region i).len ≤ offset
  aligned : unit ∣ offset ∧ ∀ i, unit ∣ (region i).start ∧ unit ∣ (region i).len
  apart : ∀ i j, i ≠ j → ∀ a, (region i).Mem a → ¬(region j).Mem a

namespace Arena

variable {ι : Type*} {base limit unit : Nat}

/-- No region has been handed out. -/
def empty (ordered : base ≤ limit) (aligned : unit ∣ base) : Arena ι base limit unit where
  offset := base
  region _ := ⟨0, 0⟩
  within := ⟨Nat.le_refl base, ordered⟩
  inside _ some := absurd some (Nat.lt_irrefl 0)
  aligned := ⟨aligned, fun _ => ⟨Nat.dvd_zero unit, Nat.dvd_zero unit⟩⟩
  apart _ _ _ _ inside := absurd (Nat.lt_of_le_of_lt inside.1 inside.2) (Nat.lt_irrefl 0)

/-- Nothing that has been handed out reaches behind the offset. -/
theorem Mem.below (arena : Arena ι base limit unit) {i : ι} {a : Nat}
    (inside : (arena.region i).Mem a) : a < arena.offset := by
  have some : 0 < (arena.region i).len := by
    obtain ⟨least, most⟩ := inside
    omega
  exact Nat.lt_of_lt_of_le inside.2 (arena.inside i some).2

variable [DecidableEq ι]

def grow (arena : Arena ι base limit unit) (i : ι) (len : Nat)
    (fits : arena.offset + len ≤ limit) (aligned : unit ∣ len) : Arena ι base limit unit where
  offset := arena.offset + len
  region := Function.update arena.region i ⟨arena.offset, len⟩
  within := ⟨Nat.le_add_right_of_le arena.within.1, fits⟩
  inside j some := by
    by_cases is : j = i
    · subst is
      rw [Function.update_self]
      exact ⟨arena.within.1, Nat.le_refl _⟩
    · rw [Function.update_of_ne is] at some ⊢
      obtain ⟨least, most⟩ := arena.inside j some
      exact ⟨least, Nat.le_add_right_of_le most⟩
  aligned := by
    refine ⟨Nat.dvd_add arena.aligned.1 aligned, fun j => ?_⟩
    by_cases is : j = i
    · subst is
      rw [Function.update_self]
      exact ⟨arena.aligned.1, aligned⟩
    · rw [Function.update_of_ne is]
      exact arena.aligned.2 j
  apart j k different a inJ inK := by
    by_cases isJ : j = i
    · subst isJ
      rw [Function.update_self] at inJ
      rw [Function.update_of_ne (Ne.symm different)] at inK
      exact absurd (Mem.below arena inK) (Nat.not_lt.mpr inJ.1)
    · rw [Function.update_of_ne isJ] at inJ
      by_cases isK : k = i
      · subst isK
        rw [Function.update_self] at inK
        exact absurd (Mem.below arena inJ) (Nat.not_lt.mpr inK.1)
      · rw [Function.update_of_ne isK] at inK
        exact arena.apart j k different a inJ inK

end Arena

end LoongsonEjtag.Lib
