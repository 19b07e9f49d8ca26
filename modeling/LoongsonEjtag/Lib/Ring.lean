import LoongsonEjtag.Lib.Bytes
import Mathlib.Data.Nat.ModEq

/-! # Circular buffers

A buffer of `n` entries is read and written in a circle: index `i` is entry
`i % n`.  `cells v start count` are the entries at the indices from `start` on.

* `cells_add` — a view splits anywhere.
* `cells_inside`, `cells_around` — a view in memory order: one piece, or two
  where it runs past the end.
* `cells_overlay`, `cells_overlay_apart` — what a copy sets and leaves.
* `overlayAround` — a copy that may go on at the front, and the same of it.
-/

namespace LoongsonEjtag.Lib

variable {α : Type*} {n : Nat}

/-- Indices less than a whole circle apart are different entries. -/
theorem ring_apart {start i j : Nat} (ordered : i < j) (close : j < n) :
    (start + i) % n ≠ (start + j) % n := by
  intro same
  have equal : i ≡ j [MOD n] := Nat.ModEq.add_left_cancel' start same
  exact absurd (equal.eq_of_lt_of_lt (by omega) close) (by omega)

/-- From an entry on, a circle is walked straight up to the end of the buffer. -/
theorem ring_straight {start j : Nat} (inside : start % n + j < n) :
    (start + j) % n = start % n + j := by
  rw [Nat.add_mod, Nat.mod_eq_of_lt (show j < n by omega), Nat.mod_eq_of_lt inside]

/-! ## Views -/

/-- The `count` entries of `v` from index `start` on. -/
def cells [NeZero n] (v : Vector α n) (start count : Nat) : List α :=
  (List.range count).map fun i => v.get (Fin.ofNat n (start + i))

variable [NeZero n] {v : Vector α n} {start count : Nat}

@[simp] theorem length_cells : (cells v start count).length = count := by simp [cells]

@[simp] theorem cells_zero : cells v start 0 = [] := rfl

theorem getElem?_cells {i : Nat} (below : i < count) :
    (cells v start count)[i]? = v.toList[(start + i) % n]? := by
  have inside : (start + i) % n < n := Nat.mod_lt _ (Nat.pos_of_ne_zero (NeZero.ne n))
  simp [cells, below, inside, Fin.ofNat, Vector.get]

theorem cells_add (v : Vector α n) (start a b : Nat) :
    cells v start (a + b) = cells v start a ++ cells v (start + a) b := by
  simp [cells, List.range_add, Function.comp_def, Nat.add_assoc]

/-- Only the entry of the start matters. -/
theorem cells_congr {start' : Nat} (same : start % n = start' % n) :
    cells v start count = cells v start' count := by
  refine List.map_congr_left fun i _ => ?_
  rw [show Fin.ofNat n (start + i) = Fin.ofNat n (start' + i) from
    Fin.ext (by simp only [Fin.val_ofNat]; rw [Nat.add_mod, same, ← Nat.add_mod])]

theorem take_cells {m : Nat} (most : m ≤ count) :
    (cells v start count).take m = cells v start m := by
  rw [← Nat.add_sub_cancel' most, cells_add, List.take_left' length_cells]

theorem drop_cells {m : Nat} (most : m ≤ count) :
    (cells v start count).drop m = cells v (start + m) (count - m) := by
  conv_lhs => rw [← Nat.add_sub_cancel' most, cells_add]
  exact List.drop_left' length_cells

/-- A view that stays in front of the end. -/
theorem cells_inside (inside : start % n + count ≤ n) :
    cells v start count = (v.toList.drop (start % n)).take count := by
  refine List.ext_getElem? fun i => ?_
  by_cases below : i < count
  · rw [getElem?_cells below, List.getElem?_take_of_lt below, List.getElem?_drop,
      ring_straight (by omega)]
  · rw [List.getElem?_eq_none (by simp; omega), List.getElem?_eq_none (by simp; omega)]

/-- A view that runs past the end goes on at the front. -/
theorem cells_around (past : n ≤ start % n + count) (once : count ≤ n) :
    cells v start count =
      (v.toList.drop (start % n)).take (n - start % n) ++
        v.toList.take (count - (n - start % n)) := by
  have position : start % n < n := Nat.mod_lt _ (Nat.pos_of_ne_zero (NeZero.ne n))
  have front : (start + (n - start % n)) % n = 0 := by
    rw [← Nat.mod_add_mod, Nat.add_sub_cancel' (by omega), Nat.mod_self]
  conv_lhs => rw [show count = (n - start % n) + (count - (n - start % n)) by omega, cells_add]
  rw [cells_inside (by omega), cells_inside (by omega), front, List.drop_zero]

/-! ## Copies -/

/-- A copy to entries outside a view leaves it. -/
theorem cells_overlay_apart {offset : Nat} {xs : List α} (fits : offset + xs.length ≤ n)
    (apart : ∀ i < count, (start + i) % n < offset ∨ offset + xs.length ≤ (start + i) % n) :
    cells (overlay v offset xs fits) start count = cells v start count := by
  refine List.ext_getElem? fun i => ?_
  by_cases below : i < count
  · rw [getElem?_cells below, getElem?_cells below, getElem?_overlay_outside fits (apart i below)]
  · rw [List.getElem?_eq_none (by simp; omega), List.getElem?_eq_none (by simp; omega)]

/-- A copy to the entry of `start` is the view from there on. -/
theorem cells_overlay {offset : Nat} {xs : List α} (fits : offset + xs.length ≤ n)
    (position : start % n = offset) : cells (overlay v offset xs fits) start xs.length = xs := by
  subst position
  have lengths : (v.toList.take (start % n)).length = start % n := by simp; omega
  rw [cells_inside fits, toList_overlay, List.append_assoc, List.drop_left' lengths,
    List.take_left]

/-- `xs` copied to `v` from index `start` on, in two parts where it runs past
    the end. -/
def overlayAround (v : Vector α n) (start : Nat) (xs : List α) (most : xs.length ≤ n) :
    Vector α n :=
  have position : start % n < n := Nat.mod_lt _ (Nat.pos_of_ne_zero (NeZero.ne n))
  overlay (overlay v (start % n) (xs.take (n - start % n)) (by rw [List.length_take]; omega)) 0
    (xs.drop (n - start % n)) (by rw [List.length_drop]; omega)

/-- What a copy around the end leaves at each index of one circle. -/
theorem getElem?_overlayAround {xs : List α} (most : xs.length ≤ n) {j : Nat} (below : j < n) :
    (overlayAround v start xs most).toList[(start + j) % n]? =
      if j < xs.length then xs[j]? else v.toList[(start + j) % n]? := by
  have position : start % n < n := Nat.mod_lt _ (Nat.pos_of_ne_zero (NeZero.ne n))
  have tail : (xs.take (n - start % n)).length = min (n - start % n) xs.length :=
    List.length_take
  have head : (xs.drop (n - start % n)).length = xs.length - (n - start % n) := List.length_drop
  rw [overlayAround]
  by_cases straight : start % n + j < n
  · -- Up to the end: the second part of the copy does not get here.
    rw [ring_straight straight, getElem?_overlay_outside _ (.inr (by omega))]
    by_cases copied : j < xs.length
    · rw [if_pos copied, getElem?_overlay_inside _ (by omega),
        List.getElem?_take_of_lt (by omega)]
    · rw [if_neg copied, getElem?_overlay_outside _ (.inr (by omega))]
  · obtain ⟨i, rfl⟩ : ∃ i, j = n - start % n + i := ⟨_, (Nat.add_sub_cancel' (by omega)).symm⟩
    have around : (start + (n - start % n + i)) % n = 0 + i := by
      rw [← Nat.add_assoc, ← Nat.mod_add_mod, ← Nat.mod_add_mod start,
        Nat.add_sub_cancel' (by omega), Nat.mod_self, Nat.mod_eq_of_lt (by omega)]
    rw [around]
    by_cases copied : n - start % n + i < xs.length
    · rw [if_pos copied, getElem?_overlay_inside _ (by omega), List.getElem?_drop]
    · rw [if_neg copied, getElem?_overlay_outside _ (.inr (by omega)),
        getElem?_overlay_outside _ (.inl (by omega))]

/-- A copy around the end is the view from its start on. -/
theorem cells_overlayAround {xs : List α} (most : xs.length ≤ n) :
    cells (overlayAround v start xs most) start xs.length = xs := by
  refine List.ext_getElem? fun i => ?_
  by_cases below : i < xs.length
  · rw [getElem?_cells below, getElem?_overlayAround most (by omega), if_pos below]
  · rw [List.getElem?_eq_none (by simp; omega), List.getElem?_eq_none (by omega)]

/-- A copy around the end leaves a view that it does not reach. -/
theorem cells_overlayAround_apart {before : Nat} {xs : List α} (most : xs.length ≤ n)
    (behind : start % n = (before + count) % n) (room : count + xs.length ≤ n) :
    cells (overlayAround v start xs most) before count = cells v before count := by
  refine List.ext_getElem? fun i => ?_
  by_cases below : i < count
  · have same : (before + i) % n = (start + (n - count + i)) % n := by
      rw [← Nat.mod_add_mod start, behind, Nat.mod_add_mod,
        show before + count + (n - count + i) = before + i + n by omega, Nat.add_mod_right]
    rw [getElem?_cells below, getElem?_cells below, same,
      getElem?_overlayAround most (by omega), if_neg (by omega)]
  · rw [List.getElem?_eq_none (by simp; omega), List.getElem?_eq_none (by simp; omega)]

end LoongsonEjtag.Lib
