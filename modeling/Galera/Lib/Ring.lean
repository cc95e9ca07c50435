/-
  Galera.Lib.Ring
  ───────────────
  **A RING OF `n` SLOTS INDEXED BY AN UNBOUNDED COUNTER.**

  A sliding-window table keeps `n` slots and files position `s` of an
  ever-growing counter (a sequence number, a ticket) in slot `s mod n`;
  with `n` a power of two the code writes this as `s & (n - 1)`, which
  for a two's-complement `s` is the non-negative remainder.  Two
  positions share a slot exactly when they are congruent, so the table
  is sound as long as the live positions fit in a window of `n`.

    * `ringSlot_add_self` — position `s + n` reuses the slot of `s`;
    * `eq_of_ringSlot_eq` — in a window `(a, a + n]` distinct positions
      have distinct slots;
    * `exists_ringSlot_window` — every slot is the slot of exactly one
      position of any such window.
-/
import Mathlib

namespace Galera.Ring

/-- The slot of position `s` in a ring of `n` slots. -/
def ringSlot (n : Nat) (s : Int) : Nat := (s % (n : Int)).toNat

variable {n : Nat}

theorem ringSlot_lt (hn : 0 < n) (s : Int) : ringSlot n s < n := by
  have h0 : 0 ≤ s % (n : Int) := Int.emod_nonneg s (by omega)
  have h1 : s % (n : Int) < n := Int.emod_lt_of_pos s (by omega)
  unfold ringSlot
  omega

theorem ringSlot_eq_iff (hn : 0 < n) (s t : Int) :
    ringSlot n s = ringSlot n t ↔ s % (n : Int) = t % (n : Int) := by
  have hs : 0 ≤ s % (n : Int) := Int.emod_nonneg s (by omega)
  have ht : 0 ≤ t % (n : Int) := Int.emod_nonneg t (by omega)
  unfold ringSlot
  omega

@[simp] theorem ringSlot_add_self (s : Int) : ringSlot n (s + n) = ringSlot n s := by
  simp [ringSlot]

/-- Two positions of one window of width `n` that share a slot are equal. -/
theorem eq_of_ringSlot_eq (hn : 0 < n) {a s t : Int} (hs : a < s) (hs' : s ≤ a + n)
    (ht : a < t) (ht' : t ≤ a + n) (h : ringSlot n s = ringSlot n t) : s = t := by
  have hdvd : (n : Int) ∣ s - t := Int.ModEq.dvd ((ringSlot_eq_iff hn s t).mp h).symm
  have hz : s - t = 0 := Int.eq_zero_of_dvd_of_natAbs_lt_natAbs hdvd (by omega)
  omega

/-- Every slot is the slot of a position in any window of width `n`. -/
theorem exists_ringSlot_window (hn : 0 < n) (a s : Int) :
    ∃ t, a < t ∧ t ≤ a + n ∧ ringSlot n t = ringSlot n s := by
  have h0 : 0 ≤ (s - a - 1) % (n : Int) := Int.emod_nonneg _ (by omega)
  have h1 : (s - a - 1) % (n : Int) < n := Int.emod_lt_of_pos _ (by omega)
  refine ⟨a + 1 + (s - a - 1) % (n : Int), by omega, by omega, ?_⟩
  rw [ringSlot_eq_iff hn, Int.add_emod, Int.emod_emod, ← Int.add_emod]
  congr 1
  ring

end Galera.Ring
