/-
  Galera.Lib.RowRing
  ──────────────────
  **A RING OF SLOTS, CUT INTO ROWS.**

  A queue kept in a ring of `L` slots holds its items in the slots
  `h, h + 1, …` from its head, each taken mod `L`.  `ringView cell h L n`
  reads the `n` slots from `h`; the lemmas say how the view changes when
  a slot is written, when the head moves on, and when a whole row of `C`
  slots is given back.

    * `ringView_congr` — the view reads its own slots only;
    * `ringView_cons` — the first slot, then the view from the next one;
    * `mod_add_ne` — fewer than `L` steps never come back to a slot;
    * `div_ne_of_last_col` — walking on from the last slot of a row, the
      walk does not come back to that row before a point it ends in that
      row;
    * `countP_range_update` — what changing one value does to a count.
-/
import Mathlib

namespace Galera.RowRing

open Function (update update_of_ne)

/-! ## §1. The view from the head -/

section view

variable {γ : Type*} (cell : Nat → γ) (h L : Nat)

/-- The `n` slots from `h`, each taken mod `L`. -/
def ringView : Nat → List γ
  | 0 => []
  | n + 1 => ringView n ++ [cell ((h + n) % L)]

@[simp] theorem ringView_zero : ringView cell h L 0 = [] := rfl

theorem ringView_succ (n : Nat) : ringView cell h L (n + 1) = ringView cell h L n ++ [cell ((h + n) % L)] :=
  rfl

@[simp] theorem ringView_length (n : Nat) : (ringView cell h L n).length = n := by
  induction n with
  | zero => rfl
  | succ n ih => rw [ringView_succ, List.length_append, ih, List.length_singleton]

/-- The view reads the slots `(h + i) % L` with `i < n` only. -/
theorem ringView_congr {cell' : Nat → γ} {h' : Nat} :
    ∀ n, (∀ i < n, cell ((h + i) % L) = cell' ((h' + i) % L)) →
      ringView cell h L n = ringView cell' h' L n
  | 0, _ => rfl
  | n + 1, hc => by
    rw [ringView_succ, ringView_succ, ringView_congr n fun i hi => hc i (Nat.lt_succ_of_lt hi),
      hc n (Nat.lt_succ_self n)]

/-- The first slot, then the view from the next one. -/
theorem ringView_cons : ∀ n, ringView cell h L (n + 1) = cell (h % L) :: ringView cell (h + 1) L n
  | 0 => by simp [ringView_succ]
  | n + 1 => by
    rw [ringView_succ, ringView_cons n, ringView_succ, List.cons_append, Nat.add_assoc h 1 n,
      Nat.add_comm 1 n]

end view

/-! ## §2. Slots and rows -/

/-- Fewer than `L` steps from `h` never come back to a slot. -/
theorem mod_add_ne {h i j L : Nat} (hij : i < j) (hj : j < L) : (h + i) % L ≠ (h + j) % L := by
  intro heq
  -- the two slots are `j - i` apart, a distance the ring cannot absorb
  have hdiff := Nat.sub_mod_eq_zero_of_mod_eq heq.symm
  rw [Nat.add_sub_add_left, Nat.mod_eq_of_lt (Nat.lt_of_le_of_lt (Nat.sub_le j i) hj)] at hdiff
  omega

/-- A slot is in row `r` of `C` slots exactly when it lies in `[r C, r C + C)`. -/
theorem div_eq_iff_bounds {x C r : Nat} (hC : 0 < C) : x / C = r ↔ C * r ≤ x ∧ x < C * r + C := by
  constructor
  · rintro rfl
    have := Nat.div_add_mod x C
    have := Nat.mod_lt x hC
    omega
  · rintro ⟨hlo, hhi⟩
    apply Nat.le_antisymm
    · exact Nat.lt_succ_iff.1 ((Nat.div_lt_iff_lt_mul hC).2 (by rw [Nat.succ_mul, Nat.mul_comm]; exact hhi))
    · exact (Nat.le_div_iff_mul_le hC).2 (by rw [Nat.mul_comm]; exact hlo)

/-- In a ring of `L` slots cut into rows of `C`, walking on from the last
    slot `h` of a row: a slot `i` steps ahead, with `0 < i < u ≤ L`, lies
    outside `h`'s row unless the slot `u` steps ahead lies in it too.  A
    walk that comes back to the row has passed every other row, and the
    rest of it stays in the row up to `h` itself. -/
theorem div_ne_of_last_col {h i u L C : Nat} (hC : 0 < C) (hh : h < L) (hcol : h % C = C - 1)
    (hi : 0 < i) (hiu : i < u) (hu : u ≤ L) (hrow : (h + u) % L / C ≠ h / C) :
    (h + i) % L / C ≠ h / C := by
  intro hp
  apply hrow
  -- `X` is where `h`'s row begins
  have hdiv := Nat.div_add_mod h C
  generalize hX : C * (h / C) = X at hdiv
  have hpb := (div_eq_iff_bounds hC).1 hp
  rw [hX] at hpb
  apply (div_eq_iff_bounds hC).2
  rw [hX]
  -- the slot `i` ahead is behind `h` in its row, so the walk went round once
  have hwrap : L ≤ h + i := by
    by_contra hlt
    rw [Nat.mod_eq_of_lt (Nat.lt_of_not_le hlt)] at hpb
    omega
  have hpi : (h + i) % L = h + i - L := by
    rw [Nat.mod_eq_sub_mod hwrap, Nat.mod_eq_of_lt (by omega)]
  have htu : (h + u) % L = h + u - L := by
    rw [Nat.mod_eq_sub_mod (by omega), Nat.mod_eq_of_lt (by omega)]
  rw [hpi] at hpb
  rw [htu]
  omega

/-! ## §3. Counting -/

/-- Changing the value at one index below `n` changes a count over
    `[0, n)` by what that index counted before and after. -/
theorem countP_range_update {γ : Type*} (p : γ → Bool) (f : Nat → γ) (v : γ) {k : Nat} :
    ∀ n, k < n →
      (List.range n).countP (fun r => p (update f k v r)) + (if p (f k) then 1 else 0) =
        (List.range n).countP (fun r => p (f r)) + (if p v then 1 else 0)
  | 0, hk => absurd hk (Nat.not_lt_zero k)
  | n + 1, hk => by
    simp only [List.range_succ, List.countP_append, List.countP_singleton]
    rcases Nat.lt_succ_iff_lt_or_eq.1 hk with hk | rfl
    · -- the change is below `n`; the index `n` counts the same
      have hrest := countP_range_update p f v n hk
      rw [update_of_ne (Nat.ne_of_gt hk)]
      omega
    · -- the change is at `n` itself; below it nothing changes
      have hbelow : (List.range k).countP (fun r => p (update f k v r)) =
          (List.range k).countP (fun r => p (f r)) := by
        apply List.countP_congr
        intro r hr
        rw [update_of_ne (Nat.ne_of_lt (List.mem_range.1 hr))]
      rw [hbelow, Function.update_self]
      omega

end Galera.RowRing
