/-
  Galera.Lib.ArgMin
  ─────────────────
  **THE LEAST ELEMENT THAT A SCAN FINDS.**

  A loop over an array that keeps the least key seen so far among the
  elements that pass a test, with its index, replacing it only on a
  strictly smaller key, from a bound and the index -1:

      best = bound; at = -1
      for i in 0 .. n-1:
          if p(a[i]) && key(a[i]) < best: best = key(a[i]); at = i

  `argMinStep` is one iteration.

    * `foldl_argMinStep_spec` — for every starting accumulator, the scan
      only lowers it, ends on an element it passed (or where it began),
      and ends at or below every key it passed;
    * `argMin_zipIdx` — from the bound and -1, once some element passes
      with a key below the bound, `at` indexes an element that passes
      with the least key;
    * `argMin_zipIdx_of_none` — otherwise the scan changes nothing.
-/
import Mathlib

namespace Galera.ArgMin

variable {α : Type*}

/-- One iteration of the scan, over the element `x.1` at index `x.2`. -/
def argMinStep (p : α → Bool) (key : α → Int) (acc : Int × Int) (x : α × Nat) : Int × Int :=
  if p x.1 ∧ key x.1 < acc.1 then (key x.1, x.2) else acc

/-- What the scan keeps, for every starting accumulator. -/
theorem foldl_argMinStep_spec (p : α → Bool) (key : α → Int) (xs : List (α × Nat))
    (acc : Int × Int) :
    let r := xs.foldl (argMinStep p key) acc
    r.1 ≤ acc.1 ∧
      (r = acc ∨ r.1 < acc.1 ∧ ∃ x ∈ xs, p x.1 ∧ key x.1 = r.1 ∧ (x.2 : Int) = r.2) ∧
      ∀ x ∈ xs, p x.1 → r.1 ≤ key x.1 := by
  induction xs generalizing acc with
  | nil => exact ⟨Int.le_refl _, .inl rfl, fun _ h => absurd h List.not_mem_nil⟩
  | cons x xs ih =>
    obtain ⟨hle, hwit, hlow⟩ := ih (argMinStep p key acc x)
    simp only [List.foldl_cons]
    -- the first element either replaces the accumulator or leaves it
    have hstep : (argMinStep p key acc x).1 ≤ acc.1 ∧
        (argMinStep p key acc x = acc ∨
          (argMinStep p key acc x).1 < acc.1 ∧ p x.1 ∧
            key x.1 = (argMinStep p key acc x).1 ∧ (x.2 : Int) = (argMinStep p key acc x).2) ∧
        (p x.1 → (argMinStep p key acc x).1 ≤ key x.1) := by
      unfold argMinStep
      split
      · rename_i h
        exact ⟨Int.le_of_lt h.2, .inr ⟨h.2, h.1, rfl, rfl⟩, fun _ => Int.le_refl _⟩
      · rename_i h
        exact ⟨Int.le_refl _, .inl rfl, fun hp => Int.le_of_not_gt fun hk => h ⟨hp, hk⟩⟩
    obtain ⟨hle0, hwit0, hlow0⟩ := hstep
    refine ⟨Int.le_trans hle hle0, ?_, ?_⟩
    · rcases hwit with hr | ⟨hlt, y, hy, hpy, hky, hiy⟩
      · rcases hwit0 with h0 | ⟨hlt0, hp, hk, hi⟩
        · exact .inl (hr.trans h0)
        · rw [hr]
          exact .inr ⟨hlt0, x, List.mem_cons_self .., hp, hk, hi⟩
      · exact .inr ⟨Int.lt_of_lt_of_le hlt hle0, y, List.mem_cons_of_mem _ hy, hpy, hky, hiy⟩
    · intro y hy hpy
      rcases List.mem_cons.mp hy with rfl | hy
      · exact Int.le_trans hle (hlow0 hpy)
      · exact hlow y hy hpy

/-- From the bound and -1, once some element passes with a key below the
    bound, the scan ends on an element that passes with the least key. -/
theorem argMin_zipIdx (p : α → Bool) (key : α → Int) (l : List α) (b : Int)
    (h : ∃ x ∈ l, p x ∧ key x < b) :
    let r := l.zipIdx.foldl (argMinStep p key) (b, -1)
    0 ≤ r.2 ∧ ∃ x, l[r.2.toNat]? = some x ∧ p x ∧ key x = r.1 ∧
      ∀ y ∈ l, p y → r.1 ≤ key y := by
  obtain ⟨hle, hwit, hlow⟩ := foldl_argMinStep_spec p key l.zipIdx (b, -1)
  obtain ⟨x, hx, hpx, hkx⟩ := h
  obtain ⟨i, hi⟩ := List.mem_iff_getElem?.mp hx
  have hlowl : ∀ y ∈ l, p y → (l.zipIdx.foldl (argMinStep p key) (b, -1)).1 ≤ key y := by
    intro y hy hpy
    obtain ⟨j, hj⟩ := List.mem_iff_getElem?.mp hy
    exact hlow (y, j) (List.mem_zipIdx_iff_getElem?.mpr hj) hpy
  rcases hwit with hr | ⟨-, ⟨y, j⟩, hy, hpy, hky, hjy⟩
  · -- the scan cannot end where it began: `x` is below the bound
    have := hlowl x hx hpx
    rw [hr] at this
    exact absurd (Int.lt_of_le_of_lt this hkx) (Int.lt_irrefl b)
  · refine ⟨hjy ▸ Int.natCast_nonneg j, y, ?_, hpy, hky, hlowl⟩
    rw [← hjy, Int.toNat_natCast]
    exact List.mem_zipIdx_iff_getElem?.mp hy

/-- When no element passes with a key below the bound, the scan changes
    nothing. -/
theorem argMin_zipIdx_of_none (p : α → Bool) (key : α → Int) (l : List α) (b : Int)
    (h : ∀ x ∈ l, p x → b ≤ key x) (i : Int) :
    l.zipIdx.foldl (argMinStep p key) (b, i) = (b, i) := by
  obtain ⟨-, hwit, -⟩ := foldl_argMinStep_spec p key l.zipIdx (b, i)
  rcases hwit with hr | ⟨hlt, x, hx, hpx, hkx, -⟩
  · exact hr
  · -- a replacement would have gone below the bound
    have hb := h x.1 (List.fst_mem_of_mem_zipIdx hx) hpx
    rw [hkx] at hb
    exact absurd (Int.lt_of_le_of_lt hb hlt) (Int.lt_irrefl b)

end Galera.ArgMin
