/-
  Galera.Lib.Index
  ────────────────
  **INDEXES KEYED BY SEQUENCE NUMBERS.**

  Two pieces of a receive buffer that keeps messages in an ordered map
  and tracks the lowest sequence number it has not seen.

  An ordered map with unique keys is Mathlib's `AList`; what an ordered
  map adds that `AList` lacks is the erasure of a range of keys, which
  `filterKeys` gives.

  The lowest unseen number is advanced by the loop

      do ++i while (i <= hs && present(i))

  `scanWhile` is the loop with an explicit fuel bound; with fuel
  `hs + 1 - i` it never runs out.

    * `mem_filterKeys` — what the range erasure keeps;
    * `scanWhile_spec` — the scan stops on the first point that is past
      the bound or absent, and every point it passed is below the bound
      and present.
-/
import Mathlib

namespace Galera.Index

/-! ## §1. Erasing a range of keys -/

section FilterKeys

variable {α : Type*} {β : α → Type*}

/-- The entries of `s` whose key passes `p`. -/
def filterKeys (p : α → Bool) (s : AList β) : AList β :=
  ⟨s.entries.filter fun e => p e.1, s.nodupKeys.sublist List.filter_sublist⟩

@[simp] theorem mem_filterKeys {p : α → Bool} {s : AList β} {a : α} :
    a ∈ filterKeys p s ↔ a ∈ s ∧ p a = true := by
  simp only [filterKeys, AList.mem_keys, AList.keys, List.keys,
    List.mem_map, List.mem_filter]
  constructor
  · rintro ⟨e, ⟨he, hp⟩, rfl⟩
    exact ⟨⟨e, he, rfl⟩, hp⟩
  · rintro ⟨⟨e, he, rfl⟩, hp⟩
    exact ⟨e, ⟨he, hp⟩, rfl⟩

end FilterKeys

/-! ## §2. The forward scan -/

/-- `do ++i while (i <= hs && present(i))`, entered with `i` already
    incremented, for at most `fuel` iterations. -/
def scanWhile (present : Int → Bool) (hs : Int) : Int → Nat → Int
  | i, 0 => i
  | i, fuel + 1 => if i ≤ hs ∧ present i = true then scanWhile present hs (i + 1) fuel else i

/-- With enough fuel the scan stops on the first point from `i` on that
    is past `hs` or absent. -/
theorem scanWhile_spec (present : Int → Bool) (hs i : Int) (fuel : Nat)
    (hfuel : hs + 1 - i ≤ fuel) :
    let r := scanWhile present hs i fuel
    i ≤ r ∧ (∀ j, i ≤ j → j < r → j ≤ hs ∧ present j = true) ∧
      (hs < r ∨ present r = false) := by
  induction fuel generalizing i with
  | zero =>
    simp only [scanWhile]
    exact ⟨Int.le_refl i, fun j h1 h2 => absurd h2 (Int.not_lt.mpr h1), .inl (by omega)⟩
  | succ fuel ih =>
    simp only [scanWhile]
    split
    · -- `i` is passed: the rest of the scan starts at `i + 1`
      rename_i hi
      obtain ⟨hle, hpass, hstop⟩ := ih (i + 1) (by omega)
      refine ⟨by omega, fun j h1 h2 => ?_, hstop⟩
      by_cases hj : j = i
      · exact hj ▸ hi
      · exact hpass j (by omega) h2
    · rename_i hi
      refine ⟨Int.le_refl i, fun j h1 h2 => absurd h2 (Int.not_lt.mpr h1), ?_⟩
      by_cases hhs : i ≤ hs
      · exact .inr (by simpa [hhs] using hi)
      · exact .inl (Int.lt_of_not_ge hhs)

end Galera.Index
