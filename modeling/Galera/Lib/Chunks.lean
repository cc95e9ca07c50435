/-
  Galera.Lib.Chunks
  ─────────────────
  **A LIST FOLDED CHUNK BY CHUNK.**

  `foldChunks step k n xs s` folds the first `n` chunks of `k` elements of
  `xs` into the state `s`, from the front.  A block hash reads its message
  so; a hash that is fed its message in parts has to fold the same chunks
  of the parts' concatenation, and the lemmas here say how the chunks of a
  list split.

    * `foldChunks_add` — `m + n` chunks are `m` chunks, then `n` more from
      where they end;
    * `foldChunks_congr` — `n` chunks read the first `k * n` elements
      only;
    * `foldChunks_append` — so elements after them do not matter.
-/
import Mathlib

namespace Galera.Chunks

variable {α σ : Type*} (step : σ → List α → σ) (k : Nat)

/-- The first `n` chunks of `k` elements of `xs`, folded into `s` by
    `step` from the front. -/
def foldChunks : Nat → List α → σ → σ
  | 0, _, s => s
  | n + 1, xs, s => foldChunks n (xs.drop k) (step s (xs.take k))

@[simp] theorem foldChunks_zero (xs : List α) (s : σ) : foldChunks step k 0 xs s = s := rfl

theorem foldChunks_succ (n : Nat) (xs : List α) (s : σ) :
    foldChunks step k (n + 1) xs s = foldChunks step k n (xs.drop k) (step s (xs.take k)) := rfl

/-- One chunk is one step. -/
theorem foldChunks_one (xs : List α) (s : σ) : foldChunks step k 1 xs s = step s (xs.take k) := rfl

/-- `m + n` chunks: `m` chunks, then `n` chunks of what follows them.  By
    induction on `m`, one chunk at a time. -/
theorem foldChunks_add : ∀ (m n : Nat) (xs : List α) (s : σ),
    foldChunks step k (m + n) xs s = foldChunks step k n (xs.drop (k * m)) (foldChunks step k m xs s)
  | 0, n, xs, s => by simp
  | m + 1, n, xs, s => by
    rw [Nat.add_right_comm, foldChunks_succ, foldChunks_add m n, foldChunks_succ, List.drop_drop,
      Nat.mul_succ, Nat.add_comm (k * m)]

/-- `n` chunks read only the first `k * n` elements. -/
theorem foldChunks_congr : ∀ (n : Nat) {xs ys : List α}, xs.take (k * n) = ys.take (k * n) →
    ∀ s : σ, foldChunks step k n xs s = foldChunks step k n ys s
  | 0, _, _, _, s => rfl
  | n + 1, xs, ys, h, s => by
    have hsplit : k * (n + 1) = k + k * n := by rw [Nat.mul_succ, Nat.add_comm]
    rw [hsplit] at h
    -- the first chunk, then the rest, agree
    have hfirst : xs.take k = ys.take k := by
      have := congrArg (List.take k) h
      rwa [List.take_take, List.take_take, Nat.min_eq_left (Nat.le_add_right k (k * n))] at this
    have hrest : (xs.drop k).take (k * n) = (ys.drop k).take (k * n) := by
      have := congrArg (List.drop k) h
      rwa [List.drop_take, List.drop_take, Nat.add_sub_cancel_left] at this
    rw [foldChunks_succ, foldChunks_succ, hfirst, foldChunks_congr n hrest]

/-- Elements after the first `n` chunks do not matter. -/
theorem foldChunks_append {n : Nat} {xs : List α} (h : k * n ≤ xs.length) (ys : List α) (s : σ) :
    foldChunks step k n (xs ++ ys) s = foldChunks step k n xs s :=
  foldChunks_congr step k n (List.take_append_of_le_length h) s

end Galera.Chunks
