/-
  Galera.Lib.LastWriter
  ─────────────────────
  **THE LAST-WRITER MAP OF A HISTORY.**

  A history is a list of writers, oldest first, each paired with the
  labels it writes.  `latest h l` is the most recent writer of `h` that
  writes `l`.  An index that keeps, per label, only its most recent
  writer is correct exactly when it agrees with `latest` on the history
  it has seen.  The lemmas say how `latest` moves when

    * a writer is appended at the new end      (`latest_append_single`),
    * the oldest writer gives up one label     (`latest_cons_drop_eq`),
    * the oldest writers are forgotten         (`latest_append`),

  and, for a history ordered by a key, that `latest` is the writer with
  the greatest key (`latest_greatest`).

  Nothing here is specific to one program.
-/
import Mathlib

namespace LastWriter

variable {W L : Type} [DecidableEq L]

/-- The most recent writer of the history that writes label `l`. -/
def latest : List (W × List L) → L → Option W
  | [], _ => none
  | (w, ls) :: h, l => (latest h l).or (if l ∈ ls then some w else none)

@[simp] theorem latest_nil (l : L) : latest ([] : List (W × List L)) l = none := rfl

@[simp] theorem latest_cons (w : W) (ls : List L) (h : List (W × List L)) (l : L) :
    latest ((w, ls) :: h) l = (latest h l).or (if l ∈ ls then some w else none) := rfl

/-! ## §1. Appending and forgetting writers. -/

/-- The newer part of a history overrides the older part. -/
theorem latest_append (h₁ h₂ : List (W × List L)) (l : L) :
    latest (h₁ ++ h₂) l = (latest h₂ l).or (latest h₁ l) := by
  induction h₁ with
  | nil => simp
  | cons p h₁ ih =>
    obtain ⟨w, ls⟩ := p
    simp only [List.cons_append, latest_cons, ih, Option.or_assoc]

/-- Appending one writer: it becomes the latest writer of its labels. -/
theorem latest_append_single (h : List (W × List L)) (w : W) (ls : List L) (l : L) :
    latest (h ++ [(w, ls)]) l = if l ∈ ls then some w else latest h l := by
  rw [latest_append]
  by_cases hl : l ∈ ls <;> simp [hl]

/-- A label written by nobody has no latest writer. -/
theorem latest_eq_none_iff (h : List (W × List L)) (l : L) :
    latest h l = none ↔ ∀ p ∈ h, l ∉ p.2 := by
  induction h with
  | nil => simp
  | cons p h ih =>
    obtain ⟨w, ls⟩ := p
    by_cases hl : l ∈ ls <;> simp [hl, ih]

/-- The latest writer of `l` is a writer of the history that writes `l`. -/
theorem latest_mem {h : List (W × List L)} {l : L} {w : W} (hw : latest h l = some w) :
    ∃ ls, (w, ls) ∈ h ∧ l ∈ ls := by
  induction h with
  | nil => simp at hw
  | cons p h ih =>
    obtain ⟨v, ls⟩ := p
    cases hh : latest h l with
    | some u =>
      rw [latest_cons, hh, Option.some_or] at hw
      obtain ⟨ls', hm, hl⟩ := ih (hh.trans hw)
      exact ⟨ls', List.mem_cons_of_mem _ hm, hl⟩
    | none =>
      rw [latest_cons, hh, Option.none_or] at hw
      by_cases hl : l ∈ ls
      · rw [if_pos hl, Option.some_inj] at hw
        exact ⟨ls, hw ▸ List.mem_cons_self, hl⟩
      · simp [hl] at hw

/-- Renaming the writers renames the latest writer. -/
theorem latest_map_writer {V : Type} (f : W → V) (h : List (W × List L)) (l : L) :
    latest (h.map (Prod.map f id)) l = (latest h l).map f := by
  induction h with
  | nil => rfl
  | cons p h ih =>
    obtain ⟨w, ls⟩ := p
    by_cases hl : l ∈ ls
    · cases hh : latest h l <;> simp_all
    · simp [hl, ih]

/-! ## §2. Giving up labels. -/

/-- The same, seen from the label's latest writer: when the oldest writer
appears nowhere else, giving up `l₀` clears `l₀` exactly where that writer
was the latest one, and changes nothing else. -/
theorem latest_cons_drop_eq [DecidableEq W] (w : W) (l₀ : L) (ls : List L)
    (h : List (W × List L)) (hnd : l₀ ∉ ls) (hw : ∀ p ∈ h, p.1 ≠ w) (l : L) :
    latest ((w, ls) :: h) l =
      if l = l₀ ∧ latest ((w, l₀ :: ls) :: h) l = some w then none
      else latest ((w, l₀ :: ls) :: h) l := by
  by_cases he : l = l₀
  · subst he
    cases hh : latest h l with
    | none => simp [hnd, hh]
    | some u =>
      -- a later writer holds the label, and it is not `w`
      obtain ⟨ls', hm, -⟩ := latest_mem hh
      have hu : u ≠ w := hw _ hm
      simp [hnd, hh, hu]
  · simp [he]

/-- With no labels left the oldest writer is invisible. -/
theorem latest_cons_nil (w : W) (h : List (W × List L)) (l : L) :
    latest ((w, []) :: h) l = latest h l := by
  simp

/-! ## §3. Ordered histories. -/

/-- In a history strictly ordered by `key`, the latest writer of `l` has
the greatest key among the writers of `l`. -/
theorem latest_greatest {α : Type} [LinearOrder α] (key : W → α) :
    ∀ {h : List (W × List L)}, h.Pairwise (fun a b => key a.1 < key b.1) →
      ∀ {l : L} {w : W}, latest h l = some w → ∀ p ∈ h, l ∈ p.2 → key p.1 ≤ key w
  | [], _, _, _, _, p, hp, _ => by simp at hp
  | (v, ls) :: h, hs, l, w, hw, p, hp, hl => by
    rw [List.pairwise_cons] at hs
    cases hh : latest h l with
    | some u =>
      rw [latest_cons, hh, Option.some_or, Option.some_inj] at hw
      subst hw
      obtain ⟨ls', hm, -⟩ := latest_mem hh
      rcases List.mem_cons.mp hp with rfl | hp
      · exact le_of_lt (hs.1 _ hm)
      · exact latest_greatest key hs.2 hh p hp hl
    | none =>
      rw [latest_cons, hh, Option.none_or] at hw
      rw [latest_eq_none_iff] at hh
      rcases List.mem_cons.mp hp with rfl | hp
      · by_cases hv : l ∈ ls
        · rw [if_pos hv, Option.some_inj] at hw
          exact hw ▸ le_rfl
        · exact absurd hl hv
      · exact absurd hl (hh p hp)

end LastWriter
