/-
  Galera.Lib.ListRel
  ──────────────────
  **TWO LISTS RELATED POSITION BY POSITION.**

  `List.Forall₂ R l₁ l₂` says that two lists have one length and related
  elements at every position.  Two runs of one program whose arrays stay
  related position by position see related elements at every read, and
  keep the relation through an update at one index that respects it.
  Updates that keep a projection of every element keep the projected list.

    * `forall₂_iff_getElem?`, `forall₂_getElem?` — the relation read
      position by position;
    * `forall₂_modify`, `forall₂_modify_right` — what an update at one
      index keeps;
    * `map_set_of_getElem?`, `forall_mem_modify`, `forall_mem_set`,
      `forall_mem_mapIdx` — what updates keep of a projection or of a
      property of every element;
    * `forall₂_of_map_eq`, `map_eq_map_of_imp` — lists with one image under
      a pair of maps have one image under any pair those maps determine.
-/
import Mathlib

namespace Galera.ListRel

open List

variable {α β γ δ : Type*} {R : α → β → Prop} {l₁ : List α} {l₂ : List β}

/-- Related lists, read position by position. -/
theorem forall₂_iff_getElem? :
    Forall₂ R l₁ l₂ ↔ l₁.length = l₂.length ∧
      ∀ (i : Nat) x y, l₁[i]? = some x → l₂[i]? = some y → R x y := by
  induction l₁ generalizing l₂ with
  | nil => cases l₂ <;> simp
  | cons a l₁ ih =>
    cases l₂ with
    | nil => simp
    | cons b l₂ =>
      simp only [forall₂_cons, ih, length_cons, Nat.add_right_cancel_iff]
      constructor
      · rintro ⟨hab, hlen, h⟩
        refine ⟨hlen, fun i x y hx hy => ?_⟩
        cases i with
        | zero =>
          simp only [getElem?_cons_zero, Option.some.injEq] at hx hy
          exact hx ▸ hy ▸ hab
        | succ i => exact h i x y (by simpa using hx) (by simpa using hy)
      · rintro ⟨hlen, h⟩
        exact ⟨h 0 a b rfl rfl, hlen,
          fun i x y hx hy => h (i + 1) x y (by simpa using hx) (by simpa using hy)⟩

/-- The element at a position of the left list has a related one at the
    same position of the right list. -/
theorem forall₂_getElem? (h : Forall₂ R l₁ l₂) {i : Nat} {x : α} (hx : l₁[i]? = some x) :
    ∃ y, l₂[i]? = some y ∧ R x y := by
  obtain ⟨hlen, hrel⟩ := forall₂_iff_getElem?.mp h
  have hi : i < l₂.length := hlen ▸ (List.getElem?_eq_some_iff.mp hx).1
  exact ⟨l₂[i], getElem?_eq_getElem hi, hrel i x _ hx (getElem?_eq_getElem hi)⟩

/-- Updating related lists at one index with functions that keep the
    relation there keeps it. -/
theorem forall₂_modify (h : Forall₂ R l₁ l₂) (i : Nat) {f : α → α} {g : β → β}
    (hfg : ∀ x y, l₁[i]? = some x → l₂[i]? = some y → R x y → R (f x) (g y)) :
    Forall₂ R (l₁.modify i f) (l₂.modify i g) := by
  obtain ⟨hlen, hrel⟩ := forall₂_iff_getElem?.mp h
  refine forall₂_iff_getElem?.mpr ⟨by simp [hlen], fun j x y hx hy => ?_⟩
  rw [getElem?_modify] at hx hy
  cases hx1 : l₁[j]? with
  | none => simp [hx1] at hx
  | some x' =>
    obtain ⟨y', hy1, hr⟩ := forall₂_getElem? h hx1
    simp only [hx1, hy1, Option.map_eq_map, Option.map_some, Option.some.injEq] at hx hy
    by_cases hij : i = j
    · subst hij
      simp only [if_true] at hx hy
      exact hx ▸ hy ▸ hfg x' y' hx1 hy1 hr
    · simp only [hij, if_false] at hx hy
      exact hx ▸ hy ▸ hr

/-- Updating the right list alone at one index keeps the relation when the
    update keeps it there. -/
theorem forall₂_modify_right (h : Forall₂ R l₁ l₂) (i : Nat) {g : β → β}
    (hg : ∀ x y, l₁[i]? = some x → l₂[i]? = some y → R x y → R x (g y)) :
    Forall₂ R l₁ (l₂.modify i g) := by
  have h' := forall₂_modify h i (f := id) hg
  rwa [modify_id] at h'

/-! ### Updates that keep a projection -/

/-- A read after `set` sees the new element at its index and the old
    list elsewhere. -/
theorem getElem?_set_eq_some {l : List α} {i j : Nat} {a x : α} (h : (l.set i a)[j]? = some x) :
    (j = i ∧ x = a) ∨ (j ≠ i ∧ l[j]? = some x) := by
  rw [getElem?_set] at h
  split at h
  · rename_i hij
    split at h
    · exact .inl ⟨hij.symm, (Option.some.inj h).symm⟩
    · cases h
  · rename_i hij
    exact .inr ⟨Ne.symm hij, h⟩

/-- An update at one index that keeps a projection of the element there
    keeps the projected list. -/
theorem map_set_of_getElem? {p : α → γ} {l : List α} {i : Nat} {x y : α}
    (hx : l[i]? = some x) (hp : p y = p x) : (l.set i y).map p = l.map p := by
  apply ext_getElem?
  intro j
  simp only [getElem?_map, getElem?_set]
  by_cases hij : i = j
  · subst hij
    obtain ⟨hi, hxi⟩ := List.getElem?_eq_some_iff.mp hx
    simp [hp, hi, hxi]
  · simp [hij]

/-- Every element of an updated list satisfies a property the update
    keeps. -/
theorem forall_mem_modify {P : α → Prop} {f : α → α} {l : List α} (h : ∀ x ∈ l, P x)
    (hf : ∀ x, P x → P (f x)) (i : Nat) : ∀ x ∈ l.modify i f, P x := by
  intro x hx
  obtain ⟨j, hj⟩ := mem_iff_getElem?.mp hx
  rw [getElem?_modify] at hj
  cases hl : l[j]? with
  | none => simp [hl] at hj
  | some y =>
    have hy : P y := h y (mem_iff_getElem?.mpr ⟨j, hl⟩)
    simp only [hl, Option.map_eq_map, Option.map_some, Option.some.injEq] at hj
    split at hj
    · exact hj ▸ hf y hy
    · exact hj ▸ hy

/-- Every element of a list with one element replaced satisfies a property
    of the old elements and the new one. -/
theorem forall_mem_set {P : α → Prop} {l : List α} {a : α} (h : ∀ x ∈ l, P x) (ha : P a)
    (i : Nat) : ∀ x ∈ l.set i a, P x := by
  intro x hx
  rcases mem_or_eq_of_mem_set hx with hx | rfl
  · exact h x hx
  · exact ha

/-- Every element of a list mapped with the index satisfies a property the
    map gives every element. -/
theorem forall_mem_mapIdx {P : α → Prop} {Q : γ → Prop} {f : Nat → α → γ} {l : List α}
    (h : ∀ x ∈ l, P x) (hf : ∀ i x, P x → Q (f i x)) : ∀ y ∈ l.mapIdx f, Q y := by
  intro y hy
  obtain ⟨i, hi, rfl⟩ := mem_mapIdx.mp hy
  exact hf i _ (h _ (getElem_mem hi))

/-- An element of the right list has a related one in the left list. -/
theorem exists_mem_of_forall₂_right (h : Forall₂ R l₁ l₂) {y : β} (hy : y ∈ l₂) :
    ∃ x ∈ l₁, R x y := by
  induction h with
  | nil => exact absurd hy not_mem_nil
  | @cons x y' _ _ hxy _ ih =>
    rcases mem_cons.mp hy with rfl | hy
    · exact ⟨x, mem_cons_self .., hxy⟩
    · obtain ⟨x', hx', hr⟩ := ih hy
      exact ⟨x', mem_cons_of_mem _ hx', hr⟩

/-- Lists with one projection relate each element to the one at its
    position. -/
theorem forall₂_of_map_eq {p : α → γ} {l l' : List α} (h : l'.map p = l.map p) :
    Forall₂ (fun x x' => p x' = p x) l l' := by
  induction l generalizing l' with
  | nil =>
    cases l' with
    | nil => exact Forall₂.nil
    | cons _ _ => simp at h
  | cons x l ih =>
    cases l' with
    | nil => simp at h
    | cons x' l' =>
      simp only [map_cons, cons.injEq] at h
      exact Forall₂.cons h.1 (ih h.2)

/-- Two lists with one image under a pair of maps have one image under any
    pair of maps the first pair determines. -/
theorem map_eq_map_of_imp {F : α → γ} {G : β → γ} {f : α → δ} {g : β → δ} (hfg : ∀ a b, F a = G b → f a = g b)
    (h : l₁.map F = l₂.map G) : l₁.map f = l₂.map g := by
  induction l₁ generalizing l₂ with
  | nil =>
    cases l₂ with
    | nil => rfl
    | cons _ _ => simp at h
  | cons a l₁ ih =>
    cases l₂ with
    | nil => simp at h
    | cons b l₂ =>
      simp only [map_cons, cons.injEq] at h ⊢
      exact ⟨hfg a b h.1, ih h.2⟩

end Galera.ListRel
