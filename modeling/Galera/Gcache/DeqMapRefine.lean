/-
  Galera.Gcache.DeqMapRefine
  ──────────────────────────
  **`gu::DeqMap` IS A PARTIAL MAP.**

  A `DeqMap` denotes the partial map `get` from indices to values: the
  set slots of `[begin_, end_)`.  Every operation of the source acts on
  that map as a map operation does, and keeps the representation
  invariant `assert_consistency` checks: `begin_ + size() == end_` holds
  by construction here (`indexEnd` is `begin + base.length`), and a
  non-empty map has its front and back slots set (`Trimmed`).

    * `get_pushFront`, `get_insert`, `get_popFront`, `get_eraseRange`, … —
      each operation is the map update it stands for;
    * `Trimmed.popFront`, `Trimmed.eraseRange`, … — each keeps the ends set;
    * `Trimmed.indexBegin_least`, `Trimmed.indexBack_greatest` — so the
      front is the least index of the map and the back the greatest:
      `pop_front` and `pop_back` remove those;
    * `find_eq_end_iff`, `FrontSet.upperBound_spec` — `find` and
      `upper_bound` answer for the map;
    * `Op.trimmed_apply`, `Op.get_apply`, `run_refines` — one operation,
      then a run of them, against `Op.mapApply` on partial maps;
    * `deqmap_refines_partial_map` — along any run of operations from
      `clear(b)`, the container is trimmed and denotes the map the same
      operations build.
-/
import Mathlib
import Galera.Gcache.DeqMap

namespace Galera.Gcache

namespace DeqMap

variable {α : Type}

/-! ## §1. Reading a slot -/

theorem get_of_lt {m : DeqMap α} {i : Int} (h : i < m.begin) : m.get i = none := by
  simp [get, Int.not_le.2 h]

theorem get_of_end_le {m : DeqMap α} {i : Int} (h : m.indexEnd ≤ i) : m.get i = none := by
  unfold get
  unfold indexEnd at h
  split_ifs
  · rw [List.getElem?_eq_none (by omega)]
    rfl
  · rfl

/-- The map of the empty deque is empty. -/
theorem get_nil (b i : Int) : (⟨b, []⟩ : DeqMap α).get i = none := by
  simp [get]

/-- The front slot, and the slots after it. -/
theorem get_cons (b : Int) (x : Option α) (xs : List (Option α)) (i : Int) :
    (⟨b, x :: xs⟩ : DeqMap α).get i = if i = b then x else (⟨b + 1, xs⟩ : DeqMap α).get i := by
  split_ifs with h
  · subst h
    simp [get]
  · exact get_cons_of_ne b x xs h

/-- A deque split in two: the slots of the first part, then those of the
    second from where the first ends. -/
theorem get_append (b : Int) (xs ys : List (Option α)) (i : Int) :
    (⟨b, xs ++ ys⟩ : DeqMap α).get i =
      if i < b + xs.length then (⟨b, xs⟩ : DeqMap α).get i else (⟨b + xs.length, ys⟩ : DeqMap α).get i := by
  simp only [get]
  by_cases h1 : b ≤ i
  · by_cases h2 : i < b + xs.length
    · rw [if_pos h1, if_pos h2, if_pos h1, List.getElem?_append_left (by omega)]
    · rw [if_pos h1, if_neg h2, if_pos (by omega), List.getElem?_append_right (by omega),
        show (i - b).toNat - xs.length = (i - (b + xs.length)).toNat by omega]
  · rw [if_neg h1, if_pos (by omega), if_neg h1]

/-- Unset slots read as unset. -/
theorem get_replicate_none (b : Int) (n : Nat) (i : Int) :
    (⟨b, List.replicate n none⟩ : DeqMap α).get i = none := by
  unfold get
  split_ifs
  · rw [List.getElem?_replicate]
    split_ifs <;> rfl
  · rfl

/-- An assigned slot. -/
theorem get_set {b p : Int} (xs : List (Option α)) (hp : b ≤ p) (v : Option α) (i : Int) :
    (⟨b, xs.set (p - b).toNat v⟩ : DeqMap α).get i =
      if i = p ∧ p < b + xs.length then v else (⟨b, xs⟩ : DeqMap α).get i := by
  simp only [get]
  by_cases h1 : b ≤ i
  · rw [if_pos h1, if_pos h1, List.getElem?_set]
    by_cases h2 : i = p ∧ p < b + xs.length
    · rw [if_pos (by omega), if_pos (by omega), if_pos h2]
      rfl
    · rw [if_neg h2]
      by_cases h3 : i = p
      · -- `p` past the end: `set` changes nothing there
        subst h3
        have hlen : ¬ (i - b).toNat < xs.length := by omega
        rw [if_pos rfl, if_neg hlen, List.getElem?_eq_none (by omega)]
      · rw [if_neg (by omega)]
  · rw [if_neg h1, if_neg (by omega), if_neg h1]

/-- A run of unset slots reads as unset. -/
theorem get_of_forall_none {b : Int} {xs : List (Option α)} (h : ∀ x ∈ xs, x = none) (i : Int) :
    (⟨b, xs⟩ : DeqMap α).get i = none := by
  simp only [get]
  split_ifs
  · cases hx : xs[(i - b).toNat]? with
    | none => rfl
    | some x => rw [h x (List.mem_of_getElem? hx)]; rfl
  · rfl

/-- The front slot. -/
theorem get_begin (m : DeqMap α) : m.get m.begin = m.base.head?.join := by
  simp [get, List.head?_eq_getElem?]

/-- The back slot. -/
theorem get_indexBack (m : DeqMap α) (hne : m.base ≠ []) : m.get (m.indexEnd - 1) = m.base.getLast?.join := by
  have hlen : 0 < m.base.length := List.length_pos_iff.2 hne
  rw [get, if_pos (show m.begin ≤ m.indexEnd - 1 by unfold indexEnd; omega),
    show (m.indexEnd - 1 - m.begin).toNat = m.base.length - 1 by unfold indexEnd; omega, List.getLast?_eq_getElem?]

/-! ## §2. Trimming -/

/-- Trimming the front keeps the end. -/
theorem indexEnd_trimFront : ∀ (b : Int) (xs : List (Option α)), (trimFront b xs).indexEnd = b + xs.length
  | b, none :: xs => by
    rw [trimFront, indexEnd_trimFront (b + 1) xs, List.length_cons]
    omega
  | _, some _ :: _ => rfl
  | _, [] => rfl

/-- After trimming the front, the front slot is set. -/
theorem trimFront_head : ∀ (b : Int) (xs : List (Option α)), ∀ x ∈ (trimFront b xs).base.head?, x.isSome
  | b, none :: xs => by
    rw [trimFront]
    exact trimFront_head (b + 1) xs
  | _, some _ :: _ => by simp [trimFront]
  | _, [] => by simp [trimFront]

/-- Dropping the unset slots at the back keeps every value. -/
theorem get_trimBack (b : Int) (xs : List (Option α)) (i : Int) :
    (⟨b, (xs.reverse.dropWhile Option.isNone).reverse⟩ : DeqMap α).get i = (⟨b, xs⟩ : DeqMap α).get i := by
  have hsplit : xs = (xs.reverse.dropWhile Option.isNone).reverse ++ (xs.reverse.takeWhile Option.isNone).reverse := by
    rw [← List.reverse_append, List.takeWhile_append_dropWhile, List.reverse_reverse]
  -- the dropped slots are all unset
  have hnone : ∀ x ∈ (xs.reverse.takeWhile Option.isNone).reverse, x = none := by
    intro x hx
    exact Option.isNone_iff_eq_none.1 (List.mem_takeWhile_imp (List.mem_reverse.1 hx))
  conv_rhs => rw [hsplit]
  rw [get_append]
  split_ifs with h
  · rfl
  · rw [get_of_forall_none hnone, get_of_end_le (by exact Int.not_lt.1 h)]

/-- After dropping the unset slots at the back, the back slot is set. -/
theorem trimBack_getLast (xs : List (Option α)) :
    ∀ x ∈ ((xs.reverse.dropWhile Option.isNone).reverse).getLast?, x.isSome := by
  intro x hx
  rw [List.getLast?_reverse] at hx
  have h := List.head?_dropWhile_not Option.isNone xs.reverse
  rw [hx] at h
  simpa using h

/-! ## §3. Each operation is a map update -/

theorem get_clear (b i : Int) : (clear b : DeqMap α).get i = none := get_nil b i

theorem get_pushFront (m : DeqMap α) (v : α) :
    (m.pushFront v).get = Function.update m.get (m.begin - 1) (some v) := by
  funext i
  rw [pushFront, get_cons, Function.update_apply, Int.sub_add_cancel]

theorem get_pushBack (m : DeqMap α) (v : α) :
    (m.pushBack v).get = Function.update m.get m.indexEnd (some v) := by
  funext i
  rw [pushBack, get_append, Function.update_apply]
  split_ifs with h₁ h₂ h₂
  · exact absurd h₂ (by unfold indexEnd; omega)
  · rfl
  · rw [get_cons, if_pos (by unfold indexEnd at h₂; exact h₂)]
  · rw [get_cons, if_neg (by unfold indexEnd at h₂; exact h₂), get_nil,
      get_of_end_le (by unfold indexEnd; omega)]

/-- Slots of `some v` read as `v`. -/
theorem get_replicate_some (b : Int) (n : Nat) (v : α) (i : Int) :
    (⟨b, List.replicate n (some v)⟩ : DeqMap α).get i = if b ≤ i ∧ i < b + n then some v else none := by
  simp only [get]
  split_ifs with h₁ h₂ h₂
  · rw [List.getElem?_replicate, if_pos (by omega)]
    rfl
  · rw [List.getElem?_replicate, if_neg (by omega)]
    rfl
  · omega
  · rfl

/-- A value past the end, after unset slots. -/
theorem get_extendBack (m : DeqMap α) {i : Int} (hi : m.indexEnd ≤ i) (v : α) :
    (⟨m.begin, m.base ++ List.replicate (i - m.indexEnd).toNat none ++ [some v]⟩ : DeqMap α).get =
      Function.update m.get i (some v) := by
  funext j
  have hend : m.indexEnd = m.begin + m.base.length := rfl
  -- the unset slots run from the end up to `i`
  have hk : m.begin + m.base.length + ((i - m.indexEnd).toNat : Int) = i := by omega
  rw [List.append_assoc, get_append, get_append, get_replicate_none, get_cons, get_nil, Function.update_apply,
    List.length_replicate, hk]
  by_cases h₁ : j < m.begin + m.base.length
  · rw [if_pos h₁, if_neg (by omega)]
  · rw [if_neg h₁, get_of_end_le (by omega)]
    by_cases h₂ : j < i
    · rw [if_pos h₂, if_neg (by omega)]
    · rw [if_neg h₂]

/-- A value before the front, with unset slots up to it. -/
theorem get_extendFront (m : DeqMap α) {i : Int} (hi : i < m.begin) (v : α) :
    (⟨i, some v :: (List.replicate (m.begin - i - 1).toNat none ++ m.base)⟩ : DeqMap α).get =
      Function.update m.get i (some v) := by
  funext j
  rw [get_cons, get_append, get_replicate_none, Function.update_apply]
  by_cases h₁ : j = i
  · rw [if_pos h₁, if_pos h₁]
  · rw [if_neg h₁, if_neg h₁, List.length_replicate]
    split_ifs with h₂
    · rw [get_of_lt (by omega)]
    · rw [show i + 1 + ((m.begin - i - 1).toNat : Int) = m.begin by omega]

/-- A slot of the range assigned. -/
theorem get_assign (m : DeqMap α) {i : Int} (hb : m.begin ≤ i) (he : i < m.indexEnd) (x : Option α) :
    (⟨m.begin, m.base.set (i - m.begin).toNat x⟩ : DeqMap α).get = Function.update m.get i x := by
  funext j
  rw [get_set _ hb, Function.update_apply]
  unfold indexEnd at he
  by_cases h : j = i
  · rw [if_pos ⟨h, he⟩, if_pos h]
  · rw [if_neg (fun h' => h h'.1), if_neg h]

theorem get_insert (m : DeqMap α) (i : Int) (v : α) :
    (m.insert i v).get = Function.update m.get i (some v) := by
  unfold insert
  split_ifs with hempty hend hbegin
  · -- the first value of an empty map
    obtain ⟨b, base⟩ := m
    have hnil : base = [] := List.isEmpty_iff.1 hempty
    subst hnil
    funext j
    rw [get_cons, get_nil, Function.update_apply]
    split_ifs <;> simp [get_nil]
  · rw [get_extendBack m hend]
  · rw [List.cons_append, get_extendFront m hbegin]
  · exact get_assign m (by omega) (by omega) (some v)

theorem get_insertAt (m : DeqMap α) {p : Int} (hb : m.begin ≤ p) (he : p ≤ m.indexEnd) (v : α) :
    (m.insertAt p v).get = Function.update m.get p (some v) := by
  unfold insertAt
  split_ifs with hp
  · rw [get_pushBack, hp]
  · exact get_assign m hb (by omega) (some v)

/-- `insert(position, n, val)` sets the `n` indices from `position` on:
    induction on `n`, one assignment or the final append at a time. -/
theorem get_insertN (v : α) : ∀ (n : Nat) {p : Int} (m : DeqMap α), m.begin ≤ p → p ≤ m.indexEnd →
    (insertN v n p m).get = fun j => if p ≤ j ∧ j < p + n then some v else m.get j
  | 0, p, m, _, _ => by
    funext j
    rw [insertN, if_neg (by omega)]
  | n + 1, p, m, hb, he => by
    rw [insertN]
    split_ifs with hp
    · -- at the end: the values go after it
      funext j
      rw [get_append, get_replicate_some]
      by_cases h₁ : j < m.begin + m.base.length
      · rw [if_pos h₁, if_neg (by unfold indexEnd at hp; omega)]
      · rw [if_neg h₁, get_of_end_le (show m.indexEnd ≤ j by unfold indexEnd; omega)]
        unfold indexEnd at hp
        by_cases h₂ : p ≤ j ∧ j < p + ↑(n + 1)
        · rw [if_pos (by omega), if_pos h₂]
        · rw [if_neg (by omega), if_neg h₂]
    · -- inside: assign `p`, then go on from `p + 1`
      have hlen : (⟨m.begin, m.base.set (p - m.begin).toNat (some v)⟩ : DeqMap α).indexEnd = m.indexEnd := by
        simp [indexEnd]
      rw [get_insertN v n ⟨m.begin, m.base.set (p - m.begin).toNat (some v)⟩
          (show m.begin ≤ p + 1 by omega) (by rw [hlen]; omega),
        get_assign m hb (by omega) (some v)]
      funext j
      rw [Function.update_apply]
      by_cases h₁ : j = p
      · rw [if_neg (by omega), if_pos h₁, if_pos (by omega)]
      · rw [if_neg h₁]
        by_cases h₂ : p + 1 ≤ j ∧ j < p + 1 + n
        · rw [if_pos h₂, if_pos (by omega)]
        · rw [if_neg h₂, if_neg (by omega)]

/-- The middle loop of `erase(first, last)` unsets `n` indices from `i`
    on: induction on `n`. -/
theorem get_unsetRange : ∀ (n : Nat) {i : Int} (m : DeqMap α), m.begin ≤ i →
    (unsetRange n i m).get = fun j => if i ≤ j ∧ j < i + n then none else m.get j
  | 0, i, m, _ => by
    funext j
    rw [unsetRange, if_neg (by omega)]
  | n + 1, i, m, hb => by
    rw [unsetRange, get_unsetRange n ⟨m.begin, m.base.set (i - m.begin).toNat none⟩
      (show m.begin ≤ i + 1 by omega)]
    funext j
    rw [get_set _ hb]
    by_cases h₁ : j = i
    · -- past the end the slot was unset already
      rw [if_neg (by omega), if_pos (show i ≤ j ∧ j < i + ↑(n + 1) by omega)]
      split_ifs with h₂
      · rfl
      · exact get_of_end_le (show m.indexEnd ≤ j by unfold indexEnd; omega)
    · by_cases h₂ : i + 1 ≤ j ∧ j < i + 1 + n
      · rw [if_pos h₂, if_pos (by omega)]
      · rw [if_neg h₂, if_neg (by omega), if_neg (by omega)]

theorem get_popFront (m : DeqMap α) (hne : m.base ≠ []) :
    m.popFront.get = Function.update m.get m.begin none := by
  obtain ⟨b, base⟩ := m
  cases base with
  | nil => exact absurd rfl hne
  | cons x xs =>
    funext j
    simp only [popFront]
    rw [get_trimFront, Function.update_apply, get_cons]
    split_ifs with h
    · rw [h, get_of_lt (show b < b + 1 by omega)]
    · rfl

theorem get_popBack (m : DeqMap α) (hne : m.base ≠ []) :
    m.popBack.get = Function.update m.get (m.indexEnd - 1) none := by
  obtain ⟨b, base⟩ := m
  obtain ⟨init, last, rfl⟩ := (List.eq_nil_or_concat' base).resolve_left hne
  funext j
  simp only [popBack, List.dropLast_concat]
  rw [get_trimBack, Function.update_apply, get_append]
  simp only [indexEnd, List.length_append, List.length_singleton]
  split_ifs with h₁ h₂
  · exact get_of_end_le (by simp [indexEnd]; omega)
  · rfl
  · rw [get_of_end_le (by simp [indexEnd]; omega), get_cons, if_neg (by omega), get_nil]

theorem get_erase (m : DeqMap α) {i : Int} (hb : m.begin ≤ i) (he : i < m.indexEnd) :
    (m.erase i).get = Function.update m.get i none := by
  have hne : m.base ≠ [] := by
    intro h
    unfold indexEnd at he
    simp [h] at he
    omega
  unfold erase
  split_ifs with h₁ h₂
  · rw [get_popFront m hne, h₁]
  · rw [get_popBack m hne, h₂]
  · exact get_assign m hb he none

/-- Dropping `k` slots at the front. -/
theorem get_dropFront (m : DeqMap α) (k : Nat) (j : Int) :
    (⟨m.begin + k, m.base.drop k⟩ : DeqMap α).get j = if j < m.begin + k then none else m.get j := by
  obtain ⟨b, base⟩ := m
  dsimp only
  split_ifs with h
  · exact get_of_lt h
  · by_cases hk : k ≤ base.length
    · conv_rhs => rw [← List.take_append_drop k base]
      rw [get_append, List.length_take_of_le hk, if_neg h]
    · rw [List.drop_eq_nil_of_le (by omega), get_nil, get_of_end_le (by unfold indexEnd; dsimp only; omega)]

/-- Keeping `k` slots at the front. -/
theorem get_takeFront (m : DeqMap α) (k : Nat) (j : Int) :
    (⟨m.begin, m.base.take k⟩ : DeqMap α).get j = if j < m.begin + k then m.get j else none := by
  obtain ⟨b, base⟩ := m
  dsimp only
  by_cases hk : k ≤ base.length
  · split_ifs with h
    · conv_rhs => rw [← List.take_append_drop k base]
      rw [get_append, List.length_take_of_le hk, if_pos h]
    · exact get_of_end_le (by unfold indexEnd; dsimp only; rw [List.length_take_of_le hk]; omega)
  · rw [List.take_of_length_le (by omega)]
    split_ifs with h
    · rfl
    · exact get_of_end_le (by unfold indexEnd; dsimp only; omega)

/-- Popping an unset front changes no value … -/
theorem get_popFront_of_unset (m : DeqMap α) (hne : m.base ≠ []) (h : (m.base.headD none).isNone) :
    m.popFront.get = m.get := by
  rw [get_popFront m hne]
  apply Function.update_eq_self_iff.2
  obtain ⟨x, xs, hx⟩ := List.exists_cons_of_ne_nil hne
  rw [get_begin, hx]
  rw [hx] at h
  exact (Option.isNone_iff_eq_none.1 h).symm

/-- … nor does popping an unset back. -/
theorem get_popBack_of_unset (m : DeqMap α) (hne : m.base ≠ []) (h : (m.base.getLastD none).isNone) :
    m.popBack.get = m.get := by
  rw [get_popBack m hne]
  apply Function.update_eq_self_iff.2
  rw [get_indexBack m hne]
  rw [List.getLastD_eq_getLast?] at h
  rcases hl : m.base.getLast? with _ | x
  · rfl
  · rw [hl] at h
    exact (Option.isNone_iff_eq_none.1 h).symm

/-- The test `erase(first, last)` makes before it pops: the slots left
    are not empty and the end it looks at is unset. -/
theorem nonempty_unset {xs : List (Option α)} {x : Option α} (h : (!xs.isEmpty && x.isNone) = true) :
    xs ≠ [] ∧ x.isNone := by
  obtain ⟨hne, hx⟩ := Bool.and_eq_true_iff.1 h
  exact ⟨fun hnil => by simp [hnil] at hne, hx⟩

/-- `erase(first, last)` unsets the indices of `[first, last)`. -/
theorem get_eraseRange (m : DeqMap α) {first last : Int} (h₁ : m.begin ≤ first) (h₂ : first ≤ last) :
    (m.eraseRange first last).get = fun j => if first ≤ j ∧ j < last then none else m.get j := by
  unfold eraseRange
  by_cases hf : first = m.begin
  · -- at the front: the dropped slots are the range
    rw [if_pos hf]
    dsimp only
    have hdrop : (⟨m.begin + (last - first), m.base.drop (last - first).toNat⟩ : DeqMap α).get =
        fun j => if first ≤ j ∧ j < last then none else m.get j := by
      funext j
      rw [show m.begin + (last - first) = m.begin + (((last - first).toNat : Nat) : Int) by omega,
        get_dropFront m (last - first).toNat]
      by_cases hj : j < m.begin + (((last - first).toNat : Nat) : Int)
      · rw [if_pos hj]
        by_cases hj' : first ≤ j
        · rw [if_pos ⟨hj', by omega⟩]
        · rw [if_neg (fun h => hj' h.1), get_of_lt (by omega)]
      · rw [if_neg hj, if_neg (by omega)]
    split_ifs with hc
    · obtain ⟨hne, hnone⟩ := nonempty_unset hc
      rw [get_popFront_of_unset _ hne hnone, hdrop]
    · exact hdrop
  rw [if_neg hf]
  by_cases hl : last = m.indexEnd
  · -- at the back: the kept slots are those before the range
    rw [if_pos hl]
    dsimp only
    have htake : (⟨m.begin, m.base.take (first - m.begin).toNat⟩ : DeqMap α).get =
        fun j => if first ≤ j ∧ j < last then none else m.get j := by
      funext j
      rw [get_takeFront m (first - m.begin).toNat,
        show m.begin + (((first - m.begin).toNat : Nat) : Int) = first by omega]
      by_cases hj : j < first
      · rw [if_pos hj, if_neg (by omega)]
      · rw [if_neg hj]
        by_cases hj' : j < last
        · rw [if_pos ⟨by omega, hj'⟩]
        · rw [if_neg (by omega), get_of_end_le (by omega)]
    split_ifs with hc
    · obtain ⟨hne, hnone⟩ := nonempty_unset hc
      rw [get_popBack_of_unset _ hne hnone, htake]
    · exact htake
  · -- in the middle: the loop unsets the range
    rw [if_neg hl, get_unsetRange _ m h₁, show first + (((last - first).toNat : Nat) : Int) = last by omega]

/-! ## §4. The representation invariant -/

/-- `assert_consistency()` beyond the size: the front slot of a non-empty
    map is set … -/
def FrontSet (m : DeqMap α) : Prop := ∀ x ∈ m.base.head?, x.isSome

/-- … and so is its back slot. -/
def BackSet (m : DeqMap α) : Prop := ∀ x ∈ m.base.getLast?, x.isSome

/-- The ends of a non-empty map are set. -/
structure Trimmed (m : DeqMap α) : Prop where
  front : m.FrontSet
  back : m.BackSet

theorem frontSet_iff (m : DeqMap α) : m.FrontSet ↔ (m.base ≠ [] → (m.get m.begin).isSome) := by
  rw [FrontSet, get_begin]
  rcases h : m.base with _ | ⟨x, xs⟩
  · simp
  · simp

theorem backSet_iff (m : DeqMap α) : m.BackSet ↔ (m.base ≠ [] → (m.get (m.indexEnd - 1)).isSome) := by
  rw [BackSet]
  rcases hl : m.base.getLast? with _ | x
  · simp [List.getLast?_eq_none_iff.1 hl]
  · have hne : m.base ≠ [] := by
      rintro h
      simp [h] at hl
    rw [get_indexBack m hne, hl]
    simp [hne]

/-- A part of a list shares its front with it … -/
theorem head?_eq_of_isPrefix_of_ne_nil {β : Type} {p l : List β} (h : p <+: l) (hne : p ≠ []) : l.head? = p.head? := by
  obtain ⟨t, rfl⟩ := h
  obtain ⟨y, ys, rfl⟩ := List.exists_cons_of_ne_nil hne
  rfl

/-- … or its back. -/
theorem getLast?_eq_of_isSuffix_of_ne_nil {β : Type} {s l : List β} (h : s <:+ l) (hne : s ≠ []) :
    l.getLast? = s.getLast? := by
  obtain ⟨t, rfl⟩ := h
  rw [List.getLast?_append]
  rcases hs : s.getLast? with _ | y
  · exact absurd (List.getLast?_eq_none_iff.1 hs) hne
  · rfl

/-- The front of two slot lists put together. -/
theorem head?_append_isSome {xs ys : List (Option α)} (hx : ∀ x ∈ xs.head?, x.isSome)
    (hy : xs = [] → ∀ y ∈ ys.head?, y.isSome) : ∀ z ∈ (xs ++ ys).head?, z.isSome := by
  rcases xs with _ | ⟨x, xs⟩
  · exact hy rfl
  · exact hx

/-- The back of two slot lists put together. -/
theorem getLast?_append_isSome {xs ys : List (Option α)} (hy : ∀ y ∈ ys.getLast?, y.isSome)
    (hx : ys = [] → ∀ x ∈ xs.getLast?, x.isSome) : ∀ z ∈ (xs ++ ys).getLast?, z.isSome := by
  intro z hz
  rcases ys.eq_nil_or_concat' with h | ⟨init, y, rfl⟩
  · subst h
    rw [List.append_nil] at hz
    exact hx rfl z hz
  · rw [← List.append_assoc, List.getLast?_concat] at hz
    exact hy z (by rw [List.getLast?_concat]; exact hz)

/-- An operation that keeps the range and sets no end slot unset keeps
    the invariant. -/
theorem Trimmed.of_frame {m m' : DeqMap α} (ht : m.Trimmed) (hb : m'.begin = m.begin)
    (hl : m'.base.length = m.base.length)
    (hf : (m.get m.begin).isSome → (m'.get m.begin).isSome)
    (hk : (m.get (m.indexEnd - 1)).isSome → (m'.get (m.indexEnd - 1)).isSome) : m'.Trimmed := by
  have hne : m'.base ≠ [] → m.base ≠ [] := by
    intro h h'
    rw [h', List.length_nil, List.length_eq_zero_iff] at hl
    exact h hl
  have hend : m'.indexEnd = m.indexEnd := by
    unfold indexEnd
    rw [hb, hl]
  constructor
  · rw [frontSet_iff, hb]
    exact fun h => hf ((frontSet_iff m).1 ht.front (hne h))
  · rw [backSet_iff, hend]
    exact fun h => hk ((backSet_iff m).1 ht.back (hne h))

/-- Setting a value unsets nothing. -/
theorem isSome_update_some {f : Int → Option α} {i j : Int} {v : α} (h : (f j).isSome) :
    (Function.update f i (some v) j).isSome := by
  rw [Function.update_apply]
  split_ifs
  · rfl
  · exact h

/-- A slot assigned a value inside the range. -/
theorem Trimmed.assign {m : DeqMap α} (ht : m.Trimmed) {i : Int} (hb : m.begin ≤ i) (he : i < m.indexEnd)
    (v : α) : (⟨m.begin, m.base.set (i - m.begin).toNat (some v)⟩ : DeqMap α).Trimmed := by
  refine ht.of_frame rfl (List.length_set ..) ?_ ?_
  · rw [get_assign m hb he]
    exact isSome_update_some
  · rw [get_assign m hb he]
    exact isSome_update_some

theorem trimmed_clear (b : Int) : (clear b : DeqMap α).Trimmed :=
  ⟨by simp [FrontSet, clear], by simp [BackSet, clear]⟩

theorem Trimmed.pushFront {m : DeqMap α} (ht : m.Trimmed) (v : α) : (m.pushFront v).Trimmed := by
  constructor
  · simp [FrontSet, DeqMap.pushFront]
  · intro x hx
    simp only [DeqMap.pushFront, List.getLast?_cons, Option.mem_def, Option.some.injEq] at hx
    rcases hl : m.base.getLast? with _ | y
    · rw [hl] at hx
      simp [← hx]
    · rw [hl] at hx
      exact hx ▸ ht.back y hl

theorem Trimmed.pushBack {m : DeqMap α} (ht : m.Trimmed) (v : α) : (m.pushBack v).Trimmed := by
  constructor
  · intro x hx
    simp only [DeqMap.pushBack, List.head?_append] at hx
    rcases hh : m.base.head? with _ | y
    · rw [hh] at hx
      simp only [List.head?_cons, Option.none_or, Option.mem_def, Option.some.injEq] at hx
      simp [← hx]
    · rw [hh] at hx
      have hy : y = x := by simpa using hx
      exact hy ▸ ht.front y hh
  · simp [BackSet, DeqMap.pushBack]

theorem Trimmed.insert {m : DeqMap α} (ht : m.Trimmed) (i : Int) (v : α) : (m.insert i v).Trimmed := by
  unfold DeqMap.insert
  split_ifs with hempty hend hbegin
  · exact ⟨by simp [FrontSet], by simp [BackSet]⟩
  · -- past the end: the front stays, the back is the new value
    have hne : m.base ≠ [] := fun h => hempty (List.isEmpty_iff.2 h)
    exact ⟨head?_append_isSome (head?_append_isSome ht.front (absurd · hne))
        (fun h => absurd (List.append_eq_nil_iff.1 h).1 hne),
      getLast?_append_isSome (by simp) (fun h => by simp at h)⟩
  · -- before the front: the front is the new value, the back stays
    have hne : m.base ≠ [] := fun h => hempty (List.isEmpty_iff.2 h)
    refine ⟨by simp [FrontSet], ?_⟩
    show ∀ z ∈ ([some v] ++ (List.replicate (m.begin - i - 1).toNat none ++ m.base)).getLast?, z.isSome
    exact getLast?_append_isSome (getLast?_append_isSome ht.back (absurd · hne))
      (fun h => absurd (List.append_eq_nil_iff.1 h).2 hne)
  · exact ht.assign (by omega) (by omega) v

theorem Trimmed.insertAt {m : DeqMap α} (ht : m.Trimmed) {p : Int} (hb : m.begin ≤ p) (he : p ≤ m.indexEnd)
    (v : α) : (m.insertAt p v).Trimmed := by
  unfold DeqMap.insertAt
  split_ifs with hp
  · exact ht.pushBack v
  · exact ht.assign hb (by omega) v

theorem Trimmed.insertN {v : α} : ∀ (n : Nat) {p : Int} {m : DeqMap α}, m.Trimmed → m.begin ≤ p →
    p ≤ m.indexEnd → (insertN v n p m).Trimmed
  | 0, _, _, ht, _, _ => ht
  | n + 1, p, m, ht, hb, he => by
    rw [DeqMap.insertN]
    split_ifs with hp
    · -- the rest of the values go after the end
      exact ⟨head?_append_isSome ht.front (fun _ => by simp [List.head?_replicate]),
        getLast?_append_isSome (by simp [List.getLast?_replicate]) (fun h => by simp at h)⟩
    · have hlen : (⟨m.begin, m.base.set (p - m.begin).toNat (some v)⟩ : DeqMap α).indexEnd = m.indexEnd := by
        simp [indexEnd]
      exact Trimmed.insertN n (ht.assign hb (by omega) v) (show m.begin ≤ p + 1 by omega)
        (by rw [hlen]; omega)

/-- What trimming the front leaves. -/
theorem trimFront_base : ∀ (b : Int) (xs : List (Option α)),
    (trimFront b xs).base = xs.dropWhile Option.isNone
  | b, none :: xs => by rw [trimFront, trimFront_base (b + 1) xs, List.dropWhile_cons_of_pos rfl]
  | _, some _ :: _ => rfl
  | _, [] => rfl

theorem frontSet_popFront (m : DeqMap α) : m.popFront.FrontSet := by
  obtain ⟨b, base⟩ := m
  cases base with
  | nil => simp [FrontSet, DeqMap.popFront]
  | cons x xs => exact trimFront_head (b + 1) xs

/-- `pop_front()` keeps the back slot of what it leaves. -/
theorem BackSet.popFront {m : DeqMap α} (h : m.BackSet) : m.popFront.BackSet := by
  obtain ⟨b, base⟩ := m
  cases base with
  | nil => exact h
  | cons x xs =>
    intro y hy
    simp only [DeqMap.popFront] at hy
    rw [trimFront_base] at hy
    have hne : xs.dropWhile Option.isNone ≠ [] := by
      rintro hnil
      simp [hnil] at hy
    have hsuf : xs.dropWhile Option.isNone <:+ x :: xs := (List.dropWhile_suffix _).trans (List.suffix_cons x xs)
    exact h y (by rw [getLast?_eq_of_isSuffix_of_ne_nil hsuf hne]; exact hy)

/-- Trimming the back leaves a prefix. -/
theorem isPrefix_trimBack (xs : List (Option α)) : (xs.reverse.dropWhile Option.isNone).reverse <+: xs := by
  simpa using (List.dropWhile_suffix Option.isNone (l := xs.reverse)).reverse

theorem backSet_popBack (m : DeqMap α) : m.popBack.BackSet :=
  trimBack_getLast m.base.dropLast

/-- `pop_back()` keeps the front slot of what it leaves. -/
theorem FrontSet.popBack {m : DeqMap α} (h : m.FrontSet) : m.popBack.FrontSet := by
  intro y hy
  have hne : (m.base.dropLast.reverse.dropWhile Option.isNone).reverse ≠ [] := by
    rintro hnil
    simp only [DeqMap.popBack] at hy
    simp [hnil] at hy
  have hdrop : m.base.dropLast <+: m.base := List.dropLast_prefix m.base
  have hpre := (isPrefix_trimBack m.base.dropLast).trans hdrop
  exact h y (by rw [head?_eq_of_isPrefix_of_ne_nil hpre hne]; exact hy)

theorem Trimmed.popFront {m : DeqMap α} (ht : m.Trimmed) : m.popFront.Trimmed :=
  ⟨frontSet_popFront m, ht.back.popFront⟩

theorem Trimmed.popBack {m : DeqMap α} (ht : m.Trimmed) : m.popBack.Trimmed :=
  ⟨ht.front.popBack, backSet_popBack m⟩

theorem Trimmed.erase {m : DeqMap α} (ht : m.Trimmed) {i : Int} (hb : m.begin ≤ i) (he : i < m.indexEnd) :
    (m.erase i).Trimmed := by
  unfold DeqMap.erase
  split_ifs with h₁ h₂
  · exact ht.popFront
  · exact ht.popBack
  · -- a slot strictly inside: the ends are not touched
    refine ht.of_frame rfl (List.length_set ..) ?_ ?_
    · rw [get_assign m hb he, Function.update_of_ne (Ne.symm h₁)]
      exact id
    · rw [get_assign m hb he, Function.update_of_ne (fun h => h₂ h.symm)]
      exact id

/-- The middle loop of `erase(first, last)` keeps the range. -/
theorem begin_unsetRange : ∀ (n : Nat) (i : Int) (m : DeqMap α), (unsetRange n i m).begin = m.begin
  | 0, _, _ => rfl
  | n + 1, i, m => by rw [unsetRange, begin_unsetRange n (i + 1)]

theorem length_unsetRange : ∀ (n : Nat) (i : Int) (m : DeqMap α),
    (unsetRange n i m).base.length = m.base.length
  | 0, _, _ => rfl
  | n + 1, i, m => by rw [unsetRange, length_unsetRange n (i + 1), List.length_set]

/-- A kept front slot that is not unset is set. -/
theorem FrontSet.of_not_unset {m : DeqMap α}
    (h : ¬(!m.base.isEmpty && (m.base.headD none).isNone) = true) : m.FrontSet := by
  intro x hx
  obtain ⟨y, ys, hys⟩ : ∃ y ys, m.base = y :: ys := by
    rcases hb : m.base with _ | ⟨y, ys⟩
    · simp [hb] at hx
    · exact ⟨y, ys, rfl⟩
  rw [hys] at h hx
  simp only [List.head?_cons, Option.mem_def, Option.some.injEq] at hx
  subst hx
  exact Option.ne_none_iff_isSome.1 (by simpa using h)

/-- A kept back slot that is not unset is set. -/
theorem BackSet.of_not_unset {m : DeqMap α}
    (h : ¬(!m.base.isEmpty && (m.base.getLastD none).isNone) = true) : m.BackSet := by
  intro x hx
  have hne : m.base ≠ [] := by
    rintro hb
    simp [hb] at hx
  rw [List.getLastD_eq_getLast?, Option.mem_def.1 hx] at h
  exact Option.ne_none_iff_isSome.1 (by simpa [hne] using h)

theorem Trimmed.eraseRange {m : DeqMap α} (ht : m.Trimmed) {first last : Int} (h₁ : m.begin ≤ first)
    (h₂ : first ≤ last) (h₃ : last ≤ m.indexEnd) : (m.eraseRange first last).Trimmed := by
  unfold DeqMap.eraseRange
  by_cases hf : first = m.begin
  · -- at the front: what is left keeps the back; an unset front is popped
    rw [if_pos hf]
    dsimp only
    have hback : (⟨m.begin + (last - first), m.base.drop (last - first).toNat⟩ : DeqMap α).BackSet := by
      intro x hx
      simp only [List.getLast?_drop] at hx
      split_ifs at hx
      · simp at hx
      · exact ht.back x hx
    split_ifs with hc
    · exact ⟨frontSet_popFront _, hback.popFront⟩
    · exact ⟨FrontSet.of_not_unset hc, hback⟩
  rw [if_neg hf]
  by_cases hl : last = m.indexEnd
  · -- at the back: what is left keeps the front; an unset back is popped
    rw [if_pos hl]
    dsimp only
    have hfront : (⟨m.begin, m.base.take (first - m.begin).toNat⟩ : DeqMap α).FrontSet := by
      intro x hx
      simp only [List.head?_take] at hx
      split_ifs at hx
      · simp at hx
      · exact ht.front x hx
    split_ifs with hc
    · exact ⟨hfront.popBack, backSet_popBack _⟩
    · exact ⟨hfront, BackSet.of_not_unset hc⟩
  · -- in the middle: the range is unset, strictly inside the ends
    rw [if_neg hl]
    have hend : last < m.indexEnd := by omega
    have hget := get_unsetRange (last - first).toNat m h₁
    refine ht.of_frame (begin_unsetRange ..) (length_unsetRange ..) ?_ ?_
    · simp only [hget]
      rw [if_neg (by omega)]
      exact id
    · simp only [hget]
      rw [if_neg (by omega)]
      exact id

/-! ## §5. Keys, `find` and `upper_bound` -/

/-- The keys of a partial map. -/
def keySet (M : Int → Option α) : Set Int := {i | (M i).isSome}

/-- `r` is what `std::map::upper_bound(i)` gives for the partial map `M`
    whose past-the-end index is `e`: its least key above `i`, or `e` if it
    has none. -/
def IsUpperBound (M : Int → Option α) (e i r : Int) : Prop :=
  (∀ j, i < j → j < r → M j = none) ∧ ((i < r ∧ (M r).isSome) ∨ (r = e ∧ ∀ j, i < j → M j = none))

/-- Every key lies in `[index_begin, index_end)`. -/
theorem mem_range_of_mem_keySet {m : DeqMap α} {i : Int} (h : i ∈ keySet m.get) :
    m.indexBegin ≤ i ∧ i < m.indexEnd := by
  change (m.get i).isSome at h
  constructor
  · by_contra hlt
    rw [get_of_lt (by unfold indexBegin at hlt; omega)] at h
    simp at h
  · by_contra hle
    rw [get_of_end_le (by omega)] at h
    simp at h

/-- The front of a trimmed map is its least key: `pop_front()` takes
    that. -/
theorem Trimmed.indexBegin_least {m : DeqMap α} (ht : m.Trimmed) (hne : m.base ≠ []) :
    IsLeast (keySet m.get) m.indexBegin :=
  ⟨(frontSet_iff m).1 ht.front hne, fun _ hi => (mem_range_of_mem_keySet hi).1⟩

/-- The back of a trimmed map is its greatest key: `pop_back()` takes
    that. -/
theorem Trimmed.indexBack_greatest {m : DeqMap α} (ht : m.Trimmed) (hne : m.base ≠ []) :
    IsGreatest (keySet m.get) (m.indexEnd - 1) :=
  ⟨(backSet_iff m).1 ht.back hne, fun _ hi => by have := (mem_range_of_mem_keySet hi).2; omega⟩

/-- `find(i)` is `end()` exactly off the range. -/
theorem find_eq_end_iff (m : DeqMap α) (i : Int) :
    m.find i = m.indexEnd ↔ ¬(m.indexBegin ≤ i ∧ i < m.indexEnd) := by
  unfold find indexBegin
  split_ifs with h
  · exact ⟨fun he => absurd he (by omega), fun hn => absurd h hn⟩
  · exact ⟨fun _ => h, fun _ => rfl⟩

/-- The loop of `upper_bound`, from `i` with enough steps to reach the
    end: it stops at the first set index or at the end, past unset ones
    only.  Induction on the steps left. -/
theorem nextSet_spec (m : DeqMap α) : ∀ (n : Nat) {i : Int}, i ≤ m.indexEnd → m.indexEnd ≤ i + n →
    i ≤ m.nextSet n i ∧ m.nextSet n i ≤ m.indexEnd ∧ (∀ j, i ≤ j → j < m.nextSet n i → m.get j = none) ∧
      (m.nextSet n i < m.indexEnd → (m.get (m.nextSet n i)).isSome)
  | 0, i, h₁, h₂ => by
    rw [nextSet]
    exact ⟨le_rfl, h₁, fun j hj hj' => absurd hj' (by omega), fun h => absurd h (by omega)⟩
  | n + 1, i, h₁, h₂ => by
    rw [nextSet]
    split_ifs with h
    · -- an unset slot: on from the next one
      obtain ⟨hi, he, hnone, hset⟩ := nextSet_spec m n (i := i + 1) (by omega) (by omega)
      refine ⟨by omega, he, fun j hj hj' => ?_, hset⟩
      rcases eq_or_lt_of_le hj with rfl | hj
      · exact h.2
      · exact hnone j (by omega) hj'
    · -- the end, or a set slot
      refine ⟨le_rfl, h₁, fun j hj hj' => absurd hj' (by omega), fun he => ?_⟩
      exact Option.ne_none_iff_isSome.1 (fun hn => h ⟨he, hn⟩)

/-- `upper_bound(i)` answers for the map: its least key above `i`, or
    `index_end()`.  Below the range the answer is the front, which the
    invariant makes a key. -/
theorem FrontSet.upperBound_spec {m : DeqMap α} (hf : m.FrontSet) (i : Int) :
    IsUpperBound m.get m.indexEnd i (m.upperBound i) := by
  unfold upperBound
  split_ifs with h₁ h₂
  · -- at or past the end
    exact ⟨fun j hj hj' => absurd hj' (by omega), Or.inr ⟨rfl, fun j hj => get_of_end_le (by omega)⟩⟩
  · -- inside the range: the loop
    obtain ⟨hi, he, hnone, hset⟩ := nextSet_spec m (m.indexEnd - i).toNat (i := i + 1) (by omega) (by omega)
    refine ⟨fun j hj hj' => hnone j (by omega) hj', ?_⟩
    rcases lt_or_eq_of_le he with hlt | heq
    · exact Or.inl ⟨by omega, hset hlt⟩
    · refine Or.inr ⟨heq, fun j hj => ?_⟩
      by_cases hj' : j < m.indexEnd
      · exact hnone j (by omega) (by omega)
      · exact get_of_end_le (by omega)
  · -- below the range: the front, a key unless the map is empty
    refine ⟨fun j _ hj' => get_of_lt hj', ?_⟩
    by_cases hne : m.base = []
    · have hend : m.indexEnd = m.begin := by simp [indexEnd, hne]
      refine Or.inr ⟨hend.symm, fun j _ => ?_⟩
      obtain ⟨b, base⟩ := m
      dsimp only at hne
      subst hne
      exact get_nil b j
    · exact Or.inl ⟨by omega, (frontSet_iff m).1 hf hne⟩

/-! ## §6. The partial map the container stands for -/

/-- The operations of the container, with their arguments: an iterator
    argument is the index it points at. -/
inductive Op (α : Type) where
  | insert (i : Int) (v : α)
  | insertAt (p : Int) (v : α)
  | insertN (p : Int) (n : Nat) (v : α)
  | pushFront (v : α)
  | pushBack (v : α)
  | popFront
  | popBack
  | erase (i : Int)
  | eraseRange (first last : Int)
  | clear (b : Int)
  deriving Repr

/-- Each operation on the container. -/
def Op.apply : Op α → DeqMap α → DeqMap α
  | .insert i v, m => m.insert i v
  | .insertAt p v, m => m.insertAt p v
  | .insertN p n v, m => DeqMap.insertN v n p m
  | .pushFront v, m => m.pushFront v
  | .pushBack v, m => m.pushBack v
  | .popFront, m => m.popFront
  | .popBack, m => m.popBack
  | .erase i, m => m.erase i
  | .eraseRange first last, m => m.eraseRange first last
  | .clear b, _ => DeqMap.clear b

/-- Where an operation is defined: an iterator points into the container
    (or at its end, to insert there), and a removal needs something to
    remove. -/
def Op.valid : Op α → DeqMap α → Bool
  | .insertAt p _, m | .insertN p _ _, m => decide (m.begin ≤ p ∧ p ≤ m.indexEnd)
  | .popFront, m | .popBack, m => !m.empty
  | .erase i, m => decide (m.begin ≤ i ∧ i < m.indexEnd)
  | .eraseRange first last, m => decide (m.begin ≤ first ∧ first ≤ last ∧ last ≤ m.indexEnd)
  | _, _ => true

/-- What each operation does to a partial map `M`: `push_front` and
    `push_back` put their value at `index_begin() - 1` and at
    `index_end()`, `lo` and `hi` here; `pop_front` and `pop_back` remove
    the least and the greatest key. -/
noncomputable def Op.mapApply (lo hi : Int) (M : Int → Option α) : Op α → Int → Option α
  | .insert i v | .insertAt i v => Function.update M i (some v)
  | .insertN p n v => fun j => if p ≤ j ∧ j < p + n then some v else M j
  | .pushFront v => Function.update M (lo - 1) (some v)
  | .pushBack v => Function.update M hi (some v)
  | .popFront => Function.update M (sInf (keySet M)) none
  | .popBack => Function.update M (sSup (keySet M)) none
  | .erase i => Function.update M i none
  | .eraseRange first last => fun j => if first ≤ j ∧ j < last then none else M j
  | .clear _ => fun _ => none

/-- A run of operations from `m`, each where it is defined; `none` at the
    first that is not. -/
def run : DeqMap α → List (Op α) → Option (DeqMap α)
  | m, [] => some m
  | m, op :: ops => if op.valid m then run (op.apply m) ops else none

/-- The partial map the same operations build from `M`, the container's
    run giving the positions of the pushes. -/
noncomputable def mapRun : DeqMap α → (Int → Option α) → List (Op α) → Int → Option α
  | _, M, [] => M
  | m, M, op :: ops => mapRun (op.apply m) (op.mapApply m.indexBegin m.indexEnd M) ops

theorem nonempty_of_valid {m : DeqMap α} (hv : (!m.empty) = true) : m.base ≠ [] := by
  intro h
  simp [DeqMap.empty, h] at hv

/-- Every operation keeps the invariant. -/
theorem Op.trimmed_apply {m : DeqMap α} (ht : m.Trimmed) : ∀ {op : Op α}, op.valid m → (op.apply m).Trimmed
  | .insert i v, _ => ht.insert i v
  | .insertAt _ v, hv => ht.insertAt (of_decide_eq_true hv).1 (of_decide_eq_true hv).2 v
  | .insertN _ n _, hv => ht.insertN n (of_decide_eq_true hv).1 (of_decide_eq_true hv).2
  | .pushFront v, _ => ht.pushFront v
  | .pushBack v, _ => ht.pushBack v
  | .popFront, _ => ht.popFront
  | .popBack, _ => ht.popBack
  | .erase _, hv => ht.erase (of_decide_eq_true hv).1 (of_decide_eq_true hv).2
  | .eraseRange _ _, hv =>
    ht.eraseRange (of_decide_eq_true hv).1 (of_decide_eq_true hv).2.1 (of_decide_eq_true hv).2.2
  | .clear b, _ => trimmed_clear b

/-- Every operation acts on the container's map as on a partial map. -/
theorem Op.get_apply {m : DeqMap α} (ht : m.Trimmed) : ∀ {op : Op α}, op.valid m →
    (op.apply m).get = op.mapApply m.indexBegin m.indexEnd m.get
  | .insert i v, _ => get_insert m i v
  | .insertAt p v, hv => get_insertAt m (of_decide_eq_true hv).1 (of_decide_eq_true hv).2 v
  | .insertN p n v, hv => get_insertN v n m (of_decide_eq_true hv).1 (of_decide_eq_true hv).2
  | .pushFront v, _ => get_pushFront m v
  | .pushBack v, _ => get_pushBack m v
  | .popFront, hv => by
    -- the front is the least key
    have hne := nonempty_of_valid hv
    rw [Op.mapApply, IsLeast.csInf_eq (ht.indexBegin_least hne)]
    exact get_popFront m hne
  | .popBack, hv => by
    -- the back is the greatest key
    have hne := nonempty_of_valid hv
    rw [Op.mapApply, IsGreatest.csSup_eq (ht.indexBack_greatest hne)]
    exact get_popBack m hne
  | .erase i, hv => get_erase m (of_decide_eq_true hv).1 (of_decide_eq_true hv).2
  | .eraseRange first last, hv => get_eraseRange m (of_decide_eq_true hv).1 (of_decide_eq_true hv).2.1
  | .clear b, _ => funext (get_clear b)

/-- Along a run, the container stays trimmed and denotes the map the same
    operations build: induction on the operations. -/
theorem run_refines : ∀ (ops : List (Op α)) {m m' : DeqMap α} (M : Int → Option α), m.Trimmed → m.get = M →
    run m ops = some m' → m'.Trimmed ∧ m'.get = mapRun m M ops
  | [], m, m', M, ht, hM, h => by
    rw [run, Option.some.injEq] at h
    subst h
    exact ⟨ht, hM⟩
  | op :: ops, m, m', M, ht, hM, h => by
    rw [run] at h
    split_ifs at h with hv
    subst hM
    rw [mapRun, ← Op.get_apply ht hv]
    exact run_refines ops _ (Op.trimmed_apply ht hv) rfl h

theorem deqmap_refines_partial_map (b : Int) (ops : List (Op α)) {m : DeqMap α}
    (h : run (clear b) ops = some m) :
    m.Trimmed ∧ m.get = mapRun (clear b) (fun _ => none) ops ∧
      (∀ i, m.find i = m.indexEnd ↔ ¬(m.indexBegin ≤ i ∧ i < m.indexEnd)) ∧
      ∀ i, IsUpperBound m.get m.indexEnd i (m.upperBound i) := by
  obtain ⟨ht, hget⟩ := run_refines ops (fun _ => none) (trimmed_clear b) (funext (get_clear b)) h
  exact ⟨ht, hget, find_eq_end_iff m, ht.front.upperBound_spec⟩

theorem deqmap_refines_partial_map_run :
    run (clear 0) [Op.pushBack 7, Op.insert 3 9, Op.popFront] = some (⟨3, [some 9]⟩ : DeqMap Nat) ∧
      (⟨3, [some 9]⟩ : DeqMap Nat).Trimmed ∧
      (⟨3, [some 9]⟩ : DeqMap Nat).get = mapRun (clear 0) (fun _ => none) [Op.pushBack 7, Op.insert 3 9, Op.popFront] ∧
      (∀ i, (⟨3, [some 9]⟩ : DeqMap Nat).find i = (⟨3, [some 9]⟩ : DeqMap Nat).indexEnd ↔
        ¬((⟨3, [some 9]⟩ : DeqMap Nat).indexBegin ≤ i ∧ i < (⟨3, [some 9]⟩ : DeqMap Nat).indexEnd)) ∧
      ∀ i, IsUpperBound (⟨3, [some 9]⟩ : DeqMap Nat).get (⟨3, [some 9]⟩ : DeqMap Nat).indexEnd i
        ((⟨3, [some 9]⟩ : DeqMap Nat).upperBound i) :=
  ⟨rfl, deqmap_refines_partial_map 0 _ rfl⟩

end DeqMap

end Galera.Gcache
