/-
  Galera.Gcache.RbReset
  ─────────────────────
  **`RingBuffer::reset()` OVER THE SEQNO MAP (`gcache_rb_store.cpp`).**

  `reset` walks `seqno2ptr_` from `begin()` to `end()` with one iterator
  and erases each entry whose buffer header names this ring buffer as its
  `ctx`, going on with `++i` after every `erase(i)`.  The map's iterators
  are the deque's, so the walk visits the holes as well, and `erase` at
  either end pops the slot and the unset slots it uncovers
  (`Galera.Gcache.DeqMap`).

  An iterator is modelled by the index it stands at.  Reading the slot
  under it, `ptr2BH(*i)->ctx`, needs a buffer there: a hole holds the null
  pointer, and a slot past the deque's end holds none.  The loop then ends
  in `ResetEnd.noBuffer`.

    * `resetSeqno2ptr_of_hole` — a map with a hole: the loop reaches the
      first hole and dereferences its null pointer;
    * `resetSeqno2ptr_of_back` — a map without holes whose back entry is in
      this ring buffer, with some entry elsewhere: `erase` pops the back,
      and `++i` steps past the new `end()`;
    * `resetSeqno2ptr_done` — every other map without holes: the loop ends,
      with exactly the entries of the other stores, at their seqnos;
    * `ring_buffer_reset_seqno2ptr` — the three outcomes together.
-/
import Mathlib
import Galera.Gcache.DeqMapRefine
import Galera.Gcache.RingBuffer

namespace Galera.Gcache

open Function (update)

/-- How the loop of `RingBuffer::reset()` ends. -/
inductive ResetEnd (α : Type) where
  /-- `i == seqno2ptr_.end()`: the map it leaves. -/
  | done (m : DeqMap α)
  /-- `ptr2BH(*i)` at the index `i`, whose slot holds no buffer: a hole,
      or a slot past the end of the deque. -/
  | noBuffer (i : Int)
  /-- The fuel ran out. -/
  | outOfFuel
  deriving DecidableEq, Repr

namespace DeqMap

variable {α : Type} (inRb : α → Bool)

/-! ## §1. The loop -/

/-- The loop of `RingBuffer::reset()` from the iterator at index `i`:
    `inRb p` is `ptr2BH(p)->ctx == this`. -/
def resetLoop : Nat → DeqMap α → Int → ResetEnd α
  | 0, _, _ => .outOfFuel
  | n + 1, m, i =>
    if i = m.indexEnd then .done m
    else
      match m.get i with
      | none => .noBuffer i
      | some p => resetLoop n (if inRb p then m.erase i else m) (i + 1)

/-- The loop of `RingBuffer::reset()` over the whole map, from `begin()`:
    one step a slot, and one more at the end. -/
def resetSeqno2ptr (m : DeqMap α) : ResetEnd α :=
  resetLoop inRb (m.base.length + 1) m m.begin

/-! ## §2. Slots -/

variable {inRb}

/-- The slot after a prefix of the deque. -/
theorem get_append_cons (b : Int) (xs : List (Option α)) (y : Option α) (ys : List (Option α)) :
    (⟨b, xs ++ y :: ys⟩ : DeqMap α).get (b + xs.length) = y := by
  rw [get_append, if_neg (by omega), get_cons, if_pos rfl]

/-- A map whose base is another's, each slot filtered, reads filtered. -/
theorem get_map_filter (f : α → Bool) (b : Int) (xs : List (Option α)) (j : Int) :
    (⟨b, xs.map (Option.filter f)⟩ : DeqMap α).get j = ((⟨b, xs⟩ : DeqMap α).get j).filter f := by
  simp only [get]
  split_ifs
  · rw [List.getElem?_map]
    cases xs[(j - b).toNat]? with
    | none => rfl
    | some x => rfl
  · rfl

/-- Trimming a front that is set, or empty, changes nothing. -/
theorem trimFront_of_head {b : Int} {xs : List (Option α)} (h : ∀ x ∈ xs.head?, x.isSome) :
    trimFront b xs = ⟨b, xs⟩ := by
  cases xs with
  | nil => rfl
  | cons x xs =>
    obtain ⟨p, rfl⟩ := Option.isSome_iff_exists.mp (h x rfl)
    rfl

/-- `erase` in the middle unsets the slot. -/
theorem erase_middle {b : Int} {done rest : List (Option α)} (y : Option α) (hd : done ≠ [])
    (hr : rest ≠ []) :
    (⟨b, done ++ y :: rest⟩ : DeqMap α).erase (b + done.length) = ⟨b, (done ++ [none]) ++ rest⟩ := by
  have hd' := List.length_pos_iff.mpr hd
  have hr' := List.length_pos_iff.mpr hr
  simp only [erase, indexEnd, List.length_append, List.length_cons]
  rw [if_neg (by omega), if_neg (by omega), show (b + done.length - b).toNat = done.length by omega,
    List.set_append_right _ _ (Nat.le_refl _), Nat.sub_self, List.set_cons_zero, List.append_assoc,
    List.singleton_append]

/-- `erase` of the back pops it, and the end moves back past it. -/
theorem indexEnd_erase_back {b : Int} {done : List (Option α)} (y : Option α) (hd : done ≠ []) :
    ((⟨b, done ++ [y]⟩ : DeqMap α).erase (b + done.length)).indexEnd ≤ b + done.length := by
  have hd' := List.length_pos_iff.mpr hd
  have hlen := (List.dropWhile_suffix Option.isNone (l := done.reverse)).length_le
  simp only [erase, indexEnd, popBack, List.length_append, List.length_singleton]
  rw [if_neg (by omega), if_pos (by omega), List.dropLast_concat]
  simp only [List.length_reverse] at hlen ⊢
  omega

/-! ## §3. One step -/

/-- At the front, an entry of this ring buffer is popped, with the holes
    behind it. -/
theorem resetLoop_front_rb {n : Nat} {b : Int} {p : α} (rest : List (Option α)) (hp : inRb p = true) :
    resetLoop inRb (n + 1) ⟨b, some p :: rest⟩ b = resetLoop inRb n (trimFront (b + 1) rest) (b + 1) := by
  have hend : b ≠ (⟨b, some p :: rest⟩ : DeqMap α).indexEnd := by
    simp only [indexEnd, List.length_cons]
    omega
  rw [resetLoop, if_neg hend, get_begin]
  simp only [List.head?_cons, Option.join_some, hp, if_true, erase, popFront]

/-- At the front, an entry of another store stays, and the walk goes on
    in the middle. -/
theorem resetLoop_front_keep {n : Nat} {b : Int} {p : α} (rest : List (Option α)) (hp : inRb p = false) :
    resetLoop inRb (n + 1) ⟨b, some p :: rest⟩ b =
      resetLoop inRb n ⟨b, [some p] ++ rest⟩ (b + [some p].length) := by
  have hend : b ≠ (⟨b, some p :: rest⟩ : DeqMap α).indexEnd := by
    simp only [indexEnd, List.length_cons]
    omega
  rw [resetLoop, if_neg hend, get_begin]
  simp only [List.head?_cons, Option.join_some, hp, Bool.false_eq_true, if_false]
  rfl

/-- In the middle, past a kept prefix `done`, a set slot is filtered: an
    entry of this ring buffer is unset, unless it is the back. -/
theorem resetLoop_middle {n : Nat} {b : Int} {done rest : List (Option α)} {p : α} (hd : done ≠ [])
    (hback : rest ≠ [] ∨ inRb p = false) :
    resetLoop inRb (n + 1) ⟨b, done ++ some p :: rest⟩ (b + done.length) =
      resetLoop inRb n ⟨b, (done ++ [(some p).filter (fun q => !inRb q)]) ++ rest⟩
        (b + (done ++ [(some p).filter (fun q => !inRb q)]).length) := by
  have hend : b + done.length ≠ (⟨b, done ++ some p :: rest⟩ : DeqMap α).indexEnd := by
    simp only [indexEnd, List.length_append, List.length_cons]
    omega
  have hidx : b + ((done ++ [(some p).filter (fun q => !inRb q)]).length : Int) = b + done.length + 1 := by
    simp only [List.length_append, List.length_singleton]
    omega
  rw [resetLoop, if_neg hend, get_append_cons, hidx]
  dsimp only
  cases hp : inRb p with
  | true =>
    rw [if_pos rfl, erase_middle _ hd (hback.resolve_right (by simp [hp]))]
    simp [Option.filter, hp]
  | false =>
    simp [Option.filter, hp]

/-! ## §4. In the middle -/

/-- In the middle, a hole ahead is reached. -/
theorem resetLoop_middle_hole {b : Int} (post : List (Option α)) :
    ∀ (pre done : List (Option α)) (fuel : Nat), done ≠ [] → (∀ x ∈ pre, x.isSome) → pre.length < fuel →
      resetLoop inRb fuel ⟨b, done ++ (pre ++ none :: post)⟩ (b + done.length) =
        .noBuffer (b + done.length + pre.length)
  | [], done, n + 1, _, _, _ => by
    have hend : b + done.length ≠ (⟨b, done ++ ([] ++ none :: post)⟩ : DeqMap α).indexEnd := by
      simp only [indexEnd, List.length_append, List.length_cons]
      omega
    rw [resetLoop, if_neg hend, List.nil_append, get_append_cons]
    simp
  | x :: pre, done, n + 1, hd, hset, hfuel => by
    obtain ⟨p, rfl⟩ := Option.isSome_iff_exists.mp (hset x (List.mem_cons_self ..))
    rw [List.cons_append, resetLoop_middle hd (.inl (by simp)),
      resetLoop_middle_hole post pre _ n (by simp) (fun x hx => hset x (List.mem_cons_of_mem _ hx))
        (by simp only [List.length_cons] at hfuel; omega)]
    simp only [List.length_append, List.length_cons, List.length_nil]
    congr 1
    omega

/-- In the middle, with no hole ahead: the back entry of this ring buffer
    is popped, and the iterator steps past the new end. -/
theorem resetLoop_middle_back {b : Int} {p : α} (hp : inRb p = true) :
    ∀ (pre done : List (Option α)) (fuel : Nat), done ≠ [] → (∀ x ∈ pre, x.isSome) →
      pre.length + 1 < fuel →
      resetLoop inRb fuel ⟨b, done ++ (pre ++ [some p])⟩ (b + done.length) =
        .noBuffer (b + done.length + pre.length + 1)
  | [], done, n + 2, hd, _, _ => by
    have hend : b + done.length ≠ (⟨b, done ++ ([] ++ [some p])⟩ : DeqMap α).indexEnd := by
      simp only [indexEnd, List.length_append, List.length_cons, List.length_nil]
      omega
    have hpast := indexEnd_erase_back (b := b) (some p) hd
    rw [resetLoop, if_neg hend, List.nil_append, get_append_cons]
    simp only [hp, if_true]
    rw [resetLoop, if_neg (by omega), get_of_end_le (by omega)]
    simp
  | x :: pre, done, n + 1, hd, hset, hfuel => by
    obtain ⟨q, rfl⟩ := Option.isSome_iff_exists.mp (hset x (List.mem_cons_self ..))
    rw [List.cons_append, resetLoop_middle hd (.inl (by simp)),
      resetLoop_middle_back hp pre _ n (by simp) (fun x hx => hset x (List.mem_cons_of_mem _ hx))
        (by simp only [List.length_cons] at hfuel; omega)]
    simp only [List.length_append, List.length_cons, List.length_nil]
    congr 1
    omega

/-- In the middle, with no hole ahead and a back entry of another store:
    the loop ends, every slot ahead filtered. -/
theorem resetLoop_middle_done {b : Int} :
    ∀ (rest done : List (Option α)) (fuel : Nat), done ≠ [] → (∀ x ∈ rest, x.isSome) →
      (∀ p, rest.getLast? = some (some p) → inRb p = false) → rest.length < fuel →
      resetLoop inRb fuel ⟨b, done ++ rest⟩ (b + done.length) =
        .done ⟨b, done ++ rest.map (Option.filter fun q => !inRb q)⟩
  | [], done, n + 1, _, _, _, _ => by
    have hend : b + done.length = (⟨b, done ++ []⟩ : DeqMap α).indexEnd := by
      simp only [indexEnd, List.length_append, List.length_nil]
      omega
    rw [resetLoop, if_pos hend]
    simp
  | x :: rest, done, n + 1, hd, hset, hlast, hfuel => by
    obtain ⟨p, rfl⟩ := Option.isSome_iff_exists.mp (hset x (List.mem_cons_self ..))
    -- the back is the only slot of this ring buffer that may not be unset
    have hback : rest ≠ [] ∨ inRb p = false := by
      cases rest with
      | nil => exact .inr (hlast p rfl)
      | cons y ys => exact .inl (List.cons_ne_nil y ys)
    have hlast' : ∀ q, rest.getLast? = some (some q) → inRb q = false := by
      intro q hq
      apply hlast q
      rw [List.getLast?_cons, hq]
      rfl
    rw [resetLoop_middle hd hback, resetLoop_middle_done rest _ n (by simp)
      (fun x hx => hset x (List.mem_cons_of_mem _ hx)) hlast' (by simp only [List.length_cons] at hfuel; omega)]
    simp

/-! ## §5. At the front -/

/-- From the front, a hole is reached. -/
theorem resetLoop_front_hole (post : List (Option α)) :
    ∀ (pre : List (Option α)) (b : Int) (fuel : Nat), (∀ x ∈ pre, x.isSome) → pre.length < fuel →
      resetLoop inRb fuel ⟨b, pre ++ none :: post⟩ b = .noBuffer (b + pre.length)
  | [], b, n + 1, _, _ => by
    have hend : b ≠ (⟨b, [] ++ none :: post⟩ : DeqMap α).indexEnd := by
      simp only [indexEnd, List.length_append, List.length_nil, List.length_cons]
      omega
    rw [resetLoop, if_neg hend, List.nil_append, get_begin]
    simp
  | x :: pre, b, n + 1, hset, hfuel => by
    obtain ⟨p, rfl⟩ := Option.isSome_iff_exists.mp (hset x (List.mem_cons_self ..))
    have hset' : ∀ x ∈ pre, x.isSome := fun x hx => hset x (List.mem_cons_of_mem _ hx)
    cases hp : inRb p with
    | true =>
      rw [List.cons_append, resetLoop_front_rb _ hp]
      cases pre with
      | nil =>
        -- the pop trims the hole behind it: the iterator stands on a popped
        -- slot
        cases n with
        | zero => simp at hfuel
        | succ n =>
          have hend : b + 1 ≠ (trimFront (b + 1) ([] ++ none :: post)).indexEnd := by
            rw [indexEnd_trimFront]
            simp
            omega
          rw [resetLoop, if_neg hend, get_trimFront, List.nil_append, get_cons, if_pos rfl]
          simp
      | cons y pre =>
        obtain ⟨q, rfl⟩ := Option.isSome_iff_exists.mp (hset' y (List.mem_cons_self ..))
        rw [trimFront_of_head (by simp), resetLoop_front_hole post (some q :: pre) (b + 1) n hset'
          (by simp only [List.length_cons] at hfuel ⊢; omega)]
        simp only [List.length_cons]
        congr 1
        omega
    | false =>
      rw [List.cons_append, resetLoop_front_keep _ hp,
        resetLoop_middle_hole post pre [some p] n (by simp) hset' (by simp only [List.length_cons] at hfuel; omega)]
      simp only [List.length_cons, List.length_nil]
      congr 1
      omega

/-- From the front, with no hole: the back entry of this ring buffer, after
    an entry of another store, is popped and the iterator steps past the
    new end. -/
theorem resetLoop_front_back {p : α} (hp : inRb p = true) :
    ∀ (pre : List (Option α)) (b : Int) (fuel : Nat), (∀ x ∈ pre, x.isSome) →
      (∃ q, some q ∈ pre ∧ inRb q = false) → pre.length + 1 < fuel →
      resetLoop inRb fuel ⟨b, pre ++ [some p]⟩ b = .noBuffer (b + pre.length + 1)
  | [], _, _, _, ⟨_, hq, _⟩, _ => by simp at hq
  | x :: pre, b, n + 1, hset, ⟨q, hq, hqrb⟩, hfuel => by
    obtain ⟨x, rfl⟩ := Option.isSome_iff_exists.mp (hset _ (List.mem_cons_self ..))
    have hset' : ∀ x ∈ pre, x.isSome := fun x hx => hset x (List.mem_cons_of_mem _ hx)
    cases hx : inRb x with
    | true =>
      -- the entry elsewhere is still ahead
      have hq' : some q ∈ pre := by
        rcases List.mem_cons.mp hq with h | h
        · cases h
          rw [hx] at hqrb
          cases hqrb
        · exact h
      have hhead : ∀ y ∈ (pre ++ [some p]).head?, y.isSome := by
        intro y hy
        cases pre with
        | nil => simp at hq'
        | cons z zs =>
          simp only [List.cons_append, List.head?_cons, Option.mem_def, Option.some.injEq] at hy
          subst hy
          exact hset' z (List.mem_cons_self ..)
      rw [List.cons_append, resetLoop_front_rb _ hx, trimFront_of_head hhead,
        resetLoop_front_back hp pre (b + 1) n hset' ⟨q, hq', hqrb⟩ (by simp only [List.length_cons] at hfuel; omega)]
      simp only [List.length_cons]
      congr 1
      omega
    | false =>
      rw [List.cons_append, resetLoop_front_keep _ hx,
        resetLoop_middle_back hp pre [some x] n (by simp) hset' (by simp only [List.length_cons] at hfuel; omega)]
      simp only [List.length_cons, List.length_nil]
      congr 1
      omega

/-- From the front, with no hole, and a back entry of another store or no
    entry elsewhere at all: the loop ends with exactly the other stores'
    entries. -/
theorem resetLoop_front_done :
    ∀ (rest : List (Option α)) (b : Int) (fuel : Nat), (∀ x ∈ rest, x.isSome) →
      ((∀ p, rest.getLast? = some (some p) → inRb p = false) ∨ (∀ q, some q ∈ rest → inRb q = true)) →
      rest.length < fuel →
      ∃ m', resetLoop inRb fuel ⟨b, rest⟩ b = .done m' ∧
        ∀ j, m'.get j = ((⟨b, rest⟩ : DeqMap α).get j).filter fun q => !inRb q
  | [], b, n + 1, _, _, _ => by
    refine ⟨⟨b, []⟩, ?_, fun j => by simp [get_nil]⟩
    rw [resetLoop, if_pos (by simp [indexEnd])]
  | x :: rest, b, n + 1, hset, hends, hfuel => by
    obtain ⟨p, rfl⟩ := Option.isSome_iff_exists.mp (hset x (List.mem_cons_self ..))
    have hset' : ∀ x ∈ rest, x.isSome := fun x hx => hset x (List.mem_cons_of_mem _ hx)
    cases hp : inRb p with
    | true =>
      have hends' : (∀ q, rest.getLast? = some (some q) → inRb q = false) ∨
          (∀ q, some q ∈ rest → inRb q = true) := by
        rcases hends with h | h
        · left
          intro q hq
          apply h q
          rw [List.getLast?_cons, hq]
          rfl
        · exact .inr fun q hq => h q (List.mem_cons_of_mem _ hq)
      have hhead : ∀ y ∈ rest.head?, y.isSome := fun y hy => hset' y (List.mem_of_mem_head? hy)
      obtain ⟨m', hrun, hget⟩ := resetLoop_front_done rest (b + 1) n hset' hends' (by simp only [List.length_cons] at hfuel; omega)
      refine ⟨m', by rw [resetLoop_front_rb _ hp, trimFront_of_head hhead, hrun], fun j => ?_⟩
      -- the popped front read through the filter as unset
      rw [hget, get_cons]
      split_ifs with hj
      · rw [hj, get_of_lt (show b < b + 1 by omega)]
        simp [Option.filter, hp]
      · rfl
    | false =>
      -- from here on the walk is in the middle, and the back is elsewhere
      have hlast : ∀ q, rest.getLast? = some (some q) → inRb q = false := by
        rcases hends with h | h
        · intro q hq
          apply h q
          rw [List.getLast?_cons, hq]
          rfl
        · have := h p (List.mem_cons_self ..)
          rw [hp] at this
          cases this
      refine ⟨⟨b, [some p] ++ rest.map (Option.filter fun q => !inRb q)⟩, ?_, fun j => ?_⟩
      · rw [resetLoop_front_keep _ hp, resetLoop_middle_done rest [some p] n (by simp) hset' hlast
          (by simp only [List.length_cons] at hfuel; omega)]
      · have hkeep : [some p] ++ rest.map (Option.filter fun q => !inRb q) =
            (some p :: rest).map (Option.filter fun q => !inRb q) := by
          simp [Option.filter, hp]
        rw [hkeep, get_map_filter]

/-! ## §6. The three outcomes -/

/-- A map with a hole: the loop dereferences the null pointer of the first
    hole. -/
theorem resetSeqno2ptr_of_hole {m : DeqMap α} (h : none ∈ m.base) :
    ∃ j, m.get j = none ∧ m.begin ≤ j ∧ j < m.indexEnd ∧ m.resetSeqno2ptr inRb = .noBuffer j := by
  obtain ⟨b, base⟩ := m
  -- the slots before the first hole are set
  obtain ⟨post, hpost⟩ : ∃ post, base.dropWhile Option.isSome = none :: post := by
    cases hd : base.dropWhile Option.isSome with
    | nil =>
      have := List.dropWhile_eq_nil_iff.mp hd none h
      simp at this
    | cons y ys =>
      have := List.head_dropWhile_not (l := base) Option.isSome (by simp [hd])
      simp only [hd, List.head_cons, Option.isSome_eq_false_iff,
        Option.isNone_iff_eq_none] at this
      exact ⟨ys, by rw [this]⟩
  have hsplit := List.takeWhile_append_dropWhile (p := Option.isSome) (l := base)
  have hpre : ∀ x ∈ base.takeWhile Option.isSome, x.isSome := fun x hx => List.mem_takeWhile_imp hx
  generalize base.takeWhile Option.isSome = pre at hsplit hpre
  rw [hpost] at hsplit
  subst hsplit
  refine ⟨b + pre.length, get_append_cons b pre none post, Int.le_add_of_nonneg_right (by omega), ?_, ?_⟩
  · simp only [indexEnd, List.length_append, List.length_cons]
    omega
  · exact resetLoop_front_hole post pre b _ hpre (by simp only [List.length_append, List.length_cons]; omega)

/-- A map without holes whose back entry is in this ring buffer, with an
    entry of another store: the loop pops the back and reads past the end. -/
theorem resetSeqno2ptr_of_back {m : DeqMap α} (hset : ∀ x ∈ m.base, x.isSome)
    (hback : ∃ p, m.base.getLast? = some (some p) ∧ inRb p = true)
    (hother : ∃ q, some q ∈ m.base ∧ inRb q = false) :
    m.resetSeqno2ptr inRb = .noBuffer m.indexEnd := by
  obtain ⟨b, base⟩ := m
  obtain ⟨p, hlast, hp⟩ := hback
  obtain ⟨pre, hbase⟩ : ∃ pre, base = pre ++ [some p] := by
    obtain ⟨pre, last, h⟩ := (List.eq_nil_or_concat' base).resolve_left (by rintro rfl; simp at hlast)
    rw [h, List.getLast?_concat] at hlast
    cases hlast
    exact ⟨pre, h⟩
  subst hbase
  obtain ⟨q, hq, hqrb⟩ := hother
  -- the entry elsewhere is not the back, which is in this ring buffer
  have hq' : some q ∈ pre := by
    rcases List.mem_append.mp hq with h | h
    · exact h
    · simp only [List.mem_singleton, Option.some.injEq] at h
      subst h
      rw [hp] at hqrb
      cases hqrb
  unfold resetSeqno2ptr
  rw [resetLoop_front_back hp pre b _ (fun x hx => hset x (List.mem_append_left _ hx)) ⟨q, hq', hqrb⟩
    (by simp)]
  congr 1
  simp only [indexEnd, List.length_append, List.length_cons, List.length_nil]
  omega

/-- Every other map without holes: the loop ends with the entries of the
    other stores, each at its seqno, and none of this ring buffer. -/
theorem resetSeqno2ptr_done {m : DeqMap α} (hset : ∀ x ∈ m.base, x.isSome)
    (hends : (∀ p, m.base.getLast? = some (some p) → inRb p = false) ∨ (∀ q, some q ∈ m.base → inRb q = true)) :
    ∃ m', m.resetSeqno2ptr inRb = .done m' ∧ ∀ j, m'.get j = (m.get j).filter fun q => !inRb q :=
  resetLoop_front_done m.base m.begin _ hset hends (Nat.lt_succ_self _)

/-- The loop of `RingBuffer::reset()` on every seqno map, whose entries may
    be in this ring buffer or in other stores.  A map with a hole makes it
    dereference a null pointer.  A map without holes whose back entry is in
    this ring buffer, with some entry elsewhere, makes its iterator pass
    `end()`.  On every other map it ends, keeping exactly the entries of
    the other stores, each at its seqno. -/
theorem ring_buffer_reset_seqno2ptr (inRb : α → Bool) (m : DeqMap α) :
    (none ∈ m.base →
      ∃ j, m.get j = none ∧ m.begin ≤ j ∧ j < m.indexEnd ∧ m.resetSeqno2ptr inRb = .noBuffer j) ∧
    ((∀ x ∈ m.base, x.isSome) → (∃ p, m.base.getLast? = some (some p) ∧ inRb p = true) →
      (∃ q, some q ∈ m.base ∧ inRb q = false) → m.resetSeqno2ptr inRb = .noBuffer m.indexEnd) ∧
    ((∀ x ∈ m.base, x.isSome) →
      (∀ p, m.base.getLast? = some (some p) → inRb p = false) ∨ (∀ q, some q ∈ m.base → inRb q = true) →
      ∃ m', m.resetSeqno2ptr inRb = .done m' ∧ ∀ j, m'.get j = (m.get j).filter fun q => !inRb q) :=
  ⟨resetSeqno2ptr_of_hole, resetSeqno2ptr_of_back, resetSeqno2ptr_done⟩

/-- Seqno 1 in a page, seqno 2 in this ring buffer: `reset` erases the
    back and reads the slot after the new end, index 3. -/
theorem ring_buffer_reset_seqno2ptr_page_then_rb :
    (∀ x ∈ [some StorageType.bufferInPage, some .bufferInRb], x.isSome) ∧
      (⟨1, [some .bufferInPage, some .bufferInRb]⟩ : DeqMap StorageType).resetSeqno2ptr
        (· == .bufferInRb) = .noBuffer 3 :=
  ⟨by decide, (ring_buffer_reset_seqno2ptr (· == .bufferInRb)
    (⟨1, [some .bufferInPage, some .bufferInRb]⟩ : DeqMap StorageType)).2.1 (by decide)
      ⟨.bufferInRb, rfl, rfl⟩ ⟨.bufferInPage, by decide, rfl⟩⟩

end DeqMap

/-! ## §7. The store -/

namespace RingBuffer

/-- `RingBuffer::reset()`, the preamble it writes aside: the seqno map
    without this store's buffers, and the store empty.  The map of
    `RingBuffer` holds this store's buffers only. -/
def reset (rb : RingBuffer) : Option RingBuffer :=
  match rb.seqno2ptr.resetSeqno2ptr (fun _ => true) with
  | .done m =>
    some { rb with seqno2ptr := m, first := 0, next := 0, mem := update rb.mem 0 BufferHeader.clear,
                   sizeFree := rb.sizeCache, sizeUsed := 0, sizeTrail := 0 }
  | _ => none

theorem reset_seqno2ptr {rb rb' : RingBuffer} (h : rb.reset = some rb') (j : Int) :
    rb'.seqno2ptr.get j = none := by
  unfold reset at h
  split at h
  · rename_i m hrun
    cases h
    by_cases hset : ∀ x ∈ rb.seqno2ptr.base, x.isSome
    · obtain ⟨m'', hrun', hget⟩ :=
        @DeqMap.resetSeqno2ptr_done _ (fun _ => true) _ hset (.inr fun _ _ => rfl)
      rw [hrun] at hrun'
      cases hrun'
      rw [hget]
      simp
    · push Not at hset
      obtain ⟨x, hx, hnone⟩ := hset
      have hx' : x = none := Option.not_isSome_iff_eq_none.mp hnone
      subst hx'
      obtain ⟨j, -, -, -, hrun'⟩ := @DeqMap.resetSeqno2ptr_of_hole _ (fun _ => true) _ hx
      rw [hrun] at hrun'
      cases hrun'
  · cases h

end RingBuffer

end Galera.Gcache
