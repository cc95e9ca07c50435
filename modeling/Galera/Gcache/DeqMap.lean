/-
  Galera.Gcache.DeqMap
  ────────────────────
  **THE SEQNO MAP (`gu::DeqMap`, `gu_deqmap.hpp`).**

  `seqno2ptr_t` is a `gu::DeqMap`: a deque of slots for the indices
  `[begin_, end_)`, where a slot may be unset (the null value).  The map
  is kept trimmed: removing the front or the back also removes the unset
  slots behind it, so a non-empty map has set first and last slots.  A
  removal in the middle only unsets the slot.

  Iterators are modelled by the index they stand at, `end()` by
  `indexEnd`; `find` of an index outside the range is `end()`.
-/
import Mathlib

namespace Galera.Gcache

/-- `gu::DeqMap<index_type, value_type>`: `base` holds the slots from
    `begin_` on, `none` the null value. -/
structure DeqMap (α : Type) where
  begin : Int
  base : List (Option α)
  deriving DecidableEq, Repr

namespace DeqMap

variable {α : Type}

/-- `index_begin()`. -/
def indexBegin (m : DeqMap α) : Int := m.begin

/-- `index_end()`. -/
def indexEnd (m : DeqMap α) : Int := m.begin + m.base.length

/-- `empty()`. -/
def empty (m : DeqMap α) : Bool := m.base.isEmpty

/-- `clear(begin)`. -/
def clear (b : Int) : DeqMap α := ⟨b, []⟩

/-- `at(i)`: the value, or `none` where the source throws `NotFound`
    (an index out of range or an unset slot). -/
def get (m : DeqMap α) (i : Int) : Option α :=
  if m.begin ≤ i then (m.base[(i - m.begin).toNat]?).join else none

/-- `find(i)`: the slot of `i`, or `end()` out of range. -/
def find (m : DeqMap α) (i : Int) : Int :=
  if m.begin ≤ i ∧ i < m.indexEnd then i else m.indexEnd

/-- The trimming loop of `pop_front()`: unset slots at the front go. -/
def trimFront : Int → List (Option α) → DeqMap α
  | b, none :: xs => trimFront (b + 1) xs
  | b, xs => ⟨b, xs⟩

/-- `pop_front()`. -/
def popFront (m : DeqMap α) : DeqMap α :=
  match m.base with
  | [] => m
  | _ :: xs => trimFront (m.begin + 1) xs

/-- `pop_back()`: the last slot and the unset slots before it go. -/
def popBack (m : DeqMap α) : DeqMap α :=
  ⟨m.begin, (m.base.dropLast.reverse.dropWhile Option.isNone).reverse⟩

/-- `erase(idx)`: at an end the slot is popped, in the middle unset. -/
def erase (m : DeqMap α) (i : Int) : DeqMap α :=
  if i = m.begin then m.popFront
  else if i = m.indexEnd - 1 then m.popBack
  else ⟨m.begin, m.base.set (i - m.begin).toNat none⟩

/-- `insert(i, val)`: past either end the range grows, with unset slots
    in between. -/
def insert (m : DeqMap α) (i : Int) (v : α) : DeqMap α :=
  if m.base.isEmpty then ⟨i, [some v]⟩
  else if m.indexEnd ≤ i then
    ⟨m.begin, m.base ++ List.replicate (i - m.indexEnd).toNat none ++ [some v]⟩
  else if i < m.begin then ⟨i, some v :: List.replicate (m.begin - i - 1).toNat none ++ m.base⟩
  else ⟨m.begin, m.base.set (i - m.begin).toNat (some v)⟩

/-- `push_front(val)` of a set value. -/
def pushFront (m : DeqMap α) (v : α) : DeqMap α := ⟨m.begin - 1, some v :: m.base⟩

/-- `push_back(val)` of a set value. -/
def pushBack (m : DeqMap α) (v : α) : DeqMap α := ⟨m.begin, m.base ++ [some v]⟩

/-- `insert(position, val)`: at `end()` the value is pushed back, elsewhere
    the slot is assigned. -/
def insertAt (m : DeqMap α) (p : Int) (v : α) : DeqMap α :=
  if p = m.indexEnd then m.pushBack v
  else ⟨m.begin, m.base.set (p - m.begin).toNat (some v)⟩

/-- `insert(position, n, val)`: the slots from `position` on are assigned
    while there are any; the rest of the `n` values go after the end. -/
def insertN (v : α) : Nat → Int → DeqMap α → DeqMap α
  | 0, _, m => m
  | n + 1, p, m =>
    if p = m.indexEnd then ⟨m.begin, m.base ++ List.replicate (n + 1) (some v)⟩
    else insertN v n (p + 1) ⟨m.begin, m.base.set (p - m.begin).toNat (some v)⟩

/-- The loop of `erase(first, last)` in the middle: `n` slots from `i` on
    are unset. -/
def unsetRange : Nat → Int → DeqMap α → DeqMap α
  | 0, _, m => m
  | n + 1, i, m => unsetRange n (i + 1) ⟨m.begin, m.base.set (i - m.begin).toNat none⟩

/-- `erase(first, last)`: a range at the front or at the back goes, with
    the unset slots it uncovers; a range in the middle is only unset. -/
def eraseRange (m : DeqMap α) (first last : Int) : DeqMap α :=
  if first = m.begin then
    let m' : DeqMap α := ⟨m.begin + (last - first), m.base.drop (last - first).toNat⟩
    if !m'.base.isEmpty && (m'.base.headD none).isNone then m'.popFront else m'
  else if last = m.indexEnd then
    let m' : DeqMap α := ⟨m.begin, m.base.take (first - m.begin).toNat⟩
    if !m'.base.isEmpty && (m'.base.getLastD none).isNone then m'.popBack else m'
  else unsetRange (last - first).toNat first m

/-- The loop of `upper_bound`: on from `i` while the slot is unset. -/
def nextSet (m : DeqMap α) : Nat → Int → Int
  | 0, i => i
  | n + 1, i => if i < m.indexEnd ∧ m.get i = none then m.nextSet n (i + 1) else i

/-- `upper_bound(i)`: the first set index after `i`, or `end()`. -/
def upperBound (m : DeqMap α) (i : Int) : Int :=
  if m.indexEnd ≤ i then m.indexEnd
  else if m.begin ≤ i then m.nextSet (m.indexEnd - i).toNat (i + 1)
  else m.begin

/-! ## Lemmas -/

/-- Dropping a slot from the front moves `begin_` on and keeps the other
    indices' values. -/
theorem get_cons_of_ne (b : Int) (x : Option α) (xs : List (Option α)) {i : Int} (h : i ≠ b) :
    (⟨b, x :: xs⟩ : DeqMap α).get i = (⟨b + 1, xs⟩ : DeqMap α).get i := by
  unfold get
  by_cases h1 : b + 1 ≤ i
  · have hb : b ≤ i := by omega
    have hidx : (i - b).toNat = (i - (b + 1)).toNat + 1 := by omega
    simp only [hb, h1, if_true, hidx, List.getElem?_cons_succ]
  · have hb : ¬ b ≤ i := by omega
    simp only [hb, h1, if_false]

/-- Trimming drops unset slots only. -/
theorem get_trimFront : ∀ (b : Int) (xs : List (Option α)) (i : Int),
    (trimFront b xs).get i = (⟨b, xs⟩ : DeqMap α).get i
  | b, none :: xs, i => by
    rw [trimFront, get_trimFront (b + 1) xs i]
    by_cases h : i = b
    · -- the dropped slot was unset; after the trim `i` is below the range
      subst h
      have hlt : ¬ i + 1 ≤ i := by omega
      simp [get, hlt]
    · rw [get_cons_of_ne b none xs h]
  | _, some _ :: _, _ => rfl
  | _, [], _ => rfl

/-- `pop_front()` keeps every index but the first. -/
theorem get_popFront_of_ne {m : DeqMap α} {i : Int} (h : i ≠ m.begin) :
    m.popFront.get i = m.get i := by
  obtain ⟨b, base⟩ := m
  cases base with
  | nil => rfl
  | cons x xs =>
    simp only [popFront]
    rw [get_trimFront, get_cons_of_ne b x xs h]

end DeqMap

end Galera.Gcache
