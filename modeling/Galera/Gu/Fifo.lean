/-
  Galera.Gu.Fifo
  ──────────────
  **THE RECEIVE QUEUE (`gu_fifo.c`).**

  `gu_fifo` is a ring of `length` slots, a power of 2, cut into
  `rows_num` rows of `2^col_shift` slots.  A row is allocated when the
  tail first needs it (`gu_fifo_get_tail`) and freed when the head leaves
  its last slot, unless the tail is in the same row (`fifo_advance_head`).
  Producers wait while the queue is full and open, consumers while it is
  empty and no error is set; `get_err` is `-ENODATA` after a close and
  `-ECANCELED` while gets are cancelled.

  Each call, or pair of calls made under one hold of the queue lock, is
  one step (`fifoStep`): a producer's `gu_fifo_get_tail` with its write and
  `gu_fifo_push_tail`, a consumer's `gu_fifo_get_head` with
  `gu_fifo_pop_head`, and each of `gu_fifo_clear`, `gu_fifo_close`,
  `gu_fifo_open`, `gu_fifo_cancel_gets` and `gu_fifo_resume_gets`.  A
  step that would wait is not taken.  `gu_malloc` of a row may fail.

    * `fifoStep_refines`, `guFifoCreate_refines` — while `length` is below
      `2^32`, every step of a queue that `gu_fifo_create` made is a step of
      a FIFO of its items (`FifoSpec`), with the same result, and so is
      every run; `fifoStep_eq_none_iff` — the queue waits exactly when the
      FIFO does;
    * `GuFifo.Inv` — what carries it: `used` is the distance from head to
      tail, the live slots are written and their rows allocated, and
      `alloc` is the header plus one `row_size` for each allocated row;
    * `fifo_used_wraps` — not beyond: `used` is a 32-bit `uint`, and
      `gu_fifo_create` accepts `2^33` slots; after `2^32` puts `used` is 0,
      so the next get waits although no item has been taken.

  The statistics (`q_len`, `used_max`, `used_min`), the wait counters and
  the condition variables are not modelled: a waiting call is a step not
  taken.  A slot is a column of its row; `item_size` only sizes the rows.
-/
import Mathlib
import Galera.Lib.RowRing

namespace Galera.Gu

open Function (update update_self update_of_ne)
open Galera.RowRing (ringView)

/-! ## §1. The queue -/

/-- `ENODATA`. -/
def errnoEnodata : Int := 61

/-- `ECANCELED`. -/
def errnoEcanceled : Int := 125

/-- `EBADFD`. -/
def errnoEbadfd : Int := 77

/-- `GU_LONG_MAX`. -/
def guLongMax : Nat := 2 ^ 63 - 1

/-- `sizeof(void*)`. -/
def sizeofVoidPtr : Nat := 8

/-- `GCS_FIFO_MIN_ROW_POWER`. -/
def gcsFifoMinRowPower : Nat := 10

/-- `struct gu_fifo`: the fields the calls read and write.  `rows r` is
    `none` while row `r` is not allocated, and a row maps each column to
    the item written there. -/
structure GuFifo (β : Type) where
  colShift : Nat
  colMask : Nat
  rowsNum : Nat
  head : Nat
  tail : Nat
  rowSize : Nat
  length : Nat
  lengthMask : Nat
  alloc : Nat
  used : UInt32
  getErr : Int
  closed : Bool
  rows : Nat → Option (Nat → Option β)

/-- The ratio loop of `gu_fifo_create`: rows and the row array grow in
    turn, so that the array takes as many bytes as a row, until they hold
    `length` slots.  Each round doubles the slots, so `length` rounds are
    enough. -/
def fifoRatioLoop (length itemSize : Nat) : Nat → Nat → Nat → Nat × Nat
  | 0, rowPwr, arrayPwr => (rowPwr, arrayPwr)
  | fuel + 1, rowPwr, arrayPwr =>
    if 2 ^ arrayPwr * 2 ^ rowPwr < length then
      if 2 ^ arrayPwr * sizeofVoidPtr < 2 ^ rowPwr * itemSize then
        fifoRatioLoop length itemSize fuel rowPwr (arrayPwr + 1)
      else fifoRatioLoop length itemSize fuel (rowPwr + 1) arrayPwr
    else (rowPwr, arrayPwr)

/-- `gu_fifo_create (length, item_size)` on a 64-bit host, with
    `sizeofFifo` the size of `struct gu_fifo` and `avphys` what
    `gu_avphys_bytes` reports. -/
def guFifoCreate {β : Type} (length itemSize sizeofFifo avphys : Nat) : Option (GuFifo β) :=
  if 0 < length ∧ 0 < itemSize then
    let pwrs := fifoRatioLoop length itemSize length gcsFifoMinRowPower 1
    let rowLen := 2 ^ pwrs.1
    let rowSize := rowLen * itemSize
    let arrayLen := 2 ^ pwrs.2
    let allocSize := arrayLen * sizeofVoidPtr + sizeofFifo
    if arrayLen * rowSize + allocSize > avphys then none
    else if arrayLen * rowLen > guLongMax then none
    else
      some
        { colShift := pwrs.1, colMask := rowLen - 1, rowsNum := arrayLen, head := 0, tail := 0,
          rowSize, length := rowLen * arrayLen, lengthMask := rowLen * arrayLen - 1,
          alloc := allocSize, used := 0, getErr := 0, closed := false, rows := fun _ => none }
  else none

namespace GuFifo

variable {β : Type} (q : GuFifo β)

/-- `FIFO_ROW`. -/
def row (x : Nat) : Nat := x >>> q.colShift

/-- `FIFO_COL`. -/
def col (x : Nat) : Nat := x &&& q.colMask

/-- `FIFO_INC`. -/
def inc (x : Nat) : Nat := (x + 1) &&& q.lengthMask

/-- What slot `x` holds: nothing in a row not allocated. -/
def cell (x : Nat) : Option β := (q.rows (q.row x)).bind fun cells => cells (q.col x)

/-- `fifo_lock_put` waits while the queue is full and open. -/
def putWaits : Bool := q.used.toNat == q.length && !q.closed

/-- `fifo_lock_get` waits while no error is set and the queue is empty. -/
def getWaits : Bool := q.getErr == 0 && q.used == 0

end GuFifo

/-! ## §2. The calls -/

variable {β : Type}

/-- `fifo_advance_head`: the head's row is freed when the head leaves its
    last slot and the tail is in another row. -/
def fifoAdvanceHead (q : GuFifo β) : GuFifo β :=
  let q := if q.col q.head = q.colMask ∧ q.row q.head ≠ q.row q.tail then
      { q with rows := update q.rows (q.row q.head) none, alloc := q.alloc - q.rowSize }
    else q
  { q with head := q.inc q.head, used := q.used - 1 }

/-- `gu_fifo_get_tail` once `fifo_lock_put` stopped waiting: the queue,
    and whether it returned the tail slot; `mallocOk` is whether
    `gu_malloc` of a row succeeds. -/
def guFifoGetTail (q : GuFifo β) (mallocOk : Bool) : GuFifo β × Bool :=
  if q.closed then (q, false)
  else
    match q.rows (q.row q.tail) with
    | some _ => (q, true)
    | none =>
      if mallocOk then
        ({ q with alloc := q.alloc + q.rowSize, rows := update q.rows (q.row q.tail) (some fun _ => none) },
          true)
      else (q, false)

/-- The producer's write of `x` into the tail slot, and
    `gu_fifo_push_tail`. -/
def guFifoPushTail (q : GuFifo β) (x : β) : GuFifo β :=
  { q with
    rows := update q.rows (q.row q.tail)
      ((q.rows (q.row q.tail)).map fun cells => update cells (q.col q.tail) (some x))
    tail := q.inc q.tail
    used := q.used + 1 }

/-- `gu_fifo_get_head` once `fifo_lock_get` stopped waiting: whether it
    returns the head slot, and `*err`. -/
def guFifoGetHead (q : GuFifo β) : Bool × Int :=
  (decide (q.getErr ≠ -errnoEcanceled) && q.used != 0, q.getErr)

/-- `gu_fifo_pop_head`. -/
def guFifoPopHead (q : GuFifo β) : GuFifo β := fifoAdvanceHead q

/-- The loop of `gu_fifo_clear`: `while (q->used > 0) fifo_advance_head (q)`. -/
def fifoClearLoop : Nat → GuFifo β → GuFifo β
  | 0, q => q
  | n + 1, q => if q.used > 0 then fifoClearLoop n (fifoAdvanceHead q) else q

/-- `gu_fifo_clear`: each round takes one from `used`. -/
def guFifoClear (q : GuFifo β) : GuFifo β := fifoClearLoop q.used.toNat q

/-- `fifo_close`: an error already set stays. -/
def fifoClose (q : GuFifo β) : GuFifo β :=
  if q.closed then q
  else { q with closed := true, getErr := if q.getErr = 0 then -errnoEnodata else q.getErr }

/-- `gu_fifo_open`. -/
def guFifoOpen (q : GuFifo β) : GuFifo β := { q with closed := false, getErr := 0 }

/-- `gu_fifo_cancel_gets`, with the queue locked by the caller. -/
def guFifoCancelGets (q : GuFifo β) : GuFifo β × Int :=
  if q.getErr ≠ 0 ∧ q.getErr ≠ -errnoEnodata then (q, -errnoEbadfd)
  else ({ q with getErr := -errnoEcanceled }, 0)

/-- `gu_fifo_resume_gets`. -/
def guFifoResumeGets (q : GuFifo β) : GuFifo β × Int :=
  if q.getErr = -errnoEcanceled then ({ q with getErr := if q.closed then -errnoEnodata else 0 }, 0)
  else (q, -errnoEbadfd)

/-! ## §3. The steps -/

/-- The call pairs, each under the queue lock. -/
inductive FifoOp (β : Type)
  | put (x : β) (mallocOk : Bool)
  | get
  | clear
  | close
  | reopen
  | cancelGets
  | resumeGets

/-- What a call returns: whether a put found a slot; a get's item (`none`
    is NULL) and error; a status. -/
inductive FifoOut (β : Type)
  | put (ok : Bool)
  | get (item : Option β) (err : Int)
  | done
  | ret (r : Int)
  deriving DecidableEq

/-- One call; `none` while it waits. -/
def fifoStep (q : GuFifo β) : FifoOp β → Option (GuFifo β × FifoOut β)
  | .put x mallocOk =>
    if q.putWaits then none
    else
      let r := guFifoGetTail q mallocOk
      if r.2 then some (guFifoPushTail r.1 x, .put true) else some (r.1, .put false)
  | .get =>
    if q.getWaits then none
    else
      let r := guFifoGetHead q
      if r.1 then some (guFifoPopHead q, .get (q.cell q.head) r.2) else some (q, .get none r.2)
  | .clear => some (guFifoClear q, .done)
  | .close => some (fifoClose q, .done)
  | .reopen => some (guFifoOpen q, .done)
  | .cancelGets => some ((guFifoCancelGets q).1, .ret (guFifoCancelGets q).2)
  | .resumeGets => some ((guFifoResumeGets q).1, .ret (guFifoResumeGets q).2)

/-- The calls one after another. -/
def fifoRun (q : GuFifo β) : List (FifoOp β) → Option (GuFifo β)
  | [] => some q
  | op :: ops => (fifoStep q op).bind fun r => fifoRun r.1 ops

/-! ## §4. What the queue is for -/

/-- A FIFO of at most `capacity` items, with the state of its gets. -/
structure FifoSpec (β : Type) where
  items : List β
  capacity : Nat
  closed : Bool
  getErr : Int

namespace FifoSpec

/-- A put waits while the FIFO is full and open; a get while it is empty
    and no error is set; no other call waits. -/
def Waits (a : FifoSpec β) : FifoOp β → Prop
  | .put _ _ => a.items.length = a.capacity ∧ a.closed = false
  | .get => a.getErr = 0 ∧ a.items = []
  | _ => False

/-- One call on the FIFO and what it returns.  A put appends, or finds no
    memory, or finds the FIFO closed; a get takes the first item unless
    gets are cancelled, and returns no item with the error otherwise.  A
    close sets `-ENODATA` unless an error is set; cancelling is refused
    while another error than `-ENODATA` is set, and resuming while gets
    are not cancelled. -/
inductive Step (a : FifoSpec β) : FifoOp β → FifoSpec β → FifoOut β → Prop
  | putPush (x : β) (ok : Bool) : a.closed = false → a.items.length < a.capacity →
      Step a (.put x ok) { a with items := a.items ++ [x] } (.put true)
  | putNoMemory (x : β) : a.closed = false → a.items.length < a.capacity →
      Step a (.put x false) a (.put false)
  | putClosed (x : β) (ok : Bool) : a.closed = true → Step a (.put x ok) a (.put false)
  | getItem (y : β) (rest : List β) : a.getErr ≠ -errnoEcanceled → a.items = y :: rest →
      Step a .get { a with items := rest } (.get (some y) a.getErr)
  | getNone : a.getErr ≠ 0 → (a.getErr = -errnoEcanceled ∨ a.items = []) →
      Step a .get a (.get none a.getErr)
  | clear : Step a .clear { a with items := [] } .done
  | closeOpen : a.closed = false →
      Step a .close { a with closed := true, getErr := if a.getErr = 0 then -errnoEnodata else a.getErr } .done
  | closeClosed : a.closed = true → Step a .close a .done
  | reopen : Step a .reopen { a with closed := false, getErr := 0 } .done
  | cancelGets : (a.getErr = 0 ∨ a.getErr = -errnoEnodata) →
      Step a .cancelGets { a with getErr := -errnoEcanceled } (.ret 0)
  | cancelGetsRefused : a.getErr ≠ 0 → a.getErr ≠ -errnoEnodata → Step a .cancelGets a (.ret (-errnoEbadfd))
  | resumeGets : a.getErr = -errnoEcanceled →
      Step a .resumeGets { a with getErr := if a.closed then -errnoEnodata else 0 } (.ret 0)
  | resumeGetsRefused : a.getErr ≠ -errnoEcanceled → Step a .resumeGets a (.ret (-errnoEbadfd))

/-- The calls one after another. -/
inductive Runs : FifoSpec β → List (FifoOp β) → FifoSpec β → Prop
  | nil (a : FifoSpec β) : Runs a [] a
  | cons {a a₁ a' : FifoSpec β} {op : FifoOp β} {ops : List (FifoOp β)} (out : FifoOut β) :
      Step a op a₁ out → Runs a₁ ops a' → Runs a (op :: ops) a'

end FifoSpec

/-! ## §5. The geometry -/

/-- The fields `gu_fifo_create` sets once. -/
structure FifoGeom where
  colShift : Nat
  colMask : Nat
  rowsNum : Nat
  length : Nat
  lengthMask : Nat
  rowSize : Nat

/-- The masks are those of the row width and of the length, and the
    length, a power of 2, is that of the rows. -/
structure FifoGeom.Ok (g : FifoGeom) : Prop where
  colMask_eq : g.colMask = 2 ^ g.colShift - 1
  lengthMask_eq : g.lengthMask = g.length - 1
  length_eq : g.length = g.rowsNum * 2 ^ g.colShift
  length_pow : ∃ n, g.length = 2 ^ n

namespace GuFifo

variable (q : GuFifo β)

/-- The geometry of the queue. -/
def geom : FifoGeom := ⟨q.colShift, q.colMask, q.rowsNum, q.length, q.lengthMask, q.rowSize⟩

/-- The rows allocated. -/
def allocatedRows : Nat := (List.range q.rowsNum).countP fun r => (q.rows r).isSome

/-- The slots from the head to the tail. -/
def items : List (Option β) := ringView q.cell q.head q.length q.used.toNat

variable {q}

theorem row_eq (x : Nat) : q.row x = x / 2 ^ q.colShift := Nat.shiftRight_eq_div_pow x q.colShift

variable (hg : q.geom.Ok)
include hg

theorem length_pos : 0 < q.length := by
  obtain ⟨n, hn⟩ := hg.length_pow
  rw [show q.length = q.geom.length from rfl, hn]
  exact Nat.two_pow_pos n

theorem col_eq (x : Nat) : q.col x = x % 2 ^ q.colShift := by
  unfold col
  rw [show q.colMask = q.geom.colMask from rfl, hg.colMask_eq]
  exact Nat.and_two_pow_sub_one_eq_mod x q.colShift

theorem inc_eq (x : Nat) : q.inc x = (x + 1) % q.length := by
  obtain ⟨n, hn⟩ := hg.length_pow
  unfold inc
  rw [show q.lengthMask = q.geom.lengthMask from rfl, hg.lengthMask_eq, show q.geom.length = q.length from rfl,
    show q.length = q.geom.length from rfl, hn]
  exact Nat.and_two_pow_sub_one_eq_mod (x + 1) n

/-- A slot of the ring is in one of its rows. -/
theorem row_lt {x : Nat} (hx : x < q.length) : q.row x < q.rowsNum := by
  rw [row_eq]
  apply (Nat.div_lt_iff_lt_mul (Nat.two_pow_pos _)).2
  rw [show q.rowsNum * 2 ^ q.colShift = q.geom.length from hg.length_eq.symm]
  exact hx

/-- Two slots with the same row and column are one. -/
theorem eq_of_row_col {x y : Nat} (hr : q.row x = q.row y) (hc : q.col x = q.col y) : x = y := by
  rw [row_eq, row_eq] at hr
  rw [col_eq hg, col_eq hg] at hc
  rw [← Nat.div_add_mod x (2 ^ q.colShift), ← Nat.div_add_mod y (2 ^ q.colShift), hr, hc]

end GuFifo

/-! ## §6. The invariant -/

/-- What every queue made by `gu_fifo_create` with fewer than `2^32`
    slots keeps, `sizeofFifo` being the size of `struct gu_fifo`: the
    geometry; `used` is the distance from head to tail; the slots from the
    head to the tail are written (so their rows are allocated); and
    `alloc` is the header and the row array plus one `row_size` for each
    allocated row. -/
structure GuFifo.Inv (sizeofFifo : Nat) (q : GuFifo β) : Prop where
  geom : q.geom.Ok
  small : q.length < 2 ^ 32
  head_lt : q.head < q.length
  used_le : q.used.toNat ≤ q.length
  tail_eq : q.tail = (q.head + q.used.toNat) % q.length
  live : ∀ i < q.used.toNat, (q.cell ((q.head + i) % q.length)).isSome
  alloc_eq : q.alloc = q.rowsNum * sizeofVoidPtr + sizeofFifo + q.rowSize * q.allocatedRows

/-- The queue holds the FIFO's items, and has its capacity and the state
    of its gets. -/
structure GuFifo.Abs (sizeofFifo : Nat) (q : GuFifo β) (a : FifoSpec β) : Prop where
  inv : q.Inv sizeofFifo
  items_eq : q.items = a.items.map some
  capacity_eq : a.capacity = q.length
  closed_eq : a.closed = q.closed
  getErr_eq : a.getErr = q.getErr

/-- What `gu_fifo_create` makes holds no item. -/
theorem guFifoCreate_abs {length itemSize sizeofFifo avphys : Nat} {q : GuFifo β}
    (h : guFifoCreate length itemSize sizeofFifo avphys = some q) (hsmall : q.length < 2 ^ 32) :
    q.Abs sizeofFifo ⟨[], q.length, false, 0⟩ := by
  unfold guFifoCreate at h
  dsimp only at h
  split_ifs at h
  cases h
  refine ⟨⟨⟨rfl, rfl, Nat.mul_comm _ _, ⟨_, (Nat.pow_add _ _ _).symm⟩⟩, hsmall, ?_, Nat.zero_le _, ?_,
    fun i hi => absurd hi (Nat.not_lt_zero i), ?_⟩, rfl, rfl, rfl, rfl⟩
  · exact Nat.mul_pos (Nat.two_pow_pos _) (Nat.two_pow_pos _)
  · exact (Nat.zero_mod _).symm
  · -- no row is allocated yet
    simp [GuFifo.allocatedRows]

/-! ## §7. Each call -/

namespace GuFifo

variable {q : GuFifo β} {s : Nat}

/-- `fifo_advance_head` as one record update. -/
theorem fifoAdvanceHead_eq :
    fifoAdvanceHead q =
      { q with
        rows := if q.col q.head = q.colMask ∧ q.row q.head ≠ q.row q.tail then update q.rows (q.row q.head) none
          else q.rows
        alloc := if q.col q.head = q.colMask ∧ q.row q.head ≠ q.row q.tail then q.alloc - q.rowSize else q.alloc
        head := q.inc q.head
        used := q.used - 1 } := by
  unfold fifoAdvanceHead
  split_ifs <;> rfl

@[simp] theorem fifoAdvanceHead_length : (fifoAdvanceHead q).length = q.length := by rw [fifoAdvanceHead_eq]

@[simp] theorem fifoAdvanceHead_closed : (fifoAdvanceHead q).closed = q.closed := by rw [fifoAdvanceHead_eq]

@[simp] theorem fifoAdvanceHead_getErr : (fifoAdvanceHead q).getErr = q.getErr := by rw [fifoAdvanceHead_eq]

theorem fifoAdvanceHead_tail : (fifoAdvanceHead q).tail = q.tail := by rw [fifoAdvanceHead_eq]

theorem fifoAdvanceHead_used : (fifoAdvanceHead q).used = q.used - 1 := by rw [fifoAdvanceHead_eq]

theorem fifoAdvanceHead_geom : (fifoAdvanceHead q).geom = q.geom := by rw [fifoAdvanceHead_eq]; rfl

theorem toNat_eq_zero_iff {u : UInt32} : u.toNat = 0 ↔ u = 0 := by
  rw [← UInt32.toNat_zero, UInt32.toNat_inj]

theorem toNat_sub_one {u : UInt32} (hu : u.toNat ≠ 0) : (u - 1).toNat = u.toNat - 1 := by
  rw [UInt32.toNat_sub_of_le _ _ (UInt32.le_iff_toNat_le.2 (by rw [UInt32.toNat_one]; omega)),
    UInt32.toNat_one]

theorem toNat_add_one {u : UInt32} (hu : u.toNat + 1 < 2 ^ 32) : (u + 1).toNat = u.toNat + 1 := by
  rw [UInt32.toNat_add, UInt32.toNat_one, Nat.mod_eq_of_lt hu]

/-- A row the head leaves for good holds no slot between the head and
    the tail: the walk from the head's last slot would have to come round
    the whole ring, and end in the row. -/
theorem row_ne_of_freed (hi : q.Inv s) (hfree : q.col q.head = q.colMask ∧ q.row q.head ≠ q.row q.tail)
    {i : Nat} (hi1 : 0 < i) (hiu : i < q.used.toNat) :
    q.row ((q.head + i) % q.length) ≠ q.row q.head := by
  have hg := hi.geom
  have hcol : q.head % 2 ^ q.colShift = 2 ^ q.colShift - 1 := by
    rw [← col_eq hg, hfree.1]
    exact hg.colMask_eq
  have hrow : (q.head + q.used.toNat) % q.length / 2 ^ q.colShift ≠ q.head / 2 ^ q.colShift := by
    rw [← hi.tail_eq, ← row_eq, ← row_eq]
    exact hfree.2.symm
  rw [row_eq, row_eq]
  exact RowRing.div_ne_of_last_col (Nat.two_pow_pos _) hi.head_lt hcol hi1 hiu hi.used_le hrow

/-- A slot reads its own row only. -/
theorem cell_eq_of_row {q' : GuFifo β} (hs : q'.colShift = q.colShift) (hm : q'.colMask = q.colMask) {x : Nat}
    (hr : q'.rows (q.row x) = q.rows (q.row x)) : q'.cell x = q.cell x := by
  simp only [cell, row, col, hs, hm] at hr ⊢
  rw [hr]

/-- The slots after the head read the same after `fifo_advance_head`. -/
theorem fifoAdvanceHead_cell (hi : q.Inv s) {i : Nat} (hi1 : 0 < i) (hiu : i < q.used.toNat) :
    (fifoAdvanceHead q).cell ((q.head + i) % q.length) = q.cell ((q.head + i) % q.length) := by
  rw [fifoAdvanceHead_eq]
  refine cell_eq_of_row ?_ ?_ ?_
  · rfl
  · rfl
  dsimp only
  split_ifs with hfree
  · exact update_of_ne (row_ne_of_freed hi hfree hi1 hiu) _ _
  · rfl

/-- The row the head leaves for good was allocated: it held the head. -/
theorem fifoAdvanceHead_alloc (hi : q.Inv s) (hu : q.used.toNat ≠ 0) :
    (fifoAdvanceHead q).alloc =
      (fifoAdvanceHead q).rowsNum * sizeofVoidPtr + s + (fifoAdvanceHead q).rowSize * (fifoAdvanceHead q).allocatedRows := by
  rw [fifoAdvanceHead_eq]
  unfold allocatedRows
  dsimp only
  split_ifs with hfree
  · -- one allocated row fewer
    have hhead := hi.live 0 (Nat.pos_of_ne_zero hu)
    rw [Nat.add_zero, Nat.mod_eq_of_lt hi.head_lt] at hhead
    have hrow : (q.rows (q.row q.head)).isSome = true := by
      unfold cell at hhead
      cases hr : q.rows (q.row q.head) with
      | none => rw [hr] at hhead; cases hhead
      | some _ => rfl
    have hcount := RowRing.countP_range_update (fun r : Option (Nat → Option β) => r.isSome) q.rows none
      q.rowsNum (row_lt hi.geom hi.head_lt)
    simp only [hrow, Option.isSome_none, if_true, Bool.false_eq_true, if_false, Nat.add_zero] at hcount
    have halloc := hi.alloc_eq
    unfold allocatedRows at halloc
    rw [halloc, ← hcount, Nat.mul_add, Nat.mul_one]
    omega
  · exact hi.alloc_eq

/-- `fifo_advance_head` on a queue that is not empty keeps the
    invariant, and its slots are the old ones but the first. -/
theorem fifoAdvanceHead_inv (hi : q.Inv s) (hu : q.used.toNat ≠ 0) :
    (fifoAdvanceHead q).Inv s ∧ q.items = q.cell q.head :: (fifoAdvanceHead q).items := by
  have hg := hi.geom
  have hL := length_pos hg
  have hhead : (fifoAdvanceHead q).head = (q.head + 1) % q.length := by
    rw [fifoAdvanceHead_eq]
    exact inc_eq hg q.head
  have hused : (fifoAdvanceHead q).used.toNat = q.used.toNat - 1 := by
    rw [fifoAdvanceHead_used, toNat_sub_one hu]
  -- the slots after the head, read from the new head
  have hcells : ∀ i < q.used.toNat - 1, (fifoAdvanceHead q).cell (((q.head + 1) % q.length + i) % q.length) =
      q.cell ((q.head + 1 + i) % q.length) := by
    intro i hi'
    rw [Nat.mod_add_mod, Nat.add_assoc, Nat.add_comm 1 i]
    exact fifoAdvanceHead_cell hi (Nat.succ_pos i) (by omega)
  refine ⟨⟨by rw [fifoAdvanceHead_geom]; exact hg, by rw [fifoAdvanceHead_length]; exact hi.small, ?_, ?_, ?_, ?_,
    fifoAdvanceHead_alloc hi hu⟩, ?_⟩
  · rw [hhead, fifoAdvanceHead_length]
    exact Nat.mod_lt _ hL
  · rw [hused, fifoAdvanceHead_length]
    exact Nat.le_trans (Nat.sub_le _ _) hi.used_le
  · rw [fifoAdvanceHead_tail, hhead, hused, fifoAdvanceHead_length, hi.tail_eq, Nat.mod_add_mod, Nat.add_assoc,
      Nat.add_sub_cancel' (by omega)]
  · intro i hi'
    rw [hused] at hi'
    rw [hhead, fifoAdvanceHead_length, hcells i hi', Nat.add_assoc, Nat.add_comm 1 i]
    exact hi.live (i + 1) (by omega)
  · -- the first slot, then the rest read from the new head
    obtain ⟨k, hk⟩ : ∃ k, q.used.toNat = k + 1 := Nat.exists_eq_succ_of_ne_zero hu
    unfold items
    rw [hk, RowRing.ringView_cons, Nat.mod_eq_of_lt hi.head_lt, hhead, fifoAdvanceHead_length, hused, hk,
      Nat.add_sub_cancel]
    congr 1
    exact RowRing.ringView_congr _ _ _ k fun i hik => (hcells i (by omega)).symm

/-- A written slot lies in an allocated row. -/
theorem rows_isSome_of_cell {x : Nat} (hx : (q.cell x).isSome) : (q.rows (q.row x)).isSome := by
  unfold cell at hx
  cases hr : q.rows (q.row x) with
  | none => rw [hr] at hx; cases hx
  | some _ => rfl

/-- `gu_fifo_get_tail` allocating the tail's row on a queue with room:
    no live slot lies in a row not allocated, so the items stay. -/
theorem allocRow_inv (hi : q.Inv s) (hr : q.rows (q.row q.tail) = none) :
    let q₁ := { q with alloc := q.alloc + q.rowSize, rows := update q.rows (q.row q.tail) (some fun _ => none) }
    q₁.Inv s ∧ q₁.items = q.items := by
  intro q₁
  -- the live slots read the same
  have hcells : ∀ i < q.used.toNat, q₁.cell ((q.head + i) % q.length) = q.cell ((q.head + i) % q.length) := by
    intro i hiu
    have hlive := rows_isSome_of_cell (hi.live i hiu)
    refine cell_eq_of_row ?_ ?_ ?_
    · rfl
    · rfl
    refine update_of_ne ?_ _ _
    intro heq
    rw [heq, hr] at hlive
    cases hlive
  have hcount := RowRing.countP_range_update (fun r : Option (Nat → Option β) => r.isSome) q.rows
    (some fun _ => none) q.rowsNum (row_lt hi.geom (hi.tail_eq ▸ Nat.mod_lt _ (length_pos hi.geom)))
  simp only [hr, Option.isSome_none, Option.isSome_some, if_true, Bool.false_eq_true, if_false,
    Nat.add_zero] at hcount
  refine ⟨⟨hi.geom, hi.small, hi.head_lt, hi.used_le, hi.tail_eq, fun i hiu => (hcells i hiu).symm ▸ hi.live i hiu, ?_⟩,
    RowRing.ringView_congr _ _ _ _ hcells⟩
  -- one allocated row more
  show q.alloc + q.rowSize = q.rowsNum * sizeofVoidPtr + s + q.rowSize * (List.range q.rowsNum).countP _
  rw [hcount, hi.alloc_eq, Nat.mul_add, Nat.mul_one, Nat.add_assoc]
  rfl

/-- The write into the tail slot and `gu_fifo_push_tail` leave every
    other slot as it was. -/
theorem guFifoPushTail_cell (hg : q.geom.Ok) (hr : (q.rows (q.row q.tail)).isSome) (x : β) {y : Nat}
    (hy : y ≠ q.tail) : (guFifoPushTail q x).cell y = q.cell y := by
  by_cases hrow : q.row y = q.row q.tail
  · -- same row, another column
    have hcol : q.col y ≠ q.col q.tail := fun hc => hy (eq_of_row_col hg hrow hc)
    obtain ⟨cells, hcells⟩ := Option.isSome_iff_exists.1 hr
    show ((update q.rows (q.row q.tail) ((q.rows (q.row q.tail)).map fun c => update c (q.col q.tail) (some x))
      (q.row y)).bind fun c => c (q.col y)) = (q.rows (q.row y)).bind _
    rw [hrow, update_self, hcells, Option.map_some, Option.bind_some, Option.bind_some, update_of_ne hcol]
  · refine cell_eq_of_row ?_ ?_ ?_
    · rfl
    · rfl
    exact update_of_ne hrow _ _

theorem guFifoPushTail_cell_tail (hr : (q.rows (q.row q.tail)).isSome) (x : β) :
    (guFifoPushTail q x).cell q.tail = some x := by
  obtain ⟨cells, hcells⟩ := Option.isSome_iff_exists.1 hr
  show ((update q.rows (q.row q.tail) ((q.rows (q.row q.tail)).map fun c => update c (q.col q.tail) (some x))
    (q.row q.tail)).bind fun c => c (q.col q.tail)) = _
  rw [update_self, hcells, Option.map_some, Option.bind_some, update_self]

/-- The write into the tail slot and `gu_fifo_push_tail`, on a queue with
    room whose tail row is allocated, keep the invariant and append the
    item. -/
theorem guFifoPushTail_inv (hi : q.Inv s) (hlt : q.used.toNat < q.length) (hr : (q.rows (q.row q.tail)).isSome)
    (x : β) : (guFifoPushTail q x).Inv s ∧ (guFifoPushTail q x).items = q.items ++ [some x] := by
  have hg := hi.geom
  have hused : (guFifoPushTail q x).used.toNat = q.used.toNat + 1 :=
    toNat_add_one (Nat.lt_of_le_of_lt hlt hi.small)
  -- the live slots are not the tail slot
  have hcells : ∀ i < q.used.toNat,
      (guFifoPushTail q x).cell ((q.head + i) % q.length) = q.cell ((q.head + i) % q.length) := by
    intro i hiu
    apply guFifoPushTail_cell hg hr x
    rw [hi.tail_eq]
    exact RowRing.mod_add_ne hiu hlt
  have hlast : (guFifoPushTail q x).cell ((q.head + q.used.toNat) % q.length) = some x := by
    rw [← hi.tail_eq]
    exact guFifoPushTail_cell_tail hr x
  -- the rows allocated are the same
  have hrows : (guFifoPushTail q x).allocatedRows = q.allocatedRows := by
    apply List.countP_congr
    intro r _
    by_cases hrt : r = q.row q.tail
    · subst hrt
      show (update q.rows (q.row q.tail) _ (q.row q.tail)).isSome = _ ↔ _
      rw [update_self, Option.isSome_map]
    · show (update q.rows (q.row q.tail) _ r).isSome = _ ↔ _
      rw [update_of_ne hrt]
  refine ⟨⟨hg, hi.small, hi.head_lt, hused ▸ hlt, ?_, ?_, ?_⟩, ?_⟩
  · show q.inc q.tail = (q.head + (guFifoPushTail q x).used.toNat) % q.length
    rw [inc_eq hg, hused, hi.tail_eq, Nat.mod_add_mod, Nat.add_assoc]
  · intro i hiu
    rw [hused] at hiu
    rcases Nat.lt_succ_iff_lt_or_eq.1 hiu with hiu | rfl
    · rw [show (guFifoPushTail q x).head = q.head from rfl, show (guFifoPushTail q x).length = q.length from rfl,
        hcells i hiu]
      exact hi.live i hiu
    · rw [show (guFifoPushTail q x).head = q.head from rfl, show (guFifoPushTail q x).length = q.length from rfl,
        hlast]
      rfl
  · rw [hrows]
    exact hi.alloc_eq
  · show ringView _ q.head q.length (guFifoPushTail q x).used.toNat = _
    rw [hused, RowRing.ringView_succ, hlast, RowRing.ringView_congr _ _ _ _ hcells]
    rfl

/-- The loop of `gu_fifo_clear` with at least `used` rounds of fuel
    empties the queue and keeps the invariant; the length and the flags
    stay.  By induction on the fuel, each round being one
    `fifo_advance_head`. -/
theorem fifoClearLoop_inv : ∀ (n : Nat) (q : GuFifo β), q.Inv s → q.used.toNat ≤ n →
    (fifoClearLoop n q).Inv s ∧ (fifoClearLoop n q).used.toNat = 0 ∧ (fifoClearLoop n q).length = q.length ∧
      (fifoClearLoop n q).closed = q.closed ∧ (fifoClearLoop n q).getErr = q.getErr
  | 0, q, hi, hn => ⟨hi, Nat.le_zero.1 hn, rfl, rfl, rfl⟩
  | n + 1, q, hi, hn => by
    unfold fifoClearLoop
    split_ifs with hpos
    · have hu : q.used.toNat ≠ 0 := Nat.pos_iff_ne_zero.1 (UInt32.lt_iff_toNat_lt.1 hpos)
      have hused : (fifoAdvanceHead q).used.toNat = q.used.toNat - 1 := by
        rw [fifoAdvanceHead_used, toNat_sub_one hu]
      obtain ⟨hinv, hzero, hlen, hc, he⟩ :=
        fifoClearLoop_inv n (fifoAdvanceHead q) (fifoAdvanceHead_inv hi hu).1 (by omega)
      exact ⟨hinv, hzero, hlen.trans fifoAdvanceHead_length, hc.trans fifoAdvanceHead_closed,
        he.trans fifoAdvanceHead_getErr⟩
    · -- `used` is 0 already
      have hzero : q.used.toNat = 0 := by
        by_contra hne
        exact hpos (UInt32.lt_iff_toNat_lt.2 (Nat.pos_of_ne_zero hne))
      exact ⟨hi, hzero, rfl, rfl, rfl⟩

/-! ## §8. The queue refines the FIFO -/

variable {a : FifoSpec β}

theorem items_length : q.items.length = q.used.toNat := RowRing.ringView_length _ _ _ _

theorem Abs.length_items (ha : q.Abs s a) : a.items.length = q.used.toNat := by
  rw [← items_length, ha.items_eq, List.length_map]

/-- A queue with the length and flags of one that abstracts `a`, keeping
    the invariant and holding `l`, abstracts `a` with the items `l`. -/
theorem Abs.withItems {q' : GuFifo β} (ha : q.Abs s a) (hi : q'.Inv s) {l : List β} (hitems : q'.items = l.map some)
    (hlen : q'.length = q.length) (hc : q'.closed = q.closed) (he : q'.getErr = q.getErr) :
    q'.Abs s { a with items := l } := by
  refine ⟨hi, hitems, ?_, ?_, ?_⟩
  · rw [hlen]
    exact ha.capacity_eq
  · rw [hc]
    exact ha.closed_eq
  · rw [he]
    exact ha.getErr_eq

/-- Setting the flags leaves the slots, so a FIFO with the same items and
    the new flags is abstracted. -/
theorem Abs.withFlags (ha : q.Abs s a) {c : Bool} {e : Int} {a' : FifoSpec β} (hitems : a'.items = a.items)
    (hcap : a'.capacity = a.capacity) (hc : a'.closed = c) (he : a'.getErr = e) :
    ({ q with closed := c, getErr := e }).Abs s a' := by
  have hi := ha.inv
  refine ⟨⟨hi.geom, hi.small, hi.head_lt, hi.used_le, hi.tail_eq, hi.live, hi.alloc_eq⟩, ?_, ?_, hc, he⟩
  · rw [hitems]
    exact ha.items_eq
  · rw [hcap]
    exact ha.capacity_eq

/-- A put: on an open queue with room, the item is appended, unless the
    tail's row is not allocated and `gu_malloc` fails. -/
theorem fifoStep_put_refines (ha : q.Abs s a) {x : β} {ok : Bool} {q' : GuFifo β} {out : FifoOut β}
    (h : fifoStep q (.put x ok) = some (q', out)) : ∃ a', a.Step (.put x ok) a' out ∧ q'.Abs s a' := by
  have hi := ha.inv
  rw [fifoStep] at h
  split_ifs at h with hw
  dsimp only at h
  cases hc : q.closed
  case true =>
    -- closed: `gu_fifo_get_tail` returns NULL
    simp only [guFifoGetTail, hc, ↓reduceIte, Bool.false_eq_true, Option.some.injEq, Prod.mk.injEq] at h
    obtain ⟨rfl, rfl⟩ := h
    exact ⟨a, .putClosed x ok (ha.closed_eq.trans hc), ha⟩
  case false =>
  -- open and not full, so there is room
  have hlt : q.used.toNat < q.length := by
    apply Nat.lt_of_le_of_ne hi.used_le
    intro heq
    simp only [putWaits, heq, beq_self_eq_true, hc, Bool.not_false, Bool.and_self, not_true_eq_false] at hw
  have hroom : a.items.length < a.capacity := by
    rw [ha.length_items, ha.capacity_eq]
    exact hlt
  have hopen : a.closed = false := ha.closed_eq.trans hc
  -- the FIFO after an append, given the queue after `gu_fifo_push_tail`
  have happend : ∀ q₁ : GuFifo β, q₁.Inv s → q₁.items = q.items → q₁.length = q.length →
      q₁.closed = q.closed → q₁.getErr = q.getErr → (q₁.rows (q₁.row q₁.tail)).isSome →
      q₁.used.toNat < q₁.length → (guFifoPushTail q₁ x).Abs s { a with items := a.items ++ [x] } := by
    intro q₁ hi₁ hitems hlen hc₁ he hrow hlt₁
    obtain ⟨hinv, hpush⟩ := guFifoPushTail_inv hi₁ hlt₁ hrow x
    refine ha.withItems hinv ?_ hlen hc₁ he
    rw [hpush, hitems, ha.items_eq, List.map_append]
    rfl
  simp only [guFifoGetTail, hc, ↓reduceIte, Bool.false_eq_true] at h
  split at h
  case h_1 cells hr =>
    -- the tail's row is allocated
    simp only [↓reduceIte, Option.some.injEq, Prod.mk.injEq] at h
    obtain ⟨rfl, rfl⟩ := h
    exact ⟨_, .putPush x ok hopen hroom, happend q hi rfl rfl rfl rfl (by rw [hr]; rfl) hlt⟩
  case h_2 hr =>
    cases ok
    case false =>
      -- `gu_malloc` fails
      simp only [↓reduceIte, Bool.false_eq_true, Option.some.injEq, Prod.mk.injEq] at h
      obtain ⟨rfl, rfl⟩ := h
      exact ⟨a, .putNoMemory x hopen hroom, ha⟩
    case true =>
      -- the row is allocated first
      simp only [↓reduceIte, Option.some.injEq, Prod.mk.injEq] at h
      obtain ⟨rfl, rfl⟩ := h
      obtain ⟨hinv, hitems⟩ := allocRow_inv hi hr
      rw [hc] at hinv hitems
      have hrow : (update q.rows (q.row q.tail) (some fun _ => none) (q.row q.tail)).isSome := by
        rw [update_self]
        rfl
      exact ⟨_, .putPush x true hopen hroom, happend _ hinv hitems rfl hc.symm rfl hrow hlt⟩

/-- A get: unless gets are cancelled, the first item is taken; otherwise,
    or on an empty queue with an error set, no item and the error. -/
theorem fifoStep_get_refines (ha : q.Abs s a) {q' : GuFifo β} {out : FifoOut β}
    (h : fifoStep q .get = some (q', out)) : ∃ a', a.Step .get a' out ∧ q'.Abs s a' := by
  rw [fifoStep] at h
  split_ifs at h with hw
  dsimp only at h
  split_ifs at h with hr
  · -- the head slot is handed out and `gu_fifo_pop_head` advances the head
    simp only [Option.some.injEq, Prod.mk.injEq] at h
    obtain ⟨rfl, rfl⟩ := h
    simp only [guFifoGetHead, Bool.and_eq_true, decide_eq_true_eq, bne_iff_ne, ne_eq] at hr
    have hu : q.used.toNat ≠ 0 := fun h0 => hr.2 (toNat_eq_zero_iff.1 h0)
    obtain ⟨hinv, hitems⟩ := fifoAdvanceHead_inv ha.inv hu
    rw [ha.items_eq] at hitems
    obtain ⟨y, rest, hy, hcell, hrest⟩ := List.map_eq_cons_iff.1 hitems
    refine ⟨_, ?_, ha.withItems hinv hrest.symm fifoAdvanceHead_length fifoAdvanceHead_closed fifoAdvanceHead_getErr⟩
    rw [← hcell, show (guFifoGetHead q).2 = a.getErr from ha.getErr_eq.symm]
    exact .getItem y rest (by rw [ha.getErr_eq]; exact hr.1) hy
  · -- NULL, with the error `fifo_lock_get` returned
    simp only [Option.some.injEq, Prod.mk.injEq] at h
    obtain ⟨rfl, rfl⟩ := h
    simp only [guFifoGetHead, Bool.and_eq_true, decide_eq_true_eq, bne_iff_ne, ne_eq, not_and, not_not] at hr
    simp only [getWaits, Bool.and_eq_true, beq_iff_eq, not_and] at hw
    refine ⟨a, ?_, ha⟩
    rw [show (guFifoGetHead q).2 = a.getErr from ha.getErr_eq.symm]
    by_cases hcan : q.getErr = -errnoEcanceled
    · refine .getNone ?_ (.inl (by rw [ha.getErr_eq]; exact hcan))
      rw [ha.getErr_eq, hcan]
      decide
    · -- an empty queue with an error set
      have hu := hr hcan
      have hempty : a.items = [] := by
        rw [← List.length_eq_zero_iff, ha.length_items, hu]
        rfl
      refine .getNone ?_ (.inr hempty)
      rw [ha.getErr_eq]
      exact fun he => hw he hu

/-- Every step of a queue that abstracts a FIFO is a step of that FIFO,
    with the same result, to a queue that abstracts where the FIFO goes. -/
theorem fifoStep_refines (ha : q.Abs s a) {op : FifoOp β} {q' : GuFifo β} {out : FifoOut β}
    (h : fifoStep q op = some (q', out)) : ∃ a', a.Step op a' out ∧ q'.Abs s a' := by
  cases op with
  | put x ok => exact fifoStep_put_refines ha h
  | get => exact fifoStep_get_refines ha h
  | clear =>
    rw [fifoStep, Option.some.injEq, Prod.mk.injEq] at h
    obtain ⟨rfl, rfl⟩ := h
    obtain ⟨hinv, hzero, hlen, hc, he⟩ := fifoClearLoop_inv q.used.toNat q ha.inv (Nat.le_refl _)
    refine ⟨_, .clear, ha.withItems hinv ?_ hlen hc he⟩
    show ringView _ _ _ (guFifoClear q).used.toNat = _
    rw [guFifoClear, hzero]
    rfl
  | close =>
    rw [fifoStep, Option.some.injEq, Prod.mk.injEq] at h
    obtain ⟨rfl, rfl⟩ := h
    unfold fifoClose
    cases hc : q.closed
    case false =>
      refine ⟨_, .closeOpen (ha.closed_eq.trans hc), ?_⟩
      rw [if_neg Bool.false_ne_true]
      exact ha.withFlags rfl rfl rfl (by rw [ha.getErr_eq])
    case true =>
      rw [if_pos rfl]
      exact ⟨a, .closeClosed (ha.closed_eq.trans hc), ha⟩
  | reopen =>
    rw [fifoStep, Option.some.injEq, Prod.mk.injEq] at h
    obtain ⟨rfl, rfl⟩ := h
    exact ⟨_, .reopen, ha.withFlags rfl rfl rfl rfl⟩
  | cancelGets =>
    rw [fifoStep, Option.some.injEq, Prod.mk.injEq] at h
    obtain ⟨rfl, rfl⟩ := h
    unfold guFifoCancelGets
    split_ifs with he
    · exact ⟨a, .cancelGetsRefused (ha.getErr_eq ▸ he.1) (ha.getErr_eq ▸ he.2), ha⟩
    · refine ⟨_, .cancelGets ?_, ha.withFlags rfl rfl ha.closed_eq rfl⟩
      rw [ha.getErr_eq]
      by_cases h0 : q.getErr = 0
      · exact .inl h0
      · exact .inr (Decidable.of_not_not fun hn => he ⟨h0, hn⟩)
  | resumeGets =>
    rw [fifoStep, Option.some.injEq, Prod.mk.injEq] at h
    obtain ⟨rfl, rfl⟩ := h
    unfold guFifoResumeGets
    by_cases he : q.getErr = -errnoEcanceled
    · rw [if_pos he]
      refine ⟨_, .resumeGets (ha.getErr_eq.trans he), ha.withFlags rfl rfl ha.closed_eq ?_⟩
      rw [ha.closed_eq]
    · rw [if_neg he]
      exact ⟨a, .resumeGetsRefused (by rw [ha.getErr_eq]; exact he), ha⟩

/-- The queue waits exactly when the FIFO it holds does. -/
theorem fifoStep_eq_none_iff (ha : q.Abs s a) (op : FifoOp β) : fifoStep q op = none ↔ a.Waits op := by
  cases op with
  | put x ok =>
    rw [fifoStep]
    simp only [FifoSpec.Waits, ha.length_items, ha.capacity_eq, ha.closed_eq]
    constructor
    · intro h
      split_ifs at h with hw
      · simpa only [putWaits, Bool.and_eq_true, beq_iff_eq, Bool.not_eq_true'] using hw
    · intro hw
      rw [if_pos (by simpa only [putWaits, Bool.and_eq_true, beq_iff_eq, Bool.not_eq_true'] using hw)]
  | get =>
    rw [fifoStep]
    have hempty : a.items = [] ↔ q.used = 0 := by
      rw [← List.length_eq_zero_iff, ha.length_items, toNat_eq_zero_iff]
    simp only [FifoSpec.Waits, hempty, ha.getErr_eq]
    constructor
    · intro h
      split_ifs at h with hw
      · simpa only [getWaits, Bool.and_eq_true, beq_iff_eq] using hw
    · intro hw
      rw [if_pos (by simpa only [getWaits, Bool.and_eq_true, beq_iff_eq] using hw)]
  | clear => exact ⟨nofun, nofun⟩
  | close => exact ⟨nofun, nofun⟩
  | reopen => exact ⟨nofun, nofun⟩
  | cancelGets => exact ⟨nofun, nofun⟩
  | resumeGets => exact ⟨nofun, nofun⟩

/-- Every run of the calls on a queue that abstracts a FIFO is a run of
    that FIFO.  By induction on the calls, each step by
    `fifoStep_refines`. -/
theorem fifoRun_refines : ∀ {q : GuFifo β} {a : FifoSpec β} (ops : List (FifoOp β)) {q' : GuFifo β},
    q.Abs s a → fifoRun q ops = some q' → ∃ a', a.Runs ops a' ∧ q'.Abs s a'
  | _, a, [], _, ha, h => by
    cases h
    exact ⟨a, .nil a, ha⟩
  | q, _, op :: ops, _, ha, h => by
    rw [fifoRun] at h
    cases hs : fifoStep q op with
    | none => rw [hs] at h; cases h
    | some r =>
      rw [hs, Option.bind_some] at h
      obtain ⟨a₁, hstep, ha₁⟩ := fifoStep_refines ha hs
      obtain ⟨a', hruns, ha'⟩ := fifoRun_refines ops ha₁ h
      exact ⟨a', .cons r.2 hstep hruns, ha'⟩

/-- While the queue has fewer than `2^32` slots, every run of the calls
    from `gu_fifo_create` is a run of an empty FIFO of `length` items, and
    the queue reached holds what the FIFO holds. -/
theorem guFifoCreate_refines {length itemSize avphys : Nat} (hq : guFifoCreate length itemSize s avphys = some q)
    (hsmall : q.length < 2 ^ 32) (ops : List (FifoOp β)) {q' : GuFifo β} (hrun : fifoRun q ops = some q') :
    ∃ a', FifoSpec.Runs ⟨[], q.length, false, 0⟩ ops a' ∧ q'.Abs s a' :=
  fifoRun_refines ops (guFifoCreate_abs hq hsmall) hrun

/-! ## §9. Beyond `2^32` slots -/

/-- On an open queue, `gu_fifo_get_tail` with `gu_malloc` succeeding
    returns the tail slot, changing at most the rows and `alloc`. -/
theorem guFifoGetTail_open (hc : q.closed = false) :
    ∃ alloc rows, guFifoGetTail q true = ({ q with alloc, rows }, true) := by
  unfold guFifoGetTail
  rw [if_neg (by rw [hc]; exact Bool.false_ne_true)]
  split
  · exact ⟨q.alloc, q.rows, rfl⟩
  · exact ⟨_, _, rfl⟩

/-- `n` puts on an open queue of at least `2^32` slots: none waits, since
    `used` stays below `2^32`, and each adds one to `used` mod `2^32` and
    moves the tail on.  By induction on `n`. -/
theorem fifoRun_put_replicate (x : β) : ∀ (n : Nat) (q : GuFifo β), q.geom.Ok → q.closed = false →
    2 ^ 32 ≤ q.length → q.tail < q.length →
    ∃ q', fifoRun q (List.replicate n (.put x true)) = some q' ∧ q'.used.toNat = (q.used.toNat + n) % 2 ^ 32 ∧
      q'.tail = (q.tail + n) % q.length ∧ q'.head = q.head ∧ q'.getErr = q.getErr
  | 0, q, _, _, _, ht => ⟨q, rfl, (Nat.mod_eq_of_lt (UInt32.toNat_lt _)).symm, (Nat.mod_eq_of_lt ht).symm, rfl, rfl⟩
  | n + 1, q, hg, hc, hL, ht => by
    obtain ⟨al, rows, hget⟩ := guFifoGetTail_open hc
    -- `used` is below `2^32`, so never `length`
    have hw : q.putWaits = false := by
      have hne : q.used.toNat ≠ q.length := Nat.ne_of_lt (Nat.lt_of_lt_of_le (UInt32.toNat_lt _) hL)
      simp only [putWaits, hc, Bool.not_false, Bool.and_true, beq_eq_false_iff_ne, ne_eq]
      exact hne
    have hstep : fifoStep q (.put x true) = some (guFifoPushTail { q with alloc := al, rows } x, .put true) := by
      rw [fifoStep, hw, if_neg Bool.false_ne_true]
      dsimp only
      rw [hget]
      rfl
    obtain ⟨q', hrun, hu, ht', hh, he⟩ := fifoRun_put_replicate x n (guFifoPushTail { q with alloc := al, rows } x)
      hg hc hL (by show q.inc q.tail < q.length; rw [inc_eq hg]; exact Nat.mod_lt _ (length_pos hg))
    refine ⟨q', by rw [List.replicate_succ, fifoRun, hstep, Option.bind_some]; exact hrun, ?_, ?_, hh, he⟩
    · rw [hu, show (guFifoPushTail { q with alloc := al, rows } x).used = q.used + 1 from rfl, UInt32.toNat_add,
        UInt32.toNat_one, Nat.mod_add_mod, Nat.add_assoc, Nat.add_comm 1 n]
    · rw [ht', show (guFifoPushTail { q with alloc := al, rows } x).tail = q.inc q.tail from rfl, inc_eq hg,
        show (guFifoPushTail { q with alloc := al, rows } x).length = q.length from rfl, Nat.mod_add_mod,
        Nat.add_assoc, Nat.add_comm 1 n]

end GuFifo

/-- `n` puts on an open FIFO with room for them append `n` items. -/
theorem FifoSpec.runs_put_replicate (x : β) : ∀ (n : Nat) (a : FifoSpec β), a.closed = false →
    a.items.length + n ≤ a.capacity →
    a.Runs (List.replicate n (.put x true)) { a with items := a.items ++ List.replicate n x }
  | 0, a, _, _ => by
    simp only [List.replicate_zero, List.append_nil]
    exact .nil a
  | n + 1, a, hc, hroom => by
    have hrest := FifoSpec.runs_put_replicate x n { a with items := a.items ++ [x] } hc
      (by show (a.items ++ [x]).length + n ≤ a.capacity; rw [List.length_append, List.length_singleton]; omega)
    rw [List.append_assoc, List.singleton_append, ← List.replicate_succ] at hrest
    exact .cons (.put true) (.putPush x true hc (by omega)) hrest

/-- The `ratio loop` of `gu_fifo_create` for `2^33` slots of one byte:
    rows of `2^18` slots, `2^15` rows. -/
theorem fifoRatioLoop_two_pow_33 : fifoRatioLoop (2 ^ 33) 1 (2 ^ 33) gcsFifoMinRowPower 1 = (18, 15) := by
  decide

/-- `gu_fifo_create` accepts `2^33` slots wherever the memory it asks for
    is available: `used`, a 32-bit `uint`, then comes back to 0 after
    `2^32` puts with nothing taken.  The queue's `used` no longer is the
    distance from head to tail, and the next get waits, while the FIFO of
    the items put holds `2^32` of them and hands out the first. -/
theorem fifo_used_wraps (sizeofFifo avphys : Nat) (hmem : 2 ^ 33 + 2 ^ 18 + sizeofFifo ≤ avphys) :
    ∃ q : GuFifo Nat, guFifoCreate (2 ^ 33) 1 sizeofFifo avphys = some q ∧ q.length = 2 ^ 33 ∧
      ∃ q', fifoRun q (List.replicate (2 ^ 32) (.put 0 true)) = some q' ∧
        q'.used = 0 ∧ q'.head = 0 ∧ q'.tail = 2 ^ 32 ∧ fifoStep q' .get = none ∧
        ∃ a', FifoSpec.Runs ⟨[], 2 ^ 33, false, 0⟩ (List.replicate (2 ^ 32) (.put 0 true)) a' ∧
          a'.items.length = 2 ^ 32 ∧ ¬ a'.Waits .get := by
  let q₀ : GuFifo Nat := ⟨18, 2 ^ 18 - 1, 2 ^ 15, 0, 0, 2 ^ 18 * 1, 2 ^ 18 * 2 ^ 15, 2 ^ 18 * 2 ^ 15 - 1,
    2 ^ 15 * sizeofVoidPtr + sizeofFifo, 0, 0, false, fun _ => none⟩
  have hcreate : guFifoCreate (2 ^ 33) 1 sizeofFifo avphys = some q₀ := by
    unfold guFifoCreate
    rw [fifoRatioLoop_two_pow_33, if_pos (by decide)]
    dsimp only
    rw [if_neg (by unfold sizeofVoidPtr; omega), if_neg (by unfold guLongMax; decide)]
  refine ⟨q₀, hcreate, rfl, ?_⟩
  obtain ⟨q', hrun, hu, ht, hh, he⟩ := GuFifo.fifoRun_put_replicate (0 : Nat) (2 ^ 32) q₀
    ⟨rfl, rfl, Nat.mul_comm _ _, ⟨18 + 15, (Nat.pow_add 2 18 15).symm⟩⟩ rfl
    (by show 2 ^ 32 ≤ 2 ^ 18 * 2 ^ 15; rw [← Nat.pow_add]; exact Nat.pow_le_pow_right (by decide) (by decide))
    (Nat.mul_pos (Nat.two_pow_pos _) (Nat.two_pow_pos _))
  have hused : q'.used = 0 := by
    rw [← GuFifo.toNat_eq_zero_iff, hu]
    show (UInt32.toNat 0 + 2 ^ 32) % 2 ^ 32 = 0
    rw [UInt32.toNat_zero, Nat.zero_add, Nat.mod_self]
  have htail : q'.tail = 2 ^ 32 := by
    rw [ht]
    show (0 + 2 ^ 32) % (2 ^ 18 * 2 ^ 15) = 2 ^ 32
    rw [Nat.zero_add, ← Nat.pow_add]
    exact Nat.mod_eq_of_lt (Nat.pow_lt_pow_right (by decide) (by decide))
  refine ⟨q', hrun, hused, hh, htail, ?_, _, FifoSpec.runs_put_replicate 0 (2 ^ 32) _ rfl (by decide), ?_, ?_⟩
  · -- no error is set and `used` is 0: the get waits
    rw [fifoStep, if_pos]
    show (q'.getErr == 0 && q'.used == 0) = true
    rw [he, hused]
    rfl
  · simp only [List.nil_append, List.length_replicate]
  · simp only [FifoSpec.Waits, List.nil_append, List.replicate_eq_nil_iff, not_and]
    intro _
    decide

theorem fifo_used_wraps_at_two_pow_34 :
    2 ^ 33 + 2 ^ 18 + 264 ≤ 2 ^ 34 ∧
      ∃ q : GuFifo Nat, guFifoCreate (2 ^ 33) 1 264 (2 ^ 34) = some q ∧ q.length = 2 ^ 33 ∧
        ∃ q', fifoRun q (List.replicate (2 ^ 32) (.put 0 true)) = some q' ∧
          q'.used = 0 ∧ q'.head = 0 ∧ q'.tail = 2 ^ 32 ∧ fifoStep q' .get = none ∧
          ∃ a', FifoSpec.Runs ⟨[], 2 ^ 33, false, 0⟩ (List.replicate (2 ^ 32) (.put 0 true)) a' ∧
            a'.items.length = 2 ^ 32 ∧ ¬ a'.Waits .get :=
  ⟨by decide, fifo_used_wraps 264 (2 ^ 34) (by decide)⟩

end Galera.Gu
