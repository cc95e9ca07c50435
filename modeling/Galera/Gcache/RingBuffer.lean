/-
  Galera.Gcache.RingBuffer
  ────────────────────────
  **THE RING BUFFER STORE (`gcache_rb_store.cpp`, `gcache_bh.hpp`).**

  GCache keeps the writesets of the history in a memory-mapped file.  In
  the cache area, from `start_` to `end_`, every buffer starts with a
  `BufferHeader` that holds its total size.  `first_` is the oldest
  buffer and `next_` the free space after the newest; the header at
  `next_` is kept clear.  When the space after `next_` is too short, the
  allocator leaves a trailer of `size_trail_` bytes and goes on from
  `start_`.  It makes room by discarding released buffers at `first_`,
  through `discard_seqno` for those with a seqno.  `size_free_` and
  `size_used_` count the bytes that are free and those that are
  allocated and not yet freed.

  Offsets are counted from `start_`, and a buffer is named by the offset
  of its header (its data follow at `bhSize` more).  The memory is a
  header at each offset; the payloads are not modelled.  The debug
  assertions are left out, as in a build with `NDEBUG`.  The seqno map
  holds ring-buffer buffers only; the memory and page stores are not
  modelled.

    * `ring_buffer_realloc_rollback` — when `realloc` fails to grow a
      buffer in place, it undoes an allocation that may not have
      happened.  If `get_new_buffer` found no space at all, `size_used_`
      ends below the total size of the live buffers, and `size_free_`
      counts bytes that are not free.  If it found space at `start_`,
      `size_trail_` is left set while `next_ >= first_`.
-/
import Mathlib
import Galera.Gcache.DeqMap

namespace Galera.Gcache

open Function (update)

/-! ## §1. Buffer headers -/

/-- `SEQNO_NONE`. -/
def seqnoNone : Int := 0

/-- `SEQNO_ILL`. -/
def seqnoIll : Int := -1

/-- `StorageType`. -/
inductive StorageType
  | bufferInMem | bufferInRb | bufferInPage
  deriving DecidableEq, Repr

/-- `BufferHeader`, its `flags` read as the one flag `BUFFER_RELEASED`;
    `ctx` is not modelled. -/
structure BufferHeader where
  seqnoG : Int
  seqnoD : Int
  size : Nat
  released : Bool
  store : StorageType
  deriving DecidableEq, Repr

/-- `sizeof(BufferHeader)`: four 8-byte and two 4-byte fields, packed. -/
def bhSize : Nat := 40

/-- `BH_clear`: every byte 0, which reads as store `BUFFER_IN_MEM`. -/
def BufferHeader.clear : BufferHeader := ⟨0, 0, 0, false, .bufferInMem⟩

/-- A pointer difference, or a counter taken below 0, as `size_t`. -/
def toSizeT (x : Int) : Nat := (x % 2 ^ 64).toNat

/-! ## §2. The store -/

/-- `RingBuffer`: the header at each offset from `start_`, the pointers,
    the counters, and the seqno map it shares with `GCache`. -/
structure RingBuffer where
  mem : Nat → BufferHeader
  first : Nat
  next : Nat
  sizeCache : Nat
  sizeFree : Nat
  sizeUsed : Nat
  sizeTrail : Nat
  freezePurgeAtSeqno : Int
  seqno2ptr : DeqMap Nat

namespace RingBuffer

/-- `end_ - start_`: the cache area and one header more. -/
def endOff (rb : RingBuffer) : Nat := rb.sizeCache + bhSize

/-- A header written at offset `o`. -/
def setBh (rb : RingBuffer) (o : Nat) (bh : BufferHeader) : RingBuffer :=
  { rb with mem := update rb.mem o bh }

/-- `RingBuffer (name, size, seqno2ptr, gid, dbg, false)` on a file
    holding `mem`: nothing is recovered, the first header is cleared. -/
def init (size : Nat) (mem : Nat → BufferHeader) (seqno2ptr : DeqMap Nat) : RingBuffer :=
  { mem := update mem 0 BufferHeader.clear, first := 0, next := 0, sizeCache := size,
    sizeFree := size, sizeUsed := 0, sizeTrail := 0, freezePurgeAtSeqno := seqnoIll, seqno2ptr }

/-- `skip_purge(seqno)`. -/
def skipPurge (rb : RingBuffer) (seqno : Int) : Bool :=
  if rb.freezePurgeAtSeqno = seqnoIll then false else decide (rb.freezePurgeAtSeqno ≤ seqno)

/-- `discard(bh)`. -/
def discard (rb : RingBuffer) (o : Nat) : RingBuffer :=
  { rb with sizeFree := rb.sizeFree + (rb.mem o).size }

/-- `empty_buffer(bh)`. -/
def emptyBuffer (rb : RingBuffer) (o : Nat) : RingBuffer :=
  rb.setBh o { rb.mem o with seqnoG := seqnoIll }

/-- `BH_release(bh)`. -/
def release (rb : RingBuffer) (o : Nat) : RingBuffer :=
  rb.setBh o { rb.mem o with released := true }

@[simp] theorem release_seqno2ptr (rb : RingBuffer) (o : Nat) :
    (rb.release o).seqno2ptr = rb.seqno2ptr := rfl

theorem released_release (rb : RingBuffer) (o o' : Nat) :
    ((rb.release o).mem o').released = (decide (o' = o) || (rb.mem o').released) := by
  by_cases h : o' = o
  · subst h
    simp [release, setBh]
  · simp [release, setBh, h]

/-! ## §3. Discarding seqnos -/

/-- `do { ++i; } while (i != i_end && !*i);`, from `i` already moved on. -/
def skipUnset (m : DeqMap Nat) (iEnd : Int) : Nat → Int → Int
  | 0, i => i
  | n + 1, i => if i ≠ iEnd ∧ m.get i = none then skipUnset m iEnd n (i + 1) else i

/-- The loop of `discard_seqnos (i_begin, i_end)` at the slot `i`:
    released buffers go, up to `i_end` or to the first one that is not
    released or must not be purged.  `none` where the source reads a null
    slot or aborts on a store it does not know. -/
def discardSeqnosLoop (iEnd : Int) : Nat → RingBuffer → Int → Option (RingBuffer × Bool)
  | 0, _, _ => none
  | fuel + 1, rb, i =>
    if i = iEnd then some (rb, true)
    else if rb.skipPurge i then some (rb, false)
    else
      match rb.seqno2ptr.get i with
      | none => none
      | some o =>
        let i' := skipUnset rb.seqno2ptr iEnd (iEnd - i).toNat (i + 1)
        if (rb.mem o).released then
          let rb := ({ rb with seqno2ptr := rb.seqno2ptr.erase i }).emptyBuffer o
          match (rb.mem o).store with
          | .bufferInRb => discardSeqnosLoop iEnd fuel (rb.discard o) i'
          | _ => none
        else some (rb, false)

/-- `discard_seqnos (i_begin, i_end)`, the iterators given by index. -/
def discardSeqnos (rb : RingBuffer) (iBegin iEnd : Int) : Option (RingBuffer × Bool) :=
  discardSeqnosLoop iEnd ((iEnd - iBegin).toNat + 1) rb iBegin

/-- `discard_seqno(s)`: every seqno up to `s`. -/
def discardSeqno (rb : RingBuffer) (s : Int) : Option (RingBuffer × Bool) :=
  rb.discardSeqnos rb.seqno2ptr.indexBegin (rb.seqno2ptr.find (s + 1))

/-! ## §4. Allocation -/

/-- `found_space:` in `get_new_buffer`: a buffer of `size` at `ret`, and
    the header after it cleared. -/
def foundSpace (rb : RingBuffer) (ret size : Nat) : RingBuffer :=
  let rb := { rb with sizeUsed := rb.sizeUsed + size, sizeFree := toSizeT (rb.sizeFree - size) }
  let rb := rb.setBh ret ⟨seqnoNone, seqnoIll, size, false, .bufferInRb⟩
  ({ rb with next := ret + size }).setBh (ret + size) BufferHeader.clear

/-- The loop of `get_new_buffer`: discard the buffer at `first_` until
    `size_next` bytes are free from `ret` on, rolling over at the
    trailer.  The offset found, or `none` if the buffer at `first_` cannot
    go; then `size_trail_` is reverted unless the allocator had wrapped. -/
def getNewBufferLoop (sizeNext : Nat) : Nat → RingBuffer → Nat → Option (RingBuffer × Option Nat)
  | 0, _, _ => none
  | fuel + 1, rb, ret =>
    if sizeNext ≤ toSizeT (rb.first - ret) then some (rb, some ret)
    else
      let bh := rb.mem rb.first
      let discarded : Option (RingBuffer × Bool) :=
        if !bh.released then some (rb, false)
        else if 0 < bh.seqnoG then rb.discardSeqno bh.seqnoG
        else some (rb, true)
      match discarded with
      | none => none
      | some (rb, false) =>
        some ({ rb with sizeTrail := if rb.first ≤ rb.next then 0 else rb.sizeTrail }, none)
      | some (rb, true) =>
        let first := rb.first + (rb.mem rb.first).size
        if (rb.mem first).size = 0 then
          -- the trailer: `first_` rolls over, and `ret` may fit at the end
          if sizeNext ≤ toSizeT (rb.endOff - ret) then some ({ rb with first := 0, sizeTrail := 0 }, some ret)
          else getNewBufferLoop sizeNext fuel
            { rb with first := 0, sizeTrail := toSizeT (rb.endOff - ret) } 0
        else getNewBufferLoop sizeNext fuel { rb with first } ret

/-- `get_new_buffer(size)`: the store and the header offset of the new
    buffer, `none` in the second component for no space.  The first
    place tried is after `next_`; then the loop works from `start_` or
    from `next_` up to `first_`. -/
def getNewBuffer (rb : RingBuffer) (size : Nat) : Option (RingBuffer × Option Nat) :=
  let sizeNext := size + bhSize
  let fuel := rb.endOff + 2
  let found : Option (RingBuffer × Option Nat) :=
    if rb.first ≤ rb.next then
      if sizeNext ≤ toSizeT (rb.endOff - rb.next) then some (rb, some rb.next)
      else getNewBufferLoop sizeNext fuel { rb with sizeTrail := toSizeT (rb.endOff - rb.next) } 0
    else getNewBufferLoop sizeNext fuel rb rb.next
  found.map fun (rb, ret) =>
    match ret with
    | some ret => (rb.foundSpace ret size, some ret)
    | none => (rb, none)

/-- `malloc(size)`: at most half the cache, and no more than is not used. -/
def malloc (rb : RingBuffer) (size : Nat) : Option (RingBuffer × Option Nat) :=
  if size ≤ rb.sizeCache / 2 ∧ size ≤ toSizeT (rb.sizeCache - rb.sizeUsed) then rb.getNewBuffer size
  else some (rb, none)

/-- `free(bh)` of a released buffer: one without a seqno is discarded. -/
def free (rb : RingBuffer) (o : Nat) : RingBuffer :=
  let rb' := { rb with sizeUsed := toSizeT (rb.sizeUsed - (rb.mem o).size) }
  if (rb.mem o).seqnoG = seqnoNone then (rb'.emptyBuffer o).discard o else rb'

@[simp] theorem free_seqno2ptr (rb : RingBuffer) (o : Nat) :
    (rb.free o).seqno2ptr = rb.seqno2ptr := by
  unfold free
  split <;> rfl

/-- `free` leaves the release flags as they are. -/
theorem released_free (rb : RingBuffer) (o o' : Nat) :
    ((rb.free o).mem o').released = (rb.mem o').released := by
  unfold free
  split
  · by_cases h : o' = o
    · subst h
      simp [discard, emptyBuffer, setBh]
    · simp [discard, emptyBuffer, setBh, Function.update_of_ne h]
  · rfl

/-- The in-place growth of `realloc`: the buffer at `o` is the last one,
    and a buffer of `adjSize` right after it would extend it.  Whether it
    grew, and the store; a buffer found elsewhere is given back. -/
def reallocGrow (rb : RingBuffer) (o adjPtr : Nat) (adjSize : Int) :
    Option (RingBuffer × Bool) :=
  let sizeTrailSaved := rb.sizeTrail
  (rb.getNewBuffer adjSize.toNat).map fun (rb, adjBuf) =>
    if adjBuf = some adjPtr then (rb.setBh o { rb.mem o with size := rb.next - o }, true)
    else
      -- "adjacent buffer allocation failed, return it back"
      let rb := ({ rb with next := adjPtr }).setBh adjPtr BufferHeader.clear
      let rb := { rb with sizeUsed := toSizeT (rb.sizeUsed - adjSize),
                          sizeFree := rb.sizeFree + adjSize.toNat }
      ({ rb with sizeTrail := if adjPtr < rb.first then sizeTrailSaved else rb.sizeTrail }, false)

/-- `realloc(ptr, size)` of the buffer at `o`: a size that is not larger
    keeps the buffer; a larger one grows it in place if it is the last,
    and otherwise moves it to a new buffer and frees the old one.  The
    payload copy is not modelled. -/
def realloc (rb : RingBuffer) (o size : Nat) : Option (RingBuffer × Option Nat) :=
  if rb.sizeCache / 2 < size then some (rb, none)
  else
    let adjSize : Int := (size : Int) - (rb.mem o).size
    if adjSize ≤ 0 then some (rb, some o)
    else
      let adjPtr := o + (rb.mem o).size
      let grown := if adjPtr = rb.next then rb.reallocGrow o adjPtr adjSize else some (rb, false)
      grown.bind fun (rb, ok) =>
        if ok then some (rb, some o)
        else
          (rb.malloc size).map fun (rb, ptrNew) =>
            match ptrNew with
            | some p => (rb.free o, some p)
            | none => (rb, none)

/-! ## §5. Runs -/

/-- A call on the store.  `free` is what `GCache::free` does to a
    ring-buffer buffer: release it, then `RingBuffer::free`. -/
inductive RbOp
  | malloc (size : Nat)
  | realloc (ptr size : Nat)
  | free (ptr : Nat)
  | discard (ptr : Nat)
  | discardSeqno (seqno : Int)
  deriving DecidableEq, Repr

/-- One call; the pointer it returns is dropped. -/
def step (rb : RingBuffer) : RbOp → Option RingBuffer
  | .malloc size => (rb.malloc size).map Prod.fst
  | .realloc o size => (rb.realloc o size).map Prod.fst
  | .free o => some ((rb.release o).free o)
  | .discard o => some (rb.discard o)
  | .discardSeqno s => (rb.discardSeqno s).map Prod.fst

/-- The calls in order. -/
def run (rb : RingBuffer) : List RbOp → Option RingBuffer
  | [] => some rb
  | op :: ops => (rb.step op).bind fun rb => rb.run ops

end RingBuffer

/-- A fresh file: every header reads as clear. -/
def zeroMem : Nat → BufferHeader := fun _ => BufferHeader.clear

/-- Three buffers fill a cache of 400 bytes; growing the last one by 48
    bytes finds no space after it, wraps, and cannot discard the first
    buffer, which is not released.  `realloc` then gives back the 48
    bytes it never got: `size_used_` is 352 for 400 bytes of live
    buffers, and `size_free_` is 48 with no byte free.  If the first
    buffer had been freed, the wrapped allocation succeeds at `start_`,
    is given back, and `size_trail_` stays 40 with `next_ >= first_`. -/
theorem ring_buffer_realloc_rollback :
    (∃ rb, (RingBuffer.init 400 zeroMem (DeqMap.clear seqnoNone)).run
        [.malloc 200, .malloc 48, .malloc 152, .realloc 248 200] = some rb ∧
      (rb.mem 0).size = 200 ∧ (rb.mem 200).size = 48 ∧ (rb.mem 248).size = 152 ∧
      rb.first = 0 ∧ rb.next = 400 ∧ rb.sizeUsed = 352 ∧ rb.sizeFree = 48) ∧
    (∃ rb, (RingBuffer.init 400 zeroMem (DeqMap.clear seqnoNone)).run
        [.malloc 96, .malloc 152, .malloc 152, .free 0, .realloc 248 200] = some rb ∧
      rb.first = 96 ∧ rb.next = 400 ∧ rb.sizeTrail = 40) := by
  constructor
  · refine ⟨_, rfl, ?_⟩
    decide
  · refine ⟨_, rfl, ?_⟩
    decide

end Galera.Gcache
