/-
  Galera.Gcache.Seqno
  ───────────────────
  **THE HISTORY IN GCACHE (`GCache_seqno.cpp`, `GCache_memops.cpp`).**

  `seqno_assign` maps a seqno to its buffer in `seqno2ptr`;
  `seqno_release` releases the buffers of the history in order, in
  batches, each under the mutex; `GCache::free` releases one buffer.  A
  released buffer with a seqno stays in the map, and so in the history,
  until it is discarded to make room.  A thread that serves the history
  from seqno `s` (an IST donor) takes `seqno_lock(s)`, and
  `seqno_locked` is the least seqno locked.  `seqno_release` and
  `GCache::discard_seqno` stop short of it.

  Only the ring buffer store is modelled (see `Galera.Gcache.RingBuffer`):
  the memory store is taken to be empty (`gcache.mem_size` 0), and the
  page store is not modelled, so an allocation the ring buffer refuses
  fails.  The `freeze_purge_at_seqno` of `params` is the ring buffer's
  copy, which is set with it.  `seqno_reset` is modelled for the same
  history only.

    * `seqnoReleaseStep_released_lt_locked` — a batch of `seqno_release`
      releases buffers of seqnos below `seqno_locked` only;
    * `discardSeqno_get_of_locked_le` — `GCache::discard_seqno` keeps the
      map at every seqno from `seqno_locked` on;
    * `gcache_rb_discards_locked_seqno` — but the ring buffer makes room
      through its own `discard_seqno`, which reads no lock: a `malloc`
      discards locked seqnos of released buffers and writes a new buffer
      over one of them;
    * `seqno_release_leaves_released_below` — `seqno_release` skips a
      buffer that is released already without moving `seqno_released` on
      to its seqno, so after a seqno assigned out of order it returns
      short of the seqno it was asked for.
-/
import Mathlib
import Galera.Gcache.RingBuffer

namespace Galera.Gcache

/-- `SEQNO_MAX`. -/
def seqnoMaxValue : Int := 2 ^ 63 - 1

/-- `MemOps::ALIGNMENT` on a 64-bit build. -/
def alignment : Nat := 8

/-- `MemOps::align_size(s)`: `GU_ALIGN`, up to a multiple of the
    alignment. -/
def alignSize (s : Nat) : Nat := ((s - 1) / alignment + 1) * alignment

/-- `GCache`: the ring buffer with the seqno map, and the seqno
    bookkeeping. -/
structure GCache where
  rb : RingBuffer
  seqnoMax : Int
  seqnoReleased : Int
  seqnoLocked : Int
  seqnoLockedCount : Nat

namespace GCache

/-- `GCache (cfg, data_dir)` on a ring buffer. -/
def init (rb : RingBuffer) : GCache :=
  let seqnoMax := if rb.seqno2ptr.empty then seqnoNone else rb.seqno2ptr.indexEnd - 1
  { rb, seqnoMax, seqnoReleased := seqnoMax, seqnoLocked := seqnoMaxValue, seqnoLockedCount := 0 }

/-- The seqno map. -/
def seqno2ptr (g : GCache) : DeqMap Nat := g.rb.seqno2ptr

/-! ## §1. Allocation and release -/

/-- `GCache::malloc(s)`: the ring buffer's, for `s` with its header. -/
def malloc (g : GCache) (s : Nat) : Option (GCache × Option Nat) :=
  if 0 < s then (g.rb.malloc (alignSize (s + bhSize))).map fun (rb, ptr) => ({ g with rb }, ptr)
  else some (g, none)

/-- `GCache::free_common(bh)` of a ring-buffer buffer: release it; one
    with a seqno moves `seqno_released` to that seqno. -/
def freeCommon (g : GCache) (o : Nat) : Option GCache :=
  let bh := g.rb.mem o
  let newReleased := if bh.seqnoG ≠ seqnoNone then bh.seqnoG else g.seqnoReleased
  match bh.store with
  | .bufferInRb => some { g with rb := (g.rb.release o).free o, seqnoReleased := newReleased }
  | _ => none

/-- `GCache::free(ptr)`. -/
def free (g : GCache) (o : Nat) : Option GCache := g.freeCommon o

/-- `GCache::realloc(ptr, s)` of an unordered ring-buffer buffer: the
    store's `realloc`, else a new buffer and the store's `free` of the
    old one.  An ordered buffer aborts. -/
def realloc (g : GCache) (o s : Nat) : Option (GCache × Option Nat) :=
  if s = 0 then (g.free o).map fun g => (g, none)
  else if 0 < (g.rb.mem o).seqnoG then none
  else
    let size := alignSize (s + bhSize)
    (g.rb.realloc o size).bind fun (rb, newPtr) =>
      let g := { g with rb }
      match newPtr with
      | some p => some (g, some p)
      | none =>
        (g.malloc size).map fun (g, p) =>
          match p with
          | some p => ({ g with rb := g.rb.free o }, some p)
          | none => (g, none)

/-- `GCache::seqno_assign(ptr, seqno_g, seqno_d)`: `none` where the
    source throws on a seqno already taken. -/
def seqnoAssign (g : GCache) (o : Nat) (seqnoG seqnoD : Int) : Option GCache :=
  let g' : Option GCache :=
    if g.seqnoMax < seqnoG then some { g with seqnoMax := seqnoG }
    else if (g.seqno2ptr.get seqnoG).isSome then none
    else some { g with seqnoReleased := min g.seqnoReleased (seqnoG - 1) }
  g'.map fun g =>
    let rb := { g.rb with seqno2ptr := g.seqno2ptr.insert seqnoG o }
    { g with rb := rb.setBh o { rb.mem o with seqnoG, seqnoD } }

/-! ## §2. The history lock -/

/-- `GCache::seqno_lock(seqno_g)`: `none` where the source throws
    `NotFound`, for a seqno not in the map. -/
def seqnoLock (g : GCache) (s : Int) : Option GCache :=
  if (g.seqno2ptr.get s).isSome then
    some { g with seqnoLockedCount := g.seqnoLockedCount + 1, seqnoLocked := min g.seqnoLocked s }
  else none

/-- `GCache::seqno_unlock()`: the least seqno locked stays until the
    last holder unlocks. -/
def seqnoUnlock (g : GCache) : GCache :=
  if 0 < g.seqnoLockedCount then
    let count := g.seqnoLockedCount - 1
    { g with seqnoLockedCount := count,
             seqnoLocked := if count = 0 then seqnoMaxValue else g.seqnoLocked }
  else { g with seqnoLocked := seqnoMaxValue }

/-! ## §3. Discarding the history -/

/-- `GCache::discard_buffer(bh)`. -/
def discardBuffer (g : GCache) (o : Nat) : Option GCache :=
  let rb := g.rb.setBh o { g.rb.mem o with seqnoG := seqnoIll }
  match (rb.mem o).store with
  | .bufferInRb => some { g with rb := rb.discard o }
  | _ => none

/-- The loop of `GCache::discard_seqno(seqno)`: released buffers go from
    the front of the map up to `seqno`. -/
def discardSeqnoLoop (seqno : Int) : Nat → GCache → Option (GCache × Bool)
  | 0, _ => none
  | fuel + 1, g =>
    if g.seqno2ptr.indexBegin ≤ seqno ∧ !g.seqno2ptr.empty then
      if g.rb.skipPurge g.seqno2ptr.indexBegin then some (g, false)
      else
        match g.seqno2ptr.get g.seqno2ptr.indexBegin with
        | none => none
        | some o =>
          if (g.rb.mem o).released then
            (g.discardBuffer o).bind fun g =>
              discardSeqnoLoop seqno fuel
                { g with rb := { g.rb with seqno2ptr := g.seqno2ptr.popFront } }
          else some (g, false)
    else some (g, true)

/-- `GCache::discard_seqno(seqno)`: nothing at or past the lock. -/
def discardSeqno (g : GCache) (seqno : Int) : Option (GCache × Bool) :=
  if g.seqnoLocked ≤ seqno then some (g, false)
  else discardSeqnoLoop seqno (g.seqno2ptr.base.length + 1) g

/-- The loop of `GCache::discard_tail(seqno)`: the seqnos past `seqno`
    go from the back. -/
def discardTailLoop (seqno : Int) : Nat → GCache → Option GCache
  | 0, _ => none
  | fuel + 1, g =>
    if seqno < g.seqno2ptr.indexEnd - 1 ∧ !g.seqno2ptr.empty then
      match g.seqno2ptr.get (g.seqno2ptr.indexEnd - 1) with
      | none => none
      | some o =>
        (g.discardBuffer o).bind fun g =>
          discardTailLoop seqno fuel { g with rb := { g.rb with seqno2ptr := g.seqno2ptr.popBack } }
    else some g

/-- `GCache::seqno_reset(g, s)` within the same history: the seqnos past
    `s` are discarded.  A new history (`none`) is not modelled. -/
def seqnoReset (g : GCache) (s : Int) : Option GCache :=
  if s ≠ seqnoIll ∧ s ≤ g.seqnoMax then
    if s < g.seqnoMax then
      (discardTailLoop s (g.seqno2ptr.base.length + 1) g).map fun g =>
        { g with seqnoMax := s, seqnoReleased := s }
    else some g
  else none

/-! ## §4. `seqno_release` -/

/-- What one thread of `seqno_release` carries from batch to batch. -/
structure ReleaseCursor where
  oldGap : Nat
  batchSize : Nat
  loop : Bool
  deriving DecidableEq, Repr

/-- `old_gap(-1)`, `batch_size(min_batch_size)`, `loop(false)`. -/
def ReleaseCursor.init : ReleaseCursor := ⟨2 ^ 64 - 1, 32, false⟩

/-- `batch_size += (new_gap >= old_gap) * min_batch_size`: the batch
    grows while the gap does not shrink. -/
def ReleaseCursor.nextBatchSize (cur : ReleaseCursor) (newGap : Nat) : Nat :=
  cur.batchSize + if cur.oldGap ≤ newGap then 32 else 0

/-- `end`: a batch from `start`, or all up to `seqno` when fewer than two
    batches are left. -/
def releaseBatchEnd (seqno start : Int) (batchSize : Nat) : Int :=
  if 2 * (batchSize : Int) ≤ seqno - start then start + batchSize else seqno

theorem releaseBatchEnd_le (seqno start : Int) (batchSize : Nat) :
    releaseBatchEnd seqno start batchSize ≤ seqno := by
  unfold releaseBatchEnd
  split <;> omega

/-- The inner loop of `seqno_release`: free the buffers of the seqnos
    from `idx` to `end` that are not released yet.  The last value of
    `loop`: whether `idx` was still in the map. -/
def releaseLoop (bEnd : Int) : Nat → GCache → Int → Option (GCache × Bool)
  | 0, _, _ => none
  | fuel + 1, g, idx =>
    if idx < g.seqno2ptr.indexEnd then
      if idx ≤ bEnd then
        match g.seqno2ptr.get idx with
        | none => none
        | some o =>
          let g' := if (g.rb.mem o).released then some g else g.freeCommon o
          g'.bind fun g => releaseLoop bEnd fuel g (g.seqno2ptr.upperBound idx)
      else some (g, true)
    else some (g, false)

/-- One pass of the `do ... while (loop)` of `seqno_release(seqno)`,
    under the mutex: the cursor for the next pass, or `none` when the
    call returns.  A batch reaching `seqno_locked` waits: `continue`
    goes to the loop's condition, which still holds the last pass's
    `loop`. -/
def seqnoReleaseStep (g : GCache) (seqno : Int) (cur : ReleaseCursor) :
    Option (GCache × Option ReleaseCursor) :=
  if seqno < g.seqnoReleased ∨ g.seqnoLocked ≤ seqno then some (g, none)
  else
    let idx := g.seqno2ptr.upperBound g.seqnoReleased
    if idx = g.seqno2ptr.indexEnd then some (g, none)
    else
      let newGap := toSizeT (g.seqnoMax - g.seqnoReleased)
      let batchSize := cur.nextBatchSize newGap
      let bEnd := releaseBatchEnd seqno (idx - 1) batchSize
      if g.seqnoLocked ≠ seqnoNone ∧ g.seqnoLocked ≤ bEnd then
        some (g, if cur.loop then some ⟨newGap, batchSize, cur.loop⟩ else none)
      else
        (releaseLoop bEnd ((g.seqno2ptr.indexEnd - idx).toNat + 1) g idx).map fun (g, loop) =>
          let loop := decide (bEnd < seqno) && loop
          (g, if loop then some ⟨newGap, batchSize, loop⟩ else none)

/-- `seqno_release(seqno)` run by one thread with nothing in between:
    its passes, as many as `fuel`. -/
def seqnoRelease (g : GCache) (seqno : Int) : Nat → ReleaseCursor → Option GCache
  | 0, _ => none
  | fuel + 1, cur =>
    (g.seqnoReleaseStep seqno cur).bind fun (g, next) =>
      match next with
      | none => some g
      | some cur => g.seqnoRelease seqno fuel cur

/-! ## §5. Runs -/

/-- A call on the cache; a buffer is named by its header's offset. -/
inductive GcOp
  | malloc (s : Nat)
  | realloc (ptr s : Nat)
  | free (ptr : Nat)
  | seqnoAssign (ptr : Nat) (seqnoG seqnoD : Int)
  | seqnoRelease (seqno : Int)
  | seqnoLock (seqno : Int)
  | seqnoUnlock
  | discardSeqno (seqno : Int)
  | seqnoReset (seqno : Int)
  deriving DecidableEq, Repr

/-- One call, its pointer or flag dropped; `seqno_release` in as many
    passes as the history is long. -/
def step (g : GCache) : GcOp → Option GCache
  | .malloc s => (g.malloc s).map Prod.fst
  | .realloc o s => (g.realloc o s).map Prod.fst
  | .free o => g.free o
  | .seqnoAssign o sg sd => g.seqnoAssign o sg sd
  | .seqnoRelease s => g.seqnoRelease s (g.seqno2ptr.base.length + 2) ReleaseCursor.init
  | .seqnoLock s => g.seqnoLock s
  | .seqnoUnlock => some g.seqnoUnlock
  | .discardSeqno s => (g.discardSeqno s).map Prod.fst
  | .seqnoReset s => g.seqnoReset s

/-- The calls in order. -/
def run (g : GCache) : List GcOp → Option GCache
  | [] => some g
  | op :: ops => (g.step op).bind fun g => g.run ops

/-! ## §6. What the lock holds back -/

/-- From `g` to `g'` the map and the lock stay, and every buffer that
    becomes released satisfies `p`. -/
structure ReleasesOnly (g g' : GCache) (p : Nat → Prop) : Prop where
  seqno2ptr_eq : g'.seqno2ptr = g.seqno2ptr
  seqnoLocked_eq : g'.seqnoLocked = g.seqnoLocked
  released : ∀ o, (g.rb.mem o).released = false → (g'.rb.mem o).released = true → p o

theorem ReleasesOnly.refl (g : GCache) (p : Nat → Prop) : ReleasesOnly g g p := by
  refine ⟨rfl, rfl, fun o h0 h1 => ?_⟩
  rw [h0] at h1
  cases h1

theorem ReleasesOnly.trans {g₁ g₂ g₃ : GCache} {p : Nat → Prop} (h₁ : ReleasesOnly g₁ g₂ p)
    (h₂ : ReleasesOnly g₂ g₃ p) : ReleasesOnly g₁ g₃ p := by
  refine ⟨h₂.seqno2ptr_eq.trans h₁.seqno2ptr_eq, h₂.seqnoLocked_eq.trans h₁.seqnoLocked_eq,
    fun o h0 h1 => ?_⟩
  -- the buffer became released in the first part or in the second
  cases hmid : (g₂.rb.mem o).released
  · exact h₂.released o hmid h1
  · exact h₁.released o h0 hmid

/-- `free_common` releases its own buffer and no other. -/
theorem freeCommon_releasesOnly {g g' : GCache} {o : Nat} (h : g.freeCommon o = some g')
    {p : Nat → Prop} (hp : p o) : ReleasesOnly g g' p := by
  unfold freeCommon at h
  dsimp only at h
  split at h
  · simp only [Option.some.injEq] at h
    subst h
    refine ⟨by simp [seqno2ptr], rfl, fun o' h0 h1 => ?_⟩
    rw [RingBuffer.released_free, RingBuffer.released_release, h0, Bool.or_false] at h1
    rw [of_decide_eq_true h1]
    exact hp
  · cases h

/-- The inner loop of `seqno_release` releases buffers of the seqnos up
    to `end` only: induction on the fuel, one `free_common` a slot. -/
theorem releaseLoop_releasesOnly {bEnd : Int} : ∀ (fuel : Nat) (g g' : GCache) (idx : Int) (l : Bool),
    releaseLoop bEnd fuel g idx = some (g', l) →
      ReleasesOnly g g' fun o => ∃ t ≤ bEnd, g.seqno2ptr.get t = some o
  | 0, _, _, _, _, h => by simp [releaseLoop] at h
  | fuel + 1, g, g', idx, l, h => by
    unfold releaseLoop at h
    split at h
    · split at h
      · rename_i hle
        split at h
        · cases h
        · rename_i o ho
          obtain ⟨g₁, h₁, h₂⟩ := Option.bind_eq_some_iff.mp h
          have hstep : ReleasesOnly g g₁ fun o' => ∃ t ≤ bEnd, g.seqno2ptr.get t = some o' := by
            split at h₁
            · simp only [Option.some.injEq] at h₁
              subst h₁
              exact ReleasesOnly.refl _ _
            · exact freeCommon_releasesOnly h₁ ⟨idx, hle, ho⟩
          have hrest := releaseLoop_releasesOnly fuel g₁ g' _ l h₂
          rw [hstep.seqno2ptr_eq] at hrest
          exact hstep.trans hrest
      · simp only [Option.some.injEq, Prod.mk.injEq] at h
        rw [← h.1]
        exact ReleasesOnly.refl _ _
    · simp only [Option.some.injEq, Prod.mk.injEq] at h
      rw [← h.1]
      exact ReleasesOnly.refl _ _

/-- **A pass of `seqno_release` stops short of the lock**: every buffer
    it releases is mapped at a seqno below `seqno_locked`.  The batch
    ends at `seqno` at the latest, and the pass runs only for
    `seqno < seqno_locked`. -/
theorem seqnoReleaseStep_released_lt_locked {g g' : GCache} {seqno : Int} {cur : ReleaseCursor}
    {next : Option ReleaseCursor} (h : g.seqnoReleaseStep seqno cur = some (g', next)) (o : Nat)
    (h0 : (g.rb.mem o).released = false) (h1 : (g'.rb.mem o).released = true) :
    ∃ t, t < g.seqnoLocked ∧ g.seqno2ptr.get t = some o := by
  -- the passes that release nothing leave `g` as it is
  have hsame : g' = g → False := by
    rintro rfl
    rw [h0] at h1
    cases h1
  unfold seqnoReleaseStep at h
  split at h
  · simp only [Option.some.injEq, Prod.mk.injEq] at h
    exact absurd h.1.symm hsame
  · rename_i hrun
    dsimp only at h
    split at h
    · simp only [Option.some.injEq, Prod.mk.injEq] at h
      exact absurd h.1.symm hsame
    · split at h
      · simp only [Option.some.injEq, Prod.mk.injEq] at h
        exact absurd h.1.symm hsame
      · obtain ⟨⟨g₁, l⟩, hl, heq⟩ := Option.map_eq_some_iff.mp h
        simp only [Prod.mk.injEq] at heq
        obtain ⟨t, ht, hget⟩ := (releaseLoop_releasesOnly _ _ _ _ _ hl).released o h0 (heq.1 ▸ h1)
        have hlt : seqno < g.seqnoLocked := by omega
        exact ⟨t, Int.lt_of_le_of_lt (Int.le_trans ht (releaseBatchEnd_le _ _ _)) hlt, hget⟩

theorem discardBuffer_seqno2ptr {g g' : GCache} {o : Nat} (h : g.discardBuffer o = some g') :
    g'.seqno2ptr = g.seqno2ptr := by
  unfold discardBuffer at h
  dsimp only at h
  split at h
  · simp only [Option.some.injEq] at h
    subst h
    rfl
  · cases h

/-- The loop of `GCache::discard_seqno(seqno)` pops the front while it
    is at most `seqno`: the map past `seqno` stays. -/
theorem discardSeqnoLoop_get {seqno : Int} : ∀ (fuel : Nat) (g g' : GCache) (r : Bool),
    discardSeqnoLoop seqno fuel g = some (g', r) →
      ∀ t, seqno < t → g'.seqno2ptr.get t = g.seqno2ptr.get t
  | 0, _, _, _, h, _, _ => by simp [discardSeqnoLoop] at h
  | fuel + 1, g, g', r, h, t, ht => by
    unfold discardSeqnoLoop at h
    split at h
    · rename_i hfront
      split at h
      · simp only [Option.some.injEq, Prod.mk.injEq] at h
        rw [← h.1]
      · split at h
        · cases h
        · split at h
          · obtain ⟨g₁, h₁, h₂⟩ := Option.bind_eq_some_iff.mp h
            rw [discardSeqnoLoop_get fuel _ g' r h₂ t ht]
            show g₁.seqno2ptr.popFront.get t = g.seqno2ptr.get t
            rw [discardBuffer_seqno2ptr h₁]
            exact DeqMap.get_popFront_of_ne (by unfold DeqMap.indexBegin at hfront; omega)
          · simp only [Option.some.injEq, Prod.mk.injEq] at h
            rw [← h.1]
    · simp only [Option.some.injEq, Prod.mk.injEq] at h
      rw [← h.1]

/-- **`GCache::discard_seqno` keeps what is locked**: the map is the same
    at every seqno from `seqno_locked` on. -/
theorem discardSeqno_get_of_locked_le {g g' : GCache} {seqno : Int} {r : Bool}
    (h : g.discardSeqno seqno = some (g', r)) (t : Int) (ht : g.seqnoLocked ≤ t) :
    g'.seqno2ptr.get t = g.seqno2ptr.get t := by
  unfold discardSeqno at h
  split at h
  · simp only [Option.some.injEq, Prod.mk.injEq] at h
    rw [← h.1]
  · exact discardSeqnoLoop_get _ g g' r h t (by omega)

end GCache

/-- A donor locks seqno 1 of a history whose buffers are released but
    still in the cache.  The next `malloc` wraps, and the ring buffer
    discards the buffers at `first_` through its own `discard_seqno`,
    which reads no lock: seqnos 1 and 2 leave the map while the lock at 1
    is held, and the new buffer's header is written over seqno 1's. -/
theorem gcache_rb_discards_locked_seqno :
    (∃ g, (GCache.init (RingBuffer.init 400 zeroMem (DeqMap.clear seqnoNone))).run
        [.malloc 160, .seqnoAssign 0 1 0, .malloc 160, .seqnoAssign 200 2 1, .seqnoRelease 2,
         .seqnoLock 1] = some g ∧
      g.seqnoLocked = 1 ∧ g.seqno2ptr.get 1 = some 0 ∧ g.seqno2ptr.get 2 = some 200) ∧
    (∃ g, (GCache.init (RingBuffer.init 400 zeroMem (DeqMap.clear seqnoNone))).run
        [.malloc 160, .seqnoAssign 0 1 0, .malloc 160, .seqnoAssign 200 2 1, .seqnoRelease 2,
         .seqnoLock 1, .malloc 160] = some g ∧
      g.seqnoLocked = 1 ∧ g.seqnoLockedCount = 1 ∧ g.seqno2ptr.get 1 = none ∧
      g.seqno2ptr.get 2 = none ∧ (g.rb.mem 0).seqnoG = seqnoNone ∧ (g.rb.mem 0).size = 200) := by
  constructor
  · refine ⟨_, rfl, ?_⟩
    decide
  · refine ⟨_, rfl, ?_⟩
    decide

/-- Seqno 2 is assigned and released before seqno 1 is assigned, which
    takes `seqno_released` back to 0.  `seqno_release(2)` then frees the
    buffer of seqno 1 and skips that of seqno 2, already released, without
    moving `seqno_released` on: it returns with `seqno_released` at 1,
    although seqnos 1 and 2 are both assigned. -/
theorem seqno_release_leaves_released_below :
    ∃ g, (GCache.init (RingBuffer.init 400 zeroMem (DeqMap.clear seqnoNone))).run
        [.malloc 160, .malloc 160, .seqnoAssign 200 2 1, .seqnoRelease 2, .seqnoAssign 0 1 0] = some g ∧
      g.seqnoReleased = 0 ∧ g.seqnoLocked = seqnoMaxValue ∧
      g.seqno2ptr.get 1 = some 0 ∧ g.seqno2ptr.get 2 = some 200 ∧
      (g.rb.mem 0).released = false ∧ (g.rb.mem 200).released = true ∧
      ∃ g', g.step (.seqnoRelease 2) = some g' ∧ g'.seqnoReleased = 1 ∧ (g'.rb.mem 0).released = true := by
  refine ⟨_, rfl, ?_⟩
  refine ⟨by decide, by decide, by decide, by decide, by decide, by decide, _, rfl, ?_⟩
  decide

end Galera.Gcache
