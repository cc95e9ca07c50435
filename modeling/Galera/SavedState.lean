/-
  Galera.SavedState
  ─────────────────
  **THE SAVED STATE FILE (`saved_state.hpp`, `saved_state.cpp`).**

  `SavedState` keeps the node's position (uuid, seqno, `safe_to_bootstrap`)
  in a file.  While a thread applies an action that changes the database
  out of order (`apply_trx` around a TO isolated action, state transfer),
  it brackets the action by `mark_unsafe` and `mark_safe`, so that a crash
  in between leaves a file that claims no position.  The counter `unsafe_`
  is an atomic: only the calls that move it from 0 to 1 or from 1 to 0
  take `mtx_` and write the file, and `mark_safe` looks at the counter
  again under the mutex.  `set` writes only while the counter is 0, and
  `mark_corrupt` stores half of `LONG_MAX` into it and writes an
  undefined position once and for all.

  Every atomic update of the counter and every section under `mtx_` is
  one step (`ssStep`) of one thread; between two steps a thread stands at
  an `SsPc`.  `write_file` is modelled as always succeeding with the
  stream open; the text layout, `current_len_` and the statistics are not
  modelled.

    * `ssRun_inv` — in every run from the constructor without
      `mark_corrupt`, the counter is the number of threads between the
      increment of `mark_unsafe` and the decrement of `mark_safe`, and:
    * `marked_file_uuid_undefined` — once a thread has returned from
      `mark_unsafe` and no thread waits for `mtx_` inside `mark_unsafe`,
      the file's uuid is undefined;
    * `settled_file` — once the counter is 0 and no thread waits for
      `mtx_` inside `mark_safe`, the file holds the position of the
      fields, unless the fields have the uuid last written and a negative
      seqno;
    * `saved_state_marked_before_write` — neither more: a thread that moves
      the counter from 1 to 2 returns while the file still holds a
      position, and a `set` of an undefined uuid with seqno -1 during an
      unsafe period is never written.
-/
import Mathlib

namespace Galera

open Function (update update_self update_of_ne)

/-! ## §1. The object -/

/-- `WSREP_SEQNO_UNDEFINED`. -/
def wsrepSeqnoUndefined : Int := -1

/-- `std::numeric_limits<long>::max() >> 1`, what `mark_corrupt` stores into
    the counter. -/
def halfLongMax : Int := (2 ^ 63 - 1) / 2

/-- A position as `write_file` writes it; the uuid `none` is
    `WSREP_UUID_UNDEFINED`. -/
structure SsRecord (υ : Type) where
  uuid : Option υ
  seqno : Int
  safeToBootstrap : Bool
  deriving DecidableEq, Repr

/-- `SavedState`: the fields the calls read and write (`unsafeCount` is
    `unsafe_`), and `file`, the position the file holds. -/
structure SavedState (υ : Type) where
  uuid : Option υ
  seqno : Int
  safeToBootstrap : Bool
  unsafeCount : Int
  corrupt : Bool
  writtenUuid : Option υ
  file : SsRecord υ
  deriving DecidableEq, Repr

namespace SavedState

variable {υ : Type}

/-- The constructor, once it has read the position `r` from the file. -/
def init (r : SsRecord υ) : SavedState υ :=
  { uuid := r.uuid, seqno := r.seqno, safeToBootstrap := r.safeToBootstrap, unsafeCount := 0,
    corrupt := false, writtenUuid := r.uuid, file := r }

/-- The position the fields hold. -/
def record (st : SavedState υ) : SsRecord υ := ⟨st.uuid, st.seqno, st.safeToBootstrap⟩

/-- `write_file (u, s, safe_to_bootstrap)`. -/
def writeFile (st : SavedState υ) (u : Option υ) (s : Int) (b : Bool) : SavedState υ :=
  { st with file := ⟨u, s, b⟩, writtenUuid := u }

variable [DecidableEq υ]

/-- `set (u, s, safe_to_bootstrap)`, all of it under `mtx_`. -/
def set (st : SavedState υ) (u : Option υ) (s : Int) (b : Bool) : SavedState υ :=
  if st.corrupt then st
  else if st.uuid ≠ u ∨ st.seqno ≠ s ∨ st.safeToBootstrap ≠ b then
    if st.unsafeCount = 0 then { st with uuid := u, seqno := s, safeToBootstrap := b }.writeFile u s b
    else { st with uuid := u, seqno := s, safeToBootstrap := b }
  else st

/-- The first step of `mark_unsafe`: `unsafe_.add_and_fetch (1)`, and
    whether it gave 1. -/
def markUnsafeAdd (st : SavedState υ) : SavedState υ × Bool :=
  ({ st with unsafeCount := st.unsafeCount + 1 }, st.unsafeCount + 1 = 1)

/-- The section of `mark_unsafe` under `mtx_`, after the counter went to 1. -/
def markUnsafeLocked (st : SavedState υ) : SavedState υ :=
  if st.writtenUuid ≠ none then st.writeFile none wsrepSeqnoUndefined st.safeToBootstrap else st

/-- The first step of `mark_safe`: `unsafe_.sub_and_fetch (1)`, and whether
    it gave 0. -/
def markSafeSub (st : SavedState υ) : SavedState υ × Bool :=
  ({ st with unsafeCount := st.unsafeCount - 1 }, st.unsafeCount - 1 = 0)

/-- The section of `mark_safe` under `mtx_`, after the counter went to 0:
    the counter is read again. -/
def markSafeLocked (st : SavedState υ) : SavedState υ :=
  if st.unsafeCount = 0 ∧ (st.writtenUuid ≠ st.uuid ∨ 0 ≤ st.seqno) then
    st.writeFile st.uuid st.seqno st.safeToBootstrap
  else st

/-- The first step of `mark_corrupt`: the store into the counter. -/
def markCorruptStore (st : SavedState υ) : SavedState υ := { st with unsafeCount := halfLongMax }

/-- The section of `mark_corrupt` under `mtx_`. -/
def markCorruptLocked (st : SavedState υ) : SavedState υ :=
  if st.corrupt then st
  else { st with uuid := none, seqno := wsrepSeqnoUndefined, corrupt := true }.writeFile none
    wsrepSeqnoUndefined st.safeToBootstrap

end SavedState

/-! ## §2. The threads -/

/-- Where a thread stands between two steps: `marked` when it has returned
    from `mark_unsafe` and not entered `mark_safe`; the other states but
    `idle` wait for `mtx_` inside a call (`mark_corrupt` remembers whether
    its caller had a pair open). -/
inductive SsPc
  | idle
  | markUnsafeWait
  | marked
  | markSafeWait
  | markCorruptWait (paired : Bool)
  deriving DecidableEq, Repr

/-- The calls: `set` is one step; `markUnsafe`, `markSafe` and
    `markCorrupt` are the first step of their call, and `lock` takes `mtx_`
    for the rest of the call the thread is in. -/
inductive SsOp (υ : Type)
  | set (u : Option υ) (s : Int) (b : Bool)
  | markUnsafe
  | markSafe
  | markCorrupt
  | lock
  deriving DecidableEq, Repr

/-- The object and where each thread stands. -/
structure SsWorld (τ υ : Type) where
  st : SavedState υ
  pc : τ → SsPc

variable {τ υ : Type}

/-- Just constructed from the position `r`, every thread idle. -/
def SsWorld.init (r : SsRecord υ) : SsWorld τ υ := ⟨SavedState.init r, fun _ => .idle⟩

section step

variable [DecidableEq τ] [DecidableEq υ]

/-- One step of thread `i`; `none` when the call cannot be made where the
    thread stands. -/
def ssStep (w : SsWorld τ υ) (i : τ) : SsOp υ → Option (SsWorld τ υ)
  | .set u s b =>
    match w.pc i with
    | .idle | .marked => some { w with st := w.st.set u s b }
    | _ => none
  | .markUnsafe =>
    match w.pc i with
    | .idle =>
      some ⟨w.st.markUnsafeAdd.1,
        update w.pc i (if w.st.markUnsafeAdd.2 then .markUnsafeWait else .marked)⟩
    | _ => none
  | .markSafe =>
    match w.pc i with
    | .marked =>
      some ⟨w.st.markSafeSub.1, update w.pc i (if w.st.markSafeSub.2 then .markSafeWait else .idle)⟩
    | _ => none
  | .markCorrupt =>
    match w.pc i with
    | .idle => some ⟨w.st.markCorruptStore, update w.pc i (.markCorruptWait false)⟩
    | .marked => some ⟨w.st.markCorruptStore, update w.pc i (.markCorruptWait true)⟩
    | _ => none
  | .lock =>
    match w.pc i with
    | .markUnsafeWait => some ⟨w.st.markUnsafeLocked, update w.pc i .marked⟩
    | .markSafeWait => some ⟨w.st.markSafeLocked, update w.pc i .idle⟩
    | .markCorruptWait paired =>
      some ⟨w.st.markCorruptLocked, update w.pc i (if paired then .marked else .idle)⟩
    | _ => none

/-- The steps of a list of (thread, call) pairs, one after another. -/
def ssRun (w : SsWorld τ υ) : List (τ × SsOp υ) → Option (SsWorld τ υ)
  | [] => some w
  | (i, op) :: ops => (ssStep w i op).bind fun w' => ssRun w' ops

end step

/-! ## §3. What each call does to the file -/

namespace SavedState

variable {υ : Type} (st : SavedState υ)

/-- The file's uuid is `written_uuid_`. -/
def Written : Prop := st.file.uuid = st.writtenUuid

/-- The file holds the fields' position, or the fields have the uuid
    last written and a negative seqno: `mark_safe` writes unless so. -/
def Settled : Prop := st.file = st.record ∨ (st.writtenUuid = st.uuid ∧ st.seqno < 0)

variable {st} (u : Option υ) (s : Int) (b : Bool)

theorem writeFile_written : (st.writeFile u s b).Written := rfl

@[simp] theorem markUnsafeLocked_unsafeCount : st.markUnsafeLocked.unsafeCount = st.unsafeCount := by
  unfold markUnsafeLocked
  split_ifs <;> rfl

/-- After the section of `mark_unsafe`, the uuid last written is undefined. -/
theorem markUnsafeLocked_writtenUuid : st.markUnsafeLocked.writtenUuid = none := by
  unfold markUnsafeLocked
  split_ifs with h
  · rfl
  · exact not_not.1 h

theorem markUnsafeLocked_written (h : st.Written) : st.markUnsafeLocked.Written := by
  unfold markUnsafeLocked
  split_ifs
  · exact writeFile_written _ _ _
  · exact h

variable [DecidableEq υ]

@[simp] theorem set_unsafeCount : (st.set u s b).unsafeCount = st.unsafeCount := by
  unfold set
  split_ifs <;> rfl

theorem set_written (h : st.Written) : (st.set u s b).Written := by
  unfold set
  split_ifs
  all_goals first | exact h | exact writeFile_written _ _ _

/-- While the counter is not 0, `set` changes the fields only. -/
theorem set_writtenUuid_of_ne (h : st.unsafeCount ≠ 0) : (st.set u s b).writtenUuid = st.writtenUuid := by
  unfold set
  split_ifs <;> rfl

/-- While the counter is 0, `set` writes what it assigns. -/
theorem set_settled (h0 : st.unsafeCount = 0) (h : st.Settled) : (st.set u s b).Settled := by
  unfold set
  split_ifs
  · exact h
  · exact .inl rfl
  · exact h

@[simp] theorem markSafeLocked_unsafeCount : st.markSafeLocked.unsafeCount = st.unsafeCount := by
  unfold markSafeLocked
  split_ifs <;> rfl

theorem markSafeLocked_written (h : st.Written) : st.markSafeLocked.Written := by
  unfold markSafeLocked
  split_ifs
  · exact writeFile_written _ _ _
  · exact h

/-- `mark_safe` writes only when it reads the counter as 0. -/
theorem markSafeLocked_writtenUuid_of_ne (h : st.unsafeCount ≠ 0) :
    st.markSafeLocked.writtenUuid = st.writtenUuid := by
  unfold markSafeLocked
  rw [if_neg (fun hc => h hc.1)]

/-- When it reads the counter as 0, `mark_safe` leaves the file settled. -/
theorem markSafeLocked_settled (h0 : st.unsafeCount = 0) : st.markSafeLocked.Settled := by
  unfold markSafeLocked
  split_ifs with hw
  · exact .inl rfl
  · -- not written: the uuid was written last and the seqno is negative
    have hw' : ¬(st.writtenUuid ≠ st.uuid ∨ 0 ≤ st.seqno) := fun h => hw ⟨h0, h⟩
    push Not at hw'
    exact .inr ⟨hw'.1, hw'.2⟩

end SavedState

/-! ## §4. One step -/

/-- The threads that count in `unsafe_`: they have made the increment of
    `mark_unsafe` and not the decrement of `mark_safe`. -/
def SsPc.marks : SsPc → Int
  | .markUnsafeWait => 1
  | .marked => 1
  | _ => 0

@[simp] theorem SsPc.marks_idle : SsPc.idle.marks = 0 := rfl
@[simp] theorem SsPc.marks_markUnsafeWait : SsPc.markUnsafeWait.marks = 1 := rfl
@[simp] theorem SsPc.marks_marked : SsPc.marked.marks = 1 := rfl
@[simp] theorem SsPc.marks_markSafeWait : SsPc.markSafeWait.marks = 0 := rfl
@[simp] theorem SsPc.marks_markCorruptWait (paired : Bool) : (SsPc.markCorruptWait paired).marks = 0 := rfl

theorem SsPc.marks_nonneg (p : SsPc) : 0 ≤ p.marks := by
  unfold SsPc.marks
  split <;> decide

section move

variable [DecidableEq τ] [DecidableEq υ]

/-- What one step of a thread does, by the call and where the thread
    stands; `markUnsafe` and `markSafe` with the counter's value read off. -/
inductive SsMove (w : SsWorld τ υ) (i : τ) : SsOp υ → SsWorld τ υ → Prop
  | set (u : Option υ) (s : Int) (b : Bool) : w.pc i = .idle ∨ w.pc i = .marked →
      SsMove w i (.set u s b) { w with st := w.st.set u s b }
  | markUnsafe : w.pc i = .idle →
      SsMove w i .markUnsafe ⟨{ w.st with unsafeCount := w.st.unsafeCount + 1 },
        update w.pc i (if w.st.unsafeCount = 0 then .markUnsafeWait else .marked)⟩
  | markSafe : w.pc i = .marked →
      SsMove w i .markSafe ⟨{ w.st with unsafeCount := w.st.unsafeCount - 1 },
        update w.pc i (if w.st.unsafeCount = 1 then .markSafeWait else .idle)⟩
  | markCorrupt (paired : Bool) : w.pc i = (if paired then .marked else .idle) →
      SsMove w i .markCorrupt ⟨w.st.markCorruptStore, update w.pc i (.markCorruptWait paired)⟩
  | lockUnsafe : w.pc i = .markUnsafeWait →
      SsMove w i .lock ⟨w.st.markUnsafeLocked, update w.pc i .marked⟩
  | lockSafe : w.pc i = .markSafeWait →
      SsMove w i .lock ⟨w.st.markSafeLocked, update w.pc i .idle⟩
  | lockCorrupt (paired : Bool) : w.pc i = .markCorruptWait paired →
      SsMove w i .lock ⟨w.st.markCorruptLocked, update w.pc i (if paired then .marked else .idle)⟩

/-- Every step is one of the moves. -/
theorem ssStep_move {w w' : SsWorld τ υ} {i : τ} {op : SsOp υ} (h : ssStep w i op = some w') :
    SsMove w i op w' := by
  cases op with
  | set u s b =>
    simp only [ssStep] at h
    split at h
    next hpc => cases h; exact .set u s b (.inl hpc)
    next hpc => cases h; exact .set u s b (.inr hpc)
    next => cases h
  | markUnsafe =>
    simp only [ssStep] at h
    split at h
    next hpc =>
      cases h
      have hone : w.st.markUnsafeAdd.2 = decide (w.st.unsafeCount = 0) := by
        simp only [SavedState.markUnsafeAdd, add_eq_right]
      rw [hone]
      simp only [decide_eq_true_eq]
      exact .markUnsafe hpc
    next => cases h
  | markSafe =>
    simp only [ssStep] at h
    split at h
    next hpc =>
      cases h
      have hzero : w.st.markSafeSub.2 = decide (w.st.unsafeCount = 1) := by
        simp only [SavedState.markSafeSub, sub_eq_zero]
      rw [hzero]
      simp only [decide_eq_true_eq]
      exact .markSafe hpc
    next => cases h
  | markCorrupt =>
    simp only [ssStep] at h
    split at h
    next hpc => cases h; exact .markCorrupt false (by rw [hpc]; rfl)
    next hpc => cases h; exact .markCorrupt true (by rw [hpc]; rfl)
    next => cases h
  | lock =>
    simp only [ssStep] at h
    split at h
    next hpc => cases h; exact .lockUnsafe hpc
    next hpc => cases h; exact .lockSafe hpc
    next paired hpc => cases h; exact .lockCorrupt paired hpc
    next => cases h

end move

/-! ## §5. What every run keeps -/

section count

variable {τ : Type} [Fintype τ]

theorem marks_le_sum (pc : τ → SsPc) (i : τ) : (pc i).marks ≤ ∑ j, (pc j).marks :=
  Finset.single_le_sum (fun j _ => (pc j).marks_nonneg) (Finset.mem_univ i)

variable [DecidableEq τ]

/-- One thread moving changes the count by what it counted before and
    after. -/
theorem sum_marks_update (pc : τ → SsPc) (i : τ) (p : SsPc) :
    ∑ j, (update pc i p j).marks = ∑ j, (pc j).marks - (pc i).marks + p.marks := by
  have hupd : ∀ j, (update pc i p j).marks = update (fun j => (pc j).marks) i p.marks j :=
    Function.apply_update (fun _ => SsPc.marks) pc i p
  simp only [hupd]
  rw [Finset.sum_update_of_mem (Finset.mem_univ i),
    Finset.sum_eq_add_sum_sdiff_singleton_of_mem (Finset.mem_univ i) fun j => (pc j).marks]
  omega

end count

/-- A thread that counts has made the increment of `mark_unsafe`. -/
theorem SsPc.eq_of_marks {p : SsPc} (h : p.marks ≠ 0) : p = .markUnsafeWait ∨ p = .marked := by
  cases p with
  | markUnsafeWait => exact .inl rfl
  | marked => exact .inr rfl
  | _ => exact absurd rfl h

/-- No thread stands at `p` but perhaps `i`, which does not stand there
    before. -/
theorem forall_ne_of_update {τ : Type} [DecidableEq τ] {pc : τ → SsPc} {i : τ} {p x : SsPc}
    (h : ∀ j, update pc i p j ≠ x) (hi : pc i ≠ x) (j : τ) : pc j ≠ x := by
  by_cases hj : j = i
  · exact hj ▸ hi
  · simpa only [update_of_ne hj] using h j

/-- No thread stands at `x` after `i` moves to `p ≠ x`. -/
theorem update_ne_of_forall {τ : Type} [DecidableEq τ] {pc : τ → SsPc} {i : τ} {p x : SsPc}
    (h : ∀ j, pc j ≠ x) (hp : p ≠ x) (j : τ) : update pc i p j ≠ x := by
  by_cases hj : j = i
  · simpa only [hj, update_self] using hp
  · simpa only [update_of_ne hj] using h j

/-- A thread stands at `x` before `i` moves to `p ≠ x`, if one does after. -/
theorem exists_of_update {τ : Type} [DecidableEq τ] {pc : τ → SsPc} {i : τ} {p x : SsPc}
    (h : ∃ j, update pc i p j = x) (hp : p ≠ x) : ∃ j, pc j = x := by
  obtain ⟨j, hj⟩ := h
  by_cases hji : j = i
  · rw [hji, update_self] at hj
    exact absurd hj hp
  · exact ⟨j, by rwa [update_of_ne hji] at hj⟩

variable [Fintype τ]

/-- What every run from the constructor without `mark_corrupt` keeps: the
    counter counts the threads between the two atomic updates of a pair;
    the file's uuid is `written_uuid_`; while a thread has returned from
    `mark_unsafe` and none waits inside it, the uuid last written is
    undefined; while the counter is 0 and no thread waits inside
    `mark_safe`, the file is settled. -/
structure SsWorld.Inv (w : SsWorld τ υ) : Prop where
  count : w.st.unsafeCount = ∑ j, (w.pc j).marks
  written : w.st.Written
  parked : (∃ i, w.pc i = .marked) → (∀ i, w.pc i ≠ .markUnsafeWait) → w.st.writtenUuid = none
  settled : w.st.unsafeCount = 0 → (∀ i, w.pc i ≠ .markSafeWait) → w.st.Settled
  noCorrupt : ∀ i paired, w.pc i ≠ .markCorruptWait paired

namespace SsWorld.Inv

variable {w : SsWorld τ υ} (h : w.Inv)
include h

theorem count_nonneg : 0 ≤ w.st.unsafeCount :=
  h.count ▸ Finset.sum_nonneg fun j _ => (w.pc j).marks_nonneg

/-- A thread that counts keeps the counter positive. -/
theorem count_pos {i : τ} (hi : w.pc i = .markUnsafeWait ∨ w.pc i = .marked) :
    0 < w.st.unsafeCount := by
  have hone : (w.pc i).marks = 1 := by rcases hi with hi | hi <;> rw [hi] <;> rfl
  have := marks_le_sum w.pc i
  rw [h.count]
  omega

/-- A counter that is not 0 has a thread that counts. -/
theorem exists_marks (hc : w.st.unsafeCount ≠ 0) :
    ∃ j, w.pc j = .markUnsafeWait ∨ w.pc j = .marked := by
  rw [h.count] at hc
  obtain ⟨j, -, hj⟩ := Finset.exists_ne_zero_of_sum_ne_zero hc
  exact ⟨j, SsPc.eq_of_marks hj⟩

end SsWorld.Inv

theorem SsWorld.inv_init (r : SsRecord υ) : (SsWorld.init r : SsWorld τ υ).Inv where
  count := by simp [SsWorld.init, SavedState.init, SsPc.marks]
  written := rfl
  parked hm _ := by obtain ⟨_, hj⟩ := hm; cases hj
  settled _ _ := .inl rfl
  noCorrupt _ _ := by simp [SsWorld.init]

section moves

variable {w : SsWorld τ υ} {i : τ}

section counter

variable [DecidableEq τ]

/-- The increment of `mark_unsafe`: the thread waits for `mtx_` if it
    counted 0 → 1, and returns at once otherwise. -/
theorem inv_markUnsafe (h : w.Inv) (hpc : w.pc i = .idle) :
    SsWorld.Inv ⟨{ w.st with unsafeCount := w.st.unsafeCount + 1 },
      update w.pc i (if w.st.unsafeCount = 0 then .markUnsafeWait else .marked)⟩ where
  count := by
    have hp : (if w.st.unsafeCount = 0 then SsPc.markUnsafeWait else .marked).marks = 1 := by
      split <;> rfl
    show w.st.unsafeCount + 1 = _
    rw [sum_marks_update, hp, hpc, SsPc.marks_idle, ← h.count]
    omega
  written := h.written
  parked hm hw := by
    dsimp only at hm hw ⊢
    by_cases hc : w.st.unsafeCount = 0
    · exact absurd (by rw [update_self, if_pos hc]) (hw i)
    · -- counted 1 → 2 or more: another thread counts, and does not wait
      obtain ⟨j, hj⟩ := h.exists_marks hc
      have hji : j ≠ i := by rintro rfl; rcases hj with hj | hj <;> rw [hpc] at hj <;> cases hj
      have hj' := hw j
      rw [update_of_ne hji] at hj'
      have hmarked : w.pc j = .marked := hj.resolve_left hj'
      exact h.parked ⟨j, hmarked⟩ (forall_ne_of_update hw (by rw [hpc]; decide))
  settled h0 := by
    change w.st.unsafeCount + 1 = 0 at h0
    have := h.count_nonneg
    omega
  noCorrupt j paired :=
    update_ne_of_forall (fun j => h.noCorrupt j paired) (by split <;> exact nofun) j

/-- The decrement of `mark_safe`: the thread waits for `mtx_` if it
    counted 1 → 0, and returns at once otherwise. -/
theorem inv_markSafe (h : w.Inv) (hpc : w.pc i = .marked) :
    SsWorld.Inv ⟨{ w.st with unsafeCount := w.st.unsafeCount - 1 },
      update w.pc i (if w.st.unsafeCount = 1 then .markSafeWait else .idle)⟩ where
  count := by
    have hp : (if w.st.unsafeCount = 1 then SsPc.markSafeWait else .idle).marks = 0 := by
      split <;> rfl
    show w.st.unsafeCount - 1 = _
    rw [sum_marks_update, hp, hpc, SsPc.marks_marked, ← h.count]
    omega
  written := h.written
  parked hm hw := by
    have hp : (if w.st.unsafeCount = 1 then SsPc.markSafeWait else .idle) ≠ .marked := by
      split <;> decide
    exact h.parked (exists_of_update hm hp) (forall_ne_of_update hw (by rw [hpc]; decide))
  settled h0 hw := by
    -- counted 1 → 0: the thread itself waits inside `mark_safe`
    dsimp only at h0 hw
    change w.st.unsafeCount - 1 = 0 at h0
    have h1 : w.st.unsafeCount = 1 := by omega
    exact absurd (by rw [update_self, if_pos h1]) (hw i)
  noCorrupt j paired :=
    update_ne_of_forall (fun j => h.noCorrupt j paired) (by split <;> exact nofun) j

/-- The section of `mark_unsafe`: the uuid last written becomes undefined. -/
theorem inv_lockUnsafe (h : w.Inv) (hpc : w.pc i = .markUnsafeWait) :
    SsWorld.Inv ⟨w.st.markUnsafeLocked, update w.pc i .marked⟩ where
  count := by
    show w.st.markUnsafeLocked.unsafeCount = _
    rw [SavedState.markUnsafeLocked_unsafeCount, sum_marks_update, hpc, SsPc.marks_markUnsafeWait,
      SsPc.marks_marked, ← h.count]
    omega
  written := SavedState.markUnsafeLocked_written h.written
  parked _ _ := SavedState.markUnsafeLocked_writtenUuid
  settled h0 := by
    change w.st.markUnsafeLocked.unsafeCount = 0 at h0
    rw [SavedState.markUnsafeLocked_unsafeCount] at h0
    exact absurd h0 (h.count_pos (.inl hpc)).ne'
  noCorrupt j paired := update_ne_of_forall (fun j => h.noCorrupt j paired) (by exact nofun) j

end counter

variable [DecidableEq υ]

/-- `set`: the threads stay; the fields change, and the file only while
    the counter is 0. -/
theorem inv_set (h : w.Inv) (u : Option υ) (s : Int) (b : Bool) : SsWorld.Inv { w with st := w.st.set u s b } where
  count := by
    show (w.st.set u s b).unsafeCount = _
    rw [SavedState.set_unsafeCount]
    exact h.count
  written := SavedState.set_written u s b h.written
  parked hm hw := by
    -- a thread returned from `mark_unsafe` keeps the counter off 0
    dsimp only at hm hw ⊢
    obtain ⟨j, hj⟩ := hm
    have hc : w.st.unsafeCount ≠ 0 := (h.count_pos (.inr hj)).ne'
    rw [SavedState.set_writtenUuid_of_ne u s b hc]
    exact h.parked ⟨j, hj⟩ hw
  settled h0 hw := by
    change (w.st.set u s b).unsafeCount = 0 at h0
    rw [SavedState.set_unsafeCount] at h0
    exact SavedState.set_settled u s b h0 (h.settled h0 hw)
  noCorrupt := h.noCorrupt

variable [DecidableEq τ]

/-- The section of `mark_safe`: it writes only if it reads the counter as 0,
    when no thread has returned from `mark_unsafe`. -/
theorem inv_lockSafe (h : w.Inv) (hpc : w.pc i = .markSafeWait) :
    SsWorld.Inv ⟨w.st.markSafeLocked, update w.pc i .idle⟩ where
  count := by
    show w.st.markSafeLocked.unsafeCount = _
    rw [SavedState.markSafeLocked_unsafeCount, sum_marks_update, hpc, SsPc.marks_markSafeWait,
      SsPc.marks_idle, ← h.count]
    omega
  written := SavedState.markSafeLocked_written h.written
  parked hm hw := by
    dsimp only at hm hw ⊢
    obtain ⟨j, hj⟩ := exists_of_update hm (by decide)
    have hc : w.st.unsafeCount ≠ 0 := (h.count_pos (.inr hj)).ne'
    rw [SavedState.markSafeLocked_writtenUuid_of_ne hc]
    exact h.parked ⟨j, hj⟩ (forall_ne_of_update hw (by rw [hpc]; decide))
  settled h0 _ := by
    change w.st.markSafeLocked.unsafeCount = 0 at h0
    rw [SavedState.markSafeLocked_unsafeCount] at h0
    exact SavedState.markSafeLocked_settled h0
  noCorrupt j paired := update_ne_of_forall (fun j => h.noCorrupt j paired) (by exact nofun) j

end moves

variable [DecidableEq τ] [DecidableEq υ]

/-- Every move but those of `mark_corrupt` keeps the invariant. -/
theorem SsMove.inv {w w' : SsWorld τ υ} {i : τ} {op : SsOp υ} (m : SsMove w i op w')
    (hop : op ≠ .markCorrupt) (h : w.Inv) : w'.Inv := by
  cases m with
  | set u s b _ => exact inv_set h u s b
  | markUnsafe hpc => exact inv_markUnsafe h hpc
  | markSafe hpc => exact inv_markSafe h hpc
  | markCorrupt => exact absurd rfl hop
  | lockUnsafe hpc => exact inv_lockUnsafe h hpc
  | lockSafe hpc => exact inv_lockSafe h hpc
  | lockCorrupt paired hpc => exact absurd hpc (h.noCorrupt i paired)

/-- The run lemma: induction on the calls, one move at a time. -/
theorem ssRun_inv : ∀ (ops : List (τ × SsOp υ)) {w w' : SsWorld τ υ}, w.Inv →
    (∀ p ∈ ops, p.2 ≠ .markCorrupt) → ssRun w ops = some w' → w'.Inv
  | [], _, _, h, _, hrun => by cases hrun; exact h
  | (i, op) :: ops, w, w', h, hops, hrun => by
    simp only [ssRun, Option.bind_eq_some_iff] at hrun
    obtain ⟨w₁, hstep, hrest⟩ := hrun
    have h₁ := (ssStep_move hstep).inv (hops (i, op) List.mem_cons_self) h
    exact ssRun_inv ops h₁ (fun p hp => hops p (List.mem_cons_of_mem _ hp)) hrest

section runs

variable {r : SsRecord υ} {ops : List (τ × SsOp υ)} {w : SsWorld τ υ}

/-- While a thread has returned from `mark_unsafe` and no thread waits for
    `mtx_` inside `mark_unsafe`, the file's uuid is undefined. -/
theorem marked_file_uuid_undefined (hops : ∀ p ∈ ops, p.2 ≠ .markCorrupt)
    (hrun : ssRun (SsWorld.init r) ops = some w) {i : τ} (hi : w.pc i = .marked)
    (hwait : ∀ j, w.pc j ≠ .markUnsafeWait) : w.st.file.uuid = none := by
  have h := ssRun_inv ops (SsWorld.inv_init r) hops hrun
  rw [h.written]
  exact h.parked ⟨i, hi⟩ hwait

/-- While the counter is 0 and no thread waits for `mtx_` inside
    `mark_safe`, the file holds the position of the fields, unless these
    have the file's uuid and a negative seqno. -/
theorem settled_file (hops : ∀ p ∈ ops, p.2 ≠ .markCorrupt)
    (hrun : ssRun (SsWorld.init r) ops = some w) (h0 : w.st.unsafeCount = 0)
    (hwait : ∀ j, w.pc j ≠ .markSafeWait) :
    w.st.file = w.st.record ∨ (w.st.file.uuid = w.st.uuid ∧ w.st.seqno < 0) := by
  have h := ssRun_inv ops (SsWorld.inv_init r) hops hrun
  rw [h.written]
  exact h.settled h0 hwait

end runs

/-! ## §6. What the counter does not protect -/

/-- Two threads on a state file that holds no position.  Thread 1 `set`s a
    position, which is written; thread 0 counts 0 → 1 in `mark_unsafe` and
    waits for `mtx_`; thread 1 counts 1 → 2 and returns, with the file still
    holding the position.  On a file that holds a position, thread 0 runs
    `mark_unsafe`, thread 1 `set`s the undefined uuid with seqno -1 and
    `safe_to_bootstrap` false, and thread 0 runs `mark_safe`: every thread
    is idle and the counter is 0, but the file keeps `safe_to_bootstrap`
    true. -/
theorem saved_state_marked_before_write :
    (∃ w, ssRun (SsWorld.init ⟨none, wsrepSeqnoUndefined, true⟩ : SsWorld (Fin 2) Nat)
        [(1, .set (some 7) 5 true), (0, .markUnsafe), (1, .markUnsafe)] = some w ∧
      w.pc 0 = .markUnsafeWait ∧ w.pc 1 = .marked ∧ w.st.file = ⟨some 7, 5, true⟩) ∧
    ∃ w, ssRun (SsWorld.init ⟨some 7, 5, true⟩ : SsWorld (Fin 2) Nat)
        [(0, .markUnsafe), (0, .lock), (1, .set none wsrepSeqnoUndefined false), (0, .markSafe),
          (0, .lock)] = some w ∧
      (∀ j, w.pc j = .idle) ∧ w.st.unsafeCount = 0 ∧ w.st.corrupt = false ∧
      w.st.record = ⟨none, wsrepSeqnoUndefined, false⟩ ∧ w.st.file = ⟨none, wsrepSeqnoUndefined, true⟩ := by
  refine ⟨⟨_, rfl, rfl, rfl, rfl⟩, _, rfl, ?_⟩
  refine ⟨?_, rfl, rfl, rfl, rfl⟩
  decide

end Galera
