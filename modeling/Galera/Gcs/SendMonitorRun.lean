/-
  Galera.Gcs.SendMonitorRun
  ─────────────────────────
  **WHAT EVERY RUN OF THE SEND MONITOR KEEPS, AND WHAT IT DOES NOT.**

    * `smRunCreated_mutual_exclusion` — in every run from `gcs_sm_create`,
      `entered` counts the threads inside (entered, or grabbed) and is at
      most 1: no two threads are ever inside at once.  Each call keeps the
      count (`gcsSmEnter_excl`, ...), hence each step (`smStep_excl`) and
      each run (`smRun_excl`);
    * `gcs_sm_interrupted_waiter_wraps` — the queue discipline does not hold
      in every interleaving.  A waiter interrupted at the head is skipped
      by `_gcs_sm_wake_up_next` while it has not woken up yet.  If it
      wakes only after the ring has come round to its slot, it reads and
      clears the slot as its own: with two slots, `users` drops to -1, or
      the interrupted thread enters and a later waiter stays queued with
      nobody to signal it.
-/
import Mathlib
import Galera.Gcs.SendMonitor

namespace Galera.Gcs

open Function (update)

variable {τ : Type}

/-! ## §1. The threads inside -/

/-- Inside the monitor: entered, or grabbed. -/
def SmPc.occupies : SmPc → Bool
  | .inside => true
  | .grabbed => true
  | _ => false

@[simp] theorem SmPc.occupies_signal (pc : SmPc) : pc.signal.occupies = pc.occupies := by
  cases pc <;> rfl

/-- `w'` has the threads inside that `w` has, and the same `entered`. -/
structure SmWorld.SameInside (w w' : SmWorld τ) : Prop where
  entered_eq : w'.sm.entered = w.sm.entered
  occupies_eq : ∀ j, (w'.pc j).occupies = (w.pc j).occupies

theorem SmWorld.SameInside.refl (w : SmWorld τ) : w.SameInside w :=
  ⟨rfl, fun _ => rfl⟩

theorem SmWorld.SameInside.trans {w₁ w₂ w₃ : SmWorld τ} (h₁ : w₁.SameInside w₂)
    (h₂ : w₂.SameInside w₃) : w₁.SameInside w₃ :=
  ⟨h₂.entered_eq.trans h₁.entered_eq, fun j => (h₂.occupies_eq j).trans (h₁.occupies_eq j)⟩

/-- A change of the monitor that keeps `entered`. -/
theorem SmWorld.sameInside_sm (w : SmWorld τ) {sm : Sm τ} (h : sm.entered = w.sm.entered) :
    w.SameInside { w with sm } :=
  ⟨h, fun _ => rfl⟩

variable [DecidableEq τ]

/-- A move between two states outside. -/
theorem SmWorld.sameInside_setPc (w : SmWorld τ) {i : τ} {pc : SmPc}
    (h : pc.occupies = (w.pc i).occupies) : w.SameInside (w.setPc i pc) := by
  refine ⟨rfl, fun j => ?_⟩
  by_cases hj : j = i
  · subst hj
    simpa [SmWorld.setPc] using h
  · simp [SmWorld.setPc, hj]

theorem SmWorld.sameInside_finish (w : SmWorld τ) {i : τ} {pc : SmPc} (ret : Int)
    (h : pc.occupies = (w.pc i).occupies) : w.SameInside (w.finish i pc ret) := by
  refine ⟨rfl, fun j => ?_⟩
  by_cases hj : j = i
  · subst hj
    simpa [SmWorld.finish] using h
  · simp [SmWorld.finish, hj]

theorem SmWorld.sameInside_signal (w : SmWorld τ) (c : Option τ) : w.SameInside (w.signal c) := by
  cases c with
  | none => exact SmWorld.SameInside.refl w
  | some i => exact w.sameInside_setPc (SmPc.occupies_signal _)

/-- Waking the next waiter signals, and skips slots, but lets nobody in. -/
theorem gcsSmWakeUpNextLoop_sameInside :
    ∀ (fuel : Nat) (w : SmWorld τ), w.SameInside (gcsSmWakeUpNextLoop fuel w)
  | 0, w => SmWorld.SameInside.refl w
  | fuel + 1, w => by
    unfold gcsSmWakeUpNextLoop
    split
    · dsimp only
      split
      · exact w.sameInside_signal _
      · refine SmWorld.SameInside.trans ?_ (gcsSmWakeUpNextLoop_sameInside fuel _)
        exact w.sameInside_sm rfl
    · exact SmWorld.SameInside.refl w

theorem gcsSmWakeUpNext_sameInside (w : SmWorld τ) : w.SameInside (gcsSmWakeUpNext w) :=
  gcsSmWakeUpNextLoop_sameInside _ w

theorem gcsSmWakeUpWaiters_sameInside (w : SmWorld τ) : w.SameInside (gcsSmWakeUpWaiters w) := by
  unfold gcsSmWakeUpWaiters
  split
  · exact ⟨rfl, fun _ => rfl⟩
  · split
    · exact gcsSmWakeUpNext_sameInside w
    · exact SmWorld.SameInside.refl w

theorem gcsSmLeaveCommon_sameInside (w : SmWorld τ) : w.SameInside (gcsSmLeaveCommon w) := by
  unfold gcsSmLeaveCommon
  refine SmWorld.SameInside.trans ?_ (gcsSmWakeUpWaiters_sameInside _)
  exact w.sameInside_sm rfl

theorem gcsSmContinueCommon_sameInside (w : SmWorld τ) :
    w.SameInside (gcsSmContinueCommon w) := by
  unfold gcsSmContinueCommon
  refine SmWorld.SameInside.trans ?_ (gcsSmWakeUpNext_sameInside _)
  exact w.sameInside_sm rfl

/-- A thread outside queues, or moves between waits. -/
theorem SmWorld.sameInside_queue (w : SmWorld τ) {sm : Sm τ} (h : sm.entered = w.sm.entered)
    {i : τ} {pc : SmPc} (hpc : pc.occupies = false) (hi : (w.pc i).occupies = false) :
    w.SameInside ({ w with sm }.setPc i pc) :=
  (w.sameInside_sm h).trans (SmWorld.sameInside_setPc _ (hpc.trans hi.symm))

/-- A thread outside returns from a call and stays outside. -/
theorem SmWorld.sameInside_return (w : SmWorld τ) {i : τ} (ret : Int)
    (hi : (w.pc i).occupies = false) : w.SameInside (w.finish i .idle ret) :=
  w.sameInside_finish ret hi.symm

section Excl

variable [Fintype τ]

/-- The threads inside. -/
def SmWorld.occupants (w : SmWorld τ) : Finset τ :=
  Finset.univ.filter fun i => (w.pc i).occupies

/-- `entered` counts the threads inside, and there is at most one. -/
structure SmWorld.Excl (w : SmWorld τ) : Prop where
  entered_eq : w.sm.entered = (w.occupants.card : Int)
  card_le : w.occupants.card ≤ 1

omit [DecidableEq τ] in
theorem SmWorld.mem_occupants {w : SmWorld τ} {i : τ} : i ∈ w.occupants ↔ (w.pc i).occupies := by
  simp [SmWorld.occupants]

omit [DecidableEq τ] in
theorem SmWorld.SameInside.occupants_eq {w w' : SmWorld τ} (h : w.SameInside w') :
    w'.occupants = w.occupants := by
  ext j
  rw [SmWorld.mem_occupants, SmWorld.mem_occupants, h.occupies_eq j]

omit [DecidableEq τ] in
theorem SmWorld.SameInside.excl {w w' : SmWorld τ} (h : w.SameInside w') (hx : w.Excl) :
    w'.Excl := by
  refine ⟨?_, ?_⟩
  · rw [h.entered_eq, h.occupants_eq]
    exact hx.entered_eq
  · rw [h.occupants_eq]
    exact hx.card_le

omit [DecidableEq τ] in
theorem SmWorld.Excl.of_sameInside {w w' : SmWorld τ} (hx : w.Excl) (h : w.SameInside w') :
    w'.Excl :=
  h.excl hx

omit [DecidableEq τ] in
theorem smWorld_init_excl (sm : Sm τ) (h : sm.entered = 0) : (SmWorld.init sm).Excl := by
  have hempty : (SmWorld.init sm).occupants = ∅ := by
    ext j
    simp [SmWorld.mem_occupants, SmWorld.init, SmPc.occupies]
  refine ⟨?_, by rw [hempty]; simp⟩
  show sm.entered = _
  rw [hempty, h]
  rfl

/-- A thread enters a monitor nobody is inside. -/
theorem SmWorld.Excl.enter {w : SmWorld τ} (hx : w.Excl) {i : τ}
    (hi : (w.pc i).occupies = false) (h0 : w.sm.entered < gcsSmCc) {pc : SmPc}
    (hpc : pc.occupies = true) (ret : Int) :
    ({ w with sm := { w.sm with entered := w.sm.entered + 1 } }.finish i pc ret).Excl := by
  have hcard : w.occupants.card = 0 := by
    have := hx.entered_eq
    unfold gcsSmCc at h0
    omega
  have hempty := Finset.card_eq_zero.mp hcard
  -- the thread is the one inside now
  have hocc : ({ w with sm := { w.sm with entered := w.sm.entered + 1 } }.finish i pc ret).occupants =
      {i} := by
    ext j
    rw [SmWorld.mem_occupants, Finset.mem_singleton]
    by_cases hj : j = i
    · subst hj
      simp [SmWorld.finish, hpc]
    · have hout : (w.pc j).occupies = false := by
        have : j ∉ w.occupants := by simp [hempty]
        simpa [SmWorld.mem_occupants] using this
      simp [SmWorld.finish, hj, hout]
  refine ⟨?_, by rw [hocc]; simp⟩
  rw [hocc]
  change w.sm.entered + 1 = _
  have := hx.entered_eq
  rw [Finset.card_singleton]
  omega

/-- The thread inside leaves. -/
theorem SmWorld.Excl.leave {w : SmWorld τ} (hx : w.Excl) {i : τ}
    (hi : (w.pc i).occupies = true) {pc : SmPc} (hpc : pc.occupies = false) :
    ({ w with sm := { w.sm with entered := w.sm.entered - 1 } }.setPc i pc).Excl := by
  have hmem : i ∈ w.occupants := SmWorld.mem_occupants.mpr hi
  have hocc : ({ w with sm := { w.sm with entered := w.sm.entered - 1 } }.setPc i pc).occupants =
      w.occupants.erase i := by
    ext j
    rw [SmWorld.mem_occupants, Finset.mem_erase, SmWorld.mem_occupants]
    by_cases hj : j = i
    · subst hj
      simp [SmWorld.setPc, hpc]
    · simp [SmWorld.setPc, hj]
  have hcard := Finset.card_erase_of_mem hmem
  have hpos := Finset.card_pos.mpr ⟨i, hmem⟩
  refine ⟨?_, by rw [hocc, hcard]; have := hx.card_le; omega⟩
  rw [hocc, hcard]
  change w.sm.entered - 1 = _
  have := hx.entered_eq
  omega

/-! ## §2. Every step keeps the count -/

variable {w : SmWorld τ} {i : τ}

omit [DecidableEq τ] [Fintype τ] in
theorem SmWorld.SameInside.outside {w' : SmWorld τ} (h : w.SameInside w')
    (hi : (w.pc i).occupies = false) : (w'.pc i).occupies = false :=
  (h.occupies_eq i).trans hi

omit [DecidableEq τ] [Fintype τ] in
theorem gcsSmSchedule_entered (sm : Sm τ) : (gcsSmSchedule sm).1.entered = sm.entered := by
  unfold gcsSmSchedule
  dsimp only
  split_ifs <;> rfl

omit [DecidableEq τ] [Fintype τ] in
/-- Not having to wait means nobody is inside. -/
theorem Sm.entered_lt_of_not_hasToWait {sm : Sm τ} (h : sm.hasToWait = false) :
    sm.entered < gcsSmCc := by
  simp only [Sm.hasToWait, Bool.or_eq_false_iff, decide_eq_false_iff_not] at h
  exact Int.lt_of_not_ge h.1.2

theorem gcsSmEnterExit_excl (hx : w.Excl) (hi : (w.pc i).occupies = false) (tail : Nat)
    {ret : Int} (hret : ret = 0 → w.sm.entered < gcsSmCc) :
    (gcsSmEnterExit w i tail ret).Excl := by
  unfold gcsSmEnterExit
  split
  · exact hx.enter hi (hret ‹_›) rfl 0
  · split
    · exact hx.of_sameInside (w.sameInside_return ret hi)
    · exact hx.of_sameInside ((w.sameInside_return ret hi).trans (gcsSmLeaveCommon_sameInside _))

theorem gcsSmEnterResume_excl (hx : w.Excl) (hi : (w.pc i).occupies = false) (tail : Nat)
    (block : Bool) (ret : Int) : (gcsSmEnterResume w i tail block ret).Excl := by
  unfold gcsSmEnterResume
  split
  · split
    · -- another thread is inside: queue again
      exact hx.of_sameInside (w.sameInside_queue (by rfl) (by rfl) hi)
    · rename_i hwait
      refine gcsSmEnterExit_excl hx hi tail (fun hr => Int.lt_of_not_ge fun hle => hwait ⟨hle, ?_⟩)
      rw [hr]
  · exact gcsSmEnterExit_excl hx hi tail (fun hr => absurd hr ‹_›)

theorem gcsSmEnter_excl (hx : w.Excl) (hi : (w.pc i).occupies = false) (block : Bool) :
    (gcsSmEnter w i block).Excl := by
  have hsched := gcsSmSchedule_entered w.sm
  unfold gcsSmEnter
  rcases hs : gcsSmSchedule w.sm with ⟨sm, ret⟩
  rw [hs] at hsched
  dsimp only
  split
  · split
    · exact hx.of_sameInside (w.sameInside_queue (by exact hsched) (by rfl) hi)
    · -- nobody to wait for: the thread goes straight in
      rename_i hwait
      have hlt := Sm.entered_lt_of_not_hasToWait (Bool.eq_false_iff.mpr hwait)
      refine gcsSmEnterExit_excl (hx.of_sameInside (w.sameInside_sm hsched)) hi _ (fun _ => ?_)
      exact hlt
  · exact hx.of_sameInside (w.sameInside_return ret hi)

theorem gcsSmEnterWake_excl (hx : w.Excl) (hi : (w.pc i).occupies = false) (tail : Nat)
    (block : Bool) : (gcsSmEnterWake w i tail block).Excl := by
  unfold gcsSmEnterWake Sm.dequeue
  dsimp only
  refine gcsSmEnterResume_excl (hx.of_sameInside ?_) ?_ tail block _
  · exact w.sameInside_sm rfl
  · exact hi

theorem gcsSmEnterTimeout_excl (hx : w.Excl) (hi : (w.pc i).occupies = false) (tail : Nat) :
    (gcsSmEnterTimeout w i tail).Excl := by
  unfold gcsSmEnterTimeout Sm.dequeue
  dsimp only
  refine gcsSmEnterResume_excl (hx.of_sameInside ?_) ?_ tail false _
  · exact w.sameInside_sm rfl
  · exact hi

theorem gcsSmGrabLoop_excl (hx : w.Excl) (hi : (w.pc i).occupies = false) :
    (gcsSmGrabLoop w i).Excl := by
  unfold gcsSmGrabLoop
  split
  · exact hx.of_sameInside (w.sameInside_queue (by rfl) (by rfl) hi)
  · split
    · have h := gcsSmWakeUpWaiters_sameInside w
      exact hx.of_sameInside (h.trans (SmWorld.sameInside_return _ _ (h.outside hi)))
    · -- the monitor is open and nobody is inside: grab it
      rename_i hwait hret
      refine hx.enter hi (Int.lt_of_not_ge fun hle => hwait ⟨not_not.mp hret, hle⟩) rfl 0

theorem gcsSmCloseDrain_excl (hx : w.Excl) (hi : (w.pc i).occupies = false) :
    (gcsSmCloseDrain w i).Excl := by
  unfold gcsSmCloseDrain
  split
  · exact hx.of_sameInside (w.sameInside_queue (by rfl) (by rfl) hi)
  · exact hx.of_sameInside (w.sameInside_return 0 hi)

theorem gcsSmCloseSpin_excl (hx : w.Excl) (hi : (w.pc i).occupies = false) :
    (gcsSmCloseSpin w i).Excl := by
  unfold gcsSmCloseSpin
  split
  · exact hx.of_sameInside (w.sameInside_setPc hi.symm)
  · exact gcsSmCloseDrain_excl hx hi

theorem gcsSmClose_excl (hx : w.Excl) (hi : (w.pc i).occupies = false) :
    (gcsSmClose w i).Excl := by
  unfold gcsSmClose
  dsimp only
  split
  · -- closing a paused monitor continues it first
    have h : w.SameInside (gcsSmContinueCommon { w with sm := { w.sm with ret := -errnoEbadfd } }) := by
      refine SmWorld.SameInside.trans ?_ (gcsSmContinueCommon_sameInside _)
      exact w.sameInside_sm rfl
    exact gcsSmCloseSpin_excl (hx.of_sameInside h) (h.outside hi)
  · refine gcsSmCloseSpin_excl (hx.of_sameInside ?_) hi
    exact w.sameInside_sm rfl

theorem gcsSmCloseWake_excl (hx : w.Excl) (hi : (w.pc i).occupies = false) (tail : Nat) :
    (gcsSmCloseWake w i tail).Excl := by
  unfold gcsSmCloseWake Sm.dequeue
  dsimp only
  refine gcsSmCloseDrain_excl (hx.of_sameInside ?_) ?_
  · exact w.sameInside_sm rfl
  · exact hi

theorem gcsSmLeave_excl (hx : w.Excl) (hi : w.pc i = .inside) : (gcsSmLeave w i).Excl := by
  unfold gcsSmLeave
  refine SmWorld.Excl.of_sameInside ?_ (gcsSmLeaveCommon_sameInside _)
  exact hx.leave (by rw [hi]; rfl) rfl

theorem gcsSmRelease_excl (hx : w.Excl) (hi : w.pc i = .grabbed) : (gcsSmRelease w i).Excl := by
  unfold gcsSmRelease
  refine SmWorld.Excl.of_sameInside ?_ (gcsSmWakeUpWaiters_sameInside _)
  exact hx.leave (by rw [hi]; rfl) rfl

theorem gcsSmPause_excl (hx : w.Excl) (hi : (w.pc i).occupies = false) :
    (gcsSmPause w i).Excl := by
  unfold gcsSmPause
  dsimp only
  split
  · exact hx.of_sameInside (w.sameInside_queue (by rfl) (by rfl) hi)
  · exact hx.of_sameInside (w.sameInside_setPc hi.symm)

theorem gcsSmContinue_excl (hx : w.Excl) (hi : (w.pc i).occupies = false) :
    (gcsSmContinue w i).Excl := by
  unfold gcsSmContinue
  dsimp only
  split
  · have h := gcsSmContinueCommon_sameInside w
    exact hx.of_sameInside (h.trans (SmWorld.sameInside_setPc _ (h.outside hi).symm))
  · exact hx.of_sameInside (w.sameInside_setPc hi.symm)

theorem gcsSmInterrupt_excl (hx : w.Excl) (hi : (w.pc i).occupies = false) (handle : Nat) :
    (gcsSmInterrupt w i handle).Excl := by
  unfold gcsSmInterrupt
  dsimp only
  split
  · -- the slot is cleared, its waiter signalled, and perhaps the next one
    have h₁ : w.SameInside ({ w with sm := { w.sm with
        waitQ := update w.sm.waitQ (handle - 1) SmUser.empty } }.signal
          (w.sm.waitQ (handle - 1)).cond) := by
      refine SmWorld.SameInside.trans ?_ (SmWorld.sameInside_signal _ _)
      exact w.sameInside_sm rfl
    split
    · have h₂ := h₁.trans (gcsSmWakeUpNext_sameInside _)
      exact hx.of_sameInside (h₂.trans (SmWorld.sameInside_return _ 0 (h₂.outside hi)))
    · exact hx.of_sameInside (h₁.trans (SmWorld.sameInside_return _ 0 (h₁.outside hi)))
  · exact hx.of_sameInside (w.sameInside_return _ hi)

theorem gcsSmOpen_excl (hx : w.Excl) (hi : (w.pc i).occupies = false) :
    (gcsSmOpen w i).Excl := by
  unfold gcsSmOpen
  dsimp only
  split
  · exact hx.of_sameInside ((w.sameInside_sm (by rfl)).trans (SmWorld.sameInside_return _ _ hi))
  · exact hx.of_sameInside (w.sameInside_return _ hi)

/-- **One step keeps the count of the threads inside.** -/
theorem smStep_excl {w' : SmWorld τ} {op : SmOp} (h : smStep w i op = some w') (hx : w.Excl) :
    w'.Excl := by
  -- a thread that is not inside, by the state the step starts from
  have hout : ∀ pc : SmPc, w.pc i = pc → pc.occupies = false → (w.pc i).occupies = false :=
    fun pc hpc hocc => hpc ▸ hocc
  cases op with
  | enter block =>
    simp only [smStep] at h
    split at h
    · cases h
      exact gcsSmEnter_excl hx (hout _ ‹_› rfl) block
    · cases h
  | wake =>
    simp only [smStep] at h
    split at h
    · cases h
      exact gcsSmEnterWake_excl hx (hout _ ‹_› rfl) _ _
    · split at h
      · cases h
        -- taking a signal changes nobody's place
        exact gcsSmGrabLoop_excl (hx.of_sameInside ⟨rfl, fun _ => rfl⟩) (hout _ ‹_› rfl)
      · cases h
    · cases h
      exact gcsSmCloseWake_excl hx (hout _ ‹_› rfl) _
    · cases h
  | timeout =>
    simp only [smStep] at h
    split at h
    · cases h
      exact gcsSmEnterTimeout_excl hx (hout _ ‹_› rfl) _
    · cases h
  | leave =>
    simp only [smStep] at h
    split at h
    · cases h
      exact gcsSmLeave_excl hx ‹_›
    · cases h
  | pause =>
    simp only [smStep] at h
    split at h
    · cases h
      exact gcsSmPause_excl hx (hout _ ‹_› rfl)
    · cases h
  | cont =>
    simp only [smStep] at h
    split at h
    · cases h
      exact gcsSmContinue_excl hx (hout _ ‹_› rfl)
    · cases h
  | interrupt handle =>
    simp only [smStep] at h
    split at h
    · rename_i hc
      cases h
      exact gcsSmInterrupt_excl hx (hout _ hc.1 rfl) handle
    · cases h
  | grab =>
    simp only [smStep] at h
    split at h
    · cases h
      exact gcsSmGrabLoop_excl hx (hout _ ‹_› rfl)
    · cases h
  | release =>
    simp only [smStep] at h
    split at h
    · cases h
      exact gcsSmRelease_excl hx ‹_›
    · cases h
  | close =>
    simp only [smStep] at h
    split at h
    · cases h
      exact gcsSmClose_excl hx (hout _ ‹_› rfl)
    · cases h
  | closeRetry =>
    simp only [smStep] at h
    split at h
    · cases h
      exact gcsSmCloseSpin_excl hx (hout _ ‹_› rfl)
    · cases h
  | «open» =>
    simp only [smStep] at h
    split at h
    · cases h
      exact gcsSmOpen_excl hx (hout _ ‹_› rfl)
    · cases h

omit [Fintype τ] in
theorem smRun_cons {w w' : SmWorld τ} {i : τ} {op : SmOp} {ops : List (τ × SmOp)}
    (h : smRun w ((i, op) :: ops) = some w') : ∃ w₁, smStep w i op = some w₁ ∧ smRun w₁ ops = some w' := by
  simp only [smRun, Option.bind_eq_some_iff] at h
  exact h

/-- A run keeps the count: induction on the steps. -/
theorem smRun_excl : ∀ (ops : List (τ × SmOp)) {w w' : SmWorld τ}, w.Excl →
    smRun w ops = some w' → w'.Excl
  | [], _, _, hx, h => by
    simp only [smRun, Option.some.injEq] at h
    exact h ▸ hx
  | (_, _) :: ops, _, _, hx, h => by
    obtain ⟨w₁, h₁, h₂⟩ := smRun_cons h
    exact smRun_excl ops (smStep_excl h₁ hx) h₂

omit [DecidableEq τ] [Fintype τ] in
theorem gcsSmCreate_entered {len : Nat} {n : Int} {sm : Sm τ} (h : gcsSmCreate len n = some sm) :
    sm.entered = 0 := by
  unfold gcsSmCreate at h
  split_ifs at h
  cases h
  rfl

theorem smRunCreated_excl {len : Nat} {n : Int} {ops : List (τ × SmOp)} {w : SmWorld τ}
    (h : smRunCreated len n ops = some w) : w.Excl := by
  obtain ⟨sm, hc, hrun⟩ := Option.bind_eq_some_iff.mp h
  exact smRun_excl ops (smWorld_init_excl sm (gcsSmCreate_entered hc)) hrun

/-- **Mutual exclusion.**  In every run on a created monitor, whatever the
    interleaving, interrupts, pauses and closes, `entered` is the number of
    threads between `gcs_sm_enter` and `gcs_sm_leave` or between
    `gcs_sm_grab` and `gcs_sm_release`, and no two threads are there at once. -/
theorem smRunCreated_mutual_exclusion {len : Nat} {n : Int} {ops : List (τ × SmOp)}
    {w : SmWorld τ} (h : smRunCreated len n ops = some w) :
    w.sm.entered = (w.occupants.card : Int) ∧
      ∀ i j, (w.pc i).occupies → (w.pc j).occupies → i = j := by
  have hx := smRunCreated_excl h
  refine ⟨hx.entered_eq, fun i j hi hj => ?_⟩
  exact Finset.card_le_one.mp hx.card_le i (SmWorld.mem_occupants.mpr hi) j
    (SmWorld.mem_occupants.mpr hj)

/-- An interrupted waiter is skipped while it still waits for its signal, and
    nothing stops the queue from coming round to its slot before it wakes up.
    On a queue of two slots: thread 1 waits in slot 0, thread 0 leaves and
    signals it, thread 3 interrupts it and the head moves past slot 0; thread 2
    then enters and leaves, and the head is back at slot 0.  When thread 1
    wakes up interrupted, it holds the head again and gives up a slot that is
    no longer its own: `users` ends at -1.  If thread 0 queues in slot 0 first,
    thread 1 queues again over it, takes thread 0's signal and enters,
    although the interrupt returned 0; thread 0 waits on in a cleared slot,
    with nobody to signal it, in an empty monitor that is not paused. -/
theorem gcs_sm_interrupted_waiter_wraps :
    (∃ w : SmWorld (Fin 4),
      smRunCreated 2 1 [(0, .enter true), (1, .enter true), (0, .leave), (3, .interrupt 1),
        (2, .enter true), (2, .leave), (1, .wake)] = some w ∧
      w.sm.users = -1 ∧ w.lastRet 1 = -errnoEintr) ∧
    (∃ w : SmWorld (Fin 4),
      smRunCreated 2 1 [(0, .enter true), (1, .enter true), (0, .leave), (3, .interrupt 1),
        (2, .enter true), (0, .enter true), (1, .wake), (2, .leave), (1, .wake), (1, .leave)] =
        some w ∧
      w.sm.users = 0 ∧ w.sm.entered = 0 ∧ w.sm.pause = false ∧ w.lastRet 3 = 0 ∧
      w.lastRet 1 = 0 ∧ w.pc 0 = .waiting 0 true false ∧ (w.sm.waitQ 0).wait = false) := by
  constructor
  · refine ⟨_, rfl, ?_⟩
    decide
  · refine ⟨_, rfl, ?_⟩
    decide

end Excl

end Galera.Gcs
