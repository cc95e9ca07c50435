/-
  Galera.Monitor.Basic
  ────────────────────
  **THE ORDERING MONITOR `galera::Monitor<C>`.**

  The apply, commit and local monitors of `ReplicatorSMM` are instances
  of one template (src/galera/src/monitor.hpp).  An object `C` carries a
  seqno and a condition on `(last_entered_, last_left_)`; the monitor
  keeps a ring of `process_size_ = 2^16` slots indexed by `seqno & mask`
  (`Galera.Ring`), each an object pointer and a state.

    * `enter`       — wait for room in the ring, raise `last_entered_`, put
                      the object in its slot as S_WAITING and wait until its
                      condition holds (then S_APPLYING) or the slot is
                      canceled (then S_IDLE and EINTR);
    * `leave`, `self_cancel` — `post_leave`: the seqno after `last_left_`
                      moves `last_left_` over it and over every S_FINISHED
                      slot after it (`update_last_left`), then wakes the
                      waiters whose condition now holds (`wake_up_next`);
                      any other seqno only marks its slot S_FINISHED;
    * `interrupt`   — cancel a waiting slot, or an idle one of a seqno
                      after `last_left_`.

  A wait on a condition variable is not a state here: the code after it is
  a step of its own, enabled once the awaited condition holds
  (`Galera.Monitor.Invariant`).  `enter` is split at its wait loop:
  `enter` runs up to the first wait, `enterWake` is the loop's exit test
  and what follows it.  The statistics counters (`entered_`, `oooe_`,
  `oool_`, `win_size_`, `waits_`) only feed `get_stats` and are left out.

  Main results: `updateLastLeftLoop_spec`, `wakeUpNext_process`, the
  inversion lemmas `enter_cases`, `enterWake_cases`, `postLeave_of_ne`,
  and `postLeave_of_next`, which says what one in-order `post_leave` does
  to every slot.
-/
import Mathlib
import Galera.Lib.Ring

namespace Galera.Ordering

open Galera.Ring

/-! ## §1. Objects, slots and the monitor. -/

/-- What `Monitor<C>` reads of its template argument. -/
class MonitorObj (C : Type) where
  /-- `C::seqno()`. -/
  seqno : C → Int
  /-- `C::condition(last_entered, last_left)`. -/
  condition : C → Int → Int → Bool

open MonitorObj

/-- `Monitor::process_size_` (`1ULL << 16`). -/
def processSize : Nat := 65536

theorem processSize_pos : 0 < processSize := by decide

/-- `Monitor::Process::State`. -/
inductive ProcessState where
  | idle
  | waiting
  | canceled
  | applying
  | finished
  deriving DecidableEq, Repr

/-- `Monitor::Process` without its condition variables. -/
@[ext] structure Process (C : Type) where
  obj : Option C
  state : ProcessState

/-- `GU_LLONG_MAX`, the value of `drain_seqno_` while no drain runs. -/
def guLlongMax : Int := 9223372036854775807

/-- `Monitor<C>`: `process_` is the ring of slots. -/
structure Monitor (C : Type) where
  lastEntered : Int
  lastLeft : Int
  drainSeqno : Int
  process : Fin processSize → Process C

/-- `Monitor::indexof`: `seqno & process_mask_`, the non-negative remainder
of a two's-complement seqno modulo `process_size_`. -/
def indexof (seqno : Int) : Fin processSize :=
  ⟨ringSlot processSize seqno, ringSlot_lt processSize_pos seqno⟩

@[simp] theorem indexof_add_processSize (s : Int) :
    indexof (s + processSize) = indexof s :=
  Fin.ext (ringSlot_add_self s)

/-- Seqnos of one window of `process_size_` have distinct slots. -/
theorem eq_of_indexof_eq {a s t : Int} (hs : a < s) (hs' : s ≤ a + processSize)
    (ht : a < t) (ht' : t ≤ a + processSize) (h : indexof s = indexof t) : s = t :=
  eq_of_ringSlot_eq processSize_pos hs hs' ht ht' (Fin.val_eq_of_eq h)

@[simp] theorem indexof_val (i : Fin processSize) : indexof (i.val : Int) = i := by
  apply Fin.ext
  have h := i.isLt
  simp only [indexof, ringSlot]
  rw [Int.emod_eq_of_lt (by omega) (by omega)]
  simp

/-- Two seqnos less than `process_size_` apart have distinct slots. -/
theorem indexof_ne_of_lt {s t : Int} (hst : s < t) (ht : t < s + processSize) :
    indexof s ≠ indexof t := fun he =>
  absurd (eq_of_indexof_eq (a := s - 1) (by omega) (by omega) (by omega) (by omega) he) (by omega)

theorem exists_indexof_window (a s : Int) :
    ∃ t, a < t ∧ t ≤ a + processSize ∧ indexof t = indexof s := by
  obtain ⟨t, h1, h2, h3⟩ := exists_ringSlot_window processSize_pos a s
  exact ⟨t, h1, h2, Fin.ext h3⟩

namespace Monitor

variable {C : Type}

/-- `process_[indexof(s)]`. -/
def slot (m : Monitor C) (s : Int) : Process C := m.process (indexof s)

/-- Overwrite the slot of seqno `s`. -/
def setSlot (m : Monitor C) (s : Int) (p : Process C) : Monitor C :=
  { m with process := Function.update m.process (indexof s) p }

/-- `process_[indexof(s)].state_ = st`. -/
def setState (m : Monitor C) (s : Int) (st : ProcessState) : Monitor C :=
  m.setSlot s { m.slot s with state := st }

/-- `process_[indexof(s)].obj_ = obj`. -/
def setObj (m : Monitor C) (s : Int) (obj : Option C) : Monitor C :=
  m.setSlot s { m.slot s with obj := obj }

/-- `if (last_entered_ < seqno) last_entered_ = seqno`, the raise that
`pre_enter` and `self_cancel` make. -/
def raiseLastEntered (m : Monitor C) (seqno : Int) : Monitor C :=
  if m.lastEntered < seqno then { m with lastEntered := seqno } else m

section Frame

variable (m : Monitor C) (s : Int)

@[simp] theorem setSlot_lastEntered (p : Process C) : (m.setSlot s p).lastEntered = m.lastEntered := rfl
@[simp] theorem setSlot_lastLeft (p : Process C) : (m.setSlot s p).lastLeft = m.lastLeft := rfl
@[simp] theorem setSlot_drainSeqno (p : Process C) : (m.setSlot s p).drainSeqno = m.drainSeqno := rfl

theorem setSlot_process (p : Process C) (i : Fin processSize) :
    (m.setSlot s p).process i = if i = indexof s then p else m.process i :=
  Function.update_apply _ _ _ _

@[simp] theorem slot_setSlot_self (p : Process C) : (m.setSlot s p).slot s = p :=
  Function.update_self _ _ _

theorem slot_setSlot (p : Process C) (t : Int) :
    (m.setSlot s p).slot t = if indexof t = indexof s then p else m.slot t :=
  setSlot_process m s p (indexof t)

@[simp] theorem setSlot_setSlot (p q : Process C) : (m.setSlot s p).setSlot s q = m.setSlot s q := by
  simp [setSlot]

@[simp] theorem setState_eq (st : ProcessState) :
    m.setState s st = m.setSlot s { m.slot s with state := st } := rfl

theorem setState_congr {t : Int} (h : indexof s = indexof t) (st : ProcessState) :
    m.setState s st = m.setState t st := by
  simp [setState, setSlot, slot, h]

@[simp] theorem setObj_eq (obj : Option C) :
    m.setObj s obj = m.setSlot s { m.slot s with obj := obj } := rfl

@[simp] theorem setState_process_obj (st : ProcessState) (i : Fin processSize) :
    ((m.setState s st).process i).obj = (m.process i).obj := by
  rw [setState_eq, setSlot_process]; split <;> simp_all [slot]

@[simp] theorem setObj_process_state (obj : Option C) (i : Fin processSize) :
    ((m.setObj s obj).process i).state = (m.process i).state := by
  rw [setObj_eq, setSlot_process]; split <;> simp_all [slot]

theorem setObj_process_obj (obj : Option C) (i : Fin processSize) :
    ((m.setObj s obj).process i).obj = if i = indexof s then obj else (m.process i).obj := by
  rw [setObj_eq, setSlot_process]; split <;> rfl

@[simp] theorem raiseLastEntered_lastEntered :
    (m.raiseLastEntered s).lastEntered = max m.lastEntered s := by
  unfold raiseLastEntered; split <;> simp <;> omega

@[simp] theorem raiseLastEntered_lastLeft : (m.raiseLastEntered s).lastLeft = m.lastLeft := by
  unfold raiseLastEntered; split <;> rfl

@[simp] theorem raiseLastEntered_drainSeqno :
    (m.raiseLastEntered s).drainSeqno = m.drainSeqno := by
  unfold raiseLastEntered; split <;> rfl

@[simp] theorem raiseLastEntered_process : (m.raiseLastEntered s).process = m.process := by
  unfold raiseLastEntered; split <;> rfl

end Frame

/-! ## §2. `update_last_left`. -/

/-- The loop of `update_last_left` with `fuel` iterations left before it
passes `last_entered_`: each S_FINISHED slot after `last_left_` is released
and `last_left_` moves over it; the first other slot ends the loop. -/
def updateLastLeftLoop : Nat → Monitor C → Monitor C
  | 0, m => m
  | fuel + 1, m =>
    if (m.slot (m.lastLeft + 1)).state = .finished then
      updateLastLeftLoop fuel
        { m.setState (m.lastLeft + 1) .idle with lastLeft := m.lastLeft + 1 }
    else m

/-- `Monitor::update_last_left`: `for (i = last_left_ + 1; i <= last_entered_; ++i)`. -/
def updateLastLeft (m : Monitor C) : Monitor C :=
  updateLastLeftLoop (m.lastEntered - m.lastLeft).toNat m

/-- `m'` is `m` with `last_left_` moved over the next `k` seqnos and their
slots released. -/
structure Released (m : Monitor C) (k : Nat) (m' : Monitor C) : Prop where
  lastLeft : m'.lastLeft = m.lastLeft + k
  lastEntered : m'.lastEntered = m.lastEntered
  drainSeqno : m'.drainSeqno = m.drainSeqno
  process : ∀ i, m'.process i =
    if ∃ j < k, indexof (m.lastLeft + 1 + j) = i then { m.process i with state := .idle }
    else m.process i

/-- The loop releases a run of `k` finished slots and stops at the first
slot that is not finished, or when its fuel runs out. -/
theorem updateLastLeftLoop_spec (fuel : Nat) (m : Monitor C) :
    ∃ k ≤ fuel, Released m k (updateLastLeftLoop fuel m) ∧
      (∀ j < k, (m.slot (m.lastLeft + 1 + j)).state = .finished) ∧
      (k < fuel → ((updateLastLeftLoop fuel m).slot (m.lastLeft + 1 + k)).state ≠ .finished) := by
  induction fuel generalizing m with
  | zero => exact ⟨0, le_refl 0, ⟨by simp [updateLastLeftLoop], rfl, rfl, by simp [updateLastLeftLoop]⟩,
      by omega, by omega⟩
  | succ fuel ih =>
    by_cases hfin : (m.slot (m.lastLeft + 1)).state = .finished
    · -- one finished slot released; the rest of the run is the recursive call's
      set m₁ : Monitor C := { m.setState (m.lastLeft + 1) .idle with lastLeft := m.lastLeft + 1 }
      have hloop : updateLastLeftLoop (fuel + 1) m = updateLastLeftLoop fuel m₁ := by
        simp only [updateLastLeftLoop, hfin, if_true, m₁]
      have hm₁ : ∀ i, m₁.process i =
          if i = indexof (m.lastLeft + 1) then { m.process i with state := .idle } else m.process i := by
        intro i
        by_cases hi : i = indexof (m.lastLeft + 1)
        · subst hi; simp [m₁, setSlot, slot]
        · simp [m₁, setSlot_process, hi]
      have hshift : ∀ j : Nat, m₁.lastLeft + 1 + j = m.lastLeft + 1 + ((j + 1 : Nat) : Int) := by
        intro j; simp [m₁]; omega
      -- a slot that is still finished in `m₁` was not the one just released
      have hkeep : ∀ t, (m₁.slot t).state = .finished → m.slot t = m₁.slot t := by
        intro t ht
        have h := hm₁ (indexof t)
        by_cases hi : indexof t = indexof (m.lastLeft + 1)
        · rw [if_pos hi] at h; simp [slot, h] at ht
        · rw [if_neg hi] at h; exact h.symm
      obtain ⟨k, hk, hrel, hrun, hstop⟩ := ih m₁
      refine ⟨k + 1, by omega, ⟨?_, by rw [hloop, hrel.lastEntered]; rfl,
        by rw [hloop, hrel.drainSeqno]; rfl, ?_⟩, ?_, ?_⟩
      · rw [hloop, hrel.lastLeft]; simp [m₁]; omega
      · intro i
        rw [hloop, hrel.process i, hm₁ i]
        by_cases hi : i = indexof (m.lastLeft + 1)
        · have hex : ∃ j < k + 1, indexof (m.lastLeft + 1 + j) = i := ⟨0, by omega, by simp [hi]⟩
          rw [if_pos hi, if_pos hex]
          split <;> rfl
        · have hiff : (∃ j < k, indexof (m₁.lastLeft + 1 + j) = i) ↔
              ∃ j < k + 1, indexof (m.lastLeft + 1 + j) = i := by
            constructor
            · rintro ⟨j, hj, he⟩; exact ⟨j + 1, by omega, by rw [← hshift]; exact he⟩
            · rintro ⟨j, hj, he⟩
              cases j with
              | zero => exact absurd (by simpa using he.symm) hi
              | succ j => exact ⟨j, by omega, by rw [hshift]; exact he⟩
          simp only [hi, if_false, hiff]
      · intro j hj
        cases j with
        | zero => simpa using hfin
        | succ j =>
          have h := hrun j (by omega)
          rw [hshift] at h
          rw [hkeep _ h]; exact h
      · intro hlt
        have h := hstop (by omega)
        rw [hshift, ← hloop] at h
        exact h
    · refine ⟨0, by omega, ⟨by simp [updateLastLeftLoop, hfin], by simp [updateLastLeftLoop, hfin],
        by simp [updateLastLeftLoop, hfin], by simp [updateLastLeftLoop, hfin]⟩, by omega, ?_⟩
      intro _
      simp [updateLastLeftLoop, hfin]

/-- `Released` in terms of seqnos: the released slots are those of
`(last_left_, last_left_ + k]`. -/
theorem Released.process_state {m m' : Monitor C} {k : Nat} (h : Released m k m')
    (i : Fin processSize) :
    ((∃ t, m.lastLeft < t ∧ t ≤ m.lastLeft + k ∧ indexof t = i) → m'.process i =
        { m.process i with state := .idle }) ∧
      ((¬∃ t, m.lastLeft < t ∧ t ≤ m.lastLeft + k ∧ indexof t = i) → m'.process i = m.process i) := by
  have hiff : (∃ j < k, indexof (m.lastLeft + 1 + j) = i) ↔
      ∃ t, m.lastLeft < t ∧ t ≤ m.lastLeft + k ∧ indexof t = i := by
    constructor
    · rintro ⟨j, hj, he⟩; exact ⟨_, by omega, by omega, he⟩
    · rintro ⟨t, h1, h2, he⟩; exact ⟨(t - m.lastLeft - 1).toNat, by omega, by rw [← he]; congr 1; omega⟩
  rw [h.process i]
  exact ⟨fun hx => if_pos (hiff.mpr hx), fun hx => if_neg (fun hj => hx (hiff.mp hj))⟩

theorem Released.obj {m m' : Monitor C} {k : Nat} (h : Released m k m') (i : Fin processSize) :
    (m'.process i).obj = (m.process i).obj := by
  rw [h.process i]; split <;> rfl

/-- `update_last_left` stops at `last_entered_` or at the first slot that is
not finished. -/
theorem updateLastLeft_spec (m : Monitor C) :
    ∃ k : Nat, Released m k m.updateLastLeft ∧ m.lastLeft + k ≤ max m.lastLeft m.lastEntered ∧
      (∀ t, m.lastLeft < t → t ≤ m.lastLeft + k → (m.slot t).state = .finished) ∧
      (m.lastLeft + k < m.lastEntered →
        (m.updateLastLeft.slot (m.lastLeft + k + 1)).state ≠ .finished) := by
  obtain ⟨k, hk, hrel, hrun, hstop⟩ := updateLastLeftLoop_spec (m.lastEntered - m.lastLeft).toNat m
  refine ⟨k, hrel, by omega, ?_, ?_⟩
  · intro t h1 h2
    have h := hrun (t - m.lastLeft - 1).toNat (by omega)
    rwa [show m.lastLeft + 1 + ((t - m.lastLeft - 1).toNat : Int) = t by omega] at h
  · intro hlt
    have h := hstop (by omega)
    rwa [show m.lastLeft + 1 + (k : Int) = m.lastLeft + k + 1 by omega] at h

/-! ## §3. The other operations (monitor.hpp). -/

variable [MonitorObj C]

/-- `Monitor::would_block`. -/
def wouldBlock (m : Monitor C) (seqno : Int) : Bool :=
  decide (seqno - m.lastLeft ≥ processSize) || decide (seqno > m.drainSeqno)

/-- `Monitor::may_enter`. -/
def mayEnter (m : Monitor C) (obj : C) : Bool :=
  condition obj m.lastEntered m.lastLeft

/-- `Monitor::pre_enter` after its wait loop. -/
def preEnter (m : Monitor C) (obj : C) : Monitor C :=
  m.raiseLastEntered (seqno obj)

/-- The test of `wake_up_next` on one slot: `state_ == S_WAITING &&
may_enter(*obj_)`. -/
def canWake (m : Monitor C) (p : Process C) : Bool :=
  p.state = .waiting &&
    match p.obj with
    | some o => m.mayEnter o
    | none => false

/-- One iteration of `wake_up_next`, at seqno `i`. -/
def wakeUpOne (m : Monitor C) (i : Int) : Monitor C :=
  if m.canWake (m.slot i) then m.setState i .applying else m

/-- `Monitor::wake_up_next`: every seqno after `last_left_` up to
`last_entered_`. -/
def wakeUpNext (m : Monitor C) : Monitor C :=
  (List.range (m.lastEntered - m.lastLeft).toNat).foldl
    (fun acc (k : Nat) => acc.wakeUpOne (m.lastLeft + 1 + k)) m

/-- `Monitor::post_leave` with the drain and broadcast bookkeeping left
out: the condition variables are not state here. -/
def postLeave (m : Monitor C) (obj : C) : Monitor C :=
  let s := seqno obj
  let m' :=
    if m.lastLeft + 1 = s then
      -- we're shrinking the window
      ({ m.setState s .idle with lastLeft := s }).updateLastLeft.wakeUpNext
    else m.setState s .finished
  m'.setObj s none

/-- How a stretch of `enter` ends: returned (the slot is S_APPLYING),
blocked in its wait loop, or thrown EINTR. -/
inductive EnterResult where
  | entered
  | waits
  | interrupted
  deriving DecidableEq, Repr

/-- The exit test of `enter`'s wait loop, `may_enter(obj) == false &&
state_ == S_WAITING`, and the code after the loop. -/
def enterWake (m : Monitor C) (obj : C) : Monitor C × EnterResult :=
  let s := seqno obj
  if m.mayEnter obj = false ∧ (m.slot s).state = .waiting then (m, .waits)
  else if (m.slot s).state ≠ .canceled then (m.setState s .applying, .entered)
  else (m.setState s .idle, .interrupted)

/-- `Monitor::enter` up to its first wait, once `pre_enter` found room. -/
def enter (m : Monitor C) (obj : C) : Monitor C × EnterResult :=
  let s := seqno obj
  let m := m.preEnter obj
  if (m.slot s).state ≠ .canceled then
    (m.setSlot s { obj := some obj, state := .waiting }).enterWake obj
  else (m.setState s .idle, .interrupted)

/-- `Monitor::leave`. -/
def leave (m : Monitor C) (obj : C) : Monitor C := m.postLeave obj

/-- `Monitor::self_cancel` once its seqno is inside the ring. -/
def selfCancel (m : Monitor C) (obj : C) : Monitor C :=
  let s := seqno obj
  let m := m.raiseLastEntered s
  if s ≤ m.drainSeqno then m.postLeave obj else m.setState s .finished

/-- `Monitor::interrupt` once its seqno is inside the ring. -/
def interrupt (m : Monitor C) (obj : C) : Monitor C :=
  let s := seqno obj
  if ((m.slot s).state = .idle ∧ s > m.lastLeft) ∨ (m.slot s).state = .waiting then
    m.setState s .canceled
  else m

/-- The monitor after its constructor and a first `set_initial_position(seqno)`. -/
def initial (seqno : Int) : Monitor C :=
  { lastEntered := seqno, lastLeft := seqno, drainSeqno := guLlongMax,
    process := fun _ => { obj := none, state := .idle } }

/-! ## §4. What each operation does to the slots. -/

section Specs

variable (m : Monitor C) (obj : C)

@[simp] theorem wakeUpOne_lastEntered (i : Int) : (m.wakeUpOne i).lastEntered = m.lastEntered := by
  unfold wakeUpOne; split <;> rfl

@[simp] theorem wakeUpOne_lastLeft (i : Int) : (m.wakeUpOne i).lastLeft = m.lastLeft := by
  unfold wakeUpOne; split <;> rfl

@[simp] theorem wakeUpOne_drainSeqno (i : Int) : (m.wakeUpOne i).drainSeqno = m.drainSeqno := by
  unfold wakeUpOne; split <;> rfl

/-- `may_enter` reads only `last_entered_` and `last_left_`. -/
theorem canWake_congr {m m' : Monitor C} (he : m'.lastEntered = m.lastEntered)
    (hl : m'.lastLeft = m.lastLeft) (p : Process C) : m'.canWake p = m.canWake p := by
  simp [canWake, mayEnter, he, hl]

@[simp] theorem canWake_of_ne_waiting (p : Process C) (h : p.state ≠ .waiting) :
    m.canWake p = false := by
  simp [canWake, h]

/-- A slot that `wake_up_next` may promote is waiting and holds an object
that may enter. -/
theorem canWake_eq_true {p : Process C} (h : m.canWake p = true) :
    p.state = .waiting ∧ ∃ o, p.obj = some o ∧ m.mayEnter o = true := by
  simp only [canWake, Bool.and_eq_true, decide_eq_true_eq] at h
  obtain ⟨hs, ho⟩ := h
  refine ⟨hs, ?_⟩
  cases hp : p.obj with
  | none => simp [hp] at ho
  | some o => exact ⟨o, rfl, by simpa [hp] using ho⟩

theorem wakeUpOne_process (i : Int) (j : Fin processSize) :
    (m.wakeUpOne i).process j =
      if j = indexof i ∧ m.canWake (m.process j) = true then { m.process j with state := .applying }
      else m.process j := by
  unfold wakeUpOne
  by_cases hc : m.canWake (m.slot i) = true
  · rw [if_pos hc, setState_eq, setSlot_process]
    by_cases hj : j = indexof i
    · subst hj
      have hc' : m.canWake (m.process (indexof i)) = true := hc
      simp [hc', slot]
    · simp [hj]
  · rw [if_neg hc]
    by_cases hj : j = indexof i
    · subst hj
      have hc' : ¬m.canWake (m.process (indexof i)) = true := hc
      simp [hc']
    · simp [hj]

theorem foldl_wakeUpOne_fields (l : List Int) (m : Monitor C) :
    (l.foldl (fun acc t => acc.wakeUpOne t) m).lastEntered = m.lastEntered ∧
      (l.foldl (fun acc t => acc.wakeUpOne t) m).lastLeft = m.lastLeft ∧
      (l.foldl (fun acc t => acc.wakeUpOne t) m).drainSeqno = m.drainSeqno := by
  induction l generalizing m with
  | nil => simp
  | cons t l ih =>
    obtain ⟨h1, h2, h3⟩ := ih (m.wakeUpOne t)
    simp only [List.foldl_cons]
    exact ⟨by rw [h1, wakeUpOne_lastEntered], by rw [h2, wakeUpOne_lastLeft],
      by rw [h3, wakeUpOne_drainSeqno]⟩

/-- A sweep of `wake_up_next` over any seqnos promotes the waiting slots among
theirs that may enter, whatever the order and repetitions of the seqnos: a
promoted slot is no longer waiting when it comes round again. -/
theorem foldl_wakeUpOne_process (l : List Int) (m : Monitor C) (j : Fin processSize) :
    (l.foldl (fun acc t => acc.wakeUpOne t) m).process j =
      if (∃ t ∈ l, indexof t = j) ∧ m.canWake (m.process j) = true then
        { m.process j with state := .applying }
      else m.process j := by
  induction l generalizing m with
  | nil => simp
  | cons t l ih =>
    simp only [List.foldl_cons]
    rw [ih, canWake_congr (wakeUpOne_lastEntered m t) (wakeUpOne_lastLeft m t)]
    by_cases hA : j = indexof t ∧ m.canWake (m.process j) = true
    · -- promoted now: the slot is applying and the rest of the sweep skips it
      have h1 : (m.wakeUpOne t).process j = { m.process j with state := .applying } := by
        rw [wakeUpOne_process, if_pos hA]
      have hex : ∃ t' ∈ t :: l, indexof t' = j := ⟨t, List.mem_cons_self, hA.1.symm⟩
      rw [h1, canWake_of_ne_waiting _ _ (by simp), if_neg (fun h => Bool.false_ne_true h.2),
        if_pos ⟨hex, hA.2⟩]
    · have h1 : (m.wakeUpOne t).process j = m.process j := by
        rw [wakeUpOne_process, if_neg hA]
      rw [h1]
      by_cases hc : m.canWake (m.process j) = true
      · have hj : j ≠ indexof t := fun h => hA ⟨h, hc⟩
        have hiff : (∃ t' ∈ t :: l, indexof t' = j) ↔ ∃ t' ∈ l, indexof t' = j := by
          simp only [List.mem_cons, exists_eq_or_imp]
          exact ⟨fun h => h.resolve_left (fun e => hj e.symm), Or.inr⟩
        simp only [hiff]
      · simp [hc]

/-- `wake_up_next` is a sweep over the seqnos after `last_left_` up to
`last_entered_`. -/
theorem wakeUpNext_eq_foldl : m.wakeUpNext =
    ((List.range (m.lastEntered - m.lastLeft).toNat).map (fun k : Nat => m.lastLeft + 1 + k)).foldl
      (fun acc t => acc.wakeUpOne t) m := by
  simp [wakeUpNext, List.foldl_map]

@[simp] theorem wakeUpNext_lastEntered : m.wakeUpNext.lastEntered = m.lastEntered := by
  rw [wakeUpNext_eq_foldl]; exact (foldl_wakeUpOne_fields _ m).1

@[simp] theorem wakeUpNext_lastLeft : m.wakeUpNext.lastLeft = m.lastLeft := by
  rw [wakeUpNext_eq_foldl]; exact (foldl_wakeUpOne_fields _ m).2.1

@[simp] theorem wakeUpNext_drainSeqno : m.wakeUpNext.drainSeqno = m.drainSeqno := by
  rw [wakeUpNext_eq_foldl]; exact (foldl_wakeUpOne_fields _ m).2.2

open Classical in
theorem wakeUpNext_process (j : Fin processSize) :
    m.wakeUpNext.process j =
      if (∃ t, m.lastLeft < t ∧ t ≤ m.lastEntered ∧ indexof t = j) ∧ m.canWake (m.process j) = true
      then { m.process j with state := .applying }
      else m.process j := by
  have hiff : (∃ t ∈ (List.range (m.lastEntered - m.lastLeft).toNat).map
      (fun k : Nat => m.lastLeft + 1 + k), indexof t = j) ↔
      ∃ t, m.lastLeft < t ∧ t ≤ m.lastEntered ∧ indexof t = j := by
    simp only [List.mem_map, List.mem_range]
    constructor
    · rintro ⟨_, ⟨k, hk, rfl⟩, he⟩; exact ⟨_, by omega, by omega, he⟩
    · rintro ⟨t, h1, h2, he⟩
      exact ⟨t, ⟨(t - m.lastLeft - 1).toNat, by omega, by omega⟩, he⟩
  rw [wakeUpNext_eq_foldl, foldl_wakeUpOne_process]
  simp only [hiff]

theorem wakeUpNext_obj (j : Fin processSize) : (m.wakeUpNext.process j).obj = (m.process j).obj := by
  rw [wakeUpNext_process]; split <;> rfl

theorem wakeUpNext_of_ne_waiting (j : Fin processSize) (h : (m.process j).state ≠ .waiting) :
    m.wakeUpNext.process j = m.process j := by
  rw [wakeUpNext_process, canWake_of_ne_waiting _ _ h]; simp

/-- An out-of-order `post_leave` only marks its slot finished. -/
theorem postLeave_of_ne (h : m.lastLeft + 1 ≠ seqno obj) :
    m.postLeave obj = m.setSlot (seqno obj) { obj := none, state := .finished } := by
  simp [postLeave, h]

/-- `post_leave` never moves `last_left_` back. -/
theorem lastLeft_le_postLeave : m.lastLeft ≤ (m.postLeave obj).lastLeft := by
  by_cases h : m.lastLeft + 1 = seqno obj
  · obtain ⟨k, hrel, -⟩ := updateLastLeft_spec { m.setState (seqno obj) .idle with lastLeft := seqno obj }
    simp only [postLeave, if_pos h, setObj_eq, setSlot_lastLeft, wakeUpNext_lastLeft, hrel.lastLeft]
    omega
  · rw [postLeave_of_ne m obj h]; simp

/-- `post_leave` clears the object pointer of its own slot and no other. -/
theorem postLeave_obj (i : Fin processSize) :
    ((m.postLeave obj).process i).obj =
      if i = indexof (seqno obj) then none else (m.process i).obj := by
  unfold postLeave
  rw [setObj_process_obj]
  split
  · rfl
  · split
    · obtain ⟨k, hrel, -⟩ := updateLastLeft_spec { m.setState (seqno obj) .idle with lastLeft := seqno obj }
      rw [wakeUpNext_obj, hrel.obj]
      exact setState_process_obj m _ _ i
    · exact setState_process_obj m _ _ i

/-- What an in-order `post_leave` of seqno `s` does (`postLeave_of_next`):
`last_left_` moves over `s` and the `k` finished seqnos after it, whose
slots are released, and the waiters after the new `last_left_` whose
condition holds are promoted. -/
structure LeftInOrder (m : Monitor C) (s : Int) (k : Nat) (m' : Monitor C) : Prop where
  bound : s + k ≤ m.lastEntered
  finished : ∀ t, s < t → t ≤ s + k → (m.slot t).state = .finished
  stop : s + k < m.lastEntered → (m.slot (s + k + 1)).state ≠ .finished
  lastLeft : m'.lastLeft = s + k
  lastEntered : m'.lastEntered = m.lastEntered
  drainSeqno : m'.drainSeqno = m.drainSeqno
  released : ∀ i, (∃ t, m.lastLeft < t ∧ t ≤ s + k ∧ indexof t = i) → (m'.process i).state = .idle
  promoted : ∀ i, (¬∃ t, m.lastLeft < t ∧ t ≤ s + k ∧ indexof t = i) →
    (∃ t, s + k < t ∧ t ≤ m.lastEntered ∧ indexof t = i) → m'.canWake (m.process i) = true →
      (m'.process i).state = .applying
  kept : ∀ i, (¬∃ t, m.lastLeft < t ∧ t ≤ s + k ∧ indexof t = i) →
    ¬((∃ t, s + k < t ∧ t ≤ m.lastEntered ∧ indexof t = i) ∧ m'.canWake (m.process i) = true) →
      (m'.process i).state = (m.process i).state

theorem postLeave_of_next (h : m.lastLeft + 1 = seqno obj) (hs : seqno obj ≤ m.lastEntered)
    (hwin : m.lastEntered < m.lastLeft + processSize) :
    ∃ k, LeftInOrder m (seqno obj) k (m.postLeave obj) := by
  -- the three stages of the in-order branch
  set m₁ : Monitor C := { m.setState (seqno obj) .idle with lastLeft := seqno obj } with hm₁
  set m₂ := m₁.updateLastLeft with hm₂
  have hpl : m.postLeave obj = m₂.wakeUpNext.setObj (seqno obj) none := by
    simp only [postLeave, if_pos h, hm₂, hm₁]
  have h₁ : ∀ i, m₁.process i =
      if i = indexof (seqno obj) then { m.process i with state := .idle } else m.process i := by
    intro i
    simp only [hm₁, setState_eq, setSlot_process]
    split
    · simp_all [slot]
    · rfl
  have h₁slot : ∀ t, indexof t ≠ indexof (seqno obj) → m₁.slot t = m.slot t := by
    intro t ht; simp only [slot, h₁, if_neg ht]
  obtain ⟨k, hrel, hbound, hfin, hstop⟩ := updateLastLeft_spec m₁
  have hll₁ : m₁.lastLeft = seqno obj := rfl
  have hle₁ : m₁.lastEntered = m.lastEntered := rfl
  simp only [hll₁, hle₁] at hbound hfin hstop
  -- the seqnos after `s` up to `last_entered_` do not share the slot of `s`
  have hsep : ∀ t, seqno obj < t → t ≤ m.lastEntered → indexof t ≠ indexof (seqno obj) := by
    intro t h1 h2 he
    have := eq_of_indexof_eq (a := m.lastLeft) (by omega) (by omega) (by omega) (by omega) he
    omega
  have hcw : ∀ p, (m₂.wakeUpNext.setObj (seqno obj) none).canWake p = m₂.canWake p :=
    canWake_congr (by simp) (by simp)
  have hll₂ : m₂.lastLeft = seqno obj + k := by rw [hrel.lastLeft, hll₁]
  have hle₂ : m₂.lastEntered = m.lastEntered := by rw [hrel.lastEntered, hle₁]
  refine ⟨k, ⟨by omega, ?_, ?_, ?_, ?_, ?_, ?_, ?_, ?_⟩⟩
  · -- a seqno the loop moved over was finished: it was not the slot of `s`
    intro t h1 h2
    have hf := hfin t h1 h2
    rwa [h₁slot t (hsep t h1 (by omega))] at hf
  · intro hlt
    have hst := hstop hlt
    have hnot : ¬∃ t, seqno obj < t ∧ t ≤ seqno obj + k ∧ indexof t = indexof (seqno obj + k + 1) := by
      rintro ⟨t, h1, h2, he⟩
      have := eq_of_indexof_eq (a := m.lastLeft) (by omega) (by omega) (by omega) (by omega) he
      omega
    rw [slot, (hrel.process_state _).2 hnot, ← slot, h₁slot _ (hsep _ (by omega) (by omega))] at hst
    exact hst
  · rw [hpl]; simp [hll₂]
  · rw [hpl]; simp [hle₂]
  · rw [hpl]; simp only [setObj_eq, setSlot_drainSeqno, wakeUpNext_drainSeqno, hm₂, hrel.drainSeqno]; rfl
  · -- released: `s` itself by the first stage, the rest by the loop
    rintro i ⟨t, h1, h2, rfl⟩
    have hidle : (m₂.process (indexof t)).state = .idle := by
      by_cases hrun : ∃ t', seqno obj < t' ∧ t' ≤ seqno obj + k ∧ indexof t' = indexof t
      · rw [(hrel.process_state _).1 hrun]
      · have ht : t = seqno obj := by
          by_contra hne; exact hrun ⟨t, by omega, h2, rfl⟩
        rw [(hrel.process_state _).2 hrun, h₁, if_pos (by rw [ht])]
    rw [hpl, setObj_process_state, wakeUpNext_of_ne_waiting _ _ (by rw [hidle]; simp), hidle]
  · -- promoted by `wake_up_next`
    intro i hno hwake hc
    have hm₂i : m₂.process i = m.process i := by
      have hne : i ≠ indexof (seqno obj) := fun he => hno ⟨seqno obj, by omega, by omega, he.symm⟩
      rw [(hrel.process_state _).2 (fun ⟨t, h1, h2, he⟩ => hno ⟨t, by omega, h2, he⟩), h₁, if_neg hne]
    rw [hpl] at hc
    rw [hpl, setObj_process_state, wakeUpNext_process, hll₂, hle₂, hm₂i, ← hcw, if_pos ⟨hwake, hc⟩]
  · intro i hno hnw
    have hm₂i : m₂.process i = m.process i := by
      have hne : i ≠ indexof (seqno obj) := fun he => hno ⟨seqno obj, by omega, by omega, he.symm⟩
      rw [(hrel.process_state _).2 (fun ⟨t, h1, h2, he⟩ => hno ⟨t, by omega, h2, he⟩), h₁, if_neg hne]
    rw [hpl] at hnw
    rw [hpl, setObj_process_state, wakeUpNext_process, hll₂, hle₂, hm₂i, ← hcw, if_neg hnw]

/-- `enter` up to its first wait: EINTR on a canceled slot, else the object
is put in its slot and either waits or enters at once. -/
theorem enter_cases :
    ((m.preEnter obj).slot (seqno obj)).state = .canceled ∧
        m.enter obj = ((m.preEnter obj).setSlot (seqno obj)
          { (m.preEnter obj).slot (seqno obj) with state := .idle }, .interrupted) ∨
      ((m.preEnter obj).slot (seqno obj)).state ≠ .canceled ∧ (m.preEnter obj).mayEnter obj = false ∧
        m.enter obj = ((m.preEnter obj).setSlot (seqno obj) { obj := some obj, state := .waiting }, .waits) ∨
      ((m.preEnter obj).slot (seqno obj)).state ≠ .canceled ∧ (m.preEnter obj).mayEnter obj = true ∧
        m.enter obj = ((m.preEnter obj).setSlot (seqno obj) { obj := some obj, state := .applying }, .entered) := by
  have hmay : ((m.preEnter obj).setSlot (seqno obj) { obj := some obj, state := .waiting }).mayEnter obj =
      (m.preEnter obj).mayEnter obj := rfl
  by_cases hc : ((m.preEnter obj).slot (seqno obj)).state = .canceled
  · exact Or.inl ⟨hc, by simp [enter, hc]⟩
  · cases hm : (m.preEnter obj).mayEnter obj
    · exact Or.inr (Or.inl ⟨hc, rfl, by simp [enter, hc, enterWake, hmay, hm]⟩)
    · exact Or.inr (Or.inr ⟨hc, rfl, by simp [enter, hc, enterWake, hmay, hm]⟩)

/-- The exit test of `enter`'s wait loop: keep waiting, enter, or EINTR. -/
theorem enterWake_cases :
    (m.mayEnter obj = false ∧ (m.slot (seqno obj)).state = .waiting ∧ m.enterWake obj = (m, .waits)) ∨
      ((m.mayEnter obj = true ∨ (m.slot (seqno obj)).state ≠ .waiting) ∧
        (m.slot (seqno obj)).state ≠ .canceled ∧
        m.enterWake obj = (m.setState (seqno obj) .applying, .entered)) ∨
      ((m.slot (seqno obj)).state = .canceled ∧
        m.enterWake obj = (m.setState (seqno obj) .idle, .interrupted)) := by
  by_cases hw : m.mayEnter obj = false ∧ (m.slot (seqno obj)).state = .waiting
  · exact Or.inl ⟨hw.1, hw.2, by simp [enterWake, hw.1, hw.2]⟩
  · have hor : m.mayEnter obj = true ∨ (m.slot (seqno obj)).state ≠ .waiting := by
      cases h : m.mayEnter obj
      · exact Or.inr (fun hs => hw ⟨h, hs⟩)
      · exact Or.inl rfl
    by_cases hc : (m.slot (seqno obj)).state = .canceled
    · exact Or.inr (Or.inr ⟨hc, by simp [enterWake, hc]⟩)
    · exact Or.inr (Or.inl ⟨hor, hc, by simp [enterWake, hw, hc]⟩)

/-- `interrupt` cancels a waiting slot or an idle one after `last_left_`,
and changes nothing else. -/
theorem interrupt_cases :
    ((m.slot (seqno obj)).state = .idle ∧ m.lastLeft < seqno obj ∨
        (m.slot (seqno obj)).state = .waiting) ∧
        m.interrupt obj = m.setState (seqno obj) .canceled ∨
      ¬((m.slot (seqno obj)).state = .idle ∧ m.lastLeft < seqno obj ∨
        (m.slot (seqno obj)).state = .waiting) ∧ m.interrupt obj = m := by
  by_cases h : (m.slot (seqno obj)).state = .idle ∧ m.lastLeft < seqno obj ∨
      (m.slot (seqno obj)).state = .waiting
  · exact Or.inl ⟨h, if_pos h⟩
  · exact Or.inr ⟨h, if_neg h⟩

/-- Below `drain_seqno_`, `self_cancel` is a `post_leave` after raising
`last_entered_`. -/
theorem selfCancel_of_le (h : seqno obj ≤ m.drainSeqno) :
    m.selfCancel obj = (m.raiseLastEntered (seqno obj)).postLeave obj := by
  simp [selfCancel, h]

end Specs

end Monitor

/-! ## §5. The order objects of `ReplicatorSMM` (replicator_smm.hpp). -/

/-- `ReplicatorSMM::LocalOrder`; its `trx_` pointer only serves `lock()`. -/
structure LocalOrder where
  seqno : Int
  deriving DecidableEq, Repr

/-- `LocalOrder::condition`: strictly in seqno order. -/
def LocalOrder.condition (lo : LocalOrder) (_lastEntered lastLeft : Int) : Bool :=
  lastLeft + 1 == lo.seqno

instance : MonitorObj LocalOrder := ⟨LocalOrder.seqno, LocalOrder.condition⟩

/-- `ReplicatorSMM::ApplyOrder`, by the three fields of its `TrxHandle` that
it reads. -/
structure ApplyOrder where
  isLocal : Bool
  globalSeqno : Int
  dependsSeqno : Int
  deriving DecidableEq, Repr

/-- `ApplyOrder::seqno`. -/
def ApplyOrder.seqno (ao : ApplyOrder) : Int := ao.globalSeqno

/-- `ApplyOrder::condition`: a local trx at once, a remote one once its
`depends_seqno` has left. -/
def ApplyOrder.condition (ao : ApplyOrder) (_lastEntered lastLeft : Int) : Bool :=
  ao.isLocal || decide (lastLeft ≥ ao.dependsSeqno)

instance : MonitorObj ApplyOrder := ⟨ApplyOrder.seqno, ApplyOrder.condition⟩

/-- `CommitOrder::Mode`. -/
inductive CommitOrder.Mode where
  | bypass
  | oooc
  | localOooc
  | noOooc
  deriving DecidableEq, Repr

/-- `ReplicatorSMM::CommitOrder`, by the fields of its `TrxHandle` that it
reads and its mode. -/
structure CommitOrder where
  isLocal : Bool
  globalSeqno : Int
  mode : CommitOrder.Mode
  deriving DecidableEq, Repr

/-- `CommitOrder::seqno`. -/
def CommitOrder.seqno (co : CommitOrder) : Int := co.globalSeqno

/-- `CommitOrder::condition`; BYPASS throws, as the commit monitor is never
entered in that mode. -/
def CommitOrder.condition (co : CommitOrder) (_lastEntered lastLeft : Int) : Except String Bool :=
  match co.mode with
  | .bypass => .error "commit order condition called in bypass mode"
  | .oooc => .ok true
  | .localOooc => if co.isLocal then .ok true else .ok (lastLeft + 1 == co.globalSeqno)
  | .noOooc => .ok (lastLeft + 1 == co.globalSeqno)

/-- The commit monitor: a condition that throws never lets its object in. -/
instance : MonitorObj CommitOrder :=
  ⟨CommitOrder.seqno, fun co lastEntered lastLeft =>
    match co.condition lastEntered lastLeft with
    | .ok b => b
    | .error _ => false⟩

end Galera.Ordering
