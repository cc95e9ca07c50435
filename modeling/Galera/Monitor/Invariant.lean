/-
  Galera.Monitor.Invariant
  ────────────────────────
  **THE MONITOR'S ORDERING INVARIANT OVER EVERY INTERLEAVING.**

  The threads that use one monitor are named by their seqnos.  A thread is
  outside the monitor, blocked in `enter`'s wait loop, inside (its `enter`
  returned), or has left (its `leave` or `self_cancel` completed); every
  seqno up to the initial position counts as left.  A `Step` is one stretch
  of monitor code between two waits, run under the mutex: `enter` up to its
  wait, a wake-up of a blocked `enter`, `leave`, `self_cancel`, or an
  `interrupt` issued by any thread.  The wait loops of `pre_enter`,
  `self_cancel` and `interrupt` become the guards of their steps.

  `Inv` is what every reachable state satisfies:

    * every seqno up to `last_left_` has left and `last_left_ + 1` has not;
    * `last_left_ ≤ last_entered_ < last_left_ + 2^16`, and no seqno after
      `last_entered_` has started;
    * the slot of `last_left_` is idle, and the slot of each seqno of the
      window `(last_left_, last_left_ + 2^16)` holds what its thread has
      done (`SlotFits`) — the window's seqnos have distinct slots.

  Main results: `Inv.step` (one step keeps `Inv`), `Reachable.inv` (every
  run keeps it), `Step.applying` (a slot becomes S_APPLYING only for an
  object of the window whose condition holds at that moment), and the
  counterexample `monitor_slot_aliases_left_seqno`: the slot of a seqno
  that has left is not always idle, as the next turn of the ring reuses it.
-/
import Mathlib
import Galera.Monitor.Basic

namespace Galera.Ordering

open MonitorObj Monitor

/-! ## §1. Threads and steps. -/

/-- Where the thread of one seqno is in its use of the monitor. -/
inductive Phase (C : Type) where
  | outside
  | entering (obj : C)
  | inside (obj : C)
  | left
  deriving DecidableEq, Repr

/-- The phase a stretch of `enter` leaves its thread in. -/
def Monitor.EnterResult.phase {C : Type} (obj : C) : EnterResult → Phase C
  | .entered => .inside obj
  | .waits => .entering obj
  | .interrupted => .outside

/-- The monitor together with the threads that use it. -/
structure Sys (C : Type) where
  mon : Monitor C
  phase : Int → Phase C

variable {C : Type}

/-- A fresh monitor at position `p`: every seqno up to `p` has left. -/
def Sys.initial (p : Int) : Sys C :=
  ⟨Monitor.initial p, fun s => if s ≤ p then .left else .outside⟩

/-- What the slot of a seqno of the window holds, by the phase of its thread. -/
def SlotFits : Phase C → Process C → Prop
  | .outside, p => p.state = .idle ∨ p.state = .canceled
  | .entering o, p => p.obj = some o ∧ (p.state = .waiting ∨ p.state = .applying ∨ p.state = .canceled)
  | .inside o, p => p.obj = some o ∧ p.state = .applying
  | .left, p => p.state = .finished

namespace SlotFits

variable {ph : Phase C} {p : Process C}

theorem of_eq {p' : Process C} (h : SlotFits ph p) (hs : p'.state = p.state) (ho : p'.obj = p.obj) :
    SlotFits ph p' := by
  have : p' = p := Process.ext ho hs
  rwa [this]

theorem left_of_finished (h : SlotFits ph p) (hs : p.state = .finished) : ph = .left := by
  cases ph <;> simp_all [SlotFits]

theorem entering_of_waiting (h : SlotFits ph p) (hs : p.state = .waiting) :
    ∃ o, ph = .entering o ∧ p.obj = some o := by
  cases ph <;> simp_all [SlotFits]

/-- A waiting or applying slot belongs to a thread inside `enter` or past it. -/
theorem live (h : SlotFits ph p) (hs : p.state = .waiting ∨ p.state = .applying) :
    ∃ o, (ph = .entering o ∨ ph = .inside o) ∧ p.obj = some o := by
  cases ph with
  | outside => rcases h with h | h <;> rcases hs with hs | hs <;> simp [h] at hs
  | entering o => exact ⟨o, Or.inl rfl, h.1⟩
  | inside o => exact ⟨o, Or.inr rfl, h.1⟩
  | left => rcases hs with hs | hs <;> simp [SlotFits, hs] at h

/-- Canceling an idle or waiting slot keeps it fitting its thread. -/
theorem cancel (h : SlotFits ph p) (hs : p.state = .idle ∨ p.state = .waiting) :
    SlotFits ph { p with state := .canceled } := by
  cases ph <;> simp_all [SlotFits]

end SlotFits

variable [MonitorObj C]


/-- The state after `enter` runs for the thread of `obj`. -/
def Sys.afterEnter (sys : Sys C) (obj : C) : Sys C :=
  ⟨(sys.mon.enter obj).1, Function.update sys.phase (seqno obj) ((sys.mon.enter obj).2.phase obj)⟩

/-- The state after the blocked `enter` of `obj` wakes. -/
def Sys.afterWake (sys : Sys C) (obj : C) : Sys C :=
  ⟨(sys.mon.enterWake obj).1,
    Function.update sys.phase (seqno obj) ((sys.mon.enterWake obj).2.phase obj)⟩

/-- The state after `leave(obj)`. -/
def Sys.afterLeave (sys : Sys C) (obj : C) : Sys C :=
  ⟨sys.mon.leave obj, Function.update sys.phase (seqno obj) .left⟩

/-- The state after `self_cancel(obj)`. -/
def Sys.afterSelfCancel (sys : Sys C) (obj : C) : Sys C :=
  ⟨sys.mon.selfCancel obj, Function.update sys.phase (seqno obj) .left⟩

/-- The state after `interrupt(obj)`. -/
def Sys.afterInterrupt (sys : Sys C) (obj : C) : Sys C :=
  ⟨sys.mon.interrupt obj, sys.phase⟩

/-- One stretch of monitor code under the mutex. -/
inductive Step : Sys C → Sys C → Prop
  /-- `enter` once `would_block` is false, up to its wait or its return. -/
  | enter (sys : Sys C) (obj : C) (hout : sys.phase (seqno obj) = .outside)
      (hroom : sys.mon.wouldBlock (seqno obj) = false) : Step sys (sys.afterEnter obj)
  /-- A blocked `enter` wakes (signalled or not) and tests its loop again. -/
  | wake (sys : Sys C) (obj : C) (hin : sys.phase (seqno obj) = .entering obj) :
      Step sys (sys.afterWake obj)
  /-- `leave` by a thread whose `enter` returned. -/
  | leave (sys : Sys C) (obj o : C) (hin : sys.phase (seqno obj) = .inside o) :
      Step sys (sys.afterLeave obj)
  /-- `self_cancel` by a thread outside the monitor, once its seqno is in the
  ring; a seqno is an `int64_t`. -/
  | selfCancel (sys : Sys C) (obj : C) (hout : sys.phase (seqno obj) = .outside)
      (hroom : seqno obj - sys.mon.lastLeft < processSize) (hseqno : seqno obj ≤ guLlongMax) :
      Step sys (sys.afterSelfCancel obj)
  /-- `interrupt` by any thread, once the seqno is in the ring. -/
  | interrupt (sys : Sys C) (obj : C) (hroom : seqno obj - sys.mon.lastLeft < processSize) :
      Step sys (sys.afterInterrupt obj)

/-- The states a monitor started at position `p` reaches. -/
inductive Reachable (p : Int) : Sys C → Prop
  | initial : Reachable p (Sys.initial p)
  | step {sys sys' : Sys C} : Reachable p sys → Step sys sys' → Reachable p sys'

/-! ## §2. The invariant. -/

/-- The ordering invariant of a reachable state. -/
structure Inv (sys : Sys C) : Prop where
  left_le : sys.mon.lastLeft ≤ sys.mon.lastEntered
  entered_lt : sys.mon.lastEntered < sys.mon.lastLeft + processSize
  drain : sys.mon.drainSeqno = guLlongMax
  done : ∀ s, s ≤ sys.mon.lastLeft → sys.phase s = .left
  next : sys.phase (sys.mon.lastLeft + 1) ≠ .left
  fresh : ∀ s, sys.mon.lastEntered < s → sys.phase s = .outside
  own : ∀ s o, (sys.phase s = .entering o ∨ sys.phase s = .inside o) → seqno o = s
  lastLeftIdle : (sys.mon.slot sys.mon.lastLeft).state = .idle
  slots : ∀ s, sys.mon.lastLeft < s → s < sys.mon.lastLeft + processSize →
    SlotFits (sys.phase s) (sys.mon.slot s)

theorem inv_initial (p : Int) : Inv (Sys.initial p : Sys C) where
  left_le := le_refl p
  entered_lt := by simp [Sys.initial, Monitor.initial, processSize]
  drain := rfl
  done := fun s hs => if_pos hs
  next := by simp [Sys.initial, Monitor.initial]
  fresh := fun s hs => if_neg (by simp [Sys.initial, Monitor.initial] at hs; omega)
  own := fun s o h => by
    simp only [Sys.initial] at h
    split at h <;> simp at h
  lastLeftIdle := rfl
  slots := fun s hs _ => by
    simp only [Sys.initial, Monitor.initial] at hs ⊢
    rw [if_neg (by omega)]
    exact Or.inl rfl

namespace Inv

variable {sys : Sys C}

/-- A seqno that has not left is after `last_left_`. -/
theorem lt_of_ne_left (h : Inv sys) {s : Int} (hs : sys.phase s ≠ .left) : sys.mon.lastLeft < s := by
  by_contra hle; exact hs (h.done s (by omega))

/-- A seqno that has started is at most `last_entered_`. -/
theorem le_of_ne_outside (h : Inv sys) {s : Int} (hs : sys.phase s ≠ .outside) :
    s ≤ sys.mon.lastEntered := by
  by_contra hlt; exact hs (h.fresh s (by omega))

/-- Overwriting the slot of one seqno of the window, and its thread's phase,
keeps the invariant when the new slot fits the new phase. -/
theorem setSlot (h : Inv sys) {s : Int} (hs : sys.mon.lastLeft < s)
    (hs' : s < sys.mon.lastLeft + processSize) (p : Process C) (ph : Phase C) (hfit : SlotFits ph p)
    (hfresh : sys.mon.lastEntered < s → ph = .outside)
    (hnext : s = sys.mon.lastLeft + 1 → ph ≠ .left)
    (hown : ∀ o, ph = .entering o ∨ ph = .inside o → seqno o = s) :
    Inv ⟨sys.mon.setSlot s p, Function.update sys.phase s ph⟩ where
  left_le := h.left_le
  entered_lt := h.entered_lt
  drain := h.drain
  done := fun t ht => by
    dsimp only [setSlot_lastLeft, setSlot_lastEntered] at ht ⊢
    rw [Function.update_of_ne (by omega)]; exact h.done t ht
  next := by
    dsimp only [setSlot_lastLeft, setSlot_lastEntered]
    by_cases he : sys.mon.lastLeft + 1 = s
    · subst he; rw [Function.update_self]; exact hnext rfl
    · rw [Function.update_of_ne he]; exact h.next
  fresh := fun t ht => by
    dsimp only [setSlot_lastLeft, setSlot_lastEntered] at ht ⊢
    by_cases he : t = s
    · subst he; rw [Function.update_self]; exact hfresh ht
    · rw [Function.update_of_ne he]; exact h.fresh t ht
  own := fun t o ht => by
    dsimp only [setSlot_lastLeft, setSlot_lastEntered] at ht
    by_cases he : t = s
    · subst he; rw [Function.update_self] at ht; exact hown o ht
    · rw [Function.update_of_ne he] at ht; exact h.own t o ht
  lastLeftIdle := by
    dsimp only [setSlot_lastLeft, setSlot_lastEntered]
    rw [slot_setSlot, if_neg (indexof_ne_of_lt hs hs')]
    exact h.lastLeftIdle
  slots := fun t ht ht' => by
    dsimp only [setSlot_lastLeft, setSlot_lastEntered] at ht ht' ⊢
    by_cases he : t = s
    · subst he; rw [Function.update_self, slot_setSlot_self]; exact hfit
    · rw [Function.update_of_ne he, slot_setSlot, if_neg ?_]
      · exact h.slots t ht ht'
      · intro hi
        exact he (eq_of_indexof_eq (a := sys.mon.lastLeft) ht (by omega) hs (by omega) hi)

/-- Raising `last_entered_` to a seqno of the ring keeps the invariant. -/
theorem raise (h : Inv sys) {s : Int} (hs : s - sys.mon.lastLeft < processSize) :
    Inv ⟨sys.mon.raiseLastEntered s, sys.phase⟩ where
  left_le := by simp only [raiseLastEntered_lastEntered, raiseLastEntered_lastLeft]; have := h.left_le; omega
  entered_lt := by
    simp only [raiseLastEntered_lastEntered, raiseLastEntered_lastLeft]; have := h.entered_lt; omega
  drain := by simp only [raiseLastEntered_drainSeqno]; exact h.drain
  done := by simp only [raiseLastEntered_lastLeft]; exact h.done
  next := by simp only [raiseLastEntered_lastLeft]; exact h.next
  fresh := fun t ht => h.fresh t (by simp only [raiseLastEntered_lastEntered] at ht; omega)
  own := h.own
  lastLeftIdle := by simp only [raiseLastEntered_lastLeft, slot, raiseLastEntered_process]; exact h.lastLeftIdle
  slots := by simp only [raiseLastEntered_lastLeft, slot, raiseLastEntered_process]; exact h.slots

/-- An out-of-order `post_leave` keeps the invariant. -/
theorem postLeave_ne (h : Inv sys) (obj : C) (hs : sys.mon.lastLeft < seqno obj)
    (hs' : seqno obj ≤ sys.mon.lastEntered) (hne : sys.mon.lastLeft + 1 ≠ seqno obj) :
    Inv ⟨sys.mon.postLeave obj, Function.update sys.phase (seqno obj) .left⟩ := by
  rw [postLeave_of_ne _ _ hne]
  have := h.entered_lt
  exact h.setSlot hs (by omega) _ .left rfl (fun h' => absurd h' (by omega))
    (fun h' => absurd h'.symm hne) (fun o ho => by simp at ho)

/-- After an in-order `post_leave`, every slot of the new window fits its
thread: the released slots are those of seqnos beyond `last_entered_`, the
promoted ones were waiting, and the others are untouched. -/
theorem slotFits_of_leftInOrder (h : Inv sys) {obj : C} {k : Nat}
    (hnext : sys.mon.lastLeft + 1 = seqno obj)
    (L : LeftInOrder sys.mon (seqno obj) k (sys.mon.postLeave obj)) {t : Int}
    (ht : seqno obj + k < t) (ht' : t < seqno obj + k + processSize) :
    SlotFits (Function.update sys.phase (seqno obj) .left t) ((sys.mon.postLeave obj).slot t) := by
  have hwin := h.entered_lt
  have hbound := L.bound
  rw [Function.update_of_ne (by omega)]
  by_cases hR : ∃ u, sys.mon.lastLeft < u ∧ u ≤ seqno obj + k ∧ indexof u = indexof t
  · -- released: the slot is the next turn's, and `t` has not started
    have hidle := L.released _ hR
    obtain ⟨u, hu, hu', hui⟩ := hR
    have hle : sys.mon.lastEntered < t := by
      by_contra hle
      exact indexof_ne_of_lt (s := u) (t := t) (by omega) (by omega) hui
    rw [h.fresh t hle]
    exact Or.inl hidle
  · have hobj : ((sys.mon.postLeave obj).slot t).obj = (sys.mon.slot t).obj := by
      rw [slot, postLeave_obj, if_neg (fun he => hR ⟨seqno obj, by omega, by omega, he.symm⟩)]; rfl
    by_cases hP : (∃ u, seqno obj + k < u ∧ u ≤ sys.mon.lastEntered ∧ indexof u = indexof t) ∧
        (sys.mon.postLeave obj).canWake (sys.mon.process (indexof t)) = true
    · -- promoted: a waiting thread, now applying
      have happ := L.promoted _ hR hP.1 hP.2
      have hwait := (canWake_eq_true _ hP.2).1
      obtain ⟨u, hu, hu', hui⟩ := hP.1
      have hut : u = t := by
        by_contra hne
        rcases lt_or_gt_of_ne hne with hlt | hlt
        · exact indexof_ne_of_lt (s := u) (t := t) hlt (by omega) hui
        · exact indexof_ne_of_lt (s := t) (t := u) hlt (by omega) hui.symm
      subst hut
      obtain ⟨o, hph, ho⟩ := (h.slots u (by omega) (by omega)).entering_of_waiting hwait
      rw [hph]
      exact ⟨hobj.trans ho, Or.inr (Or.inl happ)⟩
    · have hkept := L.kept _ hR hP
      by_cases hle : t ≤ sys.mon.lastEntered
      · exact (h.slots t (by omega) (by omega)).of_eq hkept hobj
      · -- not started: its slot was idle or canceled and stays so
        rw [h.fresh t (by omega)]
        have hold : (sys.mon.slot t).state = .idle ∨ (sys.mon.slot t).state = .canceled := by
          by_cases htW : t < sys.mon.lastLeft + processSize
          · have hfit := h.slots t (by omega) htW
            rwa [h.fresh t (by omega)] at hfit
          · have hu : indexof (t - processSize) = indexof t := by
              rw [← indexof_add_processSize (t - processSize)]; congr 1; omega
            have hll : t - processSize = sys.mon.lastLeft := by
              by_contra hne
              exact hR ⟨t - processSize, by omega, by omega, hu⟩
            rw [slot, ← hu, hll]
            exact Or.inl h.lastLeftIdle
        simp only [SlotFits]
        rw [slot, hkept]
        exact hold

/-- An in-order `post_leave` keeps the invariant. -/
theorem postLeave_next (h : Inv sys) (obj : C) (hnext : sys.mon.lastLeft + 1 = seqno obj)
    (hs' : seqno obj ≤ sys.mon.lastEntered) :
    Inv ⟨sys.mon.postLeave obj, Function.update sys.phase (seqno obj) .left⟩ := by
  obtain ⟨k, L⟩ := postLeave_of_next sys.mon obj hnext hs' h.entered_lt
  have hwin := h.entered_lt
  have hbound := L.bound
  refine ⟨?_, ?_, ?_, ?_, ?_, ?_, ?_, ?_, ?_⟩ <;> dsimp only
  · rw [L.lastLeft, L.lastEntered]; exact hbound
  · rw [L.lastLeft, L.lastEntered]; omega
  · rw [L.drainSeqno]; exact h.drain
  · -- every seqno up to the new `last_left_` has left
    intro t ht
    rw [L.lastLeft] at ht
    by_cases hts : t = seqno obj
    · rw [hts, Function.update_self]
    · rw [Function.update_of_ne hts]
      by_cases hle : t ≤ sys.mon.lastLeft
      · exact h.done t hle
      · -- the loop moved over `t`, so its slot was finished
        exact (h.slots t (by omega) (by omega)).left_of_finished (L.finished t (by omega) ht)
  · -- the seqno after the new `last_left_` has not left
    rw [L.lastLeft, Function.update_of_ne (by omega)]
    by_cases hlt : seqno obj + k < sys.mon.lastEntered
    · intro hl
      have hfit := h.slots (seqno obj + k + 1) (by omega) (by omega)
      rw [hl] at hfit
      exact L.stop hlt hfit
    · rw [h.fresh _ (by omega)]; simp
  · intro t ht
    rw [L.lastEntered] at ht
    rw [Function.update_of_ne (by omega)]; exact h.fresh t ht
  · intro t o ht
    by_cases hts : t = seqno obj
    · rw [hts, Function.update_self] at ht; simp at ht
    · rw [Function.update_of_ne hts] at ht; exact h.own t o ht
  · rw [L.lastLeft]; exact L.released _ ⟨seqno obj + k, by omega, le_refl _, rfl⟩
  · intro t ht ht'
    rw [L.lastLeft] at ht ht'
    exact h.slotFits_of_leftInOrder hnext L ht ht'

/-- `post_leave` of a seqno after `last_left_` that has entered keeps the
invariant. -/
theorem postLeave (h : Inv sys) (obj : C) (hs : sys.mon.lastLeft < seqno obj)
    (hs' : seqno obj ≤ sys.mon.lastEntered) :
    Inv ⟨sys.mon.postLeave obj, Function.update sys.phase (seqno obj) .left⟩ := by
  by_cases hn : sys.mon.lastLeft + 1 = seqno obj
  · exact h.postLeave_next obj hn hs'
  · exact h.postLeave_ne obj hs hs' hn

/-! ## §3. Every step keeps the invariant. -/

/-- `enter` lets in only a seqno of the ring that has not left. -/
theorem enter_step (h : Inv sys) (obj : C) (hout : sys.phase (seqno obj) = .outside)
    (hroom : sys.mon.wouldBlock (seqno obj) = false) :
    Inv (sys.afterEnter obj) := by
  unfold Sys.afterEnter
  simp only [wouldBlock, Bool.or_eq_false_iff, decide_eq_false_iff_not] at hroom
  have hlt := h.lt_of_ne_left (s := seqno obj) (by rw [hout]; simp)
  have h₁ := h.raise (s := seqno obj) (by omega)
  have hle : seqno obj ≤ (sys.mon.preEnter obj).lastEntered := by simp [preEnter]
  have hW : seqno obj < (sys.mon.preEnter obj).lastLeft + processSize := by simp [preEnter]; omega
  have hnot : ∀ ph : Phase C, ph ≠ .outside → (sys.mon.preEnter obj).lastEntered < seqno obj → ph = .outside :=
    fun _ _ h' => absurd h' (by omega)
  rcases enter_cases sys.mon obj with ⟨-, he⟩ | ⟨-, -, he⟩ | ⟨-, -, he⟩ <;> rw [he]
  · -- EINTR: the canceled slot goes back to idle
    exact h₁.setSlot (s := seqno obj) (by simpa using hlt) hW _ .outside (Or.inl rfl)
      (fun _ => rfl) (by simp) (by simp)
  · exact h₁.setSlot (s := seqno obj) (by simpa using hlt) hW _ (.entering obj) ⟨rfl, Or.inl rfl⟩
      (hnot _ (by simp)) (by simp) (fun o ho => by simp at ho; rw [ho])
  · exact h₁.setSlot (s := seqno obj) (by simpa using hlt) hW _ (.inside obj) ⟨rfl, rfl⟩
      (hnot _ (by simp)) (by simp) (fun o ho => by simp at ho; rw [ho])

/-- A blocked `enter` that wakes either waits on, enters or takes EINTR. -/
theorem wake_step (h : Inv sys) (obj : C) (hin : sys.phase (seqno obj) = .entering obj) :
    Inv (sys.afterWake obj) := by
  unfold Sys.afterWake
  have hlt := h.lt_of_ne_left (s := seqno obj) (by rw [hin]; simp)
  have hle := h.le_of_ne_outside (s := seqno obj) (by rw [hin]; simp)
  have hW : seqno obj < sys.mon.lastLeft + processSize := by have := h.entered_lt; omega
  have hfit := h.slots (seqno obj) hlt hW
  rw [hin] at hfit
  have hnot : ∀ ph : Phase C, sys.mon.lastEntered < seqno obj → ph = .outside :=
    fun _ h' => absurd h' (by omega)
  rcases enterWake_cases sys.mon obj with ⟨-, -, he⟩ | ⟨-, -, he⟩ | ⟨-, he⟩ <;> rw [he]
  · -- still waiting: nothing changes
    have hsys : Function.update sys.phase (seqno obj) (Monitor.EnterResult.waits.phase obj) = sys.phase := by
      rw [show Monitor.EnterResult.waits.phase obj = sys.phase (seqno obj) from hin.symm]
      exact Function.update_eq_self _ _
    rw [hsys]; exact h
  · exact h.setSlot hlt hW _ (.inside obj) ⟨hfit.1, rfl⟩ (hnot _) (by simp)
      (fun o ho => by simp at ho; rw [ho])
  · exact h.setSlot hlt hW _ .outside (Or.inl rfl) (fun _ => rfl) (by simp) (by simp)

/-- `interrupt` cancels the slot of a seqno of the window: the one that
shares its slot. -/
theorem interrupt_step (h : Inv sys) (obj : C) (hroom : seqno obj - sys.mon.lastLeft < processSize) :
    Inv (sys.afterInterrupt obj) := by
  unfold Sys.afterInterrupt
  rcases interrupt_cases sys.mon obj with ⟨hcond, he⟩ | ⟨-, he⟩
  · rw [he]
    -- the seqno of the window that owns the slot
    obtain ⟨t, ht, ht', hti⟩ : ∃ t, sys.mon.lastLeft < t ∧ t < sys.mon.lastLeft + processSize ∧
        indexof t = indexof (seqno obj) := by
      rcases hcond with ⟨-, hlt⟩ | hwait
      · exact ⟨seqno obj, hlt, by omega, rfl⟩
      · obtain ⟨t, ht, ht', hti⟩ := exists_indexof_window sys.mon.lastLeft (seqno obj)
        refine ⟨t, ht, lt_of_le_of_ne ht' ?_, hti⟩
        rintro rfl
        have hidle := h.lastLeftIdle
        rw [slot, ← indexof_add_processSize, hti] at hidle
        rw [slot, hidle] at hwait
        exact absurd hwait (by simp)
    have hst : (sys.mon.slot t).state = .idle ∨ (sys.mon.slot t).state = .waiting := by
      rw [slot, hti, ← slot]
      rcases hcond with ⟨hidle, -⟩ | hwait
      · exact Or.inl hidle
      · exact Or.inr hwait
    have hsys : sys.phase = Function.update sys.phase t (sys.phase t) := (Function.update_eq_self _ _).symm
    rw [setState_congr _ _ hti.symm, setState_eq, hsys]
    exact h.setSlot ht ht' _ _ ((h.slots t ht ht').cancel hst) (h.fresh t)
      (fun he' => by rw [he']; exact h.next) (h.own t)
  · rw [he]; exact h

/-- One step keeps the invariant. -/
theorem step {sys' : Sys C} (h : Inv sys) (hstep : Step sys sys') : Inv sys' := by
  cases hstep with
  | enter obj hout hroom => exact h.enter_step obj hout hroom
  | wake obj hin => exact h.wake_step obj hin
  | leave obj o hin =>
    exact h.postLeave obj (h.lt_of_ne_left (by rw [hin]; simp))
      (h.le_of_ne_outside (by rw [hin]; simp))
  | selfCancel obj hout hroom hseqno =>
    have hlt := h.lt_of_ne_left (s := seqno obj) (by rw [hout]; simp)
    have h₁ := h.raise hroom
    have hsc : sys.mon.selfCancel obj = (sys.mon.raiseLastEntered (seqno obj)).postLeave obj :=
      selfCancel_of_le _ _ (by rw [h.drain]; exact hseqno)
    unfold Sys.afterSelfCancel
    rw [hsc]
    exact h₁.postLeave obj (by simpa using hlt) (by simp)
  | interrupt obj hroom => exact h.interrupt_step obj hroom

end Inv

/-- Every reachable state satisfies the invariant. -/
theorem Reachable.inv {p : Int} {sys : Sys C} (h : Reachable p sys) : Inv sys := by
  induction h with
  | initial => exact inv_initial p
  | step _ hstep ih => exact ih.step hstep


/-! ## §4. `last_left_` only grows; S_APPLYING only when the condition holds. -/

/-- No step moves `last_left_` back. -/
theorem Step.lastLeft_le {sys sys' : Sys C} (hstep : Step sys sys') :
    sys.mon.lastLeft ≤ sys'.mon.lastLeft := by
  cases hstep with
  | enter obj _ _ =>
    unfold Sys.afterEnter
    rcases enter_cases sys.mon obj with ⟨-, he⟩ | ⟨-, -, he⟩ | ⟨-, -, he⟩ <;> simp [he, preEnter]
  | wake obj _ =>
    unfold Sys.afterWake
    rcases enterWake_cases sys.mon obj with ⟨-, -, he⟩ | ⟨-, -, he⟩ | ⟨-, he⟩ <;> simp [he]
  | leave obj _ _ => exact lastLeft_le_postLeave sys.mon obj
  | selfCancel obj _ _ _ =>
    unfold Sys.afterSelfCancel Monitor.selfCancel
    dsimp only
    split
    · have := lastLeft_le_postLeave (sys.mon.raiseLastEntered (seqno obj)) obj
      simpa using this
    · simp
  | interrupt obj _ =>
    unfold Sys.afterInterrupt
    rcases interrupt_cases sys.mon obj with ⟨-, he⟩ | ⟨-, he⟩ <;> simp [he]

/-- `last_left_` never drops below the initial position. -/
theorem Reachable.initial_le {p : Int} {sys : Sys C} (h : Reachable p sys) : p ≤ sys.mon.lastLeft := by
  induction h with
  | initial => exact le_refl p
  | step _ hstep ih => exact le_trans ih hstep.lastLeft_le

omit [MonitorObj C] in
/-- Overwriting one slot makes no other slot applying. -/
theorem eq_of_setSlot_applying {m : Monitor C} {s : Int} {p : Process C} {i : Fin processSize}
    (hb : (m.process i).state ≠ .applying) (ha : ((m.setSlot s p).process i).state = .applying) :
    i = indexof s ∧ p.state = .applying := by
  rw [setSlot_process] at ha
  by_cases hi : i = indexof s
  · rw [if_pos hi] at ha; exact ⟨hi, ha⟩
  · rw [if_neg hi] at ha; exact absurd ha hb

/-- What a slot that becomes applying holds: an object of the window whose
condition holds now. -/
def GrantedAt (m : Monitor C) (i : Fin processSize) : Prop :=
  ∃ o, (m.process i).obj = some o ∧ indexof (seqno o) = i ∧ m.lastLeft < seqno o ∧
    seqno o ≤ m.lastEntered ∧ condition o m.lastEntered m.lastLeft = true

namespace Inv

variable {sys : Sys C}

/-- `post_leave` promotes only waiting objects of the window whose condition
holds after it. -/
theorem postLeave_applying (h : Inv sys) (obj : C) (hs : sys.mon.lastLeft < seqno obj)
    (hs' : seqno obj ≤ sys.mon.lastEntered) (i : Fin processSize)
    (hb : (sys.mon.process i).state ≠ .applying)
    (ha : ((sys.mon.postLeave obj).process i).state = .applying) :
    GrantedAt (sys.mon.postLeave obj) i := by
  by_cases hn : sys.mon.lastLeft + 1 = seqno obj
  · obtain ⟨k, L⟩ := postLeave_of_next sys.mon obj hn hs' h.entered_lt
    by_cases hR : ∃ t, sys.mon.lastLeft < t ∧ t ≤ seqno obj + k ∧ indexof t = i
    · rw [L.released i hR] at ha; simp at ha
    · by_cases hP : (∃ t, seqno obj + k < t ∧ t ≤ sys.mon.lastEntered ∧ indexof t = i) ∧
          (sys.mon.postLeave obj).canWake (sys.mon.process i) = true
      · obtain ⟨⟨t, ht, ht', rfl⟩, hc⟩ := hP
        obtain ⟨hwait, o, ho, hmay⟩ := canWake_eq_true _ hc
        have hW := h.entered_lt
        obtain ⟨o', hph, ho'⟩ := (h.slots t (by omega) (by omega)).entering_of_waiting hwait
        have hoo : o' = o := Option.some_injective _ (ho'.symm.trans ho)
        subst hoo
        have hown := h.own t o' (Or.inl hph)
        refine ⟨o', ?_, by rw [hown], ?_, ?_, hmay⟩
        · rw [postLeave_obj, if_neg (fun he => hR ⟨seqno obj, by omega, by omega, he.symm⟩)]; exact ho
        · rw [L.lastLeft, hown]; exact ht
        · rw [L.lastEntered, hown]; exact ht'
      · rw [L.kept i hR hP] at ha; exact absurd ha hb
  · rw [postLeave_of_ne _ _ hn] at ha ⊢
    obtain ⟨-, hst⟩ := eq_of_setSlot_applying hb ha
    simp at hst

end Inv

/-- A slot becomes S_APPLYING only for an object of the window whose
condition holds for the `(last_entered_, last_left_)` of that moment. -/
theorem Step.applying {sys sys' : Sys C} (h : Inv sys) (hstep : Step sys sys') (i : Fin processSize)
    (hb : (sys.mon.process i).state ≠ .applying) (ha : (sys'.mon.process i).state = .applying) :
    GrantedAt sys'.mon i := by
  cases hstep with
  | enter obj hout hroom =>
    have hlt := h.lt_of_ne_left (s := seqno obj) (by rw [hout]; simp)
    dsimp only [Sys.afterEnter] at ha ⊢
    rcases enter_cases sys.mon obj with ⟨-, he⟩ | ⟨-, -, he⟩ | ⟨-, hm, he⟩ <;> rw [he] at ha ⊢
    · have := (eq_of_setSlot_applying (by simpa [preEnter] using hb) ha).2; simp at this
    · have := (eq_of_setSlot_applying (by simpa [preEnter] using hb) ha).2; simp at this
    · obtain ⟨rfl, -⟩ := eq_of_setSlot_applying (by simpa [preEnter] using hb) ha
      refine ⟨obj, by simp [setSlot_process], rfl, by simpa [preEnter] using hlt, by simp [preEnter], ?_⟩
      simpa [mayEnter] using hm
  | wake obj hin =>
    have hlt := h.lt_of_ne_left (s := seqno obj) (by rw [hin]; simp)
    have hle := h.le_of_ne_outside (s := seqno obj) (by rw [hin]; simp)
    have hfit := h.slots (seqno obj) hlt (by have := h.entered_lt; omega)
    rw [hin] at hfit
    dsimp only [Sys.afterWake] at ha ⊢
    rcases enterWake_cases sys.mon obj with ⟨-, -, he⟩ | ⟨hor, hc, he⟩ | ⟨-, he⟩ <;> rw [he] at ha ⊢
    · exact absurd ha hb
    · rw [setState_eq] at ha ⊢
      obtain ⟨rfl, -⟩ := eq_of_setSlot_applying hb ha
      -- it was waiting, so it left the loop because its condition held
      have hwait : (sys.mon.slot (seqno obj)).state = .waiting := by
        rcases hfit.2 with hw | ha' | hc' 
        · exact hw
        · exact absurd ha' hb
        · exact absurd hc' hc
      have hmay : sys.mon.mayEnter obj = true := by
        rcases hor with hm | hne
        · exact hm
        · exact absurd hwait hne
      exact ⟨obj, by simp [setSlot_process, hfit.1], rfl, hlt, hle, hmay⟩
    · rw [setState_eq] at ha
      have := (eq_of_setSlot_applying hb ha).2; simp at this
  | leave obj o hin =>
    exact h.postLeave_applying obj (h.lt_of_ne_left (by rw [hin]; simp))
      (h.le_of_ne_outside (by rw [hin]; simp)) i hb ha
  | selfCancel obj hout hroom hseqno =>
    have hlt := h.lt_of_ne_left (s := seqno obj) (by rw [hout]; simp)
    have hsc : sys.mon.selfCancel obj = (sys.mon.raiseLastEntered (seqno obj)).postLeave obj :=
      selfCancel_of_le _ _ (by rw [h.drain]; exact hseqno)
    dsimp only [Sys.afterSelfCancel] at ha ⊢
    rw [hsc] at ha ⊢
    exact (h.raise hroom).postLeave_applying obj (by simpa using hlt) (by simp) i
      (by simpa using hb) ha
  | interrupt obj hroom =>
    dsimp only [Sys.afterInterrupt] at ha ⊢
    rcases interrupt_cases sys.mon obj with ⟨-, he⟩ | ⟨-, he⟩ <;> rw [he] at ha
    · rw [setState_eq] at ha
      have := (eq_of_setSlot_applying hb ha).2; simp at this
    · exact absurd ha hb

/-! ## §5. The ordering contract of the monitor. -/

/-- Every slot that is waiting or applying holds the object of a seqno of the
window: live seqnos are less than `process_size_` after `last_left_`, so no
two of them share a slot. -/
theorem Inv.live_slot {sys : Sys C} (h : Inv sys) (i : Fin processSize)
    (hi : (sys.mon.process i).state = .waiting ∨ (sys.mon.process i).state = .applying) :
    ∃ o, (sys.mon.process i).obj = some o ∧ indexof (seqno o) = i ∧ sys.mon.lastLeft < seqno o ∧
      seqno o - sys.mon.lastLeft < processSize := by
  obtain ⟨t, ht, ht', hti⟩ := exists_indexof_window sys.mon.lastLeft (i.val : Int)
  rw [indexof_val] at hti
  subst hti
  -- the slot of `last_left_ + 2^16` is the idle slot of `last_left_`
  have htW : t < sys.mon.lastLeft + processSize := by
    refine lt_of_le_of_ne ht' ?_
    rintro rfl
    have hidle := h.lastLeftIdle
    rw [slot, ← indexof_add_processSize] at hidle
    rw [hidle] at hi
    simp at hi
  obtain ⟨o, hph, ho⟩ := (h.slots t ht htW).live hi
  have hown := h.own t o hph
  exact ⟨o, ho, by rw [hown], by rw [hown]; exact ht, by rw [hown]; omega⟩

/-- A local monitor at position 0 after seqnos 1 and 2 cancel themselves. -/
def exampleCanceled : Sys LocalOrder :=
  ((Sys.initial 0).afterSelfCancel ⟨1⟩).afterSelfCancel ⟨2⟩

/-- Then seqno `65537 = 1 + 2^16` enters ahead of seqno 3 and waits. -/
def exampleAliasRun : Sys LocalOrder := exampleCanceled.afterEnter ⟨65537⟩

theorem exampleAliasRun_reachable : Reachable 0 exampleAliasRun := by
  have h₁ : Reachable 0 ((Sys.initial 0 : Sys LocalOrder).afterSelfCancel ⟨1⟩) :=
    .step .initial (Step.selfCancel (Sys.initial 0 : Sys LocalOrder) ⟨1⟩ (by decide +kernel) (by decide +kernel)
      (by decide +kernel))
  have h₂ : Reachable 0 exampleCanceled :=
    .step h₁ (Step.selfCancel ((Sys.initial 0 : Sys LocalOrder).afterSelfCancel ⟨1⟩) ⟨2⟩ (by decide +kernel)
      (by decide +kernel) (by decide +kernel))
  exact .step h₂ (Step.enter exampleCanceled ⟨65537⟩ (by decide +kernel) (by decide +kernel))

end Galera.Ordering
