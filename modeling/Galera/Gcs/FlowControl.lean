/-
  Galera.Gcs.FlowControl
  ──────────────────────
  **FLOW CONTROL OF THE RECEIVE QUEUE (`gcs.cpp`).**

  A node whose receive queue grows past `upper_limit` sends an FC_STOP
  event, and the node's appliers send FC_CONT once they have drained it to
  `lower_limit`.  `stop_sent_` counts the STOPs this node sent minus its
  CONTs.  Every member counts the STOPs and CONTs of the current
  configuration it receives in `stop_count`, pauses its send monitor when
  the count reaches 1 and lets it continue when the count is back at 0.
  A configuration change resets both counters.

  The calls of the receive thread:

      queueAction           gu_fifo_get_tail, gcs_fc_stop_begin's test
      lock at stopWait      GCS_FIFO_PUSH_TAIL, gcs_fc_stop_end up to the unlock
      checkRecvQueueGrowth  _check_recv_queue_growth deciding to pause
      releaseFlowControl    _release_flow_control up to the unlock
      handleFc              gcs_handle_flow_control of a delivered event
      handleConf            gcs_handle_act_conf's reset

  and of an applier in `gcs_recv`: `recv` (gu_fifo_get_head,
  gcs_fc_cont_begin's test) and `lock` at `contWait` (GCS_FIFO_POP_HEAD,
  gcs_fc_cont_end up to the unlock).  After `gcs_fc_stop_end` or
  `gcs_fc_cont_end` has moved the counter and released `fc_lock`, `send`
  hands the event to `gcs_core` (it is sent or it fails), and `lock` at
  `stopRelock` or `contRelock` takes `fc_lock` again and undoes the
  counter if the send failed.  A thread whose test holds waits for
  `fc_lock` with `recv_q` locked.

    * `fcRun_stopSent` — in every run whose sends all succeed, with any
      appliers, `stop_sent_` stays 0 or 1;
    * `fcRun_paused` — in every run, the send monitor is paused exactly
      while `stop_count` is positive;
    * `fc_cont_overtakes_stop` — neither more: an applier's CONT reaches
      `gcs_core` before the STOP whose count it undoes, so the node's
      events in the configuration begin with CONT and `stop_count` goes
      to -1; and a failed STOP undone after a CONT leaves `stop_sent_`
      at -1.

  The packet layout, the statistics, `gcs_check_error`'s logging and the
  SYNC messages are not modelled; `_set_fc_limits` is not re-run at a
  configuration change, and `conn->state <= conn->max_fc_state` is the
  flag `fcStateOk`.
-/
import Mathlib

namespace Galera.Gcs

open Function (update update_self update_of_ne)

/-! ## §1. The connection -/

/-- `struct gcs_fc_event`: the configuration it was sent in and whether it
    is a STOP. -/
structure GcsFcEvent where
  confId : UInt32
  stop : Bool
  deriving DecidableEq, Repr

/-- What `gcs_handle_flow_control` reads and writes: `conf_id`,
    `stop_count`, and the pause flag of the send monitor. -/
structure FcRecv where
  confId : UInt32
  stopCount : Int
  paused : Bool
  deriving DecidableEq, Repr

/-- What the sending of FC events reads and writes; `qlen` is
    `gu_fifo_length (recv_q)` and `log` the events `gcs_core_send_fc`
    sent, in order. -/
structure FcSend where
  stopSent : Int
  queueLen : Int
  upperLimit : Int
  lowerLimit : Int
  fcOffset : Int
  fcStateOk : Bool
  qlen : Nat
  log : List GcsFcEvent
  deriving DecidableEq, Repr

/-! ## §2. The functions -/

/-- The test of `gcs_fc_stop_begin`, before it takes `fc_lock`. -/
def gcsFcStopBegin (rx : FcRecv) (tx : FcSend) : Bool :=
  decide (rx.stopCount ≤ 0) && decide (tx.stopSent ≤ 0) &&
    decide (tx.queueLen > tx.upperLimit + tx.fcOffset) && tx.fcStateOk

/-- `gcs_fc_stop_end` under `fc_lock`: whether it sends a STOP. -/
def gcsFcStopEndLocked (tx : FcSend) : FcSend × Bool :=
  if tx.stopSent ≤ 0 then ({ tx with stopSent := tx.stopSent + 1 }, true) else (tx, false)

/-- `gcs_fc_stop_end` once the send returned: a failed STOP is taken back. -/
def gcsFcStopEndRelock (tx : FcSend) (ok : Bool) : FcSend :=
  if ok then tx else { tx with stopSent := tx.stopSent - 1 }

/-- `gcs_fc_cont_begin`: `fc_offset` follows a queue that shrank below
    it, and the test, before it takes `fc_lock`. -/
def gcsFcContBegin (tx : FcSend) : FcSend × Bool :=
  let queueDecreased := decide (tx.fcOffset > tx.queueLen)
  let tx := if queueDecreased then { tx with fcOffset := tx.queueLen } else tx
  (tx, decide (tx.stopSent > 0) && (decide (tx.lowerLimit ≥ tx.queueLen) || queueDecreased) &&
    tx.fcStateOk)

/-- `gcs_fc_cont_end` under `fc_lock`: whether it sends a CONT. -/
def gcsFcContEndLocked (tx : FcSend) : FcSend × Bool :=
  if tx.stopSent ≠ 0 then ({ tx with stopSent := tx.stopSent - 1 }, true) else (tx, false)

/-- `gcs_fc_cont_end` once the send returned: a failed CONT is taken back. -/
def gcsFcContEndRelock (tx : FcSend) (ok : Bool) : FcSend :=
  if ok then tx else { tx with stopSent := tx.stopSent + 1 }

/-- `_release_flow_control` under `fc_lock`: `gcs_fc_cont_end` if a STOP
    is counted. -/
def releaseFlowControl (tx : FcSend) : FcSend × Bool :=
  if tx.stopSent ≠ 0 then gcsFcContEndLocked tx else (tx, false)

/-- `gcs_send_fc_event`: the event carries `conf_id` as it is at the send. -/
def gcsSendFcEvent (tx : FcSend) (confId : UInt32) (stop ok : Bool) : FcSend :=
  if ok then { tx with log := tx.log ++ [⟨confId, stop⟩] } else tx

/-- `gcs_handle_flow_control`: an event of another configuration is
    dropped; the first STOP pauses the send monitor, the last CONT lets
    it continue (the monitor is open). -/
def gcsHandleFlowControl (rx : FcRecv) (fc : GcsFcEvent) : FcRecv :=
  if fc.confId ≠ rx.confId then rx
  else
    let stopCount := rx.stopCount + (if fc.stop then 1 else -1)
    if stopCount = 1 then { rx with stopCount, paused := true }
    else if stopCount = 0 then { rx with stopCount, paused := false }
    else { rx with stopCount }

/-- The flow-control reset of `gcs_handle_act_conf`. -/
def gcsHandleActConf (rx : FcRecv) (tx : FcSend) (confId : UInt32) : FcRecv × FcSend :=
  let paused := if rx.stopCount > 0 then false else rx.paused
  (⟨confId, 0, paused⟩, { tx with stopSent := 0 })

/-! ## §3. The threads -/

/-- The receive thread and the appliers. -/
inductive GcsThread (α : Type)
  | recv
  | applier (a : α)
  deriving DecidableEq, Repr

/-- Where a thread stands between two steps (the module header). -/
inductive FcPc
  | idle
  | stopWait
  | stopSend
  | stopRelock (ok : Bool)
  | contWait
  | contSend
  | contRelock (ok : Bool)
  deriving DecidableEq, Repr

/-- The calls (the module header). -/
inductive FcOp
  | queueAction
  | checkRecvQueueGrowth
  | releaseFlowControl
  | handleFc (fc : GcsFcEvent)
  | handleConf (confId : UInt32)
  | recv
  | lock
  | send (ok : Bool)
  deriving DecidableEq, Repr

/-- The connection and its threads; `qLocked` while a thread waits for
    `fc_lock` with `recv_q` locked. -/
structure FcWorld (α : Type) where
  rx : FcRecv
  tx : FcSend
  pc : GcsThread α → FcPc
  qLocked : Bool

variable {α : Type}

/-- Every thread idle. -/
def FcWorld.init (rx : FcRecv) (tx : FcSend) : FcWorld α := ⟨rx, tx, fun _ => .idle, false⟩

section step

variable [DecidableEq α]

/-- One step of thread `t`; `none` when the call cannot be made there. -/
def fcStep (w : FcWorld α) (t : GcsThread α) : FcOp → Option (FcWorld α)
  | .queueAction =>
    match t, w.pc t, w.qLocked with
    | .recv, .idle, false =>
      let tx := { w.tx with queueLen := w.tx.qlen + 1 }
      if gcsFcStopBegin w.rx tx then some ⟨w.rx, tx, update w.pc t .stopWait, true⟩
      else some ⟨w.rx, { tx with qlen := tx.qlen + 1 }, w.pc, false⟩
    | _, _, _ => none
  | .checkRecvQueueGrowth =>
    match t, w.pc t with
    | .recv, .idle =>
      let r := gcsFcStopEndLocked w.tx
      some ⟨w.rx, r.1, update w.pc t (if r.2 then .stopSend else .idle), w.qLocked⟩
    | _, _ => none
  | .releaseFlowControl =>
    match t, w.pc t with
    | .recv, .idle =>
      let r := releaseFlowControl w.tx
      some ⟨w.rx, r.1, update w.pc t (if r.2 then .contSend else .idle), w.qLocked⟩
    | _, _ => none
  | .handleFc fc =>
    match t, w.pc t with
    | .recv, .idle => some { w with rx := gcsHandleFlowControl w.rx fc }
    | _, _ => none
  | .handleConf confId =>
    match t, w.pc t, w.qLocked with
    | .recv, .idle, false =>
      let r := gcsHandleActConf w.rx w.tx confId
      some { w with rx := r.1, tx := r.2 }
    | _, _, _ => none
  | .recv =>
    match t, w.pc t, w.qLocked with
    | .applier _, .idle, false =>
      if 0 < w.tx.qlen then
        let r := gcsFcContBegin { w.tx with queueLen := (w.tx.qlen : Int) - 1 }
        if r.2 then some ⟨w.rx, r.1, update w.pc t .contWait, true⟩
        else some ⟨w.rx, { r.1 with qlen := r.1.qlen - 1 }, w.pc, false⟩
      else none
    | _, _, _ => none
  | .lock =>
    match w.pc t with
    | .stopWait =>
      let r := gcsFcStopEndLocked { w.tx with qlen := w.tx.qlen + 1 }
      some ⟨w.rx, r.1, update w.pc t (if r.2 then .stopSend else .idle), false⟩
    | .contWait =>
      let r := gcsFcContEndLocked { w.tx with qlen := w.tx.qlen - 1 }
      some ⟨w.rx, r.1, update w.pc t (if r.2 then .contSend else .idle), false⟩
    | .stopRelock ok => some ⟨w.rx, gcsFcStopEndRelock w.tx ok, update w.pc t .idle, w.qLocked⟩
    | .contRelock ok => some ⟨w.rx, gcsFcContEndRelock w.tx ok, update w.pc t .idle, w.qLocked⟩
    | _ => none
  | .send ok =>
    match w.pc t with
    | .stopSend =>
      some ⟨w.rx, gcsSendFcEvent w.tx w.rx.confId true ok, update w.pc t (.stopRelock ok), w.qLocked⟩
    | .contSend =>
      some ⟨w.rx, gcsSendFcEvent w.tx w.rx.confId false ok, update w.pc t (.contRelock ok),
        w.qLocked⟩
    | _ => none

/-- The steps of a list of (thread, call) pairs, one after another. -/
def fcRun (w : FcWorld α) : List (GcsThread α × FcOp) → Option (FcWorld α)
  | [] => some w
  | (t, op) :: ops => (fcStep w t op).bind fun w' => fcRun w' ops

end step

/-! ## §4. One step -/

section move

variable [DecidableEq α]

/-- What one step does, by the call and where the thread stands. -/
inductive FcMove (w : FcWorld α) : GcsThread α → FcOp → FcWorld α → Prop
  | queueStop : w.pc .recv = .idle → w.qLocked = false →
      gcsFcStopBegin w.rx { w.tx with queueLen := w.tx.qlen + 1 } = true →
      FcMove w .recv .queueAction
        ⟨w.rx, { w.tx with queueLen := w.tx.qlen + 1 }, update w.pc .recv .stopWait, true⟩
  | queuePush : w.pc .recv = .idle → w.qLocked = false →
      gcsFcStopBegin w.rx { w.tx with queueLen := w.tx.qlen + 1 } = false →
      FcMove w .recv .queueAction
        ⟨w.rx, { w.tx with queueLen := w.tx.qlen + 1, qlen := w.tx.qlen + 1 }, w.pc, false⟩
  | growth : w.pc .recv = .idle →
      FcMove w .recv .checkRecvQueueGrowth ⟨w.rx, (gcsFcStopEndLocked w.tx).1,
        update w.pc .recv (if (gcsFcStopEndLocked w.tx).2 then .stopSend else .idle), w.qLocked⟩
  | release : w.pc .recv = .idle →
      FcMove w .recv .releaseFlowControl ⟨w.rx, (releaseFlowControl w.tx).1,
        update w.pc .recv (if (releaseFlowControl w.tx).2 then .contSend else .idle), w.qLocked⟩
  | handleFc (fc : GcsFcEvent) : w.pc .recv = .idle →
      FcMove w .recv (.handleFc fc) { w with rx := gcsHandleFlowControl w.rx fc }
  | handleConf (confId : UInt32) : w.pc .recv = .idle → w.qLocked = false →
      FcMove w .recv (.handleConf confId) ⟨(gcsHandleActConf w.rx w.tx confId).1,
        (gcsHandleActConf w.rx w.tx confId).2, w.pc, w.qLocked⟩
  | recvCont (a : α) : w.pc (.applier a) = .idle → w.qLocked = false → 0 < w.tx.qlen →
      (gcsFcContBegin { w.tx with queueLen := (w.tx.qlen : Int) - 1 }).2 = true →
      FcMove w (.applier a) .recv ⟨w.rx, (gcsFcContBegin { w.tx with queueLen := (w.tx.qlen : Int) - 1 }).1,
        update w.pc (.applier a) .contWait, true⟩
  | recvPop (a : α) : w.pc (.applier a) = .idle → w.qLocked = false → 0 < w.tx.qlen →
      (gcsFcContBegin { w.tx with queueLen := (w.tx.qlen : Int) - 1 }).2 = false →
      FcMove w (.applier a) .recv ⟨w.rx,
        { (gcsFcContBegin { w.tx with queueLen := (w.tx.qlen : Int) - 1 }).1 with
          qlen := (gcsFcContBegin { w.tx with queueLen := (w.tx.qlen : Int) - 1 }).1.qlen - 1 },
        w.pc, false⟩
  | lockStop (t : GcsThread α) : w.pc t = .stopWait →
      FcMove w t .lock ⟨w.rx, (gcsFcStopEndLocked { w.tx with qlen := w.tx.qlen + 1 }).1,
        update w.pc t (if (gcsFcStopEndLocked { w.tx with qlen := w.tx.qlen + 1 }).2 then .stopSend
          else .idle), false⟩
  | lockCont (t : GcsThread α) : w.pc t = .contWait →
      FcMove w t .lock ⟨w.rx, (gcsFcContEndLocked { w.tx with qlen := w.tx.qlen - 1 }).1,
        update w.pc t (if (gcsFcContEndLocked { w.tx with qlen := w.tx.qlen - 1 }).2 then .contSend
          else .idle), false⟩
  | relockStop (t : GcsThread α) (ok : Bool) : w.pc t = .stopRelock ok →
      FcMove w t .lock ⟨w.rx, gcsFcStopEndRelock w.tx ok, update w.pc t .idle, w.qLocked⟩
  | relockCont (t : GcsThread α) (ok : Bool) : w.pc t = .contRelock ok →
      FcMove w t .lock ⟨w.rx, gcsFcContEndRelock w.tx ok, update w.pc t .idle, w.qLocked⟩
  | sendStop (t : GcsThread α) (ok : Bool) : w.pc t = .stopSend →
      FcMove w t (.send ok) ⟨w.rx, gcsSendFcEvent w.tx w.rx.confId true ok,
        update w.pc t (.stopRelock ok), w.qLocked⟩
  | sendCont (t : GcsThread α) (ok : Bool) : w.pc t = .contSend →
      FcMove w t (.send ok) ⟨w.rx, gcsSendFcEvent w.tx w.rx.confId false ok,
        update w.pc t (.contRelock ok), w.qLocked⟩

/-- Every step is one of the moves. -/
theorem fcStep_move {w w' : FcWorld α} {t : GcsThread α} {op : FcOp} (h : fcStep w t op = some w') :
    FcMove w t op w' := by
  cases op with
  | queueAction =>
    simp only [fcStep] at h
    split at h
    next hq hpc =>
      split at h
      next hs => cases h; exact .queueStop hpc hq hs
      next hs => cases h; exact .queuePush hpc hq (Bool.eq_false_iff.2 hs)
    next => cases h
  | checkRecvQueueGrowth =>
    simp only [fcStep] at h
    split at h
    next hpc => cases h; exact .growth hpc
    next => cases h
  | releaseFlowControl =>
    simp only [fcStep] at h
    split at h
    next hpc => cases h; exact .release hpc
    next => cases h
  | handleFc fc =>
    simp only [fcStep] at h
    split at h
    next hpc => cases h; exact .handleFc fc hpc
    next => cases h
  | handleConf confId =>
    simp only [fcStep] at h
    split at h
    next hq hpc => cases h; exact .handleConf confId hpc hq
    next => cases h
  | recv =>
    simp only [fcStep] at h
    split at h
    next a hq hpc =>
      split at h
      next hlen =>
        split at h
        next hs => cases h; exact .recvCont a hpc hq hlen hs
        next hs => cases h; exact .recvPop a hpc hq hlen (Bool.eq_false_iff.2 hs)
      next => cases h
    next => cases h
  | lock =>
    simp only [fcStep] at h
    split at h
    next hpc => cases h; exact .lockStop t hpc
    next hpc => cases h; exact .lockCont t hpc
    next ok hpc => cases h; exact .relockStop t ok hpc
    next ok hpc => cases h; exact .relockCont t ok hpc
    next => cases h
  | send ok =>
    simp only [fcStep] at h
    split at h
    next hpc => cases h; exact .sendStop t ok hpc
    next hpc => cases h; exact .sendCont t ok hpc
    next => cases h

end move

/-! ## §5. What every run keeps -/

section sends

/-- `stop_sent_` is 0 or 1. -/
def FcSend.StopSentBit (tx : FcSend) : Prop := 0 ≤ tx.stopSent ∧ tx.stopSent ≤ 1

variable {tx : FcSend}

theorem gcsFcStopEndLocked_bit (h : tx.StopSentBit) : (gcsFcStopEndLocked tx).1.StopSentBit := by
  unfold gcsFcStopEndLocked FcSend.StopSentBit at *
  split_ifs <;> dsimp only <;> omega

theorem gcsFcContEndLocked_bit (h : tx.StopSentBit) : (gcsFcContEndLocked tx).1.StopSentBit := by
  unfold gcsFcContEndLocked FcSend.StopSentBit at *
  split_ifs <;> dsimp only <;> omega

theorem releaseFlowControl_bit (h : tx.StopSentBit) : (releaseFlowControl tx).1.StopSentBit := by
  unfold releaseFlowControl
  split_ifs
  · exact gcsFcContEndLocked_bit h
  · exact h

@[simp] theorem gcsFcContBegin_stopSent : (gcsFcContBegin tx).1.stopSent = tx.stopSent := by
  unfold gcsFcContBegin
  dsimp only
  split <;> rfl

@[simp] theorem gcsSendFcEvent_stopSent (confId : UInt32) (stop ok : Bool) :
    (gcsSendFcEvent tx confId stop ok).stopSent = tx.stopSent := by
  unfold gcsSendFcEvent
  split_ifs <;> rfl

theorem gcsFcContBegin_bit (h : tx.StopSentBit) : (gcsFcContBegin tx).1.StopSentBit := by
  unfold FcSend.StopSentBit
  rw [gcsFcContBegin_stopSent]
  exact h

theorem gcsSendFcEvent_bit (h : tx.StopSentBit) (confId : UInt32) (stop ok : Bool) :
    (gcsSendFcEvent tx confId stop ok).StopSentBit := by
  unfold FcSend.StopSentBit
  rw [gcsSendFcEvent_stopSent]
  exact h

end sends

/-- A send that failed and has not been taken back yet. -/
def FcPc.failed : FcPc → Bool
  | .stopRelock false => true
  | .contRelock false => true
  | _ => false

/-- What every run whose sends all succeed keeps: `stop_sent_` is 0 or 1,
    and no thread is about to take back a failed send. -/
structure FcWorld.SendsOk (w : FcWorld α) : Prop where
  bit : w.tx.StopSentBit
  noFailed : ∀ t, (w.pc t).failed = false

section sendsOk

variable [DecidableEq α] {w w' : FcWorld α} {t : GcsThread α} {op : FcOp}

theorem failed_update {pc : GcsThread α → FcPc} (h : ∀ t, (pc t).failed = false) (s : GcsThread α)
    {p : FcPc} (hp : p.failed = false) : ∀ t, (update pc s p t).failed = false :=
  (Function.forall_update_iff pc fun _ q => q.failed = false).2 ⟨hp, fun t _ => h t⟩

/-- The step lemma: every move but a failed send keeps `SendsOk`. -/
theorem FcMove.sendsOk (m : FcMove w t op w') (hop : op ≠ .send false) (h : w.SendsOk) :
    w'.SendsOk := by
  cases m with
  | queueStop => exact ⟨h.bit, failed_update h.noFailed _ rfl⟩
  | queuePush => exact ⟨h.bit, h.noFailed⟩
  | growth =>
    exact ⟨gcsFcStopEndLocked_bit h.bit, failed_update h.noFailed _ (by split <;> rfl)⟩
  | release =>
    exact ⟨releaseFlowControl_bit h.bit, failed_update h.noFailed _ (by split <;> rfl)⟩
  | handleFc => exact ⟨h.bit, h.noFailed⟩
  | handleConf =>
    refine ⟨?_, h.noFailed⟩
    -- the reset counts from 0
    unfold FcSend.StopSentBit gcsHandleActConf
    dsimp only
    omega
  | recvCont => exact ⟨gcsFcContBegin_bit h.bit, failed_update h.noFailed _ rfl⟩
  | recvPop => exact ⟨gcsFcContBegin_bit h.bit, h.noFailed⟩
  | lockStop => exact ⟨gcsFcStopEndLocked_bit h.bit, failed_update h.noFailed _ (by split <;> rfl)⟩
  | lockCont => exact ⟨gcsFcContEndLocked_bit h.bit, failed_update h.noFailed _ (by split <;> rfl)⟩
  | relockStop t ok hpc =>
    -- a failed send would be taken back here; none failed
    cases ok
    · have hf := h.noFailed t
      rw [hpc] at hf
      cases hf
    · exact ⟨h.bit, failed_update h.noFailed _ rfl⟩
  | relockCont t ok hpc =>
    cases ok
    · have hf := h.noFailed t
      rw [hpc] at hf
      cases hf
    · exact ⟨h.bit, failed_update h.noFailed _ rfl⟩
  | sendStop t ok =>
    cases ok
    · exact absurd rfl hop
    · exact ⟨gcsSendFcEvent_bit h.bit _ _ _, failed_update h.noFailed _ rfl⟩
  | sendCont t ok =>
    cases ok
    · exact absurd rfl hop
    · exact ⟨gcsSendFcEvent_bit h.bit _ _ _, failed_update h.noFailed _ rfl⟩

end sendsOk

section paused

/-- The send monitor is paused exactly while `stop_count` is positive. -/
def FcRecv.PausedOk (rx : FcRecv) : Prop := rx.paused = true ↔ 0 < rx.stopCount

variable {rx : FcRecv}

/-- `gcs_handle_flow_control` pauses at 1 and continues at 0, on the way
    up or down. -/
theorem gcsHandleFlowControl_pausedOk (h : rx.PausedOk) (fc : GcsFcEvent) :
    (gcsHandleFlowControl rx fc).PausedOk := by
  unfold gcsHandleFlowControl
  by_cases hconf : fc.confId ≠ rx.confId
  · rw [if_pos hconf]
    exact h
  rw [if_neg hconf]
  -- the count moves by one, up or down
  have hd : (if fc.stop then 1 else -1 : Int) = 1 ∨ (if fc.stop then 1 else -1 : Int) = -1 := by
    cases fc.stop
    · exact .inr rfl
    · exact .inl rfl
  generalize (if fc.stop then 1 else -1 : Int) = d at hd ⊢
  unfold FcRecv.PausedOk at h ⊢
  dsimp only
  split_ifs with h1 h0 <;> dsimp only
  · exact ⟨fun _ => by omega, fun _ => rfl⟩
  · exact ⟨fun hp => (by cases hp), fun _ => by omega⟩
  · -- neither 1 nor 0: the sign does not change
    rw [h]
    constructor <;> intro <;> omega

/-- `gcs_handle_act_conf` lets a paused monitor continue and counts
    from 0. -/
theorem gcsHandleActConf_pausedOk (h : rx.PausedOk) (tx : FcSend) (confId : UInt32) :
    (gcsHandleActConf rx tx confId).1.PausedOk := by
  unfold gcsHandleActConf FcRecv.PausedOk at *
  dsimp only
  split_ifs with hc
  · decide
  · have : rx.paused = false := by
      cases hp : rx.paused
      · rfl
      · exact absurd (h.1 hp) hc
    simp only [this]
    decide

variable [DecidableEq α] {w w' : FcWorld α} {t : GcsThread α} {op : FcOp}

/-- Only the receive thread's handling of events and configurations
    touches the receive side. -/
theorem FcMove.pausedOk (m : FcMove w t op w') (h : w.rx.PausedOk) : w'.rx.PausedOk := by
  cases m with
  | handleFc fc => exact gcsHandleFlowControl_pausedOk h fc
  | handleConf confId => exact gcsHandleActConf_pausedOk h w.tx confId
  | _ => exact h

end paused

section runs

variable [DecidableEq α]

theorem fcRun_cons {w w' : FcWorld α} {t : GcsThread α} {op : FcOp} {ops : List (GcsThread α × FcOp)}
    (h : fcRun w ((t, op) :: ops) = some w') : ∃ w₁, FcMove w t op w₁ ∧ fcRun w₁ ops = some w' := by
  simp only [fcRun, Option.bind_eq_some_iff] at h
  obtain ⟨w₁, hstep, hrest⟩ := h
  exact ⟨w₁, fcStep_move hstep, hrest⟩

/-- In every run whose sends all succeed, with any number of appliers,
    `stop_sent_` stays 0 or 1.  By induction on the calls. -/
theorem fcRun_stopSent : ∀ (ops : List (GcsThread α × FcOp)) {w w' : FcWorld α}, w.SendsOk →
    (∀ p ∈ ops, p.2 ≠ .send false) → fcRun w ops = some w' → 0 ≤ w'.tx.stopSent ∧ w'.tx.stopSent ≤ 1
  | [], _, _, h, _, hrun => by cases hrun; exact h.bit
  | (t, op) :: ops, _, _, h, hops, hrun => by
    obtain ⟨w₁, m, hrest⟩ := fcRun_cons hrun
    exact fcRun_stopSent ops (m.sendsOk (hops (t, op) List.mem_cons_self) h)
      (fun p hp => hops p (List.mem_cons_of_mem _ hp)) hrest

/-- In every run, failed sends and configuration changes included, the
    send monitor is paused exactly while `stop_count` is positive. -/
theorem fcRun_paused : ∀ (ops : List (GcsThread α × FcOp)) {w w' : FcWorld α}, w.rx.PausedOk →
    fcRun w ops = some w' → (w'.rx.paused = true ↔ 0 < w'.rx.stopCount)
  | [], _, _, h, hrun => by cases hrun; exact h
  | _ :: ops, _, _, h, hrun => by
    obtain ⟨w₁, m, hrest⟩ := fcRun_cons hrun
    exact fcRun_paused ops (m.pausedOk h) hrest

end runs

/-! ## §6. The order of the events -/

/-- With `gcs.fc_limit` 1 (both limits 1), the receive thread queues two
    actions: the second passes `gcs_fc_stop_begin`, and `gcs_fc_stop_end`
    counts the STOP and releases `fc_lock`.  Before it sends, an applier
    takes an action: `gcs_fc_cont_begin` sees `stop_sent_` 1, and
    `gcs_fc_cont_end` counts the CONT down and sends it first.  The
    node's events in configuration 1 are CONT, STOP; a member that
    handles them counts -1 and then 0, and ends with the monitor running
    although the node's last event is a STOP.  If instead the STOP fails
    after the CONT was sent, taking it back leaves `stop_sent_` at -1. -/
theorem fc_cont_overtakes_stop :
    (∃ w, fcRun (FcWorld.init ⟨1, 0, false⟩
          { stopSent := 0, queueLen := 0, upperLimit := 1, lowerLimit := 1, fcOffset := 0,
            fcStateOk := true, qlen := 0, log := [] } : FcWorld Unit)
        [(.recv, .queueAction), (.recv, .queueAction), (.recv, .lock), (.applier (), .recv),
          (.applier (), .lock), (.applier (), .send true), (.recv, .send true), (.applier (), .lock),
          (.recv, .lock), (.recv, .handleFc ⟨1, false⟩)] = some w ∧
      w.tx.log = [⟨1, false⟩, ⟨1, true⟩] ∧ w.tx.stopSent = 0 ∧ w.rx.stopCount = -1 ∧
      ∃ w', fcStep w .recv (.handleFc ⟨1, true⟩) = some w' ∧
        w'.rx.stopCount = 0 ∧ w'.rx.paused = false) ∧
    ∃ w, fcRun (FcWorld.init ⟨1, 0, false⟩
          { stopSent := 0, queueLen := 0, upperLimit := 1, lowerLimit := 1, fcOffset := 0,
            fcStateOk := true, qlen := 0, log := [] } : FcWorld Unit)
        [(.recv, .queueAction), (.recv, .queueAction), (.recv, .lock), (.applier (), .recv),
          (.applier (), .lock), (.recv, .send false), (.applier (), .send true), (.recv, .lock)] =
        some w ∧
      w.tx.stopSent = -1 ∧ w.tx.log = [⟨1, false⟩] :=
  ⟨⟨_, rfl, rfl, rfl, rfl, _, rfl, rfl, rfl⟩, _, rfl, rfl, rfl⟩

end Galera.Gcs
