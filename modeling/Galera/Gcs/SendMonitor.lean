/-
  Galera.Gcs.SendMonitor
  ──────────────────────
  **THE SEND MONITOR (`gcs_sm.hpp`, `gcs_sm.cpp`).**

  The send monitor orders the threads that send through `gcs_core`.  A
  thread takes the next slot of a ring of `wait_q_len` slots
  (`gcs_sm_schedule`), waits on its own condition until the threads
  before it have left, and enters (`gcs_sm_enter`).  `gcs_sm_leave` moves
  the head on and signals the next waiter; a slot whose waiter was
  interrupted or timed out is skipped.  `gcs_sm_grab` enters out of turn,
  `gcs_sm_pause` stops the hand-over, `gcs_sm_close` fails every later
  schedule and drains the queue.

  Every critical section of the source is one step (`smStep`) of one
  thread.  Between two steps a thread is in an `SmPc` state: outside the
  monitor, waiting on its condition at a slot, inside, waiting in
  `gcs_sm_grab`, or in one of the two loops of `gcs_sm_close`.  A wait on
  a thread's own condition ends after a signal to it, or, in the timed
  wait of `gcs_sm_enter (block = false)`, by a timeout at any time; a
  signal to a thread that is not waiting is lost.  A signal to the
  monitor's own condition `sm->cond` is counted in `condSignals` until a
  `gcs_sm_grab` waiter takes it.  Without `GCS_SM_CONCURRENCY`,
  `GCS_SM_CC` is 1.

  The statistics, `users_min`, `users_max` and `wait_time` are not
  modelled; a timed wait may time out whatever its period.
-/
import Mathlib

namespace Galera.Gcs

open Function (update)

/-! ## §1. The monitor -/

/-- `EAGAIN`. -/
def errnoEagain : Int := 11

/-- `EBADFD`. -/
def errnoEbadfd : Int := 77

/-- `EINTR`. -/
def errnoEintr : Int := 4

/-- `ETIMEDOUT`. -/
def errnoEtimedout : Int := 110

/-- `ESRCH`. -/
def errnoEsrch : Int := 3

/-- `GCS_SM_CC` without `GCS_SM_CONCURRENCY`. -/
def gcsSmCc : Int := 1

/-- `gcs_sm_user_t`: the condition of the slot's waiter, by the thread
    that waits on it, and whether it still waits. -/
structure SmUser (τ : Type) where
  cond : Option τ
  wait : Bool
  deriving DecidableEq, Repr

/-- A cleared slot: `cond` NULL, `wait` false. -/
def SmUser.empty {τ : Type} : SmUser τ := ⟨none, false⟩

/-- `gcs_sm_t`: the fields of the queue discipline. -/
structure Sm (τ : Type) where
  condWait : Nat
  waitQLen : Nat
  waitQMask : Nat
  waitQHead : Nat
  waitQTail : Nat
  users : Int
  entered : Int
  ret : Int
  pause : Bool
  waitQ : Nat → SmUser τ

variable {τ : Type}

/-- `GCS_SM_INCREMENT`. -/
def Sm.increment (sm : Sm τ) (cursor : Nat) : Nat := (cursor + 1) &&& sm.waitQMask

/-- `GCS_SM_HAS_TO_WAIT`. -/
def Sm.hasToWait (sm : Sm τ) : Bool :=
  decide (1 < sm.users) || decide (gcsSmCc ≤ sm.entered) || sm.pause

/-- `gcs_sm_create`: a length that is not a power of 2 of at least 2, or
    a concurrency below 1, is refused. -/
def gcsSmCreate (len : Nat) (n : Int) : Option (Sm τ) :=
  if len < 2 ∨ len &&& (len - 1) ≠ 0 then none
  else if n < 1 then none
  else some { condWait := 0, waitQLen := len, waitQMask := len - 1, waitQHead := 1,
              waitQTail := 0, users := 0, entered := 0, ret := 0, pause := false,
              waitQ := fun _ => SmUser.empty }

/-- `gcs_sm_schedule`: the monitor and the return value.  On success the
    tail moves on, and the return value is the waiter's handle if the
    thread has to wait. -/
def gcsSmSchedule (sm : Sm τ) : Sm τ × Int :=
  let ret := sm.ret
  if sm.users < sm.waitQLen ∧ ret = 0 then
    let sm := { sm with users := sm.users + 1, waitQTail := sm.increment sm.waitQTail }
    (sm, if sm.hasToWait then sm.waitQTail + 1 else ret)
  else if ret = 0 then (sm, -errnoEagain)
  else (sm, ret)

/-- The first half of `_gcs_sm_enqueue_common`: the slot records the
    thread's condition and that it waits. -/
def Sm.enqueue (sm : Sm τ) (i : τ) (tail : Nat) : Sm τ :=
  { sm with waitQ := update sm.waitQ tail ⟨some i, true⟩ }

/-- The second half, once the wait returned `waitRet`: 0 if the slot
    still waits, `-EINTR` if it was interrupted, or the wait's own error;
    the slot is cleared. -/
def Sm.dequeue (sm : Sm τ) (tail : Nat) (waitRet : Int) : Sm τ × Int :=
  let ret := if waitRet = 0 then (if (sm.waitQ tail).wait then 0 else -errnoEintr) else waitRet
  ({ sm with waitQ := update sm.waitQ tail SmUser.empty }, ret)

/-! ## §2. The threads -/

/-- Where a thread stands between two critical sections of the monitor. -/
inductive SmPc
  | idle
  | waiting (tail : Nat) (block signalled : Bool)
  | inside
  | grabWaiting
  | grabbed
  | closeSpin
  | closeWaiting (tail : Nat) (signalled : Bool)
  deriving DecidableEq, Repr

/-- A signal to a thread's own condition wakes it if it waits there. -/
def SmPc.signal : SmPc → SmPc
  | .waiting tail block _ => .waiting tail block true
  | .closeWaiting tail _ => .closeWaiting tail true
  | pc => pc

/-- The monitor and its threads; `condSignals` counts the signals to
    `sm->cond` no waiter has taken yet, and `lastRet` what each thread's
    last finished call returned. -/
structure SmWorld (τ : Type) where
  sm : Sm τ
  pc : τ → SmPc
  condSignals : Nat
  lastRet : τ → Int

/-- The monitor just created, every thread outside it. -/
def SmWorld.init (sm : Sm τ) : SmWorld τ :=
  { sm, pc := fun _ => .idle, condSignals := 0, lastRet := fun _ => 0 }

variable [DecidableEq τ]

/-- The thread moves to `pc`. -/
def SmWorld.setPc (w : SmWorld τ) (i : τ) (pc : SmPc) : SmWorld τ :=
  { w with pc := update w.pc i pc }

/-- The thread's call returns `ret`, leaving it at `pc`. -/
def SmWorld.finish (w : SmWorld τ) (i : τ) (pc : SmPc) (ret : Int) : SmWorld τ :=
  { w with pc := update w.pc i pc, lastRet := update w.lastRet i ret }

/-- `gu_cond_signal` of a slot's condition (NULL signals nobody). -/
def SmWorld.signal (w : SmWorld τ) : Option τ → SmWorld τ
  | none => w
  | some i => w.setPc i (w.pc i).signal

/-! ## §3. The helpers of `gcs_sm.hpp` -/

/-- The loop of `_gcs_sm_wake_up_next`: signal the waiter at the head, or
    skip an interrupted slot and look again.  Every skip lowers `users`,
    so `users + 1` rounds are enough. -/
def gcsSmWakeUpNextLoop : Nat → SmWorld τ → SmWorld τ
  | 0, w => w
  | fuel + 1, w =>
    if w.sm.entered < gcsSmCc ∧ 0 < w.sm.users then
      let u := w.sm.waitQ w.sm.waitQHead
      if u.wait then w.signal u.cond
      else
        -- skip interrupted
        gcsSmWakeUpNextLoop fuel
          { w with sm := { w.sm with users := w.sm.users - 1,
                                     waitQHead := w.sm.increment w.sm.waitQHead } }
    else w

/-- `_gcs_sm_wake_up_next`. -/
def gcsSmWakeUpNext (w : SmWorld τ) : SmWorld τ :=
  gcsSmWakeUpNextLoop (w.sm.users.toNat + 1) w

/-- `_gcs_sm_wake_up_waiters`: a `gcs_sm_grab` waiter first; the next
    queue waiter unless paused. -/
def gcsSmWakeUpWaiters (w : SmWorld τ) : SmWorld τ :=
  if w.sm.condWait ≠ 0 then
    { w with sm := { w.sm with condWait := w.sm.condWait - 1 }, condSignals := w.condSignals + 1 }
  else if !w.sm.pause then gcsSmWakeUpNext w
  else w

/-- `_gcs_sm_leave_common`: the head slot is given up. -/
def gcsSmLeaveCommon (w : SmWorld τ) : SmWorld τ :=
  gcsSmWakeUpWaiters
    { w with sm := { w.sm with users := w.sm.users - 1,
                               waitQHead := w.sm.increment w.sm.waitQHead } }

/-- `_gcs_sm_continue_common`. -/
def gcsSmContinueCommon (w : SmWorld τ) : SmWorld τ :=
  gcsSmWakeUpNext { w with sm := { w.sm with pause := false } }

/-! ## §4. The calls, one critical section each -/

/-- The end of `gcs_sm_enter` once its loop is over with `ret`: enter, or
    fail, giving up the head slot if the thread holds it. -/
def gcsSmEnterExit (w : SmWorld τ) (i : τ) (tail : Nat) (ret : Int) : SmWorld τ :=
  if ret = 0 then
    { w with sm := { w.sm with entered := w.sm.entered + 1 } }.finish i .inside 0
  else if tail ≠ w.sm.waitQHead then
    -- interrupted in the middle, handled by the thread whose tail is the head
    w.finish i .idle ret
  else gcsSmLeaveCommon (w.finish i .idle ret)

/-- `gcs_sm_enter (sm, cond, false, block)` up to its first wait: schedule,
    then queue at the new tail if the thread has to wait. -/
def gcsSmEnter (w : SmWorld τ) (i : τ) (block : Bool) : SmWorld τ :=
  let (sm, ret) := gcsSmSchedule w.sm
  if 0 ≤ ret then
    let tail := sm.waitQTail
    if sm.hasToWait then { w with sm := sm.enqueue i tail }.setPc i (.waiting tail block false)
    else gcsSmEnterExit { w with sm } i tail 0
  else w.finish i .idle ret

/-- The loop of `gcs_sm_enter` after a wait returned `ret`: queue again
    while another thread is inside, else leave the loop. -/
def gcsSmEnterResume (w : SmWorld τ) (i : τ) (tail : Nat) (block : Bool) (ret : Int) :
    SmWorld τ :=
  if ret = 0 then
    if gcsSmCc ≤ w.sm.entered ∧ 0 ≤ w.sm.ret then
      { w with sm := w.sm.enqueue i tail }.setPc i (.waiting tail block false)
    else gcsSmEnterExit w i tail w.sm.ret
  else gcsSmEnterExit w i tail ret

/-- A waiter of `gcs_sm_enter` wakes up after a signal. -/
def gcsSmEnterWake (w : SmWorld τ) (i : τ) (tail : Nat) (block : Bool) : SmWorld τ :=
  let (sm, ret) := w.sm.dequeue tail 0
  gcsSmEnterResume { w with sm } i tail block ret

/-- The timed wait of `gcs_sm_enter (block = false)` times out. -/
def gcsSmEnterTimeout (w : SmWorld τ) (i : τ) (tail : Nat) : SmWorld τ :=
  let (sm, ret) := w.sm.dequeue tail (-errnoEtimedout)
  gcsSmEnterResume { w with sm } i tail false ret

/-- `gcs_sm_leave`. -/
def gcsSmLeave (w : SmWorld τ) (i : τ) : SmWorld τ :=
  gcsSmLeaveCommon ({ w with sm := { w.sm with entered := w.sm.entered - 1 } }.setPc i .idle)

/-- `gcs_sm_pause`: a closed monitor is not paused. -/
def gcsSmPause (w : SmWorld τ) (i : τ) : SmWorld τ :=
  let w := if w.sm.ret = 0 ∧ !w.sm.pause then { w with sm := { w.sm with pause := true } } else w
  w.setPc i .idle

/-- `gcs_sm_continue`. -/
def gcsSmContinue (w : SmWorld τ) (i : τ) : SmWorld τ :=
  let w := if w.sm.pause then gcsSmContinueCommon w else w
  w.setPc i .idle

/-- `gcs_sm_interrupt` of the waiter with `handle`: 0, or `-ESRCH` if
    its slot does not wait. -/
def gcsSmInterrupt (w : SmWorld τ) (i : τ) (handle : Nat) : SmWorld τ :=
  let h := handle - 1
  let u := w.sm.waitQ h
  if u.wait then
    let w := ({ w with sm := { w.sm with waitQ := update w.sm.waitQ h SmUser.empty } }).signal u.cond
    -- signalled but not yet awake at the head: wake up the next waiter
    let w := if !w.sm.pause ∧ h = w.sm.waitQHead then gcsSmWakeUpNext w else w
    w.finish i .idle 0
  else w.finish i .idle (-errnoEsrch)

/-- The loop of `gcs_sm_grab`, on entry or after a wake-up. -/
def gcsSmGrabLoop (w : SmWorld τ) (i : τ) : SmWorld τ :=
  if w.sm.ret = 0 ∧ gcsSmCc ≤ w.sm.entered then
    { w with sm := { w.sm with condWait := w.sm.condWait + 1 } }.setPc i .grabWaiting
  else if w.sm.ret ≠ 0 then (gcsSmWakeUpWaiters w).finish i .idle w.sm.ret
  else { w with sm := { w.sm with entered := w.sm.entered + 1 } }.finish i .grabbed 0

/-- `gcs_sm_release`. -/
def gcsSmRelease (w : SmWorld τ) (i : τ) : SmWorld τ :=
  gcsSmWakeUpWaiters ({ w with sm := { w.sm with entered := w.sm.entered - 1 } }.setPc i .idle)

/-- The drain loop of `gcs_sm_close`: while there are users, queue behind
    them and wait. -/
def gcsSmCloseDrain (w : SmWorld τ) (i : τ) : SmWorld τ :=
  if 0 < w.sm.users then
    let sm := { w.sm with users := w.sm.users + 1, waitQTail := w.sm.increment w.sm.waitQTail }
    { w with sm := sm.enqueue i sm.waitQTail }.setPc i (.closeWaiting sm.waitQTail false)
  else w.finish i .idle 0

/-- The full-queue loop of `gcs_sm_close`: sleep while the queue is full,
    then drain. -/
def gcsSmCloseSpin (w : SmWorld τ) (i : τ) : SmWorld τ :=
  if (w.sm.waitQLen : Int) ≤ w.sm.users then w.setPc i .closeSpin
  else gcsSmCloseDrain w i

/-- `gcs_sm_close` up to its loops. -/
def gcsSmClose (w : SmWorld τ) (i : τ) : SmWorld τ :=
  let w := { w with sm := { w.sm with ret := -errnoEbadfd } }
  let w := if w.sm.pause then gcsSmContinueCommon w else w
  gcsSmCloseSpin w i

/-- The closing thread wakes up at the head: it gives the slot up and
    drains on. -/
def gcsSmCloseWake (w : SmWorld τ) (i : τ) (tail : Nat) : SmWorld τ :=
  let sm := (w.sm.dequeue tail 0).1
  gcsSmCloseDrain
    { w with sm := { sm with users := sm.users - 1, waitQHead := sm.increment sm.waitQHead } } i

/-- `gcs_sm_open`: a closed monitor opens; the return value is the state. -/
def gcsSmOpen (w : SmWorld τ) (i : τ) : SmWorld τ :=
  let w := if w.sm.ret = -errnoEbadfd then { w with sm := { w.sm with ret := 0 } } else w
  w.finish i .idle w.sm.ret

/-! ## §5. Steps and runs -/

/-- What a thread does next: call the monitor, or return from a wait. -/
inductive SmOp
  | enter (block : Bool)
  | wake
  | timeout
  | leave
  | pause
  | cont
  | interrupt (handle : Nat)
  | grab
  | release
  | close
  | closeRetry
  | open
  deriving DecidableEq, Repr

/-- One step of thread `i`, if its state allows it: the calls start from
    outside the monitor, a wait returns after a signal (or times out), and
    `gcs_sm_leave` and `gcs_sm_release` follow a successful enter and
    grab.  A handle is one `gcs_sm_schedule` can return. -/
def smStep (w : SmWorld τ) (i : τ) : SmOp → Option (SmWorld τ)
  | .enter block => if w.pc i = .idle then some (gcsSmEnter w i block) else none
  | .wake =>
    match w.pc i with
    | .waiting tail block true => some (gcsSmEnterWake w i tail block)
    | .grabWaiting =>
      if 0 < w.condSignals then some (gcsSmGrabLoop { w with condSignals := w.condSignals - 1 } i)
      else none
    | .closeWaiting tail true => some (gcsSmCloseWake w i tail)
    | _ => none
  | .timeout =>
    match w.pc i with
    | .waiting tail false _ => some (gcsSmEnterTimeout w i tail)
    | _ => none
  | .leave => if w.pc i = .inside then some (gcsSmLeave w i) else none
  | .pause => if w.pc i = .idle then some (gcsSmPause w i) else none
  | .cont => if w.pc i = .idle then some (gcsSmContinue w i) else none
  | .interrupt handle =>
    if w.pc i = .idle ∧ 0 < handle ∧ handle ≤ w.sm.waitQLen then some (gcsSmInterrupt w i handle)
    else none
  | .grab => if w.pc i = .idle then some (gcsSmGrabLoop w i) else none
  | .release => if w.pc i = .grabbed then some (gcsSmRelease w i) else none
  | .close => if w.pc i = .idle then some (gcsSmClose w i) else none
  | .closeRetry => if w.pc i = .closeSpin then some (gcsSmCloseSpin w i) else none
  | .open => if w.pc i = .idle then some (gcsSmOpen w i) else none

/-- A run: the steps in order; a step its thread cannot take ends it. -/
def smRun (w : SmWorld τ) : List (τ × SmOp) → Option (SmWorld τ)
  | [] => some w
  | (i, op) :: ops => (smStep w i op).bind fun w' => smRun w' ops

/-- A run on the monitor `gcs_sm_create (len, n)` returns, every thread
    outside it. -/
def smRunCreated (len : Nat) (n : Int) (ops : List (τ × SmOp)) : Option (SmWorld τ) :=
  (gcsSmCreate len n).bind fun sm => smRun (SmWorld.init sm) ops

end Galera.Gcs
