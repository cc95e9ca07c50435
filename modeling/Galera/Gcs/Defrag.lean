/-
  Galera.Gcs.Defrag
  ─────────────────
  **REASSEMBLING ACTIONS FROM FRAGMENTS (`gcs_defrag.cpp`).**

  An action larger than one message travels as fragments numbered from
  0, each carrying the action's id, type and total size.  Every member
  keeps, per sender and channel, a defragmenter `gcs_defrag_t`;
  `gcs_defrag_handle_frag` appends a fragment to the action in progress
  and hands the action up once `received` reaches `size`.

  A configuration change marks a defragmenter `reset`.  A remote
  sender's partial action is dropped with it, and that sender's later
  fragments are ignored up to its next first fragment.  The local node
  keeps its own partial action, which its sender thread resends from
  fragment 0 under the same id.

    * `Defrag.Wf` — `received` counts the buffer, and an empty
      defragmenter is at fragment 0; `handleFrag_wf` keeps it;
    * `handleFrag_local_eq` — whether the sender is local changes the
      outcome only where one of the two calls takes a branch the source
      marks `assert(0)`;
    * `handleFrags_actFrags` — the fragments of one action, numbered
      from 0 and each non-empty, fed in order to an empty defragmenter:
      every call but the last takes the fragment in, and the last hands
      up the whole action.

  The buffer is the list of bytes between `head` and `tail`; the gcache
  allocation behind it is not modelled.
-/
import Mathlib

namespace Galera.Gcs

/-! ## §1. Actions and fragments -/

/-- `EPROTO`. -/
def errnoEproto : Int := 71

/-- `ERESTART`. -/
def errnoErestart : Int := 85

/-- `gcs_act_type_t`. -/
inductive ActType
  | tordered | commitCut | stateReq | conf | join | sync | flow | service | error
  | inconsistency | unknown
  deriving DecidableEq, Repr

/-- `gcs_act_frag_t`, with `frag_len` the length of `frag`. -/
structure ActFrag (α : Type) where
  actId : Int
  actSize : Nat
  frag : List α
  fragNo : Nat
  actType : ActType
  protoVer : Int
  deriving DecidableEq, Repr

/-! ## §2. The defragmenter -/

/-- `gcs_defrag_t`; `buf` holds the bytes between `head` and `tail`. -/
structure Defrag (α : Type) where
  sentId : Int
  buf : List α
  size : Nat
  received : Nat
  fragNo : Nat
  reset : Bool
  deriving DecidableEq, Repr

variable {α : Type}

/-- `gcs_defrag_init`: every field zero, `sent_id` `GCS_SEQNO_ILL`. -/
def gcsDefragInit : Defrag α :=
  { sentId := -1, buf := [], size := 0, received := 0, fragNo := 0, reset := false }

/-- `gcs_defrag_reset`: mark the current action as reset. -/
def gcsDefragReset (df : Defrag α) : Defrag α := { df with reset := true }

/-- What `gcs_defrag_handle_frag` returns, by the branch that returns it:
    a fragment taken in, one ignored after a reset, a duplicate skipped,
    the complete action, or `-EPROTO`. -/
inductive FragRet (α : Type)
  | cont
  | ignored
  | duplicate
  | full (buf : List α)
  | eproto
  deriving DecidableEq, Repr

/-- The return value of `gcs_defrag_handle_frag`. -/
def FragRet.ret : FragRet α → Int
  | .full buf => buf.length
  | .eproto => -errnoEproto
  | _ => 0

/-- The branches the source marks `assert(0)`: a duplicate fragment and an
    unordered one. -/
def FragRet.unexpected : FragRet α → Bool
  | .duplicate => true
  | .eproto => true
  | _ => false

/-- The tail of `gcs_defrag_handle_frag` that every accepting branch runs:
    copy the fragment in, and hand the action up and reinitialise once
    `received` reaches `size`. -/
def Defrag.append (df : Defrag α) (frg : ActFrag α) : Defrag α × FragRet α :=
  let received := df.received + frg.frag.length
  let buf := df.buf ++ frg.frag
  if received = df.size then (gcsDefragInit, .full buf)
  else ({ df with received := received, buf := buf }, .cont)

/-- `gcs_defrag_handle_frag`. -/
def Defrag.handleFrag (df : Defrag α) (frg : ActFrag α) (isLocal : Bool) :
    Defrag α × FragRet α :=
  if df.received ≠ 0 then
    -- another fragment of the action in progress
    let fragNo := df.fragNo + 1
    if df.sentId ≠ frg.actId ∨ fragNo ≠ frg.fragNo then
      if isLocal ∧ df.reset ∧ df.sentId = frg.actId ∧ frg.fragNo = 0 then
        -- the local action was aborted halfway and is being resent
        Defrag.append { df with fragNo := 0, received := 0, buf := [], reset := false,
                                size := frg.actSize } frg
      else if frg.actId = df.sentId ∧ frg.fragNo < fragNo then (df, .duplicate)
      else (df, .eproto)
    else Defrag.append { df with fragNo := fragNo } frg
  else if frg.fragNo = 0 then
    -- a new action
    Defrag.append { df with size := frg.actSize, sentId := frg.actId, reset := false,
                            buf := [] } frg
  else if !isLocal ∧ df.reset then
    -- a remote action whose first fragments went with a configuration change
    (df, .ignored)
  else (df, .eproto)

/-! ## §3. Well-formedness -/

/-- A defragmenter whose `received` counts its buffer, and that is at
    fragment 0 while empty. -/
structure Defrag.Wf (df : Defrag α) : Prop where
  received_eq : df.received = df.buf.length
  fragNo_eq : df.received = 0 → df.fragNo = 0

theorem gcsDefragInit_wf : (gcsDefragInit : Defrag α).Wf :=
  ⟨rfl, fun _ => rfl⟩

/-- `append` keeps well-formedness when the fragment count it starts from
    is 0 on an empty buffer. -/
theorem append_wf {df : Defrag α} (frg : ActFrag α) (h : df.received = df.buf.length)
    (h0 : df.received = 0 → df.fragNo = 0) : (df.append frg).1.Wf := by
  unfold Defrag.append
  dsimp only
  split
  · exact gcsDefragInit_wf
  · refine ⟨by simp [h], fun h' => h0 (by simp only at h'; omega)⟩

theorem handleFrag_wf {df : Defrag α} (h : df.Wf) (frg : ActFrag α) (isLocal : Bool) :
    (df.handleFrag frg isLocal).1.Wf := by
  have hr := h.received_eq
  unfold Defrag.handleFrag
  dsimp only
  by_cases hrec : df.received ≠ 0
  · -- an action in progress: `received` stays positive unless reinitialised
    rw [if_pos hrec]
    by_cases hmis : df.sentId ≠ frg.actId ∨ df.fragNo + 1 ≠ frg.fragNo
    · rw [if_pos hmis]
      split
      · exact append_wf frg rfl (fun _ => rfl)
      · split <;> exact h
    · rw [if_neg hmis]
      exact append_wf frg hr (fun h' => absurd h' hrec)
  · rw [if_neg hrec]
    have h0 : df.received = 0 := not_not.mp hrec
    split
    · exact append_wf frg (by simp [h0]) (fun _ => h.fragNo_eq h0)
    · split <;> exact h

/-! ## §4. Where the sender's locality matters -/

/-- Whether the sender is local changes what `gcs_defrag_handle_frag` does
    only when one of the two runs takes an `assert(0)` branch. -/
theorem handleFrag_local_eq (df : Defrag α) (frg : ActFrag α)
    (hl : (df.handleFrag frg true).2.unexpected = false)
    (hr : (df.handleFrag frg false).2.unexpected = false) :
    df.handleFrag frg true = df.handleFrag frg false := by
  unfold Defrag.handleFrag at hl hr ⊢
  dsimp only at hl hr ⊢
  by_cases hrec : df.received ≠ 0
  · simp only [if_pos hrec] at hl hr ⊢
    by_cases hmis : df.sentId ≠ frg.actId ∨ df.fragNo + 1 ≠ frg.fragNo
    · simp only [if_pos hmis] at hl hr ⊢
      -- the remote run never reinitialises: it reports a duplicate or `EPROTO`
      have hno : ¬(false = true ∧ df.reset = true ∧ df.sentId = frg.actId ∧ frg.fragNo = 0) :=
        fun h => Bool.false_ne_true h.1
      rw [if_neg hno] at hr
      split_ifs at hr <;> simp [FragRet.unexpected] at hr
    · simp only [if_neg hmis]
  · simp only [if_neg hrec] at hl hr ⊢
    by_cases h0 : frg.fragNo = 0
    · simp only [if_pos h0]
    · simp only [if_neg h0] at hl hr ⊢
      -- the local run reports `EPROTO` for a fragment that is not first
      have hno : ¬((!true) = true ∧ df.reset = true) := fun h => Bool.false_ne_true h.1
      rw [if_neg hno] at hl
      simp [FragRet.unexpected] at hl

/-! ## §5. A whole action in order -/

/-- The defragmenter fed fragments in order: the final defragmenter and
    what each call returned. -/
def Defrag.handleFrags (df : Defrag α) (isLocal : Bool) :
    List (ActFrag α) → Defrag α × List (FragRet α)
  | [] => (df, [])
  | frg :: frgs =>
    let r := df.handleFrag frg isLocal
    let rest := r.1.handleFrags isLocal frgs
    (rest.1, r.2 :: rest.2)

/-- The fragments of the action that `frg` heads, one per slice, numbered
    from `k`. -/
def actFrags (frg : ActFrag α) (k : Nat) : List (List α) → List (ActFrag α)
  | [] => []
  | c :: cs => { frg with frag := c, fragNo := k } :: actFrags frg (k + 1) cs

theorem handleFrags_cons_of_eq {df df' : Defrag α} {isLocal : Bool} {frg : ActFrag α}
    {r : FragRet α} (h : df.handleFrag frg isLocal = (df', r)) (frgs : List (ActFrag α)) :
    df.handleFrags isLocal (frg :: frgs) =
      ((df'.handleFrags isLocal frgs).1, r :: (df'.handleFrags isLocal frgs).2) := by
  simp [Defrag.handleFrags, h]

@[simp] theorem length_actFrags (frg : ActFrag α) (k : Nat) (cs : List (List α)) :
    (actFrags frg k cs).length = cs.length := by
  induction cs generalizing k with
  | nil => rfl
  | cons c cs ih => simp [actFrags, ih]

/-- The fragments after the first, into a defragmenter holding the first
    ones: induction on the slices, the defragmenter's count keeping pace
    with the fragment numbers. -/
theorem handleFrags_actFrags_rest (frg : ActFrag α) (isLocal : Bool) :
    ∀ (cs : List (List α)) (df : Defrag α) (k : Nat), (∀ c ∈ cs, c ≠ []) → cs ≠ [] →
      df.received ≠ 0 → df.received = df.buf.length → df.sentId = frg.actId →
      df.fragNo = k → df.received + cs.flatten.length = df.size →
      df.handleFrags isLocal (actFrags frg (k + 1) cs) =
        (gcsDefragInit, List.replicate (cs.length - 1) .cont ++ [.full (df.buf ++ cs.flatten)])
  | [], _, _, _, hne, _, _, _, _, _ => absurd rfl hne
  | c :: cs, df, k, hcs, _, hrec, hbuf, hid, hfno, hsize => by
    -- the fragment is the expected next one, so it is appended
    have hstep : df.handleFrag { frg with frag := c, fragNo := k + 1 } isLocal =
        Defrag.append { df with fragNo := k + 1 } { frg with frag := c, fragNo := k + 1 } := by
      unfold Defrag.handleFrag
      simp [hrec, hid, hfno]
    have hc : c ≠ [] := hcs c (by simp)
    cases cs with
    | nil =>
      -- the last slice completes the action
      have hdone : df.received + c.length = df.size := by simpa using hsize
      simp [Defrag.handleFrags, actFrags, hstep, Defrag.append, hdone]
    | cons c' cs =>
      -- more slices follow, so the action is not complete yet
      have hc' : c' ≠ [] := hcs c' (by simp)
      have hlt : df.received + c.length ≠ df.size := by
        have : c'.length ≠ 0 := by simpa using hc'
        simp at hsize
        omega
      have happ : Defrag.append { df with fragNo := k + 1 } { frg with frag := c, fragNo := k + 1 } =
          ({ df with fragNo := k + 1, received := df.received + c.length, buf := df.buf ++ c },
            .cont) := by
        simp [Defrag.append, hlt]
      have ih := handleFrags_actFrags_rest frg isLocal (c' :: cs)
        { df with fragNo := k + 1, received := df.received + c.length, buf := df.buf ++ c } (k + 1)
        (fun x hx => hcs x (List.mem_cons_of_mem _ hx)) (by simp) (by simp; omega)
        (by simp [hbuf]) hid rfl (by simp at hsize ⊢; omega)
      rw [actFrags, handleFrags_cons_of_eq (hstep.trans happ), ih]
      simp [List.replicate_succ]

/-- **A whole action in order.**  The fragments of an action numbered
    from 0, each non-empty and together as long as the action, fed in
    order to an empty defragmenter: every call but the last returns 0 and
    the last hands up their concatenation. -/
theorem handleFrags_actFrags (frg : ActFrag α) (isLocal : Bool) {df : Defrag α} (h : df.Wf)
    (h0 : df.received = 0) (cs : List (List α)) (hcs : ∀ c ∈ cs, c ≠ []) (hne : cs ≠ [])
    (hsize : cs.flatten.length = frg.actSize) :
    df.handleFrags isLocal (actFrags frg 0 cs) =
      (gcsDefragInit, List.replicate (cs.length - 1) .cont ++ [.full cs.flatten]) := by
  obtain ⟨c, cs, rfl⟩ := List.exists_cons_of_ne_nil hne
  have hc : c ≠ [] := hcs c (by simp)
  -- the first fragment starts a new action
  have hstep : df.handleFrag { frg with frag := c, fragNo := 0 } isLocal =
      Defrag.append { df with size := frg.actSize, sentId := frg.actId, reset := false, buf := [] }
        { frg with frag := c, fragNo := 0 } := by
    unfold Defrag.handleFrag
    simp [h0]
  have hfno : df.fragNo = 0 := h.fragNo_eq h0
  cases cs with
  | nil =>
    have hdone : df.received + c.length = frg.actSize := by simpa [h0] using hsize
    simp [Defrag.handleFrags, actFrags, hstep, Defrag.append, hdone]
  | cons c' cs =>
    have hc' : c' ≠ [] := hcs c' (by simp)
    have hlt : df.received + c.length ≠ frg.actSize := by
      have : c'.length ≠ 0 := by simpa using hc'
      simp at hsize
      omega
    have happ : Defrag.append
          { df with size := frg.actSize, sentId := frg.actId, reset := false, buf := [] }
          { frg with frag := c, fragNo := 0 } =
        ({ df with
            size := frg.actSize, sentId := frg.actId, reset := false,
            received := df.received + c.length, buf := c }, .cont) := by
      simp [Defrag.append, hlt]
    have hrest := handleFrags_actFrags_rest frg isLocal (c' :: cs)
      { df with
          size := frg.actSize, sentId := frg.actId, reset := false,
          received := df.received + c.length, buf := c } 0
      (fun x hx => hcs x (List.mem_cons_of_mem _ hx)) (by simp)
      (by simp [h0]; simpa using hc) (by simp [h0]) rfl hfno (by simp at hsize ⊢; omega)
    rw [actFrags, handleFrags_cons_of_eq (hstep.trans happ), hrest]
    simp [List.replicate_succ]

end Galera.Gcs
