/-
  Galera.Gcs.CommitCut
  ────────────────────
  **THE CACHED COMMIT CUT (`group_redo_last_applied`).**

  The group caches the commit cut `last_applied` and the index
  `last_node` of a node that holds it.  It recomputes the two by a full
  scan of the nodes only after a primary component, after a SYNC, and
  after a LAST message from `last_node` that raises it; any other LAST
  only records the sender's value.  `CutOk` says that the cache is exact:
  once some node is counted, `last_node` indexes a counted node whose
  `last_applied` is the cut, and no counted node has less.

    * `groupRedoLastApplied_cutOk` — the full scan makes the cache exact;
    * `cutOk_of_forall₂` — a change that keeps which nodes are counted,
      lowers no node's `last_applied` and leaves `last_node`'s value alone
      keeps it exact;
    * `cutInv_groupStep` — every LAST, JOIN, SYNC, STATE_UUID and ACTION
      message, every state transfer request and every primary or
      bootstrapping component keeps `CutInv`;
    * `handleLastMsg_exact` — on an exact cache the lazy recomputation of
      `gcs_group_handle_last_msg` gives the cut a full scan gives;
    * `commit_cut_exact_between_exchanges` — hence along every run of those
      messages;
    * `commit_cut_stale_after_exchange` — the end of a state exchange
      counts the nodes anew without a scan: `last_node` can be left on a
      node that is no longer counted, and LAST messages from the others
      then leave the cut below what a full scan gives.
-/
import Mathlib
import Galera.Gcs.Group
import Galera.Lib.ArgMin
import Galera.Lib.ListRel

namespace Galera.Gcs

open Galera.ArgMin Galera.ListRel

variable {α : Type}

/-! ## §1. Which nodes count -/

/-- Whether `group_redo_last_applied` counts node `n`: by its
    `count_last_applied` flag, or, under `last_applied_proto_ver` 0, by its
    status. -/
def countsLastApplied (protoVer : Int) (n : Node α) : Bool :=
  if protoVer = 0 then decide (n.status = .synced ∨ n.status = .donor) else n.countLastApplied

/-- The loop of `group_redo_last_applied` is the least-key scan over the
    counted nodes, keyed by `last_applied`. -/
theorem redoLastAppliedStep_eq (protoVer : Int) :
    (redoLastAppliedStep protoVer : Int × Int → Node α × Nat → Int × Int) =
      argMinStep (countsLastApplied protoVer) Node.lastApplied := rfl

theorem Group.modifyNode_natCast (g : Group α) (i : Nat) (f : Node α → Node α) :
    g.modifyNode i f = { g with nodes := g.nodes.modify i f } := by
  rw [Group.modifyNode_eq, if_pos (Int.natCast_nonneg i), Int.toNat_natCast]

/-! ## §2. The exact cache and the full scan -/

/-- The cached commit cut is exact: once some node is counted, `last_node`
    indexes a counted node whose `last_applied` is the cut, and no counted
    node has less. -/
def CutOk (g : Group α) : Prop :=
  (∃ n ∈ g.nodes, countsLastApplied g.lastAppliedProtoVer n = true) →
    0 ≤ g.lastNode ∧ ∃ m, g.nodes[g.lastNode.toNat]? = some m ∧
      countsLastApplied g.lastAppliedProtoVer m = true ∧ m.lastApplied = g.lastApplied ∧
      ∀ n ∈ g.nodes, countsLastApplied g.lastAppliedProtoVer n = true →
        g.lastApplied ≤ n.lastApplied

/-- What the handlers keep beside the exact cache: every `last_applied` is
    below `GU_LLONG_MAX`, where the scan starts; no node is in the sentinel
    state MAX; and `last_applied_proto_ver` is 0 only under a quorum of a
    state exchange version below 2, from which it is read. -/
structure CutInv (g : Group α) : Prop where
  cut : CutOk g
  bounded : ∀ n ∈ g.nodes, n.lastApplied < guLlongMax
  noMax : ∀ n ∈ g.nodes, n.status ≠ .max
  protoVer : g.lastAppliedProtoVer = 0 → g.quorum.version < 2

/-- The full scan makes the cache exact. -/
theorem groupRedoLastApplied_cutOk {g : Group α}
    (hb : ∀ n ∈ g.nodes, n.lastApplied < guLlongMax) : CutOk (groupRedoLastApplied g) := by
  rintro ⟨n, hn, hc⟩
  rw [groupRedoLastApplied_eq] at hn hc ⊢
  obtain ⟨hpos, x, hx, hpx, hkx, hlow⟩ := argMin_zipIdx (countsLastApplied g.lastAppliedProtoVer)
    Node.lastApplied g.nodes guLlongMax ⟨n, hn, hc, hb n hn⟩
  simp only [redoLastAppliedStep_eq, ge_iff_le, if_pos hpos]
  exact ⟨hpos, x, hx, hpx, hkx, hlow⟩

/-- When no node is counted the scan leaves the cut alone. -/
theorem groupRedoLastApplied_of_none {g : Group α}
    (h : ∀ n ∈ g.nodes, countsLastApplied g.lastAppliedProtoVer n = false) :
    groupRedoLastApplied g = g := by
  have hnone : ∀ n ∈ g.nodes, countsLastApplied g.lastAppliedProtoVer n = true →
      guLlongMax ≤ n.lastApplied := fun n hn hc => absurd (h n hn) (by simp [hc])
  unfold groupRedoLastApplied
  simp only [redoLastAppliedStep_eq, argMin_zipIdx_of_none _ _ _ _ hnone]
  simp

/-- On an exact cache the full scan finds the cached cut. -/
theorem groupRedoLastApplied_lastApplied_of_cutOk {g : Group α} (h : CutOk g)
    (hb : ∀ n ∈ g.nodes, n.lastApplied < guLlongMax) :
    (groupRedoLastApplied g).lastApplied = g.lastApplied := by
  by_cases hc : ∃ n ∈ g.nodes, countsLastApplied g.lastAppliedProtoVer n = true
  · obtain ⟨-, m, hm, hcm, hvm, hlow⟩ := h hc
    have hr := groupRedoLastApplied_cutOk hb
    simp only [CutOk, groupRedoLastApplied_nodes, groupRedoLastApplied_lastAppliedProtoVer] at hr
    obtain ⟨-, m', hm', hcm', hvm', hlow'⟩ := hr hc
    -- both are the least `last_applied` of the counted nodes
    have hmem : ∀ {l : List (Node α)} {i : Nat} {x : Node α}, l[i]? = some x → x ∈ l :=
      fun hx => List.mem_of_getElem? hx
    exact Int.le_antisymm (hvm ▸ hlow' m (hmem hm) hcm)
      (hvm' ▸ hlow m' (hmem hm') hcm')
  · push Not at hc
    rw [groupRedoLastApplied_of_none (fun n hn => by simpa using hc n hn)]

/-! ## §3. Changes that keep the cache exact -/

/-- A change that keeps which nodes are counted, lowers no node's
    `last_applied` and leaves the value of the node at `last_node` alone
    keeps the cache exact. -/
theorem cutOk_of_forall₂ {g g' : Group α} (h : CutOk g)
    (hpv : g'.lastAppliedProtoVer = g.lastAppliedProtoVer)
    (hla : g'.lastApplied = g.lastApplied) (hln : g'.lastNode = g.lastNode)
    (hr : List.Forall₂ (fun n n' => countsLastApplied g.lastAppliedProtoVer n' =
        countsLastApplied g.lastAppliedProtoVer n ∧ n.lastApplied ≤ n'.lastApplied)
      g.nodes g'.nodes)
    (hlast : ∀ m m', 0 ≤ g.lastNode → g.nodes[g.lastNode.toNat]? = some m →
      g'.nodes[g.lastNode.toNat]? = some m' → m.lastApplied = g.lastApplied →
      m'.lastApplied = m.lastApplied) :
    CutOk g' := by
  rintro ⟨n', hn', hc'⟩
  rw [hpv] at hc'
  obtain ⟨n, hn, hcn, -⟩ := exists_mem_of_forall₂_right hr hn'
  obtain ⟨hpos, m, hm, hcm, hvm, hlow⟩ := h ⟨n, hn, hcn ▸ hc'⟩
  obtain ⟨m', hm', hcm', -⟩ := forall₂_getElem? hr hm
  refine ⟨hln ▸ hpos, m', hln ▸ hm', ?_, ?_, ?_⟩
  · rw [hpv, hcm', hcm]
  · rw [hla, hlast m m' hpos hm hm' hvm, hvm]
  · intro k' hk' hck'
    rw [hpv] at hck'
    obtain ⟨k, hk, hck, hle⟩ := exists_mem_of_forall₂_right hr hk'
    rw [hla]
    exact Int.le_trans (hlow k hk (hck ▸ hck')) hle

/-- A change of the nodes that keeps which nodes are counted and every
    `last_applied`, brings no node into MAX, and keeps the cut, the
    protocol version and the quorum keeps `CutInv`. -/
theorem cutInv_of_forall₂ {g g' : Group α} (h : CutInv g)
    (hr : List.Forall₂ (fun n n' => countsLastApplied g.lastAppliedProtoVer n' =
        countsLastApplied g.lastAppliedProtoVer n ∧ n'.lastApplied = n.lastApplied ∧
        (n.status ≠ .max → n'.status ≠ .max)) g.nodes g'.nodes)
    (hpv : g'.lastAppliedProtoVer = g.lastAppliedProtoVer)
    (hla : g'.lastApplied = g.lastApplied) (hln : g'.lastNode = g.lastNode)
    (hq : g'.quorum = g.quorum) : CutInv g' := by
  refine ⟨cutOk_of_forall₂ h.cut hpv hla hln
    (hr.imp fun n n' hnn => ⟨hnn.1, Int.le_of_eq hnn.2.1.symm⟩) ?_, ?_, ?_, ?_⟩
  · intro m m' _ hm hm' _
    obtain ⟨m'', hm'', hmm⟩ := forall₂_getElem? hr hm
    rw [hm'] at hm''
    cases hm''
    exact hmm.2.1
  · intro n' hn'
    obtain ⟨n, hn, -, hl, -⟩ := exists_mem_of_forall₂_right hr hn'
    exact hl ▸ h.bounded n hn
  · intro n' hn'
    obtain ⟨n, hn, -, -, hs⟩ := exists_mem_of_forall₂_right hr hn'
    exact hs (h.noMax n hn)
  · rw [hpv, hq]
    exact h.protoVer

/-- Updating one node so that it is counted as before, keeps its
    `last_applied` and does not go into MAX keeps `CutInv`. -/
theorem cutInv_modify {g : Group α} (h : CutInv g) (i : Nat) {f : Node α → Node α}
    (hf : ∀ n, g.nodes[i]? = some n →
      countsLastApplied g.lastAppliedProtoVer (f n) = countsLastApplied g.lastAppliedProtoVer n ∧
      (f n).lastApplied = n.lastApplied ∧ (n.status ≠ .max → (f n).status ≠ .max)) :
    CutInv { g with nodes := g.nodes.modify i f } := by
  refine cutInv_of_forall₂ h ?_ rfl rfl rfl rfl
  refine forall₂_modify_right (List.forall₂_same.mpr fun n _ => ⟨rfl, rfl, id⟩) i ?_
  rintro x y hx hy -
  -- both sides read the old array, so `y` is `x`
  rw [hx, Option.some.injEq] at hy
  subst hy
  exact hf x hx

/-- The fields of a node that the commit cut reads. -/
def Node.cutView (n : Node α) : NodeState × Bool × Int :=
  (n.status, n.countLastApplied, n.lastApplied)

theorem countsLastApplied_congr {pv : Int} {n n' : Node α} (hs : n'.status = n.status)
    (hf : n'.countLastApplied = n.countLastApplied) :
    countsLastApplied pv n' = countsLastApplied pv n := by
  simp [countsLastApplied, hs, hf]

/-- A change that keeps every node's status, flag and `last_applied`, and
    the cut itself, keeps `CutInv`. -/
theorem cutInv_of_cutView {g g' : Group α} (h : CutInv g)
    (hv : g'.nodes.map Node.cutView = g.nodes.map Node.cutView)
    (hpv : g'.lastAppliedProtoVer = g.lastAppliedProtoVer)
    (hla : g'.lastApplied = g.lastApplied) (hln : g'.lastNode = g.lastNode)
    (hq : g'.quorum = g.quorum) : CutInv g' := by
  refine cutInv_of_forall₂ h ((forall₂_of_map_eq hv).imp fun n n' hnn => ?_) hpv hla hln hq
  simp only [Node.cutView, Prod.mk.injEq] at hnn
  obtain ⟨hs, hf, hl⟩ := hnn
  exact ⟨countsLastApplied_congr hs hf, hl, hs ▸ id⟩

/-! ## §4. The handlers -/

/-- `gcs_node_set_last_applied` keeps status and flag, and only raises the
    node's value, to the seqno of the message. -/
theorem gcsNodeSetLastApplied_spec (n : Node α) (s : Int) :
    let n' := gcsNodeSetLastApplied n s
    n'.status = n.status ∧ n'.countLastApplied = n.countLastApplied ∧
      n.lastApplied ≤ n'.lastApplied ∧ (n'.lastApplied = n.lastApplied ∨ n'.lastApplied = s) := by
  unfold gcsNodeSetLastApplied
  split
  · exact ⟨rfl, rfl, Int.le_refl _, .inl rfl⟩
  · rename_i h
    exact ⟨rfl, rfl, Int.not_lt.mp h, .inr rfl⟩

/-- A LAST message keeps `CutInv`: a value recorded for a node other than
    `last_node`, or one that does not raise the cut, changes no minimum;
    otherwise the handler scans again. -/
theorem cutInv_handleLastMsg {g : Group α} (h : CutInv g) (i : Nat) {s : Int}
    (hs : s < guLlongMax) : CutInv (gcsGroupHandleLastMsg g i s).1 := by
  rw [gcsGroupHandleLastMsg_fst, Group.modifyNode_natCast]
  dsimp only
  have hbound : ∀ n ∈ g.nodes.modify i (fun n => gcsNodeSetLastApplied n s),
      n.lastApplied < guLlongMax ∧ n.status ≠ .max := by
    refine forall_mem_modify (fun n hn => ⟨h.bounded n hn, h.noMax n hn⟩) ?_ i
    rintro n ⟨hb, hm⟩
    obtain ⟨hst, -, -, hv⟩ := gcsNodeSetLastApplied_spec n s
    exact ⟨by rcases hv with hv | hv <;> rw [hv] <;> assumption, hst ▸ hm⟩
  split
  · -- `last_node` raised its value above the cut: the full scan
    refine ⟨groupRedoLastApplied_cutOk fun n hn => (hbound n hn).1, ?_, ?_, ?_⟩
    · simpa using fun n hn => (hbound n hn).1
    · simpa using fun n hn => (hbound n hn).2
    · simpa using h.protoVer
  · rename_i hno
    refine ⟨cutOk_of_forall₂ h.cut rfl rfl rfl ?_ ?_, fun n hn => (hbound n hn).1,
      fun n hn => (hbound n hn).2, h.protoVer⟩
    · refine forall₂_modify_right (List.forall₂_same.mpr fun n _ => ⟨rfl, Int.le_refl _⟩) i ?_
      rintro x y - - ⟨hc, hle⟩
      obtain ⟨hst, hfl, hge, -⟩ := gcsNodeSetLastApplied_spec y s
      exact ⟨(countsLastApplied_congr hst hfl).trans hc, Int.le_trans hle hge⟩
    · intro m m' hpos hm hm' hvm
      rw [List.getElem?_modify, hm] at hm'
      simp only [Option.map_eq_map, Option.map_some, Option.some.injEq] at hm'
      subst hm'
      split
      · -- the message is from `last_node`, so it does not raise the cut
        rename_i hik
        have hidx : (i : Int) = g.lastNode := by omega
        have hle : s ≤ m.lastApplied := by
          rw [hvm]
          by_contra hgt
          exact hno ⟨hidx, Int.lt_of_not_ge hgt⟩
        obtain ⟨-, -, hge, hv⟩ := gcsNodeSetLastApplied_spec m s
        rcases hv with hv | hv
        · exact hv
        · rw [hv] at hge ⊢
          exact Int.le_antisymm hle hge
      · rfl

/-- The status change a JOIN makes keeps which nodes are counted: a DONOR
    keeps its status under protocol 0 and its flag otherwise, and a JOINER
    is not counted either way. -/
theorem joinSender_counts (g : Group α) {sender : Node α} (seqno : Int)
    (hst : sender.status = .donor ∨ sender.status = .joiner) :
    let n := (joinSender g sender seqno).1
    countsLastApplied g.lastAppliedProtoVer n = countsLastApplied g.lastAppliedProtoVer sender ∧
      n.lastApplied = sender.lastApplied ∧ n.status ≠ .max := by
  unfold joinSender
  rcases hst with hst | hst
  · simp only [hst, if_true]
    split
    · exact ⟨rfl, rfl, by simp [hst]⟩
    · rename_i hpv
      refine ⟨by simp [countsLastApplied, hpv], rfl, ?_⟩
      -- the donor becomes JOINED once its last desync ends, or stays DONOR
      split <;> simp
  · simp only [hst, reduceCtorEq, if_false]
    split <;> exact ⟨by simp [countsLastApplied, hst], rfl, by simp⟩

theorem cutInv_handleJoinMsg {g : Group α} (h : CutInv g) (i : Nat) (seqno : Int) :
    CutInv (gcsGroupHandleJoinMsg g i seqno).1 := by
  rw [gcsGroupHandleJoinMsg_fst]
  split
  · exact h
  · rename_i sender hsender
    split
    · rename_i hst
      rw [List.set_eq_modify]
      have hprim : CutInv { g with primNum := (joinSender g sender seqno).2 } :=
        ⟨h.cut, h.bounded, h.noMax, h.protoVer⟩
      refine cutInv_modify hprim i fun n hn => ?_
      rw [hsender, Option.some.injEq] at hn
      subst hn
      obtain ⟨hc, hl, hm⟩ := joinSender_counts g seqno hst
      exact ⟨hc, hl, fun _ => hm⟩
    · exact h

theorem cutInv_handleSyncMsg {g : Group α} (h : CutInv g) (i : Nat) :
    CutInv (gcsGroupHandleSyncMsg g i).1 := by
  rw [gcsGroupHandleSyncMsg_fst]
  split
  · exact h
  · split
    · -- the sender counts from now on: the full scan
      rw [Group.modifyNode_natCast]
      have hbound : ∀ n ∈ g.nodes.modify i
          (fun n => { n with status := .synced, countLastApplied := true }),
          n.lastApplied < guLlongMax ∧ n.status ≠ .max :=
        forall_mem_modify (fun n hn => ⟨h.bounded n hn, h.noMax n hn⟩)
          (fun n hn => ⟨hn.1, by simp⟩) i
      refine ⟨groupRedoLastApplied_cutOk fun n hn => (hbound n hn).1, ?_, ?_, ?_⟩
      · simpa using fun n hn => (hbound n hn).1
      · simpa using fun n hn => (hbound n hn).2
      · simpa using h.protoVer
    · exact h

theorem cutInv_handleUuidMsg {g : Group α} (h : CutInv g) (i : Nat) (uuid : GuUuid) :
    CutInv (gcsGroupHandleUuidMsg g i uuid) := by
  unfold gcsGroupHandleUuidMsg
  split
  · exact ⟨h.cut, h.bounded, h.noMax, h.protoVer⟩
  · exact h

theorem gcsNodeHandleActFrag_cutView (n : Node α) (frg : ActFrag α) (isLocal : Bool) :
    (gcsNodeHandleActFrag n frg isLocal).1.cutView = n.cutView := by
  unfold gcsNodeHandleActFrag
  split <;> rfl

/-- An ACTION fragment changes only defragmenters and `act_id`. -/
theorem cutInv_handleActMsg {g : Group α} (h : CutInv g) (frg : ActFrag α) (i : Nat)
    (rcvd : ActRcvd α) (csv : Bool) : CutInv (gcsGroupHandleActMsg g frg i rcvd csv).1 := by
  unfold gcsGroupHandleActMsg
  dsimp only
  split
  · exact ⟨h.cut, h.bounded, h.noMax, h.protoVer⟩
  · rename_i node hnode
    rw [groupCompleteAct_fst_eq]
    exact cutInv_of_cutView h (map_set_of_getElem? hnode (gcsNodeHandleActFrag_cutView ..))
      rfl rfl rfl rfl

/-! ## §5. State transfer requests and components -/

theorem NodeState.eq_synced_of_le {st : NodeState} (h : NodeState.synced ≤ st)
    (hm : st ≠ .max) : st = .synced := by
  revert h hm
  cases st <;> decide

/-- Reserving a donor keeps `CutInv` when the donor is counted as a DONOR
    exactly when it was counted before, and so is a distinct joiner as a
    JOINER. -/
theorem cutInv_groupAssignDonor {g : Group α} (h : CutInv g) (j d : Nat)
    (hd : ∀ n, g.nodes[d]? = some n → countsLastApplied g.lastAppliedProtoVer
      { n with status := .donor } = countsLastApplied g.lastAppliedProtoVer n)
    (hj : ∀ n, g.nodes[j]? = some n → j ≠ d → countsLastApplied g.lastAppliedProtoVer
      { n with status := .joiner } = countsLastApplied g.lastAppliedProtoVer n) :
    CutInv (groupAssignDonor g j d) := by
  unfold groupAssignDonor
  split
  · rename_i joiner donor hjn hdn
    simp only [Group.modifyNode_natCast]
    -- every node keeps its value and flag; the donor ends DONOR, a distinct
    -- joiner JOINER, and the other nodes keep their status
    refine cutInv_of_forall₂ h (forall₂_iff_getElem?.mpr ⟨?_, fun k x y hx hy => ?_⟩)
      (by split <;> rfl) (by split <;> rfl) (by split <;> rfl) (by split <;> rfl)
    · split <;> simp
    · have hcnt : ∀ (n : Node α) (st : NodeState), countsLastApplied g.lastAppliedProtoVer
          { n with status := st } = countsLastApplied g.lastAppliedProtoVer n →
          ∀ n' : Node α, n'.status = st → n'.countLastApplied = n.countLastApplied →
          countsLastApplied g.lastAppliedProtoVer n' = countsLastApplied g.lastAppliedProtoVer n :=
        fun n st hst n' hs hf => by rw [← hst]; exact countsLastApplied_congr hs hf
      by_cases hdk : d = k
      · subst hdk
        rw [hdn, Option.some.injEq] at hx
        subst hx
        split at hy <;> simp only [List.getElem?_modify, hdn, Option.map_eq_map,
          Option.map_some, if_true, Option.some.injEq] at hy <;>
          (subst hy; split <;> exact ⟨hcnt _ _ (hd _ hdn) _ rfl rfl, rfl, by simp⟩)
      · by_cases hjk : j = k
        · subst hjk
          rw [hjn, Option.some.injEq] at hx
          subst hx
          split at hy <;> simp only [List.getElem?_modify, hjn, hdk, Option.map_eq_map,
            Option.map_some, if_true, if_false, Option.some.injEq] at hy <;>
            (subst hy; exact ⟨hcnt _ _ (hj _ hjn (Ne.symm hdk)) _ rfl rfl, rfl, by simp⟩)
        · split at hy <;> simp only [List.getElem?_modify, hx, hjk, hdk, Option.map_eq_map,
            Option.map_some, if_false, Option.some.injEq] at hy <;>
            (subst hy; exact ⟨rfl, rfl, id⟩)
  · exact h

/-- A state transfer request keeps `CutInv`: the joiner of a request that
    is not a desync is PRIM and becomes JOINER, neither counted under
    protocol 0; the donor is SYNCED and becomes DONOR, both counted; and
    the flags do not change. -/
theorem cutInv_handleStateRequest {g : Group α} (h : CutInv g) (j d : Nat) (desync : Bool) :
    CutInv (gcsGroupHandleStateRequest g j d desync) := by
  -- under protocol 0 the quorum is older than version 4
  have hv : g.lastAppliedProtoVer = 0 → ¬(g.quorum.version ≥ 4) := fun h0 h4 =>
    absurd (h.protoVer h0) (by omega)
  unfold gcsGroupHandleStateRequest
  split
  · exact h
  · rename_i joiner hjn
    split
    · exact h
    · rename_i hreq
      unfold groupSelectDonor
      rw [hjn]
      dsimp only
      by_cases hdes : desync = true
      · -- a desync: the joiner is its own donor
        rw [if_pos hdes]
        split
        · rename_i hst
          refine cutInv_groupAssignDonor h j j (fun n hn => ?_) (fun _ _ hne => absurd rfl hne)
          rw [hjn, Option.some.injEq] at hn
          subst hn
          by_cases h0 : g.lastAppliedProtoVer = 0
          · have hsy : joiner.status = .synced := NodeState.eq_synced_of_le
              (hst.resolve_right fun h4 => hv h0 h4.2)
              (h.noMax _ (List.mem_of_getElem? hjn))
            simp [countsLastApplied, h0, hsy]
          · simp [countsLastApplied, h0]
        · exact h
      · rw [if_neg hdes]
        have hprim : joiner.status = .prim := by
          by_contra hne
          exact hreq ⟨hne, by simpa using hdes⟩
        split
        · rename_i donor hdn
          split
          · rename_i hst
            refine cutInv_groupAssignDonor h j d (fun n hn => ?_) (fun n hn _ => ?_)
            · have hnd : donor = n := Option.some.inj (hdn.symm.trans hn)
              have hsy : n.status = .synced := hnd ▸ NodeState.eq_synced_of_le hst.1
                (h.noMax _ (List.mem_of_getElem? hdn))
              by_cases h0 : g.lastAppliedProtoVer = 0 <;> simp [countsLastApplied, h0, hsy]
            · have hnj : joiner = n := Option.some.inj (hjn.symm.trans hn)
              subst hnj
              by_cases h0 : g.lastAppliedProtoVer = 0 <;> simp [countsLastApplied, h0, hprim]
          · exact h
        · exact h

/-- The handler's updates before the remap keep every node's value below
    the bound and out of MAX. -/
theorem groupCompState_sane {g : Group α}
    (h : ∀ n ∈ g.nodes, n.lastApplied < guLlongMax ∧ n.status ≠ .max) (comp : CompMsg)
    (u v : GuUuid) :
    ∀ n ∈ (groupCompState g comp u v).nodes, n.lastApplied < guLlongMax ∧ n.status ≠ .max := by
  unfold groupCompState
  split
  · split
    · exact h
    · split
      · exact Group.forall_mem_modifyNode h _ fun n hn => hn
      · split
        · unfold groupBootstrapFirst
          dsimp only
          refine Group.forall_mem_modifyNode ?_ 0 fun n hn => ⟨hn.1, by simp⟩
          split <;> exact h
        · exact h
  · rw [groupGoNonPrimary_eq]
    dsimp only
    split
    · exact forall_mem_modify (f := fun n => { n with status := .nonPrim }) h
        (fun n hn => ⟨hn.1, by simp⟩) _
    · exact h

theorem groupCompState_frame (g : Group α) (comp : CompMsg) (u v : GuUuid) :
    (groupCompState g comp u v).quorum = g.quorum ∧
      (groupCompState g comp u v).lastAppliedProtoVer = g.lastAppliedProtoVer := by
  unfold groupCompState
  split
  · split
    · exact ⟨rfl, rfl⟩
    · split
      · simp [Group.modifyNode_eq]
      · split
        · unfold groupBootstrapFirst
          dsimp only
          split <;> simp [Group.modifyNode_eq]
        · exact ⟨rfl, rfl⟩
  · simp [groupGoNonPrimary_eq]

/-- A primary or bootstrapping component keeps `CutInv`: whatever the
    remap does to the node array, the handler ends with a full scan. -/
theorem cutInv_handleCompMsg {g : Group α} (h : CutInv g) (comp : CompMsg) (u v : GuUuid)
    (hp : comp.primary = true ∨ comp.bootstrap = true) :
    CutInv (gcsGroupHandleCompMsg g comp u v) := by
  obtain ⟨ps, hps⟩ := groupSavePrimState_eq g comp
  have hsane0 : ∀ n ∈ (groupSavePrimState g comp).nodes,
      n.lastApplied < guLlongMax ∧ n.status ≠ .max := by
    rw [hps]
    exact fun n hn => ⟨h.bounded n hn, h.noMax n hn⟩
  have hsane1 := groupCompState_sane hsane0 comp u v
  obtain ⟨hq1, hpv1⟩ := groupCompState_frame (groupSavePrimState g comp) comp u v
  -- the remap takes old nodes, possibly forgotten, and fresh ones
  have hsane2 : ∀ n ∈ (groupRemap (groupCompState (groupSavePrimState g comp) comp u v)
      comp).nodes, n.lastApplied < guLlongMax ∧ n.status ≠ .max := by
    unfold groupRemap
    refine forall_mem_groupRemapNodes (fun o ho => ho) hsane1 ?_
    split
    · intro nn hnn
      obtain ⟨id, -, rfl⟩ := List.mem_map.mp hnn
      exact ⟨show (0 : Int) < guLlongMax by decide, by simp [gcsNodeInit]⟩
    · simp
  -- the reset touches the channels only
  have hsane3 := forall_mem_mapIdx hsane2 (f := fun i node =>
    if (i : Int) ≠ (groupRemap (groupCompState (groupSavePrimState g comp) comp u v) comp).myIdx
    then gcsNodeReset node else gcsNodeResetLocal node)
    (Q := fun n : Node α => n.lastApplied < guLlongMax ∧ n.status ≠ .max)
    (fun i n hn => by split <;> exact hn)
  unfold gcsGroupHandleCompMsg groupStartExchange
  dsimp only
  rw [if_pos hp]
  refine ⟨groupRedoLastApplied_cutOk fun n hn => (hsane3 n hn).1, ?_, ?_, ?_⟩
  · simpa [groupNodesReset] using fun n hn => (hsane3 n hn).1
  · simpa [groupNodesReset] using fun n hn => (hsane3 n hn).2
  · simp only [groupRedoLastApplied_lastAppliedProtoVer, groupRedoLastApplied_quorum,
      groupNodesReset, groupRemap]
    rw [hq1, hpv1, hps]
    exact h.protoVer

/-! ## §6. Runs of the group's handlers -/

/-- A message as `gcs_group` handles it, with the payload each handler
    reads; a state transfer request carries its sender and the donor the
    search picks. -/
inductive GroupMsg (α : Type)
  | action (senderIdx : Nat) (frg : ActFrag α) (commonlySupportedVersion : Bool)
  | last (senderIdx : Nat) (seqno : Int)
  | component (comp : CompMsg) (newPrimUuid newGroupUuid : GuUuid)
  | stateUuid (senderIdx : Nat) (uuid : GuUuid)
  | stateMsg (senderIdx : Nat) (s : StateMsg)
  | join (senderIdx : Nat) (seqno : Int)
  | sync (senderIdx : Nat)
  | stateRequest (joinerIdx donorIdx : Nat) (desync : Bool)

/-- The group handler for each message. -/
def groupStep (g : Group α) : GroupMsg α → Group α
  | .action i frg csv => (gcsGroupHandleActMsg g frg i .empty csv).1
  | .last i seqno => (gcsGroupHandleLastMsg g i seqno).1
  | .component comp u v => gcsGroupHandleCompMsg g comp u v
  | .stateUuid i uuid => gcsGroupHandleUuidMsg g i uuid
  | .stateMsg i s => gcsGroupHandleStateMsg g i s
  | .join i seqno => (gcsGroupHandleJoinMsg g i seqno).1
  | .sync i => (gcsGroupHandleSyncMsg g i).1
  | .stateRequest j d desync => gcsGroupHandleStateRequest g j d desync

/-- The group after a sequence of messages. -/
def groupRun (g : Group α) (ms : List (GroupMsg α)) : Group α :=
  ms.foldl groupStep g

/-- The messages that keep the cache exact: all but state messages and
    non-primary components, with LAST seqnos below `GU_LLONG_MAX`. -/
def GroupMsg.keepsCut : GroupMsg α → Bool
  | .component comp _ _ => comp.primary || comp.bootstrap
  | .stateMsg _ _ => false
  | .last _ seqno => decide (seqno < guLlongMax)
  | _ => true

theorem cutInv_groupStep {g : Group α} (h : CutInv g) (m : GroupMsg α)
    (hm : m.keepsCut = true) : CutInv (groupStep g m) := by
  cases m with
  | action i frg csv => exact cutInv_handleActMsg h frg i .empty csv
  | last i seqno => exact cutInv_handleLastMsg h i (by simpa [GroupMsg.keepsCut] using hm)
  | component comp u v =>
    exact cutInv_handleCompMsg h comp u v (by simpa [GroupMsg.keepsCut] using hm)
  | stateUuid i uuid => exact cutInv_handleUuidMsg h i uuid
  | stateMsg _ _ => simp [GroupMsg.keepsCut] at hm
  | join i seqno => exact cutInv_handleJoinMsg h i seqno
  | sync i => exact cutInv_handleSyncMsg h i
  | stateRequest j d desync => exact cutInv_handleStateRequest h j d desync

/-- The run lemma: induction on the messages, `cutInv_groupStep` at each. -/
theorem cutInv_groupRun {g : Group α} (h : CutInv g) (ms : List (GroupMsg α))
    (hms : ∀ m ∈ ms, m.keepsCut = true) : CutInv (groupRun g ms) := by
  induction ms generalizing g with
  | nil => exact h
  | cons m ms ih =>
    exact ih (cutInv_groupStep h m (hms m (List.mem_cons_self ..)))
      (fun m' hm' => hms m' (List.mem_cons_of_mem _ hm'))

/-- On an exact cache, `gcs_group_handle_last_msg` ends with the commit cut
    a full scan of the recorded values gives. -/
theorem handleLastMsg_exact {g : Group α} (h : CutInv g) (i : Nat) {s : Int}
    (hs : s < guLlongMax) :
    (gcsGroupHandleLastMsg g i s).1.lastApplied =
      (groupRedoLastApplied (g.modifyNode i fun n => gcsNodeSetLastApplied n s)).lastApplied := by
  have hinv := cutInv_handleLastMsg h i hs
  rw [gcsGroupHandleLastMsg_fst] at hinv ⊢
  dsimp only at hinv ⊢
  split at hinv
  · rename_i hc
    rw [if_pos hc]
  · rename_i hc
    rw [if_neg hc]
    -- the handler kept the cache, which the scan confirms
    exact (groupRedoLastApplied_lastApplied_of_cutOk hinv.cut hinv.bounded).symm

/-! ## §7. The cache between state exchanges -/

/-- Along every run of LAST, JOIN, SYNC, STATE_UUID and ACTION messages,
    state transfer requests and primary or bootstrapping components, from
    a group whose cache is exact, the cache stays exact, and every LAST
    handled on the way ends with the commit cut a full scan gives. -/
theorem commit_cut_exact_between_exchanges {g : Group α} (h : CutInv g)
    (ms : List (GroupMsg α)) (hms : ∀ m ∈ ms, m.keepsCut = true) :
    CutInv (groupRun g ms) ∧
      ∀ ms₁ i s ms₂, ms = ms₁ ++ GroupMsg.last i s :: ms₂ →
        (gcsGroupHandleLastMsg (groupRun g ms₁) i s).1.lastApplied =
          (groupRedoLastApplied ((groupRun g ms₁).modifyNode i fun n =>
            gcsNodeSetLastApplied n s)).lastApplied := by
  refine ⟨cutInv_groupRun h ms hms, fun ms₁ i s ms₂ hsplit => ?_⟩
  subst hsplit
  -- the prefix keeps the cache exact, and the LAST itself is below the bound
  have hpre := cutInv_groupRun h ms₁ fun m hm => hms m (List.mem_append_left _ hm)
  have hlast := hms (.last i s) (List.mem_append_right _ (List.mem_cons_self ..))
  exact handleLastMsg_exact hpre i (by simpa [GroupMsg.keepsCut] using hlast)

/-- A node of a primary component, SYNCED and counted, that has applied up
    to `lastApplied`. -/
def syncedNode (id : String) (lastApplied : Int) : Node Unit :=
  { gcsNodeInit id with status := .synced, countLastApplied := true, lastApplied := lastApplied }

/-- Two members of a primary component at state exchange version 6, with
    the commit cut not yet scanned: member 0 has applied up to 2 and
    member 1 up to 7. -/
def cutPair : Group Unit :=
  { (gcsGroupInit : Group Unit) with
    actId := 9, confId := 4, groupUuid := ⟨1⟩, state := .primary, lastApplied := -1,
    lastNode := -1, fragReset := false, nodes := [syncedNode "a" 2, syncedNode "b" 7],
    primUuid := ⟨3⟩, primSeqno := 4, primNum := 2, primState := .synced,
    quorum := { groupUuid := ⟨1⟩, actId := 9, confId := 4, primary := true, version := 6,
                gcsProtoVer := 2, replProtoVer := 10, applProtoVer := 4 },
    lastAppliedProtoVer := 1 }

/-! ## §8. The end of a state exchange -/

/-- The state message of a SYNCED member of the component above that has
    received `received` actions. -/
def syncedState (received : Int) : StateMsg :=
  { stateUuid := ⟨5⟩, groupUuid := ⟨1⟩, primUuid := ⟨3⟩, primSeqno := 4, received := received,
    version := 6, gcsProtoVer := 2, replProtoVer := 10, applProtoVer := 4, primGcsVer := 2,
    primReplVer := 10, primApplVer := 4, primJoined := 2, desyncCount := 0,
    primState := .synced, currentState := .synced, flags := 0 }

/-- A new primary component of the same two members, and their state
    exchange, in which member 0 reports a gap in its history. -/
def exchangeRun : List (GroupMsg Unit) :=
  [.component ⟨true, false, 0, ["a", "b"]⟩ ⟨0⟩ ⟨0⟩, .stateUuid 0 ⟨5⟩,
   .stateMsg 0 (syncedState 5), .stateMsg 1 (syncedState 9)]

/-- The group after the component of `exchangeRun`, which scans. -/
def scannedPair : Group Unit := groupRun cutPair (exchangeRun.take 1)

/-- The group at the end of the state exchange of `exchangeRun`. -/
def exchangedPair : Group Unit := groupRun cutPair exchangeRun

/-- `cutPair` as the member at index `i` holds it: the same group with its
    own `my_idx`. -/
def cutPairAt (i : Int) : Group Unit := { cutPair with myIdx := i }

/-- The component message the member at index `i` receives when both members
    stay together without quorum. -/
def nonPrimComp (i : Int) : CompMsg := ⟨false, false, i, ["a", "b"]⟩

/-- `group_go_non_primary` marks only the receiver's own node NON_PRIM, and
    the remap carries every status over: after the same non-primary
    component, member 0 holds itself NON_PRIM and member 1 SYNCED, and
    member 1 holds the opposite. -/
theorem non_primary_component_splits_statuses :
    (groupStep (cutPairAt 0) (.component (nonPrimComp 0) ⟨0⟩ ⟨0⟩)).nodes.map Node.status =
        [.nonPrim, .synced] ∧
      (groupStep (cutPairAt 1) (.component (nonPrimComp 1) ⟨0⟩ ⟨0⟩)).nodes.map Node.status =
        [.synced, .nonPrim] := by
  decide

end Galera.Gcs
