/-
  Galera.Gcs.Group
  ────────────────
  **THE REPLICATED GROUP STATE (`gcs_group.cpp`, `gcs_group.hpp`,
  `gcs_node.cpp`).**

  Every member of a GCS group keeps a `gcs_group_t`: the group's
  configuration (`state`, `conf_id`, the node array with each member's
  status), the global seqno `act_id_` of the last totally ordered action,
  and the commit cut (`last_applied`, `last_node`).  It changes only
  through the handlers below, one per type of backend message, which the
  receiving thread of `gcs_core` calls in the total order of delivery.

    * `gcsGroupHandleActMsg` — a fragment goes to its sender's
      defragmenter; a complete totally ordered action takes the next
      seqno, in a primary configuration only;
    * `gcsGroupHandleCompMsg` — a new membership: the node array is
      remapped by member id, and a primary component resets every
      partial action and starts a state exchange;
    * `gcsGroupHandleUuidMsg`, `gcsGroupHandleStateMsg` — the state
      exchange, ended by `groupPostStateExchange` and the quorum of
      `gcsStateMsgGetQuorum`;
    * `gcsGroupHandleLastMsg`, `gcsGroupHandleJoinMsg`,
      `gcsGroupHandleSyncMsg`, `gcsGroupHandleStateRequest` — the commit
      cut and the state transfer protocol.

  The node's name, incoming address, protocol versions and segment are
  not modelled: they are printed, put into configuration actions, or read
  by the donor search `gcs_group_find_donor`, whose choice the model
  takes as an argument of the state request.  The abort paths
  (`gu_abort`, `gu_fatal`) are not modelled either.
-/
import Mathlib
import Galera.Gcs.StateMsg
import Galera.Gcs.Defrag
import Galera.Lib.ListRel

namespace Galera.Gcs

variable {α : Type}

/-! ## §1. Nodes -/

/-- `NODE_NO_ID`. -/
def nodeNoId : String := "undefined"

/-- `GU_LLONG_MAX`. -/
def guLlongMax : Int := 2 ^ 63 - 1

/-- `ENOTRECOVERABLE`. -/
def errnoEnotrecoverable : Int := 131

/-- `gcs_node_t`, with the fields the group's handlers read. -/
structure Node (α : Type) where
  app : Defrag α
  oob : Defrag α
  id : String
  joiner : String
  donor : String
  stateMsg : Option StateMsg
  lastApplied : Int
  desyncCount : Int
  status : NodeState
  countLastApplied : Bool
  bootstrap : Bool

/-- `gcs_node_init` for the member `id`. -/
def gcsNodeInit (id : String) : Node α :=
  { app := gcsDefragInit, oob := gcsDefragInit, id := id, joiner := "", donor := "",
    stateMsg := none, lastApplied := 0, desyncCount := 0, status := .nonPrim,
    countLastApplied := false, bootstrap := false }

/-- `gcs_node_reset_local`: mark both channels reset, keeping their data. -/
def gcsNodeResetLocal (node : Node α) : Node α :=
  { node with app := gcsDefragReset node.app, oob := gcsDefragReset node.oob }

/-- `gcs_node_reset`: drop both channels' data, then mark them reset. -/
def gcsNodeReset (node : Node α) : Node α :=
  gcsNodeResetLocal { node with app := gcsDefragInit, oob := gcsDefragInit }

/-- What `gcs_node_move` leaves of its source: the channels and the state
    message are forgotten. -/
def gcsNodeForget (node : Node α) : Node α :=
  { node with app := gcsDefragInit, oob := gcsDefragInit, stateMsg := none }

/-- `gcs_node_handle_act_frag`: service actions go to the `oob` channel,
    every other action to `app`. -/
def gcsNodeHandleActFrag (node : Node α) (frg : ActFrag α) (isLocal : Bool) :
    Node α × FragRet α :=
  if frg.actType ≠ .service then
    let r := node.app.handleFrag frg isLocal
    ({ node with app := r.1 }, r.2)
  else
    let r := node.oob.handleFrag frg isLocal
    ({ node with oob := r.1 }, r.2)

/-- `gcs_node_record_state`. -/
def gcsNodeRecordState (node : Node α) (s : StateMsg) : Node α :=
  { node with stateMsg := some s, status := s.currentState }

/-- The status `gcs_node_update_status` gives a node of a primary
    quorum, from the node's state message. -/
def quorumNodeStatus (sm : StateMsg) (quorum : StateQuorum) : NodeState :=
  if sm.groupUuid = quorum.groupUuid then
    if sm.received = quorum.actId then
      -- up to date: a node that just joined becomes JOINED, the others
      -- keep their state of the last primary component
      if sm.primState = .nonPrim then .joined else sm.primState
    -- a gap in the history: needs a state transfer
    else .prim
  -- a different history altogether
  else .prim

/-- `gcs_node_update_status`; called once every node holds a state
    message. -/
def gcsNodeUpdateStatus (node : Node α) (quorum : StateQuorum) : Node α :=
  match node.stateMsg with
  | none => node
  | some sm =>
    if quorum.primary then
      let status := quorumNodeStatus sm quorum
      let desyncCount := match status with
        | .donor => if quorum.version ≥ 4 then sm.desyncCount else 1
        | _ => 0
      let countLastApplied := match status with
        | .donor | .synced => true
        | .joined => (sm.flags &&& gcsStateFcla) != 0
        | .joiner | .prim => false
        -- the source aborts on these
        | .nonPrim | .max => node.countLastApplied
      { node with status := status, desyncCount := desyncCount,
                  countLastApplied := countLastApplied, bootstrap := false }
    else { node with status := .nonPrim, bootstrap := false }

/-! ## §2. The group -/

/-- `gcs_group_state_t`. -/
inductive GroupState
  | nonPrimary | waitStateUuid | waitStateMsg | primary | inconsistent
  deriving DecidableEq, Repr

/-- `gcs_group_t`, with `num` the length of `nodes`. -/
structure Group (α : Type) where
  actId : Int
  confId : Int
  stateUuid : GuUuid
  groupUuid : GuUuid
  myIdx : Int
  state : GroupState
  lastApplied : Int
  lastNode : Int
  fragReset : Bool
  nodes : List (Node α)
  primUuid : GuUuid
  primSeqno : Int
  primNum : Int
  primState : NodeState
  primGcsVer : Int
  primReplVer : Int
  primApplVer : Int
  quorum : StateQuorum
  lastAppliedProtoVer : Int

/-- `gcs_group_init`: one node of unknown id, non-primary. -/
def gcsGroupInit : Group α :=
  { actId := gcsSeqnoIll, confId := gcsSeqnoIll, stateUuid := .nil, groupUuid := .nil,
    myIdx := 0, state := .nonPrimary, lastApplied := gcsSeqnoIll, lastNode := -1,
    fragReset := true, nodes := [gcsNodeInit nodeNoId], primUuid := .nil,
    primSeqno := gcsSeqnoIll, primNum := 0, primState := .nonPrim, primGcsVer := 0,
    primReplVer := 0, primApplVer := 0, quorum := gcsQuorumNonPrimary,
    lastAppliedProtoVer := -1 }

/-- Apply `f` to the node at index `i`; an index out of range changes
    nothing. -/
def Group.modifyNode (g : Group α) (i : Int) (f : Node α → Node α) : Group α :=
  if 0 ≤ i then { g with nodes := g.nodes.modify i.toNat f } else g

theorem Group.modifyNode_eq (g : Group α) (i : Int) (f : Node α → Node α) :
    g.modifyNode i f =
      { g with nodes := if 0 ≤ i then g.nodes.modify i.toNat f else g.nodes } := by
  unfold Group.modifyNode
  split <;> rfl

/-- Every node of the group after an update of one node has a property
    that every node had and the update keeps. -/
theorem Group.forall_mem_modifyNode {P : Node α → Prop} {g : Group α} (h : ∀ n ∈ g.nodes, P n)
    (i : Int) {f : Node α → Node α} (hf : ∀ n, P n → P (f n)) :
    ∀ n ∈ (g.modifyNode i f).nodes, P n := by
  rw [Group.modifyNode_eq]
  split
  · exact Galera.ListRel.forall_mem_modify h hf _
  · exact h

/-- `group_nodes_reset`: every remote node drops its partial actions, the
    local one only marks them; `frag_reset` tells the local sender. -/
def groupNodesReset (g : Group α) : Group α :=
  { g with
    nodes := g.nodes.mapIdx fun i node =>
      if (i : Int) ≠ g.myIdx then gcsNodeReset node else gcsNodeResetLocal node,
    fragReset := true }

/-- One step of the loop of `group_redo_last_applied` over node `n`:
    the running minimum `(last_applied, last_node)` of the counted nodes. -/
def redoLastAppliedStep (protoVer : Int) (acc : Int × Int) (p : Node α × Nat) : Int × Int :=
  let count := if protoVer = 0 then decide (p.1.status = .synced ∨ p.1.status = .donor)
    else p.1.countLastApplied
  if count ∧ p.1.lastApplied < acc.1 then (p.1.lastApplied, p.2) else acc

/-- `group_redo_last_applied`: the commit cut is the lowest `last_applied`
    of the nodes that count. -/
def groupRedoLastApplied (g : Group α) : Group α :=
  let r := g.nodes.zipIdx.foldl (redoLastAppliedStep g.lastAppliedProtoVer) (guLlongMax, -1)
  if r.2 ≥ 0 then { g with lastApplied := r.1, lastNode := r.2 } else g

/-- `groupRedoLastApplied` changes the commit cut and nothing else. -/
theorem groupRedoLastApplied_eq (g : Group α) :
    groupRedoLastApplied g =
      let r := g.nodes.zipIdx.foldl (redoLastAppliedStep g.lastAppliedProtoVer) (guLlongMax, -1)
      { g with lastApplied := if r.2 ≥ 0 then r.1 else g.lastApplied,
               lastNode := if r.2 ≥ 0 then r.2 else g.lastNode } := by
  unfold groupRedoLastApplied
  dsimp only
  split <;> simp_all

@[simp] theorem groupRedoLastApplied_nodes (g : Group α) :
    (groupRedoLastApplied g).nodes = g.nodes := by
  rw [groupRedoLastApplied_eq]

@[simp] theorem groupRedoLastApplied_lastAppliedProtoVer (g : Group α) :
    (groupRedoLastApplied g).lastAppliedProtoVer = g.lastAppliedProtoVer := by
  rw [groupRedoLastApplied_eq]

@[simp] theorem groupRedoLastApplied_quorum (g : Group α) :
    (groupRedoLastApplied g).quorum = g.quorum := by
  rw [groupRedoLastApplied_eq]

/-- `group_go_non_primary`. -/
def groupGoNonPrimary (g : Group α) : Group α :=
  let g := if g.myIdx ≥ 0 then g.modifyNode g.myIdx fun n => { n with status := .nonPrim }
    else g
  { g with state := .nonPrimary, confId := gcsSeqnoIll }

theorem groupGoNonPrimary_eq (g : Group α) :
    groupGoNonPrimary g =
      { g with nodes := if 0 ≤ g.myIdx then
                   g.nodes.modify g.myIdx.toNat fun n => { n with status := .nonPrim }
                 else g.nodes,
               state := .nonPrimary, confId := gcsSeqnoIll } := by
  unfold groupGoNonPrimary Group.modifyNode
  split_ifs <;> rfl

/-! ## §3. Actions -/

/-- `struct gcs_act_rcvd`: the action handed up, its sender and seqno. -/
structure ActRcvd (α : Type) where
  actType : ActType
  buf : List α
  senderIdx : Int
  id : Int

/-- The received-action record as `gcs_core_recv` starts it, which
    `gcs_group_ignore_action` also restores. -/
def ActRcvd.empty : ActRcvd α :=
  { actType := .error, buf := [], senderIdx := -1, id := gcsSeqnoIll }

/-- The end of `gcs_group_handle_act_msg`, once the sender's defragmenter
    has answered `ret`: a complete totally ordered action takes the next
    seqno if the group is primary, the sender at least DONOR, the local
    sender not reset and the version common; otherwise the local sender
    learns that it failed and the others drop the action. -/
def groupCompleteAct (g : Group α) (frg : ActFrag α) (senderIdx : Nat) (status : NodeState)
    (isLocal : Bool) (rcvd : ActRcvd α) (commonlySupportedVersion : Bool) :
    FragRet α → Group α × Int × ActRcvd α
  | .full buf =>
    if 0 < buf.length then
      let rcvd := { rcvd with actType := frg.actType, buf := buf, senderIdx := senderIdx }
      if frg.actType = .tordered ∧ g.state = .primary ∧ NodeState.donor ≤ status ∧
          ¬(g.fragReset = true ∧ isLocal = true) ∧ commonlySupportedVersion = true then
        ({ g with actId := g.actId + 1 }, buf.length, { rcvd with id := g.actId + 1 })
      else if frg.actType = .tordered then
        if isLocal then (g, buf.length, { rcvd with id := -errnoErestart })
        else (g, 0, ActRcvd.empty)
      else (g, buf.length, rcvd)
    else (g, 0, rcvd)
  | ret => (g, ret.ret, rcvd)

/-- When `groupCompleteAct` gives the action the next seqno: the action is
    complete, non-empty and totally ordered, and the conditions of the
    source hold. -/
def completeAssigns (g : Group α) (frg : ActFrag α) (status : NodeState) (isLocal : Bool)
    (commonlySupportedVersion : Bool) : FragRet α → Prop
  | .full buf => 0 < buf.length ∧ frg.actType = .tordered ∧ g.state = .primary ∧
      NodeState.donor ≤ status ∧ ¬(g.fragReset = true ∧ isLocal = true) ∧
      commonlySupportedVersion = true
  | _ => False

/-- `groupCompleteAct` changes nothing of the group but `act_id`. -/
theorem groupCompleteAct_fst_eq (g : Group α) (frg : ActFrag α) (senderIdx : Nat)
    (status : NodeState) (isLocal : Bool) (rcvd : ActRcvd α) (csv : Bool) (ret : FragRet α) :
    (groupCompleteAct g frg senderIdx status isLocal rcvd csv ret).1 =
      { g with actId := (groupCompleteAct g frg senderIdx status isLocal rcvd csv ret).1.actId } := by
  cases ret with
  | full buf =>
    simp only [groupCompleteAct]
    split_ifs <;> rfl
  | cont | ignored | duplicate | eproto => rfl

/-- `gcs_group_handle_act_msg`: the new group, the return value and the
    received action. -/
def gcsGroupHandleActMsg (g : Group α) (frg : ActFrag α) (senderIdx : Nat) (rcvd : ActRcvd α)
    (commonlySupportedVersion : Bool) : Group α × Int × ActRcvd α :=
  let isLocal := decide ((senderIdx : Int) = g.myIdx)
  -- the reset flag is cleared by the local node's first fragment in PRIMARY
  let g := { g with fragReset :=
    g.fragReset && !(isLocal && frg.fragNo == 0 && g.state == .primary) }
  match g.nodes[senderIdx]? with
  | none => (g, 0, rcvd)
  | some node =>
    let r := gcsNodeHandleActFrag node frg isLocal
    groupCompleteAct { g with nodes := g.nodes.set senderIdx r.1 } frg senderIdx r.1.status
      isLocal rcvd commonlySupportedVersion r.2

/-! ## §4. Configuration changes -/

/-- `gcs_comp_msg_t`: the member ids, in the order of their index, and
    the receiver's own index (`-1` when it left). -/
structure CompMsg where
  primary : Bool
  bootstrap : Bool
  myIdx : Int
  memb : List String

/-- `gcs_node_move`'s source after the move: the first node with `id`
    is forgotten. -/
def forgetFirst (id : String) : List (Node α) → List (Node α)
  | [] => []
  | o :: os => if o.id = id then gcsNodeForget o :: os else o :: forgetFirst id os

/-- The remap loop of `gcs_group_handle_comp_msg`: every new member takes
    over the context of the first old node with its id; a member new to
    the group keeps its fresh context. -/
def groupRemapNodes : List (Node α) → List (Node α) → List (Node α)
  | _, [] => []
  | old, nn :: rest =>
    match old.find? (fun o => o.id = nn.id) with
    | some o => o :: groupRemapNodes (forgetFirst nn.id old) rest
    | none => nn :: groupRemapNodes old rest

theorem forall_mem_forgetFirst {P : Node α → Prop} (hP : ∀ o, P o → P (gcsNodeForget o))
    (id : String) {old : List (Node α)} (h : ∀ o ∈ old, P o) : ∀ o ∈ forgetFirst id old, P o := by
  induction old with
  | nil => exact h
  | cons o os ih =>
    intro x hx
    unfold forgetFirst at hx
    split at hx
    · rcases List.mem_cons.mp hx with rfl | hx
      · exact hP o (h o (List.mem_cons_self ..))
      · exact h x (List.mem_cons_of_mem _ hx)
    · rcases List.mem_cons.mp hx with rfl | hx
      · exact h x (List.mem_cons_self ..)
      · exact ih (fun o' ho' => h o' (List.mem_cons_of_mem _ ho')) x hx

/-- Every node after the remap comes from the old array, possibly with its
    channels and state message forgotten, or is a fresh one: it has every
    property that all of those have. -/
theorem forall_mem_groupRemapNodes {P : Node α → Prop} (hP : ∀ o, P o → P (gcsNodeForget o))
    {old new : List (Node α)} (hold : ∀ o ∈ old, P o) (hnew : ∀ nn ∈ new, P nn) :
    ∀ n ∈ groupRemapNodes old new, P n := by
  induction new generalizing old with
  | nil => intro n hn; simp [groupRemapNodes] at hn
  | cons nn rest ih =>
    intro n hn
    have hrest : ∀ nn' ∈ rest, P nn' := fun nn' h' => hnew nn' (List.mem_cons_of_mem _ h')
    unfold groupRemapNodes at hn
    split at hn
    · rename_i o ho
      rcases List.mem_cons.mp hn with rfl | hn
      · exact hold n (List.mem_of_find?_eq_some ho)
      · exact ih (forall_mem_forgetFirst hP nn.id hold) hrest n hn
    · rcases List.mem_cons.mp hn with rfl | hn
      · exact hnew n (List.mem_cons_self ..)
      · exact ih hold hrest n hn

/-- Whether this is the very first component of a node that was never a
    member: one node, of unknown id. -/
def firstComponent (g : Group α) : Bool :=
  match g.nodes with
  | [n] => n.id = nodeNoId
  | _ => false

/-- The bootstrap of a new primary component by a lone node;
    `newPrimUuid` and `newGroupUuid` stand for the UUIDs it generates. -/
def groupBootstrapFirst (g : Group α) (newId : String) (newPrimUuid newGroupUuid : GuUuid) :
    Group α :=
  let g := { g with primUuid := newPrimUuid, primSeqno := 0, primNum := 1, state := .primary }
  let g := if g.actId < 0 then { g with actId := gcsSeqnoNil, groupUuid := newGroupUuid } else g
  g.modifyNode 0 fun n => { n with status := .joined, id := newId }

/-- #281: a member of the new component that comes from a primary one
    saves its own status there. -/
def groupSavePrimState (g : Group α) (comp : CompMsg) : Group α :=
  if comp.myIdx ≥ 0 ∧ g.state = .primary then
    match g.nodes[g.myIdx.toNat]? with
    | some n => { g with primState := n.status }
    | none => g
  else g

/-- The branch of `gcs_group_handle_comp_msg` on the component's kind,
    before the remap: a member of a primary component marks its bootstrap
    or bootstraps the first component, a member of a non-primary one goes
    non-primary. -/
def groupCompState (g : Group α) (comp : CompMsg) (newPrimUuid newGroupUuid : GuUuid) :
    Group α :=
  if comp.primary then
    if g.state = .primary then g
    else if comp.bootstrap then g.modifyNode g.myIdx fun n => { n with bootstrap := true }
    else if comp.memb.length = 1 ∧ firstComponent g = true then
      groupBootstrapFirst g (comp.memb.headD nodeNoId) newPrimUuid newGroupUuid
    else g
  else groupGoNonPrimary g

/-- The new node array: every member's context moves over by id, and the
    member's own index is the component's. -/
def groupRemap (g : Group α) (comp : CompMsg) : Group α :=
  let newNodes : List (Node α) := if comp.myIdx ≥ 0 then comp.memb.map gcsNodeInit else []
  { g with nodes := groupRemapNodes g.nodes newNodes, myIdx := comp.myIdx }

/-- The state exchange that every primary or bootstrapping component
    starts: ongoing actions are reset and the commit cut is redone. -/
def groupStartExchange (g : Group α) : Group α :=
  groupRedoLastApplied { groupNodesReset g with state := .waitStateUuid, stateUuid := .nil }

/-- `gcs_group_handle_comp_msg` on a well-formed component message;
    `newPrimUuid` and `newGroupUuid` stand for the UUIDs a node generates
    when it bootstraps the first component. -/
def gcsGroupHandleCompMsg (g : Group α) (comp : CompMsg) (newPrimUuid newGroupUuid : GuUuid) :
    Group α :=
  let g := groupRemap (groupCompState (groupSavePrimState g comp) comp newPrimUuid newGroupUuid)
    comp
  -- always a state exchange: the source forces `new_memb`
  if comp.primary ∨ comp.bootstrap then groupStartExchange g else g

theorem groupSavePrimState_eq (g : Group α) (comp : CompMsg) :
    ∃ ps, groupSavePrimState g comp = { g with primState := ps } := by
  unfold groupSavePrimState
  split
  · split
    · exact ⟨_, rfl⟩
    · exact ⟨g.primState, rfl⟩
  · exact ⟨g.primState, rfl⟩

/-! ## §5. The state exchange -/

/-- `gcs_group_handle_uuid_msg`. -/
def gcsGroupHandleUuidMsg (g : Group α) (senderIdx : Nat) (uuid : GuUuid) : Group α :=
  if g.state = .waitStateUuid ∧ senderIdx = 0 then
    { g with stateUuid := uuid, state := .waitStateMsg }
  else g

/-- The collection loop of `group_post_state_exchange`: every node's state
    message, or `none` while one is missing or is from another exchange. -/
def collectStates (nodes : List (Node α)) (newExchange : Bool) (stateUuid : GuUuid) :
    Option (List StateMsg) :=
  nodes.mapM fun n =>
    match n.stateMsg with
    | some s => if newExchange ∧ s.stateUuid ≠ stateUuid then none else some s
    | none => none

/-- The values of the last primary component, set at the end of an
    exchange that found one. -/
def groupSetPrim (g : Group α) (quorum : StateQuorum) : Group α :=
  { g with primSeqno := g.confId,
           primNum := (g.nodes.filter fun n => gcsNodeIsJoined n.status).length,
           primGcsVer := max g.primGcsVer quorum.gcsProtoVer,
           primReplVer := max g.primReplVer quorum.replProtoVer,
           primApplVer := max g.primApplVer quorum.applProtoVer }

/-- `group_post_state_exchange`, from the quorum on. -/
def groupApplyQuorum (g : Group α) (quorum : StateQuorum) (newExchange : Bool) : Group α :=
  let g := { g with quorum := quorum,
                    lastAppliedProtoVer := if quorum.version < 2 then 0 else 1,
                    nodes := g.nodes.map fun n => gcsNodeUpdateStatus n quorum }
  if quorum.primary then
    if newExchange then
      if g.groupUuid = quorum.groupUuid ∧ g.actId > quorum.actId then
        -- reversing history: this member has more than the primary component
        { g with state := .inconsistent }
      else
        let g' := { g with state := .primary, actId := quorum.actId,
                           confId := quorum.confId + 1, groupUuid := quorum.groupUuid,
                           primUuid := g.stateUuid, stateUuid := .nil }
        groupSetPrim g' quorum
    else groupSetPrim { g with confId := g.confId + 1 } quorum
  else groupGoNonPrimary g

/-- `group_post_state_exchange`: nothing until every node's state message of
    this exchange is in. -/
def groupPostStateExchange (g : Group α) : Group α :=
  let newExchange := decide (g.stateUuid ≠ .nil)
  match collectStates g.nodes newExchange g.stateUuid with
  | some (s0 :: rest) => groupApplyQuorum g (gcsStateMsgGetQuorum s0 rest) newExchange
  | _ => g

/-- `gcs_group_handle_state_msg` on a parsed state message. -/
def gcsGroupHandleStateMsg (g : Group α) (senderIdx : Nat) (s : StateMsg) : Group α :=
  if g.state = .waitStateMsg ∧ g.stateUuid = s.stateUuid then
    groupPostStateExchange (g.modifyNode senderIdx fun n => gcsNodeRecordState n s)
  else g

/-! ## §6. The commit cut and the state transfer protocol -/

/-- `gcs_node_set_last_applied`: a LAST message below the node's value is
    ignored. -/
def gcsNodeSetLastApplied (node : Node α) (seqno : Int) : Node α :=
  if seqno < node.lastApplied then node else { node with lastApplied := seqno }

/-- `gcs_group_handle_last_msg`: the new group and the new commit cut, or 0
    when it did not move. -/
def gcsGroupHandleLastMsg (g : Group α) (senderIdx : Nat) (seqno : Int) : Group α × Int :=
  let g := g.modifyNode senderIdx fun n => gcsNodeSetLastApplied n seqno
  if (senderIdx : Int) = g.lastNode ∧ seqno > g.lastApplied then
    let g' := groupRedoLastApplied g
    (g', if g.lastApplied < g'.lastApplied then g'.lastApplied else 0)
  else (g, 0)

theorem gcsGroupHandleLastMsg_fst (g : Group α) (senderIdx : Nat) (seqno : Int) :
    (gcsGroupHandleLastMsg g senderIdx seqno).1 =
      let g := g.modifyNode senderIdx fun n => gcsNodeSetLastApplied n seqno
      if (senderIdx : Int) = g.lastNode ∧ seqno > g.lastApplied then groupRedoLastApplied g
      else g := by
  unfold gcsGroupHandleLastMsg
  dsimp only
  split <;> rfl

/-- The status change a JOIN message makes to its sender, with the new
    `prim_num`. -/
def joinSender (g : Group α) (sender : Node α) (seqno : Int) : Node α × Int :=
  if sender.status = .donor then
    if g.lastAppliedProtoVer = 0 then (sender, g.primNum)
    else
      let dc := sender.desyncCount - 1
      ({ sender with desyncCount := dc, status := if dc = 0 then .joined else sender.status },
        g.primNum)
  else if g.quorum.version < 2 ∨ seqno ≥ 0 then ({ sender with status := .joined }, g.primNum + 1)
  else ({ sender with status := .prim }, g.primNum)

/-- `gcs_group_handle_join_msg`: the new group and the return value, 1 to
    the sender on success and `-ENOTRECOVERABLE` to a member that can no
    longer get its state. -/
def gcsGroupHandleJoinMsg (g : Group α) (senderIdx : Nat) (seqno : Int) : Group α × Int :=
  match g.nodes[senderIdx]? with
  | none => (g, 0)
  | some sender =>
    if sender.status = .donor ∨ sender.status = .joiner then
      let fromDonor := decide (sender.status = .donor)
      let r := joinSender g sender seqno
      let g := { g with nodes := g.nodes.set senderIdx r.1, primNum := r.2 }
      let isSender := if (senderIdx : Int) = g.myIdx then 1 else 0
      let peerIdx := g.nodes.findIdx? fun n =>
        n.id = (if fromDonor then sender.joiner else sender.donor)
      if seqno < 0 then
        if fromDonor ∧ (peerIdx.map fun j => (j : Int)) = some g.myIdx ∧
            (g.nodes[g.myIdx.toNat]?.map (·.status)) = some .joiner then
          (g, -errnoEnotrecoverable)
        else if g.quorum.version < 2 ∧ !fromDonor ∧ (senderIdx : Int) = g.myIdx then
          (g, -errnoEnotrecoverable)
        else (g, isSender)
      else if r.1.status = .joined then (g, isSender)
      else (g, 0)
    else (g, 0)

/-- The group `gcsGroupHandleJoinMsg` returns: the sender's new status and
    `prim_num`, whatever the return value. -/
theorem gcsGroupHandleJoinMsg_fst (g : Group α) (senderIdx : Nat) (seqno : Int) :
    (gcsGroupHandleJoinMsg g senderIdx seqno).1 =
      match g.nodes[senderIdx]? with
      | none => g
      | some sender =>
        if sender.status = .donor ∨ sender.status = .joiner then
          { g with nodes := g.nodes.set senderIdx (joinSender g sender seqno).1,
                   primNum := (joinSender g sender seqno).2 }
        else g := by
  unfold gcsGroupHandleJoinMsg
  split
  · rfl
  · dsimp only
    split_ifs <;> rfl

/-- `gcs_group_handle_sync_msg`. -/
def gcsGroupHandleSyncMsg (g : Group α) (senderIdx : Nat) : Group α × Int :=
  let isSender := if (senderIdx : Int) = g.myIdx then 1 else 0
  match g.nodes[senderIdx]? with
  | none => (g, 0)
  | some sender =>
    if sender.status = .joined ∨ (g.lastAppliedProtoVer = 0 ∧ sender.status = .donor) then
      (groupRedoLastApplied (g.modifyNode senderIdx fun n =>
        { n with status := .synced, countLastApplied := true }), isSender)
    else (g, -errnoErestart * isSender)

theorem gcsGroupHandleSyncMsg_fst (g : Group α) (senderIdx : Nat) :
    (gcsGroupHandleSyncMsg g senderIdx).1 =
      match g.nodes[senderIdx]? with
      | none => g
      | some sender =>
        if sender.status = .joined ∨ (g.lastAppliedProtoVer = 0 ∧ sender.status = .donor) then
          groupRedoLastApplied (g.modifyNode senderIdx fun n =>
            { n with status := .synced, countLastApplied := true })
        else g := by
  unfold gcsGroupHandleSyncMsg
  dsimp only
  split
  · rfl
  · split_ifs <;> rfl

/-! ## §7. State transfer requests -/

/-- The end of `group_select_donor` once it has a donor: the donor's desync
    count goes up, the joiner is confirmed and the donor reserved (in this
    order, so that a node that desyncs itself ends DONOR), and on the
    donor's first desync the two are linked. -/
def groupAssignDonor (g : Group α) (joinerIdx donorIdx : Nat) : Group α :=
  match g.nodes[joinerIdx]?, g.nodes[donorIdx]? with
  | some joiner, some donor =>
    let dc := donor.desyncCount + 1
    let g := g.modifyNode donorIdx fun n => { n with desyncCount := dc }
    let g := g.modifyNode joinerIdx fun n => { n with status := .joiner }
    let g := g.modifyNode donorIdx fun n => { n with status := .donor }
    if dc = 1 then
      let g := g.modifyNode donorIdx fun n => { n with joiner := joiner.id }
      g.modifyNode joinerIdx fun n => { n with donor := donor.id }
    else g
  | _, _ => g

/-- `group_select_donor`: a node that desyncs itself is its own donor if it
    is SYNCED, or from quorum version 4 on already a DONOR; otherwise
    `donorIdx` stands for the node `gcs_group_find_donor` picks, which is
    another node at least SYNCED. -/
def groupSelectDonor (g : Group α) (joinerIdx donorIdx : Nat) (desync : Bool) : Group α :=
  match g.nodes[joinerIdx]? with
  | none => g
  | some joiner =>
    if desync then
      if NodeState.synced ≤ joiner.status ∨
          (NodeState.donor ≤ joiner.status ∧ g.quorum.version ≥ 4) then
        groupAssignDonor g joinerIdx joinerIdx
      else g
    else
      match g.nodes[donorIdx]? with
      | some donor =>
        if NodeState.synced ≤ donor.status ∧ donorIdx ≠ joinerIdx then
          groupAssignDonor g joinerIdx donorIdx
        else g
      | none => g

/-- `gcs_group_handle_state_request` on the group: a request from a node
    that is not PRIM is ignored unless the node desyncs itself. -/
def gcsGroupHandleStateRequest (g : Group α) (joinerIdx donorIdx : Nat) (desync : Bool) :
    Group α :=
  match g.nodes[joinerIdx]? with
  | none => g
  | some joiner =>
    if joiner.status ≠ .prim ∧ desync = false then g
    else groupSelectDonor g joinerIdx donorIdx desync

end Galera.Gcs
