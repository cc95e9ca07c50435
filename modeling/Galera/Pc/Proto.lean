/-
  Galera.Pc.Proto
  ───────────────
  **THE STATE EXCHANGE AND INSTALL OF THE PRIMARY COMPONENT PROTOCOL
  (`pc_proto.cpp`).**

  When EVS delivers a regular view, every member goes to `S_STATES_EXCH`
  and sends its `instances_`, what it knows of every node, as a state
  message (`send_state`).  `handle_state` collects the state messages of
  the members; with the last one it merges into `instances_` the nodes it
  has not seen and the weights and unknown states the others report,
  checks the reports of a primary component against its own
  (`validate_state_msgs`) and decides whether the view is primary
  (`is_prim`):

    * when some member comes from a primary component, all of them must
      come from the same one, at the same TO seqno, and the view is
      primary;
    * otherwise it is primary only when no node outside the view is in an
      unknown state and every node, not evicted, of the greatest primary
      view that some state message records is a member.

  A primary view goes to `S_INSTALL`, and its first member sends the
  install message (`send_install`); a non-primary one goes to `S_NON_PRIM`
  (`mark_non_prim`) and is delivered (`deliver_view`).  Every change of
  state goes through `shift_to` and its table of allowed transitions.  The
  install message makes the members primary (`handle_install`).

    * `PcNode`, `PcNodeMap`, `PcProto` — `pc::Node`, `pc::NodeMap` and the
      fields of `pc::Proto` these functions read or write;
    * `viewIdLt` — `ViewId::operator<`, with `uuidTime` for the age of a
      UUID;
    * `PcProto.shiftTo`, `PcProto.markNonPrim`, `PcProto.deliverView`,
      `PcProto.sendInstall`, `PcProto.sendState`;
    * `PcProto.isPrim`, `PcProto.validateStateMsgs`, `mergeStateMsgs`,
      `PcProto.handleState`;
    * `PcProto.handleInstall`, with `installToSeq`, `PcProto.cleanupInstances`
      and, for an install delivered in a transitional view,
      `PcProto.handleTransInstall`.

  A state message is kept as its node map, the one part of it these
  functions read.  Every `gu_throw_fatal`, `gu_throw_error` and
  `gcomm_assert` is an error of `PcError`, one constructor for each check.
  The weight-changing install of `set_param`, the restored view of PC
  recovery (`rst_view_`, absent in the model) and the logging are left out.
-/
import Mathlib
import Galera.Evs.Message
import Galera.Lib.SortedMap
import Galera.Pc.Quorum

namespace Galera.Pc

open Galera.Evs (Uuid ViewId ViewType Order EvsCodecError)

/-! ## §1. Nodes, node maps and views -/

/-- `pc::Node`: what a node knows of another one. -/
structure PcNode where
  prim : Bool
  un : Bool
  evicted : Bool
  lastSeq : UInt32
  lastPrim : ViewId
  toSeq : Int
  weight : Int
  segment : UInt8
  deriving DecidableEq, Repr

/-- `ViewId(V_NON_PRIM)`: the nil UUID and seqno 0. -/
def nonPrimViewId : ViewId := { ViewId.default with type := .nonPrim }

/-- `Node()`. -/
def PcNode.default : PcNode :=
  { prim := false, un := false, evicted := false, lastSeq := 0xffffffff, lastPrim := nonPrimViewId,
    toSeq := -1, weight := -1, segment := 0 }

/-- `Node::operator==`: every field but `evicted`. -/
def PcNode.same (a b : PcNode) : Bool :=
  a.prim == b.prim && a.un == b.un && a.lastSeq == b.lastSeq && a.lastPrim == b.lastPrim &&
    a.toSeq == b.toSeq && a.weight == b.weight && a.segment == b.segment

/-- `pc::NodeMap`, a `gcomm::Map<UUID, Node>`. -/
abbrev PcNodeMap : Type := SortedMap Uuid PcNode

/-- What `pc::Proto` throws: `find_checked` of a missing key, the `EPROTO`
    of `SelectPrimOp`, the fatal errors of `handle_state`, `is_prim`,
    `validate_state_msgs` and `shift_to`, a `gcomm_assert`,
    `insert_unique` of a key already there, the fatal errors of
    `handle_install`, of `handle_msg` and of `handle_user`, the fatal
    unsupported version of `handle_up`, and what `Message::unserialize`
    throws. -/
inductive PcError
  | notFound
  | selfNotFound
  | conflictingPrims
  | lastPrimsNotConsistent
  | toSeqsNotConsistent
  | statesNotConsistent
  | toSeqNotConsistent
  | assertion
  | forbiddenTransition
  | duplicate
  | installStateMismatch
  | installToSeqsInconsistent
  | invalidInput
  | invalidMessage
  | messageGap
  | unsupportedProtocol
  | codec (e : EvsCodecError)
  deriving DecidableEq, Repr

/-- `Message::node (uuid)`: `find_checked`. -/
def nodeOf (m : PcNodeMap) (u : Uuid) : Except PcError PcNode :=
  match m.find? u with
  | some n => .ok n
  | none => .error .notFound

/-- `Map::insert_unique`. -/
def insertUnique {ν : Type} (m : SortedMap Uuid ν) (k : Uuid) (v : ν) : Except PcError (SortedMap Uuid ν) :=
  if (m.insert k v).2 then .ok (m.insert k v).1 else .error .duplicate

/-- The keys of a map, as a `gcomm::NodeList`. -/
def nodeListOf {ν : Type} (m : SortedMap Uuid ν) : NodeList Uuid := ⟨m.keys, m.keys_sorted⟩

/-- No node. -/
def emptyNodeList : NodeList Uuid := nodeListOf (SortedMap.empty : PcNodeMap)

/-- The parts of a `gcomm::View` the protocol reads and writes: its id,
    its members, and the members that left it gracefully. -/
structure PcView where
  id : ViewId
  members : NodeList Uuid
  left : NodeList Uuid

/-- `pc::Message::Type`. -/
inductive PcMessageType
  | none
  | state
  | install
  | user
  deriving DecidableEq, Repr

/-- `pc::Message`. -/
structure PcMessage where
  version : Nat
  flags : Nat
  type : PcMessageType
  seq : UInt32
  crc16 : UInt16
  nodeMap : PcNodeMap
  deriving DecidableEq

/-- `Message::F_CRC16`. -/
def fCrc16 : Nat := 0x1

/-- `Message::F_BOOTSTRAP`. -/
def fBootstrap : Nat := 0x2

/-- `Message::F_WEIGHT_CHANGE`. -/
def fWeightChange : Nat := 0x4

/-- What `pc::Proto` hands on: an install message sent down, a view
    delivered up with its members and partitioned nodes, a user datagram
    that `send_down` took, and a user message delivered up with its
    source, view id, user type, order, TO seqno and payload. -/
inductive PcOutput
  | install (bootstrap : Bool) (nodeMap : PcNodeMap)
  | view (id : ViewId) (bootstrap : Bool) (members partitioned : List Uuid)
  | send (dg : List UInt8) (order : Order)
  | deliver (source : Uuid) (viewId : ViewId) (userType : UInt8) (order : Order) (toSeq : Int)
      (payload : List UInt8)
  deriving DecidableEq

/-- `pc::Proto::State`. -/
inductive PcState
  | closed
  | statesExch
  | install
  | prim
  | trans
  | nonPrim
  deriving DecidableEq, Repr

/-- The fields of `pc::Proto` the state exchange reads or writes, and what
    it has sent and delivered so far. -/
structure PcProto where
  uuid : Uuid
  npvo : Bool
  state : PcState
  currentView : PcView
  pcView : PcView
  instances : PcNodeMap
  stateMsgs : SortedMap Uuid PcNodeMap
  lastSentSeq : UInt32
  out : List PcOutput

/-- The own instance, `NodeMap::value(self_i_)`.  The constructor inserts
    it and nothing here erases it; were it missing, `Node()` is read. -/
def selfNodeIn (instances : PcNodeMap) (self : Uuid) : PcNode :=
  (instances.find? self).getD PcNode.default

namespace PcProto

def selfNode (p : PcProto) : PcNode := selfNodeIn p.instances p.uuid

/-- `prim()`. -/
def prim (p : PcProto) : Bool := p.selfNode.prim

/-- `last_prim()`. -/
def lastPrim (p : PcProto) : ViewId := p.selfNode.lastPrim

/-- `to_seq()`. -/
def toSeq (p : PcProto) : Int := p.selfNode.toSeq

end PcProto

/-! ## §2. `ViewId::operator<` -/

/-- `uuid_time` of `gu_uuid.c`: the 60-bit timestamp of a version 1 UUID,
    from its time-high field without the version bits, its time-mid and its
    time-low fields, each read big-endian. -/
def uuidTime (u : Uuid) : Nat :=
  (((u.val >>> 64) &&& 0x0fff) <<< 16 ||| ((u.val >>> 80) &&& 0xffff)) <<< 32 ||| (u.val >>> 96)

/-- The value of a `gcomm::ViewType`, `V_NONE` being -1. -/
def viewTypeValue : ViewType → Int
  | .none => -1
  | .reg => 0
  | .trans => 1
  | .nonPrim => 2
  | .prim => 3

/-- `ViewId::operator<`: by seqno, then the newer UUID (`cmp.uuid_.older
    (uuid_)`, a UUID of an earlier timestamp), then by type. -/
def viewIdLt (a b : ViewId) : Bool :=
  a.seq < b.seq || (a.seq == b.seq &&
    (uuidTime b.uuid < uuidTime a.uuid || (a.uuid == b.uuid && viewTypeValue a.type < viewTypeValue b.type)))

/-! ## §3. `shift_to`, `mark_non_prim`, `deliver_view`, `send_install` -/

/-- The table `allowed` of `shift_to`. -/
def allowed : PcState → PcState → Bool
  | .closed, s => s == .nonPrim
  | .statesExch, s => s == .closed || s == .install || s == .trans || s == .nonPrim
  | .install, s => s == .closed || s == .prim || s == .trans || s == .nonPrim
  | .prim, s => s == .closed || s == .trans || s == .nonPrim
  | .trans, s => s == .closed || s == .statesExch || s == .nonPrim
  | .nonPrim, s => s == .closed || s == .prim || s == .trans || s == .nonPrim

namespace PcProto

/-- The instances that are members of the current view, as a node list. -/
def memberInstances (p : PcProto) : NodeList Uuid :=
  nodeListOf (p.instances.filter fun u _ => decide (u ∈ p.currentView.members.keys))

/-- `mark_non_prim`: `pc_view_` becomes the non-primary view of the current
    view, of the members with an instance, and no member is primary. -/
def markNonPrim (p : PcProto) : PcProto :=
  let instances := p.instances.map fun u inst =>
    if u ∈ p.currentView.members.keys then { inst with prim := false } else inst
  { p with
    pcView := ⟨{ p.currentView.id with type := .nonPrim }, p.memberInstances, emptyNodeList⟩
    -- `set_prim(false)`
    instances := instances.modify p.uuid fun n => { n with prim := false } }

/-- The `S_PRIM` case of `shift_to`: `pc_view_` becomes the primary view of
    the current view; every member is primary, from it, with no message
    seen and the own TO seqno; no other node is primary.  The loop sets the
    own TO seqno to itself, so it reads the same value throughout. -/
def enterPrim (p : PcProto) : PcProto :=
  let primId : ViewId := { p.currentView.id with type := .prim }
  let instances := p.instances.map fun u inst =>
    if u ∈ p.currentView.members.keys then
      { inst with prim := true, lastPrim := primId, lastSeq := 0, toSeq := p.toSeq }
    else { inst with prim := false }
  { p with
    pcView := ⟨primId, p.memberInstances, emptyNodeList⟩
    instances := instances.modify p.uuid fun n => { n with prim := true }
    lastSentSeq := 0 }

/-- What `shift_to` does on entering a state. -/
def shiftEffect (p : PcProto) : PcState → PcProto
  | .statesExch => { p with stateMsgs := SortedMap.empty }
  | .prim => p.enterPrim
  | .nonPrim => p.markNonPrim
  | _ => p

/-- `shift_to`: a transition the table forbids is fatal. -/
def shiftTo (p : PcProto) (s : PcState) : Except PcError PcProto :=
  if allowed p.state s then .ok { p.shiftEffect s with state := s } else .error .forbiddenTransition

/-- `deliver_view`: the view `pc_view_` names, of the instances in the
    current view as members and the others as partitioned. -/
def deliverView (p : PcProto) (bootstrap : Bool) : PcProto :=
  { p with out := p.out ++ [.view p.pcView.id bootstrap p.memberInstances.keys
      (p.instances.filter fun u _ => decide (u ∉ p.currentView.members.keys)).keys] }

/-- The node map of `send_install`: the own node of the state message of
    each member. -/
def installNodeMap (p : PcProto) : Except PcError PcNodeMap :=
  p.stateMsgs.entries.foldlM (fun im sm =>
    if sm.1 ∈ p.currentView.members.keys then do
      let n ← nodeOf sm.2 sm.1
      insertUnique im sm.1 n
    else pure im) SortedMap.empty

/-- `send_install(bootstrap)`, with no weight change. -/
def sendInstall (p : PcProto) (bootstrap : Bool) : Except PcError PcProto := do
  let nodeMap ← p.installNodeMap
  pure { p with out := p.out ++ [.install bootstrap nodeMap] }

/-- `send_state`: every member's instance is taken to have reached the own
    TO seqno, a node on the evict list (`is_evicted`) is marked evicted,
    and the instances, so changed in place, are the state message. -/
def sendState (p : PcProto) (isEvicted : Uuid → Bool) : PcProto × PcNodeMap :=
  let instances := p.instances.map fun u inst =>
    let inst := if u ∈ p.currentView.members.keys then { inst with toSeq := p.toSeq } else inst
    if isEvicted u then { inst with evicted := true } else inst
  ({ p with instances := instances }, instances)

end PcProto

/-! ## §4. `is_prim` -/

/-- The own node of a state message's source: `SMMap::value(i).node
    (SMMap::key(i))`. -/
def sourceNode (sm : Uuid × PcNodeMap) : Except PcError PcNode := nodeOf sm.2 sm.1

/-- The first loop of `is_prim`: the own node of the first state message,
    in UUID order, whose source comes from a primary component. -/
def firstPrimState : List (Uuid × PcNodeMap) → Except PcError (Option PcNode)
  | [] => .ok none
  | sm :: sms => do
    let state ← sourceNode sm
    if state.prim then pure (some state) else firstPrimState sms

/-- The second loop of `is_prim`: every source from a primary component
    comes from `lastPrim`, at `toSeq`. -/
def checkPrimStates (lastPrim : ViewId) (toSeq : Int) (sms : List (Uuid × PcNodeMap)) :
    Except PcError Unit :=
  sms.forM fun sm => do
    let state ← sourceNode sm
    if state.prim then
      if state.lastPrim ≠ lastPrim then throw .lastPrimsNotConsistent
      if state.toSeq ≠ toSeq then throw .toSeqsNotConsistent

/-- The set `un` of `is_prim`: the instances in an unknown state that are
    not members of the current view. -/
def unknownOutside (instances : PcNodeMap) (members : NodeList Uuid) : List Uuid :=
  (instances.filter fun u n => n.un && decide (u ∉ members.keys)).keys

/-- `MultiMap<ViewId, UUID>::insert`: after every entry whose key is not
    above the new one's. -/
def multimapInsert (e : ViewId × Uuid) : List (ViewId × Uuid) → List (ViewId × Uuid)
  | [] => [e]
  | x :: xs => if viewIdLt e.1 x.1 then e :: x :: xs else x :: multimapInsert e xs

/-- One node of a state message in the third loop of `is_prim`: its last
    primary view, unless non-primary or already recorded for it, goes into
    `last_prim_uuids`, and its UUID into `evicted` when evicted. -/
def collectStep (acc : List (ViewId × Uuid) × List Uuid) (e : Uuid × PcNode) :
    List (ViewId × Uuid) × List Uuid :=
  (if e.2.lastPrim.type ≠ .nonPrim ∧ (e.2.lastPrim, e.1) ∉ acc.1 then
      multimapInsert (e.2.lastPrim, e.1) acc.1
    else acc.1,
   if e.2.evicted then acc.2.insert e.1 else acc.2)

/-- The third loop of `is_prim`, over every node of every state message. -/
def collectLastPrims (sms : List (Uuid × PcNodeMap)) : List (ViewId × Uuid) × List Uuid :=
  sms.foldl (fun acc sm => sm.2.entries.foldl collectStep acc) ([], [])

/-- `equal_range(greatest_view_id)`: the entries whose view is neither
    below nor above it. -/
def equalRange (g : ViewId) (lastPrimUuids : List (ViewId × Uuid)) : List (ViewId × Uuid) :=
  lastPrimUuids.filter fun e => !viewIdLt e.1 g && !viewIdLt g e.1

/-- The loop over the equal range: the UUIDs not evicted go into
    `greatest_view`, each once (`gcomm_assert(iret.second == true)`). -/
def greatestView (evicted : List Uuid) (range : List (ViewId × Uuid)) : Except PcError (List Uuid) :=
  range.foldlM (fun gv e =>
    if e.2 ∈ evicted then pure gv
    else if e.2 ∈ gv then throw .assertion
    else pure (gv ++ [e.2])) []

/-- `is_prim`. -/
def PcProto.isPrim (p : PcProto) : Except PcError Bool := do
  let sms := p.stateMsgs.entries
  let first ← firstPrimState sms
  let (prim, lastPrim, toSeq) : Bool × ViewId × Int := match first with
    | some state => (true, state.lastPrim, state.toSeq)
    | none => (false, nonPrimViewId, -1)
  checkPrimStates lastPrim toSeq sms
  if prim then return true
  -- no primary state, so `last_prim` is still `ViewId(V_NON_PRIM)`
  if unknownOutside p.instances p.currentView.members ≠ [] then return false
  let (lastPrimUuids, evicted) := collectLastPrims sms
  match lastPrimUuids.getLast? with
  | none => return false
  | some (greatestViewId, _) =>
    let gv ← greatestView evicted (equalRange greatestViewId lastPrimUuids)
    -- the intersection with the members is the whole greatest view
    return (gv.filter (· ∈ p.currentView.members.keys)).length == gv.length

/-! ## §5. `validate_state_msgs` -/

/-- `SelectPrimOp` over the state messages: the own nodes of the sources
    from a primary component; a source missing from its own message is a
    protocol error. -/
def selectPrimStates : List (Uuid × PcNodeMap) → Except PcError (List PcNode)
  | [] => .ok []
  | sm :: sms =>
    match sm.2.find? sm.1 with
    | none => .error .selfNotFound
    | some n => do
      let rest ← selectPrimStates sms
      pure (if n.prim then n :: rest else rest)

/-- `get_max_to_seq`: the greatest TO seqno of the states, -1 if none. -/
def getMaxToSeq : List PcNode → Int
  | [] => -1
  | n :: ns => ns.foldl (fun m x => max m x.toSeq) n.toSeq

/-- The check of `validate_state_msgs` for one node of a state message: a
    node a primary member reports from a primary source is the node's own
    state, at the greatest TO seqno of the primary sources. -/
def PcProto.validateNode (p : PcProto) (maxToSeq : Int) (sourceState : PcNode) (e : Uuid × PcNode) :
    Except PcError Unit := do
  let localState ← nodeOf p.instances e.1
  if p.prim && sourceState.prim && e.2.prim then
    if e.1 ∈ p.currentView.members.keys then
      if e.2.weight == -1 then
        -- an old node reports no weight: the weight is not compared
        unless e.2.prim == localState.prim && e.2.lastSeq == localState.lastSeq &&
            e.2.lastPrim == localState.lastPrim && e.2.toSeq == localState.toSeq do
          throw .statesNotConsistent
      else
        unless e.2.same localState do throw .statesNotConsistent
      unless e.2.toSeq == maxToSeq do throw .toSeqNotConsistent

/-- `validate_state_msgs`. -/
def PcProto.validateStateMsgs (p : PcProto) : Except PcError Unit := do
  let maxToSeq := getMaxToSeq (← selectPrimStates p.stateMsgs.entries)
  p.stateMsgs.entries.forM fun sm => do
    let sourceState ← sourceNode sm
    sm.2.entries.forM (p.validateNode maxToSeq sourceState)

/-! ## §6. `handle_state` -/

/-- The rules of the merge for a node `u` already in `instances_`, reported
    as `smNode` by the state message of `source`: a weight where there was
    none, the node's own report of its weight, and, when not coming from a
    primary component, an unknown state reported for another node. -/
def mergeNode (prim : Bool) (self source u : Uuid) (smNode localNode : PcNode) : PcNode :=
  let localNode :=
    if localNode.weight = -1 ∧ smNode.weight ≠ -1 then { localNode with weight := smNode.weight }
    else if localNode.weight ≠ smNode.weight ∧ source = u then { localNode with weight := smNode.weight }
    else localNode
  if !prim && smNode.un && u ≠ self then { localNode with un := true } else localNode

/-- One node of a state message in the merge loop of `handle_state`: a node
    not seen before is inserted as reported; `prim()` is read from the
    instances as they are. -/
def mergeStep (self source : Uuid) (instances : PcNodeMap) (e : Uuid × PcNode) : PcNodeMap :=
  match instances.find? e.1 with
  | none => (instances.insert e.1 e.2).1
  | some _ => instances.modify e.1 (mergeNode (selfNodeIn instances self).prim self source e.1 e.2)

/-- The merge loop of `handle_state`, over the state messages in UUID order
    and the nodes of each. -/
def mergeStateMsgs (self : Uuid) (instances : PcNodeMap) (sms : List (Uuid × PcNodeMap)) : PcNodeMap :=
  sms.foldl (fun inst sm => sm.2.entries.foldl (mergeStep self sm.1) inst) instances

/-- `current_view_.members().find(uuid()) == current_view_.members().begin()`. -/
def isFirstMember (members : NodeList Uuid) (u : Uuid) : Bool :=
  match members.keys with
  | [] => true
  | k :: _ => k == u

namespace PcProto

/-- The end of `handle_state`, once the state messages of all the members
    are in: merge, validate, and install a primary view or deliver a
    non-primary one.  `requires_rtr` only logs. -/
def endStateExch (p : PcProto) : Except PcError PcProto := do
  let p := { p with instances := mergeStateMsgs p.uuid p.instances p.stateMsgs.entries }
  p.validateStateMsgs
  if ← p.isPrim then
    let p ← p.shiftTo .install
    if isFirstMember p.currentView.members p.uuid then p.sendInstall false else pure p
  else
    let p ← p.shiftTo .nonPrim
    pure (p.deliverView false)

/-- Whether a state message from a primary component other than the own one
    is discarded: with `npvo` the newer primary view wins, without it the
    older. -/
def discards (p : PcProto) (si : PcNode) : Bool :=
  (p.npvo && viewIdLt p.lastPrim si.lastPrim) || (!p.npvo && viewIdLt si.lastPrim p.lastPrim)

/-- The early check of `handle_state` for conflicting primary components:
    whether to record the state message `msg` from `source` (`false`: it
    is discarded).  The source's own node is read without a check. -/
def checkConflictingPrims (p : PcProto) (msg : PcNodeMap) (source : Uuid) : Except PcError Bool :=
  if p.prim then do
    let si ← nodeOf msg source
    if si.prim && si.lastPrim != p.lastPrim then
      if p.discards si then pure false else throw .conflictingPrims
    else pure true
  else pure true

/-- `handle_state`: the state message `msg` from `source`. -/
def handleState (p : PcProto) (msg : PcNodeMap) (source : Uuid) : Except PcError PcProto := do
  unless p.state = .statesExch do throw .assertion
  unless p.stateMsgs.entries.length < p.currentView.members.keys.length do throw .assertion
  unless (← p.checkConflictingPrims msg source) do return p
  let stateMsgs ← insertUnique p.stateMsgs source msg
  let p := { p with stateMsgs := stateMsgs }
  if stateMsgs.entries.length = p.currentView.members.keys.length then p.endStateExch else pure p

end PcProto

/-! ## §7. `handle_install` -/

/-- The parts of a view that `have_quorum` reads, for `Galera.Pc.Quorum`. -/
def PcView.toView (v : PcView) : View Uuid := ⟨v.members, v.left⟩

namespace PcProto

/-- The fields `have_quorum` reads (`Galera.Pc.Quorum`): the weights of
    the instances, and `pc_view_`. -/
def quorumProto (p : PcProto) : Proto Uuid :=
  ⟨fun u => (p.instances.find? u).map fun n => ⟨n.weight⟩, p.pcView.toView⟩

/-- `set_to_seq`. -/
def setToSeq (p : PcProto) (toSeq : Int) : PcProto :=
  { p with instances := p.instances.modify p.uuid fun n => { n with toSeq := toSeq } }

/-- `cleanup_instances`: the instances of nodes outside the current regular
    view are erased, the members' unknown states cleared. -/
def cleanupInstances (p : PcProto) : Except PcError PcProto := do
  unless p.state = .prim do throw .assertion
  unless p.currentView.id.type = .reg do throw .assertion
  pure { p with
    instances := (p.instances.filter fun u _ => decide (u ∈ p.currentView.members.keys)).map
      fun _ n => { n with un := false } }

/-- The check of `handle_install` of the own node in the install message
    against the own instance; without the weight when the message has
    none. -/
def installStateMatches (p : PcProto) (mState : PcNode) : Bool :=
  if mState.weight = -1 then
    mState.prim == p.selfNode.prim && mState.lastSeq == p.selfNode.lastSeq &&
      mState.lastPrim == p.selfNode.lastPrim && mState.toSeq == p.selfNode.toSeq
  else mState.same p.selfNode

end PcProto

/-- One node of the first loop of `handle_install` over the install
    message: the greatest TO seqno of the primary nodes so far, and whether
    one was seen. -/
def installToSeqStep (acc : Int × Bool) (e : Uuid × PcNode) : Except PcError (Int × Bool) :=
  if e.2.prim then
    if acc.1 ≠ -1 ∧ e.2.toSeq ≠ acc.1 then throw .installToSeqsInconsistent
    else pure (max acc.1 e.2.toSeq, true)
  else pure acc

/-- The TO seqno `handle_install` sets: the greatest of the primary nodes'
    in the install message, which must all agree once one is seen; when
    none is primary (a primary component rebuilt from non-primary ones),
    the greatest of all the nodes'. -/
def installToSeq (nodeMap : PcNodeMap) : Except PcError Int := do
  let (toSeq, primFound) ← nodeMap.entries.foldlM installToSeqStep (-1, false)
  if primFound then pure toSeq else pure (nodeMap.entries.foldl (fun t e => max t e.2.toSeq) toSeq)

/-- The loops of `handle_trans_install` over the nodes of the install
    message outside the current view: each one the member has an instance
    of is marked unknown, and the one `weightFrom` names takes its weight
    from the message. -/
def markUnknownOutside (instances : PcNodeMap) (members : List Uuid) (nodeMap : PcNodeMap)
    (weightFrom : Option Uuid) : PcNodeMap :=
  nodeMap.entries.foldl (fun inst e =>
    if e.1 ∉ members ∧ (inst.find? e.1).isSome then
      inst.modify e.1 fun n => { (if weightFrom = some e.1 then { n with weight := e.2.weight } else n) with un := true }
    else inst) instances

namespace PcProto

/-- The weight change of `handle_install`: the source's weight as the
    message gives it.  `instances_.find(source)` is read without a check. -/
def changeWeight (p : PcProto) (msg : PcMessage) (source : Uuid) : Except PcError PcProto := do
  let msgN ← nodeOf msg.nodeMap source
  pure { p with instances := p.instances.modify source fun n => { n with weight := msgN.weight } }

/-- `handle_trans_install`: an install message delivered in a transitional
    view.  Either the component keeps its quorum with the nodes the message
    installs, or the member goes non-primary and marks the nodes it lost
    unknown. -/
def handleTransInstall (p : PcProto) (msg : PcMessage) (source : Uuid) : Except PcError PcProto := do
  unless msg.type = .install do throw .assertion
  unless p.state = .trans do throw .assertion
  unless p.currentView.id.type = .trans do throw .assertion
  -- a bootstrap install is dropped in `S_TRANS`
  if msg.flags &&& fBootstrap ≠ 0 then return p
  unless p.quorumProto.haveQuorum p.currentView.toView p.pcView.toView = some true do throw .assertion
  let members := p.currentView.members.keys
  if msg.flags &&& fWeightChange ≠ 0 then
    -- `std::includes` of `pc_view_`'s members in the members and left ones
    if p.pcView.members.keys.all fun u => decide (u ∈ members ∨ u ∈ p.currentView.left.keys) then
      p.changeWeight msg source
    else
      let p := p.markNonPrim.deliverView false
      pure { p with instances := markUnknownOutside p.instances members msg.nodeMap (some source) }
  else
    let newPcView : PcView :=
      ⟨{ p.currentView.id with type := .prim },
        nodeListOf (p.instances.filter fun u _ => decide (u ∈ msg.nodeMap.keys)), emptyNodeList⟩
    match p.quorumProto.haveQuorum p.currentView.toView newPcView.toView with
    | none => throw .assertion
    | some quorum =>
      if !quorum || p.pcView.id.type == .nonPrim then
        let p := p.markNonPrim.deliverView false
        pure { p with instances := markUnknownOutside p.instances members msg.nodeMap none }
      else pure p

/-- `handle_install`. -/
def handleInstall (p : PcProto) (msg : PcMessage) (source : Uuid) : Except PcError PcProto := do
  if p.state = .prim then
    -- an install that changes no weight is only logged in `S_PRIM`
    if msg.flags &&& fWeightChange = 0 then return p
    return ← p.changeWeight msg source
  if p.state = .trans then return ← p.handleTransInstall msg source
  unless msg.type = .install do throw .assertion
  unless p.state = .install ∨ p.state = .nonPrim do throw .assertion
  -- a bootstrap install is ignored in `S_INSTALL`
  if msg.flags &&& fBootstrap ≠ 0 ∧ p.state = .install then return p
  let mState ← nodeOf msg.nodeMap p.uuid
  unless p.installStateMatches mState do throw .installStateMismatch
  let toSeq ← installToSeq msg.nodeMap
  let p ← (p.setToSeq toSeq).shiftTo .prim
  (p.deliverView (msg.flags &&& fBootstrap ≠ 0)).cleanupInstances

end PcProto

/-! ## §8. One step of the merge -/

/-- The weight `mergeNode` leaves: the reported one where there was none,
    or where the node reports itself. -/
def mergedWeight (source u : Uuid) (smWeight localWeight : Int) : Int :=
  if localWeight = -1 ∧ smWeight ≠ -1 ∨ localWeight ≠ smWeight ∧ source = u then smWeight else localWeight

/-- A node's report of its own weight is the weight it leaves. -/
theorem mergedWeight_self (u : Uuid) (smWeight localWeight : Int) :
    mergedWeight u u smWeight localWeight = smWeight := by
  unfold mergedWeight
  by_cases h : localWeight = smWeight
  · rw [h]
    exact ite_self smWeight
  · rw [if_pos (.inr ⟨h, rfl⟩)]

/-- The merge of a reported node changes the weight and the unknown state
    only. -/
theorem mergeNode_eq (prim : Bool) (self source u : Uuid) (sm loc : PcNode) :
    mergeNode prim self source u sm loc =
      { loc with
        weight := mergedWeight source u sm.weight loc.weight
        un := loc.un || (!prim && sm.un && decide (u ≠ self)) } := by
  unfold mergeNode
  -- the weight rules first, then the unknown state on the result
  by_cases hw : loc.weight = -1 ∧ sm.weight ≠ -1 ∨ loc.weight ≠ sm.weight ∧ source = u
  · have hsame : (if loc.weight = -1 ∧ sm.weight ≠ -1 then { loc with weight := sm.weight }
        else if loc.weight ≠ sm.weight ∧ source = u then { loc with weight := sm.weight } else loc) =
        { loc with weight := sm.weight } := by
      rcases hw with hw | hw
      · rw [if_pos hw]
      · by_cases h1 : loc.weight = -1 ∧ sm.weight ≠ -1
        · rw [if_pos h1]
        · rw [if_neg h1, if_pos hw]
    simp only [hsame, mergedWeight, if_pos hw]
    cases (!prim && sm.un && decide (u ≠ self)) <;> simp
  · have hsame : (if loc.weight = -1 ∧ sm.weight ≠ -1 then { loc with weight := sm.weight }
        else if loc.weight ≠ sm.weight ∧ source = u then { loc with weight := sm.weight } else loc) = loc := by
      rw [if_neg fun h => hw (.inl h), if_neg fun h => hw (.inr h)]
    simp only [hsame, mergedWeight, if_neg hw]
    cases (!prim && sm.un && decide (u ≠ self)) <;> simp

/-- What a merge step leaves at each UUID: the reported node where there
    was none, the merged node where there was one, and the rest as it was. -/
theorem find?_mergeStep (self source : Uuid) (inst : PcNodeMap) (e : Uuid × PcNode) (u : Uuid) :
    (mergeStep self source inst e).find? u =
      if u = e.1 then
        some (((inst.find? u).map (mergeNode (selfNodeIn inst self).prim self source u e.2)).getD e.2)
      else inst.find? u := by
  unfold mergeStep
  cases h : inst.find? e.1 with
  | none =>
    rw [SortedMap.find?_insert, h]
    split_ifs with hu
    · subst hu
      rw [h]
      rfl
    · rfl
  | some n =>
    rw [SortedMap.find?_modify]
    split_ifs with hu
    · subst hu
      rw [h]
      rfl
    · rfl

/-! ## §9. The transitions at the end of the exchange -/

/-- A step that succeeds passes its value on. -/
@[simp] theorem ok_bind {ε α β : Type} (a : α) (f : α → Except ε β) : (Except.ok a >>= f) = f a := rfl

@[simp] theorem except_pure {ε α : Type} (a : α) : (pure a : Except ε α) = .ok a := rfl

@[simp] theorem except_throw {ε α : Type} (e : ε) : (throw e : Except ε α) = .error e := rfl

@[simp] theorem error_bind {ε α β : Type} (e : ε) (f : α → Except ε β) : (Except.error e >>= f) = .error e := rfl

/-- Two steps succeed only when the first does. -/
theorem bind_eq_ok {ε α β : Type} {x : Except ε α} {f : α → Except ε β} {b : β} (h : (x >>= f) = .ok b) :
    ∃ a, x = .ok a ∧ f a = .ok b := by
  cases x with
  | error e => cases h
  | ok a => exact ⟨a, rfl, h⟩

theorem toOption_eq_some {ε α : Type} {x : Except ε α} {a : α} : x.toOption = some a ↔ x = .ok a := by
  cases x with
  | error e => simp [Except.toOption]
  | ok b => simp [Except.toOption]

theorem nodeOf_eq_ok {m : PcNodeMap} {u : Uuid} {n : PcNode} : nodeOf m u = .ok n ↔ m.find? u = some n := by
  unfold nodeOf
  cases m.find? u with
  | none => simp
  | some n' => simp

namespace PcProto

theorem shiftTo_of_allowed {p : PcProto} {s : PcState} (h : allowed p.state s = true) :
    p.shiftTo s = .ok { p.shiftEffect s with state := s } := if_pos h

/-- `send_install` only sends. -/
theorem sendInstall_ok {p r : PcProto} {b : Bool} (h : p.sendInstall b = .ok r) :
    ∃ nm, p.installNodeMap = .ok nm ∧ r = { p with out := p.out ++ [.install b nm] } := by
  unfold sendInstall at h
  cases hnm : p.installNodeMap with
  | error e =>
    rw [hnm] at h
    cases h
  | ok nm =>
    rw [hnm] at h
    exact ⟨nm, rfl, (Except.ok.inj h).symm⟩

end PcProto

end Galera.Pc
