/-
  Galera.Gcs.Core
  ───────────────
  **THE RECEIVING SIDE OF `gcs_core` (`gcs_core.cpp`).**

  `gcs_core_recv` takes the backend's messages in their total order and
  hands each to the group handler for its type.  Beside the group it
  keeps its own `core_state_t`, which the group's answers to
  configuration messages drive, and the protocol version of the current
  configuration.  Two of its filters matter to the group:

    * an ACTION fragment reaches the group only in `CORE_PRIMARY` or when
      the member sent it itself, and a foreign one only at the
      configuration's protocol version (`coreHandleActMsg`);
    * LAST, JOIN and SYNC messages reach the group only while it is
      primary.

  `coreRecv` is one turn of the receive loop on a parsed message.
  State transfer requests (`gcs_group_handle_state_request`, the donor
  selection), the local action FIFO and the configuration action's
  buffer are not modelled.
-/
import Mathlib
import Galera.Gcs.Group

namespace Galera.Gcs

variable {α : Type}

/-! ## §1. The core and its messages -/

/-- `core_state_t`. -/
inductive CoreState
  | primary | exchange | nonPrimary | closed | destroyed
  deriving DecidableEq, Repr

/-- `core_state < CORE_CLOSED`. -/
def CoreState.isOpen : CoreState → Bool
  | .primary | .exchange | .nonPrimary => true
  | .closed | .destroyed => false

/-- `core_error`: the error a sender gets in each state. -/
def coreError : CoreState → Int
  | .exchange => -11
  | .nonPrimary => -107
  | .closed => -103
  | .destroyed => -77
  | .primary => -errnoEnotrecoverable

/-- `gcs_core_t`, its receiving side. -/
structure Core (α : Type) where
  state : CoreState
  protoVer : Int
  group : Group α

/-- A backend message `gcs_recv_msg_t`, by type, with its parsed payload. -/
inductive RecvMsg (α : Type)
  | action (senderIdx : Nat) (frg : ActFrag α)
  | last (senderIdx : Nat) (seqno : Int)
  | component (comp : CompMsg)
  | stateUuid (senderIdx : Nat) (uuid : GuUuid)
  | stateMsg (senderIdx : Nat) (s : StateMsg)
  | join (senderIdx : Nat) (seqno : Int)
  | sync (senderIdx : Nat)

/-! ## §2. The handlers -/

/-- `core_handle_act_msg`: the new core, the return value and the
    received action. -/
def coreHandleActMsg (core : Core α) (senderIdx : Nat) (frg : ActFrag α) :
    Core α × Int × ActRcvd α :=
  let myMsg := decide (core.group.myIdx = senderIdx)
  -- own messages are always handled
  if core.state = .primary ∨ myMsg = true then
    let commonlySupportedVersion := decide (frg.protoVer = core.protoVer)
    if !commonlySupportedVersion && !myMsg then (core, 0, .empty)
    else
      let r := gcsGroupHandleActMsg core.group frg senderIdx .empty commonlySupportedVersion
      let core := { core with group := r.1 }
      if r.2.1 > 0 then
        if myMsg ∧ core.state ≠ .primary ∧ r.2.2.id < 0 then
          (core, r.2.1, { r.2.2 with id := coreError core.state })
        else (core, r.2.1, r.2.2)
      else if r.2.1 < 0 then (core, -errnoEnotrecoverable, r.2.2)
      else (core, r.2.1, r.2.2)
  else (core, 0, .empty)

/-- The core's side of `gcs_group_act_conf`: the configuration's protocol
    version. -/
def Core.actConf (core : Core α) : Core α :=
  { core with protoVer := core.group.quorum.gcsProtoVer }

/-- `core_handle_comp_msg`; `newPrimUuid` and `newGroupUuid` are the UUIDs
    a lone node generates when it bootstraps. -/
def coreHandleCompMsg (core : Core α) (comp : CompMsg) (newPrimUuid newGroupUuid : GuUuid) :
    Core α :=
  let core := { core with group := gcsGroupHandleCompMsg core.group comp newPrimUuid newGroupUuid }
  match core.group.state with
  | .primary =>
    Core.actConf { core with state := if core.state = .nonPrimary then .primary else core.state }
  | .waitStateUuid => if core.state.isOpen then { core with state := .exchange } else core
  | .nonPrimary =>
    if core.state.isOpen then
      Core.actConf { core with state := if core.group.myIdx = -1 then .closed else .nonPrimary }
    else core
  | .inconsistent => { core with state := .nonPrimary }
  | .waitStateMsg => core

/-- `core_handle_uuid_msg`. -/
def coreHandleUuidMsg (core : Core α) (senderIdx : Nat) (uuid : GuUuid) : Core α :=
  if core.group.state = .waitStateUuid then
    { core with group := gcsGroupHandleUuidMsg core.group senderIdx uuid }
  else core

/-- `core_handle_state_msg`. -/
def coreHandleStateMsg (core : Core α) (senderIdx : Nat) (s : StateMsg) : Core α :=
  if core.group.state = .waitStateMsg then
    let core := { core with group := gcsGroupHandleStateMsg core.group senderIdx s }
    match core.group.state with
    | .primary =>
      Core.actConf (if core.state.isOpen then { core with state := .primary } else core)
    | .nonPrimary =>
      Core.actConf (if core.state.isOpen then { core with state := .nonPrimary } else core)
    | .inconsistent => { core with state := .nonPrimary }
    | _ => core
  else core

/-- `core_handle_last_msg`. -/
def coreHandleLastMsg (core : Core α) (senderIdx : Nat) (seqno : Int) : Core α :=
  if core.group.state = .primary then
    { core with group := (gcsGroupHandleLastMsg core.group senderIdx seqno).1 }
  else core

/-- `core_msg_to_action` for JOIN and SYNC. -/
def coreMsgToAction (core : Core α) (handle : Group α → Group α × Int) : Core α :=
  if core.group.state = .primary then { core with group := (handle core.group).1 } else core

/-- One turn of the receive loop of `gcs_core_recv`: the new core and, for
    an ACTION, the return value and the received action. -/
def coreRecv (core : Core α) (newPrimUuid newGroupUuid : GuUuid) :
    RecvMsg α → Core α × Option (Int × ActRcvd α)
  | .action i frg => let r := coreHandleActMsg core i frg; (r.1, some r.2)
  | .last i seqno => (coreHandleLastMsg core i seqno, none)
  | .component comp => (coreHandleCompMsg core comp newPrimUuid newGroupUuid, none)
  | .stateUuid i uuid => (coreHandleUuidMsg core i uuid, none)
  | .stateMsg i s => (coreHandleStateMsg core i s, none)
  | .join i seqno => (coreMsgToAction core fun g => gcsGroupHandleJoinMsg g i seqno, none)
  | .sync i => (coreMsgToAction core fun g => gcsGroupHandleSyncMsg g i, none)

/-! ## §3. The receive loop -/

/-- The receive loop of `gcs_core_recv` over a sequence of messages: the
    final core, and for each message what `coreRecv` hands up. -/
def coreRun (newPrimUuid newGroupUuid : GuUuid) :
    Core α → List (RecvMsg α) → Core α × List (Option (Int × ActRcvd α))
  | core, [] => (core, [])
  | core, m :: ms =>
    let r := coreRecv core newPrimUuid newGroupUuid m
    let rest := coreRun newPrimUuid newGroupUuid r.1 ms
    (rest.1, r.2 :: rest.2)

end Galera.Gcs
