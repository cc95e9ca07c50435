/-
  Galera.Gcs.StateMsg
  ───────────────────
  **STATE MESSAGES AND THE QUORUM DECISION (`gcs_state_msg.cpp`).**

  After a primary COMPONENT every member broadcasts a state message: the
  history it carries (group UUID, the last seqno it received, the seqno
  and UUID of its last primary component) and its node state.  A member
  that holds the messages of all members computes from them alone
  whether the new component is primary and which history it continues.
  `gcs_state_msg_get_quorum` tries three procedures in turn:

    * `stateQuorumInherit` — some member is still joined (DONOR, JOINED
      or SYNCED): the component continues the history of the most
      advanced of them, provided they all carry one group UUID;
    * `stateQuorumRemerge` with `bootstrap = false` — no member is
      joined, but some were in their last primary component: the
      members are grouped into candidates by the history they carry and
      the most advanced candidate is re-merged;
    * the same with `bootstrap = true` — the candidates are the members
      that carry the bootstrap flag.

  The model keeps every field these procedures read.  `name`, `inc_addr`
  and `cached` of a state message are only printed here.
-/
import Mathlib

namespace Galera.Gcs

/-! ## §1. Seqnos, UUIDs and node states -/

/-- `GCS_SEQNO_ILL`. -/
def gcsSeqnoIll : Int := -1

/-- `GCS_SEQNO_NIL`. -/
def gcsSeqnoNil : Int := 0

/-- `gu_uuid_t`: sixteen bytes that the code only compares with `memcmp`,
    so a value with decidable equality. -/
structure GuUuid where
  val : Nat
  deriving DecidableEq, Repr

/-- `GU_UUID_NIL`, all bytes zero. -/
def GuUuid.nil : GuUuid := ⟨0⟩

/-- `gcs_node_state_t`.  The code compares node states by the order of
    this declaration, which `NodeState.toNat` records. -/
inductive NodeState
  | nonPrim | prim | joiner | donor | joined | synced | max
  deriving DecidableEq, Repr

namespace NodeState

/-- The position of a node state in the declaration of `gcs_node_state_t`. -/
def toNat : NodeState → Nat
  | nonPrim => 0
  | prim => 1
  | joiner => 2
  | donor => 3
  | joined => 4
  | synced => 5
  | max => 6

instance : LE NodeState := ⟨fun a b => a.toNat ≤ b.toNat⟩
instance : LT NodeState := ⟨fun a b => a.toNat < b.toNat⟩
instance (a b : NodeState) : Decidable (a ≤ b) := inferInstanceAs (Decidable (a.toNat ≤ b.toNat))
instance (a b : NodeState) : Decidable (a < b) := inferInstanceAs (Decidable (a.toNat < b.toNat))

end NodeState

/-- `gcs_node_is_joined`: the node holds the complete state. -/
def gcsNodeIsJoined (st : NodeState) : Bool := decide (NodeState.donor ≤ st)

/-! ## §2. State messages and the quorum record -/

/-- `GCS_STATE_FBOOTSTRAP`: the sender is part of a primary bootstrap. -/
def gcsStateFbootstrap : UInt8 := 0x04

/-- `GCS_STATE_FCLA`: count the last applied seqno of a JOINED sender. -/
def gcsStateFcla : UInt8 := 0x02

/-- `GCS_STATE_MSG_NO_PROTO_DOWNGRADE_VER`. -/
def gcsStateMsgNoProtoDowngradeVer : Int := 6

/-- `gcs_state_msg_t`, without the fields that are only printed. -/
structure StateMsg where
  stateUuid : GuUuid
  groupUuid : GuUuid
  primUuid : GuUuid
  primSeqno : Int
  received : Int
  version : Int
  gcsProtoVer : Int
  replProtoVer : Int
  applProtoVer : Int
  primGcsVer : Int
  primReplVer : Int
  primApplVer : Int
  primJoined : Int
  desyncCount : Int
  primState : NodeState
  currentState : NodeState
  flags : UInt8
  deriving DecidableEq, Repr

/-- `gcs_state_quorum_t`. -/
structure StateQuorum where
  groupUuid : GuUuid
  actId : Int
  confId : Int
  primary : Bool
  version : Int
  gcsProtoVer : Int
  replProtoVer : Int
  applProtoVer : Int
  deriving DecidableEq, Repr

/-- `GCS_QUORUM_NON_PRIMARY`, the pessimistic starting point. -/
def gcsQuorumNonPrimary : StateQuorum :=
  { groupUuid := .nil, actId := gcsSeqnoIll, confId := gcsSeqnoIll, primary := false,
    version := -1, gcsProtoVer := -1, replProtoVer := -1, applProtoVer := -1 }

/-- The quorum fields both procedures set from their representative. -/
def StateQuorum.adopt (quorum : StateQuorum) (rep : StateMsg) : StateQuorum :=
  { quorum with actId := rep.received, confId := rep.primSeqno, groupUuid := rep.groupUuid,
                primary := true }

/-- What `state_quorum_inherit` and `state_quorum_remerge` return: no
    representative (`NULL`), the fatal `GCS_STATE_BAD_REP`, or one. -/
inductive QuorumRep
  | null
  | bad
  | rep (s : StateMsg)
  deriving DecidableEq, Repr

/-! ## §3. `state_quorum_inherit` -/

/-- `state_nodes_compare`: the more advanced of two states, by `received`
    and then by `prim_seqno`. -/
def stateNodesCompare (left right : StateMsg) : StateMsg :=
  if left.received < right.received then right
  else if left.received > right.received then left
  else if left.primSeqno < right.primSeqno then right
  else left

/-- The second loop of `state_quorum_inherit`, over the states after the
    first joined one; `none` is its exit on conflicting group UUIDs. -/
def stateQuorumInheritLoop (rep : StateMsg) : List StateMsg → Option StateMsg
  | [] => some rep
  | s :: rest =>
    if gcsNodeIsJoined s.currentState then
      if rep.groupUuid ≠ s.groupUuid then none
      else stateQuorumInheritLoop (stateNodesCompare rep s) rest
    else stateQuorumInheritLoop rep rest

/-- `state_quorum_inherit`. -/
def stateQuorumInherit (states : List StateMsg) (quorum : StateQuorum) :
    StateQuorum × QuorumRep :=
  match states.dropWhile (fun s => !gcsNodeIsJoined s.currentState) with
  | [] => (quorum, .null)
  | first :: rest =>
    match stateQuorumInheritLoop first rest with
    | none => (quorum, .bad)
    | some rep => (quorum.adopt rep, .rep rep)

/-! ## §4. `state_quorum_remerge` -/

/-- `struct candidate`: a history some members share. -/
structure Candidate where
  primUuid : GuUuid
  stateUuid : GuUuid
  stateSeqno : Int
  rep : StateMsg
  primJoined : Int
  found : Nat
  primSeqno : Int
  deriving DecidableEq, Repr

/-- `state_match_candidate`: state exchange version 0 matches on the
    primary component UUID only, later versions on the whole history. -/
def stateMatchCandidate (s : StateMsg) (c : Candidate) (stateExchangeVersion : Int) : Bool :=
  if stateExchangeVersion = 0 then s.primUuid = c.primUuid
  else s.groupUuid = c.stateUuid && s.received = c.stateSeqno && s.primSeqno = c.primSeqno

/-- A new candidate from its first member. -/
def Candidate.ofState (s : StateMsg) : Candidate :=
  { primUuid := s.primUuid, stateUuid := s.groupUuid, stateSeqno := s.received,
    primJoined := s.primJoined, rep := s, found := 1, primSeqno := s.primSeqno }

/-- Another member of an existing candidate. -/
def Candidate.add (c : Candidate) (s : StateMsg) : Candidate :=
  { c with found := c.found + 1, rep := stateNodesCompare c.rep s }

/-- The inner loop of `state_quorum_remerge`: file `s` under the first
    candidate it matches, or open a new one at the end. -/
def recordCandidate (version : Int) (candidates : List Candidate) (s : StateMsg) :
    List Candidate :=
  match candidates.findIdx? (fun c => stateMatchCandidate s c version) with
  | some j => candidates.modify j (·.add s)
  | none => candidates ++ [Candidate.ofState s]

/-- Whether `state_quorum_remerge` counts a state at all. -/
def remergeCond (bootstrap : Bool) (s : StateMsg) : Bool :=
  if bootstrap then (s.flags &&& gcsStateFbootstrap) != 0
  else gcsNodeIsJoined s.primState

/-- The outer loop of `state_quorum_remerge`: the candidates, in the order
    of their first member.  A non-bootstrap JOINER is skipped as an
    inconsistent state message. -/
def stateQuorumCandidates (states : List StateMsg) (bootstrap : Bool) (version : Int) :
    List Candidate :=
  states.foldl (fun candidates s =>
    if remergeCond bootstrap s then
      if !bootstrap && s.currentState = .joiner then candidates
      else recordCandidate version candidates s
    else candidates) []

/-- The loop of `state_rep_candidate`.  `stateUuid` stays the first
    candidate's; `stateSeqno` and `primSeqno` are the running values the
    source keeps beside `rep`. -/
def stateRepCandidateLoop (stateUuid : GuUuid) :
    Candidate → Int → Int → List Candidate → Option Candidate
  | rep, _, _, [] => some rep
  | rep, stateSeqno, primSeqno, c :: cs =>
    if c.stateUuid = GuUuid.nil then
      -- a member added before the re-merge, with a clean state
      stateRepCandidateLoop stateUuid rep stateSeqno primSeqno cs
    else if stateUuid ≠ GuUuid.nil ∧ stateUuid ≠ c.stateUuid then
      -- candidates from different groups
      none
    else if primSeqno < c.primSeqno then
      stateRepCandidateLoop stateUuid c stateSeqno c.primSeqno cs
    else if primSeqno = c.primSeqno ∧ stateSeqno < c.stateSeqno then
      stateRepCandidateLoop stateUuid c c.stateSeqno primSeqno cs
    else stateRepCandidateLoop stateUuid rep stateSeqno primSeqno cs

/-- `state_rep_candidate` on a non-empty candidate array. -/
def stateRepCandidate (c0 : Candidate) (cs : List Candidate) : Option Candidate :=
  stateRepCandidateLoop c0.stateUuid c0 c0.stateSeqno c0.primSeqno cs

/-- `state_quorum_remerge`. -/
def stateQuorumRemerge (states : List StateMsg) (bootstrap : Bool) (quorum : StateQuorum) :
    StateQuorum × QuorumRep :=
  match stateQuorumCandidates states bootstrap quorum.version with
  | [] => (quorum, .null)
  | c0 :: cs =>
    match stateRepCandidate c0 cs with
    | none => (quorum, .null)
    | some rc => (quorum.adopt rc.rep, .rep rc.rep)

/-! ## §5. `gcs_state_msg_get_quorum` -/

/-- The protocol versions of a primary quorum: the lowest any member
    supports, not below the representative's last primary ones from
    state exchange version 6 on. -/
def quorumProtoVer (states : List StateMsg) (rep : StateMsg) (quorum : StateQuorum) :
    StateQuorum :=
  let q : StateQuorum :=
    { quorum with gcsProtoVer := rep.gcsProtoVer, replProtoVer := rep.replProtoVer,
                  applProtoVer := rep.applProtoVer }
  let q := states.foldl (fun (q : StateQuorum) s =>
    { q with gcsProtoVer := min s.gcsProtoVer q.gcsProtoVer,
             replProtoVer := min s.replProtoVer q.replProtoVer,
             applProtoVer := min s.applProtoVer q.applProtoVer }) q
  let q : StateQuorum := if q.version ≥ gcsStateMsgNoProtoDowngradeVer then
      { q with gcsProtoVer := max q.gcsProtoVer rep.primGcsVer,
               replProtoVer := max q.replProtoVer rep.primReplVer,
               applProtoVer := max q.applProtoVer rep.primApplVer }
    else q
  -- version 0 members do not know `appl_proto_ver`
  if q.version < 1 then { q with applProtoVer := if q.replProtoVer = 1 then 1 else 0 } else q

/-- The starting quorum of `gcs_state_msg_get_quorum`: non-primary, at the
    lowest state exchange version every member supports. -/
def initialQuorum (s0 : StateMsg) (rest : List StateMsg) : StateQuorum :=
  { gcsQuorumNonPrimary with version := rest.foldl (fun v s => min v s.version) s0.version }

/-- The fallback of `gcs_state_msg_get_quorum` to its next procedure, taken
    while the quorum is not primary and no procedure met conflicting
    groups. -/
def quorumFallback (next : StateQuorum → StateQuorum × QuorumRep) :
    StateQuorum × QuorumRep → StateQuorum × QuorumRep
  | (quorum, rep) => if !quorum.primary && rep ≠ .bad then next quorum else (quorum, rep)

/-- The end of `gcs_state_msg_get_quorum`: a primary quorum gets its
    protocol versions from the representative and the members. -/
def quorumResult (states : List StateMsg) : StateQuorum × QuorumRep → StateQuorum
  | (quorum, .rep r) => if quorum.primary then quorumProtoVer states r quorum else quorum
  | (quorum, _) => quorum

/-- `gcs_state_msg_get_quorum` on a non-empty array of state messages. -/
def gcsStateMsgGetQuorum (s0 : StateMsg) (rest : List StateMsg) : StateQuorum :=
  quorumResult (s0 :: rest)
    (quorumFallback (stateQuorumRemerge (s0 :: rest) true)
      (quorumFallback (stateQuorumRemerge (s0 :: rest) false)
        (stateQuorumInherit (s0 :: rest) (initialQuorum s0 rest))))

end Galera.Gcs
