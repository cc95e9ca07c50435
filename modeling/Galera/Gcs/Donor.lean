/-
  Galera.Gcs.Donor
  ────────────────
  **CHOOSING A STATE TRANSFER DONOR (`gcs_group_find_donor`).**

  A joiner's state request names the donors it wants, as a comma-separated
  list, and the seqno up to which it holds the history.  The group
  (src/gcs/src/gcs_group.cpp) first looks for an IST donor, whose gcache
  still holds the seqno after the joiner's: by name, then by state.  Then
  it looks for an SST donor: each name of the list in turn, with a search
  by state for an empty name.

  The search reads of each node its name, status and segment, the seqno its
  gcache holds from (`gcs_node_cached`) and the arbitrator flag of its
  state message (`gcs_node_flags`).  `Galera.Gcs.Group` takes the chosen
  donor as an argument of the state request.

    * `strncmpEq_iff` — `strncmp(node->name, name, len) == 0` for a
      requested name of `len` bytes holds when that name is a prefix of the
      node's;
    * `groupFindNodeByState_spec`, `groupFindNodeByName_spec`,
      `groupFindIstDonor_spec` — what each search guarantees of the node it
      returns;
    * `gcsGroupFindDonor_spec` — a donor found is never the joiner and is
      SYNCED; an IST donor holds the history after the joiner's seqno; any
      other is stateful or has a name that extends a requested name;
    * `find_donor_by_name_prefix` — a request for `node1` gets the node
      named `node10`.
-/
import Mathlib
import Galera.Gcs.StateMsg
import Galera.Gcs.SendMonitor

namespace Galera.Gcs

/-! ## §1. The group as the search sees it -/

/-- `EHOSTDOWN`. -/
def errnoEhostdown : Int := 112

/-- `EHOSTUNREACH`. -/
def errnoEhostunreach : Int := 113

/-- `GCS_ARBITRATOR_NAME`, `"garb"`. -/
def gcsArbitratorName : List UInt8 := [103, 97, 114, 98]

/-- `GCS_STATE_ARBITRATOR`. -/
def gcsStateArbitrator : UInt8 := 0x08

/-- The `,` that separates the names of a request. -/
def donorSeparator : UInt8 := 44

/-- What the search reads of a `gcs_node_t`: its name, a C string without
    its NUL; its status and segment; `gcs_node_cached` (`GCS_SEQNO_ILL`
    without a state message); and `gcs_node_flags`. -/
structure DonorNode where
  name : List UInt8
  status : NodeState
  segment : UInt8
  cached : Int
  flags : UInt8
  deriving DecidableEq, Repr

/-- A node the search never reads: every index it reads is one of the array. -/
instance : Inhabited DonorNode := ⟨⟨[], .nonPrim, 0, gcsSeqnoIll, 0⟩⟩

/-- What the search reads of a `gcs_group_t`: the node array, the quorum's
    protocol version and seqno, and the group UUID. -/
structure DonorGroup where
  nodes : List DonorNode
  quorumVersion : Int
  actId : Int
  groupUuid : GuUuid

/-- `strncmp(a, b, n) == 0` on C strings: the first `n` bytes agree, where
    a string that ends (its NUL) agrees only with one that ends there too. -/
def strncmpEq : List UInt8 → List UInt8 → Nat → Bool
  | _, _, 0 => true
  | [], [], _ + 1 => true
  | a :: as, b :: bs, n + 1 => a == b && strncmpEq as bs n
  | _, _, _ + 1 => false

/-- `group_node_is_stateful`: before quorum version 3 a node is stateful
    unless it is named `"garb"`; from version 3 on, unless its state message
    has the arbitrator flag. -/
def groupNodeIsStateful (g : DonorGroup) (node : DonorNode) : Bool :=
  if g.quorumVersion < 3 then node.name != gcsArbitratorName
  else node.flags &&& gcsStateArbitrator == 0

/-- `gcs_node_cached` of the node at `idx`. -/
def DonorGroup.cachedAt (g : DonorGroup) (idx : Int) : Int := (g.nodes.getD idx.toNat default).cached

/-! ## §2. SST donors -/

section Sst

variable (g : DonorGroup) (joinerIdx : Nat) (status : NodeState)

/-- The loop of `group_find_node_by_state` from node `idx` on, with the
    potential donor so far and `hnss`: whether the joiner's segment has a
    node that will be able to donate.  A potential donor in the joiner's
    segment is returned at once. -/
def findNodeByStateLoop (segment : UInt8) : Nat → List DonorNode → Int → Bool → Int
  | _, [], donor, hnss => if !hnss && decide (0 ≤ donor) then donor else -errnoEagain
  | idx, node :: rest, donor, hnss =>
    if joinerIdx = idx then findNodeByStateLoop segment (idx + 1) rest donor hnss
    else
      let donor : Int := if decide (status ≤ node.status) && groupNodeIsStateful g node then idx else donor
      if segment = node.segment then
        if donor = idx then donor
        else findNodeByStateLoop segment (idx + 1) rest donor (hnss || decide (NodeState.joiner ≤ node.status))
      else findNodeByStateLoop segment (idx + 1) rest donor hnss

/-- `group_find_node_by_state(group, joiner_idx, status)`. -/
def groupFindNodeByState : Int :=
  findNodeByStateLoop g joinerIdx status (g.nodes.getD joinerIdx default).segment 0 g.nodes (-1) false

/-- The loop of `group_find_node_by_name` from node `idx` on: the first
    node that `strncmp` matches decides. -/
def findNodeByNameLoop (name : List UInt8) (nameLen : Nat) : Nat → List DonorNode → Int
  | _, [] => -errnoEhostunreach
  | idx, node :: rest =>
    if strncmpEq node.name name nameLen then
      if joinerIdx = idx then -errnoEhostdown
      else if status ≤ node.status then idx
      -- it will become SYNCED
      else if NodeState.joiner ≤ node.status then -errnoEagain
      else -errnoEhostunreach
    else findNodeByNameLoop name nameLen (idx + 1) rest

/-- `group_find_node_by_name(group, joiner_idx, name, name_len, status)`. -/
def groupFindNodeByName (name : List UInt8) (nameLen : Nat) : Int :=
  findNodeByNameLoop joinerIdx status name nameLen 0 g.nodes

/-- The loop of `group_for_each_donor_in_string` over the names of the
    request, with the error to return so far.  An empty name falls back to
    the search by state, unless a name already said "later" and the list
    does not end in a comma. -/
def forEachDonorLoop (dcomma : Bool) : List (List UInt8) → Int → Int
  | [], err => err
  | name :: rest, err =>
    let idx :=
      if 0 < name.length then groupFindNodeByName g joinerIdx status name name.length
      else if err = -errnoEagain && !dcomma then err
      else groupFindNodeByState g joinerIdx status
    if 0 ≤ idx then idx
    -- once some node will become available, the error stays `-EAGAIN`
    else forEachDonorLoop dcomma rest (if -errnoEagain ≠ err then idx else err)

/-- `group_for_each_donor_in_string(group, str_version, joiner_idx, str,
    str_len, status)`; the names are the pieces between the commas. -/
def groupForEachDonorInString (strVersion : Int) (str : List UInt8) : Int :=
  let dcomma := decide (str ≠ []) && str.getLast? == some donorSeparator && decide (2 ≤ strVersion)
  forEachDonorLoop g joinerIdx status dcomma (str.splitOn donorSeparator) (-errnoEhostdown)

end Sst

/-! ## §3. IST donors -/

section Ist

variable (g : DonorGroup) (joinerIdx : Nat) (istSeqno : Int) (status : NodeState)

/-- `group_lowest_cached_seqno`. -/
def groupLowestCachedSeqno : Int :=
  g.nodes.foldl (fun ret node =>
    if node.cached ≠ gcsSeqnoIll then
      (if ret = gcsSeqnoIll || decide (node.cached < ret) then node.cached else ret)
    else ret) gcsSeqnoIll

/-- The conditions on an IST donor that both IST searches check: not the
    joiner, at least `status`, and a gcache that holds the seqno after
    `ist_seqno`. -/
def istCandidate (idx : Nat) (node : DonorNode) : Bool :=
  joinerIdx != idx && decide (status ≤ node.status) && node.cached != gcsSeqnoIll &&
    decide (node.cached ≤ istSeqno + 1)

/-- The loop of `group_find_ist_donor_by_name` from node `idx` on. -/
def findIstDonorByNameLoop (name : List UInt8) (nameLen : Nat) : Nat → List DonorNode → Int
  | _, [] => -1
  | idx, node :: rest =>
    if strncmpEq node.name name nameLen && istCandidate joinerIdx istSeqno status idx node then idx
    else findIstDonorByNameLoop name nameLen (idx + 1) rest

/-- `group_find_ist_donor_by_name(group, joiner_idx, name, name_len,
    ist_seqno, status)`. -/
def groupFindIstDonorByName (name : List UInt8) (nameLen : Nat) : Int :=
  findIstDonorByNameLoop joinerIdx istSeqno status name nameLen 0 g.nodes

/-- The loop of `group_find_ist_donor_by_name_in_string`: of the names up
    to the first empty one, the donor with the highest cached seqno. -/
def findIstDonorInStringLoop : List (List UInt8) → Int → Int
  | [], ret => ret
  | name :: rest, ret =>
    if name.length = 0 then ret
    else
      let idx := groupFindIstDonorByName g joinerIdx istSeqno status name name.length
      let ret := if 0 ≤ idx && (ret = -1 || decide (g.cachedAt ret ≤ g.cachedAt idx)) then idx else ret
      findIstDonorInStringLoop rest ret

/-- `group_find_ist_donor_by_name_in_string(group, joiner_idx, str,
    str_len, ist_seqno, status)`. -/
def groupFindIstDonorByNameInString (str : List UInt8) : Int :=
  findIstDonorInStringLoop g joinerIdx istSeqno status (str.splitOn donorSeparator) (-1)

/-- The loop of `group_find_ist_donor_by_state` from node `idx` on: the
    stateful candidates with the highest cached seqno in the joiner's
    segment and outside it. -/
def findIstDonorByStateLoop (segment : UInt8) : Nat → List DonorNode → Int × Int → Int × Int
  | _, [], acc => acc
  | idx, node :: rest, (localIdx, remoteIdx) =>
    if istCandidate joinerIdx istSeqno status idx node && groupNodeIsStateful g node then
      if segment = node.segment then
        findIstDonorByStateLoop segment (idx + 1) rest
          (if localIdx = -1 || decide (g.cachedAt localIdx ≤ node.cached) then idx else localIdx, remoteIdx)
      else
        findIstDonorByStateLoop segment (idx + 1) rest
          (localIdx, if remoteIdx = -1 || decide (g.cachedAt remoteIdx ≤ node.cached) then idx else remoteIdx)
    else findIstDonorByStateLoop segment (idx + 1) rest (localIdx, remoteIdx)

/-- `group_find_ist_donor_by_state(group, joiner_idx, ist_seqno, status)`:
    a local donor before a remote one. -/
def groupFindIstDonorByState : Int :=
  let r := findIstDonorByStateLoop g joinerIdx istSeqno status (g.nodes.getD joinerIdx default).segment 0 g.nodes
    (-1, -1)
  if 0 ≤ r.1 then r.1 else if 0 ≤ r.2 then r.2 else -1

/-- `group_find_ist_donor(group, str_version, joiner_idx, str, str_len,
    ist_seqno, status, ist_only)`: none while `ist_seqno` lies within the
    safety gap above the lowest cached seqno of the group. -/
def groupFindIstDonor (str : List UInt8) (istOnly : Bool) : Int :=
  let confSeqno := g.actId
  let lowestCachedSeqno := groupLowestCachedSeqno g
  if lowestCachedSeqno = gcsSeqnoIll then -1
  else
    let maxCachedRange := confSeqno - lowestCachedSeqno
    let safetyGap := maxCachedRange >>> 7
    let safetyGap := if safetyGap < 2 ^ 20 then safetyGap else 2 ^ 20
    let safeIstSeqno := lowestCachedSeqno + (if istOnly then 0 else safetyGap)
    if istSeqno < safeIstSeqno then -1
    else
      let idx := if str.length ≠ 0 then groupFindIstDonorByNameInString g joinerIdx istSeqno status str else -1
      if 0 ≤ idx then idx
      else
        let idx := groupFindIstDonorByState g joinerIdx istSeqno status
        if 0 ≤ idx then idx else -1

end Ist

/-- `gcs_group_find_donor(group, str_version, joiner_idx, donor_string,
    donor_len, ist_uuid, ist_seqno, ist_only)`: an IST donor when the
    joiner's history is of this group, an SST donor otherwise or when there
    is none. -/
def gcsGroupFindDonor (g : DonorGroup) (strVersion : Int) (joinerIdx : Nat) (donorString : List UInt8)
    (istUuid : GuUuid) (istSeqno : Int) (istOnly : Bool) : Int :=
  let minDonorState := NodeState.synced
  let donorIdx :=
    if decide (2 ≤ strVersion) && g.groupUuid = istUuid then
      groupFindIstDonor g joinerIdx istSeqno minDonorState donorString istOnly
    else -1
  if donorIdx < 0 then groupForEachDonorInString g joinerIdx minDonorState strVersion donorString
  else donorIdx

/-! ## §4. What a found donor satisfies -/

/-- `strncmp` over the length of the requested name matches a node exactly
    when the requested name is a prefix of the node's. -/
theorem strncmpEq_iff (a : List UInt8) : ∀ (b : List UInt8), strncmpEq a b b.length = true ↔ b <+: a
  | [] => by simp [strncmpEq, List.nil_prefix]
  | x :: bs => by
    cases a with
    | nil => simp [strncmpEq]
    | cons y as =>
      rw [List.length_cons, strncmpEq, Bool.and_eq_true, strncmpEq_iff as bs, List.cons_prefix_cons, beq_iff_eq]
      exact ⟨fun ⟨h, hp⟩ => ⟨h.symm, hp⟩, fun ⟨h, hp⟩ => ⟨h.symm, hp⟩⟩

/-- A search result `r` that is an index names a node of the array that
    satisfies `P` at its index. -/
def Returns (g : DonorGroup) (P : Nat → DonorNode → Prop) (r : Int) : Prop :=
  0 ≤ r → ∃ node, g.nodes[r.toNat]? = some node ∧ P r.toNat node

namespace Returns

variable {g : DonorGroup} {P Q : Nat → DonorNode → Prop}

theorem of_neg {r : Int} (h : r < 0) : Returns g P r := fun h0 => absurd h0 (Int.not_le.2 h)

theorem of_getElem? {idx : Nat} {node : DonorNode} (hget : g.nodes[idx]? = some node) (hp : P idx node) :
    Returns g P idx := by
  intro _
  rw [Int.toNat_natCast]
  exact ⟨node, hget, hp⟩

theorem mono {r : Int} (h : Returns g P r) (hPQ : ∀ i node, P i node → Q i node) : Returns g Q r := by
  intro h0
  obtain ⟨node, hget, hp⟩ := h h0
  exact ⟨node, hget, hPQ _ _ hp⟩

end Returns

/-- The loops walk the node array with the index of the node they look at. -/
theorem drop_eq_cons {l rest : List DonorNode} {i : Nat} {node : DonorNode} (h : l.drop i = node :: rest) :
    l[i]? = some node ∧ l.drop (i + 1) = rest := by
  have hget : l[i]? = some node := by
    rw [← Nat.add_zero i, ← List.getElem?_drop, h]
    rfl
  refine ⟨hget, ?_⟩
  rw [← List.drop_drop, h]
  rfl

section Specs

variable (g : DonorGroup) (joinerIdx : Nat) (status : NodeState)

/-- What `group_find_node_by_name` returns: not the joiner, at least
    `status`, and matched by `strncmp`. -/
def NameDonor (name : List UInt8) (nameLen : Nat) (i : Nat) (node : DonorNode) : Prop :=
  i ≠ joinerIdx ∧ status ≤ node.status ∧ strncmpEq node.name name nameLen = true

theorem findNodeByNameLoop_returns (name : List UInt8) (nameLen : Nat) :
    ∀ (idx : Nat) (rest : List DonorNode), g.nodes.drop idx = rest →
      Returns g (NameDonor joinerIdx status name nameLen) (findNodeByNameLoop joinerIdx status name nameLen idx rest)
  | _, [], _ => by
    rw [findNodeByNameLoop]
    exact Returns.of_neg (by decide)
  | idx, node :: rest, h => by
    obtain ⟨hget, hdrop⟩ := drop_eq_cons h
    rw [findNodeByNameLoop]
    split_ifs with hm hj hs
    · exact Returns.of_neg (by decide)
    · exact Returns.of_getElem? hget ⟨Ne.symm hj, hs, hm⟩
    · exact Returns.of_neg (by decide)
    · exact Returns.of_neg (by decide)
    · exact findNodeByNameLoop_returns name nameLen (idx + 1) rest hdrop

theorem groupFindNodeByName_spec (name : List UInt8) (nameLen : Nat) :
    Returns g (NameDonor joinerIdx status name nameLen) (groupFindNodeByName g joinerIdx status name nameLen) :=
  findNodeByNameLoop_returns g joinerIdx status name nameLen 0 g.nodes List.drop_zero

/-- What `group_find_node_by_state` returns: not the joiner, at least
    `status`, and stateful. -/
def StateDonor (i : Nat) (node : DonorNode) : Prop :=
  i ≠ joinerIdx ∧ status ≤ node.status ∧ groupNodeIsStateful g node = true

/-- The potential donor of `group_find_node_by_state` is always a state
    donor: induction on the nodes left. -/
theorem findNodeByStateLoop_returns (segment : UInt8) :
    ∀ (idx : Nat) (rest : List DonorNode) (donor : Int) (hnss : Bool), g.nodes.drop idx = rest →
      Returns g (StateDonor g joinerIdx status) donor →
      Returns g (StateDonor g joinerIdx status) (findNodeByStateLoop g joinerIdx status segment idx rest donor hnss)
  | _, [], donor, hnss, _, hd => by
    rw [findNodeByStateLoop]
    split_ifs
    · exact hd
    · exact Returns.of_neg (by decide)
  | idx, node :: rest, donor, hnss, h, hd => by
    obtain ⟨hget, hdrop⟩ := drop_eq_cons h
    rw [findNodeByStateLoop]
    by_cases hj : joinerIdx = idx
    case pos =>
      rw [if_pos hj]
      exact findNodeByStateLoop_returns segment (idx + 1) rest donor hnss hdrop hd
    case neg =>
      rw [if_neg hj]
      -- this node becomes the potential donor when it qualifies
      have hd' : Returns g (StateDonor g joinerIdx status)
          (if decide (status ≤ node.status) && groupNodeIsStateful g node then (idx : Int) else donor) := by
        split_ifs with hc
        · rw [Bool.and_eq_true, decide_eq_true_eq] at hc
          exact Returns.of_getElem? hget ⟨Ne.symm hj, hc.1, hc.2⟩
        · exact hd
      dsimp only
      generalize (if decide (status ≤ node.status) && groupNodeIsStateful g node then (idx : Int) else donor) = d
        at hd' ⊢
      split_ifs
      · exact hd'
      · exact findNodeByStateLoop_returns segment (idx + 1) rest _ _ hdrop hd'
      · exact findNodeByStateLoop_returns segment (idx + 1) rest _ _ hdrop hd'

theorem groupFindNodeByState_spec :
    Returns g (StateDonor g joinerIdx status) (groupFindNodeByState g joinerIdx status) :=
  findNodeByStateLoop_returns g joinerIdx status _ 0 g.nodes (-1) false List.drop_zero (Returns.of_neg (by decide))

/-- What an SST donor satisfies: not the joiner, at least `status`, and
    stateful or with a name that extends a name of the request. -/
def ListDonor (names : List (List UInt8)) (i : Nat) (node : DonorNode) : Prop :=
  i ≠ joinerIdx ∧ status ≤ node.status ∧
    (groupNodeIsStateful g node = true ∨ ∃ name ∈ names, name ≠ [] ∧ name <+: node.name)

/-- Over the names of the request, with a negative error so far:
    induction on the names left. -/
theorem forEachDonorLoop_returns (dcomma : Bool) (names : List (List UInt8)) :
    ∀ (rest : List (List UInt8)) (err : Int), (∀ name ∈ rest, name ∈ names) → err < 0 →
      Returns g (ListDonor g joinerIdx status names) (forEachDonorLoop g joinerIdx status dcomma rest err)
  | [], _, _, herr => Returns.of_neg herr
  | name :: rest, err, hsub, herr => by
    -- what this name yields, by name or by state
    have hidx : Returns g (ListDonor g joinerIdx status names)
        (if 0 < name.length then groupFindNodeByName g joinerIdx status name name.length
          else if err = -errnoEagain && !dcomma then err
          else groupFindNodeByState g joinerIdx status) := by
      split_ifs with hlen
      · refine (groupFindNodeByName_spec g joinerIdx status name name.length).mono ?_
        rintro i node ⟨hj, hs, hm⟩
        exact ⟨hj, hs, .inr ⟨name, hsub name List.mem_cons_self, List.ne_nil_of_length_pos hlen,
          (strncmpEq_iff node.name name).1 hm⟩⟩
      · exact Returns.of_neg herr
      · refine (groupFindNodeByState_spec g joinerIdx status).mono ?_
        rintro i node ⟨hj, hs, hst⟩
        exact ⟨hj, hs, .inl hst⟩
    rw [forEachDonorLoop]
    generalize (if 0 < name.length then groupFindNodeByName g joinerIdx status name name.length
      else if err = -errnoEagain && !dcomma then err
      else groupFindNodeByState g joinerIdx status) = idx at hidx ⊢
    split_ifs with h0 he
    · exact hidx
    · exact forEachDonorLoop_returns dcomma names rest _ (fun n hn => hsub n (List.mem_cons_of_mem _ hn))
        (Int.lt_of_not_ge h0)
    · exact forEachDonorLoop_returns dcomma names rest _ (fun n hn => hsub n (List.mem_cons_of_mem _ hn)) herr

theorem groupForEachDonorInString_spec (strVersion : Int) (str : List UInt8) :
    Returns g (ListDonor g joinerIdx status (str.splitOn donorSeparator))
      (groupForEachDonorInString g joinerIdx status strVersion str) :=
  forEachDonorLoop_returns g joinerIdx status _ _ _ _ (fun _ hn => hn) (by decide)

variable (istSeqno : Int)

@[simp] theorem istCandidate_eq_true (idx : Nat) (node : DonorNode) :
    istCandidate joinerIdx istSeqno status idx node = true ↔
      idx ≠ joinerIdx ∧ status ≤ node.status ∧ node.cached ≠ gcsSeqnoIll ∧ node.cached ≤ istSeqno + 1 := by
  simp only [istCandidate, Bool.and_eq_true, bne_iff_ne, decide_eq_true_eq, ne_eq, and_assoc]
  exact ⟨fun ⟨h, hr⟩ => ⟨Ne.symm h, hr⟩, fun ⟨h, hr⟩ => ⟨Ne.symm h, hr⟩⟩

/-- What an IST donor satisfies: an IST candidate that is stateful or has a
    name extending a name of the request. -/
def IstDonor (names : List (List UInt8)) (i : Nat) (node : DonorNode) : Prop :=
  istCandidate joinerIdx istSeqno status i node = true ∧
    (groupNodeIsStateful g node = true ∨ ∃ name ∈ names, name ≠ [] ∧ name <+: node.name)

theorem findIstDonorByNameLoop_returns (name : List UInt8) :
    ∀ (idx : Nat) (rest : List DonorNode), g.nodes.drop idx = rest →
      Returns g (fun i node => istCandidate joinerIdx istSeqno status i node = true ∧
          strncmpEq node.name name name.length = true)
        (findIstDonorByNameLoop joinerIdx istSeqno status name name.length idx rest)
  | _, [], _ => by
    rw [findIstDonorByNameLoop]
    exact Returns.of_neg (by decide)
  | idx, node :: rest, h => by
    obtain ⟨hget, hdrop⟩ := drop_eq_cons h
    rw [findIstDonorByNameLoop]
    split_ifs with hm
    · rw [Bool.and_eq_true] at hm
      exact Returns.of_getElem? hget ⟨hm.2, hm.1⟩
    · exact findIstDonorByNameLoop_returns name (idx + 1) rest hdrop

/-- The best IST donor by name so far is always one: induction on the
    names left. -/
theorem findIstDonorInStringLoop_returns (names : List (List UInt8)) :
    ∀ (rest : List (List UInt8)) (ret : Int), (∀ name ∈ rest, name ∈ names) →
      Returns g (IstDonor g joinerIdx status istSeqno names) ret →
      Returns g (IstDonor g joinerIdx status istSeqno names) (findIstDonorInStringLoop g joinerIdx istSeqno status rest ret)
  | [], _, _, hret => hret
  | name :: rest, ret, hsub, hret => by
    rw [findIstDonorInStringLoop]
    split_ifs with hlen
    · exact hret
    · -- a donor found by this name is an IST donor of the request
      have hidx : Returns g (IstDonor g joinerIdx status istSeqno names)
          (groupFindIstDonorByName g joinerIdx istSeqno status name name.length) := by
        refine (findIstDonorByNameLoop_returns g joinerIdx status istSeqno name 0 g.nodes List.drop_zero).mono ?_
        rintro i node ⟨hc, hm⟩
        exact ⟨hc, .inr ⟨name, hsub name List.mem_cons_self, List.ne_nil_of_length_pos (Nat.pos_of_ne_zero hlen),
          (strncmpEq_iff node.name name).1 hm⟩⟩
      apply findIstDonorInStringLoop_returns names rest _ (fun n hn => hsub n (List.mem_cons_of_mem _ hn))
      split_ifs
      · exact hidx
      · exact hret

/-- The local and remote IST donors by state are always ones: induction on
    the nodes left. -/
theorem findIstDonorByStateLoop_returns (segment : UInt8) :
    ∀ (idx : Nat) (rest : List DonorNode) (acc : Int × Int), g.nodes.drop idx = rest →
      Returns g (IstDonor g joinerIdx status istSeqno []) acc.1 →
      Returns g (IstDonor g joinerIdx status istSeqno []) acc.2 →
      Returns g (IstDonor g joinerIdx status istSeqno []) (findIstDonorByStateLoop g joinerIdx istSeqno status segment idx rest acc).1 ∧
        Returns g (IstDonor g joinerIdx status istSeqno []) (findIstDonorByStateLoop g joinerIdx istSeqno status segment idx rest acc).2
  | _, [], _, _, h₁, h₂ => ⟨h₁, h₂⟩
  | idx, node :: rest, (localIdx, remoteIdx), h, h₁, h₂ => by
    obtain ⟨hget, hdrop⟩ := drop_eq_cons h
    rw [findIstDonorByStateLoop]
    by_cases hc : (istCandidate joinerIdx istSeqno status idx node && groupNodeIsStateful g node) = true
    case neg =>
      rw [if_neg hc]
      exact findIstDonorByStateLoop_returns segment (idx + 1) rest _ hdrop h₁ h₂
    case pos =>
      rw [if_pos hc]
      rw [Bool.and_eq_true] at hc
      -- the node may replace the best donor on its side of the segment boundary
      have hnew : ∀ (best : Int) (c : Bool), Returns g (IstDonor g joinerIdx status istSeqno []) best →
          Returns g (IstDonor g joinerIdx status istSeqno []) (if c = true then (idx : Int) else best) := by
        intro best c hb
        cases c
        · exact hb
        · exact Returns.of_getElem? hget ⟨hc.1, .inl hc.2⟩
      by_cases hseg : segment = node.segment
      case pos =>
        rw [if_pos hseg]
        exact findIstDonorByStateLoop_returns segment (idx + 1) rest _ hdrop (hnew localIdx _ h₁) h₂
      case neg =>
        rw [if_neg hseg]
        exact findIstDonorByStateLoop_returns segment (idx + 1) rest _ hdrop h₁ (hnew remoteIdx _ h₂)

/-- `group_find_ist_donor` gives up, or returns what one of its two
    searches returned. -/
theorem groupFindIstDonor_cases (str : List UInt8) (istOnly : Bool) :
    groupFindIstDonor g joinerIdx istSeqno status str istOnly = -1 ∨
      groupFindIstDonor g joinerIdx istSeqno status str istOnly =
        groupFindIstDonorByNameInString g joinerIdx istSeqno status str ∨
      groupFindIstDonor g joinerIdx istSeqno status str istOnly = groupFindIstDonorByState g joinerIdx istSeqno status := by
  unfold groupFindIstDonor
  dsimp only
  split_ifs <;> simp

/-- What `group_find_ist_donor` returns is an IST donor of the request. -/
theorem groupFindIstDonor_spec (str : List UInt8) (istOnly : Bool) :
    Returns g (IstDonor g joinerIdx status istSeqno (str.splitOn donorSeparator))
      (groupFindIstDonor g joinerIdx istSeqno status str istOnly) := by
  have hname : Returns g (IstDonor g joinerIdx status istSeqno (str.splitOn donorSeparator))
      (groupFindIstDonorByNameInString g joinerIdx istSeqno status str) :=
    findIstDonorInStringLoop_returns g joinerIdx status istSeqno _ _ _ (fun _ hn => hn) (Returns.of_neg (by decide))
  have hstate : Returns g (IstDonor g joinerIdx status istSeqno (str.splitOn donorSeparator))
      (groupFindIstDonorByState g joinerIdx istSeqno status) := by
    obtain ⟨h₁, h₂⟩ := findIstDonorByStateLoop_returns g joinerIdx status istSeqno
      (g.nodes.getD joinerIdx default).segment 0 g.nodes (-1, -1) List.drop_zero
      (Returns.of_neg (by decide)) (Returns.of_neg (by decide))
    -- a donor by state is stateful, whatever the request
    have hweak : ∀ i node, IstDonor g joinerIdx status istSeqno [] i node →
        IstDonor g joinerIdx status istSeqno (str.splitOn donorSeparator) i node := by
      rintro i node ⟨hc, hs | ⟨_, hn, -⟩⟩
      · exact ⟨hc, .inl hs⟩
      · exact absurd hn List.not_mem_nil
    unfold groupFindIstDonorByState
    dsimp only
    split_ifs
    · exact h₁.mono hweak
    · exact h₂.mono hweak
    · exact Returns.of_neg (by decide)
  rcases groupFindIstDonor_cases g joinerIdx status istSeqno str istOnly with h | h | h <;> rw [h]
  · exact Returns.of_neg (by decide)
  · exact hname
  · exact hstate

end Specs

/-- `gcs_group_find_donor`: a donor found is never the joiner and is
    SYNCED; an IST donor holds the history from the seqno after the
    joiner's on; any other is stateful or has a name that extends a name of
    the request. -/
theorem gcsGroupFindDonor_spec (g : DonorGroup) (strVersion : Int) (joinerIdx : Nat) (donorString : List UInt8)
    (istUuid : GuUuid) (istSeqno : Int) (istOnly : Bool) :
    Returns g (fun i node => i ≠ joinerIdx ∧ NodeState.synced ≤ node.status ∧
        ((node.cached ≠ gcsSeqnoIll ∧ node.cached ≤ istSeqno + 1) ∨ groupNodeIsStateful g node = true ∨
          ∃ name ∈ donorString.splitOn donorSeparator, name ≠ [] ∧ name <+: node.name))
      (gcsGroupFindDonor g strVersion joinerIdx donorString istUuid istSeqno istOnly) := by
  have hsst := groupForEachDonorInString_spec g joinerIdx .synced strVersion donorString
  have hist := groupFindIstDonor_spec g joinerIdx .synced istSeqno donorString istOnly
  unfold gcsGroupFindDonor
  dsimp only
  split_ifs with hv hneg hneg
  · refine hsst.mono ?_
    rintro i node ⟨hj, hs, hr⟩
    exact ⟨hj, hs, .inr hr⟩
  · refine hist.mono ?_
    rintro i node ⟨hc, -⟩
    obtain ⟨hj, hs, hcached, hle⟩ := (istCandidate_eq_true _ _ _ _ _).1 hc
    exact ⟨hj, hs, .inl ⟨hcached, hle⟩⟩
  · refine hsst.mono ?_
    rintro i node ⟨hj, hs, hr⟩
    exact ⟨hj, hs, .inr hr⟩
  · exact absurd (by decide : (-1 : Int) < 0) hneg

/-! ## §5. A name that extends the requested one -/

/-- The bytes of an ASCII string. -/
def asciiBytes (s : String) : List UInt8 := s.toList.map fun c => UInt8.ofNat c.toNat

/-- A joiner and one SYNCED node named `node10`, neither with a gcache that
    could serve IST. -/
def prefixGroup : DonorGroup :=
  { nodes := [⟨asciiBytes "joiner", .joiner, 0, gcsSeqnoIll, 0⟩, ⟨asciiBytes "node10", .synced, 0, gcsSeqnoIll, 0⟩],
    quorumVersion := 4, actId := 10, groupUuid := ⟨1⟩ }

/-- The joiner asks for `node1` and gets node 1, named `node10`: the only
    name of the request is `node1`, which is not that name. -/
theorem find_donor_by_name_prefix :
    gcsGroupFindDonor prefixGroup 2 0 (asciiBytes "node1") ⟨1⟩ 5 false = 1 ∧
      (asciiBytes "node1").splitOn donorSeparator = [asciiBytes "node1"] ∧
      prefixGroup.nodes[1]?.map DonorNode.name = some (asciiBytes "node10") ∧
      asciiBytes "node10" ≠ asciiBytes "node1" := by
  decide

end Galera.Gcs
