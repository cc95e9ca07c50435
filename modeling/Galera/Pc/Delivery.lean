/-
  Galera.Pc.Delivery
  ──────────────────
  **USER MESSAGES IN THE PRIMARY COMPONENT (`handle_down`, `handle_up`,
  `handle_msg`, `handle_user`).**

  A member in `S_PRIM` sends a user datagram down with a PC header in
  front (`handle_down`): a safe message takes the next seqno of the member,
  any other the current one.  EVS delivers every datagram to every member
  in one order; `handle_up` reads the header, `handle_msg` checks the type
  against the state, and `handle_user` checks that a safe message follows
  the last one of its source and, in a primary component, gives it the
  next TO seqno before it goes up.

  Main results:
    * `PcProto.handleMsg_user`, `PcProto.handleDown_prim` — one message
      received, one sent, in a primary component;
    * `PcProto.handleUps_spec` — a run of user messages in sequence: every
      one goes up in EVS order, the safe ones with the next TO seqnos;
    * `PcProto.handleUps_ok_iff` — a run goes through exactly when it is
      in sequence with the member's records of its sources;
    * `PcProto.handleUps_outside_spec` — outside a primary component the
      members' messages go up with -1 and the others are dropped;
    * `toSeq_agreement` — two members at one TO seqno deliver a run alike;
    * `PcProto.handleDowns_spec`, `send_deliver_agreement` — the senders'
      seqnos and a receiver's records stay in step over any interleaving.
-/
import Mathlib
import Galera.Pc.Message

namespace Galera.Pc

open Galera.Evs (Uuid ViewId Order EvsCodecError gcommProtocolMaxVersion)

/-! ## §1. The model -/

/-- The parts of `ProtoUpMeta` `handle_msg` reads: the source, the order
    and the user type. -/
structure UpMeta where
  source : Uuid
  order : Order
  userType : UInt8

namespace PcProto

/-- The end of `handle_user`: a safe message must follow the last one of
    its source, which it then becomes; the message goes up with the TO
    seqno given. -/
def deliverUser (p : PcProto) (msg : PcMessage) (payload : List UInt8) (um : UpMeta) (currToSeq : Int) :
    Except PcError PcProto := do
  let p ← if um.order = .safe then do
      let state ← nodeOf p.instances um.source
      if state.lastSeq + 1 ≠ msg.seq then throw .messageGap
      pure { p with instances := p.instances.modify um.source fun n => { n with lastSeq := msg.seq } }
    else pure p
  pure { p with out := p.out ++ [.deliver um.source p.pcView.id um.userType um.order currToSeq payload] }

/-- `handle_user`: in a primary component a safe message takes the next TO
    seqno; outside one, a message from a node not in the view is dropped,
    which only a transitional view may see. -/
def handleUser (p : PcProto) (msg : PcMessage) (payload : List UInt8) (um : UpMeta) : Except PcError PcProto :=
  if p.prim then
    if um.order = .safe then
      let p := p.setToSeq (p.toSeq + 1)
      p.deliverUser msg payload um p.toSeq
    else p.deliverUser msg payload um (-1)
  else if !p.currentView.members.keys.contains um.source then
    if p.currentView.id.type = .trans then pure p else throw .assertion
  else p.deliverUser msg payload um (-1)

end PcProto

/-- The verdicts of `handle_msg`. -/
inductive Verdict
  | accept
  | drop
  | fail
  deriving DecidableEq, Repr

/-- The table `verdicts` of `handle_msg`, by state and message type. -/
def verdict : PcState → PcMessageType → Verdict
  | .closed, _ => .fail
  | _, .none => .fail
  | .statesExch, .state => .accept
  | .statesExch, _ => .fail
  | .install, .install => .accept
  | .install, _ => .fail
  | .prim, .state => .fail
  | .prim, _ => .accept
  | .trans, .state => .drop
  | .trans, _ => .accept
  | .nonPrim, _ => .accept

namespace PcProto

/-- `handle_msg`. -/
def handleMsg (p : PcProto) (msg : PcMessage) (payload : List UInt8) (um : UpMeta) : Except PcError PcProto :=
  match verdict p.state msg.type with
  | .fail => throw .invalidInput
  | .drop => pure p
  | .accept =>
    match msg.type with
    | .state => p.handleState msg.nodeMap um.source
    | .install => p.handleInstall msg um.source
    | .user => p.handleUser msg payload um
    | .none => throw .invalidMessage

/-- `handle_up` of a datagram: the header is read from its start, and the
    rest of it is the payload.  A version this member does not support is
    fatal outside a primary component, and dropped in one. -/
def handleUp (p : PcProto) (dg : List UInt8) (um : UpMeta) : Except PcError PcProto :=
  match pcMessageUnserialize dg 0 with
  | .error .protoNotSupported => if p.prim then pure p else throw .unsupportedProtocol
  | .error e => throw (.codec e)
  | .ok (msg, _) => p.handleMsg msg (dg.drop (pcMessageSerialSize msg)) um

end PcProto

/-- The errnos `handle_down` returns: `ENOTCONN`, `EAGAIN`, `EMSGSIZE`. -/
def enotconn : Nat := 107

def eagain : Nat := 11

def emsgsize : Nat := 90

/-- `UserMessage(version, seq)`. -/
def userHeader (version : Nat) (seq : UInt32) : PcMessage :=
  { version, flags := 0, type := .user, seq, crc16 := 0, nodeMap := SortedMap.empty }

namespace PcProto

/-- `handle_down` of a payload with the answer `ret` of `send_down`: only a
    primary component sends; a safe message takes the next seqno, which
    becomes the last sent once `send_down` took the datagram. -/
def handleDown (p : PcProto) (mtu version : Nat) (order : Order) (payload : List UInt8) (ret : Nat) :
    Except PcError (PcProto × Nat) :=
  match p.state with
  | .closed | .nonPrim => pure (p, enotconn)
  | .statesExch | .install | .trans => pure (p, eagain)
  | .prim =>
    if payload.length > mtu then pure (p, emsgsize)
    else
      let seq := if order = .safe then p.lastSentSeq + 1 else p.lastSentSeq
      let um := userHeader version seq
      -- `push_header`: the header written in front of the payload
      match pcMessageSerialize um (List.replicate (pcMessageSerialSize um) 0) 0 with
      | .error e => throw (.codec e)
      | .ok (hdr, _) =>
        if ret = 0 then pure ({ p with lastSentSeq := seq, out := p.out ++ [.send (hdr ++ payload) order] }, 0)
        else pure (p, ret)

end PcProto

/-! ## §2. One user message -/

/-- The datagram `handle_down` sends: the header of the user message, then
    the payload. -/
def userDatagram (version : Nat) (seq : UInt32) (payload : List UInt8) : List UInt8 :=
  pcMessageBytes (userHeader version seq) ++ payload

/-- The seqno a member holds for the last safe message of a node. -/
def PcProto.lastSeqOf (p : PcProto) (s : Uuid) : Option UInt32 := (p.instances.find? s).map (·.lastSeq)

theorem userHeader_wireOk {version : Nat} (hv : version ≤ gcommProtocolMaxVersion) (seq : UInt32) :
    (userHeader version seq).WireOk :=
  ⟨hv, fun h => PcMessageType.noConfusion h, fun h => absurd h Bool.false_ne_true,
    fun h => absurd h Bool.false_ne_true⟩

theorem onWire_userHeader (version : Nat) (seq : UInt32) : (userHeader version seq).onWire = userHeader version seq :=
  rfl

/-- The header of a user datagram reads back from its start. -/
theorem unserialize_userDatagram {version : Nat} (hv : version ≤ gcommProtocolMaxVersion) (seq : UInt32)
    (payload : List UInt8) :
    pcMessageUnserialize (userDatagram version seq payload) 0 =
      .ok (userHeader version seq, pcMessageSerialSize (userHeader version seq)) := by
  have hr := reads_pcMessageUnserialize (userHeader_wireOk hv seq) [] payload
  simp only [List.nil_append, List.length_nil, Nat.zero_add, onWire_userHeader] at hr
  exact hr

/-- `push_header` of a user message: its header written into the room
    made for it is its bytes. -/
theorem pushHeader_userHeader {version : Nat} (hv : version ≤ gcommProtocolMaxVersion) (seq : UInt32) :
    pcMessageSerialize (userHeader version seq) (List.replicate (pcMessageSerialSize (userHeader version seq)) 0) 0 =
      .ok (pcMessageBytes (userHeader version seq), pcMessageSerialSize (userHeader version seq)) := by
  have hlen : (List.replicate (pcMessageSerialSize (userHeader version seq)) (0 : UInt8)).length =
      (pcMessageBytes (userHeader version seq)).length := by
    rw [List.length_replicate, length_pcMessageBytes]
  have hw := (writes_pcMessageSerialize (userHeader_wireOk hv seq) _ 0 (Nat.zero_le _)).1 (by rw [hlen, Nat.zero_add])
  rw [hw, Galera.Bytes.overwrite_zero_of_length_eq hlen, Nat.zero_add, length_pcMessageBytes]

/-- Two user datagrams of one version are the same only with the same
    seqno and payload. -/
theorem userDatagram_inj {version : Nat} (hv : version ≤ gcommProtocolMaxVersion) {seq seq' : UInt32}
    {payload payload' : List UInt8} (h : userDatagram version seq payload = userDatagram version seq' payload') :
    seq = seq' ∧ payload = payload' := by
  have hhdr := unserialize_userDatagram hv seq payload
  rw [h, unserialize_userDatagram hv seq' payload'] at hhdr
  have hseq : seq' = seq := congrArg (fun r : PcMessage × Nat => r.1.seq) (Except.ok.inj hhdr)
  subst hseq
  exact ⟨rfl, List.append_cancel_left h⟩

namespace PcProto

/-- A user datagram is read as its header, and its payload goes on. -/
theorem handleUp_userDatagram {p : PcProto} {version : Nat} (hv : version ≤ gcommProtocolMaxVersion) (seq : UInt32)
    (payload : List UInt8) (um : UpMeta) :
    p.handleUp (userDatagram version seq payload) um = p.handleMsg (userHeader version seq) payload um := by
  unfold handleUp
  rw [unserialize_userDatagram hv]
  dsimp only
  rw [userDatagram, ← length_pcMessageBytes, List.drop_left]

/-- `handle_down` in `S_PRIM` of a payload that fits: a safe message takes
    the next seqno; the datagram goes down, and once `send_down` took it
    its seqno is the last sent. -/
theorem handleDown_prim {p : PcProto} (hs : p.state = .prim) {mtu version : Nat}
    (hv : version ≤ gcommProtocolMaxVersion) (order : Order) (payload : List UInt8) (ret : Nat)
    (hmtu : payload.length ≤ mtu) :
    p.handleDown mtu version order payload ret =
      .ok (if ret = 0 then
        ({ p with
          lastSentSeq := if order = .safe then p.lastSentSeq + 1 else p.lastSentSeq
          out := p.out ++ [.send (userDatagram version (if order = .safe then p.lastSentSeq + 1 else p.lastSentSeq)
            payload) order] }, 0)
        else (p, ret)) := by
  unfold handleDown
  rw [hs]
  dsimp only
  rw [if_neg (Nat.not_lt.mpr hmtu), pushHeader_userHeader hv]
  dsimp only
  split <;> rfl

theorem deliverUser_safe {p : PcProto} {msg : PcMessage} {payload : List UInt8} {um : UpMeta} {T : Int} {n : PcNode}
    (hsafe : um.order = .safe) (hsrc : p.instances.find? um.source = some n) (hseq : n.lastSeq + 1 = msg.seq) :
    p.deliverUser msg payload um T = .ok
      { p with
        instances := p.instances.modify um.source fun n => { n with lastSeq := msg.seq }
        out := p.out ++ [.deliver um.source p.pcView.id um.userType um.order T payload] } := by
  unfold deliverUser
  simp only [hsafe, if_true, nodeOf, hsrc, ok_bind, hseq, ne_eq, not_true_eq_false, if_false, except_pure]

theorem deliverUser_other {p : PcProto} {msg : PcMessage} {payload : List UInt8} {um : UpMeta} {T : Int}
    (hsafe : um.order ≠ .safe) :
    p.deliverUser msg payload um T =
      .ok { p with out := p.out ++ [.deliver um.source p.pcView.id um.userType um.order T payload] } := by
  unfold deliverUser
  simp only [hsafe, if_false, except_pure, ok_bind]

/-- A safe message that does not follow the last one of its source, or of
    a source with no instance, is fatal. -/
theorem deliverUser_gap {p : PcProto} {msg : PcMessage} {payload : List UInt8} {um : UpMeta} {T : Int}
    (hsafe : um.order = .safe) (hgap : ¬ ∃ x, p.lastSeqOf um.source = some x ∧ x + 1 = msg.seq) :
    ∃ e, p.deliverUser msg payload um T = .error e := by
  unfold deliverUser
  cases hsrc : p.instances.find? um.source with
  | none =>
    refine ⟨.notFound, ?_⟩
    simp only [hsafe, if_true, nodeOf, hsrc, error_bind]
  | some n =>
    have hne : n.lastSeq + 1 ≠ msg.seq := fun h => hgap ⟨n.lastSeq, by rw [lastSeqOf, hsrc]; rfl, h⟩
    refine ⟨.messageGap, ?_⟩
    simp only [hsafe, if_true, nodeOf, hsrc, ok_bind, hne, ne_eq, not_false_eq_true, if_true, except_throw,
      error_bind]

end PcProto

theorem isSome_find?_modify (m : PcNodeMap) (k u : Uuid) (g : PcNode → PcNode) :
    ((m.modify k g).find? u).isSome = (m.find? u).isSome := by
  rw [SortedMap.find?_modify]
  split
  · rw [Option.isSome_map]
  · rfl

/-- A change of one node that keeps a field of every node keeps that field
    of the own node. -/
theorem selfNodeIn_modify_of {α : Type} (f : PcNode → α) {m : PcNodeMap} {self : Uuid}
    (k : Uuid) (g : PcNode → PcNode) (hg : ∀ n, f (g n) = f n) :
    f (selfNodeIn (m.modify k g) self) = f (selfNodeIn m self) := by
  unfold selfNodeIn
  rw [SortedMap.find?_modify]
  split
  · cases m.find? self with
    | none => rfl
    | some n => exact hg n
  · rfl

theorem lastSeqOf_modify {p : PcProto} (k s : Uuid) (g : PcNode → PcNode) (hg : ∀ n, (g n).lastSeq = n.lastSeq) :
    ((p.instances.modify k g).find? s).map (·.lastSeq) = p.lastSeqOf s := by
  rw [SortedMap.find?_modify, PcProto.lastSeqOf]
  split
  · rw [Option.map_map]
    exact Option.map_congr fun n _ => hg n
  · rfl

/-- The records after `set_last_seq` of a source with an instance. -/
theorem find?_setLastSeq {m : PcNodeMap} {src : Uuid} {n : PcNode} (hn : m.find? src = some n) (seq : UInt32)
    (s : Uuid) :
    ((m.modify src fun n => { n with lastSeq := seq }).find? s).map (·.lastSeq) =
      if s = src then some seq else (m.find? s).map (·.lastSeq) := by
  rw [SortedMap.find?_modify]
  by_cases hs : s = src
  · subst hs
    rw [if_pos rfl, if_pos rfl, hn]
    rfl
  · rw [if_neg hs, if_neg hs]

/-- A member of a primary component, primary itself with its own node. -/
structure PrimMember (p : PcProto) : Prop where
  state : p.state = .prim
  prim : p.prim = true
  self : (p.instances.find? p.uuid).isSome

namespace PcProto

/-- In `S_PRIM` the table of `handle_msg` accepts a user message. -/
theorem handleMsg_userHeader {p : PcProto} (hs : p.state = .prim) (version : Nat) (seq : UInt32)
    (payload : List UInt8) (um : UpMeta) :
    p.handleMsg (userHeader version seq) payload um = p.handleUser (userHeader version seq) payload um := by
  unfold handleMsg
  rw [hs]
  rfl

/-- One user message delivered to a member of a primary component: when it
    is safe and follows the last one of its source, it takes the next TO
    seqno and becomes the last of its source; any other goes up with -1. -/
theorem handleMsg_user {p : PcProto} (hp : PrimMember p) (version : Nat) (seq : UInt32) (payload : List UInt8)
    (um : UpMeta) (hgap : um.order = .safe → ∃ x, p.lastSeqOf um.source = some x ∧ x + 1 = seq) :
    ∃ r, p.handleMsg (userHeader version seq) payload um = .ok r ∧ PrimMember r ∧ r.uuid = p.uuid ∧
      r.pcView = p.pcView ∧ r.toSeq = (if um.order = .safe then p.toSeq + 1 else p.toSeq) ∧
      (∀ s, r.lastSeqOf s = if um.order = .safe ∧ s = um.source then some seq else p.lastSeqOf s) ∧
      r.out = p.out ++ [.deliver um.source p.pcView.id um.userType um.order
        (if um.order = .safe then p.toSeq + 1 else -1) payload] := by
  rw [handleMsg_userHeader hp.state]
  unfold handleUser
  rw [if_pos hp.prim]
  by_cases hsafe : um.order = .safe
  · -- the TO seqno moves on, and the source's last seqno becomes this one
    obtain ⟨x, hx, hxs⟩ := hgap hsafe
    obtain ⟨n, hn, rfl⟩ := Option.map_eq_some_iff.mp hx
    have hn1 : (p.setToSeq (p.toSeq + 1)).instances.find? um.source =
        some (if um.source = p.uuid then { n with toSeq := p.toSeq + 1 } else n) := by
      rw [find?_setToSeq, hn]
      split <;> rfl
    have hself1 : ((p.setToSeq (p.toSeq + 1)).instances.find? p.uuid).isSome := by
      rw [setToSeq, isSome_find?_modify]
      exact hp.self
    rw [if_pos hsafe, deliverUser_safe hsafe hn1 (by split <;> exact hxs)]
    refine ⟨_, rfl, ⟨hp.state, ?_, ?_⟩, rfl, rfl, ?_, fun s => ?_, ?_⟩
    · show (selfNodeIn (((p.setToSeq (p.toSeq + 1)).instances).modify um.source _) p.uuid).prim = true
      rw [selfNodeIn_modify_of PcNode.prim]
      · show (selfNodeIn (p.instances.modify p.uuid _) p.uuid).prim = true
        rw [selfNodeIn_modify_of PcNode.prim]
        · exact hp.prim
        · intro _; rfl
      · intro _; rfl
    · show ((((p.setToSeq (p.toSeq + 1)).instances).modify um.source _).find? p.uuid).isSome
      rw [isSome_find?_modify]
      exact hself1
    · show (selfNodeIn (((p.setToSeq (p.toSeq + 1)).instances).modify um.source _) p.uuid).toSeq = _
      rw [selfNodeIn_modify_of PcNode.toSeq, if_pos hsafe]
      · exact toSeq_setToSeq _ hp.self
      · intro _; rfl
    · show ((((p.setToSeq (p.toSeq + 1)).instances).modify um.source _).find? s).map (·.lastSeq) = _
      rw [find?_setLastSeq hn1]
      by_cases hs : s = um.source
      · rw [if_pos hs, if_pos ⟨hsafe, hs⟩]
        rfl
      · rw [if_neg hs, if_neg fun h => hs h.2]
        exact lastSeqOf_modify _ _ _ fun _ => rfl
    · rw [toSeq_setToSeq _ hp.self, if_pos hsafe]
      rfl
  · -- nothing changes but what goes up
    rw [if_neg hsafe, deliverUser_other hsafe]
    refine ⟨_, rfl, ⟨hp.state, hp.prim, hp.self⟩, rfl, rfl, by rw [if_neg hsafe]; rfl, fun s => ?_, by rw [if_neg hsafe]⟩
    rw [if_neg fun h => hsafe h.1]
    rfl

/-- A safe user message that does not follow the member's record of its
    source stops a member of a primary component. -/
theorem handleMsg_user_gap {p : PcProto} (hp : PrimMember p) (version : Nat) (seq : UInt32) (payload : List UInt8)
    (um : UpMeta) (hsafe : um.order = .safe) (hgap : ¬ ∃ x, p.lastSeqOf um.source = some x ∧ x + 1 = seq) :
    ∃ e, p.handleMsg (userHeader version seq) payload um = .error e := by
  -- the TO seqno set first leaves every record as it was
  have hrec : (p.setToSeq (p.toSeq + 1)).lastSeqOf um.source = p.lastSeqOf um.source :=
    lastSeqOf_modify _ _ _ fun _ => rfl
  rw [handleMsg_userHeader hp.state]
  unfold handleUser
  rw [if_pos hp.prim, if_pos hsafe]
  exact deliverUser_gap hsafe (by rw [hrec]; exact hgap)

end PcProto

/-- A member outside a primary component that takes user messages: in
    `S_TRANS` or `S_NON_PRIM`, and not primary itself. -/
structure OutsidePrim (p : PcProto) : Prop where
  state : p.state = .trans ∨ p.state = .nonPrim
  prim : p.prim = false

namespace PcProto

/-- In `S_TRANS` and `S_NON_PRIM` the table of `handle_msg` accepts a user
    message. -/
theorem handleMsg_userHeader_outside {p : PcProto} (hs : p.state = .trans ∨ p.state = .nonPrim) (version : Nat)
    (seq : UInt32) (payload : List UInt8) (um : UpMeta) :
    p.handleMsg (userHeader version seq) payload um = p.handleUser (userHeader version seq) payload um := by
  unfold handleMsg
  rcases hs with hs | hs
  · rw [hs]
    rfl
  · rw [hs]
    rfl

/-- Outside a primary component, a user message from a node outside the
    current view is dropped, as only a transitional view may see. -/
theorem handleMsg_user_dropped {p : PcProto} (hp : OutsidePrim p) (version : Nat) (seq : UInt32)
    (payload : List UInt8) (um : UpMeta) (hc : p.currentView.members.keys.contains um.source = false)
    (htrans : p.currentView.id.type = .trans) :
    p.handleMsg (userHeader version seq) payload um = .ok p := by
  rw [handleMsg_userHeader_outside hp.state]
  unfold handleUser
  rw [if_neg (by rw [hp.prim]; exact Bool.false_ne_true), hc, if_pos (by decide), if_pos htrans]
  rfl

/-- Outside a primary component, a user message from a member of the
    current view goes up with the TO seqno -1; a safe one must follow the
    last one of its source, which it then becomes. -/
theorem handleMsg_user_member {p : PcProto} (hp : OutsidePrim p) (version : Nat) (seq : UInt32)
    (payload : List UInt8) (um : UpMeta) (hc : p.currentView.members.keys.contains um.source = true)
    (hgap : um.order = .safe → ∃ x, p.lastSeqOf um.source = some x ∧ x + 1 = seq) :
    ∃ r, p.handleMsg (userHeader version seq) payload um = .ok r ∧ OutsidePrim r ∧
      r.currentView = p.currentView ∧ r.pcView = p.pcView ∧ r.toSeq = p.toSeq ∧
      (∀ s, r.lastSeqOf s = if um.order = .safe ∧ s = um.source then some seq else p.lastSeqOf s) ∧
      r.out = p.out ++ [.deliver um.source p.pcView.id um.userType um.order (-1) payload] := by
  rw [handleMsg_userHeader_outside hp.state]
  unfold handleUser
  rw [if_neg (by rw [hp.prim]; exact Bool.false_ne_true), hc, if_neg (by decide)]
  by_cases hsafe : um.order = .safe
  · -- the source's last seqno becomes this one; nothing else of the member changes
    obtain ⟨x, hx, hxs⟩ := hgap hsafe
    obtain ⟨n, hn, rfl⟩ := Option.map_eq_some_iff.mp hx
    rw [deliverUser_safe hsafe hn hxs]
    refine ⟨_, rfl, ⟨hp.state, ?_⟩, rfl, rfl, ?_, fun s => ?_, rfl⟩
    · show (selfNodeIn (p.instances.modify um.source _) p.uuid).prim = false
      rw [selfNodeIn_modify_of PcNode.prim]
      · exact hp.prim
      · intro _; rfl
    · show (selfNodeIn (p.instances.modify um.source _) p.uuid).toSeq = _
      rw [selfNodeIn_modify_of PcNode.toSeq]
      · rfl
      · intro _; rfl
    · show ((p.instances.modify um.source _).find? s).map (·.lastSeq) = _
      rw [find?_setLastSeq hn]
      by_cases hs : s = um.source
      · rw [if_pos hs, if_pos ⟨hsafe, hs⟩]
        rfl
      · rw [if_neg hs, if_neg fun h => hs h.2]
        rfl
  · rw [deliverUser_other hsafe]
    refine ⟨_, rfl, ⟨hp.state, hp.prim⟩, rfl, rfl, rfl, fun s => ?_, rfl⟩
    rw [if_neg fun h => hsafe h.1]
    rfl

end PcProto

/-! ## §3. A run of user messages at a receiver -/

/-- A user message as EVS delivers it: the seqno of its PC header, its
    payload, and what EVS tells of it. -/
structure UserDelivery where
  seq : UInt32
  payload : List UInt8
  um : UpMeta

/-- The datagram of a user message in a view of version `version`. -/
def UserDelivery.datagram (version : Nat) (d : UserDelivery) : List UInt8 × UpMeta :=
  (userDatagram version d.seq d.payload, d.um)

/-- `handle_up` of each datagram EVS delivers, in the order it delivers
    them. -/
def PcProto.handleUps (p : PcProto) (ds : List (List UInt8 × UpMeta)) : Except PcError PcProto :=
  ds.foldlM (fun p d => p.handleUp d.1 d.2) p

/-- The seqnos of the safe messages of source `s`, in the order delivered. -/
def safeSeqs (ds : List UserDelivery) (s : Uuid) : List UInt32 :=
  (ds.filter fun d => d.um.source = s ∧ d.um.order = .safe).map (·.seq)

/-- Each seqno is one past the one before, the first one past `last`:
    what `handle_user` asks of the safe messages of one source. -/
def chainsFrom : Option UInt32 → List UInt32 → Bool
  | _, [] => true
  | some x, y :: ys => x + 1 == y && chainsFrom (some y) ys
  | none, _ :: _ => false

/-- The safe messages of every source of `ds` follow the member's record
    of that source. -/
def PcProto.inSequence (p : PcProto) (ds : List UserDelivery) : Bool :=
  ds.all fun d => chainsFrom (p.lastSeqOf d.um.source) (safeSeqs ds d.um.source)

/-- What a member of a primary component of view `viewId` delivers of `ds`
    from the TO seqno `t` on: the safe messages with the next TO seqnos,
    the others with -1. -/
def numbered (viewId : ViewId) : Int → List UserDelivery → List PcOutput
  | _, [] => []
  | t, d :: ds =>
    if d.um.order = .safe then
      .deliver d.um.source viewId d.um.userType d.um.order (t + 1) d.payload :: numbered viewId (t + 1) ds
    else .deliver d.um.source viewId d.um.userType d.um.order (-1) d.payload :: numbered viewId t ds

theorem handleUps_cons (p : PcProto) (d : List UInt8 × UpMeta) (ds : List (List UInt8 × UpMeta)) :
    p.handleUps (d :: ds) = p.handleUp d.1 d.2 >>= fun q => q.handleUps ds :=
  List.foldlM_cons

/-- A run of user datagrams starts with the header of the first. -/
theorem handleUps_datagram_cons {p : PcProto} {version : Nat} (hv : version ≤ gcommProtocolMaxVersion)
    (d : UserDelivery) (ds : List UserDelivery) :
    p.handleUps ((d :: ds).map (·.datagram version)) =
      p.handleMsg (userHeader version d.seq) d.payload d.um >>= fun q => q.handleUps (ds.map (·.datagram version)) := by
  rw [List.map_cons, handleUps_cons]
  show (p.handleUp (userDatagram version d.seq d.payload) d.um >>= _) = _
  rw [PcProto.handleUp_userDatagram hv]

@[simp] theorem safeSeqs_nil (s : Uuid) : safeSeqs [] s = [] := rfl

theorem safeSeqs_cons (d : UserDelivery) (ds : List UserDelivery) (s : Uuid) :
    safeSeqs (d :: ds) s = if d.um.source = s ∧ d.um.order = .safe then d.seq :: safeSeqs ds s else safeSeqs ds s := by
  unfold safeSeqs
  rw [List.filter_cons]
  split <;> simp_all

theorem chainsFrom_cons (o : Option UInt32) (y : UInt32) (ys : List UInt32) :
    chainsFrom o (y :: ys) = true ↔ ∃ x, o = some x ∧ x + 1 = y ∧ chainsFrom (some y) ys = true := by
  cases o with
  | none => simp [chainsFrom]
  | some x => simp [chainsFrom]

theorem getLast?_cons_or {α : Type} (x : α) (l : List α) (o : Option α) :
    (x :: l).getLast?.or o = l.getLast?.or (some x) := by
  rw [List.getLast?_cons, Option.some_or, Option.or_some]

/-- A node with no message in the run has no safe seqno in it. -/
theorem safeSeqs_eq_nil (ds : List UserDelivery) (s : Uuid) (h : ∀ d ∈ ds, d.um.source ≠ s) : safeSeqs ds s = [] := by
  unfold safeSeqs
  rw [List.map_eq_nil_iff, List.filter_eq_nil_iff]
  intro d hd hds
  exact h d hd (of_decide_eq_true hds).1

/-- `inSequence` asks it of every node, a node with no message having
    nothing to follow. -/
theorem inSequence_iff (p : PcProto) (ds : List UserDelivery) :
    p.inSequence ds = true ↔ ∀ s, chainsFrom (p.lastSeqOf s) (safeSeqs ds s) = true := by
  constructor
  · intro h s
    by_cases hs : ∃ d ∈ ds, d.um.source = s
    · obtain ⟨d, hd, rfl⟩ := hs
      exact List.all_eq_true.mp h d hd
    · rw [safeSeqs_eq_nil ds s fun d hd hds => hs ⟨d, hd, hds⟩]
      cases p.lastSeqOf s <;> rfl
  · intro h
    exact List.all_eq_true.mpr fun d _ => h d.um.source

/-- A member of the fixtures' primary component, after the install. -/
def fixturePrim (self : Uuid) : PcProto := runInstall (fixtureInstalling self) fixtureInstall (fixtureUuid 1)

theorem primMember_fixturePrim (k : Nat) (hk : k = 1 ∨ k = 2) : PrimMember (fixturePrim (fixtureUuid k)) := by
  rcases hk with rfl | rfl
  · exact ⟨by decide, by decide, by decide⟩
  · exact ⟨by decide, by decide, by decide⟩

/-- Two safe messages of the first member around a FIFO one of the second. -/
def fixtureRun : List UserDelivery :=
  [⟨1, [7], ⟨fixtureUuid 1, .safe, 0⟩⟩, ⟨0, [9], ⟨fixtureUuid 2, .fifo, 0⟩⟩, ⟨2, [8], ⟨fixtureUuid 1, .safe, 0⟩⟩]

/-- What the two members hand to `handle_down` for `fixtureRun`, with a
    send the layer below refused. -/
def fixtureSends (s : Uuid) : List (Order × List UInt8 × Nat) :=
  if s = fixtureUuid 1 then [(.safe, [7], 0), (.safe, [6], eagain), (.safe, [8], 0)] else [(.fifo, [9], 0)]

namespace PcProto

/-- The first message of a run in sequence, when safe, follows its
    source's record. -/
theorem inSequence_first {p : PcProto} {d : UserDelivery} {ds : List UserDelivery}
    (hseq : p.inSequence (d :: ds) = true) :
    d.um.order = .safe → ∃ x, p.lastSeqOf d.um.source = some x ∧ x + 1 = d.seq := by
  intro hsafe
  have hd := (inSequence_iff p _).mp hseq d.um.source
  rw [safeSeqs_cons, if_pos ⟨rfl, hsafe⟩, chainsFrom_cons] at hd
  obtain ⟨x, hx, hxs, -⟩ := hd
  exact ⟨x, hx, hxs⟩

/-- The first message of a run in sequence follows its source's record,
    and the rest of the run is in sequence with the records after it. -/
theorem inSequence_cons {p r : PcProto} {d : UserDelivery} (ds : List UserDelivery)
    (hlast : ∀ s, r.lastSeqOf s = if d.um.order = .safe ∧ s = d.um.source then some d.seq else p.lastSeqOf s) :
    p.inSequence (d :: ds) = true ↔
      (d.um.order = .safe → ∃ x, p.lastSeqOf d.um.source = some x ∧ x + 1 = d.seq) ∧ r.inSequence ds = true := by
  rw [inSequence_iff, inSequence_iff]
  constructor
  · intro h
    refine ⟨fun hsafe => ?_, fun s => ?_⟩
    · have hd := h d.um.source
      rw [safeSeqs_cons, if_pos ⟨rfl, hsafe⟩, chainsFrom_cons] at hd
      obtain ⟨x, hx, hxs, -⟩ := hd
      exact ⟨x, hx, hxs⟩
    · have hs := h s
      rw [hlast, safeSeqs_cons] at *
      by_cases hds : d.um.order = .safe ∧ s = d.um.source
      · rw [if_pos hds]
        rw [if_pos ⟨hds.2.symm, hds.1⟩, chainsFrom_cons] at hs
        obtain ⟨_, _, _, hrest⟩ := hs
        exact hrest
      · rw [if_neg hds]
        rwa [if_neg fun h' => hds ⟨h'.2, h'.1.symm⟩] at hs
  · rintro ⟨hfirst, hrest⟩ s
    have hs := hrest s
    rw [hlast] at hs
    rw [safeSeqs_cons]
    by_cases hds : d.um.order = .safe ∧ s = d.um.source
    · rw [if_pos ⟨hds.2.symm, hds.1⟩, chainsFrom_cons]
      rw [if_pos hds] at hs
      obtain ⟨x, hx, hxs⟩ := hfirst hds.1
      exact ⟨x, hds.2 ▸ hx, hxs, hs⟩
    · rw [if_neg fun h' => hds ⟨h'.2, h'.1.symm⟩]
      rwa [if_neg hds] at hs

/-- A run of user messages in sequence at a member of a primary component:
    every message goes up, in the order EVS delivered them, the safe ones
    with the next TO seqnos; each source's record becomes its last safe
    seqno, and the member stays primary.  By induction on the run, from
    `handleMsg_user`. -/
theorem handleUps_spec {p : PcProto} (hp : PrimMember p) {version : Nat} (hv : version ≤ gcommProtocolMaxVersion)
    (ds : List UserDelivery) (hseq : p.inSequence ds = true) :
    ∃ r, p.handleUps (ds.map (·.datagram version)) = .ok r ∧ PrimMember r ∧ r.uuid = p.uuid ∧
      r.pcView = p.pcView ∧ r.toSeq = p.toSeq + ds.countP (fun d => d.um.order = .safe) ∧
      (∀ s, r.lastSeqOf s = (safeSeqs ds s).getLast?.or (p.lastSeqOf s)) ∧
      r.out = p.out ++ numbered p.pcView.id p.toSeq ds := by
  induction ds generalizing p with
  | nil =>
    refine ⟨p, rfl, hp, rfl, rfl, ?_, fun s => rfl, ?_⟩
    · rw [List.countP_nil, Nat.cast_zero, add_zero]
    · rw [numbered, List.append_nil]
  | cons d ds ih =>
    have hfirst := inSequence_first hseq
    obtain ⟨r₁, h₁, hp₁, huuid₁, hview₁, hto₁, hlast₁, hout₁⟩ := handleMsg_user hp version d.seq d.payload d.um hfirst
    have hseq₁ : r₁.inSequence ds = true := ((inSequence_cons ds hlast₁).mp hseq).2
    obtain ⟨r, hr, hpr, huuid, hview, hto, hlast, hout⟩ := ih hp₁ hseq₁
    refine ⟨r, ?_, hpr, huuid.trans huuid₁, hview.trans hview₁, ?_, fun s => ?_, ?_⟩
    · rw [handleUps_datagram_cons hv, h₁, ok_bind]
      exact hr
    · rw [hto, hto₁, List.countP_cons]
      by_cases hsafe : d.um.order = .safe
      · rw [if_pos hsafe, if_pos (decide_eq_true hsafe)]
        push_cast
        ring
      · rw [if_neg hsafe, if_neg (by simpa using hsafe)]
        simp
    · rw [hlast, hlast₁, safeSeqs_cons]
      by_cases hds : d.um.order = .safe ∧ s = d.um.source
      · rw [if_pos hds, if_pos ⟨hds.2.symm, hds.1⟩, getLast?_cons_or]
      · rw [if_neg hds, if_neg fun h' => hds ⟨h'.2, h'.1.symm⟩]
    · rw [hout, hout₁, hview₁, hto₁, numbered]
      by_cases hsafe : d.um.order = .safe
      · simp only [if_pos hsafe, List.append_assoc, List.singleton_append]
      · simp only [if_neg hsafe, List.append_assoc, List.singleton_append]

/-- A member of a primary component goes through a run of user messages
    exactly when the safe messages of every source follow its record of
    that source one by one: any gap stops it. -/
theorem handleUps_ok_iff {p : PcProto} (hp : PrimMember p) {version : Nat} (hv : version ≤ gcommProtocolMaxVersion)
    (ds : List UserDelivery) :
    (∃ r, p.handleUps (ds.map (·.datagram version)) = .ok r) ↔ p.inSequence ds = true := by
  constructor
  · -- by induction on the run: a first message out of sequence stops the
    -- member, and one in sequence leaves it where the rest goes through
    intro h
    induction ds generalizing p with
    | nil => rfl
    | cons d ds ih =>
      obtain ⟨r, hr⟩ := h
      rw [handleUps_datagram_cons hv] at hr
      have hfirst : d.um.order = .safe → ∃ x, p.lastSeqOf d.um.source = some x ∧ x + 1 = d.seq := by
        intro hsafe
        by_contra hgap
        obtain ⟨e, he⟩ := handleMsg_user_gap hp version d.seq d.payload d.um hsafe hgap
        rw [he, error_bind] at hr
        cases hr
      obtain ⟨r₁, h₁, hp₁, -, -, -, hlast₁, -⟩ := handleMsg_user hp version d.seq d.payload d.um hfirst
      rw [h₁, ok_bind] at hr
      exact (inSequence_cons ds hlast₁).mpr ⟨hfirst, ih hp₁ ⟨r, hr⟩⟩
  · intro hseq
    obtain ⟨r, hr, -⟩ := handleUps_spec hp hv ds hseq
    exact ⟨r, hr⟩

theorem handleUps_ok_iff_fixture :
    PrimMember (fixturePrim (fixtureUuid 2)) ∧ 1 ≤ gcommProtocolMaxVersion ∧
      ((∃ r, (fixturePrim (fixtureUuid 2)).handleUps
          (fixtureRun.map (·.datagram 1)) = .ok r) ↔
        (fixturePrim (fixtureUuid 2)).inSequence fixtureRun = true) :=
  ⟨primMember_fixturePrim 2 (.inr rfl), le_refl 1,
    PcProto.handleUps_ok_iff (primMember_fixturePrim 2 (.inr rfl)) (le_refl 1) _⟩

end PcProto

namespace PcProto

/-- A run of user messages at a member outside a primary component, in
    `S_TRANS` or `S_NON_PRIM`: the messages of members of the current view
    go up in order with the TO seqno -1, those of other nodes are dropped
    (which only a transitional view may see), and the TO seqno stays.  By
    induction on the run, from `handleMsg_user_member` and
    `handleMsg_user_dropped`. -/
theorem handleUps_outside_spec {p : PcProto} (hp : OutsidePrim p) {version : Nat}
    (hv : version ≤ gcommProtocolMaxVersion) (ds : List UserDelivery)
    (hsrc : ∀ d ∈ ds, p.currentView.members.keys.contains d.um.source = false → p.currentView.id.type = .trans)
    (hseq : p.inSequence (ds.filter fun d => p.currentView.members.keys.contains d.um.source) = true) :
    ∃ r, p.handleUps (ds.map (·.datagram version)) = .ok r ∧ OutsidePrim r ∧ r.toSeq = p.toSeq ∧
      r.out = p.out ++ (ds.filter fun d => p.currentView.members.keys.contains d.um.source).map
        (fun d => .deliver d.um.source p.pcView.id d.um.userType d.um.order (-1) d.payload) := by
  induction ds generalizing p with
  | nil => exact ⟨p, rfl, hp, rfl, by rw [List.filter_nil, List.map_nil, List.append_nil]⟩
  | cons d ds ih =>
    have hsrc' : ∀ d' ∈ ds, p.currentView.members.keys.contains d'.um.source = false →
        p.currentView.id.type = .trans := fun d' hd' => hsrc d' (List.mem_cons_of_mem _ hd')
    rw [List.filter_cons] at hseq
    cases hc : p.currentView.members.keys.contains d.um.source with
    | false =>
      -- dropped: the member is as it was for the rest of the run
      rw [hc, if_neg Bool.false_ne_true] at hseq
      obtain ⟨r, hr, hpr, hto, hout⟩ := ih hp hsrc' hseq
      refine ⟨r, ?_, hpr, hto, ?_⟩
      · rw [handleUps_datagram_cons hv, handleMsg_user_dropped hp _ _ _ _ hc (hsrc d List.mem_cons_self hc), ok_bind]
        exact hr
      · rw [hout, List.filter_cons, hc, if_neg Bool.false_ne_true]
    | true =>
      rw [hc, if_pos rfl] at hseq
      have hfirst := inSequence_first hseq
      obtain ⟨r₁, h₁, hp₁, hcv₁, hview₁, hto₁, hlast₁, hout₁⟩ :=
        handleMsg_user_member hp version d.seq d.payload d.um hc hfirst
      -- the current view stays, so the rest of the run is judged by the same members
      have hsrc₁ : ∀ d' ∈ ds, r₁.currentView.members.keys.contains d'.um.source = false →
          r₁.currentView.id.type = .trans := by
        rw [hcv₁]
        exact hsrc'
      have hseq₁ : r₁.inSequence (ds.filter fun d => r₁.currentView.members.keys.contains d.um.source) = true := by
        rw [hcv₁]
        exact ((inSequence_cons _ hlast₁).mp hseq).2
      obtain ⟨r, hr, hpr, hto, hout⟩ := ih hp₁ hsrc₁ hseq₁
      refine ⟨r, ?_, hpr, hto.trans hto₁, ?_⟩
      · rw [handleUps_datagram_cons hv, h₁, ok_bind]
        exact hr
      · rw [hout, hout₁, hcv₁, hview₁, List.filter_cons, hc, if_pos rfl, List.map_cons, List.append_assoc]
        rfl

end PcProto

/-- The fixtures' second member after its primary component is lost. -/
def fixtureNonPrim : PcProto := { (fixturePrim (fixtureUuid 2)).markNonPrim with state := .nonPrim }

theorem handleUps_outside_spec_nonPrim :
    OutsidePrim fixtureNonPrim ∧ 1 ≤ gcommProtocolMaxVersion ∧
      (∀ d ∈ fixtureRun, fixtureNonPrim.currentView.members.keys.contains d.um.source = false →
        fixtureNonPrim.currentView.id.type = .trans) ∧
      fixtureNonPrim.inSequence (fixtureRun.filter fun d => fixtureNonPrim.currentView.members.keys.contains d.um.source) =
        true ∧
      ∃ r, fixtureNonPrim.handleUps (fixtureRun.map (·.datagram 1)) = .ok r ∧ OutsidePrim r ∧
        r.toSeq = fixtureNonPrim.toSeq ∧
        r.out = fixtureNonPrim.out ++ (fixtureRun.filter fun d => fixtureNonPrim.currentView.members.keys.contains d.um.source).map
          (fun d => .deliver d.um.source fixtureNonPrim.pcView.id d.um.userType d.um.order (-1) d.payload) := by
  have hp : OutsidePrim fixtureNonPrim := ⟨.inr rfl, by decide⟩
  -- both sources of the run are members of the view, so nothing is dropped
  have hsrc : ∀ d ∈ fixtureRun, fixtureNonPrim.currentView.members.keys.contains d.um.source = false →
      fixtureNonPrim.currentView.id.type = .trans := by
    intro d hd hc
    simp only [fixtureRun, List.mem_cons, List.not_mem_nil, or_false] at hd
    rcases hd with rfl | rfl | rfl
    · exact absurd hc (by decide)
    · exact absurd hc (by decide)
    · exact absurd hc (by decide)
  have hseq : fixtureNonPrim.inSequence
      (fixtureRun.filter fun d => fixtureNonPrim.currentView.members.keys.contains d.um.source) = true := by decide
  exact ⟨hp, le_refl 1, hsrc, hseq, PcProto.handleUps_outside_spec hp (le_refl 1) fixtureRun hsrc hseq⟩

/-- Two members of one primary component, at one TO seqno, that go through
    the same run of user messages deliver the same messages in the same
    order with the same TO seqnos, and end at one TO seqno. -/
theorem toSeq_agreement {p p' : PcProto} (hp : PrimMember p) (hp' : PrimMember p') (hview : p.pcView.id = p'.pcView.id)
    (hto : p.toSeq = p'.toSeq) {version : Nat} (hv : version ≤ gcommProtocolMaxVersion) (ds : List UserDelivery)
    (hseq : p.inSequence ds = true) (hseq' : p'.inSequence ds = true) :
    ∃ r r', p.handleUps (ds.map (·.datagram version)) = .ok r ∧ p'.handleUps (ds.map (·.datagram version)) = .ok r' ∧
      r.out.drop p.out.length = r'.out.drop p'.out.length ∧ r.toSeq = r'.toSeq := by
  obtain ⟨r, hr, -, -, -, hto₁, -, hout⟩ := PcProto.handleUps_spec hp hv ds hseq
  obtain ⟨r', hr', -, -, -, hto₁', -, hout'⟩ := PcProto.handleUps_spec hp' hv ds hseq'
  refine ⟨r, r', hr, hr', ?_, ?_⟩
  · -- what each delivers is `numbered` of the run, from one view and one TO seqno
    rw [hout, hout', List.drop_left, List.drop_left, hview, hto]
  · rw [hto₁, hto₁', hto]

theorem toSeq_agreement_two_members :
    PrimMember (fixturePrim (fixtureUuid 1)) ∧ PrimMember (fixturePrim (fixtureUuid 2)) ∧
      (fixturePrim (fixtureUuid 1)).pcView.id = (fixturePrim (fixtureUuid 2)).pcView.id ∧
      (fixturePrim (fixtureUuid 1)).toSeq = (fixturePrim (fixtureUuid 2)).toSeq ∧ 1 ≤ gcommProtocolMaxVersion ∧
      (fixturePrim (fixtureUuid 1)).inSequence fixtureRun = true ∧
      (fixturePrim (fixtureUuid 2)).inSequence fixtureRun = true ∧
      ∃ r r', (fixturePrim (fixtureUuid 1)).handleUps (fixtureRun.map (·.datagram 1)) = .ok r ∧
        (fixturePrim (fixtureUuid 2)).handleUps (fixtureRun.map (·.datagram 1)) = .ok r' ∧
        r.out.drop (fixturePrim (fixtureUuid 1)).out.length = r'.out.drop (fixturePrim (fixtureUuid 2)).out.length ∧
        r.toSeq = r'.toSeq := by
  have hp := primMember_fixturePrim 1 (.inl rfl)
  have hp' := primMember_fixturePrim 2 (.inr rfl)
  have hview : (fixturePrim (fixtureUuid 1)).pcView.id = (fixturePrim (fixtureUuid 2)).pcView.id := by decide
  have hto : (fixturePrim (fixtureUuid 1)).toSeq = (fixturePrim (fixtureUuid 2)).toSeq := by decide
  have hseq : (fixturePrim (fixtureUuid 1)).inSequence fixtureRun = true := by decide
  have hseq' : (fixturePrim (fixtureUuid 2)).inSequence fixtureRun = true := by decide
  exact ⟨hp, hp', hview, hto, le_refl 1, hseq, hseq', toSeq_agreement hp hp' hview hto (le_refl 1) fixtureRun hseq hseq'⟩

/-! ## §4. Senders and a receiver -/

/-- `handle_down` of each payload in turn, with what `send_down` answered
    for it. -/
def PcProto.handleDowns (p : PcProto) (mtu version : Nat) (sends : List (Order × List UInt8 × Nat)) :
    Except PcError PcProto :=
  sends.foldlM (fun p x => Prod.fst <$> p.handleDown mtu version x.1 x.2.1 x.2.2) p

/-- The seqnos of the safe ones among seqnos with their orders. -/
def safeOf (l : List (UInt32 × Order)) : List UInt32 := (l.filter fun x => x.2 = .safe).map (·.1)

theorem handleDowns_cons (p : PcProto) (mtu version : Nat) (x : Order × List UInt8 × Nat)
    (xs : List (Order × List UInt8 × Nat)) :
    p.handleDowns mtu version (x :: xs) =
      (Prod.fst <$> p.handleDown mtu version x.1 x.2.1 x.2.2) >>= fun q => q.handleDowns mtu version xs :=
  List.foldlM_cons

theorem safeOf_cons (y : UInt32) (o : Order) (l : List (UInt32 × Order)) :
    safeOf ((y, o) :: l) = if o = .safe then y :: safeOf l else safeOf l := by
  unfold safeOf
  rw [List.filter_cons]
  split <;> simp_all

/-- The safe seqnos of a source are those of its messages, with their
    orders, in the order delivered. -/
theorem safeSeqs_eq_safeOf (ds : List UserDelivery) (s : Uuid) :
    safeSeqs ds s = safeOf ((ds.filter fun d => d.um.source = s).map fun d => (d.seq, d.um.order)) := by
  induction ds with
  | nil => rfl
  | cons d ds ih =>
    rw [safeSeqs_cons, List.filter_cons]
    by_cases hs : d.um.source = s
    · rw [if_pos (decide_eq_true hs), List.map_cons, safeOf_cons, ← ih]
      by_cases ho : d.um.order = .safe
      · rw [if_pos ⟨hs, ho⟩, if_pos ho]
      · rw [if_neg fun h => ho h.2, if_neg ho]
    · rw [if_neg fun h => hs h.1, if_neg (by simpa using hs), ih]

namespace PcProto

/-- A run of sends of a member in `S_PRIM`: what goes down are the user
    datagrams of the payloads `send_down` took, in order, whose safe seqnos
    follow the last sent one by one; the last of them is then the last
    sent.  By induction on the sends, from `handleDown_prim`. -/
theorem handleDowns_spec {p : PcProto} (hs : p.state = .prim) {mtu version : Nat}
    (hv : version ≤ gcommProtocolMaxVersion) (sends : List (Order × List UInt8 × Nat))
    (hmtu : ∀ x ∈ sends, x.2.1.length ≤ mtu) :
    ∃ r, ∃ xs : List (UInt32 × Order × List UInt8), p.handleDowns mtu version sends = .ok r ∧
      r.out = p.out ++ xs.map (fun x => PcOutput.send (userDatagram version x.1 x.2.2) x.2.1) ∧
      chainsFrom (some p.lastSentSeq) (safeOf (xs.map fun x => (x.1, x.2.1))) = true ∧
      r.lastSentSeq = (safeOf (xs.map fun x => (x.1, x.2.1))).getLast?.getD p.lastSentSeq := by
  induction sends generalizing p with
  | nil => exact ⟨p, [], rfl, (List.append_nil _).symm, rfl, rfl⟩
  | cons x sends ih =>
    obtain ⟨o, pl, ret⟩ := x
    have hdown := handleDown_prim hs hv o pl ret (hmtu _ List.mem_cons_self)
    have hmtu' : ∀ x ∈ sends, x.2.1.length ≤ mtu := fun x hx => hmtu x (List.mem_cons_of_mem _ hx)
    by_cases hret : ret = 0
    · -- `send_down` took it: it goes out with its seqno, which is now the last sent
      rw [if_pos hret] at hdown
      have hs₁ : ({ p with
          lastSentSeq := if o = .safe then p.lastSentSeq + 1 else p.lastSentSeq
          out := p.out ++ [.send (userDatagram version (if o = .safe then p.lastSentSeq + 1 else p.lastSentSeq) pl) o] } :
          PcProto).state = .prim := hs
      obtain ⟨r, xs, hr, hout, hchain, hlast⟩ := ih hs₁ hmtu'
      refine ⟨r, ((if o = .safe then p.lastSentSeq + 1 else p.lastSentSeq), o, pl) :: xs, ?_, ?_, ?_, ?_⟩
      · rw [handleDowns_cons, hdown]
        exact hr
      · rw [hout, List.map_cons, List.append_assoc]
        rfl
      · rw [List.map_cons, safeOf_cons]
        by_cases ho : o = .safe
        · rw [if_pos ho, if_pos ho, chainsFrom_cons]
          rw [if_pos ho] at hchain
          exact ⟨p.lastSentSeq, rfl, rfl, hchain⟩
        · rw [if_neg ho]
          rw [if_neg ho] at hchain
          exact hchain
      · rw [hlast, List.map_cons, safeOf_cons]
        by_cases ho : o = .safe
        · rw [if_pos ho, if_pos ho, List.getLast?_cons, Option.getD_some]
        · rw [if_neg ho, if_neg ho]
    · -- refused: nothing changes
      rw [if_neg hret] at hdown
      obtain ⟨r, xs, hr, hout, hchain, hlast⟩ := ih hs hmtu'
      refine ⟨r, xs, ?_, hout, hchain, hlast⟩
      rw [handleDowns_cons, hdown]
      exact hr

end PcProto

/-- Senders and a receiver of one primary component.  Each of `members`, in
    `S_PRIM`, hands its payloads to `handle_down`; EVS delivers to the
    receiver the datagrams each one sent, in the order it sent them,
    interleaved in any way.  When the receiver's record of each sender is
    that sender's last sent seqno, as the install leaves them, the receiver
    delivers every message with the next TO seqnos, and its record of each
    sender is again that sender's last sent seqno. -/
theorem send_deliver_agreement {q : Uuid → PcProto} {sends : Uuid → List (Order × List UInt8 × Nat)}
    {mtu version : Nat} (members : List Uuid) (hq : ∀ s ∈ members, (q s).state = .prim)
    (hv : version ≤ gcommProtocolMaxVersion) (hmtu : ∀ s ∈ members, ∀ x ∈ sends s, x.2.1.length ≤ mtu)
    {p : PcProto} (hp : PrimMember p) (hrec : ∀ s ∈ members, p.lastSeqOf s = some (q s).lastSentSeq)
    (ds : List UserDelivery) (hsrc : ∀ d ∈ ds, d.um.source ∈ members)
    (hevs : ∀ s ∈ members, ∀ q', (q s).handleDowns mtu version (sends s) = .ok q' →
      (ds.filter fun d => d.um.source = s).map (fun d => PcOutput.send (d.datagram version).1 d.um.order) =
        q'.out.drop (q s).out.length) :
    ∃ r, p.handleUps (ds.map (·.datagram version)) = .ok r ∧ PrimMember r ∧
      r.out = p.out ++ numbered p.pcView.id p.toSeq ds ∧
      ∀ s ∈ members, ∃ q', (q s).handleDowns mtu version (sends s) = .ok q' ∧ r.lastSeqOf s = some q'.lastSentSeq := by
  -- what the receiver gets of each sender is what that sender's run sent
  have hsent : ∀ s ∈ members, ∃ q', ∃ xs : List (UInt32 × Order × List UInt8), (q s).handleDowns mtu version (sends s) = .ok q' ∧
      (ds.filter fun d => d.um.source = s).map (fun d => (d.seq, d.um.order)) = xs.map (fun x => (x.1, x.2.1)) ∧
      chainsFrom (some (q s).lastSentSeq) (safeOf (xs.map fun x => (x.1, x.2.1))) = true ∧
      q'.lastSentSeq = (safeOf (xs.map fun x => (x.1, x.2.1))).getLast?.getD (q s).lastSentSeq := by
    intro s hs
    obtain ⟨q', xs, hrun, hout, hchain, hlast⟩ := PcProto.handleDowns_spec (hq s hs) hv (sends s) (hmtu s hs)
    have hdg := hevs s hs q' hrun
    rw [hout, List.drop_left] at hdg
    refine ⟨q', xs, hrun, Galera.ListRel.map_eq_map_of_imp (fun d x h => ?_) hdg, hchain, hlast⟩
    obtain ⟨hbytes, horder⟩ := PcOutput.send.inj h
    show (d.seq, d.um.order) = (x.1, x.2.1)
    rw [(userDatagram_inj hv hbytes).1, horder]
  -- so every source's safe messages follow the receiver's record of it
  have hseq : p.inSequence ds = true := by
    rw [inSequence_iff]
    intro s
    by_cases hs : s ∈ members
    · obtain ⟨q', xs, -, hmap, hchain, -⟩ := hsent s hs
      rw [hrec s hs, safeSeqs_eq_safeOf, hmap]
      exact hchain
    · rw [safeSeqs_eq_nil ds s fun d hd h => hs (h ▸ hsrc d hd)]
      cases p.lastSeqOf s <;> rfl
  obtain ⟨r, hr, hpr, -, -, -, hlast, hout⟩ := PcProto.handleUps_spec hp hv ds hseq
  refine ⟨r, hr, hpr, hout, fun s hs => ?_⟩
  obtain ⟨q', xs, hrun, hmap, -, hlastq⟩ := hsent s hs
  refine ⟨q', hrun, ?_⟩
  rw [hlast, hrec s hs, safeSeqs_eq_safeOf, hmap, Option.or_some, hlastq]

theorem send_deliver_agreement_two_members :
    (∀ s ∈ [fixtureUuid 1, fixtureUuid 2], (fixturePrim s).state = .prim) ∧ 1 ≤ gcommProtocolMaxVersion ∧
      (∀ s ∈ [fixtureUuid 1, fixtureUuid 2], ∀ x ∈ fixtureSends s, x.2.1.length ≤ 10) ∧
      PrimMember (fixturePrim (fixtureUuid 2)) ∧
      (∀ s ∈ [fixtureUuid 1, fixtureUuid 2], (fixturePrim (fixtureUuid 2)).lastSeqOf s = some (fixturePrim s).lastSentSeq) ∧
      (∀ d ∈ fixtureRun, d.um.source ∈ [fixtureUuid 1, fixtureUuid 2]) ∧
      (∀ s ∈ [fixtureUuid 1, fixtureUuid 2], ∀ q', (fixturePrim s).handleDowns 10 1 (fixtureSends s) = .ok q' →
        (fixtureRun.filter fun d => d.um.source = s).map (fun d => PcOutput.send (d.datagram 1).1 d.um.order) =
          q'.out.drop (fixturePrim s).out.length) ∧
      ∃ r, (fixturePrim (fixtureUuid 2)).handleUps (fixtureRun.map (·.datagram 1)) = .ok r ∧ PrimMember r ∧
        r.out = (fixturePrim (fixtureUuid 2)).out ++
          numbered (fixturePrim (fixtureUuid 2)).pcView.id (fixturePrim (fixtureUuid 2)).toSeq fixtureRun ∧
        ∀ s ∈ [fixtureUuid 1, fixtureUuid 2], ∃ q', (fixturePrim s).handleDowns 10 1 (fixtureSends s) = .ok q' ∧
          r.lastSeqOf s = some q'.lastSentSeq := by
  have hq : ∀ s ∈ [fixtureUuid 1, fixtureUuid 2], (fixturePrim s).state = .prim := by
    rw [List.forall_mem_cons, List.forall_mem_singleton]
    exact ⟨by decide, by decide⟩
  have hmtu : ∀ s ∈ [fixtureUuid 1, fixtureUuid 2], ∀ x ∈ fixtureSends s, x.2.1.length ≤ 10 := by
    rw [List.forall_mem_cons, List.forall_mem_singleton]
    exact ⟨by decide, by decide⟩
  have hp := primMember_fixturePrim 2 (.inr rfl)
  have hrec : ∀ s ∈ [fixtureUuid 1, fixtureUuid 2],
      (fixturePrim (fixtureUuid 2)).lastSeqOf s = some (fixturePrim s).lastSentSeq := by
    rw [List.forall_mem_cons, List.forall_mem_singleton]
    exact ⟨by decide, by decide⟩
  have hsrc : ∀ d ∈ fixtureRun, d.um.source ∈ [fixtureUuid 1, fixtureUuid 2] := by
    intro d hd
    simp only [fixtureRun, List.mem_cons, List.not_mem_nil, or_false] at hd
    rcases hd with rfl | rfl | rfl
    · exact List.mem_cons_self
    · exact List.mem_cons_of_mem _ (List.mem_singleton_self _)
    · exact List.mem_cons_self
  -- each member's run of sends, computed, is what the receiver gets of it
  have hevs : ∀ s ∈ [fixtureUuid 1, fixtureUuid 2], ∀ q', (fixturePrim s).handleDowns 10 1 (fixtureSends s) = .ok q' →
      (fixtureRun.filter fun d => d.um.source = s).map (fun d => PcOutput.send (d.datagram 1).1 d.um.order) =
        q'.out.drop (fixturePrim s).out.length := by
    intro s hs q' hrun
    have hsent : ∃ q₀, (fixturePrim s).handleDowns 10 1 (fixtureSends s) = .ok q₀ ∧
        (fixtureRun.filter fun d => d.um.source = s).map (fun d => PcOutput.send (d.datagram 1).1 d.um.order) =
          q₀.out.drop (fixturePrim s).out.length := by
      rcases List.mem_cons.mp hs with rfl | hs
      · exact ⟨_, rfl, by decide +kernel⟩
      · rw [List.mem_singleton.mp hs]
        exact ⟨_, rfl, by decide +kernel⟩
    obtain ⟨q₀, h₀, hP⟩ := hsent
    rw [h₀] at hrun
    cases hrun
    exact hP
  exact ⟨hq, le_refl 1, hmtu, hp, hrec, hsrc, hevs,
    send_deliver_agreement _ hq (le_refl 1) hmtu hp hrec fixtureRun hsrc hevs⟩

end Galera.Pc
