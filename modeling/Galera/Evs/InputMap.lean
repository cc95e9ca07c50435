/-
  Galera.Evs.InputMap
  ───────────────────
  **THE EVS INPUT MAP (`evs_input_map2.cpp`, `evs_input_map2.hpp`).**

  Every EVS instance keeps the user messages it receives in the current
  view in an input map: the messages themselves, keyed by source index
  and seqno; a recovery index of messages already delivered, kept for
  retransmission; and for every member of the view the range of seqnos
  seen from it (`lu`, the lowest unseen, and `hs`, the highest seen) and
  the safe seqno it last reported.  From these the map keeps `aru_seq`,
  up to which the messages of every member have all arrived, and
  `safe_seq`, up to which every member has reported them all.

    * `InputMap.reset`, `InputMap.clear` — the start and the end of a view;
    * `InputMap.insert` — a message that covers the seqnos
      `[seq, seq + seq_range]`; the seqnos after the first get
      placeholders of order O_DROP;
    * `InputMap.erase` — a delivered message moves to the recovery index;
    * `InputMap.setSafeSeq` — a member's safe seqno, after which the
      recovery index drops what every member has;
    * `InputMap.gapRangeList` — the ranges of seqnos to ask a member to
      retransmit.

  `gcomm_assert` throws a fatal exception; the model returns `none`, as
  it does for `at()` out of range and for an iterator that points at no
  entry.  The header fields that no operation reads (version, source,
  view id, fifo seqno, user type, flags) are left out; a message's
  datagram is the type parameter.
-/
import Mathlib
import Galera.Lib.Index

namespace Galera.Evs

open Galera.Index

variable {α : Type}

/-! ## §1. Messages and keys -/

/-- `gcomm::Order`, the delivery guarantee a message asks for. -/
inductive Order
  | drop
  | unreliable
  | fifo
  | agreed
  | safe
  | localCausal
  deriving DecidableEq, Repr

/-- `evs::Range`: the lowest unseen and the highest seen seqno. -/
structure Range where
  lu : Int
  hs : Int
  deriving DecidableEq, Repr

/-- The fields of `evs::UserMessage` that the input map reads. -/
structure UserMessage where
  seq : Int
  aruSeq : Int
  seqRange : Int
  order : Order
  deriving DecidableEq, Repr

/-- `InputMapMsgKey`: the source's index in the view and the seqno. -/
structure InputMapMsgKey where
  index : Nat
  seq : Int
  deriving DecidableEq, Repr

/-- `InputMapMsgKey::operator<`: by seqno first, then by index. -/
def InputMapMsgKey.lt (a b : InputMapMsgKey) : Bool :=
  decide (a.seq < b.seq ∨ a.seq = b.seq ∧ a.index < b.index)

/-- `InputMapMsg`: a message and its datagram; `none` is the empty
    `Datagram()` of a placeholder. -/
structure InputMapMsg (α : Type) where
  msg : UserMessage
  rb : Option α

/-- `InputMapMsgIndex`: a map with unique keys. -/
abbrev InputMapMsgIndex (α : Type) := AList fun _ : InputMapMsgKey => InputMapMsg α

/-- `Map::insert_unique`: a key already present is a fatal error. -/
def insertUnique (m : InputMapMsgIndex α) (k : InputMapMsgKey) (v : InputMapMsg α) :
    Option (InputMapMsgIndex α) :=
  if k ∈ m then none else some (m.insert k v)

theorem insertUnique_eq_some {m m' : InputMapMsgIndex α} {k : InputMapMsgKey}
    {v : InputMapMsg α} : insertUnique m k v = some m' ↔ k ∉ m ∧ m' = m.insert k v := by
  unfold insertUnique
  split <;> simp_all [eq_comm]

theorem insertUnique_of_notMem {m : InputMapMsgIndex α} {k : InputMapMsgKey}
    (v : InputMapMsg α) (h : k ∉ m) : insertUnique m k v = some (m.insert k v) := by
  simp [insertUnique, h]

/-! ## §2. Nodes and the map -/

/-- `InputMapNode`: a member's index, seen range and safe seqno. -/
structure InputMapNode where
  index : Nat
  range : Range
  safeSeq : Int
  deriving DecidableEq, Repr

/-- `InputMapNode()`: nothing seen, nothing safe. -/
def InputMapNode.init : InputMapNode := { index := 0, range := ⟨0, -1⟩, safeSeq := -1 }

/-- `gcomm::evs::InputMap`. -/
structure InputMap (α : Type) where
  safeSeq : Int
  aruSeq : Int
  nodeIndex : List InputMapNode
  msgIndex : InputMapMsgIndex α
  recoveryIndex : InputMapMsgIndex α

/-- `InputMap()`: no members, nothing received. -/
def InputMap.init : InputMap α :=
  { safeSeq := -1, aruSeq := -1, nodeIndex := [], msgIndex := ∅, recoveryIndex := ∅ }

/-- `gcomm_assert`. -/
def gcommAssert (c : Prop) [Decidable c] : Option Unit := if c then some () else none

@[simp] theorem gcommAssert_bind {β : Type} (c : Prop) [Decidable c] (f : Unit → Option β) :
    (gcommAssert c >>= f) = if c then f () else none := by
  unfold gcommAssert
  split <;> rfl

/-! ## §3. The start and the end of a view -/

/-- The node of the member at index `i` after `reset`. -/
def InputMapNode.fresh (i : Nat) : InputMapNode := { InputMapNode.init with index := i }

/-- `InputMap::reset`: both indexes must be empty; every member gets a
    fresh node that knows its index.  `aru_seq` and `safe_seq` are left
    as they are. -/
def InputMap.reset (im : InputMap α) (nodes : Nat) : Option (InputMap α) := do
  gcommAssert (im.msgIndex.entries.isEmpty = true ∧ im.recoveryIndex.entries.isEmpty = true)
  return { im with nodeIndex := (List.range nodes).map InputMapNode.fresh }

theorem InputMap.reset_eq_some {im im' : InputMap α} {nodes : Nat} :
    im.reset nodes = some im' ↔
      im.msgIndex.entries = [] ∧ im.recoveryIndex.entries = [] ∧
        im' = { im with nodeIndex := (List.range nodes).map InputMapNode.fresh } := by
  simp only [InputMap.reset, gcommAssert_bind, List.isEmpty_iff]
  split <;> simp_all [eq_comm]

/-- `InputMap::clear`. -/
def InputMap.clear (_ : InputMap α) : InputMap α :=
  { msgIndex := ∅, recoveryIndex := ∅, nodeIndex := [], aruSeq := -1, safeSeq := -1 }

/-! ## §4. `aru_seq` and `safe_seq` -/

/-- `InputMap::update_aru`: one below the lowest `lu`, which must not
    take `aru_seq` down. -/
def InputMap.updateAru (im : InputMap α) : Option (InputMap α) := do
  let minval ← (im.nodeIndex.map fun n => n.range.lu).min?
  gcommAssert (minval - 1 ≥ im.aruSeq)
  return { im with aruSeq := minval - 1 }

theorem InputMap.updateAru_eq_some {im im' : InputMap α} :
    im.updateAru = some im' ↔
      ∃ m, (im.nodeIndex.map fun n => n.range.lu).min? = some m ∧ im.aruSeq ≤ m - 1 ∧
        im' = { im with aruSeq := m - 1 } := by
  simp only [InputMap.updateAru, Option.bind_eq_bind, Option.bind_eq_some_iff, gcommAssert_bind]
  constructor
  · rintro ⟨m, hm, h⟩
    split at h
    · exact ⟨m, hm, by omega, by simpa [eq_comm] using h⟩
    · cases h
  · rintro ⟨m, hm, hle, rfl⟩
    exact ⟨m, hm, by simp [show m - 1 ≥ im.aruSeq by omega]⟩

/-- `InputMap::cleanup_recovery_index`: erase every key below
    `(0, safe_seq + 1)`, that is every seqno up to `safe_seq`. -/
def InputMap.cleanupRecoveryIndex (im : InputMap α) : Option (InputMap α) := do
  gcommAssert (im.nodeIndex.length > 0)
  return { im with
    recoveryIndex := filterKeys (fun k => !k.lt ⟨0, im.safeSeq + 1⟩) im.recoveryIndex }

/-- `InputMap::set_safe_seq`: a member's safe seqno may only rise; the
    global one is the lowest over the members, may only rise, and must
    stay at or below `aru_seq`. -/
def InputMap.setSafeSeq (im : InputMap α) (uuid : Nat) (seq : Int) : Option (InputMap α) := do
  gcommAssert (seq ≠ -1)
  let node ← im.nodeIndex[uuid]?
  gcommAssert (seq ≥ node.safeSeq)
  let nodeIndex := im.nodeIndex.set uuid { node with safeSeq := seq }
  let minval ← (nodeIndex.map fun n => n.safeSeq).min?
  gcommAssert (minval ≥ im.safeSeq)
  gcommAssert (minval ≤ im.aruSeq)
  InputMap.cleanupRecoveryIndex { im with nodeIndex := nodeIndex, safeSeq := minval }

/-- What a successful `set_safe_seq` has checked and what it leaves. -/
theorem InputMap.setSafeSeq_eq_some {im im' : InputMap α} {uuid : Nat} {seq : Int}
    (h : im.setSafeSeq uuid seq = some im') :
    seq ≠ -1 ∧ ∃ node, im.nodeIndex[uuid]? = some node ∧ node.safeSeq ≤ seq ∧
      ∃ m, ((im.nodeIndex.set uuid { node with safeSeq := seq }).map fun n => n.safeSeq).min? =
          some m ∧ im.safeSeq ≤ m ∧ m ≤ im.aruSeq ∧
        im' = { im with nodeIndex := im.nodeIndex.set uuid { node with safeSeq := seq },
                        safeSeq := m,
                        recoveryIndex := filterKeys (fun k => !k.lt ⟨0, m + 1⟩) im.recoveryIndex } := by
  simp only [InputMap.setSafeSeq, InputMap.cleanupRecoveryIndex, Option.bind_eq_bind,
    Option.bind_eq_some_iff, gcommAssert_bind, Option.ite_none_right_eq_some,
    Option.pure_def, Option.some.injEq] at h
  obtain ⟨hne, node, hnode, hle, m, hm, hge, hle', -, rfl⟩ := h
  exact ⟨hne, node, hnode, hle, m, hm, hge, hle', rfl⟩

/-! ## §5. Insertion -/

/-- The placeholder that `insert` puts at a seqno `s` of a message's
    range after the first. -/
def UserMessage.placeholder (msg : UserMessage) (s : Int) : UserMessage :=
  { seq := s, aruSeq := msg.aruSeq, seqRange := 0, order := .drop }

/-- The entry that `insert` puts at seqno `s`. -/
def insertEntry (msg : UserMessage) (rb : α) (s : Int) : InputMapMsg α :=
  if s = msg.seq then ⟨msg, some rb⟩ else ⟨msg.placeholder s, none⟩

/-- Whether the key `(index, i)` is in the message index or in the
    recovery index. -/
def inIndexes (msgIndex recoveryIndex : InputMapMsgIndex α) (index : Nat) (i : Int) : Bool :=
  decide (⟨index, i⟩ ∈ msgIndex) || decide (⟨index, i⟩ ∈ recoveryIndex)

/-- The range after seqno `s` has been put into the index: `hs` rises to
    `s`, and a lowest unseen `lu` equal to `s` moves past every seqno that
    `present` finds, up to `hs`. -/
def Range.advance (range : Range) (present : Int → Bool) (s : Int) : Range :=
  let range := if range.hs < s then { range with hs := s } else range
  if range.lu = s then
    { range with lu := scanWhile present range.hs (s + 1) (range.hs - s).toNat }
  else range

@[simp] theorem Range.advance_hs (range : Range) (present : Int → Bool) (s : Int) :
    (range.advance present s).hs = if range.hs < s then s else range.hs := by
  unfold Range.advance
  dsimp only
  split_ifs <;> rfl

theorem Range.advance_lu (range : Range) (present : Int → Bool) (s : Int) :
    (range.advance present s).lu =
      if range.lu = s then
        scanWhile present (if range.hs < s then s else range.hs) (s + 1)
          ((if range.hs < s then s else range.hs) - s).toNat
      else range.lu := by
  unfold Range.advance
  dsimp only
  split_ifs <;> rfl

/-- One iteration of the loop of `InputMap::insert`, at seqno `s`: put an
    entry unless one is there, then advance the range. -/
def insertStep (recoveryIndex : InputMapMsgIndex α) (index : Nat) (msg : UserMessage) (rb : α)
    (acc : InputMapMsgIndex α × Range) (s : Int) : Option (InputMapMsgIndex α × Range) := do
  let (msgIndex, range) := acc
  -- above `hs` the index is not searched
  let found := if range.hs < s then false else decide (⟨index, s⟩ ∈ msgIndex)
  let msgIndex ←
    if found then some msgIndex else insertUnique msgIndex ⟨index, s⟩ (insertEntry msg rb s)
  return (msgIndex, range.advance (inIndexes msgIndex recoveryIndex index) s)

/-- `for (s = msg.seq(); s <= msg.seq() + msg.seq_range(); ++s)`, with
    `n` iterations left at seqno `s`. -/
def insertLoop (recoveryIndex : InputMapMsgIndex α) (index : Nat) (msg : UserMessage) (rb : α) :
    Nat → Int → InputMapMsgIndex α × Range → Option (InputMapMsgIndex α × Range)
  | 0, _, acc => some acc
  | n + 1, s, acc => do
    let acc ← insertStep recoveryIndex index msg rb acc s
    insertLoop recoveryIndex index msg rb n (s + 1) acc

/-- `InputMap::insert`: the source's new range, or that of a message it
    has already seen. -/
def InputMap.insert (im : InputMap α) (uuid : Nat) (msg : UserMessage) (rb : α) :
    Option (InputMap α × Range) := do
  gcommAssert (msg.seq > -1)
  gcommAssert (im.aruSeq < msg.seq)
  -- `gcomm_assert(uuid < node_index_->size())`
  let node ← im.nodeIndex[uuid]?
  gcommAssert (node.range.lu ≤ msg.seq)
  if msg.seq < node.range.lu ∨
      (msg.seq ≤ node.range.hs ∧ (⟨node.index, msg.seq⟩ : InputMapMsgKey) ∈ im.recoveryIndex) then
    return (im, node.range)
  else
    let (msgIndex, range) ← insertLoop im.recoveryIndex node.index msg rb
      (msg.seqRange + 1).toNat msg.seq (im.msgIndex, node.range)
    let im ← InputMap.updateAru
      { im with nodeIndex := im.nodeIndex.set uuid { node with range := range },
                msgIndex := msgIndex }
    return (im, range)

/-- The checks a successful `insert` has passed. -/
theorem InputMap.insert_asserts {im im' : InputMap α} {uuid : Nat} {msg : UserMessage} {rb : α}
    {r : Range} (h : im.insert uuid msg rb = some (im', r)) :
    -1 < msg.seq ∧ im.aruSeq < msg.seq ∧
      ∃ node, im.nodeIndex[uuid]? = some node ∧ node.range.lu ≤ msg.seq := by
  simp only [InputMap.insert, Option.bind_eq_bind, gcommAssert_bind] at h
  split at h
  · split at h
    · rename_i h1 h2
      cases hn : im.nodeIndex[uuid]? with
      | none => simp [hn] at h
      | some node =>
        simp only [hn, Option.bind_some] at h
        split at h
        · exact ⟨h1, h2, node, rfl, ‹_›⟩
        · cases h
    · cases h
  · cases h

/-- `insert` once its checks have passed. -/
theorem InputMap.insert_of_asserts (im : InputMap α) {uuid : Nat} {msg : UserMessage} (rb : α)
    {node : InputMapNode} (h1 : -1 < msg.seq) (h2 : im.aruSeq < msg.seq)
    (hn : im.nodeIndex[uuid]? = some node) (h3 : node.range.lu ≤ msg.seq) :
    im.insert uuid msg rb =
      if msg.seq < node.range.lu ∨
          (msg.seq ≤ node.range.hs ∧ (⟨node.index, msg.seq⟩ : InputMapMsgKey) ∈ im.recoveryIndex) then
        some (im, node.range)
      else
        (insertLoop im.recoveryIndex node.index msg rb (msg.seqRange + 1).toNat msg.seq
            (im.msgIndex, node.range)).bind fun acc =>
          (InputMap.updateAru { im with nodeIndex := im.nodeIndex.set uuid { node with range := acc.2 },
                                        msgIndex := acc.1 }).map fun im' => (im', acc.2) := by
  simp only [InputMap.insert, Option.bind_eq_bind, gcommAssert_bind, if_pos h1, if_pos h2, hn,
    Option.bind_some, if_pos h3]
  split
  · rfl
  · congr 1
    funext ⟨mi, rg⟩
    simp only [Option.map_eq_bind]
    rfl

/-! ## §6. Erasure -/

/-- `InputMap::erase`: the entry under the iterator moves to the recovery
    index. -/
def InputMap.erase (im : InputMap α) (key : InputMapMsgKey) : Option (InputMap α) := do
  let m ← im.msgIndex.lookup key
  let recoveryIndex ← insertUnique im.recoveryIndex key m
  return { im with recoveryIndex := recoveryIndex, msgIndex := im.msgIndex.erase key }

theorem InputMap.erase_eq_some {im im' : InputMap α} {key : InputMapMsgKey}
    (h : im.erase key = some im') :
    ∃ m, im.msgIndex.lookup key = some m ∧ key ∉ im.recoveryIndex ∧
      im' = { im with recoveryIndex := im.recoveryIndex.insert key m,
                      msgIndex := im.msgIndex.erase key } := by
  simp only [InputMap.erase, Option.bind_eq_bind, Option.bind_eq_some_iff] at h
  obtain ⟨m, hm, rec, hrec, h⟩ := h
  obtain ⟨hk, rfl⟩ := insertUnique_eq_some.mp hrec
  exact ⟨m, hm, hk, by simpa [eq_comm] using h⟩

/-! ## §7. Runs -/

/-- The operations of the input map. -/
inductive InputMapOp (α : Type)
  | reset (nodes : Nat)
  | insert (uuid : Nat) (msg : UserMessage) (rb : α)
  | erase (key : InputMapMsgKey)
  | setSafeSeq (uuid : Nat) (seq : Int)
  | clear

/-- One operation; `none` when it fails. -/
def InputMap.step (im : InputMap α) : InputMapOp α → Option (InputMap α)
  | .reset nodes => im.reset nodes
  | .insert uuid msg rb => (im.insert uuid msg rb).map Prod.fst
  | .erase key => im.erase key
  | .setSafeSeq uuid seq => im.setSafeSeq uuid seq
  | .clear => some im.clear

/-- A sequence of operations, up to the first that fails. -/
def InputMap.run (im : InputMap α) : List (InputMapOp α) → Option (InputMap α)
  | [] => some im
  | op :: ops => (im.step op).bind fun im' => im'.run ops

/-! ## §8. Gaps -/

/-- `append_gap_range_list(range_list, lowest_unseen, seq)`: the first
    gap starts at `lowest_unseen`; a later one extends the last range when
    it follows it, or starts a range of its own. -/
def appendGapRangeList (rangeList : List Range) (lowestUnseen seq : Int) : List Range :=
  match rangeList.getLast? with
  | none => [⟨lowestUnseen, seq⟩]
  | some last =>
    if last.hs + 1 = seq then rangeList.dropLast ++ [{ last with hs := seq }]
    else rangeList ++ [⟨seq, seq⟩]

/-- The loop of `gap_range_list` at seqno `seq`, with `n` seqnos left:
    a seqno in neither index is a gap. -/
def gapRangeLoop (msgIndex recoveryIndex : InputMapMsgIndex α) (index : Nat) (maxLu : Int) :
    Nat → Int → List Range → List Range
  | 0, _, ret => ret
  | n + 1, seq, ret =>
    let ret := if inIndexes msgIndex recoveryIndex index seq then ret else appendGapRangeList ret maxLu seq
    gapRangeLoop msgIndex recoveryIndex index maxLu n (seq + 1) ret

/-- `InputMap::gap_range_list(index, range)`: the gaps of member `index`
    in `[range.lu, range.hs]`, the first one starting at the larger of
    `range.lu` and the member's lowest unseen seqno. -/
def InputMap.gapRangeList (im : InputMap α) (index : Nat) (range : Range) : Option (List Range) := do
  let node ← im.nodeIndex[index]?
  let maxLu := max range.lu node.range.lu
  return gapRangeLoop im.msgIndex im.recoveryIndex index maxLu (range.hs + 1 - range.lu).toNat range.lu []

end Galera.Evs
