/-
  Galera.Evs.MessageRoundTrip
  ───────────────────────────
  **WHAT `serialize` WRITES, `unserialize` READS BACK — UP TO 255 DELAYED
  ENTRIES.**

  Each field's bytes are named (`viewIdBytes`, `messageNodeBytes`, …), its
  writer is shown to write them (`Writes`) and its reader to read the
  field back from them (`Reads`), under the C types' ranges: a seqno in
  `int64_t`, a view id of a type other than `V_NONE` with its seqno in the
  30 bits it travels in, a node list of fewer than `2^32` entries.  The
  classes then compose their fields.

    * `MessageClass.round_trip` — `serialize` of every class writes
      `bytes`, and the class's `unserialize` reads from them, at the same
      offset and returning the same offset, the message the source's
      fields give (`readInto`); `readInto_fresh` — on a fresh object, the
      message itself;
    * `MessageClass.serialSize_eq` — `serial_size` counts those bytes,
      except for a delayed list of more than 255 entries;
    * `delayed_list_count_wraps` — such a list: `serialize` writes every
      entry after a count taken mod 256, so it fails in a buffer of
      `serial_size` bytes, and `unserialize` reads back only the first
      `n mod 256` entries, stopping before the offset `serialize` returned.
-/
import Mathlib
import Galera.Evs.Message

namespace Galera.Evs

open Galera.Bytes (leBytes ofLeBytes beBytes ofBeBytes ofSigned toSigned SignedFits length_leBytes length_beBytes
  ofLeBytes_leBytes ofBeBytes_beBytes ofSigned_lt ofSigned_of_nonneg toSigned_ofSigned)
open Galera.Wire

/-! ## §1. Fields -/

theorem writes_serializeN (n x : Nat) : Writes (serializeN n x) (leBytes n x) := writes_bytes _ _

/-- The reader of an `n`-byte field reads what was written mod `256 ^ n`:
    what the cast to the field's C type kept. -/
theorem reads_unserializeN_mod (n x : Nat) : Reads (unserializeN n) (x % 256 ^ n) (leBytes n x) := by
  have h := (reads_bytes EvsCodecError.serialization (leBytes n x)).map ofLeBytes
  rw [length_leBytes, ofLeBytes_leBytes] at h
  exact h

theorem reads_unserializeN {n x : Nat} (hx : x < 256 ^ n) : Reads (unserializeN n) x (leBytes n x) := by
  have h := reads_unserializeN_mod n x
  rw [Nat.mod_eq_of_lt hx] at h
  exact h

theorem reads_unserializeSeqno {x : Int} (hx : SignedFits 64 x) :
    Reads unserializeSeqno x (leBytes 8 (ofSigned 64 x)) := by
  have h := (reads_unserializeN (n := 8) (ofSigned_lt 64 x)).map (toSigned 64)
  rw [toSigned_ofSigned (by decide) hx] at h
  exact h

theorem reads_uuidUnserialize (u : Uuid) : Reads uuidUnserialize u (beBytes 16 u.val) := by
  have h := (reads_bytes EvsCodecError.uuidSerialize (beBytes 16 u.val)).map
    fun bs => Fin.ofNat (2 ^ 128) (ofBeBytes bs)
  rw [length_beBytes, ofBeBytes_beBytes, Nat.mod_eq_of_lt (by simp), Fin.ofNat_val_eq_self] at h
  exact h

/-! ## §2. View ids and ranges -/

/-- A view id travels whole when its type is not `V_NONE` (which the
    writer asserts) and its seqno fits the 30 bits it travels in. -/
structure ViewId.Ok (v : ViewId) : Prop where
  type_ne : v.type ≠ .none
  seq_lt : v.seq.toNat < 2 ^ 30

/-- The bytes `ViewId::serialize` writes. -/
def viewIdBytes (v : ViewId) : List UInt8 := beBytes 16 v.uuid.val ++ leBytes 4 (viewIdWord v)

@[simp] theorem length_viewIdBytes (v : ViewId) : (viewIdBytes v).length = viewIdSerialSize := by
  rw [viewIdBytes, List.length_append, length_beBytes, length_leBytes]
  rfl

/-- The word holds the seqno's low 30 bits and the type above them. -/
theorem viewIdWord_eq (v : ViewId) : viewIdWord v = v.seq.toNat % 2 ^ 30 + v.type.toNat * 2 ^ 30 := by
  have hlow : v.seq.toNat % 2 ^ 30 < 2 ^ 30 := Nat.mod_lt _ (Nat.two_pow_pos 30)
  rw [viewIdWord, show (0x3fffffff : Nat) = 2 ^ 30 - 1 from rfl, Nat.and_two_pow_sub_one_eq_mod, Nat.shiftLeft_eq,
    Nat.or_comm, Nat.mul_comm, ← Nat.two_pow_add_eq_or_of_lt hlow, Nat.add_comm]

theorem ViewType.toNat_lt (t : ViewType) : t.toNat < 4 := by
  cases t <;> decide

theorem ViewType.ofBits_toNat {t : ViewType} (h : t ≠ .none) : ViewType.ofBits t.toNat = t := by
  cases t
  · exact absurd rfl h
  all_goals rfl

theorem writes_viewIdSerialize {v : ViewId} (h : v.Ok) : Writes (viewIdSerialize v) (viewIdBytes v) := by
  have hw := writes_seq (.cons (writes_check (bne_iff_ne.2 h.type_ne) .fatal)
    (.cons (writes_bytes .uuidSerialize (beBytes 16 v.uuid.val)) (.cons (writes_serializeN 4 (viewIdWord v)) .nil)))
  simp only [List.flatten_cons, List.flatten_nil, List.nil_append, List.append_nil] at hw
  exact hw

theorem reads_viewIdUnserialize {v : ViewId} (h : v.Ok) : Reads viewIdUnserialize v (viewIdBytes v) := by
  have hword : viewIdWord v < 256 ^ 4 := by
    rw [viewIdWord_eq, Nat.mod_eq_of_lt h.seq_lt]
    have := v.type.toNat_lt
    have := h.seq_lt
    show v.seq.toNat + v.type.toNat * 2 ^ 30 < 2 ^ 32
    omega
  -- the type comes back from the top bits, the seqno from the low 30
  have htype : ViewType.ofBits (viewIdWord v >>> 30) = v.type := by
    rw [Nat.shiftRight_eq_div_pow, viewIdWord_eq, Nat.add_mul_div_right _ _ (Nat.two_pow_pos 30),
      Nat.div_eq_of_lt (Nat.mod_lt _ (Nat.two_pow_pos 30)), Nat.zero_add, ViewType.ofBits_toNat h.type_ne]
  have hseq : UInt32.ofNat (viewIdWord v &&& 0x3fffffff) = v.seq := by
    rw [show (0x3fffffff : Nat) = 2 ^ 30 - 1 from rfl, Nat.and_two_pow_sub_one_eq_mod, viewIdWord_eq,
      Nat.add_mul_mod_self_right, Nat.mod_mod, Nat.mod_eq_of_lt h.seq_lt, UInt32.ofNat_toNat]
  unfold viewIdUnserialize viewIdBytes
  rw [← List.append_nil (leBytes 4 (viewIdWord v))]
  refine (reads_uuidUnserialize v.uuid).bind ((reads_unserializeN hword).bind ?_)
  simp only [htype, hseq]
  exact reads_pure v

/-- Both ends of a range are `int64_t`. -/
structure Range.Ok (r : Range) : Prop where
  lu : SignedFits 64 r.lu
  hs : SignedFits 64 r.hs

def rangeBytes (r : Range) : List UInt8 := leBytes 8 (ofSigned 64 r.lu) ++ leBytes 8 (ofSigned 64 r.hs)

@[simp] theorem length_rangeBytes (r : Range) : (rangeBytes r).length = rangeSerialSize := by
  rw [rangeBytes, List.length_append, length_leBytes, length_leBytes]
  rfl

theorem writes_rangeSerialize (r : Range) : Writes (rangeSerialize r) (rangeBytes r) := by
  have hw := writes_seq (.cons (writes_serializeN 8 (ofSigned 64 r.lu)) (.cons (writes_serializeN 8 (ofSigned 64 r.hs)) .nil))
  simp only [List.flatten_cons, List.flatten_nil, List.append_nil] at hw
  exact hw

theorem reads_rangeUnserialize {r : Range} (h : r.Ok) : Reads rangeUnserialize r (rangeBytes r) := by
  unfold rangeUnserialize rangeBytes
  rw [← List.append_nil (leBytes 8 (ofSigned 64 r.hs))]
  exact (reads_unserializeSeqno h.lu).bind ((reads_unserializeSeqno h.hs).bind (reads_pure r))

/-! ## §3. Node lists and delayed lists -/

/-- A node travels whole when its seqnos are `int64_t` and its view id
    travels whole. -/
structure MessageNode.Ok (n : MessageNode) : Prop where
  leaveSeq : SignedFits 64 n.leaveSeq
  viewId : n.viewId.Ok
  safeSeq : SignedFits 64 n.safeSeq
  imRange : n.imRange.Ok

/-- The flags byte of a node. -/
def MessageNode.flagsByte (n : MessageNode) : Nat :=
  (if n.operational then fOperational else 0) ||| (if n.suspected then fSuspected else 0) |||
    (if n.evicted then fEvicted else 0)

/-- The flags byte holds each flag in its own bit. -/
theorem MessageNode.flagsByte_bits (n : MessageNode) :
    n.flagsByte < 8 ∧ (n.flagsByte &&& fOperational != 0) = n.operational ∧
      (n.flagsByte &&& fSuspected != 0) = n.suspected ∧ (n.flagsByte &&& fEvicted != 0) = n.evicted := by
  unfold flagsByte
  cases n.operational <;> cases n.suspected <;> cases n.evicted <;> decide

def messageNodeBytes (n : MessageNode) : List UInt8 :=
  leBytes 1 n.flagsByte ++ leBytes 1 n.segment.toNat ++ leBytes 8 (ofSigned 64 n.leaveSeq) ++ viewIdBytes n.viewId ++
    leBytes 8 (ofSigned 64 n.safeSeq) ++ rangeBytes n.imRange

@[simp] theorem length_messageNodeBytes (n : MessageNode) : (messageNodeBytes n).length = messageNodeSerialSize := by
  simp only [messageNodeBytes, List.length_append, length_leBytes, length_viewIdBytes, length_rangeBytes,
    messageNodeSerialSize]

theorem writes_messageNodeSerialize {n : MessageNode} (h : n.Ok) :
    Writes (messageNodeSerialize n) (messageNodeBytes n) := by
  have hw := writes_seq (.cons (writes_serializeN 1 n.flagsByte) (.cons (writes_serializeN 1 n.segment.toNat)
    (.cons (writes_serializeN 8 (ofSigned 64 n.leaveSeq)) (.cons (writes_viewIdSerialize h.viewId)
    (.cons (writes_serializeN 8 (ofSigned 64 n.safeSeq)) (.cons (writes_rangeSerialize n.imRange) .nil))))))
  simp only [List.flatten_cons, List.flatten_nil, List.append_nil] at hw
  simp only [messageNodeBytes, List.append_assoc]
  exact hw

theorem reads_messageNodeUnserialize {n : MessageNode} (h : n.Ok) :
    Reads messageNodeUnserialize n (messageNodeBytes n) := by
  obtain ⟨hlt, hop, hsu, hev⟩ := n.flagsByte_bits
  unfold messageNodeUnserialize
  simp only [messageNodeBytes, List.append_assoc]
  rw [← List.append_nil (rangeBytes n.imRange)]
  refine (reads_unserializeN (n := 1) (by show n.flagsByte < 256; omega)).bind
    ((reads_unserializeN (n := 1) n.segment.toNat_lt).bind ((reads_unserializeSeqno h.leaveSeq).bind
    ((reads_viewIdUnserialize h.viewId).bind ((reads_unserializeSeqno h.safeSeq).bind
    ((reads_rangeUnserialize h.imRange).bind ?_)))))
  simp only [hop, hsu, hev, UInt8.ofNat_toNat]
  exact reads_pure n

/-- An entry of a node list: its key, then its node. -/
def nodeEntryBytes (e : Uuid × MessageNode) : List UInt8 := beBytes 16 e.1.val ++ messageNodeBytes e.2

@[simp] theorem length_nodeEntryBytes (e : Uuid × MessageNode) :
    (nodeEntryBytes e).length = uuidSerialSize + messageNodeSerialSize := by
  rw [nodeEntryBytes, List.length_append, length_beBytes, length_messageNodeBytes]
  rfl

/-- A node list travels whole when its count fits the `uint32_t` it
    travels in and each node travels whole. -/
structure MessageNodeList.Ok (l : MessageNodeList) : Prop where
  length_lt : l.entries.length < 2 ^ 32
  nodes : ∀ e ∈ l.entries, e.2.Ok

def nodeListBytes (l : MessageNodeList) : List UInt8 :=
  leBytes 4 l.entries.length ++ l.entries.flatMap nodeEntryBytes

/-- `NodeList::serial_size` counts the bytes of the node list. -/
@[simp] theorem length_nodeListBytes (l : MessageNodeList) : (nodeListBytes l).length = nodeListSerialSize l := by
  rw [nodeListBytes, List.length_append, length_leBytes, length_flatMap_const nodeEntryBytes length_nodeEntryBytes,
    nodeListSerialSize]

theorem writes_nodeListSerialize {l : MessageNodeList} (h : l.Ok) :
    Writes (nodeListSerialize l) (nodeListBytes l) :=
  (writes_serializeN 4 l.entries.length).andThen (writes_seq_map _ nodeEntryBytes l.entries
    fun e he => (writes_bytes _ _).andThen (writes_messageNodeSerialize (h.nodes e he)))

/-- One round of the reader of a node list: the entry read is inserted,
    when its key is not there yet. -/
theorem reads_nodeListEntryUnserialize (m : MessageNodeList) {e : Uuid × MessageNode} (he : e.2.Ok)
    (hins : (m.insert e.1 e.2).2 = true) :
    Reads (nodeListEntryUnserialize m) (SortedMap.insertStep m e) (nodeEntryBytes e) := by
  unfold nodeListEntryUnserialize nodeEntryBytes
  rw [← List.append_nil (messageNodeBytes e.2)]
  refine (reads_uuidUnserialize e.1).bind ((reads_messageNodeUnserialize he).bind ?_)
  simp only [hins, if_true]
  exact reads_pure _

/-- The node list reads back: its entries come in key order, so each is
    inserted at the end (`SortedMap.insert_take`, `SortedMap.foldl_insert`). -/
theorem reads_nodeListUnserialize {l : MessageNodeList} (h : l.Ok) :
    Reads nodeListUnserialize l (nodeListBytes l) := by
  have hloop := reads_loop nodeListEntryUnserialize nodeEntryBytes SortedMap.insertStep
    (fun m e => e.2.Ok ∧ (m.insert e.1 e.2).2 = true)
    (fun m e hok => reads_nodeListEntryUnserialize m hok.1 hok.2) l.entries SortedMap.empty
    fun i hi => ⟨h.nodes _ (List.get_mem _ _), SortedMap.insert_take l.sorted i hi⟩
  have hfold : l.entries.foldl SortedMap.insertStep SortedMap.empty = l :=
    SortedMap.ext (SortedMap.foldl_insert_empty l.sorted)
  rw [hfold] at hloop
  unfold nodeListUnserialize nodeListBytes
  exact (reads_unserializeN (n := 4) h.length_lt).bind hloop

/-- An entry of a delayed list: its UUID, then its count. -/
def delayedEntryBytes (e : Uuid × UInt8) : List UInt8 := beBytes 16 e.1.val ++ leBytes 1 e.2.toNat

@[simp] theorem length_delayedEntryBytes (e : Uuid × UInt8) : (delayedEntryBytes e).length = uuidSerialSize + 1 := by
  rw [delayedEntryBytes, List.length_append, length_beBytes, length_leBytes]
  rfl

theorem writes_delayedListSerialize (l : DelayedList) :
    Writes (delayedListSerialize l) (l.entries.flatMap delayedEntryBytes) :=
  writes_seq_map _ delayedEntryBytes l.entries fun e _ => (writes_bytes _ _).andThen (writes_serializeN 1 e.2.toNat)

theorem reads_delayedListEntryUnserialize (m : DelayedList) (e : Uuid × UInt8) :
    Reads (delayedListEntryUnserialize m) (SortedMap.insertStep m e) (delayedEntryBytes e) := by
  unfold delayedListEntryUnserialize delayedEntryBytes
  rw [← List.append_nil (leBytes 1 e.2.toNat)]
  refine (reads_uuidUnserialize e.1).bind ((reads_unserializeN (n := 1) e.2.toNat_lt).bind ?_)
  simp only [UInt8.ofNat_toNat]
  exact reads_pure _

/-- The first `k` entries of a delayed list, a map of their own. -/
def DelayedList.take (l : DelayedList) (k : Nat) : DelayedList :=
  ⟨l.entries.take k, l.sorted.sublist (List.take_sublist k l.entries)⟩

/-- The loop of the reader, `k` rounds over the entries of a list: the
    first `k` entries come back, each inserted at the end. -/
theorem reads_delayedListLoop (l : DelayedList) {k : Nat} (hk : k ≤ l.entries.length) :
    Reads (Get.loop delayedListEntryUnserialize k SortedMap.empty) (l.take k)
      ((l.entries.take k).flatMap delayedEntryBytes) := by
  have hloop := reads_loop delayedListEntryUnserialize delayedEntryBytes SortedMap.insertStep (fun _ _ => True)
    (fun m e _ => reads_delayedListEntryUnserialize m e) (l.entries.take k) SortedMap.empty fun _ _ => trivial
  have hfold : (l.entries.take k).foldl SortedMap.insertStep SortedMap.empty = l.take k :=
    SortedMap.ext (SortedMap.foldl_insert_empty (l.take k).sorted)
  rw [List.length_take, Nat.min_eq_left hk, hfold] at hloop
  exact hloop

/-! ## §4. The header -/

/-- A header travels whole: the type is one of the seven, the order one of
    the five the reader admits, the version passes the reader's check
    (which join and install messages skip), the fifo seqno is an
    `int64_t`, and the source view id travels whole. -/
structure Message.HeaderOk (m : Message) : Prop where
  type_ne : m.type ≠ .none
  order_ne : m.order ≠ .localCausal
  version_le : m.type ≠ .join → m.type ≠ .install → m.version.toNat ≤ gcommProtocolMaxVersion
  fifoSeq : SignedFits 64 m.fifoSeq
  sourceViewId : m.sourceViewId.Ok

def headerBytes (m : Message) : List UInt8 :=
  leBytes 1 m.headerByte ++ leBytes 1 m.flags.toNat ++ leBytes 1 m.version.toNat ++ leBytes 1 0 ++
    leBytes 8 (ofSigned 64 m.fifoSeq) ++ (if m.hasSource then beBytes 16 m.source.val else []) ++
    viewIdBytes m.sourceViewId

/-- `Message::serial_size` counts the bytes of the header. -/
@[simp] theorem length_headerBytes (m : Message) : (headerBytes m).length = messageSerialSize m := by
  simp only [headerBytes, messageSerialSize, List.length_append, length_leBytes, length_viewIdBytes]
  split
  · rw [length_beBytes]
    rfl
  · rfl

/-- The message `Message::unserialize` makes of `d` from the header of
    `m`: the source only when `F_SOURCE` is set. -/
def Message.withHeader (d m : Message) : Message :=
  { d with
    type := m.type, order := m.order, flags := m.flags, version := m.version, fifoSeq := m.fifoSeq
    source := if m.hasSource then m.source else d.source, sourceViewId := m.sourceViewId }

/-- The header byte holds the type and the order in their own bits, above
    the zero-version bit. -/
theorem headerByte_bits (t : MessageType) (o : Order) {z : Nat} (hz : z < 2) :
    t ≠ .none → o ≠ .localCausal →
      z ||| (t.toNat <<< 2) ||| (o.toNat <<< 5) < 256 ∧
        MessageType.ofBits (((z ||| (t.toNat <<< 2) ||| (o.toNat <<< 5)) >>> 2) &&& 0x7) = t ∧
        Order.ofBits? (((z ||| (t.toNat <<< 2) ||| (o.toNat <<< 5)) >>> 5) &&& 0x7) = some o := by
  obtain rfl | rfl : z = 0 ∨ z = 1 := by omega
  all_goals cases t <;> cases o <;> decide

theorem Message.headerByte_decode {m : Message} (h : m.HeaderOk) :
    m.headerByte < 256 ∧ MessageType.ofBits ((m.headerByte >>> 2) &&& 0x7) = m.type ∧
      Order.ofBits? ((m.headerByte >>> 5) &&& 0x7) = some m.order := by
  unfold headerByte
  split
  · exact headerByte_bits _ _ (by decide) h.type_ne h.order_ne
  · exact headerByte_bits _ _ (by decide) h.type_ne h.order_ne
  · split
    · exact headerByte_bits _ _ (by decide) h.type_ne h.order_ne
    · exact headerByte_bits _ _ (by decide) h.type_ne h.order_ne

theorem writes_messageSerialize {m : Message} (h : m.HeaderOk) :
    Writes (messageSerialize m) (headerBytes m) := by
  have hsrc : Writes (if m.hasSource then uuidSerialize m.source else Put.skip)
      (if m.hasSource then beBytes 16 m.source.val else []) := by
    split
    · exact writes_bytes _ _
    · exact writes_skip
  have hw := writes_seq (.cons (writes_serializeN 1 m.headerByte) (.cons (writes_serializeN 1 m.flags.toNat)
    (.cons (writes_serializeN 1 m.version.toNat) (.cons (writes_serializeN 1 0)
    (.cons (writes_serializeN 8 (ofSigned 64 m.fifoSeq)) (.cons hsrc
    (.cons (writes_viewIdSerialize h.sourceViewId) .nil)))))))
  simp only [List.flatten_cons, List.flatten_nil, List.append_nil] at hw
  simp only [headerBytes, List.append_assoc]
  exact hw

theorem reads_messageUnserialize (d : Message) {m : Message} (h : m.HeaderOk) :
    Reads (messageUnserialize d) (d.withHeader m) (headerBytes m) := by
  obtain ⟨hb, htype, horder⟩ := m.headerByte_decode h
  -- the version passes the check
  have hver : ¬(m.type ≠ .join ∧ m.type ≠ .install ∧ m.version.toNat > gcommProtocolMaxVersion) :=
    fun ⟨h1, h2, h3⟩ => Nat.not_le_of_lt h3 (h.version_le h1 h2)
  unfold messageUnserialize headerBytes
  simp only [List.append_assoc]
  rw [← List.append_nil (viewIdBytes m.sourceViewId)]
  refine (reads_unserializeN (n := 1) hb).bind ?_
  simp only [htype, h.type_ne, if_false, Get.pure_bind, horder]
  refine (reads_unserializeN (n := 1) m.flags.toNat_lt).bind ((reads_unserializeN (n := 1) m.version.toNat_lt).bind ?_)
  simp only [hver, if_false]
  refine (reads_unserializeN (n := 1) (by decide : 0 < 256 ^ 1)).bind ((reads_unserializeSeqno h.fifoSeq).bind ?_)
  unfold Message.withHeader
  simp only [Message.hasSource, UInt8.ofNat_toNat]
  by_cases hs : (m.flags.toNat &&& fSource != 0) = true
  · simp only [hs]
    refine (reads_uuidUnserialize m.source).bind ((reads_viewIdUnserialize h.sourceViewId).bind ?_)
    exact reads_pure _
  · simp only [hs]
    refine (reads_viewIdUnserialize h.sourceViewId).bind ?_
    exact reads_pure _

/-! ## §5. The classes -/

/-- What each class writes after the header. -/
def MessageClass.tailBytes : MessageClass → Message → List UInt8
  | .user, m => leBytes 1 m.userType.toNat ++ leBytes 1 (ofSigned 8 m.seqRange) ++ leBytes 2 0 ++
      leBytes 8 (ofSigned 64 m.seq) ++ leBytes 8 (ofSigned 64 m.aruSeq)
  | .delegate, _ => []
  | .gap, m => leBytes 8 (ofSigned 64 m.seq) ++ leBytes 8 (ofSigned 64 m.aruSeq) ++ beBytes 16 m.rangeUuid.val ++
      rangeBytes m.range
  | .join, m => leBytes 8 (ofSigned 64 m.seq) ++ leBytes 8 (ofSigned 64 m.aruSeq) ++ nodeListBytes m.nodeList
  | .install, m => leBytes 8 (ofSigned 64 m.seq) ++ leBytes 8 (ofSigned 64 m.aruSeq) ++
      viewIdBytes m.installViewId ++ nodeListBytes m.nodeList
  | .leave, m => leBytes 8 (ofSigned 64 m.seq) ++ leBytes 8 (ofSigned 64 m.aruSeq)
  | .delayedList, m => leBytes 1 m.delayedList.entries.length ++ m.delayedList.entries.flatMap delayedEntryBytes

/-- What a class's `serialize` writes: the header, then its own fields. -/
def MessageClass.bytes (c : MessageClass) (m : Message) : List UInt8 := headerBytes m ++ c.tailBytes m

/-- A class's own fields travel whole: a user message's seqno range in the
    byte it travels in, the seqnos `int64_t`, view ids and node lists
    whole, and no more delayed entries than the count's byte holds. -/
def MessageClass.TailOk : MessageClass → Message → Prop
  | .user, m => 0 ≤ m.seqRange ∧ m.seqRange ≤ 0xff ∧ SignedFits 64 m.seq ∧ SignedFits 64 m.aruSeq
  | .delegate, _ => True
  | .gap, m => SignedFits 64 m.seq ∧ SignedFits 64 m.aruSeq ∧ m.range.Ok
  | .join, m => SignedFits 64 m.seq ∧ SignedFits 64 m.aruSeq ∧ m.nodeList.Ok
  | .install, m => SignedFits 64 m.seq ∧ SignedFits 64 m.aruSeq ∧ m.installViewId.Ok ∧ m.nodeList.Ok
  | .leave, m => SignedFits 64 m.seq ∧ SignedFits 64 m.aruSeq
  | .delayedList, m => m.delayedList.entries.length < 256

/-- A message of class `c` travels whole. -/
structure MessageClass.WireOk (c : MessageClass) (m : Message) : Prop where
  header : m.HeaderOk
  tail : c.TailOk m

/-- The fields a class's `unserialize` sets after the header, from `m`. -/
def MessageClass.readTail : MessageClass → Message → Message → Message
  | .user, d, m => { d with userType := m.userType, seqRange := m.seqRange, seq := m.seq, aruSeq := m.aruSeq }
  | .delegate, d, _ => d
  | .gap, d, m => { d with seq := m.seq, aruSeq := m.aruSeq, rangeUuid := m.rangeUuid, range := m.range }
  | .join, d, m => { d with seq := m.seq, aruSeq := m.aruSeq, nodeList := m.nodeList }
  | .install, d, m =>
    { d with seq := m.seq, aruSeq := m.aruSeq, installViewId := m.installViewId, nodeList := m.nodeList }
  | .leave, d, m => { d with seq := m.seq, aruSeq := m.aruSeq }
  | .delayedList, d, m => { d with delayedList := m.delayedList }

/-- The message a class's `unserialize` makes of the object `d` from the
    bytes `serialize` wrote of `m`. -/
def MessageClass.readInto (c : MessageClass) (d m : Message) : Message := c.readTail (d.withHeader m) m

theorem writes_userMessageSerialize {m : Message} (h : MessageClass.user.WireOk m) :
    Writes (userMessageSerialize m) (MessageClass.user.bytes m) := by
  obtain ⟨_, hle, _, _⟩ := h.tail
  have hw := writes_seq (.cons (writes_messageSerialize h.header) (.cons (writes_serializeN 1 m.userType.toNat)
    (.cons (writes_check (decide_eq_true hle) .fatal) (.cons (writes_serializeN 1 (ofSigned 8 m.seqRange))
    (.cons (writes_serializeN 2 0) (.cons (writes_serializeN 8 (ofSigned 64 m.seq))
    (.cons (writes_serializeN 8 (ofSigned 64 m.aruSeq)) .nil)))))))
  simp only [List.flatten_cons, List.flatten_nil, List.append_nil, List.nil_append] at hw
  simp only [MessageClass.bytes, MessageClass.tailBytes, List.append_assoc]
  exact hw

theorem reads_userMessageUnserialize (d : Message) {m : Message} (h : MessageClass.user.WireOk m) :
    Reads (userMessageUnserialize d false) (MessageClass.user.readInto d m) (MessageClass.user.bytes m) := by
  obtain ⟨h0, hle, hseq, haru⟩ := h.tail
  -- the range, in `[0, 255]`, comes back from its byte as itself
  have hrange : ((ofSigned 8 m.seqRange : Nat) : Int) = m.seqRange :=
    ofSigned_of_nonneg h0 (by show m.seqRange < (256 : Nat); omega)
  unfold userMessageUnserialize
  simp only [Bool.false_eq_true, ↓reduceIte, MessageClass.bytes, MessageClass.tailBytes, List.append_assoc]
  rw [← List.append_nil (leBytes 8 (ofSigned 64 m.aruSeq))]
  refine (reads_messageUnserialize d h.header).bind ((reads_unserializeN (n := 1) m.userType.toNat_lt).bind
    ((reads_unserializeN (n := 1) (ofSigned_lt 8 m.seqRange)).bind
    ((reads_unserializeN (n := 2) (by decide : 0 < 256 ^ 2)).bind
    ((reads_unserializeSeqno hseq).bind ((reads_unserializeSeqno haru).bind ?_)))))
  simp only [hrange, UInt8.ofNat_toNat]
  exact reads_pure _

theorem writes_delegateMessageSerialize {m : Message} (h : m.HeaderOk) :
    Writes (delegateMessageSerialize m) (MessageClass.delegate.bytes m) := by
  rw [MessageClass.bytes, MessageClass.tailBytes, List.append_nil]
  exact writes_messageSerialize h

theorem reads_delegateMessageUnserialize (d : Message) {m : Message} (h : m.HeaderOk) :
    Reads (delegateMessageUnserialize d false) (MessageClass.delegate.readInto d m)
      (MessageClass.delegate.bytes m) := by
  rw [MessageClass.bytes, MessageClass.tailBytes, List.append_nil]
  exact reads_messageUnserialize d h

theorem writes_gapMessageSerialize {m : Message} (h : m.HeaderOk) :
    Writes (gapMessageSerialize m) (MessageClass.gap.bytes m) := by
  have hw := writes_seq (.cons (writes_messageSerialize h) (.cons (writes_serializeN 8 (ofSigned 64 m.seq))
    (.cons (writes_serializeN 8 (ofSigned 64 m.aruSeq)) (.cons (writes_bytes .uuidSerialize (beBytes 16 m.rangeUuid.val))
    (.cons (writes_rangeSerialize m.range) .nil)))))
  simp only [List.flatten_cons, List.flatten_nil, List.append_nil] at hw
  simp only [MessageClass.bytes, MessageClass.tailBytes, List.append_assoc]
  exact hw

theorem reads_gapMessageUnserialize (d : Message) {m : Message} (h : MessageClass.gap.WireOk m) :
    Reads (gapMessageUnserialize d false) (MessageClass.gap.readInto d m) (MessageClass.gap.bytes m) := by
  obtain ⟨hseq, haru, hrange⟩ := h.tail
  unfold gapMessageUnserialize
  simp only [Bool.false_eq_true, ↓reduceIte, MessageClass.bytes, MessageClass.tailBytes, List.append_assoc]
  rw [← List.append_nil (rangeBytes m.range)]
  refine (reads_messageUnserialize d h.header).bind ((reads_unserializeSeqno hseq).bind
    ((reads_unserializeSeqno haru).bind ((reads_uuidUnserialize m.rangeUuid).bind
    ((reads_rangeUnserialize hrange).bind ?_))))
  exact reads_pure _

theorem writes_joinMessageSerialize {m : Message} (h : MessageClass.join.WireOk m) :
    Writes (joinMessageSerialize m) (MessageClass.join.bytes m) := by
  obtain ⟨_, _, hnodes⟩ := h.tail
  have hw := writes_seq (.cons (writes_messageSerialize h.header) (.cons (writes_serializeN 8 (ofSigned 64 m.seq))
    (.cons (writes_serializeN 8 (ofSigned 64 m.aruSeq)) (.cons (writes_nodeListSerialize hnodes) .nil))))
  simp only [List.flatten_cons, List.flatten_nil, List.append_nil] at hw
  simp only [MessageClass.bytes, MessageClass.tailBytes, List.append_assoc]
  exact hw

theorem reads_joinMessageUnserialize (d : Message) {m : Message} (h : MessageClass.join.WireOk m) :
    Reads (joinMessageUnserialize d false) (MessageClass.join.readInto d m) (MessageClass.join.bytes m) := by
  obtain ⟨hseq, haru, hnodes⟩ := h.tail
  unfold joinMessageUnserialize
  simp only [Bool.false_eq_true, ↓reduceIte, MessageClass.bytes, MessageClass.tailBytes, List.append_assoc]
  rw [← List.append_nil (nodeListBytes m.nodeList)]
  refine (reads_messageUnserialize d h.header).bind ((reads_unserializeSeqno hseq).bind
    ((reads_unserializeSeqno haru).bind ((reads_nodeListUnserialize hnodes).bind ?_)))
  exact reads_pure _

theorem writes_installMessageSerialize {m : Message} (h : MessageClass.install.WireOk m) :
    Writes (installMessageSerialize m) (MessageClass.install.bytes m) := by
  obtain ⟨_, _, hview, hnodes⟩ := h.tail
  have hw := writes_seq (.cons (writes_messageSerialize h.header) (.cons (writes_serializeN 8 (ofSigned 64 m.seq))
    (.cons (writes_serializeN 8 (ofSigned 64 m.aruSeq)) (.cons (writes_viewIdSerialize hview)
    (.cons (writes_nodeListSerialize hnodes) .nil)))))
  simp only [List.flatten_cons, List.flatten_nil, List.append_nil] at hw
  simp only [MessageClass.bytes, MessageClass.tailBytes, List.append_assoc]
  exact hw

theorem reads_installMessageUnserialize (d : Message) {m : Message} (h : MessageClass.install.WireOk m) :
    Reads (installMessageUnserialize d false) (MessageClass.install.readInto d m) (MessageClass.install.bytes m) := by
  obtain ⟨hseq, haru, hview, hnodes⟩ := h.tail
  unfold installMessageUnserialize
  simp only [Bool.false_eq_true, ↓reduceIte, MessageClass.bytes, MessageClass.tailBytes, List.append_assoc]
  rw [← List.append_nil (nodeListBytes m.nodeList)]
  refine (reads_messageUnserialize d h.header).bind ((reads_unserializeSeqno hseq).bind
    ((reads_unserializeSeqno haru).bind ((reads_viewIdUnserialize hview).bind
    ((reads_nodeListUnserialize hnodes).bind ?_))))
  exact reads_pure _

theorem writes_leaveMessageSerialize {m : Message} (h : m.HeaderOk) :
    Writes (leaveMessageSerialize m) (MessageClass.leave.bytes m) := by
  have hw := writes_seq (.cons (writes_messageSerialize h) (.cons (writes_serializeN 8 (ofSigned 64 m.seq))
    (.cons (writes_serializeN 8 (ofSigned 64 m.aruSeq)) .nil)))
  simp only [List.flatten_cons, List.flatten_nil, List.append_nil] at hw
  simp only [MessageClass.bytes, MessageClass.tailBytes]
  exact hw

theorem reads_leaveMessageUnserialize (d : Message) {m : Message} (h : MessageClass.leave.WireOk m) :
    Reads (leaveMessageUnserialize d false) (MessageClass.leave.readInto d m) (MessageClass.leave.bytes m) := by
  obtain ⟨hseq, haru⟩ := h.tail
  unfold leaveMessageUnserialize
  simp only [Bool.false_eq_true, ↓reduceIte, MessageClass.bytes, MessageClass.tailBytes]
  rw [← List.append_nil (leBytes 8 (ofSigned 64 m.aruSeq))]
  refine (reads_messageUnserialize d h.header).bind ((reads_unserializeSeqno hseq).bind
    ((reads_unserializeSeqno haru).bind ?_))
  exact reads_pure _

/-- The delayed list's writer needs nothing of the list: every entry is
    written, whatever their number. -/
theorem writes_delayedListMessageSerialize {m : Message} (h : m.HeaderOk) :
    Writes (delayedListMessageSerialize m) (MessageClass.delayedList.bytes m) := by
  have hw := writes_seq (.cons (writes_messageSerialize h) (.cons (writes_serializeN 1 m.delayedList.entries.length)
    (.cons (writes_delayedListSerialize m.delayedList) .nil)))
  simp only [List.flatten_cons, List.flatten_nil, List.append_nil] at hw
  simp only [MessageClass.bytes, MessageClass.tailBytes]
  exact hw

/-- The delayed list's reader after a count byte written of `c`: it reads
    `c mod 256` entries, as many as the list has at least. -/
theorem reads_delayedListMessageUnserialize (d : Message) {m : Message} (h : m.HeaderOk) (c : Nat)
    (hc : c % 256 ≤ m.delayedList.entries.length) :
    Reads (delayedListMessageUnserialize d false) { d.withHeader m with delayedList := m.delayedList.take (c % 256) }
      (headerBytes m ++ leBytes 1 c ++ (m.delayedList.entries.take (c % 256)).flatMap delayedEntryBytes) := by
  unfold delayedListMessageUnserialize
  simp only [Bool.false_eq_true, ↓reduceIte, List.append_assoc]
  rw [← List.append_nil ((m.delayedList.entries.take (c % 256)).flatMap delayedEntryBytes)]
  refine (reads_messageUnserialize d h).bind ((reads_unserializeN_mod 1 c).bind
    ((reads_delayedListLoop m.delayedList hc).bind ?_))
  exact reads_pure _

/-- All the entries of a delayed list are the list. -/
theorem DelayedList.take_length (l : DelayedList) : l.take l.entries.length = l :=
  SortedMap.ext (List.take_of_length_le (Nat.le_refl _))

theorem reads_delayedListMessageUnserialize_of_lt (d : Message) {m : Message}
    (h : MessageClass.delayedList.WireOk m) :
    Reads (delayedListMessageUnserialize d false) (MessageClass.delayedList.readInto d m)
      (MessageClass.delayedList.bytes m) := by
  have hn : m.delayedList.entries.length < 256 := h.tail
  have hr := reads_delayedListMessageUnserialize d h.header m.delayedList.entries.length (by omega)
  -- below 256 the count byte holds the count, and all entries are read
  rw [Nat.mod_eq_of_lt hn, DelayedList.take_length, List.take_of_length_le (Nat.le_refl _), List.append_assoc] at hr
  exact hr

/-! ## §6. The round trip -/

theorem MessageClass.writes_serialize (c : MessageClass) {m : Message} (h : c.WireOk m) :
    Writes (c.serialize m) (c.bytes m) := by
  cases c
  case user => exact writes_userMessageSerialize h
  case delegate => exact writes_delegateMessageSerialize h.header
  case gap => exact writes_gapMessageSerialize h.header
  case join => exact writes_joinMessageSerialize h
  case install => exact writes_installMessageSerialize h
  case leave => exact writes_leaveMessageSerialize h.header
  case delayedList => exact writes_delayedListMessageSerialize h.header

theorem MessageClass.reads_unserialize (c : MessageClass) (d : Message) {m : Message} (h : c.WireOk m) :
    Reads (c.unserialize d false) (c.readInto d m) (c.bytes m) := by
  cases c
  case user => exact reads_userMessageUnserialize d h
  case delegate => exact reads_delegateMessageUnserialize d h.header
  case gap => exact reads_gapMessageUnserialize d h
  case join => exact reads_joinMessageUnserialize d h
  case install => exact reads_installMessageUnserialize d h
  case leave => exact reads_leaveMessageUnserialize d h
  case delayedList => exact reads_delayedListMessageUnserialize_of_lt d h

/-- **The round trip.**  In a buffer with room at the offset, `serialize`
    of a message of any class that travels whole writes its bytes and
    returns the offset after them, and the class's `unserialize` reads
    back from that offset the message `readInto` gives, returning the same
    offset. -/
theorem MessageClass.round_trip (c : MessageClass) (d : Message) {m : Message} (h : c.WireOk m)
    {buf : List UInt8} {off : Nat} (hfit : off + (c.bytes m).length ≤ buf.length) :
    ∃ buf', c.serialize m buf off = .ok (buf', off + (c.bytes m).length) ∧
      c.unserialize d false buf' off = .ok (c.readInto d m, off + (c.bytes m).length) :=
  (c.writes_serialize h).reads (c.reads_unserialize d h) hfit

/-- `serial_size` counts the bytes `serialize` writes, for every class but
    a delayed list of more than 255 entries. -/
theorem MessageClass.serialSize_eq (c : MessageClass) (m : Message)
    (h : c = .delayedList → m.delayedList.entries.length ≤ 255) : (c.bytes m).length = c.serialSize m := by
  cases c
  case delayedList =>
    simp only [bytes, tailBytes, serialSize, delayedListMessageSerialSize, List.length_append, length_headerBytes,
      length_leBytes, length_flatMap_const delayedEntryBytes length_delayedEntryBytes, Nat.min_eq_left (h rfl)]
    omega
  all_goals
    simp only [bytes, tailBytes, serialSize, userMessageSerialSize, delegateMessageSerialSize, gapMessageSerialSize,
      joinMessageSerialSize, installMessageSerialSize, leaveMessageSerialSize, List.length_append, List.length_nil,
      length_headerBytes, length_leBytes, length_beBytes, length_rangeBytes, length_viewIdBytes, length_nodeListBytes,
      uuidSerialSize]
  all_goals omega

/-! ## §7. What comes back -/

/-- The fields of `d` that a class's `unserialize` leaves as they are
    agree with those of `m`. -/
def MessageClass.Untouched : MessageClass → Message → Message → Prop
  | .user, d, m => d.installViewId = m.installViewId ∧ d.rangeUuid = m.rangeUuid ∧ d.range = m.range ∧
      d.nodeList = m.nodeList ∧ d.delayedList = m.delayedList
  | .delegate, d, m => d.userType = m.userType ∧ d.seq = m.seq ∧ d.seqRange = m.seqRange ∧ d.aruSeq = m.aruSeq ∧
      d.installViewId = m.installViewId ∧ d.rangeUuid = m.rangeUuid ∧ d.range = m.range ∧
      d.nodeList = m.nodeList ∧ d.delayedList = m.delayedList
  | .gap, d, m => d.userType = m.userType ∧ d.seqRange = m.seqRange ∧ d.installViewId = m.installViewId ∧
      d.nodeList = m.nodeList ∧ d.delayedList = m.delayedList
  | .join, d, m => d.userType = m.userType ∧ d.seqRange = m.seqRange ∧ d.installViewId = m.installViewId ∧
      d.rangeUuid = m.rangeUuid ∧ d.range = m.range ∧ d.delayedList = m.delayedList
  | .install, d, m => d.userType = m.userType ∧ d.seqRange = m.seqRange ∧ d.rangeUuid = m.rangeUuid ∧
      d.range = m.range ∧ d.delayedList = m.delayedList
  | .leave, d, m => d.userType = m.userType ∧ d.seqRange = m.seqRange ∧ d.installViewId = m.installViewId ∧
      d.rangeUuid = m.rangeUuid ∧ d.range = m.range ∧ d.nodeList = m.nodeList ∧ d.delayedList = m.delayedList
  | .delayedList, d, m => d.userType = m.userType ∧ d.seq = m.seq ∧ d.seqRange = m.seqRange ∧
      d.aruSeq = m.aruSeq ∧ d.installViewId = m.installViewId ∧ d.rangeUuid = m.rangeUuid ∧ d.range = m.range ∧
      d.nodeList = m.nodeList

/-- The header read into `d` gives back `m`'s source: it was written, or
    `d` already had it. -/
theorem Message.withHeader_source {d m : Message} (hsrc : m.hasSource = false → d.source = m.source) :
    (d.withHeader m).source = m.source := by
  show (if m.hasSource then m.source else d.source) = m.source
  cases hs : m.hasSource
  · exact hsrc hs
  · rfl

/-- Read into an object that agrees with `m` wherever the class's
    `unserialize` does not write, the message comes back as itself. -/
theorem MessageClass.readInto_eq_self (c : MessageClass) {d m : Message} (hu : c.Untouched d m)
    (hsrc : m.hasSource = false → d.source = m.source) : c.readInto d m = m := by
  have hs := Message.withHeader_source hsrc
  obtain ⟨⟩ := m
  cases c <;> simp_all [readInto, readTail, Untouched, Message.withHeader]

/-- Every class's fresh object has the nil source. -/
theorem MessageClass.fresh_source (c : MessageClass) : c.fresh.source = 0 := by
  cases c <;> rfl

/-- Read into a fresh object of its class, a message that keeps the fresh
    object's values in the fields its class does not carry comes back as
    itself, when `F_SOURCE` is set or its source is nil. -/
theorem MessageClass.readInto_fresh (c : MessageClass) {m : Message} (hu : c.Untouched c.fresh m)
    (hsrc : m.hasSource = false → m.source = 0) : c.readInto c.fresh m = m :=
  c.readInto_eq_self hu fun hs => c.fresh_source.trans (hsrc hs).symm

/-! ## §8. More than 255 delayed entries -/

/-- The bytes of a delayed list message: the header, the count byte, the
    entries. -/
theorem length_delayedListBytes (m : Message) :
    (MessageClass.delayedList.bytes m).length =
      messageSerialSize m + 1 + m.delayedList.entries.length * (uuidSerialSize + 1) := by
  simp only [MessageClass.bytes, MessageClass.tailBytes, List.length_append, length_headerBytes, length_leBytes,
    length_flatMap_const delayedEntryBytes length_delayedEntryBytes]
  omega

/-- The bytes of a delayed list message cut after its first `k` entries. -/
theorem delayedListBytes_split (m : Message) (k : Nat) :
    MessageClass.delayedList.bytes m =
      (headerBytes m ++ leBytes 1 m.delayedList.entries.length ++
        (m.delayedList.entries.take k).flatMap delayedEntryBytes) ++
        (m.delayedList.entries.drop k).flatMap delayedEntryBytes := by
  simp only [MessageClass.bytes, MessageClass.tailBytes, List.append_assoc]
  rw [← List.flatMap_append, List.take_append_drop]

/-- A delayed list of `n ≥ 256` entries: `serialize` writes every entry
    after a count byte holding `n mod 256`, and `serial_size` counts 255
    of them.  In a buffer of `serial_size` bytes from the offset,
    `serialize` fails; in one with room, `unserialize` reads back only the
    first `n mod 256` entries, and returns an offset short of the one
    `serialize` returned. -/
theorem delayed_list_count_wraps (d m : Message) (h : m.HeaderOk) (hn : 256 ≤ m.delayedList.entries.length)
    (buf : List UInt8) (off : Nat) :
    (off + delayedListMessageSerialSize m = buf.length →
      ∃ e, delayedListMessageSerialize m buf off = .error e) ∧
    (off + messageSerialSize m + 1 + m.delayedList.entries.length * (uuidSerialSize + 1) ≤ buf.length →
      ∃ buf', delayedListMessageSerialize m buf off =
          .ok (buf', off + messageSerialSize m + 1 + m.delayedList.entries.length * (uuidSerialSize + 1)) ∧
        delayedListMessageUnserialize d false buf' off =
          .ok ({ d.withHeader m with delayedList := m.delayedList.take (m.delayedList.entries.length % 256) },
            off + messageSerialSize m + 1 + m.delayedList.entries.length % 256 * (uuidSerialSize + 1)) ∧
        m.delayedList.take (m.delayedList.entries.length % 256) ≠ m.delayedList) := by
  have hw := writes_delayedListMessageSerialize h
  have hlen := length_delayedListBytes m
  have hk : m.delayedList.entries.length % 256 < m.delayedList.entries.length :=
    Nat.lt_of_lt_of_le (Nat.mod_lt _ (by decide)) hn
  constructor
  · -- `serial_size` counts 255 entries, fewer than are written
    intro hbuf
    have hsize : delayedListMessageSerialSize m = messageSerialSize m + 1 + 255 * (uuidSerialSize + 1) := by
      rw [delayedListMessageSerialSize, Nat.min_eq_right (by omega)]
    have h17 : uuidSerialSize + 1 = 17 := rfl
    rw [hsize, h17] at hbuf
    rw [h17] at hlen
    exact (hw buf off (by omega)).2 (by omega)
  · intro hfit
    -- the reader reads the header, the count byte and the first `n mod 256` entries
    have hsplit := delayedListBytes_split m (m.delayedList.entries.length % 256)
    have hroom : off + (MessageClass.delayedList.bytes m).length ≤ buf.length := by
      rw [hlen]
      omega
    rw [hsplit] at hw hroom
    obtain ⟨buf', hser, hdes⟩ :=
      hw.reads_prefix (reads_delayedListMessageUnserialize d h m.delayedList.entries.length hk.le) hroom
    have hread : (headerBytes m ++ leBytes 1 m.delayedList.entries.length ++
        (m.delayedList.entries.take (m.delayedList.entries.length % 256)).flatMap delayedEntryBytes).length =
        messageSerialSize m + 1 + m.delayedList.entries.length % 256 * (uuidSerialSize + 1) := by
      simp only [List.length_append, length_headerBytes, length_leBytes,
        length_flatMap_const delayedEntryBytes length_delayedEntryBytes, List.length_take, Nat.min_eq_left hk.le]
    refine ⟨buf', ?_, ?_, ?_⟩
    · rw [hser, ← hsplit, hlen, Nat.add_assoc off, Nat.add_assoc off]
    · rw [hdes, hread, Nat.add_assoc off, Nat.add_assoc off]
    · -- the list read back is shorter
      intro heq
      have hlen' := congrArg (fun l : DelayedList => l.entries.length) heq
      simp only [DelayedList.take, List.length_take, Nat.min_eq_left hk.le] at hlen'
      omega

/-- 256 delayed entries: the UUIDs `0, …, 255`, each with count 0. -/
def delayedList256 : DelayedList :=
  ⟨(List.finRange 256).map fun i => (Fin.castLE (by decide) i, 0), by
    rw [List.pairwise_map]
    refine (List.pairwise_lt_finRange 256).imp fun hij => ?_
    exact (Fin.castLE_lt_castLE_iff (by decide)).2 hij⟩

/-- A delayed list message of version 1 from the source view `⟨reg, 0, 0⟩`
    with those entries. -/
def delayedListMessage256 : Message :=
  { MessageClass.fresh .delayedList with
    version := 1, sourceViewId := { ViewId.default with type := .reg }, delayedList := delayedList256 }

theorem delayed_list_count_wraps_at_256 :
    delayedListMessage256.HeaderOk ∧ 256 ≤ delayedListMessage256.delayedList.entries.length ∧
    (0 + delayedListMessageSerialSize delayedListMessage256 = (List.replicate 4385 (0 : UInt8)).length →
      ∃ e, delayedListMessageSerialize delayedListMessage256 (List.replicate 4385 0) 0 = .error e) ∧
    (0 + messageSerialSize delayedListMessage256 + 1 +
        delayedListMessage256.delayedList.entries.length * (uuidSerialSize + 1) ≤
        (List.replicate 4385 (0 : UInt8)).length →
      ∃ buf', delayedListMessageSerialize delayedListMessage256 (List.replicate 4385 0) 0 =
          .ok (buf', 0 + messageSerialSize delayedListMessage256 + 1 +
            delayedListMessage256.delayedList.entries.length * (uuidSerialSize + 1)) ∧
        delayedListMessageUnserialize (MessageClass.fresh .delayedList) false buf' 0 =
          .ok ({ (MessageClass.fresh .delayedList).withHeader delayedListMessage256 with
              delayedList := delayedListMessage256.delayedList.take
                (delayedListMessage256.delayedList.entries.length % 256) },
            0 + messageSerialSize delayedListMessage256 + 1 +
              delayedListMessage256.delayedList.entries.length % 256 * (uuidSerialSize + 1)) ∧
        delayedListMessage256.delayedList.take (delayedListMessage256.delayedList.entries.length % 256) ≠
          delayedListMessage256.delayedList) := by
  have hok : delayedListMessage256.HeaderOk :=
    ⟨by decide, by decide, fun _ _ => by decide, by decide, ⟨by decide, by decide⟩⟩
  have hlen : 256 ≤ delayedListMessage256.delayedList.entries.length := by
    show 256 ≤ ((List.finRange 256).map _).length
    rw [List.length_map, List.length_finRange]
  exact ⟨hok, hlen, delayed_list_count_wraps _ _ hok hlen _ _⟩

end Galera.Evs
