/-
  Galera.Pc.Message
  ─────────────────
  **PC MESSAGES ON THE WIRE (`pc_message.hpp`, `gcomm/map.hpp`).**

  A PC message is one 32-bit word packing the version (4 bits), the flags
  (4 bits), the type (8 bits) and the CRC16 (16 bits), then the seqno;
  state and install messages add their node map, a `gcomm::Map` written as
  a 32-bit count and its entries in key order, each a UUID and a
  `pc::Node`: a word of flags, segment and weight, the last seen seqno,
  the last primary view id and the TO seqno.  The fields go through the
  `gu::serialize4/8`, `UUID::serialize` and `ViewId::serialize` of
  `Galera.Evs.Message`; `Galera.Evs.nodeListSerialize` is the same
  `Map::serialize` at `evs::MessageNode`.

    * `mapSerialize`, `mapUnserialize` — `gcomm::Map<UUID, V>` for a codec
      of `V`; `reads_mapUnserialize`: a map reads back wherever its values
      do, each value as its reader reads it;
    * `pcNodeSerialize`, `pcNodeUnserialize` — `Node::serialize` and
      `Node::unserialize`; a weight travels in one byte;
    * `pcMessageSerialize`, `pcMessageUnserialize`, `pcMessageSerialSize`;
    * `pcMessage_roundTrip` — a message of a supported version and a
      valid type reads back as written, but for its flags cut to 4 bits,
      its weights to a byte and the node map of a user message, which
      does not travel;
    * `pcMessageUnserialize_eq_ok` — what the reader accepts is such a
      message, one that reads back as itself, and took `serial_size`
      bytes; `pcMessage_reencode` — so it is written back and read back
      unchanged.
-/
import Mathlib
import Galera.Evs.MessageRoundTrip
import Galera.Pc.Install

namespace Galera.Pc

open Galera.Evs (Uuid ViewId EvsCodecError serialize4 unserialize4 serializeSeqno unserializeSeqno uuidSerialize
  uuidUnserialize uuidSerialSize viewIdSerialize viewIdUnserialize viewIdSerialSize viewIdBytes gcommProtocolMaxVersion
  writes_serializeN reads_unserializeN reads_unserializeSeqno reads_uuidUnserialize writes_viewIdSerialize
  reads_viewIdUnserialize length_viewIdBytes)
open Galera.Bytes (leBytes beBytes ofSigned SignedFits length_leBytes length_beBytes or_shiftLeft_eq_add
  and_eq_mod_and ofLeBytes_lt signedFits_toSigned)
open Galera.Wire

/-! ## §1. `gcomm::Map` -/

section Map

variable {ν : Type}

/-- `Map::serialize`: the count as a `uint32_t`, then each entry's key and
    value. -/
def mapSerialize (valueSerialize : ν → Put EvsCodecError) (m : SortedMap Uuid ν) : Put EvsCodecError :=
  Put.seq (serialize4 m.entries.length ::
    m.entries.map fun e => Put.andThen (uuidSerialize e.1) (valueSerialize e.2))

/-- One round of `Map::unserialize`: an entry read and inserted; a key read
    twice is fatal. -/
def mapEntryUnserialize (valueUnserialize : Get EvsCodecError ν) (m : SortedMap Uuid ν) :
    Get EvsCodecError (SortedMap Uuid ν) := do
  let k ← uuidUnserialize
  let v ← valueUnserialize
  if (m.insert k v).2 then pure (m.insert k v).1 else Get.fail .fatal

/-- `Map::unserialize`, after `map_.clear()`. -/
def mapUnserialize (valueUnserialize : Get EvsCodecError ν) : Get EvsCodecError (SortedMap Uuid ν) := do
  let len ← unserialize4
  Get.loop (mapEntryUnserialize valueUnserialize) len SortedMap.empty

/-- `Map::serial_size`, for values of `valueSerialSize` bytes. -/
def mapSerialSize (valueSerialSize : Nat) (m : SortedMap Uuid ν) : Nat :=
  4 + m.entries.length * (uuidSerialSize + valueSerialSize)

end Map

/-! ## §2. `pc::Node` -/

namespace PcNode

/-- `Node::F_PRIM`, `F_WEIGHT`, `F_UN`, `F_EVICTED`. -/
def fPrim : Nat := 0x1

def fWeight : Nat := 0x2

def fUn : Nat := 0x4

def fEvicted : Nat := 0x8

/-- The header word of `Node::serialize`: the flags in the low bits, the
    segment in bits 16 to 23 and, when the node has a weight,
    `weight_ << 24`, an `int` cut to the 32 bits of the word. -/
def header (n : PcNode) : Nat :=
  (if n.prim then fPrim else 0) ||| (if n.un then fUn else 0) |||
    (if 0 ≤ n.weight then fWeight ||| (n.weight.toNat <<< 24) % 2 ^ 32 else 0) |||
    (if n.evicted then fEvicted else 0) ||| (n.segment.toNat <<< 16)

end PcNode

/-- `Node::serialize`. -/
def pcNodeSerialize (n : PcNode) : Put EvsCodecError :=
  Put.seq [serialize4 n.header, serialize4 n.lastSeq.toNat, viewIdSerialize n.lastPrim, serializeSeqno n.toSeq]

/-- `Node::unserialize`: the weight is the top byte when `F_WEIGHT` is set,
    -1 when not. -/
def pcNodeUnserialize : Get EvsCodecError PcNode := do
  let header ← unserialize4
  let lastSeq ← unserialize4
  let lastPrim ← viewIdUnserialize
  let toSeq ← unserializeSeqno
  pure
    { prim := header &&& PcNode.fPrim != 0, un := header &&& PcNode.fUn != 0,
      evicted := header &&& PcNode.fEvicted != 0, lastSeq := UInt32.ofNat lastSeq, lastPrim, toSeq,
      weight := if header &&& PcNode.fWeight != 0 then ((header >>> 24 : Nat) : Int) else -1,
      segment := UInt8.ofNat ((header >>> 16) &&& 0xff) }

/-- `Node::serial_size`. -/
def pcNodeSerialSize : Nat := 4 + 4 + viewIdSerialSize + 8

/-! ## §3. `pc::Message` -/

/-- The value of a `Message::Type`. -/
def PcMessageType.toNat : PcMessageType → Nat
  | .none => 0
  | .state => 1
  | .install => 2
  | .user => 3

/-- The check of `Message::unserialize` on the type byte: `PC_T_NONE` and
    values from `PC_T_MAX` on are `EINVAL`. -/
def PcMessageType.ofBits? : Nat → Option PcMessageType
  | 1 => some .state
  | 2 => some .install
  | 3 => some .user
  | _ => Option.none

/-- Only state and install messages carry a node map. -/
def PcMessageType.hasNodeMap (t : PcMessageType) : Bool := t == .state || t == .install

/-- The header word of `Message::serialize`: the CRC16, the type and the
    version shifted in one after the other, the flags above the version. -/
def PcMessage.headerWord (m : PcMessage) : Nat :=
  ((m.crc16.toNat <<< 8 ||| (m.type.toNat &&& 0xff)) <<< 8 ||| (m.version &&& 0x0f)) ||| ((m.flags <<< 4) &&& 0xf0)

/-- `Message::serialize`. -/
def pcMessageSerialize (m : PcMessage) : Put EvsCodecError :=
  Put.seq [serialize4 m.headerWord, serialize4 m.seq.toNat,
    if m.type.hasNodeMap then mapSerialize pcNodeSerialize m.nodeMap else Put.skip]

/-- `Message::unserialize`: the version is checked before the type, and a
    message without a node map has the empty one `clear()` left. -/
def pcMessageUnserialize : Get EvsCodecError PcMessage := do
  let b ← unserialize4
  let version := b &&& 0x0f
  if version > gcommProtocolMaxVersion then Get.fail .protoNotSupported
  let flags := (b &&& 0xf0) >>> 4
  match PcMessageType.ofBits? ((b >>> 8) &&& 0xff) with
  | none => Get.fail .invalidType
  | some type =>
    let crc16 := (b >>> 16) &&& 0xffff
    let seq ← unserialize4
    let nodeMap ← if type.hasNodeMap then mapUnserialize pcNodeUnserialize else pure SortedMap.empty
    pure { version, flags, type, seq := UInt32.ofNat seq, crc16 := UInt16.ofNat crc16, nodeMap }

/-- `Message::serial_size`. -/
def pcMessageSerialSize (m : PcMessage) : Nat :=
  4 + 4 + (if m.type.hasNodeMap then mapSerialSize pcNodeSerialSize m.nodeMap else 0)

/-! ## §4. A map reads back -/

/-- The bytes of a map: the count, then each entry's key and value. -/
def mapBytes {ν : Type} (valueBytes : ν → List UInt8) (m : SortedMap Uuid ν) : List UInt8 :=
  leBytes 4 m.entries.length ++ m.entries.flatMap fun e => beBytes 16 e.1.val ++ valueBytes e.2

section MapRoundTrip

variable {ν : Type} {valueSerialize : ν → Put EvsCodecError} {valueUnserialize : Get EvsCodecError ν}
  {valueBytes : ν → List UInt8} {dec : ν → ν} {ok : ν → Prop}

/-- `Map::serial_size` counts the bytes of the map. -/
theorem length_mapBytes {k : Nat} (hk : ∀ v, (valueBytes v).length = k) (m : SortedMap Uuid ν) :
    (mapBytes valueBytes m).length = mapSerialSize k m := by
  have he : ∀ e : Uuid × ν, (beBytes 16 e.1.val ++ valueBytes e.2).length = uuidSerialSize + k := fun e => by
    rw [List.length_append, length_beBytes, hk]
    rfl
  rw [mapBytes, List.length_append, length_leBytes, length_flatMap_const _ he, mapSerialSize]

theorem writes_mapSerialize (hw : ∀ v, ok v → Writes (valueSerialize v) (valueBytes v)) {m : SortedMap Uuid ν}
    (hok : ∀ e ∈ m.entries, ok e.2) : Writes (mapSerialize valueSerialize m) (mapBytes valueBytes m) :=
  (writes_serializeN 4 m.entries.length).andThen (writes_seq_map _ _ m.entries
    fun e he => (writes_bytes _ _).andThen (hw e.2 (hok e he)))

/-- One round of the reader of a map: the entry read is inserted, when its
    key is not there yet. -/
theorem reads_mapEntryUnserialize (hr : ∀ v, ok v → Reads valueUnserialize (dec v) (valueBytes v))
    (acc : SortedMap Uuid ν) {e : Uuid × ν} (he : ok e.2) (hins : (acc.insert e.1 (dec e.2)).2 = true) :
    Reads (mapEntryUnserialize valueUnserialize acc) (SortedMap.insertStep acc (e.1, dec e.2))
      (beBytes 16 e.1.val ++ valueBytes e.2) := by
  unfold mapEntryUnserialize
  rw [← List.append_nil (valueBytes e.2)]
  refine (reads_uuidUnserialize e.1).bind ((hr e.2 he).bind ?_)
  simp only [hins, if_true]
  exact reads_pure _

/-- A map reads back, each value as its reader reads it: the entries come
    in key order, so each is inserted at the end. -/
theorem reads_mapUnserialize (hr : ∀ v, ok v → Reads valueUnserialize (dec v) (valueBytes v))
    {m : SortedMap Uuid ν} (hlen : m.entries.length < 2 ^ 32) (hok : ∀ e ∈ m.entries, ok e.2) :
    Reads (mapUnserialize valueUnserialize) (m.map fun _ v => dec v) (mapBytes valueBytes m) := by
  have hsorted := SortedMap.map_sorted m fun _ v => dec v
  -- the loop inserts `m`'s entries with their values as read
  have hfold : ∀ l : List (Uuid × ν), l.foldl (fun acc e => SortedMap.insertStep acc (e.1, dec e.2))
      SortedMap.empty = (l.map fun e => (e.1, dec e.2)).foldl SortedMap.insertStep SortedMap.empty :=
    fun l => (List.foldl_map ..).symm
  have hstep : ∀ (acc : SortedMap Uuid ν) (e : Uuid × ν), ok e.2 ∧ (acc.insert e.1 (dec e.2)).2 = true →
      Reads (mapEntryUnserialize valueUnserialize acc) (SortedMap.insertStep acc (e.1, dec e.2))
        (beBytes 16 e.1.val ++ valueBytes e.2) :=
    fun acc _ hok => reads_mapEntryUnserialize hr acc hok.1 hok.2
  have hloop := reads_loop (mapEntryUnserialize valueUnserialize) (fun e => beBytes 16 e.1.val ++ valueBytes e.2)
    (fun acc e => SortedMap.insertStep acc (e.1, dec e.2)) (fun acc e => ok e.2 ∧ (acc.insert e.1 (dec e.2)).2 = true)
    hstep m.entries SortedMap.empty
    fun i hi => ⟨hok _ (List.get_mem _ _), by
      have h := SortedMap.insert_take hsorted i (by simpa using hi)
      rw [hfold, List.map_take]
      simpa using h⟩
  have hres : m.entries.foldl (fun acc e => SortedMap.insertStep acc (e.1, dec e.2)) SortedMap.empty =
      m.map fun _ v => dec v := by
    apply SortedMap.ext
    rw [hfold]
    exact SortedMap.foldl_insert_empty hsorted
  rw [hres] at hloop
  unfold mapUnserialize mapBytes
  exact (reads_unserializeN (n := 4) hlen).bind hloop

end MapRoundTrip

/-! ## §5. A node reads back -/

namespace PcNode

/-- The flag bits of the header word. -/
def flagBits (n : PcNode) : Nat :=
  (if n.prim then fPrim else 0) ||| (if 0 ≤ n.weight then fWeight else 0) ||| (if n.un then fUn else 0) |||
    (if n.evicted then fEvicted else 0)

/-- The byte a weight travels in; 0 without one. -/
def weightByte (n : PcNode) : Nat := if 0 ≤ n.weight then n.weight.toNat % 256 else 0

/-- The flag bits hold each flag in its own bit. -/
theorem flagBits_bits (n : PcNode) :
    n.flagBits < 16 ∧ (n.flagBits &&& fPrim != 0) = n.prim ∧
      (n.flagBits &&& fWeight != 0) = decide (0 ≤ n.weight) ∧ (n.flagBits &&& fUn != 0) = n.un ∧
      (n.flagBits &&& fEvicted != 0) = n.evicted := by
  unfold flagBits
  by_cases hw : 0 ≤ n.weight
  · rw [if_pos hw, decide_eq_true hw]
    cases n.prim <;> cases n.un <;> cases n.evicted <;> decide
  · rw [if_neg hw, decide_eq_false hw]
    cases n.prim <;> cases n.un <;> cases n.evicted <;> decide

/-- The header word is the flag bits, the segment at bit 16 and the weight
    byte at bit 24. -/
theorem header_eq (n : PcNode) : n.header = n.flagBits + 2 ^ 16 * (n.segment.toNat + 2 ^ 8 * n.weightByte) := by
  have hw : (if 0 ≤ n.weight then fWeight ||| (n.weight.toNat <<< 24) % 2 ^ 32 else 0) =
      (if 0 ≤ n.weight then fWeight else 0) ||| (n.weightByte <<< 8) <<< 16 := by
    unfold weightByte
    by_cases h0 : 0 ≤ n.weight
    · rw [if_pos h0, if_pos h0, if_pos h0, Nat.shiftLeft_eq, Nat.shiftLeft_eq, Nat.shiftLeft_eq]
      congr 1
      omega
    · rw [if_neg h0, if_neg h0, if_neg h0]
      rfl
  have hsplit : n.header = n.flagBits ||| (n.segment.toNat ||| n.weightByte <<< 8) <<< 16 := by
    rw [header, hw, flagBits, Nat.shiftLeft_or_distrib]
    -- the same six fields, or-ed in another order
    generalize (if n.prim then fPrim else 0) = P
    generalize (if n.un then fUn else 0) = U
    generalize (if 0 ≤ n.weight then fWeight else 0) = F
    generalize (if n.evicted then fEvicted else 0) = E
    generalize n.segment.toNat <<< 16 = S
    generalize n.weightByte <<< 8 <<< 16 = X
    ac_rfl
  rw [hsplit, or_shiftLeft_eq_add n.segment.toNat_lt, or_shiftLeft_eq_add (by have := n.flagBits_bits.1; omega)]

theorem weightByte_lt (n : PcNode) : n.weightByte < 256 := by
  unfold weightByte
  split
  · exact Nat.mod_lt _ (by decide)
  · decide

theorem header_lt (n : PcNode) : n.header < 2 ^ 32 := by
  have := n.flagBits_bits.1
  have := n.segment.toNat_lt
  have := n.weightByte_lt
  rw [header_eq]
  omega

/-- What a node reads back as: its weight cut to the byte it travels in,
    -1 when it has none. -/
def onWire (n : PcNode) : PcNode := { n with weight := if 0 ≤ n.weight then n.weight % 256 else -1 }

/-- A node travels when its last primary view id does and its TO seqno is
    an `int64_t`. -/
structure WireOk (n : PcNode) : Prop where
  lastPrim : n.lastPrim.Ok
  toSeq : SignedFits 64 n.toSeq

/-- The header word decodes to the flags, the segment and the weight as
    they travel. -/
theorem header_decode (n : PcNode) :
    (n.header &&& fPrim != 0) = n.prim ∧ (n.header &&& fUn != 0) = n.un ∧
      (n.header &&& fEvicted != 0) = n.evicted ∧ UInt8.ofNat ((n.header >>> 16) &&& 0xff) = n.segment ∧
      (if n.header &&& fWeight != 0 then ((n.header >>> 24 : Nat) : Int) else -1) = n.onWire.weight := by
  obtain ⟨hlt, hp, hw, hu, he⟩ := n.flagBits_bits
  have hs := n.segment.toNat_lt
  have hb := n.weightByte_lt
  have heq := n.header_eq
  -- the masks of the flags read the low four bits, the flag bits
  have hlow : n.header % 2 ^ 4 = n.flagBits := by omega
  have hmask : ∀ f, f < 2 ^ 4 → n.header &&& f = n.flagBits &&& f := fun f hf => by
    rw [and_eq_mod_and hf, hlow]
  have hseg : (n.header >>> 16) &&& 0xff = n.segment.toNat := by
    rw [Nat.shiftRight_eq_div_pow, show (0xff : Nat) = 2 ^ 8 - 1 from rfl, Nat.and_two_pow_sub_one_eq_mod]
    omega
  have hwb : n.header >>> 24 = n.weightByte := by
    rw [Nat.shiftRight_eq_div_pow]
    omega
  refine ⟨by rw [hmask fPrim (by decide), hp], by rw [hmask fUn (by decide), hu], by rw [hmask fEvicted (by decide), he],
    by rw [hseg, UInt8.ofNat_toNat], ?_⟩
  rw [hmask fWeight (by decide), hw, hwb, onWire, weightByte]
  by_cases h0 : 0 ≤ n.weight
  · simp only [h0, decide_true, if_true]
    omega
  · simp only [h0, decide_false, if_false]
    rfl

end PcNode

/-- The bytes of a node. -/
def pcNodeBytes (n : PcNode) : List UInt8 :=
  leBytes 4 n.header ++ leBytes 4 n.lastSeq.toNat ++ viewIdBytes n.lastPrim ++ leBytes 8 (ofSigned 64 n.toSeq)

/-- `Node::serial_size` counts the bytes of a node. -/
@[simp] theorem length_pcNodeBytes (n : PcNode) : (pcNodeBytes n).length = pcNodeSerialSize := by
  simp only [pcNodeBytes, List.length_append, length_leBytes, length_viewIdBytes, pcNodeSerialSize]

theorem writes_pcNodeSerialize {n : PcNode} (h : n.WireOk) : Writes (pcNodeSerialize n) (pcNodeBytes n) := by
  have hw := writes_seq (.cons (writes_serializeN 4 n.header) (.cons (writes_serializeN 4 n.lastSeq.toNat)
    (.cons (writes_viewIdSerialize h.lastPrim) (.cons (writes_serializeN 8 (ofSigned 64 n.toSeq)) .nil))))
  simp only [List.flatten_cons, List.flatten_nil, List.append_nil] at hw
  simp only [pcNodeBytes, List.append_assoc]
  exact hw

theorem reads_pcNodeUnserialize {n : PcNode} (h : n.WireOk) : Reads pcNodeUnserialize n.onWire (pcNodeBytes n) := by
  obtain ⟨hp, hu, he, hs, hw⟩ := n.header_decode
  unfold pcNodeUnserialize pcNodeBytes
  simp only [List.append_assoc]
  rw [← List.append_nil (leBytes 8 (ofSigned 64 n.toSeq))]
  refine (reads_unserializeN n.header_lt).bind ((reads_unserializeN n.lastSeq.toNat_lt).bind
    ((reads_viewIdUnserialize h.lastPrim).bind ((reads_unserializeSeqno h.toSeq).bind ?_)))
  simp only [hp, hu, he, hs, hw, UInt32.ofNat_toNat]
  exact reads_pure _

/-! ## §6. A message reads back -/

theorem PcMessageType.toNat_lt (t : PcMessageType) : t.toNat < 4 := by
  cases t <;> decide

theorem PcMessageType.ofBits?_toNat {t : PcMessageType} (h : t ≠ .none) : PcMessageType.ofBits? t.toNat = some t := by
  cases t
  · exact absurd rfl h
  all_goals rfl

namespace PcMessage

/-- What a message reads back as: its flags cut to the four bits they
    travel in, each node's weight to a byte, and no node map unless a
    state or install message carries one. -/
def onWire (m : PcMessage) : PcMessage :=
  { m with
    flags := m.flags % 16
    nodeMap := if m.type.hasNodeMap then m.nodeMap.map fun _ n => n.onWire else SortedMap.empty }

/-- A message travels when its version passes the reader's check, its
    type is not `PC_T_NONE` and, when it carries its node map, the map's
    count fits its `uint32_t` and every node travels. -/
structure WireOk (m : PcMessage) : Prop where
  version_le : m.version ≤ gcommProtocolMaxVersion
  type_ne : m.type ≠ .none
  count_lt : m.type.hasNodeMap → m.nodeMap.entries.length < 2 ^ 32
  nodes : m.type.hasNodeMap → ∀ e ∈ m.nodeMap.entries, e.2.WireOk

/-- The header word is the version, the flags at bit 4, the type at bit 8
    and the CRC16 at bit 16. -/
theorem headerWord_eq (m : PcMessage) :
    m.headerWord = m.version % 2 ^ 4 + 2 ^ 4 * (m.flags % 2 ^ 4) + 2 ^ 8 * (m.type.toNat + 2 ^ 8 * m.crc16.toNat) := by
  have ht : m.type.toNat &&& 0xff = m.type.toNat := by
    rw [show (0xff : Nat) = 2 ^ 8 - 1 from rfl, Nat.and_two_pow_sub_one_eq_mod,
      Nat.mod_eq_of_lt (by have := m.type.toNat_lt; omega)]
  have hv : m.version &&& 0x0f = m.version % 2 ^ 4 := Nat.and_two_pow_sub_one_eq_mod _ 4
  have hf : (m.flags <<< 4) &&& 0xf0 = (m.flags % 2 ^ 4) <<< 4 := by
    rw [show (0xf0 : Nat) = (2 ^ 4 - 1) <<< 4 from rfl, ← Nat.shiftLeft_and_distrib, Nat.and_two_pow_sub_one_eq_mod]
  have hhigh : m.type.toNat ||| m.crc16.toNat <<< 8 = m.type.toNat + 2 ^ 8 * m.crc16.toNat :=
    or_shiftLeft_eq_add (by have := m.type.toNat_lt; omega) _
  have hlow : m.version % 2 ^ 4 ||| (m.flags % 2 ^ 4) <<< 4 = m.version % 2 ^ 4 + 2 ^ 4 * (m.flags % 2 ^ 4) :=
    or_shiftLeft_eq_add (Nat.mod_lt _ (by decide)) _
  have hswap : ∀ a b c : Nat, (a ||| b) ||| c = (b ||| c) ||| a := fun a b c => by ac_rfl
  rw [headerWord, ht, hv, hf, Nat.or_comm (m.crc16.toNat <<< 8), hhigh, hswap, hlow, or_shiftLeft_eq_add (by omega)]

end PcMessage

/-- The bytes of a message. -/
def pcMessageBytes (m : PcMessage) : List UInt8 :=
  leBytes 4 m.headerWord ++ leBytes 4 m.seq.toNat ++ (if m.type.hasNodeMap then mapBytes pcNodeBytes m.nodeMap else [])

/-- `Message::serial_size` counts the bytes of a message. -/
theorem length_pcMessageBytes (m : PcMessage) : (pcMessageBytes m).length = pcMessageSerialSize m := by
  rw [pcMessageBytes, pcMessageSerialSize, List.length_append, List.length_append, length_leBytes, length_leBytes]
  split
  · rw [length_mapBytes length_pcNodeBytes]
  · rfl

theorem writes_pcMessageSerialize {m : PcMessage} (h : m.WireOk) : Writes (pcMessageSerialize m) (pcMessageBytes m) := by
  have hmap : Writes (if m.type.hasNodeMap then mapSerialize pcNodeSerialize m.nodeMap else Put.skip)
      (if m.type.hasNodeMap then mapBytes pcNodeBytes m.nodeMap else []) := by
    split
    · rename_i hnm
      exact writes_mapSerialize (fun _ hn => writes_pcNodeSerialize hn) (h.nodes hnm)
    · exact writes_skip
  have hw := writes_seq (.cons (writes_serializeN 4 m.headerWord) (.cons (writes_serializeN 4 m.seq.toNat)
    (.cons hmap .nil)))
  simp only [List.flatten_cons, List.flatten_nil, List.append_nil] at hw
  simp only [pcMessageBytes, List.append_assoc]
  exact hw

theorem reads_pcMessageUnserialize {m : PcMessage} (h : m.WireOk) :
    Reads pcMessageUnserialize m.onWire (pcMessageBytes m) := by
  have heq := m.headerWord_eq
  have hc := m.crc16.toNat_lt
  have ht := m.type.toNat_lt
  have hvle := h.version_le
  have hlt : m.headerWord < 256 ^ 4 := by
    rw [heq]
    simp only [gcommProtocolMaxVersion] at hvle
    omega
  -- each field of the header word, where the reader looks for it
  have hv : m.headerWord &&& 0x0f = m.version := by
    rw [show (0x0f : Nat) = 2 ^ 4 - 1 from rfl, Nat.and_two_pow_sub_one_eq_mod]
    simp only [gcommProtocolMaxVersion] at hvle
    omega
  have hf : (m.headerWord &&& 0xf0) >>> 4 = m.flags % 16 := by
    rw [show (0xf0 : Nat) = (2 ^ 4 - 1) <<< 4 from rfl, Galera.Bytes.and_mask_shiftRight]
    omega
  have htype : (m.headerWord >>> 8) &&& 0xff = m.type.toNat := by
    rw [Nat.shiftRight_eq_div_pow, show (0xff : Nat) = 2 ^ 8 - 1 from rfl, Nat.and_two_pow_sub_one_eq_mod]
    omega
  have hcrc : (m.headerWord >>> 16) &&& 0xffff = m.crc16.toNat := by
    rw [Nat.shiftRight_eq_div_pow, show (0xffff : Nat) = 2 ^ 16 - 1 from rfl, Nat.and_two_pow_sub_one_eq_mod]
    omega
  have hver : ¬m.version > gcommProtocolMaxVersion := Nat.not_lt.mpr hvle
  unfold pcMessageUnserialize pcMessageBytes
  simp only [List.append_assoc]
  refine (reads_unserializeN hlt).bind ?_
  simp only [hv, hver, if_false, Get.pure_bind, hf, htype, PcMessageType.ofBits?_toNat h.type_ne, hcrc,
    UInt16.ofNat_toNat]
  by_cases hnm : m.type.hasNodeMap = true
  · -- a state or install message: its node map follows the seqno
    have hon : m.onWire = { m with flags := m.flags % 16, nodeMap := m.nodeMap.map fun _ n => n.onWire } := by
      simp only [PcMessage.onWire, hnm, if_true]
    simp only [hnm, if_true]
    rw [hon, ← List.append_nil (mapBytes pcNodeBytes m.nodeMap)]
    refine (reads_unserializeN m.seq.toNat_lt).bind ((reads_mapUnserialize (fun _ hn => reads_pcNodeUnserialize hn)
      (h.count_lt hnm) (h.nodes hnm)).bind ?_)
    rw [UInt32.ofNat_toNat]
    exact reads_pure _
  · -- a user message: nothing follows, and the node map is the empty one
    have hon : m.onWire = { m with flags := m.flags % 16, nodeMap := SortedMap.empty } := by
      rw [PcMessage.onWire, if_neg hnm]
    simp only [hnm]
    rw [hon, ← List.append_nil (leBytes 4 m.seq.toNat)]
    refine (reads_unserializeN m.seq.toNat_lt).bind ?_
    rw [UInt32.ofNat_toNat]
    exact reads_pure _

/-- What `Message::serialize` writes, `Message::unserialize` reads back from
    the same offset, and both return the offset `serial_size` bytes on: a
    message of a supported version and a valid type comes back whole, but
    for its flags cut to 4 bits, each node's weight to a byte, and the node
    map of a user message, which does not travel. -/
theorem pcMessage_roundTrip {m : PcMessage} (h : m.WireOk) {buf : List UInt8} {off : Nat}
    (hfit : off + pcMessageSerialSize m ≤ buf.length) :
    ∃ buf', pcMessageSerialize m buf off = .ok (buf', off + pcMessageSerialSize m) ∧
      pcMessageUnserialize buf' off = .ok (m.onWire, off + pcMessageSerialSize m) := by
  rw [← length_pcMessageBytes] at hfit ⊢
  exact (writes_pcMessageSerialize h).reads (reads_pcMessageUnserialize h) hfit

theorem pcMessage_roundTrip_install :
    ∃ buf', pcMessageSerialize fixtureInstall (List.replicate 116 0) 0 =
        .ok (buf', 0 + pcMessageSerialSize fixtureInstall) ∧
      pcMessageUnserialize buf' 0 = .ok (fixtureInstall.onWire, 0 + pcMessageSerialSize fixtureInstall) := by
  have hnodes : ∀ e ∈ fixtureInstances.entries, e.2 = fixtureNode := by decide
  have hok : fixtureInstall.WireOk :=
    ⟨by decide, by decide, fun _ => by decide, fun _ e he => hnodes e he ▸ ⟨⟨by decide, by decide⟩, by decide⟩⟩
  exact pcMessage_roundTrip hok (by decide)

/-! ## §7. What is read can be written back -/

theorem unserializeN_eq_ok {n : Nat} {buf : List UInt8} {off off' x : Nat}
    (h : Evs.unserializeN n buf off = .ok (x, off')) : x < 256 ^ n ∧ off' = off + n := by
  obtain ⟨bs, hb, rfl⟩ := Get.map_eq_ok h
  obtain ⟨hlen, hoff⟩ := Get.bytes_eq_ok hb
  rw [← hlen]
  exact ⟨ofLeBytes_lt bs, hlen ▸ hoff⟩

theorem uuidUnserialize_eq_ok {buf : List UInt8} {off off' : Nat} {u : Uuid}
    (h : uuidUnserialize buf off = .ok (u, off')) : off' = off + uuidSerialSize := by
  obtain ⟨bs, hb, -⟩ := Get.map_eq_ok h
  exact (Get.bytes_eq_ok hb).2

theorem ViewType.ofBits_ne_none (x : Nat) : Evs.ViewType.ofBits x ≠ .none := by
  unfold Evs.ViewType.ofBits
  split <;> decide

/-- A view id read is one that travels: the type from two bits is never
    `V_NONE`, the seqno from thirty. -/
theorem viewIdUnserialize_eq_ok {buf : List UInt8} {off off' : Nat} {v : ViewId}
    (h : viewIdUnserialize buf off = .ok (v, off')) : v.Ok ∧ off' = off + viewIdSerialSize := by
  unfold viewIdUnserialize at h
  obtain ⟨u, mid, hu, h⟩ := Get.bind_eq_ok h
  obtain ⟨w, mid', hw, h⟩ := Get.bind_eq_ok h
  cases h
  have hseq : (w &&& 0x3fffffff) % 2 ^ 32 < 2 ^ 30 := by
    rw [show (0x3fffffff : Nat) = 2 ^ 30 - 1 from rfl, Nat.and_two_pow_sub_one_eq_mod]
    omega
  refine ⟨⟨ViewType.ofBits_ne_none _, by rw [UInt32.toNat_ofNat']; exact hseq⟩, ?_⟩
  rw [(unserializeN_eq_ok hw).2, uuidUnserialize_eq_ok hu]
  rfl

/-- A node read is one that travels, and reads back as itself: its weight
    is a byte or -1. -/
theorem pcNodeUnserialize_eq_ok {buf : List UInt8} {off off' : Nat} {n : PcNode}
    (h : pcNodeUnserialize buf off = .ok (n, off')) : (n.WireOk ∧ n.onWire = n) ∧ off' = off + pcNodeSerialSize := by
  unfold pcNodeUnserialize at h
  obtain ⟨header, m1, hh, h⟩ := Get.bind_eq_ok h
  obtain ⟨lastSeq, m2, hs, h⟩ := Get.bind_eq_ok h
  obtain ⟨lastPrim, m3, hv, h⟩ := Get.bind_eq_ok h
  obtain ⟨toSeq, m4, ht, h⟩ := Get.bind_eq_ok h
  cases h
  obtain ⟨x, hx, rfl⟩ := Get.map_eq_ok ht
  obtain ⟨hhl, rfl⟩ := unserializeN_eq_ok hh
  obtain ⟨-, rfl⟩ := unserializeN_eq_ok hs
  obtain ⟨hvok, rfl⟩ := viewIdUnserialize_eq_ok hv
  obtain ⟨hxl, rfl⟩ := unserializeN_eq_ok hx
  have hb : header >>> 24 < 256 := by
    rw [Nat.shiftRight_eq_div_pow]
    omega
  refine ⟨⟨⟨hvok, signedFits_toSigned (by decide) hxl⟩, ?_⟩, ?_⟩
  · -- the weight is the top byte of the header word, or -1
    unfold PcNode.onWire
    generalize (header &&& PcNode.fWeight != 0) = c
    cases c
    · rfl
    · simp only [if_true]
      rw [if_pos (by omega), Int.emod_eq_of_lt (by omega) (by omega)]
  · unfold pcNodeSerialSize
    omega

section MapRead

variable {ν : Type} {valueUnserialize : Get EvsCodecError ν} {good : ν → Prop} {k : Nat}

/-- A map read holds as many entries as its count said, each a value the
    value reader accepts, in as many bytes as `serial_size` counts. -/
theorem mapUnserialize_eq_ok
    (hval : ∀ buf off v off', valueUnserialize buf off = .ok (v, off') → good v ∧ off' = off + k)
    {buf : List UInt8} {off off' : Nat} {m : SortedMap Uuid ν}
    (h : mapUnserialize valueUnserialize buf off = .ok (m, off')) :
    (m.entries.length < 2 ^ 32 ∧ ∀ e ∈ m.entries, good e.2) ∧ off' = off + mapSerialSize k m := by
  unfold mapUnserialize at h
  obtain ⟨len, mid, hlen, h⟩ := Get.bind_eq_ok h
  obtain ⟨hlt, rfl⟩ := unserializeN_eq_ok hlen
  -- each round inserts one new entry and reads `uuidSerialSize + k` bytes
  have hstep : ∀ i (acc : SortedMap Uuid ν) o r o',
      (acc.entries.length = i ∧ o = off + 4 + i * (uuidSerialSize + k) ∧ ∀ e ∈ acc.entries, good e.2) →
      mapEntryUnserialize valueUnserialize acc buf o = .ok (r, o') →
      r.entries.length = i + 1 ∧ o' = off + 4 + (i + 1) * (uuidSerialSize + k) ∧ ∀ e ∈ r.entries, good e.2 := by
    intro i acc o r o' ⟨hi, ho, hgood⟩ he
    unfold mapEntryUnserialize at he
    obtain ⟨u, o1, hu, he⟩ := Get.bind_eq_ok he
    obtain ⟨v, o2, hv, he⟩ := Get.bind_eq_ok he
    obtain ⟨hgv, rfl⟩ := hval _ _ _ _ hv
    rw [uuidUnserialize_eq_ok hu] at he
    split at he
    · rename_i hins
      cases he
      refine ⟨by rw [SortedMap.length_insert v (SortedMap.insert_snd.mp hins), hi], by rw [ho, Nat.succ_mul]; omega, ?_⟩
      intro e hmem
      rcases SortedMap.mem_insert.mp hmem with hold | ⟨rfl, -⟩
      · exact hgood e hold
      · exact hgv
    · cases he
  have hrun := Get.loop_induct (mapEntryUnserialize valueUnserialize) buf
    (fun i acc o => acc.entries.length = i ∧ o = off + 4 + i * (uuidSerialSize + k) ∧ ∀ e ∈ acc.entries, good e.2)
    hstep len 0 SortedMap.empty (off + 4) m off' ⟨rfl, by omega, fun e he => absurd he List.not_mem_nil⟩ h
  obtain ⟨hcount, hoff, hgood⟩ := hrun
  rw [Nat.zero_add] at hcount
  refine ⟨⟨hcount ▸ hlt, hgood⟩, ?_⟩
  rw [hoff, mapSerialSize, Nat.zero_add, hcount]
  omega

end MapRead

theorem PcMessageType.ofBits?_ne_none {x : Nat} {t : PcMessageType} (h : PcMessageType.ofBits? x = some t) :
    t ≠ .none := by
  intro ht
  subst ht
  unfold PcMessageType.ofBits? at h
  split at h <;> cases h

/-- Whatever `Message::unserialize` accepts is a message of a supported
    version and a valid type, with its flags in four bits and its weights
    in a byte, that took `serial_size` bytes: a message the writer writes
    and the reader reads back as itself. -/
theorem pcMessageUnserialize_eq_ok {buf : List UInt8} {off off' : Nat} {m : PcMessage}
    (h : pcMessageUnserialize buf off = .ok (m, off')) :
    (m.WireOk ∧ m.onWire = m) ∧ off' = off + pcMessageSerialSize m := by
  unfold pcMessageUnserialize at h
  obtain ⟨b, mid, hb, h⟩ := Get.bind_eq_ok h
  obtain ⟨hbl, rfl⟩ := unserializeN_eq_ok hb
  dsimp only at h
  by_cases hv : (b &&& 0x0f) > gcommProtocolMaxVersion
  · -- `EPROTONOSUPPORT`
    rw [if_pos hv] at h
    obtain ⟨_, _, hf, -⟩ := Get.bind_eq_ok h
    cases hf
  · rw [if_neg hv] at h
    cases htype : PcMessageType.ofBits? ((b >>> 8) &&& 0xff) with
    | none =>
      -- `EINVAL`
      rw [htype] at h
      cases h
    | some type =>
      rw [htype] at h
      dsimp only at h
      obtain ⟨seq, mid, hseq, h⟩ := Get.bind_eq_ok h
      obtain ⟨-, rfl⟩ := unserializeN_eq_ok hseq
      have hflags : (b &&& 0xf0) >>> 4 < 16 := by
        rw [show (0xf0 : Nat) = (2 ^ 4 - 1) <<< 4 from rfl, Galera.Bytes.and_mask_shiftRight]
        exact Nat.mod_lt _ (by decide)
      by_cases hnm : type.hasNodeMap = true
      · rw [if_pos hnm] at h
        obtain ⟨nm, mid2, hnmap, h⟩ := Get.bind_eq_ok h
        cases h
        obtain ⟨⟨hcount, hgood⟩, rfl⟩ := mapUnserialize_eq_ok (fun _ _ _ _ hn => pcNodeUnserialize_eq_ok hn) hnmap
        refine ⟨⟨⟨Nat.not_lt.mp hv, PcMessageType.ofBits?_ne_none htype, fun _ => hcount,
          fun _ e he => (hgood e he).1⟩, ?_⟩, ?_⟩
        · simp only [PcMessage.onWire, hnm, if_true, Nat.mod_eq_of_lt hflags,
            SortedMap.map_eq_self (f := fun _ n => n.onWire) fun e he => (hgood e he).2]
        · simp only [pcMessageSerialSize, hnm, if_true]
          omega
      · -- a user message: the node map is the empty one
        rw [if_neg hnm] at h
        simp only [Get.pure_bind] at h
        cases h
        refine ⟨⟨⟨Nat.not_lt.mp hv, PcMessageType.ofBits?_ne_none htype, fun h' => absurd h' hnm,
          fun h' => absurd h' hnm⟩, ?_⟩, ?_⟩
        · rw [PcMessage.onWire, if_neg hnm, Nat.mod_eq_of_lt hflags]
        · rw [pcMessageSerialSize, if_neg hnm]

/-- Every message `Message::unserialize` accepts is well formed on the
    wire (a supported version, a valid type, flags in four bits, weights in
    a byte, a node map only on a message that carries one) and took
    `serial_size` bytes, and `serialize` writes it, wherever it fits, to
    bytes from which `unserialize` reads the same message back. -/
theorem pcMessage_reencode {buf buf' : List UInt8} {off off' off₂ : Nat} {m : PcMessage}
    (h : pcMessageUnserialize buf off = .ok (m, off')) (hfit : off₂ + pcMessageSerialSize m ≤ buf'.length) :
    (m.WireOk ∧ m.onWire = m) ∧ off' = off + pcMessageSerialSize m ∧
      ∃ buf'', pcMessageSerialize m buf' off₂ = .ok (buf'', off₂ + pcMessageSerialSize m) ∧
        pcMessageUnserialize buf'' off₂ = .ok (m, off₂ + pcMessageSerialSize m) := by
  obtain ⟨⟨hok, hfix⟩, hoff⟩ := pcMessageUnserialize_eq_ok h
  rw [← length_pcMessageBytes] at hfit ⊢
  obtain ⟨buf'', hw, hr⟩ := (writes_pcMessageSerialize hok).reads (reads_pcMessageUnserialize hok) hfit
  rw [hfix] at hr
  exact ⟨⟨hok, hfix⟩, length_pcMessageBytes m ▸ hoff, buf'', hw, hr⟩

/-- The bytes of the install message of the example. -/
def fixtureInstallBytes : List UInt8 :=
  match pcMessageSerialize fixtureInstall (List.replicate 116 0) 0 with
  | .ok (buf, _) => buf
  | .error _ => []

theorem pcMessage_reencode_install :
    (fixtureInstall.WireOk ∧ fixtureInstall.onWire = fixtureInstall) ∧
      116 = 0 + pcMessageSerialSize fixtureInstall ∧
      ∃ buf'', pcMessageSerialize fixtureInstall (List.replicate 116 0) 0 =
          .ok (buf'', 0 + pcMessageSerialSize fixtureInstall) ∧
        pcMessageUnserialize buf'' 0 = .ok (fixtureInstall, 0 + pcMessageSerialSize fixtureInstall) := by
  have h : pcMessageUnserialize fixtureInstallBytes 0 = .ok (fixtureInstall, 116) := by decide +kernel
  exact pcMessage_reencode h (by decide)

end Galera.Pc
