/-
  Galera.Evs.Message
  ──────────────────
  **EVS MESSAGES ON THE WIRE (`evs_message2.cpp`, `evs_message2.hpp`).**

  Every EVS message starts with the header of `Message::serialize`: one
  byte packing the zero-version bit, the type and the order, the flags,
  the version, a reserved byte, the fifo seqno, the source when `F_SOURCE`
  is set, and the source view id.  Each class appends its own tail: the
  user message its user type, seqno range, seqno and aru seqno; the gap
  message a seqno, an aru seqno and a range; join and install messages a
  node list, a `gcomm::Map` written as a 32-bit count and its entries in
  key order; the delayed list message an 8-bit count and its entries.

  Every field goes through `gu::serialize1/2/4/8`, `UUID::serialize` or
  `ViewId::serialize` at the running offset (`Galera.Wire`), little-endian,
  with the buffer check each of them makes.  `unserialize` reads the
  fields back into the object it is called on, so a field the class does
  not carry keeps the value the object had.

  `tstamp_` never travels and is left out; so are the aggregate message,
  the header of the user payloads that `send_user` packs into one user
  message, and the `log_warn` of unknown flags and of a non-zero pad,
  which change nothing.
-/
import Mathlib
import Galera.Evs.Deliver
import Galera.Lib.SortedMap
import Galera.Lib.Wire

namespace Galera.Evs

open Galera.Bytes (leBytes ofLeBytes beBytes ofBeBytes ofSigned toSigned)
open Galera.Wire

/-! ## §1. Fields -/

/-- What the codec throws: `gu::SerializationException` (a field past
    `buflen`), `gu::UUIDSerializeException`, `gu_throw_fatal` (from
    `gcomm_assert` too), and the `EINVAL` and `EPROTONOSUPPORT` errors of
    the header. -/
inductive EvsCodecError
  | serialization
  | uuidSerialize
  | fatal
  | invalidType
  | invalidOrder
  | protoNotSupported
  deriving DecidableEq, Repr

/-- `gu::serialize1/2/4/8`: the low `n` bytes of `x`, least significant
    first. -/
def serializeN (n x : Nat) : Put EvsCodecError := Put.bytes .serialization (leBytes n x)

def serialize1 (x : Nat) : Put EvsCodecError := serializeN 1 x

def serialize2 (x : Nat) : Put EvsCodecError := serializeN 2 x

def serialize4 (x : Nat) : Put EvsCodecError := serializeN 4 x

def serialize8 (x : Nat) : Put EvsCodecError := serializeN 8 x

/-- `gu::unserialize1/2/4/8`: the number the next `n` bytes store. -/
def unserializeN (n : Nat) : Get EvsCodecError Nat := ofLeBytes <$> Get.bytes .serialization n

def unserialize1 : Get EvsCodecError Nat := unserializeN 1

def unserialize2 : Get EvsCodecError Nat := unserializeN 2

def unserialize4 : Get EvsCodecError Nat := unserializeN 4

def unserialize8 : Get EvsCodecError Nat := unserializeN 8

/-- A `seqno_t` (`int64_t`) written by `gu::serialize8`: its two's
    complement pattern. -/
def serializeSeqno (x : Int) : Put EvsCodecError := serialize8 (ofSigned 64 x)

/-- A `seqno_t` read by `gu::unserialize8`. -/
def unserializeSeqno : Get EvsCodecError Int := toSigned 64 <$> unserialize8

/-- `gcomm::UUID`: the sixteen bytes of a `gu_uuid_t`, which `operator<`
    compares with `memcmp`, so the number they spell most significant byte
    first. -/
abbrev Uuid : Type := Fin (2 ^ 128)

/-- `UUID::serialize`: `memcpy` of the sixteen bytes. -/
def uuidSerialize (u : Uuid) : Put EvsCodecError := Put.bytes .uuidSerialize (beBytes 16 u.val)

def uuidUnserialize : Get EvsCodecError Uuid :=
  (fun bs => Fin.ofNat (2 ^ 128) (ofBeBytes bs)) <$> Get.bytes .uuidSerialize 16

def uuidSerialSize : Nat := 16

/-- `gcomm::ViewType`. -/
inductive ViewType
  | none
  | reg
  | trans
  | nonPrim
  | prim
  deriving DecidableEq, Repr

/-- The value of a view type other than `V_NONE` (which is -1). -/
def ViewType.toNat : ViewType → Nat
  | .none => 0
  | .reg => 0
  | .trans => 1
  | .nonPrim => 2
  | .prim => 3

/-- `static_cast<ViewType>(w >> 30)`: two bits, so never `V_NONE`. -/
def ViewType.ofBits : Nat → ViewType
  | 0 => .reg
  | 1 => .trans
  | 2 => .nonPrim
  | _ => .prim

/-- `gcomm::ViewId`. -/
structure ViewId where
  type : ViewType
  uuid : Uuid
  seq : UInt32
  deriving DecidableEq, Repr

/-- `ViewId()`. -/
def ViewId.default : ViewId := ⟨.none, 0, 0⟩

/-- The word `ViewId::serialize` writes: the seqno in the low 30 bits, the
    type above them. -/
def viewIdWord (v : ViewId) : Nat := (v.seq.toNat &&& 0x3fffffff) ||| (v.type.toNat <<< 30)

def viewIdSerialize (v : ViewId) : Put EvsCodecError :=
  Put.seq [Put.check (v.type != .none) .fatal, uuidSerialize v.uuid, serialize4 (viewIdWord v)]

def viewIdUnserialize : Get EvsCodecError ViewId := do
  let uuid ← uuidUnserialize
  let w ← unserialize4
  pure ⟨ViewType.ofBits (w >>> 30), uuid, UInt32.ofNat (w &&& 0x3fffffff)⟩

def viewIdSerialSize : Nat := uuidSerialSize + 4

/-- `Range::serialize`. -/
def rangeSerialize (r : Range) : Put EvsCodecError := Put.seq [serializeSeqno r.lu, serializeSeqno r.hs]

def rangeUnserialize : Get EvsCodecError Range := do
  let lu ← unserializeSeqno
  let hs ← unserializeSeqno
  pure ⟨lu, hs⟩

def rangeSerialSize : Nat := 2 * 8

/-! ## §2. Node lists and delayed lists -/

/-- `evs::MessageNode`. -/
structure MessageNode where
  operational : Bool
  suspected : Bool
  segment : UInt8
  evicted : Bool
  leaveSeq : Int
  viewId : ViewId
  safeSeq : Int
  imRange : Range
  deriving DecidableEq, Repr

/-- `F_OPERATIONAL`, `F_SUSPECTED`, `F_EVICTED`. -/
def fOperational : Nat := 1

def fSuspected : Nat := 2

def fEvicted : Nat := 4

def messageNodeSerialize (n : MessageNode) : Put EvsCodecError :=
  Put.seq [serialize1 ((if n.operational then fOperational else 0) ||| (if n.suspected then fSuspected else 0) |||
      (if n.evicted then fEvicted else 0)),
    serialize1 n.segment.toNat, serializeSeqno n.leaveSeq, viewIdSerialize n.viewId, serializeSeqno n.safeSeq,
    rangeSerialize n.imRange]

def messageNodeUnserialize : Get EvsCodecError MessageNode := do
  let b ← unserialize1
  let segment ← unserialize1
  let leaveSeq ← unserializeSeqno
  let viewId ← viewIdUnserialize
  let safeSeq ← unserializeSeqno
  let imRange ← rangeUnserialize
  pure
    { operational := b &&& fOperational != 0, suspected := b &&& fSuspected != 0, segment := UInt8.ofNat segment,
      evicted := b &&& fEvicted != 0, leaveSeq, viewId, safeSeq, imRange }

/-- `MessageNode::serial_size`: two bytes for the flags and the segment. -/
def messageNodeSerialSize : Nat := 2 + 8 + viewIdSerialSize + 8 + rangeSerialSize

/-- `MessageNodeList`, a `gcomm::Map<UUID, MessageNode>`. -/
abbrev MessageNodeList : Type := SortedMap Uuid MessageNode

/-- `Map::serialize`: the count as a `uint32_t`, then each entry. -/
def nodeListSerialize (l : MessageNodeList) : Put EvsCodecError :=
  Put.seq (serialize4 l.entries.length ::
    l.entries.map fun e => Put.andThen (uuidSerialize e.1) (messageNodeSerialize e.2))

/-- One round of `Map::unserialize`: an entry read and inserted; a key read
    twice is fatal. -/
def nodeListEntryUnserialize (m : MessageNodeList) : Get EvsCodecError MessageNodeList := do
  let k ← uuidUnserialize
  let v ← messageNodeUnserialize
  if (m.insert k v).2 then pure (m.insert k v).1 else Get.fail .fatal

/-- `Map::unserialize`, after `map_.clear()`. -/
def nodeListUnserialize : Get EvsCodecError MessageNodeList := do
  let len ← unserialize4
  Get.loop nodeListEntryUnserialize len SortedMap.empty

def nodeListSerialSize (l : MessageNodeList) : Nat := 4 + l.entries.length * (uuidSerialSize + messageNodeSerialSize)

/-- `Message::DelayedList`, a `std::map<UUID, uint8_t>`. -/
abbrev DelayedList : Type := SortedMap Uuid UInt8

/-- The loop of `DelayedListMessage::serialize`: each entry's UUID and
    count. -/
def delayedListSerialize (l : DelayedList) : Put EvsCodecError :=
  Put.seq (l.entries.map fun e => Put.andThen (uuidSerialize e.1) (serialize1 e.2.toNat))

/-- One round of the loop of `DelayedListMessage::unserialize`; `insert`
    of a UUID already there changes nothing. -/
def delayedListEntryUnserialize (m : DelayedList) : Get EvsCodecError DelayedList := do
  let uuid ← uuidUnserialize
  let cnt ← unserialize1
  pure (m.insert uuid (UInt8.ofNat cnt)).1

/-! ## §3. The message -/

/-- `Message::Type`. -/
inductive MessageType
  | none
  | user
  | delegate
  | gap
  | join
  | install
  | leave
  | delayedList
  deriving DecidableEq, Repr

def MessageType.toNat : MessageType → Nat
  | .none => 0
  | .user => 1
  | .delegate => 2
  | .gap => 3
  | .join => 4
  | .install => 5
  | .leave => 6
  | .delayedList => 7

/-- The three bits of the type in the header byte. -/
def MessageType.ofBits : Nat → MessageType
  | 1 => .user
  | 2 => .delegate
  | 3 => .gap
  | 4 => .join
  | 5 => .install
  | 6 => .leave
  | 7 => .delayedList
  | _ => .none

/-- The orders the header check admits, `O_DROP` to `O_SAFE`, from the
    three bits of the order in the header byte. -/
def Order.ofBits? : Nat → Option Order
  | 0 => some .drop
  | 1 => some .unreliable
  | 2 => some .fifo
  | 3 => some .agreed
  | 4 => some .safe
  | _ => none

/-- `evs::Message`: every field but `tstamp_`. -/
structure Message where
  version : UInt8
  type : MessageType
  userType : UInt8
  order : Order
  seq : Int
  seqRange : Int
  aruSeq : Int
  fifoSeq : Int
  flags : UInt8
  source : Uuid
  sourceViewId : ViewId
  installViewId : ViewId
  rangeUuid : Uuid
  range : Range
  nodeList : MessageNodeList
  delayedList : DelayedList
  deriving DecidableEq

/-- `F_SOURCE`. -/
def fSource : Nat := 0x4

/-- `GCOMM_PROTOCOL_MAX_VERSION`. -/
def gcommProtocolMaxVersion : Nat := 1

/-- Whether `F_SOURCE` is set. -/
def Message.hasSource (m : Message) : Bool := m.flags.toNat &&& fSource != 0

/-- The first header byte: the zero-version bit (always 0 for join and
    install messages), the type and the order. -/
def Message.headerByte (m : Message) : Nat :=
  let zeroversion : Nat :=
    match m.type with
    | .join | .install => 0
    | _ => if m.version ≠ 0 then 1 else 0
  zeroversion ||| (m.type.toNat <<< 2) ||| (m.order.toNat <<< 5)

/-- `Message::serialize`, the header. -/
def messageSerialize (m : Message) : Put EvsCodecError :=
  Put.seq [serialize1 m.headerByte, serialize1 m.flags.toNat, serialize1 m.version.toNat, serialize1 0,
    serializeSeqno m.fifoSeq, if m.hasSource then uuidSerialize m.source else Put.skip,
    viewIdSerialize m.sourceViewId]

/-- `Message::unserialize`, into the message `m`. -/
def messageUnserialize (m : Message) : Get EvsCodecError Message := do
  let b ← unserialize1
  let type := MessageType.ofBits ((b >>> 2) &&& 0x7)
  if type = .none then Get.fail .invalidType
  match Order.ofBits? ((b >>> 5) &&& 0x7) with
  | none => Get.fail .invalidOrder
  | some order =>
    let flags ← unserialize1
    let version ← unserialize1
    -- join and install messages stay at protocol zero: no version check
    if type ≠ .join ∧ type ≠ .install ∧ version > gcommProtocolMaxVersion then Get.fail .protoNotSupported
    let _reserved ← unserialize1
    let fifoSeq ← unserializeSeqno
    let m := { m with type, order, flags := UInt8.ofNat flags, version := UInt8.ofNat version, fifoSeq }
    let source ← if m.hasSource then uuidUnserialize else pure m.source
    let sourceViewId ← viewIdUnserialize
    pure { m with source, sourceViewId }

/-- `Message::serial_size`. -/
def messageSerialSize (m : Message) : Nat :=
  1 + 1 + 2 + 8 + (if m.hasSource then uuidSerialSize else 0) + viewIdSerialSize

/-! ## §4. The classes -/

/-- `UserMessage::serialize`; `gcomm_assert (seq_range_ <= 0xff)` comes
    after the user type, and the range is cast to `uint8_t`. -/
def userMessageSerialize (m : Message) : Put EvsCodecError :=
  Put.seq [messageSerialize m, serialize1 m.userType.toNat, Put.check (decide (m.seqRange ≤ 0xff)) .fatal,
    serialize1 (ofSigned 8 m.seqRange), serialize2 0, serializeSeqno m.seq, serializeSeqno m.aruSeq]

def userMessageUnserialize (m : Message) (skipHeader : Bool) : Get EvsCodecError Message := do
  let m ← if skipHeader then pure m else messageUnserialize m
  let userType ← unserialize1
  let b ← unserialize1
  let _pad ← unserialize2
  let seq ← unserializeSeqno
  let aruSeq ← unserializeSeqno
  pure { m with userType := UInt8.ofNat userType, seqRange := b, seq, aruSeq }

def userMessageSerialSize (m : Message) : Nat := messageSerialSize m + 1 + 1 + 2 + 8 + 8

def delegateMessageSerialize (m : Message) : Put EvsCodecError := messageSerialize m

def delegateMessageUnserialize (m : Message) (skipHeader : Bool) : Get EvsCodecError Message :=
  if skipHeader then pure m else messageUnserialize m

def delegateMessageSerialSize (m : Message) : Nat := messageSerialSize m

def gapMessageSerialize (m : Message) : Put EvsCodecError :=
  Put.seq [messageSerialize m, serializeSeqno m.seq, serializeSeqno m.aruSeq, uuidSerialize m.rangeUuid,
    rangeSerialize m.range]

def gapMessageUnserialize (m : Message) (skipHeader : Bool) : Get EvsCodecError Message := do
  let m ← if skipHeader then pure m else messageUnserialize m
  let seq ← unserializeSeqno
  let aruSeq ← unserializeSeqno
  let rangeUuid ← uuidUnserialize
  let range ← rangeUnserialize
  pure { m with seq, aruSeq, rangeUuid, range }

def gapMessageSerialSize (m : Message) : Nat := messageSerialSize m + 2 * 8 + uuidSerialSize + rangeSerialSize

def joinMessageSerialize (m : Message) : Put EvsCodecError :=
  Put.seq [messageSerialize m, serializeSeqno m.seq, serializeSeqno m.aruSeq, nodeListSerialize m.nodeList]

def joinMessageUnserialize (m : Message) (skipHeader : Bool) : Get EvsCodecError Message := do
  let m ← if skipHeader then pure m else messageUnserialize m
  let seq ← unserializeSeqno
  let aruSeq ← unserializeSeqno
  let nodeList ← nodeListUnserialize
  pure { m with seq, aruSeq, nodeList }

def joinMessageSerialSize (m : Message) : Nat := messageSerialSize m + 2 * 8 + nodeListSerialSize m.nodeList

def installMessageSerialize (m : Message) : Put EvsCodecError :=
  Put.seq [messageSerialize m, serializeSeqno m.seq, serializeSeqno m.aruSeq, viewIdSerialize m.installViewId,
    nodeListSerialize m.nodeList]

def installMessageUnserialize (m : Message) (skipHeader : Bool) : Get EvsCodecError Message := do
  let m ← if skipHeader then pure m else messageUnserialize m
  let seq ← unserializeSeqno
  let aruSeq ← unserializeSeqno
  let installViewId ← viewIdUnserialize
  let nodeList ← nodeListUnserialize
  pure { m with seq, aruSeq, installViewId, nodeList }

def installMessageSerialSize (m : Message) : Nat :=
  messageSerialSize m + 2 * 8 + viewIdSerialSize + nodeListSerialSize m.nodeList

def leaveMessageSerialize (m : Message) : Put EvsCodecError :=
  Put.seq [messageSerialize m, serializeSeqno m.seq, serializeSeqno m.aruSeq]

def leaveMessageUnserialize (m : Message) (skipHeader : Bool) : Get EvsCodecError Message := do
  let m ← if skipHeader then pure m else messageUnserialize m
  let seq ← unserializeSeqno
  let aruSeq ← unserializeSeqno
  pure { m with seq, aruSeq }

def leaveMessageSerialSize (m : Message) : Nat := messageSerialSize m + 2 * 8

/-- `DelayedListMessage::serialize`: the count cast to `uint8_t`, then
    every entry. -/
def delayedListMessageSerialize (m : Message) : Put EvsCodecError :=
  Put.seq [messageSerialize m, serialize1 m.delayedList.entries.length, delayedListSerialize m.delayedList]

/-- `DelayedListMessage::unserialize`: `list_sz` entries after
    `delayed_list_.clear()`. -/
def delayedListMessageUnserialize (m : Message) (skipHeader : Bool) : Get EvsCodecError Message := do
  let m ← if skipHeader then pure m else messageUnserialize m
  let listSz ← unserialize1
  let delayedList ← Get.loop delayedListEntryUnserialize listSz SortedMap.empty
  pure { m with delayedList }

/-- `DelayedListMessage::serial_size`: at most 255 entries counted. -/
def delayedListMessageSerialSize (m : Message) : Nat :=
  messageSerialSize m + 1 + min m.delayedList.entries.length 255 * (uuidSerialSize + 1)

/-- The seven classes of EVS messages. -/
inductive MessageClass
  | user
  | delegate
  | gap
  | join
  | install
  | leave
  | delayedList
  deriving DecidableEq, Repr

/-- The type each class's constructor sets. -/
def MessageClass.type : MessageClass → MessageType
  | .user => .user
  | .delegate => .delegate
  | .gap => .gap
  | .join => .join
  | .install => .install
  | .leave => .leave
  | .delayedList => .delayedList

/-- The class's `serialize`. -/
def MessageClass.serialize : MessageClass → Message → Put EvsCodecError
  | .user => userMessageSerialize
  | .delegate => delegateMessageSerialize
  | .gap => gapMessageSerialize
  | .join => joinMessageSerialize
  | .install => installMessageSerialize
  | .leave => leaveMessageSerialize
  | .delayedList => delayedListMessageSerialize

/-- The class's `unserialize`. -/
def MessageClass.unserialize : MessageClass → Message → Bool → Get EvsCodecError Message
  | .user => userMessageUnserialize
  | .delegate => delegateMessageUnserialize
  | .gap => gapMessageUnserialize
  | .join => joinMessageUnserialize
  | .install => installMessageUnserialize
  | .leave => leaveMessageUnserialize
  | .delayedList => delayedListMessageUnserialize

/-- The class's `serial_size`. -/
def MessageClass.serialSize : MessageClass → Message → Nat
  | .user => userMessageSerialSize
  | .delegate => delegateMessageSerialSize
  | .gap => gapMessageSerialSize
  | .join => joinMessageSerialSize
  | .install => installMessageSerialSize
  | .leave => leaveMessageSerialSize
  | .delayedList => delayedListMessageSerialSize

/-- The `Message` constructor with its defaults after the order. -/
def Message.base (version : UInt8) (type : MessageType) (order : Order) : Message :=
  { version, type, userType := 0xff, order, seq := -1, seqRange := -1, aruSeq := -1, fifoSeq := -1, flags := 0,
    source := 0, sourceViewId := .default, installViewId := .default, rangeUuid := 0, range := ⟨-1, -1⟩,
    nodeList := SortedMap.empty, delayedList := SortedMap.empty }

/-- The object each class's default constructor makes; a version of -1
    is 255 in `version_`. -/
def MessageClass.fresh : MessageClass → Message
  | .user => { Message.base 255 .user .safe with seqRange := 0 }
  | .delegate => Message.base 255 .delegate .unreliable
  | .gap => Message.base 255 .gap .unreliable
  | .join => Message.base 0 .join .unreliable
  | .install => { Message.base 0 .install .unreliable with flags := UInt8.ofNat fSource }
  | .leave => Message.base 255 .leave .unreliable
  | .delayedList => Message.base 255 .delayedList .drop

end Galera.Evs
