/-
  Galera.Gcs.StateMsgWire
  ───────────────────────
  **STATE MESSAGES ON THE WIRE (`gcs_state_msg_write`, `gcs_state_msg_read`).**

  A state message travels as the fields of version 0 at fixed offsets,
  the node name and incoming address as C strings, and the fields later
  versions added after them, each read back only when the message's
  version has it.  The reader rebuilds the message through
  `gcs_state_msg_create`, whose range check on the protocol versions is
  the only validation.

    * `gcsStateMsgWrite_len` — `gcs_state_msg_write` writes
      `gcs_state_msg_len` bytes;
    * `gcsStateMsgRead_write` — a message whose fields are within the C
      types the format stores them in reads back unchanged;
    * `state_msg_gcs_proto_ver_128_lost` — `gcs_state_msg_create` admits
      protocol versions up to 255, but `gcs_proto_ver` and
      `repl_proto_ver` travel in an `int8_t`: 128 reads back as -128, and
      the reader's own `gcs_state_msg_create` refuses it.

  The 25 bytes of version 5 are neither written nor read; they keep
  what the buffer held.
-/
import Mathlib
import Galera.Gcs.StateMsg
import Galera.Lib.Bytes

namespace Galera.Gcs

open Galera.Bytes (leBytes ofLeBytes ofSigned toSigned SignedFits cString strBytes)

/-! ## §1. The whole message and `gcs_state_msg_create` -/

/-- `gcs_state_msg_t` whole: the fields the quorum reads, and `cached`,
    `name` and `inc_addr`, which only travel and are printed. -/
structure FullStateMsg extends StateMsg where
  cached : Int
  name : List UInt8
  incAddr : List UInt8
  deriving DecidableEq, Repr

/-- `GCS_STATE_MSG_VER`. -/
def gcsStateMsgVer : Int := 6

/-- `CHECK_PROTO_RANGE(LEVEL)`: a protocol version is in `[0, UINT8_MAX]`. -/
def checkProtoRange (level : Int) : Bool := decide (0 ≤ level ∧ level ≤ 255)

/-- `gcs_state_msg_create`: `NULL` when a protocol version is out of
    range; `strcpy` keeps the strings up to their NUL. -/
def gcsStateMsgCreate (stateUuid groupUuid primUuid : GuUuid) (primSeqno received cached primJoined : Int)
    (primState currentState : NodeState) (name incAddr : List UInt8)
    (gcsProtoVer replProtoVer applProtoVer primGcsVer primReplVer primApplVer desyncCount : Int)
    (flags : UInt8) : Option FullStateMsg :=
  if checkProtoRange gcsProtoVer && checkProtoRange replProtoVer && checkProtoRange applProtoVer &&
      checkProtoRange primGcsVer && checkProtoRange primReplVer && checkProtoRange primApplVer then
    some
      { stateUuid, groupUuid, primUuid, primJoined, primSeqno, received, cached, primState, currentState
        version := gcsStateMsgVer
        gcsProtoVer, replProtoVer, applProtoVer, primGcsVer, primReplVer, primApplVer, desyncCount
        name := strBytes name
        incAddr := strBytes incAddr
        flags }
  else none

/-! ## §2. The layout -/

/-- `sizeof_v5_stuff`: `last_applied`, `vote_seqno`, `vote_res` and
    `vote_policy`. -/
def sizeofV5Stuff : Nat := 8 + 8 + 8 + 1

/-- `gcs_state_msg_len`. -/
def gcsStateMsgLen (state : FullStateMsg) : Nat :=
  1 + 1 + 1 + 1 + 1 + 1 + 2 + 16 + 16 + 16 + 8 + 8 + ((strBytes state.name).length + 1) +
    ((strBytes state.incAddr).length + 1) + 1 + 8 + 4 + sizeofV5Stuff + 1 + 1 + 1

/-- An `int` stored in an `int8_t` or `uint8_t`: its low byte. -/
def int8Byte (x : Int) : UInt8 := UInt8.ofNat (ofSigned 8 x)

/-- A `gu_uuid_t`'s sixteen bytes. -/
def uuidBytes (u : GuUuid) : List UInt8 := leBytes 16 u.val

/-- The fields of version 0 before the name, at fixed offsets:
    `STATE_MSG_FIELDS_V0`, 72 bytes. -/
def fixedFieldsV0 (state : FullStateMsg) : List UInt8 :=
  [int8Byte gcsStateMsgVer, state.flags, int8Byte state.gcsProtoVer, int8Byte state.replProtoVer,
      int8Byte state.primState.toNat, int8Byte state.currentState.toNat] ++
    leBytes 2 (ofSigned 16 state.primJoined) ++ uuidBytes state.stateUuid ++ uuidBytes state.groupUuid ++
    uuidBytes state.primUuid ++ leBytes 8 (ofSigned 64 state.received) ++ leBytes 8 (ofSigned 64 state.primSeqno)

/-- `gcs_state_msg_write(buf, state)`: the buffer written, and the bytes
    written.  The fields of version 5 are skipped: those bytes keep what
    the buffer held. -/
def gcsStateMsgWrite (buf : List UInt8) (state : FullStateMsg) : List UInt8 × Nat :=
  let front := fixedFieldsV0 state ++ cString (strBytes state.name) ++ cString (strBytes state.incAddr) ++
    [int8Byte state.applProtoVer] ++ leBytes 8 (ofSigned 64 state.cached) ++
    leBytes 4 (ofSigned 32 state.desyncCount)
  let v5 := (buf.drop front.length).take sizeofV5Stuff
  let written := front ++ v5 ++ [int8Byte state.primGcsVer, int8Byte state.primReplVer, int8Byte state.primApplVer]
  (written ++ buf.drop written.length, written.length)

/-! ## §3. `gcs_state_msg_read` -/

/-- The node state an `int8_t` holds.  A value outside `gcs_node_state_t`,
    which the code would carry on as an out-of-range enum, has no node
    state in the model. -/
def NodeState.ofInt? (i : Int) : Option NodeState :=
  if i = 0 then some .nonPrim
  else if i = 1 then some .prim
  else if i = 2 then some .joiner
  else if i = 3 then some .donor
  else if i = 4 then some .joined
  else if i = 5 then some .synced
  else if i = 6 then some .max
  else none

/-- A `gu_uuid_t` from its sixteen bytes. -/
def readUuid (bs : List UInt8) : GuUuid := ⟨ofLeBytes bs⟩

/-- `gcs_state_msg_read(buf, buf_len)`: the fields of version 0 at their
    offsets, each later field right after the one before, read only when
    the message's version has it; the message is rebuilt by
    `gcs_state_msg_create` and given the version read. -/
def gcsStateMsgRead (buf : List UInt8) : Option FullStateMsg :=
  let version := toSigned 8 (buf.getD 0 0).toNat
  -- the name follows `prim_seqno`
  let atName := buf.drop 72
  let name := strBytes atName
  let atIncAddr := atName.drop (name.length + 1)
  let incAddr := strBytes atIncAddr
  let atAppl := atIncAddr.drop (incAddr.length + 1)
  let applProtoVer : Int := if 1 ≤ version then (atAppl.getD 0 0).toNat else 0
  let atCached := atAppl.drop 1
  let cached : Int := if 3 ≤ version then toSigned 64 (ofLeBytes (atCached.take 8)) else gcsSeqnoIll
  let atDesync := atCached.drop 8
  let desyncCount : Int := if 4 ≤ version then toSigned 32 (ofLeBytes (atDesync.take 4)) else 0
  let atPrim := atDesync.drop (4 + sizeofV5Stuff)
  let primVer (i : Nat) : Int := if 6 ≤ version then (atPrim.getD i 0).toNat else 0
  match NodeState.ofInt? (toSigned 8 (buf.getD 4 0).toNat), NodeState.ofInt? (toSigned 8 (buf.getD 5 0).toNat) with
  | some primState, some currentState =>
    (gcsStateMsgCreate (readUuid ((buf.drop 8).take 16)) (readUuid ((buf.drop 24).take 16))
        (readUuid ((buf.drop 40).take 16)) (toSigned 64 (ofLeBytes ((buf.drop 64).take 8)))
        (toSigned 64 (ofLeBytes ((buf.drop 56).take 8))) cached (toSigned 16 (ofLeBytes ((buf.drop 6).take 2)))
        primState currentState name incAddr (toSigned 8 (buf.getD 2 0).toNat) (toSigned 8 (buf.getD 3 0).toNat)
        applProtoVer (primVer 0) (primVer 1) (primVer 2) desyncCount (buf.getD 1 0)).map
      fun ret => { ret with version }
  | _, _ => none

/-! ## §4. What is written reads back -/

section Fields

open Galera.Bytes

@[simp] theorem length_fixedFieldsV0 (state : FullStateMsg) : (fixedFieldsV0 state).length = 72 := by
  simp [fixedFieldsV0, uuidBytes]

/-- Where the reader finds each field of version 0: the table of
    `STATE_MSG_FIELDS_V0`. -/
theorem fixedFieldsV0_read (state : FullStateMsg) (rest : List UInt8) :
    (fixedFieldsV0 state ++ rest).getD 0 0 = int8Byte gcsStateMsgVer ∧
    (fixedFieldsV0 state ++ rest).getD 1 0 = state.flags ∧
    (fixedFieldsV0 state ++ rest).getD 2 0 = int8Byte state.gcsProtoVer ∧
    (fixedFieldsV0 state ++ rest).getD 3 0 = int8Byte state.replProtoVer ∧
    (fixedFieldsV0 state ++ rest).getD 4 0 = int8Byte state.primState.toNat ∧
    (fixedFieldsV0 state ++ rest).getD 5 0 = int8Byte state.currentState.toNat ∧
    ((fixedFieldsV0 state ++ rest).drop 6).take 2 = leBytes 2 (ofSigned 16 state.primJoined) ∧
    ((fixedFieldsV0 state ++ rest).drop 8).take 16 = uuidBytes state.stateUuid ∧
    ((fixedFieldsV0 state ++ rest).drop 24).take 16 = uuidBytes state.groupUuid ∧
    ((fixedFieldsV0 state ++ rest).drop 40).take 16 = uuidBytes state.primUuid ∧
    ((fixedFieldsV0 state ++ rest).drop 56).take 8 = leBytes 8 (ofSigned 64 state.received) ∧
    ((fixedFieldsV0 state ++ rest).drop 64).take 8 = leBytes 8 (ofSigned 64 state.primSeqno) := by
  refine ⟨?_, ?_, ?_, ?_, ?_, ?_, ?_, ?_, ?_, ?_, ?_, ?_⟩ <;>
    simp [fixedFieldsV0, uuidBytes, List.drop_append, List.drop_eq_nil_of_le]

/-- A value of a signed `w`-bit type, stored little-endian in `n` bytes
    and read back. -/
theorem toSigned_ofLeBytes_leBytes {w : Nat} (n : Nat) (hw : 0 < w) (hwn : 2 ^ w = 256 ^ n) {x : Int}
    (h : SignedFits w x) : toSigned w (ofLeBytes (leBytes n (ofSigned w x))) = x := by
  rw [ofLeBytes_leBytes_of_lt (hwn ▸ ofSigned_lt w x)]
  exact toSigned_ofSigned hw h

/-- An `int8_t` field reads back. -/
theorem toSigned_int8Byte {x : Int} (hlo : -128 ≤ x) (hhi : x < 128) : toSigned 8 (int8Byte x).toNat = x := by
  rw [int8Byte, UInt8.toNat_ofNat', Nat.mod_eq_of_lt (ofSigned_lt 8 x)]
  exact toSigned_ofSigned (by decide) ⟨by simpa using hlo, by simpa using hhi⟩

/-- A `uint8_t` field reads back. -/
theorem toNat_int8Byte {x : Int} (hlo : 0 ≤ x) (hhi : x ≤ 255) : ((int8Byte x).toNat : Int) = x := by
  rw [int8Byte, UInt8.toNat_ofNat', Nat.mod_eq_of_lt (ofSigned_lt 8 x), ofSigned]
  have : x % ((2 ^ 8 : Nat) : Int) = x := Int.emod_eq_of_lt hlo (by omega)
  rw [this]
  omega

theorem ofInt_int8Byte (st : NodeState) : NodeState.ofInt? (toSigned 8 (int8Byte st.toNat).toNat) = some st := by
  cases st <;> decide

theorem readUuid_uuidBytes {u : GuUuid} (h : u.val < 2 ^ 128) : readUuid (uuidBytes u) = u := by
  rw [readUuid, uuidBytes, ofLeBytes_leBytes_of_lt (by simpa using h)]

end Fields

/-- A message the wire format carries unchanged: version
    `GCS_STATE_MSG_VER` and strings without NUL, as
    `gcs_state_msg_create` makes it, the protocol versions in the range
    it checks, except `gcs_proto_ver` and `repl_proto_ver`, which travel as
    `int8_t` and must stay below 128, and every other field within the C
    type the format stores it in. -/
structure FullStateMsg.WireOk (s : FullStateMsg) : Prop where
  version_eq : s.version = gcsStateMsgVer
  gcsProtoVer_lt : 0 ≤ s.gcsProtoVer ∧ s.gcsProtoVer < 128
  replProtoVer_lt : 0 ≤ s.replProtoVer ∧ s.replProtoVer < 128
  applProtoVer_le : 0 ≤ s.applProtoVer ∧ s.applProtoVer ≤ 255
  primGcsVer_le : 0 ≤ s.primGcsVer ∧ s.primGcsVer ≤ 255
  primReplVer_le : 0 ≤ s.primReplVer ∧ s.primReplVer ≤ 255
  primApplVer_le : 0 ≤ s.primApplVer ∧ s.primApplVer ≤ 255
  primJoined_int16 : SignedFits 16 s.primJoined
  desyncCount_int32 : SignedFits 32 s.desyncCount
  received_int64 : SignedFits 64 s.received
  primSeqno_int64 : SignedFits 64 s.primSeqno
  cached_int64 : SignedFits 64 s.cached
  stateUuid_lt : s.stateUuid.val < 2 ^ 128
  groupUuid_lt : s.groupUuid.val < 2 ^ 128
  primUuid_lt : s.primUuid.val < 2 ^ 128
  name_ok : 0 ∉ s.name
  incAddr_ok : 0 ∉ s.incAddr

/-- `gcs_state_msg_write` into a buffer of `gcs_state_msg_len` bytes or
    more writes exactly `gcs_state_msg_len` bytes. -/
theorem gcsStateMsgWrite_len (buf : List UInt8) (state : FullStateMsg) (hbuf : gcsStateMsgLen state ≤ buf.length) :
    (gcsStateMsgWrite buf state).2 = gcsStateMsgLen state := by
  simp only [gcsStateMsgWrite, gcsStateMsgLen, List.length_append, length_fixedFieldsV0,
    Galera.Bytes.length_cString, Galera.Bytes.length_leBytes, List.length_take,
    List.length_drop, List.length_cons, List.length_nil]
  simp only [gcsStateMsgLen, sizeofV5Stuff] at hbuf
  simp only [sizeofV5Stuff]
  omega

/-- The reader on the writer's layout, whatever the bytes of version 5
    and whatever follows: each field where the one before ends, decoded
    back, and `gcs_state_msg_create` accepting them. -/
theorem gcsStateMsgRead_layout {state : FullStateMsg} (h : state.WireOk) (V rest : List UInt8)
    (hV : V.length = sizeofV5Stuff) :
    gcsStateMsgRead (fixedFieldsV0 state ++ (cString state.name ++ (cString state.incAddr ++
      (int8Byte state.applProtoVer :: (leBytes 8 (ofSigned 64 state.cached) ++
        (leBytes 4 (ofSigned 32 state.desyncCount) ++ (V ++
          (int8Byte state.primGcsVer :: int8Byte state.primReplVer :: int8Byte state.primApplVer :: rest)))))))) =
      some state := by
  -- the fields after the name, each where the one before ends
  have hname := Galera.Bytes.strBytes_cString_append h.name_ok
  have haddr := Galera.Bytes.strBytes_cString_append h.incAddr_ok
  have hatAddr := fun r => @List.drop_left' _ _ r _ (Galera.Bytes.length_cString state.name)
  have hatAppl := fun r => @List.drop_left' _ _ r _ (Galera.Bytes.length_cString state.incAddr)
  have hcached := fun r => @List.take_left' _ _ r _ (Galera.Bytes.length_leBytes 8 (ofSigned 64 state.cached))
  have hatDesync := fun r => @List.drop_left' _ _ r _ (Galera.Bytes.length_leBytes 8 (ofSigned 64 state.cached))
  have hdesync := fun r => @List.take_left' _ _ r _ (Galera.Bytes.length_leBytes 4 (ofSigned 32 state.desyncCount))
  have hprim : (leBytes 4 (ofSigned 32 state.desyncCount) ++ (V ++
      (int8Byte state.primGcsVer :: int8Byte state.primReplVer :: int8Byte state.primApplVer :: rest))).drop
        (4 + sizeofV5Stuff) = int8Byte state.primGcsVer :: int8Byte state.primReplVer :: int8Byte state.primApplVer :: rest := by
    rw [← List.drop_drop, List.drop_left' (Galera.Bytes.length_leBytes 4 _), List.drop_left' hV]
  -- the fields of version 0, at their offsets
  obtain ⟨h0, h1, h2, h3, h4, h5, hpj, hsu, hgu, hpu, hrecv, hps⟩ := fixedFieldsV0_read state
    (cString state.name ++ (cString state.incAddr ++
      (int8Byte state.applProtoVer :: (leBytes 8 (ofSigned 64 state.cached) ++
        (leBytes 4 (ofSigned 32 state.desyncCount) ++ (V ++
          (int8Byte state.primGcsVer :: int8Byte state.primReplVer :: int8Byte state.primApplVer :: rest)))))))
  have hatName := @List.drop_left' _ _ (cString state.name ++ (cString state.incAddr ++
      (int8Byte state.applProtoVer :: (leBytes 8 (ofSigned 64 state.cached) ++
        (leBytes 4 (ofSigned 32 state.desyncCount) ++ (V ++
          (int8Byte state.primGcsVer :: int8Byte state.primReplVer :: int8Byte state.primApplVer :: rest))))))) _
    (length_fixedFieldsV0 state)
  -- the values decoded
  have hver : toSigned 8 (int8Byte gcsStateMsgVer).toNat = gcsStateMsgVer := by decide
  have hv : (1 : Int) ≤ gcsStateMsgVer ∧ (3 : Int) ≤ gcsStateMsgVer ∧ (4 : Int) ≤ gcsStateMsgVer ∧
      (6 : Int) ≤ gcsStateMsgVer := by decide
  have h64 : ∀ {x : Int}, SignedFits 64 x → toSigned 64 (ofLeBytes (leBytes 8 (ofSigned 64 x))) = x :=
    fun hx => toSigned_ofLeBytes_leBytes 8 (by decide) rfl hx
  unfold gcsStateMsgRead
  simp only [h0, h1, h2, h3, h4, h5, hpj, hsu, hgu, hpu, hrecv, hps, hatName, hname, hatAddr, haddr, hatAppl, hver,
    List.getD_cons_zero, List.drop_succ_cons, List.drop_zero, hcached, hatDesync, hdesync, hprim, List.getD_cons_succ,
    ofInt_int8Byte, hv, if_true, readUuid_uuidBytes h.stateUuid_lt, readUuid_uuidBytes h.groupUuid_lt,
    readUuid_uuidBytes h.primUuid_lt, h64 h.received_int64, h64 h.primSeqno_int64, h64 h.cached_int64,
    toSigned_ofLeBytes_leBytes 2 (by decide) rfl h.primJoined_int16,
    toSigned_ofLeBytes_leBytes 4 (by decide) rfl h.desyncCount_int32,
    toSigned_int8Byte (Int.le_trans (by decide) h.gcsProtoVer_lt.1) h.gcsProtoVer_lt.2,
    toSigned_int8Byte (Int.le_trans (by decide) h.replProtoVer_lt.1) h.replProtoVer_lt.2,
    toNat_int8Byte h.applProtoVer_le.1 h.applProtoVer_le.2, toNat_int8Byte h.primGcsVer_le.1 h.primGcsVer_le.2,
    toNat_int8Byte h.primReplVer_le.1 h.primReplVer_le.2, toNat_int8Byte h.primApplVer_le.1 h.primApplVer_le.2]
  -- every protocol version passes `CHECK_PROTO_RANGE`, so the message is rebuilt
  have hrange := And.intro h.gcsProtoVer_lt (And.intro h.replProtoVer_lt (And.intro h.applProtoVer_le
    (And.intro h.primGcsVer_le (And.intro h.primReplVer_le h.primApplVer_le))))
  unfold gcsStateMsgCreate
  rw [if_pos (by simp only [checkProtoRange, Bool.and_eq_true, decide_eq_true_eq]; omega), Option.map_some,
    Galera.Bytes.strBytes_eq_self h.name_ok, Galera.Bytes.strBytes_eq_self h.incAddr_ok, ← h.version_eq]

/-- **Round trip.**  A message within the types the format stores its
    fields in, written into a buffer of `gcs_state_msg_len` bytes or more,
    reads back unchanged. -/
theorem gcsStateMsgRead_write (buf : List UInt8) {state : FullStateMsg} (h : state.WireOk)
    (hbuf : gcsStateMsgLen state ≤ buf.length) :
    gcsStateMsgRead (gcsStateMsgWrite buf state).1 = some state := by
  have hname := Galera.Bytes.strBytes_eq_self h.name_ok
  have haddr := Galera.Bytes.strBytes_eq_self h.incAddr_ok
  unfold gcsStateMsgWrite
  simp only [hname, haddr, List.append_assoc, List.cons_append, List.nil_append]
  refine gcsStateMsgRead_layout h _ _ ?_
  -- the buffer is long enough for the bytes of version 5
  simp only [gcsStateMsgLen, hname, haddr] at hbuf
  simp only [List.length_take, List.length_drop, List.length_append, length_fixedFieldsV0,
    Galera.Bytes.length_cString, Galera.Bytes.length_leBytes, List.length_cons]
  simp only [sizeofV5Stuff] at hbuf ⊢
  omega

/-! ## §5. Protocol versions above 127 -/

/-- A SYNCED member announcing GCS protocol version 128. -/
def protoVer128Msg : FullStateMsg :=
  { stateUuid := ⟨7⟩, groupUuid := ⟨1⟩, primUuid := ⟨2⟩, primSeqno := 2, received := 10, version := 6,
    gcsProtoVer := 128, replProtoVer := 10, applProtoVer := 4, primGcsVer := 2, primReplVer := 10,
    primApplVer := 4, primJoined := 3, desyncCount := 0, primState := .synced, currentState := .synced,
    flags := 0, cached := 1, name := [110], incAddr := [] }

/-- `gcs_state_msg_create` accepts GCS protocol version 128, but the
    message it makes, written and read back, is lost: the version comes
    back as -128 and the reader's `gcs_state_msg_create` refuses it. -/
theorem state_msg_gcs_proto_ver_128_lost :
    gcsStateMsgCreate ⟨7⟩ ⟨1⟩ ⟨2⟩ 2 10 1 3 .synced .synced [110] [] 128 10 4 2 10 4 0 0 = some protoVer128Msg ∧
      (gcsStateMsgWrite (List.replicate (gcsStateMsgLen protoVer128Msg) 0) protoVer128Msg).2 =
        gcsStateMsgLen protoVer128Msg ∧
      toSigned 8 ((gcsStateMsgWrite (List.replicate (gcsStateMsgLen protoVer128Msg) 0) protoVer128Msg).1.getD 2 0).toNat =
        -128 ∧
      gcsStateMsgRead (gcsStateMsgWrite (List.replicate (gcsStateMsgLen protoVer128Msg) 0) protoVer128Msg).1 = none := by
  decide +kernel

end Galera.Gcs
