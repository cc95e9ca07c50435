/-
  Galera.Gcs.ActProto
  ───────────────────
  **THE ACTION FRAGMENT HEADER (`gcs_act_proto.cpp`, `gcs_act_proto.hpp`).**

  Every message of an action starts with a header of 20 bytes (protocol
  version 0):

      byte  0       protocol version
      bytes 0-7     act_id, big-endian, its top byte under the version
      bytes 8-11    act_size, little-endian
      bytes 12-15   frag_no, little-endian
      byte  16      act_type
      bytes 17-19   reserved, never written
      bytes 20-     the fragment

    * `gcsActProtoRead_write` — a header written for an act_id in
      `[0, 2^56)`, an act_size up to `GCS_MAX_ACT_SIZE` and a frag_no below
      `2^32`, followed by any fragment, reads back as written;
    * `gcsActProtoInc_write` — `gcs_act_proto_inc` advances the frag_no of
      a written header;
    * `gcsActProtoRead_oversized` — a header with an act_size above
      `GCS_MAX_ACT_SIZE` reads as `-EMSGSIZE`;
    * `handle_frag_overruns_action` — nothing checks a fragment's length
      against its action's size: a first fragment longer than the size it
      announces is read and taken in, past the end of the action buffer.

  `gcs_act_proto_read` also clears the version byte of the caller's
  buffer, of which only the fragment is used afterwards; the model does
  not return the buffer.
-/
import Mathlib
import Galera.Gcs.Defrag
import Galera.Lib.Bytes

namespace Galera.Gcs

open Galera.Bytes

variable {α : Type}

/-! ## §1. Constants and the action type byte -/

/-- `PROTO_DATA_OFFSET`: the header size of protocol version 0. -/
def protoDataOffset : Nat := 20

/-- `GCS_ACT_PROTO_MAX`, the one protocol version. -/
def gcsActProtoMax : Nat := 0

/-- `GCS_MAX_ACT_SIZE`. -/
def gcsMaxActSize : Nat := 0x7FFFFFFF

/-- `EBADMSG`. -/
def errnoEbadmsg : Int := 74

/-- `EMSGSIZE`. -/
def errnoEmsgsize : Int := 90

/-- `EPROTONOSUPPORT`. -/
def errnoEprotonosupport : Int := 93

/-- The value of a `gcs_act_type_t`, as the header stores it. -/
def ActType.toByte : ActType → UInt8
  | .tordered => 0
  | .commitCut => 1
  | .stateReq => 2
  | .conf => 3
  | .join => 4
  | .sync => 5
  | .flow => 6
  | .service => 7
  | .error => 8
  | .inconsistency => 9
  | .unknown => 10

/-- `static_cast<gcs_act_type_t>` of the header byte.  A byte above 10
    names no member of the enumeration; the model reads it as UNKNOWN. -/
def ActType.ofByte (b : UInt8) : ActType :=
  match b.toNat with
  | 0 => .tordered
  | 1 => .commitCut
  | 2 => .stateReq
  | 3 => .conf
  | 4 => .join
  | 5 => .sync
  | 6 => .flow
  | 7 => .service
  | 8 => .error
  | 9 => .inconsistency
  | _ => .unknown

@[simp] theorem ActType.ofByte_toByte (t : ActType) : ActType.ofByte t.toByte = t := by
  cases t <;> rfl

/-! ## §2. Writing, reading and advancing the header -/

/-- `gcs_act_proto_write` into the buffer `buf`: the buffer with its
    first 17 bytes replaced by the header's fields, and `frag_len`, the
    room left after the header. -/
def gcsActProtoWrite (frg : ActFrag α) (buf : List UInt8) : List UInt8 × Nat :=
  (UInt8.ofNat (frg.protoVer % 256).toNat ::
      ((beBytes 8 (frg.actId % 2 ^ 64).toNat).drop 1 ++ leBytes 4 frg.actSize ++
        leBytes 4 frg.fragNo ++ [frg.actType.toByte]) ++ buf.drop 17,
    buf.length - protoDataOffset)

/-- `gcs_act_proto_read` of a message: the fragment, or the error. -/
def gcsActProtoRead (msg : List UInt8) : Except Int (ActFrag UInt8) :=
  let protoVer := msg.headD 0
  if msg.length < protoDataOffset then .error (-errnoEbadmsg)
  else if gcsActProtoMax < protoVer.toNat then .error (-errnoEproto)
  else
    -- the version byte is cleared before act_id is read
    let frg : ActFrag UInt8 :=
      { actId := ofBeBytes (0 :: (msg.take 8).drop 1)
        actSize := ofLeBytes ((msg.drop 8).take 4)
        frag := msg.drop protoDataOffset
        fragNo := ofLeBytes ((msg.drop 12).take 4)
        actType := ActType.ofByte (msg.getD 16 0)
        protoVer := protoVer.toNat }
    if gcsMaxActSize < frg.actSize then .error (-errnoEmsgsize) else .ok frg

/-- `gcs_act_proto_inc`: the buffer with frag_no one higher (modulo
    `2^32`), and the new frag_no. -/
def gcsActProtoInc (buf : List UInt8) : List UInt8 × Nat :=
  let fragNo := (ofLeBytes ((buf.drop 12).take 4) + 1) % 2 ^ 32
  (buf.take 12 ++ leBytes 4 fragNo ++ buf.drop 16, fragNo)

/-- `gcs_act_proto_hdr_size`. -/
def gcsActProtoHdrSize (version : Int) : Int :=
  if (gcsActProtoMax : Int) < version then -errnoEprotonosupport
  else protoDataOffset

/-! ## §3. The header round trip -/

/-- The header fields of a frame of `frg`: what a reader needs of it. -/
structure ActFrag.HdrOk (frg : ActFrag α) : Prop where
  actId_nonneg : 0 ≤ frg.actId
  actId_lt : frg.actId < 2 ^ 56
  actSize_le : frg.actSize ≤ gcsMaxActSize
  fragNo_lt : frg.fragNo < 2 ^ 32
  protoVer_eq : frg.protoVer = 0

theorem length_gcsActProtoWrite (frg : ActFrag α) {buf : List UInt8} (h : 17 ≤ buf.length) :
    (gcsActProtoWrite frg buf).1.length = buf.length := by
  simp [gcsActProtoWrite]
  omega

/-- The act_id bytes of a header hold the act_id under a zero top byte. -/
theorem actId_bytes {id : Int} (h0 : 0 ≤ id) (h : id < 2 ^ 56) :
    (beBytes 8 (id % 2 ^ 64).toNat).drop 1 = beBytes 7 id.toNat := by
  have hmod : id % 2 ^ 64 = id := Int.emod_eq_of_lt h0 (by omega)
  have hlt : id.toNat < 256 ^ 7 := by omega
  rw [hmod, beBytes_succ_of_lt hlt]
  rfl

/-- A message laid out as a version-0 frame: version byte 0, the low
    seven bytes of act_id, act_size, frag_no, the type byte, three
    reserved bytes and the fragment. -/
theorem gcsActProtoRead_frame {B S F R : List UInt8} (t : UInt8) (data : List UInt8)
    (hB : B.length = 7) (hS : S.length = 4) (hF : F.length = 4) (hR : R.length = 3) :
    gcsActProtoRead ((0 : UInt8) :: (B ++ S ++ F ++ [t] ++ R) ++ data) =
      if gcsMaxActSize < ofLeBytes S then .error (-errnoEmsgsize)
      else .ok { actId := ofBeBytes B, actSize := ofLeBytes S, frag := data,
                 fragNo := ofLeBytes F, actType := ActType.ofByte t, protoVer := 0 } := by
  -- each field sits at its offset
  have hid : (((0 : UInt8) :: (B ++ S ++ F ++ [t] ++ R) ++ data).take 8).drop 1 = B := by
    simp [hB]
  have hsize : ((((0 : UInt8) :: (B ++ S ++ F ++ [t] ++ R) ++ data).drop 8).take 4) = S := by
    simp [hB, hS]
  have hfno : ((((0 : UInt8) :: (B ++ S ++ F ++ [t] ++ R) ++ data).drop 12).take 4) = F := by
    simp [List.drop_append, List.take_append, hB, hS, hF]
  have htype : ((0 : UInt8) :: (B ++ S ++ F ++ [t] ++ R) ++ data).getD 16 0 = t := by
    simp [List.getElem?_append_right, hB, hS, hF]
  have hdata : ((0 : UInt8) :: (B ++ S ++ F ++ [t] ++ R) ++ data).drop protoDataOffset = data := by
    simp [protoDataOffset, List.drop_append, hB, hS, hF, hR, List.drop_of_length_le]
  have hlen : ¬((0 : UInt8) :: (B ++ S ++ F ++ [t] ++ R) ++ data).length < protoDataOffset := by
    simp only [protoDataOffset, List.length_append, List.length_cons, hB, hS, hF, hR]
    omega
  unfold gcsActProtoRead
  simp only [hid, hsize, hfno, htype, hdata, if_neg hlen, ofBeBytes_cons_zero]
  rfl

/-- `gcs_act_proto_inc` of a header laid out as a frame. -/
theorem gcsActProtoInc_frame {B S F R : List UInt8} (p t : UInt8)
    (hB : B.length = 7) (hS : S.length = 4) (hF : F.length = 4) :
    gcsActProtoInc (p :: (B ++ S ++ F ++ [t] ++ R)) =
      (p :: (B ++ S ++ leBytes 4 ((ofLeBytes F + 1) % 2 ^ 32) ++ [t] ++ R),
        (ofLeBytes F + 1) % 2 ^ 32) := by
  have hfno : (((p :: (B ++ S ++ F ++ [t] ++ R)).drop 12).take 4) = F := by
    simp [List.drop_append, List.take_append, hB, hS, hF]
  have hpre : (p :: (B ++ S ++ F ++ [t] ++ R)).take 12 = p :: (B ++ S) := by
    simp [List.take_append, List.take_of_length_le, hB, hS]
  have hpost : (p :: (B ++ S ++ F ++ [t] ++ R)).drop 16 = t :: R := by
    simp [List.drop_append, hB, hS, hF, List.drop_of_length_le]
  simp only [gcsActProtoInc, hfno, hpre, hpost]
  simp

/-- The first 20 bytes of a written header, field by field. -/
theorem take_gcsActProtoWrite (frg : ActFrag α) (buf : List UInt8) :
    (gcsActProtoWrite frg buf).1.take protoDataOffset =
      UInt8.ofNat (frg.protoVer % 256).toNat ::
        ((beBytes 8 (frg.actId % 2 ^ 64).toNat).drop 1 ++ leBytes 4 frg.actSize ++
          leBytes 4 frg.fragNo ++ [frg.actType.toByte] ++ (buf.drop 17).take 3) := by
  simp only [gcsActProtoWrite]
  simp [protoDataOffset, List.take_append, List.take_of_length_le]

/-- A written header followed by any fragment reads back as written. -/
theorem gcsActProtoRead_write (frg : ActFrag α) (h : frg.HdrOk) {buf : List UInt8}
    (hbuf : protoDataOffset ≤ buf.length) (data : List UInt8) :
    gcsActProtoRead ((gcsActProtoWrite frg buf).1.take protoDataOffset ++ data) =
      .ok { actId := frg.actId, actSize := frg.actSize, frag := data, fragNo := frg.fragNo,
            actType := frg.actType, protoVer := 0 } := by
  obtain ⟨h0, hid, hsize, hfno, hpv⟩ := h
  -- both 32-bit fields fit their four bytes
  have hsize' : frg.actSize < 256 ^ 4 := by unfold gcsMaxActSize at hsize; omega
  have hfno' : frg.fragNo < 256 ^ 4 := by omega
  have hres : ((buf.drop 17).take 3).length = 3 := by
    simp only [protoDataOffset] at hbuf
    simp
    omega
  have hpv0 : UInt8.ofNat (frg.protoVer % 256).toNat = 0 := by simp [hpv]
  have hidn : ((ofBeBytes (beBytes 7 frg.actId.toNat) : Nat) : Int) = frg.actId := by
    rw [ofBeBytes_beBytes, Nat.mod_eq_of_lt (by omega)]
    omega
  rw [take_gcsActProtoWrite, hpv0, actId_bytes h0 hid,
    gcsActProtoRead_frame _ data (length_beBytes _ _) (length_leBytes _ _) (length_leBytes _ _) hres,
    ofLeBytes_leBytes, ofLeBytes_leBytes, Nat.mod_eq_of_lt hsize', Nat.mod_eq_of_lt hfno', hidn,
    ActType.ofByte_toByte, if_neg (Nat.not_lt.mpr hsize)]

/-- `gcs_act_proto_inc` of a written header: the header of the next
    fragment, and its number. -/
theorem gcsActProtoInc_write (frg : ActFrag α) (buf : List UInt8)
    (hfno : frg.fragNo + 1 < 2 ^ 32) :
    gcsActProtoInc ((gcsActProtoWrite frg buf).1.take protoDataOffset) =
      ((gcsActProtoWrite { frg with fragNo := frg.fragNo + 1 } buf).1.take protoDataOffset,
        frg.fragNo + 1) := by
  rw [take_gcsActProtoWrite, take_gcsActProtoWrite, gcsActProtoInc_frame _ _ (by simp)
    (length_leBytes _ _) (length_leBytes _ _), ofLeBytes_leBytes,
    Nat.mod_eq_of_lt (show frg.fragNo < 256 ^ 4 by omega), Nat.mod_eq_of_lt hfno]

/-- An act_size above `GCS_MAX_ACT_SIZE` but below `2^32` is read back
    and refused. -/
theorem gcsActProtoRead_oversized (frg : ActFrag α) (hpv : frg.protoVer = 0)
    (hbig : gcsMaxActSize < frg.actSize) (hsize : frg.actSize < 2 ^ 32) {buf : List UInt8}
    (hbuf : protoDataOffset ≤ buf.length) (data : List UInt8) :
    gcsActProtoRead ((gcsActProtoWrite frg buf).1.take protoDataOffset ++ data) =
      .error (-errnoEmsgsize) := by
  have hres : ((buf.drop 17).take 3).length = 3 := by
    simp only [protoDataOffset] at hbuf
    simp
    omega
  have hpv0 : UInt8.ofNat (frg.protoVer % 256).toNat = 0 := by simp [hpv]
  rw [take_gcsActProtoWrite, hpv0,
    gcsActProtoRead_frame _ data (by simp) (length_leBytes _ _) (length_leBytes _ _) hres,
    ofLeBytes_leBytes, Nat.mod_eq_of_lt (show frg.actSize < 256 ^ 4 by omega), if_pos hbig]

/-! ## §4. A fragment longer than its action -/

/-- A faulty peer's message: fragment 0 of action 1, announcing an action
    of one byte and carrying two. -/
def overlongFragMsg : List UInt8 := [0, 0, 0, 0, 0, 0, 0, 1, 1, 0, 0, 0, 0, 0, 0, 0, 0, 0, 0, 0, 7, 7]

/-- `gcs_act_proto_read` accepts the message, and
    `gcs_defrag_handle_frag` on a fresh defragmenter takes its fragment in:
    it returns 0, not an error, with `received` past `size` and two bytes
    copied into the action buffer of one.  Only `assert (df->received <=
    df->size)` stands in the way. -/
theorem handle_frag_overruns_action :
    ∃ frg, gcsActProtoRead overlongFragMsg = .ok frg ∧ frg.actSize ≤ gcsMaxActSize ∧
      ((gcsDefragInit : Defrag UInt8).handleFrag frg false).2.ret = 0 ∧
      ((gcsDefragInit : Defrag UInt8).handleFrag frg false).1.size <
        ((gcsDefragInit : Defrag UInt8).handleFrag frg false).1.received ∧
      ((gcsDefragInit : Defrag UInt8).handleFrag frg false).1.size <
        ((gcsDefragInit : Defrag UInt8).handleFrag frg false).1.buf.length :=
  ⟨_, rfl, by decide, by decide, by decide, by decide⟩

end Galera.Gcs
