/-
  Galera.Cert.WriteSetNG
  ──────────────────────
  **THE WRITE SET ON THE WIRE (`write_set_ng.cpp`, `write_set_ng.hpp`).**

  A write set travels as a header followed by up to four record sets: the
  keys, the data, the unordered data and the annotation.  Byte 3 of the
  header says which of them follow: the key set's version in its upper
  nibble, the data set's version in bits 2–3, and a flag each for the
  unordered set and the annotation.  The header ends with a checksum of
  the bytes before it, written again whenever a field changes.

    * `Header.gather`, `WriteSetOut.gather` — the writer's header and the
      bytes of its sets; `Header.setLastSeen` (`Galera.Cert.Preordered`)
      then fills in the last-seen seqno and the checksum;
    * `Header.readBuf`, `WriteSetIn.read` — `WriteSetIn(buf)`: the
      header's version, size and checksum, the key set, and `checksum()`,
      which reads the data, unordered and annotation sets in this order;
    * `Header.copy`, `WriteSetIn.gather` — a received write set handed on
      without its keys or its unordered set: a copy of the header whose
      byte 3 is masked, then the sets kept.

  The record sets are `Galera.Gu`'s; the header checksum
  (`gu::FastHash::digest`) is a parameter, as the record sets' hashes are.
  `checksum()` runs on a thread of its own for a large write set; the
  model runs it in place, which gives what `verify_checksum()` reads later.

  Main results:
    * `Header.readBuf_copy` — a copied header is accepted as the original
      was, and `Header.fields_copy` — with the same fields;
    * `Header.hasAnnt_copy` — but never with the annotation flag;
    * `WriteSetIn.read_gather_annt` — so whatever reads back from a
      partial gather has no annotation;
    * `write_set_gather_drops_annotation` — an annotated write set,
      gathered without its keys and unordered set, reads back without its
      annotation, whose bytes are left over after the last set read.
-/
import Mathlib
import Galera.Cert.Preordered
import Galera.Gu.RecordSetRead

namespace Galera.Cert

open Galera.Bytes (leBytes ofLeBytes overwrite slice length_overwrite slice_overwrite_self
  slice_overwrite_of_le slice_take_of_le slice_append_of_le ofLeBytes_leBytes)
open Galera.Gu (RecordSetIn RecordSetOut RsetError)

/-! ## §1. The header's layout -/

/-- `WriteSetNG::Version`. -/
inductive WsVersion
  | ver3
  | ver4
  deriving DecidableEq, Repr

/-- The version's number. -/
def WsVersion.toNat : WsVersion → Nat
  | .ver3 => 3
  | .ver4 => 4

/-- `WriteSetNG::MAX_VERSION`. -/
def wsMaxVersion : Nat := 4

/-- `Header::MAGIC_BYTE`, `'G'`. -/
def magicByte : UInt8 := 71

/-- `V3_MAGIC_OFF`. -/
def v3MagicOff : Nat := 0

/-- `V3_HEADER_VERS_OFF`. -/
def v3HeaderVersOff : Nat := 1

/-- `V3_HEADER_SIZE_OFF`. -/
def v3HeaderSizeOff : Nat := 2

/-- `V3_SETS_OFF`. -/
def v3SetsOff : Nat := 3

/-- `V3_FLAGS_OFF`. -/
def v3FlagsOff : Nat := 4

/-- `V3_SOURCE_ID_OFF`. -/
def v3SourceIdOff : Nat := 24

/-- `V3_CONN_ID_OFF`. -/
def v3ConnIdOff : Nat := 40

/-- `V3_TRX_ID_OFF`. -/
def v3TrxIdOff : Nat := 48

/-- `V3_ANNOT_FLAG`. -/
def v3AnnotFlag : UInt8 := 0x01

/-- `V3_UNORD_FLAG`. -/
def v3UnordFlag : UInt8 := 0x02

/-- `DataSet::VER1`, the data set's only version. -/
def dataSetVer1 : Nat := 1

/-- The byte at offset `i`, zero past the end. -/
def byteAt (buf : List UInt8) (i : Nat) : UInt8 := (slice buf i 1).headD 0

/-! ## §2. The writer -/

/-- `Header::gather(kver, dver, unord, annot, flags, source, conn, trx)`:
    the fields written into `local_`, which starts zeroed; the last-seen
    seqno, the timestamp and the checksum stay zero until
    `set_last_seen`. -/
def Header.gather (ver : WsVersion) (kver dver : Nat) (unord annot : Bool) (flags : Nat)
    (source : List UInt8) (conn trx : Nat) : List UInt8 :=
  let hdr := List.replicate v3Size (0 : UInt8)
  let hdr := overwrite hdr v3MagicOff [magicByte]
  let hdr := overwrite hdr v3HeaderVersOff [UInt8.ofNat (ver.toNat <<< 4 ||| 3)]
  let hdr := overwrite hdr v3HeaderSizeOff [UInt8.ofNat v3Size]
  let sets := kver <<< 4 ||| dver <<< 2 ||| (if unord then 0x02 else 0) ||| (if annot then 0x01 else 0)
  let hdr := overwrite hdr v3SetsOff [UInt8.ofNat sets]
  let hdr := overwrite hdr v3FlagsOff (leBytes 2 flags)
  -- a certified write set will have a dependency window of at least 1
  let hdr := overwrite hdr v3PaRangeOff (leBytes 2 0)
  let hdr := overwrite hdr v3SourceIdOff source
  let hdr := overwrite hdr v3ConnIdOff (leBytes 8 conn)
  overwrite hdr v3TrxIdOff (leBytes 8 trx)

/-- The parts of `WriteSetOut` that its `gather` reads: the key set with
    its `KeySet::Version`, the data and unordered sets, the annotation set
    once one is appended, and the flags. -/
structure WriteSetOut where
  ver : WsVersion
  kver : Nat
  keys : RecordSetOut
  data : RecordSetOut
  unrd : RecordSetOut
  annt : Option RecordSetOut
  flags : Nat

/-- `KeySetOut::version()` and `DataSetOut::version()`: the set's version,
    or `EMPTY` while nothing is appended. -/
def setVersion (version count : Nat) : Nat := if count ≠ 0 then version else 0

/-- `WriteSetOut::gather(source, conn, trx, out)`: the header, and the bytes
    of the key, data, unordered and annotation sets after it. -/
def WriteSetOut.gather (fastHash32 : List UInt8 → UInt32) (mmh128 : List UInt8 → Nat)
    (ws : WriteSetOut) (source : List UInt8) (conn trx : Nat) (allocatorNewPage : Bool) :
    List UInt8 × List UInt8 :=
  let setBytes := fun rs : RecordSetOut => (rs.gather fastHash32 mmh128 allocatorNewPage).2.1.flatten
  (Header.gather ws.ver (setVersion ws.kver ws.keys.count) (setVersion dataSetVer1 ws.data.count)
      (setVersion dataSetVer1 ws.unrd.count ≠ 0) ws.annt.isSome ws.flags source conn trx,
    setBytes ws.keys ++ setBytes ws.data ++ setBytes ws.unrd ++ (ws.annt.map setBytes).getD [])

/-! ## §3. The reader -/

/-- What `WriteSetIn(buf)` throws. -/
inductive WsError
  /-- `EPROTO`, "Unrecognized writeset version". -/
  | unrecognizedVersion
  /-- `EMSGSIZE`, "Input buffer size ... smaller than header size". -/
  | headerSize
  /-- `EINVAL`, "Header checksum mismatch". -/
  | headerChecksum
  /-- What `KeySet::version` throws for a version it does not know. -/
  | keySetVersion
  /-- What the key set's `RecordSetIn::init` throws. -/
  | keySet (e : RsetError)
  /-- `EINVAL`, "Writeset checksum failed". -/
  | checksumFailed
  deriving DecidableEq, Repr

/-- `WriteSetNG::version(buf, buflen)`: the version a buffer's first bytes
    announce, `-1` for none. -/
def versionOf (buf : List UInt8) : Int :=
  if 4 ≤ buf.length then
    let b1 := (byteAt buf 1).toNat
    if byteAt buf 0 = magicByte ∧ 3 <<< 4 ||| 3 ≤ b1 ∧ 32 ≤ (byteAt buf 2).toNat then
      let minVer := b1 &&& 0x0f
      let maxVer := b1 >>> 4
      if minVer ≤ maxVer then
        if maxVer < wsMaxVersion then maxVer
        else if minVer ≤ wsMaxVersion then wsMaxVersion
        -- the least version needed is past the greatest known
        else minVer
      else -1
    -- a header from 2.x and before
    else if b1 = 0 ∧ (byteAt buf 2).toNat = 0 ∧ (byteAt buf 3).toNat ≤ 2 then (byteAt buf 3).toNat
    else -1
  else -1

/-- `WriteSetNG::version(int)`. -/
def wsVersion (v : Int) : Except WsError WsVersion :=
  if v = 3 then .ok .ver3 else if v = 4 then .ok .ver4 else .error .unrecognizedVersion

/-- `Header::read_buf(buf)`: the version, `check_size`, and
    `Checksum::verify` of all but the header's last 8 bytes against the
    `uint64_t` stored there. -/
def Header.readBuf (compute : List UInt8 → Nat) (buf : List UInt8) :
    Except WsError (WsVersion × Nat) := do
  let ver ← wsVersion (versionOf buf)
  let hsize := (byteAt buf v3HeaderSizeOff).toNat
  if buf.length < hsize then throw .headerSize
  let csize := hsize - v3ChecksumSize
  if compute (buf.take csize) % 256 ^ v3ChecksumSize ≠ ofLeBytes (slice buf csize v3ChecksumSize) then
    throw .headerChecksum
  pure (ver, hsize)

/-- Byte 3 of a header. -/
def Header.setsByte (buf : List UInt8) : UInt8 := byteAt buf v3SetsOff

/-- `Header::keyset_ver()`, before `KeySet::version` checks it. -/
def Header.keysetVer (buf : List UInt8) : Nat := ((Header.setsByte buf).toNat &&& 0xf0) >>> 4

/-- `Header::dataset_ver()`, before `DataSet::version` checks it. -/
def Header.datasetVer (buf : List UInt8) : Nat := ((Header.setsByte buf).toNat &&& 0x0c) >>> 2

/-- `Header::has_unrd()`. -/
def Header.hasUnrd (buf : List UInt8) : Bool := Header.setsByte buf &&& v3UnordFlag != 0

/-- `Header::has_annt()`. -/
def Header.hasAnnt (buf : List UInt8) : Bool := Header.setsByte buf &&& v3AnnotFlag != 0

/-- `KeySet::version(ver)`. -/
def keySetVersion (ver : Nat) : Except WsError Nat :=
  if ver ≤ 4 then .ok ver else .error .keySetVersion

/-- `DataSet::version(ver)`; it throws inside `checksum()`, which catches. -/
def dataSetVersion (ver : Nat) : Option Nat := if ver ≤ dataSetVer1 then some ver else none

/-- `WriteSetIn`: the buffer, the header's version and size, the sets read,
    and `setsEnd`, the offset where the last set read ends. -/
structure WriteSetIn where
  buf : List UInt8
  ver : WsVersion
  hsize : Nat
  keys : Option RecordSetIn
  data : Option RecordSetIn
  unrd : Option RecordSetIn
  annt : Option RecordSetIn
  setsEnd : Nat
  deriving DecidableEq, Repr

/-- `WriteSetIn::annotated()`. -/
def WriteSetIn.annotated (w : WriteSetIn) : Bool := w.annt.isSome

section Read

variable (fastHash32 : List UInt8 → UInt32) (mmh128 : List UInt8 → Nat)

/-- One set of `checksum()`, at offset `off` of the payload: `init`, and
    `checksum()` where the source checks the set; the set and the offset
    past it. -/
def readSet (check : Bool) (payload : List UInt8) (off : Nat) : Option (RecordSetIn × Nat) := do
  let rs ← (RecordSetIn.init fastHash32 mmh128 (payload.drop off) false).toOption
  let () ← if check then (rs.checksum mmh128).toOption else some ()
  pure (rs, off + rs.serialSize)

/-- A set that the header may leave out. -/
def readSetIf (present check : Bool) (payload : List UInt8) (off : Nat) :
    Option (Option RecordSetIn × Nat) :=
  if present then (readSet fastHash32 mmh128 check payload off).map fun r => (some r.1, r.2)
  else some (none, off)

/-- The start of `checksum()`: the key set's checksum if it has records, and
    the offset past it. -/
def keysEnd (keys : Option RecordSetIn) : Option Nat :=
  match keys with
  | some k => if 0 < k.size then (k.checksum mmh128).toOption.map fun _ => k.serialSize else some 0
  | none => some 0

/-- `WriteSetIn::checksum()`: past the key set, the data set and, if the
    header has them, the unordered set and the annotation, whose checksum
    is not checked; `none` where an exception is caught and `check_` stays
    false. -/
def checksumSets (buf : List UInt8) (hsize : Nat) (keys : Option RecordSetIn) :
    Option (Option RecordSetIn × Option RecordSetIn × Option RecordSetIn × Nat) := do
  let payload := buf.drop hsize
  let off ← keysEnd mmh128 keys
  let dver ← dataSetVersion (Header.datasetVer buf)
  if dver ≠ 0 then
    let (data, off) ← readSet fastHash32 mmh128 true payload off
    let (unrd, off) ← readSetIf fastHash32 mmh128 (Header.hasUnrd buf) true payload off
    let (annt, off) ← readSetIf fastHash32 mmh128 (Header.hasAnnt buf) false payload off
    pure (some data, unrd, annt, hsize + off)
  else pure (none, none, none, hsize + off)

/-- The key set's `init`, if the header has one; its exceptions propagate. -/
def readKeys (kver : Nat) (payload : List UInt8) : Except WsError (Option RecordSetIn) :=
  if kver ≠ 0 then
    match RecordSetIn.init fastHash32 mmh128 payload false with
    | .ok rs => .ok (some rs)
    | .error e => .error (.keySet e)
  else .ok none

/-- `WriteSetIn(buf)`, with the checksum enforced: the header, then `init`:
    the key set if the header has one, `checksum()` and `checksum_fin()`. -/
def WriteSetIn.read (compute : List UInt8 → Nat) (buf : List UInt8) : Except WsError WriteSetIn := do
  let (ver, hsize) ← Header.readBuf compute buf
  let kver ← keySetVersion (Header.keysetVer buf)
  let keys ← readKeys fastHash32 mmh128 kver (buf.drop hsize)
  match checksumSets fastHash32 mmh128 buf hsize keys with
  | some (data, unrd, annt, setsEnd) => pure ⟨buf, ver, hsize, keys, data, unrd, annt, setsEnd⟩
  | none => throw .checksumFailed

end Read

/-! ## §4. Handing a received write set on -/

/-- `RecordSetIn::buf()`: the set's bytes up to its serial size; nothing
    for a set that was not read. -/
def setBuf : Option RecordSetIn → List UInt8
  | some rs => rs.head.take rs.serialSize
  | none => []

/-- The mask `Header::copy` puts on byte 3. -/
def copyMask (includeKeys includeUnrd : Bool) : UInt8 :=
  0x0c ||| (if includeKeys then 0xf0 else 0) ||| (if includeUnrd then 0x02 else 0)

/-- `Header::copy(include_keys, include_unrd)`: the header's bytes with the
    versions of the sets left out zeroed, and the checksum written again. -/
def Header.copy (compute : List UInt8 → Nat) (ptr : List UInt8) (size : Nat)
    (includeKeys includeUnrd : Bool) : List UInt8 :=
  let lptr := ptr.take size
  let lptr := overwrite lptr v3SetsOff [byteAt lptr v3SetsOff &&& copyMask includeKeys includeUnrd]
  Header.updateChecksum compute lptr (size - v3ChecksumSize)

/-- `WriteSetIn::gather(out, include_keys, include_unrd)`. -/
def WriteSetIn.gather (compute : List UInt8 → Nat) (w : WriteSetIn) (includeKeys includeUnrd : Bool) :
    List UInt8 :=
  if includeKeys ∧ includeUnrd then w.buf
  else
    Header.copy compute w.buf w.hsize includeKeys includeUnrd ++
      (if includeKeys then setBuf w.keys else []) ++ setBuf w.data ++
      (if includeUnrd then setBuf w.unrd else []) ++
      (if w.annotated then setBuf w.annt else [])

/-! ## §5. What a copied header holds -/

/-- The bytes of `Header.copy` that its checksum covers: the header's
    first three bytes, the masked byte 3, and the header's bytes from 4 up
    to the checksum. -/
def Header.copyBody (ptr : List UInt8) (size : Nat) (includeKeys includeUnrd : Bool) : List UInt8 :=
  ptr.take v3SetsOff ++ [byteAt ptr v3SetsOff &&& copyMask includeKeys includeUnrd] ++
    slice ptr (v3SetsOff + 1) (size - v3ChecksumSize - (v3SetsOff + 1))

theorem byteAt_append_of_lt {xs ys : List UInt8} {i : Nat} (h : i < xs.length) :
    byteAt (xs ++ ys) i = byteAt xs i := by
  unfold byteAt
  rw [slice_append_of_le (by omega)]

theorem byteAt_take_of_lt {xs : List UInt8} {i m : Nat} (h : i < m) :
    byteAt (xs.take m) i = byteAt xs i := by
  unfold byteAt
  rw [slice_take_of_le (by omega)]

section Copy

variable {compute : List UInt8 → Nat} {ptr : List UInt8} {size : Nat}

theorem Header.length_copyBody (ik iu : Bool) (hs : 12 ≤ size) (hp : size ≤ ptr.length) :
    (Header.copyBody ptr size ik iu).length = size - v3ChecksumSize := by
  simp only [Header.copyBody, slice, List.length_append, List.length_take, List.length_drop,
    List.length_singleton, v3SetsOff, v3ChecksumSize]
  omega

/-- The spec of `Header::copy`: the body, then its checksum. -/
theorem Header.copy_eq (ik iu : Bool) (hs : 12 ≤ size) (hp : size ≤ ptr.length) :
    Header.copy compute ptr size ik iu =
      Header.copyBody ptr size ik iu ++
        leBytes v3ChecksumSize (compute (Header.copyBody ptr size ik iu)) := by
  have hL0 : (ptr.take size).length = size := List.length_take_of_le hp
  have hx : byteAt (ptr.take size) v3SetsOff = byteAt ptr v3SetsOff :=
    byteAt_take_of_lt (by unfold v3SetsOff; omega)
  -- the masked byte goes over byte 3 of the copy
  have hL1 : overwrite (ptr.take size) v3SetsOff [byteAt ptr v3SetsOff &&& copyMask ik iu] =
      ptr.take v3SetsOff ++ [byteAt ptr v3SetsOff &&& copyMask ik iu] ++
        (ptr.take size).drop (v3SetsOff + 1) := by
    rw [overwrite, List.take_take, Nat.min_eq_left (by unfold v3SetsOff; omega)]
    rfl
  have hlen1 : (ptr.take v3SetsOff ++ [byteAt ptr v3SetsOff &&& copyMask ik iu]).length =
      v3SetsOff + 1 := by
    simp only [List.length_append, List.length_take, List.length_singleton, v3SetsOff]
    omega
  -- the checksum covers all but the last eight bytes
  have htake : (ptr.take v3SetsOff ++ [byteAt ptr v3SetsOff &&& copyMask ik iu] ++
      (ptr.take size).drop (v3SetsOff + 1)).take (size - v3ChecksumSize) =
        Header.copyBody ptr size ik iu := by
    rw [List.take_append, List.take_of_length_le (by rw [hlen1]; unfold v3SetsOff v3ChecksumSize; omega),
      hlen1, Header.copyBody]
    congr 1
    change slice (ptr.take size) (v3SetsOff + 1) _ = _
    rw [slice_take_of_le (by unfold v3SetsOff v3ChecksumSize; omega)]
  have hlen : (ptr.take v3SetsOff ++ [byteAt ptr v3SetsOff &&& copyMask ik iu] ++
      (ptr.take size).drop (v3SetsOff + 1)).length = size := by
    simp only [List.length_append, List.length_take, List.length_singleton, List.length_drop, hL0,
      v3SetsOff]
    omega
  unfold Header.copy Header.updateChecksum
  dsimp only
  rw [hx, hL1, htake, overwrite, htake,
    List.drop_eq_nil_of_le (by rw [hlen, Galera.Bytes.length_leBytes]; unfold v3ChecksumSize; omega),
    List.append_nil]

end Copy

section CopyBytes

variable {ptr : List UInt8} {size : Nat} (ik iu : Bool)

theorem Header.byteAt_copyBody_of_lt (hs : 12 ≤ size) (hp : size ≤ ptr.length) {i : Nat}
    (hi : i < v3SetsOff) : byteAt (Header.copyBody ptr size ik iu) i = byteAt ptr i := by
  have hlen : (ptr.take v3SetsOff).length = v3SetsOff := List.length_take_of_le (by unfold v3SetsOff; omega)
  rw [Header.copyBody, List.append_assoc, byteAt_append_of_lt (by rw [hlen]; exact hi)]
  exact byteAt_take_of_lt hi

theorem Header.setsByte_copyBody (hs : 12 ≤ size) (hp : size ≤ ptr.length) :
    byteAt (Header.copyBody ptr size ik iu) v3SetsOff = byteAt ptr v3SetsOff &&& copyMask ik iu := by
  have hlen : (ptr.take v3SetsOff).length = v3SetsOff := List.length_take_of_le (by unfold v3SetsOff; omega)
  rw [Header.copyBody, byteAt, slice, List.append_assoc, List.drop_left' hlen]
  rfl

theorem Header.slice_copyBody (hs : 12 ≤ size) (hp : size ≤ ptr.length) :
    slice (Header.copyBody ptr size ik iu) (v3SetsOff + 1) (size - v3ChecksumSize - (v3SetsOff + 1)) =
      slice ptr (v3SetsOff + 1) (size - v3ChecksumSize - (v3SetsOff + 1)) := by
  have hlen : (ptr.take v3SetsOff ++ [byteAt ptr v3SetsOff &&& copyMask ik iu]).length = v3SetsOff + 1 := by
    simp only [List.length_append, List.length_take, List.length_singleton, v3SetsOff]
    omega
  have hfield : (slice ptr (v3SetsOff + 1) (size - v3ChecksumSize - (v3SetsOff + 1))).length =
      size - v3ChecksumSize - (v3SetsOff + 1) := by
    simp only [slice, List.length_take, List.length_drop, v3SetsOff, v3ChecksumSize]
    omega
  rw [Header.copyBody, slice, List.drop_left' hlen, List.take_of_length_le (by rw [hfield])]

end CopyBytes

/-! ## §6. The reader on a copied header -/

theorem wsVersion_eq_ok {v : Int} {ver : WsVersion} (h : wsVersion v = .ok ver) : v = ver.toNat := by
  unfold wsVersion at h
  split_ifs at h with h3 h4
  · cases h
    simpa [WsVersion.toNat] using h3
  · cases h
    simpa [WsVersion.toNat] using h4

/-- A version the reader knows comes from a header of this format: the
    magic byte, version nibbles of at least 3, and a header size of at
    least 32. -/
theorem versionOf_magic {buf : List UInt8} {ver : WsVersion} (h : wsVersion (versionOf buf) = .ok ver) :
    4 ≤ buf.length ∧ byteAt buf 0 = magicByte ∧ 3 <<< 4 ||| 3 ≤ (byteAt buf 1).toNat ∧
      32 ≤ (byteAt buf 2).toNat := by
  have hv := wsVersion_eq_ok h
  have hver : 3 ≤ ver.toNat := by cases ver <;> decide
  unfold versionOf at hv
  dsimp only at hv
  split_ifs at hv with h4 hm <;> first
    | exact ⟨h4, hm⟩
    | omega

/-- In a header of this format, the version depends on bytes 0 to 2 only. -/
theorem versionOf_congr {buf buf' : List UInt8} (h4 : 4 ≤ buf'.length)
    (hm : 4 ≤ buf.length ∧ byteAt buf 0 = magicByte ∧ 3 <<< 4 ||| 3 ≤ (byteAt buf 1).toNat ∧
      32 ≤ (byteAt buf 2).toNat)
    (hb : ∀ i < v3SetsOff, byteAt buf' i = byteAt buf i) : versionOf buf' = versionOf buf := by
  have h0 := hb 0 (by decide)
  have h1 := hb 1 (by decide)
  have h2 := hb 2 (by decide)
  unfold versionOf
  dsimp only
  rw [h0, h1, h2, if_pos h4, if_pos hm.1, if_pos hm.2, if_pos hm.2]

/-- The spec of `Header::read_buf`. -/
theorem Header.readBuf_eq_ok {compute : List UInt8 → Nat} {buf : List UInt8} {ver : WsVersion}
    {hsize : Nat} :
    Header.readBuf compute buf = .ok (ver, hsize) ↔
      wsVersion (versionOf buf) = .ok ver ∧ hsize = (byteAt buf v3HeaderSizeOff).toNat ∧
        hsize ≤ buf.length ∧
        compute (buf.take (hsize - v3ChecksumSize)) % 256 ^ v3ChecksumSize =
          ofLeBytes (slice buf (hsize - v3ChecksumSize) v3ChecksumSize) := by
  unfold Header.readBuf
  cases hv : wsVersion (versionOf buf) with
  | error e => simp [bind, Except.bind]
  | ok v =>
    simp only [bind, Except.bind, pure, Except.pure]
    by_cases hlen : buf.length < (byteAt buf v3HeaderSizeOff).toNat
    · simp [hlen]
      omega
    · by_cases hsum : compute (buf.take ((byteAt buf v3HeaderSizeOff).toNat - v3ChecksumSize)) %
          256 ^ v3ChecksumSize =
          ofLeBytes (slice buf ((byteAt buf v3HeaderSizeOff).toNat - v3ChecksumSize) v3ChecksumSize)
      · simp only [hlen, hsum, if_false, ne_eq, not_true_eq_false, Except.ok.injEq, Prod.mk.injEq]
        constructor
        · rintro ⟨rfl, rfl⟩
          exact ⟨rfl, rfl, by omega, hsum⟩
        · rintro ⟨rfl, rfl, -, -⟩
          exact ⟨rfl, rfl⟩
      · simp only [hlen, hsum, if_false, ne_eq, not_false_eq_true, if_true]
        constructor
        · intro h
          cases h
        · rintro ⟨-, rfl, -, h⟩
          exact absurd h hsum

section CopyRead

variable {compute : List UInt8 → Nat} {buf : List UInt8} {ver : WsVersion} {hsize : Nat}

/-- A header the reader accepts is at least 32 bytes long. -/
theorem Header.readBuf_size (h : Header.readBuf compute buf = .ok (ver, hsize)) :
    32 ≤ hsize ∧ hsize ≤ buf.length := by
  obtain ⟨hv, hsz, hlen, -⟩ := Header.readBuf_eq_ok.mp h
  obtain ⟨-, -, -, h32⟩ := versionOf_magic hv
  exact ⟨by rw [hsz]; exact h32, hlen⟩

/-- A copy of an accepted header is accepted, with the same version and
    size, whatever follows it: `Header::copy` writes the checksum again. -/
theorem Header.readBuf_copy (h : Header.readBuf compute buf = .ok (ver, hsize)) (ik iu : Bool)
    (rest : List UInt8) :
    Header.readBuf compute (Header.copy compute buf hsize ik iu ++ rest) = .ok (ver, hsize) := by
  obtain ⟨hv, hsz, hlen, -⟩ := Header.readBuf_eq_ok.mp h
  have hm := versionOf_magic hv
  have hs : 12 ≤ hsize := by have := (Header.readBuf_size h).1; omega
  have hbody := Header.length_copyBody ik iu hs hlen
  have hout : Header.copy compute buf hsize ik iu ++ rest =
      Header.copyBody buf hsize ik iu ++
        (leBytes v3ChecksumSize (compute (Header.copyBody buf hsize ik iu)) ++ rest) := by
    rw [Header.copy_eq ik iu hs hlen, List.append_assoc]
  have hbyte : ∀ i < v3SetsOff, byteAt (Header.copy compute buf hsize ik iu ++ rest) i = byteAt buf i := by
    intro i hi
    rw [hout, byteAt_append_of_lt (by rw [hbody]; unfold v3SetsOff at hi; unfold v3ChecksumSize; omega)]
    exact Header.byteAt_copyBody_of_lt ik iu hs hlen hi
  have houtlen : hsize ≤ (Header.copy compute buf hsize ik iu ++ rest).length := by
    rw [hout]
    simp only [List.length_append, hbody, Galera.Bytes.length_leBytes, v3ChecksumSize]
    omega
  refine Header.readBuf_eq_ok.mpr ⟨?_, ?_, houtlen, ?_⟩
  · rw [versionOf_congr (by have := hm.1; omega) hm hbyte]
    exact hv
  · rw [hbyte v3HeaderSizeOff (by decide)]
    exact hsz
  · -- the checksum covers the body and is stored right after it
    rw [hout, List.take_left' hbody, slice, List.drop_left' hbody,
      List.take_left' (Galera.Bytes.length_leBytes _ _), ofLeBytes_leBytes]

/-- A copied header has the fields of the original, from the flags to the
    checksum. -/
theorem Header.fields_copy (h : Header.readBuf compute buf = .ok (ver, hsize)) (ik iu : Bool)
    (rest : List UInt8) :
    slice (Header.copy compute buf hsize ik iu ++ rest) v3FlagsOff (hsize - v3ChecksumSize - v3FlagsOff) =
      slice buf v3FlagsOff (hsize - v3ChecksumSize - v3FlagsOff) := by
  obtain ⟨-, -, hlen, -⟩ := Header.readBuf_eq_ok.mp h
  have hs : 12 ≤ hsize := by have := (Header.readBuf_size h).1; omega
  have hbody := Header.length_copyBody ik iu hs hlen
  rw [Header.copy_eq ik iu hs hlen, List.append_assoc,
    slice_append_of_le (by rw [hbody]; unfold v3FlagsOff v3ChecksumSize; omega)]
  exact Header.slice_copyBody ik iu hs hlen

/-- Byte 3 of a copied header is the original's under the mask. -/
theorem Header.setsByte_copy (h : Header.readBuf compute buf = .ok (ver, hsize)) (ik iu : Bool)
    (rest : List UInt8) :
    Header.setsByte (Header.copy compute buf hsize ik iu ++ rest) =
      Header.setsByte buf &&& copyMask ik iu := by
  obtain ⟨-, -, hlen, -⟩ := Header.readBuf_eq_ok.mp h
  have hs : 12 ≤ hsize := by have := (Header.readBuf_size h).1; omega
  have hbody := Header.length_copyBody ik iu hs hlen
  rw [Header.setsByte, Header.copy_eq ik iu hs hlen, List.append_assoc,
    byteAt_append_of_lt (by rw [hbody]; unfold v3SetsOff v3ChecksumSize; omega)]
  exact Header.setsByte_copyBody ik iu hs hlen

theorem copyMask_and_annotFlag (ik iu : Bool) : copyMask ik iu &&& v3AnnotFlag = 0 := by
  cases ik <;> cases iu <;> decide

/-- A copied header never announces an annotation: `copy` masks byte 3 with
    a mask that lacks `V3_ANNOT_FLAG`. -/
theorem Header.hasAnnt_copy (h : Header.readBuf compute buf = .ok (ver, hsize)) (ik iu : Bool)
    (rest : List UInt8) :
    Header.hasAnnt (Header.copy compute buf hsize ik iu ++ rest) = false := by
  rw [Header.hasAnnt, Header.setsByte_copy h, UInt8.and_assoc, copyMask_and_annotFlag, UInt8.and_zero]
  rfl

end CopyRead

/-! ## §7. Reading a partial gather back -/

section ReadBack

variable {fastHash32 : List UInt8 → UInt32} {mmh128 : List UInt8 → Nat} {compute : List UInt8 → Nat}

/-- A set that `readSetIf` returns is one the header announced. -/
theorem readSetIf_present {present check : Bool} {payload : List UInt8} {off : Nat}
    {rs : Option RecordSetIn} {off' : Nat}
    (h : readSetIf fastHash32 mmh128 present check payload off = some (rs, off'))
    (hrs : rs.isSome = true) : present = true := by
  unfold readSetIf at h
  split at h
  · assumption
  · cases h
    simp at hrs

/-- `checksum()` reads an annotation only where byte 3 announces one. -/
theorem checksumSets_annt {buf : List UInt8} {hsize : Nat} {keys : Option RecordSetIn}
    {data unrd annt : Option RecordSetIn} {setsEnd : Nat}
    (h : checksumSets fastHash32 mmh128 buf hsize keys = some (data, unrd, annt, setsEnd))
    (hannt : annt.isSome = true) : Header.hasAnnt buf = true := by
  unfold checksumSets at h
  simp only [Option.bind_eq_bind, Option.bind_eq_some_iff] at h
  obtain ⟨off, -, dver, -, h⟩ := h
  split at h
  · -- the data set is there: the annotation is the last of the optional sets
    simp only [Option.bind_eq_some_iff, Option.pure_def, Option.some.injEq, Prod.mk.injEq] at h
    obtain ⟨⟨_, _⟩, -, ⟨_, _⟩, -, ⟨a, _⟩, ha, -, -, rfl, -⟩ := h
    exact readSetIf_present ha hannt
  · simp only [Option.pure_def, Option.some.injEq, Prod.mk.injEq] at h
    obtain ⟨-, -, rfl, -⟩ := h
    simp at hannt

/-- What an accepted write set holds: the buffer it was read from, an
    accepted header, and an annotation only where the header announces one. -/
theorem WriteSetIn.read_eq_ok {buf : List UInt8} {w : WriteSetIn}
    (h : WriteSetIn.read fastHash32 mmh128 compute buf = .ok w) :
    w.buf = buf ∧ Header.readBuf compute buf = .ok (w.ver, w.hsize) ∧
      (w.annotated = true → Header.hasAnnt buf = true) := by
  unfold WriteSetIn.read at h
  cases hhdr : Header.readBuf compute buf with
  | error e => simp [hhdr, bind, Except.bind] at h
  | ok vh =>
    obtain ⟨ver, hsize⟩ := vh
    cases hk : keySetVersion (Header.keysetVer buf) with
    | error e => simp [hhdr, hk, bind, Except.bind] at h
    | ok kver =>
      cases hkeys : readKeys fastHash32 mmh128 kver (buf.drop hsize) with
      | error e => simp [hhdr, hk, hkeys, bind, Except.bind] at h
      | ok keys =>
        simp only [hhdr, hk, hkeys, bind, Except.bind, pure, Except.pure] at h
        -- `checksum()` either passes or throws
        split at h
        · rename_i data unrd annt setsEnd hsets
          cases h
          exact ⟨rfl, rfl, checksumSets_annt hsets⟩
        · cases h

/-- **What reads back from a partial gather has no annotation.**  A
    received write set gathered without its keys or without its unordered
    set starts with `Header::copy`, whose byte 3 never has the annotation
    flag, so `checksum()` does not read the annotation that follows. -/
theorem WriteSetIn.read_gather_annt {buf : List UInt8} {w w' : WriteSetIn}
    (hw : WriteSetIn.read fastHash32 mmh128 compute buf = .ok w) {ik iu : Bool}
    (hpart : ¬(ik = true ∧ iu = true))
    (hw' : WriteSetIn.read fastHash32 mmh128 compute (w.gather compute ik iu) = .ok w') :
    w'.annotated = false := by
  obtain ⟨hbuf, hhdr, -⟩ := WriteSetIn.read_eq_ok hw
  obtain ⟨-, -, hann⟩ := WriteSetIn.read_eq_ok hw'
  have hcopy : Header.hasAnnt (w.gather compute ik iu) = false := by
    rw [WriteSetIn.gather, if_neg hpart, List.append_assoc, List.append_assoc, List.append_assoc]
    rw [← hbuf] at hhdr
    exact Header.hasAnnt_copy hhdr ik iu _
  by_contra hsome
  have := hann (by simpa using hsome)
  rw [hcopy] at this
  cases this

end ReadBack

/-! ## §8. An annotated write set handed on -/

/-- A write set of protocol version 4 without keys, with one data record
    `[1, 2, 3]` and the annotation `[4, 5]`, in VER2 record sets with MMH128
    checksums, as `append_data` and `append_annotation` leave them. -/
def annotatedWriteSet : WriteSetOut :=
  let emptySet := RecordSetOut.create .ver2 (by decide) .checkMmh128
  { ver := .ver4, kver := 4, keys := emptySet,
    data := emptySet.appendAll [⟨[1, 2, 3], true, false, false⟩],
    unrd := emptySet,
    annt := some (emptySet.appendAll [⟨[4, 5], true, false, false⟩]),
    flags := 0 }

/-- What its sender replicates: the buffers of `gather` for source
    `7…7`, connection 5 and transaction 9, after `set_last_seen(3)` at
    time 11. -/
def annotatedBytes (compute : List UInt8 → Nat) (fastHash32 : List UInt8 → UInt32)
    (mmh128 : List UInt8 → Nat) : List UInt8 :=
  let out := annotatedWriteSet.gather fastHash32 mmh128 (List.replicate 16 7) 5 9 false
  Header.setLastSeen compute 11 3 out.1 ++ out.2

/-- With every hash the constant zero, the 128 replicated bytes read back
    as an annotated write set whose last set ends where the bytes do.
    Gathered without keys and unordered set, they read back without the
    annotation, and the last set read ends at byte 96, before the
    annotation's 32 bytes. -/
theorem write_set_gather_drops_annotation :
    (annotatedBytes (fun _ => 0) (fun _ => 0) (fun _ => 0)).length = 128 ∧
      (WriteSetIn.read (fun _ => 0) (fun _ => 0) (fun _ => 0)
        (annotatedBytes (fun _ => 0) (fun _ => 0) (fun _ => 0))).map
          (fun w => (w.annotated, w.setsEnd)) = .ok (true, 128) ∧
      (WriteSetIn.read (fun _ => 0) (fun _ => 0) (fun _ => 0)
        (annotatedBytes (fun _ => 0) (fun _ => 0) (fun _ => 0)) >>= fun w =>
          WriteSetIn.read (fun _ => 0) (fun _ => 0) (fun _ => 0)
            (w.gather (fun _ => 0) false false)).map
        (fun w' => (w'.annotated, w'.setsEnd, w'.buf.length)) = .ok (false, 96, 128) := by
  decide +kernel

end Galera.Cert
