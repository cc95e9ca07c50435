/-
  Galera.Gu.RecordSet
  ───────────────────
  **RECORD SETS (`gu_rset.hpp`, `gu_rset.cpp`).**

  A record set is a header, an optional checksum and the records, one
  after the other.  `RecordSetOut` collects the records in a vector of
  buffers whose first buffer is room for the longest header and the
  checksum; `gather` writes the header at the end of that room, right
  before the records, and hands out the buffers from the header on.  The
  header holds the version and check type, the set's size and record
  count (ULEB128, or for VER2 packed into a short 8-byte header), and a
  CRC of itself; the checksum hashes the records and then the header.
  `RecordSetIn` parses the header back from one contiguous buffer,
  verifies both, and hands out the records one by one with `next()`.

  The hashes, `gu_fast_hash32` and the 128-bit MurmurHash3 of `Hash`, are
  parameters; a stream appended to `Hash` piece by piece is hashed as the
  concatenation of the pieces.  A record is its serialized bytes, and
  `R::serial_size`, which reads a record's size from its bytes, is a
  parameter too.  The allocator's choice between the current page and a
  new one is an argument of `appendBase` and `gather`, and the memory it
  hands out is zeroed.
-/
import Mathlib
import Galera.Gu.Vlq
import Galera.Lib.Bytes

namespace Galera.Gu

open Galera.Bytes (leBytes ofLeBytes overwrite)

/-! ## §1. Versions, check types and sizes -/

/-- `RecordSet::Version`. -/
inductive Version where
  | empty
  | ver1
  | ver2
  deriving DecidableEq, Repr

/-- The version's value, as the upper nibble of the header holds it. -/
def Version.toNat : Version → Nat
  | .empty => 0
  | .ver1 => 1
  | .ver2 => 2

/-- `RecordSet::CheckType`. -/
inductive CheckType where
  | checkNone
  | checkMmh32
  | checkMmh64
  | checkMmh128
  deriving DecidableEq, Repr

/-- The check type's value, as the lower bits of the header hold it. -/
def CheckType.toNat : CheckType → Nat
  | .checkNone => 0
  | .checkMmh32 => 1
  | .checkMmh64 => 2
  | .checkMmh128 => 3

/-- `RecordSet::check_size(ct)`. -/
def checkSize : CheckType → Nat
  | .checkNone => 0
  | .checkMmh32 => 4
  | .checkMmh64 => 8
  | .checkMmh128 => 16

/-- `GU_ALIGN(S, A)`, for `S ≥ 1` as at every call modelled here. -/
def guAlign (s a : Nat) : Nat := ((s - 1) / a + 1) * a

/-- `RecordSet::VER2_ALIGNMENT`, that is `GU_MIN_ALIGNMENT`. -/
def ver2Alignment : Nat := 8

/-- `VER1_2_CRC_SIZE`. -/
def ver12CrcSize : Nat := 4

/-- `rset_alignment(ver)`. -/
def rsetAlignment (ver : Version) : Nat := if ver = .ver2 then ver2Alignment else 1

/-- `header_size_max_v1()`: the version byte, size and count in nine
    bytes each at most, the CRC. -/
def headerSizeMaxV1 : Nat := 1 + 9 + 9 + ver12CrcSize

/-- `header_size_max_v2()`: as VER1, with a byte of alignment padding. -/
def headerSizeMaxV2 : Nat := 1 + 9 + 9 + 1 + ver12CrcSize

/-- `ver_byte` of the header: the version in the upper four bits, the
    check type in the lower three. -/
def versionByte (ver : Version) (ct : CheckType) : Nat := ver.toNat <<< 4 ||| (ct.toNat &&& 0x07)

/-- `header_size_max()` of a writer's version; for `EMPTY` the source
    aborts, and no writer has it. -/
def headerSizeMaxOf : (ver : Version) → ver ≠ .empty → Nat
  | .ver1, _ => headerSizeMaxV1
  | .ver2, _ => headerSizeMaxV2
  | .empty, h => absurd rfl h

/-! ## §2. The header's size -/

/-- One round of `header_size_v1_2`: the header that encodes `size` and
    `count`, aligned for VER2. -/
def newHeaderSize (ver2 : Bool) (count size : Nat) : Nat :=
  let newHsize := 1 + uleb128Size size + uleb128Size count + ver12CrcSize
  if ver2 then guAlign newHsize ver2Alignment else newHsize

/-- The loop of `header_size_v1_2`: the header and the set shrink
    together until the header encodes the size it leaves. -/
def headerSizeV12Loop (ver2 : Bool) (count : Nat) : Nat → Nat → Nat → Nat
  | 0, _, hsize => hsize
  | fuel + 1, size, hsize =>
    let newHsize := newHeaderSize ver2 count size
    if newHsize = hsize then hsize
    else headerSizeV12Loop ver2 count fuel (size - (hsize - newHsize)) newHsize

/-- `header_size_v1_2<VER2>(size, count)`; the header loses a byte at
    least each round, from 24 bytes at most. -/
def headerSizeV12 (ver2 : Bool) (size count : Nat) : Nat :=
  headerSizeV12Loop ver2 count 24 size (if ver2 then headerSizeMaxV2 else headerSizeMaxV1)

/-- `header_size_v1(size, count)`. -/
def headerSizeV1 (size count : Nat) : Nat := headerSizeV12 false size count

/-- `VER2_COUNT_SIZE_LEN`: the bits of a short header for count and size. -/
def ver2CountSizeLen : Nat := 24

/-- `VER2_COUNT_LEN`. -/
def ver2CountLen : Nat := (ver2CountSizeLen - 4) / 2

/-- `VER2_COUNT_MAX`. -/
def ver2CountMax : Nat := 1 <<< ver2CountLen

/-- `VER2_COUNT_OFF`. -/
def ver2CountOff : Nat := 8

/-- `VER2_COUNT_MASK`. -/
def ver2CountMask : Nat := (ver2CountMax - 1) <<< ver2CountOff

/-- `VER2_SIZE_LEN`. -/
def ver2SizeLen : Nat := ver2CountSizeLen - ver2CountLen

/-- `VER2_SIZE_MAX`. -/
def ver2SizeMax : Nat := 1 <<< ver2SizeLen

/-- `VER2_SIZE_OFF`. -/
def ver2SizeOff : Nat := ver2CountOff + ver2CountLen

/-- `VER2_SIZE_MASK`. -/
def ver2SizeMask : Nat := (ver2SizeMax - 1) <<< ver2SizeOff

/-- `VER2_COUNT(h)`. -/
def ver2Count (h : Nat) : Nat := ((h &&& ver2CountMask) >>> ver2CountOff) + 1

/-- `VER2_SIZE(h)`. -/
def ver2Size (h : Nat) : Nat := ((h &&& ver2SizeMask) >>> ver2SizeOff) + 1

/-- `VER2_REDUCTION`: what the short header saves. -/
def ver2Reduction : Nat := 2 * ver2Alignment

/-- `VER2_SHORT_FLAG`. -/
def ver2ShortFlag : Nat := 0x08

/-- `header_size_v2(size, count)`: the short header where count and size
    fit in it. -/
def headerSizeV2 (size count : Nat) : Nat :=
  if count ≤ ver2CountMax ∧ size - ver2Reduction ≤ ver2SizeMax then headerSizeMaxV2 - ver2Reduction
  else headerSizeV12 true size count

/-! ## §3. The writer -/

/-- `bufs_->back().size += size`: the bytes go on at the end of the last
    buffer. -/
def growBack : List (List UInt8) → List UInt8 → List (List UInt8)
  | [], _ => []
  | [b], bytes => [b ++ bytes]
  | b :: bs, bytes => b :: growBack bs bytes

/-- `post_alloc(new_page, ptr, size)`: bytes on a new page are a new
    buffer. -/
def postAlloc (bufs : List (List UInt8)) (newPage : Bool) (bytes : List UInt8) : List (List UInt8) :=
  if newPage then bufs ++ [bytes] else growBack bufs bytes

theorem growBack_ne_nil : ∀ {bufs : List (List UInt8)} (bytes : List UInt8), bufs ≠ [] →
    growBack bufs bytes ≠ []
  | [], _, h => absurd rfl h
  | [_], _, _ => List.cons_ne_nil _ _
  | _ :: _ :: _, _, _ => List.cons_ne_nil _ _

theorem postAlloc_ne_nil {bufs : List (List UInt8)} (newPage : Bool) (bytes : List UInt8)
    (h : bufs ≠ []) : postAlloc bufs newPage bytes ≠ [] := by
  unfold postAlloc
  split
  · simp
  · exact growBack_ne_nil bytes h

/-- `RecordSetOutBase`: a writer of VER1 or VER2, whose buffer vector
    always holds the header's room. -/
structure RecordSetOut where
  version : Version
  checkType : CheckType
  /-- `size_`: the header's room, the checksum and the records. -/
  size : Nat
  count : Nat
  /-- `bufs_`, each buffer by its bytes. -/
  bufs : List (List UInt8)
  /-- The bytes appended to `check_`. -/
  check : List UInt8
  prevStored : Bool
  version_ne : version ≠ .empty
  bufs_ne : bufs ≠ []

namespace RecordSetOut

/-- `RecordSetOutBase(reserved, reserved_size, base_name, ct, version)`:
    the first buffer is room for the longest header and the checksum. -/
def create (version : Version) (hver : version ≠ .empty) (ct : CheckType) : RecordSetOut :=
  let size := headerSizeMaxOf version hver + checkSize ct
  { version
    checkType := ct
    size
    count := 0
    bufs := [List.replicate size 0]
    check := []
    prevStored := true
    version_ne := hver
    bufs_ne := List.cons_ne_nil _ _ }

/-- `header_size_max()`. -/
def headerSizeMax (rs : RecordSetOut) : Nat := headerSizeMaxOf rs.version rs.version_ne

/-- `header_size()`. -/
def headerSize (rs : RecordSetOut) : Nat :=
  match rs.version with
  | .ver1 => headerSizeV1 rs.size rs.count
  | .ver2 => headerSizeV2 rs.size rs.count
  | .empty => 0

/-- `serial_size()`: the size padded to the alignment. -/
def serialSize (rs : RecordSetOut) : Nat := guAlign rs.size (rsetAlignment rs.version)

/-- `post_append(new_page, ptr, size)`. -/
def postAppend (rs : RecordSetOut) (newPage : Bool) (bytes : List UInt8) : RecordSetOut :=
  { rs with
    check := rs.check ++ bytes
    bufs := postAlloc rs.bufs newPage bytes
    bufs_ne := postAlloc_ne_nil newPage bytes rs.bufs_ne }

/-- `alloc(size, new_page)`: a new page where the allocator opens one, or
    where the last record was referenced. -/
def allocNewPage (rs : RecordSetOut) (allocatorNewPage : Bool) : Bool :=
  allocatorNewPage || !rs.prevStored

/-- `append_base(record, store, new_record)`: `process` copies a stored
    record into memory from `alloc`, while a referenced one stays where
    it is, a buffer of its own. -/
def appendBase (rs : RecordSetOut) (record : List UInt8) (store newRecord allocatorNewPage : Bool) :
    RecordSetOut :=
  let newPage := if store then rs.allocNewPage allocatorNewPage else true
  let rs := { rs with
    prevStored := store
    count := rs.count + (if newRecord || rs.count = 0 then 1 else 0) }
  let rs := rs.postAppend newPage record
  { rs with size := rs.size + record.length }

/-- The ULEB128 body of `write_header` from `off` on: the version byte,
    the size, the count. -/
def writeSizeCount (size count verByte off : Nat) (buf : List UInt8) : List UInt8 :=
  let buf := overwrite buf off [UInt8.ofNat verByte]
  let off := off + 1
  let sizeBytes := uleb128Encode size
  let buf := overwrite buf off sizeBytes
  overwrite buf (off + sizeBytes.length) (uleb128Encode count)

/-- The word of a short VER2 header, a `uint32_t` of which `serialize4`
    stores the four bytes. -/
def ver2ShortHeader (size count verByte : Nat) : Nat :=
  ((size - 1) <<< ver2SizeOff ||| (count - 1) <<< ver2CountOff) ||| (verByte ||| ver2ShortFlag)

/-- The `switch (version())` of `write_header`, with the header at `off`. -/
def writeBody (rs : RecordSetOut) (verByte hdrSize off : Nat) (buf : List UInt8) : List UInt8 :=
  match rs.version with
  | .ver2 =>
    if ver2Reduction = off then overwrite buf off (leBytes 4 (ver2ShortHeader rs.size rs.count verByte))
    else
      -- zero up the padding bytes, then fall through to the ULEB128 body
      writeSizeCount rs.size rs.count verByte off (overwrite buf (off + 4) (List.replicate (hdrSize - 8) 0))
  | .ver1 => writeSizeCount rs.size rs.count verByte off buf
  | .empty => buf

/-- The end of `write_header`: the CRC of the header's body after it, and
    for a checked set the checksum of the records and the header after
    the header. -/
def writeTrailer (fastHash32 : List UInt8 → UInt32) (mmh128 : List UInt8 → Nat)
    (rs : RecordSetOut) (hdrSize hdrOffset : Nat) (buf : List UInt8) : RecordSetOut × List UInt8 :=
  -- the CRC goes after the VER2 padding
  let off := hdrOffset + hdrSize - ver12CrcSize
  let crc := fastHash32 ((buf.drop hdrOffset).take (off - hdrOffset))
  let buf := overwrite buf off (leBytes 4 crc.toNat)
  let off := off + 4
  if rs.checkType ≠ .checkNone then
    let check := rs.check ++ (buf.drop hdrOffset).take (off - hdrOffset)
    ({ rs with check }, overwrite buf off ((leBytes 16 (mmh128 check)).take (checkSize rs.checkType)))
  else (rs, buf)

/-- `write_header(buf, size)` on the first buffer: the writer, the
    buffer written, and the header's offset in it. -/
def writeHeader (fastHash32 : List UInt8 → UInt32) (mmh128 : List UInt8 → Nat)
    (rs : RecordSetOut) (buf : List UInt8) : RecordSetOut × List UInt8 × Nat :=
  let hdrSize := rs.headerSize
  let hdrOffset := rs.headerSizeMax - hdrSize
  let rs := { rs with size := rs.size - hdrOffset }
  let buf := rs.writeBody (versionByte rs.version rs.checkType) hdrSize hdrOffset buf
  let written := rs.writeTrailer fastHash32 mmh128 hdrSize hdrOffset buf
  (written.1, written.2, hdrOffset)

/-- The VER2 padding of `gather`: zero bytes up to a multiple of
    `VER2_ALIGNMENT`, hashed and sent, while `size_` stays. -/
def padVer2 (rs : RecordSetOut) (allocatorNewPage : Bool) : RecordSetOut × Nat :=
  if rs.version = .ver2 ∧ rs.size % ver2Alignment ≠ 0 then
    let padSize := ver2Alignment - rs.size % ver2Alignment
    (rs.postAppend (rs.allocNewPage allocatorNewPage) (List.replicate padSize 0), padSize)
  else (rs, 0)

/-- `gather(out)`: the writer, the buffers handed out, and the bytes in
    them. -/
def gather (fastHash32 : List UInt8 → UInt32) (mmh128 : List UInt8 → Nat)
    (rs : RecordSetOut) (allocatorNewPage : Bool) : RecordSetOut × List (List UInt8) × Nat :=
  if rs.count ≠ 0 then
    let padded := rs.padVer2 allocatorNewPage
    match h : padded.1.bufs with
    | [] => absurd h padded.1.bufs_ne
    | front :: rest =>
      let written := padded.1.writeHeader fastHash32 mmh128 front
      let bufs := written.2.1.drop written.2.2 :: rest
      ({ written.1 with bufs, bufs_ne := List.cons_ne_nil _ _ }, bufs, written.1.size + padded.2)
  else (rs, [], 0)

/-- One `append(src, size, store, new_record)`, with the allocator's
    choice of page. -/
structure Append where
  record : List UInt8
  store : Bool
  newRecord : Bool
  allocatorNewPage : Bool

/-- The appends one after the other. -/
def appendAll (rs : RecordSetOut) (ops : List Append) : RecordSetOut :=
  ops.foldl (fun rs op => rs.appendBase op.record op.store op.newRecord op.allocatorNewPage) rs

end RecordSetOut

/-! ## §4. The reader -/

/-- What `RecordSetIn` throws. -/
inductive RsetError where
  /-- `EPROTO`, "Unsupported RecordSet version". -/
  | unsupportedVersion
  /-- `EPROTO`, "Unsupported RecordSet checksum type". -/
  | unsupportedCheckType
  /-- What `uleb128_decode` throws: `EINVAL`, `EOVERFLOW` or a fatal
      error. -/
  | vlq
  /-- `EPROTO`, "RecordSet size ... exceeds buffer size". -/
  | sizeExceedsBuffer
  /-- `EPROTO`, "Corrupted RecordSet header: count ... exceeds size". -/
  | countExceedsSize
  /-- `EPROTO`, "RecordSet header CRC mismatch". -/
  | headerCrcMismatch
  /-- `EINVAL`, "RecordSet checksum does not match". -/
  | checksumMismatch
  /-- `E_PERM`: `EPERM`, "Access beyond record set end." -/
  | ePerm
  /-- `E_FAULT`: `EFAULT`, "Corrupted record set: record extends ...
      beyond set boundary". -/
  | eFault
  deriving DecidableEq, Repr

/-- `header_version(buf, size)`; a zero nibble passes `assert(ver > 0)`
    as `EMPTY`. -/
def headerVersion (b0 : UInt8) : Except RsetError Version :=
  let ver := (b0.toNat &&& 0xf0) >>> 4
  if ver = 0 then .ok .empty
  else if ver = 1 then .ok .ver1
  else if ver = 2 then .ok .ver2
  else .error .unsupportedVersion

/-- `header_check_type(ver, ptr, size)`; VER2 has no MMH32. -/
def headerCheckType (ver : Version) (b0 : UInt8) : Except RsetError CheckType :=
  match ver with
  | .empty => .ok .checkNone
  | _ =>
    let ct := b0.toNat &&& 0x07
    if ct = 0 then .ok .checkNone
    else if ct = 1 then (if ver = .ver2 then .error .unsupportedCheckType else .ok .checkMmh32)
    else if ct = 2 then .ok .checkMmh64
    else if ct = 3 then .ok .checkMmh128
    else .error .unsupportedCheckType

/-- `RecordSet::init(ptr, size)`: version and check type from the first
    byte of a non-empty buffer. -/
def initVersion : List UInt8 → Except RsetError (Version × CheckType)
  | [] => .ok (.empty, .checkNone)
  | b0 :: _ =>
    match headerVersion b0 with
    | .error e => .error e
    | .ok ver => (headerCheckType ver b0).map (ver, ·)

/-- The `int` whose 32 bits `uleb128_decode` reads a count into. -/
def int32OfBits (c : Nat) : Int := if c < 2 ^ 31 then c else (c : Int) - 2 ^ 32

/-- `static_cast<size_t>` of an `int`. -/
def sizeTOfInt (x : Int) : Nat := (x % 2 ^ 64).toNat

/-- `read_size_count_v1_2(head_, size, off, size_, count_)`: the size
    into an `ssize_t`, the count into an `int`, and the offset past them. -/
def readSizeCountV12 (head : List UInt8) (off : Nat) : Option (Nat × Int × Nat) :=
  match uleb128Decode head 64 off with
  | none => none
  | some (size, off) =>
    match uleb128Decode head 32 off with
    | none => none
    | some (count, off) => some (size, int32OfBits count, off)

/-- `read_size_count_v2_short(head_, size_, count_)`. -/
def readSizeCountV2Short (head : List UInt8) : Nat × Int × Nat :=
  let h := ofLeBytes (head.take 4)
  (ver2Size h, ver2Count h, 4)

/-- The size, the count and the CRC's offset, from the short or the long
    header. -/
def headerSizeCount (head : List UInt8) (ver : Version) : Except RsetError (Nat × Int × Nat) :=
  if ver = .ver2 ∧ (head.getD 0 0).toNat &&& ver2ShortFlag ≠ 0 then .ok (readSizeCountV2Short head)
  else
    match readSizeCountV12 head 1 with
    | none => .error .vlq
    | some (size, count, off) =>
      -- the end of the header, aligned, less the CRC
      .ok (size, count, guAlign (off + ver12CrcSize) (rsetAlignment ver) - ver12CrcSize)

/-- `parse_header_v1_2(size)`: the size, the count and `begin_`, the
    offset of the first record, past the header's CRC and the checksum. -/
def parseHeaderV12 (fastHash32 : List UInt8 → UInt32) (head : List UInt8) (ver : Version)
    (ct : CheckType) : Except RsetError (Nat × Int × Nat) :=
  match headerSizeCount head ver with
  | .error e => .error e
  | .ok (size, count, off) =>
    if head.length < size then .error .sizeExceedsBuffer
    else if size < sizeTOfInt count then .error .countExceedsSize
    else if (fastHash32 (head.take off)).toNat ≠ ofLeBytes ((head.drop off).take 4) then
      .error .headerCrcMismatch
    else .ok (size, count, off + ver12CrcSize + checkSize ct)

/-- `RecordSetInBase`: the buffer, the parsed header, and `next_`. -/
structure RecordSetIn where
  head : List UInt8
  version : Version
  checkType : CheckType
  size : Nat
  count : Int
  begin : Nat
  /-- `next_`: the offset of the next record. -/
  nextOff : Nat
  deriving DecidableEq, Repr

namespace RecordSetIn

/-- `serial_size()`. -/
def serialSize (rs : RecordSetIn) : Nat := guAlign rs.size (rsetAlignment rs.version)

/-- `checksum()`: the hash of the records and then of the header, against
    the checksum stored between them. -/
def checksum (mmh128 : List UInt8 → Nat) (rs : RecordSetIn) : Except RsetError Unit :=
  let cs := checkSize rs.checkType
  if 0 < cs then
    let result := leBytes 16 (mmh128 ((rs.head.drop rs.begin).take (rs.serialSize - rs.begin) ++
      rs.head.take (rs.begin - cs)))
    if result.take cs ≠ (rs.head.drop (rs.begin - cs)).take cs then .error .checksumMismatch
    else .ok ()
  else .ok ()

/-- `RecordSetInBase(ptr, size, check_now)`. -/
def init (fastHash32 : List UInt8 → UInt32) (mmh128 : List UInt8 → Nat) (buf : List UInt8)
    (checkNow : Bool) : Except RsetError RecordSetIn :=
  match initVersion buf with
  | .error e => .error e
  | .ok (.empty, ct) => .ok ⟨buf, .empty, ct, 0, 0, 0, 0⟩
  | .ok (ver, ct) =>
    match parseHeaderV12 fastHash32 buf ver ct with
    | .error e => .error e
    | .ok (size, count, begin) =>
      let rs : RecordSetIn := ⟨buf, ver, ct, size, count, begin, 0⟩
      match (if checkNow then rs.checksum mmh128 else .ok ()) with
      | .error e => .error e
      | .ok () => .ok { rs with nextOff := begin }

/-- `next(Buf&)`: the record at `next_`, its size as `R::serial_size`
    reads it from the bytes left. -/
def next (serialSize : List UInt8 → Nat) (rs : RecordSetIn) : Except RsetError (List UInt8 × RecordSetIn) :=
  if rs.nextOff < rs.size then
    let nextSize := serialSize ((rs.head.drop rs.nextOff).take (rs.size - rs.nextOff))
    if rs.nextOff + nextSize ≤ rs.size then
      .ok ((rs.head.drop rs.nextOff).take nextSize, { rs with nextOff := rs.nextOff + nextSize })
    else .error .eFault
  else .error .ePerm

/-- `n` calls of `next()`: the records they return, in order. -/
def nextN (serialSize : List UInt8 → Nat) : Nat → RecordSetIn → Except RsetError (List (List UInt8) × RecordSetIn)
  | 0, rs => .ok ([], rs)
  | n + 1, rs =>
    match rs.next serialSize with
    | .error e => .error e
    | .ok (r, rs) =>
      match nextN serialSize n rs with
      | .error e => .error e
      | .ok (rest, rs) => .ok (r :: rest, rs)

end RecordSetIn

end Galera.Gu
