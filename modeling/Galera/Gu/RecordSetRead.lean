/-
  Galera.Gu.RecordSetRead
  ───────────────────────
  **A GATHERED RECORD SET READS BACK.**

  `RecordSetIn` on the bytes `RecordSetOut::gather` hands out (as
  `RecordSetRoundTrip` describes them) parses, verifies and reads back
  what the writer appended:

    * §1 the first byte gives the version and check type, and the short
      VER2 word or the ULEB128 body gives the size and count back
      (`HeaderFits.headerSizeCount_header`);
    * §2 `parse_header_v1_2` passes its checks, `checksum()` finds the
      checksum the writer stored, and `init` succeeds;
    * §3 `next()` returns each self-delimiting record in turn, then
      `E_PERM`;
    * §4 the round trip itself (`gather_read_back`).
-/
import Mathlib
import Galera.Gu.RecordSetRoundTrip

namespace Galera.Gu

open Galera.Bytes (leBytes ofLeBytes)

/-! ## §1. The header read back -/

/-! ### The short VER2 header -/

section Short

variable {size count verByte : Nat}

open RecordSetOut in
/-- The short header word: size, count and version byte side by side. -/
theorem ver2ShortHeader_eq (hc : 1 ≤ count) (hC : count ≤ 1024)
    (hvb : verByte ||| ver2ShortFlag < 2 ^ 8) :
    ver2ShortHeader size count verByte = 2 ^ 18 * (size - 1) + (2 ^ 8 * (count - 1) + (verByte ||| ver2ShortFlag)) := by
  have h8 : (2 : Nat) ^ 8 = 256 := rfl
  have h18 : (2 : Nat) ^ 18 = 262144 := rfl
  have hlow : (count - 1) * 2 ^ 8 ||| (verByte ||| ver2ShortFlag) =
      2 ^ 8 * (count - 1) + (verByte ||| ver2ShortFlag) := by
    rw [Nat.mul_comm, Nat.two_pow_add_eq_or_of_lt hvb]
  have hlt : 2 ^ 8 * (count - 1) + (verByte ||| ver2ShortFlag) < 2 ^ 18 := by omega
  unfold ver2ShortHeader
  rw [Nat.or_assoc, show ver2SizeOff = 18 from rfl, show ver2CountOff = 8 from rfl, Nat.shiftLeft_eq,
    Nat.shiftLeft_eq, hlow, Nat.mul_comm (size - 1), Nat.two_pow_add_eq_or_of_lt hlt]

/-- `VER2_SIZE` reads the size back. -/
theorem ver2Size_eq {a r : Nat} (ha : a < 2 ^ 14) (hr : r < 2 ^ 18) : ver2Size (2 ^ 18 * a + r) = a + 1 := by
  have hdiv : (2 ^ 18 * a + r) / 2 ^ 18 = a := by
    rw [Nat.mul_comm, Nat.add_comm, Nat.add_mul_div_right _ _ (Nat.two_pow_pos 18), Nat.div_eq_of_lt hr,
      Nat.zero_add]
  unfold ver2Size
  rw [show ver2SizeMask = (2 ^ 14 - 1) <<< 18 from rfl, show ver2SizeOff = 18 from rfl,
    Galera.Bytes.and_mask_shiftRight, hdiv, Nat.mod_eq_of_lt ha]

/-- `VER2_COUNT` reads the count back. -/
theorem ver2Count_eq {a c y : Nat} (hc : c < 2 ^ 10) (hy : y < 2 ^ 8) :
    ver2Count (2 ^ 18 * a + (2 ^ 8 * c + y)) = c + 1 := by
  have hdiv : (2 ^ 18 * a + (2 ^ 8 * c + y)) / 2 ^ 8 = c + 2 ^ 10 * a := by
    rw [show 2 ^ 18 * a + (2 ^ 8 * c + y) = y + (c + 2 ^ 10 * a) * 2 ^ 8 by
        simp only [show (2 : Nat) ^ 18 = 262144 from rfl, show (2 : Nat) ^ 10 = 1024 from rfl,
          show (2 : Nat) ^ 8 = 256 from rfl]
        omega,
      Nat.add_mul_div_right _ _ (Nat.two_pow_pos 8), Nat.div_eq_of_lt hy, Nat.zero_add]
  unfold ver2Count
  rw [show ver2CountMask = (2 ^ 10 - 1) <<< 8 from rfl, show ver2CountOff = 8 from rfl,
    Galera.Bytes.and_mask_shiftRight, hdiv, Nat.add_mul_mod_self_left, Nat.mod_eq_of_lt hc]

end Short

/-! ### The first byte -/

theorem versionByte_or_lt (ver : Version) (ct : CheckType) : versionByte ver ct ||| ver2ShortFlag < 2 ^ 8 := by
  cases ver <;> cases ct <;> decide

/-- The version byte has no short-header flag. -/
theorem versionByte_flag (ver : Version) (ct : CheckType) :
    (UInt8.ofNat (versionByte ver ct)).toNat &&& ver2ShortFlag = 0 := by
  cases ver <;> cases ct <;> decide

theorem versionByte_or_flag (ct : CheckType) :
    (UInt8.ofNat (versionByte .ver2 ct ||| ver2ShortFlag)).toNat &&& ver2ShortFlag ≠ 0 := by
  cases ct <;> decide

/-- The reader takes version and check type from the version byte, for
    every check type the version admits. -/
theorem initVersion_versionByte {ver : Version} {ct : CheckType} (hver : ver ≠ .empty)
    (hct : ¬ (ver = .ver2 ∧ ct = .checkMmh32)) (rest : List UInt8) :
    initVersion (UInt8.ofNat (versionByte ver ct) :: rest) = .ok (ver, ct) := by
  cases ver <;> cases ct <;> first | exact absurd rfl hver | exact absurd ⟨rfl, rfl⟩ hct | rfl

/-- The same from the short header's first byte. -/
theorem initVersion_short {ct : CheckType} (hct : ct ≠ .checkMmh32) (rest : List UInt8) :
    initVersion (UInt8.ofNat (versionByte .ver2 ct ||| ver2ShortFlag) :: rest) = .ok (.ver2, ct) := by
  cases ct <;> first | exact absurd rfl hct | rfl

/-! ### Size and count -/

theorem int32OfBits_of_lt {c : Nat} (h : c < 2 ^ 31) : int32OfBits c = c := if_pos h

theorem sizeTOfInt_natCast {n : Nat} (h : n < 2 ^ 64) : sizeTOfInt n = n := by
  unfold sizeTOfInt
  rw [Int.emod_eq_of_lt (by omega) (by omega)]
  simp

open RecordSetOut in
/-- The low byte of the short header is the version byte and the flag. -/
theorem ver2ShortHeader_mod {size count : Nat} (ct : CheckType) (hc1 : 1 ≤ count) (hc : count ≤ 1024) :
    ver2ShortHeader size count (versionByte .ver2 ct) % 256 = versionByte .ver2 ct ||| ver2ShortFlag := by
  have hy := versionByte_or_lt .ver2 ct
  have hy' : versionByte .ver2 ct ||| ver2ShortFlag < 256 := hy
  rw [ver2ShortHeader_eq hc1 hc hy, show (2 : Nat) ^ 18 = 256 * 1024 from rfl, show (2 : Nat) ^ 8 = 256 from rfl,
    Nat.mul_assoc, Nat.mul_add_mod, Nat.mul_add_mod, Nat.mod_eq_of_lt hy']

open RecordSetOut in
/-- The short header reads back as the size and count it packs, with the
    CRC right after its word. -/
theorem headerSizeCount_short {size count : Nat} (ct : CheckType) (hs1 : 1 ≤ size) (hs : size ≤ ver2SizeMax)
    (hc1 : 1 ≤ count) (hc : count ≤ ver2CountMax) (tail : List UInt8) :
    headerSizeCount (leBytes 4 (ver2ShortHeader size count (versionByte .ver2 ct)) ++ tail) .ver2 =
      .ok (size, count, 4) := by
  rw [ver2SizeMax_eq] at hs
  rw [ver2CountMax_eq] at hc
  have hy := versionByte_or_lt .ver2 ct
  have hw : ver2ShortHeader size count (versionByte .ver2 ct) = _ := ver2ShortHeader_eq hc1 hc hy
  have hlt : ver2ShortHeader size count (versionByte .ver2 ct) < 256 ^ 4 := by
    rw [hw]
    simp only [show (2 : Nat) ^ 18 = 262144 from rfl, show (2 : Nat) ^ 8 = 256 from rfl] at hy ⊢
    omega
  have hbyte : (leBytes 4 (ver2ShortHeader size count (versionByte .ver2 ct)) ++ tail).getD 0 0 =
      UInt8.ofNat (versionByte .ver2 ct ||| ver2ShortFlag) := by
    simp only [leBytes, List.cons_append, List.getD_cons_zero, ver2ShortHeader_mod ct hc1 hc]
  unfold headerSizeCount readSizeCountV2Short
  rw [if_pos ⟨rfl, hbyte ▸ versionByte_or_flag ct⟩, List.take_left' (Galera.Bytes.length_leBytes 4 _),
    Galera.Bytes.ofLeBytes_leBytes_of_lt hlt, hw]
  dsimp only
  rw [ver2Size_eq (by omega) (by omega), ver2Count_eq (by omega) hy, Nat.sub_add_cancel hs1,
    Nat.sub_add_cancel hc1]

/-- The long header reads back as the size and count it encodes, with the
    CRC at the end of the aligned header. -/
theorem headerSizeCount_long (ver : Version) (ct : CheckType) {size count : Nat} (hs : size < 2 ^ 64)
    (hc : count < 2 ^ 31) (tail : List UInt8) :
    headerSizeCount (UInt8.ofNat (versionByte ver ct) :: (uleb128Encode size ++ (uleb128Encode count ++ tail))) ver =
      .ok (size, count,
        guAlign (1 + uleb128Size size + uleb128Size count + ver12CrcSize) (rsetAlignment ver) - ver12CrcSize) := by
  -- the first byte has no short flag, whatever the version
  have hlong : ¬ (ver = .ver2 ∧ ((UInt8.ofNat (versionByte ver ct) :: (uleb128Encode size ++ (uleb128Encode count ++
      tail))).getD 0 0).toNat &&& ver2ShortFlag ≠ 0) := fun h => h.2 (versionByte_flag ver ct)
  have hsize := uleb128Decode_encode [UInt8.ofNat (versionByte ver ct)] (uleb128Encode count ++ tail)
    (Nat.le_refl 64) hs
  have hcount := uleb128Decode_encode ([UInt8.ofNat (versionByte ver ct)] ++ uleb128Encode size) tail
    (show 32 ≤ 64 by decide) (show count < 2 ^ 32 by omega)
  rw [List.length_singleton, List.append_assoc, List.singleton_append] at hsize
  rw [List.length_append, List.length_singleton, length_uleb128Encode, List.append_assoc, List.append_assoc,
    List.singleton_append] at hcount
  unfold headerSizeCount readSizeCountV12
  rw [if_neg hlong, hsize]
  dsimp only
  rw [hcount]
  dsimp only
  rw [int32OfBits_of_lt hc]

/-! ### The writer's header -/

namespace RecordSetOut

section Header

variable (fastHash32 : List UInt8 → UInt32) {rs : RecordSetOut}

theorem HeaderFits.length_header (h : rs.HeaderFits) : (rs.header fastHash32).length = rs.headerSize := by
  have hbody := h.length_body
  unfold ver12CrcSize at hbody
  simp only [header, headerWithCrc, List.length_append, Galera.Bytes.length_leBytes]
  exact hbody

/-- The short header: its word, and the word's CRC. -/
theorem header_of_short (hs : rs.version = .ver2 ∧ ver2Reduction = rs.hdrOffset) :
    rs.header fastHash32 = headerWithCrc fastHash32
      (leBytes 4 (ver2ShortHeader (rs.size - rs.hdrOffset) rs.count (versionByte .ver2 rs.checkType))) := by
  unfold header
  rw [decide_eq_true hs, hs.1]
  rfl

/-- The long header: the version byte, the size and count in ULEB128, the
    zeros up to the CRC, and the CRC. -/
theorem header_of_long (hs : ¬ (rs.version = .ver2 ∧ ver2Reduction = rs.hdrOffset)) :
    rs.header fastHash32 = headerWithCrc fastHash32
      (UInt8.ofNat (versionByte rs.version rs.checkType) :: (uleb128Encode (rs.size - rs.hdrOffset) ++
        (uleb128Encode rs.count ++ List.replicate (rs.headerSize - ver12CrcSize -
          (1 + uleb128Size (rs.size - rs.hdrOffset) + uleb128Size rs.count)) 0))) := by
  unfold header
  rw [decide_eq_false hs]
  simp only [headerBody, Bool.false_eq_true, if_false, List.append_assoc, List.cons_append, List.nil_append]

/-- The header the writer settles on opens with the version and check
    type it was made with. -/
theorem HeaderFits.initVersion_header (h : rs.HeaderFits) (hct : ¬ (rs.version = .ver2 ∧ rs.checkType = .checkMmh32))
    (tail : List UInt8) : initVersion (rs.header fastHash32 ++ tail) = .ok (rs.version, rs.checkType) := by
  by_cases hs : rs.version = .ver2 ∧ ver2Reduction = rs.hdrOffset
  · -- the short header: the flag is set in the low byte of its word
    obtain ⟨-, -, -, hc1, hc⟩ := h.short hs.1 hs.2
    rw [ver2CountMax_eq] at hc
    rw [header_of_short fastHash32 hs, headerWithCrc, leBytes, ver2ShortHeader_mod _ hc1 hc, List.cons_append,
      List.cons_append, hs.1]
    exact initVersion_short (fun hm => hct ⟨hs.1, hm⟩) _
  · rw [header_of_long fastHash32 hs, headerWithCrc, List.cons_append, List.cons_append]
    exact initVersion_versionByte rs.version_ne hct _

/-- The reader finds the size and the count the writer encoded, and the
    CRC where the writer put it. -/
theorem HeaderFits.headerSizeCount_header (h : rs.HeaderFits) (hsize : rs.size < 2 ^ 63)
    (hcount : rs.count < 2 ^ 31) (tail : List UInt8) :
    headerSizeCount (rs.header fastHash32 ++ tail) rs.version =
      .ok (rs.size - rs.hdrOffset, rs.count, rs.headerSize - ver12CrcSize) := by
  by_cases hs : rs.version = .ver2 ∧ ver2Reduction = rs.hdrOffset
  · obtain ⟨h8, hs1, hs2, hc1, hc2⟩ := h.short hs.1 hs.2
    rw [header_of_short fastHash32 hs, headerWithCrc, List.append_assoc, hs.1, headerSizeCount_short _ hs1 hs2 hc1 hc2,
      h8]
    rfl
  · rw [header_of_long fastHash32 hs, headerWithCrc]
    simp only [List.cons_append, List.append_assoc]
    rw [headerSizeCount_long _ _ (by omega) hcount, ← h.long hs]

/-- `parse_header_v1_2` passes: the set fits the buffer, the count fits
    the set, and the CRC is the one written after the header's body. -/
theorem HeaderFits.parseHeaderV12_header (h : rs.HeaderFits) (hsize : rs.size < 2 ^ 63)
    (hcount : rs.count < 2 ^ 31) (hle : rs.count ≤ rs.size - rs.hdrOffset) (ct : CheckType) (tail : List UInt8)
    (hlen : rs.size - rs.hdrOffset ≤ (rs.header fastHash32 ++ tail).length) :
    parseHeaderV12 fastHash32 (rs.header fastHash32 ++ tail) rs.version ct =
      .ok (rs.size - rs.hdrOffset, rs.count, rs.headerSize + checkSize ct) := by
  have hbody := h.length_body
  unfold ver12CrcSize at hbody
  -- the header is its body and the body's CRC
  have hhdr : rs.header fastHash32 ++ tail =
      headerBody (decide (rs.version = .ver2 ∧ ver2Reduction = rs.hdrOffset)) (rs.size - rs.hdrOffset) rs.count
        (versionByte rs.version rs.checkType) rs.headerSize ++
      (leBytes 4 (fastHash32 (headerBody (decide (rs.version = .ver2 ∧ ver2Reduction = rs.hdrOffset))
        (rs.size - rs.hdrOffset) rs.count (versionByte rs.version rs.checkType) rs.headerSize)).toNat ++ tail) := by
    simp only [header, headerWithCrc, List.append_assoc]
  have hcrc : (fastHash32 ((rs.header fastHash32 ++ tail).take (rs.headerSize - ver12CrcSize))).toNat =
      ofLeBytes (((rs.header fastHash32 ++ tail).drop (rs.headerSize - ver12CrcSize)).take 4) := by
    rw [hhdr, List.take_left' (by unfold ver12CrcSize; omega), List.drop_left' (by unfold ver12CrcSize; omega),
      List.take_left' (Galera.Bytes.length_leBytes 4 _),
      Galera.Bytes.ofLeBytes_leBytes_of_lt (UInt32.toNat_lt _)]
  unfold parseHeaderV12
  rw [h.headerSizeCount_header fastHash32 hsize hcount tail]
  dsimp only
  rw [if_neg (by omega), sizeTOfInt_natCast (by omega), if_neg (by omega), if_neg (not_not.2 hcrc)]
  have h4 : 4 ≤ rs.headerSize := by omega
  unfold ver12CrcSize
  rw [Nat.sub_add_cancel h4]

end Header

end RecordSetOut

/-! ## §2. `init` on a gathered set -/

namespace RecordSetIn

/-- `checksum()` passes on a set laid out as the writer gathers it: the
    header, the checksum of the records and of the header, the records. -/
theorem checksum_gathered (mmh128 : List UInt8 → Nat) (H X : List UInt8) {ver : Version} {ct : CheckType}
    {size : Nat} {count : Int} (n : Nat) (hser : guAlign size (rsetAlignment ver) = H.length + checkSize ct + X.length) :
    checksum mmh128 ⟨H ++ (RecordSetOut.checksumBytes mmh128 (X ++ H) ct ++ X), ver, ct, size, count,
      H.length + checkSize ct, n⟩ = .ok () := by
  have hcs : (RecordSetOut.checksumBytes mmh128 (X ++ H) ct).length = checkSize ct := length_checksum _ ct
  -- the records after the stored checksum, the header before it
  have hrecords : (H ++ (RecordSetOut.checksumBytes mmh128 (X ++ H) ct ++ X)).drop (H.length + checkSize ct) = X := by
    rw [← List.append_assoc, List.drop_left' (by rw [List.length_append]; exact congrArg _ hcs)]
  have hheader : (H ++ (RecordSetOut.checksumBytes mmh128 (X ++ H) ct ++ X)).take
      (H.length + checkSize ct - checkSize ct) = H := by
    rw [Nat.add_sub_cancel, List.take_left]
  have hstored : ((H ++ (RecordSetOut.checksumBytes mmh128 (X ++ H) ct ++ X)).drop
      (H.length + checkSize ct - checkSize ct)).take (checkSize ct) = RecordSetOut.checksumBytes mmh128 (X ++ H) ct := by
    rw [Nat.add_sub_cancel, List.drop_left, List.take_left' hcs]
  unfold checksum serialSize
  dsimp only
  rw [hrecords, hser, show H.length + checkSize ct + X.length - (H.length + checkSize ct) = X.length by omega,
    List.take_length, hheader, hstored]
  by_cases hpos : 0 < checkSize ct
  · rw [if_pos hpos, if_neg (fun h => h rfl)]
  · rw [if_neg hpos]

/-- `init` with `check_now` succeeds once the version, the header and the
    checksum pass, and starts `next_` at the first record. -/
theorem init_of_parseHeaderV12 (fastHash32 : List UInt8 → UInt32) (mmh128 : List UInt8 → Nat) {buf : List UInt8}
    {ver : Version} {ct : CheckType} {size : Nat} {count : Int} {begin : Nat}
    (hv : initVersion buf = .ok (ver, ct)) (hne : ver ≠ .empty)
    (hp : parseHeaderV12 fastHash32 buf ver ct = .ok (size, count, begin))
    (hc : checksum mmh128 ⟨buf, ver, ct, size, count, begin, 0⟩ = .ok ()) :
    init fastHash32 mmh128 buf true = .ok ⟨buf, ver, ct, size, count, begin, begin⟩ := by
  unfold init
  rw [hv]
  cases ver
  case empty => exact absurd rfl hne
  all_goals
    dsimp only
    rw [hp]
    dsimp only
    rw [if_pos rfl, hc]

end RecordSetIn

/-! ## §3. `next()` -/

namespace RecordSetIn

variable (serialSize : List UInt8 → Nat)

/-- A record `next()` can find: it has bytes, and `R::serial_size` reads
    its size from them, whatever follows. -/
def SelfDelimiting (r : List UInt8) : Prop := r ≠ [] ∧ ∀ rest, serialSize (r ++ rest) = r.length

/-- `next()` at a self-delimiting record inside the set returns it and
    moves past it. -/
theorem next_record (rs : RecordSetIn) {r more : List UInt8} (hr : SelfDelimiting serialSize r)
    (hd : rs.head.drop rs.nextOff = r ++ more) (hsize : rs.nextOff + r.length ≤ rs.size) :
    rs.next serialSize = .ok (r, { rs with nextOff := rs.nextOff + r.length }) := by
  obtain ⟨hne, hser⟩ := hr
  have hpos : 0 < r.length := List.length_pos_iff.2 hne
  -- `R::serial_size` sees the record and some of what follows it
  have hnext : serialSize ((rs.head.drop rs.nextOff).take (rs.size - rs.nextOff)) = r.length := by
    rw [hd, List.take_append, List.take_of_length_le (by omega)]
    exact hser _
  unfold next
  rw [if_pos (by omega)]
  dsimp only
  rw [hnext, if_pos hsize, hd, List.take_left]

/-- At the end of the set `next()` throws `E_PERM`. -/
theorem next_at_end (rs : RecordSetIn) (h : rs.size ≤ rs.nextOff) : rs.next serialSize = .error .ePerm := by
  unfold next
  rw [if_neg (by omega)]

/-- `next()` called once per record returns the records in order.  By
    induction on the records: each call finds the next one where the last
    ended. -/
theorem nextN_records : ∀ (records : List (List UInt8)) (rs : RecordSetIn) (tail : List UInt8),
    (∀ r ∈ records, SelfDelimiting serialSize r) → rs.head.drop rs.nextOff = records.flatten ++ tail →
      rs.nextOff + records.flatten.length ≤ rs.size →
      nextN serialSize records.length rs = .ok (records, { rs with nextOff := rs.nextOff + records.flatten.length })
  | [], rs, _, _, _, _ => rfl
  | r :: records, rs, tail, hr, hd, hsize => by
    rw [List.flatten_cons, List.append_assoc] at hd
    rw [List.flatten_cons, List.length_append] at hsize
    have hstep := next_record serialSize rs (hr r List.mem_cons_self) hd (by omega)
    -- the rest of the records follow the first one
    have hd' : ({ rs with nextOff := rs.nextOff + r.length } : RecordSetIn).head.drop (rs.nextOff + r.length) =
        records.flatten ++ tail := by
      rw [← List.drop_drop]
      dsimp only
      rw [hd, List.drop_left]
    have hrest := nextN_records records { rs with nextOff := rs.nextOff + r.length } tail
      (fun x hx => hr x (List.mem_cons_of_mem r hx)) hd' (by dsimp only; omega)
    simp only [List.length_cons, nextN, hstep, hrest, List.flatten_cons, List.length_append, Nat.add_assoc]

end RecordSetIn

/-! ## §4. The round trip -/

namespace RecordSetOut

variable {rs : RecordSetOut}

theorem HeaderFits.headerSize_mod (h : rs.HeaderFits) (hv : rs.version = .ver2) :
    rs.headerSize % ver2Alignment = 0 := by
  by_cases hs : rs.version = .ver2 ∧ ver2Reduction = rs.hdrOffset
  · rw [(h.short hs.1 hs.2).1]
    rfl
  · rw [h.long hs, rsetAlignment, if_pos hv]
    exact guAlign_mod _ _

/-- `serial_size()` of the gathered set is the set and its padding: VER2
    pads what is left of the header room and the records to a multiple of
    eight, as the header room and the header both are. -/
theorem HeaderFits.guAlign_gathered (h : rs.HeaderFits) (allocatorNewPage : Bool) (hs : 1 ≤ rs.size - rs.hdrOffset) :
    guAlign (rs.size - rs.hdrOffset) (rsetAlignment rs.version) =
      rs.size - rs.hdrOffset + (rs.padVer2 allocatorNewPage).2 := by
  obtain ⟨hal, hnone⟩ := padVer2_aligned rs allocatorNewPage
  by_cases hv : rs.version = .ver2
  · have hmax := headerSizeMax_ver2 hv
    have hmod := h.headerSize_mod hv
    have hle := h.le_max
    have hpad := hal hv
    rw [rsetAlignment, if_pos hv]
    refine guAlign_eq_add (by decide) hs (padVer2_lt rs allocatorNewPage) ?_
    unfold hdrOffset at hs ⊢
    simp only [headerSizeMaxV2, ver12CrcSize, ver2Alignment] at hmax hmod hpad ⊢
    omega
  · rw [hnone hv, rsetAlignment, if_neg hv, guAlign_one hs, Nat.add_zero]

/-- A writer whose buffers hold the header room and then self-delimiting
    records, and whose size and count stay in their `ssize_t` and `int`,
    gathers a set that reads back: `init` accepts it with the writer's
    count and serial size, `next()` returns the records, then `E_PERM`. -/
theorem gather_reads_back (fastHash32 : List UInt8 → UInt32) (mmh128 : List UInt8 → Nat)
    (serialSize : List UInt8 → Nat) (rs : RecordSetOut) (allocatorNewPage : Bool) (records : List (List UInt8))
    (hlay : rs.Layout (rs.headerSizeMax + checkSize rs.checkType) records.flatten)
    (hrec : ∀ r ∈ records, RecordSetIn.SelfDelimiting serialSize r) (hne : records ≠ [])
    (hct : ¬ (rs.version = .ver2 ∧ rs.checkType = .checkMmh32))
    (hsize : rs.size = rs.headerSizeMax + checkSize rs.checkType + records.flatten.length)
    (hsize63 : rs.size < 2 ^ 63) (hcount : rs.count = records.length) (hcount31 : rs.count < 2 ^ 31)
    {out : RecordSetOut × List (List UInt8) × Nat} (hout : rs.gather fastHash32 mmh128 allocatorNewPage = out) :
    out.2.1.flatten.length = out.2.2 ∧ (rs.version = .ver2 → out.2.2 % ver2Alignment = 0) ∧
      ∃ rin, RecordSetIn.init fastHash32 mmh128 out.2.1.flatten true = .ok rin ∧
        rin.count = out.1.count ∧ rin.serialSize = out.1.serialSize ∧
        RecordSetIn.nextN serialSize records.length rin = .ok (records, { rin with nextOff := rin.size }) ∧
        RecordSetIn.next serialSize { rin with nextOff := rin.size } = .error .ePerm := by
  -- every record has a byte, so there are no more records than bytes, and the header fits
  have hcdata := (show Galera.Bytes.IsSlicing records.flatten records from ⟨rfl, fun r hr => (hrec r hr).1⟩).length_le
  have hpos : 0 < records.length := List.length_pos_iff.2 hne
  have hfits := headerFits_of_lt rs hsize63 hcount31 (by omega) (by omega)
  obtain ⟨hflat, hn, hgsize, hgcount, hgver⟩ := gather_spec fastHash32 mmh128 rs allocatorNewPage hlay (by omega) hfits
  rw [hout] at hflat hn hgsize hgcount hgver
  -- the set: header, checksum, records, padding
  have hH := hfits.length_header fastHash32
  have hle := hfits.le_max
  have hS : rs.size - rs.hdrOffset = rs.headerSize + checkSize rs.checkType + records.flatten.length := by
    unfold hdrOffset
    omega
  have hser := hfits.guAlign_gathered allocatorNewPage (by omega)
  have hlen : out.2.1.flatten.length = out.2.2 := by
    rw [hflat, hn, hS]
    simp only [List.length_append, checksumBytes, length_checksum, List.length_replicate, hH]
    omega
  -- the reader's steps
  have hv : initVersion out.2.1.flatten = .ok (rs.version, rs.checkType) := by
    rw [hflat]
    exact hfits.initVersion_header fastHash32 hct _
  have hp : parseHeaderV12 fastHash32 out.2.1.flatten rs.version rs.checkType =
      .ok (rs.size - rs.hdrOffset, rs.count, rs.headerSize + checkSize rs.checkType) := by
    rw [hflat]
    exact hfits.parseHeaderV12_header fastHash32 (by omega) (by omega) (by omega) _ _ (by rw [← hflat, hlen, hn]; omega)
  have hc : RecordSetIn.checksum mmh128 ⟨out.2.1.flatten, rs.version, rs.checkType, rs.size - rs.hdrOffset, rs.count,
      rs.headerSize + checkSize rs.checkType, 0⟩ = .ok () := by
    rw [hflat, ← hH]
    exact RecordSetIn.checksum_gathered mmh128 _ _ 0
      (by rw [hser, hS, hH]; simp only [List.length_append, List.length_replicate]; omega)
  have hd : out.2.1.flatten.drop (rs.headerSize + checkSize rs.checkType) =
      records.flatten ++ List.replicate (rs.padVer2 allocatorNewPage).2 0 := by
    rw [hflat, ← List.append_assoc, List.drop_left' (by rw [List.length_append, hH, checksumBytes, length_checksum])]
  refine ⟨hlen, fun hv2 => ?_, _, RecordSetIn.init_of_parseHeaderV12 fastHash32 mmh128 hv rs.version_ne hp hc,
    by rw [hgcount], ?_, ?_, RecordSetIn.next_at_end serialSize _ (Nat.le_refl _)⟩
  · rw [hn, ← hser, rsetAlignment, if_pos hv2]
    exact guAlign_mod _ _
  · show guAlign _ _ = guAlign out.1.size (rsetAlignment out.1.version)
    rw [hgsize, hgver]
  · -- one `next()` per record, from the first record on
    refine (RecordSetIn.nextN_records serialSize records _ (List.replicate (rs.padVer2 allocatorNewPage).2 0) hrec hd
      (by dsimp only; omega)).trans ?_
    dsimp only
    rw [hS]

end RecordSetOut

open RecordSetOut in
/-- **Round trip.**  Records appended as new records to a fresh VER1 or
    VER2 writer, of any check type the version admits, stored or not, on
    pages the allocator opens where it will: `gather` hands out exactly
    the bytes it reports, a multiple of eight for VER2, and `RecordSetIn`
    with `check_now` accepts them, reports the writer's `count()` and
    `serial_size()`, returns the records in order from `next()`, and then
    throws `E_PERM`.  The records are those `R::serial_size` finds in the
    bytes, and size and count stay in the `ssize_t` and `int` the header
    stores them in. -/
theorem gather_read_back (fastHash32 : List UInt8 → UInt32) (mmh128 : List UInt8 → Nat)
    (serialSize : List UInt8 → Nat) {ver : Version} (hver : ver ≠ .empty) {ct : CheckType}
    (hct : ¬ (ver = .ver2 ∧ ct = .checkMmh32)) (ops : List Append) (allocatorNewPage : Bool)
    (hops : ops ≠ []) (hnew : ∀ op ∈ ops, op.newRecord = true)
    (hrec : ∀ op ∈ ops, RecordSetIn.SelfDelimiting serialSize op.record)
    (hsize : headerSizeMaxOf ver hver + checkSize ct + (ops.map Append.record).flatten.length < 2 ^ 63)
    (hcount : ops.length < 2 ^ 31) :
    let out := ((create ver hver ct).appendAll ops).gather fastHash32 mmh128 allocatorNewPage
    out.2.1.flatten.length = out.2.2 ∧ (ver = .ver2 → out.2.2 % ver2Alignment = 0) ∧
      ∃ rin, RecordSetIn.init fastHash32 mmh128 out.2.1.flatten true = .ok rin ∧
        rin.count = out.1.count ∧ rin.serialSize = out.1.serialSize ∧
        RecordSetIn.nextN serialSize ops.length rin = .ok (ops.map Append.record, { rin with nextOff := rin.size }) ∧
        RecordSetIn.next serialSize { rin with nextOff := rin.size } = .error .ePerm := by
  intro out
  -- the writer after the appends: the header room, then the records
  have hwv : ((create ver hver ct).appendAll ops).version = ver :=
    (appendAll_version_checkType ops (create ver hver ct)).1
  have hwct : ((create ver hver ct).appendAll ops).checkType = ct :=
    (appendAll_version_checkType ops (create ver hver ct)).2
  have hwmax : ((create ver hver ct).appendAll ops).headerSizeMax = headerSizeMaxOf ver hver :=
    @headerSizeMax_congr (create ver hver ct) _ hwv
  have hwsize : ((create ver hver ct).appendAll ops).size =
      headerSizeMaxOf ver hver + checkSize ct + (ops.map Append.record).flatten.length :=
    appendAll_size ops (create ver hver ct)
  have hwcount : ((create ver hver ct).appendAll ops).count = ops.length := by
    rw [appendAll_count ops _ hnew]
    exact Nat.zero_add _
  have hlay : ((create ver hver ct).appendAll ops).Layout
      (((create ver hver ct).appendAll ops).headerSizeMax + checkSize ((create ver hver ct).appendAll ops).checkType)
      (ops.map Append.record).flatten := by
    have hlay := (layout_create ver hver ct).appendAll ops
    rw [List.nil_append] at hlay
    rw [hwmax, hwct]
    exact hlay
  have hread := gather_reads_back fastHash32 mmh128 serialSize _ allocatorNewPage (ops.map Append.record) hlay
    (fun r hr => by
      obtain ⟨op, hop, rfl⟩ := List.mem_map.1 hr
      exact hrec op hop)
    (by simpa using hops) (by rw [hwv, hwct]; exact hct) (by rw [hwsize, hwmax, hwct]) (by omega)
    (by rw [hwcount, List.length_map]) (by omega)
    (show ((create ver hver ct).appendAll ops).gather fastHash32 mmh128 allocatorNewPage = out from rfl)
  rw [hwv, List.length_map] at hread
  exact hread

/-- Three bytes stored in a VER2 set with an MMH128 checksum read back,
    whatever the hashes. -/
theorem gather_read_back_ver2_record :
    RecordSetIn.SelfDelimiting (fun _ => 3) [1, 2, 3] ∧
      ∃ rin, RecordSetIn.init (fun _ => 0) (fun _ => 0)
          (((RecordSetOut.create .ver2 (by decide) .checkMmh128).appendAll [⟨[1, 2, 3], true, true, false⟩]).gather
            (fun _ => 0) (fun _ => 0) false).2.1.flatten true = .ok rin ∧
        RecordSetIn.nextN (fun _ => 3) 1 rin = .ok ([[1, 2, 3]], { rin with nextOff := rin.size }) := by
  have hrec : RecordSetIn.SelfDelimiting (fun _ => 3) [1, 2, 3] := ⟨by simp, fun _ => rfl⟩
  obtain ⟨-, -, rin, hinit, -, -, hnext, -⟩ := gather_read_back (fun _ => 0) (fun _ => 0) (fun _ => 3)
    (show Version.ver2 ≠ .empty by decide) (show ¬ (Version.ver2 = .ver2 ∧ CheckType.checkMmh128 = .checkMmh32) by decide)
    [⟨[1, 2, 3], true, true, false⟩] false (by simp) (by simp) (by simpa using hrec) (by decide) (by decide)
  exact ⟨hrec, rin, hinit, hnext⟩

end Galera.Gu
