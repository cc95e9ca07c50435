/-
  Galera.Gu.RecordSetSafety
  ─────────────────────────
  **WHAT `RecordSetIn` ACCEPTS FROM ARBITRARY BYTES.**

  `parse_header_v1_2` checks three things of a header it did not write:
  that `size_` fits the buffer, that `count_` fits `size_`, and that the
  header's CRC matches (src/galerautils/src/gu_rset.cpp).  It never
  compares `begin_`, the end of the header and checksum, with `size_`;
  `RecordSetInBase::init` only asserts `begin_ <= size_`.

    * `init_bounds` — a set that `init` accepts lies in its buffer:
      `size_` fits it and `count_` is between 0 and `size_`;
    * `serialSize_le` — in a buffer whose length the alignment divides,
      so does `serial_size()`;
    * `nextN_within` — any sequence of `next()` calls hands out
      consecutive slices of `[next_, size_)`, and nothing past `size_`;
    * `checksumReads_within` — `checksum()` reads inside the buffer when
      `begin_ <= serial_size()`, and `checksum_eq_reads` says those are the
      bytes it hashes;
    * `init_forged` — a VER1 header with the right CRC is accepted for any
      size and count that fit, wherever its checksum ends;
    * `record_set_begin_past_size` — so a 32-byte buffer claiming a 1-byte
      set with an MMH128 checksum is accepted with `begin_ = 23`, and the
      records `checksum()` hashes start at 23 and run for
      `2^64 - 22` bytes.
-/
import Mathlib
import Galera.Gu.RecordSetRead

namespace Galera.Gu

open Galera.Bytes (leBytes ofLeBytes slice)

namespace RecordSetIn

/-! ## §1. What `init` checks -/

/-- `parse_header_v1_2` returns a size that fits the buffer, a count that
    fits the size, and a `begin_` past the header's CRC. -/
theorem parseHeaderV12_bounds {fastHash32 : List UInt8 → UInt32} {head : List UInt8} {ver : Version}
    {ct : CheckType} {size : Nat} {count : Int} {begin : Nat}
    (h : parseHeaderV12 fastHash32 head ver ct = .ok (size, count, begin)) :
    size ≤ head.length ∧ sizeTOfInt count ≤ size ∧ ver12CrcSize + checkSize ct ≤ begin := by
  unfold parseHeaderV12 at h
  split at h
  case h_1 => exact absurd h (by simp)
  case h_2 size' count' off _ =>
    split_ifs at h with hlen hcount hcrc
    simp only [Except.ok.injEq, Prod.mk.injEq] at h
    obtain ⟨rfl, rfl, rfl⟩ := h
    refine ⟨by omega, by omega, by omega⟩

/-- `sizeTOfInt` of a negative `int` is at least `2^64 - 2^31`, past any
    buffer below `2^63` bytes. -/
theorem sizeTOfInt_of_neg {x : Int} (hlo : -2 ^ 31 ≤ x) (hx : x < 0) : 2 ^ 63 ≤ sizeTOfInt x := by
  unfold sizeTOfInt
  have hmod : x % 2 ^ 64 = x + 2 ^ 64 := by
    rw [Int.emod_eq_add_self_emod, Int.emod_eq_of_lt (by omega) (by omega)]
  rw [hmod]
  omega

/-- The count `parse_header_v1_2` reads is an `int`. -/
theorem headerSizeCount_count {head : List UInt8} {ver : Version} {size : Nat} {count : Int} {off : Nat}
    (h : headerSizeCount head ver = .ok (size, count, off)) : -2 ^ 31 ≤ count := by
  unfold headerSizeCount at h
  split_ifs at h
  · simp only [readSizeCountV2Short, Except.ok.injEq, Prod.mk.injEq] at h
    obtain ⟨-, rfl, -⟩ := h
    omega
  · split at h
    case h_1 => exact absurd h (by simp)
    case h_2 size' count' off' hread =>
      simp only [Except.ok.injEq, Prod.mk.injEq] at h
      obtain ⟨-, rfl, -⟩ := h
      unfold readSizeCountV12 at hread
      split at hread
      case h_1 => exact absurd hread (by simp)
      case h_2 =>
        split at hread
        case h_1 => exact absurd hread (by simp)
        case h_2 =>
          simp only [Option.some.injEq, Prod.mk.injEq] at hread
          obtain ⟨-, rfl, -⟩ := hread
          unfold int32OfBits
          split_ifs <;> omega

/-- What `init` can return: the EMPTY set of a buffer whose first byte has
    version 0, or a parsed header with `next_` at `begin_`. -/
theorem init_eq_ok {fastHash32 : List UInt8 → UInt32} {mmh128 : List UInt8 → Nat} {buf : List UInt8}
    {checkNow : Bool} {rs : RecordSetIn} (h : init fastHash32 mmh128 buf checkNow = .ok rs) :
    (∃ ct, rs = ⟨buf, .empty, ct, 0, 0, 0, 0⟩) ∨
      ∃ ver ct size count begin, ver ≠ .empty ∧ initVersion buf = .ok (ver, ct) ∧
        parseHeaderV12 fastHash32 buf ver ct = .ok (size, count, begin) ∧
        rs = ⟨buf, ver, ct, size, count, begin, begin⟩ := by
  unfold init at h
  split at h
  case h_1 => exact absurd h (by simp)
  case h_2 ct _ =>
    simp only [Except.ok.injEq] at h
    exact .inl ⟨ct, h.symm⟩
  case h_3 ver ct hne hv =>
    split at h
    case h_1 => exact absurd h (by simp)
    case h_2 size count begin hp =>
      refine .inr ⟨ver, ct, size, count, begin, fun he => hne he, hv, hp, ?_⟩
      -- the checksum, when it runs, either throws or lets the set through
      cases checkNow
      · simp only [Bool.false_eq_true, if_false, Except.ok.injEq] at h
        exact h.symm
      · simp only [if_true] at h
        split at h
        case h_1 => exact absurd h (by simp)
        case h_2 =>
          simp only [Except.ok.injEq] at h
          exact h.symm

/-- A set that `init` accepts from a buffer below `2^63` bytes has a
    `size_` that fits the buffer, a `count_` between 0 and `size_`, a
    `begin_` past the header and checksum, and `next_` at `begin_`; or it
    is EMPTY. -/
theorem init_bounds {fastHash32 : List UInt8 → UInt32} {mmh128 : List UInt8 → Nat} {buf : List UInt8}
    {checkNow : Bool} {rs : RecordSetIn} (hbuf : buf.length < 2 ^ 63)
    (h : init fastHash32 mmh128 buf checkNow = .ok rs) :
    rs.head = buf ∧ rs.nextOff = rs.begin ∧
      (rs.version = .empty ∨
        rs.size ≤ buf.length ∧ 0 ≤ rs.count ∧ sizeTOfInt rs.count ≤ rs.size ∧
          ver12CrcSize + checkSize rs.checkType ≤ rs.begin) := by
  rcases init_eq_ok h with ⟨ct, rfl⟩ | ⟨ver, ct, size, count, begin, -, -, hp, rfl⟩
  · exact ⟨rfl, rfl, .inl rfl⟩
  · obtain ⟨hsize, hcount, hbegin⟩ := parseHeaderV12_bounds hp
    -- the count is an `int`, so a negative one would not fit the size
    have hcount0 : 0 ≤ count := by
      unfold parseHeaderV12 at hp
      split at hp
      case h_1 => exact absurd hp (by simp)
      case h_2 size' count' off hsc =>
        split_ifs at hp
        simp only [Except.ok.injEq, Prod.mk.injEq] at hp
        obtain ⟨rfl, rfl, -⟩ := hp
        by_contra hneg
        have := sizeTOfInt_of_neg (headerSizeCount_count hsc) (Int.lt_of_not_ge hneg)
        omega
    exact ⟨rfl, rfl, .inr ⟨hsize, hcount0, hcount, hbegin⟩⟩

/-- `serial_size()` fits a buffer whose length the alignment divides,
    when `size_` does and is positive. -/
theorem serialSize_le (rs : RecordSetIn) (h1 : 1 ≤ rs.size) (hs : rs.size ≤ rs.head.length)
    (ha : rsetAlignment rs.version ∣ rs.head.length) : rs.serialSize ≤ rs.head.length := by
  obtain ⟨k, hk⟩ := ha
  have hpos : 0 < rsetAlignment rs.version := by
    unfold rsetAlignment ver2Alignment
    split_ifs <;> decide
  unfold serialSize guAlign
  rw [hk]
  -- the aligned size is the least multiple of the alignment at or above it
  have hq : (rs.size - 1) / rsetAlignment rs.version < k := by
    apply Nat.div_lt_of_lt_mul
    omega
  calc ((rs.size - 1) / rsetAlignment rs.version + 1) * rsetAlignment rs.version
      ≤ k * rsetAlignment rs.version := Nat.mul_le_mul_right _ (Nat.succ_le_of_lt hq)
    _ = rsetAlignment rs.version * k := Nat.mul_comm _ _

/-! ## §2. `next()` stays in `[next_, size_)` -/

variable (serialSize : List UInt8 → Nat)

/-- One `next()` hands out the slice of `[next_, size_)` that
    `R::serial_size` measured, and moves `next_` past it. -/
theorem next_within {rs rs' : RecordSetIn} {r : List UInt8} (h : rs.next serialSize = .ok (r, rs')) :
    r = slice rs.head rs.nextOff (rs'.nextOff - rs.nextOff) ∧ rs.nextOff ≤ rs'.nextOff ∧
      rs'.nextOff ≤ rs.size ∧ rs'.head = rs.head ∧ rs'.size = rs.size := by
  simp only [next] at h
  split_ifs at h with hlt hfit
  simp only [Except.ok.injEq, Prod.mk.injEq] at h
  obtain ⟨rfl, rfl⟩ := h
  refine ⟨?_, by simp, hfit, rfl, rfl⟩
  simp only [slice, Nat.add_sub_cancel_left]

/-- Any `n` calls of `next()` hand out consecutive slices of the buffer
    from `next_` on, and end at `size_` at the latest, unless they hand out
    nothing: induction on `n`. -/
theorem nextN_within (n : Nat) {rs rs' : RecordSetIn} {recs : List (List UInt8)}
    (h : nextN serialSize n rs = .ok (recs, rs')) :
    recs.flatten = slice rs.head rs.nextOff (rs'.nextOff - rs.nextOff) ∧ rs.nextOff ≤ rs'.nextOff ∧
      (rs'.nextOff = rs.nextOff ∨ rs'.nextOff ≤ rs.size) ∧ rs'.head = rs.head ∧ rs'.size = rs.size := by
  induction n generalizing rs recs with
  | zero =>
    simp only [nextN, Except.ok.injEq, Prod.mk.injEq] at h
    obtain ⟨rfl, rfl⟩ := h
    simp [slice]
  | succ n ih =>
    unfold nextN at h
    split at h
    case h_1 => exact absurd h (by simp)
    case h_2 r rs₁ h₁ =>
      split at h
      case h_1 => exact absurd h (by simp)
      case h_2 rest rs₂ h₂ =>
        simp only [Except.ok.injEq, Prod.mk.injEq] at h
        obtain ⟨rfl, rfl⟩ := h
        obtain ⟨hr, hle₁, hend₁, hhead₁, hsize₁⟩ := next_within serialSize h₁
        obtain ⟨hrest, hle₂, hend₂, hhead₂, hsize₂⟩ := ih h₂
        -- the record and the rest are adjacent slices of one buffer
        have hsplit : slice rs.head rs.nextOff (rs₂.nextOff - rs.nextOff) =
            slice rs.head rs.nextOff (rs₁.nextOff - rs.nextOff) ++
              slice rs.head rs₁.nextOff (rs₂.nextOff - rs₁.nextOff) := by
          simp only [slice]
          rw [show rs₂.nextOff - rs.nextOff = (rs₁.nextOff - rs.nextOff) + (rs₂.nextOff - rs₁.nextOff) by omega,
            List.take_add, List.drop_drop, Nat.add_sub_cancel' hle₁]
        refine ⟨?_, Nat.le_trans hle₁ hle₂, .inr ?_, hhead₂.trans hhead₁, hsize₂.trans hsize₁⟩
        · rw [List.flatten_cons, hrest, hr, hsplit, hhead₁]
        · rw [hsize₁] at hend₂
          omega

/-! ## §3. What `checksum()` reads -/

/-- The byte ranges `checksum()` hands to `Hash::append`, as offset and
    length: the records from `begin_` to `serial_size()`, then the header
    up to the stored checksum.  The lengths are `size_t`s, so
    `serial_size() - begin_` wraps when `begin_` lies past the end. -/
def checksumReads (rs : RecordSetIn) : List (Nat × Nat) :=
  let cs := checkSize rs.checkType
  if 0 < cs then
    [(rs.begin, sizeTOfInt ((rs.serialSize : Int) - rs.begin)), (0, sizeTOfInt ((rs.begin : Int) - cs))]
  else []

theorem checksumReads_eq {rs : RecordSetIn} (hcs : 0 < checkSize rs.checkType) :
    rs.checksumReads = [(rs.begin, sizeTOfInt ((rs.serialSize : Int) - rs.begin)),
      (0, sizeTOfInt ((rs.begin : Int) - checkSize rs.checkType))] := by
  simp only [checksumReads, if_pos hcs]

/-- With `begin_` inside `serial_size()`, `checksum()` hashes exactly the
    bytes of its two ranges, in order. -/
theorem checksum_eq_reads (mmh128 : List UInt8 → Nat) (rs : RecordSetIn) (hcs : 0 < checkSize rs.checkType)
    (hc : checkSize rs.checkType ≤ rs.begin) (hb : rs.begin ≤ rs.serialSize) (hs : rs.serialSize < 2 ^ 64) :
    checksum mmh128 rs =
      let result := leBytes 16 (mmh128 ((rs.checksumReads.map fun r => slice rs.head r.1 r.2).flatten))
      if result.take (checkSize rs.checkType) ≠
          (rs.head.drop (rs.begin - checkSize rs.checkType)).take (checkSize rs.checkType) then
        .error .checksumMismatch
      else .ok () := by
  have h₁ : sizeTOfInt ((rs.serialSize : Int) - rs.begin) = rs.serialSize - rs.begin := by
    rw [← Int.ofNat_sub hb]
    exact sizeTOfInt_natCast (by omega)
  have h₂ : sizeTOfInt ((rs.begin : Int) - checkSize rs.checkType) = rs.begin - checkSize rs.checkType := by
    rw [← Int.ofNat_sub hc]
    exact sizeTOfInt_natCast (by omega)
  rw [checksumReads_eq hcs, h₁, h₂]
  simp only [checksum, if_pos hcs, List.map_cons, List.map_nil, List.flatten_cons, List.flatten_nil,
    List.append_nil, slice, List.drop_zero]

/-- With `begin_` inside `serial_size()` and that inside the buffer,
    `checksum()` reads nothing outside it. -/
theorem checksumReads_within (rs : RecordSetIn) (hc : checkSize rs.checkType ≤ rs.begin)
    (hb : rs.begin ≤ rs.serialSize) (hs : rs.serialSize ≤ rs.head.length) (hlen : rs.head.length < 2 ^ 64) :
    ∀ r ∈ rs.checksumReads, r.1 + r.2 ≤ rs.head.length := by
  intro r hr
  by_cases hcs : 0 < checkSize rs.checkType
  case neg =>
    simp only [checksumReads, if_neg hcs] at hr
    exact absurd hr List.not_mem_nil
  case pos =>
    rw [checksumReads_eq hcs, ← Int.ofNat_sub hb, ← Int.ofNat_sub hc, sizeTOfInt_natCast (by omega),
      sizeTOfInt_natCast (by omega)] at hr
    simp only [List.mem_cons, List.not_mem_nil, or_false] at hr
    rcases hr with rfl | rfl
    · show rs.begin + (rs.serialSize - rs.begin) ≤ _
      omega
    · show 0 + (rs.begin - checkSize rs.checkType) ≤ _
      omega

/-! ## §4. A header whose checksum ends past the set -/

/-- The body of a VER1 header for `size` and `count` with check type `ct`. -/
def forgedBody (ct : CheckType) (size count : Nat) : List UInt8 :=
  UInt8.ofNat (versionByte .ver1 ct) :: (uleb128Encode size ++ uleb128Encode count)

/-- That body, the CRC `parse_header_v1_2` computes of it, and zeros up to
    `len` bytes. -/
def forgedHeader (fastHash32 : List UInt8 → UInt32) (ct : CheckType) (size count len : Nat) : List UInt8 :=
  forgedBody ct size count ++
    (leBytes 4 (fastHash32 (forgedBody ct size count)).toNat ++
      List.replicate (len - ((forgedBody ct size count).length + 4)) 0)

theorem length_forgedBody (ct : CheckType) (size count : Nat) :
    (forgedBody ct size count).length = 1 + uleb128Size size + uleb128Size count := by
  simp only [forgedBody, List.length_cons, List.length_append, length_uleb128Encode]
  omega

theorem length_forgedHeader (fastHash32 : List UInt8 → UInt32) (ct : CheckType) {size count len : Nat}
    (hfit : (forgedBody ct size count).length + 4 ≤ len) :
    (forgedHeader fastHash32 ct size count len).length = len := by
  simp only [forgedHeader, List.length_append, Galera.Bytes.length_leBytes, List.length_replicate]
  omega

/-- `parse_header_v1_2` accepts a VER1 header with its own CRC for any size
    that fits the buffer and any count that fits the size, and puts
    `begin_` after the CRC and the checksum, wherever that is. -/
theorem parseHeaderV12_forged (fastHash32 : List UInt8 → UInt32) (ct : CheckType) {size count len : Nat}
    (hs : size < 2 ^ 63) (hc : count < 2 ^ 31) (hcs : count ≤ size) (hlen : size ≤ len)
    (hfit : (forgedBody ct size count).length + 4 ≤ len) :
    parseHeaderV12 fastHash32 (forgedHeader fastHash32 ct size count len) .ver1 ct =
      .ok (size, count, (forgedBody ct size count).length + ver12CrcSize + checkSize ct) := by
  have hshape : forgedHeader fastHash32 ct size count len =
      UInt8.ofNat (versionByte .ver1 ct) :: (uleb128Encode size ++ (uleb128Encode count ++
        (leBytes 4 (fastHash32 (forgedBody ct size count)).toNat ++
          List.replicate (len - ((forgedBody ct size count).length + 4)) 0))) := by
    simp only [forgedHeader, forgedBody, List.cons_append, List.append_assoc]
  -- VER1 is not aligned, so the CRC sits right after the body
  have hoff : guAlign (1 + uleb128Size size + uleb128Size count + ver12CrcSize) (rsetAlignment .ver1) -
      ver12CrcSize = (forgedBody ct size count).length := by
    rw [length_forgedBody, rsetAlignment, if_neg (by decide)]
    simp only [guAlign, ver12CrcSize, Nat.div_one, Nat.mul_one]
    omega
  have hcrc : (fastHash32 ((forgedHeader fastHash32 ct size count len).take (forgedBody ct size count).length)).toNat =
      ofLeBytes (((forgedHeader fastHash32 ct size count len).drop (forgedBody ct size count).length).take 4) := by
    rw [forgedHeader, List.take_left, List.drop_left, List.take_left' (Galera.Bytes.length_leBytes 4 _),
      Galera.Bytes.ofLeBytes_leBytes_of_lt (UInt32.toNat_lt _)]
  unfold parseHeaderV12
  rw [hshape, headerSizeCount_long .ver1 ct (by omega) hc, hoff, ← hshape]
  dsimp only
  rw [length_forgedHeader fastHash32 ct hfit, if_neg (by omega), sizeTOfInt_natCast (by omega),
    if_neg (by omega), if_neg (not_not.2 hcrc)]

/-- So `init`, without the checksum, returns the set as parsed. -/
theorem init_forged (fastHash32 : List UInt8 → UInt32) (mmh128 : List UInt8 → Nat) (ct : CheckType)
    {size count len : Nat} (hs : size < 2 ^ 63) (hc : count < 2 ^ 31) (hcs : count ≤ size) (hlen : size ≤ len)
    (hfit : (forgedBody ct size count).length + 4 ≤ len) :
    init fastHash32 mmh128 (forgedHeader fastHash32 ct size count len) false =
      .ok ⟨forgedHeader fastHash32 ct size count len, .ver1, ct, size, count,
        (forgedBody ct size count).length + ver12CrcSize + checkSize ct,
        (forgedBody ct size count).length + ver12CrcSize + checkSize ct⟩ := by
  have hv : initVersion (forgedHeader fastHash32 ct size count len) = .ok (.ver1, ct) := by
    rw [forgedHeader, forgedBody, List.cons_append]
    exact initVersion_versionByte (by decide) (by simp) _
  unfold init
  rw [hv]
  dsimp only
  rw [parseHeaderV12_forged fastHash32 ct hs hc hcs hlen hfit]
  rfl

end RecordSetIn

/-- A 32-byte buffer whose VER1 header, with a right CRC, claims a set of
    1 byte and 0 records with an MMH128 checksum.  `init` without the
    checksum accepts it with `begin_ = 23` past `size_ = 1`; with
    `check_now` it runs `checksum()` on that set, whose first read starts at
    byte 23 and is `2^64 - 22` bytes long. -/
theorem record_set_begin_past_size (fastHash32 : List UInt8 → UInt32) (mmh128 : List UInt8 → Nat) :
    (RecordSetIn.forgedHeader fastHash32 .checkMmh128 1 0 32).length = 32 ∧
      RecordSetIn.init fastHash32 mmh128 (RecordSetIn.forgedHeader fastHash32 .checkMmh128 1 0 32) false =
        .ok ⟨RecordSetIn.forgedHeader fastHash32 .checkMmh128 1 0 32, .ver1, .checkMmh128, 1, 0, 23, 23⟩ ∧
      RecordSetIn.checksumReads
          ⟨RecordSetIn.forgedHeader fastHash32 .checkMmh128 1 0 32, .ver1, .checkMmh128, 1, 0, 23, 0⟩ =
        [(23, 2 ^ 64 - 22), (0, 7)] := by
  have hbody : (RecordSetIn.forgedBody .checkMmh128 1 0).length = 3 := rfl
  refine ⟨RecordSetIn.length_forgedHeader fastHash32 _ (by rw [hbody]; decide), ?_, ?_⟩
  · rw [RecordSetIn.init_forged fastHash32 mmh128 .checkMmh128 (by decide) (by decide) (by decide) (by decide)
      (by rw [hbody]; decide), hbody]
    rfl
  · rw [RecordSetIn.checksumReads_eq (show 0 < checkSize .checkMmh128 by decide)]
    -- VER1 does not align: `serial_size()` is `size_`, 1
    show [(23, sizeTOfInt ((guAlign 1 (rsetAlignment .ver1) : Nat) - (23 : Nat))),
      (0, sizeTOfInt ((23 : Nat) - (checkSize .checkMmh128 : Nat)))] = _
    rw [show guAlign 1 (rsetAlignment .ver1) = 1 by decide]
    decide

end Galera.Gu
