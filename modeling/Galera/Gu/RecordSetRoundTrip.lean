/-
  Galera.Gu.RecordSetRoundTrip
  ────────────────────────────
  **WHAT A GATHERED RECORD SET HOLDS.**

  The writer's half of the round trip: the bytes `RecordSetOut::gather`
  hands out, as a function of the records appended.  The proof follows
  the bytes:

    * §1 the fixpoint of `header_size_v1_2`: the header it settles on
      encodes the size of the set it leaves (`headerSizeV12_spec`);
    * §2 the writer's buffers are the zeroed header room and the records,
      and the checksum has seen the records (`Layout`);
    * §3 `write_header` leaves the header and the checksum right before
      the records (`writeHeader_buf`), and `gather` hands out exactly
      those bytes, when the header fits what it encodes (`headerFits_of_lt`).

  `RecordSetRead` reads them back.
-/
import Mathlib
import Galera.Gu.RecordSet

namespace Galera.Gu

open Galera.Bytes (leBytes ofLeBytes overwrite)

/-! ## §1. The header's size -/

section Align

variable {s a : Nat}

theorem guAlign_one (h : 1 ≤ s) : guAlign s 1 = s := by
  rw [guAlign, Nat.div_one]
  omega

theorem guAlign_mod (s a : Nat) : guAlign s a % a = 0 := Nat.mul_mod_left _ _

theorem le_guAlign (ha : 0 < a) : s ≤ guAlign s a := by
  have := Nat.div_add_mod (s - 1) a
  have := Nat.mod_lt (s - 1) ha
  rw [guAlign, Nat.add_mul, Nat.one_mul, Nat.mul_comm]
  omega

theorem guAlign_lt (hs : 1 ≤ s) : guAlign s a < s + a := by
  have := Nat.div_add_mod (s - 1) a
  rw [guAlign, Nat.add_mul, Nat.one_mul, Nat.mul_comm]
  omega

theorem guAlign_mono {t : Nat} (h : s ≤ t) : guAlign s a ≤ guAlign t a :=
  Nat.mul_le_mul_right _ (Nat.succ_le_succ (Nat.div_le_div_right (by omega)))

/-- Aligning `s` adds the padding `p` that takes it to a multiple of `a`. -/
theorem guAlign_eq_add {p : Nat} (ha : 0 < a) (hs : 1 ≤ s) (hp : p < a) (h : (s + p) % a = 0) :
    guAlign s a = s + p := by
  have h1 := le_guAlign (s := s) ha
  have h2 := guAlign_lt (a := a) hs
  have h3 := guAlign_mod s a
  obtain ⟨q, hq⟩ : ∃ q, s + p = a * q := ⟨(s + p) / a, (Nat.mul_div_cancel' (Nat.dvd_of_mod_eq_zero h)).symm⟩
  obtain ⟨r, hr⟩ : ∃ r, guAlign s a = a * r :=
    ⟨guAlign s a / a, (Nat.mul_div_cancel' (Nat.dvd_of_mod_eq_zero h3)).symm⟩
  rw [hr] at h1 h2 ⊢
  rw [hq]
  -- two multiples of `a` in `[s, s + a)` are one
  have hqr : q < r + 1 := Nat.lt_of_mul_lt_mul_left (a := a) (by rw [Nat.mul_add, Nat.mul_one]; omega)
  have hrq : r < q + 1 := Nat.lt_of_mul_lt_mul_left (a := a) (by rw [Nat.mul_add, Nat.mul_one]; omega)
  rw [show r = q by omega]

end Align

section HeaderSize

variable {ver2 : Bool} {count : Nat}

/-- The longest header of the version. -/
def headerSizeMaxBool (ver2 : Bool) : Nat := if ver2 then headerSizeMaxV2 else headerSizeMaxV1

theorem newHeaderSize_mono {s t : Nat} (h : s ≤ t) :
    newHeaderSize ver2 count s ≤ newHeaderSize ver2 count t := by
  have hu := uleb128Size_mono h
  unfold newHeaderSize
  cases ver2 with
  | false => simp only [Bool.false_eq_true, if_false]; omega
  | true => exact guAlign_mono (by omega)

theorem seven_le_newHeaderSize (size : Nat) : 7 ≤ newHeaderSize ver2 count size := by
  have h1 := one_le_uleb128Size size
  have h2 := one_le_uleb128Size count
  unfold newHeaderSize
  cases ver2 with
  | false => simp only [Bool.false_eq_true, if_false, ver12CrcSize]; omega
  | true =>
    simp only [if_true]
    exact Nat.le_trans (by simp only [ver12CrcSize]; omega) (le_guAlign (by decide))

/-- Size and count below `2 ^ 63` take nine bytes each at most, so the
    header is no longer than the longest. -/
theorem newHeaderSize_le_max {size : Nat} (hsize : size < 2 ^ 63) (hcount : count < 2 ^ 63) :
    newHeaderSize ver2 count size ≤ headerSizeMaxBool ver2 := by
  have h1 := uleb128Size_le_of_lt (k := 9) (by decide) hsize
  have h2 := uleb128Size_le_of_lt (k := 9) (by decide) hcount
  have h3 := one_le_uleb128Size size
  unfold newHeaderSize headerSizeMaxBool
  cases ver2 with
  | false => simp only [Bool.false_eq_true, if_false, headerSizeMaxV1, ver12CrcSize]; omega
  | true =>
    simp only [if_true, headerSizeMaxV2, ver12CrcSize]
    have hlt := guAlign_lt (s := 1 + uleb128Size size + uleb128Size count + 4) (a := ver2Alignment)
      (by omega)
    have hmod := guAlign_mod (1 + uleb128Size size + uleb128Size count + 4) ver2Alignment
    simp only [ver2Alignment] at hlt hmod ⊢
    omega

/-- The loop of `header_size_v1_2` settles on a header that encodes the
    size it leaves.  By induction on the fuel: the header shrinks each
    round, and never below seven bytes. -/
theorem headerSizeV12Loop_spec : ∀ (fuel size hsize : Nat),
    newHeaderSize ver2 count size ≤ hsize → hsize ≤ fuel + 7 →
      headerSizeV12Loop ver2 count fuel size hsize ≤ hsize ∧
      newHeaderSize ver2 count (size - (hsize - headerSizeV12Loop ver2 count fuel size hsize)) =
        headerSizeV12Loop ver2 count fuel size hsize
  | 0, size, hsize, hle, hfuel => by
    have h7 := @seven_le_newHeaderSize ver2 count size
    simp only [headerSizeV12Loop, Nat.sub_self, Nat.sub_zero]
    exact ⟨Nat.le_refl _, by omega⟩
  | fuel + 1, size, hsize, hle, hfuel => by
    unfold headerSizeV12Loop
    by_cases heq : newHeaderSize ver2 count size = hsize
    · simp only [if_pos heq, Nat.sub_self, Nat.sub_zero]
      exact ⟨Nat.le_refl _, heq⟩
    · simp only [if_neg heq]
      -- a round that shrinks the header shrinks the set by as much
      have hlt : newHeaderSize ver2 count size < hsize := Nat.lt_of_le_of_ne hle heq
      have hnext := headerSizeV12Loop_spec fuel (size - (hsize - newHeaderSize ver2 count size))
        (newHeaderSize ver2 count size) (newHeaderSize_mono (Nat.sub_le _ _)) (by omega)
      obtain ⟨hle', hfix⟩ := hnext
      refine ⟨Nat.le_trans hle' (Nat.le_of_lt hlt), ?_⟩
      rw [← hfix]
      congr 1
      omega

/-- `header_size_v1_2` settles on a header no longer than the longest,
    that encodes the size of the set it leaves. -/
theorem headerSizeV12_spec {size : Nat} (hsize : size < 2 ^ 63) (hcount : count < 2 ^ 63) :
    headerSizeV12 ver2 size count ≤ headerSizeMaxBool ver2 ∧
      newHeaderSize ver2 count (size - (headerSizeMaxBool ver2 - headerSizeV12 ver2 size count)) =
        headerSizeV12 ver2 size count := by
  have hmax : headerSizeMaxBool ver2 ≤ 24 + 7 := by
    unfold headerSizeMaxBool
    cases ver2 <;> decide
  exact headerSizeV12Loop_spec 24 size (headerSizeMaxBool ver2) (newHeaderSize_le_max hsize hcount) hmax

end HeaderSize

/-! ## §2. The writer's buffers -/

theorem flatten_growBack : ∀ {bufs : List (List UInt8)} (bytes : List UInt8), bufs ≠ [] →
    (growBack bufs bytes).flatten = bufs.flatten ++ bytes
  | [], _, h => absurd rfl h
  | [_], _, _ => by simp [growBack]
  | b :: c :: bs, bytes, _ => by
    show (b :: growBack (c :: bs) bytes).flatten = _
    rw [List.flatten_cons, flatten_growBack bytes (List.cons_ne_nil c bs)]
    simp only [List.flatten_cons, List.append_assoc]

namespace RecordSetOut

/-- The writer's bytes: the first buffer is `room` zero bytes and then
    records, the buffers hold the room and `data`, and the checksum has
    seen `data`. -/
def Layout (rs : RecordSetOut) (room : Nat) (data : List UInt8) : Prop :=
  ∃ E rest, rs.bufs = (List.replicate room 0 ++ E) :: rest ∧ (E :: rest).flatten = data ∧
    rs.check = data

/-- Bytes appended through `post_append` go on at the end of `data`,
    whichever buffer takes them. -/
theorem Layout.postAlloc {rs rs' : RecordSetOut} {room : Nat} {data : List UInt8} (h : rs.Layout room data)
    (newPage : Bool) (bytes : List UInt8) (hbufs : rs'.bufs = Galera.Gu.postAlloc rs.bufs newPage bytes)
    (hcheck : rs'.check = rs.check ++ bytes) : rs'.Layout room (data ++ bytes) := by
  obtain ⟨E, rest, hb, hf, hc⟩ := h
  rw [hb] at hbufs
  refine ?_
  cases newPage with
  | true =>
    refine ⟨E, rest ++ [bytes], hbufs, ?_, by rw [hcheck, hc]⟩
    rw [← hf]
    simp
  | false =>
    cases rest with
    | nil => exact ⟨E ++ bytes, [], by simp [hbufs, Galera.Gu.postAlloc, growBack], by simpa using hf,
        by rw [hcheck, hc]⟩
    | cons r rs =>
      refine ⟨E, growBack (r :: rs) bytes, by simp [hbufs, Galera.Gu.postAlloc, growBack], ?_,
        by rw [hcheck, hc]⟩
      rw [List.flatten_cons, flatten_growBack bytes (List.cons_ne_nil r rs), ← List.append_assoc,
        ← List.flatten_cons, hf]

theorem layout_create (version : Version) (hver : version ≠ .empty) (ct : CheckType) :
    (create version hver ct).Layout (headerSizeMaxOf version hver + checkSize ct) [] :=
  ⟨[], [], by simp [create], rfl, rfl⟩

section Append

variable (rs : RecordSetOut) (record : List UInt8) (store newRecord allocatorNewPage : Bool)

@[simp] theorem appendBase_version : (rs.appendBase record store newRecord allocatorNewPage).version = rs.version :=
  rfl

@[simp] theorem appendBase_checkType :
    (rs.appendBase record store newRecord allocatorNewPage).checkType = rs.checkType := rfl

@[simp] theorem appendBase_size :
    (rs.appendBase record store newRecord allocatorNewPage).size = rs.size + record.length := rfl

theorem appendBase_count_of_newRecord (h : newRecord = true) :
    (rs.appendBase record store newRecord allocatorNewPage).count = rs.count + 1 := by
  simp [appendBase, postAppend, h]

theorem Layout.appendBase {room : Nat} {data : List UInt8} (h : rs.Layout room data) :
    (rs.appendBase record store newRecord allocatorNewPage).Layout room (data ++ record) :=
  h.postAlloc _ record rfl rfl

end Append

@[simp] theorem appendAll_cons (rs : RecordSetOut) (op : Append) (ops : List Append) :
    rs.appendAll (op :: ops) =
      (rs.appendBase op.record op.store op.newRecord op.allocatorNewPage).appendAll ops := rfl

/-- The appends keep version and check type. -/
theorem appendAll_version_checkType : ∀ (ops : List Append) (rs : RecordSetOut),
    (rs.appendAll ops).version = rs.version ∧ (rs.appendAll ops).checkType = rs.checkType
  | [], _ => ⟨rfl, rfl⟩
  | op :: ops, rs => by
    rw [appendAll_cons]
    exact appendAll_version_checkType ops _

/-- `size_` grows by every record's size. -/
theorem appendAll_size : ∀ (ops : List Append) (rs : RecordSetOut),
    (rs.appendAll ops).size = rs.size + (ops.map Append.record).flatten.length
  | [], _ => rfl
  | op :: ops, rs => by
    rw [appendAll_cons, appendAll_size ops, appendBase_size]
    simp only [List.map_cons, List.flatten_cons, List.length_append]
    omega

/-- New records count one each. -/
theorem appendAll_count : ∀ (ops : List Append) (rs : RecordSetOut), (∀ op ∈ ops, op.newRecord = true) →
    (rs.appendAll ops).count = rs.count + ops.length
  | [], _, _ => rfl
  | op :: ops, rs, h => by
    rw [appendAll_cons, appendAll_count ops _ (fun o ho => h o (List.mem_cons_of_mem _ ho)),
      appendBase_count_of_newRecord _ _ _ _ _ (h op List.mem_cons_self)]
    simp only [List.length_cons]
    omega

/-- The records go into the buffers and the checksum in the order they
    are appended. -/
theorem Layout.appendAll : ∀ (ops : List Append) {rs : RecordSetOut} {room : Nat} {data : List UInt8},
    rs.Layout room data → (rs.appendAll ops).Layout room (data ++ (ops.map Append.record).flatten)
  | [], _, _, data, h => by
    rw [List.map_nil, List.flatten_nil, List.append_nil]
    exact h
  | op :: ops, rs, _, _, h => by
    rw [appendAll_cons, List.map_cons, List.flatten_cons, ← List.append_assoc]
    exact Layout.appendAll ops (h.appendBase rs _ _ _ _)

end RecordSetOut

/-! ## §3. The header written -/

/-- What `write_header` writes before the CRC: the short VER2 word, or the
    version byte, size and count in ULEB128 and zeros up to the CRC. -/
def headerBody (short : Bool) (size count verByte hdrSize : Nat) : List UInt8 :=
  if short then leBytes 4 (RecordSetOut.ver2ShortHeader size count verByte)
  else [UInt8.ofNat verByte] ++ uleb128Encode size ++ uleb128Encode count ++
    List.replicate (hdrSize - ver12CrcSize - (1 + uleb128Size size + uleb128Size count)) 0

theorem checkSize_le (ct : CheckType) : checkSize ct ≤ 16 := by
  cases ct <;> decide

theorem checkSize_eq_zero {ct : CheckType} (h : ¬ ct ≠ .checkNone) : checkSize ct = 0 := by
  rw [not_not] at h
  rw [h]
  rfl

theorem length_checksum (bytes : Nat) (ct : CheckType) :
    ((leBytes 16 bytes).take (checkSize ct)).length = checkSize ct := by
  rw [List.length_take, Galera.Bytes.length_leBytes]
  exact Nat.min_eq_left (checkSize_le ct)

namespace RecordSetOut

/-- The ULEB128 body goes where the zeroed room starts. -/
theorem writeSizeCount_eq (E : List UInt8) {size count verByte off m : Nat}
    (hm : 1 + uleb128Size size + uleb128Size count ≤ m) :
    writeSizeCount size count verByte off (List.replicate off 0 ++ (List.replicate m 0 ++ E)) =
      (List.replicate off 0 ++ ([UInt8.ofNat verByte] ++ uleb128Encode size ++ uleb128Encode count)) ++
        (List.replicate (m - (1 + uleb128Size size + uleb128Size count)) 0 ++ E) := by
  unfold writeSizeCount
  dsimp only
  -- three writes, each where the last one ended
  rw [Galera.Bytes.overwrite_append_replicate _ E [UInt8.ofNat verByte] 0 (by simp) (by simp; omega),
    Galera.Bytes.overwrite_append_replicate _ E (uleb128Encode size) 0 (by simp)
      (by simp only [List.length_singleton, length_uleb128Encode]; omega),
    Galera.Bytes.overwrite_append_replicate _ E (uleb128Encode count) 0
      (by simp only [List.length_append, List.length_replicate, List.length_singleton])
      (by simp only [List.length_singleton, length_uleb128Encode]; omega)]
  simp only [List.length_singleton, length_uleb128Encode, List.append_assoc, Nat.sub_sub]

/-- The ULEB128 body and its zero padding up to the CRC. -/
theorem writeSizeCount_body (E : List UInt8) {size count verByte off hdrSize cs : Nat}
    (hfit : 1 + uleb128Size size + uleb128Size count + ver12CrcSize ≤ hdrSize) :
    writeSizeCount size count verByte off (List.replicate off 0 ++ (List.replicate (hdrSize + cs) 0 ++ E)) =
      (List.replicate off 0 ++ headerBody false size count verByte hdrSize) ++
        (List.replicate (4 + cs) 0 ++ E) := by
  rw [writeSizeCount_eq E (by omega),
    Galera.Bytes.replicate_append_split _ E 0 (j := hdrSize - ver12CrcSize - (1 + uleb128Size size + uleb128Size count))
      (by omega)]
  simp only [headerBody, Bool.false_eq_true, if_false, List.append_assoc, ver12CrcSize] at hfit ⊢
  rw [show hdrSize + cs - (1 + uleb128Size size + uleb128Size count) -
      (hdrSize - 4 - (1 + uleb128Size size + uleb128Size count)) = 4 + cs by omega]

/-- The `switch` of `write_header` writes the header's body where its room
    starts, and leaves the CRC's and the checksum's room. -/
theorem writeBody_eq (rs : RecordSetOut) (E : List UInt8) {verByte hdrSize off cs : Nat}
    (hshort : rs.version = .ver2 → ver2Reduction = off → hdrSize = 8)
    (hlong : ¬ (rs.version = .ver2 ∧ ver2Reduction = off) →
      1 + uleb128Size rs.size + uleb128Size rs.count + ver12CrcSize ≤ hdrSize) :
    rs.writeBody verByte hdrSize off (List.replicate off 0 ++ (List.replicate (hdrSize + cs) 0 ++ E)) =
      (List.replicate off 0 ++
          headerBody (decide (rs.version = .ver2 ∧ ver2Reduction = off)) rs.size rs.count verByte hdrSize) ++
        (List.replicate (4 + cs) 0 ++ E) := by
  have hne := rs.version_ne
  unfold writeBody
  cases hv : rs.version with
  | empty => exact absurd hv hne
  | ver1 =>
    simp only [reduceCtorEq, false_and, decide_false]
    exact writeSizeCount_body E (hlong (by simp [hv]))
  | ver2 =>
    by_cases hoff : ver2Reduction = off
    · -- the short header: one word
      have h8 := hshort hv hoff
      subst h8
      simp only [hoff, true_and, decide_true, headerBody, if_true]
      rw [Galera.Bytes.overwrite_append_replicate _ E _ 0 (by simp) (by simp; omega),
        Galera.Bytes.length_leBytes, show 8 + cs - 4 = 4 + cs by omega]
    · -- the long header: the padding zeroed, then the ULEB128 body
      simp only [true_and, hoff, decide_false]
      have hfit := hlong (by simp [hoff])
      unfold ver12CrcSize at hfit
      rw [Galera.Bytes.overwrite_replicate_self _ _ 0 (j := 4) (by simp) (by omega)]
      exact writeSizeCount_body E hfit

section Trailer

variable (fastHash32 : List UInt8 → UInt32) (mmh128 : List UInt8 → Nat)

/-- The header: its body and the body's CRC. -/
def headerWithCrc (body : List UInt8) : List UInt8 := body ++ leBytes 4 (fastHash32 body).toNat

/-- The checksum a writer appends after the header: the first
    `check_size` bytes of the hash of the records and the header. -/
def checksumBytes (check : List UInt8) (ct : CheckType) : List UInt8 :=
  (leBytes 16 (mmh128 check)).take (checkSize ct)

/-- The CRC goes after the body, and the checksum of the records and the
    header after the CRC, filling the room. -/
theorem writeTrailer_buf (rs : RecordSetOut) (body E : List UInt8) {hdrSize off : Nat}
    (hbody : body.length + ver12CrcSize = hdrSize) :
    (rs.writeTrailer fastHash32 mmh128 hdrSize off
        ((List.replicate off 0 ++ body) ++ (List.replicate (4 + checkSize rs.checkType) 0 ++ E))).2 =
      List.replicate off 0 ++ (headerWithCrc fastHash32 body ++
        (checksumBytes mmh128 (rs.check ++ headerWithCrc fastHash32 body) rs.checkType ++ E)) := by
  unfold ver12CrcSize at hbody
  have hdrop : ((List.replicate off 0 ++ body) ++ (List.replicate (4 + checkSize rs.checkType) 0 ++ E)).drop off =
      body ++ (List.replicate (4 + checkSize rs.checkType) 0 ++ E) := by
    rw [List.append_assoc, List.drop_left' (List.length_replicate ..)]
  have hcrc : (((List.replicate off 0 ++ body) ++ (List.replicate (4 + checkSize rs.checkType) 0 ++ E)).drop off).take
      (off + hdrSize - ver12CrcSize - off) = body := by
    rw [hdrop, show off + hdrSize - ver12CrcSize - off = body.length by unfold ver12CrcSize; omega, List.take_left]
  unfold writeTrailer
  dsimp only
  rw [hcrc, show off + hdrSize - ver12CrcSize = (List.replicate off (0 : UInt8) ++ body).length by
      simp only [List.length_append, List.length_replicate, ver12CrcSize]; omega,
    Galera.Bytes.overwrite_append_replicate _ E _ 0 rfl (by simp)]
  split
  · -- a checked set: the header goes into the checksum, which follows it
    have hbuf : List.replicate off 0 ++ body ++ leBytes 4 (fastHash32 body).toNat ++
        (List.replicate (4 + checkSize rs.checkType - (leBytes 4 (fastHash32 body).toNat).length) 0 ++ E) =
        List.replicate off 0 ++ (headerWithCrc fastHash32 body ++ (List.replicate (checkSize rs.checkType) 0 ++ E)) := by
      rw [Galera.Bytes.length_leBytes, show 4 + checkSize rs.checkType - 4 = checkSize rs.checkType by omega]
      simp [headerWithCrc]
    have hlen : (List.replicate off (0 : UInt8) ++ body).length + 4 = off + (headerWithCrc fastHash32 body).length := by
      simp only [headerWithCrc, List.length_append, List.length_replicate, Galera.Bytes.length_leBytes]
      omega
    rw [hbuf, hlen, Nat.add_sub_cancel_left, List.drop_left' (List.length_replicate ..), List.take_left,
      ← List.append_assoc, Galera.Bytes.overwrite_append_replicate _ E _ 0 (by simp) (Nat.le_of_eq (length_checksum _ _)),
      length_checksum, Nat.sub_self]
    simp [checksumBytes]
  · -- no checksum, no room for one
    rename_i hnone
    rw [checkSize_eq_zero hnone]
    simp [headerWithCrc, checksumBytes, checkSize_eq_zero hnone]

theorem writeTrailer_size (rs : RecordSetOut) (hdrSize off : Nat) (buf : List UInt8) :
    (rs.writeTrailer fastHash32 mmh128 hdrSize off buf).1.size = rs.size ∧
    (rs.writeTrailer fastHash32 mmh128 hdrSize off buf).1.count = rs.count ∧
    (rs.writeTrailer fastHash32 mmh128 hdrSize off buf).1.version = rs.version := by
  unfold writeTrailer
  dsimp only
  split <;> exact ⟨rfl, rfl, rfl⟩

end Trailer

/-- The offset of the header in its room. -/
def hdrOffset (rs : RecordSetOut) : Nat := rs.headerSizeMax - rs.headerSize

/-- The header the writer settles on fits what it encodes: the short
    header for a set of at most `VER2_SIZE_MAX` bytes and `VER2_COUNT_MAX`
    records, else the ULEB128 size and count and the CRC, aligned. -/
structure HeaderFits (rs : RecordSetOut) : Prop where
  le_max : rs.headerSize ≤ rs.headerSizeMax
  short : rs.version = .ver2 → ver2Reduction = rs.hdrOffset →
    rs.headerSize = 8 ∧ 1 ≤ rs.size - rs.hdrOffset ∧ rs.size - rs.hdrOffset ≤ ver2SizeMax ∧
      1 ≤ rs.count ∧ rs.count ≤ ver2CountMax
  long : ¬ (rs.version = .ver2 ∧ ver2Reduction = rs.hdrOffset) →
    rs.headerSize =
      guAlign (1 + uleb128Size (rs.size - rs.hdrOffset) + uleb128Size rs.count + ver12CrcSize)
        (rsetAlignment rs.version)

/-- The header `write_header` writes: its body and the body's CRC. -/
def header (fastHash32 : List UInt8 → UInt32) (rs : RecordSetOut) : List UInt8 :=
  headerWithCrc fastHash32
    (headerBody (decide (rs.version = .ver2 ∧ ver2Reduction = rs.hdrOffset)) (rs.size - rs.hdrOffset) rs.count
      (versionByte rs.version rs.checkType) rs.headerSize)

theorem rsetAlignment_pos (ver : Version) : 0 < rsetAlignment ver := by
  unfold rsetAlignment
  split <;> decide

/-- The body fills the header up to its CRC. -/
theorem HeaderFits.length_body {rs : RecordSetOut} (h : rs.HeaderFits) :
    (headerBody (decide (rs.version = .ver2 ∧ ver2Reduction = rs.hdrOffset)) (rs.size - rs.hdrOffset) rs.count
      (versionByte rs.version rs.checkType) rs.headerSize).length + ver12CrcSize = rs.headerSize := by
  by_cases hs : rs.version = .ver2 ∧ ver2Reduction = rs.hdrOffset
  · have h8 := (h.short hs.1 hs.2).1
    simp only [hs, and_self, decide_true, headerBody, if_true, Galera.Bytes.length_leBytes, ver12CrcSize]
    omega
  · have hle := le_guAlign (s := 1 + uleb128Size (rs.size - rs.hdrOffset) + uleb128Size rs.count + ver12CrcSize)
      (rsetAlignment_pos rs.version)
    rw [← h.long hs] at hle
    simp only [hs, decide_false, headerBody, Bool.false_eq_true, if_false, List.length_append,
      List.length_singleton, length_uleb128Encode, List.length_replicate, ver12CrcSize] at hle ⊢
    omega

section WriteHeader

variable (fastHash32 : List UInt8 → UInt32) (mmh128 : List UInt8 → Nat)

/-- `write_header` on the room and the records after it: the header and
    the checksum end where the room does. -/
theorem writeHeader_buf (rs : RecordSetOut) (E : List UInt8) (h : rs.HeaderFits) :
    (rs.writeHeader fastHash32 mmh128 (List.replicate (rs.headerSizeMax + checkSize rs.checkType) 0 ++ E)).2.1 =
      List.replicate rs.hdrOffset 0 ++ (rs.header fastHash32 ++
        (checksumBytes mmh128 (rs.check ++ rs.header fastHash32) rs.checkType ++ E)) := by
  have hroom : List.replicate (rs.headerSizeMax + checkSize rs.checkType) (0 : UInt8) ++ E =
      List.replicate rs.hdrOffset 0 ++ (List.replicate (rs.headerSize + checkSize rs.checkType) 0 ++ E) := by
    rw [← List.append_assoc, ← List.replicate_add, hdrOffset]
    congr 2
    have := h.le_max
    omega
  unfold writeHeader
  dsimp only
  rw [hroom, show rs.headerSizeMax - rs.headerSize = rs.hdrOffset from rfl]
  rw [writeBody_eq { rs with size := rs.size - rs.hdrOffset } E (fun hv hoff => (h.short hv hoff).1)
    (fun hs => by
      have hle := le_guAlign (s := 1 + uleb128Size (rs.size - rs.hdrOffset) + uleb128Size rs.count + ver12CrcSize)
        (rsetAlignment_pos rs.version)
      rw [← h.long hs] at hle
      exact hle)]
  exact writeTrailer_buf fastHash32 mmh128 _ _ E h.length_body

theorem writeHeader_fields (rs : RecordSetOut) (buf : List UInt8) :
    (rs.writeHeader fastHash32 mmh128 buf).2.2 = rs.hdrOffset ∧
    (rs.writeHeader fastHash32 mmh128 buf).1.size = rs.size - rs.hdrOffset ∧
    (rs.writeHeader fastHash32 mmh128 buf).1.count = rs.count ∧
    (rs.writeHeader fastHash32 mmh128 buf).1.version = rs.version := by
  unfold writeHeader
  exact ⟨rfl, writeTrailer_size fastHash32 mmh128 _ _ _ _⟩

end WriteHeader

/-! ### Padding and `gather` -/

section Pad

variable (rs : RecordSetOut) (allocatorNewPage : Bool)

/-- The padding keeps the header's inputs. -/
theorem padVer2_fields :
    (rs.padVer2 allocatorNewPage).1.size = rs.size ∧ (rs.padVer2 allocatorNewPage).1.count = rs.count ∧
    (rs.padVer2 allocatorNewPage).1.version = rs.version ∧
    (rs.padVer2 allocatorNewPage).1.checkType = rs.checkType := by
  unfold padVer2
  split <;> exact ⟨rfl, rfl, rfl, rfl⟩

/-- The padding goes after the records. -/
theorem Layout.padVer2 {room : Nat} {data : List UInt8} (h : rs.Layout room data) :
    (rs.padVer2 allocatorNewPage).1.Layout room (data ++ List.replicate (rs.padVer2 allocatorNewPage).2 0) := by
  unfold RecordSetOut.padVer2
  split
  · exact h.postAlloc _ _ rfl rfl
  · simpa using h

/-- VER2 pads the set to a multiple of `VER2_ALIGNMENT`; VER1 does not
    pad. -/
theorem padVer2_aligned :
    (rs.version = .ver2 → (rs.size + (rs.padVer2 allocatorNewPage).2) % ver2Alignment = 0) ∧
    (rs.version ≠ .ver2 → (rs.padVer2 allocatorNewPage).2 = 0) := by
  unfold padVer2
  split
  · rename_i hpad
    refine ⟨fun _ => ?_, fun hv => absurd hpad.1 hv⟩
    have := Nat.mod_lt rs.size (show 0 < ver2Alignment by decide)
    simp only [ver2Alignment] at this ⊢
    omega
  · rename_i hpad
    refine ⟨fun hv => ?_, fun _ => rfl⟩
    simp only [hv, true_and, not_not] at hpad
    simpa using hpad

/-- The padding is shorter than the alignment. -/
theorem padVer2_lt : (rs.padVer2 allocatorNewPage).2 < ver2Alignment := by
  unfold padVer2
  split
  · have := Nat.mod_lt rs.size (show 0 < ver2Alignment by decide)
    rename_i hpad
    dsimp only
    omega
  · exact show 0 < ver2Alignment by decide

end Pad

/-! ### The header depends on version, size and count only -/

section Congr

variable {rs rs' : RecordSetOut} (hv : rs'.version = rs.version)

include hv in
theorem headerSizeMax_congr : rs'.headerSizeMax = rs.headerSizeMax := by
  obtain ⟨v, _, _, _, _, _, _, hne, _⟩ := rs
  obtain ⟨v', _, _, _, _, _, _, hne', _⟩ := rs'
  dsimp only at hv
  subst hv
  rfl

variable (hs : rs'.size = rs.size) (hc : rs'.count = rs.count)

include hv hs hc in
theorem headerSize_congr : rs'.headerSize = rs.headerSize := by
  unfold headerSize
  rw [hv, hs, hc]

include hv hs hc in
theorem hdrOffset_congr : rs'.hdrOffset = rs.hdrOffset := by
  unfold hdrOffset
  rw [headerSizeMax_congr hv, headerSize_congr hv hs hc]

include hv hs hc in
theorem HeaderFits.congr (h : rs.HeaderFits) : rs'.HeaderFits := by
  have hmax := headerSizeMax_congr hv
  have hsize := headerSize_congr hv hs hc
  have hoff := hdrOffset_congr hv hs hc
  exact ⟨by rw [hmax, hsize]; exact h.le_max,
    fun hv2 hred => by rw [hsize, hoff, hs, hc]; exact h.short (hv ▸ hv2) (hoff ▸ hred),
    fun hl => by
      rw [hsize, hoff, hs, hc, hv]
      exact h.long (by rw [← hv, ← hoff]; exact hl)⟩

include hv hs hc in
theorem header_congr (fastHash32 : List UInt8 → UInt32) (hct : rs'.checkType = rs.checkType) :
    rs'.header fastHash32 = rs.header fastHash32 := by
  unfold header
  rw [hdrOffset_congr hv hs hc, headerSize_congr hv hs hc, hv, hs, hc, hct]

end Congr

/-- `gather` hands out the header, the checksum, the records and the
    padding, and reports as many bytes: the set without the unused
    header room, and the padding. -/
theorem gather_spec (fastHash32 : List UInt8 → UInt32) (mmh128 : List UInt8 → Nat) (rs : RecordSetOut)
    (allocatorNewPage : Bool) {data : List UInt8}
    (hlay : rs.Layout (rs.headerSizeMax + checkSize rs.checkType) data) (hcount : rs.count ≠ 0)
    (hfits : rs.HeaderFits) :
    (rs.gather fastHash32 mmh128 allocatorNewPage).2.1.flatten =
        rs.header fastHash32 ++
          (checksumBytes mmh128 (data ++ List.replicate (rs.padVer2 allocatorNewPage).2 0 ++ rs.header fastHash32)
              rs.checkType ++ (data ++ List.replicate (rs.padVer2 allocatorNewPage).2 0)) ∧
      (rs.gather fastHash32 mmh128 allocatorNewPage).2.2 = rs.size - rs.hdrOffset + (rs.padVer2 allocatorNewPage).2 ∧
      (rs.gather fastHash32 mmh128 allocatorNewPage).1.size = rs.size - rs.hdrOffset ∧
      (rs.gather fastHash32 mmh128 allocatorNewPage).1.count = rs.count ∧
      (rs.gather fastHash32 mmh128 allocatorNewPage).1.version = rs.version := by
  obtain ⟨hps, hpc, hpv, hpct⟩ := padVer2_fields rs allocatorNewPage
  have hplay := hlay.padVer2 rs allocatorNewPage
  rw [← headerSizeMax_congr hpv, ← hpct] at hplay
  have hpfits := hfits.congr hpv hps hpc
  have hhdr := header_congr hpv hps hpc fastHash32 hpct
  have hoff := hdrOffset_congr hpv hps hpc
  obtain ⟨E, rest, hbufs, hflat, hcheck⟩ := hplay
  obtain ⟨hwoff, hwsize, hwcount, hwver⟩ :=
    writeHeader_fields fastHash32 mmh128 (rs.padVer2 allocatorNewPage).1
      (List.replicate ((rs.padVer2 allocatorNewPage).1.headerSizeMax + checkSize (rs.padVer2 allocatorNewPage).1.checkType) 0 ++ E)
  have hwbuf := writeHeader_buf fastHash32 mmh128 (rs.padVer2 allocatorNewPage).1 E hpfits
  unfold gather
  rw [if_pos hcount]
  dsimp only
  split
  · rename_i h
    exact absurd h (rs.padVer2 allocatorNewPage).1.bufs_ne
  · rename_i front rest' h
    rw [hbufs] at h
    obtain ⟨rfl, rfl⟩ := List.cons.inj h
    dsimp only
    refine ⟨?_, ?_, ?_, ?_, ?_⟩
    · -- the first buffer from the header on, then the other buffers
      have hflat' : E ++ rest.flatten = data ++ List.replicate (rs.padVer2 allocatorNewPage).2 0 := by
        rw [← List.flatten_cons]
        exact hflat
      rw [hwoff, hwbuf, List.drop_left' (List.length_replicate ..), hcheck, hhdr]
      simp only [List.flatten_cons, List.append_assoc, hflat', hpct]
    · rw [hwsize, hps, hoff]
    · rw [hwsize, hps, hoff]
    · rw [hwcount, hpc]
    · rw [hwver, hpv]

/-! ### The header fits -/

theorem ver2CountMax_eq : ver2CountMax = 1024 := rfl

theorem ver2SizeMax_eq : ver2SizeMax = 16384 := rfl

theorem ver2Reduction_eq : ver2Reduction = 16 := rfl

theorem headerSizeMax_ver1 {rs : RecordSetOut} (hv : rs.version = .ver1) : rs.headerSizeMax = headerSizeMaxV1 := by
  obtain ⟨v, _, _, _, _, _, _, _, _⟩ := rs
  dsimp only at hv
  subst hv
  rfl

theorem headerSizeMax_ver2 {rs : RecordSetOut} (hv : rs.version = .ver2) : rs.headerSizeMax = headerSizeMaxV2 := by
  obtain ⟨v, _, _, _, _, _, _, _, _⟩ := rs
  dsimp only at hv
  subst hv
  rfl

/-- The long VER2 header is never the 8 bytes of the short one: its size
    or its count needs more than the three bytes that would leave. -/
theorem long_ne_short {size count : Nat} (hred : ¬ (count ≤ 1024 ∧ size - 16 ≤ 16384))
    (hcount : count + 24 ≤ size)
    (hfix : newHeaderSize true count (size - 16) = 8) : False := by
  have hle := le_guAlign (s := 1 + uleb128Size (size - 16) + uleb128Size count + ver12CrcSize)
    (a := ver2Alignment) (by decide)
  unfold newHeaderSize at hfix
  simp only [if_true] at hfix
  rw [hfix] at hle
  unfold ver12CrcSize at hle
  have hc1 := one_le_uleb128Size count
  have hs1 := one_le_uleb128Size (size - 16)
  by_cases hsz : size - 16 ≤ 16384
  · -- too many records for the short header: the count takes two bytes
    have hc : 1024 < count := by omega
    have hc2 : 2 ≤ uleb128Size count := by
      by_contra hlt
      have := @lt_of_uleb128Size_le count 1 (by decide) (by omega)
      omega
    have := @lt_of_uleb128Size_le (size - 16) 1 (by decide) (by omega)
    omega
  · -- too many bytes for the short header: the size takes three
    have := @lt_of_uleb128Size_le (size - 16) 2 (by decide) (by omega)
    omega

/-- A set of fewer than `2 ^ 63` bytes, with at least one and fewer than
    `2 ^ 31` records and a byte at least per record, gets a header that
    fits what it encodes. -/
theorem headerFits_of_lt (rs : RecordSetOut) (hsize : rs.size < 2 ^ 63) (hcount : rs.count < 2 ^ 31)
    (hpos : 1 ≤ rs.count) (hrec : rs.headerSizeMax + rs.count ≤ rs.size) : rs.HeaderFits := by
  have hc63 : rs.count < 2 ^ 63 := Nat.lt_of_lt_of_le hcount (Nat.pow_le_pow_right (by decide) (by decide))
  have hne := rs.version_ne
  cases hv : rs.version with
  | empty => exact absurd hv hne
  | ver1 =>
    have hmax := headerSizeMax_ver1 hv
    have hsz : rs.headerSize = headerSizeV12 false rs.size rs.count := by
      unfold headerSize
      rw [hv]
      rfl
    obtain ⟨hle, hfix⟩ := @headerSizeV12_spec false _ _ hsize hc63
    have hoff : rs.hdrOffset = headerSizeMaxV1 - headerSizeV12 false rs.size rs.count := by
      rw [hdrOffset, hmax, hsz]
    refine ⟨by rw [hmax, hsz]; exact hle, fun h => absurd (hv.symm.trans h) (by decide), fun _ => ?_⟩
    rw [hsz, hoff, rsetAlignment, if_neg (by rw [hv]; decide), guAlign_one (by unfold ver12CrcSize; omega)]
    exact hfix.symm
  | ver2 =>
    have hmax := headerSizeMax_ver2 hv
    unfold headerSizeMaxV2 ver12CrcSize at hmax
    by_cases hred : rs.count ≤ ver2CountMax ∧ rs.size - ver2Reduction ≤ ver2SizeMax
    · -- the short header
      have hsz : rs.headerSize = 8 := by
        unfold headerSize
        rw [hv]
        exact if_pos hred
      have hoff : rs.hdrOffset = 16 := by rw [hdrOffset, hmax, hsz]
      rw [ver2CountMax_eq, ver2SizeMax_eq, ver2Reduction_eq] at hred
      refine ⟨by omega, fun _ _ => ?_, fun h => absurd ⟨hv, by rw [hoff]; rfl⟩ h⟩
      rw [hoff, ver2SizeMax_eq, ver2CountMax_eq]
      omega
    · -- the long header, the fixpoint of `header_size_v1_2`
      have hsz : rs.headerSize = headerSizeV12 true rs.size rs.count := by
        unfold headerSize
        rw [hv]
        exact if_neg hred
      obtain ⟨hle, hfix⟩ := @headerSizeV12_spec true _ _ hsize hc63
      have hoff : rs.hdrOffset = 24 - headerSizeV12 true rs.size rs.count := by rw [hdrOffset, hmax, hsz]
      rw [ver2CountMax_eq, ver2SizeMax_eq, ver2Reduction_eq] at hred
      refine ⟨by rw [hmax, hsz]; exact hle, fun _ hred' => ?_, fun _ => ?_⟩
      · rw [ver2Reduction_eq, hoff] at hred'
        have h8 : headerSizeV12 true rs.size rs.count = 8 := by
          unfold headerSizeMaxBool headerSizeMaxV2 ver12CrcSize at hle
          simp only [if_true] at hle
          omega
        unfold headerSizeMaxBool headerSizeMaxV2 ver12CrcSize at hfix
        simp only [if_true, h8] at hfix
        exact (long_ne_short hred (by omega) hfix).elim
      · rw [hsz, hoff, rsetAlignment, if_pos hv]
        exact hfix.symm

end RecordSetOut

end Galera.Gu
