/-
  Galera.Cert.Preordered
  ──────────────────────
  **THE PA RANGE OF A PREORDERED WRITE SET.**

  A write set carries in bytes 6–7 of its version 3 header (little-endian)
  its PA range: how many events before it it may be applied in parallel
  with, 0 meaning "not certified".  Two writers fill the field
  (src/galera/src/write_set_ng.hpp):

    * `WriteSetOut::set_preordered(pa_range)` takes the wsrep API value,
      adds 1 ("by current convention pa_range is off by 1 from wsrep API
      def"), caps it at `MAX_PA_RANGE` and passes it plus 1 to the
      `uint16_t` parameter of `Header::set_preordered`;
    * `WriteSetIn::set_seqno(seqno, pa_range)` only caps it.

  `Certification::do_test_preordered` then sets `depends_seqno` to
  `last_preordered_seqno_ - pa_range + 1` (src/galera/src/certification.cpp).

    * `Header.paRange_setPreordered`, `Header.paRange_setSeqno` — the field
      reads back what was written: the last-seen, timestamp and checksum
      writes lie after it;
    * `WriteSetOut.paRange_setPreordered` — `set_preordered(p)` stores
      `p + 2` while `p + 1 < MAX_PA_RANGE`, and 0 (the `uint16_t` wraps)
      from there on; `WriteSetIn.paRange_setSeqno` stores
      `min(p, MAX_PA_RANGE)`;
    * `lastPreorderedSeqno_runCalls` — over any run of certification calls,
      `last_preordered_seqno_` is the seqno of the last preordered write
      set appended;
    * `appendTrx_preordered_depends` — in a contiguous stream a preordered
      write set gets `depends_seqno = global_seqno - pa_range`;
    * `appendTrx_setPreordered_depends` — the two together: API range `p`
      gives `depends_seqno = global_seqno - p - 2`, or `global_seqno`
      once `p + 1` reaches `MAX_PA_RANGE`;
    * `set_preordered_pa_range_unsound` — API range 0 lets an event apply
      in parallel with the one before it, and API range `0xfffe` stores 0
      and makes an event depend on itself.
-/
import Mathlib
import Galera.Cert.PurgeRun
import Galera.Lib.Bytes

namespace Galera.Cert

open Galera.Bytes (leBytes ofLeBytes ofSigned overwrite slice length_overwrite slice_overwrite_self
  slice_overwrite_of_le)

/-! ## §1. The header field -/

/-- `WriteSetNG::MAX_PA_RANGE`. -/
def maxPaRange : Nat := 0xffff

/-- `V3_PA_RANGE_OFF`. -/
def v3PaRangeOff : Nat := 6

/-- `V3_LAST_SEEN_OFF`, which `V3_SEQNO_OFF` shares. -/
def v3LastSeenOff : Nat := 8

/-- `V3_TIMESTAMP_OFF`. -/
def v3TimestampOff : Nat := 16

/-- `V3_CHECKSUM_SIZE`. -/
def v3ChecksumSize : Nat := 8

/-- `V3_SIZE`, the least header size. -/
def v3Size : Nat := 64

namespace Header

variable (compute : List UInt8 → Nat)

/-- `Header::update_checksum(ptr, size)`: the checksum of the first `size`
    bytes, stored right after them.  `compute` is `Checksum::compute`. -/
def updateChecksum (ptr : List UInt8) (size : Nat) : List UInt8 :=
  overwrite ptr size (leBytes v3ChecksumSize (compute (ptr.take size)))

/-- `Header::set_last_seen(last_seen)` on the header bytes `ptr_[0, size_)`:
    the last-seen seqno and the timestamp `now` (`gu_time_monotonic()`),
    then the checksum over all but the last 8 bytes. -/
def setLastSeen (now : Nat) (lastSeen : Int) (ptr : List UInt8) : List UInt8 :=
  let ptr := overwrite ptr v3LastSeenOff (leBytes 8 (ofSigned 64 lastSeen))
  let ptr := overwrite ptr v3TimestampOff (leBytes 8 now)
  updateChecksum compute ptr (ptr.length - v3ChecksumSize)

/-- `Header::set_preordered(pa_range)`. -/
def setPreordered (now : Nat) (paRange : UInt16) (ptr : List UInt8) : List UInt8 :=
  setLastSeen compute now 0 (overwrite ptr v3PaRangeOff (leBytes 2 paRange.toNat))

/-- `Header::set_seqno(seqno, pa_range)`. -/
def setSeqno (seqno : Int) (paRange : UInt16) (ptr : List UInt8) : List UInt8 :=
  let ptr := overwrite ptr v3PaRangeOff (leBytes 2 paRange.toNat)
  let ptr := overwrite ptr v3LastSeenOff (leBytes 8 (ofSigned 64 seqno))
  updateChecksum compute ptr (ptr.length - v3ChecksumSize)

end Header

/-- `Header::pa_range()`. -/
def Header.paRange (ptr : List UInt8) : Nat := ofLeBytes (slice ptr v3PaRangeOff 2)

/-- `WriteSetOut::set_preordered(pa_range)` on the header; `pa_range` is an
    `ssize_t` that the source asserts non-negative. -/
def WriteSetOut.setPreordered (compute : List UInt8 → Nat) (now : Nat) (paRange : Nat)
    (header : List UInt8) : List UInt8 :=
  -- off by one from the wsrep API, 0 meaning failed certification
  let paRange := paRange + 1
  let paRange := if paRange > maxPaRange then maxPaRange else paRange
  -- the sum is converted to the `uint16_t` parameter
  Header.setPreordered compute now (UInt16.ofNat (paRange + 1)) header

/-- `WriteSetIn::set_seqno(seqno, pa_range)` on the header. -/
def WriteSetIn.setSeqno (compute : List UInt8 → Nat) (seqno : Int) (paRange : Nat)
    (header : List UInt8) : List UInt8 :=
  let paRange := if paRange > maxPaRange then maxPaRange else paRange
  Header.setSeqno compute seqno (UInt16.ofNat paRange) header

namespace Header

variable {compute : List UInt8 → Nat}

/-- The checksum goes after the PA range field of a header of at least
    `V3_SIZE` bytes, and keeps its length. -/
theorem updateChecksum_frame {ptr : List UInt8} (h : v3Size ≤ ptr.length) :
    (updateChecksum compute ptr (ptr.length - v3ChecksumSize)).length = ptr.length ∧
      paRange (updateChecksum compute ptr (ptr.length - v3ChecksumSize)) = paRange ptr := by
  unfold v3Size at h
  have hw : ptr.length - v3ChecksumSize + (leBytes v3ChecksumSize
      (compute (ptr.take (ptr.length - v3ChecksumSize)))).length ≤ ptr.length := by
    simp only [Galera.Bytes.length_leBytes, v3ChecksumSize]
    omega
  refine ⟨length_overwrite hw, ?_⟩
  unfold paRange updateChecksum
  rw [slice_overwrite_of_le (by simp only [v3PaRangeOff, v3ChecksumSize]; omega) hw]

/-- An 8-byte write at or after byte 8 keeps the PA range and the length. -/
theorem overwrite8_frame {ptr : List UInt8} {i x : Nat} (hi : v3LastSeenOff ≤ i)
    (h : i + 8 ≤ ptr.length) :
    (overwrite ptr i (leBytes 8 x)).length = ptr.length ∧
      paRange (overwrite ptr i (leBytes 8 x)) = paRange ptr := by
  have hw : i + (leBytes 8 x).length ≤ ptr.length := by
    rw [Galera.Bytes.length_leBytes]
    exact h
  refine ⟨length_overwrite hw, ?_⟩
  unfold paRange
  rw [slice_overwrite_of_le (by unfold v3PaRangeOff; unfold v3LastSeenOff at hi; omega) hw]

/-- `set_last_seen` leaves the PA range as it was. -/
theorem paRange_setLastSeen (now : Nat) (lastSeen : Int) {ptr : List UInt8} (h : v3Size ≤ ptr.length) :
    paRange (setLastSeen compute now lastSeen ptr) = paRange ptr := by
  unfold v3Size at h
  obtain ⟨hl₁, hp₁⟩ := overwrite8_frame (x := ofSigned 64 lastSeen) (Nat.le_refl _)
    (show v3LastSeenOff + 8 ≤ ptr.length by unfold v3LastSeenOff; omega)
  obtain ⟨hl₂, hp₂⟩ := overwrite8_frame (x := now) (show v3LastSeenOff ≤ v3TimestampOff by decide)
    (show v3TimestampOff + 8 ≤ _ by rw [hl₁]; unfold v3TimestampOff; omega)
  obtain ⟨-, hp₃⟩ := @updateChecksum_frame compute _
    (show v3Size ≤ _ by rw [hl₂, hl₁]; unfold v3Size; omega)
  rw [setLastSeen, hp₃, hp₂, hp₁]

/-- The PA range field reads back the value `set_preordered` wrote. -/
theorem paRange_setPreordered (now : Nat) (v : UInt16) {ptr : List UInt8} (h : v3Size ≤ ptr.length) :
    paRange (setPreordered compute now v ptr) = v.toNat := by
  have hw : v3PaRangeOff + (leBytes 2 v.toNat).length ≤ ptr.length := by
    rw [Galera.Bytes.length_leBytes]
    unfold v3Size at h
    unfold v3PaRangeOff
    omega
  have hread := slice_overwrite_self hw
  rw [Galera.Bytes.length_leBytes] at hread
  rw [setPreordered, paRange_setLastSeen now 0 (by rw [length_overwrite hw]; exact h), paRange, hread,
    Galera.Bytes.ofLeBytes_leBytes_of_lt (UInt16.toNat_lt v)]

/-- The PA range field reads back the value `set_seqno` wrote. -/
theorem paRange_setSeqno (seqno : Int) (v : UInt16) {ptr : List UInt8} (h : v3Size ≤ ptr.length) :
    paRange (setSeqno compute seqno v ptr) = v.toNat := by
  unfold v3Size at h
  have hw : v3PaRangeOff + (leBytes 2 v.toNat).length ≤ ptr.length := by
    rw [Galera.Bytes.length_leBytes]
    unfold v3PaRangeOff
    omega
  have hl₀ := length_overwrite hw
  obtain ⟨hl₁, hp₁⟩ := overwrite8_frame (x := ofSigned 64 seqno) (Nat.le_refl _)
    (show v3LastSeenOff + 8 ≤ _ by rw [hl₀]; unfold v3LastSeenOff; omega)
  obtain ⟨-, hp₂⟩ := @updateChecksum_frame compute _
    (show v3Size ≤ _ by rw [hl₁, hl₀]; unfold v3Size; omega)
  have hread := slice_overwrite_self hw
  rw [Galera.Bytes.length_leBytes] at hread
  rw [setSeqno, hp₂, hp₁, paRange, hread, Galera.Bytes.ofLeBytes_leBytes_of_lt (UInt16.toNat_lt v)]

end Header

/-! ## §2. What the two writers store -/

/-- `set_preordered(p)` stores `p + 2` while `p + 1 < MAX_PA_RANGE`; from
    there on the capped value plus 1 is `2^16`, which the `uint16_t`
    parameter wraps to 0. -/
theorem WriteSetOut.paRange_setPreordered (compute : List UInt8 → Nat) (now p : Nat) {header : List UInt8}
    (h : v3Size ≤ header.length) :
    Header.paRange (WriteSetOut.setPreordered compute now p header) =
      if p + 1 < maxPaRange then p + 2 else 0 := by
  rw [WriteSetOut.setPreordered, Header.paRange_setPreordered now _ h, UInt16.toNat_ofNat']
  unfold maxPaRange
  split_ifs with hcap hlt hlt
  · omega
  · rfl
  · rw [Nat.mod_eq_of_lt (by omega)]
  · omega

/-- `set_seqno(s, p)` stores `min(p, MAX_PA_RANGE)`, which always fits. -/
theorem WriteSetIn.paRange_setSeqno (compute : List UInt8 → Nat) (seqno : Int) (p : Nat)
    {header : List UInt8} (h : v3Size ≤ header.length) :
    Header.paRange (WriteSetIn.setSeqno compute seqno p header) = min p maxPaRange := by
  rw [WriteSetIn.setSeqno, Header.paRange_setSeqno seqno _ h, UInt16.toNat_ofNat']
  unfold maxPaRange
  split_ifs with hcap
  · rw [Nat.min_eq_right (Nat.le_of_lt hcap)]
  · rw [Nat.mod_eq_of_lt (by omega)]
    omega

/-! ## §3. Certification of a preordered stream -/

variable {S K : Type} [DecidableEq S] [DecidableEq K]

/-- `test` records a preordered trx's seqno as the last preordered one and
    leaves the record alone for any other trx. -/
theorem test_lastPreorderedSeqno (c : Certification S K) (trx : TrxHandle S K) (sk : Bool) :
    (test c trx sk).2.2.lastPreorderedSeqno =
      if trx.preordered then trx.globalSeqno else c.lastPreorderedSeqno := by
  have h := congrArg Certification.lastPreorderedSeqno (test_rest c trx sk)
  simp only at h
  rw [h]
  split_ifs <;> rfl

/-- The trim of `append_trx` does not touch `last_preordered_seqno_`. -/
theorem appendTrx_lastPreorderedSeqno (c : Certification S K) (trx : TrxHandle S K) :
    (appendTrx c trx).2.2.lastPreorderedSeqno =
      if trx.preordered then trx.globalSeqno else c.lastPreorderedSeqno := by
  unfold appendTrx
  dsimp only
  rw [test_lastPreorderedSeqno]
  split_ifs <;> rfl

/-- A preordered trx always passes, with `depends_seqno` counted back from
    the last preordered seqno. -/
theorem appendTrx_of_preordered (c : Certification S K) {trx : TrxHandle S K}
    (hp : trx.preordered = true) :
    (appendTrx c trx).1 = .testOk ∧
      (appendTrx c trx).2.1.dependsSeqno = c.lastPreorderedSeqno - trx.paRange + 1 := by
  unfold appendTrx
  dsimp only
  rw [test_of_preordered hp]
  refine ⟨rfl, ?_⟩
  simp only [doTestPreordered, TrxHandle.setDependsSeqno_dependsSeqno]
  split_ifs <;> rfl

/-- The seqno of a call that appends a preordered trx. -/
def CertCall.preorderedSeqno? : CertCall S K → Option Int
  | .append trx => if trx.preordered then some trx.globalSeqno else none
  | .commit _ _ => none
  | .purge _ => none

/-- One call sets `last_preordered_seqno_` to its preordered seqno, if it
    has one. -/
theorem CertCall.run_lastPreorderedSeqno (c : Certification S K) (call : CertCall S K) :
    (call.run c).lastPreorderedSeqno = call.preorderedSeqno?.getD c.lastPreorderedSeqno := by
  cases call with
  | append trx =>
    rw [CertCall.run, appendTrx_lastPreorderedSeqno, CertCall.preorderedSeqno?]
    split_ifs <;> rfl
  | commit trx certified =>
    rw [CertCall.run, setTrxCommitted]
    split_ifs <;> rfl
  | purge seqno => rfl

/-- Over a whole run, `last_preordered_seqno_` is the seqno of the last
    preordered trx appended, or what it was when none is. -/
theorem lastPreorderedSeqno_runCalls (c : Certification S K) (calls : List (CertCall S K)) :
    (runCalls c calls).lastPreorderedSeqno =
      ((calls.filterMap CertCall.preorderedSeqno?).getLast?).getD c.lastPreorderedSeqno := by
  induction calls generalizing c with
  | nil => rfl
  | cons call calls ih =>
    rw [runCalls, ih, CertCall.run_lastPreorderedSeqno]
    -- the call's own seqno counts only when no later call has one
    cases hcall : call.preorderedSeqno? with
    | none => simp [hcall]
    | some g =>
      rw [List.filterMap_cons, hcall, List.getLast?_cons]
      cases (calls.filterMap CertCall.preorderedSeqno?).getLast? <;> rfl

/-- A preordered trx appended after any run, right after the previous
    preordered seqno, passes with `depends_seqno = global_seqno - pa_range`. -/
theorem appendTrx_preordered_depends (c : Certification S K) (calls : List (CertCall S K))
    {trx : TrxHandle S K} (hp : trx.preordered = true)
    (hcont : ((calls.filterMap CertCall.preorderedSeqno?).getLast?).getD c.lastPreorderedSeqno =
      trx.globalSeqno - 1) :
    (appendTrx (runCalls c calls) trx).1 = .testOk ∧
      (appendTrx (runCalls c calls) trx).2.1.dependsSeqno = trx.globalSeqno - trx.paRange := by
  obtain ⟨hok, hd⟩ := appendTrx_of_preordered (runCalls c calls) hp
  refine ⟨hok, ?_⟩
  rw [hd, lastPreorderedSeqno_runCalls, hcont]
  omega

/-- The stream end to end: a preordered write set sent with API range `p`
    waits for event `global_seqno - p - 2`, or, once `p + 1` reaches
    `MAX_PA_RANGE`, for its own seqno. -/
theorem appendTrx_setPreordered_depends (c : Certification S K) (calls : List (CertCall S K))
    (compute : List UInt8 → Nat) (now p : Nat) {header : List UInt8} (hh : v3Size ≤ header.length)
    {trx : TrxHandle S K} (hp : trx.preordered = true)
    (hr : trx.paRange = Header.paRange (WriteSetOut.setPreordered compute now p header))
    (hcont : ((calls.filterMap CertCall.preorderedSeqno?).getLast?).getD c.lastPreorderedSeqno =
      trx.globalSeqno - 1) :
    (appendTrx (runCalls c calls) trx).2.1.dependsSeqno =
      if p + 1 < maxPaRange then trx.globalSeqno - p - 2 else trx.globalSeqno := by
  rw [(appendTrx_preordered_depends c calls hp hcont).2, hr,
    WriteSetOut.paRange_setPreordered compute now p hh]
  split_ifs <;> omega

/-! ## §4. The API range is off by one, and wraps -/

/-- A preordered trx at seqno `g` whose header was zero before
    `set_preordered(p)`. -/
def preorderedTrx (g : Int) (p : Nat) : TrxHandle Nat Nat :=
  { globalSeqno := g, lastSeenSeqno := 0, dependsSeqno := -1, sourceId := 0, trxId := g.toNat,
    isToi := false, paUnsafe := false, preordered := true,
    paRange := Header.paRange (WriteSetOut.setPreordered (fun _ => 0) 0 p (List.replicate v3Size 0)),
    version := 4, keys := [] }

/-- A certification object started at seqno 0, version 4. -/
def preorderedCert : Certification Nat Nat :=
  Certification.init 0 4 Certification.version_four_ok 0 0 false

/-- Two preordered events at seqnos 1 and 2.  Sent with API range 0, the
    second stores range 2 and depends on seqno 0, so it may be applied in
    parallel with the first.  Sent with API range `0xfffe`, it stores 0,
    which reads as "not certified", and depends on its own seqno 2. -/
theorem set_preordered_pa_range_unsound :
    (preorderedTrx 2 0).paRange = 2 ∧
      (appendTrx (runCalls preorderedCert [.append (preorderedTrx 1 0)]) (preorderedTrx 2 0)).2.1.dependsSeqno = 0 ∧
      (preorderedTrx 2 0xfffe).paRange = 0 ∧
      (appendTrx (runCalls preorderedCert [.append (preorderedTrx 1 0)])
        (preorderedTrx 2 0xfffe)).2.1.dependsSeqno = 2 := by
  have hlen : v3Size ≤ (List.replicate v3Size (0 : UInt8)).length := by simp
  have h0 : (preorderedTrx 2 0).paRange = 2 := WriteSetOut.paRange_setPreordered _ 0 0 hlen
  have h1 : (preorderedTrx 2 0xfffe).paRange = 0 := WriteSetOut.paRange_setPreordered _ 0 0xfffe hlen
  refine ⟨h0, ?_, h1, ?_⟩
  · rw [(appendTrx_preordered_depends preorderedCert _ rfl rfl).2, h0]
    rfl
  · rw [(appendTrx_preordered_depends preorderedCert _ rfl rfl).2, h1]
    rfl

end Galera.Cert
