/-
  Galera.Cert.Test
  ────────────────
  **THE CERTIFICATION TEST OF ONE WRITE SET (protocol versions 3 and 4).**

  Transcribes, from src/galera/src/certification.cpp,

    * `check_against<REF_KEY_TYPE>`  — one reference of a found entry,
    * `certify_and_depend_v3to4`     — the cascade EXCLUSIVE, then (for an
                                       exclusive key) SEMI and SHARED,
    * `certify_v3to4`                — lookup or creation of the entry,
    * `do_test_v3to4`                — the key loop, the reference loop and
                                       the clean-up loop after a collision,
    * `do_test`, `do_test_preordered`, `test`.

  State is passed explicitly: every function returns the updated trx and
  index.  The two fatal paths that cannot be taken (`could not find key`
  after the key loop; a version other than 3 or 4) are discussed where they
  stand.
-/
import Mathlib
import Galera.Cert.Types

namespace Galera.Cert

variable {S K : Type} [DecidableEq S] [DecidableEq K]

/-! ## §1. One reference. -/

/-- The `switch (REF_KEY_TYPE)` of `check_against` once the SEMI case is
reached with the flag `conflict`: a conflict needs the reference inside the
certification interval and either the flag or another source. -/
def semiCase (conflict : Bool) (refTrx trx : TrxHandle S K) : Bool :=
  decide (refTrx.globalSeqno > trx.lastSeenSeqno) &&
    (conflict || decide (trx.sourceId ≠ refTrx.sourceId))

/-- Whether the reference `refTrx` of type `refType` conflicts with `trx`:
the EXCLUSIVE case sets the flag to the TOI bit and falls through into the
SEMI case; the SHARED case does nothing. -/
def refConflict (refType : KeyType) (refTrx trx : TrxHandle S K) : Bool :=
  match refType with
  | .exclusive => semiCase refTrx.isToi refTrx trx
  | .semi => semiCase false refTrx trx
  | .shared => false

/-- `check_against<refType>(found, key, keyType, trx, log, depends_seqno)`:
the conflict flag and the in/out `depends_seqno`.  On a conflict the local
`depends_seqno` becomes -1; otherwise an exclusive key, or an exclusive
reference, raises it to the reference's seqno. -/
def checkAgainst (refType : KeyType) (found : KeyEntryNG S K) (keyType : KeyType)
    (trx : TrxHandle S K) (dependsSeqno : Int) : Bool × Int :=
  match found.refs refType with
  | none => (false, dependsSeqno)
  | some refTrx =>
    if refConflict refType refTrx trx then (true, -1)
    else if keyType = .exclusive ∨ refType = .exclusive then
      (false, max refTrx.globalSeqno dependsSeqno)
    else (false, dependsSeqno)

/-! ## §2. One key. -/

/-- `certify_and_depend_v3to4`: `true` on a conflict.  The cascade is
`check_against<EXCLUSIVE> || (key_type == EXCLUSIVE && (check_against<SEMI>
|| check_against<SHARED>))`, threading the local `depends_seqno`; the trx's
own `depends_seqno` is raised only when nothing conflicted. -/
def certifyAndDependV3to4 (found : KeyEntryNG S K) (key : KeyPart K)
    (trx : TrxHandle S K) : Bool × TrxHandle S K :=
  let keyType := key.wsrepType trx.version
  let raise (d : Int) : TrxHandle S K :=
    if d > trx.dependsSeqno then trx.setDependsSeqno d else trx
  let (cEx, d₁) := checkAgainst .exclusive found keyType trx trx.dependsSeqno
  if cEx then (true, trx)
  else if keyType = .exclusive then
    let (cSemi, d₂) := checkAgainst .semi found keyType trx d₁
    if cSemi then (true, trx)
    else
      let (cSh, d₃) := checkAgainst .shared found keyType trx d₂
      if cSh then (true, trx) else (false, raise d₃)
  else (false, raise d₁)

/-- `certify_v3to4`: `true` on a collision.  A key without an entry gets a
fresh one when keys are stored; a TOI trx is never checked. -/
def certifyV3to4 (idx : CertIndexNG S K) (key : KeyPart K) (trx : TrxHandle S K)
    (storeKeys : Bool) : Bool × CertIndexNG S K × TrxHandle S K :=
  match idx key.hash with
  | none =>
    (false, if storeKeys then Function.update idx key.hash (some .empty) else idx, trx)
  | some kep =>
    if trx.isToi then (false, idx, trx)
    else
      let (c, trx') := certifyAndDependV3to4 kep key trx
      (c, idx, trx')

/-! ## §3. The key set. -/

/-- Where the key loop of `do_test_v3to4` ends: every key passed, or
`goto cert_fail` after `processed` keys. -/
inductive KeyLoop (S K : Type) where
  | passed (idx : CertIndexNG S K) (trx : TrxHandle S K)
  | failed (idx : CertIndexNG S K) (trx : TrxHandle S K) (processed : ℕ)

/-- One more key was processed before the loop ended. -/
def KeyLoop.bump {S K : Type} : KeyLoop S K → KeyLoop S K
  | .passed idx trx => .passed idx trx
  | .failed idx trx processed => .failed idx trx (processed + 1)

/-- The key loop `for (; processed < key_count; ++processed)` of
`do_test_v3to4`. -/
def certifyKeys (storeKeys : Bool) :
    CertIndexNG S K → TrxHandle S K → List (KeyPart K) → KeyLoop S K
  | idx, trx, [] => .passed idx trx
  | idx, trx, key :: keys =>
    match certifyV3to4 idx key trx storeKeys with
    | (true, idx', trx') => .failed idx' trx' 0
    | (false, idx', trx') => (certifyKeys storeKeys idx' trx' keys).bump

/-- The reference loop after a successful key loop: `kep->ref(type, k, trx)`
for every key.  Every key has an entry by then (`certifyKeys_passed_mem`
in `Galera.Cert.Verdict`), so the `could not find key` throw is not modelled. -/
def refKeys (trx : TrxHandle S K) (idx : CertIndexNG S K) : List (KeyPart K) → CertIndexNG S K
  | [] => idx
  | k :: ks =>
    refKeys trx
      (match idx k.hash with
       | some kep => Function.update idx k.hash (some (kep.ref (k.wsrepType trx.version) trx))
       | none => idx) ks

/-- The clean-up loop after `cert_fail`, over the `processed` keys before
the colliding one: an entry that holds no reference was created by this trx
and is erased; a missing entry is skipped. -/
def rollbackKeys (idx : CertIndexNG S K) : List (KeyPart K) → CertIndexNG S K
  | [] => idx
  | k :: ks =>
    rollbackKeys
      (match idx k.hash with
       | some kep => if kep.referenced then idx else Function.update idx k.hash none
       | none => idx) ks

/-- `do_test_v3to4(trx, store_keys)`. -/
def doTestV3to4 (c : Certification S K) (trx : TrxHandle S K) (storeKeys : Bool) :
    TestResult × TrxHandle S K × Certification S K :=
  match certifyKeys storeKeys c.certIndexNg trx trx.keys with
  | .passed idx trx₁ =>
    let trx₂ := trx₁.setDependsSeqno (max trx₁.dependsSeqno c.lastPaUnsafe)
    if storeKeys then
      (.testOk, trx₂,
        { c with certIndexNg := refKeys trx₂ idx trx.keys
                 lastPaUnsafe := if trx₂.paUnsafe then trx₂.globalSeqno else c.lastPaUnsafe })
    else (.testOk, trx₂, { c with certIndexNg := idx })
  | .failed idx trx₁ processed =>
    (.testFailed, trx₁,
      { c with certIndexNg := if storeKeys then rollbackKeys idx (trx.keys.take processed) else idx })

/-! ## §4. The entry points. -/

/-- `trx_cert_version_match`: protocols 1 to 3 certify their own write set
version only, protocol 4 certifies versions 3 and 4. -/
def trxCertVersionMatch (trxVersion certVersion : Nat) : Bool :=
  if certVersion ≤ 3 then trxVersion = certVersion
  else 3 ≤ trxVersion && trxVersion ≤ certVersion

/-- The parent seqno that `do_test` starts from: the previous seqno for TOI,
PA-unsafe trxs and an empty map, otherwise the oldest seqno of `trx_map_`
less one, or the last seen seqno when that is later and optimistic PA is
off. -/
def initialDependsSeqno (c : Certification S K) (trx : TrxHandle S K) : Int :=
  match c.trxMap with
  | [] => trx.globalSeqno - 1
  | first :: _ =>
    if trx.isToi || trx.paUnsafe then trx.globalSeqno - 1
    else if !c.optimisticPa && trx.lastSeenSeqno > first.globalSeqno - 1 then trx.lastSeenSeqno
    else first.globalSeqno - 1

/-- `do_test(trx, store_keys)`: the version and interval checks, the parent
seqno, then `do_test_v3to4` (the `switch (version_)` has only its 3/4 case
here, `Certification.version_ok`). -/
def doTest (c : Certification S K) (trx : TrxHandle S K) (storeKeys : Bool) :
    TestResult × TrxHandle S K × Certification S K :=
  if !trxCertVersionMatch trx.version c.version then (.testFailed, trx, c)
  else if trx.lastSeenSeqno < c.initialPosition ∨
      trx.globalSeqno - trx.lastSeenSeqno > c.maxLength then (.testFailed, trx, c)
  else doTestV3to4 c (trx.setDependsSeqno (initialDependsSeqno c trx)) storeKeys

/-- `do_test_preordered`: no index, the dependency is read off the write
set's PA range relative to the previous preordered seqno.  The checksum
verification (which throws) and the gap warning are not modelled. -/
def doTestPreordered (c : Certification S K) (trx : TrxHandle S K) :
    TestResult × TrxHandle S K × Certification S K :=
  (.testOk, trx.setDependsSeqno (c.lastPreorderedSeqno - trx.paRange + 1),
    { c with lastPreorderedSeqno := trx.globalSeqno, lastPreorderedId := trx.trxId })

/-- `Certification::test(trx, store_keys)`: a failed trx leaves with
`depends_seqno == -1`. -/
def test (c : Certification S K) (trx : TrxHandle S K) (storeKeys : Bool) :
    TestResult × TrxHandle S K × Certification S K :=
  let r := if trx.preordered then doTestPreordered c trx else doTest c trx storeKeys
  if r.1 = .testOk then r else (r.1, r.2.1.setDependsSeqno (-1), r.2.2)

end Galera.Cert
