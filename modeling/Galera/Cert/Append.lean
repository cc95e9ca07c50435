/-
  Galera.Cert.Append
  ──────────────────
  **THE CERTIFICATION OBJECT AS A STATE MACHINE.**

  Transcribes, from src/galera/src/certification.{hpp,cpp},

    * `purge_for_trx_v3`           — unref every key of a trx, erase the
                                     entries left unreferenced;
    * `PurgeAndDiscard`            — purge a trx of `trx_map_` if it passed;
    * `get_safe_to_discard_seqno_` — one below the oldest last-seen seqno
                                     of the uncommitted trxs;
    * `purge_trxs_upto_`, `purge_trxs_upto`;
    * `append_trx`                 — the trim on overflow, `test`, and the
                                     insertion into `trx_map_` and
                                     `deps_set_`;
    * `set_trx_committed`;
    * `assign_initial_position`;

  and the runs of the object: `CertStep` takes one of these calls, under
  what its callers guarantee, and `Reachable` closes the steps over a fresh
  object.  The `log_warn << "Missing key"` branch of `purge_for_trx_v3` is
  the only effect of its kind that is kept: the purge functions return
  whether it was taken.
-/
import Mathlib
import Galera.Cert.Test

namespace Galera.Cert

variable {S K : Type} [DecidableEq S] [DecidableEq K]

/-! ## §1. Purging. -/

/-- The loop of `purge_for_trx_v3` over the keys of `trx`: an entry whose
reference of the key's type is `trx` is unreferenced, and erased when no
reference is left.  The flag is set when a key has no entry (`"Missing
key"`, after which the loop goes on). -/
def purgeKeys (trx : TrxHandle S K) :
    CertIndexNG S K → List (KeyPart K) → CertIndexNG S K × Bool
  | idx, [] => (idx, false)
  | idx, kp :: kps =>
    match idx kp.hash with
    | none => ((purgeKeys trx idx kps).1, true)
    | some kep =>
      let p := kp.wsrepType trx.version
      if kep.refs p = some trx then
        let kep' := kep.unref p trx
        purgeKeys trx
          (if kep'.referenced then Function.update idx kp.hash (some kep')
           else Function.update idx kp.hash none) kps
      else purgeKeys trx idx kps

/-- `purge_for_trx_v3(trx)`. -/
def purgeForTrxV3 (idx : CertIndexNG S K) (trx : TrxHandle S K) : CertIndexNG S K × Bool :=
  purgeKeys trx idx trx.keys

/-- `PurgeAndDiscard` on one trx of `trx_map_`: only a trx with
`depends_seqno > -1` is purged, through `purge_for_trx`, which takes the v3
path for write set versions from 3 on (the older path works on
`cert_index_`, which is not modelled). -/
def purgeAndDiscard (idx : CertIndexNG S K) (trx : TrxHandle S K) : CertIndexNG S K × Bool :=
  if -1 < trx.dependsSeqno then
    if 3 ≤ trx.version then purgeForTrxV3 idx trx else (idx, false)
  else (idx, false)

/-- `for_each(..., PurgeAndDiscard(*this))` over a run of `trx_map_`, in
order. -/
def purgeAll : CertIndexNG S K → List (TrxHandle S K) → CertIndexNG S K × Bool
  | idx, [] => (idx, false)
  | idx, t :: ts =>
    let r := purgeAndDiscard idx t
    let r' := purgeAll r.1 ts
    (r'.1, r.2 || r'.2)

/-- `get_safe_to_discard_seqno_()`: one below the least last-seen seqno in
`deps_set_`, or `safe_to_discard_seqno_` when it is empty. -/
def getSafeToDiscardSeqno_ (c : Certification S K) : Int :=
  match c.depsSet.min? with
  | some m => m - 1
  | none => c.safeToDiscardSeqno

/-- `purge_trxs_upto_(seqno, handle_gcache)`: the trxs up to `seqno` (the
run before `trx_map_.upper_bound(seqno)`) are purged and dropped.  The
gcache release is not modelled. -/
def purgeTrxsUpto_ (c : Certification S K) (seqno : Int) : Certification S K :=
  { c with
    certIndexNg := (purgeAll c.certIndexNg (c.trxMap.takeWhile (·.globalSeqno ≤ seqno))).1
    trxMap := c.trxMap.dropWhile (·.globalSeqno ≤ seqno) }

/-- `purge_trxs_upto(seqno, handle_gcache)`: never above the safe-to-discard
seqno. -/
def purgeTrxsUpto (c : Certification S K) (seqno : Int) : Certification S K :=
  purgeTrxsUpto_ c (min seqno (getSafeToDiscardSeqno_ c))

/-! ## §2. Appending and committing. -/

/-- The trim condition of `append_trx`: `!(position_ & max_length_check_)`
and `trx_map_.size() > static_cast<size_t>(max_length_)`. -/
def trimDue (c : Certification S K) : Bool :=
  Int.land c.position c.maxLengthCheck = 0 && decide (c.trxMap.length > (c.maxLength % 2 ^ 64).toNat)

/-- `append_trx(trx)`: advance `position_`, trim `trx_map_` on overflow
(never above the safe-to-discard seqno), certify with keys stored, and
record the trx in `trx_map_` and its last-seen seqno in `deps_set_`.
`append_trx` asserts that the trx is past `position_`, so the insertion
into the ordered `trx_map_` is at its end. -/
def appendTrx (c : Certification S K) (trx : TrxHandle S K) :
    TestResult × TrxHandle S K × Certification S K :=
  let c₁ := { c with position := trx.globalSeqno }
  let c₂ :=
    if trimDue c₁ then
      purgeTrxsUpto_ c₁ (min (c₁.position - c₁.maxLength) (getSafeToDiscardSeqno_ c₁))
    else c₁
  let r := test c₂ trx true
  (r.1, r.2.1,
    { r.2.2 with trxMap := r.2.2.trxMap ++ [r.2.1],
                 depsSet := r.2.1.lastSeenSeqno :: r.2.2.depsSet })

/-- `set_trx_committed(trx)`: a certified trx gives back its last-seen seqno
to `deps_set_`; the last one out becomes `safe_to_discard_seqno_`.
`certified` is `trx->is_certified()`.  The source asserts that the seqno is
in `deps_set_`; otherwise nothing is changed here.  The returned purge hint
is not modelled. -/
def setTrxCommitted (c : Certification S K) (trx : TrxHandle S K) (certified : Bool) :
    Certification S K :=
  if certified ∧ trx.lastSeenSeqno ∈ c.depsSet then
    { c with
      safeToDiscardSeqno :=
        if c.depsSet.length = 1 then trx.lastSeenSeqno else c.safeToDiscardSeqno
      depsSet := c.depsSet.erase trx.lastSeenSeqno }
  else c

/-! ## §3. Starting over. -/

/-- `assign_initial_position(seqno, version)` for versions 3 and 4: moving
forward purges every trx, moving backwards drops the index outright; either
way the map is emptied and every position restarts at `seqno`. -/
def assignInitialPosition (c : Certification S K) (seqno : Int) (version : Nat)
    (hv : version = 3 ∨ version = 4) : Certification S K :=
  { c with
    version := version
    version_ok := hv
    certIndexNg := if seqno ≥ c.position then (purgeAll c.certIndexNg c.trxMap).1 else fun _ => none
    trxMap := []
    initialPosition := seqno
    position := seqno
    safeToDiscardSeqno := seqno
    lastPaUnsafe := seqno
    lastPreorderedSeqno := seqno
    lastPreorderedId := 0 }

/-- The object after its constructor and a first
`assign_initial_position(seqno, version)`: empty map, index and
`deps_set_`, every position at `seqno`, and the configuration
`cert.max_length`, `cert.length_check`, `cert.optimistic_pa`. -/
def Certification.init (seqno : Int) (version : Nat) (hv : version = 3 ∨ version = 4)
    (maxLength maxLengthCheck : Int) (optimisticPa : Bool) : Certification S K where
  version := version
  version_ok := hv
  trxMap := []
  certIndexNg := fun _ => none
  depsSet := []
  initialPosition := seqno
  position := seqno
  safeToDiscardSeqno := seqno
  lastPaUnsafe := seqno
  lastPreorderedSeqno := seqno
  lastPreorderedId := 0
  maxLength := maxLength
  maxLengthCheck := maxLengthCheck
  optimisticPa := optimisticPa

/-! ## §4. Runs. -/

/-- What a write set's key set looks like when it reaches certification.
`KeySetOut::append` stores a key part again only with a strictly stronger
prefix, so no key has two parts of one type; a preordered write set carries
data only. -/
def KeySetOk (trx : TrxHandle S K) : Prop :=
  (trx.keys.map fun kp => (kp.hash, kp.wsrepType trx.version)).Nodup ∧
  (trx.preordered = true → trx.keys = [])

instance (trx : TrxHandle S K) : Decidable (KeySetOk trx) :=
  inferInstanceAs (Decidable (_ ∧ _))

/-- One call on the certification object.  `append_trx` is called with a
trx past `position_` (its assertion) and a positive seqno (GCS numbers
actions from 1), whose key set came out of `KeySetOut`.  The purge bound,
the committed trx and the new initial position are arbitrary. -/
inductive CertStep : Certification S K → Certification S K → Prop
  | append (c : Certification S K) (trx : TrxHandle S K) (hpos : c.position < trx.globalSeqno)
      (hseqno : 0 < trx.globalSeqno) (hkeys : KeySetOk trx) :
      CertStep c (appendTrx c trx).2.2
  | commit (c : Certification S K) (trx : TrxHandle S K) (certified : Bool) :
      CertStep c (setTrxCommitted c trx certified)
  | purge (c : Certification S K) (seqno : Int) : CertStep c (purgeTrxsUpto c seqno)
  | assign (c : Certification S K) (seqno : Int) (version : Nat)
      (hv : version = 3 ∨ version = 4) :
      CertStep c (assignInitialPosition c seqno version hv)

/-- The states of a certification object over any sequence of calls. -/
inductive Reachable : Certification S K → Prop
  | init (seqno : Int) (version : Nat) (hv : version = 3 ∨ version = 4)
      (maxLength maxLengthCheck : Int) (optimisticPa : Bool) :
      Reachable (Certification.init seqno version hv maxLength maxLengthCheck optimisticPa)
  | step {c c' : Certification S K} (h : Reachable c) (hs : CertStep c c') : Reachable c'

end Galera.Cert
