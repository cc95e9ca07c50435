/-
  Galera.Cert.Types
  ─────────────────
  **THE DATA OF CERTIFICATION (protocol versions 3 and 4).**

  The parts of `galera::Certification` that `do_test_v3to4`,
  `purge_for_trx_v3` and `append_trx` read and write
  (src/galera/src/certification.{hpp,cpp}, key_entry_ng.hpp, key_set.hpp):

    * `KeyType`       — `wsrep_key_type_t`: SHARED, SEMI, EXCLUSIVE;
    * `KeyPart`       — one part of a write set's key set: the key hash that
                        `KeyPart::matches` compares, and its prefix bits;
    * `TrxHandle`     — the write set fields certification reads;
    * `KeyEntryNG`    — one index entry: a trx reference per key type;
    * `Certification` — the certification object.

  `cert_index_ng_` is a hash set of entries looked up by key hash; it is a
  partial map from key hash to entry here.  A reference to a trx is the trx
  record, which is what the pointer comparisons of `KeyEntryNG::unref` and
  `purge_for_trx_v3` compare (a trx is the only one with its seqno).
-/
import Mathlib

namespace Galera.Cert

/-! ## §1. Keys. -/

/-- `wsrep_key_type_t`, in the order of its values (0, 1, 2). -/
inductive KeyType where
  | shared
  | semi
  | exclusive
  deriving DecidableEq, Repr

/-- The three prefixes a key part is written with. -/
instance keyPrefixCount : NeZero (3 : Nat) := ⟨Nat.succ_ne_zero 2⟩

/-- `KeySet::KeyPart` as certification sees it.  `hash` stands for the
serialized key hash that `matches` and `hash()` read; `prefixBits` for the
low header bits that `prefix()` returns.  Prefix 3 is never written by
`KeySetOut` and makes `wsrep_type` throw, so it is not a value here. -/
structure KeyPart (K : Type) where
  hash : K
  prefixBits : Fin 3
  deriving DecidableEq, Repr

/-- `KeyPart::wsrep_type(ws_ver)`: prefix 1 is SEMI in version 4 and
EXCLUSIVE before it. -/
def KeyPart.wsrepType {K : Type} (kp : KeyPart K) (wsVer : Nat) : KeyType :=
  match kp.prefixBits with
  | 0 => .shared
  | 1 => if wsVer = 4 then .semi else .exclusive
  | 2 => .exclusive

/-! ## §2. Transactions. -/

/-- The `TrxHandle` fields that certification reads.  `isToi`, `paUnsafe`
and `preordered` are the `F_ISOLATION`, `F_PA_UNSAFE` and `F_PREORDERED`
flag bits; `keys` is `write_set_in().keyset()` in its stored order. -/
structure TrxHandle (S K : Type) where
  globalSeqno : Int
  lastSeenSeqno : Int
  dependsSeqno : Int
  sourceId : S
  trxId : Nat
  isToi : Bool
  paUnsafe : Bool
  preordered : Bool
  paRange : Nat
  version : Nat
  keys : List (KeyPart K)
  deriving DecidableEq, Repr

/-- `TrxHandle::set_depends_seqno`. -/
def TrxHandle.setDependsSeqno {S K : Type} (trx : TrxHandle S K) (d : Int) :
    TrxHandle S K :=
  { trx with dependsSeqno := d }

namespace TrxHandle

variable {S K : Type}

@[simp] theorem setDependsSeqno_dependsSeqno (trx : TrxHandle S K) (d : Int) :
    (trx.setDependsSeqno d).dependsSeqno = d := rfl

@[simp] theorem setDependsSeqno_globalSeqno (trx : TrxHandle S K) (d : Int) :
    (trx.setDependsSeqno d).globalSeqno = trx.globalSeqno := rfl

@[simp] theorem setDependsSeqno_lastSeenSeqno (trx : TrxHandle S K) (d : Int) :
    (trx.setDependsSeqno d).lastSeenSeqno = trx.lastSeenSeqno := rfl

@[simp] theorem setDependsSeqno_sourceId (trx : TrxHandle S K) (d : Int) :
    (trx.setDependsSeqno d).sourceId = trx.sourceId := rfl

@[simp] theorem setDependsSeqno_isToi (trx : TrxHandle S K) (d : Int) :
    (trx.setDependsSeqno d).isToi = trx.isToi := rfl

@[simp] theorem setDependsSeqno_paUnsafe (trx : TrxHandle S K) (d : Int) :
    (trx.setDependsSeqno d).paUnsafe = trx.paUnsafe := rfl

@[simp] theorem setDependsSeqno_preordered (trx : TrxHandle S K) (d : Int) :
    (trx.setDependsSeqno d).preordered = trx.preordered := rfl

@[simp] theorem setDependsSeqno_version (trx : TrxHandle S K) (d : Int) :
    (trx.setDependsSeqno d).version = trx.version := rfl

@[simp] theorem setDependsSeqno_keys (trx : TrxHandle S K) (d : Int) :
    (trx.setDependsSeqno d).keys = trx.keys := rfl

@[simp] theorem setDependsSeqno_setDependsSeqno (trx : TrxHandle S K) (d d' : Int) :
    (trx.setDependsSeqno d).setDependsSeqno d' = trx.setDependsSeqno d' := rfl

@[simp] theorem setDependsSeqno_self (trx : TrxHandle S K) :
    trx.setDependsSeqno trx.dependsSeqno = trx := rfl

end TrxHandle

/-! ## §3. Index entries. -/

/-- `KeyEntryNG`: `refs_[p]` is the trx recorded for key type `p`. -/
structure KeyEntryNG (S K : Type) where
  refs : KeyType → Option (TrxHandle S K)

namespace KeyEntryNG

variable {S K : Type}

/-- The entry `KeyEntryNG(key)` creates: no references. -/
def empty : KeyEntryNG S K := ⟨fun _ => none⟩

/-- `KeyEntryNG::ref`: `trx` becomes the reference of type `p`. -/
def ref (e : KeyEntryNG S K) (p : KeyType) (trx : TrxHandle S K) : KeyEntryNG S K :=
  ⟨Function.update e.refs p (some trx)⟩

/-- `KeyEntryNG::unref`: the reference of type `p` is cleared when it is
`trx`; otherwise the entry is left as it is (the source asserts). -/
def unref [DecidableEq S] [DecidableEq K] (e : KeyEntryNG S K) (p : KeyType)
    (trx : TrxHandle S K) : KeyEntryNG S K :=
  if e.refs p = some trx then ⟨Function.update e.refs p none⟩ else e

/-- `KeyEntryNG::referenced`: some reference is set. -/
def referenced (e : KeyEntryNG S K) : Bool :=
  (e.refs .shared).isSome || (e.refs .semi).isSome || (e.refs .exclusive).isSome

@[simp] theorem empty_refs (p : KeyType) : (empty : KeyEntryNG S K).refs p = none := rfl

@[simp] theorem ref_refs (e : KeyEntryNG S K) (p q : KeyType) (trx : TrxHandle S K) :
    (e.ref p trx).refs q = if q = p then some trx else e.refs q := by
  simp only [ref, Function.update_apply]

theorem referenced_iff (e : KeyEntryNG S K) :
    e.referenced = true ↔ ∃ p, e.refs p ≠ none := by
  simp only [referenced, Bool.or_eq_true, Option.isSome_iff_ne_none]
  constructor
  · rintro ((h | h) | h)
    exacts [⟨_, h⟩, ⟨_, h⟩, ⟨_, h⟩]
  · rintro ⟨p, hp⟩
    cases p
    exacts [Or.inl (Or.inl hp), Or.inl (Or.inr hp), Or.inr hp]

@[simp] theorem empty_referenced : (empty : KeyEntryNG S K).referenced = false := rfl

theorem refs_ext {e e' : KeyEntryNG S K} (h : ∀ p, e.refs p = e'.refs p) : e = e' := by
  cases e; cases e'
  congr
  exact funext h

end KeyEntryNG

/-- `cert_index_ng_`: the entry stored for a key hash, if any. -/
abbrev CertIndexNG (S K : Type) := K → Option (KeyEntryNG S K)

/-! ## §4. The certification object. -/

/-- `Certification::TestResult`. -/
inductive TestResult where
  | testOk
  | testFailed
  deriving DecidableEq, Repr

/-- The state of `galera::Certification` under protocol version 3 or 4.
`trxMap` is `trx_map_` in seqno order; `depsSet` is the multiset
`deps_set_` of the last-seen seqnos of certified, uncommitted trxs.
`maxLength`, `maxLengthCheck` and `optimisticPa` are the configuration
(`cert.max_length`, `cert.length_check`, `cert.optimistic_pa`). -/
structure Certification (S K : Type) where
  version : Nat
  version_ok : version = 3 ∨ version = 4
  trxMap : List (TrxHandle S K)
  certIndexNg : CertIndexNG S K
  depsSet : List Int
  initialPosition : Int
  position : Int
  safeToDiscardSeqno : Int
  lastPaUnsafe : Int
  lastPreorderedSeqno : Int
  lastPreorderedId : Nat
  maxLength : Int
  maxLengthCheck : Int
  optimisticPa : Bool

/-- Version 4 is one of the two versions certification runs at. -/
theorem Certification.version_four_ok : (4 : Nat) = 3 ∨ (4 : Nat) = 4 := Or.inr rfl

end Galera.Cert
