/-
  Galera.Cert.Verdict
  ───────────────────
  **THE VERDICT OF `do_test_v3to4` IS THE CONFLICT TABLE.**

  `certify_and_depend_v3to4` documents its cascade by a table:

        | ex | ss | sh |  <- trx key type
     ex | C  | C  | C  |
     ss | C  | N  | N  |     C conflict, D dependency, N nothing
     sh | D  | N  | N  |

  `TableConflict` and `tableDeps` state the table for one key and one
  entry.  The key loop only ever adds entries with no reference
  (`ExtendsWithin`), so every key meets the entry it had before the call,
  and the whole test is the table applied key by key to the index as it
  was (`certifyKeys_isPassed`, `certifyKeys_passed_depends`).  With keys
  stored, a passing loop leaves an entry for every key
  (`certifyKeys_passed_mem`), which the reference loop then fills.

  Main result: `do_test_v3to4_conflict_table`.
-/
import Mathlib
import Galera.Cert.Test

namespace Galera.Cert

set_option linter.unusedSectionVars false

variable {S K : Type} [DecidableEq S] [DecidableEq K]

/-! ## §1. The table for one key. -/

/-- The table: a key of type `kt` of `trx` conflicts with entry `e` when the
EXCLUSIVE reference is newer than what `trx` has seen and is TOI or from
another node, or when the key is exclusive and the SEMI reference is newer
and from another node. -/
def TableConflict (e : KeyEntryNG S K) (kt : KeyType) (trx : TrxHandle S K) : Prop :=
  (∃ R, e.refs .exclusive = some R ∧ trx.lastSeenSeqno < R.globalSeqno ∧
      (R.isToi = true ∨ R.sourceId ≠ trx.sourceId)) ∨
  (kt = .exclusive ∧ ∃ R, e.refs .semi = some R ∧ trx.lastSeenSeqno < R.globalSeqno ∧
      R.sourceId ≠ trx.sourceId)

/-- The seqnos a key of type `kt` depends on in entry `e`: the EXCLUSIVE
reference, and for an exclusive key the SEMI and SHARED ones too. -/
def tableDeps (e : KeyEntryNG S K) (kt : KeyType) : List Int :=
  ((e.refs .exclusive).toList ++
    (if kt = .exclusive then (e.refs .semi).toList ++ (e.refs .shared).toList else [])).map
    (·.globalSeqno)

/-- A `foldl max` never goes below its seed. -/
theorem le_foldl_max (l : List Int) (d : Int) : d ≤ l.foldl max d := by
  induction l generalizing d with
  | nil => exact le_rfl
  | cons x l ih =>
    have := ih (max d x)
    simp only [List.foldl_cons]
    omega

/-- `check_against` as a pair: the conflict flag, and the local seqno. -/
theorem checkAgainst_eq (p : KeyType) (e : KeyEntryNG S K) (kt : KeyType)
    (trx : TrxHandle S K) (d : Int) :
    checkAgainst p e kt trx d =
      ((e.refs p).any (refConflict p · trx),
        if (e.refs p).any (refConflict p · trx) then -1
        else if kt = .exclusive ∨ p = .exclusive then
          ((e.refs p).toList.map (·.globalSeqno)).foldl max d
        else d) := by
  unfold checkAgainst
  rcases e.refs p with _ | R
  · simp
  · by_cases hc : refConflict p R trx = true
    · simp [hc]
    · by_cases hk : kt = .exclusive ∨ p = .exclusive
      · simp only [hc, hk, if_true, if_false, Option.any_some, Bool.false_eq_true,
          Option.toList_some, List.map_cons, List.map_nil, List.foldl_cons, List.foldl_nil]
        exact Prod.ext rfl (by omega)
      · simp [hc, hk]

/-- The EXCLUSIVE row of the table. -/
theorem any_refConflict_exclusive (e : KeyEntryNG S K) (trx : TrxHandle S K) :
    (e.refs .exclusive).any (refConflict .exclusive · trx) = true ↔
      ∃ R, e.refs .exclusive = some R ∧ trx.lastSeenSeqno < R.globalSeqno ∧
        (R.isToi = true ∨ R.sourceId ≠ trx.sourceId) := by
  rcases e.refs .exclusive with _ | R
  · simp
  · simp [refConflict, semiCase, ne_comm]

/-- The SEMI row of the table. -/
theorem any_refConflict_semi (e : KeyEntryNG S K) (trx : TrxHandle S K) :
    (e.refs .semi).any (refConflict .semi · trx) = true ↔
      ∃ R, e.refs .semi = some R ∧ trx.lastSeenSeqno < R.globalSeqno ∧
        R.sourceId ≠ trx.sourceId := by
  rcases e.refs .semi with _ | R
  · simp
  · simp [refConflict, semiCase, ne_comm]

/-- A SHARED reference never conflicts. -/
@[simp] theorem any_refConflict_shared (e : KeyEntryNG S K) (trx : TrxHandle S K) :
    (e.refs .shared).any (refConflict .shared · trx) = false := by
  rcases e.refs .shared with _ | R <;> rfl

/-- The trx's seqno is raised to `d` only when `d` is larger. -/
theorem raise_eq (trx : TrxHandle S K) (d : Int) (h : trx.dependsSeqno ≤ d) :
    (if d > trx.dependsSeqno then trx.setDependsSeqno d else trx) = trx.setDependsSeqno d := by
  by_cases hd : d > trx.dependsSeqno
  · rw [if_pos hd]
  · rw [if_neg hd, show d = trx.dependsSeqno by omega, TrxHandle.setDependsSeqno_self]

/-- The cascade of `certify_and_depend_v3to4` conflicts exactly as the
table says. -/
theorem certifyAndDependV3to4_fst (e : KeyEntryNG S K) (key : KeyPart K)
    (trx : TrxHandle S K) :
    (certifyAndDependV3to4 e key trx).1 = true ↔
      TableConflict e (key.wsrepType trx.version) trx := by
  unfold certifyAndDependV3to4
  generalize key.wsrepType trx.version = kt
  simp only [checkAgainst_eq, any_refConflict_shared, Bool.false_eq_true, if_false]
  rw [TableConflict, ← any_refConflict_exclusive, ← any_refConflict_semi]
  -- the EXCLUSIVE check short-circuits the rest
  by_cases hx : (e.refs .exclusive).any (refConflict .exclusive · trx) = true
  · simp [hx]
  · by_cases hk : kt = .exclusive
    · by_cases hs : (e.refs .semi).any (refConflict .semi · trx) = true <;> simp [hx, hk, hs]
    · simp [hx, hk]

/-- Without a conflict the cascade raises the trx's `depends_seqno` to the
largest seqno the table makes it depend on. -/
theorem certifyAndDependV3to4_snd (e : KeyEntryNG S K) (key : KeyPart K)
    (trx : TrxHandle S K) (h : (certifyAndDependV3to4 e key trx).1 = false) :
    (certifyAndDependV3to4 e key trx).2 =
      trx.setDependsSeqno ((tableDeps e (key.wsrepType trx.version)).foldl max trx.dependsSeqno) := by
  have hc : ¬ TableConflict e (key.wsrepType trx.version) trx := by
    rw [← certifyAndDependV3to4_fst, h]; simp
  unfold certifyAndDependV3to4 at h ⊢
  generalize key.wsrepType trx.version = kt at h hc ⊢
  rw [TableConflict, ← any_refConflict_exclusive, ← any_refConflict_semi] at hc
  simp only [checkAgainst_eq, any_refConflict_shared, Bool.false_eq_true, if_false] at h ⊢
  have hx : (e.refs .exclusive).any (refConflict .exclusive · trx) = false := by
    simpa using fun h' => hc (Or.inl h')
  simp only [hx, Bool.false_eq_true, if_false]
  by_cases hk : kt = .exclusive
  · have hs : (e.refs .semi).any (refConflict .semi · trx) = false := by
      simpa using fun h' => hc (Or.inr ⟨hk, h'⟩)
    simp only [hk, hs, if_true, Bool.false_eq_true, if_false, true_or]
    rw [raise_eq _ _ (le_trans (le_foldl_max _ _) (le_trans (le_foldl_max _ _)
      (le_foldl_max _ _)))]
    simp [tableDeps, List.foldl_append]
  · simp only [hk, false_or, or_true, if_true, if_false]
    rw [raise_eq _ _ (le_foldl_max _ _)]
    simp [tableDeps, hk]

/-! ## §2. The key loop meets the index as it was. -/

/-- `idx` is `idx0` plus, at most, entries without references for hashes of
keys in `P`: all that the key loop does to the index. -/
def ExtendsWithin (idx0 idx : CertIndexNG S K) (P : List (KeyPart K)) : Prop :=
  ∀ h, idx h = idx0 h ∨ (idx0 h = none ∧ idx h = some .empty ∧ ∃ kp ∈ P, kp.hash = h)

theorem ExtendsWithin.refl (idx0 : CertIndexNG S K) : ExtendsWithin idx0 idx0 [] :=
  fun _ => Or.inl rfl

/-- Key `kp` of `trx` conflicts with the index `idx0`. -/
def KeyConflict (idx0 : CertIndexNG S K) (trx : TrxHandle S K) (kp : KeyPart K) : Prop :=
  ∃ e, idx0 kp.hash = some e ∧ TableConflict e (kp.wsrepType trx.version) trx

/-- The seqnos key `kp` of `trx` depends on in the index `idx0`. -/
def keyDeps (idx0 : CertIndexNG S K) (trx : TrxHandle S K) (kp : KeyPart K) : List Int :=
  match idx0 kp.hash with
  | some e => tableDeps e (kp.wsrepType trx.version)
  | none => []

@[simp] theorem keyConflict_setDependsSeqno (idx0 : CertIndexNG S K) (trx : TrxHandle S K)
    (d : Int) (kp : KeyPart K) :
    KeyConflict idx0 (trx.setDependsSeqno d) kp ↔ KeyConflict idx0 trx kp := Iff.rfl

@[simp] theorem keyDeps_setDependsSeqno (idx0 : CertIndexNG S K) (trx : TrxHandle S K)
    (d : Int) : keyDeps idx0 (trx.setDependsSeqno d) = keyDeps idx0 trx := rfl

/-- An entry without references neither conflicts nor adds a dependency. -/
theorem certifyAndDependV3to4_empty (key : KeyPart K) (trx : TrxHandle S K) :
    certifyAndDependV3to4 .empty key trx = (false, trx) := by
  have h : (certifyAndDependV3to4 .empty key trx).1 = false := by
    rw [Bool.eq_false_iff, ne_eq, certifyAndDependV3to4_fst]
    simp [TableConflict]
  rw [Prod.ext_iff, certifyAndDependV3to4_snd _ _ _ h]
  simp [h, tableDeps]

/-- `certify_v3to4` on a key that has an entry. -/
theorem certifyV3to4_of_some {idx : CertIndexNG S K} {key : KeyPart K} {e : KeyEntryNG S K}
    (he : idx key.hash = some e) (trx : TrxHandle S K) (sk : Bool) (htoi : trx.isToi = false) :
    certifyV3to4 idx key trx sk =
      ((certifyAndDependV3to4 e key trx).1, idx, (certifyAndDependV3to4 e key trx).2) := by
  simp [certifyV3to4, he, htoi]

/-- `certify_v3to4` on a key without an entry. -/
theorem certifyV3to4_of_none {idx : CertIndexNG S K} {key : KeyPart K}
    (he : idx key.hash = none) (trx : TrxHandle S K) (sk : Bool) :
    certifyV3to4 idx key trx sk =
      (false, if sk then Function.update idx key.hash (some .empty) else idx, trx) := by
  simp [certifyV3to4, he]

/-- What one key does to the index: it gains at most an empty entry for
this key, and a colliding key leaves it alone (TOI trxs included). -/
theorem certifyV3to4_extends {idx0 idx : CertIndexNG S K} {P : List (KeyPart K)}
    (hx : ExtendsWithin idx0 idx P) (key : KeyPart K) (trx : TrxHandle S K) (sk : Bool) :
    ExtendsWithin idx0 (certifyV3to4 idx key trx sk).2.1 (key :: P) ∧
    ((certifyV3to4 idx key trx sk).1 = true → (certifyV3to4 idx key trx sk).2.1 = idx) := by
  have hmono : ExtendsWithin idx0 idx (key :: P) := by
    intro h
    rcases hx h with hh | ⟨h0, hh, kp, hkp, rfl⟩
    · exact Or.inl hh
    · exact Or.inr ⟨h0, hh, kp, List.mem_cons_of_mem _ hkp, rfl⟩
  cases hi : idx key.hash with
  | some e =>
    have hs : (certifyV3to4 idx key trx sk).2.1 = idx := by
      unfold certifyV3to4; rw [hi]; cases trx.isToi <;> rfl
    exact ⟨by rw [hs]; exact hmono, fun _ => hs⟩
  | none =>
    rw [certifyV3to4_of_none hi]
    refine ⟨?_, by simp⟩
    cases sk
    · exact hmono
    · intro h
      by_cases hk : h = key.hash
      · subst hk
        have h0 : idx0 key.hash = none := by
          rcases hx key.hash with hh | ⟨hh, -⟩
          · exact hh ▸ hi
          · exact hh
        exact Or.inr ⟨h0, by simp, key, List.mem_cons_self, rfl⟩
      · simpa [hk] using hmono h

/-- One key of a non-TOI trx, seen from the index before the loop: the
collision flag is the table's, and a passing key raises `depends_seqno` to
its table dependencies. -/
theorem certifyV3to4_spec {idx0 idx : CertIndexNG S K} {P : List (KeyPart K)}
    (hx : ExtendsWithin idx0 idx P) (key : KeyPart K) (trx : TrxHandle S K)
    (sk : Bool) (htoi : trx.isToi = false) :
    ((certifyV3to4 idx key trx sk).1 = true ↔ KeyConflict idx0 trx key) ∧
    ((certifyV3to4 idx key trx sk).1 = false → (certifyV3to4 idx key trx sk).2.2 =
      trx.setDependsSeqno ((keyDeps idx0 trx key).foldl max trx.dependsSeqno)) := by
  rcases hx key.hash with hh | ⟨h0, hh, -⟩
  · -- the key meets the entry it had before the loop
    cases he : idx0 key.hash with
    | none =>
      rw [certifyV3to4_of_none (hh.trans he)]
      exact ⟨by simp [KeyConflict, he], fun _ => by simp [keyDeps, he]⟩
    | some e =>
      rw [certifyV3to4_of_some (hh.trans he) trx sk htoi]
      refine ⟨?_, fun hc => ?_⟩
      · rw [certifyAndDependV3to4_fst]
        constructor
        · exact fun h => ⟨e, he, h⟩
        · rintro ⟨e', he', h⟩
          rw [he, Option.some_inj] at he'
          exact he' ▸ h
      · rw [certifyAndDependV3to4_snd _ _ _ hc]
        simp [keyDeps, he]
  · -- the key meets an entry created earlier in this loop
    rw [certifyV3to4_of_some hh trx sk htoi, certifyAndDependV3to4_empty]
    exact ⟨by simp [KeyConflict, h0], fun _ => by simp [keyDeps, h0]⟩

/-! ## §3. The key set. -/

theorem ExtendsWithin.mono {idx0 idx : CertIndexNG S K} {P Q : List (KeyPart K)}
    (h : ExtendsWithin idx0 idx P) (hPQ : ∀ kp ∈ P, kp ∈ Q) : ExtendsWithin idx0 idx Q := by
  intro x
  rcases h x with hh | ⟨h0, hh, kp, hkp, rfl⟩
  · exact Or.inl hh
  · exact Or.inr ⟨h0, hh, kp, hPQ kp hkp, rfl⟩

/-- The key loop went through every key. -/
def KeyLoop.isPassed : KeyLoop S K → Bool
  | .passed _ _ => true
  | .failed _ _ _ => false

@[simp] theorem KeyLoop.isPassed_bump (r : KeyLoop S K) : r.bump.isPassed = r.isPassed := by
  cases r <;> rfl

@[simp] theorem KeyLoop.bump_eq_passed (r : KeyLoop S K) (i : CertIndexNG S K)
    (t : TrxHandle S K) : r.bump = .passed i t ↔ r = .passed i t := by
  cases r <;> simp [KeyLoop.bump]

theorem certifyKeys_cons_true {idx idx' : CertIndexNG S K} {key : KeyPart K}
    {trx trx' : TrxHandle S K} {sk : Bool} (ks : List (KeyPart K))
    (hr : certifyV3to4 idx key trx sk = (true, idx', trx')) :
    certifyKeys sk idx trx (key :: ks) = .failed idx' trx' 0 := by
  simp [certifyKeys, hr]

theorem certifyKeys_cons_false {idx idx' : CertIndexNG S K} {key : KeyPart K}
    {trx trx' : TrxHandle S K} {sk : Bool} (ks : List (KeyPart K))
    (hr : certifyV3to4 idx key trx sk = (false, idx', trx')) :
    certifyKeys sk idx trx (key :: ks) = (certifyKeys sk idx' trx' ks).bump := by
  simp [certifyKeys, hr]

/-- The key loop of a non-TOI trx passes exactly when no key conflicts with
the index as it was before the loop. -/
theorem certifyKeys_isPassed {idx0 idx : CertIndexNG S K} {P : List (KeyPart K)}
    (hx : ExtendsWithin idx0 idx P) (trx : TrxHandle S K) (sk : Bool)
    (htoi : trx.isToi = false) (ks : List (KeyPart K)) :
    (certifyKeys sk idx trx ks).isPassed = true ↔ ∀ kp ∈ ks, ¬ KeyConflict idx0 trx kp := by
  induction ks generalizing idx trx P with
  | nil => simp [certifyKeys, KeyLoop.isPassed]
  | cons key ks ih =>
    have hspec := certifyV3to4_spec hx key trx sk htoi
    have hext := (certifyV3to4_extends hx key trx sk).1
    rcases hr : certifyV3to4 idx key trx sk with ⟨_ | _, idx', trx'⟩
    · -- the key passes: the loop goes on with the raised trx
      rw [hr] at hspec hext
      simp only at hspec hext
      have hk : ¬ KeyConflict idx0 trx key := by simpa using hspec.1
      rw [certifyKeys_cons_false ks hr, KeyLoop.isPassed_bump, hspec.2 trivial,
        ih hext _ (by simpa using htoi)]
      simp [hk]
    · -- the key collides: the loop stops here
      rw [hr] at hspec
      rw [certifyKeys_cons_true ks hr]
      simp only [KeyLoop.isPassed, Bool.false_eq_true, false_iff, not_forall, not_not]
      exact ⟨key, List.mem_cons_self, hspec.1.mp rfl⟩

/-- A passing key loop of a non-TOI trx leaves it depending on every table
dependency of every key. -/
theorem certifyKeys_passed_depends {idx0 idx : CertIndexNG S K} {P : List (KeyPart K)}
    (hx : ExtendsWithin idx0 idx P) (trx : TrxHandle S K) (sk : Bool)
    (htoi : trx.isToi = false) (ks : List (KeyPart K)) {i : CertIndexNG S K}
    {t : TrxHandle S K} (h : certifyKeys sk idx trx ks = .passed i t) :
    t = trx.setDependsSeqno ((ks.flatMap (keyDeps idx0 trx)).foldl max trx.dependsSeqno) := by
  induction ks generalizing idx trx P with
  | nil =>
    simp only [certifyKeys, KeyLoop.passed.injEq] at h
    rw [← h.2]
    simp
  | cons key ks ih =>
    have hspec := certifyV3to4_spec hx key trx sk htoi
    have hext := (certifyV3to4_extends hx key trx sk).1
    rcases hr : certifyV3to4 idx key trx sk with ⟨_ | _, idx', trx'⟩
    · rw [hr] at hspec hext
      simp only at hspec hext
      rw [certifyKeys_cons_false ks hr, KeyLoop.bump_eq_passed] at h
      rw [ih hext trx' (by rw [hspec.2 trivial]; simpa using htoi) h, hspec.2 trivial]
      simp [List.foldl_append]
    · rw [certifyKeys_cons_true ks hr] at h
      cases h

/-- A passing key loop adds to the index at most empty entries for its keys. -/
theorem certifyKeys_passed_extends {idx0 idx : CertIndexNG S K} {P : List (KeyPart K)}
    (hx : ExtendsWithin idx0 idx P) (trx : TrxHandle S K) (sk : Bool)
    (ks : List (KeyPart K)) {i : CertIndexNG S K} {t : TrxHandle S K}
    (h : certifyKeys sk idx trx ks = .passed i t) : ExtendsWithin idx0 i (ks ++ P) := by
  induction ks generalizing idx trx P with
  | nil =>
    simp only [certifyKeys, KeyLoop.passed.injEq] at h
    rw [← h.1]
    exact hx
  | cons key ks ih =>
    have hext := (certifyV3to4_extends hx key trx sk).1
    rcases hr : certifyV3to4 idx key trx sk with ⟨_ | _, idx', trx'⟩
    · rw [hr] at hext
      simp only at hext
      rw [certifyKeys_cons_false ks hr, KeyLoop.bump_eq_passed] at h
      exact (ih hext trx' h).mono (fun kp hkp => by simp at hkp ⊢; tauto)
    · rw [certifyKeys_cons_true ks hr] at h
      cases h

/-- A failing key loop adds to the index at most empty entries for the keys
it processed before the collision. -/
theorem certifyKeys_failed_extends {idx0 idx : CertIndexNG S K} {P : List (KeyPart K)}
    (hx : ExtendsWithin idx0 idx P) (trx : TrxHandle S K) (sk : Bool)
    (ks : List (KeyPart K)) {i : CertIndexNG S K} {t : TrxHandle S K} {n : ℕ}
    (h : certifyKeys sk idx trx ks = .failed i t n) : ExtendsWithin idx0 i (ks.take n ++ P) := by
  induction ks generalizing idx trx P n with
  | nil => simp [certifyKeys] at h
  | cons key ks ih =>
    have hext := certifyV3to4_extends hx key trx sk
    rcases hr : certifyV3to4 idx key trx sk with ⟨_ | _, idx', trx'⟩
    · rw [hr] at hext
      simp only at hext
      rw [certifyKeys_cons_false ks hr] at h
      cases hr' : certifyKeys sk idx' trx' ks with
      | passed i' t' => simp [hr', KeyLoop.bump] at h
      | failed i' t' n' =>
        simp only [hr', KeyLoop.bump, KeyLoop.failed.injEq] at h
        obtain ⟨rfl, rfl, rfl⟩ := h
        exact (ih hext.1 trx' hr').mono (fun kp hkp => by simp at hkp ⊢; tauto)
    · rw [hr] at hext
      simp only at hext
      rw [certifyKeys_cons_true ks hr, KeyLoop.failed.injEq] at h
      obtain ⟨rfl, -, rfl⟩ := h
      simpa [hext.2 trivial] using hx

/-- An entry that was there before the loop is still there, unchanged. -/
theorem ExtendsWithin.eq_of_ne_none {idx0 idx : CertIndexNG S K} {P : List (KeyPart K)}
    (hx : ExtendsWithin idx0 idx P) {h : K} (h0 : idx0 h ≠ none) : idx h = idx0 h := by
  rcases hx h with hh | ⟨hn, -⟩
  · exact hh
  · exact absurd hn h0

/-- With keys stored, a key that passes has an entry afterwards. -/
theorem certifyV3to4_mem {idx idx' : CertIndexNG S K} {key : KeyPart K}
    {trx trx' : TrxHandle S K} (hr : certifyV3to4 idx key trx true = (false, idx', trx')) :
    idx' key.hash ≠ none := by
  cases hi : idx key.hash with
  | none =>
    rw [certifyV3to4_of_none hi] at hr
    simp only [if_true, Prod.mk.injEq] at hr
    simp [← hr.2.1]
  | some e =>
    have hs := (certifyV3to4_extends (ExtendsWithin.refl idx) key trx true).1
    rw [hr] at hs
    simp only at hs
    have h0 : idx key.hash ≠ none := by simp [hi]
    rw [hs.eq_of_ne_none h0]
    exact h0

/-- With keys stored, a passing key loop leaves an entry for every key: the
`could not find key` throw of the reference loop is dead code. -/
theorem certifyKeys_passed_mem {idx : CertIndexNG S K} {trx : TrxHandle S K}
    (ks : List (KeyPart K)) {i : CertIndexNG S K} {t : TrxHandle S K}
    (h : certifyKeys true idx trx ks = .passed i t) : ∀ kp ∈ ks, i kp.hash ≠ none := by
  induction ks generalizing idx trx with
  | nil => simp
  | cons key ks ih =>
    rcases hr : certifyV3to4 idx key trx true with ⟨_ | _, idx', trx'⟩
    · rw [certifyKeys_cons_false ks hr, KeyLoop.bump_eq_passed] at h
      have hkey := certifyV3to4_mem hr
      have hrest := certifyKeys_passed_extends (ExtendsWithin.refl idx') trx' true ks h
      rintro kp (_ | ⟨_, hkp⟩)
      · rw [hrest.eq_of_ne_none hkey]
        exact hkey
      · exact ih h kp hkp
    · rw [certifyKeys_cons_true ks hr] at h
      cases h

/-! ## §4. The verdict of `do_test_v3to4`. -/

/-- Raising the seed of a `foldl max` commutes with the fold. -/
theorem foldl_max_max (l : List Int) (a b : Int) :
    max (l.foldl max a) b = l.foldl max (max a b) := by
  induction l generalizing a with
  | nil => rfl
  | cons x l ih =>
    simp only [List.foldl_cons]
    rw [ih]
    congr 1
    omega

/-- A `foldl max` is below a bound exactly when its seed and its elements are. -/
theorem foldl_max_lt (l : List Int) (d b : Int) :
    l.foldl max d < b ↔ d < b ∧ ∀ x ∈ l, x < b := by
  induction l generalizing d with
  | nil => simp
  | cons x l ih =>
    simp only [List.foldl_cons, ih, List.mem_cons, forall_eq_or_imp]
    constructor
    · rintro ⟨h, hl⟩
      exact ⟨by omega, by omega, hl⟩
    · rintro ⟨hd, hx, hl⟩
      exact ⟨by omega, hl⟩

/-- The same bound, not strict. -/
theorem foldl_max_le (l : List Int) (d b : Int) :
    l.foldl max d ≤ b ↔ d ≤ b ∧ ∀ x ∈ l, x ≤ b := by
  have h := foldl_max_lt l d (b + 1)
  constructor
  · intro hle
    obtain ⟨hd, hl⟩ := h.mp (by omega)
    exact ⟨by omega, fun x hx => by have := hl x hx; omega⟩
  · rintro ⟨hd, hl⟩
    have := h.mpr ⟨by omega, fun x hx => by have := hl x hx; omega⟩
    omega

/-- The dependencies of a key of type `kt` on an entry are the seqnos of its
EXCLUSIVE reference and, for an exclusive key, of any reference. -/
theorem mem_tableDeps {e : KeyEntryNG S K} {kt : KeyType} {x : Int} :
    x ∈ tableDeps e kt ↔
      ∃ p R, (p = .exclusive ∨ kt = .exclusive) ∧ e.refs p = some R ∧ R.globalSeqno = x := by
  constructor
  · simp only [tableDeps, List.mem_map, List.mem_append, Option.mem_toList]
    rintro ⟨R, hR, rfl⟩
    rcases hR with hR | hR
    · exact ⟨_, R, Or.inl rfl, hR, rfl⟩
    · split_ifs at hR with hk
      · rcases List.mem_append.mp hR with hR | hR
        · exact ⟨.semi, R, Or.inr hk, Option.mem_toList.mp hR, rfl⟩
        · exact ⟨.shared, R, Or.inr hk, Option.mem_toList.mp hR, rfl⟩
      · simp at hR
  · rintro ⟨p, R, hp, hR, rfl⟩
    simp only [tableDeps, List.mem_map, List.mem_append, Option.mem_toList]
    refine ⟨R, ?_, rfl⟩
    cases p with
    | exclusive => exact Or.inl hR
    | semi =>
      have hk : kt = .exclusive := by simpa using hp
      simp [hk, hR]
    | shared =>
      have hk : kt = .exclusive := by simpa using hp
      simp [hk, hR]

/-- Every dependency of a key is the seqno of a reference in the index. -/
theorem mem_keyDeps {idx : CertIndexNG S K} {trx : TrxHandle S K} {kp : KeyPart K} {x : Int}
    (hx : x ∈ keyDeps idx trx kp) :
    ∃ e p R, idx kp.hash = some e ∧ e.refs p = some R ∧ x = R.globalSeqno := by
  unfold keyDeps at hx
  cases he : idx kp.hash with
  | none => simp [he] at hx
  | some e =>
    simp only [he, tableDeps, List.mem_map, List.mem_append] at hx
    obtain ⟨R, hR, rfl⟩ := hx
    rcases hR with hR | hR
    · exact ⟨e, .exclusive, R, rfl, Option.mem_toList.mp hR, rfl⟩
    · split_ifs at hR
      · rcases List.mem_append.mp hR with hR | hR
        · exact ⟨e, .semi, R, rfl, Option.mem_toList.mp hR, rfl⟩
        · exact ⟨e, .shared, R, rfl, Option.mem_toList.mp hR, rfl⟩
      · simp at hR

/-- The verdict of `do_test_v3to4` is whether its key loop passed. -/
theorem doTestV3to4_fst (c : Certification S K) (trx : TrxHandle S K) (sk : Bool) :
    (doTestV3to4 c trx sk).1 =
      if (certifyKeys sk c.certIndexNg trx trx.keys).isPassed then .testOk else .testFailed := by
  unfold doTestV3to4
  cases certifyKeys sk c.certIndexNg trx trx.keys <;> cases sk <;> rfl

/-- After a passing key loop the trx also depends on `last_pa_unsafe_`. -/
theorem doTestV3to4_snd_of_passed {c : Certification S K} {trx : TrxHandle S K} {sk : Bool}
    {i : CertIndexNG S K} {t : TrxHandle S K}
    (h : certifyKeys sk c.certIndexNg trx trx.keys = .passed i t) :
    (doTestV3to4 c trx sk).2.1 = t.setDependsSeqno (max t.dependsSeqno c.lastPaUnsafe) := by
  unfold doTestV3to4
  rw [h]
  cases sk <;> rfl

/-- `do_test_v3to4` fails a non-TOI trx exactly when the table says so. -/
theorem doTestV3to4_failed_iff (c : Certification S K) (trx : TrxHandle S K) (sk : Bool)
    (htoi : trx.isToi = false) :
    (doTestV3to4 c trx sk).1 = .testFailed ↔ ∃ kp ∈ trx.keys, KeyConflict c.certIndexNg trx kp := by
  have hp := certifyKeys_isPassed (ExtendsWithin.refl c.certIndexNg) trx sk htoi trx.keys
  rw [doTestV3to4_fst]
  by_cases hb : (certifyKeys sk c.certIndexNg trx trx.keys).isPassed = true
  · have := hp.mp hb
    simp only [hb, if_true, reduceCtorEq, false_iff, not_exists, not_and]
    exact this
  · simp only [hb, Bool.false_eq_true, if_false, true_iff]
    have hn : ¬ ∀ kp ∈ trx.keys, ¬ KeyConflict c.certIndexNg trx kp := fun h => hb (hp.mpr h)
    simpa using hn

/-- When `do_test_v3to4` passes a non-TOI trx, its `depends_seqno` is the
largest of the initial value, `last_pa_unsafe_` and the table dependencies
of all keys. -/
theorem doTestV3to4_depends (c : Certification S K) (trx : TrxHandle S K) (sk : Bool)
    (htoi : trx.isToi = false) (hok : (doTestV3to4 c trx sk).1 = .testOk) :
    (doTestV3to4 c trx sk).2.1.dependsSeqno =
      (trx.keys.flatMap (keyDeps c.certIndexNg trx)).foldl max
        (max trx.dependsSeqno c.lastPaUnsafe) := by
  cases hk : certifyKeys sk c.certIndexNg trx trx.keys with
  | failed i t n => simp [doTestV3to4_fst, hk, KeyLoop.isPassed] at hok
  | passed i t =>
    rw [doTestV3to4_snd_of_passed hk,
      certifyKeys_passed_depends (ExtendsWithin.refl _) trx sk htoi trx.keys hk]
    simp [foldl_max_max]

/-- The parent seqno `do_test` starts from precedes the trx. -/
theorem initialDependsSeqno_lt (c : Certification S K) (trx : TrxHandle S K)
    (hls : trx.lastSeenSeqno < trx.globalSeqno)
    (hmap : ∀ t ∈ c.trxMap, t.globalSeqno < trx.globalSeqno) :
    initialDependsSeqno c trx < trx.globalSeqno := by
  unfold initialDependsSeqno
  cases hm : c.trxMap with
  | nil =>
    dsimp only
    omega
  | cons first rest =>
    have := hmap first (by simp [hm])
    dsimp only
    split_ifs <;> omega

/-- A trx that `do_test` passes went through `do_test_v3to4`, from the
parent seqno `do_test` chose. -/
theorem doTest_eq_of_ok {c : Certification S K} {trx : TrxHandle S K} {sk : Bool}
    (h : (doTest c trx sk).1 = .testOk) :
    doTest c trx sk = doTestV3to4 c (trx.setDependsSeqno (initialDependsSeqno c trx)) sk := by
  unfold doTest at h ⊢
  -- the two early returns fail, so `split_ifs` discharges them
  split_ifs at h ⊢
  rfl

/-- Two verdicts that fail together are equal. -/
theorem TestResult.eq_of_failed_iff {a b : TestResult} (h : a = .testFailed ↔ b = .testFailed) :
    a = b := by
  cases a <;> cases b <;> simp at h ⊢

/-- A `do_test_v3to4` of a TOI trx passes, and depends on `last_pa_unsafe_`
and its initial seqno only. -/
theorem doTestV3to4_of_toi (c : Certification S K) (trx : TrxHandle S K) (sk : Bool)
    (htoi : trx.isToi = true) :
    (doTestV3to4 c trx sk).1 = .testOk ∧
      (doTestV3to4 c trx sk).2.1.dependsSeqno = max trx.dependsSeqno c.lastPaUnsafe := by
  -- every key of a TOI trx passes and leaves the trx as it is
  have hkeys : ∀ (idx : CertIndexNG S K) (ks : List (KeyPart K)),
      ∃ i, certifyKeys sk idx trx ks = .passed i trx := by
    intro idx ks
    induction ks generalizing idx with
    | nil => exact ⟨idx, rfl⟩
    | cons k ks ih =>
      have hr : ∃ idx', certifyV3to4 idx k trx sk = (false, idx', trx) := by
        unfold certifyV3to4
        cases idx k.hash with
        | none => exact ⟨_, rfl⟩
        | some e => exact ⟨idx, by simp [htoi]⟩
      obtain ⟨idx', hr⟩ := hr
      obtain ⟨i, hi⟩ := ih idx'
      exact ⟨i, by rw [certifyKeys_cons_false ks hr, hi]; rfl⟩
  obtain ⟨i, hi⟩ := hkeys c.certIndexNg trx.keys
  refine ⟨by simp [doTestV3to4_fst, hi, KeyLoop.isPassed], ?_⟩
  rw [doTestV3to4_snd_of_passed hi]
  rfl

/-- A non-TOI trx that `do_test` passes depends on something before it, as
long as everything indexed precedes it. -/
theorem doTest_depends_lt (c : Certification S K) (trx : TrxHandle S K) (sk : Bool)
    (htoi : trx.isToi = false) (hls : trx.lastSeenSeqno < trx.globalSeqno)
    (hmap : ∀ t ∈ c.trxMap, t.globalSeqno < trx.globalSeqno)
    (hpa : c.lastPaUnsafe < trx.globalSeqno)
    (hidx : ∀ h e p R, c.certIndexNg h = some e → e.refs p = some R →
      R.globalSeqno < trx.globalSeqno)
    (hok : (doTest c trx sk).1 = .testOk) :
    (doTest c trx sk).2.1.dependsSeqno < trx.globalSeqno := by
  -- only the `do_test_v3to4` branch passes
  have heq := doTest_eq_of_ok hok
  rw [heq] at hok ⊢
  generalize ht₀ : trx.setDependsSeqno (initialDependsSeqno c trx) = trx₀ at hok ⊢
  have htoi₀ : trx₀.isToi = false := by rw [← ht₀]; simpa using htoi
  rw [doTestV3to4_depends c trx₀ sk htoi₀ hok, foldl_max_lt]
  refine ⟨?_, fun x hx => ?_⟩
  · have := initialDependsSeqno_lt c trx hls hmap
    rw [← ht₀]
    simp only [TrxHandle.setDependsSeqno_dependsSeqno]
    omega
  · obtain ⟨kp, -, hx⟩ := List.mem_flatMap.mp hx
    obtain ⟨e, p, R, he, hR, rfl⟩ := mem_keyDeps hx
    exact hidx _ e p R he hR

/-- **The verdict of `do_test_v3to4` is the documented conflict table.**
For a non-TOI trx, the test fails exactly when some key meets, in the index
as it was before the call, an entry the table makes a conflict (EXCLUSIVE
reference newer than the last seen seqno and TOI or from another node; for
an exclusive key also a SEMI reference newer and from another node).  When
it passes, `depends_seqno` is the largest of its initial value,
`last_pa_unsafe_`, the EXCLUSIVE references of all keys and the SEMI and
SHARED references of the exclusive keys; and through `do_test` that is
below the trx's seqno whenever everything indexed precedes the trx. -/
theorem do_test_v3to4_conflict_table (c : Certification S K) (trx : TrxHandle S K)
    (storeKeys : Bool) (htoi : trx.isToi = false) :
    ((doTestV3to4 c trx storeKeys).1 = .testFailed ↔
      ∃ kp ∈ trx.keys, ∃ e, c.certIndexNg kp.hash = some e ∧
        TableConflict e (kp.wsrepType trx.version) trx) ∧
    ((doTestV3to4 c trx storeKeys).1 = .testOk →
      (doTestV3to4 c trx storeKeys).2.1.dependsSeqno =
        (trx.keys.flatMap (keyDeps c.certIndexNg trx)).foldl max
          (max trx.dependsSeqno c.lastPaUnsafe)) ∧
    (trx.lastSeenSeqno < trx.globalSeqno →
      (∀ t ∈ c.trxMap, t.globalSeqno < trx.globalSeqno) →
      c.lastPaUnsafe < trx.globalSeqno →
      (∀ h e p R, c.certIndexNg h = some e → e.refs p = some R →
        R.globalSeqno < trx.globalSeqno) →
      (doTest c trx storeKeys).1 = .testOk →
      (doTest c trx storeKeys).2.1.dependsSeqno < trx.globalSeqno) :=
  ⟨doTestV3to4_failed_iff c trx storeKeys htoi,
    doTestV3to4_depends c trx storeKeys htoi,
    fun hls hmap hpa hidx => doTest_depends_lt c trx storeKeys htoi hls hmap hpa hidx⟩

/-- A trx of node `0` at seqno `1` that wrote key `7` exclusively. -/
def exampleWriter : TrxHandle Nat Nat :=
  { globalSeqno := 1, lastSeenSeqno := 0, dependsSeqno := 0, sourceId := 0, trxId := 1,
    isToi := false, paUnsafe := false, preordered := false, paRange := 0, version := 4,
    keys := [⟨7, 2⟩] }

/-- The certification state once `exampleWriter` is indexed. -/
def exampleCert : Certification Nat Nat :=
  { version := 4, version_ok := Certification.version_four_ok, trxMap := [exampleWriter],
    certIndexNg := fun h =>
      if h = 7 then some (KeyEntryNG.empty.ref .exclusive exampleWriter) else none,
    depsSet := [0], initialPosition := 0, position := 1, safeToDiscardSeqno := 0,
    lastPaUnsafe := 0, lastPreorderedSeqno := 0, lastPreorderedId := 0,
    maxLength := 16384, maxLengthCheck := 16, optimisticPa := true }

/-- A trx of node `1` at seqno `2` that writes key `7` without having seen
seqno `1`. -/
def exampleReader : TrxHandle Nat Nat :=
  { exampleWriter with globalSeqno := 2, sourceId := 1, trxId := 2 }

theorem do_test_v3to4_conflict_table_remote_writer :
    (doTestV3to4 exampleCert exampleReader true).1 = .testFailed :=
  (do_test_v3to4_conflict_table exampleCert exampleReader true rfl).1.2
    ⟨⟨7, 2⟩, List.mem_singleton_self _, _, rfl,
      Or.inl ⟨exampleWriter, rfl, by decide, Or.inr (by decide)⟩⟩

end Galera.Cert
