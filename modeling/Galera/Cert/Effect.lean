/-
  Galera.Cert.Effect
  ──────────────────
  **WHAT `do_test_v3to4` DOES TO THE INDEX.**

  With `store_keys` set, the key loop creates an empty entry for every new
  key before it knows the verdict (`ExtendsWithin`).  Then

    * on a collision, the clean-up loop erases the entries among the
      processed keys that hold no reference.  That restores the index
      when no entry of the old index was unreferenced
      (`rollbackKeys_restores`), which is what every reachable index
      satisfies (`Galera.Cert.Invariant`);
    * on success, the reference loop makes the trx the reference of every
      key type it holds, in entries that all exist (`refKeys_apply`).

  Main results: `doTestV3to4_restores_of_failed`, `doTestV3to4_index_of_ok`.
-/
import Mathlib
import Galera.Cert.Verdict

namespace Galera.Cert

set_option linter.unusedSectionVars false

variable {S K : Type} [DecidableEq S] [DecidableEq K]

/-! ## §1. The clean-up loop. -/

/-- One step of the clean-up loop keeps `idx` within `idx0` plus empty
entries for the keys still to be cleaned, provided `idx0` had no empty
entry: an entry without reference at the current key is one this trx made. -/
theorem rollbackKeys_step {idx0 idx : CertIndexNG S K} {k : KeyPart K} {ks : List (KeyPart K)}
    (href : ∀ h e, idx0 h = some e → e.referenced = true)
    (hx : ExtendsWithin idx0 idx (k :: ks)) :
    ExtendsWithin idx0
      (match idx k.hash with
       | some kep => if kep.referenced then idx else Function.update idx k.hash none
       | none => idx) ks := by
  -- an added entry at `h` stays added, unless `h` is the current key
  have hrest : ∀ h, idx h ≠ some .empty ∨ h ≠ k.hash →
      idx h = idx0 h ∨ (idx0 h = none ∧ idx h = some .empty ∧ ∃ kp ∈ ks, kp.hash = h) := by
    intro h hne
    rcases hx h with hh | ⟨h0, hh, kp, hkp, rfl⟩
    · exact Or.inl hh
    · rcases List.mem_cons.mp hkp with rfl | hkp
      · simp [hh] at hne
      · exact Or.inr ⟨h0, hh, kp, hkp, rfl⟩
  intro h
  cases hk : idx k.hash with
  | none => exact hrest h (by by_cases he : h = k.hash <;> simp [he, hk])
  | some kep =>
    by_cases hr : kep.referenced = true
    · -- a referenced entry is left alone; it is not one this trx made
      simp only [hr, if_true]
      refine hrest h (by_cases (fun he : h = k.hash => Or.inl ?_) (fun he => Or.inr he))
      rw [he, hk]
      intro heq
      simp [Option.some_inj.mp heq] at hr
    · -- an unreferenced entry was made by this trx, and is erased
      simp only [hr, Bool.false_eq_true, if_false]
      by_cases he : h = k.hash
      · subst he
        refine Or.inl ?_
        rw [Function.update_self]
        rcases hx k.hash with hh | ⟨h0, -⟩
        · exact absurd (href _ kep (hh ▸ hk)) hr
        · exact h0.symm
      · rw [Function.update_of_ne he]
        exact hrest h (Or.inr he)

/-- The clean-up loop removes exactly what the key loop added, as long as
the index it started from held no empty entry. -/
theorem rollbackKeys_restores {idx0 : CertIndexNG S K}
    (href : ∀ h e, idx0 h = some e → e.referenced = true) :
    ∀ {idx : CertIndexNG S K} (P : List (KeyPart K)), ExtendsWithin idx0 idx P →
      rollbackKeys idx P = idx0
  | idx, [], hx => funext fun h => by
    rcases hx h with hh | ⟨-, -, kp, hkp, -⟩
    · exact hh
    · simp at hkp
  | idx, k :: ks, hx => rollbackKeys_restores href ks (rollbackKeys_step href hx)

/-- A failed certification with keys stored undoes the key loop, when no
entry of the index was unreferenced. -/
theorem doTestV3to4_restores_of_failed (c : Certification S K) (trx : TrxHandle S K)
    (href : ∀ h e, c.certIndexNg h = some e → e.referenced = true)
    (hfail : (doTestV3to4 c trx true).1 = .testFailed) :
    (doTestV3to4 c trx true).2.2 = c := by
  cases hk : certifyKeys true c.certIndexNg trx trx.keys with
  | passed i t => simp [doTestV3to4_fst, hk, KeyLoop.isPassed] at hfail
  | failed i t n =>
    have hx := certifyKeys_failed_extends (ExtendsWithin.refl c.certIndexNg) trx true trx.keys hk
    rw [List.append_nil] at hx
    unfold doTestV3to4
    rw [hk]
    simp only [if_true, rollbackKeys_restores href _ hx]

/-! ## §2. The reference loop. -/

/-- The entry at `h` after the reference loop: `trx` becomes the reference
of every type that some key of `ks` at `h` has. -/
def KeyEntryNG.refKeysAt (e : KeyEntryNG S K) (trx : TrxHandle S K) (ks : List (KeyPart K))
    (h : K) : KeyEntryNG S K :=
  ⟨fun p => if ∃ kp ∈ ks, kp.hash = h ∧ kp.wsrepType trx.version = p then some trx
    else e.refs p⟩

/-- An entry no key points at keeps its references. -/
theorem KeyEntryNG.refKeysAt_of_not_mem (e : KeyEntryNG S K) (trx : TrxHandle S K)
    {ks : List (KeyPart K)} {h : K} (hn : ¬ ∃ kp ∈ ks, kp.hash = h) : e.refKeysAt trx ks h = e := by
  refine KeyEntryNG.refs_ext fun p => ?_
  have : ¬ ∃ kp ∈ ks, kp.hash = h ∧ kp.wsrepType trx.version = p :=
    fun ⟨kp, hkp, hh, _⟩ => hn ⟨kp, hkp, hh⟩
  simp only [KeyEntryNG.refKeysAt, this, if_false]

/-- The reference loop, over keys that all have an entry, sets each entry to
`refKeysAt`: the loop's order does not matter. -/
theorem refKeys_apply (trx : TrxHandle S K) :
    ∀ (ks : List (KeyPart K)) (i : CertIndexNG S K), (∀ kp ∈ ks, i kp.hash ≠ none) →
      ∀ h, refKeys trx i ks h = (i h).map (·.refKeysAt trx ks h)
  | [], i, _, h => by
    simp only [refKeys]
    cases i h with
    | none => rfl
    | some e => simp [KeyEntryNG.refKeysAt_of_not_mem]
  | k :: ks, i, hmem, h => by
    obtain ⟨e, he⟩ := Option.ne_none_iff_exists'.mp (hmem k List.mem_cons_self)
    -- the loop refs key `k` in its entry `e`, then goes on with the rest
    have hstep : refKeys trx i (k :: ks) =
        refKeys trx (Function.update i k.hash (some (e.ref (k.wsrepType trx.version) trx))) ks := by
      simp only [refKeys, he]
    have hmem' : ∀ kp ∈ ks,
        Function.update i k.hash (some (e.ref (k.wsrepType trx.version) trx)) kp.hash ≠ none := by
      intro kp hkp
      by_cases hk : kp.hash = k.hash
      · simp [hk]
      · simpa [Function.update_of_ne hk] using hmem kp (List.mem_cons_of_mem _ hkp)
    rw [hstep, refKeys_apply trx ks _ hmem' h]
    by_cases hk : h = k.hash
    · subst hk
      simp only [Function.update_self, he, Option.map_some, Option.some_inj]
      refine KeyEntryNG.refs_ext fun p => ?_
      by_cases hp : p = k.wsrepType trx.version
      · subst hp
        simp [KeyEntryNG.refKeysAt]
      · simp [KeyEntryNG.refKeysAt, hp, Ne.symm hp]
    · rw [Function.update_of_ne hk]
      cases i h with
      | none => rfl
      | some e' =>
        simp only [Option.map_some, Option.some_inj]
        refine KeyEntryNG.refs_ext fun p => ?_
        simp [KeyEntryNG.refKeysAt, Ne.symm hk]

/-- **A passing certification with keys stored** gives every key of the trx
an entry whose references of the trx's key types are the trx itself, and
leaves every other entry as it was. -/
theorem doTestV3to4_index_of_ok (c : Certification S K) (trx : TrxHandle S K)
    (hok : (doTestV3to4 c trx true).1 = .testOk) (h : K) :
    (doTestV3to4 c trx true).2.2.certIndexNg h =
      if ∃ kp ∈ trx.keys, kp.hash = h then
        some (((c.certIndexNg h).getD .empty).refKeysAt (doTestV3to4 c trx true).2.1 trx.keys h)
      else c.certIndexNg h := by
  cases hk : certifyKeys true c.certIndexNg trx trx.keys with
  | failed i t n => simp [doTestV3to4_fst, hk, KeyLoop.isPassed] at hok
  | passed i t =>
    have hext := certifyKeys_passed_extends (ExtendsWithin.refl c.certIndexNg) trx true trx.keys hk
    have hmem := certifyKeys_passed_mem trx.keys hk
    unfold doTestV3to4
    rw [hk]
    simp only [if_true]
    rw [refKeys_apply _ _ _ hmem]
    rcases hext h with hh | ⟨h0, hh, kp, hkp, rfl⟩
    · -- an entry of the old index, or none
      rw [hh]
      by_cases hkey : ∃ kp ∈ trx.keys, kp.hash = h
      · obtain ⟨kp, hkp, rfl⟩ := hkey
        have hex : ∃ kp' ∈ trx.keys, kp'.hash = kp.hash := ⟨kp, hkp, rfl⟩
        obtain ⟨e, he⟩ := Option.ne_none_iff_exists'.mp (hh ▸ hmem kp hkp)
        simp [he, hex]
      · cases c.certIndexNg h <;> simp [hkey, KeyEntryNG.refKeysAt_of_not_mem]
    · -- an entry the key loop created
      simp only [List.append_nil] at hkp
      have hex : ∃ kp' ∈ trx.keys, kp'.hash = kp.hash := ⟨kp, hkp, rfl⟩
      simp [hh, h0, hex]

/-! ## §3. The trx. -/

/-- The cascade changes nothing of the trx but its `depends_seqno`, which
it only raises. -/
theorem certifyAndDependV3to4_snd_eq (e : KeyEntryNG S K) (key : KeyPart K)
    (trx : TrxHandle S K) :
    ∃ d, trx.dependsSeqno ≤ d ∧ (certifyAndDependV3to4 e key trx).2 = trx.setDependsSeqno d := by
  cases hc : (certifyAndDependV3to4 e key trx).1 with
  | false => exact ⟨_, le_foldl_max _ _, certifyAndDependV3to4_snd e key trx hc⟩
  | true =>
    -- on a conflict the cascade hands the trx back as it came
    refine ⟨trx.dependsSeqno, le_rfl, ?_⟩
    rw [TrxHandle.setDependsSeqno_self]
    unfold certifyAndDependV3to4 at hc ⊢
    simp only [checkAgainst_eq] at hc ⊢
    split_ifs at hc ⊢ <;> simp_all

theorem certifyV3to4_snd_eq (idx : CertIndexNG S K) (key : KeyPart K) (trx : TrxHandle S K)
    (sk : Bool) :
    ∃ d, trx.dependsSeqno ≤ d ∧ (certifyV3to4 idx key trx sk).2.2 = trx.setDependsSeqno d := by
  have hself : ∃ d, trx.dependsSeqno ≤ d ∧ trx = trx.setDependsSeqno d :=
    ⟨_, le_rfl, (TrxHandle.setDependsSeqno_self trx).symm⟩
  unfold certifyV3to4
  cases idx key.hash with
  | none => exact hself
  | some e =>
    cases trx.isToi
    · exact certifyAndDependV3to4_snd_eq e key trx
    · exact hself

/-- The trx a key loop ends with. -/
def KeyLoop.trx : KeyLoop S K → TrxHandle S K
  | .passed _ t => t
  | .failed _ t _ => t

@[simp] theorem KeyLoop.trx_bump (r : KeyLoop S K) : r.bump.trx = r.trx := by
  cases r <;> rfl

/-- The key loop only raises the trx's `depends_seqno`. -/
theorem certifyKeys_trx_eq (sk : Bool) :
    ∀ (idx : CertIndexNG S K) (trx : TrxHandle S K) (ks : List (KeyPart K)),
      ∃ d, trx.dependsSeqno ≤ d ∧ (certifyKeys sk idx trx ks).trx = trx.setDependsSeqno d
  | idx, trx, [] => ⟨_, le_rfl, (TrxHandle.setDependsSeqno_self trx).symm⟩
  | idx, trx, key :: ks => by
    obtain ⟨d, hd, hr⟩ := certifyV3to4_snd_eq idx key trx sk
    rcases hc : certifyV3to4 idx key trx sk with ⟨_ | _, idx', trx'⟩
    · rw [hc] at hr
      obtain ⟨d', hd', hr'⟩ := certifyKeys_trx_eq sk idx' trx' ks
      subst hr
      refine ⟨d', le_trans hd (by simpa using hd'), ?_⟩
      rw [certifyKeys_cons_false ks hc, KeyLoop.trx_bump, hr', TrxHandle.setDependsSeqno_setDependsSeqno]
    · rw [hc] at hr
      exact ⟨d, hd, by rw [certifyKeys_cons_true ks hc, KeyLoop.trx, ← hr]⟩

/-- `do_test_v3to4` changes nothing of the trx but its `depends_seqno`,
and on success it has only raised it. -/
theorem doTestV3to4_snd_eq (c : Certification S K) (trx : TrxHandle S K) (sk : Bool) :
    ∃ d, ((doTestV3to4 c trx sk).1 = .testOk → trx.dependsSeqno ≤ d) ∧
      (doTestV3to4 c trx sk).2.1 = trx.setDependsSeqno d := by
  obtain ⟨d, hd, ht⟩ := certifyKeys_trx_eq sk c.certIndexNg trx trx.keys
  cases hk : certifyKeys sk c.certIndexNg trx trx.keys with
  | passed i t =>
    rw [hk, KeyLoop.trx] at ht
    subst ht
    refine ⟨max d c.lastPaUnsafe, fun _ => le_trans hd (le_max_left _ _), ?_⟩
    rw [doTestV3to4_snd_of_passed hk]
    simp
  | failed i t n =>
    rw [hk, KeyLoop.trx] at ht
    refine ⟨d, fun hok => by simp [doTestV3to4_fst, hk, KeyLoop.isPassed] at hok, ?_⟩
    unfold doTestV3to4
    rw [hk, ht]

/-- `do_test_v3to4` touches no field of the object but the index and
`last_pa_unsafe_`. -/
theorem doTestV3to4_frame (c : Certification S K) (trx : TrxHandle S K) (sk : Bool) :
    (doTestV3to4 c trx sk).2.2.trxMap = c.trxMap ∧
    (doTestV3to4 c trx sk).2.2.position = c.position := by
  unfold doTestV3to4
  cases certifyKeys sk c.certIndexNg trx trx.keys <;> cases sk <;> exact ⟨rfl, rfl⟩

/-- Besides the index, `do_test_v3to4` changes only `last_pa_unsafe_`: a
PA-unsafe trx that passes with keys stored becomes it. -/
theorem doTestV3to4_rest (c : Certification S K) (trx : TrxHandle S K) (sk : Bool) :
    { (doTestV3to4 c trx sk).2.2 with certIndexNg := c.certIndexNg } =
      if (doTestV3to4 c trx sk).1 = .testOk ∧ sk = true then
        { c with lastPaUnsafe := if trx.paUnsafe then trx.globalSeqno else c.lastPaUnsafe }
      else c := by
  obtain ⟨d, -, ht⟩ := certifyKeys_trx_eq sk c.certIndexNg trx trx.keys
  cases hk : certifyKeys sk c.certIndexNg trx trx.keys with
  | passed i t =>
    rw [hk, KeyLoop.trx] at ht
    unfold doTestV3to4
    rw [hk]
    cases sk <;> simp [ht]
  | failed i t n =>
    unfold doTestV3to4
    rw [hk]
    simp

/-! ## §4. `test`. -/

/-- A trx that is not preordered gets the verdict and the object of
`do_test`. -/
theorem test_of_not_preordered {c : Certification S K} {trx : TrxHandle S K} {sk : Bool}
    (hp : trx.preordered = false) :
    (test c trx sk).1 = (doTest c trx sk).1 ∧ (test c trx sk).2.2 = (doTest c trx sk).2.2 := by
  simp only [test, hp, Bool.false_eq_true, if_false]
  split_ifs <;> exact ⟨rfl, rfl⟩

theorem test_of_preordered {c : Certification S K} {trx : TrxHandle S K} {sk : Bool}
    (hp : trx.preordered = true) : test c trx sk = doTestPreordered c trx := by
  simp [test, hp, doTestPreordered]

/-- A trx that is not preordered and passes `test` went through
`do_test_v3to4` with the parent seqno of `do_test`, after a version check. -/
theorem test_eq_of_ok {c : Certification S K} {trx : TrxHandle S K} {sk : Bool}
    (hp : trx.preordered = false) (hok : (test c trx sk).1 = .testOk) :
    test c trx sk = doTestV3to4 c (trx.setDependsSeqno (initialDependsSeqno c trx)) sk ∧
      trxCertVersionMatch trx.version c.version = true := by
  have hok' : (doTest c trx sk).1 = .testOk := by
    simp only [test, hp, Bool.false_eq_true, if_false] at hok
    split_ifs at hok with h
    · exact h
    · exact hok
  have hver : trxCertVersionMatch trx.version c.version = true := by
    by_contra hv
    have hv' : trxCertVersionMatch trx.version c.version = false := by simpa using hv
    simp [doTest, hv'] at hok'
  refine ⟨?_, hver⟩
  simp only [test, hp, Bool.false_eq_true, if_false, hok', if_true]
  exact doTest_eq_of_ok hok'

/-- A trx that is not preordered and fails `test` leaves with
`depends_seqno == -1` and, when no entry of the index was unreferenced,
leaves the object as it was. -/
theorem test_of_failed {c : Certification S K} {trx : TrxHandle S K}
    (href : ∀ h e, c.certIndexNg h = some e → e.referenced = true)
    (hp : trx.preordered = false) (hf : (test c trx true).1 = .testFailed) :
    (test c trx true).2.2 = c ∧ (test c trx true).2.1.dependsSeqno = -1 := by
  have hf' : (doTest c trx true).1 = .testFailed := by
    simp only [test, hp, Bool.false_eq_true, if_false] at hf
    split_ifs at hf with h
    · simp [h] at hf
    · exact hf
  simp only [test, hp, Bool.false_eq_true, if_false, hf', reduceCtorEq, if_false,
    TrxHandle.setDependsSeqno_dependsSeqno, and_true]
  unfold doTest at hf' ⊢
  split_ifs at hf' ⊢
  · rfl
  · rfl
  · exact doTestV3to4_restores_of_failed _ _ href hf'

/-- `test` touches no field of the object but the index, `last_pa_unsafe_`
and the preordered bookkeeping, and of the trx only its `depends_seqno`. -/
theorem test_frame (c : Certification S K) (trx : TrxHandle S K) (sk : Bool) :
    (test c trx sk).2.2.trxMap = c.trxMap ∧ (test c trx sk).2.2.position = c.position ∧
      ∃ d, (test c trx sk).2.1 = trx.setDependsSeqno d := by
  have hv3 := doTestV3to4_frame c (trx.setDependsSeqno (initialDependsSeqno c trx)) sk
  obtain ⟨d, -, hd⟩ := doTestV3to4_snd_eq c (trx.setDependsSeqno (initialDependsSeqno c trx)) sk
  -- the test that runs changes the trx's seqno only; a failure sets it to -1
  have hr : ∀ r, r = (if trx.preordered then doTestPreordered c trx else doTest c trx sk) →
      r.2.2.trxMap = c.trxMap ∧ r.2.2.position = c.position ∧
        ∃ d, r.2.1 = trx.setDependsSeqno d := by
    rintro r rfl
    have hself : ∃ d, trx = trx.setDependsSeqno d := ⟨_, (TrxHandle.setDependsSeqno_self trx).symm⟩
    unfold doTest doTestPreordered
    split_ifs <;> simp [hv3, hd, hself]
  unfold test
  generalize hr' : (if trx.preordered = true then doTestPreordered c trx else doTest c trx sk) = r
  obtain ⟨h1, h2, d', hd'⟩ := hr r hr'.symm
  dsimp only
  split_ifs
  · exact ⟨h1, h2, d', hd'⟩
  · exact ⟨h1, h2, -1, by simp [hd']⟩

/-- Besides the index, `test` changes only `last_pa_unsafe_` (a PA-unsafe
trx that passes with keys stored) and, for a preordered trx, the preordered
bookkeeping. -/
theorem test_rest (c : Certification S K) (trx : TrxHandle S K) (sk : Bool) :
    { (test c trx sk).2.2 with certIndexNg := c.certIndexNg } =
      if trx.preordered then
        { c with lastPreorderedSeqno := trx.globalSeqno, lastPreorderedId := trx.trxId }
      else if (test c trx sk).1 = .testOk ∧ sk = true then
        { c with lastPaUnsafe := if trx.paUnsafe then trx.globalSeqno else c.lastPaUnsafe }
      else c := by
  cases hp : trx.preordered
  · obtain ⟨h1, h2⟩ := @test_of_not_preordered S K _ _ c trx sk hp
    simp only [h1, h2, Bool.false_eq_true, if_false]
    unfold doTest
    split_ifs with hv hr
    · simp
    · simp
    · -- the test that runs is `do_test_v3to4`, on a trx with the same flags
      have := doTestV3to4_rest c (trx.setDependsSeqno (initialDependsSeqno c trx)) sk
      rw [TrxHandle.setDependsSeqno_paUnsafe, TrxHandle.setDependsSeqno_globalSeqno] at this
      exact this
  · simp [test_of_preordered hp, doTestPreordered]

/-- `last_pa_unsafe_` stays below any bound that it and the tested trx are
below. -/
theorem test_lastPaUnsafe_le (c : Certification S K) (trx : TrxHandle S K) (sk : Bool) {x : Int}
    (hc : c.lastPaUnsafe ≤ x) (ht : trx.globalSeqno ≤ x) :
    (test c trx sk).2.2.lastPaUnsafe ≤ x := by
  have h := congrArg Certification.lastPaUnsafe (test_rest c trx sk)
  simp only at h
  rw [h]
  split_ifs <;> assumption

end Galera.Cert
