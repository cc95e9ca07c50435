/-
  Galera.KeySet.Dedup
  ───────────────────
  **WHAT `KeySetOut` LEAVES OUT, CERTIFICATION DOES NOT MISS — EXCEPT UNDER
  A STRONG ANCESTOR.**

  Without deduplication a write set would carry, for every appended key
  `p1:…:pn` of type `t`, the parts `p1:…:pi` SHARED for `i < n` and
  `p1:…:pn` of type `t` (`expandKey`).  Certification asks of a key hash
  only for its strongest type (`keyConflict_mono`, `keyDeps_mono`), so any
  key set made of parts of the expansion that has, for each of its parts,
  one with the same hash at least as strong, certifies alike
  (`doTestV3to4_of_covers`).

  `KeySetOut` stores only parts of the expansion and, as long as no key lies
  under an earlier SEMI or EXCLUSIVE key (`NoStrongAncestor`), covers every
  part of it (`DedupInv`, kept by every `append`: `DedupInv.append`).  Under
  such a key it drops the descendants on purpose (key_set_check.cpp: "tk3
  should make it impossible to add anything past a0:a1"), and a conflict on
  a dropped descendant then goes unseen.
-/
import Mathlib
import Galera.KeySet.Out
import Galera.Cert.Verdict

namespace Galera.KeySet

open Galera.Cert

set_option linter.unusedSectionVars false

variable {S V K : Type} [DecidableEq S] [DecidableEq V] [DecidableEq K]

/-! ## §1. Certification reads the strongest type of a key. -/

/-- A stronger prefix reads as EXCLUSIVE wherever a weaker one does. -/
theorem wsrepType_exclusive_mono {kp kq : KeyPart K} (hle : kp.prefixBits ≤ kq.prefixBits)
    (v : Nat) (h : kp.wsrepType v = .exclusive) : kq.wsrepType v = .exclusive := by
  obtain ⟨a, p⟩ := kp
  obtain ⟨b, q⟩ := kq
  simp only [KeyPart.wsrepType] at h hle ⊢
  -- prefix 0 is SHARED, 2 EXCLUSIVE, and 1 EXCLUSIVE except in version 4
  by_cases hv : v = 4
  · simp only [hv] at h ⊢
    revert p q
    decide
  · simp only [hv, if_false] at h ⊢
    revert p q
    decide

theorem tableConflict_mono {e : KeyEntryNG S K} {kt kt' : KeyType} {trx : TrxHandle S K}
    (hkt : kt = .exclusive → kt' = .exclusive) (h : TableConflict e kt trx) :
    TableConflict e kt' trx := by
  rcases h with h | ⟨hk, h⟩
  · exact Or.inl h
  · exact Or.inr ⟨hkt hk, h⟩

theorem tableDeps_mono {e : KeyEntryNG S K} {kt kt' : KeyType}
    (hkt : kt = .exclusive → kt' = .exclusive) {x : Int} (h : x ∈ tableDeps e kt) :
    x ∈ tableDeps e kt' := by
  obtain ⟨p, R, hp, hR, rfl⟩ := mem_tableDeps.mp h
  exact mem_tableDeps.mpr ⟨p, R, hp.imp_right hkt, hR, rfl⟩

/-- A key conflicts no less as a stronger part of the same hash. -/
theorem keyConflict_mono {idx : CertIndexNG S K} {trx : TrxHandle S K} {kp kq : KeyPart K}
    (hh : kq.hash = kp.hash) (hle : kp.prefixBits ≤ kq.prefixBits)
    (h : KeyConflict idx trx kp) : KeyConflict idx trx kq := by
  obtain ⟨e, he, hc⟩ := h
  exact ⟨e, hh ▸ he, tableConflict_mono (wsrepType_exclusive_mono hle _) hc⟩

/-- A key depends on no less as a stronger part of the same hash. -/
theorem keyDeps_mono {idx : CertIndexNG S K} {trx : TrxHandle S K} {kp kq : KeyPart K}
    (hh : kq.hash = kp.hash) (hle : kp.prefixBits ≤ kq.prefixBits) {x : Int}
    (h : x ∈ keyDeps idx trx kp) : x ∈ keyDeps idx trx kq := by
  unfold keyDeps at h ⊢
  rw [hh]
  cases he : idx kp.hash with
  | none => simp [he] at h
  | some e =>
    rw [he] at h
    exact tableDeps_mono (wsrepType_exclusive_mono hle _) h

/-- `D` has a part with the hash of `kp`, at least as strong. -/
def Covered (D : List (KeyPart K)) (kp : KeyPart K) : Prop :=
  ∃ kq ∈ D, kq.hash = kp.hash ∧ kp.prefixBits ≤ kq.prefixBits

theorem Covered.mono {D D' : List (KeyPart K)} {kp : KeyPart K} (h : Covered D kp)
    (hD : ∀ x ∈ D, x ∈ D') : Covered D' kp := by
  obtain ⟨kq, hq, hh, hle⟩ := h
  exact ⟨kq, hD kq hq, hh, hle⟩

/-- **Key sets that cover each other certify alike.**  A key set `D` of parts
of `E` that covers every part of `E` gets from `do_test_v3to4` the verdict
of `E` and, when it passes, the same `depends_seqno`. -/
theorem doTestV3to4_of_covers {D E : List (KeyPart K)} (hsub : ∀ kp ∈ D, kp ∈ E)
    (hcov : ∀ kp ∈ E, Covered D kp) (c : Certification S K) (trx : TrxHandle S K) (sk : Bool) :
    (doTestV3to4 c { trx with keys := D } sk).1 = (doTestV3to4 c { trx with keys := E } sk).1 ∧
      ((doTestV3to4 c { trx with keys := D } sk).1 = .testOk →
        (doTestV3to4 c { trx with keys := D } sk).2.1.dependsSeqno =
          (doTestV3to4 c { trx with keys := E } sk).2.1.dependsSeqno) := by
  rcases Bool.eq_false_or_eq_true trx.isToi with htoi | htoi
  · -- a TOI trx passes either way, on the same seqnos
    obtain ⟨hD₁, hD₂⟩ := doTestV3to4_of_toi c { trx with keys := D } sk htoi
    obtain ⟨hE₁, hE₂⟩ := doTestV3to4_of_toi c { trx with keys := E } sk htoi
    exact ⟨hD₁.trans hE₁.symm, fun _ => hD₂.trans hE₂.symm⟩
  · -- a conflict or a dependency of a part of `E` is one of the part covering it
    have hconf : (∃ kp ∈ D, KeyConflict c.certIndexNg trx kp) ↔
        ∃ kp ∈ E, KeyConflict c.certIndexNg trx kp := by
      constructor
      · rintro ⟨kp, hkp, hc⟩
        exact ⟨kp, hsub kp hkp, hc⟩
      · rintro ⟨kp, hkp, hc⟩
        obtain ⟨kq, hkq, hh, hle⟩ := hcov kp hkp
        exact ⟨kq, hkq, keyConflict_mono hh hle hc⟩
    have hdeps : ∀ x, x ∈ D.flatMap (keyDeps c.certIndexNg trx) ↔
        x ∈ E.flatMap (keyDeps c.certIndexNg trx) := by
      intro x
      simp only [List.mem_flatMap]
      constructor
      · rintro ⟨kp, hkp, hx⟩
        exact ⟨kp, hsub kp hkp, hx⟩
      · rintro ⟨kp, hkp, hx⟩
        obtain ⟨kq, hkq, hh, hle⟩ := hcov kp hkp
        exact ⟨kq, hkq, keyDeps_mono hh hle hx⟩
    have hD := doTestV3to4_failed_iff c { trx with keys := D } sk htoi
    have hE := doTestV3to4_failed_iff c { trx with keys := E } sk htoi
    have heq := TestResult.eq_of_failed_iff (hD.trans (hconf.trans hE.symm))
    refine ⟨heq, fun hok => ?_⟩
    rw [doTestV3to4_depends c { trx with keys := D } sk htoi hok,
      doTestV3to4_depends c { trx with keys := E } sk htoi (heq ▸ hok)]
    dsimp only
    -- two maxima over the same values and the same seed
    apply le_antisymm
    · rw [foldl_max_le]
      exact ⟨le_foldl_max _ _, fun x hx =>
        ((foldl_max_le _ _ _).mp le_rfl).2 x ((hdeps x).mp hx)⟩
    · rw [foldl_max_le]
      exact ⟨le_foldl_max _ _, fun x hx =>
        ((foldl_max_le _ _ _).mp le_rfl).2 x ((hdeps x).mpr hx)⟩

/-! ## §2. The key set without deduplication. -/

variable (hashPath : List V → K)

/-- Every part of every path prefix of `kd`, as the constructor would build
it: the undeduplicated key set of one key. -/
def expandKey (wsVer : Nat) (kd : KeyData V) : List (KeyPart K) :=
  (List.range kd.parts.length).map (kd.part hashPath wsVer)

theorem mem_expandKey {wsVer : Nat} {kd : KeyData V} {kp : KeyPart K} :
    kp ∈ expandKey hashPath wsVer kd ↔ ∃ j < kd.parts.length, kd.part hashPath wsVer j = kp := by
  simp [expandKey]

/-- A part of the expansion with a non-SHARED prefix is the leaf of a SEMI or
EXCLUSIVE key. -/
theorem leaf_of_mem_expandKey {wsVer : Nat} {kd : KeyData V} {kp : KeyPart K}
    (hkp : kp ∈ expandKey hashPath wsVer kd) (hpos : 0 < kp.prefixBits) :
    kd.type ≠ .shared ∧ kd.parts ≠ [] ∧ kp.hash = hashPath kd.parts := by
  obtain ⟨j, hj, rfl⟩ := (mem_expandKey hashPath).mp hkp
  by_cases hl : j + 1 = kd.parts.length
  · rw [KeyData.part_of_leaf hashPath wsVer kd hl] at hpos ⊢
    refine ⟨fun ht => ?_, List.ne_nil_of_length_pos (by omega), rfl⟩
    rw [ht, prefixFor_shared] at hpos
    exact Fin.lt_irrefl 0 hpos
  · rw [KeyData.part_prefixBits_of_branch hashPath wsVer kd hl] at hpos
    exact absurd hpos (Fin.lt_irrefl 0)

/-- `later` does not lie under `earlier` when `earlier` is a SEMI or
EXCLUSIVE key: no branch part of `later` has the hash of `earlier`'s path. -/
def NoStrongAncestor (earlier later : KeyData V) : Prop :=
  earlier.type ≠ .shared → earlier.parts ≠ [] →
    ∀ j < later.parts.length - 1, hashPath (later.parts.take (j + 1)) ≠ hashPath earlier.parts

instance (earlier later : KeyData V) : Decidable (NoStrongAncestor hashPath earlier later) :=
  inferInstanceAs (Decidable (_ → _ → ∀ j < _, _))

/-! ## §3. What `append` keeps. -/

/-- The stored parts are parts of `E`, and `added_` holds a prefix only as
the prefix of a stored part. -/
structure KeySetOut.Sound (E : List (KeyPart K)) (ks : KeySetOut V K) : Prop where
  stored_mem : ∀ kp ∈ ks.stored, kp ∈ E
  added_stored : ∀ h q, ks.added h = some q → (⟨h, q⟩ : KeyPart K) ∈ ks.stored

/-- `ks'` extends `ks`: the same version and previous key, every stored part
kept and every added hash still there. -/
structure KeySetOut.Grows (ks ks' : KeySetOut V K) : Prop where
  wsVer : ks'.wsVer = ks.wsVer
  prev : ks'.prev = ks.prev
  stored : ∀ kp ∈ ks.stored, kp ∈ ks'.stored
  added : ∀ h, ks.added h ≠ none → ks'.added h ≠ none

theorem KeySetOut.Grows.refl (ks : KeySetOut V K) : ks.Grows ks :=
  ⟨rfl, rfl, fun _ h => h, fun _ h => h⟩

theorem KeySetOut.Grows.trans {ks₁ ks₂ ks₃ : KeySetOut V K} (h₁ : ks₁.Grows ks₂)
    (h₂ : ks₂.Grows ks₃) : ks₁.Grows ks₃ :=
  ⟨h₂.wsVer.trans h₁.wsVer, h₂.prev.trans h₁.prev, fun kp h => h₂.stored kp (h₁.stored kp h),
    fun h hn => h₂.added h (h₁.added h hn)⟩

theorem KeySetOut.Sound.mono {E E' : List (KeyPart K)} {ks : KeySetOut V K} (hs : ks.Sound E)
    (hE : ∀ kp ∈ E, kp ∈ E') : ks.Sound E' :=
  ⟨fun kp h => hE kp (hs.stored_mem kp h), hs.added_stored⟩

theorem KeySetOut.store_grows (ks : KeySetOut V K) (kp : KeyPart K) : ks.Grows (ks.store kp) := by
  refine ⟨rfl, rfl, fun x hx => List.mem_append_left _ hx, fun h hn => ?_⟩
  rw [KeySetOut.store_added]
  split_ifs
  · simp
  · exact hn

theorem KeySetOut.Sound.store {E : List (KeyPart K)} {ks : KeySetOut V K} (hs : ks.Sound E)
    {kp : KeyPart K} (hkp : kp ∈ E) : (ks.store kp).Sound E := by
  refine ⟨fun x hx => ?_, fun h q hq => ?_⟩
  · rcases List.mem_append.mp hx with hx | hx
    · exact hs.stored_mem x hx
    · rw [List.mem_singleton.mp hx]
      exact hkp
  · rw [KeySetOut.store_added] at hq
    split_ifs at hq with hh
    · rw [Option.some_inj] at hq
      subst hh hq
      exact List.mem_append_right _ (List.mem_singleton_self _)
    · exact List.mem_append_left _ (hs.added_stored h q hq)

/-- A part the constructor returns from: kept sound, grown, and covering the
part, whose hash is now added; `added_` changed at that hash at most. -/
theorem KeySetOut.keyPart_some {E : List (KeyPart K)} {ks ks' : KeySetOut V K} {kd : KeyData V}
    {j : Nat} (hs : ks.Sound E) (hE : kd.part hashPath ks.wsVer j ∈ E)
    (h : ks.keyPart hashPath kd j = some ks') :
    ks'.Sound E ∧ ks.Grows ks' ∧ Covered ks'.stored (kd.part hashPath ks.wsVer j) ∧
      ks'.added (kd.part hashPath ks.wsVer j).hash ≠ none ∧
      ∀ h q, ks'.added h = some q →
        ks.added h = some q ∨ (h = (kd.part hashPath ks.wsVer j).hash ∧
          q = (kd.part hashPath ks.wsVer j).prefixBits) := by
  have hstored : ∀ h q, (ks.store (kd.part hashPath ks.wsVer j)).added h = some q →
      ks.added h = some q ∨ (h = (kd.part hashPath ks.wsVer j).hash ∧
        q = (kd.part hashPath ks.wsVer j).prefixBits) := by
    intro h q hq
    rw [KeySetOut.store_added] at hq
    split_ifs at hq with hh
    · exact Or.inr ⟨hh, (Option.some_inj.mp hq).symm⟩
    · exact Or.inl hq
  rcases ks.keyPart_cases hashPath kd j with ⟨-, hk⟩ | ⟨q, -, -, hk⟩ | ⟨q, hq, hle, -, -, hk⟩ |
      ⟨q, -, -, -, hk⟩
  · rw [hk, Option.some_inj] at h
    subst h
    exact ⟨hs.store hE, ks.store_grows _, ⟨_, List.mem_append_right _ (List.mem_singleton_self _),
      rfl, Fin.le_refl _⟩, by simp [KeySetOut.store_added], hstored⟩
  · rw [hk, Option.some_inj] at h
    subst h
    exact ⟨hs.store hE, ks.store_grows _, ⟨_, List.mem_append_right _ (List.mem_singleton_self _),
      rfl, Fin.le_refl _⟩, by simp [KeySetOut.store_added], hstored⟩
  · -- a SHARED branch part already there
    rw [hk, Option.some_inj] at h
    subst h
    exact ⟨hs, KeySetOut.Grows.refl _, ⟨_, hs.added_stored _ _ hq, rfl, hle⟩, by simp [hq],
      fun h q hq => Or.inl hq⟩
  · rw [hk] at h
    cases h

/-- A part that throws `DUPLICATE` is covered already, and is the leaf or
sits under a stronger prefix. -/
theorem KeySetOut.keyPart_none {E : List (KeyPart K)} {ks : KeySetOut V K} {kd : KeyData V}
    {j : Nat} (hs : ks.Sound E) (h : ks.keyPart hashPath kd j = none) :
    Covered ks.stored (kd.part hashPath ks.wsVer j) ∧
      (j + 1 = kd.parts.length ∨ ∃ q, ks.added (kd.part hashPath ks.wsVer j).hash = some q ∧
        (kd.part hashPath ks.wsVer j).prefixBits < q) := by
  rcases ks.keyPart_cases hashPath kd j with ⟨-, hk⟩ | ⟨q, -, -, hk⟩ | ⟨q, -, -, -, -, hk⟩ |
      ⟨q, hq, hle, hwhy, -⟩
  · rw [hk] at h
    cases h
  · rw [hk] at h
    cases h
  · rw [hk] at h
    cases h
  · refine ⟨⟨_, hs.added_stored _ _ hq, rfl, hle⟩, ?_⟩
    rcases hwhy with hwhy | hwhy
    · exact Or.inl hwhy
    · exact Or.inr ⟨q, hq, hwhy⟩

/-- **The loop of `append`.**  Over increasing part indices whose branch
hashes hold SHARED parts at most, every part gets covered: a `DUPLICATE`
can only come from the leaf, the last part. -/
theorem KeySetOut.appendParts_spec (kd : KeyData V) {E : List (KeyPart K)} :
    ∀ (ks : KeySetOut V K) (is : List Nat), ks.Sound E →
      (∀ j ∈ is, j < kd.parts.length ∧ kd.part hashPath ks.wsVer j ∈ E) →
      is.Pairwise (· < ·) →
      (∀ j ∈ is, j + 1 < kd.parts.length →
        ∀ q, ks.added (kd.part hashPath ks.wsVer j).hash = some q → q = 0) →
      (ks.appendParts hashPath kd is).1.Sound E ∧ ks.Grows (ks.appendParts hashPath kd is).1 ∧
        (∀ j ∈ is, Covered (ks.appendParts hashPath kd is).1.stored
          (kd.part hashPath ks.wsVer j)) ∧
        ((ks.appendParts hashPath kd is).2 = true →
          ∀ j ∈ is, (ks.appendParts hashPath kd is).1.added
            (kd.part hashPath ks.wsVer j).hash ≠ none)
  | ks, [], hs, _, _, _ => ⟨hs, KeySetOut.Grows.refl ks, by simp, by simp⟩
  | ks, i :: is, hs, hall, hsorted, hbranch => by
    rw [List.pairwise_cons] at hsorted
    have hi := hall i List.mem_cons_self
    cases hk : ks.keyPart hashPath kd i with
    | none =>
      -- a `DUPLICATE`: only the leaf throws, and no part follows it
      obtain ⟨hcov, hwhy⟩ := KeySetOut.keyPart_none hashPath hs hk
      have hleaf : i + 1 = kd.parts.length := by
        rcases hwhy with hwhy | ⟨q, hq, hlt⟩
        · exact hwhy
        · by_contra hne
          have hq0 := hbranch i List.mem_cons_self (by omega) q hq
          rw [KeyData.part_prefixBits_of_branch hashPath _ kd hne, hq0] at hlt
          exact Fin.lt_irrefl 0 hlt
      have hnil : is = [] := by
        cases is with
        | nil => rfl
        | cons k ks' =>
          have := hsorted.1 k List.mem_cons_self
          have := (hall k (List.mem_cons_of_mem _ List.mem_cons_self)).1
          omega
      subst hnil
      simp only [KeySetOut.appendParts, hk, List.mem_singleton, forall_eq]
      exact ⟨hs, KeySetOut.Grows.refl ks, hcov, by simp⟩
    | some ks' =>
      obtain ⟨hs', hg, hcov, hadd, hchg⟩ := KeySetOut.keyPart_some hashPath hs hi.2 hk
      have hver := hg.wsVer
      -- the parts after `i` still find SHARED parts at most on their branches
      have hbranch' : ∀ j ∈ is, j + 1 < kd.parts.length →
          ∀ q, ks'.added (kd.part hashPath ks'.wsVer j).hash = some q → q = 0 := by
        intro j hj hbr q hq
        rw [hver] at hq
        rcases hchg _ q hq with hq | ⟨-, rfl⟩
        · exact hbranch j (List.mem_cons_of_mem _ hj) hbr q hq
        · have := hsorted.1 j hj
          exact KeyData.part_prefixBits_of_branch hashPath _ kd (by omega)
      obtain ⟨hs'', hg', hcov', hadd'⟩ := KeySetOut.appendParts_spec kd ks' is hs'
        (fun j hj => by rw [hver]; exact hall j (List.mem_cons_of_mem _ hj)) hsorted.2 hbranch'
      simp only [KeySetOut.appendParts, hk]
      rw [hver] at hcov' hadd'
      refine ⟨hs'', hg.trans hg', ?_, ?_⟩
      · intro j hj
        rcases List.mem_cons.mp hj with rfl | hj
        · exact hcov.mono hg'.stored
        · exact hcov' j hj
      · intro hr j hj
        rcases List.mem_cons.mp hj with rfl | hj
        · exact hg'.added _ hadd
        · exact hadd' hr j hj

/-! ## §4. The invariant of `append`. -/

/-- What `KeySetOut` keeps after the keys whose expansion is `E`: its stored
parts are parts of `E` and cover all of them, and every part of the previous
key is added. -/
structure DedupInv (E : List (KeyPart K)) (ks : KeySetOut V K) : Prop where
  sound : ks.Sound E
  covered : ∀ kp ∈ E, Covered ks.stored kp
  prev_added : ∀ j < ks.prev.length, ks.added (hashPath (ks.prev.take (j + 1))) ≠ none

theorem dedupInv_init (wsVer : Nat) : DedupInv hashPath [] (KeySetOut.init wsVer : KeySetOut V K) :=
  ⟨⟨by simp [KeySetOut.init], by simp [KeySetOut.init]⟩, by simp, by simp [KeySetOut.init]⟩

section Step

variable {E : List (KeyPart K)} {ks : KeySetOut V K} {kd : KeyData V}

/-- The parts `kd` shares with the previous key are added. -/
theorem DedupInv.added_of_matched (hinv : DedupInv hashPath E ks) {j : Nat}
    (hj : j < matchedParts ks.prev kd.parts) :
    ∃ q, ks.added (hashPath (kd.parts.take (j + 1))) = some q := by
  obtain ⟨hle, -, htake⟩ := matchedParts_spec ks.prev kd.parts
  have h := hinv.prev_added j (by omega)
  have ht : ks.prev.take (j + 1) = kd.parts.take (j + 1) := by
    have := congrArg (List.take (j + 1)) htake
    rwa [List.take_take, List.take_take, Nat.min_eq_left (by omega)] at this
  rw [ht] at h
  exact Option.ne_none_iff_exists'.mp h

/-- A branch part of `kd` it shares with the previous key is covered. -/
theorem DedupInv.covered_of_matched (hinv : DedupInv hashPath E ks) {j : Nat}
    (hj : j < matchedParts ks.prev kd.parts) (hbr : j + 1 < kd.parts.length) :
    Covered ks.stored (kd.part hashPath ks.wsVer j) := by
  obtain ⟨q, hq⟩ := hinv.added_of_matched hashPath hj
  refine ⟨⟨_, q⟩, hinv.sound.added_stored _ _ hq, rfl, ?_⟩
  rw [KeyData.part_prefixBits_of_branch hashPath _ kd (by omega)]
  exact Fin.zero_le _

/-- The append of a key that lies under no stored SEMI or EXCLUSIVE part
starts from its common ancestor, or returns after a full match. -/
theorem DedupInv.append_of_some (hinv : DedupInv hashPath E ks)
    (hbranch : ∀ j, j + 1 < kd.parts.length →
      ∀ q, ks.added (hashPath (kd.parts.take (j + 1))) = some q → q = 0)
    {anc : Nat} (hanc : ks.ancestor hashPath kd = some anc)
    (hle : anc ≤ matchedParts ks.prev kd.parts) (hbr : ∀ j < anc, j + 1 < kd.parts.length) :
    DedupInv hashPath (E ++ expandKey hashPath ks.wsVer kd) (ks.append hashPath kd) := by
  have happ : ks.append hashPath kd =
      if (ks.appendParts hashPath kd (List.range' anc (kd.parts.length - anc))).2 then
        { (ks.appendParts hashPath kd (List.range' anc (kd.parts.length - anc))).1 with
          prev := kd.parts }
      else (ks.appendParts hashPath kd (List.range' anc (kd.parts.length - anc))).1 := by
    simp only [KeySetOut.append, hanc]
  obtain ⟨hs, hg, hcov, hadd⟩ := KeySetOut.appendParts_spec hashPath kd ks
    (List.range' anc (kd.parts.length - anc)) (hinv.sound.mono fun _ h => List.mem_append_left _ h)
    (fun j hj => by
      have := List.mem_range'_1.mp hj
      exact ⟨by omega, List.mem_append_right _ ((mem_expandKey hashPath).mpr ⟨j, by omega, rfl⟩)⟩)
    List.pairwise_lt_range' (fun j _ hbr' q hq => hbranch j hbr' q hq)
  -- the old parts stay covered; the key's own, by the previous key or the loop
  have hcovall : ∀ kp ∈ E ++ expandKey hashPath ks.wsVer kd,
      Covered (ks.appendParts hashPath kd (List.range' anc (kd.parts.length - anc))).1.stored kp := by
    intro kp hkp
    rcases List.mem_append.mp hkp with hkp | hkp
    · exact (hinv.covered kp hkp).mono hg.stored
    · obtain ⟨j, hj, rfl⟩ := (mem_expandKey hashPath).mp hkp
      by_cases hja : j < anc
      · exact (hinv.covered_of_matched hashPath (by omega) (hbr j hja)).mono hg.stored
      · exact hcov j (List.mem_range'_1.mpr ⟨by omega, by omega⟩)
  rw [happ]
  split_ifs with hok
  · -- the key becomes the previous key; each of its parts is added
    refine ⟨⟨hs.stored_mem, hs.added_stored⟩, hcovall, fun j hj => ?_⟩
    dsimp only at hj ⊢
    by_cases hja : j < anc
    · have hjm : j < matchedParts ks.prev kd.parts := by omega
      obtain ⟨q, hq⟩ := hinv.added_of_matched hashPath hjm
      exact hg.added _ (by simp [hq])
    · exact hadd hok j (List.mem_range'_1.mpr ⟨by omega, by omega⟩)
  · refine ⟨hs, hcovall, fun j hj => ?_⟩
    rw [hg.prev] at hj ⊢
    exact hg.added _ (hinv.prev_added j hj)

/-- **`append` keeps the invariant** for a key that has no branch part with
the hash of a stored SEMI or EXCLUSIVE part. -/
theorem DedupInv.append (hinv : DedupInv hashPath E ks)
    (hC : ∀ kp ∈ E, 0 < kp.prefixBits →
      ∀ j, j + 1 < kd.parts.length → hashPath (kd.parts.take (j + 1)) ≠ kp.hash) :
    DedupInv hashPath (E ++ expandKey hashPath ks.wsVer kd) (ks.append hashPath kd) := by
  obtain ⟨-, hle_kd, htake⟩ := matchedParts_spec ks.prev kd.parts
  -- a branch hash of the key holds a SHARED part at most
  have hbranch : ∀ j, j + 1 < kd.parts.length →
      ∀ q, ks.added (hashPath (kd.parts.take (j + 1))) = some q → q = 0 := by
    intro j hj q hq
    have hmem := hinv.sound.stored_mem _ (hinv.sound.added_stored _ _ hq)
    by_contra hq0
    exact hC _ hmem (by show 0 < q; omega) j hj rfl
  -- the prefix of the previous key's part at a common ancestor
  have hprefix : ∀ j < matchedParts ks.prev kd.parts, ∃ q,
      ks.added (hashPath (kd.parts.take (j + 1))) = some q ∧
        (j + 1 = matchedParts ks.prev kd.parts → ks.prevPrefix hashPath (j + 1) = q) := by
    intro j hj
    obtain ⟨q, hq⟩ := hinv.added_of_matched hashPath hj
    refine ⟨q, hq, fun he => ?_⟩
    unfold KeySetOut.prevPrefix
    rw [he, htake, ← he, hq]
    rfl
  rcases ks.ancestor_cases hashPath kd with ⟨hi0, hanc⟩ | ⟨hi0, hwhy, hanc⟩ |
      ⟨hi0, -, hfull, -, hanc⟩ | ⟨hi0, hnfull, hanc⟩
  · exact hinv.append_of_some hashPath hbranch hanc (by omega) (fun j hj => by omega)
  · -- an early return: the key matches the previous key in full, as strongly
    obtain ⟨q, hq, hP⟩ := hprefix (matchedParts ks.prev kd.parts - 1) (by omega)
    rw [Nat.sub_add_cancel hi0] at hq hP
    have hP := hP rfl
    have hfull : kd.parts.length = matchedParts ks.prev kd.parts := by
      by_contra hne
      have hq0 := hbranch (matchedParts ks.prev kd.parts - 1) (by omega) q
        (by rw [Nat.sub_add_cancel hi0]; exact hq)
      rw [hP, hq0] at hwhy
      rcases hwhy with h | h | ⟨h, -⟩
      · exact absurd h (Fin.not_lt.mpr (Fin.zero_le _))
      · exact absurd h.symm (Fin.ne_of_gt (prefixFor_pos (by decide) _))
      · exact hne h
    have hleaf : prefixFor kd.type ks.wsVer ≤ q := by
      rw [← hP]
      rcases hwhy with h | h | ⟨-, h⟩
      · exact Fin.le_of_lt h
      · rw [h]
        exact prefixFor_le_exclusive _ _
      · exact h ▸ Fin.le_refl _
    simp only [KeySetOut.append, hanc]
    refine ⟨hinv.sound.mono fun _ h => List.mem_append_left _ h, fun kp hkp => ?_,
      hinv.prev_added⟩
    rcases List.mem_append.mp hkp with hkp | hkp
    · exact hinv.covered kp hkp
    · obtain ⟨j, hj, rfl⟩ := (mem_expandKey hashPath).mp hkp
      by_cases hl : j + 1 = kd.parts.length
      · -- the leaf: stored there as strongly
        rw [KeyData.part_of_leaf hashPath _ kd hl]
        rw [← hfull, List.take_length] at hq
        exact ⟨⟨_, q⟩, hinv.sound.added_stored _ _ hq, rfl, hleaf⟩
      · exact hinv.covered_of_matched hashPath (by omega) (by omega)
  · exact hinv.append_of_some hashPath hbranch hanc (by omega) (fun j hj => by omega)
  · exact hinv.append_of_some hashPath hbranch hanc le_rfl (fun j hj => by omega)

end Step

/-- **The invariant over a run of appends** whose keys lie under no earlier
SEMI or EXCLUSIVE key. -/
theorem DedupInv.foldl : ∀ (pre kds : List (KeyData V)) (ks : KeySetOut V K),
    DedupInv hashPath (pre.flatMap (expandKey hashPath ks.wsVer)) ks →
    (pre ++ kds).Pairwise (NoStrongAncestor hashPath) →
    DedupInv hashPath ((pre ++ kds).flatMap (expandKey hashPath ks.wsVer))
      (kds.foldl (KeySetOut.append hashPath) ks)
  | pre, [], ks, hinv, _ => by simpa using hinv
  | pre, kd :: kds, ks, hinv, hC => by
    -- a stored non-SHARED part is the leaf of an earlier SEMI or EXCLUSIVE key
    have hC' : ∀ kp ∈ pre.flatMap (expandKey hashPath ks.wsVer), 0 < kp.prefixBits →
        ∀ j, j + 1 < kd.parts.length → hashPath (kd.parts.take (j + 1)) ≠ kp.hash := by
      intro kp hkp hpos j hj
      obtain ⟨kd', hkd', hkp'⟩ := List.mem_flatMap.mp hkp
      obtain ⟨ht, hne, hh⟩ := leaf_of_mem_expandKey hashPath hkp' hpos
      have hR := (List.pairwise_append.mp hC).2.2 kd' hkd' kd List.mem_cons_self
      rw [hh]
      exact hR ht hne j (by omega)
    have hver := KeySetOut.append_wsVer hashPath ks kd
    have hstep := hinv.append hashPath hC'
    rw [← List.flatMap_singleton (expandKey hashPath ks.wsVer) kd, ← List.flatMap_append,
      ← hver] at hstep
    have := DedupInv.foldl (pre ++ [kd]) kds (ks.append hashPath kd) hstep (by simpa using hC)
    rw [hver] at this
    simpa using this

/-! ## §5. Deduplication and certification. -/

/-- **Deduplication preserves certification under no strong ancestor.**  For
keys appended to a fresh `KeySetOut`, none of them lying under an earlier
SEMI or EXCLUSIVE key, `do_test_v3to4` on the key set `KeySetOut` stores gives
the verdict it gives on the undeduplicated key set, against any index, and,
when it passes, the same `depends_seqno`. -/
theorem keyset_dedup_preserves_certification (wsVer : Nat) (kds : List (KeyData V))
    (hC : kds.Pairwise (NoStrongAncestor hashPath)) (c : Certification S K) (trx : TrxHandle S K)
    (sk : Bool) :
    let D := (kds.foldl (KeySetOut.append hashPath) (KeySetOut.init wsVer)).stored
    let E := kds.flatMap (expandKey hashPath wsVer)
    (doTestV3to4 c { trx with keys := D } sk).1 = (doTestV3to4 c { trx with keys := E } sk).1 ∧
      ((doTestV3to4 c { trx with keys := D } sk).1 = .testOk →
        (doTestV3to4 c { trx with keys := D } sk).2.1.dependsSeqno =
          (doTestV3to4 c { trx with keys := E } sk).2.1.dependsSeqno) := by
  intro D E
  have hinv := DedupInv.foldl hashPath [] kds (KeySetOut.init wsVer) (dedupInv_init hashPath wsVer)
    (by simpa using hC)
  rw [List.nil_append] at hinv
  exact doTestV3to4_of_covers hinv.sound.stored_mem hinv.covered c trx sk

/-- A remote trx at seqno `5` that wrote key `1:2` exclusively. -/
def exampleRemoteWriter : TrxHandle Nat (List Nat) :=
  { globalSeqno := 5, lastSeenSeqno := 0, dependsSeqno := 0, sourceId := 1, trxId := 5,
    isToi := false, paUnsafe := false, preordered := false, paRange := 0, version := 4,
    keys := [⟨[1], 0⟩, ⟨[1, 2], 2⟩] }

/-- The index once `exampleRemoteWriter` is certified, the hash of a path
being the path itself. -/
def exampleWriterIndex : Certification Nat (List Nat) :=
  { version := 4, version_ok := Certification.version_four_ok, trxMap := [exampleRemoteWriter],
    certIndexNg := fun h =>
      if h = [1, 2] then some (KeyEntryNG.empty.ref .exclusive exampleRemoteWriter)
      else if h = [1] then some (KeyEntryNG.empty.ref .shared exampleRemoteWriter)
      else none,
    depsSet := [0], initialPosition := 0, position := 5, safeToDiscardSeqno := 0,
    lastPaUnsafe := 0, lastPreorderedSeqno := 0, lastPreorderedId := 0,
    maxLength := 16384, maxLengthCheck := 16, optimisticPa := true }

/-- A local trx at seqno `6` that has seen seqno `3` only. -/
def exampleLocalTrx : TrxHandle Nat (List Nat) :=
  { exampleRemoteWriter with
    globalSeqno := 6, lastSeenSeqno := 3, sourceId := 0, trxId := 6, keys := [] }

/-- Keys `2:3` SHARED, then EXCLUSIVE, then `2` SEMI: two leaves stored again
stronger. -/
def exampleStrengthenedKeys : List (KeyData Nat) :=
  [⟨[2, 3], .shared⟩, ⟨[2, 3], .exclusive⟩, ⟨[2], .semi⟩]

theorem keyset_dedup_preserves_certification_strengthened_leaf :
    exampleStrengthenedKeys.Pairwise (NoStrongAncestor id) ∧
      (doTestV3to4 exampleWriterIndex
          { exampleLocalTrx with keys := (exampleStrengthenedKeys.foldl (KeySetOut.append id)
            (KeySetOut.init 4)).stored } false).1 =
        (doTestV3to4 exampleWriterIndex
          { exampleLocalTrx with keys := exampleStrengthenedKeys.flatMap (expandKey id 4) }
          false).1 := by
  have hC : exampleStrengthenedKeys.Pairwise (NoStrongAncestor id) := by decide
  exact ⟨hC, (keyset_dedup_preserves_certification id 4 exampleStrengthenedKeys hC
    exampleWriterIndex exampleLocalTrx false).1⟩

/-- Key `1` SEMI, then `1:2` SHARED, in version 4. -/
def exampleSemiAncestorKeys : List (KeyData Nat) :=
  [⟨[1], .semi⟩, ⟨[1, 2], .shared⟩]

/-- Under a SEMI ancestor the SHARED leaf `1:2` is dropped, and with it the
conflict with the remote exclusive writer of `1:2`: the deduplicated key set
passes where the undeduplicated one fails. -/
theorem keyset_dedup_hides_descendant_conflict :
    (exampleSemiAncestorKeys.foldl (KeySetOut.append id) (KeySetOut.init 4)).stored =
        [⟨[1], 1⟩] ∧
      (doTestV3to4 exampleWriterIndex
          { exampleLocalTrx with keys := (exampleSemiAncestorKeys.foldl (KeySetOut.append id)
            (KeySetOut.init 4)).stored } false).1 = .testOk ∧
      (doTestV3to4 exampleWriterIndex
          { exampleLocalTrx with keys := exampleSemiAncestorKeys.flatMap (expandKey id 4) }
          false).1 = .testFailed := by
  decide

end Galera.KeySet
