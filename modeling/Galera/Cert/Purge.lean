/-
  Galera.Cert.Purge
  ─────────────────
  **A PURGED INDEX CERTIFIES LIKE THE FULL ONE.**

  Purging drops a run at the old end of `trx_map_` and, with it, every
  reference to the dropped trxs.  Compare a purged object with the one the
  same appends build without purging: its map is a suffix of the full map
  (up to the `depends_seqno` of each trx, which the index never reads,
  `TrxHandle.view`), so each of its references is the full one's or is
  missing where the full one is a dropped trx (`RefMatch`).

    * A dropped trx is no conflict for a trx that has seen it, so the
      verdicts agree (`tableConflict_of_refMatch`).
    * A dropped trx is older than the oldest trx left, from which `do_test`
      starts the parent seqno, so the purged `depends_seqno` is never below
      the full one (`initialDependsSeqno_le_of_head`).

  Main result: `Twin.doTest`.
-/
import Mathlib
import Galera.Cert.Invariant

namespace Galera.Cert

open LastWriter

set_option linter.unusedSectionVars false

variable {S K : Type} [DecidableEq S] [DecidableEq K]

/-! ## §1. What the index reads of a trx. -/

/-- A trx of `trx_map_` as the index sees it: all but its `depends_seqno`,
and whether it passed. -/
def TrxHandle.view (t : TrxHandle S K) : TrxHandle S K × Bool :=
  (t.setDependsSeqno 0, decide (-1 < t.dependsSeqno))

/-- The view keeps the fields the conflict table reads. -/
theorem TrxHandle.view_fields {t u : TrxHandle S K} (h : t.view = u.view) :
    t.globalSeqno = u.globalSeqno ∧ t.isToi = u.isToi ∧ t.sourceId = u.sourceId := by
  have h1 := congrArg (fun v => v.1.globalSeqno) h
  have h2 := congrArg (fun v => v.1.isToi) h
  have h3 := congrArg (fun v => v.1.sourceId) h
  simp only [TrxHandle.view, TrxHandle.setDependsSeqno_globalSeqno,
    TrxHandle.setDependsSeqno_isToi, TrxHandle.setDependsSeqno_sourceId] at h1 h2 h3
  exact ⟨h1, h2, h3⟩

/-- The labels of a trx, read off its view. -/
def viewLabels (v : TrxHandle S K × Bool) : List (K × KeyType) :=
  if v.2 then v.1.keys.map (keyLabel v.1) else []

@[simp] theorem keyLabel_setDependsSeqno (t : TrxHandle S K) (d : Int) :
    keyLabel (t.setDependsSeqno d) = keyLabel t := rfl

theorem certLabels_eq_viewLabels (t : TrxHandle S K) : certLabels t = viewLabels t.view := by
  simp [certLabels, viewLabels, TrxHandle.view]

/-- Two maps with the same views have latest writers with the same views. -/
theorem latest_certHistory_view {m₁ m₂ : List (TrxHandle S K)}
    (h : m₁.map TrxHandle.view = m₂.map TrxHandle.view) (l : K × KeyType) :
    (latest (certHistory m₁) l).map TrxHandle.view =
      (latest (certHistory m₂) l).map TrxHandle.view := by
  have hv : ∀ m : List (TrxHandle S K), (certHistory m).map (Prod.map TrxHandle.view id) =
      (m.map TrxHandle.view).map fun v => (v, viewLabels v) := by
    intro m
    simp [certHistory, certLabels_eq_viewLabels]
  rw [← latest_map_writer, ← latest_map_writer, hv, hv, h]

/-! ## §2. References of a purged index. -/

/-- The reference `a` of the purged index against the reference `b` of the
full one: the same trx as far as the index can tell, or missing where `b`
is a trx that `Old` marks as dropped. -/
def RefMatch (Old : TrxHandle S K → Prop) (a b : Option (TrxHandle S K)) : Prop :=
  a.map TrxHandle.view = b.map TrxHandle.view ∨ (a = none ∧ ∃ R, b = some R ∧ Old R)

/-- A property of references that the view decides and that no dropped trx
has holds of a purged reference exactly when it holds of the full one. -/
theorem RefMatch.exists_iff {Old : TrxHandle S K → Prop} {a b : Option (TrxHandle S K)}
    (hm : RefMatch Old a b) (Q : TrxHandle S K → Prop)
    (hQ : ∀ R R', R.view = R'.view → (Q R ↔ Q R')) (hold : ∀ R, Old R → ¬ Q R) :
    (∃ R, a = some R ∧ Q R) ↔ (∃ R, b = some R ∧ Q R) := by
  rcases hm with h | ⟨rfl, R, rfl, hR⟩
  · cases a with
    | none =>
      cases b with
      | none => rfl
      | some R => simp at h
    | some R =>
      cases b with
      | none => simp at h
      | some R' =>
        simp only [Option.map_some, Option.some_inj] at h
        simp only [Option.some_inj, exists_eq_left']
        exact hQ R R' h
  · simp only [reduceCtorEq, false_and, exists_false, Option.some_inj, exists_eq_left',
      false_iff]
    exact hold R hR

/-- **The table sees no difference** between a purged entry and the full
one, for a trx that has seen every dropped trx. -/
theorem tableConflict_of_refMatch {Old : TrxHandle S K → Prop} {eP eU : KeyEntryNG S K}
    (hm : ∀ p, RefMatch Old (eP.refs p) (eU.refs p)) (trx : TrxHandle S K)
    (hold : ∀ R, Old R → R.globalSeqno ≤ trx.lastSeenSeqno) (kt : KeyType) :
    TableConflict eP kt trx ↔ TableConflict eU kt trx := by
  have hex := (hm .exclusive).exists_iff
    (fun R => trx.lastSeenSeqno < R.globalSeqno ∧ (R.isToi = true ∨ R.sourceId ≠ trx.sourceId))
    (fun R R' h => by obtain ⟨h1, h2, h3⟩ := TrxHandle.view_fields h; rw [h1, h2, h3])
    (fun R hR hQ => by have := hold R hR; omega)
  have hsemi := (hm .semi).exists_iff
    (fun R => trx.lastSeenSeqno < R.globalSeqno ∧ R.sourceId ≠ trx.sourceId)
    (fun R R' h => by obtain ⟨h1, -, h3⟩ := TrxHandle.view_fields h; rw [h1, h3])
    (fun R hR hQ => by have := hold R hR; omega)
  unfold TableConflict
  rw [hex, hsemi]

/-- Each dependency of the full entry is one of the purged entry, or the
seqno of a dropped trx. -/
theorem tableDeps_of_refMatch {Old : TrxHandle S K → Prop} {eP eU : KeyEntryNG S K}
    (hm : ∀ p, RefMatch Old (eP.refs p) (eU.refs p)) (kt : KeyType) :
    ∀ x ∈ tableDeps eU kt, x ∈ tableDeps eP kt ∨ ∃ R, Old R ∧ R.globalSeqno = x := by
  intro x hx
  obtain ⟨p, R, hp, hR, rfl⟩ := mem_tableDeps.mp hx
  rcases hm p with h | ⟨-, R', hR', hold⟩
  · -- the purged entry holds a trx with the same view
    rw [hR] at h
    cases hP : eP.refs p with
    | none => simp [hP] at h
    | some R' =>
      rw [hP, Option.map_some, Option.map_some, Option.some_inj] at h
      exact Or.inl (mem_tableDeps.mpr ⟨p, R', hp, hP, (TrxHandle.view_fields h).1⟩)
  · rw [hR, Option.some_inj] at hR'
    exact Or.inr ⟨R, hR' ▸ hold, rfl⟩

/-- The entry of the last-writer index at `h`, whether it is kept or not. -/
def latestEntry (H : List (TrxHandle S K × List (K × KeyType))) (h : K) : KeyEntryNG S K :=
  ⟨fun p => latest H (h, p)⟩

/-- A key conflicts with the index of a history as with its latest writers. -/
theorem keyConflict_indexOf (H : List (TrxHandle S K × List (K × KeyType)))
    (trx : TrxHandle S K) (kp : KeyPart K) :
    KeyConflict (indexOf H) trx kp ↔
      TableConflict (latestEntry H kp.hash) (kp.wsrepType trx.version) trx := by
  constructor
  · rintro ⟨e, he, hc⟩
    have := (indexOfRefs_eq_some he).2
    have he' : e = latestEntry H kp.hash := KeyEntryNG.refs_ext fun p => by rw [this]; rfl
    exact he' ▸ hc
  · intro hc
    -- a conflict needs a reference, so the entry is kept
    have hset : ∃ p R, latest H (kp.hash, p) = some R := by
      rcases hc with ⟨R, hR, -⟩ | ⟨-, R, hR, -⟩
      exacts [⟨_, R, hR⟩, ⟨_, R, hR⟩]
    obtain ⟨p, R, hR⟩ := hset
    refine ⟨latestEntry H kp.hash, ?_, hc⟩
    have hne : (fun h p => latest H (h, p)) kp.hash p ≠ none := by simp [hR]
    exact indexOfRefs_of_ne_none hne

/-- A key depends on the index of a history as on its latest writers. -/
theorem keyDeps_indexOf (H : List (TrxHandle S K × List (K × KeyType)))
    (trx : TrxHandle S K) (kp : KeyPart K) :
    keyDeps (indexOf H) trx kp = tableDeps (latestEntry H kp.hash) (kp.wsrepType trx.version) := by
  unfold keyDeps
  cases hi : indexOf H kp.hash with
  | some e =>
    have := (indexOfRefs_eq_some hi).2
    have he : e = latestEntry H kp.hash := KeyEntryNG.refs_ext fun p => by rw [this]; rfl
    rw [he]
  | none =>
    -- no entry: every latest writer of the key is missing
    have hn : ∀ p, latest H (kp.hash, p) = none := by
      intro p
      have := getD_indexOf_refs H kp.hash p
      rw [hi] at this
      exact this.symm
    simp [tableDeps, latestEntry, hn]

/-- The latest writers of a map's suffix, against those of the whole map:
they agree, or the suffix has none where the whole map's is in the dropped
prefix. -/
theorem refMatch_latest {mP pre post : List (TrxHandle S K)}
    (hview : mP.map TrxHandle.view = post.map TrxHandle.view) (l : K × KeyType) :
    RefMatch (· ∈ pre) (latest (certHistory mP) l) (latest (certHistory (pre ++ post)) l) := by
  have hv := latest_certHistory_view hview l
  rw [certHistory_append, latest_append]
  cases hpost : latest (certHistory post) l with
  | some R =>
    left
    rw [hv, hpost]
    rfl
  | none =>
    rw [hpost, Option.map_none, Option.map_eq_none_iff] at hv
    rw [hv, Option.none_or]
    cases hpre : latest (certHistory pre) l with
    | none => exact Or.inl rfl
    | some R => exact Or.inr ⟨rfl, R, rfl, (mem_of_latest_certHistory hpre).1⟩

/-! ## §3. One test against a purged object. -/

/-- **`do_test_v3to4` against a purged index.**  With the purged map a
suffix of the full one up to views, and the trx having seen every dropped
trx, the verdicts agree; and the purged `depends_seqno` is not below the
full one as long as the purged test starts no lower and above every
dropped trx. -/
theorem doTestV3to4_purged {cP cU : Certification S K} {pre post : List (TrxHandle S K)}
    (hP : cP.certIndexNg = indexOf (certHistory cP.trxMap))
    (hU : cU.certIndexNg = indexOf (certHistory (pre ++ post)))
    (hview : cP.trxMap.map TrxHandle.view = post.map TrxHandle.view)
    (hpa : cP.lastPaUnsafe = cU.lastPaUnsafe) (trx : TrxHandle S K) (sk : Bool)
    (hold : ∀ R ∈ pre, R.globalSeqno ≤ trx.lastSeenSeqno) (dP dU : Int) :
    (doTestV3to4 cP (trx.setDependsSeqno dP) sk).1 =
        (doTestV3to4 cU (trx.setDependsSeqno dU) sk).1 ∧
      ((doTestV3to4 cP (trx.setDependsSeqno dP) sk).1 = .testOk → dU ≤ dP →
        (∀ R ∈ pre, R.globalSeqno ≤ dP) →
        (doTestV3to4 cU (trx.setDependsSeqno dU) sk).2.1.dependsSeqno ≤
          (doTestV3to4 cP (trx.setDependsSeqno dP) sk).2.1.dependsSeqno) := by
  have hm : ∀ h p, RefMatch (· ∈ pre) ((latestEntry (certHistory cP.trxMap) h).refs p)
      ((latestEntry (certHistory (pre ++ post)) h).refs p) :=
    fun h p => refMatch_latest hview (h, p)
  cases htoi : trx.isToi
  · -- the table decides both verdicts, on entries that match
    have hconf : ∀ kp ∈ trx.keys, KeyConflict cP.certIndexNg trx kp ↔
        KeyConflict cU.certIndexNg trx kp := by
      intro kp _
      rw [hP, hU, keyConflict_indexOf, keyConflict_indexOf]
      exact tableConflict_of_refMatch (hm kp.hash) trx hold _
    have hfail : (doTestV3to4 cP (trx.setDependsSeqno dP) sk).1 = .testFailed ↔
        (doTestV3to4 cU (trx.setDependsSeqno dU) sk).1 = .testFailed := by
      rw [doTestV3to4_failed_iff _ _ _ (by simpa using htoi),
        doTestV3to4_failed_iff _ _ _ (by simpa using htoi)]
      simp only [TrxHandle.setDependsSeqno_keys, keyConflict_setDependsSeqno]
      exact exists_congr fun kp => and_congr_right fun hkp => hconf kp hkp
    have heq := TestResult.eq_of_failed_iff hfail
    refine ⟨heq, fun hok hd hpre => ?_⟩
    have hokU := heq ▸ hok
    rw [doTestV3to4_depends _ _ _ (by simpa using htoi) hok,
      doTestV3to4_depends _ _ _ (by simpa using htoi) hokU, foldl_max_le]
    simp only [TrxHandle.setDependsSeqno_keys, TrxHandle.setDependsSeqno_dependsSeqno,
      keyDeps_setDependsSeqno, hpa]
    have hseed := le_foldl_max (trx.keys.flatMap (keyDeps cP.certIndexNg trx)) (max dP cU.lastPaUnsafe)
    refine ⟨by omega, fun x hx => ?_⟩
    -- a dependency of the full index is one of the purged index, or a dropped seqno
    obtain ⟨kp, hkp, hx⟩ := List.mem_flatMap.mp hx
    rw [hU, keyDeps_indexOf] at hx
    rcases tableDeps_of_refMatch (hm kp.hash) _ x hx with hx' | ⟨R, hR, rfl⟩
    · have hmem : x ∈ trx.keys.flatMap (keyDeps cP.certIndexNg trx) := by
        rw [hP]
        exact List.mem_flatMap.mpr ⟨kp, hkp, by rw [keyDeps_indexOf]; exact hx'⟩
      exact ((foldl_max_le _ _ _).mp le_rfl).2 x hmem
    · have := hpre R hR
      omega
  · -- a TOI trx passes both, from its initial seqno and `last_pa_unsafe_`
    obtain ⟨hP₁, hP₂⟩ := doTestV3to4_of_toi cP (trx.setDependsSeqno dP) sk (by simpa using htoi)
    obtain ⟨hU₁, hU₂⟩ := doTestV3to4_of_toi cU (trx.setDependsSeqno dU) sk (by simpa using htoi)
    refine ⟨hP₁.trans hU₁.symm, fun _ hd _ => ?_⟩
    rw [hP₂, hU₂, hpa]
    simp only [TrxHandle.setDependsSeqno_dependsSeqno]
    omega

/-- The oldest trx of the map, less one, bounds the parent seqno of
`do_test` from below. -/
theorem head_le_initialDependsSeqno {c : Certification S K} {trx f : TrxHandle S K}
    (hf : c.trxMap.head? = some f) (hfg : f.globalSeqno ≤ trx.globalSeqno) :
    f.globalSeqno - 1 ≤ initialDependsSeqno c trx := by
  unfold initialDependsSeqno
  cases hm : c.trxMap with
  | nil => simp [hm] at hf
  | cons first rest =>
    rw [hm, List.head?_cons, Option.some_inj] at hf
    subst hf
    dsimp only
    split_ifs with h₁ h₂
    · omega
    · simp only [Bool.and_eq_true, decide_eq_true_eq] at h₂
      omega
    · omega

/-- A map that starts no later gives a parent seqno no larger. -/
theorem initialDependsSeqno_le_of_head {c₁ c₂ : Certification S K} {trx : TrxHandle S K}
    (hopt : c₁.optimisticPa = c₂.optimisticPa) (hls : trx.lastSeenSeqno < trx.globalSeqno)
    (hmap : ∀ t ∈ c₁.trxMap, t.globalSeqno < trx.globalSeqno)
    (hhead : ∀ f₂ ∈ c₂.trxMap.head?, ∃ f₁ ∈ c₁.trxMap.head?, f₁.globalSeqno ≤ f₂.globalSeqno) :
    initialDependsSeqno c₁ trx ≤ initialDependsSeqno c₂ trx := by
  cases hm₂ : c₂.trxMap with
  | nil =>
    -- nothing left: the parent seqno is the previous seqno, above any other
    have := initialDependsSeqno_lt c₁ trx hls hmap
    have h₂ : initialDependsSeqno c₂ trx = trx.globalSeqno - 1 := by
      unfold initialDependsSeqno
      rw [hm₂]
    omega
  | cons f₂ rest₂ =>
    obtain ⟨f₁, hf₁, hle⟩ := hhead f₂ (by simp [hm₂])
    cases hm₁ : c₁.trxMap with
    | nil => simp [hm₁] at hf₁
    | cons f₁' rest₁ =>
      rw [hm₁, List.head?_cons, Option.mem_def, Option.some_inj] at hf₁
      subst hf₁
      unfold initialDependsSeqno
      rw [hm₁, hm₂, hopt]
      dsimp only
      -- the branches of the two parent seqnos, on the same flags
      cases c₂.optimisticPa <;> cases trx.isToi || trx.paUnsafe <;>
        simp only [Bool.not_false, Bool.not_true, Bool.true_and, Bool.false_and,
          decide_eq_true_eq, if_true, if_false, Bool.false_eq_true]
      · -- without optimistic PA both may start from the last seen seqno
        split_ifs <;> omega
      all_goals omega

/-- Every field of the object but `trx_map_` and the index. -/
def Certification.rest (c : Certification S K) : Certification S K :=
  { c with trxMap := [], certIndexNg := fun _ => none }

/-- A purged object against the object the same calls build without
purging: both invariant, alike but for map and index, and the purged map
the full one up to views, past a prefix of trxs each under a purge bound of
`bounds`. -/
structure Twin (cP cU : Certification S K) (bounds : List Int) : Prop where
  invP : CertInv cP
  invU : CertInv cU
  rest : cP.rest = cU.rest
  split : ∃ pre post, cU.trxMap = pre ++ post ∧
    cP.trxMap.map TrxHandle.view = post.map TrxHandle.view ∧
    ∀ R ∈ pre, ∃ b ∈ bounds, R.globalSeqno ≤ b

/-- The fields `do_test` reads besides the map and the index agree. -/
theorem Twin.fields {cP cU : Certification S K} {bounds : List Int} (hw : Twin cP cU bounds) :
    cP.version = cU.version ∧ cP.initialPosition = cU.initialPosition ∧
      cP.maxLength = cU.maxLength ∧ cP.lastPaUnsafe = cU.lastPaUnsafe ∧
      cP.optimisticPa = cU.optimisticPa ∧ cP.position = cU.position := by
  have h := hw.rest
  refine ⟨?_, ?_, ?_, ?_, ?_, ?_⟩
  · have := congrArg Certification.version h; exact this
  · have := congrArg Certification.initialPosition h; exact this
  · have := congrArg Certification.maxLength h; exact this
  · have := congrArg Certification.lastPaUnsafe h; exact this
  · have := congrArg Certification.optimisticPa h; exact this
  · have := congrArg Certification.position h; exact this

/-- **`do_test` against a purged object**, for a trx that has seen every
purge bound: the same verdict, and, for a trx past `position_` that saw
only earlier seqnos, a `depends_seqno` not below the full object's. -/
theorem Twin.doTest {cP cU : Certification S K} {bounds : List Int} (hw : Twin cP cU bounds)
    (trx : TrxHandle S K) (sk : Bool) (hT : ∀ b ∈ bounds, b ≤ trx.lastSeenSeqno) :
    (doTest cP trx sk).1 = (doTest cU trx sk).1 ∧
      ((doTest cP trx sk).1 = .testOk → cU.position < trx.globalSeqno →
        trx.lastSeenSeqno < trx.globalSeqno →
        (doTest cU trx sk).2.1.dependsSeqno ≤ (doTest cP trx sk).2.1.dependsSeqno) := by
  obtain ⟨pre, post, hsplit, hview, hpre⟩ := hw.split
  have hold : ∀ R ∈ pre, R.globalSeqno ≤ trx.lastSeenSeqno := fun R hR => by
    obtain ⟨b, hb, hRb⟩ := hpre R hR
    exact le_trans hRb (hT b hb)
  obtain ⟨hver, hinit, hmax, hpa, hopt, hposn⟩ := hw.fields
  have hU := hw.invU.index
  rw [hsplit] at hU
  have hcore := doTestV3to4_purged hw.invP.index hU hview hpa trx sk hold
    (initialDependsSeqno cP trx) (initialDependsSeqno cU trx)
  unfold Galera.Cert.doTest
  rw [hver, hinit, hmax]
  split_ifs
  · exact ⟨rfl, fun h => by simp at h⟩
  · exact ⟨rfl, fun h => by simp at h⟩
  · refine ⟨hcore.1, fun hok hpos hls => hcore.2 hok ?_ ?_⟩
    · -- the purged map starts no earlier than the full one
      refine initialDependsSeqno_le_of_head hopt.symm hls
        (fun t ht => lt_of_le_of_lt (hw.invU.below t ht) hpos) fun f₂ hf₂ => ?_
      obtain ⟨u, hu, hview₂⟩ : ∃ u ∈ post.head?, u.view = f₂.view := by
        have := congrArg List.head? hview
        rw [List.head?_map, List.head?_map, Option.mem_def.mp hf₂] at this
        cases hp : post.head? with
        | none => simp [hp] at this
        | some u =>
          rw [hp, Option.map_some, Option.map_some, Option.some_inj] at this
          exact ⟨u, rfl, this.symm⟩
      rw [hsplit, List.head?_append]
      cases hpre₀ : pre.head? with
      | none => exact ⟨u, by simpa using hu, le_of_eq (TrxHandle.view_fields hview₂).1⟩
      | some r =>
        -- the full map starts in the dropped prefix, before the purged one
        refine ⟨r, by simp, ?_⟩
        have hsorted := hw.invU.sorted
        rw [hsplit, List.pairwise_append] at hsorted
        have := hsorted.2.2 r (List.mem_of_mem_head? hpre₀) u (List.mem_of_mem_head? hu)
        rw [← (TrxHandle.view_fields hview₂).1]
        exact le_of_lt this
    · -- every dropped trx is older than the purged test's parent seqno
      intro R hR
      have hRpos : R.globalSeqno < trx.globalSeqno :=
        lt_of_le_of_lt (hw.invU.below R (hsplit ▸ List.mem_append_left _ hR)) hpos
      cases hf : cP.trxMap.head? with
      | none =>
        have hnil : cP.trxMap = [] := List.head?_eq_none_iff.mp hf
        unfold initialDependsSeqno
        rw [hnil]
        dsimp only
        omega
      | some f =>
        obtain ⟨u, hu, hview₂⟩ : ∃ u ∈ post, u.view = f.view := by
          have hf' := List.mem_of_mem_head? hf
          have : f.view ∈ post.map TrxHandle.view := hview ▸ List.mem_map_of_mem hf'
          obtain ⟨u, hu, h⟩ := List.mem_map.mp this
          exact ⟨u, hu, h⟩
        have hsorted := hw.invU.sorted
        rw [hsplit, List.pairwise_append] at hsorted
        have hRu := hsorted.2.2 R hR u hu
        have hfg : f.globalSeqno ≤ trx.globalSeqno :=
          le_of_lt (lt_of_le_of_lt (hw.invP.below f (List.mem_of_mem_head? hf)) (hposn ▸ hpos))
        have := head_le_initialDependsSeqno hf hfg
        rw [(TrxHandle.view_fields hview₂).1] at hRu
        omega

end Galera.Cert
