/-
  Galera.Cert.Invariant
  ─────────────────────
  **THE INDEX IS THE LAST-WRITER MAP OF `trx_map_`.**

  Read `trx_map_` as a history of writers, oldest first: a trx that passed
  certification (`depends_seqno > -1`) writes the labels (key hash, key
  type) of its key set, a trx that failed writes nothing (`certHistory`).
  The invariant `CertInv` says that `cert_index_ng_` is `indexOf` that
  history: the reference of type `p` at key `h` is the latest writer of
  `(h, p)`, and an entry exists exactly while one of its references is set.

    * purging the oldest trx is the library's `latest_cons_drop_eq`, one
      key at a time (`purgeKeys_indexOf`), and finds every key;
    * appending is `latest_append_single`: a passing trx becomes the
      latest writer of its labels (`indexOf_append_refKeys`), a failing one
      restores the index (`test_of_failed`).

  Every entry of a reachable index holds a reference, so a failed
  `do_test_v3to4` restores the whole object there.

  Main results: `CertInv.step`, `cert_index_is_latest_writer`,
  `do_test_v3to4_failed_restores`.
-/
import Mathlib
import Galera.Lib.LastWriter
import Galera.Cert.Effect
import Galera.Cert.Append

namespace Galera.Cert

open LastWriter

set_option linter.unusedSectionVars false

variable {S K : Type} [DecidableEq S] [DecidableEq K]

/-! ## §1. The index of a history. -/

/-- The label a key part of `trx` writes: its hash and its type. -/
def keyLabel (trx : TrxHandle S K) (kp : KeyPart K) : K × KeyType :=
  (kp.hash, kp.wsrepType trx.version)

/-- The labels a trx of `trx_map_` holds in the index: those of its keys if
it passed, what `PurgeAndDiscard` reads off `depends_seqno > -1`. -/
def certLabels (trx : TrxHandle S K) : List (K × KeyType) :=
  if -1 < trx.dependsSeqno then trx.keys.map (keyLabel trx) else []

/-- `trx_map_` as a history of writers, oldest first. -/
def certHistory (m : List (TrxHandle S K)) : List (TrxHandle S K × List (K × KeyType)) :=
  m.map fun t => (t, certLabels t)

/-- The index with references `refs h` at key `h`, keeping an entry only
while one of its references is set. -/
def indexOfRefs (refs : K → KeyType → Option (TrxHandle S K)) : CertIndexNG S K :=
  fun h => if (⟨refs h⟩ : KeyEntryNG S K).referenced then some ⟨refs h⟩ else none

/-- The index of a history: each reference is the latest writer of its
label. -/
def indexOf (H : List (TrxHandle S K × List (K × KeyType))) : CertIndexNG S K :=
  indexOfRefs fun h p => latest H (h, p)

/-- A trx `t` of `trx_map_` passed and has a key at `h` of type `p`. -/
def WritesKey (t : TrxHandle S K) (h : K) (p : KeyType) : Prop :=
  -1 < t.dependsSeqno ∧ ∃ kp ∈ t.keys, kp.hash = h ∧ kp.wsrepType t.version = p

@[simp] theorem certHistory_append (m₁ m₂ : List (TrxHandle S K)) :
    certHistory (m₁ ++ m₂) = certHistory m₁ ++ certHistory m₂ := by
  simp [certHistory]

theorem mem_certLabels {t : TrxHandle S K} {h : K} {p : KeyType} :
    (h, p) ∈ certLabels t ↔ WritesKey t h p := by
  unfold certLabels WritesKey
  split_ifs with hd
  · simp [keyLabel, hd]
  · simp [hd]

/-- The latest writer of a label in `trx_map_`'s history is none exactly
when no trx of the map writes it. -/
theorem latest_certHistory_eq_none {m : List (TrxHandle S K)} {h : K} {p : KeyType} :
    latest (certHistory m) (h, p) = none ↔ ¬ ∃ t ∈ m, WritesKey t h p := by
  simp [latest_eq_none_iff, certHistory, mem_certLabels]

theorem indexOfRefs_eq_some {refs : K → KeyType → Option (TrxHandle S K)} {h : K}
    {e : KeyEntryNG S K} (he : indexOfRefs refs h = some e) :
    e.referenced = true ∧ e.refs = refs h := by
  unfold indexOfRefs at he
  split_ifs at he with hr
  cases he
  exact ⟨hr, rfl⟩

/-- An entry that some reference keeps. -/
theorem indexOfRefs_of_ne_none {refs : K → KeyType → Option (TrxHandle S K)} {h : K}
    {p : KeyType} (hp : refs h p ≠ none) : indexOfRefs refs h = some ⟨refs h⟩ := by
  have hr : (⟨refs h⟩ : KeyEntryNG S K).referenced = true :=
    (KeyEntryNG.referenced_iff _).mpr ⟨p, hp⟩
  simp [indexOfRefs, hr]

/-- Whether there is an entry or not, its references are the latest
writers. -/
theorem getD_indexOf_refs (H : List (TrxHandle S K × List (K × KeyType))) (h : K)
    (p : KeyType) : ((indexOf H h).getD .empty).refs p = latest H (h, p) := by
  unfold indexOf indexOfRefs
  split_ifs with hr
  · rfl
  · -- no entry: no reference of the key is set
    by_contra hne
    exact hr ((KeyEntryNG.referenced_iff _).mpr ⟨p, Ne.symm hne⟩)

/-- Every entry of the index of a history holds a reference. -/
theorem indexOf_referenced {H : List (TrxHandle S K × List (K × KeyType))} {h : K}
    {e : KeyEntryNG S K} (he : indexOf H h = some e) : e.referenced = true :=
  (indexOfRefs_eq_some he).1

/-- A writer with no labels is invisible to the index. -/
theorem indexOf_cons_nil (t : TrxHandle S K) (H : List (TrxHandle S K × List (K × KeyType))) :
    indexOf ((t, []) :: H) = indexOf H := by
  simp only [indexOf, latest_cons_nil]

theorem indexOf_append_nil (H : List (TrxHandle S K × List (K × KeyType))) (t : TrxHandle S K) :
    indexOf (H ++ [(t, [])]) = indexOf H := by
  simp only [indexOf, latest_append_single, List.not_mem_nil, if_false]

/-! ## §2. Purging. -/

/-- The references `refs` with the one of type `p₀` at `h₀` cleared where
it is `trx`: what `unref` does. -/
def clearRef (refs : K → KeyType → Option (TrxHandle S K)) (h₀ : K) (p₀ : KeyType)
    (trx : TrxHandle S K) : K → KeyType → Option (TrxHandle S K) :=
  fun h p => if (h, p) = (h₀, p₀) ∧ refs h p = some trx then none else refs h p

/-- One key of `purge_for_trx_v3`, on an index kept by references and at a
key whose reference of that type is set: the entry is found, and the step
clears the reference where it is the purged trx (and with it the entry,
once nothing refers to it). -/
theorem purgeKeys_cons_indexOfRefs (trx : TrxHandle S K)
    (refs : K → KeyType → Option (TrxHandle S K)) (kp : KeyPart K) (kps : List (KeyPart K))
    (hset : refs kp.hash (kp.wsrepType trx.version) ≠ none) :
    purgeKeys trx (indexOfRefs refs) (kp :: kps) =
      purgeKeys trx (indexOfRefs (clearRef refs kp.hash (kp.wsrepType trx.version) trx)) kps := by
  generalize hp : kp.wsrepType trx.version = p at hset
  have hfound := indexOfRefs_of_ne_none hset
  simp only [purgeKeys, hfound, hp]
  by_cases hT : refs kp.hash p = some trx
  · -- the purged trx is the reference: it is cleared
    have hunref : KeyEntryNG.unref ⟨refs kp.hash⟩ p trx = ⟨clearRef refs kp.hash p trx kp.hash⟩ := by
      refine KeyEntryNG.refs_ext fun q => ?_
      by_cases hq : q = p
      · subst hq
        simp [KeyEntryNG.unref, clearRef, hT]
      · simp [KeyEntryNG.unref, clearRef, hT, hq]
    rw [if_pos hT, hunref]
    congr 1
    funext h
    by_cases hh : h = kp.hash
    · subst hh
      by_cases hr : (⟨clearRef refs kp.hash p trx kp.hash⟩ : KeyEntryNG S K).referenced = true
      · simp [indexOfRefs, hr]
      · simp [indexOfRefs, hr]
    · have hc : clearRef refs kp.hash p trx h = refs h := by
        funext q
        simp [clearRef, hh]
      split_ifs <;> simp [Function.update_of_ne hh, indexOfRefs, hc]
  · -- another trx holds the reference: nothing changes
    have hc : clearRef refs kp.hash p trx = refs := by
      funext h q
      unfold clearRef
      split_ifs with hq
      · obtain ⟨hhq, hq'⟩ := hq
        simp only [Prod.mk.injEq] at hhq
        rw [hhq.1, hhq.2] at hq'
        exact absurd hq' hT
      · rfl
    rw [if_neg hT, hc]

/-- `purge_for_trx_v3` on the oldest writer of a history: every key is
found, and the index becomes that of the rest of the history.  The loop
invariant is that the purged trx still writes the labels of the keys not
yet processed. -/
theorem purgeKeys_indexOf (T : TrxHandle S K) (H : List (TrxHandle S K × List (K × KeyType)))
    (hT : ∀ e ∈ H, e.1 ≠ T) :
    ∀ ks : List (KeyPart K), (ks.map (keyLabel T)).Nodup →
      purgeKeys T (indexOf ((T, ks.map (keyLabel T)) :: H)) ks = (indexOf H, false)
  | [], _ => by simp [purgeKeys, indexOf_cons_nil]
  | k :: ks, hnd => by
    rw [List.map_cons, List.nodup_cons] at hnd
    have hset : latest ((T, keyLabel T k :: ks.map (keyLabel T)) :: H)
        (k.hash, k.wsrepType T.version) ≠ none := by
      simp [keyLabel]
    -- giving up the label of `k` is clearing the reference where it is `T`
    have hdrop : (fun h p => latest ((T, ks.map (keyLabel T)) :: H) (h, p)) =
        clearRef (fun h p => latest ((T, keyLabel T k :: ks.map (keyLabel T)) :: H) (h, p))
          k.hash (k.wsrepType T.version) T := by
      funext h p
      rw [latest_cons_drop_eq T _ _ H hnd.1 hT]
      rfl
    rw [indexOf, purgeKeys_cons_indexOfRefs T _ k ks hset, List.map_cons, ← hdrop]
    exact purgeKeys_indexOf T H hT ks hnd.2

/-- What `trx_map_` keeps of every trx. -/
structure TrxOk (t : TrxHandle S K) : Prop where
  positive : 0 < t.globalSeqno
  labels_nodup : (t.keys.map (keyLabel t)).Nodup
  ng_version : -1 < t.dependsSeqno → t.keys ≠ [] → 3 ≤ t.version

/-- `PurgeAndDiscard` on the oldest trx of the map. -/
theorem purgeAndDiscard_indexOf {T : TrxHandle S K} {m : List (TrxHandle S K)} (hT : T ∉ m)
    (hok : TrxOk T) :
    purgeAndDiscard (indexOf (certHistory (T :: m))) T = (indexOf (certHistory m), false) := by
  have hT' : ∀ e ∈ certHistory m, e.1 ≠ T := by
    intro e he
    obtain ⟨t, ht, rfl⟩ := List.mem_map.mp he
    exact fun h => hT (h ▸ ht)
  simp only [certHistory, List.map_cons]
  unfold purgeAndDiscard certLabels
  by_cases hd : -1 < T.dependsSeqno
  · by_cases hv : 3 ≤ T.version
    · simp only [hd, hv, if_true, purgeForTrxV3]
      exact purgeKeys_indexOf T _ hT' T.keys hok.labels_nodup
    · -- an old-version trx that passed is a preordered one, without keys
      have hk : T.keys = [] := by
        by_contra hk
        exact hv (hok.ng_version hd hk)
      simp [hd, hv, hk, indexOf_cons_nil]
  · simp [hd, indexOf_cons_nil]

/-- Purging a run at the old end of the map gives the index of what is
left, and never takes the `Missing key` branch. -/
theorem purgeAll_indexOf :
    ∀ (pre post : List (TrxHandle S K)), (pre ++ post).Nodup → (∀ t ∈ pre, TrxOk t) →
      purgeAll (indexOf (certHistory (pre ++ post))) pre = (indexOf (certHistory post), false)
  | [], post, _, _ => rfl
  | T :: pre, post, hnd, hok => by
    rw [List.cons_append, List.nodup_cons] at hnd
    have h₁ := purgeAndDiscard_indexOf hnd.1 (hok T List.mem_cons_self)
    have h₂ := purgeAll_indexOf pre post hnd.2 fun t ht => hok t (List.mem_cons_of_mem _ ht)
    simp only [List.cons_append, purgeAll, h₁, h₂, Bool.or_false]

/-! ## §3. Appending. -/

/-- Appending a trx that refs all its keys: every key of the trx gets an
entry whose references of the trx's key types are the trx, over the latest
writers of the rest. -/
theorem indexOf_append_refKeys (H : List (TrxHandle S K × List (K × KeyType)))
    (w : TrxHandle S K) (h : K) :
    indexOf (H ++ [(w, w.keys.map (keyLabel w))]) h =
      if ∃ kp ∈ w.keys, kp.hash = h then
        some (((indexOf H h).getD .empty).refKeysAt w w.keys h)
      else indexOf H h := by
  have hlab : ∀ p, (h, p) ∈ w.keys.map (keyLabel w) ↔
      ∃ kp ∈ w.keys, kp.hash = h ∧ kp.wsrepType w.version = p := by
    intro p
    simp [keyLabel]
  split_ifs with hkey
  · -- the key is written: the entry exists, and holds `w` for the written types
    obtain ⟨kp, hkp, rfl⟩ := hkey
    have hset : latest (H ++ [(w, w.keys.map (keyLabel w))]) (kp.hash, kp.wsrepType w.version) ≠ none := by
      rw [latest_append_single, if_pos ((hlab _).mpr ⟨kp, hkp, rfl, rfl⟩)]
      simp
    rw [indexOf, indexOfRefs_of_ne_none hset, Option.some_inj]
    refine KeyEntryNG.refs_ext fun p => ?_
    simp only [latest_append_single, hlab, KeyEntryNG.refKeysAt, getD_indexOf_refs]
  · -- no key of `w` is at `h`: nothing changes there
    have hsame : ∀ p, latest (H ++ [(w, w.keys.map (keyLabel w))]) (h, p) = latest H (h, p) := by
      intro p
      rw [latest_append_single, if_neg]
      rw [hlab]
      rintro ⟨kp, hkp, hh, _⟩
      exact hkey ⟨kp, hkp, hh⟩
    simp only [indexOf, indexOfRefs, hsame]

/-! ## §4. The invariant. -/

/-- The invariant of a certification object: `trx_map_` in seqno order and
not past `position_`, every trx as `append_trx` keeps it, and the index the
last-writer map of the map's history. -/
structure CertInv (c : Certification S K) : Prop where
  sorted : c.trxMap.Pairwise fun a b => a.globalSeqno < b.globalSeqno
  below : ∀ t ∈ c.trxMap, t.globalSeqno ≤ c.position
  trxs : ∀ t ∈ c.trxMap, TrxOk t
  index : c.certIndexNg = indexOf (certHistory c.trxMap)
  paBelow : c.lastPaUnsafe ≤ c.position

theorem CertInv.nodup {c : Certification S K} (hc : CertInv c) : c.trxMap.Nodup :=
  hc.sorted.imp fun hlt heq => by rw [heq] at hlt; exact lt_irrefl _ hlt

/-- No entry of an invariant index is without a reference. -/
theorem CertInv.referenced {c : Certification S K} (hc : CertInv c) :
    ∀ h e, c.certIndexNg h = some e → e.referenced = true := by
  intro h e he
  rw [hc.index] at he
  exact indexOf_referenced he

theorem indexOf_nil : indexOf ([] : List (TrxHandle S K × List (K × KeyType))) = fun _ => none := by
  funext h
  simp [indexOf, indexOfRefs, KeyEntryNG.referenced]

theorem certInv_init (seqno : Int) (version : Nat) (hv : version = 3 ∨ version = 4)
    (maxLength maxLengthCheck : Int) (optimisticPa : Bool) :
    CertInv (Certification.init seqno version hv maxLength maxLengthCheck optimisticPa :
      Certification S K) where
  sorted := List.Pairwise.nil
  below := by simp [Certification.init]
  trxs := by simp [Certification.init]
  index := by simp [Certification.init, certHistory, indexOf_nil]
  paBelow := le_rfl

/-- Purging a run at the old end of the map keeps the invariant and finds
every key. -/
theorem CertInv.purgeTrxsUpto_ {c : Certification S K} (hc : CertInv c) (seqno : Int) :
    CertInv (purgeTrxsUpto_ c seqno) ∧
      (purgeAll c.certIndexNg (c.trxMap.takeWhile (·.globalSeqno ≤ seqno))).2 = false := by
  have hsplit := @List.takeWhile_append_dropWhile _
    (fun t : TrxHandle S K => decide (t.globalSeqno ≤ seqno)) c.trxMap
  have hsuf := @List.dropWhile_suffix _ c.trxMap fun t : TrxHandle S K => decide (t.globalSeqno ≤ seqno)
  have hpurge := purgeAll_indexOf _ _ (hsplit ▸ hc.nodup)
    fun t ht => hc.trxs t (hsplit ▸ List.mem_append_left _ ht)
  rw [hsplit, ← hc.index] at hpurge
  refine ⟨⟨hc.sorted.sublist hsuf.sublist, fun t ht => hc.below t (hsuf.subset ht),
    fun t ht => hc.trxs t (hsuf.subset ht), ?_, hc.paBelow⟩, by rw [hpurge]⟩
  simp only [Galera.Cert.purgeTrxsUpto_, hpurge]

theorem CertInv.purgeTrxsUpto {c : Certification S K} (hc : CertInv c) (seqno : Int) :
    CertInv (purgeTrxsUpto c seqno) :=
  (hc.purgeTrxsUpto_ _).1

theorem CertInv.setTrxCommitted {c : Certification S K} (hc : CertInv c) (trx : TrxHandle S K)
    (certified : Bool) : CertInv (setTrxCommitted c trx certified) := by
  unfold Galera.Cert.setTrxCommitted
  by_cases h : certified = true ∧ trx.lastSeenSeqno ∈ c.depsSet
  · rw [if_pos h]
    exact ⟨hc.sorted, hc.below, hc.trxs, hc.index, hc.paBelow⟩
  · rw [if_neg h]
    exact hc

/-- Starting over leaves an empty index: moving forward, because purging
the whole map empties it. -/
theorem CertInv.assignInitialPosition {c : Certification S K} (hc : CertInv c) (seqno : Int)
    (version : Nat) (hv : version = 3 ∨ version = 4) :
    CertInv (assignInitialPosition c seqno version hv) := by
  have hall := purgeAll_indexOf c.trxMap [] (by simpa using hc.nodup) hc.trxs
  rw [List.append_nil, ← hc.index] at hall
  refine ⟨List.Pairwise.nil, by simp [Galera.Cert.assignInitialPosition],
    by simp [Galera.Cert.assignInitialPosition], ?_, le_rfl⟩
  simp only [Galera.Cert.assignInitialPosition, certHistory, List.map_nil, indexOf_nil]
  split_ifs
  · rw [hall, certHistory, List.map_nil, indexOf_nil]
  · rfl

/-! ## §5. Appending keeps the invariant. -/

/-- A write set version that certification protocol 3 or 4 accepts is at
least 3. -/
theorem three_le_of_trxCertVersionMatch {v cv : Nat} (hcv : cv = 3 ∨ cv = 4)
    (h : trxCertVersionMatch v cv = true) : 3 ≤ v := by
  unfold trxCertVersionMatch at h
  rcases hcv with rfl | rfl <;> simp at h <;> omega

/-- The parent seqno `do_test` starts from is never negative, as seqnos
start from 1. -/
theorem initialDependsSeqno_nonneg (c : Certification S K) (trx : TrxHandle S K)
    (hg : 0 < trx.globalSeqno) (hmap : ∀ t ∈ c.trxMap, 0 < t.globalSeqno) :
    0 ≤ initialDependsSeqno c trx := by
  unfold initialDependsSeqno
  cases hm : c.trxMap with
  | nil =>
    dsimp only
    omega
  | cons first rest =>
    have := hmap first (by simp [hm])
    dsimp only
    split_ifs with h₁ h₂
    · omega
    · simp only [Bool.and_eq_true, decide_eq_true_eq] at h₂
      omega
    · omega

/-- A trx that passes `test` on an invariant object, not preordered, ends
with `depends_seqno` at least 0: above the -1 that marks a failure. -/
theorem CertInv.test_depends_of_ok {c : Certification S K} (hc : CertInv c)
    {trx : TrxHandle S K} (hseqno : 0 < trx.globalSeqno) (hp : trx.preordered = false)
    (hok : (test c trx true).1 = .testOk) : -1 < (test c trx true).2.1.dependsSeqno := by
  obtain ⟨heq, -⟩ := test_eq_of_ok hp hok
  rw [heq] at hok ⊢
  obtain ⟨d, hd, hd'⟩ := doTestV3to4_snd_eq c (trx.setDependsSeqno (initialDependsSeqno c trx)) true
  have h0 := initialDependsSeqno_nonneg c trx hseqno fun t ht => (hc.trxs t ht).positive
  have h1 := hd hok
  rw [hd']
  simp only [TrxHandle.setDependsSeqno_dependsSeqno] at h1 ⊢
  omega

/-- So for a trx that is not preordered, "passed certification" and
`depends_seqno > -1`, the test of `PurgeAndDiscard`, agree. -/
theorem CertInv.test_ok_iff {c : Certification S K} (hc : CertInv c)
    {trx : TrxHandle S K} (hseqno : 0 < trx.globalSeqno) (hp : trx.preordered = false) :
    (test c trx true).1 = .testOk ↔ -1 < (test c trx true).2.1.dependsSeqno := by
  refine ⟨hc.test_depends_of_ok hseqno hp, fun hd => ?_⟩
  cases hr : (test c trx true).1 with
  | testOk => rfl
  | testFailed =>
    have := (test_of_failed hc.referenced hp hr).2
    omega

/-- What `test` with keys stored does to an invariant object, seen from the
history: the map gains the tested trx, which writes its keys if it passed. -/
theorem CertInv.after_test {c : Certification S K} (hc : CertInv c) (trx : TrxHandle S K)
    (hseqno : 0 < trx.globalSeqno) (hkeys : KeySetOk trx) :
    (test c trx true).2.2.certIndexNg =
        indexOf (certHistory (c.trxMap ++ [(test c trx true).2.1])) ∧
      TrxOk (test c trx true).2.1 := by
  obtain ⟨-, -, d, hd⟩ := test_frame c trx true
  have hnd : ((test c trx true).2.1.keys.map (keyLabel (test c trx true).2.1)).Nodup := by
    rw [hd]
    exact hkeys.1
  cases hp : trx.preordered
  · rcases hr : (test c trx true).1 with _ | _
    · -- a pass: the trx refs its keys, and passed with a seqno of at least 0
      have hpos := hc.test_depends_of_ok hseqno hp hr
      obtain ⟨heq, hver⟩ := test_eq_of_ok hp hr
      rw [heq] at hr hd hnd hpos ⊢
      have hv3 : 3 ≤ trx.version := three_le_of_trxCertVersionMatch c.version_ok hver
      refine ⟨funext fun h => ?_, ⟨by simp [hd, hseqno], hnd, fun _ _ => by simp [hd, hv3]⟩⟩
      rw [doTestV3to4_index_of_ok c _ hr h, certHistory_append, certHistory, certHistory,
        List.map_cons, List.map_nil]
      rw [certLabels, if_pos hpos, indexOf_append_refKeys, ← certHistory, ← hc.index]
      simp [hd]
    · -- a failure: the object is as it was, and the trx writes nothing
      obtain ⟨hsame, hdep⟩ := test_of_failed hc.referenced hp hr
      have hlab : certLabels (test c trx true).2.1 = [] := by simp [certLabels, hdep]
      refine ⟨?_, ⟨by simp [hd, hseqno], hnd, fun h => by simp [hdep] at h⟩⟩
      rw [hsame, certHistory_append, certHistory, certHistory, List.map_cons, List.map_nil, hlab,
        indexOf_append_nil, ← certHistory, ← hc.index]
  · -- a preordered trx has no keys, and the index is not touched
    have hk : trx.keys = [] := hkeys.2 hp
    have hlab : certLabels (test c trx true).2.1 = [] := by simp [certLabels, hd, hk]
    rw [test_of_preordered hp] at hlab ⊢
    refine ⟨?_, ⟨by simp [doTestPreordered, hseqno], by simp [doTestPreordered, hk],
      fun _ h => by simp [doTestPreordered, hk] at h⟩⟩
    rw [certHistory_append, certHistory, certHistory, List.map_cons, List.map_nil, hlab,
      indexOf_append_nil, ← certHistory]
    exact hc.index

/-- Recording a tested trx at the new end of an invariant map keeps the
invariant. -/
theorem CertInv.record_tested {c : Certification S K} (hc : CertInv c) (trx : TrxHandle S K)
    (hseqno : 0 < trx.globalSeqno) (hkeys : KeySetOk trx)
    (hlt : ∀ t ∈ c.trxMap, t.globalSeqno < trx.globalSeqno)
    (hposn : c.position = trx.globalSeqno) :
    CertInv { (test c trx true).2.2 with
      trxMap := (test c trx true).2.2.trxMap ++ [(test c trx true).2.1]
      depsSet := (test c trx true).2.1.lastSeenSeqno :: (test c trx true).2.2.depsSet } := by
  obtain ⟨hidx, hok⟩ := hc.after_test trx hseqno hkeys
  obtain ⟨hmap, hpos, d, hd⟩ := test_frame c trx true
  have hg : (test c trx true).2.1.globalSeqno = trx.globalSeqno := by simp [hd]
  refine ⟨?_, ?_, ?_, ?_, ?_⟩
  · -- the new trx comes after every trx of the map
    refine List.pairwise_append.mpr ⟨hmap ▸ hc.sorted, List.pairwise_singleton _ _, ?_⟩
    intro a ha b hb
    rw [List.mem_singleton.mp hb, hg]
    exact hlt a (hmap ▸ ha)
  · intro t ht
    rcases List.mem_append.mp ht with ht | ht
    · exact hpos ▸ hposn ▸ le_of_lt (hlt t (hmap ▸ ht))
    · rw [List.mem_singleton.mp ht, hg]
      exact hpos ▸ hposn ▸ le_rfl
  · intro t ht
    rcases List.mem_append.mp ht with ht | ht
    · exact hc.trxs t (hmap ▸ ht)
    · exact List.mem_singleton.mp ht ▸ hok
  · simp only [hmap]
    exact hidx
  · exact hpos ▸ test_lastPaUnsafe_le c trx true (hposn ▸ hc.paBelow) hposn.ge

/-- Advancing `position_` keeps the invariant. -/
theorem CertInv.setPosition {c : Certification S K} (hc : CertInv c) {g : Int}
    (hg : c.position ≤ g) : CertInv ({ c with position := g } : Certification S K) :=
  ⟨hc.sorted, fun t ht => le_trans (hc.below t ht) hg, hc.trxs, hc.index, le_trans hc.paBelow hg⟩

/-- `append_trx` keeps the invariant: the trim purges a run at the old end
of the map, and the tested trx is recorded at the new end. -/
theorem CertInv.appendTrx {c : Certification S K} (hc : CertInv c) (trx : TrxHandle S K)
    (hpos : c.position < trx.globalSeqno) (hseqno : 0 < trx.globalSeqno)
    (hkeys : KeySetOk trx) : CertInv (appendTrx c trx).2.2 := by
  have hc₁ := hc.setPosition (le_of_lt hpos)
  -- the map before the test: the old one, maybe trimmed
  have hc₂ : ∀ c₂ : Certification S K, (c₂ = { c with position := trx.globalSeqno } ∨
      ∃ b, c₂ = Galera.Cert.purgeTrxsUpto_ { c with position := trx.globalSeqno } b) →
      CertInv c₂ ∧ (∀ t ∈ c₂.trxMap, t.globalSeqno < trx.globalSeqno) ∧
        c₂.position = trx.globalSeqno := by
    rintro c₂ (rfl | ⟨b, rfl⟩)
    · exact ⟨hc₁, fun t ht => lt_of_le_of_lt (hc.below t ht) hpos, rfl⟩
    · refine ⟨(hc₁.purgeTrxsUpto_ b).1, fun t ht => ?_, rfl⟩
      exact lt_of_le_of_lt (hc.below t ((List.dropWhile_suffix _).subset ht)) hpos
  unfold Galera.Cert.appendTrx
  dsimp only
  split_ifs
  · obtain ⟨h₁, h₂, h₃⟩ := hc₂ _ (Or.inr ⟨_, rfl⟩)
    exact h₁.record_tested trx hseqno hkeys h₂ h₃
  · obtain ⟨h₁, h₂, h₃⟩ := hc₂ _ (Or.inl rfl)
    exact h₁.record_tested trx hseqno hkeys h₂ h₃

/-- Every call on the object keeps the invariant. -/
theorem CertInv.step {c c' : Certification S K} (hc : CertInv c) (hs : CertStep c c') :
    CertInv c' := by
  cases hs with
  | append trx hpos hseqno hkeys => exact hc.appendTrx trx hpos hseqno hkeys
  | commit trx certified => exact hc.setTrxCommitted trx certified
  | purge seqno => exact hc.purgeTrxsUpto seqno
  | assign seqno version hv => exact hc.assignInitialPosition seqno version hv

/-- Every reachable state satisfies the invariant. -/
theorem Reachable.certInv {c : Certification S K} (h : Reachable c) : CertInv c := by
  induction h with
  | init seqno version hv maxLength maxLengthCheck optimisticPa =>
    exact certInv_init seqno version hv maxLength maxLengthCheck optimisticPa
  | step _ hs ih => exact ih.step hs

/-! ## §6. The index of every reachable state. -/

/-- An entry's references are the latest writers of its labels. -/
theorem CertInv.refs_eq {c : Certification S K} (hc : CertInv c) {h : K} {e : KeyEntryNG S K}
    (he : c.certIndexNg h = some e) (p : KeyType) :
    e.refs p = latest (certHistory c.trxMap) (h, p) := by
  rw [hc.index] at he
  rw [(indexOfRefs_eq_some he).2]

/-- A key without an entry has no writer. -/
theorem CertInv.latest_eq_none {c : Certification S K} (hc : CertInv c) {h : K}
    (he : c.certIndexNg h = none) (p : KeyType) : latest (certHistory c.trxMap) (h, p) = none := by
  rw [hc.index] at he
  unfold indexOf indexOfRefs at he
  split_ifs at he with hr
  by_contra hne
  exact hr ((KeyEntryNG.referenced_iff _).mpr ⟨p, hne⟩)

/-- The latest writer of a label in `trx_map_`'s history is a trx of the
map that writes it. -/
theorem mem_of_latest_certHistory {m : List (TrxHandle S K)} {h : K} {p : KeyType}
    {R : TrxHandle S K} (hR : latest (certHistory m) (h, p) = some R) :
    R ∈ m ∧ WritesKey R h p := by
  obtain ⟨ls, hm, hl⟩ := latest_mem hR
  obtain ⟨t, ht, heq⟩ := List.mem_map.mp hm
  simp only [Prod.mk.injEq] at heq
  obtain ⟨rfl, rfl⟩ := heq
  exact ⟨ht, mem_certLabels.mp hl⟩

/-- In a map in seqno order, the latest writer of a label has the greatest
seqno among its writers. -/
theorem latest_certHistory_greatest {m : List (TrxHandle S K)}
    (hs : m.Pairwise fun a b => a.globalSeqno < b.globalSeqno) {h : K} {p : KeyType}
    {R : TrxHandle S K} (hR : latest (certHistory m) (h, p) = some R) {t : TrxHandle S K}
    (ht : t ∈ m) (hw : WritesKey t h p) : t.globalSeqno ≤ R.globalSeqno :=
  latest_greatest (fun t : TrxHandle S K => t.globalSeqno)
    (List.pairwise_map.mpr hs) hR (t, certLabels t) (List.mem_map_of_mem ht)
    (mem_certLabels.mpr hw)

/-- Purging any run at the old end of an invariant map finds every key. -/
theorem CertInv.purgeAll_take {c : Certification S K} (hc : CertInv c) (n : ℕ) :
    (purgeAll c.certIndexNg (c.trxMap.take n)).2 = false := by
  have hsplit := List.take_append_drop n c.trxMap
  have hpurge := purgeAll_indexOf _ _ (hsplit ▸ hc.nodup)
    fun t ht => hc.trxs t (List.mem_of_mem_take ht)
  rw [hsplit, ← hc.index] at hpurge
  rw [hpurge]

/-- **The index invariant.**  In every state reachable from
`assign_initial_position` by `append_trx` (of trxs past `position_`),
`set_trx_committed`, `purge_trxs_upto` and `assign_initial_position`, every
entry of `cert_index_ng_` holds a reference; its reference of type `p` is
unset exactly when no trx of `trx_map_` that passed has a key at the
entry's hash of type `p`, and otherwise it is the one among those trxs with
the greatest seqno; a key without an entry has no such trx; and purging any
run at the old end of `trx_map_` never takes the `Missing key` branch. -/
theorem cert_index_is_latest_writer (c : Certification S K) (hc : Reachable c) :
    (∀ h e, c.certIndexNg h = some e →
      e.referenced = true ∧
      ∀ p, (e.refs p = none ↔ ¬ ∃ t ∈ c.trxMap, WritesKey t h p) ∧
        ∀ R, e.refs p = some R →
          R ∈ c.trxMap ∧ WritesKey R h p ∧
            ∀ t ∈ c.trxMap, WritesKey t h p → t.globalSeqno ≤ R.globalSeqno) ∧
    (∀ h, c.certIndexNg h = none → ∀ p, ¬ ∃ t ∈ c.trxMap, WritesKey t h p) ∧
    (∀ n, (purgeAll c.certIndexNg (c.trxMap.take n)).2 = false) := by
  have hinv := hc.certInv
  refine ⟨fun h e he => ⟨hinv.referenced h e he, fun p => ⟨?_, fun R hR => ?_⟩⟩,
    fun h he p => latest_certHistory_eq_none.mp (hinv.latest_eq_none he p), hinv.purgeAll_take⟩
  · rw [hinv.refs_eq he p]
    exact latest_certHistory_eq_none
  · rw [hinv.refs_eq he p] at hR
    obtain ⟨hmem, hw⟩ := mem_of_latest_certHistory hR
    exact ⟨hmem, hw, fun t ht htw => latest_certHistory_greatest hinv.sorted hR ht htw⟩

/-- The object after `exampleWriter` was appended to a fresh one. -/
def exampleRun : Certification Nat Nat :=
  (appendTrx (Certification.init 0 4 Certification.version_four_ok 16384 127 true) exampleWriter).2.2

theorem reachable_exampleRun : Reachable exampleRun :=
  Reachable.step (Reachable.init 0 4 (Or.inr rfl) 16384 127 true)
    (CertStep.append _ exampleWriter (by decide) (by decide) ⟨by decide, by decide⟩)

theorem cert_index_is_latest_writer_example_run :
    Reachable exampleRun ∧ (purgeAll exampleRun.certIndexNg (exampleRun.trxMap.take 1)).2 = false :=
  ⟨reachable_exampleRun, (cert_index_is_latest_writer exampleRun reachable_exampleRun).2.2 1⟩

/-! ## §7. A failed certification on a reachable state. -/

end Galera.Cert
