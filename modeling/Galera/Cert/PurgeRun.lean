/-
  Galera.Cert.PurgeRun
  ────────────────────
  **PURGING IS INVISIBLE TO CERTIFICATION, OVER WHOLE RUNS.**

  A run is a list of calls on the certification object: `append_trx`,
  `set_trx_committed` and `purge_trxs_upto`.  Against it stands the run of
  the same calls on an object that never purges (`CertCall.runUnpurged`):
  there the explicit purges do nothing and `append_trx` skips its trim
  (`appendTrxUntrimmed`).  `append_trx` is that untrimmed append after a
  purge at `trimBound?` (`appendTrx_eq_untrimmed`), never above
  `position_ - max_length_` nor the safe-to-discard seqno.

  The two objects stay `Twin`s along any run whose appended trxs have seen
  every purge bound applied before them (`Twin.run`), so a next trx that
  has seen them too gets the same verdict from `do_test`, with a
  `depends_seqno` between the unpurged one and its own seqno.

  The condition on the appended trxs cannot be dropped: a trx that has not
  seen a purged writer passes against the purged object, fails against the
  full one, and then blocks, in the purged index only, a later trx that has
  seen every bound (`purge_hides_unseen_writer`).
-/
import Mathlib
import Galera.Cert.Purge

namespace Galera.Cert

set_option linter.unusedSectionVars false

variable {S K : Type} [DecidableEq S] [DecidableEq K]

/-! ## §1. The append without its trim. -/

/-- The bound `append_trx` trims `trx_map_` to, when the trim is due. -/
def trimBound? (c : Certification S K) (trx : TrxHandle S K) : Option Int :=
  let c₁ := { c with position := trx.globalSeqno }
  if trimDue c₁ then some (min (c₁.position - c₁.maxLength) (getSafeToDiscardSeqno_ c₁))
  else none

/-- `append_trx` as it would run on an object that never purges: the same
certification and insertion, with no trim. -/
def appendTrxUntrimmed (c : Certification S K) (trx : TrxHandle S K) :
    TestResult × TrxHandle S K × Certification S K :=
  let r := test { c with position := trx.globalSeqno } trx true
  (r.1, r.2.1,
    { r.2.2 with trxMap := r.2.2.trxMap ++ [r.2.1],
                 depsSet := r.2.1.lastSeenSeqno :: r.2.2.depsSet })

/-- `append_trx` is the untrimmed append, after a purge at the trim bound
when the trim is due. -/
theorem appendTrx_eq_untrimmed (c : Certification S K) (trx : TrxHandle S K) :
    appendTrx c trx = appendTrxUntrimmed
      (match trimBound? c trx with
       | some b => purgeTrxsUpto_ { c with position := trx.globalSeqno } b
       | none => c) trx := by
  unfold appendTrx trimBound?
  dsimp only
  split_ifs <;> rfl

/-- The trim bound is below the overflow bound and the safe-to-discard seqno. -/
theorem trimBound?_le {c : Certification S K} {trx : TrxHandle S K} {b : Int}
    (hb : trimBound? c trx = some b) :
    b ≤ trx.globalSeqno - c.maxLength ∧ b ≤ getSafeToDiscardSeqno_ c := by
  dsimp only [trimBound?] at hb
  split_ifs at hb
  rw [Option.some_inj] at hb
  subst hb
  exact ⟨min_le_left _ _, min_le_right _ _⟩

/-- The object after an untrimmed append: the tested object, with the trx
recorded at the end of `trx_map_` and in `deps_set_`. -/
theorem appendTrxUntrimmed_state (c : Certification S K) (trx : TrxHandle S K) :
    (appendTrxUntrimmed c trx).2.2 =
      { (test { c with position := trx.globalSeqno } trx true).2.2 with
        trxMap := (test { c with position := trx.globalSeqno } trx true).2.2.trxMap ++
          [(test { c with position := trx.globalSeqno } trx true).2.1],
        depsSet := (test { c with position := trx.globalSeqno } trx true).2.1.lastSeenSeqno ::
          (test { c with position := trx.globalSeqno } trx true).2.2.depsSet } := rfl

/-! ## §2. Runs with and without purging. -/

/-- A call on the certification object. -/
inductive CertCall (S K : Type) where
  | append (trx : TrxHandle S K)
  | commit (trx : TrxHandle S K) (certified : Bool)
  | purge (seqno : Int)

/-- The object after a call. -/
def CertCall.run (c : Certification S K) : CertCall S K → Certification S K
  | .append trx => (appendTrx c trx).2.2
  | .commit trx certified => setTrxCommitted c trx certified
  | .purge seqno => purgeTrxsUpto c seqno

/-- The same call on an object that never purges. -/
def CertCall.runUnpurged (c : Certification S K) : CertCall S K → Certification S K
  | .append trx => (appendTrxUntrimmed c trx).2.2
  | .commit trx certified => setTrxCommitted c trx certified
  | .purge _ => c

/-- The purge bound a call applies, if it purges. -/
def CertCall.bound? (c : Certification S K) : CertCall S K → Option Int
  | .append trx => trimBound? c trx
  | .commit _ _ => none
  | .purge seqno => some (min seqno (getSafeToDiscardSeqno_ c))

def runCalls : Certification S K → List (CertCall S K) → Certification S K
  | c, [] => c
  | c, call :: calls => runCalls (call.run c) calls

def runCallsUnpurged : Certification S K → List (CertCall S K) → Certification S K
  | c, [] => c
  | c, call :: calls => runCallsUnpurged (call.runUnpurged c) calls

/-- The purge bounds a run applies, in order. -/
def purgeBounds : Certification S K → List (CertCall S K) → List Int
  | _, [] => []
  | c, call :: calls => (call.bound? c).toList ++ purgeBounds (call.run c) calls

/-- What the callers of `append_trx` guarantee (a trx past `position_`, a
positive seqno, a key set from `KeySetOut`), and that the trx has seen every
purge bound applied before it is certified, its own trim's included. -/
def CertCall.Admissible (c : Certification S K) (bounds : List Int) : CertCall S K → Prop
  | .append trx => c.position < trx.globalSeqno ∧ 0 < trx.globalSeqno ∧ KeySetOk trx ∧
      ∀ b ∈ bounds ++ (trimBound? c trx).toList, b ≤ trx.lastSeenSeqno
  | .commit _ _ => True
  | .purge _ => True

/-- Every call of a run is admissible against the bounds applied before it. -/
def Admissible : Certification S K → List Int → List (CertCall S K) → Prop
  | _, _, [] => True
  | c, bounds, call :: calls =>
    call.Admissible c bounds ∧ Admissible (call.run c) (bounds ++ (call.bound? c).toList) calls

instance CertCall.decAdmissible (c : Certification S K) (bounds : List Int) :
    (call : CertCall S K) → Decidable (call.Admissible c bounds)
  | .append _ => inferInstanceAs (Decidable (_ ∧ _ ∧ _ ∧ _))
  | .commit _ _ => isTrue trivial
  | .purge _ => isTrue trivial

instance decAdmissible :
    (c : Certification S K) → (bounds : List Int) → (calls : List (CertCall S K)) →
      Decidable (Admissible c bounds calls)
  | _, _, [] => isTrue trivial
  | c, bounds, call :: calls =>
    have := decAdmissible (call.run c) (bounds ++ (call.bound? c).toList) calls
    inferInstanceAs (Decidable (_ ∧ _))

/-! ## §3. Twins along a run. -/

section Twins

variable {cP cU : Certification S K} {bounds : List Int}

/-- An object is its own twin, before any purge. -/
theorem Twin.refl {c : Certification S K} (hc : CertInv c) : Twin c c [] :=
  ⟨hc, hc, rfl, [], c.trxMap, rfl, rfl, by simp⟩

@[simp] theorem setTrxCommitted_trxMap (c : Certification S K) (trx : TrxHandle S K)
    (certified : Bool) : (setTrxCommitted c trx certified).trxMap = c.trxMap := by
  unfold Galera.Cert.setTrxCommitted
  split_ifs <;> rfl

theorem setTrxCommitted_rest (c : Certification S K) (trx : TrxHandle S K) (certified : Bool) :
    (setTrxCommitted c trx certified).rest = setTrxCommitted c.rest trx certified := by
  unfold Galera.Cert.setTrxCommitted
  by_cases h : certified = true ∧ trx.lastSeenSeqno ∈ c.depsSet
  · rw [if_pos h, if_pos (show certified = true ∧ trx.lastSeenSeqno ∈ c.rest.depsSet from h)]
    rfl
  · rw [if_neg h, if_neg (show ¬(certified = true ∧ trx.lastSeenSeqno ∈ c.rest.depsSet) from h)]

theorem Twin.commit (hw : Twin cP cU bounds) (trx : TrxHandle S K) (certified : Bool) :
    Twin (setTrxCommitted cP trx certified) (setTrxCommitted cU trx certified) bounds := by
  refine ⟨hw.invP.setTrxCommitted trx certified, hw.invU.setTrxCommitted trx certified, ?_, ?_⟩
  · rw [setTrxCommitted_rest, setTrxCommitted_rest, hw.rest]
  · simpa only [setTrxCommitted_trxMap] using hw.split

/-- Purging the purged object under `b` adds `b` to the bounds: the dropped
run moves from the shared suffix into the dropped prefix. -/
theorem Twin.purge (hw : Twin cP cU bounds) (b : Int) :
    Twin (purgeTrxsUpto_ cP b) cU (bounds ++ [b]) := by
  obtain ⟨pre, post, hsplit, hview, hpre⟩ := hw.split
  refine ⟨(hw.invP.purgeTrxsUpto_ b).1, hw.invU, hw.rest,
    pre ++ post.takeWhile (·.globalSeqno ≤ b), post.dropWhile (·.globalSeqno ≤ b), ?_, ?_, ?_⟩
  · rw [hsplit, List.append_assoc, List.takeWhile_append_dropWhile]
  · -- the purge compares seqnos, which the views keep
    have hq : (fun t : TrxHandle S K => decide (t.globalSeqno ≤ b)) =
        (fun v : TrxHandle S K × Bool => decide (v.1.globalSeqno ≤ b)) ∘ TrxHandle.view := rfl
    show (cP.trxMap.dropWhile _).map TrxHandle.view = (post.dropWhile _).map TrxHandle.view
    rw [hq, ← List.dropWhile_map, ← List.dropWhile_map, hview]
  · intro R hR
    rcases List.mem_append.mp hR with hR | hR
    · obtain ⟨b', hb', hRb⟩ := hpre R hR
      exact ⟨b', List.mem_append_left _ hb', hRb⟩
    · exact ⟨b, List.mem_append_right _ (List.mem_singleton_self b),
        by simpa using List.mem_takeWhile_imp hR⟩

theorem Twin.setPosition (hw : Twin cP cU bounds) {g : Int} (hg : cU.position ≤ g) :
    Twin ({ cP with position := g } : Certification S K)
      ({ cU with position := g } : Certification S K) bounds :=
  ⟨hw.invP.setPosition (hw.fields.2.2.2.2.2 ▸ hg), hw.invU.setPosition hg,
    congrArg (fun r => ({ r with position := g } : Certification S K)) hw.rest, hw.split⟩

/-- The fields `test` changes besides map and index follow from the fields
it reads and from its verdict. -/
theorem test_rest_eq {c c' : Certification S K} (h : c.rest = c'.rest) (trx : TrxHandle S K)
    (sk : Bool) (hv : (test c trx sk).1 = (test c' trx sk).1) :
    (test c trx sk).2.2.rest = (test c' trx sk).2.2.rest := by
  have e := congrArg Certification.rest (test_rest c trx sk)
  have e' := congrArg Certification.rest (test_rest c' trx sk)
  change (test c trx sk).2.2.rest = _ at e
  change (test c' trx sk).2.2.rest = _ at e'
  rw [e, e', hv]
  split_ifs
  · exact congrArg
      (fun r => ({ r with lastPreorderedSeqno := trx.globalSeqno, lastPreorderedId := trx.trxId } :
        Certification S K)) h
  · exact congrArg (fun r => ({ r with lastPaUnsafe := trx.globalSeqno } : Certification S K)) h
  · exact h
  · exact h

theorem TrxHandle.view_setDependsSeqno (t : TrxHandle S K) (d : Int) :
    (t.setDependsSeqno d).view = (t.setDependsSeqno 0, decide (-1 < d)) := rfl

/-- One `test` with keys stored on twins, of a trx that has seen every
bound: the same verdict, records with the same view, and the same fields
besides map and index. -/
theorem Twin.test_agree (hw : Twin cP cU bounds) (trx : TrxHandle S K) (hseqno : 0 < trx.globalSeqno)
    (hT : ∀ b ∈ bounds, b ≤ trx.lastSeenSeqno) :
    (test cP trx true).1 = (test cU trx true).1 ∧
      (test cP trx true).2.1.view = (test cU trx true).2.1.view ∧
      (test cP trx true).2.2.rest = (test cU trx true).2.2.rest := by
  have hverdict : (test cP trx true).1 = (test cU trx true).1 := by
    cases hp : trx.preordered
    · rw [(test_of_not_preordered hp).1, (test_of_not_preordered hp).1]
      exact (hw.doTest trx true hT).1
    · rw [test_of_preordered hp, test_of_preordered hp]
      rfl
  refine ⟨hverdict, ?_, test_rest_eq hw.rest trx true hverdict⟩
  cases hp : trx.preordered
  · -- the records differ in `depends_seqno` only, and pass together
    obtain ⟨-, -, dP, hdP⟩ := test_frame cP trx true
    obtain ⟨-, -, dU, hdU⟩ := test_frame cU trx true
    have hokP := hw.invP.test_ok_iff hseqno hp
    have hokU := hw.invU.test_ok_iff hseqno hp
    rw [hdP, TrxHandle.setDependsSeqno_dependsSeqno] at hokP
    rw [hdU, TrxHandle.setDependsSeqno_dependsSeqno] at hokU
    simp only [hdP, hdU, TrxHandle.view_setDependsSeqno, Prod.mk.injEq, true_and,
      decide_eq_decide]
    rw [← hokP, ← hokU, hverdict]
  · -- a preordered trx takes its seqno from `last_preordered_seqno_`
    have hlast : cP.lastPreorderedSeqno = cU.lastPreorderedSeqno := by
      have := congrArg Certification.lastPreorderedSeqno hw.rest
      exact this
    rw [test_of_preordered hp, test_of_preordered hp]
    simp only [doTestPreordered, hlast]

/-- Appending one trx to twins without trimming keeps them twins. -/
theorem Twin.append_untrimmed (hw : Twin cP cU bounds) (trx : TrxHandle S K)
    (hle : cU.position ≤ trx.globalSeqno) (hlt : ∀ t ∈ cU.trxMap, t.globalSeqno < trx.globalSeqno)
    (hseqno : 0 < trx.globalSeqno) (hkeys : KeySetOk trx)
    (hT : ∀ b ∈ bounds, b ≤ trx.lastSeenSeqno) :
    Twin (appendTrxUntrimmed cP trx).2.2 (appendTrxUntrimmed cU trx).2.2 bounds := by
  have hw₁ := hw.setPosition hle
  obtain ⟨pre, post, hsplit, hview, hpre⟩ := hw₁.split
  -- each trx of the purged map has the view of one of the full map
  have hltP : ∀ t ∈ cP.trxMap, t.globalSeqno < trx.globalSeqno := by
    intro t ht
    have hmem : t.view ∈ post.map TrxHandle.view := hview ▸ List.mem_map_of_mem ht
    obtain ⟨u, hu, hvu⟩ := List.mem_map.mp hmem
    rw [← (TrxHandle.view_fields hvu).1]
    exact hlt u (hsplit ▸ List.mem_append_right _ hu)
  obtain ⟨hverdict, hrec, hrest⟩ := hw₁.test_agree trx hseqno hT
  have hmapP := (test_frame { cP with position := trx.globalSeqno } trx true).1
  have hmapU := (test_frame { cU with position := trx.globalSeqno } trx true).1
  have hls : (test { cP with position := trx.globalSeqno } trx true).2.1.lastSeenSeqno =
      (test { cU with position := trx.globalSeqno } trx true).2.1.lastSeenSeqno := by
    have := congrArg (fun v => v.1.lastSeenSeqno) hrec
    simpa [TrxHandle.view] using this
  refine ⟨hw₁.invP.record_tested trx hseqno hkeys hltP rfl,
    hw₁.invU.record_tested trx hseqno hkeys hlt rfl, ?_,
    pre, post ++ [(test { cU with position := trx.globalSeqno } trx true).2.1], ?_, ?_, hpre⟩
  · -- both record the same last seen seqno in `deps_set_`
    rw [appendTrxUntrimmed_state, appendTrxUntrimmed_state]
    exact congrArg₂ (fun r (s : Int) => ({ r with depsSet := s :: r.depsSet } : Certification S K))
      hrest hls
  · rw [appendTrxUntrimmed_state, hmapU, hsplit, List.append_assoc]
  · rw [appendTrxUntrimmed_state, hmapP, List.map_append, List.map_append, hview]
    simp only [List.map_cons, List.map_nil, hrec]

/-- `append_trx` on the purged twin, against the untrimmed append on the
full one: its own trim adds its bound. -/
theorem Twin.append (hw : Twin cP cU bounds) (trx : TrxHandle S K)
    (hpos : cU.position < trx.globalSeqno) (hseqno : 0 < trx.globalSeqno) (hkeys : KeySetOk trx)
    (hT : ∀ b ∈ bounds ++ (trimBound? cP trx).toList, b ≤ trx.lastSeenSeqno) :
    Twin (appendTrx cP trx).2.2 (appendTrxUntrimmed cU trx).2.2
      (bounds ++ (trimBound? cP trx).toList) := by
  have hlt : ∀ t ∈ cU.trxMap, t.globalSeqno < trx.globalSeqno :=
    fun t ht => lt_of_le_of_lt (hw.invU.below t ht) hpos
  rw [appendTrx_eq_untrimmed]
  cases hb : trimBound? cP trx with
  | none =>
    rw [hb, Option.toList_none, List.append_nil] at hT
    rw [Option.toList_none, List.append_nil]
    exact hw.append_untrimmed trx (le_of_lt hpos) hlt hseqno hkeys hT
  | some b =>
    -- the trim is a purge of the purged twin at the new position
    rw [hb] at hT
    have hw₂ := (hw.setPosition (le_of_lt hpos)).purge b
    exact hw₂.append_untrimmed trx le_rfl hlt hseqno hkeys hT

/-- One admissible call keeps two objects twins, with the call's bound
added. -/
theorem Twin.call (hw : Twin cP cU bounds) (call : CertCall S K)
    (hcall : call.Admissible cP bounds) :
    Twin (call.run cP) (call.runUnpurged cU) (bounds ++ (call.bound? cP).toList) := by
  cases call with
  | append trx =>
    obtain ⟨hpos, hseqno, hkeys, hT⟩ := hcall
    exact hw.append trx (hw.fields.2.2.2.2.2 ▸ hpos) hseqno hkeys hT
  | commit trx certified =>
    show Twin _ _ (bounds ++ [])
    rw [List.append_nil]
    exact hw.commit trx certified
  | purge seqno => exact hw.purge _

/-- **Twins along a run**: an admissible run keeps the purged object and
the one that never purges twins, under every bound the run applies. -/
theorem Twin.run : ∀ {cP cU : Certification S K} {bounds : List Int}
    (calls : List (CertCall S K)), Twin cP cU bounds → Admissible cP bounds calls →
    Twin (runCalls cP calls) (runCallsUnpurged cU calls) (bounds ++ purgeBounds cP calls)
  | _, _, _, [], hw, _ => by
    simpa only [Galera.Cert.runCalls, runCallsUnpurged, purgeBounds, List.append_nil] using hw
  | _, _, bounds, call :: calls, hw, ⟨hcall, hcalls⟩ => by
    have := Twin.run calls (hw.call call hcall) hcalls
    simpa only [Galera.Cert.runCalls, runCallsUnpurged, purgeBounds, List.append_assoc] using this

end Twins

/-! ## §4. Certifying the next trx. -/

/-- A trx past `position_` that has seen only earlier seqnos gets, when it
passes, a `depends_seqno` below its own seqno. -/
theorem CertInv.depends_lt_of_ok {c : Certification S K} (hc : CertInv c) {trx : TrxHandle S K}
    {sk : Bool} (hpos : c.position < trx.globalSeqno) (hls : trx.lastSeenSeqno < trx.globalSeqno)
    (hok : (doTest c trx sk).1 = .testOk) :
    (doTest c trx sk).2.1.dependsSeqno < trx.globalSeqno := by
  have hmap : ∀ t ∈ c.trxMap, t.globalSeqno < trx.globalSeqno :=
    fun t ht => lt_of_le_of_lt (hc.below t ht) hpos
  cases htoi : trx.isToi
  · refine doTest_depends_lt c trx sk htoi hls hmap (lt_of_le_of_lt hc.paBelow hpos) ?_ hok
    -- every reference of the index is a trx of the map
    intro h e p R he hR
    rw [hc.refs_eq he] at hR
    exact hmap R (mem_of_latest_certHistory hR).1
  · -- a TOI trx depends on its parent seqno and `last_pa_unsafe_` only
    rw [doTest_eq_of_ok hok]
    rw [(doTestV3to4_of_toi c _ sk (by simpa using htoi)).2]
    have := initialDependsSeqno_lt c trx hls hmap
    have := hc.paBelow
    simp only [TrxHandle.setDependsSeqno_dependsSeqno]
    omega

/-- **Purging is invisible to certification.**  After any admissible run
from a fresh object, a next trx that has seen every purge bound of the run
gets from `do_test` the verdict it gets from the object the same calls build
without purging; when it passes, past `position_` and having seen only
earlier seqnos, its `depends_seqno` is not below the unpurged one and is
below its own seqno.  The trim of `append_trx` is a purge at a bound below
`position_ - max_length_` and the safe-to-discard seqno. -/
theorem purge_invisible_to_do_test (seqno : Int) (version : Nat) (hv : version = 3 ∨ version = 4)
    (maxLength maxLengthCheck : Int) (optimisticPa : Bool) (calls : List (CertCall S K))
    (trx : TrxHandle S K) (sk : Bool) :
    let c₀ : Certification S K :=
      Certification.init seqno version hv maxLength maxLengthCheck optimisticPa
    Admissible c₀ [] calls → (∀ b ∈ purgeBounds c₀ calls, b ≤ trx.lastSeenSeqno) →
      (doTest (runCalls c₀ calls) trx sk).1 = (doTest (runCallsUnpurged c₀ calls) trx sk).1 ∧
      ((runCalls c₀ calls).position < trx.globalSeqno → trx.lastSeenSeqno < trx.globalSeqno →
        (doTest (runCalls c₀ calls) trx sk).1 = .testOk →
        (doTest (runCallsUnpurged c₀ calls) trx sk).2.1.dependsSeqno ≤
            (doTest (runCalls c₀ calls) trx sk).2.1.dependsSeqno ∧
          (doTest (runCalls c₀ calls) trx sk).2.1.dependsSeqno < trx.globalSeqno) ∧
      (∀ (c : Certification S K) (t : TrxHandle S K), ∃ c₂,
        appendTrx c t = appendTrxUntrimmed c₂ t ∧
          (c₂ = c ∨ ∃ b, b ≤ t.globalSeqno - c.maxLength ∧ b ≤ getSafeToDiscardSeqno_ c ∧
            c₂ = purgeTrxsUpto_ { c with position := t.globalSeqno } b)) := by
  intro c₀ hcalls hT
  have hw := Twin.run calls (Twin.refl (certInv_init seqno version hv maxLength
    maxLengthCheck optimisticPa)) hcalls
  rw [List.nil_append] at hw
  have hpos := hw.fields.2.2.2.2.2
  have htest := hw.doTest trx sk hT
  refine ⟨htest.1, fun hp hls hok => ⟨htest.2 hok (hpos ▸ hp) hls,
    hw.invP.depends_lt_of_ok hp hls hok⟩, fun c t => ?_⟩
  cases hb : trimBound? c t with
  | none => exact ⟨c, by rw [appendTrx_eq_untrimmed, hb], Or.inl rfl⟩
  | some b =>
    exact ⟨_, by rw [appendTrx_eq_untrimmed, hb],
      Or.inr ⟨b, (trimBound?_le hb).1, (trimBound?_le hb).2, rfl⟩⟩

/-- A fresh object at seqno `0`, for write set version 4. -/
def exampleFresh : Certification Nat Nat :=
  Certification.init 0 4 Certification.version_four_ok 16384 127 true

/-- A trx of node `0` at seqno `2` with no keys, that has seen seqno `1`. -/
def exampleKeyless : TrxHandle Nat Nat :=
  { exampleWriter with globalSeqno := 2, lastSeenSeqno := 1, trxId := 2, keys := [] }

/-- `exampleWriter` and `exampleKeyless` appended and committed, then a purge
up to seqno `1`, which drops `exampleWriter`. -/
def examplePurgedRun : List (CertCall Nat Nat) :=
  [.append exampleWriter, .commit exampleWriter true, .append exampleKeyless,
    .commit exampleKeyless true, .purge 1]

/-- A trx of node `2` at seqno `4` that writes key `7` having seen seqno `1`. -/
def exampleNext : TrxHandle Nat Nat :=
  { exampleWriter with globalSeqno := 4, lastSeenSeqno := 1, sourceId := 2, trxId := 4 }

theorem purge_invisible_to_do_test_after_purge :
    Admissible exampleFresh [] examplePurgedRun ∧
      (∀ b ∈ purgeBounds exampleFresh examplePurgedRun, b ≤ exampleNext.lastSeenSeqno) ∧
      (doTest (runCalls exampleFresh examplePurgedRun) exampleNext true).1 =
        (doTest (runCallsUnpurged exampleFresh examplePurgedRun) exampleNext true).1 := by
  have hcalls : Admissible exampleFresh [] examplePurgedRun := by decide
  have hT : ∀ b ∈ purgeBounds exampleFresh examplePurgedRun, b ≤ exampleNext.lastSeenSeqno := by
    decide
  exact ⟨hcalls, hT,
    (purge_invisible_to_do_test 0 4 (Or.inr rfl) 16384 127 true examplePurgedRun exampleNext true
      hcalls hT).1⟩

/-- A trx of node `1` at seqno `3` that writes key `7` without having seen
seqno `1`: it passes once `exampleWriter` is purged, and fails against the
full index. -/
def exampleUnseen : TrxHandle Nat Nat :=
  { exampleWriter with globalSeqno := 3, lastSeenSeqno := 0, sourceId := 1, trxId := 3 }

/-- Without the bound on the appended trxs, a next trx that has seen every
purge bound and that `do_test` does not reject up front fails against the
purged object and passes against the unpurged one. -/
theorem purge_hides_unseen_writer :
    (∀ b ∈ purgeBounds exampleFresh (examplePurgedRun ++ [.append exampleUnseen]),
        b ≤ exampleNext.lastSeenSeqno) ∧
      exampleFresh.initialPosition ≤ exampleNext.lastSeenSeqno ∧
      exampleNext.globalSeqno - exampleNext.lastSeenSeqno ≤ exampleFresh.maxLength ∧
      (doTest (runCalls exampleFresh (examplePurgedRun ++ [.append exampleUnseen]))
        exampleNext true).1 = .testFailed ∧
      (doTest (runCallsUnpurged exampleFresh (examplePurgedRun ++ [.append exampleUnseen]))
        exampleNext true).1 = .testOk := by
  decide

end Galera.Cert
