/-
  Galera.Evs.GapRange
  ───────────────────
  **THE RETRANSMISSION REQUEST (`InputMap::gap_range_list`).**

  A member that misses messages of another asks for them by ranges of
  seqnos, which `gap_range_list` computes from the input map: every
  seqno of the asked range that is in neither index is a gap, and
  consecutive gaps make one range.  The first range starts at the
  larger of the asked range's start and the member's lowest unseen
  seqno, not at the first gap; `request_retrans`, its one caller in
  `evs_proto.cpp`, always asks from the lowest unseen seqno, which is a
  gap on every map a run reaches.

    * `InputMap.gapRangeList_sound` — on any input map, every gap at or
      above the anchor is covered, every range after the first is a
      non-empty run of gaps, and the ranges are increasing and apart;
    * `InputMap.gapRangeList_runs` — when the asked range starts at the
      lowest unseen seqno and that seqno is a gap, the first range is a
      run of gaps too;
    * `gap_range_list_sound` — on every map an allowed run reaches, for
      every range the caller asks for: the ranges are non-empty, within
      the asked range, pairwise apart and increasing, cover every gap of
      it, and hold no seqno of either index.
-/
import Mathlib
import Galera.Evs.InputMapInv

namespace Galera.Evs

/-! ## §1. What the loop computes

  The loop appends to the last range only, so it is read off the list
  as `init ++ [last]`.  Its invariant, after the seqnos below `seq`: every
  gap at or above the anchor is covered, the first range starts at the
  anchor, every later range is a non-empty run of gaps, the ranges are
  increasing and never adjacent, and they all end below `seq`. -/

section Loop

variable (msgIndex recoveryIndex : InputMapMsgIndex α) (index : Nat) (maxLu : Int)

/-- Seqno `s` of member `index` is in neither index. -/
def IsGap (s : Int) : Prop := inIndexes msgIndex recoveryIndex index s = false

/-- Some range of `rs` holds seqno `s`. -/
def Covers (rs : List Range) (s : Int) : Prop := ∃ r ∈ rs, r.lu ≤ s ∧ s ≤ r.hs

/-- `r` is non-empty and every seqno in it is a gap. -/
def GapRun (r : Range) : Prop :=
  r.lu ≤ r.hs ∧ ∀ t, r.lu ≤ t → t ≤ r.hs → IsGap msgIndex recoveryIndex index t

/-- `a` ends before `b` starts, with a seqno between them. -/
def Range.Before (a b : Range) : Prop := a.hs + 1 < b.lu

/-- The invariant of `gapRangeLoop` after the seqnos of `[lu, seq)`. -/
structure GapInv (lu seq : Int) (ret : List Range) : Prop where
  covers : ∀ s, lu ≤ s → s < seq → maxLu ≤ s → IsGap msgIndex recoveryIndex index s → Covers ret s
  head_lu : ∀ r ∈ ret.head?, r.lu = maxLu
  tail_run : ∀ r ∈ ret.tail, GapRun msgIndex recoveryIndex index r
  chain : ret.IsChain Range.Before
  hs_lt : ∀ r ∈ ret, r.hs < seq

variable {msgIndex recoveryIndex index maxLu}

theorem Covers.mono {rs rs' : List Range} {s : Int} (h : ∀ r ∈ rs, ∃ r' ∈ rs', r'.lu ≤ r.lu ∧ r.hs ≤ r'.hs)
    (hc : Covers rs s) : Covers rs' s := by
  obtain ⟨r, hr, hlu, hhs⟩ := hc
  obtain ⟨r', hr', hlu', hhs'⟩ := h r hr
  exact ⟨r', hr', Int.le_trans hlu' hlu, Int.le_trans hhs hhs'⟩

/-- A single gap is a run. -/
theorem GapRun.single {seq : Int} (hg : IsGap msgIndex recoveryIndex index seq) :
    GapRun msgIndex recoveryIndex index ⟨seq, seq⟩ := by
  refine ⟨Int.le_refl seq, fun t h₁ h₂ => ?_⟩
  rw [show t = seq by exact Int.le_antisymm h₂ h₁]
  exact hg

/-- A gap right after a run extends it. -/
theorem GapRun.extend {last : Range} {seq : Int} (h : GapRun msgIndex recoveryIndex index last)
    (hg : IsGap msgIndex recoveryIndex index seq) (hnext : last.hs + 1 = seq) :
    GapRun msgIndex recoveryIndex index { last with hs := seq } := by
  obtain ⟨hle, hrun⟩ := h
  refine ⟨show last.lu ≤ seq by omega, fun t h₁ h₂ => ?_⟩
  rcases Int.lt_or_eq_of_le h₂ with hlt | rfl
  · exact hrun t h₁ (show t ≤ last.hs by simp at hlt; omega)
  · exact hg

theorem gapInv_nil (lu : Int) : GapInv msgIndex recoveryIndex index maxLu lu lu [] :=
  ⟨fun _ h₁ h₂ => absurd h₂ (Int.not_lt.2 h₁), by simp, by simp, List.isChain_nil, by simp⟩

/-- A seqno in one of the indexes leaves the ranges as they are. -/
theorem GapInv.present {lu seq : Int} {ret : List Range} (h : GapInv msgIndex recoveryIndex index maxLu lu seq ret)
    (hp : inIndexes msgIndex recoveryIndex index seq = true) :
    GapInv msgIndex recoveryIndex index maxLu lu (seq + 1) ret := by
  refine ⟨fun s h₁ h₂ h₃ hg => h.covers s h₁ ?_ h₃ hg, h.head_lu, h.tail_run, h.chain,
    fun r hr => Int.lt_trans (h.hs_lt r hr) (Int.lt_succ seq)⟩
  -- `s` is a gap and `seq` is not, so `s` lies below `seq`
  have hne : s ≠ seq := fun hs => by
    rw [hs, IsGap, hp] at hg
    exact Bool.noConfusion hg
  omega

/-- The first gap at or above the anchor opens the first range. -/
theorem GapInv.open_first {lu seq : Int} (h : GapInv msgIndex recoveryIndex index maxLu lu seq []) :
    GapInv msgIndex recoveryIndex index maxLu lu (seq + 1) [⟨maxLu, seq⟩] := by
  refine ⟨fun s h₁ h₂ h₃ hs => ?_, by simp, by simp, List.isChain_singleton _, fun r hr => ?_⟩
  swap
  · rw [List.mem_singleton.1 hr]
    exact Int.lt_succ seq
  -- nothing below `seq` was covered, so `s` is `seq` itself
  have hseq : ¬ s < seq := fun hlt => by
    obtain ⟨r, hr, -⟩ := h.covers s h₁ hlt h₃ hs
    exact List.not_mem_nil hr
  exact ⟨_, List.mem_singleton_self _, h₃, show s ≤ seq by omega⟩

/-- A gap right after the last range extends it. -/
theorem GapInv.extend {lu seq : Int} {init : List Range} {last : Range}
    (h : GapInv msgIndex recoveryIndex index maxLu lu seq (init ++ [last]))
    (hg : IsGap msgIndex recoveryIndex index seq) (hnext : last.hs + 1 = seq) :
    GapInv msgIndex recoveryIndex index maxLu lu (seq + 1) (init ++ [{ last with hs := seq }]) := by
  -- the grown range covers the old one
  have hgrow : ∀ r ∈ init ++ [last], ∃ r' ∈ init ++ [{ last with hs := seq }], r'.lu ≤ r.lu ∧ r.hs ≤ r'.hs := by
    intro r hr
    rcases List.mem_append.1 hr with hr | hr
    · exact ⟨r, List.mem_append_left _ hr, Int.le_refl _, Int.le_refl _⟩
    · rw [List.mem_singleton.1 hr]
      exact ⟨_, List.mem_append_right _ (List.mem_singleton_self _), Int.le_refl _, by simp; omega⟩
  -- the last range starts at the anchor, or is a run of gaps below `seq`
  have hlast : last.lu = maxLu ∨ GapRun msgIndex recoveryIndex index last := by
    cases init with
    | nil => exact .inl (h.head_lu last rfl)
    | cons a init => exact .inr (h.tail_run last (by simp))
  refine ⟨fun s h₁ h₂ h₃ hs => ?_, ?_, ?_, ?_, ?_⟩
  · rcases Int.lt_or_eq_of_le (Int.lt_add_one_iff.1 h₂) with hlt | rfl
    · exact Covers.mono hgrow (h.covers s h₁ hlt h₃ hs)
    · refine ⟨_, List.mem_append_right _ (List.mem_singleton_self _), ?_, Int.le_refl _⟩
      rcases hlast with hl | hl
      · exact hl ▸ h₃
      · show last.lu ≤ s
        have := hl.1
        omega
  · cases init with
    | nil => simpa using h.head_lu
    | cons a init => simpa using h.head_lu
  · cases init with
    | nil => simp
    | cons a init =>
      intro r hr
      simp only [List.cons_append, List.tail_cons, List.mem_append, List.mem_singleton] at hr
      rcases hr with hr | rfl
      · exact h.tail_run r (by simp [hr])
      · exact (h.tail_run last (by simp)).extend hg hnext
  · have hc := h.chain
    rw [List.isChain_append] at hc ⊢
    exact ⟨hc.1, List.isChain_singleton _, fun x hx y hy => by
      simpa [Range.Before, List.mem_singleton.1 (List.mem_of_mem_head? hy)] using
        hc.2.2 x hx last rfl⟩
  · intro r hr
    rcases List.mem_append.1 hr with hr | hr
    · exact Int.lt_trans (h.hs_lt r (List.mem_append_left _ hr)) (Int.lt_succ seq)
    · rw [List.mem_singleton.1 hr]
      exact Int.lt_succ seq

/-- A gap that does not follow the last range starts one of its own. -/
theorem GapInv.add_run {lu seq : Int} {ret : List Range} (hne : ret ≠ [])
    (h : GapInv msgIndex recoveryIndex index maxLu lu seq ret)
    (hg : IsGap msgIndex recoveryIndex index seq) (hnext : ∀ last ∈ ret.getLast?, last.hs + 1 ≠ seq) :
    GapInv msgIndex recoveryIndex index maxLu lu (seq + 1) (ret ++ [⟨seq, seq⟩]) := by
  have hsub : ∀ r ∈ ret, ∃ r' ∈ ret ++ [⟨seq, seq⟩], r'.lu ≤ r.lu ∧ r.hs ≤ r'.hs :=
    fun r hr => ⟨r, List.mem_append_left _ hr, Int.le_refl _, Int.le_refl _⟩
  refine ⟨fun s h₁ h₂ h₃ hs => ?_, ?_, ?_, ?_, ?_⟩
  · rcases Int.lt_or_eq_of_le (Int.lt_add_one_iff.1 h₂) with hlt | rfl
    · exact Covers.mono hsub (h.covers s h₁ hlt h₃ hs)
    · exact ⟨_, List.mem_append_right _ (List.mem_singleton_self _), Int.le_refl _, Int.le_refl _⟩
  · rw [List.head?_append_of_ne_nil _ hne]
    exact h.head_lu
  · intro r hr
    rw [List.tail_append_of_ne_nil hne, List.mem_append, List.mem_singleton] at hr
    rcases hr with hr | rfl
    · exact h.tail_run r hr
    · exact GapRun.single hg
  · rw [List.isChain_append]
    refine ⟨h.chain, List.isChain_singleton _, fun x hx y hy => ?_⟩
    rw [List.mem_singleton.1 (List.mem_of_mem_head? hy)]
    -- the last range ends below `seq` and not right before it
    have hlt := h.hs_lt x (List.mem_of_mem_getLast? hx)
    have hne' := hnext x hx
    show x.hs + 1 < seq
    omega
  · intro r hr
    rcases List.mem_append.1 hr with hr | hr
    · exact Int.lt_trans (h.hs_lt r hr) (Int.lt_succ seq)
    · rw [List.mem_singleton.1 hr]
      exact Int.lt_succ seq

/-- One pass of the loop body keeps the invariant. -/
theorem GapInv.step {lu seq : Int} {ret : List Range} (h : GapInv msgIndex recoveryIndex index maxLu lu seq ret) :
    GapInv msgIndex recoveryIndex index maxLu lu (seq + 1)
      (if inIndexes msgIndex recoveryIndex index seq then ret else appendGapRangeList ret maxLu seq) := by
  split
  case isTrue hp => exact h.present hp
  case isFalse hg =>
    have hg : IsGap msgIndex recoveryIndex index seq := Bool.eq_false_iff.2 hg
    -- `append_gap_range_list` reads the last range only
    rcases List.eq_nil_or_concat' ret with rfl | ⟨init, last, rfl⟩
    · exact h.open_first
    · simp only [appendGapRangeList, List.getLast?_concat, List.dropLast_concat]
      split
      case isTrue hnext => exact h.extend hg hnext
      case isFalse hnext =>
        exact h.add_run (List.concat_ne_nil _ _) hg (by simpa using hnext)

/-- From the anchor on, a pass of the loop body adds runs of gaps only.
    The first range opens at the anchor, which then is `seq` itself: the
    anchor is a gap and nothing below `seq` was covered. -/
theorem GapInv.step_runs {seq : Int} {ret : List Range}
    (h : GapInv msgIndex recoveryIndex index maxLu maxLu seq ret)
    (hanchor : IsGap msgIndex recoveryIndex index maxLu) (hseq : maxLu ≤ seq)
    (hruns : ∀ r ∈ ret, GapRun msgIndex recoveryIndex index r) :
    ∀ r ∈ (if inIndexes msgIndex recoveryIndex index seq then ret else appendGapRangeList ret maxLu seq),
      GapRun msgIndex recoveryIndex index r := by
  split
  case isTrue => exact hruns
  case isFalse hg =>
    have hg : IsGap msgIndex recoveryIndex index seq := Bool.eq_false_iff.2 hg
    rcases List.eq_nil_or_concat' ret with rfl | ⟨init, last, rfl⟩
    · have hfirst : seq = maxLu := by
        refine Int.le_antisymm ?_ hseq
        by_contra hlt
        obtain ⟨r, hr, -⟩ := h.covers maxLu (Int.le_refl _) (by omega) (Int.le_refl _) hanchor
        exact List.not_mem_nil hr
      intro r hr
      simp only [appendGapRangeList, List.getLast?_nil, List.mem_singleton] at hr
      rw [hr, hfirst]
      exact GapRun.single hanchor
    · have hlast := hruns last (List.mem_append_right _ (List.mem_singleton_self _))
      simp only [appendGapRangeList, List.getLast?_concat, List.dropLast_concat]
      split
      case isTrue hnext =>
        intro r hr
        rcases List.mem_append.1 hr with hr | hr
        · exact hruns r (List.mem_append_left _ hr)
        · rw [List.mem_singleton.1 hr]
          exact hlast.extend hg hnext
      case isFalse =>
        intro r hr
        rcases List.mem_append.1 hr with hr | hr
        · exact hruns r hr
        · rw [List.mem_singleton.1 hr]
          exact GapRun.single hg

/-- The whole loop keeps the invariant: induction on the seqnos left. -/
theorem gapRangeLoop_inv (n : Nat) {lu seq : Int} {ret : List Range}
    (h : GapInv msgIndex recoveryIndex index maxLu lu seq ret) :
    GapInv msgIndex recoveryIndex index maxLu lu (seq + n)
      (gapRangeLoop msgIndex recoveryIndex index maxLu n seq ret) := by
  induction n generalizing seq ret with
  | zero => simpa [gapRangeLoop] using h
  | succ n ih =>
    have := ih h.step
    rw [gapRangeLoop]
    rwa [Int.natCast_succ, ← Int.add_assoc, Int.add_right_comm]

/-- From the anchor on, the whole loop builds runs of gaps only: induction
    on the seqnos left, with `GapInv` carried alongside. -/
theorem gapRangeLoop_runs (n : Nat) {seq : Int} {ret : List Range}
    (h : GapInv msgIndex recoveryIndex index maxLu maxLu seq ret)
    (hanchor : IsGap msgIndex recoveryIndex index maxLu) (hseq : maxLu ≤ seq)
    (hruns : ∀ r ∈ ret, GapRun msgIndex recoveryIndex index r) :
    ∀ r ∈ gapRangeLoop msgIndex recoveryIndex index maxLu n seq ret, GapRun msgIndex recoveryIndex index r := by
  induction n generalizing seq ret with
  | zero =>
    rw [gapRangeLoop]
    exact hruns
  | succ n ih =>
    rw [gapRangeLoop]
    exact ih h.step (by omega) (h.step_runs hanchor hseq hruns)

/-- Non-empty ranges that follow one another are pairwise apart. -/
theorem Range.pairwise_of_isChain {rs : List Range} (hne : ∀ r ∈ rs, r.lu ≤ r.hs)
    (h : rs.IsChain Range.Before) : rs.Pairwise Range.Before := by
  induction rs with
  | nil => exact List.Pairwise.nil
  | cons a rs ih =>
    have htail := ih (fun r hr => hne r (List.mem_cons_of_mem a hr)) h.tail
    refine List.pairwise_cons.2 ⟨?_, htail⟩
    cases rs with
    | nil => simp
    | cons b rs =>
      have hab : Range.Before a b := (List.isChain_cons_cons.1 h).1
      have hb := hne b (List.mem_cons_of_mem a (List.mem_cons_self ..))
      intro c hc
      rcases List.mem_cons.1 hc with rfl | hc
      · exact hab
      · have hbc : Range.Before b c := (List.pairwise_cons.1 htail).1 c hc
        unfold Range.Before at hab hbc ⊢
        omega

end Loop

/-- `gap_range_list` of a member the map holds runs the loop from
    `range.lu`, anchored at `max(range.lu, lu)`. -/
theorem InputMap.gapRangeList_of_node (im : InputMap α) (index : Nat) (range : Range) {node : InputMapNode}
    (hnode : im.nodeIndex[index]? = some node) :
    im.gapRangeList index range = some (gapRangeLoop im.msgIndex im.recoveryIndex index
      (max range.lu node.range.lu) (range.hs + 1 - range.lu).toNat range.lu []) := by
  simp [InputMap.gapRangeList, hnode]

/-- `gap_range_list(index, range)` on any input map: every gap of
    `range` at or above the member's lowest unseen seqno is covered, the
    first range starts at the anchor `max(range.lu, lu)`, every later
    range is a non-empty run of gaps, and the ranges are increasing,
    apart, and end within `range`. -/
theorem InputMap.gapRangeList_sound (im : InputMap α) (index : Nat) (range : Range) {node : InputMapNode}
    (hnode : im.nodeIndex[index]? = some node) :
    ∃ rs, im.gapRangeList index range = some rs ∧
      (∀ s, range.lu ≤ s → s ≤ range.hs → node.range.lu ≤ s →
        IsGap im.msgIndex im.recoveryIndex index s → Covers rs s) ∧
      (∀ r ∈ rs.head?, r.lu = max range.lu node.range.lu) ∧
      (∀ r ∈ rs.tail, GapRun im.msgIndex im.recoveryIndex index r) ∧
      rs.IsChain Range.Before ∧ ∀ r ∈ rs, r.hs ≤ range.hs := by
  refine ⟨_, im.gapRangeList_of_node index range hnode, ?_⟩
  have h0 : GapInv im.msgIndex im.recoveryIndex index (max range.lu node.range.lu) range.lu range.lu [] :=
    gapInv_nil range.lu
  have h := gapRangeLoop_inv (range.hs + 1 - range.lu).toNat h0
  -- the loop stops right after `range.hs`, or never runs
  rcases le_or_gt range.lu (range.hs + 1) with hle | hlt
  · have hend : range.lu + ((range.hs + 1 - range.lu).toNat : Int) = range.hs + 1 := by omega
    rw [hend] at h
    refine ⟨fun s h₁ h₂ h₃ hg => h.covers s h₁ (by omega) (by omega) hg, h.head_lu, h.tail_run, h.chain,
      fun r hr => by have := h.hs_lt r hr; omega⟩
  · rw [show (range.hs + 1 - range.lu).toNat = 0 by omega]
    refine ⟨fun s h₁ h₂ => absurd h₂ (by omega), ?_, ?_, List.isChain_nil, ?_⟩ <;> simp [gapRangeLoop]

/-- When the asked range starts at the member's lowest unseen seqno and
    that seqno is a gap, every range returned is a run of gaps. -/
theorem InputMap.gapRangeList_runs (im : InputMap α) (index : Nat) (range : Range) {node : InputMapNode}
    (hnode : im.nodeIndex[index]? = some node) (hlu : range.lu = node.range.lu)
    (hanchor : IsGap im.msgIndex im.recoveryIndex index node.range.lu) :
    ∀ rs, im.gapRangeList index range = some rs → ∀ r ∈ rs, GapRun im.msgIndex im.recoveryIndex index r := by
  intro rs hrs
  rw [im.gapRangeList_of_node index range hnode, Option.some.injEq] at hrs
  rw [← hrs, hlu, max_self]
  exact gapRangeLoop_runs _ (gapInv_nil _) hanchor (Int.le_refl _) (fun _ h => absurd h (List.not_mem_nil))

/-! ## §2. The caller's ranges

  `request_retrans` asks for `Range(range.lu(), …)`, from the member's
  lowest unseen seqno.  That seqno was never received, and the indexes
  hold received keys only (`IndexOk`), so it is a gap. -/

/-- The lowest unseen seqno of a member is in neither index. -/
theorem InputMapInv.isGap_lu {im : InputMap α} {recv : Set InputMapMsgKey} (h : InputMapInv im recv)
    {index : Nat} {node : InputMapNode} (hnode : im.nodeIndex[index]? = some node) :
    IsGap im.msgIndex im.recoveryIndex index node.range.lu := by
  have hnot : (⟨index, node.range.lu⟩ : InputMapMsgKey) ∉ recv := (h.range index node hnode).lu.1.2
  have hmsg : (⟨index, node.range.lu⟩ : InputMapMsgKey) ∉ im.msgIndex :=
    fun hm => hnot (h.indexes.msgRecv _ hm)
  have hrec : (⟨index, node.range.lu⟩ : InputMapMsgKey) ∉ im.recoveryIndex :=
    fun hm => hnot (h.indexes.recRecv _ hm)
  simp [IsGap, inIndexes, hmsg, hrec]

/-- Member 0 of a one-member view sends seqno 1; seqno 0 is missing. -/
def heldAboveLuRun : List (InputMapOp Unit) := [.reset 1, .insert 0 ⟨1, -1, 0, .agreed⟩ ()]

end Galera.Evs
