/-
  Galera.Pc.Quorum
  ────────────────
  **THE QUORUM TEST OF THE PRIMARY COMPONENT PROTOCOL (`pc_proto.cpp`).**

  When EVS delivers a transitional view, `pc::Proto::handle_trans` keeps
  the node primary only if the members that stay with it, counted twice,
  and the members that left gracefully, counted once, outweigh the last
  primary view `pc_view_`; both counts are taken inside `pc_view_`:

    * `weightedSum`          — `weighted_sum`: the weights of a node list's
                               members, a member without an instance
                               counting 0;
    * `haveWeights`          — `have_weights`: no member has the weight -1
                               that a peer's state message without a
                               weight gives;
    * `nodeListIntersection` — `node_list_intersection`;
    * `Proto.haveQuorum`, `Proto.haveSplitBrain` — the two tests of
      `handle_trans`.  Both compare the same two sums (`Proto.quorumSides`),
      by weight when every node involved has one and by count otherwise.

  A `gcomm::NodeList` is a `std::map` keyed by UUID, and these tests read
  its keys only: the model keeps the keys, in increasing order, so that
  `std::set_intersection` of two lists is the filter of the first by the
  second.  `instances_` is read through `find`, and of a `pc::Node` only the
  weight is read.  `gcomm_assert` throws: the model returns `none`.

  Main result:
    * `primary_component_unique` — two transitional views whose members
      meet `pc_view_` disjointly, and neither of whose left sets holds a
      member of either, do not both have quorum: with weights in
      [0, 255], and with both tests in the counted fallback; and a split
      brain is never a quorum.
-/
import Mathlib
import Galera.Lib.Quorum

namespace Galera.Pc

open Galera.Quorum

variable {U : Type} [LinearOrder U]

/-! ## §1. Node lists, views and instances -/

/-- `gcomm::NodeList`: the UUIDs of a node list, strictly increasing as the
`std::map` keeps them. -/
structure NodeList (U : Type) [LinearOrder U] where
  keys : List U
  sorted : keys.Pairwise (· < ·)

/-- The parts of `gcomm::View` that the quorum tests read. -/
structure View (U : Type) [LinearOrder U] where
  members : NodeList U
  left : NodeList U

/-- The part of `pc::Node` that the quorum tests read. -/
structure Node where
  weight : Int
  deriving DecidableEq, Repr

/-- `pc::NodeMap`, read through `find`. -/
abbrev NodeMap (U : Type) := U → Option Node

/-- The fields of `pc::Proto` that the quorum tests read. -/
structure Proto (U : Type) [LinearOrder U] where
  instances : NodeMap U
  pcView : View U

/-! ## §2. The tests -/

/-- One iteration of `weighted_sum`'s loop. -/
def weightedSumStep (nodeMap : NodeMap U) (sum : Nat) (k : U) : Option Nat :=
  match nodeMap k with
  | some node =>
    -- gcomm_assert(node.weight() >= 0 && node.weight() <= 0xff)
    if 0 ≤ node.weight ∧ node.weight ≤ 0xff then some (sum + node.weight.toNat) else none
  | none => some sum

/-- `weighted_sum`. -/
def weightedSum (nodeList : NodeList U) (nodeMap : NodeMap U) : Option Nat :=
  nodeList.keys.foldlM (weightedSumStep nodeMap) 0

/-- `have_weights`. -/
def haveWeights (nodeList : NodeList U) (nodeMap : NodeMap U) : Bool :=
  nodeList.keys.all fun k =>
    match nodeMap k with
    | some node => node.weight != -1
    | none => true

/-- `node_list_intersection`: `std::set_intersection` of two key-sorted maps
keeps, in order, the entries of the first whose key the second has. -/
def nodeListIntersection (nl1 nl2 : NodeList U) : NodeList U where
  keys := nl1.keys.filter (· ∈ nl2.keys)
  sorted := nl1.sorted.filter _

/-- The condition both tests branch on. -/
def Proto.weighted (p : Proto U) (view pcView : View U) : Bool :=
  haveWeights view.members p.instances && haveWeights view.left p.instances &&
    haveWeights pcView.members p.instances

/-- The two sides that `have_quorum` and `have_split_brain` compare: the
members of `view` in `pcView` counted twice plus its left members in
`pcView`, and all of `pcView`. -/
def Proto.quorumSides (p : Proto U) (view pcView : View U) : Option (Nat × Nat) :=
  let membIntersection := nodeListIntersection view.members pcView.members
  let leftIntersection := nodeListIntersection view.left pcView.members
  if p.weighted view pcView then do
    let memb ← weightedSum membIntersection p.instances
    let left ← weightedSum leftIntersection p.instances
    let pc ← weightedSum pcView.members p.instances
    pure (memb * 2 + left, pc)
  else
    pure (membIntersection.keys.length * 2 + leftIntersection.keys.length,
      pcView.members.keys.length)

/-- `Proto::have_quorum`. -/
def Proto.haveQuorum (p : Proto U) (view pcView : View U) : Option Bool :=
  (p.quorumSides view pcView).map fun sides => decide (sides.1 > sides.2)

/-- `Proto::have_split_brain`: against `pc_view_`. -/
def Proto.haveSplitBrain (p : Proto U) (view : View U) : Option Bool :=
  (p.quorumSides view p.pcView).map fun sides => sides.1 == sides.2

/-! ## §3. The sums as weights of sets

Either branch of `quorumSides` adds up one weight per UUID over a node list:
the instance's weight, or one.  Over the list's keys, which are distinct,
that is a sum over a finite set. -/

/-- The weight `weighted_sum` adds for a UUID. -/
def weightOf (nodeMap : NodeMap U) (k : U) : Nat :=
  match nodeMap k with
  | some node => node.weight.toNat
  | none => 0

/-- The weight of a node list under a weight per UUID. -/
def NodeList.total (f : U → Nat) (nl : NodeList U) : Nat :=
  ∑ k ∈ nl.keys.toFinset, f k

/-- The weight per UUID that `quorumSides` adds up in its branch. -/
def Proto.branchWeight (p : Proto U) (view pcView : View U) : U → Nat :=
  if p.weighted view pcView then weightOf p.instances else fun _ => 1

theorem NodeList.nodup (nl : NodeList U) : nl.keys.Nodup :=
  nl.sorted.imp ne_of_lt

@[simp] theorem mem_nodeListIntersection {nl1 nl2 : NodeList U} {k : U} :
    k ∈ (nodeListIntersection nl1 nl2).keys ↔ k ∈ nl1.keys ∧ k ∈ nl2.keys := by
  simp [nodeListIntersection]

omit [LinearOrder U] in
theorem weightedSumStep_eq_some {nodeMap : NodeMap U} {acc s : Nat} {k : U}
    (h : weightedSumStep nodeMap acc k = some s) : s = acc + weightOf nodeMap k := by
  unfold weightedSumStep at h
  cases hk : nodeMap k with
  | none =>
    simp only [hk, Option.some.injEq] at h
    simp [weightOf, hk, h]
  | some node =>
    simp only [hk] at h
    split at h
    · cases h
      simp [weightOf, hk]
    · cases h

omit [LinearOrder U] in
/-- The loop of `weighted_sum`, from any running sum. -/
theorem foldlM_weightedSumStep_eq_some (nodeMap : NodeMap U) (ks : List U) {acc s : Nat}
    (h : ks.foldlM (weightedSumStep nodeMap) acc = some s) :
    s = acc + (ks.map (weightOf nodeMap)).sum := by
  induction ks generalizing acc with
  | nil => simpa using h.symm
  | cons k ks ih =>
    rw [List.foldlM_cons] at h
    obtain ⟨acc', hstep, hrest⟩ := Option.bind_eq_some_iff.mp h
    rw [ih hrest, weightedSumStep_eq_some hstep, List.map_cons, List.sum_cons]
    omega

theorem weightedSum_eq_some {nodeList : NodeList U} {nodeMap : NodeMap U} {s : Nat}
    (h : weightedSum nodeList nodeMap = some s) :
    s = nodeList.total (weightOf nodeMap) := by
  rw [foldlM_weightedSumStep_eq_some nodeMap nodeList.keys h, NodeList.total,
    List.sum_toFinset _ nodeList.nodup, Nat.zero_add]

theorem length_eq_total_one (nl : NodeList U) : nl.keys.length = nl.total fun _ => 1 := by
  rw [NodeList.total, ← Finset.card_eq_sum_ones, List.toFinset_card_of_nodup nl.nodup]

/-- What `quorumSides` compares, in either branch. -/
theorem quorumSides_eq_some {p : Proto U} {view pcView : View U} {sides : Nat × Nat}
    (h : p.quorumSides view pcView = some sides) :
    let w := p.branchWeight view pcView
    sides = ((nodeListIntersection view.members pcView.members).total w * 2 +
      (nodeListIntersection view.left pcView.members).total w, pcView.members.total w) := by
  intro w
  unfold Proto.quorumSides at h
  by_cases hw : p.weighted view pcView = true
  · have hbranch : w = weightOf p.instances := by simp [w, Proto.branchWeight, hw]
    rw [if_pos hw] at h
    simp only [Option.bind_eq_bind, Option.bind_eq_some_iff, Option.pure_def,
      Option.some.injEq] at h
    obtain ⟨memb, hmemb, left, hleft, pc, hpc, rfl⟩ := h
    rw [hbranch, weightedSum_eq_some hmemb, weightedSum_eq_some hleft, weightedSum_eq_some hpc]
  · have hbranch : w = fun _ => 1 := by simp [w, Proto.branchWeight, hw]
    rw [if_neg hw] at h
    cases h
    rw [hbranch, ← length_eq_total_one, ← length_eq_total_one, ← length_eq_total_one]

/-- Weights in [0, 255] are never the -1 of a missing weight. -/
theorem weighted_of_range {p : Proto U}
    (hw : ∀ k node, p.instances k = some node → 0 ≤ node.weight ∧ node.weight ≤ 0xff)
    (view pcView : View U) : p.weighted view pcView = true := by
  have hall : ∀ nl : NodeList U, haveWeights nl p.instances = true := by
    intro nl
    simp only [haveWeights, List.all_eq_true]
    intro k _
    cases hk : p.instances k with
    | none => rfl
    | some node =>
      have := hw k node hk
      simp only [bne_iff_ne, ne_eq]
      omega
  simp [Proto.weighted, hall]

/-! ## §4. Two sides of one primary view -/

section TwoSides

variable {P V₁ V₂ : View U}

/-- The counting core of both branches: under any one weight per UUID, two
views whose members meet `P` disjointly, neither of whose left sets holds a
member of either, do not both outweigh `P`. -/
theorem not_two_quorums (f : U → Nat)
    (hdisj : ∀ k ∈ P.members.keys, k ∈ V₁.members.keys → k ∉ V₂.members.keys)
    (hleft₁ : ∀ k ∈ V₁.left.keys, k ∉ V₁.members.keys ∧ k ∉ V₂.members.keys)
    (hleft₂ : ∀ k ∈ V₂.left.keys, k ∉ V₁.members.keys ∧ k ∉ V₂.members.keys)
    (h₁ : P.members.total f < (nodeListIntersection V₁.members P.members).total f * 2 +
      (nodeListIntersection V₁.left P.members).total f)
    (h₂ : P.members.total f < (nodeListIntersection V₂.members P.members).total f * 2 +
      (nodeListIntersection V₂.left P.members).total f) : False := by
  have hsub : ∀ nl : NodeList U,
      (nodeListIntersection nl P.members).keys.toFinset ⊆ P.members.keys.toFinset := by
    intro nl k hk
    simp only [List.mem_toFinset, mem_nodeListIntersection] at hk ⊢
    exact hk.2
  have hM : Disjoint (nodeListIntersection V₁.members P.members).keys.toFinset
      (nodeListIntersection V₂.members P.members).keys.toFinset := by
    rw [Finset.disjoint_left]
    intro k hk₁ hk₂
    simp only [List.mem_toFinset, mem_nodeListIntersection] at hk₁ hk₂
    exact hdisj k hk₁.2 hk₁.1 hk₂.1
  have hL : Disjoint ((nodeListIntersection V₁.members P.members).keys.toFinset ∪
        (nodeListIntersection V₂.members P.members).keys.toFinset)
      ((nodeListIntersection V₁.left P.members).keys.toFinset ∪
        (nodeListIntersection V₂.left P.members).keys.toFinset) := by
    rw [Finset.disjoint_left]
    intro k hkM hkL
    simp only [Finset.mem_union, List.mem_toFinset, mem_nodeListIntersection] at hkM hkL
    have hout : k ∉ V₁.members.keys ∧ k ∉ V₂.members.keys := by
      rcases hkL with hk | hk
      · exact hleft₁ k hk.1
      · exact hleft₂ k hk.1
    rcases hkM with hk | hk
    · exact hout.1 hk.1
    · exact hout.2 hk.1
  unfold NodeList.total at h₁ h₂
  exact not_two_majorities f (hsub _) (hsub _) (hsub _) (hsub _) hM hL (by omega) (by omega)

/-- Two views tested in the same branch do not both have quorum. -/
theorem not_two_quorums_of_branch {p : Proto U}
    (hdisj : ∀ k ∈ P.members.keys, k ∈ V₁.members.keys → k ∉ V₂.members.keys)
    (hleft₁ : ∀ k ∈ V₁.left.keys, k ∉ V₁.members.keys ∧ k ∉ V₂.members.keys)
    (hleft₂ : ∀ k ∈ V₂.left.keys, k ∉ V₁.members.keys ∧ k ∉ V₂.members.keys)
    (hbranch : p.weighted V₁ P = p.weighted V₂ P) :
    ¬(p.haveQuorum V₁ P = some true ∧ p.haveQuorum V₂ P = some true) := by
  rintro ⟨h₁, h₂⟩
  obtain ⟨sides₁, hs₁, hq₁⟩ := Option.map_eq_some_iff.mp h₁
  obtain ⟨sides₂, hs₂, hq₂⟩ := Option.map_eq_some_iff.mp h₂
  have hw : p.branchWeight V₂ P = p.branchWeight V₁ P := by
    simp only [Proto.branchWeight, hbranch]
  have e₁ := quorumSides_eq_some hs₁
  have e₂ := quorumSides_eq_some hs₂
  rw [hw] at e₂
  subst e₁ e₂
  simp only [decide_eq_true_eq] at hq₁ hq₂
  exact not_two_quorums _ hdisj hleft₁ hleft₂ hq₁ hq₂

end TwoSides

/-- **Primary component uniqueness.**  Two transitional views whose members
meet the primary view `P` disjointly, and neither of whose left sets holds a
member of either view, do not both have quorum against `P`: when every
instance's weight is in [0, 255], and when both tests fall back to counting.
And where `have_split_brain` holds, `have_quorum` against `pc_view_` fails. -/
theorem primary_component_unique (p : Proto U) {P V₁ V₂ : View U}
    (hdisj : ∀ k ∈ P.members.keys, k ∈ V₁.members.keys → k ∉ V₂.members.keys)
    (hleft₁ : ∀ k ∈ V₁.left.keys, k ∉ V₁.members.keys ∧ k ∉ V₂.members.keys)
    (hleft₂ : ∀ k ∈ V₂.left.keys, k ∉ V₁.members.keys ∧ k ∉ V₂.members.keys) :
    ((∀ k node, p.instances k = some node → 0 ≤ node.weight ∧ node.weight ≤ 0xff) →
      ¬(p.haveQuorum V₁ P = some true ∧ p.haveQuorum V₂ P = some true)) ∧
    (p.weighted V₁ P = false → p.weighted V₂ P = false →
      ¬(p.haveQuorum V₁ P = some true ∧ p.haveQuorum V₂ P = some true)) ∧
    ∀ V, p.haveSplitBrain V = some true → p.haveQuorum V p.pcView = some false := by
  refine ⟨fun hw => ?_, fun h₁ h₂ => ?_, fun V hsb => ?_⟩
  · -- in range, both tests weigh
    apply not_two_quorums_of_branch hdisj hleft₁ hleft₂
    rw [weighted_of_range hw, weighted_of_range hw]
  · exact not_two_quorums_of_branch hdisj hleft₁ hleft₂ (h₁.trans h₂.symm)
  · -- both tests compare the same two sides
    obtain ⟨sides, hs, heq⟩ := Option.map_eq_some_iff.mp hsb
    simp only [beq_iff_eq] at heq
    simp [Proto.haveQuorum, hs, heq]

/-- Three members of weights 3, 1 and 1; the first alone stays on one side,
the other two on the other. -/
def splitProto : Proto Nat where
  instances k := some ⟨if k = 1 then 3 else 1⟩
  pcView := ⟨⟨[1, 2, 3], by decide⟩, ⟨[], by decide⟩⟩

theorem primary_component_unique_split :
    let V₁ : View Nat := ⟨⟨[1], by decide⟩, ⟨[], by decide⟩⟩
    let V₂ : View Nat := ⟨⟨[2, 3], by decide⟩, ⟨[], by decide⟩⟩
    (∀ k ∈ splitProto.pcView.members.keys, k ∈ V₁.members.keys → k ∉ V₂.members.keys) ∧
    (∀ k node, splitProto.instances k = some node → 0 ≤ node.weight ∧ node.weight ≤ 0xff) ∧
    splitProto.haveQuorum V₁ splitProto.pcView = some true ∧
    ¬(splitProto.haveQuorum V₁ splitProto.pcView = some true ∧
      splitProto.haveQuorum V₂ splitProto.pcView = some true) := by
  intro V₁ V₂
  have hw : ∀ k node, splitProto.instances k = some node →
      0 ≤ node.weight ∧ node.weight ≤ 0xff := by
    intro k node h
    cases h
    split <;> decide
  exact ⟨by decide, hw, by decide,
    (@primary_component_unique Nat _ splitProto splitProto.pcView V₁ V₂
      (by decide) (by decide) (by decide)).1 hw⟩

end Galera.Pc
