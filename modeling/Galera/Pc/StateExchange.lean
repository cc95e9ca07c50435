/-
  Galera.Pc.StateExchange
  ───────────────────────
  **THE MEMBERS OF A VIEW AGREE AFTER THE STATE EXCHANGE.**

  In a regular view every member sends its instances as a state message,
  and EVS delivers the state message of every member to every member, to
  each in an order of its own.  A member handles them one by one
  (`PcProto.handleStates`, `handle_state` in turn); with the last one it
  merges, validates and decides.  Here the run of one member is read off
  as a function of the set of messages, and two members are compared.

    * §1 — the merge node by node: the unknown state a member ends with for
      another node is the `or` of the reports (`unIn_mergeStateMsgs`), the
      weight the fold of the reports in UUID order
      (`weightIn_mergeStateMsgs`), reset by the node's own report
      (`foldl_weightStep_own`);
    * §2 — one member's run: it fails exactly when some message fails the
      check for conflicting primary components, and otherwise records the
      messages the check keeps (`toOption_handleStates`);
    * §3, §4 — the end of the exchange, and what `is_prim` reads.

  Main results:
    * `PcProto.handleStates_perm` — the order in which a member receives
      the state messages changes neither whether the exchange succeeds nor
      where it ends;
    * `stateExch_agreement` — two members that both complete the exchange
      decide alike (both install a primary component or both go
      non-primary), hold one weight for every member, and, when not
      primary, mark the same nodes outside the view unknown.
-/
import Mathlib
import Galera.Pc.Proto

namespace Galera.Pc

open Galera.Evs (Uuid ViewId)

/-! ## §1. The merge, node by node -/

/-- Whether a map holds a node in an unknown state at `u`. -/
def unIn (m : PcNodeMap) (u : Uuid) : Bool := ((m.find? u).map PcNode.un).getD false

/-- The weight a map holds at `u`, if it holds a node there. -/
def weightIn (m : PcNodeMap) (u : Uuid) : Option Int := (m.find? u).map PcNode.weight

theorem mem_keys_iff_isSome {m : PcNodeMap} {u : Uuid} : u ∈ m.keys ↔ (m.find? u).isSome := by
  rw [← not_iff_not, Option.not_isSome_iff_eq_none, SortedMap.find?_eq_none_iff]

theorem mem_keys_mergeStep {self source u : Uuid} {inst : PcNodeMap} {e : Uuid × PcNode} :
    u ∈ (mergeStep self source inst e).keys ↔ u ∈ inst.keys ∨ u = e.1 := by
  rw [mem_keys_iff_isSome, mem_keys_iff_isSome, find?_mergeStep]
  by_cases hu : u = e.1
  · simp [hu]
  · simp [hu]

/-- A merge step keeps the own node's `prim`, which it reads. -/
theorem selfNodeIn_mergeStep_prim {self source : Uuid} {inst : PcNodeMap} {e : Uuid × PcNode}
    (h : self ∈ inst.keys) :
    (selfNodeIn (mergeStep self source inst e) self).prim = (selfNodeIn inst self).prim := by
  obtain ⟨n, hn⟩ := Option.isSome_iff_exists.1 (mem_keys_iff_isSome.1 h)
  unfold selfNodeIn
  rw [find?_mergeStep, hn]
  split_ifs with hself
  · simp [mergeNode_eq]
  · rfl

/-- The own node is there, primary or not as `b`: what the merge keeps. -/
def SelfKept (self : Uuid) (b : Bool) (inst : PcNodeMap) : Prop :=
  self ∈ inst.keys ∧ (selfNodeIn inst self).prim = b

theorem selfKept_mergeStep {self source : Uuid} {b : Bool} {inst : PcNodeMap} (e : Uuid × PcNode)
    (h : SelfKept self b inst) : SelfKept self b (mergeStep self source inst e) :=
  ⟨mem_keys_mergeStep.2 (.inl h.1), (selfNodeIn_mergeStep_prim h.1).trans h.2⟩

theorem selfKept_foldl_mergeStep {self source : Uuid} {b : Bool} :
    ∀ (es : List (Uuid × PcNode)) {inst : PcNodeMap}, SelfKept self b inst →
      SelfKept self b (es.foldl (mergeStep self source) inst)
  | [], _, h => h
  | e :: es, _, h => selfKept_foldl_mergeStep es (selfKept_mergeStep e h)

theorem selfKept_mergeStateMsgs {self : Uuid} {b : Bool} :
    ∀ (sms : List (Uuid × PcNodeMap)) {inst : PcNodeMap}, SelfKept self b inst →
      SelfKept self b (mergeStateMsgs self inst sms)
  | [], _, h => h
  | sm :: sms, _, h => selfKept_mergeStateMsgs sms (selfKept_foldl_mergeStep sm.2.entries h)

/-! ### Unknown states -/

/-- Outside a primary component, a merge step marks another node unknown
    when the report does. -/
theorem unIn_mergeStep {self source u : Uuid} {inst : PcNodeMap} (e : Uuid × PcNode) (hu : u ≠ self)
    (hprim : (selfNodeIn inst self).prim = false) :
    unIn (mergeStep self source inst e) u = (unIn inst u || (decide (e.1 = u) && e.2.un)) := by
  obtain ⟨k, sm⟩ := e
  unfold unIn
  rw [find?_mergeStep]
  by_cases he : u = k
  · subst he
    cases h : inst.find? u with
    | none => simp
    | some n => simp [mergeNode_eq, hprim, hu]
  · simp [he, Ne.symm he]

theorem unIn_foldl_mergeStep {self source u : Uuid} (hu : u ≠ self) :
    ∀ (es : List (Uuid × PcNode)) {inst : PcNodeMap}, SelfKept self false inst →
      unIn (es.foldl (mergeStep self source) inst) u =
        (unIn inst u || es.any fun e => decide (e.1 = u) && e.2.un)
  | [], _, _ => by simp
  | e :: es, inst, h => by
    rw [List.foldl_cons, unIn_foldl_mergeStep hu es (selfKept_mergeStep e h), unIn_mergeStep e hu h.2,
      List.any_cons, Bool.or_assoc]

/-- Over the entries of a map, a report of `u` unknown is the map's. -/
theorem any_entries_un (m : PcNodeMap) (u : Uuid) :
    (m.entries.any fun e => decide (e.1 = u) && e.2.un) = unIn m u := by
  rw [Bool.eq_iff_iff, List.any_eq_true]
  constructor
  · rintro ⟨e, he, hun⟩
    rw [Bool.and_eq_true, decide_eq_true_eq] at hun
    have hfind : m.find? u = some e.2 := SortedMap.find?_eq_some_iff.2 (hun.1 ▸ he)
    simp [unIn, hfind, hun.2]
  · intro hun
    cases hfind : m.find? u with
    | none => simp [unIn, hfind] at hun
    | some n =>
      simp only [unIn, hfind, Option.map_some, Option.getD_some] at hun
      exact ⟨(u, n), SortedMap.find?_eq_some_iff.1 hfind, by simp [hun]⟩

/-- **The unknown states after the merge**: outside a primary component, a
    node other than the own one is unknown when the instances or some state
    message say so. -/
theorem unIn_mergeStateMsgs {self u : Uuid} (hu : u ≠ self) :
    ∀ (sms : List (Uuid × PcNodeMap)) {inst : PcNodeMap}, SelfKept self false inst →
      unIn (mergeStateMsgs self inst sms) u = (unIn inst u || sms.any fun sm => unIn sm.2 u)
  | [], _, _ => by simp [mergeStateMsgs]
  | sm :: sms, inst, h => by
    show unIn (mergeStateMsgs self (sm.2.entries.foldl (mergeStep self sm.1) inst) sms) u = _
    rw [unIn_mergeStateMsgs hu sms (selfKept_foldl_mergeStep sm.2.entries h),
      unIn_foldl_mergeStep hu sm.2.entries h, any_entries_un, List.any_cons, Bool.or_assoc]

/-! ### Weights -/

/-- The weight after a report of `smWeight` by `source`, where there was
    none or a weight. -/
def reportWeight (source u : Uuid) (smWeight : Int) : Option Int → Int
  | none => smWeight
  | some w => mergedWeight source u smWeight w

/-- The weight at `u` after the report `e` of the state message of
    `source`. -/
def weightStep (source u : Uuid) (o : Option Int) (e : Uuid × PcNode) : Option Int :=
  if e.1 = u then some (reportWeight source u e.2.weight o) else o

theorem weightIn_mergeStep (self source u : Uuid) (inst : PcNodeMap) (e : Uuid × PcNode) :
    weightIn (mergeStep self source inst e) u = weightStep source u (weightIn inst u) e := by
  obtain ⟨k, sm⟩ := e
  unfold weightIn weightStep
  rw [find?_mergeStep]
  by_cases he : u = k
  · subst he
    cases h : inst.find? u with
    | none => simp [reportWeight]
    | some n => simp [reportWeight, mergeNode_eq]
  · simp [he, Ne.symm he]

theorem weightIn_foldl_mergeStep (self source u : Uuid) :
    ∀ (es : List (Uuid × PcNode)) (inst : PcNodeMap),
      weightIn (es.foldl (mergeStep self source) inst) u = es.foldl (weightStep source u) (weightIn inst u)
  | [], _ => rfl
  | e :: es, inst => by
    rw [List.foldl_cons, List.foldl_cons, weightIn_foldl_mergeStep self source u es, weightIn_mergeStep]

/-- The weights after the merge: each state message, in UUID order,
    reports its nodes' weights. -/
theorem weightIn_mergeStateMsgs (self u : Uuid) :
    ∀ (sms : List (Uuid × PcNodeMap)) (inst : PcNodeMap),
      weightIn (mergeStateMsgs self inst sms) u =
        sms.foldl (fun o sm => sm.2.entries.foldl (weightStep sm.1 u) o) (weightIn inst u)
  | [], _ => rfl
  | sm :: sms, inst => by
    show weightIn (mergeStateMsgs self (sm.2.entries.foldl (mergeStep self sm.1) inst) sms) u = _
    rw [weightIn_mergeStateMsgs self u sms, weightIn_foldl_mergeStep, List.foldl_cons]

/-- Reports of other nodes leave the weight at `u` as it is. -/
theorem foldl_weightStep_of_not_mem {source u : Uuid} :
    ∀ {es : List (Uuid × PcNode)} (o : Option Int), u ∉ es.map Prod.fst → es.foldl (weightStep source u) o = o
  | [], _, _ => rfl
  | e :: es, o, h => by
    rw [List.map_cons, List.mem_cons, not_or] at h
    rw [List.foldl_cons, weightStep, if_neg (Ne.symm h.1), foldl_weightStep_of_not_mem o h.2]

/-- A node's state message, holding its own node, sets its weight to the
    one it reports, whatever it was. -/
theorem foldl_weightStep_own {m : PcNodeMap} {u : Uuid} {n : PcNode} (hn : (u, n) ∈ m.entries)
    (o : Option Int) : m.entries.foldl (weightStep u u) o = some n.weight := by
  obtain ⟨pre, post, hsplit⟩ := List.append_of_mem hn
  have hnd : ((pre ++ (u, n) :: post).map Prod.fst).Nodup := hsplit ▸ m.keys_nodup
  rw [List.map_append, List.map_cons, List.nodup_append, List.nodup_cons] at hnd
  rw [hsplit, List.foldl_append, List.foldl_cons, foldl_weightStep_of_not_mem _ hnd.2.1.1, weightStep,
    if_pos rfl]
  cases pre.foldl (weightStep u u) o with
  | none => rfl
  | some w => exact congrArg some (mergedWeight_self u n.weight w)

/-! ## §2. One member's run of the exchange -/

namespace PcProto

/-- The state messages EVS delivers to a member, in the order it delivers
    them to that member, each with its source. -/
def handleStates (p : PcProto) (ds : List (Uuid × PcNodeMap)) : Except PcError PcProto :=
  ds.foldlM (fun p d => p.handleState d.2 d.1) p

/-- Whether the member records the state message `d` rather than discard
    it. -/
def records (p : PcProto) (d : Uuid × PcNodeMap) : Bool :=
  match p.checkConflictingPrims d.2 d.1 with
  | .ok b => b
  | .error _ => false

/-- Where the exchange stands once the state messages `kept` are recorded
    after those of `S`: at its end when they complete the members'. -/
def afterStates (p : PcProto) (S : SortedMap Uuid PcNodeMap) (kept : List (Uuid × PcNodeMap)) :
    Except PcError PcProto :=
  if kept ≠ [] ∧ (kept.foldl SortedMap.insertStep S).entries.length = p.currentView.members.keys.length then
    ({ p with stateMsgs := kept.foldl SortedMap.insertStep S }).endStateExch
  else .ok { p with stateMsgs := kept.foldl SortedMap.insertStep S }

/-- The check reads none of the state messages. -/
theorem checkConflictingPrims_withMsgs (p : PcProto) (S : SortedMap Uuid PcNodeMap) :
    ({ p with stateMsgs := S }).checkConflictingPrims = p.checkConflictingPrims := rfl

/-- `handle_state` with the state messages `S` recorded: a message that
    passes the check is recorded, and the last one ends the exchange. -/
theorem handleState_withMsgs {p : PcProto} (hs : p.state = .statesExch) {S : SortedMap Uuid PcNodeMap}
    (hlt : S.entries.length < p.currentView.members.keys.length) {d : Uuid × PcNodeMap} (hnew : d.1 ∉ S.keys) :
    ({ p with stateMsgs := S }).handleState d.2 d.1 =
      p.checkConflictingPrims d.2 d.1 >>= fun b =>
        if b then
          if (S.insertStep d).entries.length = p.currentView.members.keys.length then
            ({ p with stateMsgs := S.insertStep d }).endStateExch
          else .ok { p with stateMsgs := S.insertStep d }
        else .ok { p with stateMsgs := S } := by
  have hins : insertUnique S d.1 d.2 = .ok (S.insertStep d) := if_pos (SortedMap.insert_snd.2 hnew)
  unfold handleState
  dsimp only
  rw [if_pos hs, if_pos hlt, checkConflictingPrims_withMsgs, hins]
  rfl

/-- A message recorded short of the members' count leaves the exchange
    open. -/
theorem afterStates_cons (p : PcProto) {S : SortedMap Uuid PcNodeMap} {d : Uuid × PcNodeMap}
    (K : List (Uuid × PcNodeMap))
    (hopen : (S.insertStep d).entries.length ≠ p.currentView.members.keys.length) :
    p.afterStates S (d :: K) = p.afterStates (S.insertStep d) K := by
  have hiff : (d :: K ≠ [] ∧ (K.foldl SortedMap.insertStep (S.insertStep d)).entries.length =
      p.currentView.members.keys.length) ↔
      (K ≠ [] ∧ (K.foldl SortedMap.insertStep (S.insertStep d)).entries.length =
      p.currentView.members.keys.length) := by
    cases K with
    | nil => exact iff_of_false (fun h => hopen h.2) (fun h => h.1 rfl)
    | cons _ _ => exact and_congr_left fun _ => iff_of_true (List.cons_ne_nil _ _) (List.cons_ne_nil _ _)
  unfold afterStates
  rw [List.foldl_cons]
  exact if_congr hiff rfl rfl

theorem handleStates_cons (p : PcProto) (d : Uuid × PcNodeMap) (ds : List (Uuid × PcNodeMap)) :
    p.handleStates (d :: ds) = p.handleState d.2 d.1 >>= fun q => q.handleStates ds := rfl

/-- **One member's run of the exchange**: it succeeds only when every state
    message passes the check for conflicting primary components, and it
    then records those the check keeps.  By induction on the deliveries,
    the recorded messages growing by each one kept. -/
theorem toOption_handleStates {p : PcProto} (hs : p.state = .statesExch) :
    ∀ (ds : List (Uuid × PcNodeMap)) (S : SortedMap Uuid PcNodeMap), (ds.map Prod.fst).Nodup →
      (∀ d ∈ ds, d.1 ∉ S.keys) → S.entries.length + ds.length ≤ p.currentView.members.keys.length →
      (({ p with stateMsgs := S }).handleStates ds).toOption =
        if ds.all fun d => (p.checkConflictingPrims d.2 d.1).isOk then
          (p.afterStates S (ds.filter p.records)).toOption
        else none
  | [], S, _, _, _ => by
    simp only [handleStates, afterStates, List.foldlM_nil, List.all_nil, List.filter_nil, List.foldl_nil]
    rfl
  | d :: ds, S, hnd, hnew, hlen => by
    rw [List.map_cons, List.nodup_cons] at hnd
    rw [List.length_cons] at hlen
    have hlt : S.entries.length < p.currentView.members.keys.length := by omega
    rw [handleStates_cons, handleState_withMsgs hs hlt (hnew d List.mem_cons_self)]
    cases hc : p.checkConflictingPrims d.2 d.1 with
    | error e =>
      -- the check fails, and so does the run
      rw [List.all_cons, hc]
      rfl
    | ok b =>
      cases b with
      | false =>
        -- the message is discarded
        have hrec : p.records d = false := by simp [records, hc]
        rw [List.filter_cons_of_neg (by simp [hrec]), List.all_cons, hc]
        exact toOption_handleStates hs ds S hnd.2 (fun d' hd' => hnew d' (List.mem_cons_of_mem d hd'))
          (by omega)
      | true =>
        have hrec : p.records d = true := by simp [records, hc]
        have hlen' : (S.insertStep d).entries.length = S.entries.length + 1 :=
          SortedMap.length_insert _ (hnew d List.mem_cons_self)
        rw [List.filter_cons_of_pos hrec, List.all_cons, hc]
        by_cases hfull : (S.insertStep d).entries.length = p.currentView.members.keys.length
        · -- the last member's message: nothing follows it
          have hds : ds = [] := List.eq_nil_of_length_eq_zero (by omega)
          subst hds
          rw [if_pos hfull]
          show ((({ p with stateMsgs := S.insertStep d }).endStateExch >>= pure).toOption) = _
          rw [bind_pure]
          simp [afterStates, hfull, Except.isOk, Except.toBool]
        · -- recorded, and the exchange goes on
          have hnew' : ∀ d' ∈ ds, d'.1 ∉ (S.insertStep d).keys := by
            intro d' hd' hmem
            rcases SortedMap.mem_keys_insert.1 hmem with hS | heq
            · exact hnew d' (List.mem_cons_of_mem d hd') hS
            · exact hnd.1 (heq ▸ List.mem_map_of_mem hd')
          rw [if_neg hfull]
          show ((({ p with stateMsgs := S.insertStep d }).handleStates ds).toOption) = _
          rw [toOption_handleStates hs ds (S.insertStep d) hnd.2 hnew' (by omega), afterStates_cons p _ hfull]
          rfl

/-- The state messages recorded, in whatever order, end the exchange the
    same way. -/
theorem afterStates_perm (p : PcProto) (S : SortedMap Uuid PcNodeMap) {K K' : List (Uuid × PcNodeMap)}
    (hp : K.Perm K') (hnd : (K.map Prod.fst).Nodup) : p.afterStates S K = p.afterStates S K' := by
  have hne : K ≠ [] ↔ K' ≠ [] := by
    rw [Ne, Ne, ← List.length_eq_zero_iff, ← List.length_eq_zero_iff, hp.length_eq]
  unfold afterStates
  rw [SortedMap.foldl_insert_perm hp hnd S]
  exact if_congr (and_congr hne Iff.rfl) rfl rfl

/-- A member in `S_STATES_EXCH` with no state message yet is its own state
    with the empty map of state messages. -/
theorem eq_withMsgs_empty {p : PcProto} (hempty : p.stateMsgs = SortedMap.empty) :
    p = { p with stateMsgs := SortedMap.empty } := by
  cases p
  cases hempty
  rfl

/-- **The order of the state messages does not matter**: a member that
    handles the state messages of the members in one order succeeds exactly
    when it succeeds in any other, and ends in the same state. -/
theorem handleStates_perm {p : PcProto} (hs : p.state = .statesExch) (hempty : p.stateMsgs = SortedMap.empty)
    {ds ds' : List (Uuid × PcNodeMap)} (hmembers : (ds.map Prod.fst).Perm p.currentView.members.keys)
    (hperm : ds.Perm ds') : (p.handleStates ds).toOption = (p.handleStates ds').toOption := by
  have hnd : (ds.map Prod.fst).Nodup := hmembers.nodup_iff.2 p.currentView.members.nodup
  have hnd' : (ds'.map Prod.fst).Nodup := (hperm.map Prod.fst).nodup_iff.1 hnd
  have hlen : (SortedMap.empty : SortedMap Uuid PcNodeMap).entries.length + ds.length ≤
      p.currentView.members.keys.length := by
    rw [← hmembers.length_eq, List.length_map]
    exact (Nat.zero_add ds.length).le
  have hnew : ∀ (l : List (Uuid × PcNodeMap)), ∀ d ∈ l, d.1 ∉ (SortedMap.empty : SortedMap Uuid PcNodeMap).keys :=
    fun _ _ _ => List.not_mem_nil
  rw [eq_withMsgs_empty hempty, toOption_handleStates hs ds _ hnd (hnew ds) hlen,
    toOption_handleStates hs ds' _ hnd' (hnew ds') (hperm.length_eq ▸ hlen), hperm.all_eq,
    afterStates_perm p _ (hperm.filter p.records) ((List.filter_sublist.map Prod.fst).nodup hnd)]

end PcProto

theorem uuid_bound_pos : 0 < 2 ^ 128 := Nat.two_pow_pos 128

/-- The UUID of value `k`, for the examples. -/
def fixtureUuid (k : Nat) : Uuid := ⟨k % 2 ^ 128, Nat.mod_lt k uuid_bound_pos⟩

/-- A node of the primary view `(V_PRIM, 1, 1)`, at TO seqno 5 and weight 1. -/
def fixtureNode : PcNode :=
  { PcNode.default with prim := true, lastSeq := 0, lastPrim := ⟨.prim, fixtureUuid 1, 1⟩, toSeq := 5, weight := 1 }

/-- Two nodes that both know each other as `fixtureNode`. -/
def fixtureInstances : PcNodeMap :=
  ((SortedMap.empty.insert (fixtureUuid 1) fixtureNode).1.insert (fixtureUuid 2) fixtureNode).1

/-- A member of the regular view `(V_REG, 1, 2)` of the two nodes, having
    sent its instances as its state message. -/
def fixtureMember (self : Uuid) : PcProto :=
  { uuid := self, npvo := false, state := .statesExch,
    currentView := ⟨⟨.reg, fixtureUuid 1, 2⟩, nodeListOf fixtureInstances, emptyNodeList⟩,
    pcView := ⟨⟨.prim, fixtureUuid 1, 1⟩, nodeListOf fixtureInstances, emptyNodeList⟩,
    instances := fixtureInstances, stateMsgs := SortedMap.empty, lastSentSeq := 0, out := [] }

/-- The two state messages. -/
def fixtureMsgs : List (Uuid × PcNodeMap) := [(fixtureUuid 1, fixtureInstances), (fixtureUuid 2, fixtureInstances)]

theorem handleStates_perm_two_members :
    ((fixtureMember (fixtureUuid 1)).handleStates fixtureMsgs).toOption =
      ((fixtureMember (fixtureUuid 1)).handleStates fixtureMsgs.reverse).toOption :=
  PcProto.handleStates_perm rfl rfl (by decide) (List.reverse_perm fixtureMsgs).symm

/-! ## §3. The end of the exchange -/

namespace PcProto

/-- `mark_non_prim` changes no weight. -/
theorem weightIn_markNonPrim (p : PcProto) (u : Uuid) : weightIn p.markNonPrim.instances u = weightIn p.instances u := by
  simp only [weightIn, markNonPrim, SortedMap.find?_modify, SortedMap.find?_map]
  cases p.instances.find? u with
  | none => split_ifs <;> rfl
  | some n => split_ifs <;> rfl

/-- `mark_non_prim` marks no node unknown. -/
theorem unIn_markNonPrim (p : PcProto) (u : Uuid) : unIn p.markNonPrim.instances u = unIn p.instances u := by
  simp only [unIn, markNonPrim, SortedMap.find?_modify, SortedMap.find?_map]
  cases p.instances.find? u with
  | none => split_ifs <;> rfl
  | some n => split_ifs <;> rfl

/-- The member with the state messages merged into its instances. -/
def merged (p : PcProto) : PcProto :=
  { p with instances := mergeStateMsgs p.uuid p.instances p.stateMsgs.entries }

theorem endStateExch_ok {p r : PcProto} (hs : p.state = .statesExch) (h : p.endStateExch = .ok r) :
    ∃ b, p.merged.isPrim = .ok b ∧ r.state = (if b then .install else .nonPrim) ∧
      (∀ u, weightIn r.instances u = weightIn p.merged.instances u) ∧
      ∀ u, unIn r.instances u = unIn p.merged.instances u := by
  unfold endStateExch at h
  rw [show ({ p with instances := mergeStateMsgs p.uuid p.instances p.stateMsgs.entries } : PcProto) = p.merged
    from rfl] at h
  dsimp only at h
  have hmstate : p.merged.state = .statesExch := hs
  cases hv : p.merged.validateStateMsgs with
  | error e =>
    rw [hv] at h
    cases h
  | ok _ =>
    rw [hv] at h
    cases hb : p.merged.isPrim with
    | error e =>
      rw [hb] at h
      cases h
    | ok b =>
      rw [hb] at h
      refine ⟨b, rfl, ?_⟩
      cases b with
      | true =>
        simp only [ok_bind, if_true, shiftTo_of_allowed (s := .install) (by rw [hmstate]; rfl)] at h
        -- `shift_to(S_INSTALL)` changes only the state, `send_install` only sends
        split_ifs at h
        · obtain ⟨nm, _, rfl⟩ := sendInstall_ok h
          exact ⟨rfl, fun _ => rfl, fun _ => rfl⟩
        · cases Except.ok.inj h
          exact ⟨rfl, fun _ => rfl, fun _ => rfl⟩
      | false =>
        simp only [ok_bind, Bool.false_eq_true, if_false,
          shiftTo_of_allowed (s := .nonPrim) (by rw [hmstate]; rfl)] at h
        -- `mark_non_prim` changes no weight, `deliver_view` only delivers
        cases Except.ok.inj h
        exact ⟨rfl, weightIn_markNonPrim p.merged, unIn_markNonPrim p.merged⟩

/-! ## §4. What `is_prim` reads -/

/-- `is_prim` reads the state messages, the members, and, when no member
    comes from a primary component, whether some node outside the view is
    in an unknown state. -/
theorem isPrim_congr {p q : PcProto} (hS : p.stateMsgs = q.stateMsgs)
    (hM : p.currentView.members.keys = q.currentView.members.keys)
    (hun : firstPrimState p.stateMsgs.entries = .ok none →
      (unknownOutside p.instances p.currentView.members = [] ↔
        unknownOutside q.instances q.currentView.members = [])) :
    p.isPrim = q.isPrim := by
  unfold isPrim
  dsimp only
  rw [hS] at hun ⊢
  rw [hM]
  cases hf : firstPrimState q.stateMsgs.entries with
  | error e => rfl
  | ok first =>
    cases first with
    | some st => rfl
    | none =>
      -- the one difference: the unknown nodes outside the view
      simp only [ok_bind]
      congr 1
      funext _
      simp only [Bool.false_eq_true, if_false]
      exact if_congr (not_congr (hun hf)) rfl rfl

/-- The first loop of `is_prim` finds no primary source only when every
    source's own node is there and none is primary. -/
theorem firstPrimState_none :
    ∀ {sms : List (Uuid × PcNodeMap)}, firstPrimState sms = .ok none →
      ∀ sm ∈ sms, ∃ n, sourceNode sm = .ok n ∧ n.prim = false
  | [], _ => fun _ hsm => absurd hsm List.not_mem_nil
  | sm :: sms, h => by
    unfold firstPrimState at h
    obtain ⟨n, hn, h⟩ := bind_eq_ok h
    cases hprim : n.prim with
    | true =>
      rw [hprim, if_pos rfl] at h
      cases h
    | false =>
      rw [hprim, if_neg Bool.false_ne_true] at h
      intro x hx
      rcases List.mem_cons.1 hx with rfl | hx
      · exact ⟨n, hn, hprim⟩
      · exact firstPrimState_none h x hx

/-- The second loop of `is_prim` reads every source's own node. -/
theorem checkPrimStates_ok {lastPrim : ViewId} {toSeq : Int} :
    ∀ {sms : List (Uuid × PcNodeMap)}, checkPrimStates lastPrim toSeq sms = .ok () →
      ∀ sm ∈ sms, ∃ n, sourceNode sm = .ok n
  | [], _ => fun _ hsm => absurd hsm List.not_mem_nil
  | sm :: sms, h => by
    rw [checkPrimStates, List.forM] at h
    obtain ⟨_, hsm, hrest⟩ := bind_eq_ok h
    obtain ⟨n, hn, _⟩ := bind_eq_ok hsm
    intro x hx
    rcases List.mem_cons.1 hx with rfl | hx
    · exact ⟨n, hn⟩
    · exact checkPrimStates_ok hrest x hx

/-- A decision of `is_prim` has read every source's own node. -/
theorem isPrim_sourceNode {p : PcProto} {b : Bool} (h : p.isPrim = .ok b) :
    ∀ sm ∈ p.stateMsgs.entries, ∃ n, sourceNode sm = .ok n := by
  unfold isPrim at h
  dsimp only at h
  obtain ⟨first, _, h⟩ := bind_eq_ok h
  cases first with
  | some st =>
    obtain ⟨_, hc, _⟩ := bind_eq_ok h
    exact checkPrimStates_ok hc
  | none =>
    obtain ⟨_, hc, _⟩ := bind_eq_ok h
    exact checkPrimStates_ok hc

/-- `is_prim` decides against a primary view only when no member comes
    from one. -/
theorem firstPrimState_of_isPrim_false {p : PcProto} (h : p.isPrim = .ok false) :
    firstPrimState p.stateMsgs.entries = .ok none := by
  unfold isPrim at h
  dsimp only at h
  obtain ⟨first, hf, h⟩ := bind_eq_ok h
  cases first with
  | some st =>
    obtain ⟨_, _, h⟩ := bind_eq_ok h
    cases h
  | none => exact hf

/-- No node outside the view is unknown. -/
theorem unknownOutside_eq_nil {inst : PcNodeMap} {members : NodeList Uuid} :
    unknownOutside inst members = [] ↔ ∀ u, u ∉ members.keys → unIn inst u = false := by
  rw [unknownOutside, SortedMap.keys, List.map_eq_nil_iff, List.eq_nil_iff_forall_not_mem]
  constructor
  · intro h u hu
    cases hf : inst.find? u with
    | none => simp [unIn, hf]
    | some n =>
      have hmem := SortedMap.find?_eq_some_iff.1 hf
      cases hun : n.un with
      | false => simp [unIn, hf, hun]
      | true => exact absurd (SortedMap.mem_filter.2 ⟨hmem, by simp [hun, hu]⟩) (h (u, n))
  · intro h x hx
    obtain ⟨hmem, hp⟩ := SortedMap.mem_filter.1 hx
    simp only [Bool.and_eq_true, decide_eq_true_eq] at hp
    have hf : inst.find? x.1 = some x.2 := SortedMap.find?_eq_some_iff.2 hmem
    have hun := h x.1 hp.2
    simp [unIn, hf, hp.1] at hun

end PcProto

/-! ## §5. The members agree -/

/-- The map of state messages recorded from `msgs`. -/
def stateMsgsOf (msgs : List (Uuid × PcNodeMap)) : SortedMap Uuid PcNodeMap :=
  msgs.foldl SortedMap.insertStep SortedMap.empty

/-- A member of a view about to collect the state messages `msgs` of the
    members: in `S_STATES_EXCH` with none recorded, the sources of `msgs`
    being the view's members, and its own state message its instances, as
    `send_state` leaves them. -/
structure Exchanging (msgs : List (Uuid × PcNodeMap)) (p : PcProto) : Prop where
  state : p.state = .statesExch
  empty : p.stateMsgs = SortedMap.empty
  members : (msgs.map Prod.fst).Perm p.currentView.members.keys
  own : (p.uuid, p.instances) ∈ msgs

namespace Exchanging

variable {msgs : List (Uuid × PcNodeMap)} {p : PcProto}

theorem nodup (hp : Exchanging msgs p) : (msgs.map Prod.fst).Nodup :=
  hp.members.nodup_iff.2 p.currentView.members.nodup

theorem mem_stateMsgsOf (hp : Exchanging msgs p) {sm : Uuid × PcNodeMap} :
    sm ∈ (stateMsgsOf msgs).entries ↔ sm ∈ msgs :=
  (SortedMap.foldl_insert_empty_perm hp.nodup).mem_iff

theorem self_mem (hp : Exchanging msgs p) : p.uuid ∈ p.currentView.members.keys :=
  hp.members.subset (List.mem_map_of_mem hp.own)

/-- A member that leaves `S_STATES_EXCH` has recorded every member's state
    message, in whatever order they came. -/
theorem handleStates_complete {ds : List (Uuid × PcNodeMap)} {r : PcProto} (hp : Exchanging msgs p)
    (hds : ds.Perm msgs) (h : p.handleStates ds = .ok r) (hend : r.state ≠ .statesExch) :
    ({ p with stateMsgs := stateMsgsOf msgs }).endStateExch = .ok r := by
  have hnd : (ds.map Prod.fst).Nodup := (hds.map Prod.fst).nodup_iff.2 hp.nodup
  have hlen : ds.length = p.currentView.members.keys.length := by
    rw [← List.length_map (f := Prod.fst), (hds.map Prod.fst).length_eq, hp.members.length_eq]
  have hrun := PcProto.toOption_handleStates hp.state ds SortedMap.empty hnd (fun _ _ => List.not_mem_nil)
    (hlen ▸ (Nat.zero_add ds.length).le)
  rw [← PcProto.eq_withMsgs_empty hp.empty, toOption_eq_some.2 h] at hrun
  split_ifs at hrun with hall
  · have hafter := toOption_eq_some.1 hrun.symm
    unfold PcProto.afterStates at hafter
    split_ifs at hafter with hfull
    · -- every message was recorded
      have hKnd : ((ds.filter p.records).map Prod.fst).Nodup := (List.filter_sublist.map Prod.fst).nodup hnd
      have hK : ds.filter p.records = ds := List.filter_sublist.eq_of_length
        (by rw [← (SortedMap.foldl_insert_empty_perm hKnd).length_eq, hfull.2, hlen])
      rw [hK, SortedMap.foldl_insert_perm hds hnd] at hafter
      exact hafter
    · -- some message was discarded: the member is still exchanging states
      cases Except.ok.inj hafter
      exact absurd hp.state hend

/-- Outside a primary component, a member marks a node outside the view
    unknown exactly when some state message does: its own message, its
    instances as it sent them, is one of them. -/
theorem unIn_merged_outside (hp : Exchanging msgs p)
    (hnone : firstPrimState (stateMsgsOf msgs).entries = .ok none) {u : Uuid}
    (hu : u ∉ p.currentView.members.keys) :
    unIn ({ p with stateMsgs := stateMsgsOf msgs }).merged.instances u =
      (stateMsgsOf msgs).entries.any fun sm => unIn sm.2 u := by
  have hownSM : (p.uuid, p.instances) ∈ (stateMsgsOf msgs).entries := hp.mem_stateMsgsOf.2 hp.own
  obtain ⟨n, hn, hprim⟩ := PcProto.firstPrimState_none hnone _ hownSM
  have hfind : p.instances.find? p.uuid = some n := nodeOf_eq_ok.1 hn
  have hkept : SelfKept p.uuid false p.instances :=
    ⟨mem_keys_iff_isSome.2 (by rw [hfind]; rfl), by simp [selfNodeIn, hfind, hprim]⟩
  have hne : u ≠ p.uuid := fun h => hu (h ▸ hp.self_mem)
  show unIn (mergeStateMsgs p.uuid p.instances (stateMsgsOf msgs).entries) u = _
  rw [unIn_mergeStateMsgs hne _ hkept]
  cases hself : unIn p.instances u with
  | false => rfl
  | true => exact (List.any_eq_true.2 ⟨_, hownSM, hself⟩).symm

end Exchanging

/-- The weight a member keeps for a node whose state message holds its own
    node is that report, and the reports after it: it does not depend on
    what the member held before. -/
theorem weightIn_mergeStateMsgs_own {sms : List (Uuid × PcNodeMap)} {x : Uuid} {m : PcNodeMap} {n : PcNode}
    (hsrc : (x, m) ∈ sms) (hown : (x, n) ∈ m.entries) (self self' : Uuid) (inst inst' : PcNodeMap) :
    weightIn (mergeStateMsgs self inst sms) x = weightIn (mergeStateMsgs self' inst' sms) x := by
  obtain ⟨pre, post, rfl⟩ := List.append_of_mem hsrc
  rw [weightIn_mergeStateMsgs, weightIn_mergeStateMsgs, List.foldl_append, List.foldl_append, List.foldl_cons,
    List.foldl_cons, foldl_weightStep_own hown, foldl_weightStep_own hown]

/-- **The members agree at the end of the state exchange.**  Two members of
    a view that both complete the exchange of the members' state messages,
    each receiving them in its own order, both install a primary component
    or both go non-primary, hold one weight for every member, and, going
    non-primary, mark the same nodes outside the view unknown. -/
theorem stateExch_agreement {msgs dp dq : List (Uuid × PcNodeMap)} {p q p' q' : PcProto}
    (hp : Exchanging msgs p) (hq : Exchanging msgs q) (hdp : dp.Perm msgs) (hdq : dq.Perm msgs)
    (hrp : p.handleStates dp = .ok p') (hrq : q.handleStates dq = .ok q')
    (hp' : p'.state ≠ .statesExch) (hq' : q'.state ≠ .statesExch) :
    p'.state = q'.state ∧
      (∀ x ∈ p.currentView.members.keys, weightIn p'.instances x = weightIn q'.instances x) ∧
      (p'.state = .nonPrim → ∀ u ∉ p.currentView.members.keys, unIn p'.instances u = unIn q'.instances u) := by
  obtain ⟨bp, hbp, hsp, hwp, hup⟩ := PcProto.endStateExch_ok (p := { p with stateMsgs := stateMsgsOf msgs })
    hp.state (hp.handleStates_complete hdp hrp hp')
  obtain ⟨bq, hbq, hsq, hwq, huq⟩ := PcProto.endStateExch_ok (p := { q with stateMsgs := stateMsgsOf msgs })
    hq.state (hq.handleStates_complete hdq hrq hq')
  -- one sorted list of members
  have hM : p.currentView.members.keys = q.currentView.members.keys :=
    List.Perm.eq_of_pairwise (fun _ _ _ _ hab hba => absurd (lt_trans hab hba) (lt_irrefl _))
      p.currentView.members.sorted q.currentView.members.sorted (hp.members.symm.trans hq.members)
  -- one decision: the members read the same state messages and, outside a
  -- primary component, the same unknown nodes outside the view
  have hdec : bp = bq := by
    have hcongr : ({ p with stateMsgs := stateMsgsOf msgs }).merged.isPrim =
        ({ q with stateMsgs := stateMsgsOf msgs }).merged.isPrim := by
      refine PcProto.isPrim_congr rfl hM fun hnone => ?_
      rw [PcProto.unknownOutside_eq_nil, PcProto.unknownOutside_eq_nil]
      refine forall_congr' fun u => ?_
      show u ∉ p.currentView.members.keys → _ ↔ u ∉ q.currentView.members.keys → _
      rw [← hM]
      exact imp_congr_right fun hu => by
        rw [hp.unIn_merged_outside hnone hu, hq.unIn_merged_outside hnone (hM ▸ hu)]
    rw [hbp, hbq] at hcongr
    exact Except.ok.inj hcongr
  refine ⟨by rw [hsp, hsq, hdec], fun x hx => ?_, fun hnon u hu => ?_⟩
  · rw [hwp, hwq]
    -- `x`'s state message, which holds `x`'s own node
    obtain ⟨⟨x', m⟩, hxm, rfl⟩ := List.mem_map.1 (hp.members.symm.subset hx)
    have hxSM : (x', m) ∈ (stateMsgsOf msgs).entries := hp.mem_stateMsgsOf.2 hxm
    obtain ⟨n, hn⟩ := PcProto.isPrim_sourceNode hbp _ hxSM
    exact weightIn_mergeStateMsgs_own hxSM (SortedMap.find?_eq_some_iff.1 (nodeOf_eq_ok.1 hn)) _ _ _ _
  · -- a non-primary decision: no member came from a primary component
    have hbp' : bp = false := by
      cases bp with
      | false => rfl
      | true => rw [hsp, if_pos rfl] at hnon; cases hnon
    rw [hbp'] at hbp
    have hnone := PcProto.firstPrimState_of_isPrim_false hbp
    rw [hup, huq, hp.unIn_merged_outside hnone hu, hq.unIn_merged_outside hnone (hM ▸ hu)]

/-- Where a run ends, when it does not fail. -/
def runEnd (p : PcProto) (ds : List (Uuid × PcNodeMap)) : PcProto :=
  match p.handleStates ds with
  | .ok r => r
  | .error _ => p

theorem stateExch_agreement_two_members :
    (runEnd (fixtureMember (fixtureUuid 1)) fixtureMsgs.reverse).state =
        (runEnd (fixtureMember (fixtureUuid 2)) fixtureMsgs).state ∧
      (∀ x ∈ (fixtureMember (fixtureUuid 1)).currentView.members.keys,
        weightIn (runEnd (fixtureMember (fixtureUuid 1)) fixtureMsgs.reverse).instances x =
          weightIn (runEnd (fixtureMember (fixtureUuid 2)) fixtureMsgs).instances x) ∧
      ((runEnd (fixtureMember (fixtureUuid 1)) fixtureMsgs.reverse).state = .nonPrim →
        ∀ u ∉ (fixtureMember (fixtureUuid 1)).currentView.members.keys,
          unIn (runEnd (fixtureMember (fixtureUuid 1)) fixtureMsgs.reverse).instances u =
            unIn (runEnd (fixtureMember (fixtureUuid 2)) fixtureMsgs).instances u) := by
  have hp : Exchanging fixtureMsgs (fixtureMember (fixtureUuid 1)) := ⟨rfl, rfl, by decide, by decide⟩
  have hq : Exchanging fixtureMsgs (fixtureMember (fixtureUuid 2)) := ⟨rfl, rfl, by decide, by decide⟩
  exact stateExch_agreement hp hq (List.reverse_perm fixtureMsgs) (List.Perm.refl _) rfl rfl (by decide) (by decide)

/-- Both members of the example come from one primary component: they
    install a primary one. -/
example : (runEnd (fixtureMember (fixtureUuid 2)) fixtureMsgs).state = .install := by decide

end Galera.Pc
