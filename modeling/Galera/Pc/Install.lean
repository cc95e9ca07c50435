/-
  Galera.Pc.Install
  ─────────────────
  **THE INSTALL OF A PRIMARY COMPONENT (`handle_install`).**

  A member that found its view primary waits in `S_INSTALL` for the install
  message of the view's first member; a member in `S_NON_PRIM` takes one
  too.  `handle_install` checks the message's node for the member against
  its own instance, sets its TO seqno from the message, goes to `S_PRIM`
  (`shift_to`, which makes every member primary from the new primary view
  at that seqno), delivers the view and erases the instances of the nodes
  outside it (`cleanup_instances`).

    * `PcProto.handleInstall_ok` — what an accepted install runs;
    * `installToSeq_ok` — the TO seqno of the install is the greatest of -1
      and the primary nodes' seqnos (of all the nodes when none is
      primary), and every primary node with a known seqno is at it;
    * `PcProto.handleInstall_resumes` — what one member takes from it;
    * `install_agreement` — two members of one view that take the same
      install agree on the primary view, the TO seqno and every node they
      keep.
-/
import Mathlib
import Galera.Pc.StateExchange

namespace Galera.Pc

open Galera.Evs (Uuid ViewId)

/-! ## §1. The steps of an accepted install -/

namespace PcProto

/-- A node as the install leaves it. -/
def installedNode (primId : ViewId) (toSeq : Int) (n : PcNode) : PcNode :=
  { n with prim := true, un := false, lastSeq := 0, lastPrim := primId, toSeq := toSeq }

theorem find?_enterPrim (p : PcProto) (u : Uuid) :
    p.enterPrim.instances.find? u =
      if u ∈ p.currentView.members.keys then
        (p.instances.find? u).map fun n =>
          { n with prim := true, lastPrim := { p.currentView.id with type := .prim }, lastSeq := 0, toSeq := p.toSeq }
      else if u = p.uuid then (p.instances.find? u).map fun n => { n with prim := true }
      else (p.instances.find? u).map fun n => { n with prim := false } := by
  unfold enterPrim
  dsimp only
  rw [SortedMap.find?_modify, SortedMap.find?_map]
  by_cases hs : u = p.uuid
  · subst hs
    by_cases hm : p.uuid ∈ p.currentView.members.keys <;> simp [hm, Option.map_map, Function.comp_def]
  · by_cases hm : u ∈ p.currentView.members.keys <;> simp [hm, hs]

theorem find?_setToSeq (p : PcProto) (T : Int) (u : Uuid) :
    (p.setToSeq T).instances.find? u =
      if u = p.uuid then (p.instances.find? u).map fun n => { n with toSeq := T } else p.instances.find? u :=
  SortedMap.find?_modify _ _ _ _

@[simp] theorem setToSeq_uuid (p : PcProto) (T : Int) : (p.setToSeq T).uuid = p.uuid := rfl

@[simp] theorem setToSeq_currentView (p : PcProto) (T : Int) : (p.setToSeq T).currentView = p.currentView := rfl

theorem toSeq_setToSeq {p : PcProto} (T : Int) (hself : (p.instances.find? p.uuid).isSome) :
    (p.setToSeq T).toSeq = T := by
  obtain ⟨n, hn⟩ := Option.isSome_iff_exists.mp hself
  show (selfNodeIn (p.setToSeq T).instances p.uuid).toSeq = T
  rw [selfNodeIn, find?_setToSeq, if_pos rfl, hn]
  rfl

theorem cleanupInstances_eq_ok {p r : PcProto} :
    p.cleanupInstances = .ok r ↔ p.state = .prim ∧ p.currentView.id.type = .reg ∧
      r = { p with
        instances := (p.instances.filter fun u _ => decide (u ∈ p.currentView.members.keys)).map
          fun _ n => { n with un := false } } := by
  unfold cleanupInstances
  by_cases hs : p.state = .prim <;> by_cases ht : p.currentView.id.type = .reg <;> simp [hs, ht, eq_comm]

theorem find?_cleanupInstances {p r : PcProto} (h : p.cleanupInstances = .ok r) (u : Uuid) :
    r.instances.find? u =
      if u ∈ p.currentView.members.keys then (p.instances.find? u).map fun n => { n with un := false }
      else none := by
  obtain ⟨-, -, rfl⟩ := cleanupInstances_eq_ok.mp h
  rw [SortedMap.find?_map, SortedMap.find?_filter]
  by_cases hm : u ∈ p.currentView.members.keys <;> cases p.instances.find? u <;> simp [hm]

/-! ## §2. `handle_install` in `S_INSTALL` and `S_NON_PRIM` -/

/-- An install accepted in `S_INSTALL` or `S_NON_PRIM` (a bootstrap one
    only in `S_NON_PRIM`) sets the TO seqno the message gives, enters
    `S_PRIM`, delivers the view and cleans up the instances. -/
theorem handleInstall_ok {p r : PcProto} {msg : PcMessage} {source : Uuid}
    (hs : p.state = .install ∨ p.state = .nonPrim) (hboot : msg.flags &&& fBootstrap = 0 ∨ p.state = .nonPrim)
    (h : p.handleInstall msg source = .ok r) :
    ∃ T, installToSeq msg.nodeMap = .ok T ∧
      ({ (p.setToSeq T).enterPrim with state := .prim }.deliverView
        (decide (msg.flags &&& fBootstrap ≠ 0))).cleanupInstances = .ok r := by
  have hprim : p.state ≠ .prim := by rcases hs with hs | hs <;> rw [hs] <;> decide
  have htrans : p.state ≠ .trans := by rcases hs with hs | hs <;> rw [hs] <;> decide
  have hnb : ¬(msg.flags &&& fBootstrap ≠ 0 ∧ p.state = .install) := by
    rintro ⟨hb, hi⟩
    rcases hboot with h0 | hn
    · exact hb h0
    · rw [hn] at hi; cases hi
  unfold handleInstall at h
  simp only [if_neg hprim, if_neg htrans, if_pos hs, if_neg hnb] at h
  by_cases htype : msg.type = .install
  · rw [if_pos htype] at h
    obtain ⟨mState, -, h⟩ := bind_eq_ok h
    by_cases hm : p.installStateMatches mState = true
    · rw [if_pos hm] at h
      obtain ⟨T, hT, h⟩ := bind_eq_ok h
      obtain ⟨p', hp', h⟩ := bind_eq_ok h
      have hallowed : allowed (p.setToSeq T).state .prim = true := by
        rcases hs with hs | hs <;> simp [setToSeq, hs, allowed]
      rw [shiftTo_of_allowed hallowed] at hp'
      cases hp'
      exact ⟨T, hT, h⟩
    · rw [if_neg hm] at h
      cases h
  · rw [if_neg htype] at h
    cases h

/-- The member after an accepted install, field by field: the instances
    are those of the members, made primary from the new primary view at the
    message's seqno. -/
theorem handleInstall_spec {p r : PcProto} {msg : PcMessage} {source : Uuid}
    (hs : p.state = .install ∨ p.state = .nonPrim) (hboot : msg.flags &&& fBootstrap = 0 ∨ p.state = .nonPrim)
    (hself : (p.instances.find? p.uuid).isSome) (h : p.handleInstall msg source = .ok r) :
    ∃ T, installToSeq msg.nodeMap = .ok T ∧ r.state = .prim ∧ r.uuid = p.uuid ∧
      r.currentView = p.currentView ∧ r.pcView.id = { p.currentView.id with type := .prim } ∧
      ∀ u, r.instances.find? u =
        if u ∈ p.currentView.members.keys then
          (p.instances.find? u).map (installedNode { p.currentView.id with type := .prim } T)
        else none := by
  obtain ⟨T, hT, hc⟩ := handleInstall_ok hs hboot h
  obtain ⟨-, -, hr⟩ := cleanupInstances_eq_ok.mp hc
  refine ⟨T, hT, by rw [hr]; rfl, by rw [hr]; rfl, by rw [hr]; rfl, by rw [hr]; rfl, fun u => ?_⟩
  rw [find?_cleanupInstances hc u]
  show (if u ∈ p.currentView.members.keys then ((p.setToSeq T).enterPrim.instances.find? u).map _ else none) = _
  rw [find?_enterPrim, setToSeq_currentView, setToSeq_uuid, toSeq_setToSeq T hself, find?_setToSeq]
  by_cases hm : u ∈ p.currentView.members.keys
  · rw [if_pos hm, if_pos hm, if_pos hm]
    by_cases hu : u = p.uuid
    · rw [if_pos hu]
      cases p.instances.find? u <;> rfl
    · rw [if_neg hu]
      cases p.instances.find? u <;> rfl
  · rw [if_neg hm, if_neg hm]

end PcProto

/-! ## §3. The TO seqno of the install -/

theorem installToSeqStep_ok {t0 t : Int} {f0 f : Bool} {e : Uuid × PcNode}
    (h : installToSeqStep (t0, f0) e = .ok (t, f)) :
    f = (f0 || e.2.prim) ∧ (e.2.prim → (t0 ≠ -1 → e.2.toSeq = t0) ∧ t = max t0 e.2.toSeq) ∧
      (e.2.prim = false → t = t0) := by
  unfold installToSeqStep at h
  by_cases hp : e.2.prim = true
  · rw [if_pos hp] at h
    by_cases hc : t0 ≠ -1 ∧ e.2.toSeq ≠ t0
    · rw [if_pos hc] at h
      cases h
    · rw [if_neg hc] at h
      cases h
      refine ⟨by simp [hp], fun _ => ⟨fun h0 => ?_, rfl⟩, fun hf => by simp [hp] at hf⟩
      by_contra hne
      exact hc ⟨h0, hne⟩
  · rw [if_neg hp] at h
    cases h
    simp at hp
    simp [hp]

/-- The first loop: the seqno leaves -1 at the first primary node with a
    known one and every later primary node must be at it. -/
theorem foldlM_installToSeqStep {es : List (Uuid × PcNode)} {t0 t : Int} {f0 f : Bool}
    (h : es.foldlM installToSeqStep (t0, f0) = .ok (t, f)) :
    f = (f0 || es.any (·.2.prim)) ∧ t0 ≤ t ∧ (t0 ≠ -1 → t = t0) ∧
      (t = t0 ∨ ∃ e ∈ es, e.2.prim ∧ e.2.toSeq = t) ∧
      ∀ e ∈ es, e.2.prim → e.2.toSeq ≤ t ∧ (e.2.toSeq = t ∨ e.2.toSeq ≤ -1) := by
  induction es generalizing t0 f0 with
  | nil =>
    cases h
    simp
  | cons e es ih =>
    rw [List.foldlM_cons] at h
    obtain ⟨⟨t1, f1⟩, h1, h2⟩ := bind_eq_ok h
    obtain ⟨hf1, hprim, hnot⟩ := installToSeqStep_ok h1
    obtain ⟨hf, hle, hkeep, hat, hall⟩ := ih h2
    have hany : ((e :: es).any fun x => x.2.prim) = (e.2.prim || es.any fun x => x.2.prim) := List.any_cons
    by_cases hp : e.2.prim = true
    · -- a primary node: the running seqno leaves -1 at most once, and never moves after
      obtain ⟨hcons, ht1⟩ := hprim hp
      have hx : e.2.toSeq ≤ t ∧ (e.2.toSeq = t ∨ e.2.toSeq ≤ -1) := by
        clear hat hall
        omega
      refine ⟨by rw [hf, hf1, hany, hp]; simp, by clear hat hall; omega, fun h0 => by clear hat hall; omega, ?_, ?_⟩
      · rcases hat with hat | ⟨e', he', hp', hq⟩
        · rcases max_choice t0 e.2.toSeq with hm | hm
          · exact .inl (by rw [hat, ht1, hm])
          · exact .inr ⟨e, List.mem_cons_self, hp, by rw [hat, ht1, hm]⟩
        · exact .inr ⟨e', List.mem_cons_of_mem _ he', hp', hq⟩
      · intro e' he' hp'
        rcases List.mem_cons.mp he' with rfl | he'
        · exact hx
        · exact hall e' he' hp'
    · -- a node not primary leaves the accumulator as it is
      have ht1 : t1 = t0 := hnot (by simpa using hp)
      subst ht1
      refine ⟨by rw [hf, hf1, hany]; simp [hp], hle, hkeep, ?_, ?_⟩
      · rcases hat with hat | ⟨e', he', hp', hq⟩
        · exact .inl hat
        · exact .inr ⟨e', List.mem_cons_of_mem _ he', hp', hq⟩
      · intro e' he' hp'
        rcases List.mem_cons.mp he' with rfl | he'
        · exact absurd hp' hp
        · exact hall e' he' hp'

theorem foldl_max_toSeq (es : List (Uuid × PcNode)) (t0 : Int) :
    t0 ≤ es.foldl (fun t e => max t e.2.toSeq) t0 ∧
      (∀ e ∈ es, e.2.toSeq ≤ es.foldl (fun t e => max t e.2.toSeq) t0) ∧
      (es.foldl (fun t e => max t e.2.toSeq) t0 = t0 ∨
        ∃ e ∈ es, e.2.toSeq = es.foldl (fun t e => max t e.2.toSeq) t0) := by
  induction es generalizing t0 with
  | nil => simp
  | cons e es ih =>
    rw [List.foldl_cons]
    obtain ⟨hle, hall, hat⟩ := ih (max t0 e.2.toSeq)
    refine ⟨le_trans (le_max_left _ _) hle, ?_, ?_⟩
    · intro e' he'
      rcases List.mem_cons.mp he' with rfl | he'
      · exact le_trans (le_max_right _ _) hle
      · exact hall e' he'
    · rcases hat with hat | ⟨e', he', hq⟩
      · rcases max_choice t0 e.2.toSeq with hm | hm
        · exact .inl (by rw [hat, hm])
        · exact .inr ⟨e, List.mem_cons_self, by rw [hat, hm]⟩
      · exact .inr ⟨e', List.mem_cons_of_mem _ he', hq⟩

/-- The TO seqnos `installToSeq` reads: of the primary nodes, or of all the
    nodes when none is primary. -/
def installSeqnos (nm : PcNodeMap) : Set Int :=
  (fun e => e.2.toSeq) '' {e | e ∈ nm.entries ∧ (e.2.prim || !nm.entries.any (·.2.prim)) = true}

/-- The TO seqno of an install is the greatest of -1 and the seqnos it
    reads, and every primary node with a known seqno is at it. -/
theorem installToSeq_ok {nm : PcNodeMap} {T : Int} (h : installToSeq nm = .ok T) :
    IsGreatest (insert (-1) (installSeqnos nm)) T ∧
      ∀ e ∈ nm.entries, e.2.prim → e.2.toSeq = T ∨ e.2.toSeq ≤ -1 := by
  unfold installToSeq at h
  obtain ⟨⟨t, f⟩, hfold, h⟩ := bind_eq_ok h
  obtain ⟨hf, hle, -, hat, hall⟩ := foldlM_installToSeqStep hfold
  simp only [Bool.false_or] at hf
  subst hf
  dsimp only at h
  by_cases hany : (nm.entries.any fun x => x.2.prim) = true
  · -- a primary node was seen: the first loop's seqno is the one set
    rw [if_pos hany] at h
    cases h
    refine ⟨⟨?_, ?_⟩, fun e he hp => (hall e he hp).2⟩
    · rcases hat with hat | ⟨e, he, hp, hq⟩
      · exact .inl hat
      · exact .inr ⟨e, ⟨he, by simp [hp]⟩, hq⟩
    · rintro x (rfl | ⟨e, ⟨he, hp⟩, rfl⟩)
      · exact hle
      · simp only [hany, Bool.not_true, Bool.or_false] at hp
        exact (hall e he hp).1
  · -- none was: the greatest seqno of all the nodes
    rw [if_neg hany] at h
    cases h
    have hnone : ∀ e ∈ nm.entries, e.2.prim = false := by simpa using hany
    have ht : t = -1 := by
      rcases hat with hat | ⟨e, he, hp, -⟩
      · exact hat
      · simp [hnone e he] at hp
    subst ht
    obtain ⟨hle', hall', hat'⟩ := foldl_max_toSeq nm.entries (-1)
    refine ⟨⟨?_, ?_⟩, fun e he hp => by simp [hnone e he] at hp⟩
    · rcases hat' with hat' | ⟨e, he, hq⟩
      · exact .inl hat'
      · exact .inr ⟨e, ⟨he, by simp [hany]⟩, hq⟩
    · rintro x (rfl | ⟨e, ⟨he, -⟩, rfl⟩)
      · exact hle'
      · exact hall' e he

/-! ## §4. Agreement of the members on the install -/

namespace PcProto

/-- What a member of the view takes from an install: it is primary in the
    primary view of the current view and resumes at the message's TO seqno;
    it keeps only the members, each primary from that view at that seqno,
    with no message seen and its state known. -/
theorem handleInstall_resumes {p r : PcProto} {msg : PcMessage} {source : Uuid}
    (hs : p.state = .install ∨ p.state = .nonPrim) (hboot : msg.flags &&& fBootstrap = 0 ∨ p.state = .nonPrim)
    (hmember : p.uuid ∈ p.currentView.members.keys) (hself : (p.instances.find? p.uuid).isSome)
    (h : p.handleInstall msg source = .ok r) :
    ∃ T, installToSeq msg.nodeMap = .ok T ∧ r.state = .prim ∧
      r.pcView.id = { p.currentView.id with type := .prim } ∧ r.toSeq = T ∧
      ∀ u n, r.instances.find? u = some n → u ∈ p.currentView.members.keys ∧ n.prim ∧
        n.lastPrim = { p.currentView.id with type := .prim } ∧ n.lastSeq = 0 ∧ n.toSeq = T ∧ n.un = false := by
  obtain ⟨T, hT, hstate, huuid, -, hview, hfind⟩ := handleInstall_spec hs hboot hself h
  have hkept : ∀ u n, r.instances.find? u = some n → u ∈ p.currentView.members.keys ∧
      ∃ n0, p.instances.find? u = some n0 ∧ n = installedNode { p.currentView.id with type := .prim } T n0 := by
    intro u n hn
    rw [hfind u] at hn
    by_cases hm : u ∈ p.currentView.members.keys
    · rw [if_pos hm, Option.map_eq_some_iff] at hn
      obtain ⟨n0, h0, rfl⟩ := hn
      exact ⟨hm, n0, h0, rfl⟩
    · rw [if_neg hm] at hn
      cases hn
  obtain ⟨n0, h0⟩ := Option.isSome_iff_exists.mp hself
  have hr : r.toSeq = T := by
    show (selfNodeIn r.instances r.uuid).toSeq = T
    rw [selfNodeIn, huuid, hfind, if_pos hmember, h0]
    rfl
  refine ⟨T, hT, hstate, hview, hr, fun u n hn => ?_⟩
  obtain ⟨hm, n1, -, rfl⟩ := hkept u n hn
  exact ⟨hm, rfl, rfl, rfl, rfl, rfl⟩

end PcProto

/-- Two members of one view that take the same install message both become
    primary in the same primary view and resume total order at the same TO
    seqno: the greatest of -1 and the seqnos of the message's primary nodes
    (of all its nodes when none is primary).  Every node either keeps is a
    member, and the two agree on everything the install sets in it. -/
theorem install_agreement {p q r r' : PcProto} {msg : PcMessage} {source source' : Uuid}
    (hview : p.currentView = q.currentView)
    (hp : p.state = .install ∨ p.state = .nonPrim) (hq : q.state = .install ∨ q.state = .nonPrim)
    (hpb : msg.flags &&& fBootstrap = 0 ∨ p.state = .nonPrim)
    (hqb : msg.flags &&& fBootstrap = 0 ∨ q.state = .nonPrim)
    (hpm : p.uuid ∈ p.currentView.members.keys) (hqm : q.uuid ∈ q.currentView.members.keys)
    (hpself : (p.instances.find? p.uuid).isSome) (hqself : (q.instances.find? q.uuid).isSome)
    (hr : p.handleInstall msg source = .ok r) (hr' : q.handleInstall msg source' = .ok r') :
    r.state = .prim ∧ r'.state = .prim ∧ r.pcView.id = r'.pcView.id ∧ r.toSeq = r'.toSeq ∧
      IsGreatest (insert (-1) (installSeqnos msg.nodeMap)) r.toSeq ∧
      ∀ u n n', r.instances.find? u = some n → r'.instances.find? u = some n' →
        u ∈ p.currentView.members.keys ∧ n.prim ∧ n'.prim ∧ n.lastPrim = n'.lastPrim ∧
          n.lastSeq = n'.lastSeq ∧ n.toSeq = n'.toSeq ∧ n.un = n'.un := by
  obtain ⟨T, hT, hs, hid, hseq, hn⟩ := PcProto.handleInstall_resumes hp hpb hpm hpself hr
  obtain ⟨T', hT', hs', hid', hseq', hn'⟩ := PcProto.handleInstall_resumes hq hqb hqm hqself hr'
  -- both read the seqno off the same message
  have hTT : T = T' := Except.ok.inj (hT.symm.trans hT')
  subst hTT
  refine ⟨hs, hs', by rw [hid, hid', hview], by rw [hseq, hseq'], hseq ▸ (installToSeq_ok hT).1, ?_⟩
  intro u n n' h h'
  obtain ⟨hm, hpn, hln, hsn, htn, hun⟩ := hn u n h
  obtain ⟨-, hpn', hln', hsn', htn', hun'⟩ := hn' u n' h'
  exact ⟨hm, hpn, hpn', by rw [hln, hln', hview], by rw [hsn, hsn'], by rw [htn, htn'], by rw [hun, hun']⟩

/-- The members of the example of `Galera.Pc.StateExchange` once they have
    found their view primary. -/
def fixtureInstalling (self : Uuid) : PcProto := { fixtureMember self with state := .install }

/-- The install message the first of them sends: the own nodes of the two
    state messages. -/
def fixtureInstall : PcMessage :=
  { version := 0, flags := 0, type := .install, seq := 0, crc16 := 0, nodeMap := fixtureInstances }

/-- A member after `handle_install`, unchanged where it throws. -/
def runInstall (p : PcProto) (msg : PcMessage) (source : Uuid) : PcProto :=
  match p.handleInstall msg source with
  | .ok r => r
  | .error _ => p

theorem install_agreement_two_members :
    (runInstall (fixtureInstalling (fixtureUuid 1)) fixtureInstall (fixtureUuid 1)).state = .prim ∧
      (runInstall (fixtureInstalling (fixtureUuid 2)) fixtureInstall (fixtureUuid 1)).state = .prim ∧
      (runInstall (fixtureInstalling (fixtureUuid 1)) fixtureInstall (fixtureUuid 1)).pcView.id =
        (runInstall (fixtureInstalling (fixtureUuid 2)) fixtureInstall (fixtureUuid 1)).pcView.id ∧
      (runInstall (fixtureInstalling (fixtureUuid 1)) fixtureInstall (fixtureUuid 1)).toSeq =
        (runInstall (fixtureInstalling (fixtureUuid 2)) fixtureInstall (fixtureUuid 1)).toSeq ∧
      IsGreatest (insert (-1) (installSeqnos fixtureInstall.nodeMap))
        (runInstall (fixtureInstalling (fixtureUuid 1)) fixtureInstall (fixtureUuid 1)).toSeq ∧
      ∀ u n n', (runInstall (fixtureInstalling (fixtureUuid 1)) fixtureInstall (fixtureUuid 1)).instances.find? u = some n →
        (runInstall (fixtureInstalling (fixtureUuid 2)) fixtureInstall (fixtureUuid 1)).instances.find? u = some n' →
        u ∈ (fixtureInstalling (fixtureUuid 1)).currentView.members.keys ∧ n.prim ∧ n'.prim ∧
          n.lastPrim = n'.lastPrim ∧ n.lastSeq = n'.lastSeq ∧ n.toSeq = n'.toSeq ∧ n.un = n'.un := by
  have hr : (fixtureInstalling (fixtureUuid 1)).handleInstall fixtureInstall (fixtureUuid 1) =
      .ok (runInstall (fixtureInstalling (fixtureUuid 1)) fixtureInstall (fixtureUuid 1)) := rfl
  have hr' : (fixtureInstalling (fixtureUuid 2)).handleInstall fixtureInstall (fixtureUuid 1) =
      .ok (runInstall (fixtureInstalling (fixtureUuid 2)) fixtureInstall (fixtureUuid 1)) := rfl
  refine install_agreement ?_ (.inl ?_) (.inl ?_) (.inl ?_) (.inl ?_) ?_ ?_ ?_ ?_ hr hr'
  · rfl
  all_goals decide

/-- Both resume at the TO seqno 5 of the primary component they came from. -/
example : (runInstall (fixtureInstalling (fixtureUuid 2)) fixtureInstall (fixtureUuid 1)).toSeq = 5 := by decide

end Galera.Pc
