/-
  Galera.Gcs.Quorum
  ─────────────────
  **WHAT THE QUORUM DECISION GUARANTEES, AND WHERE IT SLIPS.**

  Facts about `gcsStateMsgGetQuorum` over every array of state messages.

    * `stateQuorumInherit_rep` — on the inherit path every joined member
      carries the group UUID of the representative and has received no
      more than it, and the representative is itself a joined member;
    * `getQuorum_inherit` — hence a primary quorum reached while some
      member is joined continues the history of the most advanced joined
      member;
    * `getQuorum_version` — the quorum's state exchange version is the
      lowest of the members';
    * `stateRepCandidateLoop_spec` — `state_rep_candidate` returns one of
      the candidates with the greatest `prim_seqno` among those with a
      group UUID, and once the first candidate has a group UUID, it stops
      on any candidate from another group.

  `state_rep_candidate` keeps a running `state_seqno` beside its
  representative but does not update it when a candidate with a higher
  `prim_seqno` takes over, so the tie-break on `received` among the
  candidates of the last primary component compares against the first
  candidate's seqno.  `get_quorum_remerge_not_most_advanced` runs the
  quorum on three members where this re-merges a component from a member
  that had received 5 actions, beside one of the same component that had
  received 10; `get_quorum_depends_on_order` runs it on the same members
  with the one that had received 10 first, and the quorum then starts
  from 10: the decision depends on the order of the members.
-/
import Mathlib
import Galera.Gcs.StateMsg

namespace Galera.Gcs

/-! ## §1. `state_nodes_compare` -/

theorem stateNodesCompare_eq_or (l r : StateMsg) :
    stateNodesCompare l r = l ∨ stateNodesCompare l r = r := by
  unfold stateNodesCompare
  split_ifs <;> simp

theorem received_le_stateNodesCompare_left (l r : StateMsg) :
    l.received ≤ (stateNodesCompare l r).received := by
  unfold stateNodesCompare
  split_ifs <;> omega

theorem received_le_stateNodesCompare_right (l r : StateMsg) :
    r.received ≤ (stateNodesCompare l r).received := by
  unfold stateNodesCompare
  split_ifs <;> omega

/-! ## §2. The inherit path -/

/-- The loop of `state_quorum_inherit`: a representative it returns has
    the starting representative's group UUID and is at least as advanced;
    it is that state or a later joined one, and every later joined state
    shares the UUID and has received no more. -/
theorem stateQuorumInheritLoop_spec {rep r : StateMsg} {rest : List StateMsg}
    (h : stateQuorumInheritLoop rep rest = some r) :
    r.groupUuid = rep.groupUuid ∧ rep.received ≤ r.received ∧
    (r = rep ∨ (r ∈ rest ∧ gcsNodeIsJoined r.currentState)) ∧
    ∀ s ∈ rest, gcsNodeIsJoined s.currentState →
      s.groupUuid = rep.groupUuid ∧ s.received ≤ r.received := by
  induction rest generalizing rep with
  | nil =>
    simp only [stateQuorumInheritLoop, Option.some.injEq] at h
    subst h
    simp
  | cons s rest ih =>
    simp only [stateQuorumInheritLoop] at h
    by_cases hj : gcsNodeIsJoined s.currentState
    · rw [if_pos hj] at h
      by_cases hu : rep.groupUuid = s.groupUuid
      · rw [if_neg (not_not.mpr hu)] at h
        obtain ⟨hg, hle, hwho, hall⟩ := ih h
        -- the running representative keeps the group UUID of `rep`
        have hcmp : (stateNodesCompare rep s).groupUuid = rep.groupUuid := by
          rcases stateNodesCompare_eq_or rep s with h' | h' <;> rw [h']
          exact hu.symm
        have hrep := received_le_stateNodesCompare_left rep s
        have hs := received_le_stateNodesCompare_right rep s
        refine ⟨hg.trans hcmp, Int.le_trans hrep hle, ?_, ?_⟩
        · rcases hwho with h' | h'
          · rcases stateNodesCompare_eq_or rep s with h'' | h''
            · exact .inl (h'.trans h'')
            · exact .inr ⟨by simp [h'.trans h''], by rwa [h'.trans h'']⟩
          · exact .inr ⟨List.mem_cons_of_mem _ h'.1, h'.2⟩
        · intro t ht htj
          rcases List.mem_cons.mp ht with rfl | ht
          · exact ⟨hu.symm, Int.le_trans hs hle⟩
          · have := hall t ht htj
            exact ⟨this.1.trans hcmp, this.2⟩
      · rw [if_pos hu] at h
        exact absurd h (by simp)
    · rw [if_neg hj] at h
      obtain ⟨hg, hle, hwho, hall⟩ := ih h
      refine ⟨hg, hle, ?_, ?_⟩
      · rcases hwho with h' | h'
        · exact .inl h'
        · exact .inr ⟨List.mem_cons_of_mem _ h'.1, h'.2⟩
      · intro t ht htj
        rcases List.mem_cons.mp ht with rfl | ht
        · exact absurd htj hj
        · exact hall t ht htj

/-- The joined states of an array all lie past the non-joined prefix
    that `state_quorum_inherit` skips. -/
theorem mem_dropWhile_of_joined {states : List StateMsg} {s : StateMsg}
    (hs : s ∈ states) (hj : gcsNodeIsJoined s.currentState) :
    s ∈ states.dropWhile (fun s => !gcsNodeIsJoined s.currentState) := by
  rw [← List.takeWhile_append_dropWhile (p := fun s => !gcsNodeIsJoined s.currentState)
    (l := states)] at hs
  rcases List.mem_append.mp hs with ht | hd
  · have := List.mem_takeWhile_imp ht
    simp [hj] at this
  · exact hd

/-- `state_quorum_inherit` with a representative: the quorum adopts it, it
    is a joined member, and every joined member carries its group UUID
    and has received no more than it. -/
theorem stateQuorumInherit_rep {states : List StateMsg} {quorum q : StateQuorum}
    {r : StateMsg} (h : stateQuorumInherit states quorum = (q, .rep r)) :
    q = quorum.adopt r ∧ r ∈ states ∧ gcsNodeIsJoined r.currentState ∧
    ∀ s ∈ states, gcsNodeIsJoined s.currentState →
      s.groupUuid = r.groupUuid ∧ s.received ≤ r.received := by
  unfold stateQuorumInherit at h
  split at h
  · simp at h
  · rename_i first rest hdrop
    have hsub : first :: rest ⊆ states := by
      rw [← hdrop]
      exact (List.dropWhile_sublist _).subset
    -- the first joined state is the one the skip stopped at
    have hfirst : gcsNodeIsJoined first.currentState := by
      have := List.head_dropWhile_not (fun s => !gcsNodeIsJoined s.currentState)
        (l := states) (by simp [hdrop])
      simpa [hdrop] using this
    split at h
    · simp at h
    · rename_i rep hloop
      simp only [Prod.mk.injEq, QuorumRep.rep.injEq] at h
      obtain ⟨rfl, rfl⟩ := h
      obtain ⟨hg, hle, hwho, hall⟩ := stateQuorumInheritLoop_spec hloop
      refine ⟨rfl, ?_, ?_, ?_⟩
      · rcases hwho with rfl | h'
        · exact hsub List.mem_cons_self
        · exact hsub (List.mem_cons_of_mem _ h'.1)
      · rcases hwho with rfl | h'
        · exact hfirst
        · exact h'.2
      · intro s hs hsj
        have hd := mem_dropWhile_of_joined hs hsj
        rw [hdrop] at hd
        rcases List.mem_cons.mp hd with rfl | hd
        · exact ⟨hg.symm, hle⟩
        · have := hall s hd hsj
          exact ⟨this.1.trans hg.symm, this.2⟩

/-- `state_quorum_inherit` finds no representative only when no member is
    joined. -/
theorem stateQuorumInherit_null {states : List StateMsg} {quorum q : StateQuorum}
    (h : stateQuorumInherit states quorum = (q, .null)) :
    q = quorum ∧ ∀ s ∈ states, gcsNodeIsJoined s.currentState = false := by
  unfold stateQuorumInherit at h
  split at h
  · rename_i hdrop
    simp only [Prod.mk.injEq] at h
    refine ⟨h.1.symm, fun s hs => ?_⟩
    by_contra hj
    have := mem_dropWhile_of_joined hs (by simpa using hj)
    simp [hdrop] at this
  · split at h <;> simp at h

/-- `state_quorum_inherit` leaves the quorum as it is unless it returns a
    representative. -/
theorem stateQuorumInherit_bad {states : List StateMsg} {quorum q : StateQuorum}
    (h : stateQuorumInherit states quorum = (q, .bad)) : q = quorum := by
  unfold stateQuorumInherit at h
  split at h
  · simp at h
  · split at h
    · simp only [Prod.mk.injEq] at h
      exact h.1.symm
    · simp at h

/-! ## §3. The protocol versions leave the decision alone -/

/-- The fold of `quorumProtoVer` over the members touches only the three
    protocol versions. -/
theorem foldl_protoVer_frame (states : List StateMsg) (q : StateQuorum) :
    ∃ g r a, states.foldl (fun (q : StateQuorum) s =>
      { q with gcsProtoVer := min s.gcsProtoVer q.gcsProtoVer,
               replProtoVer := min s.replProtoVer q.replProtoVer,
               applProtoVer := min s.applProtoVer q.applProtoVer }) q =
      { q with gcsProtoVer := g, replProtoVer := r, applProtoVer := a } := by
  induction states generalizing q with
  | nil => exact ⟨q.gcsProtoVer, q.replProtoVer, q.applProtoVer, rfl⟩
  | cons s rest ih =>
    obtain ⟨g, r, a, h⟩ := ih _
    exact ⟨g, r, a, by rw [List.foldl_cons, h]⟩

/-- `quorumProtoVer` changes only the three protocol versions. -/
theorem quorumProtoVer_frame (states : List StateMsg) (rep : StateMsg) (q : StateQuorum) :
    ∃ g r a, quorumProtoVer states rep q =
      { q with gcsProtoVer := g, replProtoVer := r, applProtoVer := a } := by
  obtain ⟨g, r, a, h⟩ := foldl_protoVer_frame states
    { q with gcsProtoVer := rep.gcsProtoVer, replProtoVer := rep.replProtoVer,
             applProtoVer := rep.applProtoVer }
  unfold quorumProtoVer
  simp only [h]
  split_ifs <;> exact ⟨_, _, _, rfl⟩

/-! ## §4. A primary quorum while some member is joined -/

theorem quorumFallback_of_primary {next : StateQuorum → StateQuorum × QuorumRep}
    {quorum : StateQuorum} {rep : QuorumRep} (h : quorum.primary = true) :
    quorumFallback next (quorum, rep) = (quorum, rep) := by
  simp [quorumFallback, h]

theorem quorumFallback_bad {next : StateQuorum → StateQuorum × QuorumRep}
    {quorum : StateQuorum} : quorumFallback next (quorum, .bad) = (quorum, .bad) := by
  simp [quorumFallback]

/-- The quorum `gcs_state_msg_get_quorum` reaches while some member is
    joined comes from the inherit path: it is primary only when that path
    found a representative, whose decision it keeps. -/
theorem getQuorum_of_joined {s0 : StateMsg} {rest : List StateMsg}
    (hj : ∃ s ∈ s0 :: rest, gcsNodeIsJoined s.currentState)
    (hp : (gcsStateMsgGetQuorum s0 rest).primary = true) :
    ∃ quorum r, stateQuorumInherit (s0 :: rest) quorum = (quorum.adopt r, .rep r) ∧
      (gcsStateMsgGetQuorum s0 rest).groupUuid = r.groupUuid ∧
      (gcsStateMsgGetQuorum s0 rest).actId = r.received ∧
      (gcsStateMsgGetQuorum s0 rest).confId = r.primSeqno := by
  rcases hin : stateQuorumInherit (s0 :: rest) (initialQuorum s0 rest) with ⟨q, rep⟩
  have hq : gcsStateMsgGetQuorum s0 rest = quorumResult (s0 :: rest)
      (quorumFallback (stateQuorumRemerge (s0 :: rest) true)
        (quorumFallback (stateQuorumRemerge (s0 :: rest) false) (q, rep))) := by
    rw [gcsStateMsgGetQuorum, hin]
  rw [hq] at hp ⊢
  rcases rep with _ | _ | r
  · -- no joined member: impossible here
    obtain ⟨s, hs, hsj⟩ := hj
    have := (stateQuorumInherit_null hin).2 s hs
    simp [hsj] at this
  · -- conflicting group UUIDs: the quorum stays the initial, non-primary one
    have := stateQuorumInherit_bad hin
    subst this
    simp [quorumFallback_bad, quorumResult, initialQuorum, gcsQuorumNonPrimary] at hp
  · obtain ⟨rfl, -⟩ := stateQuorumInherit_rep hin
    have hprim : ((initialQuorum s0 rest).adopt r).primary = true := rfl
    obtain ⟨g, r', a, hpv⟩ := quorumProtoVer_frame (s0 :: rest) r ((initialQuorum s0 rest).adopt r)
    refine ⟨initialQuorum s0 rest, r, hin, ?_⟩
    rw [quorumFallback_of_primary hprim, quorumFallback_of_primary hprim]
    simp only [quorumResult, hprim, if_true, hpv]
    exact ⟨rfl, rfl, rfl⟩

/-- A primary quorum reached while some member is joined continues the
    history of the most advanced joined member: every joined member
    carries its group UUID and has received no more than its `act_id`,
    and its `act_id` and `conf_id` are one joined member's `received`
    and `prim_seqno`. -/
theorem getQuorum_inherit {s0 : StateMsg} {rest : List StateMsg}
    (hj : ∃ s ∈ s0 :: rest, gcsNodeIsJoined s.currentState)
    (hp : (gcsStateMsgGetQuorum s0 rest).primary = true) :
    (∀ s ∈ s0 :: rest, gcsNodeIsJoined s.currentState →
      s.groupUuid = (gcsStateMsgGetQuorum s0 rest).groupUuid ∧
      s.received ≤ (gcsStateMsgGetQuorum s0 rest).actId) ∧
    ∃ s ∈ s0 :: rest, gcsNodeIsJoined s.currentState ∧
      (gcsStateMsgGetQuorum s0 rest).actId = s.received ∧
      (gcsStateMsgGetQuorum s0 rest).confId = s.primSeqno := by
  obtain ⟨quorum, r, hin, hg, ha, hc⟩ := getQuorum_of_joined hj hp
  obtain ⟨-, hmem, hrj, hall⟩ := stateQuorumInherit_rep hin
  rw [hg, ha, hc]
  exact ⟨hall, r, hmem, hrj, rfl, rfl⟩

/-! ## §5. The state exchange version

The quorum's `version` is the lowest version the members support; no
procedure changes it.  `last_applied_proto_ver` is read off it. -/

theorem stateQuorumInherit_version (states : List StateMsg) (quorum : StateQuorum) :
    (stateQuorumInherit states quorum).1.version = quorum.version := by
  unfold stateQuorumInherit
  split
  · rfl
  · split <;> rfl

theorem stateQuorumRemerge_version (states : List StateMsg) (bootstrap : Bool)
    (quorum : StateQuorum) : (stateQuorumRemerge states bootstrap quorum).1.version =
      quorum.version := by
  unfold stateQuorumRemerge
  split
  · rfl
  · split <;> rfl

theorem quorumFallback_version {next : StateQuorum → StateQuorum × QuorumRep}
    (hnext : ∀ q, (next q).1.version = q.version) (p : StateQuorum × QuorumRep) :
    (quorumFallback next p).1.version = p.1.version := by
  obtain ⟨quorum, rep⟩ := p
  simp only [quorumFallback]
  split
  · exact hnext quorum
  · rfl

theorem quorumResult_version (states : List StateMsg) (p : StateQuorum × QuorumRep) :
    (quorumResult states p).version = p.1.version := by
  obtain ⟨quorum, rep⟩ := p
  cases rep with
  | rep r =>
    simp only [quorumResult]
    split
    · obtain ⟨g, r', a, h⟩ := quorumProtoVer_frame states r quorum
      rw [h]
    · rfl
  | null | bad => rfl

theorem getQuorum_version (s0 : StateMsg) (rest : List StateMsg) :
    (gcsStateMsgGetQuorum s0 rest).version = (initialQuorum s0 rest).version := by
  unfold gcsStateMsgGetQuorum
  rw [quorumResult_version, quorumFallback_version (stateQuorumRemerge_version _ true),
    quorumFallback_version (stateQuorumRemerge_version _ false), stateQuorumInherit_version]

/-! ## §6. `state_rep_candidate` -/

/-- The loop of `state_rep_candidate`, started with its running
    `prim_seqno` at its representative's: it returns the representative
    or a later candidate, whose `prim_seqno` is the greatest among the
    candidates with a group UUID; when it started from a group UUID, each
    of those carries it. -/
theorem stateRepCandidateLoop_spec {u : GuUuid} {rep r : Candidate} {ss : Int}
    {cs : List Candidate} (h : stateRepCandidateLoop u rep ss rep.primSeqno cs = some r) :
    (r = rep ∨ r ∈ cs) ∧ rep.primSeqno ≤ r.primSeqno ∧
    ∀ c ∈ cs, c.stateUuid ≠ .nil →
      c.primSeqno ≤ r.primSeqno ∧ (u ≠ .nil → c.stateUuid = u) := by
  induction cs generalizing rep ss with
  | nil =>
    simp only [stateRepCandidateLoop, Option.some.injEq] at h
    subst h
    simp
  | cons c cs ih =>
    simp only [stateRepCandidateLoop] at h
    -- each branch continues the loop with a representative it names
    have step : ∀ rep' ss', stateRepCandidateLoop u rep' ss' rep'.primSeqno cs = some r →
        rep.primSeqno ≤ rep'.primSeqno → (rep' = rep ∨ rep' = c) →
        (c.stateUuid ≠ .nil → c.primSeqno ≤ rep'.primSeqno ∧ (u ≠ .nil → c.stateUuid = u)) →
        (r = rep ∨ r ∈ c :: cs) ∧ rep.primSeqno ≤ r.primSeqno ∧
        ∀ d ∈ c :: cs, d.stateUuid ≠ .nil →
          d.primSeqno ≤ r.primSeqno ∧ (u ≠ .nil → d.stateUuid = u) := by
      intro rep' ss' h' hle hwho hc
      obtain ⟨hr, hle', hall⟩ := ih h'
      refine ⟨?_, Int.le_trans hle hle', ?_⟩
      · rcases hr with rfl | hr
        · rcases hwho with rfl | rfl
          · exact .inl rfl
          · exact .inr List.mem_cons_self
        · exact .inr (List.mem_cons_of_mem _ hr)
      · intro d hd hdu
        rcases List.mem_cons.mp hd with rfl | hd
        · obtain ⟨h1, h2⟩ := hc hdu
          exact ⟨Int.le_trans h1 hle', h2⟩
        · exact hall d hd hdu
    -- a candidate that passes the group check carries the first group UUID
    have hsame : ¬(u ≠ .nil ∧ u ≠ c.stateUuid) → u ≠ .nil → c.stateUuid = u := by
      intro hgrp hu
      by_contra hne
      exact hgrp ⟨hu, Ne.symm hne⟩
    by_cases hnil : c.stateUuid = .nil
    · rw [if_pos hnil] at h
      exact step rep ss h (Int.le_refl _) (.inl rfl) (fun h' => absurd hnil h')
    rw [if_neg hnil] at h
    by_cases hgrp : u ≠ .nil ∧ u ≠ c.stateUuid
    · rw [if_pos hgrp] at h
      exact absurd h (by simp)
    rw [if_neg hgrp] at h
    by_cases hlt : rep.primSeqno < c.primSeqno
    · rw [if_pos hlt] at h
      exact step c ss h (Int.le_of_lt hlt) (.inr rfl)
        fun _ => ⟨Int.le_refl _, hsame hgrp⟩
    rw [if_neg hlt] at h
    by_cases heq : rep.primSeqno = c.primSeqno ∧ ss < c.stateSeqno
    · rw [if_pos heq] at h
      rw [heq.1] at h
      exact step c c.stateSeqno h (Int.le_of_eq heq.1) (.inr rfl)
        fun _ => ⟨Int.le_refl _, hsame hgrp⟩
    rw [if_neg heq] at h
    exact step rep ss h (Int.le_refl _) (.inl rfl)
      fun _ => ⟨Int.le_of_not_gt hlt, hsame hgrp⟩

/-- `state_rep_candidate` returns a candidate whose `prim_seqno` is the
    greatest among the first candidate and those with a group UUID; when
    the first has a group UUID, it stops on any candidate of another
    group rather than return. -/
theorem stateRepCandidate_spec {c0 r : Candidate} {cs : List Candidate}
    (h : stateRepCandidate c0 cs = some r) :
    (r = c0 ∨ r ∈ cs) ∧ c0.primSeqno ≤ r.primSeqno ∧
    ∀ c ∈ cs, c.stateUuid ≠ .nil →
      c.primSeqno ≤ r.primSeqno ∧ (c0.stateUuid ≠ .nil → c.stateUuid = c0.stateUuid) :=
  stateRepCandidateLoop_spec h

/-! ## §7. The running `state_seqno` goes stale -/

/-- A member in a non-primary component that was SYNCED in its last
    primary component `primSeqno` of group 1, having received `received`
    actions, with state exchange version 6. -/
def remergeState (received primSeqno : Int) : StateMsg :=
  { stateUuid := ⟨7⟩, groupUuid := ⟨1⟩, primUuid := ⟨primSeqno.toNat⟩, primSeqno := primSeqno,
    received := received, version := 6, gcsProtoVer := 2, replProtoVer := 10,
    applProtoVer := 4, primGcsVer := 2, primReplVer := 10, primApplVer := 4,
    primJoined := 3, desyncCount := 0, primState := .synced, currentState := .nonPrim,
    flags := 0 }

/-- Three members re-merge: one left component 1 after 3 actions, two left
    component 2 after 10 and after 5.  All three are re-merge candidates,
    yet the quorum continues component 2 from the member that had
    received 5: the one with 10 is not the representative. -/
theorem get_quorum_remerge_not_most_advanced :
    (gcsStateMsgGetQuorum (remergeState 3 1) [remergeState 10 2, remergeState 5 2]).primary
      = true ∧
    (gcsStateMsgGetQuorum (remergeState 3 1) [remergeState 10 2, remergeState 5 2]).confId = 2 ∧
    (gcsStateMsgGetQuorum (remergeState 3 1) [remergeState 10 2, remergeState 5 2]).actId = 5 ∧
    remergeCond false (remergeState 10 2) = true ∧
    (remergeState 10 2).currentState ≠ .joiner ∧
    (remergeState 10 2).primSeqno = 2 ∧ (remergeState 10 2).received = 10 := by
  decide +kernel

/-- The same three members, the one that had received 10 first: the
    candidates are met in another order, the running `state_seqno` is
    now that member's, and the quorum continues component 2 from 10
    actions where the first order gives 5. -/
theorem get_quorum_depends_on_order :
    [remergeState 3 1, remergeState 10 2, remergeState 5 2].Perm
        [remergeState 10 2, remergeState 3 1, remergeState 5 2] ∧
      (gcsStateMsgGetQuorum (remergeState 3 1) [remergeState 10 2, remergeState 5 2]).actId = 5 ∧
      (gcsStateMsgGetQuorum (remergeState 10 2) [remergeState 3 1, remergeState 5 2]).actId = 10 := by
  refine ⟨List.Perm.swap _ _ _, ?_⟩
  decide +kernel

end Galera.Gcs
