/-
  Galera.Evs.InsertOrder
  ──────────────────────
  **INSERTING INTO THE INPUT MAP IS ORDER INDEPENDENT.**

  The messages of a view arrive in any order.  When their seqno
  intervals do not overlap within a source, every insertion passes the
  checks of `InputMap::insert`, whatever came before, and what the map
  holds afterwards is fixed by the set of messages alone: the members'
  ranges by the received keys (`InputMapInv`), `aru_seq` by the ranges,
  and the message index by which message each key came with.

    * `msgIter`, `msgIter_eq_of_lookup` — the message index in the order a
      `std::map` iterates it, increasing `(seq, index)`; two indexes with
      the same entries iterate alike;
    * `insertLoop_lookup` — the loop of `insert` adds the entries of the
      seqnos it covers and changes no other;
    * `InputMap.insert_fresh` — a message none of whose seqnos has been
      received passes every check and adds exactly its entries;
    * `insertRun_ok` — a run of such inserts, message by message;
    * `InputMapInv.nodeIndex_eq` — two maps tracking the same keys, with
      the same members, have the same nodes;
    * `input_map_insert_order_independent` — two orders of the same
      messages from a freshly reset map end in the same map.
-/
import Mathlib
import Galera.Evs.InputMapInv

namespace Galera.Evs

open Galera.ListRel

variable {α : Type}

/-! ## §1. The iteration order of the message index -/

/-- `!(b < a)` for `InputMapMsgKey::operator<`: `a` does not come after
    `b`. -/
def InputMapMsgKey.le (a b : InputMapMsgKey) : Bool := !b.lt a

/-- An entry of the message index. -/
abbrev InputMapEntry (α : Type) := Σ _ : InputMapMsgKey, InputMapMsg α

/-- Entries ordered by key. -/
def EntryLe (a b : InputMapEntry α) : Prop := a.1.le b.1 = true

instance : DecidableRel (@EntryLe α) := fun a b => inferInstanceAs (Decidable (a.1.le b.1 = true))

/-- The entries of a message index in the order `std::map` iterates
    them: increasing `(seq, index)`. -/
def msgIter (mi : InputMapMsgIndex α) : List (InputMapEntry α) :=
  mi.entries.insertionSort EntryLe

theorem InputMapMsgKey.le_iff {a b : InputMapMsgKey} :
    a.le b = true ↔ a.seq < b.seq ∨ a.seq = b.seq ∧ a.index ≤ b.index := by
  simp only [InputMapMsgKey.le, InputMapMsgKey.lt, Bool.not_eq_eq_eq_not, Bool.not_true,
    decide_eq_false_iff_not]
  omega

theorem InputMapMsgKey.le_trans {a b c : InputMapMsgKey} (h₁ : a.le b = true) (h₂ : b.le c = true) :
    a.le c = true := by
  rw [InputMapMsgKey.le_iff] at h₁ h₂ ⊢
  omega

theorem InputMapMsgKey.le_total (a b : InputMapMsgKey) : (a.le b || b.le a) = true := by
  rw [Bool.or_eq_true, InputMapMsgKey.le_iff, InputMapMsgKey.le_iff]
  omega

theorem InputMapMsgKey.le_antisymm {a b : InputMapMsgKey} (h₁ : a.le b = true) (h₂ : b.le a = true) :
    a = b := by
  obtain ⟨i, s⟩ := a
  obtain ⟨j, t⟩ := b
  rw [InputMapMsgKey.le_iff] at h₁ h₂
  dsimp only at h₁ h₂
  simp only [InputMapMsgKey.mk.injEq]
  omega

instance : Std.Total (@EntryLe α) :=
  ⟨fun a b => by simpa [EntryLe] using InputMapMsgKey.le_total a.1 b.1⟩

instance : IsTrans (InputMapEntry α) EntryLe :=
  ⟨fun _ _ _ h₁ h₂ => InputMapMsgKey.le_trans h₁ h₂⟩

/-- The iteration visits keys in increasing order … -/
theorem msgIter_pairwise (mi : InputMapMsgIndex α) : (msgIter mi).Pairwise EntryLe :=
  List.pairwise_insertionSort EntryLe _

/-- … and every entry once. -/
theorem msgIter_perm (mi : InputMapMsgIndex α) : (msgIter mi).Perm mi.entries :=
  List.perm_insertionSort EntryLe _

/-- Two message indexes with the same entries iterate alike: the order
    is fixed by the keys, which are unique. -/
theorem msgIter_eq_of_lookup {mi₁ mi₂ : InputMapMsgIndex α} (h : ∀ k, mi₁.lookup k = mi₂.lookup k) :
    msgIter mi₁ = msgIter mi₂ := by
  have hperm : mi₁.entries.Perm mi₂.entries :=
    List.lookup_ext mi₁.nodupKeys mi₂.nodupKeys fun k v => by
      show v ∈ mi₁.lookup k ↔ v ∈ mi₂.lookup k
      rw [h k]
  refine List.Perm.eq_of_pairwise ?_ (msgIter_pairwise mi₁) (msgIter_pairwise mi₂)
    (((msgIter_perm mi₁).trans hperm).trans (msgIter_perm mi₂).symm)
  -- entries at the same key are the same entry
  rintro ⟨k, v⟩ ⟨k', v'⟩ hv hv' hle hle'
  obtain rfl : k = k' := InputMapMsgKey.le_antisymm hle hle'
  have h₁ : v ∈ mi₁.lookup k := AList.mem_lookup_iff.2 ((msgIter_perm mi₁).subset hv)
  have h₂ : v' ∈ mi₂.lookup k := AList.mem_lookup_iff.2 ((msgIter_perm mi₂).subset hv')
  rw [h k] at h₁
  rw [Option.mem_unique h₁ h₂]

/-! ## §2. The entries the loop of `insert` adds -/

section Loop

variable (rec : InputMapMsgIndex α) (i : Nat) (msg : UserMessage) (rb : α)

/-- One iteration at a seqno not in the index: its entry goes in. -/
theorem insertStep_of_notMem {mi : InputMapMsgIndex α} {rg : Range} {s : Int}
    (hs : (⟨i, s⟩ : InputMapMsgKey) ∉ mi) :
    insertStep rec i msg rb (mi, rg) s =
      some ((mi.insert ⟨i, s⟩ (insertEntry msg rb s) : InputMapMsgIndex α),
        rg.advance (inIndexes (mi.insert ⟨i, s⟩ (insertEntry msg rb s) : InputMapMsgIndex α) rec i) s) := by
  have hfound : (if rg.hs < s then false else decide ((⟨i, s⟩ : InputMapMsgKey) ∈ mi)) = false := by
    split <;> simp [hs]
  simp only [insertStep, hfound, Bool.false_eq_true, if_false, insertUnique_of_notMem _ hs,
    Option.bind_eq_bind, Option.bind_some]
  rfl

/-- The loop over `n` seqnos from `s`, none of them in the index: it adds
    their entries and changes no other.  Induction on the iterations. -/
theorem insertLoop_lookup : ∀ (n : Nat) {s : Int} {mi mi' : InputMapMsgIndex α} {rg rg' : Range},
    (∀ k : Nat, k < n → (⟨i, s + k⟩ : InputMapMsgKey) ∉ mi) →
    insertLoop rec i msg rb n s (mi, rg) = some (mi', rg') →
    ∀ k, mi'.lookup k =
      if k.index = i ∧ s ≤ k.seq ∧ k.seq < s + n then some (insertEntry msg rb k.seq) else mi.lookup k
  | 0, s, mi, mi', rg, rg', _, h, k => by
    rw [insertLoop, Option.some.injEq, Prod.mk.injEq] at h
    rw [← h.1, if_neg (by omega)]
  | n + 1, s, mi, mi', rg, rg', hfresh, h, k => by
    have hs : (⟨i, s⟩ : InputMapMsgKey) ∉ mi := by simpa using hfresh 0 (by omega)
    simp only [insertLoop, Option.bind_eq_bind, insertStep_of_notMem rec i msg rb hs] at h
    -- the rest of the loop runs from `s + 1` over the index with `s` in it
    have hfresh' : ∀ j : Nat, j < n →
        (⟨i, s + 1 + j⟩ : InputMapMsgKey) ∉ (mi.insert ⟨i, s⟩ (insertEntry msg rb s) : InputMapMsgIndex α) := by
      intro j hj hmem
      rcases (AList.mem_insert mi).1 hmem with heq | hmem
      · simp only [InputMapMsgKey.mk.injEq] at heq
        omega
      · exact hfresh (j + 1) (by omega) (by simpa [Int.add_assoc, Int.add_comm 1] using hmem)
    rw [insertLoop_lookup n hfresh' h k]
    by_cases hk : k = ⟨i, s⟩
    · subst hk
      dsimp only
      rw [if_neg (by omega), AList.lookup_insert, if_pos ⟨rfl, le_rfl, by omega⟩]
    · rw [AList.lookup_insert_ne hk]
      split_ifs with h₁ h₂ h₂
      · rfl
      · exact absurd ⟨h₁.1, by omega, by omega⟩ h₂
      · -- the key of this iteration
        obtain ⟨j, t⟩ := k
        simp only [InputMapMsgKey.mk.injEq] at hk h₁ h₂
        omega
      · rfl

end Loop

/-! ## §3. Inserting a message not yet received -/

section Insert

variable {im im' im'' : InputMap α} {recv : Set InputMapMsgKey}

/-- What inserts leave as it was: the recovery index, `safe_seq`, and
    each member's index and safe seqno. -/
structure InsertFrame (im im' : InputMap α) : Prop where
  recoveryIndex : im'.recoveryIndex = im.recoveryIndex
  safeSeq : im'.safeSeq = im.safeSeq
  nodes : im'.nodeIndex.map (fun n => (n.index, n.safeSeq)) = im.nodeIndex.map (fun n => (n.index, n.safeSeq))

theorem InsertFrame.refl (im : InputMap α) : InsertFrame im im := ⟨rfl, rfl, rfl⟩

theorem InsertFrame.trans (h₁ : InsertFrame im im') (h₂ : InsertFrame im' im'') : InsertFrame im im'' :=
  ⟨h₂.recoveryIndex.trans h₁.recoveryIndex, h₂.safeSeq.trans h₁.safeSeq, h₂.nodes.trans h₁.nodes⟩

theorem InsertFrame.length_eq (h : InsertFrame im im') : im'.nodeIndex.length = im.nodeIndex.length := by
  simpa using congrArg List.length h.nodes

/-- A message from a member of the view, with a meaningful seqno, none
    of whose seqnos has been received from it: `insert` passes every
    check, adds the entries of its seqnos and changes no other, and leaves
    the frame. -/
theorem InputMap.insert_fresh (h : InputMapInv im recv) {uuid : Nat} (hu : uuid < im.nodeIndex.length)
    {msg : UserMessage} (hseq : 0 ≤ msg.seq) (hrange : 0 ≤ msg.seqRange)
    (hfresh : ∀ k ∈ seqKeys uuid msg, k ∉ recv) (rb : α) :
    ∃ im' r, im.insert uuid msg rb = some (im', r) ∧
      (∀ k, im'.msgIndex.lookup k =
        if k ∈ seqKeys uuid msg then some (insertEntry msg rb k.seq) else im.msgIndex.lookup k) ∧
      InsertFrame im im' := by
  obtain ⟨node, hn⟩ : ∃ node, im.nodeIndex[uuid]? = some node := ⟨_, List.getElem?_eq_getElem hu⟩
  have hidx : node.index = uuid := h.index uuid node hn
  have hr := h.range uuid node hn
  -- the first seqno has not been received, so the checks pass
  have hkey : (⟨uuid, msg.seq⟩ : InputMapMsgKey) ∉ recv :=
    hfresh _ (mem_seqKeys.2 ⟨rfl, le_rfl, by dsimp only; omega⟩)
  have hlu : node.range.lu ≤ msg.seq := hr.lu.2 ⟨hseq, hkey⟩
  have hne : im.nodeIndex ≠ [] := fun hnil => by simp [hnil] at hn
  have haru : im.aruSeq + 1 ≤ node.range.lu :=
    (List.min?_eq_some_iff.1 (h.aru hne)).2 _ (List.mem_map.2 ⟨node, List.mem_of_getElem? hn, rfl⟩)
  rw [InputMap.insert_of_asserts im rb (by omega) (by omega) hn hlu]
  have hseen : ¬(msg.seq < node.range.lu ∨
      (msg.seq ≤ node.range.hs ∧ (⟨node.index, msg.seq⟩ : InputMapMsgKey) ∈ im.recoveryIndex)) := by
    rintro (hlt | ⟨-, hrec⟩)
    · omega
    · exact hkey (hidx ▸ h.indexes.recRecv _ hrec)
  rw [if_neg hseen]
  -- the loop runs over fresh seqnos
  have hfresh' : ∀ k : Nat, k < (msg.seqRange + 1).toNat →
      (⟨node.index, msg.seq + k⟩ : InputMapMsgKey) ∉ recv := by
    intro k hk
    exact hfresh _ (mem_seqKeys.2 ⟨hidx, by dsimp only; omega, by dsimp only; omega⟩)
  rw [← hidx] at hr
  obtain ⟨mi', rg', hloop, -, -, hmono⟩ :=
    insertLoop_ok msg rb (msg.seqRange + 1).toNat hr h.indexes (h.safe_lt_lu hn) hseq hfresh'
  -- no member's `lu` falls, so neither does `aru_seq`
  have hmem : rg'.lu ∈ (im.nodeIndex.set uuid { node with range := rg' }).map fun n => n.range.lu :=
    List.mem_map.2 ⟨_, List.mem_set hu _, rfl⟩
  obtain ⟨m, hm⟩ := Option.isSome_iff_exists.1 (List.isSome_min?_of_mem hmem)
  have hle : im.aruSeq ≤ m - 1 := by
    obtain ⟨hmin, -⟩ := List.min?_eq_some_iff.1 hm
    obtain ⟨n', hn', rfl⟩ := List.mem_map.1 hmin
    rcases List.mem_or_eq_of_mem_set hn' with hn' | rfl
    · have := (List.min?_eq_some_iff.1 (h.aru hne)).2 _ (List.mem_map.2 ⟨n', hn', rfl⟩)
      omega
    · dsimp only
      omega
  have hupd : InputMap.updateAru
      ({ im with nodeIndex := im.nodeIndex.set uuid { node with range := rg' }, msgIndex := mi' } : InputMap α) =
        some { im with nodeIndex := im.nodeIndex.set uuid { node with range := rg' }, msgIndex := mi',
                       aruSeq := m - 1 } :=
    InputMap.updateAru_eq_some.2 ⟨m, hm, hle, rfl⟩
  refine ⟨{ im with nodeIndex := im.nodeIndex.set uuid { node with range := rg' }, msgIndex := mi', aruSeq := m - 1 },
    rg', ?_, fun k => ?_, ⟨rfl, rfl, ?_⟩⟩
  · rw [hloop, Option.bind_some]
    dsimp only
    rw [hupd]
    rfl
  · -- the entries: those of the loop's seqnos
    have hnot : ∀ j : Nat, j < (msg.seqRange + 1).toNat →
        (⟨node.index, msg.seq + j⟩ : InputMapMsgKey) ∉ im.msgIndex :=
      fun j hj hmi => hfresh' j hj (h.indexes.msgRecv _ hmi)
    show mi'.lookup k = _
    rw [insertLoop_lookup im.recoveryIndex node.index msg rb _ hnot hloop k, hidx]
    by_cases hk : k ∈ seqKeys uuid msg
    · rw [if_pos (mem_seqKeys.1 hk), if_pos hk]
    · rw [if_neg (fun h' => hk (mem_seqKeys.2 h')), if_neg hk]
  · exact map_set_of_getElem? hn rfl

end Insert

/-! ## §4. Runs of inserts -/

section Run

/-- The inserts of a list of messages, each with its source and its
    datagram, in the list's order. -/
def insertOps (msgs : List (Nat × UserMessage × α)) : List (InputMapOp α) :=
  msgs.map fun m => .insert m.1 m.2.1 m.2.2

/-- The keys of the seqnos of a list of messages. -/
def msgsKeys (msgs : List (Nat × UserMessage × α)) : List InputMapMsgKey :=
  msgs.flatMap fun m => seqKeys m.1 m.2.1

/-- The message index holds exactly the entries the messages put there. -/
def EntriesOf (msgs : List (Nat × UserMessage × α)) (mi : InputMapMsgIndex α) : Prop :=
  ∀ k v, mi.lookup k = some v ↔ ∃ m ∈ msgs, k ∈ seqKeys m.1 m.2.1 ∧ v = insertEntry m.2.1 m.2.2 k.seq

theorem msgsKeys_append (P Q : List (Nat × UserMessage × α)) :
    msgsKeys (P ++ Q) = msgsKeys P ++ msgsKeys Q := List.flatMap_append

theorem mem_msgsKeys {msgs : List (Nat × UserMessage × α)} {k : InputMapMsgKey} :
    k ∈ msgsKeys msgs ↔ ∃ m ∈ msgs, k ∈ seqKeys m.1 m.2.1 := List.mem_flatMap

theorem entriesOf_nil : EntriesOf ([] : List (Nat × UserMessage × α)) ∅ := by
  intro k v
  simp

/-- One more message, none of whose keys is in the index yet. -/
theorem EntriesOf.snoc {msgs : List (Nat × UserMessage × α)} {mi mi' : InputMapMsgIndex α}
    {m : Nat × UserMessage × α} (h : EntriesOf msgs mi) (hfresh : ∀ k ∈ seqKeys m.1 m.2.1, k ∉ msgsKeys msgs)
    (hmi' : ∀ k, mi'.lookup k =
      if k ∈ seqKeys m.1 m.2.1 then some (insertEntry m.2.1 m.2.2 k.seq) else mi.lookup k) :
    EntriesOf (msgs ++ [m]) mi' := by
  intro k v
  rw [hmi' k]
  split_ifs with hk
  · -- a key of the new message: no earlier message has it
    constructor
    · rintro ⟨rfl⟩
      exact ⟨m, by simp, hk, rfl⟩
    · rintro ⟨m', hm', hk', rfl⟩
      rcases List.mem_append.1 hm' with hm' | hm'
      · exact absurd (mem_msgsKeys.2 ⟨m', hm', hk'⟩) (hfresh k hk)
      · rw [List.mem_singleton.1 hm']
  · -- any other key: as before
    rw [h k v]
    constructor
    · rintro ⟨m', hm', hk', rfl⟩
      exact ⟨m', List.mem_append_left _ hm', hk', rfl⟩
    · rintro ⟨m', hm', hk', rfl⟩
      rcases List.mem_append.1 hm' with hm' | hm'
      · exact ⟨m', hm', hk', rfl⟩
      · exact absurd (List.mem_singleton.1 hm' ▸ hk') hk

/-- Two indexes holding the entries of the same messages hold the same
    entries. -/
theorem EntriesOf.lookup_eq {P Q : List (Nat × UserMessage × α)} {mi₁ mi₂ : InputMapMsgIndex α}
    (h₁ : EntriesOf P mi₁) (h₂ : EntriesOf Q mi₂) (hPQ : ∀ m, m ∈ P ↔ m ∈ Q) (k : InputMapMsgKey) :
    mi₁.lookup k = mi₂.lookup k := by
  apply Option.ext
  intro v
  rw [h₁ k v, h₂ k v]
  simp only [hPQ]

/-- A run of inserts of messages none of whose seqnos has been received,
    from the members of the view: every insert passes, and afterwards the
    map tracks the keys of all the messages and holds their entries.
    Induction on the messages still to insert. -/
theorem insertRun_ok : ∀ (Q P : List (Nat × UserMessage × α)) {im : InputMap α},
    InputMapInv im {k | k ∈ msgsKeys P} → EntriesOf P im.msgIndex →
    (∀ m ∈ Q, m.1 < im.nodeIndex.length ∧ 0 ≤ m.2.1.seq ∧ 0 ≤ m.2.1.seqRange) →
    (msgsKeys (P ++ Q)).Nodup →
    ∃ im', im.run (insertOps Q) = some im' ∧ InputMapInv im' {k | k ∈ msgsKeys (P ++ Q)} ∧
      EntriesOf (P ++ Q) im'.msgIndex ∧ InsertFrame im im'
  | [], P, im, h, he, _, _ => ⟨im, rfl, by simpa using h, by simpa using he, InsertFrame.refl im⟩
  | m :: Q, P, im, h, he, hq, hnd => by
    obtain ⟨hu, hseq, hrange⟩ := hq m List.mem_cons_self
    -- the message's keys are new
    have hfresh : ∀ k ∈ seqKeys m.1 m.2.1, k ∉ msgsKeys P := by
      intro k hk hP
      rw [msgsKeys_append] at hnd
      exact (List.nodup_append.1 hnd).2.2 k hP k (mem_msgsKeys.2 ⟨m, List.mem_cons_self, hk⟩) rfl
    obtain ⟨im₁, r, hi, hlook, hframe₁⟩ := InputMap.insert_fresh h hu hseq hrange hfresh m.2.2
    have hkeys : {k | k ∈ msgsKeys P} ∪ {k | k ∈ seqKeys m.1 m.2.1} = {k | k ∈ msgsKeys (P ++ [m])} := by
      ext k
      simp [msgsKeys]
    have h₁ := hkeys ▸ inputMapInv_insert h hfresh hi
    have hq₁ : ∀ m' ∈ Q, m'.1 < im₁.nodeIndex.length ∧ 0 ≤ m'.2.1.seq ∧ 0 ≤ m'.2.1.seqRange := by
      intro m' hm'
      rw [hframe₁.length_eq]
      exact hq m' (List.mem_cons_of_mem _ hm')
    have hPQ : P ++ [m] ++ Q = P ++ m :: Q := by simp
    obtain ⟨im', hrun, h', he', hframe'⟩ :=
      insertRun_ok Q (P ++ [m]) h₁ (he.snoc hfresh hlook) hq₁ (hPQ ▸ hnd)
    refine ⟨im', ?_, hPQ ▸ h', hPQ ▸ he', hframe₁.trans hframe'⟩
    simp only [insertOps, List.map_cons, InputMap.run, InputMap.step, hi, Option.map_some,
      Option.bind_some]
    exact hrun

end Run

/-! ## §5. Two orders of the same messages -/

section Order

variable {im₁ im₂ : InputMap α} {recv : Set InputMapMsgKey}

/-- Two maps tracking the same keys, whose members have the same indexes
    and safe seqnos, have the same nodes: the keys fix the ranges. -/
theorem InputMapInv.nodeIndex_eq (h₁ : InputMapInv im₁ recv) (h₂ : InputMapInv im₂ recv)
    (hn : im₁.nodeIndex.map (fun n => (n.index, n.safeSeq)) = im₂.nodeIndex.map (fun n => (n.index, n.safeSeq))) :
    im₁.nodeIndex = im₂.nodeIndex := by
  apply List.ext_getElem?
  intro i
  have hi := congrArg (·[i]?) hn
  simp only [List.getElem?_map] at hi
  rcases e₁ : im₁.nodeIndex[i]? with _ | n₁ <;> rcases e₂ : im₂.nodeIndex[i]? with _ | n₂
  · rfl
  · rw [e₁, e₂] at hi
    simp at hi
  · rw [e₁, e₂] at hi
    simp at hi
  · rw [e₁, e₂] at hi
    obtain ⟨hidx, hsafe⟩ : n₁.index = n₂.index ∧ n₁.safeSeq = n₂.safeSeq := by simpa using hi
    have hlu : n₁.range.lu = n₂.range.lu := (h₁.range i n₁ e₁).lu.unique (h₂.range i n₂ e₂).lu
    have hhs : n₁.range.hs = n₂.range.hs := (h₁.range i n₁ e₁).hs.unique (h₂.range i n₂ e₂).hs
    obtain ⟨a, ⟨lu, hs⟩, c⟩ := n₁
    obtain ⟨a', ⟨lu', hs'⟩, c'⟩ := n₂
    dsimp only at hidx hsafe hlu hhs
    subst hidx hsafe hlu hhs
    rfl

/-- … and so the same `aru_seq`. -/
theorem InputMapInv.aruSeq_eq (h₁ : InputMapInv im₁ recv) (h₂ : InputMapInv im₂ recv)
    (hn : im₁.nodeIndex = im₂.nodeIndex) : im₁.aruSeq = im₂.aruSeq := by
  by_cases hne : im₁.nodeIndex = []
  · rw [(h₁.empty hne).1, (h₂.empty (hn ▸ hne)).1]
  · have ha₁ := h₁.aru hne
    rw [hn, h₂.aru (hn ▸ hne), Option.some.injEq] at ha₁
    omega

end Order

theorem input_map_insert_order_independent (n : Nat) (msgs msgs' : List (Nat × UserMessage × α))
    (hperm : msgs.Perm msgs') (hview : ∀ m ∈ msgs, m.1 < n ∧ 0 ≤ m.2.1.seq ∧ 0 ≤ m.2.1.seqRange)
    (hdisj : (msgsKeys msgs).Nodup) :
    ∃ im₁ im₂ : InputMap α, InputMap.init.run (.reset n :: insertOps msgs) = some im₁ ∧
      InputMap.init.run (.reset n :: insertOps msgs') = some im₂ ∧
      im₁.aruSeq = im₂.aruSeq ∧ im₁.safeSeq = im₂.safeSeq ∧ im₁.nodeIndex = im₂.nodeIndex ∧
      msgIter im₁.msgIndex = msgIter im₂.msgIndex := by
  -- the freshly reset map
  have hreset : (InputMap.init : InputMap α).reset n =
      some { InputMap.init with nodeIndex := (List.range n).map InputMapNode.fresh } :=
    InputMap.reset_eq_some.2 ⟨rfl, rfl, rfl⟩
  have hnil : {k : InputMapMsgKey | k ∈ msgsKeys ([] : List (Nat × UserMessage × α))} = ∅ := by
    ext k
    simp [msgsKeys]
  have h₀ := hnil ▸ inputMapInv_reset inputMapInv_init hreset
  have hlen : ({ InputMap.init with nodeIndex := (List.range n).map InputMapNode.fresh } : InputMap α).nodeIndex.length
      = n := by simp
  -- the other order inserts the same messages, with the same keys
  have hmem : ∀ m, m ∈ msgs ↔ m ∈ msgs' := fun m => hperm.mem_iff
  have hkeys : ∀ k, k ∈ msgsKeys msgs ↔ k ∈ msgsKeys msgs' := fun k => (hperm.flatMap_right _).mem_iff
  have hview' : ∀ m ∈ msgs', m.1 < n ∧ 0 ≤ m.2.1.seq ∧ 0 ≤ m.2.1.seqRange :=
    fun m hm => hview m ((hmem m).2 hm)
  have hdisj' : (msgsKeys msgs').Nodup := (hperm.flatMap_right _).nodup_iff.1 hdisj
  obtain ⟨im₁, hr₁, hi₁, he₁, hf₁⟩ :=
    insertRun_ok msgs [] h₀ entriesOf_nil (fun m hm => by rw [hlen]; exact hview m hm) (by simpa using hdisj)
  obtain ⟨im₂, hr₂, hi₂, he₂, hf₂⟩ :=
    insertRun_ok msgs' [] h₀ entriesOf_nil (fun m hm => by rw [hlen]; exact hview' m hm) (by simpa using hdisj')
  simp only [List.nil_append] at hi₁ hi₂ he₁ he₂
  have hrecv : {k | k ∈ msgsKeys msgs'} = {k | k ∈ msgsKeys msgs} := by
    ext k
    exact (hkeys k).symm
  rw [hrecv] at hi₂
  have hnodes := hi₁.nodeIndex_eq hi₂ (hf₁.nodes.trans hf₂.nodes.symm)
  refine ⟨im₁, im₂, ?_, ?_, hi₁.aruSeq_eq hi₂ hnodes, hf₁.safeSeq.trans hf₂.safeSeq.symm, hnodes,
    msgIter_eq_of_lookup (he₁.lookup_eq he₂ hmem)⟩
  · simp only [InputMap.run, InputMap.step, hreset, Option.bind_some]
    exact hr₁
  · simp only [InputMap.run, InputMap.step, hreset, Option.bind_some]
    exact hr₂

/-- Member 0's seqnos 2-3, then its seqnos 0-1, then member 1's seqno 0. -/
def threeMessages : List (Nat × UserMessage × Unit) :=
  [(0, ⟨2, -1, 1, .safe⟩, ()), (0, ⟨0, -1, 1, .safe⟩, ()), (1, ⟨0, -1, 0, .agreed⟩, ())]

/-- The three messages in the order above and in the reverse one. -/
theorem input_map_insert_order_independent_reversed :
    threeMessages.Perm threeMessages.reverse ∧
      (∀ m ∈ threeMessages, m.1 < 2 ∧ 0 ≤ m.2.1.seq ∧ 0 ≤ m.2.1.seqRange) ∧ (msgsKeys threeMessages).Nodup ∧
      ∃ im₁ im₂ : InputMap Unit, InputMap.init.run (.reset 2 :: insertOps threeMessages) = some im₁ ∧
        InputMap.init.run (.reset 2 :: insertOps threeMessages.reverse) = some im₂ ∧
        im₁.aruSeq = im₂.aruSeq ∧ im₁.safeSeq = im₂.safeSeq ∧ im₁.nodeIndex = im₂.nodeIndex ∧
        msgIter im₁.msgIndex = msgIter im₂.msgIndex :=
  ⟨by decide, by decide, by decide,
    input_map_insert_order_independent 2 threeMessages threeMessages.reverse (by decide) (by decide) (by decide)⟩

end Galera.Evs
