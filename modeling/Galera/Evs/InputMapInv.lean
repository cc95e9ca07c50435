/-
  Galera.Evs.InputMapInv
  ──────────────────────
  **WHAT THE INPUT MAP TRACKS.**

  The abstract state of the input map is the set of keys (source index,
  seqno) received since the map was last cleared or reset.
  `InputMapInv` relates the map to it: every member's `lu` is the lowest
  seqno not received from it and `hs` the highest received (or -1);
  `aru_seq + 1` is the lowest `lu` and `safe_seq` the lowest safe seqno
  the members reported, at or below `aru_seq`; the two indexes hold only
  received keys, never one key in both, and between them every received
  key above `safe_seq`.

  The caller's side: a map is reset only when it has received nothing
  since it was last cleared or reset, and a message is inserted only when
  none of its seqnos has been received from its source (`runAllowed`).

    * `rangeOk_advance` — one seqno of `insert`'s loop keeps the source's
      range exact; `insertLoop_ok` — hence the whole loop;
    * `inputMapInv_step`, `inputMapInv_run` — every allowed operation, and
      so every allowed run, keeps the invariant;
    * `aru_safe_mono_run` — `aru_seq` and `safe_seq` never fall until
      the next `clear`;
    * `input_map_tracks_received` — along every allowed run from a fresh
      map;
    * `input_map_keeps_safe_keys` — the recovery index holds keys at or
      below `safe_seq` from an `erase` until the next `set_safe_seq`, and
      a `reset` without `clear` leaves `aru_seq` and `safe_seq` stale.
-/
import Mathlib
import Galera.Evs.InputMap
import Galera.Lib.ListRel

namespace Galera.Evs

open Galera.Index Galera.ListRel

variable {α : Type}

/-! ## §1. The abstract state: what has been received -/

/-- The keys of the seqnos `[seq, seq + seq_range]` of a message from
    `uuid`. -/
def seqKeys (uuid : Nat) (msg : UserMessage) : List InputMapMsgKey :=
  (List.range (msg.seqRange + 1).toNat).map fun k : Nat => ⟨uuid, msg.seq + k⟩

theorem mem_seqKeys {uuid : Nat} {msg : UserMessage} {k : InputMapMsgKey} :
    k ∈ seqKeys uuid msg ↔
      k.index = uuid ∧ msg.seq ≤ k.seq ∧ k.seq < msg.seq + (msg.seqRange + 1).toNat := by
  obtain ⟨j, t⟩ := k
  simp only [seqKeys, List.mem_map, List.mem_range, InputMapMsgKey.mk.injEq]
  constructor
  · rintro ⟨n, hn, rfl, rfl⟩
    exact ⟨rfl, by omega, by omega⟩
  · rintro ⟨rfl, h1, h2⟩
    exact ⟨(t - msg.seq).toNat, by omega, rfl, by omega⟩

/-- The keys received since the map was last cleared or reset, after one
    more operation. -/
def receivedStep (R : List InputMapMsgKey) : InputMapOp α → List InputMapMsgKey
  | .reset _ => []
  | .insert uuid msg _ => seqKeys uuid msg ++ R
  | .erase _ => R
  | .setSafeSeq _ _ => R
  | .clear => []

/-- The keys received after a run. -/
def receivedRun (R : List InputMapMsgKey) (ops : List (InputMapOp α)) : List InputMapMsgKey :=
  ops.foldl receivedStep R

/-- What the caller must respect: a reset only of a map that has received
    nothing since it was last cleared or reset, and a message only when
    none of its seqnos has been received from its source. -/
def opAllowed (R : List InputMapMsgKey) : InputMapOp α → Bool
  | .reset _ => R.isEmpty
  | .insert uuid msg _ => (seqKeys uuid msg).all fun k => decide (k ∉ R)
  | _ => true

/-- Every operation of a run is allowed where it comes. -/
def runAllowed : List InputMapMsgKey → List (InputMapOp α) → Bool
  | _, [] => true
  | R, op :: ops => opAllowed R op && runAllowed (receivedStep R op) ops

/-! ## §2. The invariant -/

/-- The range `r` of source `i` is exact: `lu` is the lowest seqno not
    received and `hs` the highest received, or -1. -/
structure RangeOk (recv : Set InputMapMsgKey) (i : Nat) (r : Range) : Prop where
  lu : IsLeast {s | 0 ≤ s ∧ (⟨i, s⟩ : InputMapMsgKey) ∉ recv} r.lu
  hs : IsGreatest (insert (-1) {s | (⟨i, s⟩ : InputMapMsgKey) ∈ recv}) r.hs

/-- The indexes hold only received keys, never one key in both, and
    between them every received key above `safe`. -/
structure IndexOk (recv : Set InputMapMsgKey) (safe : Int)
    (msgIndex recoveryIndex : InputMapMsgIndex α) : Prop where
  msgRecv : ∀ k ∈ msgIndex, k ∈ recv
  recRecv : ∀ k ∈ recoveryIndex, k ∈ recv
  disjoint : ∀ k ∈ msgIndex, k ∉ recoveryIndex
  aboveSafe : ∀ k ∈ recv, safe < k.seq → k ∈ msgIndex ∨ k ∈ recoveryIndex

/-- The input map tracks the keys `recv`. -/
structure InputMapInv (im : InputMap α) (recv : Set InputMapMsgKey) : Prop where
  index : ∀ i (n : InputMapNode), im.nodeIndex[i]? = some n → n.index = i
  range : ∀ i (n : InputMapNode), im.nodeIndex[i]? = some n → RangeOk recv i n.range
  aru : im.nodeIndex ≠ [] → (im.nodeIndex.map fun n => n.range.lu).min? = some (im.aruSeq + 1)
  safe : im.nodeIndex ≠ [] → (im.nodeIndex.map fun n => n.safeSeq).min? = some im.safeSeq
  empty : im.nodeIndex = [] → im.aruSeq = -1 ∧ im.safeSeq = -1
  safeLeAru : im.safeSeq ≤ im.aruSeq
  nodeSafe : ∀ n ∈ im.nodeIndex, -1 ≤ n.safeSeq
  indexes : IndexOk recv im.safeSeq im.msgIndex im.recoveryIndex

/-- Keys of other sources do not touch a source's range. -/
theorem RangeOk.union_of_index_ne {recv extra : Set InputMapMsgKey} {i : Nat} {r : Range}
    (h : RangeOk recv i r) (hne : ∀ k ∈ extra, k.index ≠ i) : RangeOk (recv ∪ extra) i r := by
  have hset : ∀ s : Int, (⟨i, s⟩ : InputMapMsgKey) ∈ recv ∪ extra ↔ ⟨i, s⟩ ∈ recv := by
    intro s
    simp only [Set.mem_union, or_iff_left_iff_imp]
    exact fun hk => absurd rfl (hne _ hk)
  exact ⟨by simpa only [hset] using h.lu, by simpa only [hset] using h.hs⟩

/-! ## §3. The loop of `insert` -/

section Loop

variable {recv : Set InputMapMsgKey} {safe : Int} {mi rec : InputMapMsgIndex α} {i : Nat}
  {rg : Range} {s : Int}

/-- Putting a fresh key into the message index keeps the indexes exact. -/
theorem IndexOk.insert_key {k : InputMapMsgKey} (h : IndexOk recv safe mi rec) (hk : k ∉ recv)
    (v : InputMapMsg α) : IndexOk (insert k recv) safe (mi.insert k v) rec where
  msgRecv k' hk' := by
    rcases (AList.mem_insert mi).mp hk' with rfl | hk'
    · exact Set.mem_insert _ _
    · exact Set.mem_insert_of_mem _ (h.msgRecv k' hk')
  recRecv k' hk' := Set.mem_insert_of_mem _ (h.recRecv k' hk')
  disjoint k' hk' := by
    rcases (AList.mem_insert mi).mp hk' with rfl | hk'
    · exact fun hr => hk (h.recRecv _ hr)
    · exact h.disjoint k' hk'
  aboveSafe k' hk' hsafe := by
    rcases Set.mem_insert_iff.mp hk' with rfl | hk'
    · exact .inl ((AList.mem_insert mi).mpr (.inl rfl))
    · rcases h.aboveSafe k' hk' hsafe with hm | hr
      · exact .inl ((AList.mem_insert mi).mpr (.inr hm))
      · exact .inr hr

/-- The highest received seqno after `s` is received. -/
theorem RangeOk.hs_insert (h : RangeOk recv i rg) (s : Int) :
    IsGreatest (insert (-1) {t | (⟨i, t⟩ : InputMapMsgKey) ∈ insert ⟨i, s⟩ recv})
      (if rg.hs < s then s else rg.hs) := by
  have hset : {t | (⟨i, t⟩ : InputMapMsgKey) ∈ insert ⟨i, s⟩ recv} =
      insert s {t | (⟨i, t⟩ : InputMapMsgKey) ∈ recv} := by
    ext t
    simp
  rw [hset, Set.insert_comm]
  have hmax : max s rg.hs = if rg.hs < s then s else rg.hs := by
    split <;> omega
  exact hmax ▸ h.hs.insert s

/-- One seqno of the loop: once `s` is received, the advanced range is
    exact, provided `present` finds exactly the received seqnos above
    `s`. -/
theorem rangeOk_advance (h : RangeOk recv i rg) (present : Int → Bool)
    (hpres : ∀ t, s < t → (present t = true ↔ (⟨i, t⟩ : InputMapMsgKey) ∈ insert ⟨i, s⟩ recv)) :
    RangeOk (insert ⟨i, s⟩ recv) i (rg.advance present s) ∧
      rg.lu ≤ (rg.advance present s).lu := by
  have hhs := h.hs_insert s
  obtain ⟨⟨hlu0, hlun⟩, hlul⟩ := h.lu
  refine ⟨⟨?_, by simpa using hhs⟩, ?_⟩ <;> rw [Range.advance_lu] <;> split
  · -- `s` was the lowest unseen: the scan finds the next gap
    rename_i hlu
    set hs' := if rg.hs < s then s else rg.hs
    obtain ⟨hge, hpass, hstop⟩ :=
      scanWhile_spec present hs' (s + 1) (hs' - s).toNat (by omega)
    refine ⟨⟨by omega, fun hr => ?_⟩, fun t ⟨ht0, ht⟩ => Int.not_lt.mp fun hlt => ?_⟩
    · rcases hstop with hstop | hstop
      · exact absurd (hhs.2 (Set.mem_insert_of_mem _ hr)) (Int.not_le.mpr hstop)
      · exact absurd ((hpres _ (by omega)).mpr hr) (by simp [hstop])
    · by_cases hts : t < s
      · exact absurd (hlul ⟨ht0, fun hr => ht (Set.mem_insert_of_mem _ hr)⟩) (by omega)
      · by_cases hts' : t = s
        · exact ht (hts' ▸ Set.mem_insert _ _)
        · exact ht ((hpres t (by omega)).mp (hpass t (by omega) hlt).2)
  · -- `lu` stays the lowest unseen
    rename_i hlu
    refine ⟨⟨hlu0, fun hr => ?_⟩, fun t ⟨ht0, ht⟩ => hlul ⟨ht0, fun hr => ht ?_⟩⟩
    · rcases Set.mem_insert_iff.mp hr with heq | hr
      · exact hlu (by simpa using heq)
      · exact hlun hr
    · exact Set.mem_insert_of_mem _ hr
  · rename_i hlu
    obtain ⟨hge, -, -⟩ := scanWhile_spec present (if rg.hs < s then s else rg.hs) (s + 1)
      ((if rg.hs < s then s else rg.hs) - s).toNat (by omega)
    omega
  · exact Int.le_refl _

/-- One iteration of the loop at a seqno not yet received from the
    source: the key is put into the message index, and the range and the
    indexes stay exact. -/
theorem insertStep_ok (msg : UserMessage) (rb : α) (hr : RangeOk recv i rg)
    (hI : IndexOk recv safe mi rec) (hsafe : safe < rg.lu) (hs0 : 0 ≤ s)
    (hs : (⟨i, s⟩ : InputMapMsgKey) ∉ recv) :
    ∃ mi' rg', insertStep rec i msg rb (mi, rg) s = some (mi', rg') ∧
      RangeOk (insert ⟨i, s⟩ recv) i rg' ∧ IndexOk (insert ⟨i, s⟩ recv) safe mi' rec ∧
      rg.lu ≤ rg'.lu := by
  have hmi : (⟨i, s⟩ : InputMapMsgKey) ∉ mi := fun h => hs (hI.msgRecv _ h)
  have hfound : (if rg.hs < s then false else decide ((⟨i, s⟩ : InputMapMsgKey) ∈ mi)) = false := by
    split <;> simp [hmi]
  have hI' := hI.insert_key hs (insertEntry msg rb s)
  -- above `s ≥ lu > safe` the indexes hold exactly the received keys
  have hlus : rg.lu ≤ s := hr.lu.2 ⟨hs0, hs⟩
  have hpres : ∀ t, s < t → (inIndexes (mi.insert ⟨i, s⟩ (insertEntry msg rb s)) rec i t = true ↔
      (⟨i, t⟩ : InputMapMsgKey) ∈ insert ⟨i, s⟩ recv) := by
    intro t ht
    simp only [inIndexes, Bool.or_eq_true, decide_eq_true_eq]
    constructor
    · rintro (hm | hm)
      · exact hI'.msgRecv _ hm
      · exact hI'.recRecv _ hm
    · intro hk
      exact hI'.aboveSafe _ hk (by show safe < t; omega)
  obtain ⟨hr', hmono⟩ := rangeOk_advance hr _ hpres
  refine ⟨_, _, ?_, hr', hI', hmono⟩
  simp only [insertStep, hfound, Bool.false_eq_true, if_false, insertUnique_of_notMem _ hmi,
    Option.bind_eq_bind, Option.bind_some]
  rfl

/-- The loop over `n` seqnos from `s`, none of them received from the
    source: all of them are received afterwards, and the range and the
    indexes stay exact.  Induction on the iterations, `insertStep_ok` at
    each. -/
theorem insertLoop_ok (msg : UserMessage) (rb : α) (n : Nat) :
    ∀ {recv : Set InputMapMsgKey} {mi : InputMapMsgIndex α} {rg : Range} {s : Int},
      RangeOk recv i rg → IndexOk recv safe mi rec → safe < rg.lu → 0 ≤ s →
      (∀ k : Nat, k < n → (⟨i, s + k⟩ : InputMapMsgKey) ∉ recv) →
      ∃ mi' rg', insertLoop rec i msg rb n s (mi, rg) = some (mi', rg') ∧
        RangeOk (recv ∪ {k | k.index = i ∧ s ≤ k.seq ∧ k.seq < s + n}) i rg' ∧
        IndexOk (recv ∪ {k | k.index = i ∧ s ≤ k.seq ∧ k.seq < s + n}) safe mi' rec ∧
        rg.lu ≤ rg'.lu := by
  induction n with
  | zero =>
    intro recv mi rg s hr hI _ _ _
    have hset : recv ∪ {k : InputMapMsgKey | k.index = i ∧ s ≤ k.seq ∧ k.seq < s + (0 : Nat)} =
        recv := by
      ext k
      simp only [Set.mem_union, Set.mem_ofPred_eq, or_iff_left_iff_imp]
      omega
    rw [hset]
    exact ⟨mi, rg, rfl, hr, hI, Int.le_refl _⟩
  | succ n ih =>
    intro recv mi rg s hr hI hsafe hs0 hfresh
    obtain ⟨mi₁, rg₁, hstep, hr₁, hI₁, hmono₁⟩ :=
      insertStep_ok msg rb hr hI hsafe hs0 (by simpa using hfresh 0 (by omega))
    have hfresh₁ : ∀ k : Nat, k < n → (⟨i, s + 1 + k⟩ : InputMapMsgKey) ∉ insert ⟨i, s⟩ recv := by
      intro k hk hmem
      rcases Set.mem_insert_iff.mp hmem with heq | hmem
      · simp at heq
        omega
      · exact hfresh (k + 1) (by omega) (by simpa [Int.add_assoc, Int.add_comm 1] using hmem)
    obtain ⟨mi', rg', hloop, hr', hI', hmono'⟩ :=
      ih hr₁ hI₁ (by omega) (by omega) hfresh₁
    -- the keys of this iteration and of the rest are those of the whole loop
    have hset : insert ⟨i, s⟩ recv ∪
        {k : InputMapMsgKey | k.index = i ∧ s + 1 ≤ k.seq ∧ k.seq < s + 1 + n} =
        recv ∪ {k | k.index = i ∧ s ≤ k.seq ∧ k.seq < s + ↑(n + 1)} := by
      ext ⟨j, t⟩
      simp only [Set.mem_union, Set.mem_insert_iff, Set.mem_ofPred_eq, InputMapMsgKey.mk.injEq]
      by_cases hm : (⟨j, t⟩ : InputMapMsgKey) ∈ recv
      · simp [hm]
      · simp only [hm, or_false, false_or]
        omega
    rw [← hset]
    refine ⟨mi', rg', ?_, hr', hI', Int.le_trans hmono₁ hmono'⟩
    simp only [insertLoop, Option.bind_eq_bind, hstep, Option.bind_some]
    exact hloop

end Loop

/-! ## §4. Each operation -/

section Ops

variable {im im' : InputMap α} {recv : Set InputMapMsgKey}

/-- The range of a member from which nothing has been received. -/
theorem rangeOk_init (i : Nat) : RangeOk ∅ i InputMapNode.init.range where
  lu := ⟨⟨Int.le_refl 0, Set.notMem_empty _⟩, fun _ ht => ht.1⟩
  hs := ⟨Set.mem_insert _ _, fun t ht => by simp [InputMapNode.init] at ht ⊢; omega⟩

/-- A map that has received nothing has `aru_seq` and `safe_seq` at -1:
    every `lu` is 0, and `safe_seq` lies between -1 and `aru_seq`. -/
theorem InputMapInv.aru_safe_of_empty (h : InputMapInv im ∅) :
    im.aruSeq = -1 ∧ im.safeSeq = -1 := by
  by_cases hn : im.nodeIndex = []
  · exact h.empty hn
  · have hlu : ∀ n ∈ im.nodeIndex, n.range.lu = 0 := by
      intro n hn'
      obtain ⟨i, hi⟩ := List.mem_iff_getElem?.mp hn'
      exact (h.range i n hi).lu.unique (rangeOk_init i).lu
    obtain ⟨n, hn', hlun⟩ := List.mem_map.mp (List.min?_eq_some_iff.mp (h.aru hn)).1
    obtain ⟨n', hn'', hsafen⟩ := List.mem_map.mp (List.min?_eq_some_iff.mp (h.safe hn)).1
    have h1 := hlu n hn'
    have h2 := h.nodeSafe n' hn''
    have h3 := h.safeLeAru
    omega

/-- `reset` of a map that has received nothing. -/
theorem inputMapInv_reset {nodes : Nat} (h : InputMapInv im ∅) (hr : im.reset nodes = some im') :
    InputMapInv im' ∅ := by
  obtain ⟨-, -, rfl⟩ := InputMap.reset_eq_some.mp hr
  obtain ⟨haru, hsafe⟩ := h.aru_safe_of_empty
  have hget : ∀ i n, ((List.range nodes).map InputMapNode.fresh)[i]? = some n →
      n = InputMapNode.fresh i := by
    intro i n hi
    obtain ⟨j, hj, rfl⟩ := Option.map_eq_some_iff.mp (List.getElem?_map ▸ hi)
    obtain ⟨_, hji⟩ := List.getElem?_eq_some_iff.mp hj
    rw [← hji, List.getElem_range]
  have hmem : ∀ n ∈ (List.range nodes).map InputMapNode.fresh,
      n.range.lu = 0 ∧ n.safeSeq = -1 := by
    intro n hn
    obtain ⟨i, -, rfl⟩ := List.mem_map.mp hn
    exact ⟨rfl, rfl⟩
  refine ⟨fun i n hi => by rw [hget i n hi]; rfl, fun i n hi => by rw [hget i n hi]; exact rangeOk_init i,
    fun hne => ?_, fun hne => ?_, fun _ => ⟨haru, hsafe⟩, Int.le_of_eq (hsafe.trans haru.symm),
    fun n hn => by simp [(hmem n hn).2], h.indexes⟩
  · obtain ⟨n, hn⟩ := List.exists_mem_of_ne_nil _ hne
    rw [List.min?_eq_some_iff, haru]
    exact ⟨List.mem_map.mpr ⟨n, hn, (hmem n hn).1⟩,
      fun b hb => by obtain ⟨m, hm, rfl⟩ := List.mem_map.mp hb; simp [(hmem m hm).1]⟩
  · obtain ⟨n, hn⟩ := List.exists_mem_of_ne_nil _ hne
    rw [List.min?_eq_some_iff, hsafe]
    exact ⟨List.mem_map.mpr ⟨n, hn, (hmem n hn).2⟩,
      fun b hb => by obtain ⟨m, hm, rfl⟩ := List.mem_map.mp hb; simp [(hmem m hm).2]⟩

/-- The fresh map tracks nothing. -/
theorem inputMapInv_init : InputMapInv (InputMap.init : InputMap α) ∅ where
  index _ _ h := by simp [InputMap.init] at h
  range _ _ h := by simp [InputMap.init] at h
  aru h := absurd rfl h
  safe h := absurd rfl h
  empty _ := ⟨rfl, rfl⟩
  safeLeAru := Int.le_refl _
  nodeSafe _ h := by simp [InputMap.init] at h
  indexes := ⟨fun _ h => absurd h (AList.notMem_empty _), fun _ h => absurd h (AList.notMem_empty _),
    fun _ h => absurd h (AList.notMem_empty _), fun _ h => absurd h (Set.notMem_empty _)⟩

theorem InputMap.clear_eq_init (im : InputMap α) : im.clear = InputMap.init := rfl

/-- Moving a key from the message index to the recovery index keeps the
    indexes exact. -/
theorem IndexOk.moveKey {safe : Int} {mi rec : InputMapMsgIndex α} {key : InputMapMsgKey}
    (h : IndexOk recv safe mi rec) (hkey : key ∈ mi) (hk : key ∉ rec) (m : InputMapMsg α) :
    IndexOk recv safe (mi.erase key) (rec.insert key m) where
  msgRecv k hk' := h.msgRecv k (AList.mem_erase.mp hk').2
  recRecv k hk' := by
    rcases (AList.mem_insert rec).mp hk' with rfl | hk'
    · exact h.msgRecv k hkey
    · exact h.recRecv k hk'
  disjoint k hk' := by
    obtain ⟨hne, hk'⟩ := AList.mem_erase.mp hk'
    rw [AList.mem_insert, not_or]
    exact ⟨hne, h.disjoint k hk'⟩
  aboveSafe k hk' hsafe := by
    by_cases hkk : k = key
    · exact .inr ((AList.mem_insert rec).mpr (.inl hkk))
    · rcases h.aboveSafe k hk' hsafe with hm | hr
      · exact .inl (AList.mem_erase.mpr ⟨hkk, hm⟩)
      · exact .inr ((AList.mem_insert rec).mpr (.inr hr))

/-- `erase` moves a message and changes nothing else. -/
theorem inputMapInv_erase {key : InputMapMsgKey} (h : InputMapInv im recv)
    (he : im.erase key = some im') : InputMapInv im' recv := by
  obtain ⟨m, hm, hk, rfl⟩ := InputMap.erase_eq_some he
  have hkey : key ∈ im.msgIndex := AList.lookup_isSome.mp (by simp [hm])
  exact ⟨h.index, h.range, h.aru, h.safe, h.empty, h.safeLeAru, h.nodeSafe,
    h.indexes.moveKey hkey hk m⟩

/-- Pruning the recovery index at a higher safe seqno keeps the indexes
    exact. -/
theorem IndexOk.cleanup {safe safe' : Int} {mi rec : InputMapMsgIndex α}
    (h : IndexOk recv safe mi rec) (hle : safe ≤ safe') :
    IndexOk recv safe' mi (filterKeys (fun k => !k.lt ⟨0, safe' + 1⟩) rec) where
  msgRecv := h.msgRecv
  recRecv k hk := h.recRecv k (mem_filterKeys.mp hk).1
  disjoint k hk hr := h.disjoint k hk (mem_filterKeys.mp hr).1
  aboveSafe k hk hsafe := by
    rcases h.aboveSafe k hk (by omega) with hm | hr
    · exact .inl hm
    · refine .inr (mem_filterKeys.mpr ⟨hr, ?_⟩)
      simp [InputMapMsgKey.lt]
      omega

/-- `set_safe_seq` leaves no key at or below `safe_seq` in the recovery
    index. -/
theorem InputMap.setSafeSeq_recovery_above {uuid : Nat} {seq : Int}
    (hs : im.setSafeSeq uuid seq = some im') : ∀ k ∈ im'.recoveryIndex, im'.safeSeq < k.seq := by
  obtain ⟨-, node, -, -, m, -, -, -, rfl⟩ := InputMap.setSafeSeq_eq_some hs
  intro k hk
  have := (mem_filterKeys.mp hk).2
  simp [InputMapMsgKey.lt] at this
  show m < k.seq
  omega

/-- `set_safe_seq` keeps the invariant. -/
theorem inputMapInv_setSafeSeq {uuid : Nat} {seq : Int} (h : InputMapInv im recv)
    (hs : im.setSafeSeq uuid seq = some im') : InputMapInv im' recv := by
  obtain ⟨-, node, hn, hle, m, hm, hge, hle', rfl⟩ := InputMap.setSafeSeq_eq_some hs
  -- the node keeps its index and range; only its safe seqno changes
  have hget : ∀ (j : Nat) (n : InputMapNode),
      (im.nodeIndex.set uuid { node with safeSeq := seq })[j]? = some n →
        ∃ n₀ : InputMapNode, im.nodeIndex[j]? = some n₀ ∧ n.index = n₀.index ∧ n.range = n₀.range := by
    intro j n hj
    rcases getElem?_set_eq_some hj with ⟨rfl, rfl⟩ | ⟨-, hj⟩
    · exact ⟨node, hn, rfl, rfl⟩
    · exact ⟨n, hj, rfl, rfl⟩
  have hne : im.nodeIndex.set uuid { node with safeSeq := seq } ≠ [] := by
    have hlt : uuid < im.nodeIndex.length := (List.getElem?_eq_some_iff.mp hn).1
    exact List.ne_nil_of_length_pos (by simp only [List.length_set]; omega)
  refine ⟨fun j n hj => ?_, fun j n hj => ?_, fun _ => ?_, fun _ => hm, fun h' => absurd h' hne,
    hle', ?_, h.indexes.cleanup hge⟩
  · obtain ⟨n₀, hn₀, hidx, -⟩ := hget j n hj
    exact hidx ▸ h.index j n₀ hn₀
  · obtain ⟨n₀, hn₀, -, hrange⟩ := hget j n hj
    exact hrange ▸ h.range j n₀ hn₀
  · dsimp only
    rw [map_set_of_getElem? (y := { node with safeSeq := seq }) hn rfl]
    exact h.aru (fun hnil => by simp [hnil] at hn)
  · exact forall_mem_set h.nodeSafe
      (by have := h.nodeSafe node (List.mem_of_getElem? hn); simp; omega) uuid

/-- `safe_seq` is below every member's lowest unseen seqno. -/
theorem InputMapInv.safe_lt_lu (h : InputMapInv im recv) {i : Nat} {node : InputMapNode}
    (hn : im.nodeIndex[i]? = some node) : im.safeSeq < node.range.lu := by
  have hne : im.nodeIndex ≠ [] := fun hnil => by simp [hnil] at hn
  have hlow := (List.min?_eq_some_iff.mp (h.aru hne)).2 node.range.lu
    (List.mem_map.mpr ⟨node, List.mem_of_getElem? hn, rfl⟩)
  have := h.safeLeAru
  omega

/-- A new range for one source, exact for the keys received with it, and
    `aru_seq` recomputed. -/
theorem InputMapInv.setRange (h : InputMapInv im recv) {uuid : Nat} {node : InputMapNode}
    (hn : im.nodeIndex[uuid]? = some node) {extra : Set InputMapMsgKey}
    (hextra : ∀ k ∈ extra, k.index = uuid) {rg' : Range} (hr' : RangeOk (recv ∪ extra) uuid rg')
    {mi' : InputMapMsgIndex α} (hI' : IndexOk (recv ∪ extra) im.safeSeq mi' im.recoveryIndex)
    {m : Int} (hm : ((im.nodeIndex.set uuid { node with range := rg' }).map fun n => n.range.lu).min? =
      some m) (hle : im.aruSeq ≤ m - 1) :
    InputMapInv { im with nodeIndex := im.nodeIndex.set uuid { node with range := rg' },
                          msgIndex := mi', aruSeq := m - 1 } (recv ∪ extra) := by
  have hidx : node.index = uuid := h.index uuid node hn
  have hlt : uuid < im.nodeIndex.length := (List.getElem?_eq_some_iff.mp hn).1
  refine ⟨fun j n hj => ?_, fun j n hj => ?_, fun _ => by rw [Int.sub_add_cancel]; exact hm,
    fun _ => ?_, fun hnil => ?_, Int.le_trans h.safeLeAru hle,
    forall_mem_set (a := { node with range := rg' }) h.nodeSafe
      (h.nodeSafe node (List.mem_of_getElem? hn)) uuid, hI'⟩
  · rcases getElem?_set_eq_some hj with ⟨rfl, rfl⟩ | ⟨-, hj⟩
    · exact hidx
    · exact h.index j n hj
  · rcases getElem?_set_eq_some hj with ⟨rfl, rfl⟩ | ⟨hjne, hj⟩
    · exact hr'
    · exact (h.range j n hj).union_of_index_ne fun k hk heq => hjne (heq.symm.trans (hextra k hk))
  · dsimp only
    rw [map_set_of_getElem? (y := { node with range := rg' }) hn rfl]
    exact h.safe (fun hnil => by simp [hnil] at hn)
  · exact absurd hnil (List.ne_nil_of_length_pos (by simp only [List.length_set]; omega))

/-- `insert` of a message none of whose seqnos has been received from its
    source: afterwards all of them are, and the map tracks them. -/
theorem inputMapInv_insert {uuid : Nat} {msg : UserMessage} {rb : α} {r : Range}
    (h : InputMapInv im recv) (hfresh : ∀ k ∈ seqKeys uuid msg, k ∉ recv)
    (hi : im.insert uuid msg rb = some (im', r)) :
    InputMapInv im' (recv ∪ {k | k ∈ seqKeys uuid msg}) := by
  obtain ⟨h1, h2, node, hn, h3⟩ := InputMap.insert_asserts hi
  rw [InputMap.insert_of_asserts im rb h1 h2 hn h3] at hi
  have hidx : node.index = uuid := h.index uuid node hn
  split at hi
  · -- a message seen before: its first seqno is in the recovery index, so
    -- it has no seqnos at all
    rename_i hseen
    obtain ⟨rfl, -⟩ := Prod.mk.inj (Option.some.inj hi)
    have hsub : {k | k ∈ seqKeys uuid msg} ⊆ recv := by
      intro k hk
      rcases hseen with hlt | ⟨-, hrec⟩
      · omega
      · have hk' := mem_seqKeys.mp hk
        exact absurd (hidx ▸ h.indexes.recRecv _ hrec)
          (hfresh _ (mem_seqKeys.mpr ⟨rfl, Int.le_refl _, by dsimp only; omega⟩))
    rw [Set.union_eq_left.mpr hsub]
    exact h
  · -- the loop runs over fresh seqnos
    have hr := h.range uuid node hn
    rw [← hidx] at hr
    have hfresh' : ∀ k : Nat, k < (msg.seqRange + 1).toNat →
        (⟨node.index, msg.seq + k⟩ : InputMapMsgKey) ∉ recv := by
      intro k hk
      exact hfresh _ (mem_seqKeys.mpr ⟨hidx, by dsimp only; omega, by dsimp only; omega⟩)
    obtain ⟨mi', rg', hloop, hr', hI', -⟩ :=
      insertLoop_ok msg rb (msg.seqRange + 1).toNat hr h.indexes (h.safe_lt_lu hn) (by omega) hfresh'
    rw [hloop, Option.bind_some] at hi
    obtain ⟨im'', hupd, heq⟩ := Option.map_eq_some_iff.mp hi
    obtain ⟨rfl, -⟩ := Prod.mk.inj heq
    obtain ⟨m, hm, hle, rfl⟩ := InputMap.updateAru_eq_some.mp hupd
    have hset : recv ∪ {k : InputMapMsgKey | k.index = node.index ∧ msg.seq ≤ k.seq ∧
        k.seq < msg.seq + ↑(msg.seqRange + 1).toNat} = recv ∪ {k | k ∈ seqKeys uuid msg} := by
      ext k
      simp only [Set.mem_union, Set.mem_ofPred_eq, mem_seqKeys, hidx]
    rw [hset, hidx] at hr'
    rw [hset] at hI'
    exact h.setRange hn (fun k hk => (mem_seqKeys.mp hk).1) hr' hI' hm hle

end Ops

/-! ## §5. Runs -/

section Runs

variable {im im' : InputMap α}

/-- The operations that end a view. -/
def InputMapOp.clears : InputMapOp α → Bool
  | .clear => true
  | _ => false

theorem InputMap.run_append (im : InputMap α) (ops₁ ops₂ : List (InputMapOp α)) :
    im.run (ops₁ ++ ops₂) = (im.run ops₁).bind fun im₁ => im₁.run ops₂ := by
  induction ops₁ generalizing im with
  | nil => rfl
  | cons op ops₁ ih =>
    simp only [List.cons_append, InputMap.run]
    cases im.step op with
    | none => rfl
    | some im₁ => exact ih im₁

/-- Every allowed operation keeps the invariant, tracking the keys it
    receives. -/
theorem inputMapInv_step {R : List InputMapMsgKey} {op : InputMapOp α}
    (h : InputMapInv im {k | k ∈ R}) (hok : opAllowed R op = true) (hs : im.step op = some im') :
    InputMapInv im' {k | k ∈ receivedStep R op} := by
  cases op with
  | reset nodes =>
    obtain rfl : R = [] := List.isEmpty_iff.mp hok
    have hnil : {k : InputMapMsgKey | k ∈ ([] : List InputMapMsgKey)} = ∅ := by
      ext
      simp
    simp only [receivedStep, hnil] at h ⊢
    exact inputMapInv_reset h hs
  | insert uuid msg rb =>
    obtain ⟨⟨im'', r⟩, hi, rfl⟩ := Option.map_eq_some_iff.mp hs
    have hfresh : ∀ k ∈ seqKeys uuid msg, k ∉ {k | k ∈ R} := by
      simpa [opAllowed] using hok
    have hset : {k | k ∈ R} ∪ {k | k ∈ seqKeys uuid msg} =
        {k | k ∈ receivedStep R (.insert uuid msg rb)} := by
      ext
      simp [receivedStep, or_comm]
    exact hset ▸ inputMapInv_insert h hfresh hi
  | erase key => exact inputMapInv_erase h hs
  | setSafeSeq uuid seq => exact inputMapInv_setSafeSeq h hs
  | clear =>
    cases Option.some.inj hs
    have hnil : {k | k ∈ receivedStep R (InputMapOp.clear : InputMapOp α)} = ∅ := by
      ext
      simp [receivedStep]
    rw [hnil, InputMap.clear_eq_init]
    exact inputMapInv_init

/-- The run lemma: induction on the operations, `inputMapInv_step` at
    each. -/
theorem inputMapInv_run (ops : List (InputMapOp α)) :
    ∀ {im im' : InputMap α} {R : List InputMapMsgKey}, InputMapInv im {k | k ∈ R} →
      runAllowed R ops = true → im.run ops = some im' →
        InputMapInv im' {k | k ∈ receivedRun R ops} := by
  induction ops with
  | nil =>
    intro im im' R h _ hr
    cases Option.some.inj hr
    exact h
  | cons op ops ih =>
    intro im im' R h hok hr
    simp only [runAllowed, Bool.and_eq_true] at hok
    obtain ⟨im₁, hs, hr⟩ := Option.bind_eq_some_iff.mp hr
    exact ih (inputMapInv_step h hok.1 hs) hok.2 hr

/-- `insert` may only raise `aru_seq`, and leaves `safe_seq`. -/
theorem InputMap.insert_mono {uuid : Nat} {msg : UserMessage} {rb : α} {r : Range}
    (hi : im.insert uuid msg rb = some (im', r)) :
    im.aruSeq ≤ im'.aruSeq ∧ im'.safeSeq = im.safeSeq := by
  obtain ⟨h1, h2, node, hn, h3⟩ := InputMap.insert_asserts hi
  rw [InputMap.insert_of_asserts im rb h1 h2 hn h3] at hi
  split at hi
  · obtain ⟨rfl, -⟩ := Prod.mk.inj (Option.some.inj hi)
    exact ⟨Int.le_refl _, rfl⟩
  · obtain ⟨acc, -, hi⟩ := Option.bind_eq_some_iff.mp hi
    obtain ⟨im'', hupd, heq⟩ := Option.map_eq_some_iff.mp hi
    obtain ⟨rfl, -⟩ := Prod.mk.inj heq
    obtain ⟨m, -, hle, rfl⟩ := InputMap.updateAru_eq_some.mp hupd
    exact ⟨hle, rfl⟩

/-- No operation but `clear` takes `aru_seq` or `safe_seq` down: their
    own checks forbid it. -/
theorem aru_safe_mono_step {op : InputMapOp α} (hs : im.step op = some im')
    (hc : op.clears = false) : im.aruSeq ≤ im'.aruSeq ∧ im.safeSeq ≤ im'.safeSeq := by
  cases op with
  | reset nodes =>
    obtain ⟨-, -, rfl⟩ := InputMap.reset_eq_some.mp hs
    exact ⟨Int.le_refl _, Int.le_refl _⟩
  | insert uuid msg rb =>
    obtain ⟨⟨im'', r⟩, hi, rfl⟩ := Option.map_eq_some_iff.mp hs
    obtain ⟨hle, heq⟩ := InputMap.insert_mono hi
    exact ⟨hle, Int.le_of_eq heq.symm⟩
  | erase key =>
    obtain ⟨-, -, -, rfl⟩ := InputMap.erase_eq_some hs
    exact ⟨Int.le_refl _, Int.le_refl _⟩
  | setSafeSeq uuid seq =>
    obtain ⟨-, -, -, -, m, -, hge, -, rfl⟩ := InputMap.setSafeSeq_eq_some hs
    exact ⟨Int.le_refl _, hge⟩
  | clear => cases hc

/-- Hence along every run without `clear`. -/
theorem aru_safe_mono_run (ops : List (InputMapOp α)) :
    ∀ {im im' : InputMap α}, im.run ops = some im' → (∀ op ∈ ops, op.clears = false) →
      im.aruSeq ≤ im'.aruSeq ∧ im.safeSeq ≤ im'.safeSeq := by
  induction ops with
  | nil =>
    intro im im' hr _
    cases Option.some.inj hr
    exact ⟨Int.le_refl _, Int.le_refl _⟩
  | cons op ops ih =>
    intro im im' hr hc
    obtain ⟨im₁, hs, hr⟩ := Option.bind_eq_some_iff.mp hr
    obtain ⟨h1, h2⟩ := aru_safe_mono_step hs (hc op (List.mem_cons_self ..))
    obtain ⟨h3, h4⟩ := ih hr fun op' hop' => hc op' (List.mem_cons_of_mem _ hop')
    exact ⟨Int.le_trans h1 h3, Int.le_trans h2 h4⟩

end Runs

/-! ## §6. The map along a run -/

/-- Every allowed run from a fresh map that succeeds ends in a map that
    tracks the keys it received. -/
theorem inputMapInv_of_run (ops : List (InputMapOp α)) {im : InputMap α}
    (hok : runAllowed [] ops = true) (hrun : InputMap.init.run ops = some im) :
    InputMapInv im {k | k ∈ receivedRun [] ops} := by
  have hnil : {k : InputMapMsgKey | k ∈ ([] : List InputMapMsgKey)} = ∅ := by
    ext
    simp
  have hinit : InputMapInv (InputMap.init : InputMap α) {k | k ∈ ([] : List InputMapMsgKey)} :=
    hnil ▸ inputMapInv_init
  exact inputMapInv_run ops hinit hok hrun

/-- Along every allowed run from a fresh map that succeeds: the map
    tracks the keys received since it was last cleared or reset;
    `aru_seq` and `safe_seq` never fall between two states with no
    `clear` between them; and right after a `set_safe_seq` the recovery
    index holds no key at or below `safe_seq`. -/
theorem input_map_tracks_received (ops : List (InputMapOp α)) {im : InputMap α}
    (hok : runAllowed [] ops = true) (hrun : InputMap.init.run ops = some im) :
    InputMapInv im {k | k ∈ receivedRun [] ops} ∧
      (∀ ops₁ ops₂ (im₁ : InputMap α), ops = ops₁ ++ ops₂ → InputMap.init.run ops₁ = some im₁ →
        (∀ op ∈ ops₂, op.clears = false) → im₁.aruSeq ≤ im.aruSeq ∧ im₁.safeSeq ≤ im.safeSeq) ∧
      (∀ ops₁ uuid seq, ops = ops₁ ++ [.setSafeSeq uuid seq] →
        ∀ k ∈ im.recoveryIndex, im.safeSeq < k.seq) := by
  refine ⟨inputMapInv_of_run ops hok hrun, ?_, ?_⟩
  · rintro ops₁ ops₂ im₁ rfl h₁ hc
    rw [InputMap.run_append, h₁, Option.bind_some] at hrun
    exact aru_safe_mono_run ops₂ hrun hc
  · rintro ops₁ uuid seq rfl
    rw [InputMap.run_append] at hrun
    obtain ⟨im₁, -, hrun⟩ := Option.bind_eq_some_iff.mp hrun
    obtain ⟨im₂, hs, hrun⟩ := Option.bind_eq_some_iff.mp hrun
    cases Option.some.inj hrun
    exact InputMap.setSafeSeq_recovery_above hs

/-- Two members: member 0 sends seqnos 2-3 before 0-1, member 1 sends
    seqno 0; both report safe seqnos, the two first messages are
    delivered and erased, and a last safe seqno prunes them. -/
def twoSourceRun : List (InputMapOp Unit) :=
  [.reset 2, .insert 0 ⟨2, -1, 1, .safe⟩ (), .insert 0 ⟨0, -1, 1, .safe⟩ (),
   .insert 1 ⟨0, -1, 0, .agreed⟩ (), .setSafeSeq 0 0, .setSafeSeq 1 0, .erase ⟨0, 0⟩,
   .erase ⟨1, 0⟩, .setSafeSeq 0 1]

theorem input_map_tracks_received_two_sources :
    InputMapInv ((InputMap.init.run twoSourceRun).getD InputMap.init)
        {k | k ∈ receivedRun [] twoSourceRun} ∧
      (∀ ops₁ ops₂ (im₁ : InputMap Unit), twoSourceRun = ops₁ ++ ops₂ →
        InputMap.init.run ops₁ = some im₁ → (∀ op ∈ ops₂, op.clears = false) →
          im₁.aruSeq ≤ ((InputMap.init.run twoSourceRun).getD InputMap.init).aruSeq ∧
          im₁.safeSeq ≤ ((InputMap.init.run twoSourceRun).getD InputMap.init).safeSeq) ∧
      (∀ ops₁ uuid seq, twoSourceRun = ops₁ ++ [.setSafeSeq uuid seq] →
        ∀ k ∈ ((InputMap.init.run twoSourceRun).getD InputMap.init).recoveryIndex,
          ((InputMap.init.run twoSourceRun).getD InputMap.init).safeSeq < k.seq) :=
  input_map_tracks_received twoSourceRun (by decide) rfl

/-- A safe message delivered and erased: it stays in the recovery index,
    at a seqno `safe_seq` has reached, until the next `set_safe_seq`. -/
def safeEraseRun : List (InputMapOp Unit) :=
  [.reset 1, .insert 0 ⟨0, -1, 0, .safe⟩ (), .setSafeSeq 0 0, .erase ⟨0, 0⟩]

/-- A view that ends with a `reset` and no `clear`. -/
def resetRun : List (InputMapOp Unit) :=
  [.reset 1, .insert 0 ⟨0, -1, 0, .safe⟩ (), .erase ⟨0, 0⟩, .setSafeSeq 0 0, .reset 1]

/-- After `safeEraseRun` the recovery index holds the key (0, 0) at
    `safe_seq` 0.  After `resetRun` the only member has `lu` 0 and safe
    seqno -1 while `aru_seq` and `safe_seq` are still 0. -/
theorem input_map_keeps_safe_keys :
    (InputMap.init.run safeEraseRun).map (fun im => (im.safeSeq, im.recoveryIndex.keys)) =
        some (0, [⟨0, 0⟩]) ∧
      (InputMap.init.run resetRun).map (fun im =>
          (im.aruSeq, im.safeSeq, im.nodeIndex.map fun n => (n.range.lu, n.safeSeq))) =
        some (0, 0, [(0, -1)]) := by
  decide

end Galera.Evs
