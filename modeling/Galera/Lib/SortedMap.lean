/-
  Galera.Lib.SortedMap
  ────────────────────
  **AN ORDERED MAP AS ITS SORTED ENTRIES.**

  A `std::map` iterates its entries in increasing order of key, and
  `insert` of a key already present changes nothing and says so.  The map
  is the list of its entries, which carries its own order.

    * `SortedMap.insert` — `insert (std::make_pair (k, v))`, with
      `.second` telling whether it inserted;
    * `insert_of_lt` — a key above every key present goes at the end;
    * `foldl_insert` — inserting the entries of a map one by one, in its
      order, into a map of smaller keys appends them all;
      `foldl_insert_empty` — into the empty map, gives them back;
    * `SortedMap.find?` — `find`, with `find?_eq_some_iff` reading it as
      membership of the entry;
    * `mem_insert`, `insert_snd`, `length_insert` — what `insert` keeps,
      adds and says;
    * `foldl_insert_perm` — entries of distinct keys inserted in any order
      give one map (`ext_mem`: a map is the set of its entries);
    * `SortedMap.map`, `SortedMap.modify`, `SortedMap.filter` — a loop
      that changes values in place, a change of the value found, and the
      entries kept by a test.
-/
import Mathlib

namespace Galera

variable {κ ν : Type} [LinearOrder κ]

/-- A map from `κ` to `ν`: its entries, keys strictly increasing. -/
structure SortedMap (κ ν : Type) [LinearOrder κ] where
  entries : List (κ × ν)
  sorted : entries.Pairwise fun a b => a.1 < b.1
  deriving DecidableEq

namespace SortedMap

/-- A map is its entries. -/
@[ext] theorem ext {m m' : SortedMap κ ν} (h : m.entries = m'.entries) : m = m' := by
  cases m
  cases m'
  cases h
  rfl

/-- The map with no entry. -/
def empty : SortedMap κ ν := ⟨[], List.Pairwise.nil⟩

/-- Insertion of `(k, v)` into the entries: before the first greater key;
    nothing when `k` is there. -/
def insertEntry (k : κ) (v : ν) : List (κ × ν) → List (κ × ν) × Bool
  | [] => ([(k, v)], true)
  | e :: es =>
    if k < e.1 then ((k, v) :: e :: es, true)
    else if k = e.1 then (e :: es, false)
    else ((e :: (insertEntry k v es).1), (insertEntry k v es).2)

/-- An entry after insertion is the new one or an old one. -/
theorem mem_insertEntry {k : κ} {v : ν} {x : κ × ν} :
    ∀ {es : List (κ × ν)}, x ∈ (insertEntry k v es).1 → x = (k, v) ∨ x ∈ es
  | [], hx => .inl (List.mem_singleton.1 hx)
  | e :: es, hx => by
    unfold insertEntry at hx
    split_ifs at hx with hlt heq
    · exact List.mem_cons.1 hx
    · exact .inr hx
    · rcases List.mem_cons.1 hx with rfl | hx
      · exact .inr List.mem_cons_self
      · rcases mem_insertEntry hx with rfl | hx
        · exact .inl rfl
        · exact .inr (List.mem_cons_of_mem e hx)

/-- Insertion keeps the keys increasing: the new key goes before the first
    greater one and after every smaller one. -/
theorem insertEntry_sorted (k : κ) (v : ν) :
    ∀ {es : List (κ × ν)}, es.Pairwise (fun a b => a.1 < b.1) →
      (insertEntry k v es).1.Pairwise fun a b => a.1 < b.1
  | [], _ => List.pairwise_singleton _ _
  | e :: es, hs => by
    have ⟨hhead, htail⟩ := List.pairwise_cons.1 hs
    unfold insertEntry
    split_ifs with hlt heq
    · -- `k` goes first: below `e`, so below the rest
      refine List.Pairwise.cons (fun x hx => ?_) hs
      rcases List.mem_cons.1 hx with rfl | hx
      · exact hlt
      · exact lt_trans hlt (hhead x hx)
    · exact hs
    · -- `e` stays first: below `k` and below the rest
      have hek : e.1 < k := lt_of_le_of_ne (le_of_not_gt hlt) (Ne.symm heq)
      refine List.Pairwise.cons (fun x hx => ?_) (insertEntry_sorted k v htail)
      rcases mem_insertEntry hx with rfl | hx
      · exact hek
      · exact hhead x hx

/-- `insert (std::make_pair (k, v))`: the map, and whether it inserted. -/
def insert (m : SortedMap κ ν) (k : κ) (v : ν) : SortedMap κ ν × Bool :=
  (⟨(insertEntry k v m.entries).1, insertEntry_sorted k v m.sorted⟩, (insertEntry k v m.entries).2)

/-- A key above every key of the entries goes at the end. -/
theorem insertEntry_of_lt {k : κ} {v : ν} :
    ∀ {es : List (κ × ν)}, (∀ e ∈ es, e.1 < k) → insertEntry k v es = (es ++ [(k, v)], true)
  | [], _ => rfl
  | e :: es, hlt => by
    have hek : e.1 < k := hlt e List.mem_cons_self
    unfold insertEntry
    rw [if_neg (not_lt_of_gt hek), if_neg (ne_of_gt hek),
      insertEntry_of_lt fun x hx => hlt x (List.mem_cons_of_mem e hx)]
    rfl

theorem insert_of_lt {m : SortedMap κ ν} {k : κ} (v : ν) (hlt : ∀ e ∈ m.entries, e.1 < k) :
    (m.insert k v).1.entries = m.entries ++ [(k, v)] ∧ (m.insert k v).2 = true := by
  show (insertEntry k v m.entries).1 = _ ∧ (insertEntry k v m.entries).2 = _
  rw [insertEntry_of_lt hlt]
  exact ⟨rfl, rfl⟩

/-- What the reader of a map does with each entry read. -/
def insertStep (m : SortedMap κ ν) (e : κ × ν) : SortedMap κ ν := (m.insert e.1 e.2).1

/-- Inserting in order the entries of a sorted list whose keys are above
    those of `m` appends them: each goes at the end (`insert_of_lt`).  By
    induction on the list, `m` growing by one entry each time. -/
theorem foldl_insert : ∀ (es : List (κ × ν)) (m : SortedMap κ ν), es.Pairwise (fun a b => a.1 < b.1) →
    (∀ e ∈ m.entries, ∀ x ∈ es, e.1 < x.1) → (es.foldl insertStep m).entries = m.entries ++ es
  | [], m, _, _ => (List.append_nil _).symm
  | x :: es, m, hs, hlt => by
    have ⟨hhead, htail⟩ := List.pairwise_cons.1 hs
    have hins := insert_of_lt x.2 fun e he => hlt e he x List.mem_cons_self
    -- the map after `x`: its keys are below those of the rest
    have hlt' : ∀ e ∈ (insertStep m x).entries, ∀ y ∈ es, e.1 < y.1 := by
      intro e he y hy
      rw [insertStep, hins.1] at he
      rcases List.mem_append.1 he with he | he
      · exact hlt e he y (List.mem_cons_of_mem x hy)
      · rw [List.mem_singleton.1 he]
        exact hhead y hy
    rw [List.foldl_cons, foldl_insert es (insertStep m x) htail hlt', insertStep, hins.1, List.append_assoc,
      List.singleton_append]

/-- From the empty map, inserting the entries of a sorted list in order
    gives them back. -/
theorem foldl_insert_empty {es : List (κ × ν)} (hs : es.Pairwise fun a b => a.1 < b.1) :
    (es.foldl insertStep empty).entries = es :=
  (foldl_insert es empty hs fun _ he => absurd he List.not_mem_nil).trans (List.nil_append es)

/-- Each entry of a sorted list, inserted after those before it, is
    inserted. -/
theorem insert_take {es : List (κ × ν)} (hs : es.Pairwise fun a b => a.1 < b.1) (i : Nat)
    (h : i < es.length) :
    (((es.take i).foldl insertStep empty).insert (es.get ⟨i, h⟩).1 (es.get ⟨i, h⟩).2).2 = true := by
  have hpre : ((es.take i).foldl insertStep (empty : SortedMap κ ν)).entries = es.take i :=
    foldl_insert_empty (hs.sublist (List.take_sublist i es))
  refine (insert_of_lt _ fun e he => ?_).2
  rw [hpre] at he
  -- an entry before position `i` has a smaller key
  obtain ⟨j, hj, rfl⟩ := List.getElem_of_mem he
  rw [List.length_take] at hj
  rw [List.getElem_take]
  exact List.pairwise_iff_getElem.1 hs j i (by omega) h (by omega)

/-! ### Keys and lookup -/

/-- The keys, increasing. -/
def keys (m : SortedMap κ ν) : List κ := m.entries.map Prod.fst

theorem keys_sorted (m : SortedMap κ ν) : m.keys.Pairwise (· < ·) :=
  List.pairwise_map.2 m.sorted

theorem keys_nodup (m : SortedMap κ ν) : m.keys.Nodup :=
  m.keys_sorted.imp ne_of_lt

theorem mem_keys {m : SortedMap κ ν} {k : κ} : k ∈ m.keys ↔ ∃ v, (k, v) ∈ m.entries := by
  simp [keys]

/-- Two entries with one key are one entry. -/
theorem eq_of_fst_eq {m : SortedMap κ ν} {a b : κ × ν} (ha : a ∈ m.entries) (hb : b ∈ m.entries)
    (h : a.1 = b.1) : a = b :=
  List.inj_on_of_nodup_map m.keys_nodup ha hb h

/-- Two maps with the same entries, in whatever order, are one map. -/
theorem ext_mem {m m' : SortedMap κ ν} (h : ∀ e, e ∈ m.entries ↔ e ∈ m'.entries) : m = m' := by
  have hnd : ∀ n : SortedMap κ ν, n.entries.Nodup := fun n =>
    List.Nodup.of_map Prod.fst n.keys_nodup
  apply ext
  refine List.Perm.eq_of_pairwise (fun a b _ _ hab hba => absurd (lt_trans hab hba) (lt_irrefl _))
    m.sorted m'.sorted ?_
  exact (List.perm_ext_iff_of_nodup (hnd m) (hnd m')).2 h

/-- `find`: the value at `k`, if `k` is a key. -/
def find? (m : SortedMap κ ν) (k : κ) : Option ν :=
  (m.entries.find? fun e => e.1 = k).map Prod.snd

theorem find?_eq_some_iff {m : SortedMap κ ν} {k : κ} {v : ν} :
    m.find? k = some v ↔ (k, v) ∈ m.entries := by
  constructor
  · intro h
    obtain ⟨e, he, rfl⟩ := Option.map_eq_some_iff.1 h
    have hk : e.1 = k := by simpa using List.find?_some he
    have hmem := List.mem_of_find?_eq_some he
    rw [← hk]
    exact hmem
  · intro h
    cases he : m.entries.find? (fun e => decide (e.1 = k)) with
    | none =>
      have hne := List.find?_eq_none.1 he (k, v) h
      simp at hne
    | some e =>
      have hk : e.1 = k := by simpa using List.find?_some he
      have heq := eq_of_fst_eq (List.mem_of_find?_eq_some he) h hk
      rw [find?, he, heq]
      rfl

theorem find?_eq_none_iff {m : SortedMap κ ν} {k : κ} :
    m.find? k = none ↔ k ∉ m.keys := by
  rw [mem_keys, not_exists]
  simp only [find?, Option.map_eq_none_iff, List.find?_eq_none, decide_eq_true_eq]
  constructor
  · intro h v hv
    exact h (k, v) hv rfl
  · intro h e he hk
    exact h e.2 (hk ▸ he)


/-! ### Insertion -/

/-- The entries after an insertion into sorted entries: the old ones, and the
    new one when its key is new. -/
theorem mem_insertEntry_iff {k : κ} {v : ν} {x : κ × ν} :
    ∀ {es : List (κ × ν)}, es.Pairwise (fun a b => a.1 < b.1) →
      (x ∈ (insertEntry k v es).1 ↔ x ∈ es ∨ (x = (k, v) ∧ ∀ e ∈ es, e.1 ≠ k))
  | [], _ => by simp [insertEntry]
  | e :: es, hs => by
    have ⟨hhead, htail⟩ := List.pairwise_cons.1 hs
    unfold insertEntry
    split_ifs with hlt heq
    · -- every key present is above `k`
      have habove : ∀ e' ∈ e :: es, e'.1 ≠ k := by
        intro e' he'
        rcases List.mem_cons.1 he' with rfl | he'
        · exact ne_of_gt hlt
        · exact ne_of_gt (lt_trans hlt (hhead e' he'))
      simp only [List.mem_cons] at habove ⊢
      constructor
      · rintro (rfl | hx)
        · exact .inr ⟨rfl, habove⟩
        · exact .inl hx
      · rintro (hx | ⟨rfl, _⟩)
        · exact .inr hx
        · exact .inl rfl
    · -- `k` is the key of `e`
      have hno : ¬ ∀ e' ∈ e :: es, e'.1 ≠ k := fun h => h e List.mem_cons_self heq.symm
      simp only [hno, and_false, or_false]
    · have hek : e.1 ≠ k := Ne.symm heq
      rw [List.mem_cons, mem_insertEntry_iff htail, List.forall_mem_cons]
      simp only [hek, ne_eq, not_false_eq_true, true_and, List.mem_cons]
      tauto

theorem mem_insert {m : SortedMap κ ν} {k : κ} {v : ν} {x : κ × ν} :
    x ∈ (m.insert k v).1.entries ↔ x ∈ m.entries ∨ (x = (k, v) ∧ k ∉ m.keys) := by
  show x ∈ (insertEntry k v m.entries).1 ↔ _
  rw [mem_insertEntry_iff m.sorted, mem_keys, not_exists]
  constructor
  · rintro (hx | ⟨rfl, hne⟩)
    · exact .inl hx
    · exact .inr ⟨rfl, fun w hw => hne _ hw rfl⟩
  · rintro (hx | ⟨rfl, hne⟩)
    · exact .inl hx
    · exact .inr ⟨rfl, fun e he hk => hne e.2 (hk ▸ he)⟩

/-- Below the first key of sorted entries, a key is none of theirs. -/
theorem ne_of_lt_head {k : κ} {e : κ × ν} {es : List (κ × ν)}
    (hs : (e :: es).Pairwise (fun a b => a.1 < b.1)) (hlt : k < e.1) : ∀ e' ∈ e :: es, e'.1 ≠ k := by
  intro e' he'
  rcases List.mem_cons.1 he' with rfl | he'
  · exact ne_of_gt hlt
  · exact ne_of_gt (lt_trans hlt (List.rel_of_pairwise_cons hs he'))

/-- `insert` inserts exactly when the key is new. -/
theorem insertEntry_snd {k : κ} {v : ν} :
    ∀ {es : List (κ × ν)}, es.Pairwise (fun a b => a.1 < b.1) →
      ((insertEntry k v es).2 = true ↔ ∀ e ∈ es, e.1 ≠ k)
  | [], _ => by simp [insertEntry]
  | e :: es, hs => by
    unfold insertEntry
    split_ifs with hlt heq
    · exact iff_of_true rfl (ne_of_lt_head hs hlt)
    · exact iff_of_false (by simp) fun h => h e List.mem_cons_self heq.symm
    · rw [insertEntry_snd (List.pairwise_cons.1 hs).2, List.forall_mem_cons]
      exact (and_iff_right (Ne.symm heq)).symm

theorem length_insertEntry (k : κ) (v : ν) :
    ∀ es : List (κ × ν), (insertEntry k v es).1.length = es.length + (insertEntry k v es).2.toNat
  | [] => rfl
  | e :: es => by
    unfold insertEntry
    by_cases hlt : k < e.1
    · simp [hlt]
    · by_cases heq : k = e.1
      · simp [heq]
      · simp only [if_neg hlt, if_neg heq, List.length_cons, length_insertEntry k v es]
        omega

theorem insert_snd {m : SortedMap κ ν} {k : κ} {v : ν} : (m.insert k v).2 = true ↔ k ∉ m.keys := by
  show (insertEntry k v m.entries).2 = true ↔ _
  rw [insertEntry_snd m.sorted, mem_keys, not_exists]
  constructor
  · intro h w hw
    exact h _ hw rfl
  · intro h e he hk
    exact h e.2 (hk ▸ he)

theorem length_insert {m : SortedMap κ ν} {k : κ} (v : ν) (hk : k ∉ m.keys) :
    (m.insert k v).1.entries.length = m.entries.length + 1 := by
  have hins : (m.insert k v).2 = true := insert_snd.2 hk
  show (insertEntry k v m.entries).1.length = _
  rw [length_insertEntry]
  exact congrArg (m.entries.length + Bool.toNat ·) hins

theorem mem_keys_insert {m : SortedMap κ ν} {k k' : κ} {v : ν} :
    k' ∈ (m.insert k v).1.keys ↔ k' ∈ m.keys ∨ k' = k := by
  simp only [mem_keys, mem_insert, Prod.mk.injEq]
  constructor
  · rintro ⟨w, hw | ⟨⟨rfl, rfl⟩, _⟩⟩
    · exact .inl ⟨w, hw⟩
    · exact .inr rfl
  · rintro (⟨w, hw⟩ | rfl)
    · exact ⟨w, .inl hw⟩
    · by_cases hk : k' ∈ m.keys
      · obtain ⟨w, hw⟩ := mem_keys.1 hk
        exact ⟨w, .inl hw⟩
      · exact ⟨v, .inr ⟨⟨rfl, rfl⟩, fun h => hk (mem_keys.2 h)⟩⟩

/-- The value at a key after an insertion: the old one, if any. -/
theorem find?_insert (m : SortedMap κ ν) (k : κ) (v : ν) (u : κ) :
    (m.insert k v).1.find? u = if u = k then some ((m.find? k).getD v) else m.find? u := by
  split_ifs with hu
  · subst hu
    cases h : m.find? u with
    | some w =>
      rw [Option.getD_some, find?_eq_some_iff, mem_insert]
      exact .inl (find?_eq_some_iff.1 h)
    | none =>
      rw [Option.getD_none, find?_eq_some_iff, mem_insert]
      exact .inr ⟨rfl, find?_eq_none_iff.1 h⟩
  · cases h : m.find? u with
    | some w =>
      rw [find?_eq_some_iff, mem_insert]
      exact .inl (find?_eq_some_iff.1 h)
    | none =>
      rw [find?_eq_none_iff, mem_keys_insert, not_or]
      exact ⟨find?_eq_none_iff.1 h, hu⟩

/-! ### Inserting a list of entries -/

/-- Inserting entries with distinct keys one by one keeps the old entries and
    adds those whose key is new.  By induction on the list, the map growing
    by one insertion each time. -/
theorem mem_foldl_insertStep {x : κ × ν} :
    ∀ {es : List (κ × ν)} (m : SortedMap κ ν), (es.map Prod.fst).Nodup →
      (x ∈ (es.foldl insertStep m).entries ↔ x ∈ m.entries ∨ (x ∈ es ∧ x.1 ∉ m.keys))
  | [], m, _ => by simp
  | e :: es, m, hnd => by
    have ⟨hnew, hnd'⟩ := List.nodup_cons.1 hnd
    rw [List.foldl_cons, mem_foldl_insertStep (insertStep m e) hnd', insertStep, mem_insert,
      mem_keys_insert, List.mem_cons]
    constructor
    · rintro ((hx | ⟨rfl, hk⟩) | ⟨hx, hk⟩)
      · exact .inl hx
      · exact .inr ⟨.inl rfl, hk⟩
      · exact .inr ⟨.inr hx, fun h => hk (.inl h)⟩
    · rintro (hx | ⟨rfl | hx, hk⟩)
      · exact .inl (.inl hx)
      · exact .inl (.inr ⟨rfl, hk⟩)
      · -- a later entry's key is not `e`'s
        have hne : x.1 ≠ e.1 := fun h => hnew (h ▸ List.mem_map_of_mem hx)
        exact .inr ⟨hx, fun h => h.elim hk hne⟩

/-- Entries with distinct keys, inserted in any order, give one map. -/
theorem foldl_insert_perm {es es' : List (κ × ν)} (hp : es.Perm es') (hnd : (es.map Prod.fst).Nodup)
    (m : SortedMap κ ν) : es.foldl insertStep m = es'.foldl insertStep m := by
  have hnd' : (es'.map Prod.fst).Nodup := (hp.map Prod.fst).nodup_iff.1 hnd
  apply ext_mem
  intro x
  rw [mem_foldl_insertStep m hnd, mem_foldl_insertStep m hnd', hp.mem_iff]


/-- From the empty map, entries of distinct keys inserted in any order are
    the map's entries, in its order. -/
theorem foldl_insert_empty_perm {es : List (κ × ν)} (hnd : (es.map Prod.fst).Nodup) :
    (es.foldl insertStep empty).entries.Perm es := by
  have hnd' : ∀ n : SortedMap κ ν, n.entries.Nodup := fun n => List.Nodup.of_map Prod.fst n.keys_nodup
  refine (List.perm_ext_iff_of_nodup (hnd' _) (List.Nodup.of_map Prod.fst hnd)).2 fun x => ?_
  rw [mem_foldl_insertStep empty hnd]
  exact ⟨fun h => h.elim (fun he => absurd he List.not_mem_nil) And.left,
    fun h => .inr ⟨h, List.not_mem_nil⟩⟩

/-! ### Changing values in place, and keeping some entries -/

variable {ν' : Type}

theorem map_sorted (m : SortedMap κ ν) (f : κ → ν → ν') :
    (m.entries.map fun e => (e.1, f e.1 e.2)).Pairwise fun a b => a.1 < b.1 :=
  List.pairwise_map.2 m.sorted

/-- Each value changed by `f`, which may read its key: a loop over the map
    that sets fields of its values in place. -/
def map (m : SortedMap κ ν) (f : κ → ν → ν') : SortedMap κ ν' :=
  ⟨m.entries.map fun e => (e.1, f e.1 e.2), m.map_sorted f⟩

@[simp] theorem keys_map (m : SortedMap κ ν) (f : κ → ν → ν') : (m.map f).keys = m.keys := by
  simp [keys, map]

theorem mem_map {m : SortedMap κ ν} {f : κ → ν → ν'} {x : κ × ν'} :
    x ∈ (m.map f).entries ↔ ∃ v, (x.1, v) ∈ m.entries ∧ x.2 = f x.1 v := by
  simp only [map, List.mem_map]
  constructor
  · rintro ⟨e, he, rfl⟩
    exact ⟨e.2, he, rfl⟩
  · rintro ⟨v, hv, hx⟩
    exact ⟨(x.1, v), hv, Prod.ext rfl hx.symm⟩

/-- A change that leaves every value as it is leaves the map. -/
theorem map_eq_self {m : SortedMap κ ν} {f : κ → ν → ν} (h : ∀ e ∈ m.entries, f e.1 e.2 = e.2) : m.map f = m := by
  apply ext
  calc m.entries.map (fun e => (e.1, f e.1 e.2)) = m.entries.map id :=
        List.map_congr_left fun e he => by rw [h e he]; rfl
    _ = m.entries := List.map_id _

theorem find?_map (m : SortedMap κ ν) (f : κ → ν → ν') (k : κ) :
    (m.map f).find? k = (m.find? k).map (f k) := by
  cases h : m.find? k with
  | none =>
    rw [Option.map_none, find?_eq_none_iff, keys_map]
    exact find?_eq_none_iff.1 h
  | some v =>
    rw [Option.map_some, find?_eq_some_iff, mem_map]
    exact ⟨v, find?_eq_some_iff.1 h, rfl⟩

/-- `find (k)` and a change in place of the value found. -/
def modify (m : SortedMap κ ν) (k : κ) (g : ν → ν) : SortedMap κ ν :=
  m.map fun k' v => if k' = k then g v else v

theorem find?_modify (m : SortedMap κ ν) (k k' : κ) (g : ν → ν) :
    (m.modify k g).find? k' = if k' = k then (m.find? k').map g else m.find? k' := by
  rw [modify, find?_map]
  split_ifs with hk
  · simp [hk]
  · simp only [Option.map_id']

theorem filter_sorted (m : SortedMap κ ν) (p : κ → ν → Bool) :
    (m.entries.filter fun e => p e.1 e.2).Pairwise fun a b => a.1 < b.1 :=
  m.sorted.filter _

/-- The entries for which `p` holds, in order. -/
def filter (m : SortedMap κ ν) (p : κ → ν → Bool) : SortedMap κ ν :=
  ⟨m.entries.filter fun e => p e.1 e.2, m.filter_sorted p⟩

theorem mem_filter {m : SortedMap κ ν} {p : κ → ν → Bool} {x : κ × ν} :
    x ∈ (m.filter p).entries ↔ x ∈ m.entries ∧ p x.1 x.2 = true :=
  List.mem_filter

theorem find?_filter (m : SortedMap κ ν) (p : κ → ν → Bool) (k : κ) :
    (m.filter p).find? k = (m.find? k).filter (p k) := by
  cases h : m.find? k with
  | none =>
    rw [Option.filter_none, find?_eq_none_iff, mem_keys]
    rintro ⟨v, hv⟩
    exact find?_eq_none_iff.1 h (mem_keys.2 ⟨v, (mem_filter.1 hv).1⟩)
  | some v =>
    have hv := find?_eq_some_iff.1 h
    rw [Option.filter_some]
    split_ifs with hp
    · exact find?_eq_some_iff.2 (mem_filter.2 ⟨hv, hp⟩)
    · rw [find?_eq_none_iff, mem_keys]
      rintro ⟨w, hw⟩
      have ⟨hw', hpw⟩ := mem_filter.1 hw
      cases eq_of_fst_eq hv hw' rfl
      exact hp hpw

end SortedMap

end Galera
