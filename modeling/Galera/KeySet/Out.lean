/-
  Galera.KeySet.Out
  ─────────────────
  **THE KEY SET OF A WRITE SET, AS `KeySetOut` BUILDS IT.**

  Transcribes `KeySetOut::append` and the constructor
  `KeySetOut::KeyPart::KeyPart` (src/galera/src/key_set.{hpp,cpp}).  A key
  is a path of parts `p1:…:pn` with a type; appending it stores the key
  parts `p1`, `p1:p2`, …, `p1:…:pn`, the leaf with the prefix of the key's
  type and the others SHARED, and skips what it can:

    * the parts it shares with the previous key (`prev_`) are not stored
      again, and the whole key is dropped when the last shared part already
      carries a stronger or an exclusive prefix;
    * `added_` keeps the strongest prefix stored under every key part hash;
      a part already there as strongly is not stored again, and when it is
      the leaf, or sits under a stronger prefix, the rest of the key is
      dropped (`DUPLICATE`).

  A part is stored and found under the `gu::Hash` of its path, a function
  `hashPath` of the part values here.  `added_`, a hash set of stored parts
  whose prefix `update_ptr` may raise, is the partial map from hash to that
  prefix; its bucket layout is not modelled.
-/
import Mathlib
import Galera.Cert.Types

namespace Galera.KeySet

open Galera.Cert

set_option linter.unusedSectionVars false

/-! ## §1. Prefixes. -/

/-- `KeySet::KeyPart::prefix(ws_type, ws_ver)`: the prefix bits a key type
is stored with; EXCLUSIVE shares prefix 1 with SEMI before version 4. -/
def prefixFor (t : KeyType) (wsVer : Nat) : Fin 3 :=
  match t with
  | .shared => 0
  | .semi => 1
  | .exclusive => if wsVer < 4 then 1 else 2

/-- `key_prefix_is_stronger_than(left, right)`. -/
def keyPrefixIsStrongerThan (left right : Fin 3) : Bool := decide (right < left)

@[simp] theorem keyPrefixIsStrongerThan_iff (left right : Fin 3) :
    keyPrefixIsStrongerThan left right = true ↔ right < left := by
  simp [keyPrefixIsStrongerThan]

@[simp] theorem prefixFor_shared (wsVer : Nat) : prefixFor .shared wsVer = 0 := rfl

/-- Only SHARED is stored with prefix 0. -/
theorem prefixFor_pos {t : KeyType} (ht : t ≠ .shared) (wsVer : Nat) : 0 < prefixFor t wsVer := by
  cases t with
  | shared => exact absurd rfl ht
  | semi =>
    show (0 : Fin 3) < 1
    decide
  | exclusive =>
    unfold prefixFor
    split_ifs <;> decide

/-- EXCLUSIVE has the strongest prefix of its version. -/
theorem prefixFor_le_exclusive (t : KeyType) (wsVer : Nat) :
    prefixFor t wsVer ≤ prefixFor .exclusive wsVer := by
  cases t <;> unfold prefixFor <;> split_ifs <;> decide

/-! ## §2. Keys. -/

/-- `wsrep_key_t` as `KeyData` holds it: the part values of a key path and
the key's type.  (`copy`, which only decides who owns the bytes, is not
modelled.) -/
structure KeyData (V : Type) where
  parts : List V
  type : KeyType
  deriving DecidableEq, Repr

variable {V K : Type} [DecidableEq V] [DecidableEq K] (hashPath : List V → K)

/-- The key part the constructor builds for part `partNum` of `kd`: the hash
of the path up to it, with the prefix of the key's type for the leaf and
SHARED for the others. -/
def KeyData.part (wsVer : Nat) (kd : KeyData V) (partNum : Nat) : KeyPart K :=
  ⟨hashPath (kd.parts.take (partNum + 1)),
    prefixFor (if partNum + 1 = kd.parts.length then kd.type else .shared) wsVer⟩

/-- A branch part is SHARED. -/
theorem KeyData.part_prefixBits_of_branch (wsVer : Nat) (kd : KeyData V) {j : Nat}
    (hj : j + 1 ≠ kd.parts.length) : (kd.part hashPath wsVer j).prefixBits = 0 := by
  simp [KeyData.part, hj]

/-- The leaf is the key's own type. -/
theorem KeyData.part_of_leaf (wsVer : Nat) (kd : KeyData V) {j : Nat}
    (hj : j + 1 = kd.parts.length) :
    kd.part hashPath wsVer j = ⟨hashPath kd.parts, prefixFor kd.type wsVer⟩ := by
  unfold KeyData.part
  rw [if_pos hj, hj, List.take_length]

/-- The common ancestor loop of `append`: how many leading parts the key
shares with the previous key (`prev_[i + 1].match(kd.parts[i])`). -/
def matchedParts : List V → List V → Nat
  | a :: as, b :: bs => if a = b then matchedParts as bs + 1 else 0
  | _, _ => 0

/-- The matched parts are a common prefix of both keys. -/
theorem matchedParts_spec :
    ∀ (as bs : List V), matchedParts as bs ≤ as.length ∧ matchedParts as bs ≤ bs.length ∧
      as.take (matchedParts as bs) = bs.take (matchedParts as bs)
  | [], bs => by simp [matchedParts]
  | a :: as, [] => by simp [matchedParts]
  | a :: as, b :: bs => by
    by_cases hab : a = b
    · subst hab
      obtain ⟨h₁, h₂, h₃⟩ := matchedParts_spec as bs
      rw [matchedParts, if_pos rfl, List.take_succ_cons, List.take_succ_cons, h₃]
      exact ⟨by simp only [List.length_cons]; omega, by simp only [List.length_cons]; omega, rfl⟩
    · simp [matchedParts, hab]

/-! ## §3. The key set. -/

/-- `KeySetOut`: the write set version, `added_` as the strongest prefix
stored per key part hash, the part values of the previous key (`prev_`
past its root), and the key parts stored so far, in order. -/
structure KeySetOut (V K : Type) where
  wsVer : Nat
  added : K → Option (Fin 3)
  prev : List V
  stored : List (KeyPart K)

/-- A new `KeySetOut`: nothing added, `prev_` holding only its root. -/
def KeySetOut.init (wsVer : Nat) : KeySetOut V K := ⟨wsVer, fun _ => none, [], []⟩

/-- `prev_[i].prefix()` for `0 < i`: the prefix stored under the hash of the
previous key's first `i` parts, which `part_` points to in `added_`. -/
def KeySetOut.prevPrefix (ks : KeySetOut V K) (i : Nat) : Fin 3 :=
  (ks.added (hashPath (ks.prev.take i))).getD 0

/-- `ks` with `kp` inserted into `added_` at its prefix and stored. -/
def KeySetOut.store (ks : KeySetOut V K) (kp : KeyPart K) : KeySetOut V K :=
  { ks with added := Function.update ks.added kp.hash (some kp.prefixBits),
            stored := ks.stored ++ [kp] }

/-- `KeySetOut::KeyPart::KeyPart(added, store, parent, kd, part_num, ...)`:
the part is stored when its hash is new to `added_` or its prefix is
stronger than the one there (`update_ptr`); `none` is `throw DUPLICATE()`,
for a leaf that is there as strongly, or any part under a stronger one. -/
def KeySetOut.keyPart (ks : KeySetOut V K) (kd : KeyData V) (partNum : Nat) :
    Option (KeySetOut V K) :=
  let kp := kd.part hashPath ks.wsVer partNum
  let leaf := partNum + 1 == kd.parts.length
  match ks.added kp.hash with
  | none => some (ks.store kp)
  | some q =>
    if keyPrefixIsStrongerThan kp.prefixBits q then some (ks.store kp)
    else if leaf || keyPrefixIsStrongerThan q kp.prefixBits then none
    else some ks

/-- The loop of `append` over the parts from the common ancestor on; the
flag is `false` when a part threw `DUPLICATE` (`goto out`). -/
def KeySetOut.appendParts (kd : KeyData V) : KeySetOut V K → List Nat → KeySetOut V K × Bool
  | ks, [] => (ks, true)
  | ks, i :: is =>
    match ks.keyPart hashPath kd i with
    | none => (ks, false)
    | some ks' => KeySetOut.appendParts kd ks' is

/-- The part `append` starts storing from, or `none` when it returns early:
after a common ancestor with a stronger or an exclusive prefix, or after a
full match with the same prefix.  A full match with a weaker prefix stores a
stronger copy of the leaf. -/
def KeySetOut.ancestor (ks : KeySetOut V K) (kd : KeyData V) : Option Nat :=
  let i := matchedParts ks.prev kd.parts
  let leafPrefix := prefixFor kd.type ks.wsVer
  if 0 < i then
    if keyPrefixIsStrongerThan (ks.prevPrefix hashPath i) leafPrefix ||
        ks.prevPrefix hashPath i == prefixFor .exclusive ks.wsVer then none
    else if kd.parts.length = i then
      if ks.prevPrefix hashPath i = leafPrefix then none else some (i - 1)
    else some i
  else some 0

/-- `KeySetOut::append(kd)`.  On success `prev_` keeps its first `anc`
parts, which are the key's own, and takes the new ones: it is the key. -/
def KeySetOut.append (ks : KeySetOut V K) (kd : KeyData V) : KeySetOut V K :=
  match ks.ancestor hashPath kd with
  | none => ks
  | some anc =>
    let r := ks.appendParts hashPath kd (List.range' anc (kd.parts.length - anc))
    if r.2 then { r.1 with prev := kd.parts } else r.1

/-! ## §4. What one part does. -/

@[simp] theorem KeySetOut.store_wsVer (ks : KeySetOut V K) (kp : KeyPart K) :
    (ks.store kp).wsVer = ks.wsVer := rfl

@[simp] theorem KeySetOut.store_prev (ks : KeySetOut V K) (kp : KeyPart K) :
    (ks.store kp).prev = ks.prev := rfl

@[simp] theorem KeySetOut.store_stored (ks : KeySetOut V K) (kp : KeyPart K) :
    (ks.store kp).stored = ks.stored ++ [kp] := rfl

theorem KeySetOut.store_added (ks : KeySetOut V K) (kp : KeyPart K) (h : K) :
    (ks.store kp).added h = if h = kp.hash then some kp.prefixBits else ks.added h := by
  simp [KeySetOut.store, Function.update_apply]

/-- Everything one part can do: be stored, new or stronger than what is
there; be skipped as a SHARED branch part already there; or throw, as a leaf
there as strongly or a part under a stronger prefix. -/
theorem KeySetOut.keyPart_cases (ks : KeySetOut V K) (kd : KeyData V) (j : Nat) :
    let kp := kd.part hashPath ks.wsVer j
    (ks.added kp.hash = none ∧ ks.keyPart hashPath kd j = some (ks.store kp)) ∨
    (∃ q, ks.added kp.hash = some q ∧ q < kp.prefixBits ∧
      ks.keyPart hashPath kd j = some (ks.store kp)) ∨
    (∃ q, ks.added kp.hash = some q ∧ kp.prefixBits ≤ q ∧ j + 1 ≠ kd.parts.length ∧
      kp.prefixBits = q ∧ ks.keyPart hashPath kd j = some ks) ∨
    (∃ q, ks.added kp.hash = some q ∧ kp.prefixBits ≤ q ∧
      (j + 1 = kd.parts.length ∨ kp.prefixBits < q) ∧ ks.keyPart hashPath kd j = none) := by
  intro kp
  have hdef : ks.keyPart hashPath kd j =
      match ks.added kp.hash with
      | none => some (ks.store kp)
      | some q =>
        if keyPrefixIsStrongerThan kp.prefixBits q then some (ks.store kp)
        else if (j + 1 == kd.parts.length) || keyPrefixIsStrongerThan q kp.prefixBits then none
        else some ks := rfl
  rw [hdef]
  cases hq : ks.added kp.hash with
  | none => exact Or.inl ⟨rfl, rfl⟩
  | some q =>
    right
    by_cases hlt : q < kp.prefixBits
    · -- a stronger prefix is stored again
      have hs : keyPrefixIsStrongerThan kp.prefixBits q = true := by simpa using hlt
      exact Or.inl ⟨q, rfl, hlt, by dsimp only; rw [if_pos hs]⟩
    · right
      have hle : kp.prefixBits ≤ q := Fin.not_lt.mp hlt
      have hs : ¬ keyPrefixIsStrongerThan kp.prefixBits q = true := by simpa using hlt
      by_cases hthrow : j + 1 = kd.parts.length ∨ kp.prefixBits < q
      · have hc : ((j + 1 == kd.parts.length) || keyPrefixIsStrongerThan q kp.prefixBits) = true := by
          simpa using hthrow
        exact Or.inr ⟨q, rfl, hle, hthrow, by dsimp only; rw [if_neg hs, if_pos hc]⟩
      · -- a SHARED branch part that is there already
        have hc : ¬ ((j + 1 == kd.parts.length) || keyPrefixIsStrongerThan q kp.prefixBits) = true := by
          simpa using hthrow
        rw [not_or] at hthrow
        exact Or.inl ⟨q, rfl, hle, hthrow.1, Fin.le_antisymm hle (Fin.not_lt.mp hthrow.2),
          by dsimp only; rw [if_neg hs, if_neg hc]⟩

theorem KeySetOut.keyPart_wsVer {ks ks' : KeySetOut V K} {kd : KeyData V} {j : Nat}
    (h : ks.keyPart hashPath kd j = some ks') : ks'.wsVer = ks.wsVer := by
  rcases ks.keyPart_cases hashPath kd j with ⟨-, hk⟩ | ⟨q, -, -, hk⟩ | ⟨q, -, -, -, -, hk⟩ |
      ⟨q, -, -, -, hk⟩ <;> rw [hk] at h <;> cases h <;> rfl

theorem KeySetOut.appendParts_wsVer (kd : KeyData V) :
    ∀ (ks : KeySetOut V K) (is : List Nat), (ks.appendParts hashPath kd is).1.wsVer = ks.wsVer
  | ks, [] => rfl
  | ks, i :: is => by
    simp only [KeySetOut.appendParts]
    cases hk : ks.keyPart hashPath kd i with
    | none => rfl
    | some ks' =>
      dsimp only
      rw [KeySetOut.appendParts_wsVer kd ks' is, KeySetOut.keyPart_wsVer hashPath hk]

/-- `append` keeps the write set version. -/
theorem KeySetOut.append_wsVer (ks : KeySetOut V K) (kd : KeyData V) :
    (ks.append hashPath kd).wsVer = ks.wsVer := by
  unfold KeySetOut.append
  cases ks.ancestor hashPath kd with
  | none => rfl
  | some anc =>
    dsimp only
    split_ifs <;> exact KeySetOut.appendParts_wsVer hashPath kd ks _

/-! ## §5. Where `append` starts. -/

/-- Everything the common ancestor check can decide: no ancestor, start at
the first part; an ancestor with a stronger or an exclusive prefix, or a full
match with the same prefix, return; a full match with a weaker prefix,
store the leaf again; a proper ancestor, store from the part after it. -/
theorem KeySetOut.ancestor_cases (ks : KeySetOut V K) (kd : KeyData V) :
    let i := matchedParts ks.prev kd.parts
    let P := ks.prevPrefix hashPath i
    let L := prefixFor kd.type ks.wsVer
    (i = 0 ∧ ks.ancestor hashPath kd = some 0) ∨
    (0 < i ∧ (L < P ∨ P = prefixFor .exclusive ks.wsVer ∨ (kd.parts.length = i ∧ P = L)) ∧
      ks.ancestor hashPath kd = none) ∨
    (0 < i ∧ ¬ L < P ∧ kd.parts.length = i ∧ P ≠ L ∧ ks.ancestor hashPath kd = some (i - 1)) ∨
    (0 < i ∧ kd.parts.length ≠ i ∧ ks.ancestor hashPath kd = some i) := by
  intro i P L
  have hdef : ks.ancestor hashPath kd =
      if 0 < i then
        if keyPrefixIsStrongerThan P L || P == prefixFor .exclusive ks.wsVer then none
        else if kd.parts.length = i then (if P = L then none else some (i - 1))
        else some i
      else some 0 := rfl
  rw [hdef]
  by_cases h0 : 0 < i
  · rw [if_pos h0]
    by_cases h1 : (keyPrefixIsStrongerThan P L || P == prefixFor .exclusive ks.wsVer) = true
    · rw [if_pos h1]
      simp only [Bool.or_eq_true, keyPrefixIsStrongerThan_iff, beq_iff_eq] at h1
      exact Or.inr (Or.inl ⟨h0, h1.elim Or.inl (fun h => Or.inr (Or.inl h)), rfl⟩)
    · rw [if_neg h1]
      simp only [Bool.or_eq_true, keyPrefixIsStrongerThan_iff, beq_iff_eq, not_or] at h1
      by_cases h2 : kd.parts.length = i
      · rw [if_pos h2]
        by_cases h3 : P = L
        · rw [if_pos h3]
          exact Or.inr (Or.inl ⟨h0, Or.inr (Or.inr ⟨h2, h3⟩), rfl⟩)
        · rw [if_neg h3]
          exact Or.inr (Or.inr (Or.inl ⟨h0, h1.1, h2, h3, rfl⟩))
      · rw [if_neg h2]
        exact Or.inr (Or.inr (Or.inr ⟨h0, h2, rfl⟩))
  · rw [if_neg h0]
    exact Or.inl ⟨by omega, rfl⟩

end Galera.KeySet
