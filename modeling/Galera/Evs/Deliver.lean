/-
  Galera.Evs.Deliver
  ──────────────────
  **`Proto::deliver()` HANDS UP THE INPUT MAP IN KEY ORDER.**

  `deliver()` reads the head of the input map, the entry with the least
  `(seq, index)`, hands it up and erases it while one of the three tests
  passes: an O_SAFE (or lower) message at or below `safe_seq`, an
  O_AGREED (or lower) one at or below `aru_seq`, an O_FIFO (or lower) one
  below its source's lowest unseen seqno.  The first head that fails
  stops the loop, fatally if its order is above O_SAFE.

  `deliver_finish()` hands a message up, or drops it when its order is
  O_DROP; the model records both, in the order they come, as the list
  the loop returns.  Its counters and its check of the message's view id
  are left out: the input map holds the messages of the current view
  only.

    * `InputMap.begin?_le` — the head has the least key of the index;
    * `keys_index_lt_run` — every key received since the last `clear`
      or `reset` names a member of the view;
    * `DeliverInv`, `DeliverInv.step` — what the loop keeps: the handed
      up entries in increasing key order, each below every entry left,
      each AGREED or SAFE one after every smaller key of the view;
    * `deliverLoop_inv`, `deliverLoop_isSome` — the loop over enough
      iterations: it keeps the invariant, stops with no deliverable SAFE
      head, and returns unless it meets a message above O_SAFE;
    * `deliver_hands_up_in_key_order` — from every state an allowed run
      reaches.
-/
import Mathlib
import Galera.Evs.InsertOrder

namespace Galera.Evs

variable {α : Type}

/-! ## §1. The model -/

/-- `evs::Proto::State`. -/
inductive ProtoState
  | closed
  | joining
  | leaving
  | gather
  | install
  | operational
  deriving DecidableEq, Repr

/-- The value of `gcomm::Order` that `deliver()` compares. -/
def Order.toNat : Order → Nat
  | .drop => 0
  | .unreliable => 1
  | .fifo => 2
  | .agreed => 3
  | .safe => 4
  | .localCausal => 8

/-- `InputMap::begin()`: the entry with the least key, if any. -/
def InputMap.begin? (im : InputMap α) : Option (InputMapEntry α) := (msgIter im.msgIndex).head?

/-- `InputMap::is_safe`. -/
def InputMap.isSafe (im : InputMap α) (k : InputMapMsgKey) : Bool := decide (k.seq ≤ im.safeSeq)

/-- `InputMap::is_agreed`. -/
def InputMap.isAgreed (im : InputMap α) (k : InputMapMsgKey) : Bool := decide (k.seq ≤ im.aruSeq)

/-- `InputMap::is_fifo`: the message is below its source's lowest unseen
    seqno.  The node is read by index; out of range that is a fatal error
    here. -/
def InputMap.isFifo (im : InputMap α) (k : InputMapMsgKey) : Option Bool :=
  (im.nodeIndex[k.index]?).map fun node => decide (k.seq < node.range.lu)

/-- The test of `deliver()`'s loop, evaluated left to right as `||` and
    `&&` do. -/
def InputMap.canDeliver (im : InputMap α) (k : InputMapMsgKey) (o : Order) : Option Bool :=
  if (decide (o.toNat ≤ 4) && im.isSafe k) = true then some true
  else if (decide (o.toNat ≤ 3) && im.isAgreed k) = true then some true
  else if o.toNat ≤ 2 then im.isFifo k
  else some false

/-- The loop of `Proto::deliver()` with `fuel` iterations left and the
    entries handed up so far: a head that can be delivered is handed up
    and erased; one that cannot stops the loop, fatally above O_SAFE. -/
def deliverLoop : Nat → InputMap α → List (InputMapEntry α) → Option (List (InputMapEntry α) × InputMap α)
  | 0, im, out => some (out, im)
  | fuel + 1, im, out =>
    match im.begin? with
    | none => some (out, im)
    | some e => do
      if (← im.canDeliver e.1 e.2.msg.order) then
        let im' ← im.erase e.1
        deliverLoop fuel im' (out ++ [e])
      else if 4 < e.2.msg.order.toNat then none
      else some (out, im)

/-- `Proto::deliver()`: a recursive call, or a call outside the states
    that deliver, is fatal.  One iteration per entry is enough
    (`deliverLoop_isSome`). -/
def deliver (state : ProtoState) (delivering : Bool) (im : InputMap α) :
    Option (List (InputMapEntry α) × InputMap α) :=
  if delivering then none
  else if state = .operational ∨ state = .gather ∨ state = .install ∨ state = .leaving then
    deliverLoop (im.msgIndex.keys.length + 1) im []
  else none

/-! ## §2. The head of the input map -/

theorem InputMapMsgKey.lt_iff {a b : InputMapMsgKey} :
    a.lt b = true ↔ a.seq < b.seq ∨ a.seq = b.seq ∧ a.index < b.index := by
  simp [InputMapMsgKey.lt]

theorem InputMapMsgKey.le_refl (a : InputMapMsgKey) : a.le a = true := by
  rw [InputMapMsgKey.le_iff]
  omega

theorem InputMapMsgKey.lt_of_le_of_ne {a b : InputMapMsgKey} (h : a.le b = true) (hne : a ≠ b) :
    a.lt b = true := by
  obtain ⟨i, s⟩ := a
  obtain ⟨j, t⟩ := b
  rw [InputMapMsgKey.le_iff] at h
  rw [InputMapMsgKey.lt_iff]
  dsimp only at h ⊢
  simp only [ne_eq, InputMapMsgKey.mk.injEq] at hne
  omega

theorem InputMapMsgKey.not_le_of_lt {a b : InputMapMsgKey} (h : a.lt b = true) : b.le a = false := by
  simp [InputMapMsgKey.le, h]

theorem InputMapMsgKey.lt_irrefl (a : InputMapMsgKey) : a.lt a = false := by
  simp [InputMapMsgKey.lt]

theorem InputMapMsgKey.lt_asymm {a b : InputMapMsgKey} (h : a.lt b = true) : b.lt a = false := by
  rw [InputMapMsgKey.lt_iff] at h
  simp only [InputMapMsgKey.lt, decide_eq_false_iff_not]
  omega

/-- The head is an entry of the index … -/
theorem InputMap.begin?_mem {im : InputMap α} {e : InputMapEntry α} (h : im.begin? = some e) :
    e ∈ im.msgIndex.entries :=
  (msgIter_perm im.msgIndex).subset (List.mem_of_head? h)

/-- … with the least key. -/
theorem InputMap.begin?_le {im : InputMap α} {e : InputMapEntry α} (h : im.begin? = some e)
    {k : InputMapMsgKey} (hk : k ∈ im.msgIndex) : e.1.le k = true := by
  obtain ⟨rest, hrest⟩ := List.head?_eq_some_iff.1 h
  obtain ⟨v, hv⟩ := List.mem_keys.1 (AList.mem_keys.1 hk)
  have hmem : (⟨k, v⟩ : InputMapEntry α) ∈ e :: rest := by
    rw [← hrest]
    exact (msgIter_perm im.msgIndex).symm.subset hv
  have hsorted := msgIter_pairwise im.msgIndex
  rw [hrest] at hsorted
  rcases List.mem_cons.1 hmem with heq | hmem
  · rw [← heq]
    exact InputMapMsgKey.le_refl k
  · exact List.rel_of_pairwise_cons hsorted hmem

/-! ## §3. The test of the loop -/

/-- A SAFE message is delivered at or below `safe_seq` only … -/
theorem InputMap.seq_le_safe_of_canDeliver {im : InputMap α} {k : InputMapMsgKey}
    (h : im.canDeliver k .safe = some true) : k.seq ≤ im.safeSeq := by
  simpa [InputMap.canDeliver, Order.toNat, InputMap.isSafe] using h

/-- … and an AGREED one at or below `safe_seq` or `aru_seq`. -/
theorem InputMap.seq_le_of_canDeliver_agreed {im : InputMap α} {k : InputMapMsgKey}
    (h : im.canDeliver k .agreed = some true) : k.seq ≤ im.safeSeq ∨ k.seq ≤ im.aruSeq := by
  simp [InputMap.canDeliver, Order.toNat, InputMap.isSafe, InputMap.isAgreed] at h
  omega

/-- A head that fails the test, of order at most O_SAFE, is not at or
    below `safe_seq`. -/
theorem InputMap.isSafe_of_canDeliver_false {im : InputMap α} {k : InputMapMsgKey} {o : Order}
    (h : im.canDeliver k o = some false) (ho : o.toNat ≤ 4) : im.isSafe k = false := by
  by_contra hs
  have hsafe : im.isSafe k = true := by simpa using hs
  unfold InputMap.canDeliver at h
  rw [if_pos (by simp [ho, hsafe])] at h
  exact absurd h (by simp)

/-- The test reads a node only when the key's index names one. -/
theorem InputMap.canDeliver_isSome (im : InputMap α) {k : InputMapMsgKey} (hk : k.index < im.nodeIndex.length)
    (o : Order) : (im.canDeliver k o).isSome := by
  unfold InputMap.canDeliver InputMap.isFifo
  split_ifs
  · rfl
  · rfl
  · simp [hk]
  · rfl

/-! ## §4. Every received key names a member -/

section Members

variable {im im' : InputMap α}

/-- A successful `insert` names a member and keeps the members. -/
theorem InputMap.insert_length {uuid : Nat} {msg : UserMessage} {rb : α} {r : Range}
    (hi : im.insert uuid msg rb = some (im', r)) :
    uuid < im.nodeIndex.length ∧ im'.nodeIndex.length = im.nodeIndex.length := by
  obtain ⟨h1, h2, node, hn, h3⟩ := InputMap.insert_asserts hi
  refine ⟨(List.getElem?_eq_some_iff.1 hn).1, ?_⟩
  rw [InputMap.insert_of_asserts im rb h1 h2 hn h3] at hi
  split at hi
  · obtain ⟨rfl, -⟩ := Prod.mk.inj (Option.some.inj hi)
    rfl
  · obtain ⟨acc, -, hi⟩ := Option.bind_eq_some_iff.mp hi
    obtain ⟨im'', hupd, heq⟩ := Option.map_eq_some_iff.mp hi
    obtain ⟨rfl, -⟩ := Prod.mk.inj heq
    obtain ⟨m, -, -, rfl⟩ := InputMap.updateAru_eq_some.mp hupd
    exact List.length_set ..

/-- One operation: the keys it receives name a member, and no operation
    but `reset` and `clear`, which forget the keys, changes the members. -/
theorem keys_index_lt_step {R : List InputMapMsgKey} {op : InputMapOp α}
    (h : ∀ k ∈ R, k.index < im.nodeIndex.length) (hs : im.step op = some im') :
    ∀ k ∈ receivedStep R op, k.index < im'.nodeIndex.length := by
  cases op with
  | reset nodes => simp [receivedStep]
  | insert uuid msg rb =>
    obtain ⟨⟨im'', r⟩, hi, rfl⟩ := Option.map_eq_some_iff.mp hs
    obtain ⟨hu, hlen⟩ := InputMap.insert_length hi
    intro k hk
    dsimp only
    rw [hlen]
    rcases List.mem_append.1 hk with hk | hk
    · rw [(mem_seqKeys.1 hk).1]
      exact hu
    · exact h k hk
  | erase key =>
    obtain ⟨-, -, -, rfl⟩ := InputMap.erase_eq_some hs
    exact h
  | setSafeSeq uuid seq =>
    obtain ⟨-, -, -, -, m, -, -, -, rfl⟩ := InputMap.setSafeSeq_eq_some hs
    intro k hk
    rw [List.length_set]
    exact h k hk
  | clear => simp [receivedStep]

/-- Along a run: induction on the operations. -/
theorem keys_index_lt_run : ∀ (ops : List (InputMapOp α)) {im im' : InputMap α} {R : List InputMapMsgKey},
    (∀ k ∈ R, k.index < im.nodeIndex.length) → im.run ops = some im' →
      ∀ k ∈ receivedRun R ops, k.index < im'.nodeIndex.length
  | [], _, _, _, h, hr => by
    cases Option.some.inj hr
    exact h
  | _ :: ops, _, _, _, h, hr => by
    obtain ⟨im₁, hs, hr⟩ := Option.bind_eq_some_iff.mp hr
    exact keys_index_lt_run ops (keys_index_lt_step h hs) hr

end Members

/-! ## §5. What the loop keeps -/

section Loop

variable {im₀ im : InputMap α} {recv : Set InputMapMsgKey} {out : List (InputMapEntry α)}

/-- Every seqno of a member at or below `aru_seq` has been received. -/
theorem InputMapInv.mem_of_seq_le_aru (h : InputMapInv im recv) {k : InputMapMsgKey}
    (hk : k.index < im.nodeIndex.length) (h0 : 0 ≤ k.seq) (ha : k.seq ≤ im.aruSeq) : k ∈ recv := by
  obtain ⟨node, hn⟩ : ∃ node, im.nodeIndex[k.index]? = some node := ⟨_, List.getElem?_eq_getElem hk⟩
  have hne : im.nodeIndex ≠ [] := fun hnil => by simp [hnil] at hn
  have hlu : im.aruSeq + 1 ≤ node.range.lu :=
    (List.min?_eq_some_iff.1 (h.aru hne)).2 _ (List.mem_map.2 ⟨node, List.mem_of_getElem? hn, rfl⟩)
  by_contra hnot
  have hle : node.range.lu ≤ k.seq := (h.range k.index node hn).lu.2 ⟨h0, hnot⟩
  omega

/-- The loop of `deliver()` against the map `im₀` it started from, with
    `out` handed up so far: the map is `im₀` less the entries handed up;
    those are in increasing key order, below every entry left, SAFE ones
    at or below `safe_seq` and AGREED ones at or below `aru_seq`, and each
    AGREED or SAFE one after every smaller key of a member, which has been
    received and, if it was waiting, handed up too. -/
structure DeliverInv (im₀ : InputMap α) (recv : Set InputMapMsgKey) (out : List (InputMapEntry α))
    (im : InputMap α) : Prop where
  inv : InputMapInv im recv
  aruSeq : im.aruSeq = im₀.aruSeq
  safeSeq : im.safeSeq = im₀.safeSeq
  nodeIndex : im.nodeIndex = im₀.nodeIndex
  keys : ∀ k, k ∈ im.msgIndex ↔ k ∈ im₀.msgIndex ∧ k ∉ out.map (·.1)
  entries : ∀ x ∈ im.msgIndex.entries, x ∈ im₀.msgIndex.entries
  fromMap : ∀ x ∈ out, x ∈ im₀.msgIndex.entries
  below : ∀ x ∈ out, ∀ k ∈ im.msgIndex, x.1.lt k = true
  sorted : out.Pairwise fun a b => a.1.lt b.1 = true
  orders : ∀ x ∈ out, (x.2.msg.order = .safe → x.1.seq ≤ im₀.safeSeq) ∧
    (x.2.msg.order = .agreed → x.1.seq ≤ im₀.aruSeq)
  before : ∀ x ∈ out, (x.2.msg.order = .agreed ∨ x.2.msg.order = .safe) →
    ∀ k, k.lt x.1 = true → k.index < im₀.nodeIndex.length → 0 ≤ k.seq →
      k ∈ recv ∧ (k ∈ im₀.msgIndex → k ∈ out.map (·.1))

theorem DeliverInv.init (h : InputMapInv im₀ recv) : DeliverInv im₀ recv [] im₀ where
  inv := h
  aruSeq := rfl
  safeSeq := rfl
  nodeIndex := rfl
  keys _ := by simp
  entries _ hx := hx
  fromMap _ hx := by simp at hx
  below _ hx := by simp at hx
  sorted := List.Pairwise.nil
  orders _ hx := by simp at hx
  before _ hx := by simp at hx

/-- One iteration that hands the head up: the erase succeeds, the
    invariant holds with the head appended, and one entry fewer is left. -/
theorem DeliverInv.step (h : DeliverInv im₀ recv out im) {e : InputMapEntry α} (hb : im.begin? = some e)
    (hc : im.canDeliver e.1 e.2.msg.order = some true) :
    ∃ im', im.erase e.1 = some im' ∧ DeliverInv im₀ recv (out ++ [e]) im' ∧
      im'.msgIndex.keys.length + 1 = im.msgIndex.keys.length := by
  have he : e ∈ im.msgIndex.entries := InputMap.begin?_mem hb
  have hk : e.1 ∈ im.msgIndex := AList.mem_keys.2 (List.mem_keys_of_mem he)
  have hlook : im.msgIndex.lookup e.1 = some e.2 := AList.mem_lookup_iff.2 he
  have hrec : e.1 ∉ im.recoveryIndex := h.inv.indexes.disjoint e.1 hk
  have herase : im.erase e.1 = some { im with recoveryIndex := im.recoveryIndex.insert e.1 e.2,
                                              msgIndex := im.msgIndex.erase e.1 } := by
    simp [InputMap.erase, hlook, insertUnique_of_notMem _ hrec]
  -- the head's seqno is within what the test admits
  have horders : (e.2.msg.order = .safe → e.1.seq ≤ im₀.safeSeq) ∧
      (e.2.msg.order = .agreed → e.1.seq ≤ im₀.aruSeq) := by
    constructor
    · intro ho
      rw [ho] at hc
      rw [← h.safeSeq]
      exact InputMap.seq_le_safe_of_canDeliver hc
    · intro ho
      rw [ho] at hc
      have hsa := h.inv.safeLeAru
      rw [← h.aruSeq]
      rcases InputMap.seq_le_of_canDeliver_agreed hc with hs | ha
      · omega
      · exact ha
  refine ⟨_, herase, ⟨inputMapInv_erase h.inv herase, h.aruSeq, h.safeSeq, h.nodeIndex, fun k => ?_,
    fun x hx => h.entries x ((List.kerase_sublist _ _).subset hx), fun x hx => ?_, fun x hx k hk' => ?_,
    ?_, fun x hx => ?_, fun x hx ho k hlt hidx h0 => ?_⟩, ?_⟩
  · -- the keys left
    simp only [AList.mem_erase, h.keys k, List.map_append, List.mem_append, List.map_cons, List.map_nil,
      List.mem_singleton]
    tauto
  · rcases List.mem_append.1 hx with hx | hx
    · exact h.fromMap x hx
    · exact List.mem_singleton.1 hx ▸ h.entries e he
  · -- the head is below every entry left
    obtain ⟨hne, hk'⟩ := AList.mem_erase.1 hk'
    rcases List.mem_append.1 hx with hx | hx
    · exact h.below x hx k hk'
    · rw [List.mem_singleton.1 hx]
      exact InputMapMsgKey.lt_of_le_of_ne (InputMap.begin?_le hb hk') (Ne.symm hne)
  · exact List.pairwise_append.2 ⟨h.sorted, List.pairwise_singleton _ _,
      fun x hx y hy => List.mem_singleton.1 hy ▸ h.below x hx e.1 hk⟩
  · rcases List.mem_append.1 hx with hx | hx
    · exact h.orders x hx
    · exact List.mem_singleton.1 hx ▸ horders
  · rcases List.mem_append.1 hx with hx | hx
    · obtain ⟨hrecv, hwait⟩ := h.before x hx ho k hlt hidx h0
      exact ⟨hrecv, fun hm => by rw [List.map_append]; exact List.mem_append_left _ (hwait hm)⟩
    · -- the head: a smaller key is at or below `aru_seq`, so received,
      -- and not waiting, since the head is the least key
      obtain rfl : e = x := (List.mem_singleton.1 hx).symm
      have hseq : e.1.seq ≤ im.aruSeq := by
        rw [h.aruSeq]
        rcases ho with ho | ho
        · exact horders.2 ho
        · have := h.inv.safeLeAru
          have := horders.1 ho
          rw [h.safeSeq, h.aruSeq] at *
          omega
      have hkseq : k.seq ≤ e.1.seq := by
        rw [InputMapMsgKey.lt_iff] at hlt
        omega
      refine ⟨h.inv.mem_of_seq_le_aru (h.nodeIndex ▸ hidx) h0 (by omega), fun hm => ?_⟩
      by_contra hnot
      have hkim : k ∈ im.msgIndex :=
        (h.keys k).2 ⟨hm, fun hout => hnot (by rw [List.map_append]; exact List.mem_append_left _ hout)⟩
      have := InputMapMsgKey.not_le_of_lt hlt
      rw [InputMap.begin?_le hb hkim] at this
      exact Bool.noConfusion this
  · -- one entry fewer
    show (im.msgIndex.erase e.1).keys.length + 1 = im.msgIndex.keys.length
    rw [AList.keys_erase, List.length_erase_of_mem (AList.mem_keys.1 hk)]
    have := List.length_pos_of_mem (AList.mem_keys.1 hk)
    omega

/-- What the loop returns, given more iterations than entries: the
    invariant holds, and the head left, if any, fails the test and is not
    at or below `safe_seq`.  Induction on the iterations. -/
theorem deliverLoop_inv : ∀ (fuel : Nat) {im : InputMap α} {out : List (InputMapEntry α)}
    {res : List (InputMapEntry α) × InputMap α},
    DeliverInv im₀ recv out im → im.msgIndex.keys.length < fuel → deliverLoop fuel im out = some res →
      DeliverInv im₀ recv res.1 res.2 ∧
        ∀ e, res.2.begin? = some e → res.2.canDeliver e.1 e.2.msg.order = some false ∧ res.2.isSafe e.1 = false
  | 0, _, _, _, _, hlt, _ => absurd hlt (Nat.not_lt_zero _)
  | fuel + 1, im, out, res, h, hlt, hres => by
    rw [deliverLoop] at hres
    rcases hb : im.begin? with _ | e
    · -- an empty map
      rw [hb] at hres
      cases Option.some.inj hres
      exact ⟨h, fun e he => by simp [hb] at he⟩
    · rw [hb] at hres
      rcases hc : im.canDeliver e.1 e.2.msg.order with _ | _ | _
      · simp [hc] at hres
      · -- the head fails the test: the loop stops, fatally above O_SAFE
        simp only [hc, Option.bind_eq_bind, Option.bind_some, Bool.false_eq_true, if_false] at hres
        split_ifs at hres with hord
        cases Option.some.inj hres
        refine ⟨h, fun e' he' => ?_⟩
        rw [hb, Option.some.injEq] at he'
        subst he'
        exact ⟨hc, InputMap.isSafe_of_canDeliver_false hc (by omega)⟩
      · -- the head is handed up
        obtain ⟨im', herase, h', hlen⟩ := h.step hb hc
        simp only [hc, herase, Option.bind_eq_bind, Option.bind_some, if_true] at hres
        exact deliverLoop_inv fuel h' (by omega) hres

/-- Given more iterations than entries, the loop returns unless it meets
    a message above O_SAFE: the test reads only members' nodes, and every
    erase succeeds.  Induction on the iterations. -/
theorem deliverLoop_isSome (hidx : ∀ k ∈ im₀.msgIndex, k.index < im₀.nodeIndex.length)
    (hord : ∀ x ∈ im₀.msgIndex.entries, x.2.msg.order.toNat ≤ 4) :
    ∀ (fuel : Nat) {im : InputMap α} {out : List (InputMapEntry α)},
      DeliverInv im₀ recv out im → im.msgIndex.keys.length < fuel → (deliverLoop fuel im out).isSome
  | 0, _, _, _, hlt => absurd hlt (Nat.not_lt_zero _)
  | fuel + 1, im, out, h, hlt => by
    rw [deliverLoop]
    rcases hb : im.begin? with _ | e
    · rfl
    · have he := InputMap.begin?_mem hb
      have hk : e.1 ∈ im.msgIndex := AList.mem_keys.2 (List.mem_keys_of_mem he)
      have hi : e.1.index < im.nodeIndex.length := h.nodeIndex ▸ hidx e.1 ((h.keys e.1).1 hk).1
      obtain ⟨b, hc⟩ := Option.isSome_iff_exists.1 (im.canDeliver_isSome hi e.2.msg.order)
      cases b
      · have := hord e (h.entries e he)
        simp only [hc, Option.bind_eq_bind, Option.bind_some, Bool.false_eq_true, if_false]
        rw [if_neg (by omega)]
        rfl
      · obtain ⟨im', herase, h', hlen⟩ := h.step hb hc
        simp only [hc, herase, Option.bind_eq_bind, Option.bind_some, if_true]
        exact deliverLoop_isSome hidx hord fuel h' (by omega)

/-- In a list handed up in increasing key order, a handed-up key below
    another's was handed up before it. -/
theorem mem_map_fst_prefix {out pre post : List (InputMapEntry α)} {x : InputMapEntry α} {k : InputMapMsgKey}
    (hs : out.Pairwise fun a b => a.1.lt b.1 = true) (hout : out = pre ++ x :: post)
    (hk : k ∈ out.map (·.1)) (hlt : k.lt x.1 = true) : k ∈ pre.map (·.1) := by
  obtain ⟨y, hy, rfl⟩ := List.mem_map.1 hk
  rw [hout] at hy hs
  rcases List.mem_append.1 hy with hy | hy
  · exact List.mem_map_of_mem hy
  · have hxs := (List.pairwise_append.1 hs).2.1
    rcases List.mem_cons.1 hy with rfl | hy
    · rw [InputMapMsgKey.lt_irrefl] at hlt
      exact absurd hlt Bool.false_ne_true
    · rw [InputMapMsgKey.lt_asymm (List.rel_of_pairwise_cons hxs hy)] at hlt
      exact absurd hlt Bool.false_ne_true

end Loop

/-! ## §6. From every reachable state -/

theorem deliver_hands_up_in_key_order (ops : List (InputMapOp α)) {im : InputMap α}
    (hok : runAllowed [] ops = true) (hrun : InputMap.init.run ops = some im) {state : ProtoState}
    (hstate : state = .operational ∨ state = .gather ∨ state = .install ∨ state = .leaving) :
    ((∀ x ∈ im.msgIndex.entries, x.2.msg.order.toNat ≤ 4) → (deliver state false im).isSome) ∧
    ∀ out im', deliver state false im = some (out, im') →
      (∀ x ∈ out, x ∈ im.msgIndex.entries) ∧
      out.Pairwise (fun a b => a.1.lt b.1 = true) ∧
      (∀ x ∈ out, (x.2.msg.order = .safe → x.1.seq ≤ im.safeSeq) ∧
        (x.2.msg.order = .agreed → x.1.seq ≤ im.aruSeq)) ∧
      (∀ pre x post, out = pre ++ x :: post → (x.2.msg.order = .agreed ∨ x.2.msg.order = .safe) →
        ∀ k, k.lt x.1 = true → k.index < im.nodeIndex.length → 0 ≤ k.seq →
          k ∈ receivedRun [] ops ∧ (k ∈ im.msgIndex → k ∈ pre.map (·.1))) ∧
      (∀ e, im'.begin? = some e → im'.canDeliver e.1 e.2.msg.order = some false ∧ im'.isSafe e.1 = false) := by
  -- the reached map tracks the keys received, each of a member
  have hinit : InputMapInv (InputMap.init : InputMap α) {k | k ∈ ([] : List InputMapMsgKey)} := by
    have hnil : {k : InputMapMsgKey | k ∈ ([] : List InputMapMsgKey)} = ∅ := by
      ext
      simp
    exact hnil ▸ inputMapInv_init
  have hinv := inputMapInv_run ops hinit hok hrun
  have hidx : ∀ k ∈ im.msgIndex, k.index < im.nodeIndex.length :=
    fun k hk => keys_index_lt_run ops (by simp) hrun k (hinv.indexes.msgRecv k hk)
  have hdel : deliver state false im = deliverLoop (im.msgIndex.keys.length + 1) im [] := by
    simp [deliver, hstate]
  refine ⟨fun hord => ?_, fun out im' hres => ?_⟩
  · rw [hdel]
    exact deliverLoop_isSome hidx hord _ (DeliverInv.init hinv) (by omega)
  · rw [hdel] at hres
    obtain ⟨hI, hstop⟩ := deliverLoop_inv _ (DeliverInv.init hinv) (by omega) hres
    refine ⟨hI.fromMap, hI.sorted, hI.orders, fun pre x post hout ho k hlt hk h0 => ?_, hstop⟩
    obtain ⟨hrecv, hwait⟩ := hI.before x (by rw [hout]; simp) ho k hlt hk h0
    exact ⟨hrecv, fun hm => mem_map_fst_prefix hI.sorted hout (hwait hm) hlt⟩

/-- Member 0 sends two SAFE messages, seqnos 0 and 1, member 1 an AGREED
    one at seqno 0, and both report safe seqno 0. -/
def deliverRun : List (InputMapOp Unit) :=
  [.reset 2, .insert 0 ⟨0, -1, 0, .safe⟩ (), .insert 1 ⟨0, -1, 0, .agreed⟩ (), .insert 0 ⟨1, -1, 0, .safe⟩ (),
   .setSafeSeq 0 0, .setSafeSeq 1 0]

theorem deliver_hands_up_in_key_order_run :
    runAllowed [] deliverRun = true ∧
      InputMap.init.run deliverRun = some ((InputMap.init.run deliverRun).getD InputMap.init) ∧
      ((∀ x ∈ ((InputMap.init.run deliverRun).getD InputMap.init).msgIndex.entries, x.2.msg.order.toNat ≤ 4) →
        (deliver .operational false ((InputMap.init.run deliverRun).getD InputMap.init)).isSome) ∧
      ∀ out im', deliver .operational false ((InputMap.init.run deliverRun).getD InputMap.init) = some (out, im') →
        (∀ x ∈ out, x ∈ ((InputMap.init.run deliverRun).getD InputMap.init).msgIndex.entries) ∧
        out.Pairwise (fun a b => a.1.lt b.1 = true) ∧
        (∀ x ∈ out, (x.2.msg.order = .safe → x.1.seq ≤ ((InputMap.init.run deliverRun).getD InputMap.init).safeSeq) ∧
          (x.2.msg.order = .agreed → x.1.seq ≤ ((InputMap.init.run deliverRun).getD InputMap.init).aruSeq)) ∧
        (∀ pre x post, out = pre ++ x :: post → (x.2.msg.order = .agreed ∨ x.2.msg.order = .safe) →
          ∀ k, k.lt x.1 = true → k.index < ((InputMap.init.run deliverRun).getD InputMap.init).nodeIndex.length →
            0 ≤ k.seq → k ∈ receivedRun [] deliverRun ∧
              (k ∈ ((InputMap.init.run deliverRun).getD InputMap.init).msgIndex → k ∈ pre.map (·.1))) ∧
        (∀ e, im'.begin? = some e → im'.canDeliver e.1 e.2.msg.order = some false ∧ im'.isSafe e.1 = false) :=
  ⟨by decide, rfl, deliver_hands_up_in_key_order deliverRun (by decide) rfl (Or.inl rfl)⟩

/-- There `deliver()` hands up member 0's and member 1's seqno 0 and stops
    at member 0's seqno 1, a SAFE message above `safe_seq`. -/
example : ((deliver .operational false ((InputMap.init.run deliverRun).getD InputMap.init)).map
    fun r => (r.1.map (·.1), r.2.msgIndex.keys)) = some ([⟨0, 0⟩, ⟨1, 0⟩], [⟨0, 1⟩]) := by
  decide

end Galera.Evs
