/-
  Galera.Lib.Wire
  ───────────────
  **FIELDS WRITTEN AND READ AT AN OFFSET INTO A BUFFER.**

  The `serialize (buf, buflen, offset)` and `unserialize (buf, buflen,
  offset)` style: each field is written or read at the running offset,
  after a check that it ends within the buffer, and the call returns the
  offset after it.  `Put ε` writes, `Get ε α` reads; both fail with an
  error of type `ε`.

    * `Writes p bs` — `p` puts the bytes `bs` at the offset wherever they
      fit, and fails wherever they do not; `Writes.andThen` and
      `writes_seq` compose it;
    * `Reads g a bs` — wherever the bytes `bs` stand in a buffer, `g` at
      their offset reads `a` and returns the offset after them;
      `Reads.bind` and `reads_loop` compose it;
    * `Get.bind_eq_ok`, `Get.loop_induct` — what a reader that succeeded
      read, step by step and round by round;
    * `Writes.reads` — what a writer put, a reader of the same bytes reads
      back from the same offset, and both return the same offset;
      `Writes.reads_prefix` — a reader of its first part stops short.
-/
import Mathlib
import Galera.Lib.Bytes

namespace Galera.Wire

open Galera.Bytes (overwrite overwrite_overwrite overwrite_nil length_overwrite)

variable {ε α β : Type}

/-! ## §1. Writing -/

/-- A writer: from a buffer and an offset, the buffer written and the
    offset after what was written, or an error. -/
abbrev Put (ε : Type) : Type := List UInt8 → Nat → Except ε (List UInt8 × Nat)

namespace Put

/-- `bs` copied to the offset once the check that it ends within the
    buffer passed; `short` otherwise. -/
def bytes (short : ε) (bs : List UInt8) : Put ε := fun buf off =>
  if off + bs.length ≤ buf.length then .ok (overwrite buf off bs, off + bs.length) else .error short

/-- Nothing written. -/
def skip : Put ε := fun buf off => .ok (buf, off)

/-- An assertion: nothing written when it holds, the error `e` when not. -/
def check (ok : Bool) (e : ε) : Put ε := fun buf off => if ok then .ok (buf, off) else .error e

/-- `p`, then `q` from where `p` stopped. -/
def andThen (p q : Put ε) : Put ε := fun buf off =>
  match p buf off with
  | .ok (buf', off') => q buf' off'
  | .error e => .error e

/-- The writers one after another. -/
def seq : List (Put ε) → Put ε
  | [] => skip
  | p :: ps => andThen p (seq ps)

end Put

/-- `p` writes `bs`: from an offset within the buffer, `p` puts `bs` there
    and returns the offset after it where `bs` fits, and fails where it
    does not. -/
def Writes (p : Put ε) (bs : List UInt8) : Prop :=
  ∀ buf off, off ≤ buf.length →
    (off + bs.length ≤ buf.length → p buf off = .ok (overwrite buf off bs, off + bs.length)) ∧
      (buf.length < off + bs.length → ∃ e, p buf off = .error e)

theorem writes_bytes (short : ε) (bs : List UInt8) : Writes (Put.bytes short bs) bs := by
  intro buf off _
  constructor
  · intro hfit
    exact if_pos hfit
  · intro hshort
    exact ⟨short, if_neg (Nat.not_le_of_lt hshort)⟩

theorem writes_skip : Writes (Put.skip : Put ε) [] := by
  intro buf off hoff
  constructor
  · intro _
    show Except.ok (buf, off) = _
    rw [overwrite_nil, List.length_nil, Nat.add_zero]
  · intro hshort
    exact absurd hoff (Nat.not_le_of_lt hshort)

theorem writes_check {ok : Bool} (h : ok = true) (e : ε) : Writes (Put.check ok e) [] := by
  intro buf off hoff
  constructor
  · intro _
    show (if ok = true then Except.ok (buf, off) else .error e) = _
    rw [if_pos h, overwrite_nil, List.length_nil, Nat.add_zero]
  · intro hshort
    exact absurd hoff (Nat.not_le_of_lt hshort)

/-- Writing `xs` and then `ys` writes `xs ++ ys`: where the whole fits,
    the two writes are one (`overwrite_overwrite`); where it does not,
    one of the two fails. -/
theorem Writes.andThen {p q : Put ε} {xs ys : List UInt8} (hp : Writes p xs) (hq : Writes q ys) :
    Writes (Put.andThen p q) (xs ++ ys) := by
  intro buf off hoff
  rw [List.length_append]
  constructor
  · intro hfit
    have hp' := (hp buf off hoff).1 (by omega)
    have hlen : (overwrite buf off xs).length = buf.length := length_overwrite (by omega)
    have hq' := (hq (overwrite buf off xs) (off + xs.length) (by omega)).1 (by omega)
    show (match p buf off with | .ok (buf', off') => q buf' off' | .error e => .error e) = _
    rw [hp']
    dsimp only
    rw [hq', overwrite_overwrite (by omega), Nat.add_assoc]
  · intro hshort
    show ∃ e, (match p buf off with | .ok (buf', off') => q buf' off' | .error e => .error e) = _
    by_cases hxs : off + xs.length ≤ buf.length
    · -- `xs` fits, so `ys` does not
      have hlen : (overwrite buf off xs).length = buf.length := length_overwrite hxs
      obtain ⟨e, he⟩ := (hq (overwrite buf off xs) (off + xs.length) (by omega)).2 (by omega)
      rw [(hp buf off hoff).1 hxs]
      exact ⟨e, he⟩
    · obtain ⟨e, he⟩ := (hp buf off hoff).2 (Nat.lt_of_not_le hxs)
      rw [he]
      exact ⟨e, rfl⟩

/-- Writers one after another write their bytes one after another. -/
theorem writes_seq : ∀ {ps : List (Put ε)} {bss : List (List UInt8)},
    List.Forall₂ Writes ps bss → Writes (Put.seq ps) bss.flatten
  | [], [], .nil => writes_skip
  | _ :: _, _ :: _, .cons hp hps => hp.andThen (writes_seq hps)

/-- Writers of the items of a list, one after another, write the items'
    bytes one after another. -/
theorem writes_seq_map {γ : Type} (p : γ → Put ε) (enc : γ → List UInt8) :
    ∀ l : List γ, (∀ e ∈ l, Writes (p e) (enc e)) → Writes (Put.seq (l.map p)) (l.flatMap enc)
  | [], _ => writes_skip
  | e :: l, h => by
    rw [List.flatMap_cons]
    exact (h e List.mem_cons_self).andThen (writes_seq_map p enc l fun x hx => h x (List.mem_cons_of_mem e hx))

/-- Items whose bytes have one length `k` take `k` bytes apiece. -/
theorem length_flatMap_const {γ : Type} (enc : γ → List UInt8) {k : Nat} (hk : ∀ e, (enc e).length = k) :
    ∀ l : List γ, (l.flatMap enc).length = l.length * k
  | [] => (Nat.zero_mul k).symm
  | e :: l => by
    rw [List.flatMap_cons, List.length_append, hk, length_flatMap_const enc hk l, List.length_cons, Nat.succ_mul,
      Nat.add_comm]

/-! ## §2. Reading -/

/-- A reader: from a buffer and an offset, the value read and the offset
    after it, or an error. -/
abbrev Get (ε α : Type) : Type := List UInt8 → Nat → Except ε (α × Nat)

instance : Monad (Get ε) where
  pure a := fun _ off => .ok (a, off)
  bind g f := fun buf off =>
    match g buf off with
    | .ok (a, off') => f a buf off'
    | .error e => .error e

namespace Get

@[simp] theorem pure_bind (a : α) (f : α → Get ε β) : (pure a >>= f : Get ε β) = f a := rfl

/-- The `n` bytes at the offset, once the check that they end within the
    buffer passed; `short` otherwise. -/
def bytes (short : ε) (n : Nat) : Get ε (List UInt8) := fun buf off =>
  if off + n ≤ buf.length then .ok ((buf.drop off).take n, off + n) else .error short

/-- A failed check. -/
def fail (e : ε) : Get ε α := fun _ _ => .error e

/-- `for (i = 0; i < n; ++i) acc = step (acc)`. -/
def loop (step : β → Get ε β) : Nat → β → Get ε β
  | 0, acc => pure acc
  | n + 1, acc => step acc >>= loop step n

/-- Two reads succeed only when the first does, and the second starts
    where the first stopped. -/
theorem bind_eq_ok {g : Get ε α} {f : α → Get ε β} {buf : List UInt8} {off off' : Nat} {b : β}
    (h : (g >>= f) buf off = .ok (b, off')) : ∃ a mid, g buf off = .ok (a, mid) ∧ f a buf mid = .ok (b, off') := by
  change (match g buf off with | .ok (a, mid) => f a buf mid | .error e => .error e) = _ at h
  cases hg : g buf off with
  | error e =>
    rw [hg] at h
    cases h
  | ok r =>
    rw [hg] at h
    exact ⟨r.1, r.2, rfl, h⟩

theorem map_eq_ok {g : Get ε α} {f : α → β} {buf : List UInt8} {off off' : Nat} {b : β}
    (h : (f <$> g) buf off = .ok (b, off')) : ∃ a, g buf off = .ok (a, off') ∧ b = f a := by
  obtain ⟨a, mid, hg, hf⟩ := bind_eq_ok (f := fun a => pure (f a)) h
  cases hf
  exact ⟨a, hg, rfl⟩

/-- The bytes read are as many as asked for. -/
theorem bytes_eq_ok {short : ε} {n : Nat} {buf bs : List UInt8} {off off' : Nat}
    (h : bytes short n buf off = .ok (bs, off')) : bs.length = n ∧ off' = off + n := by
  unfold bytes at h
  split at h
  · cases h
    rename_i hfit
    refine ⟨?_, rfl⟩
    rw [List.length_take, List.length_drop]
    omega
  · cases h

/-- What a loop leaves: an invariant of the rounds done, the value and the
    offset, that each round keeps, holds after all of them.  By induction
    on the rounds left. -/
theorem loop_induct (step : β → Get ε β) (buf : List UInt8) (P : Nat → β → Nat → Prop)
    (hstep : ∀ i acc off r off', P i acc off → step acc buf off = .ok (r, off') → P (i + 1) r off') :
    ∀ (n i : Nat) (acc : β) (off : Nat) (r : β) (off' : Nat), P i acc off →
      loop step n acc buf off = .ok (r, off') → P (i + n) r off'
  | 0, i, acc, off, r, off', hP, h => by
    cases h
    exact hP
  | n + 1, i, acc, off, r, off', hP, h => by
    obtain ⟨acc', mid, h1, h2⟩ := bind_eq_ok h
    have := loop_induct step buf P hstep n (i + 1) acc' mid r off' (hstep i acc off acc' mid hP h1) h2
    rwa [Nat.add_assoc, Nat.add_comm 1 n] at this

end Get

/-- `g` reads `a` from `bs`: wherever `bs` stands in a buffer, `g` at its
    offset returns `a` and the offset after `bs`. -/
def Reads (g : Get ε α) (a : α) (bs : List UInt8) : Prop :=
  ∀ pre rest : List UInt8, g (pre ++ bs ++ rest) pre.length = .ok (a, pre.length + bs.length)

theorem reads_bytes (short : ε) (bs : List UInt8) : Reads (Get.bytes short bs.length) bs bs := by
  intro pre rest
  show (if pre.length + bs.length ≤ (pre ++ bs ++ rest).length then _ else _) = _
  rw [if_pos (by simp only [List.length_append]; omega), List.append_assoc, List.drop_left, List.take_left]

theorem reads_pure (a : α) : Reads (pure a : Get ε α) a [] := by
  intro pre rest
  show Except.ok (a, pre.length) = _
  rw [List.length_nil, Nat.add_zero]

/-- Reading `xs` and then, with what was read, `ys` reads `xs ++ ys`. -/
theorem Reads.bind {g : Get ε α} {f : α → Get ε β} {a : α} {b : β} {xs ys : List UInt8}
    (hg : Reads g a xs) (hf : Reads (f a) b ys) : Reads (g >>= f) b (xs ++ ys) := by
  intro pre rest
  have hbuf : pre ++ (xs ++ ys) ++ rest = pre ++ xs ++ (ys ++ rest) := by
    simp only [List.append_assoc]
  show (match g (pre ++ (xs ++ ys) ++ rest) pre.length with
    | .ok (a, off') => f a (pre ++ (xs ++ ys) ++ rest) off' | .error e => .error e) = _
  rw [hbuf, hg pre (ys ++ rest), ← List.length_append, ← List.append_assoc]
  dsimp only
  rw [hf (pre ++ xs) rest, List.length_append, List.length_append, Nat.add_assoc]

theorem Reads.map {g : Get ε α} {a : α} {bs : List UInt8} (hg : Reads g a bs) (f : α → β) :
    Reads (f <$> g) (f a) bs := by
  have h := Reads.bind (f := fun a => pure (f a)) hg (reads_pure (f a))
  rw [List.append_nil] at h
  exact h

/-- A loop whose every round reads one item's bytes reads them all: the
    rounds are the items of `xs` in order, round `i` starting from the
    value the rounds before it left, and `ok` holds of that value and the
    item (what the round needs to succeed).  By induction on `xs`. -/
theorem reads_loop (step : β → Get ε β) (enc : α → List UInt8) (upd : β → α → β) (ok : β → α → Prop)
    (hstep : ∀ acc a, ok acc a → Reads (step acc) (upd acc a) (enc a)) :
    ∀ (xs : List α) (acc : β), (∀ i (h : i < xs.length), ok ((xs.take i).foldl upd acc) (xs.get ⟨i, h⟩)) →
      Reads (Get.loop step xs.length acc) (xs.foldl upd acc) (xs.flatMap enc)
  | [], acc, _ => reads_pure acc
  | a :: xs, acc, hok => by
    have hfirst : ok acc a := hok 0 (Nat.succ_pos _)
    have hrest : ∀ i (h : i < xs.length), ok ((xs.take i).foldl upd (upd acc a)) (xs.get ⟨i, h⟩) :=
      fun i h => hok (i + 1) (Nat.succ_lt_succ h)
    rw [List.flatMap_cons]
    exact (hstep acc a hfirst).bind (reads_loop step enc upd ok hstep xs (upd acc a) hrest)

/-! ## §3. What was written reads back -/

/-- A reader of the bytes a writer put reads them back from the offset it
    wrote at, and returns the offset the writer returned. -/
theorem Writes.reads {p : Put ε} {g : Get ε α} {a : α} {bs : List UInt8} (hp : Writes p bs) (hg : Reads g a bs)
    {buf : List UInt8} {off : Nat} (hfit : off + bs.length ≤ buf.length) :
    ∃ buf', p buf off = .ok (buf', off + bs.length) ∧ g buf' off = .ok (a, off + bs.length) := by
  refine ⟨_, (hp buf off (by omega)).1 hfit, ?_⟩
  have hpre : (buf.take off).length = off := List.length_take_of_le (by omega)
  have h := hg (buf.take off) (buf.drop (off + bs.length))
  rw [hpre] at h
  exact h

/-- A reader of the first part `xs` of what a writer put reads it from the
    offset the writer wrote at, and stops where `xs` ends, short of the
    offset the writer returned by the length of the rest `ys`. -/
theorem Writes.reads_prefix {p : Put ε} {g : Get ε α} {a : α} {xs ys : List UInt8} (hp : Writes p (xs ++ ys))
    (hg : Reads g a xs) {buf : List UInt8} {off : Nat} (hfit : off + (xs ++ ys).length ≤ buf.length) :
    ∃ buf', p buf off = .ok (buf', off + (xs ++ ys).length) ∧ g buf' off = .ok (a, off + xs.length) := by
  refine ⟨_, (hp buf off (by omega)).1 hfit, ?_⟩
  have hpre : (buf.take off).length = off := List.length_take_of_le (by omega)
  -- the rest of what was written stands after `xs`, before the rest of the buffer
  have h := hg (buf.take off) (ys ++ buf.drop (off + (xs ++ ys).length))
  rw [hpre, ← List.append_assoc, List.append_assoc (buf.take off)] at h
  exact h

end Galera.Wire
