/-
  Galera.Lib.Bytes
  ────────────────
  **INTEGERS AS BYTES, AND A BYTE STREAM SPLIT INTO PIECES.**

  A number stored in `n` bytes, least significant first (`leBytes`) or
  most significant first (`beBytes`), and read back (`ofLeBytes`,
  `ofBeBytes`): what is read back is the number modulo `256 ^ n`.

  A message gathered from a vector of buffers is a slice of their
  concatenation; the lemmas of §2 find a position of the concatenation
  in its piece.

    * `ofLeBytes_leBytes`, `ofBeBytes_beBytes` — the round trips;
    * `beBytes_succ_of_lt` — a number below `256 ^ n` stored in `n + 1`
      bytes has a zero top byte;
    * `and_mask_shiftRight` — a bit field of a word; `or_shiftLeft_eq_add`
      — fields that do not overlap, or-ed together, add up;
      `and_eq_mod_and` — a mask of low bits reads only those;
    * `drop_flatten_eq` — the concatenation from a position inside a
      piece on is the rest of that piece and the pieces after it;
    * `IsSlicing` — a list cut into non-empty slices, of which there are
      no more than it has elements;
    * `overwrite_append_replicate` — bytes written where a filled prefix
      ends, over a run of fill bytes, extend the prefix;
    * `slice_overwrite_self`, `slice_overwrite_of_le` — a field reads back
      what was written into it, and a write after it leaves it as it was;
      `overwrite_overwrite` — two writes back to back are one;
      `overwrite_zero_of_length_eq` — a write that fills the buffer is all
      of it;
    * `toSigned_ofSigned` — a signed integer stored in `w` bits and read
      back as two's complement; `signedFits_toSigned` — what is read is in
      the range of the type;
    * `strBytes_cString_append` — a NUL-free string with its terminator,
      read back up to the first NUL.
-/
import Mathlib

namespace Galera.Bytes

/-! ## §1. Fixed-width integers -/

/-- `x` in `n` bytes, least significant first. -/
def leBytes : Nat → Nat → List UInt8
  | 0, _ => []
  | n + 1, x => UInt8.ofNat (x % 256) :: leBytes n (x / 256)

/-- The number that bytes store, least significant first. -/
def ofLeBytes : List UInt8 → Nat
  | [] => 0
  | b :: bs => b.toNat + 256 * ofLeBytes bs

/-- `x` in `n` bytes, most significant first. -/
def beBytes (n x : Nat) : List UInt8 := (leBytes n x).reverse

/-- The number that bytes store, most significant first. -/
def ofBeBytes (bs : List UInt8) : Nat := ofLeBytes bs.reverse

@[simp] theorem length_leBytes (n x : Nat) : (leBytes n x).length = n := by
  induction n generalizing x with
  | zero => rfl
  | succ n ih => simp [leBytes, ih]

@[simp] theorem length_beBytes (n x : Nat) : (beBytes n x).length = n := by
  simp [beBytes]

theorem ofLeBytes_leBytes (n x : Nat) : ofLeBytes (leBytes n x) = x % 256 ^ n := by
  induction n generalizing x with
  | zero => simp [leBytes, ofLeBytes, Nat.mod_one]
  | succ n ih =>
    -- the low byte, then the rest of the number in `n` bytes
    have hlow : (UInt8.ofNat (x % 256)).toNat = x % 256 := by simp
    have hsplit : x % 256 ^ (n + 1) = x % 256 + 256 * (x / 256 % 256 ^ n) := by
      rw [Nat.pow_succ', Nat.mod_mul]
    simp only [leBytes, ofLeBytes, ih, hlow, hsplit]

theorem ofLeBytes_leBytes_of_lt {n x : Nat} (h : x < 256 ^ n) : ofLeBytes (leBytes n x) = x := by
  rw [ofLeBytes_leBytes, Nat.mod_eq_of_lt h]

theorem ofBeBytes_beBytes (n x : Nat) : ofBeBytes (beBytes n x) = x % 256 ^ n := by
  simp [ofBeBytes, beBytes, ofLeBytes_leBytes]

theorem ofLeBytes_append (xs ys : List UInt8) :
    ofLeBytes (xs ++ ys) = ofLeBytes xs + 256 ^ xs.length * ofLeBytes ys := by
  induction xs with
  | nil => simp [ofLeBytes]
  | cons b bs ih =>
    simp only [List.cons_append, ofLeBytes, ih, List.length_cons, Nat.pow_succ']
    rw [Nat.mul_add, Nat.mul_assoc]
    omega

theorem ofLeBytes_lt (bs : List UInt8) : ofLeBytes bs < 256 ^ bs.length := by
  induction bs with
  | nil => simp [ofLeBytes]
  | cons b bs ih =>
    have hb := b.toNat_lt
    simp only [ofLeBytes, List.length_cons, Nat.pow_succ']
    omega

/-- Leading zero bytes of a big-endian number are no value. -/
theorem ofBeBytes_cons_zero (bs : List UInt8) : ofBeBytes (0 :: bs) = ofBeBytes bs := by
  simp [ofBeBytes, ofLeBytes_append, ofLeBytes]

/-- Storing in `n + 1` bytes is storing the top byte and then the rest. -/
theorem leBytes_succ_eq_append (n x : Nat) :
    leBytes (n + 1) x = leBytes n x ++ [UInt8.ofNat (x / 256 ^ n % 256)] := by
  induction n generalizing x with
  | zero => simp [leBytes]
  | succ n ih =>
    rw [leBytes, ih (x / 256), leBytes, Nat.div_div_eq_div_mul, ← Nat.pow_succ']
    rfl

/-- A number below `256 ^ n` stored in `n + 1` bytes has a zero top byte. -/
theorem beBytes_succ_of_lt {n x : Nat} (h : x < 256 ^ n) :
    beBytes (n + 1) x = 0 :: beBytes n x := by
  rw [beBytes, leBytes_succ_eq_append, Nat.div_eq_of_lt h]
  simp [beBytes]

/-- The `w`-bit field at bit `k` of a word, masked and shifted down. -/
theorem and_mask_shiftRight (h k w : Nat) : (h &&& ((2 ^ w - 1) <<< k)) >>> k = h / 2 ^ k % 2 ^ w := by
  apply Nat.eq_of_testBit_eq
  intro i
  simp [Nat.testBit_shiftRight, Nat.testBit_and, Nat.testBit_shiftLeft, Nat.testBit_two_pow_sub_one,
    Nat.testBit_mod_two_pow, Nat.testBit_div_two_pow, Nat.add_comm, Bool.and_comm]

/-- A field below bit `i` and one shifted to bit `i` do not overlap: the
    word they make is their sum. -/
theorem or_shiftLeft_eq_add {a i : Nat} (ha : a < 2 ^ i) (b : Nat) : a ||| b <<< i = a + 2 ^ i * b := by
  rw [Nat.shiftLeft_eq, Nat.mul_comm, Nat.or_comm, ← Nat.two_pow_add_eq_or_of_lt ha, Nat.add_comm]

/-- A mask below bit `i` sees only the low `i` bits of a word. -/
theorem and_eq_mod_and {x m i : Nat} (hm : m < 2 ^ i) : x &&& m = x % 2 ^ i &&& m :=
  calc x &&& m = x &&& (m &&& 2 ^ i - 1) := by rw [Nat.and_two_pow_sub_one_eq_mod, Nat.mod_eq_of_lt hm]
    _ = x % 2 ^ i &&& m := by rw [Nat.and_comm m, ← Nat.and_assoc, Nat.and_two_pow_sub_one_eq_mod]

/-! ## §2. A stream split into pieces -/

section Pieces

variable {α : Type*}

/-- The concatenation from a position inside piece `i` on: the rest of
    that piece, then the pieces after it. -/
theorem drop_flatten_eq (L : List (List α)) {i j : Nat} (piece : List α)
    (hi : L[i]? = some piece) (hj : j ≤ piece.length) :
    L.flatten.drop ((L.take i).flatten.length + j) = piece.drop j ++ (L.drop (i + 1)).flatten := by
  induction L generalizing i with
  | nil => simp at hi
  | cons l L ih =>
    cases i with
    | zero =>
      simp only [List.getElem?_cons_zero, Option.some.injEq] at hi
      subst hi
      simp [List.drop_append_of_le_length hj]
    | succ i =>
      simp only [List.getElem?_cons_succ] at hi
      simp only [List.flatten_cons, List.take_succ_cons, List.length_append, List.drop_succ_cons]
      rw [Nat.add_assoc, ← List.drop_drop, List.drop_left, ih hi]

/-- The pieces before `i` and piece `i` end where the pieces before
    `i + 1` do. -/
theorem length_flatten_take_succ (L : List (List α)) {i : Nat} (piece : List α)
    (hi : L[i]? = some piece) :
    (L.take (i + 1)).flatten.length = (L.take i).flatten.length + piece.length := by
  rw [List.take_add_one, hi]
  simp

/-- Past the pieces before `i + 1` there is more of the concatenation
    only if there is a piece `i + 1`. -/
theorem lt_length_of_length_flatten_take_lt (L : List (List α)) {i : Nat}
    (h : (L.take (i + 1)).flatten.length < L.flatten.length) : i + 1 < L.length := by
  by_contra hle
  rw [List.take_of_length_le (by omega)] at h
  exact Nat.lt_irrefl _ h

/-- `cs` cuts `xs` into non-empty slices. -/
def IsSlicing (xs : List α) (cs : List (List α)) : Prop :=
  cs.flatten = xs ∧ ∀ c ∈ cs, c ≠ []

theorem IsSlicing.cons {xs c : List α} {cs : List (List α)} (h : IsSlicing xs cs) (hc : c ≠ []) :
    IsSlicing (c ++ xs) (c :: cs) :=
  ⟨by simp [h.1], by simpa [hc] using h.2⟩

theorem isSlicing_singleton {c : List α} (hc : c ≠ []) : IsSlicing c [c] :=
  ⟨by simp, by simpa using hc⟩

/-- Every slice holds an element, so there are no more slices than elements. -/
theorem IsSlicing.length_le {xs : List α} {cs : List (List α)} (h : IsSlicing xs cs) :
    cs.length ≤ xs.length := by
  obtain ⟨rfl, hne⟩ := h
  induction cs with
  | nil => simp
  | cons c cs ih =>
    have hc : c.length ≠ 0 := by simpa using hne c (by simp)
    have := ih (fun x hx => hne x (List.mem_cons_of_mem _ hx))
    simp only [List.flatten_cons, List.length_append, List.length_cons]
    omega

theorem IsSlicing.ne_nil {xs : List α} {cs : List (List α)} (h : IsSlicing xs cs)
    (hxs : xs ≠ []) : cs ≠ [] := by
  rintro rfl
  exact hxs h.1.symm

end Pieces

/-! ## §3. Writing into a buffer -/

section Overwrite

variable {α : Type*}

/-- `memcpy(buf + i, bs, bs.size())` on a buffer: the bytes from `i` on
    are replaced. -/
def overwrite (buf : List α) (i : Nat) (bs : List α) : List α :=
  buf.take i ++ bs ++ buf.drop (i + bs.length)

/-- A write at the end of the filled prefix `pre`, over a run of `m` fill
    bytes: the prefix grows by the bytes written, the run shrinks. -/
theorem overwrite_append_replicate (pre E bs : List α) (a : α) {i m : Nat} (hi : pre.length = i)
    (h : bs.length ≤ m) :
    overwrite (pre ++ (List.replicate m a ++ E)) i bs =
      (pre ++ bs) ++ (List.replicate (m - bs.length) a ++ E) := by
  subst hi
  have hrun : (List.replicate m a ++ E).drop bs.length = List.replicate (m - bs.length) a ++ E := by
    rw [List.drop_append_of_le_length (by simpa using h), List.drop_replicate]
  rw [overwrite, List.take_left, List.drop_append, List.drop_eq_nil_of_le (by omega), List.nil_append,
    Nat.add_sub_cancel_left, hrun, List.append_assoc]

/-- Fill bytes written inside a run of fill bytes change nothing. -/
theorem overwrite_replicate_self (pre E : List α) (a : α) {i j m k : Nat} (hi : pre.length + j = i)
    (h : j + k ≤ m) :
    overwrite (pre ++ (List.replicate m a ++ E)) i (List.replicate k a) = pre ++ (List.replicate m a ++ E) := by
  subst hi
  have hrun : List.replicate m a = List.replicate j a ++ (List.replicate k a ++ List.replicate (m - j - k) a) := by
    rw [← List.replicate_add, ← List.replicate_add]
    congr 1
    omega
  have hsplit : pre ++ (List.replicate m a ++ E) =
      (pre ++ List.replicate j a) ++ (List.replicate k a ++ (List.replicate (m - j - k) a ++ E)) := by
    rw [hrun]
    simp only [List.append_assoc]
  have hlen : pre.length + j = (pre ++ List.replicate j a).length := by simp
  have hdrop : ((pre ++ List.replicate j a) ++ (List.replicate k a ++ (List.replicate (m - j - k) a ++ E))).drop
      ((pre ++ List.replicate j a).length + (List.replicate k a).length) =
        List.replicate (m - j - k) a ++ E := by
    rw [← List.append_assoc, List.drop_left' (by simp only [List.length_append])]
  rw [hsplit, hlen, overwrite, List.take_left, hdrop]
  simp only [List.append_assoc]

/-- A run of fill bytes splits where a prefix of `j` of them ends. -/
theorem replicate_append_split (pre E : List α) (a : α) {j m : Nat} (h : j ≤ m) :
    pre ++ (List.replicate m a ++ E) = (pre ++ List.replicate j a) ++ (List.replicate (m - j) a ++ E) := by
  rw [List.append_assoc, ← List.append_assoc (List.replicate j a), ← List.replicate_add,
    Nat.add_sub_cancel' h]

/-- The `n` bytes at offset `i`: a field of a buffer. -/
def slice (buf : List α) (i n : Nat) : List α := (buf.drop i).take n

theorem length_overwrite {buf bs : List α} {i : Nat} (h : i + bs.length ≤ buf.length) :
    (overwrite buf i bs).length = buf.length := by
  simp only [overwrite, List.length_append, List.length_take, List.length_drop]
  omega

theorem slice_overwrite_self {buf bs : List α} {i : Nat} (h : i + bs.length ≤ buf.length) :
    slice (overwrite buf i bs) i bs.length = bs := by
  have hi : (buf.take i).length = i := List.length_take_of_le (by omega)
  rw [slice, overwrite, List.append_assoc, List.drop_left' hi, List.take_left]

/-- A write after a field leaves it as it was. -/
theorem slice_overwrite_of_le {buf bs : List α} {i j n : Nat} (h : j + n ≤ i)
    (hb : i + bs.length ≤ buf.length) :
    slice (overwrite buf i bs) j n = slice buf j n := by
  have hi : (buf.take i).length = i := List.length_take_of_le (by omega)
  rw [slice, slice, overwrite, List.append_assoc, List.drop_append_of_le_length (by omega),
    List.take_append_of_le_length (by simp; omega), List.drop_take, List.take_take,
    Nat.min_eq_left (by omega)]

/-- A write at `i` leaves the bytes before it and ends with the bytes
    written. -/
theorem take_overwrite {buf : List α} (bs : List α) {i : Nat} (h : i ≤ buf.length) :
    (overwrite buf i bs).take (i + bs.length) = buf.take i ++ bs := by
  have hi : (buf.take i ++ bs).length = i + bs.length := by simp; omega
  rw [overwrite, List.take_left' hi]

/-- Two writes back to back are one write of both. -/
theorem overwrite_overwrite {buf xs ys : List α} {i : Nat} (h : i + xs.length + ys.length ≤ buf.length) :
    overwrite (overwrite buf i xs) (i + xs.length) ys = overwrite buf i (xs ++ ys) := by
  have hi : (buf.take i ++ xs).length = i + xs.length := by simp; omega
  rw [overwrite, overwrite, overwrite, List.take_left' hi, List.drop_append,
    List.drop_eq_nil_of_le (by rw [hi]; omega), List.nil_append, hi, List.drop_drop, List.length_append,
    show i + xs.length + (i + xs.length + ys.length - (i + xs.length)) = i + (xs.length + ys.length) by omega,
    List.append_assoc, List.append_assoc, List.append_assoc, List.append_assoc]

/-- A write that fills the whole buffer leaves only what was written. -/
theorem overwrite_zero_of_length_eq {buf bs : List α} (h : buf.length = bs.length) : overwrite buf 0 bs = bs := by
  rw [overwrite, List.take_zero, List.nil_append, Nat.zero_add, List.drop_eq_nil_of_le (Nat.le_of_eq h),
    List.append_nil]

/-- Writing nothing changes nothing. -/
theorem overwrite_nil (buf : List α) (i : Nat) : overwrite buf i [] = buf := by
  rw [overwrite, List.append_nil, List.length_nil, Nat.add_zero, List.take_append_drop]

/-- A field inside a prefix reads the same in the prefix. -/
theorem slice_take_of_le {buf : List α} {i n m : Nat} (h : i + n ≤ m) :
    slice (buf.take m) i n = slice buf i n := by
  rw [slice, slice, List.drop_take, List.take_take, Nat.min_eq_left (by omega)]

/-- A field inside the first part of a buffer reads the same in that part. -/
theorem slice_append_of_le {xs ys : List α} {i n : Nat} (h : i + n ≤ xs.length) :
    slice (xs ++ ys) i n = slice xs i n := by
  rw [slice, slice, List.drop_append_of_le_length (by omega),
    List.take_append_of_le_length (by simp; omega)]

end Overwrite

/-! ## §4. Signed integers and C strings -/

/-- The `w`-bit two's complement pattern of `x`: what a cast to a
    `w`-bit integer type stores. -/
def ofSigned (w : Nat) (x : Int) : Nat := (x % (2 ^ w : Nat)).toNat

/-- A `w`-bit pattern read as a signed integer. -/
def toSigned (w n : Nat) : Int := if n < 2 ^ (w - 1) then n else (n : Int) - (2 ^ w : Nat)

theorem ofSigned_lt (w : Nat) (x : Int) : ofSigned w x < 2 ^ w := by
  have hpos : (0 : Int) < (2 ^ w : Nat) := by exact_mod_cast Nat.two_pow_pos w
  have h1 := Int.emod_nonneg x (Int.ne_of_gt hpos)
  have h2 := Int.emod_lt_of_pos x hpos
  unfold ofSigned
  omega

/-- A value in the range of the unsigned type is stored as itself. -/
theorem ofSigned_of_nonneg {w : Nat} {x : Int} (h0 : 0 ≤ x) (h : x < (2 ^ w : Nat)) : (ofSigned w x : Int) = x := by
  unfold ofSigned
  rw [Int.emod_eq_of_lt h0 h, Int.toNat_of_nonneg h0]

/-- `x` is in the range of a `w`-bit signed type. -/
def SignedFits (w : Nat) (x : Int) : Prop := -((2 ^ (w - 1) : Nat) : Int) ≤ x ∧ x < ((2 ^ (w - 1) : Nat) : Int)

instance (w : Nat) (x : Int) : Decidable (SignedFits w x) := inferInstanceAs (Decidable (_ ∧ _))

/-- A value in the range of a signed type survives the store. -/
theorem toSigned_ofSigned {w : Nat} {x : Int} (hw : 0 < w) (h : SignedFits w x) : toSigned w (ofSigned w x) = x := by
  obtain ⟨k, rfl⟩ : ∃ k, w = k + 1 := ⟨w - 1, by omega⟩
  obtain ⟨hlo, hhi⟩ := h
  have hh := Nat.two_pow_pos k
  unfold toSigned ofSigned
  rw [Nat.add_sub_cancel] at hlo hhi ⊢
  rw [Nat.pow_succ]
  generalize 2 ^ k = H at *
  by_cases hx : 0 ≤ x
  · rw [Int.emod_eq_of_lt hx (by omega)]
    omega
  · -- a negative value is stored as itself plus `2 ^ (k + 1)`
    have hneg : x % ((H * 2 : Nat) : Int) = x + ((H * 2 : Nat) : Int) := by
      rw [← Int.add_mul_emod_self_left x _ 1, Int.mul_one, Int.emod_eq_of_lt (by omega) (by omega)]
    rw [hneg]
    omega

/-- Whatever `w`-bit pattern is read, the signed integer it gives is in
    the range of the type. -/
theorem signedFits_toSigned {w n : Nat} (hw : 0 < w) (hn : n < 2 ^ w) : SignedFits w (toSigned w n) := by
  obtain ⟨k, rfl⟩ : ∃ k, w = k + 1 := ⟨w - 1, by omega⟩
  unfold SignedFits toSigned
  rw [Nat.add_sub_cancel]
  rw [Nat.pow_succ] at hn ⊢
  generalize 2 ^ k = H at *
  split <;> omega

/-- A C string: its bytes and the terminating NUL. -/
def cString (s : List UInt8) : List UInt8 := s ++ [0]

/-- The string `strlen` and `strcpy` see at the start of a buffer: the
    bytes before the first NUL. -/
def strBytes (buf : List UInt8) : List UInt8 := buf.takeWhile (· ≠ 0)

@[simp] theorem length_cString (s : List UInt8) : (cString s).length = s.length + 1 := by
  simp [cString]

theorem strBytes_eq_self {s : List UInt8} (h : 0 ∉ s) : strBytes s = s := by
  unfold strBytes
  conv_lhs => rw [← List.append_nil s]
  rw [List.takeWhile_append_of_pos (fun a ha => by simpa using ne_of_mem_of_not_mem ha h)]
  simp

theorem strBytes_cString_append {s : List UInt8} (h : 0 ∉ s) (rest : List UInt8) :
    strBytes (cString s ++ rest) = s := by
  unfold strBytes cString
  rw [List.append_assoc, List.takeWhile_append_of_pos (fun a ha => by simpa using ne_of_mem_of_not_mem ha h)]
  simp

end Galera.Bytes
