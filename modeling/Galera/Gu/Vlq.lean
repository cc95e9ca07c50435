/-
  Galera.Gu.Vlq
  ─────────────
  **UNSIGNED LEB128 (`gu_vlq.hpp`, `gu_vlq.cpp`).**

  `uleb128_encode` writes seven bits of the value a byte, least
  significant first, with the high bit set on every byte but the last;
  `uleb128_size` counts those bytes.  `uleb128_decode` reads them back
  into an integer of `bits` bits, and with `GU_VLQ_CHECKS` it throws when
  the input ends before the last byte, or when a byte carries bits the
  integer has no room for.  The loops run on fuel: ten bytes, enough for
  a 64-bit value.

    * `length_uleb128Encode` — `uleb128_size` is the length of the
      encoding;
    * `uleb128Decode_encode` — a value that fits `bits` bits decodes
      from its encoding, at any offset and with any bytes after it, and
      the offset moves past the encoding;
    * `uleb128Decode_eq` — from any bytes, for a width that is no
      multiple of seven, decoding returns the number `ulebNumber` finds
      at the offset exactly when it fits the width and its last byte
      starts below it, and throws otherwise: the mask on the last
      permissible byte also refuses a byte that goes on;
    * `uleb128_codec` — both, for the widths of the unsigned types, with
      what is returned lying within the buffer and not depending on the
      bytes after it.
-/
import Mathlib

namespace Galera.Gu

/-! ## §1. Encoding -/

/-- The loop of `uleb128_size`: one more byte while `value` has bits
    left. -/
def uleb128SizeLoop : Nat → Nat → Nat → Nat
  | 0, _, i => i
  | n + 1, value, i => if value = 0 then i else uleb128SizeLoop n (value >>> 7) (i + 1)

/-- `uleb128_size(value)`. -/
def uleb128Size (value : Nat) : Nat := uleb128SizeLoop 9 (value >>> 7) 1

/-- The bytes `uleb128_encode` writes from `value` on. -/
def uleb128EncodeLoop : Nat → Nat → List UInt8
  | 0, value => [UInt8.ofNat (value &&& 0x7f)]
  | n + 1, value =>
    if value >>> 7 = 0 then [UInt8.ofNat (value &&& 0x7f)]
    else UInt8.ofNat ((value &&& 0x7f) ||| 0x80) :: uleb128EncodeLoop n (value >>> 7)

/-- `uleb128_encode(value, buf, buflen, offset)`: the bytes written. -/
def uleb128Encode (value : Nat) : List UInt8 := uleb128EncodeLoop 9 value

/-! ## §2. Decoding -/

/-- The loop of `uleb128_decode` at the byte `offset`, whose payload is
    in `value` already: on while its high bit is set.  `none` where the
    source throws. -/
def uleb128DecodeLoop (buf : List UInt8) (bits : Nat) : Nat → Nat → Nat → Nat → Option (Nat × Nat)
  | 0, _, _, _ => none
  | n + 1, offset, shift, value =>
    if (buf.getD offset 0).toNat &&& 0x80 = 0 then some (value, offset + 1)
    else
      let offset := offset + 1
      let shift := shift + 7
      -- `ssize_t left_bits`: a negative count reaches the checks as a
      -- huge `size_t` and passes
      let leftBits : Int := (bits : Int) - shift
      if buf.length ≤ offset then none
      else if 0 ≤ leftBits ∧ leftBits < 7 ∧
          (buf.getD offset 0).toNat &&& (256 - 2 ^ leftBits.toNat) ≠ 0 then none
      else uleb128DecodeLoop buf bits n offset shift
        ((value ||| ((buf.getD offset 0).toNat &&& 0x7f) <<< shift) % 2 ^ bits)

/-- `uleb128_decode(buf, buflen, offset, value)` into a `bits`-bit
    integer: the value and the offset after it. -/
def uleb128Decode (buf : List UInt8) (bits offset : Nat) : Option (Nat × Nat) :=
  if buf.length ≤ offset then none
  else uleb128DecodeLoop buf bits 10 offset 0 ((buf.getD offset 0).toNat &&& 0x7f)

/-! ## §3. Bytes and bits -/

theorem and_0x7f (x : Nat) : x &&& 0x7f = x % 128 :=
  Nat.and_two_pow_sub_one_eq_mod x 7

set_option maxRecDepth 2000 in
/-- The high bit of a byte. -/
theorem and_0x80 {x : Nat} (hx : x < 256) : x &&& 0x80 = x / 128 * 128 := by
  have key := (by decide : ∀ i : Fin 256, i.val &&& 128 = i.val / 128 * 128)
  exact key ⟨x, hx⟩

/-- A byte below `2 ^ a` has no bit of the mask `~((1 << a) - 1)`. -/
theorem and_mask_eq_zero {a x : Nat} (ha : a < 7) (hx : x < 2 ^ a) : x &&& (256 - 2 ^ a) = 0 := by
  have key := (by decide : ∀ a : Fin 7, ∀ x : Fin 128, x.val < 2 ^ a.val → x.val &&& (256 - 2 ^ a.val) = 0)
  have h128 : x < 128 :=
    Nat.lt_of_lt_of_le hx (show 2 ^ a ≤ 2 ^ 7 from Nat.pow_le_pow_right (by decide) (by omega))
  exact key ⟨a, ha⟩ ⟨x, h128⟩ hx

theorem toNat_cont_byte (value : Nat) :
    (UInt8.ofNat ((value &&& 0x7f) ||| 0x80)).toNat = value % 128 + 128 := by
  have hor : value % 128 ||| 0x80 = value % 128 + 128 := by
    -- the low seven bits and the eighth are disjoint
    have h := Nat.two_pow_add_eq_or_of_lt (a := 1) (Nat.mod_lt value (show 0 < 2 ^ 7 by decide))
    rw [show (2 : Nat) ^ 7 = 128 from rfl, Nat.mul_one] at h
    rw [Nat.or_comm, ← h, Nat.add_comm]
  rw [and_0x7f, hor, UInt8.toNat_ofNat']
  omega

/-- One step of the encoder, on numbers. -/
theorem uleb128EncodeLoop_succ (n value : Nat) :
    uleb128EncodeLoop (n + 1) value =
      if value / 128 = 0 then [UInt8.ofNat (value % 128)]
      else UInt8.ofNat (value % 128 + 128) :: uleb128EncodeLoop n (value / 128) := by
  have hshr : value >>> 7 = value / 128 := Nat.shiftRight_eq_div_pow value 7
  have hlast : UInt8.ofNat (value &&& 0x7f) = UInt8.ofNat (value % 128) := by
    rw [and_0x7f]
  have hcont : UInt8.ofNat ((value &&& 0x7f) ||| 0x80) = UInt8.ofNat (value % 128 + 128) :=
    UInt8.toNat_inj.mp (by rw [toNat_cont_byte, UInt8.toNat_ofNat']; omega)
  rw [uleb128EncodeLoop, hshr, hlast, hcont]

theorem uleb128EncodeLoop_zero (value : Nat) :
    uleb128EncodeLoop 0 value = [UInt8.ofNat (value % 128)] := by
  rw [uleb128EncodeLoop, and_0x7f]

/-! ## §4. Size -/

theorem uleb128SizeLoop_succ_acc : ∀ (n value i : Nat),
    uleb128SizeLoop n value (i + 1) = uleb128SizeLoop n value i + 1
  | 0, _, _ => rfl
  | n + 1, value, i => by
    unfold uleb128SizeLoop
    split
    · rfl
    · exact uleb128SizeLoop_succ_acc n _ (i + 1)

/-- The encoder writes as many bytes as the size loop counts. -/
theorem length_uleb128EncodeLoop : ∀ (n value : Nat),
    (uleb128EncodeLoop n value).length = uleb128SizeLoop n (value / 128) 1
  | 0, value => by rw [uleb128EncodeLoop_zero]; rfl
  | n + 1, value => by
    rw [uleb128EncodeLoop_succ]
    unfold uleb128SizeLoop
    split
    · rfl
    · rw [List.length_cons, length_uleb128EncodeLoop n, Nat.shiftRight_eq_div_pow,
        uleb128SizeLoop_succ_acc n (value / 128 / 2 ^ 7) 1]

theorem length_uleb128Encode (value : Nat) : (uleb128Encode value).length = uleb128Size value := by
  rw [uleb128Encode, length_uleb128EncodeLoop, uleb128Size, Nat.shiftRight_eq_div_pow]

theorem le_uleb128SizeLoop : ∀ (n value i : Nat), i ≤ uleb128SizeLoop n value i
  | 0, _, _ => Nat.le_refl _
  | n + 1, value, i => by
    unfold uleb128SizeLoop
    split
    · exact Nat.le_refl _
    · exact Nat.le_trans (Nat.le_succ i) (le_uleb128SizeLoop n _ (i + 1))

/-- A larger value takes no fewer bytes. -/
theorem uleb128SizeLoop_mono : ∀ (n : Nat) {a b : Nat} (i : Nat), a ≤ b →
    uleb128SizeLoop n a i ≤ uleb128SizeLoop n b i
  | 0, _, _, _, _ => Nat.le_refl _
  | n + 1, a, b, i, hab => by
    unfold uleb128SizeLoop
    by_cases ha : a = 0
    · rw [if_pos ha]
      split
      · exact Nat.le_refl _
      · exact Nat.le_trans (Nat.le_succ i) (le_uleb128SizeLoop n _ (i + 1))
    · have hb : b ≠ 0 := by omega
      rw [if_neg ha, if_neg hb, Nat.shiftRight_eq_div_pow, Nat.shiftRight_eq_div_pow]
      exact uleb128SizeLoop_mono n (i + 1) (Nat.div_le_div_right hab)

/-- A value below `2 ^ (7 * k)` takes `k` more bytes at most. -/
theorem uleb128SizeLoop_le_of_lt : ∀ (n : Nat) {value k : Nat} (i : Nat), value < 2 ^ (7 * k) →
    uleb128SizeLoop n value i ≤ i + k
  | 0, _, _, _, _ => Nat.le_add_right _ _
  | n + 1, value, k, i, hv => by
    unfold uleb128SizeLoop
    split
    · exact Nat.le_add_right _ _
    · cases k with
      | zero => simp_all
      | succ k =>
        have hdiv : value >>> 7 < 2 ^ (7 * k) := by
          rw [Nat.shiftRight_eq_div_pow, Nat.div_lt_iff_lt_mul (Nat.two_pow_pos 7), ← Nat.pow_add]
          exact hv
        have := uleb128SizeLoop_le_of_lt n (i + 1) hdiv
        omega

/-- Within the fuel, a value that takes `k` more bytes at most is below
    `2 ^ (7 * k)`. -/
theorem lt_of_uleb128SizeLoop_le : ∀ (n : Nat) {value k : Nat} (i : Nat), k < n →
    uleb128SizeLoop n value i ≤ i + k → value < 2 ^ (7 * k)
  | 0, _, _, _, hk, _ => absurd hk (Nat.not_lt_zero _)
  | n + 1, value, k, i, hk, hle => by
    unfold uleb128SizeLoop at hle
    split at hle
    · subst_vars
      exact Nat.two_pow_pos _
    · cases k with
      | zero => have := le_uleb128SizeLoop n (value >>> 7) (i + 1); omega
      | succ k =>
        have hrest := lt_of_uleb128SizeLoop_le n (i + 1) (by omega) (by omega : uleb128SizeLoop n (value >>> 7) (i + 1) ≤ (i + 1) + k)
        rw [Nat.shiftRight_eq_div_pow, Nat.div_lt_iff_lt_mul (Nat.two_pow_pos 7), ← Nat.pow_add] at hrest
        exact hrest

theorem one_le_uleb128Size (value : Nat) : 1 ≤ uleb128Size value :=
  le_uleb128SizeLoop 9 _ 1

theorem uleb128Size_mono {a b : Nat} (h : a ≤ b) : uleb128Size a ≤ uleb128Size b := by
  unfold uleb128Size
  rw [Nat.shiftRight_eq_div_pow, Nat.shiftRight_eq_div_pow]
  exact uleb128SizeLoop_mono 9 1 (Nat.div_le_div_right h)

/-- A value below `2 ^ (7 * k)`, `k ≥ 1`, takes `k` bytes at most. -/
theorem uleb128Size_le_of_lt {value k : Nat} (hk : 1 ≤ k) (h : value < 2 ^ (7 * k)) :
    uleb128Size value ≤ k := by
  have hdiv : value >>> 7 < 2 ^ (7 * (k - 1)) := by
    rw [Nat.shiftRight_eq_div_pow, Nat.div_lt_iff_lt_mul (Nat.two_pow_pos 7), ← Nat.pow_add,
      show 7 * (k - 1) + 7 = 7 * k by omega]
    exact h
  have := uleb128SizeLoop_le_of_lt 9 1 hdiv
  unfold uleb128Size
  omega

/-- A value that takes `k ≤ 9` bytes at most is below `2 ^ (7 * k)`. -/
theorem lt_of_uleb128Size_le {value k : Nat} (hk : k ≤ 9) (h : uleb128Size value ≤ k) :
    value < 2 ^ (7 * k) := by
  have h1 := one_le_uleb128Size value
  have hrest := @lt_of_uleb128SizeLoop_le 9 (value >>> 7) (k - 1) 1 (by omega)
    (by unfold uleb128Size at h; omega)
  rw [Nat.shiftRight_eq_div_pow, Nat.div_lt_iff_lt_mul (Nat.two_pow_pos 7), ← Nat.pow_add,
    show 7 * (k - 1) + 7 = 7 * k by omega] at hrest
  exact hrest

/-! ## §5. Decoding the encoding -/

/-- Every encoding starts with a byte that carries the low seven bits. -/
theorem uleb128EncodeLoop_eq_cons (n value : Nat) :
    ∃ b rest, uleb128EncodeLoop n value = b :: rest ∧ b.toNat % 128 = value % 128 := by
  cases n with
  | zero => exact ⟨_, _, uleb128EncodeLoop_zero value, by rw [UInt8.toNat_ofNat']; omega⟩
  | succ n =>
    rw [uleb128EncodeLoop_succ]
    split
    · exact ⟨_, _, rfl, by rw [UInt8.toNat_ofNat']; omega⟩
    · exact ⟨_, _, rfl, by rw [UInt8.toNat_ofNat']; omega⟩

/-- A value below `128` is one byte. -/
theorem uleb128EncodeLoop_of_lt {value : Nat} (h : value < 128) :
    ∀ n, uleb128EncodeLoop n value = [UInt8.ofNat value]
  | 0 => by rw [uleb128EncodeLoop_zero, Nat.mod_eq_of_lt h]
  | n + 1 => by
    have hdiv : value / 128 = 0 := Nat.div_eq_of_lt h
    rw [uleb128EncodeLoop_succ, if_pos hdiv, Nat.mod_eq_of_lt h]

theorem getD_of_drop_eq_cons {buf rest : List UInt8} {off : Nat} {b : UInt8}
    (h : buf.drop off = b :: rest) : buf.getD off 0 = b := by
  have := congrArg List.head? h
  rw [List.head?_drop] at this
  rw [List.getD_eq_getElem?_getD, this]
  rfl

theorem drop_succ_of_drop_eq_cons {buf rest : List UInt8} {off : Nat} {b : UInt8}
    (h : buf.drop off = b :: rest) : buf.drop (off + 1) = rest := by
  rw [← List.drop_drop, h, List.drop_one, List.tail_cons]

theorem lt_length_of_drop_eq_cons {buf rest : List UInt8} {off : Nat} {b : UInt8}
    (h : buf.drop off = b :: rest) : off < buf.length := by
  have := congrArg List.length h
  rw [List.length_drop, List.length_cons] at this
  omega

/-- The accumulator after one more byte: the next seven bits go in above
    the ones read. -/
theorem mod_or_shiftLeft (V s : Nat) :
    V % 2 ^ s ||| (V / 2 ^ s % 128) <<< s = V % 2 ^ (s + 7) := by
  have hlt : V % 2 ^ s < 2 ^ s := Nat.mod_lt _ (Nat.two_pow_pos s)
  have h7 : (2 : Nat) ^ 7 = 128 := rfl
  rw [Nat.shiftLeft_eq, Nat.or_comm, Nat.mul_comm, ← Nat.two_pow_add_eq_or_of_lt hlt,
    Nat.pow_add, Nat.mod_mul, h7]
  omega

section decode

variable {buf : List UInt8} {bits V : Nat}

/-- The last byte of an encoding: below `128`, so the loop stops. -/
theorem uleb128DecodeLoop_last {n off s : Nat} (post : List UInt8) (hw : V / 2 ^ s < 128)
    (hdrop : buf.drop off = UInt8.ofNat (V / 2 ^ s) :: post) :
    uleb128DecodeLoop buf bits (n + 1) off s (V % 2 ^ (s + 7)) = some (V, off + 1) := by
  have hb := getD_of_drop_eq_cons hdrop
  have hV7 : V % 2 ^ (s + 7) = V := by
    apply Nat.mod_eq_of_lt
    rw [Nat.pow_add, Nat.mul_comm]
    exact (Nat.div_lt_iff_lt_mul (Nat.two_pow_pos s)).mp hw
  have hhigh : (buf.getD off 0).toNat &&& 0x80 = 0 := by
    rw [hb, and_0x80 (UInt8.toNat_lt _), UInt8.toNat_ofNat', Nat.mod_eq_of_lt (by omega),
      Nat.div_eq_of_lt hw]
  rw [uleb128DecodeLoop, if_pos hhigh, hV7]

/-- The decoding loop reads an encoding back, with `V % 2 ^ (s + 7)` the
    bits read so far and `V / 2 ^ s` the part still to read.  By induction
    on the encoder's fuel, one byte a step. -/
theorem uleb128DecodeLoop_encode (hV : V < 2 ^ bits) (post : List UInt8) :
    ∀ (k off s : Nat), V / 2 ^ s < 2 ^ (7 * (k + 1)) →
      buf.drop off = uleb128EncodeLoop k (V / 2 ^ s) ++ post →
      uleb128DecodeLoop buf bits (k + 1) off s (V % 2 ^ (s + 7)) =
        some (V, off + (uleb128EncodeLoop k (V / 2 ^ s)).length) := by
  intro k
  induction k with
  | zero =>
    intro off s hk hdrop
    have hw : V / 2 ^ s < 128 := hk
    rw [uleb128EncodeLoop_of_lt hw] at hdrop ⊢
    exact uleb128DecodeLoop_last post hw hdrop
  | succ k ih =>
    intro off s hk hdrop
    have hdiv : V / 2 ^ (s + 7) = V / 2 ^ s / 128 := by
      rw [Nat.pow_add, ← Nat.div_div_eq_div_mul]
    by_cases hlast : V / 2 ^ s / 128 = 0
    · have hw : V / 2 ^ s < 128 := by omega
      rw [uleb128EncodeLoop_of_lt hw] at hdrop ⊢
      exact uleb128DecodeLoop_last post hw hdrop
    · -- a byte with the high bit set, then the encoding of `V / 2 ^ (s + 7)`
      rw [uleb128EncodeLoop_succ, if_neg hlast] at hdrop ⊢
      rw [← hdiv, List.cons_append] at hdrop
      rw [← hdiv]
      obtain ⟨b', rest', hcons, hb'⟩ := uleb128EncodeLoop_eq_cons k (V / 2 ^ (s + 7))
      have hnext : buf.drop (off + 1) = b' :: (rest' ++ post) := by
        rw [drop_succ_of_drop_eq_cons hdrop, hcons, List.cons_append]
      have hhigh : ¬ (buf.getD off 0).toNat &&& 0x80 = 0 := by
        rw [getD_of_drop_eq_cons hdrop, and_0x80 (UInt8.toNat_lt _), UInt8.toNat_ofNat']
        omega
      have hb := getD_of_drop_eq_cons hnext
      have hlen : ¬ buf.length ≤ off + 1 := by
        have := lt_length_of_drop_eq_cons hnext
        omega
      have hmask : ¬ (0 ≤ (bits : Int) - ((s + 7 : Nat) : Int) ∧ (bits : Int) - ((s + 7 : Nat) : Int) < 7 ∧
          (buf.getD (off + 1) 0).toNat &&& (256 - 2 ^ ((bits : Int) - ((s + 7 : Nat) : Int)).toNat) ≠ 0) := by
        rintro ⟨h0, h7, hne⟩
        -- `bits` ends within the next seven bits: what is left of `V` is one
        -- byte, below `2 ^ a`
        obtain ⟨a, ha⟩ : ∃ a, bits = s + 7 + a := ⟨bits - (s + 7), by omega⟩
        have ha7 : a < 7 := by omega
        have hlt : V / 2 ^ (s + 7) < 2 ^ a := by
          rw [Nat.div_lt_iff_lt_mul (Nat.two_pow_pos _), ← Nat.pow_add, Nat.add_comm a, ← ha]
          exact hV
        have h128 : V / 2 ^ (s + 7) < 128 :=
          Nat.lt_of_lt_of_le hlt (show 2 ^ a ≤ 2 ^ 7 from Nat.pow_le_pow_right (by decide) (by omega))
        rw [uleb128EncodeLoop_of_lt h128] at hcons
        have hatoNat : ((bits : Int) - ((s + 7 : Nat) : Int)).toNat = a := by omega
        rw [hb, ← (List.cons.inj hcons).1, UInt8.toNat_ofNat', Nat.mod_eq_of_lt (by omega), hatoNat] at hne
        exact hne (and_mask_eq_zero ha7 hlt)
      have hval : (V % 2 ^ (s + 7) ||| ((buf.getD (off + 1) 0).toNat &&& 0x7f) <<< (s + 7)) % 2 ^ bits =
          V % 2 ^ (s + 7 + 7) := by
        rw [hb, and_0x7f, hb', mod_or_shiftLeft]
        exact Nat.mod_eq_of_lt (Nat.lt_of_le_of_lt (Nat.mod_le _ _) hV)
      have hk' : V / 2 ^ (s + 7) < 2 ^ (7 * (k + 1)) := by
        have hpow : 2 ^ (7 * (k + 1 + 1)) = 2 ^ (7 * (k + 1)) * 128 := by
          rw [show 7 * (k + 1 + 1) = 7 * (k + 1) + 7 by omega, Nat.pow_add]
        rw [hdiv, Nat.div_lt_iff_lt_mul (by decide), ← hpow]
        exact hk
      rw [uleb128DecodeLoop, if_neg hhigh]
      dsimp only
      rw [if_neg hlen, if_neg hmask, hval, ih (off + 1) (s + 7) hk' (drop_succ_of_drop_eq_cons hdrop),
        List.length_cons, Nat.add_right_comm, Nat.add_assoc]

/-- A value that fits `bits` bits decodes from its encoding, at any
    offset and with any bytes after it, and the offset moves past it. -/
theorem uleb128Decode_encode (pre post : List UInt8) (hbits : bits ≤ 64) (hV : V < 2 ^ bits) :
    uleb128Decode (pre ++ uleb128Encode V ++ post) bits pre.length =
      some (V, pre.length + uleb128Size V) := by
  obtain ⟨b, rest, hcons, hb⟩ := uleb128EncodeLoop_eq_cons 9 V
  have hdrop : (pre ++ uleb128Encode V ++ post).drop pre.length = uleb128EncodeLoop 9 (V / 2 ^ 0) ++ post := by
    rw [List.append_assoc, List.drop_left, Nat.pow_zero, Nat.div_one, uleb128Encode]
  have hdrop' : (pre ++ uleb128Encode V ++ post).drop pre.length = b :: (rest ++ post) := by
    rw [hdrop, Nat.pow_zero, Nat.div_one, hcons, List.cons_append]
  have hlen : ¬ (pre ++ uleb128Encode V ++ post).length ≤ pre.length := by
    have := lt_length_of_drop_eq_cons hdrop'
    omega
  have hfirst : ((pre ++ uleb128Encode V ++ post).getD pre.length 0).toNat &&& 0x7f = V % 2 ^ (0 + 7) := by
    rw [getD_of_drop_eq_cons hdrop', and_0x7f, hb, show (2 : Nat) ^ (0 + 7) = 128 from rfl]
  have hfit : V / 2 ^ 0 < 2 ^ (7 * (9 + 1)) := by
    rw [Nat.pow_zero, Nat.div_one]
    exact Nat.lt_of_lt_of_le hV (Nat.pow_le_pow_right (by decide) (by omega))
  rw [uleb128Decode, if_neg hlen, hfirst, uleb128DecodeLoop_encode hV post 9 pre.length 0 hfit hdrop,
    Nat.pow_zero, Nat.div_one, length_uleb128EncodeLoop, uleb128Size, Nat.shiftRight_eq_div_pow]

end decode

/-! ## §6. Decoding any bytes -/

/-- The unsigned LEB128 number at the head of `bytes`: its value and its
    length, up to and including the first byte below `0x80`; `none` when
    no such byte comes. -/
def ulebNumber : List UInt8 → Option (Nat × Nat)
  | [] => none
  | b :: bs =>
    if b.toNat < 128 then some (b.toNat, 1)
    else (ulebNumber bs).map fun (v, n) => (b.toNat % 128 + 128 * v, n + 1)

/-- What the number `vn`, its value and its length in bytes, becomes in a
    `bits`-bit integer, read from bit `s` on above the bits `acc`: itself,
    with the offset moved past it, when it fits and its last byte starts
    below bit `bits`. -/
def ulebFit (bits s acc off : Nat) (vn : Nat × Nat) : Option (Nat × Nat) :=
  if acc + vn.1 * 2 ^ s < 2 ^ bits ∧ s + 7 * (vn.2 - 1) < bits then some (acc + vn.1 * 2 ^ s, off + vn.2)
  else none

theorem ulebNumber_cons_of_lt {b : UInt8} (bs : List UInt8) (hb : b.toNat < 128) :
    ulebNumber (b :: bs) = some (b.toNat, 1) := by
  rw [ulebNumber, if_pos hb]

theorem ulebNumber_cons_of_le {b : UInt8} (bs : List UInt8) (hb : 128 ≤ b.toNat) :
    ulebNumber (b :: bs) = (ulebNumber bs).map fun (v, n) => (b.toNat % 128 + 128 * v, n + 1) := by
  rw [ulebNumber, if_neg (by omega)]

/-- A number takes one byte at least, and two when its first byte goes on. -/
theorem ulebNumber_length_pos : ∀ {bytes : List UInt8} {v n : Nat},
    ulebNumber bytes = some (v, n) → 1 ≤ n ∧ (∀ b ∈ bytes.head?, 128 ≤ b.toNat → 2 ≤ n)
  | [], _, _, h => by simp [ulebNumber] at h
  | b :: bs, v, n, h => by
    by_cases hb : b.toNat < 128
    · rw [ulebNumber_cons_of_lt bs hb] at h
      cases h
      refine ⟨Nat.le_refl 1, fun b' hb' hle => ?_⟩
      simp only [List.head?_cons, Option.mem_def, Option.some.injEq] at hb'
      subst hb'
      omega
    · rw [ulebNumber_cons_of_le bs (by omega)] at h
      obtain ⟨⟨v', n'⟩, hbs, heq⟩ := Option.map_eq_some_iff.mp h
      cases heq
      have := (ulebNumber_length_pos hbs).1
      exact ⟨by omega, fun _ _ _ => by omega⟩

/-- A number lies within the bytes it is read from. -/
theorem ulebNumber_length_le : ∀ {bytes : List UInt8} {v n : Nat},
    ulebNumber bytes = some (v, n) → n ≤ bytes.length
  | [], _, _, h => by simp [ulebNumber] at h
  | b :: bs, v, n, h => by
    by_cases hb : b.toNat < 128
    · rw [ulebNumber_cons_of_lt bs hb] at h
      cases h
      simp
    · rw [ulebNumber_cons_of_le bs (by omega)] at h
      obtain ⟨⟨v', n'⟩, hbs, heq⟩ := Option.map_eq_some_iff.mp h
      cases heq
      simpa using ulebNumber_length_le hbs

/-- Bytes after a number do not change it. -/
theorem ulebNumber_append : ∀ {bytes : List UInt8} {v n : Nat} (ext : List UInt8),
    ulebNumber bytes = some (v, n) → ulebNumber (bytes ++ ext) = some (v, n)
  | [], _, _, _, h => by simp [ulebNumber] at h
  | b :: bs, v, n, ext, h => by
    by_cases hb : b.toNat < 128
    · rw [ulebNumber_cons_of_lt bs hb] at h
      rw [List.cons_append, ulebNumber_cons_of_lt _ hb, h]
    · rw [ulebNumber_cons_of_le bs (by omega)] at h
      obtain ⟨⟨v', n'⟩, hbs, heq⟩ := Option.map_eq_some_iff.mp h
      rw [List.cons_append, ulebNumber_cons_of_le _ (by omega), ulebNumber_append ext hbs]
      exact congrArg some heq

set_option maxRecDepth 4000 in
/-- A byte meets the mask `~((1 << a) - 1)` exactly when it is `2 ^ a` or
    more. -/
theorem and_mask_ne_zero_iff {a x : Nat} (ha : a < 7) (hx : x < 256) :
    x &&& (256 - 2 ^ a) ≠ 0 ↔ 2 ^ a ≤ x := by
  have key := (by decide : ∀ a : Fin 7, ∀ x : Fin 256,
    (x.val &&& (256 - 2 ^ a.val) ≠ 0 ↔ 2 ^ a.val ≤ x.val))
  exact key ⟨a, ha⟩ ⟨x, hx⟩

/-- Bits put in above the ones read add to them. -/
theorem or_shiftLeft_eq_add {x t : Nat} (p : Nat) (hx : x < 2 ^ t) : x ||| p <<< t = x + p * 2 ^ t := by
  rw [Nat.shiftLeft_eq, Nat.or_comm, Nat.mul_comm, ← Nat.two_pow_add_eq_or_of_lt hx, Nat.add_comm]

section sound

variable {buf : List UInt8} {bits : Nat}

/-- The next byte after a byte that goes on, when the mask refuses it: no
    number from there fits. -/
theorem ulebFit_of_mask {s acc off : Nat} {b b' : UInt8} {rest' : List UInt8}
    (hlo : s + 7 ≤ bits) (hhi : bits < s + 7 + 7)
    (hmask : 2 ^ (bits - (s + 7)) ≤ b'.toNat) (vn : Nat × Nat) (hvn : ulebNumber (b' :: rest') = some vn) :
    ulebFit bits s acc off (b.toNat % 128 + 128 * vn.1, vn.2 + 1) = none := by
  obtain ⟨v, n⟩ := vn
  obtain ⟨hn1, hn2⟩ := ulebNumber_length_pos hvn
  rw [ulebFit, if_neg]
  rintro ⟨hfit, hlast⟩
  dsimp only at hfit hlast
  by_cases hb' : b'.toNat < 128
  · -- the next byte ends the number, with bits at or past the width
    rw [ulebNumber_cons_of_lt _ hb'] at hvn
    cases hvn
    have hpow : 2 ^ bits ≤ 128 * b'.toNat * 2 ^ s := by
      calc 2 ^ bits = 2 ^ (bits - (s + 7)) * 2 ^ 7 * 2 ^ s := by
            rw [← Nat.pow_add, ← Nat.pow_add]; congr 1; omega
        _ ≤ b'.toNat * 2 ^ 7 * 2 ^ s := by gcongr
        _ = 128 * b'.toNat * 2 ^ s := by rw [Nat.mul_comm b'.toNat]; rfl
    have : 128 * b'.toNat * 2 ^ s ≤ (b.toNat % 128 + 128 * b'.toNat) * 2 ^ s :=
      Nat.mul_le_mul_right _ (Nat.le_add_left _ _)
    omega
  · -- the next byte goes on too: the last byte starts past the width
    have := hn2 b' rfl (by omega)
    omega

/-- Decoding from the byte `b` at `off`, with `acc` the bits below bit `s`
    read so far: the loop returns the number `ulebNumber` finds there,
    shifted in above `acc`, exactly when it fits `bits` bits and its last
    byte starts below bit `bits`.  By induction on the fuel, one byte a
    step.  A width that is no multiple of seven leaves the mask at least
    one bit, so a byte the mask lets through ends the number. -/
theorem uleb128DecodeLoop_eq (h7 : bits % 7 ≠ 0) :
    ∀ (fuel off s acc : Nat) (b : UInt8) (rest : List UInt8),
      buf.drop off = b :: rest → s % 7 = 0 → acc < 2 ^ s → s < bits → bits ≤ s + 7 * fuel →
      acc + b.toNat % 128 * 2 ^ s < 2 ^ bits → (bits < s + 7 → b.toNat < 2 ^ (bits - s)) →
      uleb128DecodeLoop buf bits fuel off s (acc + b.toNat % 128 * 2 ^ s) =
        (ulebNumber (b :: rest)).bind (ulebFit bits s acc off) := by
  intro fuel
  induction fuel with
  | zero => intro off s acc b rest _ _ _ hs hfuel; omega
  | succ fuel ih =>
    intro off s acc b rest hdrop hs7 hacc hs hfuel hval hnarrow
    have hbyte := getD_of_drop_eq_cons hdrop
    by_cases hb : b.toNat < 128
    · -- the last byte
      have hhigh : (buf.getD off 0).toNat &&& 0x80 = 0 := by
        rw [hbyte, and_0x80 (UInt8.toNat_lt _), Nat.div_eq_of_lt hb, Nat.zero_mul]
      rw [Nat.mod_eq_of_lt hb] at hval ⊢
      rw [uleb128DecodeLoop, if_pos hhigh, ulebNumber_cons_of_lt rest hb, Option.bind_some,
        ulebFit, if_pos ⟨hval, by omega⟩]
    · -- a byte that goes on: the width has seven bits more
      have hhigh : ¬ (buf.getD off 0).toNat &&& 0x80 = 0 := by
        rw [hbyte, and_0x80 (UInt8.toNat_lt _)]
        have := UInt8.toNat_lt b
        omega
      have hwide : s + 7 < bits := by
        have hle : s + 7 ≤ bits := by
          by_contra hlt
          have := hnarrow (by omega)
          have : 2 ^ (bits - s) ≤ 2 ^ 6 := Nat.pow_le_pow_right (by decide) (by omega)
          omega
        omega
      rw [uleb128DecodeLoop, if_neg hhigh, ulebNumber_cons_of_le rest (by omega), Option.bind_map]
      dsimp only
      cases rest with
      | nil =>
        have hlen : buf.length ≤ off + 1 := by
          have := congrArg List.length hdrop
          rw [List.length_drop, List.length_singleton] at this
          omega
        rw [if_pos hlen]
        rfl
      | cons b' rest' =>
        have hnext : buf.drop (off + 1) = b' :: rest' := drop_succ_of_drop_eq_cons hdrop
        have hlen : ¬ buf.length ≤ off + 1 := by
          have := lt_length_of_drop_eq_cons hnext
          omega
        have hb' := getD_of_drop_eq_cons hnext
        rw [if_neg hlen, hb']
        have hleft : (((bits : Int) - ((s + 7 : Nat) : Int)).toNat) = bits - (s + 7) := by omega
        by_cases hmask : bits < s + 7 + 7 ∧ 2 ^ (bits - (s + 7)) ≤ b'.toNat
        · -- the mask refuses the next byte
          have hne : b'.toNat &&& (256 - 2 ^ (bits - (s + 7))) ≠ 0 :=
            (and_mask_ne_zero_iff (by omega) (UInt8.toNat_lt _)).mpr hmask.2
          rw [if_pos ⟨by omega, by omega, by rwa [hleft]⟩]
          cases hvn : ulebNumber (b' :: rest') with
          | none => rfl
          | some vn =>
            exact (ulebFit_of_mask (by omega) hmask.1 hmask.2 vn hvn).symm
        · have hpass : ¬ (0 ≤ (bits : Int) - ((s + 7 : Nat) : Int) ∧ (bits : Int) - ((s + 7 : Nat) : Int) < 7 ∧
              b'.toNat &&& (256 - 2 ^ ((bits : Int) - ((s + 7 : Nat) : Int)).toNat) ≠ 0) := by
            rintro ⟨-, hlt, hne⟩
            rw [hleft, and_mask_ne_zero_iff (by omega) (UInt8.toNat_lt _)] at hne
            exact hmask ⟨by omega, hne⟩
          rw [if_neg hpass]
          -- the bits read so far lie below bit `s + 7`
          have hacc' : acc + b.toNat % 128 * 2 ^ s < 2 ^ (s + 7) := by
            have : b.toNat % 128 * 2 ^ s ≤ 127 * 2 ^ s := Nat.mul_le_mul_right _ (by omega)
            rw [Nat.pow_add]
            omega
          have hval' : acc + b.toNat % 128 * 2 ^ s + b'.toNat % 128 * 2 ^ (s + 7) < 2 ^ bits := by
            by_cases hnar : bits < s + 7 + 7
            · have hlt : b'.toNat < 2 ^ (bits - (s + 7)) := by omega
              have hpow : 2 ^ bits = 2 ^ (bits - (s + 7)) * 2 ^ (s + 7) := by
                rw [← Nat.pow_add]; congr 1; omega
              have : b'.toNat % 128 * 2 ^ (s + 7) + 2 ^ (s + 7) ≤ 2 ^ (bits - (s + 7)) * 2 ^ (s + 7) := by
                rw [← Nat.succ_mul]
                exact Nat.mul_le_mul_right _ (by omega)
              omega
            · have hpow : 2 ^ (s + 7 + 7) ≤ 2 ^ bits := Nat.pow_le_pow_right (by decide) (by omega)
              have : b'.toNat % 128 * 2 ^ (s + 7) + 2 ^ (s + 7) ≤ 2 ^ (s + 7 + 7) := by
                rw [← Nat.succ_mul, Nat.pow_add _ (s + 7) 7]
                rw [Nat.mul_comm]
                exact Nat.mul_le_mul_left _ (by omega)
              omega
          rw [and_0x7f, or_shiftLeft_eq_add _ hacc', Nat.mod_eq_of_lt hval',
            ih (off + 1) (s + 7) _ b' rest' hnext (by omega) hacc' hwide (by omega) hval'
              (fun h => by omega)]
          cases hvn : ulebNumber (b' :: rest') with
          | none => rfl
          | some vn =>
            obtain ⟨v, n⟩ := vn
            have hn := (ulebNumber_length_pos hvn).1
            simp only [Option.bind_some, Function.comp_apply, ulebFit]
            have hsum : acc + b.toNat % 128 * 2 ^ s + v * 2 ^ (s + 7) =
                acc + (b.toNat % 128 + 128 * v) * 2 ^ s := by
              rw [Nat.pow_add, Nat.add_mul]
              ring
            rw [hsum, show s + 7 + 7 * (n - 1) = s + 7 * (n + 1 - 1) by omega,
              show off + 1 + n = off + (n + 1) by omega]

/-- `uleb128_decode` into a `bits`-bit integer, `bits` from `7` to `70`
    and no multiple of seven: the number at `offset`, when it fits and its
    last byte starts below bit `bits`, and a throw otherwise. -/
theorem uleb128Decode_eq (h7 : 7 ≤ bits) (h70 : bits ≤ 70) (hmod : bits % 7 ≠ 0) (off : Nat) :
    uleb128Decode buf bits off = (ulebNumber (buf.drop off)).bind (ulebFit bits 0 0 off) := by
  by_cases hoff : buf.length ≤ off
  · rw [uleb128Decode, if_pos hoff, List.drop_eq_nil_of_le hoff]
    rfl
  · obtain ⟨b, rest, hdrop⟩ : ∃ b rest, buf.drop off = b :: rest :=
      List.ne_nil_iff_exists_cons.mp (by simpa using hoff)
    have hloop := uleb128DecodeLoop_eq hmod 10 off 0 0 b rest hdrop rfl (by decide) (by omega) (by omega)
      (by
        have : (2 : Nat) ^ 7 ≤ 2 ^ bits := Nat.pow_le_pow_right (by decide) h7
        have := Nat.mod_lt b.toNat (show 0 < 128 by decide)
        simp only [Nat.pow_zero, Nat.mul_one, Nat.zero_add]
        omega)
      (fun h => by omega)
    rw [uleb128Decode, if_neg hoff, hdrop, ← hloop, getD_of_drop_eq_cons hdrop, and_0x7f]
    simp

/-- An over-long encoding of a value that fits is refused: `0x81 0x80
    0x00` spells `1` in three bytes, and the third starts at bit 14 of a
    `uint8_t`. -/
example : uleb128Decode [0x81, 0x80, 0x00] 8 0 = none ∧ ulebNumber [0x81, 0x80, 0x00] = some (1, 3) := by
  decide

section width

variable (h7 : 7 ≤ bits) (h70 : bits ≤ 70) (hmod : bits % 7 ≠ 0)
include h7 h70 hmod

/-- What `uleb128_decode` returns is the number at `offset`, within the
    bytes and the width. -/
theorem uleb128Decode_sound {off v e : Nat} (h : uleb128Decode buf bits off = some (v, e)) :
    ulebNumber (buf.drop off) = some (v, e - off) ∧ v < 2 ^ bits ∧ off < e ∧ e ≤ buf.length := by
  rw [uleb128Decode_eq h7 h70 hmod] at h
  obtain ⟨⟨v', n⟩, hnum, hfit⟩ := Option.bind_eq_some_iff.mp h
  rw [ulebFit] at hfit
  split_ifs at hfit with hcond
  obtain ⟨hv, he⟩ := Prod.mk.inj (Option.some.inj hfit)
  simp only [Nat.pow_zero, Nat.mul_one, Nat.zero_add] at hv he hcond
  have hn := (ulebNumber_length_pos hnum).1
  have hlen := ulebNumber_length_le hnum
  rw [List.length_drop] at hlen
  refine ⟨?_, by omega, by omega, by omega⟩
  rw [hnum, ← hv, ← he, Nat.add_sub_cancel_left]

/-- Bytes past the end are not read: a number decoded from `buf`
    decodes the same from `buf` with any bytes after it. -/
theorem uleb128Decode_append {off v e : Nat} (h : uleb128Decode buf bits off = some (v, e))
    (ext : List UInt8) : uleb128Decode (buf ++ ext) bits off = some (v, e) := by
  have hoff := (uleb128Decode_sound h7 h70 hmod h).2.2.2
  obtain ⟨hnum, -, hlt, -⟩ := uleb128Decode_sound h7 h70 hmod h
  rw [uleb128Decode_eq h7 h70 hmod] at h ⊢
  rw [List.drop_append_of_le_length (by omega), ulebNumber_append ext hnum]
  rwa [hnum] at h

end width

end sound

/-- `uleb128_encode` and `uleb128_decode` for the unsigned integer types,
    8, 16, 32 and 64 bits wide.  A value of the type encodes in
    `uleb128_size` bytes and decodes back from any place in any buffer,
    with the offset moved past it.  From any bytes, decoding returns the
    number that starts at the offset when it fits the type and its last
    byte starts below the type's width, and throws otherwise; what it
    returns ends within the buffer, and the bytes after the buffer are
    not read. -/
theorem uleb128_codec (bits : Nat) (hUI : bits ∈ [8, 16, 32, 64]) :
    (∀ V, V < 2 ^ bits → ∀ pre post : List UInt8,
      (uleb128Encode V).length = uleb128Size V ∧
        uleb128Decode (pre ++ uleb128Encode V ++ post) bits pre.length =
          some (V, pre.length + uleb128Size V)) ∧
    ∀ (buf : List UInt8) (off : Nat), off < buf.length →
      uleb128Decode buf bits off = (ulebNumber (buf.drop off)).bind (ulebFit bits 0 0 off) ∧
      ∀ v e, uleb128Decode buf bits off = some (v, e) →
        ulebNumber (buf.drop off) = some (v, e - off) ∧ v < 2 ^ bits ∧ off < e ∧ e ≤ buf.length ∧
          ∀ ext, uleb128Decode (buf ++ ext) bits off = some (v, e) := by
  have hw : 7 ≤ bits ∧ bits ≤ 64 ∧ bits % 7 ≠ 0 := by
    simp only [List.mem_cons, List.not_mem_nil, or_false] at hUI
    rcases hUI with rfl | rfl | rfl | rfl <;> decide
  obtain ⟨h7, h64, hmod⟩ := hw
  refine ⟨fun V hV pre post => ⟨length_uleb128Encode V, uleb128Decode_encode pre post h64 hV⟩,
    fun buf off _ => ⟨uleb128Decode_eq h7 (by omega) hmod off, fun v e h => ?_⟩⟩
  obtain ⟨hnum, hv, hlt, hle⟩ := uleb128Decode_sound h7 (by omega) hmod h
  exact ⟨hnum, hv, hlt, hle, uleb128Decode_append h7 (by omega) hmod h⟩

theorem uleb128_codec_uint32 :
    (32 : Nat) ∈ [8, 16, 32, 64] ∧
      uleb128Decode (([] : List UInt8) ++ uleb128Encode 624485 ++ []) 32 ([] : List UInt8).length =
        some (624485, ([] : List UInt8).length + uleb128Size 624485) :=
  ⟨by decide, ((uleb128_codec 32 (by decide)).1 624485 (by decide) [] []).2⟩

end Galera.Gu
