/-
  Galera.Gu.Mmh3
  ──────────────
  **128-BIT MURMURHASH3, IN ONE GO AND BY PARTS (`gu_mmh3.c`).**

  `gu_mmh128(msg, len)` folds the 16-byte blocks of the message into two
  64-bit words seeded with Galera's seed, then mixes in the 0 to 15 bytes
  of the tail and the length.  `gu_mmh128_init`, `gu_mmh128_append` and
  `gu_mmh128_get` compute the same hash from parts: the context keeps the
  two words, the bytes of an incomplete block in `tail`, and the length
  so far.  An append first completes a buffered block from the part, then
  folds the part's whole blocks straight from it, and keeps what is left
  over at the front of `tail`.

  A buffer is a list of bytes, and a `size_t` length its length: no
  buffer in memory reaches `2 ^ 64` bytes.  A word read with `memcpy` and
  `gu_le64` is the bytes' little-endian value on every host (`leWord`),
  and the result `gu_mmh128` stores in canonical byte order is the two
  words little-endian (`hashBytes`).

    * `Streamed` — what the context holds after the bytes `msg`: the
      blocks of `msg` folded, its tail at the front of `tail`;
    * `Streamed.append` — `gu_mmh128_append` keeps that, in each of its
      three branches;
    * `Streamed.tail_eq_seed` — and the tail and finalization over such
      a context is the one-shot hash of `msg`;
    * `mmh128_stream_eq_oneshot` — for every sequence of parts, the
      streamed hash is the hash of the concatenation.
-/
import Mathlib
import Galera.Lib.Bytes
import Galera.Lib.Chunks

namespace Galera.Gu

open Galera.Bytes (leBytes overwrite take_overwrite length_overwrite)
open Galera.Chunks (foldChunks foldChunks_add foldChunks_append foldChunks_one)

/-! ## §1. The mixing functions -/

/-- `GU_ROTL64(x, r)`. -/
def rotl64 (x r : UInt64) : UInt64 := (x <<< r) ||| (x >>> (64 - r))

/-- `_mmh3_fmix64(k)`. -/
def fmix64 (k : UInt64) : UInt64 :=
  let k := k ^^^ (k >>> 33)
  let k := k * 0xff51afd7ed558ccd
  let k := k ^^^ (k >>> 33)
  let k := k * 0xc4ceb9fe1a85ec53
  k ^^^ (k >>> 33)

/-- `_mmh3_128_c1`. -/
def mmh3C1 : UInt64 := 0x87c37b91114253d5

/-- `_mmh3_128_c2`. -/
def mmh3C2 : UInt64 := 0x4cf5ad432745937f

/-- `k1 *= c1; k1 = GU_ROTL64(k1,31); k1 *= c2`. -/
def mixK1 (k : UInt64) : UInt64 := rotl64 (k * mmh3C1) 31 * mmh3C2

/-- `k2 *= c2; k2 = GU_ROTL64(k2,33); k2 *= c1`. -/
def mixK2 (k : UInt64) : UInt64 := rotl64 (k * mmh3C2) 33 * mmh3C1

/-- `_mmh3_128_block(k1, k2, h1, h2)`. -/
def mmh3Block (k1 k2 : UInt64) (h : UInt64 × UInt64) : UInt64 × UInt64 :=
  let h1 := h.1 ^^^ mixK1 k1
  let h1 := (rotl64 h1 27 + h.2) * 5 + 0x52dce729
  let h2 := h.2 ^^^ mixK2 k2
  let h2 := (rotl64 h2 31 + h1) * 5 + 0x38495ab5
  (h1, h2)

/-! ## §2. Reading bytes -/

/-- The `n` bytes of `buf` from `i` on, each XORed in at its place: what
    `memcpy` of eight bytes and `gu_le64` read, and what the fall-through
    of `_mmh3_128_tail` collects from a shorter tail. -/
def leWord (buf : List UInt8) (i : Nat) : Nat → UInt64
  | 0 => 0
  | n + 1 => leWord buf i n ^^^ ((buf.getD (i + n) 0).toUInt64 <<< (8 * n).toUInt64)

/-- A word reads only its own bytes. -/
theorem leWord_congr {buf buf' : List UInt8} {i : Nat} :
    ∀ n, (∀ j < n, buf.getD (i + j) 0 = buf'.getD (i + j) 0) → leWord buf i n = leWord buf' i n
  | 0, _ => rfl
  | n + 1, h => by
    rw [leWord, leWord, leWord_congr n (fun j hj => h j (by omega)), h n (by omega)]

/-! ## §3. In one go -/

/-- One pass of the loop of `_mmh3_128_blocks`: a 16-byte block, read as
    two little-endian half-blocks. -/
def blockStep (h : UInt64 × UInt64) (block : List UInt8) : UInt64 × UInt64 :=
  mmh3Block (leWord block 0 8) (leWord block 8 8) h

/-- `_mmh3_128_blocks(blocks, nblocks, h1, h2)`: `nblocks` half-blocks,
    two a pass. -/
def mmh3Blocks (blocks : List UInt8) (nblocks : Nat) (h : UInt64 × UInt64) : UInt64 × UInt64 :=
  foldChunks blockStep 16 ((nblocks + 1) / 2) blocks h

/-- `_mmh3_128_tail(tail, len, h1, h2, out)`: the `len & 15` bytes of the
    tail, then the length, mixed in. -/
def mmh3Tail (tail : List UInt8) (len : Nat) (h : UInt64 × UInt64) : UInt64 × UInt64 :=
  let n := len % 16
  -- cases 9 to 15 of the switch read the second half-block by the
  -- fall-through and the first with `memcpy`; cases 1 to 8 the first only
  let h : UInt64 × UInt64 :=
    if 9 ≤ n then (h.1 ^^^ mixK1 (leWord tail 0 8), h.2 ^^^ mixK2 (leWord tail 8 (n - 8)))
    else if 1 ≤ n then (h.1 ^^^ mixK1 (leWord tail 0 n), h.2)
    else h
  let h1 := h.1 ^^^ UInt64.ofNat len
  let h2 := h.2 ^^^ UInt64.ofNat len
  let h1 := h1 + h2
  let h2 := h2 + h1
  let h1 := fmix64 h1
  let h2 := fmix64 h2
  let h1 := h1 + h2
  let h2 := h2 + h1
  (h1, h2)

/-- `_mmh3_128_seed(key, len, s1, s2, out)`. -/
def mmh3Seed (key : List UInt8) (len : Nat) (s : UInt64 × UInt64) : UInt64 × UInt64 :=
  let nblocks := len / 16 * 2
  mmh3Tail (key.drop (8 * nblocks)) len (mmh3Blocks key nblocks s)

/-- `GU_MMH128_SEED1` and `GU_MMH128_SEED2`. -/
def mmh128Seed : UInt64 × UInt64 := (0x6C62272E07BB0142, 0x62B821756295C58D)

/-- The 16 bytes of `out` once both words are stored with `gu_le64`. -/
def hashBytes (h : UInt64 × UInt64) : List UInt8 := leBytes 8 h.1.toNat ++ leBytes 8 h.2.toNat

/-- `gu_mmh128(msg, len, out)`: the hash in canonical byte order. -/
def mmh128 (msg : List UInt8) : List UInt8 := hashBytes (mmh3Seed msg msg.length mmh128Seed)

/-- `gu_mmh128_64(msg, len)`. -/
def mmh128_64 (msg : List UInt8) : UInt64 := (mmh3Seed msg msg.length mmh128Seed).1

/-- `gu_mmh128_32(msg, len)`. -/
def mmh128_32 (msg : List UInt8) : UInt32 := (mmh3Seed msg msg.length mmh128Seed).1.toUInt32

/-! ## §4. By parts -/

/-- `gu_mmh128_ctx_t`: the two words, the 16 bytes of `tail[2]`, and the
    length appended so far. -/
structure Mmh128Ctx where
  hash : UInt64 × UInt64
  tail : List UInt8
  length : Nat
  deriving DecidableEq, Repr

namespace Mmh128Ctx

/-- `gu_mmh128_init(mmh)`: `memset` to zero, then the seed. -/
def init : Mmh128Ctx := ⟨mmh128Seed, List.replicate 16 0, 0⟩

/-- The end of `gu_mmh128_append`, from `nblocks` on: the whole blocks of
    `part` are folded into `hash`, and its trailing bytes are copied to the
    front of `tail`. -/
def appendBlocks (hash : UInt64 × UInt64) (tail : List UInt8) (length : Nat) (part : List UInt8) :
    Mmh128Ctx :=
  let nblocks := part.length / 16 * 2
  { hash := mmh3Blocks part nblocks hash,
    tail := overwrite tail 0 ((part.drop (8 * nblocks)).take (part.length % 16)),
    length }

/-- `gu_mmh128_append(mmh, part, len)`. -/
def append (mmh : Mmh128Ctx) (part : List UInt8) : Mmh128Ctx :=
  let tailLen := mmh.length % 16
  let length := mmh.length + part.length
  if tailLen ≠ 0 then
    let toFill := 16 - tailLen
    if toFill ≤ part.length then
      -- the buffered block is completed from the part and folded in
      let tail := overwrite mmh.tail tailLen (part.take toFill)
      appendBlocks (mmh3Block (leWord tail 0 8) (leWord tail 8 8) mmh.hash) tail length
        (part.drop toFill)
    else { mmh with tail := overwrite mmh.tail tailLen part, length }
  else appendBlocks mmh.hash mmh.tail length part

/-- The parts appended in order. -/
def appendAll (mmh : Mmh128Ctx) (parts : List (List UInt8)) : Mmh128Ctx :=
  parts.foldl append mmh

/-- `gu_mmh128_get(mmh, res)`: the tail and finalization over the
    context, which it reads only, stored in canonical byte order. -/
def get (mmh : Mmh128Ctx) : List UInt8 := hashBytes (mmh3Tail mmh.tail mmh.length mmh.hash)

/-- `gu_mmh128_get64(mmh)`. -/
def get64 (mmh : Mmh128Ctx) : UInt64 := (mmh3Tail mmh.tail mmh.length mmh.hash).1

/-- `gu_mmh128_get32(mmh)`. -/
def get32 (mmh : Mmh128Ctx) : UInt32 := (mmh3Tail mmh.tail mmh.length mmh.hash).1.toUInt32

end Mmh128Ctx

/-! ## §5. The tail and the blocks -/

/-- The tail mix reads the `len % 16` bytes of the tail only. -/
theorem mmh3Tail_congr {tail tail' : List UInt8} {len : Nat}
    (h : ∀ j < len % 16, tail.getD j 0 = tail'.getD j 0) (hash : UInt64 × UInt64) :
    mmh3Tail tail len hash = mmh3Tail tail' len hash := by
  have hlo : ∀ m ≤ len % 16, leWord tail 0 m = leWord tail' 0 m := fun m hm =>
    leWord_congr m fun j hj => by rw [Nat.zero_add]; exact h j (by omega)
  have hhi : leWord tail 8 (len % 16 - 8) = leWord tail' 8 (len % 16 - 8) :=
    leWord_congr _ fun j hj => h (8 + j) (by omega)
  unfold mmh3Tail
  dsimp only
  split_ifs with h9 h1
  · rw [hlo 8 (by omega), hhi]
  · rw [hlo (len % 16) (Nat.le_refl _)]
  · rfl

/-- A whole number of half-block pairs is that many blocks. -/
theorem mmh3Blocks_eq (blocks : List UInt8) (len : Nat) (h : UInt64 × UInt64) :
    mmh3Blocks blocks (len / 16 * 2) h = foldChunks blockStep 16 (len / 16) blocks h := by
  rw [mmh3Blocks, show (len / 16 * 2 + 1) / 2 = len / 16 by omega]

/-- The block `append` completes is one step of the fold. -/
theorem mmh3Block_leWord (h : UInt64 × UInt64) (block : List UInt8) :
    mmh3Block (leWord block 0 8) (leWord block 8 8) h = blockStep h block := rfl

/-! ## §6. The context after a message -/

/-- What the context holds after the bytes `msg` were appended: their
    length, their whole blocks folded from the seed, and their tail at the
    front of the 16 tail bytes. -/
structure Streamed (mmh : Mmh128Ctx) (msg : List UInt8) : Prop where
  length_eq : mmh.length = msg.length
  hash_eq : mmh.hash = foldChunks blockStep 16 (msg.length / 16) msg mmh128Seed
  tail_length : mmh.tail.length = 16
  tail_eq : mmh.tail.take (msg.length % 16) = msg.drop (16 * (msg.length / 16))

theorem streamed_init : Streamed Mmh128Ctx.init [] :=
  ⟨rfl, rfl, rfl, rfl⟩

/-- The end of `append` from a block boundary: the whole blocks of the
    part go into the hash, the rest into the tail. -/
theorem Streamed.appendBlocks {hash : UInt64 × UInt64} {tail msg : List UInt8}
    (hmsg : msg.length % 16 = 0) (hhash : hash = foldChunks blockStep 16 (msg.length / 16) msg mmh128Seed)
    (htail : tail.length = 16) (part : List UInt8) :
    Streamed (Mmh128Ctx.appendBlocks hash tail (msg.length + part.length) part) (msg ++ part) := by
  obtain ⟨a, ha⟩ : ∃ a, msg.length = 16 * a := ⟨msg.length / 16, by omega⟩
  have hlen : (msg ++ part).length / 16 = a + part.length / 16 := by
    rw [List.length_append, ha]
    omega
  have hmod : (msg ++ part).length % 16 = part.length % 16 := by
    rw [List.length_append, ha]
    omega
  have hdrop : (msg ++ part).drop (16 * a) = part := by
    rw [← ha, List.drop_left]
  have hrest : (part.drop (16 * (part.length / 16))).length = part.length % 16 := by
    rw [List.length_drop]
    omega
  refine ⟨by simp only [Mmh128Ctx.appendBlocks, List.length_append], ?_, ?_, ?_⟩
  · -- the blocks of the message, then those of the part
    rw [Mmh128Ctx.appendBlocks, mmh3Blocks_eq, hlen, foldChunks_add, hdrop,
      foldChunks_append _ _ (by omega), hhash, ha, Nat.mul_div_cancel_left _ (by decide)]
  · simp only [Mmh128Ctx.appendBlocks]
    rw [length_overwrite (by simp [htail]; omega), htail]
  · simp only [Mmh128Ctx.appendBlocks]
    have htake : (part.drop (8 * (part.length / 16 * 2))).take (part.length % 16) =
        part.drop (16 * (part.length / 16)) := by
      rw [show 8 * (part.length / 16 * 2) = 16 * (part.length / 16) by omega,
        List.take_of_length_le (Nat.le_of_eq hrest)]
    -- the rest of the part is written at the front of the tail
    have hfront := @take_overwrite _ tail (part.drop (16 * (part.length / 16))) 0 (by omega)
    rw [Nat.zero_add, hrest, List.take_zero, List.nil_append] at hfront
    rw [htake, hmod, hfront, hlen, Nat.mul_add, ← List.drop_drop, hdrop]

/-- `gu_mmh128_append` keeps the context in step with the message, in
    each of its branches: from a block boundary; with a buffered block the
    part completes; and with one it does not. -/
theorem Streamed.append {mmh : Mmh128Ctx} {msg : List UInt8} (h : Streamed mmh msg) (part : List UInt8) :
    Streamed (mmh.append part) (msg ++ part) := by
  obtain ⟨hlen, hhash, htl, htail⟩ := h
  set t := msg.length % 16 with ht
  unfold Mmh128Ctx.append
  dsimp only
  rw [hlen]
  split_ifs with h0 hfill
  · -- a buffered block of `t` bytes, completed by the first `16 - t` of the part
    have hfirst : (part.take (16 - t)).length = 16 - t := List.length_take_of_le hfill
    have hT : (overwrite mmh.tail t (part.take (16 - t))).length = 16 := by
      rw [length_overwrite (by omega), htl]
    have hblock : overwrite mmh.tail t (part.take (16 - t)) =
        msg.drop (16 * (msg.length / 16)) ++ part.take (16 - t) := by
      have h16 := @take_overwrite _ mmh.tail (part.take (16 - t)) t (by omega)
      rw [hfirst, show t + (16 - t) = 16 by omega, List.take_of_length_le (Nat.le_of_eq hT), htail] at h16
      exact h16
    -- the message with the completed block ends on a block boundary
    have hmsg1 : (msg ++ part.take (16 - t)).length = 16 * (msg.length / 16 + 1) := by
      rw [List.length_append, hfirst]
      omega
    have hhash1 : mmh3Block (leWord (overwrite mmh.tail t (part.take (16 - t))) 0 8)
        (leWord (overwrite mmh.tail t (part.take (16 - t))) 8 8) mmh.hash =
        foldChunks blockStep 16 ((msg ++ part.take (16 - t)).length / 16) (msg ++ part.take (16 - t))
          mmh128Seed := by
      rw [mmh3Block_leWord, hmsg1, Nat.mul_div_cancel_left _ (by decide), foldChunks_add, foldChunks_one,
        foldChunks_append _ _ (by omega), ← hhash, List.drop_append_of_le_length (by omega), ← hblock,
        List.take_of_length_le (Nat.le_of_eq hT)]
    have hstep := Streamed.appendBlocks (by rw [hmsg1]; omega) hhash1 hT (part.drop (16 - t))
    rw [List.append_assoc, List.take_append_drop, List.length_append, List.length_drop, hfirst,
      show msg.length + (16 - t) + (part.length - (16 - t)) = msg.length + part.length by omega] at hstep
    exact hstep
  · -- the part only adds to the buffered block
    have hlt : part.length < 16 - t := by omega
    have hdiv : (msg ++ part).length / 16 = msg.length / 16 := by
      rw [List.length_append]
      omega
    have hmod : (msg ++ part).length % 16 = t + part.length := by
      rw [List.length_append]
      omega
    refine ⟨by simp, ?_, ?_, ?_⟩
    · rw [hdiv, foldChunks_append _ _ (by omega), hhash]
    · rw [length_overwrite (by omega), htl]
    · rw [hmod, take_overwrite _ (by omega), htail, hdiv, List.drop_append_of_le_length (by omega)]
  · -- from a block boundary
    exact Streamed.appendBlocks (by omega) hhash htl part

/-- Appending parts keeps the context in step with their concatenation. -/
theorem Streamed.appendAll {mmh : Mmh128Ctx} {msg : List UInt8} (h : Streamed mmh msg) :
    ∀ parts : List (List UInt8), Streamed (mmh.appendAll parts) (msg ++ parts.flatten)
  | [] => by simpa [Mmh128Ctx.appendAll] using h
  | part :: parts => by
    have := (h.append part).appendAll parts
    rwa [List.flatten_cons, ← List.append_assoc]

/-- The tail and finalization over a context in step with `msg` is the
    one-shot hash of `msg`. -/
theorem Streamed.tail_eq_seed {mmh : Mmh128Ctx} {msg : List UInt8} (h : Streamed mmh msg) :
    mmh3Tail mmh.tail mmh.length mmh.hash = mmh3Seed msg msg.length mmh128Seed := by
  have hrest : (msg.drop (16 * (msg.length / 16))).length = msg.length % 16 := by
    rw [List.length_drop]
    omega
  rw [mmh3Seed, mmh3Blocks_eq, ← h.hash_eq, h.length_eq,
    show 8 * (msg.length / 16 * 2) = 16 * (msg.length / 16) by omega]
  apply mmh3Tail_congr
  intro j hj
  rw [← h.tail_eq, List.getD_eq_getElem?_getD, List.getD_eq_getElem?_getD, List.getElem?_take_of_lt hj]

/-- `gu_mmh128_init`, `gu_mmh128_append` of every part in order, and
    `gu_mmh128_get`, `gu_mmh128_get64` or `gu_mmh128_get32`: the hash of
    the concatenation of the parts, for any parts of any lengths. -/
theorem mmh128_stream_eq_oneshot (parts : List (List UInt8)) :
    (Mmh128Ctx.init.appendAll parts).get = mmh128 parts.flatten ∧
      (Mmh128Ctx.init.appendAll parts).get64 = mmh128_64 parts.flatten ∧
      (Mmh128Ctx.init.appendAll parts).get32 = mmh128_32 parts.flatten := by
  have h := streamed_init.appendAll parts
  rw [List.nil_append] at h
  refine ⟨?_, ?_, ?_⟩
  · rw [Mmh128Ctx.get, mmh128, h.tail_eq_seed]
  · rw [Mmh128Ctx.get64, mmh128_64, h.tail_eq_seed]
  · rw [Mmh128Ctx.get32, mmh128_32, h.tail_eq_seed]

/-- The parts that the source's test `gu_mmh128_partial` appends, 31 bytes
    of `"0123456789ABCDEF0123456789abcde"` in all: the hash is the value
    the test expects for the 31 bytes. -/
example :
    (Mmh128Ctx.init.appendAll
      [[],
      [0x30],
      [0x31, 0x32],
      [0x33, 0x34, 0x35, 0x36, 0x37, 0x38, 0x39, 0x41, 0x42, 0x43, 0x44, 0x45, 0x46, 0x30, 0x31, 0x32, 0x33, 0x34, 0x35, 0x36],
      [],
      [0x37, 0x38, 0x39],
      [0x61, 0x62, 0x63],
      [0x64, 0x65]]).get =
      [0x69, 0x53, 0x0d, 0xc3, 0x4d, 0xd4, 0x33, 0xe9, 0x00, 0x1b, 0x27, 0x06, 0x27, 0x7f, 0x48, 0xf7] := by
  decide +kernel

end Galera.Gu
