/-
  Galera.Gcs.CoreSend
  ───────────────────
  **THE SENDING SIDE OF `gcs_core` (`gcs_core_send`).**

  `gcs_core_send` cuts an action, given as a vector of buffers, into
  messages no larger than the send buffer.  Every message is the action
  header followed by the next slice of the action: the header is written
  once by `gcs_act_proto_write` and its frag_no advanced by
  `gcs_act_proto_inc` after every message.  A cursor (piece, offset,
  bytes left in the piece) walks the vector.  When the backend takes
  less than the whole message, the cursor is moved back to the first
  byte it did not take, across as many pieces as needed, and later
  slices are no longer than what it took.

    * `gcsCoreGather_spec`, `gcsCoreRewind_spec` — a cursor on a byte of
      the action stays on one, and gathering copies the next bytes of
      the concatenation of the pieces;
    * `gcsCoreSendLoop_spec` — while the backend takes more than the
      header of every message, the loop sends the whole action, as
      messages whose slices cut the action (`IsSlicing`);
    * `map_read_fragMsgs` — such messages read back as the action's
      fragments numbered from 0, which `handleFrags_actFrags`
      reassembles.

  The backend is a function from the number of the call and the message
  size to what `core_msg_send_retry` returns after its `-EAGAIN`
  retries; a message is the first bytes of the send buffer that the
  backend reports as taken.  Of the send buffer the model keeps the
  header; the data area is the slice being sent.  The local action FIFO
  is not modelled.
-/
import Mathlib
import Galera.Gcs.ActProto
import Galera.Gcs.Group

namespace Galera.Gcs

open Galera.Bytes

/-! ## §1. The cursor -/

/-- Where the sender stands in the action: piece `idx`, offset `ptr` in
    it, and the `left` bytes of the piece after `ptr`. -/
structure Cursor where
  idx : Nat
  ptr : Nat
  left : Nat
  deriving DecidableEq, Repr

/-- The gather loop of `gcs_core_send`: copy `toCopy` bytes from the
    cursor on, moving to the next piece whenever the current one runs
    out.  Reading past the last piece fails; `fuel` bounds the pieces
    visited. -/
def gcsCoreGather (action : List (List UInt8)) :
    Nat → Cursor → Nat → Option (List UInt8 × Cursor)
  | fuel, c, toCopy =>
    if toCopy = 0 then some ([], c)
    else if toCopy ≤ c.left then
      some (((action.getD c.idx []).drop c.ptr).take toCopy,
        { c with ptr := c.ptr + toCopy, left := c.left - toCopy })
    else
      match fuel, action[c.idx + 1]? with
      | fuel + 1, some piece =>
        (gcsCoreGather action fuel ⟨c.idx + 1, 0, piece.length⟩ (toCopy - c.left)).map
          fun r => (((action.getD c.idx []).drop c.ptr).take c.left ++ r.1, r.2)
      | _, _ => none

/-- The rewind loop of `gcs_core_send`: move `moveBack` bytes back from
    offset `ptrdiff` of piece `idx`, into earlier pieces while the
    current one is too short.  Moving back past the first piece is the
    source's `assert (idx > 0)`. -/
def gcsCoreRewind (action : List (List UInt8)) (idx ptrdiff moveBack : Nat) : Option Cursor :=
  if moveBack ≤ ptrdiff then
    some ⟨idx, ptrdiff - moveBack, (action.getD idx []).length - ptrdiff + moveBack⟩
  else
    match idx with
    | 0 => none
    | i + 1 => gcsCoreRewind action i (action.getD i []).length (moveBack - ptrdiff)

/-! ## §2. The send loop -/

/-- The variables of the loop of `gcs_core_send`: what is left of the
    action (`act_size`), what was sent, `frg.frag_len`, the header bytes
    of the send buffer, the cursor, and the number of backend calls. -/
structure SendState where
  actSize : Nat
  sent : Nat
  fragLen : Nat
  hdr : List UInt8
  cur : Cursor
  calls : Nat
  deriving DecidableEq, Repr

/-- How one pass of the loop ends: round again, the whole action sent,
    or `goto out` with an error. -/
inductive SendPass
  | again (s : SendState)
  | sent (n : Nat)
  | failed (err : Int)
  deriving DecidableEq, Repr

/-- After the backend took `r` bytes of a chunk of `chunkSize`: the new
    `frag_len` and cursor.  A short send limits later chunks to what was
    taken and moves the cursor back to the first byte not taken. -/
def gcsCoreSendAdjust (action : List (List UInt8)) (fragLen : Nat) (cur : Cursor)
    (chunkSize r : Nat) : Option (Nat × Cursor) :=
  if r < chunkSize then (gcsCoreRewind action cur.idx cur.ptr (chunkSize - r)).map (r, ·)
  else some (fragLen, cur)

/-- One pass of the loop of `gcs_core_send` with a header of `hdrSize`
    bytes: the message the backend took, if it took any, and how the pass
    ends.  `none` is a failed assertion or a read past the last piece. -/
def gcsCoreSendStep (action : List (List UInt8)) (backend : Nat → Nat → Int) (hdrSize : Nat)
    (s : SendState) : Option (List (List UInt8) × SendPass) := do
  let chunkSize := min s.actSize s.fragLen
  let (chunk, cur) ← gcsCoreGather action action.length s.cur chunkSize
  let sendSize := hdrSize + chunkSize
  let ret := backend s.calls sendSize
  let msgs := if 0 < ret then [(s.hdr ++ chunk).take ret.toNat] else []
  if (hdrSize : Int) < ret then
    -- `assert (ret <= send_size)`
    if (sendSize : Int) < ret then none
    else
      let r := ret.toNat - hdrSize
      let (fragLen, cur) ← gcsCoreSendAdjust action s.fragLen cur chunkSize r
      let s' : SendState :=
        { actSize := s.actSize - r, sent := s.sent + r, fragLen, hdr := s.hdr, cur,
          calls := s.calls + 1 }
      if s'.actSize = 0 then return (msgs, .sent s'.sent)
      else
        let (hdr, fragNo) := gcsActProtoInc s.hdr
        -- a frag_no that wraps to 0 leaves the loop with bytes still to
        -- send: `assert (0 == act_size)`
        if fragNo = 0 then none
        else return (msgs, .again { s' with hdr })
  else
    -- the backend took no more than the header
    return (msgs, .failed (if 0 ≤ ret then -errnoEnotrecoverable else ret))

/-- The loop of `gcs_core_send`, for at most `fuel` passes: the messages
    the backend took, and what was sent or the error. -/
def gcsCoreSendLoop (action : List (List UInt8)) (backend : Nat → Nat → Int) (hdrSize : Nat) :
    Nat → SendState → Option (List (List UInt8) × Except Int Nat)
  | 0, _ => none
  | fuel + 1, s => do
    let (msgs, pass) ← gcsCoreSendStep action backend hdrSize s
    match pass with
    | .again s' => (gcsCoreSendLoop action backend hdrSize fuel s').map fun r => (msgs ++ r.1, r.2)
    | .sent n => some (msgs, .ok n)
    | .failed err => some (msgs, .error err)

/-- What `gcs_core_send` leaves: the messages the backend took, the
    return value and the core's `send_act_no`. -/
structure CoreSendOut where
  msgs : List (List UInt8)
  ret : Int
  sendActNo : Int
  deriving DecidableEq, Repr

/-- The header `gcs_core_send` fills in for an action: its id, size and
    type, fragment 0, the core's protocol version. -/
def coreSendFrag (actId : Int) (actSize : Nat) (actType : ActType) (protoVer : Int) :
    ActFrag UInt8 :=
  { actId, actSize, frag := [], fragNo := 0, actType, protoVer }

/-- `gcs_core_send` of `action`, `actSize` bytes of type `actType`, by a
    core at protocol version `protoVer` whose next action id is
    `sendActNo` and whose send buffer is `sendBuf`.  Every pass sends at
    least one byte, so `actSize + 1` passes are enough. -/
def gcsCoreSend (action : List (List UInt8)) (actSize : Nat) (actType : ActType)
    (sendActNo protoVer : Int) (sendBuf : List UInt8) (backend : Nat → Nat → Int) :
    Option CoreSendOut :=
  let hdrSize := gcsActProtoHdrSize protoVer
  -- `assert (act_size > 0)`; the core's version is always one the
  -- header protocol supports
  if actSize = 0 ∨ hdrSize < 0 then none
  else
    let (buf, fragLen) := gcsActProtoWrite (coreSendFrag sendActNo actSize actType protoVer) sendBuf
    match action[0]? with
    | none => none
    | some piece =>
      let s : SendState :=
        { actSize, sent := 0, fragLen, hdr := buf.take hdrSize.toNat, cur := ⟨0, 0, piece.length⟩,
          calls := 0 }
      (gcsCoreSendLoop action backend hdrSize.toNat (actSize + 1) s).map fun r =>
        match r.2 with
        | .ok n => { msgs := r.1, ret := n, sendActNo := sendActNo + 1 }
        | .error err => { msgs := r.1, ret := err, sendActNo }

/-! ## §3. The cursor walks the concatenation -/

section Cursor

variable {action : List (List UInt8)}

/-- The cursor's position in the concatenation of the pieces. -/
def Cursor.pos (action : List (List UInt8)) (c : Cursor) : Nat :=
  (action.take c.idx).flatten.length + c.ptr

/-- A cursor on piece `idx` of the action, `left` counting the rest of
    the piece. -/
def Cursor.Ok (action : List (List UInt8)) (c : Cursor) : Prop :=
  ∃ piece, action[c.idx]? = some piece ∧ c.ptr + c.left = piece.length

/-- The concatenation from the cursor on: the rest of its piece, then the
    pieces after it. -/
theorem Cursor.drop_pos {c : Cursor} {piece : List UInt8} (hp : action[c.idx]? = some piece)
    (hlen : c.ptr + c.left = piece.length) :
    action.flatten.drop (c.pos action) = piece.drop c.ptr ++ (action.drop (c.idx + 1)).flatten :=
  drop_flatten_eq action piece hp (by omega)

/-- The rest of the cursor's piece ends where the pieces up to it do. -/
theorem Cursor.pos_add_left {c : Cursor} {piece : List UInt8} (hp : action[c.idx]? = some piece)
    (hlen : c.ptr + c.left = piece.length) :
    c.pos action + c.left = (action.take (c.idx + 1)).flatten.length := by
  rw [length_flatten_take_succ action piece hp, Cursor.pos]
  omega

/-- Taking `n ≥ A.length` bytes of `A ++ B` takes all of `A`. -/
theorem take_append_of_length_le {A B : List UInt8} {n : Nat} (h : A.length ≤ n) :
    (A ++ B).take n = A ++ B.take (n - A.length) := by
  rw [List.take_append, List.take_of_length_le h]

/-- **The gather loop copies the next bytes of the concatenation.**  From
    a cursor on a piece, with enough fuel to reach the last piece and
    enough bytes left, gathering `toCopy` bytes returns the next `toCopy`
    bytes of the concatenation and a cursor that far on.  Induction on
    the fuel, one piece per step. -/
theorem gcsCoreGather_spec : ∀ (fuel : Nat) (c : Cursor) (toCopy : Nat), c.Ok action →
    action.length ≤ fuel + c.idx + 1 → c.pos action + toCopy ≤ action.flatten.length →
    ∃ c', gcsCoreGather action fuel c toCopy =
        some ((action.flatten.drop (c.pos action)).take toCopy, c') ∧
      c'.Ok action ∧ c'.pos action = c.pos action + toCopy
  | fuel, c, toCopy, ⟨piece, hp, hlen⟩, hfuel, hcopy => by
    have hdrop := Cursor.drop_pos hp hlen
    have hget : action.getD c.idx [] = piece := by simp [hp]
    have hrest : (piece.drop c.ptr).length = c.left := by simp; omega
    unfold gcsCoreGather
    by_cases h0 : toCopy = 0
    · -- nothing to copy
      subst h0
      exact ⟨c, by simp, ⟨piece, hp, hlen⟩, rfl⟩
    by_cases hle : toCopy ≤ c.left
    · -- the bytes are all in the current piece
      rw [if_neg h0, if_pos hle, hget, hdrop, List.take_append_of_le_length (by omega)]
      exact ⟨_, rfl, ⟨piece, hp, by simp only; omega⟩, by simp only [Cursor.pos]; omega⟩
    · -- copy the rest of the piece and go on from the start of the next one
      rw [if_neg h0, if_neg hle]
      have hend := Cursor.pos_add_left hp hlen
      have hlt : c.idx + 1 < action.length :=
        lt_length_of_length_flatten_take_lt action (by omega)
      have hp' := List.getElem?_eq_getElem hlt
      cases fuel with
      | zero => omega
      | succ fuel =>
        rw [hp']
        dsimp only
        have hpos' : (⟨c.idx + 1, 0, action[c.idx + 1].length⟩ : Cursor).pos action =
            c.pos action + c.left := by
          rw [hend, Cursor.pos]
          rfl
        obtain ⟨c', hg, hok, hpos⟩ := gcsCoreGather_spec fuel
          ⟨c.idx + 1, 0, action[c.idx + 1].length⟩ (toCopy - c.left)
          ⟨_, hp', by simp⟩ (by simp only; omega) (by omega)
        -- from the next piece on, the concatenation is what follows this piece
        have hnext : action.flatten.drop (c.pos action + c.left) =
            (action.drop (c.idx + 1)).flatten := by
          rw [← List.drop_drop, hdrop, List.drop_left' hrest]
        rw [hg, Option.map_some, hget, hpos', hnext, hdrop, take_append_of_length_le (by omega),
          List.take_of_length_le (by omega), hrest]
        exact ⟨c', rfl, hok, by omega⟩

/-- **The rewind loop moves the cursor back along the concatenation.**
    From offset `ptrdiff` of a piece, moving back no further than the
    start of the action, the cursor lands `moveBack` bytes earlier, on a
    piece.  Induction on the piece index, one piece back per step. -/
theorem gcsCoreRewind_spec : ∀ (idx ptrdiff moveBack : Nat) {piece : List UInt8},
    action[idx]? = some piece → ptrdiff ≤ piece.length →
    moveBack ≤ (action.take idx).flatten.length + ptrdiff →
    ∃ c', gcsCoreRewind action idx ptrdiff moveBack = some c' ∧ c'.Ok action ∧
      c'.pos action = (action.take idx).flatten.length + ptrdiff - moveBack
  | idx, ptrdiff, moveBack, piece, hp, hle, hback => by
    unfold gcsCoreRewind
    by_cases hin : moveBack ≤ ptrdiff
    · -- the cursor stays in this piece
      have hget : action.getD idx [] = piece := by simp [hp]
      rw [if_pos hin, hget]
      refine ⟨_, rfl, ⟨piece, hp, ?_⟩, ?_⟩
      · dsimp only
        omega
      · simp only [Cursor.pos]
        omega
    · rw [if_neg hin]
      cases idx with
      | zero => simp at hback; omega
      | succ i =>
        -- back to the end of the piece before
        have hi : i < action.length := by
          have := (List.getElem?_eq_some_iff.mp hp).1
          omega
        have hp' := List.getElem?_eq_getElem hi
        have hget : action.getD i [] = action[i] := by simp [hp']
        have hlen := length_flatten_take_succ action _ hp'
        dsimp only
        rw [hget]
        obtain ⟨c', hrw, hok, hpos⟩ :=
          gcsCoreRewind_spec i action[i].length (moveBack - ptrdiff) hp' (Nat.le_refl _) (by omega)
        exact ⟨c', hrw, hok, by omega⟩

end Cursor

/-! ## §4. The loop sends the whole action -/

/-- The header of fragment `k` of the action whose header `frg` is
    written into the send buffer `buf`. -/
def fragHdr (frg : ActFrag UInt8) (buf : List UInt8) (k : Nat) : List UInt8 :=
  (gcsActProtoWrite { frg with fragNo := k } buf).1.take protoDataOffset

/-- The messages of the slices `cs`, numbered from `k`: each the header of
    its fragment followed by its slice. -/
def fragMsgs (hdr : Nat → List UInt8) (k : Nat) : List (List UInt8) → List (List UInt8)
  | [] => []
  | c :: cs => (hdr k ++ c) :: fragMsgs hdr (k + 1) cs

/-- A backend that takes more than the header of every message longer
    than the header, and no more than the message. -/
def BackendOk (hdrSize : Nat) (backend : Nat → Nat → Int) : Prop :=
  ∀ k n, hdrSize < n → (hdrSize : Int) < backend k n ∧ backend k n ≤ n

theorem length_fragHdr (frg : ActFrag UInt8) {buf : List UInt8}
    (hbuf : protoDataOffset ≤ buf.length) (k : Nat) :
    (fragHdr frg buf k).length = protoDataOffset := by
  have h17 : 17 ≤ buf.length := by unfold protoDataOffset at hbuf; omega
  simp [fragHdr, length_gcsActProtoWrite _ h17, hbuf]

theorem gcsActProtoInc_fragHdr (frg : ActFrag UInt8) (buf : List UInt8) {k : Nat}
    (hk : k + 1 < 2 ^ 32) :
    gcsActProtoInc (fragHdr frg buf k) = (fragHdr frg buf (k + 1), k + 1) :=
  gcsActProtoInc_write { frg with fragNo := k } buf hk

section Loop

variable {action : List (List UInt8)} {backend : Nat → Nat → Int}

/-- The loop's variables between passes, `k` messages into the action
    whose header `frg` was written into `buf`: what was sent and what is
    left make the action, the cursor stands on the first unsent byte, the
    header is that of fragment `k`, and every message so far carried a
    byte. -/
structure SendState.Inv (action : List (List UInt8)) (frg : ActFrag UInt8) (buf : List UInt8)
    (k : Nat) (s : SendState) : Prop where
  sent_add : s.sent + s.actSize = action.flatten.length
  actSize_pos : 0 < s.actSize
  cur_ok : s.cur.Ok action
  pos_eq : s.cur.pos action = s.sent
  hdr_eq : s.hdr = fragHdr frg buf k
  fragLen_pos : 0 < s.fragLen
  calls_eq : s.calls = k
  k_le : k ≤ s.sent

/-- After a send of `r` bytes of a gathered chunk, the cursor is back on
    the first byte not sent and the next chunk has room for a byte. -/
theorem gcsCoreSendAdjust_spec {cur : Cursor} {sent chunkSize r fragLen : Nat}
    (hok : cur.Ok action) (hpos : cur.pos action = sent + chunkSize) (hrc : r ≤ chunkSize)
    (hr : 0 < r) (hfl : 0 < fragLen) :
    ∃ fragLen' cur', gcsCoreSendAdjust action fragLen cur chunkSize r = some (fragLen', cur') ∧
      cur'.Ok action ∧ cur'.pos action = sent + r ∧ 0 < fragLen' := by
  unfold gcsCoreSendAdjust
  by_cases hshort : r < chunkSize
  · obtain ⟨piece, hp, hlen⟩ := hok
    have hpos' := hpos
    unfold Cursor.pos at hpos'
    obtain ⟨c', hrw, hok', hpos''⟩ :=
      gcsCoreRewind_spec cur.idx cur.ptr (chunkSize - r) hp (by omega) (by omega)
    refine ⟨r, c', by rw [if_pos hshort, hrw]; rfl, hok', by omega, hr⟩
  · exact ⟨fragLen, cur, by rw [if_neg hshort], hok, by omega, hfl⟩

section Run

variable {frg : ActFrag UInt8} {buf : List UInt8}

/-- **One pass sends the next slice.**  From a state `k` messages into the
    action, the pass sends the header of fragment `k` and a non-empty
    slice of what is left, and either that slice ends the action or the
    loop goes round from a state `k + 1` messages in. -/
theorem gcsCoreSendStep_spec {k : Nat} {s : SendState} (hbuf : protoDataOffset ≤ buf.length)
    (hback : BackendOk protoDataOffset backend) (htotal : action.flatten.length < 2 ^ 32)
    (h : s.Inv action frg buf k) :
    ∃ c, c ≠ [] ∧ action.flatten.drop s.sent = c ++ action.flatten.drop (s.sent + c.length) ∧
      ((s.sent + c.length = action.flatten.length ∧
          gcsCoreSendStep action backend protoDataOffset s =
            some ([fragHdr frg buf k ++ c], .sent action.flatten.length)) ∨
        ∃ s', gcsCoreSendStep action backend protoDataOffset s =
            some ([fragHdr frg buf k ++ c], .again s') ∧
          s'.Inv action frg buf (k + 1) ∧ s'.sent = s.sent + c.length) := by
  obtain ⟨hsum, hpos0, hok, hposEq, hhdr, hfl, hcalls, hk⟩ := h
  -- the chunk: the next bytes of the action
  have hc1 : 0 < min s.actSize s.fragLen := by omega
  obtain ⟨cur, hg, hcok, hcpos⟩ := gcsCoreGather_spec action.length s.cur
    (min s.actSize s.fragLen) hok (by omega) (by omega)
  rw [hposEq] at hg hcpos
  -- what the backend took
  obtain ⟨hret1, hret2⟩ := hback s.calls (protoDataOffset + min s.actSize s.fragLen) (by omega)
  unfold gcsCoreSendStep
  dsimp only
  rw [hg, Option.bind_eq_bind, Option.bind_some]
  dsimp only
  generalize backend s.calls (protoDataOffset + min s.actSize s.fragLen) = ret at hret1 hret2 ⊢
  have hr1 : 0 < ret.toNat - protoDataOffset := by omega
  have hrc : ret.toNat - protoDataOffset ≤ min s.actSize s.fragLen := by omega
  obtain ⟨fragLen', cur', hnext, hok', hpos', hfl'⟩ := gcsCoreSendAdjust_spec hcok hcpos hrc hr1 hfl
  rw [if_pos hret1, if_neg (Int.not_lt.mpr hret2), hnext, Option.bind_eq_bind, Option.bind_some]
  dsimp only
  -- the message: the header and the first `r` bytes of the chunk
  have hmsg : (s.hdr ++ (action.flatten.drop s.sent).take (min s.actSize s.fragLen)).take ret.toNat =
      fragHdr frg buf k ++ (action.flatten.drop s.sent).take (ret.toNat - protoDataOffset) := by
    rw [hhdr, take_append_of_length_le (by rw [length_fragHdr frg hbuf]; omega),
      length_fragHdr frg hbuf, List.take_take, Nat.min_eq_left hrc]
  have hclen : ((action.flatten.drop s.sent).take (ret.toNat - protoDataOffset)).length =
      ret.toNat - protoDataOffset := by
    simp only [List.length_take, List.length_drop]
    omega
  rw [if_pos (by omega : (0 : Int) < ret), hmsg]
  refine ⟨(action.flatten.drop s.sent).take (ret.toNat - protoDataOffset), ?_, ?_, ?_⟩
  · exact List.ne_nil_of_length_pos (by omega)
  · rw [hclen, ← List.drop_drop, List.take_append_drop]
  · rw [hclen]
    by_cases hdone : s.actSize - (ret.toNat - protoDataOffset) = 0
    · -- the last message
      left
      rw [if_pos hdone]
      exact ⟨by omega, by rw [show s.sent + (ret.toNat - protoDataOffset) = action.flatten.length by omega]; rfl⟩
    · -- more to send: the header moves on to the next fragment
      right
      rw [if_neg hdone, hhdr, gcsActProtoInc_fragHdr frg buf (by omega)]
      dsimp only
      rw [if_neg (by omega)]
      exact ⟨_, rfl, ⟨by dsimp only; omega, by dsimp only; omega, hok', hpos', rfl, hfl',
        by dsimp only; omega, by dsimp only; omega⟩, rfl⟩

/-- **The loop sends the rest of the action.**  From a state `k` messages
    into the action, with more passes than bytes left, the loop returns
    the action's size, having sent the messages of slices that cut what
    was left.  Induction on the fuel, one pass per step. -/
theorem gcsCoreSendLoop_spec (hbuf : protoDataOffset ≤ buf.length)
    (hback : BackendOk protoDataOffset backend) (htotal : action.flatten.length < 2 ^ 32) :
    ∀ (fuel k : Nat) (s : SendState), s.Inv action frg buf k → s.actSize < fuel →
      ∃ cs, IsSlicing (action.flatten.drop s.sent) cs ∧
        gcsCoreSendLoop action backend protoDataOffset fuel s =
          some (fragMsgs (fragHdr frg buf) k cs, .ok action.flatten.length)
  | 0, _, _, _, hfuel => absurd hfuel (Nat.not_lt_zero _)
  | fuel + 1, k, s, h, hfuel => by
    obtain ⟨c, hc, hsplit, ⟨hend, hstep⟩ | ⟨s', hstep, h', hsent⟩⟩ :=
      gcsCoreSendStep_spec hbuf hback htotal h
    · -- the last pass: its slice is all that was left
      have hrest : action.flatten.drop s.sent = c := by
        rw [hsplit, hend, List.drop_length, List.append_nil]
      refine ⟨[c], by rw [hrest]; exact isSlicing_singleton hc, ?_⟩
      simp only [gcsCoreSendLoop, hstep, Option.bind_eq_bind, Option.bind_some]
      rfl
    · -- round again from fewer bytes left
      have hc1 : 0 < c.length := List.length_pos_of_ne_nil hc
      have hsum := h.sent_add
      have hsum' := h'.sent_add
      obtain ⟨cs, hcs, hloop⟩ := gcsCoreSendLoop_spec hbuf hback htotal fuel (k + 1) s' h' (by omega)
      refine ⟨c :: cs, ?_, ?_⟩
      · rw [hsplit, ← hsent]
        exact hcs.cons hc
      · simp only [gcsCoreSendLoop, hstep, hloop, Option.bind_eq_bind, Option.bind_some]
        rfl

end Run

end Loop

/-! ## §5. The round trip -/

/-- **`gcs_core_send` sends the whole action.**  An action of more than
    zero and fewer than `2^32` bytes, sent at protocol version 0 through a
    send buffer with room for a byte after the header, to a backend that
    takes more than the header of every message: it goes out as the
    messages of slices that cut it, the call returns its size and
    `send_act_no` moves on. -/
theorem gcsCoreSend_spec (action : List (List UInt8)) (actType : ActType) (actId : Int)
    {sendBuf : List UInt8} {backend : Nat → Nat → Int} (hsize : 0 < action.flatten.length)
    (htotal : action.flatten.length < 2 ^ 32) (hbuf : protoDataOffset < sendBuf.length)
    (hback : BackendOk protoDataOffset backend) :
    ∃ cs, IsSlicing action.flatten cs ∧
      gcsCoreSend action action.flatten.length actType actId 0 sendBuf backend =
        some { msgs := fragMsgs (fragHdr (coreSendFrag actId action.flatten.length actType 0)
                  sendBuf) 0 cs,
               ret := action.flatten.length, sendActNo := actId + 1 } := by
  -- the first piece, where the cursor starts
  obtain ⟨piece, hp⟩ : ∃ piece, action[0]? = some piece := by
    cases action with
    | nil => simp at hsize
    | cons p ps => exact ⟨p, rfl⟩
  have hhdr : gcsActProtoHdrSize 0 = protoDataOffset := rfl
  have hinv : SendState.Inv action (coreSendFrag actId action.flatten.length actType 0) sendBuf 0
      { actSize := action.flatten.length, sent := 0,
        fragLen := sendBuf.length - protoDataOffset,
        hdr := fragHdr (coreSendFrag actId action.flatten.length actType 0) sendBuf 0,
        cur := ⟨0, 0, piece.length⟩, calls := 0 } :=
    { sent_add := by simp
      actSize_pos := hsize
      cur_ok := ⟨piece, hp, by simp⟩
      pos_eq := by simp [Cursor.pos]
      hdr_eq := rfl
      fragLen_pos := show 0 < sendBuf.length - protoDataOffset by omega
      calls_eq := rfl
      k_le := Nat.le_refl 0 }
  obtain ⟨cs, hcs, hloop⟩ := gcsCoreSendLoop_spec (Nat.le_of_lt hbuf) hback htotal
    (action.flatten.length + 1) 0 _ hinv (Nat.lt_succ_self _)
  refine ⟨cs, by simpa using hcs, ?_⟩
  have hcond : ¬(action.flatten.length = 0 ∨ gcsActProtoHdrSize 0 < 0) := by
    rw [hhdr]
    omega
  unfold gcsCoreSend
  rw [if_neg hcond, hp]
  exact congrArg (Option.map _) hloop

/-- The messages of slices, numbered from `k`, read back as the fragments
    of the action with those numbers, while the header's fields are in
    range.  Induction on the slices. -/
theorem map_read_fragMsgs (frg : ActFrag UInt8) {buf : List UInt8}
    (hbuf : protoDataOffset ≤ buf.length) (hid0 : 0 ≤ frg.actId) (hid : frg.actId < 2 ^ 56)
    (hsize : frg.actSize ≤ gcsMaxActSize) (hpv : frg.protoVer = 0) :
    ∀ (k : Nat) (cs : List (List UInt8)), k + cs.length ≤ 2 ^ 32 →
      (fragMsgs (fragHdr frg buf) k cs).map gcsActProtoRead = (actFrags frg k cs).map .ok
  | _, [], _ => rfl
  | k, c :: cs, hk => by
    have hk' : k < 2 ^ 32 := by simp at hk; omega
    have hok : ActFrag.HdrOk { frg with fragNo := k } := ⟨hid0, hid, hsize, hk', hpv⟩
    simp only [fragMsgs, actFrags, List.map_cons]
    rw [fragHdr, gcsActProtoRead_write _ hok hbuf c,
      map_read_fragMsgs frg hbuf hid0 hid hsize hpv (k + 1) cs (by simp at hk; omega)]
    simp [hpv]

/-- **The action fragmentation round trip.**  An action of one byte up to
    `GCS_MAX_ACT_SIZE`, in any vector of pieces, with an act_id in
    `[0, 2^56)`, sent through a send buffer with room for a byte after the
    header, to a backend that takes more than the header of every message
    and no more than the message: `gcs_core_send` returns the action's size
    and moves `send_act_no` on; its messages read back as the action's
    fragments, with its act_id, act_size and type and numbered 0, 1, 2, …,
    each carrying a non-empty slice of the action; and a defragmenter fed
    them in order takes in every fragment but the last and hands up the
    whole action with the last. -/
theorem gcs_core_send_round_trip (action : List (List UInt8)) (actType : ActType) (actId : Int)
    (sendBuf : List UInt8) (backend : Nat → Nat → Int) (isLocal : Bool)
    (hsize : 0 < action.flatten.length) (hmax : action.flatten.length ≤ gcsMaxActSize)
    (hid0 : 0 ≤ actId) (hid : actId < 2 ^ 56) (hbuf : protoDataOffset < sendBuf.length)
    (hback : BackendOk protoDataOffset backend) :
    ∃ out cs, gcsCoreSend action action.flatten.length actType actId 0 sendBuf backend = some out ∧
      out.ret = action.flatten.length ∧ out.sendActNo = actId + 1 ∧
      IsSlicing action.flatten cs ∧
      out.msgs.map gcsActProtoRead =
        (actFrags (coreSendFrag actId action.flatten.length actType 0) 0 cs).map .ok ∧
      (gcsDefragInit.handleFrags isLocal
          (actFrags (coreSendFrag actId action.flatten.length actType 0) 0 cs)).2 =
        List.replicate (cs.length - 1) .cont ++ [.full action.flatten] := by
  have htotal : action.flatten.length < 2 ^ 32 := by unfold gcsMaxActSize at hmax; omega
  obtain ⟨cs, hcs, hsend⟩ := gcsCoreSend_spec action actType actId hsize htotal hbuf hback
  refine ⟨_, cs, hsend, rfl, rfl, hcs, ?_, ?_⟩
  · -- the sender's messages read back as the fragments
    have hlen := hcs.length_le
    exact map_read_fragMsgs _ (Nat.le_of_lt hbuf) hid0 hid hmax rfl 0 cs (by omega)
  · -- the defragmenter reassembles them
    have hne : cs ≠ [] := hcs.ne_nil (List.ne_nil_of_length_pos hsize)
    rw [handleFrags_actFrags _ isLocal gcsDefragInit_wf rfl cs hcs.2 hne (by rw [hcs.1]; rfl), hcs.1]

/-- The round trip on three one-byte pieces, where the backend takes only
    one byte of the first message's three: the cursor is moved back across
    a piece and every later message carries one byte. -/
theorem gcs_core_send_round_trip_short_send :
    ∃ out cs, gcsCoreSend [[1], [2], [3]] ([[1], [2], [3]] : List (List UInt8)).flatten.length
        .tordered 1 0 (List.replicate 23 0) (fun k n => if k = 0 then 21 else n) = some out ∧
      out.ret = ([[1], [2], [3]] : List (List UInt8)).flatten.length ∧ out.sendActNo = 1 + 1 ∧
      IsSlicing ([[1], [2], [3]] : List (List UInt8)).flatten cs ∧
      out.msgs.map gcsActProtoRead =
        (actFrags (coreSendFrag 1 ([[1], [2], [3]] : List (List UInt8)).flatten.length .tordered 0) 0 cs).map .ok ∧
      (gcsDefragInit.handleFrags false
          (actFrags (coreSendFrag 1 ([[1], [2], [3]] : List (List UInt8)).flatten.length .tordered 0) 0 cs)).2 =
        List.replicate (cs.length - 1) .cont ++ [.full ([[1], [2], [3]] : List (List UInt8)).flatten] :=
  gcs_core_send_round_trip [[1], [2], [3]] .tordered 1 (List.replicate 23 0)
    (fun k n => if k = 0 then 21 else n) false (by decide) (by decide) (by decide) (by decide)
    (by decide) (fun k n hn => by unfold protoDataOffset at hn ⊢; dsimp only; split <;> omega)

end Galera.Gcs
