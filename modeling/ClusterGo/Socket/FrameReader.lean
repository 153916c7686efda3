import ClusterGo.Lib.Framing
import ClusterGo.Rpc.Bytes

/-!
# The frame reader

`frameReader` of `socket/socket.go` collects the bytes of a connection in a
buffer and cuts payloads out of it.  The bytes from `r` to `w` are received
and not yet handed out.  Both positions stay inside the buffer, and the
buffer has room for a length, which the structure carries as proofs.

One round of the loop in `recv` is `parse`: it returns a payload or an
error, or makes room and goes on to read.  `read` is what `conn.Read` then
does with the bytes that it delivers.

The proofs look at a reader through `unread`.  `parse_spec` says what a
round does in terms of it, and `unread_fill` what a read does.
-/

namespace ClusterGo.Socket

open BigEndian Rpc

def headLen : Nat := 4

/-- `frameReader`. -/
structure FrameReader where
  buf : Bytes
  w : Nat
  r : Nat
  maxSize : Int
  r_le_w : r ≤ w
  w_le : w ≤ buf.length
  head_le : headLen ≤ buf.length

/-- The reader that `recvloop` starts with. -/
def newFrameReader (maxSize : Int) : FrameReader where
  buf := List.replicate 4096 0
  w := 0
  r := 0
  maxSize := maxSize
  r_le_w := Nat.le_refl 0
  w_le := Nat.zero_le _
  head_le := by
    rw [List.length_replicate]
    decide

namespace FrameReader

/-- The bytes that are received and not yet handed out. -/
def unread (fr : FrameReader) : Bytes := (fr.buf.drop fr.r).take (fr.w - fr.r)

theorem unread_length (fr : FrameReader) : fr.unread.length = fr.w - fr.r := by
  have := fr.w_le
  rw [unread, List.length_take, List.length_drop]
  omega

/-! ## Moves of the buffer -/

/-- Hand out `n` bytes, and start over at the front when nothing is left. -/
def advance (fr : FrameReader) (n : Nat) (h : n ≤ fr.w - fr.r) : FrameReader :=
  if fr.r + n = fr.w then
    { fr with r := 0, w := 0, r_le_w := Nat.le_refl 0, w_le := Nat.zero_le _ }
  else { fr with r := fr.r + n, r_le_w := by have := fr.r_le_w; omega }

/-- `copy(fr.buf, fr.buf[fr.r:fr.w])` with the positions moved along. -/
def compact (fr : FrameReader) : FrameReader where
  buf := fr.unread ++ fr.buf.drop (fr.w - fr.r)
  w := fr.w - fr.r
  r := 0
  maxSize := fr.maxSize
  r_le_w := Nat.zero_le _
  w_le := by
    rw [List.length_append, fr.unread_length]
    omega
  head_le := by
    have := fr.head_le
    have := fr.w_le
    rw [List.length_append, fr.unread_length, List.length_drop]
    omega

/-- A new buffer for a frame with a payload of the given size.  It starts
with the unread bytes. -/
def grow (fr : FrameReader) (payload : Nat) : FrameReader where
  buf := fr.unread ++ List.replicate (payload + headLen - fr.unread.length) 0
  w := fr.w - fr.r
  r := 0
  maxSize := fr.maxSize
  r_le_w := Nat.zero_le _
  w_le := by
    rw [List.length_append, fr.unread_length]
    omega
  head_le := by
    rw [List.length_append, List.length_replicate]
    omega

/-- The bytes that `conn.Read(fr.buf[fr.w:])` delivers. -/
def fill (fr : FrameReader) (chunk : Bytes) : FrameReader where
  buf := fr.buf.take fr.w ++ chunk ++ fr.buf.drop (fr.w + chunk.length)
  w := fr.w + chunk.length
  r := fr.r
  maxSize := fr.maxSize
  r_le_w := Nat.le_trans fr.r_le_w (Nat.le_add_right _ _)
  w_le := by
    have := fr.w_le
    rw [List.length_append, List.length_append, List.length_take, List.length_drop]
    omega
  head_le := by
    have := fr.w_le
    have := fr.head_le
    rw [List.length_append, List.length_append, List.length_take, List.length_drop]
    omega

/-! ## One round of the loop -/

inductive Parsed where
  | packet (payload : Bytes) (fr : FrameReader)
  | error (text : String)
  | needRead (fr : FrameReader)

def parse (fr : FrameReader) : Parsed :=
  let unpackSize := fr.w - fr.r
  if unpackSize ≥ headLen then
    let payload := decode ((fr.buf.drop fr.r).take 4)
    let totalSize := payload + headLen
    if payload = 0 then .error "zero payload"
    else if totalSize > fr.maxSize then .error ("packet too large:" ++ toString totalSize)
    else if h : totalSize ≤ unpackSize then
      .packet ((fr.buf.drop (fr.r + headLen)).take payload) (fr.advance totalSize h)
    else if totalSize > fr.buf.length then .needRead (fr.grow payload)
    else if fr.r > 0 then .needRead fr.compact
    else .needRead fr
  else if fr.r > 0 then .needRead fr.compact
  else .needRead fr

/-- A read of `k` bytes from a connection that holds the bytes `wire`. -/
def read (fr : FrameReader) (k : Nat) (wire : Bytes) : Option FrameReader :=
  if 1 ≤ k ∧ k ≤ wire.length ∧ k ≤ fr.buf.length - fr.w then some (fr.fill (wire.take k))
  else none

/-! ## The unread bytes after each move -/

theorem unread_advance (fr : FrameReader) {n : Nat} (h : n ≤ fr.w - fr.r) :
    (fr.advance n h).unread = fr.unread.drop n := by
  have hr := fr.r_le_w
  unfold advance
  split_ifs with hall
  · have hn : fr.unread.length ≤ n := by
      rw [unread_length]
      omega
    rw [List.drop_of_length_le hn]
    rfl
  · show (fr.buf.drop (fr.r + n)).take (fr.w - (fr.r + n)) = fr.unread.drop n
    rw [unread, List.drop_take, List.drop_drop, Nat.sub_sub]

theorem unread_compact (fr : FrameReader) : fr.compact.unread = fr.unread := by
  have hlen : fr.w - fr.r = fr.unread.length := fr.unread_length.symm
  show ((fr.unread ++ fr.buf.drop (fr.w - fr.r)).drop 0).take (fr.w - fr.r - 0) = fr.unread
  rw [List.drop_zero, Nat.sub_zero, hlen, List.take_left]

theorem unread_grow (fr : FrameReader) (payload : Nat) :
    (fr.grow payload).unread = fr.unread := by
  have hlen : fr.w - fr.r = fr.unread.length := fr.unread_length.symm
  show ((fr.unread ++ List.replicate (payload + headLen - fr.unread.length) 0).drop 0).take
    (fr.w - fr.r - 0) = fr.unread
  rw [List.drop_zero, Nat.sub_zero, hlen, List.take_left]

theorem unread_fill (fr : FrameReader) (chunk : Bytes) :
    (fr.fill chunk).unread = fr.unread ++ chunk := by
  have hw := fr.w_le
  have hr := fr.r_le_w
  have hfront : (fr.buf.take fr.w).drop fr.r = fr.unread := by
    rw [List.drop_take]
    rfl
  have hlen : (fr.buf.take fr.w).length = fr.w := by
    rw [List.length_take]
    omega
  show ((fr.buf.take fr.w ++ chunk ++ fr.buf.drop (fr.w + chunk.length)).drop fr.r).take
    (fr.w + chunk.length - fr.r) = fr.unread ++ chunk
  rw [List.append_assoc, List.drop_append_of_le_length (by omega), hfront, ← List.append_assoc]
  refine List.take_left' ?_
  rw [List.length_append, unread_length]
  omega

/-! ## What a round does -/

/-- The unread bytes do not hold a whole frame. -/
def Incomplete (unread : Bytes) : Prop :=
  unread.length < 4 ∨ unread.length < decode (unread.take 4) + 4

/-- The result of a round, in terms of the unread bytes and the length that
they start with. -/
def ParseSpec (fr : FrameReader) : Parsed → Prop
  | .packet payload fr' =>
    let n := decode (fr.unread.take 4)
    n + 4 ≤ fr.unread.length ∧ payload = (fr.unread.drop 4).take n ∧
      fr'.unread = fr.unread.drop (n + 4) ∧ fr'.maxSize = fr.maxSize
  | .error _ =>
    4 ≤ fr.unread.length ∧ (decode (fr.unread.take 4) = 0 ∨
      (decode (fr.unread.take 4) + 4 : Nat) > fr.maxSize)
  | .needRead fr' =>
    fr'.unread = fr.unread ∧ Incomplete fr.unread ∧ fr'.w < fr'.buf.length ∧
      fr'.maxSize = fr.maxSize

theorem header_eq (fr : FrameReader) (h : 4 ≤ fr.w - fr.r) :
    (fr.buf.drop fr.r).take 4 = fr.unread.take 4 := by
  rw [unread, List.take_take, Nat.min_eq_left h]

/-- Compaction makes room when less than the whole buffer is unread. -/
theorem compact_spec (fr : FrameReader) (hroom : fr.w - fr.r < fr.buf.length)
    (hincomplete : Incomplete fr.unread) :
    ParseSpec fr (if fr.r > 0 then .needRead fr.compact else .needRead fr) := by
  have hr := fr.r_le_w
  have hw := fr.w_le
  split_ifs with hpos
  · refine ⟨unread_compact fr, hincomplete, ?_, rfl⟩
    show fr.w - fr.r < (fr.unread ++ fr.buf.drop (fr.w - fr.r)).length
    rw [List.length_append, unread_length, List.length_drop]
    omega
  · exact ⟨rfl, hincomplete, by omega, rfl⟩

theorem parse_spec (fr : FrameReader) : ParseSpec fr fr.parse := by
  have hlen := fr.unread_length
  have hw := fr.w_le
  unfold parse
  dsimp only
  by_cases hhead : fr.w - fr.r ≥ headLen
  · have hfour : 4 ≤ fr.w - fr.r := hhead
    rw [if_pos hhead, header_eq fr hfour]
    split_ifs with hzero hlarge hwhole hgrow
    · exact ⟨hlen ▸ hfour, Or.inl hzero⟩
    · exact ⟨hlen ▸ hfour, Or.inr hlarge⟩
    · refine ⟨hlen ▸ hwhole, ?_, unread_advance fr hwhole, ?_⟩
      · have hfits : decode (fr.unread.take 4) ≤ fr.w - fr.r - 4 := Nat.le_sub_of_add_le hwhole
        have hslice : fr.unread.drop 4 = (fr.buf.drop (fr.r + 4)).take (fr.w - fr.r - 4) := by
          rw [unread, List.drop_take, List.drop_drop]
        rw [hslice, List.take_take, Nat.min_eq_left hfits]
        rfl
      · unfold advance
        split_ifs <;> rfl
    · -- the frame is larger than the buffer
      have hpart : fr.unread.length < decode (fr.unread.take 4) + headLen :=
        hlen ▸ Nat.lt_of_not_le hwhole
      refine ⟨unread_grow fr _, Or.inr hpart, ?_, rfl⟩
      show fr.w - fr.r < (fr.unread ++
        List.replicate (decode (fr.unread.take 4) + headLen - fr.unread.length) 0).length
      rw [List.length_append, List.length_replicate]
      omega
    · have hpart : Incomplete fr.unread := Or.inr (hlen ▸ Nat.lt_of_not_le hwhole)
      have hspec := compact_spec fr (by omega) hpart
      rwa [if_pos ‹_›] at hspec
    · have hpart : Incomplete fr.unread := Or.inr (hlen ▸ Nat.lt_of_not_le hwhole)
      have hspec := compact_spec fr (by omega) hpart
      rwa [if_neg ‹_›] at hspec
  · have hshort : fr.w - fr.r < 4 := Nat.lt_of_not_le hhead
    have hbuf : 4 ≤ fr.buf.length := fr.head_le
    rw [if_neg hhead]
    exact compact_spec fr (by omega) (Or.inl (hlen ▸ hshort))

/-- A read adds what it delivers to the unread bytes. -/
theorem read_eq_some {fr fr' : FrameReader} {k : Nat} {wire : Bytes}
    (h : fr.read k wire = some fr') :
    1 ≤ k ∧ k ≤ wire.length ∧ fr'.unread = fr.unread ++ wire.take k ∧
      fr'.maxSize = fr.maxSize := by
  unfold read at h
  split_ifs at h with hk
  cases h
  exact ⟨hk.1, hk.2.1, unread_fill fr _, rfl⟩

/-- With room in the buffer and bytes on the wire a read is possible. -/
theorem read_one {fr : FrameReader} {wire : Bytes} (hroom : fr.w < fr.buf.length)
    (hwire : wire ≠ []) : (fr.read 1 wire).isSome := by
  have hlen : 1 ≤ wire.length := List.length_pos_iff.mpr hwire
  rw [read, if_pos ⟨Nat.le_refl 1, hlen, by omega⟩]
  rfl

end FrameReader

end ClusterGo.Socket
