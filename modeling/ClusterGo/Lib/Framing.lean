import ClusterGo.Lib.BigEndian

/-!
# Length-prefixed frames in a byte stream

A frame is a payload behind its length in four big-endian bytes.  A stream
is a concatenation of frames, and a reader sees a growing prefix of it.
The lemmas say what such a prefix tells: with four bytes it spells the
length of the first payload, and with the whole first frame it can be cut
into that frame and a prefix of the remaining stream.

`cut` is what a reader with a limit on the size of a frame gets out of any
bytes, frames or not.
-/

namespace Framing

open BigEndian

/-- A payload behind its length. -/
def frame (payload : List UInt8) : List UInt8 := encode 4 payload.length ++ payload

/-- The stream of a list of payloads. -/
def stream (payloads : List (List UInt8)) : List UInt8 := payloads.flatMap frame

@[simp] theorem frame_length (payload : List UInt8) :
    (frame payload).length = payload.length + 4 := by
  rw [frame, List.length_append, encode_length, Nat.add_comm]

@[simp] theorem stream_nil : stream [] = [] := rfl

@[simp] theorem stream_cons (payload : List UInt8) (payloads : List (List UInt8)) :
    stream (payload :: payloads) = frame payload ++ stream payloads := rfl

@[simp] theorem stream_append (ps qs : List (List UInt8)) :
    stream (ps ++ qs) = stream ps ++ stream qs := by
  simp [stream]

theorem frame_take (payload : List UInt8) :
    (frame payload).take 4 = encode 4 payload.length :=
  List.take_left' (encode_length 4 _)

theorem frame_drop (payload : List UInt8) : (frame payload).drop 4 = payload :=
  List.drop_left' (encode_length 4 _)

section Prefix

variable {payload rest seen unseen : List UInt8}

/-- Four bytes of the stream spell the length of the first payload. -/
theorem decode_header (hstream : seen ++ unseen = frame payload ++ rest)
    (hseen : 4 ≤ seen.length) (hpayload : payload.length < 256 ^ 4) :
    decode (seen.take 4) = payload.length := by
  have hfirst : (seen ++ unseen).take 4 = seen.take 4 := List.take_append_of_le_length hseen
  have hheader : (frame payload ++ rest).take 4 = encode 4 payload.length := by
    rw [List.take_append_of_le_length (by simp), frame_take]
  rw [← hfirst, hstream, hheader, decode_encode_of_lt hpayload]

/-- A prefix that covers the first frame starts with it. -/
theorem seen_eq_frame_append (hstream : seen ++ unseen = frame payload ++ rest)
    (hseen : payload.length + 4 ≤ seen.length) :
    seen = frame payload ++ seen.drop (payload.length + 4) := by
  have hfirst : (seen ++ unseen).take (payload.length + 4) = seen.take (payload.length + 4) :=
    List.take_append_of_le_length hseen
  have hframe : (frame payload ++ rest).take (payload.length + 4) = frame payload :=
    List.take_left' (frame_length payload)
  have htake : seen.take (payload.length + 4) = frame payload := by
    rw [← hfirst, hstream, hframe]
  calc seen = seen.take (payload.length + 4) ++ seen.drop (payload.length + 4) :=
        (List.take_append_drop _ _).symm
    _ = frame payload ++ seen.drop (payload.length + 4) := by rw [htake]

/-- The payload behind the header of a covered frame. -/
theorem payload_of_seen (hstream : seen ++ unseen = frame payload ++ rest)
    (hseen : payload.length + 4 ≤ seen.length) :
    (seen.drop 4).take payload.length = payload := by
  rw [seen_eq_frame_append hstream hseen, List.drop_append_of_le_length (by simp),
    frame_drop, List.take_left]

/-- Behind a covered frame the prefix goes on with the remaining stream. -/
theorem rest_of_seen (hstream : seen ++ unseen = frame payload ++ rest)
    (hseen : payload.length + 4 ≤ seen.length) :
    seen.drop (payload.length + 4) ++ unseen = rest := by
  rw [seen_eq_frame_append hstream hseen, List.append_assoc] at hstream
  exact List.append_cancel_left hstream

end Prefix

/-! ## Cutting a stream -/

/-- The payloads at the front of a byte stream, up to the first one that is
empty, too large for a frame of `maxSize` bytes, or not complete. -/
def cut (maxSize : Int) (b : List UInt8) : List (List UInt8) :=
  if b.length < 4 then []
  else
    let n := decode (b.take 4)
    if n = 0 ∨ ((n + 4 : Nat) : Int) > maxSize ∨ b.length < n + 4 then []
    else (b.drop 4).take n :: cut maxSize (b.drop (n + 4))
termination_by b.length
decreasing_by
  rw [List.length_drop]
  omega

variable {maxSize : Int}

theorem cut_of_length_lt {b : List UInt8} (h : b.length < 4) : cut maxSize b = [] := by
  rw [cut, if_pos h]

@[simp] theorem cut_nil : cut maxSize [] = [] := cut_of_length_lt (by decide)

/-- The length at the front spells a payload that the reader refuses or
waits for. -/
theorem cut_of_refused {b : List UInt8}
    (h : decode (b.take 4) = 0 ∨ ((decode (b.take 4) + 4 : Nat) : Int) > maxSize ∨
      b.length < decode (b.take 4) + 4) : cut maxSize b = [] := by
  rw [cut]
  split_ifs
  · rfl
  · exact if_pos h

theorem cut_of_complete {b : List UInt8} (hzero : decode (b.take 4) ≠ 0)
    (hmax : ((decode (b.take 4) + 4 : Nat) : Int) ≤ maxSize)
    (hlen : decode (b.take 4) + 4 ≤ b.length) :
    cut maxSize b = (b.drop 4).take (decode (b.take 4)) ::
      cut maxSize (b.drop (decode (b.take 4) + 4)) := by
  rw [cut, if_neg (by omega)]
  exact if_neg (by omega)

theorem cut_frame {payload : List UInt8} (hne : payload ≠ [])
    (hmax : ((payload.length + 4 : Nat) : Int) ≤ maxSize) (hlt : payload.length < 256 ^ 4)
    (rest : List UInt8) :
    cut maxSize (frame payload ++ rest) = payload :: cut maxSize rest := by
  have hlen : payload.length + 4 ≤ (frame payload ++ rest).length := by
    rw [List.length_append, frame_length]
    omega
  have hstream : frame payload ++ rest ++ [] = frame payload ++ rest := List.append_nil _
  have hn := decode_header hstream (by omega) hlt
  have hpos : payload.length ≠ 0 := fun h => hne (List.eq_nil_of_length_eq_zero h)
  have hrest := rest_of_seen hstream hlen
  rw [List.append_nil] at hrest
  rw [cut_of_complete (hn ▸ hpos) (hn ▸ hmax) (hn ▸ hlen), hn, payload_of_seen hstream hlen,
    hrest]

/-- Frames that fit come out of a stream as they went in. -/
theorem cut_stream_append {payloads : List (List UInt8)}
    (hfit : ∀ p ∈ payloads, p ≠ [] ∧ ((p.length + 4 : Nat) : Int) ≤ maxSize ∧ p.length < 256 ^ 4)
    (rest : List UInt8) :
    cut maxSize (stream payloads ++ rest) = payloads ++ cut maxSize rest := by
  induction payloads with
  | nil => rfl
  | cons p payloads ih =>
    rw [List.forall_mem_cons] at hfit
    obtain ⟨⟨hne, hmax, hlt⟩, hfit⟩ := hfit
    rw [stream_cons, List.append_assoc, cut_frame hne hmax hlt, ih hfit, List.cons_append]

/-- What is left of a stream when no more payload can be cut. -/
def residue (maxSize : Int) (b : List UInt8) : List UInt8 :=
  b.drop (stream (cut maxSize b)).length

theorem residue_stream_append {payloads : List (List UInt8)}
    (hfit : ∀ p ∈ payloads, p ≠ [] ∧ ((p.length + 4 : Nat) : Int) ≤ maxSize ∧ p.length < 256 ^ 4)
    {rest : List UInt8} (hrest : cut maxSize rest = []) :
    residue maxSize (stream payloads ++ rest) = rest := by
  rw [residue, cut_stream_append hfit, hrest, List.append_nil, List.drop_left]

/-- The stream starts with a length that is zero or too large. -/
def Refused (maxSize : Int) (b : List UInt8) : Prop :=
  4 ≤ b.length ∧
    (decode (b.take 4) = 0 ∨ ((decode (b.take 4) + 4 : Nat) : Int) > maxSize)

theorem Refused.cut_eq_nil {b : List UInt8} (h : Refused maxSize b) : cut maxSize b = [] :=
  cut_of_refused (h.2.imp_right Or.inl)

/-- What is cut out of a stream is neither empty nor larger than the limit
or than its length field can say. -/
theorem fits_of_mem_cut {b payload : List UInt8} (h : payload ∈ cut maxSize b) :
    payload ≠ [] ∧ ((payload.length + 4 : Nat) : Int) ≤ maxSize ∧ payload.length < 256 ^ 4 := by
  induction b using cut.induct maxSize with
  | case1 b hshort =>
    rw [cut_of_length_lt hshort] at h
    cases h
  | case2 b hlen n hrefused =>
    rw [cut_of_refused hrefused] at h
    cases h
  | case3 b hlen n hcomplete ih =>
    rw [not_or, not_or] at hcomplete
    obtain ⟨hzero, hmax, hwhole⟩ := hcomplete
    rw [cut_of_complete hzero (Int.not_lt.mp hmax) (Nat.not_lt.mp hwhole)] at h
    rcases List.mem_cons.mp h with rfl | h
    · have hlength : ((b.drop 4).take n).length = n := by
        rw [List.length_take, List.length_drop]
        omega
      have hlt := decode_lt (b.take 4)
      rw [List.length_take, Nat.min_eq_left (by omega)] at hlt
      refine ⟨fun hnil => hzero ?_, ?_, ?_⟩
      · rw [← hlength, hnil]
        rfl
      · rw [hlength]
        exact Int.not_lt.mp hmax
      · rw [hlength]
        exact hlt
    · exact ih h

end Framing
