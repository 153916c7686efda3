import ClusterGo.Lib.Guarded
import ClusterGo.Lib.Transition
import ClusterGo.Socket.Receive

/-!
# The frame reader and the reference parser

`FrameReader` carries the bounds of its positions as proofs.  Here the
reader is the record of the source, with integers that could be anything,
and `round` is one round of the loop in `recv` with every slice expression
checked.  A reader within bounds makes the same round as the model
(`round_raw`), so no slice is out of range.

`Recv` puts calls of `recv` one after the other.  The connection answers a
`Read` with some bytes, at least one and at most as many as there is room
for, or with an error, before which it may have delivered bytes.  What is
ghost is the list of all bytes that were delivered.

In every run the payloads that `recv` has returned are cut from the
delivered bytes by the reference parser `Framing.cut` (`recv_exact`): none
is missing when a `Read` is issued, an error about the format is returned
exactly at a length that is zero or too large, and every `Read` is given
room.
-/

namespace ClusterGo.Socket

open BigEndian Framing Guarded Rpc Transition

/-! ## The reader of the source -/

/-- `frameReader` without its invariant. -/
structure RawReader where
  buf : Bytes
  w : Int
  r : Int
  maxSize : Int

inductive RawParsed where
  | packet (payload : Bytes) (fr : RawReader)
  | error (text : String)
  | needRead (fr : RawReader)

namespace RawReader

/-- `copy(fr.buf, fr.buf[fr.r:fr.w])` with the positions moved along. -/
def compact (fr : RawReader) : Option RawReader := do
  let old ← sliceInt fr.buf fr.r fr.w
  return { fr with buf := copy fr.buf old, w := fr.w - fr.r, r := 0 }

/-- A new buffer of `totalSize` bytes that starts with the unread ones. -/
def grow (fr : RawReader) (totalSize : Nat) : Option RawReader := do
  let old ← sliceInt fr.buf fr.r fr.w
  return { fr with buf := copy (List.replicate totalSize 0) old, w := fr.w - fr.r, r := 0 }

/-- One round of the loop in `recv`, up to the call of `Read`. -/
def round (fr : RawReader) : Option RawParsed :=
  let unpackSize := fr.w - fr.r
  if unpackSize ≥ headLen then do
    let head ← sliceInt fr.buf fr.r fr.buf.length
    let payload ← uint 4 head
    let totalSize := payload + headLen
    if payload = 0 then return .error "zero payload"
    else if totalSize > fr.maxSize then
      return .error ("packet too large:" ++ toString totalSize)
    else if totalSize ≤ unpackSize then do
      let r := fr.r + headLen
      let pkt ← sliceInt fr.buf r (r + payload)
      let r := r + payload
      return .packet pkt (if r = fr.w then { fr with r := 0, w := 0 } else { fr with r })
    else if totalSize > fr.buf.length then return .needRead (← fr.grow totalSize)
    else if fr.r > 0 then return .needRead (← fr.compact)
    else return .needRead { fr with w := fr.w - fr.r, r := 0 }
  else if fr.r > 0 then return .needRead (← fr.compact)
  else return .needRead fr

/-- `fr.buf[fr.w:]`, the slice that `Read` is given. -/
def room (fr : RawReader) : Option Bytes := sliceInt fr.buf fr.w fr.buf.length

/-- What a `Read` that delivers `chunk` leaves. -/
def fill (fr : RawReader) (chunk : Bytes) : RawReader :=
  { fr with
    buf := fr.buf.take fr.w.toNat ++ chunk ++ fr.buf.drop (fr.w.toNat + chunk.length)
    w := fr.w + chunk.length }

/-- The positions are in order and inside the buffer. -/
def InBounds (fr : RawReader) : Prop := 0 ≤ fr.r ∧ fr.r ≤ fr.w ∧ fr.w ≤ fr.buf.length

end RawReader

/-! ## A reader within bounds -/

/-- The reader without its proofs. -/
def FrameReader.raw (fr : FrameReader) : RawReader :=
  { buf := fr.buf, w := fr.w, r := fr.r, maxSize := fr.maxSize }

def FrameReader.Parsed.raw : FrameReader.Parsed → RawParsed
  | .packet payload fr => .packet payload fr.raw
  | .error text => .error text
  | .needRead fr => .needRead fr.raw

namespace FrameReader

theorem raw_inBounds (fr : FrameReader) : fr.raw.InBounds :=
  ⟨Int.natCast_nonneg _, Int.ofNat_le.mpr fr.r_le_w, Int.ofNat_le.mpr fr.w_le⟩

/-- `fr.buf[fr.r:fr.w]`. -/
theorem slice_unread (fr : FrameReader) : sliceInt fr.raw.buf fr.raw.r fr.raw.w = some fr.unread :=
  sliceInt_of_le fr.r_le_w fr.w_le

theorem sub_raw (fr : FrameReader) : fr.raw.w - fr.raw.r = ((fr.w - fr.r : Nat) : Int) := by
  have := fr.r_le_w
  show (fr.w : Int) - fr.r = _
  omega

theorem compact_raw (fr : FrameReader) : fr.raw.compact = some fr.compact.raw := by
  have hlen := fr.unread_length
  have hw := fr.w_le
  rw [RawReader.compact, slice_unread, sub_raw]
  have hcopy : copy fr.raw.buf fr.unread = fr.compact.raw.buf := by
    rw [copy_of_le (by show fr.unread.length ≤ fr.buf.length; omega), hlen]
    rfl
  rw [Option.bind_eq_bind, Option.bind_some, hcopy]
  rfl

theorem grow_raw (fr : FrameReader) {payload : Nat} (h : fr.unread.length ≤ payload + headLen) :
    fr.raw.grow (payload + headLen) = some (fr.grow payload).raw := by
  rw [RawReader.grow, slice_unread, sub_raw]
  have hcopy : copy (List.replicate (payload + headLen) 0) fr.unread =
      (fr.grow payload).raw.buf := by
    rw [copy_of_le (by rw [List.length_replicate]; exact h), List.drop_replicate]
    rfl
  rw [Option.bind_eq_bind, Option.bind_some, hcopy]
  rfl

/-- The word at the position `r`. -/
theorem head_raw (fr : FrameReader) (h : headLen ≤ fr.w - fr.r) :
    ∃ head, sliceInt fr.raw.buf fr.raw.r fr.raw.buf.length = some head ∧
      uint 4 head = some (decode ((fr.buf.drop fr.r).take 4)) := by
  have hw := fr.w_le
  have hlen : (fr.buf.drop fr.r).length = fr.buf.length - fr.r := List.length_drop
  have hslice := sliceInt_of_le (Nat.le_trans fr.r_le_w hw) (Nat.le_refl fr.buf.length)
  rw [List.take_of_length_le (Nat.le_of_eq hlen)] at hslice
  refine ⟨fr.buf.drop fr.r, hslice, uint_of_le ?_⟩
  rw [hlen]
  exact Nat.le_trans h (Nat.sub_le_sub_right hw _)

/-- `fr.buf[fr.r : fr.r+payload]` behind the length. -/
theorem packet_raw (fr : FrameReader) {payload : Nat} (h : payload + headLen ≤ fr.w - fr.r) :
    sliceInt fr.raw.buf (fr.raw.r + headLen) (fr.raw.r + headLen + payload) =
      some ((fr.buf.drop (fr.r + headLen)).take payload) := by
  have hr := fr.r_le_w
  have hw := fr.w_le
  have hslice := sliceInt_of_le (b := fr.buf) (Nat.le_add_right (fr.r + headLen) payload)
    (by omega)
  rw [Nat.add_sub_cancel_left] at hslice
  exact hslice

/-- The positions behind a payload. -/
theorem advance_raw (fr : FrameReader) {payload : Nat} (h : payload + headLen ≤ fr.w - fr.r) :
    (if fr.raw.r + headLen + payload = fr.raw.w then { fr.raw with r := 0, w := 0 }
      else { fr.raw with r := fr.raw.r + headLen + payload }) =
        (fr.advance (payload + headLen) h).raw := by
  have hsum : fr.raw.r + headLen + payload = ((fr.r + (payload + headLen) : Nat) : Int) := by
    show (fr.r : Int) + headLen + payload = _
    omega
  have hend : fr.raw.r + headLen + payload = fr.raw.w ↔ fr.r + (payload + headLen) = fr.w := by
    rw [hsum]
    exact Int.ofNat_inj
  unfold advance
  by_cases hall : fr.r + (payload + headLen) = fr.w
  · rw [if_pos (hend.mpr hall), if_pos hall]
    rfl
  · rw [if_neg (fun heq => hall (hend.mp heq)), if_neg hall, hsum]
    rfl

/-- Making room without a larger buffer. -/
theorem compact_or_stay_raw (fr : FrameReader) {same : RawReader}
    (hsame : fr.r = 0 → same = fr.raw) :
    (if fr.raw.r > 0 then return .needRead (← fr.raw.compact) else return .needRead same) =
      some (if fr.r > 0 then Parsed.needRead fr.compact else Parsed.needRead fr).raw := by
  have hpos : fr.raw.r > 0 ↔ fr.r > 0 := Int.ofNat_lt
  by_cases h : fr.r > 0
  · rw [if_pos (hpos.mpr h), if_pos h, compact_raw]
    rfl
  · rw [if_neg (fun hlt => h (hpos.mp hlt)), if_neg h, hsame (by omega)]
    rfl

/-- A reader within bounds makes the round of the model. -/
theorem round_raw (fr : FrameReader) : fr.raw.round = some fr.parse.raw := by
  have hlen := fr.unread_length
  have hmax : fr.raw.maxSize = fr.maxSize := rfl
  have hbuf : fr.raw.buf.length = fr.buf.length := rfl
  unfold RawReader.round parse
  dsimp only
  rw [sub_raw, hmax, hbuf]
  by_cases hhead : fr.w - fr.r ≥ headLen
  · obtain ⟨head, hslice, hword⟩ := fr.head_raw hhead
    rw [if_pos (Int.ofNat_le.mpr hhead), if_pos hhead, ← hbuf, hslice, Option.bind_eq_bind,
      Option.bind_some, hword, Option.bind_eq_bind, Option.bind_some, hbuf]
    generalize decode ((fr.buf.drop fr.r).take 4) = payload
    by_cases hzero : payload = 0
    · rw [if_pos hzero, if_pos hzero]
      rfl
    rw [if_neg hzero, if_neg hzero]
    by_cases hlarge : ((payload + headLen : Nat) : Int) > fr.maxSize
    · rw [if_pos hlarge, if_pos hlarge]
      rfl
    rw [if_neg hlarge, if_neg hlarge]
    by_cases hwhole : payload + headLen ≤ fr.w - fr.r
    · rw [if_pos (Int.ofNat_le.mpr hwhole), dif_pos hwhole, fr.packet_raw hwhole,
        Option.bind_some]
      exact congrArg (fun reader => some (RawParsed.packet _ reader)) (fr.advance_raw hwhole)
    rw [if_neg (fun h => hwhole (Int.ofNat_le.mp h)), dif_neg hwhole]
    by_cases hgrow : payload + headLen > fr.buf.length
    · rw [if_pos hgrow, if_pos hgrow, fr.grow_raw (by omega)]
      rfl
    rw [if_neg hgrow, if_neg hgrow]
    refine fr.compact_or_stay_raw fun hzero => ?_
    rw [raw, hzero, Nat.sub_zero]
    rfl
  · rw [if_neg (fun h => hhead (Int.ofNat_le.mp h)), if_neg hhead]
    exact fr.compact_or_stay_raw fun _ => rfl

theorem room_raw (fr : FrameReader) : fr.raw.room = some (fr.buf.drop fr.w) := by
  have hlen : (fr.buf.drop fr.w).length ≤ fr.buf.length - fr.w := Nat.le_of_eq List.length_drop
  have hslice := sliceInt_of_le fr.w_le (Nat.le_refl fr.buf.length)
  rw [List.take_of_length_le hlen] at hslice
  exact hslice

theorem fill_raw (fr : FrameReader) (chunk : Bytes) : fr.raw.fill chunk = (fr.fill chunk).raw :=
  rfl

/-- A reader that goes on to read has not seen a length that it refuses. -/
theorem not_refused_of_needRead {fr fr' : FrameReader} (h : fr.parse = .needRead fr') :
    ¬ Refused fr.maxSize fr.unread := by
  intro hrefused
  obtain ⟨hlen, hbad⟩ := hrefused
  have hhead : fr.w - fr.r ≥ headLen := fr.unread_length ▸ hlen
  unfold parse at h
  dsimp only at h
  rw [if_pos hhead, header_eq fr hhead] at h
  by_cases hzero : decode (fr.unread.take 4) = 0
  · rw [if_pos hzero] at h
    cases h
  · have hlarge : ((decode (fr.unread.take 4) + headLen : Nat) : Int) > fr.maxSize :=
      hbad.resolve_left hzero
    rw [if_neg hzero, if_pos hlarge] at h
    cases h

end FrameReader

/-! ## Calls of `recv` -/

/-- What a call of `recv` returned. -/
inductive Returned where
  | payload (b : Bytes)
  | formatError (text : String)
  | readError (text : String)

/-- Where a call of `recv` stands: at the top of its loop, or in a `Read`
with so much room. -/
inductive Phase where
  | parsing
  | reading (room : Nat)
  | panicked

/-- Calls of `recv` one after the other, with what they returned and the
bytes that the connection has delivered. -/
structure Recv where
  reader : RawReader
  phase : Phase := .parsing
  returned : List Returned := []
  delivered : Bytes := []

/-- A round of the loop, or the result of a `Read`: the bytes that it
delivered, and its error.  A failed `SetReadDeadline` is an error with no
bytes. -/
inductive RecvEvent where
  | round
  | read (chunk : Bytes) (err : Option String)

namespace Recv

/-- The reader that `recvloop` makes. -/
def start (maxSize : Int) : Recv :=
  { reader := { buf := List.replicate 4096 0, w := 0, r := 0, maxSize } }

def step (s : Recv) : RecvEvent → Option Recv
  | .round =>
    match s.phase with
    | .parsing =>
      match s.reader.round with
      | none => some { s with phase := .panicked }
      | some (.packet b reader) => some { s with reader, returned := s.returned ++ [.payload b] }
      | some (.error text) => some { s with returned := s.returned ++ [.formatError text] }
      | some (.needRead reader) =>
        match reader.room with
        | none => some { s with reader, phase := .panicked }
        | some room => some { s with reader, phase := .reading room.length }
    | _ => none
  | .read chunk err =>
    match s.phase with
    | .reading room =>
      -- what `Read` may answer: bytes that fit, and some bytes unless it fails
      if chunk.length ≤ room ∧ (err = none → 1 ≤ chunk.length) then
        some { s with
          reader := s.reader.fill chunk
          phase := .parsing
          returned := s.returned ++ err.toList.map .readError
          delivered := s.delivered ++ chunk }
      else none
    | _ => none

/-- The payloads among what was returned. -/
def payloadsOf (l : List Returned) : List Bytes :=
  l.filterMap fun
    | .payload b => some b
    | _ => none

def payloads (s : Recv) : List Bytes := payloadsOf s.returned

@[simp] theorem payloadsOf_append (l l' : List Returned) :
    payloadsOf (l ++ l') = payloadsOf l ++ payloadsOf l' := List.filterMap_append

@[simp] theorem payloadsOf_readError (err : Option String) :
    payloadsOf (err.toList.map .readError) = [] := by
  cases err <;> rfl

/-! ## The invariant -/

/-- The run is described by a reader within bounds: what was delivered are
the frames of the returned payloads and the unread bytes. -/
structure Tracks (maxSize : Int) (s : Recv) (fr : FrameReader) : Prop where
  reader_eq : s.reader = fr.raw
  maxSize_eq : fr.maxSize = maxSize
  delivered_eq : s.delivered = stream s.payloads ++ fr.unread
  fits : ∀ p ∈ s.payloads,
    p ≠ [] ∧ ((p.length + 4 : Nat) : Int) ≤ maxSize ∧ p.length < 256 ^ 4
  not_panicked : s.phase ≠ .panicked
  on_read : ∀ room, s.phase = .reading room →
    0 < room ∧ FrameReader.Incomplete fr.unread ∧ ¬ Refused maxSize fr.unread
  on_error : ∀ text, .formatError text ∈ s.returned →
    s.phase = .parsing ∧ Refused maxSize fr.unread

variable {maxSize : Int} {s t : Recv} {fr : FrameReader}

theorem tracks_start (maxSize : Int) : Tracks maxSize (start maxSize) (newFrameReader maxSize) where
  reader_eq := rfl
  maxSize_eq := rfl
  delivered_eq := rfl
  fits := fun _ hp => nomatch hp
  not_panicked := fun h => nomatch h
  on_read := fun _ h => nomatch h
  on_error := fun _ h => nomatch h

/-- What the reference parser makes of the delivered bytes. -/
theorem Tracks.cut_delivered (h : Tracks maxSize s fr) :
    cut maxSize s.delivered = s.payloads ++ cut maxSize fr.unread := by
  rw [h.delivered_eq, cut_stream_append h.fits]

theorem Tracks.residue_delivered (h : Tracks maxSize s fr) (hcut : cut maxSize fr.unread = []) :
    residue maxSize s.delivered = fr.unread := by
  rw [h.delivered_eq, residue_stream_append h.fits hcut]

/-- The payload of a round is the next one that the reference parser has. -/
theorem Tracks.cut_of_packet {b : Bytes} {fr' : FrameReader} (h : Tracks maxSize s fr)
    (hparse : fr.parse = .packet b fr') :
    cut maxSize fr.unread = b :: cut maxSize fr'.unread := by
  have hcut := FrameReader.cut_of_packet hparse []
  obtain ⟨_, _, _, hmaxSize⟩ := FrameReader.packet_spec hparse
  rw [List.append_nil, List.append_nil, hmaxSize, h.maxSize_eq] at hcut
  exact hcut

/-- What a round of the loop does in a run that is described by `fr`. -/
inductive RoundCase (s : Recv) (fr : FrameReader) : Prop
  | packet (b : Bytes) (fr' : FrameReader) (hparse : fr.parse = .packet b fr')
      (hstep : s.step .round = some { s with
        reader := fr'.raw, returned := s.returned ++ [.payload b] })
  | error (text : String) (hparse : fr.parse = .error text)
      (hstep : s.step .round = some { s with returned := s.returned ++ [.formatError text] })
  | needRead (fr' : FrameReader) (hparse : fr.parse = .needRead fr')
      (hstep : s.step .round = some { s with
        reader := fr'.raw, phase := .reading (fr'.buf.length - fr'.w) })

theorem Tracks.roundCase (h : Tracks maxSize s fr) (hphase : s.phase = .parsing) :
    RoundCase s fr := by
  have hround : s.reader.round = some fr.parse.raw := by
    rw [h.reader_eq, fr.round_raw]
  cases hparse : fr.parse with
  | packet b fr' =>
    apply RoundCase.packet b fr' hparse
    simp only [step, hphase, hround, hparse, FrameReader.Parsed.raw]
  | error text =>
    apply RoundCase.error text hparse
    simp only [step, hphase, hround, hparse, FrameReader.Parsed.raw]
  | needRead fr' =>
    apply RoundCase.needRead fr' hparse
    simp only [step, hphase, hround, hparse, FrameReader.Parsed.raw, fr'.room_raw, List.length_drop]

section Steps

variable {fr' : FrameReader}

theorem Tracks.packet {b : Bytes} (h : Tracks maxSize s fr) (hphase : s.phase = .parsing)
    (hparse : fr.parse = .packet b fr') :
    Tracks maxSize { s with reader := fr'.raw, returned := s.returned ++ [.payload b] } fr' := by
  have hcut := h.cut_of_packet hparse
  have hmem : b ∈ cut maxSize fr.unread := hcut ▸ List.mem_cons_self
  obtain ⟨_, _, _, hmaxSize⟩ := FrameReader.packet_spec hparse
  have hpayloads : payloadsOf (s.returned ++ [.payload b]) = s.payloads ++ [b] :=
    payloadsOf_append _ _
  exact {
    reader_eq := rfl
    maxSize_eq := hmaxSize.trans h.maxSize_eq
    delivered_eq := by
      show s.delivered = stream (payloadsOf (s.returned ++ [.payload b])) ++ fr'.unread
      rw [hpayloads, h.delivered_eq, FrameReader.unread_of_packet hparse, stream_append,
        stream_cons, stream_nil, List.append_nil, List.append_assoc]
    fits := by
      intro p hp
      rw [payloads, hpayloads, List.mem_append, List.mem_singleton] at hp
      rcases hp with hp | rfl
      · exact h.fits p hp
      · exact fits_of_mem_cut hmem
    not_panicked := h.not_panicked
    on_read := fun room hroom => nomatch hphase.symm.trans hroom
    on_error := by
      -- a reader that refuses a length cuts nothing more
      intro text htext
      have htext : .formatError text ∈ s.returned := by simpa using htext
      obtain ⟨_, hrefused⟩ := h.on_error text htext
      rw [hrefused.cut_eq_nil] at hcut
      cases hcut }

theorem Tracks.error {text : String} (h : Tracks maxSize s fr) (hphase : s.phase = .parsing)
    (hparse : fr.parse = .error text) :
    Tracks maxSize { s with returned := s.returned ++ [.formatError text] } fr := by
  have hpayloads : payloadsOf (s.returned ++ [.formatError text]) = s.payloads := by
    rw [payloadsOf_append]
    exact List.append_nil _
  exact {
    reader_eq := h.reader_eq
    maxSize_eq := h.maxSize_eq
    delivered_eq := by
      show s.delivered = stream (payloadsOf (s.returned ++ [.formatError text])) ++ fr.unread
      rw [hpayloads, h.delivered_eq]
    fits := by
      intro p hp
      rw [payloads, hpayloads] at hp
      exact h.fits p hp
    not_panicked := h.not_panicked
    on_read := h.on_read
    on_error := fun _ _ => ⟨hphase, h.maxSize_eq ▸ FrameReader.error_spec hparse⟩ }

theorem Tracks.needRead (h : Tracks maxSize s fr) (hparse : fr.parse = .needRead fr') :
    Tracks maxSize
      { s with reader := fr'.raw, phase := .reading (fr'.buf.length - fr'.w) } fr' := by
  obtain ⟨hunread, hincomplete, hroom, hmaxSize⟩ := FrameReader.needRead_spec hparse
  have hrefused := h.maxSize_eq ▸ FrameReader.not_refused_of_needRead hparse
  exact {
    reader_eq := rfl
    maxSize_eq := hmaxSize.trans h.maxSize_eq
    delivered_eq := hunread ▸ h.delivered_eq
    fits := h.fits
    not_panicked := fun hpanicked => nomatch hpanicked
    on_read := by
      intro room hphase
      injection hphase with hphase
      rw [hunread]
      exact ⟨by omega, hincomplete, hrefused⟩
    on_error := fun text htext => absurd (h.on_error text htext).2 hrefused }

theorem Tracks.read {room : Nat} (h : Tracks maxSize s fr) (hphase : s.phase = .reading room)
    (chunk : Bytes) (err : Option String) :
    Tracks maxSize
      { s with
        reader := s.reader.fill chunk
        phase := .parsing
        returned := s.returned ++ err.toList.map .readError
        delivered := s.delivered ++ chunk } (fr.fill chunk) := by
  have hpayloads : payloadsOf (s.returned ++ err.toList.map .readError) = s.payloads := by
    rw [payloadsOf_append, payloadsOf_readError]
    exact List.append_nil _
  exact {
    reader_eq := by
      show s.reader.fill chunk = _
      rw [h.reader_eq, FrameReader.fill_raw]
    maxSize_eq := h.maxSize_eq
    delivered_eq := by
      show s.delivered ++ chunk = stream (payloadsOf (s.returned ++ _)) ++ _
      rw [hpayloads, h.delivered_eq, FrameReader.unread_fill, List.append_assoc]
    fits := by
      intro p hp
      rw [payloads, hpayloads] at hp
      exact h.fits p hp
    not_panicked := fun hpanicked => nomatch hpanicked
    on_read := fun _ hread => nomatch hread
    on_error := by
      -- no error about the format was returned before a `Read`
      intro text htext
      have htext : .formatError text ∈ s.returned := by simpa using htext
      have hparsing := (h.on_error text htext).1
      rw [hphase] at hparsing
      cases hparsing }

end Steps

theorem Tracks.step {e : RecvEvent} (h : Tracks maxSize s fr) (hstep : s.step e = some t) :
    ∃ fr', Tracks maxSize t fr' := by
  cases hphase : s.phase with
  | panicked => exact absurd hphase h.not_panicked
  | parsing =>
    cases e with
    | read chunk err =>
      rw [Recv.step, hphase] at hstep
      cases hstep
    | round =>
      rcases h.roundCase hphase with
        ⟨b, fr', hparse, hround⟩ | ⟨text, hparse, hround⟩ | ⟨fr', hparse, hround⟩
      · obtain rfl := Option.some.inj (hround.symm.trans hstep)
        exact ⟨fr', h.packet hphase hparse⟩
      · obtain rfl := Option.some.inj (hround.symm.trans hstep)
        exact ⟨fr, h.error hphase hparse⟩
      · obtain rfl := Option.some.inj (hround.symm.trans hstep)
        exact ⟨fr', h.needRead hparse⟩
  | reading room =>
    cases e with
    | round =>
      rw [Recv.step, hphase] at hstep
      cases hstep
    | read chunk err =>
      rw [Recv.step, hphase] at hstep
      dsimp only at hstep
      split_ifs at hstep
      obtain rfl := Option.some.inj hstep
      exact ⟨fr.fill chunk, h.read hphase chunk err⟩

theorem exists_tracks {es : List RecvEvent} (h : run Recv.step (start maxSize) es = some s) :
    ∃ fr, Tracks maxSize s fr := by
  refine Reach.invariant (P := fun s => ∃ fr, Tracks maxSize s fr) ⟨_, tracks_start maxSize⟩
    (fun _ _ _ _ htracks _ hstep => ?_) (Reach.of_run h)
  obtain ⟨_, htracks⟩ := htracks
  exact htracks.step hstep

/-! ## Runs against the reference parser -/

/-- What the next round does: it returns the next payload while the
reference parser has one, then refuses a length that must be refused, and
otherwise goes on to read. -/
def Advances (maxSize : Int) (s : Recv) : Prop :=
  (∃ b rest t, cut maxSize s.delivered = s.payloads ++ b :: rest ∧ s.step .round = some t ∧
    t.phase = .parsing ∧ t.delivered = s.delivered ∧ t.returned = s.returned ++ [.payload b]) ∨
  (cut maxSize s.delivered = s.payloads ∧ Refused maxSize (residue maxSize s.delivered) ∧
    ∃ text t, s.step .round = some t ∧ t.delivered = s.delivered ∧
      t.returned = s.returned ++ [.formatError text]) ∨
  (cut maxSize s.delivered = s.payloads ∧ ¬ Refused maxSize (residue maxSize s.delivered) ∧
    ∃ room t, s.step .round = some t ∧ 0 < room ∧ t.phase = .reading room ∧
      t.delivered = s.delivered ∧ t.returned = s.returned)

/-- The calls so far did what the reference parser says. -/
structure Exact (maxSize : Int) (s : Recv) : Prop where
  bounds : s.reader.InBounds
  not_panicked : s.phase ≠ .panicked
  returned_cut : s.payloads <+: cut maxSize s.delivered
  on_read : ∀ room, s.phase = .reading room →
    0 < room ∧ s.payloads = cut maxSize s.delivered ∧
      ¬ Refused maxSize (residue maxSize s.delivered)
  on_error : ∀ text, .formatError text ∈ s.returned →
    s.payloads = cut maxSize s.delivered ∧ Refused maxSize (residue maxSize s.delivered)
  advances : s.phase = .parsing → Advances maxSize s

theorem Tracks.cut_eq_payloads (h : Tracks maxSize s fr) (hcut : cut maxSize fr.unread = []) :
    cut maxSize s.delivered = s.payloads := by
  rw [h.cut_delivered, hcut, List.append_nil]

theorem Tracks.advances (h : Tracks maxSize s fr) (hphase : s.phase = .parsing) :
    Advances maxSize s := by
  rcases h.roundCase hphase with
    ⟨b, fr', hparse, hround⟩ | ⟨text, hparse, hround⟩ | ⟨fr', hparse, hround⟩
  · refine Or.inl ⟨b, cut maxSize fr'.unread, _, ?_, hround, hphase, rfl, rfl⟩
    rw [h.cut_delivered, h.cut_of_packet hparse]
  · have hrefused : Refused maxSize fr.unread := h.maxSize_eq ▸ FrameReader.error_spec hparse
    have hcut := hrefused.cut_eq_nil
    refine Or.inr (Or.inl ⟨h.cut_eq_payloads hcut, ?_, text, _, hround, rfl, rfl⟩)
    rw [h.residue_delivered hcut]
    exact hrefused
  · obtain ⟨_, hincomplete, hroom, _⟩ := FrameReader.needRead_spec hparse
    have hcut : cut maxSize fr.unread = [] := FrameReader.cut_of_incomplete hincomplete
    refine Or.inr (Or.inr ⟨h.cut_eq_payloads hcut, ?_, _, _, hround, ?_, rfl, rfl, rfl⟩)
    · rw [h.residue_delivered hcut]
      exact h.maxSize_eq ▸ FrameReader.not_refused_of_needRead hparse
    · omega

theorem Tracks.exact (h : Tracks maxSize s fr) : Exact maxSize s where
  bounds := h.reader_eq ▸ fr.raw_inBounds
  not_panicked := h.not_panicked
  returned_cut := h.cut_delivered ▸ List.prefix_append _ _
  on_read := by
    intro room hphase
    obtain ⟨hroom, hincomplete, hrefused⟩ := h.on_read room hphase
    have hcut : cut maxSize fr.unread = [] := FrameReader.cut_of_incomplete hincomplete
    rw [h.residue_delivered hcut]
    exact ⟨hroom, (h.cut_eq_payloads hcut).symm, hrefused⟩
  on_error := by
    intro text htext
    obtain ⟨_, hrefused⟩ := h.on_error text htext
    have hcut := hrefused.cut_eq_nil
    rw [h.residue_delivered hcut]
    exact ⟨(h.cut_eq_payloads hcut).symm, hrefused⟩
  advances := h.advances

end Recv

open Recv

/-- However the connection cuts the stream into reads, the calls of `recv`
return what the reference parser cuts from it. -/
theorem recv_exact (maxSize : Int) {es : List RecvEvent} {s : Recv}
    (h : run Recv.step (start maxSize) es = some s) : Exact maxSize s := by
  obtain ⟨_, htracks⟩ := exists_tracks h
  exact htracks.exact

/-- A frame of one byte that comes in two reads, and then a length of zero. -/
def twoReads : List RecvEvent :=
  [.round, .read [0, 0] none, .round, .read [0, 1, 7, 0, 0, 0, 0] none, .round, .round]

theorem recv_exact_twoReads :
    ∃ s, run Recv.step (start 16) twoReads = some s ∧ s.payloads = [[7]] ∧
      s.delivered = [0, 0, 0, 1, 7, 0, 0, 0, 0] ∧ Exact 16 s := by
  have hrun : (run Recv.step (start 16) twoReads).isSome := by decide +kernel
  refine ⟨_, (Option.some_get hrun).symm, ?_, ?_, recv_exact 16 (Option.some_get hrun).symm⟩
  · decide +kernel +revert
  · decide +kernel +revert

end ClusterGo.Socket
