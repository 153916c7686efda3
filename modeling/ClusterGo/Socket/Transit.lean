import ClusterGo.Codec.RoundTrip
import ClusterGo.Socket.Conn

/-!
# What is on its way

The invariant of a connection has two parts.  `SendInv` is about the
sending end alone: `total` is the length of the gather buffer, the buffer is
empty whenever the loop waits on an empty queue, and every object was
encoded to nothing or to one frame.  `RecvInv` ties the two ends together.
The payloads that are encoded fall into those that are decoded and the
rest, and the stream of the rest is what is unread in the reader, then what
is on the wire, then what is in the gather buffer.

A `RelayMessage` with an empty or an oversized payload is encoded to a frame
that the reader refuses.  The objects are therefore assumed to be
`Sendable`.
-/

namespace ClusterGo.Socket

open BigEndian Codec Framing Rpc Transition

variable {V T P : Type}

/-! ## Encoding -/

/-- A payload that makes a frame that the reader accepts. -/
def Fits (maxPacketSize : Int) (payload : Bytes) : Prop :=
  payload ≠ [] ∧ ((payload.length + headLen : Nat) : Int) ≤ maxPacketSize

/-- `Encode` appends nothing, or one frame that the reader accepts. -/
theorem encode_spec {ss : SSCodec V T P} (hcodec : ss.rpcCodec.Appends)
    (hlib : ss.lib.Appends) {maxPacketSize : Int} {o : Obj V P}
    (ho : Sendable maxPacketSize o) {dst b : Bytes} {n : Nat}
    (h : ss.encode maxPacketSize dst o = some (b, n)) :
    (b = dst ∧ n = 0) ∨
      ∃ payload, b = dst ++ frame payload ∧ n = payload.length + 4 ∧
        Fits maxPacketSize payload := by
  cases o with
  | message m =>
    rcases encodeMessage_spec hcodec (fun _ _ => hlib) h with hnone | ⟨body, hbody, hb, hn, hle⟩
    · exact Or.inl hnone
    · have hlen := BodyOf.length_ge hbody
      refine Or.inr ⟨body, hb, hn, ?_, ?_⟩
      · intro heq
        subst heq
        exact absurd hlen (by decide)
      · rw [hn] at hle
        exact hle
  | relay m =>
    obtain ⟨toAddr, fromAddr, payload, rfl, hne, hle⟩ := ho
    simp only [SSCodec.encode, newRelayMessage_payload, Option.some_inj, Prod.mk.injEq,
      frame_length] at h
    exact Or.inr ⟨payload, h.1.symm, h.2.symm, hne, hle⟩
  | other =>
    simp only [SSCodec.encode, Option.some_inj, Prod.mk.injEq] at h
    exact Or.inl ⟨h.1.symm, h.2.symm⟩

/-! ## Decoding -/

/-- The result is a value. -/
def IsValue {α : Type} : Outcome α → Prop
  | .value _ => True
  | _ => False

theorem upToError_append {α : Type} {l : List (Outcome α)} (h : ∀ o ∈ l, IsValue o)
    (l' : List (Outcome α)) : upToError (l ++ l') = l ++ upToError l' := by
  induction l with
  | nil => rfl
  | cons o l ih =>
    rw [List.forall_mem_cons] at h
    cases o with
    | value a => rw [List.cons_append, upToError, ih h.2, List.cons_append]
    | error text => exact h.1.elim
    | panic => exact h.1.elim

theorem upToError_cons_of_not_value {α : Type} {o : Outcome α} (h : ¬ IsValue o)
    (l : List (Outcome α)) : upToError (o :: l) = [o] := by
  cases o with
  | value a => exact absurd trivial h
  | error text => rfl
  | panic => rfl

/-- `Decode` of a payload does not depend on what was decoded before. -/
theorem decode_reader (ss : SSCodec V T P) (reader : BufferReader) {payload : Bytes}
    (h : payload ≠ []) :
    ({ ss with reader }.decode payload).2 = (ss.decode payload).2 := by
  have hpos : payload.length > 0 := List.length_pos_iff.mpr h
  simp only [SSCodec.decode, BufferReader.reset, if_pos hpos]
  rfl

/-- `Decode` changes the reader of the codec only. -/
theorem decode_fst (ss : SSCodec V T P) (payload : Bytes) :
    ∃ reader, (ss.decode payload).1 = { ss with reader } :=
  ⟨_, rfl⟩

/-! ## The sending end -/

/-- What is known of an object that was taken from the queue. -/
def EntryOk (link : Link V T P) (e : Entry V P) : Prop :=
  (∃ dst, link.sender.encode link.maxPacketSize dst e.obj = some (dst ++ e.bytes, e.n)) ∧
    ((e.n = 0 ∧ e.bytes = []) ∨ ∃ payload, e.bytes = frame payload ∧
      e.n = payload.length + 4 ∧ Fits link.maxPacketSize payload)

structure SendInv (link : Link V T P) (s : Conn V T P) : Prop where
  total_eq : s.total = s.buf.length
  gather : s.sendPc = .waiting → s.sendReq = [] → s.buf = []
  accounted : s.accepted = s.entries.map (·.obj) ++ s.sendReq
  sendable : ∀ o ∈ s.sendReq, Sendable link.maxPacketSize o
  entries : ∀ e ∈ s.entries, EntryOk link e

/-- What is assumed of a link: the RPC codec and the protobuf library of the
sender append to the slice they are given, and a 16-bit number holds
`MaxPacketSize`. -/
structure Link.Sound (link : Link V T P) : Prop where
  rpcCodec : link.sender.rpcCodec.Appends
  lib : link.sender.lib.Appends
  maxPacketSize : link.maxPacketSize ≤ 65535

variable {link : Link V T P} {s t : Conn V T P}

/-- The step that encodes an object. -/
theorem encode_eq_some (hlink : link.Sound) (hinv : SendInv link s)
    (h : s.encode link = some t) :
    ∃ o sendReq e, s.sendPc = .waiting ∧ s.sendReq = o :: sendReq ∧ e.obj = o ∧
      EntryOk link e ∧
      t = { s with
        sendReq
        buf := s.buf ++ e.bytes
        total := s.total + ((s.buf ++ e.bytes).length - s.buf.length)
        sendPc := .encoded
        entries := s.entries ++ [e] } := by
  unfold Conn.encode at h
  split at h
  · rename_i o sendReq hpc hreq
    cases henc : link.sender.encode link.maxPacketSize s.buf o with
    | none =>
      rw [henc] at h
      cases h
    | some r =>
      obtain ⟨b, n⟩ := r
      rw [henc] at h
      cases h
      have ho := hinv.sendable o (hreq ▸ List.mem_cons_self)
      have hspec := encode_spec hlink.rpcCodec hlink.lib ho henc
      obtain ⟨bytes, rfl⟩ : ∃ bytes, b = s.buf ++ bytes := by
        rcases hspec with ⟨rfl, _⟩ | ⟨payload, rfl, _⟩
        · exact ⟨[], (List.append_nil _).symm⟩
        · exact ⟨_, rfl⟩
      refine ⟨o, sendReq, { obj := o, n, bytes }, hpc, hreq, rfl, ⟨⟨s.buf, henc⟩, ?_⟩, ?_⟩
      · rcases hspec with ⟨hb, hn⟩ | ⟨payload, hb, hn, hfits⟩
        · exact Or.inl ⟨hn, List.append_cancel_left (hb.trans (List.append_nil _).symm)⟩
        · exact Or.inr ⟨payload, List.append_cancel_left hb, hn, hfits⟩
      · rw [List.drop_left]
  · cases h

theorem SendInv.send (hinv : SendInv link s) {o : Obj V P}
    (ho : Sendable link.maxPacketSize o) (h : s.send link o = some t) : SendInv link t := by
  unfold Conn.send at h
  split_ifs at h with hroom
  cases h
  refine ⟨hinv.total_eq, ?_, ?_, ?_, hinv.entries⟩
  · intro _ hempty
    exact absurd hempty (by simp)
  · rw [hinv.accounted, List.append_assoc]
  · intro o' ho'
    rcases List.mem_append.mp ho' with ho' | ho'
    · exact hinv.sendable o' ho'
    · rw [List.mem_singleton.mp ho']
      exact ho

theorem SendInv.encode (hlink : link.Sound) (hinv : SendInv link s)
    (h : s.encode link = some t) : SendInv link t := by
  obtain ⟨o, sendReq, e, hpc, hreq, hobj, hentry, rfl⟩ := encode_eq_some hlink hinv h
  refine ⟨?_, ?_, ?_, ?_, ?_⟩
  · show s.total + _ = ((s.buf ++ e.bytes).length : Int)
    rw [hinv.total_eq]
    omega
  · intro hwait
    cases hwait
  · show s.accepted = (s.entries ++ [e]).map (·.obj) ++ sendReq
    rw [hinv.accounted, hreq, List.map_append, List.append_assoc, List.map_singleton, hobj]
    rfl
  · intro o' ho'
    exact hinv.sendable o' (hreq ▸ List.mem_cons_of_mem o ho')
  · intro e' he'
    rcases List.mem_append.mp he' with he' | he'
    · exact hinv.entries e' he'
    · rw [List.mem_singleton.mp he']
      exact hentry

theorem SendInv.check (hinv : SendInv link s) (h : s.check link = some t) :
    SendInv link t := by
  unfold Conn.check at h
  split at h
  · cases h
    refine ⟨hinv.total_eq, ?_, hinv.accounted, hinv.sendable, hinv.entries⟩
    intro hwait hempty
    have htotal := hinv.total_eq
    dsimp only at hwait hempty
    split_ifs at hwait with hfull
    rw [not_or, not_and] at hfull
    -- nothing was gathered, or the loop would write now
    have hzero : ¬ s.total > 0 := fun hpos => hfull.2 hpos (by rw [hempty]; rfl)
    have hlen : s.buf.length = 0 := by omega
    exact List.length_eq_zero_iff.mp hlen
  · cases h

theorem SendInv.write (hinv : SendInv link s) (h : s.write = some t) : SendInv link t := by
  unfold Conn.write at h
  split at h
  · cases h
    exact ⟨rfl, fun _ _ => rfl, hinv.accounted, hinv.sendable, hinv.entries⟩
  · cases h

/-! ## The payloads on their way -/

/-- The payload that an entry adds to those on their way. -/
theorem payloads_append {e : Entry V P} (he : EntryOk link e) (s : Conn V T P) :
    ∃ new, ({ s with entries := s.entries ++ [e] } : Conn V T P).payloads = s.payloads ++ new ∧
      stream new = e.bytes := by
  obtain ⟨_, ⟨hn, hbytes⟩ | ⟨payload, hbytes, hn, _⟩⟩ := he
  · refine ⟨[], ?_, hbytes.symm⟩
    have hout : ¬ 0 < e.n := by omega
    simp [Conn.payloads, List.filter_append, hout]
  · refine ⟨[payload], ?_, ?_⟩
    · have hin : 0 < e.n := by omega
      have hdrop : e.bytes.drop headLen = payload := by
        rw [hbytes]
        exact frame_drop payload
      simp [Conn.payloads, List.filter_append, hin, hdrop]
    · rw [hbytes, stream_cons, stream_nil, List.append_nil]

theorem SendInv.fits (hinv : SendInv link s) {payload : Bytes} (h : payload ∈ s.payloads) :
    Fits link.maxPacketSize payload := by
  obtain ⟨e, he, rfl⟩ := List.mem_map.mp h
  obtain ⟨hmem, hn⟩ := List.mem_filter.mp he
  have hpos : 0 < e.n := by simpa using hn
  obtain ⟨_, ⟨hzero, _⟩ | ⟨payload, hbytes, _, hfits⟩⟩ := hinv.entries e hmem
  · omega
  · rw [hbytes]
    exact (frame_drop payload).symm ▸ hfits

theorem Fits.length_lt (hlink : link.Sound) {payload : Bytes}
    (h : Fits link.maxPacketSize payload) : payload.length < 256 ^ 4 := by
  have hle := h.2
  have hmax := hlink.maxPacketSize
  simp only [headLen] at hle
  omega

/-- The first frame of a stream of which four bytes are seen. -/
theorem first_frame {payloads : List Bytes} {seen unseen : Bytes}
    (hstream : stream payloads = seen ++ unseen) (hseen : 4 ≤ seen.length)
    (hsmall : ∀ p ∈ payloads, p.length < 256 ^ 4) :
    ∃ payload rest, payloads = payload :: rest ∧ decode (seen.take 4) = payload.length ∧
      seen ++ unseen = frame payload ++ stream rest := by
  cases payloads with
  | nil =>
    have hlen := congrArg List.length hstream
    rw [stream_nil, List.length_nil, List.length_append] at hlen
    omega
  | cons payload rest =>
    have hsplit : seen ++ unseen = frame payload ++ stream rest := hstream.symm
    exact ⟨payload, rest, rfl,
      decode_header hsplit hseen (hsmall payload List.mem_cons_self), hsplit⟩

/-! ## The receiving end -/

/-- The result of decoding a payload. -/
def Link.decoded (link : Link V T P) (payload : Bytes) : Outcome (Decoded V P) :=
  (link.receiver.decode payload).2

/-- Some payloads are decoded, and the stream of the others is on its
way. -/
def Open (link : Link V T P) (s : Conn V T P) : Prop :=
  ∃ before after, s.payloads = before ++ after ∧ s.results = before.map link.decoded ∧
    (∀ p ∈ before, IsValue (link.decoded p)) ∧
    stream after = s.reader.unread ++ (s.wire ++ s.buf)

/-- A payload could not be decoded, and nothing behind it was. -/
def Closed (link : Link V T P) (s : Conn V T P) : Prop :=
  ∃ before bad after, s.payloads = before ++ bad :: after ∧
    s.results = before.map link.decoded ++ [link.decoded bad] ∧
    (∀ p ∈ before, IsValue (link.decoded p)) ∧ ¬ IsValue (link.decoded bad)

structure RecvInv (link : Link V T P) (s : Conn V T P) : Prop where
  failed : s.failed = none
  maxSize : s.reader.maxSize = link.maxPacketSize
  decoder : ∃ reader, s.decoder = { link.receiver with reader }
  reading : s.recvPc = .reading →
    FrameReader.Incomplete s.reader.unread ∧ s.reader.w < s.reader.buf.length
  received : if s.recvPc = .closed then Closed link s else Open link s

/-- The invariant of a connection. -/
structure Inv (link : Link V T P) (s : Conn V T P) : Prop where
  send : SendInv link s
  recv : RecvInv link s

/-- Encoding an object puts its frame behind everything on its way. -/
theorem RecvInv.encode (hlink : link.Sound) (hsend : SendInv link s) (hinv : RecvInv link s)
    (h : s.encode link = some t) : RecvInv link t := by
  obtain ⟨o, sendReq, e, hpc, hreq, hobj, hentry, rfl⟩ := encode_eq_some hlink hsend h
  obtain ⟨new, hnew, hstream⟩ := payloads_append hentry s
  refine ⟨hinv.failed, hinv.maxSize, hinv.decoder, hinv.reading, ?_⟩
  have hreceived := hinv.received
  show if s.recvPc = .closed then _ else _
  split_ifs at hreceived ⊢
  · obtain ⟨before, bad, after, hsplit, hrest⟩ := hreceived
    refine ⟨before, bad, after ++ new, ?_, hrest⟩
    refine hnew.trans ?_
    rw [hsplit, List.append_assoc, List.cons_append]
  · obtain ⟨before, after, hsplit, hresults, hvalues, hbytes⟩ := hreceived
    refine ⟨before, after ++ new, ?_, hresults, hvalues, ?_⟩
    · refine hnew.trans ?_
      rw [hsplit, List.append_assoc]
    · show stream (after ++ new) = s.reader.unread ++ (s.wire ++ (s.buf ++ e.bytes))
      rw [stream_append, hbytes, hstream, List.append_assoc, List.append_assoc]

theorem RecvInv.write (hinv : RecvInv link s) (h : s.write = some t) : RecvInv link t := by
  unfold Conn.write at h
  split at h
  · cases h
    refine ⟨hinv.failed, hinv.maxSize, hinv.decoder, hinv.reading, ?_⟩
    have hreceived := hinv.received
    show if s.recvPc = .closed then _ else _
    split_ifs at hreceived ⊢
    · exact hreceived
    · obtain ⟨before, after, hsplit, hresults, hvalues, hbytes⟩ := hreceived
      refine ⟨before, after, hsplit, hresults, hvalues, ?_⟩
      show stream after = s.reader.unread ++ (s.wire ++ s.buf ++ [])
      rw [hbytes, List.append_nil]
  · cases h

theorem RecvInv.read (hinv : RecvInv link s) {k : Nat} (h : s.read k = some t) :
    RecvInv link t := by
  unfold Conn.read at h
  split at h
  · rename_i hpc
    cases hread : s.reader.read k s.wire with
    | none =>
      rw [hread] at h
      cases h
    | some reader =>
      rw [hread] at h
      cases h
      obtain ⟨_, _, hunread, hmax⟩ := FrameReader.read_eq_some hread
      refine ⟨hinv.failed, hmax.trans hinv.maxSize, hinv.decoder, fun hr => (by cases hr), ?_⟩
      have hreceived := hinv.received
      rw [if_neg (by rw [hpc]; decide)] at hreceived
      obtain ⟨before, after, hsplit, hresults, hvalues, hbytes⟩ := hreceived
      refine ⟨before, after, hsplit, hresults, hvalues, ?_⟩
      show stream after = reader.unread ++ (s.wire.drop k ++ s.buf)
      rw [hbytes, hunread, List.append_assoc, ← List.append_assoc (s.wire.take k),
        List.take_append_drop]
  · cases h

/-- Four unread bytes are the length of the first payload that is on its
way. -/
theorem Open.next (hlink : link.Sound) (hsend : SendInv link s) (h : Open link s)
    (hseen : 4 ≤ s.reader.unread.length) :
    ∃ before payload after, s.payloads = before ++ payload :: after ∧
      s.results = before.map link.decoded ∧ (∀ p ∈ before, IsValue (link.decoded p)) ∧
      Fits link.maxPacketSize payload ∧
      decode (s.reader.unread.take 4) = payload.length ∧
      s.reader.unread ++ (s.wire ++ s.buf) = frame payload ++ stream after := by
  obtain ⟨before, after, hsplit, hresults, hvalues, hbytes⟩ := h
  have hfits : ∀ p ∈ after, Fits link.maxPacketSize p := fun p hp =>
    hsend.fits (hsplit ▸ List.mem_append_right before hp)
  obtain ⟨payload, rest, rfl, hlen, hstream⟩ :=
    first_frame hbytes hseen fun p hp => (hfits p hp).length_lt hlink
  exact ⟨before, payload, rest, hsplit, hresults, hvalues, hfits payload List.mem_cons_self,
    hlen, hstream⟩

/-- One more result leaves the connection open if it is a value, and closed
otherwise. -/
theorem received_append {before after : List Bytes} {payload : Bytes}
    (hsplit : t.payloads = before ++ payload :: after)
    (hresults : t.results = before.map link.decoded ++ [link.decoded payload])
    (hvalues : ∀ p ∈ before, IsValue (link.decoded p))
    (hbytes : stream after = t.reader.unread ++ (t.wire ++ t.buf))
    (hpc : t.recvPc = match link.decoded payload with
      | .value _ => .parsing
      | _ => .closed) :
    if t.recvPc = .closed then Closed link t else Open link t := by
  cases ho : link.decoded payload with
  | value a =>
    have hopen : t.recvPc ≠ .closed := by
      rw [hpc, ho]
      exact RecvPc.noConfusion
    rw [if_neg hopen]
    refine ⟨before ++ [payload], after, ?_, ?_, ?_, hbytes⟩
    · rw [hsplit, List.append_assoc, List.singleton_append]
    · rw [hresults, List.map_append, List.map_singleton]
    · intro p hp
      rcases List.mem_append.mp hp with hp | hp
      · exact hvalues p hp
      · rw [List.mem_singleton.mp hp, ho]
        trivial
  | error text | panic =>
    have hclosed : t.recvPc = .closed := by rw [hpc, ho]
    rw [if_pos hclosed]
    refine ⟨before, payload, after, hsplit, hresults, hvalues, ?_⟩
    rw [ho]
    exact id

/-- A round of `recv` hands out the first payload that is on its way, or
waits for more bytes.  It never fails. -/
theorem RecvInv.parse (hlink : link.Sound) (hsend : SendInv link s) (hinv : RecvInv link s)
    (h : s.parse = some t) : RecvInv link t := by
  unfold Conn.parse at h
  split at h
  · rename_i hpc
    have hspec := s.reader.parse_spec
    have hopen := hinv.received
    rw [if_neg (by rw [hpc]; decide)] at hopen
    cases hparse : s.reader.parse with
    | error text =>
      rw [hparse] at hspec
      obtain ⟨hseen, hbad⟩ := hspec
      obtain ⟨_, payload, _, _, _, _, ⟨hne, hle⟩, hlen, _⟩ := hopen.next hlink hsend hseen
      have hpos := List.length_pos_iff.mpr hne
      rw [hlen, hinv.maxSize] at hbad
      simp only [headLen] at hle
      omega
    | needRead reader =>
      rw [hparse] at hspec h
      cases h
      obtain ⟨hunread, hincomplete, hroom, hmax⟩ := hspec
      refine ⟨hinv.failed, hmax.trans hinv.maxSize, hinv.decoder, fun _ => ⟨?_, hroom⟩, ?_⟩
      · exact hunread.symm ▸ hincomplete
      · obtain ⟨before, after, hsplit, hresults, hvalues, hbytes⟩ := hopen
        refine ⟨before, after, hsplit, hresults, hvalues, ?_⟩
        show stream after = reader.unread ++ (s.wire ++ s.buf)
        rw [hbytes, hunread]
    | packet payload' reader =>
      rw [hparse] at hspec h
      obtain ⟨hwhole, hpayload, hunread, hmax⟩ := hspec
      obtain ⟨before, payload, after, hsplit, hresults, hvalues, hfits, hlen, hstream⟩ :=
        hopen.next hlink hsend (by omega)
      rw [hlen] at hwhole hpayload hunread
      rw [payload_of_seen hstream hwhole] at hpayload
      obtain ⟨r, hdecoder⟩ := hinv.decoder
      have hresult : (s.decoder.decode payload).2 = link.decoded payload := by
        rw [hdecoder]
        exact decode_reader _ _ hfits.1
      obtain ⟨r', hdecoder'⟩ := decode_fst s.decoder payload
      rw [hpayload] at h
      dsimp only at h
      rw [hresult, hdecoder', hdecoder] at h
      cases h
      refine ⟨hinv.failed, hmax.trans hinv.maxSize, ⟨_, rfl⟩, ?_, ?_⟩
      · intro hr
        dsimp only at hr
        split at hr <;> cases hr
      · refine received_append hsplit ?_ hvalues ?_ rfl
        · rw [hresults]
        · show stream after = reader.unread ++ (s.wire ++ s.buf)
          rw [hunread, rest_of_seen hstream hwhole]
  · cases h

/-! ## Every run -/

theorem SendInv.parse (hinv : SendInv link s) (h : s.parse = some t) : SendInv link t := by
  unfold Conn.parse at h
  split at h
  · cases hparse : s.reader.parse with
    | error text | needRead reader | packet payload reader =>
      rw [hparse] at h
      cases h
      exact ⟨hinv.total_eq, hinv.gather, hinv.accounted, hinv.sendable, hinv.entries⟩
  · cases h

theorem SendInv.read (hinv : SendInv link s) {k : Nat} (h : s.read k = some t) :
    SendInv link t := by
  unfold Conn.read at h
  split at h
  · cases hread : s.reader.read k s.wire with
    | none =>
      rw [hread] at h
      cases h
    | some reader =>
      rw [hread] at h
      cases h
      exact ⟨hinv.total_eq, hinv.gather, hinv.accounted, hinv.sendable, hinv.entries⟩
  · cases h

theorem RecvInv.send (hinv : RecvInv link s) {o : Obj V P} (h : s.send link o = some t) :
    RecvInv link t := by
  unfold Conn.send at h
  split_ifs at h
  cases h
  exact ⟨hinv.failed, hinv.maxSize, hinv.decoder, hinv.reading, hinv.received⟩

theorem RecvInv.check (hinv : RecvInv link s) (h : s.check link = some t) :
    RecvInv link t := by
  unfold Conn.check at h
  split at h
  · cases h
    exact ⟨hinv.failed, hinv.maxSize, hinv.decoder, hinv.reading, hinv.received⟩
  · cases h

theorem Inv.step (hlink : link.Sound) (hinv : Inv link s) {e : Event V P}
    (he : e.Sendable link.maxPacketSize) (h : step link s e = some t) : Inv link t := by
  cases e with
  | send o => exact ⟨hinv.send.send he h, hinv.recv.send h⟩
  | encode => exact ⟨hinv.send.encode hlink h, hinv.recv.encode hlink hinv.send h⟩
  | check => exact ⟨hinv.send.check h, hinv.recv.check h⟩
  | write => exact ⟨hinv.send.write h, hinv.recv.write h⟩
  | parse => exact ⟨hinv.send.parse h, hinv.recv.parse hlink hinv.send h⟩
  | read k => exact ⟨hinv.send.read h, hinv.recv.read h⟩

theorem Inv.start (link : Link V T P) : Inv link link.start where
  send := ⟨rfl, fun _ _ => rfl, rfl, by simp [Link.start], by simp [Link.start]⟩
  recv := by
    refine ⟨rfl, rfl, ⟨_, rfl⟩, fun h => (by cases h), ?_⟩
    exact ⟨[], [], rfl, rfl, by simp, rfl⟩

/-- The states of runs in which only sendable objects are sent. -/
abbrev ReachableConn (link : Link V T P) : Conn V T P → Prop :=
  Reach (Socket.step link) (fun _ e => e.Sendable link.maxPacketSize) link.start

theorem ReachableConn.inv (hlink : link.Sound) (h : ReachableConn link s) : Inv link s :=
  h.invariant (P := Inv link) (Inv.start link) fun _ _ _ _ hs he hstep => hs.step hlink he hstep

end ClusterGo.Socket
