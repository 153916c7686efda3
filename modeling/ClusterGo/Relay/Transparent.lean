import ClusterGo.Codec.Payload
import ClusterGo.Codec.RoundTrip
import ClusterGo.Socket.Receive

/-!
# Relays do not change a frame

A node that is not the target of a payload strips the length, keeps the
payload in a `RelayMessage` behind a length of its own, and writes that to
the next connection.  `Travels` follows a frame through a chain of such
nodes.  Each of them has a frame reader and two codecs of its own, and the
bytes may reach each of them in any pieces.

`relay_transparent` says that the target reads the payload that the first
node read, for every payload that a frame reader hands out, also when it is
too short to be a message.
-/

namespace ClusterGo

open Codec Framing Rpc Socket

variable {V T P : Type}

/-- A frame reader with the given limit hands the payload out. -/
def Accepted (maxPacketSize : Int) (payload : Bytes) : Prop :=
  ∃ fr fr' : FrameReader, fr.maxSize = maxPacketSize ∧ fr.parse = .packet payload fr'

/-- The address that `Decode` reads as the target of a payload. -/
def targetOf (payload : Bytes) : LogicAddr := (readHead payload).toAddr

/-- A node that a frame passes: the frame reader and the codec of the
connection that it comes from, the codec of the connection that it is sent
on, and what the sender of that connection has gathered. -/
structure Relayer (V T P : Type) where
  reader : FrameReader
  codec : SSCodec V T P
  out : SSCodec V T P
  gather : Bytes := []

/-- A node between two frames that a payload is not for. -/
structure Relayer.Passes (r : Relayer V T P) (maxPacketSize : Int) (payload : Bytes) : Prop where
  idle : r.reader.unread = []
  maxSize : r.reader.maxSize = maxPacketSize
  other : r.codec.selfAddr ≠ targetOf payload

/-- The bytes `wire` arrive at the first node of a chain, and `wire'` is what
the last one writes. -/
inductive Travels (maxPacketSize : Int) :
    List (Relayer V T P) → Bytes → Bytes → Prop where
  | arrived (wire : Bytes) : Travels maxPacketSize [] wire wire
  | relayed {r : Relayer V T P} {rs : List (Relayer V T P)} {wire wire' wire'' payload : Bytes}
      {m : RelayMessage} {n : Nat} (hreceives : Receives r.reader wire [payload])
      (hdecode : (r.codec.decode payload).2 = .value (.relay m))
      (hencode : r.out.encode maxPacketSize r.gather (.relay m) = some (r.gather ++ wire', n))
      (hrest : Travels maxPacketSize rs wire' wire'') :
      Travels maxPacketSize (r :: rs) wire wire''

/-! ## One node -/

variable {maxPacketSize : Int} {payload : Bytes}

/-- What a frame reader hands out makes a frame that it accepts. -/
theorem Accepted.fits (h : Accepted maxPacketSize payload) :
    payload ≠ [] ∧ ((payload.length + 4 : Nat) : Int) ≤ maxPacketSize ∧
      payload.length < 256 ^ 4 := by
  obtain ⟨fr, fr', rfl, hparse⟩ := h
  obtain ⟨hlen, hpayload, _, _⟩ := FrameReader.packet_spec hparse
  obtain ⟨hzero, hmax⟩ := FrameReader.parse_packet hparse
  have hlt := BigEndian.decode_lt (fr.unread.take 4)
  rw [List.length_take, Nat.min_eq_left (by omega)] at hlt
  have hlength : payload.length = BigEndian.decode (fr.unread.take 4) := by
    rw [hpayload, List.length_take, List.length_drop]
    omega
  rw [← hlength] at hzero hmax hlt
  exact ⟨fun hnil => hzero (hnil ▸ rfl), hmax, hlt⟩

/-- Everything that is handed out while a reader receives is accepted. -/
theorem Socket.Receives.accepted {fr : FrameReader} {wire : Bytes} {payloads : List Bytes}
    (h : Receives fr wire payloads) (hmem : payload ∈ payloads) : Accepted fr.maxSize payload := by
  induction h with
  | @packet fr fr' wire payload payloads hparse _ ih =>
    rcases List.mem_cons.mp hmem with rfl | hmem
    · exact ⟨fr, fr', rfl, hparse⟩
    · rw [← (FrameReader.packet_spec hparse).2.2.2]
      exact ih hmem
  | read hparse hread _ ih =>
    rw [← (FrameReader.needRead_spec hparse).2.2.2, ← (FrameReader.read_eq_some hread).2.2.2]
    exact ih hmem
  | idle hparse => cases hmem
  | error hparse => cases hmem

/-- A reader between two frames accepts the frame and goes on with what
follows. -/
theorem Accepted.receives_iff (h : Accepted maxPacketSize payload) {fr : FrameReader}
    (hidle : fr.unread = []) (hmax : fr.maxSize = maxPacketSize) (rest : Bytes)
    {payloads : List Bytes} :
    Receives fr (frame payload ++ rest) payloads ↔
      payloads = payload :: cut maxPacketSize rest := by
  obtain ⟨hne, hfits, hlt⟩ := h.fits
  rw [Socket.receives_iff hidle, hmax, cut_frame hne hfits hlt]

/-- The relay message of a payload that fits is the frame around it. -/
theorem relayMessage_payload (head : Head) (hlt : payload.length < 256 ^ 4) :
    (head.relayMessage payload).payload = frame payload := by
  have hword : (UInt32.ofNat payload.length).toNat = payload.length := by
    rw [UInt32.toNat_ofNat']
    exact Nat.mod_eq_of_lt hlt
  rw [Head.relayMessage, newRelayMessage, hword]
  rfl

/-- The re-encoding of a payload is its frame. -/
theorem Accepted.encode (h : Accepted maxPacketSize payload) (out : SSCodec V T P)
    (dst : Bytes) :
    out.encode maxPacketSize dst (.relay ((readHead payload).relayMessage payload)) =
      some (dst ++ frame payload, (frame payload).length) := by
  rw [SSCodec.encode, relayMessage_payload _ h.fits.2.2]

/-! ## Chains -/

/-- A chain writes nothing but the frame. -/
theorem Travels.eq_frame (h : Accepted maxPacketSize payload) {rs : List (Relayer V T P)}
    (hrs : ∀ r ∈ rs, r.Passes maxPacketSize payload) {wire : Bytes}
    (htravels : Travels maxPacketSize rs (frame payload) wire) : wire = frame payload := by
  induction rs with
  | nil =>
    cases htravels
    rfl
  | cons r rs ih =>
    rw [List.forall_mem_cons] at hrs
    obtain ⟨⟨hidle, hmax, hother⟩, hrs⟩ := hrs
    cases htravels with
    | relayed hreceives hdecode hencode hrest =>
      rw [← List.append_nil (frame payload), h.receives_iff hidle hmax, cut_nil] at hreceives
      obtain rfl := (List.cons.inj hreceives).1
      rw [decode_relay r.codec h.fits.1 hother] at hdecode
      obtain rfl := Decoded.relay.inj (Outcome.value.inj hdecode)
      rw [h.encode r.out r.gather] at hencode
      have hwire := List.append_cancel_left (Prod.mk.inj (Option.some.inj hencode)).1
      rw [← hwire] at hrest
      exact ih hrs hrest

/-- Every chain passes the frame on. -/
theorem travels_frame (h : Accepted maxPacketSize payload) {rs : List (Relayer V T P)}
    (hrs : ∀ r ∈ rs, r.Passes maxPacketSize payload) :
    Travels maxPacketSize rs (frame payload) (frame payload) := by
  induction rs with
  | nil => exact .arrived _
  | cons r rs ih =>
    rw [List.forall_mem_cons] at hrs
    obtain ⟨⟨hidle, hmax, hother⟩, hrs⟩ := hrs
    have hreceives : Receives r.reader (frame payload ++ []) [payload] :=
      (h.receives_iff hidle hmax []).mpr (by rw [cut_nil])
    rw [List.append_nil] at hreceives
    exact .relayed hreceives (decode_relay r.codec h.fits.1 hother) (h.encode r.out r.gather)
      (ih hrs)

/-- What a relay node looks at in a request. -/
def callOf (req : RequestMsg V) : UInt64 × Bool × Bytes := (req.seq, req.oneway, req.method)

/-- For every payload that frame readers accept and every chain of nodes that
it is not for: each node decodes it to a relay message whose encoding is the
frame that was taken for it, which the next reader accepts, and finds the
request that the target decodes, if it is one.  The chain passes the frame
on, and nothing else, so the target reads and decodes the payload as if it
came directly. -/
theorem relay_transparent (h : Accepted maxPacketSize payload) (rs : List (Relayer V T P))
    (hrs : ∀ r ∈ rs, r.Passes maxPacketSize payload) (target : SSCodec V T P)
    (htarget : target.selfAddr = targetOf payload) (reader : FrameReader)
    (hidle : reader.unread = []) (hmax : reader.maxSize = maxPacketSize) :
    (∀ r ∈ rs, ∃ m, (r.codec.decode payload).2 = .value (.relay m) ∧
      (∀ (out : SSCodec V T P) dst, out.encode maxPacketSize dst (.relay m) =
        some (dst ++ frame payload, (frame payload).length)) ∧
      (m.getRpcRequest : Option (RequestMsg V)).map callOf =
        (requestOf (target.decode payload).2).map callOf) ∧
    (∀ fr fr' : FrameReader, fr.parse = .packet payload fr' →
      fr.unread = frame payload ++ fr'.unread) ∧
    (∀ fr : FrameReader, fr.unread = [] → fr.maxSize = maxPacketSize → ∀ rest payloads,
      Receives fr (frame payload ++ rest) payloads ↔
        payloads = payload :: cut maxPacketSize rest) ∧
    (∃ wire, Travels maxPacketSize rs (frame payload) wire) ∧
    ∀ wire, Travels maxPacketSize rs (frame payload) wire →
      ∀ payloads, Receives reader wire payloads ↔ payloads = [payload] := by
  have hne := h.fits.1
  refine ⟨?_, fun _ _ hparse => FrameReader.unread_of_packet hparse, ?_,
    ⟨_, travels_frame h hrs⟩, ?_⟩
  · intro r hr
    refine ⟨_, decode_relay r.codec hne (hrs r hr).other, fun out dst => h.encode out dst, ?_⟩
    rw [getRpcRequest_eq hne htarget]
  · intro fr hfr hfrmax rest payloads
    exact h.receives_iff hfr hfrmax rest
  · intro wire htravels payloads
    rw [htravels.eq_frame h hrs, ← List.append_nil (frame payload), h.receives_iff hidle hmax,
      cut_nil]

/-! ## A request through two nodes -/

/-- A node with the address `a` that has read nothing yet. -/
def plainRelayer (a : LogicAddr) : Relayer Bytes Empty Empty where
  reader := newFrameReader 4096
  codec := quoteSSCodec a
  out := quoteSSCodec a

theorem plainRelayer_passes {a : LogicAddr} {payload : Bytes} (h : a ≠ targetOf payload) :
    (plainRelayer a).Passes 4096 payload where
  idle := rfl
  maxSize := rfl
  other := h

/-- Request 7 for the method `m`, from the node 1 to the node 2. -/
def smallRequest : Bytes :=
  [3, 0, 0, 0, 2, 0, 0, 0, 1, 0, 0, 0, 0, 0, 0, 0, 7, 0, 0, 1, 109, 0, 0, 0, 0]

theorem smallRequest_accepted : Accepted 4096 smallRequest := by
  have hreceives : Receives (newFrameReader 4096) (frame smallRequest ++ []) [smallRequest] := by
    rw [Socket.receives_iff rfl, newFrameReader,
      cut_frame (by decide) (by decide) (by decide), cut_nil]
  exact hreceives.accepted List.mem_cons_self

theorem relay_transparent_small :
    (requestOf ((quoteSSCodec ⟨2⟩).decode smallRequest).2).map callOf =
      some (7, false, [109]) ∧
    ∃ m, ((plainRelayer ⟨3⟩).codec.decode smallRequest).2 = .value (.relay m) ∧
      (m.getRpcRequest : Option (RequestMsg Bytes)).map callOf = some (7, false, [109]) := by
  have hpasses : ∀ r ∈ [plainRelayer ⟨3⟩, plainRelayer ⟨4⟩], r.Passes 4096 smallRequest := by
    simp only [List.forall_mem_cons, List.not_mem_nil, false_implies, implies_true, and_true]
    exact ⟨plainRelayer_passes (by decide), plainRelayer_passes (by decide)⟩
  have hrequest : (requestOf ((quoteSSCodec ⟨2⟩).decode smallRequest).2).map callOf =
      some (7, false, [109]) := by decide
  refine ⟨hrequest, ?_⟩
  obtain ⟨m, hdecode, _, hcall⟩ := (relay_transparent smallRequest_accepted _ hpasses
    (quoteSSCodec ⟨2⟩) (by decide) (newFrameReader 4096) rfl rfl).1 _ List.mem_cons_self
  exact ⟨m, hdecode, hcall.trans hrequest⟩

end ClusterGo
