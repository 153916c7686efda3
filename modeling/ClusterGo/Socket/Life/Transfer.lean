import ClusterGo.Socket.Life.Flow
import ClusterGo.Socket.Receive
import ClusterGo.Socket.Transit

/-!
# From one socket to the other

Two sockets are the ends of a connection.  Each has its own callers, loops
and errors, and each may be closed at any moment.  The bytes that the reads of
the receiver deliver are a beginning of what the writes of the sender put on
the wire: this is what is assumed of the connection, which may break anywhere.

What the handler of the receiver gets is then a beginning of what the frames
of the accepted objects decode to, in the order in which they were accepted
(`handled_prefix_of_sent`).  Whatever fails, a packet is not lost in the
middle, not repeated, not reordered and not torn.

The sender is read through `WireInv`.  The receiver is read through
`Collects`: the payloads that were cut so far, and behind them the unread
bytes, are what was delivered.
-/

namespace ClusterGo.Socket.Life

open Framing Rpc Transition

variable {O P E : Type} {codec : Codec O P E} {opts : Options} {s t : Sock O P E}
  {e : Event O E} {maxSize : Int} {bytes : Bytes} {payloads : List Bytes}

/-! ## The receiver -/

/-- The bytes that a read delivers. -/
def Event.delivered : Event O E → Bytes
  | .read chunk => chunk
  | _ => []

/-- The packet that waits for the handler. -/
def RecvPc.packet : RecvPc P E → List P
  | .handling packet => [packet]
  | _ => []

/-- `recvloop` takes no more packets. -/
def RecvPc.Over : RecvPc P E → Prop
  | .failed _ | .closing _ | .done => True
  | _ => False

/-- A payload that a frame of at most `maxSize` bytes can carry. -/
def Carries (maxSize : Int) (payload : Bytes) : Prop :=
  payload ≠ [] ∧ ((payload.length + 4 : Nat) : Int) ≤ maxSize ∧ payload.length < 256 ^ 4

/-- The packets for the handler, the one that waits last. -/
def Sock.packets (s : Sock O P E) : List P := s.handled ++ s.recvPc.packet

/-- `bytes` were delivered, and the payloads were cut from them. -/
structure Collects (codec : Codec O P E) (maxSize : Int) (s : Sock O P E) (bytes : Bytes)
    (payloads : List Bytes) : Prop where
  maxSize_eq : s.reader.maxSize = maxSize
  bytes_eq : stream payloads ++ s.reader.unread = bytes
  carries : ∀ p ∈ payloads, Carries maxSize p
  decoded : s.packets.map .ok <+: payloads.map codec.decode
  all : ¬ s.recvPc.Over → s.packets.map .ok = payloads.map codec.decode

theorem collects_new (codec : Codec O P E) (opts : Options) :
    Collects codec opts.maxPacketSize (newSock opts) [] [] :=
  ⟨rfl, rfl, by simp, List.prefix_refl _, fun _ => rfl⟩

/-- Nothing that the receiver has read or handed out changes. -/
theorem Collects.keep (h : Collects codec maxSize s bytes payloads)
    (hreader : t.reader.unread = s.reader.unread ∧ t.reader.maxSize = s.reader.maxSize)
    (hpackets : t.packets = s.packets) (hover : s.recvPc.Over → t.recvPc.Over) :
    Collects codec maxSize t bytes payloads := by
  refine ⟨hreader.2.trans h.maxSize_eq, hreader.1 ▸ h.bytes_eq, h.carries, hpackets ▸ h.decoded,
    fun hlive => ?_⟩
  rw [hpackets]
  exact h.all fun hs => hlive (hover hs)

/-- What a payload that `recv` returns was cut from. -/
theorem carries_of_packet {fr fr' : FrameReader} {payload : Bytes}
    (h : fr.parse = .packet payload fr') : Carries fr.maxSize payload := by
  have hcut := FrameReader.cut_of_packet h []
  exact fits_of_mem_cut (hcut ▸ List.mem_cons_self)

/-- `recv` returns a payload. -/
theorem Collects.packet (h : Collects codec maxSize s bytes payloads) {payload : Bytes}
    {reader : FrameReader} (hparse : s.reader.parse = .packet payload reader) :
    reader.maxSize = maxSize ∧ stream (payloads ++ [payload]) ++ reader.unread = bytes ∧
      ∀ p ∈ payloads ++ [payload], Carries maxSize p := by
  refine ⟨(FrameReader.packet_spec hparse).2.2.2.trans h.maxSize_eq, ?_, ?_⟩
  · have hunread := FrameReader.unread_of_packet hparse
    rw [stream_append, stream_cons, stream_nil, List.append_nil, List.append_assoc, ← hunread]
    exact h.bytes_eq
  · intro p hp
    rcases List.mem_append.mp hp with hold | hnew
    · exact h.carries p hold
    · rw [List.mem_singleton.mp hnew, ← h.maxSize_eq]
      exact carries_of_packet hparse

/-- Everything was handed out when no packet waits and the loop goes on. -/
theorem Collects.handled (h : Collects codec maxSize s bytes payloads)
    (hover : ¬ s.recvPc.Over) (hpacket : s.recvPc.packet = []) :
    s.handled.map .ok = payloads.map codec.decode := by
  rw [← h.all hover, Sock.packets, hpacket, List.append_nil]

theorem Collects.acts (h : Collects codec maxSize s bytes payloads)
    (hacts : Acts codec opts s e t) :
    ∃ payloads', Collects codec maxSize t (bytes ++ e.delivered) payloads' := by
  cases hacts with
  | @decoded _ payload _ packet hpc hparse hdecode =>
    obtain ⟨hmax, hbytes, hcarries⟩ := h.packet hparse
    have hall := h.handled (by rw [hpc]; exact id) (by rw [hpc]; rfl)
    have hnew : (s.handled ++ [packet]).map .ok = (payloads ++ [payload]).map codec.decode := by
      rw [List.map_append, List.map_append, hall, List.map_singleton, List.map_singleton, hdecode]
    exact ⟨_, hmax, (List.append_nil bytes).symm ▸ hbytes, hcarries,
      hnew ▸ List.prefix_refl _, fun _ => hnew⟩
  | undecoded hpc hparse hdecode =>
    obtain ⟨hmax, hbytes, hcarries⟩ := h.packet hparse
    have hall := h.handled (by rw [hpc]; exact id) (by rw [hpc]; rfl)
    refine ⟨_, hmax, (List.append_nil bytes).symm ▸ hbytes, hcarries, ?_,
      fun hlive => absurd trivial hlive⟩
    simp [Sock.packets, RecvPc.packet, hall]
  | read hpc _ hread =>
    obtain ⟨_, _, hunread, hmax⟩ := FrameReader.read_eq_some hread
    rw [List.take_length] at hunread
    have hall := h.handled (by rw [hpc]; exact id) (by rw [hpc]; rfl)
    refine ⟨payloads, hmax.trans h.maxSize_eq, ?_, h.carries, ?_, fun _ => ?_⟩
    · rw [hunread, ← List.append_assoc, h.bytes_eq]
      rfl
    · simp [Sock.packets, RecvPc.packet, hall]
    · simp [Sock.packets, RecvPc.packet, hall]
  | needRead hpc hparse =>
    obtain ⟨hunread, _, _, hmax⟩ := FrameReader.needRead_spec hparse
    refine ⟨payloads, (List.append_nil bytes).symm ▸ h.keep ⟨hunread, hmax⟩ ?_ ?_⟩
    · simp [Sock.packets, RecvPc.packet, hpc]
    · rw [hpc]
      exact False.elim
  | handleFails hpc | handleAuto hpc | handleOnce hpc =>
    refine ⟨payloads, (List.append_nil bytes).symm ▸ h.keep ⟨rfl, rfl⟩ ?_ ?_⟩
    · simp [Sock.packets, RecvPc.packet, hpc]
    · rw [hpc]
      exact False.elim
  | recvDie hpc | recvTake hpc | badFrame hpc | readFails hpc | rearm hpc
  | rearmSkip hpc =>
    refine ⟨payloads, (List.append_nil bytes).symm ▸ h.keep ⟨rfl, rfl⟩ ?_ ?_⟩
    · simp [Sock.packets, RecvPc.packet, hpc]
    · rw [hpc]
      exact False.elim
  | recvGivesUp hpc | recvFailed hpc | recvReturns hpc =>
    refine ⟨payloads, (List.append_nil bytes).symm ▸ h.keep ⟨rfl, rfl⟩ ?_ fun _ => trivial⟩
    simp [Sock.packets, RecvPc.packet, hpc]
  | _ => exact ⟨payloads, (List.append_nil bytes).symm ▸ h.keep ⟨rfl, rfl⟩ rfl id⟩

theorem collects_of_run {fs : List (Event O E)} (hrun : run (step codec opts) s fs = some t)
    (h : Collects codec maxSize s bytes payloads) :
    ∃ payloads', Collects codec maxSize t (bytes ++ fs.flatMap Event.delivered) payloads' := by
  induction fs generalizing s bytes payloads with
  | nil =>
    rw [run_nil, Option.some_inj] at hrun
    rw [List.flatMap_nil, List.append_nil]
    exact ⟨payloads, hrun ▸ h⟩
  | cons e fs ih =>
    obtain ⟨u, hstep, hrun⟩ := Option.bind_eq_some_iff.mp hrun
    obtain ⟨payloads', hu⟩ := h.acts (acts_of_step hstep)
    rw [List.flatMap_cons, ← List.append_assoc]
    exact ih hrun hu

/-! ## The sender -/

/-- `Encode` appends nothing, or one frame. -/
def Codec.Frames (codec : Codec O P E) (maxSize : Int) : Prop :=
  ∀ dst o, (codec.encode dst o).1 = dst ∨
    ∃ payload, Carries maxSize payload ∧ (codec.encode dst o).1 = dst ++ frame payload

theorem Codec.Frames.appends (h : codec.Frames maxSize) : codec.Appends := by
  intro dst o
  rcases h dst o with hnone | ⟨payload, _, hframe⟩
  · simp only [hnone, List.prefix_refl]
  · rw [hframe]
    exact List.prefix_append _ _

/-- The payloads of the objects that were encoded to a frame. -/
def payloadsOf (entries : List (O × Bytes)) : List Bytes :=
  (entries.filter fun x => !x.2.isEmpty).map fun x => x.2.drop headLen

/-- The encodings are the stream of the payloads. -/
theorem stream_payloadsOf {entries : List (O × Bytes)}
    (h : ∀ x ∈ entries, x.2 = [] ∨ ∃ payload, Carries maxSize payload ∧ x.2 = frame payload) :
    stream (payloadsOf entries) = (entries.map (·.2)).flatten ∧
      ∀ p ∈ payloadsOf entries, Carries maxSize p := by
  induction entries with
  | nil => exact ⟨rfl, by simp [payloadsOf]⟩
  | cons x entries ih =>
    rw [List.forall_mem_cons] at h
    obtain ⟨hstream, hcarries⟩ := ih h.2
    rw [List.map_cons, List.flatten_cons]
    rcases h.1 with hnil | ⟨payload, hpayload, hframe⟩
    · have hskip : payloadsOf (x :: entries) = payloadsOf entries := by
        simp [payloadsOf, hnil]
      rw [hskip, hnil]
      exact ⟨hstream, hcarries⟩
    · have hne : (frame payload).isEmpty = false := by
        cases hempty : (frame payload).isEmpty with
        | false => rfl
        | true =>
          have hlen := frame_length payload
          rw [List.isEmpty_iff.mp hempty] at hlen
          cases hlen
      have htake : payloadsOf (x :: entries) = payload :: payloadsOf entries := by
        simp only [payloadsOf, hframe, List.filter_cons, hne, Bool.not_false, if_true,
          List.map_cons]
        rw [show headLen = 4 from rfl, frame_drop]
      rw [htake, stream_cons, hstream, hframe]
      exact ⟨rfl, List.forall_mem_cons.mpr ⟨hpayload, hcarries⟩⟩

/-- An object was encoded to nothing or to one frame. -/
theorem WireInv.entry_frame (hcodec : codec.Frames maxSize) (hinv : WireInv codec s) :
    ∀ x ∈ s.entries, x.2 = [] ∨ ∃ payload, Carries maxSize payload ∧ x.2 = frame payload := by
  intro x hx
  obtain ⟨dst, hentry⟩ := hinv.entry x hx
  rcases hcodec dst x.1 with hnone | ⟨payload, hcarries, hframe⟩
  · rw [hnone] at hentry
    exact Or.inl (List.self_eq_append_right.mp hentry)
  · exact Or.inr ⟨payload, hcarries, List.append_cancel_left (hentry.symm.trans hframe)⟩

/-- Payloads that are cut from a beginning of a stream are a beginning of its
payloads. -/
theorem prefix_of_stream {ps qs : List Bytes} {unread : Bytes}
    (hps : ∀ p ∈ ps, Carries maxSize p) (hqs : ∀ p ∈ qs, Carries maxSize p)
    (h : stream ps ++ unread <+: stream qs) : ps <+: qs := by
  obtain ⟨rest, hrest⟩ := h
  have hcut : cut maxSize (stream qs ++ []) = qs ++ cut maxSize [] := cut_stream_append hqs []
  rw [List.append_nil, ← hrest, List.append_assoc, cut_stream_append hps, cut_nil,
    List.append_nil] at hcut
  exact ⟨_, hcut⟩

/-! ## The codec of the cluster -/

section SS

variable {V T Q : Type}

/-- The objects that the cluster sends: a `RelayMessage` among them holds a
frame, and `Encode` does not panic. -/
def Encodable (ss : Codec.SSCodec V T Q) (maxPacketSize : Int) : Type :=
  { o : Codec.Obj V Q // Sendable maxPacketSize o ∧ ∀ dst, ss.encode maxPacketSize dst o ≠ none }

/-- `SSCodec` as the codec of a socket.  The error is missing when `Decode`
panics. -/
def ssCodec (ss : Codec.SSCodec V T Q) (maxPacketSize : Int) :
    Codec (Encodable ss maxPacketSize) (Codec.Decoded V Q) (Option String) where
  encode dst o :=
    (ss.encode maxPacketSize dst o.1).get (Option.isSome_iff_ne_none.mpr (o.2.2 dst))
  decode payload :=
    match (ss.decode payload).2 with
    | .value a => .ok a
    | .error text => .error (some text)
    | .panic => .error none

theorem ssCodec_frames {ss : Codec.SSCodec V T Q} (hcodec : ss.rpcCodec.Appends)
    (hlib : ss.lib.Appends) {maxPacketSize : Int} (hmax : maxPacketSize ≤ 65535) :
    (ssCodec ss maxPacketSize).Frames maxPacketSize := by
  intro dst o
  have hencode : ss.encode maxPacketSize dst o.1 =
      some (((ssCodec ss maxPacketSize).encode dst o).1, _) := (Option.some_get _).symm
  rcases encode_spec hcodec hlib o.2.1 hencode with ⟨hnone, _⟩ | ⟨payload, hframe, _, hne, hle⟩
  · exact Or.inl hnone
  · refine Or.inr ⟨payload, ⟨hne, hle, ?_⟩, hframe⟩
    have hlen : ((payload.length + headLen : Nat) : Int) ≤ 65535 := hle.trans hmax
    have hhead : headLen = 4 := rfl
    omega

end SS

/-! ## Both ends -/

/-- Two sockets in any runs of their own, such that the receiver has read a
beginning of what the sender has written: the objects were encoded in the
order in which they were accepted, and the packets that the handler of the
receiver got are a beginning of what their frames decode to. -/
theorem handled_prefix_of_sent {O' P' E' : Type} {codec : Codec O P E} {codec' : Codec O' P' E'}
    {opts opts' : Options} (hcodec : codec.Frames opts'.maxPacketSize)
    {es : List (Event O E)} {fs : List (Event O' E')} {s : Sock O P E} {r : Sock O' P' E'}
    (hs : run (step codec opts) (newSock opts) es = some s)
    (hr : run (step codec' opts') (newSock opts') fs = some r)
    (hwire : fs.flatMap Event.delivered <+: s.wire) :
    s.entries.map (·.1) <+: es.filterMap Event.sent ∧
      r.handled.map .ok <+: (payloadsOf s.entries).map codec'.decode := by
  have hinv := wireInv_of_run hcodec.appends hs
  have haccepted := accepted_of_run hs
  obtain ⟨payloads, hcollects⟩ := collects_of_run hr (collects_new codec' opts')
  obtain ⟨hstream, hcarries⟩ := stream_payloadsOf (hinv.entry_frame hcodec)
  have hbytes : stream payloads ++ r.reader.unread <+: stream (payloadsOf s.entries) := by
    rw [hcollects.bytes_eq, hstream]
    exact hwire.trans hinv.wire
  have hpayloads := prefix_of_stream hcollects.carries hcarries hbytes
  have hhandled : r.handled <+: r.packets := List.prefix_append _ _
  exact ⟨⟨s.sendReq, haccepted⟩,
    (hhandled.map _).trans (hcollects.decoded.trans (hpayloads.map codec'.decode))⟩

/-- The codec of a node of the test. -/
abbrev testCodec (selfAddr : LogicAddr) := ssCodec (Codec.quoteSSCodec selfAddr) 4096

/-- A request of the node `1.1.1`. -/
def hello : Encodable (Codec.quoteSSCodec ⟨263169⟩) 4096 :=
  ⟨.message Codec.helloMessage, trivial, fun _ h => Option.some_ne_none _ h⟩

/-- Two requests.  The write of the second fails behind its first five bytes,
and the socket is closed. -/
def tornRequest : List (Event (Encodable (Codec.quoteSSCodec ⟨263169⟩) 4096) (Option String)) :=
  [.send hello, .sendTake, .sendCheck, .sendWrite .all, .send hello, .sendTake, .sendCheck,
    .sendWrite (.failed 5 none), .sendClose, .once, .once, .once]

/-- One packet is received. -/
def oneReceived (bytes : Bytes) : List (Event O E) :=
  [.recv true, .recvTake, .parse, .read bytes, .parse, .handle none]

theorem handled_prefix_of_sent_torn : ∃ s r,
    run (step (testCodec ⟨263169⟩) {}) (newSock {}) tornRequest = some s ∧
    run (step (testCodec ⟨263170⟩) {}) (newSock {}) (oneReceived s.wire) = some r ∧
    s.entries.length = 2 ∧ r.handled.length = 1 ∧
    r.handled.map .ok <+: (payloadsOf s.entries).map (testCodec ⟨263170⟩).decode := by
  let s := (run (step (testCodec ⟨263169⟩) {}) (newSock {}) tornRequest).get (by decide +kernel)
  have hs : run (step (testCodec ⟨263169⟩) {}) (newSock {}) tornRequest = some s :=
    (Option.some_get _).symm
  let r := (run (step (testCodec ⟨263170⟩) {}) (newSock {}) (oneReceived s.wire)).get
    (by decide +kernel)
  have hr : run (step (testCodec ⟨263170⟩) {}) (newSock {}) (oneReceived s.wire) = some r :=
    (Option.some_get _).symm
  have hframes : (testCodec ⟨263169⟩).Frames ({} : Options).maxPacketSize :=
    ssCodec_frames quoteCodec_appends (fun _ m => m.elim) (by decide)
  have hwire : (oneReceived s.wire).flatMap
      (Event.delivered (O := Encodable (Codec.quoteSSCodec ⟨263170⟩) 4096) (E := Option String))
      <+: s.wire := by
    simp [oneReceived, Event.delivered]
  have hentries : (run (step (testCodec ⟨263169⟩) {}) (newSock {}) tornRequest).map
      (·.entries.length) = some 2 := by decide +kernel
  have hhandled : (run (step (testCodec ⟨263170⟩) {}) (newSock {}) (oneReceived s.wire)).map
      (·.handled.length) = some 1 := by decide +kernel
  rw [hs] at hentries
  rw [hr] at hhandled
  exact ⟨s, r, hs, hr, Option.some.inj hentries, Option.some.inj hhandled,
    (handled_prefix_of_sent hframes hs hr hwire).2⟩

end ClusterGo.Socket.Life
