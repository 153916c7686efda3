import ClusterGo.Codec.Frame
import ClusterGo.Codec.Registry
import ClusterGo.Rpc.Faithful

/-!
# Encoding is all or nothing

`sendloop` encodes one object after the other into the same slice.  A codec
that has a registry never panics, and what one call appends is either
nothing or one whole frame, so an object that cannot be encoded leaves the
frames around it alone.

The length in front of a frame has 32 bits.  A relayed payload of 2^32
bytes or more is written behind the low bits of its length, and so is a
message when `MaxPacketSize` lets one of that size through.
-/

namespace ClusterGo.Codec

open BigEndian Framing Rpc

variable {V T P : Type}

/-- A relay message is one that `NewRelayMessage` has built from a payload
whose length 32 bits can hold. -/
def Built : Obj V P → Prop
  | .relay r => ∃ toAddr fromAddr payload,
      r = newRelayMessage toAddr fromAddr payload ∧ payload.length < 2 ^ 32
  | _ => True

/-- What `Encode` has appended for `o`: if it is not empty, it is one frame,
and the frame of a message fits `MaxPacketSize`. -/
def WholeFrame (maxPacketSize : Int) (o : Obj V P) (f : Bytes) : Prop :=
  f ≠ [] → 4 ≤ f.length ∧ decode (f.take 4) = f.length - 4 ∧
    ∀ m, o = .message m → (f.length : Int) ≤ maxPacketSize

/-- The objects of a batch encoded into one slice, and what each call
reported. -/
def encodeAll (maxPacketSize : Int) (ss : SSCodec V T P) (dst : Bytes) :
    List (Obj V P) → Option (Bytes × List Nat)
  | [] => some (dst, [])
  | o :: os =>
    match ss.encode maxPacketSize dst o with
    | none => none
    | some (dst, n) => (encodeAll maxPacketSize ss dst os).map fun r => (r.1, n :: r.2)

theorem wholeFrame_nil (maxPacketSize : Int) (o : Obj V P) : WholeFrame maxPacketSize o [] :=
  fun h => absurd rfl h

theorem wholeFrame_frame {maxPacketSize : Int} {o : Obj V P} {payload : Bytes}
    (hlt : payload.length < 2 ^ 32)
    (hmax : ∀ m, o = .message m → ((payload.length + 4 : Nat) : Int) ≤ maxPacketSize) :
    WholeFrame maxPacketSize o (frame payload) := by
  intro _
  rw [frame_take, frame_length, Nat.add_sub_cancel, decode_encode_of_lt hlt]
  exact ⟨Nat.le_add_left 4 _, rfl, hmax⟩

section

variable {maxPacketSize : Int} {ss : SSCodec V T P} {pbMeta : PbMeta T}

/-- Only a missing registry makes `Encode` panic, and only for a protobuf
message. -/
theorem encode_eq_none_iff (maxPacketSize : Int) (ss : SSCodec V T P) (dst : Bytes)
    (o : Obj V P) :
    ss.encode maxPacketSize dst o = none ↔
      ss.pbMeta = none ∧ ∃ m msg, o = .message m ∧ m.payload = .proto msg := by
  cases o with
  | message m =>
    cases hp : m.payload with
    | bytes msg =>
      simp only [SSCodec.encode, encodeMessage, hp]
      split_ifs <;> simp [hp]
    | proto msg => simp [SSCodec.encode, encodeMessage, hp]
    | request req => simp [SSCodec.encode, encodeMessage, hp]
    | response resp => simp [SSCodec.encode, encodeMessage, hp]
    | other => simp [SSCodec.encode, encodeMessage, hp]
  | relay r => simp [SSCodec.encode]
  | other => simp [SSCodec.encode]

/-- One call of `Encode`. -/
theorem encode_wholeFrame (hmax : maxPacketSize ≤ 2 ^ 32 + 3) (hmeta : ss.pbMeta = some pbMeta)
    (hcodec : ss.rpcCodec.Appends) (hlib : ss.lib.Appends) (dst : Bytes) {o : Obj V P}
    (ho : Built o) :
    ∃ f, ss.encode maxPacketSize dst o = some (dst ++ f, f.length) ∧
      WholeFrame maxPacketSize o f := by
  have hnothing : ss.encode maxPacketSize dst o = some (dst, 0) →
      ∃ f, ss.encode maxPacketSize dst o = some (dst ++ f, f.length) ∧
        WholeFrame maxPacketSize o f := by
    intro h
    exact ⟨[], by rw [h, List.append_nil]; rfl, wholeFrame_nil _ _⟩
  cases o with
  | message m =>
    have hsome : ss.encode maxPacketSize dst (.message m) ≠ none := by
      intro hnone
      have hnil := ((encode_eq_none_iff _ _ _ _).mp hnone).1
      rw [hmeta] at hnil
      cases hnil
    obtain ⟨⟨b, n⟩, h⟩ := Option.ne_none_iff_exists'.mp hsome
    rcases encodeMessage_spec hcodec (fun _ _ => hlib) h with ⟨rfl, rfl⟩ | ⟨body, _, rfl, hn, hle⟩
    · exact hnothing h
    · refine ⟨frame body, by rw [h, hn, frame_length], wholeFrame_frame (by omega) ?_⟩
      intro _ _
      rw [← hn]
      exact hle
  | relay r =>
    obtain ⟨toAddr, fromAddr, payload, rfl, hlt⟩ := ho
    refine ⟨frame payload, ?_, wholeFrame_frame hlt fun m hm => nomatch hm⟩
    rw [SSCodec.encode, newRelayMessage_payload]
  | other => exact hnothing rfl

/-- A batch of calls of `Encode`. -/
theorem encodeAll_wholeFrame (hmax : maxPacketSize ≤ 2 ^ 32 + 3)
    (hmeta : ss.pbMeta = some pbMeta) (hcodec : ss.rpcCodec.Appends) (hlib : ss.lib.Appends)
    (dst : Bytes) {os : List (Obj V P)} (hos : ∀ o ∈ os, Built o) :
    ∃ fs : List Bytes,
      encodeAll maxPacketSize ss dst os = some (dst ++ fs.flatten, fs.map List.length) ∧
        List.Forall₂ (WholeFrame maxPacketSize) os fs := by
  induction os generalizing dst with
  | nil => exact ⟨[], by simp [encodeAll], List.Forall₂.nil⟩
  | cons o os ih =>
    obtain ⟨f, hf, hwhole⟩ :=
      encode_wholeFrame hmax hmeta hcodec hlib dst (hos o List.mem_cons_self)
    obtain ⟨fs, hfs, hall⟩ := ih (dst ++ f) fun o ho => hos o (List.mem_cons_of_mem _ ho)
    refine ⟨f :: fs, ?_, List.Forall₂.cons hwhole hall⟩
    simp only [encodeAll, hf, hfs, Option.map_some, List.flatten_cons, List.map_cons,
      List.append_assoc]

/-- Every call of `Encode` appends nothing or one whole frame and reports
how much, and so a batch is the slice it began with and one frame for each
object that could be encoded. -/
theorem encode_all_or_nothing (hmax : maxPacketSize ≤ 2 ^ 32 + 3)
    (hmeta : ss.pbMeta = some pbMeta) (hcodec : ss.rpcCodec.Appends) (hlib : ss.lib.Appends) :
    (∀ (dst : Bytes) (o : Obj V P), Built o →
      ∃ f, ss.encode maxPacketSize dst o = some (dst ++ f, f.length) ∧
        WholeFrame maxPacketSize o f) ∧
    ∀ (dst : Bytes) (os : List (Obj V P)), (∀ o ∈ os, Built o) →
      ∃ fs : List Bytes,
        encodeAll maxPacketSize ss dst os = some (dst ++ fs.flatten, fs.map List.length) ∧
          List.Forall₂ (WholeFrame maxPacketSize) os fs :=
  ⟨fun dst _ ho => encode_wholeFrame hmax hmeta hcodec hlib dst ho,
    fun dst _ hos => encodeAll_wholeFrame hmax hmeta hcodec hlib dst hos⟩

end

/-! ## A node that has registered one type -/

theorem rawCodec_appends : (rawCodec : Codec V).Appends := by
  intro dst v b h
  cases v with
  | bytes v =>
    obtain rfl := Except.ok.inj h
    exact List.prefix_append _ _
  | nil => cases h
  | object v => cases h

theorem rawProto_appends : rawProto.Appends := by
  intro dst m b h
  obtain rfl := Except.ok.inj h
  exact List.prefix_append _ _

/-- The registry of a node that has registered `Echo`. -/
def echoMeta : PbMeta String := (getMeta (registerAll rawProto [echoCall]) "ss").getD .empty

def echoCodec : SSCodec Bytes String (String × Bytes) :=
  { selfAddr := ⟨1⟩, rpcCodec := rawCodec, pbMeta := some echoMeta, lib := rawProto }

/-- An `Echo` between a message of no registered type and a message without
bytes. -/
def echoBatch : List (Obj Bytes (String × Bytes)) :=
  [.message { toAddr := ⟨2⟩, fromAddr := ⟨1⟩, payload := .proto ("*ss.Ping", []) },
    .message { toAddr := ⟨2⟩, fromAddr := ⟨1⟩, payload := .proto ("*ss.Echo", [7]) },
    .message { toAddr := ⟨2⟩, fromAddr := ⟨1⟩, payload := .bytes [] }]

theorem encode_all_or_nothing_echo :
    ∃ fs : List Bytes,
      encodeAll 4096 echoCodec [9] echoBatch = some ([9] ++ fs.flatten, fs.map List.length) ∧
        List.Forall₂ (WholeFrame 4096) echoBatch fs :=
  (encode_all_or_nothing (by decide) rfl rawCodec_appends rawProto_appends).2 [9] echoBatch
    (by simp [echoBatch, Built])

/-- The length in front of a relayed payload of 2^32 bytes is zero. -/
theorem relay_wraps (ss : SSCodec V T P) (maxPacketSize : Int) (toAddr fromAddr : LogicAddr)
    {payload : Bytes} (h : payload.length = 2 ^ 32) :
    ¬ ∃ f, ss.encode maxPacketSize [] (.relay (newRelayMessage toAddr fromAddr payload)) =
        some ([] ++ f, f.length) ∧ decode (f.take 4) = f.length - 4 := by
  intro hex
  obtain ⟨f, hf, hlen⟩ := hex
  rw [SSCodec.encode, newRelayMessage_payload, List.nil_append, List.nil_append] at hf
  obtain ⟨rfl, _⟩ := Prod.mk.inj (Option.some.inj hf)
  rw [frame_take, frame_length, h, decode_encode] at hlen
  exact absurd hlen (by decide)

theorem relay_length_wraps :
    ¬ ∃ f, echoCodec.encode 4096 []
        (.relay (newRelayMessage ⟨2⟩ ⟨1⟩ (List.replicate (2 ^ 32) 0))) = some ([] ++ f, f.length) ∧
      decode (f.take 4) = f.length - 4 :=
  relay_wraps echoCodec 4096 ⟨2⟩ ⟨1⟩ List.length_replicate

end ClusterGo.Codec
