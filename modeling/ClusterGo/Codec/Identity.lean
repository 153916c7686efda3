import ClusterGo.Codec.Batch
import ClusterGo.Codec.RoundTrip

/-!
# The identity of a protobuf message across the wire

A frame carries the id of its message type in 16 bits, and the registry
takes ids of 32 bits.  `proto_identity_iff` follows a message from `Encode`
through the frame to `Decode` at the target, which has the same registry:
the message arrives as it was sent if and only if its id is below 65536.
With a larger id the target looks the low 16 bits up, and finds another
type or none.
-/

namespace ClusterGo.Codec

open BigEndian Framing Rpc

variable {V T P : Type}

/-- The protobuf library as far as the round trip needs it: `Unmarshal`
inverts `MarshalAppend`, and no bytes are read as the empty message or not
at all.  The registry does not call `Unmarshal` for them. -/
structure ProtoLib.Lawful (lib : ProtoLib T P) : Prop where
  inverts : ∀ dst m b, lib.marshalAppend dst m = .ok b →
    ∃ out, b = dst ++ out ∧ lib.unmarshal out (lib.typeOf m) = .ok m
  unmarshal_nil : ∀ tt m, lib.unmarshal [] tt = .ok m → m = lib.new tt

theorem ProtoLib.Lawful.appends {lib : ProtoLib T P} (hlib : lib.Lawful) : lib.Appends := by
  intro dst m b h
  obtain ⟨out, rfl, _⟩ := hlib.inverts dst m b h
  exact List.prefix_append _ _

/-! ## Unmarshalling -/

/-- The bytes of a message are read back under an id of its type, also when
there are none. -/
theorem PbMeta.unmarshal_eq_ok {lib : ProtoLib T P} (hlib : lib.Lawful) {m : PbMeta T}
    {id : UInt32} {out : Bytes} {msg : P} (hnew : m.newMessage id = .ok (lib.typeOf msg))
    (hout : lib.unmarshal out (lib.typeOf msg) = .ok msg) : m.unmarshal lib id out = .ok msg := by
  rw [unmarshal, hnew, Fallible.ok_bind]
  split_ifs with hlen
  · exact hout
  · have hnil : out = [] :=
      List.eq_nil_of_length_eq_zero (Nat.le_zero.mp (Nat.le_of_not_lt hlen))
    rw [hnil] at hout
    exact congrArg Except.ok (hlib.unmarshal_nil _ _ hout).symm

/-- What `Marshal` answers is the id of the type and the bytes that
`Unmarshal` inverts. -/
theorem PbMeta.marshal_eq_ok {lib : ProtoLib T P} (hlib : lib.Lawful) {m : PbMeta T}
    {dst out : Bytes} {msg : P} {id : UInt32} (h : m.marshal lib dst msg = .ok (dst ++ out, id)) :
    m.nameToID (lib.name (lib.typeOf msg)) = some id ∧
      lib.unmarshal out (lib.typeOf msg) = .ok msg := by
  unfold marshal at h
  split at h
  · cases h
  · rename_i id' hid
    obtain ⟨b, hb, h⟩ := Fallible.bind_eq_ok.mp h
    obtain ⟨rfl, rfl⟩ := Prod.mk.inj (Except.ok.inj h)
    obtain ⟨out', heq, hinv⟩ := hlib.inverts dst msg _ hb
    rw [List.append_cancel_left heq]
    exact ⟨hid, hinv⟩

theorem decodeBody_proto {ss : SSCodec V T P} {pbMeta : PbMeta T}
    (hmeta : ss.pbMeta = some pbMeta) (toAddr fromAddr : LogicAddr) (cmd : UInt16) (out : Bytes)
    {r : BufferReader} (hr : r.Reads (encode 2 cmd.toNat ++ out)) :
    decodeBody ss pbMsg toAddr fromAddr r =
      .ofExcept (do
        let msg ← pbMeta.unmarshal ss.lib (UInt32.ofNat cmd.toNat) out
        return { toAddr, fromAddr, payload := .proto msg, cmd }) := by
  obtain ⟨r', hcmd, hr'⟩ := hr.getUint16
  rw [decodeBody_of_pb _ _ _ _ rfl hmeta, hcmd, hr'.getAll]

/-! ## The registry of a namespace -/

/-- When no name is registered twice, every call is the first for its
name. -/
theorem mem_firstOfName {lib : ProtoLib T P} {ns : String} {calls : List (RegisterCall P)}
    (hnames : ((calls.filter (·.ns = ns)).map (·.name lib)).Nodup) {c : RegisterCall P} :
    c ∈ firstOfName lib ns calls ↔ c ∈ calls ∧ c.ns = ns := by
  induction calls using List.reverseRecOn generalizing c with
  | nil => simp [firstOfName]
  | append_singleton calls d ih =>
    rw [List.filter_append, List.map_append, List.nodup_append'] at hnames
    obtain ⟨hbefore, _, hdisjoint⟩ := hnames
    rw [firstOfName_concat, List.mem_append, List.mem_singleton]
    by_cases hd : d.ns = ns
    · have hnew : ∀ a ∈ firstOfName lib ns calls, a.name lib ≠ d.name lib := by
        intro a ha heq
        obtain ⟨hmem, hns⟩ := (ih hbefore).mp ha
        refine hdisjoint (a := a.name lib) (List.mem_map_of_mem ?_) ?_
        · exact List.mem_filter.mpr ⟨hmem, decide_eq_true hns⟩
        · simp [hd, heq]
      rw [if_pos ⟨hd, hnew⟩, List.mem_cons, ih hbefore]
      constructor
      · intro hor
        rcases hor with rfl | ⟨hmem, hns⟩
        · exact ⟨Or.inr rfl, hd⟩
        · exact ⟨Or.inl hmem, hns⟩
      · intro hand
        rcases hand.1 with hmem | heq
        · exact Or.inr ⟨hmem, hand.2⟩
        · exact Or.inl heq
    · rw [if_neg fun hand => hd hand.1, ih hbefore]
      constructor
      · intro hand
        exact ⟨Or.inl hand.1, hand.2⟩
      · intro hand
        rcases hand.1 with hmem | rfl
        · exact ⟨hmem, hand.2⟩
        · exact absurd hand.2 hd

/-- `pbMeta` is the registry of a namespace after calls of `Register` with
distinct names and distinct ids. -/
structure RegistryOf (lib : ProtoLib T P) (ns : String) (calls : List (RegisterCall P))
    (pbMeta : PbMeta T) : Prop where
  getMeta_eq : getMeta (registerAll lib calls) ns = some pbMeta
  names_nodup : ((calls.filter (·.ns = ns)).map (·.name lib)).Nodup
  ids_nodup : ((calls.filter (·.ns = ns)).map (·.id)).Nodup

section

variable {lib : ProtoLib T P} {ns : String} {calls : List (RegisterCall P)} {pbMeta : PbMeta T}

theorem RegistryOf.represents (h : RegistryOf lib ns calls pbMeta) :
    Represents lib (firstOfName lib ns calls) pbMeta := by
  have hrep := represents_registerAll lib ns calls
  have hmeta : registerAll lib calls ns = some pbMeta := h.getMeta_eq
  rw [hmeta] at hrep
  exact hrep

theorem RegistryOf.firstOfName_ids_nodup (h : RegistryOf lib ns calls pbMeta) :
    ((firstOfName lib ns calls).map (·.id)).Nodup := by
  refine List.Nodup.map_on (fun c hc d hd hid => ?_) h.represents.names_nodup.of_map
  obtain ⟨hcmem, hcns⟩ := (mem_firstOfName h.names_nodup).mp hc
  obtain ⟨hdmem, hdns⟩ := (mem_firstOfName h.names_nodup).mp hd
  exact List.inj_on_of_nodup_map h.ids_nodup
    (List.mem_filter.mpr ⟨hcmem, decide_eq_true hcns⟩)
    (List.mem_filter.mpr ⟨hdmem, decide_eq_true hdns⟩) hid

/-- Looking an id up gives a registered type exactly for its own id. -/
theorem RegistryOf.newMessage_iff (h : RegistryOf lib ns calls pbMeta) {c : RegisterCall P}
    (hc : c ∈ calls) (hns : c.ns = ns) (id : UInt32) :
    pbMeta.newMessage id = .ok (lib.typeOf c.msg) ↔ id = c.id := by
  have hrep := h.represents
  have hcmem := (mem_firstOfName h.names_nodup).mpr ⟨hc, hns⟩
  constructor
  · intro hnew
    rw [PbMeta.newMessage_eq hrep.stored, hrep.typeAt] at hnew
    cases hfind : (firstOfName lib ns calls).find? fun a => a.id = id with
    | none => simp [hfind] at hnew
    | some a =>
      simp only [hfind, Option.map_some, Except.ok.injEq] at hnew
      have hamem := List.mem_of_find?_eq_some hfind
      have haid := List.find?_some hfind
      rw [decide_eq_true_eq] at haid
      -- one type has one name, and a name is registered once
      rw [← haid, List.inj_on_of_nodup_map hrep.names_nodup hamem hcmem (congrArg lib.name hnew)]
  · intro hid
    rw [hid, hrep.newMessage_of_mem hcmem]
    exact Keyed.find?_key_of_mem h.firstOfName_ids_nodup hcmem

end

/-! ## From `Encode` to `Decode` -/

/-- `Decode` of a payload returns a message for `m` that carries `msg`
itself, under a command that the registry resolves to its type. -/
def Arrives (dec : SSCodec V T P) (pbMeta : PbMeta T) (m : Message V P) (msg : P)
    (payload : Bytes) : Prop :=
  ∃ cmd : UInt16,
    (dec.decode payload).2 = .value (.message
      { toAddr := m.toAddr, fromAddr := m.fromAddr, payload := .proto msg, cmd }) ∧
    pbMeta.newMessage (UInt32.ofNat cmd.toNat) = .ok (dec.lib.typeOf msg)

/-- The frame of an id and the bytes of a message arrives if and only if
the low 16 bits of the id are looked up as its type. -/
theorem arrives_protoBody_iff {dec : SSCodec V T P} (hlib : dec.lib.Lawful) {pbMeta : PbMeta T}
    (hmeta : dec.pbMeta = some pbMeta) {m : Message V P} (hself : dec.selfAddr = m.toAddr)
    {msg : P} (id : UInt32) {out : Bytes}
    (hout : dec.lib.unmarshal out (dec.lib.typeOf msg) = .ok msg) :
    Arrives dec pbMeta m msg (protoBody m id out) ↔
      pbMeta.newMessage (UInt32.ofNat (UInt16.ofNat id.toNat).toNat) =
        .ok (dec.lib.typeOf msg) := by
  obtain ⟨r, hr, hdecode⟩ :=
    decode_header_append dec m pbMsg (encode 2 (UInt16.ofNat id.toNat).toNat ++ out)
  rw [if_pos hself, decodeBody_proto hmeta m.toAddr m.fromAddr _ out hr] at hdecode
  unfold Arrives protoBody
  rw [hdecode]
  constructor
  · intro hex
    obtain ⟨cmd, hvalue, hnew⟩ := hex
    -- the command of the message is the one on the wire
    cases hwire : pbMeta.unmarshal dec.lib (UInt32.ofNat (UInt16.ofNat id.toNat).toNat) out with
    | error text =>
      rw [hwire] at hvalue
      cases hvalue
    | ok msg' =>
      rw [hwire] at hvalue
      injection hvalue with hvalue
      injection hvalue with hvalue
      injection hvalue with _ _ _ hcmd
      rw [hcmd]
      exact hnew
  · intro hnew
    refine ⟨UInt16.ofNat id.toNat, ?_, hnew⟩
    rw [PbMeta.unmarshal_eq_ok hlib hnew hout]
    rfl

/-- The command of an id is the id again if 16 bits hold it. -/
theorem command_eq_iff (id : UInt32) :
    UInt32.ofNat (UInt16.ofNat id.toNat).toNat = id ↔ id.toNat < 65536 := by
  have hword : (UInt32.ofNat (UInt16.ofNat id.toNat).toNat).toNat = id.toNat % 65536 := by
    rw [UInt16.toNat_ofNat', UInt32.toNat_ofNat']
    exact Nat.mod_eq_of_lt (Nat.lt_trans (Nat.mod_lt _ (by decide)) (by decide))
  rw [← UInt32.toNat_inj, hword]
  omega

/-- A message of a registered type arrives at its target as it was sent if
and only if the id of the type is below 65536. -/
theorem proto_identity_iff {maxPacketSize : Int} {ns : String} {calls : List (RegisterCall P)}
    {pbMeta : PbMeta T} {ss dec : SSCodec V T P} (hlib : ss.lib.Lawful)
    (hreg : RegistryOf ss.lib ns calls pbMeta) (hss : ss.pbMeta = some pbMeta)
    (hdec : dec.pbMeta = some pbMeta) (hdeclib : dec.lib = ss.lib) {m : Message V P} {msg : P}
    (hp : m.payload = .proto msg) (hself : dec.selfAddr = m.toAddr) {c : RegisterCall P}
    (hc : c ∈ calls) (hns : c.ns = ns) (htype : ss.lib.typeOf c.msg = ss.lib.typeOf msg)
    {dst b : Bytes} {n : Nat} (hencode : ss.encode maxPacketSize dst (.message m) = some (b, n))
    (hn : 0 < n) :
    (∃ f, b = dst ++ f ∧ f.length = n ∧ Arrives dec pbMeta m msg (f.drop 4)) ↔
      c.id.toNat < 65536 := by
  have hcmem := (mem_firstOfName hreg.names_nodup).mpr ⟨hc, hns⟩
  rcases encodeMessage_proto hlib.appends hp hss with hnone | ⟨id, out, hmarshal, hframe⟩
  · have hzero := Option.some.inj (hencode.symm.trans hnone)
    exact absurd (Prod.mk.inj hzero).2 (Nat.ne_of_gt hn)
  · obtain ⟨hid, hout⟩ := PbMeta.marshal_eq_ok hlib hmarshal
    have hname := hreg.represents.nameToID_of_mem hcmem
    rw [RegisterCall.name, htype, hid] at hname
    obtain rfl := Option.some.inj hname
    have hb := Option.some.inj (hframe.symm.trans hencode)
    rcases frameOrNothing_cases hb with ⟨_, hzero⟩ | ⟨rfl, rfl, _⟩
    · omega
    · have harrives := arrives_protoBody_iff (hdeclib ▸ hlib) hdec hself c.id (hdeclib ▸ hout)
      rw [hdeclib, ← htype, hreg.newMessage_iff hc hns, command_eq_iff] at harrives
      rw [← harrives]
      constructor
      · intro hex
        obtain ⟨f, heq, _, hf⟩ := hex
        rw [← List.append_cancel_left heq, frame_drop] at hf
        exact hf
      · intro hf
        exact ⟨frame (protoBody m c.id out), rfl, frame_length _, by rw [frame_drop]; exact hf⟩

/-! ## An id that 16 bits do not hold -/

theorem rawProto_lawful : rawProto.Lawful where
  inverts := by
    intro dst m b h
    obtain rfl := Except.ok.inj h
    exact ⟨m.2, rfl, rfl⟩
  unmarshal_nil := fun _ _ h => (Except.ok.inj h).symm

def echoMessage : Message Bytes (String × Bytes) :=
  { toAddr := ⟨2⟩, fromAddr := ⟨1⟩, payload := .proto ("*ss.Echo", [7]) }

theorem echoMeta_registryOf : RegistryOf rawProto "ss" [echoCall] echoMeta where
  getMeta_eq := by
    have hne : firstOfName rawProto "ss" [echoCall] ≠ [] := by simp [firstOfName, echoCall]
    obtain ⟨m, hm⟩ := registerAll_eq_some "ss" hne
    rw [echoMeta, getMeta, hm]
    rfl
  names_nodup := by simp [echoCall]
  ids_nodup := by simp [echoCall]

/-- The codec of the node that `echoMessage` is for. -/
def echoTarget : SSCodec Bytes String (String × Bytes) := { echoCodec with selfAddr := ⟨2⟩ }

/-- The frame of `echoMessage`. -/
def echoFrame : Bytes := [0, 0, 0, 12, 1, 0, 0, 0, 2, 0, 0, 0, 1, 0, 1, 7]

/-- `Echo` has the id 1 and arrives. -/
theorem proto_identity_echo :
    echoCodec.encode 4096 [] (.message echoMessage) = some (echoFrame, 16) ∧
      Arrives echoTarget echoMeta echoMessage ("*ss.Echo", [7]) (echoFrame.drop 4) := by
  have hencode : echoCodec.encode 4096 [] (.message echoMessage) = some (echoFrame, 16) := by
    decide +kernel
  have hlib : echoCodec.lib.Lawful := rawProto_lawful
  have hreg : RegistryOf echoCodec.lib "ss" [echoCall] echoMeta := echoMeta_registryOf
  have hdec : echoTarget.pbMeta = some echoMeta := rfl
  have hself : echoTarget.selfAddr = echoMessage.toAddr := rfl
  have hp : echoMessage.payload = .proto ("*ss.Echo", [7]) := rfl
  have hiff := proto_identity_iff hlib hreg rfl hdec rfl hp hself List.mem_cons_self rfl rfl
    hencode (by decide)
  obtain ⟨f, heq, _, harrives⟩ := hiff.mpr (by decide)
  have heq : echoFrame = f := heq
  exact ⟨hencode, heq ▸ harrives⟩

/-- `Ping` has the id 65537. -/
def widePingCall : RegisterCall (String × Bytes) :=
  { ns := "ss", msg := ("*ss.Ping", []), id := 65537 }

def wideCodec : SSCodec Bytes String (String × Bytes) :=
  { echoCodec with
    pbMeta := getMeta (registerAll rawProto [echoCall, widePingCall]) "ss" }

/-- A `Ping` is encoded and arrives as an `Echo`. -/
theorem ping_arrives_as_echo :
    wideCodec.encode 4096 []
        (.message { toAddr := ⟨2⟩, fromAddr := ⟨1⟩, payload := .proto ("*ss.Ping", [7]) }) =
      some ([0, 0, 0, 12, 1, 0, 0, 0, 2, 0, 0, 0, 1, 0, 1, 7], 16) ∧
    (SSCodec.decode { wideCodec with selfAddr := ⟨2⟩ }
        [1, 0, 0, 0, 2, 0, 0, 0, 1, 0, 1, 7]).2 =
      .value (.message
        { toAddr := ⟨2⟩, fromAddr := ⟨1⟩, payload := .proto ("*ss.Echo", [7]), cmd := 1 }) := by
  decide +kernel

end ClusterGo.Codec
