import ClusterGo.Codec.Batch
import ClusterGo.Codec.Payload

/-!
# Which payloads `Decode` checks

The buffer reader answers zero for a field that is cut off and does not
move.  `Decode` does not ask whether a field was there.

* A payload that is long enough for its type is read field by field, and a
  message that is returned reports the bytes at offsets 1, 5 and 9
  (`complete_of_bodyOf`).
* A shorter payload is answered with an error only when it happens to name
  this node and its type has a parser that runs out of bytes.  A cut-off
  binary message is returned with zeros in the place of what is missing, and
  a payload without a target is relayed to address zero.

`decode_checked_iff` puts the two together.
-/

namespace ClusterGo.Codec

open BigEndian Rpc Fallible

variable {V T P : Type}

/-- The type of the message in a payload. -/
def typeOf (payload : Bytes) : UInt8 := getMsgType (payload.getD 0 0)

/-- A payload without room for flag, target and sender, and for the command
if its type has one. -/
def Truncated (payload : Bytes) : Prop :=
  payload.length < 9 ∨
    ((typeOf payload = binMsg ∨ typeOf payload = pbMsg) ∧ payload.length < 11)

instance (payload : Bytes) : Decidable (Truncated payload) :=
  inferInstanceAs (Decidable (_ ∨ _))

/-- The command of a payload, and the data behind it. -/
def CommandRead (payload : Bytes) (cmd : UInt16) : Prop :=
  11 ≤ payload.length ∧ cmd.toNat = decode ((payload.drop 9).take 2)

/-- The message that is returned for a payload reports what stands at its
own place in the payload, and its data is the rest. -/
structure Complete (ss : SSCodec V T P) (payload : Bytes) (m : Message V P) : Prop where
  header : 9 ≤ payload.length
  toAddr : m.toAddr.val.toNat = decode ((payload.drop 1).take 4)
  fromAddr : m.fromAddr.val.toNat = decode ((payload.drop 5).take 4)
  data : match m.payload with
    | .bytes b => CommandRead payload m.cmd ∧ b = payload.drop 11
    | .proto msg => CommandRead payload m.cmd ∧ ∃ pbMeta, ss.pbMeta = some pbMeta ∧
        pbMeta.unmarshal ss.lib (UInt32.ofNat m.cmd.toNat) (payload.drop 11) = .ok msg
    | .request req => decodeRequest (payload.drop 9) = .ok req
    | .response resp => decodeResponse (payload.drop 9) = .ok resp
    | .other => False

/-- Only complete payloads become messages, and every shorter one is
answered with an error. -/
def Checked (ss : SSCodec V T P) (payload : Bytes) : Prop :=
  (∀ m, (ss.decode payload).2 = .value (.message m) → Complete ss payload m) ∧
    (Truncated payload → ∃ text, (ss.decode payload).2 = .error text)

/-- The registry does not know the id, or the data is not a message of its
type. -/
def PbMeta.Rejects (pbMeta : PbMeta T) (lib : ProtoLib T P) (id : UInt32) (data : Bytes) : Prop :=
  ∀ tt, pbMeta.newMessage id = .ok tt → data ≠ [] ∧ ∀ msg, lib.unmarshal data tt ≠ .ok msg

/-- The command that `Decode` finds in a payload, from where its body
begins, and the data behind it. -/
def commandAt (payload : Bytes) : UInt16 × Bytes :=
  let i := bodyOffset payload
  if i + 2 ≤ payload.length then
    (UInt16.ofNat (decode ((payload.drop i).take 2)), payload.drop (i + 2))
  else (0, payload.drop i)

/-- This node stumbles over the payload: it names this node, and what is
taken for its body is not a body of its type. -/
structure Stumbles (ss : SSCodec V T P) (payload : Bytes) : Prop where
  target : ss.selfAddr = ⟨wordAt payload 1⟩
  not_bin : typeOf payload ≠ binMsg
  proto : typeOf payload = pbMsg → ∃ pbMeta, ss.pbMeta = some pbMeta ∧
    pbMeta.Rejects ss.lib (UInt32.ofNat (commandAt payload).1.toNat) (commandAt payload).2

/-! ## Reading a body -/

/-- The reader behind the header. -/
def bodyReader (payload : Bytes) : BufferReader :=
  { bs := payload, offset := bodyOffset payload }

theorem bodyReader_getUint16 (payload : Bytes) :
    (bodyReader payload).getUint16.1 = (commandAt payload).1 ∧
      (bodyReader payload).getUint16.2.getAll = (commandAt payload).2 := by
  unfold BufferReader.getUint16 commandAt bodyReader
  by_cases h : bodyOffset payload + 2 ≤ payload.length
  · rw [if_neg (Nat.not_lt.mpr h)]
    simp only [if_pos h]
    exact ⟨trivial, rfl⟩
  · rw [if_pos (Nat.lt_of_not_le h)]
    simp only [if_neg h]
    exact ⟨trivial, rfl⟩

theorem bodyReader_getAll (payload : Bytes) :
    (bodyReader payload).getAll = payload.drop (bodyOffset payload) := rfl

/-- What `Decode` makes of a payload for this node. -/
def bodyOf (ss : SSCodec V T P) (payload : Bytes) : Outcome (Message V P) :=
  decodeBody ss (payload.getD 0 0) ⟨wordAt payload 1⟩ ⟨wordAt payload 5⟩ (bodyReader payload)

/-- `Decode` at fixed places. -/
theorem decode_eq_bodyOf (ss : SSCodec V T P) {payload : Bytes} (hne : payload ≠ []) :
    (ss.decode payload).2 =
      if ss.selfAddr = ⟨wordAt payload 1⟩ then (bodyOf ss payload).map .message
      else .value (.relay (newRelayMessage ⟨wordAt payload 1⟩ ⟨wordAt payload 5⟩ payload)) := by
  rw [decode_eq ss hne, readHead_eq hne]
  rfl

section Outcome

variable {α β : Type} {e : Except String α} {f : α → β}

theorem ofExcept_eq_error {text : String} :
    Outcome.ofExcept (do let a ← e; return f a) = .error text ↔ e = .error text := by
  cases e with
  | error text => simp [Outcome.ofExcept]
  | ok a => simp [Outcome.ofExcept, pure, Except.pure]

theorem Outcome.map_eq_value {o : Outcome α} {b : β} :
    o.map f = .value b ↔ ∃ a, o = .value a ∧ f a = b := by
  cases o <;> simp [Outcome.map]

theorem Outcome.map_eq_error {o : Outcome α} {text : String} :
    o.map f = .error text ↔ o = .error text := by
  cases o <;> simp [Outcome.map]

end Outcome

/-! ## Complete payloads -/

theorem wordAt_toNat {payload : Bytes} {i : Nat} (h : i + 4 ≤ payload.length) :
    (wordAt payload i).toNat = decode ((payload.drop i).take 4) := by
  have hlt := decode_lt ((payload.drop i).take 4)
  rw [List.length_take, List.length_drop, Nat.min_eq_left (by omega)] at hlt
  rw [wordAt, if_pos h, UInt32.toNat_ofNat_of_lt' hlt]

theorem bodyOffset_of_le {payload : Bytes} (h : 9 ≤ payload.length) : bodyOffset payload = 9 := by
  rw [bodyOffset, if_neg (by omega), if_neg (by omega)]

theorem commandAt_of_le {payload : Bytes} (h : 11 ≤ payload.length) :
    CommandRead payload (commandAt payload).1 ∧ (commandAt payload).2 = payload.drop 11 := by
  have hlt := decode_lt ((payload.drop 9).take 2)
  rw [List.length_take, List.length_drop, Nat.min_eq_left (by omega)] at hlt
  simp only [commandAt, bodyOffset_of_le (Nat.le_trans (by decide) h), if_pos h]
  exact ⟨⟨h, UInt16.toNat_ofNat_of_lt' hlt⟩, trivial⟩

/-- A message that is returned for a payload that is long enough. -/
theorem complete_of_bodyOf {ss : SSCodec V T P} {payload : Bytes} (hlong : ¬ Truncated payload)
    {m : Message V P} (h : bodyOf ss payload = .value m) : Complete ss payload m := by
  obtain ⟨hcmd, hdata⟩ := bodyReader_getUint16 payload
  have hnine : 9 ≤ payload.length := Nat.le_of_not_lt fun hlt => hlong (Or.inl hlt)
  have heleven : typeOf payload = binMsg ∨ typeOf payload = pbMsg → 11 ≤ payload.length :=
    fun htype => Nat.le_of_not_lt fun hlt => hlong (Or.inr ⟨htype, hlt⟩)
  have hto : (wordAt payload 1).toNat = _ := wordAt_toNat (by omega)
  have hfrom : (wordAt payload 5).toNat = _ := wordAt_toNat hnine
  cases bodyRead_of_decodeBody h with
  | bin htype =>
    obtain ⟨hread, hrest⟩ := commandAt_of_le (heleven (Or.inl htype))
    exact ⟨hnine, hto, hfrom, hcmd ▸ hread, hdata.trans hrest⟩
  | pb htype hmeta hread =>
    obtain ⟨hcommand, hrest⟩ := commandAt_of_le (heleven (Or.inr htype))
    rw [hdata, hrest] at hread
    exact ⟨hnine, hto, hfrom, hcmd ▸ hcommand, _, hmeta, hread⟩
  | req htype hread | resp htype hread =>
    rw [bodyReader_getAll, bodyOffset_of_le hnine] at hread
    exact ⟨hnine, hto, hfrom, hread⟩

/-! ## Truncated payloads -/

theorem unmarshal_eq_error_iff {lib : ProtoLib T P} {pbMeta : PbMeta T} {id : UInt32}
    {data : Bytes} :
    (∃ text, pbMeta.unmarshal lib id data = .error text) ↔ pbMeta.Rejects lib id data := by
  unfold PbMeta.unmarshal PbMeta.Rejects
  cases pbMeta.newMessage id with
  | error text => simp
  | ok tt =>
    rw [ok_bind]
    by_cases hdata : data = []
    · simp [hdata, pure, Except.pure]
    · have hlen : data.length > 0 := List.length_pos_iff.mpr hdata
      rw [if_pos hlen]
      cases hread : lib.unmarshal data tt with
      | error text => simp [hdata, hread]
      | ok msg => simp [hread]

theorem decodeResponse_of_lt {b : Bytes} (h : b.length < 8) :
    (decodeResponse b : Except String (ResponseMsg V)) = .error errNotEnough := by
  rw [decodeResponse, readUint64, if_pos h]
  rfl

theorem truncated_body_length {payload : Bytes} (hne : payload ≠ []) (h : Truncated payload)
    (hreq : typeOf payload ≠ binMsg) (hpb : typeOf payload ≠ pbMsg) :
    (bodyReader payload).getAll.length < 8 := by
  have hlt : payload.length < 9 := by
    rcases h with hlt | ⟨htype, _⟩
    · exact hlt
    · rcases htype with hbin | hpb'
      · exact absurd hbin hreq
      · exact absurd hpb' hpb
  have hshort := readHead_of_lt hne hlt
  rw [readHead_eq hne] at hshort
  exact hshort

/-- A truncated payload for this node is refused if its type is not binary
and, for a protobuf message, the registry rejects what is read. -/
theorem bodyOf_truncated {ss : SSCodec V T P} {payload : Bytes} (hne : payload ≠ [])
    (htrunc : Truncated payload) :
    (∃ text, bodyOf ss payload = .error text) ↔
      typeOf payload ≠ binMsg ∧ (typeOf payload = pbMsg → ∃ pbMeta, ss.pbMeta = some pbMeta ∧
        pbMeta.Rejects ss.lib (UInt32.ofNat (commandAt payload).1.toNat)
          (commandAt payload).2) := by
  obtain ⟨hcmd, hdata⟩ := bodyReader_getUint16 payload
  unfold bodyOf
  by_cases hbin : typeOf payload = binMsg
  · rw [decodeBody_of_bin _ _ _ _ hbin]
    simp [hbin]
  by_cases hpb : typeOf payload = pbMsg
  · cases hmeta : ss.pbMeta with
    | none =>
      rw [decodeBody_of_pb_none _ _ _ _ hpb hmeta]
      simp [hpb]
    | some pbMeta =>
      rw [decodeBody_of_pb _ _ _ _ hpb hmeta, hcmd, hdata]
      simp only [ofExcept_eq_error, unmarshal_eq_error_iff]
      refine ⟨fun h => ⟨hbin, fun _ => ⟨pbMeta, rfl, h⟩⟩, fun h => ?_⟩
      obtain ⟨pbMeta', heq, hrejects⟩ := h.2 hpb
      rw [Option.some.inj heq]
      exact hrejects
  have hshort := truncated_body_length hne htrunc hbin hpb
  have htrue : typeOf payload ≠ binMsg ∧ (typeOf payload = pbMsg → ∃ pbMeta,
      ss.pbMeta = some pbMeta ∧ pbMeta.Rejects ss.lib
        (UInt32.ofNat (commandAt payload).1.toNat) (commandAt payload).2) :=
    ⟨hbin, fun heq => absurd heq hpb⟩
  refine ⟨fun _ => htrue, fun _ => ?_⟩
  by_cases hreq : typeOf payload = rpcReq
  · rw [decodeBody_of_req _ _ _ _ hreq, decodeRequest_of_lt hshort]
    exact ⟨_, rfl⟩
  by_cases hresp : typeOf payload = rpcResp
  · rw [decodeBody_of_resp _ _ _ _ hresp, decodeResponse_of_lt hshort]
    exact ⟨_, rfl⟩
  · exact ⟨_, decodeBody_of_other _ _ _ _ hbin hpb hreq hresp⟩

/-! ## When a header is checked -/

/-- `Decode` accepts only complete headers if and only if the payload is
long enough for its type, or this node stumbles over what is left of it. -/
theorem decode_checked_iff (ss : SSCodec V T P) {payload : Bytes} (hne : payload ≠ []) :
    Checked ss payload ↔ ¬ Truncated payload ∨ Stumbles ss payload := by
  have herror : Truncated payload →
      ((∃ text, (ss.decode payload).2 = .error text) ↔ Stumbles ss payload) := by
    intro htrunc
    rw [decode_eq_bodyOf ss hne]
    by_cases hself : ss.selfAddr = ⟨wordAt payload 1⟩
    · rw [if_pos hself]
      simp only [Outcome.map_eq_error]
      rw [bodyOf_truncated hne htrunc]
      exact ⟨fun h => ⟨hself, h.1, h.2⟩, fun h => ⟨h.not_bin, h.proto⟩⟩
    · rw [if_neg hself]
      refine ⟨fun h => ?_, fun h => absurd h.target hself⟩
      obtain ⟨text, htext⟩ := h
      cases htext
  by_cases htrunc : Truncated payload
  · constructor
    · intro h
      exact Or.inr ((herror htrunc).mp (h.2 htrunc))
    · intro h
      obtain ⟨text, htext⟩ := (herror htrunc).mpr (h.resolve_left fun hnot => hnot htrunc)
      refine ⟨fun m hm => ?_, fun _ => ⟨text, htext⟩⟩
      rw [htext] at hm
      cases hm
  · refine ⟨fun _ => Or.inl htrunc, fun _ => ⟨fun m hm => ?_, fun h => absurd h htrunc⟩⟩
    rw [decode_eq_bodyOf ss hne] at hm
    split_ifs at hm
    · obtain ⟨m', hbody, heq⟩ := Outcome.map_eq_value.mp hm
      obtain rfl := Decoded.message.inj heq
      exact complete_of_bodyOf htrunc hbody
    · cases hm

/-! ## Payloads at node 1 -/

theorem decode_checked_hello : Checked echoCodec [2, 0, 0, 0, 1, 0, 0, 0, 2, 0, 3, 104] :=
  (decode_checked_iff echoCodec (by decide)).mpr (Or.inl (by decide))

/-- A binary message that ends inside its sender is returned with sender
zero and with the bytes of the sender as its command and its data, and a
single byte is relayed to address zero. -/
theorem truncated_accepted :
    (echoCodec.decode [2, 0, 0, 0, 1, 5, 6, 7]).2 =
      .value (.message { toAddr := ⟨1⟩, fromAddr := ⟨0⟩, payload := .bytes [7], cmd := 0x0506 }) ∧
    (echoCodec.decode [2]).2 = .value (.relay (newRelayMessage ⟨0⟩ ⟨0⟩ [2])) := by
  decide +kernel

end ClusterGo.Codec
