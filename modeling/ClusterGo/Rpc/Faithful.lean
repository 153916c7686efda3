import ClusterGo.Rpc.Message

/-!
# What the decoders accept

The other direction of the round trip: from bytes to a message and back to
bytes.  The bytes are any bytes, also ones that no encoder writes.

* Every reader is exact: what it accepts is the field of the value it
  answers and the rest (`readBytes_exact` and the lemmas beside it).
* `readRequest` and `readResponse` are the decoders with the bytes they
  leave, so that the consumed part can be named.
* `decode_faithful_iff` says that a request is always written back as it
  came, up to a oneway byte that is neither zero nor one, and that a
  response is if and only if its error code is in the table.  `NewError`
  answers nil for a code above the table, so the error of such a response is
  lost and it looks like a success.
-/

namespace ClusterGo.Rpc

open BigEndian Fallible

variable {V : Type}

/-! ## Exact readers -/

theorem readByte_exact {b rest : Bytes} {v : UInt8} (h : readByte b = .ok (v, rest)) :
    b = v :: rest := by
  cases b with
  | nil => cases h
  | cons w b =>
    obtain ⟨rfl, rfl⟩ := Prod.mk.inj (Except.ok.inj h)
    rfl

theorem readBool_exact {b rest : Bytes} {v : Bool} (h : readBool b = .ok (v, rest)) :
    ∃ w, b = w :: rest ∧ v = (w == 1) := by
  obtain ⟨⟨w, c⟩, hread, h⟩ := bind_eq_ok.mp h
  obtain ⟨rfl, rfl⟩ := Prod.mk.inj (Except.ok.inj h)
  exact ⟨w, readByte_exact hread, rfl⟩

/-- What is read as a word of `n` bytes is that word. -/
theorem readUint_exact {α : Type} {n : Nat} {ofNat : Nat → α} {toNat : α → Nat}
    (hword : ∀ x, x < 256 ^ n → toNat (ofNat x) = x) {b rest : Bytes} {v : α}
    (h : (if b.length < n then .error errNotEnough
      else .ok (ofNat (decode (b.take n)), b.drop n) : Except String (α × Bytes)) =
        .ok (v, rest)) : b = encode n (toNat v) ++ rest := by
  split_ifs at h with hlen
  obtain ⟨hb, hlt⟩ := eq_encode_append (Nat.le_of_not_lt hlen)
  obtain ⟨rfl, rfl⟩ := Prod.mk.inj (Except.ok.inj h)
  rw [hword _ hlt]
  exact hb

theorem readUint16_exact {b rest : Bytes} {v : UInt16} (h : readUint16 b = .ok (v, rest)) :
    b = encode 2 v.toNat ++ rest :=
  readUint_exact (fun _ hlt => UInt16.toNat_ofNat_of_lt' hlt) h

theorem readUint64_exact {b rest : Bytes} {v : UInt64} (h : readUint64 b = .ok (v, rest)) :
    b = encode 8 v.toNat ++ rest :=
  readUint_exact (fun _ hlt => UInt64.toNat_ofNat_of_lt' hlt) h

theorem readBytes_exact {b v rest : Bytes} (h : readBytes b = .ok (v, rest)) :
    b = bytesField v ++ rest := by
  rw [bytesField_of_lt (readBytes_length h)]
  obtain ⟨⟨size, c⟩, hsize, h⟩ := bind_eq_ok.mp h
  rw [readUint16_exact hsize]
  dsimp only at h
  split at h
  · split at h
    · cases h
    · rename_i hlen
      obtain ⟨rfl, rfl⟩ := Prod.mk.inj (Except.ok.inj h)
      rw [List.length_take, Nat.min_eq_left (Nat.le_of_not_lt hlen), List.append_assoc,
        List.take_append_drop]
  · rename_i hzero
    obtain ⟨rfl, rfl⟩ := Prod.mk.inj (Except.ok.inj h)
    have hnat : size.toNat = 0 := by
      rw [gt_iff_lt, UInt16.lt_iff_toNat_lt] at hzero
      exact Nat.le_zero.mp (Nat.le_of_not_lt hzero)
    rw [hnat]
    rfl

/-! ## The decoders with the bytes they leave -/

/-- `DecodeRequest` and the unread bytes. -/
def readRequest (buff : Bytes) : Except String (RequestMsg V × Bytes) := do
  let (seq, b) ← readUint64 buff
  let (oneway, b) ← readBool b
  let (method, b) ← readString b
  let (userData, b) ← readBytes b
  let (arg, b) ← readBytes b
  return ({ seq, oneway, method, userData, arg := .bytes arg }, b)

/-- `DecodeResponse` and the unread bytes. -/
def readResponse (buff : Bytes) : Except String (ResponseMsg V × Bytes) := do
  let (seq, b) ← readUint64 buff
  let (userData, b) ← readBytes b
  let (err, b) ← readError b
  let (ret, b) ← readBytes b
  return ({ seq, err, userData, ret := .bytes ret }, b)

theorem decodeRequest_eq_readRequest (b : Bytes) :
    (decodeRequest b : Except String (RequestMsg V)) = (readRequest b).map Prod.fst := by
  simp only [decodeRequest, readRequest, map_bind]
  rfl

theorem decodeResponse_eq_readResponse (b : Bytes) :
    (decodeResponse b : Except String (ResponseMsg V)) = (readResponse b).map Prod.fst := by
  simp only [decodeResponse, readResponse, map_bind]
  rfl

/-- The bytes of a request are its fields one after the other. -/
theorem readRequest_exact {b rest : Bytes} {req : RequestMsg V}
    (h : readRequest b = .ok (req, rest)) :
    ∃ (oneway : UInt8) (arg : Bytes), req.oneway = (oneway == 1) ∧ req.arg = .bytes arg ∧
      arg.length < 65536 ∧
      b = encode 8 req.seq.toNat ++ oneway :: (bytesField req.method ++
        (bytesField req.userData ++ (bytesField arg ++ rest))) := by
  simp only [readRequest, bind_eq_ok] at h
  obtain ⟨⟨seq, c₁⟩, hseq, ⟨oneway, c₂⟩, honeway, ⟨method, c₃⟩, hmethod, ⟨user, c₄⟩, huser,
    ⟨arg, c₅⟩, harg, h⟩ := h
  obtain ⟨rfl, rfl⟩ := Prod.mk.inj (Except.ok.inj h)
  obtain ⟨w, hw, hone⟩ := readBool_exact honeway
  refine ⟨w, arg, hone, rfl, readBytes_length harg, ?_⟩
  dsimp only at hw hmethod huser harg ⊢
  rw [readUint64_exact hseq, hw, readBytes_exact hmethod, readBytes_exact huser,
    readBytes_exact harg]

/-- The error of a response is its code and, unless the code is zero, a
text. -/
theorem readError_exact {b rest : Bytes} {err : Option Error}
    (h : readError b = .ok (err, rest)) :
    ∃ code : UInt16, (code = 0 ∧ err = none ∧ b = encode 2 code.toNat ++ rest) ∨
      (code ≠ 0 ∧ ∃ str, err = newError code.toNat str ∧
        b = encode 2 code.toNat ++ (bytesField str ++ rest)) := by
  obtain ⟨⟨code, c⟩, hcode, h⟩ := bind_eq_ok.mp h
  refine ⟨code, ?_⟩
  rw [readUint16_exact hcode]
  dsimp only at h
  split at h
  · rename_i hne
    obtain ⟨⟨str, d⟩, hstr, h⟩ := bind_eq_ok.mp h
    obtain ⟨rfl, rfl⟩ := Prod.mk.inj (Except.ok.inj h)
    refine Or.inr ⟨hne, str, rfl, ?_⟩
    rw [readBytes_exact hstr]
  · rename_i hzero
    obtain ⟨rfl, rfl⟩ := Prod.mk.inj (Except.ok.inj h)
    exact Or.inl ⟨not_not.mp hzero, rfl, rfl⟩

/-- The bytes of a response are its fields one after the other. -/
theorem readResponse_exact {b rest : Bytes} {resp : ResponseMsg V}
    (h : readResponse b = .ok (resp, rest)) :
    ∃ c ret, readError c = .ok (resp.err, bytesField ret ++ rest) ∧ resp.ret = .bytes ret ∧
      ret.length < 65536 ∧ resp.userData.length < 65536 ∧
      b = encode 8 resp.seq.toNat ++ (bytesField resp.userData ++ c) := by
  simp only [readResponse, bind_eq_ok] at h
  obtain ⟨⟨seq, c₁⟩, hseq, ⟨user, c₂⟩, huser, ⟨err, c₃⟩, herr, ⟨ret, c₄⟩, hret, h⟩ := h
  obtain ⟨rfl, rfl⟩ := Prod.mk.inj (Except.ok.inj h)
  dsimp only at huser herr hret ⊢
  refine ⟨c₂, ret, ?_, rfl, readBytes_length hret, readBytes_length huser, ?_⟩
  · rw [herr, readBytes_exact hret]
  · rw [readUint64_exact hseq, readBytes_exact huser]

/-! ## Writing the message back -/

/-- A codec that appends the bytes of an argument or a result as they
are. -/
def Codec.AppendsRaw (codec : Codec V) : Prop :=
  ∀ dst v, codec.encode dst (.bytes v) = .ok (dst ++ v)

theorem writeMessage_raw {codec : Codec V} (hcodec : codec.AppendsRaw) (b : Bytes) {v : Bytes}
    (hv : v.length < 65536) : writeMessage b codec (.bytes v) = (b ++ bytesField v, none) := by
  have hlen : (b ++ [0, 0] ++ v).length - (b ++ [0, 0]).length = v.length := by
    rw [List.length_append, Nat.add_sub_cancel_left]
  have hword : (UInt16.ofNat v.length).toNat = v.length := UInt16.toNat_ofNat_of_lt' hv
  have hencode : codec.encode (b ++ [0, 0]) (.bytes v) = .ok (b ++ [0, 0] ++ v) := hcodec _ v
  simp only [writeMessage, hencode, hlen, hword, bytesField_of_lt hv]
  rw [patch_append b [0, 0] _ v (by simp), List.append_assoc]

/-- The input with a oneway byte other than one replaced by zero. -/
def normalOneway (b : Bytes) : Bytes := b.set 8 (if b.getD 8 0 = 1 then 1 else 0)

/-- The error code on the wire: the two bytes behind the user data. -/
def wireErrorCode (b : Bytes) : Nat :=
  decode ((b.drop (10 + decode ((b.drop 8).take 2))).take 2)

/-- The request that is decoded from `b` is written back as it came. -/
def RequestFaithful (codec : Codec V) (b : Bytes) : Prop :=
  ∀ (req : RequestMsg V) (rest : Bytes), readRequest b = .ok (req, rest) →
    ∃ consumed, b = consumed ++ rest ∧ encodeRequest [] req codec = (normalOneway consumed, none)

/-- The response that is decoded from `b` is written back as it came, and
an error on the wire is an error in the message. -/
def ResponseFaithful (codec : Codec V) (b : Bytes) (resp : ResponseMsg V) (rest : Bytes) : Prop :=
  (∃ consumed, b = consumed ++ rest ∧ encodeResponse [] resp codec = (consumed, none)) ∧
    (wireErrorCode b ≠ 0 → resp.err ≠ none)

theorem normalOneway_append (seq : Nat) (oneway : UInt8) (tail : Bytes) :
    normalOneway (encode 8 seq ++ oneway :: tail) =
      encode 8 seq ++ (if oneway = 1 then 1 else 0) :: tail := by
  have hlen : (encode 8 seq).length = 8 := encode_length 8 seq
  have hget : (encode 8 seq ++ oneway :: tail).getD 8 0 = oneway := by
    rw [List.getD_eq_getElem?_getD, List.getElem?_append_right (by omega), hlen]
    rfl
  rw [normalOneway, hget, List.set_append_right _ _ (by omega), hlen]
  rfl

theorem request_faithful {codec : Codec V} (hcodec : codec.AppendsRaw) (b : Bytes) :
    RequestFaithful codec b := by
  intro req rest h
  obtain ⟨oneway, arg, hone, harg, hlen, hb⟩ := readRequest_exact h
  refine ⟨encode 8 req.seq.toNat ++ oneway :: (bytesField req.method ++
    (bytesField req.userData ++ bytesField arg)), ?_, ?_⟩
  · rw [hb]
    simp only [List.append_assoc, List.cons_append]
  · rw [encodeRequest_eq_writeMessage, harg, writeMessage_raw hcodec _ hlen, normalOneway_append,
      requestHead, hone]
    simp only [List.append_assoc, List.nil_append, List.cons_append, beq_iff_eq]

theorem wireErrorCode_append {seq : Nat} {user : Bytes} (huser : user.length < 65536)
    (code : UInt16) (tail : Bytes) :
    wireErrorCode (encode 8 seq ++ (bytesField user ++ (encode 2 code.toNat ++ tail))) =
      code.toNat := by
  have hfirst : (encode 8 seq ++ (bytesField user ++ (encode 2 code.toNat ++ tail))).drop 8 =
      bytesField user ++ (encode 2 code.toNat ++ tail) := List.drop_left' (encode_length 8 seq)
  have hsize : decode ((bytesField user ++ (encode 2 code.toNat ++ tail)).take 2) =
      user.length := by
    rw [bytesField_of_lt huser, List.append_assoc, List.take_left' (encode_length 2 _),
      decode_encode_of_lt huser]
  have hrest : (bytesField user ++ (encode 2 code.toNat ++ tail)).drop (2 + user.length) =
      encode 2 code.toNat ++ tail := by
    rw [bytesField_of_lt huser]
    refine List.drop_left' ?_
    rw [List.length_append, encode_length]
  rw [wireErrorCode, hfirst, hsize, show 10 + user.length = 8 + (2 + user.length) by omega,
    ← List.drop_drop, hfirst, hrest, List.take_left' (encode_length 2 _),
    decode_encode_of_lt (UInt16.toNat_lt code)]

/-- The error that is decoded is written back if its code is in the table,
and lost if it is above. -/
theorem readError_faithful {c rest : Bytes} {err : Option Error}
    (h : readError c = .ok (err, rest)) :
    ∃ (code : UInt16) (tail : Bytes), c = encode 2 code.toNat ++ tail ∧
      (code.toNat < 8 → c = errorField err ++ rest ∧ (code.toNat ≠ 0 → err ≠ none)) ∧
      (8 ≤ code.toNat → err = none) := by
  obtain ⟨code, hcases⟩ := readError_exact h
  rcases hcases with ⟨rfl, rfl, hc⟩ | ⟨hne, str, rfl, hc⟩
  · refine ⟨0, rest, hc, fun _ => ⟨hc, fun hzero => absurd rfl hzero⟩, fun _ => rfl⟩
  · refine ⟨code, _, hc, fun hlt => ?_, fun hle => ?_⟩
    · have hpos : code.toNat ≠ 0 := fun hzero => hne (UInt16.toNat_inj.mp hzero)
      have hrange : errOk < (code.toNat : Int) ∧ (code.toNat : Int) < errEnd := by
        simp only [errOk, errEnd]
        omega
      have hnew := newError_of_range hrange str
      have hword : UInt16.ofInt (code.toNat : Int) = code := by
        apply UInt16.toNat_inj.mp
        simp only [UInt16.ofInt, UInt16.toNat_ofNat']
        omega
      rw [hnew, errorField, hword, hc, List.append_assoc]
      exact ⟨rfl, fun _ => Option.some_ne_none _⟩
    · exact if_pos (Or.inr (by simp only [errEnd]; omega))

theorem response_faithful_iff {codec : Codec V} (hcodec : codec.AppendsRaw) {b rest : Bytes}
    {resp : ResponseMsg V} (h : readResponse b = .ok (resp, rest)) :
    ResponseFaithful codec b resp rest ↔ wireErrorCode b < 8 := by
  obtain ⟨c, ret, herr, hret, hlen, huser, hb⟩ := readResponse_exact h
  obtain ⟨code, tail, hc, hkept, hlost⟩ := readError_faithful herr
  have hcode : wireErrorCode b = code.toNat := by
    rw [hb, hc]
    exact wireErrorCode_append huser code tail
  unfold ResponseFaithful
  rw [hcode]
  constructor
  · intro hfaith
    by_contra hge
    -- the error is lost although the code is not zero
    exact hfaith.2 (by omega) (hlost (by omega))
  · intro hlt
    obtain ⟨hfield, hsome⟩ := hkept hlt
    refine ⟨⟨encode 8 resp.seq.toNat ++ (bytesField resp.userData ++
      (errorField resp.err ++ bytesField ret)), ?_, ?_⟩, hsome⟩
    · rw [hb, hfield]
      simp only [List.append_assoc]
    · rw [encodeResponse_eq_writeMessage, hret, writeMessage_raw hcodec _ hlen, responseHead]
      simp only [List.append_assoc, List.nil_append]

/-- What is left unread is the end of the input. -/
theorem readResponse_suffix {b rest : Bytes} {resp : ResponseMsg V}
    (h : readResponse b = .ok (resp, rest)) : rest <:+ b := by
  obtain ⟨c, ret, herr, _, _, _, hb⟩ := readResponse_exact h
  obtain ⟨code, hcases⟩ := readError_exact herr
  have hc : ∃ first, c = first ++ (bytesField ret ++ rest) := by
    rcases hcases with ⟨_, _, hc⟩ | ⟨_, str, _, hc⟩
    · exact ⟨_, hc⟩
    · exact ⟨encode 2 code.toNat ++ bytesField str, by rw [hc, List.append_assoc]⟩
  obtain ⟨first, rfl⟩ := hc
  refine ⟨encode 8 resp.seq.toNat ++ (bytesField resp.userData ++ (first ++ bytesField ret)), ?_⟩
  rw [hb]
  simp only [List.append_assoc]

/-- Whatever bytes the decoders accept, the request is written back as it
came, and the response is if and only if its error code is below 8.  The
decoders answer the same messages as their versions that also give the
unread bytes, which are always the end of the input. -/
theorem decode_faithful_iff {codec : Codec V} (hcodec : codec.AppendsRaw) (b : Bytes) :
    (decodeRequest b : Except String (RequestMsg V)) = (readRequest b).map Prod.fst ∧
    RequestFaithful codec b ∧
    (decodeResponse b : Except String (ResponseMsg V)) = (readResponse b).map Prod.fst ∧
    ∀ (resp : ResponseMsg V) (rest : Bytes), readResponse b = .ok (resp, rest) →
      rest <:+ b ∧ (ResponseFaithful codec b resp rest ↔ wireErrorCode b < 8) := by
  exact ⟨decodeRequest_eq_readRequest b, request_faithful hcodec b,
    decodeResponse_eq_readResponse b,
    fun _ _ h => ⟨readResponse_suffix h, response_faithful_iff hcodec h⟩⟩

/-! ## An error code that is not in the table -/

/-- A codec that passes byte slices on. -/
def rawCodec : Codec V where
  encode := fun dst v =>
    match v with
    | .bytes b => .ok (dst ++ b)
    | _ => .error "not a byte slice"

theorem rawCodec_appendsRaw : (rawCodec : Codec V).AppendsRaw := fun _ _ => rfl

/-- Sequence number 1, no user data, the error code `code` with the text
`no`, and no result. -/
def errorResponse (code : UInt8) : Bytes :=
  [0, 0, 0, 0, 0, 0, 0, 1, 0, 0, 0, code, 0, 2, 110, 111, 0, 0]

/-- The error 7 of a peer is decoded and written back as it came. -/
theorem decode_faithful_busy :
    ∃ resp : ResponseMsg Bytes, readResponse (errorResponse 7) = .ok (resp, []) ∧
      ResponseFaithful rawCodec (errorResponse 7) resp [] := by
  refine ⟨_, rfl, ?_⟩
  obtain ⟨_, _, _, hresponse⟩ := decode_faithful_iff rawCodec_appendsRaw (errorResponse 7)
  exact (hresponse _ [] rfl).2.mpr (by decide)

/-- The error 8 of a peer is decoded into a success. -/
theorem error_decoded_as_success :
    wireErrorCode (errorResponse 8) = 8 ∧
      decodeResponse (errorResponse 8) =
        .ok ({ seq := 1, err := none, ret := .bytes [] } : ResponseMsg Bytes) := by
  exact ⟨rfl, rfl⟩

end ClusterGo.Rpc
