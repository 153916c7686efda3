import ClusterGo.Rpc.RoundTrip
import ClusterGo.Rpc.Server.Basic
import ClusterGo.Rpc.SyncCall.Basic

/-!
# What the caller learns of a reply

`Replyer.Reply` and `Replyer.Error` answer a request once: the first call
sets `replyed`, and the later ones do nothing.  The calls come from the
interceptors, from the handler, and from `OnMessage` itself.  `OnMessage`
reports a stopped server, an unknown method, an argument that cannot be
decoded, and a panic.

`Error` puts an `*Error` into the response as it is and wraps the text of
any other error value.  A response with the error nil, or with a code that
is not in the table, reads as a success at the caller, and a call of
`Error` that panics has already set `replyed`.  The text of an error and the
encoded result have 16-bit lengths, however large a frame may be: a longer
text arrives as the empty one, and a longer result arrives cut.
-/

namespace ClusterGo.Rpc.Server

variable {V : Type}

/-! ## The replyer -/

/-- A value of the interface `error`: the nil interface, an `*Error`, which
may be a nil pointer, or a value of another type.  The text of the last is
missing when its `Error` method panics. -/
inductive ErrorValue where
  | nil
  | rpc (err : Option Error)
  | other (text : Option Bytes)
deriving DecidableEq

/-- `rpc.Replyer`.  The outbound interceptors do not change the answer and
are left out. -/
structure Replyer (V : Type) where
  req : RequestMsg V
  replyed : Bool := false

/-- How a call of the `Replyer` ends. -/
inductive Outcome (V : Type) where
  | silent
  | sent (resp : ResponseMsg V)
  | panicked

/-- `Replyer.Error`. -/
def Replyer.error (r : Replyer V) (err : ErrorValue) : Replyer V × Outcome V :=
  if r.replyed then (r, .silent)
  else
    let r := { r with replyed := true }
    if r.req.oneway then (r, .silent)
    else
      match err with
      | .rpc err => (r, .sent { seq := r.req.seq, err })
      | .other (some text) => (r, .sent { seq := r.req.seq, err := newError errMethod text })
      -- The call of err.Error() panics.
      | .other none => (r, .panicked)
      | .nil => (r, .panicked)

/-- `Replyer.Reply`. -/
def Replyer.reply (r : Replyer V) (ret : Payload V) : Replyer V × Outcome V :=
  if r.replyed then (r, .silent)
  else
    let r := { r with replyed := true }
    if r.req.oneway then (r, .silent) else (r, .sent { seq := r.req.seq, ret })

inductive Call (V : Type) where
  | reply (ret : Payload V)
  | error (err : ErrorValue)

def Replyer.call (r : Replyer V) : Call V → Replyer V × Outcome V
  | .reply ret => r.reply ret
  | .error err => r.error err

/-- The outcomes of a sequence of calls, in the order in which they reach
the compare-and-swap. -/
def Replyer.calls (r : Replyer V) : List (Call V) → List (Outcome V)
  | [] => []
  | c :: cs => (r.call c).2 :: (r.call c).1.calls cs

def Outcome.response : Outcome V → Option (ResponseMsg V)
  | .sent resp => some resp
  | .silent | .panicked => none

/-- The responses that the calls on the `Replyer` of a request send. -/
def responses (req : RequestMsg V) (cs : List (Call V)) : List (ResponseMsg V) :=
  (({ req } : Replyer V).calls cs).filterMap Outcome.response

theorem call_of_replyed {r : Replyer V} (h : r.replyed = true) (c : Call V) :
    r.call c = (r, .silent) := by
  cases c with
  | reply ret => exact if_pos h
  | error err => exact if_pos h

/-- After the first call nothing is sent any more. -/
theorem calls_of_replyed {r : Replyer V} (h : r.replyed = true) (cs : List (Call V)) :
    (r.calls cs).filterMap Outcome.response = [] := by
  induction cs with
  | nil => rfl
  | cons c cs ih =>
    rw [Replyer.calls, call_of_replyed h]
    exact ih

theorem replyed_call (r : Replyer V) (c : Call V) : (r.call c).1.replyed = true := by
  by_cases h : r.replyed = true
  · rw [call_of_replyed h, h]
  · cases c with
    | reply ret =>
      simp only [Replyer.call, Replyer.reply, if_neg h]
      split <;> rfl
    | error err =>
      simp only [Replyer.call, Replyer.error, if_neg h]
      split
      · rfl
      · split <;> rfl

/-- Only the first call of a sequence sends. -/
theorem responses_cons (req : RequestMsg V) (c : Call V) (cs : List (Call V)) :
    responses req (c :: cs) = (({ req } : Replyer V).call c).2.response.toList := by
  rw [responses, Replyer.calls, List.filterMap_cons, calls_of_replyed (replyed_call _ c)]
  cases (({ req } : Replyer V).call c).2.response <;> rfl

theorem responses_of_oneway {req : RequestMsg V} (honeway : req.oneway = true)
    (c : Call V) (cs : List (Call V)) : responses req (c :: cs) = [] := by
  rw [responses_cons]
  cases c <;> simp [Replyer.call, Replyer.reply, Replyer.error, honeway, Outcome.response]

/-! ## The errors of the server -/

/-- The bytes of a text. -/
def text (s : String) : Bytes := s.toUTF8.toList

/-- What `OnMessage` reports. -/
inductive Failure where
  | stoped
  | noMethod
  | argDecode (err : Bytes)
  | methodPanic

/-- The errors of `OnMessage` and of the caller that `Register` builds. -/
def Failure.error (req : RequestMsg V) : Failure → Option Error
  | .stoped => newError errServiceUnavaliable (text "service unavaliable")
  | .noMethod => newError errInvaildMethod (text "method " ++ req.method ++ text " not found")
  | .argDecode err => newError errOther (text "arg decode error:" ++ err)
  | .methodPanic => newError errOther (text "method panic")

/-- What one interceptor or the handler does: its calls of the `Replyer`,
and then how it ends. -/
structure Part (V : Type) where
  calls : List (Call V)
  verdict : Verdict

/-- The interceptors in turn, and the handler as the last part, whose
verdict matters only if it panics. -/
def runParts (req : RequestMsg V) : List (Part V) → List (Call V)
  | [] => []
  | p :: ps =>
    match p.verdict with
    | .pass => p.calls ++ runParts req ps
    | .veto => p.calls
    | .panic => p.calls ++ [.error (.rpc (Failure.methodPanic.error req))]

/-- `Server.OnMessage`: the calls of the `Replyer` that one request leads
to, for what the server and the application do with it. -/
def onMessage (req : RequestMsg V) (stoped found : Bool) (argDecode : Option Bytes)
    (parts : List (Part V)) : List (Call V) :=
  if stoped then [.error (.rpc (Failure.stoped.error req))]
  else if !found then [.error (.rpc (Failure.noMethod.error req))]
  else
    match argDecode with
    | some err => [.error (.rpc ((Failure.argDecode err).error req))]
    | none => runParts req parts

/-- Calls that report what they mean: a result, an `*Error` with a code of
the table, or another error value with a text. -/
def Call.Sound : Call V → Prop
  | .reply _ => True
  | .error .nil => False
  | .error (.rpc none) => False
  | .error (.rpc (some e)) => errOk < e.code ∧ e.code < errEnd
  | .error (.other text) => text.isSome = true

instance (c : Call V) : Decidable c.Sound :=
  match c with
  | .reply _ => .isTrue trivial
  | .error .nil => .isFalse id
  | .error (.rpc none) => .isFalse id
  | .error (.rpc (some e)) => inferInstanceAs (Decidable (errOk < e.code ∧ e.code < errEnd))
  | .error (.other text) => inferInstanceAs (Decidable (text.isSome = true))

theorem sound_newError {code : Int} (h : errOk < code ∧ code < errEnd) (str : Bytes) :
    (Call.error (.rpc (newError code str)) : Call V).Sound := by
  rw [newError_of_range h]
  exact h

/-- The errors that the server reports itself mean what they say. -/
theorem sound_failure (f : Failure) (req : RequestMsg V) :
    (Call.error (.rpc (f.error req)) : Call V).Sound := by
  cases f <;> exact sound_newError (by decide) _

theorem sound_runParts {req : RequestMsg V} {ps : List (Part V)}
    (h : ∀ p ∈ ps, ∀ c ∈ p.calls, c.Sound) : ∀ c ∈ runParts req ps, c.Sound := by
  induction ps with
  | nil =>
    intro c hc
    cases hc
  | cons p ps ih =>
    rw [List.forall_mem_cons] at h
    intro c hc
    simp only [runParts] at hc
    split at hc
    · rcases List.mem_append.mp hc with hfirst | hrest
      · exact h.1 c hfirst
      · exact ih h.2 c hrest
    · exact h.1 c hc
    · rcases List.mem_append.mp hc with hfirst | hpanic
      · exact h.1 c hfirst
      · rw [List.mem_singleton.mp hpanic]
        exact sound_failure _ _

/-- `OnMessage` adds no call that does not mean what it says. -/
theorem sound_onMessage {req : RequestMsg V} {stoped found : Bool} {argDecode : Option Bytes}
    {ps : List (Part V)} (h : ∀ p ∈ ps, ∀ c ∈ p.calls, c.Sound) :
    ∀ c ∈ onMessage req stoped found argDecode ps, c.Sound := by
  intro c hc
  unfold onMessage at hc
  split at hc
  · rw [List.mem_singleton.mp hc]
    exact sound_failure _ _
  · split at hc
    · rw [List.mem_singleton.mp hc]
      exact sound_failure _ _
    · split at hc
      · rw [List.mem_singleton.mp hc]
        exact sound_failure _ _
      · exact sound_runParts h c hc

/-! ## What arrives at the caller -/

/-- The lengths in the response to a call fit into 16 bits: that of the text of
an `*Error`, and that of the encoded result. -/
def Call.Fits (codec : Codec V) (dst : Bytes) (req : RequestMsg V) : Call V → Prop
  | .reply v => (responseRet codec dst { seq := req.seq, ret := v }).length ≤ 65535
  | .error (.rpc (some e)) => e.str.length ≤ 65535
  | .error _ => True

/-- Exactly one response is sent and it has the number of the request.  It is
encoded behind `dst` and decoded again, whatever its size.  For any decoder of
results that can read the whole result, the caller gets an error if and only
if the first call was `Error`, and the same error if that was an `*Error`. -/
def Faithful (codec : Codec V) (dst : Bytes) (ret : V) (req : RequestMsg V) (c : Call V)
    (cs : List (Call V)) : Prop :=
  ∃ resp, responses req (c :: cs) = [resp] ∧ resp.seq = req.seq ∧
    ∀ (decodeRet : V → ResponseMsg V → V × Option Bytes) (b : Bytes),
      encodeResponse dst resp codec = (b, none) →
      ((∃ v, c = .reply v) → (decodeRet ret (responseOnWire codec dst resp)).2 = none) →
      ∃ resp', decodeResponse (b.drop dst.length) = .ok resp' ∧ resp'.seq = req.seq ∧
        ((SyncCall.answer decodeRet ret resp').2 ≠ none ↔ ∃ err, c = .error err) ∧
        ∀ e, c = .error (.rpc (some e)) →
          (SyncCall.answer decodeRet ret resp').2 = some e

theorem responses_reply {req : RequestMsg V} (honeway : req.oneway = false) (v : Payload V)
    (cs : List (Call V)) : responses req (.reply v :: cs) = [{ seq := req.seq, ret := v }] := by
  rw [responses_cons]
  simp [Replyer.call, Replyer.reply, honeway, Outcome.response]

/-- A sound call of `Error` sends an error of the table, and the one it got if
that is an `*Error`. -/
theorem responses_error {req : RequestMsg V} (honeway : req.oneway = false) {err : ErrorValue}
    (hsound : (Call.error err : Call V).Sound) (cs : List (Call V)) :
    ∃ e, responses req (.error err :: cs) = [{ seq := req.seq, err := some e }] ∧
      (errOk < e.code ∧ e.code < errEnd) ∧ ∀ e', err = .rpc (some e') → e = e' := by
  rw [responses_cons]
  match err, hsound with
  | .rpc (some e), hrange =>
    refine ⟨e, ?_, hrange, ?_⟩
    · simp [Replyer.call, Replyer.error, honeway, Outcome.response]
    · intro e' he
      cases he
      rfl
  | .other (some text), _ =>
    have hrange : errOk < errMethod ∧ errMethod < errEnd := by decide
    refine ⟨⟨errMethod, text⟩, ?_, hrange, ?_⟩
    · simp [Replyer.call, Replyer.error, honeway, Outcome.response, newError_of_range hrange]
    · intro e' he
      cases he

/-- The error of a response is the error of the call, when the result of a
response without one can be decoded. -/
theorem answer_eq_err {decodeRet : V → ResponseMsg V → V × Option Bytes} {ret : V}
    {resp : ResponseMsg V} (h : resp.err = none → (decodeRet ret resp).2 = none) :
    (SyncCall.answer decodeRet ret resp).2 = resp.err := by
  cases he : resp.err with
  | some e => simp [SyncCall.answer, he]
  | none =>
    obtain ⟨v, hv⟩ : ∃ v, decodeRet ret resp = (v, none) := ⟨_, Prod.ext rfl (h he)⟩
    simp [SyncCall.answer, he, hv]

/-- A text that is too long has the length 0, and its beginning is left for
the next field. -/
theorem responseHead_long (seq : UInt64) (code : Int) {str : Bytes} (h : 65536 ≤ str.length) :
    responseHead ({ seq, err := some ⟨code, str⟩ } : ResponseMsg V) =
      responseHead ({ seq, err := some ⟨code, []⟩ } : ResponseMsg V) ++ str.take 65536 := by
  have hfield : bytesField str = bytesField [] ++ str.take 65536 := by
    rw [bytesField, Nat.min_eq_right h]
    rfl
  simp only [responseHead, errorField, hfield, List.append_assoc]

/-- A field can be read from every 65537 bytes. -/
theorem readBytes_of_length {b : Bytes} (h : 65537 ≤ b.length) :
    ∃ v rest, readBytes b = .ok (v, rest) := by
  have hsize : (UInt16.ofNat (BigEndian.decode (b.take 2))).toNat < 65536 := UInt16.toNat_lt _
  have henough : ¬ b.length - 2 < (UInt16.ofNat (BigEndian.decode (b.take 2))).toNat := by omega
  simp only [readBytes, readUint16, if_neg (show ¬ b.length < 2 by omega), Fallible.ok_bind,
    List.length_drop, if_neg henough]
  split
  · exact ⟨_, _, rfl⟩
  · exact ⟨_, _, rfl⟩

/-- An error of the table arrives as an error, and as it is if its text
fits. -/
theorem decodeResponse_error (seq : UInt64) {e : Error}
    (hrange : errOk < e.code ∧ e.code < errEnd) :
    ∃ resp' : ResponseMsg V,
      decodeResponse (responseHead ({ seq, err := some e } : ResponseMsg V) ++ bodyField []) =
        .ok resp' ∧
      resp'.seq = seq ∧ resp'.err ≠ none ∧ (e.str.length ≤ 65535 → resp'.err = some e) := by
  have hnew : ∀ str, ∃ code str', (some ⟨e.code, str⟩ : Option Error) = newError code str' :=
    fun str => ⟨e.code, str, (newError_of_range hrange str).symm⟩
  by_cases hfits : e.str.length ≤ 65535
  · have hstr : ∀ e', some e = some e' → e'.str.length < 65536 := by
      intro e' he
      cases he
      omega
    have hdecode := @decodeResponse_body V { seq, err := some e } (hnew e.str) hstr
      (Nat.zero_lt_succ _) []
    exact ⟨_, hdecode, rfl, by simp, fun _ => rfl⟩
  · have htail : 65537 ≤ (e.str.take 65536 ++ bodyField []).length := by
      rw [List.length_append, List.length_take, Nat.min_eq_left (by omega)]
      exact Nat.le_succ _
    obtain ⟨v, rest, hread⟩ := readBytes_of_length htail
    have hstr : ∀ e', some (⟨e.code, []⟩ : Error) = some e' → e'.str.length < 65536 := by
      intro e' he
      cases he
      exact Nat.zero_lt_succ _
    have hdecode := @decodeResponse_head V { seq, err := some ⟨e.code, []⟩ } (hnew []) hstr
      (Nat.zero_lt_succ _) _ _ _ hread
    rw [← List.append_assoc, ← responseHead_long seq e.code (by omega)] at hdecode
    exact ⟨_, hdecode, rfl, by simp, fun h => absurd h hfits⟩

variable {codec : Codec V} {dst : Bytes} {ret : V} {req : RequestMsg V} {cs : List (Call V)}

theorem faithful_reply (hcodec : codec.Appends) (honeway : req.oneway = false) {v : Payload V}
    (hfits : (Call.reply v).Fits codec dst req) : Faithful codec dst ret req (.reply v) cs := by
  refine ⟨_, responses_reply honeway v cs, rfl, ?_⟩
  intro decodeRet b hencode hround
  have hfits' : ResponseFits codec dst { seq := req.seq, ret := v } :=
    ⟨Nat.zero_le _, (fun e he => nomatch he), hfits⟩
  have hdecode := (response_round_trip_iff hcodec ⟨0, [], rfl⟩ hencode).mpr hfits'
  refine ⟨_, hdecode, rfl, ?_, fun e he => nomatch he⟩
  rw [answer_eq_err fun _ => hround ⟨v, rfl⟩]
  exact iff_of_false (fun h => h rfl) (fun ⟨err, herr⟩ => nomatch herr)

theorem faithful_error (hcodec : codec.Appends) (honeway : req.oneway = false) {err : ErrorValue}
    (hsound : (Call.error err : Call V).Sound) (hfits : (Call.error err).Fits codec dst req) :
    Faithful codec dst ret req (.error err) cs := by
  obtain ⟨e, hresp, hrange, hsame⟩ := responses_error honeway hsound cs
  obtain ⟨resp', hdecode, hseq, hne, heq⟩ := decodeResponse_error (V := V) req.seq hrange
  refine ⟨_, hresp, rfl, ?_⟩
  intro decodeRet b hencode _
  have hb : b.drop dst.length =
      responseHead ({ seq := req.seq, err := some e } : ResponseMsg V) ++ bodyField [] := by
    rw [encodeResponse_eq hcodec hencode, List.drop_left]
    rfl
  rw [← hb] at hdecode
  refine ⟨resp', hdecode, hseq, ?_⟩
  rw [answer_eq_err fun hnone => absurd hnone hne]
  refine ⟨iff_of_true hne ⟨err, rfl⟩, ?_⟩
  intro e' he
  obtain rfl : err = .rpc (some e') := by cases he; rfl
  obtain rfl := hsame e' rfl
  exact heq hfits

theorem faithful_of_sound (hcodec : codec.Appends) (honeway : req.oneway = false) {c : Call V}
    (hsound : c.Sound) (hfits : c.Fits codec dst req) : Faithful codec dst ret req c cs := by
  cases c with
  | reply v => exact faithful_reply hcodec honeway hfits
  | error err => exact faithful_error hcodec honeway hsound hfits

/-- An application whose interceptors and handlers make only sound calls is
served faithfully: whatever happens to a request in `OnMessage`, its caller
learns of it, if the lengths fit. -/
theorem onMessage_faithful (hcodec : codec.Appends) (honeway : req.oneway = false)
    {stoped found : Bool} {argDecode : Option Bytes} {ps : List (Part V)}
    (happ : ∀ p ∈ ps, ∀ c ∈ p.calls, c.Sound) {c : Call V}
    (hcalls : onMessage req stoped found argDecode ps = c :: cs)
    (hfits : c.Fits codec dst req) : Faithful codec dst ret req c cs := by
  refine faithful_of_sound hcodec honeway ?_ hfits
  apply sound_onMessage happ c
  rw [hcalls]
  exact List.mem_cons_self

/-! ## What does not arrive -/

/-- What a caller that can decode anything makes of an `*Error`. -/
theorem err_of_faithful (honeway : req.oneway = false) {err : Option Error}
    (h : Faithful codec dst ret req (.error (.rpc err)) cs) :
    ∃ resp' : ResponseMsg V,
      decodeResponse ((encodeResponse dst ({ seq := req.seq, err } : ResponseMsg V)
        codec).1.drop dst.length) = .ok resp' ∧
      resp'.err ≠ none ∧ ∀ e, err = some e → resp'.err = some e := by
  obtain ⟨resp, hresp, _, hwire⟩ := h
  obtain rfl : { seq := req.seq, err } = resp := by
    simpa [responses_cons, Replyer.call, Replyer.error, honeway, Outcome.response] using hresp
  obtain ⟨resp', hdecode, _, herror, hsame⟩ := hwire (fun ret _ => (ret, none)) _ rfl
    (fun _ => rfl)
  rw [answer_eq_err (fun _ => rfl)] at herror hsame
  refine ⟨resp', hdecode, herror.mpr ⟨_, rfl⟩, ?_⟩
  intro e he
  exact hsame e (by rw [he])

theorem sound_of_faithful (hcodec : codec.Appends) (honeway : req.oneway = false) {c : Call V}
    (h : Faithful codec dst ret req c cs) : c.Sound := by
  match c with
  | .reply v => exact trivial
  | .error .nil =>
    obtain ⟨resp, hresp, _⟩ := h
    simp [responses_cons, Replyer.call, Replyer.error, honeway, Outcome.response] at hresp
  | .error (.other none) =>
    obtain ⟨resp, hresp, _⟩ := h
    simp [responses_cons, Replyer.call, Replyer.error, honeway, Outcome.response] at hresp
  | .error (.other (some text)) => exact rfl
  | .error (.rpc none) =>
    -- The response has no error, and reads as a success.
    obtain ⟨resp', hdecode, herror, _⟩ := err_of_faithful honeway h
    have hfits : ResponseFits codec dst ({ seq := req.seq } : ResponseMsg V) :=
      ⟨Nat.zero_le _, (fun e he => nomatch he), Nat.zero_le _⟩
    have hback := (response_round_trip_iff hcodec ⟨0, [], rfl⟩ rfl).mpr hfits
    obtain rfl := Except.ok.inj (hdecode.symm.trans hback)
    exact herror rfl
  | .error (.rpc (some e)) =>
    obtain ⟨resp', hdecode, _, hsame⟩ := err_of_faithful honeway h
    obtain ⟨_, _, hread⟩ := decodeResponse_err hdecode (hsame e rfl)
    exact (readError_bounds hread).1

/-- A decoder that takes one body only. -/
def onlyBody (body : Bytes) (ret : V) (resp : ResponseMsg V) : V × Option Bytes :=
  match resp.ret with
  | .bytes v => (ret, if v = body then none else some [])
  | _ => (ret, some [])

/-- A codec that fails leaves no result. -/
theorem responseRet_of_failed {resp : ResponseMsg V} {err : String}
    (h : (encodeResponse dst resp codec).2 = some err) : responseRet codec dst resp = [] := by
  rw [encodeResponse_eq_writeMessage] at h
  cases hret : resp.ret with
  | nil => simp [responseRet, hret, messageBody]
  | bytes v =>
    cases hencode : codec.encode (dst ++ responseHead resp ++ [0, 0]) (.bytes v) <;>
      simp_all [responseRet, messageBody, Codec.output, writeMessage]
  | object v =>
    cases hencode : codec.encode (dst ++ responseHead resp ++ [0, 0]) (.object v) <;>
      simp_all [responseRet, messageBody, Codec.output, writeMessage]

theorem fits_of_faithful (honeway : req.oneway = false) {c : Call V}
    (h : Faithful codec dst ret req c cs) : c.Fits codec dst req := by
  match c with
  | .error .nil => exact trivial
  | .error (.other _) => exact trivial
  | .error (.rpc none) => exact trivial
  | .error (.rpc (some e)) =>
    obtain ⟨resp', hdecode, _, hsame⟩ := err_of_faithful honeway h
    obtain ⟨_, hstr, _⟩ := decodeResponse_lengths hdecode
    exact Nat.le_of_lt_succ (hstr e (hsame e rfl))
  | .reply v =>
    obtain ⟨resp, hresp, _, hwire⟩ := h
    obtain rfl : { seq := req.seq, ret := v } = resp := by
      simpa [responses_reply honeway] using hresp
    show (responseRet codec dst _).length ≤ 65535
    cases hencode : (encodeResponse dst ({ seq := req.seq, ret := v } : ResponseMsg V) codec).2 with
    | some err =>
      rw [responseRet_of_failed hencode]
      exact Nat.zero_le _
    | none =>
      -- A decoder that takes the whole body only reports what is cut.
      let body := responseRet codec dst ({ seq := req.seq, ret := v } : ResponseMsg V)
      obtain ⟨resp', hdecode, _, herror, _⟩ := hwire (onlyBody body) _ (Prod.ext rfl hencode)
        (fun _ => by simp [onlyBody, responseOnWire, body])
      obtain ⟨_, _, v', hret, hlt⟩ := decodeResponse_lengths hdecode
      by_contra hlong
      have hne : v' ≠ body := by
        intro heq
        rw [heq] at hlt
        exact hlong (Nat.le_of_lt_succ hlt)
      have hcut : onlyBody body ret resp' = (ret, some []) := by simp [onlyBody, hret, hne]
      have hnot : (SyncCall.answer (onlyBody body) ret resp').2 ≠ none := by
        cases herr : resp'.err with
        | some e => simp [SyncCall.answer, herr]
        | none =>
          simp only [SyncCall.answer, herr, hcut]
          decide
      obtain ⟨err, habsurd⟩ := herror.mp hnot
      cases habsurd

/-- A oneway request is never answered.  For any other request and any
sequence of calls on its `Replyer`, one response is sent and the caller
learns from it what the first call reported, if and only if that call is
sound and the lengths in its response fit into 16 bits. -/
theorem outcome_fidelity_iff (codec : Codec V) (hcodec : codec.Appends) (dst : Bytes) (ret : V)
    (req : RequestMsg V) (c : Call V) (cs : List (Call V)) :
    (req.oneway = true → responses req (c :: cs) = []) ∧
      (req.oneway = false →
        (Faithful codec dst ret req c cs ↔ c.Sound ∧ c.Fits codec dst req)) := by
  refine ⟨fun honeway => responses_of_oneway honeway c cs, ?_⟩
  intro honeway
  constructor
  · intro h
    exact ⟨sound_of_faithful hcodec honeway h, fits_of_faithful honeway h⟩
  · intro h
    exact faithful_of_sound hcodec honeway h.1 h.2

/-- The server is stopped, and the error arrives. -/
theorem outcome_fidelity_stoped :
    Faithful quoteCodec [9] [] { seq := 7 }
      (.error (.rpc (some ⟨errServiceUnavaliable, text "service unavaliable"⟩)))
      [.reply (.object [104])] := by
  refine ((outcome_fidelity_iff quoteCodec quoteCodec_appends [9] [] { seq := 7 } _ _).2 rfl).mpr ?_
  refine ⟨by decide, ?_⟩
  show (text "service unavaliable").length ≤ 65535
  decide +kernel

/-- A result in quotes. -/
theorem length_quoted (dst : Bytes) (seq : UInt64) (v : Bytes) :
    (responseRet quoteCodec dst { seq, ret := .object v }).length = v.length + 2 := by
  simp [responseRet, messageBody, Codec.output, quoteCodec]

/-- Five first calls of which the caller does not learn: `Error` with a nil
interface, which panics and leaves the request without any response, with a
nil `*Error`, with an `*Error` whose code is not in the table, or with one
whose text is too long, and `Reply` with a result that is too long. -/
theorem errors_not_reported :
    responses ({ seq := 7 } : RequestMsg Bytes) [.error .nil, .reply (.object [])] = [] ∧
    ¬ Faithful quoteCodec [] [] { seq := 7 } (.error .nil) [.reply (.object [])] ∧
    ¬ Faithful quoteCodec [] [] { seq := 7 } (.error (.rpc none)) [] ∧
    ¬ Faithful quoteCodec [] [] { seq := 7 } (.error (.rpc (some ⟨0, []⟩))) [] ∧
    ¬ Faithful quoteCodec [] [] { seq := 7 }
      (.error (.rpc (some ⟨errOther, List.replicate 65536 97⟩))) [] ∧
    ¬ Faithful quoteCodec [] [] { seq := 7 } (.reply (.object (List.replicate 65536 97))) [] := by
  refine ⟨rfl, ?_, ?_, ?_, ?_, ?_⟩
  · intro h
    exact sound_of_faithful quoteCodec_appends rfl h
  · intro h
    exact sound_of_faithful quoteCodec_appends rfl h
  · intro h
    exact absurd (sound_of_faithful quoteCodec_appends rfl h) (by decide)
  · intro h
    have hlen : (List.replicate 65536 97 : Bytes).length ≤ 65535 := fits_of_faithful rfl h
    rw [List.length_replicate] at hlen
    omega
  · intro h
    have hlen : (responseRet quoteCodec []
        { seq := 7, ret := .object (List.replicate 65536 97) }).length ≤ 65535 :=
      fits_of_faithful rfl h
    rw [length_quoted, List.length_replicate] at hlen
    omega

end ClusterGo.Rpc.Server
