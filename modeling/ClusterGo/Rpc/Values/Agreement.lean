import ClusterGo.Rpc.Values.Basic

/-!
# Calls within the process and calls over the wire

The same call copies its argument with `reflect` when it goes to the own
node, and marshals it when it goes to another one.  The two fill the
destination alike for a value that is a copy of itself: one that is no
pointer, in an interface or not, and that is not passed as a `[]byte`.

They differ for the others.  The wire turns nil into an empty byte slice,
which the codec has to accept.  `copyValue` panics on a nil pointer.  A
`[]byte` is taken for the wire form, although the message has no codec.  And
of a pointer type `copyValue` reaches only what the pointer points to.
-/

namespace ClusterGo.Rpc.Values

variable {U : Type} {c : ValueCodec U} {fresh src v w : GoValue U}

/-! ## Arguments and results -/

/-- What a call can pass for a destination of type `T`: the nil interface, a
nil pointer to `T`, a `T`, or a pointer to a `T`. -/
inductive Arg (U : Type) where
  | nil
  | nilPointer
  | value (v : GoValue U)
  | ref (v : GoValue U)

/-- The value is of type `t`.  The nil of an interface type is the nil
interface when it is passed. -/
def Arg.Typed (t : GoType) : Arg U → Prop
  | .nil | .nilPointer => True
  | .value v => v.type = t ∧ v ≠ .nilIface
  | .ref v => v.type = t

/-- A value as an `interface{}`. -/
def GoValue.payload : GoValue U → Payload (GoValue U)
  | .bytes b => .bytes b
  | .iface (.bytes b) => .bytes b
  | .iface v => .object v
  | .nilIface => .nil
  | v => .object v

/-- An argument for a destination of type `t` as an `interface{}`. -/
def Arg.payload (t : GoType) : Arg U → Payload (GoValue U)
  | .nil => .nil
  | .nilPointer => .object (.nilPointer t)
  | .value v => v.payload
  | .ref v => .object (.pointer v)

def GoValue.isNil : GoValue U → Bool
  | .nilPointer _ | .nilIface => true
  | _ => false

/-- The codec takes the value that is passed, if it is not nil, into the fresh
destination.  It is asked for the form in which the value is passed: `PbCodec`
takes pointers only. -/
def ValueCodec.RoundTrips (c : ValueCodec U) (fresh : GoValue U) (x : Arg U) : Prop :=
  ∀ v, x = .value v ∨ x = .ref v → v.isNil = false →
    ∃ bs, c.marshal (x.payload fresh.type) = .ok bs ∧ c.unmarshal bs fresh = (v, none)

/-- Neither way panics, and both end with the same destination and agree
about the error. -/
def Agree (wire inProcess : Filled U) : Prop :=
  ∃ r, wire.status = some r ∧ inProcess.status = some r

/-! ## The copy -/

/-- No pointer and no interface. -/
def GoValue.plain : GoValue U → Bool
  | .bytes _ | .base _ => true
  | _ => false

/-- Plain, or an interface that holds something plain. -/
def GoValue.solid : GoValue U → Bool
  | .iface v => v.plain
  | v => v.plain

/-- An argument whose value `copyValue` reaches and copies as it is: a
pointer to a solid value, or a solid value itself unless it is a `[]byte`. -/
def Arg.copyable : Arg U → Bool
  | .value (.base _) | .value (.iface (.base _)) => true
  | .ref v => v.solid
  | _ => false

theorem plain_of_deref (h : v.deref = some w) : w.plain = true := by
  induction v with
  | bytes b => cases h; rfl
  | base u => cases h; rfl
  | pointer v ih => exact ih h
  | iface v ih => exact ih h
  | nilPointer elem => cases h
  | nilIface => cases h

theorem deref_of_plain (h : v.plain = true) : v.deref = some v := by
  cases v <;> first | rfl | cases h

theorem solid_of_plain (h : v.plain = true) : v.solid = true := by
  cases v <;> first | rfl | cases h

/-- A solid value is what an assignment of its end to a variable of its type
gives. -/
theorem deref_of_solid (h : v.solid = true) :
    ∃ sv, v.deref = some sv ∧ sv.type.assignableTo v.type = true ∧ sv.assigned v.type = v := by
  cases v with
  | bytes b => exact ⟨.bytes b, rfl, rfl, rfl⟩
  | base u => exact ⟨.base u, rfl, rfl, rfl⟩
  | iface w =>
    refine ⟨w, deref_of_plain h, ?_, rfl⟩
    exact Bool.or_true _
  | pointer w => cases h
  | nilPointer elem => cases h
  | nilIface => cases h

theorem solid_of_assigned (hderef : v.deref = some w) {t : GoType} (h : w.assigned t = v) :
    v.solid = true := by
  have hplain := plain_of_deref hderef
  unfold GoValue.assigned at h
  split at h
  · rw [← h]
    exact hplain
  · exact solid_of_plain (h ▸ hplain)

/-- `copyValue` gives the value that its source leads to if and only if that
value is solid. -/
theorem copyValue_status_iff (hsrc : src.deref = v.deref) (htype : v.type = fresh.type) :
    (copyValue fresh src).status = some (v, false) ↔ v.solid = true := by
  constructor
  · intro h
    cases hderef : v.deref with
    | none => simp [copyValue, hsrc, hderef, Filled.status] at h
    | some sv =>
      by_cases hassign : sv.type.assignableTo fresh.type = true
      · simp [copyValue, hsrc, hderef, hassign, Filled.status] at h
        exact solid_of_assigned hderef h
      · simp [copyValue, hsrc, hderef, hassign, Filled.status] at h
  · intro h
    obtain ⟨sv, hderef, hassign, hassigned⟩ := deref_of_solid h
    rw [htype] at hassign hassigned
    simp [copyValue, hsrc, hderef, hassign, hassigned, Filled.status]

/-- The copy of an argument within the process gives its value if and only
if it is copyable. -/
theorem inProcess_value_iff (htype : v.type = fresh.type) (hnil : v ≠ .nilIface) :
    (decodeInto none v.payload fresh).status = some (v, false) ↔
      (Arg.value v).copyable = true := by
  cases v with
  | bytes b => simp [GoValue.payload, decodeInto, Filled.status, Arg.copyable]
  | nilIface => exact absurd rfl hnil
  | iface w =>
    cases w with
    | bytes b => simp [GoValue.payload, decodeInto, Filled.status, Arg.copyable]
    | _ => exact copyValue_status_iff rfl htype
  | _ => exact copyValue_status_iff rfl htype

theorem inProcess_ref_iff (htype : v.type = fresh.type) :
    (decodeInto none (.object (.pointer v)) fresh).status = some (v, false) ↔
      (Arg.ref v).copyable = true :=
  copyValue_status_iff rfl htype

/-! ## The two ways -/

/-- The exact condition on the codec and the argument.  For a body of at
most 65535 bytes the last part is the round trip of the codec. -/
def Agreeable (c : ValueCodec U) (fresh : GoValue U) (x : Arg U) : Prop :=
  match x with
  | .nil => c.unmarshal [] fresh = (fresh, none)
  | .nilPointer => False
  | .value v | .ref v => x.copyable = true ∧
      ∀ bs, c.body (x.payload fresh.type) = .ok bs → c.unmarshal (covered bs) fresh = (v, none)

/-- A filled destination without an error. -/
theorem status_done_iff {dst : GoValue U} {err : Option String} :
    (Filled.done dst err).status = some (v, false) ↔ (dst, err) = (v, none) := by
  cases err <;> simp [Filled.status]

theorem agree_nil : Agree (overWire c .nil fresh) (decodeInto none .nil fresh) ↔
    c.unmarshal [] fresh = (fresh, none) := by
  have hinProcess : (decodeInto none .nil fresh).status = some (fresh, false) := rfl
  rw [← Prod.eta (c.unmarshal [] fresh), ← status_done_iff]
  constructor
  · intro h
    obtain ⟨r, hwire, hin⟩ := h
    rw [hinProcess] at hin
    exact hwire.trans hin.symm
  · intro hwire
    exact ⟨_, hwire, hinProcess⟩

theorem not_agree_panic {wire : Filled U} : ¬ Agree wire .panicked := by
  intro h
  obtain ⟨r, _, hin⟩ := h
  cases hin

/-- An argument that stands for the value `v`, which the codec takes there
and back. -/
theorem agree_of_roundTrip {payload : Payload (GoValue U)} {copyable : Bool} {bs : Bytes}
    (hbody : c.body payload = .ok bs) (hback : c.unmarshal bs fresh = (v, none))
    (hin : (decodeInto none payload fresh).status = some (v, false) ↔ copyable = true)
    (hfits : copyable = true ∨ bs.length ≤ 65535) :
    Agree (overWire c payload fresh) (decodeInto none payload fresh) ↔
      copyable = true ∧ c.unmarshal (covered bs) fresh = (v, none) := by
  have hwire : (overWire c payload fresh).status = some (v, false) ↔
      c.unmarshal (covered bs) fresh = (v, none) := by
    rw [overWire, hbody]
    exact status_done_iff
  constructor
  · intro h
    obtain ⟨r, hr, hr'⟩ := h
    -- A body that fits arrives whole, so the wire gives `v`.
    have hcopyable : copyable = true := by
      rcases hfits with hcopyable | hlen
      · exact hcopyable
      · rw [← covered_of_lt (show bs.length < 65536 by omega), ← hwire] at hback
        rw [← hin, hr', ← hr, hback]
    refine ⟨hcopyable, ?_⟩
    rw [← hwire, hr, ← hr']
    exact hin.mpr hcopyable
  · intro h
    exact ⟨_, hwire.mpr h.2, hin.mpr h.1⟩

theorem payload_ne_nil (h : v ≠ .nilIface) : v.payload ≠ .nil := by
  cases v with
  | nilIface => exact absurd rfl h
  | iface w => cases w <;> simp [GoValue.payload]
  | _ => simp [GoValue.payload]

theorem body_eq_marshal {payload : Payload (GoValue U)} (h : payload ≠ .nil) :
    c.body payload = c.marshal payload := by
  cases payload with
  | nil => exact absurd rfl h
  | bytes b => rfl
  | object v => rfl

/-- The body of a message is one, so the condition on it is. -/
theorem forall_body_iff {payload : Payload (GoValue U)} {bs : Bytes}
    (hbody : c.body payload = .ok bs) :
    (∀ bs', c.body payload = .ok bs' → c.unmarshal (covered bs') fresh = (v, none)) ↔
      c.unmarshal (covered bs) fresh = (v, none) := by
  constructor
  · intro h
    exact h bs hbody
  · intro h bs' hbody'
    rw [← Except.ok.inj (hbody.symm.trans hbody')]
    exact h

/-- The two ways agree if and only if the condition holds. -/
theorem agree_iff {x : Arg U} (hcodec : c.RoundTrips fresh x) (htyped : x.Typed fresh.type)
    (hfits : x.copyable = true ∨
      ∀ bs, c.body (x.payload fresh.type) = .ok bs → bs.length ≤ 65535) :
    Agree (overWire c (x.payload fresh.type) fresh)
        (decodeInto none (x.payload fresh.type) fresh) ↔ Agreeable c fresh x := by
  cases x with
  | nil => exact agree_nil
  | nilPointer => exact iff_of_false not_agree_panic id
  | value v =>
    cases hnil : v.isNil with
    | true =>
      -- A nil pointer as a value of a pointer type.
      match v, htyped.2 with
      | .nilPointer elem, _ => exact iff_of_false not_agree_panic fun h => Bool.noConfusion h.1
    | false =>
      obtain ⟨bs, hmarshal, hback⟩ := hcodec v (.inl rfl) hnil
      have hbody := (body_eq_marshal (payload_ne_nil htyped.2)).trans hmarshal
      refine (agree_of_roundTrip hbody hback (inProcess_value_iff htyped.1 htyped.2)
        (hfits.imp_right fun h => h bs hbody)).trans ?_
      exact and_congr_right fun _ => (forall_body_iff hbody).symm
  | ref v =>
    cases hnil : v.isNil with
    | true =>
      match v with
      | .nilPointer elem => exact iff_of_false not_agree_panic fun h => Bool.noConfusion h.1
      | .nilIface => exact iff_of_false not_agree_panic fun h => Bool.noConfusion h.1
    | false =>
      obtain ⟨bs, hmarshal, hback⟩ := hcodec v (.inr rfl) hnil
      have hbody : c.body (.object (.pointer v)) = .ok bs := hmarshal
      refine (agree_of_roundTrip hbody hback (inProcess_ref_iff htyped)
        (hfits.imp_right fun h => h bs hbody)).trans ?_
      exact and_congr_right fun _ => (forall_body_iff hbody).symm

/-- A codec takes the value that is passed there and back, and what it writes
fits 16 bits unless the argument is copyable anyway.  Then an argument or a
result fills a fresh destination alike within the process and over the wire
if and only if it is agreeable: it is nil and the codec accepts an empty body,
or it is copyable and the codec reads it from what arrives of the body. -/
theorem values_agree_iff (c : ValueCodec U) (fresh : GoValue U) (x : Arg U)
    (hcodec : c.RoundTrips fresh x) (htyped : x.Typed fresh.type)
    (hfits : x.copyable = true ∨
      ∀ bs, c.body (x.payload fresh.type) = .ok bs → bs.length ≤ 65535) :
    (∀ (dst : Bytes) (req : RequestMsg (GoValue U)), req.arg = x.payload fresh.type →
      req.method.length ≤ 65535 → req.userData.length ≤ 65535 →
      (Agree (argOnWire c dst req fresh) (decodeArgInto none req fresh) ↔
        Agreeable c fresh x)) ∧
    (∀ (dst : Bytes) (resp : ResponseMsg (GoValue U)), resp.ret = x.payload fresh.type →
      (∃ code str, resp.err = newError code str) →
      (∀ e, resp.err = some e → e.str.length ≤ 65535) → resp.userData.length ≤ 65535 →
      (Agree (retOnWire c dst resp fresh) (decodeRet none resp fresh) ↔
        Agreeable c fresh x)) := by
  refine ⟨?_, ?_⟩
  · intro dst req harg hmethod huser
    rw [argOnWire_eq hmethod huser, decodeArgInto, harg]
    exact agree_iff hcodec htyped hfits
  · intro dst resp hret herr hstr huser
    rw [retOnWire_eq herr hstr huser, decodeRet, hret]
    exact agree_iff hcodec htyped hfits

/-! ## A concrete codec -/

/-- `JsonCodec` on booleans: pointers are followed, nil is `null`, and an
empty text is an error. -/
def boolText : GoValue Bool → Except String Bytes
  | .base true => .ok [116, 114, 117, 101]
  | .base false => .ok [102, 97, 108, 115, 101]
  | .pointer v => boolText v
  | .nilPointer _ => .ok [110, 117, 108, 108]
  | _ => .error "unsupported"

def boolCodec : ValueCodec Bool where
  marshal
    | .object v => boolText v
    | _ => .error "unsupported"
  unmarshal b dst :=
    if b = [116, 114, 117, 101] then (.base true, none)
    else if b = [102, 97, 108, 115, 101] then (.base false, none)
    else if b = [110, 117, 108, 108] then (dst, none)
    else (dst, some "unexpected end of JSON input")

theorem boolCodec_roundTrips {x : Arg Bool} (htyped : x.Typed .base) :
    boolCodec.RoundTrips (.base false) x := by
  intro v hx hnil
  have htype : v.type = .base := by
    rcases hx with rfl | rfl
    · exact htyped.1
    · exact htyped
  match v, htype with
  | .base true, _ => rcases hx with rfl | rfl <;> exact ⟨_, rfl, rfl⟩
  | .base false, _ => rcases hx with rfl | rfl <;> exact ⟨_, rfl, rfl⟩

/-- A pointer to a boolean arrives alike on both ways. -/
theorem values_agree_pointer :
    Agree (argOnWire boolCodec [] { seq := 1, arg := .object (.pointer (.base true)) }
        (.base false))
      (decodeArgInto none { seq := 1, arg := .object (.pointer (.base true)) }
        (.base false)) := by
  refine ((values_agree_iff boolCodec (.base false) (.ref (.base true))
    (boolCodec_roundTrips rfl) rfl (.inl rfl)).1 [] _ rfl (Nat.zero_le _)
      (Nat.zero_le _)).mpr ⟨rfl, ?_⟩
  intro bs hbs
  cases hbs
  rfl

/-- Without an argument the wire reports an error where the call within the
process reports none, and a nil pointer panics within the process. -/
theorem nil_arguments_differ :
    (∀ x : Arg Bool, x.Typed .base → boolCodec.RoundTrips (.base false) x) ∧
    argOnWire boolCodec [] { seq := 1 } (.base false) =
      .done (.base false) (some "unexpected end of JSON input") ∧
    decodeArgInto none ({ seq := 1 } : RequestMsg (GoValue Bool)) (.base false) =
      .done (.base false) none ∧
    argOnWire boolCodec [] { seq := 1, arg := .object (.nilPointer .base) } (.base false) =
      .done (.base false) none ∧
    decodeArgInto none { seq := 1, arg := .object (.nilPointer .base) }
      (.base false : GoValue Bool) = .panicked := by
  refine ⟨fun _ => boolCodec_roundTrips, ?_, rfl, ?_, rfl⟩
  · rw [argOnWire_eq (Nat.zero_le _) (Nat.zero_le _)]
    rfl
  · rw [argOnWire_eq (Nat.zero_le _) (Nat.zero_le _)]
    rfl

end ClusterGo.Rpc.Values
