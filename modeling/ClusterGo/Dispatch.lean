import ClusterGo.Codec.Identity

/-!
# Handlers of protobuf messages

`RegisterProtoHandler`, `dispatchProto` and the two ways of `SendPbMessage` of
`cluster.go`.  A handler is registered for the type of a message, but the
table has the low 16 bits of the id of the type as its key.  `Panicf` is taken
to panic, as it does in the loggers of the repository.

* `proto_handlers_iff`: when a series of registrations goes through, and which
  handler a command then has.
* `proto_deliveries_agree_iff`: a node that sends a message to itself calls the
  handler of its command with the message.  The node at the other end of a
  connection, with the same registry and the same handlers, does the same if
  and only if the id of the type is below 65536.
-/

namespace ClusterGo.Dispatch

open Codec Framing Rpc

variable {H V T P : Type}

/-- `pb.GetCmd`.  A type that is not registered has the command 0. -/
def getCmd (lib : ProtoLib T P) (nameSpace : NameSpace T) (ns : String) (o : P) : UInt32 :=
  match nameSpace ns with
  | some m => (m.nameToID (lib.name (lib.typeOf o))).getD 0
  | none => 0

/-- The conversion `uint16(cmd)`. -/
def command (id : UInt32) : UInt16 := UInt16.ofNat id.toNat

/-- `protoMsgHandlers`.  The entry of a command may be a nil handler. -/
abbrev Handlers (H : Type) := UInt16 → Option (Option H)

/-- `msgManager.registerProto`, `none` for the panic. -/
def registerProto (m : Handlers H) (cmd : UInt16) (handler : Option H) : Option (Handlers H) :=
  match m cmd with
  | some _ => none
  | none => some (Function.update m cmd (some handler))

/-- The arguments of `RegisterProtoHandler`. -/
structure Registration (H P : Type) where
  msg : P
  handler : Option H

section

variable (lib : ProtoLib T P) (nameSpace : NameSpace T)

/-- `Node.RegisterProtoHandler`, `none` for the panic.  A type with the id 0 is
passed over. -/
def registerProtoHandler (m : Handlers H) (r : Registration H P) : Option (Handlers H) :=
  match r.handler with
  | none => none
  | some handler =>
    let cmd := getCmd lib nameSpace "ss" r.msg
    if cmd ≠ 0 then registerProto m (command cmd) (some handler) else some m

def registerHandlers (m : Handlers H) (rs : List (Registration H P)) : Option (Handlers H) :=
  rs.foldlM (registerProtoHandler lib nameSpace) m

/-- What a registration puts into the table. -/
def binding (r : Registration H P) : Option (UInt16 × H) :=
  r.handler.bind fun handler =>
    if getCmd lib nameSpace "ss" r.msg ≠ 0 then
      some (command (getCmd lib nameSpace "ss" r.msg), handler)
    else none

end

/-- A call of a handler. -/
structure ProtoCall (H P : Type) where
  handler : H
  fromAddr : LogicAddr
  msg : P
deriving DecidableEq, Repr

/-- `msgManager.dispatchProto`.  Without a handler there is only a line in the
log. -/
def dispatchProto (m : Handlers H) (fromAddr : LogicAddr) (cmd : UInt16) (msg : P) :
    Option (ProtoCall H P) :=
  match m cmd with
  | some (some handler) => some { handler, fromAddr, msg }
  | some none => none
  | none => none

/-- The task of `SendPbMessage` for a message of the node to itself. -/
def localCall (lib : ProtoLib T P) (nameSpace : NameSpace T) (m : Handlers H)
    (toAddr : LogicAddr) (msg : P) : Option (ProtoCall H P) :=
  dispatchProto m toAddr (command (getCmd lib nameSpace "ss" msg)) msg

/-- The part of `node.onMessage` that leads to protobuf handlers. -/
def onMessage (m : Handlers H) : Outcome (Decoded V P) → Option (ProtoCall H P)
  | .value (.message msg) =>
    match msg.payload with
    | .proto p => dispatchProto m msg.fromAddr msg.cmd p
    | _ => none
  | _ => none

/-! ## The table -/

/-- The table has these entries, and no nil handler. -/
structure Holds (l : List (UInt16 × H)) (m : Handlers H) : Prop where
  keys : (l.map (·.1)).Nodup
  entries : ∀ cmd x, m cmd = some x ↔ ∃ handler, x = some handler ∧ (cmd, handler) ∈ l

theorem holds_empty : Holds [] (fun _ => none : Handlers H) where
  keys := List.nodup_nil
  entries := by simp

variable {m m' : Handlers H} {l : List (UInt16 × H)}

theorem Holds.eq_none_iff (h : Holds l m) (cmd : UInt16) :
    m cmd = none ↔ cmd ∉ l.map (·.1) := by
  constructor
  · intro hnone hmem
    obtain ⟨⟨c, handler⟩, hpair, rfl⟩ := List.mem_map.mp hmem
    have hsome := (h.entries c (some handler)).mpr ⟨handler, rfl, hpair⟩
    rw [hnone] at hsome
    cases hsome
  · intro hnot
    cases hentry : m cmd with
    | none => rfl
    | some x =>
      obtain ⟨handler, _, hmem⟩ := (h.entries cmd x).mp hentry
      exact absurd (List.mem_map_of_mem hmem) hnot

theorem Holds.register (h : Holds l m) {cmd : UInt16} (hnew : cmd ∉ l.map (·.1)) (handler : H) :
    Holds (l ++ [(cmd, handler)]) (Function.update m cmd (some (some handler))) where
  keys := by
    rw [List.map_append, List.nodup_append]
    refine ⟨h.keys, List.nodup_singleton _, fun a ha b hb heq => hnew ?_⟩
    have hcmd : b = cmd := by simpa using hb
    rw [← hcmd, ← heq]
    exact ha
  entries := by
    intro c x
    by_cases hc : c = cmd
    · rw [hc, Function.update_self]
      have hold : ∀ handler', (cmd, handler') ∉ l := fun handler' hmem =>
        hnew (List.mem_map_of_mem hmem)
      simp [hold, eq_comm]
    · rw [Function.update_of_ne hc, h.entries]
      simp [hc]

section

variable (lib : ProtoLib T P) (nameSpace : NameSpace T)

/-- One registration goes through if it has a handler and its command is
free. -/
theorem Holds.registerProtoHandler (h : Holds l m) (r : Registration H P) :
    (∃ m', Dispatch.registerProtoHandler lib nameSpace m r = some m' ∧ r.handler ≠ none ∧
      Holds (l ++ (binding lib nameSpace r).toList) m') ∨
    (Dispatch.registerProtoHandler lib nameSpace m r = none ∧
      (r.handler = none ∨ ¬ ((l ++ (binding lib nameSpace r).toList).map (·.1)).Nodup)) := by
  unfold Dispatch.registerProtoHandler binding
  cases hhandler : r.handler with
  | none => exact Or.inr ⟨rfl, Or.inl rfl⟩
  | some handler =>
    by_cases hzero : getCmd lib nameSpace "ss" r.msg = 0
    · refine Or.inl ⟨m, by simp [hzero], by simp, ?_⟩
      simpa [hzero] using h
    · simp only [ne_eq, hzero, not_false_eq_true, if_true, Option.bind_some, Option.toList_some]
      by_cases hnew : command (getCmd lib nameSpace "ss" r.msg) ∈ l.map (·.1)
      · refine Or.inr ⟨?_, Or.inr ?_⟩
        · have hsome := mt (h.eq_none_iff _).mp (not_not.mpr hnew)
          unfold registerProto
          split
          · rfl
          · rename_i hnone
            exact absurd hnone hsome
        · rw [List.map_append, List.nodup_append]
          intro hnodup
          exact hnodup.2.2 _ hnew _ (by simp) rfl
      · refine Or.inl ⟨_, ?_, by simp, h.register hnew handler⟩
        rw [registerProto, (h.eq_none_iff _).mpr hnew]

/-- A series of registrations, after those that are in the table. -/
theorem Holds.registerHandlers (h : Holds l m) (rs : List (Registration H P)) :
    ((∃ m', Dispatch.registerHandlers lib nameSpace m rs = some m') ↔
      (∀ r ∈ rs, r.handler ≠ none) ∧
        ((l ++ rs.filterMap (binding lib nameSpace)).map (·.1)).Nodup) ∧
    ∀ m', Dispatch.registerHandlers lib nameSpace m rs = some m' →
      Holds (l ++ rs.filterMap (binding lib nameSpace)) m' := by
  induction rs generalizing m l with
  | nil =>
    refine ⟨⟨fun _ => ⟨by simp, by simpa using h.keys⟩, fun _ => ⟨m, rfl⟩⟩, ?_⟩
    intro m' hm'
    cases hm'
    simpa using h
  | cons r rs ih =>
    have hfilter : (r :: rs).filterMap (binding lib nameSpace) =
        (binding lib nameSpace r).toList ++ rs.filterMap (binding lib nameSpace) := by
      rw [List.filterMap_cons]
      cases binding lib nameSpace r <;> rfl
    rw [hfilter, ← List.append_assoc]
    have hrun : Dispatch.registerHandlers lib nameSpace m (r :: rs) =
        (Dispatch.registerProtoHandler lib nameSpace m r).bind fun u =>
          Dispatch.registerHandlers lib nameSpace u rs := List.foldlM_cons
    rw [hrun]
    rcases h.registerProtoHandler lib nameSpace r with
      ⟨u, hu, hhandler, hholds⟩ | ⟨hnone, hrefused⟩
    · rw [hu, Option.bind_some, List.forall_mem_cons, and_iff_right hhandler]
      exact ih hholds
    · rw [hnone, Option.bind_none]
      refine ⟨⟨fun hsome => ?_, fun hok => ?_⟩, fun m' hm' => ?_⟩
      · obtain ⟨m', hm'⟩ := hsome
        cases hm'
      · rcases hrefused with hnil | hdup
        · exact absurd hnil (hok.1 r List.mem_cons_self)
        · have hnodup := hok.2
          rw [List.map_append] at hnodup
          exact absurd (List.nodup_append.mp hnodup).1 hdup
      · cases hm'

end

/-- Registrations go through if and only if every one has a handler and no two
types have ids with the same low 16 bits, the types with the id 0 apart.  A
command then has the handler of the type that was registered under it, and
the types with the id 0 have none. -/
theorem proto_handlers_iff (lib : ProtoLib T P) (nameSpace : NameSpace T)
    (rs : List (Registration H P)) :
    ((∃ m, registerHandlers lib nameSpace (fun _ => none) rs = some m) ↔
      (∀ r ∈ rs, r.handler ≠ none) ∧
        ((rs.filterMap (binding lib nameSpace)).map (·.1)).Nodup) ∧
    ∀ m, registerHandlers lib nameSpace (fun _ => none) rs = some m →
      ∀ fromAddr cmd (msg : P) call, dispatchProto m fromAddr cmd msg = some call ↔
        ∃ r ∈ rs, r.handler = some call.handler ∧ getCmd lib nameSpace "ss" r.msg ≠ 0 ∧
          command (getCmd lib nameSpace "ss" r.msg) = cmd ∧
          call.fromAddr = fromAddr ∧ call.msg = msg := by
  obtain ⟨hiff, hholds⟩ := holds_empty.registerHandlers lib nameSpace rs
  refine ⟨hiff, fun m hm fromAddr cmd msg call => ?_⟩
  have hentry := (hholds m hm).entries cmd (some call.handler)
  have hcall : dispatchProto m fromAddr cmd msg = some call ↔
      m cmd = some (some call.handler) ∧ call.fromAddr = fromAddr ∧ call.msg = msg := by
    obtain ⟨handler, from', msg'⟩ := call
    unfold dispatchProto
    split
    · rename_i handler' hsome
      simp [hsome, eq_comm]
    · rename_i hsome
      simp [hsome]
    · rename_i hnone
      simp [hnone]
  rw [hcall, hentry]
  simp only [Option.some.injEq, List.nil_append, exists_eq_left', List.mem_filterMap, binding,
    Option.bind_eq_some_iff]
  constructor
  · intro h
    obtain ⟨⟨r, hr, handler, hhandler, hif⟩, hfrom, hmsg⟩ := h
    split_ifs at hif with hzero
    obtain ⟨rfl, rfl⟩ := Prod.mk.inj (Option.some.inj hif)
    exact ⟨r, hr, hhandler, hzero, rfl, hfrom, hmsg⟩
  · intro h
    obtain ⟨r, hr, hhandler, hzero, rfl, hfrom, hmsg⟩ := h
    exact ⟨⟨r, hr, call.handler, hhandler, by rw [if_pos hzero]⟩, hfrom, hmsg⟩

/-- `Echo` has the id 1 and `Ping` the id 65537. -/
def echoAndPing : NameSpace String := registerAll rawProto [echoCall, widePingCall]

/-- With a handler for `Echo` only, it is called for a `Ping` too, and `Ping`
cannot get one of its own. -/
theorem proto_handlers_echoAndPing :
    (∃ m, registerHandlers rawProto echoAndPing (fun _ => none) [⟨echoCall.msg, some true⟩] =
        some m ∧
      dispatchProto m ⟨1⟩ (command (getCmd rawProto echoAndPing "ss" widePingCall.msg))
        widePingCall.msg = some ⟨true, ⟨1⟩, widePingCall.msg⟩) ∧
    ¬ ∃ m, registerHandlers rawProto echoAndPing (fun _ => none)
      [⟨echoCall.msg, some true⟩, ⟨widePingCall.msg, some false⟩] = some m := by
  obtain ⟨hone, hcalls⟩ :=
    proto_handlers_iff rawProto echoAndPing [⟨echoCall.msg, some true⟩]
  obtain ⟨htwo, _⟩ := proto_handlers_iff rawProto echoAndPing
    [⟨echoCall.msg, some true⟩, ⟨widePingCall.msg, some false⟩]
  constructor
  · obtain ⟨m, hm⟩ := hone.mpr ⟨by simp, by decide +kernel⟩
    refine ⟨m, hm, (hcalls m hm _ _ _ _).mpr ⟨_, List.mem_singleton_self _, rfl, ?_⟩⟩
    decide +kernel
  · rw [htwo]
    intro h
    exact absurd h.2 (by decide +kernel)

/-! ## The two ways of a message -/

/-- `New` makes a message of the type that it is given, and so does
`Unmarshal`. -/
structure Typed (lib : ProtoLib T P) : Prop where
  new : ∀ tt, lib.typeOf (lib.new tt) = tt
  unmarshal : ∀ b tt msg, lib.unmarshal b tt = .ok msg → lib.typeOf msg = tt

theorem Typed.newMessage_eq {lib : ProtoLib T P} (htyped : Typed lib) {pbMeta : PbMeta T}
    {id : UInt32} {out : Bytes} {msg : P} (h : pbMeta.unmarshal lib id out = .ok msg) :
    pbMeta.newMessage id = .ok (lib.typeOf msg) := by
  obtain ⟨tt, hnew, hread⟩ := Fallible.bind_eq_ok.mp h
  have htype : lib.typeOf msg = tt := by
    split_ifs at hread
    · exact htyped.unmarshal _ _ _ hread
    · obtain rfl := Except.ok.inj hread
      exact htyped.new tt
  rw [htype]
  exact hnew

theorem getCmd_of_registered {lib : ProtoLib T P} {calls : List (RegisterCall P)}
    {pbMeta : PbMeta T} (hreg : RegistryOf lib "ss" calls pbMeta) {c : RegisterCall P}
    (hc : c ∈ calls) (hns : c.ns = "ss") {msg : P} (htype : lib.typeOf c.msg = lib.typeOf msg) :
    getCmd lib (registerAll lib calls) "ss" msg = c.id := by
  have hmeta : registerAll lib calls "ss" = some pbMeta := hreg.getMeta_eq
  have hname := hreg.represents.nameToID_of_mem ((mem_firstOfName hreg.names_nodup).mpr ⟨hc, hns⟩)
  rw [RegisterCall.name, htype] at hname
  rw [getCmd, hmeta]
  show (pbMeta.nameToID _).getD 0 = c.id
  rw [hname]
  rfl

/-- The call for the payload of a frame with an id and the bytes of a message:
the handler of the command, with what the bytes are as a message of the type
that the command is looked up as. -/
theorem onMessage_protoBody {dec : SSCodec V T P} {pbMeta : PbMeta T}
    (hmeta : dec.pbMeta = some pbMeta) {m : Message V P} (hself : dec.selfAddr = m.toAddr)
    (id : UInt32) (out : Bytes) {handlers : Handlers H} {handler : H}
    (hhandler : handlers (command id) = some (some handler)) (call : ProtoCall H P) :
    onMessage handlers (dec.decode (protoBody m id out)).2 = some call ↔
      call.handler = handler ∧ call.fromAddr = m.fromAddr ∧
        pbMeta.unmarshal dec.lib (UInt32.ofNat (command id).toNat) out = .ok call.msg := by
  obtain ⟨r, hr, hdecode⟩ :=
    decode_header_append dec m pbMsg (BigEndian.encode 2 (command id).toNat ++ out)
  rw [if_pos hself, decodeBody_proto hmeta m.toAddr m.fromAddr _ out hr] at hdecode
  have hbody : protoBody m id out =
      header m pbMsg ++ (BigEndian.encode 2 (command id).toNat ++ out) := rfl
  rw [hbody, hdecode]
  cases hwire : pbMeta.unmarshal dec.lib (UInt32.ofNat (command id).toNat) out with
  | error text =>
    constructor
    · intro h
      cases h
    · intro h
      cases h.2.2
  | ok msg =>
    show dispatchProto handlers m.fromAddr (command id) msg = some call ↔ _
    obtain ⟨handler', from', msg'⟩ := call
    rw [dispatchProto, hhandler]
    simp [eq_comm]

/-- For a message of a registered type whose command has a handler: the local
way calls the handler with the message, and the remote way does so too, with
the address of the sender, if and only if the id of the type is below 65536. -/
theorem proto_deliveries_agree_iff {maxPacketSize : Int} {calls : List (RegisterCall P)}
    {pbMeta : PbMeta T} {ss dec : SSCodec V T P} (hlib : ss.lib.Lawful) (htyped : Typed ss.lib)
    (hreg : RegistryOf ss.lib "ss" calls pbMeta) (hss : ss.pbMeta = some pbMeta)
    (hdec : dec.pbMeta = some pbMeta) (hdeclib : dec.lib = ss.lib) {m : Message V P} {msg : P}
    (hp : m.payload = .proto msg) (hself : dec.selfAddr = m.toAddr) {c : RegisterCall P}
    (hc : c ∈ calls) (hns : c.ns = "ss") (htype : ss.lib.typeOf c.msg = ss.lib.typeOf msg)
    {handlers : Handlers H} {handler : H}
    (hhandler : handlers (command c.id) = some (some handler)) {dst b : Bytes} {n : Nat}
    (hencode : ss.encode maxPacketSize dst (.message m) = some (b, n)) (hn : 0 < n) :
    localCall ss.lib (registerAll ss.lib calls) handlers m.toAddr msg =
        some { handler, fromAddr := m.toAddr, msg } ∧
      (onMessage handlers (dec.decode ((b.drop dst.length).drop 4)).2 =
          some { handler, fromAddr := m.fromAddr, msg } ↔
        c.id.toNat < 65536) := by
  constructor
  · rw [localCall, getCmd_of_registered hreg hc hns htype, dispatchProto, hhandler]
  · rcases encodeMessage_proto hlib.appends hp hss with hnone | ⟨id, out, hmarshal, hframe⟩
    · have hzero := Option.some.inj (hencode.symm.trans hnone)
      exact absurd (Prod.mk.inj hzero).2 (Nat.ne_of_gt hn)
    · obtain ⟨hid, hout⟩ := PbMeta.marshal_eq_ok hlib hmarshal
      have hname := hreg.represents.nameToID_of_mem
        ((mem_firstOfName hreg.names_nodup).mpr ⟨hc, hns⟩)
      rw [RegisterCall.name, htype, hid] at hname
      obtain rfl := Option.some.inj hname
      have hb := Option.some.inj (hframe.symm.trans hencode)
      rcases frameOrNothing_cases hb with ⟨_, hzero⟩ | ⟨rfl, rfl, _⟩
      · omega
      · rw [List.drop_left, frame_drop,
          onMessage_protoBody hdec hself c.id out hhandler, hdeclib]
        rw [← command_eq_iff, ← hreg.newMessage_iff hc hns, htype]
        constructor
        · intro h
          -- The type that was looked up is the type of the message that was read.
          exact htyped.newMessage_eq h.2.2
        · intro h
          exact ⟨rfl, rfl, PbMeta.unmarshal_eq_ok hlib h hout⟩

theorem rawProto_typed : Typed rawProto where
  new := fun _ => rfl
  unmarshal := by
    intro b tt msg h
    obtain rfl := Except.ok.inj h
    rfl

/-- A handler for the command 1. -/
def oneHandler : Handlers Unit := fun cmd => if cmd = 1 then some (some ()) else none

theorem proto_deliveries_agree_oneHandler :
    echoCodec.encode 4096 [] (.message echoMessage) = some (echoFrame, 16) ∧
    localCall rawProto (registerAll rawProto [echoCall]) oneHandler ⟨2⟩ ("*ss.Echo", [7]) =
      some { handler := (), fromAddr := ⟨2⟩, msg := ("*ss.Echo", [7]) } ∧
    onMessage oneHandler (echoTarget.decode (echoFrame.drop 4)).2 =
      some { handler := (), fromAddr := ⟨1⟩, msg := ("*ss.Echo", [7]) } := by
  have hencode : echoCodec.encode 4096 [] (.message echoMessage) = some (echoFrame, 16) := by
    decide +kernel
  have hlib : echoCodec.lib.Lawful := rawProto_lawful
  have htyped : Typed echoCodec.lib := rawProto_typed
  have hreg : RegistryOf echoCodec.lib "ss" [echoCall] echoMeta := echoMeta_registryOf
  have hdec : echoTarget.pbMeta = some echoMeta := rfl
  have hself : echoTarget.selfAddr = echoMessage.toAddr := rfl
  have hp : echoMessage.payload = .proto ("*ss.Echo", [7]) := rfl
  have hhandler : oneHandler (command echoCall.id) = some (some ()) := rfl
  have hagree := proto_deliveries_agree_iff hlib htyped hreg rfl hdec rfl hp hself
    List.mem_cons_self rfl rfl hhandler hencode (by decide)
  exact ⟨hencode, hagree.1, hagree.2.mpr (by decide)⟩

end ClusterGo.Dispatch
