import ClusterGo.Codec.Payload
import ClusterGo.Codec.RoundTrip
import ClusterGo.NodeCache.Handler
import ClusterGo.Peer.Basic
import ClusterGo.Socket.Receive

/-!
# Binary messages, local and remote

`SendBinMessage` of `cluster.go` has two ways to a handler.  A message for
the node itself is a task of the pool, which calls the handler.  A message
for another node is encoded to a frame, read and decoded by the peer, and
dispatched there by `onMessage`.

`LocalCalls` and `RemoteCalls` are the calls of binary handlers that the two
ways lead to.  The remote way is the one over a connection that is
established and in between two frames, read in any pieces.

The encoder writes nothing for an empty slice, and the length of a frame is
stored in 32 bits.  `deliveries_agree_iff` says that nothing else makes a
difference.
-/

namespace ClusterGo

open Codec Framing Peer Rpc Socket

variable {H V T P C : Type}

/-! ## Handlers -/

/-- `msgManager`, with the handlers of binary messages.  The entry of a
command may be a nil handler. -/
structure MsgManager (H : Type) where
  binaryMsgHandlers : UInt16 → Option (Option H) := fun _ => none

/-- A call of a handler. -/
structure Invocation (H : Type) where
  handler : H
  fromAddr : LogicAddr
  cmd : UInt16
  msg : Bytes
deriving DecidableEq, Repr

namespace MsgManager

/-- `msgManager.dispatchBinary`.  Without a handler there is only a line in
the log. -/
def dispatchBinary (m : MsgManager H) (fromAddr : LogicAddr) (cmd : UInt16) (msg : Bytes) :
    Option (Invocation H) :=
  match m.binaryMsgHandlers cmd with
  | some (some handler) => some { handler, fromAddr, cmd, msg }
  | some none => none
  | none => none

/-- The part of `node.onMessage` that leads to binary handlers. -/
def onMessage (m : MsgManager H) : Decoded V P → Option (Invocation H)
  | .message msg =>
    match msg.payload with
    | .bytes b => m.dispatchBinary msg.fromAddr msg.cmd b
    | _ => none
  | .relay _ => none

end MsgManager

/-! ## Sending -/

/-- The errors of `SendBinMessage`. -/
inductive SendErr where
  | serverDie
  | serverNotStart
  | busy
  | invaildNode
deriving DecidableEq, Repr

/-- What `SendBinMessage` gets going: a task of the pool, with the call that
it makes, or a message that is sent to a node. -/
inductive Sending (H V P : Type) where
  | task (call : Option (Invocation H))
  | message (n : Ptr) (m : Message V P)

/-- `Node.SendBinMessage`.  `ready` is the answer of the `select` over `die`
and `started`, and `room` says whether the task queue has room. -/
def Node.sendBinMessage (ready : Except SendErr Unit) (room : Bool) (s : Node)
    (msgManager : MsgManager H) (toAddr : LogicAddr) (cmd : UInt16) (msg : Bytes) :
    Except SendErr (Sending H V P) := do
  ready
  if toAddr = s.localAddr.logicAddr then
    if room then .ok (.task (msgManager.dispatchBinary toAddr cmd msg)) else .error .busy
  else
    match s.getNodeByLogicAddr toAddr with
    | some n =>
      .ok (.message n
        { toAddr, fromAddr := s.localAddr.logicAddr, payload := .bytes msg, cmd })
    | none => .error .invaildNode

/-! ## Receiving -/

/-- A node with the codec of its connection to the node `peer`. -/
structure Receiver (H V T P : Type) where
  node : Node
  peer : Ptr
  codec : SSCodec V T P
  msgManager : MsgManager H
  self : codec.selfAddr = node.localAddr.logicAddr

namespace Receiver

def addr (t : Receiver H V T P) : LogicAddr := t.node.localAddr.logicAddr

/-- `recvloop` with the packet handler of `onEstablish`: the calls for a list
of payloads.  A payload that cannot be decoded and a packet that the handler
refuses end the loop. -/
def handle (t : Receiver H V T P) : SSCodec V T P → List Bytes → List (Invocation H)
  | _, [] => []
  | codec, payload :: payloads =>
    match (codec.decode payload).2 with
    | .value packet =>
      if t.node.packetHandler t.peer = none then
        (t.msgManager.onMessage packet).toList ++ t.handle (codec.decode payload).1 payloads
      else []
    | .error _ => []
    | .panic => []

end Receiver

/-- A connection to a receiver: the sending node with its `*node` of the
receiver, the codec and the gather buffer of its socket, and the frame reader
at the other end. -/
structure Connection (H V T P C : Type) where
  sender : Node
  msgManager : MsgManager H := {}
  peer : PeerNode (Obj V P) C
  codec : SSCodec V T P
  gather : Bytes := []
  reader : FrameReader

/-- The connection is established, accepted by both ends and between two
frames. -/
structure Connection.Open (c : Connection H V T P C) (t : Receiver H V T P)
    (maxPacketSize : Int) : Prop where
  apart : t.addr ≠ c.sender.localAddr.logicAddr
  routed : (c.sender.getNodeByLogicAddr t.addr).isSome = true
  unlocked : c.peer.locked = false
  connected : c.peer.socket.isSome = true
  idle : c.reader.unread = []
  maxSize : c.reader.maxSize = maxPacketSize
  accepted : t.node.packetHandler t.peer = none

/-! ## The two ways -/

/-- The calls of a message that a running node sends to itself. -/
def LocalCalls (t : Receiver H V T P) (cmd : UInt16) (msg : Bytes)
    (calls : List (Invocation H)) : Prop :=
  ∃ call, (t.node.sendBinMessage (.ok ()) true t.msgManager t.addr cmd msg :
    Except SendErr (Sending H V P)) = .ok (.task call) ∧ calls = call.toList

/-- The calls of a message that a running node sends to the receiver at the
other end of a connection. -/
def RemoteCalls (maxPacketSize : Int) (c : Connection H V T P C) (t : Receiver H V T P)
    (cmd : UInt16) (msg : Bytes) (calls : List (Invocation H)) : Prop :=
  ∃ n m, c.sender.sendBinMessage (.ok ()) true c.msgManager t.addr cmd msg =
      .ok (.message n m) ∧
    ∃ maxPendingMsgSize env deadline peer, c.peer.sendMessage maxPendingMsgSize env (.message m)
        deadline none = some (peer, { handed := [.message m] }) ∧
      ∃ b len payloads, c.codec.encode maxPacketSize c.gather (.message m) = some (b, len) ∧
        Receives c.reader (b.drop c.gather.length) payloads ∧
        calls = t.handle t.codec payloads

variable {c : Connection H V T P C} {t : Receiver H V T P} {maxPacketSize : Int}
  {cmd : UInt16} {msg : Bytes} {handler : H} {calls : List (Invocation H)}

theorem dispatchBinary_of_handler {m : MsgManager H}
    (h : m.binaryMsgHandlers cmd = some (some handler)) (fromAddr : LogicAddr) (msg : Bytes) :
    m.dispatchBinary fromAddr cmd msg = some { handler, fromAddr, cmd, msg } := by
  rw [MsgManager.dispatchBinary, h]

theorem localCalls_iff (h : t.msgManager.binaryMsgHandlers cmd = some (some handler)) :
    LocalCalls t cmd msg calls ↔ calls = [{ handler, fromAddr := t.addr, cmd, msg }] := by
  have hsend : (t.node.sendBinMessage (.ok ()) true t.msgManager t.addr cmd msg :
      Except SendErr (Sending H V P)) =
        .ok (.task (some { handler, fromAddr := t.addr, cmd, msg })) := by
    rw [← dispatchBinary_of_handler h]
    exact if_pos rfl
  constructor
  · intro hcalls
    obtain ⟨call, hcall, rfl⟩ := hcalls
    rw [hsend] at hcall
    rw [← Sending.task.inj (Except.ok.inj hcall)]
    rfl
  · intro hcalls
    exact ⟨_, hsend, hcalls⟩

/-! ## What is written -/

/-- The message that `SendBinMessage` builds for another node. -/
def binMessage (c : Connection H V T P C) (t : Receiver H V T P) (cmd : UInt16) (msg : Bytes) :
    Message V P :=
  { toAddr := t.addr, fromAddr := c.sender.localAddr.logicAddr, payload := .bytes msg, cmd }

/-- The payload of its frame. -/
def binBody (c : Connection H V T P C) (t : Receiver H V T P) (cmd : UInt16) (msg : Bytes) :
    Bytes :=
  header (binMessage c t cmd msg) binMsg ++ (BigEndian.encode 2 cmd.toNat ++ msg)

theorem binBody_length (c : Connection H V T P C) (t : Receiver H V T P) (cmd : UInt16)
    (msg : Bytes) : (binBody c t cmd msg).length = msg.length + 11 := by
  rw [binBody, List.length_append, header_length, List.length_append, BigEndian.encode_length]
  omega

/-- The bytes that a message that fits adds to the stream. -/
def written (c : Connection H V T P C) (t : Receiver H V T P) (cmd : UInt16) (msg : Bytes) :
    Bytes :=
  if msg = [] then [] else frame (binBody c t cmd msg)

theorem encode_binMessage (c : Connection H V T P C) (t : Receiver H V T P) (cmd : UInt16)
    (hfits : (msg.length : Int) ≤ maxPacketSize - 15) :
    ∃ len, c.codec.encode maxPacketSize c.gather (.message (binMessage c t cmd msg)) =
      some (c.gather ++ written c t cmd msg, len) := by
  by_cases hmsg : msg = []
  · refine ⟨0, ?_⟩
    rw [written, if_pos hmsg, List.append_nil, hmsg]
    rfl
  · have hlen : ¬ ((binBody c t cmd msg).length + 4 : Nat) > maxPacketSize := by
      rw [binBody_length]
      omega
    have hzero : ¬ msg.length = 0 := fun h => hmsg (List.eq_nil_of_length_eq_zero h)
    refine ⟨(binBody c t cmd msg).length + 4, ?_⟩
    simp only [SSCodec.encode, encodeMessage, binMessage, appendSSHeader_eq]
    rw [if_neg hzero, appendUint16, List.append_assoc, List.append_assoc, written, if_neg hmsg]
    refine congrArg some ((finalizeFrame_eq maxPacketSize c.gather
      (binBody c t cmd msg)).trans (if_neg hlen))

/-- A connected node hands the message to its socket. -/
theorem sendMessage_connected {M : Type} {n : PeerNode M C} (hunlocked : n.locked = false)
    (hconnected : n.socket.isSome = true) (maxPendingMsgSize : Int) (env : Env C) (msg : M)
    (deadline : Time) :
    n.sendMessage maxPendingMsgSize env msg deadline none =
      some ({ n with locked := false }, { handed := [msg] }) := by
  obtain ⟨sock, hsock⟩ := Option.isSome_iff_exists.mp hconnected
  simp only [PeerNode.sendMessage, PeerNode.lock, hunlocked, hsock, Bool.false_eq_true, if_false,
    Option.bind_eq_bind, Option.bind_some]
  rfl

/-- The remote way, as a function of what is written. -/
theorem remoteCalls_iff (hopen : c.Open t maxPacketSize)
    (hfits : (msg.length : Int) ≤ maxPacketSize - 15) :
    RemoteCalls maxPacketSize c t cmd msg calls ↔
      calls = t.handle t.codec (cut maxPacketSize (written c t cmd msg)) := by
  obtain ⟨n, hn⟩ := Option.isSome_iff_exists.mp hopen.routed
  obtain ⟨len, hencode⟩ := encode_binMessage c t cmd hfits
  have hsend : c.sender.sendBinMessage (.ok ()) true c.msgManager t.addr cmd msg =
      .ok (.message n (binMessage c t cmd msg)) := by
    refine (if_neg hopen.apart).trans ?_
    rw [hn]
    rfl
  constructor
  · intro hcalls
    obtain ⟨n', m, hsend', _, _, _, _, _, b, len', payloads, hencode', hreceives, rfl⟩ := hcalls
    obtain rfl := (Sending.message.inj (Except.ok.inj (hsend.symm.trans hsend'))).2
    obtain rfl := (Prod.mk.inj (Option.some.inj (hencode.symm.trans hencode'))).1
    rw [List.drop_left, receives_iff hopen.idle, hopen.maxSize] at hreceives
    rw [hreceives]
  · intro hcalls
    refine ⟨n, _, hsend, 0, { now := 0, done := fun _ => false }, 0, _,
      sendMessage_connected hopen.unlocked hopen.connected _ _ _ _, _, len, _, hencode, ?_, hcalls⟩
    rw [List.drop_left, receives_iff hopen.idle, hopen.maxSize]

/-! ## What is read -/

/-- The receiver of a whole frame calls the handler. -/
theorem handle_binBody (hopen : c.Open t maxPacketSize)
    (h : t.msgManager.binaryMsgHandlers cmd = some (some handler)) :
    t.handle t.codec [binBody c t cmd msg] =
      [{ handler, fromAddr := c.sender.localAddr.logicAddr, cmd, msg }] := by
  have hdecode : (t.codec.decode (binBody c t cmd msg)).2 =
      .value (.message (binMessage c t cmd msg)) :=
    decode_at_target (m := binMessage c t cmd msg) t.self fun r hr =>
      decodeBody_bytes t.codec _ _ cmd msg hr
  rw [Receiver.handle, hdecode]
  show (if t.node.packetHandler t.peer = none then
    (t.msgManager.dispatchBinary _ cmd msg).toList ++ _ else _) = _
  rw [if_pos hopen.accepted, dispatchBinary_of_handler h]
  rfl

/-- The bytes of a decoded message are those behind its command. -/
theorem bytes_of_decodeBody {ss : SSCodec V T P} {flag : UInt8} {toAddr fromAddr : LogicAddr}
    {r : BufferReader} {m : Message V P} {b : Bytes}
    (h : decodeBody ss flag toAddr fromAddr r = .value m) (hb : m.payload = .bytes b) :
    b = r.getUint16.2.getAll := by
  cases bodyRead_of_decodeBody h with
  | bin => exact (SSPayload.bytes.inj hb).symm
  | pb | req | resp => cases hb

theorem getUint16_getAll_length (r : BufferReader) :
    r.getUint16.2.getAll.length =
      if r.getAll.length < 2 then r.getAll.length else r.getAll.length - 2 := by
  have hlen : r.getAll.length = r.bs.length - r.offset := List.length_drop
  by_cases hshort : r.offset + 2 > r.bs.length
  · rw [BufferReader.getUint16, if_pos hshort, if_pos (by omega)]
  · have hrest : ({ r with offset := r.offset + 2 } : BufferReader).getAll.length =
        r.bs.length - (r.offset + 2) := List.length_drop
    rw [BufferReader.getUint16, if_neg hshort, if_neg (by omega), hrest]
    omega

/-- A message that is decoded from a payload leaves room for its header. -/
theorem length_of_decode {ss : SSCodec V T P} {payload : Bytes} (hne : payload ≠ [])
    (hlt : payload.length < 256 ^ 4) {m : Message V P} {b : Bytes}
    (h : (ss.decode payload).2 = .value (.message m)) (hb : m.payload = .bytes b) :
    b.length + 11 < 256 ^ 4 := by
  have htarget : ss.selfAddr = (readHead payload).toAddr := by
    by_contra hother
    rw [decode_relay ss hne hother] at h
    cases h
  rw [decode_eq ss hne, if_pos htarget] at h
  cases hbody : decodeBody ss (readHead payload).flag (readHead payload).toAddr
      (readHead payload).fromAddr (readHead payload).body with
  | error text =>
    rw [hbody] at h
    cases h
  | panic =>
    rw [hbody] at h
    cases h
  | value m' =>
    rw [hbody] at h
    obtain rfl := Decoded.message.inj (Outcome.value.inj h)
    rw [bytes_of_decodeBody hbody hb, getUint16_getAll_length]
    by_cases hlen : 9 ≤ payload.length
    · have hrest : (readHead payload).body.getAll.length = payload.length - 9 := by
        rw [(readHead_of_le hlen).2]
        exact List.length_drop
      split_ifs <;> omega
    · have hshort := readHead_of_lt hne (Nat.lt_of_not_le hlen)
      split_ifs <;> omega

/-- A handler is called for a message that holds bytes. -/
theorem onMessage_eq_some {m : MsgManager H} {packet : Decoded V P} {i : Invocation H}
    (h : m.onMessage packet = some i) :
    ∃ msg, packet = .message msg ∧ msg.payload = .bytes i.msg := by
  cases packet with
  | relay r => cases h
  | message msg =>
    refine ⟨msg, rfl, ?_⟩
    unfold MsgManager.onMessage MsgManager.dispatchBinary at h
    dsimp only at h
    split at h
    · rename_i b hb
      split at h
      · obtain rfl := Option.some.inj h
        exact hb
      · cases h
      · cases h
    · cases h

/-- No handler gets a message that does not fit a frame. -/
theorem length_of_mem_handle {codec : SSCodec V T P} {payloads : List Bytes}
    (hpayloads : ∀ p ∈ payloads, p ≠ [] ∧ p.length < 256 ^ 4) {i : Invocation H}
    (hi : i ∈ t.handle codec payloads) : i.msg.length + 11 < 256 ^ 4 := by
  induction payloads generalizing codec with
  | nil => cases hi
  | cons payload payloads ih =>
    rw [List.forall_mem_cons] at hpayloads
    obtain ⟨⟨hne, hlt⟩, hpayloads⟩ := hpayloads
    rw [Receiver.handle] at hi
    split at hi
    · rename_i packet hdecode
      split_ifs at hi
      · rcases List.mem_append.mp hi with hi | hi
        · obtain ⟨msg, rfl, hb⟩ := onMessage_eq_some (Option.mem_toList.mp hi)
          exact length_of_decode hne hlt hdecode hb
        · exact ih hpayloads hi
      · cases hi
    · cases hi
    · cases hi

/-- For every command with a handler on the target and every message of at
most `MaxPacketSize - 15` bytes, the remote way calls the handler with the
sender, the command and the message, as the local way does, if and only if
the message is not empty and a 32-bit number holds the length of its
payload. -/
theorem deliveries_agree_iff (hfits : (msg.length : Int) ≤ maxPacketSize - 15)
    (hhandler : t.msgManager.binaryMsgHandlers cmd = some (some handler))
    (hopen : c.Open t maxPacketSize) :
    ((∀ calls, LocalCalls t cmd msg calls ↔
        calls = [{ handler, fromAddr := t.addr, cmd, msg }]) ∧
      ∀ calls, RemoteCalls maxPacketSize c t cmd msg calls ↔
        calls = [{ handler, fromAddr := c.sender.localAddr.logicAddr, cmd, msg }]) ↔
      msg ≠ [] ∧ msg.length + 11 < 2 ^ 32 := by
  constructor
  · intro h
    have hcalls := (remoteCalls_iff hopen hfits).mp ((h.2 _).mpr rfl)
    refine ⟨?_, ?_⟩
    · intro hnil
      rw [written, if_pos hnil, cut_nil] at hcalls
      cases hcalls
    · refine length_of_mem_handle (t := t) (fun p hp => ?_) (hcalls ▸ List.mem_cons_self)
      have hfits := fits_of_mem_cut hp
      exact ⟨hfits.1, hfits.2.2⟩
  · intro h
    refine ⟨fun calls => localCalls_iff hhandler, fun calls => ?_⟩
    have hlen := binBody_length c t cmd msg
    have hbody : binBody c t cmd msg ≠ [] := by
      intro hnil
      rw [hnil] at hlen
      cases hlen
    have hcut : cut maxPacketSize (written c t cmd msg) = [binBody c t cmd msg] := by
      rw [written, if_neg h.1, ← List.append_nil (frame _),
        cut_frame hbody (by rw [hlen]; omega) (hlen ▸ h.2), cut_nil]
    rw [remoteCalls_iff hopen hfits, hcut, handle_binBody hopen hhandler]

/-! ## Two nodes -/

/-- The node `1.1.server`. -/
def office (server : UInt32) : Member :=
  { addr := ⟨.ofFields 1 1 server, "10.0.0.3:8110"⟩, exported := false, available := true }

/-- `1.1.2`, connected to `1.1.1`, with a handler for command 7. -/
def officeReceiver : Receiver Unit Bytes Empty Empty where
  node := Node.afterReport (office 2) [office 1]
  peer := 1
  codec := quoteSSCodec (office 2).addr.logicAddr
  msgManager := { binaryMsgHandlers := fun cmd => if cmd = 7 then some (some ()) else none }
  self := rfl

/-- The other end of the connection. -/
def officeConnection : Connection Unit Bytes Empty Empty Empty where
  sender := Node.afterReport (office 1) [office 2]
  peer := { socket := some 0 }
  codec := quoteSSCodec (office 1).addr.logicAddr
  reader := newFrameReader 4096

theorem officeConnection_open : officeConnection.Open officeReceiver 4096 where
  apart := by decide
  routed := by decide
  unlocked := rfl
  connected := rfl
  idle := rfl
  maxSize := rfl
  accepted := by decide

theorem deliveries_agree_office :
    RemoteCalls 4096 officeConnection officeReceiver 7 [1, 2, 3]
      [{ handler := (), fromAddr := .ofFields 1 1 1, cmd := 7, msg := [1, 2, 3] }] := by
  have hagree : _ ∧ ∀ calls, RemoteCalls 4096 officeConnection officeReceiver 7 [1, 2, 3] calls ↔
      calls = [{ handler := (), fromAddr := .ofFields 1 1 1, cmd := 7, msg := [1, 2, 3] }] :=
    (deliveries_agree_iff (by decide) rfl officeConnection_open).mpr (by decide)
  exact (hagree.2 _).mpr rfl

/-- An empty message that a node sends to itself reaches the handler.  Sent
to the peer it does not, although the call succeeds. -/
theorem empty_message_lost :
    officeConnection.Open officeReceiver 4096 ∧
    LocalCalls officeReceiver 7 []
      [{ handler := (), fromAddr := .ofFields 1 1 2, cmd := 7, msg := [] }] ∧
    RemoteCalls 4096 officeConnection officeReceiver 7 [] [] ∧
    ∀ calls, RemoteCalls 4096 officeConnection officeReceiver 7 [] calls → calls = [] := by
  have hremote : ∀ calls, RemoteCalls 4096 officeConnection officeReceiver 7 [] calls ↔
      calls = [] := by
    intro calls
    rw [remoteCalls_iff officeConnection_open (by decide), written, if_pos rfl, cut_nil]
    rfl
  exact ⟨officeConnection_open, (localCalls_iff rfl).mpr rfl, (hremote []).mpr rfl,
    fun calls => (hremote calls).mp⟩

end ClusterGo
