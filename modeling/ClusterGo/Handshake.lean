import ClusterGo.Crypto.Aes
import ClusterGo.Lib.Framing
import ClusterGo.NodeCache.Basic
import ClusterGo.Peer.Basic

/-!
# The handshake of a connection

A node that opens a connection sends a `Handshake` first: its addresses as
JSON, encrypted, behind the length.  `handshake` of `node.go` writes it and
waits for four bytes.  `onNewConnection` of `cluster.go` reads it at the
other end, finds the node that it names in its cache, and makes the
connection the one of that node, or the carrier of a stream session.

The incoming bytes are those that arrive before the deadline, and `fin` says
how they end.  `io.ReadFull` takes as many as it is asked for and leaves the
rest to the socket.

The JSON library and GCM are parameters.  `sock` names the new connection,
and the answers of the write and of `smux.Server` come from outside.
`none` is a mutex that is held.
-/

namespace ClusterGo

open BigEndian Framing
open Peer (PeerNode Env Reply)
open Rpc (Bytes)

/-- `Handshake`. -/
structure Handshake where
  logicAddr : UInt32
  netAddr : String
  isStream : Bool
deriving DecidableEq, Repr

namespace Handshake

/-- `json.Marshal` and `json.Unmarshal` of a `Handshake`. -/
structure Json where
  marshal : Handshake → Bytes
  unmarshal : Bytes → Option Handshake

def Json.Lawful (json : Json) : Prop := ∀ h, json.unmarshal (json.marshal h) = some h

/-- What the two functions use of the library, and the secret key. -/
structure Lib where
  json : Json
  gcm : Crypto.Gcm
  secretKey : Bytes

structure Lib.Lawful (lib : Lib) : Prop where
  gcm : lib.gcm.Lawful
  key : Crypto.newCipher lib.secretKey = .ok ()

/-! ## Reading -/

/-- How the incoming bytes end: the other side closes, or the deadline
passes. -/
inductive Ending where
  | closed
  | timeout
deriving DecidableEq, Repr

structure Incoming where
  bytes : Bytes
  fin : Ending
deriving DecidableEq, Repr

inductive ReadErr where
  | eof
  | unexpectedEOF
  | timeout
deriving DecidableEq, Repr

/-- `io.ReadFull`. -/
def Incoming.readFull (inc : Incoming) (n : Nat) : Except ReadErr (Bytes × Incoming) :=
  if n ≤ inc.bytes.length then .ok (inc.bytes.take n, { inc with bytes := inc.bytes.drop n })
  else
    match inc.fin with
    | .timeout => .error .timeout
    | .closed => .error (if inc.bytes = [] then .eof else .unexpectedEOF)

theorem readFull_eq_ok {inc rest : Incoming} {n : Nat} {b : Bytes} :
    inc.readFull n = .ok (b, rest) ↔
      inc.bytes = b ++ rest.bytes ∧ b.length = n ∧ rest.fin = inc.fin := by
  unfold Incoming.readFull
  constructor
  · intro h
    split at h
    · cases h
      exact ⟨(List.take_append_drop ..).symm, by rw [List.length_take]; omega, rfl⟩
    · split at h <;> cases h
  · intro h
    obtain ⟨hbytes, rfl, hfin⟩ := h
    rw [hbytes, if_pos (by rw [List.length_append]; omega), List.take_left, List.drop_left]
    obtain ⟨bytes, fin⟩ := rest
    cases hfin
    rfl

/-! ## The side that opens the connection -/

inductive Err where
  | read (e : ReadErr)
  | crypto (e : Crypto.Err)
  | json
  | write
  | handshakeTooBig
  | invaildNode
  | netAddrMismatch
  | smux
  | peer (e : Peer.Err)
  | text (s : String)
deriving DecidableEq, Repr

/-- What `self` says of itself. -/
def introduce (self : Addr) (isStream : Bool) : Handshake :=
  { logicAddr := self.logicAddr.val, netAddr := self.netAddr, isStream }

/-- The first half of `node.handshake`: what it writes. -/
def hello (lib : Lib) (rand : Option Bytes) (self : Addr) (isStream : Bool) :
    Except Err Bytes :=
  match Crypto.aesEncrypt lib.gcm rand lib.secretKey
      (lib.json.marshal (introduce self isStream)) with
  | .error e => .error (.crypto e)
  | .ok j => .ok (frame j)

/-- `node.handshake`: what it writes, and what it leaves unread. -/
def handshake (lib : Lib) (rand : Option Bytes) (self : Addr) (isStream writeFails : Bool)
    (inc : Incoming) : Except Err (Bytes × Incoming) := do
  let b ← hello lib rand self isStream
  if writeFails then .error .write
  else
    match inc.readFull 4 with
    | .error e => .error (.read e)
    | .ok (_, rest) => return (b, rest)

/-! ## The side that accepts it -/

/-- A node with its peers, whether `onNewStream` is set, and the sessions
that it serves. -/
structure Host (M C : Type) where
  node : Node
  peers : Ptr → PeerNode M C
  onNewStream : Bool := false
  sessions : List Nat := []

def maxHandshakePayload : Nat := 1024

/-- `onNewConnection` until the `Handshake` is there. -/
def readHandshake (lib : Lib) (inc : Incoming) : Except Err (Handshake × Incoming) :=
  match inc.readFull 4 with
  | .error e => .error (.read e)
  | .ok (head, inc) =>
    if decode head > maxHandshakePayload then .error .handshakeTooBig
    else
      match inc.readFull (decode head) with
      | .error e => .error (.read e)
      | .ok (buff, rest) =>
        match Crypto.aesDecrypt lib.gcm lib.secretKey buff with
        | .error e => .error (.crypto e)
        | .ok plain =>
          match lib.json.unmarshal plain with
          | none => .error .json
          | some h => .ok (h, rest)

/-- The node that a `Handshake` names, if it has the address that the cache
knows. -/
def identify (cache : NodeCache) (h : Handshake) : Except Err Ptr :=
  match cache.getNodeByLogicAddr ⟨h.logicAddr⟩ with
  | none => .error .invaildNode
  | some n => if (cache.heap n).addr.netAddr ≠ h.netAddr then .error .netAddrMismatch else .ok n

/-- How the outside answers. -/
structure Answers where
  sock : Nat
  writeFails : Bool
  smuxFails : Bool
deriving DecidableEq, Repr

variable {M C : Type}

/-- A connection for streams. -/
def acceptStream (ans : Answers) (s : Host M C) : Host M C × Except Err (Reply M) :=
  if !s.onNewStream then (s, .error (.text "onNewStream not set"))
  else if ans.writeFails then (s, .error .write)
  else if ans.smuxFails then (s, .error .smux)
  else ({ s with sessions := ans.sock :: s.sessions }, .ok {})

/-- A connection for messages. -/
def acceptPeer (env : Env C) (ans : Answers) (n : Ptr) (s : Host M C) :
    Option (Host M C × Except Err (Reply M)) :=
  let selfLess := s.node.localAddr.logicAddr.val < (s.node.nodeCache.logicAddr n).val
  ((s.peers n).accept env selfLess ans.writeFails ans.sock).map fun (p, reply) =>
    ({ s with peers := Function.update s.peers n p },
      match reply.err with
      | some e => .error (.peer e)
      | none => .ok reply)

/-- `Node.onNewConnection`: the node afterwards, and the error or what was
handed to the new socket and what is unread. -/
def onNewConnection (lib : Lib) (env : Env C) (ans : Answers) (inc : Incoming)
    (s : Host M C) : Option (Host M C × Except Err (Reply M × Incoming)) :=
  match readHandshake lib inc with
  | .error e => some (s, .error e)
  | .ok (h, rest) =>
    match identify s.node.nodeCache h with
    | .error e => some (s, .error e)
    | .ok n =>
      (if h.isStream then some (acceptStream ans s) else acceptPeer env ans n s).map
        fun (s, r) => (s, r.map fun reply => (reply, rest))

/-! ## What is accepted -/

section

variable {lib : Lib} {inc rest : Incoming} {h : Handshake}

/-- A handshake is read from the frame of an encrypted text that is not too
long, and from nothing else. -/
theorem readHandshake_eq_ok (hlib : lib.Lawful) :
    readHandshake lib inc = .ok (h, rest) ↔
      ∃ nonce plain payload, payload = nonce ++ lib.gcm.sealText lib.secretKey nonce plain ∧
        nonce.length = Crypto.nonceSize ∧ payload.length ≤ maxHandshakePayload ∧
        lib.json.unmarshal plain = some h ∧ inc.bytes = frame payload ++ rest.bytes ∧
        rest.fin = inc.fin := by
  constructor
  · intro hread
    unfold readHandshake at hread
    split at hread
    · cases hread
    · rename_i head inc' hhead
      split_ifs at hread with hbig
      split at hread
      · cases hread
      · rename_i buff rest' hbuff
        split at hread
        · cases hread
        · rename_i plain hplain
          split at hread
          · cases hread
          · rename_i hjson
            cases hread
            obtain ⟨nonce, hnonce, hsealed⟩ :=
              (Crypto.aesDecrypt_eq_ok hlib.gcm hlib.key).mp hplain
            obtain ⟨hbytes, hfour, hfin⟩ := readFull_eq_ok.mp hhead
            obtain ⟨hbytes', hlen, hfin'⟩ := readFull_eq_ok.mp hbuff
            refine ⟨nonce, plain, buff, hsealed, hnonce, by omega, hjson, ?_,
              hfin'.trans hfin⟩
            rw [hbytes, hbytes', frame, hlen, ← hfour, encode_decode, List.append_assoc]
  · intro hframe
    obtain ⟨nonce, plain, payload, hsealed, hnonce, hsize, hjson, hbytes, hfin⟩ := hframe
    have hlt : payload.length < 256 ^ 4 := by
      unfold maxHandshakePayload at hsize
      omega
    have hhead : inc.readFull 4 =
        .ok (encode 4 payload.length, ⟨payload ++ rest.bytes, inc.fin⟩) := by
      rw [readFull_eq_ok, hbytes, frame, List.append_assoc]
      exact ⟨rfl, encode_length .., rfl⟩
    have hbuff : Incoming.readFull ⟨payload ++ rest.bytes, inc.fin⟩ payload.length =
        .ok (payload, rest) :=
      readFull_eq_ok.mpr ⟨rfl, rfl, hfin⟩
    have hplain := (Crypto.aesDecrypt_eq_ok hlib.gcm hlib.key).mpr ⟨nonce, hnonce, hsealed⟩
    simp only [readHandshake, hhead, decode_encode_of_lt hlt, if_neg (Nat.not_lt.mpr hsize),
      hbuff, hplain, hjson, gt_iff_lt]

theorem identify_eq_ok {cache : NodeCache} {n : Ptr} :
    identify cache h = .ok n ↔
      cache.getNodeByLogicAddr ⟨h.logicAddr⟩ = some n ∧
        (cache.heap n).addr.netAddr = h.netAddr := by
  unfold identify
  split
  · rename_i hnone
    rw [hnone]
    constructor
    · intro h
      cases h
    · intro h
      cases h.1
  · rename_i m hm
    rw [hm, Option.some_inj]
    split_ifs with hnet
    · constructor
      · intro h
        cases h
      · intro h
        exact absurd (h.1 ▸ h.2) hnet
    · rw [Except.ok.injEq]
      constructor
      · intro heq
        exact ⟨heq, heq ▸ not_not.mp hnet⟩
      · intro h
        exact h.1

end

/-! ## The connection is made -/

/-- A node that refuses a connection is as it was, and one that accepts it
has it as its socket. -/
theorem accept_spec {env : Env C} {selfLess writeFails : Bool} {sock : Nat}
    {n p : PeerNode M C} {reply : Reply M}
    (h : n.accept env selfLess writeFails sock = some (p, reply)) :
    (reply.err ≠ none → p = n) ∧ (reply.err = none → p.socket = some sock) := by
  unfold PeerNode.accept at h
  obtain ⟨m, hlock, h⟩ := Option.bind_eq_some_iff.mp h
  have hunlock : m.unlock = n := by
    unfold PeerNode.lock at hlock
    split_ifs at hlock with hlocked
    cases hlock
    obtain ⟨locked, socket, pendingMsg, dials⟩ := n
    have hfalse : locked = false := by simpa using hlocked
    rw [hfalse]
    rfl
  split_ifs at h
  · cases h
    exact ⟨fun _ => hunlock, fun herr => nomatch herr⟩
  · cases h
    exact ⟨fun _ => hunlock, fun herr => nomatch herr⟩
  · cases h
    exact ⟨fun _ => hunlock, fun herr => nomatch herr⟩
  · cases h
    exact ⟨fun herr => absurd rfl herr, fun _ => rfl⟩

theorem acceptStream_spec {ans : Answers} {s t : Host M C} {r : Except Err (Reply M)}
    (h : acceptStream ans s = (t, r)) :
    (∀ e, r = .error e → t = s) ∧
      ∀ reply, r = .ok reply → t = { s with sessions := ans.sock :: s.sessions } := by
  unfold acceptStream at h
  split_ifs at h
  all_goals cases h
  case neg => exact ⟨fun _ herr => (nomatch herr), fun _ _ => rfl⟩
  all_goals exact ⟨fun _ _ => rfl, fun _ hok => nomatch hok⟩

theorem acceptPeer_spec {env : Env C} {ans : Answers} {n : Ptr} {s t : Host M C}
    {r : Except Err (Reply M)} (h : acceptPeer env ans n s = some (t, r)) :
    (∀ e, r = .error e → t = s) ∧
      ∀ reply, r = .ok reply → ∃ p : PeerNode M C, p.socket = some ans.sock ∧
        t = { s with peers := Function.update s.peers n p } := by
  obtain ⟨⟨p, reply⟩, haccept, heq⟩ := Option.map_eq_some_iff.mp h
  obtain ⟨hrefused, haccepted⟩ := accept_spec haccept
  obtain ⟨rfl, rfl⟩ := Prod.mk.inj heq
  cases herr : reply.err with
  | some e =>
    refine ⟨fun _ _ => ?_, fun _ hok => nomatch hok⟩
    have hp := hrefused (by simp [herr])
    rw [hp, Function.update_eq_self]
  | none =>
    exact ⟨fun _ herror => (nomatch herror), fun _ _ => ⟨p, haccepted herr, rfl⟩⟩

/-! ## Two nodes

A library without secrets, node 1, and node 2, which knows it.
-/

/-- Sixteen zeros are the tag. -/
def plainGcm : Crypto.Gcm where
  sealText _ _ plain := plain ++ List.replicate 16 0
  openText _ _ sealed :=
    if 16 ≤ sealed.length ∧ sealed.drop (sealed.length - 16) = List.replicate 16 0 then
      some (sealed.take (sealed.length - 16))
    else none

theorem lawful_plainGcm : plainGcm.Lawful where
  length key nonce plain := by
    show (plain ++ List.replicate 16 0).length = _
    rw [List.length_append, List.length_replicate, Crypto.tagSize]
  open_iff key nonce sealed plain _ := by
    show (if _ then _ else none) = some plain ↔ sealed = plain ++ List.replicate 16 0
    constructor
    · intro h
      split_ifs at h with htag
      rw [← Option.some.inj h, ← htag.2, List.take_append_drop]
    · intro h
      have hlen : sealed.length - 16 = plain.length := by
        rw [h, List.length_append, List.length_replicate, Nat.add_sub_cancel]
      rw [hlen, h, List.drop_left, List.take_left, List.length_append, List.length_replicate]
      rw [if_pos ⟨Nat.le_add_left .., rfl⟩]

/-- Four bytes for each character. -/
def spell (cs : List Char) : Bytes := cs.flatMap fun c => encode 4 c.toNat

def unspell : Nat → Bytes → List Char
  | 0, _ => []
  | n + 1, b => Char.ofNat (decode (b.take 4)) :: unspell n (b.drop 4)

theorem unspell_spell (cs : List Char) : unspell cs.length (spell cs) = cs := by
  induction cs with
  | nil => rfl
  | cons c cs ih =>
    have hlt : c.toNat < 256 ^ 4 := by
      have := c.val.toNat_lt
      show c.val.toNat < _
      omega
    show Char.ofNat (decode ((encode 4 c.toNat ++ spell cs).take 4)) ::
      unspell cs.length ((encode 4 c.toNat ++ spell cs).drop 4) = _
    rw [decode_take_append hlt, encode_append_drop, ih, Char.ofNat_toNat]

theorem length_spell (cs : List Char) : (spell cs).length = 4 * cs.length := by
  induction cs with
  | nil => rfl
  | cons c cs ih =>
    show (encode 4 c.toNat ++ spell cs).length = _
    rw [List.length_append, encode_length, ih, List.length_cons]
    omega

def plainJson : Json where
  marshal h :=
    (if h.isStream then 1 else 0) :: (encode 4 h.logicAddr.toNat ++ spell h.netAddr.toList)
  unmarshal
    | [] => none
    | flag :: b => some
      { logicAddr := UInt32.ofNat (decode (b.take 4))
        netAddr := String.ofList (unspell ((b.length - 4) / 4) (b.drop 4))
        isStream := flag = 1 }

theorem lawful_plainJson : plainJson.Lawful := by
  intro h
  obtain ⟨logicAddr, netAddr, isStream⟩ := h
  have hlt : logicAddr.toNat < 256 ^ 4 := logicAddr.toNat_lt
  have hcount : (encode 4 logicAddr.toNat ++ spell netAddr.toList).length - 4 =
      4 * netAddr.toList.length := by
    rw [List.length_append, encode_length, length_spell]
    omega
  simp only [plainJson, decode_take_append hlt, encode_append_drop, hcount]
  rw [Nat.mul_div_cancel_left _ (by decide), unspell_spell, String.ofList_toList,
    UInt32.ofNat_toNat]
  cases isStream <;> rfl

def plainLib : Lib where
  json := plainJson
  gcm := plainGcm
  secretKey := Crypto.loadKey [] [1, 2, 3]

theorem lawful_plainLib : plainLib.Lawful :=
  ⟨lawful_plainGcm, Crypto.newCipher_loadKey [] [1, 2, 3]⟩

def nodeOne : Addr := ⟨⟨1⟩, "a"⟩

/-- Node 2, which knows node 1. -/
def hostTwo : Host Unit Unit where
  node :=
    { localAddr := ⟨⟨2⟩, "b"⟩
      nodeCache := (newNodeCache ⟨2⟩).insertNode ⟨nodeOne, true, true⟩
      started := rfl }
  peers _ := {}

def nonceOne : Bytes := List.replicate 12 0

/-- What node 1 writes. -/
def helloOne : Bytes :=
  frame (nonceOne ++ plainGcm.sealText plainLib.secretKey nonceOne
    (plainJson.marshal (introduce nodeOne false)))

/-! ## The two sides -/

/-- Whatever arrives, a connection that is not accepted leaves the node as it
was.  One that is accepted began with the frame of a text that was encrypted
under the secret key and that names a member with its addresses.  Nothing
but the state of that member changes, and what follows the frame is left to
its socket. -/
theorem accepted_connection_is_from_member {lib : Lib} (hlib : lib.Lawful) {env : Env C}
    {ans : Answers} {inc : Incoming} {s t : Host M C}
    {r : Except Err (Reply M × Incoming)}
    (hconn : onNewConnection lib env ans inc s = some (t, r)) :
    (∀ e, r = .error e → t = s) ∧
      ∀ reply rest, r = .ok (reply, rest) →
        ∃ nonce plain payload h n, payload = nonce ++ lib.gcm.sealText lib.secretKey nonce plain ∧
          lib.json.unmarshal plain = some h ∧ inc.bytes = frame payload ++ rest.bytes ∧
          s.node.nodeCache.getNodeByLogicAddr ⟨h.logicAddr⟩ = some n ∧
          (s.node.nodeCache.heap n).addr.netAddr = h.netAddr ∧
          t.node = s.node ∧ (∀ m, m ≠ n → t.peers m = s.peers m) ∧
          (if h.isStream then t.peers n = s.peers n ∧ t.sessions = ans.sock :: s.sessions
            else (t.peers n).socket = some ans.sock ∧ t.sessions = s.sessions) := by
  unfold onNewConnection at hconn
  split at hconn
  · cases hconn
    exact ⟨fun _ _ => rfl, fun _ _ hok => nomatch hok⟩
  rename_i h rest hread
  split at hconn
  · cases hconn
    exact ⟨fun _ _ => rfl, fun _ _ hok => nomatch hok⟩
  rename_i n hidentify
  obtain ⟨⟨u, r'⟩, haccept, heq⟩ := Option.map_eq_some_iff.mp hconn
  obtain ⟨rfl, rfl⟩ := Prod.mk.inj heq
  obtain ⟨nonce, plain, payload, hsealed, _, _, hjson, hbytes, _⟩ :=
    (readHandshake_eq_ok hlib).mp hread
  obtain ⟨hcache, hnet⟩ := identify_eq_ok.mp hidentify
  have hspec : (∀ e, r' = .error e → u = s) ∧ ∀ reply, r' = .ok reply →
      u.node = s.node ∧ (∀ m, m ≠ n → u.peers m = s.peers m) ∧
        (if h.isStream then u.peers n = s.peers n ∧ u.sessions = ans.sock :: s.sessions
          else (u.peers n).socket = some ans.sock ∧ u.sessions = s.sessions) := by
    split_ifs at haccept ⊢
    · obtain ⟨hrefused, haccepted⟩ := acceptStream_spec (Option.some.inj haccept)
      refine ⟨hrefused, fun reply hok => ?_⟩
      rw [haccepted reply hok]
      exact ⟨rfl, fun _ _ => rfl, rfl, rfl⟩
    · obtain ⟨hrefused, haccepted⟩ := acceptPeer_spec haccept
      refine ⟨hrefused, fun reply hok => ?_⟩
      obtain ⟨p, hsocket, rfl⟩ := haccepted reply hok
      refine ⟨rfl, fun m hm => Function.update_of_ne hm .., ?_, rfl⟩
      show (Function.update s.peers n p n).socket = _
      rw [Function.update_self, hsocket]
  constructor
  · intro e herr
    cases r' with
    | error e => exact hspec.1 e rfl
    | ok reply => cases herr
  · intro reply rest' hok
    cases r' with
    | error e => cases hok
    | ok reply' =>
      cases hok
      exact ⟨nonce, plain, payload, h, n, hsealed, hjson, hbytes, hcache, hnet,
        hspec.2 reply rfl⟩

/-- Node 2 accepts the connection of node 1 and leaves the byte behind the
hello to the socket. -/
theorem accepted_connection_is_from_member_one :
    ∃ t reply rest, ∃ h : Handshake, ∃ n,
      onNewConnection plainLib ⟨5, fun _ => false⟩ ⟨7, false, false⟩
        ⟨helloOne ++ [9], .closed⟩ hostTwo = some (t, .ok (reply, rest)) ∧ rest.bytes = [9] ∧
      hostTwo.node.nodeCache.getNodeByLogicAddr ⟨h.logicAddr⟩ = some n ∧
      (hostTwo.node.nodeCache.heap n).addr.netAddr = h.netAddr := by
  have hrun : (onNewConnection plainLib ⟨5, fun _ => false⟩ ⟨7, false, false⟩
      ⟨helloOne ++ [9], .closed⟩ hostTwo).bind (fun x => x.2.toOption.map (·.2.bytes)) =
        some [9] := by
    decide +kernel
  obtain ⟨⟨t, r⟩, ht, hr⟩ := Option.bind_eq_some_iff.mp hrun
  cases r with
  | error e => cases hr
  | ok x =>
    obtain ⟨reply, rest⟩ := x
    have hrest : rest.bytes = [9] := Option.some.inj hr
    obtain ⟨_, _, _, h, n, _, _, _, hcache, hnet, _⟩ :=
      (accepted_connection_is_from_member lawful_plainLib ht).2 reply rest rfl
    exact ⟨t, reply, rest, h, n, ht, hrest, hcache, hnet⟩

/-- A member that a node knows is recognised.  Whatever follows on either
side, the handshake writes a hello with which the node comes to the accepting
part for that member, and either side leaves to its socket what the other one
sends afterwards. -/
theorem member_is_recognised {lib : Lib} (hlib : lib.Lawful) (hjson : lib.json.Lawful)
    (nonce : Bytes) (self : Addr) (isStream : Bool) (s : Host M C) (n : Ptr)
    (hnonce : nonce.length = Crypto.nonceSize)
    (hsize : (lib.json.marshal (introduce self isStream)).length + Crypto.nonceSize +
      Crypto.tagSize ≤ maxHandshakePayload)
    (hcache : s.node.nodeCache.getNodeByLogicAddr self.logicAddr = some n)
    (hnet : (s.node.nodeCache.heap n).addr.netAddr = self.netAddr) :
    ∃ b, (∀ (resp : Bytes) (down : Incoming), resp.length = 4 →
        handshake lib (some nonce) self isStream false ⟨resp ++ down.bytes, down.fin⟩ =
          .ok (b, down)) ∧
      ∀ (env : Env C) (ans : Answers) (up : Incoming),
        onNewConnection lib env ans ⟨b ++ up.bytes, up.fin⟩ s =
          (if isStream then some (acceptStream ans s) else acceptPeer env ans n s).map
            fun (t, r) => (t, r.map fun reply => (reply, up)) := by
  obtain ⟨payload, hpayload⟩ : ∃ payload, payload = nonce ++ lib.gcm.sealText lib.secretKey nonce
      (lib.json.marshal (introduce self isStream)) := ⟨_, rfl⟩
  have hhello : hello lib (some nonce) self isStream = .ok (frame payload) := by
    rw [hello, Crypto.aesEncrypt, hlib.key, hpayload]
    rfl
  have hlength : payload.length ≤ maxHandshakePayload := by
    rw [hpayload, List.length_append, hlib.gcm.length, hnonce]
    omega
  refine ⟨frame payload, fun resp down hresp => ?_, fun env ans up => ?_⟩
  · have hread : Incoming.readFull ⟨resp ++ down.bytes, down.fin⟩ 4 = .ok (resp, down) :=
      readFull_eq_ok.mpr ⟨rfl, hresp, rfl⟩
    simp only [handshake, hhello, Fallible.ok_bind, hread]
    rfl
  · have hread : readHandshake lib ⟨frame payload ++ up.bytes, up.fin⟩ =
        .ok (introduce self isStream, up) :=
      (readHandshake_eq_ok hlib).mpr
        ⟨nonce, _, payload, hpayload, hnonce, hlength, hjson _, rfl, rfl⟩
    have hidentify : identify s.node.nodeCache (introduce self isStream) = .ok n :=
      identify_eq_ok.mpr ⟨hcache, hnet⟩
    rw [onNewConnection, hread]
    dsimp only
    rw [hidentify]
    rfl

/-- The two sides of that connection. -/
theorem member_is_recognised_one :
    ∃ b, handshake plainLib (some nonceOne) nodeOne false false ⟨[0, 0, 0, 0, 5], .closed⟩ =
        .ok (b, ⟨[5], .closed⟩) ∧
      onNewConnection plainLib ⟨5, fun _ => false⟩ ⟨7, false, false⟩ ⟨b ++ [9], .closed⟩ hostTwo =
        (acceptPeer ⟨5, fun _ => false⟩ ⟨7, false, false⟩ 0 hostTwo).map
          fun (t, r) => (t, r.map fun reply => (reply, ⟨[9], .closed⟩)) := by
  obtain ⟨b, hdial, haccept⟩ := member_is_recognised lawful_plainLib lawful_plainJson nonceOne
    nodeOne false hostTwo 0 rfl (by decide +kernel) rfl rfl
  exact ⟨b, hdial [0, 0, 0, 0] ⟨[5], .closed⟩ rfl, haccept _ _ ⟨[9], .closed⟩⟩

end Handshake

end ClusterGo
