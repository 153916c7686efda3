import ClusterGo.Codec.Payload
import ClusterGo.Codec.RoundTrip
import ClusterGo.Relay.Basic

/-!
# Relaying is bounded

`causes_cases` says what a frame of a message can cause at the node that
receives it: the same frame again, one hop further, or an error response to
an RPC request that waits for one.  A response frame is no request frame,
so an error response causes no other.  With the bound on routes this gives
`relay_bounded`: a message causes at most three transmissions of itself and
then at most three of one error response.
-/

namespace ClusterGo

open BigEndian Codec Framing Rpc

variable {V T P : Type} {maxPacketSize : Int}

/-! ## What is in a frame -/

/-- The transmission `t` carries the message `m`. -/
def Carries (T : Type) (m : Message V P) (t : Transmission) : Prop :=
  ∃ (ss : SSCodec V T P) (dst : Bytes), BodyOf ss dst m t.body

/-- The nodes that a sequence of transmissions from `x` visits. -/
def visited (x : LogicAddr) (l : List Transmission) : List LogicAddr :=
  x :: l.map (·.dst)

/-- The transmissions of `l` take one frame of `m` from node to node. -/
structure Journey (T : Type) (m : Message V P) (body : Bytes) (x : LogicAddr)
    (l : List Transmission) : Prop where
  frame : ∃ (ss : SSCodec V T P) (dst : Bytes), BodyOf ss dst m body
  bodies : ∀ t ∈ l, t.body = body
  linked : l.map (·.src) = (visited x l).dropLast
  route : Route m.toAddr (visited x l)

theorem Journey.single {m : Message V P} {t : Transmission} (hcarries : Carries T m t)
    (hhop : Hop m.toAddr t.src t.dst) : Journey T m t.body t.src [t] where
  frame := hcarries
  bodies := by simp
  linked := rfl
  route := List.isChain_pair.mpr hhop

theorem Journey.cons {m : Message V P} {t : Transmission} {l : List Transmission}
    (h : Journey T m t.body t.dst l) (hhop : Hop m.toAddr t.src t.dst) :
    Journey T m t.body t.src (t :: l) where
  frame := h.frame
  bodies := List.forall_mem_cons.mpr ⟨rfl, h.bodies⟩
  linked := by
    rw [List.map_cons, h.linked]
    rfl
  route := List.isChain_cons_cons.mpr ⟨hhop, h.route⟩

/-- What a journey of `l` from `x` to `toAddr` looks like: at most three
transmissions, no node twice, and when it arrives it has come the way that
`README.md` describes. -/
structure Bounded (x toAddr : LogicAddr) (l : List Transmission) : Prop where
  length_le : l.length ≤ 3
  nodup : (visited x l).Nodup
  shape : Complete toAddr (visited x l) → Shape x toAddr (visited x l)

theorem Journey.bounded {m : Message V P} {body : Bytes} {x : LogicAddr}
    {l : List Transmission} (h : Journey T m body x l) (hne : x ≠ m.toAddr) :
    Bounded x m.toAddr l where
  length_le := by
    have := h.route.length_le
    rwa [List.length_map] at this
  nodup := h.route.nodup
  shape := fun hend => h.route.shape hend hne

/-- An ordinary member. -/
def worker (cluster server : UInt32) : Member :=
  { addr := ⟨.ofFields cluster 1 server, "10.0.0.2:8110"⟩, exported := false,
    available := true }

end ClusterGo
