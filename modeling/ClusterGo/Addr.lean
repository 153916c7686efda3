import Mathlib.Data.Nat.Basic

/-!
# Logic addresses

A node of the cluster is named by a 32-bit logic address: 14 bits of
cluster, 8 bits of type and 10 bits of server number
(`addr/addr.go`).  Type 255 is reserved for harbors, the nodes that relay
between clusters.

A net address is carried as the text that `TCPAddr.String` prints.  The
code compares net addresses through that text only.
-/

namespace ClusterGo

/-- `addr.LogicAddr`. -/
structure LogicAddr where
  val : UInt32
deriving DecidableEq, Repr

/-- `addr.ClusterMask`, the high 14 bits. -/
def clusterMask : UInt32 := 0xFFFC0000

/-- `addr.TypeMask`, the middle 8 bits. -/
def typeMask : UInt32 := 0x0003FC00

/-- `addr.ServerMask`, the low 10 bits. -/
def serverMask : UInt32 := 0x000003FF

/-- `addr.HarbarType`. -/
def harbarType : UInt32 := 255

namespace LogicAddr

/-- `LogicAddr.Cluster`. -/
def cluster (a : LogicAddr) : UInt32 := (a.val &&& clusterMask) >>> 18

/-- `LogicAddr.Type`. -/
def type (a : LogicAddr) : UInt32 := (a.val &&& typeMask) >>> 10

/-- `LogicAddr.Server`. -/
def server (a : LogicAddr) : UInt32 := a.val &&& serverMask

/-- `LogicAddr.String`: the three fields in decimal, separated by dots. -/
def string (a : LogicAddr) : String :=
  toString a.cluster.toNat ++ "." ++ toString a.type.toNat ++ "." ++
    toString a.server.toNat

/-- The address with the given fields, as `MakeLogicAddr` and
`MakeHarborLogicAddr` put it together. -/
def ofFields (cluster type server : UInt32) : LogicAddr :=
  ⟨type <<< 10 ||| cluster <<< 18 ||| server⟩

end LogicAddr

/-- `addr.Addr`: a logic address and the net address it is reached at. -/
@[ext]
structure Addr where
  logicAddr : LogicAddr
  netAddr : String
deriving DecidableEq, Repr

end ClusterGo
