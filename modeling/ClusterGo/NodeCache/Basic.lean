import ClusterGo.Lib.Grouping
import ClusterGo.Lib.Transition
import ClusterGo.Membership

/-!
# The node cache

`nodeCache` of `node.go` is the view that a node has of the membership.
`allnodes` finds a member by its logic address, `nodes` lists the available
ordinary members by type, and `harbors` lists the available harbors by
cluster.

The three maps share the `*node` values, and `onNodeInfoUpdate` changes
their fields in place.  A `*node` is therefore a `Ptr` into `heap`, and two
nodes are the same if and only if their pointers are.  `next` is the
pointer that the next `&node{..}` gets.

The rest of a `node`, its mutex, socket and queue, is modelled in
`ClusterGo.Peer`.  Here `closed` records on which nodes `closeSocket` was
called, and `stopped` that `self.Stop` was started.
-/

namespace ClusterGo

/-- `*node`. -/
abbrev Ptr := Nat

/-- The fields of `node` that the cache uses. -/
structure NodeRec where
  addr : Addr
  available : Bool
deriving DecidableEq, Repr

structure NodeCache where
  localAddr : LogicAddr
  heap : Ptr → NodeRec := fun _ => { addr := ⟨⟨0⟩, ""⟩, available := false }
  next : Ptr := 0
  allnodes : LogicAddr → Option Ptr := fun _ => none
  nodes : UInt32 → Option (List Ptr) := fun _ => none
  harbors : UInt32 → Option (List Ptr) := fun _ => none
  closed : List Ptr := []
  stopped : Bool := false

namespace NodeCache

/-- The logic address of a node. -/
def logicAddr (cache : NodeCache) (n : Ptr) : LogicAddr := (cache.heap n).addr.logicAddr

/-! ## The index lists -/

def addNode (n : Ptr) (cache : NodeCache) : NodeCache :=
  { cache with nodes := Grouping.add (cache.logicAddr n).type n cache.nodes }

def removeNode (n : Ptr) (cache : NodeCache) : NodeCache :=
  { cache with nodes := Grouping.remove (cache.logicAddr n).type n cache.nodes }

def addHarbor (harbor : Ptr) (cache : NodeCache) : NodeCache :=
  { cache with
    harbors := Grouping.add (cache.logicAddr harbor).cluster harbor cache.harbors }

def removeHarbor (harbor : Ptr) (cache : NodeCache) : NodeCache :=
  { cache with
    harbors := Grouping.remove (cache.logicAddr harbor).cluster harbor cache.harbors }

/-- File a node under the list of its kind. -/
def file (n : Ptr) (cache : NodeCache) : NodeCache :=
  if (cache.logicAddr n).type ≠ harbarType then cache.addNode n else cache.addHarbor n

/-- Take a node out of the list of its kind. -/
def unfile (n : Ptr) (cache : NodeCache) : NodeCache :=
  if (cache.logicAddr n).type ≠ harbarType then cache.removeNode n else cache.removeHarbor n

/-! ## Changes of a node -/

def setRec (n : Ptr) (r : NodeRec) (cache : NodeCache) : NodeCache :=
  { cache with heap := Function.update cache.heap n r }

def closeSocket (n : Ptr) (cache : NodeCache) : NodeCache :=
  { cache with closed := cache.closed ++ [n] }

def updateNetAddr (n : Ptr) (netAddr : String) (cache : NodeCache) : NodeCache :=
  let r := cache.heap n
  cache.setRec n { r with addr := { r.addr with netAddr } }

def setAvailable (n : Ptr) (available : Bool) (cache : NodeCache) : NodeCache :=
  cache.setRec n { cache.heap n with available }

/-! ## The three loops of `onNodeInfoUpdate` -/

/-- How a loop leaves the function before its end: by the `return` after
`go self.Stop()`, or by a use of the nil `*node` of a missing entry. -/
inductive Exit where
  | stop (cache : NodeCache)
  | nilDereference

/-- Allocate the node of a new member and enter it into `allnodes`. -/
def insertNode (v : Member) (cache : NodeCache) : NodeCache :=
  { cache.setRec cache.next { addr := v.addr, available := v.available } with
    next := cache.next + 1
    allnodes := Function.update cache.allnodes v.addr.logicAddr (some cache.next) }

/-- The body of the `Add` loop. -/
def addMember (cache : NodeCache) (v : Member) : NodeCache :=
  if visible cache.localAddr v then
    let n := cache.next
    let cache := cache.insertNode v
    if v.available then cache.file n else cache
  else cache

/-- `delete(cache.allnodes, n.addr.LogicAddr())`. -/
def deleteNode (n : Ptr) (cache : NodeCache) : NodeCache :=
  { cache with allnodes := Function.update cache.allnodes (cache.logicAddr n) none }

/-- The body of the `Remove` loop. -/
def removeMember (cache : NodeCache) (v : Member) : Except Exit NodeCache :=
  if visible cache.localAddr v then
    if v.addr.logicAddr = cache.localAddr then .error (.stop { cache with stopped := true })
    else
      match cache.allnodes v.addr.logicAddr with
      | none => .error .nilDereference
      | some n =>
        let cache := cache.deleteNode n
        let cache := if (cache.heap n).available then cache.unfile n else cache
        .ok (cache.closeSocket n)
  else .ok cache

/-- The net address part of the `Update` loop. -/
def moveNode (cache : NodeCache) (n : Ptr) (netAddr : String) : Except Exit NodeCache :=
  if netAddr ≠ (cache.heap n).addr.netAddr then
    if cache.logicAddr n = cache.localAddr then .error (.stop { cache with stopped := true })
    else .ok ((cache.closeSocket n).updateNetAddr n netAddr)
  else .ok cache

/-- The availability part of the `Update` loop. -/
def switchNode (cache : NodeCache) (n : Ptr) (available : Bool) : NodeCache :=
  if available then
    if !(cache.heap n).available then (cache.setAvailable n true).file n else cache
  else
    if (cache.heap n).available then (cache.setAvailable n false).unfile n else cache

/-- The body of the `Update` loop. -/
def updateMember (cache : NodeCache) (v : Member) : Except Exit NodeCache :=
  if visible cache.localAddr v then
    match cache.allnodes v.addr.logicAddr with
    | none => .error .nilDereference
    | some n => do
      let cache ← cache.moveNode n v.addr.netAddr
      return cache.switchNode n v.available
  else .ok cache

def loops (cache : NodeCache) (info : MemberInfo) : Except Exit NodeCache := do
  let cache := info.add.foldl addMember cache
  let cache ← info.remove.foldlM removeMember cache
  info.update.foldlM updateMember cache

/-- `nodeCache.onNodeInfoUpdate`.  `none` is the nil dereference. -/
def onNodeInfoUpdate (cache : NodeCache) (info : MemberInfo) : Option NodeCache :=
  match cache.loops info with
  | .ok cache | .error (.stop cache) => some cache
  | .error .nilDereference => none

/-! ## Queries -/

/-- `nodeCache.getHarbor`. -/
def getHarbor (cache : NodeCache) (cluster : UInt32) (m : LogicAddr) : Option Ptr :=
  match cache.harbors cluster with
  | none => none
  | some harbors =>
    if harbors.length = 0 then none else harbors[m.val.toNat % harbors.length]?

/-- `nodeCache.getNodeByLogicAddr`. -/
def getNodeByLogicAddr (cache : NodeCache) (logicAddr : LogicAddr) : Option Ptr :=
  cache.allnodes logicAddr

end NodeCache

/-- The cache before the first update. -/
def newNodeCache (localAddr : LogicAddr) : NodeCache := { localAddr }

/-- `Node`, with the parts that routing reads.  `Start` takes the local
address from the entry of `nodeCache.localAddr`. -/
structure Node where
  localAddr : Addr
  nodeCache : NodeCache
  started : localAddr.logicAddr = nodeCache.localAddr

namespace Node

/-- `Node.getNodeByLogicAddr`: the node to which a message for `toAddr` is
sent. -/
def getNodeByLogicAddr (s : Node) (toAddr : LogicAddr) : Option Ptr :=
  if toAddr.cluster = s.localAddr.logicAddr.cluster then
    s.nodeCache.getNodeByLogicAddr toAddr
  else if s.localAddr.logicAddr.type = harbarType then
    s.nodeCache.getHarbor toAddr.cluster toAddr
  else
    s.nodeCache.getHarbor s.localAddr.logicAddr.cluster toAddr

end Node

end ClusterGo
