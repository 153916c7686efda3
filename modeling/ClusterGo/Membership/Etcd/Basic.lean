import ClusterGo.Membership.Subscriber

/-!
# The etcd backend

`membership/etcd/etcd.go`: snapshots of the keys under the two prefixes, and
batches of watch events.  A key is the text behind the prefix.
-/

namespace ClusterGo.Etcd

variable {N : Type}

/-- `clientv3.Event`. -/
inductive Event where
  | put (key : String) (value : Text)
  | delete (key : String)
deriving DecidableEq, Repr

/-- How `handleConfigEvents` reads an event.  The member of a put is the one
in the value, whatever the key. -/
def Event.configEntry (lib : RecordLib N) : Event → Option Entry
  | .put _ value => (Member.parse lib value).map Entry.put
  | .delete key => some (.delete key)

/-- How `handleAliveEvents` reads an event. -/
def Event.aliveEntry : Event → Option Entry
  | .put key _ => some (.up key)
  | .delete key => some (.down key)

def handleConfigEvents (lib : RecordLib N) (s : Subscriber) (events : List Event) :
    Subscriber × List Change :=
  s.handleAll (Event.configEntry lib) events

def handleAliveEvents (s : Subscriber) (events : List Event) : Subscriber × List Change :=
  s.handleAll Event.aliveEntry events

/-- `getMembers` with the pairs of the answer. -/
def getMembers (lib : RecordLib N) (s : Subscriber) (kvs : List (String × Text))
    (oldKeys newKeys : List String) : Subscriber × List Change :=
  s.takeMembers Member.joined (Members.read lib (kvs.map Prod.snd)) oldKeys newKeys

/-- `getAlives` with the pairs of the answer. -/
def getAlives (s : Subscriber) (kvs : List (String × Text)) (oldKeys newKeys : List String) :
    Subscriber × List Change :=
  s.takeAlives (fun k => k ∈ kvs.map Prod.fst) oldKeys newKeys

end ClusterGo.Etcd
