import ClusterGo.Membership.Subscriber

/-!
# The natsjet backend

`membership/natsjet/subscribe.go`: snapshots of the two buckets and the
entries of the two watchers.  A snapshot lists the keys first and gets the
values one by one, so a key may be gone when it is asked for.
-/

namespace ClusterGo.Natsjet

variable {N : Type}

/-- The result of `Keys`. -/
inductive Listing where
  | found (keys : List String)
  /-- `nats.ErrNoKeysFound`: the bucket is empty. -/
  | noKeysFound
  /-- `nats.ErrKeyNotFound` or `nats.ErrBucketNotFound`, which
  `GetNatsError` turns into no error. -/
  | benign
  | failed
deriving DecidableEq, Repr

/-- The keys that a snapshot works with, unless it returns at once. -/
def Listing.toKeys : Listing → Option (List String)
  | .found keys => some keys
  | .noKeysFound => some []
  | .benign | .failed => none

/-- The snapshot returns an error. -/
def Listing.isError : Listing → Bool
  | .found _ | .noKeysFound | .benign => false
  | .failed => true

/-- A removed member is reported as unavailable. -/
def gone (_alive : Bool) (n : Member) : Member := { n with available := false }

/-- `getMembers`.  `get` is the answer of `Get` for each key, where `none` is
an error.  `none` is a return without a change. -/
def getMembers (lib : RecordLib N) (s : Subscriber) (listing : Listing)
    (get : String → Option Text) (oldKeys newKeys : List String) :
    Option (Subscriber × List Change) :=
  listing.toKeys.map fun keys =>
    s.takeMembers gone (Members.read lib (keys.filterMap get)) oldKeys newKeys

/-- `getAlives`. -/
def getAlives (s : Subscriber) (listing : Listing) (oldKeys newKeys : List String) :
    Option (Subscriber × List Change) :=
  listing.toKeys.map fun keys => s.takeAlives (fun k => k ∈ keys) oldKeys newKeys

inductive Operation where
  | put
  | delete
  | purge
deriving DecidableEq, Repr

/-- `nats.KeyValueEntry`. -/
structure KeyValueEntry where
  key : String
  value : Text
  operation : Operation
deriving DecidableEq, Repr

/-- How `handleConfigEntry` reads an entry.  `none` marks the end of the
initial values. -/
def configEntry (lib : RecordLib N) : Option KeyValueEntry → Option Entry
  | none => none
  | some entry =>
    match entry.operation with
    | .put => (Member.parse lib entry.value).map Entry.put
    | .delete | .purge => some (.delete entry.key)

/-- How `handleAliveEntry` reads an entry. -/
def aliveEntry : Option KeyValueEntry → Option Entry
  | none => none
  | some entry =>
    match entry.operation with
    | .put => some (.up entry.key)
    | .delete | .purge => some (.down entry.key)

def handleConfigEntry (lib : RecordLib N) (s : Subscriber) (entry : Option KeyValueEntry) :
    Subscriber × List Change :=
  s.handleAll (configEntry lib) [entry]

def handleAliveEntry (s : Subscriber) (entry : Option KeyValueEntry) : Subscriber × List Change :=
  s.handleAll aliveEntry [entry]

end ClusterGo.Natsjet
