import ClusterGo.Membership.Subscriber

/-!
# The redis backend

`membership/redis/script.go` and the two fetches of
`membership/redis/subscribe.go`.  Members and heartbeats are kept in two
hashes, each with a version number of its own that every change of the hash
increments.  A field of a hash is one text: a version, a flag and a rest,
separated by the character 1.

A subscriber remembers the version it has seen last.  `ScriptGetMembers` and
`ScriptGetAlives` answer with the records that are newer, those marked as
deleted or dead included.  For version 0 they answer with all records that
are not marked.

A script runs atomically, so each is a function on the store.  `HGETALL`
returns the fields in any order.  The scripts that call it get its answer as
an argument, and `Enumerates` says what is known of it.  Numbers of Lua are
taken to be exact.  They are printed with 14 digits, so this holds of versions
and deadlines below 10^14.
-/

namespace ClusterGo.Redis

/-! ## Packed records -/

/-- `string.char(1)`. -/
def sep : Char := Char.ofNat 1

def falseText : Text := "false".toList

def trueText : Text := "true".toList

/-- `ver .. S .. flag .. S .. rest`. -/
def packed (ver : Nat) (flag rest : Text) : Text :=
  Nat.toDigits 10 ver ++ sep :: (flag ++ sep :: rest)

/-- The text up to the first separator, and what comes behind it. -/
def cut : Text → Option (Text × Text)
  | [] => none
  | c :: text => if c = sep then some ([], text) else (cut text).map fun (a, b) => (c :: a, b)

/-- The match of `^(.-)S(.-)S(.*)$`. -/
def matchRecord (text : Text) : Option (Text × Text × Text) :=
  match cut text with
  | none => none
  | some (ver, text) =>
    match cut text with
    | none => none
    | some (flag, rest) => some (ver, flag, rest)

/-- The match of `^(.-)S(.-)S(.+)$`. -/
def matchDeadline (text : Text) : Option (Text × Text × Text) :=
  (matchRecord text).filter fun r => !r.2.2.isEmpty

theorem cut_append {a : Text} (ha : sep ∉ a) (b : Text) : cut (a ++ sep :: b) = some (a, b) := by
  induction a with
  | nil => rfl
  | cons c a ih =>
    rw [List.mem_cons, not_or] at ha
    rw [List.cons_append, cut, if_neg (Ne.symm ha.1), ih ha.2, Option.map_some]

theorem sep_notMem_toDigits (n : Nat) : sep ∉ Nat.toDigits 10 n := by
  intro h
  exact absurd (Decimal.isDigit_of_mem_toDigits h) (by decide)

theorem sep_notMem_print (i : Int) : sep ∉ Decimal.print i := by
  intro h
  rcases Decimal.isNumeral_of_mem_print h with hdigit | hminus
  · exact absurd hdigit (by decide)
  · exact absurd hminus (by decide)

/-- A flag that the scripts write. -/
def IsFlag (flag : Text) : Prop := flag = falseText ∨ flag = trueText

theorem IsFlag.sep_notMem {flag : Text} (h : IsFlag flag) : sep ∉ flag := by
  rcases h with rfl | rfl <;> decide

theorem matchRecord_packed (ver : Nat) {flag : Text} (hflag : IsFlag flag) (rest : Text) :
    matchRecord (packed ver flag rest) = some (Nat.toDigits 10 ver, flag, rest) := by
  rw [matchRecord, packed, cut_append (sep_notMem_toDigits ver)]
  dsimp only
  rw [cut_append hflag.sep_notMem]

/-! ## The store -/

structure Store where
  memberVersion : Option Nat := none
  members : String → Option Text := fun _ => none
  aliveVersion : Option Nat := none
  alive : String → Option Text := fun _ => none

/-- The version after the next change. -/
def nextVersion : Option Nat → Nat
  | none => 1
  | some serverVer => serverVer + 1

theorem one_le_nextVersion (version : Option Nat) : 1 ≤ nextVersion version := by
  cases version with
  | none => exact Nat.le_refl 1
  | some v => exact Nat.le_add_left 1 v

/-- A client is never ahead of the store, so it is behind the next change. -/
theorem lt_nextVersion {version : Option Nat} {clientVer : Int}
    (h : clientVer ≤ version.getD 0) : clientVer < nextVersion version := by
  cases version with
  | none =>
    show clientVer < 1
    simp only [Option.getD_none] at h
    omega
  | some v =>
    show clientVer < ((v + 1 : Nat) : Int)
    simp only [Option.getD_some] at h
    omega

namespace Store

/-- `ScriptUpdateMember` with the action `insert_update`. -/
def insertUpdate (store : Store) (addr : String) (data : Text) : Store :=
  let serverVer := nextVersion store.memberVersion
  { store with
    memberVersion := some serverVer
    members := Function.update store.members addr (some (packed serverVer falseText data)) }

/-- `ScriptUpdateMember` with the action `delete`.  The version is
incremented whether there is a record or not. -/
def delete (store : Store) (addr : String) : Store :=
  let serverVer := nextVersion store.memberVersion
  let store := { store with memberVersion := some serverVer }
  match store.members addr with
  | none => store
  | some existing =>
    let info := ((matchRecord existing).map (·.2.2)).getD []
    { store with
      members := Function.update store.members addr (some (packed serverVer trueText info)) }

/-- The flag of a heartbeat entry as `ScriptHeartbeat` reads it. -/
def prevDead (nodeData : Option Text) : Text :=
  ((nodeData.bind matchRecord).map (·.2.1)).getD falseText

/-- `ScriptHeartbeat`.  In a concatenation a call yields its first result
only, so the last branch writes the version and the deadline, and no
flag. -/
def heartbeat (store : Store) (addr : String) (now timeout : Int) : Store :=
  let nodeData := store.alive addr
  let deadline := Decimal.print (now + timeout)
  if prevDead nodeData = falseText then
    let serverVer := nextVersion store.aliveVersion
    { store with
      aliveVersion := some serverVer
      alive := Function.update store.alive addr (some (packed serverVer falseText deadline)) }
  else
    let first := ((nodeData.bind matchRecord).map (·.1)).getD []
    { store with
      alive := Function.update store.alive addr (some (first ++ sep :: deadline)) }

/-- A heartbeat entry that `ScriptCheckTimeout` marks, and its deadline. -/
def timedOut (now : Int) (text : Text) : Option Text :=
  match matchDeadline text with
  | none => none
  | some (_, dead, dl) =>
    if dead = falseText ∧ (Decimal.integer dl).any (fun t => now > t) then some dl else none

/-- The loop of `ScriptCheckTimeout`. -/
def expire (serverVer : Nat) (now : Int) (alive : String → Option Text) :
    List (String × Text) → (String → Option Text)
  | [] => alive
  | (addr, text) :: all =>
    match timedOut now text with
    | none => expire serverVer now alive all
    | some dl =>
      expire serverVer now
        (Function.update alive addr (some (packed serverVer trueText dl))) all

/-- `ScriptCheckTimeout`.  All entries of one run get the same version. -/
def checkTimeout (store : Store) (now : Int) (all : List (String × Text)) : Store :=
  let serverVer := nextVersion store.aliveVersion
  let change := all.any fun f => (timedOut now f.2).isSome
  { store with
    aliveVersion := if change then some serverVer else store.aliveVersion
    alive := expire serverVer now store.alive all }

end Store

/-! ## The answers -/

/-- What `ScriptGetMembers` and `ScriptGetAlives` answer: a version, and the
records unless the client has that version. -/
structure Reply (ρ : Type) where
  version : Int
  nodes : Option (List ρ)

/-- The text of a version is newer than the client. -/
def newer (ver : Text) (clientVer : Int) : Bool :=
  (Decimal.natural ver).any fun v => (v : Int) > clientVer

theorem newer_toDigits (ver : Nat) (clientVer : Int) :
    newer (Nat.toDigits 10 ver) clientVer = decide (clientVer < ver) := by
  rw [newer, Decimal.natural_toDigits]
  rfl

/-- The record is sent to the client.  Version 0 gets what is not marked,
and other versions get what is newer. -/
def sent (clientVer : Int) (ver flag : Text) : Bool :=
  if clientVer = 0 then flag = falseText else newer ver clientVer

/-- The common text of the two scripts.  `select` is what is sent of a
record. -/
def answer {ρ : Type} (select : String → Text → Text → ρ) (version : Option Nat)
    (clientVer : Int) (all : List (String × Text)) : Reply ρ :=
  match version with
  | none => { version := clientVer, nodes := none }
  | some serverVer =>
    if clientVer = serverVer then { version := serverVer, nodes := none }
    else
      { version := serverVer
        nodes := some (all.filterMap fun f =>
          match matchRecord f.2 with
          | none => none
          | some (ver, flag, rest) =>
            if sent clientVer ver flag then some (select f.1 flag rest) else none) }

/-- A record of `ScriptGetMembers`. -/
structure MemberRow where
  addr : String
  info : Text
  markdel : Text
deriving DecidableEq, Repr

/-- A record of `ScriptGetAlives`. -/
structure AliveRow where
  addr : String
  dead : Text
deriving DecidableEq, Repr

namespace Store

/-- `ScriptGetMembers`. -/
def getMembers (store : Store) (clientVer : Int) (all : List (String × Text)) :
    Reply MemberRow :=
  answer (fun addr markdel info => { addr, info, markdel }) store.memberVersion clientVer all

/-- `ScriptGetAlives`. -/
def getAlives (store : Store) (clientVer : Int) (all : List (String × Text)) :
    Reply AliveRow :=
  answer (fun addr dead _ => { addr, dead }) store.aliveVersion clientVer all

end Store

/-! ## The subscriber -/

/-- `redis.Membership` after `Subscribe`. -/
structure Client where
  sub : Subscriber := {}
  memberVersion : Int := 0
  aliveVersion : Int := 0

/-- How `getMembers` reads a record.  A record that cannot be parsed is
skipped. -/
def MemberRow.toEntry {N : Type} (lib : RecordLib N) (row : MemberRow) : Option Entry :=
  match Member.parse lib row.info with
  | none => none
  | some n => if row.markdel = trueText then some (.markdel n) else some (.put n)

/-- How `getAlives` reads a record. -/
def AliveRow.toEntry (row : AliveRow) : Option Entry :=
  if row.dead = trueText then some (.dead row.addr) else some (.up row.addr)

namespace Client

/-- `getMembers` with the answer of the script: the client and what it
reports.  Without a second element the access to it panics. -/
def getMembers {N : Type} (lib : RecordLib N) (cli : Client) (reply : Reply MemberRow) :
    Option (Client × List Change) :=
  if reply.version = cli.memberVersion then some (cli, [])
  else
    match reply.nodes with
    | none => none
    | some nodes =>
      let (sub, changes) := cli.sub.handleAll (MemberRow.toEntry lib) nodes
      some ({ cli with sub, memberVersion := reply.version }, changes)

/-- `getAlives` with the answer of the script. -/
def getAlives (cli : Client) (reply : Reply AliveRow) : Option (Client × List Change) :=
  if reply.version = cli.aliveVersion then some (cli, [])
  else
    match reply.nodes with
    | none => none
    | some nodes =>
      let (sub, changes) := cli.sub.handleAll AliveRow.toEntry nodes
      some ({ cli with sub, aliveVersion := reply.version }, changes)

end Client

end ClusterGo.Redis
