import ClusterGo.Addr.Parse
import ClusterGo.Membership

/-!
# Member records

`Node.Marshal` and `Node.Unmarshal` of `membership/membership.go`.  A record
is a JSON object with the two addresses as text and the two flags.  All
backends store records, and their readers skip a record that `Unmarshal`
refuses.

JSON and the resolver are not part of the repository.  `RecordLib` collects
what the two functions call of them, and `RecordLib.Lawful` is their
documented behaviour: JSON returns the value that was written, and
`ResolveTCPAddr` returns the address whose text it is given.

`parse_marshal` says what becomes of every record: it is read back, or it is
refused because of its logic address.
-/

namespace ClusterGo

/-- A stored value. -/
abbrev Text := List Char

/-- `nodeJson`. -/
structure NodeJson where
  logicAddr : String
  netAddr : String
  exported : Bool
  available : Bool
deriving DecidableEq, Repr

/-- What the two functions use of `encoding/json` and of `net`.  `N` is
`*net.TCPAddr`. -/
structure RecordLib (N : Type) where
  /-- `json.Marshal`. -/
  encode : NodeJson → Except String Text
  /-- `json.Unmarshal`. -/
  decode : Text → Except String NodeJson
  /-- `TCPAddr.String`. -/
  string : N → String
  /-- `net.ResolveTCPAddr("tcp", ..)`. -/
  resolveTCPAddr : String → Except String N

/-- JSON round-trips a record, and the resolver inverts `TCPAddr.String`. -/
structure RecordLib.Lawful {N : Type} (lib : RecordLib N) : Prop where
  json : ∀ j, ∃ data, lib.encode j = .ok data ∧ lib.decode data = .ok j
  resolve : ∀ a, lib.resolveTCPAddr (lib.string a) = .ok a

/-- The net address of a member is the text of a TCP address. -/
def RecordLib.Prints {N : Type} (lib : RecordLib N) (n : Member) : Prop :=
  ∃ a, n.addr.netAddr = lib.string a

variable {N : Type} (lib : RecordLib N)

/-- `addr.MakeAddr`. -/
def makeAddr (logic tcpAddr : String) : Except String Addr := do
  let logicAddr ← (makeLogicAddr logic).mapError AddrErr.text
  let netAddr ← lib.resolveTCPAddr tcpAddr
  return ⟨logicAddr, lib.string netAddr⟩

namespace Member

/-- The zero value of `membership.Node`.  A nil net address prints as
`<nil>`. -/
def zero : Member := { addr := ⟨⟨0⟩, "<nil>"⟩, exported := false, available := false }

def toJson (n : Member) : NodeJson where
  exported := n.exported
  available := n.available
  logicAddr := n.addr.logicAddr.string
  netAddr := n.addr.netAddr

/-- `Node.Marshal`. -/
def marshal (n : Member) : Except String Text := lib.encode n.toJson

/-- `Node.Unmarshal`: the node as the call leaves it, and its error.  The
flags are stored before the addresses are looked at. -/
def unmarshal (n : Member) (data : Text) : Member × Option String :=
  match lib.decode data with
  | .error err => (n, some err)
  | .ok j =>
    let n := { n with available := j.available, exported := j.exported }
    match makeAddr lib j.logicAddr j.netAddr with
    | .error err => ({ n with addr := zero.addr }, some err)
    | .ok addr => ({ n with addr }, none)

/-- What a reader makes of a stored record: `var n Node; n.Unmarshal(data)`,
with the error as `none`. -/
def parse (data : Text) : Option Member :=
  match zero.unmarshal lib data with
  | (n, none) => some n
  | (_, some _) => none

end Member

/-- `MakeLogicAddr` takes the text of the address. -/
def LogicAddr.Readable (a : LogicAddr) : Prop :=
  a.cluster ≠ 0 ∧ a.type ≠ 0 ∧ a.type ≠ harbarType

instance (a : LogicAddr) : Decidable a.Readable := inferInstanceAs (Decidable (_ ∧ _))

theorem makeLogicAddr_of_readable {a : LogicAddr} (h : a.Readable) :
    makeLogicAddr a.string = .ok a := by
  rw [makeLogicAddr_string, if_neg h.1, if_neg (not_or.mpr h.2)]

theorem makeLogicAddr_of_not_readable {a : LogicAddr} (h : ¬ a.Readable) :
    ∃ err, makeLogicAddr a.string = .error err := by
  rw [makeLogicAddr_string]
  by_cases hcluster : a.cluster = 0
  · exact ⟨_, if_pos hcluster⟩
  · have htype : a.type = 0 ∨ a.type = harbarType := by
      by_contra hboth
      exact h ⟨hcluster, not_or.mp hboth⟩
    rw [if_neg hcluster, if_pos htype]
    exact ⟨_, rfl⟩

theorem Produced.readable_iff {a : LogicAddr} (h : Produced a) :
    a.Readable ↔ a.type ≠ harbarType :=
  ⟨fun hread => hread.2.2, fun htype => ⟨h.fields_ne_zero.1, h.fields_ne_zero.2, htype⟩⟩

variable {lib}

section Read

variable {n : Member} {data : Text}

theorem unmarshal_of_readable (hlib : lib.Lawful) (hn : lib.Prints n)
    (hread : n.addr.logicAddr.Readable) (hdata : lib.decode data = .ok n.toJson) (m : Member) :
    m.unmarshal lib data = (n, none) := by
  obtain ⟨a, ha⟩ := hn
  have haddr : makeAddr lib n.toJson.logicAddr n.toJson.netAddr = .ok n.addr := by
    show makeAddr lib n.addr.logicAddr.string n.addr.netAddr = _
    rw [makeAddr, makeLogicAddr_of_readable hread, ha, hlib.resolve]
    show Except.ok (Addr.mk n.addr.logicAddr (lib.string a)) = _
    rw [← ha]
  simp only [Member.unmarshal, hdata, haddr]
  rfl

theorem unmarshal_of_not_readable (hread : ¬ n.addr.logicAddr.Readable)
    (hdata : lib.decode data = .ok n.toJson) (m : Member) :
    ∃ err, (m.unmarshal lib data).2 = some err := by
  obtain ⟨err, herr⟩ := makeLogicAddr_of_not_readable hread
  have haddr : makeAddr lib n.toJson.logicAddr n.toJson.netAddr = .error err.text := by
    show makeAddr lib n.addr.logicAddr.string n.addr.netAddr = _
    rw [makeAddr, herr]
    rfl
  refine ⟨err.text, ?_⟩
  simp only [Member.unmarshal, hdata, haddr]

/-- A stored record is read back, unless its logic address is not
readable. -/
theorem parse_of_decode (hlib : lib.Lawful) (hn : lib.Prints n)
    (hdata : lib.decode data = .ok n.toJson) :
    Member.parse lib data = if n.addr.logicAddr.Readable then some n else none := by
  unfold Member.parse
  split_ifs with hread
  · rw [unmarshal_of_readable hlib hn hread hdata]
  · obtain ⟨err, herr⟩ := unmarshal_of_not_readable hread hdata Member.zero
    obtain ⟨m, hm⟩ : ∃ m, Member.zero.unmarshal lib data = (m, some err) := ⟨_, Prod.ext rfl herr⟩
    rw [hm]

theorem parse_marshal (hlib : lib.Lawful) (hn : lib.Prints n)
    (hdata : n.marshal lib = .ok data) :
    Member.parse lib data = if n.addr.logicAddr.Readable then some n else none := by
  obtain ⟨data', hencode, hdecode⟩ := hlib.json n.toJson
  rw [Member.marshal, hencode, Except.ok.injEq] at hdata
  exact parse_of_decode hlib hn (hdata ▸ hdecode)

theorem marshal_ok (hlib : lib.Lawful) (n : Member) : ∃ data, n.marshal lib = .ok data := by
  obtain ⟨data, hencode, _⟩ := hlib.json n.toJson
  exact ⟨data, hencode⟩

end Read

/-! ## A plain format

Concrete runs need a library that can be evaluated.  This one writes the
flags, the length of the logic address in unary and the two texts, and takes
a net address to be its text. -/

def plainFlag (b : Bool) : Char := if b then '1' else '0'

def plainEncode (j : NodeJson) : Text :=
  plainFlag j.exported :: plainFlag j.available ::
    (List.replicate j.logicAddr.toList.length '#' ++
      '|' :: (j.logicAddr.toList ++ j.netAddr.toList))

def plainDecode : Text → Except String NodeJson
  | e :: a :: text =>
    let n := (text.takeWhile (· = '#')).length
    let rest := text.drop (n + 1)
    .ok { exported := e = '1', available := a = '1', logicAddr := String.ofList (rest.take n),
          netAddr := String.ofList (rest.drop n) }
  | _ => .error "unexpected end of input"

def plainLib : RecordLib String where
  encode := fun j => .ok (plainEncode j)
  decode := plainDecode
  string := id
  resolveTCPAddr := .ok

theorem plainDecode_plainEncode (j : NodeJson) : plainDecode (plainEncode j) = .ok j := by
  obtain ⟨logicAddr, netAddr, exported, available⟩ := j
  have hcount : (List.replicate logicAddr.toList.length '#' ++
      '|' :: (logicAddr.toList ++ netAddr.toList)).takeWhile (· = '#') =
        List.replicate logicAddr.toList.length '#' := by
    rw [List.takeWhile_append_of_pos (by simp)]
    simp
  have hdrop : (List.replicate logicAddr.toList.length '#' ++
      '|' :: (logicAddr.toList ++ netAddr.toList)).drop (logicAddr.toList.length + 1) =
        logicAddr.toList ++ netAddr.toList := by
    rw [← List.drop_drop, List.drop_left' (by simp), List.drop_one, List.tail_cons]
  simp only [plainEncode, plainDecode, hcount, List.length_replicate, hdrop, List.take_left,
    List.drop_left, String.ofList_toList]
  cases exported <;> cases available <;> rfl

theorem plainLib_lawful : plainLib.Lawful where
  json := fun j => ⟨_, rfl, plainDecode_plainEncode j⟩
  resolve := fun _ => rfl

/-- A node for the concrete runs. -/
def guest : Member :=
  { addr := { logicAddr := LogicAddr.ofFields 1 2 3, netAddr := "10.0.0.1:8110" }
    exported := false
    available := true }

/-- What `Marshal` makes of it. -/
def guestInfo : Text := plainEncode guest.toJson

theorem plainLib_prints (n : Member) : plainLib.Prints n := ⟨n.addr.netAddr, rfl⟩

end ClusterGo
