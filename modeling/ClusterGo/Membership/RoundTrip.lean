import ClusterGo.Membership.Etcd.Basic
import ClusterGo.Membership.Natsjet
import ClusterGo.Membership.Redis.Script

/-!
# Which records are read back

`Node.Unmarshal` reads the logic address with `MakeAddr`, also when the node
is a harbor.  `MakeAddr` refuses the type of harbors, so the record of a
harbor is written by every backend and read by none.
-/

namespace ClusterGo

variable {N : Type} {lib : RecordLib N} {n : Member} {data : Text}

/-- A subscriber of any backend that gets the record of the member has the
member afterwards. -/
structure Seen (lib : RecordLib N) (n : Member) (data : Text) : Prop where
  redis : ∀ (cli : Redis.Client) (version : Int), version ≠ cli.memberVersion →
    ∃ cli' changes,
      cli.getMembers lib
        { version, nodes := some [⟨n.addr.logicAddr.string, data, Redis.falseText⟩] } =
          some (cli', changes) ∧
      cli'.sub.members.get n.addr.logicAddr.string = some n
  etcd : ∀ sub : Subscriber, (Etcd.handleConfigEvents lib sub
    [.put n.addr.logicAddr.string data]).1.members.get n.addr.logicAddr.string = some n
  natsjet : ∀ sub : Subscriber, (Natsjet.handleConfigEntry lib sub
    (some ⟨n.addr.logicAddr.string, data, .put⟩)).1.members.get n.addr.logicAddr.string = some n

/-- One entry of a loop. -/
theorem handleAll_put {ε : Type} {toEntry : ε → Option Entry} {e : ε}
    (he : toEntry e = some (.put n)) (sub : Subscriber) :
    (sub.handleAll toEntry [e]).1.members.get n.addr.logicAddr.string = some n := by
  have hbody : (sub.handleAll toEntry [e]).1 = sub.insertMember n := by
    simp only [Subscriber.handleAll, LocalLoop.loop_cons, LocalLoop.loop_nil,
      Subscriber.handleElem, he]
    rfl
  rw [hbody]
  exact sub.members.get_insert_self n

theorem seen_of_parse (hparse : Member.parse lib data = some n) : Seen lib n data where
  redis := by
    intro cli version hversion
    refine ⟨_, _, if_neg hversion, ?_⟩
    refine handleAll_put ?_ cli.sub
    simp only [Redis.MemberRow.toEntry, hparse]
    exact if_neg (by decide)
  etcd := by
    intro sub
    refine handleAll_put ?_ sub
    rw [Etcd.Event.configEntry, hparse, Option.map_some]
  natsjet := by
    intro sub
    refine handleAll_put ?_ sub
    simp only [Natsjet.configEntry, hparse, Option.map_some]

/-- Marshalling and unmarshalling gives a node with a produced address back,
and the subscribers of all backends see what `UpdateMember` stores, if and
only if the node is not a harbor. -/
theorem record_round_trip_iff (hlib : lib.Lawful) (hn : lib.Prints n)
    (ha : Produced n.addr.logicAddr) :
    (∃ data, n.marshal lib = .ok data ∧
      (∀ receiver : Member, receiver.unmarshal lib data = (n, none)) ∧ Seen lib n data) ↔
      n.addr.logicAddr.type ≠ harbarType := by
  rw [← ha.readable_iff]
  obtain ⟨data, hencode, hdecode⟩ := hlib.json n.toJson
  constructor
  · intro h
    obtain ⟨data', hdata', hread, _⟩ := h
    obtain rfl := Except.ok.inj (hencode.symm.trans hdata')
    by_contra hnot
    obtain ⟨err, herr⟩ := unmarshal_of_not_readable hnot hdecode Member.zero
    rw [hread] at herr
    cases herr
  · intro hreadable
    refine ⟨data, hencode, unmarshal_of_readable hlib hn hreadable hdecode, seen_of_parse ?_⟩
    rw [parse_of_decode hlib hn hdecode, if_pos hreadable]

theorem record_round_trip_guest :
    ∃ data, guest.marshal plainLib = .ok data ∧
      (∀ receiver : Member, receiver.unmarshal plainLib data = (guest, none)) ∧
      Seen plainLib guest data := by
  refine (record_round_trip_iff plainLib_lawful (plainLib_prints guest) ?_).mpr (by decide)
  exact ⟨"1.2.3", 1, 2, 3, rfl, by decide, by decide, Or.inl ⟨by decide, rfl⟩⟩

/-- A harbor. -/
def harborNode : Member :=
  { addr := { logicAddr := LogicAddr.ofFields 1 255 1, netAddr := "10.0.0.9:8110" }
    exported := true
    available := true }

/-- `MakeHarborLogicAddr` produces the address of the harbor, and its record
cannot be read. -/
theorem harborNode_unread :
    makeHarborLogicAddr "1.255.1" = .ok harborNode.addr.logicAddr ∧
      ∃ data, harborNode.marshal plainLib = .ok data ∧
        (Member.zero.unmarshal plainLib data).2 = some "type should between(1,254)" ∧
        (Etcd.handleConfigEvents plainLib {} [.put "1.255.1" data]).1.members.get "1.255.1" =
          none :=
  ⟨rfl, _, rfl, by decide +kernel, by decide +kernel⟩

end ClusterGo
