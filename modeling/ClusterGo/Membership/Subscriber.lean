import ClusterGo.Lib.LocalLoop
import ClusterGo.Membership.Record

/-!
# Subscribers

The three backends of `membership/` keep the same two maps: `members`, the
records of the configuration by the text of their logic address, and
`alive`, the addresses that send heartbeats.  A member is reported as
available when it is alive and its record says so.

An `Entry` is one change that a backend learns from its store.  `handle` is
what it does with it: it changes the cell of one address in the two maps and
reports the difference, if there is one, as an addition, a removal or an
update.  A backend that takes a whole snapshot compares it with what it has
(`takeMembers`, `takeAlives`).  A Go map is ranged over in any order, so
these two get the order as an argument.

`handles` says of every entry what it does to its cell and what it reports,
so the loop of a backend is one that works cell by cell
(`handleAll_isLocal`).
-/

namespace ClusterGo

open LocalLoop

/-! ## The two maps -/

/-- The `members` map. -/
structure Members where
  get : String → Option Member
  keyed : ∀ k n, get k = some n → n.addr.logicAddr.string = k

namespace Members

def empty : Members where
  get := fun _ => none
  keyed := fun _ _ h => by cases h

def insert (m : Members) (n : Member) : Members where
  get := Function.update m.get n.addr.logicAddr.string (some n)
  keyed := by
    intro k n' h
    by_cases hk : k = n.addr.logicAddr.string
    · rw [hk, Function.update_self] at h
      rw [hk, Option.some.inj h]
    · rw [Function.update_of_ne hk] at h
      exact m.keyed k n' h

def erase (m : Members) (k : String) : Members where
  get := Function.update m.get k none
  keyed := by
    intro k' n h
    by_cases hk : k' = k
    · rw [hk, Function.update_self] at h
      cases h
    · rw [Function.update_of_ne hk] at h
      exact m.keyed k' n h

@[simp] theorem get_insert_self (m : Members) (n : Member) :
    (m.insert n).get n.addr.logicAddr.string = some n :=
  Function.update_self ..

theorem get_insert_of_ne (m : Members) {n : Member} {k : String}
    (h : k ≠ n.addr.logicAddr.string) : (m.insert n).get k = m.get k :=
  Function.update_of_ne h ..

@[simp] theorem get_erase_self (m : Members) (k : String) : (m.erase k).get k = none :=
  Function.update_self ..

theorem get_erase_of_ne (m : Members) {k k' : String} (h : k' ≠ k) :
    (m.erase k).get k' = m.get k' :=
  Function.update_of_ne h ..

end Members

/-- What a backend keeps for its subscriber. -/
structure Subscriber where
  members : Members := .empty
  alive : String → Bool := fun _ => false

/-- The node that is reported for a record. -/
def Member.joined (alive : Bool) (n : Member) : Member :=
  { n with available := alive && n.available }

/-- What a subscriber has of one address. -/
abbrev Cell := Option Member × Bool

/-- What should have been reported of an address. -/
def Cell.shown (c : Cell) : Option Member := c.1.map (Member.joined c.2)

namespace Subscriber

def cell (s : Subscriber) (k : String) : Cell := (s.members.get k, s.alive k)

/-- The members with their joined availability. -/
def view (s : Subscriber) (a : LogicAddr) : Option Member := (s.cell a.string).shown

def insertMember (s : Subscriber) (n : Member) : Subscriber :=
  { s with members := s.members.insert n }

def eraseMember (s : Subscriber) (k : String) : Subscriber :=
  { s with members := s.members.erase k }

def setAlive (s : Subscriber) (k : String) (b : Bool) : Subscriber :=
  { s with alive := Function.update s.alive k b }

end Subscriber

/-! ## One entry -/

/-- One change in the store. -/
inductive Entry where
  /-- A record is written. -/
  | put (n : Member)
  /-- The record of an address is deleted. -/
  | delete (k : String)
  /-- A record is marked as deleted and still there to be read. -/
  | markdel (n : Member)
  /-- A heartbeat key is written. -/
  | up (k : String)
  /-- A heartbeat key is deleted. -/
  | down (k : String)
  /-- A heartbeat entry is marked as dead. -/
  | dead (k : String)

namespace Entry

def key : Entry → String
  | .put n | .markdel n => n.addr.logicAddr.string
  | .delete k | .up k | .down k | .dead k => k

end Entry

namespace Subscriber

/-- What the backends do with one entry.  The first component is the
subscriber afterwards and the second one is what is appended to the
`MemberInfo`. -/
def handle (s : Subscriber) : Entry → Subscriber × Option Change
  | .put n =>
    let logicAddr := n.addr.logicAddr.string
    let nn := n.joined (s.alive logicAddr)
    (s.insertMember n, some (if (s.members.get logicAddr).isSome then .update nn else .add nn))
  | .delete k =>
    match s.members.get k with
    | some n => (s.eraseMember k, some (.remove { n with available := false }))
    | none => (s, none)
  | .markdel n =>
    let logicAddr := n.addr.logicAddr.string
    match s.members.get logicAddr with
    | some _ => (s.eraseMember logicAddr, some (.remove (n.joined (s.alive logicAddr))))
    | none => (s, none)
  | .up k =>
    if s.alive k then (s, none)
    else (s.setAlive k true, match s.members.get k with
      | some n => if n.available then some (.update { n with available := true }) else none
      | none => none)
  | .down k =>
    if s.alive k then (s.setAlive k false, match s.members.get k with
      | some n => some (.update { n with available := false })
      | none => none)
    else (s, none)
  | .dead k =>
    (s.setAlive k false, match s.members.get k with
      | some n => some (.update { n with available := false })
      | none => none)

/-- The body of the loop of a backend over what it has received.  `toEntry`
is how it reads an element, and `none` is an element that it skips. -/
def handleElem {ε : Type} (toEntry : ε → Option Entry) (s : Subscriber) (e : ε) :
    Subscriber × Option Change :=
  match toEntry e with
  | some x => s.handle x
  | none => (s, none)

def handleAll {ε : Type} (toEntry : ε → Option Entry) (s : Subscriber) (l : List ε) :
    Subscriber × List Change :=
  loop (handleElem toEntry) s l

end Subscriber

/-! ## Listings -/

/-- `all` lists what a store has, each key once. -/
structure Enumerates (hash : String → Option Text) (all : List (String × Text)) : Prop where
  nodup : (all.map Prod.fst).Nodup
  mem_iff : ∀ k text, (k, text) ∈ all ↔ hash k = some text

/-- Keys that are computed from the fields of a listing, each from its own
field, are distinct. -/
theorem Enumerates.filterMap_nodup {hash : String → Option Text} {all : List (String × Text)}
    (henum : Enumerates hash all) {toKey : String × Text → Option String}
    (hkey : ∀ f ∈ all, ∀ k, toKey f = some k → k = f.1) : (all.filterMap toKey).Nodup := by
  refine List.Sublist.nodup ?_ henum.nodup
  clear henum
  induction all with
  | nil => exact List.Sublist.refl _
  | cons f all ih =>
    rw [List.forall_mem_cons] at hkey
    rw [List.map_cons]
    cases hf : toKey f with
    | none =>
      rw [List.filterMap_cons_none hf]
      exact (ih hkey.2).cons f.1
    | some k =>
      rw [List.filterMap_cons_some hf, hkey.1 k hf]
      exact (ih hkey.2).cons_cons f.1

theorem Enumerates.mem_keys {hash : String → Option Text} {all : List (String × Text)}
    (henum : Enumerates hash all) (k : String) :
    k ∈ all.map Prod.fst ↔ (hash k).isSome = true := by
  rw [List.mem_map, Option.isSome_iff_exists]
  constructor
  · intro hk
    obtain ⟨⟨k', v⟩, hmem, rfl⟩ := hk
    exact ⟨v, (henum.mem_iff k' v).mp hmem⟩
  · intro hk
    obtain ⟨v, hv⟩ := hk
    exact ⟨(k, v), (henum.mem_iff k v).mpr hv, rfl⟩

theorem enumerates_empty : Enumerates (fun _ => none) [] where
  nodup := List.nodup_nil
  mem_iff := fun _ _ => iff_of_false List.not_mem_nil (Option.some_ne_none _ ∘ Eq.symm)

/-- A hash with one field. -/
theorem enumerates_single {hash : String → Option Text} {k : String} {text : Text}
    (hk : hash k = some text) (hother : ∀ k', k' ≠ k → hash k' = none) :
    Enumerates hash [(k, text)] where
  nodup := List.nodup_singleton k
  mem_iff := by
    intro k' text'
    rw [List.mem_singleton, Prod.mk.injEq]
    by_cases hk' : k' = k
    · rw [hk', hk, Option.some_inj]
      exact ⟨fun h => h.2.symm, fun h => ⟨rfl, h.symm⟩⟩
    · rw [hother k' hk']
      exact iff_of_false (fun h => hk' h.1) (Option.some_ne_none _ ∘ Eq.symm)

theorem enumerates_update (k : String) (text : Text) :
    Enumerates (Function.update (fun _ => none) k (some text)) [(k, text)] :=
  enumerates_single (Function.update_self ..) fun _ hne => Function.update_of_ne hne ..

/-! ## Snapshots -/

/-- The loop that fills `currentMembers`.  A record that cannot be parsed is
skipped. -/
def Members.read {N : Type} (lib : RecordLib N) (records : List Text) : Members :=
  (records.filterMap (Member.parse lib)).foldl Members.insert .empty

namespace Members

theorem foldl_insert_of_notMem {ns : List Member} {k : String}
    (hk : k ∉ ns.map fun n => n.addr.logicAddr.string) (m : Members) :
    (ns.foldl insert m).get k = m.get k := by
  induction ns generalizing m with
  | nil => rfl
  | cons n ns ih =>
    rw [List.map_cons, List.mem_cons, not_or] at hk
    rw [List.foldl_cons, ih hk.2, get_insert_of_ne m hk.1]

theorem foldl_insert_of_mem {ns : List Member} {n : Member} (hn : n ∈ ns)
    (hnodup : (ns.map fun n => n.addr.logicAddr.string).Nodup) (m : Members) :
    (ns.foldl insert m).get n.addr.logicAddr.string = some n := by
  induction ns generalizing m with
  | nil => cases hn
  | cons n' ns ih =>
    rw [List.map_cons, List.nodup_cons] at hnodup
    rcases List.mem_cons.mp hn with rfl | hn
    · rw [List.foldl_cons, foldl_insert_of_notMem hnodup.1, get_insert_self]
    · exact ih hn hnodup.2 _

/-- The members of a listing whose records are those of their keys. -/
theorem get_read {N : Type} {lib : RecordLib N} {hash : String → Option Text}
    {all : List (String × Text)} (henum : Enumerates hash all)
    (hkeyed : ∀ k v n, hash k = some v → Member.parse lib v = some n →
      n.addr.logicAddr.string = k) (k : String) :
    (read lib (all.map Prod.snd)).get k = (hash k).bind (Member.parse lib) := by
  rw [read, List.filterMap_map]
  have hown : ∀ f ∈ all, ∀ n, Member.parse lib f.2 = some n → n.addr.logicAddr.string = f.1 :=
    fun f hf n hn => hkeyed f.1 f.2 n ((henum.mem_iff f.1 f.2).mp hf) hn
  cases hn : (hash k).bind (Member.parse lib) with
  | some n =>
    obtain ⟨v, hv, hparse⟩ := Option.bind_eq_some_iff.mp hn
    have hmem := (henum.mem_iff k v).mpr hv
    rw [← hkeyed k v n hv hparse]
    refine foldl_insert_of_mem (List.mem_filterMap.mpr ⟨_, hmem, hparse⟩) ?_ _
    rw [List.map_filterMap]
    refine henum.filterMap_nodup ?_
    intro f hf k' hk'
    obtain ⟨n', hn', rfl⟩ := Option.map_eq_some_iff.mp hk'
    exact hown f hf n' hn'
  | none =>
    refine foldl_insert_of_notMem ?_ _
    intro hk
    obtain ⟨n, hmem, rfl⟩ := List.mem_map.mp hk
    obtain ⟨f, hf, hparse⟩ := List.mem_filterMap.mp hmem
    have hfield := (henum.mem_iff f.1 f.2).mp hf
    rw [← hown f hf n hparse] at hfield
    rw [hfield, Option.bind_some, show Member.parse lib f.2 = some n from hparse] at hn
    cases hn

end Members

namespace Subscriber

/-- The body of the loop over the old `members` in `getMembers`. -/
def removal (gone : Bool → Member → Member) (s : Subscriber) (current : Members) (k : String) :
    Option Change :=
  match s.members.get k, current.get k with
  | some n, none => some (.remove (gone (s.alive k) n))
  | _, _ => none

/-- The body of the loop over `currentMembers` in `getMembers`. -/
def presence (s : Subscriber) (current : Members) (k : String) : Option Change :=
  match current.get k, s.members.get k with
  | some n, some _ => some (.update (n.joined (s.alive k)))
  | some n, none => some (.add (n.joined (s.alive k)))
  | none, _ => none

/-- `getMembers` of a backend that reads the whole store: `current` is what
it has read, `oldKeys` and `newKeys` are the orders of the two loops, and
`gone` is how a removed member is reported. -/
def takeMembers (gone : Bool → Member → Member) (s : Subscriber) (current : Members)
    (oldKeys newKeys : List String) : Subscriber × List Change :=
  ({ s with members := current },
    oldKeys.filterMap (s.removal gone current) ++ newKeys.filterMap (s.presence current))

/-- The body of the loop over `currentAlive` in `getAlives`. -/
def rising (s : Subscriber) (k : String) : Option Change :=
  match s.alive k, s.members.get k with
  | false, some n => if n.available then some (.update { n with available := true }) else none
  | _, _ => none

/-- The body of the loop over the old `alive` in `getAlives`. -/
def falling (s : Subscriber) (current : String → Bool) (k : String) : Option Change :=
  match current k, s.members.get k with
  | false, some n => some (.update { n with available := false })
  | _, _ => none

/-- `getAlives` of such a backend. -/
def takeAlives (s : Subscriber) (current : String → Bool) (oldKeys newKeys : List String) :
    Subscriber × List Change :=
  ({ s with alive := current },
    newKeys.filterMap s.rising ++ oldKeys.filterMap (s.falling current))

end Subscriber

/-- The keys of a map, in the order in which a loop ranges over it. -/
structure Ranges (present : String → Prop) (keys : List String) : Prop where
  nodup : keys.Nodup
  mem_iff : ∀ k, k ∈ keys ↔ present k

/-! ## Entries, cell by cell -/

namespace Entry

/-- What an entry makes of the cell of its address. -/
def cell : Entry → Cell → Cell
  | .put n, c => (some n, c.2)
  | .delete _, c | .markdel _, c => (none, c.2)
  | .up _, c => (c.1, true)
  | .down _, c | .dead _, c => (c.1, false)

/-- What an entry reports. -/
def out : Entry → Cell → Option Change
  | .put n, c => some (if c.1.isSome then .update (n.joined c.2) else .add (n.joined c.2))
  | .delete _, c => c.1.map fun n => .remove { n with available := false }
  | .markdel n, c => c.1.map fun _ => .remove (n.joined c.2)
  | .up _, (m, alive) =>
    if alive then none
    else (m.filter (·.available)).map fun n => .update { n with available := true }
  | .down _, (m, alive) =>
    if alive then m.map fun n => .update { n with available := false } else none
  | .dead _, c => c.1.map fun n => .update { n with available := false }

/-- Every report is about the address of its entry. -/
theorem key_of_out (x : Entry) {c : Cell}
    (hkeyed : ∀ n, c.1 = some n → n.addr.logicAddr.string = x.key) {y : Change}
    (hy : x.out c = some y) : y.key.string = x.key := by
  obtain ⟨m, alive⟩ := c
  cases x with
  | put n =>
    obtain rfl := Option.some.inj hy
    split <;> rfl
  | markdel n =>
    obtain ⟨_, _, rfl⟩ := Option.map_eq_some_iff.mp hy
    rfl
  | delete k =>
    obtain ⟨n, hn, rfl⟩ := Option.map_eq_some_iff.mp hy
    exact hkeyed n hn
  | dead k =>
    obtain ⟨n, hn, rfl⟩ := Option.map_eq_some_iff.mp hy
    exact hkeyed n hn
  | up k =>
    obtain ⟨_, hy⟩ := Option.ite_none_left_eq_some.mp hy
    obtain ⟨n, hn, rfl⟩ := Option.map_eq_some_iff.mp hy
    exact hkeyed n (Option.filter_eq_some_iff.mp hn).1
  | down k =>
    obtain ⟨_, hy⟩ := Option.ite_none_right_eq_some.mp hy
    obtain ⟨n, hn, rfl⟩ := Option.map_eq_some_iff.mp hy
    exact hkeyed n hn

end Entry

namespace Subscriber

variable {s : Subscriber} {k : String}

theorem cell_keyed (s : Subscriber) {n : Member} (h : (s.cell k).1 = some n) :
    n.addr.logicAddr.string = k :=
  s.members.keyed k n h

theorem cell_insertMember_self (n : Member) :
    (s.insertMember n).cell n.addr.logicAddr.string =
      (some n, s.alive n.addr.logicAddr.string) :=
  Prod.ext (s.members.get_insert_self n) rfl

theorem cell_insertMember_of_ne {n : Member} (h : k ≠ n.addr.logicAddr.string) :
    (s.insertMember n).cell k = s.cell k :=
  Prod.ext (s.members.get_insert_of_ne h) rfl

theorem cell_eraseMember_self : (s.eraseMember k).cell k = (none, s.alive k) :=
  Prod.ext (s.members.get_erase_self k) rfl

theorem cell_eraseMember_of_ne {k' : String} (h : k' ≠ k) :
    (s.eraseMember k).cell k' = s.cell k' :=
  Prod.ext (s.members.get_erase_of_ne h) rfl

theorem cell_setAlive_self {b : Bool} : (s.setAlive k b).cell k = (s.members.get k, b) :=
  Prod.ext rfl (Function.update_self ..)

theorem cell_setAlive_of_ne {b : Bool} {k' : String} (h : k' ≠ k) :
    (s.setAlive k b).cell k' = s.cell k' :=
  Prod.ext rfl (Function.update_of_ne h ..)

/-- `r` is what the entry `x` does on the cell of its address. -/
structure Handles (s : Subscriber) (x : Entry) (r : Subscriber × Option Change) : Prop where
  output : r.2 = x.out (s.cell x.key)
  self : r.1.cell x.key = x.cell (s.cell x.key)
  other : ∀ k, k ≠ x.key → r.1.cell k = s.cell k

/-- An entry that finds the cell as it would leave it. -/
theorem handles_nothing {x : Entry} (hout : x.out (s.cell x.key) = none)
    (hcell : x.cell (s.cell x.key) = s.cell x.key) : Handles s x (s, none) where
  output := hout.symm
  self := hcell.symm
  other := fun _ _ => rfl

/-- An entry that erases a member. -/
theorem handles_erase {x : Entry} {y : Change} (hout : x.out (s.cell x.key) = some y)
    (hcell : x.cell (s.cell x.key) = (none, s.alive x.key)) :
    Handles s x (s.eraseMember x.key, some y) where
  output := hout.symm
  self := cell_eraseMember_self.trans hcell.symm
  other := fun _ hk => cell_eraseMember_of_ne hk

/-- An entry that sets the alive flag. -/
theorem handles_setAlive {x : Entry} {b : Bool} {y : Option Change}
    (hout : x.out (s.cell x.key) = y)
    (hcell : x.cell (s.cell x.key) = (s.members.get x.key, b)) :
    Handles s x (s.setAlive x.key b, y) where
  output := hout.symm
  self := cell_setAlive_self.trans hcell.symm
  other := fun _ hk => cell_setAlive_of_ne hk

theorem handles (s : Subscriber) (x : Entry) : Handles s x (s.handle x) := by
  cases x with
  | put n =>
    exact ⟨rfl, cell_insertMember_self n, fun k hk => cell_insertMember_of_ne hk⟩
  | delete k =>
    cases hm : s.members.get k with
    | none =>
      have hcell : s.cell k = (none, s.alive k) := Prod.ext hm rfl
      rw [handle, hm]
      exact handles_nothing (congrArg (Entry.out (.delete k)) hcell) hcell.symm
    | some n =>
      have hcell : s.cell k = (some n, s.alive k) := Prod.ext hm rfl
      rw [handle, hm]
      exact handles_erase (congrArg (Entry.out (.delete k)) hcell) rfl
  | markdel n =>
    cases hm : s.members.get n.addr.logicAddr.string with
    | none =>
      have hcell : s.cell n.addr.logicAddr.string = (none, s.alive n.addr.logicAddr.string) :=
        Prod.ext hm rfl
      simp only [handle, hm]
      exact handles_nothing (congrArg (Entry.out (.markdel n)) hcell) hcell.symm
    | some m =>
      have hcell : s.cell n.addr.logicAddr.string = (some m, s.alive n.addr.logicAddr.string) :=
        Prod.ext hm rfl
      simp only [handle, hm]
      exact handles_erase (congrArg (Entry.out (.markdel n)) hcell) rfl
  | up k =>
    rw [handle]
    cases halive : s.alive k with
    | true =>
      have hcell : s.cell k = (s.members.get k, true) := Prod.ext rfl halive
      exact handles_nothing (congrArg (Entry.out (.up k)) hcell) hcell.symm
    | false =>
      have hcell : s.cell k = (s.members.get k, false) := Prod.ext rfl halive
      refine handles_setAlive ((congrArg (Entry.out (.up k)) hcell).trans ?_) rfl
      cases s.members.get k with
      | none => rfl
      | some n =>
        cases havail : n.available <;> simp [Entry.out, Option.filter, havail]
  | down k =>
    rw [handle]
    cases halive : s.alive k with
    | true =>
      have hcell : s.cell k = (s.members.get k, true) := Prod.ext rfl halive
      refine handles_setAlive ((congrArg (Entry.out (.down k)) hcell).trans ?_) rfl
      cases s.members.get k <;> rfl
    | false =>
      have hcell : s.cell k = (s.members.get k, false) := Prod.ext rfl halive
      exact handles_nothing (congrArg (Entry.out (.down k)) hcell) hcell.symm
  | dead k =>
    rw [handle]
    refine handles_setAlive ?_ rfl
    show (s.members.get k).map _ = _
    cases s.members.get k <;> rfl

/-! ## Loops -/

variable {ε : Type} {toEntry : ε → Option Entry} {l : List ε}

/-- The loop of a backend works cell by cell. -/
theorem handleAll_isLocal (toEntry : ε → Option Entry) :
    IsLocal (handleElem toEntry) cell (fun e => (toEntry e).map Entry.key)
      (fun e c => (toEntry e).elim c fun x => x.cell c)
      (fun e c => (toEntry e).bind fun x => x.out c) where
  skip := by
    intro s e he
    rw [Option.map_eq_none_iff] at he
    rw [handleElem, he]
  self := by
    intro s e k he
    obtain ⟨x, hx, rfl⟩ := Option.map_eq_some_iff.mp he
    rw [handleElem, hx]
    exact (handles s x).self
  other := by
    intro s e k he
    rw [handleElem]
    cases hx : toEntry e with
    | none => rfl
    | some x =>
      refine (handles s x).other k ?_
      intro hk
      exact he (by rw [hx, hk, Option.map_some])
  output := by
    intro s e k he
    obtain ⟨x, hx, rfl⟩ := Option.map_eq_some_iff.mp he
    rw [handleElem, hx]
    exact (handles s x).output

/-- A report of the loop is about the address of its element. -/
theorem key_of_bind_out (toEntry : ε → Option Entry) (s : Subscriber) (e : ε) (k : String)
    (y : Change) (he : (toEntry e).map Entry.key = some k)
    (hy : ((toEntry e).bind fun x => x.out (s.cell k)) = some y) : y.key.string = k := by
  obtain ⟨x, hx, rfl⟩ := Option.map_eq_some_iff.mp he
  rw [hx] at hy
  exact x.key_of_out (fun n hn => s.cell_keyed hn) hy

/-- A part of the cells that no element changes stays as it is. -/
theorem handleAll_frame {β : Type} (part : Cell → β)
    (h : ∀ e x, toEntry e = some x → ∀ c, part (x.cell c) = part c) (s : Subscriber)
    (l : List ε) (k : String) :
    part ((s.handleAll toEntry l).1.cell k) = part (s.cell k) := by
  have hfold : ∀ (l : List ε) (c : Cell),
      part (l.foldl (fun c e => (toEntry e).elim c fun x => x.cell c) c) = part c := by
    intro l
    induction l with
    | nil => exact fun c => rfl
    | cons e l ih =>
      intro c
      rw [List.foldl_cons, ih]
      cases hx : toEntry e with
      | none => rfl
      | some x => exact h e x hx c
  rw [handleAll, obs_loop (handleAll_isLocal toEntry), hfold]

end Subscriber

end ClusterGo
