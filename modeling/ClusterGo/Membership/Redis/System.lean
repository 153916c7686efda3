import ClusterGo.Lib.Transition
import ClusterGo.Membership.Redis.Script

/-!
# Admins, heartbeats and one subscriber

`membership/redis/admin.go` and the fetches of a subscriber, put together.
Every execution of a script is an event, so a run is an interleaving of any
number of admins, nodes and one subscriber.  A fetch is one event too: the
script is atomic, and nothing but the subscriber reads or writes its maps.

`Event.Allowed` collects what is assumed of an event: `HGETALL` returns each
field once, and the net address of a member is the text of a TCP address.
-/

namespace ClusterGo.Redis

variable {N : Type}

/-- A script execution that changes the store. -/
inductive Write where
  | updateMember (n : Member)
  | removeMember (n : LogicAddr)
  | keepAlive (n : LogicAddr) (second now : Int)
  | checkTimeout (now : Int) (all : List (String × Text))

/-- The error of `Marshal` is dropped by `UpdateMember`. -/
def Store.write (lib : RecordLib N) (store : Store) : Write → Store
  | .updateMember n =>
    store.insertUpdate n.addr.logicAddr.string ((n.marshal lib).toOption.getD [])
  | .removeMember n => store.delete n.string
  | .keepAlive n second now => store.heartbeat n.string now second
  | .checkTimeout now all => store.checkTimeout now all

namespace Store

/-! The scripts for members and those for heartbeats write different keys. -/

theorem delete_alive (store : Store) (k : String) : (store.delete k).alive = store.alive := by
  unfold delete
  dsimp only
  split <;> rfl

theorem delete_aliveVersion (store : Store) (k : String) :
    (store.delete k).aliveVersion = store.aliveVersion := by
  unfold delete
  dsimp only
  split <;> rfl

theorem heartbeat_members (store : Store) (k : String) (now timeout : Int) :
    (store.heartbeat k now timeout).members = store.members := by
  unfold heartbeat
  dsimp only
  split_ifs <;> rfl

theorem heartbeat_memberVersion (store : Store) (k : String) (now timeout : Int) :
    (store.heartbeat k now timeout).memberVersion = store.memberVersion := by
  unfold heartbeat
  dsimp only
  split_ifs <;> rfl

end Store

inductive Event where
  | write (w : Write)
  | getMembers (all : List (String × Text))
  | getAlives (all : List (String × Text))

structure System where
  store : Store := {}
  cli : Client := {}

namespace System

/-- One `getMembers` of the subscriber. -/
def getMembers (lib : RecordLib N) (s : System) (all : List (String × Text)) :
    Option (Client × List Change) :=
  s.cli.getMembers lib (s.store.getMembers s.cli.memberVersion all)

/-- One `getAlives` of the subscriber. -/
def getAlives (s : System) (all : List (String × Text)) : Option (Client × List Change) :=
  s.cli.getAlives (s.store.getAlives s.cli.aliveVersion all)

end System

def step (lib : RecordLib N) (s : System) : Event → Option System
  | .write w => some { s with store := s.store.write lib w }
  | .getMembers all => (s.getMembers lib all).map fun r => { s with cli := r.1 }
  | .getAlives all => (s.getAlives all).map fun r => { s with cli := r.1 }

def Write.Allowed (lib : RecordLib N) (store : Store) : Write → Prop
  | .updateMember n => lib.Prints n
  | .checkTimeout _ all => Enumerates store.alive all
  | .removeMember _ | .keepAlive _ _ _ => True

def Event.Allowed (lib : RecordLib N) (s : System) : Event → Prop
  | .write w => w.Allowed lib s.store
  | .getMembers all => Enumerates s.store.members all
  | .getAlives all => Enumerates s.store.alive all

/-! ## What a fetch does -/

section Answer

variable {ρ : Type} {select : String → Text → Text → ρ} {all : List (String × Text)}

/-- A field that is sent to the client, as its loop sees it. -/
def sentEntry (select : String → Text → Text → ρ) (toEntry : ρ → Option Entry)
    (clientVer : Int) (f : String × Text) : Option Entry :=
  match matchRecord f.2 with
  | none => none
  | some (ver, flag, rest) =>
    if sent clientVer ver flag then toEntry (select f.1 flag rest) else none

theorem handleAll_filterMap {α ε : Type} (g : α → Option ε) (toEntry : ε → Option Entry)
    (sub : Subscriber) (l : List α) :
    sub.handleAll toEntry (l.filterMap g) = sub.handleAll (fun a => (g a).bind toEntry) l := by
  unfold Subscriber.handleAll
  induction l generalizing sub with
  | nil => rfl
  | cons a l ih =>
    cases hg : g a with
    | none =>
      have hbody : sub.handleElem (fun a => (g a).bind toEntry) a = (sub, none) := by
        simp only [Subscriber.handleElem, hg, Option.bind_none]
      rw [List.filterMap_cons_none hg, ih, LocalLoop.loop_cons, hbody]
      rfl
    | some e =>
      have hbody : sub.handleElem (fun a => (g a).bind toEntry) a = sub.handleElem toEntry e := by
        simp only [Subscriber.handleElem, hg, Option.bind_some]
      rw [List.filterMap_cons_some hg, LocalLoop.loop_cons, LocalLoop.loop_cons, ih, hbody]

/-- What is sent of the fields of a hash. -/
theorem bind_sent (toEntry : ρ → Option Entry) (clientVer : Int) (f : String × Text) :
    ((match matchRecord f.2 with
      | none => none
      | some (ver, flag, rest) =>
        if sent clientVer ver flag then some (select f.1 flag rest) else none).bind toEntry) =
      sentEntry select toEntry clientVer f := by
  unfold sentEntry
  cases matchRecord f.2 with
  | none => rfl
  | some r =>
    obtain ⟨ver, flag, rest⟩ := r
    dsimp only
    split_ifs <;> rfl

/-- The client has the version of the store. -/
def UpToDate (version : Option Nat) (clientVer : Int) : Prop :=
  ∀ v, version = some v → clientVer = v

theorem upToDate_or_newer (version : Option Nat) (clientVer : Int) :
    UpToDate version clientVer ∨ ∃ v : Nat, version = some v ∧ clientVer ≠ v := by
  by_cases h : UpToDate version clientVer
  · exact Or.inl h
  · unfold UpToDate at h
    push Not at h
    exact Or.inr h

theorem answer_of_upToDate {version : Option Nat} {clientVer : Int}
    (h : UpToDate version clientVer) :
    answer select version clientVer all = { version := clientVer, nodes := none } := by
  cases version with
  | none => rfl
  | some v =>
    rw [answer, if_pos (h v rfl), ← h v rfl]

/-- The loop over the answer for an older version is a loop over the fields
of the hash. -/
theorem answer_of_newer (select : String → Text → Text → ρ) (toEntry : ρ → Option Entry)
    {v : Nat} {clientVer : Int} (hne : clientVer ≠ v) (all : List (String × Text))
    (sub : Subscriber) :
    ∃ nodes, answer select (some v) clientVer all = { version := v, nodes := some nodes } ∧
      sub.handleAll toEntry nodes = sub.handleAll (sentEntry select toEntry clientVer) all := by
  refine ⟨_, if_neg hne, ?_⟩
  rw [handleAll_filterMap]
  congr 1
  funext f
  exact bind_sent toEntry clientVer f

end Answer

/-- What `getMembers` makes of a field of the member hash. -/
def memberEntry (lib : RecordLib N) : Int → String × Text → Option Entry :=
  sentEntry (fun addr markdel info => ⟨addr, info, markdel⟩) (MemberRow.toEntry lib)

/-- What `getAlives` makes of a field of the heartbeat hash. -/
def aliveEntry : Int → String × Text → Option Entry :=
  sentEntry (fun addr dead _ => ⟨addr, dead⟩) AliveRow.toEntry

theorem aliveEntry_eq_some {clientVer : Int} {f : String × Text} {x : Entry}
    (hx : aliveEntry clientVer f = some x) : x = .dead f.1 ∨ x = .up f.1 := by
  unfold aliveEntry sentEntry at hx
  split at hx
  · cases hx
  · obtain ⟨_, hx⟩ := Option.ite_none_right_eq_some.mp hx
    unfold AliveRow.toEntry at hx
    split_ifs at hx
    · exact Or.inl (Option.some.inj hx).symm
    · exact Or.inr (Option.some.inj hx).symm

theorem aliveEntry_key {clientVer : Int} {f : String × Text} {x : Entry}
    (hx : aliveEntry clientVer f = some x) : x.key = f.1 := by
  rcases aliveEntry_eq_some hx with rfl | rfl <;> rfl

/-- Heartbeats do not touch the members. -/
theorem aliveEntry_members {clientVer : Int} {f : String × Text} {x : Entry}
    (hx : aliveEntry clientVer f = some x) (c : Cell) : (x.cell c).1 = c.1 := by
  rcases aliveEntry_eq_some hx with rfl | rfl <;> rfl

theorem memberEntry_eq_some {lib : RecordLib N} {clientVer : Int} {f : String × Text}
    {x : Entry} (hx : memberEntry lib clientVer f = some x) :
    ∃ n, x = .markdel n ∨ x = .put n := by
  unfold memberEntry sentEntry at hx
  split at hx
  · cases hx
  · obtain ⟨_, hx⟩ := Option.ite_none_right_eq_some.mp hx
    unfold MemberRow.toEntry at hx
    split at hx
    · cases hx
    · rename_i n _
      split_ifs at hx
      · exact ⟨n, Or.inl (Option.some.inj hx).symm⟩
      · exact ⟨n, Or.inr (Option.some.inj hx).symm⟩

/-- Members do not touch the heartbeats. -/
theorem memberEntry_alive {lib : RecordLib N} {clientVer : Int} {f : String × Text}
    {x : Entry} (hx : memberEntry lib clientVer f = some x) (c : Cell) :
    (x.cell c).2 = c.2 := by
  obtain ⟨n, rfl | rfl⟩ := memberEntry_eq_some hx <;> rfl

namespace System

variable {s : System} {all : List (String × Text)} {v : Nat}

theorem getMembers_of_upToDate {lib : RecordLib N}
    (h : UpToDate s.store.memberVersion s.cli.memberVersion) :
    s.getMembers lib all = some (s.cli, []) := by
  rw [getMembers, Store.getMembers, answer_of_upToDate h]
  exact if_pos rfl

theorem getMembers_of_newer {lib : RecordLib N} (hv : s.store.memberVersion = some v)
    (hne : s.cli.memberVersion ≠ v) :
    s.getMembers lib all =
      some ({ s.cli with
        sub := (s.cli.sub.handleAll (memberEntry lib s.cli.memberVersion) all).1
        memberVersion := v },
        (s.cli.sub.handleAll (memberEntry lib s.cli.memberVersion) all).2) := by
  obtain ⟨nodes, hanswer, hloop⟩ := answer_of_newer
    (fun addr markdel info => MemberRow.mk addr info markdel) (MemberRow.toEntry lib) hne all
    s.cli.sub
  rw [getMembers, Store.getMembers, hv, hanswer, Client.getMembers, if_neg hne.symm]
  dsimp only
  rw [hloop]
  rfl

theorem getAlives_of_upToDate (h : UpToDate s.store.aliveVersion s.cli.aliveVersion) :
    s.getAlives all = some (s.cli, []) := by
  rw [getAlives, Store.getAlives, answer_of_upToDate h]
  exact if_pos rfl

theorem getAlives_of_newer (hv : s.store.aliveVersion = some v) (hne : s.cli.aliveVersion ≠ v) :
    s.getAlives all =
      some ({ s.cli with
        sub := (s.cli.sub.handleAll (aliveEntry s.cli.aliveVersion) all).1
        aliveVersion := v },
        (s.cli.sub.handleAll (aliveEntry s.cli.aliveVersion) all).2) := by
  obtain ⟨nodes, hanswer, hloop⟩ := answer_of_newer
    (fun addr dead _ => AliveRow.mk addr dead) AliveRow.toEntry hne all s.cli.sub
  rw [getAlives, Store.getAlives, hv, hanswer, Client.getAlives, if_neg hne.symm]
  dsimp only
  rw [hloop]
  rfl

/-- A fetch never panics. -/
theorem getMembers_isSome (lib : RecordLib N) (s : System) (all : List (String × Text)) :
    ∃ r, s.getMembers lib all = some r := by
  rcases upToDate_or_newer s.store.memberVersion s.cli.memberVersion with h | ⟨v, hv, hne⟩
  · exact ⟨_, getMembers_of_upToDate h⟩
  · exact ⟨_, getMembers_of_newer hv hne⟩

theorem getAlives_isSome (s : System) (all : List (String × Text)) :
    ∃ r, s.getAlives all = some r := by
  rcases upToDate_or_newer s.store.aliveVersion s.cli.aliveVersion with h | ⟨v, hv, hne⟩
  · exact ⟨_, getAlives_of_upToDate h⟩
  · exact ⟨_, getAlives_of_newer hv hne⟩

/-- A member fetch does not touch the heartbeats. -/
theorem getMembers_alive {lib : RecordLib N} {r : Client × List Change}
    (hr : s.getMembers lib all = some r) :
    r.1.aliveVersion = s.cli.aliveVersion ∧ r.1.sub.alive = s.cli.sub.alive := by
  rcases upToDate_or_newer s.store.memberVersion s.cli.memberVersion with h | ⟨v, hv, hne⟩
  · rw [getMembers_of_upToDate h] at hr
    obtain rfl := Option.some.inj hr
    exact ⟨rfl, rfl⟩
  · rw [getMembers_of_newer hv hne] at hr
    obtain rfl := Option.some.inj hr
    refine ⟨rfl, funext fun k => ?_⟩
    exact Subscriber.handleAll_frame Prod.snd (fun _ _ hx => memberEntry_alive hx) s.cli.sub all k

/-- A heartbeat fetch does not touch the members. -/
theorem getAlives_members {r : Client × List Change} (hr : s.getAlives all = some r) :
    r.1.memberVersion = s.cli.memberVersion ∧
      r.1.sub.members.get = s.cli.sub.members.get := by
  rcases upToDate_or_newer s.store.aliveVersion s.cli.aliveVersion with h | ⟨v, hv, hne⟩
  · rw [getAlives_of_upToDate h] at hr
    obtain rfl := Option.some.inj hr
    exact ⟨rfl, rfl⟩
  · rw [getAlives_of_newer hv hne] at hr
    obtain rfl := Option.some.inj hr
    refine ⟨rfl, funext fun k => ?_⟩
    exact Subscriber.handleAll_frame Prod.fst (fun _ _ hx => aliveEntry_members hx) s.cli.sub all k

end System

/-- Every event is enabled in every state. -/
theorem step_isSome (lib : RecordLib N) (s : System) (e : Event) :
    ∃ t, step lib s e = some t := by
  cases e with
  | write w => exact ⟨_, rfl⟩
  | getMembers all =>
    obtain ⟨r, hr⟩ := System.getMembers_isSome lib s all
    exact ⟨_, Option.map_eq_some_iff.mpr ⟨r, hr, rfl⟩⟩
  | getAlives all =>
    obtain ⟨r, hr⟩ := System.getAlives_isSome s all
    exact ⟨_, Option.map_eq_some_iff.mpr ⟨r, hr, rfl⟩⟩

/-- The keys of the entries of a fetch are fields of the hash. -/
theorem keys_nodup {hash : String → Option Text} {all : List (String × Text)}
    (henum : Enumerates hash all) {toEntry : String × Text → Option Entry}
    (hkey : ∀ f ∈ all, ∀ x, toEntry f = some x → x.key = f.1) :
    (all.filterMap fun f => (toEntry f).map Entry.key).Nodup := by
  refine henum.filterMap_nodup ?_
  intro f hf k hk
  obtain ⟨x, hx, rfl⟩ := Option.map_eq_some_iff.mp hk
  exact hkey f hf x hx

/-- A fetch treats every address by the field of that address alone. -/
theorem handleAll_cell {hash : String → Option Text} {all : List (String × Text)}
    (henum : Enumerates hash all) {toEntry : String × Text → Option Entry}
    (hkey : ∀ f ∈ all, ∀ x, toEntry f = some x → x.key = f.1) (sub : Subscriber) (k : String) :
    (sub.handleAll toEntry all).1.cell k =
      ((hash k).bind fun text => toEntry (k, text)).elim (sub.cell k) fun x =>
        x.cell (sub.cell k) := by
  have hlocal := Subscriber.handleAll_isLocal toEntry
  cases hx : (hash k).bind fun text => toEntry (k, text) with
  | some x =>
    obtain ⟨text, hk, hx⟩ := Option.bind_eq_some_iff.mp hx
    have hf := (henum.mem_iff k text).mpr hk
    have hcell := LocalLoop.obs_loop_of_mem (keys_nodup henum hkey) hlocal hf
      (Option.map_eq_some_iff.mpr ⟨x, hx, hkey _ hf x hx⟩) sub
    rw [hx] at hcell
    exact hcell
  | none =>
    refine LocalLoop.obs_loop_of_notMem hlocal (fun f hf heq => ?_) sub
    obtain ⟨x, hfx, hxk⟩ := Option.map_eq_some_iff.mp heq
    obtain ⟨k', text⟩ := f
    obtain rfl : k' = k := (hkey _ hf x hfx).symm.trans hxk
    rw [(henum.mem_iff k' text).mp hf, Option.bind_some, hfx] at hx
    cases hx

/-- A heartbeat fetch, address by address. -/
theorem handleAll_aliveEntry {hash : String → Option Text} {all : List (String × Text)}
    (henum : Enumerates hash all) (clientVer : Int) (sub : Subscriber) (k : String) :
    (sub.handleAll (aliveEntry clientVer) all).1.cell k =
      ((hash k).bind fun text => aliveEntry clientVer (k, text)).elim (sub.cell k) fun x =>
        x.cell (sub.cell k) := by
  refine handleAll_cell henum ?_ sub k
  intro f _ x hx
  exact aliveEntry_key hx

end ClusterGo.Redis
