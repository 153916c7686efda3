import Mathlib.Data.List.Nodup
import ClusterGo.Addr

/-!
# Membership records and change logs

`membership/membership.go` describes a member by its address and two flags
and reports changes as a `MemberInfo` of three lists.  The service behind
the interface keeps a map from logic addresses to members.  `Membership` is
that map, and `Faithful` says that a `MemberInfo` reports changes of it:
added members are new, removed and updated ones are there, and no address
is reported twice.

A removed member is reported with whatever record the service has at hand,
so nothing is assumed about the flags of a removal.
-/

namespace ClusterGo

/-- `membership.Node`. -/
structure Member where
  addr : Addr
  exported : Bool
  available : Bool
deriving DecidableEq, Repr

structure MemberInfo where
  add : List Member := []
  remove : List Member := []
  update : List Member := []
deriving DecidableEq, Repr

/-- The filter of `onNodeInfoUpdate`: what the node at `localAddr` may
know. -/
def visible (localAddr : LogicAddr) (v : Member) : Bool :=
  v.exported || v.addr.logicAddr.cluster == localAddr.cluster ||
    (localAddr.type == harbarType && v.addr.logicAddr.type == harbarType)

/-! ## One change -/

inductive Change where
  | add (v : Member)
  | remove (v : Member)
  | update (v : Member)
deriving DecidableEq, Repr

namespace Change

def member : Change → Member
  | .add v | .remove v | .update v => v

def key (x : Change) : LogicAddr := x.member.addr.logicAddr

/-- The record of the address after the change. -/
def target : Change → Option Member
  | .add v | .update v => some v
  | .remove _ => none

theorem key_of_target {x : Change} {v : Member} (h : x.target = some v) :
    v.addr.logicAddr = x.key := by
  cases x with
  | add u | update u =>
    cases h
    rfl
  | remove u => cases h

/-- The change reports a member whose record was the given one.  The local
node is neither removed nor moved to another net address. -/
def Fits (localAddr : LogicAddr) : Change → Option Member → Prop
  | .add _, none => True
  | .remove v, some _ => v.addr.logicAddr ≠ localAddr
  | .update v, some u => v.addr.logicAddr = localAddr → v.addr.netAddr = u.addr.netAddr
  | .add _, some _ | .remove _, none | .update _, none => False

instance (localAddr : LogicAddr) : (x : Change) → (old : Option Member) →
    Decidable (x.Fits localAddr old)
  | .add _, none => inferInstanceAs (Decidable True)
  | .remove v, some _ => inferInstanceAs (Decidable (v.addr.logicAddr ≠ localAddr))
  | .update v, some u => inferInstanceAs
      (Decidable (v.addr.logicAddr = localAddr → v.addr.netAddr = u.addr.netAddr))
  | .add _, some _ | .remove _, none | .update _, none => inferInstanceAs (Decidable False)

/-- The record of a removal or an update is visible if and only if the
record that it replaces was. -/
def KeepsVisibility (localAddr : LogicAddr) : Change → Option Member → Prop
  | .remove v, some u | .update v, some u => visible localAddr v = visible localAddr u
  | .add _, _ | .remove _, none | .update _, none => True

instance (localAddr : LogicAddr) : (x : Change) → (old : Option Member) →
    Decidable (x.KeepsVisibility localAddr old)
  | .remove v, some u | .update v, some u =>
    inferInstanceAs (Decidable (visible localAddr v = visible localAddr u))
  | .add _, _ | .remove _, none | .update _, none => inferInstanceAs (Decidable True)

end Change

/-- The changes in the order in which `onNodeInfoUpdate` takes them. -/
def MemberInfo.changes (info : MemberInfo) : List Change :=
  info.add.map .add ++ (info.remove.map .remove ++ info.update.map .update)

/-! ## The membership map -/

/-- The map that a membership service keeps. -/
structure Membership where
  get : LogicAddr → Option Member
  keyed : ∀ a v, get a = some v → v.addr.logicAddr = a

namespace Membership

def empty : Membership where
  get := fun _ => none
  keyed := fun _ _ h => by cases h

/-- The map after the changes of a `MemberInfo`. -/
def apply (m : Membership) (info : MemberInfo) : Membership where
  get := fun a =>
    match info.changes.find? fun x => x.key = a with
    | some x => x.target
    | none => m.get a
  keyed := by
    intro a v h
    cases hfind : info.changes.find? fun x => x.key = a with
    | none =>
      rw [hfind] at h
      exact m.keyed a v h
    | some x =>
      rw [hfind] at h
      rw [Change.key_of_target h]
      simpa using List.find?_some hfind

theorem apply_of_mem (m : Membership) {info : MemberInfo}
    (hdistinct : (info.changes.map Change.key).Nodup) {x : Change}
    (hx : x ∈ info.changes) : (m.apply info).get x.key = x.target := by
  have hfind : info.changes.find? (fun y => y.key = x.key) = some x := by
    cases hf : info.changes.find? fun y => y.key = x.key with
    | none => simpa using List.find?_eq_none.mp hf x hx
    | some y =>
      have hkey : y.key = x.key := by simpa using List.find?_some hf
      rw [List.inj_on_of_nodup_map hdistinct (List.mem_of_find?_eq_some hf) hx hkey]
  simp only [apply, hfind]

theorem apply_of_notMem (m : Membership) {info : MemberInfo} {a : LogicAddr}
    (ha : a ∉ info.changes.map Change.key) : (m.apply info).get a = m.get a := by
  have hfind : info.changes.find? (fun y => y.key = a) = none := by
    rw [List.find?_eq_none]
    intro x hx hkey
    exact ha (List.mem_map.mpr ⟨x, hx, by simpa using hkey⟩)
  simp only [apply, hfind]

end Membership

/-! ## Change logs -/

/-- `info` reports changes of the membership `m`, each address at most
once. -/
structure Faithful (localAddr : LogicAddr) (m : Membership) (info : MemberInfo) : Prop where
  distinct : (info.changes.map Change.key).Nodup
  fits : ∀ x ∈ info.changes, x.Fits localAddr (m.get x.key)

instance (localAddr : LogicAddr) (m : Membership) (info : MemberInfo) :
    Decidable (Faithful localAddr m info) :=
  decidable_of_iff ((info.changes.map Change.key).Nodup ∧
      ∀ x ∈ info.changes, x.Fits localAddr (m.get x.key))
    ⟨fun h => ⟨h.1, h.2⟩, fun h => ⟨h.distinct, h.fits⟩⟩

/-- A sequence of reports that are faithful one after the other. -/
def FaithfulLog (localAddr : LogicAddr) : Membership → List MemberInfo → Prop
  | _, [] => True
  | m, info :: log => Faithful localAddr m info ∧ FaithfulLog localAddr (m.apply info) log

instance (localAddr : LogicAddr) : (m : Membership) → (log : List MemberInfo) →
    Decidable (FaithfulLog localAddr m log)
  | _, [] => inferInstanceAs (Decidable True)
  | m, info :: log =>
    have := instDecidableFaithfulLog localAddr (m.apply info) log
    inferInstanceAs (Decidable (Faithful localAddr m info ∧
      FaithfulLog localAddr (m.apply info) log))

/-- No report of the sequence moves a member across the visibility
filter. -/
def KeepsVisibility (localAddr : LogicAddr) : Membership → List MemberInfo → Prop
  | _, [] => True
  | m, info :: log =>
    (∀ x ∈ info.changes, x.KeepsVisibility localAddr (m.get x.key)) ∧
      KeepsVisibility localAddr (m.apply info) log

instance (localAddr : LogicAddr) : (m : Membership) → (log : List MemberInfo) →
    Decidable (KeepsVisibility localAddr m log)
  | _, [] => inferInstanceAs (Decidable True)
  | m, info :: log =>
    have := instDecidableKeepsVisibility localAddr (m.apply info) log
    inferInstanceAs (Decidable
      ((∀ x ∈ info.changes, x.KeepsVisibility localAddr (m.get x.key)) ∧
        KeepsVisibility localAddr (m.apply info) log))

end ClusterGo
