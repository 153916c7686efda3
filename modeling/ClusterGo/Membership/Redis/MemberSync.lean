import ClusterGo.Membership.Report
import ClusterGo.Membership.Redis.System

/-!
# Incremental member fetches are exact

A `Ledger` says what the admins have done without versions and packed
texts: which members are live with which data, and since the last fetch of
the subscriber, which records were rewritten and who was live then.

`Synced` ties it to the two versions.  The record of an address is newer
than the client if and only if it was rewritten since the last fetch, and
what was not rewritten is as it was at that fetch.  Every script and every
fetch keeps it (`Synced.step`), whatever the order of insertions,
overwrites, deletions, deletions of absent addresses and insertions of
deleted ones.
-/

namespace ClusterGo.Redis

open LocalLoop Transition

variable {N : Type} {lib : RecordLib N}

/-! ## What the admins have done -/

structure Ledger where
  /-- The members that are not deleted, with the data written last. -/
  live : String → Option Member := fun _ => none
  /-- There is a record, live or marked as deleted. -/
  known : String → Bool := fun _ => false
  /-- The live members at the last fetch. -/
  fetched : String → Option Member := fun _ => none
  /-- The record was rewritten since the last fetch. -/
  rewritten : String → Bool := fun _ => false

namespace Ledger

def update (t : Ledger) (n : Member) : Ledger :=
  let k := n.addr.logicAddr.string
  { t with
    live := Function.update t.live k (some n)
    known := Function.update t.known k true
    rewritten := Function.update t.rewritten k true }

/-- Only a record that is there can be marked as deleted. -/
def remove (t : Ledger) (k : String) : Ledger :=
  if t.known k then
    { t with
      live := Function.update t.live k none
      rewritten := Function.update t.rewritten k true }
  else t

def fetch (t : Ledger) : Ledger := { t with fetched := t.live, rewritten := fun _ => false }

def next (t : Ledger) : Event → Ledger
  | .write (.updateMember n) => t.update n
  | .write (.removeMember n) => t.remove n.string
  | .getMembers _ => t.fetch
  | .write (.keepAlive _ _ _) | .write (.checkTimeout _ _) | .getAlives _ => t

end Ledger

/-- The report of a fetch lists exactly the rewritten addresses that were
live at the last fetch or are live now, each once and under the right
heading. -/
structure Lists (t : Ledger) (info : MemberInfo) : Prop where
  once : (info.changes.map Change.key).Nodup
  add_iff : ∀ a : LogicAddr, a ∈ info.add.map (·.addr.logicAddr) ↔
    t.rewritten a.string = true ∧ t.fetched a.string = none ∧ t.live a.string ≠ none
  remove_iff : ∀ a : LogicAddr, a ∈ info.remove.map (·.addr.logicAddr) ↔
    t.rewritten a.string = true ∧ t.fetched a.string ≠ none ∧ t.live a.string = none
  update_iff : ∀ a : LogicAddr, a ∈ info.update.map (·.addr.logicAddr) ↔
    t.rewritten a.string = true ∧ t.fetched a.string ≠ none ∧ t.live a.string ≠ none

/-- The member in the store that is not marked as deleted. -/
def Store.liveMember (lib : RecordLib N) (store : Store) (k : String) : Option Member :=
  match (store.members k).bind matchRecord with
  | none => none
  | some (_, markdel, info) => if markdel = trueText then none else Member.parse lib info

/-! ## The store and the ledger -/

/-- The record of `k` has the version `ver` and is live with the given
data, or is marked as deleted. -/
def RecordOf (lib : RecordLib N) (k : String) (live : Option Member) (ver : Nat)
    (text : Text) : Prop :=
  ∃ flag info n, text = packed ver flag info ∧ Member.parse lib info = some n ∧
    n.addr.logicAddr.string = k ∧
    (flag = falseText ∧ live = some n ∨ flag = trueText ∧ live = none)

structure Synced (lib : RecordLib N) (s : System) (t : Ledger) : Prop where
  absent : ∀ k, s.store.members k = none →
    t.live k = none ∧ t.known k = false ∧ t.rewritten k = false
  record : ∀ k text, s.store.members k = some text → t.known k = true ∧
    ∃ ver serverVer, s.store.memberVersion = some serverVer ∧ 1 ≤ ver ∧ ver ≤ serverVer ∧
      RecordOf lib k (t.live k) ver text ∧
      (t.rewritten k = true ↔ s.cli.memberVersion < ver)
  nonneg : 0 ≤ s.cli.memberVersion
  bounded : s.cli.memberVersion ≤ s.store.memberVersion.getD 0
  fresh : s.cli.memberVersion = 0 → ∀ k, t.fetched k = none
  fetched : ∀ k, s.cli.sub.members.get k = t.fetched k
  settled : ∀ k, t.rewritten k = false → t.fetched k = t.live k

theorem isFlag_of_recordOf {flag : Text} {live : Option Member} {n : Member}
    (h : flag = falseText ∧ live = some n ∨ flag = trueText ∧ live = none) : IsFlag flag :=
  h.imp (·.1) (·.1)

theorem synced_start (lib : RecordLib N) : Synced lib {} {} where
  absent := fun _ _ => ⟨rfl, rfl, rfl⟩
  record := fun _ _ h => by cases h
  nonneg := Int.le_refl 0
  bounded := Int.le_refl 0
  fresh := fun _ _ => rfl
  fetched := fun _ => rfl
  settled := fun _ _ => rfl

section Step

variable {s : System} {t : Ledger}

/-- The member part of the store after a write to the field `k`. -/
theorem Synced.write_field (h : Synced lib s t) {t' : Ledger} {store : Store} {k : String}
    {text : Text} {live : Option Member}
    (hversion : store.memberVersion = some (nextVersion s.store.memberVersion))
    (hmembers : store.members = Function.update s.store.members k (some text))
    (hrecord : RecordOf lib k live (nextVersion s.store.memberVersion) text)
    (hlive : t'.live = Function.update t.live k live)
    (hknown : t'.known = Function.update t.known k true)
    (hrewritten : t'.rewritten = Function.update t.rewritten k true)
    (hfetched : t'.fetched = t.fetched) : Synced lib { s with store := store } t' where
  absent := by
    intro k' hk'
    have hne : k' ≠ k := by
      intro heq
      rw [heq, hmembers, Function.update_self] at hk'
      cases hk'
    rw [hmembers, Function.update_of_ne hne] at hk'
    rw [hlive, hknown, hrewritten, Function.update_of_ne hne, Function.update_of_ne hne,
      Function.update_of_ne hne]
    exact h.absent k' hk'
  record := by
    intro k' text' hk'
    by_cases hne : k' = k
    · rw [hne, hmembers, Function.update_self] at hk'
      obtain rfl := Option.some.inj hk'
      rw [hne, hlive, hknown, hrewritten, Function.update_self, Function.update_self,
        Function.update_self]
      exact ⟨rfl, _, _, hversion, one_le_nextVersion _, Nat.le_refl _, hrecord,
        iff_of_true rfl (lt_nextVersion h.bounded)⟩
    · rw [hmembers, Function.update_of_ne hne] at hk'
      rw [hlive, hknown, hrewritten, Function.update_of_ne hne, Function.update_of_ne hne,
        Function.update_of_ne hne]
      obtain ⟨hk, ver, serverVer, hserver, hpos, hle, hrec, hiff⟩ := h.record k' text' hk'
      refine ⟨hk, ver, _, hversion, hpos, ?_, hrec, hiff⟩
      rw [hserver]
      exact Nat.le_succ_of_le hle
  nonneg := h.nonneg
  bounded := by
    rw [hversion]
    exact Int.le_of_lt (lt_nextVersion h.bounded)
  fresh := by
    rw [hfetched]
    exact h.fresh
  fetched := by
    rw [hfetched]
    exact h.fetched
  settled := by
    intro k' hk'
    have hne : k' ≠ k := by
      intro heq
      rw [heq, hrewritten, Function.update_self] at hk'
      cases hk'
    rw [hrewritten, Function.update_of_ne hne] at hk'
    rw [hfetched, hlive, Function.update_of_ne hne]
    exact h.settled k' hk'

/-- The stored JSON of a member can be parsed. -/
def ParsesBack (lib : RecordLib N) (n : Member) : Prop :=
  ∃ data, n.marshal lib = .ok data ∧ Member.parse lib data ≠ none

theorem Synced.updateMember (hlib : lib.Lawful) (h : Synced lib s t) {n : Member}
    (hn : lib.Prints n) (hparses : ParsesBack lib n) :
    Synced lib { s with store := s.store.write lib (.updateMember n) } (t.update n) := by
  obtain ⟨data, hdata, hparse⟩ := hparses
  have hsome : Member.parse lib data = some n := by
    rw [parse_marshal hlib hn hdata] at hparse ⊢
    split_ifs at hparse ⊢
    · rfl
    · exact absurd rfl hparse
  have hstored : ((n.marshal lib).toOption.getD []) = data := by
    rw [hdata]
    rfl
  refine h.write_field rfl rfl ?_ rfl rfl rfl rfl
  exact ⟨falseText, data, n, by rw [hstored], hsome, rfl, Or.inl ⟨rfl, rfl⟩⟩

/-- Deleting an absent address changes the version only. -/
theorem Synced.bump (h : Synced lib s t) :
    Synced lib { s with store :=
      { s.store with memberVersion := some (nextVersion s.store.memberVersion) } } t where
  absent := h.absent
  record := by
    intro k text hk
    obtain ⟨hknown, ver, serverVer, hserver, hpos, hle, hrec, hiff⟩ := h.record k text hk
    refine ⟨hknown, ver, _, rfl, hpos, ?_, hrec, hiff⟩
    rw [hserver]
    exact Nat.le_succ_of_le hle
  nonneg := h.nonneg
  bounded := Int.le_of_lt (lt_nextVersion h.bounded)
  fresh := h.fresh
  fetched := h.fetched
  settled := h.settled

theorem Synced.removeMember (h : Synced lib s t) (n : LogicAddr) :
    Synced lib { s with store := s.store.write lib (.removeMember n) } (t.remove n.string) := by
  show Synced lib { s with store := s.store.delete n.string } (t.remove n.string)
  rw [Store.delete, Ledger.remove]
  dsimp only
  cases hk : s.store.members n.string with
  | none =>
    rw [if_neg (by rw [(h.absent _ hk).2.1]; exact Bool.false_ne_true)]
    exact h.bump
  | some existing =>
    obtain ⟨hknown, ver, serverVer, hserver, hpos, hle, hrec, hiff⟩ := h.record _ _ hk
    obtain ⟨flag, info, m, rfl, hparse, hkey, hflag⟩ := hrec
    dsimp only
    rw [if_pos hknown, matchRecord_packed ver (isFlag_of_recordOf hflag)]
    refine h.write_field rfl rfl ?_ rfl ?_ rfl rfl
    · exact ⟨trueText, info, m, rfl, hparse, hkey, Or.inr ⟨rfl, rfl⟩⟩
    · show t.known = Function.update t.known n.string true
      rw [← hknown, Function.update_eq_self]

/-! ## A fetch -/

/-- What the client makes of a field that it is sent. -/
theorem RecordOf.entry {k : String} {live : Option Member} {ver : Nat} {text : Text}
    (h : RecordOf lib k live ver text) {clientVer : Int} {x : Entry}
    (hx : memberEntry lib clientVer (k, text) = some x) :
    (clientVer = 0 ∨ clientVer < ver) ∧ ∃ n, n.addr.logicAddr.string = k ∧
      (x = .put n ∧ live = some n ∨ x = .markdel n ∧ live = none) := by
  obtain ⟨flag, info, n, rfl, hparse, hkey, hflag⟩ := h
  rw [memberEntry, sentEntry, matchRecord_packed ver (isFlag_of_recordOf hflag)] at hx
  obtain ⟨hsent, hx⟩ := Option.ite_none_right_eq_some.mp hx
  have hnewer : clientVer = 0 ∨ clientVer < ver := by
    by_cases hzero : clientVer = 0
    · exact Or.inl hzero
    · rw [sent, if_neg hzero, newer_toDigits, decide_eq_true_iff] at hsent
      exact Or.inr hsent
  simp only [MemberRow.toEntry, hparse] at hx
  refine ⟨hnewer, n, hkey, ?_⟩
  rcases hflag with ⟨rfl, hlive⟩ | ⟨rfl, hlive⟩
  · rw [if_neg (by decide)] at hx
    exact Or.inl ⟨(Option.some.inj hx).symm, hlive⟩
  · rw [if_pos rfl] at hx
    exact Or.inr ⟨(Option.some.inj hx).symm, hlive⟩

/-- A field is not sent when it is old, or for version 0 when it is marked
as deleted. -/
theorem RecordOf.not_sent {k : String} {live : Option Member} {ver : Nat} {text : Text}
    (h : RecordOf lib k live ver text) {clientVer : Int}
    (hx : memberEntry lib clientVer (k, text) = none) :
    clientVer = 0 ∧ live = none ∨ ¬ clientVer < ver := by
  obtain ⟨flag, info, n, rfl, hparse, hkey, hflag⟩ := h
  rw [memberEntry, sentEntry, matchRecord_packed ver (isFlag_of_recordOf hflag)] at hx
  by_cases hzero : clientVer = 0
  · rcases hflag with ⟨rfl, rfl⟩ | ⟨rfl, rfl⟩
    · have hneg : ¬ falseText = trueText := by decide
      simp only [sent, if_pos hzero, decide_true, if_true, MemberRow.toEntry, hparse,
        if_neg hneg] at hx
      cases hx
    · exact Or.inl ⟨hzero, rfl⟩
  · right
    intro hlt
    simp only [sent, if_neg hzero, newer_toDigits, hlt, decide_true, if_true,
      MemberRow.toEntry, hparse] at hx
    split_ifs at hx

/-- The heading under which a change belongs. -/
def Fitting (t : Ledger) (k : String) : Change → Prop
  | .add _ => t.fetched k = none ∧ t.live k ≠ none
  | .remove _ => t.fetched k ≠ none ∧ t.live k = none
  | .update _ => t.fetched k ≠ none ∧ t.live k ≠ none

section Headings

variable {cs : List Change}
  (hsound : ∀ y ∈ cs, t.rewritten y.key.string = true ∧ Fitting t y.key.string y)
  (hcomplete : ∀ a : LogicAddr, t.rewritten a.string = true →
    t.fetched a.string ≠ none ∨ t.live a.string ≠ none → ∃ y ∈ cs, y.key = a)

include hsound hcomplete

/-- One of the three lists, with its heading `mk` and the condition `P` of
that heading. -/
theorem mem_heading_iff {list : List Member} {mk : Member → Change}
    (hlist : ∀ v, v ∈ list ↔ mk v ∈ cs) (hkey : ∀ v, (mk v).key = v.addr.logicAddr)
    {P : String → Prop} (hfits : ∀ k v, Fitting t k (mk v) → P k)
    (honly : ∀ k y, Fitting t k y → P k → ∃ v, y = mk v)
    (hsome : ∀ k, P k → t.fetched k ≠ none ∨ t.live k ≠ none) (a : LogicAddr) :
    a ∈ list.map (·.addr.logicAddr) ↔ t.rewritten a.string = true ∧ P a.string := by
  constructor
  · intro ha
    obtain ⟨v, hv, rfl⟩ := List.mem_map.mp ha
    obtain ⟨hrewritten, hfit⟩ := hsound _ ((hlist v).mp hv)
    rw [hkey] at hrewritten hfit
    exact ⟨hrewritten, hfits _ v hfit⟩
  · intro ha
    obtain ⟨y, hy, hya⟩ := hcomplete a ha.1 (hsome _ ha.2)
    have hfit := (hsound y hy).2
    rw [hya] at hfit
    obtain ⟨v, rfl⟩ := honly _ y hfit ha.2
    rw [hkey] at hya
    exact List.mem_map.mpr ⟨v, (hlist v).mpr hy, hya⟩

theorem lists_of_fitting (honce : (cs.map Change.key).Nodup) :
    Lists t (MemberInfo.ofChanges cs) where
  once := ((MemberInfo.ofChanges_perm cs).map Change.key).nodup_iff.mpr honce
  add_iff := by
    refine mem_heading_iff hsound hcomplete (fun v => MemberInfo.mem_ofChanges_add)
      (fun v => rfl) (P := fun k => t.fetched k = none ∧ t.live k ≠ none) (fun k v h => h)
      ?_ (fun k h => Or.inr h.2)
    intro k y hfit hP
    cases y with
    | add v => exact ⟨v, rfl⟩
    | remove v => exact absurd hP.1 hfit.1
    | update v => exact absurd hP.1 hfit.1
  remove_iff := by
    refine mem_heading_iff hsound hcomplete (fun v => MemberInfo.mem_ofChanges_remove)
      (fun v => rfl) (P := fun k => t.fetched k ≠ none ∧ t.live k = none) (fun k v h => h)
      ?_ (fun k h => Or.inl h.1)
    intro k y hfit hP
    cases y with
    | add v => exact absurd hfit.1 hP.1
    | remove v => exact ⟨v, rfl⟩
    | update v => exact absurd hP.2 hfit.2
  update_iff := by
    refine mem_heading_iff hsound hcomplete (fun v => MemberInfo.mem_ofChanges_update)
      (fun v => rfl) (P := fun k => t.fetched k ≠ none ∧ t.live k ≠ none) (fun k v h => h)
      ?_ (fun k h => Or.inl h.1)
    intro k y hfit hP
    cases y with
    | add v => exact absurd hfit.1 hP.1
    | remove v => exact absurd hfit.2 hP.2
    | update v => exact ⟨v, rfl⟩

end Headings

/-- With the version of the store nothing was rewritten. -/
theorem Synced.rewritten_of_upToDate (h : Synced lib s t)
    (hup : UpToDate s.store.memberVersion s.cli.memberVersion) (k : String) :
    t.rewritten k = false := by
  cases hk : s.store.members k with
  | none => exact (h.absent k hk).2.2
  | some text =>
    obtain ⟨_, ver, serverVer, hserver, _, hle, _, hiff⟩ := h.record k text hk
    have hver := hup serverVer hserver
    rw [← Bool.not_eq_true, hiff]
    omega

/-- A fetch that finds nothing newer. -/
theorem Synced.fetch_of_upToDate (h : Synced lib s t)
    (hup : UpToDate s.store.memberVersion s.cli.memberVersion) :
    Synced lib s t.fetch ∧ Lists t (MemberInfo.ofChanges []) := by
  have hnone := h.rewritten_of_upToDate hup
  have hlive : ∀ k, t.fetched k = t.live k := fun k => h.settled k (hnone k)
  constructor
  · refine ⟨fun k hk => ⟨(h.absent k hk).1, (h.absent k hk).2.1, rfl⟩, ?_, h.nonneg, h.bounded,
      ?_, ?_, fun k _ => rfl⟩
    · intro k text hk
      obtain ⟨hknown, ver, serverVer, hserver, hpos, hle, hrec, hiff⟩ := h.record k text hk
      have hver := hup serverVer hserver
      refine ⟨hknown, ver, serverVer, hserver, hpos, hle, hrec, ?_⟩
      exact iff_of_false Bool.false_ne_true (by omega)
    · intro hzero k
      show t.live k = none
      rw [← hlive k]
      exact h.fresh hzero k
    · intro k
      show s.cli.sub.members.get k = t.live k
      rw [← hlive k]
      exact h.fetched k
  · refine lists_of_fitting (fun y hy => absurd hy List.not_mem_nil) ?_ List.nodup_nil
    intro a ha
    rw [hnone] at ha
    cases ha

section Newer

variable {v : Nat} {all : List (String × Text)} (h : Synced lib s t)
  (hv : s.store.memberVersion = some v) (hne : s.cli.memberVersion ≠ v)
  (henum : Enumerates s.store.members all)

include h henum

/-- What a fetch makes of a field of the hash. -/
theorem Synced.entry {f : String × Text} (hf : f ∈ all) {x : Entry}
    (hx : memberEntry lib s.cli.memberVersion f = some x) :
    t.rewritten f.1 = true ∧ ∃ n, n.addr.logicAddr.string = f.1 ∧
      (x = .put n ∧ t.live f.1 = some n ∨ x = .markdel n ∧ t.live f.1 = none) := by
  obtain ⟨k, text⟩ := f
  obtain ⟨_, ver, _, _, hpos, _, hrec, hiff⟩ := h.record k text ((henum.mem_iff k text).mp hf)
  obtain ⟨hnewer, hx⟩ := hrec.entry hx
  exact ⟨hiff.mpr (by omega), hx⟩

theorem Synced.entry_key {f : String × Text} (hf : f ∈ all) {x : Entry}
    (hx : memberEntry lib s.cli.memberVersion f = some x) : x.key = f.1 := by
  obtain ⟨_, n, hn, ⟨rfl, _⟩ | ⟨rfl, _⟩⟩ := h.entry henum hf hx
  · exact hn
  · exact hn

/-- A rewritten record is sent, unless the client has version 0 and the
record is marked as deleted. -/
theorem Synced.exists_entry {k : String} (hk : t.rewritten k = true)
    (hsome : t.fetched k ≠ none ∨ t.live k ≠ none) :
    ∃ text x, (k, text) ∈ all ∧ memberEntry lib s.cli.memberVersion (k, text) = some x := by
  cases hrecord : s.store.members k with
  | none =>
    rw [(h.absent k hrecord).2.2] at hk
    cases hk
  | some text =>
    obtain ⟨_, ver, _, _, _, _, hrec, hiff⟩ := h.record k text hrecord
    cases hx : memberEntry lib s.cli.memberVersion (k, text) with
    | some x => exact ⟨text, x, (henum.mem_iff k text).mpr hrecord, hx⟩
    | none =>
      rcases hrec.not_sent hx with ⟨hzero, hlive⟩ | hold
      · rcases hsome with hfetched | hsome
        · exact absurd (h.fresh hzero k) hfetched
        · exact absurd hlive hsome
      · exact absurd (hiff.mp hk) hold

/-- After the loop the members are the live ones. -/
theorem Synced.members_after (k : String) :
    (s.cli.sub.handleAll (memberEntry lib s.cli.memberVersion) all).1.members.get k =
      t.live k := by
  have hcell := handleAll_cell henum (fun f hf x hx => h.entry_key henum hf hx) s.cli.sub k
  refine (congrArg Prod.fst hcell).trans ?_
  cases hx : (s.store.members k).bind fun text =>
      memberEntry lib s.cli.memberVersion (k, text) with
  | some x =>
    obtain ⟨text, hk, hx⟩ := Option.bind_eq_some_iff.mp hx
    obtain ⟨_, n, _, ⟨rfl, hlive⟩ | ⟨rfl, hlive⟩⟩ :=
      h.entry henum ((henum.mem_iff k text).mpr hk) hx
    · exact hlive.symm
    · exact hlive.symm
  | none =>
    show s.cli.sub.members.get k = t.live k
    rw [h.fetched k]
    by_contra hdiff
    have hrewritten : t.rewritten k = true := by
      by_contra hfalse
      exact hdiff (h.settled k (Bool.not_eq_true _ ▸ hfalse))
    have hsome : t.fetched k ≠ none ∨ t.live k ≠ none := by
      by_contra hboth
      push Not at hboth
      exact hdiff (hboth.1.trans hboth.2.symm)
    obtain ⟨text, y, hf, hy⟩ := h.exists_entry henum hrewritten hsome
    rw [(henum.mem_iff k text).mp hf, Option.bind_some, hy] at hx
    cases hx

/-- What a sent record reports belongs under its heading. -/
theorem Synced.fitting {f : String × Text} (hf : f ∈ all) {x : Entry}
    (hx : memberEntry lib s.cli.memberVersion f = some x) {y : Change}
    (hy : x.out (s.cli.sub.cell f.1) = some y) : Fitting t f.1 y := by
  have hfetched := h.fetched f.1
  obtain ⟨_, n, _, ⟨rfl, hlive⟩ | ⟨rfl, hlive⟩⟩ := h.entry henum hf hx
  · have hsome : t.live f.1 ≠ none := hlive ▸ Option.some_ne_none n
    obtain rfl := Option.some.inj hy
    rw [Subscriber.cell, hfetched]
    cases hold : t.fetched f.1 with
    | none => exact ⟨hold, hsome⟩
    | some m => exact ⟨hold ▸ Option.some_ne_none m, hsome⟩
  · obtain ⟨m, hm, rfl⟩ := Option.map_eq_some_iff.mp hy
    refine ⟨?_, hlive⟩
    rw [← hfetched]
    exact Option.ne_none_iff_exists'.mpr ⟨m, hm⟩

/-- A sent record of an address that was live or is live reports something. -/
theorem Synced.exists_out {f : String × Text} (hf : f ∈ all) {x : Entry}
    (hx : memberEntry lib s.cli.memberVersion f = some x)
    (hsome : t.fetched f.1 ≠ none ∨ t.live f.1 ≠ none) :
    ∃ y, x.out (s.cli.sub.cell f.1) = some y := by
  obtain ⟨_, n, _, ⟨rfl, hlive⟩ | ⟨rfl, hlive⟩⟩ := h.entry henum hf hx
  · exact ⟨_, rfl⟩
  · have hfetched : t.fetched f.1 ≠ none := hsome.resolve_right (not_not.mpr hlive)
    rw [← h.fetched] at hfetched
    obtain ⟨m, hm⟩ := Option.ne_none_iff_exists'.mp hfetched
    exact ⟨_, Option.map_eq_some_iff.mpr ⟨m, hm, rfl⟩⟩

theorem Synced.lists_after :
    Lists t (MemberInfo.ofChanges
      (s.cli.sub.handleAll (memberEntry lib s.cli.memberVersion) all).2) := by
  have hdistinct := keys_nodup henum fun f hf x hx => h.entry_key henum hf hx
  have hlocal := Subscriber.handleAll_isLocal (memberEntry lib s.cli.memberVersion)
  refine lists_of_fitting ?_ ?_ (Subscriber.handleAll_explains hdistinct s.cli.sub).distinct
  · intro y hy
    obtain ⟨f, hf, k, hkey, hout⟩ := (mem_loop_iff hdistinct hlocal s.cli.sub).mp hy
    have hyk := Subscriber.key_of_bind_out _ s.cli.sub f k y hkey hout
    obtain ⟨x, hx, rfl⟩ := Option.map_eq_some_iff.mp hkey
    have hxk := h.entry_key henum hf hx
    rw [hx, hxk] at hout
    rw [hyk, hxk]
    exact ⟨(h.entry henum hf hx).1, h.fitting henum hf hx hout⟩
  · intro a ha hsome
    obtain ⟨text, x, hf, hx⟩ := h.exists_entry henum ha hsome
    obtain ⟨y, hy⟩ := h.exists_out henum hf hx hsome
    have hkey : (memberEntry lib s.cli.memberVersion (a.string, text)).map Entry.key =
        some a.string := by
      rw [hx, Option.map_some, h.entry_key henum hf hx]
    have hbind : ((memberEntry lib s.cli.memberVersion (a.string, text)).bind fun x =>
        x.out (s.cli.sub.cell a.string)) = some y := by
      rw [hx]
      exact hy
    refine ⟨y, (mem_loop_iff hdistinct hlocal s.cli.sub).mpr ⟨_, hf, _, hkey, hbind⟩, ?_⟩
    exact LogicAddr.string_injective
      (Subscriber.key_of_bind_out _ s.cli.sub _ _ y hkey hbind)

include hv hne

/-- A fetch that finds a newer version. -/
theorem Synced.fetch_of_newer :
    Synced lib { s with cli := { s.cli with
      sub := (s.cli.sub.handleAll (memberEntry lib s.cli.memberVersion) all).1
      memberVersion := v } } t.fetch where
  absent := fun k hk => ⟨(h.absent k hk).1, (h.absent k hk).2.1, rfl⟩
  record := by
    intro k text hk
    obtain ⟨hknown, ver, serverVer, hserver, hpos, hle, hrec, _⟩ := h.record k text hk
    refine ⟨hknown, ver, serverVer, hserver, hpos, hle, hrec, ?_⟩
    obtain rfl := Option.some.inj (hv.symm.trans hserver)
    refine iff_of_false Bool.false_ne_true ?_
    show ¬ ((v : Int) < ver)
    omega
  nonneg := Int.natCast_nonneg v
  bounded := by
    show (v : Int) ≤ s.store.memberVersion.getD 0
    rw [hv]
    exact Int.le_refl _
  fresh := by
    intro hzero
    have hle := h.bounded
    have hnonneg := h.nonneg
    rw [hv] at hle
    simp only [Option.getD_some] at hle
    have hzero : (v : Int) = 0 := hzero
    omega
  fetched := h.members_after henum
  settled := fun _ _ => rfl

end Newer

/-- The members are not touched by the heartbeats. -/
theorem Synced.frame {s' : System} (h : Synced lib s t)
    (hmembers : s'.store.members = s.store.members)
    (hversion : s'.store.memberVersion = s.store.memberVersion)
    (hclient : s'.cli.memberVersion = s.cli.memberVersion)
    (hget : s'.cli.sub.members.get = s.cli.sub.members.get) : Synced lib s' t where
  absent := hmembers ▸ h.absent
  record := by
    rw [hmembers, hversion, hclient]
    exact h.record
  nonneg := hclient ▸ h.nonneg
  bounded := by
    rw [hclient, hversion]
    exact h.bounded
  fresh := hclient ▸ h.fresh
  fetched := hget ▸ h.fetched
  settled := h.settled

/-- What is stored for a member can be parsed. -/
def Event.Parseable (lib : RecordLib N) : Event → Prop
  | .write (.updateMember n) => ParsesBack lib n
  | _ => True

theorem Synced.step (hlib : lib.Lawful) (h : Synced lib s t) {e : Event} {s' : System}
    (hallowed : e.Allowed lib s) (hparses : e.Parseable lib) (hstep : step lib s e = some s') :
    Synced lib s' (t.next e) := by
  cases e with
  | write w =>
    obtain rfl := Option.some.inj hstep
    cases w with
    | updateMember n => exact h.updateMember hlib hallowed hparses
    | removeMember n => exact h.removeMember n
    | keepAlive n second now =>
      refine h.frame ?_ ?_ rfl rfl
      · exact s.store.heartbeat_members n.string now second
      · exact s.store.heartbeat_memberVersion n.string now second
    | checkTimeout now all => exact h.frame rfl rfl rfl rfl
  | getMembers all =>
    obtain ⟨r, hr, rfl⟩ := Option.map_eq_some_iff.mp hstep
    rcases upToDate_or_newer s.store.memberVersion s.cli.memberVersion with
      hup | ⟨v, hv, hne⟩
    · rw [System.getMembers_of_upToDate hup] at hr
      obtain rfl := Option.some.inj hr
      exact (h.fetch_of_upToDate hup).1
    · rw [System.getMembers_of_newer hv hne] at hr
      obtain rfl := Option.some.inj hr
      exact h.fetch_of_newer hv hne hallowed
  | getAlives all =>
    obtain ⟨r, hr, rfl⟩ := Option.map_eq_some_iff.mp hstep
    obtain ⟨hversion, hget⟩ := System.getAlives_members hr
    exact h.frame rfl rfl hversion hget

end Step

/-! ## Whole runs -/

theorem Synced.run (hlib : lib.Lawful) {es : List Event} {s s' : System} {t : Ledger}
    (h : Synced lib s t)
    (halong : Along (Redis.step lib) (fun s e => e.Allowed lib s ∧ e.Parseable lib) s es)
    (hrun : Transition.run (Redis.step lib) s es = some s') :
    Synced lib s' (es.foldl Ledger.next t) := by
  induction es generalizing s t with
  | nil =>
    obtain rfl := Option.some.inj hrun
    exact h
  | cons e es ih =>
    cases hstep : Redis.step lib s e with
    | none => simp [Transition.run, hstep] at hrun
    | some s₁ =>
      rw [run_cons hstep] at hrun
      obtain ⟨⟨hallowed, hparses⟩, halong⟩ := halong
      exact ih (h.step hlib hallowed hparses hstep) (halong s₁ hstep) hrun

theorem Synced.liveMember {s : System} {t : Ledger} (h : Synced lib s t) (k : String) :
    s.store.liveMember lib k = t.live k := by
  unfold Store.liveMember
  cases hk : s.store.members k with
  | none => exact (h.absent k hk).1.symm
  | some text =>
    obtain ⟨_, ver, _, _, _, _, ⟨flag, info, n, rfl, hparse, _, hflag⟩, _⟩ := h.record k text hk
    rw [Option.bind_some, matchRecord_packed ver (isFlag_of_recordOf hflag)]
    rcases hflag with ⟨rfl, hlive⟩ | ⟨rfl, hlive⟩
    · exact hparse.trans hlive.symm
    · exact hlive.symm

/-- One more fetch after any run gives the members that are live in the
store, and reports what happened to the rewritten records. -/
theorem Synced.getMembers {s : System} {t : Ledger} (h : Synced lib s t)
    {all : List (String × Text)} (henum : Enumerates s.store.members all) :
    ∃ cli changes, s.getMembers lib all = some (cli, changes) ∧
      (∀ k, cli.sub.members.get k = t.live k) ∧ Lists t (MemberInfo.ofChanges changes) := by
  rcases upToDate_or_newer s.store.memberVersion s.cli.memberVersion with
      hup | ⟨v, hv, hne⟩
  · obtain ⟨hsynced, hlists⟩ := h.fetch_of_upToDate hup
    exact ⟨_, _, System.getMembers_of_upToDate hup, hsynced.fetched, hlists⟩
  · exact ⟨_, _, System.getMembers_of_newer hv hne, h.members_after henum, h.lists_after henum⟩

/-- After any interleaving of script executions and fetches, a fetch makes
the members map equal to the live members of the store with the data that
was written last, and reports exactly the addresses whose record was
rewritten since the fetch before, as added, removed or updated. -/
theorem incremental_member_sync (hlib : lib.Lawful) (es : List Event)
    (halong : Along (step lib) (fun s e => e.Allowed lib s ∧ e.Parseable lib) {} es)
    {s : System} (hrun : Transition.run (step lib) {} es = some s)
    {all : List (String × Text)} (henum : Enumerates s.store.members all) :
    ∃ cli changes, s.getMembers lib all = some (cli, changes) ∧
      (∀ k, cli.sub.members.get k = s.store.liveMember lib k) ∧
      (∀ k, s.store.liveMember lib k = (es.foldl Ledger.next {}).live k) ∧
      Lists (es.foldl Ledger.next {}) (MemberInfo.ofChanges changes) := by
  have hsynced := (synced_start lib).run hlib halong hrun
  obtain ⟨cli, changes, hget, hmembers, hlists⟩ := hsynced.getMembers henum
  refine ⟨cli, changes, hget, ?_, hsynced.liveMember, hlists⟩
  intro k
  rw [hmembers k, hsynced.liveMember k]

/-- The guest is inserted, fetched and deleted. -/
def guestEvents : List Event :=
  [.write (.updateMember guest), .getMembers [("1.2.3", packed 1 falseText guestInfo)],
    .write (.removeMember guest.addr.logicAddr)]

/-- The next fetch removes the guest and reports it. -/
theorem incremental_member_sync_guest :
    ∃ s cli changes, Transition.run (step plainLib) {} guestEvents = some s ∧
      s.getMembers plainLib [("1.2.3", packed 2 trueText guestInfo)] = some (cli, changes) ∧
      (∀ k, cli.sub.members.get k = none) ∧
      guest.addr.logicAddr ∈ (MemberInfo.ofChanges changes).remove.map (·.addr.logicAddr) := by
  have hparses : ParsesBack plainLib guest := by
    refine ⟨_, rfl, ?_⟩
    rw [parse_marshal plainLib_lawful (plainLib_prints guest) rfl]
    decide
  have hfirst : Enumerates (({} : Store).write plainLib (.updateMember guest)).members
      [("1.2.3", packed 1 falseText guestInfo)] := enumerates_update _ _
  have hguard : Along (step plainLib) (fun s e => e.Allowed plainLib s ∧ e.Parseable plainLib)
      {} guestEvents := by
    refine ⟨⟨plainLib_prints guest, hparses⟩, ?_⟩
    intro s₁ hs₁
    obtain rfl := Option.some.inj hs₁
    refine ⟨⟨hfirst, trivial⟩, ?_⟩
    intro s₂ _
    exact ⟨⟨trivial, trivial⟩, fun _ _ => trivial⟩
  have hlast : Enumerates (Function.update
      (({} : Store).write plainLib (.updateMember guest)).members "1.2.3"
        (some (packed 2 trueText guestInfo))) [("1.2.3", packed 2 trueText guestInfo)] := by
    show Enumerates (Function.update (Function.update _ "1.2.3" _) "1.2.3" _) _
    rw [Function.update_idem]
    exact enumerates_update _ _
  obtain ⟨cli, changes, hget, hmembers, hledger, hlists⟩ :=
    incremental_member_sync plainLib_lawful guestEvents hguard rfl hlast
  refine ⟨_, cli, changes, rfl, hget, ?_, (hlists.remove_iff _).mpr ?_⟩
  · intro k
    rw [hmembers, hledger]
    show Function.update (Function.update (fun _ => none) "1.2.3" (some guest)) "1.2.3" none k =
      none
    rw [Function.update_idem, Function.update_apply]
    split_ifs <;> rfl
  · decide +kernel

end ClusterGo.Redis
