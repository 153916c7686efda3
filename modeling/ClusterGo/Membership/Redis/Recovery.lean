import ClusterGo.Membership.Redis.Liveness

/-!
# Recovery from an error

After an error the watch loop of `membership/redis/subscribe.go` fetches
members and heartbeats once with the versions it has, sets both versions to
0 and fetches again.  Scripts may be executed between any two of the four
fetches.

An answer to version 0 has no deleted and no dead entries, and a fetch only
removes what is in the answer.  So the two fetches with version 0 remove
nothing, and everything depends on what the first two have heard
(`recovery_exact_iff`).
-/

namespace ClusterGo.Redis

open Transition

variable {N : Type} {lib : RecordLib N}

/-! ## Stores -/

/-- The store after some script executions. -/
def Evolves (lib : RecordLib N) : Store → Store → Prop :=
  Reach (fun store w => some (store.write lib w)) fun store w => w.Allowed lib store

/-- A store that was made by the scripts. -/
def Made (lib : RecordLib N) : Store → Prop := Evolves lib {}

/-- Every record is one that `ScriptUpdateMember` writes, and its JSON is
that of a node with the address of the field, or cannot be parsed. -/
def Recorded (lib : RecordLib N) (store : Store) : Prop :=
  ∀ k text, store.members k = some text → ∃ ver flag info, IsFlag flag ∧
    text = packed ver flag info ∧
    ∀ n, Member.parse lib info = some n → n.addr.logicAddr.string = k

/-- The record of the member is marked as deleted. -/
def Store.isDeleted (store : Store) (k : String) : Bool :=
  ((store.members k).bind matchRecord).map (·.2.1) = some trueText

theorem Recorded.write_field {store store' : Store} (h : Recorded lib store) {k : String}
    {ver : Nat} {flag info : Text} (hflag : IsFlag flag)
    (hinfo : ∀ n, Member.parse lib info = some n → n.addr.logicAddr.string = k)
    (hmembers : store'.members = Function.update store.members k (some (packed ver flag info))) :
    Recorded lib store' := by
  intro k' text hk'
  by_cases hne : k' = k
  · rw [hne, hmembers, Function.update_self] at hk'
    rw [hne]
    exact ⟨ver, flag, info, hflag, (Option.some.inj hk').symm, hinfo⟩
  · rw [hmembers, Function.update_of_ne hne] at hk'
    exact h k' text hk'

theorem Recorded.delete {store : Store} (h : Recorded lib store) (k : String) :
    Recorded lib (store.delete k) := by
  rw [Store.delete]
  dsimp only
  cases hk : store.members k with
  | none => exact h
  | some existing =>
    obtain ⟨ver, flag, info, hflag, rfl, hinfo⟩ := h k existing hk
    dsimp only
    rw [matchRecord_packed ver hflag]
    exact h.write_field (Or.inr rfl) hinfo rfl

theorem Recorded.write (hlib : lib.Lawful) {store : Store} {w : Write} (h : Recorded lib store)
    (hallowed : w.Allowed lib store) : Recorded lib (store.write lib w) := by
  cases w with
  | updateMember n =>
    obtain ⟨data, hdata⟩ := marshal_ok hlib n
    refine h.write_field (Or.inl rfl) ?_ rfl
    intro m hm
    rw [hdata] at hm
    have hm : Member.parse lib data = some m := hm
    rw [parse_marshal hlib hallowed hdata] at hm
    obtain ⟨_, hm⟩ := Option.ite_none_right_eq_some.mp hm
    rw [← Option.some.inj hm]
  | removeMember n => exact h.delete n.string
  | keepAlive n second now =>
    intro k text hk
    exact h k text (store.heartbeat_members n.string now second ▸ hk)
  | checkTimeout now all => exact h

theorem Evolves.recorded (hlib : lib.Lawful) {store store' : Store} (h : Evolves lib store store')
    (hstore : Recorded lib store) : Recorded lib store' := by
  refine Reach.invariant hstore ?_ h
  intro σ w σ' _ hσ hallowed hstep
  obtain rfl := Option.some.inj hstep
  exact hσ.write hlib hallowed

/-! ## What is heard of an address -/

/-- What the answer for `clientVer` says of an address with the given field:
that it is there, that it is marked, or nothing. -/
def heard (version : Option Nat) (field : Option Text) (readable : Text → Bool)
    (clientVer : Int) : Option Bool :=
  match version with
  | none => none
  | some serverVer =>
    if clientVer = serverVer then none
    else
      match field.bind matchRecord with
      | none => none
      | some (ver, flag, rest) =>
        if sent clientVer ver flag ∧ readable rest then some (flag ≠ trueText) else none

def Store.heardMember (lib : RecordLib N) (store : Store) (clientVer : Int) (k : String) :
    Option Bool :=
  heard store.memberVersion (store.members k) (fun info => (Member.parse lib info).isSome)
    clientVer

def Store.heardAlive (store : Store) (clientVer : Int) (k : String) : Option Bool :=
  heard store.aliveVersion (store.alive k) (fun _ => true) clientVer

def Client.holds (cli : Client) (k : String) : Bool := (cli.sub.members.get k).isSome

section Heard

variable {version : Option Nat} {field : Option Text} {readable : Text → Bool} {clientVer : Int}

theorem heard_of_upToDate (h : UpToDate version clientVer) :
    heard version field readable clientVer = none := by
  cases version with
  | none => rfl
  | some v => exact if_pos (h v rfl)

/-- Version 0 hears nothing of what is marked. -/
theorem heard_zero {flag : Text} (hflag : (field.bind matchRecord).map (·.2.1) = some flag)
    (hmarked : flag ≠ falseText) : heard version field readable 0 = none := by
  obtain ⟨⟨ver, flag', rest⟩, hmatch, rfl⟩ := Option.map_eq_some_iff.mp hflag
  unfold heard
  cases version with
  | none => rfl
  | some v =>
    dsimp only
    split_ifs
    · rfl
    · rw [hmatch]
      refine if_neg fun hsent => ?_
      rw [sent, if_pos rfl, decide_eq_true_iff] at hsent
      exact hmarked hsent.1

/-- What the loop of a fetch makes of a cell, seen through `p`, when `p` is
what a readable entry says. -/
theorem sentEntry_heard {ρ : Type} {select : String → Text → Text → ρ}
    {toEntry : ρ → Option Entry} {k : String} {c : Cell} {p : Cell → Bool}
    (hentry : ∀ flag rest, p ((toEntry (select k flag rest)).elim c fun x => x.cell c) =
      if readable rest then decide (flag ≠ trueText) else p c)
    {v : Nat} (hne : clientVer ≠ v) :
    p ((field.bind fun text => sentEntry select toEntry clientVer (k, text)).elim c
        fun x => x.cell c) =
      (heard (some v) field readable clientVer).getD (p c) := by
  rw [heard, if_neg hne]
  cases field with
  | none => rfl
  | some text =>
    rw [Option.bind_some, Option.bind_some, sentEntry]
    cases matchRecord text with
    | none => rfl
    | some m =>
      obtain ⟨ver, flag, rest⟩ := m
      dsimp only
      by_cases hsent : sent clientVer ver flag = true
      · rw [if_pos hsent, hentry]
        by_cases hread : readable rest = true
        · rw [if_pos hread, if_pos ⟨hsent, hread⟩]
          rfl
        · rw [if_neg hread, if_neg fun h => hread h.2]
          rfl
      · rw [if_neg hsent, if_neg fun h => hsent h.1]
        rfl

end Heard

variable {s : System} {all : List (String × Text)} {r : Client × List Change}

theorem Recorded.entry_key {store : Store} (h : Recorded lib store)
    (henum : Enumerates store.members all) (clientVer : Int) {f : String × Text} (hf : f ∈ all)
    {x : Entry} (hx : memberEntry lib clientVer f = some x) : x.key = f.1 := by
  obtain ⟨k, text⟩ := f
  obtain ⟨ver, flag, info, hflag, rfl, hinfo⟩ := h k text ((henum.mem_iff k text).mp hf)
  rw [memberEntry, sentEntry, matchRecord_packed ver hflag] at hx
  obtain ⟨_, hx⟩ := Option.ite_none_right_eq_some.mp hx
  unfold MemberRow.toEntry at hx
  split at hx
  · cases hx
  · rename_i n hn
    split_ifs at hx
    · rw [← Option.some.inj hx]
      exact hinfo n hn
    · rw [← Option.some.inj hx]
      exact hinfo n hn

/-- A member fetch turns what it hears of into what it holds. -/
theorem getMembers_holds (hrec : Recorded lib s.store) (henum : Enumerates s.store.members all)
    (hr : s.getMembers lib all = some r) (k : String) :
    r.1.holds k = (s.store.heardMember lib s.cli.memberVersion k).getD (s.cli.holds k) := by
  rcases upToDate_or_newer s.store.memberVersion s.cli.memberVersion with hup | ⟨v, hv, hne⟩
  · rw [System.getMembers_of_upToDate hup] at hr
    rw [Store.heardMember, heard_of_upToDate hup, ← Option.some.inj hr]
    rfl
  · rw [System.getMembers_of_newer hv hne] at hr
    have hcell := handleAll_cell henum
      (fun _ hf _ hx => hrec.entry_key henum s.cli.memberVersion hf hx) s.cli.sub k
    obtain rfl := Option.some.inj hr
    refine (congrArg (fun c : Cell => c.1.isSome) hcell).trans ?_
    rw [Store.heardMember, hv]
    refine sentEntry_heard (p := fun c => c.1.isSome) ?_ hne
    intro flag info
    dsimp only [MemberRow.toEntry]
    cases Member.parse lib info with
    | none => rfl
    | some n =>
      by_cases hflag : flag = trueText
      · rw [hflag]
        rfl
      · simp only [if_neg hflag, decide_eq_true hflag]
        rfl

theorem getAlives_alive (henum : Enumerates s.store.alive all)
    (hr : s.getAlives all = some r) (k : String) :
    r.1.sub.alive k = (s.store.heardAlive s.cli.aliveVersion k).getD (s.cli.sub.alive k) := by
  rcases upToDate_or_newer s.store.aliveVersion s.cli.aliveVersion with hup | ⟨v, hv, hne⟩
  · rw [System.getAlives_of_upToDate hup] at hr
    rw [Store.heardAlive, heard_of_upToDate hup, ← Option.some.inj hr]
    rfl
  · rw [System.getAlives_of_newer hv hne] at hr
    have hcell := handleAll_aliveEntry henum s.cli.aliveVersion s.cli.sub k
    obtain rfl := Option.some.inj hr
    refine (congrArg Prod.snd hcell).trans ?_
    rw [Store.heardAlive, hv]
    refine sentEntry_heard (p := Prod.snd) ?_ hne
    intro flag rest
    dsimp only [AliveRow.toEntry]
    by_cases hflag : flag = trueText
    · rw [if_pos hflag, hflag]
      rfl
    · rw [if_neg hflag, decide_eq_true hflag]
      rfl

/-! ## The recovery -/

/-- The stores of the four fetches and what `HGETALL` gives there. -/
structure Recovery where
  store₁ : Store
  all₁ : List (String × Text)
  store₂ : Store
  all₂ : List (String × Text)
  store₃ : Store
  all₃ : List (String × Text)
  store₄ : Store
  all₄ : List (String × Text)

structure Recovery.Valid (lib : RecordLib N) (r : Recovery) : Prop where
  made : Made lib r.store₁
  evolves₁ : Evolves lib r.store₁ r.store₂
  evolves₂ : Evolves lib r.store₂ r.store₃
  evolves₃ : Evolves lib r.store₃ r.store₄
  members₁ : Enumerates r.store₁.members r.all₁
  alives₂ : Enumerates r.store₂.alive r.all₂
  members₃ : Enumerates r.store₃.members r.all₃
  alives₄ : Enumerates r.store₄.alive r.all₄

/-- The branch of the watch loop after an error. -/
def Client.recover (lib : RecordLib N) (cli : Client) (r : Recovery) : Option Client := do
  let (cli, _) ← System.getMembers lib { store := r.store₁, cli } r.all₁
  let (cli, _) ← System.getAlives { store := r.store₂, cli } r.all₂
  let cli := { cli with memberVersion := 0, aliveVersion := 0 }
  let (cli, _) ← System.getMembers lib { store := r.store₃, cli } r.all₃
  let (cli, _) ← System.getAlives { store := r.store₄, cli } r.all₄
  return cli

/-- The subscriber holds nothing that is deleted or dead. -/
structure Recovered (r : Recovery) (cli : Client) : Prop where
  members : ∀ k, cli.holds k = true → r.store₃.isDeleted k = false
  alive : ∀ k, cli.sub.alive k = true → r.store₄.isDead k = false

/-- What is marked at the last fetch was heard to be marked at the first
one, or was unknown and not heard of. -/
structure MarkedBefore (lib : RecordLib N) (r : Recovery) (cli : Client) : Prop where
  members : ∀ k, r.store₃.isDeleted k = true →
    r.store₁.heardMember lib cli.memberVersion k = some false ∨
      r.store₁.heardMember lib cli.memberVersion k = none ∧ cli.holds k = false
  alive : ∀ k, r.store₄.isDead k = true →
    r.store₂.heardAlive cli.aliveVersion k = some false ∨
      r.store₂.heardAlive cli.aliveVersion k = none ∧ cli.sub.alive k = false

theorem getD_eq_false {heard : Option Bool} {held : Bool} :
    heard.getD held = false ↔ heard = some false ∨ heard = none ∧ held = false := by
  cases heard <;> simp

/-- The members and the alive addresses after a recovery. -/
theorem recover_spec (hlib : lib.Lawful) {r : Recovery} (h : r.Valid lib) (cli : Client) :
    ∃ cli', cli.recover lib r = some cli' ∧
      (∀ k, r.store₃.isDeleted k = true → cli'.holds k =
        (r.store₁.heardMember lib cli.memberVersion k).getD (cli.holds k)) ∧
      ∀ k, r.store₄.isDead k = true → cli'.sub.alive k =
        (r.store₂.heardAlive cli.aliveVersion k).getD (cli.sub.alive k) := by
  have hrec₁ : Recorded lib r.store₁ := h.made.recorded hlib fun _ _ hk => by cases hk
  have hrec₃ := h.evolves₂.recorded hlib (h.evolves₁.recorded hlib hrec₁)
  obtain ⟨⟨cli₁, cs₁⟩, h₁⟩ := System.getMembers_isSome lib { store := r.store₁, cli } r.all₁
  obtain ⟨⟨cli₂, cs₂⟩, h₂⟩ := System.getAlives_isSome { store := r.store₂, cli := cli₁ } r.all₂
  obtain ⟨⟨cli₃, cs₃⟩, h₃⟩ := System.getMembers_isSome lib
    { store := r.store₃, cli := { cli₂ with memberVersion := 0, aliveVersion := 0 } } r.all₃
  obtain ⟨⟨cli₄, cs₄⟩, h₄⟩ := System.getAlives_isSome { store := r.store₄, cli := cli₃ } r.all₄
  refine ⟨cli₄, ?_, ?_, ?_⟩
  · simp only [Client.recover, h₁, h₂, h₃, h₄, Option.bind_eq_bind, Option.bind_some]
    rfl
  · intro k hk
    have hstay₂ : cli₂.holds k = cli₁.holds k := by
      rw [Client.holds, (System.getAlives_members h₂).2, Client.holds]
    have hstay₄ : cli₄.holds k = cli₃.holds k := by
      rw [Client.holds, (System.getAlives_members h₄).2, Client.holds]
    have hunheard : r.store₃.heardMember lib 0 k = none :=
      heard_zero (decide_eq_true_iff.mp hk) (by decide)
    rw [hstay₄, getMembers_holds hrec₃ h.members₃ h₃ k, hunheard]
    exact hstay₂.trans (getMembers_holds hrec₁ h.members₁ h₁ k)
  · intro k hk
    obtain ⟨hversion₁, halive₁⟩ := System.getMembers_alive h₁
    obtain ⟨hversion₃, halive₃⟩ := System.getMembers_alive h₃
    have hunheard : r.store₄.heardAlive cli₃.aliveVersion k = none := by
      rw [hversion₃]
      exact heard_zero ((r.store₄.isDead_iff k).mp hk) (by decide)
    rw [getAlives_alive h.alives₄ h₄ k, hunheard, Option.getD_none, halive₃]
    rw [← hversion₁, ← halive₁]
    exact getAlives_alive h.alives₂ h₂ k

/-- After a recovery the subscriber holds no member that is deleted at the
last member fetch and no alive address that is dead at the last heartbeat
fetch, if and only if what is marked there was heard to be marked at the
first fetch, or was neither known nor heard of. -/
theorem recovery_exact_iff (hlib : lib.Lawful) (cli : Client) (r : Recovery) (h : r.Valid lib) :
    ∃ cli', cli.recover lib r = some cli' ∧ (Recovered r cli' ↔ MarkedBefore lib r cli) := by
  obtain ⟨cli', hrecover, hmembers, halive⟩ := recover_spec hlib h cli
  refine ⟨cli', hrecover, ?_⟩
  constructor
  · intro hdone
    refine ⟨?_, ?_⟩
    · intro k hk
      rw [← getD_eq_false, ← hmembers k hk]
      by_contra hholds
      rw [hdone.members k (Bool.not_eq_false _ ▸ hholds)] at hk
      cases hk
    · intro k hk
      rw [← getD_eq_false, ← halive k hk]
      by_contra hholds
      rw [hdone.alive k (Bool.not_eq_false _ ▸ hholds)] at hk
      cases hk
  · intro hmarked
    refine ⟨?_, ?_⟩
    · intro k hholds
      by_contra hk
      have hk : r.store₃.isDeleted k = true := Bool.not_eq_false _ ▸ hk
      rw [hmembers k hk, getD_eq_false.mpr (hmarked.members k hk)] at hholds
      cases hholds
    · intro k hholds
      by_contra hk
      have hk : r.store₄.isDead k = true := Bool.not_eq_false _ ▸ hk
      rw [halive k hk, getD_eq_false.mpr (hmarked.alive k hk)] at hholds
      cases hholds

/-- The guest is in the store. -/
def guestStore : Store := ({} : Store).write plainLib (.updateMember guest)

theorem guestStore_made : Made plainLib guestStore :=
  Reach.next .start (e := .updateMember guest) (plainLib_prints guest) rfl

theorem guestStore_members :
    Enumerates guestStore.members [("1.2.3", packed 1 falseText guestInfo)] :=
  enumerates_update _ _

/-- The guest has been removed. -/
def leftStore : Store := guestStore.write plainLib (.removeMember guest.addr.logicAddr)

theorem leftStore_evolves : Evolves plainLib guestStore leftStore :=
  Reach.next .start (e := .removeMember guest.addr.logicAddr) trivial rfl

theorem leftStore_members :
    Enumerates leftStore.members [("1.2.3", packed 2 trueText guestInfo)] := by
  show Enumerates (Function.update (Function.update (fun _ => none) "1.2.3" _) "1.2.3" _) _
  rw [Function.update_idem]
  exact enumerates_update _ _

/-- A subscriber that has fetched the members while the guest was there. -/
def knowsGuest : Client :=
  ((System.getMembers plainLib { store := guestStore, cli := {} }
    [("1.2.3", packed 1 falseText guestInfo)]).map Prod.fst).getD {}

/-- The guest has left before the recovery, and nothing happens during it. -/
def guestGone : Recovery where
  store₁ := leftStore
  all₁ := [("1.2.3", packed 2 trueText guestInfo)]
  store₂ := leftStore
  all₂ := []
  store₃ := leftStore
  all₃ := [("1.2.3", packed 2 trueText guestInfo)]
  store₄ := leftStore
  all₄ := []

/-- The first fetch announces the deletion. -/
theorem recovery_exact_guestGone :
    ∃ cli', knowsGuest.recover plainLib guestGone = some cli' ∧
      knowsGuest.holds "1.2.3" = true ∧ guestGone.store₃.isDeleted "1.2.3" = true ∧
      Recovered guestGone cli' ∧ cli'.holds "1.2.3" = false := by
  have hvalid : guestGone.Valid plainLib :=
    ⟨guestStore_made.trans leftStore_evolves, .start, .start, .start, leftStore_members,
      enumerates_empty, leftStore_members, enumerates_empty⟩
  have hdeleted : guestGone.store₃.isDeleted "1.2.3" = true := by decide +kernel
  obtain ⟨cli', hrecover, hiff⟩ := recovery_exact_iff plainLib_lawful knowsGuest guestGone hvalid
  have hdone : Recovered guestGone cli' := by
    refine hiff.mpr ⟨?_, ?_⟩
    · intro k hk
      by_cases hne : k = "1.2.3"
      · rw [hne]
        exact Or.inl (by decide +kernel)
      · have hnone : leftStore.members k = none :=
          (Function.update_of_ne hne ..).trans (Function.update_of_ne hne ..)
        rw [show guestGone.store₃ = leftStore from rfl, Store.isDeleted, hnone] at hk
        cases hk
    · intro k hk
      cases hk
  refine ⟨cli', hrecover, by decide +kernel, hdeleted, hdone, ?_⟩
  by_contra hholds
  rw [hdone.members "1.2.3" (Bool.not_eq_false _ ▸ hholds)] at hdeleted
  cases hdeleted

/-- The guest leaves between the two member fetches. -/
def guestLeaves : Recovery where
  store₁ := guestStore
  all₁ := [("1.2.3", packed 1 falseText guestInfo)]
  store₂ := guestStore
  all₂ := []
  store₃ := leftStore
  all₃ := [("1.2.3", packed 2 trueText guestInfo)]
  store₄ := leftStore
  all₄ := []

/-- The deleted guest stays a member. -/
theorem guestLeaves_held :
    guestLeaves.Valid plainLib ∧
      ∃ cli', ({} : Client).recover plainLib guestLeaves = some cli' ∧
        guestLeaves.store₃.isDeleted "1.2.3" = true ∧ cli'.holds "1.2.3" = true := by
  exact ⟨⟨guestStore_made, .start, leftStore_evolves, .start, guestStore_members,
    enumerates_empty, leftStore_members, enumerates_empty⟩, _, rfl, by decide +kernel,
    by decide +kernel⟩

end ClusterGo.Redis
