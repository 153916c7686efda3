import ClusterGo.Lib.Transition
import ClusterGo.Membership.Natsjet
import ClusterGo.Membership.Redis.Script
import ClusterGo.Membership.Report

/-!
# The subscriber is told the truth

The `MemberInfo` values that a backend passes to its callback, folded one
after the other from nothing, are always applicable and give the members of
the backend with their joined availability.

`report` lets any backend run and collects what is passed to the callback.
When every call explains what it does (`Explains`), the reports are coherent
(`report_coherent`).  The redis and the natsjet backend are two cases of it.
-/

namespace ClusterGo

open Transition

/-- The `MemberInfo` values of a run, folded one after the other. -/
def foldAll (infos : List MemberInfo) (view : LogicAddr → Option Member) :
    Option (LogicAddr → Option Member) :=
  infos.foldlM (fun view info => info.foldOver view) view

section Report

variable {σ ε : Type} (call : σ → ε → Option (σ × List Change)) (sub : σ → Subscriber)

/-- One call of a backend, with what was passed to the callback so far. -/
def report (r : σ × List MemberInfo) (e : ε) : Option (σ × List MemberInfo) :=
  (call r.1 e).map fun (s, changes) => (s, r.2 ++ (MemberInfo.ofChanges changes).callback)

variable {call}

theorem foldAll_append (infos infos' : List MemberInfo) (view : LogicAddr → Option Member) :
    foldAll (infos ++ infos') view = (foldAll infos view).bind (foldAll infos') :=
  List.foldlM_append ..

/-- What is not passed to the callback would change nothing. -/
theorem foldAll_callback (info : MemberInfo) (view : LogicAddr → Option Member) :
    foldAll info.callback view = info.foldOver view := by
  rcases callback_cases info with ⟨hnil, hchanges⟩ | hone
  · rw [hnil, MemberInfo.foldOver, hchanges]
    rfl
  · rw [hone]
    show (info.foldOver view).bind _ = _
    cases info.foldOver view <;> rfl

theorem report_coherent {guard : σ × List MemberInfo → ε → Prop}
    (hexplains : ∀ r e s changes, guard r e → call r.1 e = some (s, changes) →
      Explains (sub r.1) (sub s) changes)
    {s₀ : σ} (hstart : ∀ a, (sub s₀).view a = none) {es : List ε}
    (halong : Along (report call) guard (s₀, []) es) {s : σ} {infos : List MemberInfo}
    (hrun : Transition.run (report call) (s₀, []) es = some (s, infos)) :
    foldAll infos (fun _ => none) = some (sub s).view := by
  have hinv : Reach (report call) guard (s₀, []) (s, infos) := Reach.of_along .start halong hrun
  refine Reach.invariant (P := fun r => foldAll r.2 (fun _ => none) = some (sub r.1).view)
    ?_ ?_ hinv
  · rw [funext hstart]
    rfl
  · intro r e t _ hr hguard hstep
    obtain ⟨⟨s', changes⟩, hcall, rfl⟩ := Option.map_eq_some_iff.mp hstep
    show foldAll (r.2 ++ _) _ = _
    rw [foldAll_append, hr, Option.bind_some, foldAll_callback]
    exact (hexplains r e s' changes hguard hcall).foldOver

end Report

theorem explains_refl (s : Subscriber) : Explains s s [] where
  distinct := List.nodup_nil
  moves := fun _ hx => absurd hx List.not_mem_nil
  rest := fun _ _ => rfl

/-! ## The redis backend -/

namespace Redis

variable {N : Type}

/-- A fetch with its answer, or a fetch that fails. -/
inductive Fetch where
  | getMembers (reply : Reply MemberRow)
  | getAlives (reply : Reply AliveRow)
  | failed

def Client.call (lib : RecordLib N) (cli : Client) : Fetch → Option (Client × List Change)
  | .getMembers reply => cli.getMembers lib reply
  | .getAlives reply => cli.getAlives reply
  | .failed => some (cli, [])

/-- The records of an answer have distinct logic addresses. -/
def Fetch.Distinct (lib : RecordLib N) : Fetch → Prop
  | .getMembers reply =>
    ((reply.nodes.getD []).filterMap fun row =>
      (MemberRow.toEntry lib row).map Entry.key).Nodup
  | .getAlives reply =>
    ((reply.nodes.getD []).filterMap fun row => (AliveRow.toEntry row).map Entry.key).Nodup
  | .failed => True

theorem call_explains {lib : RecordLib N} {cli cli' : Client} {f : Fetch}
    {changes : List Change} (hdistinct : f.Distinct lib)
    (hcall : cli.call lib f = some (cli', changes)) : Explains cli.sub cli'.sub changes := by
  cases f with
  | getMembers reply =>
    rw [Client.call, Client.getMembers] at hcall
    split_ifs at hcall with hversion
    · obtain ⟨rfl, rfl⟩ := Prod.mk.inj (Option.some.inj hcall)
      exact explains_refl cli.sub
    · cases hnodes : reply.nodes with
      | none =>
        rw [hnodes] at hcall
        cases hcall
      | some rows =>
        rw [Fetch.Distinct, hnodes] at hdistinct
        rw [hnodes] at hcall
        obtain ⟨rfl, rfl⟩ := Prod.mk.inj (Option.some.inj hcall)
        exact Subscriber.handleAll_explains hdistinct cli.sub
  | getAlives reply =>
    rw [Client.call, Client.getAlives] at hcall
    split_ifs at hcall with hversion
    · obtain ⟨rfl, rfl⟩ := Prod.mk.inj (Option.some.inj hcall)
      exact explains_refl cli.sub
    · cases hnodes : reply.nodes with
      | none =>
        rw [hnodes] at hcall
        cases hcall
      | some rows =>
        rw [Fetch.Distinct, hnodes] at hdistinct
        rw [hnodes] at hcall
        obtain ⟨rfl, rfl⟩ := Prod.mk.inj (Option.some.inj hcall)
        exact Subscriber.handleAll_explains hdistinct cli.sub
  | failed =>
    obtain ⟨rfl, rfl⟩ := Prod.mk.inj (Option.some.inj hcall)
    exact explains_refl cli.sub

end Redis

/-! ## The natsjet backend -/

namespace Natsjet

variable {N : Type}

/-- A call of the backend, with what it gets from the store and the orders
in which it ranges over its maps. -/
inductive Call where
  | getMembers (listing : Listing) (get : String → Option Text) (oldKeys newKeys : List String)
  | getAlives (listing : Listing) (oldKeys newKeys : List String)
  | configEntry (entry : Option KeyValueEntry)
  | aliveEntry (entry : Option KeyValueEntry)

def call (lib : RecordLib N) (s : Subscriber) : Call → Subscriber × List Change
  | .getMembers listing get oldKeys newKeys =>
    (getMembers lib s listing get oldKeys newKeys).getD (s, [])
  | .getAlives listing oldKeys newKeys => (getAlives s listing oldKeys newKeys).getD (s, [])
  | .configEntry entry => handleConfigEntry lib s entry
  | .aliveEntry entry => handleAliveEntry s entry

/-- The orders are orders of the maps. -/
def Call.Ranging (lib : RecordLib N) (s : Subscriber) : Call → Prop
  | .getMembers listing get oldKeys newKeys =>
    ∀ keys, listing.toKeys = some keys →
      Ranges (fun k => (s.members.get k).isSome) oldKeys ∧
      Ranges (fun k => ((Members.read lib (keys.filterMap get)).get k).isSome) newKeys
  | .getAlives listing oldKeys newKeys =>
    ∀ keys, listing.toKeys = some keys →
      Ranges (fun k => s.alive k = true) oldKeys ∧ Ranges (fun k => k ∈ keys) newKeys
  | .configEntry _ | .aliveEntry _ => True

/-- One entry is about one address. -/
theorem explains_one {ε : Type} (toEntry : ε → Option Entry) (s : Subscriber) (e : ε) :
    Explains s (s.handleAll toEntry [e]).1 (s.handleAll toEntry [e]).2 := by
  refine Subscriber.handleAll_explains ?_ s
  cases hx : toEntry e with
  | none =>
    rw [List.filterMap_cons_none (by rw [hx]; rfl)]
    exact List.nodup_nil
  | some x =>
    rw [List.filterMap_cons_some (by rw [hx]; rfl)]
    exact List.nodup_singleton x.key

theorem call_explains {lib : RecordLib N} {s : Subscriber} {c : Call} (h : c.Ranging lib s) :
    Explains s (call lib s c).1 (call lib s c).2 := by
  cases c with
  | getMembers listing get oldKeys newKeys =>
    rw [call, getMembers]
    cases hkeys : listing.toKeys with
    | none => exact explains_refl s
    | some keys =>
      obtain ⟨hold, hnew⟩ := h keys hkeys
      exact Subscriber.takeMembers_explains (fun _ _ => rfl) hold hnew
  | getAlives listing oldKeys newKeys =>
    rw [call, getAlives]
    cases hkeys : listing.toKeys with
    | none => exact explains_refl s
    | some keys =>
      obtain ⟨hold, hnew⟩ := h keys hkeys
      refine Subscriber.takeAlives_explains hold ⟨hnew.nodup, ?_⟩
      intro k
      rw [hnew.mem_iff k, decide_eq_true_iff]
  | configEntry entry => exact explains_one (configEntry lib) s entry
  | aliveEntry entry => exact explains_one aliveEntry s entry

end Natsjet

/-! ## Both backends -/

/-- From the first call on, whatever the stores answer, the reports of the
redis backend and those of the natsjet backend can be folded and give the
members of the backend, available if and only if they are alive and their
record says so. -/
theorem reports_coherent {N : Type} (lib : RecordLib N) :
    (∀ (fetches : List Redis.Fetch) (cli : Redis.Client) (infos : List MemberInfo),
      (∀ f ∈ fetches, f.Distinct lib) →
      Transition.run (report (Redis.Client.call lib)) ({}, []) fetches = some (cli, infos) →
      foldAll infos (fun _ => none) = some cli.sub.view) ∧
    (∀ (calls : List Natsjet.Call) (s : Subscriber) (infos : List MemberInfo),
      Along (report fun s c => some (Natsjet.call lib s c)) (fun r c => c.Ranging lib r.1)
        ({}, []) calls →
      Transition.run (report fun s c => some (Natsjet.call lib s c)) ({}, []) calls =
        some (s, infos) →
      foldAll infos (fun _ => none) = some s.view) := by
  refine ⟨?_, ?_⟩
  · intro fetches cli infos hdistinct hrun
    have halong : Along (report (Redis.Client.call lib)) (fun _ f => f.Distinct lib) ({}, [])
        fetches := Along.of_forall fun f hf _ => hdistinct f hf
    refine report_coherent Redis.Client.sub ?_ (fun _ => rfl) halong hrun
    intro r f cli' changes hf hcall
    exact Redis.call_explains hf hcall
  · intro calls s infos hranging hrun
    refine report_coherent id ?_ (fun _ => rfl) hranging hrun
    intro r c s' changes hc hcall
    have hexplains := Natsjet.call_explains hc
    rw [Option.some.inj hcall] at hexplains
    exact hexplains

/-- The guest joins and is alive. -/
def guestFetches : List Redis.Fetch :=
  [.getMembers { version := 1, nodes := some [⟨"1.2.3", guestInfo, Redis.falseText⟩] },
    .getAlives { version := 1, nodes := some [⟨"1.2.3", Redis.falseText⟩] }]

def guestCalls : List Natsjet.Call :=
  [.configEntry (some ⟨"1.2.3", guestInfo, .put⟩), .aliveEntry (some ⟨"1.2.3", ['1'], .put⟩)]

theorem reports_coherent_guest :
    (∃ cli infos, Transition.run (report (Redis.Client.call plainLib)) ({}, []) guestFetches =
        some (cli, infos) ∧ infos.length = 2 ∧
      foldAll infos (fun _ => none) = some cli.sub.view ∧
      cli.sub.view guest.addr.logicAddr = some guest) ∧
    (∃ s infos, Transition.run (report fun s c => some (Natsjet.call plainLib s c)) ({}, [])
        guestCalls = some (s, infos) ∧ infos.length = 2 ∧
      foldAll infos (fun _ => none) = some s.view ∧
      s.view guest.addr.logicAddr = some guest) := by
  obtain ⟨hredis, hnatsjet⟩ := reports_coherent plainLib
  refine ⟨⟨_, _, rfl, by decide +kernel, hredis guestFetches _ _ ?_ rfl, by decide +kernel⟩,
    ⟨_, _, rfl, by decide +kernel, hnatsjet guestCalls _ _ ?_ rfl, by decide +kernel⟩⟩
  · simp only [guestFetches, List.forall_mem_cons, Redis.Fetch.Distinct]
    exact ⟨by decide +kernel, by decide +kernel, fun _ hf => absurd hf List.not_mem_nil⟩
  · exact ⟨trivial, fun _ _ => ⟨trivial, fun _ _ => trivial⟩⟩

end ClusterGo
