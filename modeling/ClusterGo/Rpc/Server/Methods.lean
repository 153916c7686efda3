import ClusterGo.Rpc.Server.Replyer

/-!
# Which method serves a request

`Register`, `UnRegister` and `Stop` of `rpc/server.go`, and `OnMessage` up to
the call of the method.  The first two hold the lock of the server, so each is
one event.  `OnMessage` tests `stoped` and then looks the method up, and both
are events of their own.  From there on it has the method in hand, whatever
happens to the table.

The table is what the history says: the method of a name is that of the first
`Register` behind the last `UnRegister` of the name, because a second one is
refused.  `requests_follow_history` puts a request in its place in the history.
-/

namespace ClusterGo.Rpc.Server.Methods

open Transition

variable {H : Type}

/-! ## The server -/

/-- `Server.methods`. -/
abbrev Table (H : Type) := Bytes → Option H

/-- `Server.Register`: the table behind it, or the text of the error. -/
def register (methods : Table H) (name : Bytes) (method : H) : Except Bytes (Table H) :=
  if name = [] then .error (text "RegisterMethod nams is nil")
  else if (methods name).isSome then .error (text "duplicate method:" ++ name)
  else .ok (Function.update methods name (some method))

/-- `Server.UnRegister`. -/
def unRegister (methods : Table H) (name : Bytes) : Table H := Function.update methods name none

/-- Where `OnMessage` stands: before the test of `stoped`, before the lookup,
at the report of a failure, or at the call of the method. -/
inductive Pc (H : Type) where
  | received
  | checked
  | failed (failure : Failure)
  | serving (method : H)

structure Request (H : Type) where
  name : Bytes
  pc : Pc H := .received

structure State (H : Type) where
  methods : Table H := fun _ => none
  stoped : Bool := false
  requests : List (Request H) := []

inductive Event (H : Type) where
  | register (name : Bytes) (method : H)
  | unRegister (name : Bytes)
  | stop
  | receive (name : Bytes)
  | check (i : Nat)
  | lookup (i : Nat)

/-- One access of `OnMessage`. -/
def Request.check (r : Request H) (stoped : Bool) : Option (Request H) :=
  match r.pc with
  | .received => some { r with pc := if stoped then .failed .stoped else .checked }
  | _ => none

/-- The lookup of the method. -/
def Request.lookup (r : Request H) (methods : Table H) : Option (Request H) :=
  match r.pc with
  | .checked =>
    match methods r.name with
    | none => some { r with pc := .failed .noMethod }
    | some method => some { r with pc := .serving method }
  | _ => none

def step (s : State H) : Event H → Option (State H)
  | .register name method =>
    match register s.methods name method with
    | .ok methods => some { s with methods }
    | .error _ => some s
  | .unRegister name => some { s with methods := unRegister s.methods name }
  | .stop => some { s with stoped := true }
  | .receive name => some { s with requests := s.requests ++ [{ name }] }
  | .check i =>
    (s.requests[i]?).bind fun r =>
      (r.check s.stoped).map fun r => { s with requests := s.requests.set i r }
  | .lookup i =>
    (s.requests[i]?).bind fun r =>
      (r.lookup s.methods).map fun r => { s with requests := s.requests.set i r }

/-! ## The history -/

def Event.removes (name : Bytes) : Event H → Bool
  | .unRegister n => n == name
  | _ => false

/-- What the event registers for a name.  The empty name is refused. -/
def Event.registers (name : Bytes) : Event H → Option H
  | .register n method => if n = name ∧ n ≠ [] then some method else none
  | _ => none

/-- The events behind the last `UnRegister` of a name. -/
def since (name : Bytes) (es : List (Event H)) : List (Event H) :=
  (es.reverse.takeWhile fun e => !e.removes name).reverse

/-- The first registration behind the last `UnRegister`. -/
def registered (name : Bytes) (es : List (Event H)) : Option H :=
  (since name es).findSome? (Event.registers name)

theorem since_concat (name : Bytes) (es : List (Event H)) (e : Event H) :
    since name (es ++ [e]) = if e.removes name then [] else since name es ++ [e] := by
  unfold since
  rw [List.reverse_append, List.reverse_singleton, List.singleton_append, List.takeWhile_cons]
  cases e.removes name with
  | true => rfl
  | false => exact List.reverse_cons

theorem registered_concat (name : Bytes) (es : List (Event H)) (e : Event H) :
    registered name (es ++ [e]) =
      if e.removes name then none else (registered name es).or (e.registers name) := by
  unfold registered
  rw [since_concat]
  split_ifs
  · rfl
  · rw [List.findSome?_append, List.findSome?_singleton]

/-- An event that does not touch the table. -/
theorem registered_skip {name : Bytes} {e : Event H} (es : List (Event H))
    (hremoves : e.removes name = false) (hregisters : e.registers name = none) :
    registered name (es ++ [e]) = registered name es := by
  rw [registered_concat, hremoves, hregisters, Option.or_none]
  rfl

/-- The request passed the test of `stoped` before the call of `Stop`. -/
def Passed (es : List (Event H)) (i : Nat) : Prop :=
  ∃ before after, es = before ++ .check i :: after ∧ .stop ∉ before

/-- What the history says of a request that stands where it does. -/
def Placed (es : List (Event H)) (i : Nat) (r : Request H) : Prop :=
  match r.pc with
  | .received => True
  | .checked => Passed es i
  | .failed .stoped => ∃ before after, es = before ++ .check i :: after ∧ .stop ∈ before
  | .failed .noMethod => ∃ before after, es = before ++ .lookup i :: after ∧ Passed before i ∧
      registered r.name before = none
  | .failed _ => False
  | .serving method => ∃ before after, es = before ++ .lookup i :: after ∧ Passed before i ∧
      registered r.name before = some method

theorem Passed.append {es : List (Event H)} {i : Nat} (h : Passed es i) (fs : List (Event H)) :
    Passed (es ++ fs) i := by
  obtain ⟨before, after, rfl, hstop⟩ := h
  exact ⟨before, after ++ fs, by simp, hstop⟩

theorem Placed.append {es : List (Event H)} {i : Nat} {r : Request H} (h : Placed es i r)
    (fs : List (Event H)) : Placed (es ++ fs) i r := by
  unfold Placed at h ⊢
  split at h
  · trivial
  · exact h.append fs
  · obtain ⟨before, after, rfl, hstop⟩ := h
    exact ⟨before, after ++ fs, by simp, hstop⟩
  · obtain ⟨before, after, rfl, hfound⟩ := h
    exact ⟨before, after ++ fs, by simp, hfound⟩
  · exact h.elim
  · obtain ⟨before, after, rfl, hfound⟩ := h
    exact ⟨before, after ++ fs, by simp, hfound⟩

/-! ## Runs -/

/-- The state is what the history says. -/
structure Explained (es : List (Event H)) (s : State H) : Prop where
  methods : ∀ name, s.methods name = registered name es
  stoped : s.stoped = true ↔ .stop ∈ es
  requests : ∀ i r, s.requests[i]? = some r → Placed es i r

variable {es : List (Event H)} {s t : State H} {e : Event H}

theorem methods_of_register (h : ∀ name, s.methods name = registered name es) (name : Bytes)
    (method : H) (hstep : step s (.register name method) = some t) (n : Bytes) :
    t.methods n = registered n (es ++ [.register name method]) := by
  have hconcat := registered_concat n es (.register name method)
  simp only [Event.removes, Bool.false_eq_true, if_false, Event.registers] at hconcat
  rw [hconcat]
  simp only [step, register] at hstep
  split_ifs at hstep with hempty hdup <;> cases hstep
  · rw [h n, if_neg (by simp [hempty]), Option.or_none]
  · rw [h n]
    split_ifs with hname
    · rw [← hname.1, ← h name]
      exact (Option.or_eq_left_of_isSome hdup).symm
    · rw [Option.or_none]
  · show Function.update s.methods name (some method) n = _
    by_cases hn : n = name
    · rw [hn, Function.update_self, if_pos ⟨rfl, hempty⟩, ← h name]
      rw [Option.not_isSome_iff_eq_none.mp hdup]
      rfl
    · rw [Function.update_of_ne hn, h n, if_neg (fun hname => hn hname.1.symm), Option.or_none]

theorem methods_of_unRegister (h : ∀ name, s.methods name = registered name es) (name n : Bytes) :
    unRegister s.methods name n = registered n (es ++ [.unRegister name]) := by
  rw [registered_concat, unRegister]
  by_cases hn : n = name
  · rw [hn, Function.update_self]
    exact (if_pos (beq_self_eq_true name)).symm
  · rw [Function.update_of_ne hn, h n, if_neg (by simpa [Event.removes] using Ne.symm hn)]
    exact (Option.or_none).symm

/-- The table and `stoped` stay, and one request moves. -/
theorem Explained.move (h : Explained es s) {i : Nat} {r : Request H}
    (hmethods : ∀ name, e.removes name = false ∧ e.registers name = none) (hstop : .stop ≠ e)
    (hplaced : Placed (es ++ [e]) i r) :
    Explained (es ++ [e]) { s with requests := s.requests.set i r } := by
  refine ⟨fun name => ?_, ?_, fun j r' hj => ?_⟩
  · rw [registered_skip es (hmethods name).1 (hmethods name).2]
    exact h.methods name
  · rw [List.mem_append, List.mem_singleton, or_iff_left hstop]
    exact h.stoped
  · rw [List.getElem?_set] at hj
    split_ifs at hj with hij hlen
    · rw [← hij, ← Option.some.inj hj]
      exact hplaced
    · exact (h.requests j r' hj).append [e]

/-- The test of `stoped`. -/
theorem Explained.check (h : Explained es s) {i : Nat} (hstep : step s (.check i) = some t) :
    Explained (es ++ [.check i]) t := by
  simp only [step, Option.bind_eq_some_iff, Option.map_eq_some_iff, Request.check] at hstep
  obtain ⟨r, _, r', hcheck, rfl⟩ := hstep
  split at hcheck
  · cases hcheck
    refine h.move (fun _ => ⟨rfl, rfl⟩) (by simp) ?_
    cases hstoped : s.stoped with
    | true => exact ⟨es, [], rfl, h.stoped.mp hstoped⟩
    | false => exact ⟨es, [], rfl, fun hmem => by simp [h.stoped.mpr hmem] at hstoped⟩
  · cases hcheck

/-- The lookup. -/
theorem Explained.lookup (h : Explained es s) {i : Nat} (hstep : step s (.lookup i) = some t) :
    Explained (es ++ [.lookup i]) t := by
  simp only [step, Option.bind_eq_some_iff, Option.map_eq_some_iff, Request.lookup] at hstep
  obtain ⟨r, hr, r', hlookup, rfl⟩ := hstep
  split at hlookup
  · rename_i hpc
    have hpassed : Passed es i := by
      have hplaced := h.requests i r hr
      rw [Placed, hpc] at hplaced
      exact hplaced
    split at hlookup
    · rename_i hnone
      cases hlookup
      exact h.move (fun _ => ⟨rfl, rfl⟩) (by simp)
        ⟨es, [], rfl, hpassed, (h.methods r.name).symm.trans hnone⟩
    · rename_i method hsome
      cases hlookup
      exact h.move (fun _ => ⟨rfl, rfl⟩) (by simp)
        ⟨es, [], rfl, hpassed, (h.methods r.name).symm.trans hsome⟩
  · cases hlookup

theorem Explained.step (h : Explained es s) (hstep : step s e = some t) :
    Explained (es ++ [e]) t := by
  have hrequests : ∀ i r, s.requests[i]? = some r → Placed (es ++ [e]) i r :=
    fun i r hr => (h.requests i r hr).append [e]
  cases e with
  | register name method =>
    have hmethods := methods_of_register h.methods name method hstep
    simp only [Methods.step] at hstep
    split at hstep <;> cases hstep
    · exact ⟨hmethods, by simpa using h.stoped, hrequests⟩
    · exact ⟨hmethods, by simpa using h.stoped, hrequests⟩
  | unRegister name =>
    cases hstep
    exact ⟨methods_of_unRegister h.methods name, by simpa using h.stoped, hrequests⟩
  | stop =>
    cases hstep
    exact ⟨fun name => (h.methods name).trans (registered_skip es rfl rfl).symm, by simp,
      hrequests⟩
  | receive name =>
    cases hstep
    refine ⟨fun n => (h.methods n).trans (registered_skip es rfl rfl).symm,
      by simpa using h.stoped, fun i r hr => ?_⟩
    rw [List.getElem?_append] at hr
    split_ifs at hr with hlt
    · exact hrequests i r hr
    · rw [List.getElem?_singleton] at hr
      split_ifs at hr
      cases hr
      trivial
  | check i => exact h.check hstep
  | lookup i => exact h.lookup hstep

theorem Explained.run {fs : List (Event H)} (h : Explained es s)
    (hrun : run Methods.step s fs = some t) : Explained (es ++ fs) t := by
  induction fs generalizing es s with
  | nil =>
    rw [run_nil, Option.some_inj] at hrun
    rw [List.append_nil]
    exact hrun ▸ h
  | cons e fs ih =>
    obtain ⟨u, hstep, hrun⟩ := Option.bind_eq_some_iff.mp hrun
    rw [List.append_cons]
    exact ih (h.step hstep) hrun

theorem explained_start : Explained [] ({} : State H) :=
  ⟨fun _ => rfl, by simp, fun _ _ hr => by simp at hr⟩

/-- In every run the table holds the first registration behind the last
`UnRegister` of a name, and `Register` succeeds if and only if there is none
and the name is not empty.  A request that got through is served with the
registration at its lookup, and it was looked up after a test that came before
`Stop`.  A request that was refused for either reason had that reason. -/
theorem requests_follow_history (es : List (Event H)) (s : State H)
    (hrun : run Methods.step {} es = some s) :
    (∀ name, s.methods name = registered name es) ∧
    (∀ name method, (∃ methods, register s.methods name method = .ok methods) ↔
      name ≠ [] ∧ registered name es = none) ∧
    ∀ i r, s.requests[i]? = some r → Placed es i r := by
  have h : Explained es s := explained_start.run hrun
  refine ⟨h.methods, fun name method => ?_, h.requests⟩
  rw [← h.methods name, register]
  split_ifs with hempty hdup
  · simp [hempty]
  · simp [Option.isSome_iff_ne_none.mp hdup]
  · simp [hempty, Option.not_isSome_iff_eq_none.mp hdup]

/-- A method is looked up, then removed and registered anew. -/
def replaced : List (Event Nat) :=
  [.register [7] 1, .receive [7], .check 0, .lookup 0, .register [7] 2, .unRegister [7],
    .register [7] 3, .stop, .receive [7], .check 1]

theorem requests_follow_history_replaced : ∃ s,
    run Methods.step {} replaced = some s ∧ s.methods [7] = some 3 ∧
    (∃ r, s.requests[0]? = some r ∧ r.pc = .serving 1 ∧ Placed replaced 0 r) ∧
    ∃ r, s.requests[1]? = some r ∧ r.pc = .failed .stoped ∧ Placed replaced 1 r := by
  let s := (run Methods.step {} replaced).get rfl
  have hs : run Methods.step {} replaced = some s := rfl
  obtain ⟨hmethods, _, hrequests⟩ := requests_follow_history replaced s hs
  have hregistered : registered [7] replaced = some 3 := by decide
  exact ⟨s, hs, (hmethods _).trans hregistered,
    ⟨⟨[7], .serving 1⟩, rfl, rfl, hrequests 0 _ rfl⟩,
    ⟨⟨[7], .failed .stoped⟩, rfl, rfl, hrequests 1 _ rfl⟩⟩

end ClusterGo.Rpc.Server.Methods
