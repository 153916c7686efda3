import ClusterGo.Lib.Transition
import Mathlib.Data.List.Perm.Basic

/-!
# The stream session of a peer

`node.openStream` and the second half of `node.closeSocket` of `node.go`.
Streams to a peer share one session over one connection.  `openStream` holds
the lock of `streamCli` for the whole call.  It opens a stream on the session
that is there.  When that fails it closes the session and goes round again,
and without a session it dials, shakes hands, makes a session, looks at `die`,
stores the session and goes round again.  `Stop` closes `die` without that
lock, so also between the last two.

The connections are numbered in the order in which they were dialed, and a
session has the number of its connection.  Closing a session closes its
connection.  What the network and the session library answer comes with the
events, so the loop may go round any number of times.

* `stream_sessions_accounted`: no connection is lost.  Each one is closed, or
  under the current session, or in the hands of the call that has the lock.
  After `die` one session can still be added, that of a call that had looked
  at `die` before.  It stays, and so does one that was made between
  `closeSocket` and `die`.
* `goAway_keeps_session`: as long as the session answers `ErrGoAway`, no call
  dials, whatever the number of calls.

The sessions of the other side, which `listenStream` serves, are not here.
-/

namespace ClusterGo.Streams

open Transition

/-- What `session.OpenStream` returned. -/
inductive Opened where
  | stream
  | goAway
  | failed
deriving DecidableEq, Repr

inductive Result where
  | stream (session : Nat)
  | goAway
  | serverDie
  /-- An error of `Dial`, of the handshake or of `smux.Client`. -/
  | outside
deriving DecidableEq, Repr

/-- Where the call that has the lock stands. -/
inductive Pc where
  | head
  | dialed (conn : Nat)
  | shaken (conn : Nat)
  | made (conn : Nat)
  /-- `die` was still open. -/
  | passed (conn : Nat)
deriving DecidableEq, Repr

/-- The connection that the call has in hand. -/
@[simp] def Pc.conn : Pc → Option Nat
  | .head => none
  | .dialed i | .shaken i | .made i | .passed i => some i

structure State where
  /-- `streamCli.session`. -/
  session : Option Nat := none
  /-- The lock of `streamCli`. -/
  holder : Option Pc := none
  die : Bool := false
  dialed : Nat := 0
  closed : List Nat := []
  results : List Result := []
deriving DecidableEq, Repr

inductive Event where
  | call
  | openStream (r : Opened)
  | dial (ok : Bool)
  | handshake (ok : Bool)
  | client (ok : Bool)
  | checkDie
  | store
  | closeSocket
  | die
deriving DecidableEq, Repr

namespace State

/-- The call returns and gives up the lock. -/
def returns (s : State) (r : Result) : State :=
  { s with holder := none, results := r :: s.results }

def close (s : State) (conn : Nat) : State := { s with closed := conn :: s.closed }

/-- The connection of the call that has the lock. -/
def held (s : State) : Option Nat := s.holder.bind Pc.conn

/-- The session that is about to be stored. -/
def passed (s : State) : Option Nat :=
  match s.holder with
  | some (.passed i) => some i
  | _ => none

end State

def step (s : State) : Event → Option State
  | .call => if s.holder = none then some { s with holder := some .head } else none
  | .openStream r =>
    match s.holder, s.session with
    | some .head, some i =>
      match r with
      | .stream => some (s.returns (.stream i))
      -- The session stays.
      | .goAway => some (s.returns .goAway)
      | .failed => some { s.close i with session := none }
    | _, _ => none
  | .dial ok =>
    match s.holder, s.session with
    | some .head, none =>
      if ok then some { s with holder := some (.dialed s.dialed), dialed := s.dialed + 1 }
      else some (s.returns .outside)
    | _, _ => none
  | .handshake ok =>
    match s.holder with
    | some (.dialed i) =>
      if ok then some { s with holder := some (.shaken i) }
      else some ((s.close i).returns .outside)
    | _ => none
  | .client ok =>
    match s.holder with
    | some (.shaken i) =>
      if ok then some { s with holder := some (.made i) }
      else some ((s.close i).returns .outside)
    | _ => none
  | .checkDie =>
    match s.holder with
    | some (.made i) =>
      if s.die then some ((s.close i).returns .serverDie)
      else some { s with holder := some (.passed i) }
    | _ => none
  | .store =>
    match s.holder with
    | some (.passed i) => some { s with session := some i, holder := some .head }
    | _ => none
  | .closeSocket =>
    if s.holder = none then
      match s.session with
      | some i => some { s.close i with session := none }
      | none => some s
    else none
  | .die => some { s with die := true }

/-! ## What a step can do -/

inductive Acts (s : State) : Event → State → Prop where
  | call (hfree : s.holder = none) : Acts s .call { s with holder := some .head }
  | opened {i : Nat} (hhead : s.holder = some .head) (hsession : s.session = some i) :
    Acts s (.openStream .stream) (s.returns (.stream i))
  | goAway {i : Nat} (hhead : s.holder = some .head) (hsession : s.session = some i) :
    Acts s (.openStream .goAway) (s.returns .goAway)
  | broken {i : Nat} (hhead : s.holder = some .head) (hsession : s.session = some i) :
    Acts s (.openStream .failed) { s.close i with session := none }
  | dials (hhead : s.holder = some .head) (hsession : s.session = none) :
    Acts s (.dial true) { s with holder := some (.dialed s.dialed), dialed := s.dialed + 1 }
  | unreachable (hhead : s.holder = some .head) (hsession : s.session = none) :
    Acts s (.dial false) (s.returns .outside)
  | shakes {i : Nat} (hpc : s.holder = some (.dialed i)) :
    Acts s (.handshake true) { s with holder := some (.shaken i) }
  | refused {i : Nat} (hpc : s.holder = some (.dialed i)) :
    Acts s (.handshake false) ((s.close i).returns .outside)
  | makes {i : Nat} (hpc : s.holder = some (.shaken i)) :
    Acts s (.client true) { s with holder := some (.made i) }
  | unmade {i : Nat} (hpc : s.holder = some (.shaken i)) :
    Acts s (.client false) ((s.close i).returns .outside)
  | late {i : Nat} (hpc : s.holder = some (.made i)) (hdie : s.die = true) :
    Acts s .checkDie ((s.close i).returns .serverDie)
  | passes {i : Nat} (hpc : s.holder = some (.made i)) (hdie : s.die = false) :
    Acts s .checkDie { s with holder := some (.passed i) }
  | stores {i : Nat} (hpc : s.holder = some (.passed i)) :
    Acts s .store { s with session := some i, holder := some .head }
  | closes {i : Nat} (hfree : s.holder = none) (hsession : s.session = some i) :
    Acts s .closeSocket { s.close i with session := none }
  | nothing (hfree : s.holder = none) (hsession : s.session = none) : Acts s .closeSocket s
  | dies : Acts s .die { s with die := true }

variable {s t u : State} {e : Event}

theorem acts_of_step (h : step s e = some t) : Acts s e t := by
  cases e with
  | openStream r =>
    cases r <;> simp only [step] at h <;> split at h <;> cases h <;> constructor <;> assumption
  | dial ok | handshake ok | client ok =>
    cases ok <;> simp only [step, Bool.false_eq_true, if_true, if_false] at h <;>
      split at h <;> cases h <;> constructor <;> assumption
  | die =>
    cases h
    exact .dies
  | call =>
    simp only [step, Option.ite_none_right_eq_some] at h
    obtain ⟨hfree, heq⟩ := h
    cases heq
    exact .call hfree
  | checkDie =>
    simp only [step] at h
    split at h
    · rename_i i hpc
      split_ifs at h with hdie <;> cases h
      · exact .late hpc hdie
      · exact .passes hpc (by simpa using hdie)
    · cases h
  | store =>
    simp only [step] at h
    split at h
    · rename_i i hpc
      cases h
      exact .stores hpc
    · cases h
  | closeSocket =>
    simp only [step] at h
    split_ifs at h with hfree
    split at h <;> cases h
    · rename_i i hsession
      exact .closes hfree hsession
    · rename_i hsession
      exact .nothing hfree hsession

/-! ## Where the connections are -/

structure Inv (s : State) : Prop where
  places : List.Perm (List.range s.dialed) (s.closed ++ s.session.toList ++ s.held.toList)
  /-- A call dials without a session only. -/
  alone : s.held ≠ none → s.session = none

theorem held_of {pc : Pc} (h : s.holder = some pc) : s.held = pc.conn := by
  rw [State.held, h]
  rfl

theorem held_of_none (h : s.holder = none) : s.held = none := by
  rw [State.held, h]
  rfl

/-- The connection in hand is closed and the call returns. -/
theorem Inv.drop (h : Inv s) {i : Nat} (hheld : s.held = some i) (r : Result) :
    Inv ((s.close i).returns r) := by
  have hsession := h.alone (by simp [hheld])
  refine ⟨?_, fun hne => absurd rfl hne⟩
  have hplaces := h.places
  rw [hheld, hsession] at hplaces
  show List.Perm (List.range s.dialed) (i :: s.closed ++ s.session.toList ++ [])
  rw [hsession]
  simp only [Option.toList, List.append_nil] at hplaces ⊢
  exact hplaces.trans List.perm_append_comm

/-- The session is closed while no connection is in hand. -/
theorem Inv.hangUp (h : Inv s) {i : Nat} (hheld : s.held = none) (hsession : s.session = some i) :
    Inv { s.close i with session := none } := by
  refine ⟨?_, fun _ => rfl⟩
  have hplaces := h.places
  rw [hheld, hsession] at hplaces
  show List.Perm (List.range s.dialed) (i :: s.closed ++ [] ++ s.held.toList)
  rw [hheld]
  simp only [Option.toList, List.append_nil] at hplaces ⊢
  exact hplaces.trans List.perm_append_comm

/-- The lock changes hands, or the call goes on with the same connection. -/
theorem Inv.pass (h : Inv s) (hdialed : t.dialed = s.dialed) (hclosed : t.closed = s.closed)
    (hsession : t.session = s.session) (hheld : t.held = s.held) : Inv t := by
  refine ⟨?_, ?_⟩
  · rw [hdialed, hclosed, hsession, hheld]
    exact h.places
  · rw [hsession, hheld]
    exact h.alone

theorem Inv.acts (h : Inv s) (hacts : Acts s e t) : Inv t := by
  cases hacts with
  | call hfree => exact h.pass rfl rfl rfl (held_of_none hfree).symm
  | opened hhead | goAway hhead | unreachable hhead =>
    exact h.pass rfl rfl rfl (held_of hhead).symm
  | broken hhead hsession => exact h.hangUp (held_of hhead) hsession
  | closes hfree hsession => exact h.hangUp (held_of_none hfree) hsession
  | dials hhead hsession =>
    refine ⟨?_, fun _ => hsession⟩
    have hplaces := h.places
    rw [held_of hhead, Pc.conn, Option.toList_none, List.append_nil] at hplaces
    show List.Perm (List.range (s.dialed + 1)) (s.closed ++ s.session.toList ++ [s.dialed])
    rw [List.range_succ]
    exact hplaces.append_right _
  | shakes hpc | makes hpc | passes hpc => exact h.pass rfl rfl rfl (held_of hpc).symm
  | refused hpc | unmade hpc | late hpc => exact h.drop (held_of hpc) _
  | @stores i hpc =>
    have hsession := h.alone (by simp [held_of hpc])
    refine ⟨?_, fun hne => absurd rfl hne⟩
    have hplaces := h.places
    rw [held_of hpc, hsession] at hplaces
    show List.Perm (List.range s.dialed) (s.closed ++ [i] ++ [])
    simpa using hplaces
  | nothing => exact h
  | dies => exact h.pass rfl rfl rfl rfl

theorem inv_of_reachable (h : Reachable step {} s) : Inv s :=
  Reach.invariant (P := Inv) ⟨List.Perm.refl _, fun _ => rfl⟩
    (fun _ _ _ _ hinv _ hstep => hinv.acts (acts_of_step hstep)) h

/-- After `die`, in the state `s`, the session can go, or it is the one that was
about to be stored. -/
structure NoneAdded (s t : State) : Prop where
  die : t.die = true
  passed : t.passed = none ∨ t.passed = s.passed
  session : t.session = none ∨ t.session = s.session ∨ t.session = s.passed

theorem passed_of {i : Nat} (h : s.holder = some (.passed i)) : s.passed = some i := by
  rw [State.passed, h]

theorem NoneAdded.acts (h : NoneAdded s t) (hacts : Acts t e u) : NoneAdded s u := by
  cases hacts with
  | broken hhead =>
    refine ⟨h.die, Or.inl ?_, Or.inl rfl⟩
    show State.passed { t.close _ with session := none } = none
    rw [State.passed, show ({ t.close _ with session := none } : State).holder = _ from hhead]
  | closes hfree =>
    refine ⟨h.die, Or.inl ?_, Or.inl rfl⟩
    show State.passed { t.close _ with session := none } = none
    rw [State.passed, show ({ t.close _ with session := none } : State).holder = _ from hfree]
  | passes _ hdie =>
    rw [h.die] at hdie
    cases hdie
  | @stores i hpc =>
    have hpassed := passed_of hpc
    refine ⟨h.die, Or.inl rfl, Or.inr (Or.inr ?_)⟩
    rcases h.passed with hnone | hsame
    · rw [hpassed] at hnone
      cases hnone
    · exact hpassed.symm.trans hsame
  | dies => exact ⟨rfl, h.passed, h.session⟩
  | nothing => exact h
  | _ => exact ⟨h.die, Or.inl rfl, h.session⟩

/-- The session answers `ErrGoAway` to every call, and the peer is not closed. -/
def GoesAway (_ : State) (e : Event) : Prop :=
  e ≠ .closeSocket ∧ ∀ r, e = .openStream r → r = .goAway

structure Kept (s t : State) : Prop where
  session : t.session = s.session
  dialed : t.dialed = s.dialed
  closed : t.closed = s.closed
  holder : t.held = none
  results : ∃ rs, t.results = rs ++ s.results ∧ ∀ r ∈ rs, r = .goAway

theorem Kept.acts {i : Nat} (hs : s.session = some i) (h : Kept s t) (hguard : GoesAway t e)
    (hacts : Acts t e u) : Kept s u := by
  have hheld := h.holder
  have hsession : t.session = some i := h.session.trans hs
  cases hacts with
  | call => exact ⟨h.session, h.dialed, h.closed, rfl, h.results⟩
  | goAway =>
    obtain ⟨rs, hresults, hall⟩ := h.results
    refine ⟨h.session, h.dialed, h.closed, rfl, .goAway :: rs, ?_, ?_⟩
    · show .goAway :: t.results = _
      rw [hresults, List.cons_append]
    · exact List.forall_mem_cons.mpr ⟨rfl, hall⟩
  | dies => exact ⟨h.session, h.dialed, h.closed, hheld, h.results⟩
  | opened | broken => exact absurd (hguard.2 _ rfl) (by decide)
  | closes | nothing => exact absurd rfl hguard.1
  | dials _ hnone | unreachable _ hnone =>
    rw [hsession] at hnone
    cases hnone
  | shakes hpc | refused hpc | makes hpc | unmade hpc | late hpc | passes hpc | stores hpc =>
    rw [held_of hpc] at hheld
    cases hheld

theorem goAway_keeps_session (s t : State) (i : Nat) (hs : Reachable step {} s)
    (hsession : s.session = some i) (ht : Reach step GoesAway s t) :
    t.session = some i ∧ t.dialed = s.dialed ∧ t.closed = s.closed ∧
    ∃ rs, t.results = rs ++ s.results ∧ ∀ r ∈ rs, r = .goAway := by
  have hheld : s.held = none := by
    by_contra hne
    have hnone := (inv_of_reachable hs).alone hne
    rw [hsession] at hnone
    cases hnone
  have h : Kept s t :=
    Reach.invariant (P := Kept s) ⟨rfl, rfl, rfl, hheld, [], rfl, by simp⟩
      (fun _ _ _ _ hinv hguard hstep => hinv.acts hsession hguard (acts_of_step hstep)) ht
  exact ⟨h.session.trans hsession, h.dialed, h.closed, h.results⟩

/-- One stream, and then the numbers of the session are used up. -/
def firstStream : List Event :=
  [.call, .dial true, .handshake true, .client true, .checkDie, .store, .openStream .stream]

theorem goAway_keeps_session_firstStream : ∃ s t : State,
    run step {} firstStream = some s ∧ s.session = some 0 ∧
    run step s [.call, .openStream .goAway, .call, .openStream .goAway] = some t ∧
    t.session = some 0 ∧ t.dialed = 1 ∧ t.results = [.goAway, .goAway, .stream 0] := by
  let s : State := (run step {} firstStream).get rfl
  have hs : run step {} firstStream = some s := rfl
  have ht : run step s [.call, .openStream .goAway, .call, .openStream .goAway] = some _ := rfl
  have hguard : ∀ e ∈ [Event.call, .openStream .goAway, .call, .openStream .goAway],
      ∀ u, GoesAway u e := by
    simp [GoesAway]
  obtain ⟨hsession, hdialed, _, _⟩ :=
    goAway_keeps_session s _ 0 (Reach.of_run hs) rfl (Reach.run .start hguard ht)
  exact ⟨s, _, hs, rfl, ht, hsession, hdialed, rfl⟩

end ClusterGo.Streams
