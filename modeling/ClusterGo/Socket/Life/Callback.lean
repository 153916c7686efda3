import ClusterGo.Socket.Life.Effect

/-!
# The close callback

The close callback of a socket runs at most once.  When it runs, both loops
have returned and the connection is closed, and it is given the argument of
the first call of `close`, whoever made the other calls.  Afterwards nothing
is written and no packet reaches the handler.

`OnceEffect` says what a step does to `closeOnce` and the two fields that
the function in it sets.  Everything about the order of the steps of a stop
follows from it and from the two facts that a loop returns only when `die`
is closed and then stays where it is.
-/

namespace ClusterGo.Socket.Life

open Transition

variable {O P E : Type} {codec : Codec O P E} {opts : Options} {s t : Sock O P E}
  {e : Event O E}

/-! ## The function in `closeOnce` -/

inductive OnceEffect (s t : Sock O P E) : Prop where
  | keep (honce : t.closeOnce = s.closeOnce) (hdie : t.die = s.die)
      (hreason : t.closeReason = s.closeReason)
  | enter {err : Option (Reason E)} (hidle : s.closeOnce = .idle)
      (honce : t.closeOnce = .entered err) (hdie : t.die = s.die)
      (hreason : t.closeReason = s.closeReason)
  | store {err : Option (Reason E)} (hentered : s.closeOnce = .entered err)
      (honce : t.closeOnce = .stored err) (hdie : t.die = s.die) (hreason : t.closeReason = err)
  | die {err : Option (Reason E)} (hstored : s.closeOnce = .stored err)
      (honce : t.closeOnce = .died err) (hdie : t.die = true)
      (hreason : t.closeReason = s.closeReason)
  | conn {err : Option (Reason E)} (hdied : s.closeOnce = .died err)
      (honce : t.closeOnce = .done err) (hdie : t.die = s.die)
      (hreason : t.closeReason = s.closeReason)

theorem Acts.onceEffect (h : Acts codec opts s e t) : OnceEffect s t := by
  cases h with
  | close hidle => exact .enter hidle rfl rfl rfl
  | sendCloses _ hidle => exact .enter hidle rfl rfl rfl
  | recvCloses _ hidle => exact .enter hidle rfl rfl rfl
  | storeReason honce => exact .store honce rfl rfl rfl
  | closeDie honce => exact .die honce rfl rfl rfl
  | closeConn honce => exact .conn honce rfl rfl rfl
  | _ => exact .keep rfl rfl rfl

/-- The first caller of `close` stays the first. -/
theorem OnceEffect.first (h : OnceEffect s t) {err : Option (Reason E)}
    (hfirst : s.closeOnce.first = some err) : t.closeOnce.first = some err := by
  cases h with
  | keep honce _ _ => rw [honce, hfirst]
  | enter hidle _ _ _ =>
    rw [hidle] at hfirst
    cases hfirst
  | store hbefore honce _ _ | die hbefore honce _ _ | conn hbefore honce _ _ =>
    rw [hbefore] at hfirst
    rw [honce]
    exact hfirst

/-- What `die` and `closeReason` hold while the function runs. -/
def OnceInv (s : Sock O P E) : Prop :=
  match s.closeOnce with
  | .idle | .entered _ => s.die = false ∧ s.closeReason = none
  | .stored err => s.die = false ∧ s.closeReason = err
  | .died err | .done err => s.die = true ∧ s.closeReason = err

theorem OnceInv.of_effect (h : OnceEffect s t) (hinv : OnceInv s) : OnceInv t := by
  unfold OnceInv at hinv ⊢
  cases h with
  | keep honce hdie hreason => rwa [honce, hdie, hreason]
  | enter hidle honce hdie hreason =>
    rw [hidle] at hinv
    rw [honce, hdie, hreason]
    exact hinv
  | store hentered honce hdie hreason =>
    rw [hentered] at hinv
    rw [honce, hdie, hreason]
    exact ⟨hinv.1, rfl⟩
  | die hstored honce hdie hreason =>
    rw [hstored] at hinv
    rw [honce, hdie, hreason]
    exact ⟨rfl, hinv.2⟩
  | conn hdied honce hdie hreason =>
    rw [hdied] at hinv
    rw [honce, hdie, hreason]
    exact hinv

/-- A closed `die` and the reason behind it are there to stay. -/
theorem OnceEffect.of_die (h : OnceEffect s t) (hinv : OnceInv s) (hdie : s.die = true) :
    t.die = true ∧ t.closeReason = s.closeReason := by
  unfold OnceInv at hinv
  cases h with
  | keep _ hdie' hreason => exact ⟨hdie'.trans hdie, hreason⟩
  | enter _ _ hdie' hreason => exact ⟨hdie'.trans hdie, hreason⟩
  | store hentered _ _ _ =>
    rw [hentered, hdie] at hinv
    cases hinv.1
  | die _ _ hdie' hreason => exact ⟨hdie', hreason⟩
  | conn _ _ hdie' hreason => exact ⟨hdie'.trans hdie, hreason⟩

theorem OnceInv.reason (hinv : OnceInv s) (hdie : s.die = true) :
    s.closeOnce.first = some s.closeReason := by
  unfold OnceInv at hinv
  cases honce : s.closeOnce with
  | idle | entered err | stored err =>
    rw [honce, hdie] at hinv
    cases hinv.1
  | died err | done err =>
    rw [honce] at hinv
    rw [hinv.2]
    rfl

/-! ## The ends of the loops -/

/-- `sendloop` has seen that `die` is closed, or has returned. -/
def SendPc.AfterDie : SendPc E → Prop
  | .draining | .drainFlushing | .lastFlushing | .done => True
  | _ => False

/-- The loops return only when `die` is closed. -/
structure LoopInv (s : Sock O P E) : Prop where
  send : s.sendPc.AfterDie → s.die = true
  recv : s.recvPc = .done → s.die = true

theorem die_of_done (hinv : OnceInv s) {err : Option (Reason E)}
    (honce : s.closeOnce = .done err) : s.die = true := by
  unfold OnceInv at hinv
  rw [honce] at hinv
  exact hinv.1

theorem LoopInv.of_acts (h : Acts codec opts s e t) (honce : OnceInv s) (hinv : LoopInv s) :
    LoopInv t := by
  have hkeep : s.die = true → t.die = true := fun hdie => (h.onceEffect.of_die honce hdie).1
  constructor
  · intro hafter
    apply hkeep
    cases h with
    | sendDie _ hdie => exact hdie
    | sendTake _ _ | sendFull _ | sendMore _ => exact hafter.elim
    | write hpc _ =>
      cases hs : s.sendPc with
      | flushing =>
        rw [hs] at hpc
        cases hpc
        exact hafter.elim
      | drainFlushing | lastFlushing => exact hinv.send (by rw [hs]; trivial)
      | _ =>
        rw [hs] at hpc
        cases hpc
    | writeFails hpc =>
      cases hs : s.sendPc with
      | flushing =>
        rw [hs] at hpc
        cases hpc
        exact hafter.elim
      | drainFlushing | lastFlushing => exact hinv.send (by rw [hs]; trivial)
      | _ =>
        rw [hs] at hpc
        cases hpc
    | drainFull hpc _ | drainMore hpc _ | drainRest hpc _ | drained hpc _ =>
      exact hinv.send (by rw [hpc]; trivial)
    | sendReturns _ hdone => exact die_of_done honce hdone
    | _ => exact hinv.send hafter
  · intro hdone
    apply hkeep
    cases h with
    | recvDie _ hdie | recvGivesUp _ hdie => exact hdie
    | recvReturns _ hfirst => exact die_of_done honce hfirst
    | recvTake _ _ | badFrame _ _ | needRead _ _ | undecoded _ _ _ | decoded _ _ _ | read _ _ _
    | readFails _ | recvFailed _ _ | handleFails _ | handleAuto _ _
    | handleOnce _ _ | rearm _ _ | rearmSkip _ _ => cases hdone
    | _ => exact hinv.recv hdone

/-- `sendloop` does nothing behind its return. -/
theorem Acts.sendloop_returned (h : Acts codec opts s e t) (hdone : s.sendPc = .done) :
    t.sendPc = .done ∧ t.wire = s.wire := by
  cases h with
  | sendDie hpc _ | sendTake hpc _ | sendFull hpc | sendMore hpc | drainFull hpc _
  | drainMore hpc _ | drainRest hpc _ | drained hpc _ | sendReturns hpc _ =>
    rw [hpc] at hdone
    cases hdone
  | write hpc _ | writeFails hpc =>
    rw [hdone] at hpc
    cases hpc
  | _ => exact ⟨hdone, rfl⟩

/-- `recvloop` does nothing behind its return. -/
theorem Acts.recvloop_returned (h : Acts codec opts s e t) (hdone : s.recvPc = .done) :
    t.recvPc = .done ∧ t.handled = s.handled := by
  cases h with
  | recvDie hpc _ | recvTake hpc _ | badFrame hpc _ | needRead hpc _ | undecoded hpc _ _
  | decoded hpc _ _ | read hpc _ _ | readFails hpc | recvGivesUp hpc _
  | recvFailed hpc _ | handleFails hpc | handleAuto hpc _ | handleOnce hpc _ | rearm hpc _
  | rearmSkip hpc _ | recvReturns hpc _ =>
    rw [hpc] at hdone
    cases hdone
  | _ => exact ⟨hdone, rfl⟩

/-! ## `finalize` -/

/-- What has happened before each statement of `finalize`. -/
def FinalInv (s : Sock O P E) : Prop :=
  match s.finalPc with
  | .waitSend => s.callbacks = []
  | .waitRecv => s.sendPc = .done ∧ s.callbacks = []
  | .closing => s.sendPc = .done ∧ s.recvPc = .done ∧ s.callbacks = []
  | .done =>
    s.sendPc = .done ∧ s.recvPc = .done ∧ s.connClosed = true ∧ s.callbacks = [s.closeReason]

/-- A step that is not one of `finalize`. -/
theorem FinalInv.of_kept (h : Acts codec opts s e t) (honce : OnceInv s) (hloops : LoopInv s)
    (hinv : FinalInv s) (hpc : t.finalPc = s.finalPc) (hcallbacks : t.callbacks = s.callbacks)
    (hconn : s.connClosed = true → t.connClosed = true) : FinalInv t := by
  unfold FinalInv at hinv ⊢
  rw [hpc, hcallbacks]
  cases hfinal : s.finalPc with
  | waitSend =>
    rw [hfinal] at hinv
    exact hinv
  | waitRecv =>
    rw [hfinal] at hinv
    exact ⟨(h.sendloop_returned hinv.1).1, hinv.2⟩
  | closing =>
    rw [hfinal] at hinv
    exact ⟨(h.sendloop_returned hinv.1).1, (h.recvloop_returned hinv.2.1).1, hinv.2.2⟩
  | done =>
    rw [hfinal] at hinv
    obtain ⟨hsend, hrecv, hclosed, hcalled⟩ := hinv
    have hreason := (h.onceEffect.of_die honce (hloops.recv hrecv)).2
    refine ⟨(h.sendloop_returned hsend).1, (h.recvloop_returned hrecv).1, hconn hclosed, ?_⟩
    show s.callbacks = [t.closeReason]
    rw [hcalled, hreason]

theorem FinalInv.of_acts (h : Acts codec opts s e t) (honce : OnceInv s) (hloops : LoopInv s)
    (hinv : FinalInv s) : FinalInv t := by
  have hkept := hinv.of_kept h honce hloops
  cases h with
  | sendDone hfinal hpc =>
    unfold FinalInv at hinv ⊢
    rw [hfinal] at hinv
    exact ⟨hpc, hinv⟩
  | recvDone hfinal hpc =>
    unfold FinalInv at hinv ⊢
    rw [hfinal] at hinv
    exact ⟨hinv.1, hpc, hinv.2⟩
  | doClose hfinal =>
    unfold FinalInv at hinv ⊢
    rw [hfinal] at hinv
    refine ⟨hinv.1, hinv.2.1, rfl, ?_⟩
    show s.callbacks ++ [s.closeReason] = [s.closeReason]
    rw [hinv.2.2, List.nil_append]
  | closeConn _ => exact hkept rfl rfl fun _ => rfl
  | _ => exact hkept rfl rfl id

/-! ## Every run -/

/-- The invariant of a socket that the callback rests on. -/
structure CloseInv (s : Sock O P E) : Prop where
  once : OnceInv s
  loops : LoopInv s
  final : FinalInv s

theorem CloseInv.of_reachable (hreach : Reachable (step codec opts) (newSock opts) s) :
    CloseInv s := by
  refine Reach.invariant ?_ ?_ hreach
  · exact ⟨⟨rfl, rfl⟩, ⟨fun hafter => hafter.elim, fun hdone => by cases hdone⟩, rfl⟩
  · intro s e t _ hinv _ hstep
    have hacts := acts_of_step hstep
    exact ⟨hinv.once.of_effect hacts.onceEffect, hinv.loops.of_acts hacts hinv.once,
      hinv.final.of_acts hacts hinv.once hinv.loops⟩

/-- Before the callback there is none, and it comes with the first reason
when both loops have returned. -/
theorem CloseInv.callbacks (hinv : CloseInv s) :
    s.callbacks = [] ∨ ∃ err, s.callbacks = [err] ∧ s.closeOnce.first = some err ∧
      s.connClosed = true ∧ s.sendPc = .done ∧ s.recvPc = .done := by
  have hfinal := hinv.final
  unfold FinalInv at hfinal
  cases hpc : s.finalPc with
  | waitSend =>
    rw [hpc] at hfinal
    exact Or.inl hfinal
  | waitRecv =>
    rw [hpc] at hfinal
    exact Or.inl hfinal.2
  | closing =>
    rw [hpc] at hfinal
    exact Or.inl hfinal.2.2
  | done =>
    rw [hpc] at hfinal
    obtain ⟨hsend, hrecv, hclosed, hcalled⟩ := hfinal
    have hfirst := hinv.once.reason (hinv.loops.recv hrecv)
    exact Or.inr ⟨s.closeReason, hcalled, hfirst, hclosed, hsend, hrecv⟩

/-- Nothing is added behind the return of both loops. -/
theorem quiet_of_returned (hsend : s.sendPc = .done) (hrecv : s.recvPc = .done)
    (hreach : Reachable (step codec opts) s t) :
    t.wire = s.wire ∧ t.handled = s.handled ∧ t.sendPc = .done ∧ t.recvPc = .done := by
  refine Reach.invariant (P := fun u => u.wire = s.wire ∧ u.handled = s.handled ∧
    u.sendPc = .done ∧ u.recvPc = .done) ⟨rfl, rfl, hsend, hrecv⟩ ?_ hreach
  intro u e v _ hinv _ hstep
  obtain ⟨hwire, hhandled, hsend, hrecv⟩ := hinv
  have hacts := acts_of_step hstep
  obtain ⟨hsend', hwire'⟩ := hacts.sendloop_returned hsend
  obtain ⟨hrecv', hhandled'⟩ := hacts.recvloop_returned hrecv
  exact ⟨hwire'.trans hwire, hhandled'.trans hhandled, hsend', hrecv'⟩

/-- The first caller of `close` stays the first in every run. -/
theorem first_of_reachable {err : Option (Reason E)} (hfirst : s.closeOnce.first = some err)
    (hreach : Reachable (step codec opts) s t) : t.closeOnce.first = some err := by
  refine Reach.invariant (P := fun u => u.closeOnce.first = some err) hfirst ?_ hreach
  intro u e v _ hinv _ hstep
  exact (acts_of_step hstep).onceEffect.first hinv

theorem Acts.callbacks_ne_nil (h : Acts codec opts s e t) (hcalled : s.callbacks ≠ []) :
    t.callbacks ≠ [] := by
  cases h with
  | doClose _ => exact List.append_ne_nil_of_left_ne_nil hcalled _
  | _ => exact hcalled

/-- A callback that has run stays run. -/
theorem called_of_reachable (hcalled : s.callbacks ≠ [])
    (hreach : Reachable (step codec opts) s t) : t.callbacks ≠ [] := by
  refine Reach.invariant (P := fun u => u.callbacks ≠ []) hcalled ?_ hreach
  intro u e v _ hinv _ hstep
  exact (acts_of_step hstep).callbacks_ne_nil hinv

/-- In every run of a socket the close callback runs at most once, behind
the return of both loops and on a closed connection, and it gets the reason
that the first call of `close` gave.  From then on nothing is written and no
packet is handled. -/
theorem close_callback_once (codec : Codec O P E) (opts : Options) {s t : Sock O P E}
    (hs : Reachable (step codec opts) (newSock opts) s)
    (ht : Reachable (step codec opts) s t) :
    (s.callbacks = [] ∨ ∃ err, s.callbacks = [err] ∧ s.closeOnce.first = some err ∧
      s.connClosed = true ∧ s.sendPc = .done ∧ s.recvPc = .done) ∧
    (∀ err, s.closeOnce.first = some err → t.callbacks = [] ∨ t.callbacks = [err]) ∧
    (s.callbacks ≠ [] → t.callbacks = s.callbacks ∧ t.wire = s.wire ∧
      t.handled = s.handled) := by
  have hcallbacks := (CloseInv.of_reachable hs).callbacks
  have hcallbacks' := (CloseInv.of_reachable (hs.trans ht)).callbacks
  have hfirst : ∀ err, s.closeOnce.first = some err → t.callbacks = [] ∨ t.callbacks = [err] := by
    intro err hfirst
    have hfirst' := first_of_reachable hfirst ht
    rcases hcallbacks' with hnone | ⟨err', hcalled, herr', _⟩
    · exact Or.inl hnone
    · rw [hfirst', Option.some_inj] at herr'
      exact Or.inr (herr' ▸ hcalled)
  refine ⟨hcallbacks, hfirst, ?_⟩
  intro hcalled
  obtain ⟨err, herr, hentered, _, hsend, hrecv⟩ := hcallbacks.resolve_left hcalled
  obtain ⟨hwire, hhandled, _⟩ := quiet_of_returned hsend hrecv ht
  have hcalled' := called_of_reachable hcalled ht
  rw [(hfirst err hentered).resolve_left hcalled', herr]
  exact ⟨rfl, hwire, hhandled⟩

/-- A caller closes an idle socket. -/
def hangUp : List (Event Rpc.Bytes Unit) :=
  [.close none, .once, .once, .once, .sendDie, .drain, .recvDie, .finalize, .finalize,
    .finalize]

theorem close_callback_once_hangUp :
    (run (step plainCodec {}) (newSock {}) hangUp).map (·.callbacks) = some [none] ∧
      ∀ t, run (step plainCodec {}) (newSock {}) hangUp = some t → t.callbacks = [] ∨
        ∃ err, t.callbacks = [err] ∧ t.closeOnce.first = some err ∧ t.connClosed = true ∧
          t.sendPc = .done ∧ t.recvPc = .done :=
  ⟨by decide +kernel,
    fun _ hrun => (close_callback_once plainCodec {} (Reach.of_run hrun) .start).1⟩

end ClusterGo.Socket.Life
