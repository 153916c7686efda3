import ClusterGo.Lib.Transition

/-!
# Requests in the RPC server, and the stop of a node

`Server.OnMessage` takes a request through the test of `stoped`, the lookup
of its method, the decoding of its argument, the inbound interceptors and
the handler.  `RPCServer.SetInInterceptor` puts one interceptor behind those
of the application.  It raises `pendingRespCount` and appends an outbound
interceptor that lowers it.  `Replyer.Reply` and `Replyer.Error` run the
outbound interceptors and pass the response to the channel, and only the
first call of the two on a request does anything.

`Node.Stop` marks the server as stopped, reads the counter until it is not
positive, and then closes the sockets.

Any number of requests and one stop run at the same time.  Every atomic
action is an event: the accesses to the shared variables `stoped`,
`replyed` and `pendingRespCount`, and the call of `channel.Reply`.  The
counter is an `atomic.Int32`: it wraps, and the stop reads it with its sign.
-/

namespace ClusterGo.Rpc.Server

/-- Where `OnMessage` is in the handling of a request.

* `received` — before the test of `stoped`.
* `checked` — the test let it pass, before the lookup.
* `found` — the method is known, before the decoding of the argument.
* `intercepting` — in the interceptors of the application.
* `passed` — all of them returned true, before the counter is raised.
* `counted` — the counter is raised, before the outbound interceptor is
  appended.
* `handling` — the handler runs, or work that it left to another goroutine.
* `failed` — `OnMessage` is about to call `Replyer.Error`.
* `finished` — nothing is left to do, but a call of the `Replyer` may still
  be under way. -/
inductive Pc where
  | received
  | checked
  | found
  | intercepting
  | passed
  | counted
  | handling
  | failed
  | finished
deriving DecidableEq, Repr

/-- How far the call of the `Replyer` has come that found `replyed` unset.

* `unset` — there was no call yet.
* `won` — the call has set `replyed`.
* `called` — the outbound interceptors have run.
* `sent` — the response was passed to `channel.Reply`.
* `dropped` — the request is oneway, so the call returned without one. -/
inductive Replyed where
  | unset
  | won
  | called
  | sent
  | dropped
deriving DecidableEq, Repr

/-- A request and its `Replyer`.  `hooked` says that the outbound
interceptor of the counter is appended, `lowered` that it has run, and
`byHandler` that the handler made the call that set `replyed`. -/
structure Request where
  oneway : Bool := false
  pc : Pc := .received
  replyed : Replyed := .unset
  hooked : Bool := false
  lowered : Bool := false
  byHandler : Bool := false
deriving DecidableEq, Repr

/-- What the interceptors of the application come to. -/
inductive Verdict where
  | pass
  | veto
  | panic
deriving DecidableEq, Repr

/-- The actions on one request. -/
inductive Action where
  | check
  | lookup (found : Bool)
  | decode (ok : Bool)
  | intercept (verdict : Verdict)
  | count
  | hook
  | call
  | finish (panics : Bool)
  | report
  | callOutInterceptor
  | reply
deriving DecidableEq, Repr

namespace Request

/-- The compare-and-swap at the head of `Reply` and `Error`. -/
def swap (r : Request) (byHandler : Bool) : Request :=
  if r.replyed = .unset then { r with replyed := .won, byHandler } else r

/-- No call of the `Replyer` is under way. -/
def settled (r : Request) : Bool :=
  match r.replyed with
  | .won | .called => false
  | .unset | .sent | .dropped => true

/-- One action on a request.  The number is what the action adds to
`pendingRespCount`. -/
def step (stoped : Bool) (r : Request) : Action → Option (Request × Int32)
  | .check =>
    if r.pc = .received then some ({ r with pc := if stoped then .failed else .checked }, 0)
    else none
  | .lookup found =>
    if r.pc = .checked then some ({ r with pc := if found then .found else .failed }, 0)
    else none
  | .decode ok =>
    if r.pc = .found then some ({ r with pc := if ok then .intercepting else .failed }, 0)
    else none
  | .intercept verdict =>
    -- An interceptor that calls the Replyer returns after the call.
    if r.pc = .intercepting ∧ r.settled = true then
      match verdict with
      | .pass => some ({ r with pc := .passed }, 0)
      | .veto => some ({ r with pc := .finished }, 0)
      | .panic => some ({ r with pc := .failed }, 0)
    else none
  | .count => if r.pc = .passed then some ({ r with pc := .counted }, 1) else none
  | .hook =>
    if r.pc = .counted then some ({ r with pc := .handling, hooked := true }, 0) else none
  | .call =>
    if r.pc = .intercepting then some (r.swap false, 0)
    else if r.pc = .handling then some (r.swap true, 0)
    else none
  | .finish panics =>
    if r.pc = .handling then some ({ r with pc := if panics then .failed else .finished }, 0)
    else none
  | .report =>
    if r.pc = .failed then some ({ r with pc := .finished }.swap false, 0) else none
  | .callOutInterceptor =>
    if r.replyed = .won then
      if r.hooked = true then some ({ r with replyed := .called, lowered := true }, -1)
      else some ({ r with replyed := .called }, 0)
    else none
  | .reply =>
    if r.replyed = .called then
      some ({ r with replyed := if r.oneway then .dropped else .sent }, 0)
    else none

/-- The request has raised the counter and not lowered it again. -/
def held (r : Request) : Bool :=
  (r.pc == .counted || r.hooked) && !r.lowered

end Request

/-- Where `Node.Stop` is: not called, reading the counter, or closing the
sockets. -/
inductive Stop where
  | running
  | waiting
  | closing
deriving DecidableEq, Repr

/-- The requests in the order they came, the counter, and the stop. -/
structure State where
  requests : List Request := []
  pendingRespCount : Int32 := 0
  stop : Stop := .running
deriving DecidableEq, Repr

inductive Event where
  | receive (oneway : Bool)
  | act (i : Nat) (a : Action)
  | stop
  | poll
deriving DecidableEq, Repr

/-- The value of `stoped`, which `Stop` sets before it reads the counter. -/
def State.stoped (s : State) : Bool := s.stop != .running

def step (s : State) : Event → Option State
  | .receive oneway => some { s with requests := s.requests ++ [{ oneway }] }
  | .act i a =>
    (s.requests[i]?).bind fun r =>
      (r.step s.stoped a).map fun (r', n) =>
        { s with requests := s.requests.set i r', pendingRespCount := s.pendingRespCount + n }
  | .stop => if s.stop = .running then some { s with stop := .waiting } else none
  | .poll =>
    if s.stop = .waiting then
      if s.pendingRespCount > 0 then some s else some { s with stop := .closing }
    else none

/-! ## What an action and a step can do -/

/-- The actions on a request, with what each found. -/
inductive Acts (stoped : Bool) (r : Request) : Action → Request → Int32 → Prop where
  | refuse (hpc : r.pc = .received) (hstoped : stoped = true) :
      Acts stoped r .check { r with pc := .failed } 0
  | check (hpc : r.pc = .received) (hstoped : stoped = false) :
      Acts stoped r .check { r with pc := .checked } 0
  | unknown (hpc : r.pc = .checked) : Acts stoped r (.lookup false) { r with pc := .failed } 0
  | lookup (hpc : r.pc = .checked) : Acts stoped r (.lookup true) { r with pc := .found } 0
  | undecoded (hpc : r.pc = .found) : Acts stoped r (.decode false) { r with pc := .failed } 0
  | decode (hpc : r.pc = .found) :
      Acts stoped r (.decode true) { r with pc := .intercepting } 0
  | pass (hpc : r.pc = .intercepting) (hsettled : r.settled = true) :
      Acts stoped r (.intercept .pass) { r with pc := .passed } 0
  | veto (hpc : r.pc = .intercepting) (hsettled : r.settled = true) :
      Acts stoped r (.intercept .veto) { r with pc := .finished } 0
  | panic (hpc : r.pc = .intercepting) (hsettled : r.settled = true) :
      Acts stoped r (.intercept .panic) { r with pc := .failed } 0
  | count (hpc : r.pc = .passed) : Acts stoped r .count { r with pc := .counted } 1
  | hook (hpc : r.pc = .counted) :
      Acts stoped r .hook { r with pc := .handling, hooked := true } 0
  | late (hpc : r.pc = .intercepting ∨ r.pc = .handling) (hreplyed : r.replyed ≠ .unset) :
      Acts stoped r .call r 0
  | answer (hpc : r.pc = .intercepting) (hreplyed : r.replyed = .unset) :
      Acts stoped r .call { r with replyed := .won, byHandler := false } 0
  | handlerAnswer (hpc : r.pc = .handling) (hreplyed : r.replyed = .unset) :
      Acts stoped r .call { r with replyed := .won, byHandler := true } 0
  | finish (hpc : r.pc = .handling) :
      Acts stoped r (.finish false) { r with pc := .finished } 0
  | handlerPanic (hpc : r.pc = .handling) :
      Acts stoped r (.finish true) { r with pc := .failed } 0
  | lateReport (hpc : r.pc = .failed) (hreplyed : r.replyed ≠ .unset) :
      Acts stoped r .report { r with pc := .finished } 0
  | report (hpc : r.pc = .failed) (hreplyed : r.replyed = .unset) :
      Acts stoped r .report { r with pc := .finished, replyed := .won, byHandler := false } 0
  | lower (hreplyed : r.replyed = .won) (hhooked : r.hooked = true) :
      Acts stoped r .callOutInterceptor { r with replyed := .called, lowered := true } (-1)
  | skip (hreplyed : r.replyed = .won) (hhooked : r.hooked = false) :
      Acts stoped r .callOutInterceptor { r with replyed := .called } 0
  | send (hreplyed : r.replyed = .called) (honeway : r.oneway = false) :
      Acts stoped r .reply { r with replyed := .sent } 0
  | drop (hreplyed : r.replyed = .called) (honeway : r.oneway = true) :
      Acts stoped r .reply { r with replyed := .dropped } 0

/-- The compare-and-swap wins, or it finds `replyed` set. -/
theorem Request.swap_cases (r : Request) (byHandler : Bool) :
    (r.replyed = .unset ∧ r.swap byHandler = { r with replyed := .won, byHandler }) ∨
      (r.replyed ≠ .unset ∧ r.swap byHandler = r) := by
  by_cases h : r.replyed = .unset
  · exact .inl ⟨h, if_pos h⟩
  · exact .inr ⟨h, if_neg h⟩

theorem acts_of_step {stoped : Bool} {r r' : Request} {a : Action} {n : Int32}
    (h : r.step stoped a = some (r', n)) : Acts stoped r a r' n := by
  cases a with
  | check =>
    obtain ⟨hpc, h⟩ := Option.ite_none_right_eq_some.mp h
    cases stoped with
    | false => cases h; exact .check hpc rfl
    | true => cases h; exact .refuse hpc rfl
  | lookup found =>
    obtain ⟨hpc, h⟩ := Option.ite_none_right_eq_some.mp h
    cases found with
    | false => cases h; exact .unknown hpc
    | true => cases h; exact .lookup hpc
  | decode ok =>
    obtain ⟨hpc, h⟩ := Option.ite_none_right_eq_some.mp h
    cases ok with
    | false => cases h; exact .undecoded hpc
    | true => cases h; exact .decode hpc
  | intercept verdict =>
    obtain ⟨⟨hpc, hsettled⟩, h⟩ := Option.ite_none_right_eq_some.mp h
    cases verdict with
    | pass => cases h; exact .pass hpc hsettled
    | veto => cases h; exact .veto hpc hsettled
    | panic => cases h; exact .panic hpc hsettled
  | count =>
    obtain ⟨hpc, h⟩ := Option.ite_none_right_eq_some.mp h
    cases h
    exact .count hpc
  | hook =>
    obtain ⟨hpc, h⟩ := Option.ite_none_right_eq_some.mp h
    cases h
    exact .hook hpc
  | call =>
    unfold Request.step at h
    by_cases hint : r.pc = .intercepting
    · rw [if_pos hint] at h
      rcases r.swap_cases false with ⟨hunset, hswap⟩ | ⟨hset, hswap⟩
      · rw [hswap] at h
        cases h
        exact .answer hint hunset
      · rw [hswap] at h
        cases h
        exact .late (.inl hint) hset
    · rw [if_neg hint] at h
      obtain ⟨hpc, h⟩ := Option.ite_none_right_eq_some.mp h
      rcases r.swap_cases true with ⟨hunset, hswap⟩ | ⟨hset, hswap⟩
      · rw [hswap] at h
        cases h
        exact .handlerAnswer hpc hunset
      · rw [hswap] at h
        cases h
        exact .late (.inr hpc) hset
  | finish panics =>
    obtain ⟨hpc, h⟩ := Option.ite_none_right_eq_some.mp h
    cases panics with
    | false => cases h; exact .finish hpc
    | true => cases h; exact .handlerPanic hpc
  | report =>
    obtain ⟨hpc, h⟩ := Option.ite_none_right_eq_some.mp h
    rcases ({ r with pc := .finished } : Request).swap_cases false with
      ⟨hunset, hswap⟩ | ⟨hset, hswap⟩
    · rw [hswap] at h
      cases h
      exact .report hpc hunset
    · rw [hswap] at h
      cases h
      exact .lateReport hpc hset
  | callOutInterceptor =>
    obtain ⟨hreplyed, h⟩ := Option.ite_none_right_eq_some.mp h
    by_cases hhooked : r.hooked = true
    · rw [if_pos hhooked] at h
      cases h
      exact .lower hreplyed hhooked
    · rw [if_neg hhooked] at h
      cases h
      exact .skip hreplyed (Bool.not_eq_true _ ▸ hhooked)
  | reply =>
    obtain ⟨hreplyed, h⟩ := Option.ite_none_right_eq_some.mp h
    by_cases honeway : r.oneway = true
    · rw [if_pos honeway] at h
      cases h
      exact .drop hreplyed honeway
    · rw [if_neg honeway] at h
      cases h
      exact .send hreplyed (Bool.not_eq_true _ ▸ honeway)

/-- The steps of the whole server.  The counter is read twice: the stop goes
on only when it is not positive. -/
inductive Steps (s : State) : Event → State → Prop where
  | receive {oneway : Bool} :
      Steps s (.receive oneway) { s with requests := s.requests ++ [{ oneway }] }
  | act {i : Nat} {a : Action} {r r' : Request} {n : Int32} (hr : s.requests[i]? = some r)
      (hacts : Acts s.stoped r a r' n) :
      Steps s (.act i a)
        { s with requests := s.requests.set i r', pendingRespCount := s.pendingRespCount + n }
  | stop (hrunning : s.stop = .running) : Steps s .stop { s with stop := .waiting }
  | sleep (hwaiting : s.stop = .waiting) (hcount : 0 < s.pendingRespCount) : Steps s .poll s
  | close (hwaiting : s.stop = .waiting) (hcount : s.pendingRespCount ≤ 0) :
      Steps s .poll { s with stop := .closing }

theorem steps_of_step {s t : State} {e : Event} (h : step s e = some t) : Steps s e t := by
  cases e with
  | receive oneway => cases h; exact .receive
  | act i a =>
    obtain ⟨r, hr, h⟩ := Option.bind_eq_some_iff.mp h
    obtain ⟨⟨r', n⟩, hstep, rfl⟩ := Option.map_eq_some_iff.mp h
    exact .act hr (acts_of_step hstep)
  | stop =>
    obtain ⟨hrunning, h⟩ := Option.ite_none_right_eq_some.mp h
    cases h
    exact .stop hrunning
  | poll =>
    obtain ⟨hwaiting, h⟩ := Option.ite_none_right_eq_some.mp h
    by_cases hcount : 0 < s.pendingRespCount
    · rw [if_pos hcount] at h
      cases h
      exact .sleep hwaiting hcount
    · rw [if_neg hcount] at h
      cases h
      exact .close hwaiting (Int32.not_lt.mp hcount)

/-- A property holds of every request in its place. -/
def State.Each (s : State) (P : Nat → Request → Prop) : Prop :=
  ∀ i r, s.requests[i]? = some r → P i r

theorem State.each_nil (P : Nat → Request → Prop) : ({} : State).Each P := by
  intro i r hr
  cases hr

theorem State.each_singleton {P : Nat → Request → Prop} {s : State} {r : Request}
    (hs : s.requests = [r]) (h : P 0 r) : s.Each P := by
  intro i r' hr'
  rw [hs, List.getElem?_singleton] at hr'
  obtain ⟨rfl, hr'⟩ := Option.ite_none_right_eq_some.mp hr'
  exact Option.some_inj.mp hr' ▸ h

/-- A property holds of every request after a step when it holds of a new
one and the action on one request keeps it. -/
theorem Steps.each {P : Nat → Request → Prop} {s t : State} {e : Event}
    (hsteps : Steps s e t) (hnew : ∀ i oneway, s.requests[i]? = none → P i { oneway })
    (hact : ∀ i a r r' n, e = .act i a → s.requests[i]? = some r → P i r →
      Acts s.stoped r a r' n → P i r')
    (h : s.Each P) : t.Each P := by
  cases hsteps with
  | @receive oneway =>
    intro j r hr
    by_cases hj : j < s.requests.length
    · rw [List.getElem?_append_left hj] at hr
      exact h j r hr
    · obtain ⟨rfl, rfl⟩ : j = s.requests.length ∧ r = { oneway } := by
        rw [List.getElem?_append_right (Nat.not_lt.mp hj)] at hr
        obtain ⟨hlt, rfl⟩ := List.getElem?_eq_some_iff.mp hr
        simp only [List.length_singleton] at hlt
        exact ⟨by omega, List.getElem_singleton _⟩
      exact hnew _ oneway (List.getElem?_eq_none (Nat.le_refl _))
  | @act i a r r' n hr hacts =>
    intro j r₁ hr₁
    rw [List.getElem?_set] at hr₁
    by_cases hij : i = j
    · rw [if_pos hij] at hr₁
      obtain ⟨_, heq⟩ := Option.ite_none_right_eq_some.mp hr₁
      cases heq
      exact hij ▸ hact i a r r' n rfl hr (h i r hr) hacts
    · rw [if_neg hij] at hr₁
      exact h j r₁ hr₁
  | stop _ => exact h
  | sleep _ _ => exact h
  | close _ _ => exact h

/-- A request stays in its place, and only an action on it changes it. -/
theorem Steps.request {s t : State} {e : Event} {j : Nat} {r : Request} (hsteps : Steps s e t)
    (hj : s.requests[j]? = some r) :
    ∃ r', t.requests[j]? = some r' ∧ (r' = r ∨ ∃ a n, Acts s.stoped r a r' n) := by
  have hlt := (List.getElem?_eq_some_iff.mp hj).1
  cases hsteps with
  | receive =>
    refine ⟨r, ?_, .inl rfl⟩
    show (s.requests ++ _)[j]? = some r
    rw [List.getElem?_append_left hlt, hj]
  | @act i a r₀ r' n hr hacts =>
    by_cases hij : i = j
    · rw [hij, hj] at hr
      cases hr
      exact ⟨r', hij ▸ List.getElem?_set_self (hij ▸ hlt), .inr ⟨a, n, hacts⟩⟩
    · exact ⟨r, (List.getElem?_set_ne hij).trans hj, .inl rfl⟩
  | stop _ => exact ⟨r, hj, .inl rfl⟩
  | sleep _ _ => exact ⟨r, hj, .inl rfl⟩
  | close _ _ => exact ⟨r, hj, .inl rfl⟩

end ClusterGo.Rpc.Server
