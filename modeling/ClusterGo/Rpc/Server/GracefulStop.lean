import ClusterGo.Rpc.Server.Accounting

/-!
# What a stop waits for

`Node.Stop` closes the sockets once it has read a counter that is not
positive.  The counter does not cover the whole way of a request: it is
raised by the last inbound interceptor, after the test of `stoped`, and it
is lowered by an outbound interceptor, before the response is passed to
the channel.  A request on either side of its count is not waited for.

A request whose count is held is waited for, as long as fewer than `2 ^ 31`
counts are held.  From then on the counter is read as negative, and the stop
overlooks them all.
-/

namespace ClusterGo.Rpc.Server

open Transition

variable {s t u : State} {e : Event} {stoped : Bool} {r r' : Request} {a : Action} {n : Int32}
  {i : Nat}

/-- Every request whose handler has replied in `u` has had its response
passed to the channel in `t`. -/
def Kept (t u : State) : Prop :=
  u.Each fun i r' => r'.byHandler = true → r'.oneway = false →
    ∃ r, t.requests[i]? = some r ∧ r.replyed = .sent

/-- The request has passed the test of `stoped`, is not counted yet and has
no answer. -/
def Request.uncounted (r : Request) : Bool :=
  r.replyed == .unset &&
    (r.pc == .checked || r.pc == .found || r.pc == .intercepting || r.pc == .passed)

/-- The handler has replied, and the response is counted down but not
passed to the channel yet. -/
def Request.leaving (r : Request) : Bool := r.byHandler && r.replyed == .called

/-- The request is counted and not counted down, and its handler can still
reply or has replied. -/
def Request.waited (r : Request) : Bool :=
  r.replyed == .unset && (r.pc == .counted || r.pc == .handling) ||
    r.byHandler && r.replyed == .won

/-- No request that wants a response is on either side of its count. -/
def NoneExposed (s : State) : Prop :=
  s.Each fun _ r => r.oneway = false → r.uncounted = false ∧ r.leaving = false

/-- No request that wants a response is to be waited for. -/
def NoneWaited (s : State) : Prop :=
  s.Each fun _ r => r.oneway = false → r.waited = false

/-! ## What the counter covers -/

/-- A request that is to be waited for holds the counter. -/
theorem held_of_waited (htracked : r.Tracked) (h : r.waited = true) : r.held = true := by
  obtain ⟨_, _, hhandling, hlowered, hbyHandler, _⟩ := htracked
  cases hpc : r.pc <;> cases hreplyed : r.replyed <;> simp_all [Request.waited, Request.held]

/-- Below `2 ^ 31` a counter that is not positive says that nobody is to be
waited for. -/
theorem noneWaited_of_count (hcounted : Counted s) (hcount : s.pendingRespCount ≤ 0)
    (hlt : s.heldCount < 2 ^ 31) : NoneWaited s := by
  have hzero : s.heldCount = 0 := by
    rw [hcounted.count, Int32.le_iff_toInt_le, Int32.toInt_ofNat_of_lt hlt] at hcount
    exact Int.natCast_nonpos_iff.mp hcount
  intro i r hr _
  by_contra hwaited
  have hheld := held_of_waited (hcounted.tracked i r hr) (Bool.not_eq_false _ ▸ hwaited)
  exact List.countP_eq_zero.mp hzero r (List.mem_of_getElem? hr) hheld

/-! ## Nothing is exposed -/

/-- A request whose handler cannot become the first to call the
`Replyer`. -/
def Request.Shut (r : Request) : Prop :=
  r.oneway = true ∨ r.replyed ≠ .unset ∨ r.pc = .received ∨ r.pc = .failed ∨ r.pc = .finished

theorem shut_of_acts (hacts : Acts true r a r' n) (h : r.Shut) : r'.Shut := by
  cases hacts <;> simp_all [Request.Shut]

theorem byHandler_of_acts (hacts : Acts stoped r a r' n) (h : r.Shut)
    (hby : r'.byHandler = true) (honeway : r'.oneway = false) :
    r.byHandler = true ∧ r.oneway = false := by
  cases hacts <;> simp_all [Request.Shut]

theorem shut_of_counted (huncounted : r.oneway = false → r.uncounted = false)
    (hwaited : r.oneway = false → r.waited = false) : r.Shut := by
  cases hpc : r.pc <;> cases hreplyed : r.replyed <;> cases honeway : r.oneway <;>
    simp_all [Request.Shut, Request.uncounted, Request.waited]

theorem sent_of_byHandler (htracked : r.Tracked) (hleaving : r.leaving = false)
    (hwaited : r.waited = false) (hby : r.byHandler = true) (honeway : r.oneway = false) :
    r.replyed = .sent := by
  obtain ⟨_, hset⟩ := htracked.byHandler hby
  cases hreplyed : r.replyed with
  | sent => rfl
  | unset => exact absurd hreplyed hset
  | won => simp [Request.waited, hby, hreplyed] at hwaited
  | called => simp [Request.leaving, hby, hreplyed] at hleaving
  | dropped => simp [htracked.dropped hreplyed] at honeway

/-- What a state reached from the closing state `t` has kept of it. -/
structure Closed (t u : State) : Prop where
  closing : u.stop = .closing
  kept : Kept t u
  shut : u.Each fun _ r => r.Shut

theorem closed_of_steps (hsteps : Steps s e u) (h : Closed t s) : Closed t u := by
  have hstoped : s.stoped = true := by simp [State.stoped, h.closing]
  refine ⟨?_, ?_, ?_⟩
  · cases hsteps with
    | receive => exact h.closing
    | act _ _ => exact h.closing
    | stop hrunning => simp [h.closing] at hrunning
    | sleep _ _ => exact h.closing
    | close _ _ => rfl
  · refine hsteps.each ?_ ?_ h.kept
    · intro i oneway _ hby
      cases hby
    · intro i a r r' n _ hr hkept hacts hby honeway
      obtain ⟨hby, honeway⟩ := byHandler_of_acts hacts (h.shut i r hr) hby honeway
      exact hkept hby honeway
  · refine hsteps.each ?_ ?_ h.shut
    · intro i oneway _
      exact .inr (.inr (.inl rfl))
    · intro i a r r' n _ _ hshut hacts
      rw [hstoped] at hacts
      exact shut_of_acts hacts hshut

theorem closed_of_noneExposed (hcounted : Counted s) (hexposed : NoneExposed s)
    (hwaited : NoneWaited s) :
    Closed { s with stop := .closing } { s with stop := .closing } := by
  refine ⟨rfl, ?_, ?_⟩
  · intro i r hr hby honeway
    have hsent := sent_of_byHandler (hcounted.tracked i r hr) (hexposed i r hr honeway).2
      (hwaited i r hr honeway) hby honeway
    exact ⟨r, hr, hsent⟩
  · intro i r hr
    exact shut_of_counted (fun honeway => (hexposed i r hr honeway).1) (hwaited i r hr)

/-! ## Something is exposed -/

/-- The actions on one request, with the counter left aside. -/
def Request.next (stoped : Bool) (r : Request) (a : Action) : Option Request :=
  (r.step stoped a).map Prod.fst

/-- The server can take any run of actions that is possible on one
request. -/
theorem reach_of_actions {as : List Action} (hr : s.requests[i]? = some r)
    (hrun : run (Request.next s.stoped) r as = some r') :
    ∃ t, Reachable step s t ∧ t.requests[i]? = some r' := by
  induction as generalizing s r with
  | nil =>
    rw [run_nil, Option.some_inj] at hrun
    exact ⟨s, .start, hrun ▸ hr⟩
  | cons a as ih =>
    obtain ⟨r₁, hnext, hrun⟩ := Option.bind_eq_some_iff.mp hrun
    obtain ⟨⟨r₁, n⟩, hstep, rfl⟩ := Option.map_eq_some_iff.mp hnext
    let s₁ : State :=
      { s with requests := s.requests.set i r₁, pendingRespCount := s.pendingRespCount + n }
    have hfirst : step s (.act i a) = some s₁ := by
      simp only [step, hr, Option.bind_some, hstep, Option.map_some, s₁]
    have hr₁ : s₁.requests[i]? = some r₁ :=
      List.getElem?_set_self (List.getElem?_eq_some_iff.mp hr).1
    obtain ⟨t, hreach, ht⟩ := ih (s := s₁) hr₁ hrun
    exact ⟨t, Reach.trans (.next .start trivial hfirst) hreach, ht⟩

/-- What is left to do until the handler of a request replies. -/
def untilReply : Pc → List Action
  | .checked => [.lookup true, .decode true, .intercept .pass, .count, .hook, .call]
  | .found => [.decode true, .intercept .pass, .count, .hook, .call]
  | .intercepting => [.intercept .pass, .count, .hook, .call]
  | .passed => [.count, .hook, .call]
  | .counted => [.hook, .call]
  | _ => [.call]

/-- The request has passed the test of `stoped`, and its handler can still
reply. -/
def Request.answerable (r : Request) : Bool :=
  r.uncounted || r.replyed == .unset && (r.pc == .counted || r.pc == .handling)

theorem reply_of_answerable (hhooked : r.pc = .handling → r.hooked = true)
    (h : r.answerable = true) :
    run (Request.next stoped) r (untilReply r.pc) =
      some { r with pc := .handling, hooked := true, replyed := .won, byHandler := true } := by
  obtain ⟨oneway, pc, replyed, hooked, lowered, byHandler⟩ := r
  simp only [Request.answerable, Request.uncounted, Bool.and_eq_true, Bool.or_eq_true,
    beq_iff_eq] at h
  cases pc <;> simp_all [untilReply, run, Request.next, Request.step, Request.settled, Request.swap]

theorem not_kept_of_answerable (hr : t.requests[i]? = some r) (honeway : r.oneway = false)
    (hhooked : r.pc = .handling → r.hooked = true) (h : r.answerable = true) :
    ∃ u, Reachable step t u ∧ ¬ Kept t u := by
  obtain ⟨u, hreach, hu⟩ := reach_of_actions hr (reply_of_answerable hhooked h)
  refine ⟨u, hreach, ?_⟩
  intro hkept
  obtain ⟨r₁, hr₁, hsent⟩ := hkept i _ hu rfl honeway
  rw [hr, Option.some_inj] at hr₁
  simp [Request.answerable, Request.uncounted, hr₁, hsent] at h

/-- The handler has replied, and the response is not passed to the channel. -/
theorem not_kept_of_replied (hr : t.requests[i]? = some r) (honeway : r.oneway = false)
    (hby : r.byHandler = true) (h : r.replyed ≠ .sent) : ¬ Kept t t := by
  intro hkept
  obtain ⟨r₁, hr₁, hsent⟩ := hkept i r hr hby honeway
  rw [hr, Option.some_inj] at hr₁
  exact h (hr₁ ▸ hsent)

/-- When no reply is lost, no request that wants a response is exposed or to be
waited for. -/
theorem none_of_kept (hcounted : Counted t) (hr : t.requests[i]? = some r)
    (honeway : r.oneway = false) (hkept : ∀ u, Reachable step t u → Kept t u) :
    r.uncounted = false ∧ r.leaving = false ∧ r.waited = false := by
  have hhooked := (hcounted.tracked i r hr).handling
  have hanswer : r.answerable = false := by
    by_contra hanswer
    obtain ⟨u, hreach, hlost⟩ := not_kept_of_answerable hr honeway hhooked
      (Bool.not_eq_false _ ▸ hanswer)
    exact hlost (hkept u hreach)
  have hsent : r.byHandler = true → r.replyed = .sent := by
    intro hby
    by_contra hnot
    exact not_kept_of_replied hr honeway hby hnot (hkept t .start)
  simp only [Request.answerable, Bool.or_eq_false_iff] at hanswer
  refine ⟨hanswer.1, ?_, ?_⟩
  · cases hby : r.byHandler <;> simp_all [Request.leaving]
  · cases hby : r.byHandler <;> simp_all [Request.waited]

/-- A stop reads the counter and starts closing the sockets.  Every request
that has passed the test of `stoped` and whose handler replies, before or
later, has had its response passed to the channel by then, if and only if
no request that wants a response is on either side of its count or is still
to be waited for.  The second cannot be as long as fewer than `2 ^ 31` counts
are held. -/
theorem graceful_stop_iff (s t : State) (h : Reachable step {} s)
    (hpoll : step s .poll = some t) (hclosing : t.stop = .closing) :
    ((∀ u, Reachable step t u → Kept t u) ↔ NoneExposed s ∧ NoneWaited s) ∧
      (s.heldCount < 2 ^ 31 → NoneWaited s) := by
  have hcounted := counted_of_reach h
  cases steps_of_step hpoll with
  | sleep hwaiting _ =>
    rw [hwaiting] at hclosing
    cases hclosing
  | close hwaiting hcount =>
    have hclosed : Counted { s with stop := .closing } :=
      counted_of_steps (.close hwaiting hcount) hcounted
    refine ⟨⟨?_, ?_⟩, noneWaited_of_count hcounted hcount⟩
    · intro hkept
      have hnone : ∀ (i : Nat) (r : Request), s.requests[i]? = some r → r.oneway = false →
          r.uncounted = false ∧ r.leaving = false ∧ r.waited = false := by
        intro i r hr honeway
        exact none_of_kept hclosed hr honeway hkept
      refine ⟨?_, ?_⟩
      · intro i r hr honeway
        exact ⟨(hnone i r hr honeway).1, (hnone i r hr honeway).2.1⟩
      · intro i r hr honeway
        exact (hnone i r hr honeway).2.2
    · intro hnone u hreach
      have hstart := closed_of_noneExposed hcounted hnone.1 hnone.2
      have hkeep : Closed { s with stop := .closing } u := by
        refine Reach.invariant hstart ?_ hreach
        intro s₁ e s₂ _ hs₁ _ hstep
        exact closed_of_steps (steps_of_step hstep) hs₁
      exact hkeep.kept

/-- Behind so many posts that one more count is read as negative, a request in
its handler is overlooked. -/
theorem lost_behind_posts {n : Nat} (hn : Int32.ofNat n + 1 ≤ 0) :
    ∃ t u, run step {} (posts n ++ handled n false ++ [.stop, .poll]) = some t ∧
      t.stop = .closing ∧ Reachable step t u ∧ ¬ Kept t u := by
  let rs : List Request := List.replicate n leaked
  let r : Request := { pc := .handling, hooked := true }
  let t : State := ⟨rs ++ [r], Int32.ofNat n + 1, .closing⟩
  have hlength : rs.length = n := List.length_replicate
  have hhandled := run_handled (s := ⟨rs, Int32.ofNat n, .running⟩) rfl false
  rw [hlength] at hhandled
  have hrun : run step {} (posts n ++ handled n false ++ [.stop, .poll]) = some t := by
    rw [List.append_assoc, run_append (run_posts n), run_append hhandled]
    simp [run, step, Int32.not_lt.mpr hn, t, r]
  have hr : t.requests[rs.length]? = some r := List.getElem?_concat_length
  obtain ⟨u, hreach, hlost⟩ := not_kept_of_answerable hr rfl (fun _ => rfl) rfl
  exact ⟨t, u, hrun, rfl, hreach, hlost⟩

/-- The handler of a request has replied before the stop reads the counter:
its response was passed to the channel, and no later reply is lost. -/
theorem graceful_stop_answered :
    ∃ s t, run step {} (answered ++ [.stop]) = some s ∧ step s .poll = some t ∧
      t.stop = .closing ∧ s.heldCount < 2 ^ 31 ∧ ∀ u, Reachable step t u → Kept t u := by
  let r : Request :=
    { pc := .finished, replyed := .sent, hooked := true, lowered := true, byHandler := true }
  have hrun : run step {} (answered ++ [.stop]) =
      some { requests := [r], stop := .waiting } := rfl
  have hpoll : step { requests := [r], stop := .waiting } .poll =
      some { requests := [r], stop := .closing } := rfl
  have hheld : State.heldCount { requests := [r], stop := .waiting } < 2 ^ 31 := by decide
  have hstop := graceful_stop_iff _ _ (Reach.of_run hrun) hpoll rfl
  refine ⟨_, _, hrun, hpoll, rfl, hheld, hstop.1.mpr ⟨?_, hstop.2 hheld⟩⟩
  exact State.each_singleton rfl (by decide)

/-- Three ways to lose a response.  A request has passed the test of `stoped`
when the node is stopped, and its handler replies after the sockets are
being closed.  A handler has replied, and the counter is down before the
response is passed to the channel.  A handler is at work, and so many posts
were counted before it that the counter is negative. -/
theorem stop_loses_answers :
    (∃ t u, run step {} [.receive false, .act 0 .check, .stop, .poll] = some t ∧
      t.stop = .closing ∧ Reachable step t u ∧ ¬ Kept t u) ∧
    (∃ t, run step {} (handled 0 false ++
        [.act 0 .call, .act 0 .callOutInterceptor, .stop, .poll]) = some t ∧
      t.stop = .closing ∧ ¬ Kept t t) ∧
    ∃ t u, run step {} (posts (2 ^ 31) ++ handled (2 ^ 31) false ++ [.stop, .poll]) = some t ∧
      t.stop = .closing ∧ Reachable step t u ∧ ¬ Kept t u := by
  refine ⟨?_, ?_, ?_⟩
  · have hrun : run step {} [.receive false, .act 0 .check, .stop, .poll] =
        some { requests := [{ pc := .checked }], stop := .closing } := rfl
    obtain ⟨u, hreach, hlost⟩ := not_kept_of_answerable
      (t := { requests := [{ pc := .checked }], stop := .closing }) (i := 0) rfl rfl
      (fun hpc => absurd hpc (by decide)) rfl
    exact ⟨_, u, hrun, rfl, hreach, hlost⟩
  · let r : Request :=
      { pc := .handling, replyed := .called, hooked := true, lowered := true, byHandler := true }
    refine ⟨{ requests := [r], stop := .closing }, rfl, rfl, ?_⟩
    exact not_kept_of_replied (i := 0) (r := r) rfl rfl rfl (by decide)
  · exact lost_behind_posts (by decide)

end ClusterGo.Rpc.Server
