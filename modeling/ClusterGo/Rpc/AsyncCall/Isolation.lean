import ClusterGo.Rpc.AsyncCall.Ownership

/-!
# Isolation of asynchronous calls

The party that takes the entry of a call swaps `fired` of a context that
belongs to this call.  Its swap fails only if somebody else swapped first.
The error path of the same call may, and then the caller has the error.

The error path of another call may as well.  `AsyncCall` swaps `fired`
after a failed request also when its own entry was already gone.  By then
the timer or `OnMessage` may have put the context back, and a later call
may have got it from the pool and set `fired` to zero.  The swap succeeds
on that call, and the callback of that call never runs:
`completion_consumed` is such a run of two calls.

`SwapsOwn` is the condition that rules this out, and
`async_calls_isolated` says that it is enough.
-/

namespace ClusterGo.Rpc.AsyncCall

open Transition

variable {V : Type}

/-- An error path swaps `fired` of a context that its call still holds, or
one whose `fired` is set anyway. -/
def SwapsOwn (s : State V) : Event V → Prop
  | .errSwap i =>
    (s.calls i).released = false ∨ (s.ctxs (s.calls i).ctx).fired = true
  | _ => True

/-- No call was robbed so far, and the calls to come will not be. -/
structure Isolated (s : State V) : Prop where
  unfired : ∀ i p, (s.calls i).holds = some p →
    CallerPc.ready.rank ≤ (s.calls i).caller.rank → ¬ (s.calls i).Claimed →
    (s.ctxs p).fired = false
  won : ∀ i, (s.calls i).caller.rank < CallerPc.swapped.rank →
    (s.calls i).swapResult ≠ some false

variable {decodeRet : V → ResponseMsg V → V × Option Bytes} {s t : State V} {i : UInt64}
  {c : Call V}

theorem Isolated.initial (ret : V) : Isolated (State.initial ret) where
  unfired i p _ _ _ := rfl
  won i _ := by simp [State.initial, Call.swapResult]

/-- A step that moves call `i` to `c` isolates the calls if it does so for
`c` and sets no `fired` of an unclaimed call. -/
theorem Isolated.move (h : Isolated s) (hcalls : t.calls = Function.update s.calls i c)
    (hothers : ∀ j p, j ≠ i → (s.calls j).holds = some p →
      CallerPc.ready.rank ≤ (s.calls j).caller.rank → (s.ctxs p).fired = false →
      (t.ctxs p).fired = false)
    (hunfired : ∀ p, c.holds = some p → CallerPc.ready.rank ≤ c.caller.rank →
      ¬ c.Claimed → (t.ctxs p).fired = false)
    (hwon : c.caller.rank < CallerPc.swapped.rank → c.swapResult ≠ some false) :
    Isolated t := by
  have hself : t.calls i = c := by rw [hcalls, Function.update_self]
  have hne : ∀ j, j ≠ i → t.calls j = s.calls j := fun j hj => by
    rw [hcalls, Function.update_of_ne hj]
  refine ⟨fun j p hp hr hc => ?_, fun j hr => ?_⟩
  all_goals rcases eq_or_ne j i with rfl | hj
  · rw [hself] at hp hr hc
    exact hunfired p hp hr hc
  · rw [hne j hj] at hp hr hc
    exact hothers j p hj hp hr (h.unfired j p hp hr hc)
  · rw [hself] at hr ⊢
    exact hwon hr
  · rw [hne j hj] at hr ⊢
    exact h.won j hr

theorem Isolated.quiet (h : Isolated s) (hq : Quiet decodeRet s t i c) : Isolated t := by
  refine h.move hq.calls (fun j p _ _ _ hf => (hq.fired p).trans hf) (fun p hp hr hc => ?_)
    fun hr => ?_
  · rw [hq.fired]
    exact h.unfired i p (hq.holds_of_holds hp) (hq.ready hr) fun hold =>
      hc (hq.claimed_iff.mpr hold)
  · rw [hq.swapResult]
    exact h.won i (lt_of_le_of_lt hq.rank_le hr)

/-- Before the first swap of a call the word in its context is zero. -/
theorem Isolated.fired_eq_false (h : Isolated s) {p : Ptr}
    (hholds : (s.calls i).holds = some p)
    (hready : CallerPc.ready.rank ≤ (s.calls i).caller.rank)
    (hrank : (s.calls i).caller.rank < CallerPc.swapped.rank)
    (hnone : (s.calls i).swapResult = none) : (s.ctxs p).fired = false := by
  refine h.unfired i p hholds hready ?_
  intro hclaimed
  rcases hclaimed with hr | hresult
  · exact absurd hr (not_le.mpr hrank)
  · exact hresult hnone

/-- Setting `fired` of a context that `i` holds robs nobody else. -/
theorem Inv.fired_of_ne (hinv : Inv decodeRet s) {p q : Ptr} {j : UInt64} (hj : j ≠ i)
    (hi : (s.calls i).holds = some p) (hq : (s.calls j).holds = some q)
    (x : AsynContext V) : (Function.update s.ctxs p x q) = s.ctxs q := by
  have hne : q ≠ p := by
    intro heq
    subst heq
    exact hj (hinv.pool.exclusive j i _ hq hi)
  rw [Function.update_of_ne hne]

/-- One step of a run that meets the condition keeps the calls isolated. -/
theorem Isolated.step (hinv : Inv decodeRet s) (h : Isolated s) {e : Event V}
    (hown : SwapsOwn s e) (hstep : AsyncCall.step decodeRet s e = some t) :
    Isolated t := by
  cases step_effect hinv.calls hstep with
  | get hpc hget =>
    refine h.move rfl (fun _ _ _ _ _ hf => hf) (fun p _ hr _ => ?_) fun _ => ?_
    · exact absurd hr (show ¬ CallerPc.ready.rank ≤ CallerPc.got.rank by decide)
    · simp [Call.swapResult]
  | @initialise i hpc =>
    have hholds := (hinv.calls i).holds_of_got hpc
    have hclaim := (hinv.calls i).claim_eq_none (by rw [hpc]; decide)
    refine h.move rfl (fun j p hj hp _ hf => ?_) (fun p hp _ _ => ?_) fun _ => ?_
    · exact (congrArg AsynContext.fired (hinv.fired_of_ne hj hholds hp _)).trans hf
    · obtain rfl : (s.calls i).ctx = p := (Call.holds_eq_some.mp hp).2.2
      simp [State.setCall, State.setCtx]
    · simp [Call.swapResult, hclaim]
  | @errSwap i hpc =>
    refine h.move rfl (fun j p hj hp hr hf => ?_) (fun p _ _ hc => ?_) fun hr => ?_
    · -- the condition: `i` holds the context, or nothing changes
      rcases hown with hrel | hset
      · have hholds : (s.calls i).holds = some (s.calls i).ctx :=
          Call.holds_eq_some.mpr ⟨by rw [hpc]; decide, hrel, rfl⟩
        exact (congrArg AsynContext.fired (hinv.fired_of_ne hj hholds hp _)).trans hf
      · have hne : p ≠ (s.calls i).ctx := by
          intro heq
          subst heq
          exact absurd (hset.symm.trans hf) (by decide)
        simpa [State.setCall, State.setCtx, hne] using hf
    · exact absurd (.inl (le_refl CallerPc.swapped.rank)) hc
    · exact absurd hr (lt_irrefl CallerPc.swapped.rank)
  | @swap i cl hcl hpc =>
    have hholds := (hinv.calls i).holds_of_claim hcl (by rw [hpc]; decide) (by rw [hpc]; decide)
    have hold : (s.calls i).swapResult = none := by
      simp [Call.swapResult, hcl, hpc, ClaimPc.result]
    refine h.move rfl (fun j p hj hp _ hf => ?_) (fun p _ _ hc => ?_) fun hr => ?_
    · exact (congrArg AsynContext.fired (hinv.fired_of_ne hj hholds hp _)).trans hf
    · refine absurd (.inr ?_) hc
      simp only [Call.swapResult, Call.setClaim, Option.bind_some]
      split <;> simp [ClaimPc.result]
    · have hready : CallerPc.ready.rank ≤ (s.calls i).caller.rank :=
        le_trans (by decide) ((hinv.calls i).claim cl hcl).2.1
      have hf := h.fired_eq_false hholds hready hr hold
      simp [Call.swapResult, Call.setClaim, hf, ClaimPc.result]
  | callback hcl hpc hargs =>
    refine h.move rfl (fun _ _ _ _ _ hf => hf) (fun p _ _ hc => ?_) fun _ => ?_
    · refine absurd (.inr ?_) hc
      simp [Call.swapResult, Call.setClaim, ClaimPc.result]
    · simp [Call.swapResult, Call.setClaim, ClaimPc.result]
  | quiet i c hquiet => exact h.quiet hquiet

theorem Isolated.of_reach {ret : V}
    (h : Reach (AsyncCall.step decodeRet) SwapsOwn (.initial ret) s) : Isolated s :=
  h.invariant (Isolated.initial ret) fun _ _ _ hreach hiso hown hstep =>
    hiso.step (Inv.of_reach hreach) hown hstep

/-! ## The timer in the context -/

/-- Once the caller has assigned it, there is a timer in the context.  After
the context went to another call it may be the timer of that one. -/
def Timed (s : State V) : Prop :=
  ∀ i, CallerPc.assigned.rank ≤ (s.calls i).caller.rank →
    (s.ctxs (s.calls i).ctx).timer.isSome = true

theorem Timed.move (h : Timed s) (hcalls : t.calls = Function.update s.calls i c)
    (htimer : ∀ p, (s.ctxs p).timer.isSome = true → (t.ctxs p).timer.isSome = true)
    (hnew : CallerPc.assigned.rank ≤ c.caller.rank → (t.ctxs c.ctx).timer.isSome = true) :
    Timed t := by
  intro j hr
  rw [hcalls] at hr ⊢
  rcases eq_or_ne j i with rfl | hj
  · rw [Function.update_self] at hr ⊢
    exact hnew hr
  · rw [Function.update_of_ne hj] at hr ⊢
    exact htimer _ (h j hr)

/-- A write to a context that leaves the timer alone. -/
theorem timer_setCtx {p q : Ptr} {x : AsynContext V} (hx : x.timer = (s.ctxs p).timer)
    (hq : (s.ctxs q).timer.isSome = true) : ((s.setCtx p x).ctxs q).timer.isSome = true := by
  show (Function.update s.ctxs p x q).timer.isSome = true
  rcases eq_or_ne q p with rfl | hne
  · rw [Function.update_self, hx]
    exact hq
  · rw [Function.update_of_ne hne]
    exact hq

theorem Timed.finish (h : Timed s) {cl : Claim V} {pc : ClaimPc} : Timed (s.finish i cl pc) := by
  unfold State.finish
  split_ifs
  · exact h.move rfl (fun _ hp => hp) (h i)
  · exact h.move rfl (fun _ hp => hp) (h i)

theorem Timed.step (h : Timed s) {e : Event V} (hstep : AsyncCall.step decodeRet s e = some t) :
    Timed t := by
  unfold AsyncCall.step at hstep
  cases e with
  | get i ret choice =>
    obtain ⟨_, hstep⟩ := State.caller_eq_some.mp hstep
    obtain ⟨⟨p, pool, next⟩, _, rfl⟩ := Option.map_eq_some_iff.mp hstep
    exact h.move rfl (fun _ hp => hp) fun hr => absurd hr (by simp [CallerPc.rank])
  | initialise i =>
    obtain ⟨_, hstep⟩ := State.caller_eq_some.mp hstep
    obtain rfl := Option.some_inj.mp hstep
    exact h.move rfl (fun _ hp => timer_setCtx rfl hp) fun hr =>
      absurd hr (by simp [CallerPc.rank])
  | store i | afterFunc i =>
    obtain ⟨_, hstep⟩ := State.caller_eq_some.mp hstep
    obtain rfl := Option.some_inj.mp hstep
    exact h.move rfl (fun _ hp => hp) fun hr => absurd hr (by simp [CallerPc.rank])
  | setTimer i =>
    obtain ⟨_, hstep⟩ := State.caller_eq_some.mp hstep
    obtain rfl := Option.some_inj.mp hstep
    refine h.move rfl (fun p hp => ?_) fun _ => by simp [State.setCall, State.setCtx]
    rcases eq_or_ne p (s.calls i).ctx with rfl | hne
    · simp [State.setCall, State.setCtx]
    · simpa [State.setCall, State.setCtx, hne] using hp
  | request i | requestReturn i failed | errDelete i =>
    obtain ⟨hpc, hstep⟩ := State.caller_eq_some.mp hstep
    obtain rfl := Option.some_inj.mp hstep
    exact h.move rfl (fun _ hp => hp) fun _ => h i (by simp [hpc, CallerPc.rank])
  | errStop i =>
    obtain ⟨hpc, hstep⟩ := State.caller_eq_some.mp hstep
    split_ifs at hstep
    · obtain ⟨⟨u, ok⟩, hstop, rfl⟩ := Option.map_eq_some_iff.mp hstep
      obtain ⟨timers, rfl⟩ := State.stop_eq_some hstop
      exact h.move rfl (fun _ hp => hp) fun _ => h i (by simp [hpc, CallerPc.rank])
    · obtain rfl := Option.some_inj.mp hstep
      exact h.move rfl (fun _ hp => hp) fun _ => h i (by simp [hpc, CallerPc.rank])
  | errSwap i =>
    obtain ⟨hpc, hstep⟩ := State.caller_eq_some.mp hstep
    rw [State.compareAndSwap_eq] at hstep
    obtain rfl := Option.some_inj.mp hstep
    exact h.move rfl (fun _ hp => timer_setCtx rfl hp) fun _ =>
      timer_setCtx rfl (h i (by simp [hpc, CallerPc.rank]))
  | errPut i =>
    obtain ⟨hpc, hstep⟩ := State.caller_eq_some.mp hstep
    split_ifs at hstep <;> obtain rfl := Option.some_inj.mp hstep
    · exact h.move rfl (fun _ hp => hp) fun _ => h i (by simp [hpc, CallerPc.rank])
    · exact h.move rfl (fun _ hp => hp) fun _ => h i (by simp [hpc, CallerPc.rank])
  | expire i =>
    obtain ⟨_, hstep⟩ := Option.ite_none_right_eq_some.mp hstep
    obtain rfl := Option.some_inj.mp hstep
    exact h
  | timerDelete i =>
    obtain ⟨_, hstep⟩ := Option.ite_none_right_eq_some.mp hstep
    split at hstep <;> obtain rfl := Option.some_inj.mp hstep
    · exact h
    · exact h.move rfl (fun _ hp => hp) (h i)
  | onMessage resp =>
    simp only at hstep
    split at hstep <;> obtain rfl := Option.some_inj.mp hstep
    · exact h
    · exact h.move rfl (fun _ hp => hp) (h resp.seq)
  | stopTimer i =>
    obtain ⟨cl, _, _, hstep⟩ := State.claimer_eq_some.mp hstep
    obtain ⟨⟨u, ok⟩, hstop, rfl⟩ := Option.map_eq_some_iff.mp hstep
    obtain ⟨timers, rfl⟩ := State.stop_eq_some hstop
    exact h.move rfl (fun _ hp => hp) (h i)
  | swap i =>
    obtain ⟨cl, _, _, hstep⟩ := State.claimer_eq_some.mp hstep
    rw [State.compareAndSwap_eq] at hstep
    obtain rfl := Option.some_inj.mp hstep
    exact h.move rfl (fun _ hp => timer_setCtx rfl hp) fun hr => timer_setCtx rfl (h i hr)
  | callback i =>
    obtain ⟨cl, _, _, hstep⟩ := State.claimer_eq_some.mp hstep
    split at hstep
    · cases hstep
    · obtain rfl := Option.some_inj.mp hstep
      exact h.move rfl (fun _ hp => hp) (h i)
  | put i =>
    simp only at hstep
    split at hstep
    · cases hstep
    · split at hstep
      · obtain rfl := Option.some_inj.mp hstep
        exact h.finish
      · obtain rfl := Option.some_inj.mp hstep
        exact h.finish
      · cases hstep

theorem Timed.of_reach {ret : V} {guard : State V → Event V → Prop}
    (h : Reach (AsyncCall.step decodeRet) guard (.initial ret) s) : Timed s := by
  refine h.invariant (P := Timed) (fun i hr => absurd hr ?_)
    fun _ _ _ _ htimed _ hstep => htimed.step hstep
  simp [State.initial, CallerPc.rank]

/-! ## The result -/

/-- The request of the call was sent, or is about to be. -/
def Call.NotFailed (c : Call V) : Prop := c.caller.rank < CallerPc.failed.rank

/-- What a call may expect once its timer or its response took its entry.
A response stops the timer.  The swap goes through, then the callback of the
call runs and is given this outcome, and by the end it ran this one time.

A response that comes before `ctx.timer` is set, and so before the request
went out, stops a nil timer if the context is new.  This panics. -/
structure Served (decodeRet : V → ResponseMsg V → V × Option Bytes) (s : State V)
    (i : UInt64) : Prop where
  stopTimer : ∀ cl, (s.calls i).claim = some cl → cl.pc = .removed →
    ((step decodeRet s (.stopTimer i)).isSome ↔ (s.ctxs (s.calls i).ctx).timer.isSome) ∧
    (CallerPc.assigned.rank ≤ (s.calls i).caller.rank →
      ∃ t ok, step decodeRet s (.stopTimer i) = some t ∧
        (t.calls i).claim = some { cl with pc := .ready, timerStopped := ok })
  swap : ∀ cl, (s.calls i).claim = some cl → cl.pc = .ready →
    ∃ t, step decodeRet s (.swap i) = some t ∧
      (t.calls i).claim = some { cl with pc := .fired }
  callback : ∀ cl, (s.calls i).claim = some cl → cl.pc = .fired →
    ∃ t, step decodeRet s (.callback i) = some t ∧
      t.log = s.log ++ [⟨i, outcome decodeRet (s.calls i).ret cl.winner⟩]
  won : (s.calls i).swapResult ≠ some false
  once : s.completions i = ((s.calls i).delivered decodeRet).toList

theorem served_stopTimer (hinv : Inv decodeRet s) (htimed : Timed s) {cl : Claim V}
    (hcl : (s.calls i).claim = some cl) (hpc : cl.pc = .removed) :
    ((step decodeRet s (.stopTimer i)).isSome ↔ (s.ctxs (s.calls i).ctx).timer.isSome) ∧
    (CallerPc.assigned.rank ≤ (s.calls i).caller.rank →
      ∃ t ok, step decodeRet s (.stopTimer i) = some t ∧
        (t.calls i).claim = some { cl with pc := .ready, timerStopped := ok }) := by
  have hctx : cl.ctx = (s.calls i).ctx := ((hinv.calls i).claim cl hcl).1
  have hstep : step decodeRet s (.stopTimer i) =
      (s.stop (s.ctxs (s.calls i).ctx).timer).map fun r =>
        r.1.setCall i ((s.calls i).setClaim { cl with pc := .ready, timerStopped := r.2 }) := by
    simp only [step, State.claimer, hcl, hpc, hctx, if_true]
  have hstop : (s.stop (s.ctxs (s.calls i).ctx).timer).isSome =
      (s.ctxs (s.calls i).ctx).timer.isSome := by
    cases (s.ctxs (s.calls i).ctx).timer with
    | none => rfl
    | some timer =>
      simp only [State.stop]
      split_ifs <;> rfl
  rw [hstep, Option.isSome_map, hstop]
  refine ⟨Iff.rfl, fun hr => ?_⟩
  have hsome := hstop.trans (htimed i hr)
  obtain ⟨⟨u, ok⟩, hu⟩ := Option.isSome_iff_exists.mp hsome
  rw [hu]
  exact ⟨_, ok, rfl, by simp [State.setCall, Call.setClaim]⟩

/-- No call whose request went out loses its completion to another one, in
any run in which the error paths swap their own contexts. -/
theorem async_calls_isolated {ret : V}
    (hs : Reach (step decodeRet) SwapsOwn (.initial ret) s) (i : UInt64)
    (hsent : (s.calls i).NotFailed) : Served decodeRet s i := by
  have hinv : Inv decodeRet s := Inv.of_reach hs
  have hiso := Isolated.of_reach hs
  have hrank : (s.calls i).caller.rank < CallerPc.swapped.rank :=
    lt_trans hsent (by decide)
  have hready : ∀ cl, (s.calls i).claim = some cl →
      CallerPc.ready.rank ≤ (s.calls i).caller.rank := fun cl hcl =>
    le_trans (by decide) ((hinv.calls i).claim cl hcl).2.1
  refine ⟨fun cl hcl hpc => served_stopTimer hinv (Timed.of_reach hs) hcl hpc,
    fun cl hcl hpc => ?_, fun cl hcl hpc => ?_, hiso.won i hrank, hinv.log i⟩
  all_goals
    have hholds := (hinv.calls i).holds_of_claim hcl (by rw [hpc]; decide) (by rw [hpc]; decide)
  · have hnone : (s.calls i).swapResult = none := by
      simp [Call.swapResult, hcl, hpc, ClaimPc.result]
    have hf := hiso.fired_eq_false hholds (hready cl hcl) hrank hnone
    have hcas : s.compareAndSwap cl.ctx =
        (s.setCtx cl.ctx { s.ctxs cl.ctx with fired := true }, true) := by
      rw [State.compareAndSwap_eq, hf]
      rfl
    simp [step, State.claimer, hcl, hpc, hcas, State.setCall, Call.setClaim]
  · have hargs := hinv.args i _ hholds (hready cl hcl)
    simp [step, State.claimer, hcl, hpc, hargs, State.setCall, State.run]

/-! ## Runs -/

/-- A response that decodes always. -/
def decodeNothing : Unit → ResponseMsg Unit → Unit × Option Bytes := fun r _ => (r, none)

/-- The caller of `i` up to the request. -/
def upToRequest (i : UInt64) (choice : Option Ptr) : List (Event Unit) :=
  [.get i () choice, .initialise i, .store i, .afterFunc i, .setTimer i, .request i]

/-- The deadline of `i` passes, and its timer function runs to the end. -/
def timeout (i : UInt64) : List (Event Unit) :=
  [.expire i, .timerDelete i, .swap i, .callback i, .put i]

/-- The deadline of call 1 passes during its request, and call 2 gets the
context of call 1 from the pool. -/
def contextReused : List (Event Unit) :=
  upToRequest 1 none ++ timeout 1 ++ upToRequest 2 (some 0) ++ [.requestReturn 2 false]

/-- The request of call 1 fails at last, and its error path runs up to the
swap.  Then the timer of call 2 goes off. -/
def completionStolen : List (Event Unit) :=
  [.requestReturn 1 true, .errDelete 1, .errStop 1, .errSwap 1,
    .expire 2, .timerDelete 2, .swap 2, .put 2]

/-- The request of call 2 succeeded, its timer took its entry, and the swap
fails because the error path of call 1 made it.  The callback of call 2
does not run. -/
theorem completion_consumed :
    ∃ s, Reachable (step decodeNothing) (.initial ()) s ∧
      (s.calls 2).caller = .returnedNil ∧ (s.calls 2).swapResult = some false ∧
      s.completions 2 = [] := by
  have hrun : (run (step decodeNothing) (.initial ())
      (contextReused ++ completionStolen)).map (fun s => ((s.calls 2).caller,
        (s.calls 2).swapResult, (s.completions 2).length)) =
      some (.returnedNil, some false, 0) := by
    decide +kernel
  obtain ⟨s, hs, hfacts⟩ := Option.map_eq_some_iff.mp hrun
  simp only [Prod.mk.injEq, List.length_eq_zero_iff] at hfacts
  exact ⟨s, Reach.of_run hs, hfacts⟩

/-- Without the error path the same two calls are served: the timer of call
2 took its entry and ran its callback. -/
theorem async_calls_isolated_reused :
    ∃ s, Reach (step decodeNothing) SwapsOwn (.initial ()) s ∧ (s.calls 2).NotFailed ∧
      (s.completions 2).length = 1 ∧ Served decodeNothing s 2 := by
  have hrun : (run (step decodeNothing) (.initial ())
      (contextReused ++ timeout 2)).map (fun s => ((s.calls 2).caller,
        (s.completions 2).length)) = some (.returnedNil, 1) := by
    decide +kernel
  obtain ⟨s, hs, hfacts⟩ := Option.map_eq_some_iff.mp hrun
  simp only [Prod.mk.injEq] at hfacts
  have hreach : Reach (step decodeNothing) SwapsOwn (.initial ()) s := by
    refine Reach.run .start (fun e he u => ?_) hs
    cases e with
    | errSwap i => simp [contextReused, upToRequest, timeout] at he
    | _ => trivial
  have hsent : (s.calls 2).NotFailed := by
    rw [Call.NotFailed, hfacts.1]
    decide
  exact ⟨s, hreach, hsent, hfacts.2, async_calls_isolated hreach 2 hsent⟩

end ClusterGo.Rpc.AsyncCall
