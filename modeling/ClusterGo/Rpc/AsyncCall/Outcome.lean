import ClusterGo.Rpc.AsyncCall.Isolation

/-!
# One outcome per asynchronous call

A callback runs at most once: one party takes the entry, and only this
party runs it.  This holds in every run.

A caller that is told of an error should not see its callback run.  The
error path gives up the call by swapping `fired`, and it returns the error
whether the swap succeeds or not.  When the deadline passes while the
request is still on its way, the timer takes the entry and runs the
callback, and then the request fails and the caller is told of the error
as well: `outcome_reported_twice`.

`SwapsFirst` is the condition that the error path took the entry itself or
makes its swap in time.  `async_call_one_outcome` says that it is enough,
and `swapsFirst_iff` that it is also needed: a run that has met it so far
fails to meet it exactly when the callback is already under way.
-/

namespace ClusterGo.Rpc.AsyncCall

open Transition

variable {V : Type}

/-- The error path took the entry, or its swap will succeed on its own
context. -/
def SwapsFirst (s : State V) : Event V → Prop
  | .errSwap i => (s.calls i).errWon = true ∨
    (s.calls i).released = false ∧ (s.ctxs (s.calls i).ctx).fired = false
  | _ => True

/-- No callback is under way for a caller that will be told of an error. -/
def GivenUp (s : State V) : Prop :=
  ∀ i, CallerPc.swapped.rank ≤ (s.calls i).caller.rank →
    (s.calls i).swapResult ≠ some true

variable {decodeRet : V → ResponseMsg V → V × Option Bytes} {s t : State V} {i : UInt64}
  {c : Call V}

theorem GivenUp.move (h : GivenUp s) (hcalls : t.calls = Function.update s.calls i c)
    (hc : CallerPc.swapped.rank ≤ c.caller.rank → c.swapResult ≠ some true) :
    GivenUp t := by
  intro j hr
  rcases eq_or_ne j i with rfl | hj
  · rw [hcalls, Function.update_self] at hr ⊢
    exact hc hr
  · rw [hcalls, Function.update_of_ne hj] at hr ⊢
    exact h j hr

/-- A call that was not claimed has no result of a swap. -/
theorem Call.swapResult_of_not_claimed (h : ¬ c.Claimed) : c.swapResult = none := by
  by_contra hne
  exact h (.inr hne)

/-- An error path that meets the condition comes before any other swap of
its call. -/
theorem Inv.swapResult_of_swapsFirst (hinv : Inv decodeRet s)
    (hpc : (s.calls i).caller = .stopped) (hfirst : SwapsFirst s (.errSwap i)) :
    (s.calls i).swapResult = none := by
  rcases hfirst with hwon | ⟨hrel, hf⟩
  · -- the entry went to the error path, so nobody else has it
    cases hcl : (s.calls i).claim with
    | none => simp [Call.swapResult, hcl]
    | some cl =>
      exact absurd (hwon.symm.trans ((hinv.calls i).claim cl hcl).2.2.1) (by decide)
  · refine Call.swapResult_of_not_claimed fun hclaimed => ?_
    have hholds : (s.calls i).holds = some (s.calls i).ctx :=
      Call.holds_eq_some.mpr ⟨by rw [hpc]; decide, hrel, rfl⟩
    exact absurd ((hinv.fired i _ hholds hclaimed).symm.trans hf) (by decide)

/-- One step of a run that meets the condition. -/
theorem GivenUp.step (hinv : Inv decodeRet s) (h : GivenUp s) {e : Event V}
    (hfirst : SwapsFirst s e) (hstep : AsyncCall.step decodeRet s e = some t) :
    GivenUp t := by
  cases step_effect hinv.calls hstep with
  | get hpc hget => exact h.move rfl fun _ => by simp [Call.swapResult]
  | @initialise i hpc =>
    refine h.move rfl fun hr => ?_
    exact absurd hr (show ¬ CallerPc.swapped.rank ≤ CallerPc.ready.rank by decide)
  | @errSwap i hpc =>
    refine h.move rfl fun _ => ?_
    show (s.calls i).swapResult ≠ some true
    rw [hinv.swapResult_of_swapsFirst hpc hfirst]
    decide
  | @swap i cl hcl hpc =>
    refine h.move rfl fun hr => ?_
    -- the error path swapped before, so the word is set
    have hholds := (hinv.calls i).holds_of_claim hcl (by rw [hpc]; decide) (by rw [hpc]; decide)
    have hf := hinv.fired i _ hholds (.inl hr)
    simp [Call.swapResult, Call.setClaim, hf, ClaimPc.result]
  | @callback i cl args hcl hpc hargs =>
    refine h.move rfl fun hr => ?_
    exact absurd (by simp [Call.swapResult, hcl, hpc, ClaimPc.result]) (h i hr)
  | quiet i c hquiet =>
    refine h.move hquiet.calls fun hr => ?_
    rw [hquiet.swapResult]
    exact h i (hquiet.swapped hr)

theorem GivenUp.of_reach {ret : V}
    (h : Reach (AsyncCall.step decodeRet) SwapsFirst (.initial ret) s) : GivenUp s :=
  h.invariant (fun i hr => absurd hr (show ¬ CallerPc.swapped.rank ≤ CallerPc.idle.rank by
    decide)) fun _ _ _ hreach hup hfirst hstep =>
      hup.step (Inv.of_reach hreach) hfirst hstep

/-- The callback ran only if the swap of its party succeeded. -/
theorem Call.delivered_eq_none (h : c.swapResult ≠ some true) :
    c.delivered decodeRet = none := by
  unfold Call.delivered
  cases hcl : c.claim with
  | none => rfl
  | some cl =>
    refine if_neg fun hpc => h ?_
    rcases hpc with hpc | hpc <;> simp [Call.swapResult, hcl, hpc, ClaimPc.result]

/-- In any run whose error paths swap in time, a caller that was told of an
error does not see its callback run, and no callback runs twice. -/
theorem async_call_one_outcome {ret : V}
    (hs : Reach (step decodeRet) SwapsFirst (.initial ret) s) (i : UInt64) :
    ((s.calls i).caller = .returnedErr → s.completions i = []) ∧
      (s.completions i).length ≤ 1 := by
  have hinv : Inv decodeRet s := Inv.of_reach hs
  rw [hinv.log i]
  constructor
  · intro hret
    have hup := GivenUp.of_reach hs i (by rw [hret]; decide)
    rw [Call.delivered_eq_none hup]
    rfl
  · cases (s.calls i).delivered decodeRet <;> simp

/-! ## The condition is exact -/

/-- The step of an error path that meets the condition also meets the one
that isolates the calls. -/
theorem Inv.swapsOwn_of_swapsFirst (hinv : Inv decodeRet s) {e : Event V}
    (hstep : AsyncCall.step decodeRet s e = some t) (h : SwapsFirst s e) :
    SwapsOwn s e := by
  cases e with
  | errSwap i =>
    rw [AsyncCall.step, State.caller_eq_some] at hstep
    rcases h with hwon | ⟨hrel, -⟩
    · have hholds := (hinv.calls i).holds_of_errWon hwon (by rw [hstep.1]; decide)
      exact .inl (Call.holds_eq_some.mp hholds).2.1
    · exact .inl hrel
  | _ => trivial

/-- In a run that met the condition so far, the error path of `i` is about
to break it exactly when the callback of `i` ran or is about to run. -/
theorem swapsFirst_iff {ret : V}
    (hs : Reach (step decodeRet) SwapsFirst (.initial ret) s)
    (hpc : (s.calls i).caller = .stopped) :
    SwapsFirst s (.errSwap i) ↔ (s.calls i).swapResult ≠ some true := by
  have hinv : Inv decodeRet s := Inv.of_reach hs
  have hiso : Isolated s := hs.invariant (Isolated.initial ret)
    fun _ _ _ hreach hiso hfirst hstep =>
      have hinv := Inv.of_reach hreach
      hiso.step hinv (hinv.swapsOwn_of_swapsFirst hstep hfirst) hstep
  have hrank : (s.calls i).caller.rank < CallerPc.swapped.rank := by rw [hpc]; decide
  constructor
  · intro hfirst
    rw [hinv.swapResult_of_swapsFirst hpc hfirst]
    decide
  · intro hnot
    -- no swap of this call was made yet
    have hnone : (s.calls i).swapResult = none := by
      cases hresult : (s.calls i).swapResult with
      | none => rfl
      | some ok =>
        cases ok with
        | false => exact absurd hresult (hiso.won i hrank)
        | true => exact absurd hresult hnot
    cases hwon : (s.calls i).errWon with
    | true => exact .inl hwon
    | false =>
      have hrel : (s.calls i).released = false := by
        by_contra hne
        have htrue : (s.calls i).released = true := Bool.not_eq_false _ ▸ hne
        rcases (hinv.calls i).released htrue with hclaim | hwon'
        · obtain ⟨cl, hcl⟩ := Option.ne_none_iff_exists'.mp hclaim
          rcases ((hinv.calls i).claim cl hcl).2.2.2 htrue with hend | hend <;>
            simp [Call.swapResult, hcl, hend, ClaimPc.result] at hnone
        · exact absurd (hwon'.symm.trans hwon) (by decide)
      have hholds : (s.calls i).holds = some (s.calls i).ctx :=
        Call.holds_eq_some.mpr ⟨by rw [hpc]; decide, hrel, rfl⟩
      exact .inr ⟨hrel, hiso.fired_eq_false hholds (by rw [hpc]; decide) hrank hnone⟩

/-! ## Runs -/

/-- The request of call 1 fails, and the error path runs up to its swap. -/
def requestFails : List (Event Unit) :=
  [.requestReturn 1 true, .errDelete 1, .errStop 1]

/-- The deadline passes during the request and the callback runs, then the
request fails and `AsyncCall` returns the error too. -/
theorem outcome_reported_twice :
    ∃ s, Reachable (step decodeNothing) (.initial ()) s ∧
      (s.calls 1).caller = .returnedErr ∧ (s.completions 1).length = 1 := by
  have hrun : (run (step decodeNothing) (.initial ())
      (upToRequest 1 none ++ timeout 1 ++ requestFails ++ [.errSwap 1, .errPut 1])).map
        (fun s => ((s.calls 1).caller, (s.completions 1).length)) =
      some (.returnedErr, 1) := by
    decide +kernel
  obtain ⟨s, hs, hfacts⟩ := Option.map_eq_some_iff.mp hrun
  exact ⟨s, Reach.of_run hs, by simpa using hfacts⟩

/-- A request that fails before the deadline: the error path takes the
entry, and the error is the only outcome. -/
theorem async_call_one_outcome_failed :
    ∃ s, Reach (step decodeNothing) SwapsFirst (.initial ()) s ∧
      (s.calls 1).caller = .returnedErr ∧ s.completions 1 = [] := by
  have hfail : (run (step decodeNothing) (.initial ())
      (upToRequest 1 none ++ requestFails)).map (fun s => (s.calls 1).errWon) =
      some true := by
    decide +kernel
  have hend : (run (step decodeNothing) (.initial ())
      (upToRequest 1 none ++ requestFails ++ [.errSwap 1, .errPut 1])).map
        (fun s => (s.calls 1).caller) = some .returnedErr := by
    decide +kernel
  obtain ⟨s, hs, hwon⟩ := Option.map_eq_some_iff.mp hfail
  obtain ⟨u, hu, hret⟩ := Option.map_eq_some_iff.mp hend
  rw [run_append hs] at hu
  obtain ⟨t, hswap, ht⟩ := Option.bind_eq_some_iff.mp hu
  have hreach : Reach (step decodeNothing) SwapsFirst (.initial ()) s := by
    refine Reach.run .start (fun e he _ => ?_) hs
    cases e with
    | errSwap i => simp [upToRequest, requestFails] at he
    | _ => trivial
  have hfirst : SwapsFirst s (.errSwap 1) := .inl hwon
  have hreach : Reach (step decodeNothing) SwapsFirst (.initial ()) u := by
    refine Reach.run (.next hreach hfirst hswap) (fun e he _ => ?_) ht
    rw [List.mem_singleton.mp he]
    trivial
  exact ⟨u, hreach, hret, (async_call_one_outcome hreach 1).1 hret⟩

end ClusterGo.Rpc.AsyncCall
