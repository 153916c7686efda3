import ClusterGo.Rpc.AsyncCall.Effect

/-!
# Who may touch a context

The entry of a call in the pending map is taken once, by the timer, by
`OnMessage` or by the error path of the caller, and only the one that took
it puts the context back.  So a call holds its context from `Get` until
that one is done with it, and no other call holds it in this time.

`Inv` says this for every state that a run reaches, whatever the error
paths swap.  It also says what follows from it: the callback that runs for
a call is its own, it is given the outcome that took the entry, and it runs
at most once.
-/

namespace ClusterGo.Rpc.AsyncCall

variable {V : Type}

structure Inv (decodeRet : V → ResponseMsg V → V × Option Bytes) (s : State V) :
    Prop where
  calls : ∀ i, (s.calls i).WellFormed (s.pending i)
  pool : Pool.Sound s.pool s.next fun i => (s.calls i).holds
  args : ∀ i p, (s.calls i).holds = some p →
    CallerPc.ready.rank ≤ (s.calls i).caller.rank →
    (s.ctxs p).args = some ⟨i, (s.calls i).ret⟩
  fired : ∀ i p, (s.calls i).holds = some p → (s.calls i).Claimed →
    (s.ctxs p).fired = true
  log : ∀ i, s.completions i = ((s.calls i).delivered decodeRet).toList

variable {decodeRet : V → ResponseMsg V → V × Option Bytes} {s t : State V} {i : UInt64}
  {c : Call V}

theorem Inv.initial (ret : V) : Inv decodeRet (State.initial ret) where
  calls i := by constructor <;> simp [State.initial]
  pool := Pool.Sound.empty
  args i p h := by simp [State.initial, Call.holds] at h
  fired i p h := by simp [State.initial, Call.holds] at h
  log i := rfl

/-- A step that moves call `i` to `c` keeps the invariant if `c` is as the
invariant says and the step leaves alone what the others have. -/
theorem Inv.move (h : Inv decodeRet s) (hcalls : t.calls = Function.update s.calls i c)
    (hpending : ∀ j, j ≠ i → t.pending j = s.pending j)
    (hwf : c.WellFormed (t.pending i))
    (hpool : Pool.Sound t.pool t.next
      (Function.update (fun j => (s.calls j).holds) i c.holds))
    (hothers : ∀ j p, j ≠ i → (s.calls j).holds = some p →
      (t.ctxs p).args = (s.ctxs p).args ∧
        ((s.ctxs p).fired = true → (t.ctxs p).fired = true))
    (hargs : ∀ p, c.holds = some p → CallerPc.ready.rank ≤ c.caller.rank →
      (t.ctxs p).args = some ⟨i, c.ret⟩)
    (hfired : ∀ p, c.holds = some p → c.Claimed → (t.ctxs p).fired = true)
    (hlogs : ∀ j, j ≠ i → t.completions j = s.completions j)
    (hlog : t.completions i = (c.delivered decodeRet).toList) : Inv decodeRet t := by
  have hself : t.calls i = c := by rw [hcalls, Function.update_self]
  have hne : ∀ j, j ≠ i → t.calls j = s.calls j := fun j hj => by
    rw [hcalls, Function.update_of_ne hj]
  have hholds : (fun j => (t.calls j).holds) =
      Function.update (fun j => (s.calls j).holds) i c.holds := by
    funext j
    rcases eq_or_ne j i with rfl | hj
    · rw [hself, Function.update_self]
    · rw [hne j hj, Function.update_of_ne hj]
  refine ⟨fun j => ?_, hholds ▸ hpool, fun j p hp hr => ?_, fun j p hp hc => ?_,
    fun j => ?_⟩
  all_goals rcases eq_or_ne j i with rfl | hj
  · exact hself ▸ hwf
  · exact hne j hj ▸ hpending j hj ▸ h.calls j
  · rw [hself] at hp hr ⊢
    exact hargs p hp hr
  · rw [hne j hj] at hp hr ⊢
    exact (hothers j p hj hp).1.trans (h.args j p hp hr)
  · rw [hself] at hp hc
    exact hfired p hp hc
  · rw [hne j hj] at hp hc
    exact (hothers j p hj hp).2 (h.fired j p hp hc)
  · exact hself ▸ hlog
  · rw [hlogs j hj, hne j hj]
    exact h.log j

/-! ## The six effects -/

theorem completions_congr (hlog : t.log = s.log) (j : UInt64) :
    t.completions j = s.completions j := by
  rw [State.completions, hlog, State.completions]

/-- A party of the call swapped, before a quiet step and after it. -/
theorem Quiet.claimed_iff (h : Quiet decodeRet s t i c) :
    c.Claimed ↔ (s.calls i).Claimed := by
  refine or_congr ⟨h.swapped, fun hrank => hrank.trans h.rank_le⟩ ?_
  rw [h.swapResult]

/-- A quiet step hands no context out. -/
theorem Quiet.holds_of_holds (h : Quiet decodeRet s t i c) {p : Ptr}
    (hp : c.holds = some p) : (s.calls i).holds = some p := by
  rcases h.pool with ⟨heq, -⟩ | ⟨hnone, -⟩
  · exact heq ▸ hp
  · exact absurd (hp.symm.trans hnone) (Option.some_ne_none p)

theorem Inv.quiet (h : Inv decodeRet s) (hq : Quiet decodeRet s t i c) :
    Inv decodeRet t := by
  refine h.move hq.calls hq.pending hq.wellFormed ?_
    (fun j p _ _ => ⟨hq.args p, fun hf => (hq.fired p).trans hf⟩)
    (fun p hp hr => ?_) (fun p hp hc => ?_) (fun j _ => completions_congr hq.log j) ?_
  · rw [hq.next]
    rcases hq.pool with ⟨heq, hpool⟩ | ⟨hnone, p, hp, hpool⟩
    · rw [hpool, heq, Function.update_eq_self]
      exact h.pool
    · rw [hpool, hnone]
      exact h.pool.put hp
  · rw [hq.args, hq.ret]
    exact h.args i p (hq.holds_of_holds hp) (hq.ready hr)
  · rw [hq.fired]
    exact h.fired i p (hq.holds_of_holds hp) (hq.claimed_iff.mp hc)
  · rw [completions_congr hq.log, hq.delivered]
    exact h.log i

theorem Inv.get (h : Inv decodeRet s) (hpc : (s.calls i).caller = .idle)
    {choice : Option Ptr} {p next : Ptr} {pool : List Ptr} (ret : V)
    (hget : Pool.get s.pool s.next choice = some (p, pool, next)) :
    Inv decodeRet ({ s with pool, next }.setCall i { caller := .got, ctx := p, ret }) := by
  have hrank : (s.calls i).caller.rank < CallerPc.stored.rank := by rw [hpc]; decide
  refine h.move rfl (fun _ _ => rfl) ?_ (h.pool.get hget i) (fun _ _ _ _ => ⟨rfl, id⟩)
    (fun q _ hr => ?_) (fun q _ hc => ?_) (fun _ _ => rfl) ?_
  · show Call.WellFormed _ (s.pending i)
    rw [(h.calls i).entry_eq_none hrank]
    constructor <;> simp
  · exact absurd hr (show ¬ CallerPc.ready.rank ≤ CallerPc.got.rank by decide)
  · rcases hc with hr | hresult
    · exact absurd hr (show ¬ CallerPc.swapped.rank ≤ CallerPc.got.rank by decide)
    · exact absurd rfl hresult
  · show s.completions i = []
    rw [h.log i, Call.delivered, (h.calls i).claim_eq_none hrank]
    rfl

/-- A call before its store holds the context that it got. -/
theorem Call.WellFormed.holds_of_got {entry : Option Ptr} (h : c.WellFormed entry)
    (hpc : c.caller = .got) : c.holds = some c.ctx := by
  refine Call.holds_eq_some.mpr ⟨by rw [hpc]; decide, ?_, rfl⟩
  have hclaim := h.claim_eq_none (by rw [hpc]; decide)
  have hwon := h.errWon_eq_false (by rw [hpc]; decide)
  by_contra hne
  rcases h.released (Bool.not_eq_false _ ▸ hne) with hsome | htrue
  · exact hsome hclaim
  · exact absurd (htrue.symm.trans hwon) (by decide)

theorem Inv.initialise (h : Inv decodeRet s) (hpc : (s.calls i).caller = .got) :
    Inv decodeRet ((s.setCtx (s.calls i).ctx { s.ctxs (s.calls i).ctx with
      fired := false, args := some ⟨i, (s.calls i).ret⟩ }).setCall i
        { s.calls i with caller := .ready }) := by
  have hholds := (h.calls i).holds_of_got hpc
  have hclaim := (h.calls i).claim_eq_none (by rw [hpc]; decide)
  have hkeep : ({ s.calls i with caller := .ready } : Call V).holds = (s.calls i).holds := by
    simp [Call.holds, hpc]
  refine h.move rfl (fun _ _ => rfl) ?_ ?_ (fun j p hj hp => ?_) (fun p hp _ => ?_)
    (fun p _ hc => ?_) (fun _ _ => rfl) ?_
  · exact (h.calls i).setCaller (by rw [hpc]; decide) (by rw [hpc]; decide) _
      (h.calls i).timerStopped
  · rw [hkeep, Function.update_eq_self]
    exact h.pool
  · -- no other call has this context
    have hne : p ≠ (s.calls i).ctx := by
      intro heq
      subst heq
      exact hj (h.pool.exclusive j i _ hp hholds)
    simp [State.setCall, State.setCtx, hne]
  · rw [hkeep, hholds, Option.some_inj] at hp
    subst hp
    simp [State.setCall, State.setCtx]
  · rcases hc with hr | hresult
    · exact absurd hr (show ¬ CallerPc.swapped.rank ≤ CallerPc.ready.rank by decide)
    · exact absurd (by simp [Call.swapResult, hclaim]) hresult
  · exact h.log i

/-- Whoever swaps, the invariant does not mind: it asks for `fired` only
where it is set. -/
theorem Inv.swapped (h : Inv decodeRet s) {p : Ptr} (hctx : (s.calls i).ctx = p)
    (hwf : c.WellFormed (s.pending i)) (hholds : c.holds = (s.calls i).holds)
    (hret : c.ret = (s.calls i).ret)
    (hready : CallerPc.ready.rank ≤ (s.calls i).caller.rank)
    (hdel : c.delivered decodeRet = (s.calls i).delivered decodeRet) :
    Inv decodeRet ((s.setCtx p { s.ctxs p with fired := true }).setCall i c) := by
  have hctxs : ∀ q, (Function.update s.ctxs p { s.ctxs p with fired := true } q).args =
      (s.ctxs q).args ∧ ((s.ctxs q).fired = true →
        (Function.update s.ctxs p { s.ctxs p with fired := true } q).fired = true) := by
    intro q
    rcases eq_or_ne q p with rfl | hq
    · simp
    · simp [hq]
  refine h.move rfl (fun _ _ => rfl) hwf ?_ (fun _ q _ _ => hctxs q) (fun q hq _ => ?_)
    (fun q hq _ => ?_) (fun _ _ => rfl) ?_
  · rw [hholds, Function.update_eq_self]
    exact h.pool
  · rw [hret]
    exact (hctxs q).1.trans (h.args i q (hholds ▸ hq) hready)
  · have heq : p = q := hctx.symm.trans (Call.holds_eq_some.mp (hholds ▸ hq)).2.2
    subst heq
    simp [State.setCall, State.setCtx]
  · rw [hdel]
    exact h.log i

theorem Inv.errSwap (h : Inv decodeRet s) (hpc : (s.calls i).caller = .stopped)
    (errFired : Bool) :
    Inv decodeRet ((s.setCtx (s.calls i).ctx
      { s.ctxs (s.calls i).ctx with fired := true }).setCall i
        { s.calls i with caller := .swapped, errFired }) := by
  refine h.swapped rfl ?_ ?_ rfl (by rw [hpc]; decide) rfl
  · exact (h.calls i).setCaller (by rw [hpc]; decide) (by rw [hpc]; decide) _
      (h.calls i).timerStopped
  · simp [Call.holds, hpc]

theorem Inv.swap (h : Inv decodeRet s) {cl : Claim V} (hcl : (s.calls i).claim = some cl)
    (hpc : cl.pc = .ready) {pc : ClaimPc} (hres : pc = .fired ∨ pc = .lost) :
    Inv decodeRet ((s.setCtx cl.ctx { s.ctxs cl.ctx with fired := true }).setCall i
      ((s.calls i).setClaim { cl with pc })) := by
  obtain ⟨hctx, hrank, -, hrel⟩ := (h.calls i).claim cl hcl
  refine h.swapped hctx.symm ((h.calls i).setClaim hcl rfl fun hr => ?_) rfl rfl
    (le_trans (by decide) hrank) ?_
  · rcases hrel hr with hend | hend
    · exact absurd (hpc.symm.trans hend) (by decide)
    · exact absurd (hpc.symm.trans hend) (by decide)
  · rcases hres with rfl | rfl <;> simp [Call.delivered, Call.setClaim, hcl, hpc]

/-- The context still belongs to the call whose party runs the callback. -/
theorem Inv.callback (h : Inv decodeRet s) {cl : Claim V} {args : Args V}
    (hcl : (s.calls i).claim = some cl) (hpc : cl.pc = .fired)
    (hargs : (s.ctxs cl.ctx).args = some args) :
    args = ⟨i, (s.calls i).ret⟩ ∧
      Inv decodeRet ((s.run args.seq (outcome decodeRet args.ret cl.winner)).setCall i
        ((s.calls i).setClaim { cl with pc := .ran })) := by
  obtain ⟨-, hrank, -, hrel⟩ := (h.calls i).claim cl hcl
  have hholds : (s.calls i).holds = some cl.ctx :=
    (h.calls i).holds_of_claim hcl (by rw [hpc]; decide) (by rw [hpc]; decide)
  have hready : CallerPc.ready.rank ≤ (s.calls i).caller.rank := le_trans (by decide) hrank
  obtain rfl := Option.some_inj.mp (hargs.symm.trans (h.args i _ hholds hready))
  refine ⟨rfl, h.move rfl (fun _ _ => rfl) ((h.calls i).setClaim hcl rfl fun hr => ?_) ?_
    (fun _ _ _ _ => ⟨rfl, id⟩) (fun p hp hr => h.args i p hp hr) (fun p hp _ => ?_)
    (fun j hj => ?_) ?_⟩
  · rcases hrel hr with hend | hend
    · exact absurd (hpc.symm.trans hend) (by decide)
    · exact absurd (hpc.symm.trans hend) (by decide)
  · show Pool.Sound s.pool s.next
      (Function.update (fun j => (s.calls j).holds) i (s.calls i).holds)
    rw [Function.update_eq_self]
    exact h.pool
  · refine h.fired i p hp (.inr ?_)
    simp [Call.swapResult, hcl, hpc, ClaimPc.result]
  · simp [State.completions, State.setCall, State.run, List.filter_append, Ne.symm hj]
  · have hold : s.completions i = [] := by
      rw [h.log i]
      simp [Call.delivered, hcl, hpc]
    simp only [State.completions] at hold
    simp [State.completions, State.setCall, State.run, List.filter_append, hold,
      Call.delivered, Call.setClaim]

/-- One step keeps the invariant. -/
theorem Inv.step (h : Inv decodeRet s) {e : Event V}
    (hstep : AsyncCall.step decodeRet s e = some t) : Inv decodeRet t := by
  cases step_effect h.calls hstep with
  | get hpc hget => exact h.get hpc _ hget
  | initialise hpc => exact h.initialise hpc
  | errSwap hpc => exact h.errSwap hpc _
  | swap hcl hpc =>
    refine h.swap hcl hpc ?_
    split
    · exact .inl rfl
    · exact .inr rfl
  | callback hcl hpc hargs => exact (h.callback hcl hpc hargs).2
  | quiet i c hquiet => exact h.quiet hquiet

/-- Every run keeps the invariant, whatever its steps are. -/
theorem Inv.of_reach {guard : State V → Event V → Prop} {ret : V}
    (h : Transition.Reach (AsyncCall.step decodeRet) guard (.initial ret) s) :
    Inv decodeRet s :=
  h.invariant (Inv.initial ret) fun _ _ _ _ hinv _ hstep => hinv.step hstep

end ClusterGo.Rpc.AsyncCall
