import ClusterGo.Rpc.AsyncCall.Basic

/-!
# What a step of an asynchronous call does

`Call.WellFormed` relates the caller, the party that took the entry of the
call from the pending map, and the entry itself.  `Effect` lists what a
step can do to such calls: get a context, initialise it, swap `fired` from
the error path or from the party that took the entry, run the callback, or
something `Quiet` that only moves one call on.

Every invariant of the runs is then a matter of these six cases.
-/

namespace ClusterGo.Rpc.AsyncCall

variable {V : Type}

/-! ## What a call has and what it did -/

/-- The context that the call holds. -/
def Call.holds (c : Call V) : Option Ptr :=
  if c.caller = .idle ∨ c.released = true then none else some c.ctx

/-- What came out of the swap on `fired`, once it was made. -/
def ClaimPc.result : ClaimPc → Option Bool
  | removed | ready => none
  | fired | ran | done => some true
  | lost | gone => some false

/-- What came out of the swap of the party that took the entry. -/
def Call.swapResult (c : Call V) : Option Bool :=
  c.claim.bind fun cl => cl.pc.result

/-- One of the parties of the call made its swap on `fired`. -/
def Call.Claimed (c : Call V) : Prop :=
  CallerPc.swapped.rank ≤ c.caller.rank ∨ c.swapResult ≠ none

/-- What the callback of the call was given, once it ran. -/
def Call.delivered (decodeRet : V → ResponseMsg V → V × Option Bytes) (c : Call V) :
    Option (V × Option Error) :=
  match c.claim with
  | none => none
  | some cl =>
    if cl.pc = .ran ∨ cl.pc = .done then some (outcome decodeRet c.ret cl.winner) else none

/-- What the callback of the call was given, run by run. -/
def State.completions (s : State V) (i : UInt64) : List (V × Option Error) :=
  (s.log.filter fun x => x.callee = i).map Callback.result

/-- At most one party took the entry of the call, and the context goes back
to the pool only at the end of the one that did. -/
structure Call.WellFormed (c : Call V) (entry : Option Ptr) : Prop where
  entry : ∀ p, entry = some p → p = c.ctx ∧ CallerPc.stored.rank ≤ c.caller.rank ∧
    c.claim = none ∧ c.errWon = false
  claim : ∀ cl, c.claim = some cl → cl.ctx = c.ctx ∧
    CallerPc.stored.rank ≤ c.caller.rank ∧ c.errWon = false ∧
    (c.released = true → cl.pc = .done ∨ cl.pc = .gone)
  errWon : c.errWon = true → CallerPc.removed.rank ≤ c.caller.rank ∧
    (c.released = true → c.caller = .returnedErr)
  timerStopped : c.timerStopped = true → c.errWon = true
  released : c.released = true → c.claim ≠ none ∨ c.errWon = true

theorem Call.holds_eq_some {c : Call V} {p : Ptr} :
    c.holds = some p ↔ c.caller ≠ .idle ∧ c.released = false ∧ c.ctx = p := by
  unfold Call.holds
  split_ifs with h
  · simp only [false_iff]
    rcases h with h | h <;> simp [h]
  · simp only [not_or, Bool.not_eq_true] at h
    simp [h]

theorem CallerPc.ne_idle_of_le {pc pc' : CallerPc} (hne : pc ≠ .idle)
    (h : pc.rank ≤ pc'.rank) : pc' ≠ .idle := by
  intro heq
  subst heq
  cases pc <;> simp_all [CallerPc.rank]

/-- A party that took the entry and is not at its end has the context. -/
theorem Call.WellFormed.holds_of_claim {c : Call V} {entry : Option Ptr}
    (h : c.WellFormed entry) {cl : Claim V} (hcl : c.claim = some cl)
    (hdone : cl.pc ≠ .done) (hgone : cl.pc ≠ .gone) : c.holds = some cl.ctx := by
  obtain ⟨hctx, hrank, -, hrel⟩ := h.claim cl hcl
  refine Call.holds_eq_some.mpr ⟨CallerPc.ne_idle_of_le (by decide) hrank, ?_, hctx.symm⟩
  by_contra hne
  rcases hrel (Bool.not_eq_false _ ▸ hne) with hpc | hpc
  · exact hdone hpc
  · exact hgone hpc

/-- An error path that took the entry and has not returned has the
context. -/
theorem Call.WellFormed.holds_of_errWon {c : Call V} {entry : Option Ptr}
    (h : c.WellFormed entry) (hwon : c.errWon = true) (hret : c.caller ≠ .returnedErr) :
    c.holds = some c.ctx := by
  obtain ⟨hrank, hrel⟩ := h.errWon hwon
  refine Call.holds_eq_some.mpr ⟨CallerPc.ne_idle_of_le (by decide) hrank, ?_, rfl⟩
  by_contra hne
  exact hret (hrel (Bool.not_eq_false _ ▸ hne))

/-! ## Well-formed calls stay so -/

section WellFormed

variable {c : Call V} {entry : Option Ptr}

theorem Call.WellFormed.entry_eq_none (h : c.WellFormed entry)
    (hrank : c.caller.rank < CallerPc.stored.rank) : entry = none := by
  cases hentry : entry with
  | none => rfl
  | some p =>
    have := (h.entry p hentry).2.1
    omega

theorem Call.WellFormed.claim_eq_none (h : c.WellFormed entry)
    (hrank : c.caller.rank < CallerPc.stored.rank) : c.claim = none := by
  cases hclaim : c.claim with
  | none => rfl
  | some cl =>
    have := (h.claim cl hclaim).2.1
    omega

theorem Call.WellFormed.errWon_eq_false (h : c.WellFormed entry)
    (hrank : c.caller.rank < CallerPc.removed.rank) : c.errWon = false := by
  cases hwon : c.errWon with
  | false => rfl
  | true =>
    have := (h.errWon hwon).1
    omega

/-- The caller goes on; it may learn that it stopped the timer if it took
the entry. -/
theorem Call.WellFormed.setCaller (h : c.WellFormed entry) {pc : CallerPc}
    (hle : c.caller.rank ≤ pc.rank) (hret : c.caller ≠ .returnedErr) (errFired : Bool)
    {timerStopped : Bool} (hstop : timerStopped = true → c.errWon = true) :
    ({ c with caller := pc, errFired, timerStopped } : Call V).WellFormed entry where
  entry p hp := by
    obtain ⟨hctx, hrank, hrest⟩ := h.entry p hp
    exact ⟨hctx, hrank.trans hle, hrest⟩
  claim cl hcl := by
    obtain ⟨hctx, hrank, hrest⟩ := h.claim cl hcl
    exact ⟨hctx, hrank.trans hle, hrest⟩
  errWon hwon := by
    obtain ⟨hrank, hrel⟩ := h.errWon hwon
    exact ⟨hrank.trans hle, fun hr => absurd (hrel hr) hret⟩
  timerStopped := hstop
  released := h.released

/-- The caller stores its context under its sequence number. -/
theorem Call.WellFormed.store (h : c.WellFormed entry) (hpc : c.caller = .ready) :
    ({ c with caller := .stored } : Call V).WellFormed (some c.ctx) where
  entry p hp := by
    refine ⟨(Option.some_inj.mp hp).symm, le_rfl, h.claim_eq_none ?_, h.errWon_eq_false ?_⟩
    all_goals
      rw [hpc]
      decide
  claim cl hcl := by
    have hnone : c.claim = none := h.claim_eq_none (by rw [hpc]; decide)
    exact absurd (hcl.symm.trans hnone) (Option.some_ne_none cl)
  errWon hwon := by
    have hfalse : c.errWon = false := h.errWon_eq_false (by rw [hpc]; decide)
    exact absurd (hwon.symm.trans hfalse) (by decide)
  timerStopped := h.timerStopped
  released := h.released

/-- The error path comes for the entry. -/
theorem Call.WellFormed.errDelete (h : c.WellFormed entry) (hpc : c.caller = .failed) :
    ({ c with caller := .removed, errWon := entry.isSome } : Call V).WellFormed none where
  entry p hp := absurd hp.symm (Option.some_ne_none p)
  claim cl hcl := by
    obtain ⟨hctx, -, -, hrel⟩ := h.claim cl hcl
    refine ⟨hctx, show CallerPc.stored.rank ≤ CallerPc.removed.rank by decide, ?_, hrel⟩
    cases hentry : entry with
    | none => rfl
    | some p =>
      exact absurd ((h.entry p hentry).2.2.1.symm.trans hcl).symm (Option.some_ne_none cl)
  errWon hwon := by
    refine ⟨le_rfl, fun hr => ?_⟩
    obtain ⟨p, hentry⟩ := Option.isSome_iff_exists.mp hwon
    obtain ⟨-, -, hnone, hfalse⟩ := h.entry p hentry
    rcases h.released hr with hclaim | htrue
    · exact absurd hnone hclaim
    · exact absurd (htrue.symm.trans hfalse) (by decide)
  timerStopped hts := by
    have hfalse : c.errWon = false := h.errWon_eq_false (by rw [hpc]; decide)
    exact absurd ((h.timerStopped hts).symm.trans hfalse) (by decide)
  released hr := by
    rcases h.released hr with hclaim | htrue
    · exact .inl hclaim
    · have hfalse : c.errWon = false := h.errWon_eq_false (by rw [hpc]; decide)
      exact absurd (htrue.symm.trans hfalse) (by decide)

/-- A call whose entry is in the map has its context. -/
theorem Call.WellFormed.released_of_entry {p : Ptr} (h : c.WellFormed (some p)) :
    c.released = false := by
  obtain ⟨-, -, hnone, hfalse⟩ := h.entry p rfl
  by_contra hne
  rcases h.released (Bool.not_eq_false _ ▸ hne) with hclaim | htrue
  · exact hclaim hnone
  · exact absurd (htrue.symm.trans hfalse) (by decide)

/-- The timer or `OnMessage` takes the entry. -/
theorem Call.WellFormed.take {p : Ptr} (h : c.WellFormed (some p)) {cl : Claim V}
    (hctx : cl.ctx = c.ctx) : (c.setClaim cl).WellFormed none := by
  obtain ⟨-, hrank, -, hfalse⟩ := h.entry p rfl
  have hrel := h.released_of_entry
  refine ⟨fun q hq => absurd hq.symm (Option.some_ne_none q), fun cl' hcl => ?_, h.errWon,
    h.timerStopped, fun hr => absurd (hr.symm.trans hrel) (by decide)⟩
  have heq : cl = cl' := Option.some_inj.mp hcl
  exact ⟨heq ▸ hctx, hrank, hfalse, fun hr => absurd (hr.symm.trans hrel) (by decide)⟩

/-- The party that took the entry goes on. -/
theorem Call.WellFormed.setClaim (h : c.WellFormed entry) {cl cl' : Claim V}
    (hcl : c.claim = some cl) (hctx : cl'.ctx = cl.ctx)
    (hend : c.released = true → cl'.pc = .done ∨ cl'.pc = .gone) :
    (c.setClaim cl').WellFormed entry := by
  obtain ⟨hc, hrank, hfalse, -⟩ := h.claim cl hcl
  refine ⟨fun p hp => ?_, fun cl'' heq => ?_, h.errWon, h.timerStopped,
    fun _ => .inl (Option.some_ne_none cl')⟩
  · exact absurd ((h.entry p hp).2.2.1.symm.trans hcl).symm (Option.some_ne_none cl)
  · have heq : cl' = cl'' := Option.some_inj.mp heq
    exact heq ▸ ⟨hctx.trans hc, hrank, hfalse, hend⟩

/-- The context goes back to the pool at the end of the one that took the
entry. -/
theorem Call.WellFormed.release (h : c.WellFormed entry)
    (hend : (∃ cl, c.claim = some cl ∧ (cl.pc = .done ∨ cl.pc = .gone)) ∨
      c.errWon = true ∧ c.caller = .returnedErr) :
    ({ c with released := true } : Call V).WellFormed entry := by
  refine ⟨h.entry, fun cl hcl => ?_, fun hwon => ?_, h.timerStopped, fun _ => ?_⟩
  · obtain ⟨hctx, hrank, hfalse, -⟩ := h.claim cl hcl
    refine ⟨hctx, hrank, hfalse, fun _ => ?_⟩
    rcases hend with ⟨cl', hcl', hpc⟩ | ⟨hwon, -⟩
    · exact Option.some_inj.mp (hcl'.symm.trans hcl) ▸ hpc
    · exact absurd (hwon.symm.trans hfalse) (by decide)
  · refine ⟨(h.errWon hwon).1, fun _ => ?_⟩
    rcases hend with ⟨cl, hcl, -⟩ | ⟨-, hpc⟩
    · exact absurd (hwon.symm.trans (h.claim cl hcl).2.2.1) (by decide)
    · exact hpc
  · rcases hend with ⟨cl, hcl, -⟩ | ⟨hwon, -⟩
    · exact .inl (hcl ▸ Option.some_ne_none cl)
    · exact .inr hwon

end WellFormed

/-! ## What a step does -/

variable (decodeRet : V → ResponseMsg V → V × Option Bytes)

/-- A step that moves call `i` to `c` and swaps nothing.  The context stays
where it is or goes back to the pool. -/
structure Quiet (s t : State V) (i : UInt64) (c : Call V) : Prop where
  calls : t.calls = Function.update s.calls i c
  pending : ∀ j, j ≠ i → t.pending j = s.pending j
  wellFormed : c.WellFormed (t.pending i)
  next : t.next = s.next
  pool : c.holds = (s.calls i).holds ∧ t.pool = s.pool ∨
    c.holds = none ∧ ∃ p, (s.calls i).holds = some p ∧ t.pool = p :: s.pool
  args : ∀ p, (t.ctxs p).args = (s.ctxs p).args
  fired : ∀ p, (t.ctxs p).fired = (s.ctxs p).fired
  log : t.log = s.log
  ret : c.ret = (s.calls i).ret
  rank_le : (s.calls i).caller.rank ≤ c.caller.rank
  ready : CallerPc.ready.rank ≤ c.caller.rank →
    CallerPc.ready.rank ≤ (s.calls i).caller.rank
  swapped : CallerPc.swapped.rank ≤ c.caller.rank →
    CallerPc.swapped.rank ≤ (s.calls i).caller.rank
  swapResult : c.swapResult = (s.calls i).swapResult
  delivered : c.delivered decodeRet = (s.calls i).delivered decodeRet

/-- What a step does. -/
inductive Effect (s : State V) : State V → Event V → Prop where
  | get {i : UInt64} {ret : V} {choice : Option Ptr} {p : Ptr} {pool : List Ptr}
      {next : Ptr} (hpc : (s.calls i).caller = .idle)
      (hget : Pool.get s.pool s.next choice = some (p, pool, next)) :
      Effect s ({ s with pool, next }.setCall i { caller := .got, ctx := p, ret })
        (.get i ret choice)
  | initialise {i : UInt64} (hpc : (s.calls i).caller = .got) :
      Effect s ((s.setCtx (s.calls i).ctx { s.ctxs (s.calls i).ctx with
        fired := false, args := some ⟨i, (s.calls i).ret⟩ }).setCall i
          { s.calls i with caller := .ready }) (.initialise i)
  | errSwap {i : UInt64} (hpc : (s.calls i).caller = .stopped) :
      Effect s ((s.setCtx (s.calls i).ctx
        { s.ctxs (s.calls i).ctx with fired := true }).setCall i
          { s.calls i with
            caller := .swapped, errFired := !(s.ctxs (s.calls i).ctx).fired }) (.errSwap i)
  | swap {i : UInt64} {cl : Claim V} (hcl : (s.calls i).claim = some cl)
      (hpc : cl.pc = .ready) :
      Effect s ((s.setCtx cl.ctx { s.ctxs cl.ctx with fired := true }).setCall i
        ((s.calls i).setClaim
          { cl with pc := if !(s.ctxs cl.ctx).fired then .fired else .lost })) (.swap i)
  | callback {i : UInt64} {cl : Claim V} {args : Args V}
      (hcl : (s.calls i).claim = some cl) (hpc : cl.pc = .fired)
      (hargs : (s.ctxs cl.ctx).args = some args) :
      Effect s ((s.run args.seq (outcome decodeRet args.ret cl.winner)).setCall i
        ((s.calls i).setClaim { cl with pc := .ran })) (.callback i)
  | quiet {t : State V} {e : Event V} (i : UInt64) (c : Call V)
      (hquiet : Quiet decodeRet s t i c) : Effect s t e

variable {decodeRet} {s t : State V} {i : UInt64}

theorem State.caller_eq_some {pc : CallerPc} {f : Call V → Option (State V)} :
    s.caller i pc f = some t ↔ (s.calls i).caller = pc ∧ f (s.calls i) = some t := by
  rw [State.caller, Option.ite_none_right_eq_some]

theorem State.claimer_eq_some {pc : ClaimPc} {f : Call V → Claim V → Option (State V)} :
    s.claimer i pc f = some t ↔
      ∃ cl, (s.calls i).claim = some cl ∧ cl.pc = pc ∧ f (s.calls i) cl = some t := by
  unfold State.claimer
  cases (s.calls i).claim with
  | none => simp
  | some cl => simp [Option.ite_none_right_eq_some]

/-- Stopping a timer changes the timers only. -/
theorem State.stop_eq_some {timer : Option UInt64} {ok : Bool}
    (h : s.stop timer = some (t, ok)) : ∃ timers, t = { s with timers } := by
  cases timer with
  | none => simp [State.stop] at h
  | some u =>
    simp only [State.stop] at h
    split_ifs at h
    · simp only [Option.some.injEq, Prod.mk.injEq] at h
      exact ⟨_, h.1.symm⟩
    · simp only [Option.some.injEq, Prod.mk.injEq] at h
      exact ⟨s.timers, h.1.symm⟩

/-- After a swap the word is set, whoever set it. -/
theorem State.compareAndSwap_eq (s : State V) (p : Ptr) :
    s.compareAndSwap p =
      (s.setCtx p { s.ctxs p with fired := true }, !(s.ctxs p).fired) := by
  unfold State.compareAndSwap
  split_ifs with hfired
  · have hself : ({ s.ctxs p with fired := true } : AsynContext V) = s.ctxs p := by
      rw [← hfired]
    rw [State.setCtx, hself, Function.update_eq_self, hfired]
    rfl
  · rw [Bool.not_eq_true] at hfired
    rw [hfired]
    rfl

/-! ### The quiet steps -/

/-- A step that touches no call. -/
theorem Quiet.refl (hwf : (s.calls i).WellFormed (s.pending i))
    (hcalls : t.calls = s.calls) (hpending : t.pending = s.pending)
    (hnext : t.next = s.next) (hpool : t.pool = s.pool) (hctxs : t.ctxs = s.ctxs)
    (hlog : t.log = s.log) : Quiet decodeRet s t i (s.calls i) where
  calls := by rw [hcalls, Function.update_eq_self]
  pending j _ := by rw [hpending]
  wellFormed := hpending ▸ hwf
  next := hnext
  pool := .inl ⟨rfl, hpool⟩
  args p := by rw [hctxs]
  fired p := by rw [hctxs]
  log := hlog
  ret := rfl
  rank_le := le_rfl
  ready := id
  swapped := id
  swapResult := rfl
  delivered := rfl

/-- A quiet move of the caller: it has its context and does not swap. -/
def CallerPc.QuietMove (pc pc' : CallerPc) : Prop :=
  CallerPc.ready.rank ≤ pc.rank ∧ pc.rank ≤ pc'.rank ∧ pc ≠ .returnedErr ∧
    (CallerPc.swapped.rank ≤ pc'.rank → CallerPc.swapped.rank ≤ pc.rank)

instance (pc pc' : CallerPc) : Decidable (pc.QuietMove pc') :=
  inferInstanceAs (Decidable (_ ∧ _ ∧ _ ∧ _))

/-- The caller goes on and keeps its context. -/
theorem Quiet.caller {pc pc' : CallerPc} {errWon timerStopped : Bool}
    (hpc : (s.calls i).caller = pc) (hmove : pc.QuietMove pc')
    (hcalls : t.calls = Function.update s.calls i
      { s.calls i with caller := pc', errWon, timerStopped })
    (hpending : ∀ j, j ≠ i → t.pending j = s.pending j)
    (hnew : ({ s.calls i with caller := pc', errWon, timerStopped } : Call V).WellFormed
      (t.pending i))
    (hnext : t.next = s.next) (hpool : t.pool = s.pool)
    (hargs : ∀ p, (t.ctxs p).args = (s.ctxs p).args)
    (hfired : ∀ p, (t.ctxs p).fired = (s.ctxs p).fired) (hlog : t.log = s.log) :
    Quiet decodeRet s t i { s.calls i with caller := pc', errWon, timerStopped } := by
  obtain ⟨hready, hle, -, hswapped⟩ := hmove
  subst hpc
  refine ⟨hcalls, hpending, hnew, hnext, .inl ⟨?_, hpool⟩, hargs, hfired, hlog, rfl, hle,
    fun _ => hready, hswapped, rfl, rfl⟩
  have hold := CallerPc.ne_idle_of_le (by decide) hready
  have hpc := CallerPc.ne_idle_of_le (by decide) (hready.trans hle)
  simp [Call.holds, hold, hpc]

/-- The caller goes on and leaves the map alone. -/
theorem Quiet.goOn (hwf : (s.calls i).WellFormed (s.pending i)) {pc pc' : CallerPc}
    {timerStopped : Bool} (hpc : (s.calls i).caller = pc) (hmove : pc.QuietMove pc')
    (hstop : timerStopped = true → (s.calls i).errWon = true)
    (hcalls : t.calls = Function.update s.calls i
      { s.calls i with caller := pc', timerStopped })
    (hpending : t.pending = s.pending) (hnext : t.next = s.next) (hpool : t.pool = s.pool)
    (hargs : ∀ p, (t.ctxs p).args = (s.ctxs p).args)
    (hfired : ∀ p, (t.ctxs p).fired = (s.ctxs p).fired) (hlog : t.log = s.log) :
    Quiet decodeRet s t i { s.calls i with caller := pc', timerStopped } := by
  refine Quiet.caller hpc hmove hcalls (fun j _ => by rw [hpending]) ?_ hnext hpool hargs
    hfired hlog
  rw [hpending]
  subst hpc
  exact hwf.setCaller hmove.2.1 hmove.2.2.1 _ hstop

/-- The party that took the entry goes on, or one takes it. -/
theorem Quiet.claim {cl : Claim V}
    (hcalls : t.calls = Function.update s.calls i ((s.calls i).setClaim cl))
    (hpending : ∀ j, j ≠ i → t.pending j = s.pending j)
    (hnew : ((s.calls i).setClaim cl).WellFormed (t.pending i))
    (hnext : t.next = s.next) (hpool : t.pool = s.pool) (hctxs : t.ctxs = s.ctxs)
    (hlog : t.log = s.log)
    (hresult : cl.pc.result = (s.calls i).swapResult)
    (hdel : ((s.calls i).setClaim cl).delivered decodeRet =
      (s.calls i).delivered decodeRet) :
    Quiet decodeRet s t i ((s.calls i).setClaim cl) where
  calls := hcalls
  pending := hpending
  wellFormed := hnew
  next := hnext
  pool := .inl ⟨rfl, hpool⟩
  args p := by rw [hctxs]
  fired p := by rw [hctxs]
  log := hlog
  ret := rfl
  rank_le := le_rfl
  ready := id
  swapped := id
  swapResult := hresult
  delivered := hdel

/-- A party takes the entry. -/
theorem Quiet.take {p : Ptr} (hwf : (s.calls i).WellFormed (some p)) {cl : Claim V}
    (hctx : cl.ctx = (s.calls i).ctx) (hpc : cl.pc.result = none)
    (hcalls : t.calls = Function.update s.calls i ((s.calls i).setClaim cl))
    (hpending : t.pending = Function.update s.pending i none)
    (hnext : t.next = s.next) (hpool : t.pool = s.pool) (hctxs : t.ctxs = s.ctxs)
    (hlog : t.log = s.log) : Quiet decodeRet s t i ((s.calls i).setClaim cl) := by
  have hnone : (s.calls i).claim = none := (hwf.entry p rfl).2.2.1
  refine Quiet.claim hcalls (fun j hj => ?_) ?_ hnext hpool hctxs hlog ?_ ?_
  · rw [hpending, Function.update_of_ne hj]
  · rw [hpending, Function.update_self]
    exact hwf.take hctx
  · rw [hpc, Call.swapResult, hnone]
    rfl
  · have hran : ¬ (cl.pc = .ran ∨ cl.pc = .done) := by
      intro hor
      rcases hor with h | h <;> simp [h, ClaimPc.result] at hpc
    simp [Call.delivered, Call.setClaim, hnone, hran]

/-- A move that is quiet stays so if the context goes back to the pool with
it. -/
theorem Quiet.putCtx {c : Call V} (h : Quiet decodeRet s (s.setCall i c) i c) {p : Ptr}
    (hholds : (s.calls i).holds = some p)
    (hend : (∃ cl, c.claim = some cl ∧ (cl.pc = .done ∨ cl.pc = .gone)) ∨
      c.errWon = true ∧ c.caller = .returnedErr) :
    Quiet decodeRet s (s.putCtx i p c) i { c with released := true } where
  calls := rfl
  pending _ _ := rfl
  wellFormed := h.wellFormed.release hend
  next := rfl
  pool := .inr ⟨by simp [Call.holds], p, hholds, rfl⟩
  args _ := rfl
  fired _ := rfl
  log := rfl
  ret := h.ret
  rank_le := h.rank_le
  ready := h.ready
  swapped := h.swapped
  swapResult := h.swapResult
  delivered := h.delivered

/-- The last action of the party that took the entry is quiet. -/
theorem Quiet.finish (hwf : (s.calls i).WellFormed (s.pending i)) {cl : Claim V}
    (hcl : (s.calls i).claim = some cl) {pc : ClaimPc}
    (hpc : cl.pc = .ran ∧ pc = .done ∨ cl.pc = .lost ∧ pc = .gone) :
    ∃ c, Quiet decodeRet s (s.finish i cl pc) i c := by
  have hend : pc = .done ∨ pc = .gone := hpc.imp And.right And.right
  have hquiet : Quiet decodeRet s (s.setCall i ((s.calls i).setClaim { cl with pc })) i
      ((s.calls i).setClaim { cl with pc }) := by
    refine Quiet.claim rfl (fun _ _ => rfl) (hwf.setClaim hcl rfl fun _ => hend) rfl rfl
      rfl rfl ?_ ?_
    · rw [Call.swapResult, hcl]
      rcases hpc with ⟨hold, rfl⟩ | ⟨hold, rfl⟩
      · exact (congrArg ClaimPc.result hold).symm
      · exact (congrArg ClaimPc.result hold).symm
    · simp only [Call.delivered, Call.setClaim, hcl]
      rcases hpc with ⟨hold, rfl⟩ | ⟨hold, rfl⟩ <;> simp [hold]
  unfold State.finish
  split_ifs with hput
  · refine ⟨_, hquiet.putCtx (hwf.holds_of_claim hcl ?_ ?_) (.inl ⟨_, rfl, hend⟩)⟩
    all_goals
      intro hold
      rcases hpc with ⟨hpc, -⟩ | ⟨hpc, -⟩
      all_goals exact absurd (hpc.symm.trans hold) (by decide)
  · exact ⟨_, hquiet⟩

/-! ### Every step -/

/-- A step of well-formed calls has one of the six effects. -/
theorem step_effect (hwf : ∀ i, (s.calls i).WellFormed (s.pending i)) {e : Event V}
    (h : step decodeRet s e = some t) : Effect decodeRet s t e := by
  unfold step at h
  cases e with
  | get i ret choice =>
    obtain ⟨hpc, h⟩ := State.caller_eq_some.mp h
    obtain ⟨⟨p, pool, next⟩, hget, rfl⟩ := Option.map_eq_some_iff.mp h
    exact .get hpc hget
  | initialise i =>
    obtain ⟨hpc, h⟩ := State.caller_eq_some.mp h
    obtain rfl := Option.some_inj.mp h
    exact .initialise hpc
  | store i =>
    obtain ⟨hpc, h⟩ := State.caller_eq_some.mp h
    obtain rfl := Option.some_inj.mp h
    refine .quiet i _ (Quiet.caller hpc (by decide) rfl (fun j hj => ?_) ?_ rfl rfl
      (fun _ => rfl) (fun _ => rfl) rfl)
    · exact Function.update_of_ne hj _ _
    · show Call.WellFormed _ (Function.update s.pending i _ i)
      rw [Function.update_self]
      exact (hwf i).store hpc
  | afterFunc i =>
    obtain ⟨hpc, h⟩ := State.caller_eq_some.mp h
    obtain rfl := Option.some_inj.mp h
    exact .quiet i _ (Quiet.goOn (hwf i) hpc (by decide) (hwf i).timerStopped rfl rfl rfl
      rfl (fun _ => rfl) (fun _ => rfl) rfl)
  | setTimer i =>
    obtain ⟨hpc, h⟩ := State.caller_eq_some.mp h
    obtain rfl := Option.some_inj.mp h
    refine .quiet i _ (Quiet.goOn (hwf i) hpc (by decide) (hwf i).timerStopped rfl rfl rfl
      rfl (fun p => ?_) (fun p => ?_) rfl)
    -- the write goes to the context that the call had, whoever has it now
    all_goals
      rcases eq_or_ne p (s.calls i).ctx with rfl | hp
      · simp [State.setCall, State.setCtx]
      · simp [State.setCall, State.setCtx, hp]
  | request i =>
    obtain ⟨hpc, h⟩ := State.caller_eq_some.mp h
    obtain rfl := Option.some_inj.mp h
    exact .quiet i _ (Quiet.goOn (hwf i) hpc (by decide) (hwf i).timerStopped rfl rfl rfl
      rfl (fun _ => rfl) (fun _ => rfl) rfl)
  | requestReturn i failed =>
    obtain ⟨hpc, h⟩ := State.caller_eq_some.mp h
    obtain rfl := Option.some_inj.mp h
    exact .quiet i _ (Quiet.goOn (hwf i) hpc (by cases failed <;> decide)
      (hwf i).timerStopped rfl rfl rfl rfl (fun _ => rfl) (fun _ => rfl) rfl)
  | errDelete i =>
    obtain ⟨hpc, h⟩ := State.caller_eq_some.mp h
    obtain rfl := Option.some_inj.mp h
    refine .quiet i _ (Quiet.caller hpc (by decide) rfl (fun j hj => ?_) ?_ rfl rfl
      (fun _ => rfl) (fun _ => rfl) rfl)
    · exact Function.update_of_ne hj _ _
    · show Call.WellFormed _ (Function.update s.pending i _ i)
      rw [Function.update_self]
      exact (hwf i).errDelete hpc
  | errStop i =>
    obtain ⟨hpc, h⟩ := State.caller_eq_some.mp h
    split_ifs at h with hwon
    · obtain ⟨⟨u, ok⟩, hstop, rfl⟩ := Option.map_eq_some_iff.mp h
      obtain ⟨timers, rfl⟩ := State.stop_eq_some hstop
      exact .quiet i _ (Quiet.goOn (hwf i) hpc (by decide) (fun _ => hwon) rfl rfl rfl
        rfl (fun _ => rfl) (fun _ => rfl) rfl)
    · obtain rfl := Option.some_inj.mp h
      exact .quiet i _ (Quiet.goOn (hwf i) hpc (by decide) (hwf i).timerStopped rfl rfl rfl
        rfl (fun _ => rfl) (fun _ => rfl) rfl)
  | errSwap i =>
    obtain ⟨hpc, h⟩ := State.caller_eq_some.mp h
    rw [State.compareAndSwap_eq] at h
    obtain rfl := Option.some_inj.mp h
    exact .errSwap hpc
  | errPut i =>
    obtain ⟨hpc, h⟩ := State.caller_eq_some.mp h
    have hquiet : Quiet decodeRet s
        (s.setCall i { s.calls i with caller := .returnedErr }) i
        { s.calls i with caller := .returnedErr } :=
      Quiet.goOn (hwf i) hpc (by decide) (hwf i).timerStopped rfl rfl rfl
        rfl (fun _ => rfl) (fun _ => rfl) rfl
    split_ifs at h with hput
    · obtain rfl := Option.some_inj.mp h
      have hwon := (hwf i).timerStopped hput.2
      have hholds := (hwf i).holds_of_errWon hwon (by rw [hpc]; decide)
      exact .quiet i _ (hquiet.putCtx hholds (.inr ⟨hwon, rfl⟩))
    · obtain rfl := Option.some_inj.mp h
      exact .quiet i _ hquiet
  | expire i =>
    obtain ⟨-, h⟩ := Option.ite_none_right_eq_some.mp h
    obtain rfl := Option.some_inj.mp h
    exact .quiet i _ (Quiet.refl (hwf i) rfl rfl rfl rfl rfl rfl)
  | timerDelete i =>
    obtain ⟨-, h⟩ := Option.ite_none_right_eq_some.mp h
    cases hentry : s.pending i with
    | none =>
      rw [hentry] at h
      obtain rfl := Option.some_inj.mp h
      exact .quiet i _ (Quiet.refl (hwf i) rfl rfl rfl rfl rfl rfl)
    | some p =>
      rw [hentry] at h
      obtain rfl := Option.some_inj.mp h
      exact .quiet i _ (Quiet.take (hentry ▸ hwf i) rfl rfl rfl rfl rfl rfl rfl rfl)
  | onMessage resp =>
    cases hentry : s.pending resp.seq with
    | none =>
      simp only [hentry] at h
      obtain rfl := Option.some_inj.mp h
      exact .quiet resp.seq _ (Quiet.refl (hwf _) rfl rfl rfl rfl rfl rfl)
    | some p =>
      simp only [hentry] at h
      obtain rfl := Option.some_inj.mp h
      have hctx : p = (s.calls resp.seq).ctx := ((hwf resp.seq).entry p hentry).1
      exact .quiet resp.seq _
        (Quiet.take (hentry ▸ hwf _) hctx rfl rfl rfl rfl rfl rfl rfl)
  | stopTimer i =>
    obtain ⟨cl, hcl, hpc, h⟩ := State.claimer_eq_some.mp h
    obtain ⟨⟨u, ok⟩, hstop, rfl⟩ := Option.map_eq_some_iff.mp h
    obtain ⟨timers, rfl⟩ := State.stop_eq_some hstop
    have hrel : (s.calls i).released = true → False := fun hr => by
      rcases ((hwf i).claim cl hcl).2.2.2 hr with hend | hend
      · exact absurd (hpc.symm.trans hend) (by decide)
      · exact absurd (hpc.symm.trans hend) (by decide)
    refine .quiet i _ (Quiet.claim rfl (fun _ _ => rfl)
      ((hwf i).setClaim hcl rfl fun hr => (hrel hr).elim) rfl rfl rfl rfl ?_ ?_)
    · simp [Call.swapResult, hcl, hpc, ClaimPc.result]
    · simp [Call.delivered, Call.setClaim, hcl, hpc]
  | swap i =>
    obtain ⟨cl, hcl, hpc, h⟩ := State.claimer_eq_some.mp h
    rw [State.compareAndSwap_eq] at h
    obtain rfl := Option.some_inj.mp h
    exact .swap hcl hpc
  | callback i =>
    obtain ⟨cl, hcl, hpc, h⟩ := State.claimer_eq_some.mp h
    cases hargs : (s.ctxs cl.ctx).args with
    | none => simp [hargs] at h
    | some args =>
      rw [hargs] at h
      obtain rfl := Option.some_inj.mp h
      exact .callback hcl hpc hargs
  | put i =>
    cases hcl : (s.calls i).claim with
    | none => simp [hcl] at h
    | some cl =>
      simp only [hcl] at h
      split at h
      · obtain rfl := Option.some_inj.mp h
        obtain ⟨c, hquiet⟩ := Quiet.finish (hwf i) hcl (.inl ⟨‹_›, rfl⟩)
        exact .quiet i c hquiet
      · obtain rfl := Option.some_inj.mp h
        obtain ⟨c, hquiet⟩ := Quiet.finish (hwf i) hcl (.inr ⟨‹_›, rfl⟩)
        exact .quiet i c hquiet
      · exact absurd h.symm (Option.some_ne_none t)

end ClusterGo.Rpc.AsyncCall
