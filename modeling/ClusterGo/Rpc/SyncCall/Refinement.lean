import ClusterGo.Rpc.SyncCall.Request

/-!
# The request loop is the one that the calls rely on

`SyncCall.step` takes for granted how `RequestWithContext` ends: a request is
accepted and the error is nil, or it is not accepted and the error is another
one, which may be retried or not.  The loop on the channel of a peer does
nothing else.

`callEvents` reads off what the channel returns which steps of `SyncCall` a
step of the loop stands for.  Every run of the loop is matched by them step by
step, and before and after each step the calls stand where the loop has them.
The loop keeps its side of the assumption: a step that stands for an accepted
request puts the request into a queue, and any other step of a call puts
nothing anywhere.

What `SyncCall` leaves open, the loop decides: which errors there are, and
that no call is in `RequestWithContext` again after a round that was refused.
-/

namespace ClusterGo.Rpc.SyncCall.Request

open Transition

variable {M V : Type} {decodeRet : V → ResponseMsg V → V × Option Bytes} {i : UInt64}
  {u v w : SyncCall.State V}

/-- Where `SyncCall` has a call.  `ret` is the result to fill. -/
def Pc.abstract (ret : V) : Pc → CallPc V
  | .idle => .idle
  | .requesting | .sending _ => .requesting
  | .sleeping => .retrying
  | .sent => .waiting
  | .returned err => .returned none (ret, err)

/-- `RequestWithContext` returns `err`, and `Call` goes on to where it waits. -/
def returnEvents (done : Option GoError) (i : UInt64) : Option Peer.Err → List (SyncCall.Event V)
  | none => [.accept i, .requestReturn i .sent]
  | some err =>
    if isRetryAbleError err then [.requestReturn i .retryable]
    else [.requestReturn i (.failed (goError done err)), .errDelete i, .put i]

/-- The steps of `SyncCall` that an event of the loop stands for. -/
def callEvents (maxPendingMsgSize : Int) (msg : UInt64 → M) (ret : V) (s : State M) :
    Event M → List (SyncCall.Event V)
  -- the head of `Call`, with a new channel
  | .call i => [.get i ret none, .store i, .request i]
  | .request i now =>
    match s.peer.sendMessageWithContext maxPendingMsgSize (s.env now) i (msg i) none,
        s.peer.socket with
    | some (_, reply), none => returnEvents (s.done i) i reply.err
    -- still inside `RequestWithContext`
    | _, _ => []
  | .send i way =>
    match (s.calls i).pc with
    | .sending sock =>
      match (sendWithContext (s.sockets sock) (s.done i).isSome (msg i))[way]? with
      | some (err, _) => returnEvents (s.done i) i err
      | none => []
    | _ => []
  | .wake i =>
    match s.done i with
    | some err => [.retry i (some err), .errDelete i, .put i]
    | none => [.retry i none, .request i]
  | .cancel .. | .operate _ | .socket .. => []

/-! ## Runs of one call -/

/-- The events `es` lead from `u` to `v`.  Nothing moves but call `i`, which is
at `pc` then. -/
structure Leads (decodeRet : V → ResponseMsg V → V × Option Bytes) (i : UInt64)
    (u : SyncCall.State V) (es : List (SyncCall.Event V)) (v : SyncCall.State V)
    (pc : CallPc V) : Prop where
  run_eq : run (SyncCall.step decodeRet) u es = some v
  others : ∀ j, j ≠ i → v.calls j = u.calls j
  pc_eq : (v.calls i).pc = pc
  ret_eq : (v.calls i).ret = (u.calls i).ret

theorem Leads.trans {es es' : List (SyncCall.Event V)} {pc pc' : CallPc V}
    (h : Leads decodeRet i u es v pc) (h' : Leads decodeRet i v es' w pc') :
    Leads decodeRet i u (es ++ es') w pc' :=
  ⟨(run_append h.run_eq es').trans h'.run_eq,
    fun j hj => (h'.others j hj).trans (h.others j hj), h'.pc_eq, h'.ret_eq.trans h.ret_eq⟩

theorem Leads.step {e : SyncCall.Event V} {c : SyncCall.Call V}
    (hstep : SyncCall.step decodeRet u e = some v)
    (hcalls : v.calls = Function.update u.calls i c) (hret : c.ret = (u.calls i).ret) :
    Leads decodeRet i u [e] v c.pc := by
  refine ⟨run_cons hstep [], fun j hj => ?_, ?_, ?_⟩
  · rw [hcalls, Function.update_of_ne hj]
  · rw [hcalls, Function.update_self]
  · rw [hcalls, Function.update_self, hret]

variable (decodeRet)

theorem leads_request (hpc : (u.calls i).pc = .ready) :
    ∃ v, Leads decodeRet i u [.request i] v .requesting := by
  have hstep : SyncCall.step decodeRet u (.request i) = some (u.goTo i .requesting) := by
    simp only [SyncCall.step, hpc]
  exact ⟨_, Leads.step hstep rfl rfl⟩

theorem leads_start (hpc : (u.calls i).pc = .idle) :
    ∃ v, Leads decodeRet i u [.get i (u.calls i).ret none, .store i, .request i] v
      .requesting := by
  have hget : SyncCall.step decodeRet u (.get i (u.calls i).ret none) =
      some ({ u with next := u.next + 1 }.setCall i
        { pc := .got, ch := u.next, ret := (u.calls i).ret }) := by
    simp only [SyncCall.step, hpc, Pool.get, Option.map_some]
  obtain ⟨v, hgot⟩ : ∃ v, Leads decodeRet i u [.get i (u.calls i).ret none] v .got :=
    ⟨_, Leads.step hget rfl rfl⟩
  have hstore : SyncCall.step decodeRet v (.store i) =
      some ((v.setPending i (some (v.calls i).ch)).goTo i .ready) := by
    simp only [SyncCall.step, hgot.pc_eq]
  have hready := Leads.step hstore rfl rfl
  obtain ⟨w, hw⟩ := leads_request decodeRet hready.pc_eq
  exact ⟨w, hgot.trans (hready.trans hw)⟩

theorem leads_sent (hpc : (u.calls i).pc = .requesting) :
    ∃ v, Leads decodeRet i u [.accept i, .requestReturn i .sent] v .waiting := by
  have haccept : SyncCall.step decodeRet u (.accept i) = some (u.goTo i .accepted) := by
    simp only [SyncCall.step, hpc]
  have haccepted := Leads.step haccept rfl rfl
  have hreturn : SyncCall.step decodeRet (u.goTo i .accepted) (.requestReturn i .sent) =
      some ((u.goTo i .accepted).goTo i .waiting) := by
    simp only [SyncCall.step, haccepted.pc_eq]
  exact ⟨_, haccepted.trans (Leads.step hreturn rfl rfl)⟩

theorem leads_retryable (hpc : (u.calls i).pc = .requesting) :
    ∃ v, Leads decodeRet i u [.requestReturn i .retryable] v .retrying := by
  have hreturn : SyncCall.step decodeRet u (.requestReturn i .retryable) =
      some (u.goTo i .retrying) := by
    simp only [SyncCall.step, hpc]
  exact ⟨_, Leads.step hreturn rfl rfl⟩

/-- The end of a call whose request was not accepted. -/
theorem leads_return {err : GoError} (hpc : (u.calls i).pc = .failed err) :
    ∃ v, Leads decodeRet i u [.errDelete i, .put i] v
      (.returned none ((u.calls i).ret, rpcError err)) := by
  have hdelete : SyncCall.step decodeRet u (.errDelete i) =
      some ((u.setPending i none).goTo i (.deleted err)) := by
    simp only [SyncCall.step, hpc]
  obtain ⟨v, hdeleted⟩ : ∃ v, Leads decodeRet i u [.errDelete i] v (.deleted err) :=
    ⟨_, Leads.step hdelete rfl rfl⟩
  have hput : SyncCall.step decodeRet v (.put i) =
      some (v.putChan i none ((v.calls i).ret, rpcError err)) := by
    simp only [SyncCall.step, hdeleted.pc_eq]
  have hreturned := Leads.step hput rfl rfl
  exact ⟨_, hdeleted.ret_eq ▸ hdeleted.trans hreturned⟩

theorem leads_failed (hpc : (u.calls i).pc = .requesting) (err : GoError) :
    ∃ v, Leads decodeRet i u [.requestReturn i (.failed err), .errDelete i, .put i] v
      (.returned none ((u.calls i).ret, rpcError err)) := by
  have hreturn : SyncCall.step decodeRet u (.requestReturn i (.failed err)) =
      some (u.goTo i (.failed err)) := by
    simp only [SyncCall.step, hpc]
  have hfailed := Leads.step hreturn rfl rfl
  obtain ⟨v, hv⟩ := leads_return decodeRet hfailed.pc_eq
  exact ⟨v, hfailed.ret_eq ▸ hfailed.trans hv⟩

theorem leads_goesOn (hpc : (u.calls i).pc = .retrying) :
    ∃ v, Leads decodeRet i u [.retry i none, .request i] v .requesting := by
  have hretry : SyncCall.step decodeRet u (.retry i none) = some (u.goTo i .ready) := by
    simp only [SyncCall.step, hpc]
  have hready := Leads.step hretry rfl rfl
  obtain ⟨v, hv⟩ := leads_request decodeRet hready.pc_eq
  exact ⟨v, hready.trans hv⟩

theorem leads_givesUp (hpc : (u.calls i).pc = .retrying) (err : GoError) :
    ∃ v, Leads decodeRet i u [.retry i (some err), .errDelete i, .put i] v
      (.returned none ((u.calls i).ret, rpcError err)) := by
  have hretry : SyncCall.step decodeRet u (.retry i (some err)) =
      some (u.goTo i (.failed err)) := by
    simp only [SyncCall.step, hpc]
  have hfailed := Leads.step hretry rfl rfl
  obtain ⟨v, hv⟩ := leads_return decodeRet hfailed.pc_eq
  exact ⟨v, hfailed.ret_eq ▸ hfailed.trans hv⟩

variable {decodeRet} {ret : V} {s t : State M} {maxPendingMsgSize : Int} {msg : UInt64 → M}
  {e : Event M}

/-! ## What a step stands for -/

/-- The call that takes the step. -/
def Event.caller : Event M → Option UInt64
  | .call i | .request i _ | .send i _ | .wake i => some i
  | .cancel .. | .operate _ | .socket .. => none

/-- Where a step leaves the calls, and the events `es` that it stands for. -/
inductive Stands (ret : V) (s t : State M) : Event M → List (SyncCall.Event V) → Prop where
  | starts {i : UInt64} {es : List (SyncCall.Event V)} (hpc : (s.calls i).pc = .idle)
    (hcalls : t.calls = (s.goTo i .requesting).calls)
    (hevents : es = [.get i ret none, .store i, .request i]) : Stands ret s t (.call i) es
  | finds {i : UInt64} {now : Peer.Time} {sock : Nat} {es : List (SyncCall.Event V)}
    (hpc : (s.calls i).pc = .requesting)
    (hcalls : t.calls = (s.goTo i (.sending sock)).calls) (hevents : es = []) :
    Stands ret s t (.request i now) es
  | returns {e : Event M} {i : UInt64} {es : List (SyncCall.Event V)} (err : Option Peer.Err)
    (hcaller : e.caller = some i) (hpc : (s.calls i).pc.abstract ret = .requesting)
    (hcalls : t.calls = (s.requestReturns i err).calls)
    (hevents : es = returnEvents (s.done i) i err) : Stands ret s t e es
  | goesOn {i : UInt64} {es : List (SyncCall.Event V)} (hpc : (s.calls i).pc = .sleeping)
    (hcalls : t.calls = (s.goTo i .requesting).calls)
    (hevents : es = [.retry i none, .request i]) : Stands ret s t (.wake i) es
  | givesUp {i : UInt64} {es : List (SyncCall.Event V)} (err : GoError)
    (hpc : (s.calls i).pc = .sleeping)
    (hcalls : t.calls = (s.goTo i (.returned (rpcError err))).calls)
    (hevents : es = [.retry i (some err), .errDelete i, .put i]) : Stands ret s t (.wake i) es
  | others {e : Event M} {es : List (SyncCall.Event V)} (hcaller : e.caller = none)
    (hcalls : t.calls = s.calls) (hevents : es = []) : Stands ret s t e es

theorem stands_of_step (ret : V) (hstep : step maxPendingMsgSize msg s e = some t) :
    Stands ret s t e (callEvents maxPendingMsgSize msg ret s e) := by
  cases e with
  | call i =>
    obtain ⟨hpc, heq⟩ := Option.ite_none_right_eq_some.mp hstep
    cases heq
    exact .starts hpc rfl rfl
  | request i now =>
    simp only [Request.step, Option.ite_none_right_eq_some, Option.map_eq_some_iff,
      Prod.exists] at hstep
    obtain ⟨hpc, peer, reply, hsend, heq⟩ := hstep
    cases hsock : s.peer.socket with
    | none =>
      rw [hsock] at heq
      cases heq
      refine .returns reply.err rfl (by rw [hpc]; rfl) rfl ?_
      simp only [callEvents, hsend, hsock]
    | some sock =>
      rw [hsock] at heq
      cases heq
      refine .finds hpc rfl ?_
      simp only [callEvents, hsend, hsock]
  | send i way =>
    simp only [Request.step] at hstep
    split at hstep
    · rename_i sock hpc
      simp only [Option.map_eq_some_iff, Prod.exists] at hstep
      obtain ⟨err, q, hway, heq⟩ := hstep
      cases heq
      refine .returns err rfl (by rw [hpc]; rfl) rfl ?_
      simp only [callEvents, hpc, hway]
    · cases hstep
  | wake i =>
    obtain ⟨hpc, heq⟩ := Option.ite_none_right_eq_some.mp hstep
    cases hdone : s.done i with
    | none =>
      rw [hdone] at heq
      cases heq
      refine .goesOn hpc rfl ?_
      simp only [callEvents, hdone]
    | some err =>
      rw [hdone] at heq
      cases heq
      refine .givesUp err hpc rfl ?_
      simp only [callEvents, hdone]
  | cancel i err =>
    simp only [Request.step] at hstep
    split_ifs at hstep <;> cases hstep <;> exact .others rfl rfl rfl
  | operate op =>
    obtain ⟨_, _, heq⟩ := Option.map_eq_some_iff.mp hstep
    cases heq
    exact .others rfl rfl rfl
  | socket sock q =>
    cases hstep
    exact .others rfl rfl rfl

/-! ## The simulation -/

/-- The calls stand in both systems at the same place. -/
def Rel (ret : V) (s : State M) (u : SyncCall.State V) : Prop :=
  ∀ j, (u.calls j).pc = (s.calls j).pc.abstract ret ∧ (u.calls j).ret = ret

theorem Rel.update (h : Rel ret s u) {c : Call} {es : List (SyncCall.Event V)}
    (hcalls : t.calls = Function.update s.calls i c)
    (hleads : ∃ v, Leads decodeRet i u es v (c.pc.abstract ret)) :
    ∃ v, run (SyncCall.step decodeRet) u es = some v ∧ Rel ret t v := by
  obtain ⟨v, hv⟩ := hleads
  refine ⟨v, hv.run_eq, fun j => ?_⟩
  rw [hcalls]
  by_cases hj : j = i
  · rw [hj, Function.update_self]
    exact ⟨hv.pc_eq, hv.ret_eq.trans (h i).2⟩
  · rw [Function.update_of_ne hj, hv.others j hj]
    exact h j

theorem Rel.pc (h : Rel ret s u) {pc : Pc} (hpc : (s.calls i).pc = pc) :
    (u.calls i).pc = pc.abstract ret := by
  rw [← hpc]
  exact (h i).1

theorem Rel.of_calls (h : Rel ret s u) (hcalls : t.calls = s.calls) : Rel ret t u := by
  intro j
  rw [hcalls]
  exact h j

/-- A round of call `i` ends with `err`. -/
theorem Rel.requestReturns (h : Rel ret s u) (hpc : (u.calls i).pc = .requesting)
    (err : Option Peer.Err) :
    ∃ v, run (SyncCall.step decodeRet) u (returnEvents (s.done i) i err) = some v ∧
      Rel ret (s.requestReturns i err) v := by
  cases err with
  | none => exact h.update rfl (leads_sent decodeRet hpc)
  | some err =>
    have hfailed := leads_failed decodeRet hpc (goError (s.done i) err)
    rw [(h i).2] at hfailed
    refine h.update rfl ?_
    simp only [returnEvents]
    split_ifs
    · exact leads_retryable decodeRet hpc
    · exact hfailed

theorem Rel.step (h : Rel ret s u) (hstep : step maxPendingMsgSize msg s e = some t) :
    ∃ v, run (SyncCall.step decodeRet) u (callEvents maxPendingMsgSize msg ret s e) = some v ∧
      Rel ret t v := by
  cases stands_of_step ret hstep with
  | starts hpc hcalls hevents =>
    have hstart := leads_start decodeRet (h.pc hpc)
    rw [(h _).2] at hstart
    exact hevents ▸ h.update hcalls hstart
  | finds hpc hcalls hevents =>
    have hrequesting := h.pc hpc
    exact hevents ▸ h.update hcalls ⟨u, rfl, fun _ _ => rfl, hrequesting, rfl⟩
  | returns err _ hpc hcalls hevents =>
    obtain ⟨v, hrun, hrel⟩ := h.requestReturns (((h _).1).trans hpc) err
    exact ⟨v, hevents ▸ hrun, hrel.of_calls hcalls⟩
  | goesOn hpc hcalls hevents =>
    exact hevents ▸ h.update hcalls (leads_goesOn decodeRet (h.pc hpc))
  | givesUp err hpc hcalls hevents =>
    have hreturned := leads_givesUp decodeRet (h.pc hpc) err
    rw [(h _).2] at hreturned
    exact hevents ▸ h.update hcalls hreturned
  | others _ hcalls hevents => exact ⟨u, hevents ▸ rfl, h.of_calls hcalls⟩

/-! ## What is accepted -/

/-- A step of a call stands for an accepted request if it puts the request into
a queue, and it puts nothing anywhere otherwise. -/
def Accepts (maxPendingMsgSize : Int) (msg : UInt64 → M) (ret : V) (s : State M)
    (e : Event M) : Prop :=
  ∀ i t, e.caller = some i → step maxPendingMsgSize msg s e = some t →
    (.accept i ∈ callEvents maxPendingMsgSize msg ret s e ∧ Put msg s t i) ∨
      (.accept i ∉ callEvents maxPendingMsgSize msg ret s e ∧ PutNothing s t)

theorem accept_mem_returnEvents {done : Option GoError} {err : Option Peer.Err} :
    (SyncCall.Event.accept i : SyncCall.Event V) ∈ returnEvents done i err ↔ err = none := by
  cases err with
  | none => simp [returnEvents]
  | some err =>
    simp only [returnEvents]
    split_ifs <;> simp

/-- The request is accepted in the step after which the call waits. -/
theorem accept_mem_callEvents (hcaller : e.caller = some i)
    (hstep : step maxPendingMsgSize msg s e = some t) :
    .accept i ∈ callEvents maxPendingMsgSize msg ret s e ↔ (t.calls i).pc = .sent := by
  cases stands_of_step ret hstep with
  | starts _ hcalls hevents | finds _ hcalls hevents | goesOn _ hcalls hevents
  | givesUp _ _ hcalls hevents =>
    cases hcaller
    rw [hcalls, hevents]
    simp [goTo_calls]
  | returns err hcaller' _ hcalls hevents =>
    cases hcaller.symm.trans hcaller'
    rw [hcalls, hevents, accept_mem_returnEvents, (requestReturns_self s i err).2]
  | others hnone => cases hcaller.symm.trans hnone

theorem put_of_acts (hcaller : e.caller = some i) (hacts : Acts maxPendingMsgSize msg s e t) :
    (t.calls i).pc = .sent ∧ Put msg s t i ∨ (t.calls i).pc ≠ .sent ∧ PutNothing s t := by
  cases hacts with
  | calls | finds | goesOn | givesUp =>
    cases hcaller
    exact Or.inr ⟨by simp [goTo_calls], List.Sublist.refl _, rfl⟩
  | refused _ _ hqueue =>
    cases hcaller
    exact Or.inr ⟨by simp [requestReturns_self], hqueue, rfl⟩
  | queued _ _ hqueue =>
    cases hcaller
    exact Or.inl ⟨by simp [requestReturns_self],
      Or.inl ⟨_, hqueue, pendingMsg_enqueue _ _, rfl⟩⟩
  | pushes =>
    cases hcaller
    exact Or.inl ⟨by simp [requestReturns_self], Or.inr ⟨_, rfl, rfl⟩⟩
  | fails =>
    cases hcaller
    exact Or.inr ⟨by simp [requestReturns_self], List.Sublist.refl _, rfl⟩
  | cancels | cancelled | operates | socket => cases hcaller

theorem accepts (maxPendingMsgSize : Int) (msg : UInt64 → M) (ret : V) (s : State M)
    (e : Event M) : Accepts maxPendingMsgSize msg ret s e := by
  intro i t hcaller hstep
  rw [accept_mem_callEvents hcaller hstep]
  exact put_of_acts hcaller (acts_of_step hstep)

/-- Every run of the request loop, with the other operations on the peer, is
matched step by step by a run of the calls of `SyncCall`, and its steps accept
the requests that they queue. -/
theorem request_loop_refines (decodeRet : V → ResponseMsg V → V × Option Bytes) (ret : V)
    (maxPendingMsgSize : Int) (msg : UInt64 → M) (es : List (Event M)) (s : State M)
    (hrun : run (step maxPendingMsgSize msg) {} es = some s) :
    Matched (step maxPendingMsgSize msg) (SyncCall.step decodeRet)
      (callEvents maxPendingMsgSize msg ret) (Rel ret) {} (SyncCall.State.initial ret) es ∧
    Along (step maxPendingMsgSize msg) (Accepts maxPendingMsgSize msg ret) {} es := by
  have hstart : Rel ret ({} : State M) (SyncCall.State.initial ret) := fun _ => ⟨rfl, rfl⟩
  refine ⟨Matched.of_run (fun _ _ _ _ hrel hstep => hrel.step hstep) hrun hstart, ?_⟩
  exact Along.of_forall fun e _ s => accepts maxPendingMsgSize msg ret s e

/-- The first call is queued and the second one is refused. -/
theorem request_loop_refines_secondRefused :
    (run (step 1 id) ({} : State UInt64) (oneQueued ++ [.request 1 1])).isSome ∧
    Matched (step 1 id) (SyncCall.step fun _ _ => ((), none)) (callEvents 1 id ()) (Rel ())
      {} (SyncCall.State.initial ()) (oneQueued ++ [.request 1 1]) ∧
    Along (step 1 id) (Accepts 1 id ()) {} (oneQueued ++ [.request 1 1]) := by
  let s : State UInt64 := (run (step 1 id) {} (oneQueued ++ [.request 1 1])).get rfl
  have hs : run (step 1 id) {} (oneQueued ++ [.request 1 1]) = some s := rfl
  exact ⟨rfl, request_loop_refines (fun _ _ => ((), none)) () 1 id _ s hs⟩

end ClusterGo.Rpc.SyncCall.Request
