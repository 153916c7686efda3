import ClusterGo.Rpc.Server.Basic
import Mathlib.Algebra.Group.Nat.Defs

/-!
# The counter of outstanding responses

`pendingRespCount` is, in 32 bits, the number of requests that have raised
it and not lowered it, in every state.  So it is not negative in a run as
long as fewer than `2 ^ 31` requests hold it, and no longer.

A request lowers it in the first call of its `Replyer`, when that call comes
after the counting interceptor.  Two kinds of requests never do: a oneway
request whose handler just returns, and a request that an interceptor has
answered and passed on all the same.  Every other request gives its count
back, and the counter is 0 when all of them are through.  The counts of the
others add up (`run_posts`), so that any number of them can be held.
-/

namespace ClusterGo.Rpc.Server

open Transition

variable {s t : State} {e : Event} {stoped : Bool} {r r' : Request} {a : Action} {n : Int32}
  {i : Nat}

/-! ## The counter in every run -/

/-- What holds of a request and its `Replyer` in every run. -/
structure Request.Tracked (r : Request) : Prop where
  passed : r.pc = .passed → r.settled = true
  hooked : r.hooked = true → r.pc = .handling ∨ r.pc = .failed ∨ r.pc = .finished
  handling : r.pc = .handling → r.hooked = true
  lowered : r.lowered = true → r.hooked = true ∧ r.replyed ≠ .unset ∧ r.replyed ≠ .won
  byHandler : r.byHandler = true → r.hooked = true ∧ r.replyed ≠ .unset
  dropped : r.replyed = .dropped → r.oneway = true

theorem tracked_new (oneway : Bool) : ({ oneway } : Request).Tracked := by
  constructor <;> simp

theorem tracked_of_acts (hacts : Acts stoped r a r' n) (h : r.Tracked) : r'.Tracked := by
  obtain ⟨hpassed, hhooked, hhandling, hlowered, hbyHandler, hdropped⟩ := h
  cases hacts <;> constructor <;> simp_all [Request.settled]

/-- A request that holds the counter weighs one. -/
def Request.weight (r : Request) : Nat := if r.held = true then 1 else 0

theorem Request.weight_le (r : Request) : r.weight ≤ 1 := by
  unfold Request.weight
  split <;> omega

/-- An action adds to the counter what it adds to the weight of its
request. -/
theorem weight_of_acts (hacts : Acts stoped r a r' n) (h : r.Tracked) :
    Int32.ofNat r'.weight = Int32.ofNat r.weight + n := by
  obtain ⟨_, hhooked, _, hlowered, _, _⟩ := h
  -- `count` finds the request unhooked, and `lower` finds it not lowered, because
  -- `replyed` is still `won`.  No other action moves the weight.
  cases hacts <;> simp_all [Request.weight, Request.held]

/-- The requests that hold the counter. -/
def State.heldCount (s : State) : Nat := s.requests.countP Request.held

theorem countP_set_held {rs : List Request} (hr : rs[i]? = some r) (r' : Request) :
    (rs.set i r').countP Request.held + r.weight = rs.countP Request.held + r'.weight := by
  obtain ⟨hi, hget⟩ := List.getElem?_eq_some_iff.mp hr
  have hpos : r.held = true → 0 < rs.countP Request.held := fun hheld =>
    List.countP_pos_iff.mpr ⟨r, List.mem_of_getElem? hr, hheld⟩
  rw [List.countP_set hi, hget]
  by_cases hheld : r.held = true <;> by_cases hheld' : r'.held = true <;>
    simp only [Request.weight, hheld, hheld', if_true, if_false, Bool.false_eq_true,
      forall_const] at hpos ⊢ <;> omega

/-- One step adds at most one request to those that hold the counter. -/
theorem heldCount_of_steps (hsteps : Steps s e t) : t.heldCount ≤ s.heldCount + 1 := by
  cases hsteps with
  | receive =>
    show (s.requests ++ _).countP Request.held ≤ _
    rw [List.countP_append]
    exact Nat.le_succ _
  | @act i a r r' n hr hacts =>
    have hset := countP_set_held hr r'
    have hle := r'.weight_le
    show (s.requests.set i r').countP Request.held ≤ s.requests.countP Request.held + 1
    omega
  | stop _ => exact Nat.le_succ _
  | sleep _ _ => exact Nat.le_succ _
  | close _ _ => exact Nat.le_succ _

/-- The counter is the number of the requests that hold it, in 32 bits. -/
structure Counted (s : State) : Prop where
  tracked : s.Each fun _ r => r.Tracked
  count : s.pendingRespCount = Int32.ofNat s.heldCount

theorem counted_start : Counted {} := ⟨State.each_nil _, rfl⟩

theorem counted_of_steps (hsteps : Steps s e t) (h : Counted s) : Counted t := by
  refine ⟨?_, ?_⟩
  · refine hsteps.each (fun _ oneway _ => tracked_new oneway) ?_ h.tracked
    intro i a r r' n _ _ htracked hacts
    exact tracked_of_acts hacts htracked
  · cases hsteps with
    | receive =>
      show s.pendingRespCount = Int32.ofNat ((s.requests ++ _).countP Request.held)
      rw [List.countP_append]
      exact h.count
    | @act i a r r' n hr hacts =>
      show s.pendingRespCount + n = Int32.ofNat ((s.requests.set i r').countP Request.held)
      have hweight := weight_of_acts hacts (h.tracked _ _ hr)
      have hset := congrArg Int32.ofNat (countP_set_held hr r')
      rw [Int32.ofNat_add, Int32.ofNat_add, hweight, Int32.add_comm _ n, ← Int32.add_assoc,
        Int32.add_left_inj] at hset
      rw [hset, h.count]
      rfl
    | stop _ => exact h.count
    | sleep _ _ => exact h.count
    | close _ _ => exact h.count

theorem counted_of_reach {guard : State → Event → Prop} (h : Reach step guard {} s) :
    Counted s := by
  refine Reach.invariant counted_start ?_ h
  intro s e t _ hcounted _ hstep
  exact counted_of_steps (steps_of_step hstep) hcounted

/-- Up to `2 ^ 31` requests, the counter is read as their number if and only if
it is not read as negative. -/
theorem Counted.nonneg_iff (h : Counted s) (hle : s.heldCount ≤ 2 ^ 31) :
    0 ≤ s.pendingRespCount ↔ s.heldCount < 2 ^ 31 := by
  rw [h.count, Int32.le_iff_toInt_le]
  by_cases hlt : s.heldCount < 2 ^ 31
  · rw [Int32.toInt_ofNat_of_lt hlt]
    exact iff_of_true (Int.natCast_nonneg _) hlt
  · have heq : s.heldCount = 2 ^ 31 := by omega
    rw [heq]
    decide

theorem Counted.eq_zero_iff (h : Counted s) (hlt : s.heldCount < 2 ^ 31) :
    s.pendingRespCount = 0 ↔ s.heldCount = 0 := by
  rw [h.count, ← Int32.toInt_inj, Int32.toInt_ofNat_of_lt hlt]
  exact Int.natCast_eq_zero

/-- In a run the counter is never negative if and only if `2 ^ 31` requests
never hold it at the same time. -/
theorem always_nonneg_iff (es : List Event) :
    Always step (fun s => 0 ≤ s.pendingRespCount) {} es ↔
      Always step (fun s => s.heldCount < 2 ^ 31) {} es := by
  have hkeep : ∀ s e t, Counted s → step s e = some t → Counted t := fun _ _ _ hcounted hstep =>
    counted_of_steps (steps_of_step hstep) hcounted
  constructor
  · -- The number grows by one at a time, so it cannot pass `2 ^ 31` unseen.
    refine Always.imp (I := fun s => Counted s ∧ s.heldCount ≤ 2 ^ 31) ?_ ?_ ?_
    · exact ⟨counted_start, Nat.zero_le _⟩
    · intro s e t hs hnonneg hstep
      have hlt := (hs.1.nonneg_iff hs.2).mp hnonneg
      have hle := heldCount_of_steps (steps_of_step hstep)
      exact ⟨hkeep s e t hs.1 hstep, by omega⟩
    · intro s hs hnonneg
      exact (hs.1.nonneg_iff hs.2).mp hnonneg
  · refine Always.imp (I := Counted) counted_start ?_ ?_
    · intro s e t hs _ hstep
      exact hkeep s e t hs hstep
    · intro s hs hlt
      exact (hs.nonneg_iff (Nat.le_of_lt hlt)).mpr hlt

/-! ## Requests that give their count back -/

/-- A handler that returns without a call of the `Replyer` is not that of a
oneway request, and a request that is counted was not answered before. -/
def GivesBack (s : State) : Event → Prop
  | .act i (.finish false) =>
    ∀ r, s.requests[i]? = some r → r.replyed = .unset → r.oneway = false
  | .act i .count => ∀ r, s.requests[i]? = some r → r.replyed = .unset
  | _ => True

/-- What holds of a request in runs of that kind: it is counted before the
first call of its `Replyer`, and that call lowers the counter. -/
structure Request.Owes (r : Request) : Prop where
  counted : r.pc = .counted → r.replyed = .unset
  hooked : r.hooked = true → r.replyed = .unset ∨ r.replyed = .won ∨ r.lowered = true
  finished : r.pc = .finished → r.hooked = true → r.replyed = .unset → r.oneway = false

theorem owes_of_acts (hacts : Acts s.stoped r a r' n) (hr : s.requests[i]? = some r)
    (hgives : GivesBack s (.act i a)) (htracked : r.Tracked) (h : r.Owes) : r'.Owes := by
  obtain ⟨_, hhooked, hhandling, hlowered, _, _⟩ := htracked
  obtain ⟨hcounted, howed, hfinished⟩ := h
  cases hacts <;> constructor <;> simp_all [GivesBack]

theorem owes_of_reach (h : Reach step GivesBack {} s) : s.Each fun _ r => r.Owes := by
  refine Reach.invariant (P := fun s => s.Each fun _ r => r.Owes) (State.each_nil _) ?_ h
  intro s e t hreach howes hgives hstep
  refine (steps_of_step hstep).each ?_ ?_ howes
  · intro i oneway _
    constructor <;> simp
  · intro i a r r' n he hr howes hacts
    have htracked := (counted_of_reach hreach).tracked i r hr
    exact owes_of_acts hacts hr (he ▸ hgives) htracked howes

/-- All handlers have finished, no call of a `Replyer` is under way, and
every request that wants a response has had one passed to its channel. -/
def Quiet (s : State) : Prop :=
  s.Each fun _ r => r.pc = .finished ∧ r.settled = true ∧ (r.oneway = false → r.replyed = .sent)

/-- A finished request that was answered does not hold the counter. -/
theorem not_held_of_finished (howes : r.Owes) (hpc : r.pc = .finished)
    (hsettled : r.settled = true) (hsent : r.oneway = false → r.replyed = .sent) :
    r.held = false := by
  cases hhooked : r.hooked with
  | false => simp [Request.held, hhooked, hpc]
  | true =>
    have hlowered : r.lowered = true := by
      rcases howes.hooked hhooked with hunset | hwon | hlowered
      · have := hsent (howes.finished hpc hhooked hunset)
        rw [hunset] at this
        cases this
      · simp [Request.settled, hwon] at hsettled
      · exact hlowered
    simp [Request.held, hlowered]

theorem heldCount_of_quiet (h : Reach step GivesBack {} s) (hquiet : Quiet s) :
    s.heldCount = 0 := by
  rw [State.heldCount, List.countP_eq_zero]
  intro r hr
  obtain ⟨i, hi⟩ := List.mem_iff_getElem?.mp hr
  obtain ⟨hpc, hsettled, hsent⟩ := hquiet i r hi
  rw [not_held_of_finished (owes_of_reach h i r hi) hpc hsettled hsent]
  exact Bool.false_ne_true

/-! ## Requests that keep it -/

/-- The request holds the counter and no call of its `Replyer` will lower
it: the call that counts is over, or nobody is left to make it. -/
def Request.Stuck (r : Request) : Prop :=
  r.held = true ∧ r.settled = true ∧ (r.replyed = .unset → r.pc = .finished)

theorem stuck_of_acts (hacts : Acts stoped r a r' n) (htracked : r.Tracked) (h : r.Stuck) :
    r'.Stuck := by
  obtain ⟨_, hhooked, _, _, _, _⟩ := htracked
  obtain ⟨hheld, hsettled, hunset⟩ := h
  -- Lowering needs `won`, which a settled call is not, and a new call needs a
  -- request that has not finished.
  cases hacts <;> simp_all [Request.Stuck, Request.held, Request.settled]

/-- Some request is stuck. -/
def State.Stuck (s : State) : Prop := ∃ (i : Nat) (r : Request), s.requests[i]? = some r ∧ r.Stuck

theorem State.Stuck.of_steps (h : s.Stuck) (hcounted : Counted s) (hsteps : Steps s e t) :
    t.Stuck := by
  obtain ⟨i, r, hr, hstuck⟩ := h
  obtain ⟨r', hr', rfl | ⟨a, n, hacts⟩⟩ := hsteps.request hr
  · exact ⟨i, r', hr', hstuck⟩
  · exact ⟨i, r', hr', stuck_of_acts hacts (hcounted.tracked i r hr) hstuck⟩

/-- The request that breaks the condition is stuck after the step. -/
theorem stuck_of_not_givesBack (hcounted : Counted s) (hsteps : Steps s e t)
    (h : ¬ GivesBack s e) : t.Stuck := by
  cases hsteps with
  | @act i a r r' n hr hacts =>
    obtain ⟨hpassed, hhooked, hhandling, hlowered, _, _⟩ := hcounted.tracked i r hr
    have hi := (List.getElem?_eq_some_iff.mp hr).1
    refine ⟨i, r', List.getElem?_set_self hi, ?_⟩
    -- Only the end of a handler and the counting of a request can break it.
    cases hacts <;> simp_all [GivesBack, Request.Stuck, Request.held, Request.settled]
  | receive => exact absurd trivial h
  | stop _ => exact absurd trivial h
  | sleep _ _ => exact absurd trivial h
  | close _ _ => exact absurd trivial h

/-- A run that ends without a stuck request met the condition all along. -/
theorem along_of_run {es : List Event} (hcounted : Counted s) (hrun : run step s es = some t)
    (h : ¬ t.Stuck) : Along step GivesBack s es := by
  have hkeep : ∀ s e t, Counted s → step s e = some t → Counted t := fun _ _ _ hcounted hstep =>
    counted_of_steps (steps_of_step hstep) hcounted
  have hnever : Along step (fun s _ => ¬ s.Stuck) s es := by
    refine (Along.of_end (P := fun s => ¬ s.Stuck) hcounted hkeep ?_ hrun h).1
    intro s e t hcounted hstep hnot hstuck
    exact hnot (hstuck.of_steps hcounted (steps_of_step hstep))
  refine Along.of_states (P := fun s => ¬ s.Stuck) hcounted hkeep ?_ hnever hrun h
  intro s e t hcounted hstep hnot
  by_contra hbreaks
  exact hnot (stuck_of_not_givesBack hcounted (steps_of_step hstep) hbreaks)

/-- A stuck request holds the counter. -/
theorem State.Stuck.heldCount_pos (h : s.Stuck) : 0 < s.heldCount := by
  obtain ⟨i, r, hr, hheld, _⟩ := h
  exact List.countP_pos_iff.mpr ⟨r, List.mem_of_getElem? hr, hheld⟩

/-- At the end of a run in which all handlers have finished and every request
that wants a response has one, nobody holds the counter if and only if every
request of the run gave its count back. -/
theorem heldCount_eq_zero_iff {es : List Event} (hrun : run step {} es = some s)
    (hquiet : Quiet s) : s.heldCount = 0 ↔ Along step GivesBack {} es := by
  constructor
  · intro hzero
    refine along_of_run counted_start hrun ?_
    intro hstuck
    have hpos := hstuck.heldCount_pos
    omega
  · intro halong
    exact heldCount_of_quiet (Reach.of_along .start halong hrun) hquiet

/-- What is asked of the counter in a run: it is never negative, and if at the
end all handlers have finished and every request that wants a response has
one, it is 0 and the wait of a stop ends.  This holds if and only if `2 ^ 31`
requests never hold it at the same time and, in the second case, every
request of the run gave its count back. -/
theorem pending_responses_iff (es : List Event) (s : State) (hrun : run step {} es = some s) :
    Always step (fun s => 0 ≤ s.pendingRespCount) {} es ∧
        (Quiet s → s.pendingRespCount = 0 ∧
          (s.stop = .waiting → step s .poll = some { s with stop := .closing })) ↔
      Always step (fun s => s.heldCount < 2 ^ 31) {} es ∧
        (Quiet s → Along step GivesBack {} es) := by
  have hcounted := counted_of_reach (Reach.of_run hrun)
  rw [always_nonneg_iff]
  refine and_congr_right ?_
  intro hbound
  have hlt : s.heldCount < 2 ^ 31 := hbound.last hrun
  refine imp_congr_right ?_
  intro hquiet
  rw [← heldCount_eq_zero_iff hrun hquiet, ← hcounted.eq_zero_iff hlt]
  refine and_iff_left_of_imp ?_
  intro hzero hwaiting
  simp [step, hwaiting, hzero]

/-! ## Runs of requests -/

/-- The request with the number `i` passes the interceptors, and its handler
starts. -/
def handled (i : Nat) (oneway : Bool) : List Event :=
  .receive oneway :: [.check, .lookup true, .decode true, .intercept .pass, .count, .hook].map
    (.act i)

/-- While the server is not stopped, a new request can be taken to its
handler. -/
theorem run_handled (hstop : s.stop = .running) (oneway : Bool) :
    run step s (handled s.requests.length oneway) =
      some { s with
        requests := s.requests ++ [{ oneway, pc := .handling, hooked := true }],
        pendingRespCount := s.pendingRespCount + 1 } := by
  simp [handled, run, step, State.stoped, hstop, Request.step, Request.settled]

/-- The handler answers and returns. -/
def answered : List Event :=
  handled 0 false ++ [.call, .callOutInterceptor, .reply, .finish false].map (.act 0)

theorem pending_responses_answered :
    ∃ s, run step {} answered = some s ∧ Quiet s ∧ s.pendingRespCount = 0 ∧
      Always step (fun s => s.heldCount < 2 ^ 31) {} answered ∧
      Along step GivesBack {} answered := by
  let r : Request :=
    { pc := .finished, replyed := .sent, hooked := true, lowered := true, byHandler := true }
  have hrun : run step {} answered = some { requests := [r] } := rfl
  have hquiet : Quiet { requests := [r] } := State.each_singleton rfl (by decide)
  have hnonneg : Always step (fun s => 0 ≤ s.pendingRespCount) {} answered := by decide +kernel
  have hheld := (pending_responses_iff _ _ hrun).mp ⟨hnonneg, fun _ => ⟨rfl, ?_⟩⟩
  · exact ⟨_, hrun, hquiet, rfl, hheld.1, hheld.2 hquiet⟩
  · intro hwaiting
    cases hwaiting

/-- Oneway requests whose handlers return without a call of the `Replyer`. -/
def posts : Nat → List Event
  | 0 => []
  | n + 1 => posts n ++ handled n true ++ [.act n (.finish false)]

/-- A oneway request whose handler has returned without a call. -/
def leaked : Request := { oneway := true, pc := .finished, hooked := true }

/-- Every one of them adds one to the counter for good. -/
theorem run_posts (n : Nat) :
    run step {} (posts n) =
      some { requests := List.replicate n leaked, pendingRespCount := Int32.ofNat n } := by
  induction n with
  | zero => rfl
  | succ n ih =>
    have hlength : (List.replicate n leaked).length = n := List.length_replicate
    have hhandled := run_handled (s := ⟨List.replicate n leaked, Int32.ofNat n, .running⟩) rfl true
    rw [hlength] at hhandled
    rw [posts, List.append_assoc, run_append ih, run_append hhandled, Int32.ofNat_add,
      List.replicate_succ']
    simp [run, step, Request.step, leaked]

/-- All handlers have finished and no request waits for a response.  After one
post the counter is 1, and a stop goes on waiting.  After `2 ^ 31` of them it is
negative. -/
theorem posted_never_counted_down :
    (∃ s, run step {} (posts 1 ++ [.stop]) = some s ∧ Quiet s ∧ s.pendingRespCount = 1 ∧
      s.stop = .waiting ∧ step s .poll = some s) ∧
    ∃ s, run step {} (posts (2 ^ 31)) = some s ∧ Quiet s ∧ s.pendingRespCount < 0 := by
  refine ⟨?_, ?_⟩
  · refine ⟨{ requests := [leaked], pendingRespCount := 1, stop := .waiting },
      rfl, ?_, rfl, rfl, rfl⟩
    exact State.each_singleton rfl (by decide)
  · refine ⟨_, run_posts (2 ^ 31), ?_, ?_⟩
    · intro i r hr
      obtain rfl := List.eq_of_mem_replicate (List.mem_of_getElem? hr)
      decide
    · show Int32.ofNat (2 ^ 31) < 0
      decide

end ClusterGo.Rpc.Server
