import ClusterGo.Lib.Select
import ClusterGo.Peer.Basic

/-!
# Pushing to the send queue

`Socket.Send` of `socket/socket.go` pushes an object to the channel of
`sendloop`, in one of three `select` statements.  A zero deadline waits as
long as it takes, a deadline in the past does not wait, and any other waits
for its timer.  The length of the channel is at least 1.

The queue is the one that the `select` finds when it goes on.
`send_cases` says what a call does and when it can fail, and
`exists_refusal` that it then does in one of its ways.
-/

namespace ClusterGo.Socket

open Peer

/-- The part of `Socket` that `Send` uses. -/
structure SendQueue (M : Type) where
  die : Bool := false
  sendReq : List M := []
  sendChanSize : Nat
deriving DecidableEq, Repr

/-- The clock when the timeout is computed, and whether its timer has fired
when the `select` goes on. -/
structure SendTime where
  now : Time
  fired : Bool
deriving DecidableEq, Repr

/-- `Socket.getTimeout`. -/
def getTimeout (now deadline : Time) : Int := if deadline = 0 then 0 else deadline - now

variable {M : Type}

namespace SendQueue

def push (s : SendQueue M) (o : M) : SendQueue M := { s with sendReq := s.sendReq ++ [o] }

/-- `Socket.Send`: the ways in which it can return. -/
def send (s : SendQueue M) (t : SendTime) (o : M) (deadline : Time) :
    List (Option Err × SendQueue M) :=
  let closed := (s.die, (some .socketClosed, s))
  let pushed := (decide (s.sendReq.length < s.sendChanSize), (none, s.push o))
  let timeout := getTimeout t.now deadline
  if timeout = 0 then Select.outcomes [closed, pushed] none
  else if timeout > 0 then
    Select.outcomes [closed, (t.fired, (some .pushToSendQueueTimeout, s)), pushed] none
  else Select.outcomes [closed, pushed] (some (some .sendQueueFull, s))

/-- The socket is closed, the timer of the call has fired, or the call does
not wait and the queue is full. -/
def CanRefuse (s : SendQueue M) (t : SendTime) (deadline : Time) : Prop :=
  s.die = true ∨ 0 < getTimeout t.now deadline ∧ t.fired = true ∨
    getTimeout t.now deadline < 0 ∧ s.sendChanSize ≤ s.sendReq.length

variable {s : SendQueue M} {t : SendTime} {o : M} {deadline : Time}

/-- What the two cases that all three statements have lead to. -/
theorem closed_or_pushed {r : Option Err × SendQueue M}
    (h : (true, r) = (s.die, (some .socketClosed, s)) ∨
      (true, r) = (decide (s.sendReq.length < s.sendChanSize), (none, s.push o))) :
    r = (none, s.push o) ∨ (∃ err, r = (some err, s)) ∧ s.CanRefuse t deadline := by
  rcases h with h | h
  · rw [Prod.mk.injEq] at h
    exact Or.inr ⟨⟨_, h.2⟩, Or.inl h.1.symm⟩
  · exact Or.inl (Prod.mk.inj h).2

/-- A call pushes the object, or it fails and leaves the queue as it is. -/
theorem send_cases {r : Option Err × SendQueue M} (h : r ∈ s.send t o deadline) :
    r = (none, s.push o) ∨ (∃ err, r = (some err, s)) ∧ s.CanRefuse t deadline := by
  unfold send at h
  dsimp only at h
  split_ifs at h with hzero hpos
  · rcases Select.mem_outcomes.mp h with hcase | ⟨_, hdefault⟩
    · simp only [List.mem_cons, List.not_mem_nil, or_false] at hcase
      exact closed_or_pushed hcase
    · cases hdefault
  · rcases Select.mem_outcomes.mp h with hcase | ⟨_, hdefault⟩
    · simp only [List.mem_cons, List.not_mem_nil, or_false] at hcase
      rcases hcase with hclosed | htimer | hpushed
      · exact closed_or_pushed (Or.inl hclosed)
      · rw [Prod.mk.injEq] at htimer
        exact Or.inr ⟨⟨_, htimer.2⟩, Or.inr (Or.inl ⟨hpos, htimer.1.symm⟩)⟩
      · exact closed_or_pushed (Or.inr hpushed)
    · cases hdefault
  · rcases Select.mem_outcomes.mp h with hcase | ⟨hnone, hdefault⟩
    · simp only [List.mem_cons, List.not_mem_nil, or_false] at hcase
      exact closed_or_pushed hcase
    · -- the default is taken when the queue is full
      have hfull := hnone _ (List.mem_cons_of_mem _ List.mem_cons_self)
      simp only [decide_eq_false_iff_not, Nat.not_lt] at hfull
      exact Or.inr ⟨⟨_, (Option.some.inj hdefault).symm⟩, Or.inr (Or.inr ⟨by omega, hfull⟩)⟩

/-- A call that can fail has a way to return in which it does. -/
theorem exists_refusal (h : s.CanRefuse t deadline) (o : M) :
    ∃ err, (some err, s) ∈ s.send t o deadline := by
  unfold send
  dsimp only
  by_cases hdie : s.die = true
  · refine ⟨.socketClosed, ?_⟩
    split_ifs
    all_goals
      rw [Select.mem_outcomes, hdie]
      exact Or.inl List.mem_cons_self
  · rcases h.resolve_left hdie with ⟨hpos, hfired⟩ | ⟨hneg, hfull⟩
    · refine ⟨.pushToSendQueueTimeout, ?_⟩
      rw [if_neg (by omega), if_pos hpos, Select.mem_outcomes, hfired]
      exact Or.inl (List.mem_cons_of_mem _ List.mem_cons_self)
    · refine ⟨.sendQueueFull, ?_⟩
      rw [if_neg (by omega), if_neg (by omega), Select.mem_outcomes]
      refine Or.inr ⟨?_, rfl⟩
      intro c hc
      simp only [List.mem_cons, List.not_mem_nil, or_false] at hc
      rcases hc with rfl | rfl
      · exact Bool.eq_false_iff.mpr hdie
      · exact decide_eq_false (by omega)

end SendQueue

end ClusterGo.Socket
