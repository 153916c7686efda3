import ClusterGo.Peer.Drain.Basic

/-!
# When the drains cannot block each other

A state in which nothing can move although something is left to do has one
shape: on both lines messages are left to push, the send channel and the
transport are full, the send loop holds a frame, and the receive loop of
each node waits for the mutex that its own drain holds.  `wait_cycle` proves
this.

A receive loop can wait there only at the first RPC request of the other
side, because no handler gets past the mutex before the drain is finished.
So the messages behind the first request fill the transport, the hand of
the send loop and the channel, and one more is left.  `Ledger` keeps the
account, and `progress` concludes that nothing blocks when for one of the
nodes the messages behind its first request fit.
-/

namespace ClusterGo.Peer.Drain

open Transition

variable {b : Buffers} {capacity : Nat} {l l' : Line} {s t : State}
  {pending : Side → List Frame}

/-- The messages behind the first RPC request. -/
def afterRequest : List Frame → List Frame
  | [] => []
  | .request :: rest => rest
  | .other :: rest => afterRequest rest

theorem afterRequest_append {before : List Frame} (hbefore : .request ∉ before)
    (rest : List Frame) : afterRequest (before ++ .request :: rest) = rest := by
  induction before with
  | nil => rfl
  | cons m before ih =>
    rw [List.mem_cons, not_or] at hbefore
    cases m with
    | request => exact absurd rfl hbefore.1
    | other => exact ih hbefore.2

/-! ## One line -/

/-- The position of the send loop fits its buffer, and a finished drain has
left nothing. -/
structure Line.Ok (l : Line) : Prop where
  gathered : l.sendloop = .select → l.buf ≠ [] → l.sendReq ≠ []
  held : l.sendloop ≠ .select → l.buf ≠ []
  finished : l.draining = false → l.pendingMsg = []

/-- The steps of a line. -/
inductive Line.Steps (b : Buffers) (capacity : Nat) (l : Line) : Line.Event → Line → Prop where
  | push {m : Frame} {rest : List Frame} (hpending : l.pendingMsg = m :: rest)
      (hdraining : l.draining = true) :
      Line.Steps b capacity l .push { l with pendingMsg := rest, sendReq := l.sendReq ++ [m] }
  | unlock (hpending : l.pendingMsg = []) :
      Line.Steps b capacity l .unlock { l with draining := false }
  | take {m : Frame} {rest : List Frame} (hreq : l.sendReq = m :: rest) :
      Line.Steps b capacity l .take
        { l with sendReq := rest, buf := l.buf ++ [m], sendloop := .check }
  | gather (hloop : l.sendloop = .check) (hmore : l.sendReq ≠ []) :
      Line.Steps b capacity l .check { l with sendloop := .select }
  | flush (hloop : l.sendloop = .check) :
      Line.Steps b capacity l .check { l with sendloop := .write }
  | write {m m' : Frame} {rest : List Frame} (hbuf : l.buf = m :: m' :: rest) :
      Line.Steps b capacity l .write
        { l with buf := m' :: rest, transport := l.transport ++ [m], sendloop := .write }
  | written {m : Frame} (hbuf : l.buf = [m]) :
      Line.Steps b capacity l .write
        { l with buf := [], transport := l.transport ++ [m], sendloop := .select }

theorem Line.steps_of_step {e : Line.Event} (h : Line.step b capacity l e = some l') :
    Line.Steps b capacity l e l' := by
  cases e with
  | push =>
    simp only [Line.step] at h
    split at h
    · rename_i m rest hpending
      split_ifs at h with hroom
      cases h
      exact .push hpending hroom.1
    · cases h
  | unlock =>
    simp only [Line.step] at h
    split_ifs at h with hdone
    cases h
    exact .unlock hdone.2
  | take =>
    simp only [Line.step] at h
    split at h
    · rename_i m rest hreq
      split_ifs at h with hloop
      cases h
      exact .take hreq
    · cases h
  | check =>
    simp only [Line.step] at h
    split_ifs at h with hloop hfull
    · cases h
      exact .flush hloop
    · cases h
      refine .gather hloop ?_
      intro hempty
      rw [hempty] at hfull
      simp at hfull
  | write =>
    simp only [Line.step] at h
    split at h
    · rename_i m rest hbuf
      split_ifs at h with hroom hlast
      · cases h
        rw [List.isEmpty_iff] at hlast
        rw [hlast] at hbuf ⊢
        exact .written hbuf
      · cases h
        cases rest with
        | nil => exact absurd rfl hlast
        | cons m' rest => exact .write hbuf
    · cases h

theorem Line.Ok.step {e : Line.Event} (h : l.Ok) (hstep : Line.Steps b capacity l e l') :
    l'.Ok := by
  cases hstep with
  | push hpending hdraining =>
    refine ⟨fun _ _ => List.append_ne_nil_of_right_ne_nil _ (List.cons_ne_nil _ _), h.held, ?_⟩
    intro hfinished
    rw [show l.draining = false from hfinished] at hdraining
    cases hdraining
  | unlock hpending => exact ⟨h.gathered, h.held, fun _ => hpending⟩
  | take hreq =>
    refine ⟨?_, fun _ => List.append_ne_nil_of_right_ne_nil _ (List.cons_ne_nil _ _), h.finished⟩
    intro hloop
    cases hloop
  | gather hloop hmore => exact ⟨fun _ _ => hmore, fun hne => absurd rfl hne, h.finished⟩
  | flush hloop =>
    refine ⟨?_, fun _ => h.held (hloop ▸ by decide), h.finished⟩
    intro hselect
    cases hselect
  | write hbuf =>
    refine ⟨?_, fun _ => List.cons_ne_nil _ _, h.finished⟩
    intro hselect
    cases hselect
  | written hbuf => exact ⟨fun _ hne => absurd rfl hne, fun hne => absurd rfl hne, h.finished⟩

/-- The steps of a line lose nothing and keep the order. -/
theorem Line.flow_step {e : Line.Event} (hstep : Line.Steps b capacity l e l') :
    l'.flow = l.flow := by
  cases hstep with
  | push hpending hdraining => simp [Line.flow, hpending]
  | unlock hpending => rfl
  | take hreq => simp [Line.flow, hreq]
  | gather hloop hmore => rfl
  | flush hloop => rfl
  | write hbuf => simp [Line.flow, hbuf]
  | written hbuf => simp [Line.flow, hbuf]

/-- A drain that is finished does not begin again. -/
theorem Line.draining_step {e : Line.Event} (hstep : Line.Steps b capacity l e l')
    (hdraining : l'.draining = true) : l.draining = true := by
  cases hstep with
  | unlock hpending => cases hdraining
  | _ => exact hdraining

/-! ## The ledger of both lines -/

/-- What a receive loop has taken so far, while no drain is finished: no
request, or the one it waits with. -/
def Taken : RecvLoop → List Frame → Prop
  | .idle, taken => .request ∉ taken
  | .locking, taken => ∃ before, taken = before ++ [.request] ∧ .request ∉ before
  | .replying, _ => False

structure Ledger (pending : Side → List Frame) (s : State) : Prop where
  ok : ∀ x, (s.lines x).Ok
  /-- A handler gets past the mutex only after the drain. -/
  replying : ∀ x, s.recvloop x = .replying → (s.lines x).draining = false
  /-- While both drains run, the pending messages of a node are what the
  other one has taken and what is on the line. -/
  account : (∀ x, (s.lines x).draining = true) → ∀ x, ∃ taken,
    pending x = taken ++ (s.lines x).flow ∧ Taken (s.recvloop x.other) taken

theorem ledger_start (pending : Side → List Frame) : Ledger pending (start pending) := by
  refine ⟨?_, ?_, ?_⟩
  · intro x
    exact ⟨fun _ hne => absurd rfl hne, fun hne => absurd rfl hne, fun hfinished => by
      cases hfinished⟩
  · intro x hreplying
    cases hreplying
  · intro _ x
    exact ⟨[], rfl, List.not_mem_nil⟩

/-- A frame that is taken goes from the line to the account. -/
theorem Taken.append {taken : List Frame} (h : Taken .idle taken) (m : Frame) :
    Taken (received m) (taken ++ [m]) := by
  cases m with
  | request => exact ⟨taken, rfl, h⟩
  | other =>
    show Frame.request ∉ taken ++ [.other]
    rw [List.mem_append, List.mem_singleton, not_or]
    exact ⟨h, by decide⟩

theorem Ledger.line (h : Ledger pending s) {x : Side} {e : Line.Event}
    (hstep : Line.Steps b capacity (s.lines x) e l) : Ledger pending (s.setLine x l) := by
  refine ⟨Side.forall_of_both x ?_ ?_, Side.forall_of_both x ?_ ?_, ?_⟩
  · rw [State.setLine_self]
    exact (h.ok x).step hstep
  · rw [State.setLine_other]
    exact h.ok x.other
  · rw [State.setLine_self, State.setLine_recvloop]
    intro hreplying
    have hfinished := h.replying x hreplying
    cases hdraining : l.draining with
    | false => rfl
    | true =>
      rw [Line.draining_step hstep hdraining] at hfinished
      cases hfinished
  · rw [State.setLine_other]
    exact h.replying x.other
  · intro hboth
    have hdraining : ∀ y, (s.lines y).draining = true := by
      refine Side.forall_of_both x ?_ ?_
      · have hself := hboth x
        rw [State.setLine_self] at hself
        exact Line.draining_step hstep hself
      · have hother := hboth x.other
        rw [State.setLine_other] at hother
        exact hother
    refine Side.forall_of_both x ?_ ?_
    · rw [State.setLine_self, Line.flow_step hstep]
      exact h.account hdraining x
    · rw [State.setLine_other]
      exact h.account hdraining x.other

/-- The receive loop of `x` takes the first frame of the other line. -/
theorem Ledger.read (h : Ledger pending s) {x : Side} {m : Frame} {rest : List Frame}
    (hfirst : (s.lines x.other).transport = m :: rest) (hidle : s.recvloop x = .idle) :
    Ledger pending ((s.setLine x.other { s.lines x.other with transport := rest }).setRecv x
      (received m)) := by
  have hother := h.ok x.other
  refine ⟨Side.forall_of_both x ?_ ?_, Side.forall_of_both x ?_ ?_, ?_⟩
  · rw [State.setRecv_lines, State.setLine_of_other]
    exact h.ok x
  · rw [State.setRecv_lines, State.setLine_self]
    exact ⟨hother.gathered, hother.held, hother.finished⟩
  · rw [State.setRecv_self]
    cases m <;> intro hreplying <;> cases hreplying
  · rw [State.setRecv_other, State.setRecv_lines, State.setLine_self]
    exact h.replying x.other
  · intro hboth
    have hdraining : ∀ y, (s.lines y).draining = true := by
      refine Side.forall_of_both x ?_ ?_
      · have hself := hboth x
        rw [State.setRecv_lines, State.setLine_of_other] at hself
        exact hself
      · have hdrain := hboth x.other
        rw [State.setRecv_lines, State.setLine_self] at hdrain
        exact hdrain
    refine Side.forall_of_both x ?_ ?_
    · rw [State.setRecv_lines, State.setLine_of_other, State.setRecv_other]
      exact h.account hdraining x
    · obtain ⟨taken, haccount, htaken⟩ := h.account hdraining x.other
      rw [Side.other_other, hidle] at htaken
      rw [State.setRecv_lines, State.setLine_self, Side.other_other, State.setRecv_self]
      refine ⟨taken ++ [m], ?_, htaken.append m⟩
      rw [haccount, Line.flow, Line.flow, hfirst]
      simp

/-- Past the mutex the drain of the node is finished, and there is nothing
to account for. -/
theorem Ledger.handler (h : Ledger pending s) {x : Side} (hself : (t.lines x).draining = false)
    (hok : (t.lines x).Ok) (hother : t.lines x.other = s.lines x.other)
    (hrecv : t.recvloop x.other = s.recvloop x.other) : Ledger pending t := by
  refine ⟨Side.forall_of_both x hok ?_, Side.forall_of_both x (fun _ => hself) ?_, ?_⟩
  · rw [hother]
    exact h.ok x.other
  · rw [hother, hrecv]
    exact h.replying x.other
  · intro hboth
    rw [hboth x] at hself
    cases hself

theorem ledger_of_reach (h : Reachable (step b) (start pending) s) : Ledger pending s := by
  refine h.invariant (P := Ledger pending) (ledger_start pending) ?_
  intro s e t _ hledger _ hstep
  cases e with
  | line x e =>
    obtain ⟨l, hl, heq⟩ := Option.map_eq_some_iff.mp hstep
    exact heq ▸ hledger.line (Line.steps_of_step hl)
  | read x =>
    simp only [step] at hstep
    split at hstep
    · rename_i m rest hfirst
      split_ifs at hstep with hidle
      cases hstep
      exact hledger.read hfirst hidle
    · cases hstep
  | lock x =>
    simp only [step] at hstep
    split_ifs at hstep with hlock
    cases hstep
    exact hledger.handler hlock.2 (hledger.ok x) rfl (State.setRecv_other s x _)
  | reply x =>
    simp only [step] at hstep
    split_ifs at hstep with hroom
    cases hstep
    have hfinished := hledger.replying x hroom.1
    have hok := hledger.ok x
    refine hledger.handler ?_ ?_ ?_ (State.setRecv_other _ x _)
    · rw [State.setRecv_lines, State.setLine_self]
      exact hfinished
    · rw [State.setRecv_lines, State.setLine_self]
      exact ⟨fun _ _ => List.append_ne_nil_of_right_ne_nil _ (List.cons_ne_nil _ _), hok.held,
        hok.finished⟩
    · rw [State.setRecv_lines, State.setLine_other]
  | timeout x =>
    simp only [step] at hstep
    split_ifs at hstep with hreplying
    cases hstep
    have hfinished := hledger.replying x hreplying
    exact hledger.handler hfinished (hledger.ok x) rfl (State.setRecv_other s x _)

/-! ## What a standstill looks like -/

/-- No goroutine can take a step. -/
def Standstill (b : Buffers) (s : State) : Prop := ∀ e, step b s e = none

/-- Messages are left to push, the channel and the transport are full, and
the send loop holds a frame. -/
structure Line.Blocked (b : Buffers) (capacity : Nat) (l : Line) : Prop where
  draining : l.draining = true
  pending : l.pendingMsg ≠ []
  channel : b.sendChanSize ≤ l.sendReq.length
  writing : l.sendloop = .write
  buf : l.buf ≠ []
  transport : capacity ≤ l.transport.length

/-- No line can take a step in a standstill. -/
theorem Standstill.line (h : Standstill b s) (x : Side) (e : Line.Event) :
    Line.step b (b.transport x) (s.lines x) e = none :=
  Option.map_eq_none_iff.mp (h (.line x e))

/-- A send loop that cannot move waits for messages, or for the transport. -/
theorem sendloop_of_standstill (hline : ∀ e, Line.step b capacity l e = none) (hok : l.Ok) :
    l.sendloop = .select ∧ l.sendReq = [] ∨
      l.sendloop = .write ∧ l.buf ≠ [] ∧ capacity ≤ l.transport.length := by
  cases hloop : l.sendloop with
  | select =>
    refine Or.inl ⟨rfl, ?_⟩
    have htake := hline .take
    cases hreq : l.sendReq with
    | nil => rfl
    | cons m rest => simp [Line.step, hreq, hloop] at htake
  | check =>
    have hcheck := hline .check
    simp [Line.step, hloop] at hcheck
  | write =>
    have hbuf : l.buf ≠ [] := hok.held (hloop ▸ by decide)
    refine Or.inr ⟨rfl, hbuf, ?_⟩
    have hwrite := hline .write
    cases hheld : l.buf with
    | nil => exact absurd hheld hbuf
    | cons m rest =>
      simp only [Line.step, hheld, hloop, true_and, ite_eq_right_iff] at hwrite
      by_contra hroom
      exact absurd (hwrite (by omega)) (Option.some_ne_none _)

/-- A drain that cannot go on has a full channel and a full transport before
it. -/
theorem blocked_of_standstill (hline : ∀ e, Line.step b capacity l e = none) (hok : l.Ok)
    (hdraining : l.draining = true) : l.Blocked b capacity := by
  have hpending : l.pendingMsg ≠ [] := by
    intro hempty
    have hunlock := hline .unlock
    simp [Line.step, hdraining, hempty] at hunlock
  have hchannel : b.sendChanSize ≤ l.sendReq.length := by
    have hpush := hline .push
    cases hmsgs : l.pendingMsg with
    | nil => exact absurd hmsgs hpending
    | cons m rest =>
      simp only [Line.step, hmsgs, hdraining, true_and, ite_eq_right_iff] at hpush
      by_contra hroom
      exact absurd (hpush (by omega)) (Option.some_ne_none _)
  rcases sendloop_of_standstill hline hok with ⟨_, hempty⟩ | ⟨hwriting, hbuf, hfull⟩
  · rw [hempty, List.length_nil] at hchannel
    exact absurd b.sendChanSize_pos (by omega)
  · exact ⟨hdraining, hpending, hchannel, hwriting, hbuf, hfull⟩

/-- In a standstill a receive loop waits for a frame that is not there, or
for the mutex of its own drain. -/
theorem recvloop_of_standstill (h : Standstill b s) (x : Side) :
    s.recvloop x = .idle ∧ (s.lines x.other).transport = [] ∨
      s.recvloop x = .locking ∧ (s.lines x).draining = true := by
  cases hrecv : s.recvloop x with
  | idle =>
    refine Or.inl ⟨rfl, ?_⟩
    have hread := h (.read x)
    cases hfirst : (s.lines x.other).transport with
    | nil => rfl
    | cons m rest => simp [step, hfirst, hrecv] at hread
  | locking =>
    refine Or.inr ⟨rfl, ?_⟩
    have hlock := h (.lock x)
    cases hdraining : (s.lines x).draining with
    | true => rfl
    | false => simp [step, hrecv, hdraining] at hlock
  | replying =>
    have htimeout := h (.timeout x)
    simp [step, hrecv] at htimeout

/-- A drain that stands still makes the other node wait for its own mutex. -/
theorem locking_of_blocked (h : Standstill b s) {x : Side}
    (hblocked : (s.lines x).Blocked b (b.transport x)) :
    s.recvloop x.other = .locking ∧ (s.lines x.other).draining = true := by
  rcases recvloop_of_standstill h x.other with ⟨_, hempty⟩ | hlocking
  · have hfull := hblocked.transport
    have hpos := b.transport_pos x
    rw [Side.other_other] at hempty
    rw [hempty, List.length_nil] at hfull
    omega
  · exact hlocking

/-- Without a drain a standstill has nothing left to do. -/
theorem not_busy_of_drained (h : Standstill b s) (hok : ∀ x, (s.lines x).Ok)
    (hdrained : ∀ x, (s.lines x).draining = false) : ¬ Busy s := by
  have hidle : ∀ x, s.recvloop x = .idle ∧ (s.lines x.other).transport = [] := by
    intro x
    rcases recvloop_of_standstill h x with hidle | ⟨_, hdraining⟩
    · exact hidle
    · rw [hdrained x] at hdraining
      cases hdraining
  intro hbusy
  obtain ⟨x, hx⟩ := hbusy
  have htransport := (hidle x.other).2
  rw [Side.other_other] at htransport
  have hpos := b.transport_pos x
  rcases sendloop_of_standstill (h.line x) (hok x) with ⟨hselect, hreq⟩ | ⟨_, _, hfull⟩
  · have hbuf : (s.lines x).buf = [] := by
      by_contra hheld
      exact (hok x).gathered hselect hheld hreq
    rcases hx with (hdraining | hpending | hsend | hheld | hwire) | hrecv
    · rw [hdrained x] at hdraining
      cases hdraining
    · exact hpending ((hok x).finished (hdrained x))
    · exact hsend hreq
    · exact hheld hbuf
    · exact hwire htransport
    · exact hrecv (hidle x).1
  · rw [htransport, List.length_nil] at hfull
    omega

/-- A standstill with something left to do is a wait cycle: both drains are
blocked, and both receive loops wait for the mutexes that they hold. -/
theorem wait_cycle (h : Standstill b s) (hok : ∀ x, (s.lines x).Ok) (hbusy : Busy s) (x : Side) :
    (s.lines x).Blocked b (b.transport x) ∧ s.recvloop x.other = .locking := by
  by_cases hdrained : ∀ x, (s.lines x).draining = false
  · exact absurd hbusy (not_busy_of_drained h hok hdrained)
  · rw [not_forall] at hdrained
    obtain ⟨y, hy⟩ := hdrained
    rw [Bool.not_eq_false] at hy
    have hblocked := blocked_of_standstill (h.line y) (hok y) hy
    obtain ⟨hlocking, hother⟩ := locking_of_blocked h hblocked
    have hblocked' := blocked_of_standstill (h.line y.other) (hok y.other) hother
    revert x
    refine Side.forall_of_both y ⟨hblocked, hlocking⟩ ⟨hblocked', ?_⟩
    exact (locking_of_blocked h hblocked').1

/-- When for one of the nodes the messages behind its first request fit into
the channel, the transport and the hand of the send loop, something can
always move while something is left to do. -/
theorem progress (hfits : ∃ x, (afterRequest (pending x)).length ≤
      b.sendChanSize + b.transport x + 1)
    (h : Reachable (step b) (start pending) s) (hbusy : Busy s) :
    ∃ e t, step b s e = some t := by
  by_contra hnone
  have hstandstill : Standstill b s := by
    intro e
    cases hstep : step b s e with
    | none => rfl
    | some t => exact absurd ⟨e, t, hstep⟩ hnone
  have hledger := ledger_of_reach h
  obtain ⟨x, hx⟩ := hfits
  have hcycle := wait_cycle hstandstill hledger.ok hbusy
  obtain ⟨hblocked, hlocking⟩ := hcycle x
  obtain ⟨taken, haccount, htaken⟩ := hledger.account (fun y => (hcycle y).1.draining) x
  rw [hlocking] at htaken
  obtain ⟨before, htaken, hbefore⟩ := htaken
  have hrest : afterRequest (pending x) = (s.lines x).flow := by
    rw [haccount, htaken, List.append_assoc]
    exact afterRequest_append hbefore _
  have hlength : (s.lines x).flow.length = (s.lines x).transport.length +
      ((s.lines x).buf.length + ((s.lines x).sendReq.length + (s.lines x).pendingMsg.length)) := by
    rw [Line.flow]
    simp only [List.length_append]
  have hbuf := List.length_pos_of_ne_nil hblocked.buf
  have hpending := List.length_pos_of_ne_nil hblocked.pending
  have hchannel := hblocked.channel
  have htransport := hblocked.transport
  rw [hrest] at hx
  omega

end ClusterGo.Peer.Drain
