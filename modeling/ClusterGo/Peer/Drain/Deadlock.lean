import ClusterGo.Peer.Drain.Progress

/-!
# When the drains block each other

The condition of `progress` is exact.  When on both sides more messages
stand behind the first RPC request than the channel, the transport and the
hand of the send loop can take, the two nodes can run into the wait cycle:
each line carries its messages up to the first request, whose handler then
waits for the mutex, and everything behind it fills up.  `jam` is the run of
one line, and it does not touch the other line, so the two runs are put one
after the other.
-/

namespace ClusterGo.Peer.Drain

open Transition

variable {b : Buffers} {c : Nat} {s : State} {pending : Side → List Frame}

/-! ## Filling up one line -/

namespace Line

/-- One message goes from the queue to the transport. -/
theorem carry {m : Frame} {rest wire : List Frame} (hroom : wire.length < c) :
    Reachable (Line.step b c) { pendingMsg := m :: rest, transport := wire }
      { pendingMsg := rest, transport := wire ++ [m] } := by
  have hpos := b.sendChanSize_pos
  have hrun : run (Line.step b c) { pendingMsg := m :: rest, transport := wire }
      [.push, .take, .check, .write] =
        some { pendingMsg := rest, transport := wire ++ [m] } := by
    simp [run, Line.step, hpos, hroom]
  exact Reach.of_run hrun

/-- A list of messages goes to the transport. -/
theorem fill (msgs rest wire : List Frame)
    (hroom : wire.length + msgs.length ≤ c) :
    Reachable (Line.step b c) { pendingMsg := msgs ++ rest, transport := wire }
      { pendingMsg := rest, transport := wire ++ msgs } := by
  induction msgs generalizing wire with
  | nil =>
    rw [List.append_nil]
    exact .start
  | cons m msgs ih =>
    rw [List.length_cons] at hroom
    have hrest := ih (wire ++ [m]) (by rw [List.length_append, List.length_singleton]; omega)
    rw [List.append_assoc, List.singleton_append] at hrest
    exact (carry (by omega)).trans hrest

/-- One more message goes to the hand of the send loop. -/
theorem hold (m : Frame) (rest wire : List Frame) :
    Reachable (Line.step b c) { pendingMsg := m :: rest, transport := wire }
      { pendingMsg := rest, buf := [m], sendloop := .write, transport := wire } := by
  have hpos := b.sendChanSize_pos
  have hrun : run (Line.step b c) { pendingMsg := m :: rest, transport := wire }
      [.push, .take, .check] =
        some { pendingMsg := rest, buf := [m], sendloop := .write, transport := wire } := by
    simp [run, Line.step, hpos]
  exact Reach.of_run hrun

/-- Behind it the channel fills up. -/
theorem queue (msgs rest buf wire chan : List Frame)
    (hroom : chan.length + msgs.length ≤ b.sendChanSize) :
    Reachable (Line.step b c)
      { pendingMsg := msgs ++ rest, sendReq := chan, buf, sendloop := .write, transport := wire }
      { pendingMsg := rest, sendReq := chan ++ msgs, buf, sendloop := .write,
        transport := wire } := by
  induction msgs generalizing chan with
  | nil =>
    rw [List.append_nil]
    exact .start
  | cons m msgs ih =>
    rw [List.length_cons] at hroom
    have hrest := ih (chan ++ [m]) (by rw [List.length_append, List.length_singleton]; omega)
    rw [List.append_assoc, List.singleton_append] at hrest
    have hlt : chan.length < b.sendChanSize := by omega
    refine Reach.trans (.next (e := .push) .start trivial ?_) hrest
    simp [Line.step, hlt]

/-- A line with more messages than it can take is blocked. -/
theorem jam (msgs : List Frame) (hmany : b.sendChanSize + c + 1 < msgs.length) :
    ∃ l : Line, l.Blocked b c ∧
      Reachable (Line.step b c) { pendingMsg := msgs } l := by
  -- The transport takes the first messages, the hand one, and the channel the next.
  have hwire : (msgs.take c).length = c := by
    rw [List.length_take]
    omega
  obtain ⟨m, rest, hrest⟩ : ∃ m rest, msgs.drop c = m :: rest := by
    refine List.exists_cons_of_length_pos ?_
    rw [List.length_drop]
    omega
  have hlength : rest.length + 1 = msgs.length - c := by
    rw [← List.length_drop, hrest, List.length_cons]
  have hchan : (rest.take b.sendChanSize).length = b.sendChanSize := by
    rw [List.length_take]
    omega
  have hleft : rest.drop b.sendChanSize ≠ [] := by
    refine List.ne_nil_of_length_pos ?_
    rw [List.length_drop]
    omega
  have hfill : Reachable (Line.step b c) { pendingMsg := msgs }
      { pendingMsg := m :: rest, transport := msgs.take c } := by
    have hroom : ([] : List Frame).length + (msgs.take c).length ≤ c := by
      rw [List.length_nil]
      omega
    have hrun := fill (b := b) (msgs.take c) (msgs.drop c) [] hroom
    rw [List.take_append_drop, List.nil_append, hrest] at hrun
    exact hrun
  have hqueue : Reachable (Line.step b c)
      { pendingMsg := rest, buf := [m], sendloop := .write, transport := msgs.take c }
      { pendingMsg := rest.drop b.sendChanSize, sendReq := rest.take b.sendChanSize, buf := [m],
        sendloop := .write, transport := msgs.take c } := by
    have hroom : ([] : List Frame).length + (rest.take b.sendChanSize).length ≤
        b.sendChanSize := by
      rw [List.length_nil]
      omega
    have hrun := queue (c := c) (rest.take b.sendChanSize) (rest.drop b.sendChanSize) [m]
      (msgs.take c) [] hroom
    rw [List.take_append_drop, List.nil_append] at hrun
    exact hrun
  refine ⟨_, ?_, (hfill.trans (hold m rest _)).trans hqueue⟩
  exact ⟨rfl, hleft, Nat.le_of_eq hchan.symm, rfl, List.cons_ne_nil _ _,
    Nat.le_of_eq hwire.symm⟩

end Line

/-! ## Both lines -/

@[simp] theorem setLine_setLine (s : State) (x : Side) (l l' : Line) :
    (s.setLine x l).setLine x l' = s.setLine x l' := by
  simp only [State.setLine, Function.update_idem]

theorem setLine_eq_self (s : State) (x : Side) : s.setLine x (s.lines x) = s := by
  simp only [State.setLine, Function.update_eq_self]

theorem setRecv_eq_self {p : RecvLoop} {x : Side} (h : s.recvloop x = p) :
    s.setRecv x p = s := by
  rw [State.setRecv, ← h, Function.update_eq_self]

/-- A run of a line is a run of the whole. -/
theorem reach_of_line {x : Side} {l : Line}
    (h : Reachable (Line.step b (b.transport x)) (s.lines x) l) :
    Reachable (step b) s (s.setLine x l) := by
  induction h with
  | start =>
    rw [setLine_eq_self]
    exact .start
  | @next l l' e hl _ hstep ih =>
    refine .next (e := .line x e) ih trivial ?_
    rw [step, State.setLine_self, hstep, Option.map_some, setLine_setLine]

/-- A message on an empty line is delivered. -/
theorem deliver {x : Side} {m : Frame} {rest : List Frame}
    (hline : s.lines x = { pendingMsg := m :: rest }) (hidle : s.recvloop x.other = .idle) :
    Reachable (step b) s
      ((s.setLine x { pendingMsg := rest }).setRecv x.other (received m)) := by
  have hcarry : Reachable (step b) s
      (s.setLine x { pendingMsg := rest, transport := [m] }) := by
    refine reach_of_line ?_
    rw [hline]
    exact Line.carry (b.transport_pos x)
  refine .next (e := .read x.other) hcarry trivial ?_
  simp [step, hidle]

/-- The messages before the first request are delivered. -/
theorem deliver_before {x : Side} {before rest : List Frame} (hbefore : .request ∉ before)
    (hline : s.lines x = { pendingMsg := before ++ rest })
    (hidle : s.recvloop x.other = .idle) :
    Reachable (step b) s (s.setLine x { pendingMsg := rest }) := by
  induction before generalizing s with
  | nil =>
    rw [List.nil_append] at hline
    rw [← hline, setLine_eq_self]
    exact .start
  | cons m before ih =>
    rw [List.mem_cons, not_or] at hbefore
    cases m with
    | request => exact absurd rfl hbefore.1
    | other =>
      have hfirst := deliver (b := b) hline hidle
      rw [received, setRecv_eq_self (by rw [State.setLine_recvloop, hidle])] at hfirst
      have hrest := ih (s := s.setLine x { pendingMsg := before ++ rest }) hbefore.2
        (State.setLine_self s x _) hidle
      rw [setLine_setLine] at hrest
      exact hfirst.trans hrest

/-- A list with something behind its first request. -/
theorem exists_request {msgs : List Frame} (h : afterRequest msgs ≠ []) :
    ∃ before, .request ∉ before ∧ msgs = before ++ .request :: afterRequest msgs := by
  induction msgs with
  | nil => exact absurd rfl h
  | cons m msgs ih =>
    cases m with
    | request => exact ⟨[], List.not_mem_nil, rfl⟩
    | other =>
      obtain ⟨before, hbefore, heq⟩ := ih h
      refine ⟨.other :: before, ?_, ?_⟩
      · rw [List.mem_cons, not_or]
        exact ⟨by decide, hbefore⟩
      · exact congrArg (List.cons Frame.other) heq

/-- One line runs until it is blocked.  The other node waits for its mutex
then, with the first request in its hands. -/
theorem jam_line {x : Side} {msgs : List Frame} (hline : s.lines x = { pendingMsg := msgs })
    (hidle : s.recvloop x.other = .idle)
    (hmany : b.sendChanSize + b.transport x + 1 < (afterRequest msgs).length) :
    ∃ l : Line, l.Blocked b (b.transport x) ∧
      Reachable (step b) s ((s.setLine x l).setRecv x.other .locking) := by
  obtain ⟨before, hbefore, heq⟩ :=
    exists_request (List.ne_nil_of_length_pos (show 0 < (afterRequest msgs).length by omega))
  obtain ⟨l, hblocked, hjam⟩ := Line.jam (b := b) (c := b.transport x) _ hmany
  refine ⟨l, hblocked, ?_⟩
  have hupto : Reachable (step b) s
      (s.setLine x { pendingMsg := .request :: afterRequest msgs }) :=
    deliver_before hbefore (heq ▸ hline) hidle
  have hrequest := deliver (b := b) (State.setLine_self s x
    { pendingMsg := .request :: afterRequest msgs }) hidle
  rw [setLine_setLine, received] at hrequest
  have hrest := reach_of_line (b := b) (x := x)
    (s := (s.setLine x { pendingMsg := afterRequest msgs }).setRecv x.other .locking)
    (by rw [State.setRecv_lines, State.setLine_self]; exact hjam)
  rw [State.setRecv_setLine, setLine_setLine] at hrest
  exact (hupto.trans hrequest).trans hrest

/-- With both lines blocked and both receive loops at the mutex, nothing
moves. -/
theorem standstill_of_blocked (hblocked : ∀ x, (s.lines x).Blocked b (b.transport x))
    (hlocking : ∀ x, s.recvloop x = .locking) : Standstill b s := by
  intro e
  cases e with
  | line x e =>
    have h := hblocked x
    have hchannel := h.channel
    have htransport := h.transport
    rw [step, Option.map_eq_none_iff]
    cases e with
    | push =>
      simp only [Line.step]
      split
      · exact if_neg fun hroom => by omega
      · rfl
    | unlock => exact if_neg fun hdone => h.pending hdone.2
    | take =>
      simp only [Line.step]
      split
      · exact if_neg fun hselect => by rw [h.writing] at hselect; cases hselect
      · rfl
    | check => exact if_neg fun hcheck => by rw [h.writing] at hcheck; cases hcheck
    | write =>
      simp only [Line.step]
      split
      · exact if_neg fun hroom => by omega
      · rfl
  | read x =>
    simp only [step]
    split
    · exact if_neg fun hidle => by rw [hlocking x] at hidle; cases hidle
    · rfl
  | lock x => exact if_neg fun hfree => by rw [(hblocked x).draining] at hfree; cases hfree.2
  | reply x => exact if_neg fun hroom => by rw [hlocking x] at hroom; cases hroom.1
  | timeout x => exact if_neg fun hreplying => by rw [hlocking x] at hreplying; cases hreplying

/-- When no side fits, the wait cycle is reached. -/
theorem exists_wait_cycle
    (hmany : ∀ x, b.sendChanSize + b.transport x + 1 < (afterRequest (pending x)).length) :
    ∃ s, Reachable (step b) (start pending) s ∧ Busy s ∧ Standstill b s := by
  obtain ⟨la, hla, hreacha⟩ := jam_line (s := start pending) (x := .a) rfl rfl (hmany .a)
  obtain ⟨lb, hlb, hreachb⟩ := jam_line
    (s := ((start pending).setLine .a la).setRecv .b .locking) (x := .b)
    (State.setLine_other _ .a la) (State.setRecv_other _ .b _) (hmany .b)
  refine ⟨_, hreacha.trans hreachb, ⟨.b, Or.inl (Or.inl ?_)⟩, standstill_of_blocked ?_ ?_⟩
  · rw [State.setRecv_lines, State.setLine_self]
    exact hlb.draining
  · refine Side.forall_of_both .b ?_ ?_
    · rw [State.setRecv_lines, State.setLine_self]
      exact hlb
    · rw [State.setRecv_lines, State.setLine_other]
      show (((start pending).setLine .a la).lines .a).Blocked b (b.transport .a)
      rw [State.setLine_self]
      exact hla
  · refine Side.forall_of_both .b ?_ ?_
    · rw [State.setRecv_of_other, State.setLine_recvloop, State.setRecv_self]
    · rw [State.setRecv_self]

/-- Two nodes drain their pending queues into a new connection.  In every
state they reach with something left to do some goroutine can go on, if and
only if for one of the nodes the messages behind its first RPC request fit
into its send channel, its transport and the hand of its send loop. -/
theorem drains_never_block_iff (b : Buffers) (pending : Side → List Frame) :
    (∀ s, Reachable (step b) (start pending) s → Busy s → ∃ e t, step b s e = some t) ↔
      ∃ x, (afterRequest (pending x)).length ≤ b.sendChanSize + b.transport x + 1 := by
  constructor
  · intro hprogress
    by_contra hfits
    have hmany : ∀ x, b.sendChanSize + b.transport x + 1 < (afterRequest (pending x)).length := by
      intro x
      by_contra hle
      exact hfits ⟨x, by omega⟩
    obtain ⟨s, hreach, hbusy, hstandstill⟩ := exists_wait_cycle hmany
    obtain ⟨e, t, hstep⟩ := hprogress s hreach hbusy
    rw [hstandstill e] at hstep
    cases hstep
  · intro hfits s hreach hbusy
    exact progress hfits hreach hbusy

/-! ## The default sizes -/

/-- The send channel as the source sets it, and a transport that holds 64
frames each way. -/
def defaultBuffers : Buffers where
  sendChanSize := 256
  transport _ := 64
  batchFull _ := false
  sendChanSize_pos := by decide
  transport_pos _ := by decide

/-- An RPC request and 322 messages behind it, which is well below the 1024
that the pending queue takes. -/
def longQueue : Side → List Frame := fun _ => .request :: List.replicate 322 .other

/-- With such queues on both sides the two nodes run into a state in which
nothing can move and neither drain is finished. -/
theorem drains_block_each_other :
    ∃ s, Reachable (step defaultBuffers) (start longQueue) s ∧ Busy s ∧
      ∀ e, step defaultBuffers s e = none := by
  refine exists_wait_cycle ?_
  intro x
  show 256 + 64 + 1 < (List.replicate 322 Frame.other).length
  rw [List.length_replicate]
  omega

end ClusterGo.Peer.Drain
