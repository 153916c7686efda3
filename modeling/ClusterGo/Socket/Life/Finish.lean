import ClusterGo.Socket.Life.Callback

/-!
# A closed socket comes to its end

Once the connection is closed, the goroutines of a socket return by
themselves and the close callback runs.  `work` bounds the number of their
steps: every one of them lowers it.  A state from which none of them can
take a step is one in which the callback has run.

New objects, new receives and the data of the network do not count: the
callers are not bound to stop, and nothing is read from a closed connection.
Packets that the frame reader still holds may be handled before the end.
-/

namespace ClusterGo.Socket.Life

open Transition

variable {O P E : Type} {codec : Codec O P E} {opts : Options} {s t : Sock O P E}
  {e : Event O E}

/-! ## The work that is left -/

def CloseOnce.work : CloseOnce E → Nat
  | .idle => 4
  | .entered _ => 3
  | .stored _ => 2
  | .died _ => 1
  | .done _ => 0

def SendPc.work : SendPc E → Nat
  | .encoded => 5
  | .flushing => 4
  | .waiting => 3
  | .drainFlushing => 3
  | .draining => 2
  | .lastFlushing => 1
  | .closing _ => 1
  | .done => 0

def RecvPc.work : RecvPc P E → Nat
  | .handling _ => 8
  | .rearming => 7
  | .parsing _ => 5
  | .reading _ => 4
  | .failed _ => 3
  | .closing _ => 2
  | .waiting => 1
  | .done => 0

def FinalPc.work : FinalPc → Nat
  | .waitSend => 3
  | .waitRecv => 2
  | .closing => 1
  | .done => 0

/-- A bound for the steps of the goroutines on a closed connection.  A packet
takes at least its length from the unread bytes. -/
def work (s : Sock O P E) : Nat :=
  s.closeOnce.work + (3 * s.sendReq.length + s.sendPc.work) +
    (5 * s.recvReq.length + s.reader.unread.length + s.recvPc.work) + s.finalPc.work

theorem work_torn {err : E} {pc : SendPc E} (h : s.sendPc.torn err = some pc) :
    pc.work < s.sendPc.work := by
  cases hs : s.sendPc with
  | flushing | drainFlushing | lastFlushing =>
    rw [hs] at h
    cases h
    simp [SendPc.work]
  | _ =>
    rw [hs] at h
    cases h

/-- A frame is at least its header. -/
theorem unread_packet {payload : Rpc.Bytes} {reader : FrameReader}
    (h : s.reader.parse = .packet payload reader) :
    reader.unread.length + 4 ≤ s.reader.unread.length := by
  have hspec := s.reader.parse_spec
  rw [h] at hspec
  obtain ⟨hlen, _, hunread, _⟩ := hspec
  rw [hunread, List.length_drop]
  omega

theorem unread_needRead {reader : FrameReader} (h : s.reader.parse = .needRead reader) :
    reader.unread.length = s.reader.unread.length := by
  have hspec := s.reader.parse_spec
  rw [h] at hspec
  rw [hspec.1]

/-- Every step of a goroutine on a closed connection uses up work. -/
theorem Acts.work_lt (h : Acts codec opts s e t) (he : e.Internal)
    (hclosed : s.connClosed = true) : work t < work s := by
  unfold work
  cases h with
  | send _ | recv _ | recvSkip _ | close _ => exact he.elim
  | storeReason honce | closeDie honce | closeConn honce =>
    simp only [honce, CloseOnce.work]
    omega
  | sendDie hpc _ | sendFull hpc | sendMore hpc | drainRest hpc _ | drained hpc _
  | sendReturns hpc _ =>
    simp only [hpc, SendPc.work]
    omega
  | sendTake hpc hreq | drainFull hpc hreq | drainMore hpc hreq =>
    simp only [Sock.encodeNext, hpc, hreq, SendPc.work, List.length_cons]
    omega
  | write _ hopen | read _ hopen _ =>
    rw [hclosed] at hopen
    cases hopen
  | writeFails hpc =>
    have hlt := work_torn hpc
    simp only [Sock.tear]
    omega
  | sendCloses _ hidle | recvCloses _ hidle =>
    simp only [hidle, CloseOnce.work]
    omega
  | recvTake hpc hreq =>
    simp only [hpc, hreq, RecvPc.work, List.length_cons]
    omega
  | needRead hpc hparse =>
    simp only [hpc, RecvPc.work, unread_needRead hparse]
    omega
  | undecoded hpc hparse _ | decoded hpc hparse _ =>
    have hlen := unread_packet hparse
    simp only [hpc, RecvPc.work]
    omega
  | recvDie hpc _ | badFrame hpc _ | readFails hpc | recvGivesUp hpc _
  | recvFailed hpc _ | handleFails hpc | handleAuto hpc _ | handleOnce hpc _
  | rearmSkip hpc _ | recvReturns hpc _ =>
    simp only [hpc, RecvPc.work]
    omega
  | rearm hpc hroom =>
    simp only [hpc, hroom, RecvPc.work, List.length_cons, List.length_nil]
    omega
  | sendDone hfinal _ | recvDone hfinal _ | doClose hfinal =>
    simp only [hfinal, FinalPc.work]
    omega

theorem Acts.connClosed (h : Acts codec opts s e t) (hclosed : s.connClosed = true) :
    t.connClosed = true := by
  cases h with
  | closeConn _ | doClose _ => rfl
  | _ => exact hclosed

/-- A run of the goroutines on a closed connection is no longer than the
work that there was. -/
theorem length_le_work {es : List (Event O E)} (hclosed : s.connClosed = true)
    (hes : ∀ e ∈ es, e.Internal) (hrun : run (step codec opts) s es = some t) :
    es.length + work t ≤ work s := by
  induction es generalizing s with
  | nil =>
    rw [run_nil, Option.some_inj] at hrun
    rw [hrun, List.length_nil]
    omega
  | cons e es ih =>
    rw [List.forall_mem_cons] at hes
    obtain ⟨u, hstep, hrun⟩ := Option.bind_eq_some_iff.mp hrun
    have hacts := acts_of_step hstep
    have hlt := hacts.work_lt hes.1 hclosed
    have hrest := ih (hacts.connClosed hclosed) hes.2 hrun
    rw [List.length_cons]
    omega

/-! ## No goroutine is stuck -/

/-- None of the goroutines can take a step. -/
def Stuck (codec : Codec O P E) (opts : Options) (s : Sock O P E) : Prop :=
  ∀ e : Event O E, e.Internal → step codec opts s e = none

/-- What the closed connection means for `closeOnce`. -/
def ConnInv (s : Sock O P E) : Prop :=
  s.connClosed = true → (∃ err, s.closeOnce = .done err) ∨ s.finalPc = .done

theorem ConnInv.of_acts (h : Acts codec opts s e t) (hinv : ConnInv s) : ConnInv t := by
  intro hclosed
  cases h with
  | closeConn _ => exact Or.inl ⟨_, rfl⟩
  | doClose _ => exact Or.inr rfl
  | close honce | storeReason honce | closeDie honce | sendCloses _ honce
  | recvCloses _ honce =>
    -- the function has not come to its end
    rcases hinv hclosed with ⟨err, hdone⟩ | hfinal
    · rw [honce] at hdone
      cases hdone
    · exact Or.inr hfinal
  | sendDone hpc _ | recvDone hpc _ =>
    rcases hinv hclosed with hdone | hfinal
    · exact Or.inl hdone
    · rw [hpc] at hfinal
      cases hfinal
  | _ => exact hinv hclosed

theorem ConnInv.of_reachable (hreach : Reachable (step codec opts) (newSock opts) s) :
    ConnInv s := by
  refine Reach.invariant (P := ConnInv) (fun h => by cases h) ?_ hreach
  intro s e t _ hinv _ hstep
  exact hinv.of_acts (acts_of_step hstep)

/-- A `finalize` that cannot go on behind the loops has returned. -/
theorem Stuck.finalize (h : Stuck codec opts s) (hsend : s.sendPc = .done)
    (hrecv : s.recvPc = .done) : s.finalPc = .done := by
  have hstuck := h .finalize trivial
  cases hpc : s.finalPc with
  | done => rfl
  | waitSend | waitRecv | closing => simp [step, Sock.finalize, hpc, hsend, hrecv] at hstuck

section

variable [Inhabited E] {err : Option (Reason E)}

/-- A `sendloop` that cannot go on has returned. -/
theorem Stuck.sendloop (h : Stuck codec opts s) (honce : s.closeOnce = .done err)
    (hdie : s.die = true) : s.sendPc = .done := by
  cases hpc : s.sendPc with
  | done => rfl
  | waiting =>
    have hstuck := h .sendDie trivial
    simp [step, Sock.sendDie, hpc, hdie] at hstuck
  | encoded =>
    have hstuck := h .sendCheck trivial
    simp [step, Sock.sendCheck, hpc] at hstuck
  | flushing | drainFlushing | lastFlushing =>
    have hstuck := h (.sendWrite (.failed 0 default)) trivial
    simp [step, Sock.sendWrite, SendPc.torn, hpc] at hstuck
  | closing reason =>
    have hstuck := h .sendClose trivial
    simp [step, Sock.sendClose, hpc, honce] at hstuck
  | draining =>
    have hstuck := h .drain trivial
    cases hreq : s.sendReq with
    | nil => simp [step, Sock.drain, hpc, hreq] at hstuck
    | cons o sendReq => simp [step, Sock.drain, hpc, hreq] at hstuck

/-- A `recvloop` that cannot go on has returned. -/
theorem Stuck.recvloop (h : Stuck codec opts s) (honce : s.closeOnce = .done err)
    (hdie : s.die = true) : s.recvPc = .done := by
  cases hpc : s.recvPc with
  | done => rfl
  | waiting =>
    have hstuck := h .recvDie trivial
    simp [step, Sock.recvDie, hpc, hdie] at hstuck
  | parsing deadline =>
    have hstuck := h .parse trivial
    simp only [step, Sock.parse, hpc] at hstuck
    split at hstuck
    · cases hstuck
    · cases hstuck
    · split at hstuck <;> cases hstuck
  | reading deadline =>
    have hstuck := h (.readErr false default) trivial
    simp [step, Sock.readErr, hpc] at hstuck
  | failed reason =>
    have hstuck := h .recvFailed trivial
    simp [step, Sock.recvFailed, hpc] at hstuck
  | handling packet =>
    have hstuck := h (.handle none) trivial
    simp [step, Sock.handle, hpc] at hstuck
  | rearming =>
    have hstuck := h (.rearm 0 false) trivial
    simp [step, Sock.rearm, Sock.arm, hpc, hdie] at hstuck
  | closing reason =>
    have hstuck := h .recvClose trivial
    simp [step, Sock.recvClose, hpc, honce] at hstuck

theorem Stuck.finalPc (h : Stuck codec opts s) (hinv : CloseInv s) (hconn : ConnInv s)
    (hclosed : s.connClosed = true) : s.finalPc = .done := by
  rcases hconn hclosed with ⟨err, honce⟩ | hfinal
  · have hdie := die_of_done hinv.once honce
    exact h.finalize (h.sendloop honce hdie) (h.recvloop honce hdie)
  · exact hfinal

/-- Once the connection of a socket is closed, its goroutines take at most
`work` further steps, whatever the order, and when none of them can take
another one the close callback has run. -/
theorem closed_socket_finishes (codec : Codec O P E) (opts : Options) {s t : Sock O P E}
    (hs : Reachable (step codec opts) (newSock opts) s) (hclosed : s.connClosed = true)
    {es : List (Event O E)} (hes : ∀ e ∈ es, e.Internal)
    (hrun : run (step codec opts) s es = some t) :
    es.length ≤ work s ∧ (Stuck codec opts t → ∃ reason, t.callbacks = [reason]) := by
  have hlength := length_le_work hclosed hes hrun
  refine ⟨by omega, ?_⟩
  intro hstuck
  have ht : Reachable (step codec opts) (newSock opts) t := hs.run (fun _ _ _ => trivial) hrun
  have hclosed' : t.connClosed = true := by
    refine Reach.invariant (P := fun u => u.connClosed = true) hclosed ?_ (Reach.of_run hrun)
    intro u e v _ hinv _ hstep
    exact (acts_of_step hstep).connClosed hinv
  have hinv := CloseInv.of_reachable ht
  have hdone := hstuck.finalPc hinv (ConnInv.of_reachable ht) hclosed'
  have hfinal := hinv.final
  unfold FinalInv at hfinal
  rw [hdone] at hfinal
  exact ⟨_, hfinal.2.2.2⟩

end

/-- The goroutines of a socket that a caller has closed. -/
def comingToRest : List (Event Rpc.Bytes Unit) :=
  [.sendDie, .drain, .recvDie, .finalize, .finalize, .finalize]

theorem closed_socket_finishes_hangUp :
    (run (step plainCodec {}) (newSock {}) (hangUp.take 4)).map (·.connClosed) = some true ∧
      ∀ s t, run (step plainCodec {}) (newSock {}) (hangUp.take 4) = some s →
        run (step plainCodec {}) s comingToRest = some t →
        comingToRest.length ≤ work s ∧
          (Stuck plainCodec {} t → ∃ reason, t.callbacks = [reason]) := by
  have hclosed : (run (step plainCodec {}) (newSock {}) (hangUp.take 4)).map (·.connClosed) =
      some true := by
    decide +kernel
  refine ⟨hclosed, ?_⟩
  intro s t hs ht
  rw [hs, Option.map_some, Option.some_inj] at hclosed
  refine closed_socket_finishes plainCodec {} (Reach.of_run hs) hclosed ?_ ht
  simp [comingToRest, Event.Internal]

end ClusterGo.Socket.Life
