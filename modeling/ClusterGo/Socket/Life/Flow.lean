import ClusterGo.Socket.Life.Effect

/-!
# What flows through a socket

Two invariants of a socket, whatever its callers do and wherever it fails.

* With `AutoRecv`, a socket that was armed once stays armed: as long as it
  is not closed, `recvloop` is busy with a packet or finds a request
  (`armed_socket_listens`).
* The bytes on the wire are a beginning of the encodings of the accepted
  objects, in the order in which they were accepted
  (`wire_prefix_of_accepted`).  A failed write or a close may cut the
  stream, in the middle of a frame too, but nothing is written behind the
  cut.  `Encode` is assumed to append to the slice that it is given.
-/

namespace ClusterGo.Socket.Life

open Transition

variable {O P E : Type} {codec : Codec O P E} {opts : Options} {s t : Sock O P E}
  {e : Event O E}

/-! ## Receiving -/

/-- A `recvloop` at its `select` finds a request, unless the socket is
closed. -/
def Armed (s : Sock O P E) : Prop :=
  s.recvPc = .waiting → s.die = false → s.recvReq ≠ []

theorem Armed.of_acts (hauto : opts.autoRecv = true) (h : Acts codec opts s e t)
    (harmed : Armed s) : Armed t := by
  intro hwaiting hdie
  cases h with
  | recv _ => exact List.cons_ne_nil _ _
  | closeDie _ => cases hdie
  | recvTake _ _ | badFrame _ _ | needRead _ _ | undecoded _ _ _ | decoded _ _ _ | read _ _ _
  | readFails _ | recvDie _ _ | recvGivesUp _ _ | recvFailed _ _
  | handleFails _ | handleAuto _ _ | recvReturns _ _ => cases hwaiting
  | handleOnce _ hone =>
    rw [hauto] at hone
    cases hone
  | rearm _ _ => exact List.cons_ne_nil _ _
  | rearmSkip _ hskip =>
    rcases hskip with hdead | hfull
    · rw [hdie] at hdead
      cases hdead
    · exact hfull
  | _ => exact harmed hwaiting hdie

/-- A call of `Recv` arms the socket. -/
theorem armed_of_recv {push : Bool} (h : Acts codec opts s (.recv push) t) : Armed t := by
  intro _ hdie
  cases h with
  | recv _ => exact List.cons_ne_nil _ _
  | recvSkip hskip =>
    rcases hskip with hdead | hfull
    · rw [hdie] at hdead
      cases hdead
    · exact hfull

/-- A socket with `AutoRecv` keeps on receiving: in every run in which
`Recv` was called, as long as the socket is not closed, `recvloop` is not at
its `select` without a request. -/
theorem armed_socket_listens (codec : Codec O P E) {opts : Options}
    (hauto : opts.autoRecv = true) {es : List (Event O E)} {push : Bool}
    (hrecv : Event.recv push ∈ es) {t : Sock O P E}
    (hrun : run (step codec opts) (newSock opts) es = some t) : Armed t := by
  obtain ⟨before, after, rfl⟩ := List.append_of_mem hrecv
  obtain ⟨s, _, hrun⟩ := exists_run_of_append hrun
  obtain ⟨u, hstep, hrun⟩ := Option.bind_eq_some_iff.mp hrun
  refine Reach.invariant (P := Armed) (armed_of_recv (acts_of_step hstep)) ?_ (Reach.of_run hrun)
  intro v e w _ hinv _ hstep
  exact hinv.of_acts hauto (acts_of_step hstep)

/-- A packet comes in and is handled, and the receive is armed again. -/
def onePacket : List (Event Rpc.Bytes Unit) :=
  [.recv true, .recvTake, .parse, .read [0, 0, 0, 1, 7], .parse, .handle none, .rearm 0 true]

theorem armed_socket_listens_packet :
    (run (step plainCodec { autoRecv := true }) (newSock { autoRecv := true }) onePacket).map
        (·.handled) = some [[7]] ∧
      ∀ t, run (step plainCodec { autoRecv := true }) (newSock { autoRecv := true }) onePacket =
        some t → Armed t :=
  ⟨by decide +kernel,
    fun _ hrun => armed_socket_listens plainCodec rfl List.mem_cons_self hrun⟩

/-! ## Sending -/

/-- `Encode` appends to the slice that it is given. -/
def Codec.Appends (codec : Codec O P E) : Prop := ∀ dst o, dst <+: (codec.encode dst o).1

/-- The object that a caller pushes. -/
def Event.sent : Event O E → Option O
  | .send o => some o
  | _ => none

/-- The objects that were accepted: those that are encoded, and the queue. -/
def Sock.accepted (s : Sock O P E) : List O := s.entries.map (·.1) ++ s.sendReq

/-- The encodings so far. -/
def Sock.stream (s : Sock O P E) : Rpc.Bytes := (s.entries.map (·.2)).flatten

/-- `sendloop` may still write. -/
def SendPc.Intact : SendPc E → Prop
  | .closing _ | .done => False
  | _ => True

/-- What is written and what is gathered is what was encoded.  When a write
has failed, at least nothing else is on the wire. -/
structure WireInv (codec : Codec O P E) (s : Sock O P E) : Prop where
  entry : ∀ x ∈ s.entries, ∃ dst, (codec.encode dst x.1).1 = dst ++ x.2
  wire : s.wire <+: s.stream
  intact : s.sendPc.Intact → s.wire ++ s.buf = s.stream

theorem accepted_encodeNext {o : O} {sendReq : List O} (hreq : s.sendReq = o :: sendReq)
    (pc : SendPc E) : (s.encodeNext codec o sendReq pc).accepted = s.accepted := by
  simp only [Sock.accepted, Sock.encodeNext, hreq, List.map_append, List.map_cons, List.map_nil,
    List.append_assoc, List.cons_append, List.nil_append]

theorem WireInv.encodeNext (hcodec : codec.Appends) (hinv : WireInv codec s)
    (hpc : s.sendPc.Intact) (o : O) (sendReq : List O) (pc : SendPc E) :
    WireInv codec (s.encodeNext codec o sendReq pc) := by
  obtain ⟨b, hb⟩ := hcodec s.buf o
  have hdrop : (codec.encode s.buf o).1.drop s.buf.length = b := by
    rw [← hb, List.drop_left]
  have hstream : (s.encodeNext codec o sendReq pc).stream = s.stream ++ b := by
    simp only [Sock.stream, Sock.encodeNext, hdrop, List.map_append, List.map_cons,
      List.map_nil, List.flatten_append, List.flatten_cons, List.flatten_nil, List.append_nil]
  refine ⟨?_, ?_, ?_⟩
  · intro x hx
    rcases List.mem_append.mp hx with hold | hnew
    · exact hinv.entry x hold
    · rw [List.mem_singleton.mp hnew, hdrop]
      exact ⟨s.buf, hb.symm⟩
  · rw [hstream]
    exact hinv.wire.trans (List.prefix_append _ _)
  · intro _
    show s.wire ++ (codec.encode s.buf o).1 = _
    rw [hstream, ← hb, ← List.append_assoc, hinv.intact hpc]

theorem intact_of_written {pc : SendPc E} (h : s.sendPc.written = some pc) :
    s.sendPc.Intact := by
  cases hs : s.sendPc with
  | closing err | done =>
    rw [hs] at h
    cases h
  | _ => trivial

theorem torn_cases {pc : SendPc E} {err : E} (h : s.sendPc.torn err = some pc) :
    s.sendPc.Intact ∧ ¬ pc.Intact := by
  cases hs : s.sendPc with
  | flushing | drainFlushing | lastFlushing =>
    rw [hs] at h
    cases h
    exact ⟨trivial, id⟩
  | _ =>
    rw [hs] at h
    cases h

theorem WireInv.of_acts (hcodec : codec.Appends) (h : Acts codec opts s e t)
    (hinv : WireInv codec s) : WireInv codec t := by
  cases h with
  | sendTake hpc _ => exact hinv.encodeNext hcodec (by rw [hpc]; trivial) _ _ _
  | drainFull hpc _ | drainMore hpc _ =>
    exact hinv.encodeNext hcodec (by rw [hpc]; trivial) _ _ _
  | write hpc _ =>
    have hall := hinv.intact (intact_of_written hpc)
    refine ⟨hinv.entry, ?_, ?_⟩
    · show s.wire ++ s.buf <+: s.stream
      exact hall ▸ List.prefix_refl _
    · intro _
      show s.wire ++ s.buf ++ [] = s.stream
      rw [List.append_nil, hall]
  | writeFails hpc =>
    obtain ⟨hbefore, hafter⟩ := torn_cases hpc
    refine ⟨hinv.entry, ?_, fun hintact => absurd hintact hafter⟩
    show s.wire ++ s.buf.take _ <+: s.stream
    rw [← hinv.intact hbefore]
    exact List.prefix_append_right_inj _ |>.mpr (List.take_prefix _ _)
  | sendDie hpc _ | sendFull hpc | sendMore hpc | drainRest hpc _ =>
    exact ⟨hinv.entry, hinv.wire, fun _ => hinv.intact (by rw [hpc]; trivial)⟩
  | drained _ _ | sendReturns _ _ =>
    exact ⟨hinv.entry, hinv.wire, fun hintact => hintact.elim⟩
  | _ => exact ⟨hinv.entry, hinv.wire, hinv.intact⟩

/-- An action accepts the object that it pushes and no other. -/
theorem Acts.accepted (h : Acts codec opts s e t) :
    t.accepted = s.accepted ++ e.sent.toList := by
  cases h with
  | send _ => exact (List.append_assoc _ _ _).symm
  | sendTake _ hreq | drainFull _ hreq | drainMore _ hreq =>
    rw [accepted_encodeNext hreq]
    exact (List.append_nil _).symm
  | _ => exact (List.append_nil _).symm

theorem accepted_of_run {es : List (Event O E)} (hrun : run (step codec opts) s es = some t) :
    t.accepted = s.accepted ++ es.filterMap Event.sent := by
  induction es generalizing s with
  | nil =>
    rw [run_nil, Option.some_inj] at hrun
    rw [hrun, List.filterMap_nil, List.append_nil]
  | cons e es ih =>
    obtain ⟨u, hstep, hrun⟩ := Option.bind_eq_some_iff.mp hrun
    rw [ih hrun, (acts_of_step hstep).accepted, List.append_assoc, List.filterMap_cons]
    cases e.sent <;> rfl

theorem wireInv_of_run (hcodec : codec.Appends) {es : List (Event O E)}
    (hrun : run (step codec opts) (newSock opts) es = some t) : WireInv codec t := by
  refine Reach.invariant ⟨fun x hx => absurd hx List.not_mem_nil, List.prefix_refl _,
    fun _ => rfl⟩ ?_ (Reach.of_run hrun)
  intro s e t _ hinv _ hstep
  exact hinv.of_acts hcodec (acts_of_step hstep)

/-- In every run of a socket, wherever a write fails and whenever the socket
is closed, `sendloop` encodes the objects in the order in which they were
accepted, and the bytes on the wire are a beginning of these encodings. -/
theorem wire_prefix_of_accepted {codec : Codec O P E} (hcodec : codec.Appends)
    {opts : Options} {es : List (Event O E)} {t : Sock O P E}
    (hrun : run (step codec opts) (newSock opts) es = some t) :
    t.entries.map (·.1) <+: es.filterMap Event.sent ∧
      (∀ x ∈ t.entries, ∃ dst, (codec.encode dst x.1).1 = dst ++ x.2) ∧
      t.wire <+: (t.entries.map (·.2)).flatten := by
  have hinv := wireInv_of_run hcodec hrun
  have haccepted := accepted_of_run hrun
  exact ⟨⟨t.sendReq, haccepted⟩, hinv.entry, hinv.wire⟩

theorem plainCodec_appends : plainCodec.Appends := fun dst o => List.prefix_append dst o

/-- The second object gets cut, and the third is never encoded. -/
def brokenWrite : List (Event Rpc.Bytes Unit) :=
  [.send [1, 2], .sendTake, .sendCheck, .sendWrite .all, .send [3, 4], .sendTake, .sendCheck,
    .send [5], .sendWrite (.failed 1 ()), .sendClose, .once]

theorem wire_prefix_of_accepted_broken :
    (run (step plainCodec { sendChanSize := 4 }) (newSock { sendChanSize := 4 })
        brokenWrite).map (·.wire) = some [1, 2, 3] ∧
      ∀ t, run (step plainCodec { sendChanSize := 4 }) (newSock { sendChanSize := 4 })
          brokenWrite = some t → t.wire <+: (t.entries.map (·.2)).flatten :=
  ⟨by decide +kernel, fun _ hrun => (wire_prefix_of_accepted plainCodec_appends hrun).2.2⟩

end ClusterGo.Socket.Life
