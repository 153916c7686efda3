import ClusterGo.Socket.Transit

/-!
# The stream is correct

What the receiving end of a connection obtains is the decoding of the
frames that the sending end has encoded, in order and without a gap, and
when both loops have come to rest it is all of them.

The first part is read off the invariant of the connection.  The second
needs that nothing is left underway when no loop can go on, and that the
loops come to rest at all: every step of theirs lowers `work`.
-/

namespace ClusterGo.Socket

open BigEndian Codec Framing Rpc Transition

variable {V T P : Type} {link : Link V T P} {s t : Conn V T P}

/-! ## What has arrived -/

theorem Closed.results_eq (h : Closed link s) : s.results = link.expected s := by
  obtain ⟨before, bad, after, hsplit, hresults, hvalues, hbad⟩ := h
  show s.results = upToError (s.payloads.map link.decoded)
  rw [hsplit, List.map_append, upToError_append (List.forall_mem_map.mpr hvalues),
    List.map_cons, upToError_cons_of_not_value hbad, hresults]

/-- What is still expected is what is on its way. -/
theorem Open.expected_eq (h : Open link s) : ∃ after,
    link.expected s = s.results ++ upToError (after.map link.decoded) ∧
      (∀ p ∈ after, p ∈ s.payloads) ∧
      stream after = s.reader.unread ++ (s.wire ++ s.buf) := by
  obtain ⟨before, after, hsplit, hresults, hvalues, hbytes⟩ := h
  refine ⟨after, ?_, fun p hp => hsplit ▸ List.mem_append_right before hp, hbytes⟩
  show upToError (s.payloads.map link.decoded) = _
  rw [hsplit, List.map_append, upToError_append (List.forall_mem_map.mpr hvalues), hresults]

theorem Inv.results_prefix (hinv : Inv link s) : s.results <+: link.expected s := by
  have hreceived := hinv.recv.received
  split_ifs at hreceived
  · exact hreceived.results_eq ▸ List.prefix_refl _
  · obtain ⟨after, hexpected, _⟩ := hreceived.expected_eq
    exact ⟨_, hexpected.symm⟩

/-- Unread bytes without a whole frame are the stream of nothing, when
nothing comes behind them. -/
theorem eq_nil_of_incomplete {payloads : List Bytes} {unread : Bytes}
    (hstream : stream payloads = unread) (hincomplete : FrameReader.Incomplete unread)
    (hsmall : ∀ p ∈ payloads, p.length < 256 ^ 4) : payloads = [] := by
  cases payloads with
  | nil => rfl
  | cons payload rest =>
    have hsplit : unread ++ [] = frame payload ++ stream rest := by
      rw [← hstream, List.append_nil, stream_cons]
    have hlen : unread.length = payload.length + 4 + (stream rest).length := by
      rw [← hstream, stream_cons, List.length_append, frame_length]
    have hhead := decode_header hsplit (by omega) (hsmall payload List.mem_cons_self)
    rcases hincomplete with hshort | hpart
    · omega
    · omega

/-- A loop at rest has written everything. -/
theorem Inv.sender_at_rest (hinv : Inv link s) (hquiet : Quiescent link s)
    (hencode : ∀ o ∈ s.accepted, ∀ dst,
      link.sender.encode link.maxPacketSize dst o ≠ none) :
    s.sendReq = [] ∧ s.buf = [] := by
  have hpc : s.sendPc = .waiting := by
    cases hpc : s.sendPc with
    | waiting => rfl
    | encoded =>
      have := hquiet .check trivial
      simp [Socket.step, Conn.check, hpc] at this
    | flushing =>
      have := hquiet .write trivial
      simp [Socket.step, Conn.write, hpc] at this
  have hreq : s.sendReq = [] := by
    cases hreq : s.sendReq with
    | nil => rfl
    | cons o sendReq =>
      have hmem : o ∈ s.accepted := by
        rw [hinv.send.accounted, hreq]
        simp
      have hstuck := hquiet .encode trivial
      cases henc : link.sender.encode link.maxPacketSize s.buf o with
      | none => exact absurd henc (hencode o hmem s.buf)
      | some r => simp [Socket.step, Conn.encode, hpc, hreq, henc] at hstuck
  exact ⟨hreq, hinv.send.gather hpc hreq⟩

/-- A reader at rest has taken everything off the wire, unless it has
closed. -/
theorem Inv.receiver_at_rest (hinv : Inv link s) (hquiet : Quiescent link s) :
    s.recvPc = .closed ∨ s.recvPc = .reading ∧ s.wire = [] := by
  cases hpc : s.recvPc with
  | closed => exact Or.inl rfl
  | parsing =>
    have hstuck := hquiet .parse trivial
    simp only [Socket.step, Conn.parse, hpc] at hstuck
    cases hparse : s.reader.parse with
    | error text | needRead reader | packet payload reader =>
      rw [hparse] at hstuck
      cases hstuck
  | reading =>
    refine Or.inr ⟨rfl, ?_⟩
    by_contra hwire
    have hroom := (hinv.recv.reading hpc).2
    obtain ⟨reader, hread⟩ := Option.isSome_iff_exists.mp
      (FrameReader.read_one hroom hwire)
    have hstuck := hquiet (.read 1) trivial
    simp [Socket.step, Conn.read, hpc, hread] at hstuck

theorem Inv.results_complete (hlink : link.Sound) (hinv : Inv link s)
    (hquiet : Quiescent link s)
    (hencode : ∀ o ∈ s.accepted, ∀ dst,
      link.sender.encode link.maxPacketSize dst o ≠ none) :
    s.results = link.expected s := by
  have hreceived := hinv.recv.received
  rcases hinv.receiver_at_rest hquiet with hclosed | ⟨hreading, hwire⟩
  · rw [if_pos hclosed] at hreceived
    exact hreceived.results_eq
  · rw [if_neg (by rw [hreading]; decide)] at hreceived
    obtain ⟨after, hexpected, hmem, hbytes⟩ := hreceived.expected_eq
    rw [hwire, (hinv.sender_at_rest hquiet hencode).2, List.append_nil, List.append_nil]
      at hbytes
    obtain rfl := eq_nil_of_incomplete hbytes (hinv.recv.reading hreading).1
      fun p hp => (hinv.send.fits (hmem p hp)).length_lt hlink
    rw [hexpected]
    exact (List.append_nil _).symm

/-! ## The loops come to rest -/

/-- The work of `sendloop` that is left without new objects. -/
def sendWork (s : Conn V T P) : Nat :=
  3 * s.sendReq.length +
    match s.sendPc with
    | .waiting => 0
    | .flushing => 1
    | .encoded => 2

/-- What the steps of the loops use up, the work of `sendloop` first. -/
def work (s : Conn V T P) : Nat × Nat × Nat × Nat :=
  (sendWork s, s.wire.length, s.reader.unread.length, if s.recvPc = .parsing then 1 else 0)

/-- One component goes down and the ones before it stay. -/
def WorkLt (x y : Nat × Nat × Nat × Nat) : Prop :=
  Prod.Lex (· < ·) (Prod.Lex (· < ·) (Prod.Lex (· < ·) (· < ·))) x y

theorem workLt_wf : WellFounded WorkLt :=
  (Prod.lex Nat.lt_wfRel (Prod.lex Nat.lt_wfRel (Prod.lex Nat.lt_wfRel Nat.lt_wfRel))).wf

theorem workLt_of_sendWork (h : sendWork t < sendWork s) : WorkLt (work t) (work s) :=
  Prod.Lex.left _ _ h

/-- A step of `recvloop` leaves the work of `sendloop` alone. -/
theorem workLt_of_recv (hsend : sendWork t = sendWork s)
    (h : t.wire.length < s.wire.length ∨ t.wire = s.wire ∧
      (t.reader.unread.length < s.reader.unread.length ∨
        t.reader.unread = s.reader.unread ∧ s.recvPc = .parsing ∧ t.recvPc ≠ .parsing)) :
    WorkLt (work t) (work s) := by
  rw [WorkLt, work, work, hsend]
  refine Prod.Lex.right _ ?_
  rcases h with hwire | ⟨hwire, hunread | ⟨hunread, hs, ht⟩⟩
  · exact Prod.Lex.left _ _ hwire
  · rw [hwire]
    exact Prod.Lex.right _ (Prod.Lex.left _ _ hunread)
  · rw [hwire, hunread, if_pos hs, if_neg ht]
    exact Prod.Lex.right _ (Prod.Lex.right _ Nat.zero_lt_one)

/-- Every step of a loop uses up work. -/
theorem workLt_of_step {e : Event V P} (he : e.Internal) (h : step link s e = some t) :
    WorkLt (work t) (work s) := by
  cases e with
  | send o => exact he.elim
  | encode =>
    apply workLt_of_sendWork
    simp only [step, Conn.encode] at h
    split at h
    · rename_i o sendReq hpc hreq
      cases henc : link.sender.encode link.maxPacketSize s.buf o with
      | none =>
        rw [henc] at h
        cases h
      | some r =>
        rw [henc] at h
        cases h
        simp only [sendWork, hpc, hreq, List.length_cons]
        omega
    · cases h
  | check =>
    apply workLt_of_sendWork
    simp only [step, Conn.check] at h
    split at h
    · rename_i hpc
      cases h
      simp only [sendWork, hpc]
      split_ifs <;> simp only <;> omega
    · cases h
  | write =>
    apply workLt_of_sendWork
    simp only [step, Conn.write] at h
    split at h
    · rename_i hpc
      cases h
      simp only [sendWork, hpc]
      omega
    · cases h
  | parse =>
    simp only [step, Conn.parse] at h
    split at h
    · rename_i hpc
      have hspec := s.reader.parse_spec
      cases hparse : s.reader.parse with
      | error text =>
        rw [hparse] at h
        cases h
        exact workLt_of_recv rfl (Or.inr ⟨rfl, Or.inr ⟨rfl, hpc, RecvPc.noConfusion⟩⟩)
      | needRead reader =>
        rw [hparse] at h hspec
        cases h
        exact workLt_of_recv rfl (Or.inr ⟨rfl, Or.inr ⟨hspec.1, hpc, RecvPc.noConfusion⟩⟩)
      | packet payload reader =>
        rw [hparse] at h hspec
        cases h
        obtain ⟨hwhole, _, hunread, _⟩ := hspec
        refine workLt_of_recv rfl (Or.inr ⟨rfl, Or.inl ?_⟩)
        show reader.unread.length < s.reader.unread.length
        rw [hunread, List.length_drop]
        omega
    · cases h
  | read k =>
    simp only [step, Conn.read] at h
    split at h
    · cases hread : s.reader.read k s.wire with
      | none =>
        rw [hread] at h
        cases h
      | some reader =>
        rw [hread] at h
        cases h
        obtain ⟨hone, hk, _⟩ := FrameReader.read_eq_some hread
        refine workLt_of_recv rfl (Or.inl ?_)
        show (s.wire.drop k).length < s.wire.length
        rw [List.length_drop]
        omega
    · cases h

/-! ## The whole connection -/

/-- What holds of a connection at every moment. -/
structure Correct (link : Link V T P) (s : Conn V T P) : Prop where
  total_eq : s.total = s.buf.length
  gather_empty : s.sendPc = .waiting → s.sendReq = [] → s.buf = []
  in_order : s.accepted = s.entries.map (·.obj) ++ s.sendReq
  entry_eq : ∀ e ∈ s.entries, ∃ dst,
    link.sender.encode link.maxPacketSize dst e.obj = some (dst ++ e.bytes, e.n)
  no_failure : s.failed = none
  results_prefix : s.results <+: link.expected s
  complete : Quiescent link s →
    (∀ o ∈ s.accepted, ∀ dst, link.sender.encode link.maxPacketSize dst o ≠ none) →
      s.sendReq = [] ∧ s.results = link.expected s

/-- In every run in which relayed payloads fit into a frame, the receiver
has at every moment obtained a first part of what the frames of the sent
objects decode to, in order.  The gather buffer is empty whenever the sender
waits on an empty queue.  Without new objects the loops come to rest, and
then everything has arrived, unless `Encode` panics. -/
theorem stream_correct (link : Link V T P) (hlink : link.Sound) :
    (∀ s, ReachableConn link s → Correct link s) ∧
      WellFounded fun t s : Conn V T P =>
        ∃ e : Event V P, e.Internal ∧ step link s e = some t := by
  constructor
  · intro s hs
    have hinv := hs.inv hlink
    refine ⟨hinv.send.total_eq, hinv.send.gather, hinv.send.accounted,
      fun e he => (hinv.send.entries e he).1, hinv.recv.failed, hinv.results_prefix, ?_⟩
    intro hquiet hencode
    exact ⟨(hinv.sender_at_rest hquiet hencode).1, hinv.results_complete hlink hquiet hencode⟩
  · refine Subrelation.wf ?_ (InvImage.wf work workLt_wf)
    intro t s hstep
    rcases hstep with ⟨e, he, hstep⟩
    exact workLt_of_step he hstep

/-! ## A request and an empty relay message -/

/-- The connection from `1.1.1` to `1.1.2` with the default sizes. -/
def testLink : Link Bytes Empty Empty where
  sender := quoteSSCodec (.ofFields 1 1 1)
  receiver := quoteSSCodec (.ofFields 1 1 2)
  maxPacketSize := 4096
  batchSendSize := 65535
  sendChanSize := 256

theorem testLink_sound : testLink.Sound where
  rpcCodec := quoteCodec_appends
  lib := fun _ m => m.elim
  maxPacketSize := by decide

/-- One object is sent and arrives in reads of the given sizes. -/
def oneObject (o : Obj Bytes Empty) (sizes : List Nat) : List (Event Bytes Empty) :=
  [.send o, .encode, .check, .write, .parse] ++ sizes.flatMap fun k => [.read k, .parse]

/-- The request of the tests in two reads. -/
theorem stream_correct_hello :
    testLink.Sound ∧ ∃ s, ReachableConn testLink s ∧ s.results.length = 1 ∧
      Correct testLink s := by
  refine ⟨testLink_sound, ?_⟩
  obtain ⟨s, hrun, hresults⟩ : ∃ s, run (step testLink) testLink.start
      (oneObject (.message helloMessage) [3, 43]) = some s ∧ s.results.length = 1 := by
    have hlength : (run (step testLink) testLink.start
        (oneObject (.message helloMessage) [3, 43])).map (·.results.length) = some 1 := by
      decide +kernel
    exact Option.map_eq_some_iff.mp hlength
  have hreach : ReachableConn testLink s := by
    refine Reach.run .start ?_ hrun
    intro e he _
    cases e with
    | send o =>
      have ho : o = .message helloMessage := by simpa [oneObject] using he
      rw [ho]
      trivial
    | encode | check | write | parse | read k => trivial
  exact ⟨s, hreach, hresults, (stream_correct testLink testLink_sound).1 s hreach⟩

/-- A relay message around no bytes. -/
def emptyRelay : Obj Bytes Empty :=
  .relay (newRelayMessage (.ofFields 1 1 2) (.ofFields 1 1 1) [])

/-- An empty relay message is sent as a frame of four bytes.  The receiver
refuses it and closes, and no result of `Decode` is obtained. -/
theorem empty_relay_refused :
    ∃ s, run (step testLink) testLink.start (oneObject emptyRelay [4]) = some s ∧
      s.entries.map (·.n) = [4] ∧ (testLink.expected s).length = 1 ∧
      s.failed = some "zero payload" ∧ s.results.length = 0 ∧ Quiescent testLink s := by
  have hsent : (run (step testLink) testLink.start (oneObject emptyRelay [4])).map
      (fun s => (s.entries.map (·.n), s.sendPc, s.sendReq.length)) =
        some ([4], .waiting, 0) := by
    decide +kernel
  have hreceived : (run (step testLink) testLink.start (oneObject emptyRelay [4])).map
      (fun s => ((testLink.expected s).length, s.failed, s.results.length, s.recvPc)) =
        some (1, some "zero payload", 0, .closed) := by
    decide +kernel
  obtain ⟨s, hs, hfacts⟩ := Option.map_eq_some_iff.mp hsent
  rw [hs, Option.map_some, Option.some_inj] at hreceived
  simp only [Prod.mk.injEq] at hfacts hreceived
  obtain ⟨hn, hsend, hreq⟩ := hfacts
  obtain ⟨hexpected, hfailed, hresults, hrecv⟩ := hreceived
  refine ⟨s, hs, hn, hexpected, hfailed, hresults, ?_⟩
  have hempty : s.sendReq = [] := List.length_eq_zero_iff.mp hreq
  intro e he
  cases e with
  | send o => exact he.elim
  | encode => simp [step, Conn.encode, hsend, hempty]
  | check => simp [step, Conn.check, hsend]
  | write => simp [step, Conn.write, hsend]
  | parse => simp [step, Conn.parse, hrecv]
  | read k => simp [step, Conn.read, hrecv]

end ClusterGo.Socket
