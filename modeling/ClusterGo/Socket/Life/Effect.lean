import ClusterGo.Socket.Life.Basic

/-!
# What a step of a socket can do

`Acts` lists the actions of `step` with what each of them found.  Every
invariant of a socket is proved by cases over it.
-/

namespace ClusterGo.Socket.Life

open Peer Rpc

variable {O P E : Type} {codec : Codec O P E} {opts : Options} {s t : Sock O P E}
  {e : Event O E}

/-- The actions of a socket. -/
inductive Acts (codec : Codec O P E) (opts : Options) (s : Sock O P E) :
    Event O E → Sock O P E → Prop where
  -- the callers
  | send {o : O} (hroom : s.sendReq.length < opts.withDefaults.sendChanSize) :
      Acts codec opts s (.send o) { s with sendReq := s.sendReq ++ [o] }
  | recv (hroom : s.recvReq = []) : Acts codec opts s (.recv true) { s with recvReq := [0] }
  | recvSkip (hskip : s.die = true ∨ s.recvReq ≠ []) : Acts codec opts s (.recv false) s
  | close {err : Option (Reason E)} (hidle : s.closeOnce = .idle) :
      Acts codec opts s (.close err) { s with closeOnce := .entered err }
  -- the function in `closeOnce`
  | storeReason {err : Option (Reason E)} (honce : s.closeOnce = .entered err) :
      Acts codec opts s .once { s with closeOnce := .stored err, closeReason := err }
  | closeDie {err : Option (Reason E)} (honce : s.closeOnce = .stored err) :
      Acts codec opts s .once { s with closeOnce := .died err, die := true }
  | closeConn {err : Option (Reason E)} (honce : s.closeOnce = .died err) :
      Acts codec opts s .once { s with closeOnce := .done err, connClosed := true }
  -- `sendloop`
  | sendDie (hpc : s.sendPc = .waiting) (hdie : s.die = true) :
      Acts codec opts s .sendDie { s with sendPc := .draining }
  | sendTake {o : O} {sendReq : List O} (hpc : s.sendPc = .waiting)
      (hreq : s.sendReq = o :: sendReq) :
      Acts codec opts s .sendTake (s.encodeNext codec o sendReq .encoded)
  | sendFull (hpc : s.sendPc = .encoded) :
      Acts codec opts s .sendCheck { s with sendPc := .flushing }
  | sendMore (hpc : s.sendPc = .encoded) :
      Acts codec opts s .sendCheck { s with sendPc := .waiting }
  | write {pc : SendPc E} (hpc : s.sendPc.written = some pc) (hopen : s.connClosed = false) :
      Acts codec opts s (.sendWrite .all) (s.flush pc)
  | writeFails {pc : SendPc E} {k : Nat} {err : E} (hpc : s.sendPc.torn err = some pc) :
      Acts codec opts s (.sendWrite (.failed k err))
        (s.tear (if s.connClosed then 0 else k) pc)
  | drainFull {o : O} {sendReq : List O} (hpc : s.sendPc = .draining)
      (hreq : s.sendReq = o :: sendReq) :
      Acts codec opts s .drain (s.encodeNext codec o sendReq .drainFlushing)
  | drainMore {o : O} {sendReq : List O} (hpc : s.sendPc = .draining)
      (hreq : s.sendReq = o :: sendReq) :
      Acts codec opts s .drain (s.encodeNext codec o sendReq .draining)
  | drainRest (hpc : s.sendPc = .draining) (hreq : s.sendReq = []) :
      Acts codec opts s .drain { s with sendPc := .lastFlushing }
  | drained (hpc : s.sendPc = .draining) (hreq : s.sendReq = []) :
      Acts codec opts s .drain { s with sendPc := .done }
  | sendCloses {err : Reason E} (hpc : s.sendPc = .closing err) (hidle : s.closeOnce = .idle) :
      Acts codec opts s .sendClose { s with closeOnce := .entered (some err) }
  | sendReturns {err : Reason E} {first : Option (Reason E)} (hpc : s.sendPc = .closing err)
      (honce : s.closeOnce = .done first) :
      Acts codec opts s .sendClose { s with sendPc := .done }
  -- `recvloop`
  | recvDie (hpc : s.recvPc = .waiting) (hdie : s.die = true) :
      Acts codec opts s .recvDie { s with recvPc := .done }
  | recvTake {deadline : Time} {recvReq : List Time} (hpc : s.recvPc = .waiting)
      (hreq : s.recvReq = deadline :: recvReq) :
      Acts codec opts s .recvTake { s with recvReq, recvPc := .parsing deadline }
  | badFrame {deadline : Time} {text : String} (hpc : s.recvPc = .parsing deadline)
      (hparse : s.reader.parse = .error text) :
      Acts codec opts s .parse { s with recvPc := .failed (.frame text) }
  | needRead {deadline : Time} {reader : FrameReader} (hpc : s.recvPc = .parsing deadline)
      (hparse : s.reader.parse = .needRead reader) :
      Acts codec opts s .parse { s with reader, recvPc := .reading deadline }
  | undecoded {deadline : Time} {payload : Bytes} {reader : FrameReader} {err : E}
      (hpc : s.recvPc = .parsing deadline) (hparse : s.reader.parse = .packet payload reader)
      (hdecode : codec.decode payload = .error err) :
      Acts codec opts s .parse { s with reader, recvPc := .closing (.other err) }
  | decoded {deadline : Time} {payload : Bytes} {reader : FrameReader} {packet : P}
      (hpc : s.recvPc = .parsing deadline) (hparse : s.reader.parse = .packet payload reader)
      (hdecode : codec.decode payload = .ok packet) :
      Acts codec opts s .parse { s with reader, recvPc := .handling packet }
  | read {deadline : Time} {chunk : Bytes} {reader : FrameReader}
      (hpc : s.recvPc = .reading deadline) (hopen : s.connClosed = false)
      (hread : s.reader.read chunk.length chunk = some reader) :
      Acts codec opts s (.read chunk) { s with reader, recvPc := .parsing deadline }
  | readFails {deadline : Time} {timeout : Bool} {err : E} (hpc : s.recvPc = .reading deadline) :
      Acts codec opts s (.readErr timeout err)
        { s with recvPc := .failed (if timeout then .recvTimeout else .other err) }
  | recvGivesUp {err : Reason E} (hpc : s.recvPc = .failed err) (hdie : s.die = true) :
      Acts codec opts s .recvFailed { s with recvPc := .done }
  | recvFailed {err : Reason E} (hpc : s.recvPc = .failed err) (hdie : s.die = false) :
      Acts codec opts s .recvFailed { s with recvPc := .closing err }
  | handleFails {packet : P} {err : E} (hpc : s.recvPc = .handling packet) :
      Acts codec opts s (.handle (some err))
        { s with handled := s.handled ++ [packet], recvPc := .closing (.other err) }
  | handleAuto {packet : P} (hpc : s.recvPc = .handling packet) (hauto : opts.autoRecv = true) :
      Acts codec opts s (.handle none)
        { s with handled := s.handled ++ [packet], recvPc := .rearming }
  | handleOnce {packet : P} (hpc : s.recvPc = .handling packet) (hauto : opts.autoRecv = false) :
      Acts codec opts s (.handle none)
        { s with handled := s.handled ++ [packet], recvPc := .waiting }
  | rearm {now dl : Time} (hpc : s.recvPc = .rearming) (hroom : s.recvReq = []) :
      Acts codec opts s (.rearm now true) { s with recvReq := [dl], recvPc := .waiting }
  | rearmSkip {now : Time} (hpc : s.recvPc = .rearming)
      (hskip : s.die = true ∨ s.recvReq ≠ []) :
      Acts codec opts s (.rearm now false) { s with recvPc := .waiting }
  | recvCloses {err : Reason E} (hpc : s.recvPc = .closing err) (hidle : s.closeOnce = .idle) :
      Acts codec opts s .recvClose { s with closeOnce := .entered (some err) }
  | recvReturns {err : Reason E} {first : Option (Reason E)} (hpc : s.recvPc = .closing err)
      (honce : s.closeOnce = .done first) :
      Acts codec opts s .recvClose { s with recvPc := .done }
  -- `finalize`
  | sendDone (hfinal : s.finalPc = .waitSend) (hpc : s.sendPc = .done) :
      Acts codec opts s .finalize { s with finalPc := .waitRecv }
  | recvDone (hfinal : s.finalPc = .waitRecv) (hpc : s.recvPc = .done) :
      Acts codec opts s .finalize { s with finalPc := .closing }
  | doClose (hfinal : s.finalPc = .closing) :
      Acts codec opts s .finalize
        { s with
          finalPc := .done, connClosed := true
          callbacks := s.callbacks ++ [s.closeReason] }

/-- The two ways through the `select` that arms a receive. -/
theorem arm_cases {deadline : Time} {push : Bool} (h : s.arm deadline push = some t) :
    push = true ∧ s.recvReq = [] ∧ t = { s with recvReq := [deadline] } ∨
      push = false ∧ (s.die = true ∨ s.recvReq ≠ []) ∧ t = s := by
  unfold Sock.arm at h
  cases push with
  | true =>
    rw [if_pos rfl] at h
    obtain ⟨hroom, h⟩ := Option.ite_none_right_eq_some.mp h
    have hnil : s.recvReq = [] := List.eq_nil_of_length_eq_zero (by omega)
    rw [hnil] at h
    exact Or.inl ⟨rfl, hnil, (Option.some.inj h).symm⟩
  | false =>
    rw [if_neg Bool.false_ne_true] at h
    obtain ⟨hskip, h⟩ := Option.ite_none_right_eq_some.mp h
    refine Or.inr ⟨rfl, ?_, (Option.some.inj h).symm⟩
    rcases hskip with hdie | hfull
    · exact Or.inl hdie
    · exact Or.inr (List.ne_nil_of_length_pos hfull)

/-- Every step is one of the actions. -/
theorem acts_of_step (h : step codec opts s e = some t) : Acts codec opts s e t := by
  cases e with
  | send o =>
    obtain ⟨hroom, h⟩ := Option.ite_none_right_eq_some.mp h
    cases h
    exact .send hroom
  | recv push =>
    rcases arm_cases h with ⟨rfl, hroom, rfl⟩ | ⟨rfl, hskip, rfl⟩
    · exact .recv hroom
    · exact .recvSkip hskip
  | close err =>
    simp only [step, Sock.close] at h
    split at h
    · cases h
      exact .close ‹_›
    · cases h
  | once =>
    simp only [step, Sock.once] at h
    split at h
    · cases h
      exact .storeReason ‹_›
    · cases h
      exact .closeDie ‹_›
    · cases h
      exact .closeConn ‹_›
    · cases h
  | sendDie =>
    simp only [step, Sock.sendDie] at h
    split at h
    · obtain ⟨hdie, h⟩ := Option.ite_none_right_eq_some.mp h
      cases h
      exact .sendDie ‹_› hdie
    · cases h
  | sendTake =>
    simp only [step, Sock.sendTake] at h
    split at h
    · cases h
      exact .sendTake ‹_› ‹_›
    · cases h
  | sendCheck =>
    simp only [step, Sock.sendCheck] at h
    split at h
    · split_ifs at h
      · cases h
        exact .sendFull ‹_›
      · cases h
        exact .sendMore ‹_›
    · cases h
  | sendWrite res =>
    cases res with
    | all =>
      simp only [step, Sock.sendWrite] at h
      split_ifs at h with hclosed
      obtain ⟨pc, hpc, rfl⟩ := Option.map_eq_some_iff.mp h
      exact .write hpc (Bool.not_eq_true _ ▸ hclosed)
    | failed k err =>
      obtain ⟨pc, hpc, rfl⟩ := Option.map_eq_some_iff.mp h
      exact .writeFails hpc
  | drain =>
    simp only [step, Sock.drain] at h
    split at h
    · cases h
      split_ifs
      · exact .drainFull ‹_› ‹_›
      · exact .drainMore ‹_› ‹_›
    · cases h
      split_ifs
      · exact .drainRest ‹_› ‹_›
      · exact .drained ‹_› ‹_›
    · cases h
  | sendClose =>
    simp only [step, Sock.sendClose] at h
    split at h
    · cases h
      exact .sendCloses ‹_› ‹_›
    · cases h
      exact .sendReturns ‹_› ‹_›
    · cases h
  | recvDie =>
    simp only [step, Sock.recvDie] at h
    split at h
    · obtain ⟨hdie, h⟩ := Option.ite_none_right_eq_some.mp h
      cases h
      exact .recvDie ‹_› hdie
    · cases h
  | recvTake =>
    simp only [step, Sock.recvTake] at h
    split at h
    · cases h
      exact .recvTake ‹_› ‹_›
    · cases h
  | parse =>
    simp only [step, Sock.parse] at h
    split at h
    · split at h
      · cases h
        exact .badFrame ‹_› ‹_›
      · cases h
        exact .needRead ‹_› ‹_›
      · split at h
        · cases h
          exact .undecoded ‹_› ‹_› ‹_›
        · cases h
          exact .decoded ‹_› ‹_› ‹_›
    · cases h
  | read chunk =>
    simp only [step, Sock.read] at h
    split at h
    · split_ifs at h with hclosed
      obtain ⟨reader, hread, rfl⟩ := Option.map_eq_some_iff.mp h
      exact .read ‹_› (Bool.not_eq_true _ ▸ hclosed) hread
    · cases h
  | readErr timeout err =>
    simp only [step, Sock.readErr] at h
    split at h
    · cases h
      exact .readFails ‹_›
    · cases h
  | recvFailed =>
    simp only [step, Sock.recvFailed] at h
    split at h
    · cases h
      split_ifs with hdie
      · exact .recvGivesUp ‹_› hdie
      · exact .recvFailed ‹_› (Bool.not_eq_true _ ▸ hdie)
    · cases h
  | handle err =>
    simp only [step, Sock.handle] at h
    split at h
    · cases err with
      | some err =>
        cases h
        exact .handleFails ‹_›
      | none =>
        cases h
        dsimp only
        split_ifs with hauto
        · exact .handleAuto ‹_› hauto
        · exact .handleOnce ‹_› (Bool.not_eq_true _ ▸ hauto)
    · cases h
  | rearm now push =>
    simp only [step, Sock.rearm] at h
    split at h
    · obtain ⟨u, harm, rfl⟩ := Option.map_eq_some_iff.mp h
      rcases arm_cases harm with ⟨rfl, hroom, rfl⟩ | ⟨rfl, hskip, rfl⟩
      · exact .rearm ‹_› hroom
      · exact .rearmSkip ‹_› hskip
    · cases h
  | recvClose =>
    simp only [step, Sock.recvClose] at h
    split at h
    · cases h
      exact .recvCloses ‹_› ‹_›
    · cases h
      exact .recvReturns ‹_› ‹_›
    · cases h
  | finalize =>
    simp only [step, Sock.finalize] at h
    split at h
    · split at h
      · cases h
        exact .sendDone ‹_› ‹_›
      · cases h
    · split at h
      · cases h
        exact .recvDone ‹_› ‹_›
      · cases h
    · cases h
      exact .doClose ‹_›
    · cases h

end ClusterGo.Socket.Life
