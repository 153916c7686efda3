import ClusterGo.Rpc.Network.Basic
import ClusterGo.Rpc.SyncCall.Isolation

/-!
# Remote calls end to end

Whatever gets lost, overtakes something else or comes late, and whatever the
callers do meanwhile:

* no request is served twice, no request gets two answers, and a oneway
  request gets none (`served_at_most_once`);
* a call that returns a response returns the one answer to its own request
  (`returned_answer_is_own`);
* a response on its way always finds its client in a state in which it can
  be delivered, and the send of `OnMessage` to the caller never waits
  (`responses_deliverable`).

The invariant has three parts.  The requests keep to the `Ledger`.  Each
client has asked only for numbers that it made, so a new number is new to
the ledger (`ClientInv`).  Every accepted request, every answer and every
response is traced back to what a client asked for (`Traced`).

The numbers of a client must not wrap: `HasRoom`.
-/

namespace ClusterGo.Rpc.Network

open Sequence (makeSequence)
open SyncCall (Holds)
open Transition

variable {V : Type} {decodeRet : V → ResponseMsg V → V × Option Bytes} {s t : State V}
  {a : LogicAddr} {c c' : Client V} {e : Envelope V}

/-! ## The invariant -/

/-- The position of a call. -/
def Client.pc (c : Client V) (seq : UInt64) : SyncCall.CallPc V := (c.calls.calls seq).pc

/-- The client asks only under numbers that it made, and a number without a
call of its own, new or oneway, is idle. -/
structure ClientInv (decodeRet : V → ResponseMsg V → V × Option Bytes) (c : Client V) :
    Prop where
  sync : SyncCall.Inv decodeRet c.calls
  issued : ∀ seq, c.asked seq ≠ none → seq.toNat ≤ c.seqs.value
  idle : ∀ seq, c.asked seq = none → c.pc seq = .idle
  seq_eq : ∀ seq target req, c.asked seq = some (target, req) → req.seq = seq
  oneway : ∀ seq target req, c.asked seq = some (target, req) → req.oneway = true →
    c.pc seq = .idle

/-- What is known of the requests, the answers and the responses. -/
structure Traced (s : State V) : Prop where
  accepted : ∀ e ∈ s.ledger.accepted,
    (s.clients e.client).asked e.req.seq = some (e.target, e.req)
  answerable : ∀ e ∈ s.ledger.accepted, e.req.oneway = false →
    ((s.clients e.client).pc e.req.seq).answerable = true
  answers : ∀ x ∈ s.ledger.answers, x.1.req.oneway = false ∧ x.2.seq = x.1.req.seq ∧
    (x.2.err = none → x.1 ∈ s.ledger.served)
  responses : ∀ r ∈ s.responses, ∃ e, (e, r.2) ∈ s.ledger.answers ∧ e.client = r.1
  held : ∀ a r, Holds (s.clients a).calls r → ∃ e, (e, r) ∈ s.ledger.answers ∧ e.client = a

structure Inv (decodeRet : V → ResponseMsg V → V × Option Bytes) (s : State V) : Prop where
  ledger : Ledger.Sound Envelope.key s.ledger
  clients : ∀ a, ClientInv decodeRet (s.clients a)
  traced : Traced s

/-! ## Steps of one client -/

theorem setClient_self (s : State V) (a : LogicAddr) (c : Client V) :
    (s.setClient a c).clients a = c :=
  Function.update_self ..

theorem setClient_of_ne (s : State V) {a b : LogicAddr} (h : b ≠ a) (c : Client V) :
    (s.setClient a c).clients b = s.clients b :=
  Function.update_of_ne h ..

/-- What holds of the old clients and of the new one holds of all. -/
theorem forall_setClient {P : LogicAddr → Client V → Prop} (h : ∀ b, P b (s.clients b))
    (hc : P a c) (b : LogicAddr) : P b ((s.setClient a c).clients b) := by
  by_cases hb : b = a
  · rw [hb, setClient_self]
    exact hc
  · rw [setClient_of_ne s hb]
    exact h b

/-- A client goes on.  It forgets nothing, and it gets no response but from
the answers. -/
theorem Inv.setClient (h : Inv decodeRet s) (hc : ClientInv decodeRet c)
    (hasked : ∀ seq x, (s.clients a).asked seq = some x → c.asked seq = some x)
    (hans : ∀ seq, ((s.clients a).pc seq).answerable = true → (c.pc seq).answerable = true)
    (hheld : ∀ r, Holds c.calls r → Holds (s.clients a).calls r ∨
      ∃ e, (e, r) ∈ s.ledger.answers ∧ e.client = a) :
    Inv decodeRet (s.setClient a c) := by
  have htraced := h.traced
  refine ⟨h.ledger, forall_setClient h.clients hc, ?_⟩
  refine ⟨?_, ?_, htraced.answers, htraced.responses, ?_⟩
  · intro e he
    have hold := htraced.accepted e he
    by_cases hclient : e.client = a
    · rw [hclient, setClient_self]
      exact hasked _ _ (hclient ▸ hold)
    · rw [setClient_of_ne s hclient]
      exact hold
  · intro e he honeway
    have hold := htraced.answerable e he honeway
    by_cases hclient : e.client = a
    · rw [hclient, setClient_self]
      exact hans _ (hclient ▸ hold)
    · rw [setClient_of_ne s hclient]
      exact hold
  · intro b r hr
    by_cases hb : b = a
    · rw [hb, setClient_self] at hr
      rcases hheld r hr with hr | hanswer
      · exact hb ▸ htraced.held a r hr
      · exact hb ▸ hanswer
    · rw [setClient_of_ne s hb] at hr
      exact htraced.held b r hr

/-- The synchronous calls of a client go on by themselves. -/
theorem ClientInv.of_step (h : ClientInv decodeRet c) {calls : SyncCall.State V}
    {e : SyncCall.Event V} (hstep : SyncCall.step decodeRet c.calls e = some calls)
    (hstarts : e.starts = false) : ClientInv decodeRet { c with calls } where
  sync := h.sync.step hstep
  issued := h.issued
  idle seq hasked := SyncCall.idle_of_step hstep hstarts (h.idle seq hasked)
  seq_eq := h.seq_eq
  oneway seq target req hasked honeway :=
    SyncCall.idle_of_step hstep hstarts (h.oneway seq target req hasked honeway)

theorem Inv.of_step (h : Inv decodeRet s) {calls : SyncCall.State V} {e : SyncCall.Event V}
    (hstep : SyncCall.step decodeRet (s.clients a).calls e = some calls)
    (hstarts : e.starts = false)
    (hmessage : ∀ r, e = .onMessage r → ∃ e, (e, r) ∈ s.ledger.answers ∧ e.client = a) :
    Inv decodeRet (s.setClient a { s.clients a with calls }) := by
  refine h.setClient ((h.clients a).of_step hstep hstarts) (fun _ _ => id) ?_ ?_
  · intro seq hans
    exact SyncCall.answerable_of_step hstep hstarts hans
  · intro r hr
    exact (SyncCall.holds_of_step hstep hr).imp_right (hmessage r)

/-- A number that the client makes is new to it. -/
theorem ClientInv.asked_new (h : ClientInv decodeRet c) {timestamp : UInt32}
    (hroom : c.seqs.Room timestamp) : c.asked (makeSequence c.seqs timestamp).1 = none := by
  by_contra hasked
  have hle := h.issued _ hasked
  have hlt := Sequence.value_lt_makeSequence hroom
  rw [Sequence.makeSequence_toNat] at hle
  omega

/-- The client with a new number and what it asks for under it. -/
theorem issued_ask (h : ClientInv decodeRet c) {timestamp : UInt32}
    (hroom : c.seqs.Room timestamp) {x : LogicAddr × RequestMsg V} {seq : UInt64}
    (hasked : Function.update c.asked (makeSequence c.seqs timestamp).1 (some x) seq ≠ none) :
    seq.toNat ≤ (makeSequence c.seqs timestamp).2.value := by
  by_cases hseq : seq = (makeSequence c.seqs timestamp).1
  · rw [hseq, Sequence.makeSequence_toNat]
  · rw [Function.update_of_ne hseq] at hasked
    have hle := h.issued seq hasked
    have hlt := Sequence.value_lt_makeSequence hroom
    omega

/-- What was asked for under an old number is still there. -/
theorem asked_kept (h : ClientInv decodeRet c) {timestamp : UInt32}
    (hroom : c.seqs.Room timestamp) (x : LogicAddr × RequestMsg V) {seq : UInt64}
    {y : LogicAddr × RequestMsg V} (hasked : c.asked seq = some y) :
    Function.update c.asked (makeSequence c.seqs timestamp).1 (some x) seq = some y := by
  by_cases hseq : seq = (makeSequence c.seqs timestamp).1
  · rw [hseq, h.asked_new hroom] at hasked
    cases hasked
  · rw [Function.update_of_ne hseq]
    exact hasked

/-- The two cases of a question after a new one. -/
theorem asked_cases {asked : UInt64 → Option (LogicAddr × RequestMsg V)} {seq new : UInt64}
    {x y : LogicAddr × RequestMsg V}
    (h : Function.update asked new (some x) seq = some y) :
    seq = new ∧ x = y ∨ seq ≠ new ∧ asked seq = some y := by
  by_cases hseq : seq = new
  · rw [hseq, Function.update_self, Option.some_inj] at h
    exact Or.inl ⟨hseq, h⟩
  · rw [Function.update_of_ne hseq] at h
    exact Or.inr ⟨hseq, h⟩

theorem ClientInv.call (h : ClientInv decodeRet c) {timestamp : UInt32}
    (hroom : c.seqs.Room timestamp) {calls : SyncCall.State V} {ret : V}
    {choice : Option SyncCall.Ptr} {target : LogicAddr} {req : RequestMsg V}
    (hget : SyncCall.step decodeRet c.calls
      (.get (makeSequence c.seqs timestamp).1 ret choice) = some calls)
    (hseq : req.seq = (makeSequence c.seqs timestamp).1) (honeway : req.oneway = false) :
    ClientInv decodeRet
      { seqs := (makeSequence c.seqs timestamp).2, calls
        asked := Function.update c.asked (makeSequence c.seqs timestamp).1
          (some (target, req)) } := by
  obtain ⟨_, ch, hcalls⟩ := SyncCall.calls_of_get hget
  have hother : ∀ seq, seq ≠ (makeSequence c.seqs timestamp).1 →
      (calls.calls seq).pc = c.pc seq := by
    intro seq hne
    rw [hcalls, Function.update_of_ne hne]
    rfl
  refine ⟨h.sync.step hget, fun seq => issued_ask h hroom, ?_, ?_, ?_⟩
  · intro seq hasked
    by_cases hne : seq = (makeSequence c.seqs timestamp).1
    · rw [hne] at hasked
      change Function.update c.asked _ (some (target, req)) _ = none at hasked
      rw [Function.update_self] at hasked
      cases hasked
    · change Function.update c.asked _ (some (target, req)) seq = none at hasked
      rw [Function.update_of_ne hne] at hasked
      exact (hother seq hne).trans (h.idle seq hasked)
  · intro seq target' req' hasked
    rcases asked_cases hasked with ⟨rfl, heq⟩ | ⟨_, hold⟩
    · cases heq
      exact hseq
    · exact h.seq_eq seq target' req' hold
  · intro seq target' req' hasked hone
    rcases asked_cases hasked with ⟨rfl, heq⟩ | ⟨hne, hold⟩
    · cases heq
      rw [honeway] at hone
      cases hone
    · exact (hother seq hne).trans (h.oneway seq target' req' hold hone)

theorem ClientInv.post (h : ClientInv decodeRet c) {timestamp : UInt32}
    (hroom : c.seqs.Room timestamp) {req : RequestMsg V}
    (hseq : req.seq = (makeSequence c.seqs timestamp).1) (target : LogicAddr) :
    ClientInv decodeRet
      { c with
        seqs := (makeSequence c.seqs timestamp).2
        asked := Function.update c.asked (makeSequence c.seqs timestamp).1
          (some (target, req)) } := by
  refine ⟨h.sync, fun seq => issued_ask h hroom, ?_, ?_, ?_⟩
  · intro seq hasked
    by_cases hne : seq = (makeSequence c.seqs timestamp).1
    · rw [hne]
      exact h.idle _ (h.asked_new hroom)
    · change Function.update c.asked _ (some (target, req)) seq = none at hasked
      rw [Function.update_of_ne hne] at hasked
      exact h.idle seq hasked
  · intro seq target' req' hasked
    rcases asked_cases hasked with ⟨rfl, heq⟩ | ⟨_, hold⟩
    · cases heq
      exact hseq
    · exact h.seq_eq seq target' req' hold
  · intro seq target' req' hasked hone
    rcases asked_cases hasked with ⟨rfl, heq⟩ | ⟨_, hold⟩
    · exact h.idle _ (h.asked_new hroom)
    · exact h.oneway seq target' req' hold hone

/-! ## Steps of the network -/

/-- A client sends what it has asked for, and for the first time. -/
theorem Inv.send (h : Inv decodeRet s)
    (hasked : (s.clients e.client).asked e.req.seq = some (e.target, e.req))
    (hans : e.req.oneway = false → ((s.clients e.client).pc e.req.seq).answerable = true)
    (hnew : e.key ∉ s.ledger.accepted.map Envelope.key) : Inv decodeRet (s.send e) := by
  have htraced := h.traced
  refine ⟨h.ledger.accept hnew, h.clients, ?_, ?_, htraced.answers, htraced.responses,
    htraced.held⟩
  · intro e' he'
    rcases List.mem_cons.mp he' with rfl | he'
    · exact hasked
    · exact htraced.accepted e' he'
  · intro e' he'
    rcases List.mem_cons.mp he' with rfl | he'
    · exact hans
    · exact htraced.answerable e' he'

/-- Requests move or get lost, and no answer is given. -/
theorem Inv.setLedger (h : Inv decodeRet s) {l : Ledger (Envelope V) (ResponseMsg V)}
    (hsound : Ledger.Sound Envelope.key l) (haccepted : l.accepted = s.ledger.accepted)
    (hserved : ∀ e ∈ s.ledger.served, e ∈ l.served) (hanswers : l.answers = s.ledger.answers) :
    Inv decodeRet { s with ledger := l } := by
  have htraced := h.traced
  refine ⟨hsound, h.clients, ?_, ?_, ?_, ?_, ?_⟩
  · intro e he
    exact htraced.accepted e (haccepted ▸ he)
  · intro e he
    exact htraced.answerable e (haccepted ▸ he)
  · intro x hx
    obtain ⟨honeway, hseq, herr⟩ := htraced.answers x (hanswers ▸ hx)
    exact ⟨honeway, hseq, fun hnone => hserved _ (herr hnone)⟩
  · intro r hr
    obtain ⟨e, he, hclient⟩ := htraced.responses r hr
    exact ⟨e, hanswers ▸ he, hclient⟩
  · intro b r hr
    obtain ⟨e, he, hclient⟩ := htraced.held b r hr
    exact ⟨e, hanswers ▸ he, hclient⟩

/-- An answer is given to a request that is not oneway. -/
theorem Inv.respond (h : Inv decodeRet s) {resp : ResponseMsg V}
    (hsound : Ledger.Sound Envelope.key (s.ledger.answer e resp))
    (hseq : resp.seq = e.req.seq) (herr : resp.err = none → e ∈ s.ledger.served) :
    Inv decodeRet (s.respond e resp) := by
  have htraced := h.traced
  unfold State.respond
  split_ifs with honeway
  · exact h
  refine ⟨hsound, h.clients, htraced.accepted, htraced.answerable, ?_, ?_, ?_⟩
  · intro x hx
    rcases List.mem_cons.mp hx with rfl | hx
    · exact ⟨Bool.not_eq_true _ ▸ honeway, hseq, herr⟩
    · exact htraced.answers x hx
  · intro r hr
    rcases List.mem_cons.mp hr with rfl | hr
    · exact ⟨e, List.mem_cons_self, rfl⟩
    · obtain ⟨e', he', hclient⟩ := htraced.responses r hr
      exact ⟨e', List.mem_cons_of_mem _ he', hclient⟩
  · intro b r hr
    obtain ⟨e', he', hclient⟩ := htraced.held b r hr
    exact ⟨e', List.mem_cons_of_mem _ he', hclient⟩

/-- Responses get lost. -/
theorem Inv.loseResponse (h : Inv decodeRet s) {responses : List (LogicAddr × ResponseMsg V)}
    (hsub : ∀ r ∈ responses, r ∈ s.responses) : Inv decodeRet { s with responses } :=
  ⟨h.ledger, h.clients, h.traced.accepted, h.traced.answerable, h.traced.answers,
    fun r hr => h.traced.responses r (hsub r hr), h.traced.held⟩

/-- A request that is not accepted yet has a key that is new. -/
theorem Inv.key_new (h : Inv decodeRet s) {seq : UInt64} {target : LogicAddr}
    {req : RequestMsg V} (hasked : (s.clients a).asked seq = some (target, req))
    (hpc : (s.clients a).pc seq = .requesting) :
    (a, seq) ∉ s.ledger.accepted.map Envelope.key := by
  intro hmem
  obtain ⟨e, he, hkey⟩ := List.mem_map.mp hmem
  obtain ⟨hclient, hseq⟩ := Prod.mk.inj hkey
  have hask := h.traced.accepted e he
  rw [hclient, hseq, hasked, Option.some_inj] at hask
  obtain ⟨_, rfl⟩ := Prod.mk.inj hask
  cases honeway : e.req.oneway with
  | true =>
    have hidle := (h.clients a).oneway seq target e.req hasked honeway
    rw [hpc] at hidle
    cases hidle
  | false =>
    have hans := h.traced.answerable e he honeway
    rw [hclient, hseq, hpc] at hans
    cases hans

/-! ## The steps of a call -/

section

variable {timestamp : UInt32} {target : LogicAddr}

theorem Inv.call (h : Inv decodeRet s) (hroom : (s.clients a).seqs.Room timestamp)
    {calls : SyncCall.State V} {ret : V} {choice : Option SyncCall.Ptr} {req : RequestMsg V}
    (hget : SyncCall.step decodeRet (s.clients a).calls
      (.get (makeSequence (s.clients a).seqs timestamp).1 ret choice) = some calls)
    (hseq : req.seq = (makeSequence (s.clients a).seqs timestamp).1)
    (honeway : req.oneway = false) :
    Inv decodeRet (s.setClient a
      { seqs := (makeSequence (s.clients a).seqs timestamp).2, calls
        asked := Function.update (s.clients a).asked
          (makeSequence (s.clients a).seqs timestamp).1 (some (target, req)) }) := by
  have hc := h.clients a
  obtain ⟨hidle, ch, hcalls⟩ := SyncCall.calls_of_get hget
  refine h.setClient (hc.call hroom hget hseq honeway) (fun _ _ => asked_kept hc hroom _) ?_ ?_
  · intro seq hans
    have hne : seq ≠ (makeSequence (s.clients a).seqs timestamp).1 := by
      intro heq
      rw [Client.pc, heq, hidle] at hans
      cases hans
    show ((calls.calls seq).pc).answerable = true
    rw [hcalls, Function.update_of_ne hne]
    exact hans
  · intro r hr
    exact Or.inl ((SyncCall.holds_of_step hget hr).resolve_right (by simp))

theorem Inv.post (h : Inv decodeRet s) (hroom : (s.clients a).seqs.Room timestamp)
    {req : RequestMsg V} (hseq : req.seq = (makeSequence (s.clients a).seqs timestamp).1)
    (honeway : req.oneway = true) :
    Inv decodeRet ((s.setClient a
      { s.clients a with
        seqs := (makeSequence (s.clients a).seqs timestamp).2
        asked := Function.update (s.clients a).asked
          (makeSequence (s.clients a).seqs timestamp).1 (some (target, req)) }).send
      ⟨a, target, req⟩) := by
  have hc := h.clients a
  have hset := h.setClient (hc.post hroom hseq target)
    (fun _ _ => asked_kept hc hroom _) (fun _ => id) (fun _ => Or.inl)
  refine hset.send ?_ ?_ ?_
  · show ((s.setClient a _).clients a).asked req.seq = _
    rw [setClient_self, hseq]
    exact Function.update_self ..
  · intro hone
    rw [honeway] at hone
    cases hone
  · -- An accepted request was asked for, and nothing was under a new number.
    intro hmem
    obtain ⟨e, he, hkey⟩ := List.mem_map.mp hmem
    obtain ⟨hclient, hsame⟩ := Prod.mk.inj hkey
    have hask := h.traced.accepted e he
    rw [hclient, hsame, hseq, hc.asked_new hroom] at hask
    cases hask

/-- The request of a call is on its way. -/
theorem Inv.accept (h : Inv decodeRet s) {calls : SyncCall.State V} {seq : UInt64}
    {req : RequestMsg V} (hasked : (s.clients a).asked seq = some (target, req))
    (haccept : SyncCall.step decodeRet (s.clients a).calls (.accept seq) = some calls) :
    Inv decodeRet ((s.setClient a { s.clients a with calls }).send ⟨a, target, req⟩) := by
  have hseq := (h.clients a).seq_eq seq target req hasked
  obtain ⟨hpc, hafter⟩ := SyncCall.pc_of_accept haccept
  have hset := h.of_step haccept rfl (fun r heq => by cases heq)
  refine hset.send ?_ ?_ ?_
  · show ((s.setClient a _).clients a).asked req.seq = _
    rw [setClient_self, hseq]
    exact hasked
  · intro _
    show (((s.setClient a _).clients a).pc req.seq).answerable = true
    rw [setClient_self, hseq]
    show ((calls.calls seq).pc).answerable = true
    rw [hafter]
    rfl
  · show (a, req.seq) ∉ s.ledger.accepted.map Envelope.key
    rw [hseq]
    exact h.key_new hasked hpc

end

theorem Inv.step (h : Inv decodeRet s) {e : Event V} (hroom : HasRoom s e)
    (hstep : Network.step decodeRet s e = some t) : Inv decodeRet t := by
  cases e with
  | call a timestamp target method arg ret choice =>
    simp only [Network.step, Option.map_eq_some_iff] at hstep
    obtain ⟨calls, hget, rfl⟩ := hstep
    exact h.call hroom hget rfl rfl
  | post a timestamp target method arg =>
    simp only [Network.step, Option.some_inj] at hstep
    subst hstep
    exact h.post hroom rfl rfl
  | caller a e =>
    simp only [Network.step] at hstep
    split_ifs at hstep with hinternal
    obtain ⟨calls, hcalls, rfl⟩ := Option.map_eq_some_iff.mp hstep
    refine h.of_step hcalls ?_ ?_
    · cases e <;> first | rfl | cases hinternal
    · intro r heq
      rw [heq] at hinternal
      cases hinternal
  | accept a seq =>
    simp only [Network.step] at hstep
    split at hstep
    · cases hstep
    · obtain ⟨calls, hcalls, rfl⟩ := Option.map_eq_some_iff.mp hstep
      exact h.accept ‹_› hcalls
  | loseRequest k =>
    obtain ⟨⟨e, requests⟩, hpick, rfl⟩ := Option.map_eq_some_iff.mp hstep
    exact h.setLedger (h.ledger.lose (Ledger.pick_perm hpick)) rfl (fun _ => id) rfl
  | refuse k err =>
    obtain ⟨⟨e, requests⟩, hpick, rfl⟩ := Option.map_eq_some_iff.mp hstep
    have hperm := Ledger.pick_perm hpick
    refine (h.setLedger (h.ledger.lose hperm) rfl (fun _ => id) rfl).respond
      (h.ledger.refuse hperm _) rfl ?_
    intro hnone
    cases hnone
  | serve k =>
    obtain ⟨⟨e, requests⟩, hpick, rfl⟩ := Option.map_eq_some_iff.mp hstep
    exact h.setLedger (h.ledger.serve (Ledger.pick_perm hpick)) rfl
      (fun _ => List.mem_cons_of_mem _) rfl
  | reply k err ret =>
    obtain ⟨⟨e, serving⟩, hpick, rfl⟩ := Option.map_eq_some_iff.mp hstep
    have hperm := Ledger.pick_perm hpick
    refine (h.setLedger (h.ledger.giveUp hperm) rfl (fun _ => id) rfl).respond
      (h.ledger.reply hperm _) rfl ?_
    intro _
    exact h.ledger.serving_served e (hperm.mem_iff.mpr List.mem_cons_self)
  | silent k =>
    obtain ⟨⟨e, serving⟩, hpick, rfl⟩ := Option.map_eq_some_iff.mp hstep
    exact h.setLedger (h.ledger.giveUp (Ledger.pick_perm hpick)) rfl (fun _ => id) rfl
  | loseResponse k =>
    obtain ⟨⟨r, responses⟩, hpick, rfl⟩ := Option.map_eq_some_iff.mp hstep
    refine h.loseResponse fun r' hr' => ?_
    exact (Ledger.pick_perm hpick).mem_iff.mpr (List.mem_cons_of_mem _ hr')
  | deliver k =>
    obtain ⟨⟨⟨a, resp⟩, responses⟩, hpick, hstep⟩ := Option.bind_eq_some_iff.mp hstep
    obtain ⟨calls, hcalls, rfl⟩ := Option.map_eq_some_iff.mp hstep
    have hperm := Ledger.pick_perm hpick
    have hlost : Inv decodeRet { s with responses } :=
      h.loseResponse fun r hr => hperm.mem_iff.mpr (List.mem_cons_of_mem _ hr)
    refine hlost.of_step hcalls rfl ?_
    intro r heq
    cases heq
    exact h.traced.responses _ (hperm.mem_iff.mpr List.mem_cons_self)

/-! ## A run

Node 1 calls node 2 twice within a second and then posts.  The second call
is served and answered first.
-/

/-- The result of a call is the length of what comes back. -/
def lengthOf (ret : Nat) (resp : ResponseMsg Nat) : Nat × Option Bytes :=
  match resp.ret with
  | .bytes b => (b.length, none)
  | _ => (ret, none)

/-- The number that a new client makes in second 5. -/
def firstSeq : UInt64 := (makeSequence (Sequence.newClient 0) 5).1

/-- A call until it waits. -/
def upToWait (seq : UInt64) : List (Event Nat) :=
  [.call ⟨1⟩ 5 ⟨2⟩ [] .nil 0 none, .caller ⟨1⟩ (.store seq), .caller ⟨1⟩ (.request seq),
    .accept ⟨1⟩ seq, .caller ⟨1⟩ (.requestReturn seq .sent)]

/-- A call from its response on. -/
def fromDelivery (k : Nat) (seq : UInt64) : List (Event Nat) :=
  [.deliver k, .caller ⟨1⟩ (.send seq), .caller ⟨1⟩ (.receive seq), .caller ⟨1⟩ (.put seq)]

def servedCrosswise : List (Event Nat) :=
  upToWait firstSeq ++ upToWait (firstSeq + 1) ++
    [.post ⟨1⟩ 5 ⟨2⟩ [] .nil, .serve 1, .serve 1, .serve 0, .reply 2 none (.bytes [1, 2]),
      .reply 1 none (.bytes [1]), .reply 0 none .nil]

def answeredCrosswise : List (Event Nat) :=
  servedCrosswise ++ fromDelivery 1 (firstSeq + 1) ++ fromDelivery 0 firstSeq

/-- The run with the condition checked before every step. -/
def runChecked (es : List (Event Nat)) : Option (State Nat) :=
  run (fun s e => if HasRoom s e then step lengthOf s e else none) (start (fun _ => 0) 0) es

/-- The response that a call returned, and its result. -/
def State.returned (s : State V) (a : LogicAddr) (seq : UInt64) :
    Option (ResponseMsg V × V × Option Error) :=
  match (s.clients a).pc seq with
  | .returned (some resp) result => some (resp, result)
  | _ => none

theorem pc_of_returned {seq : UInt64} {resp : ResponseMsg V} {result : V × Option Error}
    (h : s.returned a seq = some (resp, result)) :
    ((s.clients a).calls.calls seq).pc = .returned (some resp) result := by
  unfold State.returned at h
  split at h
  · rename_i hpc
    cases h
    exact hpc
  · cases h

/-! ## Every run -/

theorem Inv.start (timeOffset : LogicAddr → UInt32) (ret : V) :
    Inv decodeRet (Network.start timeOffset ret) where
  ledger := Ledger.Sound.empty
  clients a := by
    refine ⟨SyncCall.Inv.initial ret, ?_, fun _ _ => rfl, ?_, ?_⟩
    · intro seq hasked
      exact absurd rfl hasked
    · intro seq target req hasked
      cases hasked
    · intro seq target req hasked
      cases hasked
  traced := by
    refine ⟨?_, ?_, ?_, ?_, ?_⟩
    · intro e he
      cases he
    · intro e he
      cases he
    · intro x hx
      cases hx
    · intro r hr
      cases hr
    · intro b r hr
      exact absurd hr (SyncCall.not_holds_initial ret r)

variable {timeOffset : LogicAddr → UInt32} {ret : V}

theorem Inv.of_reach
    (hs : Reach (Network.step decodeRet) HasRoom (Network.start timeOffset ret) s) :
    Inv decodeRet s :=
  hs.invariant (Inv.start timeOffset ret) fun _ _ _ _ hinv hroom hstep => hinv.step hroom hstep

/-- Only what a client asked for is served, every request once at most.  A
request gets one answer at most, and a oneway request none. -/
theorem served_at_most_once
    (hs : Reach (step decodeRet) HasRoom (start timeOffset ret) s) :
    (s.ledger.served.map Envelope.key).Nodup ∧
      (∀ e ∈ s.ledger.served,
        (s.clients e.client).asked e.req.seq = some (e.target, e.req)) ∧
      (s.ledger.answers.map fun x => x.1.key).Nodup ∧
      ∀ x ∈ s.ledger.answers, x.1.req.oneway = false := by
  have hinv : Inv decodeRet s := Inv.of_reach hs
  refine ⟨hinv.ledger.served_nodup, ?_, hinv.ledger.answers_nodup, ?_⟩
  · intro e he
    exact hinv.traced.accepted e (hinv.ledger.served_accepted e he)
  · intro x hx
    exact (hinv.traced.answers x hx).1

/-- Two calls and a oneway request are served, and the calls are answered. -/
theorem served_at_most_once_crosswise :
    (runChecked servedCrosswise).map (fun s => (s.ledger.served.map (·.req.seq - firstSeq),
      s.ledger.answers.map (·.2.seq - firstSeq))) = some ([2, 0, 1], [0, 1]) ∧
    ∀ s, runChecked servedCrosswise = some s → (s.ledger.served.map Envelope.key).Nodup :=
  ⟨by decide +kernel, fun _ hs => (served_at_most_once (Reach.of_guarded_run hs)).1⟩

/-- A call that returns a response returns the answer that was given to its
own request, and no other was given.  When the answer is no error, the node
that was asked served the request. -/
theorem returned_answer_is_own
    (hs : Reach (step decodeRet) HasRoom (start timeOffset ret) s) {seq : UInt64}
    {resp : ResponseMsg V} {result : V × Option Error}
    (hpc : ((s.clients a).calls.calls seq).pc = .returned (some resp) result) :
    result = SyncCall.answer decodeRet ((s.clients a).calls.calls seq).ret resp ∧
      ∃ target req, (s.clients a).asked seq = some (target, req) ∧
        (∀ x ∈ s.ledger.answers, x.1.key = (a, seq) ↔ x = (⟨a, target, req⟩, resp)) ∧
        (⟨a, target, req⟩, resp) ∈ s.ledger.answers ∧
        (resp.err = none → ⟨a, target, req⟩ ∈ s.ledger.served) := by
  have hinv : Inv decodeRet s := Inv.of_reach hs
  obtain ⟨hown, hresult⟩ := ((hinv.clients a).sync.sound_at hpc).1 resp rfl
  obtain ⟨⟨client, target, req⟩, hanswer, rfl⟩ := hinv.traced.held a resp
    (Or.inl ⟨seq, Or.inr (Or.inr ⟨result, hpc⟩)⟩)
  obtain ⟨_, hseq, hserved⟩ := hinv.traced.answers _ hanswer
  have hask := hinv.traced.accepted _ (hinv.ledger.answers_accepted _ hanswer)
  have hkey : req.seq = seq := hseq.symm.trans hown
  refine ⟨hresult, target, req, hkey ▸ hask, ?_, hanswer, hserved⟩
  intro x hx
  constructor
  · intro hsame
    exact hinv.ledger.answer_unique hx hanswer (hsame.trans (hkey ▸ rfl))
  · intro heq
    rw [heq, ← hkey]
    rfl

/-- The first call returns the length of the answer that was given second. -/
theorem returned_answer_is_own_crosswise :
    ∃ s resp, runChecked answeredCrosswise = some s ∧
      s.returned ⟨1⟩ firstSeq = some (resp, 1, none) ∧
      ∃ target req, (⟨⟨1⟩, target, req⟩, resp) ∈ s.ledger.answers := by
  have hrun : (runChecked answeredCrosswise).map (fun s => s.returned ⟨1⟩ firstSeq) =
      some (some ({ seq := firstSeq, ret := .bytes [1] }, 1, none)) := by
    decide +kernel
  obtain ⟨s, hs, hreturned⟩ := Option.map_eq_some_iff.mp hrun
  obtain ⟨_, target, req, _, _, hanswer, _⟩ :=
    returned_answer_is_own (Reach.of_guarded_run hs) (pc_of_returned hreturned)
  exact ⟨s, _, hs, hreturned, target, req, hanswer⟩

/-- A response can be taken by its client. -/
theorem exists_deliver (hinv : Inv decodeRet s) {k : Nat} (hk : k < s.responses.length) :
    ∃ t, step decodeRet s (.deliver k) = some t := by
  obtain ⟨e, hanswer, hclient⟩ := hinv.traced.responses _ (List.getElem_mem hk)
  obtain ⟨honeway, hseq, _⟩ := hinv.traced.answers _ hanswer
  have hans := hinv.traced.answerable e (hinv.ledger.answers_accepted _ hanswer) honeway
  rw [hclient, ← hseq] at hans
  obtain ⟨calls, hcalls⟩ := SyncCall.exists_onMessage decodeRet hans
  have hpick : Ledger.pick s.responses k = some (s.responses[k], s.responses.eraseIdx k) := by
    rw [Ledger.pick, List.getElem?_eq_getElem hk]
    rfl
  refine ⟨{ s with responses := s.responses.eraseIdx k }.setClient s.responses[k].1
    { s.clients s.responses[k].1 with calls }, ?_⟩
  simp only [step, hpick, Option.bind_some]
  rw [hcalls]
  rfl

/-- A response that was taken can be sent to the caller: its channel is
empty. -/
theorem exists_send (hinv : Inv decodeRet s) {seq : UInt64} {ch : SyncCall.Ptr}
    {resp : ResponseMsg V} (hsender : ((s.clients a).calls.calls seq).sender = .taken ch resp) :
    ∃ t, step decodeRet s (.caller a (.send seq)) = some t := by
  obtain ⟨hch, _, hempty, _⟩ := ((hinv.clients a).sync.calls seq).of_taken hsender
  rw [hch] at hempty
  obtain ⟨calls, hcalls⟩ : ∃ calls,
      SyncCall.step decodeRet (s.clients a).calls (.send seq) = some calls := by
    simp only [SyncCall.step, hsender, if_pos hempty]
    exact ⟨_, rfl⟩
  refine ⟨s.setClient a { s.clients a with calls }, ?_⟩
  simp only [step, SyncCall.Event.internal, if_true, hcalls, Option.map_some]

/-- No response waits for its client: the client can take it, and once
`OnMessage` has it, the send to the caller is possible. -/
theorem responses_deliverable
    (hs : Reach (step decodeRet) HasRoom (start timeOffset ret) s) :
    (∀ k, k < s.responses.length → ∃ t, step decodeRet s (.deliver k) = some t) ∧
      ∀ a seq ch resp, ((s.clients a).calls.calls seq).sender = .taken ch resp →
        ∃ t, step decodeRet s (.caller a (.send seq)) = some t := by
  have hinv : Inv decodeRet s := Inv.of_reach hs
  refine ⟨?_, ?_⟩
  · intro k hk
    exact exists_deliver hinv hk
  · intro a seq ch resp hsender
    exact exists_send hinv hsender

/-- The channel and the response that `OnMessage` has for a call. -/
def State.taken (s : State V) (a : LogicAddr) (seq : UInt64) :
    Option (SyncCall.Ptr × ResponseMsg V) :=
  match ((s.clients a).calls.calls seq).sender with
  | .taken ch resp => some (ch, resp)
  | _ => none

theorem sender_of_taken {seq : UInt64} {ch : SyncCall.Ptr} {resp : ResponseMsg V}
    (h : s.taken a seq = some (ch, resp)) :
    ((s.clients a).calls.calls seq).sender = .taken ch resp := by
  unfold State.taken at h
  split at h
  · cases h
    assumption
  · cases h

/-- Of two responses the older one is taken first.  It can be sent to its caller
while the other one is delivered. -/
theorem responses_deliverable_crosswise :
    ∃ s t u, runChecked (servedCrosswise ++ [.deliver 1]) = some s ∧
      step lengthOf s (.deliver 0) = some t ∧
      (s.taken ⟨1⟩ (firstSeq + 1)).isSome ∧
      step lengthOf s (.caller ⟨1⟩ (.send (firstSeq + 1))) = some u := by
  have hrun : (runChecked (servedCrosswise ++ [.deliver 1])).map (fun s =>
      (s.responses.length, (s.taken ⟨1⟩ (firstSeq + 1)).isSome)) = some (1, true) := by
    decide +kernel
  obtain ⟨s, hs, hfound⟩ := Option.map_eq_some_iff.mp hrun
  obtain ⟨hlength, hsome⟩ := Prod.mk.inj hfound
  obtain ⟨⟨ch, resp⟩, htaken⟩ := Option.isSome_iff_exists.mp hsome
  have hdeliverable := responses_deliverable (Reach.of_guarded_run hs)
  obtain ⟨t, ht⟩ := hdeliverable.1 0 (by omega)
  obtain ⟨u, hu⟩ := hdeliverable.2 ⟨1⟩ (firstSeq + 1) ch resp (sender_of_taken htaken)
  exact ⟨s, t, u, hs, ht, hsome, hu⟩

end ClusterGo.Rpc.Network
