import ClusterGo.Rpc.SyncCall.Basic

/-!
# Isolation of synchronous calls

The right to send on the channel of a call is a token.  It starts as the
entry in the pending map, then `OnMessage` has it, then it is spent and the
response is in the channel.  `Stage` says where it is.  A call that puts
its channel back has the token: it received the response, or it removed the
entry itself.  A call that abandons its channel does not know where the
token is, and nobody else ever gets that channel.

`Call.Sound` says this for every position of a call, and
`sync_calls_isolated` reads the three properties off it.
-/

namespace ClusterGo.Rpc.SyncCall

open Transition

variable {V : Type}

/-! ## The invariant -/

/-- Where the right to send on the channel of call `i` is, with the entry,
the sender and the content of the channel. -/
inductive Stage (i : UInt64) (ch : Ptr) :
    Option Ptr → Sender V → Option (ResponseMsg V) → Prop where
  | pending : Stage i ch (some ch) .none none
  | taken {resp : ResponseMsg V} (hseq : resp.seq = i) :
      Stage i ch none (.taken ch resp) none
  | sent {resp : ResponseMsg V} (hseq : resp.seq = i) : Stage i ch none .sent (some resp)

/-- The channel that the call holds.  An abandoned channel stays with its
call. -/
def Call.holds (c : Call V) : Option Ptr :=
  match c.pc with
  | .idle | .returned .. => none
  | _ => some c.ch

/-- What holds at each position of call `i`, with its entry in the pending
map and the content of its channel. -/
def Call.Sound (decodeRet : V → ResponseMsg V → V × Option Bytes) (i : UInt64)
    (c : Call V) (entry : Option Ptr) (chan : Option (ResponseMsg V)) : Prop :=
  match c.pc with
  | .idle => entry = none ∧ c.sender = .none
  | .got | .won _ | .deleted _ => entry = none ∧ c.sender = .none ∧ chan = none
  | .ready | .requesting | .retrying | .failed _ =>
    entry = some c.ch ∧ c.sender = .none ∧ chan = none
  | .accepted | .waiting | .cancelled _ => Stage i c.ch entry c.sender chan
  | .received resp => resp.seq = i ∧ entry = none ∧ c.sender = .sent ∧ chan = none
  | .returned resp result =>
    (∀ r, resp = some r → r.seq = i ∧ result = answer decodeRet c.ret r) ∧
      entry = none ∧ ∀ v r, c.sender ≠ .taken v r
  | .abandoned _ => entry = none ∧ Stage i c.ch entry c.sender chan

structure Inv (decodeRet : V → ResponseMsg V → V × Option Bytes) (s : State V) :
    Prop where
  calls : ∀ i, (s.calls i).Sound decodeRet i (s.pending i) (s.chans (s.calls i).ch)
  pool : Pool.Sound s.pool s.next fun i => (s.calls i).holds
  pooled : ∀ p ∈ s.pool, s.chans p = none
  unused : ∀ p, s.next ≤ p → s.chans p = none

variable {decodeRet : V → ResponseMsg V → V × Option Bytes} {s t : State V} {i : UInt64}
  {c : Call V}

theorem Inv.initial (ret : V) : Inv decodeRet (State.initial ret) where
  calls _ := ⟨rfl, rfl⟩
  pool := Pool.Sound.empty
  pooled _ _ := rfl
  unused _ _ := rfl

/-- A call without a channel does not mind what is in it. -/
theorem Call.Sound.congr {entry : Option Ptr} {chan chan' : Option (ResponseMsg V)}
    (h : c.Sound decodeRet i entry chan) (hholds : c.holds = none) :
    c.Sound decodeRet i entry chan' := by
  unfold Call.Sound Call.holds at *
  cases hpc : c.pc <;> simp_all

/-- `OnMessage` takes the entry of a call whose request was accepted. -/
theorem Call.Sound.take {v : Ptr} {chan : Option (ResponseMsg V)}
    (h : c.Sound decodeRet i (some v) chan) (hans : c.pc.answerable = true)
    {resp : ResponseMsg V} (hseq : resp.seq = i) :
    ({ c with sender := .taken v resp } : Call V).Sound decodeRet i none chan := by
  unfold Call.Sound at *
  have hstage : Stage i c.ch (some v) c.sender chan →
      Stage i c.ch none (.taken v resp) chan := by
    intro hstage
    generalize c.sender = sender at hstage
    cases hstage with
    | pending => exact .taken hseq
  cases hpc : c.pc with
  | accepted | waiting | cancelled err =>
    simp only [hpc] at h ⊢
    exact hstage h
  | idle | got | won err | deleted err | received resp | returned resp res | abandoned res =>
    simp [hpc] at h
  | ready | requesting | retrying | failed err => simp [hpc, CallPc.answerable] at hans

/-- A sender that has a channel has the one of its call, which is empty, and
may fill it. -/
theorem Call.Sound.of_taken {entry : Option Ptr} {chan : Option (ResponseMsg V)}
    (h : c.Sound decodeRet i entry chan) {v : Ptr} {resp : ResponseMsg V}
    (hsender : c.sender = .taken v resp) :
    c.ch = v ∧ c.holds = some v ∧ chan = none ∧
      ({ c with sender := .sent } : Call V).Sound decodeRet i entry (some resp) := by
  unfold Call.Sound Call.holds at *
  have hstage : Stage i c.ch entry c.sender chan → c.ch = v ∧ chan = none ∧
      Stage i c.ch entry .sent (some resp) := by
    intro hstage
    rw [hsender] at hstage
    cases hstage with
    | taken hseq => exact ⟨rfl, rfl, .sent hseq⟩
  cases hpc : c.pc with
  | accepted | waiting | cancelled err =>
    simp only [hpc] at h ⊢
    obtain ⟨hch, hchan, hsent⟩ := hstage h
    exact ⟨hch, congrArg some hch, hchan, hsent⟩
  | abandoned res =>
    simp only [hpc] at h ⊢
    obtain ⟨hch, hchan, hsent⟩ := hstage h.2
    exact ⟨hch, congrArg some hch, hchan, h.1, hsent⟩
  | returned resp res =>
    simp only [hpc] at h
    exact absurd hsender (h.2.2 v _)
  | idle | got | won err | deleted err | received resp | ready | requesting | retrying
  | failed err => simp [hpc, hsender] at h

/-- A step that moves call `i` to `c` and writes to no channel but the one
that `i` holds. -/
theorem Inv.move (h : Inv decodeRet s) (hcalls : t.calls = Function.update s.calls i c)
    (hpending : ∀ j, j ≠ i → t.pending j = s.pending j)
    (hsound : c.Sound decodeRet i (t.pending i) (t.chans c.ch))
    (hpool : Pool.Sound t.pool t.next
      (Function.update (fun j => (s.calls j).holds) i c.holds))
    (hchans : ∀ p, (s.calls i).holds ≠ some p → t.chans p = s.chans p)
    (hpooled : ∀ p ∈ t.pool, t.chans p = none)
    (hunused : ∀ p, t.next ≤ p → t.chans p = none) : Inv decodeRet t := by
  have hself : t.calls i = c := by rw [hcalls, Function.update_self]
  have hne : ∀ j, j ≠ i → t.calls j = s.calls j := fun j hj => by
    rw [hcalls, Function.update_of_ne hj]
  have hholds : (fun j => (t.calls j).holds) =
      Function.update (fun j => (s.calls j).holds) i c.holds := by
    funext j
    rcases eq_or_ne j i with rfl | hj
    · rw [hself, Function.update_self]
    · rw [hne j hj, Function.update_of_ne hj]
  refine ⟨fun j => ?_, hholds ▸ hpool, hpooled, hunused⟩
  rcases eq_or_ne j i with rfl | hj
  · exact hself ▸ hsound
  · rw [hne j hj, hpending j hj]
    have hold := h.calls j
    cases hj' : (s.calls j).holds with
    | none => exact hold.congr hj'
    | some p =>
      -- the channel of `j` is not the one of `i`
      have hp : (s.calls j).ch = p := by
        unfold Call.holds at hj'
        split at hj' <;> simp_all
      have hother : (s.calls i).holds ≠ some p := fun hi =>
        hj (h.pool.exclusive j i p hj' hi)
      rw [hp, hchans p hother, ← hp]
      exact hold

/-- The case of a step that leaves the channels and the pool alone. -/
theorem Inv.goOn (h : Inv decodeRet s) (hcalls : t.calls = Function.update s.calls i c)
    (hpending : ∀ j, j ≠ i → t.pending j = s.pending j)
    (hchans : t.chans = s.chans) (hpool : t.pool = s.pool) (hnext : t.next = s.next)
    (hsound : c.Sound decodeRet i (t.pending i) (s.chans c.ch))
    (hholds : c.holds = (s.calls i).holds) : Inv decodeRet t := by
  refine h.move hcalls hpending (hchans ▸ hsound) ?_ (fun p _ => by rw [hchans]) ?_ ?_
  · rw [hpool, hnext, hholds, Function.update_eq_self]
    exact h.pool
  · rw [hpool, hchans]
    exact h.pooled
  · rw [hnext, hchans]
    exact h.unused

/-- A call that puts its channel back does so when it is empty and nobody
is about to send on it. -/
theorem Inv.putChan (h : Inv decodeRet s) (hholds : (s.calls i).holds = some (s.calls i).ch)
    {resp : Option (ResponseMsg V)} {result : V × Option Error}
    (hchan : s.chans (s.calls i).ch = none)
    (hentry : s.pending i = none)
    (hsender : (s.calls i).sender = .none ∨ (s.calls i).sender = .sent)
    (hresp : ∀ r, resp = some r →
      r.seq = i ∧ result = answer decodeRet (s.calls i).ret r) :
    Inv decodeRet (s.putChan i resp result) := by
  have hnot : ∀ v r, (s.calls i).sender ≠ .taken v r := by
    intro v r hr
    rcases hsender with hs | hs <;> simp [hs] at hr
  refine h.move rfl (fun _ _ => rfl) ⟨hresp, hentry, hnot⟩ (h.pool.put hholds)
    (fun _ _ => rfl) (fun p hp => ?_) h.unused
  rcases List.mem_cons.mp hp with rfl | hp
  · exact hchan
  · exact h.pooled p hp

/-- The channel that a call gets is empty. -/
theorem Inv.chan_of_get (h : Inv decodeRet s) {choice : Option Ptr} {p next : Ptr}
    {pool : List Ptr} (hget : Pool.get s.pool s.next choice = some (p, pool, next)) :
    s.chans p = none := by
  cases choice with
  | none =>
    simp only [Pool.get, Option.some.injEq, Prod.mk.injEq] at hget
    exact h.unused p (hget.1 ▸ le_rfl)
  | some q =>
    simp only [Pool.get, Option.ite_none_right_eq_some, Option.some.injEq,
      Prod.mk.injEq] at hget
    exact h.pooled p (hget.2.1 ▸ hget.1)

/-- The position of a call decides what holds for it. -/
theorem Inv.sound_at (h : Inv decodeRet s) {pc : CallPc V} (hpc : (s.calls i).pc = pc) :
    ({ s.calls i with pc } : Call V).Sound decodeRet i (s.pending i)
      (s.chans (s.calls i).ch) :=
  hpc ▸ h.calls i

theorem holds_at {pc : CallPc V} (hpc : (s.calls i).pc = pc) :
    (s.calls i).holds = ({ s.calls i with pc } : Call V).holds :=
  hpc ▸ rfl

/-- `Call` goes on and writes to its entry. -/
theorem Inv.setPending (h : Inv decodeRet s) {pc pc' : CallPc V} {entry : Option Ptr}
    (hpc : (s.calls i).pc = pc)
    (hsound : ({ s.calls i with pc := pc' } : Call V).Sound decodeRet i entry
      (s.chans (s.calls i).ch))
    (hholds : ({ s.calls i with pc := pc' } : Call V).holds =
      ({ s.calls i with pc } : Call V).holds) :
    Inv decodeRet ((s.setPending i entry).goTo i pc') := by
  refine h.goOn rfl (fun j hj => Function.update_of_ne hj _ _) rfl rfl rfl ?_
    (hholds.trans (holds_at hpc).symm)
  show Call.Sound _ _ _ (Function.update s.pending i entry i) _
  rw [Function.update_self]
  exact hsound

/-- `Call` goes on and touches nothing. -/
theorem Inv.goTo (h : Inv decodeRet s) {pc pc' : CallPc V} (hpc : (s.calls i).pc = pc)
    (hsound : ({ s.calls i with pc := pc' } : Call V).Sound decodeRet i (s.pending i)
      (s.chans (s.calls i).ch))
    (hholds : ({ s.calls i with pc := pc' } : Call V).holds =
      ({ s.calls i with pc } : Call V).holds) : Inv decodeRet (s.goTo i pc') :=
  h.goOn rfl (fun _ _ => rfl) rfl rfl rfl hsound (hholds.trans (holds_at hpc).symm)

/-- A response is sent or received on the channel that call `i` holds. -/
theorem Inv.setChan (h : Inv decodeRet s) (c : Call V) {p : Ptr} (hp : (s.calls i).holds = some p)
    (hch : c.ch = p) (hholds : c.holds = some p) {chan : Option (ResponseMsg V)}
    (hsound : c.Sound decodeRet i (s.pending i) chan) :
    Inv decodeRet ((s.setChan p chan).setCall i c) := by
  have hchans : ∀ q, q ≠ p → (Function.update s.chans p chan) q = s.chans q := fun q hq =>
    Function.update_of_ne hq _ _
  refine h.move rfl (fun _ _ => rfl) ?_ ?_ (fun q hq => ?_) (fun q hq => ?_) fun q hq => ?_
  · show Call.Sound _ _ _ _ (Function.update s.chans p chan c.ch)
    rw [hch, Function.update_self]
    exact hsound
  · show Pool.Sound s.pool s.next _
    rw [hholds, ← hp, Function.update_eq_self]
    exact h.pool
  · exact hchans q fun heq => hq (heq ▸ hp)
  · refine (hchans q ?_).trans (h.pooled q hq)
    intro heq
    subst heq
    exact h.pool.owned_free i _ hp hq
  · refine (hchans q ?_).trans (h.unused q hq)
    intro heq
    subst heq
    exact absurd (h.pool.owned_lt i _ hp) (Nat.not_lt.mpr hq)

/-! ## One step -/

/-- The call gets an empty channel. -/
theorem Inv.get (h : Inv decodeRet s) (hpc : (s.calls i).pc = .idle)
    {choice : Option Ptr} {p next : Ptr} {pool : List Ptr} (ret : V)
    (hget : Pool.get s.pool s.next choice = some (p, pool, next)) :
    Inv decodeRet ({ s with pool, next }.setCall i { pc := .got, ch := p, ret }) := by
  obtain ⟨-, -, hnext, hsub, -⟩ := h.pool.get_fresh hget
  exact h.move rfl (fun _ _ => rfl) ⟨(h.sound_at hpc).1, rfl, h.chan_of_get hget⟩
    (h.pool.get hget i) (fun _ _ => rfl) (fun q hq => h.pooled q (hsub.subset hq))
    fun q hq => h.unused q (hnext.trans hq)

/-- From here on a response may take the entry. -/
theorem Inv.accept (h : Inv decodeRet s) (hpc : (s.calls i).pc = .requesting) :
    Inv decodeRet (s.goTo i .accepted) := by
  obtain ⟨hentry, hsender, hchan⟩ := h.sound_at hpc
  refine h.goTo hpc ?_ rfl
  show Stage i _ (s.pending i) (s.calls i).sender (s.chans _)
  rw [hentry, hsender, hchan]
  exact .pending

theorem Inv.receive (h : Inv decodeRet s) (hpc : (s.calls i).pc = .waiting)
    {resp : ResponseMsg V} (hchan : s.chans (s.calls i).ch = some resp) :
    Inv decodeRet ((s.setChan (s.calls i).ch none).goTo i (.received resp)) := by
  have hstage : Stage i (s.calls i).ch (s.pending i) (s.calls i).sender
      (s.chans (s.calls i).ch) := h.sound_at hpc
  have hholds : (s.calls i).holds = some (s.calls i).ch := holds_at hpc
  refine h.setChan { s.calls i with pc := .received resp } hholds rfl rfl ?_
  -- a response is there, so the sender is done
  rw [hchan] at hstage
  generalize hentry : s.pending i = entry at hstage
  generalize hsender : (s.calls i).sender = sender at hstage
  cases hstage with
  | sent hseq => exact ⟨hseq, rfl, hsender, rfl⟩

theorem Inv.cancelDelete (h : Inv decodeRet s) {err : GoError}
    (hpc : (s.calls i).pc = .cancelled err) {p : Ptr} (hentry : s.pending i = some p) :
    Inv decodeRet ((s.setPending i none).goTo i (.won err)) := by
  have hstage : Stage i (s.calls i).ch (s.pending i) (s.calls i).sender
      (s.chans (s.calls i).ch) := h.sound_at hpc
  refine h.setPending hpc ?_ rfl
  -- the entry is there, so nobody sends
  rw [hentry] at hstage
  show none = none ∧ (s.calls i).sender = .none ∧ s.chans (s.calls i).ch = none
  generalize hsender : (s.calls i).sender = sender at hstage
  generalize hchan : s.chans (s.calls i).ch = chan at hstage
  cases hstage with
  | pending => exact ⟨rfl, rfl, rfl⟩

/-- A call that received its response puts the channel back. -/
theorem Inv.putReceived (h : Inv decodeRet s) {resp : ResponseMsg V}
    (hpc : (s.calls i).pc = .received resp) :
    Inv decodeRet (s.putChan i (some resp) (answer decodeRet (s.calls i).ret resp)) := by
  obtain ⟨hseq, hentry, hsender, hchan⟩ := h.sound_at hpc
  refine h.putChan (holds_at hpc) hchan hentry (.inr hsender) ?_
  intro r hr
  exact Option.some_inj.mp hr ▸ ⟨hseq, rfl⟩

/-- A call that removed its entry puts the channel back. -/
theorem Inv.putRemoved (h : Inv decodeRet s) {err : GoError}
    (hpc : (s.calls i).pc = .won err ∨ (s.calls i).pc = .deleted err)
    (result : V × Option Error) : Inv decodeRet (s.putChan i none result) := by
  have hsound : s.pending i = none ∧ (s.calls i).sender = .none ∧
      s.chans (s.calls i).ch = none := by
    rcases hpc with hpc | hpc
    · exact h.sound_at hpc
    · exact h.sound_at hpc
  have hholds : (s.calls i).holds = some (s.calls i).ch := by
    rcases hpc with hpc | hpc
    · exact holds_at hpc
    · exact holds_at hpc
  refine h.putChan hholds hsound.2.2 hsound.1 (.inl hsound.2.1) ?_
  exact fun r hr => absurd hr.symm (Option.some_ne_none r)

theorem Inv.onMessage (h : Inv decodeRet s) {resp : ResponseMsg V} {v : Ptr}
    (hentry : s.pending resp.seq = some v)
    (hans : (s.calls resp.seq).pc.answerable = true) :
    Inv decodeRet ((s.setPending resp.seq none).setCall resp.seq
      { s.calls resp.seq with sender := .taken v resp }) := by
  refine h.goOn rfl (fun j hj => Function.update_of_ne hj _ _) rfl rfl rfl ?_ rfl
  show Call.Sound _ _ _ (Function.update s.pending resp.seq none resp.seq) _
  rw [Function.update_self]
  exact (hentry ▸ h.calls resp.seq).take hans rfl

theorem Inv.send (h : Inv decodeRet s) {v : Ptr} {resp : ResponseMsg V}
    (hsender : (s.calls i).sender = .taken v resp) :
    Inv decodeRet ((s.setChan v (some resp)).setCall i
      { s.calls i with sender := .sent }) := by
  obtain ⟨hch, hholds, -, hsent⟩ := (h.calls i).of_taken hsender
  exact h.setChan { s.calls i with sender := .sent } hholds hch hholds hsent

/-- One step keeps the invariant: what is not above only moves the call on
between positions that ask for the same. -/
theorem Inv.step (h : Inv decodeRet s) {e : Event V}
    (hstep : SyncCall.step decodeRet s e = some t) : Inv decodeRet t := by
  have hstuck : ∀ {p : Prop}, (none : Option (State V)) = some t → p := fun hnone =>
    absurd hnone.symm (Option.some_ne_none t)
  unfold SyncCall.step at hstep
  cases e with
  | get i ret choice =>
    dsimp only at hstep
    split at hstep
    · rename_i hpc
      obtain ⟨⟨p, pool, next⟩, hget, rfl⟩ := Option.map_eq_some_iff.mp hstep
      exact h.get hpc ret hget
    · exact hstuck hstep
  | store i =>
    dsimp only at hstep
    split at hstep
    · rename_i hpc
      obtain rfl := Option.some_inj.mp hstep
      exact h.setPending hpc ⟨rfl, (h.sound_at hpc).2⟩ rfl
    · exact hstuck hstep
  | request i =>
    dsimp only at hstep
    split at hstep
    · rename_i hpc
      obtain rfl := Option.some_inj.mp hstep
      have hold := h.sound_at hpc
      exact h.goTo hpc hold rfl
    · exact hstuck hstep
  | accept i =>
    dsimp only at hstep
    split at hstep
    · rename_i hpc
      obtain rfl := Option.some_inj.mp hstep
      exact h.accept hpc
    · exact hstuck hstep
  | requestReturn i res =>
    dsimp only at hstep
    split at hstep
    · rename_i hpc
      obtain rfl := Option.some_inj.mp hstep
      have hold := h.sound_at hpc
      exact h.goTo hpc hold rfl
    · rename_i hpc
      obtain rfl := Option.some_inj.mp hstep
      have hold := h.sound_at hpc
      exact h.goTo hpc hold rfl
    · rename_i hpc
      obtain rfl := Option.some_inj.mp hstep
      have hold := h.sound_at hpc
      exact h.goTo hpc hold rfl
    · exact hstuck hstep
  | receive i =>
    dsimp only at hstep
    split at hstep
    · rename_i hpc hchan
      obtain rfl := Option.some_inj.mp hstep
      exact h.receive hpc hchan
    · exact hstuck hstep
  | cancel i err =>
    dsimp only at hstep
    split at hstep
    · rename_i hpc
      obtain rfl := Option.some_inj.mp hstep
      have hold := h.sound_at hpc
      exact h.goTo hpc hold rfl
    · exact hstuck hstep
  | cancelDelete i =>
    dsimp only at hstep
    split at hstep
    · rename_i hpc hentry
      obtain rfl := Option.some_inj.mp hstep
      exact h.cancelDelete hpc hentry
    · rename_i hpc hentry
      obtain rfl := Option.some_inj.mp hstep
      exact h.goTo hpc ⟨hentry, h.sound_at hpc⟩ rfl
    · exact hstuck hstep
  | retry i done =>
    dsimp only at hstep
    split at hstep
    · rename_i hpc
      obtain rfl := Option.some_inj.mp hstep
      have hold := h.sound_at hpc
      exact h.goTo hpc hold rfl
    · rename_i hpc
      obtain rfl := Option.some_inj.mp hstep
      have hold := h.sound_at hpc
      exact h.goTo hpc hold rfl
    · exact hstuck hstep
  | errDelete i =>
    dsimp only at hstep
    split at hstep
    · rename_i hpc
      obtain rfl := Option.some_inj.mp hstep
      exact h.setPending hpc ⟨rfl, (h.sound_at hpc).2⟩ rfl
    · exact hstuck hstep
  | put i =>
    dsimp only at hstep
    split at hstep
    · rename_i hpc
      obtain rfl := Option.some_inj.mp hstep
      exact h.putReceived hpc
    · rename_i hpc
      obtain rfl := Option.some_inj.mp hstep
      exact h.putRemoved (.inl hpc) _
    · rename_i hpc
      obtain rfl := Option.some_inj.mp hstep
      exact h.putRemoved (.inr hpc) _
    · exact hstuck hstep
  | onMessage resp =>
    dsimp only at hstep
    split at hstep
    · obtain rfl := Option.some_inj.mp hstep
      exact h
    · rename_i hentry
      split_ifs at hstep with hans
      obtain rfl := Option.some_inj.mp hstep
      exact h.onMessage hentry hans
  | send i =>
    dsimp only at hstep
    split at hstep
    · rename_i hsender
      split_ifs at hstep with hchan
      obtain rfl := Option.some_inj.mp hstep
      exact h.send hsender
    · exact hstuck hstep

theorem Inv.of_reach {ret : V}
    (h : Reachable (SyncCall.step decodeRet) (.initial ret) s) : Inv decodeRet s :=
  h.invariant (Inv.initial ret) fun _ _ _ _ hinv _ hstep => hinv.step hstep

/-! ## The result -/

/-- Every pooled channel is empty, no send in `OnMessage` waits, and a call
that returns a response returns its own. -/
theorem sync_calls_isolated {ret : V}
    (hs : Reachable (step decodeRet) (.initial ret) s) :
    (∀ p ∈ s.pool, s.chans p = none) ∧
      (∀ i v resp, (s.calls i).sender = .taken v resp →
        ∃ t, step decodeRet s (.send i) = some t) ∧
      ∀ i resp result, (s.calls i).pc = .returned (some resp) result →
        resp.seq = i ∧ result = answer decodeRet (s.calls i).ret resp := by
  have hinv : Inv decodeRet s := Inv.of_reach hs
  refine ⟨hinv.pooled, fun i v resp hsender => ?_, fun i resp result hpc => ?_⟩
  · obtain ⟨hch, -, hempty, -⟩ := (hinv.calls i).of_taken hsender
    rw [hch] at hempty
    simp [step, hsender, hempty]
  · exact (hinv.sound_at hpc).1 resp rfl

/-- The caller of `i` until it waits. -/
def upToWait (i : UInt64) (choice : Option Ptr) : List (Event Unit) :=
  [.get i () choice, .store i, .request i, .accept i, .requestReturn i .sent]

/-- The response to call 1 comes between its cancellation and its delete.
Call 2 gets another channel, and its response comes twice. -/
def cancelledAndAnswered : List (Event Unit) :=
  upToWait 1 none ++
    [.cancel 1 .canceled, .onMessage { seq := 1 }, .cancelDelete 1] ++
    upToWait 2 none ++
    [.onMessage { seq := 2 }, .send 2, .send 1, .onMessage { seq := 2 }, .receive 2, .put 2]

/-- Call 2 returns its own response.  Its channel is empty in the pool, and
the abandoned one of call 1 is full and not in the pool. -/
theorem sync_calls_isolated_cancelled :
    ∃ s, Reachable (step fun r _ => (r, none)) (State.initial ()) s ∧ s.pool = [1] ∧
      (s.chans 0).map ResponseMsg.seq = some 1 ∧ (∀ p ∈ s.pool, s.chans p = none) := by
  have hrun : (run (step fun r _ => (r, none)) (State.initial ()) cancelledAndAnswered).map
      (fun s => (s.pool, (s.chans 0).map ResponseMsg.seq)) = some ([1], some 1) := by
    decide +kernel
  obtain ⟨s, hs, hfacts⟩ := Option.map_eq_some_iff.mp hrun
  obtain ⟨hpool, hchan⟩ := Prod.mk.inj hfacts
  have hreach := Reach.of_run hs
  exact ⟨s, hreach, hpool, hchan, (sync_calls_isolated hreach).1⟩

end ClusterGo.Rpc.SyncCall
