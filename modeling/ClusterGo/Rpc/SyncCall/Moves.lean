import ClusterGo.Rpc.SyncCall.Basic

/-!
# How a synchronous call moves

A step of the client changes one call, the one that `Event.call` names.
Apart from the step that starts the call, `Moves` lists the positions it can
go to.  So a call whose request was accepted never goes back behind that
point, and a call that was not started stays idle.

`Holds` says that a response is somewhere in the client: with `OnMessage`,
in a channel, or with the caller.  Only `OnMessage` brings a new one in.
-/

namespace ClusterGo.Rpc.SyncCall

variable {V : Type} {decodeRet : V → ResponseMsg V → V × Option Bytes} {s t : State V}
  {e : Event V}

/-- The call that an event is about. -/
def Event.call : Event V → UInt64
  | .get i _ _ | .store i | .request i | .accept i | .requestReturn i _ | .receive i
  | .cancel i _ | .cancelDelete i | .retry i _ | .errDelete i | .put i | .send i => i
  | .onMessage resp => resp.seq

/-- The event starts a call. -/
def Event.starts : Event V → Bool
  | .get .. => true
  | _ => false

/-- An event of the client alone.  In the other three the rest of the system
takes part: a call starts, its request is accepted, a response comes in. -/
def Event.internal : Event V → Bool
  | .get .. | .accept _ | .onMessage _ => false
  | _ => true

/-- The positions that a call goes to from its own, once it has started. -/
inductive Moves : CallPc V → CallPc V → Prop where
  | stay {pc : CallPc V} : Moves pc pc
  | store : Moves .got .ready
  | request : Moves .ready .requesting
  | accept : Moves .requesting .accepted
  | retryable : Moves .requesting .retrying
  | refused {err : GoError} : Moves .requesting (.failed err)
  | requested : Moves .accepted .waiting
  | receive {resp : ResponseMsg V} : Moves .waiting (.received resp)
  | cancel {err : GoError} : Moves .waiting (.cancelled err)
  | win {err : GoError} : Moves (.cancelled err) (.won err)
  | abandon {err : GoError} {result : V × Option Error} :
      Moves (.cancelled err) (.abandoned result)
  | retry : Moves .retrying .ready
  | giveUp {err : GoError} : Moves .retrying (.failed err)
  | delete {err : GoError} : Moves (.failed err) (.deleted err)
  | answer {resp : ResponseMsg V} {result : V × Option Error} :
      Moves (.received resp) (.returned (some resp) result)
  | fail {err : GoError} {result : V × Option Error} :
      Moves (.won err) (.returned none result)
  | failDeleted {err : GoError} {result : V × Option Error} :
      Moves (.deleted err) (.returned none result)

theorem Moves.answerable {pc pc' : CallPc V} (h : Moves pc pc') (hans : pc.answerable = true) :
    pc'.answerable = true := by
  cases h <;> first | exact hans | rfl

theorem Moves.idle {pc : CallPc V} (h : Moves .idle pc) : pc = .idle := by
  cases h
  rfl

/-- Call `i` is at `c` now, and the others are where they were. -/
theorem moved_of_update {i : UInt64} {c : Call V}
    (hcalls : t.calls = Function.update s.calls i c) (hmoves : Moves (s.calls i).pc c.pc) :
    (∀ j, j ≠ i → t.calls j = s.calls j) ∧ Moves (s.calls i).pc (t.calls i).pc := by
  rw [hcalls, Function.update_self]
  exact ⟨fun j hj => Function.update_of_ne hj _ _, hmoves⟩

/-- A call starts. -/
theorem calls_of_get {i : UInt64} {ret : V} {choice : Option Ptr}
    (h : step decodeRet s (.get i ret choice) = some t) :
    (s.calls i).pc = .idle ∧ ∃ ch, t.calls = Function.update s.calls i { pc := .got, ch, ret } := by
  simp only [step] at h
  split at h
  · rename_i hpc
    obtain ⟨⟨p, pool, next⟩, _, rfl⟩ := Option.map_eq_some_iff.mp h
    exact ⟨hpc, p, rfl⟩
  · cases h

/-- The request of a call is accepted. -/
theorem pc_of_accept {i : UInt64} (h : step decodeRet s (.accept i) = some t) :
    (s.calls i).pc = .requesting ∧ (t.calls i).pc = .accepted := by
  simp only [step] at h
  split at h
  · rename_i hpc
    rw [← Option.some.inj h]
    refine ⟨hpc, ?_⟩
    show (Function.update s.calls i _ i).pc = _
    rw [Function.update_self]
  · cases h

/-- A response to a call that was accepted can always be taken. -/
theorem exists_onMessage (decodeRet : V → ResponseMsg V → V × Option Bytes)
    {resp : ResponseMsg V} (h : (s.calls resp.seq).pc.answerable = true) :
    ∃ t, step decodeRet s (.onMessage resp) = some t := by
  simp only [step]
  split
  · exact ⟨s, rfl⟩
  · rw [if_pos h]
    exact ⟨_, rfl⟩

/-- Every other step changes one call, and moves it. -/
theorem calls_of_step (h : step decodeRet s e = some t) (hstarts : e.starts = false) :
    (∀ j, j ≠ e.call → t.calls j = s.calls j) ∧
      Moves (s.calls e.call).pc (t.calls e.call).pc := by
  unfold step at h
  cases e with
  | get i ret choice => cases hstarts
  | store i =>
    dsimp only at h
    split at h
    · rename_i hpc
      cases h
      exact moved_of_update rfl (hpc ▸ .store)
    · cases h
  | request i =>
    dsimp only at h
    split at h
    · rename_i hpc
      cases h
      exact moved_of_update rfl (hpc ▸ .request)
    · cases h
  | accept i =>
    dsimp only at h
    split at h
    · rename_i hpc
      cases h
      exact moved_of_update rfl (hpc ▸ .accept)
    · cases h
  | requestReturn i res =>
    dsimp only at h
    split at h
    · rename_i hpc
      cases h
      exact moved_of_update rfl (hpc ▸ .requested)
    · rename_i hpc
      cases h
      exact moved_of_update rfl (hpc ▸ .retryable)
    · rename_i hpc
      cases h
      exact moved_of_update rfl (hpc ▸ .refused)
    · cases h
  | receive i =>
    dsimp only at h
    split at h
    · rename_i hpc _
      cases h
      exact moved_of_update rfl (hpc ▸ .receive)
    · cases h
  | cancel i err =>
    dsimp only at h
    split at h
    · rename_i hpc
      cases h
      exact moved_of_update rfl (hpc ▸ .cancel)
    · cases h
  | cancelDelete i =>
    dsimp only at h
    split at h
    · rename_i hpc _
      cases h
      exact moved_of_update rfl (hpc ▸ .win)
    · rename_i hpc _
      cases h
      exact moved_of_update rfl (hpc ▸ .abandon)
    · cases h
  | retry i done =>
    dsimp only at h
    split at h
    · rename_i hpc
      cases h
      exact moved_of_update rfl (hpc ▸ .retry)
    · rename_i hpc
      cases h
      exact moved_of_update rfl (hpc ▸ .giveUp)
    · cases h
  | errDelete i =>
    dsimp only at h
    split at h
    · rename_i hpc
      cases h
      exact moved_of_update rfl (hpc ▸ .delete)
    · cases h
  | put i =>
    dsimp only at h
    split at h
    · rename_i hpc
      cases h
      exact moved_of_update rfl (hpc ▸ .answer)
    · rename_i hpc
      cases h
      exact moved_of_update rfl (hpc ▸ .fail)
    · rename_i hpc
      cases h
      exact moved_of_update rfl (hpc ▸ .failDeleted)
    · cases h
  | onMessage resp =>
    dsimp only at h
    split at h
    · cases h
      exact ⟨fun _ _ => rfl, .stay⟩
    · split_ifs at h
      cases h
      exact moved_of_update rfl .stay
  | send i =>
    dsimp only at h
    split at h
    · split_ifs at h
      cases h
      exact moved_of_update rfl .stay
    · cases h

section

variable (h : step decodeRet s e = some t) (hstarts : e.starts = false) {i : UInt64}

include h hstarts

/-- A call that is answerable stays so. -/
theorem answerable_of_step (hans : (s.calls i).pc.answerable = true) :
    (t.calls i).pc.answerable = true := by
  obtain ⟨hother, hmoves⟩ := calls_of_step h hstarts
  by_cases hi : i = e.call
  · subst hi
    exact hmoves.answerable hans
  · rw [hother i hi]
    exact hans

/-- A call that was not started stays idle. -/
theorem idle_of_step (hidle : (s.calls i).pc = .idle) : (t.calls i).pc = .idle := by
  obtain ⟨hother, hmoves⟩ := calls_of_step h hstarts
  by_cases hi : i = e.call
  · subst hi
    rw [hidle] at hmoves
    exact hmoves.idle
  · rw [hother i hi]
    exact hidle

end

/-! ## Where the responses are -/

/-- A call, or `OnMessage` on its behalf, has the response. -/
def Call.Has (c : Call V) (r : ResponseMsg V) : Prop :=
  (∃ v, c.sender = .taken v r) ∨ c.pc = .received r ∨ ∃ result, c.pc = .returned (some r) result

/-- The response is somewhere in the client. -/
def Holds (s : State V) (r : ResponseMsg V) : Prop :=
  (∃ i, (s.calls i).Has r) ∨ ∃ p, s.chans p = some r

theorem not_holds_initial (ret : V) (r : ResponseMsg V) : ¬ Holds (.initial ret) r := by
  intro hr
  rcases hr with ⟨i, ⟨v, hsender⟩ | hpc | ⟨result, hpc⟩⟩ | ⟨p, hp⟩
  · cases hsender
  · cases hpc
  · cases hpc
  · cases hp

/-- Neither a received nor a returned response. -/
def CallPc.bare : CallPc V → Bool
  | .received _ | .returned (some _) _ => false
  | _ => true

theorem Call.Has.of_bare {c : Call V} {pc : CallPc V} {r : ResponseMsg V}
    (h : ({ c with pc } : Call V).Has r) (hbare : pc.bare = true) : c.Has r := by
  rcases h with hsender | hpc | ⟨result, hpc⟩
  · exact Or.inl hsender
  · have hpc : pc = .received r := hpc
    rw [hpc] at hbare
    cases hbare
  · have hpc : pc = .returned (some r) result := hpc
    rw [hpc] at hbare
    cases hbare

/-- What a step brings in comes with the call that it moves or with a
channel. -/
theorem holds_of_update {i : UInt64} {c : Call V} {r : ResponseMsg V} {Q : Prop}
    (h : Holds t r) (hcalls : t.calls = Function.update s.calls i c) (hc : c.Has r → Q)
    (hchans : (∃ p, t.chans p = some r) → Q) (hold : (∃ j, (s.calls j).Has r) → Q) : Q := by
  rcases h with ⟨j, hj⟩ | hchan
  · rw [hcalls] at hj
    by_cases hji : j = i
    · rw [hji, Function.update_self] at hj
      exact hc hj
    · rw [Function.update_of_ne hji] at hj
      exact hold ⟨j, hj⟩
  · exact hchans hchan

/-- A step that moves a call to a position without a response. -/
theorem holds_goTo {i : UInt64} {pc : CallPc V} {r : ResponseMsg V} (u : State V)
    (hcalls : u.calls = s.calls) (hchans : u.chans = s.chans) (hbare : pc.bare = true)
    (h : Holds (u.goTo i pc) r) : Holds s r := by
  refine holds_of_update (s := s) (i := i) (c := { s.calls i with pc }) h ?_
    (fun hc => Or.inl ⟨i, hc.of_bare hbare⟩) (fun hp => Or.inr (hchans ▸ hp)) Or.inl
  show Function.update u.calls i { u.calls i with pc } = _
  rw [hcalls]

/-- Only `OnMessage` brings in a response. -/
theorem holds_of_step (h : step decodeRet s e = some t) {r : ResponseMsg V} (hr : Holds t r) :
    Holds s r ∨ e = .onMessage r := by
  unfold step at h
  cases e with
  | get i ret choice =>
    dsimp only at h
    split at h
    · obtain ⟨⟨p, pool, next⟩, _, rfl⟩ := Option.map_eq_some_iff.mp h
      refine Or.inl (holds_of_update (s := s) hr rfl ?_ Or.inr Or.inl)
      intro hnew
      rcases hnew with ⟨v, hsender⟩ | hpc | ⟨result, hpc⟩
      · cases hsender
      · cases hpc
      · cases hpc
    · cases h
  | store i | request i | accept i | cancel i err | errDelete i =>
    dsimp only at h
    split at h
    · cases h
      exact Or.inl (holds_goTo _ rfl rfl rfl hr)
    · cases h
  | requestReturn i res =>
    dsimp only at h
    split at h
    · cases h
      exact Or.inl (holds_goTo _ rfl rfl rfl hr)
    · cases h
      exact Or.inl (holds_goTo _ rfl rfl rfl hr)
    · cases h
      exact Or.inl (holds_goTo _ rfl rfl rfl hr)
    · cases h
  | receive i =>
    dsimp only at h
    split at h
    · rename_i resp hpc hchan
      cases h
      refine Or.inl (holds_of_update (s := s) hr rfl ?_ ?_ Or.inl)
      · -- the response that the caller has now was in its channel
        intro hnew
        rcases hnew with ⟨v, hsender⟩ | heq | ⟨result, heq⟩
        · exact Or.inl ⟨i, Or.inl ⟨v, hsender⟩⟩
        · cases heq
          exact Or.inr ⟨_, hchan⟩
        · cases heq
      · intro hp
        obtain ⟨p, hp⟩ := hp
        change Function.update s.chans (s.calls i).ch none p = some r at hp
        by_cases hch : p = (s.calls i).ch
        · rw [hch, Function.update_self] at hp
          cases hp
        · rw [Function.update_of_ne hch] at hp
          exact Or.inr ⟨p, hp⟩
    · cases h
  | cancelDelete i | retry i done =>
    dsimp only at h
    split at h
    · cases h
      exact Or.inl (holds_goTo _ rfl rfl rfl hr)
    · cases h
      exact Or.inl (holds_goTo _ rfl rfl rfl hr)
    · cases h
  | put i =>
    dsimp only at h
    split at h
    · rename_i resp hpc
      cases h
      refine Or.inl (holds_of_update (s := s) hr rfl ?_ Or.inr Or.inl)
      intro hnew
      rcases hnew with ⟨v, hsender⟩ | heq | ⟨result, heq⟩
      · exact Or.inl ⟨i, Or.inl ⟨v, hsender⟩⟩
      · cases heq
      · cases heq
        exact Or.inl ⟨i, Or.inr (Or.inl hpc)⟩
    · cases h
      exact Or.inl (holds_goTo _ rfl rfl rfl hr)
    · cases h
      exact Or.inl (holds_goTo _ rfl rfl rfl hr)
    · cases h
  | onMessage resp =>
    dsimp only at h
    split at h
    · cases h
      exact Or.inl hr
    · split_ifs at h
      cases h
      refine holds_of_update (s := s) hr rfl ?_ (fun hp => Or.inl (Or.inr hp))
        fun hold => Or.inl (Or.inl hold)
      intro hnew
      rcases hnew with ⟨v, hsender⟩ | hpc | ⟨result, hpc⟩
      · cases hsender
        exact Or.inr rfl
      · exact Or.inl (Or.inl ⟨_, Or.inr (Or.inl hpc)⟩)
      · exact Or.inl (Or.inl ⟨_, Or.inr (Or.inr ⟨result, hpc⟩)⟩)
  | send i =>
    dsimp only at h
    split at h
    · rename_i v resp hsender
      split_ifs at h
      cases h
      refine Or.inl (holds_of_update (s := s) hr rfl ?_ ?_ Or.inl)
      · intro hnew
        rcases hnew with ⟨v, hsent⟩ | hpc | ⟨result, hpc⟩
        · cases hsent
        · exact Or.inl ⟨i, Or.inr (Or.inl hpc)⟩
        · exact Or.inl ⟨i, Or.inr (Or.inr ⟨result, hpc⟩)⟩
      · -- what is in the channel now was with `OnMessage`
        intro hp
        obtain ⟨p, hp⟩ := hp
        change Function.update s.chans v (some resp) p = some r at hp
        by_cases hch : p = v
        · rw [hch, Function.update_self] at hp
          cases hp
          exact Or.inl ⟨i, Or.inl ⟨v, hsender⟩⟩
        · rw [Function.update_of_ne hch] at hp
          exact Or.inr ⟨p, hp⟩
    · cases h

end ClusterGo.Rpc.SyncCall
