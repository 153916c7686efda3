import Mathlib.Data.Option.Basic

/-!
# Partial transition systems

A component that takes step after step is a function
`step : σ → ε → Option σ`.  The event `ε` names the atomic action that the
environment schedules, and `none` says that the action is not enabled in
this state.

Two views of a run are used by the clients.

* `run` executes a list of events.  It is a function, so a concrete
  schedule is checked by evaluation.
* `Reach step guard s₀ s` says that `s` is reached from `s₀` by a run
  whose steps all meet `guard`.  The guard is a condition on the state
  before the step and on the event.  `Reachable` is the case without a
  condition.

`Along step guard s es` says of one run that its steps meet the condition,
and `Always step P s es` that its states have a property, the last one
included.  `Matched` puts a run of one system beside a run of another.

`Reach.invariant` is the induction that every safety proof goes through,
`Matched.of_run` the one for two systems, and `Reach.of_run` and
`Reach.of_along` move from the first view to the second.
-/

namespace Transition

variable {σ ε : Type}

/-- The state after a list of events, or `none` when one of them was not
enabled. -/
def run (step : σ → ε → Option σ) : σ → List ε → Option σ
  | s, [] => some s
  | s, e :: es => (step s e).bind fun t => run step t es

/-- The states reached from `s₀` by runs whose steps all meet `guard`. -/
inductive Reach (step : σ → ε → Option σ) (guard : σ → ε → Prop) (s₀ : σ) :
    σ → Prop where
  | start : Reach step guard s₀ s₀
  | next {s t : σ} {e : ε} (hs : Reach step guard s₀ s) (hg : guard s e)
      (ht : step s e = some t) : Reach step guard s₀ t

/-- The states reached by any run. -/
abbrev Reachable (step : σ → ε → Option σ) (s₀ : σ) : σ → Prop :=
  Reach step (fun _ _ => True) s₀

/-- Every step of the run of a list of events meets `guard`. -/
def Along (step : σ → ε → Option σ) (guard : σ → ε → Prop) : σ → List ε → Prop
  | _, [] => True
  | s, e :: es => guard s e ∧ ∀ t, step s e = some t → Along step guard t es

/-- Every state of the run of a list of events has a property. -/
def Always (step : σ → ε → Option σ) (P : σ → Prop) : σ → List ε → Prop
  | s, [] => P s
  | s, e :: es => P s ∧ ∀ t, step s e = some t → Always step P t es

instance Always.decidable (step : σ → ε → Option σ) (P : σ → Prop) [DecidablePred P] :
    (s : σ) → (es : List ε) → Decidable (Always step P s es)
  | s, [] => inferInstanceAs (Decidable (P s))
  | s, e :: es =>
    have : ∀ t, Decidable (Always step P t es) := fun t => Always.decidable step P t es
    inferInstanceAs (Decidable (P s ∧ ∀ t ∈ step s e, Always step P t es))

/-- Two runs side by side.  Every step of the run of `es` is matched by a run of
the second system on the events that `image` gives for it, and before and
after it the states are related. -/
def Matched {τ δ : Type} (step : σ → ε → Option σ) (stepA : τ → δ → Option τ)
    (image : σ → ε → List δ) (R : σ → τ → Prop) : σ → τ → List ε → Prop
  | s, a, [] => R s a
  | s, a, e :: es => R s a ∧ ∃ t b, step s e = some t ∧ run stepA a (image s e) = some b ∧
      Matched step stepA image R t b es

variable {step : σ → ε → Option σ} {guard : σ → ε → Prop} {s₀ : σ}

@[simp] theorem run_nil (s : σ) : run step s [] = some s := rfl

/-- A run takes its first event and goes on from the state after it. -/
theorem run_cons {s t : σ} {e : ε} (h : step s e = some t) (es : List ε) :
    run step s (e :: es) = run step t es := by
  simp [run, h]

/-- A run of two lists is the run of the second from the end of the
first. -/
theorem run_append {s t : σ} {es : List ε} (h : run step s es = some t)
    (fs : List ε) : run step s (es ++ fs) = run step t fs := by
  induction es generalizing s with
  | nil =>
    rw [run_nil, Option.some_inj] at h
    rw [List.nil_append, h]
  | cons e es ih =>
    cases hstep : step s e with
    | none => simp [run, hstep] at h
    | some u =>
      rw [run_cons hstep] at h
      rw [List.cons_append, run_cons hstep]
      exact ih h

/-- A run of two lists that goes to its end passes the end of the first. -/
theorem exists_run_of_append {s t : σ} {es fs : List ε}
    (h : run step s (es ++ fs) = some t) :
    ∃ u, run step s es = some u ∧ run step u fs = some t := by
  induction es generalizing s with
  | nil => exact ⟨s, rfl, h⟩
  | cons e es ih =>
    obtain ⟨u, hstep, hrun⟩ := Option.bind_eq_some_iff.mp h
    obtain ⟨v, hes, hfs⟩ := ih hrun
    exact ⟨v, (run_cons hstep es).trans hes, hfs⟩

/-- A property that holds at the start and that every step keeps holds in
every state reached.  The step may use that its first state is reached. -/
theorem Reach.invariant {P : σ → Prop} (hstart : P s₀)
    (hstep : ∀ s e t, Reach step guard s₀ s → P s → guard s e →
      step s e = some t → P t) {s : σ} (h : Reach step guard s₀ s) : P s := by
  induction h with
  | start => exact hstart
  | next hs hg ht ih => exact hstep _ _ _ hs ih hg ht

/-- Runs can be put one after the other. -/
theorem Reach.trans {s t : σ} (hs : Reach step guard s₀ s) (ht : Reach step guard s t) :
    Reach step guard s₀ t := by
  induction ht with
  | start => exact hs
  | next _ hg hstep ih => exact .next ih hg hstep

/-- Forward simulation: when every step of one system is matched by a run of
another that keeps them related, so is every run. -/
theorem Matched.of_run {τ δ : Type} {stepA : τ → δ → Option τ} {image : σ → ε → List δ}
    {R : σ → τ → Prop}
    (hsim : ∀ s e t a, R s a → step s e = some t →
      ∃ b, Transition.run stepA a (image s e) = some b ∧ R t b)
    {s t : σ} {a : τ} {es : List ε} (hrun : Transition.run step s es = some t) (hstart : R s a) :
    Matched step stepA image R s a es := by
  induction es generalizing s a with
  | nil => exact hstart
  | cons e es ih =>
    obtain ⟨u, hstep, hrun⟩ := Option.bind_eq_some_iff.mp hrun
    obtain ⟨b, hb, hrel⟩ := hsim s e u a hstart hstep
    exact ⟨hstart, u, b, hstep, hb, ih hrun hrel⟩

/-- A run from a reached state ends in a reached state, when its events
meet the condition in any state. -/
theorem Reach.run {s t : σ} (hs : Reach step guard s₀ s) {es : List ε}
    (hguard : ∀ e ∈ es, ∀ u, guard u e) (h : run step s es = some t) :
    Reach step guard s₀ t := by
  induction es generalizing s with
  | nil =>
    rw [run_nil, Option.some_inj] at h
    exact h ▸ hs
  | cons e es ih =>
    rw [List.forall_mem_cons] at hguard
    cases hstep : step s e with
    | none => simp [Transition.run, hstep] at h
    | some u =>
      rw [run_cons hstep] at h
      exact ih (.next hs (hguard.1 s) hstep) hguard.2 h

/-- The end of a run is reached from its start. -/
theorem Reach.of_run {t : σ} {es : List ε} (h : Transition.run step s₀ es = some t) :
    Reachable step s₀ t :=
  Reach.run .start (fun _ _ _ => trivial) h

/-- The end of a run whose steps meet the condition is reached under it. -/
theorem Reach.of_along {s t : σ} (hs : Reach step guard s₀ s) {es : List ε}
    (halong : Along step guard s es) (h : Transition.run step s es = some t) :
    Reach step guard s₀ t := by
  induction es generalizing s with
  | nil =>
    rw [run_nil, Option.some_inj] at h
    exact h ▸ hs
  | cons e es ih =>
    cases hstep : step s e with
    | none => simp [Transition.run, hstep] at h
    | some u =>
      rw [run_cons hstep] at h
      exact ih (.next hs halong.1 hstep) (halong.2 u hstep) h

/-- A condition that follows from the condition of a run and an invariant of
its states is a condition of the run too. -/
theorem Along.imp {I : σ → Prop} {guard' : σ → ε → Prop} {s : σ} {es : List ε} (hs : I s)
    (hkeep : ∀ s e t, I s → guard s e → step s e = some t → I t)
    (himp : ∀ s e, I s → guard s e → guard' s e) (halong : Along step guard s es) :
    Along step guard' s es := by
  induction es generalizing s with
  | nil => exact trivial
  | cons e es ih =>
    refine ⟨himp s e hs halong.1, ?_⟩
    intro t hstep
    exact ih (hkeep s e t hs halong.1 hstep) (halong.2 t hstep)

/-- A condition on the events alone. -/
theorem Along.of_forall {s : σ} {es : List ε} (h : ∀ e ∈ es, ∀ s, guard s e) :
    Along step guard s es := by
  induction es generalizing s with
  | nil => exact trivial
  | cons e es ih =>
    rw [List.forall_mem_cons] at h
    exact ⟨h.1 s, fun _ _ => ih h.2⟩

/-- A run whose steps meet the condition goes to its end when the condition
enables a step from every state with the invariant. -/
theorem Along.exists_run {P : σ → Prop} {s : σ} {es : List ε} (hs : P s)
    (hstep : ∀ s e, P s → guard s e → ∃ t, step s e = some t ∧ P t)
    (halong : Along step guard s es) : ∃ t, Transition.run step s es = some t ∧ P t := by
  induction es generalizing s with
  | nil => exact ⟨s, rfl, hs⟩
  | cons e es ih =>
    obtain ⟨t, ht, hP⟩ := hstep s e hs halong.1
    rw [run_cons ht]
    exact ih hP (halong.2 t ht)

theorem Along.and {guard' : σ → ε → Prop} {s : σ} {es : List ε} (h : Along step guard s es)
    (h' : Along step guard' s es) : Along step (fun s e => guard s e ∧ guard' s e) s es := by
  induction es generalizing s with
  | nil => exact trivial
  | cons e es ih =>
    refine ⟨⟨h.1, h'.1⟩, ?_⟩
    intro t hstep
    exact ih (h.2 t hstep) (h'.2 t hstep)

/-- A property that the steps of a run keep under its condition holds in
every state of the run. -/
theorem Along.states {P : σ → Prop} {s t : σ} {es : List ε} (hs : P s)
    (hkeep : ∀ s e t, P s → guard s e → step s e = some t → P t)
    (halong : Along step guard s es) (hrun : Transition.run step s es = some t) :
    Along step (fun s _ => P s) s es ∧ P t := by
  induction es generalizing s with
  | nil =>
    rw [run_nil, Option.some_inj] at hrun
    exact ⟨trivial, hrun ▸ hs⟩
  | cons e es ih =>
    obtain ⟨u, hstep, hrun⟩ := Option.bind_eq_some_iff.mp hrun
    obtain ⟨hrest, hend⟩ := ih (hkeep s e u hs halong.1 hstep) (halong.2 u hstep) hrun
    refine ⟨⟨hs, ?_⟩, hend⟩
    intro u' hstep'
    rw [hstep, Option.some_inj] at hstep'
    exact hstep' ▸ hrest

/-- Conversely, when every step of a run into a state with the property
meets the condition, then so does the run.  The steps may use an
invariant. -/
theorem Along.of_states {I P : σ → Prop} {s t : σ} {es : List ε} (hs : I s)
    (hkeep : ∀ s e t, I s → step s e = some t → I t)
    (hguard : ∀ s e t, I s → step s e = some t → P t → guard s e)
    (hstates : Along step (fun s _ => P s) s es) (hrun : Transition.run step s es = some t)
    (hend : P t) : Along step guard s es := by
  induction es generalizing s with
  | nil => exact trivial
  | cons e es ih =>
    obtain ⟨u, hstep, hrun⟩ := Option.bind_eq_some_iff.mp hrun
    have hrest := hstates.2 u hstep
    -- The state after the step is the next one of the run, or its end.
    have hu : P u := by
      cases es with
      | nil =>
        rw [run_nil, Option.some_inj] at hrun
        exact hrun ▸ hend
      | cons e' es => exact hrest.1
    refine ⟨hguard s e u hs hstep hu, ?_⟩
    intro u' hstep'
    rw [hstep, Option.some_inj] at hstep'
    exact hstep' ▸ ih (hkeep s e u hs hstep) hrest hrun

/-- A property that no step brings about, and that the end of a run has,
holds in every state of the run. -/
theorem Along.of_end {I P : σ → Prop} {s t : σ} {es : List ε} (hs : I s)
    (hkeep : ∀ s e t, I s → step s e = some t → I t)
    (hback : ∀ s e t, I s → step s e = some t → P t → P s)
    (hrun : Transition.run step s es = some t) (hend : P t) :
    Along step (fun s _ => P s) s es ∧ P s := by
  induction es generalizing s with
  | nil =>
    rw [run_nil, Option.some_inj] at hrun
    exact ⟨trivial, hrun ▸ hend⟩
  | cons e es ih =>
    obtain ⟨u, hstep, hrun⟩ := Option.bind_eq_some_iff.mp hrun
    obtain ⟨hrest, hu⟩ := ih (hkeep s e u hs hstep) hrun
    have hfirst := hback s e u hs hstep hu
    refine ⟨⟨hfirst, ?_⟩, hfirst⟩
    intro u' hstep'
    rw [hstep, Option.some_inj] at hstep'
    exact hstep' ▸ hrest

/-- A property that follows from the property of a run and an invariant of its
states is a property of the run too. -/
theorem Always.imp {I P Q : σ → Prop} {s : σ} {es : List ε} (hs : I s)
    (hkeep : ∀ s e t, I s → P s → step s e = some t → I t)
    (himp : ∀ s, I s → P s → Q s) (h : Always step P s es) : Always step Q s es := by
  induction es generalizing s with
  | nil => exact himp s hs h
  | cons e es ih =>
    refine ⟨himp s hs h.1, ?_⟩
    intro t hstep
    exact ih (hkeep s e t hs h.1 hstep) (h.2 t hstep)

/-- The property of the states of a run is one of its end. -/
theorem Always.last {P : σ → Prop} {s t : σ} {es : List ε} (h : Always step P s es)
    (hrun : Transition.run step s es = some t) : P t := by
  induction es generalizing s with
  | nil =>
    rw [run_nil, Option.some_inj] at hrun
    exact hrun ▸ h
  | cons e es ih =>
    obtain ⟨u, hstep, hrun⟩ := Option.bind_eq_some_iff.mp hrun
    exact ih (h.2 u hstep) hrun

/-- A run that checks the condition before every step ends in a state that
is reached under it. -/
theorem Reach.of_guarded_run [∀ s e, Decidable (guard s e)] {t : σ} {es : List ε}
    (h : Transition.run (fun s e => if guard s e then step s e else none) s₀ es = some t) :
    Reach step guard s₀ t := by
  have hlift : ∀ {s : σ}, Reach step guard s₀ s →
      Transition.run (fun s e => if guard s e then step s e else none) s es = some t →
      Reach step guard s₀ t := by
    clear h
    induction es with
    | nil =>
      intro s hs h
      rw [run_nil, Option.some_inj] at h
      exact h ▸ hs
    | cons e es ih =>
      intro s hs h
      by_cases hg : guard s e
      · cases hstep : step s e with
        | none => simp [Transition.run, hg, hstep] at h
        | some u =>
          simp only [Transition.run, if_pos hg, hstep, Option.bind_some] at h
          exact ih (.next hs hg hstep) h
      · simp [Transition.run, hg] at h
  exact hlift .start h

end Transition
