import ClusterGo.Lib.Transition
import Mathlib.Tactic.SplitIfs

/-!
# The connection of the natsjet membership

`init`, `cleanupConn`, `Subscribe` and `close` of `membership/natsjet`.  Every
public method calls `init`, which holds `initMu`: without a connection it
connects, makes sure of the two buckets and binds the two handles, and when a
stage fails it takes everything back.  `Subscribe` goes on after `init` with
the first two reads and calls `cleanupConn` when one of them fails.  It does
so without `initMu`.

The connections are numbered, and a handle has the number of its connection.
`cleanupConn` is one event for each field that it clears, `close` is one
event.  `lock` is a call of `init` by `Subscribe` or by another method.  What
NATS answers comes with the events.

* `handles_belong_together`: as long as no `init` looks at `nc` while
  `Subscribe` takes its connection back, a node at rest has a connection with
  both handles on it or nothing at all, and no connection is lost.
* `failed_subscribe_is_silent`: after a `Subscribe` that failed, every later
  one returns no error and nothing is ever reported.

What the other methods do with the handles once `init` has returned is not
here.
-/

namespace ClusterGo.Natsjet.Connection

open Transition

/-- Where `cleanupConn` stands: the field that it clears next. -/
inductive Cleanup where
  | nc | js | membersKV | aliveKV
deriving DecidableEq, Repr

/-- Where the call that holds `initMu` stands. -/
inductive InitPc where
  | check
  | connect
  | jetStream (c : Nat)
  | membersBucket (c : Nat)
  | aliveBucket (c : Nat)
  | membersKV (c : Nat)
  | aliveKV (c : Nat)
  | cleanup (at' : Cleanup)
deriving DecidableEq, Repr

/-- Where `Subscribe` stands. -/
inductive SubPc where
  | idle
  | init
  | members
  | alives
  | cleanup (at' : Cleanup)
  | failed
  | watching
  | ended
deriving DecidableEq, Repr

structure State where
  nc : Option Nat := none
  js : Option Nat := none
  membersKV : Option Nat := none
  aliveKV : Option Nat := none
  /-- `initMu`, and whether `Subscribe` holds it. -/
  init : Option (Bool × InitPc) := none
  sub : SubPc := .idle
  closed : Bool := false
  dialed : Nat := 0
  hungUp : List Nat := []
  /-- How often the callback was called. -/
  reports : Nat := 0
  /-- Whether the calls of `Subscribe` returned an error, the last one first. -/
  subscribed : List Bool := []
deriving DecidableEq, Repr

inductive Event where
  | subscribe
  | lock (bySub : Bool)
  | check
  | connect (ok : Bool)
  | jetStream (ok : Bool)
  | ensureBucket (ok : Bool)
  | bind (ok : Bool)
  | cleanInit
  | getMembers (ok reports : Bool)
  | getAlives (ok reports : Bool)
  | cleanSub
  | watched (reports : Bool)
  | watchEnds
  | close
deriving DecidableEq, Repr

namespace State

/-- `init` returns. -/
def initReturns (s : State) (bySub ok : Bool) : State :=
  let s := { s with init := none }
  if bySub then
    if ok then { s with sub := .members }
    else { s with sub := .failed, subscribed := true :: s.subscribed }
  else s

/-- One assignment of `cleanupConn`, and the next one.  Without a connection it
goes to the handles at once. -/
def clean (s : State) : Cleanup → State × Option Cleanup
  | .nc =>
    match s.nc with
    | some c => ({ s with hungUp := c :: s.hungUp, nc := none }, some .js)
    | none => (s, some .membersKV)
  | .js => ({ s with js := none }, some .membersKV)
  | .membersKV => ({ s with membersKV := none }, some .aliveKV)
  | .aliveKV => ({ s with aliveKV := none }, none)

end State

def step (s : State) : Event → Option State
  | .subscribe =>
    if s.sub = .idle then some { s with sub := .init }
    else some { s with subscribed := false :: s.subscribed }
  | .lock bySub =>
    if s.init = none ∧ (bySub = true → s.sub = .init) then
      some { s with init := some (bySub, .check) }
    else none
  | .check =>
    match s.init with
    | some (b, .check) =>
      if s.nc = none then some { s with init := some (b, .connect) }
      else some (s.initReturns b true)
    | _ => none
  | .connect ok =>
    match s.init with
    | some (b, .connect) =>
      if ok then some { s with init := some (b, .jetStream s.dialed), dialed := s.dialed + 1 }
      else some (s.initReturns b false)
    | _ => none
  | .jetStream ok =>
    match s.init with
    | some (b, .jetStream c) =>
      if ok then some { s with nc := some c, js := some c, init := some (b, .membersBucket c) }
      else some ({ s with hungUp := c :: s.hungUp }.initReturns b false)
    | _ => none
  | .ensureBucket ok =>
    -- A nil `js` is a panic.
    if s.js = none then none
    else
      match s.init with
      | some (b, .membersBucket c) =>
        some { s with init := some (b, if ok then .aliveBucket c else .cleanup .nc) }
      | some (b, .aliveBucket c) =>
        some { s with init := some (b, if ok then .membersKV c else .cleanup .nc) }
      | _ => none
  | .bind ok =>
    match s.init with
    | some (b, .membersKV c) =>
      if ok then some { s with membersKV := some c, init := some (b, .aliveKV c) }
      else some { s with membersKV := none, init := some (b, .cleanup .nc) }
    | some (b, .aliveKV c) =>
      if ok then some ({ s with aliveKV := some c }.initReturns b true)
      else some { s with aliveKV := none, init := some (b, .cleanup .nc) }
    | _ => none
  | .cleanInit =>
    match s.init with
    | some (b, .cleanup k) =>
      match s.clean k with
      | (t, some k) => some { t with init := some (b, .cleanup k) }
      | (t, none) => some (t.initReturns b false)
    | _ => none
  | .getMembers ok reports =>
    -- A nil handle is a panic, here and below.
    if s.sub ≠ .members ∨ s.membersKV = none then none
    else if ok then some { s with sub := .alives, reports := s.reports + reports.toNat }
    else some { s with sub := .cleanup .nc }
  | .getAlives ok reports =>
    if s.sub ≠ .alives ∨ s.aliveKV = none then none
    else if ok then
      some { s with
        sub := .watching, reports := s.reports + reports.toNat
        subscribed := false :: s.subscribed }
    else some { s with sub := .cleanup .nc }
  | .cleanSub =>
    match s.sub with
    | .cleanup k =>
      match s.clean k with
      | (t, some k) => some { t with sub := .cleanup k }
      | (t, none) => some { t with sub := .failed, subscribed := true :: t.subscribed }
    | _ => none
  | .watched reports =>
    if s.sub = .watching then some { s with reports := s.reports + reports.toNat } else none
  | .watchEnds =>
    -- The context was cancelled, or a channel of updates was closed.
    if s.sub = .watching then some { s with sub := .ended } else none
  | .close =>
    if s.closed then some s
    else some { s with closed := true, hungUp := s.nc.toList ++ s.hungUp }

/-! ## What a step can do -/

inductive Acts (s : State) : Event → State → Prop where
  | subscribeFirst (hidle : s.sub = .idle) : Acts s .subscribe { s with sub := .init }
  | subscribeAgain (hidle : s.sub ≠ .idle) :
    Acts s .subscribe { s with subscribed := false :: s.subscribed }
  | locks {b : Bool} (hfree : s.init = none) (hsub : b = true → s.sub = .init) :
    Acts s (.lock b) { s with init := some (b, .check) }
  | checkNew {b : Bool} (hpc : s.init = some (b, .check)) (hnc : s.nc = none) :
    Acts s .check { s with init := some (b, .connect) }
  | checkOld {b : Bool} (hpc : s.init = some (b, .check)) (hnc : s.nc ≠ none) :
    Acts s .check (s.initReturns b true)
  | connects {b : Bool} (hpc : s.init = some (b, .connect)) :
    Acts s (.connect true)
      { s with init := some (b, .jetStream s.dialed), dialed := s.dialed + 1 }
  | notConnects {b : Bool} (hpc : s.init = some (b, .connect)) :
    Acts s (.connect false) (s.initReturns b false)
  | streams {b : Bool} {c : Nat} (hpc : s.init = some (b, .jetStream c)) :
    Acts s (.jetStream true)
      { s with nc := some c, js := some c, init := some (b, .membersBucket c) }
  | notStreams {b : Bool} {c : Nat} (hpc : s.init = some (b, .jetStream c)) :
    Acts s (.jetStream false) ({ s with hungUp := c :: s.hungUp }.initReturns b false)
  | membersBucket {b ok : Bool} {c : Nat} (hpc : s.init = some (b, .membersBucket c)) :
    Acts s (.ensureBucket ok)
      { s with init := some (b, if ok then .aliveBucket c else .cleanup .nc) }
  | aliveBucket {b ok : Bool} {c : Nat} (hpc : s.init = some (b, .aliveBucket c)) :
    Acts s (.ensureBucket ok)
      { s with init := some (b, if ok then .membersKV c else .cleanup .nc) }
  | bindMembers {b : Bool} {c : Nat} (hpc : s.init = some (b, .membersKV c)) :
    Acts s (.bind true) { s with membersKV := some c, init := some (b, .aliveKV c) }
  | notBindMembers {b : Bool} {c : Nat} (hpc : s.init = some (b, .membersKV c)) :
    Acts s (.bind false) { s with membersKV := none, init := some (b, .cleanup .nc) }
  | bindAlive {b : Bool} {c : Nat} (hpc : s.init = some (b, .aliveKV c)) :
    Acts s (.bind true) ({ s with aliveKV := some c }.initReturns b true)
  | notBindAlive {b : Bool} {c : Nat} (hpc : s.init = some (b, .aliveKV c)) :
    Acts s (.bind false) { s with aliveKV := none, init := some (b, .cleanup .nc) }
  | cleansInit {b : Bool} {k k' : Cleanup} {t : State} (hpc : s.init = some (b, .cleanup k))
    (hclean : s.clean k = (t, some k')) :
    Acts s .cleanInit { t with init := some (b, .cleanup k') }
  | cleanedInit {b : Bool} {k : Cleanup} {t : State} (hpc : s.init = some (b, .cleanup k))
    (hclean : s.clean k = (t, none)) : Acts s .cleanInit (t.initReturns b false)
  | members {r : Bool} (hsub : s.sub = .members) :
    Acts s (.getMembers true r) { s with sub := .alives, reports := s.reports + r.toNat }
  | notMembers {r : Bool} (hsub : s.sub = .members) :
    Acts s (.getMembers false r) { s with sub := .cleanup .nc }
  | alives {r : Bool} (hsub : s.sub = .alives) :
    Acts s (.getAlives true r)
      { s with
        sub := .watching, reports := s.reports + r.toNat, subscribed := false :: s.subscribed }
  | notAlives {r : Bool} (hsub : s.sub = .alives) :
    Acts s (.getAlives false r) { s with sub := .cleanup .nc }
  | cleansSub {k k' : Cleanup} {t : State} (hsub : s.sub = .cleanup k)
    (hclean : s.clean k = (t, some k')) : Acts s .cleanSub { t with sub := .cleanup k' }
  | cleanedSub {k : Cleanup} {t : State} (hsub : s.sub = .cleanup k)
    (hclean : s.clean k = (t, none)) :
    Acts s .cleanSub { t with sub := .failed, subscribed := true :: t.subscribed }
  | watched {r : Bool} (hsub : s.sub = .watching) :
    Acts s (.watched r) { s with reports := s.reports + r.toNat }
  | watchEnds (hsub : s.sub = .watching) : Acts s .watchEnds { s with sub := .ended }
  | closeAgain (hclosed : s.closed = true) : Acts s .close s
  | closes (hclosed : s.closed = false) :
    Acts s .close { s with closed := true, hungUp := s.nc.toList ++ s.hungUp }

variable {s t u : State} {e : Event}

theorem acts_of_step (h : step s e = some t) : Acts s e t := by
  cases e with
  | subscribe =>
    simp only [step] at h
    split_ifs at h with hidle <;> cases h
    · exact .subscribeFirst hidle
    · exact .subscribeAgain hidle
  | lock b =>
    simp only [step, Option.ite_none_right_eq_some] at h
    obtain ⟨⟨hfree, hsub⟩, heq⟩ := h
    cases heq
    exact .locks hfree hsub
  | check =>
    simp only [step] at h
    split at h
    · rename_i b hpc
      split_ifs at h with hnc <;> cases h
      · exact .checkNew hpc hnc
      · exact .checkOld hpc hnc
    · cases h
  | connect ok | jetStream ok =>
    cases ok <;> simp only [step, Bool.false_eq_true, if_true, if_false] at h <;>
      split at h <;> cases h <;> constructor <;> assumption
  | ensureBucket ok =>
    simp only [step] at h
    split at h
    · cases h
    · split at h <;> cases h
      · rename_i hpc
        exact .membersBucket hpc
      · rename_i hpc
        exact .aliveBucket hpc
  | bind ok =>
    cases ok <;> simp only [step, Bool.false_eq_true, if_true, if_false] at h <;>
      split at h <;> cases h <;> constructor <;> assumption
  | cleanInit =>
    simp only [step] at h
    split at h
    · rename_i b k hpc
      split at h <;> cases h
      · rename_i hclean
        exact .cleansInit hpc hclean
      · rename_i hclean
        exact .cleanedInit hpc hclean
    · cases h
  | getMembers ok r =>
    cases ok <;> simp only [step, Bool.false_eq_true, if_true, if_false] at h <;>
      split_ifs at h with hpanic <;> cases h <;> constructor <;>
      exact not_not.mp fun hsub => hpanic (.inl hsub)
  | getAlives ok r =>
    cases ok <;> simp only [step, Bool.false_eq_true, if_true, if_false] at h <;>
      split_ifs at h with hpanic <;> cases h <;> constructor <;>
      exact not_not.mp fun hsub => hpanic (.inl hsub)
  | cleanSub =>
    simp only [step] at h
    split at h
    · rename_i k hsub
      split at h <;> cases h
      · rename_i hclean
        exact .cleansSub hsub hclean
      · rename_i hclean
        exact .cleanedSub hsub hclean
    · cases h
  | watched r =>
    simp only [step, Option.ite_none_right_eq_some] at h
    obtain ⟨hsub, heq⟩ := h
    cases heq
    exact .watched hsub
  | watchEnds =>
    simp only [step, Option.ite_none_right_eq_some] at h
    obtain ⟨hsub, heq⟩ := h
    cases heq
    exact .watchEnds hsub
  | close =>
    simp only [step] at h
    split_ifs at h with hclosed <;> cases h
    · exact .closeAgain hclosed
    · exact .closes (by simpa using hclosed)

/-! ## The handles -/

/-- The handles are those of the connection, and without one there are none. -/
structure Whole (s : State) : Prop where
  js : s.js = s.nc
  membersKV : s.membersKV = s.nc
  aliveKV : s.aliveKV = s.nc

/-- What the fields are while `init` builds them up or while they are
cleared. -/
def Stage (s : State) : InitPc → Prop
  | .check => Whole s
  | .connect | .jetStream _ => s.nc = none ∧ Whole s
  | .membersBucket c | .aliveBucket c | .membersKV c =>
    s.nc = some c ∧ s.js = some c ∧ s.membersKV = none ∧ s.aliveKV = none
  | .aliveKV c => s.nc = some c ∧ s.js = some c ∧ s.membersKV = some c ∧ s.aliveKV = none
  | .cleanup .nc => s.nc ≠ none
  | .cleanup .js => s.nc = none
  | .cleanup .membersKV => s.nc = none ∧ s.js = none
  | .cleanup .aliveKV => s.nc = none ∧ s.js = none ∧ s.membersKV = none

/-- `Subscribe` has its connection, or takes it back. -/
def SubPc.connected : SubPc → Bool
  | .members | .alives | .cleanup _ => true
  | _ => false

/-- `init` has not looked at `nc` yet, or nobody is there. -/
def State.idle (s : State) : Prop := ∀ b pc, s.init = some (b, pc) → pc = .check

/-- The three phases of the fields. -/
inductive Inv (s : State) : Prop where
  | resting (hidle : s.idle) (hsub : ∀ k, s.sub ≠ .cleanup k) (hwhole : Whole s)
    (hnc : s.sub.connected = true → s.nc ≠ none)
  | building {b : Bool} {pc : InitPc} (hpc : s.init = some (b, pc))
    (hsub : s.sub.connected = false) (hstage : Stage s pc)
  | cleaning {k : Cleanup} (hidle : s.idle) (hsub : s.sub = .cleanup k)
    (hstage : Stage s (.cleanup k))

/-- No `init` looks at `nc` while `Subscribe` takes its connection back. -/
def Orderly (s : State) (e : Event) : Prop := e = .check → ∀ k, s.sub ≠ .cleanup k

/-- `cleanupConn` touches the connection and the handles only. -/
theorem clean_frame {k : Cleanup} {k' : Option Cleanup} (hclean : s.clean k = (t, k')) :
    t.init = s.init ∧ t.sub = s.sub ∧ t.dialed = s.dialed ∧ t.reports = s.reports ∧
      t.subscribed = s.subscribed := by
  unfold State.clean at hclean
  split at hclean
  · split at hclean <;> cases hclean <;> exact ⟨rfl, rfl, rfl, rfl, rfl⟩
  all_goals
    cases hclean
    exact ⟨rfl, rfl, rfl, rfl, rfl⟩

/-- `cleanupConn` clears one field after the other, and at its end nothing is
left. -/
theorem clean_spec {k : Cleanup} {k' : Option Cleanup} (hstage : Stage s (.cleanup k))
    (hclean : s.clean k = (t, k')) :
    (∀ c, s.nc = some c → c ∈ t.hungUp) ∧ (∀ c ∈ s.hungUp, c ∈ t.hungUp) ∧
      match k' with
      | some k' => Stage t (.cleanup k')
      | none => t.nc = none ∧ Whole t := by
  cases k with
  | nc =>
    obtain ⟨c, hc⟩ := Option.ne_none_iff_exists'.mp hstage
    simp only [State.clean, hc] at hclean
    cases hclean
    refine ⟨fun c' hc' => ?_, fun c' hc' => List.mem_cons_of_mem _ hc', rfl⟩
    rw [hc] at hc'
    cases hc'
    exact List.mem_cons_self
  | js =>
    cases hclean
    simp_all [Stage]
  | membersKV =>
    cases hclean
    simp_all [Stage]
  | aliveKV =>
    cases hclean
    obtain ⟨hnc, hjs, hmembers⟩ := hstage
    exact ⟨by simp [hnc], fun _ h => h, hnc,
      ⟨hjs.trans hnc.symm, hmembers.trans hnc.symm, hnc.symm⟩⟩

theorem inv_start : Inv {} :=
  .resting (fun _ _ h => nomatch h) (by simp) ⟨rfl, rfl, rfl⟩ (by simp [SubPc.connected])

/-! ## The phase -/

theorem Inv.building_of (h : Inv s) {b : Bool} {pc : InitPc} (hpc : s.init = some (b, pc))
    (hne : pc ≠ .check) : s.sub.connected = false ∧ Stage s pc := by
  cases h with
  | resting hidle => exact absurd (hidle b pc hpc) hne
  | building hpc' hsub hstage =>
    rw [hpc] at hpc'
    cases hpc'
    exact ⟨hsub, hstage⟩
  | cleaning hidle => exact absurd (hidle b pc hpc) hne

theorem Inv.cleaning_of (h : Inv s) {k : Cleanup} (hsub : s.sub = .cleanup k) :
    s.idle ∧ Stage s (.cleanup k) := by
  cases h with
  | resting _ hnot => exact absurd hsub (hnot k)
  | building _ hnot => simp [hsub, SubPc.connected] at hnot
  | cleaning hidle hsub' hstage =>
    rw [hsub] at hsub'
    cases hsub'
    exact ⟨hidle, hstage⟩

theorem Inv.whole_of (h : Inv s) (hidle : s.idle) (hsub : ∀ k, s.sub ≠ .cleanup k) :
    Whole s ∧ (s.sub.connected = true → s.nc ≠ none) := by
  cases h with
  | resting _ _ hwhole hnc => exact ⟨hwhole, hnc⟩
  | building hpc hnot hstage =>
    obtain rfl := hidle _ _ hpc
    exact ⟨hstage, fun hconnected => by simp [hnot] at hconnected⟩
  | cleaning _ hsub' => exact absurd hsub' (hsub _)

/-- `init` returns from a state in which the handles belong together. -/
theorem inv_initReturns {b ok : Bool} (hwhole : Whole s) (hsub : ∀ k, s.sub ≠ .cleanup k)
    (hnc : s.sub.connected = true ∨ ok = true → s.nc ≠ none) : Inv (s.initReturns b ok) := by
  unfold State.initReturns
  split_ifs with hb hok
  · exact .resting (fun _ _ h => nomatch h) (by simp)
      ⟨hwhole.js, hwhole.membersKV, hwhole.aliveKV⟩ (fun _ => hnc (Or.inr hok))
  · exact .resting (fun _ _ h => nomatch h) (by simp)
      ⟨hwhole.js, hwhole.membersKV, hwhole.aliveKV⟩ (by simp [SubPc.connected])
  · exact .resting (fun _ _ h => nomatch h) hsub
      ⟨hwhole.js, hwhole.membersKV, hwhole.aliveKV⟩ (fun h => hnc (Or.inl h))

theorem not_cleanup_of_connected (h : s.sub.connected = false) (k : Cleanup) :
    s.sub ≠ .cleanup k := by
  intro hsub
  simp [hsub, SubPc.connected] at h

/-- Nobody builds while `Subscribe` has its connection. -/
theorem Inv.idle_of_connected (h : Inv s) (hsub : s.sub.connected = true) : s.idle := by
  cases h with
  | resting hidle => exact hidle
  | building _ hnot => simp [hsub] at hnot
  | cleaning hidle => exact hidle

/-- The fields, `init` and whether `Subscribe` is connected are as they were. -/
theorem Inv.keep (h : Inv s) (hnc : t.nc = s.nc) (hjs : t.js = s.js)
    (hmembers : t.membersKV = s.membersKV) (halive : t.aliveKV = s.aliveKV)
    (hinit : t.init = s.init) (hconnected : t.sub.connected = s.sub.connected)
    (hcleanup : ∀ k, t.sub = .cleanup k ↔ s.sub = .cleanup k) : Inv t := by
  have hwhole : Whole s → Whole t := by
    intro hwhole
    exact ⟨by rw [hjs, hnc, hwhole.js], by rw [hmembers, hnc, hwhole.membersKV],
      by rw [halive, hnc, hwhole.aliveKV]⟩
  have hstage : ∀ pc, Stage s pc → Stage t pc := by
    intro pc hpc
    unfold Stage at hpc ⊢
    split at hpc <;> simp_all only [and_self, ne_eq, not_false_eq_true]
  cases h with
  | resting hidle hsub hw hc =>
    refine .resting ?_ (fun k => mt (hcleanup k).mp (hsub k)) (hwhole hw) ?_
    · rw [State.idle, hinit]
      exact hidle
    · rw [hconnected, hnc]
      exact hc
  | building hpc hsub hst =>
    exact .building (hinit.trans hpc) (hconnected.trans hsub) (hstage _ hst)
  | cleaning hidle hsub hst =>
    refine .cleaning ?_ ((hcleanup _).mpr hsub) (hstage _ hst)
    rw [State.idle, hinit]
    exact hidle

theorem Inv.acts (h : Inv s) (hguard : Orderly s e) (hacts : Acts s e t) : Inv t := by
  cases hacts with
  | subscribeFirst hidle =>
    exact h.keep rfl rfl rfl rfl rfl (by simp [hidle, SubPc.connected]) (by simp [hidle])
  | subscribeAgain | watched | closeAgain | closes =>
    exact h.keep rfl rfl rfl rfl rfl rfl (fun _ => Iff.rfl)
  | watchEnds hsub =>
    exact h.keep rfl rfl rfl rfl rfl (by simp [hsub, SubPc.connected]) (by simp [hsub])
  | @locks b hfree _ =>
    have hidle : s.idle := fun _ _ hsome => by simp [hfree] at hsome
    have hidle' : ({ s with init := some (b, .check) } : State).idle := by
      intro _ _ hsome
      cases hsome
      rfl
    cases h with
    | resting _ hsub hwhole hnc =>
      exact .resting hidle' hsub ⟨hwhole.js, hwhole.membersKV, hwhole.aliveKV⟩ hnc
    | building hpc => simp [hfree] at hpc
    | @cleaning k _ hsub hstage =>
      refine .cleaning hidle' hsub ?_
      cases k <;> exact hstage
  | checkNew hpc hnc =>
    have hsub := hguard rfl
    have hidle : s.idle := fun _ _ hsome => by simp_all
    obtain ⟨hwhole, hconnected⟩ := h.whole_of hidle hsub
    refine .building rfl ?_ ⟨hnc, hwhole.js, hwhole.membersKV, hwhole.aliveKV⟩
    by_contra hne
    exact hconnected (by simpa using hne) hnc
  | checkOld hpc hnc =>
    have hsub := hguard rfl
    have hidle : s.idle := fun _ _ hsome => by simp_all
    exact inv_initReturns (h.whole_of hidle hsub).1 hsub fun _ => hnc
  | connects hpc =>
    obtain ⟨hsub, hnc, hwhole⟩ := h.building_of hpc (by simp)
    exact .building rfl hsub ⟨hnc, hwhole.js, hwhole.membersKV, hwhole.aliveKV⟩
  | notConnects hpc =>
    obtain ⟨hsub, _, hwhole⟩ := h.building_of hpc (by simp)
    exact inv_initReturns hwhole (not_cleanup_of_connected hsub) (by simp [hsub])
  | streams hpc =>
    obtain ⟨hsub, hnc, hwhole⟩ := h.building_of hpc (by simp)
    exact .building rfl hsub
      ⟨rfl, rfl, hwhole.membersKV.trans hnc, hwhole.aliveKV.trans hnc⟩
  | notStreams hpc =>
    obtain ⟨hsub, _, hwhole⟩ := h.building_of hpc (by simp)
    exact inv_initReturns ⟨hwhole.js, hwhole.membersKV, hwhole.aliveKV⟩
      (not_cleanup_of_connected hsub) (by simp [hsub])
  | @membersBucket _ ok _ hpc | @aliveBucket _ ok _ hpc =>
    obtain ⟨hsub, hstage⟩ := h.building_of hpc (by simp)
    refine .building rfl hsub ?_
    cases ok with
    | true => exact hstage
    | false =>
      show s.nc ≠ none
      simp [hstage.1]
  | bindMembers hpc =>
    obtain ⟨hsub, hnc, hjs, _, halive⟩ := h.building_of hpc (by simp)
    exact .building rfl hsub ⟨hnc, hjs, rfl, halive⟩
  | notBindMembers hpc | notBindAlive hpc =>
    obtain ⟨hsub, hnc, _⟩ := h.building_of hpc (by simp)
    refine .building rfl hsub ?_
    show s.nc ≠ none
    simp [hnc]
  | bindAlive hpc =>
    obtain ⟨hsub, hnc, hjs, hmembers, _⟩ := h.building_of hpc (by simp)
    refine inv_initReturns ⟨?_, ?_, ?_⟩ (not_cleanup_of_connected hsub) ?_
    · exact hjs.trans hnc.symm
    · exact hmembers.trans hnc.symm
    · exact hnc.symm
    · simp [hnc]
  | @cleansInit _ k k' _ hpc hclean =>
    obtain ⟨hsub, hstage⟩ := h.building_of hpc (by simp)
    obtain ⟨_, hkeep, _⟩ := clean_frame hclean
    obtain ⟨_, _, hnext⟩ := clean_spec hstage hclean
    refine .building rfl (by rw [← hsub, ← hkeep]) ?_
    cases k' <;> exact hnext
  | cleanedInit hpc hclean =>
    obtain ⟨hsub, hstage⟩ := h.building_of hpc (by simp)
    obtain ⟨_, hkeep, _⟩ := clean_frame hclean
    obtain ⟨_, _, _, hwhole⟩ := clean_spec hstage hclean
    have hsub' := (congrArg SubPc.connected hkeep).trans hsub
    exact inv_initReturns hwhole (not_cleanup_of_connected hsub') (by simp [hsub'])
  | members hsub =>
    exact h.keep rfl rfl rfl rfl rfl (by simp [hsub, SubPc.connected]) (by simp [hsub])
  | alives hsub =>
    have hidle := h.idle_of_connected (by simp [hsub, SubPc.connected])
    obtain ⟨hwhole, _⟩ := h.whole_of hidle (by simp [hsub])
    exact .resting hidle (by simp) ⟨hwhole.js, hwhole.membersKV, hwhole.aliveKV⟩
      (by simp [SubPc.connected])
  | notMembers hsub | notAlives hsub =>
    have hidle := h.idle_of_connected (by simp [hsub, SubPc.connected])
    obtain ⟨_, hnc⟩ := h.whole_of hidle (by simp [hsub])
    exact .cleaning hidle rfl (hnc (by simp [hsub, SubPc.connected]))
  | @cleansSub _ k' _ hsub hclean =>
    obtain ⟨hidle, hstage⟩ := h.cleaning_of hsub
    obtain ⟨hkeep, _⟩ := clean_frame hclean
    obtain ⟨_, _, hnext⟩ := clean_spec hstage hclean
    refine .cleaning ?_ rfl ?_
    · intro b pc hpc
      exact hidle b pc (hkeep.symm.trans hpc)
    · cases k' <;> exact hnext
  | cleanedSub hsub hclean =>
    obtain ⟨hidle, hstage⟩ := h.cleaning_of hsub
    obtain ⟨hkeep, _⟩ := clean_frame hclean
    obtain ⟨_, _, _, hwhole⟩ := clean_spec hstage hclean
    refine .resting ?_ (by simp) ⟨hwhole.js, hwhole.membersKV, hwhole.aliveKV⟩
      (by simp [SubPc.connected])
    intro b pc hpc
    exact hidle b pc (hkeep.symm.trans hpc)

/-! ## The connections -/

/-- Every connection was closed, or is the current one, or `init` has it in
hand. -/
def Accounted (s : State) : Prop :=
  ∀ c, c < s.dialed → c ∈ s.hungUp ∨ s.nc = some c ∨ ∃ b, s.init = some (b, .jetStream c)

theorem Accounted.keep (h : Accounted s) (hdialed : t.dialed = s.dialed)
    (hhungUp : ∀ c ∈ s.hungUp, c ∈ t.hungUp)
    (hnc : ∀ c, s.nc = some c → t.nc = some c ∨ c ∈ t.hungUp)
    (hinit : ∀ b c, s.init = some (b, .jetStream c) →
      c ∈ t.hungUp ∨ t.nc = some c ∨ t.init = some (b, .jetStream c)) : Accounted t := by
  intro c hc
  rw [hdialed] at hc
  rcases h c hc with hclosed | hcurrent | ⟨b, hpc⟩
  · exact Or.inl (hhungUp c hclosed)
  · rcases hnc c hcurrent with hsame | hclosed
    · exact Or.inr (Or.inl hsame)
    · exact Or.inl hclosed
  · rcases hinit b c hpc with hclosed | hcurrent | hsame
    · exact Or.inl hclosed
    · exact Or.inr (Or.inl hcurrent)
    · exact Or.inr (Or.inr ⟨b, hsame⟩)

theorem initReturns_frame (s : State) (b ok : Bool) :
    (s.initReturns b ok).dialed = s.dialed ∧ (s.initReturns b ok).hungUp = s.hungUp ∧
      (s.initReturns b ok).nc = s.nc ∧ (s.initReturns b ok).init = none := by
  unfold State.initReturns
  split_ifs <;> exact ⟨rfl, rfl, rfl, rfl⟩

/-- `init` returns and has no connection in hand that is not closed. -/
theorem Accounted.initReturns (h : Accounted s) (b ok : Bool)
    (hinit : ∀ b c, s.init = some (b, .jetStream c) → c ∈ s.hungUp) :
    Accounted (s.initReturns b ok) := by
  obtain ⟨hdialed, hhungUp, hnc, _⟩ := initReturns_frame s b ok
  refine h.keep hdialed ?_ ?_ ?_
  · rw [hhungUp]
    exact fun _ h => h
  · rw [hnc]
    exact fun _ h => Or.inl h
  · intro b' c hpc
    rw [hhungUp]
    exact Or.inl (hinit b' c hpc)

theorem Accounted.clean (h : Accounted s) {k : Cleanup} {k' : Option Cleanup}
    (hstage : Stage s (.cleanup k)) (hclean : s.clean k = (t, k')) : Accounted t := by
  obtain ⟨hinit, _, hdialed, _⟩ := clean_frame hclean
  obtain ⟨hnc, hhungUp, _⟩ := clean_spec hstage hclean
  refine h.keep hdialed hhungUp (fun c hc => Or.inr (hnc c hc)) ?_
  intro b c hpc
  rw [hinit]
  exact Or.inr (Or.inr hpc)

theorem Accounted.acts (h : Accounted s) (hinv : Inv s) (hacts : Acts s e t) : Accounted t := by
  cases hacts with
  | connects hpc =>
    intro c hc
    by_cases hlast : c = s.dialed
    · rw [hlast]
      exact Or.inr (Or.inr ⟨_, rfl⟩)
    · have hlt : c < s.dialed := by
        simp only at hc
        omega
      rcases h c hlt with hclosed | hcurrent | ⟨b, hother⟩
      · exact Or.inl hclosed
      · exact Or.inr (Or.inl hcurrent)
      · simp [hpc] at hother
  | streams hpc =>
    obtain ⟨_, hnone, _⟩ := hinv.building_of hpc (by simp)
    refine h.keep rfl (fun _ h => h) (by simp [hnone]) ?_
    intro b c hother
    rw [hpc] at hother
    cases hother
    exact Or.inr (Or.inl rfl)
  | @notStreams b c' hpc =>
    have hclosed : Accounted { s with hungUp := c' :: s.hungUp } :=
      h.keep rfl (fun _ h => List.mem_cons_of_mem _ h) (fun _ h => Or.inl h)
        (fun _ _ h => Or.inr (Or.inr h))
    refine hclosed.initReturns b false ?_
    intro b' c hother
    simp only [hpc] at hother
    cases hother
    exact List.mem_cons_self
  | checkOld hpc | notConnects hpc => exact h.initReturns _ _ (by simp [hpc])
  | @bindAlive _ c hpc =>
    have hbound : Accounted { s with aliveKV := some c } :=
      h.keep rfl (fun _ h => h) (fun _ h => Or.inl h) (fun _ _ h => Or.inr (Or.inr h))
    exact hbound.initReturns _ _ (by simp [hpc])
  | cleansInit hpc hclean =>
    obtain ⟨_, hstage⟩ := hinv.building_of hpc (by simp)
    have hinit := (clean_frame hclean).1
    exact (h.clean hstage hclean).keep rfl (fun _ h => h) (fun _ h => Or.inl h)
      (by simp [hinit, hpc])
  | cleanedInit hpc hclean =>
    obtain ⟨_, hstage⟩ := hinv.building_of hpc (by simp)
    have hinit := (clean_frame hclean).1
    exact (h.clean hstage hclean).initReturns _ _ (by simp [hinit, hpc])
  | cleansSub hsub hclean | cleanedSub hsub hclean =>
    obtain ⟨_, hstage⟩ := hinv.cleaning_of hsub
    exact (h.clean hstage hclean).keep rfl (fun _ h => h) (fun _ h => Or.inl h)
      (fun _ _ h => Or.inr (Or.inr h))
  | closes =>
    exact h.keep rfl (fun _ h => List.mem_append_right _ h) (fun _ h => Or.inl h)
      (fun _ _ h => Or.inr (Or.inr h))
  | locks hfree => exact h.keep rfl (fun _ h => h) (fun _ h => Or.inl h) (by simp [hfree])
  | checkNew hpc | membersBucket hpc | aliveBucket hpc | bindMembers hpc | notBindMembers hpc
  | notBindAlive hpc =>
    exact h.keep rfl (fun _ h => h) (fun _ h => Or.inl h) (by simp [hpc])
  | _ =>
    exact h.keep rfl (fun _ h => h) (fun _ h => Or.inl h) (fun _ _ h => Or.inr (Or.inr h))

/-- As long as no `init` looks at `nc` while `Subscribe` takes its connection
back: when nobody builds or clears, both handles are those of the connection,
or there is nothing; while `Subscribe` reads, the connection is there; and
every connection is closed, current or in the hands of `init`. -/
theorem handles_belong_together (s : State) (h : Reach step Orderly {} s) :
    (s.init = none → (∀ k, s.sub ≠ .cleanup k) →
      s.js = s.nc ∧ s.membersKV = s.nc ∧ s.aliveKV = s.nc) ∧
    (s.sub = .members ∨ s.sub = .alives → s.nc ≠ none) ∧
    ∀ c, c < s.dialed → c ∈ s.hungUp ∨ s.nc = some c ∨ ∃ b, s.init = some (b, .jetStream c) := by
  have hboth : Inv s ∧ Accounted s := by
    refine Reach.invariant (P := fun u => Inv u ∧ Accounted u)
      ⟨inv_start, fun _ hc => absurd hc (Nat.not_lt_zero _)⟩ ?_ h
    intro s e t _ hinv hguard hstep
    have hacts := acts_of_step hstep
    exact ⟨hinv.1.acts hguard hacts, hinv.2.acts hinv.1 hacts⟩
  obtain ⟨hinv, haccounted⟩ := hboth
  refine ⟨fun hinit hsub => ?_, fun hsub => ?_, haccounted⟩
  · have hidle : s.idle := fun _ _ hsome => by simp [hinit] at hsome
    have hwhole := (hinv.whole_of hidle hsub).1
    exact ⟨hwhole.js, hwhole.membersKV, hwhole.aliveKV⟩
  · have hconnected : s.sub.connected = true := by
      rcases hsub with hsub | hsub <;> simp [hsub, SubPc.connected]
    refine (hinv.whole_of (hinv.idle_of_connected hconnected) ?_).2 hconnected
    rcases hsub with hsub | hsub <;> simp [hsub]

/-- `init` of `Subscribe`, all the way. -/
def connected : List Event :=
  [.subscribe, .lock true, .check, .connect true, .jetStream true, .ensureBucket true,
    .ensureBucket true, .bind true, .bind true]

/-- A `Subscribe` that cannot read takes all back, and the next method connects
again. -/
def secondConnection : List Event :=
  connected ++ [.getMembers false false, .cleanSub, .cleanSub, .cleanSub, .cleanSub,
    .lock false, .check, .connect true, .jetStream true, .ensureBucket true, .ensureBucket true,
    .bind true, .bind true]

instance (s : State) (e : Event) : Decidable (Orderly s e) :=
  decidable_of_iff (e = .check → s.sub ≠ .cleanup .nc ∧ s.sub ≠ .cleanup .js ∧
      s.sub ≠ .cleanup .membersKV ∧ s.sub ≠ .cleanup .aliveKV) (by
    constructor
    · intro h he k
      obtain ⟨h1, h2, h3, h4⟩ := h he
      cases k <;> assumption
    · intro h he
      exact ⟨h he _, h he _, h he _, h he _⟩)

theorem handles_belong_together_secondConnection : ∃ s : State,
    run (fun s e => if Orderly s e then step s e else none) {} secondConnection = some s ∧
    s.nc = some 1 ∧ s.hungUp = [0] ∧ s.js = s.nc ∧ s.membersKV = s.nc ∧ s.aliveKV = s.nc := by
  let s : State := (run (fun s e => if Orderly s e then step s e else none) {}
    secondConnection).get (by decide +kernel)
  have hs : run (fun s e => if Orderly s e then step s e else none) {} secondConnection =
      some s := by
    rw [Option.some_get]
  have hfields : s.nc = some 1 ∧ s.hungUp = [0] ∧ s.init = none ∧ s.sub = .failed := by
    decide +kernel
  obtain ⟨hnc, hhungUp, hinit, hsub⟩ := hfields
  obtain ⟨hwhole, _⟩ := handles_belong_together s (Reach.of_guarded_run hs)
  exact ⟨s, hs, hnc, hhungUp, hwhole hinit (by simp [hsub])⟩

-- The other method looks at `nc` in the middle of `cleanupConn`.  Its new
-- connection stays, and the rest of `cleanupConn` clears its handles.
example : (run step {} (connected ++ [.getMembers false false, .cleanSub,
    .lock false, .check, .connect true, .jetStream true, .ensureBucket true, .ensureBucket true,
    .bind true, .bind true, .cleanSub, .cleanSub, .cleanSub])).map
      (fun s => (s.nc, s.js, s.membersKV, s.aliveKV)) =
    some (some 1, none, none, none) := by
  decide +kernel

/-! ## A `Subscribe` that failed -/

/-- `Subscribe` holds `initMu` in its call of `init` only. -/
def Owned (s : State) : Prop := ∀ pc, s.init = some (true, pc) → s.sub = .init

theorem owned_initReturns (s : State) (b ok : Bool) : Owned (s.initReturns b ok) := by
  intro pc hpc
  rw [(initReturns_frame s b ok).2.2.2] at hpc
  cases hpc

/-- The same call holds `initMu`, and `Subscribe` stands where it was. -/
theorem Owned.keep (h : Owned s) {b : Bool} {pc pc' : InitPc} (hpc : s.init = some (b, pc))
    (hpc' : t.init = some (b, pc')) (hsub : t.sub = s.sub) : Owned t := by
  intro pc'' hinit
  rw [hpc'] at hinit
  cases hinit
  rw [hsub]
  exact h pc hpc

/-- `Subscribe` moves on outside `init`. -/
theorem Owned.leave (h : Owned s) (hsub : s.sub ≠ .init) (hinit : t.init = s.init) : Owned t := by
  intro pc hpc
  exact absurd (h pc (hinit.symm.trans hpc)) hsub

theorem Owned.acts (h : Owned s) (hacts : Acts s e t) : Owned t := by
  cases hacts with
  | subscribeFirst hidle => exact h.leave (by simp [hidle]) rfl
  | locks hfree hsub =>
    intro pc hpc
    cases hpc
    exact hsub rfl
  | checkOld | notConnects | notStreams | bindAlive | cleanedInit => exact owned_initReturns _ _ _
  | checkNew hpc | connects hpc | streams hpc | membersBucket hpc | aliveBucket hpc
  | bindMembers hpc | notBindMembers hpc | notBindAlive hpc => exact h.keep hpc rfl rfl
  | cleansInit hpc hclean => exact h.keep hpc rfl (clean_frame hclean).2.1
  | members hsub | notMembers hsub | alives hsub | notAlives hsub | watchEnds hsub =>
    exact h.leave (by simp [hsub]) rfl
  | cleansSub hsub hclean | cleanedSub hsub hclean =>
    exact h.leave (by simp [hsub]) (clean_frame hclean).1
  | subscribeAgain | watched | closeAgain | closes => exact h

theorem owned_of_reachable (h : Reachable step {} s) : Owned s :=
  Reach.invariant (P := Owned) (by simp [Owned])
    (fun _ _ _ _ howned _ hstep => howned.acts (acts_of_step hstep)) h

/-- `t` is a later state of `s`, whose `Subscribe` has failed. -/
structure Silent (s t : State) : Prop where
  sub : t.sub = .failed
  owned : Owned t
  reports : t.reports = s.reports
  subscribed : ∃ rs, t.subscribed = rs ++ s.subscribed ∧ ∀ r ∈ rs, r = false

theorem Silent.keep (h : Silent s t) (howned : Owned u) (hsub : u.sub = t.sub)
    (hreports : u.reports = t.reports) (hsubscribed : u.subscribed = t.subscribed) :
    Silent s u := by
  refine ⟨hsub.trans h.sub, howned, hreports.trans h.reports, ?_⟩
  rw [hsubscribed]
  exact h.subscribed

/-- It is another method that holds `initMu`. -/
theorem Silent.other (h : Silent s t) {b : Bool} {pc : InitPc} (hpc : t.init = some (b, pc)) :
    b = false := by
  cases b with
  | false => rfl
  | true =>
    have hsub := h.owned pc hpc
    rw [h.sub] at hsub
    cases hsub

theorem Silent.acts (h : Silent s t) (hacts : Acts t e u) : Silent s u := by
  have howned := h.owned.acts hacts
  have hfailed := h.sub
  cases hacts with
  | subscribeAgain hsub =>
    obtain ⟨rs, hsubscribed, hall⟩ := h.subscribed
    refine ⟨h.sub, h.owned, h.reports, false :: rs, ?_, List.forall_mem_cons.mpr ⟨rfl, hall⟩⟩
    show false :: t.subscribed = _
    rw [hsubscribed, List.cons_append]
  -- `init` returns to another method, which leaves `Subscribe` as it is.
  | checkOld hpc | notConnects hpc | notStreams hpc | bindAlive hpc =>
    obtain rfl := h.other hpc
    exact h.keep howned rfl rfl rfl
  | cleanedInit hpc hclean =>
    obtain rfl := h.other hpc
    obtain ⟨_, hsub, _, hreports, hsubscribed⟩ := clean_frame hclean
    exact h.keep howned hsub hreports hsubscribed
  | cleansInit hpc hclean =>
    obtain ⟨_, hsub, _, hreports, hsubscribed⟩ := clean_frame hclean
    exact h.keep howned hsub hreports hsubscribed
  -- the steps of a `Subscribe` that is still under way
  | subscribeFirst hsub | members hsub | notMembers hsub | alives hsub | notAlives hsub
  | watched hsub | watchEnds hsub | cleansSub hsub | cleanedSub hsub =>
    rw [hfailed] at hsub
    cases hsub
  | locks | checkNew | connects | streams | membersBucket | aliveBucket | bindMembers
  | notBindMembers | notBindAlive | closeAgain | closes => exact h.keep howned rfl rfl rfl

/-- After a `Subscribe` that failed every later one returns no error, whatever
the other methods do, and the callback is never called again. -/
theorem failed_subscribe_is_silent (s t : State) (hs : Reachable step {} s)
    (hfailed : s.sub = .failed) (ht : Reachable step s t) :
    t.sub = .failed ∧ t.reports = s.reports ∧
    ∃ rs, t.subscribed = rs ++ s.subscribed ∧ ∀ r ∈ rs, r = false := by
  have h : Silent s t :=
    Reach.invariant (P := Silent s) ⟨hfailed, owned_of_reachable hs, rfl, [], rfl, by simp⟩
      (fun _ _ _ _ hsilent _ hstep => hsilent.acts (acts_of_step hstep)) ht
  exact ⟨h.sub, h.reports, h.subscribed⟩

theorem failed_subscribe_is_silent_secondConnection : ∃ s t : State,
    run step {} secondConnection = some s ∧ s.sub = .failed ∧ s.subscribed = [true] ∧
    run step s [.subscribe, .close, .subscribe] = some t ∧
    t.subscribed = [false, false, true] ∧ t.sub = .failed ∧ t.reports = s.reports := by
  let s : State := (run step {} secondConnection).get (by decide +kernel)
  have hs : run step {} secondConnection = some s := by rw [Option.some_get]
  have hfailed : s.sub = .failed ∧ s.subscribed = [true] := by decide +kernel
  let t : State := (run step s [.subscribe, .close, .subscribe]).get (by decide +kernel)
  have ht : run step s [.subscribe, .close, .subscribe] = some t := by rw [Option.some_get]
  obtain ⟨hsub, hreports, _⟩ :=
    failed_subscribe_is_silent s t (Reach.of_run hs) hfailed.1 (Reach.of_run ht)
  exact ⟨s, t, hs, hfailed.1, hfailed.2, ht, by decide +kernel, hsub, hreports⟩

end ClusterGo.Natsjet.Connection
