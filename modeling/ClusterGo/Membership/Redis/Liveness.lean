import ClusterGo.Membership.Redis.System

/-!
# Heartbeats, timeouts and their fetches

A heartbeat entry is a version, a flag and a deadline.  `ScriptHeartbeat`
writes such an entry for an address that is alive or unknown, and
`ScriptCheckTimeout` sets the flag.  For an entry that is marked as dead,
`ScriptHeartbeat` concatenates the result of a match that has two captures:
only the first one is used, and the entry loses its flag.  No script
recognises what is left, and the subscriber is never told.

`AliveSynced` is kept by every event that spares the dead entries, and the
first event that does not leaves a field that is no entry
(`heartbeat_dead`).  Together this gives `liveness_sync_iff`.
-/

namespace ClusterGo.Redis

open Transition

variable {N : Type} {lib : RecordLib N}

/-! ## What is claimed of the store and the subscriber -/

/-- The flag of the entry of an address. -/
def Store.aliveFlag (store : Store) (k : String) : Option Text :=
  ((store.alive k).bind matchRecord).map (·.2.1)

/-- The entry of the address is not marked as dead. -/
def Store.isAlive (store : Store) (k : String) : Bool := store.aliveFlag k = some falseText

/-- The entry of the address is marked as dead. -/
def Store.isDead (store : Store) (k : String) : Bool := store.aliveFlag k = some trueText

/-- An entry of the heartbeat hash under the given version of the hash. -/
def IsBeat (version : Option Nat) (text : Text) : Prop :=
  ∃ ver flag deadline serverVer, version = some serverVer ∧ ver ≤ serverVer ∧ IsFlag flag ∧
    text = packed ver flag (Decimal.print deadline)

/-- After the event every field is an entry, and after a fetch the
subscriber knows who is alive. -/
def Event.LivenessHolds (lib : RecordLib N) (s : System) (e : Event) : Prop :=
  ∃ t, step lib s e = some t ∧
    (∀ k text, t.store.alive k = some text → IsBeat t.store.aliveVersion text) ∧
    match e with
    | .getAlives _ => ∀ k, t.cli.sub.alive k = t.store.isAlive k
    | .write _ | .getMembers _ => True

/-- `KeepAlive` is not executed for an address that is marked as dead. -/
def Event.SparesDead (s : System) : Event → Prop
  | .write (.keepAlive n _ _) => s.store.isDead n.string = false
  | _ => True

/-! ## The scripts -/

theorem Store.isAlive_iff (store : Store) (k : String) :
    store.isAlive k = true ↔ store.aliveFlag k = some falseText := by
  rw [isAlive, decide_eq_true_iff]

theorem Store.isDead_iff (store : Store) (k : String) :
    store.isDead k = true ↔ store.aliveFlag k = some trueText := by
  rw [isDead, decide_eq_true_iff]

theorem prevDead_eq (store : Store) (k : String) :
    Store.prevDead (store.alive k) = (store.aliveFlag k).getD falseText := rfl

theorem Store.aliveFlag_of_packed {store : Store} {k : String} {ver : Nat} {flag rest : Text}
    (hk : store.alive k = some (packed ver flag rest)) (hflag : IsFlag flag) :
    store.aliveFlag k = some flag := by
  rw [aliveFlag, hk, Option.bind_some, matchRecord_packed ver hflag, Option.map_some]

theorem sep_notMem_cut {text a b : Text} (h : cut text = some (a, b)) : sep ∉ a := by
  induction text generalizing a b with
  | nil => cases h
  | cons c text ih =>
    rw [cut] at h
    split_ifs at h with hc
    · obtain ⟨rfl, _⟩ := Prod.mk.inj (Option.some.inj h)
      exact List.not_mem_nil
    · obtain ⟨⟨a', b'⟩, hcut, heq⟩ := Option.map_eq_some_iff.mp h
      obtain ⟨rfl, _⟩ := Prod.mk.inj heq
      rw [List.mem_cons, not_or]
      exact ⟨Ne.symm hc, ih hcut⟩

theorem cut_eq_none {text : Text} (h : sep ∉ text) : cut text = none := by
  induction text with
  | nil => rfl
  | cons c text ih =>
    rw [List.mem_cons, not_or] at h
    rw [cut, if_neg (Ne.symm h.1), ih h.2, Option.map_none]

/-- Two parts are no record. -/
theorem matchRecord_two {a b : Text} (ha : sep ∉ a) (hb : sep ∉ b) :
    matchRecord (a ++ sep :: b) = none := by
  rw [matchRecord, cut_append ha]
  dsimp only
  rw [cut_eq_none hb]

theorem not_isBeat_of_matchRecord {version : Option Nat} {text : Text}
    (h : matchRecord text = none) : ¬ IsBeat version text := by
  intro hbeat
  obtain ⟨ver, flag, deadline, _, _, _, hflag, rfl⟩ := hbeat
  rw [matchRecord_packed ver hflag] at h
  cases h

/-- A heartbeat for a dead address leaves a field that is no entry. -/
theorem heartbeat_dead {store : Store} {k : String} (hdead : store.isDead k = true)
    (now timeout : Int) :
    ∃ text, (store.heartbeat k now timeout).alive k = some text ∧ matchRecord text = none := by
  have hflag := (store.isDead_iff k).mp hdead
  have hprev : Store.prevDead (store.alive k) ≠ falseText := by
    rw [prevDead_eq, hflag]
    decide
  obtain ⟨⟨ver, flag, rest⟩, hmatch, _⟩ := Option.map_eq_some_iff.mp hflag
  obtain ⟨text, _, htext⟩ := Option.bind_eq_some_iff.mp hmatch
  have hver : sep ∉ ver := by
    rw [matchRecord] at htext
    split at htext
    · cases htext
    · rename_i a b hcut
      split at htext
      · cases htext
      · obtain ⟨rfl, _⟩ := Prod.mk.inj (Option.some.inj htext)
        exact sep_notMem_cut hcut
  refine ⟨ver ++ sep :: Decimal.print (now + timeout), ?_,
    matchRecord_two hver (sep_notMem_print _)⟩
  rw [Store.heartbeat]
  dsimp only
  rw [if_neg hprev, hmatch]
  exact Function.update_self ..

/-- What the subscriber makes of an entry. -/
theorem aliveEntry_packed (clientVer : Int) (k : String) (ver : Nat) {flag : Text}
    (hflag : IsFlag flag) (rest : Text) :
    aliveEntry clientVer (k, packed ver flag rest) =
      if sent clientVer (Nat.toDigits 10 ver) flag then
        some (if flag = trueText then .dead k else .up k)
      else none := by
  rw [aliveEntry, sentEntry, matchRecord_packed ver hflag]
  dsimp only [AliveRow.toEntry]
  split_ifs <;> rfl

theorem Store.heartbeat_of_ne (store : Store) {k k' : String} (hne : k' ≠ k)
    (now timeout : Int) : (store.heartbeat k now timeout).alive k' = store.alive k' := by
  unfold heartbeat
  dsimp only
  split_ifs
  · exact Function.update_of_ne hne ..
  · exact Function.update_of_ne hne ..

theorem timedOut_packed {now : Int} {ver : Nat} {flag rest dl : Text} (hflag : IsFlag flag)
    (h : Store.timedOut now (packed ver flag rest) = some dl) : dl = rest := by
  unfold Store.timedOut matchDeadline at h
  rw [matchRecord_packed ver hflag, Option.filter_some] at h
  split_ifs at h with hne
  · dsimp only at h
    split_ifs at h
    exact (Option.some.inj h).symm

theorem expire_of_notMem {serverVer : Nat} {now : Int} {all : List (String × Text)} {k : String}
    (hk : k ∉ all.map Prod.fst) (alive : String → Option Text) :
    Store.expire serverVer now alive all k = alive k := by
  induction all generalizing alive with
  | nil => rfl
  | cons f all ih =>
    obtain ⟨addr, text⟩ := f
    rw [List.map_cons, List.mem_cons, not_or] at hk
    rw [Store.expire]
    cases Store.timedOut now text with
    | none => exact ih hk.2 alive
    | some dl =>
      refine (ih hk.2 _).trans ?_
      exact Function.update_of_ne hk.1 _ _

theorem expire_of_mem {serverVer : Nat} {now : Int} {all : List (String × Text)} {k : String}
    {text : Text} (hnodup : (all.map Prod.fst).Nodup) (hmem : (k, text) ∈ all)
    (alive : String → Option Text) (hk : alive k = some text) :
    Store.expire serverVer now alive all k =
      some ((Store.timedOut now text).elim text (packed serverVer trueText)) := by
  induction all generalizing alive with
  | nil => cases hmem
  | cons f all ih =>
    rw [List.map_cons, List.nodup_cons] at hnodup
    rcases List.mem_cons.mp hmem with rfl | htail
    · rw [Store.expire]
      cases Store.timedOut now text with
      | none => exact (expire_of_notMem hnodup.1 alive).trans hk
      | some dl =>
        refine (expire_of_notMem hnodup.1 _).trans ?_
        exact Function.update_self ..
    · obtain ⟨addr, text'⟩ := f
      have hne : k ≠ addr := by
        intro heq
        apply hnodup.1
        rw [← heq]
        exact List.mem_map.mpr ⟨_, htail, rfl⟩
      rw [Store.expire]
      cases Store.timedOut now text' with
      | none => exact ih hnodup.2 htail alive hk
      | some dl =>
        refine ih hnodup.2 htail _ ?_
        rw [Function.update_of_ne hne, hk]

/-- `ScriptCheckTimeout` treats every entry by itself. -/
theorem expire_apply {serverVer : Nat} {now : Int} {alive : String → Option Text}
    {all : List (String × Text)} (henum : Enumerates alive all) (k : String) :
    Store.expire serverVer now alive all k =
      (alive k).map fun text =>
        (Store.timedOut now text).elim text (packed serverVer trueText) := by
  cases hk : alive k with
  | none =>
    refine (expire_of_notMem ?_ alive).trans hk
    intro hmem
    obtain ⟨⟨k', text⟩, hf, rfl⟩ := List.mem_map.mp hmem
    rw [(henum.mem_iff k' text).mp hf] at hk
    cases hk
  | some text =>
    exact expire_of_mem henum.nodup ((henum.mem_iff k text).mpr hk) alive hk

theorem Store.checkTimeout_version (store : Store) (now : Int) (all : List (String × Text))
    {serverVer : Nat} (hserver : store.aliveVersion = some serverVer) :
    (store.checkTimeout now all).aliveVersion =
      some (if all.any fun f => (Store.timedOut now f.2).isSome then serverVer + 1
        else serverVer) := by
  rw [checkTimeout]
  dsimp only
  split_ifs
  · rw [hserver]
    rfl
  · exact hserver

/-! ## The invariant -/

/-- Every field is an entry, and the entries that are not newer than the
subscriber are known to it. -/
structure AliveSynced (s : System) : Prop where
  absent : ∀ k, s.store.alive k = none → s.cli.sub.alive k = false
  record : ∀ k text, s.store.alive k = some text →
    ∃ ver flag deadline serverVer, s.store.aliveVersion = some serverVer ∧ 1 ≤ ver ∧
      ver ≤ serverVer ∧ IsFlag flag ∧ text = packed ver flag (Decimal.print deadline) ∧
      ((ver : Int) ≤ s.cli.aliveVersion → s.cli.sub.alive k = decide (flag = falseText))
  nonneg : 0 ≤ s.cli.aliveVersion
  bounded : s.cli.aliveVersion ≤ s.store.aliveVersion.getD 0
  fresh : s.cli.aliveVersion = 0 → ∀ k, s.cli.sub.alive k = false

theorem aliveSynced_start : AliveSynced {} where
  absent := fun _ _ => rfl
  record := fun _ _ h => by cases h
  nonneg := Int.le_refl 0
  bounded := Int.le_refl 0
  fresh := fun _ _ => rfl

section Step

variable {s : System} (h : AliveSynced s)

include h

theorem AliveSynced.isBeat {k : String} {text : Text} (hk : s.store.alive k = some text) :
    IsBeat s.store.aliveVersion text := by
  obtain ⟨ver, flag, deadline, serverVer, hserver, _, hle, hflag, htext, _⟩ := h.record k text hk
  exact ⟨ver, flag, deadline, serverVer, hserver, hle, hflag, htext⟩

/-- The heartbeats are not touched by the members. -/
theorem AliveSynced.frame {s' : System} (halive : s'.store.alive = s.store.alive)
    (hversion : s'.store.aliveVersion = s.store.aliveVersion)
    (hclient : s'.cli.aliveVersion = s.cli.aliveVersion)
    (hsub : s'.cli.sub.alive = s.cli.sub.alive) : AliveSynced s' where
  absent := by
    rw [halive, hsub]
    exact h.absent
  record := by
    rw [halive, hversion, hclient, hsub]
    exact h.record
  nonneg := hclient ▸ h.nonneg
  bounded := by
    rw [hclient, hversion]
    exact h.bounded
  fresh := by
    rw [hclient, hsub]
    exact h.fresh

/-- A subscriber that has the version of the store knows who is alive. -/
theorem AliveSynced.exact (hup : UpToDate s.store.aliveVersion s.cli.aliveVersion)
    (k : String) : s.cli.sub.alive k = s.store.isAlive k := by
  cases hk : s.store.alive k with
  | none =>
    rw [h.absent k hk, Store.isAlive, Store.aliveFlag, hk]
    decide
  | some text =>
    obtain ⟨ver, flag, deadline, serverVer, hserver, _, hle, hflag, rfl, hsettled⟩ :=
      h.record k text hk
    have hclient := hup serverVer hserver
    rw [hsettled (by omega), Bool.eq_iff_iff, decide_eq_true_iff, Store.isAlive_iff,
      Store.aliveFlag_of_packed hk hflag, Option.some_inj]

/-- A new entry with the next version. -/
theorem AliveSynced.write_field {store : Store} {k : String} {deadline : Int}
    (hversion : store.aliveVersion = some (nextVersion s.store.aliveVersion))
    (halive : store.alive = Function.update s.store.alive k
      (some (packed (nextVersion s.store.aliveVersion) falseText (Decimal.print deadline)))) :
    AliveSynced { s with store := store } where
  absent := by
    intro k' hk'
    have hne : k' ≠ k := by
      intro heq
      rw [heq, halive, Function.update_self] at hk'
      cases hk'
    rw [halive, Function.update_of_ne hne] at hk'
    exact h.absent k' hk'
  record := by
    intro k' text' hk'
    by_cases hne : k' = k
    · rw [hne, halive, Function.update_self] at hk'
      refine ⟨_, falseText, _, _, hversion, one_le_nextVersion _, Nat.le_refl _, Or.inl rfl,
        (Option.some.inj hk').symm, ?_⟩
      intro hold
      exact absurd (lt_nextVersion h.bounded) (Int.not_lt.mpr hold)
    · rw [halive, Function.update_of_ne hne] at hk'
      obtain ⟨ver, flag, deadline, serverVer, hserver, hpos, hle, hrest⟩ := h.record k' text' hk'
      refine ⟨ver, flag, deadline, _, hversion, hpos, ?_, hrest⟩
      rw [hserver]
      exact Nat.le_succ_of_le hle
  nonneg := h.nonneg
  bounded := by
    rw [hversion]
    exact Int.le_of_lt (lt_nextVersion h.bounded)
  fresh := h.fresh

/-- A heartbeat for an address that is not marked as dead. -/
theorem AliveSynced.keepAlive {k : String} (hspared : s.store.isDead k = false)
    (now timeout : Int) : AliveSynced { s with store := s.store.heartbeat k now timeout } := by
  have hprev : Store.prevDead (s.store.alive k) = falseText := by
    rw [prevDead_eq]
    cases hk : s.store.alive k with
    | none =>
      rw [Store.aliveFlag, hk]
      rfl
    | some text =>
      obtain ⟨ver, flag, _, _, _, _, _, hflag, rfl, _⟩ := h.record k text hk
      have hflagk := Store.aliveFlag_of_packed hk hflag
      rw [hflagk, Option.getD_some]
      refine hflag.resolve_right fun hdead => ?_
      rw [(s.store.isDead_iff k).mpr (hdead ▸ hflagk)] at hspared
      cases hspared
  rw [Store.heartbeat]
  dsimp only
  rw [if_pos hprev]
  exact h.write_field rfl rfl

/-- A timeout check. -/
theorem AliveSynced.checkTimeout {now : Int} {all : List (String × Text)}
    (henum : Enumerates s.store.alive all) :
    AliveSynced { s with store := s.store.checkTimeout now all } := by
  have hlt := lt_nextVersion h.bounded
  have happly : ∀ k, (s.store.checkTimeout now all).alive k =
      (s.store.alive k).map fun text => (Store.timedOut now text).elim text
        (packed (nextVersion s.store.aliveVersion) trueText) := expire_apply henum
  refine ⟨?_, ?_, h.nonneg, ?_, h.fresh⟩
  · intro k hk
    rw [happly, Option.map_eq_none_iff] at hk
    exact h.absent k hk
  · intro k text' hk'
    rw [happly] at hk'
    obtain ⟨text, hk, htext'⟩ := Option.map_eq_some_iff.mp hk'
    obtain ⟨ver, flag, deadline, serverVer, hserver, hpos, hle, hflag, rfl, hsettled⟩ :=
      h.record k text hk
    cases hout : Store.timedOut now (packed ver flag (Decimal.print deadline)) with
    | none =>
      rw [hout] at htext'
      refine ⟨ver, flag, deadline, _, s.store.checkTimeout_version now all hserver, hpos, ?_,
        hflag, htext'.symm, hsettled⟩
      split_ifs
      · exact Nat.le_succ_of_le hle
      · exact hle
    | some dl =>
      -- One entry timed out, so the version of the hash has changed.
      have hchange : (all.any fun f => (Store.timedOut now f.2).isSome) = true :=
        List.any_eq_true.mpr ⟨_, (henum.mem_iff k _).mpr hk, by rw [hout]; rfl⟩
      rw [hout] at htext'
      obtain rfl := timedOut_packed hflag hout
      refine ⟨_, trueText, deadline, _, if_pos hchange, one_le_nextVersion _, Nat.le_refl _,
        Or.inr rfl, htext'.symm, ?_⟩
      intro hold
      exact absurd hlt (Int.not_lt.mpr hold)
  · show s.cli.aliveVersion ≤ (s.store.checkTimeout now all).aliveVersion.getD 0
    rw [Store.checkTimeout]
    dsimp only
    split_ifs
    · exact Int.le_of_lt hlt
    · exact h.bounded

section Newer

variable {all : List (String × Text)} (henum : Enumerates s.store.alive all)

include henum

/-- A fetch turns off nothing that has no entry. -/
theorem AliveSynced.absent_after {k : String} (hk : s.store.alive k = none) :
    (s.cli.sub.handleAll (aliveEntry s.cli.aliveVersion) all).1.alive k = false := by
  have hcell := handleAll_aliveEntry henum s.cli.aliveVersion s.cli.sub k
  rw [hk] at hcell
  exact (congrArg Prod.snd hcell).trans (h.absent k hk)

/-- An entry that is not sent is known. -/
theorem AliveSynced.alive_after {k : String} {ver : Nat} {flag rest : Text}
    (hk : s.store.alive k = some (packed ver flag rest)) (hflag : IsFlag flag)
    (hsettled : (ver : Int) ≤ s.cli.aliveVersion →
      s.cli.sub.alive k = decide (flag = falseText)) :
    (s.cli.sub.handleAll (aliveEntry s.cli.aliveVersion) all).1.alive k =
      decide (flag = falseText) := by
  have hcell := handleAll_aliveEntry henum s.cli.aliveVersion s.cli.sub k
  rw [hk, Option.bind_some, aliveEntry_packed _ k ver hflag] at hcell
  refine (congrArg Prod.snd hcell).trans ?_
  by_cases hsent : sent s.cli.aliveVersion (Nat.toDigits 10 ver) flag = true
  · rw [if_pos hsent]
    rcases hflag with rfl | rfl <;> rfl
  · rw [if_neg hsent]
    show s.cli.sub.alive k = decide (flag = falseText)
    by_cases hzero : s.cli.aliveVersion = 0
    · rw [sent, if_pos hzero, decide_eq_true_iff] at hsent
      rw [h.fresh hzero k, decide_eq_false hsent]
    · rw [sent, if_neg hzero, newer_toDigits, decide_eq_true_iff] at hsent
      exact hsettled (Int.not_lt.mp hsent)

/-- A fetch that finds a newer version. -/
theorem AliveSynced.fetch_of_newer {v : Nat} (hv : s.store.aliveVersion = some v)
    (hne : s.cli.aliveVersion ≠ v) :
    AliveSynced { s with cli := { s.cli with
      sub := (s.cli.sub.handleAll (aliveEntry s.cli.aliveVersion) all).1
      aliveVersion := v } } where
  absent := fun k hk => h.absent_after henum hk
  record := by
    intro k text hk
    obtain ⟨ver, flag, deadline, serverVer, hserver, hpos, hle, hflag, rfl, hsettled⟩ :=
      h.record k text hk
    exact ⟨ver, flag, deadline, serverVer, hserver, hpos, hle, hflag, rfl,
      fun _ => h.alive_after henum hk hflag hsettled⟩
  nonneg := Int.natCast_nonneg v
  bounded := by
    show (v : Int) ≤ s.store.aliveVersion.getD 0
    rw [hv]
    exact Int.le_refl _
  fresh := by
    intro hzero
    have hle := h.bounded
    have hnonneg := h.nonneg
    rw [hv] at hle
    simp only [Option.getD_some] at hle
    have hzero : (v : Int) = 0 := hzero
    omega

end Newer

theorem AliveSynced.getAlives {all : List (String × Text)}
    (henum : Enumerates s.store.alive all) {r : Client × List Change}
    (hr : s.getAlives all = some r) :
    AliveSynced { s with cli := r.1 } ∧ UpToDate s.store.aliveVersion r.1.aliveVersion := by
  rcases upToDate_or_newer s.store.aliveVersion s.cli.aliveVersion with hup | ⟨v, hv, hne⟩
  · rw [System.getAlives_of_upToDate hup] at hr
    obtain rfl := Option.some.inj hr
    exact ⟨h, hup⟩
  · rw [System.getAlives_of_newer hv hne] at hr
    obtain rfl := Option.some.inj hr
    refine ⟨h.fetch_of_newer henum hv hne, ?_⟩
    intro v' hv'
    rw [Option.some.inj (hv.symm.trans hv')]

/-- Every event that spares the dead entries keeps the invariant. -/
theorem AliveSynced.step {e : Event} {s' : System} (hallowed : e.Allowed lib s)
    (hspared : e.SparesDead s) (hstep : step lib s e = some s') : AliveSynced s' := by
  cases e with
  | write w =>
    obtain rfl := Option.some.inj hstep
    cases w with
    | updateMember n => exact h.frame rfl rfl rfl rfl
    | removeMember n =>
      refine h.frame ?_ ?_ rfl rfl
      · exact s.store.delete_alive n.string
      · exact s.store.delete_aliveVersion n.string
    | keepAlive n second now => exact h.keepAlive hspared now second
    | checkTimeout now all => exact h.checkTimeout hallowed
  | getMembers all =>
    obtain ⟨r, hr, rfl⟩ := Option.map_eq_some_iff.mp hstep
    obtain ⟨hversion, halive⟩ := System.getMembers_alive hr
    exact h.frame rfl rfl hversion halive
  | getAlives all =>
    obtain ⟨r, hr, rfl⟩ := Option.map_eq_some_iff.mp hstep
    exact (h.getAlives hallowed hr).1

theorem AliveSynced.livenessHolds {e : Event} (hallowed : e.Allowed lib s)
    (hspared : e.SparesDead s) : e.LivenessHolds lib s := by
  obtain ⟨s', hstep⟩ := step_isSome lib s e
  have hkept := h.step hallowed hspared hstep
  refine ⟨s', hstep, fun k text hk => hkept.isBeat hk, ?_⟩
  cases e with
  | write w => exact trivial
  | getMembers all => exact trivial
  | getAlives all =>
    obtain ⟨r, hr, rfl⟩ := Option.map_eq_some_iff.mp hstep
    exact hkept.exact (h.getAlives hallowed hr).2

end Step

/-- An event after which the claims hold has spared the dead entries. -/
theorem Event.LivenessHolds.sparesDead {s : System} {e : Event} (h : e.LivenessHolds lib s) :
    e.SparesDead s := by
  obtain ⟨t, hstep, hbeats, _⟩ := h
  cases e with
  | write w =>
    obtain rfl := Option.some.inj hstep
    cases w with
    | keepAlive n second now =>
      show s.store.isDead n.string = false
      by_contra hdead
      obtain ⟨text, hk, hmatch⟩ := heartbeat_dead (Bool.not_eq_false _ ▸ hdead) now second
      exact not_isBeat_of_matchRecord hmatch (hbeats _ text hk)
    | updateMember n => exact trivial
    | removeMember n => exact trivial
    | checkTimeout now all => exact trivial
  | getMembers all => exact trivial
  | getAlives all => exact trivial

/-! ## Whole runs -/

/-- In a run every field of the heartbeat hash stays an entry and every
fetch gives the addresses that are alive, if and only if no heartbeat is
sent for an address that is marked as dead. -/
theorem liveness_sync_iff (lib : RecordLib N) (es : List Event)
    (hallowed : Along (step lib) (Event.Allowed lib) {} es) :
    Along (step lib) (Event.LivenessHolds lib) {} es ↔
      Along (step lib) Event.SparesDead {} es := by
  constructor
  · intro halong
    exact halong.imp (I := fun _ => True) trivial (fun _ _ _ _ _ _ => trivial)
      fun _ _ _ h => h.sparesDead
  · intro hspared
    exact (hallowed.and hspared).imp aliveSynced_start
      (fun _ _ _ hs hguard hstep => hs.step hguard.1 hguard.2 hstep)
      fun _ _ hs hguard => hs.livenessHolds hguard.1 hguard.2

/-- A node sends a heartbeat and the subscriber fetches it. -/
def firstBeat : List Event :=
  [.write (.keepAlive (LogicAddr.ofFields 1 2 3) 10 100),
    .getAlives [("1.2.3", packed 1 falseText (Decimal.print 110))]]

theorem liveness_sync_firstBeat :
    Along (step plainLib) (Event.LivenessHolds plainLib) {} firstBeat := by
  refine (liveness_sync_iff plainLib firstBeat ⟨trivial, ?_⟩).mpr ⟨rfl, ?_⟩
  · intro s hs
    obtain rfl := Option.some.inj hs
    exact ⟨enumerates_update _ _, fun _ _ => trivial⟩
  · exact fun _ _ => ⟨trivial, fun _ _ => trivial⟩

/-- The node is late, is marked as dead, and sends a heartbeat again. -/
def lateBeat : List Event :=
  firstBeat ++
    [.write (.checkTimeout 111 [("1.2.3", packed 1 falseText (Decimal.print 110))]),
      .write (.keepAlive (LogicAddr.ofFields 1 2 3) 10 112),
      .getAlives [("1.2.3", Nat.toDigits 10 2 ++ sep :: Decimal.print 122)]]

/-- Its field is no entry any more, and the subscriber still takes it for
alive. -/
theorem lateBeat_lost :
    Along (step plainLib) (Event.Allowed plainLib) {} lateBeat ∧
      ∃ s, Transition.run (step plainLib) {} lateBeat = some s ∧
        s.store.alive "1.2.3" = some (Nat.toDigits 10 2 ++ sep :: Decimal.print 122) ∧
        (s.store.alive "1.2.3").bind matchRecord = none ∧
        s.store.isAlive "1.2.3" = false ∧ s.cli.sub.alive "1.2.3" = true := by
  have hbeat : Enumerates (({} : Store).heartbeat "1.2.3" 100 10).alive
      [("1.2.3", packed 1 falseText (Decimal.print 110))] := enumerates_update _ _
  have hlate : Enumerates (((({} : Store).heartbeat "1.2.3" 100 10).checkTimeout 111
      [("1.2.3", packed 1 falseText (Decimal.print 110))]).heartbeat "1.2.3" 112 10).alive
      [("1.2.3", Nat.toDigits 10 2 ++ sep :: Decimal.print 122)] := by
    refine enumerates_single (by decide +kernel) fun k hne => ?_
    rw [Store.heartbeat_of_ne _ hne, Store.checkTimeout]
    refine (expire_of_notMem ?_ _).trans (Store.heartbeat_of_ne _ hne ..)
    simpa using hne
  refine ⟨⟨trivial, ?_⟩, _, rfl, by decide +kernel, by decide +kernel, by decide +kernel,
    by decide +kernel⟩
  intro s₁ hs₁
  obtain rfl := Option.some.inj hs₁
  refine ⟨hbeat, ?_⟩
  intro s₂ hs₂
  rw [step, Option.map_eq_some_iff] at hs₂
  obtain ⟨r, _, rfl⟩ := hs₂
  refine ⟨hbeat, ?_⟩
  intro s₃ hs₃
  obtain rfl := Option.some.inj hs₃
  refine ⟨trivial, ?_⟩
  intro s₄ hs₄
  obtain rfl := Option.some.inj hs₄
  exact ⟨hlate, fun _ _ => trivial⟩

end ClusterGo.Redis
