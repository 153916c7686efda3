import Mathlib.Data.List.Nodup

/-!
# Loops that work cell by cell

A loop goes over a list of entries, changes a state and collects outputs.
Its body is local when an entry reads and writes nothing but the cell of its
own key: `cell e b` is the cell after the entry `e` when it was `b`, and
`out e b` is the output.  An entry without a key is skipped.

`obs_loop` and `outputs_of_key` take such a loop apart: what it does to one
cell, and what it outputs for the key of that cell, is decided by the
entries with that key alone.  When no key occurs twice, each output can be
computed from the state before the loop (`mem_loop_iff`).
-/

namespace LocalLoop

variable {σ ε γ κ β : Type}

def loop (body : σ → ε → σ × Option γ) : σ → List ε → σ × List γ
  | s, [] => (s, [])
  | s, e :: l =>
    let (s, x) := body s e
    let (s, xs) := loop body s l
    (s, x.toList ++ xs)

/-- The outputs of a list of entries on one cell. -/
def outputs (cell : ε → β → β) (out : ε → β → Option γ) : β → List ε → List γ
  | _, [] => []
  | b, e :: l => (out e b).toList ++ outputs cell out (cell e b) l

/-- The body works on the cell of its entry only. -/
structure IsLocal (body : σ → ε → σ × Option γ) (obs : σ → κ → β) (key : ε → Option κ)
    (cell : ε → β → β) (out : ε → β → Option γ) : Prop where
  skip : ∀ s e, key e = none → body s e = (s, none)
  self : ∀ s e k, key e = some k → obs (body s e).1 k = cell e (obs s k)
  other : ∀ s e k, key e ≠ some k → obs (body s e).1 k = obs s k
  output : ∀ s e k, key e = some k → (body s e).2 = out e (obs s k)

variable {body : σ → ε → σ × Option γ} {obs : σ → κ → β} {key : ε → Option κ}
  {cell : ε → β → β} {out : ε → β → Option γ}

@[simp] theorem loop_nil (s : σ) : loop body s [] = (s, []) := rfl

theorem loop_cons (s : σ) (e : ε) (l : List ε) :
    loop body s (e :: l) =
      ((loop body (body s e).1 l).1, (body s e).2.toList ++ (loop body (body s e).1 l).2) := rfl

section

variable [DecidableEq κ]

/-- The entries of one key. -/
def ofKey (key : ε → Option κ) (k : κ) (l : List ε) : List ε := l.filter fun e => key e = some k

theorem ofKey_cons_self {e : ε} {k : κ} (he : key e = some k) (l : List ε) :
    ofKey key k (e :: l) = e :: ofKey key k l :=
  List.filter_cons_of_pos (by simpa using he)

theorem ofKey_cons_of_ne {e : ε} {k : κ} (he : key e ≠ some k) (l : List ε) :
    ofKey key k (e :: l) = ofKey key k l :=
  List.filter_cons_of_neg (by simpa using he)

/-- A cell after the loop. -/
theorem obs_loop (h : IsLocal body obs key cell out) (s : σ) (l : List ε) (k : κ) :
    obs (loop body s l).1 k = (ofKey key k l).foldl (fun b e => cell e b) (obs s k) := by
  induction l generalizing s with
  | nil => rfl
  | cons e l ih =>
    rw [loop_cons]
    by_cases he : key e = some k
    · rw [ofKey_cons_self he, List.foldl_cons, ← h.self s e k he]
      exact ih _
    · rw [ofKey_cons_of_ne he, ← h.other s e k he]
      exact ih _

/-- What a loop outputs for one key. -/
theorem outputs_of_key (h : IsLocal body obs key cell out) {okey : γ → κ}
    (hokey : ∀ s e k x, key e = some k → out e (obs s k) = some x → okey x = k)
    (s : σ) (l : List ε) (k : κ) :
    (loop body s l).2.filter (fun x => okey x = k) =
      outputs cell out (obs s k) (ofKey key k l) := by
  induction l generalizing s with
  | nil => rfl
  | cons e l ih =>
    rw [loop_cons, List.filter_append, ih]
    by_cases he : key e = some k
    · rw [ofKey_cons_self he, outputs, ← h.self s e k he, ← h.output s e k he]
      congr 1
      rw [List.filter_eq_self]
      intro x hx
      rw [Option.mem_toList, h.output s e k he] at hx
      simpa using hokey s e k x he hx
    · have hnone : (body s e).2.toList.filter (fun x => okey x = k) = [] := by
        rw [List.filter_eq_nil_iff]
        intro x hx hk
        have hk : okey x = k := by simpa using hk
        rw [Option.mem_toList] at hx
        cases hkey : key e with
        | none =>
          rw [h.skip s e hkey] at hx
          cases hx
        | some k' =>
          rw [h.output s e k' hkey] at hx
          exact he (by rw [hkey, ← hk, hokey s e k' x hkey hx])
      rw [ofKey_cons_of_ne he, h.other s e k he, hnone, List.nil_append]

end

/-- The keys of the outputs are keys of entries, in order. -/
theorem keys_sublist (h : IsLocal body obs key cell out) {okey : γ → κ}
    (hokey : ∀ s e k x, key e = some k → out e (obs s k) = some x → okey x = k)
    (s : σ) (l : List ε) : ((loop body s l).2.map okey).Sublist (l.filterMap key) := by
  induction l generalizing s with
  | nil => exact List.Sublist.refl _
  | cons e l ih =>
    rw [loop_cons, List.map_append]
    cases hkey : key e with
    | none =>
      rw [List.filterMap_cons_none hkey, h.skip s e hkey]
      exact ih s
    | some k =>
      rw [List.filterMap_cons_some hkey, ← List.singleton_append]
      refine List.Sublist.append ?_ (ih _)
      rw [h.output s e k hkey]
      cases hout : out e (obs s k) with
      | none => exact List.nil_sublist _
      | some x =>
        rw [← hokey s e k x hkey hout]
        exact List.Sublist.refl _

variable {l : List ε} (hnodup : (l.filterMap key).Nodup)

section Distinct

variable [DecidableEq κ]

include hnodup

/-- With distinct keys an entry is alone with its key. -/
theorem ofKey_of_mem {e : ε} {k : κ} (he : e ∈ l) (hkey : key e = some k) :
    ofKey key k l = [e] := by
  induction l with
  | nil => cases he
  | cons e' l ih =>
    cases hkey' : key e' with
    | none =>
      rw [List.filterMap_cons_none hkey'] at hnodup
      rcases List.mem_cons.mp he with rfl | he
      · rw [hkey'] at hkey
        cases hkey
      · have hne : key e' ≠ some k := by
          rw [hkey']
          exact (Option.some_ne_none k).symm
        rw [ofKey_cons_of_ne hne, ih hnodup he]
    | some k' =>
      rw [List.filterMap_cons_some hkey', List.nodup_cons] at hnodup
      obtain ⟨hfresh, hnodup⟩ := hnodup
      rcases List.mem_cons.mp he with rfl | he
      · have hnone : ofKey key k l = [] := by
          rw [ofKey, List.filter_eq_nil_iff]
          intro e' he' hk
          apply hfresh
          rw [Option.some.inj (hkey'.symm.trans hkey)]
          exact List.mem_filterMap.mpr ⟨e', he', by simpa using hk⟩
        rw [ofKey_cons_self hkey, hnone]
      · have hne : key e' ≠ some k := by
          intro heq
          apply hfresh
          rw [Option.some.inj (hkey'.symm.trans heq)]
          exact List.mem_filterMap.mpr ⟨e, he, hkey⟩
        rw [ofKey_cons_of_ne hne, ih hnodup he]

theorem obs_loop_of_mem (h : IsLocal body obs key cell out) {e : ε} {k : κ} (he : e ∈ l)
    (hkey : key e = some k) (s : σ) : obs (loop body s l).1 k = cell e (obs s k) := by
  rw [obs_loop h, ofKey_of_mem hnodup he hkey, List.foldl_cons, List.foldl_nil]

end Distinct

theorem obs_loop_of_notMem [DecidableEq κ] (h : IsLocal body obs key cell out) {k : κ}
    (hk : ∀ e ∈ l, key e ≠ some k) (s : σ) : obs (loop body s l).1 k = obs s k := by
  have hnone : ofKey key k l = [] := by
    rw [ofKey, List.filter_eq_nil_iff]
    intro e he heq
    exact hk e he (by simpa using heq)
  rw [obs_loop h, hnone, List.foldl_nil]

include hnodup in
/-- With distinct keys the outputs depend on the first state alone. -/
theorem mem_loop_iff (h : IsLocal body obs key cell out) (s : σ) {x : γ} :
    x ∈ (loop body s l).2 ↔ ∃ e ∈ l, ∃ k, key e = some k ∧ out e (obs s k) = some x := by
  induction l generalizing s with
  | nil => simp
  | cons e l ih =>
    rw [loop_cons, List.mem_append, Option.mem_toList, List.exists_mem_cons_iff]
    cases hkey : key e with
    | none =>
      rw [List.filterMap_cons_none hkey] at hnodup
      rw [h.skip s e hkey, ih hnodup]
      simp
    | some k =>
      rw [List.filterMap_cons_some hkey, List.nodup_cons] at hnodup
      rw [ih hnodup.2, h.output s e k hkey]
      refine or_congr ?_ ?_
      · simp
      · -- the entries to come have other keys, so they see the first state
        refine exists_congr fun e' => and_congr_right fun he' => exists_congr fun k' =>
          and_congr_right fun hk' => ?_
        have hne : key e ≠ some k' := by
          intro heq
          apply hnodup.1
          rw [Option.some.inj (hkey.symm.trans heq)]
          exact List.mem_filterMap.mpr ⟨e', he', hk'⟩
        rw [h.other s e k' hne]

end LocalLoop
