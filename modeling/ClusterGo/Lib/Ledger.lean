import Mathlib.Data.List.Nodup
import Mathlib.Data.List.Perm.Basic

/-!
# Requests that are served at most once

Requests are accepted, travel to a server, are served there and answered.
At every point a request may get lost, and requests overtake each other, but
nothing copies one.  A `Ledger` holds the requests on their way and those
that are being served, and three records: what was accepted, what was
served, and which answers were given.

Requests are told apart by a key.  When no key is accepted twice, no request
is served twice and none gets a second answer: `Sound` is the invariant, and
each operation has a lemma that keeps it.

`pick` takes one element out of a list, at any place.
-/

/-- The requests of a system, and the records of what happened to them. -/
structure Ledger (α β : Type) where
  requests : List α := []
  serving : List α := []
  accepted : List α := []
  served : List α := []
  answers : List (α × β) := []

namespace Ledger

variable {α β κ : Type}

/-- The element at a place, and the list without it. -/
def pick (l : List α) (k : Nat) : Option (α × List α) :=
  l[k]?.map fun x => (x, l.eraseIdx k)

theorem pick_perm {l rest : List α} {k : Nat} {x : α} (h : pick l k = some (x, rest)) :
    List.Perm l (x :: rest) := by
  obtain ⟨y, hy, heq⟩ := Option.map_eq_some_iff.mp h
  obtain ⟨rfl, rfl⟩ := Prod.mk.inj heq
  obtain ⟨hk, rfl⟩ := List.getElem?_eq_some_iff.mp hy
  exact (List.getElem_cons_eraseIdx_perm hk).symm

/-- The requests that were not answered and may still be. -/
def unanswered (l : Ledger α β) : List α := l.requests ++ l.serving

variable (key : α → κ)

/-- Every request is in one place, was accepted once, and is served and
answered once at most. -/
structure Sound (l : Ledger α β) : Prop where
  accepted_nodup : (l.accepted.map key).Nodup
  unanswered_nodup : (l.unanswered.map key).Nodup
  unanswered_accepted : ∀ x ∈ l.unanswered, x ∈ l.accepted
  requests_new : ∀ x ∈ l.requests, key x ∉ l.served.map key
  serving_served : ∀ x ∈ l.serving, x ∈ l.served
  served_nodup : (l.served.map key).Nodup
  served_accepted : ∀ x ∈ l.served, x ∈ l.accepted
  unanswered_open : ∀ x ∈ l.unanswered, key x ∉ l.answers.map fun a => key a.1
  answers_nodup : (l.answers.map fun a => key a.1).Nodup
  answers_accepted : ∀ a ∈ l.answers, a.1 ∈ l.accepted

variable {key} {l : Ledger α β} {x : α}

theorem Sound.empty : Sound key ({} : Ledger α β) where
  accepted_nodup := List.nodup_nil
  unanswered_nodup := List.nodup_nil
  unanswered_accepted _ h := absurd h List.not_mem_nil
  requests_new _ h := absurd h List.not_mem_nil
  serving_served _ h := absurd h List.not_mem_nil
  served_nodup := List.nodup_nil
  served_accepted _ h := absurd h List.not_mem_nil
  unanswered_open _ h := absurd h List.not_mem_nil
  answers_nodup := List.nodup_nil
  answers_accepted _ h := absurd h List.not_mem_nil

/-! ## The operations -/

/-- A new request sets out. -/
def accept (l : Ledger α β) (x : α) : Ledger α β :=
  { l with requests := x :: l.requests, accepted := x :: l.accepted }

/-- A server takes a request. -/
def serve (l : Ledger α β) (x : α) (requests : List α) : Ledger α β :=
  { l with requests, serving := x :: l.serving, served := x :: l.served }

/-- An answer is given. -/
def answer (l : Ledger α β) (x : α) (y : β) : Ledger α β :=
  { l with answers := (x, y) :: l.answers }

theorem key_ne_of_mem {l : List α} {x y : α} (hnodup : ((x :: l).map key).Nodup) (hy : y ∈ l) :
    key y ≠ key x := by
  rw [List.map_cons, List.nodup_cons] at hnodup
  intro heq
  exact hnodup.1 (heq ▸ List.mem_map_of_mem hy)

/-- A request is accepted whose key is new. -/
theorem Sound.accept (h : Sound key l) (hnew : key x ∉ l.accepted.map key) :
    Sound key (l.accept x) := by
  have hfresh : ∀ {y}, y ∈ l.accepted → key y ≠ key x := by
    intro y hy heq
    exact hnew (heq ▸ List.mem_map_of_mem hy)
  have hnot : ∀ {m : List α}, (∀ y ∈ m, y ∈ l.accepted) → key x ∉ m.map key := by
    intro m hm hmem
    obtain ⟨y, hy, heq⟩ := List.mem_map.mp hmem
    exact hfresh (hm y hy) heq
  refine ⟨?_, ?_, ?_, ?_, h.serving_served, h.served_nodup, ?_, ?_, h.answers_nodup, ?_⟩
  · exact List.nodup_cons.mpr ⟨hnew, h.accepted_nodup⟩
  · exact List.nodup_cons.mpr ⟨hnot h.unanswered_accepted, h.unanswered_nodup⟩
  · intro y hy
    rcases List.mem_cons.mp hy with rfl | hy
    · exact List.mem_cons_self
    · exact List.mem_cons_of_mem _ (h.unanswered_accepted y hy)
  · intro y hy
    rcases List.mem_cons.mp hy with rfl | hy
    · exact hnot h.served_accepted
    · exact h.requests_new y hy
  · intro y hy
    exact List.mem_cons_of_mem _ (h.served_accepted y hy)
  · intro y hy
    rcases List.mem_cons.mp hy with rfl | hy
    · intro hmem
      obtain ⟨a, ha, heq⟩ := List.mem_map.mp hmem
      exact hfresh (h.answers_accepted a ha) heq
    · exact h.unanswered_open y hy
  · intro a ha
    exact List.mem_cons_of_mem _ (h.answers_accepted a ha)

/-- Requests get lost on their way or in a server. -/
theorem Sound.drop (h : Sound key l) {requests serving : List α}
    (hrequests : ∀ y ∈ requests, y ∈ l.requests) (hserving : ∀ y ∈ serving, y ∈ l.serving)
    (hnodup : ((requests ++ serving).map key).Nodup) :
    Sound key { l with requests, serving } := by
  have hsub : ∀ y ∈ requests ++ serving, y ∈ l.unanswered := by
    intro y hy
    rcases List.mem_append.mp hy with hy | hy
    · exact List.mem_append_left _ (hrequests y hy)
    · exact List.mem_append_right _ (hserving y hy)
  exact ⟨h.accepted_nodup, hnodup, fun y hy => h.unanswered_accepted y (hsub y hy),
    fun y hy => h.requests_new y (hrequests y hy), fun y hy => h.serving_served y (hserving y hy),
    h.served_nodup, h.served_accepted, fun y hy => h.unanswered_open y (hsub y hy),
    h.answers_nodup, h.answers_accepted⟩

/-- What is left of the requests that are not answered when one that was on
its way is taken out. -/
theorem Sound.cons_of_request (h : Sound key l) {rest : List α}
    (hperm : List.Perm l.requests (x :: rest)) :
    ((x :: (rest ++ l.serving)).map key).Nodup := by
  have hall : List.Perm l.unanswered (x :: (rest ++ l.serving)) := hperm.append_right l.serving
  exact (hall.map key).nodup_iff.mp h.unanswered_nodup

theorem Sound.cons_of_serving (h : Sound key l) {rest : List α}
    (hperm : List.Perm l.serving (x :: rest)) :
    ((x :: (l.requests ++ rest)).map key).Nodup := by
  have hall : List.Perm l.unanswered (x :: (l.requests ++ rest)) :=
    (hperm.append_left l.requests).trans List.perm_middle
  exact (hall.map key).nodup_iff.mp h.unanswered_nodup

theorem Sound.lose (h : Sound key l) {rest : List α}
    (hperm : List.Perm l.requests (x :: rest)) : Sound key { l with requests := rest } := by
  refine h.drop (fun y hy => hperm.mem_iff.mpr (List.mem_cons_of_mem _ hy)) (fun _ => id) ?_
  exact (List.nodup_cons.mp (h.cons_of_request hperm)).2

theorem Sound.giveUp (h : Sound key l) {rest : List α}
    (hperm : List.Perm l.serving (x :: rest)) : Sound key { l with serving := rest } := by
  refine h.drop (fun _ => id) (fun y hy => hperm.mem_iff.mpr (List.mem_cons_of_mem _ hy)) ?_
  exact (List.nodup_cons.mp (h.cons_of_serving hperm)).2

/-- A server takes a request that was not served before. -/
theorem Sound.serve (h : Sound key l) {rest : List α}
    (hperm : List.Perm l.requests (x :: rest)) : Sound key (l.serve x rest) := by
  have hnodup := h.cons_of_request hperm
  have hx : x ∈ l.requests := hperm.mem_iff.mpr List.mem_cons_self
  have hmove : List.Perm (x :: (rest ++ l.serving)) (rest ++ x :: l.serving) :=
    List.perm_middle.symm
  have hsub : ∀ y ∈ rest ++ x :: l.serving, y ∈ l.unanswered := by
    intro y hy
    exact (hperm.append_right l.serving).mem_iff.mpr (hmove.mem_iff.mpr hy)
  refine ⟨h.accepted_nodup, (hmove.map key).nodup_iff.mp hnodup,
    fun y hy => h.unanswered_accepted y (hsub y hy), ?_, ?_, ?_, ?_,
    fun y hy => h.unanswered_open y (hsub y hy), h.answers_nodup, h.answers_accepted⟩
  · intro y hy hmem
    rcases List.mem_cons.mp hmem with heq | hmem
    · exact key_ne_of_mem hnodup (List.mem_append_left _ hy) heq
    · exact h.requests_new y (hperm.mem_iff.mpr (List.mem_cons_of_mem _ hy)) hmem
  · intro y hy
    rcases List.mem_cons.mp hy with rfl | hy
    · exact List.mem_cons_self
    · exact List.mem_cons_of_mem _ (h.serving_served y hy)
  · exact List.nodup_cons.mpr ⟨h.requests_new x hx, h.served_nodup⟩
  · intro y hy
    rcases List.mem_cons.mp hy with rfl | hy
    · exact h.unanswered_accepted y (List.mem_append_left _ hx)
    · exact h.served_accepted y hy

/-- A request that is in no place any more, and has no answer, gets one. -/
theorem Sound.answer (h : Sound key l) (hx : x ∈ l.accepted)
    (hgone : ∀ y ∈ l.unanswered, key y ≠ key x)
    (hopen : key x ∉ l.answers.map fun a => key a.1) (y : β) : Sound key (l.answer x y) := by
  refine ⟨h.accepted_nodup, h.unanswered_nodup, h.unanswered_accepted, h.requests_new,
    h.serving_served, h.served_nodup, h.served_accepted, ?_, ?_, ?_⟩
  · intro z hz hmem
    rcases List.mem_cons.mp hmem with heq | hmem
    · exact hgone z hz heq
    · exact h.unanswered_open z hz hmem
  · exact List.nodup_cons.mpr ⟨hopen, h.answers_nodup⟩
  · intro a ha
    rcases List.mem_cons.mp ha with rfl | ha
    · exact hx
    · exact h.answers_accepted a ha

/-- A request on its way is answered without being served. -/
theorem Sound.refuse (h : Sound key l) {rest : List α}
    (hperm : List.Perm l.requests (x :: rest)) (y : β) :
    Sound key (({ l with requests := rest } : Ledger α β).answer x y) := by
  have hx : x ∈ l.unanswered := List.mem_append_left _ (hperm.mem_iff.mpr List.mem_cons_self)
  exact (h.lose hperm).answer (h.unanswered_accepted x hx)
    (fun _ hz => key_ne_of_mem (h.cons_of_request hperm) hz) (h.unanswered_open x hx) y

/-- A request that is being served is answered. -/
theorem Sound.reply (h : Sound key l) {rest : List α}
    (hperm : List.Perm l.serving (x :: rest)) (y : β) :
    Sound key (({ l with serving := rest } : Ledger α β).answer x y) := by
  have hx : x ∈ l.unanswered := List.mem_append_right _ (hperm.mem_iff.mpr List.mem_cons_self)
  exact (h.giveUp hperm).answer (h.unanswered_accepted x hx)
    (fun _ hz => key_ne_of_mem (h.cons_of_serving hperm) hz) (h.unanswered_open x hx) y

/-- The answer to a request is the only one with its key. -/
theorem Sound.answer_unique (h : Sound key l) {a b : α × β} (ha : a ∈ l.answers)
    (hb : b ∈ l.answers) (hkey : key a.1 = key b.1) : a = b :=
  List.inj_on_of_nodup_map h.answers_nodup ha hb hkey

end Ledger
