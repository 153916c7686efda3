import ClusterGo.Lib.Sharded
import ClusterGo.Lib.Transition
import ClusterGo.Rpc.Message

/-!
# The table of pending calls

`rpc/client.go`: `pendingCall` is an array of 32 maps, and `pending` selects
the map of a sequence number as `int(seq) % 32`.  The models of the calls
see one map; this is the table behind it, with the selection as the source
computes it on a 64-bit platform.

The conversion to `int` makes a sequence number from 2^63 on negative, and
the remainder of a negative number is negative or zero.  A negative index
panics (`pending_isSome_iff`).  Sequence numbers of the client itself are
far below, but `OnMessage` takes the number from the wire.

`response_handled_iff` is about every table that the client can build:
`OnMessage` handles a response as it should if and only if its number
selects a shard.
-/

namespace ClusterGo.Rpc.Pending

open Sharded Transition

variable {C V : Type}

/-! ## Selecting a shard -/

/-- `int(seq)` on a 64-bit platform. -/
def goInt (seq : UInt64) : Int :=
  if seq.toNat < 2 ^ 63 then seq.toNat else seq.toNat - 2 ^ 64

/-- `Client.pending`: the index of the shard.  The remainder has the sign of
the number, and `none` is the panic of an index outside the array. -/
def pending (seq : UInt64) : Option (Fin 32) :=
  let i := (goInt seq).tmod 32
  if h : 0 ≤ i ∧ i < 32 then some ⟨i.toNat, by omega⟩ else none

theorem tmod_nonneg_iff (seq : UInt64) :
    0 ≤ (goInt seq).tmod 32 ↔ seq.toNat < 2 ^ 63 ∨ seq.toNat % 32 = 0 := by
  have hlt := UInt64.toNat_lt seq
  unfold goInt
  by_cases hsmall : seq.toNat < 2 ^ 63
  · rw [if_pos hsmall]
    exact ⟨fun _ => Or.inl hsmall, fun _ => Int.tmod_nonneg _ (Int.natCast_nonneg _)⟩
  · rw [if_neg hsmall]
    -- the remainder is that of the distance to 2^64, with a minus sign
    have hflip : (seq.toNat : Int) - 2 ^ 64 = -((2 ^ 64 - seq.toNat : Nat) : Int) := by omega
    have hrem : ((2 ^ 64 - seq.toNat : Nat) : Int).tmod 32 =
        ((2 ^ 64 - seq.toNat) % 32 : Nat) := rfl
    rw [hflip, Int.neg_tmod, hrem]
    omega

theorem pending_isSome_iff (seq : UInt64) :
    (∃ k, pending seq = some k) ↔ seq.toNat < 2 ^ 63 ∨ seq.toNat % 32 = 0 := by
  have hlt : (goInt seq).tmod 32 < 32 := Int.tmod_lt_of_pos _ (by decide)
  rw [← tmod_nonneg_iff]
  unfold pending
  constructor
  · intro hex
    obtain ⟨k, hk⟩ := hex
    dsimp only at hk
    split at hk
    · rename_i h
      exact h.1
    · cases hk
  · intro hnonneg
    exact ⟨_, dif_pos ⟨hnonneg, hlt⟩⟩

/-! ## The table -/

/-- `pendingCall`: the contexts of the pending calls. -/
abbrev PendingCall (C : Type) := Table (Fin 32) UInt64 C

/-- `c.pending(seq).Store(seq, ctx)`. -/
def store (t : PendingCall C) (seq : UInt64) (ctx : C) : Option (PendingCall C) :=
  write pending t seq (some ctx)

/-- `c.pending(seq).Delete(seq)`. -/
def delete (t : PendingCall C) (seq : UInt64) : Option (PendingCall C) :=
  write pending t seq none

/-- `c.pending(seq).LoadAndDelete(seq)`. -/
def loadAndDelete (t : PendingCall C) (seq : UInt64) : Option (Option C × PendingCall C) := do
  let ctx ← read pending t seq
  let t ← write pending t seq none
  return (ctx, t)

/-- `Client.OnMessage`, up to what it does with the context: the table, and
the context that is given the response. -/
def onMessage (t : PendingCall C) (resp : ResponseMsg V) :
    Option (PendingCall C × Option (C × ResponseMsg V)) := do
  let (ctx, t) ← loadAndDelete t resp.seq
  return (t, ctx.map fun ctx => (ctx, resp))

/-- What the callers and `OnMessage` do to the table. -/
inductive Event (C V : Type) where
  | store (seq : UInt64) (ctx : C)
  | delete (seq : UInt64)
  | loadAndDelete (seq : UInt64)
  | onMessage (resp : ResponseMsg V)

/-- One operation; `none` is a panic. -/
def step (t : PendingCall C) : Event C V → Option (PendingCall C)
  | .store seq ctx => store t seq ctx
  | .delete seq => delete t seq
  | .loadAndDelete seq => (loadAndDelete t seq).map Prod.snd
  | .onMessage resp => (onMessage t resp).map Prod.fst

/-- `ctx` is stored under `seq`, in whatever shard. -/
def Stored (t : PendingCall C) (seq : UInt64) (ctx : C) : Prop := ∃ k, t k seq = some ctx

theorem loadAndDelete_eq {t : PendingCall C} {seq : UInt64} {k : Fin 32}
    (hk : pending seq = some k) :
    ∃ t', write pending t seq none = some t' ∧
      loadAndDelete t seq = some (view pending t seq, t') := by
  refine ⟨_, write_eq_some hk none, ?_⟩
  rw [loadAndDelete, read_eq_some hk, write_eq_some hk]
  rfl

theorem loadAndDelete_eq_some {t t' : PendingCall C} {seq : UInt64} {ctx : Option C}
    (h : loadAndDelete t seq = some (ctx, t')) : write pending t seq none = some t' := by
  obtain ⟨_, _, h⟩ := Option.bind_eq_some_iff.mp h
  obtain ⟨u, hu, h⟩ := Option.bind_eq_some_iff.mp h
  rw [hu, (Prod.mk.inj (Option.some.inj h)).2]

/-- Every operation writes one cell through the shard of its number. -/
theorem step_eq_some {t t' : PendingCall C} {e : Event C V} (h : step t e = some t') :
    ∃ seq v, write pending t seq v = some t' := by
  cases e with
  | store seq ctx => exact ⟨seq, _, h⟩
  | delete seq => exact ⟨seq, _, h⟩
  | loadAndDelete seq =>
    obtain ⟨⟨ctx, u⟩, hu, rfl⟩ := Option.map_eq_some_iff.mp h
    exact ⟨seq, none, loadAndDelete_eq_some hu⟩
  | onMessage resp =>
    obtain ⟨p, hp, rfl⟩ := Option.map_eq_some_iff.mp h
    obtain ⟨⟨ctx, u⟩, hu, hp⟩ := Option.bind_eq_some_iff.mp hp
    obtain rfl := Option.some.inj hp
    exact ⟨resp.seq, none, loadAndDelete_eq_some hu⟩

theorem placed_of_reachable {t : PendingCall C}
    (ht : Reachable (step (V := V)) (Sharded.empty : PendingCall C) t) : Placed pending t := by
  refine Reach.invariant placed_empty (fun s e u _ hs _ hstep => ?_) ht
  obtain ⟨_, _, hwrite⟩ := step_eq_some hstep
  exact hs.write hwrite

/-! ## Any response -/

/-- `OnMessage` completes the call that is stored under the number of the
response, if there is one, and leaves the others in place.  A call that is
stored under that number is found there and deleted there. -/
structure Handled (t : PendingCall C) (resp : ResponseMsg V) : Prop where
  completes : ∃ t' done, onMessage t resp = some (t', done) ∧
    (∀ ctx r, done = some (ctx, r) ↔ r = resp ∧ Stored t resp.seq ctx) ∧
    (∀ ctx, ¬ Stored t' resp.seq ctx) ∧
    ∀ seq, seq ≠ resp.seq → ∀ ctx, Stored t' seq ctx ↔ Stored t seq ctx
  same_shard : ∀ ctx, ∃ t₁ t₂, store t resp.seq ctx = some t₁ ∧
    loadAndDelete t₁ resp.seq = some (some ctx, t₂) ∧ ∀ ctx', ¬ Stored t₂ resp.seq ctx'

/-- Deleting a number leaves nothing under it, and the others alone. -/
theorem stored_of_delete {t t' : PendingCall C} (ht : Placed pending t) {seq : UInt64}
    (h : write pending t seq none = some t') :
    (∀ ctx, ¬ Stored t' seq ctx) ∧
      ∀ seq', seq' ≠ seq → ∀ ctx, Stored t' seq' ctx ↔ Stored t seq' ctx := by
  have hview := view_write h
  refine ⟨fun ctx hstored => ?_, fun seq' hne ctx => ?_⟩
  · have hcell := (ht.write h).exists_iff_view.mp hstored
    rw [hview, Function.update_self] at hcell
    cases hcell
  · have hcell := (ht.write h).exists_iff_view (k := seq') (a := ctx)
    rw [hview, Function.update_of_ne hne] at hcell
    exact hcell.trans ht.exists_iff_view.symm

/-- In every table that the client can build, `OnMessage` handles a response
if and only if its sequence number is below 2^63 or a multiple of 32. -/
theorem response_handled_iff {t : PendingCall C}
    (ht : Reachable (step (V := V)) (Sharded.empty : PendingCall C) t) (resp : ResponseMsg V) :
    Handled t resp ↔ resp.seq.toNat < 2 ^ 63 ∨ resp.seq.toNat % 32 = 0 := by
  have hplaced := placed_of_reachable ht
  rw [← pending_isSome_iff]
  constructor
  · intro hhandled
    obtain ⟨t', done, hmsg, _⟩ := hhandled.completes
    obtain ⟨⟨ctx, u⟩, hu, _⟩ := Option.bind_eq_some_iff.mp hmsg
    exact exists_of_write (loadAndDelete_eq_some hu)
  · intro hsome
    obtain ⟨k, hk⟩ := hsome
    refine ⟨?_, fun ctx => ?_⟩
    · obtain ⟨t', hwrite, hload⟩ := loadAndDelete_eq (t := t) hk
      refine ⟨t', _, by rw [onMessage, hload]; rfl, fun ctx r => ?_,
        stored_of_delete hplaced hwrite⟩
      rw [Stored, hplaced.exists_iff_view, Option.map_eq_some_iff]
      constructor
      · intro hex
        obtain ⟨ctx', hctx, heq⟩ := hex
        obtain ⟨rfl, rfl⟩ := Prod.mk.inj heq
        exact ⟨rfl, hctx⟩
      · intro hand
        exact ⟨ctx, hand.2, by rw [hand.1]⟩
    · obtain ⟨t₁, hstore⟩ : ∃ t₁, store t resp.seq ctx = some t₁ := ⟨_, write_eq_some hk _⟩
      obtain ⟨t₂, hwrite, hload⟩ := loadAndDelete_eq (t := t₁) hk
      rw [view_write hstore, Function.update_self] at hload
      exact ⟨t₁, t₂, hstore, hload, (stored_of_delete (hplaced.write hstore) hwrite).1⟩

/-! ## A response from the wire -/

/-- Two calls whose numbers have the same shard. -/
def sameShard : List (Event Nat Bytes) := [.store 5 100, .store 37 200]

/-- The response to the first one completes it and leaves the other. -/
theorem response_handled_sameShard :
    ∃ t t' : PendingCall Nat, run step Sharded.empty sameShard = some t ∧
      onMessage t ({ seq := 5 } : ResponseMsg Bytes) = some (t', some (100, { seq := 5 })) ∧
      Stored t' 37 200 ∧ ∀ ctx, ¬ Stored t' 5 ctx := by
  have hrun : run step Sharded.empty sameShard = some _ := rfl
  have hiff := response_handled_iff (Reach.of_run hrun) ({ seq := 5 } : ResponseMsg Bytes)
  obtain ⟨t', done, hmsg, hdone, hgone, hothers⟩ := (hiff.mpr (by decide)).completes
  have hfirst : done = some (100, { seq := 5 }) := (hdone 100 _).mpr ⟨rfl, 5, rfl⟩
  rw [hfirst] at hmsg
  exact ⟨_, t', hrun, hmsg, (hothers 37 (by decide) 200).mpr ⟨5, rfl⟩, hgone⟩

/-- The number 2^64 - 1 selects index -1. -/
theorem response_panics :
    onMessage (Sharded.empty : PendingCall Nat)
      ({ seq := 0xffffffffffffffff } : ResponseMsg Bytes) = none := rfl

end ClusterGo.Rpc.Pending
