import ClusterGo.Rpc.Pending
import Mathlib.Data.List.Induction

/-!
# The sequence numbers of the calls

`rpc/client.go`: `makeSequence` composes a sequence number of a timestamp in
seconds and a counter, each of 32 bits.  The timestamp is read before the
lock, so the calls take the lock in an order that need not be the order of
their timestamps.  The client keeps the largest timestamp so far and counts
the calls since it was set.

The pair of the two fields, read as one number, is the `value` of the
client.  A call returns the value it leaves behind, and the value grows with
every call unless the counter wraps (`value_lt_makeSequence`).  The counter
cannot wrap while fewer than 2^32 - 1 calls happen between two increases of
the timestamp (`Ample`), which gives `returned_strictly_increasing`.

The pending calls are stored under these numbers.  `store_finds_no_entry`
is about the callers and the table together: no call replaces the entry of
another.
-/

namespace ClusterGo.Rpc.Sequence

open Transition

/-- The fields of `Client` that make a sequence number. -/
structure Client where
  nextSequence : UInt32
  timestamp : UInt32
  timeOffset : UInt32
deriving DecidableEq, Repr

def newClient (timeOffset : UInt32) : Client := ⟨0, 0, timeOffset⟩

/-- `Client.getTimeStamp`, `since` nanoseconds after the start. -/
def getTimeStamp (c : Client) (since : Int) : UInt32 :=
  UInt32.ofInt (since.tdiv 1000000000) + c.timeOffset

/-- `Client.makeSequence` from the lock on, with the timestamp read before. -/
def makeSequence (c : Client) (timestamp : UInt32) : UInt64 × Client :=
  let c :=
    if timestamp > c.timestamp then { c with timestamp, nextSequence := 1 }
    else { c with nextSequence := c.nextSequence + 1 }
  (c.timestamp.toUInt64 <<< (32 : UInt64) + c.nextSequence.toUInt64, c)

/-! ## One call -/

/-- The two fields as one number. -/
def Client.value (c : Client) : Nat := c.timestamp.toNat * 2 ^ 32 + c.nextSequence.toNat

/-- The composition does not overflow. -/
theorem compose_toNat (timestamp nextSequence : UInt32) :
    (timestamp.toUInt64 <<< (32 : UInt64) + nextSequence.toUInt64).toNat =
      timestamp.toNat * 2 ^ 32 + nextSequence.toNat := by
  have ht : timestamp.toNat < 2 ^ 32 := timestamp.toNat_lt
  have hn : nextSequence.toNat < 2 ^ 32 := nextSequence.toNat_lt
  have hshift : (timestamp.toUInt64 <<< (32 : UInt64)).toNat = timestamp.toNat * 2 ^ 32 := by
    rw [UInt64.toNat_shiftLeft, UInt32.toNat_toUInt64]
    show timestamp.toNat <<< 32 % 2 ^ 64 = _
    rw [Nat.shiftLeft_eq]
    omega
  rw [UInt64.toNat_add, hshift, UInt32.toNat_toUInt64]
  omega

/-- A call returns the value that it leaves in the client. -/
theorem makeSequence_toNat (c : Client) (t : UInt32) :
    (makeSequence c t).1.toNat = (makeSequence c t).2.value :=
  compose_toNat _ _

/-- The counter has room for a call with this timestamp. -/
def Client.Room (c : Client) (t : UInt32) : Prop :=
  t > c.timestamp ∨ c.nextSequence.toNat + 1 < 2 ^ 32

/-- The value grows with a call, unless the counter wraps. -/
theorem value_lt_makeSequence {c : Client} {t : UInt32} (h : c.Room t) :
    c.value < (makeSequence c t).2.value := by
  have hn : c.nextSequence.toNat < 2 ^ 32 := c.nextSequence.toNat_lt
  unfold makeSequence Client.value
  by_cases ht : t > c.timestamp
  · rw [if_pos ht]
    rw [gt_iff_lt, UInt32.lt_iff_toNat_lt] at ht
    show c.timestamp.toNat * 2 ^ 32 + c.nextSequence.toNat < t.toNat * 2 ^ 32 + 1
    omega
  · have hroom := h.resolve_left ht
    rw [if_neg ht]
    show _ < c.timestamp.toNat * 2 ^ 32 + (c.nextSequence + 1).toNat
    rw [UInt32.toNat_add]
    show _ < c.timestamp.toNat * 2 ^ 32 + (c.nextSequence.toNat + 1) % 2 ^ 32
    omega

/-! ## Calls in the order of the lock -/

/-- The client after calls with these timestamps. -/
def after (c : Client) (ts : List UInt32) : Client :=
  ts.foldl (fun c t => (makeSequence c t).2) c

/-- The numbers that the calls return. -/
def returned : Client → List UInt32 → List UInt64
  | _, [] => []
  | c, t :: ts => (makeSequence c t).1 :: returned (makeSequence c t).2 ts

/-- Fewer than 2^32 - 1 calls happen while the timestamp of the client stays
the same. -/
def Ample (c : Client) (ts : List UInt32) : Prop :=
  ∀ before stay rest, ts = before ++ stay ++ rest →
    (after c (before ++ stay)).timestamp = (after c before).timestamp →
    stay.length < 2 ^ 32 - 1

variable {c : Client} {ts : List UInt32} {t : UInt32}

theorem after_append_singleton : after c (ts ++ [t]) = (makeSequence (after c ts) t).2 := by
  rw [after, List.foldl_append]
  rfl

theorem returned_append_singleton :
    returned c (ts ++ [t]) = returned c ts ++ [(makeSequence (after c ts) t).1] := by
  induction ts generalizing c with
  | nil => rfl
  | cons s ts ih =>
    rw [List.cons_append, returned, ih]
    rfl

theorem Ample.of_append_singleton (h : Ample c (ts ++ [t])) : Ample c ts := by
  intro before stay rest hts hsame
  apply h before stay (rest ++ [t]) _ hsame
  rw [hts, List.append_assoc]

/-- The counter is at most one more than the number of calls since the
timestamp was set. -/
theorem nextSequence_le (hc : c.nextSequence.toNat ≤ 1) (ts : List UInt32) :
    ∃ before stay, ts = before ++ stay ∧
      (after c ts).timestamp = (after c before).timestamp ∧
      (after c ts).nextSequence.toNat ≤ 1 + stay.length := by
  induction ts using List.reverseRecOn with
  | nil => exact ⟨[], [], rfl, rfl, hc⟩
  | append_singleton ts t ih =>
    by_cases ht : t > (after c ts).timestamp
    · -- the call sets the timestamp, and the stretch of calls starts anew
      refine ⟨ts ++ [t], [], by simp, rfl, ?_⟩
      rw [after_append_singleton, makeSequence, if_pos ht]
      simp
    · obtain ⟨before, stay, hts, hsame, hle⟩ := ih
      refine ⟨before, stay ++ [t], by rw [hts, List.append_assoc], ?_, ?_⟩
      · rw [after_append_singleton, makeSequence, if_neg ht]
        exact hsame
      · rw [after_append_singleton, makeSequence, if_neg ht]
        show ((after c ts).nextSequence + 1).toNat ≤ 1 + (stay ++ [t]).length
        rw [UInt32.toNat_add, List.length_append]
        have hmod := Nat.mod_le ((after c ts).nextSequence.toNat + 1) (2 ^ 32)
        show ((after c ts).nextSequence.toNat + 1) % 2 ^ 32 ≤ 1 + (stay.length + 1)
        omega

/-- In calls that are ample the counter always has room. -/
theorem Ample.room (hc : c.nextSequence.toNat ≤ 1) (h : Ample c (ts ++ [t])) :
    (after c ts).Room t := by
  by_cases ht : t > (after c ts).timestamp
  · exact Or.inl ht
  · obtain ⟨before, stay, hts, hsame, hle⟩ := nextSequence_le hc ts
    have hlen : (stay ++ [t]).length < 2 ^ 32 - 1 := by
      apply h before (stay ++ [t]) []
      · rw [hts, List.append_nil, List.append_assoc]
      · rw [← List.append_assoc, ← hts, after_append_singleton, makeSequence, if_neg ht]
        exact hsame
    rw [List.length_append, List.length_singleton] at hlen
    exact Or.inr (by omega)

/-- The numbers returned so far grow, and none exceeds the value of the
client. -/
theorem returned_growing (hc : c.nextSequence.toNat ≤ 1) (h : Ample c ts) :
    (returned c ts).Pairwise (· < ·) ∧ ∀ seq ∈ returned c ts, seq.toNat ≤ (after c ts).value := by
  induction ts using List.reverseRecOn with
  | nil => exact ⟨List.Pairwise.nil, fun _ hseq => nomatch hseq⟩
  | append_singleton ts t ih =>
    obtain ⟨hpairs, hle⟩ := ih h.of_append_singleton
    have hlt := value_lt_makeSequence (h.room hc)
    have hseq := makeSequence_toNat (after c ts) t
    rw [returned_append_singleton, after_append_singleton]
    constructor
    · rw [List.pairwise_append]
      refine ⟨hpairs, List.pairwise_singleton _ _, ?_⟩
      intro seq hmem next hnext
      have hbelow := hle seq hmem
      rw [List.mem_singleton.mp hnext, UInt64.lt_iff_toNat_lt]
      omega
    · intro seq hmem
      rcases List.mem_append.mp hmem with hmem | hmem
      · have hbelow := hle seq hmem
        omega
      · rw [List.mem_singleton.mp hmem, hseq]

/-- Whatever timestamps the calls have read, the numbers they return grow in
the order of the lock, hence differ, and no composition overflows. -/
theorem returned_strictly_increasing (timeOffset : UInt32) (ts : List UInt32)
    (h : Ample (newClient timeOffset) ts) :
    (returned (newClient timeOffset) ts).Pairwise (· < ·) ∧
      (returned (newClient timeOffset) ts).Nodup ∧
      ∀ c t, (makeSequence c t).1.toNat = (makeSequence c t).2.timestamp.toNat * 2 ^ 32 +
        (makeSequence c t).2.nextSequence.toNat := by
  have hpairs := (returned_growing (c := newClient timeOffset) (Nat.zero_le 1) h).1
  refine ⟨hpairs, hpairs.imp ?_, makeSequence_toNat⟩
  intro a b hlt heq
  rw [heq] at hlt
  exact UInt64.lt_irrefl b hlt

/-- Four calls, the third with a timestamp that goes back. -/
theorem returned_strictly_increasing_back :
    returned (newClient 7) [5, 5, 3, 6] = [21474836481, 21474836482, 21474836483, 25769803777] ∧
      (returned (newClient 7) [5, 5, 3, 6]).Pairwise (· < ·) := by
  refine ⟨by decide +kernel, (returned_strictly_increasing 7 [5, 5, 3, 6] ?_).1⟩
  intro before stay rest hts _
  have hlen := congrArg List.length hts
  simp only [List.length_append, List.length_cons, List.length_nil] at hlen
  omega

/-! ## The callers and the table -/

variable {C : Type}

/-- A client and the goroutines that call.  A goroutine holds a timestamp
until it takes the lock, and then a number until it stores its context. -/
structure System (C : Type) where
  client : Client
  read : Nat → Option UInt32
  held : Nat → Option UInt64
  pendingCall : Pending.PendingCall C

/-- What a goroutine does next.  A call without a reply does not store, and
`remove` is the `LoadAndDelete` of a response, a timer or a failed
request. -/
inductive Event (C : Type) where
  | getTimeStamp (g : Nat) (since : Int)
  | makeSequence (g : Nat)
  | store (g : Nat) (ctx : C)
  | oneway (g : Nat)
  | remove (seq : UInt64)

def step (s : System C) : Event C → Option (System C)
  | .getTimeStamp g since =>
    some { s with read := Function.update s.read g (some (getTimeStamp s.client since)) }
  | .makeSequence g => do
    let t ← s.read g
    let (seq, client) := makeSequence s.client t
    return { s with
      client
      read := Function.update s.read g none
      held := Function.update s.held g (some seq) }
  | .store g ctx => do
    let seq ← s.held g
    let pendingCall ← Pending.store s.pendingCall seq ctx
    return { s with held := Function.update s.held g none, pendingCall }
  | .oneway g => some { s with held := Function.update s.held g none }
  | .remove seq => do
    let (_, pendingCall) ← Pending.loadAndDelete s.pendingCall seq
    return { s with pendingCall }

def start (timeOffset : UInt32) : System C :=
  ⟨newClient timeOffset, fun _ => none, fun _ => none, Sharded.empty⟩

/-- The counter has room for the call that takes the lock. -/
def HasRoom (s : System C) : Event C → Prop
  | .makeSequence g => ∀ t, s.read g = some t → s.client.Room t
  | _ => True

/-- The numbers in use are at most the value of the client, and each is in
use once. -/
structure Issued (s : System C) : Prop where
  held_le : ∀ g seq, s.held g = some seq → seq.toNat ≤ s.client.value
  held_once : ∀ g g' seq, s.held g = some seq → s.held g' = some seq → g = g'
  stored_le : ∀ seq ctx, Pending.Stored s.pendingCall seq ctx → seq.toNat ≤ s.client.value
  stored_not_held : ∀ seq ctx g, Pending.Stored s.pendingCall seq ctx → s.held g ≠ some seq

/-- A number held after a goroutine got or gave up one. -/
theorem held_of_update {held : Nat → Option UInt64} {g g' : Nat} {v : Option UInt64} {seq : UInt64}
    (h : Function.update held g v g' = some seq) :
    g' = g ∧ v = some seq ∨ g' ≠ g ∧ held g' = some seq := by
  by_cases hg : g' = g
  · rw [hg, Function.update_self] at h
    exact Or.inl ⟨hg, h⟩
  · rw [Function.update_of_ne hg] at h
    exact Or.inr ⟨hg, h⟩

theorem held_of_release {held : Nat → Option UInt64} {g g' : Nat} {seq : UInt64}
    (h : Function.update held g none g' = some seq) : g' ≠ g ∧ held g' = some seq :=
  (held_of_update h).resolve_left fun hnone => nomatch hnone.2

theorem issued_release {s : System C} (h : Issued s) (g : Nat) :
    Issued { s with held := Function.update s.held g none } := by
  refine ⟨?_, ?_, h.stored_le, ?_⟩
  · intro g' seq hheld
    exact h.held_le g' seq (held_of_release hheld).2
  · intro g₁ g₂ seq h₁ h₂
    exact h.held_once g₁ g₂ seq (held_of_release h₁).2 (held_of_release h₂).2
  · intro seq ctx g' hstored hheld
    exact h.stored_not_held seq ctx g' hstored (held_of_release hheld).2

/-- A number that is new is larger than all numbers in use. -/
theorem issued_makeSequence {s : System C} (h : Issued s) (g : Nat) {t : UInt32}
    (hroom : s.client.Room t) (read : Nat → Option UInt32) :
    Issued { s with
      client := (makeSequence s.client t).2
      read := read
      held := Function.update s.held g (some (makeSequence s.client t).1) } := by
  have hlt := value_lt_makeSequence hroom
  have hnew := makeSequence_toNat s.client t
  -- what was in use before is not the new number
  have hfresh : ∀ seq : UInt64, seq.toNat ≤ s.client.value →
      some (makeSequence s.client t).1 ≠ some seq := by
    intro seq hle heq
    rw [Option.some_inj] at heq
    rw [← heq] at hle
    omega
  refine ⟨?_, ?_, ?_, ?_⟩
  · intro g' seq hheld
    show seq.toNat ≤ (makeSequence s.client t).2.value
    rcases held_of_update hheld with ⟨_, hseq⟩ | ⟨_, hheld⟩
    · rw [← Option.some.inj hseq, hnew]
    · have hle := h.held_le g' seq hheld
      omega
  · intro g₁ g₂ seq h₁ h₂
    rcases held_of_update h₁ with ⟨hg₁, hseq⟩ | ⟨_, h₁⟩
    · rcases held_of_update h₂ with ⟨hg₂, _⟩ | ⟨_, h₂⟩
      · rw [hg₁, hg₂]
      · exact absurd hseq (hfresh seq (h.held_le g₂ seq h₂))
    · rcases held_of_update h₂ with ⟨_, hseq⟩ | ⟨_, h₂⟩
      · exact absurd hseq (hfresh seq (h.held_le g₁ seq h₁))
      · exact h.held_once g₁ g₂ seq h₁ h₂
  · intro seq ctx hstored
    have hle := h.stored_le seq ctx hstored
    show seq.toNat ≤ (makeSequence s.client t).2.value
    omega
  · intro seq ctx g' hstored hheld
    rcases held_of_update hheld with ⟨_, hseq⟩ | ⟨_, hheld⟩
    · exact hfresh seq (h.stored_le seq ctx hstored) hseq
    · exact h.stored_not_held seq ctx g' hstored hheld

/-- A goroutine stores its context under the number it holds. -/
theorem issued_store {s : System C} (h : Issued s) {g : Nat} {seq : UInt64} {ctx : C}
    (hheld : s.held g = some seq) {pendingCall : Pending.PendingCall C}
    (hstore : Pending.store s.pendingCall seq ctx = some pendingCall) :
    Issued { s with held := Function.update s.held g none, pendingCall } := by
  have hrel := issued_release h g
  refine ⟨hrel.held_le, hrel.held_once, ?_, ?_⟩
  · intro seq' ctx' hstored
    obtain ⟨i, hentry⟩ := hstored
    rcases Sharded.entry_of_write hstore hentry with ⟨hseq, _⟩ | hold
    · rw [hseq]
      exact h.held_le g seq hheld
    · exact h.stored_le seq' ctx' ⟨i, hold⟩
  · intro seq' ctx' g' hstored hheld'
    obtain ⟨i, hentry⟩ := hstored
    obtain ⟨hne, hheld'⟩ := held_of_release hheld'
    rcases Sharded.entry_of_write hstore hentry with ⟨hseq, _⟩ | hold
    · rw [hseq] at hheld'
      exact hne (h.held_once g' g seq hheld' hheld)
    · exact h.stored_not_held seq' ctx' g' ⟨i, hold⟩ hheld'

theorem issued_remove {s : System C} (h : Issued s) {seq : UInt64}
    {pendingCall : Pending.PendingCall C}
    (hremove : Sharded.write Pending.pending s.pendingCall seq none = some pendingCall) :
    Issued { s with pendingCall } := by
  have hold : ∀ seq' ctx', Pending.Stored pendingCall seq' ctx' →
      Pending.Stored s.pendingCall seq' ctx' := by
    intro seq' ctx' hstored
    obtain ⟨i, hentry⟩ := hstored
    rcases Sharded.entry_of_write hremove hentry with ⟨_, hnone⟩ | hentry
    · cases hnone
    · exact ⟨i, hentry⟩
  exact ⟨h.held_le, h.held_once, fun seq' ctx' hs => h.stored_le seq' ctx' (hold seq' ctx' hs),
    fun seq' ctx' g hs => h.stored_not_held seq' ctx' g (hold seq' ctx' hs)⟩

theorem issued_step {s s' : System C} {e : Event C} (h : Issued s) (hroom : HasRoom s e)
    (hstep : step s e = some s') : Issued s' := by
  cases e with
  | getTimeStamp g since =>
    rw [← Option.some.inj hstep]
    exact ⟨h.held_le, h.held_once, h.stored_le, h.stored_not_held⟩
  | makeSequence g =>
    obtain ⟨t, hread, hstep⟩ := Option.bind_eq_some_iff.mp hstep
    rw [← Option.some.inj hstep]
    exact issued_makeSequence h g (hroom t hread) _
  | store g ctx =>
    obtain ⟨seq, hheld, hstep⟩ := Option.bind_eq_some_iff.mp hstep
    obtain ⟨pendingCall, hstore, hstep⟩ := Option.bind_eq_some_iff.mp hstep
    rw [← Option.some.inj hstep]
    exact issued_store h hheld hstore
  | oneway g =>
    rw [← Option.some.inj hstep]
    exact issued_release h g
  | remove seq =>
    obtain ⟨⟨ctx, pendingCall⟩, hload, hstep⟩ := Option.bind_eq_some_iff.mp hstep
    rw [← Option.some.inj hstep]
    exact issued_remove h (Pending.loadAndDelete_eq_some hload)

theorem issued_start (timeOffset : UInt32) : Issued (start timeOffset : System C) := by
  have hempty : ∀ seq ctx, ¬ Pending.Stored (start timeOffset : System C).pendingCall seq ctx := by
    intro seq ctx h
    obtain ⟨i, hentry⟩ := h
    cases hentry
  refine ⟨?_, ?_, ?_, ?_⟩
  · intro g seq h
    cases h
  · intro g g' seq h
    cases h
  · intro seq ctx h
    exact absurd h (hempty seq ctx)
  · intro seq ctx g h
    exact absurd h (hempty seq ctx)

/-- In every run in which the counter does not wrap, a goroutine that is
about to store its context finds no entry under its number. -/
theorem store_finds_no_entry {timeOffset : UInt32} {s : System C}
    (hs : Reach step HasRoom (start timeOffset) s) {g : Nat} {seq : UInt64}
    (hheld : s.held g = some seq) (ctx : C) : ¬ Pending.Stored s.pendingCall seq ctx := by
  have hissued : Issued s :=
    Reach.invariant (issued_start timeOffset)
      (fun s e s' _ h hroom hstep => issued_step h hroom hstep) hs
  intro hstored
  exact hissued.stored_not_held seq ctx g hstored hheld

end ClusterGo.Rpc.Sequence
