import Mathlib.Data.List.Nodup
import Mathlib.Data.List.Induction
import ClusterGo.Codec.Pb
import ClusterGo.Lib.Keyed

/-!
# What the registry resolves

After any sequence of `Register` calls the registry of a namespace answers
every lookup from one list: the calls that were the first for the name of
their type.  A name finds the call with that name.  An id finds the newest
call with that id, wherever the type is stored.

* `typeAt` is the lookup by id without the two storages, and
  `newMessage_eq` says that `newMessage` reads it.
* `Represents` is what every `register` keeps, and `represents_registerAll`
  is the sequence.
* `registry_consistent_iff` reads off when every registered type keeps
  resolving.  `register` refuses a second id for a name, but it does not
  refuse a second name for an id: the newer type then takes the place of
  the older one.
-/

namespace ClusterGo.Codec

open Rpc

variable {T P : Type}

/-! ## The lookup by id -/

/-- The type that is stored for an id, in the array or in the map. -/
def PbMeta.typeAt (m : PbMeta T) (id : UInt32) : Option T :=
  if id.toNat < maxArraySize then (m.metaArray[id.toNat]?).join else m.idToMeta id

/-- The array has at most 65536 slots, and the map holds the ids above
them. -/
structure PbMeta.Stored (m : PbMeta T) : Prop where
  length_le : m.metaArray.length ≤ maxArraySize
  idToMeta_small : ∀ id : UInt32, id.toNat < maxArraySize → m.idToMeta id = none

theorem PbMeta.newMessage_eq {m : PbMeta T} (hm : m.Stored) (id : UInt32) :
    m.newMessage id =
      match m.typeAt id with
      | some tt => .ok tt
      | none => .error ("invaild id:" ++ toString id.toNat) := by
  have hlen : (UInt32.ofNat m.metaArray.length).toNat = m.metaArray.length :=
    UInt32.toNat_ofNat_of_lt' (Nat.lt_of_le_of_lt hm.length_le (by decide))
  have hmax := hm.length_le
  unfold newMessage typeAt
  by_cases hid : id.toNat < m.metaArray.length
  · have hlt : id < UInt32.ofNat m.metaArray.length := by
      rw [UInt32.lt_iff_toNat_lt, hlen]
      exact hid
    rw [if_pos hlt, if_pos (Nat.lt_of_lt_of_le hid hmax)]
    cases (m.metaArray[id.toNat]?).join <;> rfl
  · have hlt : ¬ id < UInt32.ofNat m.metaArray.length := by
      rw [UInt32.lt_iff_toNat_lt, hlen]
      exact hid
    -- a small id behind the end of the array is in neither storage
    have hnone : m.metaArray[id.toNat]? = none := List.getElem?_eq_none (Nat.le_of_not_lt hid)
    rw [if_neg hlt, hnone]
    by_cases hsmall : id.toNat < maxArraySize
    · simp only [if_pos hsmall, hm.idToMeta_small id hsmall, Option.join_none]
    · cases m.idToMeta id <;> simp only [if_neg hsmall]

/-! ## Growing the array -/

theorem getArraySize_spec {id : UInt32} (h : id.toNat < maxArraySize) :
    id.toNat < getArraySize id ∧ getArraySize id ≤ maxArraySize := by
  cases hfind : ((List.range' 1 64).map (· * 1024)).find? fun s => id.toNat < s with
  | none =>
    have hlast := List.find?_eq_none.mp hfind maxArraySize (by decide)
    exact absurd h (by simpa using hlast)
  | some s =>
    obtain ⟨i, hi, rfl⟩ := List.mem_map.mp (List.mem_of_find?_eq_some hfind)
    have hlt := List.find?_some hfind
    rw [List.mem_range'_1] at hi
    rw [getArraySize, hfind, Option.getD_some, maxArraySize]
    exact ⟨by simpa using hlt, by omega⟩

theorem growArray_length {size : Nat} {a : List (Option T)} (h : a.length ≤ size) :
    (growArray size a).length = size := by
  rw [growArray, List.length_append, List.length_take, List.length_replicate]
  omega

/-- The new slots hold nil. -/
theorem growArray_slot {size : Nat} {a : List (Option T)} (h : a.length ≤ size) (i : Nat) :
    ((growArray size a)[i]?).join = (a[i]?).join := by
  rw [growArray, List.take_of_length_le h]
  by_cases hi : i < a.length
  · rw [List.getElem?_append_left hi]
  · rw [List.getElem?_append_right (Nat.le_of_not_lt hi),
      List.getElem?_eq_none (Nat.le_of_not_lt hi), List.getElem?_replicate]
    split_ifs <;> rfl

theorem set_slot {a : List (Option T)} {i : Nat} (h : i < a.length) (tt : T) (k : Nat) :
    ((a.set i (some tt))[k]?).join = if k = i then some tt else (a[k]?).join := by
  by_cases hk : k = i
  · rw [if_pos hk, hk, List.getElem?_set_self h]
    rfl
  · rw [if_neg hk, List.getElem?_set_ne (Ne.symm hk)]

/-! ## One call -/

section Register

variable {lib : ProtoLib T P} {m : PbMeta T} {msg : P} (ns : String) (id : UInt32)

theorem PbMeta.register_of_known {old : UInt32}
    (h : m.nameToID (lib.name (lib.typeOf msg)) = some old) :
    m.register lib ns msg id =
      (m, some (lib.name (lib.typeOf msg) ++ " already register to namespace:" ++ ns)) := by
  rw [register, h]

/-- A call for a new name writes the name and the id, and no other name
and no other id. -/
theorem PbMeta.register_of_new (hm : m.Stored)
    (h : m.nameToID (lib.name (lib.typeOf msg)) = none) :
    (m.register lib ns msg id).2 = none ∧ (m.register lib ns msg id).1.Stored ∧
      (m.register lib ns msg id).1.nameToID =
        Function.update m.nameToID (lib.name (lib.typeOf msg)) (some id) ∧
      ∀ k, (m.register lib ns msg id).1.typeAt k =
        if k = id then some (lib.typeOf msg) else m.typeAt k := by
  simp only [register, h]
  by_cases hid : id.toNat < maxArraySize
  · rw [if_pos hid]
    obtain ⟨hlt, hle⟩ := getArraySize_spec hid
    obtain ⟨a, ha⟩ : ∃ a, (if id.toNat ≥ m.metaArray.length then
      growArray (getArraySize id) m.metaArray else m.metaArray) = a := ⟨_, rfl⟩
    -- grown or not, the array has the slot and the old contents
    have harray : id.toNat < a.length ∧ a.length ≤ maxArraySize ∧
        ∀ i : Nat, (a[i]?).join = (m.metaArray[i]?).join := by
      rw [← ha]
      split_ifs with hgrow
      · have hold : m.metaArray.length ≤ getArraySize id := by omega
        rw [growArray_length hold]
        exact ⟨hlt, hle, growArray_slot hold⟩
      · exact ⟨by omega, hm.length_le, fun i => rfl⟩
    obtain ⟨hslot, hmax, hsame⟩ := harray
    rw [ha]
    refine ⟨rfl, ⟨?_, hm.idToMeta_small⟩, rfl, fun k => ?_⟩
    · rw [List.length_set]
      exact hmax
    · simp only [typeAt, set_slot hslot, hsame, UInt32.toNat_inj]
      by_cases hk : k = id
      · rw [if_pos hk, if_pos hk, hk, if_pos hid]
      · rw [if_neg hk, if_neg hk]
  · rw [if_neg hid]
    refine ⟨rfl, ⟨hm.length_le, fun k hk => ?_⟩, rfl, fun k => ?_⟩
    · show Function.update m.idToMeta id (some (lib.typeOf msg)) k = none
      have hne : k ≠ id := by
        intro heq
        exact hid (heq ▸ hk)
      rw [Function.update_of_ne hne]
      exact hm.idToMeta_small k hk
    · simp only [typeAt]
      by_cases hk : k = id
      · rw [hk, if_neg hid, if_pos rfl, Function.update_self]
      · rw [if_neg hk, Function.update_of_ne hk]

end Register

/-! ## A sequence of calls -/

/-- The arguments of one call of `Register`. -/
structure RegisterCall (P : Type) where
  ns : String
  msg : P
  id : UInt32

variable (lib : ProtoLib T P)

/-- The name that a call registers. -/
def RegisterCall.name (c : RegisterCall P) : String := lib.name (lib.typeOf c.msg)

/-- The namespaces after a sequence of calls. -/
def registerAll (calls : List (RegisterCall P)) : NameSpace T :=
  calls.foldl (fun nameSpace c => (register lib nameSpace c.ns c.msg c.id).1) fun _ => none

/-- The calls into a namespace that are the first for the name of their
type, the newest in front. -/
def firstOfName (ns : String) (calls : List (RegisterCall P)) : List (RegisterCall P) :=
  calls.foldl (fun acc c =>
    if c.ns = ns ∧ ∀ a ∈ acc, a.name lib ≠ c.name lib then c :: acc else acc) []

/-- The call `c` of the sequence returned nil. -/
def Accepted (ns : String) (calls : List (RegisterCall P)) (c : RegisterCall P) : Prop :=
  ∃ before after, calls = before ++ c :: after ∧ c.ns = ns ∧
    (register lib (registerAll lib before) c.ns c.msg c.id).2 = none

theorem registerAll_concat (calls : List (RegisterCall P)) (c : RegisterCall P) :
    registerAll lib (calls ++ [c]) =
      (register lib (registerAll lib calls) c.ns c.msg c.id).1 := by
  rw [registerAll, List.foldl_append]
  rfl

theorem firstOfName_concat (ns : String) (calls : List (RegisterCall P)) (c : RegisterCall P) :
    firstOfName lib ns (calls ++ [c]) =
      if c.ns = ns ∧ ∀ a ∈ firstOfName lib ns calls, a.name lib ≠ c.name lib then
        c :: firstOfName lib ns calls
      else firstOfName lib ns calls := by
  rw [firstOfName, List.foldl_append]
  rfl

/-- The registry of a namespace answers from the calls `acc`. -/
structure Represents (acc : List (RegisterCall P)) (m : PbMeta T) : Prop where
  stored : m.Stored
  names_nodup : (acc.map (·.name lib)).Nodup
  nameToID : ∀ n, m.nameToID n = (acc.find? fun c => c.name lib = n).map (·.id)
  typeAt : ∀ id, m.typeAt id = (acc.find? fun c => c.id = id).map fun c => lib.typeOf c.msg

variable {lib}

theorem represents_empty : Represents lib [] (PbMeta.empty : PbMeta T) where
  stored := ⟨Nat.zero_le _, fun _ _ => rfl⟩
  names_nodup := List.nodup_nil
  nameToID := fun _ => rfl
  typeAt := fun id => by
    unfold PbMeta.typeAt PbMeta.empty
    split_ifs <;> rfl

variable {acc : List (RegisterCall P)} {m : PbMeta T} {c : RegisterCall P}

theorem Represents.nameToID_eq_none (h : Represents lib acc m) {n : String} :
    m.nameToID n = none ↔ ∀ a ∈ acc, a.name lib ≠ n := by
  rw [h.nameToID, Option.map_eq_none_iff, List.find?_eq_none]
  simp only [decide_eq_true_eq]

/-- A call for a known name is refused and changes nothing. -/
theorem Represents.register_known (h : Represents lib acc m)
    (hc : ¬ ∀ a ∈ acc, a.name lib ≠ c.name lib) :
    ∃ text, m.register lib c.ns c.msg c.id = (m, some text) := by
  cases hid : m.nameToID (c.name lib) with
  | none => exact absurd (h.nameToID_eq_none.mp hid) hc
  | some id => exact ⟨_, PbMeta.register_of_known c.ns c.id hid⟩

/-- A call for a new name is accepted and joins the list. -/
theorem Represents.register_new (h : Represents lib acc m)
    (hc : ∀ a ∈ acc, a.name lib ≠ c.name lib) :
    (m.register lib c.ns c.msg c.id).2 = none ∧
      Represents lib (c :: acc) (m.register lib c.ns c.msg c.id).1 := by
  obtain ⟨hnil, hstored, hname, htype⟩ :=
    PbMeta.register_of_new c.ns c.id h.stored (h.nameToID_eq_none.mpr hc)
  refine ⟨hnil, hstored, ?_, fun n => ?_, fun id => ?_⟩
  · rw [List.map_cons, List.nodup_cons, List.mem_map]
    refine ⟨fun hmem => ?_, h.names_nodup⟩
    obtain ⟨a, ha, heq⟩ := hmem
    exact hc a ha heq
  · rw [hname, List.find?_cons]
    by_cases hn : c.name lib = n
    · rw [← hn, RegisterCall.name, Function.update_self]
      simp
    · have hne : n ≠ lib.name (lib.typeOf c.msg) := Ne.symm hn
      rw [Function.update_of_ne hne, h.nameToID]
      simp [hn]
  · rw [htype, List.find?_cons]
    by_cases hk : c.id = id
    · rw [if_pos hk.symm]
      simp [hk]
    · rw [if_neg (Ne.symm hk), h.typeAt]
      simp [hk]

/-- What a call of `Register` does to its own namespace. -/
theorem register_ns (nameSpace : NameSpace T) (c : RegisterCall P) :
    (register lib nameSpace c.ns c.msg c.id).1 c.ns =
      some ((nameSpace c.ns).getD .empty |>.register lib c.ns c.msg c.id).1 :=
  Function.update_self ..

/-- The other namespaces are left alone. -/
theorem register_of_ne (nameSpace : NameSpace T) {ns : String} (h : ns ≠ c.ns) :
    (register lib nameSpace c.ns c.msg c.id).1 ns = nameSpace ns :=
  Function.update_of_ne h ..

theorem represents_registerAll (lib : ProtoLib T P) (ns : String) (calls : List (RegisterCall P)) :
    Represents lib (firstOfName lib ns calls) ((registerAll lib calls ns).getD .empty) := by
  induction calls using List.reverseRecOn with
  | nil => exact represents_empty
  | append_singleton calls c ih =>
    rw [registerAll_concat, firstOfName_concat]
    by_cases hns : c.ns = ns
    · subst hns
      rw [register_ns, Option.getD_some]
      split_ifs with hnew
      · exact (ih.register_new hnew.2).2
      · obtain ⟨text, hknown⟩ := ih.register_known fun hall => hnew ⟨rfl, hall⟩
        rw [hknown]
        exact ih
    · rw [register_of_ne _ (Ne.symm hns), if_neg fun hand => hns hand.1]
      exact ih

/-- A namespace with a registered type has a registry. -/
theorem registerAll_eq_some (ns : String) {calls : List (RegisterCall P)}
    (h : firstOfName lib ns calls ≠ []) : ∃ m, registerAll lib calls ns = some m := by
  induction calls using List.reverseRecOn with
  | nil => exact absurd rfl h
  | append_singleton calls c ih =>
    rw [registerAll_concat]
    by_cases hns : c.ns = ns
    · subst hns
      exact ⟨_, register_ns _ c⟩
    · rw [firstOfName_concat, if_neg fun hand => hns hand.1] at h
      rw [register_of_ne _ (Ne.symm hns)]
      exact ih h

/-- `Register` returns nil exactly for the first call with a name. -/
theorem register_eq_nil_iff (calls : List (RegisterCall P)) (c : RegisterCall P) :
    (register lib (registerAll lib calls) c.ns c.msg c.id).2 = none ↔
      ∀ a ∈ firstOfName lib c.ns calls, a.name lib ≠ c.name lib := by
  have hrep := represents_registerAll lib c.ns calls
  constructor
  · intro hnil
    by_contra hknown
    obtain ⟨text, htext⟩ := hrep.register_known hknown
    rw [register, htext] at hnil
    cases hnil
  · intro hnew
    exact (hrep.register_new hnew).1

theorem accepted_iff (ns : String) (calls : List (RegisterCall P)) (c : RegisterCall P) :
    Accepted lib ns calls c ↔ c ∈ firstOfName lib ns calls := by
  induction calls using List.reverseRecOn with
  | nil => simp [Accepted, firstOfName]
  | append_singleton calls d ih =>
    -- the call is the last one, or it is one of the calls before
    have hsplit : Accepted lib ns (calls ++ [d]) c ↔
        Accepted lib ns calls c ∨ (c = d ∧ d.ns = ns ∧
          (register lib (registerAll lib calls) d.ns d.msg d.id).2 = none) := by
      constructor
      · intro hacc
        obtain ⟨before, after, heq, hns, hnil⟩ := hacc
        rcases List.eq_nil_or_concat after with rfl | ⟨after, e, rfl⟩
        · obtain ⟨rfl, hd⟩ := List.append_inj' heq rfl
          obtain rfl := List.singleton_inj.mp hd
          exact Or.inr ⟨rfl, hns, hnil⟩
        · rw [List.concat_eq_append, ← List.cons_append, ← List.append_assoc] at heq
          obtain ⟨hcalls, _⟩ := List.append_inj' heq rfl
          exact Or.inl ⟨before, after, hcalls, hns, hnil⟩
      · intro hor
        rcases hor with ⟨before, after, rfl, hns, hnil⟩ | ⟨rfl, hns, hnil⟩
        · exact ⟨before, after ++ [d], by simp, hns, hnil⟩
        · exact ⟨calls, [], rfl, hns, hnil⟩
    rw [hsplit, ih, firstOfName_concat, register_eq_nil_iff]
    split_ifs with hnew
    · obtain ⟨rfl, hnew⟩ := hnew
      rw [List.mem_cons]
      constructor
      · intro hor
        rcases hor with hmem | ⟨rfl, _⟩
        · exact Or.inr hmem
        · exact Or.inl rfl
      · intro hor
        rcases hor with rfl | hmem
        · exact Or.inr ⟨rfl, rfl, hnew⟩
        · exact Or.inl hmem
    · constructor
      · intro hor
        rcases hor with hmem | ⟨_, rfl, hall⟩
        · exact hmem
        · exact absurd ⟨rfl, hall⟩ hnew
      · exact Or.inl

/-! ## When every registered type keeps resolving -/

/-- Every type whose `Register` returned nil resolves after the whole
sequence, an id of no such type gives an error, and a refused call leaves
all registries as they were. -/
structure Consistent (lib : ProtoLib T P) (ns : String) (calls : List (RegisterCall P)) :
    Prop where
  resolves : ∀ c, Accepted lib ns calls c →
    ∃ m id, getMeta (registerAll lib calls) ns = some m ∧ m.nameToID (c.name lib) = some id ∧
      m.newMessage id = .ok (lib.typeOf c.msg)
  unknown : ∀ m id, getMeta (registerAll lib calls) ns = some m →
    (∀ c, Accepted lib ns calls c → c.id ≠ id) → ∃ text, m.newMessage id = .error text
  refused : ∀ before c after, calls = before ++ c :: after →
    (register lib (registerAll lib before) c.ns c.msg c.id).2 ≠ none →
    (register lib (registerAll lib before) c.ns c.msg c.id).1 = registerAll lib before

theorem Represents.nameToID_of_mem (h : Represents lib acc m) (hc : c ∈ acc) :
    m.nameToID (c.name lib) = some c.id := by
  rw [h.nameToID, Keyed.find?_key_of_mem h.names_nodup hc]
  rfl

/-- A registered type resolves to itself if and only if it is the newest
with its id. -/
theorem Represents.newMessage_of_mem (h : Represents lib acc m) (hc : c ∈ acc) :
    m.newMessage c.id = .ok (lib.typeOf c.msg) ↔ acc.find? (fun a => a.id = c.id) = some c := by
  rw [PbMeta.newMessage_eq h.stored, h.typeAt]
  cases hfind : acc.find? fun a => a.id = c.id with
  | none => simp
  | some a =>
    simp only [Option.map_some, Except.ok.injEq, Option.some.injEq]
    constructor
    · intro htype
      -- one type has one name, and no name is registered twice
      exact List.inj_on_of_nodup_map h.names_nodup (List.mem_of_find?_eq_some hfind) hc
        (congrArg lib.name htype)
    · intro heq
      rw [heq]

theorem Represents.newMessage_unknown (h : Represents lib acc m) {id : UInt32}
    (hid : ∀ c ∈ acc, c.id ≠ id) :
    m.newMessage id = .error ("invaild id:" ++ toString id.toNat) := by
  have hnone : acc.find? (fun c => c.id = id) = none := by
    rw [List.find?_eq_none]
    simpa using hid
  rw [PbMeta.newMessage_eq h.stored, h.typeAt, hnone]
  rfl

/-- A refused call changes nothing, in any sequence. -/
theorem register_refused {calls : List (RegisterCall P)}
    (h : (register lib (registerAll lib calls) c.ns c.msg c.id).2 ≠ none) :
    (register lib (registerAll lib calls) c.ns c.msg c.id).1 = registerAll lib calls := by
  have hknown := mt (register_eq_nil_iff calls c).mpr h
  have hne : firstOfName lib c.ns calls ≠ [] := by
    intro hnil
    rw [hnil] at hknown
    exact hknown fun a ha => absurd ha List.not_mem_nil
  obtain ⟨m, hm⟩ := registerAll_eq_some c.ns hne
  have hrep := represents_registerAll lib c.ns calls
  obtain ⟨text, htext⟩ := hrep.register_known hknown
  rw [register, htext, hm, Option.getD_some, ← hm]
  exact Function.update_eq_self ..

/-- Every registered type keeps resolving if and only if no id was
registered for two names. -/
theorem registry_consistent_iff (lib : ProtoLib T P) (ns : String)
    (calls : List (RegisterCall P)) :
    Consistent lib ns calls ↔ ((firstOfName lib ns calls).map (·.id)).Nodup := by
  have hrep := represents_registerAll lib ns calls
  rw [← Keyed.find?_key_iff hrep.names_nodup.of_map]
  constructor
  · intro hcons c hc
    obtain ⟨m, id, hm, hid, hnew⟩ := hcons.resolves c ((accepted_iff ns calls c).mpr hc)
    rw [getMeta] at hm
    rw [hm, Option.getD_some] at hrep
    rw [hrep.nameToID_of_mem hc] at hid
    rw [← Option.some.inj hid] at hnew
    exact (hrep.newMessage_of_mem hc).mp hnew
  · intro hfirst
    refine ⟨fun c hc => ?_, fun m id hm hid => ?_, fun before c after _ href => ?_⟩
    · have hmem := (accepted_iff ns calls c).mp hc
      obtain ⟨m, hm⟩ := registerAll_eq_some ns (List.ne_nil_of_mem hmem)
      rw [hm, Option.getD_some] at hrep
      exact ⟨m, c.id, hm, hrep.nameToID_of_mem hmem,
        (hrep.newMessage_of_mem hmem).mpr (hfirst c hmem)⟩
    · rw [getMeta] at hm
      rw [hm, Option.getD_some] at hrep
      exact ⟨_, hrep.newMessage_unknown fun c hc => hid c ((accepted_iff ns calls c).mpr hc)⟩
    · exact register_refused href

/-! ## Two types with one id -/

/-- A protobuf library whose messages are a type name and their own
encoding. -/
def rawProto : ProtoLib String (String × Bytes) where
  typeOf := Prod.fst
  name := id
  new := fun tt => (tt, [])
  marshalAppend := fun dst m => .ok (dst ++ m.2)
  unmarshal := fun b tt => .ok (tt, b)

def echoCall : RegisterCall (String × Bytes) := { ns := "ss", msg := ("*ss.Echo", []), id := 1 }

def pingCall : RegisterCall (String × Bytes) := { ns := "ss", msg := ("*ss.Ping", []), id := 1 }

/-- Both calls return nil, and the id of `Echo` then makes a `Ping`. -/
theorem registry_not_consistent : ¬ Consistent rawProto "ss" [echoCall, pingCall] := by
  intro hcons
  have hacc : Accepted rawProto "ss" [echoCall, pingCall] echoCall :=
    ⟨[], [pingCall], rfl, rfl, rfl⟩
  obtain ⟨m, id, hm, hid, hnew⟩ := hcons.resolves echoCall hacc
  obtain rfl := Option.some.inj hm
  obtain rfl : (1 : UInt32) = id := Option.some.inj hid
  exact absurd hnew (by decide +kernel)

end ClusterGo.Codec
