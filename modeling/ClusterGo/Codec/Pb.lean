import Mathlib.Logic.Function.Basic
import ClusterGo.Rpc.Bytes
import ClusterGo.Lib.Fallible

/-!
# The protobuf registry

`codec/pb/pb.go`.  A registry maps the name of a message type to a 32-bit
id, and an id back to the type: ids below the length of `metaArray` through
that array and the others through `idToMeta`.  `register` grows the array in
steps of 1024 up to 65536 slots.  There is one registry for each namespace,
and the first `Register` into a namespace creates it.

The protobuf library and `reflect` are not part of the repository.
`ProtoLib` collects what the registry calls of them.
-/

namespace ClusterGo.Codec

open Rpc Fallible

/-- The part of `reflect` and of the protobuf library that the registry
uses.  `T` is `reflect.Type` and `P` is `proto.Message`. -/
structure ProtoLib (T P : Type) where
  /-- `reflect.TypeOf`. -/
  typeOf : P → T
  /-- `Type.String`. -/
  name : T → String
  /-- `reflect.New`: an empty message of the type. -/
  new : T → P
  /-- `proto.MarshalOptions.MarshalAppend`. -/
  marshalAppend : Bytes → P → Except String Bytes
  /-- `proto.Unmarshal` into an empty message of the type. -/
  unmarshal : Bytes → T → Except String P

/-- The documented behaviour of `MarshalAppend`: its result is the slice it
was given with the encoding appended. -/
def ProtoLib.Appends {T P : Type} (lib : ProtoLib T P) : Prop :=
  ∀ dst m b, lib.marshalAppend dst m = .ok b → dst <+: b

/-- `pb.PbMeta`. -/
structure PbMeta (T : Type) where
  nameToID : String → Option UInt32
  idToMeta : UInt32 → Option T
  metaArray : List (Option T)

def maxArraySize : Nat := 65536

/-- `getArraySize`: the first multiple of 1024 above the id. -/
def getArraySize (id : UInt32) : Nat :=
  (((List.range' 1 64).map (· * 1024)).find? fun s => id.toNat < s).getD 0

/-- `make` of `size` nil slots, and `copy` of the old array into them. -/
def growArray {T : Type} (size : Nat) (a : List (Option T)) : List (Option T) :=
  a.take size ++ List.replicate (size - a.length) none

namespace PbMeta

variable {T P : Type}

/-- The registry that the first `Register` into a namespace creates. -/
def empty : PbMeta T :=
  { nameToID := fun _ => none, idToMeta := fun _ => none, metaArray := [] }

/-- `PbMeta.register`: the registry as the call leaves it, and the error. -/
def register (lib : ProtoLib T P) (ns : String) (m : PbMeta T) (msg : P) (id : UInt32) :
    PbMeta T × Option String :=
  let tt := lib.typeOf msg
  let name := lib.name tt
  match m.nameToID name with
  | some _ => (m, some (name ++ " already register to namespace:" ++ ns))
  | none =>
    let nameToID := Function.update m.nameToID name (some id)
    if id.toNat < maxArraySize then
      let metaArray :=
        if id.toNat ≥ m.metaArray.length then growArray (getArraySize id) m.metaArray
        else m.metaArray
      ({ m with nameToID, metaArray := metaArray.set id.toNat (some tt) }, none)
    else ({ m with nameToID, idToMeta := Function.update m.idToMeta id (some tt) }, none)

/-- `PbMeta.newMessage`, up to the type of the new message. -/
def newMessage (m : PbMeta T) (id : UInt32) : Except String T :=
  let invalid := .error ("invaild id:" ++ toString id.toNat)
  if id < UInt32.ofNat m.metaArray.length then
    match (m.metaArray[id.toNat]?).join with
    | none => invalid
    | some tt => .ok tt
  else
    match m.idToMeta id with
    | some tt => .ok tt
    | none => invalid

/-- `PbMeta.Marshal`: the new slice and the id of the type.  With an error
the source returns the slice it was given. -/
def marshal (lib : ProtoLib T P) (m : PbMeta T) (dst : Bytes) (o : P) :
    Except String (Bytes × UInt32) :=
  match m.nameToID (lib.name (lib.typeOf o)) with
  | none => .error ("unregister type:" ++ lib.name (lib.typeOf o))
  | some id => do
    let b ← lib.marshalAppend dst o
    return (b, id)

/-- `PbMeta.Unmarshal`. -/
def unmarshal (lib : ProtoLib T P) (m : PbMeta T) (id : UInt32) (buff : Bytes) :
    Except String P := do
  let tt ← m.newMessage id
  if buff.length > 0 then lib.unmarshal buff tt else return lib.new tt

/-- A successful `marshal` appends. -/
theorem marshal_append {lib : ProtoLib T P} (hlib : lib.Appends) {m : PbMeta T}
    {dst b : Bytes} {o : P} {id : UInt32} (h : m.marshal lib dst o = .ok (b, id)) :
    dst <+: b := by
  unfold marshal at h
  split at h
  · cases h
  · obtain ⟨c, hc, h⟩ := bind_eq_ok.mp h
    obtain ⟨rfl, _⟩ := Prod.mk.inj (Except.ok.inj h)
    exact hlib _ _ _ hc

end PbMeta

/-! ## The namespaces -/

/-- The variable `nameSpace`. -/
abbrev NameSpace (T : Type) := String → Option (PbMeta T)

variable {T P : Type}

/-- `Register`. -/
def register (lib : ProtoLib T P) (nameSpace : NameSpace T) (ns : String) (msg : P)
    (id : UInt32) : NameSpace T × Option String :=
  let r := ((nameSpace ns).getD .empty).register lib ns msg id
  (Function.update nameSpace ns (some r.1), r.2)

/-- `GetMeta`. -/
def getMeta (nameSpace : NameSpace T) (ns : String) : Option (PbMeta T) := nameSpace ns

end ClusterGo.Codec
