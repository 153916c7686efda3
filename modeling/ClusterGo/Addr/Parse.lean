import ClusterGo.Addr
import ClusterGo.Lib.Decimal
import Mathlib.Algebra.Group.Int.Defs
import Mathlib.Algebra.Group.Nat.Defs

/-!
# Logic addresses as text

`LogicAddr.String` prints the three fields of an address, and
`MakeLogicAddr` and `MakeHarborLogicAddr` of `addr/addr.go` read them back.
The two readers differ in the check of the type only: the first takes the
types 1 to 254 and the second takes 255, the type of harbors.

The fields are read by `strconv.Atoi` as 64-bit numbers and converted to 32
bits afterwards, so a number outside the range of a field is not always
refused.

`makeLogicAddr_string` says for every address what `MakeLogicAddr` makes of
its text.
-/

namespace ClusterGo

/-! ## The fields as numbers -/

namespace LogicAddr

theorem cluster_toNat (a : LogicAddr) : a.cluster.toNat = a.val.toNat / 2 ^ 18 := by
  have hlt : a.val.toNat < 2 ^ 32 := a.val.toNat_lt
  have hmask : clusterMask.toNat >>> 18 = 2 ^ 14 - 1 := by decide
  show ((a.val &&& clusterMask) >>> 18).toNat = _
  rw [UInt32.toNat_shiftRight, UInt32.toNat_and]
  show (a.val.toNat &&& clusterMask.toNat) >>> 18 = _
  rw [Nat.shiftRight_and_distrib, hmask, Nat.and_two_pow_sub_one_eq_mod,
    Nat.shiftRight_eq_div_pow]
  omega

theorem type_toNat (a : LogicAddr) : a.type.toNat = a.val.toNat / 2 ^ 10 % 2 ^ 8 := by
  have hmask : typeMask.toNat >>> 10 = 2 ^ 8 - 1 := by decide
  show ((a.val &&& typeMask) >>> 10).toNat = _
  rw [UInt32.toNat_shiftRight, UInt32.toNat_and]
  show (a.val.toNat &&& typeMask.toNat) >>> 10 = _
  rw [Nat.shiftRight_and_distrib, hmask, Nat.and_two_pow_sub_one_eq_mod,
    Nat.shiftRight_eq_div_pow]

theorem server_toNat (a : LogicAddr) : a.server.toNat = a.val.toNat % 2 ^ 10 := by
  have hmask : serverMask.toNat = 2 ^ 10 - 1 := by decide
  show (a.val &&& serverMask).toNat = _
  rw [UInt32.toNat_and, hmask, Nat.and_two_pow_sub_one_eq_mod]

theorem ofFields_toNat {cluster type server : UInt32} (hcluster : cluster.toNat < 2 ^ 14)
    (htype : type.toNat < 2 ^ 8) (hserver : server.toNat < 2 ^ 10) :
    (ofFields cluster type server).val.toNat =
      cluster.toNat * 2 ^ 18 + type.toNat * 2 ^ 10 + server.toNat := by
  have hlow : type.toNat <<< 10 ||| server.toNat = type.toNat * 2 ^ 10 + server.toNat := by
    rw [← Nat.shiftLeft_add_eq_or_of_lt hserver, Nat.shiftLeft_eq]
  have hlt : type.toNat * 2 ^ 10 + server.toNat < 2 ^ 18 := by omega
  have hc : (cluster <<< 18).toNat = cluster.toNat <<< 18 := by
    rw [UInt32.toNat_shiftLeft]
    show cluster.toNat <<< 18 % 2 ^ 32 = _
    rw [Nat.shiftLeft_eq]
    omega
  have ht : (type <<< 10).toNat = type.toNat <<< 10 := by
    rw [UInt32.toNat_shiftLeft]
    show type.toNat <<< 10 % 2 ^ 32 = _
    rw [Nat.shiftLeft_eq]
    omega
  show (type <<< 10 ||| cluster <<< 18 ||| server).toNat = _
  rw [UInt32.toNat_or, UInt32.toNat_or, hc, ht, Nat.or_comm (type.toNat <<< 10), Nat.or_assoc,
    hlow, ← Nat.shiftLeft_add_eq_or_of_lt hlt, Nat.shiftLeft_eq]
  omega

/-- An address is made of its fields. -/
theorem ofFields_self (a : LogicAddr) : ofFields a.cluster a.type a.server = a := by
  have hlt : a.val.toNat < 2 ^ 32 := a.val.toNat_lt
  have hcluster := a.cluster_toNat
  have htype := a.type_toNat
  have hserver := a.server_toNat
  have hval : (ofFields a.cluster a.type a.server).val = a.val := by
    apply UInt32.toNat_inj.mp
    rw [ofFields_toNat (by omega) (by omega) (by omega)]
    omega
  rw [← LogicAddr.mk.injEq] at hval
  exact hval

end LogicAddr

/-! ## The readers -/

/-- The errors of the readers. -/
inductive AddrErr where
  | invaildAddrFmt
  | harborType
  | invaildType
  | invaildCluster
  | invaildServer
deriving DecidableEq, Repr

def AddrErr.text : AddrErr → String
  | .invaildAddrFmt => "invaild addr format"
  | .harborType => "type should be 255"
  | .invaildType => "type should between(1,254)"
  | .invaildCluster => "cluster should between(1,16383)"
  | .invaildServer => "server should between(0,1023)"

/-- `strconv.Atoi` on a 64-bit machine, with its error as `none`. -/
def atoi (text : List Char) : Option Int :=
  (Decimal.integer text).filter fun v => -2 ^ 63 ≤ v ∧ v < 2 ^ 63

/-- The common text of the two readers, with both results at each exit.
`checkType` is the check of the type, which is all they differ in. -/
def parseLogicAddr (checkType : Int → Option AddrErr) (addr : String) :
    LogicAddr × Option AddrErr :=
  match addr.toList.splitOn '.' with
  | [v₀, v₁, v₂] =>
    match atoi v₀ with
    | none => (⟨0⟩, some .invaildCluster)
    | some cluster =>
      if cluster = 0 ∨ UInt32.ofInt cluster > clusterMask >>> 18 then
        (⟨0⟩, some .invaildCluster)
      else
        match atoi v₁ with
        | none => (⟨0⟩, some .invaildType)
        | some tt =>
          match checkType tt with
          | some err => (⟨0⟩, some err)
          | none =>
            match atoi v₂ with
            | none => (⟨0⟩, some .invaildServer)
            | some server =>
              if UInt32.ofInt server > serverMask then (⟨0⟩, some .invaildServer)
              else (.ofFields (UInt32.ofInt cluster) (UInt32.ofInt tt) (UInt32.ofInt server), none)
  | _ => (⟨0⟩, some .invaildAddrFmt)

/-- The check of `MakeLogicAddr`. -/
def checkNormalType (tt : Int) : Option AddrErr :=
  if tt = 0 ∨ UInt32.ofInt tt > (typeMask >>> 10) - 1 then some .invaildType else none

/-- The check of `MakeHarborLogicAddr`. -/
def checkHarborType (tt : Int) : Option AddrErr :=
  if UInt32.ofInt tt ≠ 255 then some .harborType else none

/-- What a caller takes of the two results. -/
def readLogicAddr (checkType : Int → Option AddrErr) (addr : String) :
    Except AddrErr LogicAddr :=
  match parseLogicAddr checkType addr with
  | (a, none) => .ok a
  | (_, some err) => .error err

def makeLogicAddr : String → Except AddrErr LogicAddr := readLogicAddr checkNormalType

def makeHarborLogicAddr : String → Except AddrErr LogicAddr := readLogicAddr checkHarborType

/-! ## The text of an address -/

/-- What `strings.Split` finds in the text of an address. -/
theorem splitOn_string (a : LogicAddr) :
    a.string.toList.splitOn '.' =
      [Nat.toDigits 10 a.cluster.toNat, Nat.toDigits 10 a.type.toNat,
        Nat.toDigits 10 a.server.toNat] := by
  let fields := [Nat.toDigits 10 a.cluster.toNat, Nat.toDigits 10 a.type.toNat,
    Nat.toDigits 10 a.server.toNat]
  have htext : a.string.toList = ['.'].intercalate fields := by
    simp [LogicAddr.string, fields, List.intercalate, Nat.toString_eq_repr]
  have hdots : ∀ field ∈ fields, '.' ∉ field := by
    intro field hfield hdot
    have hdigit : '.'.isDigit = true := by
      simp only [fields, List.mem_cons, List.not_mem_nil, or_false] at hfield
      rcases hfield with rfl | rfl | rfl <;> exact Decimal.isDigit_of_mem_toDigits hdot
    exact absurd hdigit (by decide)
  rw [htext, List.splitOn_intercalate _ hdots (by simp [fields])]

theorem LogicAddr.string_injective {a b : LogicAddr} (h : a.string = b.string) : a = b := by
  have hsplit : a.string.toList.splitOn '.' = b.string.toList.splitOn '.' := by rw [h]
  simp only [splitOn_string, List.cons.injEq, and_true] at hsplit
  obtain ⟨hcluster, htype, hserver⟩ := hsplit
  rw [← LogicAddr.ofFields_self a, ← LogicAddr.ofFields_self b,
    UInt32.toNat_inj.mp (Decimal.toDigits_injective hcluster),
    UInt32.toNat_inj.mp (Decimal.toDigits_injective htype),
    UInt32.toNat_inj.mp (Decimal.toDigits_injective hserver)]

theorem atoi_toDigits (v : UInt32) :
    atoi (Nat.toDigits 10 v.toNat) = some (v.toNat : Int) := by
  have hlt : v.toNat < 2 ^ 32 := v.toNat_lt
  rw [atoi, Decimal.integer_toDigits, Option.filter_some, if_pos]
  rw [decide_eq_true_iff]
  omega

theorem ofInt_toNat (v : UInt32) : UInt32.ofInt (v.toNat : Int) = v := by
  have hlt : v.toNat < 2 ^ 32 := v.toNat_lt
  have hmod : ((v.toNat : Int) % 2 ^ 32).toNat = v.toNat := by omega
  show UInt32.ofNat ((v.toNat : Int) % 2 ^ 32).toNat = v
  rw [hmod, UInt32.ofNat_toNat]

/-- A reader on the text of an address. -/
theorem readLogicAddr_string (checkType : Int → Option AddrErr) (a : LogicAddr) :
    readLogicAddr checkType a.string =
      if a.cluster = 0 then .error .invaildCluster
      else match checkType a.type.toNat with
        | some err => .error err
        | none => .ok a := by
  have hlt : a.val.toNat < 2 ^ 32 := a.val.toNat_lt
  have hcluster : ¬ a.cluster > clusterMask >>> 18 := by
    rw [gt_iff_lt, UInt32.lt_iff_toNat_lt, a.cluster_toNat,
      show (clusterMask >>> 18).toNat = 16383 by decide]
    omega
  have hserver : ¬ a.server > serverMask := by
    rw [gt_iff_lt, UInt32.lt_iff_toNat_lt, a.server_toNat, show serverMask.toNat = 1023 by decide]
    omega
  have hzero : (a.cluster.toNat : Int) = 0 ↔ a.cluster = 0 := by
    rw [Int.natCast_eq_zero, ← UInt32.toNat_inj]
    rfl
  simp only [readLogicAddr, parseLogicAddr, splitOn_string, atoi_toDigits, ofInt_toNat, hcluster,
    hserver, or_false, hzero, if_false, a.ofFields_self]
  split_ifs
  · rfl
  · cases checkType a.type.toNat <;> rfl

/-- `MakeLogicAddr` reads the text of an address back, unless the cluster
is 0 or the type is 0 or 255. -/
theorem makeLogicAddr_string (a : LogicAddr) :
    makeLogicAddr a.string =
      if a.cluster = 0 then .error .invaildCluster
      else if a.type = 0 ∨ a.type = harbarType then .error .invaildType
      else .ok a := by
  have htype : a.type.toNat < 2 ^ 8 := by
    rw [a.type_toNat]
    omega
  have hcheck : ((a.type.toNat : Int) = 0 ∨ a.type > (typeMask >>> 10) - 1) ↔
      (a.type = 0 ∨ a.type = harbarType) := by
    rw [Int.natCast_eq_zero, gt_iff_lt, UInt32.lt_iff_toNat_lt, ← UInt32.toNat_inj,
      ← UInt32.toNat_inj, show ((typeMask >>> 10) - 1).toNat = 254 by decide,
      show harbarType.toNat = 255 by decide, show (0 : UInt32).toNat = 0 by decide]
    omega
  rw [makeLogicAddr, readLogicAddr_string]
  simp only [checkNormalType, ofInt_toNat, hcheck]
  split_ifs <;> rfl

/-- `MakeHarborLogicAddr` reads the text of an address back, unless the
cluster is 0 or the type is not 255. -/
theorem makeHarborLogicAddr_string (a : LogicAddr) :
    makeHarborLogicAddr a.string =
      if a.cluster = 0 then .error .invaildCluster
      else if a.type ≠ harbarType then .error .harborType
      else .ok a := by
  rw [makeHarborLogicAddr, readLogicAddr_string]
  simp only [checkHarborType, ofInt_toNat, show (255 : UInt32) = harbarType from rfl]
  split_ifs <;> rfl

/-! ## Addresses from fields in range -/

/-- The numbers in a text of three fields. -/
def fieldsOf (addr : String) : Option (Int × Int × Int) :=
  match addr.toList.splitOn '.' with
  | [v₀, v₁, v₂] => do return (← atoi v₀, ← atoi v₁, ← atoi v₂)
  | _ => none

/-- The address is the answer of one of the readers to a text whose fields
are in the range of that reader. -/
def Produced (a : LogicAddr) : Prop :=
  ∃ text cluster tt server, fieldsOf text = some (cluster, tt, server) ∧
    (1 ≤ cluster ∧ cluster ≤ 16383) ∧ (0 ≤ server ∧ server ≤ 1023) ∧
    ((1 ≤ tt ∧ tt ≤ 254) ∧ makeLogicAddr text = .ok a ∨
      tt = 255 ∧ makeHarborLogicAddr text = .ok a)

theorem readLogicAddr_eq_ok_iff_parse {checkType : Int → Option AddrErr} {text : String}
    {a : LogicAddr} :
    readLogicAddr checkType text = .ok a ↔ parseLogicAddr checkType text = (a, none) := by
  unfold readLogicAddr
  rcases parseLogicAddr checkType text with ⟨b, _ | err⟩ <;> simp

/-- A reader answers exactly when the text has three numbers that pass its
checks, and the answer is put together from their low 32 bits. -/
theorem readLogicAddr_eq_ok {checkType : Int → Option AddrErr} {text : String} {a : LogicAddr} :
    readLogicAddr checkType text = .ok a ↔
      ∃ cluster tt server, fieldsOf text = some (cluster, tt, server) ∧
        (¬ (cluster = 0 ∨ UInt32.ofInt cluster > clusterMask >>> 18) ∧ checkType tt = none ∧
          ¬ UInt32.ofInt server > serverMask) ∧
        a = .ofFields (UInt32.ofInt cluster) (UInt32.ofInt tt) (UInt32.ofInt server) := by
  rw [readLogicAddr_eq_ok_iff_parse]
  constructor
  · intro h
    unfold parseLogicAddr at h
    unfold fieldsOf
    split at h
    · split at h
      · cases h
      · rename_i cluster hcluster
        split_ifs at h with hc
        · cases h
        · split at h
          · cases h
          · rename_i tt htt
            split at h
            · cases h
            · rename_i hcheck
              split at h
              · cases h
              · rename_i server hserver
                split_ifs at h with hs
                · cases h
                · cases h
                  refine ⟨cluster, tt, server, ?_, ⟨hc, hcheck, hs⟩, rfl⟩
                  simp only [hcluster, htt, hserver]
                  rfl
    · cases h
  · intro h
    obtain ⟨cluster, tt, server, hfields, ⟨hc, hcheck, hs⟩, ha⟩ := h
    unfold fieldsOf at hfields
    unfold parseLogicAddr
    split at hfields
    · simp only [Option.bind_eq_bind, Option.bind_eq_some_iff, Option.pure_def, Option.some_inj,
        Prod.mk.injEq] at hfields
      obtain ⟨c, hcluster, t, htt, v, hserver, rfl, rfl, rfl⟩ := hfields
      simp only [hcluster, htt, hserver, if_neg hc, if_neg hs, hcheck, ha]
    · cases hfields

theorem toNat_ofInt_eq_emod (v : Int) : ((UInt32.ofInt v).toNat : Int) = v % 2 ^ 32 := by
  show ((UInt32.ofNat (v % 2 ^ 32).toNat).toNat : Int) = v % 2 ^ 32
  rw [UInt32.toNat_ofNat']
  omega

theorem toNat_ofInt {v : Int} {n : Nat} (h : 0 ≤ v ∧ v ≤ n) (hn : n < 2 ^ 32) :
    ((UInt32.ofInt v).toNat : Int) = v := by
  rw [toNat_ofInt_eq_emod]
  omega

/-- The fields of an address put together from numbers in range. -/
theorem ofFields_fields {cluster tt server : Int} (hcluster : 0 ≤ cluster ∧ cluster ≤ 16383)
    (htt : 0 ≤ tt ∧ tt ≤ 255) (hserver : 0 ≤ server ∧ server ≤ 1023) :
    let a := LogicAddr.ofFields (UInt32.ofInt cluster) (UInt32.ofInt tt) (UInt32.ofInt server)
    (a.cluster.toNat : Int) = cluster ∧ (a.type.toNat : Int) = tt ∧
      (a.server.toNat : Int) = server := by
  intro a
  have hc := toNat_ofInt (n := 16383) hcluster (by omega)
  have ht := toNat_ofInt (n := 255) htt (by omega)
  have hs := toNat_ofInt (n := 1023) hserver (by omega)
  have hval : a.val.toNat = (UInt32.ofInt cluster).toNat * 2 ^ 18 +
      (UInt32.ofInt tt).toNat * 2 ^ 10 + (UInt32.ofInt server).toNat :=
    LogicAddr.ofFields_toNat (by omega) (by omega) (by omega)
  rw [a.cluster_toNat, a.type_toNat, a.server_toNat]
  omega

/-- Such an address has a cluster and a type other than 0. -/
theorem Produced.fields_ne_zero {a : LogicAddr} (h : Produced a) :
    a.cluster ≠ 0 ∧ a.type ≠ 0 := by
  obtain ⟨text, cluster, tt, server, hfields, hcluster, hserver, hread⟩ := h
  have htt : 1 ≤ tt ∧ tt ≤ 255 := by omega
  have hfrom : a = .ofFields (UInt32.ofInt cluster) (UInt32.ofInt tt) (UInt32.ofInt server) := by
    have hok : ∃ checkType, readLogicAddr checkType text = .ok a := by
      rcases hread with ⟨_, hread⟩ | ⟨_, hread⟩
      · exact ⟨_, hread⟩
      · exact ⟨_, hread⟩
    obtain ⟨checkType, hok⟩ := hok
    obtain ⟨cluster', tt', server', hfields', _, ha⟩ := readLogicAddr_eq_ok.mp hok
    rw [hfields, Option.some_inj] at hfields'
    cases hfields'
    exact ha
  obtain ⟨hc, ht, _⟩ := ofFields_fields ⟨by omega, hcluster.2⟩ ⟨by omega, htt.2⟩ hserver
  rw [← hfrom] at hc ht
  have hzero : ((0 : UInt32).toNat : Int) = 0 := rfl
  constructor
  · intro h0
    rw [h0, hzero] at hc
    omega
  · intro h0
    rw [h0, hzero] at ht
    omega

end ClusterGo
