import ClusterGo.Addr.Parse

/-!
# The texts the readers accept

`doc/address.md` gives an address as three decimal numbers with dots between
them, the cluster from 1 to 16383, the type from 1 to 254 (255 for a harbor)
and the server from 0 to 1023.  Here the readers are compared with that
grammar, text by text.

`Atoi` reads 64 bits and the checks look at the low 32 of them.  A number
whose low 32 bits are in range therefore passes although it is out of range
itself, and `readers_exact_iff` says that this is the only way in which a
reader and the grammar come apart.

`string_round_trip` is about the texts that `LogicAddr.String` prints: each
is read back by one reader and refused by the other.
-/

namespace ClusterGo

/-! ## The two results of a reader -/

/-- `MakeLogicAddr` with both of its results. -/
def parseNormal : String → LogicAddr × Option AddrErr := parseLogicAddr checkNormalType

/-- `MakeHarborLogicAddr` with both of its results. -/
def parseHarbor : String → LogicAddr × Option AddrErr := parseLogicAddr checkHarborType

/-- A reader that fails returns the address 0. -/
theorem parseLogicAddr_eq (checkType : Int → Option AddrErr) (addr : String) :
    parseLogicAddr checkType addr =
      match readLogicAddr checkType addr with
      | .ok a => (a, none)
      | .error err => (⟨0⟩, some err) := by
  unfold readLogicAddr parseLogicAddr
  split
  · split
    · rfl
    · split_ifs
      · rfl
      · split
        · rfl
        · split
          · rfl
          · split
            · rfl
            · split_ifs <;> rfl
  · rfl

/-! ## The grammar -/

/-- The text follows the grammar and has these numbers.  `types` are the
types that the grammar allows. -/
def Denotes (types : Int → Prop) (text : String) (cluster tt server : Int) : Prop :=
  fieldsOf text = some (cluster, tt, server) ∧
    (1 ≤ cluster ∧ cluster ≤ 16383) ∧ types tt ∧ (0 ≤ server ∧ server ≤ 1023)

/-- The results of a reader agree with the grammar on a text. -/
structure ReadsExactly (types : Int → Prop) (text : String)
    (r : LogicAddr × Option AddrErr) : Prop where
  accepts : r.2 = none ↔ ∃ cluster tt server, Denotes types text cluster tt server
  fields : r.2 = none → ∀ cluster tt server, fieldsOf text = some (cluster, tt, server) →
    (r.1.cluster.toNat : Int) = cluster ∧ (r.1.type.toNat : Int) = tt ∧
      (r.1.server.toNat : Int) = server
  fails : r.2 ≠ none → r.1 = ⟨0⟩

/-- The three numbers are their own low 32 bits. -/
def Unwrapped (cluster tt server : Int) : Prop :=
  (0 ≤ cluster ∧ cluster < 2 ^ 32) ∧ (0 ≤ tt ∧ tt < 2 ^ 32) ∧ (0 ≤ server ∧ server < 2 ^ 32)

/-- One of the numbers is 0 where it may not be, or its low 32 bits are out
of range. -/
def LowOutOfRange (badType : Int → Prop) (cluster tt server : Int) : Prop :=
  cluster = 0 ∨ cluster % 2 ^ 32 > 16383 ∨ badType tt ∨ server % 2 ^ 32 > 1023

theorem ofInt_gt_iff (v : Int) (bound : UInt32) :
    UInt32.ofInt v > bound ↔ v % 2 ^ 32 > bound.toNat := by
  rw [gt_iff_lt, UInt32.lt_iff_toNat_lt, ← Int.ofNat_lt, toNat_ofInt_eq_emod]

section Reader

variable {checkType : Int → Option AddrErr} {types badType : Int → Prop}
  (hcheck : ∀ tt, checkType tt = none ↔ ¬ badType tt)
  (htypes : ∀ tt, types tt ↔ (0 ≤ tt ∧ tt < 2 ^ 32) ∧ ¬ badType tt)
  (hbyte : ∀ tt, types tt → tt ≤ 255)

include hcheck in
/-- A reader answers exactly when the text has three numbers and the low 32
bits of each are in range. -/
theorem readLogicAddr_eq_ok_iff {text : String} {a : LogicAddr} :
    readLogicAddr checkType text = .ok a ↔
      ∃ cluster tt server, fieldsOf text = some (cluster, tt, server) ∧
        ¬ LowOutOfRange badType cluster tt server ∧
        a = .ofFields (UInt32.ofInt cluster) (UInt32.ofInt tt) (UInt32.ofInt server) := by
  have hclusterMask : ((clusterMask >>> 18).toNat : Int) = 16383 := by decide
  have hserverMask : (serverMask.toNat : Int) = 1023 := by decide
  simp only [readLogicAddr_eq_ok, LowOutOfRange, hcheck, ofInt_gt_iff, hclusterMask, hserverMask,
    not_or, and_assoc]

include htypes hbyte in
/-- What follows the grammar is in range, and so are its low 32 bits. -/
theorem Denotes.in_range {text : String} {cluster tt server : Int}
    (h : Denotes types text cluster tt server) :
    Unwrapped cluster tt server ∧ ¬ LowOutOfRange badType cluster tt server := by
  obtain ⟨_, hcluster, htt, hserver⟩ := h
  have hgood := (htypes tt).mp htt
  have hle := hbyte tt htt
  refine ⟨⟨by omega, hgood.1, by omega⟩, ?_⟩
  intro hout
  rcases hout with h | h | h | h
  · omega
  · omega
  · exact hgood.2 h
  · omega

include htypes in
theorem denotes_of_unwrapped {text : String} {cluster tt server : Int}
    (hfields : fieldsOf text = some (cluster, tt, server)) (h : Unwrapped cluster tt server)
    (hlow : ¬ LowOutOfRange badType cluster tt server) :
    Denotes types text cluster tt server := by
  obtain ⟨hcluster, htt, hserver⟩ := h
  simp only [LowOutOfRange, not_or] at hlow
  exact ⟨hfields, by omega, (htypes tt).mpr ⟨htt, hlow.2.2.1⟩, by omega⟩

include hcheck htypes hbyte in
/-- A reader and the grammar agree on a text unless a number that passes the
checks is not its own low 32 bits. -/
theorem parseLogicAddr_exact_iff (text : String) :
    ReadsExactly types text (parseLogicAddr checkType text) ↔
      ∀ cluster tt server, fieldsOf text = some (cluster, tt, server) →
        Unwrapped cluster tt server ∨ LowOutOfRange badType cluster tt server := by
  rw [parseLogicAddr_eq]
  constructor
  · intro hexact cluster tt server hfields
    by_contra hnot
    rw [not_or] at hnot
    have hread := (readLogicAddr_eq_ok_iff hcheck).mpr ⟨cluster, tt, server, hfields, hnot.2, rfl⟩
    rw [hread] at hexact
    obtain ⟨cluster', tt', server', hdenotes⟩ := hexact.accepts.mp rfl
    have hsame := hfields.symm.trans hdenotes.1
    cases hsame
    exact hnot.1 (hdenotes.in_range htypes hbyte).1
  · intro hcond
    cases hread : readLogicAddr checkType text with
    | ok a =>
      obtain ⟨cluster, tt, server, hfields, hlow, ha⟩ := (readLogicAddr_eq_ok_iff hcheck).mp hread
      have hdenotes : Denotes types text cluster tt server :=
        denotes_of_unwrapped htypes hfields ((hcond _ _ _ hfields).resolve_right hlow) hlow
      refine ⟨⟨fun _ => ⟨cluster, tt, server, hdenotes⟩, fun _ => rfl⟩, ?_, fun h => absurd rfl h⟩
      intro _ cluster' tt' server' hfields'
      rw [hfields, Option.some_inj] at hfields'
      cases hfields'
      obtain ⟨_, hcluster, htt, hserver⟩ := hdenotes
      have hpos := ((htypes tt).mp htt).1
      rw [ha]
      exact ofFields_fields (by omega) ⟨hpos.1, hbyte tt htt⟩ hserver
    | error err =>
      refine ⟨⟨(fun h => nomatch h), ?_⟩, (fun h => nomatch h), fun _ => rfl⟩
      intro h
      obtain ⟨cluster, tt, server, hdenotes⟩ := h
      have hlow := (hdenotes.in_range htypes hbyte).2
      have hok := (readLogicAddr_eq_ok_iff hcheck).mpr
        ⟨cluster, tt, server, hdenotes.1, hlow, rfl⟩
      rw [hread] at hok
      cases hok

end Reader

/-- `MakeLogicAddr` and `MakeHarborLogicAddr` accept the grammar and nothing
else, with the right fields, on the texts none of whose numbers passes the
checks with its low 32 bits only. -/
theorem readers_exact_iff (text : String) :
    (ReadsExactly (fun tt => 1 ≤ tt ∧ tt ≤ 254) text (parseNormal text) ↔
      ∀ cluster tt server, fieldsOf text = some (cluster, tt, server) →
        Unwrapped cluster tt server ∨
          LowOutOfRange (fun tt => tt = 0 ∨ tt % 2 ^ 32 > 254) cluster tt server) ∧
    (ReadsExactly (fun tt => tt = 255) text (parseHarbor text) ↔
      ∀ cluster tt server, fieldsOf text = some (cluster, tt, server) →
        Unwrapped cluster tt server ∨
          LowOutOfRange (fun tt => tt % 2 ^ 32 ≠ 255) cluster tt server) := by
  constructor
  · apply parseLogicAddr_exact_iff
    · intro tt
      have hmask : (((typeMask >>> 10) - 1).toNat : Int) = 254 := by decide
      simp only [checkNormalType, ofInt_gt_iff, hmask, ite_eq_right_iff, reduceCtorEq, imp_false]
    · intro tt
      omega
    · intro tt
      omega
  · apply parseLogicAddr_exact_iff
    · intro tt
      have heq : UInt32.ofInt tt = 255 ↔ tt % 2 ^ 32 = 255 := by
        rw [← UInt32.toNat_inj, ← toNat_ofInt_eq_emod, show (255 : UInt32).toNat = 255 by decide]
        omega
      simp only [checkHarborType, ne_eq, heq, ite_eq_right_iff, reduceCtorEq, imp_false]
    · intro tt
      omega
    · intro tt
      omega

/-- The cluster 4294967297 is read as 1, and the cluster 4294967296 as the
0 that no text may give. -/
theorem wrapped_cluster_accepted :
    parseNormal "4294967297.1.1" = (.ofFields 1 1 1, none) ∧
      parseHarbor "4294967296.255.1" = (.ofFields 0 255 1, none) ∧
      ¬ ReadsExactly (fun tt => 1 ≤ tt ∧ tt ≤ 254) "4294967297.1.1"
        (parseNormal "4294967297.1.1") := by
  refine ⟨by decide +kernel, by decide +kernel, ?_⟩
  intro hexact
  obtain ⟨cluster, tt, server, hfields, hcluster, _, _⟩ :=
    hexact.accepts.mp (by decide +kernel)
  rw [show fieldsOf "4294967297.1.1" = some (4294967297, 1, 1) by decide +kernel,
    Option.some_inj] at hfields
  cases hfields
  omega

/-! ## Printing and reading -/

/-- The text of an address with a cluster and a type is read back by the
reader for its type and refused by the other one, and different addresses
have different texts. -/
theorem string_round_trip :
    (∀ a b : LogicAddr, a.string = b.string ↔ a.val = b.val) ∧
      ∀ a : LogicAddr, a.cluster ≠ 0 → a.type ≠ 0 →
        (a.type ≠ harbarType → makeLogicAddr a.string = .ok a ∧
          makeHarborLogicAddr a.string = .error .harborType) ∧
        (a.type = harbarType → makeHarborLogicAddr a.string = .ok a ∧
          makeLogicAddr a.string = .error .invaildType) := by
  constructor
  · intro a b
    constructor
    · intro h
      rw [LogicAddr.string_injective h]
    · intro h
      rw [show a = b from congrArg LogicAddr.mk h]
  · intro a hcluster htype
    rw [makeLogicAddr_string, makeHarborLogicAddr_string]
    constructor
    · intro h
      simp [hcluster, htype, h]
    · intro h
      simp [hcluster, h]

/-- A node and a harbor. -/
theorem string_round_trip_node_harbor :
    makeLogicAddr (LogicAddr.mk 264195).string = .ok ⟨264195⟩ ∧
      makeHarborLogicAddr (LogicAddr.mk 523265).string = .ok ⟨523265⟩ :=
  ⟨((string_round_trip.2 ⟨264195⟩ (by decide) (by decide)).1 (by decide)).1,
    ((string_round_trip.2 ⟨523265⟩ (by decide) (by decide)).2 (by decide)).1⟩

end ClusterGo
