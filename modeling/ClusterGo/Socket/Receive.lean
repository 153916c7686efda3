import ClusterGo.Socket.FrameReader

/-!
# What a frame reader gets out of a connection

`Receives fr wire payloads` says that `recv`, called again and again on the
reader `fr` while the bytes `wire` arrive, hands out `payloads`.  Every read
delivers some of the bytes that are left, at least one.

However the bytes are split into reads, the payloads are those of
`Framing.cut` (`Receives.eq_cut`), and there is always a way to read them
all (`exists_receives`).
-/

namespace ClusterGo.Socket

open BigEndian Framing Rpc

/-- The payloads that `recv` hands out until it waits for bytes that do not
come or fails. -/
inductive Receives : FrameReader → Bytes → List Bytes → Prop where
  | packet {fr fr' : FrameReader} {wire payload : Bytes} {payloads : List Bytes}
      (hparse : fr.parse = .packet payload fr') (hrest : Receives fr' wire payloads) :
      Receives fr wire (payload :: payloads)
  | read {fr fr₁ fr₂ : FrameReader} {wire : Bytes} {k : Nat} {payloads : List Bytes}
      (hparse : fr.parse = .needRead fr₁) (hread : fr₁.read k wire = some fr₂)
      (hrest : Receives fr₂ (wire.drop k) payloads) : Receives fr wire payloads
  | idle {fr fr' : FrameReader} (hparse : fr.parse = .needRead fr') : Receives fr [] []
  | error {fr : FrameReader} {wire : Bytes} {text : String} (hparse : fr.parse = .error text) :
      Receives fr wire []

namespace FrameReader

variable {fr fr' : FrameReader} {payload : Bytes}

/-- The limits that a payload which is handed out has passed. -/
theorem parse_packet (h : fr.parse = .packet payload fr') :
    decode (fr.unread.take 4) ≠ 0 ∧
      ((decode (fr.unread.take 4) + 4 : Nat) : Int) ≤ fr.maxSize := by
  unfold parse at h
  dsimp only at h
  split_ifs at h with hhead hzero hlarge
  rw [header_eq fr hhead] at hzero hlarge
  exact ⟨hzero, Int.not_lt.mp hlarge⟩

/-- What `parse_spec` says when a payload is handed out. -/
theorem packet_spec (h : fr.parse = .packet payload fr') :
    decode (fr.unread.take 4) + 4 ≤ fr.unread.length ∧
      payload = (fr.unread.drop 4).take (decode (fr.unread.take 4)) ∧
      fr'.unread = fr.unread.drop (decode (fr.unread.take 4) + 4) ∧
      fr'.maxSize = fr.maxSize := by
  have hspec := fr.parse_spec
  rw [h] at hspec
  exact hspec

/-- The bytes that are taken for a payload are its frame. -/
theorem unread_of_packet (h : fr.parse = .packet payload fr') :
    fr.unread = frame payload ++ fr'.unread := by
  obtain ⟨hlen, hpayload, hunread, _⟩ := packet_spec h
  have hlength : payload.length = decode (fr.unread.take 4) := by
    rw [hpayload, List.length_take, List.length_drop]
    omega
  have hhead : encode 4 payload.length = fr.unread.take 4 := by
    have hfour : (fr.unread.take 4).length = 4 := by
      rw [List.length_take]
      omega
    have hencode := encode_decode (fr.unread.take 4)
    rwa [hfour, ← hlength] at hencode
  rw [← hlength] at hpayload hunread
  calc fr.unread = fr.unread.take 4 ++ fr.unread.drop 4 := (List.take_append_drop 4 _).symm
    _ = fr.unread.take 4 ++ ((fr.unread.drop 4).take payload.length ++
        (fr.unread.drop 4).drop payload.length) := by
      rw [List.take_append_drop payload.length]
    _ = frame payload ++ fr'.unread := by
      rw [← hpayload, List.drop_drop, Nat.add_comm, ← hunread, frame, hhead, List.append_assoc]

theorem error_spec {text : String} (h : fr.parse = .error text) :
    4 ≤ fr.unread.length ∧ (decode (fr.unread.take 4) = 0 ∨
      ((decode (fr.unread.take 4) + 4 : Nat) : Int) > fr.maxSize) := by
  have hspec := fr.parse_spec
  rw [h] at hspec
  exact hspec

theorem needRead_spec (h : fr.parse = .needRead fr') :
    fr'.unread = fr.unread ∧ Incomplete fr.unread ∧ fr'.w < fr'.buf.length ∧
      fr'.maxSize = fr.maxSize := by
  have hspec := fr.parse_spec
  rw [h] at hspec
  exact hspec

/-! ## Against the reference parser -/

/-- The payload of a round is the first one of the stream. -/
theorem cut_of_packet (h : fr.parse = .packet payload fr') (wire : Bytes) :
    cut fr.maxSize (fr.unread ++ wire) = payload :: cut fr'.maxSize (fr'.unread ++ wire) := by
  obtain ⟨hlen, hpayload, hunread, hmaxSize⟩ := packet_spec h
  obtain ⟨hzero, hmax⟩ := parse_packet h
  have htake : (fr.unread ++ wire).take 4 = fr.unread.take 4 :=
    List.take_append_of_le_length (by omega)
  rw [cut_of_complete (htake ▸ hzero) (htake ▸ hmax)
    (by rw [htake, List.length_append]; omega), htake]
  rw [List.drop_append_of_le_length (by omega), List.drop_append_of_le_length hlen,
    List.take_append_of_le_length (by rw [List.length_drop]; omega), ← hpayload, ← hunread,
    ← hmaxSize]

theorem cut_of_incomplete {maxSize : Int} {b : Bytes} (h : Incomplete b) : cut maxSize b = [] := by
  rcases h with hshort | hshort
  · exact cut_of_length_lt hshort
  · exact cut_of_refused (Or.inr (Or.inr hshort))

end FrameReader

open FrameReader

theorem Receives.eq_cut {fr : FrameReader} {wire : Bytes} {payloads : List Bytes}
    (h : Receives fr wire payloads) : payloads = cut fr.maxSize (fr.unread ++ wire) := by
  induction h with
  | @packet fr fr' wire payload payloads hparse _ ih =>
    rw [cut_of_packet hparse, ih]
  | @read fr fr₁ fr₂ wire k payloads hparse hread _ ih =>
    obtain ⟨hunread, _, _, hmaxSize⟩ := needRead_spec hparse
    obtain ⟨_, _, hfilled, hmaxSize'⟩ := read_eq_some hread
    rw [ih, hfilled, hunread, hmaxSize', hmaxSize, List.append_assoc, List.take_append_drop]
  | @idle fr fr' hparse =>
    obtain ⟨_, hincomplete, _, _⟩ := needRead_spec hparse
    rw [List.append_nil, cut_of_incomplete hincomplete]
  | @error fr wire text hparse =>
    obtain ⟨hlen, hrefused⟩ := error_spec hparse
    have htake : (fr.unread ++ wire).take 4 = fr.unread.take 4 :=
      List.take_append_of_le_length hlen
    rw [cut_of_refused]
    rw [htake]
    exact hrefused.imp_right Or.inl

theorem exists_receives (fr : FrameReader) (wire : Bytes) :
    ∃ payloads, Receives fr wire payloads := by
  match hparse : fr.parse with
  | .packet payload fr' =>
    obtain ⟨hlen, _, hunread, _⟩ := packet_spec hparse
    have hlt : fr'.unread.length < fr.unread.length := by
      rw [hunread, List.length_drop]
      omega
    obtain ⟨payloads, hrest⟩ := exists_receives fr' wire
    exact ⟨_, .packet hparse hrest⟩
  | .error text => exact ⟨[], .error hparse⟩
  | .needRead fr' =>
    by_cases hwire : wire = []
    · exact ⟨[], hwire ▸ .idle hparse⟩
    · obtain ⟨_, _, hroom, _⟩ := needRead_spec hparse
      obtain ⟨fr'', hread⟩ := Option.isSome_iff_exists.mp (read_one hroom hwire)
      have hlt : (wire.drop 1).length < wire.length := by
        have := List.length_pos_iff.mpr hwire
        rw [List.length_drop]
        omega
      obtain ⟨payloads, hrest⟩ := exists_receives fr'' (wire.drop 1)
      exact ⟨_, .read hparse hread hrest⟩
termination_by (wire.length, fr.unread.length)

/-- A reader between two frames hands out exactly what `cut` says. -/
theorem receives_iff {fr : FrameReader} (hunread : fr.unread = []) {wire : Bytes}
    {payloads : List Bytes} :
    Receives fr wire payloads ↔ payloads = cut fr.maxSize wire := by
  constructor
  · intro h
    rw [h.eq_cut, hunread, List.nil_append]
  · intro h
    obtain ⟨payloads', h'⟩ := exists_receives fr wire
    have heq := h'.eq_cut
    rw [hunread, List.nil_append, ← h] at heq
    exact heq ▸ h'

end ClusterGo.Socket
