import IoTRepublic.Reassembly

/-!
One wrong byte. The header up to the source address tells the reader where the
package ends, and the checksum covers everything before it. A byte changed from
the source address on leaves the checksum where it was and makes it fail, so
whatever the changed bytes look like they are not taken for a package.
-/
namespace IoTRepublic.Corruption

open DecimalText Package PackageReader ReaderOutcome Manager Reassembly

/-- Where the source address begins on the wire. -/
def sourceStart (q : IoTPackage) : ℕ :=
  (Delimited.joinFields SplitSymble ((headerFields q).take 3)).length

/-- The two bytes that stand where the lengths say no longer fit the bytes before them. -/
theorem checksum_fails (summed rest : List Byte) (hlen : summed.length < 2 ^ 24) {p : ℕ}
    (hp : p < (summed ++ checksumBytes summed).length) {c : Byte}
    (hc : (summed ++ checksumBytes summed)[p]? ≠ some c) :
    (((summed ++ checksumBytes summed).set p c ++ rest).drop summed.length).take 2 ≠
      checksumBytes (((summed ++ checksumBytes summed).set p c ++ rest).take summed.length) := by
  by_cases hbefore : p < summed.length
  · intro h
    rw [List.set_append_left _ _ hbefore, List.append_assoc] at h
    have hset : (summed.set p c).length = summed.length := List.length_set
    rw [← hset, List.drop_left, List.take_left] at h
    have htwo : (checksumBytes summed ++ rest).take 2 = checksumBytes summed := rfl
    rw [htwo] at h
    have hfolded := checksumBytes_injective h
    have hsplit : summed = summed.take p ++ summed[p] :: summed.drop (p + 1) := by
      rw [← List.drop_eq_getElem_cons hbefore, List.take_append_drop]
    rw [List.set_eq_take_append_cons_drop, if_pos hbefore] at hfolded
    have hsame : CarrySum.folded (summed.take p ++ summed[p] :: summed.drop (p + 1)) =
        CarrySum.folded (summed.take p ++ c :: summed.drop (p + 1)) := by
      rw [← hsplit]
      exact hfolded
    have hbyte := CarrySum.folded_one_byte (by rw [← hsplit]; exact hlen) hsame
    apply hc
    rw [List.getElem?_append_left hbefore, List.getElem?_eq_getElem hbefore, hbyte]
  · intro h
    have hat : summed.length ≤ p := by omega
    rw [List.set_append_right _ _ hat, List.append_assoc, List.drop_left, List.take_left] at h
    have hlength : ((checksumBytes summed).set (p - summed.length) c).length = 2 :=
      List.length_set
    have hsum := (List.take_left' hlength).symm.trans h
    apply hc
    rw [List.length_append] at hp
    rw [List.getElem?_append_right hat, ← hsum, List.getElem?_set_self (by omega)]

/-- The fields in front of the source address are read as they were written. -/
theorem lengths_unchanged (m : SentPackage) {p : ℕ} (hstart : sourceStart m.package ≤ p) (c : Byte)
    (rest : List Byte) {h : Header} (hfront : h.bytes <+: m.bytes.set p c ++ rest)
    {info q : IoTPackage} (hq : Decodes h info q) :
    q.headerLength = m.package.headerLength ∧ q.dataLength = m.package.dataLength := by
  have hcreated := m.isCreated
  have hbytes : (hcreated.header m.sor m.des).bytes <+: m.bytes := by
    rw [m.bytes_eq.1, wireBytes, hcreated.summedBytes_eq m.sor m.des, List.append_assoc]
    exact List.prefix_append ..
  generalize hlead : Delimited.joinFields SplitSymble
    [CurrentVersion, ofInt m.package.headerLength, ofInt m.data.length] = lead
  have hstart' : lead.length ≤ p := by
    rw [sourceStart, hcreated.headerFields_eq] at hstart
    rw [← hlead]
    exact hstart
  have hleadBytes : lead <+: m.bytes := by
    refine List.IsPrefix.trans ?_ hbytes
    rw [hcreated.header_bytes m.sor m.des, hcreated.headerFields_eq, ← hlead]
    exact ⟨Delimited.joinFields SplitSymble [m.sorIp, m.desIp], by simp⟩
  obtain ⟨behind, hbehind⟩ := hleadBytes
  obtain ⟨tail, htail⟩ := hfront
  have hsame : Delimited.joinFields SplitSymble [h.version, h.headLen, h.dataLen] ++
      (Delimited.joinFields SplitSymble [h.source, h.destination] ++ tail) =
      Delimited.joinFields SplitSymble
        [CurrentVersion, ofInt m.package.headerLength, ofInt m.data.length] ++
        (behind.set (p - lead.length) c ++ rest) := by
    rw [hlead, ← List.append_assoc lead, ← List.set_append_right _ _ hstart', hbehind, ← htail]
    simp [Header.bytes, Header.fields]
  have hread : Delimited.IsFields SplitSymble [h.version, h.headLen, h.dataLen] :=
    Delimited.IsFields.front h.isFields
  have hwritten : Delimited.IsFields SplitSymble
      [CurrentVersion, ofInt m.package.headerLength, ofInt m.data.length] :=
    Delimited.IsFields.front (hcreated.header m.sor m.des).isFields
  have hcount : [h.version, h.headLen, h.dataLen].length =
      [CurrentVersion, ofInt m.package.headerLength, ofInt m.data.length].length := rfl
  have hfields := (Delimited.fields_unique _ _ hcount hread.sep_notMem hwritten.sep_notMem hsame).1
  simp only [List.cons.injEq, and_true] at hfields
  obtain ⟨-, hhead, hdata⟩ := hfields
  have hsent := hcreated.decodes m.sor m.des info
  constructor
  · have hnumber := hq.headerLength
    rw [hhead] at hnumber
    exact Except.ok.inj (hnumber.symm.trans hsent.headerLength)
  · have hnumber := hq.dataLength
    rw [hdata] at hnumber
    exact Except.ok.inj (hnumber.symm.trans hsent.dataLength)

/-- A package with one byte changed, from its source address to its checksum, is never
completed: where its lengths put the checksum, the checksum no longer holds. -/
theorem corruption_detected (m : SentPackage) (p : ℕ) (hstart : sourceStart m.package ≤ p)
    (hp : p < m.bytes.length) (c : Byte) (hc : m.bytes[p]? ≠ some c) (rest : List Byte)
    (bufferLength : ℤ) (h0 : 0 ≤ bufferLength)
    (hcap : bufferLength ≤ (m.bytes.set p c ++ rest).length) (info : IoTPackage) :
    (∀ r, getCompletedPackage (m.bytes.set p c ++ rest) bufferLength info = .ok r →
      r.result ≠ .completed) ∧ ¬ ChecksumHolds (m.bytes.set p c ++ rest) m.package := by
  have hcreated := m.isCreated
  have hmax : MAXRECV = 2000 := rfl
  have hat : checksumAt m.package = (summedBytes m.package).length := by
    rw [checksumAt, hcreated.headerLength_eq m.sor m.des, hcreated.dataLength,
      hcreated.summedBytes_eq m.sor m.des, Int.toNat_natCast, Int.toNat_natCast,
      List.length_append]
  have hfails : ¬ ChecksumHolds (m.bytes.set p c ++ rest) m.package := by
    have hlength := m.bytes_eq.2
    rw [m.bytes_eq.1, wireBytes] at hp hc hlength ⊢
    rw [List.length_append] at hlength
    unfold ChecksumHolds
    rw [hat]
    exact checksum_fails _ rest (by omega) hp hc
  refine ⟨?_, hfails⟩
  intro r hread hresult
  cases outcome_of_ok h0 hcap hread with
  | completed h q hwhole hq _ _ _ hsum _ =>
    obtain ⟨hhead, hdata⟩ := lengths_unchanged m hstart c rest hwhole.front hq
    apply hfails
    unfold ChecksumHolds checksumAt at hsum ⊢
    rw [← hhead, ← hdata]
    exact hsum
  | short => cases hresult
  | invalid => cases hresult
  | headerUnfinished => cases hresult
  | dataUnfinished => cases hresult
  | corrupt => cases hresult

/-- The last checksum byte of a package with three data bytes, one more than it should be. -/
theorem corruption_detected_last :
    ∃ (m : SentPackage) (c : Byte), m.data = [0, 3, 0] ∧
      m.bytes[m.bytes.length - 1]? = some (c - 1) ∧ ∀ r,
        getCompletedPackage (m.bytes.set (m.bytes.length - 1) c ++ []) m.bytes.length
          generateIotPackage = .ok r → r.result ≠ .completed := by
  obtain ⟨m, -, -, hdata⟩ := SentPackage.exists_of (ascii "DEV.0") (ascii "DEV.1") [0, 3, 0]
    ⟨by decide, by decide, by decide⟩ ⟨by decide, by decide, by decide⟩ (by decide)
  have hpos := m.bytes_pos
  have hin : m.bytes.length - 1 < m.bytes.length := by omega
  have hlast := List.getElem?_eq_getElem hin
  generalize m.bytes[m.bytes.length - 1] = b at hlast
  refine ⟨m, b + 1, hdata, by rw [hlast, UInt8.add_sub_cancel], ?_⟩
  intro r hread
  have hne : m.bytes[m.bytes.length - 1]? ≠ some (b + 1) := by
    rw [hlast]
    simp
  have hlong : sourceStart m.package ≤ m.bytes.length - 1 := by
    have hlength := m.isCreated.wireBytes_length m.sor m.des
    rw [m.isCreated.header_bytes m.sor m.des, ← m.bytes_eq.1] at hlength
    have hfront : sourceStart m.package ≤
        (Delimited.joinFields SplitSymble (headerFields m.package)).length := by
      rw [sourceStart, m.isCreated.headerFields_eq]
      simp
    omega
  exact (corruption_detected m (m.bytes.length - 1) hlong hin (b + 1) hne [] m.bytes.length
    (by omega) (by simp) generateIotPackage).1 r hread

end IoTRepublic.Corruption
