import IoTRepublic.ReaderOutcome

/-!
A package made by `create_package` and what the reader makes of its bytes. The
header length that `create_package` computes before it knows its own digits is
the length of the header that `encode_package` writes, so the reader finds the
whole package at the front of a buffer and waits on every proper beginning of
it.
-/
namespace IoTRepublic.CreatedPackage

open CheckedArray DecimalText Package PackageReader ReaderOutcome

/-- What `create_package` stores, and that it fits where it is stored. -/
structure Created (p : IoTPackage) (sorIp desIp data : List Byte) (q : IoTPackage) : Prop where
  ver : CharArray.ofText VERSION_CHAR_SIZE CurrentVersion = .ok q.ver
  verLength : q.verLength = CurrentVersion.length
  sor : CharArray.ofText IP_ADDR_SIZE sorIp = .ok q.sorIp.ip
  sorLength : q.sorIp.ipLength = sorIp.length
  des : CharArray.ofText IP_ADDR_SIZE desIp = .ok q.desIp.ip
  desLength : q.desIp.ipLength = desIp.length
  digits : (ofInt data.length).length + 1 ≤ 10
  headerLength : q.headerLength = addOwnDigits (CurrentVersion.length + 1 + sorIp.length + 1 +
    desIp.length + 1 + (ofInt data.length).length + 1) + 1
  dataLength : q.dataLength = data.length
  belongSocketIdx : q.belongSocketIdx = p.belongSocketIdx
  data : q.data = data

/-- An address as the well-formed packages have it: it fits its array and has no terminator. -/
structure IsAddress (ip : List Byte) : Prop where
  ne_nil : ip ≠ []
  noNul : (0 : Byte) ∉ ip
  short : ip.length ≤ 14

theorem createPackage_eq_ok {p : IoTPackage} {sorIp desIp data : List Byte} {q : IoTPackage} :
    createPackage p sorIp desIp data data.length = .ok q ↔ Created p sorIp desIp data q := by
  have hread : readBlock data data.length = .ok data := by simp [readBlock]
  constructor
  · intro h
    obtain ⟨ver, hver, h⟩ := bind_eq_ok.mp h
    obtain ⟨sor, hsor, h⟩ := bind_eq_ok.mp h
    obtain ⟨des, hdes, h⟩ := bind_eq_ok.mp h
    rw [hread, ok_bind] at h
    obtain ⟨text, htext, h⟩ := bind_eq_ok.mp h
    obtain ⟨hdigits, rfl⟩ := sprintfInt_eq_ok.mp htext
    obtain rfl := Except.ok.inj h
    exact ⟨hver, rfl, hsor, rfl, hdes, rfl, hdigits, rfl, rfl, rfl, rfl⟩
  · rintro ⟨hver, hverLength, hsor, hsorLength, hdes, hdesLength, hdigits, hheaderLength,
      hdataLength, hidx, hdata⟩
    refine bind_eq_ok.mpr ⟨_, hver, bind_eq_ok.mpr ⟨_, hsor, bind_eq_ok.mpr ⟨_, hdes, ?_⟩⟩⟩
    rw [hread, ok_bind]
    refine bind_eq_ok.mpr ⟨_, sprintfInt_eq_ok.mpr ⟨hdigits, rfl⟩, ?_⟩
    obtain ⟨_, _, _, _, ⟨_, _⟩, ⟨_, _⟩, _, _⟩ := q
    simp only at hverLength hsorLength hdesLength hheaderLength hdataLength hidx hdata
    subst hverLength hsorLength hdesLength hheaderLength hdataLength hidx hdata
    rfl

/-- `create_package` copies as many bytes as it is told to. -/
theorem createPackage_take (p : IoTPackage) (sorIp desIp : List Byte) {block data : List Byte}
    (rest : List Byte) (hblock : block = data ++ rest) :
    createPackage p sorIp desIp block data.length =
      createPackage p sorIp desIp data data.length := by
  have hread : readBlock block data.length = readBlock data data.length := by
    simp [readBlock, hblock]
  rw [createPackage, createPackage, hread]

/-- Any two addresses and any data with few enough digits of length make a package. -/
theorem exists_created (p : IoTPackage) {sorIp desIp data : List Byte} (hsor : IsAddress sorIp)
    (hdes : IsAddress desIp) (hdata : data.length < 10 ^ 9) :
    ∃ q, Created p sorIp desIp data q := by
  obtain ⟨ver, hver⟩ := CharArray.exists_ofText VERSION_CHAR_SIZE CurrentVersion (by decide)
  obtain ⟨sor, hsorArr⟩ := CharArray.exists_ofText IP_ADDR_SIZE sorIp
    (Nat.succ_le_succ hsor.short)
  obtain ⟨des, hdesArr⟩ := CharArray.exists_ofText IP_ADDR_SIZE desIp
    (Nat.succ_le_succ hdes.short)
  have hdigits : (ofInt data.length).length ≤ 9 := ofNat_length_le (by decide) hdata
  exact ⟨⟨ver, CurrentVersion.length, addOwnDigits (CurrentVersion.length + 1 + sorIp.length + 1 +
    desIp.length + 1 + (ofInt data.length).length + 1) + 1, data.length, ⟨sor, sorIp.length⟩,
    ⟨des, desIp.length⟩, data, p.belongSocketIdx⟩, hver, rfl, hsorArr, rfl, hdesArr, rfl,
    Nat.succ_le_succ hdigits, rfl, rfl, rfl, rfl⟩

section

variable {p q : IoTPackage} {sorIp desIp data : List Byte}

theorem Created.texts (hq : Created p sorIp desIp data q) (hsor : IsAddress sorIp)
    (hdes : IsAddress desIp) : q.sorIp.ip.text = .ok sorIp ∧ q.desIp.ip.text = .ok desIp :=
  ⟨CharArray.ofText_text hq.sor hsor.noNul, CharArray.ofText_text hq.des hdes.noNul⟩

theorem Created.isIpRequest_eq (hq : Created p sorIp desIp data q) (hsor : IsAddress sorIp)
    (hdes : IsAddress desIp) :
    isIpRequest q = .ok (decide (desIp = ascii "0" ∧ sorIp = ascii "0")) := by
  obtain ⟨hsorText, hdesText⟩ := hq.texts hsor hdes
  simp only [isIpRequest, hdesText, hsorText, ok_bind]
  by_cases hzero : desIp = ascii "0" <;> simp [hzero]

/-- A copy is the package itself but for the socket, which is never copied. -/
theorem Created.copyIotPackage_eq (hq : Created p sorIp desIp data q) (hsor : IsAddress sorIp)
    (hdes : IsAddress desIp) (dest : IoTPackage) :
    copyIotPackage dest q = .ok { q with belongSocketIdx := dest.belongSocketIdx } := by
  obtain ⟨hsorText, hdesText⟩ := hq.texts hsor hdes
  have hcopy : createPackage dest sorIp desIp data data.length =
      .ok { q with belongSocketIdx := dest.belongSocketIdx } :=
    createPackage_eq_ok.mpr { hq with belongSocketIdx := rfl }
  have hargs : createPackage dest sorIp desIp q.data q.dataLength =
      createPackage dest sorIp desIp data data.length := by
    rw [hq.data, hq.dataLength]
  rw [copyIotPackage, hsorText, ok_bind, hdesText, ok_bind, hargs, hcopy]

theorem Created.headerFields_eq (hq : Created p sorIp desIp data q) :
    headerFields q =
      [CurrentVersion, ofInt q.headerLength, ofInt data.length, sorIp, desIp] := by
  simp only [headerFields, hq.verLength, hq.sorLength, hq.desLength, hq.dataLength,
    Int.toNat_natCast, CharArray.ofText_bytes hq.ver, CharArray.ofText_bytes hq.sor,
    CharArray.ofText_bytes hq.des]

/-- The header of the created package, as the reader will find it. -/
def Created.header (_hq : Created p sorIp desIp data q) (hsor : IsAddress sorIp)
    (hdes : IsAddress desIp) : Header where
  version := CurrentVersion
  headLen := ofInt q.headerLength
  dataLen := ofInt data.length
  source := sorIp
  destination := desIp
  isFields := by
    have hver : CurrentVersion ≠ [] ∧ SplitSymble ∉ CurrentVersion := by decide
    refine (Delimited.isFields_cons _ _ _).mpr ⟨hver.1, hver.2, ?_⟩
    refine (Delimited.isFields_cons _ _ _).mpr ⟨ofInt_ne_nil _, zero_notMem_ofInt _, ?_⟩
    refine (Delimited.isFields_cons _ _ _).mpr ⟨ofInt_ne_nil _, zero_notMem_ofInt _, ?_⟩
    refine (Delimited.isFields_cons _ _ _).mpr ⟨hsor.ne_nil, hsor.noNul, ?_⟩
    exact (Delimited.isFields_cons _ _ _).mpr ⟨hdes.ne_nil, hdes.noNul, Delimited.IsFields.nil _⟩

theorem Created.header_bytes (hq : Created p sorIp desIp data q) (hsor : IsAddress sorIp)
    (hdes : IsAddress desIp) :
    (hq.header hsor hdes).bytes = Delimited.joinFields SplitSymble (headerFields q) := by
  rw [hq.headerFields_eq]
  rfl

theorem Created.summedBytes_eq (hq : Created p sorIp desIp data q) (hsor : IsAddress sorIp)
    (hdes : IsAddress desIp) :
    summedBytes q = (hq.header hsor hdes).bytes ++ data := by
  rw [hq.header_bytes, summedBytes, hq.dataLength, hq.data, Int.toNat_natCast, List.take_length]

/-- The header length counts its own digits and the separators. -/
theorem Created.headerLength_eq (hq : Created p sorIp desIp data q) (hsor : IsAddress sorIp)
    (hdes : IsAddress desIp) :
    q.headerLength = ((hq.header hsor hdes).bytes.length : ℤ) := by
  have hver := currentVersion_length
  have hdigits := hq.digits
  have hsorShort := hsor.short
  have hdesShort := hdes.short
  obtain ⟨n, hn, hlow, hhigh⟩ : ∃ n : ℕ, q.headerLength = n ∧ 10 ≤ n ∧ n < 10 ^ 2 ∧
      (n : ℤ) = CurrentVersion.length + 1 + sorIp.length + 1 + desIp.length + 1 +
        (ofInt data.length).length + 1 + 3 := by
    refine ⟨q.headerLength.toNat, ?_, ?_⟩ <;>
    · rw [hq.headerLength, hver, addOwnDigits]
      split
      · omega
      · split <;> omega
  have htwo : (ofNat n).length = 2 := by
    have hle := ofNat_length_le (n := n) (k := 2) (by decide) hhigh.1
    have hnot : ¬ (ofNat n).length ≤ 1 := by
      intro hone
      have := lt_of_ofNat_length_le (by decide) hone
      omega
    omega
  rw [hq.header_bytes, hq.headerFields_eq, hn, ofInt_natCast]
  simp only [Delimited.length_joinFields_cons, Delimited.joinFields_nil, List.length_nil]
  omega

end

theorem atoi_tempOf (n : ℕ) (hn : n < 10 ^ 9) : atoi (tempOf (ofInt n)) = .ok (n : ℤ) := by
  have hlen : (ofInt n).length ≤ 9 := ofNat_length_le (by decide) hn
  have hsize : tempBufferSize = 200 := rfl
  obtain ⟨k, hk⟩ : ∃ k, tempBufferSize - (ofInt n).length = k + 1 :=
    ⟨tempBufferSize - (ofInt n).length - 1, by omega⟩
  rw [tempOf, hk, List.replicate_succ]
  exact atoi_ofNat n 0 _ (by decide) (by omega)

section

variable {p q : IoTPackage} {sorIp desIp data : List Byte}

theorem Created.dataLength_lt (hq : Created p sorIp desIp data q) : data.length < 10 ^ 9 :=
  lt_of_ofNat_length_le (by decide) (Nat.le_of_succ_le_succ hq.digits)

theorem Created.header_length_le (hq : Created p sorIp desIp data q) (hsor : IsAddress sorIp)
    (hdes : IsAddress desIp) :
    7 ≤ (hq.header hsor hdes).bytes.length ∧ (hq.header hsor hdes).bytes.length < 100 := by
  have hver := currentVersion_length
  have hlen := hq.headerLength_eq hsor hdes
  have hdigits := hq.digits
  have hsorShort := hsor.short
  have hdesShort := hdes.short
  rw [hq.headerLength, hver, addOwnDigits] at hlen
  split at hlen
  · omega
  · split at hlen <;> omega

theorem Created.dataLength_le (hq : Created p sorIp desIp data q) :
    (wireBytes q).length = (Delimited.joinFields SplitSymble (headerFields q)).length +
      data.length + 2 := by
  simp only [wireBytes, summedBytes, checksumBytes, hq.dataLength, hq.data, Int.toNat_natCast,
    List.take_length, List.length_append, List.length_cons, List.length_nil]

theorem Created.wireBytes_length (hq : Created p sorIp desIp data q) (hsor : IsAddress sorIp)
    (hdes : IsAddress desIp) :
    (wireBytes q).length = (hq.header hsor hdes).bytes.length + data.length + 2 := by
  rw [hq.header_bytes, hq.dataLength_le]

theorem Created.totalLen_eq (hq : Created p sorIp desIp data q) (hsor : IsAddress sorIp)
    (hdes : IsAddress desIp) : packageTotalLen q = ((wireBytes q).length : ℤ) := by
  rw [packageTotalLen, hq.headerLength_eq hsor hdes, hq.dataLength, hq.wireBytes_length hsor hdes]
  push_cast
  rfl

/-- A created package is written by `encode_package` exactly when its bytes fit the buffer
and its data length has at most four digits. -/
theorem Created.encodePackage_eq_ok (hq : Created p sorIp desIp data q) (hsor : IsAddress sorIp)
    (hdes : IsAddress desIp) {buffer : List Byte} {s : List Byte × ℕ} :
    encodePackage buffer q = .ok s ↔
      data.length < 10000 ∧ (wireBytes q).length ≤ buffer.length ∧
        s = written buffer (wireBytes q) := by
  have hver := currentVersion_length
  have hlen := hq.header_length_le hsor hdes
  have hheadLen : (ofInt q.headerLength).length ≤ 4 := by
    rw [hq.headerLength_eq hsor hdes]
    exact (ofNat_length_le (k := 2) (by decide) (by omega)).trans (by decide)
  have hsorShort := hsor.short
  have hdesShort := hdes.short
  rw [Package.encodePackage_eq_ok]
  constructor
  · rintro ⟨henc, rfl⟩
    refine ⟨?_, henc.fits, rfl⟩
    have hdataLen := henc.dataLen
    rw [hq.dataLength] at hdataLen
    exact lt_of_ofNat_length_le (by decide) hdataLen
  · rintro ⟨hdata, hfits, rfl⟩
    refine ⟨⟨?_, hheadLen, ?_, ?_, ?_, ?_, hfits⟩, rfl⟩
    · rw [hq.verLength, Int.toNat_natCast, hver]
      decide
    · rw [hq.dataLength]
      exact ofNat_length_le (by decide) hdata
    · rw [hq.sorLength, Int.toNat_natCast]
      exact hsorShort.trans (by decide)
    · rw [hq.desLength, Int.toNat_natCast]
      exact hdesShort.trans (by decide)
    · rw [hq.dataLength, hq.data, Int.toNat_natCast]

/-- The package `p` once its header has been overwritten by that of `q`. -/
def withHeader (p q : IoTPackage) : IoTPackage :=
  { q with data := p.data, belongSocketIdx := p.belongSocketIdx }

/-- The header of a created package decodes to the package's own fields. -/
theorem Created.decodes (hq : Created p sorIp desIp data q) (hsor : IsAddress sorIp)
    (hdes : IsAddress desIp) (p' : IoTPackage) :
    Decodes (hq.header hsor hdes) p' (withHeader p' q) := by
  have hlen := hq.header_length_le hsor hdes
  have hhead := hq.headerLength_eq hsor hdes
  have hshort : ∀ n : ℕ, n < 10 ^ 9 → (ofInt n).length ≤ tempBufferSize := by
    intro n hn
    exact (ofNat_length_le (by decide) hn).trans (by decide)
  refine ⟨hq.ver, hq.verLength, ?_, ?_, ?_, ?_, hq.sor, hq.sorLength, hq.des, hq.desLength,
    rfl, rfl⟩
  · change (ofInt q.headerLength).length ≤ tempBufferSize
    rw [hhead]
    exact hshort _ (by omega)
  · change atoi (tempOf (ofInt q.headerLength)) = .ok q.headerLength
    rw [hhead]
    exact atoi_tempOf _ (by omega)
  · exact hshort _ hq.dataLength_lt
  · change atoi (tempOf (ofInt data.length)) = .ok q.dataLength
    rw [hq.dataLength]
    exact atoi_tempOf _ hq.dataLength_lt

theorem Created.lengthsFit (hq : Created p sorIp desIp data q) (hsor : IsAddress sorIp)
    (hdes : IsAddress desIp) : LengthsFit q := by
  have hlen := hq.header_length_le hsor hdes
  have hdata := hq.dataLength_lt
  refine ⟨?_, ?_⟩
  · rw [hq.headerLength_eq hsor hdes, hq.dataLength]
    omega
  · rw [packageTotalLen, hq.headerLength_eq hsor hdes, hq.dataLength]
    omega

theorem Created.version_prefix (hq : Created p sorIp desIp data q) (hsor : IsAddress sorIp)
    (hdes : IsAddress desIp) : CurrentVersion <+: (hq.header hsor hdes).bytes := by
  simp only [Header.bytes, Header.fields, Created.header, Delimited.joinFields_cons]
  exact List.prefix_append ..

/-- A buffer that begins with the bytes of a created package gives that package, and what
stood behind it moves to the front. -/
theorem Created.completed (hq : Created p sorIp desIp data q) (hsor : IsAddress sorIp)
    (hdes : IsAddress desIp) (p' : IoTPackage) (rest : List Byte) (bufferLength : ℤ)
    (henough : ((wireBytes q).length : ℤ) ≤ bufferLength)
    (hcap : bufferLength ≤ (wireBytes q ++ rest).length) (hint : bufferLength ≤ 2147483647) :
    getCompletedPackage (wireBytes q ++ rest) bufferLength p' =
      .ok ⟨.completed, shifted (wireBytes q ++ rest) bufferLength (wireBytes q).length,
        bufferLength - (wireBytes q).length,
        { q with belongSocketIdx := p'.belongSocketIdx }⟩ := by
  have hbytes : wireBytes q = packageBytes (hq.header hsor hdes) data := by
    rw [wireBytes, hq.summedBytes_eq hsor hdes]
    rfl
  have hinfo : ({ withHeader p' q with data := data } : IoTPackage) =
      { q with belongSocketIdx := p'.belongSocketIdx } := by
    rw [withHeader, ← hq.data]
  have hfront := getCompletedPackage_front (hq.version_prefix hsor hdes)
    (hq.decodes hsor hdes p') (hq.headerLength_eq hsor hdes) hq.dataLength rest bufferLength
    (hbytes ▸ henough) (hbytes ▸ hcap) hint
  rw [hbytes, hfront, hinfo]

/-- A proper beginning of a created package is left in the buffer for the next call. -/
theorem Created.unfinished (hq : Created p sorIp desIp data q) (hsor : IsAddress sorIp)
    (hdes : IsAddress desIp) (p' : IoTPackage) {buffer : List Byte} {n : ℕ}
    (hpart : buffer.take n <+: wireBytes q) (hn : n < (wireBytes q).length)
    (hcap : n ≤ buffer.length) :
    ∃ q', getCompletedPackage buffer n p' = .ok ⟨.noerror, buffer, n, q'⟩ := by
  have htotal := hq.totalLen_eq hsor hdes
  have hheader := hq.header_length_le hsor hdes
  have hver := currentVersion_length
  have hint : (n : ℤ) ≤ 2147483647 := by
    have := hq.wireBytes_length hsor hdes
    have := hq.dataLength_lt
    omega
  have hfront : (hq.header hsor hdes).bytes <+: wireBytes q := by
    rw [wireBytes, hq.summedBytes_eq hsor hdes, List.append_assoc]
    exact List.prefix_append ..
  have hbuffer : ∀ front : List Byte, front <+: wireBytes q → front.length ≤ n →
      front <+: buffer := by
    intro front hbegins hle
    have hlong : front.length ≤ (buffer.take n).length := by
      rw [List.length_take]
      omega
    exact (List.prefix_of_prefix_length_le hbegins hpart hlong).trans (List.take_prefix ..)
  by_cases hshort : n < 7
  · exact ⟨_, (Outcome.short (by omega)).eq_ok (by omega) (by omega) hint⟩
  have hversion := hbuffer _ ((hq.version_prefix hsor hdes).trans hfront) (by omega)
  by_cases hlate : n < (hq.header hsor hdes).bytes.length
  · refine ⟨_, (Outcome.headerUnfinished (by omega) hversion ?_).eq_ok (by omega) (by omega) hint⟩
    intro h hh
    by_contra hle
    have hsame : h.bytes <+: wireBytes q := by
      refine List.IsPrefix.trans ?_ hpart
      exact List.prefix_take_iff.mpr ⟨hh, by omega⟩
    have := header_unique hsame hfront
    subst this
    omega
  · refine ⟨_, (Outcome.dataUnfinished (hq.header hsor hdes) _ ⟨by omega, hversion,
      hbuffer _ hfront (by omega), by omega⟩ (hq.decodes hsor hdes p')
      ((hq.lengthsFit hsor hdes).of_lengths rfl rfl) ?_).eq_ok (by omega) (by omega) hint⟩
    have hlength : packageTotalLen (withHeader p' q) = ((wireBytes q).length : ℤ) := htotal
    omega

end

/-- A package from `A` to `B`. -/
def packageInfoAB (headerLength : ℤ) (data : List Byte) : IoTPackage where
  ver := ⟨CurrentVersion ++ [0, 0, 0], by decide⟩
  verLength := 7
  headerLength := headerLength
  dataLength := data.length
  sorIp := ⟨⟨ascii "A" ++ List.replicate 14 0, by decide⟩, 1⟩
  desIp := ⟨⟨ascii "B" ++ List.replicate 14 0, by decide⟩, 1⟩
  data := data
  belongSocketIdx := -1

theorem isAddress_A : IsAddress (ascii "A") := ⟨by decide, by decide, by decide⟩

theorem isAddress_B : IsAddress (ascii "B") := ⟨by decide, by decide, by decide⟩

end IoTRepublic.CreatedPackage
