import IoTRepublic.ReaderOutcome
import Mathlib.Data.List.Infix

/-!
Waiting for more bytes. The reader leaves the received bytes in the buffer when
they are fewer than the version, when no header is complete, and when the header
asks for more bytes than have come. Some package begins with the received bytes
only if they go together with one header that fits its arrays, whose lengths can
be met and whose checksum, as far as it has come, is right. Bytes that fail this
are dropped in two cases and wait for ever in all others.
-/
namespace IoTRepublic.MoreBytes

open DecimalText Package PackageReader ReaderOutcome

/-- More bytes can come behind the received ones so that the reader takes a package. -/
def Extendable (received : List Byte) (p : IoTPackage) : Prop :=
  ∃ (more : List Byte) (r : Reading), ((received ++ more).length : ℤ) ≤ 2147483647 ∧
    getCompletedPackage (received ++ more) (received ++ more).length p = .ok r ∧
    r.result = .completed

/-- The buffer is empty after the call. -/
def Dropped (buffer : List Byte) (n : ℕ) (p : IoTPackage) : Prop :=
  ∃ r, getCompletedPackage buffer n p = .ok r ∧
    (r.result = .invalidPackage ∨ r.result = .checksumError) ∧ r.bufferLength = 0

/-- The reader waits only for bytes that can come, and drops what no bytes can complete. -/
def WaitsForPackage (buffer : List Byte) (n : ℕ) (p : IoTPackage) : Prop :=
  (∀ r, getCompletedPackage buffer n p = .ok r → r.result = .noerror →
    Extendable (buffer.take n) p) ∧
  (¬ Extendable (buffer.take n) p → Dropped buffer n p)

/-- Where the checksum is looked for under these lengths. -/
def checksumIndex (headerLength dataLength : ℤ) : ℕ := headerLength.toNat + dataLength.toNat

/-- The bytes of the checksum that have come are those of the bytes in front of it. -/
def ChecksumSoFar (bytes : List Byte) (k : ℕ) : Prop :=
  (bytes.drop k).take 2 <+: checksumBytes (bytes.take k)

/-- The fields of a header fit their arrays and its lengths are these. -/
structure Tells (h : Header) (headerLength dataLength : ℤ) : Prop where
  version : CurrentVersion <+: h.bytes
  fields : FieldsFit h
  head : atoi (tempOf h.headLen) = .ok headerLength
  data : atoi (tempOf h.dataLen) = .ok dataLength

/-- The received bytes and the header are beginnings of one package. -/
structure Begins (received : List Byte) (h : Header) (headerLength dataLength : ℤ) : Prop where
  tells : Tells h headerLength dataLength
  start : 0 ≤ headerLength
  lower : -2 ≤ headerLength + dataLength
  upper : checksumIndex headerLength dataLength + 2 ≤ 2147483647
  front : (h.bytes <+: received ∧ ChecksumSoFar received (checksumIndex headerLength dataLength)) ∨
    (received <+: h.bytes ∧ ChecksumSoFar h.bytes (checksumIndex headerLength dataLength))

/-- A whole header, and behind it a checksum inside the buffer that is not that of the bytes. -/
structure Corrupt (buffer : List Byte) (n : ℕ) (h : Header) (headerLength dataLength : ℤ) :
    Prop where
  tells : Tells h headerLength dataLength
  front : h.bytes <+: buffer
  complete : h.bytes.length ≤ n
  start : 0 ≤ headerLength
  lower : -2147483648 ≤ headerLength + dataLength
  enough : headerLength + dataLength + 2 ≤ n
  inside : checksumIndex headerLength dataLength + 2 ≤ buffer.length
  checksum : (buffer.drop (checksumIndex headerLength dataLength)).take 2 ≠
    checksumBytes (buffer.take (checksumIndex headerLength dataLength))

section

variable {bytes whole : List Byte} {k : ℕ}

/-- The beginning of a text whose checksum is right has it right so far. -/
theorem ChecksumSoFar.of_begins (hbegins : bytes <+: whole)
    (hholds : (whole.drop k).take 2 = checksumBytes (whole.take k)) : ChecksumSoFar bytes k := by
  obtain ⟨rest, rfl⟩ := hbegins
  unfold ChecksumSoFar
  rcases Nat.lt_or_ge bytes.length k with hshort | hlong
  · rw [List.drop_eq_nil_of_le hshort.le]
    exact List.nil_prefix
  · rw [List.take_append_of_le_length hlong, List.drop_append_of_le_length hlong] at hholds
    rw [← hholds]
    have hdropped : bytes.drop k <+: bytes.drop k ++ rest := List.prefix_append ..
    exact List.IsPrefix.take hdropped 2

/-- Bytes whose checksum is right so far can be continued up to the checksum. -/
theorem ChecksumSoFar.exists_whole (h : ChecksumSoFar bytes k) :
    ∃ whole, bytes <+: whole ∧ whole.length = max bytes.length (k + 2) ∧
      (whole.drop k).take 2 = checksumBytes (whole.take k) := by
  unfold ChecksumSoFar at h
  rcases Nat.lt_or_ge bytes.length k with hshort | hlong
  · -- the checksum lies behind the bytes
    have hpad : (bytes ++ List.replicate (k - bytes.length) 0).length = k := by
      rw [List.length_append, List.length_replicate]
      omega
    generalize hfront : bytes ++ List.replicate (k - bytes.length) 0 = front at hpad
    refine ⟨front ++ checksumBytes front, ?_, ?_, ?_⟩
    · rw [← hfront, List.append_assoc]
      exact List.prefix_append ..
    · rw [List.length_append, hpad]
      simp only [checksumBytes, List.length_cons, List.length_nil]
      omega
    · rw [List.drop_left' hpad, List.take_left' hpad]
      rfl
  · obtain ⟨last, hlast⟩ := h
    have hsplit : bytes = bytes.take k ++ ((bytes.drop k).take 2 ++ bytes.drop (k + 2)) := by
      rw [← List.drop_drop, List.take_append_drop, List.take_append_drop]
    have hfront : (bytes.take k).length = k := List.length_take_of_le hlong
    have htwo : (checksumBytes (bytes.take k)).length = 2 := rfl
    refine ⟨bytes.take k ++ (checksumBytes (bytes.take k) ++ bytes.drop (k + 2)), ?_, ?_, ?_⟩
    · by_cases hall : k + 2 ≤ bytes.length
      · have hmiddle : ((bytes.drop k).take 2).length = 2 := by
          rw [List.length_take, List.length_drop]
          omega
        have hnil : last = [] := by
          have hlen := congrArg List.length hlast
          rw [List.length_append, hmiddle, htwo] at hlen
          exact List.length_eq_zero_iff.mp (by omega)
        rw [hnil, List.append_nil] at hlast
        rw [← hlast, ← hsplit]
      · have hbehind : bytes.drop (k + 2) = [] := List.drop_eq_nil_of_le (by omega)
        rw [hbehind, List.append_nil] at hsplit ⊢
        refine ⟨last, ?_⟩
        nth_rewrite 1 [hsplit]
        rw [List.append_assoc, hlast]
    · rw [List.length_append, List.length_append, hfront, htwo, List.length_drop]
      omega
    · rw [List.drop_left' hfront, List.take_left' hfront]
      rfl

end

theorem Tells.header_length_le {h : Header} {headerLength dataLength : ℤ}
    (htells : Tells h headerLength dataLength) : h.bytes.length ≤ 500 := by
  obtain ⟨hversion, hhead, hdata, hsource, hdestination⟩ := htells.fields
  have hver : VERSION_CHAR_SIZE = 10 := rfl
  have hip : IP_ADDR_SIZE = 15 := rfl
  have htemp : tempBufferSize = 200 := rfl
  simp only [Header.bytes, Header.fields, Delimited.length_joinFields_cons,
    Delimited.joinFields_nil, List.length_nil]
  omega

section

variable {received : List Byte} {h : Header} {headerLength dataLength : ℤ}

/-- The header and the received bytes are beginnings of the longer of the two. -/
theorem Begins.exists_front (hbegins : Begins received h headerLength dataLength) :
    ∃ bytes, received <+: bytes ∧ h.bytes <+: bytes ∧
      bytes.length ≤ max received.length h.bytes.length ∧
      ChecksumSoFar bytes (checksumIndex headerLength dataLength) := by
  rcases hbegins.front with ⟨hfront, hsum⟩ | ⟨hfront, hsum⟩
  · exact ⟨received, List.prefix_rfl, hfront, le_max_left .., hsum⟩
  · exact ⟨h.bytes, hfront, List.prefix_rfl, le_max_right .., hsum⟩

/-- Bytes that begin a package can be continued to one. -/
theorem Begins.extendable (hbegins : Begins received h headerLength dataLength)
    (hint : (received.length : ℤ) ≤ 2147483647) (p : IoTPackage) : Extendable received p := by
  have hshort := hbegins.tells.header_length_le
  have hupper := hbegins.upper
  have hlower := hbegins.lower
  have hstart := hbegins.start
  obtain ⟨bytes, hreceived, hheader, hlength, hsum⟩ := hbegins.exists_front
  obtain ⟨whole, hwhole, hwholeLength, hholds⟩ := hsum.exists_whole
  obtain ⟨q, hq, rfl, rfl⟩ : ∃ q, Decodes h p q ∧ q.headerLength = headerLength ∧
      q.dataLength = dataLength :=
    (exists_decodes_iff h p (fun a b => a = headerLength ∧ b = dataLength)).mpr
      ⟨hbegins.tells.fields, _, _, hbegins.tells.head, hbegins.tells.data, rfl, rfl⟩
  obtain ⟨more, rfl⟩ := hreceived.trans hwhole
  have hfront := hheader.trans hwhole
  have hversion := hbegins.tells.version
  have hbounds : ((received ++ more).length : ℤ) ≤ 2147483647 := by omega
  have hindex : checksumIndex q.headerLength q.dataLength = checksumAt q := rfl
  rw [hindex] at hwholeLength hholds hupper
  have hat : checksumAt q = q.headerLength.toNat + q.dataLength.toNat := rfl
  have hin : DataInside (received ++ more) q := ⟨hstart, by omega⟩
  have hfit : LengthsFit q := by
    refine ⟨by omega, ?_⟩
    unfold packageTotalLen
    omega
  have hout : Outcome (received ++ more) (received ++ more).length p _ :=
    .completed h q ⟨by exact_mod_cast (hversion.trans hfront).length_le, hversion.trans hfront,
      hfront, by exact_mod_cast hfront.length_le⟩ hq hfit (by unfold packageTotalLen; omega) hin
      hholds (by unfold packageTotalLen; omega)
  exact ⟨more, _, hbounds, hout.eq_ok (by omega) le_rfl hbounds, rfl⟩

/-- What a decoded header tells. -/
theorem tells_of_decodes {p q : IoTPackage} (hversion : CurrentVersion <+: h.bytes)
    (hq : Decodes h p q) : Tells h q.headerLength q.dataLength :=
  ⟨hversion, ⟨(CharArray.ofText_eq_ok.mp hq.ver).1, hq.headLen, hq.dataLen,
    (CharArray.ofText_eq_ok.mp hq.sor).1, (CharArray.ofText_eq_ok.mp hq.des).1⟩,
    hq.headerLength, hq.dataLength⟩

/-- Bytes from which a package can come begin one. -/
theorem Extendable.begins {p : IoTPackage} (hextend : Extendable received p) :
    ∃ h headerLength dataLength, Begins received h headerLength dataLength := by
  obtain ⟨more, r, hint, hread, hresult⟩ := hextend
  cases outcome_of_ok (by omega) le_rfl hread with
  | short _ => cases hresult
  | invalid _ _ => cases hresult
  | headerUnfinished _ _ _ => cases hresult
  | dataUnfinished _ _ _ _ _ _ => cases hresult
  | corrupt _ _ _ _ _ _ _ _ => cases hresult
  | completed h q hwhole hq hfit henough hin hsum htotal =>
    have hreceived : received <+: received ++ more := List.prefix_append ..
    have hstop := hin.stop
    have htotalLen : packageTotalLen q = q.headerLength + q.dataLength + 2 := rfl
    refine ⟨h, q.headerLength, q.dataLength, tells_of_decodes hwhole.version_prefix hq, hin.start,
      by omega, ?_, ?_⟩
    · change checksumAt q + 2 ≤ 2147483647
      omega
    · rcases List.prefix_or_prefix_of_prefix hwhole.front hreceived with hfront | hfront
      · exact .inl ⟨hfront, .of_begins hreceived hsum⟩
      · exact .inr ⟨hfront, .of_begins hwhole.front hsum⟩

/-- A package can come of the received bytes exactly when they begin one. -/
theorem extendable_iff (hint : (received.length : ℤ) ≤ 2147483647) (p : IoTPackage) :
    Extendable received p ↔
      ∃ h headerLength dataLength, Begins received h headerLength dataLength := by
  constructor
  · exact Extendable.begins
  · intro ⟨h, headerLength, dataLength, hbegins⟩
    exact hbegins.extendable hint p

end

section

variable {buffer : List Byte} {n : ℕ}

/-- The bytes are dropped when they do not begin with the version or are corrupt. -/
theorem dropped_iff (hn : n ≤ buffer.length) (hint : (n : ℤ) ≤ 2147483647) (p : IoTPackage) :
    Dropped buffer n p ↔
      (CurrentVersion.length ≤ n ∧ ¬ CurrentVersion <+: buffer) ∨
      ∃ h headerLength dataLength, Corrupt buffer n h headerLength dataLength := by
  constructor
  · intro ⟨r, hread, hresult, _⟩
    cases outcome_of_ok (by omega) (by omega) hread with
    | short _ => rcases hresult with hresult | hresult <;> cases hresult
    | headerUnfinished _ _ _ => rcases hresult with hresult | hresult <;> cases hresult
    | dataUnfinished _ _ _ _ _ _ => rcases hresult with hresult | hresult <;> cases hresult
    | completed _ _ _ _ _ _ _ _ _ => rcases hresult with hresult | hresult <;> cases hresult
    | invalid hlong hversion => exact .inl ⟨by exact_mod_cast hlong, hversion⟩
    | corrupt h q hwhole hq hfit henough hin hsum =>
      exact .inr ⟨h, q.headerLength, q.dataLength, tells_of_decodes hwhole.version_prefix hq,
        hwhole.front, by exact_mod_cast hwhole.complete, hin.start, hfit.sum_lower, henough,
        hin.stop, hsum⟩
  · rintro (⟨hlong, hversion⟩ | ⟨h, headerLength, dataLength, hcorrupt⟩)
    · exact ⟨_, (Outcome.invalid (by exact_mod_cast hlong) hversion).eq_ok (by omega) (by omega)
        hint, .inl rfl, rfl⟩
    · obtain ⟨q, hq, rfl, rfl⟩ : ∃ q, Decodes h p q ∧ q.headerLength = headerLength ∧
          q.dataLength = dataLength :=
        (exists_decodes_iff h p (fun a b => a = headerLength ∧ b = dataLength)).mpr
          ⟨hcorrupt.tells.fields, _, _, hcorrupt.tells.head, hcorrupt.tells.data, rfl, rfl⟩
      have hversion := hcorrupt.tells.version
      have hfront := hcorrupt.front
      have hcomplete := hcorrupt.complete
      have henough := hcorrupt.enough
      have hseven := hversion.length_le
      have hfit : LengthsFit q := by
        refine ⟨hcorrupt.lower, ?_⟩
        unfold packageTotalLen
        omega
      have hout : Outcome buffer n p _ :=
        .corrupt h q ⟨by omega, hversion.trans hfront, hfront, by exact_mod_cast hcomplete⟩ hq hfit
          henough ⟨hcorrupt.start, hcorrupt.inside⟩ hcorrupt.checksum
      exact ⟨_, hout.eq_ok (by omega) (by omega) hint, .inr rfl, rfl⟩

end

/-- The reader waits only for bytes that can come, and drops what no bytes can complete,
exactly when the received bytes begin a package, or are enough to hold a version and hold
another, or hold a whole header with a wrong checksum behind it. -/
theorem waits_for_package_iff (buffer : List Byte) (n : ℕ) (hn : n ≤ buffer.length)
    (hint : (n : ℤ) ≤ 2147483647) (p : IoTPackage) :
    WaitsForPackage buffer n p ↔
      (∃ h headerLength dataLength, Begins (buffer.take n) h headerLength dataLength) ∨
      (CurrentVersion.length ≤ n ∧ ¬ CurrentVersion <+: buffer) ∨
      ∃ h headerLength dataLength, Corrupt buffer n h headerLength dataLength := by
  have hlength : (buffer.take n).length = n := List.length_take_of_le hn
  rw [← extendable_iff (by rw [hlength]; exact hint) p, ← dropped_iff hn hint p]
  constructor
  · intro ⟨_, hdrops⟩
    by_cases hextend : Extendable (buffer.take n) p
    · exact .inl hextend
    · exact .inr (hdrops hextend)
  · rintro (hextend | hdropped)
    · exact ⟨fun _ _ _ => hextend, fun hnot => absurd hextend hnot⟩
    · refine ⟨?_, fun _ => hdropped⟩
      intro r hread hnoerror
      obtain ⟨r', hread', hresult, -⟩ := hdropped
      obtain rfl := Except.ok.inj (hread.symm.trans hread')
      rw [hnoerror] at hresult
      rcases hresult with hresult | hresult <;> cases hresult

/-- A header that the version alone can begin. -/
def anyHeader : Header where
  version := CurrentVersion
  headLen := ascii "9"
  dataLen := ascii "99"
  source := ascii "0"
  destination := ascii "0"
  isFields := ⟨by decide, by decide⟩

/-- Fewer bytes than the version begin a package when they begin the version. -/
theorem begins_short_iff {received : List Byte} (hshort : received.length < CurrentVersion.length) :
    (∃ h headerLength dataLength, Begins received h headerLength dataLength) ↔
      received <+: CurrentVersion := by
  constructor
  · intro ⟨h, _, _, hbegins⟩
    have hversion := hbegins.tells.version
    have hheader : received <+: h.bytes := by
      rcases hbegins.front with ⟨hfront, _⟩ | ⟨hfront, _⟩
      · have hseven := (hversion.trans hfront).length_le
        omega
      · exact hfront
    exact List.prefix_of_prefix_length_le hheader hversion hshort.le
  · intro hfront
    have hversion : CurrentVersion <+: anyHeader.bytes := by decide
    exact ⟨anyHeader, 9, 99, ⟨hversion, ⟨by decide, by decide, by decide, by decide, by decide⟩,
      by decide, by decide⟩, by decide, by decide, by decide,
      .inr ⟨hfront.trans hversion, List.nil_prefix⟩⟩

/-- A header with an empty field waits for ever. -/
theorem empty_field_waits {buffer rest : List Byte} {fields : List (List Byte)} {n : ℕ}
    (hn : n ≤ buffer.length) (hint : (n : ℤ) ≤ 2147483647)
    (hfields : Delimited.IsFields SplitSymble fields) (hfew : fields.length < 5)
    (hversion : CurrentVersion <+: buffer)
    (hreceived : buffer.take n = Delimited.joinFields SplitSymble fields ++ SplitSymble :: rest)
    (p : IoTPackage) : ¬ WaitsForPackage buffer n p := by
  have hnot : ∀ h : Header, ∀ more more' : List Byte,
      h.bytes ++ more ≠ buffer.take n ++ more' := by
    intro h more more' heq
    rw [hreceived, List.append_assoc, List.cons_append] at heq
    exact Delimited.not_empty_field h.isFields hfields hfew heq
  rw [waits_for_package_iff buffer n hn hint p]
  rintro (⟨h, _, _, hbegins⟩ | ⟨_, hother⟩ | ⟨h, _, _, hcorrupt⟩)
  · rcases hbegins.front with ⟨⟨more, hmore⟩, _⟩ | ⟨⟨more, hmore⟩, _⟩
    · exact hnot h more [] (hmore.trans (List.append_nil _).symm)
    · exact hnot h [] more ((List.append_nil _).trans hmore.symm)
  · exact hother hversion
  · obtain ⟨more, hmore⟩ := List.prefix_take_iff.mpr ⟨hcorrupt.front, hcorrupt.complete⟩
    exact hnot h more [] (hmore.trans (List.append_nil _).symm)

/-- A version and an empty field. -/
def emptyField : List Byte := CurrentVersion ++ [0, 0]

theorem emptyField_not_waits : ¬ WaitsForPackage emptyField 9 generateIotPackage := by
  have hfields : Delimited.IsFields SplitSymble [CurrentVersion] :=
    (Delimited.isFields_cons _ _ _).mpr ⟨by decide, by decide, Delimited.IsFields.nil _⟩
  have hreceived : emptyField.take 9 =
      Delimited.joinFields SplitSymble [CurrentVersion] ++ SplitSymble :: [] := by decide
  exact empty_field_waits (by decide) (by decide) hfields (by decide) (by decide) hreceived
    generateIotPackage

theorem emptyField_waits :
    ¬ ∀ (buffer : List Byte) (n : ℕ), n ≤ buffer.length → (n : ℤ) ≤ 2147483647 →
      WaitsForPackage buffer n generateIotPackage :=
  fun hall => emptyField_not_waits (hall emptyField 9 (by decide) (by decide))

/-- The first letters of the version wait for the rest and a line of another protocol is
dropped, while the header with an empty field is neither begun nor another version nor
corrupt. -/
theorem waits_for_package_version :
    WaitsForPackage (ascii "IUD") 3 generateIotPackage ∧
      WaitsForPackage (ascii "HTTP/1.1") 8 generateIotPackage ∧
      ¬ WaitsForPackage emptyField 9 generateIotPackage ∧
      ¬ ∃ h headerLength dataLength, Begins (emptyField.take 9) h headerLength dataLength := by
  have hiff := waits_for_package_iff emptyField 9 (by decide) (by decide) generateIotPackage
  refine ⟨?_, ?_, emptyField_not_waits, ?_⟩
  · have hshort : ((ascii "IUD").take 3).length < 7 := by decide
    exact (waits_for_package_iff (ascii "IUD") 3 (by decide) (by decide) generateIotPackage).mpr
      (.inl ((begins_short_iff hshort).mpr (by decide)))
  · exact (waits_for_package_iff (ascii "HTTP/1.1") 8 (by decide) (by decide)
      generateIotPackage).mpr (.inr (.inl ⟨by decide, by decide⟩))
  · intro hbegins
    exact emptyField_not_waits (hiff.mpr (.inl hbegins))

end IoTRepublic.MoreBytes
