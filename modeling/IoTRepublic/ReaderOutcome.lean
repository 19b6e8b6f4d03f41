import IoTRepublic.PackageReader

/-!
Everything a call of the package reader can do. On a buffer of the given length
a call that stays inside its arrays has one of six outcomes, and it has that
outcome exactly under the conditions listed with it. The later results on the
reader use this list and never unfold the reader itself.
-/
namespace IoTRepublic.ReaderOutcome

open CheckedArray Package PackageReader

/-- A whole header of the current version stands at the front of the received bytes. -/
structure WholeHeader (buffer : List Byte) (bufferLength : ℤ) (h : Header) : Prop where
  long : (CurrentVersion.length : ℤ) ≤ bufferLength
  version : CurrentVersion <+: buffer
  front : h.bytes <+: buffer
  complete : (h.bytes.length : ℤ) ≤ bufferLength

def packageTotalLen (q : IoTPackage) : ℤ := q.headerLength + q.dataLength + 2

/-- The sum of the two lengths and the checksum is a 32-bit number. -/
structure LengthsFit (q : IoTPackage) : Prop where
  sum_lower : -2147483648 ≤ q.headerLength + q.dataLength
  total_upper : packageTotalLen q ≤ 2147483647

theorem LengthsFit.of_lengths {q q' : IoTPackage} (hq : LengthsFit q)
    (hheader : q'.headerLength = q.headerLength) (hdata : q'.dataLength = q.dataLength) :
    LengthsFit q' := by
  refine ⟨?_, ?_⟩
  · rw [hheader, hdata]
    exact hq.sum_lower
  · rw [packageTotalLen, hheader, hdata]
    exact hq.total_upper

/-- Where the checksum is looked for. -/
def checksumAt (q : IoTPackage) : ℕ := q.headerLength.toNat + q.dataLength.toNat

/-- The data bytes and the checksum lie inside the buffer. -/
structure DataInside (buffer : List Byte) (q : IoTPackage) : Prop where
  start : 0 ≤ q.headerLength
  stop : checksumAt q + 2 ≤ buffer.length

def dataOf (buffer : List Byte) (q : IoTPackage) : List Byte :=
  (buffer.drop q.headerLength.toNat).take q.dataLength.toNat

def ChecksumHolds (buffer : List Byte) (q : IoTPackage) : Prop :=
  (buffer.drop (checksumAt q)).take 2 = checksumBytes (buffer.take (checksumAt q))

instance (buffer : List Byte) (q : IoTPackage) : Decidable (ChecksumHolds buffer q) := by
  unfold ChecksumHolds
  infer_instance

def cleared (buffer : List Byte) (bufferLength : ℤ) : List Byte :=
  List.replicate bufferLength.toNat 0 ++ buffer.drop bufferLength.toNat

/-- The received bytes without the first `total`, padded with zeros to where they ended. -/
def shifted (buffer : List Byte) (bufferLength total : ℤ) : List Byte :=
  (buffer.take bufferLength.toNat).drop total.toNat ++
    List.replicate total.toNat 0 ++ buffer.drop bufferLength.toNat

inductive Outcome (buffer : List Byte) (bufferLength : ℤ) (p : IoTPackage) : Reading → Prop
  | short : bufferLength < CurrentVersion.length →
      Outcome buffer bufferLength p ⟨.noerror, buffer, bufferLength, p⟩
  | invalid : (CurrentVersion.length : ℤ) ≤ bufferLength → ¬ CurrentVersion <+: buffer →
      Outcome buffer bufferLength p ⟨.invalidPackage, cleared buffer bufferLength, 0, p⟩
  | headerUnfinished : (CurrentVersion.length : ℤ) ≤ bufferLength → CurrentVersion <+: buffer →
      (∀ h : Header, h.bytes <+: buffer → bufferLength < h.bytes.length) →
      Outcome buffer bufferLength p ⟨.noerror, buffer, bufferLength, p⟩
  | dataUnfinished (h : Header) (q : IoTPackage) : WholeHeader buffer bufferLength h →
      Decodes h p q → LengthsFit q → bufferLength < packageTotalLen q →
      Outcome buffer bufferLength p ⟨.noerror, buffer, bufferLength, q⟩
  | corrupt (h : Header) (q : IoTPackage) : WholeHeader buffer bufferLength h →
      Decodes h p q → LengthsFit q → packageTotalLen q ≤ bufferLength →
      DataInside buffer q → ¬ ChecksumHolds buffer q →
      Outcome buffer bufferLength p ⟨.checksumError, cleared buffer bufferLength, 0,
        { q with data := dataOf buffer q }⟩
  | completed (h : Header) (q : IoTPackage) : WholeHeader buffer bufferLength h →
      Decodes h p q → LengthsFit q → packageTotalLen q ≤ bufferLength →
      DataInside buffer q → ChecksumHolds buffer q → 0 ≤ packageTotalLen q →
      Outcome buffer bufferLength p ⟨.completed, shifted buffer bufferLength (packageTotalLen q),
        bufferLength - packageTotalLen q, { q with data := dataOf buffer q }⟩

theorem currentVersion_length : CurrentVersion.length = 7 := by decide

theorem isVaildPackage_eq (buffer : List Byte) (bufferLength : ℤ)
    (hlow : (CurrentVersion.length : ℤ) ≤ bufferLength) (hcap : bufferLength ≤ buffer.length) :
    isVaildPackage buffer bufferLength = .ok (decide (CurrentVersion <+: buffer)) := by
  have hread := readLoop_eq buffer CurrentVersion.length 0 (by omega)
  rw [Int.natCast_zero, List.drop_zero] at hread
  rw [isVaildPackage, if_neg (by omega), hread, ok_bind]
  congr 1
  rw [decide_eq_decide, List.prefix_iff_eq_take, eq_comm]

theorem memset_eq (buffer : List Byte) (bufferLength : ℤ) (h0 : 0 ≤ bufferLength)
    (hcap : bufferLength ≤ buffer.length) :
    memset buffer 0 bufferLength = .ok (cleared buffer bufferLength) := by
  have hfill := fillLoop_eq (0 : Byte) bufferLength.toNat 0 buffer (by omega)
  rw [Int.natCast_zero, splice_zero, List.length_replicate] at hfill
  rw [memset, if_pos h0, hfill, cleared]

/-- Two complete headers at the front of one buffer are the same. -/
theorem header_unique {buffer : List Byte} {h h' : Header} (hh : h.bytes <+: buffer)
    (hh' : h'.bytes <+: buffer) : h = h' := by
  obtain ⟨rest, hrest⟩ := hh
  obtain ⟨rest', hrest'⟩ := hh'
  have hfields := (Delimited.fields_unique h.fields h'.fields rfl
    h.isFields.sep_notMem h'.isFields.sep_notMem (hrest.trans hrest'.symm)).1
  obtain ⟨v, hl, dl, s, d, _⟩ := h
  obtain ⟨v', hl', dl', s', d', _⟩ := h'
  simp only [Header.fields, List.cons.injEq, and_true] at hfields
  obtain ⟨rfl, rfl, rfl, rfl, rfl⟩ := hfields
  rfl

/-- The version is part of the header, which has a separator behind it. -/
theorem WholeHeader.version_prefix {buffer : List Byte} {bufferLength : ℤ} {h : Header}
    (hwhole : WholeHeader buffer bufferLength h) : CurrentVersion <+: h.bytes := by
  rcases List.prefix_or_prefix_of_prefix hwhole.version hwhole.front with hbegins | hbegins
  · exact hbegins
  · have hsep : SplitSymble ∈ h.bytes := by
      simp [Header.bytes, Header.fields]
    have hnone : SplitSymble ∉ CurrentVersion := by decide
    exact absurd (hbegins.subset hsep) hnone

private theorem take_two (buffer : List Byte) (k : ℕ) (high low : Byte)
    (hh : buffer[k]? = some high) (hl : buffer[k + 1]? = some low) :
    (buffer.drop k).take 2 = [high, low] := by
  obtain ⟨hk, rfl⟩ := List.getElem?_eq_some_iff.mp hh
  obtain ⟨hk', rfl⟩ := List.getElem?_eq_some_iff.mp hl
  rw [List.drop_eq_getElem_cons hk, List.drop_eq_getElem_cons hk']
  rfl

/-- Decoding the whole package reads the data and the checksum where the lengths say. -/
theorem decodePackage_eq_ok (h : Header) (rest : List Byte) (p : IoTPackage)
    (r : IoTPackage × Bool) :
    decodePackage (h.bytes ++ rest) p = .ok r ↔
      ∃ q, Decodes h p q ∧ DataInside (h.bytes ++ rest) q ∧
        r = ({ q with data := dataOf (h.bytes ++ rest) q },
          decide (ChecksumHolds (h.bytes ++ rest) q)) := by
  generalize hbuf : h.bytes ++ rest = buffer
  have hdecode : ∀ q, decodeOnlyHeader buffer p = .ok q ↔ Decodes h p q := by
    intro q
    rw [← hbuf]
    exact decodeOnlyHeader_eq_ok h rest p q
  have hsum : ∀ (o : ℕ) (high low : Byte), buffer[o]? = some high → buffer[o + 1]? = some low →
      (CarrySum.joinBytes high low = CarrySum.folded (buffer.take o) ↔
        (buffer.drop o).take 2 = checksumBytes (buffer.take o)) := by
    intro o high low hhigh hlow
    rw [take_two buffer o high low hhigh hlow,
      CarrySum.joinBytes_eq_iff _ _ _ (CarrySum.folded_lt _)]
    simp [checksumBytes]
  constructor
  · intro hdec
    obtain ⟨q, hq, hdec⟩ := bind_eq_ok.mp hdec
    obtain ⟨data, hdata, hdec⟩ := bind_eq_ok.mp hdec
    obtain ⟨summed, hsummed, hdec⟩ := bind_eq_ok.mp hdec
    obtain ⟨high, hhigh, hdec⟩ := bind_eq_ok.mp hdec
    obtain ⟨low, hlow, hdec⟩ := bind_eq_ok.mp hdec
    obtain rfl := Except.ok.inj hdec
    obtain ⟨hhigh0, hhigh⟩ := readAt_eq_ok.mp hhigh
    obtain ⟨-, hlow⟩ := readAt_eq_ok.mp hlow
    have hstart : 0 ≤ q.headerLength := by
      rcases Nat.eq_zero_or_pos q.dataLength.toNat with hzero | hpos
      · rw [hzero] at hhigh0
        simpa using hhigh0
      · exact (readLoop_bounds _ _ _ _ hdata hpos).1
    have hoff : (q.headerLength + (q.dataLength.toNat : ℤ)).toNat = checksumAt q := by
      unfold checksumAt
      omega
    have hoff' : (q.headerLength + (q.dataLength.toNat : ℤ) + 1).toNat = checksumAt q + 1 := by
      unfold checksumAt
      omega
    rw [hoff] at hhigh hsummed
    rw [hoff'] at hlow
    have hstop : checksumAt q + 2 ≤ buffer.length := by
      have := (List.getElem?_eq_some_iff.mp hlow).1
      omega
    have hdata' := readLoop_eq buffer q.dataLength.toNat q.headerLength.toNat
      (by unfold checksumAt at hstop; omega)
    rw [Int.toNat_of_nonneg hstart, hdata] at hdata'
    obtain rfl := Except.ok.inj hdata'
    have hsummed' := readLoop_eq buffer (checksumAt q) 0 (by omega)
    rw [Int.natCast_zero, hsummed, List.drop_zero] at hsummed'
    obtain rfl := Except.ok.inj hsummed'
    refine ⟨q, (hdecode q).mp hq, ⟨hstart, hstop⟩, ?_⟩
    exact congrArg (Prod.mk _) (decide_eq_decide.mpr (hsum _ high low hhigh hlow))
  · rintro ⟨q, hq, hin, rfl⟩
    obtain ⟨hstart, hstop⟩ := hin
    have hhigh := List.getElem?_eq_getElem (l := buffer) (i := checksumAt q) (by omega)
    have hlow := List.getElem?_eq_getElem (l := buffer) (i := checksumAt q + 1) (by omega)
    have hoff : q.headerLength + (q.dataLength.toNat : ℤ) = (checksumAt q : ℕ) := by
      unfold checksumAt
      omega
    have hdata := readLoop_eq buffer q.dataLength.toNat q.headerLength.toNat
      (by unfold checksumAt at hstop; omega)
    rw [Int.toNat_of_nonneg hstart] at hdata
    have hsummed := readLoop_eq buffer (checksumAt q) 0 (by omega)
    rw [Int.natCast_zero, List.drop_zero] at hsummed
    have hsucc : ((checksumAt q : ℕ) : ℤ) + 1 = ((checksumAt q + 1 : ℕ) : ℤ) := by omega
    simp only [decodePackage, (hdecode q).mpr hq, ok_bind, hdata, hoff, Int.toNat_natCast, hsummed,
      readAt_natCast buffer _ _ hhigh, hsucc, readAt_natCast buffer _ _ hlow]
    exact congrArg (fun b => Except.ok ({ q with data := dataOf buffer q }, b))
      (decide_eq_decide.mpr (hsum _ _ _ hhigh hlow))

/-- The copy towards the front and the zeros behind it. -/
theorem shift_eq (buffer : List Byte) (bufferLength total : ℤ) (h0 : 0 ≤ total)
    (hle : total ≤ bufferLength) (hcap : bufferLength ≤ buffer.length) :
    (do let moved ← moveLoop (bufferLength - total).toNat 0 total buffer
        fillLoop (0 : Byte) (bufferLength - (bufferLength - total)).toNat
          (bufferLength - total) moved) = .ok (shifted buffer bufferLength total) := by
  obtain ⟨T, rfl⟩ := Int.eq_ofNat_of_zero_le h0
  obtain ⟨L, rfl⟩ := Int.eq_ofNat_of_zero_le (h0.trans hle)
  have hTL : T ≤ L := by omega
  have hL : L ≤ buffer.length := by omega
  have hmove := moveLoop_eq buffer (L - T) 0 T (by omega)
  rw [Int.natCast_zero, Nat.zero_add] at hmove
  have hblock : ((buffer.drop T).take (L - T)).length = L - T := by
    simp only [List.length_take, List.length_drop]
    omega
  have hlen := splice_length buffer 0 ((buffer.drop T).take (L - T)) (by omega)
  have hfill := fillLoop_eq (0 : Byte) T (L - T)
    (splice buffer 0 ((buffer.drop T).take (L - T))) (by omega)
  have hjoin := splice_splice buffer 0 ((buffer.drop T).take (L - T)) (List.replicate T 0)
    (by omega)
  rw [hblock, Nat.zero_add] at hjoin
  have hcast : (L : ℤ) - (T : ℤ) = ((L - T : ℕ) : ℤ) := by omega
  have hback : ((L : ℤ) - ((L - T : ℕ) : ℤ)).toNat = T := by omega
  rw [hcast, Int.toNat_natCast, hmove, ok_bind, hback, hfill, hjoin, splice_zero]
  simp only [shifted, Int.toNat_natCast, List.length_append, hblock, List.length_replicate,
    List.drop_take]
  rw [show L - T + T = L by omega]

private theorem wholeHeader_of_complete {buffer : List Byte} {bufferLength : ℤ}
    (hlong : (CurrentVersion.length : ℤ) ≤ bufferLength) (hver : CurrentVersion <+: buffer)
    (hcomplete : isCompleteHeader buffer bufferLength = .ok true) :
    ∃ h, WholeHeader buffer bufferLength h := by
  rw [currentVersion_length] at hlong
  obtain ⟨h, rest, rfl, hbound⟩ :=
    (isCompleteHeader_eq_true buffer bufferLength (by omega)).mp hcomplete
  refine ⟨h, ⟨?_, hver, List.prefix_append .., hbound⟩⟩
  rw [currentVersion_length]
  exact hlong

/-- Up to the decoded header, a call with a whole header goes the same way. -/
private theorem getCompletedPackage_header {buffer : List Byte} {bufferLength : ℤ}
    {p q : IoTPackage} {h : Header} (hcap : bufferLength ≤ buffer.length)
    (hwhole : WholeHeader buffer bufferLength h) (hq : Decodes h p q) (hfit : LengthsFit q) :
    getCompletedPackage buffer bufferLength p =
      if bufferLength ≥ packageTotalLen q then do
        let (packageInfo, passed) ← decodePackage buffer q
        if passed then do
          let anotherPackageLen ← checkInt (bufferLength - packageTotalLen q)
          let buffer ← moveLoop anotherPackageLen.toNat 0 (packageTotalLen q) buffer
          let buffer ← fillLoop 0 (bufferLength - anotherPackageLen).toNat anotherPackageLen buffer
          .ok ⟨.completed, buffer, anotherPackageLen, packageInfo⟩
        else do
          let buffer ← memset buffer 0 bufferLength
          .ok ⟨.checksumError, buffer, 0, packageInfo⟩
      else .ok ⟨.noerror, buffer, bufferLength, q⟩ := by
  have hlong := hwhole.long
  have hpos : 0 < bufferLength := by
    rw [currentVersion_length] at hlong
    omega
  obtain ⟨rest, hrest⟩ := hwhole.front
  have hcomplete := (isCompleteHeader_eq_true buffer bufferLength hpos).mpr
    ⟨h, rest, hrest.symm, hwhole.complete⟩
  have hdecode : decodeOnlyHeader buffer p = .ok q := by
    rw [← hrest]
    exact (decodeOnlyHeader_eq_ok h rest p q).mpr hq
  have hlower := hfit.sum_lower
  have hupper := hfit.total_upper
  have hlengths : checkInt (q.headerLength + q.dataLength) =
      .ok (q.headerLength + q.dataLength) :=
    checkInt_ok _ hlower (by unfold packageTotalLen at hupper; omega)
  have htotal : checkInt (q.headerLength + q.dataLength + 2) = .ok (packageTotalLen q) :=
    checkInt_ok _ (by omega) hupper
  unfold getCompletedPackage
  rw [if_neg (by omega), isVaildPackage_eq buffer bufferLength hlong hcap, ok_bind]
  simp only [hwhole.version, decide_true, ↓reduceIte, hcomplete, ok_bind, hdecode, hlengths,
    htotal]

private theorem decodePackage_whole {buffer : List Byte} {bufferLength : ℤ} {p q : IoTPackage}
    {h : Header} (hwhole : WholeHeader buffer bufferLength h) (hq : Decodes h p q)
    (hin : DataInside buffer q) :
    decodePackage buffer q =
      .ok ({ q with data := dataOf buffer q }, decide (ChecksumHolds buffer q)) := by
  obtain ⟨rest, rfl⟩ := hwhole.front
  exact (decodePackage_eq_ok h rest q _).mpr ⟨q, hq.again, hin, rfl⟩

/-- What follows once the header is decoded. -/
private theorem outcome_of_header {buffer : List Byte} {bufferLength : ℤ} {p q : IoTPackage}
    {h : Header} {r : Reading} (h0 : 0 ≤ bufferLength) (hcap : bufferLength ≤ buffer.length)
    (hwhole : WholeHeader buffer bufferLength h) (hq : Decodes h p q) (hfit : LengthsFit q)
    (hread : getCompletedPackage buffer bufferLength p = .ok r) :
    Outcome buffer bufferLength p r := by
  rw [getCompletedPackage_header hcap hwhole hq hfit] at hread
  by_cases henough : bufferLength ≥ packageTotalLen q
  swap
  · rw [if_neg henough] at hread
    obtain rfl := Except.ok.inj hread
    exact .dataUnfinished h q hwhole hq hfit (by omega)
  rw [if_pos henough] at hread
  obtain ⟨⟨q', passed⟩, hdecode, hread⟩ := bind_eq_ok.mp hread
  obtain ⟨rest, hrest⟩ := hwhole.front
  rw [← hrest, decodePackage_eq_ok] at hdecode
  obtain ⟨q2, hq2, hin, hpair⟩ := hdecode
  obtain rfl := hq2.unique hq.again
  obtain ⟨rfl, rfl⟩ := Prod.mk.inj hpair
  rw [hrest] at hin hread
  by_cases hsum : ChecksumHolds buffer q2
  · simp only [hsum, decide_true, ↓reduceIte] at hread
    obtain ⟨another, hanother, hread⟩ := bind_eq_ok.mp hread
    obtain ⟨rfl, -, -⟩ := checkInt_eq_ok.mp hanother
    obtain ⟨moved, hmoved, hread⟩ := bind_eq_ok.mp hread
    have hpos : 0 ≤ packageTotalLen q2 := by
      by_contra hneg
      exact hneg (moveLoop_start hmoved (by omega))
    obtain ⟨filled, hfilled, hread⟩ := bind_eq_ok.mp hread
    obtain rfl := Except.ok.inj hread
    have hshift := shift_eq buffer bufferLength (packageTotalLen q2) hpos henough hcap
    rw [hmoved, ok_bind, hfilled] at hshift
    obtain rfl := Except.ok.inj hshift
    exact .completed h q2 hwhole hq hfit henough hin hsum hpos
  · simp only [hsum, decide_false, Bool.false_eq_true, ↓reduceIte] at hread
    rw [memset_eq buffer bufferLength h0 hcap, ok_bind] at hread
    obtain rfl := Except.ok.inj hread
    exact .corrupt h q2 hwhole hq hfit henough hin hsum

/-- A call that ends has one of the listed outcomes. -/
theorem outcome_of_ok {buffer : List Byte} {bufferLength : ℤ} {p : IoTPackage} {r : Reading}
    (h0 : 0 ≤ bufferLength) (hcap : bufferLength ≤ buffer.length)
    (hcall : getCompletedPackage buffer bufferLength p = .ok r) :
    Outcome buffer bufferLength p r := by
  have hread := hcall
  unfold getCompletedPackage at hread
  by_cases hshort : bufferLength < CurrentVersion.length
  · rw [if_pos ⟨h0, hshort⟩] at hread
    obtain rfl := Except.ok.inj hread
    exact .short hshort
  have hlong : (CurrentVersion.length : ℤ) ≤ bufferLength := by omega
  rw [if_neg (fun h => hshort h.2), isVaildPackage_eq buffer bufferLength hlong hcap, ok_bind]
    at hread
  by_cases hver : CurrentVersion <+: buffer
  swap
  · simp only [hver, decide_false, Bool.false_eq_true, ↓reduceIte] at hread
    rw [memset_eq buffer bufferLength h0 hcap, ok_bind] at hread
    obtain rfl := Except.ok.inj hread
    exact .invalid hlong hver
  simp only [hver, decide_true, ↓reduceIte] at hread
  obtain ⟨headerCompleted, hcomplete, hread⟩ := bind_eq_ok.mp hread
  cases headerCompleted with
  | false =>
    simp only [Bool.false_eq_true, ↓reduceIte] at hread
    obtain rfl := Except.ok.inj hread
    refine .headerUnfinished hlong hver ?_
    rintro h ⟨rest, rfl⟩
    by_contra hle
    have hpos : 0 < bufferLength := by
      rw [currentVersion_length] at hlong
      omega
    have htrue := (isCompleteHeader_eq_true (h.bytes ++ rest) bufferLength hpos).mpr
      ⟨h, rest, rfl, by omega⟩
    rw [hcomplete] at htrue
    exact absurd (Except.ok.inj htrue) (by decide)
  | true =>
    simp only [↓reduceIte] at hread
    obtain ⟨h, hwhole⟩ := wholeHeader_of_complete hlong hver hcomplete
    obtain ⟨q, hq, hread⟩ := bind_eq_ok.mp hread
    obtain ⟨rest, hrest⟩ := hwhole.front
    rw [← hrest, decodeOnlyHeader_eq_ok] at hq
    obtain ⟨lengths, hlengths, hread⟩ := bind_eq_ok.mp hread
    obtain ⟨total, htotal, -⟩ := bind_eq_ok.mp hread
    obtain ⟨rfl, hlower, -⟩ := checkInt_eq_ok.mp hlengths
    have hchecked : checkInt (packageTotalLen q) = .ok total := htotal
    obtain ⟨rfl, -, hupper⟩ := checkInt_eq_ok.mp hchecked
    exact outcome_of_header h0 hcap hwhole hq ⟨hlower, hupper⟩ hcall

/-- Every listed outcome happens. -/
theorem Outcome.eq_ok {buffer : List Byte} {bufferLength : ℤ} {p : IoTPackage} {r : Reading}
    (hout : Outcome buffer bufferLength p r) (h0 : 0 ≤ bufferLength)
    (hcap : bufferLength ≤ buffer.length) (hint : bufferLength ≤ 2147483647) :
    getCompletedPackage buffer bufferLength p = .ok r := by
  cases hout with
  | short hshort => exact if_pos ⟨h0, hshort⟩
  | invalid hlong hver =>
    unfold getCompletedPackage
    rw [if_neg (by omega), isVaildPackage_eq buffer bufferLength hlong hcap, ok_bind]
    simp only [hver, decide_false, Bool.false_eq_true, ↓reduceIte]
    rw [memset_eq buffer bufferLength h0 hcap, ok_bind]
  | headerUnfinished hlong hver hnone =>
    have hpos : 0 < bufferLength := by
      rw [currentVersion_length] at hlong
      omega
    obtain ⟨headerCompleted, hcomplete⟩ := isCompleteHeader_total buffer bufferLength hpos hcap
    have hfalse : headerCompleted = false := by
      rw [Bool.eq_false_iff]
      rintro rfl
      obtain ⟨h, rest, rfl, hbound⟩ :=
        (isCompleteHeader_eq_true buffer bufferLength hpos).mp hcomplete
      have := hnone h (List.prefix_append ..)
      omega
    subst hfalse
    unfold getCompletedPackage
    rw [if_neg (by omega), isVaildPackage_eq buffer bufferLength hlong hcap, ok_bind]
    simp only [hver, decide_true, ↓reduceIte, hcomplete, ok_bind, Bool.false_eq_true]
  | dataUnfinished h q hwhole hq hfit hmissing =>
    rw [getCompletedPackage_header hcap hwhole hq hfit, if_neg (by omega)]
  | corrupt h q hwhole hq hfit henough hin hsum =>
    rw [getCompletedPackage_header hcap hwhole hq hfit, if_pos henough,
      decodePackage_whole hwhole hq hin, ok_bind]
    simp only [hsum, decide_false, Bool.false_eq_true, ↓reduceIte]
    rw [memset_eq buffer bufferLength h0 hcap, ok_bind]
  | completed h q hwhole hq hfit henough hin hsum htotal =>
    have hshift := shift_eq buffer bufferLength (packageTotalLen q) htotal henough hcap
    obtain ⟨moved, hmoved, hfilled⟩ := bind_eq_ok.mp hshift
    rw [getCompletedPackage_header hcap hwhole hq hfit, if_pos henough,
      decodePackage_whole hwhole hq hin, ok_bind]
    simp only [hsum, decide_true, ↓reduceIte]
    rw [checkInt_ok _ (by omega) (by omega), ok_bind, hmoved, ok_bind, hfilled, ok_bind]

/-- What a call does on `bufferLength` received bytes, without its loops. -/
theorem getCompletedPackage_eq_ok {buffer : List Byte} {bufferLength : ℤ} {p : IoTPackage}
    {r : Reading} (h0 : 0 ≤ bufferLength) (hcap : bufferLength ≤ buffer.length)
    (hint : bufferLength ≤ 2147483647) :
    getCompletedPackage buffer bufferLength p = .ok r ↔ Outcome buffer bufferLength p r :=
  ⟨outcome_of_ok h0 hcap, fun hout => hout.eq_ok h0 hcap hint⟩

/-- A call comes to a result unless a header at the front leads outside an array. -/
theorem exists_ok_iff {buffer : List Byte} {bufferLength : ℤ} (h0 : 0 ≤ bufferLength)
    (hcap : bufferLength ≤ buffer.length) (hint : bufferLength ≤ 2147483647) (p : IoTPackage) :
    (∃ r, getCompletedPackage buffer bufferLength p = .ok r) ↔
      ∀ h, WholeHeader buffer bufferLength h → ∃ q, Decodes h p q ∧ LengthsFit q ∧
        (packageTotalLen q ≤ bufferLength →
          DataInside buffer q ∧ (ChecksumHolds buffer q → 0 ≤ packageTotalLen q)) := by
  constructor
  · rintro ⟨r, hread⟩ h hwhole
    cases outcome_of_ok h0 hcap hread with
    | short hshort => exact absurd hwhole.long (by omega)
    | invalid _ hver => exact absurd hwhole.version hver
    | headerUnfinished _ _ hnone =>
      have := hnone h hwhole.front
      exact absurd hwhole.complete (by omega)
    | dataUnfinished h' q hwhole' hq hfit hmissing =>
      obtain rfl := header_unique hwhole.front hwhole'.front
      exact ⟨q, hq, hfit, fun henough => absurd henough (by omega)⟩
    | corrupt h' q hwhole' hq hfit _ hin hsum =>
      obtain rfl := header_unique hwhole.front hwhole'.front
      exact ⟨q, hq, hfit, fun _ => ⟨hin, fun hholds => absurd hholds hsum⟩⟩
    | completed h' q hwhole' hq hfit _ hin _ htotal =>
      obtain rfl := header_unique hwhole.front hwhole'.front
      exact ⟨q, hq, hfit, fun _ => ⟨hin, fun _ => htotal⟩⟩
  · intro hbounded
    by_cases hshort : bufferLength < CurrentVersion.length
    · exact ⟨_, (Outcome.short hshort).eq_ok h0 hcap hint⟩
    have hlong : (CurrentVersion.length : ℤ) ≤ bufferLength := by omega
    by_cases hver : CurrentVersion <+: buffer
    swap
    · exact ⟨_, (Outcome.invalid hlong hver).eq_ok h0 hcap hint⟩
    by_cases hheader : ∃ h : Header, WholeHeader buffer bufferLength h
    swap
    · refine ⟨_, (Outcome.headerUnfinished hlong hver ?_).eq_ok h0 hcap hint⟩
      intro h hfront
      by_contra hle
      exact hheader ⟨h, hlong, hver, hfront, by omega⟩
    obtain ⟨h, hwhole⟩ := hheader
    obtain ⟨q, hq, hfit, hdata⟩ := hbounded h hwhole
    by_cases henough : packageTotalLen q ≤ bufferLength
    swap
    · exact ⟨_, (Outcome.dataUnfinished h q hwhole hq hfit (by omega)).eq_ok h0 hcap hint⟩
    obtain ⟨hin, htotal⟩ := hdata henough
    by_cases hsum : ChecksumHolds buffer q
    · exact ⟨_, (Outcome.completed h q hwhole hq hfit henough hin hsum (htotal hsum)).eq_ok
        h0 hcap hint⟩
    · exact ⟨_, (Outcome.corrupt h q hwhole hq hfit henough hin hsum).eq_ok h0 hcap hint⟩

/-- A whole package on the wire. -/
def packageBytes (h : Header) (data : List Byte) : List Byte :=
  h.bytes ++ data ++ checksumBytes (h.bytes ++ data)

theorem packageBytes_length (h : Header) (data : List Byte) :
    (packageBytes h data).length = h.bytes.length + data.length + 2 := by
  simp only [packageBytes, checksumBytes, List.length_append, List.length_cons, List.length_nil]

/-- A buffer that begins with a package whose header tells its lengths gives that package,
and what stood behind it moves to the front. -/
theorem getCompletedPackage_front {h : Header} {p q : IoTPackage} {data : List Byte}
    (hversion : CurrentVersion <+: h.bytes) (hq : Decodes h p q)
    (hhead : q.headerLength = h.bytes.length) (hlen : q.dataLength = data.length)
    (rest : List Byte) (bufferLength : ℤ)
    (henough : ((packageBytes h data).length : ℤ) ≤ bufferLength)
    (hcap : bufferLength ≤ (packageBytes h data ++ rest).length)
    (hint : bufferLength ≤ 2147483647) :
    getCompletedPackage (packageBytes h data ++ rest) bufferLength p =
      .ok ⟨.completed, shifted (packageBytes h data ++ rest) bufferLength
        (packageBytes h data).length, bufferLength - (packageBytes h data).length,
        { q with data := data }⟩ := by
  have hver := currentVersion_length
  have hbytes := packageBytes_length h data
  have hseven := hversion.length_le
  have hsplit : packageBytes h data ++ rest =
      h.bytes ++ (data ++ (checksumBytes (h.bytes ++ data) ++ rest)) := by
    simp only [packageBytes, List.append_assoc]
  have hfront : h.bytes <+: packageBytes h data ++ rest := by
    rw [hsplit]
    exact List.prefix_append ..
  have htotal : packageTotalLen q = ((packageBytes h data).length : ℤ) := by
    rw [packageTotalLen, hhead, hlen, hbytes]
    push_cast
    rfl
  have hat : checksumAt q = (h.bytes ++ data).length := by
    rw [checksumAt, hhead, hlen, Int.toNat_natCast, Int.toNat_natCast, List.length_append]
  have hwhole : WholeHeader (packageBytes h data ++ rest) bufferLength h :=
    ⟨by omega, hversion.trans hfront, hfront, by omega⟩
  have hin : DataInside (packageBytes h data ++ rest) q := by
    refine ⟨by omega, ?_⟩
    rw [hat]
    simp only [List.length_append] at hbytes ⊢
    omega
  have hsum : ChecksumHolds (packageBytes h data ++ rest) q := by
    rw [ChecksumHolds, hat, packageBytes, List.append_assoc, List.drop_left, List.take_left]
    rfl
  have hdata : dataOf (packageBytes h data ++ rest) q = data := by
    rw [dataOf, hsplit, hhead, hlen, Int.toNat_natCast, Int.toNat_natCast, List.drop_left,
      List.take_left]
  have hfit : LengthsFit q := by
    refine ⟨?_, by omega⟩
    rw [packageTotalLen] at htotal
    omega
  have hout := Outcome.completed h q hwhole hq hfit (by omega) hin hsum (by omega)
  rw [htotal, hdata] at hout
  exact hout.eq_ok (by omega) hcap hint

end IoTRepublic.ReaderOutcome
