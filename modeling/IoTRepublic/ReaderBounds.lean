import IoTRepublic.DrainProgress

/-!
The arrays of the package reader. A call is given an array and the number of
bytes received into it, and should touch nothing else. The reader takes the
widths of the fields and the two lengths from the header as they are, so it
stays inside its arrays exactly when the header at the front is bounded.
-/
namespace IoTRepublic.ReaderBounds

open DecimalText Package PackageReader ReaderOutcome Manager
open DrainProgress (ChecksumAt bufferAB)

/-- The call comes to a result on an array that ends where the received bytes end: every
access is to a received byte, every copy fits its array and every sum is a 32-bit number. -/
def StaysInside (buffer : List Byte) (n : ℕ) (p : IoTPackage) : Prop :=
  ∃ r, getCompletedPackage (buffer.take n) n p = .ok r

/-- The sum of the lengths is a 32-bit number, and a package said to be there lies among the
`n` received bytes and does not end before it begins. -/
structure BoundedLengths (buffer : List Byte) (n : ℕ) (headerLength dataLength : ℤ) : Prop where
  sum_lower : -2147483648 ≤ headerLength + dataLength
  total_upper : headerLength + dataLength + 2 ≤ 2147483647
  start : headerLength + dataLength + 2 ≤ n → 0 ≤ headerLength
  stop : headerLength + dataLength + 2 ≤ n → headerLength.toNat + dataLength.toNat + 2 ≤ n
  total : headerLength + dataLength + 2 ≤ n →
    ChecksumAt buffer (headerLength.toNat + dataLength.toNat) → 0 ≤ headerLength + dataLength + 2

/-- The fields fit their arrays and the two lengths are numbers within bounds. -/
structure BoundedHeader (buffer : List Byte) (n : ℕ) (h : Header) : Prop where
  fields : FieldsFit h
  lengths : ∃ headerLength dataLength, atoi (tempOf h.headLen) = .ok headerLength ∧
    atoi (tempOf h.dataLen) = .ok dataLength ∧ BoundedLengths buffer n headerLength dataLength

/-- Whatever header the received bytes begin with is bounded. -/
def Bounded (buffer : List Byte) (n : ℕ) : Prop :=
  ∀ h : Header, WholeHeader buffer n h → BoundedHeader buffer n h

section

variable {buffer : List Byte} {n : ℕ}

theorem wholeHeader_take (h : Header) :
    WholeHeader (buffer.take n) n h ↔ WholeHeader buffer n h := by
  constructor
  · rintro ⟨hlong, hversion, hfront, hcomplete⟩
    exact ⟨hlong, hversion.trans (List.take_prefix ..), hfront.trans (List.take_prefix ..),
      hcomplete⟩
  · rintro ⟨hlong, hversion, hfront, hcomplete⟩
    exact ⟨hlong, List.prefix_take_iff.mpr ⟨hversion, by omega⟩,
      List.prefix_take_iff.mpr ⟨hfront, by omega⟩, hcomplete⟩

theorem checksumAt_take {offset : ℕ} (hin : offset + 2 ≤ n) :
    ChecksumAt (buffer.take n) offset ↔ ChecksumAt buffer offset := by
  unfold ChecksumAt
  rw [List.drop_take, List.take_take, List.take_take, min_eq_left (by omega),
    min_eq_left (by omega)]

/-- What a call on the received bytes needs of the lengths of a decoded header. -/
theorem boundedLengths_iff (hn : n ≤ buffer.length) (q : IoTPackage) :
    BoundedLengths buffer n q.headerLength q.dataLength ↔
      LengthsFit q ∧ (packageTotalLen q ≤ n → DataInside (buffer.take n) q ∧
        (ChecksumHolds (buffer.take n) q → 0 ≤ packageTotalLen q)) := by
  have hlength : (buffer.take n).length = n := List.length_take_of_le hn
  constructor
  · rintro ⟨hlower, hupper, hstart, hstop, htotal⟩
    refine ⟨⟨hlower, hupper⟩, ?_⟩
    intro henough
    have hin := hstop henough
    refine ⟨⟨hstart henough, ?_⟩, fun hsum => htotal henough ((checksumAt_take hin).mp hsum)⟩
    rw [hlength, checksumAt]
    exact hin
  · rintro ⟨⟨hlower, hupper⟩, hdata⟩
    have hstop : ∀ henough : packageTotalLen q ≤ n, checksumAt q + 2 ≤ n :=
      fun henough => hlength ▸ (hdata henough).1.stop
    refine ⟨hlower, hupper, fun henough => (hdata henough).1.start, hstop, ?_⟩
    intro henough hsum
    exact (hdata henough).2 ((checksumAt_take (hstop henough)).mpr hsum)

/-- What stands behind the received bytes neither matters to a call that stays among them
nor is changed by it. -/
theorem outcome_frame (hn : n ≤ buffer.length) {p : IoTPackage} {r : Reading}
    (hout : Outcome (buffer.take n) n p r) :
    Outcome buffer n p { r with buffer := r.buffer ++ buffer.drop n } := by
  have hlength : (buffer.take n).length = n := List.length_take_of_le hn
  have hinside : ∀ q, DataInside (buffer.take n) q → checksumAt q + 2 ≤ n :=
    fun q hin => hlength ▸ hin.stop
  have hdata : ∀ q, DataInside (buffer.take n) q → dataOf (buffer.take n) q = dataOf buffer q := by
    intro q hin
    have hstop := hinside q hin
    unfold checksumAt at hstop
    rw [dataOf, dataOf, List.drop_take, List.take_take, min_eq_left (by omega)]
  have hmore : ∀ q, DataInside (buffer.take n) q → DataInside buffer q :=
    fun q hin => ⟨hin.start, (hinside q hin).trans hn⟩
  have hcleared : cleared (buffer.take n) n ++ buffer.drop n = cleared buffer n := by
    simp [cleared]
  cases hout with
  | short hshort =>
    simp only [List.take_append_drop]
    exact .short hshort
  | invalid hlong hver =>
    simp only [hcleared]
    refine .invalid hlong ?_
    intro hversion
    exact hver (List.prefix_take_iff.mpr ⟨hversion, by omega⟩)
  | headerUnfinished hlong hver hnone =>
    simp only [List.take_append_drop]
    refine .headerUnfinished hlong (hver.trans (List.take_prefix ..)) ?_
    intro h hfront
    by_contra hle
    have := hnone h (List.prefix_take_iff.mpr ⟨hfront, by omega⟩)
    omega
  | dataUnfinished h q hwhole hq hfit hmissing =>
    simp only [List.take_append_drop]
    exact .dataUnfinished h q ((wholeHeader_take h).mp hwhole) hq hfit hmissing
  | corrupt h q hwhole hq hfit henough hin hsum =>
    simp only [hcleared, hdata q hin]
    refine .corrupt h q ((wholeHeader_take h).mp hwhole) hq hfit henough (hmore q hin) ?_
    intro hholds
    exact hsum ((checksumAt_take (hinside q hin)).mpr hholds)
  | completed h q hwhole hq hfit henough hin hsum htotal =>
    have hshifted : shifted (buffer.take n) n (packageTotalLen q) ++ buffer.drop n =
        shifted buffer n (packageTotalLen q) := by
      simp [shifted, List.take_take]
    simp only [hshifted, hdata q hin]
    exact .completed h q ((wholeHeader_take h).mp hwhole) hq hfit henough (hmore q hin)
      ((checksumAt_take (hinside q hin)).mp hsum) htotal

end

/-- A call on `n` received bytes stays inside its arrays exactly when the header they begin
with is bounded; then it gives what it gives on the received bytes alone and leaves
everything behind them as it was. -/
theorem stays_inside_iff (buffer : List Byte) (n : ℕ) (hsize : buffer.length = MAXRECV)
    (hn : n ≤ MAXRECV) (p : IoTPackage) :
    (StaysInside buffer n p ↔ Bounded buffer n) ∧
    ∀ r, getCompletedPackage (buffer.take n) n p = .ok r →
      getCompletedPackage buffer n p = .ok { r with buffer := r.buffer ++ buffer.drop n } := by
  have hmax : MAXRECV = 2000 := rfl
  have hcap : n ≤ buffer.length := hsize ▸ hn
  have hlength : (buffer.take n).length = n := List.length_take_of_le hcap
  constructor
  · unfold StaysInside
    rw [exists_ok_iff (by omega) (by omega) (by omega)]
    apply forall_congr'
    intro h
    rw [wholeHeader_take h]
    apply imp_congr_right
    intro _
    simp only [← boundedLengths_iff hcap]
    rw [exists_decodes_iff h p (BoundedLengths buffer n)]
    exact ⟨fun ⟨hfields, hlengths⟩ => ⟨hfields, hlengths⟩,
      fun ⟨hfields, hlengths⟩ => ⟨hfields, hlengths⟩⟩
  · intro r hread
    have hout := outcome_of_ok (by omega) (by omega) hread
    exact (outcome_frame hcap hout).eq_ok (by omega) (by omega) (by omega)

/-- A package whose source address is one letter too long for its array. -/
def longSource : List Byte :=
  CurrentVersion ++ [0] ++ ascii "31" ++ [0] ++ ascii "0" ++ [0] ++ ascii "ABCDEFGHIJKLMNO" ++
    [0] ++ ascii "B" ++ [0]

def longSourceBuffer : List Byte := longSource ++ List.replicate (MAXRECV - 31) 0

theorem longSource_fault :
    getCompletedPackage (longSourceBuffer.take 31) (31 : ℕ) generateIotPackage =
      .error .writeOutside := by
  decide +kernel

theorem not_staysInside_longSource : ¬ StaysInside longSourceBuffer 31 generateIotPackage := by
  rintro ⟨r, hread⟩
  rw [longSource_fault] at hread
  cases hread

theorem longSource_outside :
    ¬ ∀ (buffer : List Byte) (n : ℕ), buffer.length = MAXRECV → n ≤ MAXRECV →
      StaysInside buffer n generateIotPackage := by
  intro hall
  exact not_staysInside_longSource (hall longSourceBuffer 31 (by decide +kernel) (by decide))

theorem bufferAB_received :
    getCompletedPackage (bufferAB.take 20) (20 : ℕ) generateIotPackage =
      .ok ⟨.completed, List.replicate 20 0, 0, CreatedPackage.packageInfoAB 17 [120]⟩ := by
  decide +kernel

/-- A received package, whose header is bounded, and one with a long source address, whose
header is not: the first call stays inside and does the same on the whole array, the second
does not stay inside. -/
theorem stays_inside_received :
    StaysInside bufferAB 20 generateIotPackage ∧ Bounded bufferAB 20 ∧
      getCompletedPackage bufferAB (20 : ℕ) generateIotPackage =
        .ok ⟨.completed, List.replicate 20 0 ++ bufferAB.drop 20, 0,
          CreatedPackage.packageInfoAB 17 [120]⟩ ∧
      ¬ StaysInside longSourceBuffer 31 generateIotPackage ∧ ¬ Bounded longSourceBuffer 31 := by
  obtain ⟨hiff, hwhole⟩ :=
    stays_inside_iff bufferAB 20 (by decide +kernel) (by decide) generateIotPackage
  have hlong := (stays_inside_iff longSourceBuffer 31 (by decide +kernel) (by decide)
    generateIotPackage).1
  exact ⟨⟨_, bufferAB_received⟩, hiff.mp ⟨_, bufferAB_received⟩, hwhole _ bufferAB_received,
    not_staysInside_longSource, hlong.not.mp not_staysInside_longSource⟩

end IoTRepublic.ReaderBounds
