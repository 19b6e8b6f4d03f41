import IoTRepublic.CreatedPackage
import Mathlib.Data.List.TakeWhile

/-!
The package reader of the C# library, ported by hand from the C++ one. Its arrays
and strings hold 16-bit characters, and what comes from the wire are the bytes
among them. It scans for the header without a bound, reads the two lengths with
`int.Parse`, and adds them without the two bytes of the checksum. An exception
is a fault.
-/
namespace IoTRepublic.CSharpReader

open CheckedArray DecimalText Package PackageReader ReaderOutcome CreatedPackage

abbrev Char16 := UInt16

def utf16 (text : List Byte) : List Char16 := text.map UInt8.toUInt16

def splitSymble : Char16 := 0

def currentVersion : List Char16 := utf16 CurrentVersion

/-- The class `IoT_Package`; its texts are strings. -/
structure IoTPackage where
  ver : List Char16
  verLength : ℤ
  headerLength : ℤ
  dataLength : ℤ
  sorIp : List Char16
  desIp : List Char16
  data : List Char16
  deriving DecidableEq

/-- `int` arithmetic wraps. -/
def wrapInt (x : ℤ) : ℤ := Int.bmod x 4294967296

/-- `int.Parse`: blanks, a sign, digits and blanks, and nothing else; what is not ASCII is none
of these. -/
def intParse (text : List Char16) : Exec ℤ :=
  let body := (text.map UInt16.toUInt8).dropWhile isSpace
  let unsigned := if body.head? = some 45 ∨ body.head? = some 43 then body.tail else body
  if ¬ text.all (· < 128) ∨ unsigned.takeWhile isDigit = [] ∨
      ¬ (unsigned.dropWhile isDigit).all isSpace then .error .format
  else atoi (text.map UInt16.toUInt8 ++ [0])

def getFixString (charArray : List Char16) : Exec (List Char16) := cString 0 charArray

/-- `temp` after a field has been scanned into the cleared array. -/
def tempOf (field : List Char16) : List Char16 :=
  field ++ List.replicate (tempBufferSize - field.length) 0

def scanField (buffer : List Char16) : Exec (List Char16 × List Char16) :=
  scanTo splitSymble tempBufferSize buffer 0

def decodeOnlyHeader (buffer : List Char16) (packageInfo : IoTPackage) : Exec IoTPackage := do
  let (version, buffer) ← scanField buffer
  let ver ← getFixString (tempOf version)
  let (headLen, buffer) ← scanField buffer
  let headLenText ← getFixString (tempOf headLen)
  let headerLength ← intParse headLenText
  let (dataLen, buffer) ← scanField buffer
  let dataLenText ← getFixString (tempOf dataLen)
  let dataLength ← intParse dataLenText
  let (source, buffer) ← scanField buffer
  let sorIp ← getFixString (tempOf source)
  let (destination, _) ← scanField buffer
  let desIp ← getFixString (tempOf destination)
  .ok { packageInfo with
    ver := ver
    verLength := version.length
    headerLength := headerLength
    dataLength := dataLength
    sorIp := sorIp
    desIp := desIp }

/-- The sum of the low bytes of the characters, folded to 16 bits. -/
def folded (chars : List Char16) : ℕ := CarrySum.folded (chars.map UInt16.toUInt8)

/-- `decode_package`, which returns 1 (`true`) or 0; `new char[n]` throws on a negative size. -/
def decodePackage (buffer : List Char16) (packageInfo : IoTPackage) :
    Exec (IoTPackage × Bool) := do
  let packageInfo ← decodeOnlyHeader buffer packageInfo
  if packageInfo.dataLength < 0 then .error .overflow
  else do
    let data ← readLoop buffer packageInfo.dataLength.toNat packageInfo.headerLength
    let offset := packageInfo.headerLength + packageInfo.dataLength
    let summed ← readLoop buffer offset.toNat 0
    let high ← readAt buffer offset
    let low ← readAt buffer (offset + 1)
    .ok ({ packageInfo with data := data },
      CarrySum.joinBytes high.toUInt8 low.toUInt8 = folded summed)

/-- The `while (true)` of `isCompleteHeader`, which only the end of the array bounds. -/
def headerLoop : List Char16 → ℕ → ℕ → Exec Bool
  | [], _, _ => .error .readOutside
  | c :: rest, splitSymbleCount, dataCount =>
    if c = splitSymble ∧ dataCount > 0 then
      if splitSymbleCount + 1 = 5 then .ok true
      else headerLoop rest (splitSymbleCount + 1) 0
    else if c = splitSymble ∧ dataCount = 0 then .ok false
    else headerLoop rest splitSymbleCount (dataCount + 1)

def isCompleteHeader (package : List Char16) : Exec Bool := headerLoop package 0 0

/-- `Substring` throws on an array shorter than the version. -/
def isVaildPackage (buffer : List Char16) (bufferLength : ℤ) : Exec Bool := do
  let packageVersion ← readLoop buffer currentVersion.length 0
  .ok (¬ bufferLength < currentVersion.length ∧ currentVersion = packageVersion)

/-- `Array.Clear(buffer, 0, n)`. -/
def arrayClear (buffer : List Char16) (n : ℤ) : Exec (List Char16) :=
  if 0 ≤ n then fillLoop 0 n.toNat 0 buffer else .error .writeOutside

structure Reading where
  result : RecvResult
  buffer : List Char16
  bufferLength : ℤ
  packageInfo : IoTPackage
  deriving DecidableEq

def getCompletedPackage (buffer : List Char16) (bufferLength : ℤ) (packageInfo : IoTPackage) :
    Exec Reading :=
  if bufferLength < currentVersion.length then
    .ok ⟨.noerror, buffer, bufferLength, packageInfo⟩
  else do
    let vaild ← isVaildPackage buffer bufferLength
    if ¬ vaild then .ok ⟨.invalidPackage, List.replicate buffer.length 0, 0, packageInfo⟩
    else do
      let headerCompleted ← isCompleteHeader buffer
      if headerCompleted then do
        let packageInfo ← decodeOnlyHeader buffer packageInfo
        let packageTotalLen := wrapInt (packageInfo.headerLength + packageInfo.dataLength)
        if bufferLength ≥ packageTotalLen then do
          let (packageInfo, passed) ← decodePackage buffer packageInfo
          if passed then do
            let anotherPackageLen := wrapInt (bufferLength - packageTotalLen)
            let buffer ← moveLoop anotherPackageLen.toNat 0 packageTotalLen buffer
            let buffer ← fillLoop 0 (bufferLength - max anotherPackageLen 0).toNat
              (max anotherPackageLen 0) buffer
            .ok ⟨.completed, buffer, anotherPackageLen, packageInfo⟩
          else do
            let buffer ← arrayClear buffer bufferLength
            .ok ⟨.checksumError, buffer, 0, packageInfo⟩
        else .ok ⟨.noerror, buffer, bufferLength, packageInfo⟩
      else .ok ⟨.noerror, buffer, bufferLength, packageInfo⟩

/-- The text as it comes back from 16-bit characters. -/
theorem map_utf16 (text : List Byte) : (utf16 text).map UInt16.toUInt8 = text := by
  rw [utf16, List.map_map]
  exact List.map_id'' (fun c => UInt8.toUInt8_toUInt16 c) text

theorem length_utf16 (text : List Byte) : (utf16 text).length = text.length :=
  List.length_map ..

theorem utf16_append (text text' : List Byte) : utf16 (text ++ text') = utf16 text ++ utf16 text' :=
  List.map_append

theorem toUInt16_eq_zero {c : Byte} : c.toUInt16 = splitSymble ↔ c = SplitSymble := by
  constructor
  · intro hzero
    have hback := congrArg UInt16.toUInt8 hzero
    rwa [UInt8.toUInt8_toUInt16] at hback
  · rintro rfl
    rfl

theorem zero_notMem_utf16 {text : List Byte} (h : (0 : Byte) ∉ text) :
    splitSymble ∉ utf16 text := by
  intro hmem
  obtain ⟨c, hc, hzero⟩ := List.mem_map.mp hmem
  obtain rfl := toUInt16_eq_zero.mp hzero
  exact h hc

theorem readAt_utf16 {a : List Byte} {i : ℤ} {c : Byte} (h : readAt a i = .ok c) :
    readAt (utf16 a) i = .ok c.toUInt16 :=
  readAt_map _ h

theorem readLoop_utf16 {a out : List Byte} {n : ℕ} {i : ℤ} (h : readLoop a n i = .ok out) :
    readLoop (utf16 a) n i = .ok (utf16 out) :=
  readLoop_map _ h

theorem folded_utf16 (text : List Byte) : folded (utf16 text) = CarrySum.folded text := by
  rw [folded, map_utf16]

theorem wrapInt_eq (x : ℤ) (h : -2147483648 ≤ x) (h' : x ≤ 2147483647) : wrapInt x = x := by
  rw [wrapInt]
  apply Int.bmod_eq_of_le
  · omega
  · omega

/-- The scan without a bound is the scan with a bound behind the end of the array. -/
theorem headerLoop_utf16 (rest : List Byte) (idx count dataCount : ℕ) (packageLength : ℤ)
    (hfar : (idx : ℤ) + rest.length < packageLength) :
    headerLoop (utf16 rest) count dataCount =
      PackageReader.headerLoop packageLength rest idx count dataCount := by
  induction rest generalizing idx count dataCount with
  | nil => rfl
  | cons c rest ih =>
    rw [List.length_cons] at hfar
    push_cast at hfar
    have hinside : ¬ (idx + 1 : ℤ) ≥ packageLength := by omega
    have hstep : ∀ count' dataCount', headerLoop (utf16 rest) count' dataCount' =
        PackageReader.headerLoop packageLength rest (idx + 1) count' dataCount' := by
      intro count' dataCount'
      apply ih
      push_cast
      omega
    have hcons : utf16 (c :: rest) = c.toUInt16 :: utf16 rest := rfl
    simp only [hcons, headerLoop, PackageReader.headerLoop, toUInt16_eq_zero, hinside, ↓reduceIte,
      hstep]

/-- The scan comes to an answer exactly when it meets a fifth separator or an empty field
before the array ends. -/
theorem headerLoop_ends (rest : List Byte) (count dataCount : ℕ) (hcount : count ≤ 4) :
    (∃ b, headerLoop (utf16 rest) count dataCount = .ok b) ↔
      (dataCount = 0 ∧ rest.head? = some SplitSymble) ∨ [SplitSymble, SplitSymble] <:+: rest ∨
        5 ≤ count + rest.count SplitSymble := by
  induction rest generalizing count dataCount with
  | nil =>
    have hnil : utf16 [] = [] := rfl
    simp only [hnil, headerLoop, reduceCtorEq, exists_const, List.head?_nil, and_false,
      List.infix_nil, List.count_nil, false_or, false_iff]
    omega
  | cons c rest ih =>
    have hcons : utf16 (c :: rest) = c.toUInt16 :: utf16 rest := rfl
    have hadjacent : [SplitSymble, SplitSymble] <:+: c :: rest ↔
        (c = SplitSymble ∧ rest.head? = some SplitSymble) ∨
          [SplitSymble, SplitSymble] <:+: rest := by
      rw [List.infix_cons_iff, List.cons_prefix_cons, eq_comm]
      refine or_congr_left (and_congr_right fun _ => ?_)
      cases rest with
      | nil => simp
      | cons d rest => simp [List.cons_prefix_cons, eq_comm]
    rw [hadjacent, List.head?_cons, Option.some.injEq, hcons]
    by_cases hc : c = SplitSymble
    · have hsep := toUInt16_eq_zero.mpr hc
      have htimes : (c :: rest).count SplitSymble = rest.count SplitSymble + 1 := by
        rw [hc, List.count_cons_self]
      by_cases hdata : dataCount > 0
      · have hzero : dataCount ≠ 0 := by omega
        by_cases hfive : count + 1 = 5
        · rw [headerLoop, if_pos ⟨hsep, hdata⟩, if_pos hfive, htimes]
          exact ⟨fun _ => .inr (.inr (by omega)), fun _ => ⟨true, rfl⟩⟩
        · have hnext := ih (count + 1) 0 (by omega)
          rw [headerLoop, if_pos ⟨hsep, hdata⟩, if_neg hfive, hnext, htimes]
          simp only [true_and, hzero, false_and, false_or, hc]
          rw [or_assoc, Nat.add_assoc, Nat.add_comm 1]
      · have hzero : dataCount = 0 := by omega
        rw [headerLoop, if_neg (fun h => hdata h.2), if_pos ⟨hsep, hzero⟩]
        exact iff_of_true ⟨false, rfl⟩ (.inl ⟨hzero, hc⟩)
    · have hsep := fun h => hc (toUInt16_eq_zero.mp h)
      have htimes : (c :: rest).count SplitSymble = rest.count SplitSymble :=
        List.count_cons_of_ne hc
      have hnext := ih count (dataCount + 1) hcount
      rw [headerLoop, if_neg (fun h => hsep h.1), if_neg (fun h => hsep h.1), hnext, htimes]
      simp [hc]

/-- The scan accepts the arrays that begin with five fields. -/
theorem isCompleteHeader_eq_true (package : List Byte) :
    isCompleteHeader (utf16 package) = .ok true ↔ ∃ h : Header, h.bytes <+: package := by
  have hbound := PackageReader.isCompleteHeader_eq_true package (package.length + 1) (by omega)
  have hsame : isCompleteHeader (utf16 package) =
      PackageReader.isCompleteHeader package (package.length + 1) := by
    rw [isCompleteHeader, headerLoop_utf16 package 0 0 0 (package.length + 1) (by omega)]
    cases package with
    | nil => rfl
    | cons c rest =>
      have hread : readAt (c :: rest) 0 = .ok c := readAt_natCast (c :: rest) 0 c rfl
      rw [PackageReader.isCompleteHeader, hread, ok_bind]
      by_cases hc : c = 0
      · simp [PackageReader.headerLoop, hc, SplitSymble]
      · rw [if_neg hc]
  rw [hsame, hbound]
  constructor
  · rintro ⟨h, rest, hrest, -⟩
    exact ⟨h, rest, hrest.symm⟩
  · rintro ⟨h, rest, hrest⟩
    have hlen := congrArg List.length hrest
    rw [List.length_append] at hlen
    exact ⟨h, rest, hrest.symm, by omega⟩

/-- The scan of an array comes to an answer exactly when the array holds an empty field or
five separators. -/
theorem isCompleteHeader_ends (package : List Byte) (hfirst : package.head? ≠ some SplitSymble) :
    (∃ b, isCompleteHeader (utf16 package) = .ok b) ↔
      [SplitSymble, SplitSymble] <:+: package ∨ 5 ≤ package.count SplitSymble := by
  have hends := headerLoop_ends package 0 0 (by omega)
  simp only [true_and, hfirst, false_or, Nat.zero_add] at hends
  exact hends

theorem scanField_eq_ok {field behind : List Char16} {r : List Char16 × List Char16}
    (hsep : splitSymble ∉ field) :
    scanField (field ++ splitSymble :: behind) = .ok r ↔
      field.length ≤ tempBufferSize ∧ r = (field, behind) :=
  scanTo_append field behind 0 hsep (Nat.zero_le _) r

/-- The scratch array gives a field back if the field leaves it room for a terminator. -/
theorem getFixString_tempOf {field text : List Char16} (hsep : splitSymble ∉ field) :
    getFixString (tempOf field) = .ok text ↔ field.length < tempBufferSize ∧ text = field := by
  unfold getFixString tempOf
  by_cases hlen : field.length < tempBufferSize
  · obtain ⟨k, hk⟩ : ∃ k, tempBufferSize - field.length = k + 1 :=
      ⟨tempBufferSize - field.length - 1, by omega⟩
    rw [hk, List.replicate_succ, cString_append 0 field _ hsep, Except.ok.injEq]
    simp only [hlen, true_and, eq_comm]
  · have hnone : tempBufferSize - field.length = 0 := by omega
    rw [hnone, List.replicate_zero, List.append_nil]
    constructor
    · intro h
      obtain ⟨-, rest, hrest⟩ := cString_eq_ok h
      exact absurd (by rw [hrest]; simp [splitSymble]) hsep
    · intro h
      exact absurd h.1 hlen

/-- `int.Parse` undoes `ToString` on every non-negative `int`. -/
theorem intParse_ofInt (n : ℕ) (h : n ≤ 2147483647) : intParse (utf16 (ofInt n)) = .ok n := by
  have hdigits : ∀ c ∈ ofNat n, isDigit c := fun c hc => isDigit_of_mem_ofNat hc
  have hascii : (utf16 (ofInt n)).all (· < 128) := by
    rw [List.all_eq_true]
    intro c hc
    obtain ⟨d, hd, rfl⟩ := List.mem_map.mp hc
    have hdigit := hdigits d hd
    simp only [isDigit, Bool.and_eq_true, decide_eq_true_eq, UInt8.le_iff_toNat_le] at hdigit
    have h57 : (57 : UInt8).toNat = 57 := rfl
    rw [decide_eq_true_eq, UInt16.lt_iff_toNat_lt, UInt8.toNat_toUInt16]
    have h128 : (128 : UInt16).toNat = 128 := rfl
    omega
  have htake : (ofNat n).takeWhile isDigit = ofNat n := List.takeWhile_eq_self_iff.mpr hdigits
  have hdrop : (ofNat n).dropWhile isDigit = [] := List.dropWhile_eq_nil_iff.mpr hdigits
  have hbody : (ofNat n).dropWhile isSpace = ofNat n ∧ (ofNat n).head? ≠ some 45 ∧
      (ofNat n).head? ≠ some 43 := by
    cases htext : ofNat n with
    | nil => exact absurd htext (ofNat_ne_nil n)
    | cons c cs =>
      obtain ⟨hspace, hminus, hplus⟩ := isSpace_of_isDigit (hdigits c (by simp [htext]))
      simp [hspace, hminus, hplus]
  rw [intParse, map_utf16, hascii, ofInt_natCast]
  simp only [hbody.1, hbody.2.1, hbody.2.2, or_self, ↓reduceIte, htake, hdrop, ofNat_ne_nil,
    List.all_nil, not_true_eq_false]
  exact atoi_ofNat n 0 [] (by decide) h

/-- What `decode_only_header` stores from a header whose fields fit its array. -/
theorem decodeOnlyHeader_eq (h : Header) (rest : List Char16) (p : IoTPackage) {head data : ℤ}
    (hfits : ∀ field ∈ h.fields, field.length < tempBufferSize)
    (hhead : intParse (utf16 h.headLen) = .ok head)
    (hdata : intParse (utf16 h.dataLen) = .ok data) :
    decodeOnlyHeader (utf16 h.bytes ++ rest) p =
      .ok { p with
        ver := utf16 h.version
        verLength := h.version.length
        headerLength := head
        dataLength := data
        sorIp := utf16 h.source
        desIp := utf16 h.destination } := by
  have hlength : ∀ field ∈ h.fields, (utf16 field).length < tempBufferSize := by
    intro field hfield
    rw [length_utf16]
    exact hfits field hfield
  have hsep : ∀ field ∈ h.fields, splitSymble ∉ utf16 field :=
    fun field hfield => zero_notMem_utf16 (h.isFields.sep_notMem field hfield)
  have hscan : ∀ field ∈ h.fields, ∀ behind : List Char16,
      scanField (utf16 field ++ splitSymble :: behind) = .ok (utf16 field, behind) :=
    fun field hfield _ => (scanField_eq_ok (hsep field hfield)).mpr ⟨(hlength field hfield).le, rfl⟩
  have hfix : ∀ field ∈ h.fields, getFixString (tempOf (utf16 field)) = .ok (utf16 field) :=
    fun field hfield => (getFixString_tempOf (hsep field hfield)).mpr ⟨hlength field hfield, rfl⟩
  have hbytes : utf16 h.bytes ++ rest = utf16 h.version ++ splitSymble :: (utf16 h.headLen ++
      splitSymble :: (utf16 h.dataLen ++ splitSymble :: (utf16 h.source ++
        splitSymble :: (utf16 h.destination ++ splitSymble :: rest)))) := by
    have hzero : UInt8.toUInt16 SplitSymble = splitSymble := rfl
    simp [Header.bytes, Header.fields, utf16, hzero]
  have hmem : h.version ∈ h.fields ∧ h.headLen ∈ h.fields ∧ h.dataLen ∈ h.fields ∧
      h.source ∈ h.fields ∧ h.destination ∈ h.fields := by simp [Header.fields]
  obtain ⟨hver, hlen, hdat, hsor, hdes⟩ := hmem
  rw [hbytes, decodeOnlyHeader, hscan _ hver, ok_bind]
  simp only [hfix _ hver, ok_bind, hscan _ hlen, hfix _ hlen, hhead, hscan _ hdat, hfix _ hdat,
    hdata, hscan _ hsor, hfix _ hsor, hscan _ hdes, hfix _ hdes, length_utf16]

section

variable {p q : Package.IoTPackage} {sorIp desIp data buffer : List Byte} {L : ℕ}

/-- A buffer that holds `L` bytes of a stream that begins with a package, or of its beginning. -/
structure Holds (buffer : List Byte) (L : ℕ) (P : List Byte) : Prop where
  room : L ≤ buffer.length
  zero : ∀ c ∈ buffer.drop L, c = 0
  front : buffer.take L <+: P ∨ P <+: buffer.take L

/-- What ends in a byte other than zero lies inside the received bytes. -/
theorem Holds.length_le {P : List Byte} (hholds : Holds buffer L P) {front : List Byte} {c : Byte}
    (hfront : front ++ [c] <+: buffer) (hc : c ≠ 0) : front.length < L := by
  by_contra hout
  obtain ⟨rest, rfl⟩ := hfront
  refine hc (hholds.zero c ?_)
  rw [List.append_assoc, List.drop_append_of_le_length (by omega)]
  simp

theorem Holds.begins {P front : List Byte} (hholds : Holds buffer L P) (hfront : front <+: P)
    (hlen : front.length ≤ L) : front <+: buffer := by
  have hroom := hholds.room
  rcases hholds.front with hpart | hwhole
  · have htake : front.length ≤ (buffer.take L).length := by
      rw [List.length_take]
      omega
    exact (List.prefix_of_prefix_length_le hfront hpart htake).trans (List.take_prefix ..)
  · exact (hfront.trans hwhole).trans (List.take_prefix ..)

theorem header_begins (hq : Created p sorIp desIp data q) (hsor : IsAddress sorIp)
    (hdes : IsAddress desIp) : (hq.header hsor hdes).bytes <+: wireBytes q := by
  rw [wireBytes, hq.summedBytes_eq hsor hdes, List.append_assoc]
  exact List.prefix_append ..

/-- A header found in the zeros behind the beginning of a package has the package's first four
fields; only the destination may be cut. -/
theorem header_fields (hq : Created p sorIp desIp data q) (hsor : IsAddress sorIp)
    (hdes : IsAddress desIp) (hholds : Holds buffer L (wireBytes q)) {h : Header}
    (hh : h.bytes <+: buffer) :
    h.version = CurrentVersion ∧ h.headLen = ofInt q.headerLength ∧
      h.dataLen = ofInt data.length ∧ h.source = sorIp ∧ h.destination.length < 100 := by
  have hfront := header_begins hq hsor hdes
  have hshort := (hq.header_length_le hsor hdes).2
  have hroom := hholds.room
  by_cases hlong : (hq.header hsor hdes).bytes.length ≤ L
  · rw [header_unique hh (hholds.begins hfront hlong)]
    refine ⟨rfl, rfl, rfl, rfl, ?_⟩
    have hdesShort := hdes.short
    exact lt_of_le_of_lt hdesShort (by omega)
  · have hpart : buffer.take L <+: wireBytes q := by
      rcases hholds.front with hpart | hwhole
      · exact hpart
      · have hle := hfront.length_le.trans hwhole.length_le
        rw [List.length_take] at hle
        omega
    obtain ⟨-, -, hfields⟩ := (Delimited.isFields_cons _ _ _).mp h.isFields
    have hdest := hfields.ne_nil h.destination (by simp)
    have hnul := hfields.sep_notMem h.destination (by simp)
    have hsplit : h.bytes = Delimited.joinFields SplitSymble
        [h.version, h.headLen, h.dataLen, h.source] ++ (h.destination ++ [SplitSymble]) := by
      simp [Header.bytes, Header.fields]
    have hlast : Delimited.joinFields SplitSymble [h.version, h.headLen, h.dataLen, h.source] ++
        h.destination.dropLast ++ [h.destination.getLast hdest] <+: buffer := by
      refine List.IsPrefix.trans ?_ hh
      rw [hsplit, List.append_assoc, List.dropLast_append_getLast, ← List.append_assoc]
      exact List.prefix_append ..
    have hinside := hholds.length_le hlast fun hzero =>
      hnul (by rw [SplitSymble, ← hzero]; exact List.getLast_mem hdest)
    rw [List.length_append, List.length_dropLast] at hinside
    have hpos := List.length_pos_iff.mpr hdest
    have hfour : Delimited.joinFields SplitSymble
        [h.version, h.headLen, h.dataLen, h.source] <+: wireBytes q := by
      refine List.IsPrefix.trans ?_ hpart
      refine List.prefix_take_iff.mpr ⟨List.IsPrefix.trans ?_ hh, by omega⟩
      rw [hsplit]
      exact List.prefix_append ..
    obtain ⟨rest, hrest⟩ := hfour
    obtain ⟨behind, hbehind⟩ := hfront
    have hnames : Delimited.joinFields SplitSymble [h.version, h.headLen, h.dataLen, h.source] ++
        rest = Delimited.joinFields SplitSymble
          [CurrentVersion, ofInt q.headerLength, ofInt data.length, sorIp] ++
          (desIp ++ SplitSymble :: behind) := by
      rw [hrest, ← hbehind]
      simp [Header.bytes, Header.fields, Created.header]
    have hsame := (Delimited.fields_unique [h.version, h.headLen, h.dataLen, h.source]
      [CurrentVersion, ofInt q.headerLength, ofInt data.length, sorIp] rfl
      (fun f hf => h.isFields.sep_notMem f (List.mem_append_left [h.destination] hf))
      (fun f hf => (hq.header hsor hdes).isFields.sep_notMem f
        (List.mem_append_left [desIp] hf)) hnames).1
    simp only [List.cons.injEq, and_true] at hsame
    exact ⟨hsame.1, hsame.2.1, hsame.2.2.1, hsame.2.2.2, by omega⟩

/-- What the header at the front of such a buffer decodes to. -/
theorem decodeOnlyHeader_created (hq : Created p sorIp desIp data q) (hsor : IsAddress sorIp)
    (hdes : IsAddress desIp) (hholds : Holds buffer L (wireBytes q)) {h : Header}
    (hh : h.bytes <+: buffer) (info : IoTPackage) :
    decodeOnlyHeader (utf16 buffer) info =
      .ok { info with
        ver := currentVersion
        verLength := currentVersion.length
        headerLength := q.headerLength
        dataLength := data.length
        sorIp := utf16 sorIp
        desIp := utf16 h.destination } := by
  obtain ⟨hver, hhead, hdata, hsource, hshort⟩ := header_fields hq hsor hdes hholds hh
  have hlen := hq.headerLength_eq hsor hdes
  have hbound := (hq.header_length_le hsor hdes).2
  have hsmall := hq.dataLength_lt
  have hsorShort := hsor.short
  have hsize : tempBufferSize = 200 := rfl
  obtain ⟨rest, rfl⟩ := hh
  have hfits : ∀ field ∈ h.fields, field.length < tempBufferSize := by
    intro field hfield
    have htext : ∀ n : ℕ, n < 10 ^ 9 → (ofInt n).length < tempBufferSize := by
      intro n hn
      have := ofNat_length_le (k := 9) (by decide) hn
      rw [ofInt_natCast]
      omega
    simp only [Header.fields, List.mem_cons, List.not_mem_nil, or_false] at hfield
    rcases hfield with rfl | rfl | rfl | rfl | rfl
    · rw [hver, currentVersion_length]
      omega
    · rw [hhead, hlen]
      exact htext _ (by omega)
    · rw [hdata]
      exact htext _ hsmall
    · rw [hsource]
      omega
    · omega
  have hheadValue : intParse (utf16 h.headLen) = .ok q.headerLength := by
    rw [hhead, hlen]
    exact intParse_ofInt _ (by omega)
  have hdataValue : intParse (utf16 h.dataLen) = .ok (data.length : ℤ) := by
    rw [hdata]
    exact intParse_ofInt _ (by omega)
  rw [utf16_append, decodeOnlyHeader_eq h _ info hfits hheadValue hdataValue, hver, hsource]
  rfl

theorem Holds.version_prefix (hq : Created p sorIp desIp data q) (hsor : IsAddress sorIp)
    (hdes : IsAddress desIp) (hholds : Holds buffer L (wireBytes q)) (hlong : 7 ≤ L) :
    CurrentVersion <+: buffer := by
  apply hholds.begins ((hq.version_prefix hsor hdes).trans (header_begins hq hsor hdes))
  rw [currentVersion_length]
  exact hlong

/-- A call past the version test. -/
theorem getCompletedPackage_long (hq : Created p sorIp desIp data q) (hsor : IsAddress sorIp)
    (hdes : IsAddress desIp) (hholds : Holds buffer L (wireBytes q)) (hlong : 7 ≤ L)
    (info : IoTPackage) :
    getCompletedPackage (utf16 buffer) L info = (do
      let headerCompleted ← isCompleteHeader (utf16 buffer)
      if headerCompleted then do
        let packageInfo ← decodeOnlyHeader (utf16 buffer) info
        let packageTotalLen := wrapInt (packageInfo.headerLength + packageInfo.dataLength)
        if (L : ℤ) ≥ packageTotalLen then do
          let (packageInfo, passed) ← decodePackage (utf16 buffer) packageInfo
          if passed then do
            let anotherPackageLen := wrapInt (L - packageTotalLen)
            let buffer ← moveLoop anotherPackageLen.toNat 0 packageTotalLen (utf16 buffer)
            let buffer ← fillLoop 0 ((L : ℤ) - max anotherPackageLen 0).toNat
              (max anotherPackageLen 0) buffer
            .ok ⟨.completed, buffer, anotherPackageLen, packageInfo⟩
          else do
            let buffer ← arrayClear (utf16 buffer) L
            .ok ⟨.checksumError, buffer, 0, packageInfo⟩
        else .ok ⟨.noerror, utf16 buffer, L, packageInfo⟩
      else .ok ⟨.noerror, utf16 buffer, L, info⟩) := by
  have hver : currentVersion.length = 7 := currentVersion_length
  have hroom := hholds.room
  have hfront := hholds.version_prefix hq hsor hdes hlong
  have hnotShort : ¬ (L : ℤ) < currentVersion.length := by omega
  have hread := readLoop_eq buffer CurrentVersion.length 0 (by rw [currentVersion_length]; omega)
  rw [Int.natCast_zero, List.drop_zero, ← List.prefix_iff_eq_take.mp hfront] at hread
  have hread16 : readLoop (utf16 buffer) currentVersion.length 0 = .ok currentVersion :=
    readLoop_utf16 hread
  have hvaild : isVaildPackage (utf16 buffer) L = .ok true := by
    rw [isVaildPackage, hread16, ok_bind]
    simp only [hnotShort, not_false_eq_true, and_self, decide_true]
  rw [getCompletedPackage, if_neg hnotShort, hvaild, ok_bind]
  rfl

theorem total_eq (hq : Created p sorIp desIp data q) (hsor : IsAddress sorIp)
    (hdes : IsAddress desIp) :
    wrapInt (q.headerLength + data.length) = ((wireBytes q).length : ℤ) - 2 := by
  have hlen := hq.headerLength_eq hsor hdes
  have hbound := (hq.header_length_le hsor hdes).2
  have hsmall := hq.dataLength_lt
  have hwire := hq.wireBytes_length hsor hdes
  rw [wrapInt_eq _ (by omega) (by omega)]
  omega

/-- On too little for the two lengths the reader waits, if its scan ends inside the array. -/
theorem getCompletedPackage_unfinished (hq : Created p sorIp desIp data q)
    (hsor : IsAddress sorIp) (hdes : IsAddress desIp) (hholds : Holds buffer L (wireBytes q))
    (hshort : L + 2 < (wireBytes q).length) (info : IoTPackage) :
    (∃ info', getCompletedPackage (utf16 buffer) L info = .ok ⟨.noerror, utf16 buffer, L, info'⟩) ↔
      L < 7 ∨ [SplitSymble, SplitSymble] <:+: buffer ∨ 5 ≤ buffer.count SplitSymble := by
  have hver : currentVersion.length = 7 := currentVersion_length
  by_cases hlong : L < 7
  · refine iff_of_true ⟨info, ?_⟩ (.inl hlong)
    rw [getCompletedPackage, if_pos (by omega)]
  have hfront := hholds.version_prefix hq hsor hdes (by omega)
  have hfirst : buffer.head? ≠ some SplitSymble := by
    obtain ⟨rest, rfl⟩ := hfront
    simp [CurrentVersion, ascii, SplitSymble]
    decide
  rw [or_iff_right hlong, ← isCompleteHeader_ends buffer hfirst,
    getCompletedPackage_long hq hsor hdes hholds (by omega)]
  constructor
  · rintro ⟨info', hcall⟩
    obtain ⟨headerCompleted, hcomplete, -⟩ := bind_eq_ok.mp hcall
    exact ⟨headerCompleted, hcomplete⟩
  · rintro ⟨headerCompleted, hcomplete⟩
    rw [hcomplete, ok_bind]
    cases headerCompleted with
    | false => exact ⟨info, rfl⟩
    | true =>
      obtain ⟨h, hh⟩ := (isCompleteHeader_eq_true buffer).mp hcomplete
      rw [decodeOnlyHeader_created hq hsor hdes hholds hh]
      simp only [↓reduceIte, ok_bind, total_eq hq hsor hdes]
      rw [if_neg (by omega)]
      exact ⟨_, rfl⟩

/-- With the two lengths' worth of bytes the reader takes the package for complete, though the
checksum may still be missing. -/
theorem getCompletedPackage_early (hq : Created p sorIp desIp data q) (hsor : IsAddress sorIp)
    (hdes : IsAddress desIp) (hholds : Holds buffer L (wireBytes q))
    (henough : (wireBytes q).length ≤ L + 2) (hint : L ≤ 2147483647) (info : IoTPackage) :
    getCompletedPackage (utf16 buffer) L info = (do
      let (packageInfo, passed) ← decodePackage (utf16 buffer) { info with
        ver := currentVersion
        verLength := currentVersion.length
        headerLength := q.headerLength
        dataLength := data.length
        sorIp := utf16 sorIp
        desIp := utf16 desIp }
      if passed then do
        let moved ← moveLoop (L - (((wireBytes q).length : ℤ) - 2)).toNat 0
          (((wireBytes q).length : ℤ) - 2) (utf16 buffer)
        let moved ← fillLoop 0 ((L : ℤ) - (L - (((wireBytes q).length : ℤ) - 2))).toNat
          (L - (((wireBytes q).length : ℤ) - 2)) moved
        .ok ⟨.completed, moved, L - (((wireBytes q).length : ℤ) - 2), packageInfo⟩
      else do
        let buffer ← arrayClear (utf16 buffer) L
        .ok ⟨.checksumError, buffer, 0, packageInfo⟩) := by
  have hwire := hq.wireBytes_length hsor hdes
  have hbound := hq.header_length_le hsor hdes
  have hh := hholds.begins (header_begins hq hsor hdes) (by omega)
  have hcomplete := (isCompleteHeader_eq_true buffer).mpr ⟨_, hh⟩
  have hdecode := decodeOnlyHeader_created hq hsor hdes hholds hh info
  have hrest : wrapInt ((L : ℤ) - (((wireBytes q).length : ℤ) - 2)) =
      L - (((wireBytes q).length : ℤ) - 2) := wrapInt_eq _ (by omega) (by omega)
  have hmax : max ((L : ℤ) - (((wireBytes q).length : ℤ) - 2)) 0 =
      L - (((wireBytes q).length : ℤ) - 2) := max_eq_left (by omega)
  rw [getCompletedPackage_long hq hsor hdes hholds (by omega), hcomplete, ok_bind]
  simp only [↓reduceIte, hdecode, ok_bind, total_eq hq hsor hdes, hrest, hmax]
  rw [if_pos (by omega)]
  rfl

/-- The data and the checksum of a whole package are found where the two lengths say. -/
theorem decodePackage_whole (hq : Created p sorIp desIp data q) (hsor : IsAddress sorIp)
    (hdes : IsAddress desIp) (hholds : Holds buffer L (wireBytes q))
    (hwhole : wireBytes q <+: buffer) (info : IoTPackage) :
    decodePackage (utf16 buffer) info = .ok ({ info with
        ver := currentVersion
        verLength := currentVersion.length
        headerLength := q.headerLength
        dataLength := data.length
        sorIp := utf16 sorIp
        desIp := utf16 desIp
        data := utf16 data }, true) := by
  have hh := (header_begins hq hsor hdes).trans hwhole
  have hdecode := decodeOnlyHeader_created hq hsor hdes hholds hh info
  have hlen := hq.headerLength_eq hsor hdes
  have hsummed := hq.summedBytes_eq hsor hdes
  obtain ⟨rest, hrest⟩ := hwhole
  generalize (hq.header hsor hdes).bytes = header at hlen hsummed
  have hbuffer : buffer = header ++ data ++ (checksumBytes (header ++ data) ++ rest) := by
    rw [← hrest, wireBytes, hsummed, List.append_assoc]
  have hdata := readLoop_append header data (checksumBytes (header ++ data) ++ rest)
  rw [← hbuffer] at hdata
  have hread := readLoop_eq buffer (header ++ data).length 0 (by simp [hbuffer])
  rw [Int.natCast_zero, List.drop_zero, hbuffer, List.take_left, ← hbuffer] at hread
  have hhigh : readAt buffer ((header ++ data).length : ℤ) =
      .ok (CarrySum.highByte (CarrySum.folded (header ++ data))) :=
    readAt_natCast _ _ _ (by simp [hbuffer, checksumBytes])
  have hlow : readAt buffer (((header ++ data).length + 1 : ℕ) : ℤ) =
      .ok (CarrySum.lowByte (CarrySum.folded (header ++ data))) := by
    refine readAt_natCast _ _ _ ?_
    rw [hbuffer, List.getElem?_append_right (by omega), Nat.add_sub_cancel_left]
    rfl
  have hoffset : (header.length : ℤ) + data.length = ((header ++ data).length : ℕ) := by
    rw [List.length_append]
    push_cast
    rfl
  have hnext : (((header ++ data).length : ℕ) : ℤ) + 1 = (((header ++ data).length + 1 : ℕ) : ℤ) :=
    rfl
  have hnonneg : ¬ (data.length : ℤ) < 0 := by omega
  rw [decodePackage, hdecode, ok_bind]
  simp only [hlen, hnonneg, ↓reduceIte, Int.toNat_natCast, readLoop_utf16 hdata, ok_bind, hoffset,
    readLoop_utf16 hread, readAt_utf16 hhigh, hnext, readAt_utf16 hlow, folded_utf16,
    UInt8.toUInt8_toUInt16, CarrySum.joinBytes_split _ (CarrySum.folded_lt _), decide_true]
  rfl

/-- What stands behind the first `n` of `L` received bytes, in front of zeros. -/
def leftBehind (buffer : List Byte) (L n : ℕ) : List Byte :=
  (buffer.take L).drop n ++ List.replicate (buffer.length - (L - n)) 0

theorem shifted_eq {P : List Byte} {n : ℕ} (hholds : Holds buffer L P) (hn : n ≤ L) :
    shifted buffer L n = leftBehind buffer L n := by
  have hroom := hholds.room
  have hzero : buffer.drop L = List.replicate (buffer.length - L) 0 :=
    List.eq_replicate_iff.mpr ⟨List.length_drop, hholds.zero⟩
  rw [shifted, leftBehind, Int.toNat_natCast, Int.toNat_natCast, hzero, List.append_assoc,
    List.replicate_append_replicate]
  congr 2
  omega

/-- The C# reader delivers a whole package and leaves its checksum in front of what follows. -/
theorem getCompletedPackage_whole (hq : Created p sorIp desIp data q) (hsor : IsAddress sorIp)
    (hdes : IsAddress desIp) (hholds : Holds buffer L (wireBytes q))
    (hwhole : wireBytes q <+: buffer.take L) (hint : L ≤ 2147483647) (info : IoTPackage) :
    getCompletedPackage (utf16 buffer) L info =
      .ok ⟨.completed, utf16 (leftBehind buffer L ((wireBytes q).length - 2)),
        L - (((wireBytes q).length : ℤ) - 2), { info with
          ver := currentVersion
          verLength := currentVersion.length
          headerLength := q.headerLength
          dataLength := data.length
          sorIp := utf16 sorIp
          desIp := utf16 desIp
          data := utf16 data }⟩ := by
  have hwire := hq.wireBytes_length hsor hdes
  have hroom := hholds.room
  have hlong := hwhole.length_le
  rw [List.length_take] at hlong
  have hcast : ((wireBytes q).length : ℤ) - 2 = (((wireBytes q).length - 2 : ℕ) : ℤ) := by omega
  have hshift := shift_eq buffer L (((wireBytes q).length - 2 : ℕ) : ℤ) (by omega) (by omega)
    (by omega)
  rw [shifted_eq hholds (by omega)] at hshift
  obtain ⟨moved, hmoved, hfilled⟩ := bind_eq_ok.mp hshift
  have hmoved16 : moveLoop _ _ _ (utf16 buffer) = .ok (utf16 moved) := moveLoop_map _ hmoved
  have hfilled16 : fillLoop 0 _ _ (utf16 moved) = .ok (utf16 _) :=
    fillLoop_map UInt8.toUInt16 hfilled
  rw [getCompletedPackage_early hq hsor hdes hholds (by omega) hint,
    decodePackage_whole hq hsor hdes hholds (hwhole.trans (List.take_prefix ..)), ok_bind, hcast]
  simp only [↓reduceIte, hmoved16, ok_bind, hfilled16]

/-- Both readers deliver a whole package and leave what follows it, and wait for the rest of
one that is not whole. -/
structure ReadersAgree (sorIp desIp data P buffer : List Byte) (L : ℕ)
    (p : Package.IoTPackage) (info : IoTPackage) : Prop where
  whole : P <+: buffer.take L →
    (∃ q, PackageReader.getCompletedPackage buffer L p =
        .ok ⟨.completed, leftBehind buffer L P.length, L - P.length, q⟩ ∧
      q.sorIp.ip.text = .ok sorIp ∧ q.desIp.ip.text = .ok desIp ∧ q.data = data) ∧
    (∃ q, getCompletedPackage (utf16 buffer) L info =
        .ok ⟨.completed, utf16 (leftBehind buffer L P.length), L - P.length, q⟩ ∧
      q.sorIp = utf16 sorIp ∧ q.desIp = utf16 desIp ∧ q.data = utf16 data)
  part : L < P.length →
    (∃ q, PackageReader.getCompletedPackage buffer L p = .ok ⟨.noerror, buffer, L, q⟩) ∧
    (∃ q, getCompletedPackage (utf16 buffer) L info = .ok ⟨.noerror, utf16 buffer, L, q⟩)

/-- The readers agree exactly on what is too short for the two lengths of the header, in an
array in which the scan of the C# reader meets its end. -/
theorem readers_agree_iff {out : List Byte} {s : List Byte × ℕ} (hsor : IsAddress sorIp)
    (hdes : IsAddress desIp) (hcreate : createPackage p sorIp desIp data data.length = .ok q)
    (hencode : encodePackage out q = .ok s) (hholds : Holds buffer L (s.1.take s.2))
    (hint : L ≤ 2147483647) (p' : Package.IoTPackage) (info : IoTPackage) :
    ReadersAgree sorIp desIp data (s.1.take s.2) buffer L p' info ↔
      L + 2 < s.2 ∧
        (L < 7 ∨ [SplitSymble, SplitSymble] <:+: buffer ∨ 5 ≤ buffer.count SplitSymble) := by
  have hq := createPackage_eq_ok.mp hcreate
  obtain ⟨-, hfits, rfl⟩ := (hq.encodePackage_eq_ok hsor hdes).mp hencode
  have hlength : (written out (wireBytes q)).2 = (wireBytes q).length := rfl
  rw [written_take] at hholds ⊢
  rw [hlength]
  have hroom := hholds.room
  by_cases hshort : L + 2 < (wireBytes q).length
  · have hpart : buffer.take L <+: wireBytes q := by
      rcases hholds.front with hpart | hwhole
      · exact hpart
      · have hle := hwhole.length_le
        rw [List.length_take] at hle
        omega
    have hnotWhole : ¬ wireBytes q <+: buffer.take L := by
      intro hwhole
      have hle := hwhole.length_le
      rw [List.length_take] at hle
      omega
    rw [← getCompletedPackage_unfinished hq hsor hdes hholds hshort info]
    constructor
    · intro hagree
      exact ⟨hshort, (hagree.part (by omega)).2⟩
    · intro hwaits
      exact ⟨fun hwhole => absurd hwhole hnotWhole, fun _ =>
        ⟨hq.unfinished hsor hdes p' hpart (by omega) hroom, hwaits.2⟩⟩
  · refine iff_of_false ?_ (fun hcondition => hshort hcondition.1)
    intro hagree
    by_cases hwhole : wireBytes q <+: buffer.take L
    · -- the length left behind counts the checksum as well
      obtain ⟨info', hcall, -⟩ := (hagree.whole hwhole).2
      rw [getCompletedPackage_whole hq hsor hdes hholds hwhole hint] at hcall
      have hlen := congrArg Reading.bufferLength (Except.ok.inj hcall)
      simp only at hlen
      omega
    · have hpart := hholds.front.resolve_right hwhole
      have hlong : L < (wireBytes q).length := by
        by_contra hnot
        have hlen : (buffer.take L).length = L := by
          rw [List.length_take]
          omega
        exact hwhole ⟨[], by rw [List.append_nil, hpart.eq_of_length_le (by omega)]⟩
      obtain ⟨info', hcall⟩ := (hagree.part hlong).2
      rw [getCompletedPackage_early hq hsor hdes hholds (by omega) hint] at hcall
      obtain ⟨⟨packageInfo, passed⟩, -, hcall⟩ := bind_eq_ok.mp hcall
      cases passed with
      | true =>
        obtain ⟨moved, -, hcall⟩ := bind_eq_ok.mp hcall
        obtain ⟨filled, -, hcall⟩ := bind_eq_ok.mp hcall
        cases congrArg Reading.result (Except.ok.inj hcall)
      | false =>
        obtain ⟨cleared, -, hcall⟩ := bind_eq_ok.mp hcall
        cases congrArg Reading.result (Except.ok.inj hcall)

end

/-- A package from `A` to `B` with one byte of data. -/
def bytesAB : List Byte := wireBytes (packageInfoAB 17 [120])

theorem created_AB :
    createPackage generateIotPackage (ascii "A") (ascii "B") [120] 1 =
      .ok (packageInfoAB 17 [120]) := by
  decide

theorem bytesAB_length : bytesAB.length = 20 := by
  decide

def emptyPackage : IoTPackage := ⟨[], 0, 0, 0, [], [], []⟩

/-- Twelve bytes of the package with room behind them. -/
theorem readers_agree_part :
    ReadersAgree (ascii "A") (ascii "B") [120] bytesAB (bytesAB.take 12 ++ List.replicate 28 0) 12
      generateIotPackage emptyPackage := by
  have hlen := bytesAB_length
  have hencode : encodePackage (List.replicate 40 0) (packageInfoAB 17 [120]) =
      .ok (written (List.replicate 40 0) bytesAB) := by
    have hq := createPackage_eq_ok.mp created_AB
    refine (hq.encodePackage_eq_ok isAddress_A isAddress_B).mpr ⟨by decide, ?_, rfl⟩
    rw [List.length_replicate]
    exact hlen.le.trans (by decide)
  have htake := written_take (List.replicate 40 0) bytesAB
  have htwelve : (bytesAB.take 12).length = 12 := by
    rw [List.length_take, hlen]
    rfl
  have hholds : Holds (bytesAB.take 12 ++ List.replicate 28 0) 12 bytesAB := by
    refine ⟨?_, ?_, .inl ?_⟩
    · rw [List.length_append, htwelve]
      omega
    · rw [List.drop_append_of_le_length htwelve.ge, List.drop_of_length_le htwelve.le]
      intro c hc
      exact List.eq_of_mem_replicate hc
    · rw [List.take_append_of_le_length htwelve.ge, List.take_take]
      exact List.take_prefix ..
  have hwide : 12 + 2 < (written (List.replicate 40 0) bytesAB).2 := by
    change 14 < bytesAB.length
    rw [hlen]
    decide
  have hempty : [SplitSymble, SplitSymble] <:+: bytesAB.take 12 ++ List.replicate 28 0 := by
    refine ⟨bytesAB.take 12 ++ List.replicate 26 0, [], ?_⟩
    rw [List.append_nil, List.append_assoc]
    rfl
  rw [← htake] at hholds
  have hagree := (readers_agree_iff isAddress_A isAddress_B created_AB hencode hholds (by decide)
    generateIotPackage emptyPackage).mpr ⟨hwide, .inr (.inl (by rw [htake]; exact hempty))⟩
  rw [htake] at hagree
  exact hagree

/-- Of two packages sent back to back the C# reader delivers the first and drops the second:
the checksum of the first is left in front of it. -/
theorem second_package_dropped :
    Holds (bytesAB ++ bytesAB) 40 bytesAB ∧
      (∃ first second, getCompletedPackage (utf16 (bytesAB ++ bytesAB)) 40 emptyPackage =
          .ok first ∧
        first.result = .completed ∧ first.bufferLength = 22 ∧
        getCompletedPackage first.buffer first.bufferLength emptyPackage = .ok second ∧
        second.result = .invalidPackage ∧ second.bufferLength = 0) ∧
      ¬ ReadersAgree (ascii "A") (ascii "B") [120] bytesAB (bytesAB ++ bytesAB) 40
        generateIotPackage emptyPackage := by
  have hlen : (bytesAB ++ bytesAB).length = 40 := by
    rw [List.length_append, bytesAB_length]
  have hwhole : bytesAB <+: (bytesAB ++ bytesAB).take 40 := by
    rw [List.take_of_length_le hlen.le]
    exact List.prefix_append ..
  have hholds : Holds (bytesAB ++ bytesAB) 40 bytesAB := by
    refine ⟨hlen.ge, ?_, .inr hwhole⟩
    intro c hc
    rw [List.drop_of_length_le hlen.le] at hc
    cases hc
  have hcall := getCompletedPackage_whole (createPackage_eq_ok.mp created_AB) isAddress_A
    isAddress_B hholds hwhole (by decide) emptyPackage
  have hleft : ((40 : ℕ) : ℤ) - ((bytesAB.length : ℤ) - 2) = 22 := by
    rw [bytesAB_length]
    rfl
  refine ⟨hholds, ⟨_, ⟨.invalidPackage, List.replicate 40 0, 0, emptyPackage⟩, hcall, rfl, hleft,
    ?_, rfl, rfl⟩, ?_⟩
  · decide +kernel
  · intro hagree
    obtain ⟨info', hagreed, -⟩ := (hagree.whole hwhole).2
    rw [hcall] at hagreed
    have hsame : ((40 : ℕ) : ℤ) - ((bytesAB.length : ℤ) - 2) = (40 : ℕ) - bytesAB.length :=
      congrArg Reading.bufferLength (Except.ok.inj hagreed)
    omega

end IoTRepublic.CSharpReader
