import IoTRepublic.Package

/-!
The package reader: the version test, the scan for a complete header, the
decoding of the header and of the whole package, and the call that takes one
completed package off the front of a receive buffer. The arithmetic on the two
lengths of the header is signed 32-bit arithmetic, and the buffer is read and
written at whatever index it gives.
-/
namespace IoTRepublic.PackageReader

open CheckedArray DecimalText Package

inductive RecvResult
  | noerror
  | completed
  | invalidPackage
  | checksumError
  | timeout
  deriving DecidableEq, Repr

abbrev tempBufferSize : ℕ := 200

def memset (buffer : List Byte) (c : Byte) (n : ℤ) : Exec (List Byte) :=
  if 0 ≤ n then fillLoop c n.toNat 0 buffer else .error .writeOutside

/-- `memcmp(CurrentVersion, buffer, strlen(CurrentVersion)) == 0` on a long enough buffer. -/
def isVaildPackage (buffer : List Byte) (bufferLength : ℤ) : Exec Bool :=
  if bufferLength < CurrentVersion.length then .ok false
  else do
    let front ← readLoop buffer CurrentVersion.length 0
    .ok (front = CurrentVersion)

/-- The `while (1)` of `isCompleteHeader`, with the package from `idx` on. -/
def headerLoop (packageLength : ℤ) : List Byte → ℕ → ℕ → ℕ → Exec Bool
  | [], _, _, _ => .error .readOutside
  | c :: rest, idx, splitSymbleCount, dataCount =>
    if c = SplitSymble ∧ dataCount > 0 then
      if splitSymbleCount + 1 = 5 then .ok true
      else if (idx + 1 : ℤ) ≥ packageLength then .ok false
      else headerLoop packageLength rest (idx + 1) (splitSymbleCount + 1) 0
    else if c = SplitSymble ∧ dataCount = 0 then .ok false
    else if (idx + 1 : ℤ) ≥ packageLength then .ok false
    else headerLoop packageLength rest (idx + 1) splitSymbleCount (dataCount + 1)

def isCompleteHeader (package : List Byte) (packageLength : ℤ) : Exec Bool := do
  let first ← readAt package 0
  if first = 0 then .ok false else headerLoop packageLength package 0 0 0

/-- `while (buffer[idx] != SplitSymble) { temp[i] = buffer[idx]; idx++; i++; }` and the
`idx++` that follows: the field in `temp`, and the buffer behind the separator. -/
def scanField (buffer : List Byte) (i : ℕ) : Exec (List Byte × List Byte) :=
  scanTo SplitSymble tempBufferSize buffer i

/-- `temp` after a field has been scanned into the zeroed array. -/
def tempOf (field : List Byte) : List Byte :=
  field ++ List.replicate (tempBufferSize - field.length) 0

def decodeOnlyHeader (buffer : List Byte) (packageInfo : IoTPackage) : Exec IoTPackage := do
  let (version, buffer) ← scanField buffer 0
  let ver ← CharArray.ofText VERSION_CHAR_SIZE version
  let (headLen, buffer) ← scanField buffer 0
  let headerLength ← atoi (tempOf headLen)
  let (dataLen, buffer) ← scanField buffer 0
  let dataLength ← atoi (tempOf dataLen)
  let (source, buffer) ← scanField buffer 0
  let sor ← CharArray.ofText IP_ADDR_SIZE source
  let (destination, _) ← scanField buffer 0
  let des ← CharArray.ofText IP_ADDR_SIZE destination
  .ok { packageInfo with
    ver := ver
    verLength := version.length
    headerLength := headerLength
    dataLength := dataLength
    sorIp := ⟨sor, source.length⟩
    desIp := ⟨des, destination.length⟩ }

/-- `decode_package`; `malloc` of a negative size gives no block, and none of it is written. -/
def decodePackage (buffer : List Byte) (packageInfo : IoTPackage) :
    Exec (IoTPackage × Bool) := do
  let packageInfo ← decodeOnlyHeader buffer packageInfo
  let data ← readLoop buffer packageInfo.dataLength.toNat packageInfo.headerLength
  let offset := packageInfo.headerLength + packageInfo.dataLength.toNat
  let summed ← readLoop buffer offset.toNat 0
  let high ← readAt buffer offset
  let low ← readAt buffer (offset + 1)
  .ok ({ packageInfo with data := data },
    CarrySum.joinBytes high low = CarrySum.folded summed)

/-- What a call of `getCompletedPackage` returns and leaves in its arguments. -/
structure Reading where
  result : RecvResult
  buffer : List Byte
  bufferLength : ℤ
  packageInfo : IoTPackage
  deriving DecidableEq

def getCompletedPackage (buffer : List Byte) (bufferLength : ℤ) (packageInfo : IoTPackage) :
    Exec Reading :=
  -- the comparison with `strlen` is unsigned, so a negative length is not below it
  if 0 ≤ bufferLength ∧ bufferLength < CurrentVersion.length then
    .ok ⟨.noerror, buffer, bufferLength, packageInfo⟩
  else do
    let vaild ← isVaildPackage buffer bufferLength
    if vaild then do
      let headerCompleted ← isCompleteHeader buffer bufferLength
      if headerCompleted then do
        let packageInfo ← decodeOnlyHeader buffer packageInfo
        let lengths ← checkInt (packageInfo.headerLength + packageInfo.dataLength)
        let packageTotalLen ← checkInt (lengths + 2)
        if bufferLength ≥ packageTotalLen then do
          let (packageInfo, passed) ← decodePackage buffer packageInfo
          if passed then do
            let anotherPackageLen ← checkInt (bufferLength - packageTotalLen)
            let buffer ← moveLoop anotherPackageLen.toNat 0 packageTotalLen buffer
            let buffer ← fillLoop 0 (bufferLength - anotherPackageLen).toNat anotherPackageLen
              buffer
            .ok ⟨.completed, buffer, anotherPackageLen, packageInfo⟩
          else do
            let buffer ← memset buffer 0 bufferLength
            .ok ⟨.checksumError, buffer, 0, packageInfo⟩
        else .ok ⟨.noerror, buffer, bufferLength, packageInfo⟩
      else .ok ⟨.noerror, buffer, bufferLength, packageInfo⟩
    else do
      let buffer ← memset buffer 0 bufferLength
      .ok ⟨.invalidPackage, buffer, 0, packageInfo⟩

/-- A header on the wire: five non-empty fields without a separator. -/
structure Header where
  version : List Byte
  headLen : List Byte
  dataLen : List Byte
  source : List Byte
  destination : List Byte
  isFields : Delimited.IsFields SplitSymble [version, headLen, dataLen, source, destination]

namespace Header

def fields (h : Header) : List (List Byte) :=
  [h.version, h.headLen, h.dataLen, h.source, h.destination]

def bytes (h : Header) : List Byte := Delimited.joinFields SplitSymble h.fields

end Header

/-- What `decode_only_header` stores from a header, and that it fits where it is stored. -/
structure Decodes (h : Header) (p q : IoTPackage) : Prop where
  ver : CharArray.ofText VERSION_CHAR_SIZE h.version = .ok q.ver
  verLength : q.verLength = h.version.length
  headLen : h.headLen.length ≤ tempBufferSize
  headerLength : atoi (tempOf h.headLen) = .ok q.headerLength
  dataLen : h.dataLen.length ≤ tempBufferSize
  dataLength : atoi (tempOf h.dataLen) = .ok q.dataLength
  sor : CharArray.ofText IP_ADDR_SIZE h.source = .ok q.sorIp.ip
  sorLength : q.sorIp.ipLength = h.source.length
  des : CharArray.ofText IP_ADDR_SIZE h.destination = .ok q.desIp.ip
  desLength : q.desIp.ipLength = h.destination.length
  data : q.data = p.data
  belongSocketIdx : q.belongSocketIdx = p.belongSocketIdx

/-- The fields of a header fit the arrays they are copied to. -/
structure FieldsFit (h : Header) : Prop where
  version : h.version.length < VERSION_CHAR_SIZE
  headLen : h.headLen.length ≤ tempBufferSize
  dataLen : h.dataLen.length ≤ tempBufferSize
  source : h.source.length < IP_ADDR_SIZE
  destination : h.destination.length < IP_ADDR_SIZE

/-- A header is decoded when its fields fit and its lengths are numbers. -/
theorem exists_decodes_iff (h : Header) (p : IoTPackage) (lengths : ℤ → ℤ → Prop) :
    (∃ q, Decodes h p q ∧ lengths q.headerLength q.dataLength) ↔
      FieldsFit h ∧ ∃ headerLength dataLength, atoi (tempOf h.headLen) = .ok headerLength ∧
        atoi (tempOf h.dataLen) = .ok dataLength ∧ lengths headerLength dataLength := by
  constructor
  · rintro ⟨q, hq, hlengths⟩
    refine ⟨⟨?_, hq.headLen, hq.dataLen, ?_, ?_⟩, _, _, hq.headerLength, hq.dataLength, hlengths⟩
    · exact (CharArray.ofText_eq_ok.mp hq.ver).1
    · exact (CharArray.ofText_eq_ok.mp hq.sor).1
    · exact (CharArray.ofText_eq_ok.mp hq.des).1
  · rintro ⟨hfit, headerLength, dataLength, hhead, hdata, hlengths⟩
    obtain ⟨ver, hver⟩ := CharArray.exists_ofText VERSION_CHAR_SIZE h.version hfit.version
    obtain ⟨sor, hsor⟩ := CharArray.exists_ofText IP_ADDR_SIZE h.source hfit.source
    obtain ⟨des, hdes⟩ := CharArray.exists_ofText IP_ADDR_SIZE h.destination hfit.destination
    exact ⟨{ p with
        ver := ver
        verLength := h.version.length
        headerLength := headerLength
        dataLength := dataLength
        sorIp := ⟨sor, h.source.length⟩
        desIp := ⟨des, h.destination.length⟩ },
      ⟨hver, rfl, hfit.headLen, hhead, hfit.dataLen, hdata, hsor, rfl, hdes, rfl, rfl, rfl⟩,
      hlengths⟩

/-- From inside a field on there is the rest of a header, and it ends in time. -/
def EndsHeader (packageLength : ℤ) (rest : List Byte) (idx count dataCount : ℕ) : Prop :=
  ∃ (field : List Byte) (fields : List (List Byte)) (tail : List Byte),
    rest = field ++ SplitSymble :: (Delimited.joinFields SplitSymble fields ++ tail) ∧
    SplitSymble ∉ field ∧ (dataCount = 0 → field ≠ []) ∧ fields.length = 4 - count ∧
    Delimited.IsFields SplitSymble fields ∧
    (idx + field.length + 1 + (Delimited.joinFields SplitSymble fields).length : ℤ) ≤
      packageLength

section

variable {packageLength : ℤ} {rest : List Byte} {idx count dataCount : ℕ}

theorem EndsHeader.inside (h : EndsHeader packageLength rest idx count dataCount) :
    (idx : ℤ) < packageLength := by
  rcases h with ⟨field, fields, tail, -, -, -, -, -, hbound⟩
  omega

theorem endsHeader_last (hidx : (idx : ℤ) < packageLength) (hdata : 0 < dataCount) :
    EndsHeader packageLength (SplitSymble :: rest) idx 4 dataCount := by
  refine ⟨[], [], rest, rfl, List.not_mem_nil, by omega, rfl, Delimited.IsFields.nil _, ?_⟩
  simp only [Delimited.joinFields_nil, List.length_nil]
  omega

/-- A separator right behind another is not in a header. -/
theorem not_endsHeader_separator :
    ¬ EndsHeader packageLength (SplitSymble :: rest) idx count 0 := by
  rintro ⟨field, fields, tail, heq, hsep, hne, -⟩
  cases field with
  | nil => exact hne rfl rfl
  | cons d field =>
    obtain ⟨rfl, -⟩ := List.cons.inj heq
    exact hsep List.mem_cons_self

/-- A separator ends the field and begins the next. -/
theorem endsHeader_separator (hdata : 0 < dataCount) (hcount : count < 4) :
    EndsHeader packageLength (SplitSymble :: rest) idx count dataCount ↔
      EndsHeader packageLength rest (idx + 1) (count + 1) 0 := by
  constructor
  · rintro ⟨field, fields, tail, heq, hsep, -, hlen, hfields, hbound⟩
    have hnil : field = [] := by
      cases field with
      | nil => rfl
      | cons d field =>
        obtain ⟨rfl, -⟩ := List.cons.inj heq
        simp at hsep
    subst hnil
    obtain ⟨f, fs, rfl⟩ : ∃ f fs, fields = f :: fs :=
      List.exists_cons_of_length_pos (by omega)
    obtain ⟨hne, hnot, hfs⟩ := (Delimited.isFields_cons _ _ _).mp hfields
    rw [Delimited.length_joinFields_cons] at hbound
    simp only [List.length_nil, List.length_cons] at hbound hlen
    refine ⟨f, fs, tail, ?_, hnot, fun _ => hne, by omega, hfs, ?_⟩
    · simpa using (List.cons.inj heq).2
    · push_cast at hbound ⊢
      omega
  · rintro ⟨field, fields, tail, rfl, hsep, hne, hlen, hfields, hbound⟩
    refine ⟨[], field :: fields, tail, by simp, by simp, by omega, ?_, ?_, ?_⟩
    · simp only [List.length_cons]
      omega
    · exact (Delimited.isFields_cons _ _ _).mpr ⟨hne rfl, hsep, hfields⟩
    · rw [Delimited.length_joinFields_cons]
      simp only [List.length_nil]
      push_cast at hbound ⊢
      omega

/-- Any other byte belongs to the field. -/
theorem endsHeader_letter {c : Byte} (hc : c ≠ SplitSymble) :
    EndsHeader packageLength (c :: rest) idx count dataCount ↔
      EndsHeader packageLength rest (idx + 1) count (dataCount + 1) := by
  constructor
  · rintro ⟨field, fields, tail, heq, hsep, -, hlen, hfields, hbound⟩
    cases field with
    | nil => exact absurd (List.cons.inj heq).1 hc
    | cons d field =>
      obtain ⟨rfl, htail⟩ := List.cons.inj heq
      simp only [List.mem_cons, not_or] at hsep
      refine ⟨field, fields, tail, htail, hsep.2, by omega, hlen, hfields, ?_⟩
      simp only [List.length_cons] at hbound
      push_cast at hbound ⊢
      omega
  · rintro ⟨field, fields, tail, rfl, hsep, -, hlen, hfields, hbound⟩
    refine ⟨c :: field, fields, tail, rfl, ?_, by simp, hlen, hfields, ?_⟩
    · simp [hsep, Ne.symm hc]
    · simp only [List.length_cons]
      push_cast at hbound ⊢
      omega

end

/-- The scan from inside a field on finds the rest of the header, if it ends in time. -/
theorem headerLoop_eq_true (packageLength : ℤ) (rest : List Byte) (idx count dataCount : ℕ)
    (hidx : (idx : ℤ) < packageLength) (hcount : count ≤ 4) :
    headerLoop packageLength rest idx count dataCount = .ok true ↔
      EndsHeader packageLength rest idx count dataCount := by
  induction rest generalizing idx count dataCount with
  | nil => simp [headerLoop, EndsHeader]
  | cons c rest ih =>
    unfold headerLoop
    by_cases hc : c = SplitSymble
    · subst hc
      rcases Nat.eq_zero_or_pos dataCount with rfl | hdata
      · simp [not_endsHeader_separator]
      simp only [gt_iff_lt, hdata, and_self, ↓reduceIte]
      by_cases hfive : count + 1 = 5
      · obtain rfl : count = 4 := by omega
        simp [endsHeader_last hidx hdata]
      rw [endsHeader_separator hdata (by omega)]
      by_cases hend : (idx + 1 : ℤ) ≥ packageLength
      · simp only [hfive, ↓reduceIte, hend, Except.ok.injEq, Bool.false_eq_true, false_iff]
        intro h
        have hinside := h.inside
        omega
      · simp only [hfive, ↓reduceIte, hend]
        exact ih (idx + 1) (count + 1) 0 (by omega) (by omega)
    · rw [endsHeader_letter hc]
      simp only [hc, false_and, ↓reduceIte]
      by_cases hend : (idx + 1 : ℤ) ≥ packageLength
      · simp only [hend, ↓reduceIte, Except.ok.injEq, Bool.false_eq_true, false_iff]
        intro h
        have hinside := h.inside
        omega
      · simp only [hend, ↓reduceIte]
        exact ih (idx + 1) count (dataCount + 1) (by omega) hcount

/-- Inside the buffer the scan always comes to an answer. -/
theorem headerLoop_total (packageLength : ℤ) (rest : List Byte) (idx count dataCount : ℕ)
    (hidx : (idx : ℤ) < packageLength) (hlen : packageLength ≤ idx + rest.length) :
    ∃ b, headerLoop packageLength rest idx count dataCount = .ok b := by
  induction rest generalizing idx count dataCount with
  | nil =>
    simp only [List.length_nil] at hlen
    omega
  | cons c rest ih =>
    have hnext : ∀ count' dataCount',
        ∃ b, (if (idx + 1 : ℤ) ≥ packageLength then Except.ok false
          else headerLoop packageLength rest (idx + 1) count' dataCount') = .ok b := by
      intro count' dataCount'
      by_cases hend : (idx + 1 : ℤ) ≥ packageLength
      · exact ⟨false, if_pos hend⟩
      · rw [if_neg hend]
        simp only [List.length_cons] at hlen
        push_cast at hlen
        exact ih (idx + 1) count' dataCount' (by push_cast; omega) (by push_cast; omega)
    unfold headerLoop
    split
    · split
      · exact ⟨true, rfl⟩
      · exact hnext _ _
    · split
      · exact ⟨false, rfl⟩
      · exact hnext _ _

theorem isCompleteHeader_total (package : List Byte) (packageLength : ℤ)
    (hpos : 0 < packageLength) (hlen : packageLength ≤ package.length) :
    ∃ b, isCompleteHeader package packageLength = .ok b := by
  cases package with
  | nil =>
    simp only [List.length_nil] at hlen
    omega
  | cons c rest =>
    have hread : readAt (c :: rest) 0 = .ok c := readAt_natCast (c :: rest) 0 c rfl
    simp only [isCompleteHeader, hread, ok_bind]
    split
    · exact ⟨false, rfl⟩
    · exact headerLoop_total packageLength _ 0 0 0 (by omega) (by simpa using hlen)

/-- `isCompleteHeader` accepts exactly the buffers that begin with a whole header. -/
theorem isCompleteHeader_eq_true (package : List Byte) (packageLength : ℤ)
    (hpos : 0 < packageLength) :
    isCompleteHeader package packageLength = .ok true ↔
      ∃ (h : Header) (rest : List Byte),
        package = h.bytes ++ rest ∧ (h.bytes.length : ℤ) ≤ packageLength := by
  have hloop := headerLoop_eq_true packageLength package 0 0 0 (by omega) (by omega)
  constructor
  · intro h
    obtain ⟨first, -, h⟩ := bind_eq_ok.mp h
    split at h
    · simp at h
    · obtain ⟨version, fields, tail, rfl, hsep, hne, hlen, hfields, hbound⟩ := hloop.mp h
      obtain ⟨f1, f2, f3, f4, rfl⟩ : ∃ f1 f2 f3 f4, fields = [f1, f2, f3, f4] := by
        match fields, hlen with
        | [f1, f2, f3, f4], _ => exact ⟨f1, f2, f3, f4, rfl⟩
      refine ⟨⟨version, f1, f2, f3, f4,
        (Delimited.isFields_cons _ _ _).mpr ⟨hne rfl, hsep, hfields⟩⟩, tail, ?_, ?_⟩
      · simp [Header.bytes, Header.fields]
      · simp only [Header.bytes, Header.fields]
        rw [Delimited.length_joinFields_cons]
        push_cast
        omega
  · rintro ⟨h, rest, rfl, hbound⟩
    obtain ⟨hne, hsep, hfields⟩ := (Delimited.isFields_cons _ _ _).mp h.isFields
    obtain ⟨c, version, hversion⟩ := List.exists_cons_of_ne_nil hne
    have hc : c ≠ 0 := by
      rintro rfl
      exact hsep (by simp [hversion, SplitSymble])
    have hread : readAt (h.bytes ++ rest) 0 = .ok c := by
      refine readAt_natCast _ 0 c ?_
      simp [Header.bytes, Header.fields, hversion]
    rw [isCompleteHeader, hread, ok_bind, if_neg hc, hloop]
    refine ⟨h.version, [h.headLen, h.dataLen, h.source, h.destination], rest, ?_, hsep,
      fun _ => hne, rfl, hfields, ?_⟩
    · simp [Header.bytes, Header.fields]
    · simp only [Header.bytes, Header.fields] at hbound
      rw [Delimited.length_joinFields_cons] at hbound
      push_cast at hbound ⊢
      omega

theorem scanField_append (field behind : List Byte) (i : ℕ) (h : SplitSymble ∉ field)
    (hi : i ≤ tempBufferSize) (r : List Byte × List Byte) :
    scanField (field ++ SplitSymble :: behind) i = .ok r ↔
      field.length + i ≤ tempBufferSize ∧ r = (field, behind) :=
  scanTo_append field behind i h hi r

/-- Decoding the header depends on the header alone, not on what follows it. -/
theorem decodeOnlyHeader_eq_ok (h : Header) (rest : List Byte) (p q : IoTPackage) :
    decodeOnlyHeader (h.bytes ++ rest) p = .ok q ↔ Decodes h p q := by
  obtain ⟨-, hver, hfields⟩ := (Delimited.isFields_cons _ _ _).mp h.isFields
  obtain ⟨-, hhead, hfields⟩ := (Delimited.isFields_cons _ _ _).mp hfields
  obtain ⟨-, hdata, hfields⟩ := (Delimited.isFields_cons _ _ _).mp hfields
  obtain ⟨-, hsor, hfields⟩ := (Delimited.isFields_cons _ _ _).mp hfields
  obtain ⟨-, hdes, -⟩ := (Delimited.isFields_cons _ _ _).mp hfields
  have hbytes : h.bytes ++ rest = h.version ++ SplitSymble :: (h.headLen ++ SplitSymble ::
      (h.dataLen ++ SplitSymble :: (h.source ++ SplitSymble ::
        (h.destination ++ SplitSymble :: rest)))) := by
    simp [Header.bytes, Header.fields]
  rw [hbytes]
  constructor
  · intro hdec
    obtain ⟨r, hr, hdec⟩ := bind_eq_ok.mp hdec
    obtain ⟨hl1, rfl⟩ := (scanField_append _ _ 0 hver (by omega) r).mp hr
    obtain ⟨ver, hverArr, hdec⟩ := bind_eq_ok.mp hdec
    obtain ⟨r, hr, hdec⟩ := bind_eq_ok.mp hdec
    obtain ⟨hl2, rfl⟩ := (scanField_append _ _ 0 hhead (by omega) r).mp hr
    obtain ⟨headerLength, hheadLen, hdec⟩ := bind_eq_ok.mp hdec
    obtain ⟨r, hr, hdec⟩ := bind_eq_ok.mp hdec
    obtain ⟨hl3, rfl⟩ := (scanField_append _ _ 0 hdata (by omega) r).mp hr
    obtain ⟨dataLength, hdataLen, hdec⟩ := bind_eq_ok.mp hdec
    obtain ⟨r, hr, hdec⟩ := bind_eq_ok.mp hdec
    obtain ⟨hl4, rfl⟩ := (scanField_append _ _ 0 hsor (by omega) r).mp hr
    obtain ⟨sor, hsorArr, hdec⟩ := bind_eq_ok.mp hdec
    obtain ⟨r, hr, hdec⟩ := bind_eq_ok.mp hdec
    obtain ⟨hl5, rfl⟩ := (scanField_append _ _ 0 hdes (by omega) r).mp hr
    obtain ⟨des, hdesArr, hdec⟩ := bind_eq_ok.mp hdec
    obtain rfl := Except.ok.inj hdec
    exact ⟨hverArr, rfl, hl2, hheadLen, hl3, hdataLen, hsorArr, rfl, hdesArr, rfl, rfl, rfl⟩
  · intro hq
    have hsmall : ∀ {n : ℕ} {text : List Byte} {a : CharArray n}, n ≤ tempBufferSize →
        CharArray.ofText n text = .ok a → text.length + 0 ≤ tempBufferSize := by
      intro n text a hn htext
      have := (CharArray.ofText_eq_ok.mp htext).1
      omega
    refine bind_eq_ok.mpr ⟨_, (scanField_append _ _ 0 hver (by omega) _).mpr
      ⟨hsmall (by decide) hq.ver, rfl⟩, ?_⟩
    refine bind_eq_ok.mpr ⟨_, hq.ver, ?_⟩
    refine bind_eq_ok.mpr ⟨_, (scanField_append _ _ 0 hhead (by omega) _).mpr
      ⟨hq.headLen, rfl⟩, ?_⟩
    refine bind_eq_ok.mpr ⟨_, hq.headerLength, ?_⟩
    refine bind_eq_ok.mpr ⟨_, (scanField_append _ _ 0 hdata (by omega) _).mpr
      ⟨hq.dataLen, rfl⟩, ?_⟩
    refine bind_eq_ok.mpr ⟨_, hq.dataLength, ?_⟩
    refine bind_eq_ok.mpr ⟨_, (scanField_append _ _ 0 hsor (by omega) _).mpr
      ⟨hsmall (by decide) hq.sor, rfl⟩, ?_⟩
    refine bind_eq_ok.mpr ⟨_, hq.sor, ?_⟩
    refine bind_eq_ok.mpr ⟨_, (scanField_append _ _ 0 hdes (by omega) _).mpr
      ⟨hsmall (by decide) hq.des, rfl⟩, ?_⟩
    refine bind_eq_ok.mpr ⟨_, hq.des, ?_⟩
    have hverLength := hq.verLength
    have hsorLength := hq.sorLength
    have hdesLength := hq.desLength
    have hqdata := hq.data
    have hidx := hq.belongSocketIdx
    obtain ⟨_, _, _, _, ⟨_, _⟩, ⟨_, _⟩, _, _⟩ := q
    simp only at hverLength hsorLength hdesLength hqdata hidx
    subst hverLength hsorLength hdesLength hqdata hidx
    rfl

theorem Decodes.unique {h : Header} {p q q' : IoTPackage} (hq : Decodes h p q)
    (hq' : Decodes h p q') : q = q' :=
  Except.ok.inj (((decodeOnlyHeader_eq_ok h [] p q).mpr hq).symm.trans
    ((decodeOnlyHeader_eq_ok h [] p q').mpr hq'))

/-- Decoding the same header into the decoded package changes nothing. -/
theorem Decodes.again {h : Header} {p q : IoTPackage} (hq : Decodes h p q) : Decodes h q q :=
  { hq with data := rfl, belongSocketIdx := rfl }

end IoTRepublic.PackageReader
