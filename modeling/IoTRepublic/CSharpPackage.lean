import IoTRepublic.CSharpReader

/-!
The package writer of the C# library. Its addresses have no limit, but its
guess at the digits of the header length is the one of the C++ writer. A header
of 97 characters without these digits has 101 with them, and the writer says 100.
-/
namespace IoTRepublic.CSharpPackage

open CheckedArray DecimalText Delimited CSharpReader
open Package hiding IoTPackage createPackage encodePackage

def createPackage (package : IoTPackage) (sorIp desIp data : List Char16) (dataLength : ℤ) :
    IoTPackage :=
  let strDataLength := utf16 (ofInt dataLength)
  let headerLength := wrapInt (currentVersion.length + 1 + sorIp.length + 1 + desIp.length + 1 +
    strDataLength.length + 1)
  { package with
    ver := currentVersion
    verLength := currentVersion.length
    sorIp := sorIp
    desIp := desIp
    dataLength := dataLength
    data := data
    headerLength := wrapInt (addOwnDigits headerLength + 1) }

/-- The part of `encode_package` in front of the data. -/
def encodeHeader (buffer : List Char16) (packageInfo : IoTPackage) :
    Exec (List Char16 × ℕ) := do
  let s ← putLoop (buffer, 0) packageInfo.ver packageInfo.verLength
  let s ← putLoop s [splitSymble] 1
  let strHeadLen := utf16 (ofInt packageInfo.headerLength)
  let s ← putLoop s strHeadLen strHeadLen.length
  let s ← putLoop s [splitSymble] 1
  let strDataLen := utf16 (ofInt packageInfo.dataLength)
  let s ← putLoop s strDataLen strDataLen.length
  let s ← putLoop s [splitSymble] 1
  let s ← putLoop s packageInfo.sorIp packageInfo.sorIp.length
  let s ← putLoop s [splitSymble] 1
  let s ← putLoop s packageInfo.desIp packageInfo.desIp.length
  putLoop s [splitSymble] 1

def encodePackage (buffer : List Char16) (packageInfo : IoTPackage) :
    Exec (List Char16 × ℕ) := do
  let s ← encodeHeader buffer packageInfo
  let s ← putLoop s packageInfo.data packageInfo.dataLength
  let summed ← readLoop s.1 s.2 0
  let s ← putLoop s [(CarrySum.highByte (folded summed)).toUInt16] 1
  putLoop s [(CarrySum.lowByte (folded summed)).toUInt16] 1

/-- The header length says where `encode_package` writes the first data character. -/
def PointsAtData (buffer : List Char16) (p : IoTPackage) : Prop :=
  ∃ front index, encodeHeader buffer p = .ok (front, index) ∧ p.headerLength = (index : ℤ)

/-- `decode_package` returns 1 with these addresses and these data. -/
def DecodesTo (buffer : List Char16) (before : IoTPackage) (sorIp desIp data : List Char16) :
    Prop :=
  ∃ q, decodePackage buffer before = .ok (q, true) ∧ q.sorIp = sorIp ∧ q.desIp = desIp ∧
    q.data = data

/-- The five fields in front of the data. -/
def headerFields (p : IoTPackage) : List (List Char16) :=
  [p.ver, utf16 (ofInt p.headerLength), utf16 (ofInt p.dataLength), p.sorIp, p.desIp]

def summedChars (p : IoTPackage) : List Char16 :=
  joinFields splitSymble (headerFields p) ++ p.data

def checksumChars (summed : List Char16) : List Char16 :=
  [(CarrySum.highByte (folded summed)).toUInt16, (CarrySum.lowByte (folded summed)).toUInt16]

section

variable {buffer out behind : List Char16} {p before : IoTPackage} {sorIp desIp data : List Char16}

/-- A field and its separator, written behind what has been written. -/
private theorem put_field {s : List Char16 × ℕ} {field : List Char16}
    {f : List Char16 × ℕ → Exec (List Char16 × ℕ)} (hout : out.length ≤ buffer.length) :
    (do let s ← putLoop (writtenFront buffer out) field field.length
        let s ← putLoop s [splitSymble] 1
        f s) = .ok s ↔
      (out ++ (field ++ [splitSymble])).length ≤ buffer.length ∧
        f (writtenFront buffer (out ++ (field ++ [splitSymble]))) = .ok s := by
  have hfield := fun s => putLoop_writtenFront buffer out field field.length s hout
  simp only [Int.toNat_natCast, le_refl, List.take_length, true_and] at hfield
  have hsep : (out ++ field).length ≤ buffer.length → ∀ s,
      putLoop (writtenFront buffer (out ++ field)) [splitSymble] 1 = .ok s ↔
        (out ++ field).length + 1 ≤ buffer.length ∧
          s = writtenFront buffer (out ++ field ++ [splitSymble]) := by
    intro hroom s
    rw [putLoop_writtenFront buffer _ _ _ s hroom]
    simp
  have hlen : (out ++ (field ++ [splitSymble])).length = out.length + field.length + 1 := by
    rw [← List.append_assoc, List.length_append, List.length_append, List.length_singleton]
  rw [hlen, ← List.append_assoc]
  rw [List.length_append] at hsep
  constructor
  · intro h
    obtain ⟨s₁, h₁, h⟩ := bind_eq_ok.mp h
    obtain ⟨hroom, rfl⟩ := (hfield s₁).mp h₁
    obtain ⟨s₂, h₂, h⟩ := bind_eq_ok.mp h
    obtain ⟨hroom', rfl⟩ := (hsep hroom s₂).mp h₂
    exact ⟨hroom', h⟩
  · intro ⟨hroom, h⟩
    refine bind_eq_ok.mpr ⟨_, (hfield _).mpr ⟨by omega, rfl⟩, ?_⟩
    exact bind_eq_ok.mpr ⟨_, (hsep (by omega) _).mpr ⟨hroom, rfl⟩, h⟩

/-- What `encode_package` has written when it comes to the data. -/
theorem encodeHeader_eq_ok {s : List Char16 × ℕ} (hver : p.verLength = p.ver.length) :
    encodeHeader buffer p = .ok s ↔
      (joinFields splitSymble (headerFields p)).length ≤ buffer.length ∧
        s = writtenFront buffer (joinFields splitSymble (headerFields p)) := by
  have hjoin : joinFields splitSymble (headerFields p) =
      [] ++ (p.ver ++ [splitSymble]) ++ (utf16 (ofInt p.headerLength) ++ [splitSymble]) ++
        (utf16 (ofInt p.dataLength) ++ [splitSymble]) ++ (p.sorIp ++ [splitSymble]) ++
        (p.desIp ++ [splitSymble]) := by
    simp [headerFields, joinFields]
  have hlast : ∀ {out : List Char16}, out.length ≤ buffer.length →
      ((do let s ← putLoop (writtenFront buffer out) p.desIp p.desIp.length
           putLoop s [splitSymble] 1) = .ok s ↔
        (out ++ (p.desIp ++ [splitSymble])).length ≤ buffer.length ∧
          s = writtenFront buffer (out ++ (p.desIp ++ [splitSymble]))) := by
    intro out hout
    have hbind : ∀ s : List Char16 × ℕ, putLoop s [splitSymble] 1 >>= Except.ok =
        putLoop s [splitSymble] 1 := fun s => bind_pure _
    have hfield := @put_field buffer out s p.desIp Except.ok hout
    simp only [hbind, Except.ok.injEq] at hfield
    rw [hfield, eq_comm]
  unfold encodeHeader
  rw [← writtenFront_nil, hver]
  constructor
  · intro h
    obtain ⟨h1, h⟩ := (put_field (Nat.zero_le _)).mp h
    obtain ⟨h2, h⟩ := (put_field h1).mp h
    obtain ⟨h3, h⟩ := (put_field h2).mp h
    obtain ⟨h4, h⟩ := (put_field h3).mp h
    rw [hjoin]
    exact (hlast h4).mp h
  · rintro ⟨h5, hs⟩
    rw [hjoin] at h5 hs
    have h4 := (List.prefix_append _ _).length_le.trans h5
    have h3 := (List.prefix_append _ _).length_le.trans h4
    have h2 := (List.prefix_append _ _).length_le.trans h3
    have h1 := (List.prefix_append _ _).length_le.trans h2
    refine (put_field (Nat.zero_le _)).mpr ⟨h1, ?_⟩
    refine (put_field h1).mpr ⟨h2, ?_⟩
    refine (put_field h2).mpr ⟨h3, ?_⟩
    refine (put_field h3).mpr ⟨h4, ?_⟩
    exact (hlast h4).mpr ⟨h5, hs⟩

/-- `encode_package` ends exactly when the buffer has room, with the header, the data and the
checksum at its front. -/
theorem encodePackage_eq_ok {s : List Char16 × ℕ} (hver : p.verLength = p.ver.length)
    (hdata : p.dataLength = p.data.length) :
    encodePackage buffer p = .ok s ↔
      (summedChars p ++ checksumChars (summedChars p)).length ≤ buffer.length ∧
        s = writtenFront buffer (summedChars p ++ checksumChars (summedChars p)) := by
  have hbody : (joinFields splitSymble (headerFields p)).length ≤ buffer.length → ∀ s,
      putLoop (writtenFront buffer (joinFields splitSymble (headerFields p))) p.data
          p.dataLength = .ok s ↔
        (summedChars p).length ≤ buffer.length ∧ s = writtenFront buffer (summedChars p) := by
    intro hroom s
    rw [hdata, putLoop_writtenFront buffer _ _ _ s hroom, Int.toNat_natCast, List.take_length,
      summedChars, List.length_append]
    simp only [le_refl, true_and]
  have hread : (summedChars p).length ≤ buffer.length →
      readLoop (writtenFront buffer (summedChars p)).1 (writtenFront buffer (summedChars p)).2 0 =
        .ok (summedChars p) := by
    intro hroom
    have hlen := splice_length buffer 0 (summedChars p) (by omega)
    have hall := readLoop_eq (splice buffer 0 (summedChars p)) (summedChars p).length 0 (by omega)
    rw [List.drop_zero] at hall
    have htake : (splice buffer 0 (summedChars p)).take (summedChars p).length = summedChars p :=
      writtenFront_take buffer (summedChars p)
    rw [htake] at hall
    exact hall
  have hput : ∀ (c : Char16) (out : List Char16), out.length ≤ buffer.length → ∀ s,
      putLoop (writtenFront buffer out) [c] 1 = .ok s ↔
        (out ++ [c]).length ≤ buffer.length ∧ s = writtenFront buffer (out ++ [c]) := by
    intro c out hroom s
    rw [putLoop_writtenFront buffer _ _ _ s hroom]
    simp
  have hpair : summedChars p ++ checksumChars (summedChars p) =
      summedChars p ++ [(CarrySum.highByte (folded (summedChars p))).toUInt16] ++
        [(CarrySum.lowByte (folded (summedChars p))).toUInt16] := by
    rw [List.append_assoc]
    rfl
  rw [hpair]
  constructor
  · intro h
    obtain ⟨s₁, h₁, h⟩ := bind_eq_ok.mp h
    obtain ⟨hroom, rfl⟩ := (encodeHeader_eq_ok hver).mp h₁
    obtain ⟨s₂, h₂, h⟩ := bind_eq_ok.mp h
    obtain ⟨hroom, rfl⟩ := (hbody hroom s₂).mp h₂
    rw [hread hroom, ok_bind] at h
    obtain ⟨s₃, h₃, h⟩ := bind_eq_ok.mp h
    obtain ⟨hroom, rfl⟩ := (hput _ _ hroom s₃).mp h₃
    exact (hput _ _ hroom s).mp h
  · intro ⟨hroom, hs⟩
    have hhigh := (List.prefix_append _ _).length_le.trans hroom
    have hsummed := (List.prefix_append _ _).length_le.trans hhigh
    have hheader : (joinFields splitSymble (headerFields p)).length ≤ buffer.length :=
      (List.prefix_append _ _).length_le.trans hsummed
    refine bind_eq_ok.mpr ⟨_, (encodeHeader_eq_ok hver).mpr ⟨hheader, rfl⟩, ?_⟩
    refine bind_eq_ok.mpr ⟨_, (hbody hheader _).mpr ⟨hsummed, rfl⟩, ?_⟩
    rw [hread hsummed, ok_bind]
    refine bind_eq_ok.mpr ⟨_, (hput _ _ hsummed _).mpr ⟨hhigh, rfl⟩, ?_⟩
    exact (hput _ _ hhigh s).mpr ⟨hroom, hs⟩

/-- A package whose own lengths are natural numbers, as `create_package` makes it. -/
structure Fields (p : IoTPackage) (head : ℕ) : Prop where
  ver : p.ver = currentVersion
  verLength : p.verLength = p.ver.length
  headerLength : p.headerLength = head
  dataLength : p.dataLength = p.data.length
  small : head ≤ 2147483647 ∧ p.data.length ≤ 2147483647
  sor : splitSymble ∉ p.sorIp
  des : splitSymble ∉ p.desIp

/-- The header is read back unless an address fills the scratch array. -/
theorem decodeOnlyHeader_eq_ok {head : ℕ} (hp : Fields p head) {q : IoTPackage} :
    decodeOnlyHeader (joinFields splitSymble (headerFields p) ++ behind) before = .ok q ↔
      p.sorIp.length < PackageReader.tempBufferSize ∧
        p.desIp.length < PackageReader.tempBufferSize ∧
        q = { p with data := before.data } := by
  have hver : splitSymble ∉ p.ver := by
    rw [hp.ver]
    exact zero_notMem_utf16 (by decide)
  have hverLen : p.ver.length < PackageReader.tempBufferSize := by
    rw [hp.ver]
    decide
  have hnumber : ∀ n : ℕ, splitSymble ∉ utf16 (ofInt n) := fun n =>
    zero_notMem_utf16 (zero_notMem_ofInt n)
  have hnumberLen : ∀ n : ℕ, n ≤ 2147483647 →
      (utf16 (ofInt n)).length < PackageReader.tempBufferSize := by
    intro n hn
    have hdigits : (ofNat n).length ≤ 10 := ofNat_length_le (by omega) (by omega)
    rw [utf16, List.length_map, ofInt_natCast]
    exact lt_of_le_of_lt hdigits (by decide)
  have hscan : ∀ {field behind : List Char16}, splitSymble ∉ field →
      field.length < PackageReader.tempBufferSize →
      scanField (field ++ splitSymble :: behind) = .ok (field, behind) :=
    fun hsep hlen => (scanField_eq_ok hsep).mpr ⟨hlen.le, rfl⟩
  have hfix : ∀ {field : List Char16}, splitSymble ∉ field →
      field.length < PackageReader.tempBufferSize → getFixString (tempOf field) = .ok field :=
    fun hsep hlen => (getFixString_tempOf hsep).mpr ⟨hlen, rfl⟩
  have hbytes : joinFields splitSymble (headerFields p) ++ behind =
      p.ver ++ splitSymble :: (utf16 (ofInt head) ++ splitSymble ::
        (utf16 (ofInt p.data.length) ++ splitSymble :: (p.sorIp ++ splitSymble ::
          (p.desIp ++ splitSymble :: behind)))) := by
    simp [headerFields, hp.headerLength, hp.dataLength]
  rw [hbytes, decodeOnlyHeader, hscan hver hverLen, ok_bind]
  dsimp only
  rw [hfix hver hverLen, ok_bind, hscan (hnumber head) (hnumberLen head hp.small.1), ok_bind]
  dsimp only
  rw [hfix (hnumber head) (hnumberLen head hp.small.1), ok_bind, intParse_ofInt head hp.small.1,
    ok_bind, hscan (hnumber _) (hnumberLen _ hp.small.2), ok_bind]
  dsimp only
  rw [hfix (hnumber _) (hnumberLen _ hp.small.2), ok_bind, intParse_ofInt _ hp.small.2, ok_bind]
  constructor
  · intro h
    obtain ⟨r, hr, h⟩ := bind_eq_ok.mp h
    obtain ⟨-, rfl⟩ := (scanField_eq_ok hp.sor).mp hr
    obtain ⟨source, hsource, h⟩ := bind_eq_ok.mp h
    obtain ⟨hsorLen, rfl⟩ := (getFixString_tempOf hp.sor).mp hsource
    obtain ⟨r, hr, h⟩ := bind_eq_ok.mp h
    obtain ⟨-, rfl⟩ := (scanField_eq_ok hp.des).mp hr
    obtain ⟨destination, hdestination, h⟩ := bind_eq_ok.mp h
    obtain ⟨hdesLen, rfl⟩ := (getFixString_tempOf hp.des).mp hdestination
    refine ⟨hsorLen, hdesLen, ?_⟩
    rw [← Except.ok.inj h, ← hp.verLength, ← hp.headerLength, ← hp.dataLength]
  · rintro ⟨hsorLen, hdesLen, hq⟩
    rw [hscan hp.sor hsorLen, ok_bind]
    dsimp only
    rw [hfix hp.sor hsorLen, ok_bind, hscan hp.des hdesLen, ok_bind]
    dsimp only
    rw [hfix hp.des hdesLen, ok_bind, hq, ← hp.verLength, ← hp.headerLength, ← hp.dataLength]

/-- The package is read back if the header length is right and the addresses fit the scratch
array. -/
theorem decodePackage_eq {head : ℕ} (hp : Fields p head)
    (hhead : (joinFields splitSymble (headerFields p)).length = head)
    (hsor : p.sorIp.length < PackageReader.tempBufferSize)
    (hdes : p.desIp.length < PackageReader.tempBufferSize) :
    decodePackage (summedChars p ++ checksumChars (summedChars p) ++ behind) before =
      .ok (p, true) := by
  have hbuffer : summedChars p ++ checksumChars (summedChars p) ++ behind =
      joinFields splitSymble (headerFields p) ++ p.data ++
        (checksumChars (summedChars p) ++ behind) := List.append_assoc ..
  have hheader : decodeOnlyHeader (summedChars p ++ checksumChars (summedChars p) ++ behind)
      before = .ok { p with data := before.data } := by
    rw [hbuffer, List.append_assoc (joinFields ..)]
    exact (decodeOnlyHeader_eq_ok hp).mpr ⟨hsor, hdes, rfl⟩
  have hdata : readLoop (summedChars p ++ checksumChars (summedChars p) ++ behind)
      p.data.length head = .ok p.data := by
    rw [hbuffer, ← hhead]
    exact readLoop_append _ _ _
  have hread : readLoop (summedChars p ++ checksumChars (summedChars p) ++ behind)
      (summedChars p).length 0 = .ok (summedChars p) := by
    rw [List.append_assoc]
    exact readLoop_append [] _ _
  have hhigh : readAt (summedChars p ++ checksumChars (summedChars p) ++ behind)
      (summedChars p).length = .ok (CarrySum.highByte (folded (summedChars p))).toUInt16 := by
    rw [List.append_assoc]
    exact readAt_append _ _ _
  have hlow : readAt (summedChars p ++ checksumChars (summedChars p) ++ behind)
      ((summedChars p).length + 1) =
        .ok (CarrySum.lowByte (folded (summedChars p))).toUInt16 := by
    have hnext := readAt_append (summedChars p ++
        [(CarrySum.highByte (folded (summedChars p))).toUInt16]) behind
      (CarrySum.lowByte (folded (summedChars p))).toUInt16
    rw [List.length_append, List.append_assoc] at hnext
    rw [List.append_assoc]
    exact hnext
  have hoffset : (head : ℤ) + p.data.length = (summedChars p).length := by
    rw [summedChars, List.length_append, hhead]
    push_cast
    rfl
  have hnonneg : ¬ (p.data.length : ℤ) < 0 := by omega
  have hsum : CarrySum.joinBytes (CarrySum.highByte (folded (summedChars p)))
      (CarrySum.lowByte (folded (summedChars p))) = folded (summedChars p) :=
    CarrySum.joinBytes_split _ (CarrySum.folded_lt _)
  rw [decodePackage, hheader, ok_bind]
  simp only [hp.dataLength, hp.headerLength, hnonneg, ↓reduceIte, Int.toNat_natCast, hdata,
    ok_bind, hoffset, hread, hhigh, hlow, UInt8.toUInt8_toUInt16, hsum, decide_true]
  rw [← hp.dataLength, ← hp.headerLength]

/-- The header without the digits of its own length and without the separator behind them. -/
def partLength (sorIp desIp data : List Char16) : ℕ :=
  sorIp.length + desIp.length + (ofNat data.length).length + 11

def headLength (n : ℕ) : ℕ := (addOwnDigits n + 1).toNat

/-- The guess is right but at one value, as long as three digits are enough. -/
theorem headLength_eq_iff {n : ℕ} (h : 9 ≤ n) :
    headLength n = n + (ofNat (headLength n)).length + 1 ↔ n ≠ 97 ∧ n ≤ 995 := by
  have hshort : ∀ k, 0 < k → ((ofNat (headLength n)).length ≤ k ↔ headLength n < 10 ^ k) :=
    fun k hk => ⟨lt_of_ofNat_length_le hk, ofNat_length_le hk⟩
  have hone := hshort 1 (by omega)
  have htwo := hshort 2 (by omega)
  have hthree := hshort 3 (by omega)
  by_cases hsmall : n ≤ 97
  · have hhead : headLength n = n + 3 := by
      unfold headLength addOwnDigits
      rw [if_neg (by omega), if_pos (by omega)]
      omega
    rw [hhead] at hone htwo ⊢
    omega
  · have hhead : headLength n = n + 4 := by
      unfold headLength addOwnDigits
      rw [if_neg (by omega), if_neg (by omega)]
      omega
    rw [hhead] at htwo hthree ⊢
    omega

theorem createPackage_headerLength
    (hint : partLength sorIp desIp data + 4 ≤ 2147483647) :
    (createPackage before sorIp desIp data data.length).headerLength =
      headLength (partLength sorIp desIp data) := by
  have hver : currentVersion.length = 7 := by decide
  have hpart : (currentVersion.length + 1 + sorIp.length + 1 + desIp.length + 1 +
      (utf16 (ofInt data.length)).length + 1 : ℤ) = partLength sorIp desIp data := by
    rw [hver, ofInt_natCast, utf16, List.length_map, partLength]
    push_cast
    omega
  have hguess : (partLength sorIp desIp data : ℤ) < addOwnDigits (partLength sorIp desIp data) ∧
      addOwnDigits (partLength sorIp desIp data) ≤ partLength sorIp desIp data + 3 := by
    unfold addOwnDigits
    split_ifs <;> omega
  unfold createPackage
  dsimp only
  have hsame : wrapInt (partLength sorIp desIp data) = partLength sorIp desIp data :=
    wrapInt_eq _ (by omega) (by omega)
  rw [hpart, hsame, wrapInt_eq _ (by omega) (by omega), headLength]
  omega

theorem createPackage_fields (hsor : splitSymble ∉ sorIp) (hdes : splitSymble ∉ desIp)
    (hint : partLength sorIp desIp data + data.length + 4 ≤ 2147483647) :
    Fields (createPackage before sorIp desIp data data.length)
      (headLength (partLength sorIp desIp data)) where
  ver := rfl
  verLength := rfl
  headerLength := createPackage_headerLength (by omega)
  dataLength := rfl
  small := by
    constructor
    · unfold headLength addOwnDigits
      split_ifs <;> omega
    · change data.length ≤ 2147483647
      omega
  sor := hsor
  des := hdes

/-- The index at which the data begin. -/
theorem length_headerFields :
    (joinFields splitSymble (headerFields
      (createPackage before sorIp desIp data data.length))).length =
      partLength sorIp desIp data +
        (ofInt (createPackage before sorIp desIp data data.length).headerLength).length + 1 := by
  have hver : currentVersion.length = 7 := by decide
  simp only [headerFields, length_joinFields_cons, joinFields_nil, List.length_nil]
  simp only [createPackage, ofInt_natCast, utf16, List.length_map]
  rw [hver, partLength]
  omega

theorem writtenFront_fst : (writtenFront buffer out).1 = out ++ buffer.drop out.length := by
  rw [writtenFront, splice, List.take_zero, List.nil_append, Nat.zero_add]

end

/-- Whenever the C# `encode_package` comes to an end on a package of `create_package` (the length
of its buffer is an `int`): the header length is the index of the first data character exactly
if the header without its own digits has neither 97 nor more than 995 characters, and the
package is read back as well exactly if it has not 97 and no address fills the reader's array
of 200 characters. -/
theorem headerLength_iff {sorIp desIp data buffer out : List Char16} {n : ℕ}
    (hsor : splitSymble ∉ sorIp) (hdes : splitSymble ∉ desIp)
    (hint : buffer.length ≤ 2147483647) (before before' : IoTPackage)
    (hencode : encodePackage buffer (createPackage before sorIp desIp data data.length) =
      .ok (out, n)) :
    (PointsAtData buffer (createPackage before sorIp desIp data data.length) ↔
      partLength sorIp desIp data ≠ 97 ∧ partLength sorIp desIp data ≤ 995) ∧
    (PointsAtData buffer (createPackage before sorIp desIp data data.length) ∧
        DecodesTo out before' sorIp desIp data ↔
      partLength sorIp desIp data ≠ 97 ∧ sorIp.length ≤ 199 ∧ desIp.length ≤ 199) := by
  obtain ⟨hroom, hpair⟩ := (encodePackage_eq_ok rfl rfl).mp hencode
  have hout : out = _ := (congrArg Prod.fst hpair).trans writtenFront_fst
  have hlen : (joinFields splitSymble (headerFields (createPackage before sorIp desIp data
      data.length))).length = _ := length_headerFields
  have hdigits := List.length_pos_iff.mpr
    (ofInt_ne_nil (createPackage before sorIp desIp data data.length).headerLength)
  have hpart : partLength sorIp desIp data + data.length + 4 ≤ 2147483647 := by
    rw [List.length_append, summedChars, List.length_append, hlen, checksumChars] at hroom
    have hdata : (createPackage before sorIp desIp data data.length).data = data := rfl
    rw [hdata, List.length_cons, List.length_singleton] at hroom
    omega
  have hp : Fields (createPackage before sorIp desIp data data.length) _ :=
    createPackage_fields hsor hdes hpart
  have hheader : (joinFields splitSymble (headerFields (createPackage before sorIp desIp data
      data.length))).length ≤ buffer.length :=
    ((List.prefix_append _ _).trans (List.prefix_append _ _)).length_le.trans hroom
  have hguess : headLength (partLength sorIp desIp data) = _ ↔ _ :=
    headLength_eq_iff (by rw [partLength]; omega)
  rw [hp.headerLength, ofInt_natCast] at hlen
  have hpoints : PointsAtData buffer (createPackage before sorIp desIp data data.length) ↔
      partLength sorIp desIp data ≠ 97 ∧ partLength sorIp desIp data ≤ 995 := by
    rw [← hguess, ← hlen]
    constructor
    · intro ⟨front, index, hfront, hindex⟩
      obtain ⟨-, hpair⟩ := (encodeHeader_eq_ok rfl).mp hfront
      have hwritten : index = _ := congrArg Prod.snd hpair
      rw [hp.headerLength, Int.natCast_inj, hwritten] at hindex
      exact hindex
    · intro hhead
      refine ⟨_, _, (encodeHeader_eq_ok rfl).mpr ⟨hheader, rfl⟩, ?_⟩
      rw [hp.headerLength, hhead]
  refine ⟨hpoints, ?_⟩
  rw [hpoints]
  constructor
  · intro ⟨⟨hne, _⟩, q, hq, _⟩
    obtain ⟨info, hinfo, -⟩ := bind_eq_ok.mp hq
    rw [hout, summedChars, List.append_assoc, List.append_assoc] at hinfo
    obtain ⟨hsorLen, hdesLen, -⟩ := (decodeOnlyHeader_eq_ok hp).mp hinfo
    exact ⟨hne, Nat.le_of_lt_succ hsorLen, Nat.le_of_lt_succ hdesLen⟩
  · intro ⟨hne, hsorLen, hdesLen⟩
    have hcount : (ofNat data.length).length ≤ 10 := ofNat_length_le (by omega) (by omega)
    have hle : partLength sorIp desIp data ≤ 995 := by
      rw [partLength]
      omega
    refine ⟨⟨hne, hle⟩, createPackage before sorIp desIp data data.length, ?_, rfl, rfl, rfl⟩
    rw [hout]
    exact decodePackage_eq hp (hlen.trans (hguess.mpr ⟨hne, hle⟩).symm)
      (Nat.lt_succ_of_le hsorLen) (Nat.lt_succ_of_le hdesLen)

def blankPackage : IoTPackage := ⟨[], 0, 0, 0, [], [], []⟩

/-- A package between two addresses of one character. -/
theorem headerLength_short :
    PointsAtData (List.replicate 32 7) (createPackage blankPackage [65] [66] [80, 0] 2) ∧
      ∃ out n, encodePackage (List.replicate 32 7)
        (createPackage blankPackage [65] [66] [80, 0] 2) = .ok (out, n) ∧
        DecodesTo out blankPackage [65] [66] [80, 0] := by
  obtain ⟨⟨out, n⟩, hencode⟩ : ∃ s, encodePackage (List.replicate 32 7)
      (createPackage blankPackage [65] [66] [80, 0] 2) = .ok s :=
    ⟨_, (encodePackage_eq_ok rfl rfl).mpr ⟨by decide, rfl⟩⟩
  have hiff := (headerLength_iff (by decide) (by decide) (by decide) blankPackage blankPackage
    hencode).2.mpr ⟨by decide, by decide, by decide⟩
  exact ⟨hiff.1, out, n, hencode, hiff.2⟩

/-- Addresses of 1 and 84 characters and no data: the header says 100, the data would begin at
101, and `decode_package` returns 0. -/
theorem headerLength_misses :
    ∃ out, encodePackage (List.replicate 103 7) (createPackage blankPackage [65]
        (List.replicate 84 66) [] 0) = .ok (out, 103) ∧
      (createPackage blankPackage [65] (List.replicate 84 66) [] 0).headerLength = 100 ∧
      (encodeHeader (List.replicate 103 7) (createPackage blankPackage [65]
        (List.replicate 84 66) [] 0)).map Prod.snd = .ok 101 ∧
      (decodePackage out blankPackage).map Prod.snd = .ok false := by
  refine ⟨_, (encodePackage_eq_ok rfl rfl).mpr ⟨by decide, rfl⟩, by decide, ?_, ?_⟩
  · decide +kernel
  · decide +kernel

end IoTRepublic.CSharpPackage
