import IoTRepublic.Foundation.CarrySum
import IoTRepublic.Foundation.DecimalText
import IoTRepublic.Foundation.Delimited

/-!
The package: its fields, how one is created and how it is written to the wire.
A package on the wire is five fields closed by a separator (version, header
length, data length, source and destination address), the data bytes and a
two-byte checksum over everything before it. The arrays of the structure and
the scratch strings have the source's sizes, and a write outside one is a
fault.
-/
namespace IoTRepublic.Package

open CheckedArray

abbrev Byte := UInt8

def ascii (s : String) : List Byte := s.toList.map DecimalText.byteOf

/-- The value of a `char`. -/
def charValue (c : Byte) : ℤ := if c < 128 then c.toNat else c.toNat - 256

def CurrentVersion : List Byte := ascii "IUDP1.0"

def SplitSymble : Byte := 0

abbrev MAXPACKETSIZE : ℕ := 1024
abbrev VERSION_CHAR_SIZE : ℕ := 10
abbrev IP_ADDR_SIZE : ℕ := 15

/-- `char name[n]`. -/
structure CharArray (n : ℕ) where
  bytes : List Byte
  size : bytes.length = n
  deriving DecidableEq

namespace CharArray

def zero (n : ℕ) : CharArray n := ⟨List.replicate n 0, List.length_replicate ..⟩

/-- `memset(dst, '\0', n)` and then a copy of a string and its terminator. -/
def ofText (n : ℕ) (text : List Byte) : Exec (CharArray n) :=
  if h : text.length + 1 ≤ n then
    .ok ⟨text ++ List.replicate (n - text.length) 0, by
      simp only [List.length_append, List.length_replicate]
      omega⟩
  else .error .writeOutside

/-- The array as a string: what stands before its first terminator. -/
def text {n : ℕ} (a : CharArray n) : Exec (List Byte) := cString 0 a.bytes

theorem ofText_eq_ok {n : ℕ} {text : List Byte} {a : CharArray n} :
    ofText n text = .ok a ↔
      text.length + 1 ≤ n ∧ a.bytes = text ++ List.replicate (n - text.length) 0 := by
  unfold ofText
  split
  · rename_i h
    simp only [Except.ok.injEq, h, true_and]
    constructor
    · rintro rfl
      rfl
    · intro hbytes
      cases a
      simp only at hbytes
      subst hbytes
      rfl
  · rename_i h
    simp [h]

theorem ofText_bytes {n : ℕ} {text : List Byte} {a : CharArray n} (h : ofText n text = .ok a) :
    a.bytes.take text.length = text := by
  rw [(ofText_eq_ok.mp h).2]
  exact List.take_left

theorem ofText_text {n : ℕ} {text : List Byte} {a : CharArray n} (h : ofText n text = .ok a)
    (hnul : (0 : Byte) ∉ text) : a.text = .ok text := by
  obtain ⟨hlen, hbytes⟩ := ofText_eq_ok.mp h
  obtain ⟨k, hk⟩ : ∃ k, n - text.length = k + 1 := ⟨n - text.length - 1, by omega⟩
  rw [CharArray.text, hbytes, hk, List.replicate_succ]
  exact cString_append 0 text _ hnul

theorem text_eq_ok {n : ℕ} {a : CharArray n} {text : List Byte} (h : a.text = .ok text) :
    (0 : Byte) ∉ text ∧ text.length + 1 ≤ n ∧ ∃ rest, a.bytes = text ++ 0 :: rest := by
  rcases cString_eq_ok h with ⟨hnul, rest, hbytes⟩
  have hsize := a.size
  rw [hbytes, List.length_append, List.length_cons] at hsize
  exact ⟨hnul, by omega, rest, hbytes⟩

theorem exists_ofText (n : ℕ) (text : List Byte) (h : text.length + 1 ≤ n) :
    ∃ a, ofText n text = .ok a := by
  simp [ofText, h]

end CharArray

structure IoTIp where
  ip : CharArray IP_ADDR_SIZE
  ipLength : ℤ
  deriving DecidableEq

structure IoTPackage where
  ver : CharArray VERSION_CHAR_SIZE
  verLength : ℤ
  headerLength : ℤ
  dataLength : ℤ
  sorIp : IoTIp
  desIp : IoTIp
  data : List Byte
  belongSocketIdx : ℤ
  deriving DecidableEq

/-- The lengths the source leaves unset are 0 here; every reader sets them first. -/
def generateIotPackage : IoTPackage where
  ver := CharArray.zero VERSION_CHAR_SIZE
  verLength := 0
  headerLength := 0
  dataLength := 0
  sorIp := ⟨CharArray.zero IP_ADDR_SIZE, 0⟩
  desIp := ⟨CharArray.zero IP_ADDR_SIZE, 0⟩
  data := []
  belongSocketIdx := -1

/-- `sprintf(dst, "%d", x)` into `char dst[capacity]`. -/
def sprintfInt (capacity : ℕ) (x : ℤ) : Exec (List Byte) :=
  if (DecimalText.ofInt x).length + 1 ≤ capacity then .ok (DecimalText.ofInt x)
  else .error .writeOutside

theorem sprintfInt_eq_ok {capacity : ℕ} {x : ℤ} {text : List Byte} :
    sprintfInt capacity x = .ok text ↔
      (DecimalText.ofInt x).length + 1 ≤ capacity ∧ text = DecimalText.ofInt x := by
  unfold sprintfInt
  split
  · rename_i h
    simp [h, eq_comm]
  · rename_i h
    simp [h]

/-- `memcpy` of `n` bytes out of a block. -/
def readBlock (block : List Byte) (n : ℤ) : Exec (List Byte) :=
  if 0 ≤ n ∧ n.toNat ≤ block.length then .ok (block.take n.toNat) else .error .readOutside

/-- The digits of the header length are counted before the header length is known. -/
def addOwnDigits (headerLength : ℤ) : ℤ :=
  if headerLength ≤ 8 then headerLength + 1
  else if headerLength ≤ 97 then headerLength + 2
  else headerLength + 3

/-- `create_package`; a `char *` argument is passed as the text before its terminator. -/
def createPackage (package : IoTPackage) (sorIp desIp data : List Byte) (dataLength : ℤ) :
    Exec IoTPackage := do
  let ver ← CharArray.ofText VERSION_CHAR_SIZE CurrentVersion
  let sor ← CharArray.ofText IP_ADDR_SIZE sorIp
  let des ← CharArray.ofText IP_ADDR_SIZE desIp
  let copied ← readBlock data dataLength
  let strDataLength ← sprintfInt 10 dataLength
  let headerLength : ℤ := CurrentVersion.length + 1 + sorIp.length + 1 + desIp.length + 1 +
    strDataLength.length + 1
  .ok { package with
    ver := ver
    verLength := CurrentVersion.length
    sorIp := ⟨sor, sorIp.length⟩
    desIp := ⟨des, desIp.length⟩
    dataLength := dataLength
    data := copied
    headerLength := addOwnDigits headerLength + 1 }

/-- `copy_iot_package`; `dest` is the block before anything is stored in it. -/
def copyIotPackage (dest source : IoTPackage) : Exec IoTPackage := do
  let sorIp ← source.sorIp.ip.text
  let desIp ← source.desIp.ip.text
  createPackage dest sorIp desIp source.data source.dataLength

/-- `strcmp(des_ip.ip, "0") == 0 && strcmp(sor_ip.ip, "0") == 0`. -/
def isIpRequest (packageInfo : IoTPackage) : Exec Bool := do
  let desIp ← packageInfo.desIp.ip.text
  if desIp = ascii "0" then do
    let sorIp ← packageInfo.sorIp.ip.text
    .ok (decide (sorIp = ascii "0"))
  else .ok false

/-- `for (i = 0; i < n; i++) { buffer[offset] = src[i]; offset++; }`. -/
def put (state : List Byte × ℕ) (src : List Byte) (n : ℤ) : Exec (List Byte × ℕ) := do
  let buffer ← copyLoop src n.toNat 0 state.2 state.1
  .ok (buffer, state.2 + n.toNat)

/-- `encode_package`: the written buffer and the returned offset. -/
def encodePackage (buffer : List Byte) (packageInfo : IoTPackage) : Exec (List Byte × ℕ) := do
  let s ← put (buffer, 0) packageInfo.ver.bytes packageInfo.verLength
  let s ← put s [SplitSymble] 1
  let strHeadLen ← sprintfInt 5 packageInfo.headerLength
  let s ← put s strHeadLen strHeadLen.length
  let s ← put s [SplitSymble] 1
  let strDataLen ← sprintfInt 5 packageInfo.dataLength
  let s ← put s strDataLen strDataLen.length
  let s ← put s [SplitSymble] 1
  let s ← put s packageInfo.sorIp.ip.bytes packageInfo.sorIp.ipLength
  let s ← put s [SplitSymble] 1
  let s ← put s packageInfo.desIp.ip.bytes packageInfo.desIp.ipLength
  let s ← put s [SplitSymble] 1
  let s ← put s packageInfo.data packageInfo.dataLength
  let summed ← readLoop s.1 s.2 0
  let s ← put s [CarrySum.highByte (CarrySum.folded summed)] 1
  put s [CarrySum.lowByte (CarrySum.folded summed)] 1

/-- The five header fields as `encode_package` renders them. -/
def headerFields (p : IoTPackage) : List (List Byte) :=
  [p.ver.bytes.take p.verLength.toNat, DecimalText.ofInt p.headerLength,
    DecimalText.ofInt p.dataLength, p.sorIp.ip.bytes.take p.sorIp.ipLength.toNat,
    p.desIp.ip.bytes.take p.desIp.ipLength.toNat]

/-- Everything the checksum covers. -/
def summedBytes (p : IoTPackage) : List Byte :=
  Delimited.joinFields SplitSymble (headerFields p) ++ p.data.take p.dataLength.toNat

def checksumBytes (summed : List Byte) : List Byte :=
  [CarrySum.highByte (CarrySum.folded summed), CarrySum.lowByte (CarrySum.folded summed)]

theorem checksumBytes_injective {summed summed' : List Byte}
    (h : checksumBytes summed = checksumBytes summed') :
    CarrySum.folded summed = CarrySum.folded summed' := by
  simp only [checksumBytes, List.cons.injEq, and_true] at h
  rw [← CarrySum.joinBytes_split _ (CarrySum.folded_lt summed), h.1, h.2,
    CarrySum.joinBytes_split _ (CarrySum.folded_lt summed')]

def wireBytes (p : IoTPackage) : List Byte :=
  summedBytes p ++ checksumBytes (summedBytes p)

/-- What `encode_package` needs to stay inside every array it touches. -/
structure Encodable (capacity : ℕ) (p : IoTPackage) : Prop where
  ver : p.verLength.toNat ≤ VERSION_CHAR_SIZE
  headLen : (DecimalText.ofInt p.headerLength).length ≤ 4
  dataLen : (DecimalText.ofInt p.dataLength).length ≤ 4
  sor : p.sorIp.ipLength.toNat ≤ IP_ADDR_SIZE
  des : p.desIp.ipLength.toNat ≤ IP_ADDR_SIZE
  data : p.dataLength.toNat ≤ p.data.length
  fits : (wireBytes p).length ≤ capacity

/-- The buffer after the bytes `out` have been written from its start on. -/
def written (buffer out : List Byte) : List Byte × ℕ := (splice buffer 0 out, out.length)

theorem put_written (buffer out src : List Byte) (n : ℤ) (s : List Byte × ℕ)
    (hout : out.length ≤ buffer.length) :
    put (written buffer out) src n = .ok s ↔
      n.toNat ≤ src.length ∧ out.length + n.toNat ≤ buffer.length ∧
        s = written buffer (out ++ src.take n.toNat) :=
  putLoop_writtenFront buffer out src n s hout

theorem written_nil (buffer : List Byte) : (buffer, 0) = written buffer [] := by
  simp [written]

theorem readLoop_written (buffer out : List Byte) (hout : out.length ≤ buffer.length) :
    readLoop (written buffer out).1 (written buffer out).2 0 = .ok out := by
  have hlen : (splice buffer 0 out).length = buffer.length := splice_length _ _ _ (by omega)
  have hread := readLoop_eq (splice buffer 0 out) out.length 0 (by omega)
  rw [Int.natCast_zero] at hread
  have htake := take_splice buffer 0 out (by omega)
  simp only [Nat.zero_add, List.take_zero, List.nil_append] at htake
  rw [written, hread, List.drop_zero, htake]

theorem written_take (buffer out : List Byte) :
    (written buffer out).1.take (written buffer out).2 = out :=
  writtenFront_take buffer out

theorem put_one (buffer out : List Byte) (c : Byte) (s : List Byte × ℕ)
    (hout : out.length ≤ buffer.length) :
    put (written buffer out) [c] 1 = .ok s ↔
      out.length + 1 ≤ buffer.length ∧ s = written buffer (out ++ [c]) := by
  rw [put_written buffer out [c] 1 s hout]
  simp

private theorem put_field_bind {β : Type} (buffer out src : List Byte) (n : ℤ)
    (f : List Byte × ℕ → Exec β) (b : β) (hout : out.length ≤ buffer.length) :
    (do let s ← put (written buffer out) src n
        let s ← put s [SplitSymble] 1
        f s) = .ok b ↔
      n.toNat ≤ src.length ∧
        (out ++ (src.take n.toNat ++ [SplitSymble])).length ≤ buffer.length ∧
        f (written buffer (out ++ (src.take n.toNat ++ [SplitSymble]))) = .ok b := by
  rw [← List.append_assoc, List.length_append, List.length_append, List.length_take,
    List.length_singleton]
  constructor
  · intro h
    obtain ⟨s, hs, h⟩ := bind_eq_ok.mp h
    obtain ⟨hsrc, hdst, rfl⟩ := (put_written buffer out src n s hout).mp hs
    have hlen : (out ++ src.take n.toNat).length = out.length + n.toNat := by
      simp only [List.length_append, List.length_take]
      omega
    obtain ⟨s, hs, h⟩ := bind_eq_ok.mp h
    obtain ⟨hdst, rfl⟩ := (put_one buffer _ SplitSymble s (by omega)).mp hs
    exact ⟨hsrc, by omega, h⟩
  · rintro ⟨hsrc, hdst, h⟩
    have hlen : (out ++ src.take n.toNat).length = out.length + n.toNat := by
      simp only [List.length_append, List.length_take]
      omega
    refine bind_eq_ok.mpr ⟨_, (put_written buffer out src n _ hout).mpr ⟨hsrc, by omega, rfl⟩, ?_⟩
    exact bind_eq_ok.mpr ⟨_, (put_one buffer _ SplitSymble _ (by omega)).mpr ⟨by omega, rfl⟩, h⟩

private theorem put_text_bind {β : Type} (buffer out : List Byte) (x : ℤ)
    (f : List Byte × ℕ → Exec β) (b : β) (hout : out.length ≤ buffer.length) :
    (do let text ← sprintfInt 5 x
        let s ← put (written buffer out) text text.length
        let s ← put s [SplitSymble] 1
        f s) = .ok b ↔
      (DecimalText.ofInt x).length ≤ 4 ∧
        (out ++ (DecimalText.ofInt x ++ [SplitSymble])).length ≤ buffer.length ∧
        f (written buffer (out ++ (DecimalText.ofInt x ++ [SplitSymble]))) = .ok b := by
  have hfield := put_field_bind buffer out (DecimalText.ofInt x) (DecimalText.ofInt x).length f b hout
  simp only [Int.toNat_natCast, le_refl, List.take_length, true_and] at hfield
  constructor
  · intro h
    obtain ⟨text, htext, h⟩ := bind_eq_ok.mp h
    obtain ⟨hlen, rfl⟩ := sprintfInt_eq_ok.mp htext
    exact ⟨by omega, hfield.mp h⟩
  · rintro ⟨hlen, h⟩
    exact bind_eq_ok.mpr ⟨_, sprintfInt_eq_ok.mpr ⟨by omega, rfl⟩, hfield.mpr h⟩

/-- The end of `encode_package`: the checksum behind what has been written. -/
private theorem put_checksum (buffer out : List Byte) (s : List Byte × ℕ)
    (hout : out.length ≤ buffer.length) :
    (do let summed ← readLoop (written buffer out).1 (written buffer out).2 0
        let s ← put (written buffer out) [CarrySum.highByte (CarrySum.folded summed)] 1
        put s [CarrySum.lowByte (CarrySum.folded summed)] 1) = .ok s ↔
      (out ++ checksumBytes out).length ≤ buffer.length ∧
        s = written buffer (out ++ checksumBytes out) := by
  have hbytes : out ++ checksumBytes out = out ++ [CarrySum.highByte (CarrySum.folded out)] ++
      [CarrySum.lowByte (CarrySum.folded out)] := by
    rw [checksumBytes, List.append_assoc]
    rfl
  rw [readLoop_written buffer out hout, ok_bind, hbytes]
  constructor
  · intro h
    obtain ⟨s', hs, h⟩ := bind_eq_ok.mp h
    obtain ⟨hhigh, rfl⟩ := (put_one buffer out _ s' hout).mp hs
    obtain ⟨hlow, rfl⟩ := (put_one buffer _ _ s (by
      rw [List.length_append]
      exact hhigh)).mp h
    exact ⟨by rwa [List.length_append, List.length_singleton], rfl⟩
  · rintro ⟨hfits, rfl⟩
    rw [List.length_append, List.length_singleton] at hfits
    have hhigh := hfits
    rw [List.length_append, List.length_singleton] at hhigh
    refine bind_eq_ok.mpr ⟨_, (put_one buffer out _ _ hout).mpr ⟨by omega, rfl⟩, ?_⟩
    exact (put_one buffer _ _ _ (by omega)).mpr ⟨hfits, rfl⟩

/-- `encode_package` ends exactly when nothing it writes leaves its array, and then it
has written the wire bytes to the front of the buffer and returned their number. -/
theorem encodePackage_eq_ok (buffer : List Byte) (p : IoTPackage) (s : List Byte × ℕ) :
    encodePackage buffer p = .ok s ↔
      Encodable buffer.length p ∧ s = written buffer (wireBytes p) := by
  have hbody : summedBytes p =
      [] ++ (p.ver.bytes.take p.verLength.toNat ++ [SplitSymble]) ++
        (DecimalText.ofInt p.headerLength ++ [SplitSymble]) ++
        (DecimalText.ofInt p.dataLength ++ [SplitSymble]) ++
        (p.sorIp.ip.bytes.take p.sorIp.ipLength.toNat ++ [SplitSymble]) ++
        (p.desIp.ip.bytes.take p.desIp.ipLength.toNat ++ [SplitSymble]) ++
        p.data.take p.dataLength.toNat := by
    simp [summedBytes, headerFields, Delimited.joinFields]
  have hver := p.ver.size
  have hsor := p.sorIp.ip.size
  have hdes := p.desIp.ip.size
  unfold encodePackage
  rw [written_nil]
  constructor
  · intro h
    obtain ⟨h1, hb1, h⟩ := (put_field_bind buffer _ _ _ _ _ (Nat.zero_le _)).mp h
    obtain ⟨h2, hb2, h⟩ := (put_text_bind buffer _ _ _ _ hb1).mp h
    obtain ⟨h3, hb3, h⟩ := (put_text_bind buffer _ _ _ _ hb2).mp h
    obtain ⟨h4, hb4, h⟩ := (put_field_bind buffer _ _ _ _ _ hb3).mp h
    obtain ⟨h5, hb5, h⟩ := (put_field_bind buffer _ _ _ _ _ hb4).mp h
    obtain ⟨s6, hs6, h⟩ := bind_eq_ok.mp h
    obtain ⟨h6, hb6, rfl⟩ := (put_written buffer _ _ _ _ hb5).mp hs6
    have hb7 : (summedBytes p).length ≤ buffer.length := by
      rw [hbody, List.length_append, List.length_take]
      omega
    rw [← hbody] at h
    obtain ⟨hfits, rfl⟩ := (put_checksum buffer _ _ hb7).mp h
    exact ⟨⟨by omega, h2, h3, by omega, by omega, h6, hfits⟩, rfl⟩
  · rintro ⟨henc, rfl⟩
    have hb7 : (summedBytes p).length ≤ buffer.length :=
      (List.prefix_append _ _).length_le.trans henc.fits
    have hb6 := hb7
    rw [hbody] at hb6
    have hb5 := (List.prefix_append _ _).length_le.trans hb6
    have hb4 := (List.prefix_append _ _).length_le.trans hb5
    have hb3 := (List.prefix_append _ _).length_le.trans hb4
    have hb2 := (List.prefix_append _ _).length_le.trans hb3
    have hb1 := (List.prefix_append _ _).length_le.trans hb2
    refine (put_field_bind buffer _ _ _ _ _ (Nat.zero_le _)).mpr ⟨henc.ver.trans_eq hver.symm, hb1, ?_⟩
    refine (put_text_bind buffer _ _ _ _ hb1).mpr ⟨henc.headLen, hb2, ?_⟩
    refine (put_text_bind buffer _ _ _ _ hb2).mpr ⟨henc.dataLen, hb3, ?_⟩
    refine (put_field_bind buffer _ _ _ _ _ hb3).mpr ⟨henc.sor.trans_eq hsor.symm, hb4, ?_⟩
    refine (put_field_bind buffer _ _ _ _ _ hb4).mpr ⟨henc.des.trans_eq hdes.symm, hb5, ?_⟩
    have hdata := henc.data
    refine bind_eq_ok.mpr ⟨_, (put_written buffer _ _ _ _ hb5).mpr ⟨hdata, ?_, rfl⟩, ?_⟩
    · rw [List.length_append, List.length_take] at hb6
      omega
    · rw [← hbody]
      exact (put_checksum buffer _ _ hb7).mpr ⟨henc.fits, rfl⟩

end IoTRepublic.Package
