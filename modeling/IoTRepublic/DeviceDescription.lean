import IoTRepublic.SerialFrame
import Mathlib.Algebra.Ring.Int.Defs

/-!
A device sends its description. The device keeps the text in its EEPROM, sends
it in rows between a start code and a 16-bit sum, and closes the frame with the
end code, which it stores in a cell behind the array of the sum. The broker takes
the frame apart and adds the text up in 32 bits. The two bytes of the sum stand
inside the frame like any other bytes.
-/
namespace IoTRepublic.DeviceDescription

open CheckedArray Package PackageReader CarrySum SerialFrame

/-- `int` has 16 bits on the device. -/
def combineInt (high low : Byte) : ℤ :=
  let result : ℤ := joinBytes high low
  if result < 2 ^ 15 then result else result - 2 ^ 16

abbrev maxBufSize : ℕ := 60

/-- One row of `n` bytes and the 16-bit sum after it. -/
def sendRow (eeprom : ℕ → Byte) : ℕ → ℕ → ℤ → List Byte × ℤ
  | 0, _, sum => ([], sum)
  | n + 1, addr, sum =>
    let (row, sum) := sendRow eeprom n (addr + 1) ((sum + charValue (eeprom addr)) % 2 ^ 16)
    (eeprom addr :: row, sum)

/-- The rows until nothing is left; every round sends at least one byte. -/
def sendRows (eeprom : ℕ → Byte) : ℕ → ℕ → ℕ → ℤ → List Byte × ℤ
  | 0, _, _, sum => ([], sum)
  | fuel + 1, left, addr, sum =>
    if left = 0 then ([], sum)
    else
      let sendLength := min left maxBufSize
      let (row, sum) := sendRow eeprom sendLength addr sum
      let (rows, sum) := sendRows eeprom fuel (left - sendLength) (addr + sendLength) sum
      (row ++ rows, sum)

/-- The bytes written to the link. The array `checksum` has two cells, `behind` are those that
follow it in the memory: the end code is stored in the first of them and sent from there. -/
def sendDeviceDescription (eeprom : ℕ → Byte) (behind : List Byte) : Exec (List Byte) := do
  let descriptionLen := (combineInt (eeprom 0) (eeprom 1)).toNat
  let (rows, sum) := sendRows eeprom descriptionLen descriptionLen 2 0
  let checksum ← writeAt ([0, 0] ++ behind) 0 (highByte sum.toNat)
  let checksum ← writeAt checksum 1 (lowByte sum.toNat)
  let checksum ← writeAt checksum 2 endCode
  let written ← readLoop checksum 3 0
  .ok (startCode :: (rows ++ written))

/-- `unsigned int` has 32 bits on the broker. -/
def checkSum (buf : List Byte) (len : ℤ) (sendedSum : ℕ) : Exec RecvResult := do
  let bytes ← readLoop buf len.toNat 0
  let sum := bytes.foldl (fun sum c => (sum + charValue c) % 2 ^ 32) (0 : ℤ)
  .ok (if (sendedSum : ℤ) = sum then .noerror else .checksumError)

/-- What `ble_dev_register` and `XBee_at_dev_register` do with a completed frame. -/
def registerCheck (buf : List Byte) (len : ℤ) : Exec RecvResult := do
  let high ← readAt buf (len - 2)
  let low ← readAt buf (len - 1)
  checkSum buf (len - 2) (joinBytes high low)

/-- The description as the device's EEPROM holds it. -/
structure Stores (eeprom : ℕ → Byte) (d : List Byte) : Prop where
  length : combineInt (eeprom 0) (eeprom 1) = d.length
  text : ∀ i, (hi : i < d.length) → eeprom (2 + i) = d[i]

def sumOf (d : List Byte) : ℕ := (d.map UInt8.toNat).sum

/-- The broker ends with the description whole and its sum found right. -/
structure Transferred (d : List Byte) (received : Exec Received) : Prop where
  whole : ∃ buf len, received = .ok ⟨.completed, buf, len⟩ ∧
    registerCheck buf len = .ok .noerror ∧ (d.length : ℤ) = len - 2 ∧ buf.take d.length = d

/-- The bytes of the EEPROM from an address on. -/
def stored (eeprom : ℕ → Byte) (addr n : ℕ) : List Byte := (List.range' addr n).map eeprom

def charSum (text : List Byte) : ℤ := (text.map charValue).sum

theorem charSum_append (text text' : List Byte) :
    charSum (text ++ text') = charSum text + charSum text' := by
  simp [charSum]

theorem stored_append (eeprom : ℕ → Byte) (addr n m : ℕ) :
    stored eeprom addr (n + m) = stored eeprom addr n ++ stored eeprom (addr + n) m := by
  simp only [stored, ← List.map_append, List.range'_append_1]

theorem sendRow_eq (eeprom : ℕ → Byte) (n addr : ℕ) (sum : ℤ) (h0 : 0 ≤ sum) (h1 : sum < 2 ^ 16) :
    sendRow eeprom n addr sum =
      (stored eeprom addr n, (sum + charSum (stored eeprom addr n)) % 2 ^ 16) := by
  induction n generalizing addr sum with
  | zero =>
    simp only [sendRow, stored, charSum, List.range'_zero, List.map_nil, List.sum_nil,
      Prod.mk.injEq, true_and]
    omega
  | succ n ih =>
    have hstep := ih (addr + 1) ((sum + charValue (eeprom addr)) % 2 ^ 16) (by omega) (by omega)
    rw [sendRow, hstep]
    simp only [stored, charSum, List.range'_succ, List.map_cons, List.sum_cons, Prod.mk.injEq,
      true_and]
    omega

theorem sendRows_eq (eeprom : ℕ → Byte) (fuel left addr : ℕ) (sum : ℤ) (hfuel : left ≤ fuel)
    (h0 : 0 ≤ sum) (h1 : sum < 2 ^ 16) :
    sendRows eeprom fuel left addr sum =
      (stored eeprom addr left, (sum + charSum (stored eeprom addr left)) % 2 ^ 16) := by
  have hnone : (([] : List Byte), sum) =
      (stored eeprom addr 0, (sum + charSum (stored eeprom addr 0)) % 2 ^ 16) := by
    simp only [stored, charSum, List.range'_zero, List.map_nil, List.sum_nil, Prod.mk.injEq,
      true_and]
    omega
  induction fuel generalizing left addr sum with
  | zero =>
    obtain rfl := Nat.le_zero.mp hfuel
    exact hnone
  | succ fuel ih =>
    by_cases hleft : left = 0
    · rw [sendRows, if_pos hleft, hleft]
      exact hnone
    · have hsplit := stored_append eeprom addr (min left maxBufSize)
        (left - min left maxBufSize)
      rw [Nat.add_sub_cancel' (Nat.min_le_left ..)] at hsplit
      have hmax : maxBufSize = 60 := rfl
      have hrow := sendRow_eq eeprom (min left maxBufSize) addr sum h0 h1
      have hrest := ih (left - min left maxBufSize) (addr + min left maxBufSize)
        ((sum + charSum (stored eeprom addr (min left maxBufSize))) % 2 ^ 16) (by omega) (by omega)
        (by omega) (by
          simp only [stored, charSum, List.range'_zero, List.map_nil, List.sum_nil,
            Prod.mk.injEq, true_and]
          omega)
      rw [sendRows, if_neg hleft]
      simp only [hrow, hrest, hsplit, charSum_append, Prod.mk.injEq, true_and]
      omega

/-- The frame of a description: its characters, their 16-bit sum and the end code. -/
def descriptionFrame (d : List Byte) : List Byte :=
  startCode :: (d ++
    [highByte (charSum d % 2 ^ 16).toNat, lowByte (charSum d % 2 ^ 16).toNat, endCode])

/-- The device sends the frame of the description it stores when the memory goes on behind the
array, and makes an access outside its memory otherwise. -/
theorem sendDeviceDescription_eq {eeprom : ℕ → Byte} {d : List Byte} (h : Stores eeprom d)
    (behind : List Byte) :
    sendDeviceDescription eeprom behind =
      if behind = [] then .error .writeOutside else .ok (descriptionFrame d) := by
  have hstored : stored eeprom 2 d.length = d := by
    apply List.ext_getElem
    · simp [stored]
    · intro i hi hi'
      simp only [stored, List.getElem_map, List.getElem_range', Nat.one_mul]
      exact h.text i hi'
  have hrows := sendRows_eq eeprom d.length d.length 2 0 le_rfl le_rfl (by omega)
  rw [hstored, Int.zero_add] at hrows
  rw [sendDeviceDescription, h.length, Int.toNat_natCast, hrows]
  cases behind with
  | nil => rfl
  | cons c behind => rfl

/-- The characters of a description. -/
def Printable (d : List Byte) : Prop := ∀ c ∈ d, 32 ≤ c ∧ c < 127

theorem charSum_printable {d : List Byte} (h : Printable d) : charSum d = sumOf d := by
  induction d with
  | nil => rfl
  | cons c d ih =>
    have hc : c < 128 := UInt8.lt_trans (h c (List.mem_cons_self ..)).2 (by decide)
    have hrest := ih (fun e he => h e (List.mem_cons_of_mem _ he))
    simp only [charSum, sumOf, List.map_cons, List.sum_cons, charValue, if_pos hc] at hrest ⊢
    rw [hrest]
    push_cast
    rfl

theorem sumOf_le {d : List Byte} (h : Printable d) : sumOf d ≤ 126 * d.length := by
  induction d with
  | nil => exact le_rfl
  | cons c d ih =>
    have hc : c.toNat < 127 := UInt8.lt_iff_toNat_lt.mp (h c (List.mem_cons_self ..)).2
    have hrest := ih (fun e he => h e (List.mem_cons_of_mem _ he))
    simp only [sumOf, List.map_cons, List.sum_cons, List.length_cons] at hrest ⊢
    omega

theorem endCode_notMem {d : List Byte} (h : Printable d) : endCode ∉ d :=
  fun hmem => absurd (h endCode hmem).1 (by decide)

theorem foldl_charSum (text : List Byte) (sum : ℤ) (h0 : 0 ≤ sum) (h1 : sum < 2 ^ 32) :
    text.foldl (fun sum c => (sum + charValue c) % 2 ^ 32) sum =
      (sum + charSum text) % 2 ^ 32 := by
  induction text generalizing sum with
  | nil =>
    simp only [List.foldl_nil, charSum, List.map_nil, List.sum_nil]
    omega
  | cons c text ih =>
    have hstep := ih ((sum + charValue c) % 2 ^ 32) (by omega) (by omega)
    rw [List.foldl_cons, hstep]
    simp only [charSum, List.map_cons, List.sum_cons]
    omega

/-- The check of a buffer that holds a description and two bytes behind it. -/
theorem registerCheck_eq {d : List Byte} (h : Printable d) (hshort : d.length ≤ 990)
    (high low : Byte) (behind : List Byte) :
    registerCheck (d ++ high :: low :: behind) (d.length + 2) =
      .ok (if joinBytes high low = sumOf d then .noerror else .checksumError) := by
  have hread := readLoop_eq (d ++ high :: low :: behind) d.length 0 (by simp)
  rw [Int.natCast_zero, List.drop_zero, List.take_left] at hread
  have hhigh : readAt (d ++ high :: low :: behind) (d.length : ℤ) = .ok high :=
    readAt_natCast _ _ _ (by simp)
  have hlow : readAt (d ++ high :: low :: behind) ((d.length + 1 : ℕ) : ℤ) = .ok low :=
    readAt_natCast _ _ _ (by simp)
  have hbound := sumOf_le h
  have hfold := foldl_charSum d 0 le_rfl (by omega)
  rw [charSum_printable h, Int.zero_add, Int.emod_eq_of_lt (by omega) (by omega)] at hfold
  have hstart : (d.length : ℤ) + 2 - 2 = d.length := by omega
  have hnext : (d.length : ℤ) + 2 - 1 = ((d.length + 1 : ℕ) : ℤ) := by omega
  rw [registerCheck, hstart, hnext, hhigh, ok_bind, hlow, ok_bind, checkSum, Int.toNat_natCast,
    hread, ok_bind, hfold]
  simp only [Int.natCast_inj]

section

variable {polls : List (List Byte)} {d buf : List Byte} {len : ℤ} {high low : Byte}

/-- A frame ends with the text whole and its sum found right exactly when neither byte of the
sum is the end code and the two bytes are the sum. -/
theorem transferred_iff (h : Printable d) (hshort : d.length ≤ 990)
    (hbuf : buf.length = MAXRECVBUFFER)
    (hcut : polls.flatten = startCode :: (d ++ [high, low, endCode])) :
    Transferred d (recvCommand polls buf len) ↔
      high ≠ endCode ∧ low ≠ endCode ∧ joinBytes high low = sumOf d := by
  have hmax : MAXRECVBUFFER = 1000 := rfl
  have hfits : polls.flatten.length ≤ MAXRECVBUFFER := by
    rw [hcut]
    simp only [List.length_cons, List.length_append, List.length_nil]
    omega
  have hno := endCode_notMem h
  by_cases hhigh : high = endCode
  · -- the frame ends in front of the low byte
    have hframe : polls.flatten = startCode :: d ++ endCode :: [low, endCode] := by
      rw [hcut, hhigh]
      simp
    refine ⟨?_, fun hsum => absurd hhigh hsum.1⟩
    rintro ⟨buf', len', hreceived, -, hlen, -⟩
    have hresult := ((recvCommand_eq_ok hframe hno (.inl hfits)).mp hreceived).2
    have hlen' : len' = d.length := congrArg Received.len hresult
    omega
  by_cases hlow : low = endCode
  · have hframe : polls.flatten = startCode :: (d ++ [high]) ++ endCode :: [endCode] := by
      rw [hcut, hlow]
      simp
    have hno' : endCode ∉ d ++ [high] := by simp [hno, Ne.symm hhigh]
    refine ⟨?_, fun hsum => absurd hlow hsum.2.1⟩
    rintro ⟨buf', len', hreceived, -, hlen, -⟩
    have hresult := ((recvCommand_eq_ok hframe hno' (.inl hfits)).mp hreceived).2
    have hlen' : len' = (d ++ [high]).length := congrArg Received.len hresult
    rw [List.length_append, List.length_singleton] at hlen'
    omega
  · have hframe : polls.flatten = startCode :: (d ++ [high, low]) ++ endCode :: [] := by
      rw [hcut]
      simp
    have hno' : endCode ∉ d ++ [high, low] := by simp [hno, Ne.symm hhigh, Ne.symm hlow]
    have hcopied : (d ++ [high, low]) ++ buf.drop (d ++ [high, low]).length =
        d ++ high :: low :: buf.drop (d ++ [high, low]).length := by
      simp
    have hlength : ((d ++ [high, low]).length : ℤ) = d.length + 2 := by simp
    have hreceive : recvCommand polls buf len = .ok ⟨.completed,
        d ++ high :: low :: buf.drop (d ++ [high, low]).length, d.length + 2⟩ := by
      apply (recvCommand_eq_ok hframe hno' (.inl hfits)).mpr
      rw [hcopied, hlength]
      refine ⟨?_, rfl⟩
      rw [hbuf]
      simp only [List.length_append, List.length_cons, List.length_nil]
      omega
    have hcheck := registerCheck_eq h hshort high low (buf.drop (d ++ [high, low]).length)
    constructor
    · rintro ⟨buf', len', hreceived, hregister, -, -⟩
      rw [hreceive] at hreceived
      obtain ⟨-, rfl, rfl⟩ := Received.mk.inj (Except.ok.inj hreceived)
      rw [hcheck] at hregister
      by_cases hsum : joinBytes high low = sumOf d
      · exact ⟨hhigh, hlow, hsum⟩
      · rw [if_neg hsum] at hregister
        cases hregister
    · rintro ⟨-, -, hsum⟩
      rw [if_pos hsum] at hcheck
      exact ⟨_, _, hreceive, hcheck, by omega, List.take_left⟩

end

theorem highByte_eq_endCode_iff (sum : ℕ) (h : sum < 2 ^ 16) :
    highByte sum = endCode ↔ sum / 256 = 3 := by
  rw [← UInt8.toNat_inj, highByte, UInt8.toNat_ofNat', endCode]
  have hcode : (3 : Byte).toNat = 3 := rfl
  omega

theorem lowByte_eq_endCode_iff (sum : ℕ) : lowByte sum = endCode ↔ sum % 256 = 3 := by
  rw [← UInt8.toNat_inj, lowByte, UInt8.toNat_ofNat', endCode]
  have hcode : (3 : Byte).toNat = 3 := rfl
  omega

/-- What a device sends for its description is the frame, provided that the store behind its
array hits a cell. The frame reaches the broker as the description exactly when the sum fits in
the device's 16 bits and neither byte of the sum is the end code. -/
theorem description_transfers (d : List Byte) (polls : List (List Byte)) (buf : List Byte) (len : ℤ)
    (hshort : d.length ≤ 990) (hprintable : Printable d) (hcut : polls.flatten = descriptionFrame d)
    (hbuf : buf.length = MAXRECVBUFFER) :
    (∀ eeprom behind, Stores eeprom d → sendDeviceDescription eeprom behind =
      if behind = [] then .error .writeOutside else .ok polls.flatten) ∧
    (Transferred d (recvCommandFromBleDevice polls buf len) ∧
        Transferred d (recvCommandFromEndDevice polls buf len) ↔
      sumOf d < 2 ^ 16 ∧ sumOf d / 256 ≠ 3 ∧ sumOf d % 256 ≠ 3) := by
  have hsum : (charSum d % 2 ^ 16).toNat = sumOf d % 2 ^ 16 := by
    rw [charSum_printable hprintable]
    omega
  refine ⟨fun eeprom behind hstores => hcut ▸ sendDeviceDescription_eq hstores behind, ?_⟩
  rw [descriptionFrame, hsum] at hcut
  have hmod : sumOf d % 2 ^ 16 < 2 ^ 16 := Nat.mod_lt _ (by omega)
  have htransferred : Transferred d (recvCommand polls buf len) ↔ _ :=
    transferred_iff hprintable hshort hbuf hcut
  rw [ne_eq, ne_eq, highByte_eq_endCode_iff _ hmod, lowByte_eq_endCode_iff,
    joinBytes_split _ hmod] at htransferred
  rw [recvCommandFromBleDevice, recvCommandFromEndDevice, and_self, htransferred]
  omega

/-- The EEPROM of a device with this description. -/
def eepromOf (d : List Byte) (addr : ℕ) : Byte :=
  if addr = 0 then highByte d.length
  else if addr = 1 then lowByte d.length
  else d.getD (addr - 2) 0

theorem combineInt_eq {high low : Byte} {n : ℕ} (hjoin : joinBytes high low = n)
    (h : (n : ℤ) < 2 ^ 15) : combineInt high low = n := by
  have hresult : combineInt high low = if (n : ℤ) < 2 ^ 15 then (n : ℤ) else n - 2 ^ 16 := by
    rw [← hjoin]
    rfl
  rw [hresult, if_pos h]

theorem stores_eepromOf (d : List Byte) (h : d.length < 2 ^ 15) : Stores (eepromOf d) d where
  length := by
    have hhigh : eepromOf d 0 = highByte d.length := if_pos rfl
    have hlow : eepromOf d 1 = lowByte d.length := by
      rw [eepromOf, if_neg one_ne_zero, if_pos rfl]
    rw [hhigh, hlow]
    exact combineInt_eq (joinBytes_split d.length (by omega)) (by omega)
  text := by
    intro i hi
    have hzero : 2 + i ≠ 0 := by omega
    have hone : 2 + i ≠ 1 := by omega
    rw [eepromOf, if_neg hzero, if_neg hone, Nat.add_sub_cancel_left,
      List.getD_eq_getElem?_getD, List.getElem?_eq_getElem hi, Option.getD_some]

theorem printable_light : Printable (ascii "light") := by
  have hall : (ascii "light").all (fun c => decide (32 ≤ c ∧ c < 127)) = true := by decide
  exact fun c hc => of_decide_eq_true (List.all_eq_true.mp hall c hc)

/-- The description `light`, whose sum is 536, in four polls. -/
theorem description_transfers_light :
    sendDeviceDescription (eepromOf (ascii "light")) [0] = .ok (descriptionFrame (ascii "light")) ∧
      Transferred (ascii "light") (recvCommandFromBleDevice
        [[2, 108, 105], [103, 104], [116, 2, 24], [3]] (List.replicate MAXRECVBUFFER 0) 0) ∧
      Transferred (ascii "light") (recvCommandFromEndDevice
        [[2, 108, 105], [103, 104], [116, 2, 24], [3]] (List.replicate MAXRECVBUFFER 0) 0) := by
  have hsum : sumOf (ascii "light") = 536 := by decide
  obtain ⟨hsent, htransferred⟩ := description_transfers (ascii "light")
    [[2, 108, 105], [103, 104], [116, 2, 24], [3]] (List.replicate MAXRECVBUFFER 0) 0 (by decide)
    printable_light (by decide) List.length_replicate
  exact ⟨hsent _ [0] (stores_eepromOf _ (by decide)), htransferred.mpr (by omega)⟩

/-- The text `!~d` adds up to 259: the low byte of the sum is the end code. -/
theorem description_cut :
    ∃ d eeprom polls, 1 ≤ d.length ∧ d.length ≤ 990 ∧ Printable d ∧ Stores eeprom d ∧
      (∀ c behind, sendDeviceDescription eeprom (c :: behind) = .ok polls.flatten) ∧
      ¬ Transferred d (recvCommandFromBleDevice polls (List.replicate MAXRECVBUFFER 0) 0) := by
  have hall : (ascii "!~d").all (fun c => decide (32 ≤ c ∧ c < 127)) = true := by decide
  have hprintable : Printable (ascii "!~d") :=
    fun c hc => of_decide_eq_true (List.all_eq_true.mp hall c hc)
  have hstores := stores_eepromOf (ascii "!~d") (by decide)
  have hcut : [descriptionFrame (ascii "!~d")].flatten =
      startCode :: (ascii "!~d" ++ [1, endCode, endCode]) := by
    decide
  refine ⟨ascii "!~d", eepromOf (ascii "!~d"), [descriptionFrame (ascii "!~d")], by decide,
    by decide, hprintable, hstores, fun c behind => ?_, ?_⟩
  · rw [sendDeviceDescription_eq hstores, if_neg (List.cons_ne_nil c behind),
      List.flatten_singleton]
  · intro htransferred
    exact ((transferred_iff hprintable (by decide) List.length_replicate hcut).mp
      htransferred).2.1 rfl

end IoTRepublic.DeviceDescription
