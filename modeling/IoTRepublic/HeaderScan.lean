import IoTRepublic.PackageReader

/-!
The header test and the scan of the header. `isCompleteHeader` looks only at
the bytes it was told of and accepts those that begin with five closed fields.
The five loops of `decode_only_header` then stop at the five separators, unless
a field is longer than the scratch array it is copied to.
-/
namespace IoTRepublic.HeaderScan

open CheckedArray Package PackageReader

/-- Where the next `n` loops of `decode_only_header` stop, with the buffer from `idx` on. -/
def scanStops : ℕ → List Byte → ℕ → Exec (List ℕ)
  | 0, _, _ => .ok []
  | n + 1, buffer, idx => do
    let (field, behind) ← scanField buffer 0
    let stops ← scanStops n behind (idx + field.length + 1)
    .ok ((idx + field.length) :: stops)

/-- Where the separators behind the fields stand. -/
def separators : ℕ → List (List Byte) → List ℕ
  | _, [] => []
  | idx, field :: fields => (idx + field.length) :: separators (idx + field.length + 1) fields

/-- The loops are the ones of `decode_only_header`. -/
theorem scanStops_of_decodes {buffer : List Byte} {p q : IoTPackage}
    (h : decodeOnlyHeader buffer p = .ok q) : ∃ stops, scanStops 5 buffer 0 = .ok stops := by
  obtain ⟨version, hversion, h⟩ := bind_eq_ok.mp h
  obtain ⟨ver, -, h⟩ := bind_eq_ok.mp h
  obtain ⟨headLen, hheadLen, h⟩ := bind_eq_ok.mp h
  obtain ⟨headerLength, -, h⟩ := bind_eq_ok.mp h
  obtain ⟨dataLen, hdataLen, h⟩ := bind_eq_ok.mp h
  obtain ⟨dataLength, -, h⟩ := bind_eq_ok.mp h
  obtain ⟨source, hsource, h⟩ := bind_eq_ok.mp h
  obtain ⟨sor, -, h⟩ := bind_eq_ok.mp h
  obtain ⟨destination, hdestination, -⟩ := bind_eq_ok.mp h
  simp only [scanStops, hversion, hheadLen, hdataLen, hsource, hdestination, ok_bind]
  exact ⟨_, rfl⟩

section

variable {fields : List (List Byte)} {rest : List Byte} {idx i : ℕ}

/-- Every loop stops at the separator behind its field, if the field fits the scratch array. -/
theorem scanStops_joinFields (hsep : ∀ field ∈ fields, SplitSymble ∉ field) (stops : List ℕ) :
    scanStops fields.length (Delimited.joinFields SplitSymble fields ++ rest) idx = .ok stops ↔
      (∀ field ∈ fields, field.length ≤ tempBufferSize) ∧ stops = separators idx fields := by
  induction fields generalizing idx stops with
  | nil => simp [scanStops, separators, eq_comm]
  | cons field fields ih =>
    obtain ⟨hfield, hfields⟩ := List.forall_mem_cons.mp hsep
    have hscan := scanField_append field (Delimited.joinFields SplitSymble fields ++ rest) 0 hfield
      (Nat.zero_le _)
    rw [Delimited.joinFields_cons, List.append_assoc, List.cons_append, List.length_cons,
      List.forall_mem_cons, separators]
    constructor
    · intro h
      obtain ⟨r, hr, h⟩ := bind_eq_ok.mp h
      obtain ⟨hfits, rfl⟩ := (hscan r).mp hr
      obtain ⟨stops', hstops, h⟩ := bind_eq_ok.mp h
      obtain rfl := Except.ok.inj h
      obtain ⟨hrest, rfl⟩ := (ih hfields stops').mp hstops
      exact ⟨⟨hfits, hrest⟩, rfl⟩
    · rintro ⟨⟨hfits, hrest⟩, rfl⟩
      refine bind_eq_ok.mpr ⟨_, (hscan _).mpr ⟨hfits, rfl⟩, ?_⟩
      exact bind_eq_ok.mpr ⟨_, (ih hfields _).mpr ⟨hrest, rfl⟩, rfl⟩

/-- The separators stand inside the fields that they close. -/
theorem separators_inside (rest : List Byte) (hi : i ∈ separators idx fields) :
    idx ≤ i ∧ i < idx + (Delimited.joinFields SplitSymble fields).length ∧
      (Delimited.joinFields SplitSymble fields ++ rest)[i - idx]? = some SplitSymble := by
  induction fields generalizing idx with
  | nil => cases hi
  | cons field fields ih =>
    have hlength := Delimited.length_joinFields_cons SplitSymble field fields
    rcases List.mem_cons.mp hi with rfl | hi
    · refine ⟨Nat.le_add_right _ _, by omega, ?_⟩
      rw [Nat.add_sub_cancel_left, Delimited.joinFields_cons]
      simp
    · obtain ⟨hle, hlt, hget⟩ := ih hi
      refine ⟨by omega, by omega, ?_⟩
      obtain ⟨k, rfl⟩ := Nat.exists_eq_add_of_le hle
      have hindex : idx + field.length + 1 + k - idx = field.length + (k + 1) := by omega
      rw [Nat.add_sub_cancel_left] at hget
      rw [hindex, Delimited.joinFields_cons, List.append_assoc,
        List.getElem?_append_right (Nat.le_add_right _ _), Nat.add_sub_cancel_left]
      exact hget

end

theorem headerLoop_take (n : ℕ) (rest : List Byte) {idx : ℕ} (count dataCount : ℕ) (hidx : idx < n) :
    headerLoop n rest idx count dataCount =
      headerLoop n (rest.take (n - idx)) idx count dataCount := by
  induction rest generalizing idx count dataCount with
  | nil => rw [List.take_nil]
  | cons c rest ih =>
    obtain ⟨k, hk⟩ : ∃ k, n - idx = k + 1 := ⟨n - idx - 1, by omega⟩
    have hnext : ∀ count' dataCount', (if (idx + 1 : ℤ) ≥ n then Except.ok false
        else headerLoop n rest (idx + 1) count' dataCount') =
          if (idx + 1 : ℤ) ≥ n then Except.ok false
          else headerLoop n (rest.take k) (idx + 1) count' dataCount' := by
      intro count' dataCount'
      split
      · rfl
      · have hstep := ih count' dataCount' (show idx + 1 < n by omega)
        have hless : n - (idx + 1) = k := by omega
        rwa [hless] at hstep
    rw [hk, List.take_succ_cons, headerLoop, headerLoop, hnext, hnext]

/-- Only the first `n` bytes are looked at. -/
theorem isCompleteHeader_take (buffer : List Byte) {n : ℕ} (hn : 1 ≤ n) :
    isCompleteHeader buffer n = isCompleteHeader (buffer.take n) n := by
  have hloop := headerLoop_take n buffer 0 0 (Nat.lt_of_succ_le hn)
  rw [Nat.sub_zero] at hloop
  cases buffer with
  | nil => rw [List.take_nil]
  | cons c rest =>
    obtain ⟨k, rfl⟩ : ∃ k, n = k + 1 := ⟨n - 1, by omega⟩
    have hread : ∀ tail : List Byte, readAt (c :: tail) 0 = .ok c :=
      fun tail => readAt_natCast (c :: tail) 0 c rfl
    rw [List.take_succ_cons] at hloop ⊢
    rw [isCompleteHeader, isCompleteHeader, hread, hread, ok_bind, ok_bind, hloop]

/-- The test of the first `n` bytes of a buffer and the scan behind it. -/
structure ScansRight (buffer : List Byte) (n : ℕ) : Prop where
  accepts : isCompleteHeader buffer n = .ok true ↔ ∃ h : Header, h.bytes <+: buffer.take n
  below : isCompleteHeader buffer n = isCompleteHeader (buffer.take n) n ∧
    (n ≤ buffer.length → ∃ b, isCompleteHeader (buffer.take n) n = .ok b)
  stops : isCompleteHeader buffer n = .ok true → ∃ h : Header, h.bytes <+: buffer.take n ∧
    scanStops 5 buffer 0 = .ok (separators 0 h.fields) ∧
      ∀ i ∈ separators 0 h.fields, i < n ∧ buffer[i]? = some SplitSymble

section

variable {buffer : List Byte} {n : ℕ} {h h' : Header}

theorem isCompleteHeader_iff (hn : 1 ≤ n) :
    isCompleteHeader buffer n = .ok true ↔ ∃ h : Header, h.bytes <+: buffer.take n := by
  rw [isCompleteHeader_eq_true buffer n (by omega)]
  constructor
  · rintro ⟨h, rest, hbuffer, hlength⟩
    exact ⟨h, List.prefix_take_iff.mpr ⟨⟨rest, hbuffer.symm⟩, by omega⟩⟩
  · rintro ⟨h, hfront⟩
    obtain ⟨⟨rest, hbuffer⟩, hlength⟩ := List.prefix_take_iff.mp hfront
    exact ⟨h, rest, hbuffer.symm, by omega⟩

/-- A text begins with one header at most. -/
theorem fields_of_front (hfront : h.bytes <+: buffer) (hfront' : h'.bytes <+: buffer) :
    h.fields = h'.fields := by
  obtain ⟨rest, hrest⟩ := hfront
  obtain ⟨rest', hrest'⟩ := hfront'
  exact (Delimited.fields_unique h.fields h'.fields rfl h.isFields.sep_notMem
    h'.isFields.sep_notMem (hrest.trans hrest'.symm)).1

theorem field_length_le {field : List Byte} (hfield : field ∈ h.fields) :
    field.length ≤ h.bytes.length := by
  rw [Header.bytes, Delimited.joinFields, List.length_flatMap]
  have hmem := List.mem_map_of_mem (f := fun field => (field ++ [SplitSymble]).length) hfield
  have hle := List.le_sum_of_mem hmem
  rw [List.length_append] at hle
  omega

/-- For every buffer and every length of at least 1: the header test accepts exactly the buffers
that begin with five closed fields and looks at the bytes below the length only, and where it
accepts, the five loops stop at the five separators, exactly if no field of such a header is
longer than the scratch array. -/
theorem scansRight_iff (buffer : List Byte) (n : ℕ) (hn : 1 ≤ n) : ScansRight buffer n ↔
    ∀ h : Header, h.bytes <+: buffer.take n → ∀ field ∈ h.fields, field.length ≤ 200 := by
  have hscan : ∀ h : Header, h.bytes <+: buffer.take n → ∀ stops,
      scanStops 5 buffer 0 = .ok stops ↔
        (∀ field ∈ h.fields, field.length ≤ tempBufferSize) ∧ stops = separators 0 h.fields := by
    intro h hfront stops
    obtain ⟨⟨rest, rfl⟩, -⟩ := List.prefix_take_iff.mp hfront
    exact scanStops_joinFields h.isFields.sep_notMem stops
  constructor
  · rintro ⟨haccepts, -, hstops⟩ h hfront
    obtain ⟨h', hfront', hstop, -⟩ := hstops (haccepts.mpr ⟨h, hfront⟩)
    rw [fields_of_front hfront hfront']
    exact ((hscan h' hfront' _).mp hstop).1
  · intro hshort
    refine ⟨isCompleteHeader_iff hn, ⟨isCompleteHeader_take buffer hn, fun hlength => ?_⟩, ?_⟩
    · exact isCompleteHeader_total _ _ (by omega) (by rw [List.length_take]; omega)
    · intro hcomplete
      obtain ⟨h, hfront⟩ := (isCompleteHeader_iff hn).mp hcomplete
      refine ⟨h, hfront, (hscan h hfront _).mpr ⟨hshort h hfront, rfl⟩, ?_⟩
      intro i hi
      obtain ⟨⟨rest, rfl⟩, hlength⟩ := List.prefix_take_iff.mp hfront
      obtain ⟨-, hlt, hget⟩ := separators_inside rest hi
      rw [Nat.zero_add] at hlt
      rw [Nat.sub_zero] at hget
      exact ⟨lt_of_lt_of_le hlt hlength, hget⟩

end

/-- The header of a package of one byte. -/
theorem scansRight_header : ScansRight (ascii "IUDP1.0" ++ 0 :: (ascii "21" ++ 0 :: (ascii "1" ++
    0 :: (ascii "A" ++ 0 :: (ascii "B" ++ [0]))))) 17 := by
  refine (scansRight_iff _ 17 (by decide)).mpr fun h hfront field hfield => ?_
  have hle := (field_length_le hfield).trans hfront.length_le
  exact hle.trans (by decide)

/-- A header whose version has 201 characters. -/
def longHeader : List Byte :=
  CurrentVersion ++ List.replicate 194 65 ++ 0 :: (ascii "1" ++ 0 :: (ascii "1" ++ 0 ::
    (ascii "A" ++ 0 :: (ascii "B" ++ [0]))))

/-- The header is accepted, and the first loop runs out of its array. -/
theorem longHeader_overflows :
    isVaildPackage longHeader 210 = .ok true ∧ isCompleteHeader longHeader 210 = .ok true ∧
    scanStops 5 longHeader 0 = .error .writeOutside ∧
    decodeOnlyHeader longHeader generateIotPackage = .error .writeOutside := by
  refine ⟨?_, ?_, ?_, ?_⟩ <;> decide +kernel

end IoTRepublic.HeaderScan
