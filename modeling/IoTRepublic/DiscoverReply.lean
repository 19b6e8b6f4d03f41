import IoTRepublic.Management

/-!
When the manager can answer a discovery. The list of the registered devices is
written to an array of fixed size and then sent as one package, so the answer can
be made exactly when every address that is looked at ends in its array and the
list with its header fits.
-/
namespace IoTRepublic.DiscoverReply

open CheckedArray DecimalText Package CreatedPackage Manager Registry Forwarding Management

/-- The bytes of the list that are about one device. -/
def entryLength (wanted : IoTDeviceInfo → Bool) (source : List Byte) (device : IoTDeviceInfo) :
    ℕ :=
  match device.ip.text with
  | .error _ => 0
  | .ok ip =>
    if ip ≠ source ∧ wanted device ∧ device.funGroup ≠ ascii "UI" then
      ip.length + 1 + (device.devDesc.length + 1)
    else 0

def listLength (wanted : IoTDeviceInfo → Bool) (source : List Byte) :
    List (Option IoTDeviceInfo) → ℕ
  | [] => 0
  | none :: slots => listLength wanted source slots
  | some device :: slots => entryLength wanted source device + listLength wanted source slots

def answerLength (devices : Devices) (source ID : List Byte) : ℕ :=
  if ID = ascii "Dis_All" then listLength (fun _ => true) source (List.ofFn devices)
  else if ID = ascii "Dis_Pxd" then
    listLength (fun device => device.proxied = (1 : ℤ)) source (List.ofFn devices)
  else if ID = ascii "Dis_NPx" then
    listLength (fun device => device.proxied = (0 : ℤ)) source (List.ofFn devices)
  else 0

def IsListing (ID : List Byte) : Prop :=
  ID = ascii "Dis_All" ∨ ID = ascii "Dis_Pxd" ∨ ID = ascii "Dis_NPx"

def HasAddress (device : IoTDeviceInfo) : Prop := ∃ ip, device.ip.text = .ok ip

/-- The answer and its header, in which 22 bytes are neither the source nor digits of the
length, fit the array. -/
structure AnswerFits (devices : Devices) (source ID : List Byte) : Prop where
  addresses : IsListing ID → ∀ i device, devices i = some device → HasAddress device
  fits : 22 + source.length + (ofInt (answerLength devices source ID)).length +
    answerLength devices source ID ≤ maxDeviceListBuf

theorem putText_eq_ok {buffer text : List Byte} {offset : ℕ} {r : List Byte × ℕ} :
    putText buffer text offset = .ok r ↔
      offset + text.length + 1 ≤ buffer.length ∧
        r = ((splice buffer offset text).set (offset + text.length) SplitSymble,
          offset + text.length + 1) := by
  have hcopy : offset + text.length ≤ buffer.length →
      charcat buffer text offset text.length = .ok (splice buffer offset text) := by
    intro hroom
    have hloop := copyLoop_eq text text.length 0 offset buffer (by omega) hroom
    rw [List.drop_zero, List.take_length] at hloop
    rw [charcat, Int.toNat_natCast]
    exact hloop
  constructor
  · intro h
    obtain ⟨copied, hcopied, h⟩ := bind_eq_ok.mp h
    obtain ⟨out, hwrite, h⟩ := bind_eq_ok.mp h
    obtain ⟨-, hinside, rfl⟩ := writeAt_eq_ok.mp hwrite
    rw [Int.toNat_natCast] at hinside h
    have hroom : offset + text.length ≤ buffer.length := by
      rcases Nat.eq_zero_or_pos text.length with hzero | hpos
      · have hnil := List.length_eq_zero_iff.mp hzero
        subst hnil
        obtain rfl := Except.ok.inj hcopied
        rw [List.length_nil] at hinside ⊢
        omega
      · exact (copyLoop_bounds text text.length 0 offset buffer copied hcopied hpos).2
    rw [hcopy hroom] at hcopied
    obtain rfl := Except.ok.inj hcopied
    rw [splice_length _ _ _ hroom] at hinside
    exact ⟨hinside, (Except.ok.inj h).symm⟩
  · intro h
    obtain ⟨hroom, rfl⟩ := h
    have hwrite := writeAt_natCast (splice buffer offset text) (offset + text.length) SplitSymble
      (by rw [splice_length _ _ _ (by omega)]; omega)
    rw [putText, hcopy (by omega), ok_bind, hwrite, ok_bind]

theorem putText_length {buffer text : List Byte} {offset : ℕ} {r : List Byte × ℕ}
    (h : putText buffer text offset = .ok r) :
    r.1.length = buffer.length ∧ r.2 = offset + (text.length + 1) ∧ r.2 ≤ buffer.length := by
  obtain ⟨hroom, rfl⟩ := putText_eq_ok.mp h
  refine ⟨?_, rfl, hroom⟩
  rw [List.length_set, splice_length _ _ _ (by omega)]

theorem exists_putText {buffer text : List Byte} {offset : ℕ}
    (hroom : offset + (text.length + 1) ≤ buffer.length) :
    ∃ out, putText buffer text offset = .ok (out, offset + (text.length + 1)) ∧
      out.length = buffer.length := by
  have hput := putText_eq_ok.mpr ⟨hroom, rfl⟩
  exact ⟨_, hput, (putText_length hput).1⟩

section

variable {wanted : IoTDeviceInfo → Bool} {source ip : List Byte} {device : IoTDeviceInfo}
  {slots : List (Option IoTDeviceInfo)} {buffer : List Byte} {offset : ℕ}

theorem entryLength_listed (hip : device.ip.text = .ok ip)
    (hlisted : ip ≠ source ∧ wanted device ∧ device.funGroup ≠ ascii "UI") :
    entryLength wanted source device = ip.length + 1 + (device.devDesc.length + 1) := by
  unfold entryLength
  simp only [hip]
  rw [if_pos hlisted]

theorem entryLength_skipped (hip : device.ip.text = .ok ip)
    (hskipped : ¬ (ip ≠ source ∧ wanted device ∧ device.funGroup ≠ ascii "UI")) :
    entryLength wanted source device = 0 := by
  unfold entryLength
  simp only [hip]
  rw [if_neg hskipped]

/-- A list that was written had its addresses and its room. -/
theorem encodeDevices_length (hoffset : offset ≤ buffer.length) {r : List Byte × ℕ}
    (h : encodeDevices wanted source slots buffer offset = .ok r) :
    (∀ device, some device ∈ slots → HasAddress device) ∧
      r.2 = offset + listLength wanted source slots ∧ r.2 ≤ r.1.length ∧
      r.1.length = buffer.length := by
  induction slots generalizing buffer offset with
  | nil =>
    obtain rfl := Except.ok.inj h
    exact ⟨by simp, rfl, hoffset, rfl⟩
  | cons slot slots ih =>
    cases slot with
    | none =>
      obtain ⟨haddress, hrest⟩ := ih hoffset h
      exact ⟨by simpa using haddress, hrest⟩
    | some device =>
      obtain ⟨ip, hip, h⟩ := bind_eq_ok.mp h
      have hall : (∀ other, some other ∈ slots → HasAddress other) →
          ∀ other, some other ∈ some device :: slots → HasAddress other := by
        intro hothers other hmem
        rcases List.mem_cons.mp hmem with heq | hmem
        · rw [Option.some.inj heq]
          exact ⟨ip, hip⟩
        · exact hothers other hmem
      unfold listLength
      split at h
      · rename_i hlisted
        obtain ⟨⟨afterIp, offset'⟩, hputIp, h⟩ := bind_eq_ok.mp h
        obtain ⟨⟨afterDesc, offset''⟩, hputDesc, h⟩ := bind_eq_ok.mp h
        obtain ⟨hlen, hoffset', -⟩ := putText_length hputIp
        obtain ⟨hlen', hoffset'', hle⟩ := putText_length hputDesc
        dsimp only at hlen hoffset' hlen' hoffset'' hle h
        obtain ⟨haddress, hend, hinside, hsame⟩ := ih (by omega) h
        rw [entryLength_listed hip hlisted]
        exact ⟨hall haddress, by omega, hinside, by omega⟩
      · rename_i hskipped
        obtain ⟨haddress, hend, hinside, hsame⟩ := ih hoffset h
        rw [entryLength_skipped hip hskipped, Nat.zero_add]
        exact ⟨hall haddress, hend, hinside, hsame⟩

/-- A list with its addresses and its room is written. -/
theorem exists_encodeDevices (haddress : ∀ device, some device ∈ slots → HasAddress device)
    (hroom : offset + listLength wanted source slots ≤ buffer.length) :
    ∃ out, encodeDevices wanted source slots buffer offset =
      .ok (out, offset + listLength wanted source slots) ∧ out.length = buffer.length := by
  induction slots generalizing buffer offset with
  | nil => exact ⟨buffer, rfl, rfl⟩
  | cons slot slots ih =>
    have hothers : ∀ device, some device ∈ slots → HasAddress device :=
      fun device hmem => haddress device (List.mem_cons_of_mem slot hmem)
    cases slot with
    | none => exact ih hothers hroom
    | some device =>
      obtain ⟨ip, hip⟩ := haddress device List.mem_cons_self
      unfold listLength at hroom ⊢
      rw [encodeDevices, hip, ok_bind]
      by_cases hlisted : ip ≠ source ∧ wanted device ∧ device.funGroup ≠ ascii "UI"
      · rw [entryLength_listed hip hlisted] at hroom ⊢
        have hip' : ∃ out, putText buffer ip offset = .ok (out, offset + (ip.length + 1)) ∧
            out.length = buffer.length := exists_putText (by omega)
        obtain ⟨afterIp, hputIp, hlen⟩ := hip'
        have hdesc : ∃ out, putText afterIp device.devDesc (offset + (ip.length + 1)) =
            .ok (out, offset + (ip.length + 1) + (device.devDesc.length + 1)) ∧
            out.length = afterIp.length := exists_putText (by omega)
        obtain ⟨afterDesc, hputDesc, hlen'⟩ := hdesc
        have hroom' : offset + (ip.length + 1) + (device.devDesc.length + 1) +
            listLength wanted source slots ≤ afterDesc.length := by omega
        obtain ⟨out, hrest, hsame⟩ := ih hothers hroom'
        refine ⟨out, ?_, by omega⟩
        rw [if_pos hlisted, hputIp, ok_bind]
        dsimp only
        rw [hputDesc, ok_bind]
        dsimp only
        rw [hrest]
        simp only [Nat.add_assoc]
      · rw [entryLength_skipped hip hlisted, Nat.zero_add] at hroom ⊢
        rw [if_neg hlisted]
        exact ih hothers hroom

end

section

variable {devices : Devices} {source ID : List Byte}

/-- The list for the command, or the empty list. -/
def answerList (devices : Devices) (source ID : List Byte) : Exec (List Byte × ℕ) :=
  if ID = ascii "Dis_All" then
    encodeAllDevicesExceptOne devices (List.replicate maxDeviceListBuf 0) source
  else if ID = ascii "Dis_Pxd" then
    encodePxdDevicesExceptOne devices (List.replicate maxDeviceListBuf 0) source 1
  else if ID = ascii "Dis_NPx" then
    encodePxdDevicesExceptOne devices (List.replicate maxDeviceListBuf 0) source 0
  else .ok (List.replicate maxDeviceListBuf 0, 0)

/-- Each command that lists devices is one call of the same loop. -/
theorem answerList_eq (devices : Devices) (source : List Byte) (hlisting : IsListing ID) :
    ∃ wanted, answerLength devices source ID = listLength wanted source (List.ofFn devices) ∧
      answerList devices source ID = encodeDevices wanted source (List.ofFn devices)
        (List.replicate maxDeviceListBuf 0) 0 := by
  rcases hlisting with rfl | rfl | rfl
  · exact ⟨fun _ => true, rfl, rfl⟩
  · exact ⟨fun device => device.proxied = (1 : ℤ), rfl, rfl⟩
  · exact ⟨fun device => device.proxied = (0 : ℤ), rfl, rfl⟩

theorem answerList_other (devices : Devices) (source : List Byte) (hother : ¬ IsListing ID) :
    answerLength devices source ID = 0 ∧
      answerList devices source ID = .ok (List.replicate maxDeviceListBuf 0, 0) := by
  unfold IsListing at hother
  simp only [not_or] at hother
  obtain ⟨hall, hpxd, hnpx⟩ := hother
  unfold answerLength answerList
  simp only [hall, hpxd, hnpx, ↓reduceIte, and_self]

theorem mem_ofFn_iff {device : IoTDeviceInfo} :
    some device ∈ List.ofFn devices ↔ ∃ i, devices i = some device := by
  rw [List.mem_ofFn]

theorem answerList_length {r : List Byte × ℕ} (h : answerList devices source ID = .ok r) :
    (IsListing ID → ∀ i device, devices i = some device → HasAddress device) ∧
      r.2 = answerLength devices source ID ∧ r.2 ≤ r.1.length := by
  by_cases hlisting : IsListing ID
  · obtain ⟨wanted, hlength, hencode⟩ := answerList_eq devices source hlisting
    rw [hencode] at h
    obtain ⟨haddress, hend, hinside, -⟩ := encodeDevices_length (Nat.zero_le _) h
    rw [hlength, hend, Nat.zero_add]
    refine ⟨?_, rfl, by omega⟩
    intro _ i device hi
    exact haddress device (mem_ofFn_iff.mpr ⟨i, hi⟩)
  · obtain ⟨hlength, hencode⟩ := answerList_other devices source hlisting
    rw [hencode] at h
    obtain rfl := Except.ok.inj h
    exact ⟨fun h' => absurd h' hlisting, hlength.symm, Nat.zero_le _⟩

theorem exists_answerList
    (haddress : IsListing ID → ∀ i device, devices i = some device → HasAddress device)
    (hroom : answerLength devices source ID ≤ maxDeviceListBuf) :
    ∃ out, answerList devices source ID = .ok (out, answerLength devices source ID) ∧
      out.length = maxDeviceListBuf := by
  by_cases hlisting : IsListing ID
  · obtain ⟨wanted, hlength, hencode⟩ := answerList_eq devices source hlisting
    have hslots : ∀ device, some device ∈ List.ofFn devices → HasAddress device := by
      intro device hmem
      obtain ⟨i, hi⟩ := mem_ofFn_iff.mp hmem
      exact haddress hlisting i device hi
    have hfits : 0 + listLength wanted source (List.ofFn devices) ≤
        (List.replicate maxDeviceListBuf (0 : Byte)).length := by
      rw [List.length_replicate, ← hlength]
      omega
    obtain ⟨out, hout, hsame⟩ := exists_encodeDevices hslots hfits
    rw [Nat.zero_add, ← hlength] at hout
    rw [List.length_replicate] at hsame
    rw [hencode]
    exact ⟨out, hout, hsame⟩
  · obtain ⟨hlength, hencode⟩ := answerList_other devices source hlisting
    rw [hencode, hlength]
    exact ⟨_, rfl, List.length_replicate⟩

end

theorem isAddress_serverIP : IsAddress ServerIP := ⟨by decide, by decide, by decide⟩

/-- The bytes of the answer. -/
theorem wireBytes_answer {q : IoTPackage} {source data : List Byte} (hsource : IsAddress source)
    (hq : Created generateIotPackage ServerIP source data q) :
    (wireBytes q).length = 22 + source.length + (ofInt data.length).length + data.length := by
  have hheader := hq.headerLength_eq isAddress_serverIP hsource
  have hver := ReaderOutcome.currentVersion_length
  have hserver : ServerIP.length = 6 := by decide
  have hshort := hsource.short
  have hdigits := hq.digits
  rw [hq.headerLength, addOwnDigits, hver, hserver, if_neg (by omega), if_pos (by omega)] at hheader
  rw [hq.wireBytes_length isAddress_serverIP hsource]
  omega

section

variable {devices : Devices} {clientSocket : Slot → IoTSocket} {p : IoTPackage}
  {cmd : Command.IoTCommand} {source ID : List Byte}

/-- A discovery is answered exactly when the answer fits. -/
theorem exists_reply_iff (hID : cmd.ID.text = .ok ID) (hsource : p.sorIp.ip.text = .ok source)
    (haddress : IsAddress source) {i : Slot} (hslot : p.belongSocketIdx = i.val) :
    (∃ sent, discoverPackageReplier devices clientSocket p cmd = .ok sent) ↔
      AnswerFits devices source ID := by
  have hreply : discoverPackageReplier devices clientSocket p cmd =
      answerList devices source ID >>= fun list =>
        createPackage generateIotPackage ServerIP source list.1 list.2 >>= fun newPackage =>
          sendPackage clientSocket (List.replicate maxDeviceListBuf 0) newPackage
            p.belongSocketIdx := by
    rw [discoverPackageReplier, hID, ok_bind, hsource, ok_bind]
    unfold answerList
    split_ifs <;> rfl
  have hlist : ∀ (out : List Byte) (n : ℕ), n ≤ out.length →
      ((∃ sent, (createPackage generateIotPackage ServerIP source out n >>= fun newPackage =>
          sendPackage clientSocket (List.replicate maxDeviceListBuf 0) newPackage
            p.belongSocketIdx) = .ok sent) ↔
        22 + source.length + (ofInt n).length + n ≤ maxDeviceListBuf) := by
    intro out n hn
    obtain ⟨data, rest, rfl, rfl⟩ : ∃ data rest, out = data ++ rest ∧ n = data.length := by
      refine ⟨out.take n, out.drop n, (List.take_append_drop n out).symm, ?_⟩
      rw [List.length_take, min_eq_left hn]
    rw [createPackage_take _ _ _ rest rfl]
    constructor
    · intro h
      obtain ⟨sent, h⟩ := h
      obtain ⟨q, hcreate, hsend⟩ := bind_eq_ok.mp h
      have hq := createPackage_eq_ok.mp hcreate
      have hfits := (sendPackage_eq_ok.mp hsend).1.fits
      rw [wireBytes_answer haddress hq, List.length_replicate] at hfits
      exact hfits
    · intro hfits
      have hmax : maxDeviceListBuf = 4096 := rfl
      obtain ⟨q, hq⟩ := exists_created generateIotPackage isAddress_serverIP haddress
        (show data.length < 10 ^ 9 by omega)
      have hencode : encodePackage (List.replicate maxDeviceListBuf 0) q =
          .ok (written (List.replicate maxDeviceListBuf 0) (wireBytes q)) := by
        apply (hq.encodePackage_eq_ok isAddress_serverIP haddress).mpr
        refine ⟨by omega, ?_, rfl⟩
        rw [wireBytes_answer haddress hq, List.length_replicate]
        exact hfits
      refine ⟨⟨clientSocket i, wireBytes q⟩, bind_eq_ok.mpr ⟨q, createPackage_eq_ok.mpr hq, ?_⟩⟩
      apply sendPackage_eq_ok.mpr
      refine ⟨((encodePackage_eq_ok _ q _).mp hencode).1, ?_, rfl⟩
      rw [hslot]
      exact socketAt_slot clientSocket i
  rw [hreply]
  constructor
  · intro h
    obtain ⟨sent, h⟩ := h
    obtain ⟨⟨out, n⟩, hanswer, h⟩ := bind_eq_ok.mp h
    obtain ⟨haddresses, rfl, hinside⟩ := answerList_length hanswer
    exact ⟨haddresses, (hlist out _ hinside).mp ⟨sent, h⟩⟩
  · intro h
    have hroom : answerLength devices source ID ≤ maxDeviceListBuf := by
      have hfits := h.fits
      omega
    obtain ⟨out, hanswer, hsame⟩ := exists_answerList h.addresses hroom
    obtain ⟨sent, hsent⟩ := (hlist out _ (by omega)).mpr h.fits
    exact ⟨sent, bind_eq_ok.mpr ⟨_, hanswer, hsent⟩⟩

end

end IoTRepublic.DiscoverReply
