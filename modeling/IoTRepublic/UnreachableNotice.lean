import IoTRepublic.BrokerDeletion

/-!
The notice for a package to an address that is not registered. The address is
copied into the value of a command, which is shorter than an address may be; an
address that fits comes back to the sender whole, and a longer one is written
behind the command.
-/
namespace IoTRepublic.UnreachableNotice

open CheckedArray Package PackageReader CreatedPackage JsFileParser Command CommandCodec Manager
  Registry Forwarding Management BrokerDeletion

/-- Whoever receives the bytes gets one package from the manager to the source, and its data
decode to the deletion of the address, whatever the receiver's memory held before. -/
def IsNotice (sent source a : List Byte) : Prop :=
  ∀ (rest : List Byte) (bufferLength : ℤ) (p : IoTPackage), (sent.length : ℤ) ≤ bufferLength →
    bufferLength ≤ (sent ++ rest).length → bufferLength ≤ 2147483647 →
    ∃ r, getCompletedPackage (sent ++ rest) bufferLength p = .ok r ∧ r.result = .completed ∧
      r.bufferLength = bufferLength - sent.length ∧
      r.packageInfo.sorIp.ip.text = .ok ServerIP ∧ r.packageInfo.desIp.ip.text = .ok source ∧
      ∀ (jsonObj : JsonObject) (cmd : IoTCommand), ∃ cmd',
        decodeIotCmd jsonObj.data r.packageInfo.data cmd = .ok cmd' ∧
        cmd'.cmdType = .management ∧ cmd'.ID.text = .ok (ascii "Del_Dev") ∧
        cmd'.Value.text = .ok a

/-- One package leaves on the slot of the request, it is the notice, and the registry stays. -/
def Notifies (clientSocket : Manager.Slot → IoTSocket) (locals : HandlerLocals) (s : RegistryState)
    (p : IoTPackage) (source a : List Byte) : Prop :=
  ∃ sent, handlePackage clientSocket locals s p = .ok (s, [sent]) ∧
    socketAt clientSocket p.belongSocketIdx = .ok sent.socket ∧ IsNotice sent.bytes source a

section

variable {p : IoTPackage} {source a : List Byte} {jsonObj : JsonData}

/-- A notice is made for an address that fits the value of a command only. -/
theorem deleteNotice_room {q : IoTPackage} (hdes : p.desIp.ip.text = .ok a)
    (h : deleteNotice jsonObj p = .ok q) : a.length < COMMAND_CHAR_SIZE := by
  obtain ⟨ID, -, h⟩ := bind_eq_ok.mp h
  rw [hdes, ok_bind] at h
  obtain ⟨Value, hValue, -⟩ := bind_eq_ok.mp h
  exact (CharArray.ofText_eq_ok.mp hValue).1

/-- The package that is made for an address that fits. -/
theorem deleteNotice_eq (ha : IsDeviceAddress a) (jsonObj : JsonObject)
    (hdes : p.desIp.ip.text = .ok a) (hsor : p.sorIp.ip.text = .ok source)
    (hsource : IsAddress source) :
    ∃ q, Created generateIotPackage ServerIP source (deletionText a ++ [0]) q ∧
      deleteNotice jsonObj.data p = .ok q := by
  have hlen := deletionText_length a
  have hshort := ha.length_le
  have hten : COMMAND_CHAR_SIZE = 10 := rfl
  have hmax : MAXPACKETSIZE = 1024 := rfl
  have hdata : (deletionText a ++ [0]).length = a.length + 46 := by
    rw [List.length_append, List.length_singleton, hlen]
  have hserver : IsAddress ServerIP := ⟨by decide, by decide, by decide⟩
  have hid : deletionId.length + 1 ≤ COMMAND_CHAR_SIZE := by decide
  obtain ⟨q, hq⟩ : ∃ q, Created generateIotPackage ServerIP source (deletionText a ++ [0]) q :=
    exists_created generateIotPackage hserver hsource (by omega)
  obtain ⟨ID, idRest, hIDText, -, hID⟩ :=
    exists_ofText_split COMMAND_CHAR_SIZE hid isWord_deletionId.noNul
  obtain ⟨Value, vrest, hValueText, -, hValue⟩ :=
    exists_ofText_split COMMAND_CHAR_SIZE (by omega) ha.isFieldText.isWord.noNul
  obtain ⟨rest, hencode⟩ := encodeIotCmd_deletion ha.isFieldText.isWord.noNul ha.length_le
    jsonObj hID hValue
  have hcreate : createPackage generateIotPackage ServerIP source (deletionText a ++ 0 :: rest)
      (deletionText a ++ [0]).length = .ok q := by
    rw [createPackage_take generateIotPackage ServerIP source rest
      (List.append_cons (deletionText a) 0 rest)]
    exact createPackage_eq_ok.mpr hq
  refine ⟨q, hq, ?_⟩
  unfold deleteNotice
  rw [show CharArray.ofText COMMAND_CHAR_SIZE (ascii "Del_Dev") = .ok ID from hIDText, ok_bind,
    hdes, ok_bind, hValueText, ok_bind, hencode, ok_bind]
  dsimp only
  rw [hsor, ok_bind, hcreate]

/-- The receiver decodes the address from the text of the deletion. -/
theorem decodeIotCmd_deletion (ha : IsDeviceAddress a) (jsonObj : JsonObject) (cmd : IoTCommand) :
    ∃ cmd', decodeIotCmd jsonObj.data (deletionText a ++ [0]) cmd = .ok cmd' ∧
      cmd'.cmdType = .management ∧ cmd'.ID.text = .ok (ascii "Del_Dev") ∧
      cmd'.Value.text = .ok a := by
  have hshort := ha.length_le
  have hten : COMMAND_CHAR_SIZE = 10 := rfl
  have hval : maxValueSize = 100 := rfl
  have hid : deletionId.length + 1 ≤ COMMAND_CHAR_SIZE := by decide
  obtain ⟨ID, -, hID, hIDText, -⟩ :=
    exists_ofText_split COMMAND_CHAR_SIZE hid isWord_deletionId.noNul
  obtain ⟨Value, -, hValue, hValueText, -⟩ :=
    exists_ofText_split COMMAND_CHAR_SIZE (by omega) ha.isFieldText.isWord.noNul
  have hdecode : decodeIotCmd jsonObj.data (deletionText a ++ [0]) cmd = _ :=
    decodeIotCmd_eq jsonObj.contentRoom jsonObj.tokenRoom isTypeText_managementText
      isWord_deletionId ha.isFieldText.isWord (by omega) (by omega) []
  rw [hID, ok_bind, hValue, ok_bind] at hdecode
  exact ⟨_, hdecode, rfl, hIDText, hValueText⟩

theorem isNotice_wireBytes (ha : IsDeviceAddress a) (hsource : IsAddress source) {q : IoTPackage}
    (hq : Created generateIotPackage ServerIP source (deletionText a ++ [0]) q) :
    IsNotice (wireBytes q) source a := by
  have hserver : IsAddress ServerIP := ⟨by decide, by decide, by decide⟩
  intro rest bufferLength p henough hcap hint
  have hread := hq.completed hserver hsource p rest bufferLength henough hcap hint
  obtain ⟨hsorText, hdesText⟩ := hq.texts hserver hsource
  refine ⟨_, hread, rfl, rfl, hsorText, hdesText, ?_⟩
  intro jsonObj cmd
  have hdata : q.data = deletionText a ++ [0] := hq.data
  dsimp only
  rw [hdata]
  exact decodeIotCmd_deletion ha jsonObj cmd

variable {s : RegistryState} {clientSocket : Manager.Slot → IoTSocket} {locals : HandlerLocals}

/-- What the manager does with a package to an address that is not registered. -/
theorem handlePackage_unknown (hrequest : isIpRequest p = .ok false)
    (hdes : p.desIp.ip.text = .ok a) (hserver : a ≠ ServerIP)
    (hunknown : findDeviceWithIp s.devices a = none) :
    handlePackage clientSocket locals s p =
      deleteNotice locals.jsonObj.data p >>= fun q =>
        sendPackage clientSocket locals.sendBuffer.bytes q p.belongSocketIdx >>= fun sent =>
          .ok (s, [sent]) := by
  have hforward : handleForwardingPackage s.devices clientSocket locals.jsonObj.data
      locals.sendBuffer.bytes p = deleteNotice locals.jsonObj.data p >>= fun q =>
        sendPackage clientSocket locals.sendBuffer.bytes q p.belongSocketIdx := by
    rw [handleForwardingPackage, hdes, ok_bind, hunknown]
  rw [handlePackage, hrequest, ok_bind]
  simp only [Bool.false_eq_true, ↓reduceIte, hdes, ok_bind, hserver, hforward]
  rw [bind_assoc]

theorem notifies_of_fits (ha : IsDeviceAddress a) (hrequest : isIpRequest p = .ok false)
    (hdes : p.desIp.ip.text = .ok a) (hserver : a ≠ ServerIP)
    (hunknown : findDeviceWithIp s.devices a = none) (hsor : p.sorIp.ip.text = .ok source)
    (hsource : IsAddress source) {i : Manager.Slot} (hslot : p.belongSocketIdx = i.val) :
    Notifies clientSocket locals s p source a := by
  have hmaster : IsAddress ServerIP := ⟨by decide, by decide, by decide⟩
  have hmax : MAXPACKETSIZE = 1024 := rfl
  have hlen := deletionText_length a
  have hshort := ha.length_le
  have hdata : (deletionText a ++ [0]).length = a.length + 46 := by
    rw [List.length_append, List.length_singleton, hlen]
  obtain ⟨q, hq, hnotice⟩ := deleteNotice_eq ha locals.jsonObj hdes hsor hsource
  have hheader := hq.header_length_le hmaster hsource
  have hbytes := hq.wireBytes_length hmaster hsource
  have hwire : encodePackage locals.sendBuffer.bytes q =
      .ok (written locals.sendBuffer.bytes (wireBytes q)) := by
    apply (hq.encodePackage_eq_ok hmaster hsource).mpr
    refine ⟨by omega, ?_, rfl⟩
    rw [hbytes, locals.sendBuffer.size]
    omega
  have hsocket : socketAt clientSocket p.belongSocketIdx = .ok (clientSocket i) := by
    rw [hslot]
    exact socketAt_slot clientSocket i
  have hsent : sendPackage clientSocket locals.sendBuffer.bytes q p.belongSocketIdx =
      .ok ⟨clientSocket i, wireBytes q⟩ := by
    rw [sendPackage, hwire, ok_bind]
    dsimp only
    rw [hsocket, ok_bind, written_take]
  refine ⟨⟨clientSocket i, wireBytes q⟩, ?_, hsocket, isNotice_wireBytes ha hsource hq⟩
  rw [handlePackage_unknown hrequest hdes hserver hunknown, hnotice, ok_bind, hsent, ok_bind]

theorem fits_of_notifies (hrequest : isIpRequest p = .ok false) (hdes : p.desIp.ip.text = .ok a)
    (hserver : a ≠ ServerIP) (hunknown : findDeviceWithIp s.devices a = none)
    (h : Notifies clientSocket locals s p source a) : a.length < COMMAND_CHAR_SIZE := by
  obtain ⟨sent, hhandle, -⟩ := h
  rw [handlePackage_unknown hrequest hdes hserver hunknown] at hhandle
  obtain ⟨q, hnotice, -⟩ := bind_eq_ok.mp hhandle
  exact deleteNotice_room hdes hnotice

end

/-- A package that the receive loop hands over, for a destination of letters, digits and dots
that is not registered: the source is told so exactly when the destination is shorter than the
value of a command. -/
theorem notifies_iff {p : IoTPackage} (hp : Received p) {source a : List Byte}
    (hsor : p.sorIp.ip.text = .ok source) (hdes : p.desIp.ip.text = .ok a)
    (hne : a ≠ []) (hchars : ∀ c ∈ a, isAddressChar c) (hrequest : isIpRequest p = .ok false)
    (hserver : a ≠ ServerIP) {s : RegistryState} (hunknown : findDeviceWithIp s.devices a = none)
    (clientSocket : Manager.Slot → IoTSocket) (locals : HandlerLocals) :
    Notifies clientSocket locals s p source a ↔ a.length < COMMAND_CHAR_SIZE := by
  obtain ⟨-, ⟨source', hsource, hsor'⟩, i, hslot⟩ := hp.fields
  obtain rfl := Except.ok.inj (hsor.symm.trans hsor')
  constructor
  · exact fits_of_notifies hrequest hdes hserver hunknown
  · intro hshort
    exact notifies_of_fits ⟨hne, Nat.le_of_lt_succ hshort, hchars⟩ hrequest hdes hserver hunknown
      hsor hsource hslot

/-- What `create_package` makes is received as it was made. -/
theorem received_of_created {source a data : List Byte} {q : IoTPackage}
    (hq : Created generateIotPackage source a data q) (hsource : IsAddress source)
    (ha : IsAddress a) (i : Manager.Slot) : Received { q with belongSocketIdx := i.val } := by
  have hlength := hq.wireBytes_length hsource ha
  have hheader := hq.header_length_le hsource ha
  have hdata := hq.dataLength_lt
  have hread := hq.completed hsource ha generateIotPackage [] (wireBytes q).length le_rfl
    (by simp) (by omega)
  exact ⟨_, _, _, i, Int.natCast_nonneg _, by simp, hread, rfl, rfl⟩

/-- A destination of ten characters. -/
def longDestination : List Byte := ascii "Controller"

/-- It is written behind the command, so nothing is sent. -/
theorem notice_overflows :
    ∃ q, createPackage generateIotPackage (ascii "A") longDestination [120] 1 = .ok q ∧
      Received { q with belongSocketIdx := (0 : Manager.Slot).val } ∧
      q.desIp.ip.text = .ok longDestination ∧
      findDeviceWithIp noDevices longDestination = none ∧
      ∀ clientSocket locals, ¬ Notifies clientSocket locals ⟨noDevices, 0⟩
        { q with belongSocketIdx := (0 : Manager.Slot).val } (ascii "A") longDestination := by
  have hlong : IsAddress longDestination := ⟨by decide, by decide, by decide⟩
  obtain ⟨q, hq⟩ : ∃ q, Created generateIotPackage (ascii "A") longDestination [120] q :=
    exists_created generateIotPackage isAddress_A hlong (by simp)
  have hunknown := findDeviceWithIp_noDevices longDestination
  obtain ⟨-, hdes⟩ := hq.texts isAddress_A hlong
  have hrequest : isIpRequest { q with belongSocketIdx := (0 : Manager.Slot).val } =
      .ok false := by
    rw [isIpRequest, hdes, ok_bind, if_neg (by decide)]
  refine ⟨q, createPackage_eq_ok.mpr hq, received_of_created hq isAddress_A hlong 0, hdes,
    hunknown, ?_⟩
  intro clientSocket locals hnotifies
  have hfits := fits_of_notifies (s := ⟨noDevices, 0⟩) hrequest hdes (by decide) hunknown
    hnotifies
  exact absurd hfits (by decide)

def blankLocals : HandlerLocals where
  ipRequest := ⟨CharArray.zero 3, CharArray.zero 20, CharArray.zero MAXRECV⟩
  management := ⟨blankObject, blankObject, CharArray.zero Management.tempBufferSize⟩
  jsonObj := blankObject
  sendBuffer := CharArray.zero MAXPACKETSIZE

/-- A destination of one character. -/
theorem notifies_short :
    ∃ q, createPackage generateIotPackage (ascii "A") (ascii "B") [120] 1 = .ok q ∧
      Notifies (fun _ => 4) blankLocals ⟨noDevices, 0⟩
        { q with belongSocketIdx := (0 : Manager.Slot).val } (ascii "A") (ascii "B") := by
  obtain ⟨q, hq⟩ : ∃ q, Created generateIotPackage (ascii "A") (ascii "B") [120] q :=
    exists_created generateIotPackage isAddress_A isAddress_B (by simp)
  have hunknown := findDeviceWithIp_noDevices (ascii "B")
  obtain ⟨hsor, hdes⟩ := hq.texts isAddress_A isAddress_B
  have hrequest : isIpRequest { q with belongSocketIdx := (0 : Manager.Slot).val } =
      .ok false := by
    rw [isIpRequest, hdes, ok_bind, if_neg (by decide)]
  have hp := received_of_created hq isAddress_A isAddress_B 0
  refine ⟨q, createPackage_eq_ok.mpr hq, ?_⟩
  exact (notifies_iff hp hsor hdes (by decide) (List.all_eq_true.mp (by decide)) hrequest
    (by decide) (s := ⟨noDevices, 0⟩) hunknown (fun _ => 4) blankLocals).mpr (by decide)

end IoTRepublic.UnreachableNotice
