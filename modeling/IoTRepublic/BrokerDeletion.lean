import IoTRepublic.CommandCodec
import IoTRepublic.ManagementPayload
import IoTRepublic.RegistryMap
import IoTRepublic.XBeeBroker

/-!
Deletion of a device by its broker. A broker that gives up a device sends the
manager a command with the address of the device. The text of the command, the
package around it, what the reader makes of its bytes and what the manager does
with the command line up for every address that fits a command, so the first
record with the address goes and nothing else changes.
-/
namespace IoTRepublic.BrokerDeletion

open CheckedArray Package PackageReader CreatedPackage JsFileParser Command CommandText
  CommandCodec Manager Registry Forwarding Management Lookup ManagementPayload

-- the unifier would otherwise run the search through a table of 100 slots
attribute [local irreducible] deleteDevice

abbrev MAXDEVICECOUNT : ℕ := 10

abbrev Slot := Fin MAXDEVICECOUNT

/-- The records of the other three brokers; the flags that the removal does not read are left
out. -/
structure XBeeApiDevInfo where
  ip : CharArray IP_ADDR_SIZE
  xbeeAtMacAddr : XBeeBroker.XBeeAddress64

structure XBeeAtDevInfo where
  ip : CharArray IP_ADDR_SIZE
  xbeeAtMacAddrDH : CharArray 8
  xbeeAtMacAddrDL : CharArray 8

structure BleDevInfo where
  ip : CharArray IP_ADDR_SIZE
  bleMacAddr : CharArray 12

/-- The bytes sent for a device with the address; `jsonObj` and `sendBuffer` are the automatic
objects before anything is stored in them. -/
def deletionMessage (jsonObj : JsonObject) (sendBuffer : CharArray MAXPACKETSIZE)
    (ip : List Byte) : Exec (List Byte) := do
  let ID ← CharArray.ofText COMMAND_CHAR_SIZE (ascii "Del_Dev")
  let Value ← CharArray.ofText COMMAND_CHAR_SIZE ip
  let (cmdBuffer, cmdLen) ← encodeIotCmd jsonObj.data (List.replicate MAXPACKETSIZE 0)
    ⟨.management, ID, Value⟩ []
  let sendPackageInfo ← createPackage generateIotPackage (ascii "0") ServerIP cmdBuffer cmdLen
  let (sendBuffer, n) ← encodePackage sendBuffer.bytes sendPackageInfo
  .ok (sendBuffer.take n)

/-- The message, and the table with the slot set to `NULL`. -/
def removeDevice {α : Type} (ipOf : α → Exec (List Byte)) (jsonObj : JsonObject)
    (sendBuffer : CharArray MAXPACKETSIZE) (devices : Slot → Option α) (deviceIndex : Slot) :
    Exec (List Byte × (Slot → Option α)) :=
  match devices deviceIndex with
  | none => .error .readOutside
  | some device => do
    let ip ← ipOf device
    let sent ← deletionMessage jsonObj sendBuffer ip
    .ok (sent, Function.update devices deviceIndex none)

def removeXbeeDevice (jsonObj : JsonObject) (sendBuffer : CharArray MAXPACKETSIZE) :
    XBeeBroker.XBeeDevices → Slot → Exec (List Byte × XBeeBroker.XBeeDevices) :=
  removeDevice (fun device => .ok device.ip) jsonObj sendBuffer

def removeXBeeApiDevice (jsonObj : JsonObject) (sendBuffer : CharArray MAXPACKETSIZE) :
    (Slot → Option XBeeApiDevInfo) → Slot → Exec (List Byte × (Slot → Option XBeeApiDevInfo)) :=
  removeDevice (fun device => device.ip.text) jsonObj sendBuffer

def removeXBeeAtDevice (jsonObj : JsonObject) (sendBuffer : CharArray MAXPACKETSIZE) :
    (Slot → Option XBeeAtDevInfo) → Slot → Exec (List Byte × (Slot → Option XBeeAtDevInfo)) :=
  removeDevice (fun device => device.ip.text) jsonObj sendBuffer

def removeBleDevice (jsonObj : JsonObject) (sendBuffer : CharArray MAXPACKETSIZE) :
    (Slot → Option BleDevInfo) → Slot → Exec (List Byte × (Slot → Option BleDevInfo)) :=
  removeDevice (fun device => device.ip.text) jsonObj sendBuffer

/-- The characters of addresses: letters, digits and `.`. -/
def isAddressChar (c : Byte) : Bool :=
  (48 ≤ c && c ≤ 57) || (65 ≤ c && c ≤ 90) || (97 ≤ c && c ≤ 122) || c == 46

/-- An address that fits a command. -/
structure IsDeviceAddress (a : List Byte) : Prop where
  ne_nil : a ≠ []
  length_le : a.length ≤ 9
  chars : ∀ c ∈ a, isAddressChar c

/-- The slot holds the first record with the address. -/
def IsFirstWith (devices : Devices) (a : List Byte) (j : DeviceIndex) : Prop :=
  (∃ d, devices j = some d ∧ d.ip.text = .ok a) ∧
    ∀ k < j, ∀ d, devices k = some d → d.ip.text ≠ .ok a

/-- A buffer that begins with the bytes gives a package, and handling the package empties the
slot of the first record with the address and changes nothing else. -/
def DeletesFirst (sent a : List Byte) : Prop :=
  ∀ (rest : List Byte) (bufferLength : ℤ), (sent.length : ℤ) ≤ bufferLength →
    bufferLength ≤ (sent ++ rest).length → bufferLength ≤ 2147483647 →
    ∃ r, getCompletedPackage (sent ++ rest) bufferLength generateIotPackage = .ok r ∧
      r.result = .completed ∧ r.bufferLength = bufferLength - sent.length ∧
      ∀ clientSocket locals s i, ∃ s', handlePackage clientSocket locals s
          { r.packageInfo with belongSocketIdx := i } = .ok (s', []) ∧
        s'.ipCount = s.ipCount ∧
        (∀ j, IsFirstWith s.devices a j → s'.devices j = none) ∧
        ∀ j, ¬ IsFirstWith s.devices a j → s'.devices j = s.devices j

theorem IsDeviceAddress.isFieldText {a : List Byte} (ha : IsDeviceAddress a) : IsFieldText a := by
  refine ⟨ha.ne_nil, ?_⟩
  intro c hc
  have hchar := ha.chars c hc
  unfold isAddressChar at hchar
  unfold isFieldChar
  rw [hchar, Bool.true_or, Bool.true_or]

/-- The table after a deletion, slot by slot. -/
theorem deleteDevice_spec (devices : Devices) (a : List Byte) :
    (∀ j, IsFirstWith devices a j → deleteDevice devices a j = none) ∧
      ∀ j, ¬ IsFirstWith devices a j → deleteDevice devices a j = devices j := by
  unfold deleteDevice
  rw [findDeviceIndexWithIpstr_eq]
  cases hindex : SlotTable.firstIndex devices (fun d => d.ip.text = .ok a) with
  | none =>
    refine ⟨?_, fun _ _ => rfl⟩
    intro j ⟨⟨d, hd, htext⟩, _⟩
    have hnot := SlotTable.firstIndex_eq_none hindex hd
    exact absurd htext hnot
  | some i =>
    obtain ⟨d, hd, htext, hbefore⟩ := SlotTable.firstIndex_eq_some hindex
    refine ⟨?_, ?_⟩
    · intro j ⟨⟨e, he, hetext⟩, hfirst⟩
      have hji : j = i := by
        apply le_antisymm
        · by_contra hlt
          exact hfirst i (not_le.mp hlt) d hd htext
        · by_contra hlt
          exact hbefore j (not_le.mp hlt) e he hetext
      rw [hji]
      exact Function.update_self i none devices
    · intro j hj
      apply Function.update_of_ne
      intro hji
      rw [hji] at hj
      exact hj ⟨⟨d, hd, htext⟩, hbefore⟩

def managementText : List Byte := ascii "Man"

theorem isTypeText_managementText : IsTypeText managementText :=
  typeText_isTypeText (show typeText .management = some managementText from rfl)

def deletionId : List Byte := ascii "Del_Dev"

theorem isWord_deletionId : IsWord deletionId := ⟨by decide, List.all_eq_true.mp (by decide)⟩

/-- The text of the command. -/
def deletionText (a : List Byte) : List Byte :=
  cmdContent (cmdTexts managementText deletionId a)

section

variable {a : List Byte}

theorem deletionText_length (a : List Byte) : (deletionText a).length = a.length + 45 := by
  have htype : managementText.length = 3 := by decide
  have hid : deletionId.length = 7 := by decide
  have hcase : deletionId ≠ ascii "Value" := by decide
  rw [deletionText, cmdTexts_length, htype, hid, if_neg hcase]
  omega

/-- What `strcpy` into a cleared array leaves there. -/
theorem exists_ofText_split (n : ℕ) {text : List Byte} (hroom : text.length + 1 ≤ n)
    (hnul : (0 : Byte) ∉ text) :
    ∃ c rest, CharArray.ofText n text = .ok c ∧ c.text = .ok text ∧
      c.bytes = text ++ 0 :: rest := by
  obtain ⟨c, hc⟩ := CharArray.exists_ofText n text hroom
  have htext := CharArray.ofText_text hc hnul
  obtain ⟨-, -, rest, hbytes⟩ := CharArray.text_eq_ok htext
  exact ⟨c, rest, hc, htext, hbytes⟩

/-- An array that holds a copied text holds a string, which is the text if it has no terminator. -/
theorem exists_ofText_string (n : ℕ) {text : List Byte} (hroom : text.length + 1 ≤ n) :
    ∃ c v rest, CharArray.ofText n text = .ok c ∧ c.bytes = v ++ 0 :: rest ∧ (0 : Byte) ∉ v ∧
      v.length + 1 ≤ n ∧ ((0 : Byte) ∉ text → v = text) := by
  obtain ⟨c, hc⟩ := CharArray.exists_ofText n text hroom
  have hbytes := (CharArray.ofText_eq_ok.mp hc).2
  have hmem : (0 : Byte) ∈ c.bytes := by
    rw [hbytes]
    exact List.mem_append_right _ (List.mem_replicate.mpr ⟨by omega, rfl⟩)
  obtain ⟨v, rest, hsplit, hv⟩ := List.eq_append_cons_of_mem hmem
  have hread : c.text = .ok v := by
    rw [CharArray.text, hsplit]
    exact cString_append 0 v rest hv
  refine ⟨c, v, rest, hc, hsplit, hv, (CharArray.text_eq_ok hread).2.1, ?_⟩
  intro hnul
  exact Except.ok.inj (hread.symm.trans (CharArray.ofText_text hc hnul))

/-- The buffer with the text of the command, and the length with the terminator. -/
theorem encodeIotCmd_deletion (hnul : (0 : Byte) ∉ a) (hshort : a.length ≤ 9)
    (jsonObj : JsonObject) {ID Value : CharArray COMMAND_CHAR_SIZE} {idRest vrest : List Byte}
    (hID : ID.bytes = deletionId ++ 0 :: idRest) (hValue : Value.bytes = a ++ 0 :: vrest) :
    ∃ rest, encodeIotCmd jsonObj.data (List.replicate MAXPACKETSIZE 0) ⟨.management, ID, Value⟩ [] =
      .ok (deletionText a ++ 0 :: rest, (deletionText a ++ [0]).length) := by
  have hlen := deletionText_length a
  have hidLen : deletionId.length = 7 := by decide
  have hmax : MAXPACKETSIZE = 1024 := rfl
  have hcontentMax : MAXCONTENTSIZE = 1024 := rfl
  have htext : (0 : Byte) ∉ deletionText a :=
    cmdTexts_noNul isTypeText_managementText isWord_deletionId hnul
  have hroom : (deletionText a).length + 1 ≤ (List.replicate MAXPACKETSIZE (0 : Byte)).length := by
    rw [List.length_replicate, hlen]
    omega
  have hmanagement : typeText (IoTCommand.mk .management ID Value).cmdType = some managementText :=
    rfl
  obtain ⟨d, hd, hencode⟩ := encodeIotCmd_front jsonObj.contentRoom jsonObj.tokenRoom hmanagement
    hID isWord_deletionId (by omega) (List.replicate MAXPACKETSIZE 0) []
  obtain ⟨d', rest, hset, hcontent, hsize⟩ := set_value_bytes isTypeText_managementText hd
    isWord_deletionId hnul (by change (deletionText a).length < _; omega) vrest
  change d'.content = deletionText a ++ 0 :: rest at hcontent
  change d'.contentSize = (deletionText a).length at hsize
  have hcopy := strcpy_eq (List.replicate MAXPACKETSIZE 0) (deletionText a) rest htext hroom
  have hlast : ((deletionText a ++ [0]).length : ℤ) = (deletionText a).length + 1 := by
    rw [List.length_append, List.length_singleton]
    push_cast
    rfl
  refine ⟨(List.replicate MAXPACKETSIZE 0).drop ((deletionText a).length + 1), ?_⟩
  rw [hencode, List.append_nil, hValue, hset, ok_bind, hcontent, hsize, hcopy, ok_bind, hlast]

/-- The package that carries the command for a short address, and its bytes as they are sent. -/
theorem deletionMessage_of_short {ip : List Byte} (hshort : ip.length ≤ 9) (jsonObj : JsonObject)
    (sendBuffer : CharArray MAXPACKETSIZE) :
    ∃ v q, ((0 : Byte) ∉ ip → v = ip) ∧
      Created generateIotPackage (ascii "0") ServerIP (deletionText v ++ [0]) q ∧
      deletionMessage jsonObj sendBuffer ip = .ok (wireBytes q) := by
  have hten : COMMAND_CHAR_SIZE = 10 := rfl
  have hmax : MAXPACKETSIZE = 1024 := rfl
  have hid : deletionId.length + 1 ≤ COMMAND_CHAR_SIZE := by decide
  obtain ⟨ID, idRest, hIDText, -, hID⟩ :=
    exists_ofText_split COMMAND_CHAR_SIZE hid isWord_deletionId.noNul
  obtain ⟨Value, v, vrest, hValueText, hValue, hv, hvRoom, hsame⟩ :=
    exists_ofText_string COMMAND_CHAR_SIZE (show ip.length + 1 ≤ _ by omega)
  obtain ⟨rest, hencode⟩ := encodeIotCmd_deletion hv (by omega) jsonObj hID hValue
  have hlen := deletionText_length v
  have hdata : (deletionText v ++ [0]).length = v.length + 46 := by
    rw [List.length_append, List.length_singleton, hlen]
  have hzero : IsAddress (ascii "0") := ⟨by decide, by decide, by decide⟩
  have hserver : IsAddress ServerIP := ⟨by decide, by decide, by decide⟩
  obtain ⟨q, hq⟩ : ∃ q, Created generateIotPackage (ascii "0") ServerIP (deletionText v ++ [0]) q :=
    exists_created generateIotPackage hzero hserver (by omega)
  have hcreate : createPackage generateIotPackage (ascii "0") ServerIP (deletionText v ++ 0 :: rest)
      (deletionText v ++ [0]).length = .ok q := by
    rw [createPackage_take generateIotPackage (ascii "0") ServerIP rest
      (List.append_cons (deletionText v) 0 rest)]
    exact createPackage_eq_ok.mpr hq
  have hwire : encodePackage sendBuffer.bytes q = .ok (written sendBuffer.bytes (wireBytes q)) := by
    have hheader := hq.header_length_le hzero hserver
    have hbytes := hq.wireBytes_length hzero hserver
    apply (hq.encodePackage_eq_ok hzero hserver).mpr
    refine ⟨by omega, ?_, rfl⟩
    rw [hbytes, sendBuffer.size]
    omega
  refine ⟨v, q, hsame, hq, ?_⟩
  unfold deletionMessage
  rw [show CharArray.ofText COMMAND_CHAR_SIZE (ascii "Del_Dev") = .ok ID from hIDText, ok_bind,
    hValueText, ok_bind, hencode, ok_bind]
  simp only [hcreate, ok_bind, hwire]
  rw [written_take]

theorem deletionMessage_eq (ha : IsDeviceAddress a) (jsonObj : JsonObject)
    (sendBuffer : CharArray MAXPACKETSIZE) :
    ∃ q, Created generateIotPackage (ascii "0") ServerIP (deletionText a ++ [0]) q ∧
      deletionMessage jsonObj sendBuffer a = .ok (wireBytes q) := by
  obtain ⟨v, q, hsame, hq, hmessage⟩ := deletionMessage_of_short ha.length_le jsonObj sendBuffer
  rw [hsame ha.isFieldText.isWord.noNul] at hq
  exact ⟨q, hq, hmessage⟩

/-- The message is made exactly for the addresses that the value of a command has room for. -/
theorem exists_deletionMessage_iff (jsonObj : JsonObject) (sendBuffer : CharArray MAXPACKETSIZE)
    (ip : List Byte) :
    (∃ sent, deletionMessage jsonObj sendBuffer ip = .ok sent) ↔ ip.length ≤ 9 := by
  constructor
  · rintro ⟨sent, hsent⟩
    obtain ⟨ID, -, hsent⟩ := bind_eq_ok.mp hsent
    obtain ⟨Value, hValue, -⟩ := bind_eq_ok.mp hsent
    have hten : COMMAND_CHAR_SIZE = 10 := rfl
    have hroom := (CharArray.ofText_eq_ok.mp hValue).1
    omega
  · intro hshort
    obtain ⟨v, q, -, -, hmessage⟩ := deletionMessage_of_short hshort jsonObj sendBuffer
    exact ⟨_, hmessage⟩

end

/-- A payload that is the text of a command is decoded to the command. -/
theorem handleManagentPackage_command {type id value : List Byte} (htype : IsTypeText type)
    (hid : IsWord id) (hvalue : IsWord value) {ID Value : CharArray COMMAND_CHAR_SIZE}
    (hID : CharArray.ofText COMMAND_CHAR_SIZE id = .ok ID)
    (hValue : CharArray.ofText COMMAND_CHAR_SIZE value = .ok Value) {p : IoTPackage}
    (hdata : p.data = cmdContent (cmdTexts type id value) ++ [0])
    (hlength : p.dataLength = p.data.length) (devices : Devices)
    (clientSocket : Manager.Slot → IoTSocket) (locals : ManagementLocals) :
    handleManagentPackage devices clientSocket locals p =
      if typeOfText type .none ≠ .management then .ok (devices, [])
      else handleCommand devices clientSocket p ⟨typeOfText type .none, ID, Value⟩ := by
  have hten : COMMAND_CHAR_SIZE = 10 := rfl
  have hmax : MAXCONTENTSIZE = 1024 := rfl
  have hval : maxValueSize = 100 := rfl
  have hidRoom := (CharArray.ofText_eq_ok.mp hID).1
  have hvalueRoom := (CharArray.ofText_eq_ok.mp hValue).1
  have hwords := cmdTexts_words htype.word hid hvalue
  have hsize : p.data.length ≤ 60 := by
    rw [hdata, List.length_append, List.length_singleton, cmdTexts_length, htype.length]
    split <;> omega
  have hpayload : Payload p.data (cmdContent (cmdTexts type id value)) 9
      (tokensOf (cmdTexts type id value)) :=
    ⟨by omega, ⟨[], hdata⟩, hwords.noNul, jsmnParse_cmdContent _ hwords⟩
  -- the key of the outer object
  have hname : tokenText (cmdContent (cmdTexts type id value)) ⟨.string, 2, 8, 1⟩ =
      ascii "IOTCMD" := rfl
  obtain ⟨d, -, -, -, heq⟩ := handleManagentPackage_eq hpayload (by rw [hname]; decide)
    (by omega) devices clientSocket locals
  have hdecode : decodeIotCmd locals.jsonObj.data _ generateIotCommand = _ :=
    decodeIotCmd_eq locals.jsonObj.contentRoom locals.jsonObj.tokenRoom htype hid hvalue
      (by omega) (by omega) []
  rw [hID, ok_bind, hValue, ok_bind] at hdecode
  rw [heq, hname, if_neg (by decide), if_pos rfl, hdata, hdecode, ok_bind]
  rfl

section

variable {a : List Byte}

/-- The manager deletes the first record with the address. -/
theorem handleManagentPackage_deletion (ha : IsDeviceAddress a) {p : IoTPackage}
    (hdata : p.data = deletionText a ++ [0])
    (hlength : p.dataLength = p.data.length) (devices : Devices)
    (clientSocket : Manager.Slot → IoTSocket) (locals : ManagementLocals) :
    handleManagentPackage devices clientSocket locals p =
      .ok (deleteDevice devices a, []) := by
  have hten : COMMAND_CHAR_SIZE = 10 := rfl
  have hshort := ha.length_le
  have hid : deletionId.length + 1 ≤ COMMAND_CHAR_SIZE := by decide
  obtain ⟨ID, idRest, hIDText, hIDRead, hIDBytes⟩ :=
    exists_ofText_split COMMAND_CHAR_SIZE hid isWord_deletionId.noNul
  obtain ⟨Value, vrest, hValueText, hValueRead, -⟩ :=
    exists_ofText_split COMMAND_CHAR_SIZE (by omega) ha.isFieldText.isWord.noNul
  have htake : ID.bytes.take 4 ≠ ascii "Dis_" := by
    rw [hIDBytes, List.take_append_of_le_length (by decide)]
    decide
  rw [handleManagentPackage_command isTypeText_managementText isWord_deletionId
    ha.isFieldText.isWord hIDText hValueText hdata hlength, if_neg (by decide), handleCommand,
    if_neg htake]
  simp only [hIDRead, ok_bind, hValueRead]
  rw [if_pos (show deletionId = ascii "Del_Dev" from rfl)]

/-- What is sent for a device deletes the first record with its address. -/
theorem deletionMessage_deletes (ha : IsDeviceAddress a) (jsonObj : JsonObject)
    (sendBuffer : CharArray MAXPACKETSIZE) :
    ∃ sent, deletionMessage jsonObj sendBuffer a = .ok sent ∧ DeletesFirst sent a := by
  have hzero : IsAddress (ascii "0") := ⟨by decide, by decide, by decide⟩
  have hserver : IsAddress ServerIP := ⟨by decide, by decide, by decide⟩
  obtain ⟨q, hq, hmessage⟩ := deletionMessage_eq ha jsonObj sendBuffer
  refine ⟨wireBytes q, hmessage, ?_⟩
  intro rest bufferLength henough hcap hint
  have hread := hq.completed hzero hserver generateIotPackage rest bufferLength henough hcap hint
  refine ⟨_, hread, rfl, rfl, ?_⟩
  intro clientSocket locals s i
  obtain ⟨hfirst, hother⟩ := deleteDevice_spec s.devices a
  have hhandle := handleManagentPackage_deletion ha
    (p := { q with belongSocketIdx := i }) hq.data
    (by rw [hq.dataLength, hq.data]) s.devices clientSocket locals.management
  have hpackage := handlePackage_managent (s := s) (p := { q with belongSocketIdx := i })
    (hq.texts hzero hserver).2 hhandle
  exact ⟨{ s with devices := deleteDevice s.devices a }, hpackage, rfl, hfirst, hother⟩

theorem removeDevice_deletes {α : Type} {ipOf : α → Exec (List Byte)} (ha : IsDeviceAddress a)
    (jsonObj : JsonObject) (sendBuffer : CharArray MAXPACKETSIZE) {devices : Slot → Option α}
    {deviceIndex : Slot} {device : α} (hdevice : devices deviceIndex = some device)
    (hip : ipOf device = .ok a) :
    ∃ sent, removeDevice ipOf jsonObj sendBuffer devices deviceIndex =
      .ok (sent, Function.update devices deviceIndex none) ∧ DeletesFirst sent a := by
  obtain ⟨sent, hmessage, hdeletes⟩ := deletionMessage_deletes ha jsonObj sendBuffer
  refine ⟨sent, ?_, hdeletes⟩
  unfold removeDevice
  rw [hdevice]
  dsimp only
  rw [hip, ok_bind, hmessage, ok_bind]

/-- The table is left as the removal without the message leaves it. -/
theorem removeXbeeDevice_table (jsonObj : JsonObject) (sendBuffer : CharArray MAXPACKETSIZE)
    {xbeeDevices after : XBeeBroker.XBeeDevices} {deviceIndex : Slot} {sent : List Byte}
    (h : removeXbeeDevice jsonObj sendBuffer xbeeDevices deviceIndex = .ok (sent, after)) :
    XBeeBroker.removeXbeeDevice xbeeDevices deviceIndex = .ok after := by
  unfold removeXbeeDevice removeDevice at h
  unfold XBeeBroker.removeXbeeDevice XBeeBroker.deviceAt
  cases hdevice : xbeeDevices deviceIndex with
  | none =>
    rw [hdevice] at h
    cases h
  | some device =>
    rw [hdevice] at h
    obtain ⟨ip, -, h⟩ := bind_eq_ok.mp h
    obtain ⟨message, -, h⟩ := bind_eq_ok.mp h
    rw [← (Prod.mk.inj (Except.ok.inj h)).2]
    rfl

end

/-- Whichever of the four brokers removes a device with an address of one to nine letters,
digits and dots, in whatever state the manager is, what it sends deletes the first record
with the address there and leaves everything else as it is. -/
theorem removal_reaches_registry (a : List Byte) (ha : IsDeviceAddress a) (jsonObj : JsonObject)
    (sendBuffer : CharArray MAXPACKETSIZE) (deviceIndex : Slot) :
    (∀ devices device, devices deviceIndex = some device → device.ip = a →
      ∃ sent, removeXbeeDevice jsonObj sendBuffer devices deviceIndex =
        .ok (sent, Function.update devices deviceIndex none) ∧ DeletesFirst sent a) ∧
    (∀ devices device, devices deviceIndex = some device → device.ip.text = .ok a →
      ∃ sent, removeXBeeApiDevice jsonObj sendBuffer devices deviceIndex =
        .ok (sent, Function.update devices deviceIndex none) ∧ DeletesFirst sent a) ∧
    (∀ devices device, devices deviceIndex = some device → device.ip.text = .ok a →
      ∃ sent, removeXBeeAtDevice jsonObj sendBuffer devices deviceIndex =
        .ok (sent, Function.update devices deviceIndex none) ∧ DeletesFirst sent a) ∧
    ∀ devices device, devices deviceIndex = some device → device.ip.text = .ok a →
      ∃ sent, removeBleDevice jsonObj sendBuffer devices deviceIndex =
        .ok (sent, Function.update devices deviceIndex none) ∧ DeletesFirst sent a := by
  refine ⟨?_, ?_, ?_, ?_⟩
  · intro devices device hdevice hip
    exact removeDevice_deletes ha jsonObj sendBuffer hdevice (congrArg Except.ok hip)
  · intro devices device hdevice hip
    exact removeDevice_deletes ha jsonObj sendBuffer hdevice hip
  · intro devices device hdevice hip
    exact removeDevice_deletes ha jsonObj sendBuffer hdevice hip
  · intro devices device hdevice hip
    exact removeDevice_deletes ha jsonObj sendBuffer hdevice hip

def blankObject : JsonObject := ⟨blankJson, blankJson_content, blankJson_tokens⟩

def bleDevice : BleDevInfo := ⟨⟨ascii "DEV.1" ++ List.replicate 10 0, by decide⟩, CharArray.zero 12⟩

/-- The BLE broker with one device. -/
theorem removal_reaches_registry_ble :
    ∃ sent, removeBleDevice blankObject (CharArray.zero MAXPACKETSIZE)
        (Function.update (fun _ => none) 0 (some bleDevice)) 0 =
      .ok (sent, Function.update (Function.update (fun _ => none) 0 (some bleDevice)) 0 none) ∧
      DeletesFirst sent (ascii "DEV.1") :=
  (removal_reaches_registry (ascii "DEV.1")
    ⟨by decide, by decide, List.all_eq_true.mp (by decide)⟩ blankObject
    (CharArray.zero MAXPACKETSIZE) 0).2.2.2 _ bleDevice rfl (by decide)

end IoTRepublic.BrokerDeletion
