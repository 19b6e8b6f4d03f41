import IoTRepublic.Command
import IoTRepublic.Foundation.SlotTable

/-!
The table of registered devices. A record is looked up by its address or by its
ID; the first slot that matches counts. Registering a device replaces the record
with the same ID, or takes the first empty slot, or does nothing when the table
is full.
-/
namespace IoTRepublic.Registry

open CheckedArray Package JsFileParser

abbrev MAXDEVICECOUNT : ℕ := 100

abbrev DeviceIndex := Fin MAXDEVICECOUNT

/-- The strings of a record are their texts; `ipLength` of the address is never set. -/
structure IoTDeviceInfo where
  ip : CharArray IP_ADDR_SIZE
  socketIndex : ℤ
  funGroup : List Byte
  devID : List Byte
  devDesc : List Byte
  proxied : ℤ
  deriving DecidableEq

abbrev Devices := DeviceIndex → Option IoTDeviceInfo

def noDevices : Devices := fun _ => none

def findDeviceIndexWithIpstr (devices : Devices) (iotip : List Byte) : Option DeviceIndex :=
  Fin.find? (fun i => (devices i).any (fun d => d.ip.text = .ok iotip))

def findDeviceWithIp (devices : Devices) (iotip : List Byte) : Option IoTDeviceInfo :=
  (findDeviceIndexWithIpstr devices iotip).bind devices

def findDeviceIndexWithId (devices : Devices) (id : List Byte) : Option DeviceIndex :=
  Fin.find? (fun i => (devices i).any (fun d => d.devID = id))

def findDeviceWithId (devices : Devices) (id : List Byte) : Option IoTDeviceInfo :=
  (findDeviceIndexWithId devices id).bind devices

def emptyIndex (devices : Devices) : Option DeviceIndex :=
  Fin.find? (fun i => (devices i).isNone)

/-- The end of `add_new_device`: the new record is put into the table. -/
def storeDevice (devices : Devices) (newDevice : IoTDeviceInfo) : Devices :=
  match findDeviceIndexWithId devices newDevice.devID with
  | some deviceIndex => Function.update devices deviceIndex (some newDevice)
  | none =>
    match emptyIndex devices with
    | some i => Function.update devices i (some newDevice)
    | none => devices

/-- The record that `add_new_device` builds; `tempStr` is the scratch array before anything
is stored in it. -/
def newDeviceInfo (iotip : CharArray IP_ADDR_SIZE) (jsonData : JsonData) (socketIndex : ℤ)
    (tempStr : List Byte) : Exec IoTDeviceInfo := do
  let ipText ← iotip.text
  let ip ← CharArray.ofText IP_ADDR_SIZE ipText
  let tempStr ← getJsfileValue [ascii "IOTDEV", ascii "DeviceID"] jsonData tempStr
  let devID ← cString 0 tempStr
  let tempStr ← getJsfileValue [ascii "IOTDEV", ascii "FunctionGroup"] jsonData tempStr
  let funGroup ← cString 0 tempStr
  let devDesc ← cString 0 jsonData.content
  .ok { ip := ip, socketIndex := socketIndex, funGroup := funGroup, devID := devID,
        devDesc := devDesc, proxied := 0 }

def addNewDevice (devices : Devices) (iotip : CharArray IP_ADDR_SIZE) (jsonData : JsonData)
    (socketIndex : ℤ) (tempStr : List Byte) : Exec Devices := do
  let newDevice ← newDeviceInfo iotip jsonData socketIndex tempStr
  .ok (storeDevice devices newDevice)

/-- The `Del_Dev` command of `handle_managent_package`. -/
def deleteDevice (devices : Devices) (iotip : List Byte) : Devices :=
  match findDeviceIndexWithIpstr devices iotip with
  | some deviceIndex => Function.update devices deviceIndex none
  | none => devices

/-- The `Prx_Add` and `Prx_Rmv` commands: the flag of the device is set to 1 or 0. -/
def setProxied (devices : Devices) (iotip : List Byte) (proxied : ℤ) : Devices :=
  match findDeviceIndexWithIpstr devices iotip with
  | some deviceIndex =>
    Function.update devices deviceIndex
      ((devices deviceIndex).map (fun d => { d with proxied := proxied }))
  | none => devices

theorem findDeviceIndexWithIpstr_eq (devices : Devices) (iotip : List Byte) :
    findDeviceIndexWithIpstr devices iotip =
      SlotTable.firstIndex devices (fun d => d.ip.text = .ok iotip) := by
  unfold findDeviceIndexWithIpstr SlotTable.firstIndex
  rfl

theorem findDeviceWithIp_eq (devices : Devices) (iotip : List Byte) :
    findDeviceWithIp devices iotip = SlotTable.find devices (fun d => d.ip.text = .ok iotip) := by
  unfold findDeviceWithIp SlotTable.find
  rw [findDeviceIndexWithIpstr_eq]

theorem findDeviceIndexWithId_eq (devices : Devices) (id : List Byte) :
    findDeviceIndexWithId devices id = SlotTable.firstIndex devices (fun d => d.devID = id) := by
  unfold findDeviceIndexWithId SlotTable.firstIndex
  rfl

theorem findDeviceWithId_eq (devices : Devices) (id : List Byte) :
    findDeviceWithId devices id = SlotTable.find devices (fun d => d.devID = id) := by
  unfold findDeviceWithId SlotTable.find
  rw [findDeviceIndexWithId_eq]

theorem storeDevice_eq_put (devices : Devices) (newDevice : IoTDeviceInfo) :
    storeDevice devices newDevice = SlotTable.put IoTDeviceInfo.devID devices newDevice := by
  unfold storeDevice SlotTable.put
  rw [findDeviceIndexWithId_eq]
  cases SlotTable.firstIndex devices (fun d => d.devID = newDevice.devID) with
  | some i => rfl
  | none =>
    dsimp only
    have hempty : emptyIndex devices = SlotTable.firstFree devices := by
      unfold emptyIndex SlotTable.firstFree
      rfl
    rw [hempty]
    cases SlotTable.firstFree devices with
    | some i => rfl
    | none => rfl

theorem findDeviceWithIp_eq_some {devices : Devices} {iotip : List Byte} {d : IoTDeviceInfo}
    (h : findDeviceWithIp devices iotip = some d) :
    ∃ i, devices i = some d ∧ d.ip.text = .ok iotip := by
  rw [findDeviceWithIp_eq] at h
  exact SlotTable.find_eq_some h

theorem findDeviceWithIp_noDevices (iotip : List Byte) : findDeviceWithIp noDevices iotip = none := by
  cases hfind : findDeviceWithIp noDevices iotip with
  | none => rfl
  | some d =>
    obtain ⟨i, hi, -⟩ := findDeviceWithIp_eq_some hfind
    cases hi

/-- The only record of a table is found by its address. -/
theorem findDeviceIndexWithIpstr_only (i : DeviceIndex) {d : IoTDeviceInfo} {iotip : List Byte}
    (htext : d.ip.text = .ok iotip) :
    findDeviceIndexWithIpstr (Function.update noDevices i (some d)) iotip = some i := by
  have hd : Function.update noDevices i (some d) i = some d :=
    Function.update_self i (some d) noDevices
  rw [findDeviceIndexWithIpstr_eq]
  apply SlotTable.firstIndex_of_unique hd htext
  intro j e he _
  rcases SlotTable.update_eq_some he with ⟨hj, -⟩ | ⟨-, hnone⟩
  · exact hj
  · cases hnone

/-- No two records have the same ID. -/
def DistinctIds (devices : Devices) : Prop :=
  ∀ i j d d', devices i = some d → devices j = some d' → d.devID = d'.devID → i = j

section

variable {devices : Devices} {newDevice d : IoTDeviceInfo} {i j : DeviceIndex}

theorem distinctIds_iff : DistinctIds devices ↔ SlotTable.Keyed IoTDeviceInfo.devID devices :=
  Iff.rfl

/-- After a registration every record is the new one or an old one with another ID. -/
theorem storeDevice_eq_some (hdistinct : DistinctIds devices)
    (h : storeDevice devices newDevice j = some d) :
    d = newDevice ∨ devices j = some d ∧ d.devID ≠ newDevice.devID := by
  rw [storeDevice_eq_put] at h
  by_cases hroom : SlotTable.HasRoom IoTDeviceInfo.devID devices newDevice.devID
  · obtain ⟨i, hput, hother, -⟩ := (distinctIds_iff.mp hdistinct).exists_put hroom
    rw [hput] at h
    rcases SlotTable.update_eq_some h with ⟨-, hnew⟩ | ⟨hj, hold⟩
    · exact .inl (Option.some.inj hnew).symm
    · exact .inr ⟨hold, hother j d hj hold⟩
  · rw [SlotTable.put_of_full hroom] at h
    refine .inr ⟨h, ?_⟩
    intro hid
    exact hroom (.inl ⟨j, d, h, hid⟩)

theorem DistinctIds.storeDevice (hdistinct : DistinctIds devices) (newDevice : IoTDeviceInfo) :
    DistinctIds (storeDevice devices newDevice) := by
  rw [storeDevice_eq_put]
  exact (distinctIds_iff.mp hdistinct).put newDevice

end

/-- Deleting empties one slot or none. -/
theorem deleteDevice_eq_some {devices : Devices} {iotip : List Byte} {j : DeviceIndex}
    {d : IoTDeviceInfo} (h : deleteDevice devices iotip j = some d) : devices j = some d := by
  unfold deleteDevice at h
  cases hindex : findDeviceIndexWithIpstr devices iotip with
  | none =>
    rw [hindex] at h
    exact h
  | some i =>
    simp only [hindex] at h
    by_cases hij : j = i
    · rw [hij, Function.update_self] at h
      exact absurd h (Option.some_ne_none d).symm
    · rwa [Function.update_of_ne hij] at h

theorem newDeviceInfo_socketIndex {iotip : CharArray IP_ADDR_SIZE} {jsonData : JsonData}
    {socketIndex : ℤ} {tempStr : List Byte} {d : IoTDeviceInfo}
    (h : newDeviceInfo iotip jsonData socketIndex tempStr = .ok d) :
    d.socketIndex = socketIndex := by
  rcases bind_eq_ok.mp h with ⟨ipText, -, h⟩
  rcases bind_eq_ok.mp h with ⟨ip, -, h⟩
  rcases bind_eq_ok.mp h with ⟨_, -, h⟩
  rcases bind_eq_ok.mp h with ⟨devID, -, h⟩
  rcases bind_eq_ok.mp h with ⟨_, -, h⟩
  rcases bind_eq_ok.mp h with ⟨funGroup, -, h⟩
  rcases bind_eq_ok.mp h with ⟨devDesc, -, h⟩
  obtain rfl := Except.ok.inj h
  rfl

end IoTRepublic.Registry
