import IoTRepublic.Foundation.Runs
import IoTRepublic.Routing

/-!
The registry as a map from device IDs to records. Devices register, register
again with other data, are deleted and have their proxy flag set, in any order.
In every state no two slots have the same ID, a registration changes the record
of its own ID and no other, and each of the commands that name an address
changes one record with that address or nothing.
-/
namespace IoTRepublic.RegistryMap

open CheckedArray Package JsFileParser Registry Runs

inductive Operation
  | addNewDevice (iotip : CharArray IP_ADDR_SIZE) (jsonData : JsonData) (socketIndex : ℤ)
      (tempStr : List Byte)
  | delDev (iotip : List Byte)
  | prxAdd (iotip : List Byte)
  | prxRmv (iotip : List Byte)

def operate (devices : Devices) : Operation → Exec Devices
  | .addNewDevice iotip jsonData socketIndex tempStr =>
    addNewDevice devices iotip jsonData socketIndex tempStr
  | .delDev iotip => .ok (deleteDevice devices iotip)
  | .prxAdd iotip => .ok (setProxied devices iotip 1)
  | .prxRmv iotip => .ok (setProxied devices iotip 0)

def Step (devices : Devices) (op : Operation) (after : Devices) : Prop :=
  operate devices op = .ok after

/-- What a command does to the record it finds. -/
def changeOf : Operation → IoTDeviceInfo → Option IoTDeviceInfo
  | .addNewDevice .., d => some d
  | .delDev _, _ => none
  | .prxAdd _, d => some { d with proxied := 1 }
  | .prxRmv _, d => some { d with proxied := 0 }

/-- At most one record changes, and it has this address. -/
def ChangesOnly (devices : Devices) (iotip : List Byte)
    (change : IoTDeviceInfo → Option IoTDeviceInfo) (after : Devices) : Prop :=
  after = devices ∨ ∃ i d, devices i = some d ∧ d.ip.text = .ok iotip ∧
    after = Function.update devices i (change d)

/-- The record of a registration: its address and its connection, the text of the package, and
the two values that are looked up in it, the second in the array the first was left in. -/
structure Reads (iotip : CharArray IP_ADDR_SIZE) (jsonData : JsonData) (socketIndex : ℤ)
    (tempStr : List Byte) (d : IoTDeviceInfo) : Prop where
  ip : d.ip.text = iotip.text
  socketIndex : d.socketIndex = socketIndex
  proxied : d.proxied = 0
  devDesc : cString 0 jsonData.content = .ok d.devDesc
  values : ∃ idStr groupStr,
    getJsfileValue [ascii "IOTDEV", ascii "DeviceID"] jsonData tempStr = .ok idStr ∧
    cString 0 idStr = .ok d.devID ∧
    getJsfileValue [ascii "IOTDEV", ascii "FunctionGroup"] jsonData idStr = .ok groupStr ∧
    cString 0 groupStr = .ok d.funGroup

section

variable {devices after : Devices} {d e : IoTDeviceInfo}

/-- What `add_new_device` stores is the new record, whatever is in the table. -/
theorem step_addNewDevice {iotip : CharArray IP_ADDR_SIZE} {jsonData : JsonData}
    {socketIndex : ℤ} {tempStr : List Byte} :
    Step devices (.addNewDevice iotip jsonData socketIndex tempStr) after ↔
      ∃ d, newDeviceInfo iotip jsonData socketIndex tempStr = .ok d ∧
        after = storeDevice devices d := by
  unfold Step operate
  dsimp only
  unfold addNewDevice
  rw [bind_eq_ok]
  apply exists_congr
  intro d
  apply and_congr_right
  intro _
  rw [Except.ok.injEq, eq_comm]

theorem step_delDev {iotip : List Byte} :
    Step devices (.delDev iotip) after ↔ after = deleteDevice devices iotip := by
  unfold Step operate
  rw [Except.ok.injEq, eq_comm]

theorem step_prxAdd {iotip : List Byte} :
    Step devices (.prxAdd iotip) after ↔ after = setProxied devices iotip 1 := by
  unfold Step operate
  rw [Except.ok.injEq, eq_comm]

theorem step_prxRmv {iotip : List Byte} :
    Step devices (.prxRmv iotip) after ↔ after = setProxied devices iotip 0 := by
  unfold Step operate
  rw [Except.ok.injEq, eq_comm]

/-- Every field of a new record comes from the registration. -/
theorem newDeviceInfo_reads {iotip : CharArray IP_ADDR_SIZE} {jsonData : JsonData}
    {socketIndex : ℤ} {tempStr : List Byte}
    (h : newDeviceInfo iotip jsonData socketIndex tempStr = .ok d) :
    Reads iotip jsonData socketIndex tempStr d := by
  obtain ⟨ipText, hipText, h⟩ := bind_eq_ok.mp h
  obtain ⟨ip, hip, h⟩ := bind_eq_ok.mp h
  obtain ⟨idStr, hidStr, h⟩ := bind_eq_ok.mp h
  obtain ⟨devID, hdevID, h⟩ := bind_eq_ok.mp h
  obtain ⟨groupStr, hgroupStr, h⟩ := bind_eq_ok.mp h
  obtain ⟨funGroup, hfunGroup, h⟩ := bind_eq_ok.mp h
  obtain ⟨devDesc, hdevDesc, h⟩ := bind_eq_ok.mp h
  obtain rfl := Except.ok.inj h
  refine ⟨?_, rfl, rfl, hdevDesc, idStr, groupStr, hidStr, hdevID, hgroupStr, hfunGroup⟩
  rw [hipText]
  exact CharArray.ofText_text hip (CharArray.text_eq_ok hipText).1

theorem deleteDevice_changesOnly (devices : Devices) (iotip : List Byte) :
    ChangesOnly devices iotip (fun _ => none) (deleteDevice devices iotip) := by
  unfold deleteDevice
  rw [findDeviceIndexWithIpstr_eq]
  cases hindex : SlotTable.firstIndex devices (fun d => d.ip.text = .ok iotip) with
  | none => exact .inl rfl
  | some i =>
    obtain ⟨d, hd, htext, -⟩ := SlotTable.firstIndex_eq_some hindex
    exact .inr ⟨i, d, hd, htext, rfl⟩

theorem setProxied_changesOnly (devices : Devices) (iotip : List Byte) (proxied : ℤ) :
    ChangesOnly devices iotip (fun d => some { d with proxied := proxied })
      (setProxied devices iotip proxied) := by
  unfold setProxied
  rw [findDeviceIndexWithIpstr_eq]
  cases hindex : SlotTable.firstIndex devices (fun d => d.ip.text = .ok iotip) with
  | none => exact .inl rfl
  | some i =>
    obtain ⟨d, hd, htext, -⟩ := SlotTable.firstIndex_eq_some hindex
    refine .inr ⟨i, d, hd, htext, ?_⟩
    dsimp only
    rw [hd, Option.map_some]

theorem DistinctIds.deleteDevice (hdistinct : DistinctIds devices) (iotip : List Byte) :
    DistinctIds (deleteDevice devices iotip) := by
  rcases deleteDevice_changesOnly devices iotip with hsame | ⟨i, d, -, -, hafter⟩
  · rw [hsame]
    exact hdistinct
  · rw [hafter, distinctIds_iff]
    exact (distinctIds_iff.mp hdistinct).erase

theorem DistinctIds.setProxied (hdistinct : DistinctIds devices) (iotip : List Byte)
    (proxied : ℤ) : DistinctIds (setProxied devices iotip proxied) := by
  rcases setProxied_changesOnly devices iotip proxied with hsame | ⟨i, d, hd, -, hafter⟩
  · rw [hsame]
    exact hdistinct
  · rw [hafter, distinctIds_iff]
    apply (distinctIds_iff.mp hdistinct).update
    intro j e hj he hid
    exact hj (hdistinct j i e d he hd hid)

/-- Every operation keeps the IDs apart. -/
theorem distinctIds_step {op : Operation} (hdistinct : DistinctIds devices)
    (hstep : Step devices op after) : DistinctIds after := by
  cases op with
  | addNewDevice iotip jsonData socketIndex tempStr =>
    obtain ⟨d, -, hafter⟩ := step_addNewDevice.mp hstep
    rw [hafter]
    exact hdistinct.storeDevice d
  | delDev iotip =>
    rw [step_delDev.mp hstep]
    exact DistinctIds.deleteDevice hdistinct iotip
  | prxAdd iotip =>
    rw [step_prxAdd.mp hstep]
    exact DistinctIds.setProxied hdistinct iotip 1
  | prxRmv iotip =>
    rw [step_prxRmv.mp hstep]
    exact DistinctIds.setProxied hdistinct iotip 0

theorem distinctIds_run {ops : List Operation} (hrun : Run Step noDevices ops devices) :
    DistinctIds devices :=
  hrun.invariant DistinctIds (fun _ _ _ h hstep => distinctIds_step h hstep)
    SlotTable.keyed_empty

/-- The lookups by ID after a registration. -/
theorem findDeviceWithId_storeDevice (hdistinct : DistinctIds devices)
    (hroom : SlotTable.HasRoom IoTDeviceInfo.devID devices d.devID) (id : List Byte) :
    findDeviceWithId (storeDevice devices d) id =
      if id = d.devID then some d else findDeviceWithId devices id := by
  rw [findDeviceWithId_eq, findDeviceWithId_eq, storeDevice_eq_put]
  exact (distinctIds_iff.mp hdistinct).find_put hroom id

theorem storeDevice_of_full (hfull : ¬ SlotTable.HasRoom IoTDeviceInfo.devID devices d.devID) :
    storeDevice devices d = devices := by
  rw [storeDevice_eq_put]
  exact SlotTable.put_of_full hfull

end

/-- In every state that registrations, deletions and proxy commands lead to: no two slots
hold the same ID; a registration makes a record of what it reads, and with an ID or a slot
for it this is the record of its ID afterwards and that of every other ID stays, while without
room nothing changes; a command that names an address removes one record with the address or
sets its flag, or changes nothing. -/
theorem registry_is_map {ops : List Operation} {devices : Devices}
    (hrun : Run Step noDevices ops devices) :
    (∀ i j d e, devices i = some d → devices j = some e → d.devID = e.devID → i = j) ∧
    (∀ iotip jsonData socketIndex tempStr d,
      newDeviceInfo iotip jsonData socketIndex tempStr = .ok d →
      Reads iotip jsonData socketIndex tempStr d ∧
      ∃ after, Step devices (.addNewDevice iotip jsonData socketIndex tempStr) after ∧
        (((findDeviceWithId devices d.devID).isSome ∨ ∃ i, devices i = none) →
          findDeviceWithId after d.devID = some d ∧
          ∀ id, id ≠ d.devID → findDeviceWithId after id = findDeviceWithId devices id) ∧
        (¬ ((findDeviceWithId devices d.devID).isSome ∨ ∃ i, devices i = none) →
          after = devices)) ∧
    (∀ iotip, ∀ op ∈ [Operation.delDev iotip, .prxAdd iotip, .prxRmv iotip],
      ∃ after, Step devices op after ∧ ChangesOnly devices iotip (changeOf op) after) := by
  have hdistinct := distinctIds_run hrun
  refine ⟨hdistinct, ?_, ?_⟩
  · intro iotip jsonData socketIndex tempStr d hnew
    have hknown : SlotTable.HasRoom IoTDeviceInfo.devID devices d.devID ↔
        ((findDeviceWithId devices d.devID).isSome ∨ ∃ i, devices i = none) := by
      apply or_congr_left
      rw [Option.isSome_iff_exists, findDeviceWithId_eq]
      constructor
      · intro ⟨i, e, he, hid⟩
        exact ⟨e, (distinctIds_iff.mp hdistinct).find_eq_some_iff.mpr ⟨hid, i, he⟩⟩
      · intro ⟨e, he⟩
        obtain ⟨i, hi, hid⟩ := SlotTable.find_eq_some he
        exact ⟨i, e, hi, hid⟩
    refine ⟨newDeviceInfo_reads hnew, storeDevice devices d,
      step_addNewDevice.mpr ⟨d, hnew, rfl⟩, ?_, ?_⟩
    · intro hroom
      have hfind := findDeviceWithId_storeDevice hdistinct (hknown.mpr hroom)
      refine ⟨by rw [hfind, if_pos rfl], ?_⟩
      intro id hid
      rw [hfind, if_neg hid]
    · intro hfull
      exact storeDevice_of_full (fun hroom => hfull (hknown.mp hroom))
  · intro iotip op hop
    simp only [List.mem_cons, List.not_mem_nil, or_false] at hop
    rcases hop with rfl | rfl | rfl
    · exact ⟨_, step_delDev.mpr rfl, deleteDevice_changesOnly devices iotip⟩
    · exact ⟨_, step_prxAdd.mpr rfl, setProxied_changesOnly devices iotip 1⟩
    · exact ⟨_, step_prxRmv.mpr rfl, setProxied_changesOnly devices iotip 0⟩

/-- The register package of the device with this letter as its ID. -/
def registerJsonOf (id : Byte) : JsonData :=
  { Routing.registerJson with content := Routing.registerJson.content.set 23 id }

def registerJsonC : JsonData := registerJsonOf 99

def addressA : CharArray IP_ADDR_SIZE := (CreatedPackage.packageInfoAB 17 []).sorIp.ip

def registeredC : IoTDeviceInfo where
  ip := addressA
  socketIndex := 1
  funGroup := ascii "f"
  devID := ascii "c"
  devDesc := registerJsonC.content.take 47
  proxied := 0

theorem newDeviceInfo_registerJsonC :
    newDeviceInfo addressA registerJsonC 1 (List.replicate 200 0) = .ok registeredC := by
  decide +kernel

theorem newDeviceInfo_again :
    newDeviceInfo Forwarding.deviceB.ip Routing.registerJson 2 (List.replicate 200 0) =
      .ok { Routing.registeredB with socketIndex := 2 } := by
  decide +kernel

/-- Two devices, the first of them proxied. -/
def twoDevices : Devices :=
  setProxied (storeDevice (storeDevice noDevices Routing.registeredB) registeredC) (ascii "B") 1

theorem run_twoDevices : ∃ ops, ops.length = 3 ∧ Run Step noDevices ops twoDevices := by
  have hfirst := Run.single (step_addNewDevice.mpr ⟨_, Routing.newDeviceInfo_registerJson,
    rfl⟩ : Step noDevices (.addNewDevice Forwarding.deviceB.ip Routing.registerJson
      ((0 : Manager.Slot).val : ℤ) (List.replicate 200 0)) _)
  have hsecond := hfirst.snoc (step_addNewDevice.mpr ⟨_, newDeviceInfo_registerJsonC, rfl⟩)
  exact ⟨_, rfl, hsecond.snoc (step_prxAdd.mpr rfl)⟩

theorem findDeviceWithId_twoDevices :
    findDeviceWithId twoDevices (ascii "b") = some { Routing.registeredB with proxied := 1 } ∧
      findDeviceWithId twoDevices (ascii "c") = some registeredC := by
  decide +kernel

/-- Two devices register and one is proxied. When it registers again, over another connection,
it has its new record and the other device keeps its own; a deletion takes one record. -/
theorem registry_is_map_again :
    ∃ ops after deleted, ops.length = 3 ∧ Run Step noDevices ops twoDevices ∧
      Step twoDevices (.addNewDevice Forwarding.deviceB.ip Routing.registerJson 2
        (List.replicate 200 0)) after ∧
      findDeviceWithId after (ascii "b") = some { Routing.registeredB with socketIndex := 2 } ∧
      findDeviceWithId after (ascii "c") = some registeredC ∧
      Step twoDevices (.delDev (ascii "A")) deleted ∧
      ChangesOnly twoDevices (ascii "A") (fun _ => none) deleted := by
  obtain ⟨ops, hlength, hrun⟩ := run_twoDevices
  obtain ⟨hfindB, hfindC⟩ := findDeviceWithId_twoDevices
  obtain ⟨-, hadd, hnamed⟩ := registry_is_map hrun
  obtain ⟨-, after, hstep, hroom, -⟩ := hadd _ _ _ _ _ newDeviceInfo_again
  obtain ⟨hnew, hother⟩ := hroom (.inl (Option.isSome_iff_exists.mpr ⟨_, hfindB⟩))
  obtain ⟨deleted, hdelete, hchanges⟩ := hnamed (ascii "A") (.delDev (ascii "A")) (by simp)
  exact ⟨ops, after, deleted, hlength, hrun, hstep, hnew,
    (hother (ascii "c") (by decide)).trans hfindC, hdelete, hchanges⟩

end IoTRepublic.RegistryMap
