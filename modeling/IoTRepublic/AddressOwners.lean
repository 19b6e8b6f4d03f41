import IoTRepublic.RegistryMap

/-!
Addresses and registered devices. The registry keeps IDs apart and never looks
at the address of a new record, so two devices that register from one address
both stay in the table, and only the first of them is found by it. As long as a
device registers only from an address that no other registered device has,
addresses identify devices: the lookup by address finds the device that
registered it last, and after a deletion nothing is left with the address.
-/
namespace IoTRepublic.AddressOwners

open CheckedArray Package JsFileParser Registry RegistryMap Runs

-- an equation between two tables must not be decided by running through their slots
attribute [local irreducible] storeDevice deleteDevice setProxied findDeviceIndexWithIpstr

/-- The table, and for each address the record last registered with it. -/
structure State where
  devices : Devices
  latest : List Byte → Option IoTDeviceInfo

def initState : State := ⟨noDevices, fun _ => none⟩

def step (s : State) : Operation → Exec State
  | .addNewDevice iotip jsonData socketIndex tempStr => do
    let newDevice ← newDeviceInfo iotip jsonData socketIndex tempStr
    let address ← newDevice.ip.text
    .ok ⟨storeDevice s.devices newDevice, Function.update s.latest address (some newDevice)⟩
  | .delDev iotip => .ok { s with devices := deleteDevice s.devices iotip }
  | .prxAdd iotip => .ok { s with devices := setProxied s.devices iotip 1 }
  | .prxRmv iotip => .ok { s with devices := setProxied s.devices iotip 0 }

def Step (s : State) (op : Operation) (t : State) : Prop := step s op = .ok t

/-- At most one slot holds an address. -/
def AddressesDistinct (devices : Devices) : Prop :=
  ∀ i j d e a, devices i = some d → devices j = some e →
    d.ip.text = .ok a → e.ip.text = .ok a → i = j

/-- No registered device with another ID has the address of the new record. -/
def AddressFree (devices : Devices) (newDevice : IoTDeviceInfo) : Prop :=
  ∀ i d, devices i = some d → d.ip.text = newDevice.ip.text → d.devID = newDevice.devID

/-- Devices register from addresses of their own. -/
def FromOwnAddress (s : State) : Operation → Prop
  | .addNewDevice iotip jsonData socketIndex tempStr => ∀ newDevice,
    newDeviceInfo iotip jsonData socketIndex tempStr = .ok newDevice →
      AddressFree s.devices newDevice
  | _ => True

def HasRoom (devices : Devices) (newDevice : IoTDeviceInfo) : Prop :=
  SlotTable.HasRoom IoTDeviceInfo.devID devices newDevice.devID

structure Inv (s : State) : Prop where
  ids : DistinctIds s.devices
  addresses : AddressesDistinct s.devices
  latest : ∀ i d a, s.devices i = some d → d.ip.text = .ok a →
    s.latest a = some { d with proxied := 0 }

section

variable {s t : State} {devices : Devices} {d : IoTDeviceInfo}

theorem step_addNewDevice {iotip : CharArray IP_ADDR_SIZE} {jsonData : JsonData}
    {socketIndex : ℤ} {tempStr : List Byte} :
    Step s (.addNewDevice iotip jsonData socketIndex tempStr) t ↔
      ∃ newDevice a, newDeviceInfo iotip jsonData socketIndex tempStr = .ok newDevice ∧
        newDevice.ip.text = .ok a ∧
        t = ⟨storeDevice s.devices newDevice, Function.update s.latest a (some newDevice)⟩ := by
  unfold Step step
  dsimp only
  rw [bind_eq_ok]
  apply exists_congr
  intro newDevice
  rw [bind_eq_ok]
  constructor
  · intro ⟨hnew, a, ha, ht⟩
    exact ⟨a, hnew, ha, (Except.ok.inj ht).symm⟩
  · intro ⟨a, hnew, ha, ht⟩
    exact ⟨hnew, a, ha, congrArg Except.ok ht.symm⟩

/-- Without the books, a step is a step of the registry. -/
theorem registryStep_of_step {op : Operation} (h : Step s op t) :
    RegistryMap.Step s.devices op t.devices := by
  cases op with
  | addNewDevice iotip jsonData socketIndex tempStr =>
    obtain ⟨newDevice, a, hnew, -, ht⟩ := step_addNewDevice.mp h
    rw [ht]
    exact RegistryMap.step_addNewDevice.mpr ⟨newDevice, hnew, rfl⟩
  | delDev iotip =>
    rw [← Except.ok.inj h]
    exact step_delDev.mpr rfl
  | prxAdd iotip =>
    rw [← Except.ok.inj h]
    exact step_prxAdd.mpr rfl
  | prxRmv iotip =>
    rw [← Except.ok.inj h]
    exact step_prxRmv.mpr rfl

theorem inv_init : Inv initState where
  ids := SlotTable.keyed_empty
  addresses := by
    intro i j d e a hd
    cases hd
  latest := by
    intro i d a hd
    cases hd

/-- A command that names an address keeps what it leaves as it was, the flag apart. -/
theorem Inv.changesOnly (hinv : Inv s) {iotip : List Byte} {after : Devices}
    {change : IoTDeviceInfo → Option IoTDeviceInfo}
    (hafter : ChangesOnly s.devices iotip change after) (hids : DistinctIds after)
    (hchange : ∀ d e, change d = some e → { e with proxied := 0 } = { d with proxied := 0 }) :
    Inv { s with devices := after } := by
  have hback : ∀ i e, after i = some e → ∃ d, s.devices i = some d ∧
      ({ e with proxied := 0 } : IoTDeviceInfo) = { d with proxied := 0 } := by
    intro i e he
    rcases hafter with hsame | ⟨j, d, hd, -, hafter⟩
    · rw [hsame] at he
      exact ⟨e, he, rfl⟩
    · rw [hafter] at he
      rcases SlotTable.update_eq_some he with ⟨hij, hnew⟩ | ⟨-, he⟩
      · rw [hij]
        exact ⟨d, hd, hchange d e hnew⟩
      · exact ⟨e, he, rfl⟩
  have hip : ∀ d e : IoTDeviceInfo,
      ({ e with proxied := 0 } : IoTDeviceInfo) = { d with proxied := 0 } → e.ip = d.ip := by
    intro d e hsame
    rw [IoTDeviceInfo.mk.injEq] at hsame
    exact hsame.1
  refine ⟨hids, ?_, ?_⟩
  · intro i j d e a hd he hda hea
    obtain ⟨d', hd', hsame⟩ := hback i d hd
    obtain ⟨e', he', hsame'⟩ := hback j e he
    rw [hip d' d hsame] at hda
    rw [hip e' e hsame'] at hea
    exact hinv.addresses i j d' e' a hd' he' hda hea
  · intro i d a hd hda
    obtain ⟨d', hd', hsame⟩ := hback i d hd
    rw [hip d' d hsame] at hda
    rw [hsame]
    exact hinv.latest i d' a hd' hda

theorem Inv.register (hinv : Inv s) {newDevice : IoTDeviceInfo} {a : List Byte}
    (hproxied : newDevice.proxied = 0) (ha : newDevice.ip.text = .ok a)
    (hfree : AddressFree s.devices newDevice) :
    Inv ⟨storeDevice s.devices newDevice, Function.update s.latest a (some newDevice)⟩ := by
  have hnot : ∀ i d, s.devices i = some d → d.devID ≠ newDevice.devID → d.ip.text ≠ .ok a := by
    intro i d hd hid hda
    exact hid (hfree i d hd (hda.trans ha.symm))
  have hids := hinv.ids.storeDevice newDevice
  refine ⟨hids, ?_, ?_⟩
  · intro i j d e b hd he hdb heb
    rcases storeDevice_eq_some hinv.ids hd with hdn | ⟨hd', hdid⟩ <;>
      rcases storeDevice_eq_some hinv.ids he with hen | ⟨he', heid⟩
    · exact hids i j d e hd he (by rw [hdn, hen])
    · rw [hdn, ha] at hdb
      rw [← hdb] at heb
      exact absurd heb (hnot j e he' heid)
    · rw [hen, ha] at heb
      rw [← heb] at hdb
      exact absurd hdb (hnot i d hd' hdid)
    · exact hinv.addresses i j d e b hd' he' hdb heb
  · intro i d b hd hdb
    dsimp only at hd ⊢
    rcases storeDevice_eq_some hinv.ids hd with hdn | ⟨hd', hdid⟩
    · rw [hdn, ha] at hdb
      obtain rfl := Except.ok.inj hdb
      rw [Function.update_self, hdn, ← hproxied]
    · have hba : b ≠ a := by
        intro hba
        rw [hba] at hdb
        exact hnot i d hd' hdid hdb
      rw [Function.update_of_ne hba]
      exact hinv.latest i d b hd' hdb

theorem Inv.step (hinv : Inv s) {op : Operation} (hstep : Meeting Step FromOwnAddress s op t) :
    Inv t := by
  obtain ⟨hstep, hown⟩ := hstep
  have hids := distinctIds_step hinv.ids (registryStep_of_step hstep)
  cases op with
  | addNewDevice iotip jsonData socketIndex tempStr =>
    obtain ⟨newDevice, a, hnew, ha, ht⟩ := step_addNewDevice.mp hstep
    rw [ht]
    exact hinv.register (newDeviceInfo_reads hnew).proxied ha (hown newDevice hnew)
  | delDev iotip =>
    rw [← Except.ok.inj hstep] at hids ⊢
    apply hinv.changesOnly (deleteDevice_changesOnly s.devices iotip) hids
    intro d e he
    cases he
  | prxAdd iotip =>
    rw [← Except.ok.inj hstep] at hids ⊢
    apply hinv.changesOnly (setProxied_changesOnly s.devices iotip 1) hids
    intro d e he
    rw [← Option.some.inj he]
  | prxRmv iotip =>
    rw [← Except.ok.inj hstep] at hids ⊢
    apply hinv.changesOnly (setProxied_changesOnly s.devices iotip 0) hids
    intro d e he
    rw [← Option.some.inj he]

theorem exists_stored (hids : DistinctIds devices) (hroom : HasRoom devices d) :
    ∃ i, storeDevice devices d i = some d ∧
      (∀ j, j ≠ i → storeDevice devices d j = devices j) ∧
      ∀ e, devices i = some e → e.devID = d.devID := by
  obtain ⟨i, hput, -, hold⟩ := (distinctIds_iff.mp hids).exists_put hroom
  rw [storeDevice_eq_put, hput]
  exact ⟨i, Function.update_self i (some d) devices,
    fun j hj => Function.update_of_ne hj (some d) devices, hold⟩

/-- A record stored beside another one with its address. -/
theorem not_distinct_of_shared (hids : DistinctIds devices) (hroom : HasRoom devices d)
    {a : List Byte} (ha : d.ip.text = .ok a) (hshared : ¬ AddressFree devices d) :
    ¬ AddressesDistinct (storeDevice devices d) := by
  intro hdistinct
  apply hshared
  intro j e he heip
  by_contra hid
  obtain ⟨i, hnew, hsame, hold⟩ := exists_stored hids hroom
  have hji : j ≠ i := by
    intro hji
    rw [hji] at he
    exact hid (hold e he)
  have he' : storeDevice devices d j = some e := (hsame j hji).trans he
  exact hji (hdistinct j i e d a he' hnew (heip.trans ha) ha)

theorem AddressesDistinct.findDeviceWithIp (hdistinct : AddressesDistinct devices)
    {i : DeviceIndex} {a : List Byte} (hd : devices i = some d) (ha : d.ip.text = .ok a) :
    findDeviceWithIp devices a = some d := by
  rw [findDeviceWithIp_eq]
  exact SlotTable.find_of_unique hd ha (fun j e he hea => hdistinct j i e d a he hd hea ha)

/-- Deleting the first record with an address deletes the only one. -/
theorem findDeviceWithIp_deleteDevice (hdistinct : AddressesDistinct devices) (a : List Byte) :
    findDeviceWithIp (deleteDevice devices a) a = none := by
  rw [findDeviceWithIp_eq, SlotTable.find_eq_none_iff]
  intro j e he hea
  unfold deleteDevice at he
  rw [findDeviceIndexWithIpstr_eq] at he
  cases hindex : SlotTable.firstIndex devices (fun d => d.ip.text = .ok a) with
  | none =>
    rw [hindex] at he
    exact SlotTable.firstIndex_eq_none hindex he hea
  | some i =>
    rw [hindex] at he
    rcases SlotTable.update_eq_some he with ⟨-, hnone⟩ | ⟨hji, he⟩
    · cases hnone
    · obtain ⟨d, hd, hda, -⟩ := SlotTable.firstIndex_eq_some hindex
      exact hji (hdistinct j i e d a he hd hea hda)

end

/-- In every run in which devices register from addresses of their own: at most one slot
holds an address; the device found by an address is the one that registered it last; a
device that registers is found by its address, while one that registers from the address
of another leaves two slots with it; and after a deletion no device has the address. -/
theorem addresses_identify {ops : List Operation} {s : State}
    (hrun : Run (Meeting Step FromOwnAddress) initState ops s) :
    AddressesDistinct s.devices ∧
    (∀ a d, findDeviceWithIp s.devices a = some d → s.latest a = some { d with proxied := 0 }) ∧
    (∀ iotip jsonData socketIndex tempStr d a t,
      newDeviceInfo iotip jsonData socketIndex tempStr = .ok d → d.ip.text = .ok a →
      HasRoom s.devices d → Step s (.addNewDevice iotip jsonData socketIndex tempStr) t →
      (AddressFree s.devices d → findDeviceWithIp t.devices a = some d) ∧
      (¬ AddressFree s.devices d → ¬ AddressesDistinct t.devices)) ∧
    (∀ a t, Step s (.delDev a) t → findDeviceWithIp t.devices a = none) := by
  have hinv : Inv s := hrun.invariant Inv (fun _ _ _ hs hstep => hs.step hstep) inv_init
  refine ⟨hinv.addresses, ?_, ?_, ?_⟩
  · intro a d hfound
    obtain ⟨i, hd, ha⟩ := findDeviceWithIp_eq_some hfound
    exact hinv.latest i d a hd ha
  · intro iotip jsonData socketIndex tempStr d a t hnew ha hroom hstep
    obtain ⟨d', a', hnew', ha', ht⟩ := step_addNewDevice.mp hstep
    obtain rfl := Except.ok.inj (hnew.symm.trans hnew')
    rw [ht]
    constructor
    · intro hfree
      obtain ⟨i, hstored, -⟩ := exists_stored hinv.ids hroom
      have hproxied := (newDeviceInfo_reads hnew).proxied
      exact (hinv.register hproxied ha hfree).addresses.findDeviceWithIp hstored ha
    · exact not_distinct_of_shared hinv.ids hroom ha
  · intro a t hstep
    rw [← Except.ok.inj hstep]
    exact findDeviceWithIp_deleteDevice hinv.addresses a

/-- The record of device `c`, registered from the address of device `b`. -/
def fromAddressB : IoTDeviceInfo :=
  { Routing.registeredB with devID := ascii "c", devDesc := registerJsonC.content.take 47 }

theorem newDeviceInfo_fromAddressB :
    newDeviceInfo Forwarding.deviceB.ip registerJsonC ((0 : Manager.Slot).val : ℤ)
      (List.replicate 200 0) = .ok fromAddressB := by
  decide +kernel

/-- The register package of device `b`. -/
def registerB : Operation :=
  .addNewDevice Forwarding.deviceB.ip Routing.registerJson 0 (List.replicate 200 0)

theorem registeredB_text : Routing.registeredB.ip.text = .ok (ascii "B") := by decide

/-- The registry after it. -/
def stateB : State :=
  ⟨storeDevice noDevices Routing.registeredB,
    Function.update (fun _ => none) (ascii "B") (some Routing.registeredB)⟩

theorem step_registerB : Step initState registerB stateB :=
  step_addNewDevice.mpr ⟨_, _, Routing.newDeviceInfo_registerJson, registeredB_text, rfl⟩

/-- Two devices register from one address, and both have a slot with it. -/
theorem address_shared :
    ¬ ∀ ops s, Run Step initState ops s → AddressesDistinct s.devices := by
  intro hall
  have hsecond : Step stateB
      (.addNewDevice Forwarding.deviceB.ip registerJsonC ((0 : Manager.Slot).val : ℤ)
        (List.replicate 200 0))
      ⟨storeDevice (storeDevice noDevices Routing.registeredB) fromAddressB, _⟩ :=
    step_addNewDevice.mpr ⟨_, _, newDeviceInfo_fromAddressB, registeredB_text, rfl⟩
  have hrun := ((Run.nil initState).snoc step_registerB).snoc hsecond
  have hids : DistinctIds noDevices := SlotTable.keyed_empty
  rw [Routing.storeDevice_noDevices] at hrun
  have hids' : DistinctIds (Function.update noDevices 0 (some Routing.registeredB)) := by
    rw [← Routing.storeDevice_noDevices]
    exact hids.storeDevice _
  have hroom : HasRoom (Function.update noDevices 0 (some Routing.registeredB)) fromAddressB :=
    .inr ⟨1, Function.update_of_ne (by decide) _ _⟩
  refine not_distinct_of_shared hids' hroom registeredB_text ?_ (hall _ _ hrun)
  intro hfree
  have hslot : Function.update noDevices 0 (some Routing.registeredB) 0 =
      some Routing.registeredB := Function.update_self (0 : DeviceIndex) _ noDevices
  exact absurd (hfree 0 _ hslot rfl) (by decide)

/-- The register package of device `c`, from an address of its own. -/
def registerC : Operation := .addNewDevice addressA registerJsonC 1 (List.replicate 200 0)

def stateBC : State :=
  ⟨storeDevice stateB.devices registeredC,
    Function.update stateB.latest (ascii "A") (some registeredC)⟩

theorem registeredC_text : registeredC.ip.text = .ok (ascii "A") := by decide

theorem step_registerC : Step stateB registerC stateBC :=
  step_addNewDevice.mpr ⟨_, _, newDeviceInfo_registerJsonC, registeredC_text, rfl⟩

theorem addressFree_registeredC : AddressFree stateB.devices registeredC := by
  intro i d hd htext
  have hids : DistinctIds noDevices := SlotTable.keyed_empty
  rcases storeDevice_eq_some hids hd with rfl | ⟨hnone, -⟩
  · exact absurd htext (by decide)
  · cases hnone

theorem run_registerB : Run (Meeting Step FromOwnAddress) initState [registerB] stateB := by
  refine Run.single ⟨step_registerB, ?_⟩
  intro newDevice _ i d hd
  cases hd

theorem run_registerBC :
    Run (Meeting Step FromOwnAddress) initState [registerB, registerC] stateBC := by
  have hownC : FromOwnAddress stateB registerC := by
    intro newDevice hnew
    obtain rfl := Except.ok.inj (newDeviceInfo_registerJsonC.symm.trans hnew)
    exact addressFree_registeredC
  exact run_registerB.snoc ⟨step_registerC, hownC⟩

/-- Two devices register from their own addresses, each is found by its address with the record
of its registration, and one of them is deleted. -/
theorem addresses_identify_deleted :
    Run (Meeting Step FromOwnAddress) initState [registerB, registerC] stateBC ∧
      AddressesDistinct stateBC.devices ∧
      findDeviceWithIp stateBC.devices (ascii "B") = some Routing.registeredB ∧
      stateBC.latest (ascii "B") = some Routing.registeredB ∧
      findDeviceWithIp stateBC.devices (ascii "A") = some registeredC ∧
      ∃ t, Step stateBC (.delDev (ascii "B")) t ∧ findDeviceWithIp t.devices (ascii "B") = none ∧
        findDeviceWithIp t.devices (ascii "A") = some registeredC := by
  have hfindB : findDeviceWithIp stateBC.devices (ascii "B") = some Routing.registeredB := by
    decide +kernel
  have hrest : findDeviceWithIp (deleteDevice stateBC.devices (ascii "B")) (ascii "A") =
      some registeredC := by
    decide +kernel
  have hroom : HasRoom stateB.devices registeredC := by
    refine .inr ⟨1, ?_⟩
    decide +kernel
  obtain ⟨-, -, hregister, -⟩ := addresses_identify run_registerB
  obtain ⟨hdistinct, hlatest, -, hdelete⟩ := addresses_identify run_registerBC
  have hfindA := (hregister _ _ _ _ registeredC _ stateBC newDeviceInfo_registerJsonC
    registeredC_text hroom step_registerC).1 addressFree_registeredC
  exact ⟨run_registerBC, hdistinct, hfindB, hlatest _ _ hfindB, hfindA, _, rfl,
    hdelete _ _ rfl, hrest⟩

end IoTRepublic.AddressOwners
