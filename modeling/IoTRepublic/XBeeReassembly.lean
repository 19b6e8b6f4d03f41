import IoTRepublic.Reassembly
import IoTRepublic.XBeeBroker
import Mathlib.Data.Fintype.Card
import Mathlib.Data.List.Forall2

/-!
Reassembly in the XBee broker. The frames of all devices arrive on one radio;
each device has a record with a buffer of its own, which is made when its first
frame arrives. Packages that have arrived whole are sent on to the manager, and
a request for an address is copied and handed to a registration thread. What is
extracted for a device depends on its own frames alone, whatever the frames of
the others do in between.
-/
namespace IoTRepublic.XBeeReassembly

open CheckedArray Package PackageReader Framing Runs Reassembly
open Manager (MAXRECV PackageBuffer charcat)
open XBeeBroker hiding Event State Step step initState

/-- A record of the table together with the bytes received from its device so far. -/
structure ReceivingDevice where
  info : XBeeDevInfo
  buffer : List Byte
  bufOffset : ℤ

namespace ReceivingDevice

/-- The new record of `add_new_xbee_device`. -/
def new (addr : XBeeAddress64) (ip : List Byte) : ReceivingDevice :=
  ⟨newXbeeDevice addr ip, List.replicate MAXRECV 0, 0⟩

/-- The buffer and the count in it, as the reader is given them. -/
def received (d : ReceivingDevice) : PackageBuffer := ⟨d.buffer, d.bufOffset⟩

end ReceivingDevice

abbrev ReceivingDevices := Slot → Option ReceivingDevice

def infos (devices : ReceivingDevices) : XBeeDevices :=
  fun i => (devices i).map ReceivingDevice.info

/-- `add_new_xbee_device`, the buffer included. -/
def addReceivingDevice (devices : ReceivingDevices) (addr : XBeeAddress64) (ip : List Byte) :
    ReceivingDevices × Option Slot :=
  match emptyIndex (infos devices) with
  | some i => (Function.update devices i (some (ReceivingDevice.new addr ip)), some i)
  | none => (devices, none)

/-- What becomes of a completed package. -/
inductive Extracted
  | registered (package : IoTPackage)
  | sent (bytes : List Byte)

/-- `registerPackage` is the block for the copy before anything is stored in it. -/
def handleCompleted (sendBuffer : List Byte) (packageInfo registerPackage : IoTPackage) :
    Exec (List Byte × Extracted) := do
  let request ← isIpRequest packageInfo
  if request then do
    let registerPackage ← copyIotPackage registerPackage packageInfo
    .ok (sendBuffer, .registered registerPackage)
  else do
    let (sendBuffer, n) ← encodePackage sendBuffer packageInfo
    .ok (sendBuffer, .sent (sendBuffer.take n))

/-- The `do … while` loop; `memory` are the blocks that its calls of `malloc` return. -/
def drainLoop (memory : ℕ → IoTPackage) :
    ℕ → ReceivingDevice → List Byte → Exec (ReceivingDevice × List Byte × List Extracted)
  | 0, _, _ => .error .unfinished
  | fuel + 1, d, sendBuffer => do
    let r ← getCompletedPackage d.buffer d.bufOffset generateIotPackage
    let d := { d with buffer := r.buffer, bufOffset := r.bufferLength }
    if r.result = .completed then do
      let (sendBuffer, extracted) ← handleCompleted sendBuffer r.packageInfo (memory fuel)
      if d.bufOffset > 0 then do
        let (d, sendBuffer, more) ← drainLoop memory fuel d sendBuffer
        .ok (d, sendBuffer, extracted :: more)
      else .ok (d, sendBuffer, [extracted])
    else .ok (d, sendBuffer, [])

/-- `charcat` of the payload behind what is held. A full buffer is reported and not emptied. -/
def storePayload (d : ReceivingDevice) (rawData : List Byte) : Exec ReceivingDevice := do
  let buffer ← charcat d.buffer rawData d.bufOffset rawData.length
  .ok { d with buffer := buffer, bufOffset := d.bufOffset + rawData.length }

/-- The table and the buffer in which packages for the manager are written. -/
structure Broker where
  devices : ReceivingDevices
  sendBuffer : List Byte

/-- The slot of the device a frame is from. -/
def deviceIndexOf (devices : ReceivingDevices) (addr : XBeeAddress64) (ip : List Byte) :
    Exec (ReceivingDevices × Slot) :=
  match findDeviceIndex (infos devices) addr with
  | some index => .ok (devices, index)
  | none =>
    match addReceivingDevice devices addr ip with
    | (devices, some index) => .ok (devices, index)
    | (_, none) => .error .readOutside

/-- A received frame. `ip` and `memory` are what the memory held that is allocated for it. -/
structure RxFrame where
  addr : XBeeAddress64
  rawData : List Byte
  ip : List Byte
  memory : ℕ → IoTPackage

/-- The `ZB_RX_RESPONSE` branch of `listen_to_end_device_loop`. -/
def handleRxFrame (fuel : ℕ) (s : Broker) (frame : RxFrame) : Exec (Broker × List Extracted) := do
  let (devices, index) ← deviceIndexOf s.devices frame.addr frame.ip
  match devices index with
  | none => .error .readOutside
  | some d => do
    let d ← storePayload d frame.rawData
    let (d, sendBuffer, extracted) ← drainLoop frame.memory fuel d s.sendBuffer
    .ok (⟨Function.update devices index (some d), sendBuffer⟩, extracted)

/-- `update_iot_ip` of a registration thread. -/
def assignIp (s : Broker) (addr : XBeeAddress64) (ip : List Byte) : Broker :=
  match findDeviceIndex (infos s.devices) addr with
  | some index =>
    { s with devices := Function.update s.devices index ((s.devices index).map (fun d =>
        { d with info := { d.info with isAlive := 1, ip := ip } })) }
  | none => s

/-- Without the buffers, a new device is what `addNewXbeeDevice` stores. -/
theorem infos_addReceivingDevice (devices : ReceivingDevices) (addr : XBeeAddress64)
    (ip : List Byte) :
    (infos (addReceivingDevice devices addr ip).1, (addReceivingDevice devices addr ip).2) =
      addNewXbeeDevice (infos devices) addr ip := by
  unfold addReceivingDevice addNewXbeeDevice
  cases emptyIndex (infos devices) with
  | none => rfl
  | some i =>
    apply congrArg (fun table => (table, some i))
    funext j
    by_cases hj : j = i
    · simp [infos, hj, ReceivingDevice.new]
    · simp [infos, hj]

/-- Without the buffers, an assigned address is what `updateIotIp` stores. -/
theorem infos_assignIp (s : Broker) (addr : XBeeAddress64) (ip : List Byte) :
    infos (assignIp s addr ip).devices = updateIotIp (infos s.devices) addr ip := by
  unfold assignIp updateIotIp
  cases findDeviceIndex (infos s.devices) addr with
  | none => rfl
  | some index =>
    funext j
    by_cases hj : j = index
    · subst hj
      simp only [infos, Function.update_self, Option.map_map]
      rfl
    · simp [infos, hj]

/-- A package from a device without an address to a server it does not know yet. -/
def IsRequest (m : SentPackage) : Prop := m.desIp = ascii "0" ∧ m.sorIp = ascii "0"

instance (m : SentPackage) : Decidable (IsRequest m) := by
  unfold IsRequest
  infer_instance

/-- A request is handed to registration, any other package is sent on with its own bytes. -/
def Handled (m : SentPackage) : Extracted → Prop
  | .registered package =>
    IsRequest m ∧ package = { m.package with belongSocketIdx := package.belongSocketIdx }
  | .sent bytes => ¬ IsRequest m ∧ bytes = m.bytes

theorem handleCompleted_eq_ok (m : SentPackage) {sendBuffer : List Byte}
    (hsize : sendBuffer.length = MAXRECV) (registerPackage : IoTPackage) :
    ∃ sendBuffer' extracted,
      handleCompleted sendBuffer m.package registerPackage = .ok (sendBuffer', extracted) ∧
        sendBuffer'.length = MAXRECV ∧ Handled m extracted := by
  have hcreated := m.isCreated
  have hrequest := hcreated.isIpRequest_eq m.sor m.des
  by_cases hm : IsRequest m
  · refine ⟨sendBuffer, .registered { m.package with
      belongSocketIdx := registerPackage.belongSocketIdx }, ?_, hsize, hm, rfl⟩
    unfold IsRequest at hm
    simp only [handleCompleted, hrequest, ok_bind, hm, decide_true, ↓reduceIte, and_self,
      hcreated.copyIotPackage_eq m.sor m.des]
  · obtain ⟨s, hs, -⟩ := m.encoded
    obtain ⟨hdata, hfits, -⟩ := (hcreated.encodePackage_eq_ok m.sor m.des).mp hs
    rw [List.length_replicate] at hfits
    have hencode := (hcreated.encodePackage_eq_ok m.sor m.des).mpr
      ⟨hdata, hsize ▸ hfits, rfl⟩
    refine ⟨(written sendBuffer (wireBytes m.package)).1, .sent m.bytes, ?_, ?_, hm, rfl⟩
    · unfold IsRequest at hm
      simp only [handleCompleted, hrequest, ok_bind, hm, decide_false, Bool.false_eq_true,
        ↓reduceIte, hencode, written_take, m.bytes_eq.1]
    · rw [written, splice_length _ _ _ (by omega)]
      exact hsize

/-- The loop of the broker extracts what the reader drains. -/
theorem drainLoop_of_drains (memory : ℕ → IoTPackage) {held left : List Byte}
    {ms : List SentPackage} (hdrains : Drains Takes Waits held ms left) {d : ReceivingDevice}
    (hd : Holds d.received held) {sendBuffer : List Byte} (hsize : sendBuffer.length = MAXRECV)
    {fuel : ℕ} (hfuel : ms.length < fuel) :
    ∃ d' sendBuffer' extracted,
      drainLoop memory fuel d sendBuffer = .ok (d', sendBuffer', extracted) ∧
        d'.info = d.info ∧ Holds d'.received left ∧ sendBuffer'.length = MAXRECV ∧
        List.Forall₂ Handled ms extracted := by
  induction hdrains generalizing d sendBuffer fuel with
  | stop hwaits =>
    obtain ⟨fuel, rfl⟩ : ∃ k, fuel = k + 1 := ⟨fuel - 1, by omega⟩
    obtain ⟨q, hread⟩ := hwaits d.received hd
    refine ⟨d, sendBuffer, [], ?_, rfl, hd, hsize, .nil⟩
    simp only [ReceivingDevice.received] at hread
    simp only [drainLoop, hread, ok_bind, reduceCtorEq, ↓reduceIte]
  | @take held rest left m ms htakes hmore ih =>
    obtain ⟨fuel, rfl⟩ : ∃ k, fuel = k + 1 := ⟨fuel - 1, by omega⟩
    rw [List.length_cons] at hfuel
    obtain ⟨b, hread, hb⟩ := htakes.2 d.received hd
    simp only [ReceivingDevice.received] at hread
    obtain ⟨sendBuffer₁, first, hfirst, hsize₁, hhandled⟩ :=
      handleCompleted_eq_ok m hsize (memory fuel)
    by_cases hrest : rest = []
    · subst hrest
      obtain ⟨rfl, rfl⟩ := hmore.of_nil (fun _ _ _ h => h.1)
      have hcount : ¬ b.receiveCount > 0 := by
        rw [hb.count]
        simp
      refine ⟨{ d with buffer := b.tempBuffer, bufOffset := b.receiveCount }, sendBuffer₁, [first],
        ?_, rfl, hb, hsize₁, .cons hhandled .nil⟩
      simp only [drainLoop, hread, ok_bind, ↓reduceIte, hfirst, hcount]
    · have hcount : b.receiveCount > 0 := by
        have := List.length_pos_iff.mpr hrest
        rw [hb.count]
        omega
      obtain ⟨d₂, sendBuffer₂, more, hloop, hinfo, hd₂, hsize₂, hall⟩ := @ih
        { d with buffer := b.tempBuffer, bufOffset := b.receiveCount } hb sendBuffer₁ hsize₁ fuel
        (by omega)
      refine ⟨d₂, sendBuffer₂, first :: more, ?_, hinfo, hd₂, hsize₂, .cons hhandled hall⟩
      simp only [drainLoop, hread, ok_bind, ↓reduceIte, hfirst, hcount, hloop]

theorem storePayload_holds {d : ReceivingDevice} {held : List Byte} (hd : Holds d.received held)
    (rawData : List Byte) (hroom : held.length + rawData.length ≤ MAXRECV) :
    ∃ d', storePayload d rawData = .ok d' ∧ d'.info = d.info ∧
      Holds d'.received (held ++ rawData) := by
  obtain ⟨buffer, hcopy, hholds⟩ := charcat_holds hd rawData le_rfl hroom
  rw [List.take_length] at hholds
  simp only [ReceivingDevice.received] at hcopy
  refine ⟨{ d with buffer := buffer, bufOffset := d.bufOffset + rawData.length }, ?_, rfl, hholds⟩
  rw [storePayload, hcopy, ok_bind]

/-- The device of every slot is one of the known ones, and no two slots are for one device. -/
structure TableOf (addrs : Finset XBeeAddress64) (devices : ReceivingDevices) : Prop where
  known : ∀ i d, devices i = some d → d.info.xbAddr ∈ addrs
  distinct : ∀ i j d d', devices i = some d → devices j = some d' →
    d.info.xbAddr = d'.info.xbAddr → i = j

section

variable {addrs : Finset XBeeAddress64} {devices : ReceivingDevices} {index : Slot}
  {d d' : ReceivingDevice}

/-- Beside a slot that was given another record for its device, the table is about the others. -/
theorem TableOf.update_cases (h : TableOf addrs devices) (hd : devices index = some d)
    (hsame : d'.info.xbAddr = d.info.xbAddr) {i : Slot} {e : ReceivingDevice}
    (he : Function.update devices index (some d') i = some e) :
    i = index ∧ e = d' ∨ i ≠ index ∧ devices i = some e ∧ e.info.xbAddr ≠ d'.info.xbAddr := by
  by_cases hi : i = index
  · rw [hi, Function.update_self] at he
    exact .inl ⟨hi, (Option.some.inj he).symm⟩
  · rw [Function.update_of_ne hi] at he
    refine .inr ⟨hi, he, ?_⟩
    intro heq
    exact hi (h.distinct i index e d he hd (heq.trans hsame))

theorem TableOf.update (h : TableOf addrs devices) (hd : devices index = some d)
    (hsame : d'.info.xbAddr = d.info.xbAddr) :
    TableOf addrs (Function.update devices index (some d')) := by
  constructor
  · intro i e he
    rcases h.update_cases hd hsame he with ⟨-, rfl⟩ | ⟨-, he, -⟩
    · rw [hsame]
      exact h.known index d hd
    · exact h.known i e he
  · intro i j e e' he he' heq
    rcases h.update_cases hd hsame he with ⟨hi, rfl⟩ | ⟨-, hold, hne⟩ <;>
      rcases h.update_cases hd hsame he' with ⟨hj, rfl⟩ | ⟨-, hold', hne'⟩
    · exact hi.trans hj.symm
    · exact absurd heq.symm hne'
    · exact absurd heq hne
    · exact h.distinct i j e e' hold hold' heq

end

theorem findDeviceIndex_infos {devices : ReceivingDevices} {addr : XBeeAddress64} {i : Slot}
    (h : findDeviceIndex (infos devices) addr = some i) :
    ∃ d, devices i = some d ∧ d.info.xbAddr = addr := by
  have hany := Fin.eq_true_of_find?_eq_some h
  unfold infos at hany
  cases hd : devices i with
  | none => simp [hd] at hany
  | some d => exact ⟨d, rfl, by simpa [hd] using hany⟩

theorem findDeviceIndex_infos_none {devices : ReceivingDevices} {addr : XBeeAddress64}
    (h : findDeviceIndex (infos devices) addr = none) {i : Slot} {d : ReceivingDevice}
    (hd : devices i = some d) : d.info.xbAddr ≠ addr := by
  have hnone := Fin.eq_false_of_find?_eq_none h i
  simpa [infos, hd] using hnone

/-- While a known device is missing, a slot is free. -/
theorem TableOf.exists_empty {addrs : Finset XBeeAddress64} {devices : ReceivingDevices}
    (htable : TableOf addrs devices) (hcount : addrs.card ≤ MAXDEVICECOUNT) {addr : XBeeAddress64}
    (haddr : addr ∈ addrs) (hnone : findDeviceIndex (infos devices) addr = none) :
    ∃ i, emptyIndex (infos devices) = some i ∧ devices i = none := by
  cases hempty : emptyIndex (infos devices) with
  | some i =>
    have hi := emptyIndex_eq_some hempty
    exact ⟨i, rfl, by simpa [infos] using hi⟩
  | none =>
    have hfull : ∀ i, ∃ d, devices i = some d := by
      intro i
      have hsome := Fin.eq_false_of_find?_eq_none hempty i
      apply Option.isSome_iff_exists.mp
      simpa [infos] using hsome
    choose d hd using hfull
    have hinto : ∀ i ∈ Finset.univ, (d i).info.xbAddr ∈ addrs.erase addr := by
      intro i _
      exact Finset.mem_erase.mpr
        ⟨findDeviceIndex_infos_none hnone (hd i), htable.known i _ (hd i)⟩
    have hinj : Set.InjOn (fun i => (d i).info.xbAddr) (Finset.univ : Finset Slot) := by
      intro i _ j _ hij
      exact htable.distinct i j _ _ (hd i) (hd j) hij
    have hle := Finset.card_le_card_of_injOn _ hinto hinj
    rw [Finset.card_univ, Fintype.card_fin, Finset.card_erase_of_mem haddr] at hle
    have hmax : MAXDEVICECOUNT = 10 := rfl
    omega

/-- What the radio and the registration threads can do to the broker. -/
inductive Event
  | frame (frame : RxFrame)
  | assignIp (addr : XBeeAddress64) (ip : List Byte)

def serve (fuel : ℕ) (s : Broker) : Event → Exec (Broker × List Extracted)
  | .frame frame => handleRxFrame fuel s frame
  | .assignIp addr ip => .ok (assignIp s addr ip, [])

/-- The broker, and for each address the bytes received from it and what was extracted. -/
structure Session where
  broker : Broker
  received : XBeeAddress64 → List Byte
  extracted : XBeeAddress64 → List Extracted

namespace Session

def init (sendBuffer : CharArray MAXRECV) : Session where
  broker := ⟨fun _ => none, sendBuffer.bytes⟩
  received := fun _ => []
  extracted := fun _ => []

def record (s : Session) (broker : Broker) (extracted : List Extracted) : Event → Session
  | .frame frame =>
    { broker := broker
      received := Function.update s.received frame.addr (s.received frame.addr ++ frame.rawData)
      extracted := Function.update s.extracted frame.addr
        (s.extracted frame.addr ++ extracted) }
  | .assignIp _ _ => { s with broker := broker }

/-- Each of the devices sends its packages in order, in frames of 1 to 255 bytes. -/
def Allowed (sends : XBeeAddress64 → List SentPackage) (addrs : Finset XBeeAddress64)
    (s : Session) : Event → Prop
  | .frame frame => frame.addr ∈ addrs ∧ 1 ≤ frame.rawData.length ∧ frame.rawData.length ≤ 255 ∧
      s.received frame.addr ++ frame.rawData <+: streamOf SentPackage.bytes (sends frame.addr)
  | .assignIp _ _ => True

def Step (sends : XBeeAddress64 → List SentPackage) (addrs : Finset XBeeAddress64) (fuel : ℕ)
    (s : Session) (e : Event) (t : Session) : Prop :=
  s.Allowed sends addrs e ∧ ∃ broker extracted,
    serve fuel s.broker e = .ok (broker, extracted) ∧ t = s.record broker extracted e

/-- What holds of the broker in every state. -/
structure Inv (sends : XBeeAddress64 → List SentPackage) (addrs : Finset XBeeAddress64)
    (s : Session) : Prop where
  table : TableOf addrs s.broker.devices
  sendBuffer : s.broker.sendBuffer.length = MAXRECV
  stream : ∀ a, s.received a <+: streamOf SentPackage.bytes (sends a)
  unseen : ∀ a, (∀ i d, s.broker.devices i = some d → d.info.xbAddr ≠ a) → s.received a = []
  buffer : ∀ i d, s.broker.devices i = some d →
    Holds d.received (pending SentPackage.bytes (sends d.info.xbAddr) (s.received d.info.xbAddr))
  extracted : ∀ a, List.Forall₂ Handled
    (arrived SentPackage.bytes (sends a) (s.received a).length) (s.extracted a)

section

variable {sends : XBeeAddress64 → List SentPackage} {addrs : Finset XBeeAddress64} {fuel : ℕ}
  {s t : Session}

theorem arrived_zero (ms : List SentPackage) : arrived SentPackage.bytes ms 0 = [] := by
  cases ms with
  | nil => rfl
  | cons m rest => exact arrived_cons_unfinished _ _ _ _ m.bytes_pos

theorem inv_init (sends : XBeeAddress64 → List SentPackage) (addrs : Finset XBeeAddress64)
    (sendBuffer : CharArray MAXRECV) : Inv sends addrs (init sendBuffer) where
  table := ⟨by simp [init], by simp [init]⟩
  sendBuffer := sendBuffer.size
  stream := fun _ => List.nil_prefix
  unseen := fun _ _ => rfl
  buffer := by simp [init]
  extracted := by simp [init, arrived_zero]

/-- A table that changed in what is not about the received bytes. -/
theorem Inv.of_same (hinv : Inv sends addrs s) {devices : ReceivingDevices}
    (hsame : ∀ i, (devices i).map (fun d => (d.info.xbAddr, d.received)) =
      (s.broker.devices i).map (fun d => (d.info.xbAddr, d.received))) :
    Inv sends addrs { s with broker := { s.broker with devices := devices } } := by
  have hback : ∀ i d, devices i = some d → ∃ d', s.broker.devices i = some d' ∧
      d'.info.xbAddr = d.info.xbAddr ∧ d'.received = d.received := by
    intro i d hd
    have hi := hsame i
    rw [hd, Option.map_some, eq_comm, Option.map_eq_some_iff] at hi
    obtain ⟨d', hd', hpair⟩ := hi
    exact ⟨d', hd', (Prod.mk.inj hpair).1, (Prod.mk.inj hpair).2⟩
  have hforth : ∀ i d, s.broker.devices i = some d → ∃ d', devices i = some d' ∧
      d'.info.xbAddr = d.info.xbAddr := by
    intro i d hd
    have hi := hsame i
    rw [hd, Option.map_some, Option.map_eq_some_iff] at hi
    obtain ⟨d', hd', hpair⟩ := hi
    exact ⟨d', hd', (Prod.mk.inj hpair).1⟩
  refine ⟨⟨?_, ?_⟩, hinv.sendBuffer, hinv.stream, ?_, ?_, hinv.extracted⟩
  · intro i d hd
    obtain ⟨d', hd', haddr, -⟩ := hback i d hd
    rw [← haddr]
    exact hinv.table.known i d' hd'
  · intro i j d e hd he heq
    obtain ⟨d', hd', haddr, -⟩ := hback i d hd
    obtain ⟨e', he', haddr', -⟩ := hback j e he
    exact hinv.table.distinct i j d' e' hd' he' (haddr.trans (heq.trans haddr'.symm))
  · intro a ha
    apply hinv.unseen a
    intro i d hd
    obtain ⟨d', hd', haddr⟩ := hforth i d hd
    rw [← haddr]
    exact ha i d' hd'
  · intro i d hd
    obtain ⟨d', hd', haddr, hreceived⟩ := hback i d hd
    rw [← haddr, ← hreceived]
    exact hinv.buffer i d' hd'

theorem Inv.assignIp (hinv : Inv sends addrs s) (addr : XBeeAddress64) (ip : List Byte) :
    Inv sends addrs { s with broker := assignIp s.broker addr ip } := by
  unfold XBeeReassembly.assignIp
  cases findDeviceIndex (infos s.broker.devices) addr with
  | none => exact hinv
  | some index =>
    apply hinv.of_same
    intro i
    by_cases hi : i = index
    · subst hi
      simp only [Function.update_self, Option.map_map]
      rfl
    · simp only [Function.update_of_ne hi]

/-- The device of a frame has a slot, at the latest when the frame has been looked up. -/
theorem Inv.deviceIndexOf (hinv : Inv sends addrs s) (hcount : addrs.card ≤ MAXDEVICECOUNT)
    {addr : XBeeAddress64} (haddr : addr ∈ addrs) (ip : List Byte) :
    ∃ devices index d, deviceIndexOf s.broker.devices addr ip = .ok (devices, index) ∧
      devices index = some d ∧ d.info.xbAddr = addr ∧
      Inv sends addrs { s with broker := { s.broker with devices := devices } } := by
  cases hfind : findDeviceIndex (infos s.broker.devices) addr with
  | some index =>
    obtain ⟨d, hd, hd'⟩ := findDeviceIndex_infos hfind
    refine ⟨s.broker.devices, index, d, ?_, hd, hd', hinv⟩
    simp only [XBeeReassembly.deviceIndexOf, hfind]
  | none =>
    obtain ⟨index, hempty, hindex⟩ := hinv.table.exists_empty hcount haddr hfind
    have hother : ∀ i d, s.broker.devices i = some d → d.info.xbAddr ≠ addr :=
      fun i d hd => findDeviceIndex_infos_none hfind hd
    refine ⟨Function.update s.broker.devices index (some (ReceivingDevice.new addr ip)), index,
      ReceivingDevice.new addr ip, ?_, Function.update_self .., rfl, ?_⟩
    · simp only [XBeeReassembly.deviceIndexOf, hfind, addReceivingDevice, hempty]
    have hold : ∀ i d, Function.update s.broker.devices index
        (some (ReceivingDevice.new addr ip)) i = some d →
        i = index ∧ d = ReceivingDevice.new addr ip ∨ i ≠ index ∧ s.broker.devices i = some d := by
      intro i d hd
      by_cases hi : i = index
      · rw [hi, Function.update_self] at hd
        exact .inl ⟨hi, (Option.some.inj hd).symm⟩
      · rw [Function.update_of_ne hi] at hd
        exact .inr ⟨hi, hd⟩
    refine ⟨⟨?_, ?_⟩, hinv.sendBuffer, hinv.stream, ?_, ?_, hinv.extracted⟩
    · intro i d hd
      rcases hold i d hd with ⟨-, rfl⟩ | ⟨-, hd⟩
      · exact haddr
      · exact hinv.table.known i d hd
    · intro i j d e hd he heq
      rcases hold i d hd with ⟨hi, rfl⟩ | ⟨-, hd'⟩ <;>
        rcases hold j e he with ⟨hj, rfl⟩ | ⟨-, he'⟩
      · exact hi.trans hj.symm
      · exact absurd heq.symm (hother j e he')
      · exact absurd heq (hother i d hd')
      · exact hinv.table.distinct i j d e hd' he' heq
    · intro a ha
      apply hinv.unseen a
      intro i d hd
      apply ha i d
      have hi : i ≠ index := by
        intro hi
        rw [hi, hindex] at hd
        cases hd
      simp only [Function.update_of_ne hi]
      exact hd
    · intro i d hd
      rcases hold i d hd with ⟨-, rfl⟩ | ⟨-, hd⟩
      · have hnothing := hinv.unseen addr hother
        simp only [ReceivingDevice.new, newXbeeDevice, hnothing, pending, List.drop_nil]
        exact holds_generated
      · exact hinv.buffer i d hd

/-- A frame extracts the packages that it completes, and nothing of another device. -/
theorem Inv.frame (hinv : Inv sends addrs s) (hcount : addrs.card ≤ MAXDEVICECOUNT)
    (hsmall : ∀ a ∈ addrs, ∀ m ∈ sends a, m.bytes.length ≤ MAXPACKETSIZE) (hfuel : MAXRECV < fuel)
    {frame : RxFrame} (hallowed : s.Allowed sends addrs (.frame frame)) :
    ∃ broker extracted, handleRxFrame fuel s.broker frame = .ok (broker, extracted) ∧
      Inv sends addrs (s.record broker extracted (.frame frame)) := by
  obtain ⟨haddr, -, hlength, hstream⟩ := hallowed
  obtain ⟨devices, index, d, hfind, hd, hdAddr, hentered⟩ :=
    hinv.deviceIndexOf hcount haddr frame.ip
  have hmax : MAXRECV = 2000 := rfl
  have hpacket : MAXPACKETSIZE = 1024 := rfl
  have hheld : Holds d.received
      (pending SentPackage.bytes (sends frame.addr) (s.received frame.addr)) := by
    rw [← hdAddr]
    exact hentered.buffer index d hd
  have hpending := pending_length_lt (hinv.stream frame.addr) (by omega) (hsmall _ haddr)
  obtain ⟨d₁, hstore, hinfo₁, hd₁⟩ := storePayload_holds hheld frame.rawData (by omega)
  obtain ⟨ms, left, hdrains, hstands⟩ := isReader.drains_piece
    (stands_arrived SentPackage.bytes (sends frame.addr) (s.received frame.addr)
      (hinv.stream frame.addr)) hstream
  have hms := hdrains.length_le (fun _ _ _ htakes => htakes.1)
  have hle := hd₁.length_le
  have hrounds : ms.length < fuel := by omega
  obtain ⟨d₂, sendBuffer, extracted, hloop, hinfo₂, hd₂, hsize, hhandled⟩ :=
    drainLoop_of_drains frame.memory hdrains hd₁ hinv.sendBuffer hrounds
  obtain ⟨hdone, rfl⟩ := hstands.unique
  have hd₂Addr : d₂.info.xbAddr = frame.addr := by rw [hinfo₂, hinfo₁, hdAddr]
  refine ⟨⟨Function.update devices index (some d₂), sendBuffer⟩, extracted, ?_, ?_⟩
  · simp only [handleRxFrame, hfind, ok_bind, hd, hstore, hloop]
  have hsame : d₂.info.xbAddr = d.info.xbAddr := by rw [hinfo₂, hinfo₁]
  simp only [record]
  refine ⟨hentered.table.update hd hsame, hsize, ?_, ?_, ?_, ?_⟩
  · intro a
    by_cases ha : a = frame.addr
    · subst ha
      simpa using hstream
    · simp only [Function.update_of_ne ha]
      exact hinv.stream a
  · intro a ha
    have hne : a ≠ frame.addr := by
      intro heq
      exact ha index d₂ (Function.update_self ..) (hd₂Addr.trans heq.symm)
    simp only [Function.update_of_ne hne]
    apply hentered.unseen a
    intro i e he
    by_cases hi : i = index
    · subst hi
      obtain rfl := Option.some.inj (hd.symm.trans he)
      rw [hdAddr]
      exact Ne.symm hne
    · exact ha i e (by simp only [Function.update_of_ne hi]; exact he)
  · intro i e he
    rcases hentered.table.update_cases hd hsame he with ⟨-, rfl⟩ | ⟨-, he, hne⟩
    · simp only [hd₂Addr, Function.update_self]
      exact hd₂
    · rw [hd₂Addr] at hne
      simp only [Function.update_of_ne hne]
      exact hentered.buffer i e he
  · intro a
    by_cases ha : a = frame.addr
    · subst ha
      simp only [Function.update_self]
      rw [← hdone]
      exact List.rel_append (hinv.extracted frame.addr) hhandled
    · simp only [Function.update_of_ne ha]
      exact hinv.extracted a

theorem Inv.step (hinv : Inv sends addrs s) (hcount : addrs.card ≤ MAXDEVICECOUNT)
    (hsmall : ∀ a ∈ addrs, ∀ m ∈ sends a, m.bytes.length ≤ MAXPACKETSIZE) (hfuel : MAXRECV < fuel)
    {e : Event} (hstep : Step sends addrs fuel s e t) : Inv sends addrs t := by
  obtain ⟨hallowed, broker, extracted, hserve, rfl⟩ := hstep
  cases e with
  | frame frame =>
    obtain ⟨broker', extracted', hframe, hinv'⟩ := hinv.frame hcount hsmall hfuel hallowed
    obtain ⟨rfl, rfl⟩ := Prod.mk.inj (Except.ok.inj (hserve.symm.trans hframe))
    exact hinv'
  | assignIp addr ip =>
    obtain ⟨rfl, rfl⟩ := Prod.mk.inj (Except.ok.inj hserve)
    exact hinv.assignIp addr ip

/-- No frame leads the broker outside its arrays, its table included, or keeps it in a loop. -/
theorem Inv.progress (hinv : Inv sends addrs s) (hcount : addrs.card ≤ MAXDEVICECOUNT)
    (hsmall : ∀ a ∈ addrs, ∀ m ∈ sends a, m.bytes.length ≤ MAXPACKETSIZE) (hfuel : MAXRECV < fuel)
    {e : Event} (hallowed : s.Allowed sends addrs e) : ∃ t, Step sends addrs fuel s e t := by
  cases e with
  | frame frame =>
    obtain ⟨broker, extracted, hframe, -⟩ := hinv.frame hcount hsmall hfuel hallowed
    exact ⟨_, hallowed, broker, extracted, hframe, rfl⟩
  | assignIp addr ip => exact ⟨_, hallowed, _, _, rfl, rfl⟩

end

end Session

/-- In every run of the broker with frames of at most as many devices as it has room for:
what it has extracted for a device is the packages of the device that have arrived whole,
once each and in order, each sent on with its own bytes or, if it asks for an address,
handed to registration; every buffer has room for another frame; and the next frame is
handled too. -/
theorem reassembly_by_device (sends : XBeeAddress64 → List SentPackage)
    (addrs : Finset XBeeAddress64) (hcount : addrs.card ≤ MAXDEVICECOUNT)
    (hsmall : ∀ a ∈ addrs, ∀ m ∈ sends a, m.bytes.length ≤ MAXPACKETSIZE) (fuel : ℕ)
    (hfuel : MAXRECV < fuel) (sendBuffer : CharArray MAXRECV) {es : List Event} {s : Session}
    (hrun : Run (Session.Step sends addrs fuel) (Session.init sendBuffer) es s) :
    (∀ a, List.Forall₂ Handled (arrived SentPackage.bytes (sends a) (s.received a).length)
      (s.extracted a)) ∧
    (∀ i d, s.broker.devices i = some d → 0 ≤ d.bufOffset ∧ d.bufOffset + 255 < MAXRECV) ∧
    (∀ e, s.Allowed sends addrs e → ∃ t, Session.Step sends addrs fuel s e t) := by
  have hinv : Session.Inv sends addrs s :=
    hrun.invariant (Session.Inv sends addrs) (fun _ _ _ hs hstep => hs.step hcount hsmall hfuel hstep)
      (Session.inv_init sends addrs sendBuffer)
  refine ⟨hinv.extracted, ?_, fun e he => hinv.progress hcount hsmall hfuel he⟩
  intro i d hd
  have hholds := (hinv.buffer i d hd).count
  have hshort := pending_length_lt (hinv.stream d.info.xbAddr) (show 0 < MAXPACKETSIZE by decide)
    (hsmall _ (hinv.table.known i d hd))
  have hmax : MAXRECV = 2000 := rfl
  have hpacket : MAXPACKETSIZE = 1024 := rfl
  simp only [ReceivingDevice.received] at hholds
  omega

/-- Two devices whose packages are cut inside the version, the frames of one between those
of the other. -/
theorem reassembly_by_device_two :
    ∃ (m : SentPackage) (s : Session) (frames : List RxFrame), m.data = [0, 3, 0] ∧
      frames.map (fun frame => (frame.addr, frame.rawData)) =
        [(⟨0, 1⟩, m.bytes.take 5), (⟨0, 2⟩, m.bytes.take 5), (⟨0, 1⟩, m.bytes.drop 5)] ∧
      Run (Session.Step (fun _ => [m]) {⟨0, 1⟩, ⟨0, 2⟩} (MAXRECV + 1))
        (Session.init (CharArray.zero MAXRECV)) (frames.map Event.frame) s ∧
      List.Forall₂ Handled [m] (s.extracted ⟨0, 1⟩) ∧ s.extracted ⟨0, 2⟩ = [] := by
  obtain ⟨m, -, -, hdata⟩ := SentPackage.exists_of (ascii "DEV.0") (ascii "DEV.1") [0, 3, 0]
    ⟨by decide, by decide, by decide⟩ ⟨by decide, by decide, by decide⟩ (by decide)
  generalize hfirst : (⟨0, 1⟩ : XBeeAddress64) = first
  generalize hsecond : (⟨0, 2⟩ : XBeeAddress64) = second
  have hne : second ≠ first := by
    rw [← hfirst, ← hsecond]
    decide
  have hfuel : MAXRECV < MAXRECV + 1 := Nat.lt_succ_self _
  have hcount : ({first, second} : Finset XBeeAddress64).card ≤ MAXDEVICECOUNT :=
    Finset.card_le_two.trans (by decide)
  have hlength : 12 ≤ m.bytes.length ∧ m.bytes.length < 255 := by
    have hheader := m.isCreated.header_length_le m.sor m.des
    have hthree : m.data.length = 3 := congrArg List.length hdata
    rw [m.bytes_eq.1, m.isCreated.wireBytes_length m.sor m.des]
    omega
  have hsmall : ∀ a ∈ ({first, second} : Finset XBeeAddress64), ∀ m' ∈ [m],
      m'.bytes.length ≤ MAXPACKETSIZE := by
    intro a _ m' hm'
    obtain rfl := List.mem_singleton.mp hm'
    exact hlength.2.le.trans (by decide)
  have hstream : streamOf SentPackage.bytes [m] = m.bytes := by simp
  let frame : XBeeAddress64 → List Byte → RxFrame :=
    fun addr rawData => ⟨addr, rawData, [], fun _ => generateIotPackage⟩
  have hinv₀ := Session.inv_init (fun _ => [m]) {first, second} (CharArray.zero MAXRECV)
  have hstep : ∀ (s : Session) (addr : XBeeAddress64) (piece : List Byte),
      Session.Inv (fun _ => [m]) {first, second} s → addr = first ∨ addr = second →
      1 ≤ piece.length → s.received addr ++ piece <+: m.bytes →
      ∃ t, Session.Step (fun _ => [m]) {first, second} (MAXRECV + 1) s
        (.frame (frame addr piece)) t := by
    intro s addr piece hinv haddr hpos hbegins
    have hle := hbegins.length_le
    rw [List.length_append] at hle
    refine hinv.progress hcount hsmall hfuel ⟨by simpa using haddr, hpos, ?_, ?_⟩
    · change piece.length ≤ 255
      omega
    · rw [hstream]
      exact hbegins
  have htake : (m.bytes.take 5).length = 5 := List.length_take_of_le (by omega)
  obtain ⟨s₁, hs₁⟩ := hstep _ first (m.bytes.take 5) hinv₀ (.inl rfl) (by omega)
    (List.take_prefix ..)
  have hinv₁ := hinv₀.step hcount hsmall hfuel hs₁
  have hknown₁ : s₁.received first = m.bytes.take 5 ∧ s₁.received second = [] := by
    obtain ⟨-, broker, extracted, -, rfl⟩ := id hs₁
    simp [Session.record, Session.init, frame, hne]
  obtain ⟨s₂, hs₂⟩ := hstep s₁ second (m.bytes.take 5) hinv₁ (.inr rfl) (by omega) (by
    rw [hknown₁.2]
    exact List.take_prefix ..)
  have hinv₂ := hinv₁.step hcount hsmall hfuel hs₂
  have hknown₂ : s₂.received first = m.bytes.take 5 ∧ s₂.received second = m.bytes.take 5 := by
    obtain ⟨-, broker, extracted, -, rfl⟩ := id hs₂
    simp [Session.record, frame, hne.symm, hknown₁]
  obtain ⟨s₃, hs₃⟩ := hstep s₂ first (m.bytes.drop 5) hinv₂ (.inl rfl)
    (by rw [List.length_drop]; omega) (by rw [hknown₂.1, List.take_append_drop])
  have hknown₃ : s₃.received first = m.bytes ∧ s₃.received second = m.bytes.take 5 := by
    obtain ⟨-, broker, extracted, -, rfl⟩ := id hs₃
    simp [Session.record, frame, hne, hknown₂]
  have hrun := ((Run.nil (Session.init (CharArray.zero MAXRECV))).snoc hs₁ |>.snoc hs₂).snoc hs₃
  have hextracted := (reassembly_by_device (fun _ => [m]) {first, second} hcount hsmall
    (MAXRECV + 1) hfuel (CharArray.zero MAXRECV) hrun).1
  refine ⟨m, s₃, [frame first (m.bytes.take 5), frame second (m.bytes.take 5),
    frame first (m.bytes.drop 5)], hdata, rfl, hrun, ?_, ?_⟩
  · have harrived := hextracted first
    rw [hknown₃.1] at harrived
    simpa [arrived] using harrived
  · have harrived := hextracted second
    rw [hknown₃.2, arrived_cons_unfinished _ _ _ _ (by omega)] at harrived
    exact List.forall₂_nil_left_iff.mp harrived

end IoTRepublic.XBeeReassembly
