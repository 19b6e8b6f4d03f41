import IoTRepublic.BrokerDeletion
import IoTRepublic.Foundation.Recording

/-!
A package on its way to an XBee device. The broker writes the package into a
buffer and sends it in fragments, and before each of them it waits for the
device. A device that does not answer is removed, but the loop over the fragments
goes on: its next round reads the address through a pointer into the freed
record. What is done up to there is recorded, so the order of the accesses can be
compared with the removal.
-/
namespace IoTRepublic.Fragmentation

open CheckedArray Package CreatedPackage Recording XBeeBroker
open Manager (MAXRECV)
open Management (JsonObject)
open BrokerDeletion (deletionMessage exists_deletionMessage_iff)

/-- What the thread does with the record of the device and the radio. `readAddress` is a look
through the pointer to the address, `readSlot` the first look of `wait_device_ready`. -/
inductive Action
  | readAddress
  | readSlot
  | waited (ready : Bool)
  | sent (zbTx : ZBTxRequest) (payload : List Byte)
  | removed (message : List Byte)
  deriving DecidableEq

/-- The arrays that nothing has been stored in. -/
structure Memory where
  transferBuffer : CharArray MAXRECV
  sendBuffer : CharArray MAXSENDBUFFER
  jsonObj : JsonObject
  packageBuffer : CharArray MAXPACKETSIZE

/-- The slot that `find_xbee_addr_by_iotip` points into. -/
def slotWithIp (xbeeDevices : XBeeDevices) (iotip : List Byte) : Option Slot :=
  Fin.find? (fun i => (xbeeDevices i).any (fun d => d.ip = iotip))

/-- `wait_device_ready`, given what it returns. Of the record the flags may change. -/
def waitDeviceReady (xbeeDevices : XBeeDevices) (deviceId : Slot) (ready : Bool) :
    Exec XBeeDevices := do
  let d ← deviceAt xbeeDevices deviceId
  let d := if ready then { d with readyToReceive := 0 }
    else if d.isAlive = 0 then d
    else { d with isAlive := 0, readyToReceive := 0 }
  .ok (Function.update xbeeDevices deviceId (some d))

/-- The fragment is sent, or the device removed. -/
def sendOrRemove (memory : Memory) (index : Slot) (zbTx : ZBTxRequest) (payload : List Byte)
    (isAlive : Bool) (xbeeDevices : XBeeDevices) : Recorded Action Fault XBeeDevices :=
  if isAlive then do
    record (.sent zbTx payload)
    pure xbeeDevices
  else do
    let (message, xbeeDevices) ← silent (BrokerDeletion.removeXbeeDevice memory.jsonObj
      memory.packageBuffer xbeeDevices index)
    record (.removed message)
    pure xbeeDevices

/-- The loop over the fragments; `ready k` is what `wait_device_ready` returns for the `k`-th
of those that are left. The address and the payload of a request are read when it is made and
when it is sent, and `sendBuffer` is the same at both. -/
def fragmentLoop (memory : Memory) (targetAddress index : Slot) (transferBuffer : List Byte) :
    ℕ → (ℕ → Bool) → XBeeDevices → List Byte → ℕ → ℕ → Recorded Action Fault XBeeDevices
  | 0, _, _, _, _, _ => silent (.error .unfinished)
  | fuel + 1, ready, xbeeDevices, sendBuffer, startIndex, leftDataLength =>
    if leftDataLength > 0 then do
      let sendLength := if leftDataLength > MAXSENDBUFFER then MAXSENDBUFFER else leftDataLength
      let sendBuffer ← silent (copyLoop transferBuffer sendLength startIndex 0 sendBuffer)
      record .readAddress
      let target ← silent (deviceAt xbeeDevices targetAddress)
      let zbTx := (ZBTxRequest.ofAddr target.xbAddr).setFrameId (fragmentId index)
      record .readSlot
      let xbeeDevices ← silent (waitDeviceReady xbeeDevices index (ready 0))
      record (.waited (ready 0))
      let xbeeDevices ← sendOrRemove memory index zbTx (sendBuffer.take sendLength) (ready 0)
        xbeeDevices
      fragmentLoop memory targetAddress index transferBuffer fuel (fun k => ready (k + 1))
        xbeeDevices sendBuffer (startIndex + sendLength) (leftDataLength - sendLength)
    else pure xbeeDevices

/-- What `listen_to_manager_loop` does with a completed package. -/
def deliver (memory : Memory) (ready : ℕ → Bool) (xbeeDevices : XBeeDevices)
    (packageInfo : IoTPackage) : Recorded Action Fault XBeeDevices := do
  let desIp ← silent packageInfo.desIp.ip.text
  match slotWithIp xbeeDevices desIp with
  | none => pure xbeeDevices
  | some targetAddress => do
    record .readAddress
    let target ← silent (deviceAt xbeeDevices targetAddress)
    match findDeviceIndex xbeeDevices target.xbAddr with
    | none => silent (.error .readOutside)
    | some index => do
      let (transferBuffer, n) ← silent (encodePackage memory.transferBuffer.bytes packageInfo)
      fragmentLoop memory targetAddress index transferBuffer (n + 1) ready xbeeDevices
        memory.sendBuffer.bytes 0 n

def payloads (log : List Action) : List (List Byte) :=
  log.filterMap fun
    | .sent _ payload => some payload
    | _ => none

def isRemoval : Action → Bool
  | .removed _ => true
  | _ => false

/-- Behind a device that did not answer there is one removal and no look at its record. -/
def RemovedOnce (log : List Action) : Prop :=
  ∀ before after, log = before ++ .waited false :: after →
    after.countP isRemoval = 1 ∧ .readAddress ∉ after ∧ .readSlot ∉ after

/-- What is expected of a package whose bytes are `output`, when `ready` is what the waits
for its fragments return. -/
structure FragmentsRight (ready : ℕ → Bool) (output : List Byte) (log : List Action) : Prop where
  short : ∀ payload ∈ payloads log, payload.length ≤ MAXSENDBUFFER
  slices : (payloads log).flatten <+: output
  whole : (∀ k, k * MAXSENDBUFFER < output.length → ready k = true) →
    (payloads log).flatten = output
  removedOnce : RemovedOnce log

/-- The package is written and its bytes are sent as expected. -/
def DeliversRight (memory : Memory) (ready : ℕ → Bool) (xbeeDevices : XBeeDevices)
    (packageInfo : IoTPackage) : Prop :=
  ∃ bytes n, encodePackage memory.transferBuffer.bytes packageInfo = .ok (bytes, n) ∧
    FragmentsRight ready (bytes.take n) (deliver memory ready xbeeDevices packageInfo).log

/-- Only the last fragment finds the device gone, and then the address fits the message. -/
def GoneAtLast (ready : ℕ → Bool) (n : ℕ) (ip : List Byte) : Prop :=
  ∀ k, k * MAXSENDBUFFER < n → ready k = false → n ≤ (k + 1) * MAXSENDBUFFER ∧ ip.length ≤ 9

/-- The pointer points to the address that the search returns. -/
theorem findXbeeAddrByIotip_slot (xbeeDevices : XBeeDevices) (iotip : List Byte) :
    findXbeeAddrByIotip xbeeDevices iotip =
      (slotWithIp xbeeDevices iotip).bind (fun i => (xbeeDevices i).map XBeeDevInfo.xbAddr) := rfl

theorem removedOnce_nil : RemovedOnce [] := by
  intro before after h
  simp at h

theorem removedOnce_cons {a : Action} {log : List Action} (ha : a ≠ .waited false) :
    RemovedOnce (a :: log) ↔ RemovedOnce log := by
  constructor
  · intro h before after hsplit
    exact h (a :: before) after (by rw [hsplit, List.cons_append])
  · intro h before after hsplit
    cases before with
    | nil => exact absurd (List.cons.inj hsplit).1 ha
    | cons b before => exact h before after (List.cons.inj hsplit).2

/-- Nothing but the removal may follow a device that did not answer. -/
theorem fragmentsRight_noResponse {ready : ℕ → Bool} {output : List Byte} {message : List Byte}
    (hready : ready 0 = false) (hpos : 0 < output.length) :
    FragmentsRight ready output
      [.readAddress, .readSlot, .waited false, .removed message] := by
  refine ⟨?_, List.nil_prefix, ?_, ?_⟩
  · intro payload hmem
    cases hmem
  · intro hall
    have hzero := hall 0 (by omega)
    rw [hready] at hzero
    cases hzero
  · rw [removedOnce_cons (by simp), removedOnce_cons (by simp)]
    intro before after hsplit
    cases before with
    | nil =>
      obtain rfl := (List.cons.inj hsplit).2
      simp [isRemoval]
    | cons a before =>
      have hmem : Action.waited false ∈ [Action.removed message] := by
        rw [(List.cons.inj hsplit).2]
        exact List.mem_append_right _ List.mem_cons_self
      simp at hmem

theorem FragmentsRight.after_noResponse {ready : ℕ → Bool} {output : List Byte} {log : List Action}
    (h : FragmentsRight ready output (.readAddress :: .readSlot :: .waited false :: log)) :
    log.countP isRemoval = 1 ∧ .readAddress ∉ log ∧ .readSlot ∉ log :=
  h.removedOnce [.readAddress, .readSlot] log rfl

/-- A fragment that was sent is the next slice. -/
theorem fragmentsRight_sent {ready : ℕ → Bool} {output : List Byte} {log : List Action}
    {zbTx : ZBTxRequest} (hready : ready 0 = true) :
    FragmentsRight ready output (.readAddress :: .readSlot :: .waited true ::
        .sent zbTx (output.take MAXSENDBUFFER) :: log) ↔
      FragmentsRight (fun k => ready (k + 1)) (output.drop MAXSENDBUFFER) log := by
  have hpayloads : payloads (.readAddress :: .readSlot :: .waited true ::
      .sent zbTx (output.take MAXSENDBUFFER) :: log) =
        output.take MAXSENDBUFFER :: payloads log := rfl
  have hremoved : RemovedOnce (.readAddress :: .readSlot :: .waited true ::
      .sent zbTx (output.take MAXSENDBUFFER) :: log) ↔ RemovedOnce log := by
    rw [removedOnce_cons (by simp), removedOnce_cons (by simp), removedOnce_cons (by simp),
      removedOnce_cons (by simp)]
  have hall : (∀ k, k * MAXSENDBUFFER < output.length → ready k = true) ↔
      ∀ k, k * MAXSENDBUFFER < (output.drop MAXSENDBUFFER).length → ready (k + 1) = true := by
    rw [List.length_drop]
    constructor
    · intro h k hk
      exact h (k + 1) (by rw [Nat.add_one_mul]; omega)
    · intro h k hk
      cases k with
      | zero => exact hready
      | succ k =>
        rw [Nat.add_one_mul] at hk
        exact h k (by omega)
  have hparts : output.take MAXSENDBUFFER ++ output.drop MAXSENDBUFFER = output :=
    List.take_append_drop ..
  constructor
  · rintro ⟨hshort, hslices, hwhole, honce⟩
    rw [hpayloads, List.flatten_cons] at hslices hwhole
    refine ⟨?_, ?_, ?_, hremoved.mp honce⟩
    · intro payload hmem
      exact hshort payload (hpayloads ▸ List.mem_cons_of_mem _ hmem)
    · nth_rewrite 2 [← hparts] at hslices
      exact (List.prefix_append_right_inj _).mp hslices
    · intro hlater
      have hsame := hwhole (hall.mpr hlater)
      nth_rewrite 2 [← hparts] at hsame
      exact List.append_cancel_left hsame
  · rintro ⟨hshort, hslices, hwhole, honce⟩
    refine ⟨?_, ?_, ?_, hremoved.mpr honce⟩
    · rw [hpayloads]
      exact List.forall_mem_cons.mpr ⟨List.length_take_le .., hshort⟩
    · rw [hpayloads, List.flatten_cons]
      nth_rewrite 2 [← hparts]
      exact (List.prefix_append_right_inj _).mpr hslices
    · intro hevery
      rw [hpayloads, List.flatten_cons, hwhole (hall.mp hevery), hparts]

/-- The records that the loop looks at, and the address that a removal would send. -/
structure Known (xbeeDevices : XBeeDevices) (targetAddress index : Slot) (ip : List Byte) :
    Prop where
  target : ∃ d, xbeeDevices targetAddress = some d
  device : ∃ d, xbeeDevices index = some d ∧ d.ip = ip

section

variable {memory : Memory} {xbeeDevices : XBeeDevices} {targetAddress index : Slot}
  {ip transferBuffer sendBuffer : List Byte} {ready : ℕ → Bool}

theorem Known.waitDeviceReady_eq (hknown : Known xbeeDevices targetAddress index ip)
    (isReady : Bool) : ∃ xbeeDevices', waitDeviceReady xbeeDevices index isReady =
      .ok xbeeDevices' ∧ Known xbeeDevices' targetAddress index ip := by
  obtain ⟨d, hd, hip⟩ := hknown.device
  obtain ⟨t, ht⟩ := hknown.target
  rw [waitDeviceReady, deviceAt_eq_ok.mpr hd, ok_bind]
  refine ⟨_, rfl, ?_, _, Function.update_self .., ?_⟩
  · by_cases hsame : targetAddress = index
    · rw [hsame]
      exact ⟨_, Function.update_self ..⟩
    · exact ⟨t, by rw [Function.update_of_ne hsame, ht]⟩
  · split
    · exact hip
    · split <;> exact hip

/-- A removal goes through exactly if the address fits the message. -/
theorem Known.removeXbeeDevice_eq (hknown : Known xbeeDevices targetAddress index ip)
    (memory : Memory) :
    (ip.length ≤ 9 ∧ ∃ message, BrokerDeletion.removeXbeeDevice memory.jsonObj
        memory.packageBuffer xbeeDevices index =
          .ok (message, Function.update xbeeDevices index none)) ∨
      (¬ ip.length ≤ 9 ∧ ∃ e, BrokerDeletion.removeXbeeDevice memory.jsonObj
        memory.packageBuffer xbeeDevices index = .error e) := by
  obtain ⟨d, hd, rfl⟩ := hknown.device
  have hiff := exists_deletionMessage_iff memory.jsonObj memory.packageBuffer d.ip
  have hremove : BrokerDeletion.removeXbeeDevice memory.jsonObj memory.packageBuffer xbeeDevices
      index = (do
        let sent ← deletionMessage memory.jsonObj memory.packageBuffer d.ip
        .ok (sent, Function.update xbeeDevices index none)) := by
    rw [BrokerDeletion.removeXbeeDevice, BrokerDeletion.removeDevice, hd]
    rfl
  rw [hremove]
  cases hmessage : deletionMessage memory.jsonObj memory.packageBuffer d.ip with
  | ok message => exact .inl ⟨hiff.mp ⟨message, hmessage⟩, message, rfl⟩
  | error e =>
    refine .inr ⟨?_, e, rfl⟩
    intro hshort
    obtain ⟨sent, hsent⟩ := hiff.mpr hshort
    rw [hmessage] at hsent
    cases hsent

theorem sendOrRemove_ready_bind (memory : Memory) (index : Slot) (zbTx : ZBTxRequest)
    (payload : List Byte) (xbeeDevices : XBeeDevices)
    (f : XBeeDevices → Recorded Action Fault XBeeDevices) :
    (sendOrRemove memory index zbTx payload true xbeeDevices >>= f).log =
      .sent zbTx payload :: (f xbeeDevices).log := rfl

theorem sendOrRemove_removed_bind {message : List Byte}
    (hremove : BrokerDeletion.removeXbeeDevice memory.jsonObj memory.packageBuffer xbeeDevices
      index = .ok (message, Function.update xbeeDevices index none)) (zbTx : ZBTxRequest)
    (payload : List Byte) (f : XBeeDevices → Recorded Action Fault XBeeDevices) :
    (sendOrRemove memory index zbTx payload false xbeeDevices >>= f).log =
      .removed message :: (f (Function.update xbeeDevices index none)).log := by
  have hresult : sendOrRemove memory index zbTx payload false xbeeDevices =
      ⟨[.removed message], .ok (Function.update xbeeDevices index none)⟩ := by
    simp only [sendOrRemove, Bool.false_eq_true, ↓reduceIte, hremove, silent_ok_bind]
    rfl
  rw [hresult]
  exact log_bind_ok rfl f

theorem sendOrRemove_fault_bind {e : Fault}
    (hremove : BrokerDeletion.removeXbeeDevice memory.jsonObj memory.packageBuffer xbeeDevices
      index = .error e) (zbTx : ZBTxRequest) (payload : List Byte)
    (f : XBeeDevices → Recorded Action Fault XBeeDevices) :
    (sendOrRemove memory index zbTx payload false xbeeDevices >>= f).log = [] := by
  have hresult : sendOrRemove memory index zbTx payload false xbeeDevices = silent (.error e) := by
    simp only [sendOrRemove, Bool.false_eq_true, ↓reduceIte, hremove, silent_error_bind]
  rw [hresult]
  exact log_bind_error rfl f

/-- A round up to what becomes of the fragment, which is the next slice. -/
theorem fragmentLoop_log (memory : Memory) (ready : ℕ → Bool) (fuel : ℕ)
    (hknown : Known xbeeDevices targetAddress index ip)
    (hroom : sendBuffer.length = MAXSENDBUFFER) {startIndex leftDataLength : ℕ}
    {output : List Byte} (houtput : (transferBuffer.drop startIndex).take leftDataLength = output)
    (hlength : output.length = leftDataLength) (hpos : 0 < leftDataLength) :
    ∃ xbeeDevices' sendBuffer' zbTx, Known xbeeDevices' targetAddress index ip ∧
      sendBuffer'.length = MAXSENDBUFFER ∧
      (fragmentLoop memory targetAddress index transferBuffer (fuel + 1) ready xbeeDevices
        sendBuffer startIndex leftDataLength).log =
        .readAddress :: .readSlot :: .waited (ready 0) ::
          (sendOrRemove memory index zbTx (output.take MAXSENDBUFFER) (ready 0) xbeeDevices' >>=
            fun xbeeDevices => fragmentLoop memory targetAddress index transferBuffer fuel
              (fun k => ready (k + 1)) xbeeDevices sendBuffer'
              (startIndex + min leftDataLength MAXSENDBUFFER)
              (leftDataLength - min leftDataLength MAXSENDBUFFER)).log := by
  obtain ⟨t, ht⟩ := hknown.target
  obtain ⟨xbeeDevices', hwait, hknown'⟩ := hknown.waitDeviceReady_eq (ready 0)
  have hsend : (if leftDataLength > MAXSENDBUFFER then MAXSENDBUFFER else leftDataLength) =
      min leftDataLength MAXSENDBUFFER := by
    split <;> omega
  have hinside : startIndex + leftDataLength ≤ transferBuffer.length := by
    rw [← houtput, List.length_take, List.length_drop] at hlength
    omega
  have hcopy := copyLoop_eq transferBuffer (min leftDataLength MAXSENDBUFFER) startIndex 0
    sendBuffer (by omega) (by omega)
  rw [Int.natCast_zero, splice_zero] at hcopy
  have hslice : (transferBuffer.drop startIndex).take (min leftDataLength MAXSENDBUFFER) =
      output.take MAXSENDBUFFER := by
    rw [← houtput, List.take_take, min_comm]
  have hsliceLength : (output.take MAXSENDBUFFER).length = min leftDataLength MAXSENDBUFFER := by
    rw [List.length_take, hlength, min_comm]
  rw [hslice] at hcopy
  refine ⟨xbeeDevices', output.take MAXSENDBUFFER ++ sendBuffer.drop
    (output.take MAXSENDBUFFER).length, (ZBTxRequest.ofAddr t.xbAddr).setFrameId (fragmentId index),
    hknown', ?_, ?_⟩
  · rw [List.length_append, List.length_drop, hsliceLength]
    omega
  · have hpayload : (output.take MAXSENDBUFFER ++ sendBuffer.drop
        (output.take MAXSENDBUFFER).length).take (min leftDataLength MAXSENDBUFFER) =
          output.take MAXSENDBUFFER := by
      rw [← hsliceLength, List.take_left]
    simp only [fragmentLoop, gt_iff_lt, hpos, ↓reduceIte, hsend]
    simp only [hcopy, silent_ok_bind, log_record_bind, deviceAt_eq_ok.mpr ht, hwait, hpayload]

/-- Where anything is left, the loop looks through the pointer first. -/
theorem readAddress_mem_fragmentLoop (xbeeDevices : XBeeDevices)
    (hroom : sendBuffer.length = MAXSENDBUFFER) {startIndex leftDataLength fuel : ℕ}
    (hinside : startIndex + leftDataLength ≤ transferBuffer.length) (hpos : 0 < leftDataLength) :
    .readAddress ∈ (fragmentLoop memory targetAddress index transferBuffer (fuel + 1) ready
      xbeeDevices sendBuffer startIndex leftDataLength).log := by
  have hsend : (if leftDataLength > MAXSENDBUFFER then MAXSENDBUFFER else leftDataLength) =
      min leftDataLength MAXSENDBUFFER := by
    split <;> omega
  have hcopy := copyLoop_eq transferBuffer (min leftDataLength MAXSENDBUFFER) startIndex 0
    sendBuffer (by omega) (by omega)
  rw [Int.natCast_zero] at hcopy
  simp only [fragmentLoop, gt_iff_lt, hpos, ↓reduceIte, hsend]
  simp only [hcopy, silent_ok_bind, log_record_bind, List.mem_cons, true_or]

theorem goneAtLast_ready {n : ℕ} (hready : ready 0 = true) :
    GoneAtLast ready n ip ↔ GoneAtLast (fun k => ready (k + 1)) (n - MAXSENDBUFFER) ip := by
  constructor
  · intro h k hk hnot
    have hnext := h (k + 1) (by rw [Nat.add_one_mul]; omega) hnot
    rw [Nat.add_one_mul] at hnext
    omega
  · intro h k hk hnot
    cases k with
    | zero =>
      rw [hready] at hnot
      cases hnot
    | succ k =>
      rw [Nat.add_one_mul] at hk
      have hnext := h k (by omega) hnot
      rw [Nat.add_one_mul (k + 1)]
      omega

theorem goneAtLast_noResponse {n : ℕ} (hready : ready 0 = false) (hpos : 0 < n) :
    GoneAtLast ready n ip ↔ n ≤ MAXSENDBUFFER ∧ ip.length ≤ 9 := by
  constructor
  · intro h
    have hfirst := h 0 (by omega) hready
    omega
  · rintro ⟨hone, hshort⟩ k hk _
    cases k with
    | zero => exact ⟨by omega, hshort⟩
    | succ k =>
      rw [Nat.add_one_mul] at hk
      omega

/-- What the loop records is right exactly if the device is gone at the last fragment at most. -/
theorem fragmentLoop_right_iff (hknown : Known xbeeDevices targetAddress index ip)
    (hroom : sendBuffer.length = MAXSENDBUFFER) {startIndex leftDataLength fuel : ℕ}
    {output : List Byte} (houtput : (transferBuffer.drop startIndex).take leftDataLength = output)
    (hlength : output.length = leftDataLength) (hfuel : leftDataLength < fuel) :
    FragmentsRight ready output (fragmentLoop memory targetAddress index transferBuffer fuel ready
      xbeeDevices sendBuffer startIndex leftDataLength).log ↔
        GoneAtLast ready leftDataLength ip := by
  induction fuel generalizing ready xbeeDevices sendBuffer startIndex leftDataLength output with
  | zero => omega
  | succ fuel ih =>
    by_cases hpos : 0 < leftDataLength
    · obtain ⟨devices, buffer, zbTx, hknown', hroom', hlog⟩ :=
        fragmentLoop_log memory ready fuel hknown hroom houtput hlength hpos
      rw [hlog]
      cases hready : ready 0 with
      | true =>
        rw [sendOrRemove_ready_bind, fragmentsRight_sent hready, goneAtLast_ready hready]
        have hleft : leftDataLength - min leftDataLength MAXSENDBUFFER =
            leftDataLength - MAXSENDBUFFER := by omega
        rw [hleft]
        apply ih hknown' hroom'
        · rw [← houtput, List.drop_take]
          by_cases hone : leftDataLength ≤ MAXSENDBUFFER
          · rw [Nat.sub_eq_zero_of_le hone, List.take_zero, List.take_zero]
          · rw [min_eq_right (by omega), List.drop_drop]
        · rw [List.length_drop, hlength]
        · have hsize : MAXSENDBUFFER = 60 := rfl
          omega
      | false =>
        rw [goneAtLast_noResponse hready hpos]
        rcases hknown'.removeXbeeDevice_eq memory with ⟨hshort, message, hremove⟩ |
          ⟨hlong, e, hremove⟩
        · rw [sendOrRemove_removed_bind hremove]
          by_cases hone : leftDataLength ≤ MAXSENDBUFFER
          · have hlast : leftDataLength - min leftDataLength MAXSENDBUFFER = 0 := by omega
            rw [hlast]
            obtain ⟨fuel, rfl⟩ : ∃ k, fuel = k + 1 := ⟨fuel - 1, by omega⟩
            exact iff_of_true (fragmentsRight_noResponse hready (by omega)) ⟨hone, hshort⟩
          · refine iff_of_false ?_ (fun h => hone h.1)
            intro hright
            obtain ⟨fuel, rfl⟩ : ∃ k, fuel = k + 1 := ⟨fuel - 1, by omega⟩
            apply hright.after_noResponse.2.1
            apply List.mem_cons_of_mem
            apply readAddress_mem_fragmentLoop _ hroom' _ (by omega)
            rw [← houtput, List.length_take, List.length_drop] at hlength
            omega
        · refine iff_of_false ?_ (fun h => hlong h.2)
          intro hright
          rw [sendOrRemove_fault_bind hremove] at hright
          have hone := hright.after_noResponse.1
          simp at hone
    · have hdone : leftDataLength = 0 := by omega
      rw [hdone, List.length_eq_zero_iff] at hlength
      subst hdone hlength
      have hlog : (fragmentLoop memory targetAddress index transferBuffer (fuel + 1) ready
          xbeeDevices sendBuffer startIndex 0).log = [] := rfl
      rw [hlog]
      refine iff_of_true ⟨?_, List.nil_prefix, fun _ => rfl, removedOnce_nil⟩ ?_
      · intro payload hmem
        cases hmem
      · intro k hk
        omega

/-- The package to a known device is the loop over its bytes. -/
theorem log_deliver {packageInfo : IoTPackage} {desIp bytes : List Byte} {n : ℕ}
    {target : XBeeDevInfo} (htext : packageInfo.desIp.ip.text = .ok desIp)
    (hslot : slotWithIp xbeeDevices desIp = some targetAddress)
    (htarget : xbeeDevices targetAddress = some target)
    (hindex : findDeviceIndex xbeeDevices target.xbAddr = some index)
    (hencode : encodePackage memory.transferBuffer.bytes packageInfo = .ok (bytes, n)) :
    (deliver memory ready xbeeDevices packageInfo).log =
      .readAddress :: (fragmentLoop memory targetAddress index bytes (n + 1) ready xbeeDevices
        memory.sendBuffer.bytes 0 n).log := by
  simp only [deliver, htext, silent_ok_bind, hslot, log_record_bind, deviceAt_eq_ok.mpr htarget,
    hindex, hencode]

end

/-- The search for the slot looks through the pointer once more. -/
theorem fragmentsRight_cons {ready : ℕ → Bool} {output : List Byte} {log : List Action} :
    FragmentsRight ready output (.readAddress :: log) ↔ FragmentsRight ready output log := by
  have hremoved : RemovedOnce (.readAddress :: log) ↔ RemovedOnce log :=
    removedOnce_cons (by simp)
  constructor
  · rintro ⟨hshort, hslices, hwhole, honce⟩
    exact ⟨hshort, hslices, hwhole, hremoved.mp honce⟩
  · rintro ⟨hshort, hslices, hwhole, honce⟩
    exact ⟨hshort, hslices, hwhole, hremoved.mpr honce⟩

/-- Once the package is written, the loop decides. -/
theorem fragments_right_iff {memory : Memory} {ready : ℕ → Bool} {xbeeDevices : XBeeDevices}
    {packageInfo : IoTPackage} {desIp bytes : List Byte} {n : ℕ} {targetAddress index : Slot}
    {target d : XBeeDevInfo} (htext : packageInfo.desIp.ip.text = .ok desIp)
    (hslot : slotWithIp xbeeDevices desIp = some targetAddress)
    (htarget : xbeeDevices targetAddress = some target)
    (hindex : findDeviceIndex xbeeDevices target.xbAddr = some index)
    (hdevice : xbeeDevices index = some d)
    (hencode : encodePackage memory.transferBuffer.bytes packageInfo = .ok (bytes, n)) :
    FragmentsRight ready (bytes.take n) (deliver memory ready xbeeDevices packageInfo).log ↔
      GoneAtLast ready (wireBytes packageInfo).length d.ip := by
  have hknown : Known xbeeDevices targetAddress index d.ip := ⟨⟨target, htarget⟩, d, hdevice, rfl⟩
  obtain ⟨-, hwritten⟩ := (encodePackage_eq_ok ..).mp hencode
  obtain ⟨rfl, rfl⟩ := Prod.mk.inj hwritten
  have hbytes := written_take memory.transferBuffer.bytes (wireBytes packageInfo)
  rw [log_deliver htext hslot htarget hindex hencode, fragmentsRight_cons]
  exact fragmentLoop_right_iff hknown memory.sendBuffer.size (by rw [List.drop_zero])
    (congrArg List.length hbytes) (Nat.lt_succ_self _)

/-- A package to the device in slot `index` is sent in its slices, and a device that does not
answer removed once and left alone, exactly if the package fits the buffer, only the last wait
can fail, and where it does the address of the device fits the message of the removal. -/
theorem deliver_right_iff (memory : Memory) (ready : ℕ → Bool) {xbeeDevices : XBeeDevices}
    {packageInfo : IoTPackage} {desIp : List Byte} {targetAddress index : Slot}
    {target d : XBeeDevInfo} (htext : packageInfo.desIp.ip.text = .ok desIp)
    (hslot : slotWithIp xbeeDevices desIp = some targetAddress)
    (htarget : xbeeDevices targetAddress = some target)
    (hindex : findDeviceIndex xbeeDevices target.xbAddr = some index)
    (hdevice : xbeeDevices index = some d) :
    DeliversRight memory ready xbeeDevices packageInfo ↔
      Encodable MAXRECV packageInfo ∧ GoneAtLast ready (wireBytes packageInfo).length d.ip := by
  have hsize := memory.transferBuffer.size
  constructor
  · rintro ⟨bytes, n, hencode, hfragments⟩
    have hencodable := ((encodePackage_eq_ok ..).mp hencode).1
    rw [hsize] at hencodable
    exact ⟨hencodable,
      (fragments_right_iff htext hslot htarget hindex hdevice hencode).mp hfragments⟩
  · rintro ⟨hencodable, hgone⟩
    rw [← hsize] at hencodable
    have hencode := (encodePackage_eq_ok memory.transferBuffer.bytes packageInfo _).mpr
      ⟨hencodable, rfl⟩
    exact ⟨_, _, hencode,
      (fragments_right_iff htext hslot htarget hindex hdevice hencode).mpr hgone⟩

def clearMemory : Memory where
  transferBuffer := CharArray.zero MAXRECV
  sendBuffer := CharArray.zero MAXSENDBUFFER
  jsonObj := BrokerDeletion.blankObject
  packageBuffer := CharArray.zero MAXPACKETSIZE

/-- One device, with the address `B`. -/
def deviceB : XBeeDevInfo := ⟨⟨0x0013A200, 0x40BE2757⟩, ascii "B", 1, 1⟩

def devicesB : XBeeDevices := fun i => if i.val = 0 then some deviceB else none

/-- A package for the device that takes two fragments. -/
def longPackage : IoTPackage := packageInfoAB 18 (List.replicate 60 48)

theorem longPackage_text : longPackage.desIp.ip.text = .ok deviceB.ip := by decide

theorem longPackage_encodable : Encodable MAXRECV longPackage :=
  ⟨by decide, by decide, by decide, by decide, by decide, by decide, by decide⟩

theorem longPackage_length : (wireBytes longPackage).length = 80 := by decide

/-- Of the two fragments the device may miss the last one, but not the first. -/
theorem deliver_right_long :
    DeliversRight clearMemory (fun k => k == 0) devicesB longPackage ∧
      ¬ DeliversRight clearMemory (fun k => k == 1) devicesB longPackage := by
  have hslot : slotWithIp devicesB deviceB.ip = some 0 := by decide
  have hindex : findDeviceIndex devicesB deviceB.xbAddr = some 0 := by decide
  have hsize : MAXSENDBUFFER = 60 := rfl
  have hiff : ∀ ready, DeliversRight clearMemory ready devicesB longPackage ↔
      Encodable MAXRECV longPackage ∧
        GoneAtLast ready (wireBytes longPackage).length deviceB.ip :=
    fun ready => deliver_right_iff clearMemory ready longPackage_text hslot rfl hindex rfl
  rw [hiff, hiff, longPackage_length]
  constructor
  · refine ⟨longPackage_encodable, ?_⟩
    intro k hk hgone
    have hpos : k ≠ 0 := by
      rintro rfl
      cases hgone
    rw [hsize] at hk
    obtain rfl : k = 1 := by omega
    exact ⟨by omega, by decide⟩
  · rintro ⟨-, hgone⟩
    have hfirst := (hgone 0 (by omega) rfl).1
    omega

/-- A device that answers no wait is looked at again after it was removed. -/
theorem deliver_after_removal :
    ∃ packageInfo : IoTPackage, packageInfo.desIp.ip.text = .ok deviceB.ip ∧
      devicesB 0 = some deviceB ∧ Encodable MAXRECV packageInfo ∧
      ¬ DeliversRight clearMemory (fun _ => false) devicesB packageInfo := by
  refine ⟨longPackage, longPackage_text, rfl, longPackage_encodable, ?_⟩
  have hslot : slotWithIp devicesB deviceB.ip = some 0 := by decide
  have hindex : findDeviceIndex devicesB deviceB.xbAddr = some 0 := by decide
  have hsize : MAXSENDBUFFER = 60 := rfl
  rintro ⟨bytes, n, hencode, hright⟩
  have hgone := (fragments_right_iff longPackage_text hslot rfl hindex rfl hencode).mp hright
  rw [longPackage_length] at hgone
  have hfirst := (hgone 0 (by omega) rfl).1
  omega

end IoTRepublic.Fragmentation
