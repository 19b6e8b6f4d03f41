import IoTRepublic.Fragmentation
import IoTRepublic.XBeeRequests

/-!
From a package of the manager to the serial line. The broker sends a package in
slices, each in a request of its own with the address and the frame ID of the
device, up to the first wait that the device does not answer. On the line the
requests are frames again, so the slices come out of it as they went in.
-/
namespace IoTRepublic.XBeeDownlink

open CheckedArray Package CreatedPackage Recording XBeeApiMode XBeeFrames XBeeLine XBeeRequests
open XBeeBroker (XBeeAddress64 XBeeDevInfo XBeeDevices Slot MAXSENDBUFFER deviceAt deviceAt_eq_ok
  findDeviceIndex fragmentId)
open Fragmentation

/-- The requests that were sent, with their payloads. -/
def sentOf (log : List Action) : List (XBeeBroker.ZBTxRequest × List Byte) :=
  log.filterMap fun
    | .sent zbTx payload => some (zbTx, payload)
    | _ => none

/-- The `i`-th slice of a package. -/
def slice (output : List Byte) (i : ℕ) : List Byte :=
  (output.drop (i * MAXSENDBUFFER)).take MAXSENDBUFFER

/-- The request of `listen_to_manager_loop`, the payload included. -/
def requestOf (zbTx : XBeeBroker.ZBTxRequest) (payload : List Byte) : Request :=
  .zbTx { ZBTxRequest.ofData zbTx.addr64 payload (UInt8.ofNat payload.length) with
    frameId := zbTx.frameId }

/-- The slots of the pointer and of the device, and the address behind the pointer. -/
structure Addressed (xbeeDevices : XBeeDevices) (targetAddress index : Slot)
    (addr : XBeeAddress64) : Prop where
  target : ∃ d, xbeeDevices targetAddress = some d ∧ d.xbAddr = addr
  device : ∃ d, xbeeDevices index = some d

section

variable {memory : Memory} {xbeeDevices : XBeeDevices} {targetAddress index : Slot}
  {addr : XBeeAddress64} {transferBuffer sendBuffer output : List Byte} {ready : ℕ → Bool}

/-- Waiting changes the flags of the device only. -/
theorem Addressed.waitDeviceReady (h : Addressed xbeeDevices targetAddress index addr)
    (isReady : Bool) : ∃ xbeeDevices', Fragmentation.waitDeviceReady xbeeDevices index isReady =
      .ok xbeeDevices' ∧ Addressed xbeeDevices' targetAddress index addr := by
  obtain ⟨d, hd⟩ := h.device
  obtain ⟨t, ht, haddr⟩ := h.target
  rw [Fragmentation.waitDeviceReady, deviceAt_eq_ok.mpr hd, ok_bind]
  refine ⟨_, rfl, ?_, _, Function.update_self ..⟩
  by_cases htarget : targetAddress = index
  · subst htarget
    obtain rfl := Option.some.inj (hd.symm.trans ht)
    refine ⟨_, Function.update_self .., ?_⟩
    split
    · exact haddr
    · split <;> exact haddr
  · exact ⟨t, by rw [Function.update_of_ne htarget, ht], haddr⟩

/-- Once the device is gone nothing is sent any more. -/
theorem sentOf_gone (fuel startIndex leftDataLength : ℕ) (hgone : xbeeDevices index = none) :
    sentOf (fragmentLoop memory targetAddress index transferBuffer fuel ready xbeeDevices sendBuffer
      startIndex leftDataLength).log = [] := by
  have hwait : Fragmentation.waitDeviceReady xbeeDevices index (ready 0) =
      .error .readOutside := by
    rw [Fragmentation.waitDeviceReady, deviceAt, hgone]
    rfl
  cases fuel with
  | zero => rfl
  | succ fuel =>
    rw [fragmentLoop]
    by_cases hpos : leftDataLength > 0
    · rw [if_pos hpos]
      dsimp only
      cases copyLoop transferBuffer
          (if leftDataLength > MAXSENDBUFFER then MAXSENDBUFFER else leftDataLength) startIndex 0
          sendBuffer with
      | error e => rfl
      | ok sendBuffer =>
        rw [silent_ok_bind, log_record_bind]
        cases deviceAt xbeeDevices targetAddress with
        | error e => rfl
        | ok target =>
          rw [silent_ok_bind, log_record_bind, hwait]
          rfl
    · rw [if_neg hpos]
      rfl

/-- A round up to what becomes of the fragment, with the request that is made for it. -/
theorem fragmentLoop_round (ready : ℕ → Bool) (fuel : ℕ)
    (h : Addressed xbeeDevices targetAddress index addr)
    (hroom : sendBuffer.length = MAXSENDBUFFER) {startIndex leftDataLength : ℕ}
    (houtput : (transferBuffer.drop startIndex).take leftDataLength = output)
    (hlength : output.length = leftDataLength) (hpos : 0 < leftDataLength) :
    ∃ xbeeDevices' sendBuffer', Addressed xbeeDevices' targetAddress index addr ∧
      sendBuffer'.length = MAXSENDBUFFER ∧
      sentOf (fragmentLoop memory targetAddress index transferBuffer (fuel + 1) ready xbeeDevices
        sendBuffer startIndex leftDataLength).log =
        sentOf (sendOrRemove memory index
          ((XBeeBroker.ZBTxRequest.ofAddr addr).setFrameId (fragmentId index))
          (output.take MAXSENDBUFFER) (ready 0) xbeeDevices' >>=
            fun xbeeDevices => fragmentLoop memory targetAddress index transferBuffer fuel
              (fun k => ready (k + 1)) xbeeDevices sendBuffer'
              (startIndex + min leftDataLength MAXSENDBUFFER)
              (leftDataLength - min leftDataLength MAXSENDBUFFER)).log := by
  obtain ⟨t, ht, haddr⟩ := h.target
  obtain ⟨xbeeDevices', hwait, h'⟩ := h.waitDeviceReady (ready 0)
  have hsend : (if leftDataLength > MAXSENDBUFFER then MAXSENDBUFFER else leftDataLength) =
      min leftDataLength MAXSENDBUFFER := by
    split <;> omega
  have hinside : startIndex + leftDataLength ≤ transferBuffer.length := by
    rw [← houtput, List.length_take, List.length_drop] at hlength
    omega
  have hcopy := copyLoop_eq transferBuffer (min leftDataLength MAXSENDBUFFER) startIndex 0
    sendBuffer (by omega) (by omega)
  have hslice : (transferBuffer.drop startIndex).take (min leftDataLength MAXSENDBUFFER) =
      output.take MAXSENDBUFFER := by
    rw [← houtput, List.take_take, min_comm]
  have hsliceLength : (output.take MAXSENDBUFFER).length = min leftDataLength MAXSENDBUFFER := by
    rw [List.length_take, hlength, min_comm]
  rw [Int.natCast_zero, splice_zero, hslice] at hcopy
  have hpayload : (output.take MAXSENDBUFFER ++ sendBuffer.drop
      (output.take MAXSENDBUFFER).length).take (min leftDataLength MAXSENDBUFFER) =
        output.take MAXSENDBUFFER := by
    rw [← hsliceLength, List.take_left]
  refine ⟨xbeeDevices', output.take MAXSENDBUFFER ++ sendBuffer.drop
    (output.take MAXSENDBUFFER).length, h', ?_, ?_⟩
  · rw [List.length_append, List.length_drop, hsliceLength]
    omega
  · simp only [fragmentLoop, gt_iff_lt, hpos, ↓reduceIte, hsend]
    simp only [hcopy, silent_ok_bind, log_record_bind, deviceAt_eq_ok.mpr ht, hwait, hpayload, haddr]
    rfl

theorem slice_succ (output : List Byte) (i : ℕ) :
    slice output (i + 1) = slice (output.drop MAXSENDBUFFER) i := by
  rw [slice, slice, List.drop_drop, Nat.add_one_mul, Nat.add_comm]

/-- The slices are sent in order up to the first wait that fails. -/
theorem sentOf_fragmentLoop (fuel : ℕ) (h : Addressed xbeeDevices targetAddress index addr)
    (hroom : sendBuffer.length = MAXSENDBUFFER) {startIndex leftDataLength : ℕ}
    (houtput : (transferBuffer.drop startIndex).take leftDataLength = output)
    (hlength : output.length = leftDataLength) (hfuel : leftDataLength < fuel) :
    ∃ k, sentOf (fragmentLoop memory targetAddress index transferBuffer fuel ready xbeeDevices
        sendBuffer startIndex leftDataLength).log =
          (List.range k).map (fun i => ((XBeeBroker.ZBTxRequest.ofAddr addr).setFrameId
            (fragmentId index), slice output i)) ∧
      (∀ i < k, ready i = true ∧ i * MAXSENDBUFFER < output.length) ∧
      (output.length ≤ k * MAXSENDBUFFER ∨ ready k = false) := by
  have hmax : MAXSENDBUFFER = 60 := rfl
  induction fuel generalizing ready xbeeDevices sendBuffer startIndex leftDataLength output with
  | zero => omega
  | succ fuel ih =>
    rcases Nat.eq_zero_or_pos leftDataLength with hzero | hpos
    · refine ⟨0, ?_, by simp, .inl (by omega)⟩
      rw [fragmentLoop, if_neg (by omega)]
      rfl
    · obtain ⟨xbeeDevices', sendBuffer', h', hroom', hround⟩ :=
        fragmentLoop_round ready fuel h hroom houtput hlength hpos
      rw [hround]
      cases hready : ready 0 with
      | true =>
        have hleft : leftDataLength - min leftDataLength MAXSENDBUFFER =
            leftDataLength - MAXSENDBUFFER := by omega
        have houtput' : (transferBuffer.drop (startIndex + min leftDataLength MAXSENDBUFFER)).take
            (leftDataLength - MAXSENDBUFFER) = output.drop MAXSENDBUFFER := by
          rw [← houtput, List.drop_take]
          by_cases hone : leftDataLength ≤ MAXSENDBUFFER
          · rw [Nat.sub_eq_zero_of_le hone, List.take_zero, List.take_zero]
          · rw [min_eq_right (by omega), List.drop_drop]
        obtain ⟨k, hsent, hall, hend⟩ := @ih xbeeDevices' sendBuffer' (output.drop MAXSENDBUFFER)
          (fun k => ready (k + 1)) h' hroom' _ _ houtput' (by rw [List.length_drop]; omega)
          (by omega)
        refine ⟨k + 1, ?_, ?_, ?_⟩
        · have hfirst : slice output 0 = output.take MAXSENDBUFFER := by
            rw [slice, Nat.zero_mul, List.drop_zero]
          rw [hleft, sendOrRemove_ready_bind, sentOf, List.filterMap_cons, ← sentOf, hsent,
            List.range_succ_eq_map, List.map_cons, List.map_map, hfirst]
          simp only [Function.comp_def, Nat.succ_eq_add_one, slice_succ]
        · intro i hi
          cases i with
          | zero => exact ⟨hready, by omega⟩
          | succ i =>
            obtain ⟨hi, hlt⟩ := hall i (by omega)
            rw [List.length_drop] at hlt
            rw [Nat.add_one_mul]
            exact ⟨hi, by omega⟩
        · rw [List.length_drop] at hend
          rw [Nat.add_one_mul]
          rcases hend with hend | hend
          · exact .inl (by omega)
          · exact .inr hend
      | false =>
        refine ⟨0, ?_, by simp, .inr hready⟩
        obtain ⟨d, hd⟩ := h'.device
        obtain ⟨t, ht, -⟩ := h'.target
        have hknown : Known xbeeDevices' targetAddress index d.ip := ⟨⟨t, ht⟩, d, hd, rfl⟩
        rcases hknown.removeXbeeDevice_eq memory with ⟨-, message, hremove⟩ | ⟨-, e, hremove⟩
        · rw [sendOrRemove_removed_bind hremove, sentOf, List.filterMap_cons, ← sentOf]
          exact sentOf_gone _ _ _ (Function.update_self ..)
        · rw [sendOrRemove_fault_bind hremove]
          rfl

end

/-- The packet in which a slice is expected. -/
def slicePacket (addr : XBeeAddress64) (index : Slot) (payload : List Byte) : Byte × List Byte :=
  (ZB_TX_REQUEST, fragmentId index :: (bytes32 addr.msb ++ bytes32 addr.lsb ++ [0xff, 0xfe, 0, 0] ++
    payload))

theorem requestOf_fits (zbTx : XBeeBroker.ZBTxRequest) {payload : List Byte}
    (h : payload.length ≤ MAXSENDBUFFER) : (requestOf zbTx payload).Fits := by
  have hmax : MAXSENDBUFFER = 60 := rfl
  have hcount : (UInt8.ofNat payload.length).toNat = payload.length := by
    rw [UInt8.toNat_ofNat']
    omega
  refine ⟨hcount.le, ?_⟩
  have hheader : (requestOf zbTx payload).header.length = 12 := rfl
  rw [hheader]
  change 12 + (UInt8.ofNat payload.length).toNat ≤ 105
  omega

theorem packet_requestOf (addr : XBeeAddress64) (index : Slot) {payload : List Byte}
    (h : payload.length ≤ MAXSENDBUFFER) :
    (requestOf ((XBeeBroker.ZBTxRequest.ofAddr addr).setFrameId (fragmentId index))
      payload).packet = slicePacket addr index payload := by
  have hmax : MAXSENDBUFFER = 60 := rfl
  have hcount : (UInt8.ofNat payload.length).toNat = payload.length := by
    rw [UInt8.toNat_ofNat']
    omega
  have hshort : bytes16 ZB_BROADCAST_ADDRESS = [0xff, 0xfe] := by decide
  have hheader : (requestOf ((XBeeBroker.ZBTxRequest.ofAddr addr).setFrameId (fragmentId index))
      payload).header = bytes32 addr.msb ++ bytes32 addr.lsb ++ bytes16 ZB_BROADCAST_ADDRESS ++
        [0, 0] := rfl
  rw [Request.packet, Request.frameData, hheader, hshort]
  change (ZB_TX_REQUEST, fragmentId index :: (bytes32 addr.msb ++ bytes32 addr.lsb ++ [0xff, 0xfe] ++
    [0, 0] ++ payload.take (UInt8.ofNat payload.length).toNat)) = _
  rw [hcount, List.take_length, slicePacket, List.append_assoc (bytes32 addr.msb ++ bytes32 addr.lsb)]
  rfl

/-- A package for a known device is on the serial line in its slices, in order and each
addressed to the device, up to the first wait that fails; read back they are the front of the
package, and the whole package if the device answers every wait. -/
theorem downlink_slices (memory : Memory) (ready : ℕ → Bool) {xbeeDevices : XBeeDevices}
    {packageInfo : IoTPackage} {desIp : List Byte} {targetAddress index : Slot}
    {target d : XBeeDevInfo} (htext : packageInfo.desIp.ip.text = .ok desIp)
    (hslot : slotWithIp xbeeDevices desIp = some targetAddress)
    (htarget : xbeeDevices targetAddress = some target)
    (hindex : findDeviceIndex xbeeDevices target.xbAddr = some index)
    (hdevice : xbeeDevices index = some d)
    (hencodable : Encodable Manager.MAXRECV packageInfo) :
    ∃ k written,
      (sentOf (deliver memory ready xbeeDevices packageInfo).log).mapM
        (fun sent => send (requestOf sent.1 sent.2).base) = .ok written ∧
      (∀ polls n, bytesOf polls = written.flatten → polls.length ≤ n →
        ∃ xbee, XBee.global.listen n polls = .ok (xbee, [], (List.range k).map (fun i =>
          slicePacket target.xbAddr index (slice (wireBytes packageInfo) i)))) ∧
      (∀ i < k, ready i = true) ∧
      ((wireBytes packageInfo).length ≤ k * MAXSENDBUFFER ∨ ready k = false) := by
  rw [← memory.transferBuffer.size] at hencodable
  have hencode := (encodePackage_eq_ok memory.transferBuffer.bytes packageInfo _).mpr
    ⟨hencodable, rfl⟩
  have haddressed : Addressed xbeeDevices targetAddress index target.xbAddr :=
    ⟨⟨target, htarget, rfl⟩, d, hdevice⟩
  have hbytes := written_take memory.transferBuffer.bytes (wireBytes packageInfo)
  have hmax : MAXSENDBUFFER = 60 := rfl
  have houtput : ((written memory.transferBuffer.bytes (wireBytes packageInfo)).1.drop 0).take
      (wireBytes packageInfo).length = wireBytes packageInfo := by
    rw [List.drop_zero]
    exact hbytes
  obtain ⟨k, hsent, hall, hend⟩ := @sentOf_fragmentLoop memory xbeeDevices targetAddress index
    target.xbAddr _ memory.sendBuffer.bytes _ ready _ haddressed memory.sendBuffer.size 0 _ houtput
    rfl (Nat.lt_succ_self _)
  have hlog : sentOf (deliver memory ready xbeeDevices packageInfo).log =
      (List.range k).map (fun i => ((XBeeBroker.ZBTxRequest.ofAddr target.xbAddr).setFrameId
        (fragmentId index), slice (wireBytes packageInfo) i)) := by
    rw [log_deliver htext hslot htarget hindex hencode, ← hsent]
    rfl
  have hshort : ∀ i, (slice (wireBytes packageInfo) i).length ≤ MAXSENDBUFFER := by
    intro i
    rw [slice, List.length_take]
    exact min_le_left _ _
  let requests := (List.range k).map (fun i => requestOf ((XBeeBroker.ZBTxRequest.ofAddr
    target.xbAddr).setFrameId (fragmentId index)) (slice (wireBytes packageInfo) i))
  have hfits : ∀ r ∈ requests, r.Fits := by
    intro r hr
    obtain ⟨i, -, rfl⟩ := List.mem_map.mp hr
    exact requestOf_fits _ (hshort i)
  obtain ⟨segments, written, hsend, hflat, hwell, hdelivered⟩ := sendAll_eq requests hfits
  refine ⟨k, written, ?_, ?_, fun i hi => (hall i hi).1, hend⟩
  · rw [hlog, List.mapM_map]
    rw [List.mapM_map] at hsend
    exact hsend
  · intro polls n hpolls hn
    have hpackets : requests.map Request.packet = (List.range k).map (fun i =>
        slicePacket target.xbAddr index (slice (wireBytes packageInfo) i)) := by
      rw [List.map_map]
      refine List.map_congr_left ?_
      intro i _
      exact packet_requestOf target.xbAddr index (hshort i)
    obtain ⟨xbee, hlisten⟩ := listen_segments (represents_new _ _) hwell (hpolls.trans hflat) hn
    exact ⟨xbee, by rw [← hpackets, ← hdelivered]; exact hlisten⟩

/-- The device answers the first wait only. -/
theorem downlink_slices_long :
    ∃ (k : ℕ) (written : List (List Byte)),
      (sentOf (deliver clearMemory (fun k => k == 0) devicesB longPackage).log).mapM
        (fun sent => send (requestOf sent.1 sent.2).base) = .ok written ∧
      ∃ xbee, XBee.global.listen written.flatten.length (written.flatten.map some) =
        .ok (xbee, [], (List.range k).map (fun i =>
          slicePacket deviceB.xbAddr 0 (slice (wireBytes longPackage) i))) ∧ k = 1 := by
  have hslot : slotWithIp devicesB deviceB.ip = some 0 := by decide
  have hindex : findDeviceIndex devicesB deviceB.xbAddr = some 0 := by decide
  obtain ⟨k, written, hsend, hlisten, hall, hend⟩ := downlink_slices clearMemory (fun k => k == 0)
    longPackage_text hslot rfl hindex rfl longPackage_encodable
  obtain ⟨xbee, hpackets⟩ := hlisten (written.flatten.map some) written.flatten.length
    (by rw [bytesOf, List.filterMap_map]; exact List.filterMap_some) (by rw [List.length_map])
  refine ⟨k, written, hsend, xbee, hpackets, ?_⟩
  have hmany : ¬ 2 ≤ k := by
    intro hk
    exact absurd (hall 1 hk) (by decide)
  have hone : k ≠ 0 := by
    rintro rfl
    rcases hend with hend | hend
    · rw [Nat.zero_mul, longPackage_length] at hend
      omega
    · exact absurd hend (by decide)
  omega

end IoTRepublic.XBeeDownlink
