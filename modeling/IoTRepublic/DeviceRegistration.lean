import IoTRepublic.DeviceDescription
import IoTRepublic.ManagerDelivery
import IoTRepublic.BrokerLoop

/-!
How a device comes to its record. The broker enters the device in its table, asks the
manager for an address, has the device send its description and hands it on to the
manager as a package of that address. For a description that is a well-formed
registration the manager then has the record, and the broker knows the address: what is
sent to it comes to the broker and from there to the device.
-/
namespace IoTRepublic.DeviceRegistration

open CheckedArray CarrySum Package PackageReader CreatedPackage Manager Forwarding Runs SerialFrame
  DeviceDescription ReadRequest BrokerLoop ManagerAnswers ManagerExchange ManagerDelivery
  Registration JsonText
open Reassembly (SentPackage Holds)
open Registry (IoTDeviceInfo)
open XBeeBroker (XBeeAddress64)

/-- A record of a broker, with the address of the device on its own network. -/
structure DevInfo (α : Type) where
  addr : α
  ip : IoTIp

abbrev DevTable (α : Type) := Fin MAXDEVICECOUNT → Option (DevInfo α)

section

variable {α : Type} [DecidableEq α]

def findDeviceIndex (devices : DevTable α) (addr : α) : Option (Fin MAXDEVICECOUNT) :=
  SlotTable.firstIndex devices fun d => d.addr = addr

def isDeviceExists (devices : DevTable α) (addr : α) : Bool := (findDeviceIndex devices addr).isSome

/-- Nothing is stored in the `ip` of a new record, so it holds what was in the memory. -/
def addNewDevice (devices : DevTable α) (addr : α) (ip : IoTIp) : DevTable α :=
  if isDeviceExists devices addr then devices
  else match SlotTable.firstFree devices with
    | some i => Function.update devices i (some ⟨addr, ip⟩)
    | none => devices

/-- The array is cleared twice, the second time one character further than the text. -/
def updateIotIp (devices : DevTable α) (addr : α) (ip : IoTIp) : Exec (DevTable α) :=
  match findDeviceIndex devices addr with
  | some index => do
    let _ ← memset (List.replicate IP_ADDR_SIZE 0) 0 (ip.ipLength + 1)
    let copied ← memcpy (CharArray.zero IP_ADDR_SIZE) ip.ip.bytes ip.ipLength
    .ok (Function.update devices index
      ((devices index).map fun d => { d with ip := ⟨copied, ip.ipLength⟩ }))
  | none => .ok devices

end

/-- The addresses that `find_device_index_by_IoTIp` looks at. -/
def ips {α : Type} (devices : DevTable α) : DeviceIps := fun i => (devices i).map DevInfo.ip

/-- The answer of the manager in pieces, as the calls of `recv` give it. -/
def askLoop : List (List Byte) → List Byte → ℤ → IoTPackage → Exec IoTPackage
  | [], _, _, _ => .error .unfinished
  | tempRecv :: pieces, tempBuf, offset, package =>
    if tempRecv = [] then askLoop pieces tempBuf offset package
    else do
      let tempBuf ← charcat tempBuf tempRecv offset tempRecv.length
      let reading ← getCompletedPackage tempBuf (offset + tempRecv.length) package
      if reading.result = .completed then .ok reading.packageInfo
      else askLoop pieces reading.buffer reading.bufferLength reading.packageInfo

/-- The bytes of the request and the answer. -/
def askAIoTIP (pieces : List (List Byte)) : Exec (List Byte × IoTPackage) := do
  let request ← createPackage generateIotPackage (ascii "0") (ascii "0") (ascii "0") 1
  let (sendBuf, n) ← encodePackage (List.replicate 1000 0) request
  let answer ← askLoop pieces (List.replicate MAXRECV 0) 0 request
  .ok (sendBuf.take n, answer)

/-- The description goes to the manager as a text, without its sum. -/
def sendDescription (requestIp : IoTPackage) (devPackBuf : List Byte) (length : ℤ) :
    Exec (List Byte) := do
  let devPackBuf ← writeAt devPackBuf (length - 2) 0
  let desIp ← requestIp.desIp.ip.text
  let sorIp ← requestIp.sorIp.ip.text
  let package ← createPackage generateIotPackage desIp sorIp devPackBuf (length - 1)
  let (sendBuf, n) ← encodePackage (List.replicate 1000 0) package
  .ok (sendBuf.take n)

/-- The device is asked for its description, once for each element of the list, until one comes
with the right sum. -/
def describe (receive : List (List Byte) → List Byte → ℤ → Exec Received)
    (requestIp : IoTPackage) :
    List (List (List Byte)) → List Byte → ℤ → Exec (Option (List Byte))
  | [], _, _ => .ok none
  | polls :: attempts, devPackBuf, length => do
    let received ← receive polls devPackBuf length
    let result ← if received.result = .completed then registerCheck received.buf received.len
      else .ok received.result
    if result = .noerror then do
      let sent ← sendDescription requestIp received.buf received.len
      .ok (some sent)
    else describe receive requestIp attempts received.buf received.len

/-- The table afterwards, the request for an address, and the description if it was sent. -/
structure Registering (α : Type) where
  devices : DevTable α
  request : List Byte
  sent : Option (List Byte)

def devRegister {α : Type} [DecidableEq α]
    (receive : List (List Byte) → List Byte → ℤ → Exec Received) (devices : DevTable α) (addr : α)
    (ip : IoTIp) (pieces : List (List Byte)) (attempts : List (List (List Byte))) :
    Exec (Registering α) := do
  let devices := addNewDevice devices addr ip
  let (request, requestIp) ← askAIoTIP pieces
  let devices ← updateIotIp devices addr requestIp.desIp
  let sent ← describe receive requestIp attempts (List.replicate MAXRECVBUFFER 0) 0
  .ok ⟨devices, request, sent⟩

/-- The two halves of the address, as the characters of their digits. -/
abbrev AtAddress := CharArray 8 × CharArray 8

def xbeeAtDevRegister (devices : DevTable AtAddress) (addr : AtAddress) (ip : IoTIp)
    (pieces polls : List (List Byte)) : Exec (Registering AtAddress) :=
  devRegister recvCommandFromEndDevice devices addr ip pieces [polls]

/-- The first packet is taken as the status of the command sent. -/
def xbeeApiDevRegister (devices : DevTable XBeeAddress64) (addr : XBeeAddress64) (ip : IoTIp)
    (pieces packets : List (List Byte)) : Exec (Registering XBeeAddress64) :=
  devRegister recvCommandFromApiEndDevice devices addr ip pieces [packets.tail]

/-- It connects and asks again until the sum is right. -/
def bleDevRegister (devices : DevTable (CharArray 12)) (addr : CharArray 12) (ip : IoTIp)
    (pieces : List (List Byte)) (attempts : List (List (List Byte))) :
    Exec (Registering (CharArray 12)) :=
  devRegister recvCommandFromBleDevice devices addr ip pieces attempts

section

variable {α : Type} [DecidableEq α] {devices : DevTable α} {addr : α}

/-- The address is stored in the record of the device, which is made if there is room. -/
theorem updateIotIp_addNewDevice (devices : DevTable α) (addr : α) {a : List Byte} {ip : IoTIp}
    (hip : CharArray.ofText IP_ADDR_SIZE a = .ok ip.ip) (hlength : ip.ipLength = a.length)
    (fresh : IoTIp) : ∃ copied : CharArray IP_ADDR_SIZE,
      updateIotIp (addNewDevice devices addr fresh) addr ip =
        .ok (SlotTable.put DevInfo.addr devices ⟨addr, ⟨copied, a.length⟩⟩) ∧
      copied.bytes.take a.length = a := by
  obtain ⟨hshort, hbytes⟩ := CharArray.ofText_eq_ok.mp hip
  have hsize : IP_ADDR_SIZE = 15 := rfl
  have hclear : memset (List.replicate IP_ADDR_SIZE 0) 0 (ip.ipLength + 1) =
      .ok (splice (List.replicate IP_ADDR_SIZE 0) 0 (List.replicate (a.length + 1) 0)) := by
    rw [memset, hlength, if_pos (by omega)]
    exact fillLoop_eq 0 (a.length + 1) 0 _ (by rw [List.length_replicate]; omega)
  have hroom : ip.ipLength.toNat ≤ ip.ip.bytes.length ∧ ip.ipLength.toNat ≤ IP_ADDR_SIZE := by
    rw [hlength, Int.toNat_natCast, ip.ip.size]
    omega
  obtain ⟨copied, hcopied⟩ : ∃ copied, memcpy (CharArray.zero IP_ADDR_SIZE) ip.ip.bytes
      ip.ipLength = .ok copied := ⟨_, dif_pos hroom⟩
  have htake : copied.bytes.take a.length = a := by
    have hcopy := hcopied
    rw [memcpy, dif_pos hroom] at hcopy
    obtain rfl := Except.ok.inj hcopy
    simp only [hlength, Int.toNat_natCast, hbytes, List.take_left]
  refine ⟨copied, ?_, htake⟩
  unfold SlotTable.put
  cases hindex : SlotTable.firstIndex devices (fun d => d.addr = addr) with
  | some i =>
    obtain ⟨d, hd, rfl, -⟩ := SlotTable.firstIndex_eq_some hindex
    have hexists : isDeviceExists devices d.addr = true := by
      rw [isDeviceExists, findDeviceIndex, hindex]
      rfl
    rw [addNewDevice, if_pos hexists, updateIotIp, findDeviceIndex, hindex]
    dsimp only
    rw [hclear, ok_bind, hcopied, ok_bind, hd, hlength]
    rfl
  | none =>
    have hexists : ¬ isDeviceExists devices addr = true := by
      rw [isDeviceExists, findDeviceIndex, hindex]
      decide
    rw [addNewDevice, if_neg hexists]
    cases hfree : SlotTable.firstFree devices with
    | some i =>
      have hfound : SlotTable.firstIndex (Function.update devices i (some ⟨addr, fresh⟩))
          (fun d => d.addr = addr) = some i := by
        refine SlotTable.firstIndex_of_unique (Function.update_self ..) rfl ?_
        intro j e he hkey
        rcases SlotTable.update_eq_some he with ⟨hj, -⟩ | ⟨-, he⟩
        · exact hj
        · have hnot := SlotTable.firstIndex_eq_none hindex he
          exact absurd hkey hnot
      dsimp only
      rw [updateIotIp, findDeviceIndex, hfound]
      dsimp only
      rw [hclear, ok_bind, hcopied, ok_bind, Function.update_self, Function.update_idem, hlength]
      rfl
    | none =>
      dsimp only
      rw [updateIotIp, findDeviceIndex, hindex]

/-- What is sent to the address is for the device, and the other devices keep their records. -/
structure Enters (devices : DevTable α) (addr : α) (a : List Byte) (table : DevTable α) :
    Prop where
  found : ∀ m : SentPackage, m.desIp = a → ∃ i d,
    findDeviceIndexByIoTIp (ips table) m.package.desIp = some i ∧ table i = some d ∧ d.addr = addr
  others : ∀ addr', addr' ≠ addr →
    SlotTable.find table (fun d => d.addr = addr') = SlotTable.find devices fun d => d.addr = addr'

/-- No other device has the address. -/
def Free (devices : DevTable α) (addr : α) (a : List Byte) : Prop :=
  ∀ i d, devices i = some d → d.ip.ipLength = a.length → d.ip.ip.bytes.take a.length = a →
    d.addr = addr

theorem enters_put {a : List Byte}
    (hroom : SlotTable.HasRoom DevInfo.addr devices addr)
    (hfree : Free devices addr a) {copied : CharArray IP_ADDR_SIZE}
    (htake : copied.bytes.take a.length = a) :
    Enters devices addr a (SlotTable.put DevInfo.addr devices ⟨addr, ⟨copied, a.length⟩⟩) where
  found := by
    rintro m rfl
    obtain ⟨i, hput⟩ := SlotTable.exists_put
      (d := (⟨addr, ⟨copied, m.desIp.length⟩⟩ : DevInfo α)) hroom
    rw [hput]
    have hknows : Knows (ips (Function.update devices i
        (some ⟨addr, ⟨copied, m.desIp.length⟩⟩))) m.desIp := by
      refine ⟨i, ⟨copied, m.desIp.length⟩, ?_, rfl, htake⟩
      rw [ips, Function.update_self]
      rfl
    obtain ⟨j, hj⟩ := Option.isSome_iff_exists.mp
      ((isSome_findDeviceIndexByIoTIp _ m).mpr hknows)
    obtain ⟨ip, hip, hlength, htext⟩ := exists_of_findDeviceIndex hj
    obtain ⟨d, hd, rfl⟩ := Option.map_eq_some_iff.mp hip
    refine ⟨j, d, hj, hd, ?_⟩
    rcases SlotTable.update_eq_some hd with ⟨-, hnew⟩ | ⟨-, hold⟩
    · rw [← Option.some.inj hnew]
    · exact hfree j d hold hlength htext
  others := fun _ hne => SlotTable.find_put_of_ne hne

end

/-- With a part of the answer in the buffer, the rest of it completes the package. -/
theorem askLoop_eq {answer : SentPackage} {rest : List Byte} (pieces : List (List Byte))
    {b : Manager.PackageBuffer} {held : List Byte} (hholds : Holds b held)
    (hstream : held ++ pieces.flatten = answer.bytes ++ rest)
    (hfits : (held ++ pieces.flatten).length ≤ MAXRECV)
    (hopen : held.length < answer.bytes.length) (package : IoTPackage) :
    ∃ k, askLoop pieces b.tempBuffer b.receiveCount package =
      .ok { answer.package with belongSocketIdx := k } := by
  induction pieces generalizing b held package with
  | nil =>
    have hlength := congrArg List.length hstream
    rw [List.flatten_nil, List.append_nil, List.length_append] at hlength
    omega
  | cons tempRecv pieces ih =>
    rw [List.flatten_cons, ← List.append_assoc] at hstream hfits
    by_cases hempty : tempRecv = []
    · rw [hempty, List.append_nil] at hstream hfits
      rw [askLoop, if_pos hempty]
      exact ih hholds hstream hfits hopen package
    have hroom : held.length + tempRecv.length ≤ MAXRECV := by
      simp only [List.length_append] at hfits
      omega
    obtain ⟨tempBuf, hcopied, hholds'⟩ := Reassembly.charcat_holds hholds tempRecv le_rfl hroom
    rw [List.take_length] at hholds'
    rw [askLoop, if_neg hempty, hcopied, ok_bind]
    by_cases hwhole : answer.bytes.length ≤ (held ++ tempRecv).length
    · obtain ⟨behind, hbehind⟩ : answer.bytes <+: held ++ tempRecv :=
        List.prefix_of_prefix_length_le ⟨rest, hstream.symm⟩ (List.prefix_append ..) hwhole
      rw [← hbehind] at hholds'
      obtain ⟨b', hread, -⟩ := hholds'.reads_package answer package
      refine ⟨package.belongSocketIdx, ?_⟩
      rw [hread, ok_bind, if_pos rfl]
    · have hpart : held ++ tempRecv <+: answer.bytes :=
        List.prefix_of_prefix_length_le ⟨pieces.flatten, hstream⟩ (List.prefix_append ..)
          (Nat.le_of_not_le hwhole)
      obtain ⟨q, hread⟩ := hholds'.reads_part hpart (Nat.lt_of_not_le hwhole) package
      rw [hread, ok_bind, if_neg (by rintro ⟨⟩)]
      exact ih hholds' hstream hfits (Nat.lt_of_not_le hwhole) q

/-- The request goes out as a package, and the answer to it is read. -/
theorem askAIoTIP_eq {answer : SentPackage} {pieces : List (List Byte)} {rest : List Byte}
    (hstream : pieces.flatten = answer.bytes ++ rest) (hfits : pieces.flatten.length ≤ MAXRECV) :
    ∃ (request : SentPackage) (k : ℤ), request.sorIp = ascii "0" ∧ request.desIp = ascii "0" ∧
      askAIoTIP pieces = .ok (request.bytes, { answer.package with belongSocketIdx := k }) := by
  have haddress : IsAddress (ascii "0") := ⟨by decide, by decide, by decide⟩
  obtain ⟨request, hsor, hdes, hdata⟩ := SentPackage.exists_of (ascii "0") (ascii "0") (ascii "0")
    haddress haddress (by decide)
  have hcreate : createPackage generateIotPackage (ascii "0") (ascii "0") (ascii "0") 1 =
      .ok request.package := by
    have hcreated := request.created
    rw [hsor, hdes, hdata] at hcreated
    exact hcreated
  have hlength := request.isCreated.wireBytes_length request.sor request.des
  have hheader := request.isCreated.header_length_le request.sor request.des
  have hone : request.data.length = 1 := by
    rw [hdata]
    rfl
  rw [← request.bytes_eq.1] at hlength
  obtain ⟨s, hencode, hsent⟩ := request.exists_encode (List.replicate 1000 0) (by
    rw [List.length_replicate]
    omega)
  obtain ⟨k, hloop⟩ := askLoop_eq pieces Reassembly.holds_generated hstream hfits
    answer.bytes_pos request.package
  refine ⟨request, k, hsor, hdes, ?_⟩
  rw [askAIoTIP, hcreate, ok_bind, hencode, ok_bind]
  refine bind_eq_ok.mpr ⟨_, hloop, ?_⟩
  exact congrArg (fun bytes => Except.ok (bytes, _)) hsent

section

variable {answer m : SentPackage} {d behind : List Byte} {k : ℤ}

/-- The text and a zero behind it are the data of the package to the manager. -/
theorem sendDescription_eq (hsor : m.sorIp = answer.desIp) (hdes : m.desIp = answer.sorIp)
    (hdata : m.data = d ++ [0]) (hfits : m.bytes.length ≤ 1000) (high low : Byte) :
    sendDescription { answer.package with belongSocketIdx := k } (d ++ high :: low :: behind)
      (d.length + 2) = .ok m.bytes := by
  obtain ⟨hsource, hdestination⟩ := answer.isCreated.texts answer.sor answer.des
  have hwrite : writeAt (d ++ high :: low :: behind) (d.length : ℤ) 0 =
      .ok (d ++ [0] ++ low :: behind) := by
    rw [writeAt_natCast _ _ _ (by simp), List.append_assoc]
    simp
  have hstart : (d.length : ℤ) + 2 - 2 = d.length := by omega
  have hlength : (d.length : ℤ) + 2 - 1 = (m.data.length : ℕ) := by
    rw [hdata, List.length_append, List.length_singleton]
    push_cast
    omega
  have hcreate : createPackage generateIotPackage answer.desIp answer.sorIp
      (d ++ [0] ++ low :: behind) m.data.length = .ok m.package := by
    rw [← hsor, ← hdes, createPackage_take _ _ _ (low :: behind) (by rw [hdata])]
    exact m.created
  obtain ⟨s, hencode, hsent⟩ := m.exists_encode (List.replicate 1000 0) (by
    rw [List.length_replicate]
    exact hfits)
  rw [sendDescription, hstart, hwrite, ok_bind]
  dsimp only
  rw [hdestination, ok_bind, hsource, ok_bind, hlength, hcreate, ok_bind, hencode, ok_bind]
  exact congrArg Except.ok hsent

end

/-- The frame of a text with two bytes for its sum, neither of them the end code. -/
structure Framed (polls : List (List Byte)) (text : List Byte) (high low : Byte) : Prop where
  bytes : polls.flatten = startCode :: (text ++ [high, low, endCode])
  printable : Printable text
  short : text.length ≤ 990
  highOpen : high ≠ endCode
  lowOpen : low ≠ endCode

/-- The device does not answer in time, or a wrong sum comes with the text. -/
inductive Fails (polls : List (List Byte)) : Prop
  | silent : endCode ∉ polls.flatten → polls.flatten.length ≤ MAXRECVBUFFER → Fails polls
  | wrong {text : List Byte} {high low : Byte} : Framed polls text high low →
      joinBytes high low ≠ sumOf text → Fails polls

section

variable {polls : List (List Byte)} {text buf : List Byte} {high low : Byte} {len : ℤ}

theorem Framed.received (h : Framed polls text high low) (hbuf : buf.length = MAXRECVBUFFER)
    (len : ℤ) :
    ∃ behind, (text ++ high :: low :: behind).length = MAXRECVBUFFER ∧
      recvCommand polls buf len =
        .ok ⟨.completed, text ++ high :: low :: behind, text.length + 2⟩ := by
  have hmax : MAXRECVBUFFER = 1000 := rfl
  have hshort := h.short
  have hframe : polls.flatten = startCode :: (text ++ [high, low]) ++ endCode :: [] := by
    rw [h.bytes]
    simp
  have hno : endCode ∉ text ++ [high, low] := by
    simp [endCode_notMem h.printable, Ne.symm h.highOpen, Ne.symm h.lowOpen]
  have hfits : polls.flatten.length ≤ MAXRECVBUFFER := by
    simp only [h.bytes, List.length_cons, List.length_append, List.length_nil]
    omega
  have hlength : (text ++ [high, low]).length = text.length + 2 := by simp
  have hreceive : recvCommand polls buf len = .ok _ :=
    (recvCommand_eq_ok hframe hno (.inl hfits)).mpr ⟨by omega, rfl⟩
  refine ⟨buf.drop (text ++ [high, low]).length, ?_, ?_⟩
  · simp only [List.length_append, List.length_cons, List.length_drop, List.length_nil]
    omega
  · rw [hreceive, hlength]
    simp

theorem Framed.registerCheck_eq (h : Framed polls text high low) (behind : List Byte) :
    registerCheck (text ++ high :: low :: behind) (text.length + 2) =
      .ok (if joinBytes high low = sumOf text then .noerror else .checksumError) :=
  DeviceDescription.registerCheck_eq h.printable h.short high low behind

/-- An attempt that fails is followed by the next one. -/
theorem Fails.describe_cons (h : Fails polls) (hbuf : buf.length = MAXRECVBUFFER)
    (requestIp : IoTPackage) (attempts : List (List (List Byte))) :
    ∃ buf' len', buf'.length = MAXRECVBUFFER ∧
      describe recvCommand requestIp (polls :: attempts) buf len =
        describe recvCommand requestIp attempts buf' len' := by
  cases h with
  | silent hno hfits =>
    refine ⟨buf, len, hbuf, ?_⟩
    rw [describe, recvCommand_silent hno hfits, ok_bind]
    rfl
  | @wrong text high low hframed hsum =>
    obtain ⟨behind, hlength, hreceived⟩ := hframed.received hbuf len
    have hcheck := hframed.registerCheck_eq behind
    rw [if_neg hsum] at hcheck
    refine ⟨_, text.length + 2, hlength, ?_⟩
    rw [describe, hreceived, ok_bind]
    simp only [↓reduceIte, hcheck, ok_bind]
    rfl

/-- The first text that comes with the right sum goes to the manager. -/
theorem describe_eq {answer m : SentPackage} {k : ℤ} (hframed : Framed polls text high low)
    (hsum : joinBytes high low = sumOf text) (hsor : m.sorIp = answer.desIp)
    (hdes : m.desIp = answer.sorIp) (hdata : m.data = text ++ [0]) (hfits : m.bytes.length ≤ 1000)
    {failed : List (List (List Byte))} (hfailed : ∀ polls ∈ failed, Fails polls)
    (others : List (List (List Byte))) (hbuf : buf.length = MAXRECVBUFFER) :
    describe recvCommand { answer.package with belongSocketIdx := k } (failed ++ polls :: others)
      buf len = .ok (some m.bytes) := by
  induction failed generalizing buf len with
  | nil =>
    obtain ⟨behind, -, hreceived⟩ := hframed.received hbuf len
    have hcheck := hframed.registerCheck_eq behind
    rw [if_pos hsum] at hcheck
    have hsent : sendDescription { answer.package with belongSocketIdx := k }
        (text ++ high :: low :: behind) (text.length + 2) = .ok m.bytes :=
      sendDescription_eq hsor hdes hdata hfits high low
    rw [List.nil_append, describe, hreceived, ok_bind]
    simp only [↓reduceIte, hcheck, ok_bind]
    refine bind_eq_ok.mpr ⟨_, hsent, rfl⟩
  | cons first failed ih =>
    obtain ⟨buf', len', hbuf', hnext⟩ := (hfailed first List.mem_cons_self).describe_cons hbuf
      { answer.package with belongSocketIdx := k } (failed ++ polls :: others)
    rw [List.cons_append, hnext]
    exact ih (fun polls hpolls => hfailed polls (List.mem_cons_of_mem _ hpolls)) hbuf'

end

/-- The device holds the text, and its sum is one that the link carries. -/
structure Describes (eeprom : ℕ → Byte) (text : List Byte) : Prop where
  stores : Stores eeprom text
  printable : Printable text
  sum : sumOf text < 2 ^ 16
  high : sumOf text / 256 ≠ 3
  low : sumOf text % 256 ≠ 3

theorem Describes.framed {eeprom : ℕ → Byte} {text : List Byte} (h : Describes eeprom text)
    (hshort : text.length ≤ 990) {polls : List (List Byte)}
    {behind : List Byte} (hpolls : sendDeviceDescription eeprom behind = .ok polls.flatten) :
    Framed polls text (highByte (sumOf text)) (lowByte (sumOf text)) := by
  have hsum : (charSum text % 2 ^ 16).toNat = sumOf text := by
    have hbound := h.sum
    rw [charSum_printable h.printable]
    omega
  have hframe : polls.flatten = descriptionFrame text := by
    rw [sendDeviceDescription_eq h.stores] at hpolls
    split at hpolls
    · cases hpolls
    · exact (Except.ok.inj hpolls).symm
  refine ⟨?_, h.printable, hshort, ?_, ?_⟩
  · rw [hframe, descriptionFrame, hsum]
  · exact fun hend => h.high ((highByte_eq_endCode_iff _ h.sum).mp hend)
  · exact fun hend => h.low ((lowByte_eq_endCode_iff _).mp hend)

section

variable {answer m : SentPackage} {text rest : List Byte} {pieces polls : List (List Byte)}
  {eeprom : ℕ → Byte}

/-- The common part of the three registrations. -/
theorem devRegister_eq (hsor : answer.sorIp = m.desIp) (hdes : answer.desIp = m.sorIp)
    (hstream : pieces.flatten = answer.bytes ++ rest) (hpieces : pieces.flatten.length ≤ MAXRECV)
    (h : Describes eeprom text) (hdata : m.data = text ++ [0]) (hfits : m.bytes.length ≤ 1000)
    {behind : List Byte} (hpolls : sendDeviceDescription eeprom behind = .ok polls.flatten) :
    ∃ request : SentPackage, request.sorIp = ascii "0" ∧ request.desIp = ascii "0" ∧
      ∀ {α : Type} [DecidableEq α] (devices : DevTable α) (addr : α) (ip : IoTIp)
        (failed others : List (List (List Byte))), SlotTable.HasRoom DevInfo.addr devices addr →
          Free devices addr m.sorIp → (∀ polls ∈ failed, Fails polls) →
            ∃ table, devRegister recvCommand devices addr ip pieces (failed ++ polls :: others) =
              .ok ⟨table, request.bytes, some m.bytes⟩ ∧ Enters devices addr m.sorIp table := by
  obtain ⟨request, k, hzero, hzero', hask⟩ := askAIoTIP_eq hstream hpieces
  refine ⟨request, hzero, hzero', ?_⟩
  intro α _ devices addr ip failed others hroom hfree hfailed
  have hip : CharArray.ofText IP_ADDR_SIZE m.sorIp = .ok answer.package.desIp.ip :=
    hdes ▸ answer.isCreated.des
  have hlength : answer.package.desIp.ipLength = m.sorIp.length :=
    hdes ▸ answer.isCreated.desLength
  obtain ⟨copied, hupdate, htake⟩ := updateIotIp_addNewDevice devices addr hip hlength ip
  have hshort : text.length ≤ 990 := by
    have hbytes := m.isCreated.wireBytes_length m.sor m.des
    have hheader := (m.isCreated.header_length_le m.sor m.des).1
    have hone : m.data.length = text.length + 1 := by
      rw [hdata, List.length_append, List.length_singleton]
    rw [← m.bytes_eq.1] at hbytes
    omega
  have hdescribe : describe recvCommand { answer.package with belongSocketIdx := k }
      (failed ++ polls :: others) (List.replicate MAXRECVBUFFER 0) 0 = .ok (some m.bytes) :=
    describe_eq (h.framed hshort hpolls) (joinBytes_split _ h.sum) hdes.symm hsor.symm hdata hfits
      hfailed others List.length_replicate
  refine ⟨_, ?_, enters_put hroom hfree htake⟩
  rw [devRegister, hask, ok_bind]
  dsimp only
  rw [hupdate, ok_bind, hdescribe, ok_bind]

end

/-- A device whose description is a registration: in every state that the manager can be in, each
of the three brokers, given an address for it, asks for one, finds the device under the address
from then on, and sends the manager the package that makes the record of the device there. The
answer to the request and the frame of the device come in any pieces; the BLE broker may have to
ask more than once. -/
theorem device_registers {acts : List Act} {x : Exchange}
    (hrun : Run Exchange.Step Exchange.init acts x) {i : Slot} {c : ℕ}
    (howner : x.owner i = some c) {m : SentPackage} {doc : Document} {w : Value} {q : ℕ} {v : Node}
    (h : Registers m doc w q v) (hdata : m.data = doc.text ++ [0]) (hfits : m.bytes.length ≤ 1000)
    (hmanager : SlotTable.HasRoom IoTDeviceInfo.devID x.registry.devices v.text)
    (halone : ∀ k e, x.registry.devices k = some e → e.ip.text = .ok m.sorIp → e.devID = v.text)
    {answer : SentPackage} (hsor : answer.sorIp = ServerIP) (hdes : answer.desIp = m.sorIp)
    {pieces : List (List Byte)} {rest : List Byte} (hstream : pieces.flatten = answer.bytes ++ rest)
    (hpieces : pieces.flatten.length ≤ MAXRECV) {eeprom : ℕ → Byte}
    (hdescribes : Describes eeprom doc.text) {polls : List (List Byte)} {behind : List Byte}
    (hpolls : sendDeviceDescription eeprom behind = .ok polls.flatten) :
    (∃ request : SentPackage, request.sorIp = ascii "0" ∧ request.desIp = ascii "0" ∧
      (∀ devices addr ip, SlotTable.HasRoom DevInfo.addr devices addr →
        Free devices addr m.sorIp → ∃ table, xbeeAtDevRegister devices addr ip pieces polls =
          .ok ⟨table, request.bytes, some m.bytes⟩ ∧ Enters devices addr m.sorIp table) ∧
      (∀ devices addr ip status, SlotTable.HasRoom DevInfo.addr devices addr →
        Free devices addr m.sorIp →
          ∃ table, xbeeApiDevRegister devices addr ip pieces (status :: polls) =
            .ok ⟨table, request.bytes, some m.bytes⟩ ∧ Enters devices addr m.sorIp table) ∧
      ∀ devices addr ip failed others, SlotTable.HasRoom DevInfo.addr devices addr →
        Free devices addr m.sorIp → (∀ polls ∈ failed, Fails polls) →
          ∃ table, bleDevRegister devices addr ip pieces (failed ++ polls :: others) =
            .ok ⟨table, request.bytes, some m.bytes⟩ ∧ Enters devices addr m.sorIp table) ∧
    ∃ y, Exchange.Step x (.package i c m []) y ∧ Home y i (x.clientSocket i) m.sorIp := by
  obtain ⟨y, hy⟩ := exists_step_registers howner h
  obtain ⟨-, hhome⟩ := home_of_registers hrun h hmanager halone hy
  obtain ⟨request, hzero, hzero', hregister⟩ := devRegister_eq (hsor.trans h.destination.symm) hdes
    hstream hpieces hdescribes hdata hfits hpolls
  have hnone : ∀ polls ∈ ([] : List (List (List Byte))), Fails polls := by
    intro polls hpolls
    cases hpolls
  refine ⟨⟨request, hzero, hzero', ?_, ?_, ?_⟩, y, hy, hhome⟩
  · intro devices addr ip hroom hfree
    exact hregister devices addr ip [] [] hroom hfree hnone
  · intro devices addr ip status hroom hfree
    exact hregister devices addr ip [] [] hroom hfree hnone
  · intro devices addr ip failed others hroom hfree hfailed
    exact hregister devices addr ip failed others hroom hfree hfailed

/-- The device `A` in the group `B`, at an AT broker without devices. -/
theorem device_registers_first :
    ∃ (m request : SentPackage) (pieces polls : List (List Byte)) (table : DevTable AtAddress)
      (y : Exchange), m.sorIp = ascii "DEV.1" ∧
      xbeeAtDevRegister (fun _ => none) (CharArray.zero 8, CharArray.zero 8)
        ⟨CharArray.zero IP_ADDR_SIZE, 0⟩ pieces polls =
          .ok ⟨table, request.bytes, some m.bytes⟩ ∧
      Run Exchange.Step Exchange.init [.accept 4, .package 0 0 m []] y ∧
      Home y 0 4 (ascii "DEV.1") := by
  obtain ⟨m, hsor, hdata, hregisters⟩ := exists_registers
  obtain ⟨answer, hserver, haddress, hanswer⟩ := SentPackage.exists_of ServerIP m.sorIp (ascii "0")
    DiscoverReply.isAddress_serverIP m.sor (by decide)
  have hlength := m.isCreated.wireBytes_length m.sor m.des
  have hheader := m.isCreated.header_length_le m.sor m.des
  have hshort : m.data.length ≤ 100 := by
    rw [hdata]
    decide
  rw [← m.bytes_eq.1] at hlength
  let text := (registerDocument (bothItems 65 rfl)).text
  have hall : text.all (fun c => decide (32 ≤ c ∧ c < 127)) = true := by decide +kernel
  have hprintable : Printable text := fun c hc => of_decide_eq_true (List.all_eq_true.mp hall c hc)
  have hdescribes : Describes (eepromOf text) text :=
    ⟨stores_eepromOf text (by decide), hprintable, by decide, by decide, by decide⟩
  have hstream : [answer.bytes].flatten = answer.bytes ++ [] := by
    rw [List.flatten_singleton, List.append_nil]
  have hpieces : [answer.bytes].flatten.length ≤ MAXRECV := by
    rw [List.flatten_singleton]
    exact answer.bytes_eq.2
  have hsent : sendDeviceDescription (eepromOf text) [0] = .ok [descriptionFrame text].flatten := by
    rw [List.flatten_singleton, sendDeviceDescription_eq hdescribes.stores]
    rfl
  obtain ⟨⟨request, -, -, hregister, -, -⟩, y, hy, hhome⟩ := device_registers
    (Run.single firstClient_step) firstClient_owner hregisters hdata (by omega) (.inr ⟨0, rfl⟩)
    (fun k e he => absurd he (Option.some_ne_none e).symm) hserver haddress hstream hpieces
    hdescribes hsent
  obtain ⟨table, htable, -⟩ := hregister (fun _ => none) (CharArray.zero 8, CharArray.zero 8)
    ⟨CharArray.zero IP_ADDR_SIZE, 0⟩ (.inr ⟨⟨0, by decide⟩, rfl⟩) (fun i d hd => by cases hd)
  rw [hsor, firstClient_socket] at hhome
  exact ⟨m, request, _, _, table, y, hsor, htable, (Run.single firstClient_step).snoc hy, hhome⟩

end IoTRepublic.DeviceRegistration
