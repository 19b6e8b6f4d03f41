import IoTRepublic.IpRequest

/-!
What the manager does with a package it has received. A request for an address
is answered, a package to the manager itself registers a device or carries a
command, and every other package is forwarded. The payload of a package to the
manager is copied to the front of an array that is not cleared, so the arrays
of a call are arguments here, with whatever they held before.
-/
namespace IoTRepublic.Management

open CheckedArray Package JsFileParser Command Manager Registry Forwarding IpRequest

abbrev tempStrLen : ℕ := 50
abbrev tempBufferSize : ℕ := 200
abbrev maxDeviceListBuf : ℕ := 4096

/-- A `JsonData` before anything is stored in it. -/
structure JsonObject where
  data : JsonData
  contentRoom : data.content.length = MAXCONTENTSIZE
  tokenRoom : data.tokens.length = MAXTOKENSIZE

/-- The automatic objects of `handle_managent_package`, of `decode_iot_cmd` and of
`add_new_device`. -/
structure ManagementLocals where
  jsonData : JsonObject
  jsonObj : JsonObject
  tempStr : CharArray tempBufferSize

/-- A text copied to the offset, and the separator behind it. -/
def putText (buffer text : List Byte) (offset : ℕ) : Exec (List Byte × ℕ) := do
  let buffer ← charcat buffer text offset text.length
  let buffer ← writeAt buffer (offset + text.length : ℕ) SplitSymble
  .ok (buffer, offset + text.length + 1)

/-- The loop of `encodeAllDevices_except_one` and `encodePxdDevices_except_one`, which differ in
one more condition on the records. -/
def encodeDevices (wanted : IoTDeviceInfo → Bool) (exceptDeviceIp : List Byte) :
    List (Option IoTDeviceInfo) → List Byte → ℕ → Exec (List Byte × ℕ)
  | [], buffer, offset => .ok (buffer, offset)
  | none :: slots, buffer, offset => encodeDevices wanted exceptDeviceIp slots buffer offset
  | some device :: slots, buffer, offset => do
    let ip ← device.ip.text
    if ip ≠ exceptDeviceIp ∧ wanted device ∧ device.funGroup ≠ ascii "UI" then do
      let (buffer, offset) ← putText buffer ip offset
      let (buffer, offset) ← putText buffer device.devDesc offset
      encodeDevices wanted exceptDeviceIp slots buffer offset
    else encodeDevices wanted exceptDeviceIp slots buffer offset

def encodeAllDevicesExceptOne (devices : Devices) (buffer exceptDeviceIp : List Byte) :
    Exec (List Byte × ℕ) :=
  encodeDevices (fun _ => true) exceptDeviceIp (List.ofFn devices) buffer 0

def encodePxdDevicesExceptOne (devices : Devices) (buffer exceptDeviceIp : List Byte)
    (isProxied : ℤ) : Exec (List Byte × ℕ) :=
  encodeDevices (fun device => device.proxied = isProxied) exceptDeviceIp (List.ofFn devices)
    buffer 0

/-- Any other ID that begins with `Dis_` is answered with an empty list. -/
def discoverPackageReplier (devices : Devices) (clientSocket : Slot → IoTSocket)
    (packageInfo : IoTPackage) (cmd : IoTCommand) : Exec Sent := do
  let ID ← cmd.ID.text
  let source ← packageInfo.sorIp.ip.text
  let allDeviceList := List.replicate maxDeviceListBuf 0
  let (allDeviceList, dataLen) ←
    if ID = ascii "Dis_All" then encodeAllDevicesExceptOne devices allDeviceList source
    else if ID = ascii "Dis_Pxd" then encodePxdDevicesExceptOne devices allDeviceList source 1
    else if ID = ascii "Dis_NPx" then encodePxdDevicesExceptOne devices allDeviceList source 0
    else .ok (allDeviceList, 0)
  let newPackage ← createPackage generateIotPackage ServerIP source allDeviceList dataLen
  sendPackage clientSocket (List.replicate maxDeviceListBuf 0) newPackage
    packageInfo.belongSocketIdx

/-- The end of `handle_managent_package`, for a command of the type management. -/
def handleCommand (devices : Devices) (clientSocket : Slot → IoTSocket)
    (packageInfo : IoTPackage) (cmd : IoTCommand) : Exec (Devices × List Sent) :=
  if cmd.ID.bytes.take 4 = ascii "Dis_" then do
    let sent ← discoverPackageReplier devices clientSocket packageInfo cmd
    .ok (devices, [sent])
  else do
    let ID ← cmd.ID.text
    let Value ← cmd.Value.text
    if ID = ascii "Del_Dev" then .ok (deleteDevice devices Value, [])
    else if ID = ascii "Prx_Add" then .ok (setProxied devices Value 1, [])
    else if ID = ascii "Prx_Rmv" then .ok (setProxied devices Value 0, [])
    else .ok (devices, [])

def handleManagentPackage (devices : Devices) (clientSocket : Slot → IoTSocket)
    (locals : ManagementLocals) (packageInfo : IoTPackage) : Exec (Devices × List Sent) := do
  let content ← charcat locals.jsonData.data.content packageInfo.data 0 packageInfo.dataLength
  let jsonData ← initToken { locals.jsonData.data with content := content }
  let token ← readAt jsonData.tokens 1
  let strTemp ← getPatteren ⟨token.start, token.stop⟩ jsonData.content
    (List.replicate tempStrLen 0)
  let text ← cString 0 strTemp
  if text = ascii "IOTDEV" then do
    let devices ← addNewDevice devices packageInfo.sorIp.ip jsonData packageInfo.belongSocketIdx
      locals.tempStr.bytes
    .ok (devices, [])
  else if text = ascii "IOTCMD" then do
    let cmd ← decodeIotCmd locals.jsonObj.data packageInfo.data generateIotCommand
    if cmd.cmdType ≠ .management then .ok (devices, [])
    else handleCommand devices clientSocket packageInfo cmd
  else .ok (devices, [])

structure RegistryState where
  devices : Devices
  ipCount : ℤ

/-- The automatic objects of the three handlers; `jsonObj` and `sendBuffer` are those of
forwarding. -/
structure HandlerLocals where
  ipRequest : IpRequest.Locals
  management : ManagementLocals
  jsonObj : JsonObject
  sendBuffer : CharArray MAXPACKETSIZE

def handlePackage (clientSocket : Slot → IoTSocket) (locals : HandlerLocals) (s : RegistryState)
    (packageInfo : IoTPackage) : Exec (RegistryState × List Sent) := do
  if ← isIpRequest packageInfo then do
    let (ipCount, reply) ← handleIpRequestPackage clientSocket s.ipCount locals.ipRequest
      packageInfo
    .ok ({ s with ipCount := ipCount }, [reply.sent])
  else do
    let destination ← packageInfo.desIp.ip.text
    if destination = ServerIP then do
      let (devices, sent) ← handleManagentPackage s.devices clientSocket locals.management
        packageInfo
      .ok ({ s with devices := devices }, sent)
    else do
      let sent ← handleForwardingPackage s.devices clientSocket locals.jsonObj.data
        locals.sendBuffer.bytes packageInfo
      .ok (s, [sent])

/-- Bytes copied to the front of an array. -/
theorem charcat_front (content data : List Byte) {n : ℕ} (hdata : n ≤ data.length)
    (hcontent : n ≤ content.length) :
    charcat content data 0 n = .ok (data.take n ++ content.drop n) := by
  have hcopy := copyLoop_eq data n 0 0 content (by omega) (by omega)
  rw [Int.natCast_zero, List.drop_zero, splice_zero, List.length_take, min_eq_left hdata] at hcopy
  rw [charcat, Int.toNat_natCast]
  exact hcopy

/-- A package to the manager that is no request for an address. -/
theorem handlePackage_managent {clientSocket : Slot → IoTSocket} {locals : HandlerLocals}
    {s : RegistryState} {p : IoTPackage} {devices : Devices} {sent : List Sent}
    (hdestination : p.desIp.ip.text = .ok ServerIP)
    (hhandle : handleManagentPackage s.devices clientSocket locals.management p =
      .ok (devices, sent)) :
    handlePackage clientSocket locals s p = .ok ({ s with devices := devices }, sent) := by
  have hserver : ServerIP ≠ ascii "0" := by decide
  have hrequest : isIpRequest p = .ok false := by
    rw [isIpRequest, hdestination, ok_bind, if_neg hserver]
  rw [handlePackage, hrequest, ok_bind]
  simp only [Bool.false_eq_true, ↓reduceIte, hdestination, ok_bind, hhandle]

end IoTRepublic.Management
