import IoTRepublic.CommandCodec
import IoTRepublic.CreatedPackage
import IoTRepublic.SerialFrame
import Mathlib.Data.Fin.Tuple.Basic

/-!
A read request on its way through a broker. The three brokers take a package
off their connection to the manager, send the ID of its command to the device,
collect the framed answer in ten bytes, and send it back in a command of its
own, whose text is written to fifty bytes. Whether the answer arrives depends on
the lengths of the ID and the answer together.
-/
namespace IoTRepublic.ReadRequest

open CheckedArray Package PackageReader ReaderOutcome CreatedPackage JsFileParser Command
  CommandText CommandCodec Manager SerialFrame

abbrev MAXDEVICECOUNT : ℕ := 10
abbrev recvBufSize : ℕ := 10
abbrev maxCmdBufSize : ℕ := 50

/-- The addresses of the devices a broker knows. -/
abbrev DeviceIps := Fin MAXDEVICECOUNT → Option IoTIp

def findDeviceIndexByIoTIp (devices : DeviceIps) (ip : IoTIp) : Option (Fin MAXDEVICECOUNT) :=
  Fin.find? fun i => match devices i with
    | none => false
    | some d => decide (d.ipLength = ip.ipLength ∧
        d.ip.bytes.take ip.ipLength.toNat = ip.ip.bytes.take ip.ipLength.toNat)

/-- The command between the start code and the end code. -/
def commandFrame (cmd : List Byte) (len : ℤ) : Exec (List Byte) := do
  let sendBuf ← charcat (List.replicate (len + 2).toNat 0) cmd 1 len
  let sendBuf ← writeAt sendBuf 0 startCode
  writeAt sendBuf (len + 1) endCode

def sendCommandToEndDevice (cmd : List Byte) (len : ℤ) : Exec (List Byte) := commandFrame cmd len

def sendCommandToApiEndDevice (cmd : List Byte) (len : ℤ) : Exec (List Byte) :=
  commandFrame cmd len

def sendCommandToBleDevice (cmd : List Byte) (len : ℤ) : Exec (List Byte) := commandFrame cmd len

def recvCommandFromApiEndDevice (polls : List (List Byte)) (buf : List Byte) (len : ℤ) :
    Exec Received :=
  recvCommand polls buf len

/-- `memcpy(dst, src, len)`. -/
def memcpy {n : ℕ} (dst : CharArray n) (src : List Byte) (len : ℤ) : Exec (CharArray n) :=
  if h : len.toNat ≤ src.length ∧ len.toNat ≤ n then
    .ok ⟨src.take len.toNat ++ dst.bytes.drop len.toNat, by
      rw [List.length_append, List.length_take, List.length_drop, dst.size]
      omega⟩
  else .error .writeOutside

/-- A document on the stack, before anything has been copied into it. -/
structure LocalJson where
  json : JsonData
  content : json.content.length = MAXCONTENTSIZE
  tokens : json.tokens.length = MAXTOKENSIZE

/-- What a round meets in memory it has not written: the documents of the decoder and the
encoder, and the bytes behind `send_cmd`. -/
structure Memory where
  decoding : LocalJson
  encoding : LocalJson
  beyond : List Byte

/-- From the bytes of the device to the bytes sent to the manager. -/
def sendResponse (memory : Memory) (recvPackage : IoTPackage) (recvCmd : IoTCommand)
    (recvBuf : List Byte) (len : ℤ) : Exec (List Byte) := do
  let Value ← memcpy (CharArray.zero COMMAND_CHAR_SIZE) recvBuf len
  let sendCmd : IoTCommand := ⟨.readResponse, recvCmd.ID, Value⟩
  let (cmdBuf, cmdLen) ← encodeIotCmd memory.encoding.json (List.replicate maxCmdBufSize 0) sendCmd
    memory.beyond
  let desIp ← recvPackage.desIp.ip.text
  let sorIp ← recvPackage.sorIp.ip.text
  let sendPackage ← createPackage generateIotPackage desIp sorIp cmdBuf cmdLen
  let (sendBuf, n) ← encodePackage (List.replicate 1000 0) sendPackage
  .ok (sendBuf.take n)

/-- The variables of `listen_to_manager_loop` that live from round to round. -/
structure Loop where
  tempBuf : List Byte
  offset : ℤ
  recvPackage : IoTPackage
  recvBuf : List Byte
  len : ℤ

structure Round where
  result : RecvResult
  loop : Loop
  toDevice : Option (List Byte)
  toManager : Option (List Byte)

/-- One round of the `do ... while` that the three brokers share. They differ in whether the
device is connected to first, in which commands the device is expected to answer, and in the
functions that talk to it. -/
def listenToManagerLoop (connected : Bool) (answers : CommandType → Bool)
    (sendCommand : List Byte → ℤ → Exec (List Byte)) (receive : List Byte → ℤ → Exec Received)
    (devices : DeviceIps) (memory : Memory) (s : Loop) : Exec Round := do
  let reading ← getCompletedPackage s.tempBuf s.offset s.recvPackage
  let s := { s with
    tempBuf := reading.buffer
    offset := reading.bufferLength
    recvPackage := reading.packageInfo }
  if reading.result = .completed ∧
      (findDeviceIndexByIoTIp devices reading.packageInfo.desIp).isSome ∧ connected then do
    let recvCmd ← decodeIotCmd memory.decoding.json reading.packageInfo.data generateIotCommand
    let cmdId ← strcpy (List.replicate COMMAND_CHAR_SIZE 0) recvCmd.ID.bytes
    let idText ← recvCmd.ID.text
    let sent ← sendCommand cmdId idText.length
    if answers recvCmd.cmdType then do
      let received ← receive s.recvBuf s.len
      let s := { s with recvBuf := received.buf, len := received.len }
      if received.result = .completed ∧ received.len > 0 then do
        let response ← sendResponse memory reading.packageInfo recvCmd received.buf received.len
        .ok ⟨.completed, s, some sent, some response⟩
      else .ok ⟨.completed, s, some sent, none⟩
    else .ok ⟨.completed, s, some sent, none⟩
  else .ok ⟨reading.result, s, none, none⟩

def xbeeAtListenToManagerLoop (connected : Bool) (polls : List (List Byte)) :
    DeviceIps → Memory → Loop → Exec Round :=
  listenToManagerLoop connected (fun _ => true) sendCommandToEndDevice
    (recvCommandFromEndDevice polls)

/-- The first packet is taken as the status of the command sent. -/
def xbeeApiListenToManagerLoop (packets : List (List Byte)) :
    DeviceIps → Memory → Loop → Exec Round :=
  listenToManagerLoop true (· == .readRequest) sendCommandToApiEndDevice
    (recvCommandFromApiEndDevice packets.tail)

def bleListenToManagerLoop (connected : Bool) (polls : List (List Byte)) :
    DeviceIps → Memory → Loop → Exec Round :=
  listenToManagerLoop connected (fun _ => true) sendCommandToBleDevice
    (recvCommandFromBleDevice polls)

inductive Broker
  | xbeeAt
  | xbeeApi
  | ble
  deriving DecidableEq, Repr

/-- A round whose device is reached and answers with the given polls; at the API broker the
status of the sent command comes first. -/
def Broker.round (broker : Broker) (status : List Byte) (polls : List (List Byte)) :
    DeviceIps → Memory → Loop → Exec Round :=
  match broker with
  | .xbeeAt => xbeeAtListenToManagerLoop true polls
  | .xbeeApi => xbeeApiListenToManagerLoop (status :: polls)
  | .ble => bleListenToManagerLoop true polls

theorem commandFrame_eq (cmd rest : List Byte) :
    commandFrame (cmd ++ rest) cmd.length = .ok (startCode :: (cmd ++ [endCode])) := by
  have hblank : (List.replicate (cmd.length + 2) (0 : Byte)).length = cmd.length + 2 :=
    List.length_replicate
  have hcopy := copyLoop_eq (cmd ++ rest) cmd.length 0 1 (List.replicate (cmd.length + 2) 0)
    (by simp) (by omega)
  have hplaced : splice (List.replicate (cmd.length + 2) (0 : Byte)) 1 cmd =
      0 :: (cmd ++ [0]) := by
    rw [splice, Nat.add_comm 1, List.replicate_succ, List.take_succ_cons, List.take_zero,
      List.drop_succ_cons, List.drop_replicate, Nat.add_sub_cancel_left]
    rfl
  rw [List.drop_zero, List.take_left, hplaced] at hcopy
  have hstart : writeAt (0 :: (cmd ++ [0])) 0 startCode = .ok (startCode :: (cmd ++ [0])) := rfl
  have hend := writeAt_natCast (startCode :: (cmd ++ [0])) (cmd.length + 1) endCode (by simp)
  have hset : (startCode :: (cmd ++ [0])).set (cmd.length + 1) endCode =
      startCode :: (cmd ++ [endCode]) := by
    rw [List.set_cons_succ, List.set_append_right _ _ le_rfl, Nat.sub_self, List.set_cons_zero]
  have hsize : ((cmd.length : ℤ) + 2).toNat = cmd.length + 2 := by omega
  rw [hset] at hend
  rw [commandFrame, hsize, charcat, Int.toNat_natCast]
  push_cast at hcopy hend
  rw [hcopy, ok_bind, hstart, ok_bind, hend]

/-- A round on a read request for a known device is the receiving of the answer and the
sending of the response. -/
theorem Broker.round_eq (broker : Broker) (status : List Byte) (polls : List (List Byte))
    {devices : DeviceIps} {memory : Memory} {s : Loop} {reading : Reading} {cmd : IoTCommand}
    {id : List Byte}
    (hread : getCompletedPackage s.tempBuf s.offset s.recvPackage = .ok reading)
    (hcompleted : reading.result = .completed)
    (hknown : (findDeviceIndexByIoTIp devices reading.packageInfo.desIp).isSome)
    (hcmd : decodeIotCmd memory.decoding.json reading.packageInfo.data generateIotCommand =
      .ok cmd)
    (htype : cmd.cmdType = .readRequest) (hid : cmd.ID.text = .ok id) :
    broker.round status polls devices memory s = (do
      let received ← recvCommand polls s.recvBuf s.len
      let s := { s with
        tempBuf := reading.buffer
        offset := reading.bufferLength
        recvPackage := reading.packageInfo
        recvBuf := received.buf
        len := received.len }
      if received.result = .completed ∧ received.len > 0 then do
        let response ← sendResponse memory reading.packageInfo cmd received.buf received.len
        .ok ⟨.completed, s, some (startCode :: (id ++ [endCode])), some response⟩
      else .ok ⟨.completed, s, some (startCode :: (id ++ [endCode])), none⟩) := by
  obtain ⟨hnul, hlen, rest, hbytes⟩ := CharArray.text_eq_ok hid
  have hcopy := strcpy_eq (List.replicate COMMAND_CHAR_SIZE 0) id rest hnul (by
    rw [List.length_replicate]
    exact hlen)
  have hframe := commandFrame_eq id
    (0 :: (List.replicate COMMAND_CHAR_SIZE (0 : Byte)).drop (id.length + 1))
  obtain ⟨answers, hanswers, hround⟩ : ∃ answers : CommandType → Bool,
      answers .readRequest = true ∧ broker.round status polls devices memory s =
        listenToManagerLoop true answers commandFrame (recvCommand polls) devices memory s := by
    cases broker with
    | xbeeAt => exact ⟨fun _ => true, rfl, rfl⟩
    | xbeeApi => exact ⟨(· == .readRequest), rfl, rfl⟩
    | ble => exact ⟨fun _ => true, rfl, rfl⟩
  rw [hround, listenToManagerLoop, hread, ok_bind, if_pos ⟨hcompleted, hknown, rfl⟩, hcmd, ok_bind,
    hbytes, hcopy, ok_bind, hid, ok_bind, hframe, ok_bind, htype, if_pos hanswers]

/-- The length of the response text, whose place for the value is shorter behind an ID that
is spelled like the key. -/
def responseLength (id payload : List Byte) : ℕ :=
  id.length + payload.length + if id = ascii "Value" then 34 else 38

section

variable {memory : Memory} {recvPackage : IoTPackage} {cmd : IoTCommand}
  {id payload rest : List Byte}

theorem memcpy_value (rest : List Byte) (hlen : payload.length ≤ COMMAND_CHAR_SIZE) :
    ∃ Value : CharArray COMMAND_CHAR_SIZE,
      memcpy (CharArray.zero COMMAND_CHAR_SIZE) (payload ++ rest) payload.length = .ok Value ∧
      Value.bytes = payload ++ List.replicate (COMMAND_CHAR_SIZE - payload.length) 0 := by
  have hroom : ((payload.length : ℕ) : ℤ).toNat ≤ (payload ++ rest).length ∧
      ((payload.length : ℕ) : ℤ).toNat ≤ COMMAND_CHAR_SIZE := by
    rw [Int.toNat_natCast, List.length_append]
    omega
  refine ⟨_, dif_pos hroom, ?_⟩
  simp only [Int.toNat_natCast, List.take_left, CharArray.zero, List.drop_replicate]

theorem responseText_length : (cmdContent (cmdTexts (ascii "Res") id payload)).length =
    responseLength id payload := by
  have hres : (ascii "Res").length = 3 := by decide
  rw [cmdTexts_length, hres, responseLength]
  split <;> omega

/-- A response that stayed inside its arrays was short enough, and an answer that fills its
array has a terminator behind it. -/
theorem sendResponse_room (hid : cmd.ID.text = .ok id) (hidText : IsFieldText id)
    (hnul : (0 : Byte) ∉ payload) (hlen : payload.length ≤ COMMAND_CHAR_SIZE) {response : List Byte}
    (hok : sendResponse memory recvPackage cmd (payload ++ rest) payload.length = .ok response) :
    responseLength id payload < maxCmdBufSize ∧
      (payload.length = COMMAND_CHAR_SIZE → memory.beyond.head? = some 0) := by
  obtain ⟨hidNul, hidLen, idRest, hidBytes⟩ := CharArray.text_eq_ok hid
  obtain ⟨Value, hcopy, hValue⟩ := memcpy_value rest hlen
  have hidPos := List.length_pos_iff.mpr hidText.ne_nil
  have hten : COMMAND_CHAR_SIZE = 10 := rfl
  have hfifty : maxCmdBufSize = 50 := rfl
  rw [sendResponse, hcopy, ok_bind] at hok
  obtain ⟨r, hencode, -⟩ := bind_eq_ok.mp hok
  have hsendId : (⟨.readResponse, cmd.ID, Value⟩ : IoTCommand).ID.bytes = id ++ 0 :: idRest :=
    hidBytes
  obtain ⟨v, vrest, hmemory, hv, hfits⟩ := encodeIotCmd_room memory.encoding.content
    memory.encoding.tokens rfl hsendId hidText.isWord (by omega) hencode
  rw [responseText_length, List.length_replicate] at hfits
  dsimp only at hmemory
  rw [hValue, List.append_assoc] at hmemory
  -- the text of the value begins with the answer
  obtain ⟨more, rfl, hmore⟩ : ∃ more, v = payload ++ more ∧
      List.replicate (COMMAND_CHAR_SIZE - payload.length) 0 ++ memory.beyond =
        more ++ 0 :: vrest := by
    rcases List.append_eq_append_iff.mp hmemory with ⟨more, hmore, hrest⟩ | ⟨excess, hexcess, hrest⟩
    · exact ⟨more, hmore, hrest⟩
    · cases excess with
      | nil => exact ⟨[], by rw [hexcess, List.append_nil, List.append_nil], hrest.symm⟩
      | cons c excess =>
        obtain ⟨rfl, -⟩ := List.cons.inj hrest
        exact absurd (by rw [hexcess]; simp) hnul
  have hvalueId : id = ascii "Value" → id.length = 5 := by
    rintro rfl
    rfl
  rw [responseLength, List.length_append] at hfits
  refine ⟨?_, ?_⟩
  · rw [responseLength]
    split at hfits <;> split <;> omega
  · intro hfull
    have hnone : more = [] := by
      rw [← List.length_eq_zero_iff]
      split at hfits
      · rename_i hcase
        have := hvalueId hcase
        omega
      · omega
    rw [hfull, Nat.sub_self, hnone] at hmore
    rw [show memory.beyond = 0 :: vrest from hmore]
    rfl

/-- A response short enough for its array is sent as one package. -/
theorem sendResponse_eq (rest : List Byte) (hid : cmd.ID.text = .ok id) (hidText : IsFieldText id)
    (hpayload : IsFieldText payload) (hlen : payload.length ≤ COMMAND_CHAR_SIZE)
    (hshort : responseLength id payload < maxCmdBufSize)
    (hfull : payload.length = COMMAND_CHAR_SIZE → memory.beyond.head? = some 0)
    {source destination : List Byte} (hsource : recvPackage.sorIp.ip.text = .ok source)
    (hdestination : recvPackage.desIp.ip.text = .ok destination) (hsor : IsAddress source)
    (hdes : IsAddress destination) :
    ∃ q, Created generateIotPackage destination source
        (cmdContent (cmdTexts (ascii "Res") id payload) ++ [0]) q ∧
      sendResponse memory recvPackage cmd (payload ++ rest) payload.length =
        .ok (wireBytes q) := by
  obtain ⟨hidNul, hidLen, idRest, hidBytes⟩ := CharArray.text_eq_ok hid
  obtain ⟨Value, hcopy, hValue⟩ := memcpy_value rest hlen
  have hten : COMMAND_CHAR_SIZE = 10 := rfl
  have hfifty : maxCmdBufSize = 50 := rfl
  have hsendId : (⟨.readResponse, cmd.ID, Value⟩ : IoTCommand).ID.bytes = id ++ 0 :: idRest :=
    hidBytes
  obtain ⟨vrest, hmemory⟩ : ∃ vrest, Value.bytes ++ memory.beyond = payload ++ 0 :: vrest := by
    rw [hValue, List.append_assoc]
    by_cases hcase : payload.length = COMMAND_CHAR_SIZE
    · obtain ⟨vrest, hvrest⟩ := List.head?_eq_some_iff.mp (hfull hcase)
      exact ⟨vrest, by rw [hcase, Nat.sub_self, hvrest]; rfl⟩
    · obtain ⟨k, hk⟩ : ∃ k, COMMAND_CHAR_SIZE - payload.length = k + 1 :=
        ⟨COMMAND_CHAR_SIZE - payload.length - 1, by omega⟩
      exact ⟨List.replicate k 0 ++ memory.beyond, by rw [hk, List.replicate_succ]; rfl⟩
  obtain ⟨d, hd, hencode⟩ := encodeIotCmd_eq memory.encoding.content memory.encoding.tokens rfl
    hsendId hmemory hidText.isWord hpayload.isWord (by omega) (List.replicate maxCmdBufSize 0)
  obtain ⟨behind, hcontent⟩ := hd.content
  have htext : (cmdContent (cmdTexts (ascii "Res") id payload)).length = responseLength id payload :=
    responseText_length
  have hstrcpy := strcpy_eq (List.replicate maxCmdBufSize 0) _ behind hd.words.noNul (by
    rw [List.length_replicate, htext]
    exact hshort)
  have hdata : (cmdContent (cmdTexts (ascii "Res") id payload) ++ [0]).length =
      responseLength id payload + 1 := by
    rw [List.length_append, htext, List.length_singleton]
  obtain ⟨q, hq⟩ := exists_created generateIotPackage hdes hsor
    (by rw [hdata]; omega)
  refine ⟨q, hq, ?_⟩
  have hcreate := createPackage_eq_ok.mpr hq
  have hwire := hq.wireBytes_length hdes hsor
  have hheader := hq.header_length_le hdes hsor
  have hpack := (hq.encodePackage_eq_ok hdes hsor).mpr ⟨by omega, by
    rw [List.length_replicate]
    omega, (rfl : written (List.replicate 1000 0) (wireBytes q) = _)⟩
  have hsize : d.contentSize + 1 =
      ((cmdContent (cmdTexts (ascii "Res") id payload) ++ [0]).length : ℤ) := by
    rw [hd.contentSize, List.length_append, List.length_singleton]
    push_cast
    rfl
  have hblock : ∀ behind : List Byte, createPackage generateIotPackage destination source
      (cmdContent (cmdTexts (ascii "Res") id payload) ++ 0 :: behind)
      (cmdContent (cmdTexts (ascii "Res") id payload) ++ [0]).length = .ok q := by
    intro behind
    rw [← hcreate, ← createPackage_take _ _ _ behind rfl, List.append_assoc]
    rfl
  rw [sendResponse, hcopy, ok_bind]
  simp only [hencode, hcontent, hstrcpy, ok_bind, hdestination, hsource, hsize, hblock, hpack]
  rw [written_take]

end

/-- A package that the reader delivers has two addresses. -/
theorem completed_addresses {buffer : List Byte} {bufferLength : ℤ} {p : IoTPackage}
    {reading : Reading} (h0 : 0 ≤ bufferLength) (hcap : bufferLength ≤ buffer.length)
    (hread : getCompletedPackage buffer bufferLength p = .ok reading)
    (hcompleted : reading.result = .completed) :
    ∃ source destination, reading.packageInfo.sorIp.ip.text = .ok source ∧
      reading.packageInfo.desIp.ip.text = .ok destination ∧ IsAddress source ∧
      IsAddress destination := by
  have haddress : ∀ {text : List Byte} {ip : CharArray IP_ADDR_SIZE},
      CharArray.ofText IP_ADDR_SIZE text = .ok ip → text ≠ [] → SplitSymble ∉ text →
      ip.text = .ok text ∧ IsAddress text := by
    intro text ip harray hne hnul
    exact ⟨CharArray.ofText_text harray hnul, hne, hnul,
      Nat.le_of_succ_le_succ (CharArray.ofText_eq_ok.mp harray).1⟩
  cases outcome_of_ok h0 hcap hread with
  | completed h q hwhole hq =>
    have hsource := haddress hq.sor (h.isFields.ne_nil _ (by simp))
      (h.isFields.sep_notMem _ (by simp))
    have hdestination := haddress hq.des (h.isFields.ne_nil _ (by simp))
      (h.isFields.sep_notMem _ (by simp))
    exact ⟨h.source, h.destination, hsource.1, hdestination.1, hsource.2, hdestination.2⟩
  | _ => cases hcompleted

/-- The round sends a package that decodes to a response with the request's addresses the
other way round, the same ID and the answer as its value. -/
def Answered (run : Exec Round) (request : IoTPackage) (id payload : List Byte) : Prop :=
  ∃ round response, run = .ok round ∧ round.toManager = some response ∧
    ∀ (p : IoTPackage) (document : LocalJson) (cmd₀ : IoTCommand), ∃ reading cmd,
      getCompletedPackage response response.length p = .ok reading ∧
      reading.result = .completed ∧
      reading.packageInfo.sorIp.ip.text = request.desIp.ip.text ∧
      reading.packageInfo.desIp.ip.text = request.sorIp.ip.text ∧
      decodeIotCmd document.json reading.packageInfo.data cmd₀ = .ok cmd ∧
      cmd.cmdType = .readResponse ∧ cmd.ID.text = .ok id ∧ cmd.Value.text = .ok payload

/-- What is expected of a round: an answer of at most nine characters reaches the manager, and
a longer one makes no copy leave its array. -/
structure Serves (run : Exec Round) (request : IoTPackage) (id payload : List Byte) : Prop where
  short : payload.length ≤ 9 → Answered run request id payload
  long : 9 < payload.length → ∃ round, run = .ok round

/-- The response as the manager reads it. -/
theorem response_decodes {id payload source destination : List Byte} {q : IoTPackage}
    (hq : Created generateIotPackage destination source
      (cmdContent (cmdTexts (ascii "Res") id payload) ++ [0]) q)
    (hsor : IsAddress source) (hdes : IsAddress destination) (hidText : IsFieldText id)
    (hidLen : id.length ≤ 9) (hpayload : IsFieldText payload) (hlen : payload.length ≤ 9)
    (p : IoTPackage) (document : LocalJson) (cmd₀ : IoTCommand) :
    ∃ reading cmd, getCompletedPackage (wireBytes q) (wireBytes q).length p = .ok reading ∧
      reading.result = .completed ∧ reading.packageInfo.sorIp.ip.text = .ok destination ∧
      reading.packageInfo.desIp.ip.text = .ok source ∧
      decodeIotCmd document.json reading.packageInfo.data cmd₀ = .ok cmd ∧
      cmd.cmdType = .readResponse ∧ cmd.ID.text = .ok id ∧ cmd.Value.text = .ok payload := by
  have hwire := hq.wireBytes_length hdes hsor
  have hheader := hq.header_length_le hdes hsor
  have hsmall := hq.dataLength_lt
  have hread := hq.completed hdes hsor p [] (wireBytes q).length le_rfl (by simp) (by omega)
  rw [List.append_nil] at hread
  obtain ⟨ID, hID⟩ := CharArray.exists_ofText COMMAND_CHAR_SIZE id (Nat.succ_le_succ hidLen)
  obtain ⟨Value, hValue⟩ := CharArray.exists_ofText COMMAND_CHAR_SIZE payload
    (Nat.succ_le_succ hlen)
  have htype : typeText .readResponse = some (ascii "Res") := rfl
  have hdecode : decodeIotCmd document.json _ cmd₀ = _ :=
    decodeIotCmd_eq document.content document.tokens (typeText_isTypeText htype) hidText.isWord
      hpayload.isWord (lt_of_le_of_lt hidLen (by decide)) (lt_of_le_of_lt hlen (by decide)) []
  rw [hID, ok_bind, hValue, ok_bind, typeOfText_typeText htype] at hdecode
  refine ⟨_, ⟨.readResponse, ID, Value⟩, hread, rfl, ?_, ?_, ?_, rfl,
    CharArray.ofText_text hID hidText.isWord.noNul,
    CharArray.ofText_text hValue hpayload.isWord.noNul⟩
  · exact CharArray.ofText_text hq.sor hdes.noNul
  · exact CharArray.ofText_text hq.des hsor.noNul
  · dsimp only
    rw [hq.data]
    exact hdecode

/-- A read request with this ID is the next package, and its device is known. -/
structure Arrives (devices : DeviceIps) (memory : Memory) (s : Loop) (reading : Reading)
    (id : List Byte) : Prop where
  offset : 0 ≤ s.offset ∧ s.offset ≤ s.tempBuf.length
  recvBuf : s.recvBuf.length = recvBufSize
  read : getCompletedPackage s.tempBuf s.offset s.recvPackage = .ok reading
  completed : reading.result = .completed
  known : (findDeviceIndexByIoTIp devices reading.packageInfo.desIp).isSome
  command : ∃ cmd, decodeIotCmd memory.decoding.json reading.packageInfo.data generateIotCommand =
    .ok cmd ∧ cmd.cmdType = .readRequest ∧ cmd.ID.text = .ok id

section

variable {devices : DeviceIps} {memory : Memory} {s : Loop} {reading : Reading}
  {id payload : List Byte} {polls : List (List Byte)}

theorem recvCommand_answer (hpayload : IsFieldText payload) (hrecvBuf : s.recvBuf.length = recvBufSize)
    (hpolls : polls.flatten = startCode :: payload ++ [endCode]) (r : Received) :
    recvCommand polls s.recvBuf s.len = .ok r ↔ payload.length ≤ recvBufSize ∧
      r = ⟨.completed, payload ++ s.recvBuf.drop payload.length, payload.length⟩ := by
  have hrecv : recvBufSize = 10 := rfl
  have hmax : MAXRECVBUFFER = 1000 := rfl
  have hno : endCode ∉ payload := by
    intro hmem
    exact Jsmn.printable_of_isPlain (hpayload.isWord.plain _ hmem) (.inl (by decide))
  have hlength := congrArg List.length hpolls
  rw [List.length_append, List.length_cons, List.length_singleton] at hlength
  rw [recvCommand_eq_ok hpolls hno (by omega), hrecvBuf]

/-- A round that ends had room for the response. -/
theorem round_room (broker : Broker) (status : List Byte)
    (harrives : Arrives devices memory s reading id) (hid : IsFieldText id)
    (hpayload : IsFieldText payload)
    (hpolls : polls.flatten = startCode :: payload ++ [endCode]) {round : Round}
    (hok : broker.round status polls devices memory s = .ok round) :
    responseLength id payload < maxCmdBufSize ∧
      (payload.length = COMMAND_CHAR_SIZE → memory.beyond.head? = some 0) := by
  have hpos := List.length_pos_iff.mpr hpayload.ne_nil
  obtain ⟨cmd, hcmd, htype, hidText⟩ := harrives.command
  rw [broker.round_eq status polls harrives.read harrives.completed harrives.known hcmd htype
    hidText] at hok
  obtain ⟨received, hreceived, hok⟩ := bind_eq_ok.mp hok
  obtain ⟨hfits, rfl⟩ := (recvCommand_answer hpayload harrives.recvBuf hpolls received).mp hreceived
  have hlong : (payload.length : ℤ) > 0 := by omega
  rw [if_pos ⟨rfl, hlong⟩] at hok
  obtain ⟨response, hresponse, -⟩ := bind_eq_ok.mp hok
  exact sendResponse_room hidText hid hpayload.isWord.noNul hfits hresponse

/-- Whatever the length of the answer, a request is served in a round that ends. -/
theorem Serves.exists_ok {run : Exec Round} {request : IoTPackage}
    (hserves : Serves run request id payload) : ∃ round, run = .ok round := by
  by_cases hcase : payload.length ≤ 9
  · obtain ⟨round, -, hok, -⟩ := hserves.short hcase
    exact ⟨round, hok⟩
  · exact hserves.long (by omega)

theorem responseLength_room (hid : IsFieldText id) (hshort : responseLength id payload < maxCmdBufSize) :
    payload.length ≤ COMMAND_CHAR_SIZE := by
  have hten : COMMAND_CHAR_SIZE = 10 := rfl
  have hfifty : maxCmdBufSize = 50 := rfl
  have hidPos := List.length_pos_iff.mpr hid.ne_nil
  rw [responseLength] at hshort
  split at hshort
  · rename_i hcase
    have hfive : id.length = 5 := by
      rw [hcase]
      rfl
    omega
  · omega

theorem serves_of_room (broker : Broker) (status : List Byte)
    (harrives : Arrives devices memory s reading id) (hid : IsFieldText id)
    (hpayload : IsFieldText payload)
    (hpolls : polls.flatten = startCode :: payload ++ [endCode])
    (hshort : responseLength id payload < maxCmdBufSize)
    (hfull : payload.length = COMMAND_CHAR_SIZE → memory.beyond.head? = some 0) :
    Serves (broker.round status polls devices memory s) reading.packageInfo id payload := by
  have hpos := List.length_pos_iff.mpr hpayload.ne_nil
  have hlen := responseLength_room hid hshort
  obtain ⟨cmd, hcmd, htype, hidText⟩ := harrives.command
  obtain ⟨source, destination, hsource, hdestination, hsor, hdes⟩ :=
    completed_addresses harrives.offset.1 harrives.offset.2 harrives.read harrives.completed
  obtain ⟨q, hq, hresponse⟩ := sendResponse_eq (s.recvBuf.drop payload.length) hidText hid
    hpayload hlen hshort hfull hsource hdestination hsor hdes
  have hreceived := (recvCommand_answer hpayload harrives.recvBuf hpolls _).mpr ⟨hlen, rfl⟩
  have hlong : (payload.length : ℤ) > 0 := by omega
  have hround := broker.round_eq status polls harrives.read harrives.completed harrives.known hcmd
    htype hidText
  rw [hreceived, ok_bind, if_pos ⟨rfl, hlong⟩, hresponse, ok_bind] at hround
  constructor
  · intro hnine
    refine ⟨_, _, hround, rfl, fun p document cmd₀ => ?_⟩
    rw [hsource, hdestination]
    exact response_decodes hq hsor hdes hid (Nat.le_of_succ_le_succ (CharArray.text_eq_ok hidText).2.1)
      hpayload hnine p document cmd₀
  · intro _
    exact ⟨_, hround⟩

/-- A read request is served exactly when its response fits, and an answer that fills its
array has a terminator behind it. -/
theorem read_request_served_iff (broker : Broker) (status : List Byte)
    (harrives : Arrives devices memory s reading id) (hid : IsFieldText id)
    (hpayload : IsFieldText payload)
    (hpolls : polls.flatten = startCode :: payload ++ [endCode]) :
    Serves (broker.round status polls devices memory s) reading.packageInfo id payload ↔
      responseLength id payload < maxCmdBufSize ∧
        (payload.length = COMMAND_CHAR_SIZE → memory.beyond.head? = some 0) := by
  constructor
  · intro hserves
    obtain ⟨round, hok⟩ := hserves.exists_ok
    exact round_room broker status harrives hid hpayload hpolls hok
  · intro hroom
    exact serves_of_room broker status harrives hid hpayload hpolls hroom.1 hroom.2

end

def blankLocal : LocalJson := ⟨blankJson, blankJson_content, blankJson_tokens⟩

def blankMemory : Memory := ⟨blankLocal, blankLocal, []⟩

/-- A request for any ID can arrive for any known device. -/
theorem exists_arrives {id : List Byte} (hid : IsFieldText id) (hlen : id.length ≤ 9) :
    ∃ devices s reading, Arrives devices blankMemory s reading id := by
  have hreq : typeText .readRequest = some (ascii "Req") := rfl
  have hdata : (cmdContent (cmdTexts (ascii "Req") id (ascii "0")) ++ [0]).length < 10 ^ 9 := by
    have hone : (ascii "0").length = 1 := by decide
    rw [List.length_append, List.length_singleton, cmdTexts_length,
      (typeText_isTypeText hreq).length, hone]
    split <;> omega
  obtain ⟨q, hq⟩ := exists_created generateIotPackage isAddress_A isAddress_B hdata
  have hwire := hq.wireBytes_length isAddress_A isAddress_B
  have hheader := hq.header_length_le isAddress_A isAddress_B
  have hsmall := hq.dataLength_lt
  have hread := hq.completed isAddress_A isAddress_B generateIotPackage [] (wireBytes q).length
    le_rfl (by simp) (by omega)
  rw [List.append_nil] at hread
  obtain ⟨ID, hID⟩ := CharArray.exists_ofText COMMAND_CHAR_SIZE id (Nat.succ_le_succ hlen)
  obtain ⟨Value, hValue⟩ := CharArray.exists_ofText COMMAND_CHAR_SIZE (ascii "0") (by decide)
  have hdecode : decodeIotCmd blankJson _ generateIotCommand = _ :=
    decodeIotCmd_eq blankLocal.content blankLocal.tokens (typeText_isTypeText hreq) hid.isWord
      isWord_zero (lt_of_le_of_lt hlen (by decide)) (by decide) []
  rw [hID, ok_bind, hValue, ok_bind, typeOfText_typeText hreq] at hdecode
  refine ⟨fun _ => some q.desIp,
    ⟨wireBytes q, (wireBytes q).length, generateIotPackage, List.replicate recvBufSize 0, 0⟩, _,
    ⟨by simp, by simp⟩, List.length_replicate, hread, rfl, ?_,
    ⟨.readRequest, ID, Value⟩, ?_, rfl, CharArray.ofText_text hID hid.isWord.noNul⟩
  · rw [findDeviceIndexByIoTIp, Fin.isSome_find?_iff]
    exact ⟨0, by simp⟩
  · dsimp only
    rw [hq.data]
    exact hdecode

/-- A short answer to a short ID. -/
theorem read_request_served_short :
    ∃ devices s reading, Arrives devices blankMemory s reading (ascii "Temp") ∧
      Serves (Broker.ble.round [] [[startCode], ascii "21.5" ++ [endCode]] devices blankMemory s)
        reading.packageInfo (ascii "Temp") (ascii "21.5") := by
  have hid : IsFieldText (ascii "Temp") := ⟨by decide, List.all_eq_true.mp (by decide)⟩
  have hpayload : IsFieldText (ascii "21.5") := ⟨by decide, List.all_eq_true.mp (by decide)⟩
  obtain ⟨devices, s, reading, harrives⟩ := exists_arrives hid (by decide)
  refine ⟨devices, s, reading, harrives, ?_⟩
  apply (read_request_served_iff .ble [] harrives hid hpayload (by decide)).mpr
  exact ⟨by decide, by decide⟩

/-- An answer of eight characters to an ID of four overruns the array of the response text. -/
theorem read_request_overruns :
    ∃ devices s reading, Arrives devices blankMemory s reading (ascii "Temp") ∧
      (∀ round, Broker.ble.round [] [startCode :: ascii "12345.67" ++ [endCode]] devices
        blankMemory s ≠ .ok round) ∧
      ¬ Serves (Broker.ble.round [] [startCode :: ascii "12345.67" ++ [endCode]] devices
        blankMemory s) reading.packageInfo (ascii "Temp") (ascii "12345.67") := by
  have hid : IsFieldText (ascii "Temp") := ⟨by decide, List.all_eq_true.mp (by decide)⟩
  have hpayload : IsFieldText (ascii "12345.67") := ⟨by decide, List.all_eq_true.mp (by decide)⟩
  obtain ⟨devices, s, reading, harrives⟩ := exists_arrives hid (by decide)
  have hfaults : ∀ round, Broker.ble.round [] [startCode :: ascii "12345.67" ++ [endCode]] devices
      blankMemory s ≠ .ok round := by
    intro round hok
    have hroom := (round_room .ble [] harrives hid hpayload (by decide) hok).1
    exact absurd hroom (by decide)
  refine ⟨devices, s, reading, harrives, hfaults, ?_⟩
  intro hserves
  obtain ⟨round, hok⟩ := hserves.exists_ok
  exact hfaults round hok

end IoTRepublic.ReadRequest
