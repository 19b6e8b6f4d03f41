import IoTRepublic.Lookup
import IoTRepublic.Management

/-!
A payload in the arrays of the manager. It is copied to the front of the content
and its tokens to the front of the tokens; behind both stands what was there
before. A payload whose text ends in itself and has two tokens or more is handled
by the name that its second token covers.
-/
namespace IoTRepublic.ManagementPayload

open CheckedArray Package Jsmn JsFileParser Command Manager Registry Forwarding Management Lookup

/-- The payload fits the array and has a terminator, and its text is tokenized. -/
structure Payload (data text : List Byte) (n : ℤ) (tokens : List Token) : Prop where
  room : data.length ≤ MAXCONTENTSIZE
  ends : ∃ beyond, data = text ++ 0 :: beyond
  noNul : (0 : Byte) ∉ text
  parsed : jsmnParse text MAXTOKENSIZE = .ok (n, tokens)

section

variable {text : List Byte} {n : ℤ} {tokens : List Token} {p : IoTPackage}

theorem charcat_payload (hlength : p.data.length = p.dataLength.toNat)
    (hroom : p.data.length ≤ MAXCONTENTSIZE) (object : JsonObject) :
    charcat object.data.content p.data 0 p.dataLength =
      .ok (p.data ++ object.data.content.drop p.data.length) := by
  have hcontent := object.contentRoom
  have hloop := charcat_front object.data.content p.data le_rfl (by omega)
  rw [List.take_length, charcat, Int.toNat_natCast] at hloop
  rw [charcat, ← hlength]
  exact hloop

/-- The payload in the object of the manager, whatever was in it. -/
theorem Payload.loaded (hpayload : Payload p.data text n tokens)
    (hlength : p.data.length = p.dataLength.toNat) (object : JsonObject) :
    ∃ content d, charcat object.data.content p.data 0 p.dataLength = .ok content ∧
      initToken { object.data with content := content } = .ok d ∧ Shows d text tokens ∧
      d.tokenSize = n ∧ d.tokens = tokens ++ object.data.tokens.drop tokens.length := by
  obtain ⟨beyond, hdata⟩ := hpayload.ends
  have hroom := hpayload.room
  have hcontent := object.contentRoom
  have hcopy := charcat_payload hlength hroom object
  have hsplit : p.data ++ object.data.content.drop p.data.length =
      text ++ 0 :: (beyond ++ object.data.content.drop p.data.length) := by
    nth_rewrite 1 [hdata]
    rw [List.append_assoc, List.cons_append]
  have hroom' : (p.data ++ object.data.content.drop p.data.length).length = MAXCONTENTSIZE := by
    rw [List.length_append, List.length_drop]
    omega
  obtain ⟨d, hinit, hd, hn, htokens⟩ := initToken_shows (d := object.data) hpayload.noNul hsplit
    hroom' object.tokenRoom hpayload.parsed
  exact ⟨_, d, hcopy, hinit, hd, hn, htokens⟩

/-- The payload in the object of the command decoder. -/
theorem Payload.copied (hpayload : Payload p.data text n tokens) (object : JsonObject) :
    ∃ content d, strcpy object.data.content p.data = .ok content ∧
      initToken { object.data with content := content } = .ok d ∧ Shows d text tokens ∧
      d.tokenSize = n ∧ d.tokens = tokens ++ object.data.tokens.drop tokens.length := by
  obtain ⟨beyond, hdata⟩ := hpayload.ends
  have hroom := hpayload.room
  have hcontent := object.contentRoom
  rw [hdata, List.length_append, List.length_cons] at hroom
  have hcopy := strcpy_eq object.data.content text beyond hpayload.noNul (by omega)
  rw [← hdata] at hcopy
  have hlength : (text ++ 0 :: object.data.content.drop (text.length + 1)).length =
      MAXCONTENTSIZE := by
    rw [List.length_append, List.length_cons, List.length_drop]
    omega
  obtain ⟨d, hinit, hd, hn, htokens⟩ := initToken_shows (d := object.data) hpayload.noNul rfl
    hlength object.tokenRoom hpayload.parsed
  exact ⟨_, d, hcopy, hinit, hd, hn, htokens⟩

/-- The command decoder on the payload. -/
theorem Payload.decodeIotCmd_eq (hpayload : Payload p.data text n tokens)
    (object : JsonObject) :
    ∃ d, Shows d text tokens ∧ d.tokenSize = n ∧
      d.tokens = tokens ++ object.data.tokens.drop tokens.length ∧
      decodeIotCmd object.data p.data generateIotCommand =
        commandValue d (ascii "Type") >>= fun type =>
          commandValue d (ascii "ID") >>= fun idText =>
            CharArray.ofText COMMAND_CHAR_SIZE idText >>= fun ID =>
              commandValue d (ascii "Value") >>= fun valueText =>
                CharArray.ofText COMMAND_CHAR_SIZE valueText >>= fun Value =>
                  .ok ⟨typeOfText type .none, ID, Value⟩ := by
  obtain ⟨content, d, hcopy, hinit, hd, hn, htokens⟩ := hpayload.copied object
  refine ⟨d, hd, hn, htokens, ?_⟩
  rw [decodeIotCmd, hcopy, ok_bind, hinit, ok_bind]
  rfl

end

/-- What `handle_managent_package` has made of a payload before it acts on a command. -/
inductive Handled
  | registered (devices : Devices)
  | command (cmd : IoTCommand)
  | other

/-- `handle_managent_package` up to the decoded command. -/
def readPayload (devices : Devices) (locals : ManagementLocals) (packageInfo : IoTPackage) :
    Exec Handled := do
  let content ← charcat locals.jsonData.data.content packageInfo.data 0 packageInfo.dataLength
  let jsonData ← initToken { locals.jsonData.data with content := content }
  let token ← readAt jsonData.tokens 1
  let strTemp ← getPatteren ⟨token.start, token.stop⟩ jsonData.content
    (List.replicate tempStrLen 0)
  let text ← cString 0 strTemp
  if text = ascii "IOTDEV" then do
    let devices ← addNewDevice devices packageInfo.sorIp.ip jsonData packageInfo.belongSocketIdx
      locals.tempStr.bytes
    .ok (.registered devices)
  else if text = ascii "IOTCMD" then do
    let cmd ← decodeIotCmd locals.jsonObj.data packageInfo.data generateIotCommand
    .ok (.command cmd)
  else .ok .other

/-- What it does then. -/
def actOn (devices : Devices) (clientSocket : Slot → IoTSocket) (packageInfo : IoTPackage) :
    Handled → Exec (Devices × List Sent)
  | .registered devices => .ok (devices, [])
  | .command cmd =>
    if cmd.cmdType ≠ .management then .ok (devices, [])
    else handleCommand devices clientSocket packageInfo cmd
  | .other => .ok (devices, [])

theorem handleManagentPackage_eq_readPayload (devices : Devices) (clientSocket : Slot → IoTSocket)
    (locals : ManagementLocals) (p : IoTPackage) :
    handleManagentPackage devices clientSocket locals p =
      readPayload devices locals p >>= actOn devices clientSocket p := by
  simp only [handleManagentPackage, readPayload, bind_assoc]
  refine bind_congr fun content => bind_congr fun jsonData => bind_congr fun token =>
    bind_congr fun strTemp => bind_congr fun text => ?_
  split
  · simp only [bind_assoc]
    rfl
  · split
    · simp only [bind_assoc]
      rfl
    · rfl

/-- What the manager reads of a payload once its name is known. -/
theorem readPayload_eq {text : List Byte} {n : ℤ} {first second : Token} {others : List Token}
    {p : IoTPackage} (hpayload : Payload p.data text n (first :: second :: others))
    (hname : (tokenText text second).length < tempStrLen)
    (hlength : p.data.length = p.dataLength.toNat) (devices : Devices)
    (locals : ManagementLocals) :
    ∃ d, Shows d text (first :: second :: others) ∧ d.tokenSize = n ∧
      d.tokens = first :: second :: others ++
        locals.jsonData.data.tokens.drop (first :: second :: others).length ∧
      readPayload devices locals p =
        if tokenText text second = ascii "IOTDEV" then
          addNewDevice devices p.sorIp.ip d p.belongSocketIdx locals.tempStr.bytes >>=
            fun devices => .ok (.registered devices)
        else if tokenText text second = ascii "IOTCMD" then
          decodeIotCmd locals.jsonObj.data p.data generateIotCommand >>=
            fun cmd => .ok (.command cmd)
        else .ok .other := by
  obtain ⟨content, d, hcopy, hinit, hd, hn, htokens⟩ := hpayload.loaded hlength locals.jsonData
  have hread : readAt d.tokens 1 = .ok second := hd.readAt (i := 1) rfl
  have hpattern : getPatteren ⟨second.start, second.stop⟩ d.content (List.replicate tempStrLen 0) =
      .ok (tokenText text second ++
        0 :: (List.replicate tempStrLen 0).drop ((tokenText text second).length + 1)) := by
    apply hd.getPatteren_eq (by simp)
    rw [List.length_replicate]
    exact hname
  have htext := cString_append 0 (tokenText text second)
    ((List.replicate tempStrLen 0).drop ((tokenText text second).length + 1))
    (tokenText_noNul hpayload.noNul)
  refine ⟨d, hd, hn, htokens, ?_⟩
  rw [readPayload, hcopy, ok_bind, hinit, ok_bind, hread, ok_bind, hpattern, ok_bind, htext,
    ok_bind]

/-- What the manager does with a payload once its name is known. -/
theorem handleManagentPackage_eq {text : List Byte} {n : ℤ} {first second : Token}
    {others : List Token} {p : IoTPackage}
    (hpayload : Payload p.data text n (first :: second :: others))
    (hname : (tokenText text second).length < tempStrLen)
    (hlength : p.data.length = p.dataLength.toNat) (devices : Devices)
    (clientSocket : Slot → IoTSocket) (locals : ManagementLocals) :
    ∃ d, Shows d text (first :: second :: others) ∧ d.tokenSize = n ∧
      d.tokens = first :: second :: others ++
        locals.jsonData.data.tokens.drop (first :: second :: others).length ∧
      handleManagentPackage devices clientSocket locals p =
        if tokenText text second = ascii "IOTDEV" then
          addNewDevice devices p.sorIp.ip d p.belongSocketIdx locals.tempStr.bytes >>=
            fun devices => .ok (devices, [])
        else if tokenText text second = ascii "IOTCMD" then
          decodeIotCmd locals.jsonObj.data p.data generateIotCommand >>= fun cmd =>
            if cmd.cmdType ≠ .management then .ok (devices, [])
            else handleCommand devices clientSocket p cmd
        else .ok (devices, []) := by
  obtain ⟨d, hd, hn, htokens, hread⟩ := readPayload_eq hpayload hname hlength devices locals
  refine ⟨d, hd, hn, htokens, ?_⟩
  rw [handleManagentPackage_eq_readPayload, hread]
  split
  · simp only [bind_assoc]
    rfl
  · split
    · simp only [bind_assoc]
      rfl
    · rfl

end IoTRepublic.ManagementPayload
