import IoTRepublic.DiscoverReply
import IoTRepublic.ManagementPayload
import IoTRepublic.RegistryMap

/-!
What the outcome of a package to the manager depends on. The payload is copied to
the front of an array that holds something else behind it, and its tokens to the
front of another, so a payload without a terminator, one with fewer than two
tokens, a key without a value and a lookup that finds nothing all read what an
earlier call left there. The outcome is that of the package alone exactly when
none of this is looked at.
-/
namespace IoTRepublic.PackageOnly

open CheckedArray Package PackageReader ReaderOutcome CreatedPackage Jsmn JsFileParser Command
  Manager Registry RegistryMap Forwarding Management DiscoverReply Lookup ManagementPayload

/-- A package to the manager as the receive loop hands it over. -/
structure Delivered (p : IoTPackage) : Prop where
  read : ∃ (buffer : List Byte) (bufferLength : ℤ) (r : Reading) (i : Slot), 0 ≤ bufferLength ∧
    bufferLength ≤ buffer.length ∧
    getCompletedPackage buffer bufferLength generateIotPackage = .ok r ∧ r.result = .completed ∧
    p = { r.packageInfo with belongSocketIdx := i.val }
  destination : p.desIp.ip.text = .ok ServerIP

/-- Whatever the automatic objects hold before it, the call ends with one registry and one
reply. -/
def DependsOnPackageOnly (devices : Devices) (clientSocket : Slot → IoTSocket) (p : IoTPackage) :
    Prop :=
  ∃ r, ∀ locals, handleManagentPackage devices clientSocket locals p = .ok r

/-- A registration names its device; the group may be missing. -/
structure Registers (text : List Byte) (first : Token) (tokens : List Token) : Prop where
  deviceID : ∃ v, lookupOf text (ascii "IOTDEV") (ascii "DeviceID") first tokens = .value v ∧
    (tokenText text v).length < Management.tempBufferSize
  functionGroup : (lookupOf text (ascii "IOTDEV") (ascii "FunctionGroup") first tokens).Fits text
    Management.tempBufferSize

/-- The string that is decoded for a key of the command. -/
def commandText (text : List Byte) (first : Token) (tokens : List Token) (key : List Byte) :
    List Byte :=
  (lookupOf text (ascii "IOTCMD") key first tokens).read text []

/-- The values of a command fit their arrays, and a discovery can be answered. -/
structure Commands (devices : Devices) (source text : List Byte) (first : Token)
    (tokens : List Token) : Prop where
  type : (lookupOf text (ascii "IOTCMD") (ascii "Type") first tokens).Fits text maxValueSize
  ID : (lookupOf text (ascii "IOTCMD") (ascii "ID") first tokens).Fits text COMMAND_CHAR_SIZE
  value : (lookupOf text (ascii "IOTCMD") (ascii "Value") first tokens).Fits text
    COMMAND_CHAR_SIZE
  answer : commandText text first tokens (ascii "Type") = ascii "Man" →
    ascii "Dis_" <+: commandText text first tokens (ascii "ID") →
      AnswerFits devices source (commandText text first tokens (ascii "ID"))

/-- The second token says what the payload is. A command whose name is its last token is
dropped. -/
structure SettledBy (devices : Devices) (p : IoTPackage) (source text : List Byte) (n : ℤ)
    (first second : Token) (others : List Token) : Prop where
  sender : p.sorIp.ip.text = .ok source
  payload : Payload p.data text n (first :: second :: others)
  name : (tokenText text second).length < tempStrLen
  registers : tokenText text second = ascii "IOTDEV" →
    Registers text first (searched n (first :: second :: others))
  commands : tokenText text second = ascii "IOTCMD" →
    hitOf text (ascii "IOTCMD") (rangeOf first) (searched n (first :: second :: others)) = .behind ∨
      Commands devices source text first (searched n (first :: second :: others))

def Settled (devices : Devices) (p : IoTPackage) : Prop :=
  ∃ source text n first second others, SettledBy devices p source text n first second others

section

variable {d : JsonData} {text : List Byte} {first second : Token} {others : List Token}

/-- The record of a registration under the ID. -/
def registered (text : List Byte) (first : Token) (tokens : List Token)
    (ip : CharArray IP_ADDR_SIZE) (socketIndex : ℤ) (devID : List Byte) : IoTDeviceInfo where
  ip := ip
  socketIndex := socketIndex
  devID := devID
  funGroup :=
    (lookupOf text (ascii "IOTDEV") (ascii "FunctionGroup") first tokens).read text devID
  devDesc := text
  proxied := 0

/-- The ID is what the scratch string holds after its lookup, and so is the group when it is
missing. -/
theorem newDeviceInfo_eq (hd : Shows d text (first :: others))
    (hID : (lookupOf text (ascii "IOTDEV") (ascii "DeviceID") first
      (searched d.tokenSize (first :: others))).Fits text Management.tempBufferSize)
    (hgroup : (lookupOf text (ascii "IOTDEV") (ascii "FunctionGroup") first
      (searched d.tokenSize (first :: others))).Fits text Management.tempBufferSize)
    {iotip ip : CharArray IP_ADDR_SIZE} {source devID : List Byte}
    (hsource : iotip.text = .ok source) (hip : CharArray.ofText IP_ADDR_SIZE source = .ok ip)
    (tempStr : CharArray Management.tempBufferSize)
    (hdevID : cString 0 ((lookupOf text (ascii "IOTDEV") (ascii "DeviceID") first
      (searched d.tokenSize (first :: others))).store text tempStr.bytes) = .ok devID)
    (socketIndex : ℤ) :
    newDeviceInfo iotip d socketIndex tempStr.bytes =
      .ok (registered text first (searched d.tokenSize (first :: others)) ip socketIndex
        devID) := by
  rw [← tempStr.size] at hID hgroup
  have hstored := Hit.store_length hID
  rw [← hstored] at hgroup
  have hdesc : cString 0 d.content = .ok text := by
    obtain ⟨beyond, hbeyond⟩ := hd.content
    rw [hbeyond]
    exact cString_append 0 text beyond hd.noNul
  rw [newDeviceInfo, hsource, ok_bind, hip, ok_bind, hd.getJsfileValue_eq hID, ok_bind, hdevID,
    ok_bind, hd.getJsfileValue_eq hgroup, ok_bind, Hit.cString_store hd.noNul hdevID, ok_bind,
    hdesc, ok_bind]
  rfl

end

section

variable {d : JsonData} {text key : List Byte} {first second : Token} {others : List Token}

/-- A value of the command that is found among the tokens, or not at all. -/
theorem commandValue_eq (hd : Shows d text (first :: others))
    (hfits : (lookupOf text (ascii "IOTCMD") key first
      (searched d.tokenSize (first :: others))).Fits text maxValueSize) :
    commandValue d key =
      .ok (commandText text first (searched d.tokenSize (first :: others)) key) := by
  have hroom : (lookupOf text (ascii "IOTCMD") key first
      (searched d.tokenSize (first :: others))).Fits text
        (List.replicate maxValueSize (0 : Byte)).length := by
    rw [List.length_replicate]
    exact hfits
  have hblank : cString 0 (List.replicate maxValueSize (0 : Byte)) = .ok [] := rfl
  rw [commandValue, hd.getJsfileValue_eq hroom, ok_bind]
  exact Hit.cString_store hd.noNul hblank

/-- No value is found in a command whose name is the last token, wherever it is looked for. -/
theorem commandValue_behind (hd : Shows d text (first :: second :: others))
    (hname : tokenText text second = ascii "IOTCMD") (hkey : key ≠ ascii "IOTCMD")
    (hhit : hitOf text (ascii "IOTCMD") (rangeOf first)
      (searched d.tokenSize (first :: second :: others)) = .behind) :
    commandValue d key = .ok [] := by
  have hblank : getJsfileValue [ascii "IOTCMD", key] d (List.replicate maxValueSize 0) =
      .ok (List.replicate maxValueSize 0) :=
    hd.getJsfileValue_behind (c := 73) (by decide) rfl hname hkey hhit
  rw [commandValue, hblank]
  rfl

end

/-- A beginning without a terminator of a string in a cleared array is one of the string. -/
theorem isPrefix_of_padded {front id : List Byte} {k : ℕ} (hnul : (0 : Byte) ∉ front)
    (h : front <+: id ++ List.replicate k 0) : front <+: id := by
  induction id generalizing front with
  | nil =>
    cases front with
    | nil => exact List.nil_prefix
    | cons c front =>
      have hc : c ∈ List.replicate k (0 : Byte) := h.subset List.mem_cons_self
      rw [List.eq_of_mem_replicate hc] at hnul
      exact absurd List.mem_cons_self hnul
  | cons b id ih =>
    cases front with
    | nil => exact List.nil_prefix
    | cons c front =>
      obtain ⟨rfl, hrest⟩ := List.cons_prefix_cons.mp h
      exact List.cons_prefix_cons.mpr
        ⟨rfl, ih (fun hmem => hnul (List.mem_cons_of_mem c hmem)) hrest⟩

section

variable {devices : Devices} {clientSocket : Slot → IoTSocket} {p : IoTPackage}

/-- A command of the type management ends unless it is a discovery that cannot be answered. -/
theorem exists_handleCommand_iff {source id value : List Byte}
    {ID Value : CharArray COMMAND_CHAR_SIZE} (hID : CharArray.ofText COMMAND_CHAR_SIZE id = .ok ID)
    (hValue : CharArray.ofText COMMAND_CHAR_SIZE value = .ok Value) (hid : (0 : Byte) ∉ id)
    (hvalue : (0 : Byte) ∉ value) (hsource : p.sorIp.ip.text = .ok source)
    (haddress : IsAddress source) {i : Slot} (hslot : p.belongSocketIdx = i.val) :
    (∃ r, handleCommand devices clientSocket p ⟨.management, ID, Value⟩ = .ok r) ↔
      (ascii "Dis_" <+: id → AnswerFits devices source id) := by
  have hIDText := CharArray.ofText_text hID hid
  have hValueText := CharArray.ofText_text hValue hvalue
  have hbegins : ID.bytes.take 4 = ascii "Dis_" ↔ ascii "Dis_" <+: id := by
    rw [(CharArray.ofText_eq_ok.mp hID).2]
    constructor
    · intro htake
      apply isPrefix_of_padded (by decide)
      rw [← htake]
      exact List.take_prefix 4 _
    · intro hfront
      exact (List.prefix_iff_eq_take.mp (hfront.trans (List.prefix_append id _))).symm
  by_cases hdiscover : ascii "Dis_" <+: id
  · have hreply : (∃ sent, discoverPackageReplier devices clientSocket p
        ⟨.management, ID, Value⟩ = .ok sent) ↔ AnswerFits devices source id :=
      exists_reply_iff hIDText hsource haddress hslot
    unfold handleCommand
    rw [if_pos (hbegins.mpr hdiscover)]
    constructor
    · intro h _
      obtain ⟨r, h⟩ := h
      obtain ⟨sent, hsent, -⟩ := bind_eq_ok.mp h
      exact hreply.mp ⟨sent, hsent⟩
    · intro h
      obtain ⟨sent, hsent⟩ := hreply.mpr (h hdiscover)
      exact ⟨(devices, [sent]), bind_eq_ok.mpr ⟨sent, hsent, rfl⟩⟩
  · refine iff_of_true ?_ (fun h => absurd h hdiscover)
    unfold handleCommand
    rw [if_neg (fun h => hdiscover (hbegins.mp h)), hIDText, ok_bind, hValueText, ok_bind]
    split_ifs <;> exact ⟨_, rfl⟩

end

theorem typeOfText_eq_management {text : List Byte} :
    typeOfText text .none = .management ↔ text = ascii "Man" := by
  unfold typeOfText
  split_ifs with hreq hres hwri hman
  · rw [hreq]
    decide
  · rw [hres]
    decide
  · rw [hwri]
    decide
  · simp [hman]
  · simp [hman]

section

variable {devices : Devices} {clientSocket : Slot → IoTSocket} {p : IoTPackage}
  {source text : List Byte} {n : ℤ} {first second : Token} {others : List Token}

/-- A command whose name is its last token is decoded to none. -/
theorem decodeIotCmd_behind (hpayload : Payload p.data text n (first :: second :: others))
    (hname : tokenText text second = ascii "IOTCMD")
    (hhit : hitOf text (ascii "IOTCMD") (rangeOf first)
      (searched n (first :: second :: others)) = .behind) (object : JsonObject) :
    decodeIotCmd object.data p.data generateIotCommand = .ok generateIotCommand := by
  obtain ⟨d, hd, rfl, -, hdecode⟩ := hpayload.decodeIotCmd_eq object
  have htype : commandValue d (ascii "Type") = .ok [] :=
    commandValue_behind hd hname (by decide) hhit
  have hid : commandValue d (ascii "ID") = .ok [] :=
    commandValue_behind hd hname (by decide) hhit
  have hvalue : commandValue d (ascii "Value") = .ok [] :=
    commandValue_behind hd hname (by decide) hhit
  rw [hdecode, htype, ok_bind, hid, ok_bind, hvalue]
  rfl

/-- A command whose values fit is decoded to the same command, whatever was in the object. -/
theorem decodeIotCmd_commands (hpayload : Payload p.data text n (first :: second :: others))
    (hcommands : Commands devices source text first (searched n (first :: second :: others)))
    {ID Value : CharArray COMMAND_CHAR_SIZE}
    (hID : CharArray.ofText COMMAND_CHAR_SIZE (commandText text first
      (searched n (first :: second :: others)) (ascii "ID")) = .ok ID)
    (hValue : CharArray.ofText COMMAND_CHAR_SIZE (commandText text first
      (searched n (first :: second :: others)) (ascii "Value")) = .ok Value)
    (object : JsonObject) :
    decodeIotCmd object.data p.data generateIotCommand =
      .ok ⟨typeOfText (commandText text first (searched n (first :: second :: others))
        (ascii "Type")) .none, ID, Value⟩ := by
  obtain ⟨d, hd, rfl, -, hdecode⟩ := hpayload.decodeIotCmd_eq object
  have htype := commandValue_eq hd hcommands.type
  have hid := commandValue_eq hd (hcommands.ID.mono (by decide))
  have hvalue := commandValue_eq hd (hcommands.value.mono (by decide))
  rw [hdecode, htype, ok_bind, hid, ok_bind, hID, ok_bind, hvalue, ok_bind, hValue, ok_bind]

/-- The condition is enough. -/
theorem SettledBy.dependsOnPackageOnly
    (hset : SettledBy devices p source text n first second others) (hp : Delivered p) :
    DependsOnPackageOnly devices clientSocket p := by
  obtain ⟨hlength, ⟨source', haddress, hsource'⟩, i, hslot⟩ := Received.fields (p := p) hp.read
  obtain ⟨hsource, hpayload, hname, hregisters, hcommands⟩ := hset
  rw [hsource] at hsource'
  obtain rfl := Except.ok.inj hsource'
  have hhandle : ∀ locals, _ :=
    handleManagentPackage_eq hpayload hname hlength devices clientSocket
  by_cases hdev : tokenText text second = ascii "IOTDEV"
  · obtain ⟨ip, hip⟩ := CharArray.exists_ofText IP_ADDR_SIZE source
      (Nat.succ_le_succ haddress.short)
    obtain ⟨⟨v, hlookup, hroom⟩, hgroup⟩ := hregisters hdev
    refine ⟨(storeDevice devices (registered text first (searched n (first :: second :: others)) ip
      p.belongSocketIdx (tokenText text v)), []), ?_⟩
    intro locals
    obtain ⟨d, hd, rfl, -, heq⟩ := hhandle locals
    have hID : (lookupOf text (ascii "IOTDEV") (ascii "DeviceID") first
        (searched d.tokenSize (first :: second :: others))).Fits text
          Management.tempBufferSize := by
      rw [hlookup]
      exact hroom
    have hdevID : cString 0 ((lookupOf text (ascii "IOTDEV") (ascii "DeviceID") first
        (searched d.tokenSize (first :: second :: others))).store text locals.tempStr.bytes) =
          .ok (tokenText text v) := by
      rw [hlookup]
      exact cString_append 0 _ _ (tokenText_noNul hd.noNul)
    rw [heq, if_pos hdev, addNewDevice,
      newDeviceInfo_eq hd hID hgroup hsource hip locals.tempStr hdevID]
    rfl
  by_cases hcmd : tokenText text second = ascii "IOTCMD"
  · have hdecode : ∃ cmd r, (∀ object : JsonObject,
        decodeIotCmd object.data p.data generateIotCommand = .ok cmd) ∧
        (if cmd.cmdType ≠ .management then .ok (devices, [])
          else handleCommand devices clientSocket p cmd) = .ok r := by
      rcases hcommands hcmd with hbehind | hfit
      · exact ⟨generateIotCommand, (devices, []), decodeIotCmd_behind hpayload hcmd hbehind, rfl⟩
      · have hidShort := (hfit.ID.read_lt_iff (by decide)).mp hfit.ID
        have hvalueShort := (hfit.value.read_lt_iff (by decide)).mp hfit.value
        obtain ⟨ID, hID⟩ := CharArray.exists_ofText COMMAND_CHAR_SIZE _ hidShort
        obtain ⟨Value, hValue⟩ := CharArray.exists_ofText COMMAND_CHAR_SIZE _ hvalueShort
        have hall := decodeIotCmd_commands hpayload hfit hID hValue
        by_cases hman : commandText text first (searched n (first :: second :: others))
            (ascii "Type") = ascii "Man"
        · obtain ⟨r, hr⟩ := (exists_handleCommand_iff hID hValue (Hit.read_noNul hpayload.noNul)
            (Hit.read_noNul hpayload.noNul) hsource haddress hslot).mpr (hfit.answer hman)
          refine ⟨_, r, hall, ?_⟩
          rw [typeOfText_eq_management.mpr hman, if_neg (by simp)]
          exact hr
        · refine ⟨_, (devices, []), hall, ?_⟩
          rw [if_pos (fun h => hman (typeOfText_eq_management.mp h))]
    obtain ⟨cmd, r, hdecode, hr⟩ := hdecode
    refine ⟨r, ?_⟩
    intro locals
    obtain ⟨d, -, -, -, heq⟩ := hhandle locals
    rw [heq, if_neg hdev, if_pos hcmd, hdecode, ok_bind]
    exact hr
  · refine ⟨(devices, []), ?_⟩
    intro locals
    obtain ⟨d, -, -, -, heq⟩ := hhandle locals
    rw [heq, if_neg hdev, if_neg hcmd]

end

/-- Contents of the automatic objects with which every look at them ends in a fault. -/
def farObject : JsonObject where
  data := ⟨List.replicate MAXTOKENSIZE farToken, List.replicate MAXCONTENTSIZE 1, 0, 0⟩
  contentRoom := List.length_replicate
  tokenRoom := List.length_replicate

def farLocals : ManagementLocals where
  jsonData := farObject
  jsonObj := farObject
  tempStr := ⟨List.replicate Management.tempBufferSize 1, List.length_replicate⟩

theorem ones_noNul {k : ℕ} : (0 : Byte) ∉ List.replicate k (1 : Byte) := by
  intro hmem
  exact absurd (List.eq_of_mem_replicate hmem) (by decide)

theorem cString_ones {k : ℕ} {text : List Byte} :
    cString 0 (List.replicate k (1 : Byte)) ≠ .ok text := by
  intro h
  obtain ⟨-, rest, hsplit⟩ := cString_eq_ok h
  apply ones_noNul (k := k)
  rw [hsplit]
  simp

theorem farIndex_of_eq {pattern : List Byte} (target : ℤ)
    (htarget : targetIndex pattern 0 = .ok target) (hfar : (MAXTOKENSIZE : ℤ) < target) :
    FarIndex pattern := by
  intro target' h
  rw [htarget] at h
  rw [← Except.ok.inj h]
  exact hfar

theorem farIndex_IOTDEV : FarIndex (ascii "IOTDEV") :=
  farIndex_of_eq 2848248 rfl (by decide)

theorem farIndex_DeviceID : FarIndex (ascii "DeviceID") :=
  farIndex_of_eq 260626570 rfl (by decide)

theorem farIndex_FunctionGroup : FarIndex (ascii "FunctionGroup") := by
  intro target h
  have hfault : targetIndex (ascii "FunctionGroup") 0 = .error .overflow := rfl
  rw [hfault] at h
  cases h

theorem farIndex_IOTCMD : FarIndex (ascii "IOTCMD") :=
  farIndex_of_eq 2848210 rfl (by decide)

theorem farIndex_Type : FarIndex (ascii "Type") := farIndex_of_eq 43993 rfl (by decide)

theorem farIndex_ID : FarIndex (ascii "ID") := farIndex_of_eq 270 rfl (by decide)

theorem farIndex_Value : FarIndex (ascii "Value") :=
  farIndex_of_eq 435743 rfl (by decide)

theorem farBehind_of_farObject {d : JsonData} {tokens : List Token}
    (h : d.tokens = tokens ++ farObject.data.tokens.drop tokens.length) : FarBehind d tokens := by
  refine ⟨MAXTOKENSIZE - tokens.length, ?_⟩
  rw [h]
  exact congrArg (tokens ++ ·) List.drop_replicate

section

variable {devices : Devices} {clientSocket : Slot → IoTSocket} {p : IoTPackage}
  {r : Devices × List Sent}

/-- A call that ended in spite of these contents had a payload with a terminator and a name
that fits. -/
theorem payload_of_far (hlength : p.data.length = p.dataLength.toNat)
    (h : handleManagentPackage devices clientSocket farLocals p = .ok r) :
    ∃ text n first second others, Payload p.data text n (first :: second :: others) ∧
      (tokenText text second).length < tempStrLen := by
  obtain ⟨content, hcopy, h⟩ := bind_eq_ok.mp h
  obtain ⟨d, hinit, h⟩ := bind_eq_ok.mp h
  obtain ⟨token, hread, h⟩ := bind_eq_ok.mp h
  obtain ⟨strTemp, hpattern, -⟩ := bind_eq_ok.mp h
  have hroom : p.data.length ≤ MAXCONTENTSIZE := by
    rcases Nat.eq_zero_or_pos p.dataLength.toNat with hzero | hpos
    · omega
    · have hbounds := copyLoop_bounds p.data p.dataLength.toNat 0 0 farObject.data.content content
        hcopy hpos
      have hcontent := farObject.contentRoom
      omega
  have hcontent : content = p.data ++ List.replicate (MAXCONTENTSIZE - p.data.length) 1 := by
    have hcopied : charcat farObject.data.content p.data 0 p.dataLength = .ok content := hcopy
    rw [charcat_payload hlength hroom farObject] at hcopied
    rw [← Except.ok.inj hcopied]
    exact congrArg (p.data ++ ·) List.drop_replicate
  obtain ⟨text, htext, hparse⟩ := bind_eq_ok.mp hinit
  obtain ⟨⟨n, tokens⟩, hparse, -⟩ := bind_eq_ok.mp hparse
  obtain ⟨hnul, rest, hsplit⟩ := cString_eq_ok htext
  have hends : ∃ beyond, p.data = text ++ 0 :: beyond := by
    rw [show content = text ++ 0 :: rest from hsplit] at hcontent
    rcases List.append_eq_append_iff.mp hcontent.symm with ⟨l, -, hl⟩ | ⟨l, hdata, hl⟩
    · apply absurd _ (ones_noNul (k := MAXCONTENTSIZE - p.data.length))
      rw [hl]
      simp
    · cases l with
      | nil =>
        apply absurd _ (ones_noNul (k := MAXCONTENTSIZE - p.data.length))
        rw [show List.replicate _ (1 : Byte) = 0 :: rest from hl.symm]
        simp
      | cons c l =>
        obtain ⟨rfl, -⟩ := List.cons.inj hl
        exact ⟨l, hdata⟩
  have hpayload : Payload p.data text n tokens := ⟨hroom, hends, hnul, hparse⟩
  obtain ⟨content', d', hcopy', hinit', hd, -, htokens⟩ := hpayload.loaded hlength farObject
  have hcopied : charcat farObject.data.content p.data 0 p.dataLength = .ok content := hcopy
  rw [hcopy'] at hcopied
  obtain rfl := Except.ok.inj hcopied
  have hinit'' : initToken { farObject.data with content := content' } = .ok d := hinit
  rw [hinit'] at hinit''
  obtain rfl := Except.ok.inj hinit''
  have hname : (token.stop - token.start).toNat < tempStrLen := by
    have hfits := getPatteren_room hpattern
    rw [List.length_replicate] at hfits
    exact hfits
  have htwo : ∃ first second others, tokens = first :: second :: others := by
    have hlong : 2 ≤ tokens.length := by
      by_contra hshort
      have hfar := (farBehind_of_farObject htokens).readAt_eq (i := 1) (by omega) hread
      rw [hfar] at hname
      exact absurd hname (by decide)
    match tokens, hlong with
    | first :: second :: others, _ => exact ⟨first, second, others, rfl⟩
  obtain ⟨first, second, others, rfl⟩ := htwo
  have hsecond : readAt d'.tokens 1 = .ok second := hd.readAt (i := 1) rfl
  rw [hsecond] at hread
  obtain rfl := Except.ok.inj hread
  refine ⟨text, n, first, second, others, hpayload, ?_⟩
  rw [tokenText_length (hd.inside (by simp))]
  exact hname

end

section

variable {d : JsonData} {text : List Byte} {first : Token} {others : List Token}

/-- A registration that ended found the name of the device, and what it found had room. -/
theorem registers_of_far (hd : Shows d text (first :: others))
    (hfar : FarBehind d (first :: others))
    {iotip : CharArray IP_ADDR_SIZE} {socketIndex : ℤ} {newDevice : IoTDeviceInfo}
    (h : newDeviceInfo iotip d socketIndex farLocals.tempStr.bytes = .ok newDevice) :
    Registers text first (searched d.tokenSize (first :: others)) := by
  obtain ⟨ipText, -, h⟩ := bind_eq_ok.mp h
  obtain ⟨ip, -, h⟩ := bind_eq_ok.mp h
  obtain ⟨afterID, hID, h⟩ := bind_eq_ok.mp h
  obtain ⟨devID, hIDText, h⟩ := bind_eq_ok.mp h
  obtain ⟨afterGroup, hgroup, -⟩ := bind_eq_ok.mp h
  have hsize : farLocals.tempStr.bytes.length = Management.tempBufferSize := farLocals.tempStr.size
  have hsmall : Management.tempBufferSize ≤ 1000000 := by decide
  rcases hd.getJsfileValue_far hfar farIndex_IOTDEV farIndex_DeviceID (by omega) hID with
    ⟨-, hkept⟩ | hfits
  · rw [hkept] at hIDText
    exact absurd hIDText cString_ones
  have hstored := Hit.store_length hfits
  rw [hd.getJsfileValue_eq hfits] at hID
  obtain rfl := Except.ok.inj hID
  have hvalue : ∃ v, lookupOf text (ascii "IOTDEV") (ascii "DeviceID") first
      (searched d.tokenSize (first :: others)) = .value v := by
    cases hlookup : lookupOf text (ascii "IOTDEV") (ascii "DeviceID") first
        (searched d.tokenSize (first :: others)) with
    | value v => exact ⟨v, rfl⟩
    | missing =>
      rw [hlookup] at hIDText
      exact absurd hIDText cString_ones
    | behind =>
      rw [hlookup] at hfits
      exact hfits.elim
    | array =>
      rw [hlookup] at hfits
      exact hfits.elim
  obtain ⟨v, hlookup⟩ := hvalue
  refine ⟨⟨v, hlookup, ?_⟩, ?_⟩
  · rw [hlookup, hsize] at hfits
    exact hfits
  · rcases hd.getJsfileValue_far hfar farIndex_IOTDEV farIndex_FunctionGroup (by omega) hgroup with
      ⟨hbehind, -⟩ | hgroupFits
    · rw [lookupOf, hbehind] at hlookup
      cases hlookup
    · rw [hstored, hsize] at hgroupFits
      exact hgroupFits

/-- A value of a command that was looked up was found among the tokens and had room. -/
theorem commandValue_far {key value : List Byte} (hd : Shows d text (first :: others))
    (hfar : FarBehind d (first :: others)) (hkey : FarIndex key)
    (hinside : hitOf text (ascii "IOTCMD") (rangeOf first)
      (searched d.tokenSize (first :: others)) ≠ .behind)
    (h : commandValue d key = .ok value) :
    (lookupOf text (ascii "IOTCMD") key first (searched d.tokenSize (first :: others))).Fits text
        maxValueSize ∧
      value = commandText text first (searched d.tokenSize (first :: others)) key := by
  have hsmall : (List.replicate maxValueSize (0 : Byte)).length ≤ 1000000 := by
    rw [List.length_replicate]
    decide
  have hlookup := h
  obtain ⟨tempValue, hvalue, -⟩ := bind_eq_ok.mp hlookup
  have hfits : (lookupOf text (ascii "IOTCMD") key first
      (searched d.tokenSize (first :: others))).Fits text maxValueSize := by
    rcases hd.getJsfileValue_far hfar farIndex_IOTCMD hkey hsmall hvalue with
      ⟨hbehind, -⟩ | hfits
    · exact absurd hbehind hinside
    · rw [List.length_replicate] at hfits
      exact hfits
  refine ⟨hfits, ?_⟩
  rw [commandValue_eq hd hfits] at h
  exact (Except.ok.inj h).symm

end

section

variable {devices : Devices} {clientSocket : Slot → IoTSocket} {p : IoTPackage}
  {source text : List Byte} {n : ℤ} {first : Token} {others : List Token}
  {r : Devices × List Sent}

/-- A command that ended has its name last, or its values fit and it can be answered. -/
theorem commands_of_far (hpayload : Payload p.data text n (first :: others))
    (hsource : p.sorIp.ip.text = .ok source) (haddress : IsAddress source) {i : Slot}
    (hslot : p.belongSocketIdx = i.val)
    (h : (decodeIotCmd farObject.data p.data generateIotCommand >>= fun cmd =>
      if cmd.cmdType ≠ .management then .ok (devices, [])
      else handleCommand devices clientSocket p cmd) = .ok r) :
    hitOf text (ascii "IOTCMD") (rangeOf first) (searched n (first :: others)) = .behind ∨
      Commands devices source text first (searched n (first :: others)) := by
  obtain ⟨d, hd, rfl, htokens, hdecode⟩ := hpayload.decodeIotCmd_eq farObject
  have hfar := farBehind_of_farObject htokens
  by_cases hinside : hitOf text (ascii "IOTCMD") (rangeOf first)
      (searched d.tokenSize (first :: others)) = .behind
  · exact .inl hinside
  right
  rw [hdecode] at h
  obtain ⟨cmd, hcmd, h⟩ := bind_eq_ok.mp h
  obtain ⟨type, htype, hcmd⟩ := bind_eq_ok.mp hcmd
  obtain ⟨idText, hid, hcmd⟩ := bind_eq_ok.mp hcmd
  obtain ⟨ID, hID, hcmd⟩ := bind_eq_ok.mp hcmd
  obtain ⟨valueText, hvalue, hcmd⟩ := bind_eq_ok.mp hcmd
  obtain ⟨Value, hValue, hcmd⟩ := bind_eq_ok.mp hcmd
  obtain rfl := Except.ok.inj hcmd
  obtain ⟨htypeFits, rfl⟩ := commandValue_far hd hfar farIndex_Type hinside htype
  obtain ⟨hidFits, rfl⟩ := commandValue_far hd hfar farIndex_ID hinside hid
  obtain ⟨hvalueFits, rfl⟩ := commandValue_far hd hfar farIndex_Value hinside hvalue
  have hidRoom := (CharArray.ofText_eq_ok.mp hID).1
  have hvalueRoom := (CharArray.ofText_eq_ok.mp hValue).1
  refine ⟨htypeFits, (hidFits.read_lt_iff (by decide)).mpr hidRoom,
    (hvalueFits.read_lt_iff (by decide)).mpr hvalueRoom, ?_⟩
  intro hman
  rw [typeOfText_eq_management.mpr hman, if_neg (by simp)] at h
  exact (exists_handleCommand_iff hID hValue (Hit.read_noNul hpayload.noNul)
    (Hit.read_noNul hpayload.noNul) hsource haddress hslot).mp ⟨r, h⟩

/-- The condition is needed. -/
theorem settled_of_far (hp : Delivered p)
    (h : handleManagentPackage devices clientSocket farLocals p = .ok r) : Settled devices p := by
  obtain ⟨hlength, ⟨source, haddress, hsource⟩, i, hslot⟩ := Received.fields (p := p) hp.read
  obtain ⟨text, n, first, second, others, hpayload, hname⟩ := payload_of_far hlength h
  obtain ⟨d, hd, rfl, htokens, heq⟩ :=
    handleManagentPackage_eq hpayload hname hlength devices clientSocket farLocals
  rw [heq] at h
  refine ⟨source, text, d.tokenSize, first, second, others, hsource, hpayload, hname, ?_, ?_⟩
  · intro hdev
    rw [if_pos hdev] at h
    obtain ⟨registry, hadd, -⟩ := bind_eq_ok.mp h
    obtain ⟨newDevice, hnew, -⟩ := bind_eq_ok.mp hadd
    exact registers_of_far hd (farBehind_of_farObject htokens) hnew
  · intro hcmd
    have hdev : tokenText text second ≠ ascii "IOTDEV" := by
      rw [hcmd]
      decide
    rw [if_neg hdev, if_pos hcmd] at h
    exact commands_of_far hpayload hsource haddress hslot h

end

/-- A package made by `create_package` for the manager can be delivered. -/
theorem delivered_of_created {sorIp data : List Byte} {q : IoTPackage}
    (hq : Created generateIotPackage sorIp ServerIP data q) (hsor : IsAddress sorIp)
    (hint : ((wireBytes q).length : ℤ) ≤ 2147483647) (i : Slot) :
    Delivered { q with belongSocketIdx := i.val } := by
  have hread := hq.completed hsor isAddress_serverIP generateIotPackage [] _ le_rfl (by simp) hint
  rw [List.append_nil] at hread
  refine ⟨⟨wireBytes q, _, _, i, by omega, le_rfl, hread, rfl, rfl⟩, ?_⟩
  exact (hq.texts hsor isAddress_serverIP).2

/-- A registration of the device `a`, without a group. -/
def registration : List Byte := ascii "\x7b\"IOTDEV\":\x7b\"DeviceID\":\"a\"\x7d\x7d"

/-- A registration without the ID of the device. -/
def namelessRegistration : List Byte := ascii "\x7b\"IOTDEV\":0\x7d"

theorem exists_delivered (text : List Byte) (hshort : text.length < 100) :
    ∃ p, Delivered p ∧ p.data = text ++ [0] ∧ p.sorIp.ip.text = .ok (ascii "A") ∧
      packageTotalLen p ≤ 201 := by
  have hlength : (text ++ [0]).length < 10 ^ 9 := by
    rw [List.length_append, List.length_singleton]
    omega
  obtain ⟨q, hq⟩ := exists_created generateIotPackage isAddress_A isAddress_serverIP hlength
  have htotal : (wireBytes q).length ≤ 201 := by
    have hheader := hq.header_length_le isAddress_A isAddress_serverIP
    rw [hq.wireBytes_length isAddress_A isAddress_serverIP, List.length_append,
      List.length_singleton]
    omega
  refine ⟨_, delivered_of_created hq isAddress_A (by omega) 0, hq.data,
    (hq.texts isAddress_A isAddress_serverIP).1, ?_⟩
  have hlen := hq.totalLen_eq isAddress_A isAddress_serverIP
  change packageTotalLen q ≤ 201
  omega

/-- The objects of a call whose scratch string holds one character. -/
def scratch (c : Byte) : ManagementLocals :=
  { farLocals with
    tempStr := ⟨c :: 0 :: List.replicate 198 1, by
      rw [List.length_cons, List.length_cons, List.length_replicate]⟩ }

/-- A registration without an ID takes the ID from the scratch string. -/
theorem handleManagentPackage_nameless {p : IoTPackage} (hp : Delivered p)
    (hdata : p.data = namelessRegistration ++ [0]) {c : Byte} (hc : c ≠ 0) :
    ∃ d : IoTDeviceInfo, handleManagentPackage noDevices (fun _ => 0) (scratch c) p =
      .ok (storeDevice noDevices d, []) ∧ d.devID = [c] := by
  obtain ⟨hlength, ⟨source, haddress, hsource⟩, -⟩ := Received.fields (p := p) hp.read
  have hparse : jsmnParse namelessRegistration MAXTOKENSIZE = .ok (3, [⟨.object, 0, 12, 1⟩,
      ⟨.string, 2, 8, 1⟩, ⟨.primitive, 10, 11, 0⟩]) := by
    decide
  have hpayload : Payload p.data namelessRegistration 3 [⟨.object, 0, 12, 1⟩,
      ⟨.string, 2, 8, 1⟩, ⟨.primitive, 10, 11, 0⟩] := by
    refine ⟨?_, ⟨[], hdata⟩, by decide, hparse⟩
    rw [hdata]
    decide
  obtain ⟨ip, hip⟩ := CharArray.exists_ofText IP_ADDR_SIZE source
    (Nat.succ_le_succ haddress.short)
  obtain ⟨d, hd, hn, -, heq⟩ :=
    handleManagentPackage_eq hpayload (by decide) hlength noDevices (fun _ => 0) (scratch c)
  have hmissing : ∀ key, key = ascii "DeviceID" ∨ key = ascii "FunctionGroup" →
      lookupOf namelessRegistration (ascii "IOTDEV") key ⟨.object, 0, 12, 1⟩
        (searched d.tokenSize [⟨.object, 0, 12, 1⟩, ⟨.string, 2, 8, 1⟩,
          ⟨.primitive, 10, 11, 0⟩]) = .missing := by
    intro key hkey
    rw [hn]
    rcases hkey with rfl | rfl
    · decide
    · decide
  have hID := hmissing _ (.inl rfl)
  have hgroup := hmissing _ (.inr rfl)
  have hscratch : cString 0 (scratch c).tempStr.bytes = .ok [c] := by
    have hnul : (0 : Byte) ∉ [c] := by
      rw [List.mem_singleton]
      exact Ne.symm hc
    exact cString_append 0 [c] (List.replicate 198 1) hnul
  have hnew := newDeviceInfo_eq hd (by rw [hID]; trivial) (by rw [hgroup]; trivial) hsource hip
    (scratch c).tempStr (by rw [hID]; exact hscratch) p.belongSocketIdx
  rw [if_pos (by decide), addNewDevice, hnew, ok_bind, ok_bind] at heq
  exact ⟨_, heq, rfl⟩

/-- The outcome is that of the package alone exactly when the condition holds. -/
theorem dependsOnPackageOnly_iff (devices : Devices) (clientSocket : Slot → IoTSocket)
    (p : IoTPackage) (hp : Delivered p) :
    DependsOnPackageOnly devices clientSocket p ↔ Settled devices p := by
  constructor
  · intro h
    obtain ⟨r, hr⟩ := h
    exact settled_of_far hp (hr farLocals)
  · intro h
    obtain ⟨source, text, n, first, second, others, hset⟩ := h
    exact hset.dependsOnPackageOnly hp

theorem dependsOnPackageOnly_registration :
    ∃ p, Delivered p ∧ p.data = registration ++ [0] ∧
      DependsOnPackageOnly noDevices (fun _ => 0) p := by
  obtain ⟨p, hp, hdata, hsource, -⟩ := exists_delivered registration (by decide)
  refine ⟨p, hp, hdata, (dependsOnPackageOnly_iff noDevices (fun _ => 0) p hp).mpr ?_⟩
  have hparse : jsmnParse registration MAXTOKENSIZE = .ok (5, [⟨.object, 0, 27, 1⟩,
      ⟨.string, 2, 8, 1⟩, ⟨.object, 10, 26, 1⟩, ⟨.string, 12, 20, 1⟩, ⟨.string, 23, 24, 0⟩]) := by
    decide
  refine ⟨ascii "A", registration, 5, _, _, _, hsource, ⟨?_, ⟨[], hdata⟩, by decide, hparse⟩,
    by decide, ?_, ?_⟩
  · rw [hdata]
    decide
  · intro _
    exact ⟨⟨⟨.string, 23, 24, 0⟩, by decide, by decide⟩, trivial⟩
  · intro hcmd
    exact absurd hcmd (by decide)

theorem nameless_depends :
    ¬ ∀ (devices : Devices) (clientSocket : Slot → IoTSocket) (p : IoTPackage), Delivered p →
      ∀ locals locals', handleManagentPackage devices clientSocket locals p =
        handleManagentPackage devices clientSocket locals' p := by
  intro hall
  obtain ⟨p, hp, hdata, -⟩ := exists_delivered namelessRegistration (by decide)
  obtain ⟨d, hrun, hd⟩ := handleManagentPackage_nameless hp hdata (c := 97) (by decide)
  obtain ⟨d', hrun', hd'⟩ := handleManagentPackage_nameless hp hdata (c := 98) (by decide)
  have hsame := hall noDevices (fun _ => 0) p hp (scratch 97) (scratch 98)
  rw [hrun, hrun'] at hsame
  have hstore := congrArg Prod.fst (Except.ok.inj hsame)
  have hdistinct : DistinctIds noDevices := SlotTable.keyed_empty
  have hfind := findDeviceWithId_storeDevice hdistinct (d := d) (.inr ⟨0, rfl⟩) [97]
  have hfind' := findDeviceWithId_storeDevice hdistinct (d := d') (.inr ⟨0, rfl⟩) [97]
  have hnone : findDeviceWithId noDevices [97] = none := by
    rw [findDeviceWithId_eq, SlotTable.find_eq_none_iff]
    intro i e he
    cases he
  dsimp only at hstore
  rw [if_pos hd.symm] at hfind
  rw [hd', if_neg (by decide), ← hstore, hfind, hnone] at hfind'
  cases hfind'

end IoTRepublic.PackageOnly
