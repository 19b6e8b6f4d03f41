import IoTRepublic.KeyPath
import IoTRepublic.LookupBounds
import IoTRepublic.PackageOnly

/-!
What the manager writes for a package to itself. The payload is copied over an array
of 1024 characters, the text of its second token over one of 50, and the values of
its keys over arrays of 200, 100 and 10; none of the copies looks at the length.
They stay inside exactly when the payload and what is found in it are short enough
and no key that is looked up is the last token.
-/
namespace IoTRepublic.ManagementBounds

open CheckedArray Package CreatedPackage Jsmn JsonText JsonTable JsFileParser Command Manager
  Registry Forwarding Management Lookup LookupBounds ManagementPayload PackageOnly

/-- A JSON text and its terminator. -/
def JsonPayload (p : IoTPackage) : Prop :=
  ∃ (document : Document) (beyond : List Byte), p.data = document.text ++ 0 :: beyond

/-- Whatever the registry and the automatic objects hold, nothing is written outside. -/
def StaysInside (p : IoTPackage) : Prop :=
  ∀ devices locals, WritesInside (readPayload devices locals p)

/-- The two values of a registration, which go through one array. -/
structure RegistrationRoom (text : List Byte) (count : ℕ) (first : Token) (tokens : List Token) :
    Prop where
  deviceID : Room text count Management.tempBufferSize
    (lookupOf text (ascii "IOTDEV") (ascii "DeviceID") first tokens)
  functionGroup : lookupOf text (ascii "IOTDEV") (ascii "DeviceID") first tokens ≠ .behind →
    Room text count Management.tempBufferSize
      (lookupOf text (ascii "IOTDEV") (ascii "FunctionGroup") first tokens)

/-- The three values of a command; the ID and the value are copied on. -/
structure CommandRoom (text : List Byte) (count : ℕ) (first : Token) (tokens : List Token) :
    Prop where
  type : Room text count maxValueSize
    (lookupOf text (ascii "IOTCMD") (ascii "Type") first tokens)
  ID : lookupOf text (ascii "IOTCMD") (ascii "Type") first tokens ≠ .behind →
    Room text count COMMAND_CHAR_SIZE (lookupOf text (ascii "IOTCMD") (ascii "ID") first tokens)
  value : lookupOf text (ascii "IOTCMD") (ascii "Type") first tokens ≠ .behind →
    lookupOf text (ascii "IOTCMD") (ascii "ID") first tokens ≠ .behind →
      Room text count COMMAND_CHAR_SIZE
        (lookupOf text (ascii "IOTCMD") (ascii "Value") first tokens)

/-- The payload and all that is found in it fit. Nothing is found in a payload whose name is its
last token. -/
structure FitsBy (p : IoTPackage) (text : List Byte) (n : ℤ) (first second : Token)
    (others : List Token) : Prop where
  payload : Payload p.data text n (first :: second :: others)
  name : (tokenText text second).length < tempStrLen
  registration : tokenText text second = ascii "IOTDEV" →
    hitOf text (ascii "IOTDEV") (rangeOf first) (searched n (first :: second :: others)) = .behind ∨
      RegistrationRoom text (first :: second :: others).length first
        (searched n (first :: second :: others))
  command : tokenText text second = ascii "IOTCMD" →
    hitOf text (ascii "IOTCMD") (rangeOf first) (searched n (first :: second :: others)) = .behind ∨
      CommandRoom text (first :: second :: others).length first
        (searched n (first :: second :: others))

def Fits (p : IoTPackage) : Prop :=
  ∃ text n first second others, FitsBy p text n first second others

section

variable {d : JsonData} {text : List Byte} {first second : Token} {others : List Token}

theorem RegistrationRoom.writesInside (hd : Shows d text (first :: others))
    (hroom : RegistrationRoom text (first :: others).length first
      (searched d.tokenSize (first :: others)))
    {iotip : CharArray IP_ADDR_SIZE} {source : List Byte} (hsource : iotip.text = .ok source)
    (haddress : IsAddress source) (socketIndex : ℤ)
    (tempStr : CharArray Management.tempBufferSize) :
    WritesInside (newDeviceInfo iotip d socketIndex tempStr.bytes) := by
  obtain ⟨ip, hip⟩ := CharArray.exists_ofText IP_ADDR_SIZE source (Nat.succ_le_succ haddress.short)
  have hsize := tempStr.size
  have hpos : 0 < tempStr.bytes.length := by
    rw [hsize]
    decide
  have hIDRoom := hroom.deviceID
  rw [← hsize] at hIDRoom
  have hID := getJsfileValue_room hd farIndex_IOTDEV farIndex_DeviceID hpos hIDRoom
  rw [newDeviceInfo, hsource, ok_bind, hip, ok_bind]
  refine hID.writesInside.bind fun afterID hafter => ?_
  refine (writesInside_cString 0 afterID).bind fun devID _ => ?_
  rw [hafter] at hID
  have hlength := hID.length hIDRoom hpos
  have hgroupRoom := hroom.functionGroup (ne_behind_of_ok hd hIDRoom hafter)
  rw [← hsize, ← hlength] at hgroupRoom
  have hgroup := getJsfileValue_room hd farIndex_IOTDEV farIndex_FunctionGroup (by omega) hgroupRoom
  refine hgroup.writesInside.bind fun afterGroup _ => ?_
  refine (writesInside_cString 0 afterGroup).bind fun funGroup _ => ?_
  exact (writesInside_cString 0 d.content).bind fun devDesc _ => writesInside_ok _

/-- A registration whose name is its last token looks nothing up. -/
theorem writesInside_behind (hd : Shows d text (first :: second :: others))
    (hname : tokenText text second = ascii "IOTDEV")
    (hhit : hitOf text (ascii "IOTDEV") (rangeOf first)
      (searched d.tokenSize (first :: second :: others)) = .behind)
    {iotip : CharArray IP_ADDR_SIZE} {source : List Byte} (hsource : iotip.text = .ok source)
    (haddress : IsAddress source) (socketIndex : ℤ)
    (tempStr : CharArray Management.tempBufferSize) :
    WritesInside (newDeviceInfo iotip d socketIndex tempStr.bytes) := by
  obtain ⟨ip, hip⟩ := CharArray.exists_ofText IP_ADDR_SIZE source (Nat.succ_le_succ haddress.short)
  have hID : getJsfileValue [ascii "IOTDEV", ascii "DeviceID"] d tempStr.bytes =
      .ok tempStr.bytes :=
    hd.getJsfileValue_behind (c := 73) (by decide) rfl hname (by decide) hhit
  have hgroup : getJsfileValue [ascii "IOTDEV", ascii "FunctionGroup"] d tempStr.bytes =
      .ok tempStr.bytes :=
    hd.getJsfileValue_behind (c := 73) (by decide) rfl hname (by decide) hhit
  rw [newDeviceInfo, hsource, ok_bind, hip, ok_bind, hID, ok_bind]
  refine (writesInside_cString 0 tempStr.bytes).bind fun devID _ => ?_
  rw [hgroup, ok_bind]
  refine (writesInside_cString 0 tempStr.bytes).bind fun funGroup _ => ?_
  exact (writesInside_cString 0 d.content).bind fun devDesc _ => writesInside_ok _

/-- A value of a command that has room is read, and what is read has room. -/
theorem writesInside_commandValue (hd : Shows d text (first :: others)) {key : List Byte}
    (hkey : FarIndex key) {room : ℕ} (hpos : 0 < room) (hle : room ≤ maxValueSize)
    (hroom : Room text (first :: others).length room
      (lookupOf text (ascii "IOTCMD") key first (searched d.tokenSize (first :: others)))) :
    WritesInside (commandValue d key) ∧ ∀ value, commandValue d key = .ok value →
      value.length < room ∧ lookupOf text (ascii "IOTCMD") key first
        (searched d.tokenSize (first :: others)) ≠ .behind := by
  have hlength : (List.replicate maxValueSize (0 : Byte)).length = maxValueSize :=
    List.length_replicate
  have hlong : Room text (first :: others).length (List.replicate maxValueSize (0 : Byte)).length
      (lookupOf text (ascii "IOTCMD") key first (searched d.tokenSize (first :: others))) := by
    rw [hlength]
    exact hroom.mono hle
  have hget := getJsfileValue_room hd farIndex_IOTCMD hkey (by decide) hlong
  constructor
  · refine hget.writesInside.bind fun tempValue _ => ?_
    exact writesInside_cString 0 tempValue
  · intro value hvalue
    obtain ⟨tempValue, htemp, hread⟩ := bind_eq_ok.mp hvalue
    rw [htemp] at hget
    exact ⟨EndsInside.read (k := 99) hd.noNul hroom hpos hget hread,
      ne_behind_of_ok hd hlong htemp⟩

end

section

variable {p : IoTPackage} {text : List Byte} {n : ℤ} {first second : Token} {others : List Token}

theorem CommandRoom.writesInside (hpayload : Payload p.data text n (first :: others))
    (hroom : CommandRoom text (first :: others).length first (searched n (first :: others)))
    (object : JsonObject) : WritesInside (decodeIotCmd object.data p.data generateIotCommand) := by
  obtain ⟨d, hd, rfl, -, hdecode⟩ := hpayload.decodeIotCmd_eq object
  have hofText : ∀ {value : List Byte}, value.length < COMMAND_CHAR_SIZE →
      WritesInside (CharArray.ofText COMMAND_CHAR_SIZE value) := by
    intro value hvalue
    obtain ⟨array, harray⟩ := CharArray.exists_ofText COMMAND_CHAR_SIZE value hvalue
    rw [harray]
    exact writesInside_ok array
  have hmax : COMMAND_CHAR_SIZE ≤ maxValueSize := by decide
  obtain ⟨htype, htypeRead⟩ :=
    writesInside_commandValue hd farIndex_Type (by decide) le_rfl hroom.type
  rw [hdecode]
  refine htype.bind fun type htypeValue => ?_
  have hbehind := (htypeRead type htypeValue).2
  obtain ⟨hid, hidRead⟩ :=
    writesInside_commandValue hd farIndex_ID (by decide) hmax (hroom.ID hbehind)
  refine hid.bind fun idText hidValue => ?_
  obtain ⟨hidShort, hidBehind⟩ := hidRead idText hidValue
  refine (hofText hidShort).bind fun ID _ => ?_
  obtain ⟨hvalue, hvalueRead⟩ :=
    writesInside_commandValue hd farIndex_Value (by decide) hmax (hroom.value hbehind hidBehind)
  refine hvalue.bind fun valueText hvalueValue => ?_
  exact (hofText (hvalueRead valueText hvalueValue).1).bind fun Value _ => writesInside_ok _

theorem FitsBy.staysInside (h : FitsBy p text n first second others) (hp : Delivered p) :
    StaysInside p := by
  obtain ⟨hlength, ⟨source, haddress, hsource⟩, -⟩ := Received.fields (p := p) hp.read
  intro devices locals
  obtain ⟨d, hd, rfl, -, heq⟩ := readPayload_eq h.payload h.name hlength devices locals
  rw [heq]
  split
  · rename_i hname
    have hnew : WritesInside (newDeviceInfo p.sorIp.ip d p.belongSocketIdx locals.tempStr.bytes) := by
      rcases h.registration hname with hbehind | hroom
      · exact writesInside_behind hd hname hbehind hsource haddress _ _
      · exact hroom.writesInside hd hsource haddress _ _
    exact (hnew.bind fun newDevice _ => writesInside_ok _).bind fun devices _ => writesInside_ok _
  split
  · rename_i hname
    have hdecode : WritesInside (decodeIotCmd locals.jsonObj.data p.data generateIotCommand) := by
      rcases h.command hname with hbehind | hroom
      · rw [decodeIotCmd_behind h.payload hname hbehind]
        exact writesInside_ok _
      · exact hroom.writesInside h.payload _
    exact hdecode.bind fun cmd _ => writesInside_ok _
  · exact writesInside_ok _

end

def overObject : JsonObject where
  data := ⟨List.replicate MAXTOKENSIZE overToken, List.replicate MAXCONTENTSIZE 1, 0, 0⟩
  contentRoom := farObject.contentRoom
  tokenRoom := List.length_replicate

/-- Objects with which every copy of something that stands behind the tokens is too long. -/
def overLocals : ManagementLocals where
  jsonData := overObject
  jsonObj := overObject
  tempStr := CharArray.zero Management.tempBufferSize

theorem readAt_over {d : JsonData} {tokens : List Token}
    (h : d.tokens = tokens ++ overObject.data.tokens.drop tokens.length) {i : ℕ}
    (hi : tokens.length ≤ i) (hroom : i < MAXTOKENSIZE) : readAt d.tokens i = .ok overToken := by
  have hdrop : overObject.data.tokens.drop tokens.length =
      List.replicate (MAXTOKENSIZE - tokens.length) overToken := List.drop_replicate
  apply readAt_natCast
  rw [h, hdrop, List.getElem?_append_right hi, List.getElem?_replicate, if_pos (by omega)]

section

variable {d : JsonData} {text : List Byte} {first : Token} {others : List Token}

theorem registrationRoom_of_writesInside (hd : Shows d text (first :: others))
    (hover : OverBehind d (first :: others))
    (houter : hitOf text (ascii "IOTDEV") (rangeOf first)
      (searched d.tokenSize (first :: others)) ≠ .behind)
    {iotip : CharArray IP_ADDR_SIZE} {source : List Byte} (hsource : iotip.text = .ok source)
    (haddress : IsAddress source) {socketIndex : ℤ}
    (h : WritesInside (newDeviceInfo iotip d socketIndex overLocals.tempStr.bytes)) :
    RegistrationRoom text (first :: others).length first
      (searched d.tokenSize (first :: others)) := by
  obtain ⟨ip, hip⟩ := CharArray.exists_ofText IP_ADDR_SIZE source (Nat.succ_le_succ haddress.short)
  have hsize : overLocals.tempStr.bytes.length = Management.tempBufferSize := overLocals.tempStr.size
  have hmax : Management.tempBufferSize = 200 := rfl
  rw [newDeviceInfo, hsource, ok_bind, hip, ok_bind] at h
  have hID : Room text (first :: others).length overLocals.tempStr.bytes.length
      (lookupOf text (ascii "IOTDEV") (ascii "DeviceID") first
        (searched d.tokenSize (first :: others))) := by
    by_contra hroom
    exact h.of_bind (getJsfileValue_overflow hd hover (by omega) houter hroom)
  refine ⟨by rwa [hsize] at hID, ?_⟩
  intro hbehind
  by_cases harray : lookupOf text (ascii "IOTDEV") (ascii "DeviceID") first
      (searched d.tokenSize (first :: others)) = .array
  · rcases searched_eq hd.tokenized with hnone | ⟨hall, -, -⟩
    · rw [hnone] at harray
      cases harray
    · rw [hall] at harray ⊢
      rw [lookupOf_array hd.tokenized.laid (by decide) harray]
      trivial
  have hfits := hID.fits hbehind harray
  have hstored := Hit.store_length hfits
  have hblank : cString 0 overLocals.tempStr.bytes = .ok [] := rfl
  have h := h.after (hd.getJsfileValue_eq hfits)
  have h := h.after (Hit.cString_store hd.noNul hblank)
  by_contra hroom
  rw [← hsize, ← hstored] at hroom
  exact h.of_bind (getJsfileValue_overflow hd hover (by omega) houter hroom)

/-- A value of a command that has no room in the command. -/
theorem commandValue_overflow (hd : Shows d text (first :: others))
    (hover : OverBehind d (first :: others)) {key : List Byte}
    (houter : hitOf text (ascii "IOTCMD") (rangeOf first)
      (searched d.tokenSize (first :: others)) ≠ .behind)
    (hroom : ¬ Room text (first :: others).length COMMAND_CHAR_SIZE
      (lookupOf text (ascii "IOTCMD") key first (searched d.tokenSize (first :: others)))) :
    (commandValue d key >>= CharArray.ofText COMMAND_CHAR_SIZE) = .error .writeOutside := by
  have hlength : (List.replicate maxValueSize (0 : Byte)).length = maxValueSize :=
    List.length_replicate
  have hmax : maxValueSize = 100 := rfl
  by_cases hlong : Room text (first :: others).length maxValueSize
      (lookupOf text (ascii "IOTCMD") key first (searched d.tokenSize (first :: others)))
  · -- found and too long for the array of the command
    cases hhit : lookupOf text (ascii "IOTCMD") key first
        (searched d.tokenSize (first :: others)) with
    | value v =>
      have hfits := hlong.fits (by simp [hhit]) (by simp [hhit])
      have hread := commandValue_eq hd hfits
      rw [hhit] at hroom
      have hshort : ¬ (tokenText text v).length + 1 ≤ COMMAND_CHAR_SIZE :=
        fun hle => hroom (Nat.lt_of_succ_le hle)
      rw [hread, ok_bind, commandText, hhit]
      exact dif_neg hshort
    | missing =>
      rw [hhit] at hroom
      exact absurd trivial hroom
    | behind =>
      rw [hhit] at hroom hlong
      exact absurd hlong hroom
    | array =>
      rw [hhit] at hroom
      exact absurd trivial hroom
  · rw [← hlength] at hlong
    have hget := getJsfileValue_overflow hd hover (by omega) houter hlong
    rw [commandValue, hget]
    rfl

theorem commandRoom_of_writesInside (hd : Shows d text (first :: others))
    (hover : OverBehind d (first :: others))
    (houter : hitOf text (ascii "IOTCMD") (rangeOf first)
      (searched d.tokenSize (first :: others)) ≠ .behind)
    (h : WritesInside (commandValue d (ascii "Type") >>= fun type =>
      (commandValue d (ascii "ID") >>= CharArray.ofText COMMAND_CHAR_SIZE) >>= fun ID =>
        (commandValue d (ascii "Value") >>= CharArray.ofText COMMAND_CHAR_SIZE) >>= fun Value =>
          .ok (⟨typeOfText type .none, ID, Value⟩ : IoTCommand))) :
    CommandRoom text (first :: others).length first (searched d.tokenSize (first :: others)) := by
  have hlength : (List.replicate maxValueSize (0 : Byte)).length = maxValueSize :=
    List.length_replicate
  have hmax : maxValueSize = 100 := rfl
  have htype : Room text (first :: others).length maxValueSize
      (lookupOf text (ascii "IOTCMD") (ascii "Type") first
        (searched d.tokenSize (first :: others))) := by
    by_contra hroom
    rw [← hlength] at hroom
    exact h.of_bind.of_bind (getJsfileValue_overflow hd hover (by omega) houter hroom)
  -- where one key is an index every key is one
  have harrays : ∀ {key other : List Byte}, other ≠ [] →
      lookupOf text (ascii "IOTCMD") key first (searched d.tokenSize (first :: others)) = .array →
      Room text (first :: others).length COMMAND_CHAR_SIZE
        (lookupOf text (ascii "IOTCMD") other first (searched d.tokenSize (first :: others))) := by
    intro key other hother harray
    rcases searched_eq hd.tokenized with hnone | ⟨hall, -, -⟩
    · rw [hnone] at harray
      cases harray
    · rw [hall] at harray ⊢
      rw [lookupOf_array hd.tokenized.laid hother harray]
      trivial
  by_cases htypeArray : lookupOf text (ascii "IOTCMD") (ascii "Type") first
      (searched d.tokenSize (first :: others)) = .array
  · exact ⟨htype, fun _ => harrays (by decide) htypeArray,
      fun _ _ => harrays (by decide) htypeArray⟩
  have hafterType : lookupOf text (ascii "IOTCMD") (ascii "Type") first
      (searched d.tokenSize (first :: others)) ≠ .behind → _ :=
    fun hbehind => h.after (commandValue_eq hd (htype.fits hbehind htypeArray))
  have hid : lookupOf text (ascii "IOTCMD") (ascii "Type") first
      (searched d.tokenSize (first :: others)) ≠ .behind →
      Room text (first :: others).length COMMAND_CHAR_SIZE
        (lookupOf text (ascii "IOTCMD") (ascii "ID") first
          (searched d.tokenSize (first :: others))) := by
    intro hbehind
    by_contra hroom
    exact (hafterType hbehind).of_bind (commandValue_overflow hd hover houter hroom)
  refine ⟨htype, hid, ?_⟩
  intro hbehind hidBehind
  by_cases hidArray : lookupOf text (ascii "IOTCMD") (ascii "ID") first
      (searched d.tokenSize (first :: others)) = .array
  · exact harrays (by decide) hidArray
  have hidFits := (hid hbehind).fits hidBehind hidArray
  have hidShort := (hidFits.read_lt_iff (by decide)).mp hidFits
  obtain ⟨ID, hID⟩ := CharArray.exists_ofText COMMAND_CHAR_SIZE _ hidShort
  have hidRead : (commandValue d (ascii "ID") >>= CharArray.ofText COMMAND_CHAR_SIZE) = .ok ID := by
    rw [commandValue_eq hd (hidFits.mono (by decide)), ok_bind]
    exact hID
  by_contra hroom
  exact ((hafterType hbehind).after hidRead).of_bind (commandValue_overflow hd hover houter hroom)

end

section

variable {p : IoTPackage}

theorem JsonPayload.payload (hjson : JsonPayload p) (hroom : p.data.length ≤ MAXCONTENTSIZE) :
    ∃ text n tokens, Payload p.data text n tokens := by
  obtain ⟨document, beyond, hdata⟩ := hjson
  obtain ⟨⟨n, tokens⟩, hparse⟩ := exists_jsmnParse document MAXTOKENSIZE
  exact ⟨document.text, n, tokens, hroom, ⟨beyond, hdata⟩, document.zero_notMem_text, hparse⟩

/-- A payload that is longer than the content is copied until this ends. -/
theorem room_of_staysInside (hlength : p.data.length = p.dataLength.toNat) (h : StaysInside p) :
    p.data.length ≤ MAXCONTENTSIZE := by
  by_contra hlong
  have hcontent := overObject.contentRoom
  have hcopy := copyLoop_overflow p.data p.dataLength.toNat 0 0 overObject.data.content
    (by omega) (Nat.zero_le _) (by omega)
  exact (h noDevices overLocals).of_bind hcopy

/-- The second token is one of the text, and its text has room. -/
theorem name_of_staysInside {text : List Byte} {n : ℤ} {tokens : List Token}
    (hlength : p.data.length = p.dataLength.toNat) (hpayload : Payload p.data text n tokens)
    (h : StaysInside p) :
    ∃ first second others, tokens = first :: second :: others ∧
      (tokenText text second).length < tempStrLen := by
  obtain ⟨content, d, hcopy, hinit, hd, -, htokens⟩ := hpayload.loaded hlength overObject
  have hrun := ((h noDevices overLocals).after hcopy).after hinit
  have hcontent := hd.contentRoom
  have hmax : MAXCONTENTSIZE = 1024 := rfl
  have hsmall : (List.replicate tempStrLen (0 : Byte)).length = tempStrLen := List.length_replicate
  have hlen : tempStrLen = 50 := rfl
  have htwo : 2 ≤ tokens.length := by
    by_contra hshort
    have hread : readAt d.tokens 1 = .ok overToken :=
      readAt_over htokens (i := 1) (by omega) (by decide)
    have hstop : overToken.stop = 1000 := rfl
    have hwidth : (overToken.stop - overToken.start).toNat = 1000 := rfl
    have hover : getPatteren ⟨overToken.start, overToken.stop⟩ d.content
        (List.replicate tempStrLen 0) = .error .writeOutside := by
      apply getPatteren_overflow (le_refl (0 : ℤ))
      · change overToken.stop ≤ _
        omega
      · change _ ≤ (overToken.stop - overToken.start).toNat
        omega
    exact (hrun.after hread).of_bind hover
  match tokens, htwo with
  | first :: second :: others, _ =>
    refine ⟨first, second, others, rfl, ?_⟩
    by_contra hlong
    have hread : readAt d.tokens 1 = .ok second := hd.readAt (i := 1) rfl
    have hinside := hd.inside (t := second) (by simp)
    have htext := hd.text_length_lt
    rw [tokenText_length hinside] at hlong
    have hover : getPatteren ⟨second.start, second.stop⟩ d.content
        (List.replicate tempStrLen 0) = .error .writeOutside := by
      have hstopLe := hinside.stop_le
      apply getPatteren_overflow hinside.start_nonneg
      · change second.stop ≤ _
        omega
      · change _ ≤ (second.stop - second.start).toNat
        omega
    exact (hrun.after hread).of_bind hover

theorem fits_of_staysInside (hp : Delivered p) (hjson : JsonPayload p) (h : StaysInside p) :
    Fits p := by
  obtain ⟨hlength, ⟨source, haddress, hsource⟩, -⟩ := Received.fields (p := p) hp.read
  obtain ⟨text, n, tokens, hpayload⟩ := hjson.payload (room_of_staysInside hlength h)
  obtain ⟨first, second, others, rfl, hname⟩ := name_of_staysInside hlength hpayload h
  obtain ⟨d, hd, rfl, htokens, heq⟩ :=
    readPayload_eq hpayload hname hlength noDevices overLocals
  have hrun := h noDevices overLocals
  rw [heq] at hrun
  refine ⟨text, d.tokenSize, first, second, others, hpayload, hname, ?_, ?_⟩
  · intro hdev
    rw [or_iff_not_imp_left]
    intro houter
    rw [if_pos hdev] at hrun
    exact registrationRoom_of_writesInside hd (fun hfew => readAt_over htokens le_rfl hfew) houter
      hsource haddress hrun.of_bind.of_bind
  · intro hcmd
    rw [or_iff_not_imp_left]
    intro houter
    have hdev : tokenText text second ≠ ascii "IOTDEV" := by
      rw [hcmd]
      decide
    obtain ⟨d', hd', hsize, htokens', hdecode⟩ := hpayload.decodeIotCmd_eq overObject
    rw [if_neg hdev, if_pos hcmd] at hrun
    have hcommand := hrun.of_bind
    rw [show decodeIotCmd overLocals.jsonObj.data p.data generateIotCommand = _ from hdecode]
      at hcommand
    rw [← hsize] at houter ⊢
    apply commandRoom_of_writesInside hd' (fun hfew => readAt_over htokens' le_rfl hfew) houter
    simp only [bind_assoc]
    exact hcommand

end

/-- A text of one object in another, under the key. -/
def nested (key : Quoted) (members : Json (.items true)) : Document :=
  ⟨noBlank, .container true noBlank (.cons noBlank (.key key noBlank noBlank)
    (.container true noBlank members) noBlank (.nil true)), noBlank⟩

/-- One member with a string. -/
def oneString (key value : Quoted) : Json (.items true) :=
  .cons noBlank (.key key noBlank noBlank) (.string value) noBlank (.nil true)

/-- A command with an ID of ten characters. -/
def longID : List Byte := ascii "\x7b\"IOTCMD\":\x7b\"ID\":\"0123456789\"\x7d\x7d"

theorem registration_json : registration =
    (nested ⟨ascii "IOTDEV", by decide⟩
      (oneString ⟨ascii "DeviceID", by decide⟩ ⟨ascii "a", by decide⟩)).text := by
  decide

theorem longID_json : longID =
    (nested ⟨ascii "IOTCMD", by decide⟩
      (oneString ⟨ascii "ID", by decide⟩ ⟨ascii "0123456789", by decide⟩)).text := by
  decide

/-- One payload is read in one way. -/
theorem Payload.unique {data text text' : List Byte} {n n' : ℤ} {tokens tokens' : List Token}
    (h : Payload data text n tokens) (h' : Payload data text' n' tokens') :
    text = text' ∧ n = n' ∧ tokens = tokens' := by
  obtain ⟨beyond, hdata⟩ := h.ends
  obtain ⟨beyond', hdata'⟩ := h'.ends
  have hread := cString_append 0 text beyond h.noNul
  rw [← hdata, hdata', cString_append 0 text' beyond' h'.noNul] at hread
  obtain rfl := Except.ok.inj hread
  have hparse := h.parsed
  rw [h'.parsed] at hparse
  obtain ⟨rfl, rfl⟩ := Prod.mk.inj (Except.ok.inj hparse)
  exact ⟨rfl, rfl, rfl⟩

/-- A JSON payload to the manager stays inside the arrays exactly when all that is copied of it
fits. -/
theorem staysInside_iff (p : IoTPackage) (hp : Delivered p) (hjson : JsonPayload p) :
    StaysInside p ↔ Fits p := by
  constructor
  · exact fits_of_staysInside hp hjson
  · intro h
    obtain ⟨text, n, first, second, others, hfits⟩ := h
    exact hfits.staysInside hp

/-- The registration of the device `a` stays inside. -/
theorem staysInside_registration :
    ∃ p, Delivered p ∧ JsonPayload p ∧ p.data = registration ++ [0] ∧ StaysInside p := by
  obtain ⟨p, hp, hdata, -, -⟩ := exists_delivered registration (by decide)
  have hjson : JsonPayload p := ⟨_, [], hdata.trans (by rw [registration_json])⟩
  refine ⟨p, hp, hjson, hdata, (staysInside_iff p hp hjson).mpr ?_⟩
  have hparse : jsmnParse registration MAXTOKENSIZE = .ok (5, [⟨.object, 0, 27, 1⟩,
      ⟨.string, 2, 8, 1⟩, ⟨.object, 10, 26, 1⟩, ⟨.string, 12, 20, 1⟩, ⟨.string, 23, 24, 0⟩]) := by
    decide
  refine ⟨registration, 5, _, _, _, ⟨?_, ⟨[], hdata⟩, by decide, hparse⟩, by decide, ?_, ?_⟩
  · rw [hdata]
    decide
  · intro _
    right
    constructor
    · have hfound : lookupOf registration (ascii "IOTDEV") (ascii "DeviceID") ⟨.object, 0, 27, 1⟩
          (searched 5 [⟨.object, 0, 27, 1⟩, ⟨.string, 2, 8, 1⟩, ⟨.object, 10, 26, 1⟩,
            ⟨.string, 12, 20, 1⟩, ⟨.string, 23, 24, 0⟩]) = .value ⟨.string, 23, 24, 0⟩ := by
        decide
      rw [hfound]
      change (tokenText registration ⟨.string, 23, 24, 0⟩).length < 200
      decide
    · intro _
      have hmissing : lookupOf registration (ascii "IOTDEV") (ascii "FunctionGroup")
          ⟨.object, 0, 27, 1⟩ (searched 5 [⟨.object, 0, 27, 1⟩, ⟨.string, 2, 8, 1⟩,
            ⟨.object, 10, 26, 1⟩, ⟨.string, 12, 20, 1⟩, ⟨.string, 23, 24, 0⟩]) = .missing := by
        decide
      rw [hmissing]
      trivial
  · intro hcmd
    exact absurd hcmd (by decide)

/-- An ID of ten characters is copied with its terminator over an array of ten. -/
theorem longID_leaves : ¬ ∀ p : IoTPackage, Delivered p → ReaderOutcome.packageTotalLen p ≤ MAXRECV →
    JsonPayload p → StaysInside p := by
  intro hall
  obtain ⟨p, hp, hdata, -, htotal⟩ := exists_delivered longID (by decide)
  have hjson : JsonPayload p := ⟨_, [], hdata.trans (by rw [longID_json])⟩
  have hmax : (MAXRECV : ℤ) = 2000 := rfl
  obtain ⟨text, n, first, second, others, hfits⟩ :=
    fits_of_staysInside hp hjson (hall p hp (by omega) hjson)
  have hparse : jsmnParse longID MAXTOKENSIZE = .ok (5, [⟨.object, 0, 30, 1⟩,
      ⟨.string, 2, 8, 1⟩, ⟨.object, 10, 29, 1⟩, ⟨.string, 12, 14, 1⟩, ⟨.string, 17, 27, 0⟩]) := by
    decide
  have hpayload : Payload p.data longID 5 _ :=
    ⟨hfits.payload.room, ⟨[], hdata⟩, by decide, hparse⟩
  obtain ⟨rfl, rfl, htokens⟩ := Payload.unique hfits.payload hpayload
  rw [List.cons.injEq, List.cons.injEq] at htokens
  obtain ⟨rfl, rfl, rfl⟩ := htokens
  have hfound : lookupOf longID (ascii "IOTCMD") (ascii "ID") ⟨.object, 0, 30, 1⟩
      (searched 5 [⟨.object, 0, 30, 1⟩, ⟨.string, 2, 8, 1⟩, ⟨.object, 10, 29, 1⟩,
        ⟨.string, 12, 14, 1⟩, ⟨.string, 17, 27, 0⟩]) = .value ⟨.string, 17, 27, 0⟩ := by
    decide
  rcases hfits.command (by decide) with hbehind | hroom
  · exact absurd hbehind (by decide)
  · have hID := hroom.ID (by decide)
    rw [hfound] at hID
    have hshort : (tokenText longID ⟨.string, 17, 27, 0⟩).length < 10 := hID
    exact absurd hshort (by decide)

end IoTRepublic.ManagementBounds
