import IoTRepublic.DiscoverReply
import IoTRepublic.Reassembly
import IoTRepublic.Registration

/-!
What the manager does with a package of a client. A package for another device
leaves as it came, or its sender is told that the device is unknown; a package to
the manager is one operation on the registry, or a list for the sender, or
nothing. No other package leaves, and no other record changes. A well-formed
registration is handled whatever the memory holds.
-/
namespace IoTRepublic.ManagerAnswers

open CheckedArray Package CreatedPackage JsFileParser Command Manager Registry Forwarding
  Management Reassembly Lookup JsonText JsonTable KeyPath Registration

/-- Bytes that are one package of the manager to this address. -/
def FromServer (destination bytes : List Byte) : Prop :=
  ∃ data q, Created generateIotPackage ServerIP destination data q ∧ bytes = wireBytes q

/-- The packages that leave for a package from the slot `i`. -/
inductive Answer (clientSocket : Slot → IoTSocket) (devices : Devices) (i : Slot)
    (m : SentPackage) : List Sent → Prop
  | nothing : m.desIp = ServerIP → Answer clientSocket devices i m []
  | list {bytes : List Byte} : m.desIp = ServerIP → FromServer m.sorIp bytes →
      Answer clientSocket devices i m [⟨clientSocket i, bytes⟩]
  | notice {bytes : List Byte} : m.desIp ≠ ServerIP →
      findDeviceWithIp devices m.desIp = none → FromServer m.sorIp bytes →
        Answer clientSocket devices i m [⟨clientSocket i, bytes⟩]
  | forward {d : IoTDeviceInfo} {socket : IoTSocket} : m.desIp ≠ ServerIP →
      findDeviceWithIp devices m.desIp = some d →
        socketAt clientSocket d.socketIndex = .ok socket →
          Answer clientSocket devices i m [⟨socket, m.bytes⟩]

/-- The operation on the registry that a package from the slot `i` asks for. -/
def Asks (i : Slot) (m : SentPackage) : RegistryMap.Operation → Prop
  | .addNewDevice iotip _ socketIndex _ =>
    m.desIp = ServerIP ∧ iotip.text = .ok m.sorIp ∧ socketIndex = (i.val : ℤ)
  | _ => m.desIp = ServerIP

/-- The registry stays, or is changed as the package asks. -/
def Obeys (i : Slot) (m : SentPackage) (devices after : Devices) : Prop :=
  after = devices ∨ ∃ op, Asks i m op ∧ RegistryMap.Step devices op after

/-- Of a block, as many bytes go into a package as it is told. -/
theorem createPackage_front {p q : IoTPackage} {sorIp desIp block : List Byte} {n : ℤ}
    (h : createPackage p sorIp desIp block n = .ok q) :
    ∃ data, data <+: block ∧ n = data.length ∧ Created p sorIp desIp data q := by
  have hblock : 0 ≤ n ∧ n.toNat ≤ block.length := by
    obtain ⟨ver, -, h⟩ := bind_eq_ok.mp h
    obtain ⟨sor, -, h⟩ := bind_eq_ok.mp h
    obtain ⟨des, -, h⟩ := bind_eq_ok.mp h
    obtain ⟨copied, hcopied, -⟩ := bind_eq_ok.mp h
    unfold readBlock at hcopied
    split at hcopied
    · assumption
    · cases hcopied
  have hn : n = (block.take n.toNat).length := by
    rw [List.length_take]
    omega
  refine ⟨block.take n.toNat, List.take_prefix .., hn, ?_⟩
  have htake := createPackage_take p sorIp desIp (block.drop n.toNat)
    (List.take_append_drop n.toNat block).symm
  rw [hn] at h
  exact createPackage_eq_ok.mp (htake.symm.trans h)

section

variable {clientSocket : Slot → IoTSocket} {devices after : Devices} {i : Slot} {m : SentPackage}

theorem handedOn_texts (m : SentPackage) (i : Slot) :
    (m.handedOn i).sorIp.ip.text = .ok m.sorIp ∧ (m.handedOn i).desIp.ip.text = .ok m.desIp :=
  m.isCreated.texts m.sor m.des

/-- A package that is made for the sender and sent over its slot. -/
theorem sent_fromServer {block sendBuffer : List Byte} {n : ℤ} {destination : List Byte}
    {q : IoTPackage} {sent : Sent}
    (hcreate : createPackage generateIotPackage ServerIP destination block n = .ok q)
    (hsend : sendPackage clientSocket sendBuffer q (m.handedOn i).belongSocketIdx = .ok sent) :
    FromServer destination sent.bytes ∧ sent.socket = clientSocket i := by
  obtain ⟨data, -, -, hq⟩ := createPackage_front hcreate
  obtain ⟨-, hsocket, hbytes⟩ := sendPackage_eq_ok.mp hsend
  rw [show (m.handedOn i).belongSocketIdx = (i.val : ℤ) from rfl, socketAt_slot] at hsocket
  exact ⟨⟨data, q, hq, hbytes⟩, (Except.ok.inj hsocket).symm⟩

/-- The three listing commands and the others answer in the same way. -/
theorem discoverPackageReplier_eq {p : IoTPackage} {cmd : IoTCommand} {ID source : List Byte}
    (hID : cmd.ID.text = .ok ID) (hsource : p.sorIp.ip.text = .ok source) :
    discoverPackageReplier devices clientSocket p cmd =
      DiscoverReply.answerList devices source ID >>= fun list =>
        createPackage generateIotPackage ServerIP source list.1 list.2 >>= fun newPackage =>
          sendPackage clientSocket (List.replicate maxDeviceListBuf 0) newPackage
            p.belongSocketIdx := by
  rw [discoverPackageReplier, hID, ok_bind, hsource, ok_bind]
  unfold DiscoverReply.answerList
  split_ifs <;> rfl

theorem discoverPackageReplier_sent {cmd : IoTCommand} {sent : Sent}
    (h : discoverPackageReplier devices clientSocket (m.handedOn i) cmd = .ok sent) :
    FromServer m.sorIp sent.bytes ∧ sent.socket = clientSocket i := by
  obtain ⟨ID, hID, -⟩ := bind_eq_ok.mp h
  rw [discoverPackageReplier_eq hID (handedOn_texts m i).1] at h
  obtain ⟨list, -, h⟩ := bind_eq_ok.mp h
  obtain ⟨q, hcreate, hsend⟩ := bind_eq_ok.mp h
  exact sent_fromServer hcreate hsend

/-- A command asks for a list or for one operation at most. -/
theorem handleCommand_cases {cmd : IoTCommand} {sent : List Sent} (hdes : m.desIp = ServerIP)
    (h : handleCommand devices clientSocket (m.handedOn i) cmd = .ok (after, sent)) :
    Obeys i m devices after ∧ Answer clientSocket devices i m sent := by
  unfold handleCommand at h
  split at h
  · obtain ⟨reply, hreply, h⟩ := bind_eq_ok.mp h
    obtain ⟨rfl, rfl⟩ := Prod.mk.inj (Except.ok.inj h)
    obtain ⟨hbytes, hsocket⟩ := discoverPackageReplier_sent hreply
    refine ⟨.inl rfl, ?_⟩
    obtain ⟨socket, bytes⟩ := reply
    obtain rfl : socket = clientSocket i := hsocket
    exact .list hdes hbytes
  · obtain ⟨ID, -, h⟩ := bind_eq_ok.mp h
    obtain ⟨Value, -, h⟩ := bind_eq_ok.mp h
    split at h
    · obtain ⟨rfl, rfl⟩ := Prod.mk.inj (Except.ok.inj h)
      exact ⟨.inr ⟨.delDev Value, hdes, rfl⟩, .nothing hdes⟩
    split at h
    · obtain ⟨rfl, rfl⟩ := Prod.mk.inj (Except.ok.inj h)
      exact ⟨.inr ⟨.prxAdd Value, hdes, rfl⟩, .nothing hdes⟩
    split at h
    · obtain ⟨rfl, rfl⟩ := Prod.mk.inj (Except.ok.inj h)
      exact ⟨.inr ⟨.prxRmv Value, hdes, rfl⟩, .nothing hdes⟩
    · obtain ⟨rfl, rfl⟩ := Prod.mk.inj (Except.ok.inj h)
      exact ⟨.inl rfl, .nothing hdes⟩

theorem handleManagentPackage_cases {locals : ManagementLocals} {sent : List Sent}
    (hdes : m.desIp = ServerIP)
    (h : handleManagentPackage devices clientSocket locals (m.handedOn i) = .ok (after, sent)) :
    Obeys i m devices after ∧ Answer clientSocket devices i m sent := by
  obtain ⟨content, -, h⟩ := bind_eq_ok.mp h
  obtain ⟨jsonData, -, h⟩ := bind_eq_ok.mp h
  obtain ⟨token, -, h⟩ := bind_eq_ok.mp h
  obtain ⟨strTemp, -, h⟩ := bind_eq_ok.mp h
  obtain ⟨text, -, h⟩ := bind_eq_ok.mp h
  split at h
  · obtain ⟨devices', hadd, h⟩ := bind_eq_ok.mp h
    obtain ⟨rfl, rfl⟩ := Prod.mk.inj (Except.ok.inj h)
    exact ⟨.inr ⟨.addNewDevice (m.handedOn i).sorIp.ip jsonData (i.val : ℤ) locals.tempStr.bytes,
      ⟨hdes, (handedOn_texts m i).1, rfl⟩, hadd⟩, .nothing hdes⟩
  split at h
  · obtain ⟨cmd, -, h⟩ := bind_eq_ok.mp h
    split at h
    · obtain ⟨rfl, rfl⟩ := Prod.mk.inj (Except.ok.inj h)
      exact ⟨.inl rfl, .nothing hdes⟩
    · exact handleCommand_cases hdes h
  · obtain ⟨rfl, rfl⟩ := Prod.mk.inj (Except.ok.inj h)
    exact ⟨.inl rfl, .nothing hdes⟩

/-- A package for another device leaves as it came, or its sender is told. -/
theorem handleForwardingPackage_cases {jsonObj : JsonData} {sendBuffer : List Byte} {sent : Sent}
    (hdes : m.desIp ≠ ServerIP)
    (h : handleForwardingPackage devices clientSocket jsonObj sendBuffer (m.handedOn i) =
      .ok sent) :
    Answer clientSocket devices i m [sent] := by
  obtain ⟨destination, hdestination, h⟩ := bind_eq_ok.mp h
  rw [(handedOn_texts m i).2] at hdestination
  obtain rfl := Except.ok.inj hdestination
  cases hfind : findDeviceWithIp devices m.desIp with
  | none =>
    rw [hfind] at h
    obtain ⟨notice, hnotice, hsend⟩ := bind_eq_ok.mp h
    obtain ⟨ID, -, hnotice⟩ := bind_eq_ok.mp hnotice
    obtain ⟨destination, -, hnotice⟩ := bind_eq_ok.mp hnotice
    obtain ⟨Value, -, hnotice⟩ := bind_eq_ok.mp hnotice
    obtain ⟨command, -, hnotice⟩ := bind_eq_ok.mp hnotice
    obtain ⟨source, hsource, hcreate⟩ := bind_eq_ok.mp hnotice
    rw [(handedOn_texts m i).1] at hsource
    obtain rfl := Except.ok.inj hsource
    obtain ⟨hbytes, hsocket⟩ := sent_fromServer hcreate hsend
    obtain ⟨socket, bytes⟩ := sent
    obtain rfl : socket = clientSocket i := hsocket
    exact .notice hdes hfind hbytes
  | some d =>
    rw [hfind] at h
    obtain ⟨-, hsocket, hbytes⟩ := sendPackage_eq_ok.mp h
    have hwire : wireBytes (m.handedOn i) = m.bytes := m.bytes_eq.1.symm
    obtain ⟨socket, bytes⟩ := sent
    obtain rfl : bytes = m.bytes := hbytes.trans hwire
    exact .forward hdes hfind hsocket

/-- All that handling a package can do. -/
theorem handlePackage_cases {locals : HandlerLocals} {s t : RegistryState} {sent : List Sent}
    (h : handlePackage clientSocket locals s (m.handedOn i) = .ok (t, sent)) :
    Obeys i m s.devices t.devices ∧ Answer clientSocket s.devices i m sent := by
  obtain ⟨request, -, h⟩ := bind_eq_ok.mp h
  cases request with
  | true =>
    obtain ⟨reply, hreply, -⟩ := bind_eq_ok.mp h
    exact absurd hreply (IpRequest.handleIpRequestPackage_outside _ _ _ _ _)
  | false =>
    simp only [Bool.false_eq_true, ↓reduceIte] at h
    obtain ⟨destination, hdestination, h⟩ := bind_eq_ok.mp h
    rw [(handedOn_texts m i).2] at hdestination
    obtain rfl := Except.ok.inj hdestination
    by_cases hdes : m.desIp = ServerIP
    · rw [if_pos hdes] at h
      obtain ⟨handled, hhandled, h⟩ := bind_eq_ok.mp h
      obtain ⟨devices, list⟩ := handled
      obtain ⟨rfl, rfl⟩ := Prod.mk.inj (Except.ok.inj h)
      exact handleManagentPackage_cases hdes hhandled
    · rw [if_neg hdes] at h
      obtain ⟨forwarded, hforwarded, h⟩ := bind_eq_ok.mp h
      obtain ⟨rfl, rfl⟩ := Prod.mk.inj (Except.ok.inj h)
      exact ⟨.inl rfl, handleForwardingPackage_cases hdes hforwarded⟩

end

/-- A package that registers a device with the ID `v`: its payload is a well-formed registration
whose words are followed by short texts. -/
structure Registers (m : SentPackage) (doc : Document) (w : Value) (q : ℕ) (v : Node) : Prop where
  destination : m.desIp = ServerIP
  ends : ∃ beyond, m.data = doc.text ++ 0 :: beyond
  room : m.data.length ≤ MAXCONTENTSIZE
  few : doc.nodes.length ≤ MAXTOKENSIZE
  payload : RegisterPayload doc w q
  id : valueBehind (ascii "DeviceID") doc w q = some v
  idShort : v.text.length < Management.tempBufferSize
  group : FitsBehind (ascii "FunctionGroup") doc w q

/-- The second node of an object is its first key. -/
theorem exists_second {v : Value} {key : List Byte} {pos : ℕ}
    (hmember : (v.member key pos).isSome) (hfirst : v.wordsBeforeMember key = []) :
    ∃ n others, v.nodes pos = v.root pos :: n :: others ∧ n.text = key := by
  cases v with
  | primitive text => cases hmember
  | string text => cases hmember
  | container keyed blank items =>
    cases keyed with
    | false => cases hmember
    | true =>
      cases items with
      | nil => cases hmember
      | cons lead label value trail rest =>
        cases label with
        | key text before behind =>
          have hkey : text.val = key := by
            by_contra hne
            have hwords : Json.wordsBeforeMember key (.container true blank
                (.cons lead (.key text before behind) value trail rest)) =
                text.val :: (value.words ++ rest.wordsBefore key) := if_neg hne
            rw [hwords] at hfirst
            cases hfirst
          exact ⟨_, _, rfl, hkey⟩

section

variable {m : SentPackage} {doc : Document} {w : Value} {q : ℕ} {v : Node}

theorem Registers.table_eq (h : Registers m doc w q v) :
    ∃ n others, n ∈ doc.nodes ∧ n.text = ascii "IOTDEV" ∧
      tableOf doc = tokenOf (doc.value.root doc.lead.val.length) :: tokenOf n :: others := by
  have hmember : (doc.value.member (ascii "IOTDEV") doc.lead.val.length).isSome := by
    rw [h.payload.member]
    rfl
  obtain ⟨n, others, hnodes, htext⟩ := exists_second hmember h.payload.first
  refine ⟨n, others.map tokenOf, ?_, htext, ?_⟩
  · rw [Document.nodes, hnodes]
    exact List.mem_cons_of_mem _ List.mem_cons_self
  · rw [tableOf, Document.nodes, hnodes, List.map_cons, List.map_cons]

/-- The manager stores the record, whatever the arrays of the call held before. -/
theorem Registers.handlePackage_eq (h : Registers m doc w q v) (clientSocket : Slot → IoTSocket)
    (locals : HandlerLocals) (s : RegistryState) (i : Slot) :
    ∃ ip, CharArray.ofText IP_ADDR_SIZE m.sorIp = .ok ip ∧
      handlePackage clientSocket locals s (m.handedOn i) =
        .ok (⟨storeDevice s.devices (recordOf ip (i.val : ℤ) doc w q v.text), s.ipCount⟩, []) := by
  obtain ⟨hsource, hdestination⟩ := handedOn_texts m i
  rw [h.destination] at hdestination
  obtain ⟨ip, hip⟩ := CharArray.exists_ofText IP_ADDR_SIZE m.sorIp (Nat.succ_le_succ m.sor.short)
  refine ⟨ip, hip, handlePackage_managent hdestination ?_⟩
  obtain ⟨n, others, hn, hname, htable⟩ := h.table_eq
  have hdata : (m.handedOn i).data = m.data := m.isCreated.data
  have hlength : (m.handedOn i).data.length = (m.handedOn i).dataLength.toNat := by
    rw [hdata, show (m.handedOn i).dataLength = (m.data.length : ℤ) from m.isCreated.dataLength,
      Int.toNat_natCast]
  have hpayload : ManagementPayload.Payload (m.handedOn i).data doc.text doc.nodes.length
      (tokenOf (doc.value.root doc.lead.val.length) :: tokenOf n :: others) := by
    rw [hdata]
    exact ⟨h.room, h.ends, doc.zero_notMem_text, htable ▸ jsmnParse_document doc h.few⟩
  have htext : tokenText doc.text (tokenOf n) = ascii "IOTDEV" := (tokenText_node hn).trans hname
  obtain ⟨d, hshows, hcount, -, hhandle⟩ := ManagementPayload.handleManagentPackage_eq hpayload
    (by rw [htext]; decide) hlength s.devices clientSocket locals.management
  have hloaded : Loaded d doc := ⟨htable ▸ hshows, hcount⟩
  have hrecord := h.payload.newDeviceInfo_eq hloaded hsource hip h.id h.idShort h.group
    locals.management.tempStr (i.val : ℤ)
  have hadd : addNewDevice s.devices (m.handedOn i).sorIp.ip d (m.handedOn i).belongSocketIdx
      locals.management.tempStr.bytes = _ := addNewDevice_eq hrecord
  rw [hhandle, if_pos htext, hadd, ok_bind]

end

/-- The registration of the device `A` in the group `B`. -/
theorem exists_registers :
    ∃ m : SentPackage, m.sorIp = ascii "DEV.1" ∧
      m.data = (registerDocument (bothItems 65 rfl)).text ++ [0] ∧
      Registers m (registerDocument (bothItems 65 rfl)) (.container true noBlank (bothItems 65 rfl))
        10 ⟨.string, 23, [65], 0⟩ := by
  have haddress : IsAddress (ascii "DEV.1") := ⟨by decide, by decide, by decide⟩
  obtain ⟨m, hsor, hdes, hdata⟩ := SentPackage.exists_of (ascii "DEV.1") ServerIP
    ((registerDocument (bothItems 65 rfl)).text ++ [0]) haddress DiscoverReply.isAddress_serverIP
    (by decide)
  refine ⟨m, hsor, hdata, hdes, ⟨[], hdata⟩, ?_, by decide, ⟨rfl, rfl, rfl⟩, by decide, by decide,
    .inr ⟨⟨.string, 43, [66], 0⟩, by decide, by decide⟩⟩
  rw [hdata]
  decide

end IoTRepublic.ManagerAnswers
