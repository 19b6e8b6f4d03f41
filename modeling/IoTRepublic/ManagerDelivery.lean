import IoTRepublic.ManagerTraffic

/-!
From a registration to the packages for the device. A well-formed registration makes
the record of the device, with the address of its sender and the slot of its
connection. From then on, as long as nothing else is sent to the manager and the
connection stays, every package for the address that is handled goes to the
connection, byte by byte as it came.
-/
namespace IoTRepublic.ManagerDelivery

open CheckedArray Package Manager Registry Forwarding Management Runs Reassembly ManagerAnswers
  ManagerExchange ManagerTraffic JsonText Registration

/-- The record of the device is the one that is found by its address, and its connection holds the
slot. -/
structure Home (x : Exchange) (i : Slot) (socket : IoTSocket) (a : List Byte) : Prop where
  found : ∃ d, findDeviceWithIp x.registry.devices a = some d ∧ d.socketIndex = (i.val : ℤ)
  connected : x.clientSocket i = socket
  inUse : socket ≠ 0

/-- The connection in the slot stays, and no package is for the manager. -/
def Quiet (i : Slot) : Act → Prop
  | .accept _ => True
  | .close j => j ≠ i
  | .package _ _ m _ => m.desIp ≠ ServerIP

section

variable {x y z : Exchange} {i : Slot} {socket : IoTSocket} {a : List Byte} {later : List Act}

/-- A registration under an address that no other device has gives the device its home. -/
theorem home_storeDevice {d : IoTDeviceInfo} (hdistinct : DistinctIds x.registry.devices)
    (hroom : SlotTable.HasRoom IoTDeviceInfo.devID x.registry.devices d.devID)
    (halone : ∀ k e, x.registry.devices k = some e → e.ip.text = .ok a → e.devID = d.devID)
    (htext : d.ip.text = .ok a) (hslot : d.socketIndex = (i.val : ℤ))
    (hinUse : x.clientSocket i ≠ 0) (ipCount : ℤ) :
    Home { x with registry := ⟨storeDevice x.registry.devices d, ipCount⟩ } i (x.clientSocket i)
      a := by
  obtain ⟨k, hput⟩ := SlotTable.exists_put hroom
  rw [← storeDevice_eq_put] at hput
  have hstored : storeDevice x.registry.devices d k = some d := by
    rw [hput]
    exact Function.update_self ..
  have hdistinct' : DistinctIds (storeDevice x.registry.devices d) := hdistinct.storeDevice d
  refine ⟨⟨d, ?_, hslot⟩, rfl, hinUse⟩
  dsimp only
  rw [findDeviceWithIp_eq]
  refine SlotTable.find_of_unique hstored htext ?_
  intro j e he hea
  rcases storeDevice_eq_some hdistinct he with rfl | ⟨hold, hne⟩
  · exact hdistinct' j k e e he hstored rfl
  · exact absurd (halone j e hold hea) hne

theorem Home.step (h : Home x i socket a) {act : Act} (hstep : Exchange.Step x act y)
    (hquiet : Quiet i act) : Home y i socket a := by
  obtain ⟨hfound, hsocket, hinUse⟩ := h
  cases hstep with
  | @accept newSocket j hpos hfree =>
    have hij : i ≠ j := by
      rintro rfl
      exact hinUse (hsocket.symm.trans (freeSlot_eq_some hfree))
    refine ⟨hfound, ?_, hinUse⟩
    simp only [Function.update_of_ne hij]
    exact hsocket
  | forget => exact ⟨hfound, hsocket, hinUse⟩
  | close _ =>
    refine ⟨hfound, ?_, hinUse⟩
    simp only [Function.update_of_ne (Ne.symm hquiet)]
    exact hsocket
  | package _ hhandle =>
    obtain ⟨hobeys, -⟩ := handlePackage_cases hhandle
    refine ⟨?_, hsocket, hinUse⟩
    rcases hobeys with hsame | ⟨op, hasks, -⟩
    · rw [hsame]
      exact hfound
    · have hmaster : ∀ {j : Slot} {m : SentPackage}, Asks j m op → m.desIp = ServerIP := by
        intro j m hasks
        cases op with
        | addNewDevice iotip jsonData socketIndex tempStr => exact hasks.1
        | delDev iotip => exact hasks
        | prxAdd iotip => exact hasks
        | prxRmv iotip => exact hasks
      exact absurd (hmaster hasks) hquiet

theorem Home.run (h : Home x i socket a) (hrun : Run Exchange.Step x later z)
    (hquiet : ∀ act ∈ later, Quiet i act) : Home z i socket a := by
  induction hrun with
  | nil => exact h
  | snoc _ hlast ih =>
    have hbefore := ih fun act hact => hquiet act (List.mem_append_left _ hact)
    exact hbefore.step hlast (hquiet _ (List.mem_append_right _ List.mem_cons_self))

/-- A package for the address goes home. -/
theorem Home.answer (h : Home x i socket a) (hserver : a ≠ ServerIP) {j : Slot} {c : ℕ}
    {m : SentPackage} {sent : List Sent} (hstep : Exchange.Step x (.package j c m sent) y)
    (hdes : m.desIp = a) : sent = [⟨socket, m.bytes⟩] := by
  obtain ⟨d, hd, hslot⟩ := h.found
  cases hstep with
  | package _ hhandle =>
    obtain ⟨-, hanswer⟩ := handlePackage_cases hhandle
    cases hanswer with
    | nothing hmaster => exact absurd (hdes.symm.trans hmaster) hserver
    | list hmaster _ => exact absurd (hdes.symm.trans hmaster) hserver
    | notice _ hnone _ =>
      rw [hdes, hd] at hnone
      cases hnone
    | forward _ hfound hsocket =>
      rw [hdes, hd] at hfound
      obtain rfl := Option.some.inj hfound
      rw [hslot, socketAt_slot, h.connected] at hsocket
      rw [Except.ok.inj hsocket]

/-- It is handled if it fits the buffer of the manager and is no request for an address. -/
theorem Home.exists_step (h : Home x i socket a) (hserver : a ≠ ServerIP) {j : Slot} {c : ℕ}
    {m : SentPackage} (howner : x.owner j = some c) (hdes : m.desIp = a)
    (hrequest : ¬ (m.desIp = ascii "0" ∧ m.sorIp = ascii "0"))
    (hfits : m.bytes.length ≤ MAXPACKETSIZE) :
    Exchange.Step x (.package j c m [⟨socket, m.bytes⟩]) x := by
  obtain ⟨d, hd, hslot⟩ := h.found
  obtain ⟨-, hdestination⟩ := handedOn_texts m j
  have hwire : wireBytes (m.handedOn j) = m.bytes := m.bytes_eq.1.symm
  have hno : isIpRequest (m.handedOn j) = .ok false := by
    have hdecide := m.isCreated.isIpRequest_eq m.sor m.des
    rw [decide_eq_false hrequest] at hdecide
    exact hdecide
  obtain ⟨s, hencode, -⟩ := m.exists_encode UnreachableNotice.blankLocals.sendBuffer.bytes (by
    rw [UnreachableNotice.blankLocals.sendBuffer.size]
    exact hfits)
  have hpackage := ((encodePackage_eq_ok _ m.package s).mp hencode).1
  have hroom : Encodable UnreachableNotice.blankLocals.sendBuffer.bytes.length (m.handedOn j) :=
    { hpackage with }
  have hsend : sendPackage x.clientSocket UnreachableNotice.blankLocals.sendBuffer.bytes
      (m.handedOn j) d.socketIndex = .ok ⟨socket, m.bytes⟩ := by
    refine sendPackage_eq_ok.mpr ⟨hroom, ?_, hwire.symm⟩
    rw [hslot, socketAt_slot, h.connected]
  have hhandle : handlePackage x.clientSocket UnreachableNotice.blankLocals x.registry
      (m.handedOn j) = .ok (x.registry, [⟨socket, m.bytes⟩]) := by
    rw [handlePackage, hno, ok_bind]
    simp only [Bool.false_eq_true, ↓reduceIte, hdestination, ok_bind, hdes, hserver]
    rw [handleForwardingPackage, hdestination, ok_bind, hdes, hd]
    dsimp only
    rw [hsend, ok_bind]
  exact .package howner hhandle

end

/-- A well-formed registration is handled. -/
theorem exists_step_registers {x : Exchange} {i : Slot} {c : ℕ} {m : SentPackage}
    {doc : Document} {w : Value} {q : ℕ} {v : Node}
    (howner : x.owner i = some c) (h : Registers m doc w q v) :
    ∃ y, Exchange.Step x (.package i c m []) y := by
  obtain ⟨ip, -, hhandle⟩ := h.handlePackage_eq x.clientSocket UnreachableNotice.blankLocals
    x.registry i
  exact ⟨_, .package howner hhandle⟩

/-- It makes the record of the device, under an address that no other device has. -/
theorem home_of_registers {acts : List Act} {x y : Exchange}
    (hrun : Run Exchange.Step Exchange.init acts x) {i : Slot} {c : ℕ} {m : SentPackage}
    {doc : Document} {w : Value} {q : ℕ} {v : Node} {sent : List Sent} (h : Registers m doc w q v)
    (hroom : SlotTable.HasRoom IoTDeviceInfo.devID x.registry.devices v.text)
    (halone : ∀ k e, x.registry.devices k = some e → e.ip.text = .ok m.sorIp → e.devID = v.text)
    (hstep : Exchange.Step x (.package i c m sent) y) :
    sent = [] ∧ Home y i (x.clientSocket i) m.sorIp := by
  obtain ⟨ops, hops, -⟩ := exists_operations hrun
  have hdistinct := RegistryMap.distinctIds_run hops
  cases hstep with
  | @package _ _ _ locals registry sent howner hhandle =>
    obtain ⟨ip, hip, hstored⟩ := h.handlePackage_eq x.clientSocket locals x.registry i
    obtain ⟨rfl, rfl⟩ := Prod.mk.inj (Except.ok.inj (hhandle.symm.trans hstored))
    have htext : ip.text = .ok m.sorIp := CharArray.ofText_text hip m.sor.noNul
    exact ⟨rfl, home_storeDevice (d := recordOf ip (i.val : ℤ) doc w q v.text) hdistinct hroom
      halone htext rfl ((held_run hrun).inUse i c howner) x.registry.ipCount⟩

/-- In every state that the manager can be in: a well-formed registration, under an address that
no other device has and for which there is room, is handled and answered with nothing, whatever
the memory holds. After it, in every run in which the connection stays and the packages are for
devices, each package for the address that is handled goes to the connection of the device as it
came; and each such package that fits the buffer of the manager can be handled. -/
theorem registered_is_reached {acts : List Act} {x : Exchange}
    (hrun : Run Exchange.Step Exchange.init acts x) {i : Slot} {c : ℕ} {m : SentPackage}
    {doc : Document} {w : Value} {q : ℕ} {v : Node} (howner : x.owner i = some c)
    (h : Registers m doc w q v) (hserver : m.sorIp ≠ ServerIP)
    (hroom : SlotTable.HasRoom IoTDeviceInfo.devID x.registry.devices v.text)
    (halone : ∀ k e, x.registry.devices k = some e → e.ip.text = .ok m.sorIp →
      e.devID = v.text) :
    (∃ y, Exchange.Step x (.package i c m []) y) ∧
    ∀ sent y, Exchange.Step x (.package i c m sent) y → sent = [] ∧
      ∀ later z, Run Exchange.Step y later z → (∀ act ∈ later, Quiet i act) →
        (∀ j c' m' sent', Act.package j c' m' sent' ∈ later → m'.desIp = m.sorIp →
          sent' = [⟨x.clientSocket i, m'.bytes⟩]) ∧
        ∀ j c' m', z.owner j = some c' → m'.desIp = m.sorIp →
          ¬ (m'.desIp = ascii "0" ∧ m'.sorIp = ascii "0") → m'.bytes.length ≤ MAXPACKETSIZE →
            Exchange.Step z (.package j c' m' [⟨x.clientSocket i, m'.bytes⟩]) z := by
  refine ⟨exists_step_registers howner h, ?_⟩
  intro sent y hstep
  obtain ⟨hsent, hhome⟩ := home_of_registers hrun h hroom halone hstep
  refine ⟨hsent, ?_⟩
  intro later z hlater hquiet
  constructor
  · intro j c' m' sent' hact hdes
    obtain ⟨before, u, u', hbefore, hrunBefore, hstep⟩ := hlater.exists_step hact
    have hu := hhome.run hrunBefore fun act hact => hquiet act (hbefore.subset hact)
    exact hu.answer hserver hstep hdes
  · intro j c' m' hj hdes hrequest hfits
    exact (hhome.run hlater hquiet).exists_step hserver hj hdes hrequest hfits

/-- The first client registers, and what comes for it goes to its socket. -/
theorem registered_is_reached_first :
    ∃ (m : SentPackage) (y : Exchange), m.sorIp = ascii "DEV.1" ∧
      Run Exchange.Step Exchange.init [.accept 4, .package 0 0 m []] y ∧
      ∀ later z, Run Exchange.Step y later z → (∀ act ∈ later, Quiet 0 act) →
        ∀ j c' m' sent', Act.package j c' m' sent' ∈ later → m'.desIp = ascii "DEV.1" →
          sent' = [⟨4, m'.bytes⟩] := by
  obtain ⟨m, hsor, -, hregisters⟩ := exists_registers
  have hrun := Run.single firstClient_step
  obtain ⟨hexists, hreached⟩ := registered_is_reached hrun firstClient_owner hregisters
    (by rw [hsor]; decide) (.inr ⟨0, rfl⟩) (fun k e he => absurd he (Option.some_ne_none e).symm)
  obtain ⟨y, hy⟩ := hexists
  refine ⟨m, y, hsor, hrun.snoc hy, ?_⟩
  intro later z hlater hquiet j c' m' sent' hact hdes'
  have hsent := ((hreached [] y hy).2 later z hlater hquiet).1 j c' m' sent' hact
    (hdes'.trans hsor.symm)
  rw [hsent, firstClient_socket]

end IoTRepublic.ManagerDelivery
