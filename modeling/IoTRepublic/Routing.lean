import IoTRepublic.CommandCodec
import IoTRepublic.Forwarding
import IoTRepublic.Foundation.Runs

/-!
Which connection a package is forwarded to. The registry keeps the slot of the
client table over which a device registered; the table itself changes when
clients come and go. Beside both, a run counts the connections it accepted and
keeps, for each slot, the connection that holds it and, for each device ID, the
connection of its latest registration.
-/
namespace IoTRepublic.Routing

open CheckedArray Package CreatedPackage JsFileParser Manager Registry Forwarding Runs
  CommandCodec

/-- What `accept` returns for a connection. -/
abbrev OpenSocket := { socket : IoTSocket // socket ≠ 0 }

structure State where
  server : ServerState
  devices : Devices
  accepted : ℕ
  connection : Slot → Option ℕ
  latest : List Byte → Option ℕ

def initState : State where
  server := initServerInfo
  devices := noDevices
  accepted := 0
  connection := fun _ => none
  latest := fun _ => none

inductive Event
  | accept (newSocket : OpenSocket)
  | disconnect (i : Slot)
  | register (i : Slot) (iotip : CharArray IP_ADDR_SIZE) (jsonData : JsonData)
      (tempStr : List Byte)
  | deleteDevice (iotip : List Byte)
  | forward (i : Slot) (packageInfo : IoTPackage) (jsonObj : JsonData) (sendBuffer : List Byte)

/-- Nothing is read from a free slot. -/
def step (s : State) : Event → Exec State
  | .accept newSocket =>
    .ok { s with
      server := acceptClient s.server newSocket
      accepted := s.accepted + 1
      connection :=
        match freeSlot s.server.clientSocket with
        | none => s.connection
        | some i => Function.update s.connection i (some s.accepted) }
  | .disconnect i =>
    if s.server.clientSocket i = 0 then .ok s
    else
      .ok { s with
        server := closeClient s.server i
        connection := Function.update s.connection i none }
  | .register i iotip jsonData tempStr =>
    if s.server.clientSocket i = 0 then .ok s
    else do
      let newDevice ← newDeviceInfo iotip jsonData (i.val : ℤ) tempStr
      .ok { s with
        devices := storeDevice s.devices newDevice
        latest := Function.update s.latest newDevice.devID (s.connection i) }
  | .deleteDevice iotip => .ok { s with devices := Registry.deleteDevice s.devices iotip }
  | .forward i packageInfo jsonObj sendBuffer =>
    if s.server.clientSocket i = 0 then .ok s
    else do
      let _ ← handleForwardingPackage s.devices s.server.clientSocket jsonObj sendBuffer
        { packageInfo with belongSocketIdx := (i.val : ℤ) }
      .ok s

def Step (s : State) (e : Event) (t : State) : Prop := step s e = .ok t

/-- A client that goes leaves no device behind that is still registered over its slot. -/
def LeavesNoDevice (s : State) : Event → Prop
  | .disconnect i => ∀ k d, s.devices k = some d → d.socketIndex ≠ (i.val : ℤ)
  | _ => True

/-- A package for a registered device goes to the open connection of the device's latest
registration. -/
def RoutesHome (s : State) : Prop :=
  ∀ (packageInfo : IoTPackage) (destination : List Byte) (d : IoTDeviceInfo),
    packageInfo.desIp.ip.text = .ok destination → findDeviceWithIp s.devices destination = some d →
    ∀ (jsonObj : JsonData) (sendBuffer : List Byte) (sent : Sent),
      handleForwardingPackage s.devices s.server.clientSocket jsonObj sendBuffer packageInfo =
        .ok sent →
      ∃ (i : Slot) (c : ℕ), d.socketIndex = (i.val : ℤ) ∧ sent.socket = s.server.clientSocket i ∧
        sent.socket ≠ 0 ∧ s.connection i = some c ∧ s.latest d.devID = some c

/-- Every record belongs to the connection that still holds its slot. -/
structure Inv (s : State) : Prop where
  held : ∀ i, s.server.clientSocket i ≠ 0 ↔ ∃ c, s.connection i = some c
  distinct : DistinctIds s.devices
  home : ∀ k d, s.devices k = some d → ∃ (i : Slot) (c : ℕ), d.socketIndex = (i.val : ℤ) ∧
    s.connection i = some c ∧ s.latest d.devID = some c

theorem inv_init : Inv initState where
  held i := by simp [initState, initServerInfo]
  distinct := by
    intro i j d d' hd
    exact absurd hd (Option.some_ne_none d).symm
  home k d hd := absurd hd (Option.some_ne_none d).symm

section

variable {s t : State}

/-- A connection takes a slot that no record belongs to. -/
theorem Inv.accept (hs : Inv s) (newSocket : OpenSocket) (h : Step s (.accept newSocket) t) :
    Inv t := by
  obtain rfl := Except.ok.inj h
  cases hfree : freeSlot s.server.clientSocket with
  | none =>
    simp only [acceptClient, hfree]
    exact ⟨hs.held, hs.distinct, hs.home⟩
  | some i =>
    have hzero := freeSlot_eq_some hfree
    simp only [acceptClient, hfree]
    refine ⟨?_, hs.distinct, ?_⟩
    · intro j
      by_cases hji : j = i
      · simp [hji, newSocket.property]
      · simpa only [Function.update_of_ne hji] using hs.held j
    · intro k d hd
      rcases hs.home k d hd with ⟨j, c, hslot, hconnection, hlatest⟩
      have hji : j ≠ i := by
        rintro rfl
        exact (hs.held j).mpr ⟨c, hconnection⟩ hzero
      exact ⟨j, c, hslot, by simpa only [Function.update_of_ne hji] using hconnection, hlatest⟩

/-- A connection that leaves no device behind may go. -/
theorem Inv.disconnect (hs : Inv s) {i : Slot} (h : Step s (.disconnect i) t)
    (hleaves : LeavesNoDevice s (.disconnect i)) : Inv t := by
  rw [Step, step] at h
  by_cases hsocket : s.server.clientSocket i = 0
  · rw [if_pos hsocket] at h
    exact Except.ok.inj h ▸ hs
  rw [if_neg hsocket] at h
  obtain rfl := Except.ok.inj h
  refine ⟨?_, hs.distinct, ?_⟩
  · intro j
    by_cases hji : j = i
    · simp [closeClient, hji]
    · simpa only [closeClient, Function.update_of_ne hji] using hs.held j
  · intro k d hd
    rcases hs.home k d hd with ⟨j, c, hslot, hconnection, hlatest⟩
    have hji : j ≠ i := by
      rintro rfl
      exact hleaves k d hd hslot
    exact ⟨j, c, hslot, by simpa only [Function.update_of_ne hji] using hconnection, hlatest⟩

/-- The new record belongs to the connection it came over; the old record of the same ID is
gone. -/
theorem Inv.register (hs : Inv s) {i : Slot} {iotip : CharArray IP_ADDR_SIZE}
    {jsonData : JsonData} {tempStr : List Byte}
    (h : Step s (.register i iotip jsonData tempStr) t) : Inv t := by
  rw [Step, step] at h
  by_cases hsocket : s.server.clientSocket i = 0
  · rw [if_pos hsocket] at h
    exact Except.ok.inj h ▸ hs
  rw [if_neg hsocket] at h
  rcases bind_eq_ok.mp h with ⟨newDevice, hnew, h⟩
  obtain rfl := Except.ok.inj h
  rcases (hs.held i).mp hsocket with ⟨c, hc⟩
  have hdistinct : DistinctIds (storeDevice s.devices newDevice) :=
    DistinctIds.storeDevice hs.distinct newDevice
  refine ⟨hs.held, by dsimp only; exact hdistinct, ?_⟩
  intro k d hd
  dsimp only at hd
  rcases storeDevice_eq_some hs.distinct hd with rfl | ⟨hold, hne⟩
  · exact ⟨i, c, newDeviceInfo_socketIndex hnew, hc, by simpa using hc⟩
  · rcases hs.home k d hold with ⟨j, c', hslot, hconnection, hlatest⟩
    exact ⟨j, c', hslot, hconnection, by simpa only [Function.update_of_ne hne] using hlatest⟩

theorem Inv.deleteDevice (hs : Inv s) {iotip : List Byte} (h : Step s (.deleteDevice iotip) t) :
    Inv t := by
  obtain rfl := Except.ok.inj h
  have hkeep : ∀ k d, Registry.deleteDevice s.devices iotip k = some d → s.devices k = some d :=
    fun k d => deleteDevice_eq_some
  refine ⟨hs.held, ?_, ?_⟩
  · intro i j d d' hd hd'
    dsimp only at hd hd'
    exact hs.distinct i j d d' (hkeep i d hd) (hkeep j d' hd')
  · intro k d hd
    dsimp only at hd
    exact hs.home k d (hkeep k d hd)

theorem Inv.forward (hs : Inv s) {i : Slot} {packageInfo : IoTPackage} {jsonObj : JsonData}
    {sendBuffer : List Byte} (h : Step s (.forward i packageInfo jsonObj sendBuffer) t) :
    Inv t := by
  rw [Step, step] at h
  by_cases hsocket : s.server.clientSocket i = 0
  · rw [if_pos hsocket] at h
    exact Except.ok.inj h ▸ hs
  · rw [if_neg hsocket] at h
    rcases bind_eq_ok.mp h with ⟨_, -, h⟩
    exact Except.ok.inj h ▸ hs

theorem Inv.step (hs : Inv s) {e : Event} (h : Meeting Step LeavesNoDevice s e t) : Inv t := by
  rcases h with ⟨hstep, hleaves⟩
  cases e with
  | accept newSocket => exact hs.accept newSocket hstep
  | disconnect i => exact hs.disconnect hstep hleaves
  | register i iotip jsonData tempStr => exact hs.register hstep
  | deleteDevice iotip => exact hs.deleteDevice hstep
  | forward i packageInfo jsonObj sendBuffer => exact hs.forward hstep

theorem Inv.routesHome (hs : Inv s) : RoutesHome s := by
  intro packageInfo destination d hdes hfound jsonObj sendBuffer sent hsent
  rcases findDeviceWithIp_eq_some hfound with ⟨k, hd, -⟩
  rcases hs.home k d hd with ⟨i, c, hslot, hconnection, hlatest⟩
  rw [handleForwardingPackage, hdes, ok_bind, hfound] at hsent
  have hsocket := (sendPackage_eq_ok.mp hsent).2.1
  rw [hslot, socketAt_slot] at hsocket
  have hsame : s.server.clientSocket i = sent.socket := Except.ok.inj hsocket
  refine ⟨i, c, hslot, hsame.symm, ?_, hconnection, hlatest⟩
  rw [← hsame]
  exact (hs.held i).mpr ⟨c, hconnection⟩

end

/-- In a run in which no client goes while a device is registered over its slot, every
package for a registered device goes to the connection of its latest registration. -/
theorem routes_home {es : List Event} {s : State}
    (hrun : Run (Meeting Step LeavesNoDevice) initState es s) : RoutesHome s :=
  (hrun.invariant Inv (fun _ _ _ hs => hs.step) inv_init).routesHome

/-- The text and the tokens of a register package for device `b` of group `f`. -/
def registerJson : JsonData where
  content := ascii "\x7b\"IOTDEV\":\x7b\"DeviceID\":\"b\",\"FunctionGroup\":\"f\"\x7d\x7d" ++
    List.replicate 977 0
  tokens := [⟨.object, 0, 47, 1⟩, ⟨.string, 2, 8, 1⟩, ⟨.object, 10, 46, 2⟩, ⟨.string, 12, 20, 1⟩,
    ⟨.string, 23, 24, 0⟩, ⟨.string, 27, 40, 1⟩, ⟨.string, 43, 44, 0⟩]
  tokenSize := 7
  contentSize := 47

def registeredB : IoTDeviceInfo :=
  { deviceB with
    funGroup := ascii "f"
    devID := ascii "b"
    devDesc := registerJson.content.take 47 }

theorem newDeviceInfo_registerJson :
    newDeviceInfo deviceB.ip registerJson ((0 : Slot).val : ℤ) (List.replicate 200 0) =
      .ok registeredB := by
  decide +kernel

theorem storeDevice_noDevices (d : IoTDeviceInfo) :
    storeDevice noDevices d = Function.update noDevices 0 (some d) := by
  have hid : findDeviceIndexWithId noDevices d.devID = none := by
    apply Fin.find?_eq_none_iff.mpr
    intro i
    rfl
  have hempty : emptyIndex noDevices = some 0 := by
    apply Fin.find?_eq_some_iff.mpr
    refine ⟨rfl, ?_⟩
    intro j hj
    exact absurd hj (Fin.not_lt_zero j)
  unfold storeDevice
  rw [hid]
  dsimp only
  rw [hempty]

theorem acceptClient_init (newSocket : IoTSocket) : acceptClient initServerInfo newSocket =
    { clientSocket := Function.update (fun _ => 0) 0 newSocket
      packageBuffer := Function.update (fun _ => none) 0 (some generatePackageBuffer) } := by
  have hfree : freeSlot initServerInfo.clientSocket = some 0 := by decide
  rw [acceptClient, hfree]
  rfl

theorem update_const {α : Type} (i : Slot) (a : α) :
    Function.update (fun _ => a) i a = fun _ => a :=
  Function.update_eq_self i (fun _ => a)

theorem closeClient_acceptClient (newSocket : IoTSocket) :
    closeClient (acceptClient initServerInfo newSocket) 0 = initServerInfo := by
  rw [acceptClient_init, closeClient, initServerInfo]
  simp only [Function.update_idem, update_const]

/-- The only client is connection `c`, and device `b` has registered over connection `c'`. -/
def oneClient (newSocket : OpenSocket) (c : ℕ) (devices : Devices)
    (latest : List Byte → Option ℕ) : State where
  server := acceptClient initServerInfo newSocket
  devices := devices
  accepted := c + 1
  connection := Function.update (fun _ => none) 0 (some c)
  latest := latest

theorem step_accept_first (newSocket : OpenSocket) (c : ℕ) (devices : Devices)
    (latest : List Byte → Option ℕ) :
    Step ⟨initServerInfo, devices, c, fun _ => none, latest⟩ (.accept newSocket)
      (oneClient newSocket c devices latest) := by
  have hfree : freeSlot initServerInfo.clientSocket = some 0 := by decide
  rw [Step, step]
  simp only [hfree]
  rfl

theorem step_disconnect_only (newSocket : OpenSocket) (c : ℕ) (devices : Devices)
    (latest : List Byte → Option ℕ) :
    Step (oneClient newSocket c devices latest) (.disconnect 0)
      ⟨initServerInfo, devices, c + 1, fun _ => none, latest⟩ := by
  have hsocket : (oneClient newSocket c devices latest).server.clientSocket 0 ≠ 0 := by
    simp only [oneClient, acceptClient_init, Function.update_self]
    exact newSocket.property
  rw [Step, step, if_neg hsocket]
  simp only [oneClient, closeClient_acceptClient, Function.update_idem, update_const]

theorem step_register_only (newSocket : OpenSocket) (c : ℕ) (latest : List Byte → Option ℕ) :
    Step (oneClient newSocket c noDevices latest)
      (.register 0 deviceB.ip registerJson (List.replicate 200 0))
      (oneClient newSocket c (Function.update noDevices 0 (some registeredB))
        (Function.update latest registeredB.devID (some c))) := by
  have hsocket : (oneClient newSocket c noDevices latest).server.clientSocket 0 ≠ 0 := by
    simp only [oneClient, acceptClient_init, Function.update_self]
    exact newSocket.property
  rw [Step, step, if_neg hsocket, newDeviceInfo_registerJson, ok_bind]
  simp only [oneClient, storeDevice_noDevices, Function.update_self]

/-- A device registers, its client goes, and another client gets the slot. -/
theorem slot_reused : ∃ es, Run Step initState es
    (oneClient ⟨5, by decide⟩ 1 (Function.update noDevices 0 (some registeredB))
      (Function.update (fun _ => none) registeredB.devID (some 0))) := by
  have hfirst := (Run.nil initState).snoc (step_accept_first ⟨4, by decide⟩ 0 noDevices _)
  have hregister := hfirst.snoc (step_register_only ⟨4, by decide⟩ 0 _)
  have hgone := hregister.snoc (step_disconnect_only ⟨4, by decide⟩ 0 _ _)
  exact ⟨_, hgone.snoc (step_accept_first ⟨5, by decide⟩ 1 _ _)⟩

/-- Then a package for the device goes to the other client. -/
theorem routes_elsewhere : ¬ ∀ es s, Run Step initState es s → RoutesHome s := by
  intro hall
  obtain ⟨es, hrun⟩ := slot_reused
  have hfound : findDeviceWithIp (Function.update noDevices 0 (some registeredB)) (ascii "B") =
      some registeredB :=
    findDeviceWithIp_only (by decide)
  have henc : Encodable (List.replicate MAXPACKETSIZE (0 : Byte)).length (packageInfoAB 17 [120]) :=
    ⟨by decide, by decide, by decide, by decide, by decide, by decide, by
      rw [List.length_replicate]
      decide⟩
  have hsocket : socketAt (acceptClient initServerInfo 5).clientSocket registeredB.socketIndex =
      .ok 5 := by
    have hslot := socketAt_slot (acceptClient initServerInfo 5).clientSocket 0
    rw [acceptClient_init] at hslot ⊢
    dsimp only at hslot ⊢
    rw [Function.update_self] at hslot
    exact hslot
  have hsent : handleForwardingPackage (Function.update noDevices 0 (some registeredB))
      (acceptClient initServerInfo 5).clientSocket blankJson (List.replicate MAXPACKETSIZE 0)
      (packageInfoAB 17 [120]) = .ok ⟨5, wireBytes (packageInfoAB 17 [120])⟩ := by
    have hdes : (packageInfoAB 17 [120]).desIp.ip.text = .ok (ascii "B") := by decide
    rw [handleForwardingPackage, hdes, ok_bind, hfound]
    exact sendPackage_eq_ok.mpr ⟨henc, hsocket, rfl⟩
  rcases hall es _ hrun (packageInfoAB 17 [120]) (ascii "B") registeredB (by decide) hfound _ _ _
    hsent with ⟨i, c, hslot, -, -, hconnection, hlatest⟩
  have hi : i = 0 := by
    have hzero : (0 : ℤ) = (i.val : ℤ) := hslot
    exact Fin.ext (by simpa using hzero.symm)
  subst hi
  simp only [oneClient, Function.update_self, Option.some.injEq] at hconnection hlatest
  omega

/-- Two clients, over the first of which device `b` registered. -/
def twoClients : State where
  server := acceptClient (acceptClient initServerInfo 4) 5
  devices := storeDevice noDevices registeredB
  accepted := 2
  connection := Function.update (Function.update (fun _ => none) 0 (some 0)) 1 (some 1)
  latest := Function.update (fun _ => none) registeredB.devID (some 0)

theorem step_accept_second :
    Step (oneClient ⟨4, by decide⟩ 0 (Function.update noDevices 0 (some registeredB))
      (Function.update (fun _ => none) registeredB.devID (some 0))) (.accept ⟨5, by decide⟩)
      twoClients := by
  have hfree : freeSlot (acceptClient initServerInfo 4).clientSocket = some 1 := by decide
  rw [Step, step, twoClients, storeDevice_noDevices]
  simp only [oneClient, hfree]

theorem findDeviceWithIp_twoClients :
    findDeviceWithIp twoClients.devices (ascii "B") = some registeredB := by
  rw [twoClients, storeDevice_noDevices]
  exact findDeviceWithIp_only (by decide)

theorem forward_twoClients :
    handleForwardingPackage twoClients.devices twoClients.server.clientSocket blankJson
      (List.replicate MAXPACKETSIZE 0)
      { packageInfoAB 17 [120] with belongSocketIdx := ((1 : Slot).val : ℤ) } =
      .ok ⟨4, wireBytes (packageInfoAB 17 [120])⟩ := by
  have hdes : (packageInfoAB 17 [120]).desIp.ip.text = .ok (ascii "B") := by decide
  have henc : Encodable (List.replicate MAXPACKETSIZE (0 : Byte)).length
      { packageInfoAB 17 [120] with belongSocketIdx := ((1 : Slot).val : ℤ) } :=
    ⟨by decide, by decide, by decide, by decide, by decide, by decide, by
      rw [List.length_replicate]
      decide⟩
  rw [handleForwardingPackage, hdes, ok_bind, findDeviceWithIp_twoClients]
  exact sendPackage_eq_ok.mpr
    ⟨henc, (socketAt_slot twoClients.server.clientSocket 0).trans (by decide), rfl⟩

theorem step_forward_twoClients :
    Step twoClients
      (.forward 1 (packageInfoAB 17 [120]) blankJson (List.replicate MAXPACKETSIZE 0))
      twoClients := by
  have hsocket : twoClients.server.clientSocket 1 ≠ 0 := by decide
  rw [Step, step, if_neg hsocket, forward_twoClients]
  rfl

/-- Device `b` registers over the first of two connections, and the second client sends it a
package: the package goes to the first connection, the one of the registration. -/
theorem routes_home_forwarded :
    ∃ es, es.length = 4 ∧ Run (Meeting Step LeavesNoDevice) initState es twoClients ∧
      ∃ sent, handleForwardingPackage twoClients.devices twoClients.server.clientSocket blankJson
          (List.replicate MAXPACKETSIZE 0)
          { packageInfoAB 17 [120] with belongSocketIdx := ((1 : Slot).val : ℤ) } = .ok sent ∧
        sent.socket = 4 ∧
        ∃ (i : Slot) (c : ℕ), registeredB.socketIndex = (i.val : ℤ) ∧
          sent.socket = twoClients.server.clientSocket i ∧ sent.socket ≠ 0 ∧
          twoClients.connection i = some c ∧ twoClients.latest registeredB.devID = some c := by
  have hfirst := (Run.nil initState).snoc (u := oneClient ⟨4, by decide⟩ 0 noDevices _)
    (show Meeting Step LeavesNoDevice _ (.accept ⟨4, by decide⟩) _ from
      ⟨step_accept_first ⟨4, by decide⟩ 0 noDevices _, trivial⟩)
  have hregister := hfirst.snoc ⟨step_register_only ⟨4, by decide⟩ 0 _, trivial⟩
  have hsecond := hregister.snoc ⟨step_accept_second, trivial⟩
  have hrun := hsecond.snoc ⟨step_forward_twoClients, trivial⟩
  refine ⟨_, rfl, hrun, _, forward_twoClients, rfl, ?_⟩
  exact routes_home hrun _ (ascii "B") registeredB (by decide) findDeviceWithIp_twoClients _ _ _
    forward_twoClients

end IoTRepublic.Routing
