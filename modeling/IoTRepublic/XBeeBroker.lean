import IoTRepublic.Foundation.Runs
import IoTRepublic.Package
import Mathlib.Data.Fin.Tuple.Basic
import Mathlib.Logic.Function.Basic

/-!
The broker between the manager and the XBee devices. The thread that listens to
the manager cuts a package into fragments and waits for the device before each
of them; registration threads answer new devices; the radio reports the fate of
every frame under the frame ID it was sent with. The threads share the table of
devices, and each access to the table is one step.
-/
namespace IoTRepublic.XBeeBroker

open CheckedArray Package

abbrev MAXDEVICECOUNT : ℕ := 10
abbrev MAXSENDBUFFER : ℕ := 60
abbrev ACK_TIMEOUT : ℕ := 1000
abbrev DEFAULT_FRAME_ID : UInt8 := 1
abbrev SUCCESS : UInt8 := 0

abbrev Slot := Fin MAXDEVICECOUNT

structure XBeeAddress64 where
  msb : UInt32
  lsb : UInt32
  deriving DecidableEq

/-- The bytes received from a device so far are left out; `ip` is the text in its array. -/
structure XBeeDevInfo where
  xbAddr : XBeeAddress64
  ip : List Byte
  readyToReceive : ℤ
  isAlive : ℤ
  deriving DecidableEq

abbrev XBeeDevices := Slot → Option XBeeDevInfo

def noDevices : XBeeDevices := fun _ => none

def findDeviceIndex (xbeeDevices : XBeeDevices) (addr : XBeeAddress64) : Option Slot :=
  Fin.find? (fun i => (xbeeDevices i).any (fun d => d.xbAddr = addr))

def emptyIndex (xbeeDevices : XBeeDevices) : Option Slot :=
  Fin.find? (fun i => (xbeeDevices i).isNone)

/-- Nothing is stored in the `ip` of a new record, so it holds what was in the memory. -/
def newXbeeDevice (addr : XBeeAddress64) (ip : List Byte) : XBeeDevInfo :=
  ⟨addr, ip, 1, 1⟩

/-- The slot of the new device; without a slot the index is `MAXDEVICECOUNT`. -/
def addNewXbeeDevice (xbeeDevices : XBeeDevices) (addr : XBeeAddress64) (ip : List Byte) :
    XBeeDevices × Option Slot :=
  match emptyIndex xbeeDevices with
  | some i => (Function.update xbeeDevices i (some (newXbeeDevice addr ip)), some i)
  | none => (xbeeDevices, none)

/-- The record in a slot that must not be `NULL`. -/
def deviceAt (xbeeDevices : XBeeDevices) (index : Slot) : Exec XBeeDevInfo :=
  match xbeeDevices index with
  | some d => .ok d
  | none => .error .readOutside

/-- The removal as the table sees it; `BrokerDeletion.removeXbeeDevice` has the message to the
manager, whose text is the `ip` of the record. -/
def removeXbeeDevice (xbeeDevices : XBeeDevices) (deviceIndex : Slot) : Exec XBeeDevices := do
  let _ ← deviceAt xbeeDevices deviceIndex
  .ok (Function.update xbeeDevices deviceIndex none)

def updateIotIp (xbeeDevices : XBeeDevices) (addr : XBeeAddress64) (ip : List Byte) :
    XBeeDevices :=
  match findDeviceIndex xbeeDevices addr with
  | some index =>
    Function.update xbeeDevices index
      ((xbeeDevices index).map (fun d => { d with isAlive := 1, ip := ip }))
  | none => xbeeDevices

def findXbeeAddrByIotip (xbeeDevices : XBeeDevices) (iotip : List Byte) : Option XBeeAddress64 :=
  (Fin.find? (fun i => (xbeeDevices i).any (fun d => d.ip = iotip))).bind
    (fun i => (xbeeDevices i).map XBeeDevInfo.xbAddr)

/-- The payload of a request is left out. -/
structure ZBTxRequest where
  addr64 : XBeeAddress64
  frameId : UInt8
  deriving DecidableEq

/-- The constructor with an address and data. -/
def ZBTxRequest.ofAddr (addr64 : XBeeAddress64) : ZBTxRequest := ⟨addr64, DEFAULT_FRAME_ID⟩

def ZBTxRequest.setFrameId (zbTx : ZBTxRequest) (frameId : UInt8) : ZBTxRequest :=
  { zbTx with frameId := frameId }

/-- The frame ID of the fragments for a device. -/
def fragmentId (index : Slot) : UInt8 := UInt8.ofNat (index.val + 1)

/-- Where `wait_device_ready` and the code after it stand for one fragment. -/
inductive WaitPhase
  | called
  | polling
  | asleep
  | sawReady
  | isAlive
  | noResponse
  deriving DecidableEq

/-- The package that `listen_to_manager_loop` is sending, at one of its fragments. -/
structure Transfer where
  index : Slot
  leftDataLength : ℕ
  zbTx : ZBTxRequest
  phase : WaitPhase
  deriving DecidableEq

/-- A frame and the device for which `listen_to_manager_loop` sent it; a reply of
`xbee_register` is for none. -/
structure Frame where
  request : ZBTxRequest
  fragmentOf : Option Slot
  deriving DecidableEq

/-- `inFlight` are the frames whose TX status the radio has not delivered. -/
structure State where
  xbeeDevices : XBeeDevices
  transfer : Option Transfer
  inFlight : List Frame

def initState : State := ⟨noDevices, none, []⟩

inductive Event
  | received (addr : XBeeAddress64) (ip : List Byte)
  | txStatus (k : ℕ) (status : UInt8)
  | updateIp (addr : XBeeAddress64) (ip : List Byte)
  | ipReply (addr : XBeeAddress64)
  | package (desIp : List Byte) (n : ℕ)
  | manager (waitingTime : ℕ)

/-- Data from a device in `listen_to_end_device_loop`, up to the storing of the bytes. -/
def receive (xbeeDevices : XBeeDevices) (addr : XBeeAddress64) (ip : List Byte) :
    Exec XBeeDevices :=
  match findDeviceIndex xbeeDevices addr with
  | some _ => .ok xbeeDevices
  | none =>
    match addNewXbeeDevice xbeeDevices addr ip with
    | (xbeeDevices, some _) => .ok xbeeDevices
    | (_, none) => .error .readOutside

/-- A TX status in `listen_to_end_device_loop`. -/
def handleTxStatus (xbeeDevices : XBeeDevices) (frameId status : UInt8) : Exec XBeeDevices :=
  if status = SUCCESS then
    if h : 1 ≤ frameId.toNat ∧ frameId.toNat - 1 < MAXDEVICECOUNT then
      let index : Slot := ⟨frameId.toNat - 1, h.2⟩
      .ok (Function.update xbeeDevices index
        ((xbeeDevices index).map (fun d => { d with readyToReceive := 1 })))
    else .error .readOutside
  else .ok xbeeDevices

/-- The head of the loop over the fragments. The address of the request is read through a
pointer into the record. -/
def nextFragment (xbeeDevices : XBeeDevices) (index : Slot) (leftDataLength : ℕ) :
    Exec (Option Transfer) :=
  if leftDataLength = 0 then .ok none
  else do
    let d ← deviceAt xbeeDevices index
    .ok (some { index := index
                leftDataLength := leftDataLength
                zbTx := (ZBTxRequest.ofAddr d.xbAddr).setFrameId (fragmentId index)
                phase := .called })

/-- A package from the manager; while another is being sent it waits in the socket. -/
def startTransfer (s : State) (desIp : List Byte) (n : ℕ) : Exec State :=
  match s.transfer with
  | some _ => .ok s
  | none =>
    match findXbeeAddrByIotip s.xbeeDevices desIp with
    | none => .ok s
    | some targetAddress =>
      match findDeviceIndex s.xbeeDevices targetAddress with
      | none => .error .readOutside
      | some index => do
        let transfer ← nextFragment s.xbeeDevices index n
        .ok { s with transfer := transfer }

/-- The next access of the thread that is sending a package; `waitingTime` is what the clock
shows since the call of `wait_device_ready`. -/
def managerStep (s : State) (transfer : Transfer) (waitingTime : ℕ) : Exec State :=
  let index := transfer.index
  let sendLength := min transfer.leftDataLength MAXSENDBUFFER
  match transfer.phase with
  | .called => do
    let d ← deviceAt s.xbeeDevices index
    let phase := if d.isAlive = 0 then .noResponse else .polling
    .ok { s with transfer := some { transfer with phase := phase } }
  | .polling => do
    let d ← deviceAt s.xbeeDevices index
    let phase := if d.readyToReceive = 1 then .sawReady else .asleep
    .ok { s with transfer := some { transfer with phase := phase } }
  | .asleep =>
    if ACK_TIMEOUT ≤ waitingTime then do
      let d ← deviceAt s.xbeeDevices index
      .ok { s with
        xbeeDevices := Function.update s.xbeeDevices index
          (some { d with isAlive := 0, readyToReceive := 0 })
        transfer := some { transfer with phase := .noResponse } }
    else .ok { s with transfer := some { transfer with phase := .polling } }
  | .sawReady => do
    let d ← deviceAt s.xbeeDevices index
    .ok { s with
      xbeeDevices := Function.update s.xbeeDevices index (some { d with readyToReceive := 0 })
      transfer := some { transfer with phase := .isAlive } }
  | .isAlive => do
    let next ← nextFragment s.xbeeDevices index (transfer.leftDataLength - sendLength)
    .ok { s with transfer := next, inFlight := s.inFlight ++ [⟨transfer.zbTx, some index⟩] }
  | .noResponse => do
    let xbeeDevices ← removeXbeeDevice s.xbeeDevices index
    let next ← nextFragment xbeeDevices index (transfer.leftDataLength - sendLength)
    .ok { s with xbeeDevices := xbeeDevices, transfer := next }

def step (s : State) : Event → Exec State
  | .received addr ip => do
    let xbeeDevices ← receive s.xbeeDevices addr ip
    .ok { s with xbeeDevices := xbeeDevices }
  | .txStatus k status =>
    match s.inFlight[k]? with
    | none => .ok s
    | some frame => do
      let xbeeDevices ← handleTxStatus s.xbeeDevices frame.request.frameId status
      .ok { s with xbeeDevices := xbeeDevices, inFlight := s.inFlight.eraseIdx k }
  | .updateIp addr ip => .ok { s with xbeeDevices := updateIotIp s.xbeeDevices addr ip }
  | .ipReply addr =>
    .ok { s with inFlight := s.inFlight ++ [⟨ZBTxRequest.ofAddr addr, none⟩] }
  | .package desIp n => startTransfer s desIp n
  | .manager waitingTime =>
    match s.transfer with
    | none => .ok s
    | some transfer => managerStep s transfer waitingTime

def Step (s : State) (e : Event) (t : State) : Prop := step s e = .ok t

/-- How many fragments for a device are in flight. -/
def outstanding (inFlight : List Frame) (index : Slot) : ℕ :=
  inFlight.countP (fun frame => frame.fragmentOf = some index)

/-- The flag of the device is cleared and its next fragment not yet sent. -/
def AboutToSend (s : State) (index : Slot) : Prop :=
  ∃ transfer ∈ s.transfer, transfer.index = index ∧ transfer.phase = .isAlive

instance (s : State) (index : Slot) : Decidable (AboutToSend s index) :=
  inferInstanceAs (Decidable (∃ transfer ∈ s.transfer,
    transfer.index = index ∧ transfer.phase = .isAlive))

theorem deviceAt_eq_ok {xbeeDevices : XBeeDevices} {index : Slot} {d : XBeeDevInfo} :
    deviceAt xbeeDevices index = .ok d ↔ xbeeDevices index = some d := by
  rw [deviceAt]
  cases xbeeDevices index <;> simp

theorem emptyIndex_eq_some {xbeeDevices : XBeeDevices} {i : Slot}
    (h : emptyIndex xbeeDevices = some i) : xbeeDevices i = none :=
  Option.isNone_iff_eq_none.mp (Fin.eq_true_of_find?_eq_some h)

theorem receive_eq_ok {xbeeDevices xbeeDevices' : XBeeDevices} {addr : XBeeAddress64}
    {ip : List Byte} (h : receive xbeeDevices addr ip = .ok xbeeDevices') :
    xbeeDevices' = xbeeDevices ∨
      ∃ i, findDeviceIndex xbeeDevices addr = none ∧ emptyIndex xbeeDevices = some i ∧
        xbeeDevices' = Function.update xbeeDevices i (some (newXbeeDevice addr ip)) := by
  rw [receive] at h
  cases hknown : findDeviceIndex xbeeDevices addr with
  | some i =>
    rw [hknown] at h
    exact .inl (Except.ok.inj h).symm
  | none =>
    rw [hknown, addNewXbeeDevice] at h
    cases hempty : emptyIndex xbeeDevices with
    | none =>
      rw [hempty] at h
      cases h
    | some i =>
      rw [hempty] at h
      exact .inr ⟨i, rfl, rfl, (Except.ok.inj h).symm⟩

/-- The new IP address of a device leaves every ready flag as it is. -/
theorem updateIotIp_readyToReceive (xbeeDevices : XBeeDevices) (addr : XBeeAddress64)
    (ip : List Byte) (i : Slot) :
    (updateIotIp xbeeDevices addr ip i).map XBeeDevInfo.readyToReceive =
      (xbeeDevices i).map XBeeDevInfo.readyToReceive := by
  rw [updateIotIp]
  cases findDeviceIndex xbeeDevices addr with
  | none => rfl
  | some index =>
    dsimp only
    by_cases hi : i = index
    · subst hi
      rw [Function.update_self, Option.map_map]
      rfl
    · rw [Function.update_of_ne hi]

/-- The next fragment, if there is one, carries the frame ID of its device. -/
theorem nextFragment_eq_ok {xbeeDevices : XBeeDevices} {index : Slot} {leftDataLength : ℕ}
    {next : Option Transfer} (h : nextFragment xbeeDevices index leftDataLength = .ok next) :
    ∀ transfer ∈ next, transfer.zbTx.frameId = fragmentId transfer.index ∧
      transfer.phase = .called ∧ ∃ d, xbeeDevices transfer.index = some d := by
  intro transfer htransfer
  rw [nextFragment] at h
  by_cases hleft : leftDataLength = 0
  · rw [if_pos hleft] at h
    obtain rfl := Except.ok.inj h
    cases htransfer
  · rw [if_neg hleft] at h
    rcases bind_eq_ok.mp h with ⟨d, hd, h⟩
    obtain rfl := Except.ok.inj h
    obtain rfl := Option.mem_some_iff.mp htransfer
    exact ⟨rfl, rfl, d, deviceAt_eq_ok.mp hd⟩

theorem fragmentId_toNat (index : Slot) : (fragmentId index).toNat = index.val + 1 := by
  rw [fragmentId, UInt8.toNat_ofNat']
  have hindex : index.val < 10 := index.isLt
  omega

theorem defaultFrameId : DEFAULT_FRAME_ID = fragmentId 0 := by decide

section

variable {inFlight : List Frame} {zbTx : ZBTxRequest} {index i : Slot}

theorem outstanding_append_fragment :
    outstanding (inFlight ++ [⟨zbTx, some index⟩]) i =
      outstanding inFlight i + if index = i then 1 else 0 := by
  simp [outstanding, List.countP_append]

theorem outstanding_append_reply :
    outstanding (inFlight ++ [⟨zbTx, none⟩]) i = outstanding inFlight i := by
  simp [outstanding, List.countP_append]

theorem outstanding_eraseIdx_le (k : ℕ) :
    outstanding (inFlight.eraseIdx k) i ≤ outstanding inFlight i :=
  (List.eraseIdx_sublist inFlight k).countP_le

theorem outstanding_eraseIdx {k : ℕ} {frame : Frame} (hframe : inFlight[k]? = some frame)
    (hindex : frame.fragmentOf = some index) :
    outstanding (inFlight.eraseIdx k) index + 1 = outstanding inFlight index := by
  induction inFlight generalizing k with
  | nil => simp at hframe
  | cons first rest ih =>
    cases k with
    | zero =>
      obtain rfl : first = frame := by simpa using hframe
      simp [outstanding, hindex]
    | succ k =>
      have hrest := ih (by simpa using hframe)
      simp only [List.eraseIdx_cons_succ, outstanding, List.countP_cons] at hrest ⊢
      omega

end

/-- The success of a frame sent for a device sets the flag of the device. -/
theorem handleTxStatus_success (xbeeDevices : XBeeDevices) (index : Slot) :
    handleTxStatus xbeeDevices (fragmentId index) SUCCESS =
      .ok (Function.update xbeeDevices index
        ((xbeeDevices index).map (fun d => { d with readyToReceive := 1 }))) := by
  have hid := fragmentId_toNat index
  have hin : 1 ≤ (fragmentId index).toNat ∧ (fragmentId index).toNat - 1 < MAXDEVICECOUNT :=
    ⟨by omega, by
      rw [hid]
      exact index.isLt⟩
  have hslot : (⟨(fragmentId index).toNat - 1, hin.2⟩ : Slot) = index :=
    Fin.ext (by simp [hid])
  rw [handleTxStatus, if_pos rfl, dif_pos hin]
  simp only [hslot]

section

variable {s t : State}

theorem managerStep_inFlight {transfer : Transfer} {waitingTime : ℕ}
    (h : managerStep s transfer waitingTime = .ok t) :
    t.inFlight = s.inFlight ∨ transfer.phase = .isAlive ∧
      t.inFlight = s.inFlight ++ [⟨transfer.zbTx, some transfer.index⟩] := by
  unfold managerStep at h
  cases hphase : transfer.phase with
  | called =>
    rw [hphase] at h
    rcases bind_eq_ok.mp h with ⟨_, -, h⟩
    obtain rfl := Except.ok.inj h
    exact .inl rfl
  | polling =>
    rw [hphase] at h
    rcases bind_eq_ok.mp h with ⟨_, -, h⟩
    obtain rfl := Except.ok.inj h
    exact .inl rfl
  | asleep =>
    rw [hphase] at h
    dsimp only at h
    split at h
    · rcases bind_eq_ok.mp h with ⟨_, -, h⟩
      obtain rfl := Except.ok.inj h
      exact .inl rfl
    · obtain rfl := Except.ok.inj h
      exact .inl rfl
  | sawReady =>
    rw [hphase] at h
    rcases bind_eq_ok.mp h with ⟨_, -, h⟩
    obtain rfl := Except.ok.inj h
    exact .inl rfl
  | isAlive =>
    rw [hphase] at h
    rcases bind_eq_ok.mp h with ⟨_, -, h⟩
    obtain rfl := Except.ok.inj h
    exact .inr ⟨rfl, rfl⟩
  | noResponse =>
    rw [hphase] at h
    rcases bind_eq_ok.mp h with ⟨_, -, h⟩
    rcases bind_eq_ok.mp h with ⟨_, -, h⟩
    obtain rfl := Except.ok.inj h
    exact .inl rfl

theorem startTransfer_inFlight {desIp : List Byte} {n : ℕ} (h : startTransfer s desIp n = .ok t) :
    t.inFlight = s.inFlight := by
  unfold startTransfer at h
  split at h
  · obtain rfl := Except.ok.inj h
    rfl
  · split at h
    · obtain rfl := Except.ok.inj h
      rfl
    · split at h
      · cases h
      · rcases bind_eq_ok.mp h with ⟨_, -, h⟩
        obtain rfl := Except.ok.inj h
        rfl

/-- What a step does to the frames in flight. -/
theorem step_inFlight {e : Event} (h : Step s e t) :
    t.inFlight = s.inFlight ∨ (∃ k, t.inFlight = s.inFlight.eraseIdx k) ∨
      (∃ addr, t.inFlight = s.inFlight ++ [⟨ZBTxRequest.ofAddr addr, none⟩]) ∨
      ∃ transfer ∈ s.transfer, transfer.phase = .isAlive ∧
        t.inFlight = s.inFlight ++ [⟨transfer.zbTx, some transfer.index⟩] := by
  unfold Step step at h
  cases e with
  | received addr ip =>
    rcases bind_eq_ok.mp h with ⟨_, -, h⟩
    obtain rfl := Except.ok.inj h
    exact .inl rfl
  | txStatus k status =>
    cases hframe : s.inFlight[k]? with
    | none =>
      simp only [hframe] at h
      obtain rfl := Except.ok.inj h
      exact .inl rfl
    | some frame =>
      simp only [hframe] at h
      rcases bind_eq_ok.mp h with ⟨_, -, h⟩
      obtain rfl := Except.ok.inj h
      exact .inr (.inl ⟨k, rfl⟩)
  | updateIp addr ip =>
    obtain rfl := Except.ok.inj h
    exact .inl rfl
  | ipReply addr =>
    obtain rfl := Except.ok.inj h
    exact .inr (.inr (.inl ⟨addr, rfl⟩))
  | package desIp n => exact .inl (startTransfer_inFlight h)
  | manager waitingTime =>
    cases htransfer : s.transfer with
    | none =>
      simp only [htransfer] at h
      obtain rfl := Except.ok.inj h
      exact .inl rfl
    | some transfer =>
      simp only [htransfer] at h
      rcases managerStep_inFlight h with hsame | hsent
      · exact .inl hsame
      · exact .inr (.inr (.inr ⟨transfer, rfl, hsent⟩))

/-- A fragment is sent only by the thread that has just cleared the flag of its device. -/
theorem aboutToSend_of_sent {e : Event} {frame : Frame} {index : Slot} (h : Step s e t)
    (hsent : t.inFlight = s.inFlight ++ [frame]) (hindex : frame.fragmentOf = some index) :
    AboutToSend s index := by
  have hlength := congrArg List.length hsent
  rw [List.length_append, List.length_singleton] at hlength
  rcases step_inFlight h with hsame | ⟨k, herased⟩ | ⟨addr, hreply⟩ |
    ⟨transfer, htransfer, hphase, hfragment⟩
  · rw [hsame] at hlength
    omega
  · have hle := List.length_eraseIdx_le s.inFlight k
    rw [herased] at hlength
    omega
  · have hframe := List.append_cancel_left (hsent.symm.trans hreply)
    obtain rfl := List.singleton_inj.mp hframe
    cases hindex
  · have hframe := List.append_cancel_left (hsent.symm.trans hfragment)
    obtain rfl := List.singleton_inj.mp hframe
    exact ⟨transfer, htransfer, Option.some.inj hindex, hphase⟩

end

end IoTRepublic.XBeeBroker
