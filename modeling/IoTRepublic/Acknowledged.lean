import IoTRepublic.BrokerDeletion

/-!
How many fragments are on the way to a device. The ready flag of a device is
cleared before a fragment is sent and set again by its TX status, so at most one
fragment is unacknowledged, unless something else sets the flag meanwhile: a
reply to a new device is sent under the frame ID of the first slot, and a new
device that takes the slot of a removed one is ready at once.
-/
namespace IoTRepublic.Acknowledged

open CheckedArray Package XBeeBroker Runs

/-- A fragment is sent only when every earlier fragment for the device has had its status
delivered. -/
def SendsAcknowledged (s : State) : Prop :=
  ∀ (e : Event) (t : State) (frame : Frame) (index : Slot), Step s e t →
    t.inFlight = s.inFlight ++ [frame] → frame.fragmentOf = some index →
    ∀ earlier ∈ s.inFlight, earlier.fragmentOf ≠ some index

/-- No fragment for the device is in flight or about to be. -/
def Quiet (s : State) (index : Slot) : Prop :=
  outstanding s.inFlight index = 0 ∧ ¬ AboutToSend s index

/-- The frame whose status comes is a reply of `xbee_register`. -/
def IsReply (s : State) (k : ℕ) : Prop :=
  ∃ frame ∈ s.inFlight[k]?, frame.fragmentOf = none

/-- The success of a reply comes while the first device is quiet, and a new device takes a
slot for which no fragment is in flight. -/
def Undisturbed (s : State) : Event → Prop
  | .txStatus k status => IsReply s k → status = SUCCESS → Quiet s 0
  | .received addr _ => findDeviceIndex s.xbeeDevices addr = none →
      ∀ i, emptyIndex s.xbeeDevices = some i → outstanding s.inFlight i = 0
  | _ => True

instance (s : State) (index : Slot) : Decidable (Quiet s index) :=
  inferInstanceAs (Decidable (outstanding s.inFlight index = 0 ∧ ¬ AboutToSend s index))

instance (s : State) (k : ℕ) : Decidable (IsReply s k) :=
  inferInstanceAs (Decidable (∃ frame ∈ s.inFlight[k]?, frame.fragmentOf = none))

instance (s : State) : (e : Event) → Decidable (Undisturbed s e)
  | .received addr _ => inferInstanceAs (Decidable (findDeviceIndex s.xbeeDevices addr = none →
      ∀ i, emptyIndex s.xbeeDevices = some i → outstanding s.inFlight i = 0))
  | .txStatus k status => inferInstanceAs (Decidable (IsReply s k → status = SUCCESS → Quiet s 0))
  | .updateIp _ _ => inferInstanceAs (Decidable True)
  | .ipReply _ => inferInstanceAs (Decidable True)
  | .package _ _ => inferInstanceAs (Decidable True)
  | .manager _ => inferInstanceAs (Decidable True)

/-- A device that is ready is quiet, and a device with a fragment in flight is not served. -/
structure Inv (s : State) : Prop where
  frameId : ∀ frame ∈ s.inFlight, frame.request.frameId = fragmentId (frame.fragmentOf.getD 0)
  single : ∀ i, outstanding s.inFlight i ≤ 1
  ready : ∀ i d, s.xbeeDevices i = some d → d.readyToReceive = 1 → Quiet s i
  tagged : ∀ transfer ∈ s.transfer, transfer.zbTx.frameId = fragmentId transfer.index
  cleared : ∀ transfer ∈ s.transfer, transfer.phase = .sawReady ∨ transfer.phase = .isAlive →
    outstanding s.inFlight transfer.index = 0
  present : ∀ transfer ∈ s.transfer, ∃ d, s.xbeeDevices transfer.index = some d

theorem inv_init : Inv initState where
  frameId _ hframe := absurd hframe List.not_mem_nil
  single _ := Nat.zero_le 1
  ready _ d hd := absurd hd (Option.some_ne_none d).symm
  tagged transfer htransfer := absurd htransfer (Option.not_mem_none transfer)
  cleared transfer htransfer := absurd htransfer (Option.not_mem_none transfer)
  present transfer htransfer := absurd htransfer (Option.not_mem_none transfer)

section

variable {s t : State}

/-- The table changes: whoever is ready then is quiet, and the device being served stays. -/
theorem Inv.setDevices (hs : Inv s) {xbeeDevices : XBeeDevices}
    (hready : ∀ i d, xbeeDevices i = some d → d.readyToReceive = 1 → Quiet s i)
    (hpresent : ∀ transfer ∈ s.transfer, ∃ d, xbeeDevices transfer.index = some d) :
    Inv { s with xbeeDevices := xbeeDevices } :=
  ⟨hs.frameId, hs.single, hready, hs.tagged, hs.cleared, hpresent⟩

/-- The thread moves on with the fragment it has. -/
theorem Inv.setPhase (hs : Inv s) {transfer : Transfer} (htransfer : s.transfer = some transfer)
    {phase : WaitPhase}
    (hcleared : phase = .sawReady ∨ phase = .isAlive → outstanding s.inFlight transfer.index = 0)
    (hflag : phase = .isAlive →
      ∀ d, s.xbeeDevices transfer.index = some d → d.readyToReceive ≠ 1) :
    Inv { s with transfer := some { transfer with phase := phase } } where
  frameId := hs.frameId
  single := hs.single
  ready := by
    intro i d hd hone
    refine ⟨(hs.ready i d hd hone).1, ?_⟩
    rintro ⟨current, hcurrent, hindex, hphase⟩
    obtain rfl := Option.mem_some_iff.mp hcurrent
    have hindex' : transfer.index = i := hindex
    subst hindex'
    exact hflag hphase d hd hone
  tagged := by
    intro current hcurrent
    obtain rfl := Option.mem_some_iff.mp hcurrent
    exact hs.tagged transfer htransfer
  cleared := by
    intro current hcurrent hphase
    obtain rfl := Option.mem_some_iff.mp hcurrent
    exact hcleared hphase
  present := by
    intro current hcurrent
    obtain rfl := Option.mem_some_iff.mp hcurrent
    exact hs.present transfer htransfer

/-- The thread turns to another fragment. -/
theorem Inv.setTransfer (hs : Inv s) {next : Option Transfer}
    (hnext : ∀ transfer ∈ next, transfer.zbTx.frameId = fragmentId transfer.index ∧
      transfer.phase = .called ∧ ∃ d, s.xbeeDevices transfer.index = some d) :
    Inv { s with transfer := next } where
  frameId := hs.frameId
  single := hs.single
  ready := by
    intro i d hd hone
    refine ⟨(hs.ready i d hd hone).1, ?_⟩
    rintro ⟨transfer, htransfer, -, hphase⟩
    have hcalled := (hnext transfer htransfer).2.1
    rw [hphase] at hcalled
    cases hcalled
  tagged transfer htransfer := (hnext transfer htransfer).1
  cleared := by
    intro transfer htransfer hphase
    rw [(hnext transfer htransfer).2.1] at hphase
    rcases hphase with hphase | hphase <;> cases hphase
  present transfer htransfer := (hnext transfer htransfer).2.2

/-- A new device takes an empty slot, which the thread does not serve. -/
theorem Inv.received (hs : Inv s) {addr : XBeeAddress64} {ip : List Byte}
    (h : Step s (.received addr ip) t) (hquiet : Undisturbed s (.received addr ip)) : Inv t := by
  rcases bind_eq_ok.mp h with ⟨xbeeDevices, hreceive, h⟩
  obtain rfl := Except.ok.inj h
  rcases receive_eq_ok hreceive with rfl | ⟨i, hnew, hempty, rfl⟩
  · exact hs
  have hnone := emptyIndex_eq_some hempty
  have hother : ∀ transfer ∈ s.transfer, transfer.index ≠ i := by
    intro transfer htransfer hindex
    rcases hs.present transfer htransfer with ⟨d, hd⟩
    rw [hindex, hnone] at hd
    cases hd
  apply hs.setDevices
  · intro j d hd hone
    by_cases hji : j = i
    · subst hji
      refine ⟨hquiet hnew j hempty, ?_⟩
      rintro ⟨transfer, htransfer, hindex, -⟩
      exact hother transfer htransfer hindex
    · rw [Function.update_of_ne hji] at hd
      exact hs.ready j d hd hone
  · intro transfer htransfer
    rw [Function.update_of_ne (hother transfer htransfer)]
    exact hs.present transfer htransfer

theorem Inv.updateIp (hs : Inv s) {addr : XBeeAddress64} {ip : List Byte}
    (h : Step s (.updateIp addr ip) t) : Inv t := by
  obtain rfl := Except.ok.inj h
  have hsame := updateIotIp_readyToReceive s.xbeeDevices addr ip
  apply hs.setDevices
  · intro i d hd hone
    have hflag := hsame i
    rw [hd] at hflag
    rcases Option.map_eq_some_iff.mp hflag.symm with ⟨d', hd', hready⟩
    exact hs.ready i d' hd' (hready.trans hone)
  · intro transfer htransfer
    rcases hs.present transfer htransfer with ⟨d, hd⟩
    have hflag := hsame transfer.index
    rw [hd] at hflag
    rcases Option.map_eq_some_iff.mp hflag with ⟨d', hd', -⟩
    exact ⟨d', hd'⟩

theorem Inv.ipReply (hs : Inv s) {addr : XBeeAddress64} (h : Step s (.ipReply addr) t) :
    Inv t := by
  obtain rfl := Except.ok.inj h
  refine ⟨?_, ?_, ?_, hs.tagged, ?_, hs.present⟩
  · intro frame hframe
    rcases List.mem_append.mp hframe with hframe | hframe
    · exact hs.frameId frame hframe
    · obtain rfl := List.mem_singleton.mp hframe
      exact defaultFrameId
  · intro i
    rw [outstanding_append_reply]
    exact hs.single i
  · intro i d hd hone
    rw [Quiet, outstanding_append_reply]
    exact hs.ready i d hd hone
  · intro transfer htransfer hphase
    rw [outstanding_append_reply]
    exact hs.cleared transfer htransfer hphase

theorem Inv.package (hs : Inv s) {desIp : List Byte} {n : ℕ} (h : Step s (.package desIp n) t) :
    Inv t := by
  rw [Step, step, startTransfer] at h
  cases htransfer : s.transfer with
  | some transfer =>
    rw [htransfer] at h
    exact Except.ok.inj h ▸ hs
  | none =>
    rw [htransfer] at h
    dsimp only at h
    cases haddr : findXbeeAddrByIotip s.xbeeDevices desIp with
    | none =>
      rw [haddr] at h
      exact Except.ok.inj h ▸ hs
    | some targetAddress =>
      rw [haddr] at h
      dsimp only at h
      cases hindex : findDeviceIndex s.xbeeDevices targetAddress with
      | none =>
        rw [hindex] at h
        cases h
      | some index =>
        rw [hindex] at h
        rcases bind_eq_ok.mp h with ⟨next, hnext, h⟩
        obtain rfl := Except.ok.inj h
        exact hs.setTransfer (nextFragment_eq_ok hnext)

/-- The status of a frame comes: nothing else about the frames changes. -/
theorem Inv.delivered (hs : Inv s) (k : ℕ) : Inv { s with inFlight := s.inFlight.eraseIdx k } := by
  have hle : ∀ i, outstanding (s.inFlight.eraseIdx k) i ≤ outstanding s.inFlight i :=
    fun i => outstanding_eraseIdx_le k
  refine ⟨?_, ?_, ?_, hs.tagged, ?_, hs.present⟩
  · intro frame hframe
    exact hs.frameId frame (List.mem_of_mem_eraseIdx hframe)
  · intro i
    exact (hle i).trans (hs.single i)
  · intro i d hd hone
    have hquiet := hs.ready i d hd hone
    exact ⟨Nat.le_zero.mp ((hle i).trans_eq hquiet.1), hquiet.2⟩
  · intro transfer htransfer hphase
    exact Nat.le_zero.mp ((hle transfer.index).trans_eq (hs.cleared transfer htransfer hphase))

/-- The status of its only fragment leaves a device quiet. -/
theorem Inv.quiet_delivered (hs : Inv s) {k : ℕ} {frame : Frame} {index : Slot}
    (hframe : s.inFlight[k]? = some frame) (hindex : frame.fragmentOf = some index) :
    Quiet { s with inFlight := s.inFlight.eraseIdx k } index := by
  have herase := outstanding_eraseIdx hframe hindex
  have hsingle := hs.single index
  constructor
  · dsimp only
    omega
  · rintro ⟨transfer, htransfer, hserved, hphase⟩
    have hcleared := hs.cleared transfer htransfer (.inr hphase)
    rw [hserved] at hcleared
    omega

theorem Inv.txStatus (hs : Inv s) {k : ℕ} {status : UInt8} (h : Step s (.txStatus k status) t)
    (hquiet : Undisturbed s (.txStatus k status)) : Inv t := by
  rw [Step, step] at h
  cases hframe : s.inFlight[k]? with
  | none =>
    rw [hframe] at h
    exact Except.ok.inj h ▸ hs
  | some frame =>
    rw [hframe] at h
    rcases bind_eq_ok.mp h with ⟨xbeeDevices, hstatus, h⟩
    obtain rfl := Except.ok.inj h
    have hdelivered := hs.delivered k
    by_cases hsuccess : status = SUCCESS
    · subst hsuccess
      rw [hs.frameId frame (List.mem_of_getElem? hframe), handleTxStatus_success] at hstatus
      obtain rfl := Except.ok.inj hstatus
      have hnow : Quiet { s with inFlight := s.inFlight.eraseIdx k } (frame.fragmentOf.getD 0) := by
        cases hfor : frame.fragmentOf with
        | some index => exact hs.quiet_delivered hframe hfor
        | none =>
          have hzero := hquiet ⟨frame, hframe, hfor⟩ rfl
          exact ⟨Nat.le_zero.mp ((outstanding_eraseIdx_le k).trans_eq hzero.1), hzero.2⟩
      apply hdelivered.setDevices
      · intro i d hd hone
        by_cases hi : i = frame.fragmentOf.getD 0
        · rw [hi]
          exact hnow
        · rw [Function.update_of_ne hi] at hd
          exact hdelivered.ready i d hd hone
      · intro transfer htransfer
        rcases hs.present transfer htransfer with ⟨d, hd⟩
        by_cases hi : transfer.index = frame.fragmentOf.getD 0
        · rw [← hi, Function.update_self, hd]
          exact ⟨_, rfl⟩
        · rw [Function.update_of_ne hi]
          exact ⟨d, hd⟩
    · rw [handleTxStatus, if_neg hsuccess] at hstatus
      obtain rfl := Except.ok.inj hstatus
      exact hdelivered

/-- The only step that sends a fragment. -/
theorem Inv.send (hs : Inv s) {transfer : Transfer} (htransfer : s.transfer = some transfer)
    (hphase : transfer.phase = .isAlive) {next : Option Transfer}
    (hnext : ∀ transfer ∈ next, transfer.zbTx.frameId = fragmentId transfer.index ∧
      transfer.phase = .called ∧ ∃ d, s.xbeeDevices transfer.index = some d) :
    Inv { s with
      transfer := next
      inFlight := s.inFlight ++ [⟨transfer.zbTx, some transfer.index⟩] } := by
  have hclear := hs.cleared transfer htransfer (.inr hphase)
  have hmoved := hs.setTransfer hnext
  refine ⟨?_, ?_, ?_, hmoved.tagged, ?_, hmoved.present⟩
  · intro frame hframe
    rcases List.mem_append.mp hframe with hframe | hframe
    · exact hs.frameId frame hframe
    · obtain rfl := List.mem_singleton.mp hframe
      exact hs.tagged transfer htransfer
  · intro i
    rw [outstanding_append_fragment]
    by_cases hi : transfer.index = i
    · rw [if_pos hi, ← hi, hclear]
    · rw [if_neg hi, Nat.add_zero]
      exact hs.single i
  · intro i d hd hone
    have hi : transfer.index ≠ i := by
      intro hi
      exact (hs.ready i d hd hone).2 ⟨transfer, htransfer, hi, hphase⟩
    have hquiet := hmoved.ready i d hd hone
    refine ⟨?_, hquiet.2⟩
    rw [outstanding_append_fragment, if_neg hi, Nat.add_zero]
    exact hquiet.1
  · intro current hcurrent hwaits
    rw [(hnext current hcurrent).2.1] at hwaits
    rcases hwaits with hwaits | hwaits <;> cases hwaits

/-- The record of the served device is written; its flag is cleared. -/
theorem Inv.clearFlag (hs : Inv s) {transfer : Transfer} {d : XBeeDevInfo}
    (hd : d.readyToReceive ≠ 1) :
    Inv { s with xbeeDevices := Function.update s.xbeeDevices transfer.index (some d) } := by
  apply hs.setDevices
  · intro i d' hd' hone
    by_cases hi : i = transfer.index
    · rw [hi, Function.update_self] at hd'
      obtain rfl := Option.some.inj hd'
      exact absurd hone hd
    · rw [Function.update_of_ne hi] at hd'
      exact hs.ready i d' hd' hone
  · intro current hcurrent
    by_cases hi : current.index = transfer.index
    · exact ⟨d, by rw [hi, Function.update_self]⟩
    · rw [Function.update_of_ne hi]
      exact hs.present current hcurrent

/-- The device that is not served any more leaves the table. -/
theorem Inv.removeDevice (hs : Inv s) (htransfer : s.transfer = none) (index : Slot) :
    Inv { s with xbeeDevices := Function.update s.xbeeDevices index none } := by
  apply hs.setDevices
  · intro i d hd hone
    by_cases hi : i = index
    · rw [hi, Function.update_self] at hd
      cases hd
    · rw [Function.update_of_ne hi] at hd
      exact hs.ready i d hd hone
  · intro current hcurrent
    rw [htransfer] at hcurrent
    cases hcurrent

/-- Where the removal with its message to the manager comes to an end, a step that gives up the
device leaves the table as that removal does. -/
theorem managerStep_of_removeXbeeDevice (jsonObj : Management.JsonObject)
    (sendBuffer : CharArray MAXPACKETSIZE) {transfer : Transfer} {sent : List Byte}
    {after : XBeeDevices} (hphase : transfer.phase = .noResponse)
    (h : BrokerDeletion.removeXbeeDevice jsonObj sendBuffer s.xbeeDevices transfer.index =
      .ok (sent, after)) (waitingTime : ℕ) :
    XBeeBroker.managerStep s transfer waitingTime = (do
      let next ← nextFragment after transfer.index
        (transfer.leftDataLength - min transfer.leftDataLength MAXSENDBUFFER)
      .ok { s with xbeeDevices := after, transfer := next }) := by
  have hremove := BrokerDeletion.removeXbeeDevice_table jsonObj sendBuffer h
  unfold XBeeBroker.managerStep
  rw [hphase]
  dsimp only
  rw [hremove, ok_bind]

/-- One case for each access of the thread that sends a package. -/
theorem Inv.managerStep (hs : Inv s) {transfer : Transfer} {waitingTime : ℕ}
    (htransfer : s.transfer = some transfer)
    (h : XBeeBroker.managerStep s transfer waitingTime = .ok t) : Inv t := by
  unfold XBeeBroker.managerStep at h
  cases hphase : transfer.phase with
  | called =>
    rw [hphase] at h
    rcases bind_eq_ok.mp h with ⟨d, -, h⟩
    obtain rfl := Except.ok.inj h
    apply hs.setPhase htransfer <;> split <;> simp
  | polling =>
    rw [hphase] at h
    rcases bind_eq_ok.mp h with ⟨d, hd, h⟩
    obtain rfl := Except.ok.inj h
    apply hs.setPhase htransfer
    · intro hsaw
      by_cases hone : d.readyToReceive = 1
      · exact (hs.ready transfer.index d (deviceAt_eq_ok.mp hd) hone).1
      · rw [if_neg hone] at hsaw
        rcases hsaw with hsaw | hsaw <;> cases hsaw
    · split <;> simp
  | asleep =>
    rw [hphase] at h
    dsimp only at h
    by_cases htime : ACK_TIMEOUT ≤ waitingTime
    · rw [if_pos htime] at h
      rcases bind_eq_ok.mp h with ⟨d, hd, h⟩
      obtain rfl := Except.ok.inj h
      apply Inv.setPhase (hs.clearFlag (by simp)) htransfer
      · simp
      · simp
    · rw [if_neg htime] at h
      obtain rfl := Except.ok.inj h
      apply hs.setPhase htransfer <;> simp
  | sawReady =>
    rw [hphase] at h
    rcases bind_eq_ok.mp h with ⟨d, hd, h⟩
    obtain rfl := Except.ok.inj h
    apply Inv.setPhase (hs.clearFlag (by simp)) htransfer
    · intro _
      exact hs.cleared transfer htransfer (.inl hphase)
    · intro _ d' hd'
      dsimp only at hd'
      rw [Function.update_self] at hd'
      obtain rfl := Option.some.inj hd'
      simp
  | isAlive =>
    rw [hphase] at h
    rcases bind_eq_ok.mp h with ⟨next, hnext, h⟩
    obtain rfl := Except.ok.inj h
    exact hs.send htransfer hphase (nextFragment_eq_ok hnext)
  | noResponse =>
    rw [hphase] at h
    rcases bind_eq_ok.mp h with ⟨xbeeDevices, hremove, h⟩
    rcases bind_eq_ok.mp hremove with ⟨d, -, hremove⟩
    obtain rfl := Except.ok.inj hremove
    rcases bind_eq_ok.mp h with ⟨next, hnext, h⟩
    obtain rfl := Except.ok.inj h
    have hidle : Inv { s with transfer := none } :=
      hs.setTransfer (fun current hcurrent => absurd hcurrent (Option.not_mem_none current))
    exact (hidle.removeDevice rfl transfer.index).setTransfer (nextFragment_eq_ok hnext)

theorem Inv.manager (hs : Inv s) {waitingTime : ℕ} (h : Step s (.manager waitingTime) t) :
    Inv t := by
  rw [Step, step] at h
  cases htransfer : s.transfer with
  | none =>
    rw [htransfer] at h
    exact Except.ok.inj h ▸ hs
  | some transfer =>
    rw [htransfer] at h
    exact hs.managerStep htransfer h

theorem Inv.step (hs : Inv s) {e : Event} (h : Meeting Step Undisturbed s e t) : Inv t := by
  rcases h with ⟨hstep, hquiet⟩
  cases e with
  | received addr ip => exact hs.received hstep hquiet
  | txStatus k status => exact hs.txStatus hstep hquiet
  | updateIp addr ip => exact hs.updateIp hstep
  | ipReply addr => exact hs.ipReply hstep
  | package desIp n => exact hs.package hstep
  | manager waitingTime => exact hs.manager hstep

theorem Inv.sendsAcknowledged (hs : Inv s) : SendsAcknowledged s := by
  intro e t frame index hstep hsent hindex earlier hearlier hfor
  rcases aboutToSend_of_sent hstep hsent hindex with ⟨transfer, htransfer, hserved, hphase⟩
  have hclear := hs.cleared transfer htransfer (.inr hphase)
  rw [hserved] at hclear
  have hnone := List.countP_eq_zero.mp hclear earlier hearlier
  exact hnone (by simpa using hfor)

end

/-- In a run in which no reply's success comes while the first device has a fragment on the
way, and no new device takes the slot of one that has, every fragment waits for the status
of the one before. -/
theorem sends_acknowledged {es : List Event} {s : State}
    (hrun : Run (Meeting Step Undisturbed) initState es s) : SendsAcknowledged s :=
  (hrun.invariant Inv (fun _ _ _ hs => hs.step) inv_init).sendsAcknowledged

/-- The step, if it is defined. -/
def step? (s : State) (e : Event) : Option State := (step s e).toOption

/-- The step, if it is defined and meets the condition. -/
def undisturbedStep? (s : State) (e : Event) : Option State :=
  if Undisturbed s e then step? s e else none

theorem step_of_step? {s t : State} {e : Event} (h : step? s e = some t) : Step s e t :=
  toOption_eq_some h

theorem step_of_undisturbedStep? {s t : State} {e : Event} (h : undisturbedStep? s e = some t) :
    Meeting Step Undisturbed s e t :=
  meeting_of_ite step_of_step? h

/-- The first device, at IP address `A`, and a newcomer. -/
def addrA : XBeeAddress64 := ⟨0x0013A200, 0x40BE2757⟩

def addrB : XBeeAddress64 := ⟨0x0013A200, 0x40BE2758⟩

/-- A package of two fragments for the first device, up to the first of them. -/
def firstSent : List Event :=
  [.received addrA [], .updateIp addrA (ascii "A"), .package (ascii "A") 120] ++
    List.replicate 4 (.manager 0)

/-- The fragment succeeds, and the next one is due. -/
def fragmentSucceeds : List Event :=
  firstSent ++ [.txStatus 0 SUCCESS] ++ List.replicate 3 (.manager 0)

/-- A newcomer gets its reply, the reply succeeds before the fragment does, and the next
fragment is due. -/
def replySucceeds : List Event :=
  firstSent ++ [.received addrB [], .ipReply addrB, .txStatus 1 SUCCESS] ++
    List.replicate 3 (.manager 0)

def firstFragment : Frame := ⟨⟨addrA, 1⟩, some 0⟩

/-- The next fragment is sent while the first is unacknowledged. -/
theorem reply_releases_fragment :
    ¬ ∀ es s, Run Step initState es s → SendsAcknowledged s := by
  intro hall
  have hframes : ((replySucceeds.foldlM step? initState).bind fun s =>
      (step? s (.manager 0)).map fun t => (s.inFlight, t.inFlight)) =
      some ([firstFragment], [firstFragment, firstFragment]) := by
    decide +kernel
  rcases Option.bind_eq_some_iff.mp hframes with ⟨s, hrun, hlast⟩
  rcases Option.map_eq_some_iff.mp hlast with ⟨t, hstep, hboth⟩
  rcases Prod.mk.inj hboth with ⟨hbefore, hafter⟩
  have hsends := hall _ s (Run.of_foldlM (fun _ _ _ => step_of_step?) hrun)
  have hsent : t.inFlight = s.inFlight ++ [firstFragment] := by
    rw [hbefore, hafter]
    rfl
  have hearlier : firstFragment ∈ s.inFlight := by
    rw [hbefore]
    exact List.mem_singleton_self firstFragment
  exact hsends _ t firstFragment 0 (step_of_step? hstep) hsent rfl firstFragment hearlier rfl

/-- The general result where the second fragment is due. -/
theorem sends_acknowledged_second : ∃ s, Run (Meeting Step Undisturbed) initState
    fragmentSucceeds s ∧ AboutToSend s 0 ∧ SendsAcknowledged s := by
  have hdue : ((fragmentSucceeds.foldlM undisturbedStep? initState).any
      fun s => decide (AboutToSend s 0)) = true := by
    decide +kernel
  rcases (Option.any_eq_true ..).mp hdue with ⟨s, hrun, hsend⟩
  have hrun' := Run.of_foldlM (fun _ _ _ => step_of_undisturbedStep?) hrun
  exact ⟨s, hrun', of_decide_eq_true hsend, sends_acknowledged hrun'⟩

end IoTRepublic.Acknowledged
