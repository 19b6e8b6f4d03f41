import IoTRepublic.XBeeLine
import IoTRepublic.XBeeReassembly

/-!
From the serial line to the manager. The listening thread of the XBee broker
calls `readPacket` in a loop: received data go to the buffer of their device and
what is complete there is sent on, and a transmit status makes its device ready
again. The packages of a device come out once each and in order, however they
were cut into frames, the frames into polls, and whatever else is on the line.
-/
namespace IoTRepublic.XBeeUplink

open CheckedArray Package Framing Runs XBeeApiMode XBeeFrames XBeeLine XBeeReassembly
open Manager (MAXRECV)
open Reassembly (SentPackage)
open XBeeBroker (XBeeAddress64 MAXDEVICECOUNT SUCCESS Slot handleTxStatus)

/-- A transmit status, with the table that has the buffers. -/
def markReady (devices : ReceivingDevices) (frameId status : Byte) : Exec ReceivingDevices :=
  if status = SUCCESS then
    if h : 1 ≤ frameId.toNat ∧ frameId.toNat - 1 < MAXDEVICECOUNT then
      let index : Slot := ⟨frameId.toNat - 1, h.2⟩
      .ok (Function.update devices index
        ((devices index).map (fun d => { d with info := { d.info with readyToReceive := 1 } })))
    else .error .readOutside
  else .ok devices

/-- What the loop found in a packet. -/
inductive Heard
  | data (addr : XBeeAddress64) (rawData : List Byte) (extracted : List Extracted)
  | txStatus
  | other

/-- The body of `listen_to_end_device_loop` behind `readPacket`. `ip` and `memory` are what the
memory held that is allocated in it. -/
def handlePacket (fuel : ℕ) (ip : List Byte) (memory : ℕ → IoTPackage) (xbee : XBee) (s : Broker) :
    Exec (Broker × Heard) :=
  if xbee.response.apiId = ZB_RX_RESPONSE then do
    let addr ← ZBRxResponse.getRemoteAddress64 xbee.responseFrameData
    let rawData ← ZBRxResponse.getData xbee
    let (s, extracted) ← handleRxFrame fuel s ⟨addr, rawData, ip, memory⟩
    .ok (s, .data addr rawData extracted)
  else if xbee.response.apiId = ZB_TX_STATUS_RESPONSE then do
    let status ← TxStatusResponse.getStatus xbee.responseFrameData
    let frameId ← TxStatusResponse.getFrameId xbee.responseFrameData
    let devices ← markReady s.devices frameId status
    .ok ({ s with devices := devices }, .txStatus)
  else .ok (s, .other)

/-- Without the buffers, the flags are set as `handleTxStatus` sets them. -/
theorem infos_markReady (devices : ReceivingDevices) (frameId status : Byte) :
    (markReady devices frameId status).map infos = handleTxStatus (infos devices) frameId status := by
  unfold markReady handleTxStatus
  by_cases hstatus : status = SUCCESS
  · rw [if_pos hstatus, if_pos hstatus]
    by_cases hid : 1 ≤ frameId.toNat ∧ frameId.toNat - 1 < MAXDEVICECOUNT
    · rw [dif_pos hid, dif_pos hid]
      refine congrArg Except.ok ?_
      funext i
      by_cases hi : i = ⟨frameId.toNat - 1, hid.2⟩
      · subst hi
        simp only [infos, Function.update_self, Option.map_map]
        rfl
      · simp [infos, hi]
    · rw [dif_neg hid, dif_neg hid]
      rfl
  · rw [if_neg hstatus, if_neg hstatus]
    rfl

/-- The number that `getWord` reads. -/
def wordOf (b₀ b₁ b₂ b₃ : Byte) : UInt32 :=
  (b₀.toUInt32 <<< 24) + (b₁.toUInt32 <<< 16) + (b₂.toUInt32 <<< 8) + b₃.toUInt32

/-- The address in front of the data of a received frame. -/
def addressOf : List Byte → XBeeAddress64
  | b₀ :: b₁ :: b₂ :: b₃ :: b₄ :: b₅ :: b₆ :: b₇ :: _ => ⟨wordOf b₀ b₁ b₂ b₃, wordOf b₄ b₅ b₆ b₇⟩
  | _ => ⟨0, 0⟩

theorem toNat_shiftLeft_toUInt32 (b : Byte) (k : UInt32) (hk : k.toNat ≤ 24) :
    (b.toUInt32 <<< k).toNat = b.toNat * 2 ^ k.toNat := by
  have hb := b.toNat_lt
  have hpow : 2 ^ k.toNat ≤ 2 ^ 24 := Nat.pow_le_pow_right (by decide) hk
  have hmul : b.toNat * 2 ^ k.toNat ≤ 255 * 2 ^ 24 := Nat.mul_le_mul (by omega) hpow
  rw [UInt32.toNat_shiftLeft, UInt8.toNat_toUInt32, Nat.shiftLeft_eq,
    Nat.mod_eq_of_lt (by omega : k.toNat < 32)]
  omega

theorem wordOf_bytes32 (x : UInt32) :
    wordOf (x >>> 24).toUInt8 (x >>> 16).toUInt8 (x >>> 8).toUInt8 x.toUInt8 = x := by
  have hx := x.toNat_lt
  have h24 : UInt32.toNat 24 = 24 := rfl
  have h16 : UInt32.toNat 16 = 16 := rfl
  have h8 : UInt32.toNat 8 = 8 := rfl
  rw [wordOf, ← UInt32.toNat_inj]
  simp only [UInt32.toNat_add, toNat_shiftLeft_toUInt32 _ 24 (by decide),
    toNat_shiftLeft_toUInt32 _ 16 (by decide), toNat_shiftLeft_toUInt32 _ 8 (by decide),
    UInt8.toNat_toUInt32, UInt32.toNat_toUInt8, UInt32.toNat_shiftRight,
    Nat.shiftRight_eq_div_pow, h24, h16, h8, Nat.reducePow, Nat.reduceMod]
  omega

/-- An address that was written is read back. -/
theorem addressOf_bytes (addr : XBeeAddress64) (behind : List Byte) :
    addressOf (bytes32 addr.msb ++ bytes32 addr.lsb ++ behind) = addr := by
  simp only [bytes32, List.cons_append, List.nil_append, addressOf, wordOf_bytes32]

/-- The payload of a frame if it is data from the device. -/
def payloadFrom (addr : XBeeAddress64) (f : ApiFrame) : List Byte :=
  if f.apiId = ZB_RX_RESPONSE ∧ addressOf f.data = addr then f.data.drop 11 else []

/-- What the loop relies on: received data are from one of the devices and not empty, and a
transmit status that reports a success is about a slot of the table. -/
structure Understood (addrs : Finset XBeeAddress64) (f : ApiFrame) : Prop where
  data : f.apiId = ZB_RX_RESPONSE → 12 ≤ f.data.length ∧ addressOf f.data ∈ addrs
  txStatus : f.apiId = ZB_TX_STATUS_RESPONSE → ∃ frameId status, f.data[0]? = some frameId ∧
    f.data[4]? = some status ∧
    (status = SUCCESS → 1 ≤ frameId.toNat ∧ frameId.toNat ≤ MAXDEVICECOUNT)

/-- What the session has seen of a packet. -/
def hear (s : Session) (broker : Broker) : Heard → Session
  | .data addr rawData extracted =>
    { broker := broker
      received := Function.update s.received addr (s.received addr ++ rawData)
      extracted := Function.update s.extracted addr (s.extracted addr ++ extracted) }
  | _ => { s with broker := broker }

section

variable {xbee : XBee} {f : ApiFrame}

theorem getRemoteAddress64_eq (frameData : List Byte) (h : 8 ≤ frameData.length) :
    ZBRxResponse.getRemoteAddress64 frameData = .ok (addressOf frameData) := by
  match frameData, h with
  | b₀ :: b₁ :: b₂ :: b₃ :: b₄ :: b₅ :: b₆ :: b₇ :: rest, _ => rfl

/-- The data of a frame stand in front in the array. -/
theorem frameData_split (h : Represents xbee (.completed f)) :
    ∃ behind, xbee.responseFrameData = f.data ++ behind := by
  cases h with
  | completed _ _ _ _ _ hdata =>
    exact ⟨xbee.responseFrameData.drop f.data.length, by
      rw [← List.take_append_drop f.data.length xbee.responseFrameData, hdata,
        List.drop_left]⟩

theorem addressOf_append {data : List Byte} (h : 8 ≤ data.length) (behind : List Byte) :
    addressOf (data ++ behind) = addressOf data := by
  match data, h with
  | _ :: _ :: _ :: _ :: _ :: _ :: _ :: _ :: _, _ => rfl

/-- Behind the header the payload is read, to its end. -/
theorem getData_eq (h : Represents xbee (.completed f)) (hlength : 12 ≤ f.data.length) :
    ZBRxResponse.getData xbee = .ok (f.data.drop 11) := by
  obtain ⟨behind, hbehind⟩ := frameData_split h
  cases h with
  | completed _ _ hlsb =>
    have hshort := f.short
    have hcount : (ZBRxResponse.getDataLength xbee.response).toNat = f.data.length - 11 := by
      rw [ZBRxResponse.getDataLength, getPacketLength_eq, UInt8.ofNat_toNat,
        UInt8.toNat_sub, UInt8.toNat_sub, hlsb, ZBRxResponse.getDataOffset]
      simp only [UInt8.reduceToNat]
      omega
    have hread := readLoop_append (f.data.take 11) (f.data.drop 11) behind
    rw [List.take_append_drop, List.length_take_of_le (by omega), List.length_drop] at hread
    rw [ZBRxResponse.getData, hcount, hbehind]
    exact hread

theorem readAt_data (h : Represents xbee (.completed f)) {i : ℕ} {b : Byte}
    (hb : f.data[i]? = some b) : readAt xbee.responseFrameData i = .ok b := by
  obtain ⟨behind, hbehind⟩ := frameData_split h
  rw [hbehind]
  refine readAt_natCast _ _ _ ?_
  rw [List.getElem?_append_left (List.getElem?_eq_some_iff.mp hb).1]
  exact hb

end

section

variable {sends : XBeeAddress64 → List SentPackage} {addrs : Finset XBeeAddress64} {s : Session}
  {xbee : XBee} {f : ApiFrame} {fuel : ℕ}

theorem received_hear (s : Session) (broker : Broker) (addr : XBeeAddress64) (rawData : List Byte)
    (extracted : List Extracted) :
    (hear s broker (.data addr rawData extracted)).received =
      Function.update s.received addr (s.received addr ++ rawData) := rfl

/-- A device that is ready again keeps its address and what was received from it. -/
theorem inv_markReady (hinv : Session.Inv sends addrs s) {frameId status : Byte}
    (hid : status = SUCCESS → 1 ≤ frameId.toNat ∧ frameId.toNat ≤ MAXDEVICECOUNT) :
    ∃ devices, markReady s.broker.devices frameId status = .ok devices ∧
      Session.Inv sends addrs { s with broker := { s.broker with devices := devices } } := by
  unfold markReady
  by_cases hstatus : status = SUCCESS
  · have hslot : 1 ≤ frameId.toNat ∧ frameId.toNat - 1 < MAXDEVICECOUNT := by
      have := hid hstatus
      omega
    rw [if_pos hstatus, dif_pos hslot]
    refine ⟨_, rfl, hinv.of_same ?_⟩
    intro i
    by_cases hi : i = ⟨frameId.toNat - 1, hslot.2⟩
    · subst hi
      simp only [Function.update_self, Option.map_map]
      rfl
    · simp only [Function.update_of_ne hi]
  · rw [if_neg hstatus]
    exact ⟨s.broker.devices, rfl, hinv⟩

/-- A packet is handled; its payload is what is received more from its device. -/
theorem handlePacket_eq_ok (hinv : Session.Inv sends addrs s) (hcount : addrs.card ≤ MAXDEVICECOUNT)
    (hsmall : ∀ a ∈ addrs, ∀ m ∈ sends a, m.bytes.length ≤ MAXPACKETSIZE) (hfuel : MAXRECV < fuel)
    (hrep : Represents xbee (.completed f)) (hunderstood : Understood addrs f)
    (hstream : ∀ a, s.received a ++ payloadFrom a f <+: streamOf SentPackage.bytes (sends a))
    (ip : List Byte) (memory : ℕ → IoTPackage) :
    ∃ broker heard, handlePacket fuel ip memory xbee s.broker = .ok (broker, heard) ∧
      Session.Inv sends addrs (hear s broker heard) ∧
      ∀ a, (hear s broker heard).received a = s.received a ++ payloadFrom a f := by
  have hapiId : xbee.response.apiId = f.apiId := by
    cases hrep with
    | completed _ _ _ _ hapiId => exact hapiId
  obtain ⟨behind, hbehind⟩ := frameData_split hrep
  rw [handlePacket, hapiId]
  by_cases hdata : f.apiId = ZB_RX_RESPONSE
  · obtain ⟨hlength, haddr⟩ := hunderstood.data hdata
    have hshort := f.short
    have haddress : ZBRxResponse.getRemoteAddress64 xbee.responseFrameData =
        .ok (addressOf f.data) := by
      rw [hbehind, getRemoteAddress64_eq _ (by rw [List.length_append]; omega),
        addressOf_append (by omega)]
    have hpayload : payloadFrom (addressOf f.data) f = f.data.drop 11 := by
      rw [payloadFrom, if_pos ⟨hdata, rfl⟩]
    have hallowed : s.Allowed sends addrs
        (.frame ⟨addressOf f.data, f.data.drop 11, ip, memory⟩) := by
      refine ⟨haddr, ?_, ?_, ?_⟩
      · rw [List.length_drop]
        omega
      · rw [List.length_drop]
        omega
      · rw [← hpayload]
        exact hstream _
    obtain ⟨broker, extracted, hframe, hinv'⟩ := hinv.frame hcount hsmall hfuel hallowed
    refine ⟨broker, .data (addressOf f.data) (f.data.drop 11) extracted, ?_, hinv', ?_⟩
    · rw [if_pos hdata, haddress, ok_bind, getData_eq hrep hlength, ok_bind, hframe, ok_bind]
    · intro a
      by_cases ha : a = addressOf f.data
      · subst ha
        rw [hpayload, received_hear, Function.update_self]
      · have hnone : payloadFrom a f = [] := by
          rw [payloadFrom, if_neg]
          rintro ⟨-, heq⟩
          exact ha heq.symm
        rw [hnone, received_hear, Function.update_of_ne ha, List.append_nil]
  · have hnone : ∀ a, payloadFrom a f = [] := by
      intro a
      rw [payloadFrom, if_neg]
      rintro ⟨heq, -⟩
      exact hdata heq
    rw [if_neg hdata]
    by_cases hstatus : f.apiId = ZB_TX_STATUS_RESPONSE
    · obtain ⟨frameId, status, hframeId, hread, hid⟩ := hunderstood.txStatus hstatus
      obtain ⟨devices, hmark, hinv'⟩ := inv_markReady hinv hid
      refine ⟨{ s.broker with devices := devices }, .txStatus, ?_, hinv', ?_⟩
      · have hgetStatus : TxStatusResponse.getStatus xbee.responseFrameData = .ok status :=
          readAt_data hrep hread
        have hgetFrameId : TxStatusResponse.getFrameId xbee.responseFrameData = .ok frameId :=
          readAt_data hrep hframeId
        rw [if_pos hstatus, hgetStatus, ok_bind, hgetFrameId, ok_bind, hmark, ok_bind]
      · intro a
        rw [hnone, List.append_nil]
        rfl
    · refine ⟨s.broker, .other, ?_, hinv, ?_⟩
      · rw [if_neg hstatus]
      · intro a
        rw [hnone, List.append_nil]
        rfl

end

/-- The radio, what its port will give, and the broker behind it. -/
structure Uplink where
  xbee : XBee
  polls : List (Option Byte)
  session : Session

/-- A round of the loop, or a registration thread that stores an address. -/
inductive Event
  | round (ip : List Byte) (memory : ℕ → IoTPackage)
  | assignIp (addr : XBeeAddress64) (ip : List Byte)

def isRound : Event → Bool
  | .round _ _ => true
  | .assignIp _ _ => false

namespace Uplink

def serve (fuel : ℕ) (s : Uplink) : Event → Exec Uplink
  | .round ip memory => do
    let (xbee, polls) ← s.xbee.readPacket s.polls
    if xbee.response.isAvailable then do
      let (broker, heard) ← handlePacket fuel ip memory xbee s.session.broker
      .ok ⟨xbee, polls, hear s.session broker heard⟩
    else .ok ⟨xbee, polls, s.session⟩
  | .assignIp addr ip =>
    .ok { s with session := { s.session with broker := assignIp s.session.broker addr ip } }

def Step (fuel : ℕ) (s : Uplink) (e : Event) (t : Uplink) : Prop := serve fuel s e = .ok t

/-- What holds in every state: the frames of the line are those that were handled and those
that the reader will report, and the session has received the payloads of the first. -/
structure Inv (sends : XBeeAddress64 → List SentPackage) (addrs : Finset XBeeAddress64)
    (frames done : List ApiFrame) (phase : Phase) (s : Uplink) : Prop where
  represents : Represents s.xbee phase
  clean : phase.Clean (bytesOf s.polls)
  frames : frames = done ++ phase.reports (bytesOf s.polls)
  session : Session.Inv sends addrs s.session
  received : ∀ a, s.session.received a = done.flatMap (payloadFrom a)

section

variable {sends : XBeeAddress64 → List SentPackage} {addrs : Finset XBeeAddress64}
  {frames done : List ApiFrame} {phase : Phase} {s : Uplink} {fuel : ℕ}

/-- A round uses up a poll, and handles the frame that it completes. -/
theorem Inv.round (h : Inv sends addrs frames done phase s)
    (hcount : addrs.card ≤ MAXDEVICECOUNT)
    (hsmall : ∀ a ∈ addrs, ∀ m ∈ sends a, m.bytes.length ≤ MAXPACKETSIZE) (hfuel : MAXRECV < fuel)
    (hunderstood : ∀ f ∈ frames, Understood addrs f)
    (hstream : ∀ a, frames.flatMap (payloadFrom a) <+: streamOf SentPackage.bytes (sends a))
    (ip : List Byte) (memory : ℕ → IoTPackage) :
    ∃ t done' phase', serve fuel s (.round ip memory) = .ok t ∧
      t.polls.length ≤ s.polls.length - 1 ∧ Inv sends addrs frames done' phase' t := by
  obtain ⟨xbee, polls, phase', hread, hrep, hle, hreports⟩ :=
    readPacket_reports h.represents s.polls
  obtain ⟨hclean, heq⟩ := hreports h.clean
  have hframes := h.frames
  rw [heq] at hframes
  by_cases havailable : xbee.response.isAvailable = true
  · obtain ⟨f, rfl⟩ := hrep.isAvailable.mp havailable
    have hsplit : frames = (done ++ [f]) ++ Phase.reports (.completed f) (bytesOf polls) := by
      rw [hframes, Phase.report, List.append_assoc]
    have hmem : f ∈ frames := by
      rw [hsplit]
      simp
    have hprefix : ∀ a, s.session.received a ++ payloadFrom a f <+:
        streamOf SentPackage.bytes (sends a) := by
      intro a
      have hpart := hstream a
      rw [hsplit, List.flatMap_append, List.flatMap_append, List.flatMap_singleton,
        ← h.received a] at hpart
      exact (List.prefix_append _ _).trans hpart
    obtain ⟨broker, heard, hhandle, hinv, hreceived⟩ := handlePacket_eq_ok h.session hcount hsmall
      hfuel hrep (hunderstood f hmem) hprefix ip memory
    refine ⟨⟨xbee, polls, hear s.session broker heard⟩, done ++ [f], .completed f, ?_, hle, hrep,
      hclean, hsplit, hinv, ?_⟩
    · simp only [serve, hread, ok_bind, if_pos havailable, hhandle]
    · intro a
      rw [hreceived, h.received, List.flatMap_append, List.flatMap_singleton]
  · have hnone : phase'.report = [] := by
      cases phase' with
      | completed f => exact absurd (hrep.isAvailable.mpr ⟨f, rfl⟩) havailable
      | _ => rfl
    rw [hnone, List.nil_append] at hframes
    refine ⟨⟨xbee, polls, s.session⟩, done, phase', ?_, hle, hrep, hclean, hframes, h.session,
      h.received⟩
    simp only [serve, hread, ok_bind, if_neg havailable]

/-- Whatever comes next is handled. -/
theorem Inv.step (h : Inv sends addrs frames done phase s) (hcount : addrs.card ≤ MAXDEVICECOUNT)
    (hsmall : ∀ a ∈ addrs, ∀ m ∈ sends a, m.bytes.length ≤ MAXPACKETSIZE) (hfuel : MAXRECV < fuel)
    (hunderstood : ∀ f ∈ frames, Understood addrs f)
    (hstream : ∀ a, frames.flatMap (payloadFrom a) <+: streamOf SentPackage.bytes (sends a))
    (e : Event) :
    ∃ t done' phase', Step fuel s e t ∧ t.polls.length ≤ s.polls.length - [e].countP isRound ∧
      Inv sends addrs frames done' phase' t := by
  cases e with
  | round ip memory => exact h.round hcount hsmall hfuel hunderstood hstream ip memory
  | assignIp addr ip =>
    exact ⟨_, done, phase, rfl, le_rfl, h.represents, h.clean, h.frames,
      h.session.assignIp addr ip, h.received⟩

end

def init (response : XBeeResponse) (frameData : CharArray MAX_FRAME_DATA_SIZE)
    (sendBuffer : CharArray MAXRECV) (polls : List (Option Byte)) : Uplink where
  xbee := XBee.new response frameData
  polls := polls
  session := Session.init sendBuffer

end Uplink

/-- The line carries the frames of the devices, cut off frames and noise. In every run of the
loop nothing faults, and what was extracted for a device are the packages that have arrived
whole in its frames so far, once each and in order; as many rounds as there are polls handle
every frame of the line. -/
theorem uplink_extracts (sends : XBeeAddress64 → List SentPackage) (addrs : Finset XBeeAddress64)
    (hcount : addrs.card ≤ MAXDEVICECOUNT)
    (hsmall : ∀ a ∈ addrs, ∀ m ∈ sends a, m.bytes.length ≤ MAXPACKETSIZE) (fuel : ℕ)
    (hfuel : MAXRECV < fuel) (segments : List Segment) (hwell : Wellformed false segments)
    (hunderstood : ∀ f ∈ delivered false segments, Understood addrs f)
    (hstream : ∀ a, (delivered false segments).flatMap (payloadFrom a) <+:
      streamOf SentPackage.bytes (sends a))
    (polls : List (Option Byte)) (hbytes : bytesOf polls = segments.flatMap Segment.bytes)
    (response : XBeeResponse) (frameData : CharArray MAX_FRAME_DATA_SIZE)
    (sendBuffer : CharArray MAXRECV) {es : List Event} {s : Uplink}
    (hrun : Run (Uplink.Step fuel) (Uplink.init response frameData sendBuffer polls) es s) :
    (∀ e, ∃ t, Uplink.Step fuel s e t) ∧
    ∃ done, done <+: delivered false segments ∧
      (∀ a, List.Forall₂ Handled
        (arrived SentPackage.bytes (sends a) (done.flatMap (payloadFrom a)).length)
        (s.session.extracted a)) ∧
      (polls.length ≤ es.countP isRound → done = delivered false segments) := by
  have hidle : StandsAt false .idle := rfl
  obtain ⟨hclean, hreports⟩ := reads_segments hwell hidle
  rw [← hbytes] at hclean hreports
  have hinv : s.polls.length ≤ polls.length - es.countP isRound ∧
      ∃ done phase, Uplink.Inv sends addrs (delivered false segments) done phase s := by
    induction hrun with
    | nil =>
      refine ⟨le_rfl, [], .idle, represents_new response frameData, hclean, ?_,
        Session.inv_init sends addrs sendBuffer, fun _ => rfl⟩
      rw [List.nil_append]
      exact hreports.symm
    | snoc _ hstep ih =>
      obtain ⟨hle, done, phase, hinv⟩ := ih
      obtain ⟨t, done', phase', hstep', hle', hinv'⟩ :=
        hinv.step hcount hsmall hfuel hunderstood hstream _
      obtain rfl := Except.ok.inj (hstep.symm.trans hstep')
      rw [List.countP_append]
      exact ⟨by omega, done', phase', hinv'⟩
  obtain ⟨hle, done, phase, hinv⟩ := hinv
  refine ⟨?_, done, ?_, ?_, ?_⟩
  · intro e
    obtain ⟨t, -, -, hstep, -⟩ := hinv.step hcount hsmall hfuel hunderstood hstream e
    exact ⟨t, hstep⟩
  · rw [hinv.frames]
    exact List.prefix_append ..
  · intro a
    rw [← hinv.received a]
    exact hinv.session.extracted a
  · intro hall
    have hnone : s.polls = [] := List.length_eq_zero_iff.mp (by omega)
    have hframes := hinv.frames
    rw [hnone] at hframes
    rw [hframes]
    simp

theorem rxData_length_le (addr : XBeeAddress64) {payload : List Byte} (h : payload.length ≤ 95) :
    (bytes32 addr.msb ++ bytes32 addr.lsb ++ ([0xff, 0xfe, 1] ++ payload)).length ≤ 106 := by
  have hfront : (bytes32 addr.msb ++ bytes32 addr.lsb).length = 8 := rfl
  rw [List.length_append, hfront, List.length_append, List.length_cons, List.length_cons,
    List.length_singleton]
  omega

/-- The frame in which the radio hands over a payload from a device. -/
def rxFrame (addr : XBeeAddress64) (payload : List Byte) (h : payload.length ≤ 95) : ApiFrame where
  apiId := ZB_RX_RESPONSE
  data := bytes32 addr.msb ++ bytes32 addr.lsb ++ ([0xff, 0xfe, 1] ++ payload)
  short := rxData_length_le addr h

theorem payloadFrom_rxFrame (addr a : XBeeAddress64) (payload : List Byte)
    (h : payload.length ≤ 95) :
    payloadFrom a (rxFrame addr payload h) = if addr = a then payload else [] := by
  rw [payloadFrom, rxFrame, addressOf_bytes]
  by_cases ha : addr = a
  · rw [if_pos ⟨rfl, ha⟩, if_pos ha]
    rfl
  · rw [if_neg (fun hboth => ha hboth.2), if_neg ha]

/-- A package of a device in two frames, with a transmit status between them and a frame that is
cut off behind. -/
theorem uplink_extracts_two_frames :
    ∃ (m : SentPackage) (polls : List (Option Byte)) (es : List Event) (s : Uplink),
      m.data = [0, 3, 0] ∧
      Run (Uplink.Step (MAXRECV + 1)) (Uplink.init ⟨0, 0, 0, 0, 0, false, .noError⟩
        (CharArray.zero MAX_FRAME_DATA_SIZE) (CharArray.zero MAXRECV) polls) es s ∧
      List.Forall₂ Handled [m] (s.session.extracted ⟨0, 1⟩) := by
  obtain ⟨m, -, -, hdata⟩ := SentPackage.exists_of (ascii "DEV.0") (ascii "DEV.1") [0, 3, 0]
    ⟨by decide, by decide, by decide⟩ ⟨by decide, by decide, by decide⟩ (by decide)
  have hlength : 12 ≤ m.bytes.length ∧ m.bytes.length ≤ 105 := by
    have hheader := m.isCreated.header_length_le m.sor m.des
    have hthree : m.data.length = 3 := congrArg List.length hdata
    rw [m.bytes_eq.1, m.isCreated.wireBytes_length m.sor m.des]
    omega
  have hstream : streamOf SentPackage.bytes [m] = m.bytes := by simp
  let addr : XBeeAddress64 := ⟨0, 1⟩
  let sends : XBeeAddress64 → List SentPackage := fun a => if addr = a then [m] else []
  have hsmall : ∀ a ∈ ({addr} : Finset XBeeAddress64), ∀ m' ∈ sends a,
      m'.bytes.length ≤ MAXPACKETSIZE := by
    intro a ha m' hm'
    obtain rfl := Finset.mem_singleton.mp ha
    obtain rfl := List.mem_singleton.mp hm'
    exact hlength.2.trans (by decide)
  let first := rxFrame addr (m.bytes.take 10) (by rw [List.length_take]; omega)
  let second := rxFrame addr (m.bytes.drop 10) (by rw [List.length_drop]; omega)
  let status : ApiFrame := ⟨ZB_TX_STATUS_RESPONSE, [1, 0xff, 0xfe, 0, 0, 0], by decide⟩
  let segments : List Segment := [.sent first, .sent status, .sent second,
    .cut 0 status (checksumOf status) 3]
  have hdelivered : delivered false segments = [first, status, second] := by
    simp only [segments, Segment.sent, delivered, right_checksumOf, if_true,
      List.singleton_append]
  have hpayload : ∀ a, (delivered false segments).flatMap (payloadFrom a) =
      if addr = a then m.bytes else [] := by
    intro a
    have hstatus : payloadFrom a status = [] := by
      rw [payloadFrom, if_neg]
      rintro ⟨h, -⟩
      exact absurd h (by decide)
    rw [hdelivered]
    simp only [List.flatMap_cons, List.flatMap_nil, hstatus, first, second, payloadFrom_rxFrame,
      List.nil_append, List.append_nil]
    split
    · exact List.take_append_drop 10 m.bytes
    · rfl
  have hunderstood : ∀ f ∈ delivered false segments, Understood {addr} f := by
    have hrx : ∀ payload (h : payload.length ≤ 95), 1 ≤ payload.length →
        Understood {addr} (rxFrame addr payload h) := by
      intro payload h hpos
      have hother : ZB_RX_RESPONSE ≠ ZB_TX_STATUS_RESPONSE := by decide
      refine ⟨fun _ => ⟨?_, ?_⟩, fun hid => absurd hid hother⟩
      · simpa [rxFrame, bytes32] using hpos
      · rw [rxFrame, addressOf_bytes]
        exact Finset.mem_singleton_self addr
    rw [hdelivered]
    intro f hf
    simp only [List.mem_cons, List.not_mem_nil, or_false] at hf
    rcases hf with rfl | rfl | rfl
    · exact hrx _ _ (by rw [List.length_take]; omega)
    · exact ⟨fun hid => absurd hid (by decide), fun _ => ⟨1, 0, rfl, rfl, by decide⟩⟩
    · exact hrx _ _ (by rw [List.length_drop]; omega)
  let polls := (segments.flatMap Segment.bytes).map some
  have hbytes : bytesOf polls = segments.flatMap Segment.bytes := by simp [bytesOf, polls]
  have hsends : ∀ a, (delivered false segments).flatMap (payloadFrom a) <+:
      streamOf SentPackage.bytes (sends a) := by
    intro a
    rw [hpayload]
    by_cases ha : addr = a
    · simp [sends, ha]
    · simp [sends, ha]
  let start := Uplink.init ⟨0, 0, 0, 0, 0, false, .noError⟩ (CharArray.zero MAX_FRAME_DATA_SIZE)
    (CharArray.zero MAXRECV) polls
  have hcard : ({addr} : Finset XBeeAddress64).card ≤ MAXDEVICECOUNT := by decide
  have hwell : Wellformed false segments := ⟨by decide, trivial⟩
  have huplink : ∀ {es s}, Run (Uplink.Step (MAXRECV + 1)) start es s → _ :=
    fun hrun => uplink_extracts sends {addr} hcard hsmall (MAXRECV + 1)
      (Nat.lt_succ_self _) segments hwell hunderstood hsends polls hbytes _ _ _ hrun
  have hruns : ∀ n, ∃ es s, Run (Uplink.Step (MAXRECV + 1)) start es s ∧
      es.countP isRound = n := by
    intro n
    induction n with
    | zero => exact ⟨[], _, .nil _, rfl⟩
    | succ n ih =>
      obtain ⟨es, s, hrun, hcount⟩ := ih
      obtain ⟨t, hstep⟩ := (huplink hrun).1 (.round [] (fun _ => generateIotPackage))
      refine ⟨es ++ [.round [] (fun _ => generateIotPackage)], t, hrun.snoc hstep, ?_⟩
      rw [List.countP_append, hcount]
      rfl
  obtain ⟨es, s, hrun, hcount⟩ := hruns polls.length
  obtain ⟨-, done, -, hextracted, hall⟩ := huplink hrun
  obtain rfl := hall hcount.ge
  refine ⟨m, polls, es, s, hdata, hrun, ?_⟩
  have hfor := hextracted addr
  rw [hpayload, if_pos rfl] at hfor
  simpa [sends, arrived] using hfor

end IoTRepublic.XBeeUplink
