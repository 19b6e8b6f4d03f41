import IoTRepublic.DeviceRegistration
import IoTRepublic.XBeeUplink

/-!
The API broker at its radio. A call of `recv_response_api_mode` reads the port until a
frame is complete, an error shows or the time is up, and takes from the frame what its
caller waits for. However the bytes are spread over the polls and the frames over the
calls, the texts of the frames from the devices come together as over a plain line, so
the broker receives what it would have received there.
-/
namespace IoTRepublic.XBeeApiCalls

open CheckedArray Package PackageReader Manager SerialFrame XBeeApiMode XBeeFrames XBeeLine
  XBeeUplink

inductive ConnStatus
  | succeed
  | timeout
  | failed
  deriving DecidableEq

abbrev AT_OK : Byte := 0
abbrev SUCCESS : Byte := 0

/-- `readPacket` with a timeout; the number is that of the rounds for which the time is enough. -/
def readPacketWithin : ℕ → XBee → List (Option Byte) → Exec (XBee × List (Option Byte) × Bool)
  | 0, xbee, polls => .ok (xbee, polls, false)
  | n + 1, xbee, polls => do
    let (xbee, polls) ← xbee.readPacket polls
    if xbee.response.isAvailable then .ok (xbee, polls, true)
    else if xbee.response.isError then .ok (xbee, polls, false)
    else readPacketWithin n xbee polls

namespace AtCommandResponse

def getStatus (frameData : List Byte) : Exec Byte := readAt frameData 3

def getValueLength (response : XBeeResponse) : Byte := response.frameLength - 4

end AtCommandResponse

/-- The radio and its port behind a call, and what the caller has. -/
structure Response where
  status : ConnStatus
  xbee : XBee
  polls : List (Option Byte)
  value : List Byte
  len : ℤ

def recvResponseApiMode (expectResponse : Byte) (rounds : ℕ) (xbee : XBee)
    (polls : List (Option Byte)) (value : List Byte) (len : ℤ) : Exec Response := do
  let len := if expectResponse ≠ ZB_TX_STATUS_RESPONSE then 0 else len
  let (xbee, polls, available) ← readPacketWithin rounds xbee polls
  if available then
    if expectResponse = AT_COMMAND_RESPONSE ∧ xbee.response.apiId = AT_COMMAND_RESPONSE then do
      let status ← AtCommandResponse.getStatus xbee.responseFrameData
      if status = AT_OK then
        let valueLength := (AtCommandResponse.getValueLength xbee.response).toNat
        if valueLength > 0 then do
          let value ← copyLoop xbee.responseFrameData valueLength 4 0 value
          .ok ⟨.succeed, xbee, polls, value, valueLength⟩
        else .ok ⟨.succeed, xbee, polls, value, len⟩
      else .ok ⟨.failed, xbee, polls, value, len⟩
    else if expectResponse = ZB_RX_RESPONSE ∧ xbee.response.apiId = ZB_RX_RESPONSE then do
      let dataLength := (ZBRxResponse.getDataLength xbee.response).toNat
      let value ← copyLoop xbee.responseFrameData dataLength ZBRxResponse.getDataOffset.toNat 0
        value
      .ok ⟨.succeed, xbee, polls, value, dataLength⟩
    else if expectResponse = ZB_TX_STATUS_RESPONSE ∧
        xbee.response.apiId = ZB_TX_STATUS_RESPONSE then do
      let status ← TxStatusResponse.getStatus xbee.responseFrameData
      .ok ⟨if status = SUCCESS then .succeed else .failed, xbee, polls, value, len⟩
    else .ok ⟨.failed, xbee, polls, value, len⟩
  else .ok ⟨.timeout, xbee, polls, value, len⟩

/-- `recv_command_from_api_end_device`. There is a number for each call until the time is out. -/
def recvLoop (buf : List Byte) (len : ℤ) : List ℕ → XBee → List (Option Byte) → List Byte →
    List Byte → ℤ → Bool → Exec (Received × XBee × List (Option Byte))
  | [], xbee, polls, _, _, _, _ => .ok (⟨.timeout, buf, len⟩, xbee, polls)
  | rounds :: calls, xbee, polls, recvBuf, tempBuf, offset, startRecv => do
    let r ← recvResponseApiMode ZB_RX_RESPONSE rounds xbee polls recvBuf 0
    if r.len > 0 then do
      let tempBuf ← charcat tempBuf r.value offset r.len
      let first ← readAt tempBuf 0
      let startRecv := startRecv || first == startCode
      let endRecv ← if startRecv then scanEnd tempBuf r.len.toNat offset else .ok 0
      if endRecv > 0 then do
        let buf ← copyLoop tempBuf (endRecv - 1).toNat 1 0 buf
        .ok (⟨.completed, buf, endRecv - 1⟩, r.xbee, r.polls)
      else recvLoop buf len calls r.xbee r.polls r.value tempBuf (offset + r.len) startRecv
    else recvLoop buf len calls r.xbee r.polls r.value tempBuf offset startRecv

/-- Behind a command that was sent: the status of the sending, and the answer. -/
def recvAnswer (rounds : ℕ) (calls : List ℕ) (xbee : XBee) (polls : List (Option Byte))
    (buf : List Byte) (len : ℤ) : Exec (Received × XBee × List (Option Byte)) := do
  let r ← recvResponseApiMode ZB_TX_STATUS_RESPONSE rounds xbee polls [] 0
  recvLoop buf len calls r.xbee r.polls (List.replicate MAXRECVBUFFER 0)
    (List.replicate MAXRECVBUFFER 0) 0 false

/-- The radio behind a call: it has used up polls, and what was to be reported is the frame found,
if one was found, and what is still to be reported. -/
structure Moves (phase : Phase) (polls : List (Option Byte)) (rounds : ℕ) (found : Option ApiFrame)
    (xbee' : XBee) (polls' : List (Option Byte)) (phase' : Phase) : Prop where
  represents : Represents xbee' phase'
  clean : phase'.Clean (bytesOf polls')
  le : polls'.length ≤ polls.length
  less : 0 < rounds → polls'.length ≤ polls.length - 1
  reports : phase.reports (bytesOf polls) = found.toList ++ phase'.reports (bytesOf polls')

section

variable {xbee : XBee} {phase : Phase}

theorem exists_readPacketWithin (h : Represents xbee phase) (rounds : ℕ)
    {polls : List (Option Byte)} (hclean : phase.Clean (bytesOf polls)) :
    ∃ xbee' polls' phase' found, readPacketWithin rounds xbee polls =
        .ok (xbee', polls', Option.isSome found) ∧
      Moves phase polls rounds found xbee' polls' phase' ∧
      ∀ f, found = some f → phase' = .completed f := by
  induction rounds generalizing xbee phase polls with
  | zero =>
    refine ⟨xbee, polls, phase, none, rfl, ⟨h, hclean, le_rfl, ?_, rfl⟩, ?_⟩
    · intro hpos
      exact absurd hpos (Nat.lt_irrefl 0)
    · intro f hf
      cases hf
  | succ n ih =>
    obtain ⟨xbee₁, polls₁, phase₁, hread, hrep, hle, hreports⟩ := readPacket_reports h polls
    obtain ⟨hclean₁, heq⟩ := hreports hclean
    have hless : polls₁.length ≤ polls.length := hle.trans (Nat.sub_le _ _)
    rw [readPacketWithin, hread, ok_bind]
    dsimp only
    by_cases havailable : xbee₁.response.isAvailable = true
    · obtain ⟨f, rfl⟩ := hrep.isAvailable.mp havailable
      rw [if_pos havailable]
      refine ⟨xbee₁, polls₁, .completed f, some f, rfl,
        ⟨hrep, hclean₁, hless, fun _ => hle, heq⟩, ?_⟩
      intro g hg
      rw [Option.some.inj hg]
    · have hnone : phase₁.report = [] := by
        cases phase₁ with
        | completed f => exact absurd (hrep.isAvailable.mpr ⟨f, rfl⟩) havailable
        | _ => rfl
      rw [hnone, List.nil_append] at heq
      rw [if_neg havailable]
      by_cases herror : xbee₁.response.isError = true
      · rw [if_pos herror]
        refine ⟨xbee₁, polls₁, phase₁, none, rfl, ⟨hrep, hclean₁, hless, fun _ => hle, heq⟩, ?_⟩
        intro f hf
        cases hf
      · rw [if_neg herror]
        obtain ⟨xbee', polls', phase', found, hwithin, hmoves, hfound⟩ := ih hrep hclean₁
        exact ⟨xbee', polls', phase', found, hwithin, ⟨hmoves.represents, hmoves.clean,
          hmoves.le.trans hless, fun _ => hmoves.le.trans hle, heq.trans hmoves.reports⟩, hfound⟩

end

/-- What a frame answers to a caller that waits for such a response. -/
def answerOf (expectResponse : Byte) (f : ApiFrame) : Option (List Byte) :=
  if f.apiId ≠ expectResponse then none
  else if expectResponse = AT_COMMAND_RESPONSE then
    if f.data[3]? = some AT_OK then some (f.data.drop 4) else none
  else if expectResponse = ZB_RX_RESPONSE then some (f.data.drop 11)
  else if expectResponse = ZB_TX_STATUS_RESPONSE ∧ f.data[4]? = some SUCCESS then some []
  else none

def statusOf (expectResponse : Byte) : Option ApiFrame → ConnStatus
  | none => .timeout
  | some f => if (answerOf expectResponse f).isSome then .succeed else .failed

def textOf (expectResponse : Byte) (found : Option ApiFrame) : List Byte :=
  (found.bind (answerOf expectResponse)).getD []

/-- A frame has all of its header. -/
structure Headed (f : ApiFrame) : Prop where
  command : f.apiId = AT_COMMAND_RESPONSE → 4 ≤ f.data.length
  data : f.apiId = ZB_RX_RESPONSE → 11 ≤ f.data.length
  txStatus : f.apiId = ZB_TX_STATUS_RESPONSE → 5 ≤ f.data.length

section

variable {xbee : XBee} {phase : Phase} {f : ApiFrame} {value : List Byte}

theorem apiId_completed (h : Represents xbee (.completed f)) : xbee.response.apiId = f.apiId := by
  cases h with
  | completed _ _ _ _ hapiId => exact hapiId

theorem getDataLength_eq (h : Represents xbee (.completed f)) (hlength : 11 ≤ f.data.length) :
    (ZBRxResponse.getDataLength xbee.response).toNat = f.data.length - 11 := by
  have hshort := f.short
  cases h with
  | completed _ _ hlsb =>
    rw [ZBRxResponse.getDataLength, getPacketLength_eq, UInt8.ofNat_toNat, UInt8.toNat_sub,
      UInt8.toNat_sub, hlsb, ZBRxResponse.getDataOffset]
    simp only [UInt8.reduceToNat]
    omega

theorem getValueLength_eq (h : Represents xbee (.completed f)) (hlength : 4 ≤ f.data.length) :
    (AtCommandResponse.getValueLength xbee.response).toNat = f.data.length - 4 := by
  have hshort := f.short
  cases h with
  | completed _ _ _ hframe =>
    rw [AtCommandResponse.getValueLength, UInt8.toNat_sub, hframe]
    simp only [UInt8.reduceToNat]
    omega

/-- What stands behind the header is copied to the front of the array. -/
theorem copyLoop_data (h : Represents xbee (.completed f)) {header : ℕ}
    (hlength : header ≤ f.data.length) (hroom : (f.data.drop header).length ≤ value.length) :
    copyLoop xbee.responseFrameData (f.data.length - header) header 0 value =
      .ok (f.data.drop header ++ value.drop (f.data.drop header).length) := by
  obtain ⟨behind, hbehind⟩ := frameData_split h
  rw [List.length_drop] at hroom
  have hcopy := copyLoop_eq xbee.responseFrameData (f.data.length - header) header 0 value (by
    rw [hbehind, List.length_append]
    omega) (by omega)
  have hblock : (xbee.responseFrameData.drop header).take (f.data.length - header) =
      f.data.drop header := by
    rw [hbehind, List.drop_append_of_le_length hlength, ← List.length_drop, List.take_left]
  rw [hblock, splice_zero] at hcopy
  exact hcopy

/-- The copied text, and what the array held behind it. -/
structure Holds (value : List Byte) (text : List Byte) (value' : List Byte) : Prop where
  front : text <+: value'
  length : value'.length = value.length

theorem holds_copied {text : List Byte} (hroom : text.length ≤ value.length) :
    Holds value text (text ++ value.drop text.length) where
  front := List.prefix_append ..
  length := by
    rw [List.length_append, List.length_drop]
    omega

theorem holds_nothing (value : List Byte) : Holds value [] value := ⟨List.nil_prefix, rfl⟩

/-- What the caller has behind a call. -/
structure Answers (expectResponse : Byte) (found : Option ApiFrame) (value : List Byte)
    (r : Response) : Prop where
  status : r.status = statusOf expectResponse found
  holds : Holds value (textOf expectResponse found) r.value
  len : expectResponse ≠ ZB_TX_STATUS_RESPONSE → r.len = (textOf expectResponse found).length

theorem answers_none {expectResponse : Byte} {r : Response}
    (hanswer : answerOf expectResponse f = none) (hstatus : r.status = .failed)
    (hvalue : r.value = value) (hlen : expectResponse ≠ ZB_TX_STATUS_RESPONSE → r.len = 0) :
    Answers expectResponse (some f) value r where
  status := by rw [hstatus, statusOf, hanswer]; rfl
  holds := by
    rw [textOf, Option.bind_some, hanswer, hvalue]
    exact holds_nothing value
  len := by
    rw [textOf, Option.bind_some, hanswer]
    exact hlen

theorem answers_some {expectResponse : Byte} {r : Response} {text : List Byte}
    (hanswer : answerOf expectResponse f = some text) (hstatus : r.status = .succeed)
    (hvalue : Holds value text r.value)
    (hlen : expectResponse ≠ ZB_TX_STATUS_RESPONSE → r.len = text.length) :
    Answers expectResponse (some f) value r where
  status := by rw [hstatus, statusOf, hanswer]; rfl
  holds := by rwa [textOf, Option.bind_some, hanswer]
  len := by rwa [textOf, Option.bind_some, hanswer]

/-- The answer of a frame that was found. -/
theorem exists_answer (h : Represents xbee (.completed f)) (hheaded : Headed f)
    {expectResponse : Byte} {rounds : ℕ} {xbee₀ : XBee} {polls polls' : List (Option Byte)}
    (hread : readPacketWithin rounds xbee₀ polls = .ok (xbee, polls', true))
    (hroom : ∀ text, answerOf expectResponse f = some text → text.length ≤ value.length)
    (len : ℤ) :
    ∃ r, recvResponseApiMode expectResponse rounds xbee₀ polls value len = .ok r ∧
      r.xbee = xbee ∧ r.polls = polls' ∧ Answers expectResponse (some f) value r := by
  have hlen : ∀ n : ℤ, expectResponse ≠ ZB_TX_STATUS_RESPONSE →
      (if expectResponse ≠ ZB_TX_STATUS_RESPONSE then (0 : ℤ) else n) = 0 := fun _ hne => if_pos hne
  have hbyte : ∀ i (hi : i < f.data.length), readAt xbee.responseFrameData i = .ok f.data[i] :=
    fun i hi => readAt_data h (List.getElem?_eq_getElem hi)
  rw [recvResponseApiMode, hread, ok_bind]
  dsimp only
  rw [if_pos rfl, apiId_completed h]
  by_cases hsame : f.apiId = expectResponse
  swap
  · have hnot : ∀ id, ¬ (expectResponse = id ∧ f.apiId = id) := by
      rintro id ⟨hexpect, hid⟩
      exact hsame (hid.trans hexpect.symm)
    rw [if_neg (hnot _), if_neg (hnot _), if_neg (hnot _)]
    exact ⟨_, rfl, rfl, rfl, answers_none (if_pos hsame) rfl rfl (hlen len)⟩
  subst hsame
  by_cases hcommand : f.apiId = AT_COMMAND_RESPONSE
  · have hlength := hheaded.command hcommand
    have hother : AT_COMMAND_RESPONSE ≠ ZB_TX_STATUS_RESPONSE := by decide
    have hanswer : answerOf f.apiId f =
        if f.data[3]? = some AT_OK then some (f.data.drop 4) else none := by
      rw [answerOf, if_neg (not_not_intro rfl), if_pos hcommand]
    have hstatus : AtCommandResponse.getStatus xbee.responseFrameData = .ok f.data[3] :=
      hbyte 3 hlength
    rw [List.getElem?_eq_getElem hlength] at hanswer
    rw [if_pos ⟨hcommand, hcommand⟩, hstatus, ok_bind]
    by_cases hok : f.data[3] = AT_OK
    · rw [if_pos (congrArg some hok)] at hanswer
      rw [if_pos hok, getValueLength_eq h hlength]
      by_cases hpos : f.data.length - 4 > 0
      · have hcopy := copyLoop_data h hlength (hroom _ hanswer)
        rw [if_pos hpos]
        refine ⟨_, bind_eq_ok.mpr ⟨_, hcopy, rfl⟩, rfl, rfl, answers_some hanswer rfl
          (holds_copied (hroom _ hanswer)) fun _ => ?_⟩
        rw [List.length_drop]
      · have hempty : f.data.drop 4 = [] := List.drop_eq_nil_of_le (by omega)
        rw [hempty] at hanswer
        rw [if_neg hpos]
        exact ⟨_, rfl, rfl, rfl, answers_some hanswer rfl (holds_nothing value) (hlen len)⟩
    · rw [if_neg (fun hsome => hok (Option.some.inj hsome))] at hanswer
      rw [if_neg hok]
      exact ⟨_, rfl, rfl, rfl, answers_none hanswer rfl rfl (hlen len)⟩
  rw [if_neg (fun hboth => hcommand hboth.1)]
  by_cases hdata : f.apiId = ZB_RX_RESPONSE
  · have hlength := hheaded.data hdata
    have hanswer : answerOf f.apiId f = some (f.data.drop 11) := by
      rw [answerOf, if_neg (not_not_intro rfl), if_neg hcommand, if_pos hdata]
    have hcopy := copyLoop_data h hlength (hroom _ hanswer)
    rw [if_pos ⟨hdata, hdata⟩, getDataLength_eq h hlength]
    refine ⟨_, bind_eq_ok.mpr ⟨_, hcopy, rfl⟩, rfl, rfl, answers_some hanswer rfl
      (holds_copied (hroom _ hanswer)) fun _ => ?_⟩
    rw [List.length_drop]
  rw [if_neg (fun hboth => hdata hboth.1)]
  by_cases htx : f.apiId = ZB_TX_STATUS_RESPONSE
  · have hlength := hheaded.txStatus htx
    have hanswer : answerOf f.apiId f = if f.data[4]? = some SUCCESS then some [] else none := by
      rw [answerOf, if_neg (not_not_intro rfl), if_neg hcommand, if_neg hdata]
      simp only [htx, true_and]
    have hstatus : TxStatusResponse.getStatus xbee.responseFrameData = .ok f.data[4] :=
      hbyte 4 hlength
    rw [List.getElem?_eq_getElem hlength] at hanswer
    rw [if_pos ⟨htx, htx⟩, hstatus, ok_bind]
    by_cases hok : f.data[4] = SUCCESS
    · rw [if_pos (congrArg some hok)] at hanswer
      exact ⟨_, rfl, rfl, rfl, answers_some hanswer (if_pos hok) (holds_nothing value)
        fun hne => absurd htx hne⟩
    · rw [if_neg (fun hsome => hok (Option.some.inj hsome))] at hanswer
      exact ⟨_, rfl, rfl, rfl, answers_none hanswer (if_neg hok) rfl fun hne => absurd htx hne⟩
  · have hanswer : answerOf f.apiId f = none := by
      rw [answerOf, if_neg (not_not_intro rfl), if_neg hcommand, if_neg hdata,
        if_neg (fun hboth => htx hboth.1)]
    rw [if_neg (fun hboth => htx hboth.1)]
    exact ⟨_, rfl, rfl, rfl, answers_none hanswer rfl rfl (hlen len)⟩

/-- A call moves the radio and answers with the frame that it finds. -/
theorem exists_call (h : Represents xbee phase) (expectResponse : Byte) (rounds : ℕ)
    {polls : List (Option Byte)} (value : List Byte) (len : ℤ)
    (hclean : phase.Clean (bytesOf polls))
    (hheaded : ∀ f ∈ phase.reports (bytesOf polls), Headed f)
    (hroom : ∀ f ∈ phase.reports (bytesOf polls), ∀ text, answerOf expectResponse f = some text →
      text.length ≤ value.length) :
    ∃ r phase' found, recvResponseApiMode expectResponse rounds xbee polls value len = .ok r ∧
      Moves phase polls rounds found r.xbee r.polls phase' ∧
      Answers expectResponse found value r := by
  obtain ⟨xbee', polls', phase', found, hread, hmoves, hfound⟩ :=
    exists_readPacketWithin h rounds hclean
  cases found with
  | none =>
    rw [recvResponseApiMode, hread, ok_bind]
    exact ⟨_, phase', none, rfl, hmoves, rfl, holds_nothing value, fun hne => if_pos hne⟩
  | some f =>
    obtain rfl := hfound f rfl
    have hmem : f ∈ phase.reports (bytesOf polls) := by
      rw [hmoves.reports]
      exact List.mem_append_left _ List.mem_cons_self
    obtain ⟨r, hr, rfl, rfl, hanswers⟩ := exists_answer hmoves.represents (hheaded f hmem)
      hread (hroom f hmem) len
    exact ⟨r, _, some f, hr, hmoves, hanswers⟩

end

/-- The text that a frame brings from a device. -/
def payload (f : ApiFrame) : List Byte := (answerOf ZB_RX_RESPONSE f).getD []

theorem textOf_rx (found : Option ApiFrame) :
    textOf ZB_RX_RESPONSE found = found.toList.flatMap payload := by
  cases found with
  | none => rfl
  | some f => rw [Option.toList_some, List.flatMap_singleton, payload, textOf, Option.bind_some]

theorem length_answerOf_rx {f : ApiFrame} {text : List Byte}
    (h : answerOf ZB_RX_RESPONSE f = some text) : text.length ≤ 95 := by
  have hone : ZB_RX_RESPONSE ≠ AT_COMMAND_RESPONSE := by decide
  have hshort := f.short
  rw [answerOf, if_neg hone, if_pos rfl] at h
  split at h
  · cases h
  · obtain rfl := Option.some.inj h
    rw [List.length_drop]
    omega

/-- What stands behind the copied bytes makes no difference. -/
theorem charcat_append (tempBuf piece behind : List Byte) (offset : ℤ) :
    charcat tempBuf (piece ++ behind) offset piece.length =
      charcat tempBuf piece offset piece.length := by
  rw [charcat, charcat]
  refine copyLoop_congr fun k hk hlt => ?_
  rw [Int.toNat_natCast, Int.zero_add] at hlt
  have hsame := readAt_append_left piece [] behind hlt
  rwa [List.append_nil] at hsame

section

variable {xbee : XBee} {phase : Phase}

/-- The broker receives over the frames what it would receive over a line that gives their texts:
some of them in front, and all of them if there are calls enough. -/
theorem exists_pieces (h : Represents xbee phase) (calls : List ℕ) {polls : List (Option Byte)}
    {recvBuf : List Byte} (hrecvBuf : recvBuf.length = MAXRECVBUFFER)
    (hclean : phase.Clean (bytesOf polls))
    (hheaded : ∀ f ∈ phase.reports (bytesOf polls), Headed f) :
    ∃ pieces, pieces.flatten <+: (phase.reports (bytesOf polls)).flatMap payload ∧
      (polls.length ≤ calls.length → (∀ rounds ∈ calls, 0 < rounds) →
        pieces.flatten = (phase.reports (bytesOf polls)).flatMap payload) ∧
      ∀ buf len tempBuf offset startRecv,
        Prod.fst <$> recvLoop buf len calls xbee polls recvBuf tempBuf offset startRecv =
          SerialFrame.recvLoop buf len pieces tempBuf offset startRecv := by
  induction calls generalizing xbee phase polls recvBuf with
  | nil =>
    refine ⟨[], List.nil_prefix, ?_, fun _ _ _ _ _ => rfl⟩
    intro hnone _
    obtain rfl : polls = [] := List.length_eq_zero_iff.mp (Nat.le_zero.mp hnone)
    rfl
  | cons rounds calls ih =>
    have hmax : MAXRECVBUFFER = 1000 := rfl
    obtain ⟨r, phase', found, hcall, hmoves, hanswers⟩ := exists_call h ZB_RX_RESPONSE rounds
      recvBuf 0 hclean hheaded fun f _ text htext => by
        have := length_answerOf_rx htext
        omega
    have hlen := hanswers.len (by decide)
    obtain ⟨behind, hbehind⟩ := hanswers.holds.front
    rw [textOf_rx] at hlen hbehind
    have hheaded' : ∀ f ∈ phase'.reports (bytesOf r.polls), Headed f := by
      intro f hf
      refine hheaded f ?_
      rw [hmoves.reports]
      exact List.mem_append_right _ hf
    obtain ⟨pieces, hprefix, hall, hloop⟩ := ih hmoves.represents
      (hanswers.holds.length.trans hrecvBuf) hmoves.clean hheaded'
    rw [hmoves.reports, List.flatMap_append]
    refine ⟨found.toList.flatMap payload :: pieces, ?_, ?_, ?_⟩
    · rw [List.flatten_cons]
      exact (List.prefix_append_right_inj _).mpr hprefix
    · intro henough hpos
      have hfirst := hmoves.less (hpos rounds List.mem_cons_self)
      rw [List.length_cons] at henough
      rw [List.flatten_cons, hall (by omega) (fun n hn => hpos n (List.mem_cons_of_mem _ hn))]
    · intro buf len tempBuf offset startRecv
      rw [recvLoop, hcall, ok_bind, SerialFrame.recvLoop]
      by_cases hempty : found.toList.flatMap payload = []
      · have hzero : ¬ r.len > 0 := by
          rw [hlen, hempty, List.length_nil]
          decide
        rw [if_pos hempty, if_neg hzero]
        exact hloop buf len tempBuf offset startRecv
      · have hpos : r.len > 0 := by
          have := List.length_pos_iff.mpr hempty
          omega
        have hstore : charcat tempBuf r.value offset r.len = charcat tempBuf
            (found.toList.flatMap payload) offset (found.toList.flatMap payload).length := by
          rw [← hbehind, hlen, charcat_append]
        rw [if_neg hempty, if_pos hpos, hstore, hlen, Int.toNat_natCast]
        simp only [map_bind]
        refine bind_congr fun tempBuf => bind_congr fun first => ?_
        by_cases hstart : (startRecv || first == startCode) = true
        · rw [if_pos hstart, if_pos hstart, map_bind]
          refine bind_congr fun endRecv => ?_
          by_cases hend : endRecv > 0
          · rw [if_pos hend, if_pos hend, map_bind]
            rfl
          · rw [if_neg hend, if_neg hend]
            exact hloop buf len tempBuf _ _
        · rw [if_neg hstart, if_neg hstart, ok_bind, ok_bind, if_neg (lt_irrefl 0),
            if_neg (lt_irrefl 0)]
          exact hloop buf len tempBuf _ _

theorem length_answerOf_txStatus {f : ApiFrame} {text : List Byte}
    (h : answerOf ZB_TX_STATUS_RESPONSE f = some text) : text = [] := by
  have hcommand : ZB_TX_STATUS_RESPONSE ≠ AT_COMMAND_RESPONSE := by decide
  have hdata : ZB_TX_STATUS_RESPONSE ≠ ZB_RX_RESPONSE := by decide
  rw [answerOf, if_neg hcommand, if_neg hdata] at h
  split at h
  · cases h
  · split at h
    · exact (Option.some.inj h).symm
    · cases h

theorem payload_of_ne {f : ApiFrame} (h : f.apiId ≠ ZB_RX_RESPONSE) : payload f = [] := by
  rw [payload, answerOf, if_pos h]
  rfl

end

/-- The registration at the API broker, with the radio and its port behind the command. -/
def apiDevRegisterOver (rounds : ℕ) (calls : List ℕ) (xbee : XBee) (polls : List (Option Byte))
    (devices : DeviceRegistration.DevTable XBeeBroker.XBeeAddress64)
    (addr : XBeeBroker.XBeeAddress64) (ip : IoTIp) (pieces : List (List Byte)) :
    Exec (DeviceRegistration.Registering XBeeBroker.XBeeAddress64) :=
  DeviceRegistration.devRegister
    (fun _ buf len => Prod.fst <$> recvAnswer rounds calls xbee polls buf len) devices addr ip
    pieces [[]]

/-- From between two frames: whatever noise without a start byte, wrong sums and frames cut off are
between the frames, however the bytes are spread over the polls and the polls over the calls, if
the first frame that is delivered is no text, the broker receives as from a line that gives the
texts of the others. No text is lost if there are calls enough. The registration of a device is
the one over that line. -/
theorem answers_over_frames {xbee : XBee} {phase : Phase} (h : Represents xbee phase)
    (hat : StandsAt false phase) {segments : List Segment} (hwell : Wellformed false segments)
    {first : ApiFrame} {frames : List ApiFrame}
    (hdelivered : delivered false segments = first :: frames)
    (hfirst : first.apiId ≠ ZB_RX_RESPONSE) (hheaded : ∀ f ∈ first :: frames, Headed f)
    {polls : List (Option Byte)} (hbytes : bytesOf polls = segments.flatMap Segment.bytes)
    (rounds : ℕ) (calls : List ℕ) :
    ∃ packets : List (List Byte), packets.flatten <+: frames.flatMap payload ∧
      (polls.length ≤ calls.length → (∀ n ∈ calls, 0 < n) →
        packets.flatten = frames.flatMap payload) ∧
      (∀ buf len, Prod.fst <$> recvAnswer rounds calls xbee polls buf len =
        ReadRequest.recvCommandFromApiEndDevice packets buf len) ∧
      ∀ devices addr ip pieces status,
        apiDevRegisterOver rounds calls xbee polls devices addr ip pieces =
          DeviceRegistration.xbeeApiDevRegister devices addr ip pieces (status :: packets) := by
  obtain ⟨hclean, hreports⟩ := reads_segments hwell hat
  rw [← hbytes] at hclean hreports
  rw [hdelivered] at hreports
  have hall : ∀ f ∈ phase.reports (bytesOf polls), Headed f := hreports ▸ hheaded
  obtain ⟨r, phase', found, hcall, hmoves, -⟩ := exists_call h ZB_TX_STATUS_RESPONSE rounds [] 0
    hclean hall fun f _ text htext => (length_answerOf_txStatus htext ▸ le_rfl)
  have hrest : (phase'.reports (bytesOf r.polls)).flatMap payload = frames.flatMap payload ∧
      ∀ f ∈ phase'.reports (bytesOf r.polls), Headed f := by
    have hsplit := hreports.symm.trans hmoves.reports
    cases found with
    | none =>
      rw [Option.toList_none, List.nil_append] at hsplit
      rw [← hsplit, List.flatMap_cons, payload_of_ne hfirst, List.nil_append]
      exact ⟨rfl, hheaded⟩
    | some f =>
      rw [Option.toList_some, List.singleton_append] at hsplit
      rw [← (List.cons.inj hsplit).2]
      exact ⟨rfl, fun f hf => hheaded f (List.mem_cons_of_mem _ hf)⟩
  obtain ⟨packets, hprefix, hwhole, hloop⟩ := exists_pieces hmoves.represents calls
    List.length_replicate hmoves.clean hrest.2
  rw [hrest.1] at hprefix hwhole
  have hanswer : ∀ buf len, Prod.fst <$> recvAnswer rounds calls xbee polls buf len =
      ReadRequest.recvCommandFromApiEndDevice packets buf len := by
    intro buf len
    rw [recvAnswer, hcall, ok_bind]
    exact hloop buf len _ 0 false
  refine ⟨packets, hprefix, fun henough => hwhole (hmoves.le.trans henough), hanswer, ?_⟩
  intro devices addr ip pieces status
  simp only [apiDevRegisterOver, DeviceRegistration.xbeeApiDevRegister,
    DeviceRegistration.devRegister, DeviceRegistration.describe, hanswer, List.tail_cons]

theorem statusData_short : ([1, 0xff, 0xfe, 0, 0, 0] : List Byte).length ≤ 106 := by decide

theorem front_short : (startCode :: ascii "21").length ≤ 95 := by decide

theorem back_short : (ascii ".5" ++ [endCode]).length ≤ 95 := by decide

def statusFrame : ApiFrame := ⟨ZB_TX_STATUS_RESPONSE, [1, 0xff, 0xfe, 0, 0, 0], statusData_short⟩

def frontFrame : ApiFrame := rxFrame ⟨0, 1⟩ (startCode :: ascii "21") front_short

def backFrame : ApiFrame := rxFrame ⟨0, 1⟩ (ascii ".5" ++ [endCode]) back_short

/-- A text in two frames behind the status, with noise and a frame that is cut off between. -/
def temperatureSegments : List Segment :=
  [.sent statusFrame, .noise [ESCAPE], .cut 0 statusFrame 0 4, .sent statusFrame, .sent frontFrame,
    .sent backFrame]

theorem answers_over_frames_two :
    ∃ polls : List (Option Byte),
      Prod.fst <$> recvAnswer 100 (List.replicate polls.length 1) XBee.global polls
          (List.replicate 10 0) 0 =
        .ok ⟨.completed, ascii "21.5" ++ List.replicate 6 0, 4⟩ := by
  obtain ⟨polls, hbytes⟩ : ∃ polls : List (Option Byte),
      bytesOf polls = temperatureSegments.flatMap Segment.bytes :=
    ⟨(temperatureSegments.flatMap Segment.bytes).map some, by simp [bytesOf]⟩
  have hdelivered : delivered false temperatureSegments =
      [statusFrame, frontFrame, backFrame] := by decide
  have hheaded : ∀ f ∈ [statusFrame, frontFrame, backFrame], Headed f := by
    simp only [List.forall_mem_cons]
    refine ⟨⟨by decide, by decide, by decide⟩, ⟨by decide, by decide, by decide⟩,
      ⟨by decide, by decide, by decide⟩, ?_⟩
    intro f hf
    cases hf
  obtain ⟨packets, -, hwhole, hanswer, -⟩ := answers_over_frames (represents_new _ _) rfl
    (by decide : Wellformed false temperatureSegments) hdelivered (by decide) hheaded hbytes 100
    (List.replicate polls.length 1)
  have hframe : packets.flatten = startCode :: ascii "21.5" ++ endCode :: [] :=
    hwhole (List.length_replicate).ge fun n hn => by
      rw [List.eq_of_mem_replicate hn]
      exact Nat.one_pos
  refine ⟨polls, (hanswer _ 0).trans ?_⟩
  refine (recvCommand_eq_ok hframe (by decide) (.inl ?_)).mpr ⟨by decide, by decide⟩
  rw [hframe]
  decide

end IoTRepublic.XBeeApiCalls
