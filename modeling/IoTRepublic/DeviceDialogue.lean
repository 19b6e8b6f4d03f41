import IoTRepublic.BrokerLoop
import IoTRepublic.DeviceDescription
import IoTRepublic.DeviceReassembly

/-!
The device behind a broker. The frame of a command comes in pieces, one for each call
of `ReceivePackage`; the device answers the commands that ask for its presence or its
description, and hands the others to its application, whose answer it sends in a frame.
However the frames are cut on the way, as long as no call runs out of time, the broker
gets the answer of the application to the command that it has sent.
-/
namespace IoTRepublic.DeviceDialogue

open CheckedArray Package Manager SerialFrame DeviceDescription DeviceReceiver DeviceReassembly
  BrokerLoop Framing Runs Command CommandCodec
open Reassembly (SentPackage)
open ReadRequest (Broker Round responseLength maxCmdBufSize)
open CreatedPackage (isAddress_A isAddress_B)

/-- `SendDataToManager`, from the bytes it is given to those it writes. -/
def sendDataToManager (buf : List Byte) (bufLen : ℤ) : Exec (List Byte) := do
  let sendBuf ← writeAt (List.replicate MAX_PACKAGE_SIZE 0) 0 startCode
  let sendBuf ← Manager.charcat sendBuf buf 1 bufLen
  let sendBuf ← writeAt sendBuf (bufLen + 1) endCode
  .ok (sendBuf.take (bufLen + 2).toNat)

/-- `behind` are the cells that follow the array of the sum in the memory of the device. -/
structure Device where
  type : DeviceType
  eeprom : ℕ → Byte
  behind : List Byte

/-- What is written for a reply of the device itself. -/
def replyBytes (d : Device) : Reply → Exec (List Byte)
  | .ack => .ok (ascii "ACK")
  | .description => sendDeviceDescription d.eeprom d.behind
  | .atText => .ok (ascii "AT")

def repliesBytes (d : Device) : List Reply → Exec (List Byte)
  | [] => .ok []
  | reply :: replies => do
    let written ← replyBytes d reply
    let more ← repliesBytes d replies
    .ok (written ++ more)

/-- What an application answers to a command, if it answers. -/
abbrev App := List Byte → Option (List Byte)

/-- A round of the loop of an application: a call of `ReceivePackage`, and the answer. -/
def deviceRound (d : Device) (app : App) (s : Receiver) (call : Call) :
    Exec (Receiver × List Byte) := do
  let (s, completed, replies) ← receivePackage d.type s call
  let written ← repliesBytes d replies
  match completed.bind fun package => app package.command with
  | none => .ok (s, written)
  | some answer => do
    let frame ← sendDataToManager answer answer.length
    .ok (resetRecv s, written ++ frame)

/-- The rounds one after the other, with all that is written. -/
def deviceRounds (d : Device) (app : App) : Receiver → List Call → Exec (Receiver × List Byte)
  | s, [] => .ok (s, [])
  | s, call :: calls => do
    let (s, written) ← deviceRound d app s call
    let (s, more) ← deviceRounds d app s calls
    .ok (s, written ++ more)

/-- What the device itself replies to a command. -/
def ownReplies (command : List Byte) : List Reply :=
  if command = cmdSyn then [.ack] else if command = cmdDes then [.description] else []

/-- What the application answers to a frame; the device keeps its own commands to itself. -/
def said (app : App) (command : List Byte) : Option (List Byte) :=
  if command = cmdSyn ∨ command = cmdDes then none else app command

/-- All that is written for a command. -/
def answerTo (d : Device) (app : App) (command : List Byte) : Exec (List Byte) := do
  let written ← repliesBytes d (ownReplies command)
  .ok (written ++ ((said app command).map frame).getD [])

theorem said_eq_some {app : App} {command answer : List Byte} (h : said app command = some answer) :
    app command = some answer := by
  rw [said] at h
  split at h
  · cases h
  · exact h

theorem sendDataToManager_eq {answer : List Byte} (h : answer.length ≤ 18) :
    sendDataToManager answer answer.length = .ok (frame answer) := by
  have hfirst : writeAt (List.replicate MAX_PACKAGE_SIZE 0) 0 startCode =
      .ok (startCode :: List.replicate 19 0) := rfl
  have hplaced : splice (startCode :: List.replicate 19 0) 1 answer =
      startCode :: (answer ++ 0 :: List.replicate (18 - answer.length) 0) := by
    have hbehind : 19 - answer.length = 18 - answer.length + 1 := by omega
    rw [splice, Nat.add_comm 1, List.take_succ_cons, List.take_zero, List.drop_succ_cons,
      List.drop_replicate, hbehind, List.replicate_succ]
    rfl
  have hstore := copyLoop_eq answer answer.length 0 1 (startCode :: List.replicate 19 0) (by omega)
    (by rw [List.length_cons, List.length_replicate]; omega)
  rw [List.drop_zero, List.take_length, hplaced] at hstore
  have hcopy : copyLoop answer answer.length 0 1 (startCode :: List.replicate 19 0) = _ := hstore
  have hwrite := writeAt_natCast
    (startCode :: (answer ++ 0 :: List.replicate (18 - answer.length) 0)) (answer.length + 1)
    endCode (by simp)
  rw [List.set_cons_succ, List.set_append_right _ _ le_rfl, Nat.sub_self, List.set_cons_zero]
    at hwrite
  have hlast : writeAt (startCode :: (answer ++ 0 :: List.replicate (18 - answer.length) 0))
    ((answer.length : ℤ) + 1) endCode = _ := hwrite
  have hcount : ((answer.length : ℤ) + 2).toNat = (frame answer).length := by
    rw [frame, List.length_cons, List.length_append, List.length_singleton]
    omega
  have hsplit : startCode :: (answer ++ endCode :: List.replicate (18 - answer.length) 0) =
      frame answer ++ List.replicate (18 - answer.length) 0 := by
    rw [frame_append]
  rw [sendDataToManager, hfirst, ok_bind, Manager.charcat, Int.toNat_natCast, hcopy, ok_bind, hlast,
    ok_bind, hcount, hsplit, List.take_left]

section

variable {s : Receiver} {w held available command : List Byte}

/-- The replies of the device itself to a whole frame. -/
theorem getDevPackage_replies {behind : List Byte} (hoffset : s.offset = w.length)
    (hfront : w <+: s.buf.bytes) (hw : w = startCode :: (command ++ endCode :: behind))
    (hcommand : endCode ∉ command) :
    ∃ res s', getDevPackage s = .ok (res, s', ownReplies command) := by
  obtain ⟨content, hcontent, hread⟩ := getDevPackage_frame hoffset hfront hw hcommand
  have hiff : ∀ text : List Byte, text.length = 3 →
      (((command.length : ℤ) = 3 ∧ content.bytes.take 3 = text) ↔ command = text) := by
    intro text htext
    constructor
    · rintro ⟨hthree, htake⟩
      have hlength : command.length = 3 := by omega
      rw [hlength] at hcontent
      exact hcontent.symm.trans htake
    · rintro rfl
      rw [htext] at hcontent
      exact ⟨by rw [htext]; rfl, hcontent⟩
  rw [ownReplies, hread]
  simp only [hiff cmdSyn rfl, hiff cmdDes rfl]
  split
  · exact ⟨_, _, rfl⟩
  · split
    · exact ⟨_, _, rfl⟩
    · exact ⟨_, _, rfl⟩

/-- A frame that has begun is not replied to. -/
theorem getDevPackage_silent {rest : List Byte} (hoffset : s.offset = w.length)
    (hfront : w <+: s.buf.bytes) (hw : w = startCode :: rest) (hno : endCode ∉ rest) :
    getDevPackage s = .ok (.noerror, s, []) := by
  obtain ⟨beyond, hbeyond⟩ := hfront
  have hfirst : readAt s.buf.bytes 0 = .ok startCode := by
    rw [← hbeyond, hw]
    rfl
  have hnone : endCode ∉ w := by
    rw [hw, List.mem_cons, not_or]
    exact ⟨by decide, hno⟩
  have hscan : scanEnd s.buf.bytes s.offset.toNat 0 = .ok 0 := by
    rw [hoffset, Int.toNat_natCast, ← hbeyond]
    exact scanEnd_none [] w beyond hnone
  rw [getDevPackage, hfirst, ok_bind, if_neg (not_not_intro rfl), hscan, ok_bind, if_pos rfl]

/-- The bytes at the port stand behind those that are held. -/
theorem exists_stored (hs : Holds s held) (hne : available ≠ [])
    {r : Receiver × Option DevPackage × List Reply} (h : takeAvailable s available = .ok r) :
    ∃ t res t', t.offset = ((held ++ available).length : ℤ) ∧ held ++ available <+: t.buf.bytes ∧
      getDevPackage t = .ok (res, t', r.2.2) := by
  have hroom := takeAvailable_room hs hne h
  obtain ⟨hoffset, ⟨beyond, hbeyond⟩, -⟩ := hs
  rw [List.length_append] at hroom
  obtain ⟨recvBuf, hread, h⟩ := bind_eq_ok.mp h
  obtain ⟨buf, hstore, h⟩ := bind_eq_ok.mp h
  obtain ⟨⟨res, t', replies⟩, hget, h⟩ := bind_eq_ok.mp h
  obtain ⟨recvBuf', hread', hrecv⟩ := copyInto_block s.recvBuf available (i := 0) (k := 0)
    (n := available.length) (by omega) (by omega)
  obtain rfl := Except.ok.inj (hread.symm.trans hread')
  rw [List.drop_zero, List.take_length, splice_zero] at hrecv
  obtain ⟨buf', hstore', hbuf⟩ := copyInto_block s.buf recvBuf.bytes (i := 0) (k := held.length)
    (n := available.length) (by rw [hrecv, List.length_append]; omega) hroom
  rw [hoffset] at hstore
  obtain rfl := Except.ok.inj (hstore.symm.trans hstore')
  have hreplies : replies = r.2.2 := by
    dsimp only at h
    split at h
    · exact congrArg (fun r => r.2.2) (Except.ok.inj h)
    · exact congrArg (fun r => r.2.2) (Except.ok.inj h)
  refine ⟨_, res, t', ?_, ?_, hreplies ▸ hget⟩
  · dsimp only
    rw [hoffset, List.length_append]
    push_cast
    rfl
  · dsimp only
    rw [hbuf, List.drop_zero, hrecv, List.take_left, ← hbeyond, splice, List.take_left]
    exact List.prefix_append _ _

/-- The clocks have not run out. -/
structure OnTime (call : Call) : Prop where
  wait : call.waitTime ≤ MAX_WAIT_TIME
  blank : call.blankTime ≤ maxBlankTime

theorem watchBlank_silent (type : DeviceType) {blankTime : ℕ} (h : blankTime ≤ maxBlankTime)
    (s : Receiver) : (watchBlank type blankTime s).2 = [] := by
  unfold watchBlank
  split
  · split
    · rfl
    · split
      · rfl
      · rw [if_neg (Nat.not_lt.mpr h)]
  · rfl

/-- The replies of a call are those of the frame. -/
theorem receivePackage_replies {type : DeviceType} {call : Call} {s' : Receiver}
    {completed : Option DevPackage} {replies : List Reply}
    (hcall : receivePackage type s call = .ok (s', completed, replies)) (htime : OnTime call) :
    (call.available = [] → replies = []) ∧ (call.available ≠ [] →
      ∃ t completed', takeAvailable s call.available = .ok (t, completed', replies)) := by
  have hlast : ∀ (t : Receiver) (before : List Reply), before ++ (watchBlank type call.blankTime
      (if t.startReceive ∧ call.waitTime > MAX_WAIT_TIME then resetRecv t else t)).2 = replies →
      before = replies := by
    intro t before h
    rwa [watchBlank_silent type htime.blank, List.append_nil] at h
  rw [receivePackage] at hcall
  constructor
  · intro hempty
    rw [if_pos hempty, ok_bind] at hcall
    exact (hlast s [] (congrArg (fun r => r.2.2) (Except.ok.inj hcall))).symm
  · intro hne
    rw [if_neg hne] at hcall
    obtain ⟨⟨t, completed', replies'⟩, htake, hcall⟩ := bind_eq_ok.mp hcall
    have hreplies := hlast t replies' (congrArg (fun r => r.2.2) (Except.ok.inj hcall))
    exact ⟨t, completed', hreplies ▸ htake⟩

/-- A frame that has begun and goes on. -/
theorem receivePackage_part (type : DeviceType) {call : Call} (hs : Holds s held)
    (hpart : held ++ call.available <+: startCode :: command)
    (hno : endCode ∉ command) (hshort : command.length ≤ 18) (htime : OnTime call) :
    ∃ s', receivePackage type s call = .ok (s', none, []) ∧ Holds s' (held ++ call.available) := by
  have hsize : MAX_PACKAGE_SIZE = 20 := rfl
  have hlength := hpart.length_le
  rw [List.length_cons] at hlength
  have hnone : endCode ∉ startCode :: command := by
    rw [List.mem_cons, not_or]
    exact ⟨by decide, hno⟩
  by_cases hempty : call.available = []
  · have htakes : DeviceReceiver.Takes held call.available held none := by
      rw [DeviceReceiver.Takes, if_pos hempty]
      exact ⟨rfl, rfl⟩
    obtain ⟨s', completed, replies, hcall, hholds, hout⟩ :=
      receivePackage_spec type hs htime.wait htakes
    obtain rfl := (receivePackage_replies hcall htime).1 hempty
    rw [Option.map_eq_none_iff.mp hout] at hcall
    rw [hempty, List.append_nil]
    exact ⟨s', hcall, hholds⟩
  · obtain ⟨rest, hrest⟩ : ∃ rest, held ++ call.available = startCode :: rest := by
      obtain ⟨c, rest, hcons⟩ :=
        List.exists_cons_of_ne_nil (List.append_ne_nil_of_right_ne_nil held hempty)
      obtain ⟨behind, hbehind⟩ := hpart
      rw [hcons] at hbehind
      exact ⟨rest, by rw [hcons, (List.cons.inj hbehind).1]⟩
    have hrestNo : endCode ∉ rest := by
      intro hmem
      exact hnone (hpart.subset (hrest ▸ List.mem_cons_of_mem _ hmem))
    have htakes : DeviceReceiver.Takes held call.available (held ++ call.available) none := by
      rw [DeviceReceiver.Takes, if_neg hempty, hrest]
      exact ⟨by rw [← hrest]; omega, .unfinished hrestNo⟩
    obtain ⟨s', completed, replies, hcall, hholds, hout⟩ :=
      receivePackage_spec type hs htime.wait htakes
    obtain ⟨t, completed', htake⟩ := (receivePackage_replies hcall htime).2 hempty
    obtain ⟨t, res, t', hoffset, hfront, hget⟩ := exists_stored hs hempty htake
    rw [getDevPackage_silent hoffset hfront hrest hrestNo] at hget
    obtain ⟨-, -, rfl⟩ := Except.ok.inj hget
    rw [Option.map_eq_none_iff.mp hout] at hcall
    exact ⟨s', hcall, hholds⟩

/-- The frame is complete: the device replies itself, or the command is handed out. -/
theorem receivePackage_whole (type : DeviceType) {call : Call} (hs : Holds s held)
    (hheld : endCode ∉ held) (hwhole : held ++ call.available = frame command)
    (hno : endCode ∉ command) (hshort : command.length ≤ 18) (htime : OnTime call) :
    ∃ s' completed, receivePackage type s call = .ok (s', completed, ownReplies command) ∧
      Holds s' [] ∧ completed.map DevPackage.command =
        if command = cmdSyn ∨ command = cmdDes then none else some command := by
  have hsize : MAX_PACKAGE_SIZE = 20 := rfl
  have hframe : frame command = startCode :: (command ++ endCode :: []) := rfl
  have hempty : call.available ≠ [] := by
    intro hempty
    rw [hempty, List.append_nil] at hwhole
    exact hheld (hwhole ▸ by simp [frame])
  have htakes : DeviceReceiver.Takes held call.available []
      (if command = cmdSyn ∨ command = cmdDes then none else some command) := by
    rw [DeviceReceiver.Takes, if_neg hempty, hwhole, hframe]
    refine ⟨?_, ?_⟩
    · simp only [List.length_cons, List.length_append, List.length_nil]
      omega
    · by_cases hown : command = cmdSyn ∨ command = cmdDes
      · rw [if_pos hown]
        exact .answered hno hown
      · rw [if_neg hown]
        rw [not_or] at hown
        exact .finished hno hown.1 hown.2
  obtain ⟨s', completed, replies, hcall, hholds, hout⟩ :=
    receivePackage_spec type hs htime.wait htakes
  obtain ⟨t, completed', htake⟩ := (receivePackage_replies hcall htime).2 hempty
  obtain ⟨t, res, t', hoffset, hfront, hget⟩ := exists_stored hs hempty htake
  obtain ⟨res', t'', hreplies⟩ := getDevPackage_replies hoffset hfront (hwhole.trans hframe) hno
  obtain ⟨-, -, rfl⟩ := Except.ok.inj (hget.symm.trans hreplies)
  exact ⟨s', completed, hcall, hholds, hout⟩

theorem deviceRound_idle (d : Device) (app : App) {call : Call} (hs : Holds s [])
    (hempty : call.available = []) (htime : OnTime call) :
    ∃ s', deviceRound d app s call = .ok (s', []) ∧ Holds s' [] := by
  have hpart : [] ++ call.available <+: startCode :: [] := by
    rw [hempty]
    exact List.nil_prefix
  obtain ⟨s', hcall, hholds⟩ :=
    receivePackage_part d.type hs hpart List.not_mem_nil (Nat.zero_le _) htime
  rw [hempty] at hholds
  refine ⟨s', ?_, hholds⟩
  rw [deviceRound, hcall, ok_bind]
  rfl

/-- A frame that goes on is not answered yet. -/
theorem deviceRound_part (d : Device) (app : App) {call : Call} (hs : Holds s held)
    (hpart : held ++ call.available <+: startCode :: command) (hno : endCode ∉ command)
    (hshort : command.length ≤ 18) (htime : OnTime call) :
    ∃ s', deviceRound d app s call = .ok (s', []) ∧ Holds s' (held ++ call.available) := by
  obtain ⟨s', hcall, hholds⟩ := receivePackage_part d.type hs hpart hno hshort htime
  refine ⟨s', ?_, hholds⟩
  rw [deviceRound, hcall, ok_bind]
  rfl

theorem deviceRound_whole (d : Device) {app : App} {call : Call} (hs : Holds s held)
    (hheld : endCode ∉ held) (hwhole : held ++ call.available = frame command)
    (hno : endCode ∉ command) (hshort : command.length ≤ 18)
    (hanswer : ∀ answer, app command = some answer → answer.length ≤ 18) (htime : OnTime call)
    {bytes : List Byte} (hbytes : answerTo d app command = .ok bytes) :
    ∃ s', deviceRound d app s call = .ok (s', bytes) ∧ Holds s' [] := by
  obtain ⟨s', completed, hcall, hholds, hout⟩ :=
    receivePackage_whole d.type hs hheld hwhole hno hshort htime
  have hbind : (completed.bind fun package => app package.command) = said app command := by
    rw [said]
    cases completed with
    | none =>
      split at hout
      · rw [if_pos ‹_›, Option.bind_none]
      · cases hout
    | some package =>
      split at hout
      · cases hout
      · rw [if_neg ‹_›, ← Option.some.inj hout, Option.bind_some]
  obtain ⟨written, hwritten, hbytes⟩ := bind_eq_ok.mp hbytes
  obtain rfl := Except.ok.inj hbytes
  rw [deviceRound, hcall, ok_bind]
  dsimp only
  rw [hwritten, ok_bind, hbind]
  cases hsaid : said app command with
  | none => exact ⟨s', by rw [Option.map_none, Option.getD_none, List.append_nil], hholds⟩
  | some answer =>
    dsimp only
    rw [sendDataToManager_eq (hanswer answer (said_eq_some hsaid)), ok_bind]
    exact ⟨resetRecv s', rfl, holds_resetRecv s'⟩

theorem deviceRounds_idle (d : Device) (app : App) {calls : List Call} (hs : Holds s [])
    (hempty : received calls = []) (htime : ∀ call ∈ calls, OnTime call) :
    ∃ s', deviceRounds d app s calls = .ok (s', []) ∧ Holds s' [] := by
  induction calls generalizing s with
  | nil => exact ⟨s, rfl, hs⟩
  | cons call calls ih =>
    rw [received, List.flatMap_cons, List.append_eq_nil_iff] at hempty
    obtain ⟨s₁, hround, hs₁⟩ :=
      deviceRound_idle d app hs hempty.1 (htime call List.mem_cons_self)
    obtain ⟨s', hrounds, hs'⟩ :=
      ih hs₁ hempty.2 fun call hcall => htime call (List.mem_cons_of_mem _ hcall)
    refine ⟨s', ?_, hs'⟩
    rw [deviceRounds, hround, ok_bind]
    dsimp only
    rw [hrounds]
    rfl

/-- However the frame of a command is cut, the device writes its answer and waits for the next. -/
theorem deviceRounds_command (d : Device) {app : App} {calls : List Call}
    (hs : Holds s held) (hheld : endCode ∉ held)
    (hstream : held ++ received calls = frame command) (hno : endCode ∉ command)
    (hshort : command.length ≤ 18)
    (hanswer : ∀ answer, app command = some answer → answer.length ≤ 18)
    (htime : ∀ call ∈ calls, OnTime call) {bytes : List Byte}
    (hbytes : answerTo d app command = .ok bytes) :
    ∃ s', deviceRounds d app s calls = .ok (s', bytes) ∧ Holds s' [] := by
  induction calls generalizing s held with
  | nil =>
    rw [received, List.flatMap_nil, List.append_nil] at hstream
    exact absurd (hstream ▸ by simp [frame]) hheld
  | cons call calls ih =>
    have htime₁ := htime call List.mem_cons_self
    have htimes : ∀ call ∈ calls, OnTime call :=
      fun call hcall => htime call (List.mem_cons_of_mem _ hcall)
    rw [received, List.flatMap_cons, ← List.append_assoc] at hstream
    have hframe : frame command = (startCode :: command) ++ [endCode] := rfl
    have hnone : endCode ∉ startCode :: command := by
      rw [List.mem_cons, not_or]
      exact ⟨by decide, hno⟩
    -- the end code is the last byte, so a piece that has it ends the frame
    by_cases hend : endCode ∈ call.available
    · have hmem : endCode ∈ held ++ call.available := List.mem_append_right _ hend
      obtain ⟨front, behind, hsplit, hfront⟩ := List.eq_append_cons_of_mem hmem
      have hbody := hstream
      rw [hframe, hsplit, List.append_assoc, List.cons_append] at hbody
      obtain ⟨rfl, hrest⟩ := Delimited.field_unique hbody hfront hnone
      obtain ⟨rfl, hrest⟩ := List.append_eq_nil_iff.mp hrest
      obtain ⟨s₁, hround, hs₁⟩ :=
        deviceRound_whole d hs hheld (hsplit.trans hframe.symm) hno hshort hanswer htime₁ hbytes
      obtain ⟨s', hrounds, hs'⟩ := deviceRounds_idle d app hs₁ hrest htimes
      refine ⟨s', ?_, hs'⟩
      rw [deviceRounds, hround, ok_bind]
      dsimp only
      rw [hrounds, ok_bind, List.append_nil]
    · have hnot : endCode ∉ held ++ call.available := by
        rw [List.mem_append, not_or]
        exact ⟨hheld, hend⟩
      have hpart : held ++ call.available <+: startCode :: command := by
        rcases List.prefix_concat_iff.mp (hframe ▸ hstream ▸ List.prefix_append _ _) with
          hall | hpart
        · exact absurd (hall ▸ by simp) hnot
        · exact hpart
      obtain ⟨s₁, hround, hs₁⟩ := deviceRound_part d app hs hpart hno hshort htime₁
      obtain ⟨s', hrounds, hs'⟩ := ih hs₁ hnot hstream htimes
      refine ⟨s', ?_, hs'⟩
      rw [deviceRounds, hround, ok_bind]
      dsimp only
      rw [hrounds]
      rfl

end

/-- The states of the devices behind a broker, by their addresses. -/
abbrev Receivers := List Byte → Receiver

/-- What passes between the broker and the device that a package is for: the device gets the
frame of the command in pieces, and the broker what the device writes. -/
inductive Exchange (broker : Broker) (devices : List Byte → Device) (app : App) (o : Surroundings)
    (m : SentPackage) : Receivers → Receivers → Prop
  | apart (states : Receivers) : ¬ Reaches broker o m.desIp → o.polls = [] →
      Exchange broker devices app o m states states
  | command {states : Receivers} {s' : Receiver} {type : CommandType} {id value : List Byte}
      {calls : List Call} : Reaches broker o m.desIp → Carries m type id value →
      received calls = frame id → (∀ call ∈ calls, OnTime call) →
      deviceRounds (devices m.desIp) app (states m.desIp) calls = .ok (s', o.polls.flatten) →
      Exchange broker devices app o m states (Function.update states m.desIp s')

/-- The application is not asked for the description, and its answers have room in a response. -/
structure IsAnswering (app : App) (id : List Byte) : Prop where
  notDes : id ≠ cmdDes
  text : ∀ answer, app id = some answer →
    IsFieldText answer ∧ answer.length ≤ 9 ∧ responseLength id answer < maxCmdBufSize

/-- The device got the command, and the manager gets what the application said to it. -/
inductive Answered (broker : Broker) (app : App) (o : Surroundings) (m : SentPackage)
    (round : Round) : Prop
  | apart : ¬ Reaches broker o m.desIp → round.toDevice = none → round.toManager = none →
      Answered broker app o m round
  | silent {type : CommandType} {id value : List Byte} : Reaches broker o m.desIp →
      Carries m type id value → round.toDevice = some (frame id) →
      (Expects broker type → said app id = none) → round.toManager = none →
      Answered broker app o m round
  | answered {type : CommandType} {id value answer : List Byte} {response : SentPackage} :
      Reaches broker o m.desIp → Carries m type id value → round.toDevice = some (frame id) →
      Expects broker type → said app id = some answer → Responds m id answer response →
      round.toManager = some response.bytes → Answered broker app o m round

section

variable {broker : Broker} {devices : List Byte → Device} {app : App} {o : Surroundings}
  {m : SentPackage} {states states' : Receivers} {id : List Byte}

theorem endCode_notMem (h : IsFieldText id) : endCode ∉ id := by
  intro hmem
  exact Jsmn.printable_of_isPlain (h.isWord.plain _ hmem) (.inl (by decide))

/-- What is written for any command but the one for the description. -/
theorem answerTo_eq (d : Device) (app : App) (hnotDes : id ≠ cmdDes) :
    answerTo d app id = .ok ((if id = cmdSyn then ascii "ACK" else []) ++
      ((said app id).map frame).getD []) := by
  rw [answerTo, ownReplies, if_neg hnotDes]
  split
  · rfl
  · rfl

/-- What the device writes for a command of the application is one framed text or nothing that
ends. -/
theorem says_answerTo {d : Device} (happ : IsAnswering app id) {polls : List (List Byte)}
    (hpolls : answerTo d app id = .ok polls.flatten) : Says polls (said app id) := by
  have hwritten := Except.ok.inj (hpolls.symm.trans (answerTo_eq d app happ.notDes))
  cases hsaid : said app id with
  | some answer =>
    have hnotSyn : id ≠ cmdSyn := by
      rintro rfl
      rw [said, if_pos (.inl rfl)] at hsaid
      cases hsaid
    refine .text (happ.text answer (said_eq_some hsaid)).1 ?_
    rw [hwritten, if_neg hnotSyn, hsaid]
    rfl
  | none =>
    rw [hsaid, Option.map_none, Option.getD_none, List.append_nil] at hwritten
    split at hwritten
    · refine .nothing ?_ ?_
      · rw [hwritten]
        decide
      · rw [hwritten]
        decide
    · refine .nothing ?_ ?_
      · rw [hwritten]
        exact List.not_mem_nil
      · rw [hwritten]
        exact Nat.zero_le _

theorem eq_of_said {polls : List (List Byte)} {answer : List Byte} {other : Option (List Byte)}
    (hanswer : Says polls (some answer)) (hother : Says polls other) : other = some answer := by
  cases hanswer with
  | text _ hpolls => exact hother.eq_some hpolls

/-- An exchange leaves every device waiting for the next command. -/
theorem Exchange.holds (h : Exchange broker devices app o m states states')
    (happ : ∀ type id value, Carries m type id value → IsAnswering app id)
    (hstates : ∀ a, DeviceReceiver.Holds (states a) []) :
    (∀ a, DeviceReceiver.Holds (states' a) []) ∧ ∀ type id value, Reaches broker o m.desIp →
      Carries m type id value → answerTo (devices m.desIp) app id = .ok o.polls.flatten := by
  cases h with
  | apart hnot _ => exact ⟨hstates, fun _ _ _ hreaches => absurd hreaches hnot⟩
  | @command s' type id value calls _ hcarries hframe htime hrounds =>
    have hid := happ type id value hcarries
    have hlength := hcarries.idShort
    have hanswer := answerTo_eq (devices m.desIp) app hid.notDes
    obtain ⟨t, hrun, ht⟩ := deviceRounds_command (devices m.desIp) (hstates m.desIp)
      List.not_mem_nil hframe (endCode_notMem hcarries.idText) (by omega)
      (fun answer hanswer => (hid.text answer hanswer).2.1.trans (by decide)) htime hanswer
    obtain ⟨rfl, hwritten⟩ := Prod.mk.inj (Except.ok.inj (hrounds.symm.trans hrun))
    constructor
    · intro a
      by_cases ha : a = m.desIp
      · rw [ha, Function.update_self]
        exact ht
      · rw [Function.update_of_ne ha]
        exact hstates a
    · intro type' id' value' _ hcarries'
      rw [hwritten, hcarries'.id_eq hcarries, hanswer]

/-- The round of a package, when the device has what the broker writes and the broker what the
device writes. -/
theorem Exchange.answered (h : Exchange broker devices app o m states states')
    (happ : ∀ type id value, Carries m type id value → IsAnswering app id)
    (hstates : ∀ a, DeviceReceiver.Holds (states a) []) {round : Round}
    {response : Option SentPackage} (hhandles : Handles broker o m round.toDevice response)
    (hsent : round.toManager = response.map SentPackage.bytes) :
    Answered broker app o m round := by
  have htold : ∀ type id value, Reaches broker o m.desIp → Carries m type id value →
      Says o.polls (said app id) := fun type id value hreaches hcarries =>
    says_answerTo (happ type id value hcarries)
      ((h.holds happ hstates).2 type id value hreaches hcarries)
  generalize hdevice : round.toDevice = toDevice at hhandles
  cases hhandles with
  | ignored hnot => exact .apart hnot hdevice hsent
  | told hreaches hcarries hnot =>
    exact .silent hreaches hcarries hdevice (fun hexpects => absurd hexpects hnot) hsent
  | @silent type id value hreaches hcarries _ hsaid =>
    refine .silent hreaches hcarries hdevice (fun _ => ?_) hsent
    cases hown : said app id with
    | none => rfl
    | some answer =>
      have hanswer := htold type id value hreaches hcarries
      rw [hown] at hanswer
      cases eq_of_said hanswer hsaid
  | @answered type id value payload response hreaches hcarries hexpects hsaid hresponds =>
    exact .answered hreaches hcarries hdevice hexpects
      (eq_of_said hsaid (htold type id value hreaches hcarries)) hresponds hsent

end

section

variable {broker : Broker} {devices : List Byte → Device} {sends : List SentPackage}
  {meets : ℕ → Surroundings} {apps : ℕ → App} {states : ℕ → Receivers} {fuel : ℕ}

/-- The packages meet the devices one after the other, beginning with devices that have just
been started. -/
structure Conversation (broker : Broker) (devices : List Byte → Device) (sends : List SentPackage)
    (meets : ℕ → Surroundings) (apps : ℕ → App) (states : ℕ → Receivers) : Prop where
  init : ∀ a, states 0 a = initDevice
  exchange : ∀ k m, sends[k]? = some m →
    Exchange broker devices (apps k) (meets k) m (states k) (states (k + 1))
  answering : ∀ k m type id value, sends[k]? = some m → Carries m type id value →
    IsAnswering (apps k) id

theorem Conversation.holds (h : Conversation broker devices sends meets apps states) {k : ℕ}
    (hk : k ≤ sends.length) (a : List Byte) : DeviceReceiver.Holds (states k a) [] := by
  induction k generalizing a with
  | zero => exact h.init a ▸ holds_initDevice
  | succ k ih =>
    have hget := List.getElem?_eq_getElem hk
    exact ((h.exchange k _ hget).holds (fun type id value => h.answering k _ type id value hget)
      (ih (Nat.le_of_lt hk))).1 a

end

end IoTRepublic.DeviceDialogue
