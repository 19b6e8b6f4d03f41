import IoTRepublic.Foundation.Stuffing
import IoTRepublic.XBeeApiMode

/-!
What `readPacket` makes of the bytes on the line. The reader knows the bytes of
the unfinished frame and nothing else: this is an abstract machine over single
bytes, and the calls of `readPacket` follow it however the bytes are spread over
the polls, as long as no byte behind an escape is an escape or a start byte. A
frame with the right checksum is reported, a start byte inside a frame ends that
frame and is used up by it.
-/
namespace IoTRepublic.XBeeFrames

open CheckedArray Package Stuffing XBeeApiMode

/-- The sum of bytes, as the checksum is taken. -/
def total (bytes : List Byte) : Byte := bytes.foldl (· + ·) 0

theorem foldl_add (start : Byte) (bytes : List Byte) :
    bytes.foldl (· + ·) start = start + total bytes := by
  induction bytes generalizing start with
  | nil => simp [total]
  | cons b bytes ih =>
    rw [total, List.foldl_cons, List.foldl_cons, ih, ih (0 + b), UInt8.zero_add, UInt8.add_assoc]

theorem total_append (front behind : List Byte) :
    total (front ++ behind) = total front + total behind := by
  rw [total, List.foldl_append, foldl_add]
  rfl

@[simp] theorem total_nil : total [] = 0 := rfl

@[simp] theorem total_cons (b : Byte) (bytes : List Byte) : total (b :: bytes) = b + total bytes := by
  rw [total, List.foldl_cons, foldl_add, UInt8.zero_add]

/-- A frame whose data fit into the array. -/
structure ApiFrame where
  apiId : Byte
  data : List Byte
  short : data.length ≤ 106
  deriving DecidableEq

/-- Where the reader stands; `body` are the bytes behind the start byte, without escapes. -/
inductive Phase
  | idle
  | inside (body : List Byte)
  | marked (body : List Byte)
  | completed (frame : ApiFrame)
  | rejected
  deriving DecidableEq

namespace Phase

/-- The next byte behind the start byte. -/
def take (body : List Byte) (b : Byte) : Phase :=
  match body with
  | _ :: lsb :: apiId :: data =>
    if h : data.length ≤ 106 then
      if data.length + 1 = lsb.toNat then
        if total (apiId :: data ++ [b]) = 0xff then .completed ⟨apiId, data, h⟩ else .rejected
      else .inside (body ++ [b])
    else .rejected
  | _ => .inside (body ++ [b])

def ends : Phase → Bool
  | .completed _ => true
  | .rejected => true
  | _ => false

def settle (phase : Phase) : Phase := if phase.ends then .idle else phase

def step (phase : Phase) (b : Byte) : Phase :=
  match phase.settle with
  | .inside body =>
    if b = START_BYTE then .rejected else if b = ESCAPE then .marked body else take body b
  | .marked body => if b = START_BYTE then .rejected else take body (0x20 ^^^ b)
  | _ => if b = START_BYTE then .inside [] else .idle

def report : Phase → List ApiFrame
  | .completed frame => [frame]
  | _ => []

/-- What is reported while the bytes are read. -/
abbrev reports (phase : Phase) (bytes : List Byte) : List ApiFrame :=
  reported step report phase bytes

/-- No byte behind an escape of a frame is a start byte or an escape. -/
def Clean : Phase → List Byte → Prop
  | _, [] => True
  | phase, b :: bytes =>
    ((∃ body, phase = .marked body) → b ≠ START_BYTE ∧ b ≠ ESCAPE) ∧ Clean (phase.step b) bytes

@[simp] theorem settle_idle : settle .idle = .idle := rfl

@[simp] theorem settle_inside (body : List Byte) : settle (.inside body) = .inside body := rfl

@[simp] theorem settle_marked (body : List Byte) : settle (.marked body) = .marked body := rfl

theorem settle_ends (phase : Phase) : phase.settle.ends = false := by
  cases phase <;> rfl

theorem report_of_not_ends {phase : Phase} (h : phase.ends = false) : phase.report = [] := by
  cases phase with
  | completed frame => cases h
  | _ => rfl

theorem step_settle (phase : Phase) (b : Byte) : phase.settle.step b = phase.step b := by
  cases phase <;> rfl

theorem step_inside (body : List Byte) (b : Byte) :
    step (.inside body) b =
      if b = START_BYTE then .rejected else if b = ESCAPE then .marked body else take body b := rfl

theorem step_marked (body : List Byte) (b : Byte) :
    step (.marked body) b = if b = START_BYTE then .rejected else take body (0x20 ^^^ b) := rfl

theorem step_outside {phase : Phase} (h : phase.settle = .idle) (b : Byte) :
    phase.step b = if b = START_BYTE then .inside [] else .idle := by
  rw [← step_settle, h]
  rfl

@[simp] theorem reports_nil (phase : Phase) : phase.reports [] = [] := rfl

theorem reports_cons (phase : Phase) (b : Byte) (bytes : List Byte) :
    phase.reports (b :: bytes) = (phase.step b).report ++ (phase.step b).reports bytes := rfl

theorem reports_append (phase : Phase) (front behind : List Byte) :
    phase.reports (front ++ behind) =
      phase.reports front ++ (front.foldl step phase).reports behind :=
  reported_append step report phase front behind

theorem reports_settle (phase : Phase) (bytes : List Byte) :
    phase.settle.reports bytes = phase.reports bytes := by
  cases bytes with
  | nil => rfl
  | cons b bytes => rw [reports_cons, step_settle, reports_cons]

theorem clean_settle {phase : Phase} {bytes : List Byte} (h : phase.Clean bytes) :
    phase.settle.Clean bytes := by
  cases bytes with
  | nil => trivial
  | cons b bytes =>
    refine ⟨?_, ?_⟩
    · rintro ⟨body, hbody⟩
      apply h.1
      cases phase with
      | marked body' => exact ⟨body', rfl⟩
      | _ => cases hbody
    · rw [step_settle]
      exact h.2

end Phase

/-- The state of the reader inside a frame, without the mark of an escape. -/
structure Receiving (xbee : XBee) (body : List Byte) : Prop where
  complete : xbee.response.complete = false
  errorCode : xbee.response.errorCode = .noError
  size : xbee.responseFrameData.length = MAX_FRAME_DATA_SIZE
  pos : xbee.pos.toNat = body.length + 1
  length_le : body.length ≤ MAX_FRAME_DATA_SIZE
  checksumTotal : xbee.checksumTotal = total (body.drop 2)
  lsb : ∀ lsb ∈ body[1]?, xbee.response.lsbLength = lsb
  apiId : ∀ apiId ∈ body[2]?, xbee.response.apiId = apiId
  data : xbee.responseFrameData.take (body.length - 3) = body.drop 3

/-- The state of an `XBee` that stands for where the reader stands. -/
inductive Represents (xbee : XBee) : Phase → Prop
  | idle : xbee.response.complete = false → xbee.response.errorCode = .noError →
      xbee.responseFrameData.length = MAX_FRAME_DATA_SIZE → xbee.pos = 0 →
      xbee.checksumTotal = 0 → xbee.escape = false → Represents xbee .idle
  | inside {body : List Byte} : Receiving xbee body → xbee.escape = false →
      Represents xbee (.inside body)
  | marked {body : List Byte} : Receiving xbee body → xbee.escape = true →
      Represents xbee (.marked body)
  | completed {frame : ApiFrame} : xbee.response.complete = true →
      xbee.responseFrameData.length = MAX_FRAME_DATA_SIZE →
      xbee.response.lsbLength.toNat = frame.data.length + 1 →
      xbee.response.frameLength.toNat = frame.data.length →
      xbee.response.apiId = frame.apiId →
      xbee.responseFrameData.take frame.data.length = frame.data →
      total (frame.apiId :: frame.data ++ [xbee.response.checksum]) = 0xff →
      xbee.response.errorCode = .noError → xbee.pos = 0 → Represents xbee (.completed frame)
  | rejected : xbee.response.complete = false → xbee.response.errorCode ≠ .noError →
      xbee.responseFrameData.length = MAX_FRAME_DATA_SIZE →
      xbee.pos.toNat ≤ MAX_FRAME_DATA_SIZE + 1 → Represents xbee .rejected

theorem represents_new (response : XBeeResponse) (frameData : CharArray MAX_FRAME_DATA_SIZE) :
    Represents (XBee.new response frameData) .idle :=
  .idle rfl rfl frameData.size rfl rfl rfl

section

variable {xbee : XBee} {phase : Phase}

theorem Represents.size (h : Represents xbee phase) :
    xbee.responseFrameData.length = MAX_FRAME_DATA_SIZE := by
  cases h with
  | idle _ _ hsize => exact hsize
  | inside hreceiving => exact hreceiving.size
  | marked hreceiving => exact hreceiving.size
  | completed _ hsize => exact hsize
  | rejected _ _ hsize => exact hsize

theorem Represents.isAvailable (h : Represents xbee phase) :
    xbee.response.isAvailable = true ↔ ∃ frame, phase = .completed frame := by
  cases h with
  | idle hcomplete => simp [XBeeResponse.isAvailable, hcomplete]
  | inside hreceiving => simp [XBeeResponse.isAvailable, hreceiving.complete]
  | marked hreceiving => simp [XBeeResponse.isAvailable, hreceiving.complete]
  | completed hcomplete => simp [XBeeResponse.isAvailable, hcomplete]
  | rejected hcomplete => simp [XBeeResponse.isAvailable, hcomplete]

theorem Represents.settle (h : Represents xbee phase) : Represents xbee.settle phase.settle := by
  have hreset : xbee.responseFrameData.length = MAX_FRAME_DATA_SIZE →
      Represents xbee.resetResponse .idle :=
    fun hsize => .idle rfl rfl hsize rfl rfl rfl
  cases h with
  | idle hcomplete herror hsize hpos htotal hescape =>
    rw [XBee.settle, XBeeResponse.isAvailable, XBeeResponse.isError, hcomplete, herror]
    exact .idle hcomplete herror hsize hpos htotal hescape
  | inside hreceiving hescape =>
    rw [XBee.settle, XBeeResponse.isAvailable, XBeeResponse.isError, hreceiving.complete,
      hreceiving.errorCode]
    exact .inside hreceiving hescape
  | marked hreceiving hescape =>
    rw [XBee.settle, XBeeResponse.isAvailable, XBeeResponse.isError, hreceiving.complete,
      hreceiving.errorCode]
    exact .marked hreceiving hescape
  | completed hcomplete hsize =>
    rw [XBee.settle, XBeeResponse.isAvailable, hcomplete]
    exact hreset hsize
  | rejected hcomplete herror hsize =>
    have his : xbee.response.isError = true := by simp [XBeeResponse.isError, herror]
    rw [XBee.settle, his, Bool.or_true]
    exact hreset hsize

end

theorem getPacketLength_eq (response : XBeeResponse) :
    response.getPacketLength = response.lsbLength.toNat := by
  have hlsb := response.lsbLength.toNat_lt
  have hmsb : (response.msbLength.toNat <<< 8) &&& 0xff = 0 := by
    rw [show 0xff = 2 ^ 8 - 1 from rfl, Nat.and_two_pow_sub_one_eq_mod, Nat.shiftLeft_eq]
    omega
  rw [XBeeResponse.getPacketLength, hmsb, show 0xff = 2 ^ 8 - 1 from rfl,
    Nat.and_two_pow_sub_one_eq_mod]
  omega

/-- Behind the last byte of the array there is no other byte of the frame. -/
theorem succ_toNat {pos : Byte} {n : ℕ} (h : pos.toNat = n) (hn : n ≤ 111) :
    (pos + 1).toNat = n + 1 := by
  rw [UInt8.toNat_add, h, UInt8.toNat_one]
  omega

section

variable {xbee : XBee} {body : List Byte} {b : Byte}

theorem summed_checksumTotal {n : ℕ} (h : xbee.pos.toNat = n) (b : Byte) :
    (xbee.summed b).checksumTotal =
      if 3 ≤ n then xbee.checksumTotal + b else xbee.checksumTotal := by
  simp only [XBee.summed, UInt8.le_iff_toNat_le, h]
  rfl

/-- Outside a frame only a start byte is kept. -/
theorem storeByte_idle (h : Represents xbee .idle) (b : Byte) :
    ∃ xbee', xbee.storeByte b = .ok (xbee', false) ∧
      Represents xbee' (if b = START_BYTE then .inside [] else .idle) := by
  cases h with
  | idle hcomplete herror hsize hpos htotal hescape =>
  have hsum : (xbee.summed b).checksumTotal = 0 := by
    rw [summed_checksumTotal (congrArg UInt8.toNat hpos), if_neg (by decide), htotal]
  have hb : xbee.unmasked b = b := by simp [XBee.unmasked, hescape]
  rw [XBee.storeByte, hb]
  by_cases hstart : b = START_BYTE
  · refine ⟨{ xbee.summed b with pos := xbee.pos + 1 }, by simp [XBee.storeAt, XBee.summed, hpos,
      hstart], ?_⟩
    rw [if_pos hstart]
    exact .inside ⟨hcomplete, herror, hsize, by simp [hpos], Nat.zero_le _, hsum, by simp, by simp,
      by simp⟩ rfl
  · refine ⟨xbee.summed b, by simp [XBee.storeAt, XBee.summed, hpos, hstart], ?_⟩
    rw [if_neg hstart]
    exact .idle hcomplete herror hsize hpos hsum rfl

/-- The length and the API ID stand in front of the data. -/
theorem storeAt_front (h : Receiving xbee body) (hbody : body.length < 3) (b : Byte) :
    ∃ xbee', (xbee.summed b).storeAt b = .ok (xbee', false) ∧
      Represents xbee' (.inside (body ++ [b])) := by
  have hpos := h.pos
  have hnext : (xbee.pos + 1).toNat = (body ++ [b]).length + 1 := by
    rw [List.length_append, List.length_singleton]
    exact succ_toNat hpos (by omega)
  have hlength : (body ++ [b]).length ≤ MAX_FRAME_DATA_SIZE := by
    rw [List.length_append, List.length_singleton]
    exact (by omega : body.length + 1 ≤ 3).trans (by decide)
  have hsum : (xbee.summed b).checksumTotal = total ((body ++ [b]).drop 2) := by
    rw [summed_checksumTotal hpos, h.checksumTotal]
    match body, hbody with
    | [], _ => rfl
    | [_], _ => rfl
    | [_, _], _ => simp
  match body, hbody with
  | [], _ =>
    have hone : xbee.pos = 1 := UInt8.toNat_inj.mp hpos
    refine ⟨{ xbee.summed b with
      response := { xbee.response with msbLength := b }, pos := xbee.pos + 1 }, ?_, .inside ?_ rfl⟩
    · simp [XBee.storeAt, XBee.summed, hone]
    · exact ⟨h.complete, h.errorCode, h.size, hnext, hlength, hsum, by simp, by simp, by simp⟩
  | [msb], _ =>
    have htwo : xbee.pos = 2 := UInt8.toNat_inj.mp hpos
    refine ⟨{ xbee.summed b with
      response := { xbee.response with lsbLength := b }, pos := xbee.pos + 1 }, ?_, .inside ?_ rfl⟩
    · simp [XBee.storeAt, XBee.summed, htwo]
    · exact ⟨h.complete, h.errorCode, h.size, hnext, hlength, hsum, by simp, by simp, by simp⟩
  | [msb, lsb], _ =>
    have hthree : xbee.pos = 3 := UInt8.toNat_inj.mp hpos
    refine ⟨{ xbee.summed b with
      response := { xbee.response with apiId := b }, pos := xbee.pos + 1 }, ?_, .inside ?_ rfl⟩
    · simp [XBee.storeAt, XBee.summed, hthree]
    · exact ⟨h.complete, h.errorCode, h.size, hnext, hlength, hsum, by simpa using h.lsb, by simp,
        by simp⟩

/-- Behind the API ID come the data, and at the end of the packet the checksum. -/
theorem storeAt_data {msb lsb apiId : Byte} {data : List Byte}
    (h : Receiving xbee (msb :: lsb :: apiId :: data)) (b : Byte) :
    ∃ xbee', (xbee.summed b).storeAt b =
        .ok (xbee', (Phase.take (msb :: lsb :: apiId :: data) b).ends) ∧
      Represents xbee' (Phase.take (msb :: lsb :: apiId :: data) b) := by
  have hmax : MAX_FRAME_DATA_SIZE = 110 := rfl
  have hlsb : xbee.response.lsbLength = lsb := h.lsb lsb rfl
  have hapiId : xbee.response.apiId = apiId := h.apiId apiId rfl
  have hpos : xbee.pos.toNat = data.length + 4 := h.pos
  have hdata : xbee.responseFrameData.take data.length = data := h.data
  have hne : ∀ n : Byte, n.toNat < 4 → xbee.pos ≠ n := by
    intro n hn heq
    rw [heq] at hpos
    omega
  have hsum : (xbee.summed b).checksumTotal = total (apiId :: data ++ [b]) := by
    rw [summed_checksumTotal hpos, if_pos (by omega), h.checksumTotal, total_append]
    simp
  have hlength : (xbee.summed b).response.getPacketLength = lsb.toNat := by
    rw [getPacketLength_eq]
    exact congrArg UInt8.toNat hlsb
  have hstore : (xbee.summed b).pos = xbee.pos := rfl
  rw [XBee.storeAt, hstore, if_neg (hne 0 (by decide)), if_neg (hne 1 (by decide)),
    if_neg (hne 2 (by decide)), if_neg (hne 3 (by decide)), hlength]
  by_cases hshort : data.length ≤ 106
  · rw [if_neg (by omega)]
    by_cases hend : data.length + 1 = lsb.toNat
    · have hframeLength : (xbee.pos - 4).toNat = data.length := by
        rw [UInt8.toNat_sub_of_le _ _ (by
          rw [UInt8.le_iff_toNat_le, hpos]
          exact Nat.le_add_left 4 data.length), hpos]
        exact Nat.add_sub_cancel data.length 4
      rw [if_pos (by omega), hsum]
      by_cases hright : total (apiId :: data ++ [b]) = 0xff
      · have hand : total (apiId :: data ++ [b]) &&& 0xff = 0xff := by
          rw [hright]
          rfl
        have htake : Phase.take (msb :: lsb :: apiId :: data) b =
            .completed ⟨apiId, data, hshort⟩ := by
          simp only [Phase.take, dif_pos hshort, if_pos hend, if_pos hright]
        rw [if_pos hand, htake]
        refine ⟨_, rfl, .completed rfl h.size ?_ hframeLength hapiId hdata hright rfl rfl⟩
        exact (congrArg UInt8.toNat hlsb).trans hend.symm
      · have hand : ¬ total (apiId :: data ++ [b]) &&& 0xff = 0xff := by
          rw [show (0xff : Byte) = -1 from rfl, UInt8.and_neg_one]
          exact hright
        have htake : Phase.take (msb :: lsb :: apiId :: data) b = .rejected := by
          simp only [Phase.take, dif_pos hshort, if_pos hend, if_neg hright]
        rw [if_neg hand, htake]
        exact ⟨_, rfl, .rejected h.complete (by simp) h.size (Nat.zero_le _)⟩
    · have htake : Phase.take (msb :: lsb :: apiId :: data) b =
          .inside (msb :: lsb :: apiId :: data ++ [b]) := by
        simp only [Phase.take, dif_pos hshort, if_neg hend]
      have hindex : (xbee.pos.toNat : ℤ) - 4 = (data.length : ℕ) := by omega
      have hroom : data.length < xbee.responseFrameData.length := by
        rw [h.size]
        exact Nat.lt_of_le_of_lt hshort (by decide)
      have hwrite : writeAt (xbee.summed b).responseFrameData ((xbee.pos.toNat : ℤ) - 4) b =
          .ok (xbee.responseFrameData.set data.length b) := by
        rw [hindex]
        exact writeAt_natCast _ _ _ hroom
      rw [if_neg (by omega), hwrite, ok_bind, htake]
      refine ⟨_, rfl, .inside ⟨h.complete, h.errorCode, ?_, ?_, ?_, ?_, ?_, ?_, ?_⟩ rfl⟩
      · rw [List.length_set]
        exact h.size
      · simpa using succ_toNat hpos (by omega)
      · simp only [List.cons_append, List.length_cons, List.length_append, List.length_nil]
        omega
      · exact hsum
      · simpa [XBee.summed] using hlsb
      · simpa [XBee.summed] using hapiId
      · have htake := take_splice xbee.responseFrameData data.length [b] hroom.le
        rw [← splice_singleton _ _ _ hroom, hdata] at htake
        simpa using htake
  · rw [if_pos (by omega)]
    have htake : Phase.take (msb :: lsb :: apiId :: data) b = .rejected := by
      simp only [Phase.take, dif_neg hshort]
    rw [htake]
    exact ⟨_, rfl, .rejected h.complete (by simp [XBee.setErrorCode]) h.size
      (h.pos.le.trans (Nat.succ_le_succ h.length_le))⟩

theorem take_front (hbody : body.length < 3) (b : Byte) :
    Phase.take body b = .inside (body ++ [b]) := by
  match body, hbody with
  | [], _ => rfl
  | [_], _ => rfl
  | [_, _], _ => rfl

/-- Inside a frame the byte, unmasked if it stands behind an escape, is the next of the frame. -/
theorem storeByte_inside (h : Receiving xbee body) (b : Byte) :
    ∃ xbee', xbee.storeByte b = .ok (xbee', (Phase.take body (xbee.unmasked b)).ends) ∧
      Represents xbee' (Phase.take body (xbee.unmasked b)) := by
  rw [XBee.storeByte]
  by_cases hbody : body.length < 3
  · rw [take_front hbody]
    exact storeAt_front h hbody _
  · match body, h, hbody with
    | _ :: _ :: _ :: _, h, _ => exact storeAt_data h _
    | [], _, hbody => simp at hbody
    | [_], _, hbody => simp at hbody
    | [_, _], _, hbody => simp at hbody

end

/-- The bytes that the polls give. -/
abbrev bytesOf (polls : List (Option Byte)) : List Byte := polls.filterMap id

/-- A run on the polls returns with at most `n` of them left. Where it leads the reader reports
from there on what it would have reported, if no byte behind an escape is in the way. -/
def Reaches (phase : Phase) (polls : List (Option Byte)) (n : ℕ)
    (r : Exec (XBee × List (Option Byte))) : Prop :=
  ∃ xbee' polls' phase', r = .ok (xbee', polls') ∧ Represents xbee' phase' ∧ polls'.length ≤ n ∧
    (phase.Clean (bytesOf polls) → phase'.Clean (bytesOf polls') ∧
      phase.report ++ phase.reports (bytesOf polls) =
        phase'.report ++ phase'.reports (bytesOf polls'))

section

variable {phase phase₁ : Phase} {polls polls₁ : List (Option Byte)} {b : Byte} {n m : ℕ}
  {r : Exec (XBee × List (Option Byte))} {xbee : XBee}

theorem Reaches.stop (h : Represents xbee phase) (polls : List (Option Byte)) :
    Reaches phase polls polls.length (.ok (xbee, polls)) :=
  ⟨xbee, polls, phase, rfl, h, le_rfl, fun hclean => ⟨hclean, rfl⟩⟩

theorem Reaches.mono (h : Reaches phase polls n r) (hn : n ≤ m) : Reaches phase polls m r := by
  obtain ⟨xbee', polls', phase', hr, hrep, hle, hclean⟩ := h
  exact ⟨xbee', polls', phase', hr, hrep, hle.trans hn, hclean⟩

/-- A poll that gives nothing changes nothing. -/
theorem Reaches.nothing (h : Reaches phase polls n r) : Reaches phase (none :: polls) n r := h

theorem Reaches.cons (h : Reaches (phase.step b) polls n r) (hends : phase.ends = false) :
    Reaches phase (some b :: polls) n r := by
  obtain ⟨xbee', polls', phase', hr, hrep, hle, hclean⟩ := h
  refine ⟨xbee', polls', phase', hr, hrep, hle, ?_⟩
  rintro ⟨-, hrest⟩
  rw [Phase.report_of_not_ends hends]
  exact hclean hrest

/-- Where a byte behind an escape is in the way, nothing is said about the reports. -/
theorem Reaches.of_not_clean (h : Reaches phase₁ polls₁ n r)
    (hnot : ¬ phase.Clean (bytesOf polls)) : Reaches phase polls n r := by
  obtain ⟨xbee', polls', phase', hr, hrep, hle, -⟩ := h
  exact ⟨xbee', polls', phase', hr, hrep, hle, fun hclean => absurd hclean hnot⟩

/-- A byte has been stored: `readPacket` returns at the end of a packet and reads on else. -/
theorem Reaches.stored (h : Represents xbee phase)
    (hrest : phase.ends = false → Reaches phase polls (polls.length - 1) (xbee.readLoop polls)) :
    Reaches phase polls polls.length
      (if phase.ends then .ok (xbee, polls) else xbee.readLoop polls) := by
  cases hends : phase.ends with
  | true => exact .stop h polls
  | false => exact (hrest hends).mono (Nat.sub_le _ _)

theorem pos_of_receiving {body : List Byte} (h : Receiving xbee body) : xbee.pos > 0 := by
  rw [gt_iff_lt, UInt8.lt_iff_toNat_lt, h.pos]
  exact Nat.succ_pos _

/-- The byte is stored and the loop goes on with the polls behind it. -/
theorem Reaches.inside {body : List Byte} (h : Receiving xbee body) (b : Byte)
    (hrest : ∀ xbee' phase', Represents xbee' phase' → phase'.ends = false →
      Reaches phase' polls (polls.length - 1) (xbee'.readLoop polls)) :
    Reaches (Phase.take body (xbee.unmasked b)) polls polls.length (do
      let (xbee, returns) ← xbee.storeByte b
      if returns then .ok (xbee, polls) else xbee.readLoop polls) := by
  obtain ⟨xbee', hstore, hrep⟩ := storeByte_inside h b
  rw [hstore, ok_bind]
  exact .stored hrep (hrest xbee' _ hrep)

theorem Receiving.setEscape {body : List Byte} (h : Receiving xbee body) :
    Represents { xbee with escape := true } (.marked body) :=
  .marked ⟨h.complete, h.errorCode, h.size, h.pos, h.length_le, h.checksumTotal, h.lsb, h.apiId,
    h.data⟩ rfl

end

section

variable {xbee : XBee} {polls : List (Option Byte)} {b : Byte}

theorem readLoop_plain (hstart : ¬ (xbee.pos > 0 ∧ b = START_BYTE))
    (hescape : ¬ (xbee.pos > 0 ∧ b = ESCAPE)) :
    xbee.readLoop (some b :: polls) = (do
      let (xbee, returns) ← xbee.storeByte b
      if returns then .ok (xbee, polls) else xbee.readLoop polls) := by
  rw [XBee.readLoop.eq_def]
  simp only [if_neg hstart, if_neg hescape]

theorem readLoop_start (hpos : xbee.pos > 0) :
    xbee.readLoop (some START_BYTE :: polls) =
      .ok (xbee.setErrorCode .unexpectedStartByte, polls) := by
  rw [XBee.readLoop.eq_def]
  simp only [and_true, if_pos hpos]

theorem escape_ne_start : ¬ (xbee.pos > 0 ∧ ESCAPE = START_BYTE) := by
  rintro ⟨-, heq⟩
  exact absurd heq (by decide)

theorem readLoop_escape_last (hpos : xbee.pos > 0) :
    xbee.readLoop [some ESCAPE] = .ok ({ xbee with escape := true }, []) := by
  rw [XBee.readLoop.eq_def]
  simp only [if_neg escape_ne_start, and_true, if_pos hpos]

theorem readLoop_escape_nothing (hpos : xbee.pos > 0) :
    xbee.readLoop (some ESCAPE :: none :: polls) =
      XBee.readLoop { xbee with escape := true } polls := by
  rw [XBee.readLoop.eq_def]
  simp only [if_neg escape_ne_start, and_true, if_pos hpos]

theorem readLoop_escape_byte (hpos : xbee.pos > 0) :
    xbee.readLoop (some ESCAPE :: some b :: polls) = (do
      let (xbee, returns) ← xbee.storeByte (0x20 ^^^ b)
      if returns then .ok (xbee, polls) else xbee.readLoop polls) := by
  rw [XBee.readLoop.eq_def]
  simp only [if_neg escape_ne_start, and_true, if_pos hpos]

end

/-- The loop of `readPacket` follows the reader, in however many polls its bytes come. -/
theorem readLoop_reaches {xbee : XBee} {phase : Phase} (h : Represents xbee phase)
    (hends : phase.ends = false) (polls : List (Option Byte)) :
    Reaches phase polls (polls.length - 1) (xbee.readLoop polls) := by
  induction hn : polls.length using Nat.strong_induction_on generalizing xbee phase polls with
  | _ n ih =>
  match polls with
  | [] => exact hn ▸ .stop h []
  | none :: polls =>
    rw [← hn, List.length_cons, Nat.add_sub_cancel]
    exact .nothing (.stop h polls)
  | some b :: polls =>
    rw [List.length_cons] at hn
    have hrest : ∀ rest : List (Option Byte), rest.length ≤ polls.length →
        ∀ xbee' phase', Represents xbee' phase' → phase'.ends = false →
          Reaches phase' rest (rest.length - 1) (xbee'.readLoop rest) :=
      fun rest hle xbee' phase' h' hends' => ih rest.length (by omega) h' hends' rest rfl
    rw [← hn, Nat.add_sub_cancel]
    cases h with
    | completed => cases hends
    | rejected => cases hends
    | idle hcomplete herror hsize hpos htotal hescape =>
      obtain ⟨xbee', hstore, hrep⟩ :=
        storeByte_idle (.idle hcomplete herror hsize hpos htotal hescape) b
      have hnot : ¬ xbee.pos > 0 := by simp [hpos]
      have hgoes : (Phase.step .idle b).ends = false := by
        rw [Phase.step_outside rfl]
        split <;> rfl
      rw [readLoop_plain (by tauto) (by tauto), hstore, ok_bind]
      exact Reaches.cons ((hrest polls le_rfl xbee' (Phase.step .idle b) hrep hgoes).mono
        (Nat.sub_le _ _)) rfl
    | @inside body hreceiving hescape =>
      have hpos := pos_of_receiving hreceiving
      by_cases hstart : b = START_BYTE
      · rw [hstart, readLoop_start hpos]
        have hrep : Represents (xbee.setErrorCode .unexpectedStartByte)
            (Phase.step (.inside body) START_BYTE) :=
          .rejected hreceiving.complete (by simp [XBee.setErrorCode]) hreceiving.size
            (hreceiving.pos.le.trans (Nat.succ_le_succ hreceiving.length_le))
        exact (Reaches.stop hrep polls).cons rfl
      by_cases hesc : b = ESCAPE
      · rw [hesc]
        match polls with
        | [] =>
          rw [readLoop_escape_last hpos]
          refine Reaches.cons ?_ rfl
          exact .stop hreceiving.setEscape []
        | none :: rest =>
          rw [readLoop_escape_nothing hpos]
          refine Reaches.cons (.nothing ?_) rfl
          exact (hrest rest (Nat.le_succ _) _ _ hreceiving.setEscape rfl).mono (by simp; omega)
        | some c :: rest =>
          rw [readLoop_escape_byte hpos]
          have hstored := Reaches.inside hreceiving (0x20 ^^^ c) (hrest rest (Nat.le_succ _))
          by_cases hclean : c = START_BYTE
          · refine (hstored.mono (Nat.le_succ _)).of_not_clean ?_
            rintro ⟨-, hnext, -⟩
            exact (hnext ⟨body, rfl⟩).1 hclean
          · refine Reaches.cons (Reaches.cons ?_ rfl) rfl
            have hnext : Phase.step (.marked body) c = Phase.take body (0x20 ^^^ c) := by
              rw [Phase.step_marked, if_neg hclean]
            rw [XBee.unmasked, hescape, if_neg Bool.false_ne_true, ← hnext] at hstored
            exact hstored.mono (Nat.le_succ _)
      · rw [readLoop_plain (by tauto) (by tauto)]
        have hstep : Phase.step (.inside body) b = Phase.take body (xbee.unmasked b) := by
          rw [Phase.step_inside, if_neg hstart, if_neg hesc, XBee.unmasked, hescape,
            if_neg Bool.false_ne_true]
        refine Reaches.cons ?_ rfl
        rw [hstep]
        exact .inside hreceiving b (hrest polls le_rfl)
    | @marked body hreceiving hescape =>
      have hpos := pos_of_receiving hreceiving
      by_cases hstart : b = START_BYTE
      · rw [hstart, readLoop_start hpos]
        have hrep : Represents (xbee.setErrorCode .unexpectedStartByte)
            (Phase.step (.marked body) START_BYTE) :=
          .rejected hreceiving.complete (by simp [XBee.setErrorCode]) hreceiving.size
            (hreceiving.pos.le.trans (Nat.succ_le_succ hreceiving.length_le))
        exact (Reaches.stop hrep polls).cons rfl
      by_cases hesc : b = ESCAPE
      · have hnot : ∀ rest, ¬ (Phase.marked body).Clean (b :: rest) := by
          rintro rest ⟨hhere, -⟩
          exact (hhere ⟨body, rfl⟩).2 hesc
        rw [hesc] at hnot ⊢
        match polls with
        | [] =>
          rw [readLoop_escape_last hpos]
          exact (Reaches.stop hreceiving.setEscape []).of_not_clean (hnot _)
        | none :: rest =>
          rw [readLoop_escape_nothing hpos]
          exact ((hrest rest (Nat.le_succ _) _ _ hreceiving.setEscape rfl).mono
            (by simp; omega)).of_not_clean (hnot _)
        | some c :: rest =>
          rw [readLoop_escape_byte hpos]
          have hstored := Reaches.inside hreceiving (0x20 ^^^ c) (hrest rest (Nat.le_succ _))
          exact (hstored.mono (Nat.le_succ _)).of_not_clean (hnot _)
      · rw [readLoop_plain (by tauto) (by tauto)]
        have hstep : Phase.step (.marked body) b = Phase.take body (xbee.unmasked b) := by
          rw [Phase.step_marked, if_neg hstart, XBee.unmasked, if_pos hescape]
        refine Reaches.cons ?_ rfl
        rw [hstep]
        exact .inside hreceiving b (hrest polls le_rfl)

/-- What the caller of `readPacket` sees of a frame. -/
def ApiFrame.packet (frame : ApiFrame) : Byte × List Byte := (frame.apiId, frame.data)

/-- Behind a call the packet of a completed frame is available, and of no other. -/
theorem Represents.packets {xbee : XBee} {phase : Phase} (h : Represents xbee phase) :
    (if xbee.response.isAvailable then [xbee.packet] else []) =
      phase.report.map ApiFrame.packet := by
  cases h with
  | idle hcomplete => simp [XBeeResponse.isAvailable, hcomplete, Phase.report]
  | inside hreceiving => simp [XBeeResponse.isAvailable, hreceiving.complete, Phase.report]
  | marked hreceiving => simp [XBeeResponse.isAvailable, hreceiving.complete, Phase.report]
  | completed hcomplete _ _ hframeLength hapiId hdata =>
    simp [XBeeResponse.isAvailable, hcomplete, Phase.report, XBee.packet, ApiFrame.packet,
      hframeLength, hapiId, hdata]
  | rejected hcomplete => simp [XBeeResponse.isAvailable, hcomplete, Phase.report]

section

variable {xbee : XBee} {phase : Phase}

/-- One call: it uses up at least one poll, and the reader is behind it where it was led. -/
theorem readPacket_reports (h : Represents xbee phase) (polls : List (Option Byte)) :
    ∃ xbee' polls' phase', xbee.readPacket polls = .ok (xbee', polls') ∧
      Represents xbee' phase' ∧ polls'.length ≤ polls.length - 1 ∧
      (phase.Clean (bytesOf polls) → phase'.Clean (bytesOf polls') ∧
        phase.reports (bytesOf polls) = phase'.report ++ phase'.reports (bytesOf polls')) := by
  obtain ⟨xbee', polls', phase', hread, hrep, hle, hreports⟩ :=
    readLoop_reaches h.settle phase.settle_ends polls
  refine ⟨xbee', polls', phase', hread, hrep, hle, ?_⟩
  intro hclean
  obtain ⟨hclean', heq⟩ := hreports (Phase.clean_settle hclean)
  rw [Phase.report_of_not_ends phase.settle_ends, List.nil_append, Phase.reports_settle] at heq
  exact ⟨hclean', heq⟩

theorem listen_reports (h : Represents xbee phase) (n : ℕ) (polls : List (Option Byte)) :
    ∃ xbee' polls' phase' packets, xbee.listen n polls = .ok (xbee', polls', packets) ∧
      Represents xbee' phase' ∧ polls'.length ≤ polls.length - n ∧
      (phase.Clean (bytesOf polls) → phase'.Clean (bytesOf polls') ∧
        (phase.reports (bytesOf polls)).map ApiFrame.packet =
          packets ++ (phase'.reports (bytesOf polls')).map ApiFrame.packet) := by
  induction n generalizing xbee phase polls with
  | zero => exact ⟨xbee, polls, phase, [], rfl, h, le_rfl, fun hclean => ⟨hclean, rfl⟩⟩
  | succ n ih =>
    obtain ⟨xbee₁, polls₁, phase₁, hread, hrep, hle, hreports⟩ := readPacket_reports h polls
    obtain ⟨xbee', polls', phase', packets, hlisten, hrep', hle', hmore⟩ := ih hrep polls₁
    refine ⟨xbee', polls', phase', phase₁.report.map ApiFrame.packet ++ packets, ?_, hrep',
      by omega, ?_⟩
    · simp only [XBee.listen, hread, ok_bind, hlisten, hrep.packets]
    · intro hclean
      obtain ⟨hclean₁, heq⟩ := hreports hclean
      obtain ⟨hclean', heq'⟩ := hmore hclean₁
      rw [heq, List.map_append, heq', List.append_assoc]
      exact ⟨hclean', rfl⟩

/-- Enough calls use up all polls and report everything the reader reports. -/
theorem listen_all (h : Represents xbee phase) {n : ℕ} {polls : List (Option Byte)}
    (hn : polls.length ≤ n) (hclean : phase.Clean (bytesOf polls)) :
    ∃ xbee', xbee.listen n polls =
      .ok (xbee', [], (phase.reports (bytesOf polls)).map ApiFrame.packet) := by
  obtain ⟨xbee', polls', phase', packets, hlisten, -, hle, hreports⟩ := listen_reports h n polls
  obtain rfl : polls' = [] := List.length_eq_zero_iff.mp (by omega)
  obtain ⟨-, heq⟩ := hreports hclean
  refine ⟨xbee', ?_⟩
  rw [hlisten, heq]
  simp

end

/-- The stuffing of the line. -/
def apiScheme : Scheme Byte where
  escape := ESCAPE
  reserved := fun b => b == START_BYTE || b == ESCAPE || b == XON || b == XOFF
  mask := fun b => 0x20 ^^^ b
  escape_reserved := by decide
  mask_mask := by
    intro b
    rw [← UInt8.xor_assoc, UInt8.xor_self, UInt8.zero_xor]
  mask_free := by
    intro b hb
    simp only [Bool.or_eq_true, beq_iff_eq] at hb
    rcases hb with ((rfl | rfl) | rfl) | rfl <;> decide

theorem not_start_of_free {b : Byte} (h : apiScheme.reserved b = false) :
    b ≠ START_BYTE ∧ b ≠ ESCAPE := by
  constructor
  · rintro rfl
    exact absurd h (by decide)
  · rintro rfl
    exact absurd h (by decide)

/-- Inside a frame the reader takes the bytes that were stuffed. -/
theorem apiScheme_reads : apiScheme.Reads Phase.step .inside .marked Phase.take where
  plain := by
    intro body b hb
    obtain ⟨hstart, hescape⟩ := not_start_of_free hb
    rw [Phase.step_inside, if_neg hstart, if_neg hescape]
  escape := fun _ => rfl
  masked := by
    intro body b hb
    rw [Phase.step_marked, if_neg (not_start_of_free hb).1]
    rfl

theorem start_notMem_stuff (text : List Byte) : START_BYTE ∉ apiScheme.stuff text := by
  intro hmem
  exact absurd (Scheme.eq_escape_of_mem_stuff hmem (by decide)) (by decide)

namespace Phase

theorem clean_append (phase : Phase) (front behind : List Byte) :
    phase.Clean (front ++ behind) ↔ phase.Clean front ∧ (front.foldl step phase).Clean behind := by
  induction front generalizing phase with
  | nil => simp [Clean]
  | cons b front ih => simp only [List.cons_append, Clean, List.foldl_cons, ih, and_assoc]

theorem foldl_settle (phase : Phase) (bytes : List Byte) :
    (bytes.foldl step phase.settle).settle = (bytes.foldl step phase).settle := by
  cases bytes with
  | nil => cases phase <;> rfl
  | cons b bytes => rw [List.foldl_cons, List.foldl_cons, step_settle]

/-- Outside a frame everything up to the next start byte is skipped. -/
theorem skips {bytes : List Byte} (h : START_BYTE ∉ bytes) :
    bytes.foldl step .idle = .idle ∧ reports .idle bytes = [] ∧ Clean .idle bytes := by
  induction bytes with
  | nil => exact ⟨rfl, rfl, trivial⟩
  | cons b bytes ih =>
    rw [List.mem_cons, not_or] at h
    have hstep : step .idle b = .idle := by rw [step_outside rfl, if_neg (Ne.symm h.1)]
    obtain ⟨hfold, hreports, hclean⟩ := ih h.2
    refine ⟨?_, ?_, ?_, ?_⟩
    · rw [List.foldl_cons, hstep, hfold]
    · rw [reports_cons, hstep, hreports]
      rfl
    · rintro ⟨body, hbody⟩
      cases hbody
    · rw [hstep]
      exact hclean

theorem clean_stuffOne (body : List Byte) (b : Byte) :
    Clean (.inside body) (apiScheme.stuffOne b) := by
  cases hreserved : apiScheme.reserved b with
  | true =>
    rw [Scheme.stuffOne_reserved hreserved]
    refine ⟨?_, ?_, trivial⟩
    · rintro ⟨body', hbody⟩
      cases hbody
    · exact fun _ => not_start_of_free (apiScheme.mask_free b hreserved)
  | false =>
    rw [Scheme.stuffOne_free hreserved]
    refine ⟨?_, trivial⟩
    rintro ⟨body', hbody⟩
    cases hbody

end Phase

end IoTRepublic.XBeeFrames
