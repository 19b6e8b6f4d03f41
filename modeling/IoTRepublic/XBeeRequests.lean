import IoTRepublic.XBeeLine

/-!
Requests on the line. Each request is sent as one frame with its API ID, its
frame ID and its frame data; read back, it gives these and nothing else, however
many requests are sent behind each other.
-/
namespace IoTRepublic.XBeeRequests

open CheckedArray Package Stuffing XBeeApiMode XBeeFrames XBeeLine

/-- The requests of the library. -/
inductive Request
  | zbTx (r : ZBTxRequest)
  | tx16 (r : Tx16Request)
  | tx64 (r : Tx64Request)
  | atCommand (r : AtCommandRequest)
  | remoteAtCommand (r : RemoteAtCommandRequest)

namespace Request

def base : Request → XBeeRequest
  | zbTx r => r.request
  | tx16 r => r.request
  | tx64 r => r.request
  | atCommand r => r.request
  | remoteAtCommand r => r.request

def header : Request → List Byte
  | zbTx r => r.header
  | tx16 r => r.header
  | tx64 r => r.header
  | atCommand r => r.command.bytes
  | remoteAtCommand r => r.header

/-- The memory of the payload and how much of it is to be sent. -/
def payload : Request → List Byte × Byte
  | zbTx r => (r.payload, r.payloadLength)
  | tx16 r => (r.payload, r.payloadLength)
  | tx64 r => (r.payload, r.payloadLength)
  | atCommand r => (r.commandValue, r.commandValueLength)
  | remoteAtCommand r => (r.commandValue, r.commandValueLength)

def frameData (r : Request) : List Byte := r.header ++ r.payload.1.take r.payload.2.toNat

/-- The payload is there, and the frame fits into the array of a reader. -/
structure Fits (r : Request) : Prop where
  inMemory : r.payload.2.toNat ≤ r.payload.1.length
  short : r.header.length + r.payload.2.toNat ≤ 105

/-- Every request is a header and a payload behind it, and its length is theirs. -/
theorem base_eq (r : Request) :
    r.base.getFrameData = frameDataAt r.header r.payload.1 ∧
      r.base.getFrameDataLength = UInt8.ofNat r.header.length + r.payload.2 := by
  cases r with
  | zbTx r => exact ⟨rfl, rfl⟩
  | tx16 r => exact ⟨rfl, rfl⟩
  | tx64 r => exact ⟨rfl, rfl⟩
  | atCommand r => exact ⟨rfl, by rw [header, r.command.size]; rfl⟩
  | remoteAtCommand r =>
    refine ⟨rfl, ?_⟩
    rw [header, RemoteAtCommandRequest.header, List.length_append, r.command.size]
    rfl

theorem frameData_length {r : Request} (h : r.Fits) :
    r.frameData.length = r.header.length + r.payload.2.toNat := by
  rw [frameData, List.length_append, List.length_take_of_le h.inMemory]

theorem getFrameDataLength_eq {r : Request} (h : r.Fits) :
    r.base.getFrameDataLength.toNat = r.frameData.length := by
  have hshort := h.short
  rw [r.base_eq.2, UInt8.toNat_add, UInt8.toNat_ofNat', frameData_length h]
  omega

theorem getFrameData_eq {r : Request} (h : r.Fits) {i : ℕ} {b : Byte}
    (hb : r.frameData[i]? = some b) : r.base.getFrameData (UInt8.ofNat i) = .ok b := by
  have hshort := h.short
  have hlt : i < r.frameData.length := (List.getElem?_eq_some_iff.mp hb).1
  rw [frameData_length h] at hlt
  have hpos : (UInt8.ofNat i).toNat = i := by
    rw [UInt8.toNat_ofNat']
    omega
  rw [r.base_eq.1, frameDataAt, hpos]
  by_cases hheader : i < r.header.length
  · rw [frameData, List.getElem?_append_left hheader] at hb
    rw [if_pos hheader]
    exact readAt_natCast _ _ _ hb
  · rw [frameData, List.getElem?_append_right (by omega), List.getElem?_take_of_lt (by omega)] at hb
    rw [if_neg hheader, show (i : ℤ) - r.header.length = ((i - r.header.length : ℕ) : ℤ) by omega]
    exact readAt_natCast _ _ _ hb

end Request

theorem sendByte_eq (b : Byte) : sendByte b true = apiScheme.stuffOne b := by
  rw [sendByte, Bool.true_and, Scheme.stuffOne, UInt8.xor_comm]
  rfl

/-- The loop over the frame data writes them stuffed and adds them up. -/
theorem sendLoop_eq {request : XBeeRequest} {data : List Byte} {i : ℕ}
    (hdata : ∀ k b, data[k]? = some b → request.getFrameData (UInt8.ofNat (i + k)) = .ok b)
    (checksum : Byte) :
    sendLoop request data.length i checksum =
      .ok (apiScheme.stuff data, checksum + total data) := by
  induction data generalizing i checksum with
  | nil => simp [sendLoop]
  | cons b data ih =>
    have hfirst := hdata 0 b rfl
    have hbehind : ∀ k c, data[k]? = some c →
        request.getFrameData (UInt8.ofNat (i + 1 + k)) = .ok c := by
      intro k c hc
      rw [show i + 1 + k = i + (k + 1) by omega]
      exact hdata (k + 1) c hc
    have hrest := ih hbehind (checksum + b)
    rw [Nat.add_zero] at hfirst
    simp only [List.length_cons, sendLoop, hfirst, ok_bind, hrest, sendByte_eq, Scheme.stuff_cons,
      total_cons, UInt8.add_assoc]

namespace Request

/-- The frame of a request. -/
def frame (r : Request) (h : r.Fits) : ApiFrame where
  apiId := r.base.apiId
  data := r.base.frameId :: r.frameData
  short := by
    rw [List.length_cons, frameData_length h]
    exact Nat.succ_le_succ h.short

/-- A request is sent as its frame. -/
theorem send_eq (r : Request) (h : r.Fits) :
    send r.base = .ok (Segment.sent (r.frame h)).bytes := by
  have hlength := getFrameDataLength_eq h
  have hshort := h.short
  have hdata : ∀ k b, r.frameData[k]? = some b →
      r.base.getFrameData (UInt8.ofNat (0 + k)) = .ok b := by
    intro k b hb
    rw [Nat.zero_add]
    exact getFrameData_eq h hb
  have hloop := sendLoop_eq hdata (r.base.apiId + r.base.frameId)
  have hmsb : UInt8.ofNat ((r.frameData.length + 2) >>> 8 &&& 0xff) = 0 := by
    rw [frameData_length h, Nat.shiftRight_eq_div_pow, Nat.div_eq_of_lt (by omega)]
    rfl
  have hlsb : (r.frameData.length + 2) &&& 0xff = r.frameData.length + 2 := by
    rw [frameData_length h, show 0xff = 2 ^ 8 - 1 from rfl, Nat.and_two_pow_sub_one_eq_mod]
    omega
  have hchecksum : 0xff - (r.base.apiId + r.base.frameId + total r.frameData) =
      checksumOf (r.frame h) := by
    rw [checksumOf, frame, total_cons, total_cons, UInt8.add_assoc]
  have hstart : sendByte START_BYTE false = [START_BYTE] := rfl
  simp only [send, hlength, hloop, ok_bind, hmsb, hlsb, hchecksum, hstart, sendByte_eq]
  simp only [Segment.sent, Segment.bytes, frameBody, frameFront, frame, List.length_cons,
    List.cons_append, List.append_assoc, List.nil_append, Scheme.stuff_cons, Scheme.stuff_append,
    Scheme.stuff_nil, List.append_nil]

/-- What the reader is expected to report of a request. -/
def packet (r : Request) : Byte × List Byte := (r.base.apiId, r.base.frameId :: r.frameData)

end Request

/-- Requests that fit are written as their frames, behind each other. -/
theorem sendAll_eq (requests : List Request) (hfits : ∀ r ∈ requests, r.Fits) :
    ∃ segments written, requests.mapM (fun r => send r.base) = .ok written ∧
      written.flatten = segments.flatMap Segment.bytes ∧ Wellformed false segments ∧
      (delivered false segments).map ApiFrame.packet = requests.map Request.packet := by
  induction requests with
  | nil => exact ⟨[], [], rfl, rfl, trivial, rfl⟩
  | cons r requests ih =>
    have hr := hfits r List.mem_cons_self
    obtain ⟨segments, written, hsend, hbytes, hwell, hdelivered⟩ :=
      ih (fun r' hr' => hfits r' (List.mem_cons_of_mem r hr'))
    refine ⟨.sent (r.frame hr) :: segments, (Segment.sent (r.frame hr)).bytes :: written, ?_, ?_,
      hwell, ?_⟩
    · rw [List.mapM_cons, r.send_eq hr, ok_bind, hsend]
      rfl
    · rw [List.flatten_cons, hbytes, List.flatMap_cons]
    · rw [Segment.sent, delivered, if_pos (right_checksumOf _), List.map_append, hdelivered]
      rfl

/-- Requests of every kind are read back from the line as they were sent. -/
theorem listen_requests (response : XBeeResponse) (frameData : CharArray MAX_FRAME_DATA_SIZE)
    (requests : List Request) (hfits : ∀ r ∈ requests, r.Fits) :
    ∃ written, requests.mapM (fun r => send r.base) = .ok written ∧
      ∀ polls n, bytesOf polls = written.flatten → polls.length ≤ n →
        ∃ xbee, (XBee.new response frameData).listen n polls =
          .ok (xbee, [], requests.map Request.packet) := by
  obtain ⟨segments, written, hsend, hbytes, hwell, hdelivered⟩ := sendAll_eq requests hfits
  refine ⟨written, hsend, ?_⟩
  intro polls n hpolls hn
  obtain ⟨xbee, hlisten⟩ := listen_segments (represents_new response frameData) hwell
    (hpolls.trans hbytes) hn
  exact ⟨xbee, by rw [hlisten, hdelivered]⟩

/-- A command to scan the network and a fragment with a start byte in it. -/
theorem listen_requests_scan :
    ∃ requests written, requests =
        [.atCommand ⟨⟨ascii "ND", rfl⟩, [], 0⟩,
          .zbTx ((ZBTxRequest.ofData ⟨0x13a200, 0x40be2757⟩ [START_BYTE, 1, 2] 2))] ∧
      requests.mapM (fun r => send (Request.base r)) = .ok written ∧
      ∃ xbee, XBee.global.listen written.flatten.length (written.flatten.map some) =
        .ok (xbee, [], requests.map Request.packet) := by
  let requests : List Request := [.atCommand ⟨⟨ascii "ND", rfl⟩, [], 0⟩,
    .zbTx ((ZBTxRequest.ofData ⟨0x13a200, 0x40be2757⟩ [START_BYTE, 1, 2] 2))]
  have hfits : ∀ r ∈ requests, r.Fits := by
    intro r hr
    rcases List.mem_cons.mp hr with rfl | hr
    · exact ⟨by decide, by decide⟩
    · obtain rfl := List.mem_singleton.mp hr
      exact ⟨by decide, by decide⟩
  obtain ⟨written, hsend, hlisten⟩ := listen_requests ⟨0, 0, 0, 0, 0, false, .noError⟩
    (CharArray.zero MAX_FRAME_DATA_SIZE) requests hfits
  refine ⟨requests, written, rfl, hsend, hlisten (written.flatten.map some) _ ?_ ?_⟩
  · rw [bytesOf, List.filterMap_map]
    exact List.filterMap_some
  · rw [List.length_map]

end IoTRepublic.XBeeRequests
