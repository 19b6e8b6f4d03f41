import IoTRepublic.XBeeBroker

/-!
The frames between the program and the XBee radio. A frame is a start byte, a
two-byte length, the API ID, the data of the frame and a checksum; behind the
start byte a byte that has a meaning on the line is sent masked behind an
escape. Frames are read byte by byte from what the serial port has, over as
many calls as it takes, and kept in an array of a fixed size.
-/
namespace IoTRepublic.XBeeApiMode

open CheckedArray Package
open XBeeBroker (XBeeAddress64 DEFAULT_FRAME_ID)

abbrev START_BYTE : Byte := 0x7e
abbrev ESCAPE : Byte := 0x7d
abbrev XON : Byte := 0x11
abbrev XOFF : Byte := 0x13

abbrev MAX_FRAME_DATA_SIZE : ℕ := 110
abbrev API_ID_INDEX : Byte := 3

abbrev ZB_TX_API_LENGTH : Byte := 12
abbrev TX_16_API_LENGTH : Byte := 3
abbrev TX_64_API_LENGTH : Byte := 9
abbrev AT_COMMAND_API_LENGTH : Byte := 2
abbrev REMOTE_AT_COMMAND_API_LENGTH : Byte := 13

abbrev ZB_BROADCAST_ADDRESS : UInt16 := 0xfffe
abbrev ZB_BROADCAST_RADIUS_MAX_HOPS : Byte := 0
abbrev ZB_TX_UNICAST : Byte := 0

abbrev TX_64_REQUEST : Byte := 0x0
abbrev TX_16_REQUEST : Byte := 0x1
abbrev AT_COMMAND_REQUEST : Byte := 0x08
abbrev ZB_TX_REQUEST : Byte := 0x10
abbrev REMOTE_AT_REQUEST : Byte := 0x17
abbrev AT_COMMAND_RESPONSE : Byte := 0x88
abbrev ZB_TX_STATUS_RESPONSE : Byte := 0x8b
abbrev ZB_RX_RESPONSE : Byte := 0x90

inductive ErrorCode
  | noError
  | checksumFailure
  | packetExceedsByteArrayLength
  | unexpectedStartByte
  deriving DecidableEq

/-- The pointer to the data of the frame is left out: it points to the array of the `XBee`. -/
structure XBeeResponse where
  apiId : Byte
  msbLength : Byte
  lsbLength : Byte
  checksum : Byte
  frameLength : Byte
  complete : Bool
  errorCode : ErrorCode
  deriving DecidableEq

namespace XBeeResponse

def isAvailable (response : XBeeResponse) : Bool := response.complete

def isError (response : XBeeResponse) : Bool := response.errorCode ≠ .noError

/-- The high byte is shifted out of the byte that is kept of it. -/
def getPacketLength (response : XBeeResponse) : ℕ :=
  ((response.msbLength.toNat <<< 8) &&& 0xff) + (response.lsbLength.toNat &&& 0xff)

def init (response : XBeeResponse) : XBeeResponse :=
  { response with complete := false, errorCode := .noError, checksum := 0 }

def reset (response : XBeeResponse) : XBeeResponse :=
  { response.init with apiId := 0, msbLength := 0, lsbLength := 0, checksum := 0, frameLength := 0 }

end XBeeResponse

/-- What is kept between two calls of `readPacket`. -/
structure XBee where
  response : XBeeResponse
  escape : Bool
  pos : Byte
  checksumTotal : Byte
  responseFrameData : List Byte
  deriving DecidableEq

namespace XBee

/-- The constructor. The rest of `response` and the array hold what was in the memory. -/
def new (response : XBeeResponse) (frameData : CharArray MAX_FRAME_DATA_SIZE) : XBee where
  response := response.init
  escape := false
  pos := 0
  checksumTotal := 0
  responseFrameData := frameData.bytes

/-- The global object of a broker: its memory is zero when the constructor runs. -/
def global : XBee := new ⟨0, 0, 0, 0, 0, false, .noError⟩ (CharArray.zero MAX_FRAME_DATA_SIZE)

def resetResponse (xbee : XBee) : XBee :=
  { xbee with pos := 0, escape := false, checksumTotal := 0, response := xbee.response.reset }

def setErrorCode (xbee : XBee) (errorCode : ErrorCode) : XBee :=
  { xbee with response := { xbee.response with errorCode := errorCode } }

/-- The `switch` over the position, and whether `readPacket` returns in it. -/
def storeAt (xbee : XBee) (b : Byte) : Exec (XBee × Bool) :=
  if xbee.pos = 0 then
    .ok (if b = START_BYTE then { xbee with pos := xbee.pos + 1 } else xbee, false)
  else if xbee.pos = 1 then
    .ok ({ xbee with response := { xbee.response with msbLength := b }, pos := xbee.pos + 1 },
      false)
  else if xbee.pos = 2 then
    .ok ({ xbee with response := { xbee.response with lsbLength := b }, pos := xbee.pos + 1 },
      false)
  else if xbee.pos = 3 then
    .ok ({ xbee with response := { xbee.response with apiId := b }, pos := xbee.pos + 1 }, false)
  else if xbee.pos.toNat > MAX_FRAME_DATA_SIZE then
    .ok (xbee.setErrorCode .packetExceedsByteArrayLength, true)
  else if xbee.pos.toNat = xbee.response.getPacketLength + 3 then
    let response := if xbee.checksumTotal &&& 0xff = 0xff then
        { xbee.response with checksum := b, complete := true, errorCode := .noError }
      else { xbee.response with errorCode := .checksumFailure }
    .ok ({ xbee with response := { response with frameLength := xbee.pos - 4 }, pos := 0 }, true)
  else do
    let frameData ← writeAt xbee.responseFrameData ((xbee.pos.toNat : ℤ) - 4) b
    .ok ({ xbee with responseFrameData := frameData, pos := xbee.pos + 1 }, false)

/-- A byte behind an escape is unmasked. -/
def unmasked (xbee : XBee) (b : Byte) : Byte := if xbee.escape then 0x20 ^^^ b else b

/-- The checksum is over all bytes from the API ID on. -/
def summed (xbee : XBee) (b : Byte) : XBee :=
  { xbee with
    escape := false
    checksumTotal :=
      if API_ID_INDEX ≤ xbee.pos then xbee.checksumTotal + b else xbee.checksumTotal }

/-- A round of the loop of `readPacket` from the look at `_escape` on. -/
def storeByte (xbee : XBee) (b : Byte) : Exec (XBee × Bool) :=
  (xbee.summed (xbee.unmasked b)).storeAt (xbee.unmasked b)

/-- The loop of `readPacket`. The list is what the polls of the port give, one for each call
of `available`; behind its end they give nothing. -/
def readLoop (xbee : XBee) : List (Option Byte) → Exec (XBee × List (Option Byte))
  | [] => .ok (xbee, [])
  | none :: polls => .ok (xbee, polls)
  | some b :: polls =>
    if xbee.pos > 0 ∧ b = START_BYTE then
      .ok (xbee.setErrorCode .unexpectedStartByte, polls)
    else if xbee.pos > 0 ∧ b = ESCAPE then
      match polls with
      | [] => .ok ({ xbee with escape := true }, [])
      | none :: polls => readLoop { xbee with escape := true } polls
      | some b :: polls => do
        let (xbee, returns) ← storeByte xbee (0x20 ^^^ b)
        if returns then .ok (xbee, polls) else readLoop xbee polls
    else do
      let (xbee, returns) ← storeByte xbee b
      if returns then .ok (xbee, polls) else readLoop xbee polls

/-- `readPacket` resets what the call before has reported. -/
def settle (xbee : XBee) : XBee :=
  if xbee.response.isAvailable || xbee.response.isError then xbee.resetResponse else xbee

def readPacket (xbee : XBee) (polls : List (Option Byte)) : Exec (XBee × List (Option Byte)) :=
  readLoop xbee.settle polls

/-- The API ID and the data of the frame. -/
def packet (xbee : XBee) : Byte × List Byte :=
  (xbee.response.apiId, xbee.responseFrameData.take xbee.response.frameLength.toNat)

/-- `n` calls of `readPacket`, each followed by a look at whether a packet is there. -/
def listen : ℕ → XBee → List (Option Byte) →
    Exec (XBee × List (Option Byte) × List (Byte × List Byte))
  | 0, xbee, polls => .ok (xbee, polls, [])
  | n + 1, xbee, polls => do
    let (xbee, polls) ← readPacket xbee polls
    let packets := if xbee.response.isAvailable then [xbee.packet] else []
    let (xbee, polls, more) ← listen n xbee polls
    .ok (xbee, polls, packets ++ more)

end XBee

/-- The number in the four bytes from `i` on, high byte first. -/
def getWord (frameData : List Byte) (i : ℤ) : Exec UInt32 := do
  let b₀ ← readAt frameData i
  let b₁ ← readAt frameData (i + 1)
  let b₂ ← readAt frameData (i + 2)
  let b₃ ← readAt frameData (i + 3)
  .ok ((b₀.toUInt32 <<< 24) + (b₁.toUInt32 <<< 16) + (b₂.toUInt32 <<< 8) + b₃.toUInt32)

namespace ZBRxResponse

def getRemoteAddress64 (frameData : List Byte) : Exec XBeeAddress64 := do
  let msb ← getWord frameData 0
  let lsb ← getWord frameData 4
  .ok ⟨msb, lsb⟩

def getDataOffset : Byte := 11

def getDataLength (response : XBeeResponse) : Byte :=
  UInt8.ofNat response.getPacketLength - getDataOffset - 1

/-- The bytes behind `getData`, as many as `getDataLength` says. -/
def getData (xbee : XBee) : Exec (List Byte) :=
  CheckedArray.readLoop xbee.responseFrameData (getDataLength xbee.response).toNat
    getDataOffset.toNat

end ZBRxResponse

namespace TxStatusResponse

def getFrameId (frameData : List Byte) : Exec Byte := readAt frameData 0

def getStatus (frameData : List Byte) : Exec Byte := readAt frameData 4

end TxStatusResponse

/-- The bytes of `getMsb` or `getLsb`, high byte first. -/
def bytes32 (x : UInt32) : List Byte :=
  [(x >>> 24).toUInt8, (x >>> 16).toUInt8, (x >>> 8).toUInt8, x.toUInt8]

def bytes16 (x : UInt16) : List Byte := [(x >>> 8).toUInt8, x.toUInt8]

/-- A request: what it has of the base class, and its virtual functions. -/
structure XBeeRequest where
  apiId : Byte
  frameId : Byte
  getFrameData : Byte → Exec Byte
  getFrameDataLength : Byte

/-- The frame data of a request is a header of its own and the payload behind it. -/
def frameDataAt (header payload : List Byte) (pos : Byte) : Exec Byte :=
  if pos.toNat < header.length then readAt header pos.toNat
  else readAt payload ((pos.toNat : ℤ) - header.length)

/-- `payload` is the memory behind the pointer. -/
structure ZBTxRequest where
  frameId : Byte
  addr64 : XBeeAddress64
  addr16 : UInt16
  broadcastRadius : Byte
  option : Byte
  payload : List Byte
  payloadLength : Byte

namespace ZBTxRequest

/-- The constructor with an address and data. -/
def ofData (addr64 : XBeeAddress64) (data : List Byte) (dataLength : Byte) : ZBTxRequest where
  frameId := DEFAULT_FRAME_ID
  addr64 := addr64
  addr16 := ZB_BROADCAST_ADDRESS
  broadcastRadius := ZB_BROADCAST_RADIUS_MAX_HOPS
  option := ZB_TX_UNICAST
  payload := data
  payloadLength := dataLength

def header (r : ZBTxRequest) : List Byte :=
  bytes32 r.addr64.msb ++ bytes32 r.addr64.lsb ++ bytes16 r.addr16 ++ [r.broadcastRadius, r.option]

def request (r : ZBTxRequest) : XBeeRequest where
  apiId := ZB_TX_REQUEST
  frameId := r.frameId
  getFrameData := frameDataAt r.header r.payload
  getFrameDataLength := ZB_TX_API_LENGTH + r.payloadLength

end ZBTxRequest

structure Tx16Request where
  frameId : Byte
  addr16 : UInt16
  option : Byte
  payload : List Byte
  payloadLength : Byte

namespace Tx16Request

def header (r : Tx16Request) : List Byte := bytes16 r.addr16 ++ [r.option]

def request (r : Tx16Request) : XBeeRequest where
  apiId := TX_16_REQUEST
  frameId := r.frameId
  getFrameData := frameDataAt r.header r.payload
  getFrameDataLength := TX_16_API_LENGTH + r.payloadLength

end Tx16Request

structure Tx64Request where
  frameId : Byte
  addr64 : XBeeAddress64
  option : Byte
  payload : List Byte
  payloadLength : Byte

namespace Tx64Request

def header (r : Tx64Request) : List Byte :=
  bytes32 r.addr64.msb ++ bytes32 r.addr64.lsb ++ [r.option]

def request (r : Tx64Request) : XBeeRequest where
  apiId := TX_64_REQUEST
  frameId := r.frameId
  getFrameData := frameDataAt r.header r.payload
  getFrameDataLength := TX_64_API_LENGTH + r.payloadLength

end Tx64Request

structure AtCommandRequest where
  command : CharArray 2
  commandValue : List Byte
  commandValueLength : Byte

namespace AtCommandRequest

def request (r : AtCommandRequest) : XBeeRequest where
  apiId := AT_COMMAND_REQUEST
  frameId := DEFAULT_FRAME_ID
  getFrameData := frameDataAt r.command.bytes r.commandValue
  getFrameDataLength := AT_COMMAND_API_LENGTH + r.commandValueLength

end AtCommandRequest

structure RemoteAtCommandRequest where
  remoteAddress64 : XBeeAddress64
  remoteAddress16 : UInt16
  applyChanges : Bool
  command : CharArray 2
  commandValue : List Byte
  commandValueLength : Byte

namespace RemoteAtCommandRequest

def header (r : RemoteAtCommandRequest) : List Byte :=
  bytes32 r.remoteAddress64.msb ++ bytes32 r.remoteAddress64.lsb ++ bytes16 r.remoteAddress16 ++
    [if r.applyChanges then 2 else 0] ++ r.command.bytes

def request (r : RemoteAtCommandRequest) : XBeeRequest where
  apiId := REMOTE_AT_REQUEST
  frameId := DEFAULT_FRAME_ID
  getFrameData := frameDataAt r.header r.commandValue
  getFrameDataLength := REMOTE_AT_COMMAND_API_LENGTH + r.commandValueLength

end RemoteAtCommandRequest

/-- What is written to the port. -/
def sendByte (b : Byte) (escape : Bool) : List Byte :=
  if escape && (b == START_BYTE || b == ESCAPE || b == XON || b == XOFF) then
    [ESCAPE, b ^^^ 0x20]
  else [b]

/-- The loop over the frame data: what is written, and the sum with the bytes added. -/
def sendLoop (request : XBeeRequest) : ℕ → ℕ → Byte → Exec (List Byte × Byte)
  | 0, _, checksum => .ok ([], checksum)
  | n + 1, i, checksum => do
    let b ← request.getFrameData (UInt8.ofNat i)
    let (written, checksum) ← sendLoop request n (i + 1) (checksum + b)
    .ok (sendByte b true ++ written, checksum)

def send (request : XBeeRequest) : Exec (List Byte) := do
  let length := request.getFrameDataLength.toNat + 2
  let msbLen := UInt8.ofNat ((length >>> 8) &&& 0xff)
  let lsbLen := UInt8.ofNat (length &&& 0xff)
  let (written, checksum) ← sendLoop request request.getFrameDataLength.toNat 0
    (request.apiId + request.frameId)
  .ok (sendByte START_BYTE false ++ sendByte msbLen true ++ sendByte lsbLen true ++
    sendByte request.apiId true ++ sendByte request.frameId true ++ written ++
    sendByte (0xff - checksum) true)

end IoTRepublic.XBeeApiMode
