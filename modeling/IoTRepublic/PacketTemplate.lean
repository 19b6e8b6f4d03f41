import IoTRepublic.CSharpJson

/-!
The packet template of the C# library. A table of 23 rows describes a document: every
object, every key and every value has a row, each in front of what it contains. The
builder of a packet and the decoder walk over the same table with the same cursors;
the decoder writes `0` for the value of `Data`, which it sets afterwards.
-/
namespace IoTRepublic.PacketTemplate

open CheckedArray Jsmn CSharpJson
open Package (Byte ascii)
open CSharpReader (Char16 utf16)

structure TokenInfo where
  num : ℕ
  nameLens : List ℕ
  names : List (List Char16)
  types : List TokenType
  sons : List ℕ

def nameLens : List ℕ :=
  [0, 12, 0, 11, 0, 6, 0, 7, 0, 8, 0, 5, 0, 6, 0, 6, 0, 15, 0, 4, 0, 4, 0]

def longName : List Byte :=
  ascii "magic numberUDP SegmentHeaderVersionData_LenH_LenIP_SrcIP_DesHeader_ChecksumFlagData"

/-- The names, cut one behind the other from one string into arrays of 24 characters. -/
def cutNames : List ℕ → List Char16 → List (List Char16)
  | [], _ => []
  | n :: lens, long =>
    (long.take n ++ List.replicate (24 - n) 0) :: cutNames lens (long.drop n)

def initTokenInfo : TokenInfo where
  num := 23
  nameLens := nameLens
  names := cutNames nameLens (utf16 longName)
  types := [.object, .string, .string, .string, .object, .string, .object, .string, .string,
    .string, .string, .string, .string, .string, .string, .string, .string, .string, .string,
    .string, .string, .string, .string]
  sons := [2, 1, 0, 1, 2, 1, 7, 1, 0, 1, 0, 1, 0, 1, 0, 1, 0, 1, 0, 1, 0, 1, 0]

/-- The array that is written and the three cursors. When the outermost object is closed, the
cursors start again, and `size` and `dataIn` keep where two of them were. -/
structure Builder where
  decoded : List Char16
  decodedI : ℕ
  infoI : ℕ
  inI : ℕ
  size : ℕ
  dataIn : ℕ

namespace Builder

def arrPutc (c : Char16) (s : Builder) : Exec Builder := do
  let decoded ← writeAt s.decoded s.decodedI c
  .ok { s with decoded := decoded, decodedI := s.decodedI + 1 }

def arrPuts (src : List Char16) (s : Builder) : Exec Builder := do
  let text ← cString 0 src
  let decoded ← copyLoop text text.length 0 s.decodedI s.decoded
  .ok { s with decoded := decoded, decodedI := s.decodedI + text.length }

/-- The next string of the input. -/
def inArrPuts (src : List Char16) (s : Builder) : Exec Builder := do
  let text ← cString 0 (src.drop s.inI)
  let decoded ← copyLoop text text.length 0 s.decodedI s.decoded
  .ok { s with
    decoded := decoded
    decodedI := s.decodedI + text.length
    inI := s.inI + text.length + 1 }

def putTabs : ℕ → Builder → Exec Builder
  | 0, s => .ok s
  | n + 1, s => do
    let s ← s.arrPutc 9
    putTabs n s

end Builder

/-- The members of an object or an array, with a comma behind every one but the last. -/
def buildSons (call : Builder → Exec Builder) : ℕ → Builder → Exec Builder
  | 0, s => .ok s
  | n + 1, s => do
    let s ← call { s with infoI := s.infoI + 1 }
    let s ← (if n ≠ 0 then s.arrPutc comma.toUInt16 else .ok s)
    buildSons call n s

/-- An object or an array, from its bracket on. -/
def buildContainer (call : Builder → Exec Builder) (opening closing : Byte) (info : TokenInfo)
    (tabNum : ℕ) (s : Builder) : Exec Builder := do
  let son ← readAt info.sons s.infoI
  let s ← s.arrPutc opening.toUInt16
  let s ← buildSons call son s
  let s ← s.arrPutc 10
  let s ← s.putTabs tabNum
  s.arrPutc closing.toUInt16

/-- The recursion of `build_packet` and of `build_decoded`, which differ in the values that are
left `0`. Every call but the first moves the cursor of the table on, so the table bounds them. -/
def build (zeroed : List Char16 → Bool) (input : List Char16) (info : TokenInfo) :
    ℕ → ℕ → Builder → Exec Builder
  | 0, _, _ => .error .unfinished
  | fuel + 1, tabNum, s =>
    if s.infoI = info.num then .ok s
    else do
      let s ← (if tabNum ≠ 0 then s.arrPutc 10 else .ok s)
      let s ← s.putTabs tabNum
      let nameLen ← readAt info.nameLens s.infoI
      let s ← (if nameLen ≠ 0 then do
          let s ← s.arrPutc quote.toUInt16
          let name ← readAt info.names s.infoI
          let s ← s.arrPuts name
          s.arrPutc quote.toUInt16
        else .ok s)
      let type ← readAt info.types s.infoI
      match type with
      | .object => do
        let s ← buildContainer (build zeroed input info fuel (tabNum + 1)) leftBrace rightBrace
          info tabNum s
        if tabNum = 0 then
          .ok { s with decodedI := 0, infoI := 0, inI := 0, size := s.decodedI, dataIn := s.inI }
        else .ok s
      | .array =>
        buildContainer (build zeroed input info fuel (tabNum + 1)) leftBracket rightBracket
          info tabNum s
      | _ => do
        let son ← readAt info.sons s.infoI
        if son = 1 then do
          let s ← s.arrPutc colon.toUInt16
          let next ← readAt info.types (s.infoI + 1)
          if next = .object ∨ next = .array then
            build zeroed input info fuel tabNum { s with infoI := s.infoI + 1 }
          else do
            let name ← readAt info.names s.infoI
            let name ← cString 0 name
            let s ← (if zeroed name then s.arrPutc 48 else s.inArrPuts input)
            .ok { s with infoI := s.infoI + 1 }
        else .ok s

def buildPacket (input : List Char16) (info : TokenInfo) (packet : List Char16) : Exec Builder :=
  build (fun _ => false) input info (info.num + 1) 0 ⟨packet, 0, 0, 0, 0, 0⟩

def buildDecoded (input : List Char16) (info : TokenInfo) (decoded : List Char16) :
    Exec Builder :=
  build (fun name => name = utf16 (ascii "Data")) input info (info.num + 1) 0
    ⟨decoded, 0, 0, 0, 0, 0⟩

def zeroValues : List Char16 := (List.replicate MAXPACKETSIZE [48, 0]).flatten

def initJsonPacket (jsonData : JsonData) : Method JsonData := do
  let s ← checked (buildPacket zeroValues initTokenInfo jsonData.content)
  let content ← checked (writeAt s.decoded s.size 0)
  initToken { jsonData with content := content, contentSize := s.size }

def getPacketValue (key : List (List Char16)) (jsonData : JsonData) (result : List Char16) :
    Method (List Char16) := getJsfileValue key jsonData result

def setPacketSingleValue (value : List Char16) (key : List (List Char16)) (jsonData : JsonData) :
    Method JsonData := setJsfileSingleValue value key jsonData

/-- The loop of `encodeInRange`, with the number of tokens left to look at. -/
def encodeLoop (jsonData : JsonData) : ℕ → ℕ → List Char16 → ℕ → Exec (List Char16 × ℕ)
  | 0, _, encodetemp, r => .ok (encodetemp, r)
  | n + 1, i, encodetemp, r => do
    let t ← readAt jsonData.tokens i
    if t.size = 0 ∧ (t.type = .string ∨ t.type = .primitive) then do
      let temp ← getPatteren ⟨t.start, t.stop⟩ jsonData.content
        (List.replicate (t.stop - t.start + 1).toNat 0)
      let encodetemp ← copyLoop temp temp.length 0 r encodetemp
      encodeLoop jsonData n (i + 1) encodetemp (r + temp.length)
    else encodeLoop jsonData n (i + 1) encodetemp r

def encode (jsonData : JsonData) (output : List Char16) : Exec (List Char16 × ℕ) :=
  encodeLoop jsonData jsonData.tokenSize.toNat 0 output 0

/-- The text behind the values that were read is set as the value of `Data`. -/
def decode (input : List Char16) (jsonData : JsonData) (data : List Char16) :
    Method (JsonData × List Char16) := do
  let s ← checked (buildDecoded input initTokenInfo jsonData.content)
  let jsonData ← initToken { jsonData with content := s.decoded, contentSize := s.size }
  let data ← checked (arrPuts data (input.drop s.dataIn))
  let jsonData ← setJsfileSingleValue data [utf16 (ascii "Data")] jsonData
  .ok (jsonData, data)

/-- A `JsonData` as its constructor leaves it. -/
def newJsonData : JsonData := ⟨false, [], 0, List.replicate MAXPACKETSIZE 0, 0⟩

end IoTRepublic.PacketTemplate
