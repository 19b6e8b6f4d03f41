import IoTRepublic.JsFileParser

/-!
Commands and their JSON text. A command is encoded by setting three values of a
fixed document and decoded by looking the same three up.
-/
namespace IoTRepublic.Command

open CheckedArray Package JsFileParser

abbrev COMMAND_CHAR_SIZE : ℕ := 10

inductive CommandType
  | none
  | readRequest
  | readResponse
  | write
  | management
  deriving DecidableEq, Repr

structure IoTCommand where
  cmdType : CommandType
  ID : CharArray COMMAND_CHAR_SIZE
  Value : CharArray COMMAND_CHAR_SIZE
  deriving DecidableEq

def generateIotCommand : IoTCommand :=
  ⟨.none, CharArray.zero COMMAND_CHAR_SIZE, CharArray.zero COMMAND_CHAR_SIZE⟩

def emptyCmd : List Byte :=
  ascii "\x7b\"IOTCMD\":\x7b\"Type\":None,\"ID\":0,\"Value\":0\x7d\x7d"

/-- The text for each command type that has one. -/
def typeText : CommandType → Option (List Byte)
  | .none => none
  | .readRequest => some (ascii "Req")
  | .readResponse => some (ascii "Res")
  | .write => some (ascii "Wri")
  | .management => some (ascii "Man")

def typeOfText (text : List Byte) (otherwise : CommandType) : CommandType :=
  if text = ascii "Req" then .readRequest
  else if text = ascii "Res" then .readResponse
  else if text = ascii "Wri" then .write
  else if text = ascii "Man" then .management
  else otherwise

/-- `encode_iot_cmd`; `jsonObj` is the local document before anything is copied into it,
and `beyond` is the memory behind the command, which a string without terminator runs
into. -/
def encodeIotCmd (jsonObj : JsonData) (cmdBuffer : List Byte) (cmd : IoTCommand)
    (beyond : List Byte) : Exec (List Byte × ℤ) := do
  let content ← strcpy jsonObj.content (emptyCmd ++ [0])
  let jsonObj ← initToken { jsonObj with content := content }
  match typeText cmd.cmdType with
  | none => .ok (cmdBuffer, -1)
  | some text => do
    let jsonObj ← setJsfileSingleValue (text ++ [0]) [ascii "IOTCMD", ascii "Type"] jsonObj
    let jsonObj ← setJsfileSingleValue (cmd.ID.bytes ++ (cmd.Value.bytes ++ beyond))
      [ascii "IOTCMD", ascii "ID"] jsonObj
    let jsonObj ← setJsfileSingleValue (cmd.Value.bytes ++ beyond)
      [ascii "IOTCMD", ascii "Value"] jsonObj
    let cmdBuffer ← strcpy cmdBuffer jsonObj.content
    .ok (cmdBuffer, jsonObj.contentSize + 1)

abbrev maxValueSize : ℕ := 100

/-- The string found for a key of the command, in a cleared array. -/
def commandValue (jsonObj : JsonData) (key : List Byte) : Exec (List Byte) := do
  let tempValue ← getJsfileValue [ascii "IOTCMD", key] jsonObj (List.replicate maxValueSize 0)
  cString 0 tempValue

/-- `decode_iot_cmd`; `cmdBuffer` is the memory from the string on. -/
def decodeIotCmd (jsonObj : JsonData) (cmdBuffer : List Byte) (cmd : IoTCommand) :
    Exec IoTCommand := do
  let content ← strcpy jsonObj.content cmdBuffer
  let jsonObj ← initToken { jsonObj with content := content }
  let type ← commandValue jsonObj (ascii "Type")
  let idText ← commandValue jsonObj (ascii "ID")
  let ID ← CharArray.ofText COMMAND_CHAR_SIZE idText
  let valueText ← commandValue jsonObj (ascii "Value")
  let Value ← CharArray.ofText COMMAND_CHAR_SIZE valueText
  .ok ⟨typeOfText type cmd.cmdType, ID, Value⟩

end IoTRepublic.Command
