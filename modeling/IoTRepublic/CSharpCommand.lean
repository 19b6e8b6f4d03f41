import IoTRepublic.CommandCodec
import IoTRepublic.CSharpDocument

/-!
The command codec of the C# library. It sets the type, the ID and the value in the same
document as the C++ one, but refuses a command without a type, and leaves out an ID or a
value that is null. The texts it writes are those of the C++ encoder, and each decoder
reads back what the other library has encoded.
-/
namespace IoTRepublic.CSharpCommand

open CheckedArray Jsmn JsonText JsonTable CSharpJson CommandText CommandCodec
open Package (Byte ascii)
open Command (CommandType typeText emptyCmd maxValueSize)
open CSharpReader (Char16 utf16 length_utf16 map_utf16 utf16_append zero_notMem_utf16 getFixString)
open Lookup (tokenText rangeOf hitOf)
open KeyPath (rangeAt Passes hitOf_pass hitOf_hit)
open TokenUpdate (quoted_of_bare)

/-- The class `IoT_Command`; its texts are strings or null. -/
structure IoTCommand where
  cmdType : CommandType
  ID : Option (List Char16)
  Value : Option (List Char16)
  deriving DecidableEq

/-- What a method of the codec throws: what the parser throws, or its own exception. -/
inductive Refused
  | parser (t : Thrown)
  | invalidType
  deriving DecidableEq

def parsed {α : Type} : Method α → Except Refused α
  | .ok a => .ok a
  | .error t => .error (.parser t)

@[simp] theorem accepted_bind {α β : Type} (a : α) (f : α → Except Refused β) :
    (Except.ok a >>= f) = f a := rfl

@[simp] theorem parsed_ok {α : Type} (a : α) : parsed (.ok a) = .ok a := rfl

def newJson (content : List Char16) : JsonData := ⟨false, [], 0, content, 0⟩

/-- A value of the command, if there is one. -/
def setValue (key : List Byte) (jsonObj : JsonData) : Option (List Char16) → Except Refused JsonData
  | none => .ok jsonObj
  | some value => parsed (setJsfileSingleValue (value ++ [0])
      [utf16 (ascii "IOTCMD"), utf16 key] jsonObj)

/-- The content array and the number of characters that are used of it. -/
def encodeIotCmd (cmd : IoTCommand) : Except Refused (List Char16 × ℤ) := do
  let content := utf16 emptyCmd ++ List.replicate (MAXPACKETSIZE - emptyCmd.length) 0
  let jsonObj ← parsed (initToken (newJson content))
  match typeText cmd.cmdType with
  | none => .error .invalidType
  | some text => do
    let jsonObj ← setValue (ascii "Type") jsonObj (some (utf16 text))
    let jsonObj ← setValue (ascii "ID") jsonObj cmd.ID
    let jsonObj ← setValue (ascii "Value") jsonObj cmd.Value
    .ok (jsonObj.content, jsonObj.contentSize + 1)

/-- The value of a key in the array that the lookups share, and the string in it. -/
def getValue (key : List Byte) (jsonObj : JsonData) (tempValue : List Char16) :
    Except Refused (List Char16 × List Char16) := do
  let tempValue ← parsed (getJsfileValue [utf16 (ascii "IOTCMD"), utf16 key] jsonObj tempValue)
  let text ← parsed (checked (getFixString tempValue))
  .ok (tempValue, text)

def typeOf (text : List Char16) : Option CommandType :=
  if text = utf16 (ascii "Req") then some .readRequest
  else if text = utf16 (ascii "Res") then some .readResponse
  else if text = utf16 (ascii "Wri") then some .write
  else if text = utf16 (ascii "Man") then some .management
  else none

def decodeIotCmd (cmdBuffer : List Char16) : Except Refused IoTCommand := do
  let jsonObj ← parsed (initToken (newJson cmdBuffer))
  let (tempValue, type) ← getValue (ascii "Type") jsonObj (List.replicate maxValueSize 0)
  match typeOf type with
  | none => .error .invalidType
  | some cmdType => do
    let (tempValue, id) ← getValue (ascii "ID") jsonObj tempValue
    let (_, value) ← getValue (ascii "Value") jsonObj tempValue
    .ok ⟨cmdType, some id, some value⟩

def cmdKey (text : Bare) : Label true :=
  .key ⟨text, quoted_of_bare text.property.2⟩ noBlank noBlank

theorem isBare_iotcmd : ascii "IOTCMD" ≠ [] ∧ ∀ c ∈ ascii "IOTCMD", isBare c :=
  ⟨by decide, List.all_eq_true.mp (by decide)⟩

theorem isBare_type : ascii "Type" ≠ [] ∧ ∀ c ∈ ascii "Type", isBare c :=
  ⟨by decide, List.all_eq_true.mp (by decide)⟩

theorem isBare_id : ascii "ID" ≠ [] ∧ ∀ c ∈ ascii "ID", isBare c :=
  ⟨by decide, List.all_eq_true.mp (by decide)⟩

def cmdMembers (type id key value : Bare) : Json (.items true) :=
  .cons noBlank (cmdKey ⟨ascii "Type", isBare_type⟩) (.primitive type) noBlank
    (.cons noBlank (cmdKey ⟨ascii "ID", isBare_id⟩) (.primitive id) noBlank
      (.cons noBlank (cmdKey key) (.primitive value) noBlank (.nil true)))

def cmdDocument (type id key value : Bare) : Document :=
  ⟨noBlank, .container true noBlank (.cons noBlank (cmdKey ⟨ascii "IOTCMD", isBare_iotcmd⟩)
    (.container true noBlank (cmdMembers type id key value)) noBlank (.nil true)), noBlank⟩

section

variable {type id key value : Bare}

theorem cmdDocument_text (type id key value : Bare) :
    (cmdDocument type id key value).text = cmdContent ⟨type, id, key, value⟩ := by
  simp [cmdDocument, cmdMembers, Document.text, Json.render, cmdKey, Label.render, Json.sep,
    noBlank, opening, closing, cmdContent, member, leftBrace, rightBrace, quote, colon, comma]

/-- The whole object and the object in it. -/
def wholeNode (type id key value : Bare) : Node :=
  (cmdDocument type id key value).value.root 0

def innerNode (type id key value : Bare) : Node :=
  Json.root (.container true noBlank (cmdMembers type id key value)) 10

/-- The words of the inner object. -/
def typeKey : Node := ⟨.string, 12, ascii "Type", 1⟩

def typeNode (type : Bare) : Node := ⟨.primitive, 18, type, 0⟩

def idKey (type : Bare) : Node := ⟨.string, 20 + type.val.length, ascii "ID", 1⟩

def idNode (type id : Bare) : Node := ⟨.primitive, 24 + type.val.length, id, 0⟩

def lastKey (type id key : Bare) : Node :=
  ⟨.string, 26 + type.val.length + id.val.length, key, 1⟩

def lastNode (type id key value : Bare) : Node :=
  ⟨.primitive, 28 + type.val.length + id.val.length + key.val.length, value, 0⟩

theorem cmdDocument_nodes (type id key value : Bare) : (cmdDocument type id key value).nodes =
    [wholeNode type id key value, ⟨.string, 2, ascii "IOTCMD", 1⟩, innerNode type id key value,
      typeKey, typeNode type, idKey type, idNode type id, lastKey type id key,
      lastNode type id key value] := by
  have hiotcmd : (ascii "IOTCMD").length = 6 := by decide
  have htype : (ascii "Type").length = 4 := by decide
  have hid : (ascii "ID").length = 2 := by decide
  simp [cmdDocument, cmdMembers, Document.nodes, Json.nodes, cmdKey, Label.nodes, Label.render,
    Json.valuePos, Json.restPos, Json.sep, Json.render, noBlank, wholeNode, innerNode, typeKey,
    typeNode, idKey, idNode, lastKey, lastNode, Json.root, hiotcmd, htype, hid]
  omega

theorem cmdDocument_few (type id key value : Bare) :
    (cmdDocument type id key value).nodes.length ≤ MAXTOKENSIZE := by
  rw [cmdDocument_nodes]
  exact (by decide : 9 ≤ MAXTOKENSIZE)

theorem wholeNode_stop (type id key value : Bare) : (wholeNode type id key value).stop =
    30 + type.val.length + id.val.length + key.val.length + value.val.length := by
  have htext := cmdContent_length ⟨type, id, key, value⟩
  rw [← cmdDocument_text] at htext
  refine Eq.trans ?_ htext
  rw [Document.text, List.length_append, List.length_append]
  rfl

theorem innerNode_stop (type id key value : Bare) : (innerNode type id key value).stop =
    29 + type.val.length + id.val.length + key.val.length + value.val.length := by
  have htype : (ascii "Type").length = 4 := by decide
  have hid : (ascii "ID").length = 2 := by decide
  simp [innerNode, Node.stop, cmdMembers, cmdKey, Json.root, Json.render, Label.render, Json.sep,
    noBlank, htype, hid]
  omega

/-- The search meets the key, after it has passed all nodes in front. -/
theorem hitOf_at {doc : Document} {word : List Byte} {range : JsFileParser.Range}
    {front back : List Node} {n m : Node} (hnodes : doc.nodes = front ++ n :: m :: back)
    (hword : n.isWord) (htext : n.text = word)
    (hin : range.start ≤ n.start ∧ (n.stop : ℤ) ≤ range.stop)
    (hfront : ∀ u ∈ front, Passes word range u) :
    hitOf doc.text word range (tableOf doc) = .value (tokenOf m) := by
  have htable : tableOf doc =
      front.map tokenOf ++ (tokenOf n :: tokenOf m :: back.map tokenOf) := by
    rw [tableOf, hnodes, List.map_append, List.map_cons, List.map_cons]
  have hn : n ∈ doc.nodes := hnodes ▸ List.mem_append_right _ List.mem_cons_self
  rw [htable, hitOf_pass (fun u hu => hnodes ▸ List.mem_append_left _ hu) hfront,
    hitOf_hit hn hword htext hin]

theorem passes_word {word : List Byte} {range : JsFileParser.Range} {n : Node} (hword : n.isWord)
    (hne : n.text ≠ word) : Passes word range n :=
  .inr (.inl ⟨hword, hne⟩)

theorem hit_iotcmd (type id key value : Bare) :
    hitOf (cmdDocument type id key value).text (ascii "IOTCMD")
      (rangeOf (tokenOf (wholeNode type id key value))) (tableOf (cmdDocument type id key value)) =
        .value (tokenOf (innerNode type id key value)) := by
  have hlength : (ascii "IOTCMD").length = 6 := by decide
  have hstop := wholeNode_stop type id key value
  have hpass : Passes (ascii "IOTCMD") (rangeOf (tokenOf (wholeNode type id key value)))
      (wholeNode type id key value) := by
    refine .inr (.inr ⟨?_, fun harray => ?_⟩)
    · rintro (hkind | hkind)
      · cases hkind
      · cases hkind
    · cases harray
  refine @hitOf_at _ _ _ [_] _ _ _ (cmdDocument_nodes type id key value) (.inl rfl) rfl ⟨?_, ?_⟩
    (List.forall_mem_singleton.mpr hpass)
  · exact Int.natCast_nonneg 2
  · change ((2 + (ascii "IOTCMD").length : ℕ) : ℤ) ≤ ((wholeNode type id key value).stop : ℕ)
    rw [hstop, hlength]
    omega

/-- The search for a word of the command ends at this node. -/
def Finds (type id key value : Bare) (word : List Byte) (n : Node) : Prop :=
  hitOf (cmdDocument type id key value).text word
    (rangeOf (tokenOf (innerNode type id key value))) (tableOf (cmdDocument type id key value)) =
      .value (tokenOf n)

theorem inner_range {n : Node} (hstart : 10 ≤ n.start) (hstop : n.stop ≤ 29 + type.val.length +
      id.val.length + key.val.length + value.val.length) :
    (rangeOf (tokenOf (innerNode type id key value))).start ≤ n.start ∧
      (n.stop : ℤ) ≤ (rangeOf (tokenOf (innerNode type id key value))).stop := by
  constructor
  · exact Int.ofNat_le.mpr hstart
  · simp only [rangeOf, tokenOf, innerNode_stop]
    omega

/-- The nodes in front of the words of the command. -/
theorem passes_front (word : List Byte) : ∀ u ∈ [wholeNode type id key value,
      ⟨.string, 2, ascii "IOTCMD", 1⟩, innerNode type id key value],
    Passes word (rangeOf (tokenOf (innerNode type id key value))) u := by
  have hbefore : ∀ n : Node, n.start < 10 →
      Passes word (rangeOf (tokenOf (innerNode type id key value))) n :=
    fun n hn => .inl (.inl (Int.ofNat_lt.mpr hn))
  refine List.forall_mem_cons.mpr ⟨hbefore _ (by decide : 0 < 10), List.forall_mem_cons.mpr
    ⟨hbefore _ (by decide : 2 < 10),
      List.forall_mem_singleton.mpr (.inr (.inr ⟨?_, fun harray => ?_⟩))⟩⟩
  · rintro (hkind | hkind)
    · cases hkind
    · cases hkind
  · cases harray

theorem finds_type : Finds type id key value (ascii "Type") (typeNode type) := by
  have hlength : (ascii "Type").length = 4 := by decide
  refine @hitOf_at _ _ _ [_, _, _] _ _ _ (cmdDocument_nodes type id key value) (.inl rfl) rfl
    (inner_range (by decide) ?_) (passes_front _)
  simp only [typeKey, Node.stop, hlength]
  omega

theorem finds_id (htype : type.val ≠ ascii "ID") :
    Finds type id key value (ascii "ID") (idNode type id) := by
  have hlength : (ascii "ID").length = 2 := by decide
  refine @hitOf_at _ _ _ ([_, _, _] ++ [typeKey, typeNode type]) _ _ _
    (cmdDocument_nodes type id key value) (.inl rfl) rfl (inner_range ?_ ?_)
    (List.forall_mem_append.mpr ⟨passes_front _, List.forall_mem_cons.mpr
      ⟨passes_word (.inl rfl) (by decide), List.forall_mem_singleton.mpr
        (passes_word (.inr rfl) htype)⟩⟩)
  · simp only [idKey]
    omega
  · simp only [idKey, Node.stop, hlength]
    omega

theorem finds_value (htype : type.val ≠ ascii "Value") (hid : id.val ≠ ascii "Value")
    (hkey : key.val = ascii "Value") :
    Finds type id key value (ascii "Value") (lastNode type id key value) := by
  refine @hitOf_at _ _ _ ([_, _, _] ++ [typeKey, typeNode type, idKey type, idNode type id]) _ _ _
    (cmdDocument_nodes type id key value) (.inl rfl) hkey (inner_range ?_ ?_)
    (List.forall_mem_append.mpr ⟨passes_front _, ?_⟩)
  · simp only [lastKey]
    omega
  · simp only [lastKey, Node.stop]
    omega
  · exact List.forall_mem_cons.mpr ⟨passes_word (.inl rfl) (by decide), List.forall_mem_cons.mpr
      ⟨passes_word (.inr rfl) htype, List.forall_mem_cons.mpr
        ⟨passes_word (.inl rfl) (by decide : ascii "ID" ≠ ascii "Value"),
          List.forall_mem_singleton.mpr (passes_word (.inr rfl) hid)⟩⟩⟩

/-- An ID spelled like the last key is met before the key. -/
theorem finds_key (htype : type.val ≠ ascii "Value") (hid : id.val = ascii "Value") :
    Finds type id key value (ascii "Value") (lastKey type id key) := by
  refine @hitOf_at _ _ _ ([_, _, _] ++ [typeKey, typeNode type, idKey type]) _ _ _
    (cmdDocument_nodes type id key value) (.inr rfl) hid (inner_range ?_ ?_)
    (List.forall_mem_append.mpr ⟨passes_front _, ?_⟩)
  · simp only [idNode]
    omega
  · simp only [idNode, Node.stop]
    omega
  · exact List.forall_mem_cons.mpr ⟨passes_word (.inl rfl) (by decide), List.forall_mem_cons.mpr
      ⟨passes_word (.inr rfl) htype, List.forall_mem_singleton.mpr
        (passes_word (.inl rfl) (by decide : ascii "ID" ≠ ascii "Value"))⟩⟩

/-- The arrays hold the document, and its length is known. -/
structure Stores (e : JsonData) (doc : Document) : Prop where
  carries : CSharpDocument.Carries e doc
  size : e.contentSize = doc.text.length

theorem contentSize_of_set {v : List Char16} {keys : List (List Char16)} {e e' : JsonData}
    (hset : setJsfileSingleValue v keys e = .ok e') :
    ∃ all, readAt e'.tokens 0 = .ok all ∧ e'.contentSize = all.stop := by
  obtain ⟨range, -, hset⟩ := returned_eq_ok.mp hset
  obtain ⟨range', -, hset⟩ := returned_eq_ok.mp hset
  split at hset
  · cases hset
  obtain ⟨⟨temp, i2⟩, -, hset⟩ := returned_eq_ok.mp hset
  obtain ⟨all', -, hset⟩ := returned_eq_ok.mp hset
  obtain ⟨content, -, hset⟩ := returned_eq_ok.mp hset
  obtain ⟨tokens, -, hset⟩ := returned_eq_ok.mp hset
  obtain ⟨all, hall, hset⟩ := returned_eq_ok.mp hset
  obtain rfl := Except.ok.inj hset
  exact ⟨all, checked_eq_ok.mp hall, rfl⟩

theorem cmdDocument_stop {e : JsonData}
    (h : CSharpDocument.Carries e (cmdDocument type id key value)) :
    readAt e.tokens 0 = .ok (tokenOf (wholeNode type id key value)) ∧
      (wholeNode type id key value).stop = (cmdDocument type id key value).text.length := by
  obtain ⟨tokens, others, -, htokens, -⟩ := h.root
  refine ⟨readAt_natCast _ 0 _ (by rw [htokens]; rfl), ?_⟩
  rw [wholeNode_stop, cmdDocument_text, cmdContent_length]

theorem Finds.findRange {word : List Byte} {n : Node} {e : JsonData}
    (hfind : Finds type id key value word n)
    (h : CSharpDocument.Carries e (cmdDocument type id key value)) :
    findRange e [utf16 (ascii "IOTCMD"), utf16 word]
      (rangeAt (cmdDocument type id key value).value 0) = .ok (rangeOf (tokenOf n)) := by
  have hfirst : hitOf (cmdDocument type id key value).text (ascii "IOTCMD") (rangeAt _ 0) _ = _ :=
    hit_iotcmd type id key value
  rw [CSharpDocument.findRange_cons hfirst h, CSharpDocument.findRange_cons hfind h]
  rfl

/-- A value that is found is set, where the new text has room. -/
theorem Finds.exists_set {word front behind : List Byte} {n : Node} {e : JsonData}
    (hfind : Finds type id key value word n)
    (h : CSharpDocument.Carries e (cmdDocument type id key value))
    (hn : n ∈ (cmdDocument type id key value).nodes) (hword : n.isWord) (hold : n.text ≠ [])
    (hsplit : (cmdDocument type id key value).text = front ++ (n.text ++ behind))
    (hstart : n.start = front.length) (new : Bare) {type' id' key' value' : Bare}
    (htext : (cmdDocument type' id' key' value').text = front ++ (new.val ++ behind))
    (hroom : (cmdDocument type' id' key' value').text.length < MAXPACKETSIZE) :
    ∃ e', setValue word e (some (utf16 new)) = .ok e' ∧
      Stores e' (cmdDocument type' id' key' value') := by
  obtain ⟨doc, front', behind', hsplit', hstart', hdoc, hset⟩ := CSharpDocument.exists_set h rfl rfl
    hn hword hold (List.cons_ne_nil _ _) (hfind.findRange h) new
  rw [hsplit] at hsplit'
  obtain ⟨rfl, hrest⟩ := List.append_inj hsplit' (hstart.symm.trans hstart')
  obtain rfl := List.append_cancel_left hrest
  have hsame : (cmdDocument type' id' key' value').text = doc.text := htext.trans hdoc.symm
  obtain ⟨hok, hcarries⟩ := hset []
  obtain ⟨e', hset⟩ := hok (hsame ▸ hroom)
  have he' := (hcarries e' hset).congr hsame
  refine ⟨e', ?_, he', ?_⟩
  · rw [setValue, hset]
    rfl
  · obtain ⟨all, hall, hsize⟩ := contentSize_of_set hset
    obtain ⟨hread, hstop⟩ := cmdDocument_stop he'
    obtain rfl := Except.ok.inj (hall.symm.trans hread)
    rw [hsize, ← hstop]
    rfl

theorem exists_setType {e : JsonData}
    (h : CSharpDocument.Carries e (cmdDocument type id key value)) (new : Bare)
    (hroom : (cmdDocument new id key value).text.length < MAXPACKETSIZE) :
    ∃ e', setValue (ascii "Type") e (some (utf16 new)) = .ok e' ∧
      Stores e' (cmdDocument new id key value) := by
  have hsplit := fun type => (cmdDocument_text type id key value).trans (cmdContent_type _)
  exact finds_type.exists_set h (by rw [cmdDocument_nodes]; simp) (.inr rfl) type.property.1
    (hsplit type) frontType_length.symm new (hsplit new) hroom

theorem exists_setId {e : JsonData}
    (h : CSharpDocument.Carries e (cmdDocument type id key value)) (htype : type.val ≠ ascii "ID")
    (new : Bare) (hroom : (cmdDocument type new key value).text.length < MAXPACKETSIZE) :
    ∃ e', setValue (ascii "ID") e (some (utf16 new)) = .ok e' ∧
      Stores e' (cmdDocument type new key value) := by
  have hsplit := fun id => (cmdDocument_text type id key value).trans (cmdContent_id _)
  exact (finds_id htype).exists_set h (by rw [cmdDocument_nodes]; simp) (.inr rfl) id.property.1
    (hsplit id) (frontId_length ⟨type, id, key, value⟩).symm new (hsplit new) hroom

theorem exists_setLast {e : JsonData}
    (h : CSharpDocument.Carries e (cmdDocument type id key value))
    (htype : type.val ≠ ascii "Value") (hid : id.val ≠ ascii "Value")
    (hkey : key.val = ascii "Value") (new : Bare)
    (hroom : (cmdDocument type id key new).text.length < MAXPACKETSIZE) :
    ∃ e', setValue (ascii "Value") e (some (utf16 new)) = .ok e' ∧
      Stores e' (cmdDocument type id key new) := by
  have hsplit := fun value => (cmdDocument_text type id key value).trans (cmdContent_value _)
  exact (finds_value htype hid hkey).exists_set h (by rw [cmdDocument_nodes]; simp) (.inr rfl)
    value.property.1 (hsplit value) (frontValue_length ⟨type, id, key, value⟩).symm new (hsplit new)
    hroom

theorem exists_setKey {e : JsonData}
    (h : CSharpDocument.Carries e (cmdDocument type id key value))
    (htype : type.val ≠ ascii "Value") (hid : id.val = ascii "Value") (new : Bare)
    (hroom : (cmdDocument type id new value).text.length < MAXPACKETSIZE) :
    ∃ e', setValue (ascii "Value") e (some (utf16 new)) = .ok e' ∧
      Stores e' (cmdDocument type id new value) := by
  have hsplit := fun key => (cmdDocument_text type id key value).trans (cmdContent_key _)
  exact (finds_key htype hid).exists_set h (by rw [cmdDocument_nodes]; simp) (.inl rfl)
    key.property.1 (hsplit key) (frontKey_length ⟨type, id, key, value⟩).symm new (hsplit new) hroom

end

/-- A word as the text of a token. -/
def bareOf {text : List Byte} (h : IsWord text) : Bare := ⟨text, h.ne_nil, h.plain⟩

/-- The document of the four texts. -/
def documentOf {x : Texts} (hx : x.Words) : Document :=
  cmdDocument (bareOf hx.type) (bareOf hx.id) (bareOf hx.key) (bareOf hx.value)

theorem documentOf_text {x : Texts} (hx : x.Words) : (documentOf hx).text = cmdContent x :=
  cmdDocument_text _ _ _ _

section

variable {name id : List Byte} {Value : Option (List Byte)} {e : JsonData}

/-- The text with the ID, which is `0` if there is none. -/
theorem set_id (hname : IsTypeText name) (hx : (Texts.mk name (ascii "0") (ascii "Value")
      (ascii "0")).Words) (h : Stores e (documentOf hx)) {ID : Option (List Byte)}
    (hid : IsWord (ID.getD (ascii "0"))) (hroom : (ID.getD (ascii "0")).length < 900) :
    ∃ e', setValue (ascii "ID") e (ID.map utf16) = .ok e' ∧ ∀ hy : (Texts.mk name
      (ID.getD (ascii "0")) (ascii "Value") (ascii "0")).Words, Stores e' (documentOf hy) := by
  cases ID with
  | none => exact ⟨e, rfl, fun _ => h⟩
  | some id =>
    have hlength : (cmdContent ⟨name, id, ascii "Value", ascii "0"⟩).length < MAXPACKETSIZE := by
      have hkey : (ascii "Value").length = 5 := by decide
      have hzero : (ascii "0").length = 1 := by decide
      have hmax : MAXPACKETSIZE = 1024 := rfl
      rw [Option.getD_some] at hroom
      rw [cmdContent_length]
      simp only [hname.length, hkey, hzero]
      omega
    obtain ⟨e', hset, he'⟩ := exists_setId h.carries hname.ne_id (bareOf hid) (by
      rw [cmdDocument_text]
      exact hlength)
    exact ⟨e', hset, fun _ => he'⟩

theorem Stores.congr {doc doc' : Document} (h : Stores e doc) (htext : doc'.text = doc.text) :
    Stores e doc' :=
  ⟨h.carries.congr htext, h.size.trans (congrArg _ (congrArg _ htext.symm))⟩

/-- The value that stands in the text: a null value is left out, and behind an ID spelled like
its key the search then ends at the key. -/
def valueText (id : List Byte) (Value : Option (List Byte)) : List Byte :=
  Value.getD (if id = ascii "Value" then ascii "Value" else ascii "0")

theorem isWord_valueText (hvalue : ∀ value ∈ Value, IsWord value) :
    IsWord (valueText id Value) := by
  cases Value with
  | none =>
    simp only [valueText, Option.getD_none]
    split
    · exact isWord_valueKey
    · exact isWord_zero
  | some value => exact hvalue value rfl

/-- The text with the value, where the search for its key ends. -/
theorem set_value (hname : IsTypeText name) (hid : IsWord id) (hx : (Texts.mk name id
      (ascii "Value") (ascii "0")).Words) (h : Stores e (documentOf hx))
    (hvalue : IsWord (valueText id Value))
    (hroom : id.length + (valueText id Value).length < 900) :
    ∃ e', setValue (ascii "Value") e (Value.map utf16) = .ok e' ∧
      Stores e' (documentOf (cmdTexts_words hname.word hid hvalue)) := by
  have hlength : (cmdContent (cmdTexts name id (valueText id Value))).length <
      MAXPACKETSIZE := by
    have hmax : MAXPACKETSIZE = 1024 := rfl
    rw [cmdTexts_length, hname.length]
    split <;> omega
  have htext : (documentOf (cmdTexts_words hname.word hid hvalue)).text =
      cmdContent (cmdTexts name id (valueText id Value)) := documentOf_text _
  cases Value with
  | none =>
    -- nothing is set, and the text without a value is the one of what the search would find
    refine ⟨e, rfl, h.congr ?_⟩
    rw [htext, documentOf_text, cmdTexts, valueText, Option.getD_none]
    by_cases hcase : id = ascii "Value"
    · rw [if_pos hcase, if_pos hcase]
    · rw [if_neg hcase, if_neg hcase]
  | some value =>
    by_cases hcase : id = ascii "Value"
    · rw [valueText, Option.getD_some, cmdTexts, if_pos hcase] at hlength
      obtain ⟨e', hset, he'⟩ := exists_setKey h.carries hname.ne_value hcase (bareOf hvalue)
        ((cmdDocument_text _ _ _ _).symm ▸ hlength)
      have hsame := htext.trans (congrArg cmdContent (if_pos hcase))
      exact ⟨e', hset, he'.congr (by rw [cmdDocument_text]; exact hsame)⟩
    · rw [valueText, Option.getD_some, cmdTexts, if_neg hcase] at hlength
      obtain ⟨e', hset, he'⟩ := exists_setLast h.carries hname.ne_value hcase rfl (bareOf hvalue)
        ((cmdDocument_text _ _ _ _).symm ▸ hlength)
      have hsame := htext.trans (congrArg cmdContent (if_neg hcase))
      exact ⟨e', hset, he'.congr (by rw [cmdDocument_text]; exact hsame)⟩

/-- The text is the one that the C++ encoder writes of the ID, `0` where it is null, and the
value. -/
theorem encodeIotCmd_eq {cmdType : CommandType} (hname : typeText cmdType = some name)
    {ID : Option (List Byte)} (hid : IsWord (ID.getD (ascii "0")))
    (hvalue : IsWord (valueText (ID.getD (ascii "0")) Value))
    (hroom : (ID.getD (ascii "0")).length + (valueText (ID.getD (ascii "0")) Value).length < 900) :
    ∃ text beyond, text = cmdContent (cmdTexts name (ID.getD (ascii "0"))
        (valueText (ID.getD (ascii "0")) Value)) ∧
      encodeIotCmd ⟨cmdType, ID.map utf16, Value.map utf16⟩ =
        .ok (utf16 text ++ 0 :: beyond, text.length + 1) := by
  have hword := typeText_isTypeText hname
  have hlength : emptyCmd.length = 41 := by decide
  have hcontent : utf16 emptyCmd ++ List.replicate (MAXPACKETSIZE - emptyCmd.length) 0 =
      utf16 (documentOf emptyTexts_words).text ++ 0 :: List.replicate 982 0 := by
    rw [documentOf_text, hlength]
    exact congrArg (fun text => utf16 text ++ _) emptyCmd_eq
  have hsize : (utf16 emptyCmd ++ List.replicate (MAXPACKETSIZE - emptyCmd.length) 0).length =
      MAXPACKETSIZE := by
    rw [List.length_append, List.length_replicate, length_utf16, hlength]
    rfl
  obtain ⟨e₀, hparse, he₀⟩ := CSharpDocument.exists_initToken (e := newJson _) hcontent hsize
    (cmdDocument_few _ _ _ _)
  obtain ⟨e₁, hset₁, he₁⟩ := exists_setType he₀ (bareOf hword.word) (by
    have hkey : (ascii "Value").length = 5 := by decide
    have hzero : (ascii "0").length = 1 := by decide
    rw [cmdDocument_text, cmdContent_length]
    change 30 + name.length + (ascii "0").length + (ascii "Value").length + (ascii "0").length < _
    rw [hword.length, hkey, hzero]
    decide)
  have htype : (Texts.mk name (ascii "0") (ascii "Value") (ascii "0")).Words :=
    ⟨hword.word, isWord_zero, isWord_valueKey, isWord_zero⟩
  obtain ⟨e₂, hset₂, he₂⟩ := set_id hword htype he₁ hid (by omega)
  have hwords : (Texts.mk name (ID.getD (ascii "0")) (ascii "Value") (ascii "0")).Words :=
    ⟨hword.word, hid, isWord_valueKey, isWord_zero⟩
  obtain ⟨e₃, hset₃, he₃⟩ := set_value hword hid hwords (he₂ hwords) hvalue hroom
  obtain ⟨beyond, hstored⟩ := he₃.carries.content
  have hused := he₃.size
  rw [documentOf_text] at hstored hused
  have htypeSet : setValue (ascii "Type") e₀ (some (utf16 name)) = .ok e₁ := hset₁
  refine ⟨_, beyond, rfl, ?_⟩
  simp only [encodeIotCmd, hparse, parsed_ok, accepted_bind, hname, htypeSet, hset₂, hset₃, hstored,
    hused]

end

/-- An array of any length that holds the text, and its table. -/
structure Reads (e : JsonData) (doc : Document) : Prop where
  content : ∃ beyond, e.content = utf16 doc.text ++ 0 :: beyond
  short : doc.text.length < MAXPACKETSIZE
  tokens : ∃ others, e.tokens = tableOf doc ++ others
  count : e.tokenSize = doc.nodes.length

section

variable {e : JsonData} {doc : Document}

theorem exists_reads {beyond : List Char16} (hshort : doc.text.length < MAXPACKETSIZE)
    (hfew : doc.nodes.length ≤ MAXTOKENSIZE) :
    ∃ e, initToken (newJson (utf16 doc.text ++ 0 :: beyond)) = .ok e ∧ Reads e doc := by
  have hnarrow : (newJson (utf16 doc.text ++ 0 :: beyond)).content.map narrow =
      doc.text ++ 0 :: beyond.map narrow := by
    rw [newJson, List.map_append, List.map_cons, narrow_utf16]
    rfl
  exact ⟨_, ArrayIndex.initToken_utf16 hnarrow hfew, ⟨beyond, rfl⟩, hshort, ⟨_, rfl⟩, rfl⟩

theorem Reads.takeToken_node (h : Reads e doc) {n : Node} (hn : n ∈ doc.nodes) {j : ℕ}
    (hj : e.tokens[j]? = some (tokenOf n)) (result : Option (List Char16))
    (hroom : ∀ r ∈ result, n.text.length < r.length) :
    takeToken e result j = .ok ⟨j, rangeOf (tokenOf n),
      result.map fun r => utf16 n.text ++ 0 :: r.drop (n.text.length + 1)⟩ := by
  obtain ⟨beyond, hcontent⟩ := h.content
  have hnarrow : e.content.map narrow = doc.text ++ 0 :: beyond.map narrow := by
    rw [hcontent, List.map_append, List.map_cons, narrow_utf16]
    rfl
  obtain ⟨front, behind, htext, hstart⟩ := doc.nodes_place hn
  have hsplit : e.content = utf16 front ++ (utf16 n.text ++ (utf16 behind ++ 0 :: beyond)) := by
    rw [hcontent, htext]
    simp [utf16]
  have hfront : n.start = (utf16 front).length := by rw [hstart, length_utf16]
  have hlength : n.text.length = (utf16 n.text).length := by rw [length_utf16]
  have hword : ArrayIndex.textUtf16 e.content n = utf16 n.text := by
    rw [ArrayIndex.textUtf16, hsplit, hfront, List.drop_left, hlength, List.take_left]
  rw [ArrayIndex.takeToken_utf16 ⟨_, hnarrow⟩ hn hj result hroom, hword]

/-- The text of a token is compared with the key. -/
theorem Reads.isWordAt_eq (h : Reads e doc) {word : List Byte} {t : Token} (ht : t ∈ tableOf doc) :
    TokenSeek.isWordAt 0 MAXPACKETSIZE e.content (utf16 word) t =
      .ok (tokenText doc.text t = word) := by
  obtain ⟨others, htokens⟩ := h.tokens
  obtain ⟨n, hn, rfl⟩ := List.mem_map.mp ht
  obtain ⟨j, hj⟩ := List.mem_iff_getElem?.mp
    (show tokenOf n ∈ e.tokens from htokens ▸ List.mem_append_left _ ht)
  obtain ⟨front, behind, htext, -⟩ := doc.nodes_place hn
  have hnul : (0 : Char16) ∉ utf16 n.text := zero_notMem_utf16 fun hmem =>
    doc.zero_notMem_text (by rw [htext]; simp [hmem])
  have hshort := h.short
  rw [htext, List.length_append, List.length_append] at hshort
  have htake := h.takeToken_node hn hj (some (List.replicate MAXPACKETSIZE 0)) (by
    intro r hr
    obtain rfl := Option.some.inj hr
    rw [List.length_replicate]
    omega)
  rw [takeToken, readAt_natCast _ _ _ hj, ok_bind] at htake
  obtain ⟨result, hget, htake⟩ := bind_eq_ok.mp htake
  obtain ⟨temp, hpattern, hresult⟩ := bind_eq_ok.mp hget
  obtain rfl := Except.ok.inj hresult
  obtain rfl := Option.some.inj (congrArg Found.result (Except.ok.inj htake))
  have hloop : TokenSeek.wordAt 0 MAXPACKETSIZE e.content (tokenOf n) =
      (getPatteren ⟨(tokenOf n).start, (tokenOf n).stop⟩ e.content
        (List.replicate MAXPACKETSIZE 0) >>= cString 0) := by
    simp only [TokenSeek.wordAt, getPatteren, bind_assoc]
  have hfound : getPatteren _ _ _ = .ok (utf16 n.text ++ 0 :: _) := hpattern
  rw [TokenSeek.isWordAt, hloop, hfound, ok_bind, cString_append 0 _ _ hnul, ok_bind,
    KeyPath.tokenText_node hn]
  simp only [CSharpDocument.utf16_inj]

/-- A search of which the hit is known comes to the text of the node. -/
theorem Reads.exists_search (h : Reads e doc) {word : List Byte} {range : JsFileParser.Range}
    {n : Node} (hn : n ∈ doc.nodes)
    (hhit : hitOf doc.text word range (tableOf doc) = .value (tokenOf n)) :
    ∃ j : ℕ, ∀ result : Option (List Char16), (∀ r ∈ result, n.text.length < r.length) →
      searchJsonDataInRange (utf16 word) range e result = .ok ⟨j, rangeOf (tokenOf n),
        result.map fun r => utf16 n.text ++ 0 :: r.drop (n.text.length + 1)⟩ := by
  obtain ⟨others, htokens⟩ := h.tokens
  obtain ⟨j, hj, hseek⟩ := CSharpDocument.exists_seek hhit
  have hlast := (List.getElem?_eq_some_iff.mp hj).1
  have hcount : e.tokenSize.toNat = (tableOf doc).length := by
    rw [h.count, Int.toNat_natCast, tableOf, List.length_map]
  have hread : e.tokens[j]? = some (tokenOf n) := by
    rw [htokens, List.getElem?_append_left hlast, hj]
  refine ⟨j, fun result hroom => ?_⟩
  have hloop := hseek (TokenSeek.isWordAt 0 MAXPACKETSIZE e.content (utf16 word))
    (TokenSeek.indexOfUtf16 (utf16 word)) others e.tokens 0 (fun u hu => h.isWordAt_eq hu) htokens
  rw [← hcount, Nat.zero_add] at hloop
  rw [GetAfterSet.search_of_seek_utf16 hloop, h.takeToken_node hn hread result hroom, checked_ok]

end

section

variable {type id key value : Bare} {name text : List Byte} {e : JsonData}

/-- A word of the command is read whole, and the array goes on behind it as before. -/
theorem Finds.getValue {word : List Byte} {n : Node} (hfind : Finds type id key value word n)
    (h : Reads e (cmdDocument type id key value))
    (hn : n ∈ (cmdDocument type id key value).nodes) {temp : List Char16}
    (hroom : n.text.length < temp.length) :
    ∃ temp', getValue word e temp = .ok (temp', utf16 n.text) ∧ temp'.length = temp.length := by
  have hinner : innerNode type id key value ∈ (cmdDocument type id key value).nodes := by
    rw [cmdDocument_nodes]
    simp
  obtain ⟨front, behind, htext, -⟩ := (cmdDocument type id key value).nodes_place hn
  have hnul : (0 : Char16) ∉ utf16 n.text := zero_notMem_utf16 fun hmem =>
    (cmdDocument type id key value).zero_notMem_text (by rw [htext]; simp [hmem])
  obtain ⟨others, htokens⟩ := h.tokens
  have hwhole : getAllRange e.tokens = .ok (rangeOf (tokenOf (wholeNode type id key value))) := by
    rw [htokens, tableOf, cmdDocument_nodes]
    rfl
  obtain ⟨j, hfirst⟩ := h.exists_search hinner (hit_iotcmd type id key value)
  obtain ⟨k, hsecond⟩ := h.exists_search hn hfind
  have hget : getJsfileValue [utf16 (ascii "IOTCMD"), utf16 word] e temp =
      .ok (utf16 n.text ++ 0 :: temp.drop (n.text.length + 1)) := by
    have hroom' : ∀ r ∈ some temp, n.text.length < r.length := by
      intro r hr
      obtain rfl := Option.some.inj hr
      exact hroom
    have hnone := hfirst none (by
      intro r hr
      cases hr)
    simp only [getJsfileValue, hwhole, checked_ok, returned_bind, findValue, hnone,
      hsecond (some temp) hroom', Option.map_some, Option.getD_some]
  refine ⟨utf16 n.text ++ 0 :: temp.drop (n.text.length + 1), ?_, ?_⟩
  · rw [CSharpCommand.getValue, hget, parsed_ok, accepted_bind, getFixString,
      cString_append 0 _ _ hnul]
    rfl
  · rw [List.length_append, List.length_cons, List.length_drop, length_utf16]
    omega

theorem typeOf_typeText {cmdType : CommandType} (h : typeText cmdType = some name) :
    typeOf (utf16 name) = some cmdType := by
  cases cmdType <;> simp only [typeText, Option.some.injEq, reduceCtorEq] at h <;> subst h <;>
    decide

/-- The decoder where it is known which word the search for the value ends at. -/
theorem decodeIotCmd_of_finds {cmdType : CommandType} {n : Node}
    (hname : typeText cmdType = some type.val)
    (hfind : Finds type id key value (ascii "Value") n)
    (hn : n ∈ (cmdDocument type id key value).nodes) (hidRoom : id.val.length < maxValueSize)
    (hroom : n.text.length < maxValueSize)
    (hshort : (cmdContent ⟨type, id, key, value⟩).length < MAXPACKETSIZE)
    (beyond : List Char16) :
    decodeIotCmd (utf16 (cmdContent ⟨type, id, key, value⟩) ++ 0 :: beyond) =
      .ok ⟨cmdType, some (utf16 id), some (utf16 n.text)⟩ := by
  have hword := typeText_isTypeText hname
  have hthree : (typeNode type).text.length <
      (List.replicate maxValueSize (0 : Char16)).length := by
    rw [List.length_replicate]
    exact hword.length.trans_lt (by decide)
  obtain ⟨e, hparse, he⟩ := @exists_reads (cmdDocument type id key value) beyond
    (by rwa [cmdDocument_text]) (cmdDocument_few type id key value)
  rw [cmdDocument_text] at hparse
  obtain ⟨temp₁, hget₁, hlength₁⟩ := finds_type.getValue he (by rw [cmdDocument_nodes]; simp) hthree
  rw [List.length_replicate] at hlength₁
  obtain ⟨temp₂, hget₂, hlength₂⟩ := (finds_id hword.ne_id).getValue he
    (by rw [cmdDocument_nodes]; simp) (show (idNode type id).text.length < temp₁.length from
      hlength₁ ▸ hidRoom)
  rw [hlength₁] at hlength₂
  obtain ⟨temp₃, hget₃, -⟩ := hfind.getValue he hn (hlength₂ ▸ hroom)
  have htype : typeOf (utf16 (typeNode type).text) = some cmdType := typeOf_typeText hname
  simp only [decodeIotCmd, hparse, parsed_ok, accepted_bind, hget₁, htype, hget₂, hget₃]
  rfl

end

/-- The decoder reads the three texts back, whatever stands behind them in the array. -/
theorem decodeIotCmd_eq {cmdType : CommandType} {name id value : List Byte}
    (hname : typeText cmdType = some name) (hid : IsWord id) (hvalue : IsWord value)
    (hidRoom : id.length < maxValueSize) (hvalueRoom : value.length < maxValueSize)
    (beyond : List Char16) :
    decodeIotCmd (utf16 (cmdContent (cmdTexts name id value)) ++ 0 :: beyond) =
      .ok ⟨cmdType, some (utf16 id), some (utf16 value)⟩ := by
  have hword := typeText_isTypeText hname
  have hval : maxValueSize = 100 := rfl
  have hmax : MAXPACKETSIZE = 1024 := rfl
  have hshort : (cmdContent (cmdTexts name id value)).length < MAXPACKETSIZE := by
    rw [cmdTexts_length, hword.length]
    split <;> omega
  unfold cmdTexts at hshort ⊢
  by_cases hcase : id = ascii "Value"
  · rw [if_pos hcase] at hshort ⊢
    exact @decodeIotCmd_of_finds (bareOf hword.word) (bareOf hid) (bareOf hvalue)
      (bareOf isWord_zero) _ _ hname (finds_key hword.ne_value hcase)
      (by rw [cmdDocument_nodes]; simp) hidRoom hvalueRoom hshort beyond
  · rw [if_neg hcase] at hshort ⊢
    exact @decodeIotCmd_of_finds (bareOf hword.word) (bareOf hid) (bareOf isWord_valueKey)
      (bareOf hvalue) _ _ hname (finds_value hword.ne_value hcase rfl)
      (by rw [cmdDocument_nodes]; simp) hidRoom hvalueRoom hshort beyond

/-- The C++ decoder reads the type, the ID and the value, `0` for one that is null, from what
the C# encoder wrote, each character sent as a byte. -/
def Crosses (cmdType : CommandType) (ID Value : Option (List Byte))
    (jsonObj : JsFileParser.JsonData) (cmd₀ : Command.IoTCommand) : Prop :=
  ∃ content n cmd, encodeIotCmd ⟨cmdType, ID.map utf16, Value.map utf16⟩ = .ok (content, n) ∧
    Command.decodeIotCmd jsonObj ((content.take n.toNat).map UInt16.toUInt8) cmd₀ = .ok cmd ∧
    cmd.cmdType = cmdType ∧ cmd.ID.text = .ok (ID.getD (ascii "0")) ∧
    cmd.Value.text = .ok (Value.getD (ascii "0"))

section

variable {ID Value : Option (List Byte)}

theorem isWord_getD (htexts : ∀ text ∈ ID, IsFieldText text) : IsWord (ID.getD (ascii "0")) := by
  cases ID with
  | none => exact isWord_zero
  | some id => exact (htexts id rfl).isWord

theorem valueText_eq (hnull : Value = none → ID ≠ some (ascii "Value")) :
    valueText (ID.getD (ascii "0")) Value = Value.getD (ascii "0") := by
  cases Value with
  | some value => rfl
  | none =>
    have hid : ID.getD (ascii "0") ≠ ascii "Value" := by
      cases ID with
      | none => exact (by decide : ascii "0" ≠ ascii "Value")
      | some id => exact fun h => hnull rfl (congrArg some h)
    rw [valueText, if_neg hid]

/-- As many cells as an encoder says hold the text and its terminator. -/
theorem take_sent {α : Type} (text beyond : List α) (nul : α) :
    (text ++ nul :: beyond).take ((text.length : ℤ) + 1).toNat = text ++ [nul] := by
  have hlength : ((text.length : ℤ) + 1).toNat = (text ++ [nul]).length := by
    rw [List.length_append]
    rfl
  rw [hlength, List.append_cons text nul beyond, List.take_left]

/-- What the C++ decoder reads, where the two texts fit its arrays. -/
theorem exists_sent {cmdType : CommandType} (htype : cmdType ≠ .none)
    (hID : ∀ id ∈ ID, IsFieldText id) (hValue : ∀ value ∈ Value, IsFieldText value)
    (hidRoom : (ID.getD (ascii "0")).length < Command.COMMAND_CHAR_SIZE)
    (hvalueRoom : (valueText (ID.getD (ascii "0")) Value).length < Command.COMMAND_CHAR_SIZE)
    {jsonObj : JsFileParser.JsonData}
    (hcontent : jsonObj.content.length = JsFileParser.MAXCONTENTSIZE)
    (htokens : jsonObj.tokens.length = JsFileParser.MAXTOKENSIZE) (cmd₀ : Command.IoTCommand) :
    ∃ content n cmd, encodeIotCmd ⟨cmdType, ID.map utf16, Value.map utf16⟩ = .ok (content, n) ∧
      Command.decodeIotCmd jsonObj ((content.take n.toNat).map UInt16.toUInt8) cmd₀ = .ok cmd ∧
      cmd.cmdType = cmdType ∧ cmd.ID.text = .ok (ID.getD (ascii "0")) ∧
      cmd.Value.text = .ok (valueText (ID.getD (ascii "0")) Value) := by
  have hten : Command.COMMAND_CHAR_SIZE = 10 := rfl
  have hmax : maxValueSize = 100 := rfl
  obtain ⟨name, hname⟩ : ∃ name, typeText cmdType = some name := by
    cases cmdType with
    | none => exact absurd rfl htype
    | readRequest | readResponse | write | management => exact ⟨_, rfl⟩
  have hid := isWord_getD hID
  have hvalue := @isWord_valueText (ID.getD (ascii "0")) Value
    fun value hmem => (hValue value hmem).isWord
  obtain ⟨text, beyond, htext, hencode⟩ := encodeIotCmd_eq hname hid hvalue (by omega)
  have hsent : ((utf16 text ++ 0 :: beyond).take ((text.length : ℤ) + 1).toNat).map
      UInt16.toUInt8 = text ++ [0] := by
    rw [← length_utf16 text, take_sent, List.map_append, map_utf16]
    rfl
  obtain ⟨idArray, hidArray⟩ := Package.CharArray.exists_ofText Command.COMMAND_CHAR_SIZE _ hidRoom
  obtain ⟨valueArray, hvalueArray⟩ :=
    Package.CharArray.exists_ofText Command.COMMAND_CHAR_SIZE _ hvalueRoom
  refine ⟨_, _, ⟨Command.typeOfText name cmd₀.cmdType, idArray, valueArray⟩, hencode, ?_,
    typeOfText_typeText hname, Package.CharArray.ofText_text hidArray hid.noNul,
    Package.CharArray.ofText_text hvalueArray hvalue.noNul⟩
  rw [hsent, htext, CommandCodec.decodeIotCmd_eq hcontent htokens (typeText_isTypeText hname) hid
    hvalue (by omega) (by omega), hidArray, ok_bind, hvalueArray, ok_bind]

/-- A command of the C# library, its texts null or of letters, digits, `.`, `_` and `-`, is read
back by the C++ decoder exactly if it has a type, the two texts fit the arrays of ten bytes, and
a null value does not stand behind the ID `Value`, which is then read in its place. -/
theorem crosses_iff {cmdType : CommandType} (hID : ∀ id ∈ ID, IsFieldText id)
    (hValue : ∀ value ∈ Value, IsFieldText value) {jsonObj : JsFileParser.JsonData}
    (hcontent : jsonObj.content.length = JsFileParser.MAXCONTENTSIZE)
    (htokens : jsonObj.tokens.length = JsFileParser.MAXTOKENSIZE) (cmd₀ : Command.IoTCommand) :
    Crosses cmdType ID Value jsonObj cmd₀ ↔
      cmdType ≠ .none ∧ (ID.getD (ascii "0")).length < Command.COMMAND_CHAR_SIZE ∧
        (Value.getD (ascii "0")).length < Command.COMMAND_CHAR_SIZE ∧
        (Value = none → ID ≠ some (ascii "Value")) := by
  constructor
  · rintro ⟨content, n, cmd, hencode, hdecode, -, hidText, hvalueText⟩
    have htype : cmdType ≠ .none := by
      rintro rfl
      simp only [encodeIotCmd, typeText] at hencode
      cases hinit : parsed (initToken (newJson (utf16 emptyCmd ++
          List.replicate (MAXPACKETSIZE - emptyCmd.length) 0))) with
      | error t =>
        rw [hinit] at hencode
        cases hencode
      | ok e =>
        rw [hinit] at hencode
        cases hencode
    obtain ⟨-, hidRoom, -⟩ := Package.CharArray.text_eq_ok hidText
    obtain ⟨-, hvalueRoom, -⟩ := Package.CharArray.text_eq_ok hvalueText
    refine ⟨htype, hidRoom, hvalueRoom, ?_⟩
    rintro rfl rfl
    obtain ⟨content', n', cmd', hencode', hdecode', -, -, hvalueText'⟩ := exists_sent htype hID
      hValue hidRoom (by decide) hcontent htokens cmd₀
    obtain ⟨rfl, rfl⟩ := Prod.mk.inj (Except.ok.inj (hencode.symm.trans hencode'))
    obtain rfl := Except.ok.inj (hdecode.symm.trans hdecode')
    have hsame := Except.ok.inj (hvalueText.symm.trans hvalueText')
    exact absurd hsame (by decide)
  · rintro ⟨htype, hidRoom, hvalueRoom, hnull⟩
    have hshown := valueText_eq hnull
    have hsent := exists_sent htype hID hValue hidRoom (hshown ▸ hvalueRoom) hcontent htokens cmd₀
    rw [hshown] at hsent
    exact hsent

end

/-- A lamp is switched on; a read request for the device `Value` comes with a value. -/
theorem crosses_lamp :
    Crosses .write (some (ascii "lamp")) (some (ascii "on")) blankJson Command.generateIotCommand ∧
      ¬ Crosses .readRequest (some (ascii "Value")) none blankJson Command.generateIotCommand := by
  have hfield : ∀ {text : List Byte}, text ≠ [] ∧ text.all isFieldChar →
      ∀ text' ∈ some text, IsFieldText text' := by
    rintro text ⟨hne, hall⟩ text' htext
    obtain rfl := Option.some.inj htext
    exact ⟨hne, List.all_eq_true.mp hall⟩
  refine ⟨(crosses_iff (hfield (by decide)) (hfield (by decide)) blankJson_content blankJson_tokens
    _).mpr ⟨by decide, by decide, by decide, by decide⟩, fun hcross => ?_⟩
  obtain ⟨-, -, -, hnull⟩ := (crosses_iff (hfield (by decide)) (by simp) blankJson_content
    blankJson_tokens _).mp hcross
  exact hnull rfl rfl

/-- What the C++ encoder writes, each byte a character, the C# decoder reads back. -/
theorem decodeIotCmd_sent {jsonObj : JsFileParser.JsonData} {cmd : Command.IoTCommand}
    {id value : List Byte} (hcontent : jsonObj.content.length = JsFileParser.MAXCONTENTSIZE)
    (htokens : jsonObj.tokens.length = JsFileParser.MAXTOKENSIZE) (htype : cmd.cmdType ≠ .none)
    (hid : cmd.ID.text = .ok id) (hvalue : cmd.Value.text = .ok value)
    (hidText : IsFieldText id) (hvalueText : IsFieldText value) {cmdBuffer : List Byte}
    (hroom : id.length + value.length + 38 < cmdBuffer.length) (beyond : List Byte) :
    ∃ buffer n, Command.encodeIotCmd jsonObj cmdBuffer cmd beyond = .ok (buffer, n) ∧
      decodeIotCmd (utf16 (buffer.take n.toNat)) =
        .ok ⟨cmd.cmdType, some (utf16 id), some (utf16 value)⟩ := by
  obtain ⟨name, hname⟩ : ∃ name, typeText cmd.cmdType = some name := by
    cases hcase : cmd.cmdType with
    | none => exact absurd hcase htype
    | readRequest | readResponse | write | management => exact ⟨_, rfl⟩
  have hten : Command.COMMAND_CHAR_SIZE = 10 := rfl
  have hmax : maxValueSize = 100 := rfl
  obtain ⟨-, hidLen, idRest, hidBytes⟩ := Package.CharArray.text_eq_ok hid
  obtain ⟨-, hvalueLen, vrest, hvalueBytes⟩ := Package.CharArray.text_eq_ok hvalue
  have hvalueMemory : cmd.Value.bytes ++ beyond = value ++ 0 :: (vrest ++ beyond) := by
    rw [hvalueBytes, List.append_assoc, List.cons_append]
  obtain ⟨d, hd, hencode⟩ := CommandCodec.encodeIotCmd_eq hcontent htokens hname hidBytes
    hvalueMemory hidText.isWord hvalueText.isWord (by omega) cmdBuffer
  obtain ⟨rest, hd'⟩ := hd.content
  have hfits : (cmdContent (cmdTexts name id value)).length < cmdBuffer.length := by
    rw [cmdTexts_length, (typeText_isTypeText hname).length]
    split <;> omega
  have hcopy := JsFileParser.strcpy_eq cmdBuffer (cmdContent (cmdTexts name id value)) rest
    hd.words.noNul hfits
  refine ⟨cmdContent (cmdTexts name id value) ++
    0 :: cmdBuffer.drop ((cmdContent (cmdTexts name id value)).length + 1),
    (cmdContent (cmdTexts name id value)).length + 1, ?_, ?_⟩
  · rw [hencode, hd', hcopy, hd.contentSize]
    rfl
  · rw [take_sent, utf16_append]
    exact decodeIotCmd_eq hname hidText.isWord hvalueText.isWord (by omega) (by omega) []

/-- A command of the C++ library whose ID is spelled like a key. -/
theorem decodeIotCmd_sent_valueCommand :
    ∃ buffer n, Command.encodeIotCmd blankJson (List.replicate 60 7) valueCommand [] =
        .ok (buffer, n) ∧
      decodeIotCmd (utf16 (buffer.take n.toNat)) =
        .ok ⟨.write, some (utf16 (ascii "Value")), some (utf16 (ascii "12.5"))⟩ :=
  decodeIotCmd_sent blankJson_content blankJson_tokens (by decide) (by decide) (by decide)
    ⟨by decide, List.all_eq_true.mp (by decide)⟩ ⟨by decide, List.all_eq_true.mp (by decide)⟩
    (by decide) []

end IoTRepublic.CSharpCommand
