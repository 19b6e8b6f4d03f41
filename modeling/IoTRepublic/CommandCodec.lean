import IoTRepublic.CommandText

/-!
The command codec. Every lookup in a command's document ends at one token of
its table; setting the value found there gives the document of the new texts.
The encoder sets the type, the ID and the value in this order, and a value is
set behind an ID that is spelled like the key it is looked up by, so the last
key is replaced by the value. The decoder follows the same search and reads
the value back from where it was put.
-/
namespace IoTRepublic.CommandCodec

open CheckedArray Package Jsmn JsFileParser Command CommandText

section

variable {d : JsonData} {x : Texts} {result : Option (List Byte)}

theorem search_type (hd : Describes d x) :
    searchJsonDataInRange (ascii "Type") (innerRange x) d result = takeToken d result 4 := by
  rw [search_inner hd, if_pos rfl]

theorem search_id (hd : Describes d x) (htype : x.type ≠ ascii "ID") :
    searchJsonDataInRange (ascii "ID") (innerRange x) d result = takeToken d result 6 := by
  rw [search_inner hd, if_neg (by decide), search_from_type hd _ htype, if_pos rfl]

/-- An ID spelled like the last key is found before the key. -/
theorem search_value (hd : Describes d x) (htype : x.type ≠ ascii "Value")
    (hkey : x.id ≠ ascii "Value" → x.key = ascii "Value") :
    searchJsonDataInRange (ascii "Value") (innerRange x) d result =
      takeToken d result (if x.id = ascii "Value" then 7 else 8) := by
  have hlen := hd.length_lt
  rw [cmdContent_length] at hlen
  have hid : Covers d.content ⟨.primitive, 24 + x.type.length, 24 + x.type.length + x.id.length, 0⟩
      x.id :=
    hd.covers (cmdContent_id x) (by rw [frontId_length]; rfl) (by rw [frontId_length]; rfl)
  rw [search_inner hd, if_neg (by decide), search_from_type hd _ htype, if_neg (by decide),
    searchLoop_text (hd.readAt rfl) ⟨by simp [innerRange]; omega, by simp [innerRange]; omega⟩
      (.inr rfl) hid (by omega)]
  by_cases hcase : x.id = ascii "Value"
  · rw [if_pos hcase, if_pos hcase]
    rfl
  · have hcovers : Covers d.content ⟨.string, 26 + x.type.length + x.id.length,
        26 + x.type.length + x.id.length + x.key.length, 1⟩ x.key :=
      hd.covers (cmdContent_key x) (by rw [frontKey_length]; rfl) (by rw [frontKey_length]; rfl)
    rw [if_neg hcase, if_neg hcase,
      searchLoop_text (hd.readAt rfl) ⟨by simp [innerRange]; omega, by simp [innerRange]; omega⟩
        (.inl rfl) hcovers (by omega), if_pos (hkey hcase)]
    rfl

/-- A search in the command finds the text of one token. -/
structure Finds (d : JsonData) (x : Texts) (key front text behind : List Byte) : Prop where
  split : cmdContent x = front ++ (text ++ behind)
  word : IsWord text
  search : ∃ (k : ℕ) (t : Token), (tokensOf x)[k]? = some t ∧ t.start = front.length ∧
    t.stop = front.length + text.length ∧
    ∀ result, searchJsonDataInRange key (innerRange x) d result = takeToken d result k

theorem finds_type (hd : Describes d x) :
    Finds d x (ascii "Type") frontType x.type
      (comma :: member (ascii "ID") x.id
        (comma :: member x.key x.value [rightBrace, rightBrace])) :=
  ⟨cmdContent_type x, hd.words.type, 4, _, rfl, by rw [frontType_length]; rfl,
    by rw [frontType_length]; rfl, fun _ => search_type hd⟩

theorem finds_id (hd : Describes d x) (htype : x.type ≠ ascii "ID") :
    Finds d x (ascii "ID") (frontId x) x.id
      (comma :: member x.key x.value [rightBrace, rightBrace]) :=
  ⟨cmdContent_id x, hd.words.id, 6, _, rfl, by rw [frontId_length]; rfl,
    by rw [frontId_length]; rfl, fun _ => search_id hd htype⟩

theorem finds_value (hd : Describes d x) (htype : x.type ≠ ascii "Value")
    (hid : x.id ≠ ascii "Value") (hkey : x.key = ascii "Value") :
    Finds d x (ascii "Value") (frontValue x) x.value [rightBrace, rightBrace] := by
  refine ⟨cmdContent_value x, hd.words.value, 8, _, rfl, by rw [frontValue_length]; rfl,
    by rw [frontValue_length]; rfl, fun _ => ?_⟩
  rw [search_value hd htype (fun _ => hkey), if_neg hid]
  rfl

theorem finds_key (hd : Describes d x) (htype : x.type ≠ ascii "Value")
    (hid : x.id = ascii "Value") :
    Finds d x (ascii "Value") (frontKey x) x.key
      (quote :: colon :: (x.value ++ [rightBrace, rightBrace])) := by
  refine ⟨cmdContent_key x, hd.words.key, 7, _, rfl, by rw [frontKey_length]; rfl,
    by rw [frontKey_length]; rfl, fun _ => ?_⟩
  rw [search_value hd htype (fun hne => absurd hid hne), if_pos hid]
  rfl

theorem getAllRange_describes (hd : Describes d x) : getAllRange d.tokens = .ok (wholeRange x) := by
  have hfirst : readAt d.tokens (0 : ℕ) = .ok _ := hd.readAt rfl
  rw [getAllRange]
  exact hfirst ▸ rfl

variable {key front text behind : List Byte}

theorem Finds.covers (hfind : Finds d x key front text behind) (hd : Describes d x) :
    ∃ (k : ℕ) (t : Token), readAt d.tokens k = .ok t ∧ t.start = front.length ∧
      t.stop = front.length + text.length ∧ Covers d.content t text ∧
      ∀ result, searchJsonDataInRange key (innerRange x) d result = takeToken d result k := by
  rcases hfind.search with ⟨k, t, hk, hstart, hstop, hsearch⟩
  exact ⟨k, t, hd.readAt hk, hstart, hstop, hd.covers hfind.split hstart hstop, hsearch⟩

theorem Finds.findRange (hfind : Finds d x key front text behind) (hd : Describes d x) :
    findRange d [ascii "IOTCMD", key] (wholeRange x) =
      .ok ⟨front.length, front.length + text.length⟩ := by
  rcases hfind.covers hd with ⟨k, t, ht, hstart, hstop, -, hsearch⟩
  simp only [JsFileParser.findRange, search_iotcmd hd, ok_bind, hsearch, takeToken_none ht, hstart,
    hstop]

/-- A value found in the document is read whole. -/
theorem Finds.commandValue (hfind : Finds d x key front text behind) (hd : Describes d x)
    (hroom : text.length < maxValueSize) : commandValue d key = .ok text := by
  rcases hfind.covers hd with ⟨k, t, ht, -, -, hcovers, hsearch⟩
  have htake : takeToken d (some (List.replicate maxValueSize 0)) k = _ :=
    takeToken_some ht hcovers (by rw [List.length_replicate]; omega)
  simp only [Command.commandValue, getJsfileValue, getAllRange_describes hd, ok_bind, findValue,
    search_iotcmd hd, hsearch, htake, Option.getD_some]
  exact cString_append 0 text _ hcovers.noNul

/-- Setting a value that the search finds gives the document of the new texts, when these
differ from the old ones in the text found only. -/
theorem Finds.setValue (hfind : Finds d x key front text behind) (hd : Describes d x) {y : Texts}
    {v vrest : List Byte} (hy : y.Words) (hcontent : cmdContent y = front ++ v ++ behind)
    (htokens : tokensOf y = (tokensOf x).map (shiftToken
      ⟨front.length, front.length + text.length⟩ ((cmdContent y).length - (cmdContent x).length)))
    (hroom : (cmdContent y).length < MAXCONTENTSIZE) :
    ∃ d', setJsfileSingleValue (v ++ 0 :: vrest) [ascii "IOTCMD", key] d = .ok d' ∧
      Describes d' y := by
  obtain ⟨others, hothers⟩ := hd.tokens
  obtain ⟨rest, hrest⟩ := hd.content
  have hnul := hy.noNul
  rw [hcontent] at hnul hroom
  have hstop : (30 + x.type.length + x.id.length + x.key.length + x.value.length : ℤ) =
      (cmdContent x).length := by
    rw [cmdContent_length]
    push_cast
    rfl
  obtain ⟨rest', hset, hsize⟩ := setJsfileSingleValue_eq front text behind rest v vrest
    hothers hd.tokenSize (hfind.findRange hd) (by rw [hrest, hfind.split]; simp) hd.contentRoom
    hfind.word.ne_nil hnul hroom
  rw [← hcontent] at hset hsize
  have htable := htokens
  rw [← hstop] at htable
  have hlast : (30 + y.type.length + y.id.length + y.key.length + y.value.length : ℤ) =
      (shiftToken ⟨front.length, front.length + text.length⟩ ((cmdContent y).length -
        (30 + x.type.length + x.id.length + x.key.length + x.value.length : ℤ))
          ⟨.object, 0, 30 + x.type.length + x.id.length + x.key.length + x.value.length, 1⟩).stop :=
    congrArg Token.stop (List.cons.inj htable).1
  refine ⟨_, hset, hy, ⟨rest', rfl⟩, hsize, ⟨others, ?_⟩, ?_, hd.tokenSize, ?_⟩
  · exact congrArg (· ++ others) htable.symm
  · have hroom' := hd.tokenRoom
    rw [hothers, List.length_append] at hroom'
    rw [List.length_append, List.length_map]
    exact hroom'
  · refine hlast.symm.trans ?_
    rw [cmdContent_length]
    push_cast
    rfl

/-- Any bytes without a terminator are put where the search ends. -/
theorem Finds.set_content (hfind : Finds d x key front text behind) (hd : Describes d x)
    {v vrest : List Byte} (hnul : (0 : Byte) ∉ front ++ v ++ behind)
    (hroom : (front ++ v ++ behind).length < MAXCONTENTSIZE) :
    ∃ d' rest, setJsfileSingleValue (v ++ 0 :: vrest) [ascii "IOTCMD", key] d = .ok d' ∧
      d'.content = front ++ v ++ behind ++ 0 :: rest ∧
      d'.contentSize = (front ++ v ++ behind).length := by
  obtain ⟨others, hothers⟩ := hd.tokens
  obtain ⟨rest, hrest⟩ := hd.content
  obtain ⟨rest', hset, -⟩ := setJsfileSingleValue_eq front text behind rest v vrest
    hothers hd.tokenSize (hfind.findRange hd) (by rw [hrest, hfind.split]; simp) hd.contentRoom
    hfind.word.ne_nil hnul hroom
  refine ⟨_, rest', hset, rfl, ?_⟩
  -- the outer object ends behind the front, so its end is shifted to the end of the new text
  have hwhole : front.length ≤ (cmdContent x).length := by
    rw [hfind.split, List.length_append]
    omega
  rw [cmdContent_length] at hwhole
  simp only [shiftToken]
  rw [if_pos (by omega)]
  omega

/-- A value that was set ended at a terminator and stands in the new document. -/
theorem Finds.setValue_room (hfind : Finds d x key front text behind) (hd : Describes d x)
    {value : List Byte} {d' : JsonData}
    (hok : setJsfileSingleValue value [ascii "IOTCMD", key] d = .ok d') :
    ∃ v vrest rest, value = v ++ 0 :: vrest ∧ (0 : Byte) ∉ front ++ v ++ behind ∧
      d'.content = front ++ v ++ behind ++ 0 :: rest := by
  obtain ⟨others, hothers⟩ := hd.tokens
  obtain ⟨rest, hrest⟩ := hd.content
  have hnul := hd.words.noNul
  rw [hfind.split] at hrest hnul
  simp only [List.mem_append, not_or] at hnul
  have hcontent : d.content = front ++ (text ++ (behind ++ 0 :: rest)) := by
    rw [hrest]
    simp
  obtain ⟨v, vrest, rfl, hv, hroom⟩ := setJsfileSingleValue_room front text behind rest value
    hothers (hfind.findRange hd) hcontent hfind.word.ne_nil hnul.1 hnul.2.2 hok
  have hnul' : (0 : Byte) ∉ front ++ v ++ behind := by
    simp only [List.mem_append, not_or]
    exact ⟨⟨hnul.1, hv⟩, hnul.2.2⟩
  obtain ⟨d'', rest', hset, hplace, -⟩ := hfind.set_content hd hnul' hroom
  rw [hset] at hok
  obtain rfl := Except.ok.inj hok
  exact ⟨v, vrest, rest', rfl, hnul', hplace⟩

end

section

variable {x y : Texts}

theorem tokensOf_setType (type : List Byte) :
    tokensOf { x with type := type } = (tokensOf x).map (shiftToken
      ⟨frontType.length, frontType.length + x.type.length⟩
      ((cmdContent { x with type := type }).length - (cmdContent x).length)) := by
  simp only [tokensOf, cmdTokens, cmdContent_length, frontType_length, List.map_cons, List.map_nil,
    shiftToken, List.cons.injEq, Token.mk.injEq, true_and, and_true]
  omega

theorem tokensOf_setId (id : List Byte) :
    tokensOf { x with id := id } = (tokensOf x).map (shiftToken
      ⟨(frontId x).length, (frontId x).length + x.id.length⟩
      ((cmdContent { x with id := id }).length - (cmdContent x).length)) := by
  simp only [tokensOf, cmdTokens, cmdContent_length, frontId_length, List.map_cons, List.map_nil,
    shiftToken, List.cons.injEq, Token.mk.injEq, true_and, and_true]
  omega

theorem tokensOf_setKey (key : List Byte) :
    tokensOf { x with key := key } = (tokensOf x).map (shiftToken
      ⟨(frontKey x).length, (frontKey x).length + x.key.length⟩
      ((cmdContent { x with key := key }).length - (cmdContent x).length)) := by
  simp only [tokensOf, cmdTokens, cmdContent_length, frontKey_length, List.map_cons, List.map_nil,
    shiftToken, List.cons.injEq, Token.mk.injEq, true_and, and_true]
  omega

theorem tokensOf_setValue (value : List Byte) :
    tokensOf { x with value := value } = (tokensOf x).map (shiftToken
      ⟨(frontValue x).length, (frontValue x).length + x.value.length⟩
      ((cmdContent { x with value := value }).length - (cmdContent x).length)) := by
  simp only [tokensOf, cmdTokens, cmdContent_length, frontValue_length, List.map_cons,
    List.map_nil, shiftToken, List.cons.injEq, Token.mk.injEq, true_and, and_true]
  omega

end

/-- The texts of the document that carries a command. -/
def cmdTexts (type id value : List Byte) : Texts :=
  if id = ascii "Value" then ⟨type, id, value, ascii "0"⟩ else ⟨type, id, ascii "Value", value⟩

theorem isWord_zero : IsWord (ascii "0") := ⟨by decide, List.all_eq_true.mp (by decide)⟩

theorem isWord_valueKey : IsWord (ascii "Value") :=
  ⟨by decide, List.all_eq_true.mp (by decide)⟩

section

variable {type id value : List Byte}

theorem cmdTexts_words (htype : IsWord type) (hid : IsWord id) (hvalue : IsWord value) :
    (cmdTexts type id value).Words := by
  unfold cmdTexts
  split
  · exact ⟨htype, hid, hvalue, isWord_zero⟩
  · exact ⟨htype, hid, isWord_valueKey, hvalue⟩

/-- An ID spelled like the key has the key's length, and a digit stands for the value. -/
theorem cmdTexts_length : (cmdContent (cmdTexts type id value)).length =
    type.length + id.length + value.length + if id = ascii "Value" then 31 else 35 := by
  have hkey : (ascii "Value").length = 5 := by decide
  have hzero : (ascii "0").length = 1 := by decide
  rw [cmdContent_length]
  unfold cmdTexts
  split <;> simp only [hkey, hzero] <;> omega

/-- The text that a command type is written as. -/
structure IsTypeText (type : List Byte) : Prop where
  word : IsWord type
  length : type.length = 3
  ne_id : type ≠ ascii "ID"
  ne_value : type ≠ ascii "Value"

theorem typeText_isTypeText {cmdType : CommandType} (h : typeText cmdType = some type) :
    IsTypeText type := by
  cases cmdType <;> simp only [typeText, Option.some.injEq, reduceCtorEq] at h <;> subst h <;>
    exact ⟨⟨by decide, List.all_eq_true.mp (by decide)⟩, by decide, by decide, by decide⟩

theorem typeOfText_typeText {cmdType otherwise : CommandType} (h : typeText cmdType = some type) :
    typeOfText type otherwise = cmdType := by
  cases cmdType <;> simp only [typeText, Option.some.injEq, reduceCtorEq] at h <;> subst h <;> rfl

variable {d : JsonData} {vrest : List Byte}

/-- The empty command, before any value has been set. -/
def emptyTexts : Texts := ⟨ascii "None", ascii "0", ascii "Value", ascii "0"⟩

theorem emptyTexts_words : emptyTexts.Words :=
  ⟨⟨by decide, List.all_eq_true.mp (by decide)⟩, isWord_zero, isWord_valueKey, isWord_zero⟩

theorem set_type (hd : Describes d emptyTexts) (htype : IsTypeText type) (vrest : List Byte) :
    ∃ d', setJsfileSingleValue (type ++ 0 :: vrest) [ascii "IOTCMD", ascii "Type"] d = .ok d' ∧
      Describes d' ⟨type, ascii "0", ascii "Value", ascii "0"⟩ := by
  apply (finds_type hd).setValue hd ⟨htype.word, isWord_zero, isWord_valueKey, isWord_zero⟩
  · rw [cmdContent_type, List.append_assoc]
    rfl
  · exact tokensOf_setType (x := emptyTexts) type
  · rw [cmdContent_length]
    simp only [htype.length]
    decide

theorem set_id (htype : IsTypeText type) (hd : Describes d ⟨type, ascii "0", ascii "Value", ascii "0"⟩)
    (hid : IsWord id) (hroom : id.length < 900) (vrest : List Byte) :
    ∃ d', setJsfileSingleValue (id ++ 0 :: vrest) [ascii "IOTCMD", ascii "ID"] d = .ok d' ∧
      Describes d' ⟨type, id, ascii "Value", ascii "0"⟩ := by
  apply (finds_id hd htype.ne_id).setValue hd ⟨htype.word, hid, isWord_valueKey, isWord_zero⟩
  · rw [cmdContent_id, List.append_assoc]
    rfl
  · exact tokensOf_setId (x := ⟨type, ascii "0", ascii "Value", ascii "0"⟩) id
  · have hkey : (ascii "Value").length = 5 := by decide
    have hzero : (ascii "0").length = 1 := by decide
    have hmax : MAXCONTENTSIZE = 1024 := rfl
    rw [cmdContent_length]
    simp only [htype.length, hkey, hzero]
    omega

/-- The value is put where the search for its key ends. -/
theorem set_value (htype : IsTypeText type)
    (hd : Describes d ⟨type, id, ascii "Value", ascii "0"⟩) (hid : IsWord id)
    (hvalue : IsWord value) (hroom : id.length + value.length < 900) (vrest : List Byte) :
    ∃ d', setJsfileSingleValue (value ++ 0 :: vrest) [ascii "IOTCMD", ascii "Value"] d = .ok d' ∧
      Describes d' (cmdTexts type id value) := by
  have hwords := cmdTexts_words htype.word hid hvalue
  have hlen : (cmdContent (cmdTexts type id value)).length < MAXCONTENTSIZE := by
    have hmax : MAXCONTENTSIZE = 1024 := rfl
    rw [cmdTexts_length, htype.length]
    split <;> omega
  unfold cmdTexts at hwords hlen ⊢
  by_cases hcase : id = ascii "Value"
  · rw [if_pos hcase] at hwords hlen ⊢
    apply (finds_key hd htype.ne_value hcase).setValue hd hwords ?_ ?_ hlen
    · rw [cmdContent_key, List.append_assoc]
      rfl
    · exact tokensOf_setKey (x := ⟨type, id, ascii "Value", ascii "0"⟩) value
  · rw [if_neg hcase] at hwords hlen ⊢
    apply (finds_value hd htype.ne_value hcase rfl).setValue hd hwords ?_ ?_ hlen
    · rw [cmdContent_value, List.append_assoc]
      rfl
    · exact tokensOf_setValue (x := ⟨type, id, ascii "Value", ascii "0"⟩) value

theorem cmdTexts_noNul (htype : IsTypeText type) (hid : IsWord id) (hvalue : (0 : Byte) ∉ value) :
    (0 : Byte) ∉ cmdContent (cmdTexts type id value) := by
  unfold cmdTexts
  split
  · exact cmdContent_noNul htype.word.noNul hid.noNul hvalue isWord_zero.noNul
  · exact cmdContent_noNul htype.word.noNul hid.noNul isWord_valueKey.noNul hvalue

/-- Any bytes are put there too. -/
theorem set_value_bytes (htype : IsTypeText type)
    (hd : Describes d ⟨type, id, ascii "Value", ascii "0"⟩) (hid : IsWord id)
    (hvalue : (0 : Byte) ∉ value) (hroom : (cmdContent (cmdTexts type id value)).length <
      MAXCONTENTSIZE) (vrest : List Byte) :
    ∃ d' rest, setJsfileSingleValue (value ++ 0 :: vrest) [ascii "IOTCMD", ascii "Value"] d =
        .ok d' ∧
      d'.content = cmdContent (cmdTexts type id value) ++ 0 :: rest ∧
      d'.contentSize = (cmdContent (cmdTexts type id value)).length := by
  have hnul := cmdTexts_noNul htype hid hvalue
  unfold cmdTexts at hroom hnul ⊢
  by_cases hcase : id = ascii "Value"
  · rw [if_pos hcase, cmdContent_key, ← List.append_assoc] at hroom hnul ⊢
    exact (finds_key hd htype.ne_value hcase).set_content hd hnul hroom
  · rw [if_neg hcase, cmdContent_value, ← List.append_assoc] at hroom hnul ⊢
    exact (finds_value hd htype.ne_value hcase rfl).set_content hd hnul hroom

variable {jsonObj : JsonData} {cmd : IoTCommand} {idRest beyond : List Byte}

theorem initToken_copied (hcontent : jsonObj.content.length = MAXCONTENTSIZE)
    (htokens : jsonObj.tokens.length = MAXTOKENSIZE) {x : Texts} (hx : x.Words)
    (hroom : (cmdContent x).length < MAXCONTENTSIZE) (rest : List Byte) :
    ∃ d, (strcpy jsonObj.content (cmdContent x ++ 0 :: rest) >>= fun content =>
      initToken { jsonObj with content := content }) = .ok d ∧ Describes d x := by
  have hcopy := strcpy_eq jsonObj.content (cmdContent x) rest hx.noNul (by omega)
  rw [hcopy, ok_bind]
  apply initToken_describes hx rfl
  · simp only [List.length_append, List.length_cons, List.length_drop]
    omega
  · exact htokens

/-- The encoder up to the setting of the value. -/
theorem encodeIotCmd_front (hcontent : jsonObj.content.length = MAXCONTENTSIZE)
    (htokens : jsonObj.tokens.length = MAXTOKENSIZE) (htype : typeText cmd.cmdType = some type)
    (hidBytes : cmd.ID.bytes = id ++ 0 :: idRest) (hid : IsWord id) (hroom : id.length < 900)
    (cmdBuffer beyond : List Byte) :
    ∃ d, Describes d ⟨type, id, ascii "Value", ascii "0"⟩ ∧
      encodeIotCmd jsonObj cmdBuffer cmd beyond = (do
        let d ← setJsfileSingleValue (cmd.Value.bytes ++ beyond) [ascii "IOTCMD", ascii "Value"] d
        let buffer ← strcpy cmdBuffer d.content
        .ok (buffer, d.contentSize + 1)) := by
  have hword := typeText_isTypeText htype
  obtain ⟨d₀, hinit, hd₀⟩ := initToken_copied hcontent htokens emptyTexts_words (by decide) []
  obtain ⟨d₁, hset₁, hd₁⟩ := set_type hd₀ hword []
  obtain ⟨d₂, hset₂, hd₂⟩ := set_id hword hd₁ hid hroom
    (idRest ++ (cmd.Value.bytes ++ beyond))
  have hidText : cmd.ID.bytes ++ (cmd.Value.bytes ++ beyond) =
      id ++ 0 :: (idRest ++ (cmd.Value.bytes ++ beyond)) := by
    rw [hidBytes, List.append_assoc, List.cons_append]
  have hempty : emptyCmd = cmdContent emptyTexts := emptyCmd_eq
  refine ⟨d₂, hd₂, ?_⟩
  rw [encodeIotCmd, hempty, ← bind_assoc, hinit, ok_bind]
  simp only [htype, hset₁, ok_bind, hidText, hset₂]

/-- Before the last copy the encoder holds the document of the command's texts. -/
theorem encodeIotCmd_eq (hcontent : jsonObj.content.length = MAXCONTENTSIZE)
    (htokens : jsonObj.tokens.length = MAXTOKENSIZE) (htype : typeText cmd.cmdType = some type)
    (hidBytes : cmd.ID.bytes = id ++ 0 :: idRest)
    (hvalueBytes : cmd.Value.bytes ++ beyond = value ++ 0 :: vrest) (hid : IsWord id)
    (hvalue : IsWord value) (hroom : id.length + value.length < 900) (cmdBuffer : List Byte) :
    ∃ d, Describes d (cmdTexts type id value) ∧ encodeIotCmd jsonObj cmdBuffer cmd beyond =
      (strcpy cmdBuffer d.content >>= fun buffer => .ok (buffer, d.contentSize + 1)) := by
  obtain ⟨d₂, hd₂, hencode⟩ := encodeIotCmd_front hcontent htokens htype hidBytes hid (by omega)
    cmdBuffer beyond
  obtain ⟨d₃, hset₃, hd₃⟩ := set_value (typeText_isTypeText htype) hd₂ hid hvalue hroom vrest
  refine ⟨d₃, hd₃, ?_⟩
  rw [hencode, hvalueBytes, hset₃, ok_bind]

/-- An encoding that stayed inside its arrays had a value with a terminator and room for the
text. -/
theorem encodeIotCmd_room (hcontent : jsonObj.content.length = MAXCONTENTSIZE)
    (htokens : jsonObj.tokens.length = MAXTOKENSIZE) (htype : typeText cmd.cmdType = some type)
    (hidBytes : cmd.ID.bytes = id ++ 0 :: idRest) (hid : IsWord id) (hroom : id.length < 900)
    {cmdBuffer : List Byte} {r : List Byte × ℤ}
    (hok : encodeIotCmd jsonObj cmdBuffer cmd beyond = .ok r) :
    ∃ v vrest, cmd.Value.bytes ++ beyond = v ++ 0 :: vrest ∧ (0 : Byte) ∉ v ∧
      (cmdContent (cmdTexts type id v)).length < cmdBuffer.length := by
  have hword := typeText_isTypeText htype
  obtain ⟨d, hd, hencode⟩ := encodeIotCmd_front hcontent htokens htype hidBytes hid hroom
    cmdBuffer beyond
  rw [hencode] at hok
  obtain ⟨d', hset, hok⟩ := bind_eq_ok.mp hok
  obtain ⟨buffer, hcopy, -⟩ := bind_eq_ok.mp hok
  have hstands : ∃ v vrest content rest, cmd.Value.bytes ++ beyond = v ++ 0 :: vrest ∧
      (0 : Byte) ∉ v ∧ (0 : Byte) ∉ content ∧ d'.content = content ++ 0 :: rest ∧
      content = cmdContent (cmdTexts type id v) := by
    by_cases hcase : id = ascii "Value"
    · obtain ⟨v, vrest, rest, hvalue, hnul, hplace⟩ :=
        (finds_key hd hword.ne_value hcase).setValue_room hd hset
      refine ⟨v, vrest, _, rest, hvalue, fun hmem => hnul (by simp [hmem]), hnul, hplace, ?_⟩
      rw [cmdTexts, if_pos hcase, cmdContent_key, List.append_assoc]
      rfl
    · obtain ⟨v, vrest, rest, hvalue, hnul, hplace⟩ :=
        (finds_value hd hword.ne_value hcase rfl).setValue_room hd hset
      refine ⟨v, vrest, _, rest, hvalue, fun hmem => hnul (by simp [hmem]), hnul, hplace, ?_⟩
      rw [cmdTexts, if_neg hcase, cmdContent_value, List.append_assoc]
      rfl
  obtain ⟨v, vrest, content, rest, hvalue, hv, hnul, hplace, htext⟩ := hstands
  obtain ⟨text, behind, hsrc, htextNul, hfits⟩ := strcpy_room hcopy
  obtain ⟨rfl, -⟩ := Delimited.field_unique (hsrc.symm.trans hplace) htextNul hnul
  exact ⟨v, vrest, hvalue, hv, htext ▸ hfits⟩

/-- The decoder reads the three texts back. -/
theorem decodeIotCmd_eq (hcontent : jsonObj.content.length = MAXCONTENTSIZE)
    (htokens : jsonObj.tokens.length = MAXTOKENSIZE) (htype : IsTypeText type) (hid : IsWord id)
    (hvalue : IsWord value) (hidRoom : id.length < maxValueSize)
    (hvalueRoom : value.length < maxValueSize) (rest : List Byte) :
    decodeIotCmd jsonObj (cmdContent (cmdTexts type id value) ++ 0 :: rest) cmd = (do
      let ID ← CharArray.ofText COMMAND_CHAR_SIZE id
      let Value ← CharArray.ofText COMMAND_CHAR_SIZE value
      .ok ⟨typeOfText type cmd.cmdType, ID, Value⟩) := by
  have hmax : MAXCONTENTSIZE = 1024 := rfl
  have hval : maxValueSize = 100 := rfl
  have hlen : (cmdContent (cmdTexts type id value)).length < MAXCONTENTSIZE := by
    rw [cmdTexts_length, htype.length]
    split <;> omega
  have hwords := cmdTexts_words htype.word hid hvalue
  obtain ⟨d, hinit, hd⟩ := initToken_copied hcontent htokens hwords hlen rest
  have hthree : type.length < maxValueSize := by rw [htype.length]; decide
  have hreads : commandValue d (ascii "Type") = .ok type ∧ commandValue d (ascii "ID") = .ok id ∧
      commandValue d (ascii "Value") = .ok value := by
    unfold cmdTexts at hd
    by_cases hcase : id = ascii "Value"
    · rw [if_pos hcase] at hd
      exact ⟨(finds_type hd).commandValue hd hthree,
        (finds_id hd htype.ne_id).commandValue hd hidRoom,
        (finds_key hd htype.ne_value hcase).commandValue hd hvalueRoom⟩
    · rw [if_neg hcase] at hd
      exact ⟨(finds_type hd).commandValue hd hthree,
        (finds_id hd htype.ne_id).commandValue hd hidRoom,
        (finds_value hd htype.ne_value hcase rfl).commandValue hd hvalueRoom⟩
  rw [decodeIotCmd, ← bind_assoc, hinit, ok_bind]
  simp only [hreads, ok_bind]

end

/-- The characters of IDs and values: letters, digits, `.`, `_` and `-`. -/
def isFieldChar (c : Byte) : Bool :=
  (48 ≤ c && c ≤ 57) || (65 ≤ c && c ≤ 90) || (97 ≤ c && c ≤ 122) || c == 46 || c == 95 || c == 45

theorem isPlain_of_isFieldChar {c : Byte} (h : isFieldChar c) : isPlain c := by
  have hall : ∀ n : Fin 256, isFieldChar (UInt8.ofFin n) → isPlain (UInt8.ofFin n) := by
    decide +kernel
  exact hall c.toFin h

/-- A text of such characters. -/
structure IsFieldText (text : List Byte) : Prop where
  ne_nil : text ≠ []
  chars : ∀ c ∈ text, isFieldChar c

theorem IsFieldText.isWord {text : List Byte} (h : IsFieldText text) : IsWord text :=
  ⟨h.ne_nil, fun c hc => isPlain_of_isFieldChar (h.chars c hc)⟩

/-- Decoding what the encoder wrote gives the command back, and the length returned is that
of the text and its terminator. The documents of the two calls start from any contents, and
the buffer is any that has room for the text. -/
theorem decode_encode (jsonObj jsonObj' : JsonData) (cmd cmd₀ : IoTCommand)
    (id value beyond : List Byte)
    (hjson : jsonObj.content.length = MAXCONTENTSIZE ∧ jsonObj.tokens.length = MAXTOKENSIZE)
    (hjson' : jsonObj'.content.length = MAXCONTENTSIZE ∧ jsonObj'.tokens.length = MAXTOKENSIZE)
    (htype : cmd.cmdType ≠ .none) (hid : cmd.ID.text = .ok id) (hvalue : cmd.Value.text = .ok value)
    (hidText : IsFieldText id) (hvalueText : IsFieldText value) :
    ∃ text : List Byte, text.length ≤ id.length + value.length + 38 ∧
      ∀ cmdBuffer : List Byte, text.length < cmdBuffer.length → ∃ buffer cmd',
        encodeIotCmd jsonObj cmdBuffer cmd beyond = .ok (buffer, text.length + 1) ∧
        cString 0 buffer = .ok text ∧ decodeIotCmd jsonObj' buffer cmd₀ = .ok cmd' ∧
        cmd'.cmdType = cmd.cmdType ∧ cmd'.ID.text = .ok id ∧ cmd'.Value.text = .ok value := by
  obtain ⟨type, hname⟩ : ∃ type, typeText cmd.cmdType = some type := by
    cases hcase : cmd.cmdType with
    | none => exact absurd hcase htype
    | readRequest | readResponse | write | management => exact ⟨_, rfl⟩
  have hword := typeText_isTypeText hname
  rcases CharArray.text_eq_ok hid with ⟨hidNul, hidLen, idRest, hidBytes⟩
  rcases CharArray.text_eq_ok hvalue with ⟨hvalueNul, hvalueLen, vrest, hvalueBytes⟩
  have hten : COMMAND_CHAR_SIZE = 10 := rfl
  have hmax : maxValueSize = 100 := rfl
  have hvalueMemory : cmd.Value.bytes ++ beyond = value ++ 0 :: (vrest ++ beyond) := by
    rw [hvalueBytes, List.append_assoc, List.cons_append]
  refine ⟨cmdContent (cmdTexts type id value), ?_, ?_⟩
  · rw [cmdTexts_length, hword.length]
    split <;> omega
  intro cmdBuffer hroom
  obtain ⟨d, hd, hencode⟩ := encodeIotCmd_eq hjson.1 hjson.2 hname hidBytes hvalueMemory
    hidText.isWord hvalueText.isWord (by omega) cmdBuffer
  obtain ⟨rest, hcontent⟩ := hd.content
  have hnul := hd.words.noNul
  obtain ⟨ID, hID⟩ := CharArray.exists_ofText COMMAND_CHAR_SIZE id hidLen
  obtain ⟨Value, hValue⟩ := CharArray.exists_ofText COMMAND_CHAR_SIZE value hvalueLen
  have hcopy := strcpy_eq cmdBuffer (cmdContent (cmdTexts type id value)) rest hnul hroom
  refine ⟨cmdContent (cmdTexts type id value) ++
      0 :: cmdBuffer.drop ((cmdContent (cmdTexts type id value)).length + 1),
    ⟨typeOfText type cmd₀.cmdType, ID, Value⟩, ?_, cString_append 0 _ _ hnul, ?_,
    typeOfText_typeText hname, CharArray.ofText_text hID hidNul,
    CharArray.ofText_text hValue hvalueNul⟩
  · rw [hencode, hcontent, hcopy, hd.contentSize]
    rfl
  · rw [decodeIotCmd_eq hjson'.1 hjson'.2 hword hidText.isWord hvalueText.isWord (by omega)
      (by omega), hID, ok_bind, hValue, ok_bind]

def blankJson : JsonData where
  tokens := List.replicate MAXTOKENSIZE ⟨.primitive, -1, -1, 0⟩
  content := List.replicate MAXCONTENTSIZE 0
  tokenSize := 0
  contentSize := 0

theorem blankJson_content : blankJson.content.length = MAXCONTENTSIZE := List.length_replicate

theorem blankJson_tokens : blankJson.tokens.length = MAXTOKENSIZE := List.length_replicate

/-- A command whose ID is spelled like a key. -/
def valueCommand : IoTCommand where
  cmdType := .write
  ID := ⟨ascii "Value" ++ List.replicate 5 0, by decide⟩
  Value := ⟨ascii "12.5" ++ List.replicate 6 0, by decide⟩

theorem decode_encode_valueCommand :
    ∃ text : List Byte, text.length ≤ 47 ∧
      ∀ cmdBuffer : List Byte, text.length < cmdBuffer.length → ∃ buffer cmd',
        encodeIotCmd blankJson cmdBuffer valueCommand [] = .ok (buffer, text.length + 1) ∧
        cString 0 buffer = .ok text ∧ decodeIotCmd blankJson buffer generateIotCommand = .ok cmd' ∧
        cmd'.cmdType = .write ∧ cmd'.ID.text = .ok (ascii "Value") ∧
        cmd'.Value.text = .ok (ascii "12.5") :=
  decode_encode blankJson blankJson valueCommand generateIotCommand (ascii "Value") (ascii "12.5")
    [] ⟨blankJson_content, blankJson_tokens⟩ ⟨blankJson_content, blankJson_tokens⟩
    (by decide) (by decide) (by decide) ⟨by decide, List.all_eq_true.mp (by decide)⟩
    ⟨by decide, List.all_eq_true.mp (by decide)⟩

end IoTRepublic.CommandCodec
