import IoTRepublic.Command

/-!
The documents a command is encoded through. All of them have one shape, with
four texts that vary, and one token table whose positions depend on the lengths
of the texts alone. Tokenizing such a document gives its table, and setting a
value in it gives the document and the table of the new texts.
-/
namespace IoTRepublic.CommandText

open CheckedArray Package Jsmn JsFileParser Command

/-- `"key":value`. -/
def member (key value rest : List Byte) : List Byte :=
  quote :: (key ++ quote :: colon :: (value ++ rest))

/-- The four texts of a document: the values of the type and of the ID, and the last key
with its value. -/
structure Texts where
  type : List Byte
  id : List Byte
  key : List Byte
  value : List Byte

def cmdContent (x : Texts) : List Byte :=
  leftBrace :: quote :: (ascii "IOTCMD" ++ quote :: colon :: leftBrace ::
    member (ascii "Type") x.type (comma :: member (ascii "ID") x.id
      (comma :: member x.key x.value [rightBrace, rightBrace])))

def cmdTokens (t i k v : ℕ) : List Token :=
  [⟨.object, 0, 30 + t + i + k + v, 1⟩,
    ⟨.string, 2, 8, 1⟩,
    ⟨.object, 10, 29 + t + i + k + v, 3⟩,
    ⟨.string, 12, 16, 1⟩,
    ⟨.primitive, 18, 18 + t, 0⟩,
    ⟨.string, 20 + t, 22 + t, 1⟩,
    ⟨.primitive, 24 + t, 24 + t + i, 0⟩,
    ⟨.string, 26 + t + i, 26 + t + i + k, 1⟩,
    ⟨.primitive, 28 + t + i + k, 28 + t + i + k + v, 0⟩]

def tokensOf (x : Texts) : List Token :=
  cmdTokens x.type.length x.id.length x.key.length x.value.length

/-- A text that one token covers. -/
structure IsWord (text : List Byte) : Prop where
  ne_nil : text ≠ []
  plain : ∀ c ∈ text, isPlain c

structure Texts.Words (x : Texts) : Prop where
  type : IsWord x.type
  id : IsWord x.id
  key : IsWord x.key
  value : IsWord x.value

theorem cmdContent_length (x : Texts) : (cmdContent x).length =
    30 + x.type.length + x.id.length + x.key.length + x.value.length := by
  have htype : (ascii "Type").length = 4 := by decide
  have hid : (ascii "ID").length = 2 := by decide
  have hcmd : (ascii "IOTCMD").length = 6 := by decide
  simp only [cmdContent, member, List.length_cons, List.length_append, List.length_nil, htype, hid,
    hcmd]
  omega

theorem emptyCmd_eq :
    emptyCmd = cmdContent ⟨ascii "None", ascii "0", ascii "Value", ascii "0"⟩ := by
  decide

/-- The outer object and its key, while the outer object is open. -/
def outerTokens : List Token := [⟨.object, 0, -1, 1⟩, ⟨.string, 2, 8, 1⟩]

def innerTokens (x : Texts) : List Token :=
  memberTokens 11 (ascii "Type") x.type ++ memberTokens (19 + x.type.length) (ascii "ID") x.id ++
    memberTokens (25 + x.type.length + x.id.length) x.key x.value

theorem innerTokens_closed (x : Texts) (t : Token) (ht : t ∈ innerTokens x) :
    t.isOpen = false := by
  simp only [innerTokens, List.mem_append] at ht
  rcases ht with (ht | ht) | ht <;> exact memberTokens_not_open t ht

section

variable {fuel : ℕ} {rest : List Byte}

/-- The tokenizer comes to the inner object. -/
theorem jsmnParse_opening (x : Texts) (hfuel : (cmdContent x).length = fuel + 3) :
    jsmnParse (cmdContent x) MAXTOKENSIZE =
      parseLoop MAXTOKENSIZE fuel (member (ascii "Type") x.type (comma :: member (ascii "ID") x.id
        (comma :: member x.key x.value [rightBrace, rightBrace]))) 11
        ⟨outerTokens ++ [⟨.object, 10, -1, 0⟩], 2, 3⟩ := by
  have hcmd : ∀ c ∈ ascii "IOTCMD", isPlain c := List.all_eq_true.mp (by decide)
  have hfirst : openContainer ⟨[], -1, 0⟩ .object 0 = .ok ⟨[⟨.object, 0, -1, 0⟩], 0, 1⟩ := rfl
  have hkey : pushValue ⟨[⟨.object, 0, -1, 0⟩], 0, 1⟩
      ⟨.string, (0 + 1 : ℕ) + 1, (0 + 1 : ℕ) + 1 + (ascii "IOTCMD").length, 0⟩ =
      .ok ⟨[⟨.object, 0, -1, 1⟩, ⟨.string, 2, 8, 0⟩], 0, 2⟩ := rfl
  have hobject : openContainer ⟨[⟨.object, 0, -1, 1⟩, ⟨.string, 2, 8, 0⟩], 1, 2⟩ .object 10 =
      .ok ⟨outerTokens ++ [⟨.object, 10, -1, 0⟩], 2, 3⟩ := rfl
  rw [jsmnParse, hfuel, cmdContent, parseLoop_open (by decide) hfirst,
    parseLoop_string hcmd (by decide) hkey, parseLoop_colon]
  change parseLoop MAXTOKENSIZE (fuel + 1) _ 10
    ⟨[⟨.object, 0, -1, 1⟩, ⟨.string, 2, 8, 0⟩], 1, 2⟩ = _
  rw [parseLoop_open (by decide) hobject]

/-- The tokenizer comes to the last member, whatever this is. -/
theorem parseLoop_ahead {type id : List Byte} (htype : IsWord type) (hid : IsWord id) :
    parseLoop MAXTOKENSIZE (fuel + 8)
        (member (ascii "Type") type (comma :: member (ascii "ID") id (comma :: rest))) 11
        ⟨outerTokens ++ [⟨.object, 10, -1, 0⟩], 2, 3⟩ =
      parseLoop MAXTOKENSIZE fuel rest (25 + type.length + id.length)
        ⟨outerTokens ++ ⟨.object, 10, -1, 2⟩ :: (memberTokens 11 (ascii "Type") type ++
          memberTokens (19 + type.length) (ascii "ID") id), 2, 7⟩ := by
  have htypeKey : ∀ c ∈ ascii "Type", isPlain c := List.all_eq_true.mp (by decide)
  have hidKey : ∀ c ∈ ascii "ID", isPlain c := List.all_eq_true.mp (by decide)
  have hpos₁ : 11 + (ascii "Type").length + 4 + type.length = 19 + type.length := by
    rw [show (ascii "Type").length = 4 by decide]
  have hpos₂ : 19 + type.length + (ascii "ID").length + 4 + id.length =
      25 + type.length + id.length := by
    rw [show (ascii "ID").length = 2 by decide]
    omega
  rw [member, member]
  change parseLoop MAXTOKENSIZE (fuel + 8) _ 11
    ⟨outerTokens ++ ⟨.object, 10, -1, 0⟩ :: [], outerTokens.length, 3⟩ = _
  rw [parseLoop_member_comma outerTokens [] htypeKey htype.ne_nil htype.plain (by decide)
    (by decide) (by simp), hpos₁,
    parseLoop_member_comma outerTokens _ hidKey hid.ne_nil hid.plain
      (by simp [memberTokens, outerTokens, MAXTOKENSIZE]) ⟨rfl, rfl⟩
      (by simpa using memberTokens_not_container), hpos₂]
  rfl

private theorem parseLoop_members (x : Texts) (hx : x.Words) :
    parseLoop MAXTOKENSIZE (fuel + 11)
        (member (ascii "Type") x.type (comma :: member (ascii "ID") x.id
          (comma :: member x.key x.value (rightBrace :: rest)))) 11
        ⟨outerTokens ++ [⟨.object, 10, -1, 0⟩], 2, 3⟩ =
      parseLoop MAXTOKENSIZE fuel (rightBrace :: rest)
        (28 + x.type.length + x.id.length + x.key.length + x.value.length)
        ⟨outerTokens ++ ⟨.object, 10, -1, 3⟩ :: innerTokens x, 7, 9⟩ := by
  have hbrace : endsPrimitive rightBrace := by decide
  have hpos : 25 + x.type.length + x.id.length + x.key.length + 3 + x.value.length =
      28 + x.type.length + x.id.length + x.key.length + x.value.length := by
    omega
  have hahead := @parseLoop_ahead (fuel + 3) (member x.key x.value (rightBrace :: rest)) x.type
    x.id hx.type hx.id
  rw [hahead, member]
  change parseLoop MAXTOKENSIZE (fuel + 3) _ _ ⟨_, outerTokens.length, 7⟩ = _
  rw [parseLoop_member outerTokens _ hx.key.plain hx.value.ne_nil hx.value.plain hbrace
    (by simp [memberTokens, outerTokens, MAXTOKENSIZE]), hpos]
  rfl

private theorem parseLoop_closing (members : List Token) (pos : ℕ)
    (hclosed : ∀ t ∈ members, t.isOpen = false) :
    parseLoop MAXTOKENSIZE (fuel + 3) [rightBrace, rightBrace] pos
        ⟨outerTokens ++ ⟨.object, 10, -1, 3⟩ :: members, 7, 9⟩ =
      .ok (9, ⟨.object, 0, pos + 2, 1⟩ :: ⟨.string, 2, 8, 1⟩ :: ⟨.object, 10, pos + 1, 3⟩ ::
        members) := by
  have hkey : ∀ t ∈ (⟨.string, 2, 8, 1⟩ : Token) :: ⟨.object, 10, pos + 1, 3⟩ :: members,
      t.isOpen = false := by
    intro t ht
    rcases List.mem_cons.mp ht with rfl | ht
    · rfl
    rcases List.mem_cons.mp ht with rfl | ht
    · exact isOpen_eq_false (by simp only; omega)
    · exact hclosed t ht
  have hinner : closeContainer ⟨outerTokens ++ ⟨.object, 10, -1, 3⟩ :: members, 7, 9⟩ .object pos =
      .ok (some ⟨[] ++ ⟨.object, 0, -1, 1⟩ :: ⟨.string, 2, 8, 1⟩ :: ⟨.object, 10, pos + 1, 3⟩ ::
        members, 0, 9⟩) :=
    closeContainer_closed outerTokens members ⟨.object, 10, -1, 3⟩ _ _ pos rfl hclosed
  have houter : closeContainer ⟨[] ++ ⟨.object, 0, -1, 1⟩ :: ⟨.string, 2, 8, 1⟩ ::
      ⟨.object, 10, pos + 1, 3⟩ :: members, 0, 9⟩ .object (pos + 1) =
      .ok (some ⟨⟨.object, 0, (pos + 1 : ℕ) + 1, 1⟩ :: ⟨.string, 2, 8, 1⟩ ::
        ⟨.object, 10, pos + 1, 3⟩ :: members, -1, 9⟩) :=
    closeContainer_closed [] _ ⟨.object, 0, -1, 1⟩ _ _ (pos + 1) rfl hkey
  have hend : ((pos + 1 : ℕ) : ℤ) + 1 = pos + 2 := by omega
  rw [parseLoop_close hinner, parseLoop_close houter, parseLoop, finish_closed, hend]
  intro t ht
  rcases List.mem_cons.mp ht with rfl | ht
  · exact isOpen_eq_false (by simp only; omega)
  · exact hkey t ht

end

/-- The tokenizer finds the table of the document. -/
theorem jsmnParse_cmdContent (x : Texts) (hx : x.Words) :
    jsmnParse (cmdContent x) MAXTOKENSIZE = .ok (9, tokensOf x) := by
  obtain ⟨fuel, hfuel⟩ : ∃ k, (cmdContent x).length = k + 14 + 3 :=
    ⟨(cmdContent x).length - 17, by rw [cmdContent_length]; omega⟩
  have htype : (ascii "Type").length = 4 := by decide
  have hid : (ascii "ID").length = 2 := by decide
  have htokens : (⟨.object, 0, ((28 + x.type.length + x.id.length + x.key.length + x.value.length :
      ℕ) : ℤ) + 2, 1⟩ : Token) :: ⟨.string, 2, 8, 1⟩ :: ⟨.object, 10, ((28 + x.type.length +
      x.id.length + x.key.length + x.value.length : ℕ) : ℤ) + 1, 3⟩ :: innerTokens x =
        tokensOf x := by
    simp only [tokensOf, cmdTokens, innerTokens, memberTokens, htype, hid, List.cons_append,
      List.nil_append, List.cons.injEq, Token.mk.injEq, true_and, and_true]
    omega
  rw [jsmnParse_opening x hfuel, parseLoop_members x hx,
    parseLoop_closing _ _ (innerTokens_closed x), htokens]

theorem isPlain_ne_zero {c : Byte} (h : isPlain c) : c ≠ 0 := ne_of_isPlain h (by decide)

theorem IsWord.noNul {text : List Byte} (h : IsWord text) : (0 : Byte) ∉ text :=
  fun hmem => isPlain_ne_zero (h.plain 0 hmem) rfl

theorem cmdContent_noNul {x : Texts} (htype : (0 : Byte) ∉ x.type) (hid : (0 : Byte) ∉ x.id)
    (hkey : (0 : Byte) ∉ x.key) (hvalue : (0 : Byte) ∉ x.value) : (0 : Byte) ∉ cmdContent x := by
  have htypeKey : (0 : Byte) ∉ ascii "Type" := by decide
  have hidKey : (0 : Byte) ∉ ascii "ID" := by decide
  have hcmd : (0 : Byte) ∉ ascii "IOTCMD" := by decide
  simp only [cmdContent, member, List.mem_cons, List.mem_append, htype, hid, hkey, hvalue, htypeKey,
    hidKey, hcmd, false_or]
  decide

theorem Texts.Words.noNul {x : Texts} (hx : x.Words) : (0 : Byte) ∉ cmdContent x :=
  cmdContent_noNul hx.type.noNul hx.id.noNul hx.key.noNul hx.value.noNul

/-- The document and its tokens, as they stand in the arrays. -/
structure Describes (d : JsonData) (x : Texts) : Prop where
  words : x.Words
  content : ∃ rest, d.content = cmdContent x ++ 0 :: rest
  contentRoom : d.content.length = MAXCONTENTSIZE
  tokens : ∃ others, d.tokens = tokensOf x ++ others
  tokenRoom : d.tokens.length = MAXTOKENSIZE
  tokenSize : d.tokenSize = 9
  contentSize : d.contentSize = (cmdContent x).length

theorem initToken_describes {d : JsonData} {x : Texts} {rest : List Byte} (hx : x.Words)
    (hcontent : d.content = cmdContent x ++ 0 :: rest) (hsize : d.content.length = MAXCONTENTSIZE)
    (htokens : d.tokens.length = MAXTOKENSIZE) :
    ∃ d', initToken d = .ok d' ∧ Describes d' x := by
  have hread : cString 0 d.content = .ok (cmdContent x) := by
    rw [hcontent]
    exact cString_append 0 _ rest hx.noNul
  have hnine : (tokensOf x).length = 9 := rfl
  have hmax : MAXTOKENSIZE = 128 := rfl
  refine ⟨{ d with
    tokens := splice d.tokens 0 (tokensOf x)
    tokenSize := 9
    contentSize := (cmdContent x).length }, ?_,
    hx, ⟨rest, hcontent⟩, hsize, ⟨d.tokens.drop 9, ?_⟩, ?_, rfl, rfl⟩
  · rw [initToken, hread, ok_bind, jsmnParse_cmdContent x hx, ok_bind]
  · rw [splice_zero, hnine]
  · rw [splice_length _ _ _ (by omega)]
    exact htokens

/-- What stands in front of the four texts. -/
def frontType : List Byte :=
  leftBrace :: quote :: (ascii "IOTCMD" ++ quote :: colon :: leftBrace :: quote ::
    (ascii "Type" ++ [quote, colon]))

def frontId (x : Texts) : List Byte :=
  frontType ++ (x.type ++ comma :: quote :: (ascii "ID" ++ [quote, colon]))

def frontKey (x : Texts) : List Byte := frontId x ++ (x.id ++ [comma, quote])

def frontValue (x : Texts) : List Byte := frontKey x ++ (x.key ++ [quote, colon])

section

variable (x : Texts)

theorem frontType_length : frontType.length = 18 := by decide

theorem frontId_length : (frontId x).length = 24 + x.type.length := by
  have hid : (ascii "ID").length = 2 := by decide
  simp only [frontId, List.length_append, frontType_length, List.length_cons, List.length_nil, hid]
  omega

theorem frontKey_length : (frontKey x).length = 26 + x.type.length + x.id.length := by
  simp only [frontKey, List.length_append, frontId_length, List.length_cons, List.length_nil]
  omega

theorem frontValue_length :
    (frontValue x).length = 28 + x.type.length + x.id.length + x.key.length := by
  simp only [frontValue, List.length_append, frontKey_length, List.length_cons, List.length_nil]
  omega

theorem cmdContent_type : cmdContent x = frontType ++ (x.type ++
    comma :: member (ascii "ID") x.id (comma :: member x.key x.value [rightBrace, rightBrace])) := by
  simp [cmdContent, member, frontType]

theorem cmdContent_id : cmdContent x = frontId x ++ (x.id ++
    comma :: member x.key x.value [rightBrace, rightBrace]) := by
  simp [cmdContent, member, frontId, frontType]

theorem cmdContent_key : cmdContent x = frontKey x ++ (x.key ++
    quote :: colon :: (x.value ++ [rightBrace, rightBrace])) := by
  simp [cmdContent, member, frontKey, frontId, frontType]

theorem cmdContent_value : cmdContent x = frontValue x ++ (x.value ++
    [rightBrace, rightBrace]) := by
  simp [cmdContent, member, frontValue, frontKey, frontId, frontType]

theorem cmdContent_typeKey : ∃ behind, cmdContent x =
    leftBrace :: quote :: (ascii "IOTCMD" ++ [quote, colon, leftBrace, quote]) ++
      (ascii "Type" ++ behind) :=
  ⟨quote :: colon :: (x.type ++ comma :: member (ascii "ID") x.id
    (comma :: member x.key x.value [rightBrace, rightBrace])), by simp [cmdContent, member]⟩

theorem cmdContent_idKey : ∃ behind, cmdContent x =
    frontType ++ (x.type ++ [comma, quote]) ++ (ascii "ID" ++ behind) :=
  ⟨quote :: colon :: (x.id ++ comma :: member x.key x.value [rightBrace, rightBrace]), by
    simp [cmdContent, member, frontType]⟩

end

section

variable {d : JsonData} {x : Texts}

theorem Describes.readAt (hd : Describes d x) {k : ℕ} {t : Token} (ht : (tokensOf x)[k]? = some t) :
    readAt d.tokens k = .ok t := by
  obtain ⟨others, hothers⟩ := hd.tokens
  refine readAt_natCast _ _ _ ?_
  rw [hothers, List.getElem?_append_left (List.getElem?_eq_some_iff.mp ht).1]
  exact ht

/-- A token whose text stands where the token says covers it. -/
theorem Describes.covers (hd : Describes d x) {t : Token} {text front behind : List Byte}
    (hsplit : cmdContent x = front ++ (text ++ behind)) (hstart : t.start = front.length)
    (hstop : t.stop = front.length + text.length) : Covers d.content t text := by
  obtain ⟨rest, hrest⟩ := hd.content
  refine ⟨?_, front, behind ++ 0 :: rest, ?_, hstart, hstop⟩
  · intro hmem
    refine hd.words.noNul ?_
    rw [hsplit]
    simp [hmem]
  · rw [hrest, hsplit]
    simp

theorem Describes.length_lt (hd : Describes d x) : (cmdContent x).length < MAXCONTENTSIZE := by
  obtain ⟨rest, hrest⟩ := hd.content
  have hroom := hd.contentRoom
  rw [hrest, List.length_append, List.length_cons] at hroom
  omega

end

/-- The range of the whole document and of the command in it. -/
def wholeRange (x : Texts) : Range :=
  ⟨0, 30 + x.type.length + x.id.length + x.key.length + x.value.length⟩

def innerRange (x : Texts) : Range :=
  ⟨10, 29 + x.type.length + x.id.length + x.key.length + x.value.length⟩

section

variable {d : JsonData} {x : Texts} {result : Option (List Byte)}

theorem search_iotcmd (hd : Describes d x) :
    searchJsonDataInRange (ascii "IOTCMD") (wholeRange x) d none = .ok ⟨2, innerRange x, none⟩ := by
  have hcmd : Covers d.content ⟨.string, 2, 8, 1⟩ (ascii "IOTCMD") :=
    hd.covers (show cmdContent x = [leftBrace, quote] ++ _ from rfl) rfl (by decide)
  have hinner : readAt d.tokens 2 = .ok ⟨.object, 10, _, 3⟩ := hd.readAt rfl
  rw [searchJsonDataInRange, hd.tokenSize]
  change searchLoop _ _ _ _ 9 0 = _
  rw [searchLoop_object (hd.readAt rfl) ⟨by simp [wholeRange], by simp [wholeRange]⟩ rfl,
    searchLoop_text (hd.readAt rfl) ⟨by simp [wholeRange], by simp [wholeRange]; omega⟩ (.inl rfl)
      hcmd (by decide), if_pos rfl]
  exact takeToken_none hinner

/-- In the range of the command the search starts at the key of the type. -/
theorem search_inner (hd : Describes d x) (pattern : List Byte) :
    searchJsonDataInRange pattern (innerRange x) d result =
      if ascii "Type" = pattern then takeToken d result 4
      else searchLoop pattern (innerRange x) d result 5 4 := by
  obtain ⟨behind, hsplit⟩ := cmdContent_typeKey x
  have hkey : Covers d.content ⟨.string, 12, 16, 1⟩ (ascii "Type") :=
    hd.covers hsplit (by decide) (by decide)
  rw [searchJsonDataInRange, hd.tokenSize]
  change searchLoop _ _ _ _ 9 0 = _
  rw [searchLoop_outside (hd.readAt rfl) (by simp [Inside, innerRange]),
    searchLoop_outside (hd.readAt rfl) (by simp [Inside, innerRange]),
    searchLoop_object (hd.readAt rfl) ⟨by simp [innerRange], by simp [innerRange]⟩ rfl,
    searchLoop_text (hd.readAt rfl) ⟨by simp [innerRange], by simp [innerRange]; omega⟩ (.inl rfl)
      hkey (by decide)]
  rfl

/-- Behind it come the value of the type and the key of the ID. -/
theorem search_from_type (hd : Describes d x) (pattern : List Byte) (htype : x.type ≠ pattern) :
    searchLoop pattern (innerRange x) d result 5 4 =
      if ascii "ID" = pattern then takeToken d result 6
      else searchLoop pattern (innerRange x) d result 3 6 := by
  have hlen := hd.length_lt
  rw [cmdContent_length] at hlen
  obtain ⟨behind, hsplit⟩ := cmdContent_idKey x
  have hvalue : Covers d.content ⟨.primitive, 18, 18 + x.type.length, 0⟩ x.type :=
    hd.covers (cmdContent_type x) (by rw [frontType_length]; rfl) (by rw [frontType_length]; rfl)
  have hkey : Covers d.content ⟨.string, 20 + x.type.length, 22 + x.type.length, 1⟩
      (ascii "ID") := by
    have hfront : (frontType ++ (x.type ++ [comma, quote])).length = 20 + x.type.length := by
      simp only [List.length_append, frontType_length, List.length_cons, List.length_nil]
      omega
    have hid : (ascii "ID").length = 2 := by decide
    apply hd.covers hsplit
    · rw [hfront]
      push_cast
      rfl
    · rw [hfront, hid]
      push_cast
      omega
  rw [searchLoop_text (hd.readAt rfl) ⟨by simp [innerRange], by simp [innerRange]; omega⟩ (.inr rfl)
      hvalue (by omega), if_neg htype,
    searchLoop_text (hd.readAt rfl) ⟨by simp [innerRange]; omega, by simp [innerRange]; omega⟩
      (.inl rfl) hkey (by decide)]
  rfl

end

end IoTRepublic.CommandText
