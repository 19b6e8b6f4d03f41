import IoTRepublic.JsmnBrackets
import IoTRepublic.PackageOnly

/-!
Commands with any bytes as their value. The value is put between the brackets of
the document as it is, so the tokenizer may read it as quotes, brackets, commas
or words of the document. The type and the ID stand in front of it and are read
back whenever the document is accepted and a token stands behind the last key;
what the value needs for this is said with brackets alone.
-/
namespace IoTRepublic.ValueBytes

open CheckedArray Package Jsmn JsmnTokens JsmnSteps JsmnRounds JsmnBrackets BracketText JsFileParser
  Command CommandText CommandCodec Lookup Management PackageOnly

/-- The tokens in front of the last member of a command. -/
def tokensAhead (type id : List Byte) (size : ℤ) : List Token :=
  outerTokens ++ ⟨.object, 10, -1, size⟩ ::
    (memberTokens 11 (ascii "Type") type ++ memberTokens (19 + type.length) (ascii "ID") id)

section

variable {type id : List Byte}

/-- The tokenizer comes to the last member, whatever this is. -/
theorem jsmnParse_ahead (htype : IsWord type) (hid : IsWord id) (key value : List Byte) :
    jsmnParse (cmdContent ⟨type, id, key, value⟩) MAXTOKENSIZE =
      parseFrom MAXTOKENSIZE (member key value [rightBrace, rightBrace])
        (25 + type.length + id.length) ⟨tokensAhead type id 2, 2, 7⟩ := by
  have hlength := cmdContent_length ⟨type, id, key, value⟩
  dsimp only at hlength
  obtain ⟨fuel, hfuel⟩ : ∃ k, (cmdContent ⟨type, id, key, value⟩).length = k + 8 + 3 :=
    ⟨(cmdContent ⟨type, id, key, value⟩).length - 11, by omega⟩
  have hmember : (member key value [rightBrace, rightBrace]).length < fuel := by
    simp only [member, List.length_cons, List.length_append, List.length_nil]
    omega
  rw [jsmnParse_opening _ hfuel, parseLoop_ahead htype hid]
  exact parseLoop_congr hmember (Nat.lt_succ_self _)

theorem pushValue_ahead (t : Token) : pushValue ⟨tokensAhead type id 2, 2, 7⟩ t =
    .ok ⟨tokensAhead type id 3 ++ [t], 2, 8⟩ := by
  have hcount : countInSuper ⟨tokensAhead type id 2, 2, 7⟩ = .ok (tokensAhead type id 3) :=
    countInSuper_at outerTokens _ ⟨.object, 10, -1, 2⟩ 7
  rw [pushValue, hcount, ok_bind]
  rfl

/-- The last key and its colon. -/
theorem parseFrom_valueKey (rest : List Byte) :
    parseFrom MAXTOKENSIZE (member (ascii "Value") rest []) (25 + type.length + id.length)
        ⟨tokensAhead type id 2, 2, 7⟩ =
      parseFrom MAXTOKENSIZE rest (33 + type.length + id.length)
        ⟨tokensAhead type id 3 ++ [⟨.string, 26 + type.length + id.length,
          31 + type.length + id.length, 0⟩], 7, 8⟩ := by
  have hkey : ∀ c ∈ ascii "Value", isPlain c := List.all_eq_true.mp (by decide)
  have hfive : (ascii "Value").length = 5 := by decide
  have hpush : pushValue ⟨tokensAhead type id 2, 2, 7⟩
      ⟨.string, (25 + type.length + id.length : ℕ) + 1,
        (25 + type.length + id.length : ℕ) + 1 + (5 : ℕ), 0⟩ =
      .ok ⟨tokensAhead type id 3 ++ [⟨.string, 26 + type.length + id.length,
        31 + type.length + id.length, 0⟩], 2, 8⟩ := by
    have hstart : ((25 + type.length + id.length : ℕ) : ℤ) + 1 = 26 + type.length + id.length := by
      push_cast
      omega
    have hstop : (26 : ℤ) + type.length + id.length + (5 : ℕ) = 31 + type.length + id.length := by
      push_cast
      omega
    rw [pushValue_ahead, hstart, hstop]
  have hroom : (tokensAhead type id 2).length < MAXTOKENSIZE := by
    change 7 < 128
    decide
  have hlength := stringLength_plain (ascii "Value") (colon :: rest) hkey
  rw [hfive] at hlength
  have hdrop : (ascii "Value" ++ quote :: colon :: rest).drop (5 + 1) = colon :: rest := rfl
  have hpos : 25 + type.length + id.length + 5 + 2 + 1 = 33 + type.length + id.length := by omega
  rw [member, List.append_nil, parseFrom_string hlength hroom hpush, hdrop, parseFrom_colon,
    hpos]
  rfl

end

section

variable {type id : List Byte} {size : ℤ} {behind : List Token}

theorem tokensAhead_append : tokensAhead type id size ++ behind =
    outerTokens ++ ⟨.object, 10, -1, size⟩ :: (memberTokens 11 (ascii "Type") type ++
      memberTokens (19 + type.length) (ascii "ID") id ++ behind) := by
  rw [tokensAhead, List.append_assoc, List.cons_append]

/-- Two braces are open behind the ID. -/
theorem stackOf_ahead (hclosed : ∀ t ∈ behind, t.isOpen = false) :
    stackOf (tokensAhead type id size ++ behind) = [true, true] := by
  rw [tokensAhead_append, stackOf_open rfl]
  · rfl
  · intro t ht
    rcases List.mem_append.mp ht with ht | ht
    · rcases List.mem_append.mp ht with ht | ht <;> exact memberTokens_not_open t ht
    · exact hclosed t ht

theorem ready_ahead (hclosed : ∀ t ∈ behind, t.isOpen = false) {i : ℕ}
    (hi : i < 7 + behind.length) {count : ℤ} (hcount : 0 ≤ count) :
    Ready ⟨tokensAhead type id size ++ behind, i, count⟩ := by
  have hlength : (tokensAhead type id size ++ behind).length = 7 + behind.length :=
    List.length_append
  have hlt : i < (tokensAhead type id size ++ behind).length := by omega
  refine ⟨.inr ⟨i, _, rfl, List.getElem?_eq_getElem hlt⟩, ?_,
    List.ne_nil_of_length_pos (Nat.zero_lt_of_lt hlt), hcount⟩
  intro t ht hopen
  rw [tokensAhead_append] at ht
  simp only [outerTokens, List.mem_append, List.mem_cons, List.not_mem_nil, or_false] at ht
  rcases ht with (rfl | rfl) | rfl | (ht | ht) | ht
  · rfl
  · cases hopen
  · rfl
  · rw [memberTokens_not_open t ht] at hopen
    cases hopen
  · rw [memberTokens_not_open t ht] at hopen
    cases hopen
  · rw [hclosed t ht] at hopen
    cases hopen

end

/-- The searches of the decoder find the type and the ID, and the value is what stands behind the
first `k` tokens. -/
structure Searches (text type id : List Byte) (k : ℕ) (first : Token) (tokens : List Token) :
    Prop where
  command : ∃ t, hitOf text (ascii "IOTCMD") (rangeOf first) tokens = .value t
  type : ∃ t, lookupOf text (ascii "IOTCMD") (ascii "Type") first tokens = .value t ∧
    tokenText text t = type
  id : ∃ t, lookupOf text (ascii "IOTCMD") (ascii "ID") first tokens = .value t ∧
    tokenText text t = id
  value : lookupOf text (ascii "IOTCMD") (ascii "Value") first tokens = .next (tokens.drop k)

theorem drop_of_getElem? {l : List Token} {i : ℕ} {t : Token} (h : l[i]? = some t) :
    l.drop i = t :: l.drop (i + 1) := by
  obtain ⟨hi, rfl⟩ := List.getElem?_eq_some_iff.mp h
  exact List.drop_eq_getElem_cons hi

section

variable {type id : List Byte} {size : ℤ} {behind tokens : List Token} {pos : ℕ}

/-- What the searches find in front of the last member. -/
theorem hits_ahead (key value : List Byte)
    (hgrown : Grown pos (tokensAhead type id size ++ behind) tokens)
    (hclosed : ∀ t ∈ tokens, t.isOpen = false) (hpos : 25 + type.length + id.length ≤ pos) :
    ∃ first others t₂ t₄ t₆, tokens = first :: others ∧ (t₂ : Token).start = 10 ∧
      (pos : ℤ) < t₂.stop ∧
      tokenText (cmdContent ⟨type, id, key, value⟩) t₄ = type ∧
      tokenText (cmdContent ⟨type, id, key, value⟩) t₆ = id ∧
      hitOf (cmdContent ⟨type, id, key, value⟩) (ascii "IOTCMD") (rangeOf first) tokens =
        .value t₂ ∧
      ∀ pattern, type ≠ pattern →
        hitOf (cmdContent ⟨type, id, key, value⟩) pattern (rangeOf t₂) tokens =
          if ascii "Type" = pattern then .value t₄
          else if ascii "ID" = pattern then .value t₆
          else if id = pattern then .next (tokens.drop 7)
          else hitOf (cmdContent ⟨type, id, key, value⟩) pattern (rangeOf t₂)
            (tokens.drop 7) := by
  obtain ⟨t₀, h₀, htype₀, hstart₀, hstop₀⟩ := hgrown.opened (i := 0) rfl rfl hclosed
  obtain ⟨t₁, h₁, htype₁, hstart₁, hstop₁⟩ := hgrown.closed (i := 1) rfl rfl
  obtain ⟨t₂, h₂, htype₂, hstart₂, hstop₂⟩ := hgrown.opened (i := 2) rfl rfl hclosed
  obtain ⟨t₃, h₃, htype₃, hstart₃, hstop₃⟩ := hgrown.closed (i := 3) rfl rfl
  obtain ⟨t₄, h₄, htype₄, hstart₄, hstop₄⟩ := hgrown.closed (i := 4) rfl
    (isOpen_eq_false (by dsimp only; omega))
  obtain ⟨t₅, h₅, htype₅, hstart₅, hstop₅⟩ := hgrown.closed (i := 5) rfl
    (isOpen_eq_false (by dsimp only; omega))
  obtain ⟨t₆, h₆, htype₆, hstart₆, hstop₆⟩ := hgrown.closed (i := 6) rfl
    (isOpen_eq_false (by dsimp only; omega))
  have htokens : tokens = t₀ :: t₁ :: t₂ :: t₃ :: t₄ :: t₅ :: t₆ :: tokens.drop 7 := by
    rw [← drop_of_getElem? h₆, ← drop_of_getElem? h₅, ← drop_of_getElem? h₄,
      ← drop_of_getElem? h₃, ← drop_of_getElem? h₂, ← drop_of_getElem? h₁,
      ← drop_of_getElem? h₀, List.drop_zero]
  have hTypeLength : (ascii "Type").length = 4 := by decide
  have hIDLength : (ascii "ID").length = 2 := by decide
  dsimp only at htype₀ hstart₀ htype₁ hstart₁ hstop₁ htype₂ hstart₂ htype₃ hstart₃ hstop₃
  dsimp only at htype₄ hstart₄ hstop₄ htype₅ hstart₅ hstop₅ htype₆ hstart₆ hstop₆
  rw [hTypeLength] at hstop₃ hstart₄ hstop₄
  rw [hIDLength] at hstop₅ hstart₆ hstop₆
  have htext₁ : tokenText (cmdContent ⟨type, id, key, value⟩) t₁ = ascii "IOTCMD" :=
    tokenText_split (show cmdContent _ = [leftBrace, quote] ++ _ from rfl) hstart₁ hstop₁
  have htext₃ : tokenText (cmdContent ⟨type, id, key, value⟩) t₃ = ascii "Type" := by
    obtain ⟨rest, hsplit⟩ := cmdContent_typeKey ⟨type, id, key, value⟩
    exact tokenText_split hsplit hstart₃ hstop₃
  have htext₄ : tokenText (cmdContent ⟨type, id, key, value⟩) t₄ = type := by
    apply tokenText_split (cmdContent_type ⟨type, id, key, value⟩)
    · rw [hstart₄, frontType_length]
      rfl
    · rw [hstop₄, frontType_length]
      rfl
  have htext₅ : tokenText (cmdContent ⟨type, id, key, value⟩) t₅ = ascii "ID" := by
    obtain ⟨rest, hsplit⟩ := cmdContent_idKey ⟨type, id, key, value⟩
    have hfront : (frontType ++ (type ++ [comma, quote])).length = 20 + type.length := by
      simp only [List.length_append, frontType_length, List.length_cons, List.length_nil]
      omega
    apply tokenText_split hsplit
    · rw [hstart₅, hfront]
      omega
    · rw [hstop₅, hfront, hIDLength]
      omega
  have htext₆ : tokenText (cmdContent ⟨type, id, key, value⟩) t₆ = id := by
    apply tokenText_split (cmdContent_id ⟨type, id, key, value⟩)
    · rw [hstart₆, frontId_length]
      dsimp only
      omega
    · rw [hstop₆, frontId_length]
      dsimp only
      omega
  have hrange₀ : rangeOf t₀ = ⟨0, t₀.stop⟩ := by rw [rangeOf, hstart₀]
  have hrange₂ : rangeOf t₂ = ⟨10, t₂.stop⟩ := by rw [rangeOf, hstart₂]
  refine ⟨t₀, _, t₂, t₄, t₆, htokens, hstart₂, hstop₂, htext₄, htext₆, ?_, ?_⟩
  · rw [htokens, hrange₀, hitOf_skip (.inr (.inl htype₀)),
      hitOf_key (by dsimp only; omega) (by dsimp only; omega) (.inl htype₁) htext₁]
    rfl
  intro pattern htypeText
  generalize hrest : tokens.drop 7 = rest at htokens ⊢
  rw [htokens, hrange₂, hitOf_skip (.inl (by dsimp only; omega)),
    hitOf_skip (.inl (by dsimp only; omega)), hitOf_skip (.inr (.inl htype₂))]
  by_cases hType : ascii "Type" = pattern
  · rw [if_pos hType, hitOf_key (by dsimp only; omega) (by dsimp only; omega) (.inl htype₃)
      (htext₃.trans hType)]
    rfl
  rw [if_neg hType, hitOf_skip (.inr (.inr ⟨.inl htype₃, by rw [htext₃]; exact hType⟩)),
    hitOf_skip (.inr (.inr ⟨.inr htype₄, by rw [htext₄]; exact htypeText⟩))]
  by_cases hID : ascii "ID" = pattern
  · rw [if_pos hID, hitOf_key (by dsimp only; omega) (by dsimp only; omega) (.inl htype₅)
      (htext₅.trans hID)]
    rfl
  rw [if_neg hID, hitOf_skip (.inr (.inr ⟨.inl htype₅, by rw [htext₅]; exact hID⟩))]
  by_cases hid : id = pattern
  · rw [if_pos hid, hitOf_key (by dsimp only; omega) (by dsimp only; omega) (.inr htype₆)
      (htext₆.trans hid)]
  · rw [if_neg hid, hitOf_skip (.inr (.inr ⟨.inr htype₆, by rw [htext₆]; exact hid⟩))]

/-- The value is looked up behind an ID that is spelled like its key, and else behind the key. -/
theorem searches_ahead (key value : List Byte)
    (hgrown : Grown pos (tokensAhead type id size ++ behind) tokens)
    (hclosed : ∀ t ∈ tokens, t.isOpen = false) (hpos : 25 + type.length + id.length ≤ pos)
    (htype : IsTypeText type) {k : ℕ}
    (hkey : id = ascii "Value" ∧ k = 7 ∨ id ≠ ascii "Value" ∧ k = 8 ∧ ∃ t, tokens[7]? = some t ∧
      t.type = .string ∧ 10 ≤ t.start ∧ t.stop ≤ (pos : ℤ) ∧
      tokenText (cmdContent ⟨type, id, key, value⟩) t = ascii "Value") :
    ∃ first others, tokens = first :: others ∧
      Searches (cmdContent ⟨type, id, key, value⟩) type id k first tokens := by
  obtain ⟨first, others, t₂, t₄, t₆, htokens, hstart, hstop, htext₄, htext₆, hcommand, hhits⟩ :=
    hits_ahead key value hgrown hclosed hpos
  have hlookup : ∀ pattern, lookupOf (cmdContent ⟨type, id, key, value⟩) (ascii "IOTCMD") pattern
      first tokens = hitOf (cmdContent ⟨type, id, key, value⟩) pattern (rangeOf t₂) tokens := by
    intro pattern
    simp only [lookupOf, hcommand]
  have hname : type ≠ ascii "Type" := by
    intro heq
    have hthree := htype.length
    rw [heq] at hthree
    exact absurd hthree (by decide)
  refine ⟨first, others, htokens, ⟨t₂, hcommand⟩, ⟨t₄, ?_, htext₄⟩, ⟨t₆, ?_, htext₆⟩, ?_⟩
  · rw [hlookup, hhits _ hname, if_pos rfl]
  · rw [hlookup, hhits _ htype.ne_id, if_neg (by decide), if_pos rfl]
  · rw [hlookup, hhits _ htype.ne_value, if_neg (by decide), if_neg (by decide)]
    rcases hkey with ⟨hid, rfl⟩ | ⟨hid, rfl, t₇, ht₇, hstring, hstart₇, hstop₇, htext₇⟩
    · rw [if_pos hid]
    · have hrange : rangeOf t₂ = ⟨10, t₂.stop⟩ := by rw [rangeOf, hstart]
      rw [if_neg hid, drop_of_getElem? ht₇, hrange,
        hitOf_key hstart₇ (by dsimp only; omega) (.inl hstring) htext₇]

end

section

variable {text type id : List Byte} {k : ℕ} {n : ℤ} {first v : Token} {others : List Token}

/-- What the decoder does once the text is tokenized. -/
theorem decodeIotCmd_shows (hnul : (0 : Byte) ∉ text) (hroom : text.length < MAXCONTENTSIZE)
    {tokens : List Token} (hparse : jsmnParse text MAXTOKENSIZE = .ok (n, tokens))
    (object : JsonObject) (rest : List Byte) (cmd₀ : IoTCommand) :
    ∃ d, Shows d text tokens ∧ d.tokenSize = n ∧
      d.tokens = tokens ++ object.data.tokens.drop tokens.length ∧
      decodeIotCmd object.data (text ++ 0 :: rest) cmd₀ = (do
        let type ← commandValue d (ascii "Type")
        let idText ← commandValue d (ascii "ID")
        let ID ← CharArray.ofText COMMAND_CHAR_SIZE idText
        let valueText ← commandValue d (ascii "Value")
        let Value ← CharArray.ofText COMMAND_CHAR_SIZE valueText
        .ok ⟨typeOfText type cmd₀.cmdType, ID, Value⟩) := by
  have hlength := object.contentRoom
  have hcopy := strcpy_eq object.data.content text rest hnul (by omega)
  have hcopied : (text ++ 0 :: object.data.content.drop (text.length + 1)).length =
      MAXCONTENTSIZE := by
    simp only [List.length_append, List.length_cons, List.length_drop]
    omega
  obtain ⟨d, hinit, hd, hn, htokens⟩ :=
    initToken_shows (d := object.data) hnul rfl hcopied object.tokenRoom hparse
  refine ⟨d, hd, hn, htokens, ?_⟩
  rw [decodeIotCmd, hcopy, ok_bind, hinit, ok_bind]

/-- A value behind the key that fits leaves the type and the ID as they are. -/
theorem Searches.decode (hsearch : Searches text type id k first (first :: others))
    (hnul : (0 : Byte) ∉ text) (hroom : text.length < MAXCONTENTSIZE)
    (hparse : jsmnParse text MAXTOKENSIZE = .ok (n, first :: others)) (hn : 0 ≤ n)
    (htype : type.length < maxValueSize) (hid : id.length < COMMAND_CHAR_SIZE)
    (hv : (first :: others)[k]? = some v) (hvalue : (tokenText text v).length < COMMAND_CHAR_SIZE)
    (object : JsonObject) (rest : List Byte) (cmd₀ : IoTCommand) :
    ∃ r, decodeIotCmd object.data (text ++ 0 :: rest) cmd₀ = .ok r ∧
      r.cmdType = typeOfText type cmd₀.cmdType ∧ r.ID.text = .ok id := by
  obtain ⟨d, hd, rfl, -, hdecode⟩ := decodeIotCmd_shows hnul hroom hparse object rest cmd₀
  obtain ⟨-, ⟨t, ht, htext⟩, ⟨t', ht', htext'⟩, hnext⟩ := hsearch
  rw [drop_of_getElem? hv] at hnext
  have hall : searched d.tokenSize (first :: others) = first :: others := by
    rw [searched, (hd.tokenized.count hn).1, Int.toNat_natCast, List.take_length]
  have hvalues : ∀ {key u}, lookupOf text (ascii "IOTCMD") key first (first :: others) =
      .value u → (tokenText text u).length < maxValueSize →
        commandValue d key = .ok (tokenText text u) := by
    intro key u hlookup hfits
    have hfound : (lookupOf text (ascii "IOTCMD") key first
        (searched d.tokenSize (first :: others))).Fits text maxValueSize := by
      rw [hall, hlookup]
      exact hfits
    rw [commandValue_eq hd hfound, commandText, hall, hlookup]
    rfl
  have hmax : COMMAND_CHAR_SIZE ≤ maxValueSize := by decide
  have htypeRead := hvalues ht (by rw [htext]; exact htype)
  have hidRead := hvalues ht' (by rw [htext']; omega)
  have hvalueRead := hvalues hnext (by omega)
  obtain ⟨ID, hID⟩ := CharArray.exists_ofText COMMAND_CHAR_SIZE id hid
  obtain ⟨Value, hValue⟩ := CharArray.exists_ofText COMMAND_CHAR_SIZE _ hvalue
  refine ⟨⟨typeOfText type cmd₀.cmdType, ID, Value⟩, ?_, rfl, CharArray.ofText_text hID ?_⟩
  · rw [hdecode, htypeRead, ok_bind, hidRead, ok_bind, htext', hID, ok_bind, hvalueRead, ok_bind,
      hValue, ok_bind, htext]
  · rw [← htext']
    exact tokenText_noNul hnul

/-- A decoder that came to its end had an outcome of the tokenizer. -/
theorem exists_parse (hnul : (0 : Byte) ∉ text) (hroom : text.length < MAXCONTENTSIZE)
    {object : JsonObject} {rest : List Byte} {cmd₀ r : IoTCommand}
    (h : decodeIotCmd object.data (text ++ 0 :: rest) cmd₀ = .ok r) :
    ∃ n tokens, jsmnParse text MAXTOKENSIZE = .ok (n, tokens) := by
  have hlength := object.contentRoom
  have hcopy := strcpy_eq object.data.content text rest hnul (by omega)
  rw [decodeIotCmd, hcopy, ok_bind, initToken, cString_append 0 text _ hnul, ok_bind] at h
  obtain ⟨d, hparse, -⟩ := bind_eq_ok.mp h
  obtain ⟨⟨n, tokens⟩, hparse, -⟩ := bind_eq_ok.mp hparse
  exact ⟨n, tokens, hparse⟩

/-- Where the text is not accepted, no ID is read. -/
theorem nonneg_of_id (hnul : (0 : Byte) ∉ text) (hroom : text.length < MAXCONTENTSIZE)
    {tokens : List Token} (hparse : jsmnParse text MAXTOKENSIZE = .ok (n, tokens))
    {object : JsonObject} {rest : List Byte} {cmd₀ r : IoTCommand}
    (h : decodeIotCmd object.data (text ++ 0 :: rest) cmd₀ = .ok r) (hid : r.ID.text = .ok id)
    (hne : id ≠ []) : 0 ≤ n := by
  obtain ⟨d, hd, rfl, -, hdecode⟩ := decodeIotCmd_shows hnul hroom hparse object rest cmd₀
  rw [hdecode] at h
  obtain ⟨type, -, h⟩ := bind_eq_ok.mp h
  obtain ⟨idText, hidText, h⟩ := bind_eq_ok.mp h
  obtain ⟨ID, hID, h⟩ := bind_eq_ok.mp h
  obtain ⟨valueText, -, h⟩ := bind_eq_ok.mp h
  obtain ⟨Value, -, h⟩ := bind_eq_ok.mp h
  obtain rfl := Except.ok.inj h
  by_contra hneg
  have hsearch : ∀ pattern range result, searchJsonDataInRange pattern range d result =
      .ok ⟨-1, range, result⟩ := by
    intro pattern range result
    rw [searchJsonDataInRange, Int.toNat_of_nonpos (by omega)]
    rfl
  obtain ⟨value, hvalue, hread⟩ := bind_eq_ok.mp hidText
  obtain ⟨range, -, hvalue⟩ := bind_eq_ok.mp hvalue
  simp only [findValue, hsearch, ok_bind, Option.getD_some] at hvalue
  obtain rfl := Except.ok.inj hvalue
  have hempty : cString 0 (List.replicate maxValueSize (0 : Byte)) = .ok [] := rfl
  rw [hempty] at hread
  obtain rfl := Except.ok.inj hread
  have hblank := CharArray.ofText_text hID List.not_mem_nil
  dsimp only at hid
  rw [hblank] at hid
  exact hne (Except.ok.inj hid).symm

/-- Nor is one read where no token stands behind the last key and the arrays hold other things. -/
theorem Searches.exists_value (hsearch : Searches text type id k first (first :: others))
    (hnul : (0 : Byte) ∉ text) (hroom : text.length < MAXCONTENTSIZE)
    (hparse : jsmnParse text MAXTOKENSIZE = .ok (n, first :: others)) (hn : 0 ≤ n)
    {rest : List Byte} {cmd₀ r : IoTCommand}
    (h : decodeIotCmd farObject.data (text ++ 0 :: rest) cmd₀ = .ok r) :
    k < (first :: others).length := by
  obtain ⟨d, hd, rfl, htokens, hdecode⟩ :=
    decodeIotCmd_shows hnul hroom hparse farObject rest cmd₀
  rw [hdecode] at h
  obtain ⟨type, -, h⟩ := bind_eq_ok.mp h
  obtain ⟨idText, -, h⟩ := bind_eq_ok.mp h
  obtain ⟨ID, -, h⟩ := bind_eq_ok.mp h
  obtain ⟨valueText, hvalue, -⟩ := bind_eq_ok.mp h
  have hall : searched d.tokenSize (first :: others) = first :: others := by
    rw [searched, (hd.tokenized.count hn).1, Int.toNat_natCast, List.take_length]
  obtain ⟨t, hcommand⟩ := hsearch.command
  have hinside : hitOf text (ascii "IOTCMD") (rangeOf first)
      (searched d.tokenSize (first :: others)) ≠ .behind := by
    rw [hall, hcommand]
    simp
  have hfits := (commandValue_far hd (farBehind_of_farObject htokens) farIndex_Value hinside
    hvalue).1
  by_contra hlast
  rw [hall, hsearch.value, List.drop_eq_nil_of_le (by omega)] at hfits
  exact hfits

end

section

variable {type id value : List Byte} {n : ℤ} {tokens : List Token}

/-- Behind an ID that is spelled like the key the value is read as a quoted text. -/
theorem accepted_key_iff (htype : IsWord type) (hid : IsWord id) (hnul : (0 : Byte) ∉ value)
    (hroom : value.length ≤ 9) :
    (∃ n tokens, 0 ≤ n ∧ jsmnParse (cmdContent ⟨type, id, value, ascii "0"⟩) MAXTOKENSIZE =
        .ok (n, tokens)) ↔
      Finishes ⟨[true, true], false, .quoted⟩
        (value ++ quote :: colon :: (ascii "0" ++ [rightBrace, rightBrace])) := by
  have hready : Ready ⟨tokensAhead type id 2 ++ [], 2, 7⟩ :=
    ready_ahead (i := 2) (by simp) (by simp) (by decide)
  rw [List.append_nil] at hready
  have hstate : stateOf ⟨tokensAhead type id 2, 2, 7⟩ = ⟨[true, true], false, .between⟩ := by
    have hstack : stackOf (tokensAhead type id 2 ++ []) = [true, true] := stackOf_ahead (by simp)
    rw [List.append_nil] at hstack
    simp only [stateOf, hstack]
    rfl
  have hnul' : (0 : Byte) ∉ member value (ascii "0") [rightBrace, rightBrace] := by
    simp only [member, List.mem_cons, List.mem_append, hnul, false_or]
    decide
  rw [jsmnParse_ahead htype hid, hready.accepted_iff hnul' (by
    have hlength : (tokensAhead type id 2).length = 7 := rfl
    have hzero : (ascii "0").length = 1 := by decide
    have hmax : MAXTOKENSIZE = 128 := rfl
    simp only [member, List.length_cons, List.length_append, List.length_nil]
    omega), hstate]
  exact finishes_step rfl

theorem jsmnParse_value (htype : IsWord type) (hid : IsWord id) (value : List Byte) :
    jsmnParse (cmdContent ⟨type, id, ascii "Value", value⟩) MAXTOKENSIZE =
      parseFrom MAXTOKENSIZE (value ++ [rightBrace, rightBrace]) (33 + type.length + id.length)
        ⟨tokensAhead type id 3 ++ [⟨.string, 26 + type.length + id.length,
          31 + type.length + id.length, 0⟩], 7, 8⟩ := by
  have hmember : member (ascii "Value") value [rightBrace, rightBrace] =
      member (ascii "Value") (value ++ [rightBrace, rightBrace]) [] := by
    simp [member]
  rw [jsmnParse_ahead htype hid, hmember, parseFrom_valueKey]

theorem ready_value : Ready ⟨tokensAhead type id 3 ++ [⟨.string, 26 + type.length + id.length,
    31 + type.length + id.length, 0⟩], 7, 8⟩ := by
  refine ready_ahead (i := 7) ?_ (by simp) (by decide)
  intro t ht
  obtain rfl := List.mem_singleton.mp ht
  exact isOpen_eq_false (by dsimp only; omega)

theorem stackOf_value : stackOf (tokensAhead type id 3 ++ [⟨.string, 26 + type.length + id.length,
    31 + type.length + id.length, 0⟩]) = [true, true] := by
  apply stackOf_ahead
  intro t ht
  obtain rfl := List.mem_singleton.mp ht
  exact isOpen_eq_false (by dsimp only; omega)

theorem braces_noNul (hnul : (0 : Byte) ∉ value) :
    (0 : Byte) ∉ value ++ [rightBrace, rightBrace] := by
  rw [List.mem_append, not_or]
  exact ⟨hnul, by decide⟩

/-- Else it is read as it is. -/
theorem accepted_value_iff (htype : IsWord type) (hid : IsWord id) (hnul : (0 : Byte) ∉ value)
    (hroom : value.length ≤ 9) :
    (∃ n tokens, 0 ≤ n ∧ jsmnParse (cmdContent ⟨type, id, ascii "Value", value⟩) MAXTOKENSIZE =
        .ok (n, tokens)) ↔
      Finishes ⟨[true, true], false, .between⟩ (value ++ [rightBrace, rightBrace]) := by
  have hlength : (tokensAhead type id 3 ++ [(⟨.string, 26 + type.length + id.length,
      31 + type.length + id.length, 0⟩ : Token)]).length +
        (value ++ [rightBrace, rightBrace]).length ≤ MAXTOKENSIZE := by
    have height : (tokensAhead type id 3 ++ [(⟨.string, 26 + type.length + id.length,
        31 + type.length + id.length, 0⟩ : Token)]).length = 8 := rfl
    have hmax : MAXTOKENSIZE = 128 := rfl
    simp only [height, List.length_append, List.length_cons, List.length_nil]
    omega
  rw [jsmnParse_value htype hid, ready_value.accepted_iff (braces_noNul hnul) hlength, stateOf,
    stackOf_value]
  exact Iff.rfl

/-- A quoted value begins with a token that is not longer. -/
theorem token_key (htype : IsTypeText type) (hid : IsWord id) (hcase : id = ascii "Value")
    (hnul : (0 : Byte) ∉ value)
    (hparse : jsmnParse (cmdContent ⟨type, id, value, ascii "0"⟩) MAXTOKENSIZE = .ok (n, tokens))
    (hn : 0 ≤ n)
    (hfinishes : Finishes ⟨[true, true], false, .quoted⟩
      (value ++ quote :: colon :: (ascii "0" ++ [rightBrace, rightBrace]))) :
    ∃ first others v, tokens = first :: others ∧
      Searches (cmdContent ⟨type, id, value, ascii "0"⟩) type id 7 first tokens ∧
      tokens[7]? = some v ∧ v.stop - v.start ≤ (value.length : ℤ) := by
  rw [jsmnParse_ahead htype.word hid] at hparse
  have hnul' : (0 : Byte) ∉ value ++ quote :: colon :: (ascii "0" ++ [rightBrace, rightBrace]) := by
    simp only [List.mem_append, List.mem_cons, hnul, false_or]
    decide
  obtain ⟨m, hm⟩ : ∃ m, stringLength
      (value ++ quote :: colon :: (ascii "0" ++ [rightBrace, rightBrace])) = some m := by
    rw [← Option.ne_none_iff_exists']
    exact fun hnone => not_finishes_string hnone hnul' hfinishes
  -- the quote that ends the text is in the value or right behind it
  have hshort : m ≤ value.length := by
    by_contra hlong
    obtain ⟨k, rfl⟩ : ∃ k, m = value.length + (k + 1) := ⟨m - value.length - 1, by omega⟩
    have hquote := stringLength_quote hm
    rw [List.getElem?_append_right (by omega), Nat.add_sub_cancel_left,
      List.getElem?_cons_succ] at hquote
    have hmem := List.mem_of_getElem? hquote
    exact absurd hmem (by decide)
  have hround : Round MAXTOKENSIZE (member value (ascii "0") [rightBrace, rightBrace])
      (25 + type.length + id.length) ⟨tokensAhead type id 2, 2, 7⟩ _ _ _ :=
    .string hm (by change 7 < 128; decide) (pushValue_ahead _)
  rw [hround.parseFrom_eq] at hparse
  obtain ⟨hgrown, hclosed⟩ := parseFrom_grown hparse hn
  obtain ⟨v, hv, -, hstart, hstop⟩ := hgrown.closed (i := 7) rfl
    (isOpen_eq_false (by dsimp only; omega))
  obtain ⟨first, others, htokens, hsearches⟩ := searches_ahead value (ascii "0") hgrown
    hclosed (by omega) htype (.inl ⟨hcase, rfl⟩)
  dsimp only at hstart hstop
  exact ⟨first, others, v, htokens, hsearches, hv, by omega⟩

/-- The tokens of the others come behind the key. -/
theorem tokens_value (htype : IsTypeText type) (hid : IsWord id) (hcase : id ≠ ascii "Value")
    (hparse : jsmnParse (cmdContent ⟨type, id, ascii "Value", value⟩) MAXTOKENSIZE =
      .ok (n, tokens)) (hn : 0 ≤ n) :
    ∃ first others, tokens = first :: others ∧
      Searches (cmdContent ⟨type, id, ascii "Value", value⟩) type id 8 first tokens := by
  rw [jsmnParse_value htype.word hid] at hparse
  obtain ⟨hgrown, hclosed⟩ := parseFrom_grown hparse hn
  obtain ⟨v, hv, hstring, hstart, hstop⟩ := hgrown.closed (i := 7) rfl
    (isOpen_eq_false (by dsimp only; omega))
  dsimp only at hstring hstart hstop
  have hkey : tokenText (cmdContent ⟨type, id, ascii "Value", value⟩) v = ascii "Value" := by
    have hfive : (ascii "Value").length = 5 := by decide
    apply tokenText_split (cmdContent_key ⟨type, id, ascii "Value", value⟩)
    · rw [hstart, frontKey_length]
      dsimp only
      omega
    · rw [hstop, frontKey_length]
      dsimp only
      omega
  exact searches_ahead _ _ hgrown hclosed (by omega) htype
    (.inr ⟨hcase, rfl, v, hv, hstring, by omega, by omega, hkey⟩)

end

/-- Whether a value leaves the type and the ID of its command as they are. -/
def Harmless (id value : List Byte) : Prop :=
  if id = ascii "Value" then
    Finishes ⟨[true, true], false, .quoted⟩
      (value ++ quote :: colon :: (ascii "0" ++ [rightBrace, rightBrace]))
  else
    Finishes ⟨[true, true], false, .between⟩ (value ++ [rightBrace, rightBrace]) ∧
      ∃ c ∈ value, isGap c = false

instance (id value : List Byte) : Decidable (Harmless id value) :=
  inferInstanceAs (Decidable (ite _ _ _))

section

variable {type id value : List Byte}

theorem cmdTexts_short (id value : List Byte) (htype : IsTypeText type) (hidRoom : id.length ≤ 9)
    (hvalueRoom : value.length ≤ 9) :
    (cmdContent (cmdTexts type id value)).length ≤ 56 := by
  have hlength := htype.length
  rw [cmdTexts_length]
  split <;> omega

/-- The document of a harmless value is accepted, with a short token where the value is looked
up. -/
theorem Harmless.accepted (h : Harmless id value) (htype : IsTypeText type) (hid : IsWord id)
    (hnul : (0 : Byte) ∉ value) (hroom : value.length ≤ 9) :
    ∃ n first others k v, 0 ≤ n ∧
      jsmnParse (cmdContent (cmdTexts type id value)) MAXTOKENSIZE = .ok (n, first :: others) ∧
      Searches (cmdContent (cmdTexts type id value)) type id k first (first :: others) ∧
      (first :: others)[k]? = some v ∧ v.stop - v.start ≤ (value.length : ℤ) := by
  unfold Harmless at h
  unfold cmdTexts
  split at h
  · rename_i hcase
    rw [if_pos hcase]
    obtain ⟨n, tokens, hn, hparse⟩ := (accepted_key_iff htype.word hid hnul hroom).mpr h
    obtain ⟨first, others, v, rfl, hsearches, hv, hlength⟩ :=
      token_key htype hid hcase hnul hparse hn h
    exact ⟨n, first, others, 7, v, hn, hparse, hsearches, hv, hlength⟩
  · rename_i hcase
    rw [if_neg hcase]
    obtain ⟨hfinishes, c, hc, hgap⟩ := h
    obtain ⟨n, tokens, hn, hparse⟩ := (accepted_value_iff htype.word hid hnul hroom).mpr hfinishes
    obtain ⟨first, others, rfl, hsearches⟩ := tokens_value htype hid hcase hparse hn
    have hrest := hparse
    rw [jsmnParse_value htype.word hid] at hrest
    obtain ⟨v, hv, -, hlength⟩ := ready_value.next_token (braces_noNul hnul)
      ⟨c, List.mem_append_left _ hc, hgap⟩ hrest hn
    rw [stackOf_value] at hlength
    simp only [List.length_append, List.length_cons, List.length_nil] at hlength
    exact ⟨n, first, others, 8, v, hn, hparse, hsearches, hv, by omega⟩

/-- An accepted document with a token where the value is looked up has a harmless value. -/
theorem harmless_of_accepted (htype : IsTypeText type) (hid : IsWord id) (hnul : (0 : Byte) ∉ value)
    (hroom : value.length ≤ 9) {n : ℤ} {tokens : List Token} (hn : 0 ≤ n)
    (hparse : jsmnParse (cmdContent (cmdTexts type id value)) MAXTOKENSIZE = .ok (n, tokens))
    (hlast : ∀ k first others, tokens = first :: others →
      Searches (cmdContent (cmdTexts type id value)) type id k first (first :: others) →
        k < tokens.length) : Harmless id value := by
  unfold Harmless
  unfold cmdTexts at hparse hlast
  split
  · rename_i hcase
    rw [if_pos hcase] at hparse
    exact (accepted_key_iff htype.word hid hnul hroom).mp ⟨n, tokens, hn, hparse⟩
  · rename_i hcase
    rw [if_neg hcase] at hparse hlast
    refine ⟨(accepted_value_iff htype.word hid hnul hroom).mp ⟨n, tokens, hn, hparse⟩, ?_⟩
    obtain ⟨first, others, htokens, hsearches⟩ := tokens_value htype hid hcase hparse hn
    by_contra hno
    have hgaps : ∀ c ∈ value ++ [rightBrace, rightBrace], isGap c := by
      intro c hc
      rcases List.mem_append.mp hc with hc | hc
      · by_contra hgap
        exact hno ⟨c, hc, Bool.eq_false_iff.mpr hgap⟩
      · simp only [List.mem_cons, List.not_mem_nil, or_false, or_self] at hc
        rw [hc]
        rfl
    rw [jsmnParse_value htype.word hid] at hparse
    have height := no_token hgaps hparse hn
    have hlong := hlast 8 first others htokens (htokens ▸ hsearches)
    rw [height] at hlong
    exact absurd hlong (lt_irrefl 8)

/-- Decoding the text gives the type and the ID back if the value is harmless. -/
theorem Harmless.decode (h : Harmless id value) (htype : IsTypeText type) (hid : IsWord id)
    (hidRoom : id.length ≤ 9) (hnul : (0 : Byte) ∉ value) (hroom : value.length ≤ 9)
    (object : JsonObject) (rest : List Byte) (cmd₀ : IoTCommand) :
    ∃ r, decodeIotCmd object.data (cmdContent (cmdTexts type id value) ++ 0 :: rest) cmd₀ = .ok r ∧
      r.cmdType = typeOfText type cmd₀.cmdType ∧ r.ID.text = .ok id := by
  have hshort := cmdTexts_short id value htype hidRoom hroom
  have hmax : MAXCONTENTSIZE = 1024 := rfl
  have hten : COMMAND_CHAR_SIZE = 10 := rfl
  obtain ⟨n, first, others, k, v, hn, hparse, hsearches, hv, hlength⟩ :=
    h.accepted htype hid hnul hroom
  have hthree := htype.length
  have htypeRoom : type.length < maxValueSize := by
    rw [hthree]
    decide
  have hvalue : (tokenText (cmdContent (cmdTexts type id value)) v).length < COMMAND_CHAR_SIZE := by
    have hle : (tokenText (cmdContent (cmdTexts type id value)) v).length ≤
        (v.stop - v.start).toNat := List.length_take_le _ _
    omega
  exact hsearches.decode (cmdTexts_noNul htype hid hnul) (by omega) hparse hn htypeRoom (by omega)
    hv hvalue object rest cmd₀

/-- The condition is needed where the arrays hold other things. -/
theorem harmless_of_far (htype : IsTypeText type) (hid : IsWord id) (hidRoom : id.length ≤ 9)
    (hnul : (0 : Byte) ∉ value) (hroom : value.length ≤ 9) {rest : List Byte}
    {cmd₀ r : IoTCommand}
    (h : decodeIotCmd farObject.data (cmdContent (cmdTexts type id value) ++ 0 :: rest) cmd₀ =
      .ok r) (hread : r.ID.text = .ok id) : Harmless id value := by
  have hshort := cmdTexts_short id value htype hidRoom hroom
  have htext := cmdTexts_noNul htype hid hnul
  have hlength : (cmdContent (cmdTexts type id value)).length < MAXCONTENTSIZE :=
    lt_of_le_of_lt hshort (by decide)
  obtain ⟨n, tokens, hparse⟩ := exists_parse htext hlength h
  have hn := nonneg_of_id htext hlength hparse h hread hid.ne_nil
  apply harmless_of_accepted htype hid hnul hroom hn hparse
  rintro k first others rfl hsearches
  exact hsearches.exists_value htext hlength hparse hn h

end

/-- What the two calls find in their arrays, and a buffer with room for every command. -/
structure Memory where
  encoder : JsonObject
  decoder : JsonObject
  buffer : List Byte
  room : 56 < buffer.length
  beyond : List Byte
  cmd : IoTCommand

/-- The command that is decoded from what was encoded. -/
def Decodes (m : Memory) (cmd r : IoTCommand) : Prop :=
  ∃ buffer n, encodeIotCmd m.encoder.data m.buffer cmd m.beyond = .ok (buffer, n) ∧
    decodeIotCmd m.decoder.data buffer m.cmd = .ok r

/-- Two commands of one type and ID are decoded to this type and this ID. -/
def SameCommand (cmd cmd' : IoTCommand) : Prop :=
  ∀ m m' : Memory, ∃ r r', Decodes m cmd r ∧ Decodes m' cmd' r' ∧ r.cmdType = r'.cmdType ∧
    r.ID.text = r'.ID.text ∧ r.cmdType = cmd.cmdType ∧ r.ID.text = cmd.ID.text

section

variable {cmd cmd' : IoTCommand} {type id value value' : List Byte}

/-- The buffer holds the document with the bytes of the value in it. -/
theorem exists_encoded (htype : typeText cmd.cmdType = some type) (hid : cmd.ID.text = .ok id)
    (hidWord : IsWord id) (hvalue : cmd.Value.text = .ok value) (m : Memory) :
    ∃ rest, ∀ r, Decodes m cmd r ↔ decodeIotCmd m.decoder.data
      (cmdContent (cmdTexts type id value) ++ 0 :: rest) m.cmd = .ok r := by
  obtain ⟨hidNul, hidLen, idRest, hidBytes⟩ := CharArray.text_eq_ok hid
  obtain ⟨hvalueNul, hvalueLen, vrest, hvalueBytes⟩ := CharArray.text_eq_ok hvalue
  have hten : COMMAND_CHAR_SIZE = 10 := rfl
  have hmax : MAXCONTENTSIZE = 1024 := rfl
  have hword := typeText_isTypeText htype
  have hshort := cmdTexts_short id value hword (by omega) (by omega)
  have hnul := cmdTexts_noNul hword hidWord hvalueNul
  have hbuffer := m.room
  obtain ⟨d, hd, hencode⟩ := encodeIotCmd_front m.encoder.contentRoom m.encoder.tokenRoom htype
    hidBytes hidWord (by omega) m.buffer m.beyond
  obtain ⟨d', rest, hset, hcontent, -⟩ := set_value_bytes hword hd hidWord hvalueNul
    (lt_of_le_of_lt hshort (by decide)) (vrest ++ m.beyond)
  have hcopy := strcpy_eq m.buffer (cmdContent (cmdTexts type id value)) rest hnul (by omega)
  rw [hvalueBytes, List.append_assoc, List.cons_append, hset, ok_bind, hcontent, hcopy,
    ok_bind] at hencode
  refine ⟨m.buffer.drop ((cmdContent (cmdTexts type id value)).length + 1), fun r => ?_⟩
  constructor
  · rintro ⟨buffer, n, hbuffer, hdecode⟩
    rw [hencode] at hbuffer
    obtain ⟨rfl, -⟩ := Prod.mk.inj (Except.ok.inj hbuffer)
    exact hdecode
  · exact fun hdecode => ⟨_, _, hencode, hdecode⟩

end

/-- Arrays in which every look behind the tokens ends in a fault. -/
def farMemory : Memory where
  encoder := farObject
  decoder := farObject
  buffer := List.replicate 57 0
  room := by decide
  beyond := []
  cmd := generateIotCommand

/-- A command's type and ID are decoded whatever the value is replaced by, exactly for pairs of
harmless values. -/
theorem sameCommand_iff {cmd cmd' : IoTCommand} {id value value' : List Byte}
    (htype : cmd.cmdType ≠ .none) (hsame : cmd'.cmdType = cmd.cmdType)
    (hid : cmd.ID.text = .ok id) (hid' : cmd'.ID.text = .ok id) (hidText : IsFieldText id)
    (hvalue : cmd.Value.text = .ok value) (hvalue' : cmd'.Value.text = .ok value') :
    SameCommand cmd cmd' ↔ Harmless id value ∧ Harmless id value' := by
  obtain ⟨type, hname⟩ : ∃ type, typeText cmd.cmdType = some type := by
    cases hcase : cmd.cmdType with
    | none => exact absurd hcase htype
    | readRequest | readResponse | write | management => exact ⟨_, rfl⟩
  have hname' : typeText cmd'.cmdType = some type := by rw [hsame, hname]
  have hword := typeText_isTypeText hname
  have hten : COMMAND_CHAR_SIZE = 10 := rfl
  obtain ⟨-, hidLen, -⟩ := CharArray.text_eq_ok hid
  obtain ⟨hnul, hlen, -⟩ := CharArray.text_eq_ok hvalue
  obtain ⟨hnul', hlen', -⟩ := CharArray.text_eq_ok hvalue'
  constructor
  · intro h
    obtain ⟨r, r', hr, hr', -, hids, -, hread⟩ := h farMemory farMemory
    obtain ⟨rest, hrest⟩ := exists_encoded hname hid hidText.isWord hvalue farMemory
    obtain ⟨rest', hrest'⟩ := exists_encoded hname' hid' hidText.isWord hvalue' farMemory
    rw [hid] at hread
    exact ⟨harmless_of_far hword hidText.isWord (by omega) hnul (by omega) ((hrest r).mp hr) hread,
      harmless_of_far hword hidText.isWord (by omega) hnul' (by omega) ((hrest' r').mp hr')
        (hids.symm.trans hread)⟩
  · rintro ⟨hharmless, hharmless'⟩ m m'
    obtain ⟨rest, hrest⟩ := exists_encoded hname hid hidText.isWord hvalue m
    obtain ⟨rest', hrest'⟩ := exists_encoded hname' hid' hidText.isWord hvalue' m'
    obtain ⟨r, hr, hrType, hrID⟩ := hharmless.decode hword hidText.isWord (by omega) hnul
      (by omega) m.decoder rest m.cmd
    obtain ⟨r', hr', hrType', hrID'⟩ := hharmless'.decode hword hidText.isWord (by omega) hnul'
      (by omega) m'.decoder rest' m'.cmd
    rw [typeOfText_typeText hname] at hrType
    rw [typeOfText_typeText hname'] at hrType'
    refine ⟨r, r', (hrest r).mpr hr, (hrest' r').mpr hr', ?_, ?_, hrType, ?_⟩
    · rw [hrType, hrType', hsame]
    · rw [hrID, hrID']
    · rw [hrID, hid]

/-- A device's answer. -/
def answer (value : List Byte) (h : value.length ≤ 9) : IoTCommand where
  cmdType := .readResponse
  ID := ⟨ascii "T1" ++ List.replicate 8 0, by decide⟩
  Value := ⟨value ++ List.replicate (10 - value.length) 0, by
    rw [List.length_append, List.length_replicate]
    change value.length + (10 - value.length) = 10
    omega⟩

section

variable (value : List Byte) (h : value.length ≤ 9)

theorem answer_ID : (answer value h).ID.text = .ok (ascii "T1") := rfl

theorem answer_Value (hnul : (0 : Byte) ∉ value) : (answer value h).Value.text = .ok value := by
  obtain ⟨k, hk⟩ : ∃ k, 10 - value.length = k + 1 := ⟨9 - value.length, by omega⟩
  have hbytes : (answer value h).Value.bytes = value ++ 0 :: List.replicate k 0 := by
    change value ++ List.replicate (10 - value.length) 0 = _
    rw [hk, List.replicate_succ]
  rw [CharArray.text, hbytes]
  exact cString_append 0 value _ hnul

end

theorem isFieldText_T1 : IsFieldText (ascii "T1") :=
  ⟨by decide, List.all_eq_true.mp (by decide)⟩

/-- A list and a quoted word are harmless. -/
theorem sameCommand_brackets :
    SameCommand (answer (ascii "[1]") (by decide)) (answer (ascii "\"1\"") (by decide)) := by
  have hharmless : Harmless (ascii "T1") (ascii "[1]") ∧ Harmless (ascii "T1") (ascii "\"1\"") := by
    decide +kernel
  have htype : (answer (ascii "[1]") (by decide)).cmdType ≠ .none := nofun
  have hsame : (answer (ascii "\"1\"") (by decide)).cmdType =
      (answer (ascii "[1]") (by decide)).cmdType := rfl
  exact (sameCommand_iff htype hsame (answer_ID _ _) (answer_ID _ _) isFieldText_T1
    (answer_Value _ _ (by decide)) (answer_Value _ _ (by decide))).mpr hharmless

/-- A quote alone is not: the text has no end, and the decoder finds nothing. -/
theorem quote_disturbs :
    ¬ SameCommand (answer (ascii "1") (by decide)) (answer (ascii "\"") (by decide)) := by
  have hread := answer_Value (ascii "\"") (by decide) (by decide)
  intro h
  obtain ⟨r, r', -, hr', -, hids, -, hid⟩ := h farMemory farMemory
  obtain ⟨rest, hrest⟩ := exists_encoded rfl (answer_ID _ _) isFieldText_T1.isWord hread farMemory
  have hword : IsTypeText (ascii "Res") :=
    ⟨⟨by decide, List.all_eq_true.mp (by decide)⟩, by decide, by decide, by decide⟩
  have hharmless : Harmless (ascii "T1") (ascii "\"") :=
    harmless_of_far hword isFieldText_T1.isWord (by decide) (by decide) (by decide)
      ((hrest r').mp hr') (hids.symm.trans hid)
  exact absurd hharmless (by decide +kernel)

end IoTRepublic.ValueBytes
