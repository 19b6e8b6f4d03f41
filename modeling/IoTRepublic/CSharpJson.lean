import IoTRepublic.CSharpReader
import IoTRepublic.JsFileParser
import IoTRepublic.JsmnSteps

/-!
The JSON parser of the C# library, over 16-bit characters. Its tokenizer walks
over the whole content array up to the first terminator, and to the tokenizer
all characters that are not ASCII are alike. A search that finds nothing throws.
The tokens are those in front of the first null in the token array.
-/
namespace IoTRepublic.CSharpJson

open CheckedArray Package Jsmn CSharpReader
open JsFileParser (Range shiftTokens walkArray)

abbrev MAXTOKENSIZE : ℕ := 128
abbrev MAXPACKETSIZE : ℕ := 1024

/-- What ends a method early: an access outside an array or to a null, or one of the parser's
own exceptions. -/
inductive Thrown
  | fault (f : Fault)
  | initFailed (errorCode : ℤ)
  | notFound
  deriving DecidableEq

abbrev Method (α : Type) := Except Thrown α

def checked {α : Type} : Exec α → Method α
  | .ok a => .ok a
  | .error f => .error (.fault f)

structure JsonData where
  parsed : Bool
  tokens : List Token
  tokenSize : ℤ
  content : List Char16
  contentSize : ℤ
  deriving DecidableEq

def isBlank (c : Char16) : Bool := c == 9 || c == 13 || c == 10 || c == 32

def endsPrimitive (c : Char16) : Bool :=
  isBlank c || c == comma.toUInt16 || c == rightBracket.toUInt16 || c == rightBrace.toUInt16

/-- The characters before the closing quote; as in the C++ tokenizer, any one character is
skipped behind a backslash. -/
def stringLength : List Char16 → Option ℕ
  | [] => none
  | [c] => if c = quote.toUInt16 then some 0 else none
  | c :: d :: rest =>
    if c = 0 then none
    else if c = quote.toUInt16 then some 0
    else if c = backslash.toUInt16 then (stringLength rest).map (· + 2)
    else (stringLength (d :: rest)).map (· + 1)

def primitiveLength : List Char16 → Option ℕ
  | [] => some 0
  | c :: rest =>
    if c = 0 ∨ endsPrimitive c then some 0
    else if c < 32 ∨ c ≥ 127 then none
    else (primitiveLength rest).map (· + 1)

/-- The loop of `jsmn_parse`, with the content from `pos` on. -/
def parseLoop (numTokens : ℕ) : ℕ → List Char16 → ℕ → Parser → Exec (ℤ × List Token)
  | 0, _, _, _ => .error .unfinished
  | _ + 1, [], _, p => .ok (finish p)
  | fuel + 1, c :: rest, pos, p =>
    if c = 0 then .ok (finish p)
    else if c = leftBrace.toUInt16 ∨ c = leftBracket.toUInt16 then
      if p.tokens.length ≥ numTokens then .ok (JSMN_ERROR_NOMEM, p.tokens)
      else do
        let p ← openContainer p (if c = leftBrace.toUInt16 then .object else .array) pos
        parseLoop numTokens fuel rest (pos + 1) p
    else if c = rightBrace.toUInt16 ∨ c = rightBracket.toUInt16 then do
      let closed ← closeContainer p (if c = rightBrace.toUInt16 then .object else .array) pos
      match closed with
      | none => .ok (JSMN_ERROR_INVAL, p.tokens)
      | some p => parseLoop numTokens fuel rest (pos + 1) p
    else if c = quote.toUInt16 then
      match stringLength rest with
      | none => .ok (JSMN_ERROR_PART, p.tokens)
      | some n =>
        if p.tokens.length ≥ numTokens then .ok (JSMN_ERROR_NOMEM, p.tokens)
        else do
          let p ← pushValue p ⟨.string, pos + 1, pos + 1 + n, 0⟩
          parseLoop numTokens fuel (rest.drop (n + 1)) (pos + n + 2) p
    else if isBlank c then parseLoop numTokens fuel rest (pos + 1) p
    else if c = colon.toUInt16 then
      parseLoop numTokens fuel rest (pos + 1) { p with toksuper := p.tokens.length - 1 }
    else if c = comma.toUInt16 then do
      let p ← nextMember p
      parseLoop numTokens fuel rest (pos + 1) p
    else
      match primitiveLength (c :: rest) with
      | none => .ok (JSMN_ERROR_INVAL, p.tokens)
      | some n =>
        if p.tokens.length ≥ numTokens then .ok (JSMN_ERROR_NOMEM, p.tokens)
        else do
          let p ← pushValue p ⟨.primitive, pos, pos + n, 0⟩
          parseLoop numTokens fuel ((c :: rest).drop n) (pos + n) p

def jsmnParse (js : List Char16) (numTokens : ℕ) : Exec (ℤ × List Token) :=
  parseLoop numTokens (js.length + 1) js 0 ⟨[], -1, 0⟩

/-- `content_size` is left as it is. -/
def initToken (jsonData : JsonData) : Method JsonData := do
  let (tokenSize, tokens) ← checked (jsmnParse jsonData.content MAXTOKENSIZE)
  if tokenSize < 0 then .error (.initFailed tokenSize)
  else .ok { jsonData with
    tokens := splice jsonData.tokens 0 tokens
    tokenSize := tokenSize
    parsed := true }

def getPatteren (range : Range) (content result : List Char16) : Exec (List Char16) := do
  let result ← copyLoop content (range.stop - range.start).toNat range.start 0 result
  writeAt result (range.stop - range.start).toNat 0

def getPatteren? (range : Range) (content : List Char16) :
    Option (List Char16) → Exec (Option (List Char16))
  | none => .ok none
  | some result => do
    let result ← getPatteren range content result
    .ok (some result)

def targetIndex : List Char16 → ℤ → ℤ
  | [], target => target
  | c :: rest, target =>
    targetIndex rest (wrapInt (wrapInt (target * 10) + ((c.toNat : ℤ) - 48)))

/-- What a search returns and leaves behind. -/
structure Found where
  hitIndex : ℤ
  range : Range
  result : Option (List Char16)
  deriving DecidableEq

def takeToken (jsonData : JsonData) (result : Option (List Char16)) (hitIndex : ℤ) :
    Exec Found := do
  let t ← readAt jsonData.tokens hitIndex
  let result ← getPatteren? ⟨t.start, t.stop⟩ jsonData.content result
  .ok ⟨hitIndex, ⟨t.start, t.stop⟩, result⟩

/-- The search from token `i` on, with the number of tokens left to look at. -/
def searchLoop (pattern : List Char16) (range : Range) (jsonData : JsonData)
    (result : Option (List Char16)) : ℕ → ℕ → Method Found
  | 0, _ => .error .notFound
  | n + 1, i => do
    let t ← checked (readAt jsonData.tokens i)
    if t.start < range.start ∨ t.stop > range.stop then
      searchLoop pattern range jsonData result n (i + 1)
    else if t.type = .string ∨ t.type = .primitive then do
      let temp ← checked (getPatteren ⟨t.start, t.stop⟩ jsonData.content
        (List.replicate MAXPACKETSIZE 0))
      let text ← checked (cString 0 temp)
      if text = pattern then checked (takeToken jsonData result (i + 1))
      else searchLoop pattern range jsonData result n (i + 1)
    else if t.type = .array ∧ t.start = range.start then do
      -- the index counts up and wraps, so it meets a negative target too
      let k ← checked (walkArray jsonData.tokens
        (targetIndex pattern 0 % 4294967296).toNat (i + 1))
      checked (takeToken jsonData result k)
    else searchLoop pattern range jsonData result n (i + 1)

def searchJsonDataInRange (pattern : List Char16) (range : Range) (jsonData : JsonData)
    (result : Option (List Char16)) : Method Found :=
  searchLoop pattern range jsonData result jsonData.tokenSize.toNat 0

def getAllRange (tokens : List Token) : Exec Range := do
  let t ← readAt tokens 0
  .ok ⟨t.start, t.stop⟩

def findValue (jsonData : JsonData) (result : List Char16) : List (List Char16) → Range →
    Method (List Char16)
  | [], _ => .ok result
  | [key], range => do
    let found ← searchJsonDataInRange key range jsonData (some result)
    .ok (found.result.getD result)
  | key :: keys, range => do
    let found ← searchJsonDataInRange key range jsonData none
    findValue jsonData result keys found.range

def getJsfileValue (key : List (List Char16)) (jsonData : JsonData) (result : List Char16) :
    Method (List Char16) := do
  let range ← checked (getAllRange jsonData.tokens)
  findValue jsonData result key range

def findRange (jsonData : JsonData) : List (List Char16) → Range → Method Range
  | [], range => .ok range
  | key :: keys, range => do
    let found ← searchJsonDataInRange key range jsonData none
    findRange jsonData keys found.range

/-- The content with the range replaced by the value, written to `temp_content`. -/
def mergeLoop (content value : List Char16) (range : Range) :
    ℕ → ℤ → ℕ → ℕ → List Char16 → Exec (List Char16 × ℕ) :=
  replaceLoop 0 content value range.start range.stop

/-- `Coder.arr_puts(src, dst, ref i)` from the start on, and the terminator behind it. -/
def arrPuts (dst src : List Char16) : Exec (List Char16) := do
  let text ← cString 0 src
  let dst ← copyLoop text text.length 0 0 dst
  writeAt dst text.length 0

/-- `value` is the array of the string; without a key there is no last key to look at. -/
def setJsfileSingleValue (value : List Char16) (key : List (List Char16)) (jsonData : JsonData) :
    Method JsonData := do
  let range ← checked (getAllRange jsonData.tokens)
  let range ← findRange jsonData key range
  if key = [] then .error (.fault .readOutside)
  else do
    let (temp, i2) ← checked (mergeLoop jsonData.content value range (MAXPACKETSIZE + 2) 0 0 0
      (List.replicate MAXPACKETSIZE 0))
    let all ← checked (readAt jsonData.tokens 0)
    let shift := i2 - all.stop
    let content ← checked (arrPuts jsonData.content temp)
    let tokens ← checked (shiftTokens range shift jsonData.tokenSize.toNat jsonData.tokens)
    let all ← checked (readAt tokens 0)
    .ok { jsonData with tokens := tokens, content := content, contentSize := all.stop }

section

variable {α β : Type}

@[simp] theorem checked_ok (a : α) : checked (.ok a) = .ok a := rfl

@[simp] theorem returned_bind (a : α) (f : α → Method β) : (Except.ok a >>= f) = f a := rfl

end

/-- All characters that are not ASCII as one byte that is none either. -/
def narrow (c : Char16) : Byte := if c < 255 then c.toUInt8 else 255

theorem narrow_toNat (c : Char16) : (narrow c).toNat = min c.toNat 255 := by
  rw [narrow]
  split
  · rename_i h
    have hlt : c.toNat < 255 := UInt16.lt_iff_toNat_lt.mp h
    rw [UInt16.toNat_toUInt8]
    omega
  · rename_i h
    have hge : ¬ c.toNat < 255 := fun hlt => h (UInt16.lt_iff_toNat_lt.mpr hlt)
    have hmax : (255 : UInt8).toNat = 255 := rfl
    omega

theorem narrow_utf16 (text : List Byte) : (utf16 text).map narrow = text := by
  have hbyte : narrow ∘ UInt8.toUInt16 = id := by
    funext c
    rw [Function.comp_apply, id_eq, ← UInt8.toNat_inj, narrow_toNat, UInt8.toNat_toUInt16]
    have hlt := c.toNat_lt
    omega
  rw [utf16, List.map_map, hbyte, List.map_id]

theorem narrow_eq_iff {c : Char16} {d : Byte} (hd : d < 255) : narrow c = d ↔ c = d.toUInt16 := by
  have hlt : d.toNat < 255 := UInt8.lt_iff_toNat_lt.mp hd
  rw [← UInt8.toNat_inj, ← UInt16.toNat_inj, narrow_toNat, UInt8.toNat_toUInt16]
  omega

theorem narrow_lt_iff {c : Char16} {d : Byte} (hd : d < 255) : narrow c < d ↔ c < d.toUInt16 := by
  have hlt : d.toNat < 255 := UInt8.lt_iff_toNat_lt.mp hd
  rw [UInt8.lt_iff_toNat_lt, UInt16.lt_iff_toNat_lt, narrow_toNat, UInt8.toNat_toUInt16]
  omega

section

variable {c : Char16} {text : List Char16}

theorem narrow_zero_iff : narrow c = 0 ↔ c = 0 := narrow_eq_iff (by decide)

theorem isBlank_narrow : BracketText.isBlank (narrow c) = isBlank c := by
  rw [Bool.eq_iff_iff]
  simp only [BracketText.isBlank, isBlank, Bool.or_eq_true, beq_iff_eq]
  rw [narrow_eq_iff (by decide), narrow_eq_iff (by decide), narrow_eq_iff (by decide),
    narrow_eq_iff (by decide)]
  rfl

theorem endsPrimitive_narrow : Jsmn.endsPrimitive (narrow c) = endsPrimitive c := by
  rw [Jsmn.endsPrimitive, endsPrimitive, isBlank_narrow, Bool.eq_iff_iff]
  simp only [Bool.or_eq_true, beq_iff_eq]
  rw [narrow_eq_iff (by decide), narrow_eq_iff (by decide), narrow_eq_iff (by decide)]

theorem stringLength_narrow : Jsmn.stringLength (text.map narrow) = stringLength text := by
  fun_induction stringLength text with
  | case1 => rfl
  | case2 => rfl
  | case3 c hquote =>
    rw [List.map_singleton, Jsmn.stringLength, if_neg (by rwa [narrow_eq_iff (by decide)])]
  | case4 => rfl
  | case5 => rfl
  | case6 d rest _ _ ih =>
    rw [List.map_cons, List.map_cons, Jsmn.stringLength, ih]
    rfl
  | case7 c d rest hzero hquote hback ih =>
    rw [List.map_cons, List.map_cons, Jsmn.stringLength, if_neg (by rwa [narrow_zero_iff]),
      if_neg (by rwa [narrow_eq_iff (by decide)]), if_neg (by rwa [narrow_eq_iff (by decide)]),
      ← List.map_cons, ih]

theorem primitiveLength_narrow :
    Jsmn.primitiveLength (text.map narrow) = primitiveLength text := by
  induction text with
  | nil => rfl
  | cons c text ih =>
    have hlow : narrow c < 32 ↔ c < 32 := narrow_lt_iff (by decide)
    have hhigh : narrow c ≥ 127 ↔ c ≥ 127 := by
      have hlt : narrow c < 127 ↔ c < 127 := narrow_lt_iff (by decide)
      rw [ge_iff_le, ge_iff_le, ← UInt8.not_lt, ← UInt16.not_lt, hlt]
    simp only [List.map_cons, Jsmn.primitiveLength, primitiveLength, narrow_zero_iff,
      endsPrimitive_narrow, hlow, hhigh, ih]

theorem parseLoop_narrow (numTokens fuel pos : ℕ) (p : Parser) :
    Jsmn.parseLoop numTokens fuel (text.map narrow) pos p =
      parseLoop numTokens fuel text pos p := by
  induction fuel generalizing text pos p with
  | zero => rfl
  | succ fuel ih =>
    cases text with
    | nil => rfl
    | cons c text =>
      have heq : ∀ d : Byte, d < 255 → (narrow c = d ↔ c = d.toUInt16) :=
        fun d hd => narrow_eq_iff hd
      rw [List.map_cons, Jsmn.parseLoop]
      simp only [narrow_zero_iff, heq leftBrace (by decide), heq leftBracket (by decide),
        heq rightBrace (by decide), heq rightBracket (by decide), heq quote (by decide),
        heq colon (by decide), heq comma (by decide), isBlank_narrow, stringLength_narrow,
        primitiveLength_narrow, ← List.map_cons, ← List.map_drop, ih]
      exact (parseLoop.eq_def numTokens (fuel + 1) (c :: text) pos p).symm

/-- The tokenizer is the one of the C++ program, to which all characters that are not ASCII are
alike too. -/
theorem jsmnParse_narrow (numTokens : ℕ) :
    Jsmn.jsmnParse (text.map narrow) numTokens = jsmnParse text numTokens := by
  rw [Jsmn.jsmnParse, jsmnParse, List.length_map, parseLoop_narrow]

end

theorem checked_eq_ok {α : Type} {x : Exec α} {a : α} : checked x = .ok a ↔ x = .ok a := by
  cases x with
  | ok b => rw [checked_ok, Except.ok.injEq, Except.ok.injEq]
  | error f => exact iff_of_false nofun nofun

theorem returned_eq_ok {α β : Type} {x : Method α} {f : α → Method β} {b : β} :
    (x >>= f) = .ok b ↔ ∃ a, x = .ok a ∧ f a = .ok b := by
  cases x with
  | ok a => simp
  | error e => exact iff_of_false nofun nofun

theorem mergeLoop_eq (content value : List Char16) (range : Range) (fuel : ℕ) (i : ℤ)
    (i2 iValue : ℕ) (temp : List Char16) :
    mergeLoop content value range fuel i i2 iValue temp =
      replaceLoop 0 content value range.start range.stop fuel i i2 iValue temp := rfl

theorem getPatteren_eq (front text behind result : List Char16) {range : Range}
    (hstart : range.start = front.length) (hstop : range.stop = front.length + text.length)
    (hroom : text.length < result.length) :
    getPatteren range (front ++ (text ++ behind)) result =
      .ok (text ++ 0 :: result.drop (text.length + 1)) := by
  have hlen : (range.stop - range.start).toNat = text.length := by omega
  rw [getPatteren, hlen, hstart]
  exact copyLoop_terminated front text behind result hroom

theorem arrPuts_eq (dst text rest : List Char16) (hnul : (0 : Char16) ∉ text)
    (hroom : text.length < dst.length) :
    arrPuts dst (text ++ 0 :: rest) = .ok (text ++ 0 :: dst.drop (text.length + 1)) := by
  have hcopy : (copyLoop ([] ++ (text ++ [])) _ _ _ dst >>= fun out => writeAt out _ (0 : Char16)) =
      _ := copyLoop_terminated [] text [] dst hroom
  rw [List.nil_append, List.append_nil] at hcopy
  rw [arrPuts, cString_append 0 text rest hnul, ok_bind]
  exact hcopy

theorem arrPuts_room {dst out : List Char16} (text rest : List Char16)
    (hnul : (0 : Char16) ∉ text) (h : arrPuts dst (text ++ 0 :: rest) = .ok out) :
    text.length < dst.length := by
  rw [arrPuts, cString_append 0 text rest hnul, ok_bind] at h
  obtain ⟨out', hcopy, hwrite⟩ := bind_eq_ok.mp h
  have hlength := copyLoop_length hcopy
  have hinside := (writeAt_eq_ok.mp hwrite).2.1
  omega

section

variable {jsonData e' : JsonData} {key : List (List Char16)} {range : Range} {all : Token}
  {tokens others : List Token} {value text rest : List Char16}

/-- Setting a value stores the text that the loop has written and shifts the tokens. -/
theorem setJsfileSingleValue_of_merge (hkey : key ≠ [])
    (htokens : jsonData.tokens = all :: tokens ++ others)
    (hcount : jsonData.tokenSize = (all :: tokens).length)
    (hfind : findRange jsonData key ⟨all.start, all.stop⟩ = .ok range)
    (hmerge : mergeLoop jsonData.content value range (MAXPACKETSIZE + 2) 0 0 0
      (List.replicate MAXPACKETSIZE 0) = .ok (text ++ 0 :: rest, text.length))
    (hnul : (0 : Char16) ∉ text) (hroom : text.length < jsonData.content.length) :
    setJsfileSingleValue value key jsonData = .ok { jsonData with
      tokens := (all :: tokens).map (JsFileParser.shiftToken range (text.length - all.stop)) ++
        others
      content := text ++ 0 :: jsonData.content.drop (text.length + 1)
      contentSize := (JsFileParser.shiftToken range (text.length - all.stop) all).stop } := by
  have hread : readAt jsonData.tokens 0 = .ok all :=
    readAt_natCast jsonData.tokens 0 all (by simp [htokens])
  have hcopy := arrPuts_eq jsonData.content text rest hnul hroom
  have hshift := JsFileParser.shiftTokens_eq range (text.length - all.stop) (all :: tokens) others
  have hn : jsonData.tokenSize.toNat = (all :: tokens).length := by rw [hcount, Int.toNat_natCast]
  rw [← htokens] at hshift
  simp only [setJsfileSingleValue, getAllRange, hread, ok_bind, checked_ok, returned_bind, hfind,
    hkey, ↓reduceIte, hmerge, hcopy, hn, hshift]
  rfl

/-- Where a value was set, the loop came to its end, and its text had room. -/
theorem setJsfileSingleValue_merges (hread : readAt jsonData.tokens 0 = .ok all)
    (hfind : findRange jsonData key ⟨all.start, all.stop⟩ = .ok range)
    (hok : setJsfileSingleValue value key jsonData = .ok e') :
    ∃ r content, mergeLoop jsonData.content value range (MAXPACKETSIZE + 2) 0 0 0
      (List.replicate MAXPACKETSIZE 0) = .ok r ∧ arrPuts jsonData.content r.1 = .ok content := by
  rw [setJsfileSingleValue, getAllRange, hread, ok_bind, checked_ok, returned_bind, hfind,
    returned_bind] at hok
  split at hok
  · cases hok
  obtain ⟨r, hmerge, hok⟩ := returned_eq_ok.mp hok
  obtain ⟨all', -, hok⟩ := returned_eq_ok.mp hok
  obtain ⟨content, hputs, -⟩ := returned_eq_ok.mp hok
  exact ⟨r, content, checked_eq_ok.mp hmerge, checked_eq_ok.mp hputs⟩

/-- A value is only set in a text that ends at a terminator. -/
theorem setJsfileSingleValue_nul_mem (hok : setJsfileSingleValue value key jsonData = .ok e') :
    0 ∈ jsonData.content := by
  obtain ⟨range, -, hok⟩ := returned_eq_ok.mp hok
  obtain ⟨range', -, hok⟩ := returned_eq_ok.mp hok
  split at hok
  · cases hok
  obtain ⟨r, hmerge, -⟩ := returned_eq_ok.mp hok
  have hloop := checked_eq_ok.mp hmerge
  rw [mergeLoop_eq] at hloop
  exact replaceLoop_nul_mem hloop

end

end IoTRepublic.CSharpJson
