import IoTRepublic.Jsmn
import IoTRepublic.Foundation.TextReplace

/-!
Values in a tokenized JSON text. A path of keys is looked up by searching, in
the range of the value found so far, for the first string or primitive whose
text is the key; the token behind it is the value. Setting a value rewrites the
text in place and shifts the tokens behind it. The arrays keep whatever they
held before a document was copied into them.
-/
namespace IoTRepublic.JsFileParser

open CheckedArray Package Jsmn

abbrev MAXTOKENSIZE : ℕ := 128
abbrev MAXCONTENTSIZE : ℕ := 1024

structure JsonData where
  tokens : List Token
  content : List Byte
  tokenSize : ℤ
  contentSize : ℤ
  deriving DecidableEq

structure Range where
  start : ℤ
  stop : ℤ
  deriving DecidableEq

/-- `strcpy(dst, src)`. -/
def strcpy (dst src : List Byte) : Exec (List Byte) := do
  let text ← cString 0 src
  copyLoop (text ++ [0]) (text.length + 1) 0 0 dst

def initToken (jsonData : JsonData) : Exec JsonData := do
  let text ← cString 0 jsonData.content
  let (tokenSize, tokens) ← jsmnParse text MAXTOKENSIZE
  .ok { jsonData with
    tokens := splice jsonData.tokens 0 tokens
    tokenSize := tokenSize
    contentSize := text.length }

def getPatteren (range : Range) (content result : List Byte) : Exec (List Byte) := do
  let result ← copyLoop content (range.stop - range.start).toNat range.start 0 result
  writeAt result (range.stop - range.start).toNat 0

/-- `getPatteren` does nothing when it is given no result array. -/
def getPatteren? (range : Range) (content : List Byte) :
    Option (List Byte) → Exec (Option (List Byte))
  | none => .ok none
  | some result => do
    let result ← getPatteren range content result
    .ok (some result)

/-- The array index that a pattern spells. -/
def targetIndex : List Byte → ℤ → Exec ℤ
  | [], target => .ok target
  | c :: rest, target => do
    let target ← checkInt (target * 10)
    let target ← checkInt (target + (charValue c - 48))
    targetIndex rest target

/-- `while (token[token_i].start <= end) token_i++`. -/
def skipElement (stop : ℤ) : List Token → ℕ → Exec ℕ
  | [], _ => .error .readOutside
  | t :: rest, i => if t.start ≤ stop then skipElement stop rest (i + 1) else .ok i

/-- The token of the array element that is `n` elements further on. -/
def walkArray (tokens : List Token) : ℕ → ℕ → Exec ℕ
  | 0, i => .ok i
  | n + 1, i => do
    let t ← readAt tokens i
    let i ← skipElement t.stop (tokens.drop i) i
    walkArray tokens n i

/-- What a search returns and leaves behind. -/
structure Found where
  hitIndex : ℤ
  range : Range
  result : Option (List Byte)
  deriving DecidableEq

def takeToken (jsonData : JsonData) (result : Option (List Byte)) (hitIndex : ℤ) :
    Exec Found := do
  let t ← readAt jsonData.tokens hitIndex
  let result ← getPatteren? ⟨t.start, t.stop⟩ jsonData.content result
  .ok ⟨hitIndex, ⟨t.start, t.stop⟩, result⟩

/-- The search from token `i` on, with the number of tokens left to look at. -/
def searchLoop (pattern : List Byte) (range : Range) (jsonData : JsonData)
    (result : Option (List Byte)) : ℕ → ℕ → Exec Found
  | 0, _ => .ok ⟨-1, range, result⟩
  | n + 1, i => do
    let t ← readAt jsonData.tokens i
    if t.start < range.start ∨ t.stop > range.stop then
      searchLoop pattern range jsonData result n (i + 1)
    else if t.type = .string ∨ t.type = .primitive then do
      let temp ← getPatteren ⟨t.start, t.stop⟩ jsonData.content (List.replicate MAXCONTENTSIZE 0)
      let text ← cString 0 temp
      if text = pattern then takeToken jsonData result (i + 1)
      else searchLoop pattern range jsonData result n (i + 1)
    else if t.type = .array ∧ t.start = range.start then do
      let target ← targetIndex pattern 0
      -- counting up from 0 never meets a negative index
      if target < 0 then .error .overflow
      else do
        let k ← walkArray jsonData.tokens target.toNat (i + 1)
        takeToken jsonData result k
    else searchLoop pattern range jsonData result n (i + 1)

/-- The callers pass the searched range as the range to be replaced. -/
def searchJsonDataInRange (pattern : List Byte) (range : Range) (jsonData : JsonData)
    (result : Option (List Byte)) : Exec Found :=
  searchLoop pattern range jsonData result jsonData.tokenSize.toNat 0

def getAllRange (tokens : List Token) : Exec Range := do
  let t ← readAt tokens 0
  .ok ⟨t.start, t.stop⟩

def findValue (jsonData : JsonData) (result : List Byte) : List (List Byte) → Range →
    Exec (List Byte)
  | [], _ => .ok result
  | [key], range => do
    let found ← searchJsonDataInRange key range jsonData (some result)
    .ok (found.result.getD result)
  | key :: keys, range => do
    let found ← searchJsonDataInRange key range jsonData none
    findValue jsonData result keys found.range

def getJsfileValue (key : List (List Byte)) (jsonData : JsonData) (result : List Byte) :
    Exec (List Byte) := do
  let range ← getAllRange jsonData.tokens
  findValue jsonData result key range

def findRange (jsonData : JsonData) : List (List Byte) → Range → Exec Range
  | [], range => .ok range
  | key :: keys, range => do
    let found ← searchJsonDataInRange key range jsonData none
    findRange jsonData keys found.range

/-- The content with the range replaced by the value, written to `temp_content`; the
loop ends because every round but one writes a character. -/
def mergeLoop (content value : List Byte) (range : Range) :
    ℕ → ℤ → ℕ → ℕ → List Byte → Exec (List Byte × ℕ) :=
  replaceLoop 0 content value range.start range.stop

def shiftToken (range : Range) (shift : ℤ) (t : Token) : Token :=
  { t with
    start := if t.start > range.start then t.start + shift else t.start
    stop := if t.stop ≥ range.start then t.stop + shift else t.stop }

/-- The first `n` tokens of the array shifted. -/
def shiftTokens (range : Range) (shift : ℤ) : ℕ → List Token → Exec (List Token)
  | 0, tokens => .ok tokens
  | _ + 1, [] => .error .readOutside
  | n + 1, t :: tokens => do
    let tokens ← shiftTokens range shift n tokens
    .ok (shiftToken range shift t :: tokens)

/-- `value` is the memory from the string on. -/
def setJsfileSingleValue (value : List Byte) (key : List (List Byte)) (jsonData : JsonData) :
    Exec JsonData := do
  let range ← getAllRange jsonData.tokens
  let range ← findRange jsonData key range
  let (temp, i2) ← mergeLoop jsonData.content value range (MAXCONTENTSIZE + 2) 0 0 0
    (List.replicate MAXCONTENTSIZE 0)
  let all ← readAt jsonData.tokens 0
  let shift := i2 - all.stop
  let content ← strcpy jsonData.content temp
  let tokens ← shiftTokens range shift jsonData.tokenSize.toNat jsonData.tokens
  let all ← readAt tokens 0
  .ok { jsonData with tokens := tokens, content := content, contentSize := all.stop }

/-- A string copied over the front of an array. -/
theorem strcpy_eq (dst text rest : List Byte) (hnul : (0 : Byte) ∉ text)
    (hroom : text.length + 1 ≤ dst.length) :
    strcpy dst (text ++ 0 :: rest) = .ok (text ++ 0 :: dst.drop (text.length + 1)) := by
  have hcopy := copyLoop_eq (text ++ [0]) (text.length + 1) 0 0 dst (by simp) (by omega)
  have htake : ((text ++ [0]).drop 0).take (text.length + 1) = text ++ [0] := by
    rw [List.drop_zero, List.take_of_length_le (by simp)]
  rw [htake, splice_zero, List.length_append, List.length_singleton, List.append_assoc] at hcopy
  rw [strcpy, cString_append 0 text rest hnul, ok_bind]
  exact hcopy

/-- A copy that stays inside its array had room for the text and its terminator. -/
theorem strcpy_room {dst src out : List Byte} (h : strcpy dst src = .ok out) :
    ∃ text rest, src = text ++ 0 :: rest ∧ (0 : Byte) ∉ text ∧ text.length + 1 ≤ dst.length := by
  obtain ⟨text, htext, hcopy⟩ := bind_eq_ok.mp h
  obtain ⟨hnul, rest, hsrc⟩ := cString_eq_ok htext
  have hbounds := copyLoop_bounds (text ++ [0]) (text.length + 1) 0 0 dst out hcopy (by omega)
  exact ⟨text, rest, hsrc, hnul, by omega⟩

/-- The text that a token covers. -/
structure Covers (content : List Byte) (t : Token) (text : List Byte) : Prop where
  noNul : (0 : Byte) ∉ text
  split : ∃ front behind, content = front ++ (text ++ behind) ∧ t.start = front.length ∧
    t.stop = front.length + text.length

section

variable {content text result : List Byte} {t : Token}

theorem Covers.getPatteren_eq (h : Covers content t text) (hroom : text.length + 1 ≤ result.length) :
    getPatteren ⟨t.start, t.stop⟩ content result =
      .ok (text ++ 0 :: result.drop (text.length + 1)) := by
  obtain ⟨front, behind, rfl, hstart, hstop⟩ := h.split
  have hlen : (t.stop - t.start).toNat = text.length := by omega
  rw [getPatteren, hlen, hstart]
  exact copyLoop_terminated front text behind result (by omega)

theorem Covers.read_eq (h : Covers content t text) (hroom : text.length + 1 ≤ MAXCONTENTSIZE) :
    (getPatteren ⟨t.start, t.stop⟩ content (List.replicate MAXCONTENTSIZE 0) >>= cString 0) =
      .ok text := by
  rw [h.getPatteren_eq (by simpa using hroom), ok_bind]
  exact cString_append 0 text _ h.noNul

end

section

variable {pattern text : List Byte} {range : Range} {jsonData : JsonData}
  {result : Option (List Byte)} {n i : ℕ} {t : Token}

/-- A token inside the searched range. -/
def Inside (range : Range) (t : Token) : Prop := range.start ≤ t.start ∧ t.stop ≤ range.stop

theorem searchLoop_outside (ht : readAt jsonData.tokens i = .ok t) (hout : ¬ Inside range t) :
    searchLoop pattern range jsonData result (n + 1) i =
      searchLoop pattern range jsonData result n (i + 1) := by
  have hskip : t.start < range.start ∨ t.stop > range.stop := by
    simp only [Inside, not_and_or] at hout
    omega
  rw [searchLoop, ht, ok_bind, if_pos hskip]

theorem searchLoop_object (ht : readAt jsonData.tokens i = .ok t) (hin : Inside range t)
    (htype : t.type = .object) :
    searchLoop pattern range jsonData result (n + 1) i =
      searchLoop pattern range jsonData result n (i + 1) := by
  have hkeep : ¬ (t.start < range.start ∨ t.stop > range.stop) := by
    simp only [Inside] at hin
    omega
  rw [searchLoop, ht, ok_bind, if_neg hkeep]
  simp [htype]

theorem searchLoop_text (ht : readAt jsonData.tokens i = .ok t) (hin : Inside range t)
    (htype : t.type = .string ∨ t.type = .primitive) (hcovers : Covers jsonData.content t text)
    (hroom : text.length + 1 ≤ MAXCONTENTSIZE) :
    searchLoop pattern range jsonData result (n + 1) i =
      if text = pattern then takeToken jsonData result (i + 1)
      else searchLoop pattern range jsonData result n (i + 1) := by
  have hkeep : ¬ (t.start < range.start ∨ t.stop > range.stop) := by
    simp only [Inside] at hin
    omega
  have hread := hcovers.read_eq hroom
  rcases bind_eq_ok.mp hread with ⟨temp, htemp, htext⟩
  rw [searchLoop, ht, ok_bind, if_neg hkeep, if_pos htype, htemp, ok_bind, htext, ok_bind]

end

theorem takeToken_none {jsonData : JsonData} {hitIndex : ℤ} {t : Token}
    (ht : readAt jsonData.tokens hitIndex = .ok t) :
    takeToken jsonData none hitIndex = .ok ⟨hitIndex, ⟨t.start, t.stop⟩, none⟩ := by
  rw [takeToken, ht, ok_bind]
  rfl

theorem takeToken_some {jsonData : JsonData} {hitIndex : ℤ} {t : Token} {text result : List Byte}
    (ht : readAt jsonData.tokens hitIndex = .ok t) (hcovers : Covers jsonData.content t text)
    (hroom : text.length + 1 ≤ result.length) :
    takeToken jsonData (some result) hitIndex =
      .ok ⟨hitIndex, ⟨t.start, t.stop⟩, some (text ++ 0 :: result.drop (text.length + 1))⟩ := by
  rw [takeToken, ht, ok_bind, getPatteren?, hcovers.getPatteren_eq hroom]
  rfl

theorem mergeLoop_eq (content value : List Byte) (range : Range) (fuel : ℕ) (i : ℤ)
    (i2 iValue : ℕ) (temp : List Byte) :
    mergeLoop content value range fuel i i2 iValue temp =
      replaceLoop 0 content value range.start range.stop fuel i i2 iValue temp := rfl

/-- The loop replaces the text of the range by the value and keeps the rest. -/
theorem mergeLoop_replace (front old behind rest v vrest temp : List Byte) (hold : old ≠ [])
    (hfront : (0 : Byte) ∉ front) (hbehind : (0 : Byte) ∉ behind) (hv : (0 : Byte) ∉ v)
    (htemp : temp.length = MAXCONTENTSIZE)
    (hroom : front.length + v.length + behind.length < MAXCONTENTSIZE) :
    mergeLoop (front ++ (old ++ (behind ++ 0 :: rest))) (v ++ 0 :: vrest)
        ⟨front.length, front.length + old.length⟩ (MAXCONTENTSIZE + 2) 0 0 0 temp =
      .ok (front ++ v ++ behind ++ 0 :: temp.drop (front ++ v ++ behind).length.succ,
        (front ++ v ++ behind).length) := by
  rw [mergeLoop_eq]
  exact replaceLoop_replace front old behind rest v vrest temp hold hfront hbehind hv _
    (by omega) (by omega)

/-- Where the loop comes to its end, the value ended at a terminator and the new text had
room. -/
theorem mergeLoop_room (front old behind rest value temp : List Byte) (fuel : ℕ)
    (r : List Byte × ℕ) (hold : old ≠ []) (hfront : (0 : Byte) ∉ front)
    (hbehind : (0 : Byte) ∉ behind)
    (hok : mergeLoop (front ++ (old ++ (behind ++ 0 :: rest))) value
      ⟨front.length, front.length + old.length⟩ fuel 0 0 0 temp = .ok r) :
    ∃ v vrest, value = v ++ 0 :: vrest ∧ (0 : Byte) ∉ v ∧
      front.length + v.length + behind.length < temp.length := by
  rw [mergeLoop_eq] at hok
  exact replaceLoop_room front old behind rest value temp fuel r hold hfront hbehind hok

theorem shiftTokens_eq (range : Range) (shift : ℤ) (tokens others : List Token) :
    shiftTokens range shift tokens.length (tokens ++ others) =
      .ok (tokens.map (shiftToken range shift) ++ others) := by
  induction tokens with
  | nil => rfl
  | cons t tokens ih => simp [shiftTokens, ih]

/-- Setting a value stores the text that the loop has written and shifts the tokens. -/
theorem setJsfileSingleValue_of_merge {jsonData : JsonData} {key : List (List Byte)}
    {range : Range} {all : Token} {tokens others : List Token} {value text rest : List Byte}
    (htokens : jsonData.tokens = all :: tokens ++ others)
    (hcount : jsonData.tokenSize = (all :: tokens).length)
    (hfind : findRange jsonData key ⟨all.start, all.stop⟩ = .ok range)
    (hmerge : mergeLoop jsonData.content value range (MAXCONTENTSIZE + 2) 0 0 0
      (List.replicate MAXCONTENTSIZE 0) = .ok (text ++ 0 :: rest, text.length))
    (hnul : (0 : Byte) ∉ text) (hroom : text.length < jsonData.content.length) :
    setJsfileSingleValue value key jsonData = .ok { jsonData with
      tokens := (all :: tokens).map (shiftToken range (text.length - all.stop)) ++ others
      content := text ++ 0 :: jsonData.content.drop (text.length + 1)
      contentSize := (shiftToken range (text.length - all.stop) all).stop } := by
  have hread : readAt jsonData.tokens 0 = .ok all :=
    readAt_natCast jsonData.tokens 0 all (by simp [htokens])
  have hcopy := strcpy_eq jsonData.content text rest hnul hroom
  have hshift := shiftTokens_eq range (text.length - all.stop) (all :: tokens) others
  have hn : jsonData.tokenSize.toNat = (all :: tokens).length := by rw [hcount, Int.toNat_natCast]
  rw [← htokens] at hshift
  simp only [setJsfileSingleValue, getAllRange, hread, ok_bind, hfind, hmerge, hcopy, hn, hshift]
  rfl

/-- Setting a value whose range has been found replaces the text of the range. -/
theorem setJsfileSingleValue_eq {jsonData : JsonData} {key : List (List Byte)} {all : Token}
    {tokens others : List Token} (front old behind rest v vrest : List Byte)
    (htokens : jsonData.tokens = all :: tokens ++ others)
    (hcount : jsonData.tokenSize = (all :: tokens).length)
    (hfind : findRange jsonData key ⟨all.start, all.stop⟩ =
      .ok ⟨front.length, front.length + old.length⟩)
    (hcontent : jsonData.content = front ++ (old ++ (behind ++ 0 :: rest)))
    (hsize : jsonData.content.length = MAXCONTENTSIZE) (hold : old ≠ [])
    (hnul : (0 : Byte) ∉ front ++ v ++ behind)
    (hroom : (front ++ v ++ behind).length < MAXCONTENTSIZE) :
    ∃ rest', setJsfileSingleValue (v ++ 0 :: vrest) key jsonData =
      .ok { jsonData with
        tokens := (all :: tokens).map (shiftToken ⟨front.length, front.length + old.length⟩
          ((front ++ v ++ behind).length - all.stop)) ++ others
        content := front ++ v ++ behind ++ 0 :: rest'
        contentSize := (shiftToken ⟨front.length, front.length + old.length⟩
          ((front ++ v ++ behind).length - all.stop) all).stop } ∧
      (front ++ v ++ behind ++ 0 :: rest').length = MAXCONTENTSIZE := by
  have hparts := hnul
  simp only [List.mem_append, not_or] at hparts
  have hlen : front.length + v.length + behind.length < MAXCONTENTSIZE := by
    simpa [Nat.add_assoc] using hroom
  have hmerge := mergeLoop_replace front old behind rest v vrest (List.replicate MAXCONTENTSIZE 0)
    hold hparts.1.1 hparts.2 hparts.1.2 List.length_replicate hlen
  rw [← hcontent] at hmerge
  refine ⟨jsonData.content.drop ((front ++ v ++ behind).length + 1), ?_, ?_⟩
  · exact setJsfileSingleValue_of_merge htokens hcount hfind hmerge hnul (by rwa [hsize])
  · rw [List.length_append, List.length_cons, List.length_drop]
    omega

/-- Where a value was set, the loop came to its end. -/
theorem setJsfileSingleValue_merges {jsonData d' : JsonData} {key : List (List Byte)}
    {range : Range} {all : Token} {value : List Byte} (hread : readAt jsonData.tokens 0 = .ok all)
    (hfind : findRange jsonData key ⟨all.start, all.stop⟩ = .ok range)
    (hok : setJsfileSingleValue value key jsonData = .ok d') :
    ∃ r, mergeLoop jsonData.content value range (MAXCONTENTSIZE + 2) 0 0 0
      (List.replicate MAXCONTENTSIZE 0) = .ok r := by
  rw [setJsfileSingleValue, getAllRange, hread, ok_bind, ok_bind, hfind, ok_bind] at hok
  obtain ⟨r, hmerge, -⟩ := bind_eq_ok.mp hok
  exact ⟨r, hmerge⟩

/-- A value that was set ended at a terminator, and the new text had room. -/
theorem setJsfileSingleValue_room {jsonData d' : JsonData} {key : List (List Byte)} {all : Token}
    {tokens : List Token} (front old behind rest value : List Byte)
    (htokens : jsonData.tokens = all :: tokens)
    (hfind : findRange jsonData key ⟨all.start, all.stop⟩ =
      .ok ⟨front.length, front.length + old.length⟩)
    (hcontent : jsonData.content = front ++ (old ++ (behind ++ 0 :: rest))) (hold : old ≠ [])
    (hfront : (0 : Byte) ∉ front) (hbehind : (0 : Byte) ∉ behind)
    (hok : setJsfileSingleValue value key jsonData = .ok d') :
    ∃ v vrest, value = v ++ 0 :: vrest ∧ (0 : Byte) ∉ v ∧
      (front ++ v ++ behind).length < MAXCONTENTSIZE := by
  have hread : readAt jsonData.tokens 0 = .ok all :=
    readAt_natCast jsonData.tokens 0 all (by simp [htokens])
  obtain ⟨r, hmerge⟩ := setJsfileSingleValue_merges hread hfind hok
  rw [hcontent] at hmerge
  obtain ⟨v, vrest, hvalue, hnul, hroom⟩ := mergeLoop_room front old behind rest value _ _ _ hold
    hfront hbehind hmerge
  rw [List.length_replicate] at hroom
  exact ⟨v, vrest, hvalue, hnul, by simpa only [List.length_append] using hroom⟩

end IoTRepublic.JsFileParser
