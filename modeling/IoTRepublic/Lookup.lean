import IoTRepublic.JsFileParser
import IoTRepublic.JsmnTokens

/-!
Lookups in a text that has been tokenized in an array with something else behind
the text, into an array with other tokens behind those of the text. A search
among the tokens of the text ends in one of four ways, and only in two of them
without a look at what stands behind: it finds nothing, or it finds a key with a
token behind it. When the key is the last token the value is whatever token was
there, and counting the elements of an array runs on behind the tokens.
-/
namespace IoTRepublic.Lookup

open CheckedArray Package Jsmn JsmnTokens JsFileParser

/-- The characters that a token covers. -/
def tokenText (text : List Byte) (t : Token) : List Byte :=
  (text.drop t.start.toNat).take (t.stop - t.start).toNat

def rangeOf (t : Token) : Range := ⟨t.start, t.stop⟩

/-- Where a search ends. -/
inductive Hit
  | missing
  | value (t : Token)
  | behind
  | array
  deriving DecidableEq

/-- A search among the tokens of a text. -/
def hitOf (text pattern : List Byte) (range : Range) : List Token → Hit
  | [] => .missing
  | t :: rest =>
    if t.start < range.start ∨ t.stop > range.stop then hitOf text pattern range rest
    else if t.type = .string ∨ t.type = .primitive then
      if tokenText text t = pattern then
        match rest with
        | [] => .behind
        | v :: _ => .value v
      else hitOf text pattern range rest
    else if t.type = .array ∧ t.start = range.start then .array
    else hitOf text pattern range rest

/-- Behind the key it finds, a search takes the next token. -/
def Hit.next : List Token → Hit
  | [] => .behind
  | v :: _ => .value v

/-- The string in the result array, which a search that finds nothing leaves as it was. -/
def Hit.read (text before : List Byte) : Hit → List Byte
  | .value v => tokenText text v
  | _ => before

/-- The search stays among the tokens, and what it finds fits the array. -/
def Hit.Fits (text : List Byte) (room : ℕ) : Hit → Prop
  | .missing => True
  | .value v => (tokenText text v).length < room
  | _ => False

/-- What the result array holds after a search that stays among the tokens. -/
def Hit.store (text out : List Byte) : Hit → List Byte
  | .value v => tokenText text v ++ 0 :: out.drop ((tokenText text v).length + 1)
  | _ => out

/-- Where the lookup of two keys ends; the first token is the whole document. -/
def lookupOf (text outer inner : List Byte) (first : Token) (tokens : List Token) : Hit :=
  match hitOf text outer (rangeOf first) tokens with
  | .missing => hitOf text inner (rangeOf first) tokens
  | .value v => hitOf text inner (rangeOf v) tokens
  | hit => hit

/-- A tokenized text in arrays that hold other things behind it. -/
structure Shows (d : JsonData) (text : List Byte) (tokens : List Token) : Prop where
  noNul : (0 : Byte) ∉ text
  content : ∃ beyond, d.content = text ++ 0 :: beyond
  contentRoom : d.content.length = MAXCONTENTSIZE
  tokenFront : ∃ others, d.tokens = tokens ++ others
  tokenRoom : d.tokens.length = MAXTOKENSIZE
  tokenized : Tokenized text text.length MAXTOKENSIZE d.tokenSize tokens

/-- The tokens that a search looks at. -/
def searched (n : ℤ) (tokens : List Token) : List Token := tokens.take n.toNat

section

variable {text : List Byte} {n : ℤ} {tokens : List Token} {t v : Token}

theorem searched_eq (h : Tokenized text text.length MAXTOKENSIZE n tokens) :
    searched n tokens = [] ∨ searched n tokens = tokens ∧ n = tokens.length ∧
      ∀ t ∈ tokens, t.start ≤ t.stop := by
  unfold searched
  rcases le_or_gt 0 n with hn | hn
  · obtain ⟨hcount, hclosed⟩ := h.count hn
    refine .inr ⟨?_, hcount, hclosed⟩
    rw [hcount, Int.toNat_natCast, List.take_length]
  · left
    rw [Int.toNat_of_nonpos hn.le, List.take_zero]

theorem tokenText_length (ht : TokenInside text text.length t) :
    (tokenText text t).length = (t.stop - t.start).toNat := by
  obtain ⟨hstart, hstartLe, hstop, -, -⟩ := ht
  unfold tokenText
  rw [List.length_take, List.length_drop]
  omega

theorem tokenText_noNul (hnul : (0 : Byte) ∉ text) : (0 : Byte) ∉ tokenText text t := by
  intro hmem
  exact hnul (List.mem_of_mem_drop (List.mem_of_mem_take hmem))

theorem hitOf_outside {pattern : List Byte} {range : Range}
    (hout : ∀ t ∈ tokens, t.start < range.start ∨ t.stop > range.stop) :
    hitOf text pattern range tokens = .missing := by
  induction tokens with
  | nil => rfl
  | cons t tokens ih =>
    unfold hitOf
    rw [if_pos (hout t List.mem_cons_self)]
    exact ih (fun u hu => hout u (List.mem_cons_of_mem t hu))

theorem tokenText_split {front word behind : List Byte} (htext : text = front ++ (word ++ behind))
    (hstart : t.start = front.length) (hstop : t.stop = front.length + word.length) :
    tokenText text t = word := by
  have hfrom : t.start.toNat = front.length := by omega
  have hlength : (t.stop - t.start).toNat = word.length := by omega
  rw [tokenText, hfrom, hlength, htext, List.drop_left, List.take_left]

/-- A search goes past objects and past texts that are spelled differently. -/
theorem hitOf_skip {pattern : List Byte} {range : Range}
    (h : t.start < range.start ∨ t.type = .object ∨
      (t.type = .string ∨ t.type = .primitive) ∧ tokenText text t ≠ pattern) :
    hitOf text pattern range (t :: tokens) = hitOf text pattern range tokens := by
  rw [hitOf.eq_def]
  dsimp only
  rcases h with hout | hobject | ⟨htext, hname⟩
  · rw [if_pos (.inl hout)]
  · rw [if_neg (show ¬ (t.type = .string ∨ t.type = .primitive) by simp [hobject]),
      if_neg (show ¬ (t.type = .array ∧ t.start = range.start) by simp [hobject]), ite_self]
  · rw [if_pos htext, if_neg hname, ite_self]

/-- It ends at a text in its range that is spelled like the key. -/
theorem hitOf_key {pattern : List Byte} {range : Range} (hstart : range.start ≤ t.start)
    (hstop : t.stop ≤ range.stop) (htype : t.type = .string ∨ t.type = .primitive)
    (hname : tokenText text t = pattern) :
    hitOf text pattern range (t :: tokens) = .next tokens := by
  rw [hitOf.eq_def]
  dsimp only
  rw [if_neg (by omega), if_pos htype, if_pos hname]
  rfl

/-- A token that begins with a letter is a string or a primitive. -/
theorem TokenInside.isText (ht : TokenInside text text.length t) {c : Byte} {rest : List Byte}
    (hletter : c ≠ leftBrace ∧ c ≠ leftBracket) (hname : tokenText text t = c :: rest) :
    t.isContainer = false ∧ (t.type = .string ∨ t.type = .primitive) := by
  have hchar : text[t.start.toNat]? = some c := by
    have hhead := congrArg (fun l => l[0]?) hname
    simp only [List.getElem?_cons_zero] at hhead
    unfold tokenText at hhead
    rw [List.getElem?_take, List.getElem?_drop, Nat.add_zero] at hhead
    split at hhead
    · exact hhead
    · cases hhead
  have hopen : ¬ t.isContainer := by
    intro hcontainer
    rcases ht.bracket hcontainer with h | h
    · rw [h] at hchar
      exact hletter.1 (Option.some.inj hchar).symm
    · rw [h] at hchar
      exact hletter.2 (Option.some.inj hchar).symm
  have hfalse : t.isContainer = false := Bool.eq_false_iff.mpr hopen
  refine ⟨hfalse, ?_⟩
  unfold Token.isContainer at hfalse
  cases htype : t.type with
  | primitive => exact .inr rfl
  | string => exact .inl rfl
  | object =>
    rw [htype] at hfalse
    cases hfalse
  | array =>
    rw [htype] at hfalse
    cases hfalse

/-- When the second token is the key that is looked up and the search ends behind the tokens,
there is no third token and the first one is an object. -/
theorem hitOf_behind {first second : Token} {others : List Token} {c : Byte} {rest : List Byte}
    {pattern : List Byte} (hlaid : Laid text text.length (first :: second :: others))
    (hclosed : ∀ t ∈ first :: second :: others, t.start ≤ t.stop)
    (hletter : c ≠ leftBrace ∧ c ≠ leftBracket) (hpattern : pattern = c :: rest)
    (hname : tokenText text second = pattern)
    (hhit : hitOf text pattern (rangeOf first) (first :: second :: others) = .behind) :
    others = [] ∧ first.type = .object := by
  have hsecond := hlaid.inside second (by simp)
  obtain ⟨hflat, htext⟩ := TokenInside.isText hsecond hletter (hname.trans hpattern)
  have hlong : second.start < second.stop := by
    have hlength := tokenText_length hsecond
    rw [hname, hpattern, List.length_cons] at hlength
    omega
  -- behind a second token that ends outside the first one every token ends outside it
  have hmissing : second.stop > first.stop →
      hitOf text pattern (rangeOf first) (second :: others) = .missing := by
    intro hstop
    apply hitOf_outside
    intro u hu
    right
    change u.stop > first.stop
    rcases List.mem_cons.mp hu with rfl | hmem
    · exact hstop
    · obtain ⟨j, hj⟩ := List.mem_iff_getElem?.mp hmem
      have horder := (hlaid.order 1 (j + 2) second u (by omega) rfl hj).2 hflat
      have hu' := hclosed u (List.mem_cons_of_mem first hu)
      omega
  unfold hitOf at hhit
  rw [if_neg (by change ¬ (first.start < first.start ∨ first.stop > first.stop); omega)] at hhit
  by_cases htextFirst : first.type = .string ∨ first.type = .primitive
  · exfalso
    have hfirst : first.isContainer = false := by
      unfold Token.isContainer
      rcases htextFirst with htype | htype <;> rw [htype] <;> rfl
    have horder := (hlaid.order 0 1 first second (by omega) rfl rfl).2 hfirst
    rw [if_pos htextFirst, hmissing (by omega)] at hhit
    split at hhit
    · cases hhit
    · cases hhit
  rw [if_neg htextFirst] at hhit
  by_cases harray : first.type = .array
  · rw [if_pos ⟨harray, rfl⟩] at hhit
    cases hhit
  rw [if_neg (fun h => harray h.1)] at hhit
  have hobject : first.type = .object := by
    cases htype : first.type <;> simp_all
  refine ⟨?_, hobject⟩
  by_cases hstop : second.stop > first.stop
  · rw [hmissing hstop] at hhit
    cases hhit
  · have hstart := (hlaid.order 0 1 first second (by omega) rfl rfl).1
    unfold hitOf at hhit
    rw [if_neg (by change ¬ (second.start < first.start ∨ second.stop > first.stop); omega),
      if_pos htext, if_pos hname] at hhit
    cases others with
    | nil => rfl
    | cons v others => cases hhit

theorem covers_tokenText {content beyond : List Byte} (hnul : (0 : Byte) ∉ text)
    (hcontent : content = text ++ 0 :: beyond) (ht : TokenInside text text.length t)
    (hclosed : t.start ≤ t.stop) : Covers content t (tokenText text t) := by
  have hlength := tokenText_length ht
  obtain ⟨hstart, hstartLe, hstop, -, -⟩ := ht
  refine ⟨tokenText_noNul hnul, text.take t.start.toNat,
    (text.drop t.start.toNat).drop (t.stop - t.start).toNat ++ 0 :: beyond, ?_, ?_, ?_⟩
  · rw [hcontent, ← List.append_assoc (tokenText text t), tokenText, List.take_append_drop,
      ← List.append_assoc, List.take_append_drop]
  · rw [List.length_take]
    omega
  · rw [List.length_take, hlength]
    omega

end

/-- A pattern that was copied fits the result with its terminator. -/
theorem getPatteren_room {range : Range} {content result out : List Byte}
    (h : getPatteren range content result = .ok out) :
    (range.stop - range.start).toNat < result.length := by
  obtain ⟨copied, hcopy, h⟩ := bind_eq_ok.mp h
  obtain ⟨-, hroom, -⟩ := writeAt_eq_ok.mp h
  rw [copyLoop_length hcopy, Int.toNat_natCast] at hroom
  exact hroom

/-- A token that is still open covers nothing. -/
theorem getPatteren_open {range : Range} {content result : List Byte}
    (hopen : range.stop ≤ range.start) (hroom : 0 < result.length) :
    getPatteren range content result = .ok (0 :: result.drop 1) := by
  have hzero : (range.stop - range.start).toNat = 0 := by omega
  obtain ⟨c, rest, rfl⟩ := List.exists_cons_of_length_pos hroom
  rw [getPatteren, hzero]
  rfl

section

variable {d : JsonData} {text pattern : List Byte} {tokens : List Token} {range : Range}
  {result : Option (List Byte)} {t v : Token}

theorem Shows.text_length_lt (hd : Shows d text tokens) : text.length < MAXCONTENTSIZE := by
  obtain ⟨beyond, hbeyond⟩ := hd.content
  have hroom := hd.contentRoom
  rw [hbeyond, List.length_append, List.length_cons] at hroom
  omega

theorem Shows.inside (hd : Shows d text tokens) (ht : t ∈ tokens) :
    TokenInside text text.length t := hd.tokenized.laid.inside t ht

theorem Shows.covers (hd : Shows d text tokens) (ht : t ∈ tokens) (hclosed : t.start ≤ t.stop) :
    Covers d.content t (tokenText text t) := by
  obtain ⟨beyond, hbeyond⟩ := hd.content
  exact covers_tokenText hd.noNul hbeyond (hd.inside ht) hclosed

theorem Shows.readAt (hd : Shows d text tokens) {i : ℕ} (ht : tokens[i]? = some t) :
    readAt d.tokens i = .ok t := by
  obtain ⟨others, hothers⟩ := hd.tokenFront
  apply readAt_natCast
  rw [hothers, List.getElem?_append_left (List.getElem?_eq_some_iff.mp ht).1]
  exact ht

/-- The text of any token, in an array with room for it. -/
theorem Shows.getPatteren_eq (hd : Shows d text tokens) (ht : t ∈ tokens) {out : List Byte}
    (hroom : (tokenText text t).length < out.length) :
    getPatteren (rangeOf t) d.content out =
      .ok (tokenText text t ++ 0 :: out.drop ((tokenText text t).length + 1)) := by
  rcases le_or_gt t.start t.stop with hclosed | hopen
  · exact (hd.covers ht hclosed).getPatteren_eq hroom
  · have hnil : tokenText text t = [] := by
      have hlength := tokenText_length (hd.inside ht)
      rw [Int.toNat_of_nonpos (by omega)] at hlength
      exact List.length_eq_zero_iff.mp hlength
    rw [hnil]
    exact getPatteren_open hopen.le (by omega)

/-- A text that was loaded into arrays and tokenized. -/
theorem initToken_shows {content beyond : List Byte} {n : ℤ} (hnul : (0 : Byte) ∉ text)
    (hcontent : content = text ++ 0 :: beyond) (hroom : content.length = MAXCONTENTSIZE)
    (htokens : d.tokens.length = MAXTOKENSIZE)
    (hparse : jsmnParse text MAXTOKENSIZE = .ok (n, tokens)) :
    ∃ d', initToken { d with content := content } = .ok d' ∧ Shows d' text tokens ∧
      d'.tokenSize = n ∧ d'.tokens = tokens ++ d.tokens.drop tokens.length := by
  have htext : cString 0 content = .ok text := by
    rw [hcontent]
    exact cString_append 0 text beyond hnul
  have htokenized := tokenized_jsmnParse hparse
  have hfew := htokenized.few
  have hsplice : splice d.tokens 0 tokens = tokens ++ d.tokens.drop tokens.length :=
    splice_zero d.tokens tokens
  have hlength : (splice d.tokens 0 tokens).length = MAXTOKENSIZE := by
    rw [splice_length _ _ _ (by omega)]
    exact htokens
  refine ⟨⟨splice d.tokens 0 tokens, content, n, text.length⟩, ?_, ?_, rfl, hsplice⟩
  · rw [initToken]
    simp only [htext, ok_bind, hparse]
  · exact ⟨hnul, ⟨beyond, hcontent⟩, hroom, ⟨_, hsplice⟩, hlength, htokenized⟩

/-- How the search of the code ends, for each way a search among the tokens can end. -/
def Ends (d : JsonData) (tokens : List Token) (pattern : List Byte) (range : Range)
    (result : Option (List Byte)) (x : Exec Found) : Hit → Prop
  | .missing => x = .ok ⟨-1, range, result⟩
  | .value v => v ∈ tokens ∧ v.start ≤ v.stop ∧
      ∃ i : ℕ, CheckedArray.readAt d.tokens i = .ok v ∧ x = takeToken d result i
  | .behind => x = takeToken d result tokens.length
  | .array => ∃ i : ℕ, x = (do
      let target ← targetIndex pattern 0
      if target < 0 then .error .overflow
      else do
        let k ← walkArray d.tokens target.toNat i
        takeToken d result k)

/-- The search of the code from a token on, next to the search among the tokens. -/
theorem Shows.searchLoop_ends (hd : Shows d text tokens) (hclosed : ∀ t ∈ tokens, t.start ≤ t.stop)
    (front rest : List Token) (htokens : tokens = front ++ rest) :
    Ends d tokens pattern range result
      (searchLoop pattern range d result rest.length front.length)
      (hitOf text pattern range rest) := by
  induction rest generalizing front with
  | nil => exact rfl
  | cons t rest ih =>
    have hsplit : tokens = (front ++ [t]) ++ rest := by
      rw [htokens, List.append_assoc, List.singleton_append]
    have hnext := ih (front ++ [t]) hsplit
    rw [List.length_append, List.length_singleton] at hnext
    have hmem : t ∈ tokens := by
      rw [htokens]
      simp
    have hread : CheckedArray.readAt d.tokens front.length = .ok t := by
      apply hd.readAt
      rw [htokens, List.getElem?_append_right le_rfl, Nat.sub_self, List.getElem?_cons_zero]
    have hcovers := hd.covers hmem (hclosed t hmem)
    have hroom : (tokenText text t).length + 1 ≤ MAXCONTENTSIZE := by
      have hlt := hd.text_length_lt
      have hlength := tokenText_length (hd.inside hmem)
      obtain ⟨hstart, -, hstop, -, -⟩ := hd.inside hmem
      omega
    rw [List.length_cons]
    unfold hitOf
    by_cases hout : t.start < range.start ∨ t.stop > range.stop
    · rw [if_pos hout, searchLoop_outside hread (by simp only [Inside, not_and_or]; omega)]
      exact hnext
    have hin : Inside range t := by
      simp only [Inside]
      omega
    rw [if_neg hout]
    by_cases htext : t.type = .string ∨ t.type = .primitive
    · rw [if_pos htext, searchLoop_text hread hin htext hcovers hroom]
      by_cases hpattern : tokenText text t = pattern
      · rw [if_pos hpattern, if_pos hpattern]
        cases rest with
        | nil =>
          have hlast : ((front.length : ℕ) : ℤ) + 1 = (tokens.length : ℕ) := by
            rw [htokens, List.length_append, List.length_singleton]
            push_cast
            rfl
          rw [hlast]
          exact rfl
        | cons v rest =>
          have hv : v ∈ tokens := by
            rw [htokens]
            simp
          refine ⟨hv, hclosed v hv, front.length + 1, ?_, ?_⟩
          · apply hd.readAt
            rw [hsplit, List.getElem?_append_right (by simp)]
            simp
          · push_cast
            rfl
      · rw [if_neg hpattern, if_neg hpattern]
        exact hnext
    rw [if_neg htext]
    by_cases harray : t.type = .array ∧ t.start = range.start
    · rw [if_pos harray]
      refine ⟨front.length + 1, ?_⟩
      rw [searchLoop, hread, ok_bind, if_neg hout, if_neg htext, if_pos harray]
    · rw [if_neg harray, searchLoop, hread, ok_bind, if_neg hout, if_neg htext, if_neg harray]
      exact hnext

/-- A search ends in one of the four ways. -/
theorem Shows.search_ends (hd : Shows d text tokens) (result : Option (List Byte)) {hit : Hit}
    (hhit : hitOf text pattern range (searched d.tokenSize tokens) = hit) :
    Ends d tokens pattern range result (searchJsonDataInRange pattern range d result) hit := by
  rw [← hhit]
  unfold searchJsonDataInRange
  rcases le_or_gt 0 d.tokenSize with hn | hn
  · obtain ⟨hcount, hclosed⟩ := hd.tokenized.count hn
    have hall : searched d.tokenSize tokens = tokens := by
      rw [searched, hcount, Int.toNat_natCast, List.take_length]
    have hloop : Ends d tokens pattern range result
        (searchLoop pattern range d result tokens.length 0) (hitOf text pattern range tokens) :=
      hd.searchLoop_ends hclosed [] tokens rfl
    rw [hall, hcount, Int.toNat_natCast]
    exact hloop
  · rw [searched, Int.toNat_of_nonpos hn.le, List.take_zero]
    exact rfl

theorem Shows.search_missing (hd : Shows d text tokens) (result : Option (List Byte))
    (hhit : hitOf text pattern range (searched d.tokenSize tokens) = .missing) :
    searchJsonDataInRange pattern range d result = .ok ⟨-1, range, result⟩ :=
  hd.search_ends result hhit

theorem Shows.search_value (hd : Shows d text tokens) (result : Option (List Byte))
    (hhit : hitOf text pattern range (searched d.tokenSize tokens) = .value v) :
    v ∈ tokens ∧ v.start ≤ v.stop ∧ ∃ i : ℕ, CheckedArray.readAt d.tokens i = .ok v ∧
      searchJsonDataInRange pattern range d result = takeToken d result i :=
  hd.search_ends result hhit

theorem Shows.search_behind (hd : Shows d text tokens) (result : Option (List Byte))
    (hhit : hitOf text pattern range (searched d.tokenSize tokens) = .behind) :
    searchJsonDataInRange pattern range d result = takeToken d result tokens.length :=
  hd.search_ends result hhit

/-- The range of a value that is looked up further. -/
theorem Shows.search_value_range (hd : Shows d text tokens)
    (hhit : hitOf text pattern range (searched d.tokenSize tokens) = .value v) :
    ∃ i : ℕ, searchJsonDataInRange pattern range d none = .ok ⟨i, rangeOf v, none⟩ := by
  obtain ⟨-, -, i, hread, hsearch⟩ := hd.search_value none hhit
  exact ⟨i, hsearch.trans (takeToken_none hread)⟩

/-- A value that is found is stored, if there is room for it. -/
theorem Shows.takeToken_value (hd : Shows d text tokens) (hv : v ∈ tokens)
    (hclosed : v.start ≤ v.stop) {i : ℕ} (hread : CheckedArray.readAt d.tokens i = .ok v)
    {out : List Byte} (hroom : (tokenText text v).length < out.length) :
    takeToken d (some out) i = .ok ⟨i, rangeOf v,
      some (tokenText text v ++ 0 :: out.drop ((tokenText text v).length + 1))⟩ :=
  takeToken_some hread (hd.covers hv hclosed) hroom

/-- A value that was stored had room. -/
theorem takeToken_room {i : ℤ} {out : List Byte} {found : Found}
    (h : takeToken d (some out) i = .ok found) :
    ∃ t, CheckedArray.readAt d.tokens i = .ok t ∧ (t.stop - t.start).toNat < out.length := by
  obtain ⟨t, hread, h⟩ := bind_eq_ok.mp h
  obtain ⟨stored, hstored, -⟩ := bind_eq_ok.mp h
  obtain ⟨copied, hcopied, -⟩ := bind_eq_ok.mp hstored
  exact ⟨t, hread, getPatteren_room hcopied⟩

theorem skipElement_le {stop : ℤ} {rest : List Token} {i j : ℕ}
    (h : skipElement stop rest i = .ok j) : i ≤ j := by
  induction rest generalizing i with
  | nil => cases h
  | cons t rest ih =>
    unfold skipElement at h
    split at h
    · have := ih h
      omega
    · obtain rfl := Except.ok.inj h
      exact le_rfl

/-- An element that ends takes a token, and one that does not is never passed. -/
theorem skipElement_self {all : List Token} {i j : ℕ} (hread : CheckedArray.readAt all i = .ok t)
    (h : skipElement t.stop (all.drop i) i = .ok j) :
    if t.start ≤ t.stop then i < j else j = i := by
  obtain ⟨-, hget⟩ := readAt_eq_ok.mp hread
  rw [Int.toNat_natCast] at hget
  obtain ⟨hi, hti⟩ := List.getElem?_eq_some_iff.mp hget
  rw [List.drop_eq_getElem_cons hi, hti, skipElement] at h
  split
  · rename_i hclosed
    rw [if_pos hclosed] at h
    exact skipElement_le h
  · rename_i hopen
    rw [if_neg hopen] at h
    exact (Except.ok.inj h).symm

/-- A walk passes a token with every element, or it stands still at one that does not end. -/
theorem walkArray_end {all : List Token} {n i k : ℕ} (h : walkArray all n i = .ok k) :
    i + n ≤ k ∨ ∀ t, CheckedArray.readAt all k = .ok t → t.stop < t.start := by
  induction n generalizing i with
  | zero =>
    obtain rfl := Except.ok.inj h
    exact .inl le_rfl
  | succ n ih =>
    obtain ⟨t, hread, h⟩ := bind_eq_ok.mp h
    obtain ⟨j, hj, h⟩ := bind_eq_ok.mp h
    have hstep := skipElement_self hread hj
    split at hstep
    · rcases ih h with hle | hopen
      · left
        omega
      · exact .inr hopen
    · rename_i hopen
      rw [hstep] at hj h
      have hstill : ∀ m, walkArray all m i = .ok k → k = i := by
        intro m
        induction m with
        | zero =>
          intro hm
          exact (Except.ok.inj hm).symm
        | succ m ihm =>
          intro hm
          rw [walkArray, hread, ok_bind, hj, ok_bind] at hm
          exact ihm hm
      obtain rfl := hstill n h
      right
      intro u hu
      rw [hread] at hu
      obtain rfl := Except.ok.inj hu
      exact not_le.mp hopen

/-- Every element that is passed takes a token. -/
theorem walkArray_le {all : List Token} (hclosed : ∀ t ∈ all, t.start ≤ t.stop) {n i k : ℕ}
    (h : walkArray all n i = .ok k) (hk : k < all.length) : n ≤ all.length := by
  rcases walkArray_end h with hle | hopen
  · omega
  · have hread : CheckedArray.readAt all k = .ok all[k] :=
      readAt_natCast all k _ (List.getElem?_eq_getElem hk)
    exact absurd (hclosed _ (List.getElem_mem hk)) (not_le.mpr (hopen _ hread))

end

section

variable {d : JsonData} {text pattern out : List Byte} {tokens : List Token} {range : Range}
  {t v : Token}

theorem Hit.store_length {hit : Hit} (hfits : hit.Fits text out.length) :
    (hit.store text out).length = out.length := by
  cases hit with
  | value v =>
    unfold Hit.Fits at hfits
    unfold Hit.store
    rw [List.length_append, List.length_cons, List.length_drop]
    omega
  | missing => rfl
  | behind => rfl
  | array => rfl

theorem Hit.Fits.mono {hit : Hit} {room room' : ℕ} (h : hit.Fits text room) (hle : room ≤ room') :
    hit.Fits text room' := by
  cases hit with
  | value v => exact Nat.lt_of_lt_of_le h hle
  | missing => trivial
  | behind => exact h
  | array => exact h

/-- A string that is found fits an array exactly when it is shorter. -/
theorem Hit.Fits.read_lt_iff {hit : Hit} {room room' : ℕ} (h : hit.Fits text room)
    (hpos : 0 < room') : hit.Fits text room' ↔ (hit.read text []).length < room' := by
  cases hit with
  | value v => exact Iff.rfl
  | missing => exact iff_of_true trivial hpos
  | behind => exact h.elim
  | array => exact h.elim

theorem Hit.read_noNul {hit : Hit} (hnul : (0 : Byte) ∉ text) : (0 : Byte) ∉ hit.read text [] := by
  cases hit with
  | value v => exact tokenText_noNul hnul
  | missing => exact List.not_mem_nil
  | behind => exact List.not_mem_nil
  | array => exact List.not_mem_nil

/-- What is found is read back as a string. -/
theorem Hit.cString_store {hit : Hit} {before : List Byte} (hnul : (0 : Byte) ∉ text)
    (hout : cString 0 out = .ok before) :
    cString 0 (hit.store text out) = .ok (hit.read text before) := by
  cases hit with
  | value v => exact cString_append 0 _ _ (tokenText_noNul hnul)
  | missing => exact hout
  | behind => exact hout
  | array => exact hout

/-- A search that stays among the tokens and has room stores what it finds. -/
theorem Shows.search_fits (hd : Shows d text tokens)
    (hfits : (hitOf text pattern range (searched d.tokenSize tokens)).Fits text out.length) :
    ∃ found, searchJsonDataInRange pattern range d (some out) = .ok found ∧ found.result =
      some ((hitOf text pattern range (searched d.tokenSize tokens)).store text out) := by
  cases hhit : hitOf text pattern range (searched d.tokenSize tokens) with
  | missing => exact ⟨_, hd.search_missing (some out) hhit, rfl⟩
  | value v =>
    rw [hhit] at hfits
    obtain ⟨hv, hclosed, i, hread, hsearch⟩ := hd.search_value (some out) hhit
    rw [hd.takeToken_value hv hclosed hread hfits] at hsearch
    exact ⟨_, hsearch, rfl⟩
  | behind =>
    rw [hhit] at hfits
    exact hfits.elim
  | array =>
    rw [hhit] at hfits
    exact hfits.elim

end

section

variable {d : JsonData} {text outer inner out : List Byte} {first : Token} {others : List Token}

theorem Shows.getAllRange_eq (hd : Shows d text (first :: others)) :
    getAllRange d.tokens = .ok (rangeOf first) := by
  have hread : CheckedArray.readAt d.tokens 0 = .ok first := hd.readAt (i := 0) rfl
  rw [getAllRange, hread, ok_bind]
  rfl

/-- A lookup that stays among the tokens and has room stores what it finds. -/
theorem Shows.getJsfileValue_eq (hd : Shows d text (first :: others))
    (hfits : (lookupOf text outer inner first (searched d.tokenSize (first :: others))).Fits text
      out.length) :
    getJsfileValue [outer, inner] d out =
      .ok ((lookupOf text outer inner first
        (searched d.tokenSize (first :: others))).store text out) := by
  have hrange : ∃ (range : Range) (hitIndex : ℤ),
      searchJsonDataInRange outer (rangeOf first) d none = .ok ⟨hitIndex, range, none⟩ ∧
      lookupOf text outer inner first (searched d.tokenSize (first :: others)) =
        hitOf text inner range (searched d.tokenSize (first :: others)) := by
    unfold lookupOf at hfits ⊢
    cases hhit : hitOf text outer (rangeOf first) (searched d.tokenSize (first :: others)) with
    | missing => exact ⟨_, _, hd.search_missing none hhit, rfl⟩
    | value v =>
      obtain ⟨i, hsearch⟩ := hd.search_value_range hhit
      exact ⟨_, _, hsearch, rfl⟩
    | behind =>
      rw [hhit] at hfits
      exact hfits.elim
    | array =>
      rw [hhit] at hfits
      exact hfits.elim
  obtain ⟨range, hitIndex, houter, hlookup⟩ := hrange
  rw [hlookup] at hfits ⊢
  obtain ⟨found, hsearch, hresult⟩ := hd.search_fits hfits
  rw [getJsfileValue, hd.getAllRange_eq, ok_bind]
  simp only [findValue, houter, ok_bind, hsearch, hresult, Option.getD_some]

/-- Nothing is found behind a key that is the last token, wherever it is looked for. -/
theorem Shows.getJsfileValue_behind {second : Token}
    (hd : Shows d text (first :: second :: others)) {c : Byte} {rest : List Byte}
    (hletter : c ≠ leftBrace ∧ c ≠ leftBracket) (houter : outer = c :: rest)
    (hname : tokenText text second = outer) (hinner : inner ≠ outer)
    (hhit : hitOf text outer (rangeOf first)
      (searched d.tokenSize (first :: second :: others)) = .behind) :
    getJsfileValue [outer, inner] d out = .ok out := by
  rcases searched_eq hd.tokenized with hnone | ⟨hall, hcount, hclosed⟩
  · rw [hnone] at hhit
    cases hhit
  rw [hall] at hhit
  obtain ⟨rfl, hobject⟩ := hitOf_behind hd.tokenized.laid hclosed hletter houter hname hhit
  obtain ⟨t, ht⟩ : ∃ t, CheckedArray.readAt d.tokens (2 : ℕ) = .ok t := by
    have hroom := hd.tokenRoom
    have hlong : 2 < d.tokens.length := by
      rw [hroom]
      decide
    exact ⟨d.tokens[2], readAt_natCast d.tokens 2 _ (List.getElem?_eq_getElem hlong)⟩
  rw [← hall] at hhit
  have hsearch : searchJsonDataInRange outer (rangeOf first) d none =
      .ok ⟨(2 : ℕ), rangeOf t, none⟩ := (hd.search_behind none hhit).trans (takeToken_none ht)
  have hmissing : hitOf text inner (rangeOf t) (searched d.tokenSize [first, second]) =
      .missing := by
    have hother : tokenText text second ≠ inner := by
      rw [hname]
      exact Ne.symm hinner
    have htext := (TokenInside.isText (hd.inside (by simp)) hletter (hname.trans houter)).2
    rw [hall]
    simp only [hitOf, hobject, hother, htext, ↓reduceIte, reduceCtorEq, false_and, or_false,
      ite_self]
  have hsearch' : searchJsonDataInRange inner (rangeOf t) d (some out) =
      .ok ⟨-1, rangeOf t, some out⟩ := hd.search_missing _ hmissing
  rw [getJsfileValue, hd.getAllRange_eq, ok_bind]
  simp only [findValue, hsearch, ok_bind, hsearch', Option.getD_some]

end

/-- A token far outside every text and longer than every array. -/
def farToken : Token := ⟨.primitive, 1000000, 2000000, 0⟩

/-- Only such tokens stand behind those of the text. -/
def FarBehind (d : JsonData) (tokens : List Token) : Prop :=
  ∃ k, d.tokens = tokens ++ List.replicate k farToken

/-- As the index of an array element the key points outside every array of tokens. -/
def FarIndex (pattern : List Byte) : Prop :=
  ∀ target, targetIndex pattern 0 = .ok target → (MAXTOKENSIZE : ℤ) < target

section

variable {d : JsonData} {text pattern out : List Byte} {tokens : List Token} {range : Range}
  {result : Option (List Byte)} {found : Found} {t : Token}

theorem FarBehind.readAt_eq (hfar : FarBehind d tokens) {i : ℕ} (hi : tokens.length ≤ i)
    (hread : readAt d.tokens i = .ok t) : t = farToken := by
  obtain ⟨k, hk⟩ := hfar
  obtain ⟨-, hget⟩ := readAt_eq_ok.mp hread
  rw [Int.toNat_natCast, hk, List.getElem?_append_right hi] at hget
  exact List.eq_of_mem_replicate (List.mem_of_getElem? hget)

/-- No token of the text lies in the range of such a token. -/
theorem hitOf_far (hinside : ∀ t ∈ tokens, TokenInside text text.length t)
    (hlength : text.length < MAXCONTENTSIZE) :
    hitOf text pattern (rangeOf farToken) tokens = .missing := by
  apply hitOf_outside
  intro t ht
  have hmax : MAXCONTENTSIZE = 1024 := rfl
  have hstart := (hinside t ht).start_le
  left
  change t.start < 1000000
  omega

/-- A search that counts the elements of an array runs out of the tokens. -/
theorem Shows.search_far_array (hd : Shows d text tokens) (hfar : FarBehind d tokens)
    (hindex : FarIndex pattern)
    (hsearch : searchJsonDataInRange pattern range d result = .ok found) :
    hitOf text pattern range (searched d.tokenSize tokens) ≠ .array := by
  intro hhit
  obtain ⟨i, hends⟩ := hd.search_ends result hhit
  rw [hsearch] at hends
  obtain ⟨target, htarget, hends⟩ := bind_eq_ok.mp hends.symm
  have hbound := hindex target htarget
  have hmax : MAXTOKENSIZE = 128 := rfl
  split at hends
  · cases hends
  obtain ⟨k, hwalk, htake⟩ := bind_eq_ok.mp hends
  obtain ⟨t, hread, -⟩ := bind_eq_ok.mp htake
  obtain ⟨-, hget⟩ := readAt_eq_ok.mp hread
  rw [Int.toNat_natCast] at hget
  have hk := (List.getElem?_eq_some_iff.mp hget).1
  have hclosed : ∀ u ∈ d.tokens, u.start ≤ u.stop := by
    obtain ⟨m, hm⟩ := hfar
    intro u hu
    rw [hm] at hu
    rcases List.mem_append.mp hu with hu | hu
    · rcases searched_eq hd.tokenized with hnone | ⟨-, -, hall⟩
      · rw [hnone] at hhit
        cases hhit
      · exact hall u hu
    · rw [List.eq_of_mem_replicate hu]
      decide
  have hle := walkArray_le hclosed hwalk hk
  have hroom := hd.tokenRoom
  omega

/-- A search that stored something stayed among the tokens and had room. -/
theorem Shows.search_far_fits (hd : Shows d text tokens) (hfar : FarBehind d tokens)
    (hindex : FarIndex pattern) (hroom : out.length ≤ 1000000)
    (hsearch : searchJsonDataInRange pattern range d (some out) = .ok found) :
    (hitOf text pattern range (searched d.tokenSize tokens)).Fits text out.length := by
  cases hhit : hitOf text pattern range (searched d.tokenSize tokens) with
  | missing => trivial
  | value v =>
    obtain ⟨hv, -, i, hread, htake⟩ := hd.search_value (some out) hhit
    obtain ⟨t, hreadt, hfits⟩ := takeToken_room (htake.symm.trans hsearch)
    rw [hread] at hreadt
    obtain rfl := Except.ok.inj hreadt
    change (tokenText text v).length < out.length
    rw [tokenText_length (hd.inside hv)]
    exact hfits
  | behind =>
    obtain ⟨t, hread, hfits⟩ :=
      takeToken_room ((hd.search_behind (some out) hhit).symm.trans hsearch)
    rw [hfar.readAt_eq le_rfl hread] at hfits
    have hwidth : (farToken.stop - farToken.start).toNat = 1000000 := rfl
    omega
  | array => exact absurd hhit (hd.search_far_array hfar hindex hsearch)

end

section

variable {d : JsonData} {text outer inner out out' : List Byte} {first : Token}
  {others : List Token}

/-- A lookup that came to its end found a key without a value at the first step and nothing
in the range of what stands behind, or it stayed among the tokens and had room. -/
theorem Shows.getJsfileValue_far (hd : Shows d text (first :: others))
    (hfar : FarBehind d (first :: others)) (houter : FarIndex outer) (hinner : FarIndex inner)
    (hroom : out.length ≤ 1000000) (h : getJsfileValue [outer, inner] d out = .ok out') :
    hitOf text outer (rangeOf first) (searched d.tokenSize (first :: others)) = .behind ∧
        out' = out ∨
      (lookupOf text outer inner first (searched d.tokenSize (first :: others))).Fits text
        out.length := by
  rw [getJsfileValue, hd.getAllRange_eq, ok_bind] at h
  obtain ⟨found, hsearch, h⟩ := bind_eq_ok.mp h
  obtain ⟨found', hsearch', h⟩ := bind_eq_ok.mp h
  unfold lookupOf
  cases hhit : hitOf text outer (rangeOf first) (searched d.tokenSize (first :: others)) with
  | missing =>
    right
    rw [hd.search_missing none hhit] at hsearch
    obtain rfl := Except.ok.inj hsearch
    exact hd.search_far_fits hfar hinner hroom hsearch'
  | value v =>
    right
    obtain ⟨i, hvalue⟩ := hd.search_value_range hhit
    rw [hvalue] at hsearch
    obtain rfl := Except.ok.inj hsearch
    exact hd.search_far_fits hfar hinner hroom hsearch'
  | behind =>
    left
    have hbehind := (hd.search_behind none hhit).symm.trans hsearch
    obtain ⟨t, hread, -⟩ := bind_eq_ok.mp hbehind
    rw [takeToken_none hread, hfar.readAt_eq le_rfl hread] at hbehind
    obtain rfl := Except.ok.inj hbehind
    have hnone : hitOf text inner (rangeOf farToken) (searched d.tokenSize (first :: others)) =
        .missing := by
      apply hitOf_far _ hd.text_length_lt
      intro u hu
      exact hd.inside (List.mem_of_mem_take hu)
    have hmissing : searchJsonDataInRange inner (rangeOf farToken) d (some out) =
        .ok ⟨-1, rangeOf farToken, some out⟩ := hd.search_missing (some out) hnone
    rw [show searchJsonDataInRange inner (rangeOf farToken) d (some out) = .ok found' from
      hsearch'] at hmissing
    obtain rfl := Except.ok.inj hmissing
    exact ⟨rfl, (Except.ok.inj h).symm⟩
  | array => exact absurd hhit (hd.search_far_array hfar houter hsearch)

end

end IoTRepublic.Lookup
