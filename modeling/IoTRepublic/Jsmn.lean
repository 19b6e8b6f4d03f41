import IoTRepublic.Foundation.BracketText
import IoTRepublic.Package
import Mathlib.Data.List.Induction

/-!
The JSON tokenizer. It walks over the text once and fills a bounded array of
tokens; every unquoted value is a primitive. The tokens are kept as the list of
those allocated so far, and `toksuper` is -1 outside every object and array, so
that a read of `tokens[toksuper]` there is a fault.
-/
namespace IoTRepublic.Jsmn

open CheckedArray Package
open BracketText (isBlank)

inductive TokenType
  | primitive
  | object
  | array
  | string
  deriving DecidableEq, Repr

structure Token where
  type : TokenType
  start : ℤ
  stop : ℤ
  size : ℤ
  deriving DecidableEq, Repr

abbrev JSMN_ERROR_NOMEM : ℤ := -1
abbrev JSMN_ERROR_INVAL : ℤ := -2
abbrev JSMN_ERROR_PART : ℤ := -3

abbrev leftBrace : Byte := 123
abbrev rightBrace : Byte := 125
abbrev leftBracket : Byte := 91
abbrev rightBracket : Byte := 93
abbrev quote : Byte := 34
abbrev backslash : Byte := 92
abbrev colon : Byte := 58
abbrev comma : Byte := 44

def endsPrimitive (c : Byte) : Bool :=
  isBlank c || c == comma || c == rightBracket || c == rightBrace

structure Parser where
  tokens : List Token
  toksuper : ℤ
  count : ℤ
  deriving DecidableEq

def Token.isOpen (t : Token) : Bool := t.start != -1 && t.stop == -1

def Token.isContainer (t : Token) : Bool := t.type == .array || t.type == .object

/-- `for (i = n - 1; i >= 0; i--)` up to the first token of the wanted kind. -/
def lastToken (wanted : Token → Bool) (tokens : List Token) : ℕ → Option ℕ
  | 0 => none
  | i + 1 =>
    match tokens[i]? with
    | none => lastToken wanted tokens i
    | some t => if wanted t then some i else lastToken wanted tokens i

/-- `size++`. -/
def Token.counted (t : Token) : Token := { t with size := t.size + 1 }

/-- `if (parser->toksuper != -1) tokens[parser->toksuper].size++`. -/
def countInSuper (p : Parser) : Exec (List Token) :=
  if p.toksuper = -1 then .ok p.tokens
  else do
    let t ← readAt p.tokens p.toksuper
    writeAt p.tokens p.toksuper t.counted

/-- The characters before the closing quote of a string, or no closing quote. The switch
behind a backslash looks at the backslash itself, which is an allowed symbol, so any one
character is skipped. -/
def stringLength : List Byte → Option ℕ
  | [] => none
  | [c] => if c = quote then some 0 else none
  | c :: d :: rest =>
    if c = 0 then none
    else if c = quote then some 0
    else if c = backslash then (stringLength rest).map (· + 2)
    else (stringLength (d :: rest)).map (· + 1)

/-- The characters of a primitive, or an invalid one among them. -/
def primitiveLength : List Byte → Option ℕ
  | [] => some 0
  | c :: rest =>
    if c = 0 ∨ endsPrimitive c then some 0
    else if c < 32 ∨ c ≥ 127 then none
    else (primitiveLength rest).map (· + 1)

/-- The result code and the allocated tokens at the end of the text. -/
def finish (p : Parser) : ℤ × List Token :=
  match lastToken Token.isOpen p.tokens p.tokens.length with
  | some _ => (JSMN_ERROR_PART, p.tokens)
  | none => (p.count, p.tokens)

/-- A token that the text has filled whole, a string or a primitive. -/
def pushValue (p : Parser) (t : Token) : Exec Parser := do
  let tokens ← countInSuper p
  .ok { p with tokens := tokens ++ [t], count := p.count + 1 }

def openContainer (p : Parser) (type : TokenType) (pos : ℕ) : Exec Parser := do
  let tokens ← countInSuper p
  .ok ⟨tokens ++ [⟨type, pos, -1, 0⟩], p.tokens.length, p.count + 1⟩

/-- A closing bracket: the innermost open token is closed and the one around it is the
superior of what follows. -/
def closeContainer (p : Parser) (type : TokenType) (pos : ℕ) : Exec (Option Parser) :=
  match lastToken Token.isOpen p.tokens p.tokens.length with
  | none => .ok none
  | some i => do
    let t ← readAt p.tokens i
    if t.type ≠ type then .ok none
    else do
      let tokens ← writeAt p.tokens i { t with stop := pos + 1 }
      match lastToken Token.isOpen tokens i with
      | none => .ok (some { p with tokens := tokens, toksuper := -1 })
      | some j => .ok (some { p with tokens := tokens, toksuper := j })

def nextMember (p : Parser) : Exec Parser := do
  let t ← readAt p.tokens p.toksuper
  if t.isContainer then .ok p
  else
    match lastToken (fun t => t.isContainer && t.isOpen) p.tokens p.tokens.length with
    | none => .ok p
    | some i => .ok { p with toksuper := i }

/-- The loop of `jsmn_parse`, with the text from `pos` on. -/
def parseLoop (numTokens : ℕ) : ℕ → List Byte → ℕ → Parser → Exec (ℤ × List Token)
  | 0, _, _, _ => .error .unfinished
  | _ + 1, [], _, p => .ok (finish p)
  | fuel + 1, c :: rest, pos, p =>
    if c = 0 then .ok (finish p)
    else if c = leftBrace ∨ c = leftBracket then
      if p.tokens.length ≥ numTokens then .ok (JSMN_ERROR_NOMEM, p.tokens)
      else do
        let p ← openContainer p (if c = leftBrace then .object else .array) pos
        parseLoop numTokens fuel rest (pos + 1) p
    else if c = rightBrace ∨ c = rightBracket then do
      let closed ← closeContainer p (if c = rightBrace then .object else .array) pos
      match closed with
      | none => .ok (JSMN_ERROR_INVAL, p.tokens)
      | some p => parseLoop numTokens fuel rest (pos + 1) p
    else if c = quote then
      match stringLength rest with
      | none => .ok (JSMN_ERROR_PART, p.tokens)
      | some n =>
        if p.tokens.length ≥ numTokens then .ok (JSMN_ERROR_NOMEM, p.tokens)
        else do
          let p ← pushValue p ⟨.string, pos + 1, pos + 1 + n, 0⟩
          parseLoop numTokens fuel (rest.drop (n + 1)) (pos + n + 2) p
    else if isBlank c then parseLoop numTokens fuel rest (pos + 1) p
    else if c = colon then
      parseLoop numTokens fuel rest (pos + 1) { p with toksuper := p.tokens.length - 1 }
    else if c = comma then do
      let p ← nextMember p
      parseLoop numTokens fuel rest (pos + 1) p
    else
      match primitiveLength (c :: rest) with
      | none => .ok (JSMN_ERROR_INVAL, p.tokens)
      | some n =>
        if p.tokens.length ≥ numTokens then .ok (JSMN_ERROR_NOMEM, p.tokens)
        else do
          let p ← pushValue p ⟨.primitive, pos, pos + n, 0⟩
          parseLoop numTokens fuel ((c :: rest).drop n) (pos + n) p

def jsmnParse (js : List Byte) (numTokens : ℕ) : Exec (ℤ × List Token) :=
  parseLoop numTokens (js.length + 1) js 0 ⟨[], -1, 0⟩

/-- A character that is one of a key or of an unquoted value and means nothing else. -/
def isPlain (c : Byte) : Bool :=
  32 < c && c < 127 && !(c == leftBrace || c == rightBrace || c == leftBracket ||
    c == rightBracket || c == quote || c == backslash || c == colon || c == comma)

theorem ne_of_isPlain {c d : Byte} (h : isPlain c) (hd : isPlain d = false) : c ≠ d := by
  rintro rfl
  rw [hd] at h
  exact Bool.noConfusion h

theorem printable_of_isPlain {c : Byte} (h : isPlain c) : ¬ (c < 32 ∨ c ≥ 127) := by
  simp only [isPlain, Bool.and_eq_true, decide_eq_true_eq, UInt8.lt_iff_toNat_lt] at h
  obtain ⟨⟨hlow, hhigh⟩, -⟩ := h
  simp only [UInt8.lt_iff_toNat_lt, ge_iff_le, UInt8.le_iff_toNat_le]
  omega

theorem not_ends_of_isPlain {c : Byte} (h : isPlain c) : endsPrimitive c = false := by
  simp only [endsPrimitive, isBlank, Bool.or_eq_false_iff, beq_eq_false_iff_ne]
  exact ⟨⟨⟨⟨⟨⟨ne_of_isPlain h (by decide), ne_of_isPlain h (by decide)⟩,
    ne_of_isPlain h (by decide)⟩, ne_of_isPlain h (by decide)⟩, ne_of_isPlain h (by decide)⟩,
    ne_of_isPlain h (by decide)⟩, ne_of_isPlain h (by decide)⟩

theorem stringLength_plain (text rest : List Byte) (h : ∀ c ∈ text, isPlain c) :
    stringLength (text ++ quote :: rest) = some text.length := by
  induction text with
  | nil => cases rest <;> rfl
  | cons c text ih =>
    have hc := h c (List.mem_cons_self ..)
    have htail := ih (fun d hd => h d (List.mem_cons_of_mem _ hd))
    obtain ⟨d, tail, hd⟩ : ∃ d tail, text ++ quote :: rest = d :: tail := by
      cases text with
      | nil => exact ⟨_, _, rfl⟩
      | cons d text => exact ⟨_, _, rfl⟩
    rw [hd] at htail
    rw [List.cons_append, hd]
    simp only [stringLength, ne_of_isPlain (d := 0) hc (by decide),
      ne_of_isPlain (d := quote) hc (by decide), ne_of_isPlain (d := backslash) hc (by decide),
      ↓reduceIte, htail, Option.map_some, List.length_cons]

theorem primitiveLength_plain (text rest : List Byte) (d : Byte) (h : ∀ c ∈ text, isPlain c)
    (hd : endsPrimitive d) : primitiveLength (text ++ d :: rest) = some text.length := by
  induction text with
  | nil => simp [primitiveLength, hd]
  | cons c text ih =>
    have hc := h c (List.mem_cons_self ..)
    have htail := ih (fun d hd => h d (List.mem_cons_of_mem _ hd))
    simp only [List.cons_append, primitiveLength, ne_of_isPlain (d := 0) hc (by decide),
      not_ends_of_isPlain hc, printable_of_isPlain hc, Bool.false_eq_true, or_self, ↓reduceIte,
      htail, Option.map_some, List.length_cons]

theorem isOpen_eq_false {t : Token} (h : 0 ≤ t.stop) : t.isOpen = false := by
  have hstop : t.stop ≠ -1 := by omega
  simp [Token.isOpen, hstop]

theorem lastToken_front (wanted : Token → Bool) (front behind : List Token) (n : ℕ)
    (hn : n ≤ front.length) :
    lastToken wanted (front ++ behind) n = lastToken wanted front n := by
  induction n with
  | zero => rfl
  | succ n ih =>
    have hget : (front ++ behind)[n]? = front[n]? := List.getElem?_append_left (by omega)
    simp only [lastToken, hget, ih (by omega)]

theorem lastToken_append (wanted : Token → Bool) (front behind : List Token)
    (h : ∀ t ∈ behind, wanted t = false) :
    lastToken wanted (front ++ behind) (front.length + behind.length) =
      lastToken wanted front front.length := by
  induction behind using List.reverseRecOn with
  | nil => simp
  | append_singleton behind t ih =>
    have ht := h t (by simp)
    have hlast : (front ++ (behind ++ [t]))[front.length + behind.length]? = some t := by
      rw [← List.append_assoc, ← List.length_append]
      simp
    have hshort := lastToken_front wanted (front ++ behind) [t] (front.length + behind.length)
      (by simp)
    rw [List.length_append, List.length_singleton, ← Nat.add_assoc, lastToken, hlast]
    simp only [ht, Bool.false_eq_true, ↓reduceIte]
    rw [← List.append_assoc, hshort]
    exact ih (fun u hu => h u (by simp [hu]))

theorem finish_closed (p : Parser) (h : ∀ t ∈ p.tokens, t.isOpen = false) :
    finish p = (p.count, p.tokens) := by
  have hlast := lastToken_append Token.isOpen [] p.tokens h
  rw [List.nil_append, List.length_nil, Nat.zero_add] at hlast
  rw [finish, hlast]
  rfl

/-- Counting up a token among the others. -/
theorem countInSuper_at (front behind : List Token) (t : Token) (count : ℤ) :
    countInSuper ⟨front ++ t :: behind, front.length, count⟩ =
      .ok (front ++ t.counted :: behind) := by
  have hread := readAt_natCast (front ++ t :: behind) front.length t (by simp)
  have hwrite := writeAt_natCast (front ++ t :: behind) front.length
    t.counted (by simp)
  have hset : (front ++ t :: behind).set front.length t.counted =
      front ++ t.counted :: behind := by simp
  rw [countInSuper, if_neg (show ¬ (front.length : ℤ) = -1 by omega), hread, ok_bind, hwrite, hset]

/-- A comma behind a value goes back to the container around it. -/
theorem nextMember_around (front behind : List Token) (s : Token) (i : ℕ) (count : ℤ)
    (hs : s.isContainer ∧ s.isOpen) (hbehind : ∀ t ∈ behind, t.isContainer = false)
    (hi : front.length < i) (hlen : i < front.length + 1 + behind.length) :
    nextMember ⟨front ++ s :: behind, i, count⟩ =
      .ok ⟨front ++ s :: behind, front.length, count⟩ := by
  obtain ⟨t, ht⟩ : ∃ t, behind[i - front.length - 1]? = some t :=
    ⟨_, List.getElem?_eq_getElem (by omega)⟩
  have hget : (front ++ s :: behind)[i]? = some t := by
    rw [List.getElem?_append_right (by omega), List.getElem?_cons, if_neg (by omega)]
    exact ht
  have hsplit : front ++ s :: behind = (front ++ [s]) ++ behind := by simp
  have hlast : lastToken (fun t => t.isContainer && t.isOpen) (front ++ s :: behind)
      (front ++ s :: behind).length = some front.length := by
    have hskip : ∀ t ∈ behind, (fun t : Token => t.isContainer && t.isOpen) t = false := by
      intro t ht
      simp [hbehind t ht]
    rw [hsplit, List.length_append, lastToken_append _ _ _ hskip, List.length_append,
      List.length_singleton, lastToken]
    simp [hs.1, hs.2]
  rw [nextMember, readAt_natCast _ _ _ hget, ok_bind]
  simp only [hbehind t (List.mem_of_getElem? ht), Bool.false_eq_true, ↓reduceIte, hlast]

/-- The tokens of a quoted key and the unquoted value behind it. -/
def memberTokens (pos : ℕ) (key value : List Byte) : List Token :=
  [⟨.string, pos + 1, pos + 1 + key.length, 1⟩,
    ⟨.primitive, pos + key.length + 3, pos + key.length + 3 + value.length, 0⟩]

theorem memberTokens_not_container {pos : ℕ} {key value : List Byte} (t : Token)
    (ht : t ∈ memberTokens pos key value) : t.isContainer = false := by
  simp only [memberTokens, List.mem_cons, List.not_mem_nil, or_false] at ht
  rcases ht with rfl | rfl <;> rfl

theorem memberTokens_not_open {pos : ℕ} {key value : List Byte} (t : Token)
    (ht : t ∈ memberTokens pos key value) : t.isOpen = false := by
  simp only [memberTokens, List.mem_cons, List.not_mem_nil, or_false] at ht
  rcases ht with rfl | rfl <;> exact isOpen_eq_false (by simp only; omega)

/-- A closing bracket behind closed tokens closes the open token in front of them. -/
theorem closeContainer_closed (front behind : List Token) (t : Token) (toksuper count : ℤ)
    (pos : ℕ) (hopen : t.isOpen) (hbehind : ∀ u ∈ behind, u.isOpen = false) :
    closeContainer ⟨front ++ t :: behind, toksuper, count⟩ t.type pos =
      .ok (some ⟨front ++ { t with stop := pos + 1 } :: behind,
        match lastToken Token.isOpen front front.length with
        | none => -1
        | some j => (j : ℤ), count⟩) := by
  have hsplit : front ++ t :: behind = (front ++ [t]) ++ behind := by simp
  have hlast : lastToken Token.isOpen (front ++ t :: behind) (front ++ t :: behind).length =
      some front.length := by
    rw [hsplit, List.length_append, lastToken_append _ _ _ hbehind, List.length_append,
      List.length_singleton, lastToken]
    simp [hopen]
  have hread := readAt_natCast (front ++ t :: behind) front.length t (by simp)
  have hwrite := writeAt_natCast (front ++ t :: behind) front.length { t with stop := pos + 1 }
    (by simp)
  have hset : (front ++ t :: behind).set front.length { t with stop := pos + 1 } =
      front ++ { t with stop := pos + 1 } :: behind := by simp
  have hfront := lastToken_front Token.isOpen front ({ t with stop := pos + 1 } :: behind)
    front.length le_rfl
  simp only [closeContainer, hlast, hread, ok_bind, ne_eq, not_true_eq_false, ↓reduceIte, hwrite,
    hset, hfront]
  cases lastToken Token.isOpen front front.length <;> rfl

section

variable {numTokens fuel pos : ℕ} {rest : List Byte} {p p' : Parser}

theorem parseLoop_open (hroom : p.tokens.length < numTokens)
    (hopen : openContainer p .object pos = .ok p') :
    parseLoop numTokens (fuel + 1) (leftBrace :: rest) pos p =
      parseLoop numTokens fuel rest (pos + 1) p' := by
  have hfull : ¬ p.tokens.length ≥ numTokens := by omega
  simp [parseLoop, hfull, hopen, leftBrace]

theorem parseLoop_close (hclose : closeContainer p .object pos = .ok (some p')) :
    parseLoop numTokens (fuel + 1) (rightBrace :: rest) pos p =
      parseLoop numTokens fuel rest (pos + 1) p' := by
  simp [parseLoop, hclose, rightBrace, leftBrace, leftBracket]

theorem parseLoop_colon :
    parseLoop numTokens (fuel + 1) (colon :: rest) pos p =
      parseLoop numTokens fuel rest (pos + 1) { p with toksuper := p.tokens.length - 1 } := by
  simp [parseLoop, isBlank, colon, quote, rightBrace, rightBracket, leftBrace, leftBracket]

theorem parseLoop_comma (hnext : nextMember p = .ok p') :
    parseLoop numTokens (fuel + 1) (comma :: rest) pos p =
      parseLoop numTokens fuel rest (pos + 1) p' := by
  simp [parseLoop, isBlank, hnext, comma, colon, quote, rightBrace, rightBracket, leftBrace,
    leftBracket]

theorem parseLoop_string {text : List Byte} (htext : ∀ c ∈ text, isPlain c)
    (hroom : p.tokens.length < numTokens)
    (hpush : pushValue p ⟨.string, pos + 1, pos + 1 + text.length, 0⟩ = .ok p') :
    parseLoop numTokens (fuel + 1) (quote :: (text ++ quote :: rest)) pos p =
      parseLoop numTokens fuel rest (pos + text.length + 2) p' := by
  have hfull : ¬ p.tokens.length ≥ numTokens := by omega
  have hdrop : (text ++ quote :: rest).drop (text.length + 1) = rest := by
    simp
  have hlength := stringLength_plain text rest htext
  simp only [parseLoop, hlength, hfull, hpush, hdrop, ok_bind]
  simp [quote, rightBrace, rightBracket, leftBrace, leftBracket]

theorem parseLoop_primitive {c d : Byte} {text : List Byte} (hc : isPlain c)
    (htext : ∀ c ∈ text, isPlain c) (hd : endsPrimitive d) (hroom : p.tokens.length < numTokens)
    (hpush : pushValue p ⟨.primitive, pos, pos + (c :: text).length, 0⟩ = .ok p') :
    parseLoop numTokens (fuel + 1) (c :: text ++ d :: rest) pos p =
      parseLoop numTokens fuel (d :: rest) (pos + (c :: text).length) p' := by
  have hfull : ¬ p.tokens.length ≥ numTokens := by omega
  have hall : ∀ e ∈ c :: text, isPlain e := by
    simpa [hc] using htext
  have hlength := primitiveLength_plain (c :: text) rest d hall hd
  have hdrop : (c :: text ++ d :: rest).drop (c :: text).length = d :: rest := List.drop_left
  have hblank : isBlank c = false := by
    have hends := not_ends_of_isPlain hc
    simp only [endsPrimitive, Bool.or_eq_false_iff] at hends
    exact hends.1.1.1
  rw [List.cons_append] at hlength hdrop ⊢
  simp only [parseLoop, ne_of_isPlain (d := 0) hc (by decide),
    ne_of_isPlain (d := leftBrace) hc (by decide), ne_of_isPlain (d := leftBracket) hc (by decide),
    ne_of_isPlain (d := rightBrace) hc (by decide), ne_of_isPlain (d := rightBracket) hc (by decide),
    ne_of_isPlain (d := quote) hc (by decide), ne_of_isPlain (d := colon) hc (by decide),
    ne_of_isPlain (d := comma) hc (by decide), hblank, hlength, hfull, hpush, hdrop, or_self,
    Bool.false_eq_true, ↓reduceIte, ok_bind]

/-- A quoted key with an unquoted value, inside an open container: the key counts its
value, and the container counts the key. -/
theorem parseLoop_member (front behind : List Token) {key value : List Byte} {d : Byte} {s : Token}
    {count : ℤ} (hkey : ∀ c ∈ key, isPlain c) (hne : value ≠ []) (hvalue : ∀ c ∈ value, isPlain c)
    (hd : endsPrimitive d) (hroom : front.length + behind.length + 3 ≤ numTokens) :
    parseLoop numTokens (fuel + 3)
        (quote :: (key ++ quote :: colon :: (value ++ d :: rest))) pos
        ⟨front ++ s :: behind, front.length, count⟩ =
      parseLoop numTokens fuel (d :: rest) (pos + key.length + 3 + value.length)
        ⟨front ++ s.counted :: (behind ++ memberTokens pos key value),
          (front.length + behind.length + 1 : ℕ), count + 2⟩ := by
  have hpush : pushValue ⟨front ++ s :: behind, front.length, count⟩
      ⟨.string, pos + 1, pos + 1 + key.length, 0⟩ =
      .ok ⟨(front ++ s.counted :: behind) ++
        [⟨.string, pos + 1, pos + 1 + key.length, 0⟩], front.length, count + 1⟩ := by
    rw [pushValue, countInSuper_at, ok_bind]
  obtain ⟨c, text, rfl⟩ := List.exists_cons_of_ne_nil hne
  rw [parseLoop_string hkey (by simp; omega) hpush, parseLoop_colon,
    parseLoop_primitive (hvalue c (List.mem_cons_self ..))
      (fun e he => hvalue e (List.mem_cons_of_mem _ he)) hd (by simp; omega)]
  have hsuper : (((front ++ s.counted :: behind) ++
      [(⟨.string, pos + 1, pos + 1 + key.length, 0⟩ : Token)]).length : ℤ) - 1 =
      ((front ++ s.counted :: behind).length : ℕ) := by
    simp only [List.length_append, List.length_cons, List.length_nil]
    omega
  have hlength : (front ++ s.counted :: behind).length =
      front.length + behind.length + 1 := by
    simp only [List.length_append, List.length_cons]
    omega
  rw [pushValue, hsuper, countInSuper_at _ [], ok_bind, hlength]
  simp only [memberTokens, List.append_assoc, List.cons_append, List.nil_append]
  congr 2
  omega

/-- A member with the comma behind it leaves the parser in the same container. -/
theorem parseLoop_member_comma (front behind : List Token) {key value : List Byte} {s : Token}
    {count : ℤ} (hkey : ∀ c ∈ key, isPlain c) (hne : value ≠ []) (hvalue : ∀ c ∈ value, isPlain c)
    (hroom : front.length + behind.length + 3 ≤ numTokens)
    (hs : s.isContainer ∧ s.isOpen) (hbehind : ∀ t ∈ behind, t.isContainer = false) :
    parseLoop numTokens (fuel + 4)
        (quote :: (key ++ quote :: colon :: (value ++ comma :: rest))) pos
        ⟨front ++ s :: behind, front.length, count⟩ =
      parseLoop numTokens fuel rest (pos + key.length + 4 + value.length)
        ⟨front ++ s.counted :: (behind ++ memberTokens pos key value),
          front.length, count + 2⟩ := by
  have hnext := nextMember_around front (behind ++ memberTokens pos key value)
    s.counted (front.length + behind.length + 1) (count + 2) (by exact hs) (by
      intro t ht
      rcases List.mem_append.mp ht with ht | ht
      · exact hbehind t ht
      · exact memberTokens_not_container t ht) (by omega) (by
        rw [List.length_append, memberTokens]
        simp
        omega)
  rw [parseLoop_member front behind hkey hne hvalue (by decide) hroom, parseLoop_comma hnext]
  congr 1
  omega

end

end IoTRepublic.Jsmn
