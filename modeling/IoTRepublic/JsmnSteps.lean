import IoTRepublic.JsmnTokens

/-!
The loop of the tokenizer without its fuel. Every round reads at least one
character, so the text that is left bounds the rounds, and the loop follows one
rule for each kind of character.
-/
namespace IoTRepublic.JsmnSteps

open CheckedArray Package Jsmn
open BracketText (isBlank)

/-- The loop from a place of the text on, with rounds enough for what is left. -/
def parseFrom (numTokens : ℕ) (rest : List Byte) (pos : ℕ) (p : Parser) : Exec (ℤ × List Token) :=
  parseLoop numTokens (rest.length + 1) rest pos p

section

variable {numTokens fuel pos n : ℕ} {c : Byte} {rest : List Byte} {p p' : Parser}

/-- A primitive has a first character. -/
theorem primitiveLength_pos (hzero : c ≠ 0) (hends : endsPrimitive c = false)
    (h : primitiveLength (c :: rest) = some n) : 0 < n := by
  rw [primitiveLength, if_neg (by simp [hzero, hends])] at h
  split at h
  · cases h
  · obtain ⟨m, -, rfl⟩ := Option.map_eq_some_iff.mp h
    exact Nat.succ_pos m

/-- A round with the rounds behind it left open. -/
def round (numTokens : ℕ) (next : List Byte → ℕ → Parser → Exec (ℤ × List Token)) (c : Byte)
    (rest : List Byte) (pos : ℕ) (p : Parser) : Exec (ℤ × List Token) :=
  if c = 0 then .ok (finish p)
  else if c = leftBrace ∨ c = leftBracket then
    if p.tokens.length ≥ numTokens then .ok (JSMN_ERROR_NOMEM, p.tokens)
    else do
      let p ← openContainer p (if c = leftBrace then .object else .array) pos
      next rest (pos + 1) p
  else if c = rightBrace ∨ c = rightBracket then do
    let closed ← closeContainer p (if c = rightBrace then .object else .array) pos
    match closed with
    | none => .ok (JSMN_ERROR_INVAL, p.tokens)
    | some p => next rest (pos + 1) p
  else if c = quote then
    match stringLength rest with
    | none => .ok (JSMN_ERROR_PART, p.tokens)
    | some n =>
      if p.tokens.length ≥ numTokens then .ok (JSMN_ERROR_NOMEM, p.tokens)
      else do
        let p ← pushValue p ⟨.string, pos + 1, pos + 1 + n, 0⟩
        next (rest.drop (n + 1)) (pos + n + 2) p
  else if isBlank c then next rest (pos + 1) p
  else if c = colon then next rest (pos + 1) { p with toksuper := p.tokens.length - 1 }
  else if c = comma then do
    let p ← nextMember p
    next rest (pos + 1) p
  else
    match primitiveLength (c :: rest) with
    | none => .ok (JSMN_ERROR_INVAL, p.tokens)
    | some n =>
      if p.tokens.length ≥ numTokens then .ok (JSMN_ERROR_NOMEM, p.tokens)
      else do
        let p ← pushValue p ⟨.primitive, pos, pos + n, 0⟩
        next ((c :: rest).drop n) (pos + n) p

theorem parseLoop_cons : parseLoop numTokens (fuel + 1) (c :: rest) pos p =
    round numTokens (parseLoop numTokens fuel) c rest pos p := rfl

/-- A round looks at nothing but shorter texts. -/
theorem round_congr {next next' : List Byte → ℕ → Parser → Exec (ℤ × List Token)}
    (h : ∀ text pos p, text.length ≤ rest.length → next text pos p = next' text pos p) :
    round numTokens next c rest pos p = round numTokens next' c rest pos p := by
  have hrest : ∀ pos p, next rest pos p = next' rest pos p := fun pos p => h rest pos p le_rfl
  have hdrop : ∀ n pos p, next (rest.drop (n + 1)) pos p = next' (rest.drop (n + 1)) pos p := by
    intro n pos p
    apply h
    rw [List.length_drop]
    omega
  unfold round
  refine ite_congr rfl (fun _ => rfl) (fun hzero => ?_)
  refine ite_congr rfl (fun _ => by simp only [hrest]) (fun _ => ?_)
  refine ite_congr rfl (fun _ => by simp only [hrest]) (fun hclose => ?_)
  refine ite_congr rfl (fun _ => by simp only [hdrop]) (fun _ => ?_)
  refine ite_congr rfl (fun _ => hrest _ _) (fun hblank => ?_)
  refine ite_congr rfl (fun _ => hrest _ _) (fun _ => ?_)
  refine ite_congr rfl (fun _ => by simp only [hrest]) (fun hcomma => ?_)
  cases hlength : primitiveLength (c :: rest) with
  | none => rfl
  | some n =>
    have hends : endsPrimitive c = false := by
      simp only [not_or] at hclose
      simp [endsPrimitive, hblank, hcomma, hclose.1, hclose.2]
    have hpos := primitiveLength_pos hzero hends hlength
    have hshort : ∀ pos p, next ((c :: rest).drop n) pos p = next' ((c :: rest).drop n) pos p := by
      intro pos p
      apply h
      rw [List.length_drop, List.length_cons]
      omega
    simp only [hshort]

theorem parseLoop_congr {fuel' : ℕ} (h : rest.length < fuel) (h' : rest.length < fuel') :
    parseLoop numTokens fuel rest pos p = parseLoop numTokens fuel' rest pos p := by
  induction fuel generalizing rest fuel' pos p with
  | zero => omega
  | succ fuel ih =>
    obtain ⟨fuel', rfl⟩ : ∃ k, fuel' = k + 1 := ⟨fuel' - 1, by omega⟩
    cases rest with
    | nil => rfl
    | cons c rest =>
      rw [List.length_cons] at h h'
      rw [parseLoop_cons, parseLoop_cons]
      apply round_congr
      intro text pos p htext
      exact ih (by omega) (by omega)

/-- The rule of the loop. -/
theorem parseFrom_cons : parseFrom numTokens (c :: rest) pos p =
    round numTokens (parseFrom numTokens) c rest pos p := by
  rw [parseFrom, parseLoop_cons]
  apply round_congr
  intro text pos p htext
  apply parseLoop_congr
  · rw [List.length_cons]
    omega
  · exact Nat.lt_succ_self _

theorem parseFrom_nil : parseFrom numTokens [] pos p = .ok (finish p) := rfl

theorem jsmnParse_eq (js : List Byte) :
    jsmnParse js numTokens = parseFrom numTokens js 0 ⟨[], -1, 0⟩ := rfl

/-- A round that comes to its end with an array does so with a smaller one. -/
theorem round_smaller {numTokens' : ℕ} (hle : numTokens' ≤ numTokens)
    {next next' : List Byte → ℕ → Parser → Exec (ℤ × List Token)}
    (hnext : ∀ text pos p, (∃ r, next text pos p = .ok r) → ∃ r, next' text pos p = .ok r)
    (h : ∃ r, round numTokens next c rest pos p = .ok r) :
    ∃ r, round numTokens' next' c rest pos p = .ok r := by
  have hbind : ∀ (x : Exec Parser) text pos, (∃ r, (x >>= next text pos) = .ok r) →
      ∃ r, (x >>= next' text pos) = .ok r := by
    intro x text pos hx
    obtain ⟨r, hr⟩ := hx
    obtain ⟨q, rfl, hq⟩ := bind_eq_ok.mp hr
    exact hnext text pos q ⟨r, hq⟩
  have hroom : ∀ (x : Exec Parser) text pos,
      (∃ r, (if p.tokens.length ≥ numTokens then .ok (JSMN_ERROR_NOMEM, p.tokens)
        else x >>= next text pos) = .ok r) →
      ∃ r, (if p.tokens.length ≥ numTokens' then .ok (JSMN_ERROR_NOMEM, p.tokens)
        else x >>= next' text pos) = .ok r := by
    intro x text pos hx
    by_cases hfull : p.tokens.length ≥ numTokens'
    · rw [if_pos hfull]
      exact ⟨_, rfl⟩
    · rw [if_neg (by omega)] at hx
      rw [if_neg hfull]
      exact hbind x text pos hx
  unfold round at h ⊢
  split
  · exact ⟨_, rfl⟩
  rename_i hzero
  rw [if_neg hzero] at h
  split
  · rename_i hc
    rw [if_pos hc] at h
    exact hroom _ _ _ h
  rename_i hopen
  rw [if_neg hopen] at h
  split
  · rename_i hc
    rw [if_pos hc] at h
    obtain ⟨r, h⟩ := h
    obtain ⟨closed, hclosed, h⟩ := bind_eq_ok.mp h
    rw [hclosed, ok_bind]
    cases closed with
    | none => exact ⟨_, rfl⟩
    | some q => exact hnext _ _ q ⟨r, h⟩
  rename_i hclose
  rw [if_neg hclose] at h
  split
  · rename_i hc
    rw [if_pos hc] at h
    cases hlength : stringLength rest with
    | none => exact ⟨_, rfl⟩
    | some n =>
      simp only [hlength] at h
      exact hroom _ _ _ h
  rename_i hquote
  rw [if_neg hquote] at h
  split
  · rename_i hc
    rw [if_pos hc] at h
    exact hnext _ _ _ h
  rename_i hblank
  rw [if_neg hblank] at h
  split
  · rename_i hc
    rw [if_pos hc] at h
    exact hnext _ _ _ h
  rename_i hcolon
  rw [if_neg hcolon] at h
  split
  · rename_i hc
    rw [if_pos hc] at h
    exact hbind _ _ _ h
  rename_i hcomma
  rw [if_neg hcomma] at h
  cases hlength : primitiveLength (c :: rest) with
  | none => exact ⟨_, rfl⟩
  | some n =>
    simp only [hlength] at h
    exact hroom _ _ _ h

theorem parseLoop_smaller {numTokens' : ℕ} (hle : numTokens' ≤ numTokens)
    (h : ∃ r, parseLoop numTokens fuel rest pos p = .ok r) :
    ∃ r, parseLoop numTokens' fuel rest pos p = .ok r := by
  induction fuel generalizing rest pos p with
  | zero =>
    obtain ⟨r, h⟩ := h
    cases h
  | succ fuel ih =>
    cases rest with
    | nil => exact ⟨_, rfl⟩
    | cons c rest =>
      rw [parseLoop_cons] at h ⊢
      exact round_smaller hle (fun text pos p hnext => ih hnext) h

theorem parseFrom_blank (hc : isBlank c) :
    parseFrom numTokens (c :: rest) pos p = parseFrom numTokens rest (pos + 1) p := by
  have hne : ∀ d, isBlank d = false → c ≠ d := by
    rintro d hd rfl
    rw [hc] at hd
    cases hd
  rw [parseFrom_cons, round, if_neg (hne 0 rfl),
    if_neg (not_or.mpr ⟨hne leftBrace rfl, hne leftBracket rfl⟩),
    if_neg (not_or.mpr ⟨hne rightBrace rfl, hne rightBracket rfl⟩), if_neg (hne quote rfl),
    if_pos hc]

theorem parseFrom_blanks {blank : List Byte} (h : ∀ c ∈ blank, isBlank c) :
    parseFrom numTokens (blank ++ rest) pos p =
      parseFrom numTokens rest (pos + blank.length) p := by
  induction blank generalizing pos with
  | nil => rfl
  | cons c blank ih =>
    rw [List.cons_append, parseFrom_blank (h c List.mem_cons_self),
      ih (fun d hd => h d (List.mem_cons_of_mem c hd)), List.length_cons]
    congr 1
    omega

theorem parseFrom_open (hc : c = leftBrace ∨ c = leftBracket) (hroom : p.tokens.length < numTokens)
    (hopen : openContainer p (if c = leftBrace then .object else .array) pos = .ok p') :
    parseFrom numTokens (c :: rest) pos p = parseFrom numTokens rest (pos + 1) p' := by
  have hzero : c ≠ 0 := by
    rcases hc with rfl | rfl <;> decide
  rw [parseFrom_cons, round, if_neg hzero, if_pos hc, if_neg (not_le.mpr hroom), hopen, ok_bind]

theorem parseFrom_close (hc : c = rightBrace ∨ c = rightBracket)
    (hclose : closeContainer p (if c = rightBrace then .object else .array) pos = .ok (some p')) :
    parseFrom numTokens (c :: rest) pos p = parseFrom numTokens rest (pos + 1) p' := by
  have hzero : c ≠ 0 := by
    rcases hc with rfl | rfl <;> decide
  have hopen : ¬ (c = leftBrace ∨ c = leftBracket) := by
    rcases hc with rfl | rfl <;> decide
  rw [parseFrom_cons, round, if_neg hzero, if_neg hopen, if_pos hc, hclose, ok_bind]

theorem parseFrom_string (hlength : stringLength rest = some n)
    (hroom : p.tokens.length < numTokens)
    (hpush : pushValue p ⟨.string, pos + 1, pos + 1 + n, 0⟩ = .ok p') :
    parseFrom numTokens (quote :: rest) pos p =
      parseFrom numTokens (rest.drop (n + 1)) (pos + n + 2) p' := by
  rw [parseFrom_cons, round, if_neg (by decide), if_neg (by decide), if_neg (by decide), if_pos rfl,
    hlength]
  simp only [not_le.mpr hroom, ↓reduceIte, hpush, ok_bind]

theorem parseFrom_colon : parseFrom numTokens (colon :: rest) pos p =
    parseFrom numTokens rest (pos + 1) { p with toksuper := p.tokens.length - 1 } := by
  rw [parseFrom_cons, round, if_neg (by decide), if_neg (by decide), if_neg (by decide),
    if_neg (by decide), if_neg (by decide), if_pos rfl]

theorem parseFrom_comma (hnext : nextMember p = .ok p') :
    parseFrom numTokens (comma :: rest) pos p = parseFrom numTokens rest (pos + 1) p' := by
  rw [parseFrom_cons, round, if_neg (by decide), if_neg (by decide), if_neg (by decide),
    if_neg (by decide), if_neg (by decide), if_neg (by decide), if_pos rfl, hnext, ok_bind]

/-- The characters that begin none of the other rules. -/
def beginsPrimitive (c : Byte) : Bool :=
  !(c == 0 || c == leftBrace || c == leftBracket || c == rightBrace || c == rightBracket ||
    c == quote || isBlank c || c == colon || c == comma)

theorem beginsPrimitive_spec (hc : beginsPrimitive c) : c ≠ 0 ∧ endsPrimitive c = false := by
  simp only [beginsPrimitive, Bool.not_eq_true', Bool.or_eq_false_iff, beq_eq_false_iff_ne] at hc
  obtain ⟨⟨⟨⟨⟨⟨⟨⟨hzero, -⟩, -⟩, hobject⟩, harray⟩, -⟩, hblank⟩, -⟩, hcomma⟩ := hc
  simp only [endsPrimitive, Bool.or_eq_false_iff, beq_eq_false_iff_ne]
  exact ⟨hzero, ⟨⟨hblank, hcomma⟩, harray⟩, hobject⟩

theorem parseFrom_primitive (hc : beginsPrimitive c) (hlength : primitiveLength (c :: rest) = some n)
    (hroom : p.tokens.length < numTokens)
    (hpush : pushValue p ⟨.primitive, pos, pos + n, 0⟩ = .ok p') :
    parseFrom numTokens (c :: rest) pos p =
      parseFrom numTokens ((c :: rest).drop n) (pos + n) p' := by
  simp only [beginsPrimitive, Bool.not_eq_true', Bool.or_eq_false_iff, beq_eq_false_iff_ne] at hc
  obtain ⟨⟨⟨⟨⟨⟨⟨⟨hzero, hobject⟩, harray⟩, hobject'⟩, harray'⟩, hquote⟩, hblank⟩, hcolon⟩, hcomma⟩ := hc
  rw [parseFrom_cons, round, if_neg hzero, if_neg (not_or.mpr ⟨hobject, harray⟩),
    if_neg (not_or.mpr ⟨hobject', harray'⟩), if_neg hquote, if_neg (by rw [hblank]; decide),
    if_neg hcolon, if_neg hcomma, hlength]
  simp only [not_le.mpr hroom, ↓reduceIte, hpush, ok_bind]

end

end IoTRepublic.JsmnSteps
