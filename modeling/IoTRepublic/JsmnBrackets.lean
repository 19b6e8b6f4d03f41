import IoTRepublic.JsmnRounds
import IoTRepublic.Foundation.BracketText

/-!
Which texts the tokenizer accepts. The types of its open tokens are a stack of
brackets, and its superior token is missing exactly where a comma is not
allowed, so from any place on it accepts the rest of a text if and only if the
brackets, the quotes and the words of the rest are in order. A token that was
made stays where it is, and one that was open ends later.
-/
namespace IoTRepublic.JsmnBrackets

open CheckedArray Package Jsmn JsmnTokens JsmnSteps JsmnRounds BracketText

/-- The open tokens as brackets, the innermost first. -/
def stackOf (tokens : List Token) : List Bool :=
  ((tokens.filter Token.isOpen).map fun t => t.type == .object).reverse

def stateOf (p : Parser) : State := ⟨stackOf p.tokens, decide (p.toksuper = -1), .between⟩

/-- What holds of the parser once it has read a bracket. -/
structure Ready (p : Parser) : Prop where
  super : p.toksuper = -1 ∨ ∃ (i : ℕ) (t : Token), p.toksuper = i ∧ p.tokens[i]? = some t
  kinds : ∀ t ∈ p.tokens, t.isOpen → t.isContainer
  ne_nil : p.tokens ≠ []
  count : 0 ≤ p.count

section

variable {tokens tokens' front behind : List Token} {t : Token}

theorem stackOf_bare (tokens : List Token) : stackOf (tokens.map bare) = stackOf tokens := by
  unfold stackOf
  rw [List.filter_map, List.map_map]
  rfl

theorem stackOf_congr (h : tokens'.map bare = tokens.map bare) :
    stackOf tokens' = stackOf tokens := by
  rw [← stackOf_bare, h, stackOf_bare]

theorem stackOf_closed (hbehind : ∀ u ∈ behind, u.isOpen = false) :
    stackOf (front ++ behind) = stackOf front := by
  have hnone : behind.filter Token.isOpen = [] :=
    List.filter_eq_nil_iff.mpr (fun u hu => by rw [hbehind u hu]; decide)
  rw [stackOf, List.filter_append, hnone, List.append_nil]
  rfl

theorem stackOf_open (ht : t.isOpen) (hbehind : ∀ u ∈ behind, u.isOpen = false) :
    stackOf (front ++ t :: behind) = (t.type == .object) :: stackOf front := by
  have hsplit : front ++ t :: behind = (front ++ [t]) ++ behind := by simp
  rw [hsplit, stackOf_closed hbehind, stackOf, List.filter_append, List.filter_cons_of_pos ht,
    List.map_append, List.reverse_append]
  rfl

theorem stackOf_eq_nil_iff : stackOf tokens = [] ↔ ∀ t ∈ tokens, t.isOpen = false := by
  rw [stackOf, List.reverse_eq_nil_iff, List.map_eq_nil_iff, List.filter_eq_nil_iff]
  simp only [Bool.not_eq_true]

/-- The superior token behind a closing bracket is missing if nothing is open. -/
theorem superOf_spec (front : List Token) :
    decide (superOf front = -1) = (stackOf front).isEmpty ∧
      (superOf front = -1 ∨ ∃ (i : ℕ) (t : Token), superOf front = i ∧ front[i]? = some t) := by
  unfold superOf
  rcases exists_last_open front with hclosed | ⟨ahead, t, behind, rfl, ht, hbehind⟩
  · rw [lastToken_closed hclosed, stackOf_eq_nil_iff.mpr hclosed]
    exact ⟨rfl, .inl rfl⟩
  · rw [lastToken_open ahead ht hbehind, stackOf_open ht hbehind]
    refine ⟨decide_eq_false ?_, .inr ⟨ahead.length, t, rfl, by simp⟩⟩
    dsimp only
    omega

end

section

variable {numTokens pos pos' : ℕ} {text text' : List Byte} {p p' : Parser} {t : Token}

theorem Ready.countInSuper (h : Ready p) : ∃ tokens, countInSuper p = .ok tokens := by
  unfold Jsmn.countInSuper
  rcases h.super with hnone | ⟨i, t, hi, ht⟩
  · rw [if_pos hnone]
    exact ⟨_, rfl⟩
  · have hlt := (List.getElem?_eq_some_iff.mp ht).1
    rw [if_neg (by omega), hi, readAt_natCast _ _ _ ht, ok_bind, writeAt_natCast _ _ _ hlt]
    exact ⟨_, rfl⟩

/-- A parser whose tokens are those of another one, and more behind them. -/
theorem Ready.grow (h : Ready p) {tokens : List Token} {count : ℤ}
    (hsame : tokens.map bare = p.tokens.map bare ++ [bare t])
    (hkind : t.isOpen → t.isContainer) (hcount : 0 ≤ count) {toksuper : ℤ}
    (hsuper : toksuper = p.toksuper ∨ toksuper = (p.tokens.length : ℕ)) :
    Ready ⟨tokens, toksuper, count⟩ := by
  have hlength : tokens.length = p.tokens.length + 1 := by
    have hlengths := congrArg List.length hsame
    simpa using hlengths
  have hvalid : ∀ i, i < p.tokens.length + 1 → ∃ u, tokens[i]? = some u :=
    fun i hi => ⟨_, List.getElem?_eq_getElem (by omega)⟩
  refine ⟨?_, ?_, List.ne_nil_of_length_pos (by dsimp only; omega), hcount⟩
  · rcases hsuper with rfl | rfl
    · rcases h.super with hnone | ⟨i, u, hi, hu⟩
      · exact .inl hnone
      · obtain ⟨v, hv⟩ := hvalid i (by
          have hlt := (List.getElem?_eq_some_iff.mp hu).1
          omega)
        exact .inr ⟨i, v, hi, hv⟩
    · obtain ⟨v, hv⟩ := hvalid p.tokens.length (Nat.lt_succ_self _)
      exact .inr ⟨_, v, rfl, hv⟩
  · intro u hu hopen
    have hmem : bare u ∈ p.tokens.map bare ++ [bare t] := by
      rw [← hsame]
      exact List.mem_map_of_mem hu
    rcases List.mem_append.mp hmem with hmem | hmem
    · obtain ⟨v, hv, heq⟩ := List.mem_map.mp hmem
      rw [← bare_isContainer, ← heq, bare_isContainer]
      apply h.kinds v hv
      rw [← bare_isOpen, heq, bare_isOpen]
      exact hopen
    · have heq := List.mem_singleton.mp hmem
      rw [← bare_isContainer, heq, bare_isContainer]
      apply hkind
      rw [← bare_isOpen, ← heq, bare_isOpen]
      exact hopen

theorem Ready.withSuper (h : Ready p) {i : ℕ} (ht : p.tokens[i]? = some t) :
    Ready { p with toksuper := i } := ⟨.inr ⟨i, t, rfl, ht⟩, h.kinds, h.ne_nil, h.count⟩

theorem Ready.last (h : Ready p) : ∃ (i : ℕ) (t : Token),
    (p.tokens.length : ℤ) - 1 = i ∧ p.tokens[i]? = some t := by
  have hpos := List.length_pos_iff.mpr h.ne_nil
  exact ⟨p.tokens.length - 1, _, by omega, List.getElem?_eq_getElem (by omega)⟩

/-- A round keeps the parser ready. -/
theorem Ready.round (h : Ready p) (hround : Round numTokens text pos p text' pos' p') :
    Ready p' := by
  have hpush : ∀ t : Token, t.isOpen = false → pushValue p t = .ok p' → Ready p' := by
    intro t hclosed hpush
    obtain ⟨tokens, hcount, hpush⟩ := bind_eq_ok.mp hpush
    obtain rfl := Except.ok.inj hpush
    have hnonneg := h.count
    refine h.grow (t := t) ?_ (by simp [hclosed]) (by omega) (.inl rfl)
    rw [List.map_append, countInSuper_bare hcount, List.map_singleton]
  cases hround with
  | @opening c _ _ _ _ hc hroom hopen =>
    obtain ⟨tokens, hcount, hopen⟩ := bind_eq_ok.mp hopen
    obtain rfl := Except.ok.inj hopen
    have hnonneg := h.count
    refine h.grow (t := ⟨if c = leftBrace then .object else .array, pos, -1, 0⟩) ?_ (fun _ => ?_)
      (by omega) (.inr rfl)
    · rw [List.map_append, countInSuper_bare hcount, List.map_singleton]
    · by_cases hc : c = leftBrace
      · rw [if_pos hc]
        rfl
      · rw [if_neg hc]
        rfl
  | closing hc hclose =>
    obtain ⟨front, t, behind, htokens, ht, -, hbehind, rfl⟩ := closeContainer_eq_some hclose
    refine ⟨?_, ?_, by simp, h.count⟩
    · rcases (superOf_spec front).2 with hnone | ⟨i, u, hi, hu⟩
      · exact .inl hnone
      · refine .inr ⟨i, u, hi, ?_⟩
        dsimp only
        rw [List.getElem?_append_left (List.getElem?_eq_some_iff.mp hu).1]
        exact hu
    · intro u hu hopen
      rcases List.mem_append.mp hu with hu | hu
      · exact h.kinds u (by rw [htokens]; exact List.mem_append_left _ hu) hopen
      · rcases List.mem_cons.mp hu with rfl | hu
        · have hcontainer := h.kinds t (by rw [htokens]; simp) ht
          exact hcontainer
        · rw [hbehind u hu] at hopen
          cases hopen
  | string hlength hroom hpushed => exact hpush _ (isOpen_eq_false (by dsimp only; omega)) hpushed
  | blank hc => exact h
  | colon =>
    obtain ⟨i, t, hi, ht⟩ := h.last
    rw [hi]
    exact h.withSuper ht
  | comma hnext =>
    rcases (nextMember_eq_ok hnext).2 with rfl | ⟨i, t, ht, rfl⟩
    · exact h
    · exact h.withSuper ht
  | primitive hc hlength hroom hpushed =>
    exact hpush _ (isOpen_eq_false (by dsimp only; omega)) hpushed

end

section

variable {rest text : List Byte} {n : ℕ} {stack : List Bool} {loose : Bool}

/-- A string is read up to its closing quote. -/
theorem finishes_string (h : stringLength rest = some n) :
    Finishes ⟨stack, loose, .quoted⟩ rest ↔
      Finishes ⟨stack, loose, .between⟩ (rest.drop (n + 1)) := by
  fun_induction stringLength rest generalizing n with
  | case1 => cases h
  | case2 =>
    obtain rfl := Option.some.inj h
    exact finishes_step rfl
  | case3 => cases h
  | case4 => cases h
  | case5 =>
    obtain rfl := Option.some.inj h
    exact finishes_step rfl
  | case6 d rest _ _ ih =>
    obtain ⟨m, hm, rfl⟩ := Option.map_eq_some_iff.mp h
    have hskip : Finishes ⟨stack, loose, .quoted⟩ (backslash :: d :: rest) ↔
        Finishes ⟨stack, loose, .quoted⟩ rest := (finishes_step rfl).trans (finishes_step rfl)
    rw [hskip, ih hm, Nat.add_right_comm, List.drop_succ_cons, List.drop_succ_cons]
  | case7 c d rest hzero hquote hback ih =>
    obtain ⟨m, hm, rfl⟩ := Option.map_eq_some_iff.mp h
    have hstep : step ⟨stack, loose, .quoted⟩ c = some ⟨stack, loose, .quoted⟩ := by
      simp only [step]
      rw [if_neg hquote, if_neg hback]
    rw [finishes_step hstep, ih hm]
    rfl

/-- A string without a closing quote does not finish. -/
theorem not_finishes_string (h : stringLength rest = none) (hnul : (0 : Byte) ∉ rest) :
    ¬ Finishes ⟨stack, loose, .quoted⟩ rest := by
  have hopen : ∀ mode, mode = .quoted ∨ mode = .escaped →
      ¬ Finishes ⟨stack, loose, mode⟩ [] := by
    rintro mode (rfl | rfl) hfinishes
    · rcases (finishes_nil.mp hfinishes).2 with hmode | hmode <;> cases hmode
    · rcases (finishes_nil.mp hfinishes).2 with hmode | hmode <;> cases hmode
  fun_induction stringLength rest with
  | case1 => exact hopen .quoted (.inl rfl)
  | case2 => cases h
  | case3 c hquote =>
    by_cases hback : c = backslash
    · subst hback
      have hescape : Finishes ⟨stack, loose, .quoted⟩ [backslash] ↔
          Finishes ⟨stack, loose, .escaped⟩ [] := finishes_step rfl
      exact fun hfinishes => hopen .escaped (.inr rfl) (hescape.mp hfinishes)
    · have hstep : step ⟨stack, loose, .quoted⟩ c = some ⟨stack, loose, .quoted⟩ := by
        simp only [step]
        rw [if_neg hquote, if_neg hback]
      rw [finishes_step hstep]
      exact hopen .quoted (.inl rfl)
  | case4 => exact absurd List.mem_cons_self hnul
  | case5 => cases h
  | case6 d rest _ _ ih =>
    have hnone : stringLength rest = none := by simpa using h
    have hskip : Finishes ⟨stack, loose, .quoted⟩ (backslash :: d :: rest) ↔
        Finishes ⟨stack, loose, .quoted⟩ rest := (finishes_step rfl).trans (finishes_step rfl)
    rw [hskip]
    apply ih hnone
    intro hmem
    exact hnul (by simp [hmem])
  | case7 c d rest hzero hquote hback ih =>
    have hnone : stringLength (d :: rest) = none := by simpa using h
    have hstep : step ⟨stack, loose, .quoted⟩ c = some ⟨stack, loose, .quoted⟩ := by
      simp only [step]
      rw [if_neg hquote, if_neg hback]
    rw [finishes_step hstep]
    apply ih hnone
    intro hmem
    exact hnul (List.mem_cons_of_mem c hmem)

theorem isPrintable_iff {c : Byte} : isPrintable c ↔ ¬ (c < 32 ∨ c ≥ 127) := by
  simp only [isPrintable, Bool.and_eq_true, decide_eq_true_eq, UInt8.le_iff_toNat_le,
    UInt8.lt_iff_toNat_lt, ge_iff_le]
  omega

/-- A word is read up to the character that ends it. -/
theorem finishes_primitive (h : primitiveLength text = some n) (hnul : (0 : Byte) ∉ text) :
    Finishes ⟨stack, loose, .word⟩ text ↔
      Finishes ⟨stack, loose, .between⟩ (text.drop n) := by
  induction text generalizing n with
  | nil =>
    rw [List.drop_nil]
    exact finishes_word (by simp)
  | cons c text ih =>
    have hzero : c ≠ 0 := by
      rintro rfl
      exact hnul List.mem_cons_self
    rw [primitiveLength] at h
    split at h
    · rename_i hends
      obtain rfl := Option.some.inj h
      apply finishes_word
      intro d hd
      obtain rfl := Option.some.inj hd
      exact hends.resolve_left hzero
    · rename_i hends
      split at h
      · cases h
      · rename_i hprint
        obtain ⟨m, hm, rfl⟩ := Option.map_eq_some_iff.mp h
        have hstep : step ⟨stack, loose, .word⟩ c = some ⟨stack, loose, .word⟩ := by
          have hnot : BracketText.endsWord c = false :=
            Bool.eq_false_iff.mpr (fun htrue => hends (.inr htrue))
          simp only [step]
          rw [hnot, if_neg (by decide), if_pos (isPrintable_iff.mpr hprint)]
        rw [finishes_step hstep, List.drop_succ_cons]
        exact ih hm (fun hmem => hnul (List.mem_cons_of_mem c hmem))

theorem not_finishes_primitive (h : primitiveLength text = none) :
    ¬ Finishes ⟨stack, loose, .word⟩ text := by
  induction text with
  | nil => cases h
  | cons c text ih =>
    rw [primitiveLength] at h
    split at h
    · cases h
    · rename_i hends
      have hnot : BracketText.endsWord c = false :=
        Bool.eq_false_iff.mpr (fun htrue => hends (.inr htrue))
      by_cases hprint : isPrintable c
      · have hstep : step ⟨stack, loose, .word⟩ c = some ⟨stack, loose, .word⟩ := by
          simp only [step]
          rw [hnot, if_neg (by decide), if_pos hprint]
        rw [if_neg (isPrintable_iff.mp hprint), Option.map_eq_none_iff] at h
        rw [finishes_step hstep]
        exact ih h
      · apply not_finishes_step
        simp only [step]
        rw [hnot, if_neg (by decide), if_neg hprint]

end

section

variable {numTokens pos pos' : ℕ} {text text' : List Byte} {p p' : Parser}

theorem stepBetween_super {c : Byte} {state : State} (h : state.mode = .between) :
    step state c = stepBetween state c := by
  rw [step.eq_def, h]

theorem stepBetween_word {c : Byte} {state : State} (hc : beginsPrimitive c) :
    stepBetween state c =
      if isPrintable c then some { state with mode := .word } else none := by
  simp only [beginsPrimitive, Bool.not_eq_true', Bool.or_eq_false_iff, beq_eq_false_iff_ne] at hc
  obtain ⟨⟨⟨⟨⟨⟨⟨⟨hzero, hobject⟩, harray⟩, hobject'⟩, harray'⟩, hquote⟩, hblank⟩, hcolon⟩,
    hcomma⟩ := hc
  have hblank' : isBlank c = false := hblank
  rw [stepBetween, if_neg (not_or.mpr ⟨hobject, harray⟩), if_neg (not_or.mpr ⟨hobject', harray'⟩),
    if_neg hquote, hblank', if_neg (by decide), if_neg hcolon, if_neg hcomma]

/-- A round reads what the brackets allow. -/
theorem Ready.finishes_iff (h : Ready p) (hround : Round numTokens text pos p text' pos' p')
    (hnul : (0 : Byte) ∉ text) : Finishes (stateOf p) text ↔ Finishes (stateOf p') text' := by
  have hpush : ∀ t : Token, t.isOpen = false → pushValue p t = .ok p' →
      stateOf p' = stateOf p := by
    intro t hclosed hpush
    obtain ⟨tokens, hcount, hpush⟩ := bind_eq_ok.mp hpush
    obtain rfl := Except.ok.inj hpush
    have hstack : stackOf (tokens ++ [t]) = stackOf p.tokens := by
      rw [stackOf_closed (by simpa using hclosed), stackOf_congr (countInSuper_bare hcount)]
    simp only [stateOf, hstack]
  cases hround with
  | @opening c _ _ _ _ hc hroom hopen =>
    obtain ⟨tokens, hcount, hopen⟩ := bind_eq_ok.mp hopen
    obtain rfl := Except.ok.inj hopen
    have hstack : ∀ type, stackOf (tokens ++ [⟨type, pos, -1, 0⟩]) =
        (type == .object) :: stackOf p.tokens := by
      intro type
      have hopen : Token.isOpen ⟨type, pos, -1, 0⟩ := by
        have hpos : (pos : ℤ) ≠ -1 := by omega
        simp [Token.isOpen, hpos]
      rw [stackOf_open hopen (by simp), stackOf_congr (countInSuper_bare hcount)]
    have hnext : stateOf ⟨tokens ++ [⟨if c = leftBrace then .object else .array, pos, -1, 0⟩],
        p.tokens.length, p.count + 1⟩ = ⟨(c == 123) :: stackOf p.tokens, false, .between⟩ := by
      have hsuper : ¬ (p.tokens.length : ℤ) = -1 := by omega
      simp only [stateOf, hstack, hsuper, decide_false]
      rcases hc with rfl | rfl <;> rfl
    rw [hnext]
    apply finishes_step
    rw [stepBetween_super rfl, stepBetween, if_pos hc]
    rfl
  | @closing c _ _ _ _ hc hclose =>
    obtain ⟨front, t, behind, htokens, ht, htype, hbehind, rfl⟩ := closeContainer_eq_some hclose
    have hclosed : Token.isOpen { t with stop := pos + 1 } = false :=
      isOpen_eq_false (by dsimp only; omega)
    have hstack : stackOf (front ++ { t with stop := (pos : ℤ) + 1 } :: behind) = stackOf front := by
      apply stackOf_closed
      intro u hu
      rcases List.mem_cons.mp hu with rfl | hu
      · exact hclosed
      · exact hbehind u hu
    have hnext : stateOf ⟨front ++ { t with stop := pos + 1 } :: behind, superOf front, p.count⟩ =
        ⟨stackOf front, (stackOf front).isEmpty, .between⟩ := by
      simp only [stateOf, hstack, (superOf_spec front).1]
    rw [hnext]
    apply finishes_step
    have hbrace : (t.type == .object) = (c == 125) := by
      rw [htype]
      rcases hc with rfl | rfl <;> rfl
    have hopens : ¬ (c = 123 ∨ c = 91) := by
      rcases hc with rfl | rfl <;> decide
    rw [stepBetween_super rfl, stepBetween, if_neg hopens, if_pos hc, stateOf, htokens,
      stackOf_open ht hbehind]
    dsimp only
    rw [if_pos hbrace]
  | @string rest _ _ _ _ hlength hroom hpushed =>
    have hclosed := hpush _ (isOpen_eq_false (by dsimp only; omega)) hpushed
    have hquote : Finishes (stateOf p) (quote :: rest) ↔
        Finishes { stateOf p with mode := .quoted } rest := finishes_step rfl
    rw [hclosed, hquote]
    exact finishes_string hlength
  | @blank c _ _ _ hc =>
    have hc' : isBlank c := hc
    have hne : ∀ d, isBlank d = false → c ≠ d := by
      rintro d hd rfl
      rw [hc'] at hd
      cases hd
    have hblank : stepBetween (stateOf p) c = some (stateOf p) := by
      rw [stepBetween, if_neg (not_or.mpr ⟨hne 123 rfl, hne 91 rfl⟩),
        if_neg (not_or.mpr ⟨hne 125 rfl, hne 93 rfl⟩), if_neg (hne 34 rfl), if_pos hc']
      rfl
    exact finishes_step ((stepBetween_super rfl).trans hblank)
  | colon =>
    have hpos := List.length_pos_iff.mpr h.ne_nil
    have hsuper : ¬ (p.tokens.length : ℤ) - 1 = -1 := by omega
    have hnext : stateOf { p with toksuper := p.tokens.length - 1 } =
        ⟨stackOf p.tokens, false, .between⟩ := by
      simp only [stateOf, hsuper, decide_false]
    rw [hnext]
    exact finishes_step rfl
  | comma hnext =>
    obtain ⟨hsuper, hnext⟩ := nextMember_eq_ok hnext
    have hsame : stateOf p' = stateOf p := by
      rcases hnext with rfl | ⟨i, t, -, rfl⟩
      · rfl
      · have hindex : ¬ (i : ℤ) = -1 := by omega
        simp only [stateOf, hsuper, hindex]
    rw [hsame]
    apply finishes_step
    have hcomma : step (stateOf p) comma =
        if (stateOf p).loose then none else some (stateOf p) := rfl
    rw [hcomma, if_neg]
    simpa [stateOf] using hsuper
  | @primitive c rest _ n _ _ hc hlength hroom hpushed =>
    have hclosed := hpush _ (isOpen_eq_false (by dsimp only; omega)) hpushed
    obtain ⟨hzero, hends⟩ := beginsPrimitive_spec hc
    rw [primitiveLength, if_neg (by simp [hzero, hends])] at hlength
    split at hlength
    · cases hlength
    rename_i hprint
    obtain ⟨m, hm, rfl⟩ := Option.map_eq_some_iff.mp hlength
    have hword : stepBetween (stateOf p) c = some { stateOf p with mode := .word } := by
      rw [stepBetween_word hc, if_pos (isPrintable_iff.mpr hprint)]
    rw [hclosed, finishes_step ((stepBetween_super rfl).trans hword), List.drop_succ_cons]
    exact finishes_primitive hm (fun hmem => hnul (List.mem_cons_of_mem c hmem))

/-- Where the brackets are in order, a round can be made. -/
theorem Ready.exists_round (h : Ready p) {c : Byte} {rest : List Byte}
    (hnul : (0 : Byte) ∉ c :: rest) (hroom : p.tokens.length < numTokens)
    (hfinishes : Finishes (stateOf p) (c :: rest)) :
    ∃ text' pos' p', Round numTokens (c :: rest) pos p text' pos' p' := by
  obtain ⟨tokens, hcount⟩ := h.countInSuper
  have hpush : ∀ t, ∃ p', pushValue p t = .ok p' := by
    intro t
    exact ⟨_, bind_eq_ok.mpr ⟨tokens, hcount, rfl⟩⟩
  by_cases hopens : c = leftBrace ∨ c = leftBracket
  · exact ⟨_, _, _, .opening hopens hroom (bind_eq_ok.mpr ⟨tokens, hcount, rfl⟩)⟩
  by_cases hcloses : c = rightBrace ∨ c = rightBracket
  · obtain ⟨s', hstep, -⟩ := finishes_cons.mp hfinishes
    rw [stepBetween_super rfl, stepBetween, if_neg hopens, if_pos hcloses] at hstep
    obtain ⟨tokens, toksuper, count⟩ := p
    rcases exists_last_open tokens with hclosed | ⟨front, t, behind, rfl, ht, hbehind⟩
    · simp only [stateOf, stackOf_eq_nil_iff.mpr hclosed] at hstep
      cases hstep
    simp only [stateOf, stackOf_open ht hbehind] at hstep
    split at hstep
    · rename_i hbrace
      have htype : (if c = rightBrace then TokenType.object else .array) = t.type := by
        have hcontainer := h.kinds t (by simp) ht
        rcases hcloses with rfl | rfl
        · exact (eq_of_beq hbrace).symm
        · have hne : ¬ t.type = .object := by
            intro heq
            rw [heq] at hbrace
            cases hbrace
          simp only [Token.isContainer, Bool.or_eq_true, beq_iff_eq] at hcontainer
          exact (hcontainer.resolve_right hne).symm
      have hclose := closeContainer_closed front behind t toksuper count pos ht hbehind
      rw [← htype] at hclose
      exact ⟨_, _, _, .closing hcloses hclose⟩
    · cases hstep
  by_cases hquote : c = quote
  · subst hquote
    cases hlength : stringLength rest with
    | none =>
      have hquoted : Finishes (stateOf p) (quote :: rest) ↔
          Finishes { stateOf p with mode := .quoted } rest := finishes_step rfl
      exact absurd (hquoted.mp hfinishes)
        (not_finishes_string hlength (fun hmem => hnul (List.mem_cons_of_mem _ hmem)))
    | some n =>
      obtain ⟨p', hp'⟩ := hpush ⟨.string, pos + 1, pos + 1 + n, 0⟩
      exact ⟨_, _, _, .string hlength hroom hp'⟩
  by_cases hblank : isBlank c
  · exact ⟨_, _, _, .blank hblank⟩
  by_cases hcolon : c = colon
  · subst hcolon
    exact ⟨_, _, _, .colon⟩
  by_cases hcomma : c = comma
  · subst hcomma
    have hsuper : p.toksuper ≠ -1 := by
      intro hnone
      refine not_finishes_step ?_ hfinishes
      have hcomma : step (stateOf p) comma =
          if (stateOf p).loose then none else some (stateOf p) := rfl
      rw [hcomma, if_pos]
      simpa [stateOf] using hnone
    obtain ⟨i, t, hi, ht⟩ := h.super.resolve_left hsuper
    have hread := readAt_natCast p.tokens i t ht
    have hnext : ∃ p', nextMember p = .ok p' := by
      rw [nextMember, hi, hread, ok_bind]
      split_ifs
      · exact ⟨_, rfl⟩
      · split
        · exact ⟨_, rfl⟩
        · exact ⟨_, rfl⟩
    obtain ⟨p', hp'⟩ := hnext
    exact ⟨_, _, _, .comma hp'⟩
  have hzero : c ≠ 0 := by
    rintro rfl
    exact hnul List.mem_cons_self
  have hbegins : beginsPrimitive c := by
    simp only [not_or] at hopens hcloses
    simp [beginsPrimitive, hzero, hopens.1, hopens.2, hcloses.1, hcloses.2, hquote, hblank,
      hcolon, hcomma]
  cases hlength : primitiveLength (c :: rest) with
  | some n =>
    obtain ⟨p', hp'⟩ := hpush ⟨.primitive, pos, pos + n, 0⟩
    exact ⟨_, _, _, .primitive hbegins hlength hroom hp'⟩
  | none =>
    exfalso
    have hstep : stepBetween (stateOf p) c =
        if isPrintable c then some { stateOf p with mode := .word } else none :=
      stepBetween_word hbegins
    have hends := (beginsPrimitive_spec hbegins).2
    rw [primitiveLength, if_neg (by simp [hzero, hends])] at hlength
    split_ifs at hlength with hprint
    · rw [if_neg (fun hyes => isPrintable_iff.mp hyes hprint)] at hstep
      exact not_finishes_step ((stepBetween_super rfl).trans hstep) hfinishes
    · rw [if_pos (isPrintable_iff.mpr hprint)] at hstep
      rw [finishes_step ((stepBetween_super rfl).trans hstep)] at hfinishes
      exact not_finishes_primitive (Option.map_eq_none_iff.mp hlength) hfinishes

/-- An accepted text brings the brackets, the quotes and the words to an end. -/
theorem Ready.finishes (h : Ready p) (hnul : (0 : Byte) ∉ text) {n : ℤ} {tokens : List Token}
    (hparse : parseFrom numTokens text pos p = .ok (n, tokens)) (hn : 0 ≤ n) :
    Finishes (stateOf p) text := by
  refine parseFrom_induction
    (motive := fun text _ p => Ready p → (0 : Byte) ∉ text → Finishes (stateOf p) text)
    ?_ ?_ hparse hn h hnul
  · intro text pos p hend hfinish hready hnul
    obtain rfl : text = [] := by
      cases text with
      | nil => rfl
      | cons c text =>
        rw [hend c rfl] at hnul
        exact absurd List.mem_cons_self hnul
    obtain ⟨rfl, hclosed⟩ := finish_eq hfinish hn
    exact finishes_nil.mpr ⟨stackOf_eq_nil_iff.mpr hclosed, .inl rfl⟩
  · intro text pos p text' pos' p' hround _ ih hready hnul
    rw [hready.finishes_iff hround hnul]
    apply ih (hready.round hround)
    obtain ⟨k, -, -, rfl, -⟩ := hround.advance
    exact fun hmem => hnul (List.mem_of_mem_drop hmem)

/-- With room for its tokens, a text is accepted exactly when it brings them to an end. -/
theorem Ready.accepted_iff (h : Ready p) (hnul : (0 : Byte) ∉ text)
    (hroom : p.tokens.length + text.length ≤ numTokens) :
    (∃ n tokens, 0 ≤ n ∧ parseFrom numTokens text pos p = .ok (n, tokens)) ↔
      Finishes (stateOf p) text := by
  constructor
  · rintro ⟨n, tokens, hn, hparse⟩
    exact h.finishes hnul hparse hn
  · intro hfinishes
    induction hlength : text.length using Nat.strong_induction_on generalizing text pos p with
    | _ length ih =>
      cases text with
      | nil =>
        have hclosed := stackOf_eq_nil_iff.mp (finishes_nil.mp hfinishes).1
        exact ⟨p.count, p.tokens, h.count, by rw [parseFrom_nil, finish_closed p hclosed]⟩
      | cons c rest =>
        rw [List.length_cons] at hroom hlength
        have hnext : ∃ text' pos' p', Round numTokens (c :: rest) pos p text' pos' p' :=
          h.exists_round hnul (by omega) hfinishes
        obtain ⟨text', pos', p', hround⟩ := hnext
        obtain ⟨k, hk, -, htext, -⟩ := hround.advance
        have hshort : text'.length + k = rest.length + 1 ∨ text'.length = 0 := by
          rw [htext, List.length_drop, List.length_cons]
          omega
        have hfew := hround.tokens_le
        rw [hround.parseFrom_eq]
        rw [h.finishes_iff hround hnul] at hfinishes
        have hnul' : (0 : Byte) ∉ text' := by
          rw [htext]
          exact fun hmem => hnul (List.mem_of_mem_drop hmem)
        have hroom' : p'.tokens.length + text'.length ≤ numTokens := by omega
        exact ih text'.length (by omega) (h.round hround) hnul' hroom' hfinishes rfl

end

section

variable {numTokens pos : ℕ} {text : List Byte} {p : Parser} {n : ℤ} {tokens : List Token}

theorem mem_drop_ne {k : ℕ} (hnul : (0 : Byte) ∉ text) : (0 : Byte) ∉ text.drop k :=
  fun hmem => hnul (List.mem_of_mem_drop hmem)

/-- What the brackets in front of an open token still need stands behind its end. -/
theorem Ready.open_stop (h : Ready p) (hnul : (0 : Byte) ∉ text)
    (hparse : parseFrom numTokens text pos p = .ok (n, tokens)) (hn : 0 ≤ n)
    {front behind : List Token} {t : Token} (hsplit : p.tokens = front ++ t :: behind)
    (ht : t.isOpen) : ∃ t', tokens[front.length]? = some t' ∧
      t'.stop + (stackOf front).length ≤ pos + text.length := by
  refine parseFrom_induction (motive := fun text pos p => Ready p → (0 : Byte) ∉ text →
    ∀ (front behind : List Token) (t : Token), p.tokens = front ++ t :: behind → t.isOpen →
      ∃ t', tokens[front.length]? = some t' ∧
        t'.stop + (stackOf front).length ≤ (pos : ℤ) + text.length) ?_ ?_ hparse hn h hnul front
          behind t hsplit ht
  · intro text pos p _ hfinish _ _ front behind t hsplit ht
    obtain ⟨rfl, hclosed⟩ := finish_eq hfinish hn
    rw [hclosed t (by rw [hsplit]; simp)] at ht
    cases ht
  · intro text pos p text' pos' p' hround hparse ih hready hnul front behind t hsplit ht
    have hready' := hready.round hround
    have hfinishes : (stackOf p'.tokens).length ≤ text'.length := by
      obtain ⟨k, -, -, rfl, -⟩ := hround.advance
      exact (hready'.finishes (mem_drop_ne hnul) hparse hn).stack_le
    obtain ⟨k, hk, hle, rfl, rfl⟩ := hround.advance
    have hend : ((pos + k : ℕ) : ℤ) + (text.drop k).length = pos + text.length := by
      rw [List.length_drop]
      omega
    have ih' := ih hready' (mem_drop_ne hnul)
    rw [hend] at ih'
    have hgrown := (parseFrom_grown hparse hn).1
    have hchange := hround.change
    obtain ⟨tokens', toksuper', count'⟩ := p'
    dsimp only at ih' hgrown hchange
    cases hchange with
    | kept => exact ih' front behind t hsplit ht
    | made u hsame =>
      rw [hsplit, List.map_append, List.map_cons, List.append_assoc, List.cons_append] at hsame
      obtain ⟨front', rest', rfl, hfront, hrest⟩ := List.map_eq_append_iff.mp hsame
      obtain ⟨t', behind', rfl, hbare, -⟩ := List.map_eq_cons_iff.mp hrest
      have hlength : front'.length = front.length := by
        have hlengths := congrArg List.length hfront
        simpa using hlengths
      rw [← hlength, ← stackOf_congr hfront]
      apply ih' front' behind' t' rfl
      rw [← bare_isOpen, hbare, bare_isOpen]
      exact ht
    | closed front' behind' u hsplit' hopen hbehind hplace =>
      have hself : front' = front → t.isOpen → u = t → ∃ t', tokens[front.length]? = some t' ∧
          t'.stop + (stackOf front).length ≤ (pos : ℤ) + text.length := by
        rintro rfl _ rfl
        have hlast : ∀ v ∈ ({ u with stop := ((pos + k : ℕ) : ℤ) } : Token) :: behind',
            v.isOpen = false := by
          intro v hv
          rcases List.mem_cons.mp hv with rfl | hv
          · exact isOpen_eq_false (by dsimp only; omega)
          · exact hbehind v hv
        have hplace : (front' ++ { u with stop := ((pos + k : ℕ) : ℤ) } :: behind')[front'.length]? =
            some { u with stop := ((pos + k : ℕ) : ℤ) } := by simp
        obtain ⟨t', ht', -, -, hstop⟩ := hgrown _ _ hplace
        rw [stackOf_closed hlast] at hfinishes
        have hstop' : t'.stop = ((pos + k : ℕ) : ℤ) := by
          rcases hstop with hstop | ⟨hopen', -⟩
          · exact hstop
          · rw [hlast _ List.mem_cons_self] at hopen'
            cases hopen'
        exact ⟨t', ht', by omega⟩
      rw [hsplit] at hsplit'
      rcases List.append_eq_append_iff.mp hsplit' with ⟨mid, hmid, hrest⟩ | ⟨mid, hmid, hrest⟩
      · cases mid with
        | nil =>
          rw [List.append_nil] at hmid
          exact hself hmid ht (List.cons.inj hrest).1.symm
        | cons v mid =>
          obtain ⟨rfl, -⟩ := List.cons.inj hrest
          apply ih' front (mid ++ { u with stop := ((pos + k : ℕ) : ℤ) } :: behind') t
          · rw [hmid, List.append_assoc, List.cons_append]
          · exact ht
      · cases mid with
        | nil =>
          rw [List.append_nil] at hmid
          exact hself hmid.symm ht (List.cons.inj hrest).1
        | cons v mid =>
          -- what stands behind the closed token is closed
          obtain ⟨-, hrest⟩ := List.cons.inj hrest
          rw [hbehind t (by rw [hrest]; simp)] at ht
          cases ht

/-- The characters that begin no token. -/
def isGap (c : Byte) : Bool :=
  isBlank c || c == colon || c == comma || c == rightBrace || c == rightBracket

/-- Without another character no token is made. -/
theorem no_token (hgap : ∀ c ∈ text, isGap c)
    (hparse : parseFrom numTokens text pos p = .ok (n, tokens)) (hn : 0 ≤ n) :
    tokens.length = p.tokens.length := by
  refine parseFrom_induction (motive := fun text _ p => (∀ c ∈ text, isGap c) →
    tokens.length = p.tokens.length) ?_ ?_ hparse hn hgap
  · intro text pos p _ hfinish _
    rw [(finish_eq hfinish hn).1]
  · intro text pos p text' pos' p' hround _ ih hgap
    have hrest : tokens.length = p'.tokens.length := by
      apply ih
      obtain ⟨k, -, -, rfl, -⟩ := hround.advance
      exact fun c hc => hgap c (List.mem_of_mem_drop hc)
    rw [hrest]
    cases hround with
    | opening hc =>
      have hbad := hgap _ List.mem_cons_self
      rcases hc with rfl | rfl <;> cases hbad
    | closing hc hclose =>
      obtain ⟨front, t, behind, htokens, -, -, -, rfl⟩ := closeContainer_eq_some hclose
      rw [htokens]
      simp
    | string =>
      have hbad := hgap _ List.mem_cons_self
      cases hbad
    | blank => rfl
    | colon => rfl
    | comma hnext =>
      rcases (nextMember_eq_ok hnext).2 with rfl | ⟨i, t, -, rfl⟩ <;> rfl
    | primitive hc =>
      have hbad := hgap _ List.mem_cons_self
      simp only [beginsPrimitive, Bool.not_eq_true', Bool.or_eq_false_iff] at hc
      simp [isGap, hc] at hbad

/-- A token that was pushed keeps its place in the table, and the text behind it closes the
brackets in front of it. -/
theorem Ready.pushed_token (h : Ready p') (hnul : (0 : Byte) ∉ text)
    (hparse : parseFrom numTokens text pos p' = .ok (n, tokens)) (hn : 0 ≤ n) {t : Token}
    (hclosed : t.isOpen = false) (hpush : pushValue p t = .ok p') :
    ∃ t', tokens[p.tokens.length]? = some t' ∧ t'.start = t.start ∧ t'.stop = t.stop ∧
      (stackOf p.tokens).length ≤ text.length := by
  have hneeds := (h.finishes hnul hparse hn).stack_le
  obtain ⟨tokens', hcount, hpush⟩ := bind_eq_ok.mp hpush
  obtain rfl := Except.ok.inj hpush
  have hbare := countInSuper_bare hcount
  have hlength : tokens'.length = p.tokens.length := by
    have hlengths := congrArg List.length hbare
    simpa using hlengths
  have hplace : (tokens' ++ [t])[p.tokens.length]? = some t := by
    rw [← hlength]
    simp
  obtain ⟨t', ht', -, hstart, hstop⟩ := (parseFrom_grown hparse hn).1 _ _ hplace
  have hneeds' : (stackOf (tokens' ++ [t])).length ≤ text.length := hneeds
  rw [stackOf_closed (by simpa using hclosed), stackOf_congr hbare] at hneeds'
  rcases hstop with hstop | ⟨hopen, -⟩
  · exact ⟨t', ht', hstart, hstop, hneeds'⟩
  · rw [hclosed] at hopen
    cases hopen

/-- With another character a token is made, and the first one is no longer than the text that is
not needed to close the brackets. -/
theorem Ready.next_token (h : Ready p) (hnul : (0 : Byte) ∉ text)
    (htoken : ∃ c ∈ text, isGap c = false)
    (hparse : parseFrom numTokens text pos p = .ok (n, tokens)) (hn : 0 ≤ n) :
    ∃ t, tokens[p.tokens.length]? = some t ∧ (pos : ℤ) ≤ t.start ∧
      t.stop - t.start + (stackOf p.tokens).length ≤ text.length := by
  refine parseFrom_induction (motive := fun text pos p => Ready p → (0 : Byte) ∉ text →
    (∃ c ∈ text, isGap c = false) → ∃ t, tokens[p.tokens.length]? = some t ∧
      (pos : ℤ) ≤ t.start ∧ t.stop - t.start + (stackOf p.tokens).length ≤ text.length)
    ?_ ?_ hparse hn h hnul htoken
  · rintro text pos p hend hfinish - hnul ⟨c, hc, -⟩
    cases text with
    | nil => cases hc
    | cons d text =>
      rw [hend d rfl] at hnul
      exact absurd List.mem_cons_self hnul
  · intro text pos p text' pos' p' hround hparse ih hready hnul htoken
    have hready' := hready.round hround
    have hgrown := (parseFrom_grown hparse hn).1
    have hnul' : (0 : Byte) ∉ text' := by
      obtain ⟨k, -, -, rfl, -⟩ := hround.advance
      exact mem_drop_ne hnul
    have hskip : ∀ {c rest}, text = c :: rest → isGap c → ∃ d ∈ rest, isGap d = false := by
      rintro c rest rfl hgap
      obtain ⟨d, hd, hno⟩ := htoken
      rcases List.mem_cons.mp hd with rfl | hd
      · rw [hgap] at hno
        cases hno
      · exact ⟨d, hd, hno⟩
    cases hround with
    | @opening c _ _ _ _ hc hroom hopen =>
      obtain ⟨tokens', hcount, hopen⟩ := bind_eq_ok.mp hopen
      obtain rfl := Except.ok.inj hopen
      have hbare := countInSuper_bare hcount
      have hlength : tokens'.length = p.tokens.length := by
        have hlengths := congrArg List.length hbare
        simpa using hlengths
      have hnew : Token.isOpen ⟨if c = leftBrace then .object else .array, pos, -1, 0⟩ := by
        have hpos : (pos : ℤ) ≠ -1 := by omega
        simp [Token.isOpen, hpos]
      obtain ⟨t, ht, hstop⟩ := hready'.open_stop hnul' hparse hn rfl hnew
      have hplace : (tokens' ++ [(⟨if c = leftBrace then .object else .array, pos, -1, 0⟩ :
          Token)])[tokens'.length]? =
            some ⟨if c = leftBrace then .object else .array, pos, -1, 0⟩ := by simp
      obtain ⟨t', ht', -, hstart, -⟩ := hgrown _ _ hplace
      rw [ht] at ht'
      obtain rfl := Option.some.inj ht'
      rw [stackOf_congr hbare] at hstop
      rw [hlength] at ht
      dsimp only at hstart
      push_cast at hstop
      rw [List.length_cons]
      push_cast
      exact ⟨t, ht, hstart.ge, by omega⟩
    | @closing c _ _ _ _ hc hclose =>
      obtain ⟨front, u, behind, htokens, hu, -, hbehind, rfl⟩ := closeContainer_eq_some hclose
      have hgap : isGap c := by
        rcases hc with rfl | rfl <;> rfl
      obtain ⟨t, ht, hstart, hstop⟩ := ih hready' hnul' (hskip rfl hgap)
      have hclosed : ∀ v ∈ ({ u with stop := (pos : ℤ) + 1 } : Token) :: behind,
          v.isOpen = false := by
        intro v hv
        rcases List.mem_cons.mp hv with rfl | hv
        · exact isOpen_eq_false (by dsimp only; omega)
        · exact hbehind v hv
      rw [stackOf_closed hclosed] at hstop
      have hlength : (front ++ ({ u with stop := (pos : ℤ) + 1 } : Token) :: behind).length =
          p.tokens.length := by
        rw [htokens]
        simp
      rw [hlength] at ht
      rw [htokens, stackOf_open hu hbehind, List.length_cons, List.length_cons, ← htokens]
      push_cast at hstart hstop ⊢
      exact ⟨t, ht, by omega, by omega⟩
    | string hlength hroom hpush =>
      have hlt := stringLength_lt hlength
      obtain ⟨t, ht, hstart, hstop, hneeds⟩ := hready'.pushed_token hnul' hparse hn
        (isOpen_eq_false (by dsimp only; omega)) hpush
      dsimp only at hstart hstop
      rw [List.length_drop] at hneeds
      rw [List.length_cons]
      exact ⟨t, ht, by omega, by omega⟩
    | blank hc =>
      obtain ⟨t, ht, hstart, hstop⟩ := ih hready' hnul' (hskip rfl (by simp [isGap, hc]))
      rw [List.length_cons]
      push_cast at hstart ⊢
      exact ⟨t, ht, by omega, by omega⟩
    | colon =>
      obtain ⟨t, ht, hstart, hstop⟩ := ih hready' hnul' (hskip rfl rfl)
      dsimp only at ht hstop
      rw [List.length_cons]
      push_cast at hstart ⊢
      exact ⟨t, ht, by omega, by omega⟩
    | comma hnext =>
      have hsame : p'.tokens = p.tokens := by
        rcases (nextMember_eq_ok hnext).2 with rfl | ⟨i, t, -, rfl⟩ <;> rfl
      obtain ⟨t, ht, hstart, hstop⟩ := ih hready' hnul' (hskip rfl rfl)
      rw [hsame] at ht hstop
      rw [List.length_cons]
      push_cast at hstart ⊢
      exact ⟨t, ht, by omega, by omega⟩
    | primitive hc hlength hroom hpush =>
      have hle := primitiveLength_le hlength
      obtain ⟨t, ht, hstart, hstop, hneeds⟩ := hready'.pushed_token hnul' hparse hn
        (isOpen_eq_false (by dsimp only; omega)) hpush
      dsimp only at hstart hstop
      rw [List.length_drop] at hneeds
      exact ⟨t, ht, by omega, by omega⟩

end

end IoTRepublic.JsmnBrackets
