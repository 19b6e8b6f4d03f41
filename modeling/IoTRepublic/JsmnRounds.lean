import IoTRepublic.JsmnSteps

/-!
The rounds of the tokenizer as steps. A text is accepted when rounds lead from
its beginning to its end. A round makes one new token behind the others, closes
the last open one, or leaves them as they are; apart from that it only counts
the members of objects and arrays.
-/
namespace IoTRepublic.JsmnRounds

open CheckedArray Package Jsmn JsmnTokens JsmnSteps
open BracketText (isBlank)

/-- What a round can do, from the text that is left, the place and the parser to those behind
the round. -/
inductive Round (numTokens : ℕ) : List Byte → ℕ → Parser → List Byte → ℕ → Parser → Prop
  | opening {c : Byte} {rest : List Byte} {pos : ℕ} {p p' : Parser}
      (hc : c = leftBrace ∨ c = leftBracket) (hroom : p.tokens.length < numTokens)
      (hopen : openContainer p (if c = leftBrace then .object else .array) pos = .ok p') :
      Round numTokens (c :: rest) pos p rest (pos + 1) p'
  | closing {c : Byte} {rest : List Byte} {pos : ℕ} {p p' : Parser}
      (hc : c = rightBrace ∨ c = rightBracket)
      (hclose : closeContainer p (if c = rightBrace then .object else .array) pos =
        .ok (some p')) :
      Round numTokens (c :: rest) pos p rest (pos + 1) p'
  | string {rest : List Byte} {pos n : ℕ} {p p' : Parser} (hlength : stringLength rest = some n)
      (hroom : p.tokens.length < numTokens)
      (hpush : pushValue p ⟨.string, pos + 1, pos + 1 + n, 0⟩ = .ok p') :
      Round numTokens (quote :: rest) pos p (rest.drop (n + 1)) (pos + n + 2) p'
  | blank {c : Byte} {rest : List Byte} {pos : ℕ} {p : Parser} (hc : isBlank c) :
      Round numTokens (c :: rest) pos p rest (pos + 1) p
  | colon {rest : List Byte} {pos : ℕ} {p : Parser} :
      Round numTokens (colon :: rest) pos p rest (pos + 1)
        { p with toksuper := p.tokens.length - 1 }
  | comma {rest : List Byte} {pos : ℕ} {p p' : Parser} (hnext : nextMember p = .ok p') :
      Round numTokens (comma :: rest) pos p rest (pos + 1) p'
  | primitive {c : Byte} {rest : List Byte} {pos n : ℕ} {p p' : Parser} (hc : beginsPrimitive c)
      (hlength : primitiveLength (c :: rest) = some n) (hroom : p.tokens.length < numTokens)
      (hpush : pushValue p ⟨.primitive, pos, pos + n, 0⟩ = .ok p') :
      Round numTokens (c :: rest) pos p ((c :: rest).drop n) (pos + n) p'

section

variable {numTokens pos pos' : ℕ} {text text' : List Byte} {p p' : Parser}

theorem Round.parseFrom_eq (h : Round numTokens text pos p text' pos' p') :
    parseFrom numTokens text pos p = parseFrom numTokens text' pos' p' := by
  cases h with
  | opening hc hroom hopen => exact parseFrom_open hc hroom hopen
  | closing hc hclose => exact parseFrom_close hc hclose
  | string hlength hroom hpush => exact parseFrom_string hlength hroom hpush
  | blank hc => exact parseFrom_blank hc
  | colon => exact parseFrom_colon
  | comma hnext => exact parseFrom_comma hnext
  | primitive hc hlength hroom hpush => exact parseFrom_primitive hc hlength hroom hpush

/-- A round reads a part of the text. -/
theorem Round.advance (h : Round numTokens text pos p text' pos' p') :
    ∃ k, 0 < k ∧ k ≤ text.length ∧ text' = text.drop k ∧ pos' = pos + k := by
  cases h with
  | opening | closing | blank | colon | comma => exact ⟨1, Nat.one_pos, by simp, rfl, rfl⟩
  | @string rest _ n _ _ hlength =>
    have hlt := stringLength_lt hlength
    exact ⟨n + 2, Nat.succ_pos _, by simp only [List.length_cons]; omega, rfl, by omega⟩
  | primitive hc hlength =>
    obtain ⟨hzero, hends⟩ := beginsPrimitive_spec hc
    exact ⟨_, primitiveLength_pos hzero hends hlength, primitiveLength_le hlength, rfl, rfl⟩

/-- Where the text is accepted, it is at its end or a round can be made. -/
theorem parseFrom_cases {n : ℤ} {tokens : List Token}
    (h : parseFrom numTokens text pos p = .ok (n, tokens)) (hn : 0 ≤ n) :
    (∀ c ∈ text.head?, c = 0) ∧ finish p = (n, tokens) ∨
      ∃ text' pos' p', Round numTokens text pos p text' pos' p' := by
  have hstop : ∀ code : ℤ, code < 0 → (n, tokens) ≠ (code, p.tokens) := by
    rintro code hcode hpair
    rw [(Prod.mk.inj hpair).1] at hn
    omega
  cases text with
  | nil => exact .inl ⟨by simp, Except.ok.inj h⟩
  | cons c rest =>
    rw [parseFrom_cons, JsmnSteps.round] at h
    by_cases hzero : c = 0
    · rw [if_pos hzero] at h
      exact .inl ⟨by simpa using hzero, Except.ok.inj h⟩
    right
    rw [if_neg hzero] at h
    split at h
    · -- an opening bracket
      rename_i hc
      split at h
      · exact absurd (Except.ok.inj h).symm (hstop _ (by decide))
      · rename_i hroom
        obtain ⟨p', hopen, -⟩ := bind_eq_ok.mp h
        exact ⟨_, _, _, .opening hc (not_le.mp hroom) hopen⟩
    rename_i hopens
    split at h
    · -- a closing bracket
      rename_i hc
      obtain ⟨closed, hclose, h⟩ := bind_eq_ok.mp h
      cases closed with
      | none => exact absurd (Except.ok.inj h).symm (hstop _ (by decide))
      | some p' => exact ⟨_, _, _, .closing hc hclose⟩
    rename_i hcloses
    split at h
    · -- a string
      rename_i hc
      split at h
      · exact absurd (Except.ok.inj h).symm (hstop _ (by decide))
      · rename_i k hlength
        split at h
        · exact absurd (Except.ok.inj h).symm (hstop _ (by decide))
        · rename_i hroom
          obtain ⟨p', hpush, -⟩ := bind_eq_ok.mp h
          subst hc
          exact ⟨_, _, _, .string hlength (not_le.mp hroom) hpush⟩
    rename_i hquote
    split at h
    · rename_i hc
      exact ⟨_, _, _, .blank hc⟩
    rename_i hblank
    split at h
    · rename_i hc
      subst hc
      exact ⟨_, _, _, .colon⟩
    rename_i hcolon
    split at h
    · rename_i hc
      obtain ⟨p', hnext, -⟩ := bind_eq_ok.mp h
      subst hc
      exact ⟨_, _, _, .comma hnext⟩
    rename_i hcomma
    split at h
    · exact absurd (Except.ok.inj h).symm (hstop _ (by decide))
    · -- a primitive
      rename_i k hlength
      split at h
      · exact absurd (Except.ok.inj h).symm (hstop _ (by decide))
      · rename_i hroom
        obtain ⟨p', hpush, -⟩ := bind_eq_ok.mp h
        have hbegins : beginsPrimitive c := by
          simp only [not_or] at hopens hcloses
          simp [beginsPrimitive, hzero, hopens.1, hopens.2, hcloses.1, hcloses.2, hquote, hblank,
            hcolon, hcomma]
        exact ⟨_, _, _, .primitive hbegins hlength (not_le.mp hroom) hpush⟩

/-- Induction over the rounds of an accepted text. -/
theorem parseFrom_induction {n : ℤ} {tokens : List Token}
    {motive : List Byte → ℕ → Parser → Prop}
    (hend : ∀ text pos p, (∀ c ∈ text.head?, c = 0) → finish p = (n, tokens) → motive text pos p)
    (hround : ∀ {text pos p text' pos' p'}, Round numTokens text pos p text' pos' p' →
      parseFrom numTokens text' pos' p' = .ok (n, tokens) → motive text' pos' p' →
      motive text pos p)
    (h : parseFrom numTokens text pos p = .ok (n, tokens)) (hn : 0 ≤ n) : motive text pos p := by
  induction hlength : text.length using Nat.strong_induction_on generalizing text pos p with
  | _ length ih =>
    rcases parseFrom_cases h hn with ⟨hdone, hfinish⟩ | ⟨text', pos', p', hstep⟩
    · exact hend text pos p hdone hfinish
    · rw [hstep.parseFrom_eq] at h
      obtain ⟨k, hk, hle, htext, -⟩ := hstep.advance
      refine hround hstep h (ih _ ?_ h rfl)
      rw [htext, List.length_drop]
      omega

end

/-- The token without its count of members. -/
def bare (t : Token) : Token := { t with size := 0 }

@[simp] theorem bare_isOpen (t : Token) : (bare t).isOpen = t.isOpen := rfl

@[simp] theorem bare_isContainer (t : Token) : (bare t).isContainer = t.isContainer := rfl

theorem bare_inj {t u : Token} (h : bare t = bare u) :
    t.type = u.type ∧ t.start = u.start ∧ t.stop = u.stop := by
  rw [bare, bare, Token.mk.injEq] at h
  exact ⟨h.1, h.2.1, h.2.2.1⟩

/-- What happens to the tokens between two places of the text. -/
inductive Change (pos pos' : ℕ) (tokens : List Token) : List Token → Prop
  | kept : Change pos pos' tokens tokens
  | made {tokens' : List Token} (t : Token)
      (hsame : tokens'.map bare = tokens.map bare ++ [bare t]) (hstart : (pos : ℤ) ≤ t.start)
      (hstop : t.stop ≤ pos')
      (hkind : t.isContainer ∧ t.stop = -1 ∧ t.start < pos' ∨
        t.isContainer = false ∧ t.start ≤ t.stop) : Change pos pos' tokens tokens'
  | closed (front behind : List Token) (t : Token) (hsplit : tokens = front ++ t :: behind)
      (hopen : t.isOpen) (hbehind : ∀ u ∈ behind, u.isOpen = false) (hplace : pos' = pos + 1) :
      Change pos pos' tokens (front ++ { t with stop := pos' } :: behind)

section

variable {numTokens pos pos' : ℕ} {text text' : List Byte} {p p' : Parser} {tokens : List Token}

theorem countInSuper_bare (h : countInSuper p = .ok tokens) :
    tokens.map bare = p.tokens.map bare := by
  unfold countInSuper at h
  split at h
  · rw [← Except.ok.inj h]
  · obtain ⟨t, hread, h⟩ := bind_eq_ok.mp h
    obtain ⟨-, hget⟩ := readAt_eq_ok.mp hread
    obtain ⟨-, -, rfl⟩ := writeAt_eq_ok.mp h
    obtain ⟨hi, rfl⟩ := List.getElem?_eq_some_iff.mp hget
    have hlast : p.toksuper.toNat < (p.tokens.map bare).length := by
      rw [List.length_map]
      exact hi
    have hbare : bare p.tokens[p.toksuper.toNat].counted =
        (p.tokens.map bare)[p.toksuper.toNat] := by
      rw [List.getElem_map]
      rfl
    rw [List.map_set, hbare, List.set_getElem_self]

/-- The last open token, among tokens that are not all closed. -/
theorem exists_last_open (tokens : List Token) : (∀ t ∈ tokens, t.isOpen = false) ∨
    ∃ front t behind, tokens = front ++ t :: behind ∧ t.isOpen ∧
      ∀ u ∈ behind, u.isOpen = false := by
  induction tokens using List.reverseRecOn with
  | nil => exact .inl (by simp)
  | append_singleton tokens t ih =>
    by_cases ht : t.isOpen
    · exact .inr ⟨tokens, t, [], rfl, ht, by simp⟩
    have ht' : t.isOpen = false := Bool.eq_false_iff.mpr ht
    rcases ih with hclosed | ⟨front, u, behind, rfl, hu, hbehind⟩
    · left
      intro v hv
      rcases List.mem_append.mp hv with hv | hv
      · exact hclosed v hv
      · rw [List.mem_singleton.mp hv]
        exact ht'
    · refine .inr ⟨front, u, behind ++ [t], by simp, hu, ?_⟩
      intro v hv
      rcases List.mem_append.mp hv with hv | hv
      · exact hbehind v hv
      · rw [List.mem_singleton.mp hv]
        exact ht'

theorem lastToken_closed (h : ∀ t ∈ tokens, t.isOpen = false) :
    lastToken Token.isOpen tokens tokens.length = none := by
  have hlast := lastToken_append Token.isOpen [] tokens h
  rw [List.nil_append, List.length_nil, Nat.zero_add] at hlast
  exact hlast

theorem lastToken_open (front : List Token) {behind : List Token} {t : Token} (ht : t.isOpen)
    (hbehind : ∀ u ∈ behind, u.isOpen = false) :
    lastToken Token.isOpen (front ++ t :: behind) (front ++ t :: behind).length =
      some front.length := by
  have hsplit : front ++ t :: behind = (front ++ [t]) ++ behind := by simp
  rw [hsplit, List.length_append, lastToken_append _ _ _ hbehind, List.length_append,
    List.length_singleton, lastToken]
  simp [ht]

/-- The superior token once what stands behind these is closed. -/
def superOf (front : List Token) : ℤ :=
  match lastToken Token.isOpen front front.length with
  | none => -1
  | some j => j

/-- A closing bracket closes the last open token, which is of its type. -/
theorem closeContainer_eq_some {type : TokenType}
    (h : closeContainer p type pos = .ok (some p')) :
    ∃ front t behind, p.tokens = front ++ t :: behind ∧ t.isOpen ∧ t.type = type ∧
      (∀ u ∈ behind, u.isOpen = false) ∧
      p' = ⟨front ++ { t with stop := pos + 1 } :: behind, superOf front, p.count⟩ := by
  rcases exists_last_open p.tokens with hclosed | ⟨front, t, behind, htokens, ht, hbehind⟩
  · rw [closeContainer, lastToken_closed hclosed] at h
    cases h
  obtain ⟨tokens, toksuper, count⟩ := p
  dsimp only at htokens
  subst htokens
  have htype : t.type = type := by
    by_contra hne
    rw [closeContainer] at h
    simp only [lastToken_open front ht hbehind] at h
    rw [readAt_natCast (front ++ t :: behind) front.length t (by simp), ok_bind, if_pos hne] at h
    cases h
  subst htype
  rw [closeContainer_closed front behind t toksuper count pos ht hbehind] at h
  refine ⟨front, t, behind, rfl, ht, rfl, hbehind, ?_⟩
  rw [← Option.some.inj (Except.ok.inj h)]
  unfold superOf
  rfl

theorem nextMember_eq_ok (h : nextMember p = .ok p') :
    p.toksuper ≠ -1 ∧ (p' = p ∨ ∃ i t, p.tokens[i]? = some t ∧
      p' = { p with toksuper := (i : ℕ) }) := by
  obtain ⟨t, hread, h⟩ := bind_eq_ok.mp h
  obtain ⟨hnonneg, -⟩ := readAt_eq_ok.mp hread
  refine ⟨by omega, ?_⟩
  split at h
  · exact .inl (Except.ok.inj h).symm
  · split at h
    · exact .inl (Except.ok.inj h).symm
    · rename_i i hlast
      obtain ⟨u, hu, -⟩ := lastToken_eq_some hlast
      exact .inr ⟨i, u, hu, (Except.ok.inj h).symm⟩

theorem Round.change (h : Round numTokens text pos p text' pos' p') :
    Change pos pos' p.tokens p'.tokens := by
  have hpush : ∀ (t : Token) (stop : ℕ), pushValue p t = .ok p' → t.isContainer = false →
      (pos : ℤ) ≤ t.start → t.start ≤ t.stop → t.stop ≤ stop →
      Change pos stop p.tokens p'.tokens := by
    intro t stop hpush hkind hstart hle hstop
    obtain ⟨tokens, hcount, hpush⟩ := bind_eq_ok.mp hpush
    obtain rfl := Except.ok.inj hpush
    refine .made t ?_ hstart hstop (.inr ⟨hkind, hle⟩)
    rw [List.map_append, countInSuper_bare hcount, List.map_singleton]
  cases h with
  | @opening c _ _ _ _ hc hroom hopen =>
    obtain ⟨tokens, hcount, hopen⟩ := bind_eq_ok.mp hopen
    obtain rfl := Except.ok.inj hopen
    refine .made (⟨if c = leftBrace then .object else .array, pos, -1, 0⟩ : Token) ?_ le_rfl ?_
      (.inl ⟨?_, rfl, ?_⟩)
    · rw [List.map_append, countInSuper_bare hcount, List.map_singleton]
    · dsimp only
      omega
    · by_cases hc : c = leftBrace
      · rw [if_pos hc]
        rfl
      · rw [if_neg hc]
        rfl
    · dsimp only
      omega
  | closing hc hclose =>
    obtain ⟨front, t, behind, htokens, ht, -, hbehind, rfl⟩ := closeContainer_eq_some hclose
    exact .closed front behind t htokens ht hbehind rfl
  | string hlength hroom hpushed =>
    apply hpush _ _ hpushed rfl <;> dsimp only <;> omega
  | blank hc => exact .kept
  | colon => exact .kept
  | comma hnext =>
    rcases (nextMember_eq_ok hnext).2 with rfl | ⟨i, t, -, rfl⟩
    · exact .kept
    · exact .kept
  | primitive hc hlength hroom hpushed =>
    apply hpush _ _ hpushed rfl <;> dsimp only <;> omega

/-- A round makes at most one token. -/
theorem Round.tokens_le (hround : Round numTokens text pos p text' pos' p') :
    p'.tokens.length ≤ p.tokens.length + 1 := by
  have hchange := hround.change
  generalize p'.tokens = tokens at hchange ⊢
  cases hchange with
  | kept => exact Nat.le_succ _
  | made t hsame =>
    have hlengths := congrArg List.length hsame
    simp only [List.length_map, List.length_append, List.length_singleton] at hlengths
    exact hlengths.le
  | closed front behind t hsplit =>
    rw [hsplit]
    simp

end

/-- Every token stays where it is, and only an open one gets another end, behind the place. -/
def Grown (pos : ℕ) (tokens tokens' : List Token) : Prop :=
  ∀ (i : ℕ) (t : Token), tokens[i]? = some t → ∃ t', tokens'[i]? = some t' ∧ t'.type = t.type ∧
    t'.start = t.start ∧ (t'.stop = t.stop ∨ t.isOpen ∧ (pos : ℤ) < t'.stop)

section

variable {pos pos' : ℕ} {tokens tokens' tokens'' : List Token}

theorem grown_refl (pos : ℕ) (tokens : List Token) : Grown pos tokens tokens :=
  fun _ t ht => ⟨t, ht, rfl, rfl, .inl rfl⟩

theorem Grown.trans (h : Grown pos tokens tokens') (h' : Grown pos' tokens' tokens'')
    (hle : pos ≤ pos') : Grown pos tokens tokens'' := by
  intro i t ht
  obtain ⟨t', ht', htype, hstart, hstop⟩ := h i t ht
  obtain ⟨t'', ht'', htype', hstart', hstop'⟩ := h' i t' ht'
  refine ⟨t'', ht'', htype'.trans htype, hstart'.trans hstart, ?_⟩
  rcases hstop' with hstop' | ⟨hopen', hlt⟩
  · rw [hstop']
    exact hstop
  · rcases hstop with hstop | ⟨hopen, -⟩
    · refine .inr ⟨?_, by omega⟩
      rw [Token.isOpen, ← hstart, ← hstop]
      exact hopen'
    · exact .inr ⟨hopen, by omega⟩

/-- A closed token is as it was. -/
theorem Grown.closed (h : Grown pos tokens tokens') {i : ℕ} {t : Token} (ht : tokens[i]? = some t)
    (hclosed : t.isOpen = false) :
    ∃ t', tokens'[i]? = some t' ∧ t'.type = t.type ∧ t'.start = t.start ∧ t'.stop = t.stop := by
  obtain ⟨t', ht', htype, hstart, hstop⟩ := h i t ht
  rcases hstop with hstop | ⟨hopen, -⟩
  · exact ⟨t', ht', htype, hstart, hstop⟩
  · rw [hclosed] at hopen
    cases hopen

/-- An open one that was closed ends behind the place. -/
theorem Grown.opened (h : Grown pos tokens tokens') {i : ℕ} {t : Token} (ht : tokens[i]? = some t)
    (hopen : t.isOpen) (hclosed : ∀ t ∈ tokens', t.isOpen = false) :
    ∃ t', tokens'[i]? = some t' ∧ t'.type = t.type ∧ t'.start = t.start ∧ (pos : ℤ) < t'.stop := by
  obtain ⟨t', ht', htype, hstart, hstop⟩ := h i t ht
  refine ⟨t', ht', htype, hstart, ?_⟩
  rcases hstop with hstop | ⟨-, hstop⟩
  · rw [Token.isOpen, ← hstart, ← hstop] at hopen
    have hno := hclosed t' (List.mem_of_getElem? ht')
    rw [Token.isOpen, hopen] at hno
    cases hno
  · exact hstop

theorem Change.grown (h : Change pos pos' tokens tokens') : Grown pos tokens tokens' := by
  cases h with
  | kept => exact grown_refl pos tokens
  | made u hsame =>
    intro i t ht
    have hbare : (tokens'.map bare)[i]? = some (bare t) := by
      have hlt := (List.getElem?_eq_some_iff.mp ht).1
      rw [hsame, List.getElem?_append_left (by rw [List.length_map]; exact hlt), List.getElem?_map,
        ht]
      rfl
    rw [List.getElem?_map, Option.map_eq_some_iff] at hbare
    obtain ⟨t', ht', heq⟩ := hbare
    obtain ⟨htype, hstart, hstop⟩ := bare_inj heq
    exact ⟨t', ht', htype, hstart, .inl hstop⟩
  | closed front behind u hsplit hopen hbehind hplace =>
    intro i t ht
    rw [hsplit] at ht
    rcases Nat.lt_trichotomy i front.length with hlt | rfl | hgt
    · rw [List.getElem?_append_left hlt] at ht ⊢
      exact ⟨t, ht, rfl, rfl, .inl rfl⟩
    · rw [List.getElem?_append_right le_rfl, Nat.sub_self, List.getElem?_cons_zero] at ht ⊢
      obtain rfl := Option.some.inj ht
      exact ⟨_, rfl, rfl, rfl, .inr ⟨hopen, by dsimp only; omega⟩⟩
    · obtain ⟨k, rfl⟩ : ∃ k, i = front.length + (k + 1) := ⟨i - front.length - 1, by omega⟩
      rw [List.getElem?_append_right (by omega), Nat.add_sub_cancel_left,
        List.getElem?_cons_succ] at ht ⊢
      exact ⟨t, ht, rfl, rfl, .inl rfl⟩

/-- The tokens of an accepted text are all closed. -/
theorem finish_eq {p : Parser} {n : ℤ} (h : finish p = (n, tokens)) (hn : 0 ≤ n) :
    tokens = p.tokens ∧ ∀ t ∈ tokens, t.isOpen = false := by
  rcases exists_last_open p.tokens with hclosed | ⟨front, t, behind, htokens, ht, hbehind⟩
  · rw [finish_closed p hclosed] at h
    obtain rfl := (Prod.mk.inj h).2
    exact ⟨rfl, hclosed⟩
  · rw [finish, htokens] at h
    simp only [lastToken_open front ht hbehind] at h
    rw [← (Prod.mk.inj h).1] at hn
    exact absurd hn (by decide)

/-- What becomes of the tokens when the rest of the text is accepted. -/
theorem parseFrom_grown {numTokens : ℕ} {text : List Byte} {p : Parser} {n : ℤ}
    (h : parseFrom numTokens text pos p = .ok (n, tokens)) (hn : 0 ≤ n) :
    Grown pos p.tokens tokens ∧ ∀ t ∈ tokens, t.isOpen = false := by
  refine parseFrom_induction (motive := fun _ pos p => Grown pos p.tokens tokens ∧
    ∀ t ∈ tokens, t.isOpen = false) ?_ ?_ h hn
  · intro text pos p _ hfinish
    obtain ⟨rfl, hclosed⟩ := finish_eq hfinish hn
    exact ⟨grown_refl pos _, hclosed⟩
  · intro text pos p text' pos' p' hround _ ih
    obtain ⟨k, -, -, -, rfl⟩ := hround.advance
    exact ⟨hround.change.grown.trans ih.1 (Nat.le_add_right _ _), ih.2⟩

end

/-- The tokens begin one behind the other, and none begins in a word or right behind it. -/
def Spaced (tokens : List Token) : Prop :=
  ∀ (i j : ℕ) (t u : Token), i < j → tokens[i]? = some t → tokens[j]? = some u →
    t.start < u.start ∧ (t.isContainer = false → t.stop < u.start)

/-- The tokens in front of the place; a word that ends at the place is followed by a character
that ends it. -/
structure SpacedTo (text : List Byte) (pos : ℕ) (tokens : List Token) : Prop where
  spaced : Spaced tokens
  before : ∀ t ∈ tokens, t.start < pos ∧ (t.isContainer = false → t.stop < (pos : ℤ) ∨
    t.stop = pos ∧ ∀ c ∈ text.head?, c = 0 ∨ endsPrimitive c)

section

variable {numTokens pos pos' : ℕ} {text text' : List Byte} {p p' : Parser}
  {tokens tokens' : List Token}

theorem Spaced.congr (h : Spaced tokens) (hsame : tokens'.map bare = tokens.map bare) :
    Spaced tokens' := by
  intro i j t u hij ht hu
  have hget : ∀ (k : ℕ) (v : Token), tokens'[k]? = some v → ∃ w, tokens[k]? = some w ∧
      bare w = bare v := by
    intro k v hv
    have hbare : (tokens.map bare)[k]? = some (bare v) := by
      rw [← hsame, List.getElem?_map, hv]
      rfl
    rw [List.getElem?_map, Option.map_eq_some_iff] at hbare
    exact hbare
  obtain ⟨t', ht', hbare⟩ := hget i t ht
  obtain ⟨u', hu', hbare'⟩ := hget j u hu
  have horder := h i j t' u' hij ht' hu'
  obtain ⟨-, hstart, hstop⟩ := bare_inj hbare
  obtain ⟨-, hstart', -⟩ := bare_inj hbare'
  rw [hstart, hstop, hstart', ← bare_isContainer, hbare, bare_isContainer] at horder
  exact horder

/-- A token behind all others. -/
theorem SpacedTo.push (h : SpacedTo text pos tokens) {t : Token} (hlt : pos < pos')
    (hsame : tokens'.map bare = tokens.map bare ++ [bare t]) (hstart : (pos : ℤ) ≤ t.start)
    (hbegins : (pos : ℤ) = t.start → ∃ c ∈ text.head?, c ≠ 0 ∧ endsPrimitive c = false)
    (hends : t.start < pos' ∧ (t.isContainer = false → t.stop < (pos' : ℤ) ∨
      t.stop = pos' ∧ ∀ c ∈ text'.head?, c = 0 ∨ endsPrimitive c)) :
    SpacedTo text' pos' tokens' := by
  have hsplit : tokens'.map bare = (tokens ++ [t]).map bare := by
    rw [hsame, List.map_append, List.map_singleton]
  have hword : ∀ u ∈ tokens, u.start < t.start ∧ (u.isContainer = false → u.stop < t.start) := by
    intro u hu
    obtain ⟨hustart, hustop⟩ := h.before u hu
    refine ⟨by omega, fun hkind => ?_⟩
    rcases hustop hkind with hstop | ⟨hstop, hhead⟩
    · omega
    · rcases eq_or_lt_of_le hstart with heq | hlt
      · obtain ⟨c, hc, hzero, hno⟩ := hbegins heq
        rcases hhead c hc with hyes | hyes
        · exact absurd hyes hzero
        · rw [hno] at hyes
          cases hyes
      · omega
  constructor
  · refine Spaced.congr ?_ hsplit
    intro i j u v hij hu hv
    have hlong := (List.getElem?_eq_some_iff.mp hv).1
    rw [List.length_append, List.length_singleton] at hlong
    rw [List.getElem?_append_left (by omega)] at hu
    rcases Nat.lt_or_ge j tokens.length with hj | hj
    · rw [List.getElem?_append_left hj] at hv
      exact h.spaced i j u v hij hu hv
    · obtain rfl : j = tokens.length := by omega
      rw [List.getElem?_append_right le_rfl, Nat.sub_self, List.getElem?_cons_zero] at hv
      obtain rfl := Option.some.inj hv
      exact hword u (List.mem_of_getElem? hu)
  · intro u hu
    have hmem : bare u ∈ (tokens ++ [t]).map bare := by
      rw [← hsplit]
      exact List.mem_map_of_mem hu
    obtain ⟨v, hv, hbare⟩ := List.mem_map.mp hmem
    obtain ⟨-, hvstart, hvstop⟩ := bare_inj hbare
    rw [← bare_isContainer, ← hbare, bare_isContainer, ← hvstart, ← hvstop]
    rcases List.mem_append.mp hv with hv | hv
    · obtain ⟨hbefore, hstop⟩ := h.before v hv
      refine ⟨by omega, fun hkind => .inl ?_⟩
      rcases hstop hkind with hstop | ⟨hstop, -⟩ <;> omega
    · rw [List.mem_singleton.mp hv]
      exact hends

/-- An object or an array that gets another end. -/
theorem SpacedTo.close {front behind : List Token} {t : Token} {stop : ℤ}
    (h : SpacedTo text pos (front ++ t :: behind)) (hcontainer : t.isContainer) (hlt : pos < pos') :
    SpacedTo text' pos' (front ++ { t with stop := stop } :: behind) := by
  have hold : ∀ (k : ℕ) (v : Token), (front ++ { t with stop := stop } :: behind)[k]? = some v →
      ∃ w, (front ++ t :: behind)[k]? = some w ∧ w.start = v.start ∧
        (v.isContainer = false → w.isContainer = false ∧ w.stop = v.stop) := by
    intro k v hv
    rcases Nat.lt_trichotomy k front.length with hlt | rfl | hgt
    · rw [List.getElem?_append_left hlt] at hv ⊢
      exact ⟨v, hv, rfl, fun hkind => ⟨hkind, rfl⟩⟩
    · rw [List.getElem?_append_right le_rfl, Nat.sub_self, List.getElem?_cons_zero] at hv ⊢
      obtain rfl := Option.some.inj hv
      refine ⟨t, rfl, rfl, fun hkind => ?_⟩
      change t.isContainer = false at hkind
      rw [hcontainer] at hkind
      cases hkind
    · obtain ⟨m, rfl⟩ : ∃ m, k = front.length + (m + 1) := ⟨k - front.length - 1, by omega⟩
      rw [List.getElem?_append_right (by omega), Nat.add_sub_cancel_left,
        List.getElem?_cons_succ] at hv ⊢
      exact ⟨v, hv, rfl, fun hkind => ⟨hkind, rfl⟩⟩
  constructor
  · intro i j u v hij hu hv
    obtain ⟨u', hu', hstart, hword⟩ := hold i u hu
    obtain ⟨v', hv', hstart', -⟩ := hold j v hv
    obtain ⟨hlt, hstop⟩ := h.spaced i j u' v' hij hu' hv'
    refine ⟨by omega, fun hkind => ?_⟩
    obtain ⟨hkind', hsame⟩ := hword hkind
    have hle := hstop hkind'
    omega
  · intro u hu
    obtain ⟨i, hi⟩ := List.mem_iff_getElem?.mp hu
    obtain ⟨u', hu', hstart, hword⟩ := hold i u hi
    obtain ⟨hbefore, hstop⟩ := h.before u' (List.mem_of_getElem? hu')
    refine ⟨by omega, fun hkind => .inl ?_⟩
    obtain ⟨hkind', hsame⟩ := hword hkind
    rcases hstop hkind' with hstop | ⟨hstop, -⟩ <;> omega

/-- A primitive is read up to a character that ends it. -/
theorem primitiveLength_ends {n : ℕ} (h : primitiveLength text = some n) :
    ∀ c ∈ (text.drop n).head?, c = 0 ∨ endsPrimitive c := by
  induction text generalizing n with
  | nil =>
    rw [List.drop_nil]
    exact nofun
  | cons c text ih =>
    rw [primitiveLength] at h
    split at h
    · rename_i hends
      obtain rfl := Option.some.inj h
      intro d hd
      obtain rfl := Option.some.inj hd
      exact hends
    · split at h
      · cases h
      · obtain ⟨m, hm, rfl⟩ := Option.map_eq_some_iff.mp h
        exact ih hm

theorem SpacedTo.round (h : SpacedTo text pos p.tokens)
    (hround : Round numTokens text pos p text' pos' p') : SpacedTo text' pos' p'.tokens := by
  have hkept : pos < pos' → p'.tokens = p.tokens → SpacedTo text' pos' p'.tokens := by
    intro hlt hsame
    rw [hsame]
    refine ⟨h.spaced, fun t ht => ?_⟩
    obtain ⟨hstart, hstop⟩ := h.before t ht
    refine ⟨by omega, fun hkind => .inl ?_⟩
    rcases hstop hkind with hstop | ⟨hstop, -⟩ <;> omega
  have hpushed : ∀ t : Token, pushValue p t = .ok p' →
      p'.tokens.map bare = p.tokens.map bare ++ [bare t] := by
    intro t hpush
    obtain ⟨tokens, hcount, hpush⟩ := bind_eq_ok.mp hpush
    obtain rfl := Except.ok.inj hpush
    rw [List.map_append, countInSuper_bare hcount, List.map_singleton]
  cases hround with
  | @opening c _ _ _ _ hc hroom hopen =>
    obtain ⟨tokens, hcount, hopen⟩ := bind_eq_ok.mp hopen
    obtain rfl := Except.ok.inj hopen
    have hcontainer : Token.isContainer ⟨if c = leftBrace then .object else .array, pos, -1, 0⟩ := by
      by_cases hbrace : c = leftBrace
      · rw [if_pos hbrace]
        rfl
      · rw [if_neg hbrace]
        rfl
    refine h.push (t := ⟨if c = leftBrace then .object else .array, pos, -1, 0⟩)
      (Nat.lt_succ_self pos) ?_ le_rfl ?_ ⟨by dsimp only; omega, ?_⟩
    · rw [List.map_append, countInSuper_bare hcount, List.map_singleton]
    · exact fun _ => ⟨c, rfl, by rcases hc with rfl | rfl <;> decide⟩
    · intro hflat
      rw [hcontainer] at hflat
      cases hflat
  | closing hc hclose =>
    obtain ⟨front, t, behind, htokens, -, htype, -, rfl⟩ := closeContainer_eq_some hclose
    rw [htokens] at h
    apply h.close _ (Nat.lt_succ_self pos)
    rw [Token.isContainer, htype]
    rcases hc with rfl | rfl <;> rfl
  | string hlength hroom hpush =>
    refine h.push (by omega) (hpushed _ hpush) (by dsimp only; omega) ?_
      ⟨by dsimp only; omega, fun _ => .inl (by dsimp only; omega)⟩
    intro heq
    dsimp only at heq
    omega
  | blank hc => exact hkept (Nat.lt_succ_self pos) rfl
  | colon => exact hkept (Nat.lt_succ_self pos) rfl
  | comma hnext =>
    apply hkept (Nat.lt_succ_self pos)
    rcases (nextMember_eq_ok hnext).2 with rfl | ⟨i, t, -, rfl⟩ <;> rfl
  | @primitive c _ _ n _ _ hc hlength hroom hpush =>
    obtain ⟨hzero, hends⟩ := beginsPrimitive_spec hc
    have hpos := primitiveLength_pos hzero hends hlength
    refine h.push (by omega) (hpushed _ hpush) le_rfl (fun _ => ⟨c, rfl, hzero, hends⟩)
      ⟨by dsimp only; omega, fun _ => .inr ⟨by dsimp only; omega, ?_⟩⟩
    exact primitiveLength_ends hlength

/-- The tokens of an accepted text. -/
theorem spaced_jsmnParse {n : ℤ} (hparse : jsmnParse text numTokens = .ok (n, tokens))
    (hn : 0 ≤ n) : Spaced tokens := by
  rw [jsmnParse_eq] at hparse
  refine parseFrom_induction (motive := fun text pos p => SpacedTo text pos p.tokens →
    Spaced tokens) ?_ ?_ hparse hn ⟨by simp [Spaced], by simp⟩
  · intro text pos p _ hfinish h
    rw [(finish_eq hfinish hn).1]
    exact h.spaced
  · intro text pos p text' pos' p' hround _ ih h
    exact ih (h.round hround)

theorem stringLength_append {rest : List Byte} {n : ℕ} (h : stringLength rest = some n)
    (beyond : List Byte) : stringLength (rest ++ 0 :: beyond) = some n := by
  fun_induction stringLength rest generalizing n with
  | case1 => cases h
  | case2 =>
    obtain rfl := Option.some.inj h
    rfl
  | case3 => cases h
  | case4 => cases h
  | case5 =>
    obtain rfl := Option.some.inj h
    rfl
  | case6 d rest _ _ ih =>
    obtain ⟨m, hm, rfl⟩ := Option.map_eq_some_iff.mp h
    change (stringLength (rest ++ 0 :: beyond)).map (· + 2) = _
    rw [ih hm]
    rfl
  | case7 c d rest hzero hquote hback ih =>
    obtain ⟨m, hm, rfl⟩ := Option.map_eq_some_iff.mp h
    have hrest := ih hm
    rw [List.cons_append] at hrest
    rw [List.cons_append, List.cons_append, stringLength, if_neg hzero, if_neg hquote,
      if_neg hback, hrest]
    rfl

theorem primitiveLength_append {n : ℕ} (h : primitiveLength text = some n) (beyond : List Byte) :
    primitiveLength (text ++ 0 :: beyond) = some n := by
  induction text generalizing n with
  | nil => exact h
  | cons c text ih =>
    rw [primitiveLength] at h
    rw [List.cons_append, primitiveLength]
    split at h
    · rename_i hends
      rw [if_pos hends]
      exact h
    · rename_i hends
      split at h
      · cases h
      · rename_i hprint
        obtain ⟨m, hm, rfl⟩ := Option.map_eq_some_iff.mp h
        rw [if_neg hends, if_neg hprint, ih hm]
        rfl

/-- A round does not look at what stands behind a terminator. -/
theorem Round.append (h : Round numTokens text pos p text' pos' p') (beyond : List Byte) :
    Round numTokens (text ++ 0 :: beyond) pos p (text' ++ 0 :: beyond) pos' p' := by
  cases h with
  | opening hc hroom hopen => exact .opening hc hroom hopen
  | closing hc hclose => exact .closing hc hclose
  | @string rest _ n _ _ hlength hroom hpush =>
    have hlt := stringLength_lt hlength
    have hdrop : rest.drop (n + 1) ++ 0 :: beyond = (rest ++ 0 :: beyond).drop (n + 1) :=
      (List.drop_append_of_le_length hlt).symm
    rw [hdrop]
    exact .string (stringLength_append hlength beyond) hroom hpush
  | blank hc => exact .blank hc
  | colon => exact .colon
  | comma hnext => exact .comma hnext
  | @primitive c rest _ n _ _ hc hlength hroom hpush =>
    have hdrop : (c :: rest).drop n ++ 0 :: beyond = (c :: (rest ++ 0 :: beyond)).drop n :=
      (List.drop_append_of_le_length (primitiveLength_le hlength)).symm
    rw [hdrop]
    exact .primitive hc (primitiveLength_append hlength beyond) hroom hpush

/-- Nor does the tokenizer, if it accepts the text. -/
theorem jsmnParse_append {n : ℤ} (hnul : (0 : Byte) ∉ text)
    (hparse : jsmnParse text numTokens = .ok (n, tokens)) (hn : 0 ≤ n) (beyond : List Byte) :
    jsmnParse (text ++ 0 :: beyond) numTokens = .ok (n, tokens) := by
  rw [jsmnParse_eq] at hparse ⊢
  refine parseFrom_induction (motive := fun text pos p => (0 : Byte) ∉ text →
    parseFrom numTokens (text ++ 0 :: beyond) pos p = .ok (n, tokens)) ?_ ?_ hparse hn hnul
  · intro text pos p hend hfinish hnul
    cases text with
    | nil =>
      rw [List.nil_append, parseFrom_cons, JsmnSteps.round, if_pos rfl, hfinish]
    | cons c text =>
      rw [hend c rfl] at hnul
      exact absurd List.mem_cons_self hnul
  · intro text pos p text' pos' p' hround _ ih hnul
    rw [(hround.append beyond).parseFrom_eq]
    apply ih
    obtain ⟨k, -, -, rfl, -⟩ := hround.advance
    exact fun hmem => hnul (List.mem_of_mem_drop hmem)

end

end IoTRepublic.JsmnRounds
