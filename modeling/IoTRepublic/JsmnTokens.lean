import IoTRepublic.Jsmn

/-!
The tokens that the tokenizer produces, whatever the text. Every token lies in
the text read so far, an object or an array begins with its bracket, and only
these are left open. The tokens stand in the order of their beginnings, and none
begins inside a string or a primitive. A count that is no error code is the
number of the tokens, and then all of them are closed.
-/
namespace IoTRepublic.JsmnTokens

open CheckedArray Package Jsmn

/-- A token in a text of which `pos` characters have been read. -/
structure TokenInside (js : List Byte) (pos : ℕ) (t : Token) : Prop where
  start_nonneg : 0 ≤ t.start
  start_le : t.start ≤ pos
  stop_le : t.stop ≤ pos
  closed : t.start ≤ t.stop ∨ t.stop = -1 ∧ t.isContainer
  bracket : t.isContainer → js[t.start.toNat]? = some leftBrace ∨
    js[t.start.toNat]? = some leftBracket

structure Laid (js : List Byte) (pos : ℕ) (tokens : List Token) : Prop where
  inside : ∀ t ∈ tokens, TokenInside js pos t
  order : ∀ (i j : ℕ) (t u : Token), i < j → tokens[i]? = some t → tokens[j]? = some u →
    t.start ≤ u.start ∧ (t.isContainer = false → t.stop ≤ u.start)

/-- The tokens of a text, with the count that the tokenizer returned. -/
structure Tokenized (js : List Byte) (pos numTokens : ℕ) (n : ℤ) (tokens : List Token) :
    Prop where
  few : tokens.length ≤ numTokens
  laid : Laid js pos tokens
  count : 0 ≤ n → n = tokens.length ∧ ∀ t ∈ tokens, t.start ≤ t.stop

section

variable {js : List Byte} {pos pos' : ℕ} {tokens : List Token} {t u : Token} {i : ℕ}

theorem TokenInside.mono (h : TokenInside js pos t) (hle : pos ≤ pos') : TokenInside js pos' t := by
  obtain ⟨hstart, hstartLe, hstop, hclosed, hbracket⟩ := h
  exact ⟨hstart, by omega, by omega, hclosed, hbracket⟩

theorem Laid.mono (h : Laid js pos tokens) (hle : pos ≤ pos') : Laid js pos' tokens :=
  ⟨fun t ht => (h.inside t ht).mono hle, h.order⟩

theorem laid_nil (js : List Byte) (pos : ℕ) : Laid js pos [] := ⟨by simp, by simp⟩

/-- A token behind all that has been read. -/
theorem Laid.push (h : Laid js pos tokens) (hle : pos ≤ pos') (hstart : (pos : ℤ) ≤ t.start)
    (ht : TokenInside js pos' t) : Laid js pos' (tokens ++ [t]) := by
  have hold := h.mono hle
  refine ⟨?_, ?_⟩
  · intro u hu
    rcases List.mem_append.mp hu with hu | hu
    · exact hold.inside u hu
    · rw [List.mem_singleton.mp hu]
      exact ht
  · intro i j u v hij hi hj
    have hlong : j < (tokens ++ [t]).length := (List.getElem?_eq_some_iff.mp hj).1
    rw [List.length_append, List.length_singleton] at hlong
    rw [List.getElem?_append_left (by omega)] at hi
    rcases Nat.lt_or_ge j tokens.length with hlt | hge
    · rw [List.getElem?_append_left hlt] at hj
      exact h.order i j u v hij hi hj
    · obtain rfl : j = tokens.length := by omega
      rw [List.getElem?_append_right le_rfl, Nat.sub_self, List.getElem?_cons_zero] at hj
      obtain rfl := Option.some.inj hj
      have hu := h.inside u (List.mem_of_getElem? hi)
      exact ⟨hu.start_le.trans hstart, fun _ => hu.stop_le.trans hstart⟩

/-- A token changed where it stands keeps its beginning, and a text its end. -/
theorem Laid.set (h : Laid js pos tokens) (hle : pos ≤ pos') (hi : tokens[i]? = some t)
    (hstart : u.start = t.start) (hkind : u.isContainer = t.isContainer)
    (htext : t.isContainer = false → u.stop = t.stop) (hu : TokenInside js pos' u) :
    Laid js pos' (tokens.set i u) := by
  have hold := h.mono hle
  have hget : ∀ k v, (tokens.set i u)[k]? = some v → v = u ∧ k = i ∨ tokens[k]? = some v := by
    intro k v hv
    rw [List.getElem?_set] at hv
    split at hv
    · rename_i hik
      split at hv
      · exact .inl ⟨(Option.some.inj hv).symm, hik.symm⟩
      · cases hv
    · exact .inr hv
  refine ⟨?_, ?_⟩
  · intro v hv
    obtain ⟨k, hk⟩ := List.mem_iff_getElem?.mp hv
    rcases hget k v hk with ⟨rfl, -⟩ | hk
    · exact hu
    · exact hold.inside v (List.mem_of_getElem? hk)
  · intro k l v w hkl hk hl
    have hfirst : ∃ v', tokens[k]? = some v' ∧ v'.start = v.start ∧
        (v.isContainer = false → v'.isContainer = false ∧ v'.stop = v.stop) := by
      rcases hget k v hk with ⟨rfl, rfl⟩ | hk
      · refine ⟨t, hi, hstart.symm, ?_⟩
        intro hv
        rw [hkind] at hv
        exact ⟨hv, (htext hv).symm⟩
      · exact ⟨v, hk, rfl, fun hv => ⟨hv, rfl⟩⟩
    have hsecond : ∃ w', tokens[l]? = some w' ∧ w'.start = w.start := by
      rcases hget l w hl with ⟨rfl, rfl⟩ | hl
      · exact ⟨t, hi, hstart.symm⟩
      · exact ⟨w, hl, rfl⟩
    obtain ⟨v', hv', hvStart, hvText⟩ := hfirst
    obtain ⟨w', hw', hwStart⟩ := hsecond
    obtain ⟨hbefore, hbehind⟩ := h.order k l v' w' hkl hv' hw'
    refine ⟨by omega, ?_⟩
    intro hv
    obtain ⟨hkind', hstop⟩ := hvText hv
    have hle' := hbehind hkind'
    omega

end

/-- Counting a member changes no token but its number of members. -/
theorem Laid.countInSuper {js : List Byte} {pos : ℕ} {p : Parser} {tokens : List Token}
    (h : Laid js pos p.tokens) (hcount : countInSuper p = .ok tokens) :
    Laid js pos tokens ∧ tokens.length = p.tokens.length := by
  unfold Jsmn.countInSuper at hcount
  split at hcount
  · obtain rfl := Except.ok.inj hcount
    exact ⟨h, rfl⟩
  · obtain ⟨t, hread, hcount⟩ := bind_eq_ok.mp hcount
    obtain ⟨-, hget⟩ := readAt_eq_ok.mp hread
    obtain ⟨-, -, rfl⟩ := writeAt_eq_ok.mp hcount
    obtain ⟨hstart, hstartLe, hstop, hclosed, hbracket⟩ := h.inside t (List.mem_of_getElem? hget)
    refine ⟨?_, List.length_set⟩
    exact h.set (u := t.counted) le_rfl hget rfl rfl (fun _ => rfl)
      ⟨hstart, hstartLe, hstop, hclosed, hbracket⟩

theorem lastToken_eq_some {wanted : Token → Bool} {tokens : List Token} {n i : ℕ}
    (h : lastToken wanted tokens n = some i) : ∃ t, tokens[i]? = some t ∧ wanted t := by
  induction n with
  | zero => cases h
  | succ n ih =>
    unfold lastToken at h
    cases hget : tokens[n]? with
    | none =>
      rw [hget] at h
      exact ih h
    | some t =>
      simp only [hget] at h
      split at h
      · rename_i hwanted
        obtain rfl := Option.some.inj h
        exact ⟨t, hget, hwanted⟩
      · exact ih h

theorem lastToken_eq_none {wanted : Token → Bool} {tokens : List Token} {n : ℕ}
    (h : lastToken wanted tokens n = none) {i : ℕ} (hi : i < n) {t : Token}
    (ht : tokens[i]? = some t) : wanted t = false := by
  induction n with
  | zero => omega
  | succ n ih =>
    unfold lastToken at h
    cases hget : tokens[n]? with
    | none =>
      rw [hget] at h
      have hne : i ≠ n := by
        rintro rfl
        rw [hget] at ht
        cases ht
      exact ih h (by omega)
    | some u =>
      simp only [hget] at h
      split at h
      · cases h
      · rename_i hwanted
        rcases Nat.lt_or_ge i n with hlt | hge
        · exact ih h hlt
        · obtain rfl : i = n := by omega
          obtain rfl := Option.some.inj (ht.symm.trans hget)
          simpa using hwanted

/-- A string ends at a quote. -/
theorem stringLength_quote {rest : List Byte} {n : ℕ} (h : stringLength rest = some n) :
    rest[n]? = some quote := by
  fun_induction stringLength rest generalizing n with
  | case1 => cases h
  | case2 =>
    obtain rfl := Option.some.inj h
    rfl
  | case3 => cases h
  | case4 => cases h
  | case5 =>
    obtain rfl := Option.some.inj h
    rfl
  | case6 d rest _ _ ih =>
    obtain ⟨m, hm, rfl⟩ := Option.map_eq_some_iff.mp h
    exact ih hm
  | case7 c d rest _ _ _ ih =>
    obtain ⟨m, hm, rfl⟩ := Option.map_eq_some_iff.mp h
    exact ih hm

theorem stringLength_lt {rest : List Byte} {n : ℕ} (h : stringLength rest = some n) :
    n < rest.length := (List.getElem?_eq_some_iff.mp (stringLength_quote h)).1

theorem primitiveLength_le {rest : List Byte} {n : ℕ} (h : primitiveLength rest = some n) :
    n ≤ rest.length := by
  fun_induction primitiveLength rest generalizing n with
  | case1 =>
    obtain rfl := Option.some.inj h
    exact le_rfl
  | case2 =>
    obtain rfl := Option.some.inj h
    exact Nat.zero_le _
  | case3 => cases h
  | case4 c rest _ _ ih =>
    obtain ⟨m, hm, rfl⟩ := Option.map_eq_some_iff.mp h
    have hle := ih hm
    rw [List.length_cons]
    omega

/-- What the parser keeps, at every place of the text. -/
structure Parsed (js : List Byte) (numTokens pos : ℕ) (p : Parser) : Prop where
  few : p.tokens.length ≤ numTokens
  laid : Laid js pos p.tokens
  count : p.count = p.tokens.length

section

variable {js : List Byte} {numTokens pos pos' : ℕ} {p p' : Parser} {t : Token}

theorem Parsed.advance (h : Parsed js numTokens pos p) (hle : pos ≤ pos') (toksuper : ℤ) :
    Parsed js numTokens pos' { p with toksuper := toksuper } :=
  ⟨h.few, h.laid.mono hle, h.count⟩

theorem Parsed.pushValue (h : Parsed js numTokens pos p) (hroom : p.tokens.length < numTokens)
    (hle : pos ≤ pos') (hstart : (pos : ℤ) ≤ t.start) (ht : TokenInside js pos' t)
    (hpush : pushValue p t = .ok p') : Parsed js numTokens pos' p' := by
  obtain ⟨tokens, hcount, hpush⟩ := bind_eq_ok.mp hpush
  obtain rfl := Except.ok.inj hpush
  obtain ⟨hlaid, hlength⟩ := h.laid.countInSuper hcount
  refine ⟨?_, hlaid.push hle hstart ht, ?_⟩
  · rw [List.length_append, List.length_singleton, hlength]
    exact hroom
  · rw [List.length_append, List.length_singleton, hlength, h.count]
    push_cast
    rfl

theorem Parsed.openContainer (h : Parsed js numTokens pos p) (hroom : p.tokens.length < numTokens)
    {type : TokenType} (htype : type = .object ∨ type = .array)
    (hbracket : js[pos]? = some leftBrace ∨ js[pos]? = some leftBracket)
    (hopen : openContainer p type pos = .ok p') : Parsed js numTokens (pos + 1) p' := by
  obtain ⟨tokens, hcount, hopen⟩ := bind_eq_ok.mp hopen
  obtain rfl := Except.ok.inj hopen
  obtain ⟨hlaid, hlength⟩ := h.laid.countInSuper hcount
  have hcontainer : Token.isContainer ⟨type, pos, -1, 0⟩ := by
    rcases htype with rfl | rfl <;> rfl
  refine ⟨?_, hlaid.push (Nat.le_succ pos) le_rfl ?_, ?_⟩
  · rw [List.length_append, List.length_singleton, hlength]
    exact hroom
  · exact ⟨by simp only; omega, by simp only; omega, by simp only; omega, .inr ⟨rfl, hcontainer⟩,
      fun _ => hbracket⟩
  · rw [List.length_append, List.length_singleton, hlength, h.count]
    push_cast
    rfl

theorem Parsed.closeContainer (h : Parsed js numTokens pos p) {type : TokenType}
    (hclose : closeContainer p type pos = .ok (some p')) : Parsed js numTokens (pos + 1) p' := by
  unfold Jsmn.closeContainer at hclose
  cases hlast : lastToken Token.isOpen p.tokens p.tokens.length with
  | none =>
    rw [hlast] at hclose
    cases hclose
  | some i =>
    simp only [hlast] at hclose
    obtain ⟨t, hread, hclose⟩ := bind_eq_ok.mp hclose
    split at hclose
    · cases hclose
    obtain ⟨tokens, hwrite, hclose⟩ := bind_eq_ok.mp hclose
    obtain ⟨-, hget⟩ := readAt_eq_ok.mp hread
    obtain ⟨-, -, rfl⟩ := writeAt_eq_ok.mp hwrite
    obtain ⟨u, hu, hopen⟩ := lastToken_eq_some hlast
    rw [Int.toNat_natCast] at hget hclose
    obtain rfl := Option.some.inj (hget.symm.trans hu)
    obtain ⟨hstart, hstartLe, hstop, hclosed, hbracket⟩ :=
      h.laid.inside t (List.mem_of_getElem? hget)
    have hstopOpen : t.stop = -1 := by
      simp only [Token.isOpen, Bool.and_eq_true, bne_iff_ne, ne_eq, beq_iff_eq] at hopen
      exact hopen.2
    have hcontainer : t.isContainer := by
      rcases hclosed with hle | ⟨-, hcontainer⟩
      · omega
      · exact hcontainer
    have hlaid : Laid js (pos + 1) (p.tokens.set i { t with stop := pos + 1 }) := by
      apply h.laid.set (u := { t with stop := pos + 1 }) (Nat.le_succ pos) hget rfl rfl
      · intro htext
        rw [hcontainer] at htext
        cases htext
      · refine ⟨hstart, ?_, ?_, .inl ?_, hbracket⟩
        · simp only
          omega
        · simp only
          push_cast
          rfl
        · simp only
          omega
    have hlength : (p.tokens.set i { t with stop := pos + 1 }).length = p.tokens.length :=
      List.length_set
    have hparsed : ∀ toksuper, Parsed js numTokens (pos + 1)
        { p with tokens := p.tokens.set i { t with stop := pos + 1 }, toksuper := toksuper } := by
      intro toksuper
      refine ⟨?_, hlaid, ?_⟩
      · rw [hlength]
        exact h.few
      · rw [hlength]
        exact h.count
    split at hclose
    · obtain rfl := Option.some.inj (Except.ok.inj hclose)
      exact hparsed (-1)
    · rename_i j _
      obtain rfl := Option.some.inj (Except.ok.inj hclose)
      exact hparsed j

theorem Parsed.nextMember (h : Parsed js numTokens pos p) (hnext : nextMember p = .ok p') :
    Parsed js numTokens (pos + 1) p' := by
  have hsame : ∃ toksuper, p' = { p with toksuper := toksuper } := by
    obtain ⟨t, -, hnext⟩ := bind_eq_ok.mp hnext
    split at hnext
    · exact ⟨p.toksuper, (Except.ok.inj hnext).symm⟩
    · split at hnext
      · exact ⟨p.toksuper, (Except.ok.inj hnext).symm⟩
      · exact ⟨_, (Except.ok.inj hnext).symm⟩
  obtain ⟨toksuper, rfl⟩ := hsame
  exact h.advance (Nat.le_succ pos) toksuper

theorem Parsed.tokenized (h : Parsed js numTokens pos p) {n : ℤ} (hn : n < 0) :
    Tokenized js pos numTokens n p.tokens :=
  ⟨h.few, h.laid, fun h0 => absurd h0 (by omega)⟩

theorem Tokenized.mono {n : ℤ} {tokens : List Token} (h : Tokenized js pos numTokens n tokens)
    (hle : pos ≤ pos') : Tokenized js pos' numTokens n tokens :=
  ⟨h.few, h.laid.mono hle, h.count⟩

theorem Parsed.finish (h : Parsed js numTokens pos p) :
    Tokenized js pos numTokens (finish p).1 (finish p).2 := by
  unfold Jsmn.finish
  cases hlast : lastToken Token.isOpen p.tokens p.tokens.length with
  | some i =>
    have hpart : JSMN_ERROR_PART < 0 := by decide
    exact h.tokenized hpart
  | none =>
    refine ⟨h.few, h.laid, fun _ => ⟨h.count, ?_⟩⟩
    intro t ht
    obtain ⟨i, hi⟩ := List.mem_iff_getElem?.mp ht
    have hclosed := lastToken_eq_none hlast (List.getElem?_eq_some_iff.mp hi).1 hi
    obtain ⟨hstart, -, -, hle | ⟨hstop, -⟩, -⟩ := h.laid.inside t ht
    · exact hle
    · have hne : t.start ≠ -1 := by omega
      simp [Token.isOpen, hstop, hne] at hclosed

end

/-- From any place of the text on, the tokenizer keeps what holds of its tokens. -/
theorem tokenized_parseLoop {js : List Byte} {numTokens fuel : ℕ} {rest : List Byte} {pos : ℕ}
    {p : Parser} (h : Parsed js numTokens pos p) (hrest : js.drop pos = rest) {n : ℤ}
    {tokens : List Token} (hparse : parseLoop numTokens fuel rest pos p = .ok (n, tokens)) :
    Tokenized js (pos + rest.length) numTokens n tokens := by
  induction fuel generalizing rest pos p with
  | zero => cases hparse
  | succ fuel ih =>
    have hfinish : parseLoop numTokens (fuel + 1) rest pos p = .ok (finish p) →
        Tokenized js (pos + rest.length) numTokens n tokens := by
      intro hend
      have hpair := Except.ok.inj (hparse.symm.trans hend)
      have hdone := h.finish
      rw [← hpair] at hdone
      exact hdone.mono (Nat.le_add_right ..)
    have hstop : ∀ code : ℤ, code < 0 → (n, tokens) = (code, p.tokens) →
        Tokenized js (pos + rest.length) numTokens n tokens := by
      intro code hcode hpair
      obtain ⟨rfl, rfl⟩ := Prod.mk.inj hpair
      exact (h.tokenized hcode).mono (Nat.le_add_right ..)
    have hnext : ∀ (k : ℕ) (p' : Parser), k ≤ rest.length → Parsed js numTokens (pos + k) p' →
        parseLoop numTokens fuel (rest.drop k) (pos + k) p' = .ok (n, tokens) →
        Tokenized js (pos + rest.length) numTokens n tokens := by
      intro k p' hk hp' hparse'
      have hdropped : js.drop (pos + k) = rest.drop k := by rw [← hrest, List.drop_drop]
      refine (ih hp' hdropped hparse').mono ?_
      rw [List.length_drop]
      omega
    cases rest with
    | nil => exact hfinish rfl
    | cons c rest =>
      have hlength : (c :: rest).length = rest.length + 1 := List.length_cons
      have hone : 1 ≤ (c :: rest).length := by omega
      have hfirst : js[pos]? = some c := by
        have hget : (js.drop pos)[0]? = js[pos + 0]? := List.getElem?_drop
        rw [hrest, Nat.add_zero] at hget
        exact hget.symm
      by_cases hzero : c = 0
      · exact hfinish (by rw [parseLoop, if_pos hzero])
      rw [parseLoop, if_neg hzero] at hparse
      split at hparse
      · -- an opening bracket
        split at hparse
        · exact hstop _ (by decide) (Except.ok.inj hparse).symm
        · rename_i hroom
          obtain ⟨p', hopen, hparse⟩ := bind_eq_ok.mp hparse
          have htype : (if c = leftBrace then TokenType.object else .array) = .object ∨
              (if c = leftBrace then TokenType.object else .array) = .array := by
            split
            · exact .inl rfl
            · exact .inr rfl
          have hbracket : js[pos]? = some leftBrace ∨ js[pos]? = some leftBracket := by
            rw [hfirst]
            rename_i hc _
            rcases hc with rfl | rfl
            · exact .inl rfl
            · exact .inr rfl
          exact hnext 1 p' hone (h.openContainer (not_le.mp hroom) htype hbracket hopen) hparse
      split at hparse
      · -- a closing bracket
        obtain ⟨closed, hclose, hparse⟩ := bind_eq_ok.mp hparse
        cases closed with
        | none => exact hstop _ (by decide) (Except.ok.inj hparse).symm
        | some p' => exact hnext 1 p' hone (h.closeContainer hclose) hparse
      split at hparse
      · -- a string
        split at hparse
        · exact hstop _ (by decide) (Except.ok.inj hparse).symm
        · rename_i k hstring
          have hshort := stringLength_lt hstring
          split at hparse
          · exact hstop _ (by decide) (Except.ok.inj hparse).symm
          · rename_i hroom
            obtain ⟨p', hpush, hparse⟩ := bind_eq_ok.mp hparse
            refine hnext (k + 2) p' (by omega) (h.pushValue (not_le.mp hroom) ?_ ?_ ?_ hpush) hparse
            · omega
            · simp only
              omega
            · exact ⟨by simp only; omega, by simp only; omega, by simp only; omega,
                .inl (by simp only; omega), fun hcontainer => by cases hcontainer⟩
      split at hparse
      · exact hnext 1 p hone (h.advance (Nat.le_succ pos) p.toksuper) hparse
      split at hparse
      · exact hnext 1 _ hone (h.advance (Nat.le_succ pos) _) hparse
      split at hparse
      · obtain ⟨p', hmember, hparse⟩ := bind_eq_ok.mp hparse
        exact hnext 1 p' hone (h.nextMember hmember) hparse
      split at hparse
      · exact hstop _ (by decide) (Except.ok.inj hparse).symm
      · -- a primitive
        rename_i k hprimitive
        have hshort := primitiveLength_le hprimitive
        rw [hlength] at hshort
        split at hparse
        · exact hstop _ (by decide) (Except.ok.inj hparse).symm
        · rename_i hroom
          obtain ⟨p', hpush, hparse⟩ := bind_eq_ok.mp hparse
          refine hnext k p' (by omega) (h.pushValue (not_le.mp hroom) ?_ ?_ ?_ hpush) hparse
          · omega
          · exact le_rfl
          · exact ⟨by simp only; omega, by simp only; omega, by simp only; omega,
              .inl (by simp only; omega), fun hcontainer => by cases hcontainer⟩

/-- The tokens of a text. -/
theorem tokenized_jsmnParse {text : List Byte} {numTokens : ℕ} {n : ℤ} {tokens : List Token}
    (hparse : jsmnParse text numTokens = .ok (n, tokens)) :
    Tokenized text text.length numTokens n tokens := by
  have hfirst : Parsed text numTokens 0 ⟨[], -1, 0⟩ := ⟨Nat.zero_le _, laid_nil text 0, rfl⟩
  have hall := tokenized_parseLoop hfirst List.drop_zero hparse
  rw [Nat.zero_add] at hall
  exact hall

end IoTRepublic.JsmnTokens
