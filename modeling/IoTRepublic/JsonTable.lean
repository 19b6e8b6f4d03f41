import IoTRepublic.Foundation.JsonText
import IoTRepublic.JsmnSteps

/-!
The token table of a well-formed text. From any place at which a value may
stand, the tokenizer reads the text of a syntax tree and appends the tokens of
its nodes, in their order; a comma or a closing bracket behind it makes the
container around it the superior token again, whatever the value was.
-/
namespace IoTRepublic.JsonTable

open CheckedArray Package Jsmn JsmnSteps JsonText

def typeOf : Kind → TokenType
  | .primitive => .primitive
  | .object => .object
  | .array => .array
  | .string => .string

def tokenOf (n : Node) : Token := ⟨typeOf n.kind, n.start, n.stop, n.size⟩

def tokensOf {p : Part} (j : Json p) (pos : ℕ) : List Token := (j.nodes pos).map tokenOf

/-- What follows a value, or nothing, ends an unquoted word. -/
def Ends (rest : List Byte) : Prop := ∀ c ∈ rest.head?, c = 0 ∨ endsPrimitive c

/-- The last open token, as the superior token. -/
def lastOpen (tokens : List Token) : ℤ :=
  match lastToken Token.isOpen tokens tokens.length with
  | none => -1
  | some i => i

section

variable {rest text : List Byte}

theorem stringLength_quoted (h : isQuoted text) (rest : List Byte) :
    stringLength (text ++ quote :: rest) = some text.length := by
  have hend : stringLength (quote :: rest) = some 0 := by cases rest <;> rfl
  fun_induction isQuoted text with
  | case1 => exact hend
  | case2 c =>
    simp only [Bool.and_eq_true, bne_iff_ne, ne_eq] at h
    simp [stringLength, h.1.1, h.1.2, h.2, hend]
  | case3 d tail ih =>
    rw [Bool.and_eq_true, bne_iff_ne] at h
    have htail := ih h.2
    have hne : ¬ (92 : Byte) = quote := by decide
    simp only [List.cons_append, stringLength]
    simp [htail, hne]
  | case4 c d tail hc ih =>
    rw [Bool.and_eq_true, Bool.and_eq_true, bne_iff_ne, bne_iff_ne] at h
    have htail := ih h.2
    rw [List.cons_append] at htail ⊢
    rw [List.cons_append, stringLength, if_neg h.1.1, if_neg h.1.2, if_neg hc, htail]
    rfl

theorem primitiveLength_bare (h : ∀ c ∈ text, isBare c) (hends : Ends rest) :
    primitiveLength (text ++ rest) = some text.length := by
  induction text with
  | nil =>
    cases rest with
    | nil => rfl
    | cons d rest => exact if_pos (hends d rfl)
  | cons c text ih =>
    have hc : isPlain c := h c List.mem_cons_self
    have htail := ih (fun d hd => h d (List.mem_cons_of_mem c hd))
    have hzero : c ≠ 0 := ne_of_isPlain hc rfl
    rw [List.cons_append, primitiveLength, if_neg (by simp [hzero, not_ends_of_isPlain hc]),
      if_neg (printable_of_isPlain hc), htail]
    rfl

theorem beginsPrimitive_bare {c : Byte} (h : isBare c) : beginsPrimitive c := by
  have hplain : isPlain c := h
  have hends := not_ends_of_isPlain hplain
  simp only [endsPrimitive, Bool.or_eq_false_iff] at hends
  have hne : ∀ d, isPlain d = false → (c == d) = false := fun d hd =>
    beq_false_of_ne (ne_of_isPlain hplain hd)
  simp [beginsPrimitive, hends.1.1.1, hne 0 rfl, hne leftBrace rfl, hne leftBracket rfl,
    hne rightBrace rfl, hne rightBracket rfl, hne quote rfl, hne colon rfl, hne comma rfl]

theorem tokenOf_closed {tokens : List Node} : ∀ t ∈ tokens.map tokenOf, t.isOpen = false := by
  intro t ht
  obtain ⟨n, -, rfl⟩ := List.mem_map.mp ht
  exact isOpen_eq_false (by simp only [tokenOf]; omega)

/-- A comma behind a value goes back to the container around it, from the container itself or
from a token that is none. -/
theorem nextMember_back {front behind : List Token} {s : Token} {toksuper count : ℤ}
    (hs : s.isContainer ∧ s.isOpen) (hbehind : ∀ t ∈ behind, t.isOpen = false)
    (hsuper : toksuper = front.length ∨
      ∃ t, readAt (front ++ s :: behind) toksuper = .ok t ∧ t.isContainer = false) :
    nextMember ⟨front ++ s :: behind, toksuper, count⟩ =
      .ok ⟨front ++ s :: behind, front.length, count⟩ := by
  rcases hsuper with rfl | ⟨t, hread, ht⟩
  · have hread := readAt_append front behind s
    rw [nextMember, hread, ok_bind, if_pos hs.1]
  · have hsplit : front ++ s :: behind = (front ++ [s]) ++ behind := by simp
    have hskip : ∀ t ∈ behind, (fun t : Token => t.isContainer && t.isOpen) t = false := by
      intro t ht
      simp [hbehind t ht]
    have hlast : lastToken (fun t => t.isContainer && t.isOpen) (front ++ s :: behind)
        (front ++ s :: behind).length = some front.length := by
      rw [hsplit, List.length_append, lastToken_append _ _ _ hskip, List.length_append,
        List.length_singleton, lastToken]
      simp [hs.1, hs.2]
    rw [nextMember, hread, ok_bind, if_neg (by rw [ht]; decide)]
    simp only [hlast]

theorem lastOpen_eq {front behind : List Token} {s : Token} (hs : s.isOpen)
    (hbehind : ∀ t ∈ behind, t.isOpen = false) :
    lastOpen (front ++ s :: behind) = front.length := by
  have hsplit : front ++ s :: behind = (front ++ [s]) ++ behind := by simp
  have hlast : lastToken Token.isOpen (front ++ s :: behind) (front ++ s :: behind).length =
      some front.length := by
    rw [hsplit, List.length_append, lastToken_append _ _ _ hbehind, List.length_append,
      List.length_singleton, lastToken]
    simp [hs]
  rw [lastOpen, hlast]

theorem countInSuper_length {p : Parser} {counted : List Token} (h : countInSuper p = .ok counted) :
    counted.length = p.tokens.length := by
  rw [countInSuper] at h
  split at h
  · rw [← Except.ok.inj h]
  · obtain ⟨t, -, h⟩ := bind_eq_ok.mp h
    obtain ⟨-, -, rfl⟩ := writeAt_eq_ok.mp h
    rw [List.length_set]

/-- `size++`, several times. -/
def counted (t : Token) (n : ℕ) : Token := { t with size := t.size + n }

/-- The tokenizer reads a value, or the items in a container, and appends its tokens. -/
def Reads (numTokens : ℕ) {p : Part} (j : Json p) : Prop :=
  match p, j with
  | .value, v => ∀ (rest : List Byte) (pos : ℕ) (q : Parser) (tokens : List Token), Ends rest →
    countInSuper q = .ok tokens → tokens.length + (v.nodes pos).length ≤ numTokens →
    ∃ toksuper, parseFrom numTokens (v.render ++ rest) pos q =
        parseFrom numTokens rest (pos + v.render.length)
          ⟨tokens ++ tokensOf v pos, toksuper, q.count + (v.nodes pos).length⟩ ∧
      (toksuper = q.toksuper ∨ toksuper = lastOpen tokens)
  | .items _, items => ∀ (rest : List Byte) (pos : ℕ) (front behind : List Token) (s : Token)
    (count : ℤ), Ends rest → s.isContainer ∧ s.isOpen → (∀ t ∈ behind, t.isOpen = false) →
    front.length + 1 + behind.length + (items.nodes pos).length ≤ numTokens →
    ∃ toksuper, parseFrom numTokens (items.render ++ rest) pos
        ⟨front ++ s :: behind, front.length, count⟩ =
      parseFrom numTokens rest (pos + items.render.length)
        ⟨front ++ counted s items.count :: (behind ++ tokensOf items pos), toksuper,
          count + (items.nodes pos).length⟩

theorem parseFrom_bare {numTokens pos : ℕ} {q q' : Parser} (hne : text ≠ [])
    (htext : ∀ c ∈ text, isBare c) (hends : Ends rest) (hroom : q.tokens.length < numTokens)
    (hpush : pushValue q ⟨.primitive, pos, pos + text.length, 0⟩ = .ok q') :
    parseFrom numTokens (text ++ rest) pos q =
      parseFrom numTokens rest (pos + text.length) q' := by
  have hlength := primitiveLength_bare htext hends
  obtain ⟨c, tail, rfl⟩ := List.exists_cons_of_ne_nil hne
  have hdrop : (c :: tail ++ rest).drop (c :: tail).length = rest := List.drop_left
  rw [List.cons_append] at hlength hdrop ⊢
  rw [parseFrom_primitive (beginsPrimitive_bare (htext c List.mem_cons_self)) hlength hroom hpush,
    hdrop]

theorem reads_primitive (numTokens : ℕ) (text : Bare) : Reads numTokens (.primitive text) := by
  intro rest pos q tokens hends hcount hroom
  have hroom' : q.tokens.length < numTokens := by
    rw [← countInSuper_length hcount]
    exact hroom
  have hpush : pushValue q ⟨.primitive, pos, pos + text.val.length, 0⟩ =
      .ok ⟨tokens ++ tokensOf (.primitive text) pos, q.toksuper, q.count + 1⟩ := by
    rw [pushValue, hcount, ok_bind]
    rfl
  exact ⟨q.toksuper, parseFrom_bare text.property.1 text.property.2 hends hroom' hpush, .inl rfl⟩

theorem reads_string (numTokens : ℕ) (text : Quoted) : Reads numTokens (.string text) := by
  intro rest pos q tokens _ hcount hroom
  have hlength := stringLength_quoted text.property rest
  have hroom' : q.tokens.length < numTokens := by
    rw [← countInSuper_length hcount]
    exact hroom
  have hpush : pushValue q ⟨.string, pos + 1, pos + 1 + text.val.length, 0⟩ =
      .ok ⟨tokens ++ tokensOf (.string text) pos, q.toksuper, q.count + 1⟩ := by
    rw [pushValue, hcount, ok_bind]
    rfl
  have hdrop : (text.val ++ quote :: rest).drop (text.val.length + 1) = rest := by simp
  have hrender : (Json.string text).render ++ rest = quote :: (text.val ++ quote :: rest) := by
    simp [Json.render]
  refine ⟨q.toksuper, ?_, .inl rfl⟩
  rw [hrender, parseFrom_string hlength hroom' hpush, hdrop]
  congr 1
  simp [Json.render]
  omega

theorem ends_blank (blank : Blank) (h : Ends rest) : Ends (blank.val ++ rest) := by
  intro c hc
  cases hblank : blank.val with
  | nil =>
    rw [hblank] at hc
    exact h c hc
  | cons d tail =>
    rw [hblank, List.cons_append, List.head?_cons, Option.mem_some_iff] at hc
    have hd := blank.property d (by rw [hblank]; exact List.mem_cons_self)
    rw [hc] at hd
    right
    simp [endsPrimitive, hd]

theorem ends_sep {keyed : Bool} (items : Json (.items keyed)) (h : Ends rest) :
    Ends (items.sep ++ (items.render ++ rest)) := by
  cases items with
  | nil => exact h
  | cons lead label value trail others =>
    intro c hc
    obtain rfl := Option.some.inj hc
    exact .inr rfl

/-- What stands in front of a value is read so that the value is counted where it belongs and
a comma behind it goes back to the container. -/
theorem reads_label {numTokens : ℕ} {keyed : Bool} (label : Label keyed) (rest : List Byte)
    (pos : ℕ) (front behind : List Token) (s : Token) (count : ℤ)
    (hroom : front.length + 1 + behind.length + (label.nodes pos).length ≤ numTokens) :
    ∃ q, parseFrom numTokens (label.render ++ rest) pos
          ⟨front ++ s :: behind, front.length, count⟩ =
        parseFrom numTokens rest (pos + label.render.length) q ∧
      countInSuper q =
        .ok (front ++ s.counted :: (behind ++ (label.nodes pos).map tokenOf)) ∧
      q.count = count + (label.nodes pos).length ∧
      ∀ (u : Token) (more : List Token), q.toksuper = front.length ∨
        ∃ t, readAt (front ++ u :: (behind ++ (label.nodes pos).map tokenOf ++ more))
          q.toksuper = .ok t ∧ t.isContainer = false := by
  cases label with
  | none =>
    refine ⟨_, rfl, ?_, ?_, fun _ _ => .inl rfl⟩
    · rw [countInSuper_at]
      simp [Label.nodes]
    · simp [Label.nodes]
  | key text before after =>
    have hlength := stringLength_quoted text.property
      (before.val ++ colon :: (after.val ++ rest))
    have hfull : (front ++ s :: behind).length < numTokens := by
      simp only [Label.nodes, List.length_singleton] at hroom
      simp only [List.length_append, List.length_cons]
      omega
    have hpush : pushValue ⟨front ++ s :: behind, front.length, count⟩
        ⟨.string, pos + 1, pos + 1 + text.val.length, 0⟩ =
        .ok ⟨(front ++ s.counted :: behind) ++ [⟨.string, pos + 1, pos + 1 + text.val.length, 0⟩],
          front.length, count + 1⟩ := by
      rw [pushValue, countInSuper_at, ok_bind]
    have hdrop : (text.val ++ quote :: (before.val ++ colon :: (after.val ++ rest))).drop
        (text.val.length + 1) = before.val ++ colon :: (after.val ++ rest) := by simp
    have hrender : (Label.key text before after).render ++ rest =
        quote :: (text.val ++ quote :: (before.val ++ colon :: (after.val ++ rest))) := by
      simp [Label.render]
    have hsuper : (((front ++ s.counted :: behind) ++
        [(⟨.string, pos + 1, pos + 1 + text.val.length, 0⟩ : Token)]).length : ℤ) - 1 =
        ((front ++ s.counted :: behind).length : ℕ) := by
      rw [List.length_append, List.length_singleton]
      push_cast
      omega
    refine ⟨⟨(front ++ s.counted :: behind) ++
      [⟨.string, pos + 1, pos + 1 + text.val.length, 0⟩],
      (front ++ s.counted :: behind).length, count + 1⟩, ?_, ?_, rfl, ?_⟩
    · rw [hrender, parseFrom_string hlength hfull hpush, hdrop,
        parseFrom_blanks before.property, parseFrom_colon,
        parseFrom_blanks after.property, hsuper]
      congr 1
      simp only [Label.render, List.length_cons, List.length_append]
      omega
    · rw [countInSuper_at _ []]
      simp [Label.nodes, tokenOf, typeOf, Token.counted, Node.stop]
    · intro u more
      right
      refine ⟨_, readAt_natCast _ _ (tokenOf ⟨.string, pos + 1, text.val, 1⟩) ?_, rfl⟩
      simp [Label.nodes]

theorem tokensOf_cons {keyed : Bool} {lead : Blank} {label : Label keyed} {value : Value}
    {trail : Blank} {rest : Json (.items keyed)} {pos : ℕ} :
    tokensOf (.cons lead label value trail rest) pos =
      (label.nodes (pos + lead.val.length)).map tokenOf ++
        (tokensOf value (Json.valuePos pos lead label) ++
          tokensOf rest (Json.restPos pos lead label value trail rest)) := by
  simp only [tokensOf, Json.nodes, List.map_append]

/-- The tokenizer reads the first item up to what separates it from the others. -/
theorem reads_item {numTokens : ℕ} {keyed : Bool} (lead : Blank) (label : Label keyed)
    {value : Value} (trail : Blank) (hvalue : Reads numTokens value) {rest : List Byte} (pos : ℕ)
    (front : List Token) {behind : List Token} {s : Token} (count : ℤ) (hends : Ends rest)
    (hs : s.isContainer ∧ s.isOpen) (hbehind : ∀ t ∈ behind, t.isOpen = false)
    (hroom : front.length + 1 + behind.length + (label.nodes (pos + lead.val.length)).length +
      (value.nodes (Json.valuePos pos lead label)).length ≤ numTokens) :
    ∃ toksuper, parseFrom numTokens
        (lead.val ++ (label.render ++ (value.render ++ (trail.val ++ rest)))) pos
        ⟨front ++ s :: behind, front.length, count⟩ =
      parseFrom numTokens rest
        (Json.valuePos pos lead label + value.render.length + trail.val.length)
        ⟨front ++ s.counted :: (behind ++ (label.nodes (pos + lead.val.length)).map tokenOf ++
          tokensOf value (Json.valuePos pos lead label)), toksuper,
          count + (label.nodes (pos + lead.val.length)).length +
            (value.nodes (Json.valuePos pos lead label)).length⟩ ∧
      (∀ t ∈ behind ++ (label.nodes (pos + lead.val.length)).map tokenOf ++
        tokensOf value (Json.valuePos pos lead label), t.isOpen = false) ∧
      (toksuper = front.length ∨ ∃ t, readAt (front ++ s.counted ::
        (behind ++ (label.nodes (pos + lead.val.length)).map tokenOf ++
          tokensOf value (Json.valuePos pos lead label))) toksuper = .ok t ∧
        t.isContainer = false) := by
  have hopen : s.counted.isOpen := hs.2
  have hfirst : front.length + 1 + behind.length +
      (label.nodes (pos + lead.val.length)).length ≤ numTokens := by omega
  obtain ⟨q, hlabel, hcount, hq, hback⟩ := reads_label label (value.render ++ (trail.val ++ rest))
    (pos + lead.val.length) front behind s count hfirst
  have hfull : (front ++ s.counted :: (behind ++
      (label.nodes (pos + lead.val.length)).map tokenOf)).length +
      (value.nodes (Json.valuePos pos lead label)).length ≤ numTokens := by
    simp only [List.length_append, List.length_cons, List.length_map]
    omega
  obtain ⟨toksuper, hread, hsuper⟩ := hvalue _ (Json.valuePos pos lead label) q _
    (ends_blank trail hends) hcount hfull
  generalize hlab : (label.nodes (pos + lead.val.length)).map tokenOf = lab at *
  have hlabClosed : ∀ t ∈ behind ++ lab, t.isOpen = false := by
    intro t ht
    rcases List.mem_append.mp ht with ht | ht
    · exact hbehind t ht
    · rw [← hlab] at ht
      exact tokenOf_closed t ht
  have hclosed : ∀ t ∈ behind ++ lab ++ tokensOf value (Json.valuePos pos lead label),
      t.isOpen = false := by
    intro t ht
    rcases List.mem_append.mp ht with ht | ht
    · exact hlabClosed t ht
    · exact tokenOf_closed t ht
  have htokens : (front ++ s.counted :: (behind ++ lab)) ++
      tokensOf value (Json.valuePos pos lead label) =
      front ++ s.counted :: (behind ++ lab ++ tokensOf value (Json.valuePos pos lead label)) := by
    simp
  refine ⟨toksuper, ?_, hclosed, ?_⟩
  · rw [parseFrom_blanks lead.property, hlabel, ← Json.valuePos, hread,
      parseFrom_blanks trail.property, htokens, hq]
  · rcases hsuper with rfl | rfl
    · exact hback _ _
    · rw [lastOpen_eq hopen hlabClosed]
      exact .inl rfl

theorem reads_cons {numTokens : ℕ} {keyed : Bool} (lead : Blank) (label : Label keyed)
    (value : Value) (trail : Blank) (items : Json (.items keyed)) (hvalue : Reads numTokens value)
    (hitems : Reads numTokens items) : Reads numTokens (.cons lead label value trail items) := by
  intro rest pos front behind s count hends hs hbehind hroom
  have hnodes : ((Json.cons lead label value trail items).nodes pos).length =
      (label.nodes (pos + lead.val.length)).length +
        (value.nodes (Json.valuePos pos lead label)).length +
        (items.nodes (Json.restPos pos lead label value trail items)).length := by
    rw [Json.nodes, List.length_append, List.length_append, Nat.add_assoc]
  have hrender : (Json.cons lead label value trail items).render ++ rest =
      lead.val ++ (label.render ++ (value.render ++ (trail.val ++
        (items.sep ++ (items.render ++ rest))))) := by
    simp
  rw [hnodes] at hroom
  have hs' : s.counted.isContainer ∧ s.counted.isOpen := hs
  have hfirst : front.length + 1 + behind.length +
      (label.nodes (pos + lead.val.length)).length +
        (value.nodes (Json.valuePos pos lead label)).length ≤ numTokens := by omega
  obtain ⟨toksuper, hitem, hclosed, hgoes⟩ := reads_item lead label trail hvalue pos front count
    (ends_sep items hends) hs hbehind hfirst
  have hcounts : count + (label.nodes (pos + lead.val.length)).length +
      (value.nodes (Json.valuePos pos lead label)).length +
      (items.nodes (Json.restPos pos lead label value trail items)).length =
      count + ((Json.cons lead label value trail items).nodes pos).length := by
    rw [hnodes]
    push_cast
    omega
  rw [hrender, hitem, tokensOf_cons]
  cases items with
  | nil =>
    refine ⟨toksuper, ?_⟩
    have hsize : counted s (Json.cons lead label value trail (.nil keyed)).count = s.counted := rfl
    have hnone : tokensOf (Json.nil keyed)
        (Json.restPos pos lead label value trail (.nil keyed)) = [] := rfl
    rw [hsize, hnone, List.append_nil, ← List.append_assoc behind, Json.length_render_cons,
      ← hcounts]
    simp [Json.sep, Json.render, Json.nodes, Json.restPos]
  | cons lead' label' value' trail' items' =>
    have hitemsRoom : front.length + 1 +
        (behind ++ (label.nodes (pos + lead.val.length)).map tokenOf ++
          tokensOf value (Json.valuePos pos lead label)).length +
        ((Json.cons lead' label' value' trail' items').nodes (Json.restPos pos lead label value
          trail (.cons lead' label' value' trail' items'))).length ≤ numTokens := by
      simp only [tokensOf, List.length_append, List.length_map]
      omega
    obtain ⟨toksuper', hrest⟩ := hitems rest (Json.restPos pos lead label value trail
      (.cons lead' label' value' trail' items')) front _ s.counted
      (count + (label.nodes (pos + lead.val.length)).length +
        (value.nodes (Json.valuePos pos lead label)).length) hends hs' hclosed hitemsRoom
    refine ⟨toksuper', ?_⟩
    have hsize : counted s (Json.cons lead label value trail
        (.cons lead' label' value' trail' items')).count =
        counted s.counted (Json.cons lead' label' value' trail' items').count := by
      simp only [counted, Token.counted, Json.count]
      congr 1
      push_cast
      omega
    have hcomma : (Json.cons lead' label' value' trail' items').sep = [comma] := rfl
    rw [hcomma, List.singleton_append, parseFrom_comma (nextMember_back hs' hclosed hgoes), hsize,
      Json.length_render_cons, ← hcounts]
    have hpos : Json.valuePos pos lead label + value.render.length + trail.val.length + 1 =
        Json.restPos pos lead label value trail (.cons lead' label' value' trail' items') := rfl
    rw [hpos, hrest]
    simp only [List.append_assoc]

theorem reads_container {numTokens : ℕ} {keyed : Bool} (blank : Blank)
    (items : Json (.items keyed)) (hitems : Reads numTokens items) :
    Reads numTokens (.container keyed blank items) := by
  intro rest pos q tokens _ hcount hroom
  have hlength := countInSuper_length hcount
  have hnodes : ((Json.container keyed blank items).nodes pos).length =
      (items.nodes (pos + 1 + blank.val.length)).length + 1 := List.length_cons
  have hrender : (Json.container keyed blank items).render ++ rest =
      opening keyed :: (blank.val ++ (items.render ++ (closing keyed :: rest))) := by
    simp [Json.render]
  have hbracket : opening keyed = leftBrace ∨ opening keyed = leftBracket := by
    cases keyed
    · exact .inr rfl
    · exact .inl rfl
  have hbracket' : closing keyed = rightBrace ∨ closing keyed = rightBracket := by
    cases keyed
    · exact .inr rfl
    · exact .inl rfl
  have htype : (if opening keyed = leftBrace then TokenType.object else .array) =
      typeOf (containerKind keyed) := by cases keyed <;> rfl
  have htype' : (if closing keyed = rightBrace then TokenType.object else .array) =
      typeOf (containerKind keyed) := by cases keyed <;> rfl
  rw [hnodes] at hroom
  generalize htokenType : typeOf (containerKind keyed) = type at *
  have hopen : openContainer q (if opening keyed = leftBrace then .object else .array) pos =
      .ok ⟨tokens ++ [⟨type, pos, -1, 0⟩], tokens.length, q.count + 1⟩ := by
    rw [openContainer, hcount, ok_bind, htype, hlength]
  have hs : Token.isContainer ⟨type, pos, -1, 0⟩ ∧ Token.isOpen ⟨type, pos, -1, 0⟩ := by
    rw [← htokenType]
    constructor
    · cases keyed <;> rfl
    · have hne : (pos : ℤ) ≠ -1 := by omega
      simp [Token.isOpen, hne]
  have hends : Ends (closing keyed :: rest) := by
    intro c hc
    obtain rfl := Option.some.inj hc
    cases keyed <;> exact .inr rfl
  have hitemsRoom : tokens.length + 1 + ([] : List Token).length +
      (items.nodes (pos + 1 + blank.val.length)).length ≤ numTokens := by
    rw [List.length_nil]
    omega
  obtain ⟨toksuper, hread⟩ := hitems (closing keyed :: rest) (pos + 1 + blank.val.length) tokens
    [] ⟨type, pos, -1, 0⟩ (q.count + 1) hends hs (by simp) hitemsRoom
  rw [List.nil_append] at hread
  have hclose := closeContainer_closed tokens (tokensOf items (pos + 1 + blank.val.length))
    (counted ⟨type, pos, -1, 0⟩ items.count) toksuper
    (q.count + 1 + (items.nodes (pos + 1 + blank.val.length)).length)
    (pos + 1 + blank.val.length + items.render.length) hs.2 tokenOf_closed
  refine ⟨lastOpen tokens, ?_, .inr rfl⟩
  rw [hrender, parseFrom_open hbracket (by omega) hopen, parseFrom_blanks blank.property,
    hread, parseFrom_close hbracket' (by rw [htype']; exact hclose)]
  have hsize : (Json.container keyed blank items).render.length =
      1 + blank.val.length + items.render.length + 1 := by
    simp only [Json.render, List.length_cons, List.length_append, List.length_nil]
    omega
  have htokens : tokensOf (.container keyed blank items) pos =
      { counted ⟨type, pos, -1, 0⟩ items.count with
        stop := (pos + 1 + blank.val.length + items.render.length : ℕ) + 1 } ::
        tokensOf items (pos + 1 + blank.val.length) := by
    rw [tokensOf, Json.nodes, List.map_cons, tokenOf, htokenType, Node.stop, hsize]
    simp only [counted, zero_add]
    congr 2
    push_cast
    omega
  rw [htokens, hnodes, hsize]
  congr 1
  · omega
  · congr 1
    push_cast
    omega

/-- Whatever the tree, it is read so. -/
theorem reads (numTokens : ℕ) {p : Part} (j : Json p) : Reads numTokens j := by
  induction j with
  | primitive text => exact reads_primitive numTokens text
  | string text => exact reads_string numTokens text
  | container keyed blank items ih => exact reads_container blank items ih
  | nil keyed =>
    intro rest pos front behind s count _ _ _ _
    refine ⟨front.length, ?_⟩
    simp [Json.render, Json.nodes, Json.count, tokensOf, counted]
  | cons lead label value trail items ihvalue ihitems =>
    exact reads_cons lead label value trail items ihvalue ihitems

def tableOf (d : Document) : List Token := d.nodes.map tokenOf

/-- The token table of a well-formed text that ends its array or is followed by a terminator. -/
theorem jsmnParse_terminated (d : Document) {numTokens : ℕ} (hroom : d.nodes.length ≤ numTokens)
    (beyond : List Byte) (hnul : ∀ c ∈ beyond.head?, c = 0) :
    jsmnParse (d.text ++ beyond) numTokens = .ok (d.nodes.length, tableOf d) := by
  have hstart : countInSuper ⟨[], -1, 0⟩ = .ok [] := rfl
  have hends : Ends (d.trail.val ++ beyond) := ends_blank d.trail (fun c hc => .inl (hnul c hc))
  have hfull : ([] : List Token).length + (d.value.nodes d.lead.val.length).length ≤ numTokens := by
    rw [List.length_nil, Nat.zero_add]
    exact hroom
  obtain ⟨toksuper, hread, -⟩ := reads numTokens d.value _ d.lead.val.length ⟨[], -1, 0⟩ []
    hends hstart hfull
  have htext : d.text ++ beyond = d.lead.val ++ (d.value.render ++ (d.trail.val ++ beyond)) := by
    rw [Document.text, List.append_assoc, List.append_assoc]
  have hend : ∀ (pos : ℕ) (q : Parser), parseFrom numTokens beyond pos q = .ok (finish q) := by
    intro pos q
    cases beyond with
    | nil => rfl
    | cons c beyond =>
      obtain rfl := hnul c rfl
      rfl
  rw [jsmnParse_eq, htext, parseFrom_blanks d.lead.property, Nat.zero_add, hread,
    parseFrom_blanks d.trail.property, hend, finish_closed _ tokenOf_closed]
  simp only [zero_add]
  rfl

/-- The token table of a well-formed text. -/
theorem jsmnParse_document (d : Document) {numTokens : ℕ} (hroom : d.nodes.length ≤ numTokens) :
    jsmnParse d.text numTokens = .ok (d.nodes.length, tableOf d) := by
  have h := jsmnParse_terminated d hroom [] (fun c hc => by cases hc)
  rwa [List.append_nil] at h

/-- The tokenizer comes to its end on a well-formed text, also when this has too many tokens. -/
theorem exists_jsmnParse (d : Document) (numTokens : ℕ) :
    ∃ r, jsmnParse d.text numTokens = .ok r := by
  rcases le_total d.nodes.length numTokens with hroom | hfew
  · exact ⟨_, jsmnParse_document d hroom⟩
  · exact parseLoop_smaller hfew ⟨_, jsmnParse_document d le_rfl⟩

end

end IoTRepublic.JsonTable
