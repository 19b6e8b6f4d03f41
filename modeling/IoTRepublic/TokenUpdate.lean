import IoTRepublic.CommandCodec
import IoTRepublic.KeyPath
import IoTRepublic.Foundation.Runs

/-!
Tokens after a value has been set. In a well-formed text that ends with its
object, putting a word in the place of another gives a well-formed text, and the
shift of the offsets that `set_jsfile_single_value` makes is the one that the
tokenizer would find: the tokens in front of the word stay, those behind it move,
and the objects and arrays around it grow.
-/
namespace IoTRepublic.TokenUpdate

open CheckedArray Package Jsmn JsmnTokens JsFileParser Lookup CommandCodec JsonText JsonTable
open KeyPath Runs

/-- A token at a place that is `k` characters further on. -/
def moved (k : ℤ) (t : Token) : Token := { t with start := t.start + k, stop := t.stop + k }

theorem tokensOf_move {p : Part} (j : Json p) (pos pos' : ℕ) :
    tokensOf j pos' = (tokensOf j pos).map (moved (pos' - pos)) := by
  induction j generalizing pos pos' with
  | primitive text =>
    simp [tokensOf, Json.nodes, tokenOf, moved, Node.stop]
    omega
  | string text =>
    simp [tokensOf, Json.nodes, tokenOf, moved, Node.stop]
    omega
  | container keyed blank items ih =>
    have hitems := ih (pos + 1 + blank.val.length) (pos' + 1 + blank.val.length)
    have hshift : ((pos' + 1 + blank.val.length : ℕ) : ℤ) - (pos + 1 + blank.val.length : ℕ) =
        pos' - pos := by
      push_cast
      omega
    rw [hshift] at hitems
    simp only [tokensOf, Json.nodes, List.map_cons, List.cons.injEq] at hitems ⊢
    refine ⟨?_, hitems⟩
    simp [tokenOf, moved, Node.stop]
    omega
  | nil => rfl
  | cons lead label value trail rest ihvalue ihrest =>
    have hvalue := ihvalue (Json.valuePos pos lead label) (Json.valuePos pos' lead label)
    have hrest := ihrest (Json.restPos pos lead label value trail rest)
      (Json.restPos pos' lead label value trail rest)
    have hshift : ((Json.valuePos pos' lead label : ℕ) : ℤ) - Json.valuePos pos lead label =
        pos' - pos := by
      simp only [Json.valuePos]
      push_cast
      omega
    have hshift' : ((Json.restPos pos' lead label value trail rest : ℕ) : ℤ) -
        Json.restPos pos lead label value trail rest = pos' - pos := by
      simp only [Json.restPos, Json.valuePos]
      push_cast
      omega
    rw [hshift] at hvalue
    rw [hshift'] at hrest
    simp only [tokensOf, Json.nodes, List.map_append] at hvalue hrest ⊢
    rw [hvalue, hrest]
    congr 1
    cases label with
    | key text before behind =>
      simp [Label.nodes, tokenOf, moved, Node.stop]
      omega
    | none => rfl

section

variable {range : Range} {shift : ℤ} {tokens : List Token}

theorem shiftToken_front (h : ∀ t ∈ tokens, t.start ≤ range.start ∧ t.stop < range.start) :
    tokens.map (shiftToken range shift) = tokens := by
  have hsame : ∀ t ∈ tokens, shiftToken range shift t = t := by
    intro t ht
    rw [shiftToken, if_neg (not_lt.mpr (h t ht).1), if_neg (not_le.mpr (h t ht).2)]
  rw [List.map_congr_left hsame, List.map_id']

theorem shiftToken_behind (h : ∀ t ∈ tokens, range.start < t.start ∧ range.start ≤ t.stop) :
    tokens.map (shiftToken range shift) = tokens.map (moved shift) := by
  apply List.map_congr_left
  intro t ht
  rw [shiftToken, moved, if_pos (h t ht).1, if_pos (h t ht).2]

end

theorem quoted_of_bare {text : List Byte} (h : ∀ c ∈ text, isBare c) : isQuoted text := by
  have hchar : ∀ c, isBare c → c ≠ 0 ∧ c ≠ 34 ∧ c ≠ 92 := fun c hc =>
    ⟨ne_of_isPlain hc rfl, ne_of_isPlain hc rfl, ne_of_isPlain hc rfl⟩
  fun_induction isQuoted text with
  | case1 => rfl
  | case2 c =>
    have hc := hchar c (h c List.mem_cons_self)
    simp [hc]
  | case3 d rest ih =>
    exact absurd rfl (hchar 92 (h _ List.mem_cons_self)).2.2
  | case4 c d rest hback ih =>
    have hc := hchar c (h c List.mem_cons_self)
    have hrest := ih (fun d hd => h d (List.mem_cons_of_mem c hd))
    simp [hc, hrest]

theorem sep_of_count {keyed : Bool} {items items' : Json (.items keyed)}
    (h : items'.count = items.count) : items'.sep = items.sep := by
  cases items <;> cases items' <;> simp_all [Json.count, Json.sep]

theorem tokensOf_inside {p : Part} (j : Json p) {pos : ℕ} {t : Token} (ht : t ∈ tokensOf j pos) :
    (pos : ℤ) ≤ t.start ∧ t.start ≤ t.stop ∧ t.stop ≤ (pos + j.render.length : ℕ) := by
  obtain ⟨n, hn, rfl⟩ := List.mem_map.mp ht
  have hinside := j.nodes_inside hn
  have hle : n.start ≤ n.stop := Nat.le_add_right ..
  simp only [tokenOf]
  omega

section

variable {keyed : Bool} {lead : Blank} {label : Label keyed} {value : Value} {trail : Blank}
  {rest : Json (.items keyed)} {pos : ℕ}

/-- The tokens of a label end in front of the value. -/
theorem label_front {t : Token} (ht : t ∈ (label.nodes (pos + lead.val.length)).map tokenOf) :
    t.start ≤ t.stop ∧ t.stop < Json.valuePos pos lead label := by
  obtain ⟨n, hn, rfl⟩ := List.mem_map.mp ht
  have hinside := label.nodes_inside hn
  have hle : n.start ≤ n.stop := Nat.le_add_right ..
  simp only [tokenOf, Json.valuePos]
  omega

/-- The tokens of the items that follow begin behind the value. -/
theorem rest_behind {t : Token}
    (ht : t ∈ tokensOf rest (Json.restPos pos lead label value trail rest)) :
    (Json.valuePos pos lead label + value.render.length : ℕ) < t.start ∧ t.start ≤ t.stop := by
  have hinside := tokensOf_inside rest ht
  obtain ⟨n, hn, rfl⟩ := List.mem_map.mp ht
  have hsep := rest.sep_length hn
  rw [Json.restPos, hsep] at hinside
  omega

/-- The tokens of a label stay as they are where something behind the label is replaced. -/
theorem label_shift {n : Node} {shift : ℤ} (h : Json.valuePos pos lead label ≤ n.start) :
    ((label.nodes (pos + lead.val.length)).map tokenOf).map
        (shiftToken (rangeOf (tokenOf n)) shift) =
      (label.nodes (pos + lead.val.length)).map tokenOf := by
  apply shiftToken_front
  intro t ht
  have hfront := label_front ht
  simp only [rangeOf, tokenOf]
  omega

end

/-- A word in the place of another word: the text around it stays, and the tokens are those that
`set_jsfile_single_value` shifts. -/
def Replaced {p : Part} (j : Json p) (pos : ℕ) (n : Node) (new : List Byte) : Prop :=
  ∃ (j' : Json p) (front behind : List Byte), j.render = front ++ (n.text ++ behind) ∧
    n.start = pos + front.length ∧ j'.render = front ++ (new ++ behind) ∧
    j'.count = j.count ∧ tokensOf j' pos = (tokensOf j pos).map
      (shiftToken (rangeOf (tokenOf n)) (new.length - n.text.length))

section

variable {keyed : Bool} {lead blank : Blank} {label : Label keyed} {value : Value} {trail : Blank}
  {rest items : Json (.items keyed)} {pos : ℕ} {n : Node} {new : List Byte}

theorem replaced_container (hn : n ∈ items.nodes (pos + 1 + blank.val.length))
    (h : Replaced items (pos + 1 + blank.val.length) n new) :
    Replaced (.container keyed blank items) pos n new := by
  obtain ⟨items', front, behind, hrender, hstart, hrender', hcount, htokens⟩ := h
  have hinside := (items.nodes_inside hn).1
  refine ⟨.container keyed blank items', opening keyed :: (blank.val ++ front),
    behind ++ [closing keyed], by simp [Json.render, hrender], ?_,
    by simp [Json.render, hrender'], rfl, ?_⟩
  · rw [hstart, List.length_cons, List.length_append]
    omega
  · simp only [tokensOf, Json.nodes, List.map_cons, List.cons.injEq] at htokens ⊢
    refine ⟨?_, htokens⟩
    simp only [tokenOf, shiftToken, rangeOf, Node.stop, hcount, Json.render, hrender, hrender',
      List.length_cons, List.length_append]
    rw [if_neg (by omega), if_pos (by push_cast; omega)]
    simp
    omega

/-- The word is the key of the first item: everything behind the key moves. -/
theorem replaced_key {text : Quoted} {before behind : Blank} {rest : Json (.items true)}
    (hbare : ∀ c ∈ new, isBare c) :
    Replaced (.cons lead (.key text before behind) value trail rest) pos
      ⟨.string, pos + lead.val.length + 1, text.val, 1⟩ new := by
  have hpos : ((Json.valuePos pos lead (.key ⟨new, quoted_of_bare hbare⟩ before behind) : ℕ) :
      ℤ) - Json.valuePos pos lead (.key text before behind) = new.length - text.val.length := by
    simp only [Json.valuePos, Label.render, List.length_cons, List.length_append]
    push_cast
    omega
  have hpos' : ((Json.restPos pos lead (.key ⟨new, quoted_of_bare hbare⟩ before behind) value
      trail rest : ℕ) : ℤ) - Json.restPos pos lead (.key text before behind) value trail rest =
        new.length - text.val.length := by
    rw [← hpos]
    simp only [Json.restPos]
    push_cast
    omega
  have hbehind : (tokensOf value (Json.valuePos pos lead (.key text before behind)) ++
      tokensOf rest (Json.restPos pos lead (.key text before behind) value trail rest)).map
        (shiftToken (rangeOf (tokenOf ⟨.string, pos + lead.val.length + 1, text.val, 1⟩))
          (new.length - text.val.length)) =
      (tokensOf value (Json.valuePos pos lead (.key text before behind)) ++
        tokensOf rest (Json.restPos pos lead (.key text before behind) value trail rest)).map
          (moved (new.length - text.val.length)) := by
    apply shiftToken_behind
    intro t ht
    simp only [rangeOf, tokenOf]
    have hlabel : pos + lead.val.length + 1 <
        Json.valuePos pos lead (.key text before behind) := by
      simp only [Json.valuePos, Label.render, List.length_cons, List.length_append]
      omega
    rcases List.mem_append.mp ht with ht | ht
    · have hinside := tokensOf_inside value ht
      omega
    · have hinside := rest_behind ht
      omega
  refine ⟨.cons lead (.key ⟨new, quoted_of_bare hbare⟩ before behind) value trail rest,
    lead.val ++ [34], 34 :: (before.val ++ 58 :: (behind.val ++ (value.render ++
      (trail.val ++ (rest.sep ++ rest.render))))), by simp [Label.render], by simp; omega,
    by simp [Label.render], rfl, ?_⟩
  rw [tokensOf_cons, tokensOf_cons, List.map_append, hbehind, List.map_append,
    tokensOf_move value, hpos, tokensOf_move rest, hpos']
  simp [Label.nodes, tokenOf, shiftToken, rangeOf, Node.stop]

/-- The word is in the value of the first item: the items behind the value move. -/
theorem replaced_value (hn : n ∈ value.nodes (Json.valuePos pos lead label))
    (h : Replaced value (Json.valuePos pos lead label) n new) :
    Replaced (.cons lead label value trail rest) pos n new := by
  obtain ⟨value', front, behind, hrender, hstart, hrender', hcount, htokens⟩ := h
  have hinside := value.nodes_inside hn
  have hle : n.start ≤ n.stop := Nat.le_add_right ..
  have hpos : ((Json.restPos pos lead label value' trail rest : ℕ) : ℤ) -
      Json.restPos pos lead label value trail rest = new.length - n.text.length := by
    simp only [Json.restPos, hrender, hrender', List.length_append]
    push_cast
    omega
  refine ⟨.cons lead label value' trail rest, lead.val ++ (label.render ++ front),
    behind ++ (trail.val ++ (rest.sep ++ rest.render)), by simp [hrender], ?_,
    by simp [hrender'], rfl, ?_⟩
  · rw [hstart, Json.valuePos]
    simp only [List.length_append]
    omega
  · have hrest : (tokensOf rest (Json.restPos pos lead label value trail rest)).map
        (shiftToken (rangeOf (tokenOf n)) (new.length - n.text.length)) =
          (tokensOf rest (Json.restPos pos lead label value trail rest)).map
            (moved (new.length - n.text.length)) := by
      apply shiftToken_behind
      intro t ht
      have hbehind := rest_behind ht
      simp only [rangeOf, tokenOf]
      omega
    rw [tokensOf_cons, tokensOf_cons, List.map_append, List.map_append, ← htokens,
      label_shift hinside.1, hrest, tokensOf_move rest, hpos]

/-- The word is behind the first item, which stays where it is. -/
theorem replaced_rest (hn : n ∈ rest.nodes (Json.restPos pos lead label value trail rest))
    (h : Replaced rest (Json.restPos pos lead label value trail rest) n new) :
    Replaced (.cons lead label value trail rest) pos n new := by
  obtain ⟨rest', front, behind, hrender, hstart, hrender', hcount, htokens⟩ := h
  have hsep := sep_of_count hcount
  have hbehind := rest_behind (List.mem_map_of_mem (f := tokenOf) hn)
  have hlabel : Json.valuePos pos lead label ≤ n.start := by
    simp only [tokenOf] at hbehind
    omega
  refine ⟨.cons lead label value trail rest',
    lead.val ++ (label.render ++ (value.render ++ (trail.val ++ (rest.sep ++ front)))),
    behind, by simp [hrender], ?_, by simp [hrender', hsep], by simp [Json.count, hcount], ?_⟩
  · rw [hstart, Json.restPos, Json.valuePos]
    simp only [List.length_append]
    omega
  · have hpos : Json.restPos pos lead label value trail rest' =
        Json.restPos pos lead label value trail rest := by
      simp only [Json.restPos, hsep]
    have hvalue : (tokensOf value (Json.valuePos pos lead label)).map
        (shiftToken (rangeOf (tokenOf n)) (new.length - n.text.length)) =
          tokensOf value (Json.valuePos pos lead label) := by
      apply shiftToken_front
      intro t ht
      have hinside := tokensOf_inside value ht
      simp only [rangeOf]
      omega
    rw [tokensOf_cons, tokensOf_cons, hpos, htokens, List.map_append, List.map_append,
      label_shift hlabel, hvalue]

end

theorem exists_replaced {p : Part} (j : Json p) {pos : ℕ} {n : Node} (hn : n ∈ j.nodes pos)
    (hword : n.isWord) {new : List Byte} (hne : new ≠ []) (hbare : ∀ c ∈ new, isBare c) :
    Replaced j pos n new := by
  induction j generalizing pos with
  | primitive text =>
    obtain rfl := List.mem_singleton.mp hn
    refine ⟨.primitive ⟨new, hne, hbare⟩, [], [], by simp [Json.render], rfl,
      by simp [Json.render], rfl, ?_⟩
    simp [tokensOf, Json.nodes, tokenOf, shiftToken, rangeOf, Node.stop]
  | string text =>
    obtain rfl := List.mem_singleton.mp hn
    refine ⟨.string ⟨new, quoted_of_bare hbare⟩, [34], [34], by simp [Json.render], rfl,
      by simp [Json.render], rfl, ?_⟩
    simp [tokensOf, Json.nodes, tokenOf, shiftToken, rangeOf, Node.stop]
  | container keyed blank items ih =>
    rcases List.mem_cons.mp hn with rfl | hn
    · cases keyed <;> simp [Node.isWord, containerKind] at hword
    · exact replaced_container hn (ih hn)
  | nil => cases hn
  | cons lead label value trail rest ihvalue ihrest =>
    rcases List.mem_append.mp hn with hn | hn
    · cases label with
      | none => cases hn
      | key text before behind =>
        obtain rfl := List.mem_singleton.mp hn
        exact replaced_key hbare
    rcases List.mem_append.mp hn with hn | hn
    · exact replaced_value hn (ihvalue hn)
    · exact replaced_rest hn (ihrest hn)

theorem typeOf_injective {k k' : Kind} (h : typeOf k = typeOf k') : k = k' := by
  cases k <;> cases k' <;> first | rfl | cases h

/-- A text with a word in the place of another word. -/
theorem exists_document (doc : Document) {n : Node} (hn : n ∈ doc.nodes) (hword : n.isWord)
    {new : List Byte} (hne : new ≠ []) (hbare : ∀ c ∈ new, isBare c) :
    ∃ (doc' : Document) (front behind : List Byte), doc.text = front ++ (n.text ++ behind) ∧
      n.start = front.length ∧ doc'.text = front ++ (new ++ behind) ∧ doc'.trail = doc.trail ∧
      (doc'.value.root doc'.lead.val.length).kind = (doc.value.root doc.lead.val.length).kind ∧
      tableOf doc' = (tableOf doc).map
        (shiftToken (rangeOf (tokenOf n)) (new.length - n.text.length)) := by
  obtain ⟨value', front, behind, hrender, hstart, hrender', -, htokens⟩ :=
    exists_replaced doc.value hn hword hne hbare
  refine ⟨⟨doc.lead, value', doc.trail⟩, doc.lead.val ++ front, behind ++ doc.trail.val, ?_, ?_,
    ?_, rfl, ?_, htokens⟩
  · rw [Document.text, hrender]
    simp
  · rw [hstart, List.length_append]
  · rw [Document.text, hrender']
    simp
  · obtain ⟨tail, htail⟩ := doc.value.nodes_eq_root doc.lead.val.length
    obtain ⟨tail', htail'⟩ := value'.nodes_eq_root doc.lead.val.length
    rw [tokensOf, tokensOf, htail, htail', List.map_cons, List.map_cons, List.map_cons,
      List.cons.injEq] at htokens
    exact typeOf_injective (congrArg Token.type htokens.1)

/-- A call of `set_jsfile_single_value`: the path, the value, and the memory behind the value. -/
structure Call where
  key : List (List Byte)
  value : List Byte
  beyond : List Byte

/-- The call finds a string or an unquoted value of at least one character, its value is a word
of letters, digits, dots, underscores and hyphens, and the text stays short enough. -/
structure Permitted (d : JsonData) (c : Call) : Prop where
  value : IsFieldText c.value
  found : ∃ t ∈ d.tokens.take d.tokenSize.toNat, (t.type = .string ∨ t.type = .primitive) ∧
    t.start < t.stop ∧ (getAllRange d.tokens >>= findRange d c.key) = .ok (rangeOf t) ∧
    ∃ text, cString 0 d.content = .ok text ∧
      text.length + c.value.length - (t.stop - t.start) < MAXCONTENTSIZE

def Sets (d : JsonData) (c : Call) (d' : JsonData) : Prop :=
  setJsfileSingleValue (c.value ++ 0 :: c.beyond) c.key d = .ok d'

/-- A well-formed text that ends with its object, with the table and the length of the text. -/
structure Whole (d : JsonData) (doc : Document) : Prop where
  loaded : Loaded d doc
  contentSize : d.contentSize = doc.text.length
  last : doc.trail.val = []
  object : (doc.value.root doc.lead.val.length).kind = .object

section

variable {d d' : JsonData} {doc : Document} {c : Call}

theorem Loaded.few (h : Loaded d doc) : doc.nodes.length ≤ MAXTOKENSIZE := by
  obtain ⟨others, hothers⟩ := h.shows_text.tokenFront
  have hroom := h.shows_text.tokenRoom
  rw [hothers, List.length_append, tableOf, List.length_map] at hroom
  omega

theorem Whole.cString_eq (h : Whole d doc) : cString 0 d.content = .ok doc.text := by
  obtain ⟨beyond, hcontent⟩ := h.loaded.shows_text.content
  rw [hcontent]
  exact cString_append 0 doc.text beyond doc.zero_notMem_text

theorem Whole.initToken_eq (h : Whole d doc) : initToken d = .ok d := by
  obtain ⟨others, hothers⟩ := h.loaded.shows_text.tokenFront
  have htokens : splice d.tokens 0 (tableOf doc) = d.tokens := by
    rw [splice_zero, hothers, List.drop_left]
  rw [initToken, h.cString_eq, ok_bind, jsmnParse_document doc (Loaded.few h.loaded), ok_bind]
  dsimp only
  rw [htokens, ← h.loaded.count, ← h.contentSize]

/-- The object ends where the text ends. -/
theorem root_stop (hlast : doc.trail.val = [])
    (hobject : (doc.value.root doc.lead.val.length).kind = .object) :
    (doc.value.root doc.lead.val.length).stop = doc.text.length := by
  have hroot : (doc.value.root doc.lead.val.length).stop =
      doc.lead.val.length + doc.value.render.length := by
    cases hv : doc.value with
    | primitive text =>
      rw [hv] at hobject
      cases hobject
    | string text =>
      rw [hv] at hobject
      cases hobject
    | container keyed blank items => rfl
  rw [hroot, Document.text, hlast]
  simp only [List.append_nil, List.length_append]

/-- A permitted call succeeds and leaves a text with its table. -/
theorem Whole.exists_set (h : Whole d doc) (hc : Permitted d c) :
    ∃ d' doc', Sets d c d' ∧ Whole d' doc' := by
  obtain ⟨t, ht, htype, hpos, hfind, text, htext, hroom⟩ := hc.found
  rw [h.cString_eq] at htext
  obtain rfl := Except.ok.inj htext
  obtain ⟨beyond, hcontent⟩ := h.loaded.shows_text.content
  obtain ⟨others, hothers⟩ := h.loaded.shows_text.tokenFront
  have htableLength : (tableOf doc).length = doc.nodes.length := List.length_map ..
  -- the token is a word of the text
  rw [h.loaded.count, Int.toNat_natCast, ← htableLength, hothers, List.take_left] at ht
  obtain ⟨n, hn, rfl⟩ := List.mem_map.mp ht
  have hold : n.text ≠ [] := by
    simp only [tokenOf, Node.stop] at hpos
    exact List.ne_nil_of_length_pos (by omega)
  obtain ⟨doc', front, behind, hdoc, hstart, hdoc', hlast, hobject, htable⟩ :=
    exists_document doc hn ((isWord_iff n).mpr htype) hc.value.ne_nil
      (fun b hb => isPlain_of_isFieldChar (hc.value.chars b hb))
  have hrange : rangeOf (tokenOf n) = ⟨front.length, front.length + n.text.length⟩ := by
    simp only [rangeOf, tokenOf, Node.stop, hstart]
    push_cast
    rfl
  have hlength : (doc'.text.length : ℤ) - doc.text.length = c.value.length - n.text.length := by
    rw [hdoc, hdoc']
    simp only [List.length_append]
    push_cast
    omega
  have hshort : doc'.text.length < MAXCONTENTSIZE := by
    simp only [tokenOf, Node.stop] at hroom
    omega
  -- the call, with the object's token in front of the others
  obtain ⟨tail, htail⟩ := doc.value.nodes_eq_root doc.lead.val.length
  have hstop := root_stop h.last h.object
  have hcons : tableOf doc = tokenOf (doc.value.root doc.lead.val.length) :: tail.map tokenOf := by
    rw [tableOf, Document.nodes, htail, List.map_cons]
  have hread : readAt d.tokens 0 = .ok (tokenOf (doc.value.root doc.lead.val.length)) :=
    readAt_natCast d.tokens 0 _ (by rw [hothers, hcons]; rfl)
  rw [getAllRange, hread, ok_bind, ok_bind, hrange] at hfind
  have hnew : front ++ c.value ++ behind = doc'.text := by
    rw [hdoc', List.append_assoc]
  obtain ⟨rest', hset, hsize⟩ := setJsfileSingleValue_eq front n.text behind beyond c.value c.beyond
    (by rw [hothers, hcons]) (by rw [h.loaded.count, ← htableLength, hcons]) hfind
    (by rw [hcontent, hdoc]; simp) h.loaded.shows_text.contentRoom hold
    (by rw [hnew]; exact doc'.zero_notMem_text) (by rw [hnew]; exact hshort)
  have hshift : ((front ++ c.value ++ behind).length : ℤ) -
      (tokenOf (doc.value.root doc.lead.val.length)).stop = c.value.length - n.text.length := by
    rw [hnew, tokenOf, hstop, hlength]
  rw [hshift, ← hcons, ← hrange, ← htable, hnew] at hset
  rw [hnew] at hsize
  have hfew : doc'.nodes.length = doc.nodes.length := by
    have hsame := congrArg List.length htable
    rw [List.length_map, htableLength, tableOf, List.length_map] at hsame
    exact hsame
  have htokens : (tableOf doc' ++ others).length = MAXTOKENSIZE := by
    have hall := h.loaded.shows_text.tokenRoom
    rw [hothers, List.length_append] at hall
    rw [List.length_append, htable, List.length_map]
    exact hall
  have hparse := jsmnParse_document doc' (hfew.trans_le (Loaded.few h.loaded))
  have hcount : d.tokenSize = doc'.nodes.length := by rw [h.loaded.count, hfew]
  refine ⟨_, doc', hset, ⟨⟨doc'.zero_notMem_text, ⟨rest', rfl⟩, hsize, ⟨others, rfl⟩, htokens, ?_⟩,
    hcount⟩, ?_, by rw [hlast]; exact h.last, hobject.trans h.object⟩
  · rw [hcount]
    exact tokenized_jsmnParse hparse
  · have hle : n.start ≤ n.stop := Nat.le_add_right ..
    have hnstop : n.stop ≤ doc.text.length := by
      rw [hdoc, Node.stop, hstart]
      simp only [List.length_append]
      omega
    simp only [shiftToken, rangeOf, tokenOf, hstop]
    rw [if_pos (by omega)]
    omega

end

/-- For every well-formed text of at most 1023 characters and 128 tokens that ends with its
object, and every run of permitted calls: tokenizing again changes nothing, neither the table nor
the lengths, and every permitted call after them succeeds. -/
theorem initToken_run {doc : Document} {d₀ d₁ d₂ : JsonData} {beyond : List Byte}
    {calls : List Call} (hcontent : d₀.content = doc.text ++ 0 :: beyond)
    (hroom : d₀.content.length = MAXCONTENTSIZE) (htokens : d₀.tokens.length = MAXTOKENSIZE)
    (hfew : doc.nodes.length ≤ MAXTOKENSIZE) (hlast : doc.trail.val = [])
    (hobject : (doc.value.root doc.lead.val.length).kind = .object)
    (hinit : initToken d₀ = .ok d₁) (hrun : Run (Meeting Sets Permitted) d₁ calls d₂) :
    initToken d₂ = .ok d₂ ∧ ∀ c, Permitted d₂ c → ∃ d₃, Sets d₂ c d₃ := by
  have hwhole : ∃ doc', Whole d₁ doc' := by
    refine ⟨doc, loaded_initToken hcontent hroom htokens hfew hinit, ?_, hlast, hobject⟩
    obtain ⟨text, htext, hinit⟩ := bind_eq_ok.mp hinit
    rw [hcontent, cString_append 0 doc.text beyond doc.zero_notMem_text] at htext
    obtain rfl := Except.ok.inj htext
    obtain ⟨⟨n, tokens⟩, -, hinit⟩ := bind_eq_ok.mp hinit
    obtain rfl := Except.ok.inj hinit
    rfl
  have hstep : ∀ d c d', (∃ doc', Whole d doc') → Meeting Sets Permitted d c d' →
      ∃ doc', Whole d' doc' := by
    rintro d c d' ⟨doc', h⟩ ⟨hset, hc⟩
    obtain ⟨e, doc'', hset', hwhole'⟩ := h.exists_set hc
    rw [Sets] at hset hset'
    rw [hset] at hset'
    obtain rfl := Except.ok.inj hset'
    exact ⟨doc'', hwhole'⟩
  obtain ⟨doc', h⟩ := hrun.invariant (fun d => ∃ doc', Whole d doc') hstep hwhole
  refine ⟨h.initToken_eq, fun c hc => ?_⟩
  obtain ⟨d₃, -, hset, -⟩ := h.exists_set hc
  exact ⟨d₃, hset⟩

/-- A value of one letter becomes one of two. -/
def callX : Call := ⟨[[97], [98]], ascii "x1", []⟩

theorem permitted_callX {d : JsonData} (hd : Loaded d nestedDocument) : Permitted d callX := by
  obtain ⟨others, hothers⟩ := hd.shows_text.tokenFront
  have hself := nestedDocument.value.self_mem_subvalues nestedDocument.lead.val.length
  have hclear : Json.Clear [[97], [98]] nestedDocument.value nestedDocument.lead.val.length := by
    refine ⟨by decide, ?_⟩
    intro w q hw
    obtain ⟨rfl, rfl⟩ := Prod.mk.inj (Option.some.inj hw)
    exact ⟨by decide, fun _ _ _ => trivial⟩
  have hfollow : Json.follow [[97], [98]] nestedDocument.value nestedDocument.lead.val.length =
      some (valueC, 10) := rfl
  obtain ⟨w, q, hw, hfind⟩ := (follows_iff hd [[97], [98]] hself hfollow).mpr hclear [[97], [98]]
    (by simp) (List.prefix_refl _)
  obtain ⟨rfl, rfl⟩ := Prod.mk.inj (Option.some.inj (hw.symm.trans hfollow))
  have hall : getAllRange d.tokens = .ok (rangeAt nestedDocument.value 0) := by
    rw [getAllRange, hothers]
    rfl
  obtain ⟨beyond, hcontent⟩ := hd.shows_text.content
  have htext : cString 0 d.content = .ok nestedDocument.text := by
    rw [hcontent]
    exact cString_append 0 _ beyond nestedDocument.zero_notMem_text
  refine ⟨⟨by decide, by decide +kernel⟩, tokenOf (valueC.root 10), ?_, by decide, by decide, ?_,
    nestedDocument.text, htext, by decide⟩
  · rw [hd.count, hothers, Int.toNat_natCast, List.take_left' (by rw [tableOf, List.length_map])]
    decide
  · rw [hall, ok_bind]
    exact hfind

/-- Then the value of two letters becomes one of three. -/
def callY : Call := ⟨[[97], [98]], ascii "2.5", []⟩

theorem permitted_callY : ∃ d₁ d₂, initToken (arraysOf nestedDocument.text) = .ok d₁ ∧
    Sets d₁ callX d₂ ∧ Permitted d₂ callY := by
  have hcalls : ((initToken (arraysOf nestedDocument.text)).toOption.any fun d₁ =>
      (setJsfileSingleValue (callX.value ++ 0 :: callX.beyond) callX.key d₁).toOption.any fun d₂ =>
        (⟨.string, 11, 13, 0⟩ : Token) ∈ d₂.tokens.take d₂.tokenSize.toNat ∧
        (getAllRange d₂.tokens >>= findRange d₂ callY.key) = .ok ⟨11, 13⟩ ∧
        cString 0 d₂.content = .ok (ascii "\x7b\"a\":\x7b\"b\":\"x1\"\x7d\x7d")) = true := by
    decide +kernel
  obtain ⟨d₁, hd₁, hset⟩ := (Option.any_eq_true ..).mp hcalls
  obtain ⟨d₂, hd₂, hfacts⟩ := (Option.any_eq_true ..).mp hset
  obtain ⟨hmem, hfind, htext⟩ := of_decide_eq_true hfacts
  exact ⟨d₁, d₂, toOption_eq_some hd₁, toOption_eq_some hd₂,
    ⟨by decide, List.all_eq_true.mp (by decide)⟩, _, hmem, .inl rfl, by decide, hfind, _, htext,
    by decide⟩

/-- Two calls, one after the other, on an object in an object. -/
theorem initToken_nested : ∃ d₁ d₂, initToken (arraysOf nestedDocument.text) = .ok d₁ ∧
    Run (Meeting Sets Permitted) d₁ [callX, callY] d₂ ∧ initToken d₂ = .ok d₂ := by
  obtain ⟨d₁, d, hd₁, hset, hcallY⟩ := permitted_callY
  have hloaded := loaded_initToken rfl (arraysOf_content (by decide)) List.length_replicate
    (by decide) hd₁
  have hfirst : Run (Meeting Sets Permitted) d₁ [callX] d :=
    Run.single ⟨hset, permitted_callX hloaded⟩
  obtain ⟨d₂, hset'⟩ := (initToken_run rfl (arraysOf_content (by decide)) List.length_replicate
    (by decide) rfl rfl hd₁ hfirst).2 callY hcallY
  have hrun := hfirst.snoc ⟨hset', hcallY⟩
  exact ⟨d₁, d₂, hd₁, hrun, (initToken_run rfl (arraysOf_content (by decide))
    List.length_replicate (by decide) rfl rfl hd₁ hrun).1⟩

end IoTRepublic.TokenUpdate
