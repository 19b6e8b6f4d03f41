import IoTRepublic.KeyPath
import IoTRepublic.CSharpJson

/-!
Lookups by an index in an array. The walk goes from the first element on, over
all tokens that begin before the current element ends, once for each element
that is in front of the wanted one. Only the number of the elements in front of
it is counted, so the walk comes to every element of the array, and leaves the
array with an index that is too large.
-/
namespace IoTRepublic.ArrayIndex

open CheckedArray Package Jsmn JsFileParser Lookup JsonText JsonTable KeyPath
open CSharpReader (Char16 utf16)

/-- The index that a text of digits spells, behind those that gave `n`. -/
def indexFrom (n : ℕ) (digits : List (Fin 10)) : ℕ :=
  digits.foldl (fun n d => 10 * n + d) n

def indexText (digits : List (Fin 10)) : List Byte :=
  digits.map fun d => UInt8.ofNat (48 + d)

/-- The place of an array in the table of its text, whatever follows the table. -/
def At (tokens : List Token) (items : Json (.items false)) (pos : ℕ) (i : ℕ) : Prop :=
  ∃ front behind, tokens = front ++ (tokensOf items pos ++ behind) ∧ i = front.length

section

variable {tokens : List Token} {items : Json (.items false)} {pos i k q : ℕ} {w : Value}

theorem skipElement_append {stop : ℤ} {front behind : List Token} {t : Token}
    (hfront : ∀ u ∈ front, u.start ≤ stop) (ht : stop < t.start) :
    skipElement stop (front ++ t :: behind) i = .ok (i + front.length) := by
  induction front generalizing i with
  | nil =>
    rw [List.nil_append, skipElement, if_neg (by omega)]
    rfl
  | cons u front ih =>
    have hrest := ih (fun u hu => hfront u (List.mem_cons_of_mem _ hu)) (i := i + 1)
    rw [List.cons_append, skipElement, if_pos (hfront u List.mem_cons_self), hrest,
      List.length_cons, Nat.add_assoc, Nat.add_comm 1]

/-- The walk from the first element on comes to every element, and not behind the array. -/
theorem walkArray_nth (hat : At tokens items pos i) (hnth : items.nth pos k = some (w, q)) :
    ∃ j, walkArray tokens k i = .ok j ∧ tokens[j]? = some (tokenOf (w.root q)) ∧
      j < i + (items.nodes pos).length := by
  obtain ⟨front, behind, htokens, rfl⟩ := hat
  induction k generalizing items pos front with
  | zero =>
    cases items with
    | nil => cases hnth
    | cons lead label value trail rest =>
      obtain ⟨rfl, rfl⟩ := Prod.mk.inj (Option.some.inj hnth)
      obtain ⟨tail, htail⟩ := value.nodes_eq_root (Json.valuePos pos lead label)
      cases label
      have hnodes : (Json.cons lead .none value trail rest).nodes pos =
          value.root (Json.valuePos pos lead .none) ::
            (tail ++ rest.nodes (Json.restPos pos lead .none value trail rest)) := by
        rw [Json.nodes, htail]
        rfl
      refine ⟨front.length, rfl, ?_, ?_⟩
      · rw [htokens, tokensOf, hnodes]
        simp
      · rw [hnodes, List.length_cons]
        omega
  | succ k ih =>
    cases items with
    | nil => cases hnth
    | cons lead label value trail rest =>
      cases label
      -- the element in front, and the one behind it
      obtain ⟨tail, htail⟩ := value.nodes_eq_root (Json.valuePos pos lead .none)
      have hne : rest.nodes (Json.restPos pos lead .none value trail rest) ≠ [] := by
        obtain ⟨-, before, after, hblock, -⟩ := rest.subvalues_block (rest.nth_mem hnth)
        have hroot := w.root_mem q
        rw [hblock]
        simp [List.ne_nil_of_mem hroot]
      obtain ⟨next, others, hnext⟩ := List.exists_cons_of_ne_nil hne
      have hnodes : (Json.cons lead .none value trail rest).nodes pos =
          value.nodes (Json.valuePos pos lead .none) ++
            rest.nodes (Json.restPos pos lead .none value trail rest) := rfl
      have hread : readAt tokens (front.length : ℤ) =
          .ok (tokenOf (value.root (Json.valuePos pos lead .none))) := by
        apply readAt_natCast
        rw [htokens, tokensOf, hnodes, htail]
        simp
      have hskip : skipElement (tokenOf (value.root (Json.valuePos pos lead .none))).stop
          (tokens.drop front.length) front.length =
            .ok (front.length + (value.nodes (Json.valuePos pos lead .none)).length) := by
        have hdrop : tokens.drop front.length =
            (value.nodes (Json.valuePos pos lead .none)).map tokenOf ++
              tokenOf next :: (others.map tokenOf ++ behind) := by
          rw [htokens, List.drop_left, tokensOf, hnodes, hnext]
          simp
        rw [hdrop, skipElement_append, List.length_map]
        · intro t ht
          obtain ⟨n, hn, rfl⟩ := List.mem_map.mp ht
          have hle := value.start_le_root_stop hn
          simp only [tokenOf]
          omega
        · have hmem : next ∈ rest.nodes (Json.restPos pos lead .none value trail rest) := by
            rw [hnext]
            exact List.mem_cons_self
          have hstart := (rest.nodes_inside hmem).1
          have hstop := (value.nodes_inside (value.root_mem (Json.valuePos pos lead .none))).2
          have hsep := rest.sep_length hmem
          rw [Json.restPos, hsep] at hstart
          simp only [tokenOf]
          omega
      have hsplit : tokens = (front ++ (value.nodes (Json.valuePos pos lead .none)).map tokenOf) ++
          (tokensOf rest (Json.restPos pos lead .none value trail rest) ++ behind) := by
        rw [htokens, tokensOf, hnodes, List.map_append, tokensOf]
        simp
      obtain ⟨j, hwalk, hj, hlt⟩ := ih hnth _ hsplit
      rw [List.length_append, List.length_map] at hwalk hlt
      refine ⟨j, ?_, hj, ?_⟩
      · rw [walkArray, hread, ok_bind, hskip, ok_bind, hwalk]
      · rw [hnodes, List.length_append]
        omega

end

theorem le_indexFrom (n : ℕ) (digits : List (Fin 10)) : n ≤ indexFrom n digits := by
  induction digits generalizing n with
  | nil => exact le_rfl
  | cons d digits ih => exact le_trans (by omega) (ih (10 * n + d))

theorem targetIndex_eq (n : ℕ) (digits : List (Fin 10)) (h : indexFrom n digits ≤ 2147483647) :
    targetIndex (indexText digits) n = .ok (indexFrom n digits) := by
  have hdigit : ∀ d : Fin 10, charValue (UInt8.ofNat (48 + d)) = 48 + d := by decide
  induction digits generalizing n with
  | nil => rfl
  | cons d digits ih =>
    have hcons : indexText (d :: digits) = UInt8.ofNat (48 + d) :: indexText digits := rfl
    have hnext : indexFrom n (d :: digits) = indexFrom (10 * n + d) digits := rfl
    have hle := le_indexFrom (10 * n + d) digits
    have htarget : (n : ℤ) * 10 + (charValue (UInt8.ofNat (48 + d)) - 48) = (10 * n + d : ℕ) := by
      rw [hdigit d]
      push_cast
      omega
    rw [hnext] at h ⊢
    rw [hcons, targetIndex, checkInt_ok _ (by omega) (by omega), ok_bind, htarget,
      checkInt_ok _ (by omega) (by omega), ok_bind]
    exact ih _ h

/-- The C# program finds the same index. -/
theorem targetIndex_utf16 (n : ℕ) (digits : List (Fin 10)) (h : indexFrom n digits ≤ 2147483647) :
    CSharpJson.targetIndex (utf16 (indexText digits)) n = indexFrom n digits := by
  have hdigit : ∀ d : Fin 10, (UInt8.ofNat (48 + d)).toUInt16.toNat = 48 + d := by decide
  induction digits generalizing n with
  | nil => rfl
  | cons d digits ih =>
    have hcons : utf16 (indexText (d :: digits)) =
        (UInt8.ofNat (48 + d)).toUInt16 :: utf16 (indexText digits) := rfl
    have hnext : indexFrom n (d :: digits) = indexFrom (10 * n + d) digits := rfl
    have hle := le_indexFrom (10 * n + d) digits
    have htarget : (n : ℤ) * 10 + (((UInt8.ofNat (48 + d)).toUInt16.toNat : ℤ) - 48) =
        (10 * n + d : ℕ) := by
      rw [hdigit d]
      push_cast
      omega
    rw [hnext] at h ⊢
    rw [hcons, CSharpJson.targetIndex, CSharpReader.wrapInt_eq (n * 10) (by omega) (by omega),
      htarget, CSharpReader.wrapInt_eq _ (by omega) (by omega)]
    exact ih _ h

/-- What a search by an index is to give: the token and the range of the element, and its text
where there is an array for it; and -1 where the array has no such element. -/
def Returns (d : JsonData) (index : List Byte) (range : Range) : Option (Value × ℕ) → Prop
  | some (w, q) => ∃ i : ℕ, i < d.tokenSize ∧ d.tokens[i]? = some (tokenOf (w.root q)) ∧
      ∀ result : Option (List Byte), (∀ r ∈ result, (w.root q).text.length < r.length) →
        searchJsonDataInRange index range d result = .ok ⟨i, rangeAt w q, result.map fun r =>
          (w.root q).text ++ 0 :: r.drop ((w.root q).text.length + 1)⟩
  | none => ∀ result, ∃ found, searchJsonDataInRange index range d result = .ok found ∧
      found.hitIndex = -1

/-- The characters of the content that a node of its text stands for. -/
def textUtf16 (content : List Char16) (n : Node) : List Char16 :=
  (content.drop n.start).take n.text.length

/-- The same for the C# program, which throws where it finds nothing. -/
def ReturnsUtf16 (e : CSharpJson.JsonData) (index : List Char16) (range : Range) :
    Option (Value × ℕ) → Prop
  | some (w, q) => ∃ i : ℕ, i < e.tokenSize ∧ e.tokens[i]? = some (tokenOf (w.root q)) ∧
      ∀ result : Option (List Char16), (∀ r ∈ result, (w.root q).text.length < r.length) →
        CSharpJson.searchJsonDataInRange index range e result = .ok ⟨i, rangeAt w q,
          result.map fun r => textUtf16 e.content (w.root q) ++
            0 :: r.drop ((w.root q).text.length + 1)⟩
  | none => ∀ result, CSharpJson.searchJsonDataInRange index range e result = .error .notFound

section

variable {doc : Document} {blank : Blank} {items : Json (.items false)} {pos : ℕ}

/-- The place of an array in the table of its text. -/
theorem array_table (hv : (.container false blank items, pos) ∈ doc.value.subvalues
    doc.lead.val.length) (others : List Token) :
    ∃ before t behind, tableOf doc ++ others =
        before ++ t :: (tokensOf items (pos + 1 + blank.val.length) ++ behind) ∧
      (∀ u ∈ before, u.start < t.start) ∧
      t.type = .array ∧ rangeOf t = rangeAt (.container false blank items) pos ∧
      before.length + 1 + (items.nodes (pos + 1 + blank.val.length)).length ≤ doc.nodes.length := by
  obtain ⟨-, before, after, hblock, hbefore, -⟩ := doc.value.subvalues_block hv
  refine ⟨before.map tokenOf, tokenOf (Json.root (.container false blank items) pos),
    after.map tokenOf ++ others, ?_, ?_, rfl, rfl, ?_⟩
  · rw [tableOf, Document.nodes, hblock, Json.nodes, tokensOf]
    simp [Json.root]
  · intro t ht
    obtain ⟨n, hn, rfl⟩ := List.mem_map.mp ht
    have hlt := hbefore n hn
    simp only [tokenOf, Json.root]
    omega
  · rw [Document.nodes, hblock, Json.nodes]
    simp only [List.length_map, List.length_append, List.length_cons]
    omega

/-- Tokens in front of the range are skipped. -/
theorem searchLoop_skip {d : JsonData} (range : Range) (pattern : List Byte)
    (result : Option (List Byte)) (done front behind : List Token) (n : ℕ)
    (htokens : d.tokens = done ++ (front ++ behind))
    (hfront : ∀ t ∈ front, t.start < range.start) :
    searchLoop pattern range d result (front.length + n) done.length =
      searchLoop pattern range d result n (done.length + front.length) := by
  induction front generalizing done with
  | nil => rw [List.length_nil, Nat.zero_add, Nat.add_zero]
  | cons t front ih =>
    have hread : readAt d.tokens (done.length : ℤ) = .ok t :=
      readAt_natCast _ _ _ (by rw [htokens]; simp)
    have hout : ¬ Inside range t := fun h => absurd h.1 (not_le.mpr (hfront t List.mem_cons_self))
    have hrest := ih (done ++ [t]) (by rw [htokens]; simp)
      (fun u hu => hfront u (List.mem_cons_of_mem _ hu))
    rw [List.length_append, List.length_singleton] at hrest
    rw [List.length_cons, Nat.add_right_comm, searchLoop_outside hread hout, hrest,
      Nat.add_assoc done.length 1, Nat.add_comm 1]

theorem searchLoop_skip_utf16 {e : CSharpJson.JsonData} (range : Range) (pattern : List Char16)
    (result : Option (List Char16)) (done front behind : List Token) (n : ℕ)
    (htokens : e.tokens = done ++ (front ++ behind))
    (hfront : ∀ t ∈ front, t.start < range.start) :
    CSharpJson.searchLoop pattern range e result (front.length + n) done.length =
      CSharpJson.searchLoop pattern range e result n (done.length + front.length) := by
  induction front generalizing done with
  | nil => rw [List.length_nil, Nat.zero_add, Nat.add_zero]
  | cons t front ih =>
    have hread : readAt e.tokens (done.length : ℤ) = .ok t :=
      readAt_natCast _ _ _ (by rw [htokens]; simp)
    have hrest := ih (done ++ [t]) (by rw [htokens]; simp)
      (fun u hu => hfront u (List.mem_cons_of_mem _ hu))
    rw [List.length_append, List.length_singleton] at hrest
    rw [List.length_cons, Nat.add_right_comm, CSharpJson.searchLoop, hread,
      CSharpJson.checked_ok, CSharpJson.returned_bind,
      if_pos (.inl (hfront t List.mem_cons_self)), hrest, Nat.add_assoc done.length 1, Nat.add_comm 1]

/-- A search in the range of an array is a walk through it. -/
theorem search_array {d : JsonData} {others : List Token}
    (hv : (.container false blank items, pos) ∈ doc.value.subvalues doc.lead.val.length)
    (htokens : d.tokens = tableOf doc ++ others) (hcount : d.tokenSize = doc.nodes.length) :
    ∃ i, At d.tokens items (pos + 1 + blank.val.length) i ∧
      i + (items.nodes (pos + 1 + blank.val.length)).length ≤ doc.nodes.length ∧
      ∀ pattern result, searchJsonDataInRange pattern (rangeAt (.container false blank items) pos) d
        result = (do
          let target ← targetIndex pattern 0
          if target < 0 then .error .overflow
          else do
            let k ← walkArray d.tokens target.toNat i
            takeToken d result k) := by
  obtain ⟨before, t, behind, htable, hbefore, htype, hrange, hroom⟩ := array_table hv others
  rw [htable] at htokens
  refine ⟨before.length + 1, ⟨before ++ [t], behind, by simp [htokens], by simp⟩, hroom, ?_⟩
  intro pattern result
  obtain ⟨n, hn⟩ : ∃ n, doc.nodes.length = before.length + (n + 1) :=
    ⟨doc.nodes.length - before.length - 1, by omega⟩
  have hskip := searchLoop_skip (rangeOf t) pattern result [] before _ (n + 1) htokens hbefore
  have hread : readAt d.tokens (before.length : ℤ) = .ok t :=
    readAt_natCast _ _ _ (by rw [htokens]; simp)
  rw [List.length_nil, Nat.zero_add] at hskip
  rw [← hrange, searchJsonDataInRange, hcount, Int.toNat_natCast, hn, hskip, searchLoop, hread,
    ok_bind, if_neg (by simp [rangeOf]), if_neg (by simp [htype]), if_pos ⟨htype, rfl⟩]

/-- The same walk in the C# program. -/
theorem search_array_utf16 {e : CSharpJson.JsonData} {others : List Token}
    (hv : (.container false blank items, pos) ∈ doc.value.subvalues doc.lead.val.length)
    (htokens : e.tokens = tableOf doc ++ others) (hcount : e.tokenSize = doc.nodes.length) :
    ∃ i, At e.tokens items (pos + 1 + blank.val.length) i ∧
      i + (items.nodes (pos + 1 + blank.val.length)).length ≤ doc.nodes.length ∧
      ∀ pattern result, CSharpJson.searchJsonDataInRange pattern
        (rangeAt (.container false blank items) pos) e result = (do
          let k ← CSharpJson.checked (walkArray e.tokens
            (CSharpJson.targetIndex pattern 0 % 4294967296).toNat i)
          CSharpJson.checked (CSharpJson.takeToken e result k)) := by
  obtain ⟨before, t, behind, htable, hbefore, htype, hrange, hroom⟩ := array_table hv others
  rw [htable] at htokens
  refine ⟨before.length + 1, ⟨before ++ [t], behind, by simp [htokens], by simp⟩, hroom, ?_⟩
  intro pattern result
  obtain ⟨n, hn⟩ : ∃ n, doc.nodes.length = before.length + (n + 1) :=
    ⟨doc.nodes.length - before.length - 1, by omega⟩
  have hskip := searchLoop_skip_utf16 (rangeOf t) pattern result [] before _ (n + 1) htokens
    hbefore
  have hread : readAt e.tokens (before.length : ℤ) = .ok t :=
    readAt_natCast _ _ _ (by rw [htokens]; simp)
  rw [List.length_nil, Nat.zero_add] at hskip
  rw [← hrange, CSharpJson.searchJsonDataInRange, hcount, Int.toNat_natCast, hn, hskip,
    CSharpJson.searchLoop, hread, CSharpJson.checked_ok, CSharpJson.returned_bind,
    if_neg (by simp [rangeOf]), if_neg (by simp [htype]), if_pos ⟨htype, rfl⟩]

/-- An element of an array is a node of the text. -/
theorem nth_node {k q : ℕ} {w : Value}
    (hv : (.container false blank items, pos) ∈ doc.value.subvalues doc.lead.val.length)
    (hnth : items.nth (pos + 1 + blank.val.length) k = some (w, q)) : w.root q ∈ doc.nodes := by
  have hitem : (w, q) ∈ (Json.container false blank items).subvalues pos :=
    List.mem_cons_of_mem _ (items.nth_mem hnth)
  obtain ⟨-, before, after, hblock, -⟩ :=
    doc.value.subvalues_block (Json.subvalues_trans doc.value hitem hv)
  rw [Document.nodes, hblock]
  simp [Json.root_mem]

theorem takeToken_node {d : JsonData} {n : Node} {i : ℕ} (hcontent : ∃ beyond, d.content =
    doc.text ++ 0 :: beyond) (hn : n ∈ doc.nodes) (hi : d.tokens[i]? = some (tokenOf n))
    (result : Option (List Byte)) (hroom : ∀ r ∈ result, n.text.length < r.length) :
    takeToken d result i = .ok ⟨i, rangeOf (tokenOf n), result.map fun r =>
      n.text ++ 0 :: r.drop (n.text.length + 1)⟩ := by
  have hread := readAt_natCast _ _ _ hi
  obtain ⟨front, behind, htext, hstart⟩ := doc.nodes_place hn
  obtain ⟨beyond, hcontent⟩ := hcontent
  have hcovers : Covers d.content (tokenOf n) n.text := by
    refine ⟨?_, front, behind ++ 0 :: beyond, by simp [hcontent, htext], ?_, ?_⟩
    · have hnul := doc.zero_notMem_text
      simp only [htext, List.mem_append, not_or] at hnul
      exact hnul.2.1
    · rw [tokenOf, hstart]
    · simp only [tokenOf, Node.stop, hstart]
      push_cast
      rfl
  cases result with
  | none => exact takeToken_none hread
  | some r => exact takeToken_some hread hcovers (hroom r rfl)

theorem takeToken_utf16 {e : CSharpJson.JsonData} {n : Node} {i : ℕ} (hcontent : ∃ beyond,
    e.content.map CSharpJson.narrow = doc.text ++ 0 :: beyond) (hn : n ∈ doc.nodes)
    (hi : e.tokens[i]? = some (tokenOf n)) (result : Option (List Char16))
    (hroom : ∀ r ∈ result, n.text.length < r.length) :
    CSharpJson.takeToken e result i = .ok ⟨i, rangeOf (tokenOf n), result.map fun r =>
      textUtf16 e.content n ++ 0 :: r.drop (n.text.length + 1)⟩ := by
  have hread := readAt_natCast _ _ _ hi
  obtain ⟨front, behind, htext, hstart⟩ := doc.nodes_place hn
  obtain ⟨beyond, hcontent⟩ := hcontent
  have hlength : e.content.length = front.length + (n.text.length + (behind.length +
      (beyond.length + 1))) := by
    have h := congrArg List.length hcontent
    simpa only [List.length_map, htext, List.length_append, List.length_cons, Nat.add_assoc]
      using h
  cases result with
  | none =>
    rw [CSharpJson.takeToken, hread, ok_bind]
    rfl
  | some r =>
    have hsplit : e.content = e.content.take n.start ++ (textUtf16 e.content n ++
        (e.content.drop n.start).drop n.text.length) := by
      rw [textUtf16, List.take_append_drop, List.take_append_drop]
    have hfront : (e.content.take n.start).length = n.start := by
      rw [List.length_take]
      omega
    have hlen : (textUtf16 e.content n).length = n.text.length := by
      rw [textUtf16, List.length_take, List.length_drop]
      omega
    have hcopy := @copyLoop_terminated Char16 0 (e.content.take n.start)
      (textUtf16 e.content n) ((e.content.drop n.start).drop n.text.length) r
      (by rw [hlen]; exact hroom r rfl)
    rw [← hsplit, hfront, hlen] at hcopy
    have hget : CSharpJson.getPatteren (rangeOf (tokenOf n)) e.content r =
        .ok (textUtf16 e.content n ++ 0 :: r.drop (n.text.length + 1)) := by
      have hdiff : ((rangeOf (tokenOf n)).stop - (rangeOf (tokenOf n)).start).toNat =
          n.text.length := by
        simp only [rangeOf, tokenOf, Node.stop]
        omega
      rw [CSharpJson.getPatteren, hdiff]
      exact hcopy
    rw [CSharpJson.takeToken, hread, ok_bind, CSharpJson.getPatteren?]
    rw [show (⟨(tokenOf n).start, (tokenOf n).stop⟩ : Range) = rangeOf (tokenOf n) from rfl, hget]
    rfl

theorem returns_iff_lt {d : JsonData} {others : List Token} {digits : List (Fin 10)}
    (hcontent : ∃ beyond, d.content = doc.text ++ 0 :: beyond)
    (htokens : d.tokens = tableOf doc ++ others) (hcount : d.tokenSize = doc.nodes.length)
    (hfew : doc.nodes.length ≤ MAXTOKENSIZE)
    (hv : (.container false blank items, pos) ∈ doc.value.subvalues doc.lead.val.length) :
    Returns d (indexText digits) (rangeAt (.container false blank items) pos)
      (items.nth (pos + 1 + blank.val.length) (indexFrom 0 digits)) ↔
        indexFrom 0 digits < items.count := by
  obtain ⟨i, hat, hroom, hsearch⟩ := search_array hv htokens hcount
  have hisSome := items.nth_isSome_iff (pos + 1 + blank.val.length) (indexFrom 0 digits)
  have hitems := items.count_le_nodes (pos + 1 + blank.val.length)
  rw [← hisSome]
  cases hnth : items.nth (pos + 1 + blank.val.length) (indexFrom 0 digits) with
  | none =>
    refine iff_of_false ?_ (by simp)
    intro hall
    obtain ⟨found, hfound, hmissing⟩ := hall none
    rw [hsearch] at hfound
    obtain ⟨target, -, hfound⟩ := bind_eq_ok.mp hfound
    split at hfound
    · cases hfound
    obtain ⟨k, -, hfound⟩ := bind_eq_ok.mp hfound
    obtain ⟨t, -, hfound⟩ := bind_eq_ok.mp hfound
    obtain rfl := Except.ok.inj hfound
    simp only at hmissing
    omega
  | some found =>
    obtain ⟨w, q⟩ := found
    refine iff_of_true ?_ rfl
    rw [hnth] at hisSome
    have hlt := hisSome.mp rfl
    have hmax : MAXTOKENSIZE = 128 := rfl
    obtain ⟨j, hwalk, hj, hinside⟩ := walkArray_nth hat hnth
    refine ⟨j, by rw [hcount]; omega, hj, ?_⟩
    intro result hfits
    have htarget := targetIndex_eq 0 digits (by omega)
    rw [Int.natCast_zero] at htarget
    rw [hsearch, htarget, ok_bind, if_neg (by omega), Int.toNat_natCast, hwalk, ok_bind]
    exact takeToken_node hcontent (nth_node hv hnth) hj result hfits

theorem returnsUtf16_iff_lt {e : CSharpJson.JsonData} {others : List Token} {digits : List (Fin 10)}
    (hcontent : ∃ beyond, e.content.map CSharpJson.narrow = doc.text ++ 0 :: beyond)
    (htokens : e.tokens = tableOf doc ++ others) (hcount : e.tokenSize = doc.nodes.length)
    (hfew : doc.nodes.length ≤ MAXTOKENSIZE)
    (hv : (.container false blank items, pos) ∈ doc.value.subvalues doc.lead.val.length) :
    ReturnsUtf16 e (utf16 (indexText digits)) (rangeAt (.container false blank items) pos)
      (items.nth (pos + 1 + blank.val.length) (indexFrom 0 digits)) ↔
        indexFrom 0 digits < items.count := by
  obtain ⟨i, hat, hroom, hsearch⟩ := search_array_utf16 hv htokens hcount
  have hisSome := items.nth_isSome_iff (pos + 1 + blank.val.length) (indexFrom 0 digits)
  have hitems := items.count_le_nodes (pos + 1 + blank.val.length)
  rw [← hisSome]
  cases hnth : items.nth (pos + 1 + blank.val.length) (indexFrom 0 digits) with
  | none =>
    refine iff_of_false ?_ (by simp)
    intro hall
    -- whatever the walk comes to, it is no search that found nothing
    have hmissing := hall none
    rw [hsearch] at hmissing
    cases hwalk : walkArray e.tokens
        (CSharpJson.targetIndex (utf16 (indexText digits)) 0 % 4294967296).toNat i with
    | error f =>
      rw [hwalk] at hmissing
      cases hmissing
    | ok k =>
      rw [hwalk, CSharpJson.checked_ok, CSharpJson.returned_bind] at hmissing
      cases htake : CSharpJson.takeToken e none k with
      | error f =>
        rw [htake] at hmissing
        cases hmissing
      | ok found =>
        rw [htake] at hmissing
        cases hmissing
  | some found =>
    obtain ⟨w, q⟩ := found
    refine iff_of_true ?_ rfl
    rw [hnth] at hisSome
    have hlt := hisSome.mp rfl
    have hmax : MAXTOKENSIZE = 128 := rfl
    obtain ⟨j, hwalk, hj, hinside⟩ := walkArray_nth hat hnth
    refine ⟨j, by rw [hcount]; omega, hj, ?_⟩
    intro result hfits
    have htarget := targetIndex_utf16 0 digits (by omega)
    rw [Int.natCast_zero] at htarget
    have hmod : ((indexFrom 0 digits : ℕ) : ℤ) % 4294967296 = (indexFrom 0 digits : ℕ) :=
      Int.emod_eq_of_lt (by omega) (by omega)
    rw [hsearch, htarget, hmod, Int.toNat_natCast, hwalk, CSharpJson.checked_ok,
      CSharpJson.returned_bind, takeToken_utf16 hcontent (nth_node hv hnth) hj result hfits,
      CSharpJson.checked_ok]
    rfl

end

/-- A text that the C# program has tokenized. -/
theorem initToken_utf16 {doc : Document} {e₀ : CSharpJson.JsonData} {beyond : List Byte}
    (hcontent : e₀.content.map CSharpJson.narrow = doc.text ++ 0 :: beyond)
    (hfew : doc.nodes.length ≤ MAXTOKENSIZE) :
    CSharpJson.initToken e₀ = .ok { e₀ with
      tokens := tableOf doc ++ e₀.tokens.drop (tableOf doc).length
      tokenSize := doc.nodes.length
      parsed := true } := by
  have hparse : CSharpJson.jsmnParse e₀.content MAXTOKENSIZE =
      .ok (doc.nodes.length, tableOf doc) := by
    rw [← CSharpJson.jsmnParse_narrow, hcontent]
    apply jsmnParse_terminated doc hfew
    rintro c hc
    exact (Option.some.inj hc).symm
  rw [CSharpJson.initToken, hparse, CSharpJson.checked_ok, CSharpJson.returned_bind]
  dsimp only
  rw [if_neg (by omega), splice_zero]

/-- For every well-formed text of at most 128 tokens, every array in it and every index that
digits spell, in both programs and whatever stands behind the tokens of the text: the search in
the range of the array gives the element with this index, or -1 if the array has none, exactly
if the array has such an element. -/
theorem returns_iff {doc : Document} {d₀ d : JsonData} {e₀ e : CSharpJson.JsonData}
    {beyond beyond' : List Byte} {blank : Blank} {items : Json (.items false)} {pos : ℕ}
    (hcontent : d₀.content = doc.text ++ 0 :: beyond) (hroom : d₀.content.length = MAXCONTENTSIZE)
    (htokens : d₀.tokens.length = MAXTOKENSIZE) (hfew : doc.nodes.length ≤ MAXTOKENSIZE)
    (hinit : initToken d₀ = .ok d)
    (hcontent' : e₀.content.map CSharpJson.narrow = doc.text ++ 0 :: beyond')
    (hinit' : CSharpJson.initToken e₀ = .ok e)
    (hv : (.container false blank items, pos) ∈ doc.value.subvalues doc.lead.val.length) :
    (∃ others, d.tokens = tableOf doc ++ others) ∧ (∃ others, e.tokens = tableOf doc ++ others) ∧
      (∀ digits, (∀ others, Returns { d with tokens := tableOf doc ++ others } (indexText digits)
          (rangeAt (.container false blank items) pos)
          (items.nth (pos + 1 + blank.val.length) (indexFrom 0 digits))) ↔
        indexFrom 0 digits < items.count) ∧
      ∀ digits, (∀ others, ReturnsUtf16 { e with tokens := tableOf doc ++ others }
          (utf16 (indexText digits)) (rangeAt (.container false blank items) pos)
          (items.nth (pos + 1 + blank.val.length) (indexFrom 0 digits))) ↔
        indexFrom 0 digits < items.count := by
  have hd := loaded_initToken hcontent hroom htokens hfew hinit
  rw [initToken_utf16 hcontent' hfew] at hinit'
  obtain rfl := Except.ok.inj hinit'
  refine ⟨hd.shows_text.tokenFront, ⟨_, rfl⟩, ?_, ?_⟩
  · intro digits
    have hiff : ∀ others, Returns { d with tokens := tableOf doc ++ others } (indexText digits)
        (rangeAt (.container false blank items) pos)
        (items.nth (pos + 1 + blank.val.length) (indexFrom 0 digits)) ↔
          indexFrom 0 digits < items.count :=
      fun _ => returns_iff_lt hd.shows_text.content rfl hd.count hfew hv
    exact ⟨fun h => (hiff []).mp (h []), fun h others => (hiff others).mpr h⟩
  · intro digits
    have hiff : ∀ others, ReturnsUtf16 { e₀ with
          tokens := tableOf doc ++ others
          tokenSize := doc.nodes.length
          parsed := true } (utf16 (indexText digits)) (rangeAt (.container false blank items) pos)
        (items.nth (pos + 1 + blank.val.length) (indexFrom 0 digits)) ↔
          indexFrom 0 digits < items.count :=
      fun _ => returnsUtf16_iff_lt ⟨beyond', hcontent'⟩ rfl rfl hfew hv
    exact ⟨fun h => (hiff []).mp (h []), fun h others => (hiff others).mpr h⟩

/-- A text in the arrays of the C# `JsonData`. -/
def arraysUtf16 (text : List Byte) : CSharpJson.JsonData :=
  ⟨false, [], 0, utf16 (text ++ 0 :: List.replicate (MAXCONTENTSIZE - 1 - text.length) 0), 0⟩

def seven : Value := .primitive ⟨[55], by decide +kernel⟩

def innerItems : Json (.items false) := .cons noBlank .none seven noBlank (.nil false)

def outerItems : Json (.items false) :=
  .cons noBlank .none seven noBlank
    (.cons noBlank .none (.container false noBlank innerItems) noBlank (.nil false))

/-- `[7,[7]]`. -/
def arrayDocument : Document := ⟨noBlank, .container false noBlank outerItems, noBlank⟩

/-- The second element of an array. -/
theorem returns_second : arrayDocument.text = ascii "[7,[7]]" ∧ ∃ d e,
    initToken (arraysOf arrayDocument.text) = .ok d ∧
      CSharpJson.initToken (arraysUtf16 arrayDocument.text) = .ok e ∧
      Returns d (ascii "01") ⟨0, 7⟩ (some (.container false noBlank innerItems, 3)) ∧
      ReturnsUtf16 e (utf16 (ascii "01")) ⟨0, 7⟩
        (some (.container false noBlank innerItems, 3)) := by
  obtain ⟨d, hd⟩ := exists_initToken arrayDocument (by decide) (by decide)
  have hcontent : (arraysUtf16 arrayDocument.text).content.map CSharpJson.narrow = _ :=
    CSharpJson.narrow_utf16 _
  have he := initToken_utf16 hcontent (by decide)
  have hself : ((.container false noBlank outerItems, 0) : Value × ℕ) ∈
    arrayDocument.value.subvalues arrayDocument.lead.val.length := List.mem_cons_self
  obtain ⟨⟨others, hothers⟩, ⟨others', hothers'⟩, hreturns, hreturns'⟩ :=
    returns_iff rfl (arraysOf_content (by decide)) List.length_replicate
      (by decide) hd hcontent he hself
  refine ⟨by decide, d, _, hd, he, ?_, ?_⟩
  · have h := (hreturns [0, 1]).mpr (by decide) others
    rw [← hothers] at h
    exact h
  · have h := (hreturns' [0, 1]).mpr (by decide) others'
    rw [← hothers'] at h
    exact h

/-- An index behind the last element of `[7,[7]]`. -/
theorem returns_third :
    (do let d ← initToken (arraysOf arrayDocument.text)
        searchJsonDataInRange (ascii "2") ⟨0, 7⟩ { d with tokens := tableOf arrayDocument } none) =
      .error .readOutside ∧
    (do let e ← CSharpJson.initToken (arraysUtf16 arrayDocument.text)
        CSharpJson.searchJsonDataInRange (utf16 (ascii "2")) ⟨0, 7⟩ e none) =
      .error (.fault .readOutside) := by
  constructor <;> decide +kernel

end IoTRepublic.ArrayIndex
