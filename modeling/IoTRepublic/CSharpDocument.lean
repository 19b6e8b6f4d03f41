import IoTRepublic.GetAfterSet
import IoTRepublic.TokenUpdate

/-!
A well-formed text in the arrays of the C# parser. A search ends at the same token
whatever stands behind the text and behind its table, so a lookup gives the same in
all arrays that hold the text. Setting a word leaves the arrays with the text in which
the word is replaced.
-/
namespace IoTRepublic.CSharpDocument

open CheckedArray Jsmn JsonText JsonTable CSharpJson TokenSeek
open Package (Byte)
open CSharpReader (Char16 utf16)
open JsFileParser (Range)
open Lookup (tokenText rangeOf hitOf)
open KeyPath (rangeAt tokenText_node hitOf_member hitOf_pass hitOf_hit)

/-- The text with its terminator, and its table in front of other tokens. -/
structure Carries (e : JsonData) (doc : Document) : Prop where
  content : ∃ beyond, e.content = utf16 doc.text ++ 0 :: beyond
  size : e.content.length = MAXPACKETSIZE
  tokens : ∃ others, e.tokens = tableOf doc ++ others
  count : e.tokenSize = doc.nodes.length

section

variable {e e' : JsonData} {doc : Document} {key : List Byte} {range : Range} {v w : Value}
  {pos q : ℕ}

theorem utf16_inj {text text' : List Byte} : utf16 text = utf16 text' ↔ text = text' := by
  refine ⟨fun h => ?_, congrArg utf16⟩
  rw [← narrow_utf16 text, h, narrow_utf16]

theorem Carries.short (h : Carries e doc) : doc.text.length < MAXPACKETSIZE := by
  obtain ⟨beyond, hcontent⟩ := h.content
  have hsize := h.size
  rw [hcontent, List.length_append, List.length_cons, utf16, List.length_map] at hsize
  omega

/-- A text that is tokenized. -/
theorem exists_initToken {beyond : List Char16}
    (hcontent : e.content = utf16 doc.text ++ 0 :: beyond)
    (hsize : e.content.length = MAXPACKETSIZE) (hfew : doc.nodes.length ≤ MAXTOKENSIZE) :
    ∃ e', initToken e = .ok e' ∧ Carries e' doc := by
  have hnarrow : e.content.map narrow = doc.text ++ 0 :: beyond.map narrow := by
    rw [hcontent, List.map_append, List.map_cons, narrow_utf16]
    rfl
  exact ⟨_, ArrayIndex.initToken_utf16 hnarrow hfew, ⟨beyond, hcontent⟩, hsize, ⟨_, rfl⟩, rfl⟩

/-- The text of a node in an array of any size for it. -/
theorem Carries.getPatteren_node (h : Carries e doc) {n : Node} (hn : n ∈ doc.nodes)
    {result : List Char16} (hroom : n.text.length < result.length) :
    getPatteren ⟨(tokenOf n).start, (tokenOf n).stop⟩ e.content result =
      .ok (utf16 n.text ++ 0 :: result.drop (n.text.length + 1)) := by
  obtain ⟨beyond, hcontent⟩ := h.content
  obtain ⟨front, behind, htext, hstart⟩ := doc.nodes_place hn
  have hplace : e.content = utf16 front ++ (utf16 n.text ++ (utf16 behind ++ 0 :: beyond)) := by
    rw [hcontent, htext]
    simp [utf16]
  have hlength : n.text.length = (utf16 n.text).length := (List.length_map ..).symm
  rw [hplace, hlength]
  apply getPatteren_eq
  · simp only [tokenOf, hstart, utf16, List.length_map]
  · simp only [tokenOf, Node.stop, hstart, utf16, List.length_map]
    push_cast
    rfl
  · rwa [← hlength]

/-- The text of a token is compared with the key. -/
theorem Carries.isWordAt_eq (h : Carries e doc) {t : Token} (ht : t ∈ tableOf doc) :
    isWordAt 0 MAXPACKETSIZE e.content (utf16 key) t = .ok (tokenText doc.text t = key) := by
  obtain ⟨n, hn, rfl⟩ := List.mem_map.mp ht
  obtain ⟨front, behind, htext, -⟩ := doc.nodes_place hn
  have hshort := h.short
  rw [htext, List.length_append, List.length_append] at hshort
  have hread := h.getPatteren_node hn
    (show n.text.length < (List.replicate MAXPACKETSIZE (0 : Char16)).length by
      rw [List.length_replicate]
      omega)
  have hnul : (0 : Char16) ∉ utf16 n.text := CSharpReader.zero_notMem_utf16 fun hmem =>
    doc.zero_notMem_text (by rw [htext]; simp [hmem])
  have hloop : wordAt 0 MAXPACKETSIZE e.content (tokenOf n) =
      (getPatteren ⟨(tokenOf n).start, (tokenOf n).stop⟩ e.content
        (List.replicate MAXPACKETSIZE 0) >>= cString 0) := by
    simp only [wordAt, getPatteren, bind_assoc]
  rw [isWordAt, hloop, hread, ok_bind, cString_append 0 _ _ hnul, ok_bind, tokenText_node hn]
  simp only [utf16_inj]

/-- A search among tokens ends where a search among their texts does. -/
theorem exists_seek {text : List Byte} {table : List Token} {t : Token}
    (hhit : hitOf text key range table = .value t) :
    ∃ j, table[j]? = some t ∧ ∀ (isKey : Token → Exec Bool) (index : Exec ℕ) (others : List Token)
      (tokens : List Token) (i : ℕ), (∀ u ∈ table, isKey u = .ok (tokenText text u = key)) →
        tokens.drop i = table ++ others →
          seekLoop isKey index range tokens table.length i = .ok (some (i + j)) := by
  induction table with
  | nil => cases hhit
  | cons u table ih =>
    have hread : ∀ {tokens others : List Token} {i : ℕ}, tokens.drop i = u :: table ++ others →
        readAt tokens i = .ok u ∧ tokens.drop (i + 1) = table ++ others := by
      intro tokens others i hdrop
      refine ⟨readAt_natCast tokens i u ?_, ?_⟩
      · rw [← Nat.add_zero i, ← List.getElem?_drop, hdrop]
        rfl
      · rw [← List.drop_drop, hdrop]
        rfl
    have hnext : hitOf text key range table = .value t → ∃ j, (u :: table)[j]? = some t ∧
        ∀ (isKey : Token → Exec Bool) (index : Exec ℕ) (others tokens : List Token) (i : ℕ),
          (∀ u' ∈ u :: table, isKey u' = .ok (tokenText text u' = key)) →
            tokens.drop i = u :: table ++ others →
              seekLoop isKey index range tokens table.length (i + 1) = .ok (some (i + j)) := by
      intro hrest
      obtain ⟨j, hj, hseek⟩ := ih hrest
      refine ⟨j + 1, hj, fun isKey index others tokens i hkey hdrop => ?_⟩
      have hloop := hseek isKey index others tokens (i + 1)
        (fun u' hu => hkey u' (List.mem_cons_of_mem u hu)) (hread hdrop).2
      rw [hloop, Nat.add_assoc, Nat.add_comm 1 j]
    rw [Lookup.hitOf.eq_def] at hhit
    dsimp only at hhit
    split_ifs at hhit with hout hword htext harray
    · obtain ⟨j, hj, hseek⟩ := hnext hhit
      refine ⟨j, hj, fun isKey index others tokens i hkey hdrop => ?_⟩
      rw [List.length_cons, seekLoop, (hread hdrop).1, ok_bind, if_pos hout]
      exact hseek isKey index others tokens i hkey hdrop
    · cases table with
      | nil => cases hhit
      | cons v table =>
        obtain rfl := Lookup.Hit.value.inj hhit
        refine ⟨1, rfl, fun isKey index others tokens i hkey hdrop => ?_⟩
        rw [List.length_cons, seekLoop, (hread hdrop).1, ok_bind, if_neg hout, if_pos hword,
          hkey u List.mem_cons_self, ok_bind, if_pos (decide_eq_true htext)]
    · obtain ⟨j, hj, hseek⟩ := hnext hhit
      refine ⟨j, hj, fun isKey index others tokens i hkey hdrop => ?_⟩
      rw [List.length_cons, seekLoop, (hread hdrop).1, ok_bind, if_neg hout, if_pos hword,
        hkey u List.mem_cons_self, ok_bind, if_neg (by simpa using htext)]
      exact hseek isKey index others tokens i hkey hdrop
    · obtain ⟨j, hj, hseek⟩ := hnext hhit
      refine ⟨j, hj, fun isKey index others tokens i hkey hdrop => ?_⟩
      rw [List.length_cons, seekLoop, (hread hdrop).1, ok_bind, if_neg hout, if_neg hword,
        if_neg harray]
      exact hseek isKey index others tokens i hkey hdrop

/-- A search of which the hit is known ends at one token in all arrays that hold the text. -/
theorem exists_search {t : Token} (hhit : hitOf doc.text key range (tableOf doc) = .value t) :
    ∃ j : ℕ, (tableOf doc)[j]? = some t ∧ ∀ e, Carries e doc → e.tokens[j]? = some t ∧
      ∀ result, searchJsonDataInRange (utf16 key) range e result =
        checked (takeToken e result j) := by
  obtain ⟨j, hj, hseek⟩ := exists_seek hhit
  refine ⟨j, hj, fun e h => ?_⟩
  obtain ⟨others, htokens⟩ := h.tokens
  have hlast := (List.getElem?_eq_some_iff.mp hj).1
  have hcount : e.tokenSize.toNat = (tableOf doc).length := by
    rw [h.count, Int.toNat_natCast, tableOf, List.length_map]
  refine ⟨by rw [htokens, List.getElem?_append_left hlast, hj], fun result => ?_⟩
  apply GetAfterSet.search_of_seek_utf16
  rw [hcount, hseek _ _ others e.tokens 0 (fun u hu => h.isWordAt_eq hu) htokens, Nat.zero_add]

/-- A search in the whole object ends behind the first word that is spelled like the key. -/
theorem hitOf_first (hobject : (doc.value.root doc.lead.val.length).kind = .object)
    {front back : List Node} {n m : Node} (hnodes : doc.nodes = front ++ n :: m :: back)
    (hword : n.isWord) (htext : n.text = key)
    (hfront : ∀ u ∈ front, u.kind ≠ .array ∧ (u.isWord → u.text ≠ key)) :
    hitOf doc.text key (rangeAt doc.value doc.lead.val.length) (tableOf doc) =
      .value (tokenOf m) := by
  have hn : n ∈ doc.nodes := by
    rw [hnodes]
    simp
  have hin : (rangeAt doc.value doc.lead.val.length).start ≤ n.start ∧
      (n.stop : ℤ) ≤ (rangeAt doc.value doc.lead.val.length).stop := by
    have hinside := doc.value.nodes_inside hn
    have hroot : (doc.value.root doc.lead.val.length).start = doc.lead.val.length ∧
        (doc.value.root doc.lead.val.length).stop =
          doc.lead.val.length + doc.value.render.length := by
      cases hv : doc.value with
      | primitive text =>
        rw [hv] at hobject
        cases hobject
      | string text =>
        rw [hv] at hobject
        cases hobject
      | container keyed blank items => exact ⟨rfl, rfl⟩
    simp only [rangeAt, rangeOf, tokenOf]
    omega
  have hpass : hitOf doc.text key (rangeAt doc.value doc.lead.val.length) (front.map tokenOf ++
      (tokenOf n :: tokenOf m :: back.map tokenOf)) = _ :=
    hitOf_pass (fun u hu => by rw [hnodes]; exact List.mem_append_left _ hu) (fun u hu => by
      right
      by_cases hu' : u.isWord
      · exact .inl ⟨hu', (hfront u hu).2 hu'⟩
      · exact .inr ⟨hu', fun harray => absurd harray (hfront u hu).1⟩)
  have htable : tableOf doc = front.map tokenOf ++
      (tokenOf n :: tokenOf m :: back.map tokenOf) := by
    rw [tableOf, hnodes]
    simp
  rw [htable, hpass, hitOf_hit hn hword htext hin]

/-- One step along a path. -/
theorem findRange_cons {t : Token} (hhit : hitOf doc.text key range (tableOf doc) = .value t)
    (h : Carries e doc) (keys : List (List Char16)) :
    findRange e (utf16 key :: keys) range = findRange e keys (rangeOf t) := by
  obtain ⟨j, -, hsearch⟩ := exists_search hhit
  obtain ⟨ht, htake⟩ := hsearch e h
  rw [findRange, htake, GetAfterSet.takeToken_none_utf16 (readAt_natCast _ _ _ ht), checked_ok,
    returned_bind]
  rfl

/-- A path with no key met too early leads to its value. -/
theorem findRange_follow (h : Carries e doc) (path : List (List Byte))
    (hv : (v, pos) ∈ doc.value.subvalues doc.lead.val.length)
    (hfollow : Json.follow path v pos = some (w, q)) (hclear : Json.Clear path v pos) :
    findRange e (path.map utf16) (rangeAt v pos) = .ok (rangeAt w q) := by
  induction path generalizing v pos with
  | nil =>
    obtain ⟨rfl, rfl⟩ := Prod.mk.inj (Option.some.inj hfollow)
    rfl
  | cons key keys ih =>
    rw [Json.follow] at hfollow
    cases hmember : v.member key pos with
    | none =>
      rw [hmember] at hfollow
      cases hfollow
    | some found =>
      obtain ⟨x, r⟩ := found
      rw [hmember] at hfollow
      have hx := Json.subvalues_trans doc.value (Json.member_nodes hmember).1 hv
      obtain ⟨m, hhit, hright, -⟩ := hitOf_member hv hmember
      rw [hright hclear.1] at hhit
      rw [List.map_cons, findRange_cons hhit h]
      exact ih hx hfollow (hclear.2 x r hmember)

/-- A token of the text is read in the same way in all arrays that hold the text. -/
theorem takeToken_congr {t : Token} {j : ℕ} (h : Carries e doc) (h' : Carries e' doc)
    (ht : t ∈ tableOf doc) (hj : e.tokens[j]? = some t) (hj' : e'.tokens[j]? = some t)
    (result : Option (List Char16)) : takeToken e' result j = takeToken e result j := by
  obtain ⟨n, hn, rfl⟩ := List.mem_map.mp ht
  obtain ⟨front, behind, htext, hstart⟩ := doc.nodes_place hn
  obtain ⟨beyond, hcontent⟩ := h.content
  obtain ⟨beyond', hcontent'⟩ := h'.content
  have hlength : n.stop ≤ doc.text.length := by
    rw [htext, Node.stop, hstart]
    simp only [List.length_append]
    omega
  have hcopy : ∀ dst, copyLoop e'.content ((tokenOf n).stop - (tokenOf n).start).toNat
      (tokenOf n).start 0 dst = copyLoop e.content ((tokenOf n).stop - (tokenOf n).start).toNat
        (tokenOf n).start 0 dst := by
    intro dst
    apply copyLoop_congr
    intro k hk hlt
    rw [hcontent, hcontent']
    apply readAt_append_left
    rw [utf16, List.length_map]
    simp only [tokenOf] at hk hlt
    omega
  rw [takeToken, takeToken, readAt_natCast _ _ _ hj, readAt_natCast _ _ _ hj', ok_bind, ok_bind]
  cases result with
  | none => rfl
  | some result => simp only [getPatteren?, getPatteren, hcopy]

/-- A lookup gives the same in all arrays that hold the text, if no key in front of the last one
is met too early. -/
theorem findValue_congr (h : Carries e doc) (h' : Carries e' doc) (path : List (List Byte))
    (hne : path ≠ []) (hv : (v, pos) ∈ doc.value.subvalues doc.lead.val.length)
    (hfollow : Json.follow path v pos = some (w, q)) (hclear : Json.Clear path.dropLast v pos)
    (result : List Char16) :
    findValue e' result (path.map utf16) (rangeAt v pos) =
      findValue e result (path.map utf16) (rangeAt v pos) := by
  induction path generalizing v pos with
  | nil => exact absurd rfl hne
  | cons key keys ih =>
    rw [Json.follow] at hfollow
    cases hmember : v.member key pos with
    | none =>
      rw [hmember] at hfollow
      cases hfollow
    | some found =>
      obtain ⟨x, r⟩ := found
      rw [hmember] at hfollow
      have hx := Json.subvalues_trans doc.value (Json.member_nodes hmember).1 hv
      obtain ⟨m, hhit, hright, -⟩ := hitOf_member hv hmember
      obtain ⟨j, hj, hsearch⟩ := exists_search hhit
      obtain ⟨ht, htake⟩ := hsearch e h
      obtain ⟨ht', htake'⟩ := hsearch e' h'
      cases keys with
      | nil =>
        have hsame := takeToken_congr h h' (List.mem_of_getElem? hj) ht ht' (some result)
        rw [List.map_cons, List.map_nil, findValue, findValue, htake, htake', hsame]
      | cons key' keys =>
        rw [List.dropLast_cons_of_ne_nil (List.cons_ne_nil _ _)] at hclear
        obtain rfl := hright hclear.1
        rw [List.map_cons, findValue, findValue, htake, htake',
          GetAfterSet.takeToken_none_utf16 (readAt_natCast _ _ _ ht),
          GetAfterSet.takeToken_none_utf16 (readAt_natCast _ _ _ ht'), checked_ok, returned_bind,
          returned_bind]
        · exact ih (List.cons_ne_nil _ _) hx hfollow (hclear.2 x r hmember)
        · simp
        · simp

theorem Carries.root (h : Carries e doc) :
    ∃ tokens others, tableOf doc = tokenOf (doc.value.root doc.lead.val.length) :: tokens ∧
      e.tokens = tokenOf (doc.value.root doc.lead.val.length) :: tokens ++ others ∧
      getAllRange e.tokens = .ok (rangeAt doc.value doc.lead.val.length) := by
  obtain ⟨others, htokens⟩ := h.tokens
  obtain ⟨tail, htail⟩ := doc.value.nodes_eq_root doc.lead.val.length
  have htable : tableOf doc = tokenOf (doc.value.root doc.lead.val.length) ::
      tail.map tokenOf := by
    rw [tableOf, Document.nodes, htail, List.map_cons]
  rw [htable] at htokens
  refine ⟨_, others, htable, htokens, ?_⟩
  rw [htokens, getAllRange]
  rfl

section

variable {n : Node} {keys : List (List Char16)} {front behind new : List Byte}

theorem rangeOf_utf16 (hstart : n.start = front.length) : rangeOf (tokenOf n) =
    ⟨(utf16 front).length, (utf16 front).length + (utf16 n.text).length⟩ := by
  simp only [rangeOf, tokenOf, Node.stop, hstart, utf16, List.length_map]
  push_cast
  rfl

/-- The content around a node. -/
theorem Carries.content_parts (h : Carries e doc) (hdoc : doc.text = front ++ (n.text ++ behind)) :
    (0 : Char16) ∉ utf16 front ∧ (0 : Char16) ∉ utf16 behind ∧ ∃ past,
      e.content = utf16 front ++ (utf16 n.text ++ (utf16 behind ++ 0 :: past)) := by
  obtain ⟨past, hcontent⟩ := h.content
  have hnul := doc.zero_notMem_text
  rw [hdoc, List.mem_append, List.mem_append, not_or, not_or] at hnul
  refine ⟨CSharpReader.zero_notMem_utf16 hnul.1, CSharpReader.zero_notMem_utf16 hnul.2.2, past,
    ?_⟩
  rw [hcontent, hdoc]
  simp [utf16]

/-- A word that a search has found is set where the new text has room. -/
theorem Carries.set_word (h : Carries e doc) {doc' : Document}
    (hstop : (doc.value.root doc.lead.val.length).stop = doc.text.length)
    (hdoc : doc.text = front ++ (n.text ++ behind)) (hstart : n.start = front.length)
    (hdoc' : doc'.text = front ++ (new ++ behind)) (htable : tableOf doc' = (tableOf doc).map
      (JsFileParser.shiftToken (rangeOf (tokenOf n)) (new.length - n.text.length)))
    (hold : n.text ≠ []) (hkeys : keys ≠ []) (hfind : findRange e keys
      (rangeAt doc.value doc.lead.val.length) = .ok (rangeOf (tokenOf n)))
    (hroom : doc'.text.length < MAXPACKETSIZE) (beyond : List Char16) :
    ∃ e', setJsfileSingleValue (utf16 new ++ 0 :: beyond) keys e = .ok e' ∧ Carries e' doc' := by
  obtain ⟨hfront, hbehind, past, hplace⟩ := h.content_parts hdoc
  obtain ⟨tokens, others, hroot, htokens, -⟩ := h.root
  have htext : utf16 front ++ utf16 new ++ utf16 behind = utf16 doc'.text := by
    rw [hdoc']
    simp [utf16]
  have hnul : (0 : Char16) ∉ utf16 doc'.text :=
    CSharpReader.zero_notMem_utf16 doc'.zero_notMem_text
  have hnew : (0 : Char16) ∉ utf16 new := fun hmem => hnul (by rw [← htext]; simp [hmem])
  have hshort : (utf16 doc'.text).length < MAXPACKETSIZE := by rwa [utf16, List.length_map]
  have hloop := replaceLoop_replace (utf16 front) (utf16 n.text) (utf16 behind) past (utf16 new)
    beyond (List.replicate MAXPACKETSIZE 0) (fun hnil => hold (List.map_eq_nil_iff.mp hnil)) hfront
    hbehind hnew (MAXPACKETSIZE + 2) (by rw [List.length_replicate]; exact Nat.lt_succ_self _) (by
      rw [← htext, List.length_append, List.length_append] at hshort
      rwa [List.length_replicate])
  rw [← hplace, htext] at hloop
  have hmerge := (mergeLoop_eq e.content (utf16 new ++ 0 :: beyond)
    ⟨(utf16 front).length, (utf16 front).length + (utf16 n.text).length⟩ _ 0 0 0 _).trans hloop
  rw [rangeOf_utf16 hstart] at hfind htable
  have hcount : e.tokenSize = (tokenOf (doc.value.root doc.lead.val.length) :: tokens).length := by
    rw [← hroot, h.count, tableOf, List.length_map]
  have hset := setJsfileSingleValue_of_merge hkeys htokens hcount hfind hmerge hnul
    (by rwa [h.size])
  refine ⟨_, hset, ⟨_, rfl⟩, ?_, ⟨others, ?_⟩, ?_⟩
  · rw [List.length_append, List.length_cons, List.length_drop, h.size]
    omega
  · have hlength : (((utf16 doc'.text).length : ℕ) : ℤ) -
        (tokenOf (doc.value.root doc.lead.val.length)).stop = new.length - n.text.length := by
      rw [tokenOf, hstop, utf16, List.length_map, hdoc, hdoc']
      simp only [List.length_append]
      push_cast
      omega
    dsimp only
    rw [hlength, ← hroot, ← htable]
  · have hsame := congrArg List.length htable
    rw [List.length_map, tableOf, tableOf, List.length_map, List.length_map] at hsame
    exact h.count.trans (congrArg _ hsame.symm)

/-- A word that was set had room. -/
theorem Carries.set_room (h : Carries e doc) (hdoc : doc.text = front ++ (n.text ++ behind))
    (hstart : n.start = front.length) (hold : n.text ≠ []) (hnew : (0 : Byte) ∉ new)
    (hfind : findRange e keys (rangeAt doc.value doc.lead.val.length) = .ok (rangeOf (tokenOf n)))
    {beyond : List Char16}
    (hset : setJsfileSingleValue (utf16 new ++ 0 :: beyond) keys e = .ok e') :
    (front ++ (new ++ behind)).length < MAXPACKETSIZE := by
  obtain ⟨hfront, hbehind, past, hplace⟩ := h.content_parts hdoc
  obtain ⟨tokens, others, -, htokens, -⟩ := h.root
  have hread : readAt e.tokens 0 = .ok (tokenOf (doc.value.root doc.lead.val.length)) :=
    readAt_natCast _ 0 _ (by rw [htokens]; rfl)
  obtain ⟨r, content, hmerge, -⟩ := setJsfileSingleValue_merges hread hfind hset
  rw [mergeLoop_eq, rangeOf_utf16 hstart, hplace] at hmerge
  obtain ⟨u, urest, hvalue, hu, hroom⟩ := replaceLoop_room _ _ _ _ _ _ _ _
    (fun hnil => hold (List.map_eq_nil_iff.mp hnil)) hfront hbehind hmerge
  have hsame : utf16 new = u := by
    have hread := cString_append 0 (utf16 new) beyond (CSharpReader.zero_notMem_utf16 hnew)
    rw [hvalue, cString_append 0 u urest hu] at hread
    exact (Except.ok.inj hread).symm
  rw [← hsame, List.length_replicate] at hroom
  simp only [utf16, List.length_map] at hroom
  simp only [List.length_append]
  omega

/-- Setting a word that a search has found, in a text that ends with its object: a value that is
set has room, and leaves the arrays with the text in which it stands. -/
theorem exists_set (h : Carries e doc) (hlast : doc.trail.val = [])
    (hobject : (doc.value.root doc.lead.val.length).kind = .object)
    (hn : n ∈ doc.nodes) (hword : n.isWord) (hold : n.text ≠ []) (hkeys : keys ≠ [])
    (hfind : findRange e keys (rangeAt doc.value doc.lead.val.length) =
      .ok (rangeOf (tokenOf n))) (new : Bare) :
    ∃ (doc' : Document) (front behind : List Byte), doc.text = front ++ (n.text ++ behind) ∧
      n.start = front.length ∧ doc'.text = front ++ (new.val ++ behind) ∧ ∀ beyond,
        (doc'.text.length < MAXPACKETSIZE →
          ∃ e', setJsfileSingleValue (utf16 new ++ 0 :: beyond) keys e = .ok e') ∧
        ∀ e', setJsfileSingleValue (utf16 new ++ 0 :: beyond) keys e = .ok e' →
          Carries e' doc' := by
  obtain ⟨doc', front, behind, hdoc, hstart, hdoc', -, -, htable⟩ :=
    TokenUpdate.exists_document doc hn hword new.property.1 new.property.2
  have hstop := TokenUpdate.root_stop hlast hobject
  have hset := fun hroom beyond => h.set_word hstop hdoc hstart hdoc' htable hold hkeys hfind hroom
    beyond
  refine ⟨doc', front, behind, hdoc, hstart, hdoc', fun beyond => ⟨?_, ?_⟩⟩
  · intro hroom
    obtain ⟨e', hok, -⟩ := hset hroom beyond
    exact ⟨e', hok⟩
  · intro e' hok
    have hnew : (0 : Byte) ∉ new.val := fun hmem =>
      ne_zero_of_isBare (new.property.2 0 hmem) rfl
    have hroom := h.set_room hdoc hstart hold hnew hfind hok
    rw [← hdoc'] at hroom
    obtain ⟨e'', hok', hcarries⟩ := hset hroom beyond
    rw [hok] at hok'
    obtain rfl := Except.ok.inj hok'
    exact hcarries

end

theorem tableOf_congr {doc' : Document} (h : doc'.text = doc.text) : tableOf doc' = tableOf doc := by
  have hparse := jsmnParse_document doc (le_max_left doc.nodes.length doc'.nodes.length)
  have hparse' := jsmnParse_document doc' (le_max_right doc.nodes.length doc'.nodes.length)
  rw [h, hparse] at hparse'
  exact (Prod.mk.inj (Except.ok.inj hparse')).2.symm

theorem Carries.congr {doc' : Document} (h : Carries e doc) (htext : doc'.text = doc.text) :
    Carries e doc' := by
  have htable := tableOf_congr htext
  have hcount := congrArg List.length htable
  rw [tableOf, tableOf, List.length_map, List.length_map] at hcount
  refine ⟨?_, h.size, ?_, ?_⟩
  · rw [htext]
    exact h.content
  · rw [htable]
    exact h.tokens
  · rw [hcount]
    exact h.count

/-- The text with a new value at the end of a path. -/
def assign (doc : Document) (path : List (List Byte)) (new : Bare) : Document :=
  ⟨doc.lead, Json.assign (.primitive new) path doc.value, doc.trail⟩

/-- The text around a value stays when another value is put there. -/
theorem exists_assign {path : List (List Byte)} {old : Bare}
    (hfollow : Json.follow path doc.value doc.lead.val.length = some (.primitive old, q)) :
    ∃ front behind, doc.text = front ++ (old.val ++ behind) ∧ q = front.length ∧
      ∀ new, (assign doc path new).text = front ++ (new.val ++ behind) := by
  obtain ⟨front, behind, hrender, hq, hassign⟩ := Json.follow_assign hfollow
  refine ⟨doc.lead.val ++ front, behind ++ doc.trail.val, ?_, ?_, fun new => ?_⟩
  · rw [Document.text, hrender, Json.render]
    simp only [List.append_assoc]
  · rw [hq, List.length_append]
  · rw [Document.text, assign]
    dsimp only
    rw [hassign, Json.render]
    simp only [List.append_assoc]

theorem length_assign {path : List (List Byte)} {old : Bare}
    (hfollow : Json.follow path doc.value doc.lead.val.length = some (.primitive old, q))
    (new : Bare) :
    (assign doc path new).text.length + old.val.length = doc.text.length + new.val.length := by
  obtain ⟨front, behind, hdoc, -, hassign⟩ := exists_assign hfollow
  rw [hassign, hdoc]
  simp only [List.length_append]
  omega

/-- Setting the value that a path leads to, when the search has found it. -/
theorem set_path (h : Carries e doc) (hlast : doc.trail.val = [])
    (hobject : (doc.value.root doc.lead.val.length).kind = .object) {path : List (List Byte)}
    {keys : List (List Char16)} (hkeys : keys ≠ []) {old : Bare}
    (hfollow : Json.follow path doc.value doc.lead.val.length = some (.primitive old, q))
    (hfind : findRange e keys (rangeAt doc.value doc.lead.val.length) =
      .ok (rangeAt (.primitive old) q)) (new : Bare) (beyond : List Char16) :
    ((assign doc path new).text.length < MAXPACKETSIZE →
      ∃ e', setJsfileSingleValue (utf16 new ++ 0 :: beyond) keys e = .ok e') ∧
    ∀ e', setJsfileSingleValue (utf16 new ++ 0 :: beyond) keys e = .ok e' →
      Carries e' (assign doc path new) := by
  have hn : Json.root (.primitive old) q ∈ doc.nodes := by
    obtain ⟨-, before, after, hblock, -⟩ := doc.value.subvalues_block (Json.follow_mem hfollow)
    rw [Document.nodes, hblock]
    simp [Json.root_mem]
  obtain ⟨doc', front, behind, hdoc, hstart, hdoc', hset⟩ :=
    exists_set h hlast hobject hn (.inr rfl) old.property.1 hkeys hfind new
  obtain ⟨front', behind', htext, hq, hassign⟩ := exists_assign hfollow
  rw [hdoc] at htext
  obtain ⟨rfl, hrest⟩ := List.append_inj htext (hstart.symm.trans hq)
  obtain rfl := List.append_cancel_left hrest
  have hsame : (assign doc path new).text = doc'.text := by
    rw [hdoc', hassign]
  rw [hsame]
  exact ⟨(hset beyond).1, fun e' hok => ((hset beyond).2 e' hok).congr hsame⟩

end

end IoTRepublic.CSharpDocument
