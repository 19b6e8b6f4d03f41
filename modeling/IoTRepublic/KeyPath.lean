import IoTRepublic.JsonTable
import IoTRepublic.Lookup

/-!
Lookups by a path of keys in a well-formed text. A search looks at the words of
the object in the order of the text, keys and values at any depth alike, and
takes the node behind the first one that is spelled like the key. It finds the
member of the object exactly if none of the words in front of the member is.
-/
namespace IoTRepublic.KeyPath

open CheckedArray Package Jsmn JsFileParser Lookup JsonText JsonTable

/-- A well-formed text that has been loaded and tokenized. -/
structure Loaded (d : JsonData) (doc : Document) : Prop where
  shows_text : Shows d doc.text (tableOf doc)
  count : d.tokenSize = doc.nodes.length

/-- The range of a value. -/
def rangeAt (v : Value) (pos : ℕ) : Range := rangeOf (tokenOf (v.root pos))

/-- With every part of the path in front of it, the search comes to the range of the value that
this part leads to. -/
def Follows (d : JsonData) (range : Range) (path : List (List Byte)) (v : Value) (pos : ℕ) :
    Prop :=
  ∀ front, front ≠ [] → front <+: path → ∃ w q, Json.follow front v pos = some (w, q) ∧
    findRange d front range = .ok (rangeAt w q)

section

variable {d d₀ : JsonData} {doc : Document} {key result : List Byte} {v w : Value} {pos q : ℕ}
  {range : Range}

theorem loaded_initToken {beyond : List Byte} (hcontent : d₀.content = doc.text ++ 0 :: beyond)
    (hroom : d₀.content.length = MAXCONTENTSIZE) (htokens : d₀.tokens.length = MAXTOKENSIZE)
    (hfew : doc.nodes.length ≤ MAXTOKENSIZE) (hinit : initToken d₀ = .ok d) : Loaded d doc := by
  obtain ⟨d', hd', hshows, hcount, -⟩ := initToken_shows (d := d₀) doc.zero_notMem_text hcontent
    hroom htokens (jsmnParse_document doc hfew)
  have hsame : { d₀ with content := d₀.content } = d₀ := rfl
  rw [hsame, hinit] at hd'
  obtain rfl := Except.ok.inj hd'
  exact ⟨hshows, hcount⟩

theorem tokenText_node {n : Node} (hn : n ∈ doc.nodes) :
    tokenText doc.text (tokenOf n) = n.text := by
  obtain ⟨front, behind, htext, hstart⟩ := doc.nodes_place hn
  have hfrom : (tokenOf n).start.toNat = front.length := by
    rw [tokenOf, Int.toNat_natCast, hstart]
  have hlength : ((tokenOf n).stop - (tokenOf n).start).toNat = n.text.length := by
    rw [tokenOf, Node.stop]
    simp only
    omega
  rw [tokenText, hfrom, hlength, htext, List.drop_left, List.take_left]

/-- A node that a search for this key goes past. -/
def Passes (key : List Byte) (range : Range) (n : Node) : Prop :=
  ((n.start : ℤ) < range.start ∨ (n.stop : ℤ) > range.stop) ∨
    (n.isWord ∧ n.text ≠ key) ∨ (¬ n.isWord ∧ (n.kind = .array → (n.start : ℤ) ≠ range.start))

theorem isWord_iff (n : Node) : n.isWord ↔ (tokenOf n).type = .string ∨ (tokenOf n).type = .primitive := by
  rw [Node.isWord, tokenOf]
  cases n.kind <;> simp [typeOf]

theorem hitOf_pass {front : List Node} {rest : List Token}
    (hmem : ∀ n ∈ front, n ∈ doc.nodes) (h : ∀ n ∈ front, Passes key range n) :
    hitOf doc.text key range (front.map tokenOf ++ rest) = hitOf doc.text key range rest := by
  induction front with
  | nil => rfl
  | cons n front ih =>
    have hrest := ih (fun m hm => hmem m (List.mem_cons_of_mem n hm))
      (fun m hm => h m (List.mem_cons_of_mem n hm))
    have htext := tokenText_node (hmem n List.mem_cons_self)
    rw [List.map_cons, List.cons_append, hitOf.eq_def]
    dsimp only
    by_cases hout : (tokenOf n).start < range.start ∨ (tokenOf n).stop > range.stop
    · rw [if_pos hout, hrest]
    rw [if_neg hout]
    rcases h n List.mem_cons_self with hout' | ⟨hword, hne⟩ | ⟨hword, harray⟩
    · exact absurd hout' hout
    · rw [if_pos ((isWord_iff n).mp hword), if_neg (by rw [htext]; exact hne), hrest]
    · rw [if_neg (fun h => hword ((isWord_iff n).mpr h)), if_neg ?_, hrest]
      rintro ⟨htype, hstart⟩
      refine harray ?_ hstart
      cases hkind : n.kind <;> simp [tokenOf, typeOf, hkind] at htype ⊢

/-- A search meets a word that is spelled like the key. -/
theorem hitOf_hit {n m : Node} {rest : List Token} (hn : n ∈ doc.nodes) (hword : n.isWord)
    (htext : n.text = key) (hin : range.start ≤ n.start ∧ (n.stop : ℤ) ≤ range.stop) :
    hitOf doc.text key range (tokenOf n :: tokenOf m :: rest) = .value (tokenOf m) := by
  have hkeep : ¬ ((tokenOf n).start < range.start ∨ (tokenOf n).stop > range.stop) := by
    simp only [tokenOf]
    omega
  rw [hitOf.eq_def]
  dsimp only
  rw [if_neg hkeep, if_pos ((isWord_iff n).mp hword), if_pos ((tokenText_node hn).trans htext)]

/-- The place of an object's member in the table of the text. -/
theorem member_table (hv : (v, pos) ∈ doc.value.subvalues doc.lead.val.length)
    (hmember : v.member key pos = some (w, q)) :
    ∃ before front after start, doc.nodes =
        before ++ (v.root pos :: (front ++ ⟨.string, start, key, 1⟩ :: w.root q :: after)) ∧
      (∀ n ∈ before, Passes key (rangeAt v pos) n) ∧ Passes key (rangeAt v pos) (v.root pos) ∧
      (∀ n ∈ front, pos < n.start ∧ n.stop ≤ (v.root pos).stop) ∧
      (pos < start ∧ start + key.length ≤ (v.root pos).stop) ∧ (v.root pos).start = pos ∧
      ∀ text, text ∈ v.wordsBeforeMember key ↔ ∃ n ∈ front, n.isWord ∧ n.text = text := by
  obtain ⟨-, before, after, hblock, hbefore, -⟩ := doc.value.subvalues_block hv
  obtain ⟨hw, hkind, front, behind, start, hnodes, hwords⟩ := Json.member_nodes hmember
  obtain ⟨tail, htail⟩ := w.nodes_eq_root q
  obtain ⟨hstart, hstop⟩ : (v.root pos).start = pos ∧
      (v.root pos).stop = pos + v.render.length := by
    cases v with
    | primitive text => cases hmember
    | string text => cases hmember
    | container keyed blank items => exact ⟨rfl, rfl⟩
  have hinside : ∀ n ∈ front ++ [⟨.string, start, key, 1⟩],
      pos < n.start ∧ n.stop ≤ (v.root pos).stop := by
    intro n hn
    have hmem : n ∈ v.nodes pos := by
      rw [hnodes]
      rcases List.mem_append.mp hn with hn | hn
      · simp [hn]
      · simp [List.mem_singleton.mp hn]
    have hahead := v.nodes_ahead pos
    rw [hnodes, List.cons_append, List.pairwise_cons] at hahead
    have hfirst := (hahead.1 n (by
      rcases List.mem_append.mp hn with hn | hn
      · simp [hn]
      · simp [List.mem_singleton.mp hn])).1
    rw [hstart] at hfirst
    rw [hstop]
    exact ⟨hfirst, (v.nodes_inside hmem).2⟩
  refine ⟨before, front, tail ++ behind ++ after, start, ?_, ?_, ?_, ?_, ?_, hstart, hwords⟩
  · rw [Document.nodes, hblock, hnodes, htail]
    simp
  · intro n hn
    left
    left
    have hlt := hbefore n hn
    simp only [rangeAt, rangeOf, tokenOf, hstart]
    omega
  · right
    right
    rw [Node.isWord, hkind]
    simp
  · exact fun n hn => hinside n (List.mem_append_left _ hn)
  · have hkey := hinside ⟨.string, start, key, 1⟩ (by simp)
    exact hkey

/-- A search among words of which one is spelled like the key ends behind the first of these. -/
theorem hitOf_clash {front : List Node} {last next : Node} {rest : List Token}
    (hmem : ∀ n ∈ front ++ [last], n ∈ doc.nodes)
    (hin : ∀ n ∈ front ++ [last], range.start < n.start ∧ (n.stop : ℤ) ≤ range.stop)
    (hclash : ∃ n ∈ front, n.isWord ∧ n.text = key) :
    ∃ m ∈ front ++ [last], hitOf doc.text key range
      (front.map tokenOf ++ tokenOf last :: tokenOf next :: rest) = .value (tokenOf m) := by
  induction front with
  | nil => simp at hclash
  | cons n front ih =>
    by_cases hn : n.isWord ∧ n.text = key
    · have hinside := hin n List.mem_cons_self
      have hhit : ∀ m rest', hitOf doc.text key range (tokenOf n :: tokenOf m :: rest') =
          .value (tokenOf m) := fun m rest' =>
        hitOf_hit (hmem n List.mem_cons_self) hn.1 hn.2 ⟨hinside.1.le, hinside.2⟩
      cases front with
      | nil => exact ⟨last, by simp, hhit last _⟩
      | cons m front => exact ⟨m, by simp, hhit m _⟩
    · have hpass : Passes key range n := by
        right
        by_cases hword : n.isWord
        · exact .inl ⟨hword, fun htext => hn ⟨hword, htext⟩⟩
        · exact .inr ⟨hword, fun _ => (hin n List.mem_cons_self).1.ne'⟩
      have hskip : hitOf doc.text key range ([n].map tokenOf ++ (front.map tokenOf ++
          tokenOf last :: tokenOf next :: rest)) = _ :=
        hitOf_pass (by simpa using hmem n List.mem_cons_self) (by simpa using hpass)
      have hrest : ∃ m ∈ front, m.isWord ∧ m.text = key := by
        obtain ⟨m, hm, hclash⟩ := hclash
        rcases List.mem_cons.mp hm with rfl | hm
        · exact absurd hclash hn
        · exact ⟨m, hm, hclash⟩
      obtain ⟨m, hm, hhit⟩ := ih (fun m hm => hmem m (List.mem_cons_of_mem n hm))
        (fun m hm => hin m (List.mem_cons_of_mem n hm)) hrest
      exact ⟨m, List.mem_cons_of_mem n hm, hskip.trans hhit⟩

/-- The search in an object finds a member of it exactly if no word in front of the member is
spelled like its key; otherwise it finds something that stands in front of the member. -/
theorem hitOf_member (hv : (v, pos) ∈ doc.value.subvalues doc.lead.val.length)
    (hmember : v.member key pos = some (w, q)) :
    ∃ m, hitOf doc.text key (rangeAt v pos) (tableOf doc) = .value (tokenOf m) ∧
      (key ∉ v.wordsBeforeMember key → m = w.root q) ∧
      (key ∈ v.wordsBeforeMember key → m.start < (w.root q).start) := by
  obtain ⟨before, front, after, start, hnodes, hbefore, hroot, hfront, hkey, hstart, hwords⟩ :=
    member_table hv hmember
  have hdoc : ∀ n ∈ before ++ (v.root pos :: (front ++ ⟨.string, start, key, 1⟩ :: w.root q ::
      after)), n ∈ doc.nodes := by
    intro n hn
    rw [hnodes]
    exact hn
  have htable : tableOf doc = (before ++ [v.root pos]).map tokenOf ++ (front.map tokenOf ++
      tokenOf ⟨.string, start, key, 1⟩ :: tokenOf (w.root q) :: after.map tokenOf) := by
    rw [tableOf, hnodes]
    simp
  have hskip : hitOf doc.text key (rangeAt v pos) (tableOf doc) =
      hitOf doc.text key (rangeAt v pos) (front.map tokenOf ++
        tokenOf ⟨.string, start, key, 1⟩ :: tokenOf (w.root q) :: after.map tokenOf) := by
    rw [htable]
    apply hitOf_pass
    · intro n hn
      apply hdoc
      rcases List.mem_append.mp hn with hn | hn
      · simp [hn]
      · simp [List.mem_singleton.mp hn]
    · intro n hn
      rcases List.mem_append.mp hn with hn | hn
      · exact hbefore n hn
      · rw [List.mem_singleton.mp hn]
        exact hroot
  have hin : ∀ n ∈ front ++ [⟨.string, start, key, 1⟩],
      (rangeAt v pos).start < n.start ∧ (n.stop : ℤ) ≤ (rangeAt v pos).stop := by
    intro n hn
    have hinside : pos < n.start ∧ n.stop ≤ (v.root pos).stop := by
      rcases List.mem_append.mp hn with hn | hn
      · exact hfront n hn
      · rw [List.mem_singleton.mp hn]
        exact hkey
    simp only [rangeAt, rangeOf, tokenOf, hstart]
    omega
  have hmem : ∀ n ∈ front ++ [⟨.string, start, key, 1⟩], n ∈ doc.nodes := by
    intro n hn
    apply hdoc
    rcases List.mem_append.mp hn with hn | hn
    · simp [hn]
    · simp [List.mem_singleton.mp hn]
  by_cases hclash : key ∈ v.wordsBeforeMember key
  · obtain ⟨m, hm, hhit⟩ := hitOf_clash hmem hin
      ((hwords key).mp hclash)
    refine ⟨m, hskip.trans hhit, fun h => absurd hclash h, fun _ => ?_⟩
    have hahead := doc.value.nodes_ahead doc.lead.val.length
    have hsplit : doc.value.nodes doc.lead.val.length = (before ++ [v.root pos]) ++
        ((front ++ [⟨.string, start, key, 1⟩]) ++ (w.root q :: after)) := by
      rw [← Document.nodes, hnodes]
      simp
    rw [hsplit] at hahead
    have hbehind := List.pairwise_append.mp (List.pairwise_append.mp hahead).2.1
    exact (hbehind.2.2 m hm (w.root q) List.mem_cons_self).1
  · refine ⟨w.root q, ?_, fun _ => rfl, fun h => absurd h hclash⟩
    have hpass : hitOf doc.text key (rangeAt v pos) (front.map tokenOf ++
        tokenOf ⟨.string, start, key, 1⟩ :: tokenOf (w.root q) :: after.map tokenOf) =
        hitOf doc.text key (rangeAt v pos)
          (tokenOf ⟨.string, start, key, 1⟩ :: tokenOf (w.root q) :: after.map tokenOf) := by
      apply hitOf_pass (fun n hn => hmem n (List.mem_append_left _ hn))
      intro n hn
      right
      by_cases hword : n.isWord
      · exact .inl ⟨hword, fun htext => hclash ((hwords key).mpr ⟨n, hn, hword, htext⟩)⟩
      · exact .inr ⟨hword, fun _ => (hin n (List.mem_append_left _ hn)).1.ne'⟩
    rw [hskip, hpass]
    have hlast := hin ⟨.string, start, key, 1⟩ (by simp)
    exact hitOf_hit (hmem _ (by simp)) (.inl rfl) rfl ⟨hlast.1.le, hlast.2⟩

theorem Loaded.searched_eq (hd : Loaded d doc) : searched d.tokenSize (tableOf doc) = tableOf doc := by
  have hlength : (tableOf doc).length = doc.nodes.length := List.length_map ..
  rw [searched, hd.count, Int.toNat_natCast, ← hlength, List.take_length]

/-- One step along a path. -/
theorem findRange_member (hd : Loaded d doc)
    (hv : (v, pos) ∈ doc.value.subvalues doc.lead.val.length)
    (hmember : v.member key pos = some (w, q)) :
    ∃ r, (∀ keys, findRange d (key :: keys) (rangeAt v pos) = findRange d keys r) ∧
      (r = rangeAt w q ↔ key ∉ v.wordsBeforeMember key) := by
  obtain ⟨m, hhit, hclear, hclash⟩ := hitOf_member hv hmember
  have hhit' := hhit
  rw [← hd.searched_eq] at hhit'
  obtain ⟨i, hsearch⟩ := hd.shows_text.search_value_range hhit'
  refine ⟨rangeOf (tokenOf m), ?_, ?_⟩
  · intro keys
    rw [findRange, hsearch, ok_bind]
  · constructor
    · intro hrange hmem
      have hlt := hclash hmem
      have hsame := congrArg Range.start hrange
      simp only [rangeAt, rangeOf, tokenOf] at hsame
      omega
    · intro hmem
      rw [hclear hmem]
      rfl

/-- Every part of a path leads where it should exactly if no key on the way is met too early. -/
theorem follows_iff (hd : Loaded d doc) (path : List (List Byte))
    (hv : (v, pos) ∈ doc.value.subvalues doc.lead.val.length)
    (hfollow : Json.follow path v pos = some (w, q)) :
    Follows d (rangeAt v pos) path v pos ↔ Json.Clear path v pos := by
  induction path generalizing v pos with
  | nil =>
    refine iff_of_true ?_ trivial
    intro front hne hfront
    exact absurd (List.prefix_nil.mp hfront) hne
  | cons key keys ih =>
    rw [Json.follow] at hfollow
    cases hmember : v.member key pos with
    | none =>
      rw [hmember] at hfollow
      cases hfollow
    | some found =>
      obtain ⟨x, r⟩ := found
      rw [hmember] at hfollow
      have hx := Json.subvalues_trans doc.value (Json.member_nodes hmember).1 hv
      obtain ⟨range, hstep, hright⟩ := findRange_member hd hv hmember
      have hnext := ih hx hfollow
      have hclear : Json.Clear (key :: keys) v pos ↔
          key ∉ v.wordsBeforeMember key ∧ Json.Clear keys x r := by
        rw [Json.Clear, hmember]
        simp only [Option.some.injEq, Prod.mk.injEq, and_imp]
        constructor
        · exact fun h => ⟨h.1, h.2 x r rfl rfl⟩
        · rintro ⟨hkey, hrest⟩
          refine ⟨hkey, ?_⟩
          rintro _ _ rfl rfl
          exact hrest
      rw [hclear, ← hright, ← hnext]
      constructor
      · intro hall
        have hfirst : range = rangeAt x r := by
          obtain ⟨y, s, hy, hfind⟩ := hall [key] (by simp) ⟨keys, rfl⟩
          rw [hstep] at hfind
          rw [Json.follow, hmember] at hy
          obtain ⟨rfl, rfl⟩ := Prod.mk.inj (Option.some.inj hy)
          exact Except.ok.inj hfind
        refine ⟨hfirst, ?_⟩
        intro front hne hfront
        obtain ⟨y, s, hy, hfind⟩ := hall (key :: front) (by simp)
          (List.cons_prefix_cons.mpr ⟨rfl, hfront⟩)
        rw [hstep, hfirst] at hfind
        rw [Json.follow, hmember] at hy
        exact ⟨y, s, hy, hfind⟩
      · rintro ⟨hfirst, hall⟩
        intro front hne hfront
        obtain ⟨k, front, rfl⟩ := List.exists_cons_of_ne_nil hne
        obtain ⟨rfl, hrest⟩ := List.cons_prefix_cons.mp hfront
        rw [Json.follow, hmember, hstep, hfirst]
        cases front with
        | nil => exact ⟨x, r, rfl, rfl⟩
        | cons k front => exact hall (k :: front) (by simp) hrest

/-- The lookup along a path with no key met too early. -/
theorem findValue_eq (hd : Loaded d doc) (path : List (List Byte)) (hne : path ≠ [])
    (hv : (v, pos) ∈ doc.value.subvalues doc.lead.val.length)
    (hfollow : Json.follow path v pos = some (w, q)) (hclear : Json.Clear path v pos)
    (hroom : (w.root q).text.length < result.length) :
    findValue d result path (rangeAt v pos) =
      .ok ((w.root q).text ++ 0 :: result.drop ((w.root q).text.length + 1)) := by
  induction path generalizing v pos with
  | nil => exact absurd rfl hne
  | cons key keys ih =>
    rw [Json.follow] at hfollow
    cases hmember : v.member key pos with
    | none =>
      rw [hmember] at hfollow
      cases hfollow
    | some found =>
      obtain ⟨x, r⟩ := found
      rw [hmember] at hfollow
      have hx := Json.subvalues_trans doc.value (Json.member_nodes hmember).1 hv
      obtain ⟨m, hhit, hright, -⟩ := hitOf_member hv hmember
      rw [hright hclear.1, ← hd.searched_eq] at hhit
      cases keys with
      | nil =>
        obtain ⟨rfl, rfl⟩ := Prod.mk.inj (Option.some.inj hfollow)
        obtain ⟨hmem, hclosed, i, hread, hsearch⟩ := hd.shows_text.search_value (some result) hhit
        have hroot : x.root r ∈ doc.nodes := by
          obtain ⟨-, before, after, hblock, -⟩ := doc.value.subvalues_block hx
          rw [Document.nodes, hblock]
          simp [Json.root_mem]
        rw [hd.shows_text.takeToken_value hmem hclosed hread
          (by rw [tokenText_node hroot]; exact hroom), tokenText_node hroot] at hsearch
        rw [findValue, hsearch]
        rfl
      | cons key' keys =>
        obtain ⟨i, hsearch⟩ := hd.shows_text.search_value_range hhit
        rw [findValue, hsearch, ok_bind]
        · exact ih (by simp) hx hfollow (hclear.2 x r hmember)
        · simp

end

/-- For every well-formed text of at most 1023 characters and 128 tokens and every path of keys
in it: with every part of the path the search comes to the value that this part leads to,
exactly if on the way no word in front of a member is spelled like the member's key; and then
`get_jsfile_value` gives the text of the value the path leads to. -/
theorem follows_iff_clear {doc : Document} {d₀ d : JsonData} {beyond : List Byte}
    {path : List (List Byte)} {w : Value} {q : ℕ}
    (hcontent : d₀.content = doc.text ++ 0 :: beyond) (hroom : d₀.content.length = MAXCONTENTSIZE)
    (htokens : d₀.tokens.length = MAXTOKENSIZE) (hfew : doc.nodes.length ≤ MAXTOKENSIZE)
    (hinit : initToken d₀ = .ok d) (hne : path ≠ [])
    (hfollow : Json.follow path doc.value doc.lead.val.length = some (w, q)) :
    getAllRange d.tokens = .ok (rangeAt doc.value doc.lead.val.length) ∧
      (Follows d (rangeAt doc.value doc.lead.val.length) path doc.value doc.lead.val.length ↔
        Json.Clear path doc.value doc.lead.val.length) ∧
      (Json.Clear path doc.value doc.lead.val.length → ∀ result : List Byte,
        (w.root q).text.length < result.length → getJsfileValue path d result =
          .ok ((w.root q).text ++ 0 :: result.drop ((w.root q).text.length + 1))) := by
  have hd := loaded_initToken hcontent hroom htokens hfew hinit
  have hself := doc.value.self_mem_subvalues doc.lead.val.length
  have hall : getAllRange d.tokens = .ok (rangeAt doc.value doc.lead.val.length) := by
    obtain ⟨tail, htail⟩ := doc.value.nodes_eq_root doc.lead.val.length
    have htable : tableOf doc = tokenOf (doc.value.root doc.lead.val.length) ::
        tail.map tokenOf := by
      rw [tableOf, Document.nodes, htail, List.map_cons]
    have hshows := hd.shows_text
    rw [htable] at hshows
    exact hshows.getAllRange_eq
  refine ⟨hall, follows_iff hd path hself hfollow, ?_⟩
  intro hclear result hfits
  rw [getJsfileValue, hall, ok_bind]
  exact findValue_eq hd path hne hself hfollow hclear hfits

/-- A text in the arrays of a `json_data`. -/
def arraysOf (text : List Byte) : JsonData :=
  ⟨List.replicate MAXTOKENSIZE ⟨.primitive, 0, 0, 0⟩,
    text ++ 0 :: List.replicate (MAXCONTENTSIZE - 1 - text.length) 0, 0, 0⟩

theorem arraysOf_content {text : List Byte} (h : text.length < MAXCONTENTSIZE) :
    (arraysOf text).content.length = MAXCONTENTSIZE := by
  simp only [arraysOf, List.length_append, List.length_cons, List.length_replicate]
  omega

theorem exists_initToken (doc : Document) (hshort : doc.text.length < MAXCONTENTSIZE)
    (hfew : doc.nodes.length ≤ MAXTOKENSIZE) : ∃ d, initToken (arraysOf doc.text) = .ok d := by
  obtain ⟨d, hd, -⟩ := initToken_shows (d := arraysOf doc.text) doc.zero_notMem_text rfl
    (arraysOf_content hshort) List.length_replicate (jsmnParse_document doc hfew)
  exact ⟨d, hd⟩

def keyA : Quoted := ⟨[97], by decide⟩

def keyB : Quoted := ⟨[98], by decide⟩

def valueC : Value := .string ⟨[99], by decide⟩

/-- `{"a":{"b":"c"}}`. -/
def nestedDocument : Document where
  lead := noBlank
  value := .container true noBlank (.cons noBlank (.key keyA noBlank noBlank)
    (.container true noBlank (.cons noBlank (.key keyB noBlank noBlank) valueC noBlank (.nil true)))
    noBlank (.nil true))
  trail := noBlank

/-- `{"a":"b","b":"c"}`. -/
def siblingDocument : Document where
  lead := noBlank
  value := .container true noBlank (.cons noBlank (.key keyA noBlank noBlank) (.string keyB) noBlank
    (.cons noBlank (.key keyB noBlank noBlank) valueC noBlank (.nil true)))
  trail := noBlank

/-- A path of two keys. -/
theorem follows_nested :
    nestedDocument.text = ascii "\x7b\"a\":\x7b\"b\":\"c\"\x7d\x7d" ∧
      ∃ d, initToken (arraysOf nestedDocument.text) = .ok d ∧
        getJsfileValue [[97], [98]] d [0, 0, 0] = .ok [99, 0, 0] := by
  obtain ⟨d, hd⟩ := exists_initToken nestedDocument (by decide) (by decide)
  have hfollow : Json.follow [[97], [98]] nestedDocument.value nestedDocument.lead.val.length =
      some (valueC, 10) := rfl
  have hclear : Json.Clear [[97], [98]] nestedDocument.value nestedDocument.lead.val.length := by
    refine ⟨by decide, ?_⟩
    intro w q hw
    obtain ⟨rfl, rfl⟩ := Prod.mk.inj (Option.some.inj hw)
    exact ⟨by decide, fun _ _ _ => trivial⟩
  have hget := (follows_iff_clear rfl (arraysOf_content (by decide)) List.length_replicate
    (by decide) hd (by simp) hfollow).2.2 hclear [0, 0, 0] (by decide)
  exact ⟨by decide, d, hd, hget⟩

/-- The value of the first member is spelled like the key of the second. -/
theorem follows_sibling :
    siblingDocument.text = ascii "\x7b\"a\":\"b\",\"b\":\"c\"\x7d" ∧
      Json.follow [[98]] siblingDocument.value 0 = some (valueC, 13) ∧
      (do let d ← initToken (arraysOf siblingDocument.text)
          getJsfileValue [[98]] d [0, 0, 0]) = .ok [98, 0, 0] :=
  ⟨by decide, rfl, by decide +kernel⟩

end IoTRepublic.KeyPath
