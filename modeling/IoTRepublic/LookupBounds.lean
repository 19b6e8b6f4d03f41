import IoTRepublic.Lookup

/-!
What a lookup writes. A value that is found is copied into the result array, which
is as large as its owner made it. A key that is the last token has whatever stands
behind the tokens as its value, so nothing bounds the copy. Where the range that is
searched is that of an array, the key is read as an index: the walk leaves the
tokens, or it stands still at a token that does not end and has no text.
-/
namespace IoTRepublic.LookupBounds

open CheckedArray Package Jsmn JsmnTokens JsFileParser Lookup

/-- A search that writes nothing outside a result array of the size. With MAXTOKENSIZE tokens
the one behind the last is outside the tokens, and the run ends there. -/
def Room (text : List Byte) (count room : ℕ) : Hit → Prop
  | .value v => (tokenText text v).length < room
  | .behind => count = MAXTOKENSIZE
  | _ => True

section

variable {text : List Byte} {count room : ℕ} {hit : Hit}

theorem Room.mono {room' : ℕ} (h : Room text count room hit) (hle : room ≤ room') :
    Room text count room' hit := by
  cases hit with
  | value v => exact Nat.lt_of_lt_of_le h hle
  | missing => trivial
  | behind => exact h
  | array => trivial

/-- A search that finds a value or nothing. -/
theorem Room.fits (h : Room text count room hit) (hbehind : hit ≠ .behind) (harray : hit ≠ .array) :
    hit.Fits text room := by
  cases hit with
  | value v => exact h
  | missing => trivial
  | behind => exact absurd rfl hbehind
  | array => exact absurd rfl harray

end

section

variable {text pattern : List Byte} {tokens : List Token} {range : Range} {t : Token}

theorem exists_array (h : hitOf text pattern range tokens = .array) :
    ∃ u ∈ tokens, u.start = range.start := by
  induction tokens with
  | nil => cases h
  | cons t tokens ih =>
    have hrest : hitOf text pattern range tokens = .array →
        ∃ u ∈ t :: tokens, u.start = range.start := by
      intro hrest
      obtain ⟨u, hu, hstart⟩ := ih hrest
      exact ⟨u, List.mem_cons_of_mem t hu, hstart⟩
    unfold hitOf at h
    split at h
    · exact hrest h
    split at h
    · split at h
      · split at h <;> cases h
      · exact hrest h
    split at h
    · rename_i harray
      exact ⟨t, List.mem_cons_self, harray.2⟩
    · exact hrest h

/-- A range that is an array is one for every key: the words in front of its token are empty. -/
theorem hitOf_array {other : List Byte} (hother : other ≠ [])
    (horder : tokens.Pairwise fun t u => t.isContainer = false → t.stop ≤ u.start)
    (h : hitOf text pattern range tokens = .array) : hitOf text other range tokens = .array := by
  induction tokens with
  | nil => cases h
  | cons t tokens ih =>
    obtain ⟨hfirst, horder⟩ := List.pairwise_cons.mp horder
    unfold hitOf at h ⊢
    split at h
    · rename_i hout
      rw [if_pos hout]
      exact ih horder h
    rename_i hin
    rw [if_neg hin]
    split at h
    · rename_i htext
      have hrest : hitOf text pattern range tokens = .array := by
        split at h
        · split at h <;> cases h
        · exact h
      obtain ⟨u, hu, hstart⟩ := exists_array hrest
      have hflat : t.isContainer = false := by
        unfold Token.isContainer
        rcases htext with htype | htype <;> rw [htype] <;> rfl
      have hempty : tokenText text t = [] := by
        have hle := hfirst u hu hflat
        have hzero : (t.stop - t.start).toNat = 0 := by omega
        rw [tokenText, hzero, List.take_zero]
      rw [if_pos htext, if_neg (by rw [hempty]; exact Ne.symm hother)]
      exact ih horder hrest
    rename_i htext
    rw [if_neg htext]
    split at h
    · rename_i harray
      rw [if_pos harray]
    · rename_i harray
      rw [if_neg harray]
      exact ih horder h

theorem laid_pairwise {length : ℕ} (h : Laid text length tokens) :
    tokens.Pairwise fun t u => t.isContainer = false → t.stop ≤ u.start := by
  rw [List.pairwise_iff_getElem]
  intro i j hi hj hij
  exact (h.order i j _ _ hij (List.getElem?_eq_getElem hi) (List.getElem?_eq_getElem hj)).2

theorem lookupOf_array {outer inner other : List Byte} {first : Token} {length : ℕ}
    (hlaid : Laid text length tokens) (hother : other ≠ [])
    (h : lookupOf text outer inner first tokens = .array) :
    lookupOf text outer other first tokens = .array := by
  have horder := laid_pairwise hlaid
  unfold lookupOf at h ⊢
  cases hhit : hitOf text outer (rangeOf first) tokens with
  | missing =>
    rw [hhit] at h
    exact hitOf_array hother horder h
  | value v =>
    rw [hhit] at h
    exact hitOf_array hother horder h
  | behind =>
    rw [hhit] at h
    cases h
  | array => rfl

end

theorem writesInside_targetIndex (pattern : List Byte) (target : ℤ) :
    WritesInside (targetIndex pattern target) := by
  induction pattern generalizing target with
  | nil => exact writesInside_ok target
  | cons c pattern ih =>
    refine (writesInside_checkInt _).bind fun target _ => ?_
    exact (writesInside_checkInt _).bind fun target _ => ih target

theorem writesInside_walkArray (tokens : List Token) (n i : ℕ) :
    WritesInside (walkArray tokens n i) := by
  have hskip : ∀ (stop : ℤ) (rest : List Token) (j : ℕ),
      WritesInside (skipElement stop rest j) := by
    intro stop rest
    induction rest with
    | nil =>
      intro j h
      cases h
    | cons t rest ih =>
      intro j
      unfold skipElement
      split
      · exact ih (j + 1)
      · exact writesInside_ok j
  induction n generalizing i with
  | zero => exact writesInside_ok i
  | succ n ih =>
    refine (writesInside_readAt tokens _).bind fun t _ => ?_
    exact (hskip _ _ _).bind fun j _ => ih j

section

variable {d : JsonData} {text pattern : List Byte} {tokens : List Token} {range : Range}
  {result : Option (List Byte)} {found : Found}

/-- The search in a range that is an array: what it takes has no text. -/
theorem search_array (hd : Shows d text tokens) (hindex : FarIndex pattern)
    (hroom : ∀ out ∈ result, 0 < out.length)
    (hhit : hitOf text pattern range (searched d.tokenSize tokens) = .array) :
    WritesInside (searchJsonDataInRange pattern range d result) ∧
      ∀ found, searchJsonDataInRange pattern range d result = .ok found →
        found.range.stop < found.range.start ∧
          found.result = result.map fun out => 0 :: out.drop 1 := by
  obtain ⟨i, hends⟩ := hd.search_ends result hhit
  have htake : ∀ (target : ℤ) (k : ℕ), targetIndex pattern 0 = .ok target →
      walkArray d.tokens target.toNat i = .ok k →
      ∀ t, readAt d.tokens k = .ok t →
        t.stop < t.start ∧ takeToken d result k =
          .ok ⟨k, ⟨t.start, t.stop⟩, result.map fun out => 0 :: out.drop 1⟩ := by
    intro target k htarget hwalk t hread
    have hlong := hindex target htarget
    obtain ⟨-, hget⟩ := readAt_eq_ok.mp hread
    rw [Int.toNat_natCast] at hget
    have hk := (List.getElem?_eq_some_iff.mp hget).1
    have hsize := hd.tokenRoom
    have hopen : t.stop < t.start := by
      rcases walkArray_end hwalk with hle | hopen
      · omega
      · exact hopen t hread
    refine ⟨hopen, ?_⟩
    cases result with
    | none => exact takeToken_none hread
    | some out =>
      rw [takeToken, hread, ok_bind, getPatteren?, getPatteren_open hopen.le (hroom out rfl)]
      rfl
  rw [hends]
  constructor
  · refine (writesInside_targetIndex pattern 0).bind fun target htarget => ?_
    split
    · intro h
      cases h
    refine (writesInside_walkArray d.tokens _ i).bind fun k hwalk => ?_
    refine (writesInside_readAt d.tokens (k : ℤ)).bind fun t hread => ?_
    have htaken := (htake target k htarget hwalk t hread).2
    rw [takeToken, hread, ok_bind] at htaken
    rw [htaken]
    exact writesInside_ok _
  · intro found hfound
    obtain ⟨target, htarget, hfound⟩ := bind_eq_ok.mp hfound
    split at hfound
    · cases hfound
    obtain ⟨k, hwalk, hfound⟩ := bind_eq_ok.mp hfound
    have htaken := hfound
    obtain ⟨t, hread, -⟩ := bind_eq_ok.mp htaken
    obtain ⟨hopen, htake⟩ := htake target k htarget hwalk t hread
    rw [htake] at hfound
    obtain rfl := Except.ok.inj hfound
    exact ⟨hopen, rfl⟩

end

section

variable {d : JsonData} {text outer inner out : List Byte} {first : Token} {others : List Token}

/-- How a lookup ends that writes inside its result array: with a fault of another kind, or with
the array as it was, with an empty text in it or with the value that was found. -/
def EndsInside (text out : List Byte) (hit : Hit) (x : Exec (List Byte)) : Prop :=
  (∃ e, x = .error e ∧ e ≠ .writeOutside) ∨
    ∃ out', x = .ok out' ∧ (out' = out ∨ out' = 0 :: out.drop 1 ∨
      ∃ v, hit = .value v ∧ out' = tokenText text v ++ 0 :: out.drop ((tokenText text v).length + 1))

theorem endsInside_of_writesInside {hit : Hit} {x : Exec (List Byte)} (h : WritesInside x)
    (hok : ∀ out', x = .ok out' → out' = out ∨ out' = 0 :: out.drop 1) :
    EndsInside text out hit x := by
  cases x with
  | error e => exact .inl ⟨e, rfl, fun he => h (congrArg Except.error he)⟩
  | ok out' =>
    rcases hok out' rfl with hsame | hempty
    · exact .inr ⟨out', rfl, .inl hsame⟩
    · exact .inr ⟨out', rfl, .inr (.inl hempty)⟩

theorem getJsfileValue_array (hd : Shows d text (first :: others)) (houter : FarIndex outer)
    (hinner : FarIndex inner) (hpos : 0 < out.length)
    (hhit : lookupOf text outer inner first (searched d.tokenSize (first :: others)) = .array) :
    EndsInside text out .array (getJsfileValue [outer, inner] d out) := by
  have hinnerArray : ∀ range, hitOf text inner range (searched d.tokenSize (first :: others)) =
      .array → EndsInside text out .array
        (searchJsonDataInRange inner range d (some out) >>= fun found =>
          .ok (found.result.getD out)) := by
    intro range harray
    have hroom : ∀ o ∈ some out, 0 < o.length := by
      intro o ho
      obtain rfl := Option.some.inj ho
      exact hpos
    obtain ⟨hinside, hfound⟩ := search_array hd hinner hroom harray
    apply endsInside_of_writesInside
    · exact hinside.bind fun found _ => writesInside_ok _
    · intro out' hout
      obtain ⟨found, hsearch, hout⟩ := bind_eq_ok.mp hout
      obtain rfl := Except.ok.inj hout
      rw [(hfound found hsearch).2]
      exact .inr rfl
  rw [getJsfileValue, hd.getAllRange_eq, ok_bind]
  simp only [findValue]
  unfold lookupOf at hhit
  cases hhitOuter : hitOf text outer (rangeOf first) (searched d.tokenSize (first :: others)) with
  | missing =>
    rw [hhitOuter] at hhit
    rw [hd.search_missing none hhitOuter, ok_bind]
    exact hinnerArray _ hhit
  | value v =>
    rw [hhitOuter] at hhit
    obtain ⟨i, hsearch⟩ := hd.search_value_range hhitOuter
    rw [hsearch, ok_bind]
    exact hinnerArray _ hhit
  | behind =>
    rw [hhitOuter] at hhit
    cases hhit
  | array =>
    have hnone : ∀ o ∈ (none : Option (List Byte)), 0 < o.length := by simp
    obtain ⟨hinside, hfound⟩ := search_array hd houter hnone hhitOuter
    -- no token lies in a range that ends before it begins
    have hmissing : ∀ found, searchJsonDataInRange outer (rangeOf first) d none = .ok found →
        searchJsonDataInRange inner found.range d (some out) =
          .ok ⟨-1, found.range, some out⟩ := by
      intro found hsearch
      have hopen := (hfound found hsearch).1
      apply hd.search_missing
      apply hitOf_outside
      intro t ht
      rcases searched_eq hd.tokenized with hnone | ⟨-, -, hclosed⟩
      · rw [hnone] at ht
        cases ht
      · have := hclosed t (List.mem_of_mem_take ht)
        omega
    apply endsInside_of_writesInside
    · refine hinside.bind fun found hsearch => ?_
      rw [hmissing found hsearch]
      exact writesInside_ok _
    · intro out' hout
      obtain ⟨found, hsearch, hout⟩ := bind_eq_ok.mp hout
      rw [hmissing found hsearch] at hout
      exact .inl (Except.ok.inj hout).symm

/-- The token behind MAXTOKENSIZE tokens is outside. -/
theorem getJsfileValue_full (hd : Shows d text (first :: others))
    (hfull : (first :: others).length = MAXTOKENSIZE)
    (hhit : lookupOf text outer inner first (searched d.tokenSize (first :: others)) = .behind) :
    getJsfileValue [outer, inner] d out = .error .readOutside := by
  have hread : readAt d.tokens ((first :: others).length : ℕ) = .error .readOutside := by
    have hsize := hd.tokenRoom
    rw [readAt, if_pos (by omega), Int.toNat_natCast, List.getElem?_eq_none (by omega)]
  have htake : ∀ result, takeToken d result ((first :: others).length : ℕ) =
      .error .readOutside := by
    intro result
    rw [takeToken, hread]
    rfl
  rw [getJsfileValue, hd.getAllRange_eq, ok_bind]
  simp only [findValue]
  unfold lookupOf at hhit
  cases hhitOuter : hitOf text outer (rangeOf first) (searched d.tokenSize (first :: others)) with
  | missing =>
    rw [hhitOuter] at hhit
    have hsearch := (hd.search_behind (some out) hhit).trans (htake _)
    rw [hd.search_missing none hhitOuter, ok_bind, hsearch]
    rfl
  | value v =>
    rw [hhitOuter] at hhit
    obtain ⟨i, hsearch⟩ := hd.search_value_range hhitOuter
    have hsearch' := (hd.search_behind (some out) hhit).trans (htake _)
    rw [hsearch, ok_bind]
    rw [show searchJsonDataInRange inner (rangeOf v) d (some out) = .error .readOutside from
      hsearch']
    rfl
  | behind =>
    have hsearch := (hd.search_behind none hhitOuter).trans (htake _)
    rw [hsearch]
    rfl
  | array =>
    rw [hhitOuter] at hhit
    cases hhit

/-- A lookup that has room ends without a write outside. -/
theorem getJsfileValue_room (hd : Shows d text (first :: others)) (houter : FarIndex outer)
    (hinner : FarIndex inner) (hpos : 0 < out.length)
    (hroom : Room text (first :: others).length out.length
      (lookupOf text outer inner first (searched d.tokenSize (first :: others)))) :
    EndsInside text out
      (lookupOf text outer inner first (searched d.tokenSize (first :: others)))
      (getJsfileValue [outer, inner] d out) := by
  cases hhit : lookupOf text outer inner first (searched d.tokenSize (first :: others)) with
  | missing =>
    have hfits := hroom.fits (by simp [hhit]) (by simp [hhit])
    have hget := hd.getJsfileValue_eq hfits
    rw [hhit] at hget
    exact .inr ⟨out, hget, .inl rfl⟩
  | value v =>
    have hfits := hroom.fits (by simp [hhit]) (by simp [hhit])
    have hget := hd.getJsfileValue_eq hfits
    rw [hhit] at hget
    exact .inr ⟨_, hget, .inr (.inr ⟨v, rfl, rfl⟩)⟩
  | behind =>
    rw [hhit] at hroom
    exact .inl ⟨.readOutside, getJsfileValue_full hd hroom hhit, by decide⟩
  | array => exact getJsfileValue_array hd houter hinner hpos hhit

end

section

variable {d : JsonData} {text outer inner out out' : List Byte} {first : Token}
  {others : List Token}

theorem EndsInside.writesInside {hit : Hit} {x : Exec (List Byte)}
    (h : EndsInside text out hit x) : WritesInside x := by
  rcases h with ⟨e, rfl, he⟩ | ⟨out', rfl, -⟩
  · intro h
    exact he (Except.error.inj h)
  · exact writesInside_ok out'

/-- The array keeps its length. -/
theorem EndsInside.length {hit : Hit} {count : ℕ} (hroom : Room text count out.length hit)
    (hpos : 0 < out.length) (h : EndsInside text out hit (.ok out')) :
    out'.length = out.length := by
  rcases h with ⟨e, he, -⟩ | ⟨out'', hout, hcases⟩
  · cases he
  obtain rfl := Except.ok.inj hout
  rcases hcases with rfl | rfl | ⟨v, rfl, rfl⟩
  · rfl
  · rw [List.length_cons, List.length_drop]
    omega
  · have hlt : (tokenText text v).length < out.length := hroom
    rw [List.length_append, List.length_cons, List.length_drop]
    omega

/-- What is read of a cleared array afterwards. -/
theorem EndsInside.read {hit : Hit} {count room k : ℕ} (hnul : (0 : Byte) ∉ text)
    (hroom : Room text count room hit) (hpos : 0 < room)
    (h : EndsInside text (List.replicate (k + 1) 0) hit (.ok out')) {value : List Byte}
    (hread : cString 0 out' = .ok value) : value.length < room := by
  have hblank : cString 0 (List.replicate (k + 1) (0 : Byte)) = .ok [] := rfl
  rcases h with ⟨e, he, -⟩ | ⟨out'', hout, hcases⟩
  · cases he
  obtain rfl := Except.ok.inj hout
  rcases hcases with rfl | rfl | ⟨v, rfl, rfl⟩
  · rw [hblank] at hread
    obtain rfl := Except.ok.inj hread
    exact hpos
  · have hempty : cString 0 ((0 : Byte) :: (List.replicate (k + 1) 0).drop 1) = .ok [] := rfl
    rw [hempty] at hread
    obtain rfl := Except.ok.inj hread
    exact hpos
  · rw [cString_append 0 _ _ (tokenText_noNul hnul)] at hread
    obtain rfl := Except.ok.inj hread
    exact hroom

theorem ne_behind_of_ok (hd : Shows d text (first :: others))
    (hroom : Room text (first :: others).length out.length
      (lookupOf text outer inner first (searched d.tokenSize (first :: others))))
    (h : getJsfileValue [outer, inner] d out = .ok out') :
    lookupOf text outer inner first (searched d.tokenSize (first :: others)) ≠ .behind := by
  intro hhit
  rw [hhit] at hroom
  rw [getJsfileValue_full hd hroom hhit] at h
  cases h

end

/-- A token that covers more than any result array holds. -/
def overToken : Token := ⟨.primitive, 0, 1000, 0⟩

/-- Behind the tokens of the text stands such a token, if there is room for one. -/
def OverBehind (d : JsonData) (tokens : List Token) : Prop :=
  tokens.length < MAXTOKENSIZE → readAt d.tokens (tokens.length : ℕ) = .ok overToken

section

variable {d : JsonData} {text pattern out content : List Byte} {tokens : List Token}
  {range : Range} {t : Token}

/-- A text that does not fit is copied until the result array ends. -/
theorem getPatteren_overflow (hstart : 0 ≤ range.start) (hstop : range.stop ≤ content.length)
    (hroom : out.length ≤ (range.stop - range.start).toNat) :
    getPatteren range content out = .error .writeOutside := by
  rcases Nat.eq_zero_or_pos (range.stop - range.start).toNat with hzero | hpos
  · have hnil : out = [] := List.eq_nil_of_length_eq_zero (by omega)
    rw [getPatteren, hzero, hnil]
    rfl
  obtain ⟨start, hfrom⟩ := Int.eq_ofNat_of_zero_le hstart
  rcases Nat.lt_or_eq_of_le hroom with hlt | heq
  · have hcopy := copyLoop_overflow content (range.stop - range.start).toNat start 0 out
      (by omega) (Nat.zero_le _) (by omega)
    rw [Int.natCast_zero, ← hfrom] at hcopy
    rw [getPatteren, hcopy]
    rfl
  · have hcopy := copyLoop_eq content (range.stop - range.start).toNat start 0 out
      (by omega) (by omega)
    rw [Int.natCast_zero, ← hfrom] at hcopy
    have hlength := copyLoop_length hcopy
    rw [getPatteren, hcopy, ok_bind, writeAt, if_neg (by omega)]

theorem takeToken_overflow {i : ℤ} (hread : readAt d.tokens i = .ok t) (hstart : 0 ≤ t.start)
    (hstop : t.stop ≤ d.content.length) (hroom : out.length ≤ (t.stop - t.start).toNat) :
    takeToken d (some out) i = .error .writeOutside := by
  have hpattern : getPatteren ⟨t.start, t.stop⟩ d.content out = .error .writeOutside :=
    getPatteren_overflow hstart hstop hroom
  rw [takeToken, hread, ok_bind, getPatteren?, hpattern]
  rfl

/-- A token of the text whose text does not fit. -/
theorem takeToken_long (hd : Shows d text tokens) (ht : t ∈ tokens) {i : ℤ}
    (hread : readAt d.tokens i = .ok t) (hroom : out.length ≤ (tokenText text t).length) :
    takeToken d (some out) i = .error .writeOutside := by
  have hinside := hd.inside ht
  have htext := hd.text_length_lt
  have hcontent := hd.contentRoom
  rw [tokenText_length hinside] at hroom
  apply takeToken_overflow hread hinside.start_nonneg _ hroom
  have := hinside.stop_le
  omega

/-- The token behind those of the text. -/
theorem takeToken_behind (hd : Shows d text tokens) (hover : OverBehind d tokens)
    (hfew : tokens.length ≠ MAXTOKENSIZE) (hroom : out.length ≤ 1000) :
    takeToken d (some out) (tokens.length : ℕ) = .error .writeOutside := by
  have hcontent := hd.contentRoom
  have hmax : MAXCONTENTSIZE = 1024 := rfl
  have hread := hover (Nat.lt_of_le_of_ne hd.tokenized.few hfew)
  have hstop : overToken.stop = 1000 := rfl
  have hwidth : (overToken.stop - overToken.start).toNat = 1000 := rfl
  apply takeToken_overflow hread (le_refl (0 : ℤ))
  · omega
  · omega

theorem search_overflow (hd : Shows d text tokens) (hover : OverBehind d tokens)
    (hsmall : out.length ≤ 1000)
    (hroom : ¬ Room text tokens.length out.length
      (hitOf text pattern range (searched d.tokenSize tokens))) :
    searchJsonDataInRange pattern range d (some out) = .error .writeOutside := by
  cases hhit : hitOf text pattern range (searched d.tokenSize tokens) with
  | missing =>
    rw [hhit] at hroom
    exact absurd trivial hroom
  | value v =>
    rw [hhit] at hroom
    obtain ⟨hv, -, i, hread, hsearch⟩ := hd.search_value (some out) hhit
    exact hsearch.trans (takeToken_long hd hv hread (not_lt.mp hroom))
  | behind =>
    rw [hhit] at hroom
    exact (hd.search_behind (some out) hhit).trans (takeToken_behind hd hover hroom hsmall)
  | array =>
    rw [hhit] at hroom
    exact absurd trivial hroom

end

section

variable {d : JsonData} {text outer inner out : List Byte} {first : Token} {others : List Token}

/-- A lookup without room for its value, whose first key is not the last token. -/
theorem getJsfileValue_overflow (hd : Shows d text (first :: others))
    (hover : OverBehind d (first :: others)) (hsmall : out.length ≤ 1000)
    (houter : hitOf text outer (rangeOf first) (searched d.tokenSize (first :: others)) ≠ .behind)
    (hroom : ¬ Room text (first :: others).length out.length
      (lookupOf text outer inner first (searched d.tokenSize (first :: others)))) :
    getJsfileValue [outer, inner] d out = .error .writeOutside := by
  have hinner : ∀ range, ¬ Room text (first :: others).length out.length
      (hitOf text inner range (searched d.tokenSize (first :: others))) →
      (searchJsonDataInRange inner range d (some out) >>= fun found =>
        .ok (found.result.getD out)) = .error .writeOutside := by
    intro range h
    rw [search_overflow hd hover hsmall h]
    rfl
  rw [getJsfileValue, hd.getAllRange_eq, ok_bind]
  simp only [findValue]
  unfold lookupOf at hroom
  cases hhit : hitOf text outer (rangeOf first) (searched d.tokenSize (first :: others)) with
  | missing =>
    rw [hhit] at hroom
    rw [hd.search_missing none hhit, ok_bind]
    exact hinner _ hroom
  | value v =>
    rw [hhit] at hroom
    obtain ⟨i, hsearch⟩ := hd.search_value_range hhit
    rw [hsearch, ok_bind]
    exact hinner _ hroom
  | behind => exact absurd hhit houter
  | array =>
    rw [hhit] at hroom
    exact absurd trivial hroom

end

end IoTRepublic.LookupBounds
