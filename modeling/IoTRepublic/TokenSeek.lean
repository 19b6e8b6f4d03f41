import IoTRepublic.CSharpJson
import IoTRepublic.JsmnRounds

/-!
The search of both parsers, without what it stores. It goes past tokens until it
comes to a word that is spelled like the key or to an array, so it depends on the
tokens in front of the one it ends at and on their words alone. When a later
token gets another text, and only ends of tokens around it move, the same path
leads to the same token.
-/
namespace IoTRepublic.TokenSeek

open CheckedArray Package Jsmn
open JsFileParser (Range Inside shiftToken skipElement walkArray)
open CSharpReader (Char16)

/-- The token a search ends at: the one behind a key, or the element of an array. `isKey` reads
the text of a token and compares it, `index` is the key as an index. -/
def seekLoop (isKey : Token → Exec Bool) (index : Exec ℕ) (range : Range) (tokens : List Token) :
    ℕ → ℕ → Exec (Option ℕ)
  | 0, _ => .ok none
  | n + 1, i => do
    let t ← readAt tokens i
    if t.start < range.start ∨ t.stop > range.stop then
      seekLoop isKey index range tokens n (i + 1)
    else if t.type = .string ∨ t.type = .primitive then do
      let hit ← isKey t
      if hit then .ok (some (i + 1)) else seekLoop isKey index range tokens n (i + 1)
    else if t.type = .array ∧ t.start = range.start then do
      let target ← index
      let k ← walkArray tokens target (i + 1)
      .ok (some k)
    else seekLoop isKey index range tokens n (i + 1)

/-- The text of a token, read into a cleared array. -/
def wordAt {α : Type} [DecidableEq α] (nul : α) (size : ℕ) (content : List α) (t : Token) :
    Exec (List α) := do
  let temp ← copyLoop content (t.stop - t.start).toNat t.start 0 (List.replicate size nul)
  let temp ← writeAt temp (t.stop - t.start).toNat nul
  cString nul temp

def isWordAt {α : Type} [DecidableEq α] (nul : α) (size : ℕ) (content pattern : List α)
    (t : Token) : Exec Bool := do
  let text ← wordAt nul size content t
  .ok (text = pattern)

/-- A key as the index of an element; the C++ parser faults where the index leaves its type. -/
def indexOf (pattern : List Byte) : Exec ℕ := do
  let target ← JsFileParser.targetIndex pattern 0
  if target < 0 then .error .overflow else .ok target.toNat

def indexOfUtf16 (pattern : List Char16) : Exec ℕ :=
  .ok (CSharpJson.targetIndex pattern 0 % 4294967296).toNat

theorem searchLoop_eq (pattern : List Byte) (range : Range) (d : JsFileParser.JsonData)
    (result : Option (List Byte)) (n i : ℕ) :
    JsFileParser.searchLoop pattern range d result n i =
      (seekLoop (isWordAt 0 JsFileParser.MAXCONTENTSIZE d.content pattern) (indexOf pattern) range
        d.tokens n i >>= fun
        | none => .ok ⟨-1, range, result⟩
        | some h => JsFileParser.takeToken d result h) := by
  induction n generalizing i with
  | zero => rfl
  | succ n ih =>
    rw [JsFileParser.searchLoop, seekLoop]
    cases readAt d.tokens i with
    | error => rfl
    | ok t =>
      rw [ok_bind, ok_bind]
      split_ifs with hout hword harray
      · exact ih (i + 1)
      · simp only [isWordAt, wordAt, JsFileParser.getPatteren, bind_assoc, ok_bind]
        refine bind_congr fun temp => bind_congr fun temp => bind_congr fun text => ?_
        by_cases htext : text = pattern
        · simp only [htext, ↓reduceIte, decide_true, ok_bind]
          rfl
        · simp only [htext, ↓reduceIte, decide_false, Bool.false_eq_true]
          exact ih (i + 1)
      · simp only [indexOf, bind_assoc, ok_bind]
        refine bind_congr fun target => ?_
        by_cases hneg : target < 0
        · rw [if_pos hneg, if_pos hneg]
          rfl
        · rw [if_neg hneg, if_neg hneg]
          rfl
      · exact ih (i + 1)

theorem checked_bind {α β : Type} (x : Exec α) (f : α → Exec β) :
    CSharpJson.checked (x >>= f) =
      (CSharpJson.checked x >>= fun a => CSharpJson.checked (f a)) := by
  cases x <;> rfl

theorem searchLoop_utf16 (pattern : List Char16) (range : Range) (e : CSharpJson.JsonData)
    (result : Option (List Char16)) (n i : ℕ) :
    CSharpJson.searchLoop pattern range e result n i =
      (CSharpJson.checked (seekLoop (isWordAt 0 CSharpJson.MAXPACKETSIZE e.content pattern)
        (indexOfUtf16 pattern) range e.tokens n i) >>= fun
        | none => .error .notFound
        | some h => CSharpJson.checked (CSharpJson.takeToken e result h)) := by
  induction n generalizing i with
  | zero => rfl
  | succ n ih =>
    rw [CSharpJson.searchLoop, seekLoop]
    cases readAt e.tokens i with
    | error => rfl
    | ok t =>
      rw [ok_bind, CSharpJson.checked_ok, CSharpJson.returned_bind]
      split_ifs with hout hword harray
      · exact ih (i + 1)
      · have hread : CSharpJson.checked (CSharpJson.getPatteren ⟨t.start, t.stop⟩ e.content
            (List.replicate CSharpJson.MAXPACKETSIZE 0) >>= cString 0) =
              CSharpJson.checked (wordAt 0 CSharpJson.MAXPACKETSIZE e.content t) := by
          simp only [wordAt, CSharpJson.getPatteren, bind_assoc]
        rw [checked_bind] at hread
        rw [← bind_assoc, hread, checked_bind, isWordAt, checked_bind, bind_assoc, bind_assoc]
        refine bind_congr fun text => ?_
        by_cases htext : text = pattern
        · simp only [htext, ↓reduceIte, decide_true, CSharpJson.checked_ok,
            CSharpJson.returned_bind]
          rfl
        · simp only [htext, ↓reduceIte, decide_false, Bool.false_eq_true, CSharpJson.checked_ok,
            CSharpJson.returned_bind]
          exact ih (i + 1)
      · rw [indexOfUtf16, ok_bind, checked_bind, bind_assoc]
        exact bind_congr fun k => rfl
      · exact ih (i + 1)

/-- Tokens that are the same up to `k`, apart from the ends of those that do not end in front of
the place. -/
structure Same (place : ℤ) (k : ℕ) (tokens tokens' : List Token) : Prop where
  before : ∀ i ≤ k, ∀ t, tokens[i]? = some t → t.start ≤ place
  words : ∀ i < k, ∀ t, tokens[i]? = some t → t.isContainer = false → t.stop < place
  same : ∀ i ≤ k, ∀ t, tokens[i]? = some t → ∃ t', tokens'[i]? = some t' ∧ t'.type = t.type ∧
    t'.start = t.start ∧ (t.stop < place → t'.stop = t.stop)

section

variable {tokens tokens' : List Token} {place stop : ℤ} {i j k m n : ℕ}

theorem getElem?_of_readAt {t : Token} (ht : readAt tokens i = .ok t) : tokens[i]? = some t := by
  obtain ⟨-, hget⟩ := readAt_eq_ok.mp ht
  exact hget

/-- The elements that are passed end in front of the one that is not. -/
theorem skipElement_spec (h : skipElement stop (tokens.drop i) i = .ok j) :
    i ≤ j ∧ ∃ t, tokens[j]? = some t ∧ stop < t.start := by
  induction hrest : tokens.drop i generalizing i with
  | nil =>
    rw [hrest] at h
    cases h
  | cons t rest ih =>
    have hi : i < tokens.length := by
      by_contra hlong
      rw [List.drop_eq_nil_of_le (by omega)] at hrest
      cases hrest
    rw [List.drop_eq_getElem_cons hi] at hrest
    obtain ⟨rfl, rfl⟩ := List.cons.inj hrest
    rw [List.drop_eq_getElem_cons hi, skipElement] at h
    split at h
    · obtain ⟨hle, hlast⟩ := ih h rfl
      exact ⟨by omega, hlast⟩
    · rename_i hstart
      obtain rfl := Except.ok.inj h
      exact ⟨le_rfl, _, List.getElem?_eq_getElem hi, by omega⟩

theorem Same.skipElement (hsame : Same place k tokens tokens')
    (h : skipElement stop (tokens.drop i) i = .ok j) (hj : j ≤ k) :
    skipElement stop (tokens'.drop i) i = .ok j := by
  induction hrest : tokens.drop i generalizing i with
  | nil =>
    rw [hrest] at h
    cases h
  | cons t rest ih =>
    have hle := (skipElement_spec h).1
    have hi : i < tokens.length := by
      by_contra hlong
      rw [List.drop_eq_nil_of_le (by omega)] at hrest
      cases hrest
    obtain ⟨t', ht', -, hstart, -⟩ := hsame.same i (by omega) _ (List.getElem?_eq_getElem hi)
    obtain ⟨hi', rfl⟩ := List.getElem?_eq_some_iff.mp ht'
    rw [List.drop_eq_getElem_cons hi] at hrest
    obtain ⟨rfl, rfl⟩ := List.cons.inj hrest
    rw [List.drop_eq_getElem_cons hi, JsFileParser.skipElement] at h
    rw [List.drop_eq_getElem_cons hi', JsFileParser.skipElement, hstart]
    split at h
    · rename_i hskip
      rw [if_pos hskip]
      exact ih h rfl
    · rename_i hskip
      rw [if_neg hskip]
      exact h

theorem le_walkArray (h : walkArray tokens n i = .ok m) : i ≤ m := by
  induction n generalizing i with
  | zero => exact (Except.ok.inj h).le
  | succ n ih =>
    obtain ⟨t, -, h⟩ := bind_eq_ok.mp h
    obtain ⟨j, hj, h⟩ := bind_eq_ok.mp h
    exact (skipElement_spec hj).1.trans (ih h)

/-- The elements of an array are passed in the same way. -/
theorem Same.walkArray (hsame : Same place k tokens tokens')
    (h : walkArray tokens n i = .ok m) (hm : m ≤ k) : walkArray tokens' n i = .ok m := by
  induction n generalizing i with
  | zero => exact h
  | succ n ih =>
    have hle := le_walkArray h
    obtain ⟨t, hread, h⟩ := bind_eq_ok.mp h
    obtain ⟨j, hj, h⟩ := bind_eq_ok.mp h
    have hjm := le_walkArray h
    obtain ⟨-, u, hu, hstop⟩ := skipElement_spec hj
    have hplace := hsame.before j (by omega) u hu
    obtain ⟨t', ht', -, -, hend⟩ := hsame.same i (by omega) t (getElem?_of_readAt hread)
    have hskip := hsame.skipElement hj (by omega)
    rw [JsFileParser.walkArray, readAt_natCast _ _ _ ht', ok_bind, hend (by omega), hskip, ok_bind]
    exact ih h

end

section

variable {tokens tokens' : List Token} {place : ℤ} {i k m n : ℕ} {range range' : Range}
  {isKey isKey' : Token → Exec Bool} {index : Exec ℕ}

theorem lt_seekLoop (h : seekLoop isKey index range tokens n i = .ok (some m)) : i < m := by
  induction n generalizing i with
  | zero => cases h
  | succ n ih =>
    obtain ⟨t, -, h⟩ := bind_eq_ok.mp h
    split at h
    · exact Nat.lt_of_succ_lt (ih h)
    split at h
    · obtain ⟨hit, -, h⟩ := bind_eq_ok.mp h
      split at h
      · obtain rfl := Option.some.inj (Except.ok.inj h)
        exact Nat.lt_succ_self i
      · exact Nat.lt_of_succ_lt (ih h)
    split at h
    · obtain ⟨target, -, h⟩ := bind_eq_ok.mp h
      obtain ⟨k, hwalk, h⟩ := bind_eq_ok.mp h
      obtain rfl := Option.some.inj (Except.ok.inj h)
      exact le_walkArray hwalk
    · exact Nat.lt_of_succ_lt (ih h)

/-- A search that ends at the place, or in front of it, ends at the same token. -/
theorem Same.seekLoop (hsame : Same place k tokens tokens')
    (hkey : ∀ i < k, ∀ t t', tokens[i]? = some t → tokens'[i]? = some t' →
      t.type = .string ∨ t.type = .primitive → isKey' t' = isKey t)
    (hstart : range'.start = range.start) (hstop : place ≤ range.stop)
    (hstop' : place ≤ range'.stop)
    (harray : ∀ i < k, ∀ t t', tokens[i]? = some t → tokens'[i]? = some t' →
      t.start = range.start → t.isContainer → t.stop ≤ range.stop ∧ t'.stop ≤ range'.stop)
    (h : seekLoop isKey index range tokens n i = .ok (some m)) (hm : m ≤ k) :
    seekLoop isKey' index range' tokens' n i = .ok (some m) := by
  induction n generalizing i with
  | zero => cases h
  | succ n ih =>
    have hlt := lt_seekLoop h
    obtain ⟨t, hread, h⟩ := bind_eq_ok.mp h
    have ht := getElem?_of_readAt hread
    obtain ⟨t', ht', htype, hbegin, hend⟩ := hsame.same i (by omega) t ht
    have hnext : seekLoop isKey index range tokens n (i + 1) = .ok (some m) →
        seekLoop isKey' index range' tokens' n (i + 1) = .ok (some m) := ih
    rw [TokenSeek.seekLoop, readAt_natCast _ _ _ ht', ok_bind, htype, hbegin, hstart]
    by_cases hcontainer : t.isContainer
    · have hword : ¬ (t.type = .string ∨ t.type = .primitive) := by
        rintro (heq | heq) <;> rw [Token.isContainer, heq] at hcontainer <;> cases hcontainer
      rw [if_neg hword] at h ⊢
      by_cases helement : t.type = .array ∧ t.start = range.start
      · obtain ⟨hle, hle'⟩ := harray i (by omega) t t' ht ht' helement.2 hcontainer
        rw [if_neg (by omega), if_pos helement] at h
        rw [if_neg (by omega), if_pos helement]
        obtain ⟨target, htarget, h⟩ := bind_eq_ok.mp h
        obtain ⟨l, hwalk, h⟩ := bind_eq_ok.mp h
        obtain rfl := Option.some.inj (Except.ok.inj h)
        rw [htarget, ok_bind, hsame.walkArray hwalk hm, ok_bind]
      · rw [if_neg helement, ite_self] at h ⊢
        exact hnext h
    · have hflat : t.isContainer = false := Bool.eq_false_iff.mpr hcontainer
      have hshort := hsame.words i (by omega) t ht hflat
      rw [hend hshort]
      by_cases hout : t.start < range.start
      · rw [if_pos (.inl hout)] at h ⊢
        exact hnext h
      · rw [if_neg (by omega)] at h ⊢
        by_cases hword : t.type = .string ∨ t.type = .primitive
        · rw [if_pos hword] at h ⊢
          rw [hkey i (by omega) t t' ht ht' hword]
          obtain ⟨hit, hread, h⟩ := bind_eq_ok.mp h
          rw [hread, ok_bind]
          split at h
          · rename_i hyes
            rw [if_pos hyes]
            exact h
          · rename_i hno
            rw [if_neg hno]
            exact hnext h
        · exfalso
          cases hcase : t.type with
          | string => exact hword (.inl hcase)
          | primitive => exact hword (.inr hcase)
          | object | array =>
            rw [Token.isContainer, hcase] at hflat
            cases hflat

end

/-- A path of keys leads to a token: every search ends at a token of the text, inside the range
that is searched, and the last of them is a string or a primitive. -/
inductive Resolves {α : Type} (search : List α → Range → ℕ → Prop) (tokens : List Token) :
    Range → List (List α) → ℕ → Prop
  | last {key : List α} {range : Range} {i : ℕ} {t : Token} (hsearch : search key range i)
      (ht : tokens[i]? = some t) (hin : Inside range t)
      (hword : t.type = .string ∨ t.type = .primitive) : Resolves search tokens range [key] i
  | step {key : List α} {keys : List (List α)} {range : Range} {i k : ℕ} {t : Token}
      (hsearch : search key range i) (ht : tokens[i]? = some t) (hin : Inside range t)
      (hrest : Resolves search tokens ⟨t.start, t.stop⟩ keys k) :
      Resolves search tokens range (key :: keys) k

/-- The searches along a path. -/
inductive Leads {α : Type} (seek : List α → Range → Exec (Option ℕ)) (tokens : List Token) :
    Range → List (List α) → ℕ → Prop
  | last {key : List α} {range : Range} {i : ℕ} (hseek : seek key range = .ok (some i)) :
      Leads seek tokens range [key] i
  | step {key : List α} {keys : List (List α)} {range : Range} {i k : ℕ} {t : Token}
      (hseek : seek key range = .ok (some i)) (ht : tokens[i]? = some t)
      (hrest : Leads seek tokens ⟨t.start, t.stop⟩ keys k) :
      Leads seek tokens range (key :: keys) k

theorem Leads.ne_nil {α : Type} {seek : List α → Range → Exec (Option ℕ)} {tokens : List Token}
    {range : Range} {path : List (List α)} {k : ℕ} (h : Leads seek tokens range path k) :
    path ≠ [] := by
  cases h with
  | last => exact List.cons_ne_nil _ _
  | step => exact List.cons_ne_nil _ _

/-- The tokens of a text whose token `k` was given another text. -/
structure Moved (table : List Token) (k : ℕ) (v : Token) (length : ℕ) (tokens : List Token) :
    Prop where
  same : ∀ i ≤ k, ∀ t, table[i]? = some t → ∃ t', tokens[i]? = some t' ∧ t'.type = t.type ∧
    t'.start = t.start ∧ (t.stop < v.start → t'.stop = t.stop) ∧
      (v.stop ≤ t.stop → v.start + length ≤ t'.stop)
  value : ∃ t, tokens[k]? = some t ∧ t.start = v.start ∧ t.stop = v.start + length

section

variable {table others tokens : List Token} {k length i r size n : ℕ} {v t t' : Token}

theorem start_lt_iff (hspaced : JsmnRounds.Spaced table) (ht : table[i]? = some t)
    {u : Token} (hu : table[r]? = some u) : t.start < u.start ↔ i < r := by
  rcases Nat.lt_trichotomy i r with hlt | rfl | hgt
  · exact iff_of_true (hspaced i r t u hlt ht hu).1 hlt
  · rw [ht] at hu
    obtain rfl := Option.some.inj hu
    exact iff_of_false (lt_irrefl _) (lt_irrefl _)
  · have hlt := (hspaced r i u t hgt hu ht).1
    exact iff_of_false (by omega) (by omega)

theorem Moved.same_append (hmoved : Moved table k v length tokens)
    (hspaced : JsmnRounds.Spaced table) (hv : table[k]? = some v) (others : List Token) :
    Same v.start k (table ++ others) tokens := by
  have hlt := (List.getElem?_eq_some_iff.mp hv).1
  have hget : ∀ i ≤ k, ∀ t, (table ++ others)[i]? = some t → table[i]? = some t := by
    intro i hi t ht
    rw [List.getElem?_append_left (by omega)] at ht
    exact ht
  refine ⟨?_, ?_, ?_⟩
  · intro i hi t ht
    by_contra hlong
    have hki := (start_lt_iff hspaced hv (hget i hi t ht)).mp (by omega)
    omega
  · intro i hi t ht hflat
    exact (hspaced i k t v hi (hget i hi.le t ht) hv).2 hflat
  · intro i hi t ht
    obtain ⟨t', ht', htype, hstart, hstop, -⟩ := hmoved.same i hi t (hget i hi t ht)
    exact ⟨t', ht', htype, hstart, hstop⟩

/-- Shifting the tokens gives the token yet another text. -/
theorem Moved.shift (hmoved : Moved table k v length tokens) (hspaced : JsmnRounds.Spaced table)
    (hv : table[k]? = some v) {now : List Token} (htokens : tokens = now ++ others)
    (hlast : k < now.length) {length' : ℕ} {shift : ℤ} (hshift : (length' : ℤ) = length + shift)
    (stop : ℤ) :
    Moved table k v length' (now.map (shiftToken ⟨v.start, stop⟩ shift) ++ others) := by
  have hget : ∀ i ≤ k, ∀ t, tokens[i]? = some t →
      (now.map (shiftToken ⟨v.start, stop⟩ shift) ++ others)[i]? =
        some (shiftToken ⟨v.start, stop⟩ shift t) := by
    intro i hi t ht
    rw [htokens, List.getElem?_append_left (by omega)] at ht
    rw [List.getElem?_append_left (by rw [List.length_map]; omega), List.getElem?_map, ht]
    rfl
  refine ⟨?_, ?_⟩
  · intro i hi t ht
    obtain ⟨t', ht', htype, hstart, hfront, haround⟩ := hmoved.same i hi t ht
    have hbefore : ¬ t'.start > v.start := by
      have hki := (start_lt_iff hspaced hv ht).not.mpr (Nat.not_lt.mpr hi)
      omega
    refine ⟨_, hget i hi t' ht', htype, ?_, ?_, ?_⟩
    · rw [shiftToken, if_neg hbefore]
      exact hstart
    · intro hend
      have hsame := hfront hend
      have hends : ¬ t'.stop ≥ v.start := by omega
      rw [shiftToken, if_neg hends]
      exact hsame
    · intro hend
      have hlong := haround hend
      have hends : t'.stop ≥ v.start := by omega
      simp only [shiftToken]
      rw [if_pos hends]
      omega
  · obtain ⟨t, ht, hstart, hstop⟩ := hmoved.value
    have hends : t.stop ≥ v.start := by omega
    refine ⟨_, hget k le_rfl t ht, ?_, ?_⟩
    · simp only [shiftToken]
      rw [if_neg (by omega)]
      exact hstart
    · simp only [shiftToken]
      rw [if_pos hends]
      omega

variable {α : Type}

theorem Resolves.ne_nil {search : List α → Range → ℕ → Prop} {range : Range}
    {path : List (List α)} (h : Resolves search table range path k) : path ≠ [] := by
  cases h with
  | last => exact List.cons_ne_nil _ _
  | step => exact List.cons_ne_nil _ _

theorem Resolves.imp {search search' : List α → Range → ℕ → Prop} {range : Range}
    {path : List (List α)} (h : Resolves search table range path k)
    (himp : ∀ key range i, search key range i → search' key range i) :
    Resolves search' table range path k := by
  induction h with
  | last hsearch ht hin hword => exact .last (himp _ _ _ hsearch) ht hin hword
  | step hsearch ht hin _ ih => exact .step (himp _ _ _ hsearch) ht hin ih

/-- The token a path leads to lies in the range it begins with. -/
theorem Resolves.inside {search : List α → Range → ℕ → Prop} {range : Range}
    {path : List (List α)} (h : Resolves search table range path k) :
    ∃ v, table[k]? = some v ∧ Inside range v ∧ (v.type = .string ∨ v.type = .primitive) := by
  induction h with
  | last hsearch ht hin hword => exact ⟨_, ht, hin, hword⟩
  | step hsearch ht hin hrest ih =>
    obtain ⟨v, hv, ⟨hstart, hstop⟩, hword⟩ := ih
    exact ⟨v, hv, ⟨hin.1.trans hstart, hstop.trans hin.2⟩, hword⟩

variable [DecidableEq α] {nul : α} {front behind behind' : List α}

/-- A word in front of a place is read in the same way whatever stands behind the place. -/
theorem isWordAt_congr (pattern : List α) (hstart : t'.start = t.start) (hstop : t'.stop = t.stop)
    (hplace : t.stop ≤ front.length) :
    isWordAt nul size (front ++ behind') pattern t' =
      isWordAt nul size (front ++ behind) pattern t := by
  have hcopy : copyLoop (front ++ behind') (t.stop - t.start).toNat t.start 0
      (List.replicate size nul) = copyLoop (front ++ behind) (t.stop - t.start).toNat t.start 0
        (List.replicate size nul) := by
    apply copyLoop_congr
    intro k hk hlt
    exact readAt_append_left front behind behind' (by omega)
  rw [isWordAt, isWordAt, wordAt, wordAt, hstart, hstop, hcopy]

/-- One search, in the range of a token around the one that got another text. -/
theorem Moved.seekLoop (hmoved : Moved table k v length tokens)
    (hspaced : JsmnRounds.Spaced table) (hv : table[k]? = some v) (hplace : v.start = front.length)
    (hclosed : v.start ≤ v.stop) (ht : table[r]? = some t) (ht' : tokens[r]? = some t')
    (hin : Inside ⟨t.start, t.stop⟩ v) (hi : i ≤ k) {key : List α} {index : Exec ℕ}
    (hseek : seekLoop (isWordAt nul size (front ++ behind) key) index ⟨t.start, t.stop⟩
      (table ++ others) n 0 = .ok (some i)) :
    seekLoop (isWordAt nul size (front ++ behind') key) index ⟨t'.start, t'.stop⟩ tokens n 0 =
      .ok (some i) := by
  have hsame := hmoved.same_append hspaced hv others
  have hlast := (List.getElem?_eq_some_iff.mp hv).1
  obtain ⟨hstart, hstop⟩ := hin
  dsimp only at hstart hstop
  have hr : r ≤ k := by
    by_contra hlong
    have hlt := (start_lt_iff hspaced hv ht).mpr (by omega)
    omega
  obtain ⟨u, hu, -, hbegin, -, hend⟩ := hmoved.same r hr t ht
  rw [ht'] at hu
  obtain rfl := Option.some.inj hu
  have haround := hend hstop
  refine hsame.seekLoop ?_ hbegin (by dsimp only; omega) (by dsimp only; omega) ?_ hseek hi
  · intro j hj u u' hu hu' hword
    have hflat : u.isContainer = false := by
      rcases hword with hword | hword <;> rw [Token.isContainer, hword] <;> rfl
    have hshort := hsame.words j hj u hu hflat
    obtain ⟨w, hw, -, hwstart, hwstop⟩ := hsame.same j hj.le u hu
    rw [hu'] at hw
    obtain rfl := Option.some.inj hw
    exact isWordAt_congr key hwstart (hwstop hshort) (by omega)
  · intro j hj u u' hu hu' hfirst _
    rw [List.getElem?_append_left (by omega)] at hu
    dsimp only at hfirst
    obtain rfl : j = r := by
      rcases Nat.lt_trichotomy j r with hlt | heq | hgt
      · have hlt' := (start_lt_iff hspaced hu ht).mpr hlt
        omega
      · exact heq
      · have hlt' := (start_lt_iff hspaced ht hu).mpr hgt
        omega
    rw [ht] at hu
    rw [ht'] at hu'
    obtain rfl := Option.some.inj hu
    obtain rfl := Option.some.inj hu'
    exact ⟨le_rfl, le_rfl⟩

/-- When the token that a path leads to has got another text, the path leads to it still. -/
theorem Resolves.leads (index : List α → Exec ℕ) {range : Range} {path : List (List α)}
    (h : Resolves (fun key range i => seekLoop (isWordAt nul size (front ++ behind) key)
      (index key) range (table ++ others) n 0 = .ok (some i)) table range path k)
    (hspaced : JsmnRounds.Spaced table) (hv : table[k]? = some v) (hplace : v.start = front.length)
    (hclosed : v.start ≤ v.stop) (hmoved : Moved table k v length tokens)
    (ht : table[r]? = some t) (ht' : tokens[r]? = some t') (hrange : range = ⟨t.start, t.stop⟩) :
    Leads (fun key range => seekLoop (isWordAt nul size (front ++ behind') key) (index key) range
      tokens n 0) tokens ⟨t'.start, t'.stop⟩ path k := by
  induction h generalizing r t t' with
  | last hsearch hi hin hword =>
    subst hrange
    rw [hi] at hv
    obtain rfl := Option.some.inj hv
    exact .last (hmoved.seekLoop hspaced hi hplace hclosed ht ht' hin le_rfl hsearch)
  | @step key keys range i k u hsearch hi hin hrest ih =>
    subst hrange
    obtain ⟨v', hv', hin', -⟩ := hrest.inside
    rw [hv] at hv'
    obtain rfl := Option.some.inj hv'
    have hik : i ≤ k := by
      by_contra hlong
      have hlt := (start_lt_iff hspaced hv hi).mpr (by omega)
      have hstart := hin'.1
      dsimp only at hstart
      omega
    obtain ⟨u', hu', -⟩ := hmoved.same i hik u hi
    refine .step (hmoved.seekLoop hspaced hv hplace hclosed ht ht'
      ⟨hin.1.trans hin'.1, hin'.2.trans hin.2⟩ hik hsearch) hu' ?_
    exact ih hv hmoved hi hu' rfl

end

end IoTRepublic.TokenSeek
