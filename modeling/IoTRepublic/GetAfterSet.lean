import IoTRepublic.Foundation.SetAndGet
import IoTRepublic.TokenSeek
import IoTRepublic.ArrayIndex

/-!
Get after set. Setting a value moves the ends of the tokens by the change of the
length of the whole text, and takes this length from the end of the first token.
Characters behind the first token are therefore counted to the value that is set
first, and a value that is empty has an empty range, in which nothing is written
again. The law is the same for both programs.
-/
namespace IoTRepublic.GetAfterSet

open CheckedArray Jsmn SetAndGet TokenSeek
open Package (Byte ascii)
open JsFileParser (Range Inside shiftToken)
open CSharpReader (Char16 utf16)

/-- The text after a set. -/
def nextText {α : Type} (front behind old stray w : List α) : List α :=
  front ++ written old w ++ (stray ++ behind)

/-- The arrays while a token gets one text after the other: `stray` are as many characters
behind the token as stand behind the first one. -/
structure Stage {α : Type} (nul : α) (size : ℕ) (table : List Token) (k : ℕ) (v : Token)
    (front behind old stray content : List α) (tokens : List Token) : Prop where
  text : ∃ rest, content = front ++ (old ++ (stray ++ behind ++ nul :: rest))
  length : content.length = size
  noNul : nul ∉ front ++ (stray ++ behind)
  value : nul ∉ old
  place : v.start = front.length
  moved : Moved table k v old.length tokens
  root : ∃ (all : Token) (now others : List Token), tokens = all :: now ++ others ∧
    (all :: now).length = table.length ∧ all.stop = front.length + old.length + behind.length

section

variable {α : Type} {nul : α} {size k : ℕ} {table tokens : List Token} {v : Token}
  {front behind old stray content w rest : List α}

theorem Stage.value_at (h : Stage nul size table k v front behind old stray content tokens) :
    ∃ t, tokens[k]? = some t ∧ t.start = front.length ∧ t.stop = front.length + old.length := by
  obtain ⟨t, ht, hstart, hstop⟩ := h.moved.value
  rw [h.place] at hstart hstop
  exact ⟨t, ht, hstart, hstop⟩

theorem Stage.empty_text (h : Stage nul size table k v front behind [] stray content tokens) :
    ∃ beyond, content = front ++ (stray ++ behind) ++ nul :: beyond := by
  obtain ⟨beyond, rfl⟩ := h.text
  exact ⟨beyond, by simp only [List.nil_append, List.append_assoc]⟩

theorem nextText_length : (nextText front behind old stray w).length =
    front.length + (written old w ++ stray).length + behind.length := by
  simp only [nextText, List.length_append]
  omega

theorem Stage.next_noNul (h : Stage nul size table k v front behind old stray content tokens)
    (hw : nul ∉ w) : nul ∉ nextText front behind old stray w := by
  have hparts := h.noNul
  simp only [nextText, List.mem_append, not_or] at hparts ⊢
  refine ⟨⟨hparts.1, ?_⟩, hparts.2⟩
  unfold written
  split
  · exact List.not_mem_nil
  · exact hw

section

variable [DecidableEq α] {temp : List α} {fuel : ℕ}

/-- The loop that rewrites the content. -/
theorem Stage.replaceLoop_eq
    (h : Stage nul size table k v front behind old stray content tokens) (hw : nul ∉ w)
    (rest : List α) (hfuel : temp.length + 1 < fuel)
    (hroom : (nextText front behind old stray w).length < temp.length) :
    ∃ rest', replaceLoop nul content (w ++ nul :: rest) front.length (front.length + old.length)
      fuel 0 0 0 temp = .ok (nextText front behind old stray w ++ nul :: rest',
        (nextText front behind old stray w).length) := by
  have hparts := h.noNul
  rw [List.mem_append, not_or] at hparts
  refine ⟨temp.drop (nextText front behind old stray w).length.succ, ?_⟩
  by_cases hold : old = []
  · subst hold
    obtain ⟨beyond, rfl⟩ := h.empty_text
    rw [nextText, written, if_pos rfl, List.append_nil] at hroom ⊢
    exact replaceLoop_empty (front ++ (stray ++ behind)) beyond (w ++ nul :: rest) temp fuel
      (by simp) h.noNul hroom hfuel
  · obtain ⟨beyond, rfl⟩ := h.text
    rw [nextText, written, if_neg hold] at hroom ⊢
    exact replaceLoop_replace front old (stray ++ behind) beyond w rest temp hold hparts.1 hparts.2
      hw fuel hfuel (by simpa [Nat.add_assoc] using hroom)

/-- The loop comes to its end only if the new text has room. -/
theorem Stage.replaceLoop_fits
    (h : Stage nul size table k v front behind old stray content tokens) (hw : nul ∉ w)
    {r : List α × ℕ} (hok : replaceLoop nul content (w ++ nul :: rest) front.length
      (front.length + old.length) fuel 0 0 0 temp = .ok r) :
    (nextText front behind old stray w).length < temp.length := by
  have hparts := h.noNul
  rw [List.mem_append, not_or] at hparts
  by_cases hold : old = []
  · subst hold
    obtain ⟨beyond, rfl⟩ := h.empty_text
    rw [nextText, written, if_pos rfl, List.append_nil]
    exact replaceLoop_empty_room (front ++ (stray ++ behind)) beyond (w ++ nul :: rest) temp fuel r
      (by simp) h.noNul hok
  · obtain ⟨beyond, rfl⟩ := h.text
    obtain ⟨u, urest, hvalue, hu, hroom⟩ := replaceLoop_room front old (stray ++ behind) beyond _
      temp fuel r hold hparts.1 hparts.2 hok
    have hsame : w = u := by
      have hread := cString_append nul w rest hw
      rw [hvalue, cString_append nul u urest hu] at hread
      exact (Except.ok.inj hread).symm
    rw [nextText, written, if_neg hold, hsame]
    simpa [Nat.add_assoc] using hroom

end

theorem Stage.first (h : Stage nul size table k v front behind old stray content tokens) :
    ∃ all, tokens[0]? = some all := by
  obtain ⟨all, now, others, htokens, -, -⟩ := h.root
  exact ⟨all, by simp [htokens]⟩

/-- What the arrays hold after a set. -/
theorem Stage.next (h : Stage nul size table k v front behind old stray content tokens)
    (hspaced : JsmnRounds.Spaced table) (hv : table[k]? = some v) (hw : nul ∉ w) {all : Token}
    {now others : List Token} (htokens : tokens = all :: now ++ others)
    (hcount : (all :: now).length = table.length)
    (hall : all.stop = front.length + old.length + behind.length)
    (hroom : (nextText front behind old stray w).length < content.length) :
    Stage nul size table k v front behind (written old w ++ stray) []
      (nextText front behind old stray w ++ nul ::
        content.drop ((nextText front behind old stray w).length + 1))
      ((all :: now).map (shiftToken ⟨front.length, front.length + old.length⟩
        ((nextText front behind old stray w).length - all.stop)) ++ others) := by
  have hnul := h.next_noNul hw
  have hparts := hnul
  simp only [nextText, List.mem_append, not_or] at hparts
  obtain ⟨shift, hshift⟩ : ∃ shift : ℤ,
      shift = (nextText front behind old stray w).length - all.stop := ⟨_, rfl⟩
  rw [← hshift]
  rw [nextText_length, hall] at hshift
  push_cast at hshift
  have hlast := (List.getElem?_eq_some_iff.mp hv).1
  have hgrown : ((written old w ++ stray).length : ℤ) = old.length + shift := by omega
  have hmoved := h.moved.shift hspaced hv htokens (by omega) hgrown (front.length + old.length)
  rw [h.place] at hmoved
  refine ⟨⟨content.drop ((nextText front behind old stray w).length + 1), ?_⟩, ?_, ?_, ?_, h.place,
    hmoved, ?_⟩
  · simp only [nextText, List.append_assoc, List.nil_append]
  · rw [List.length_append, List.length_cons, List.length_drop, ← h.length]
    omega
  · simp [hparts]
  · simp [hparts]
  · refine ⟨_, _, others, rfl, by rw [← hcount]; simp, ?_⟩
    have hends : all.stop ≥ front.length := by omega
    simp only [shiftToken]
    rw [if_pos hends]
    omega

end

/-- A token that a path leads to, with the text in front of it and the text from there on. -/
structure Placed {α : Type} [DecidableEq α] (nul : α) (size : ℕ) (index : List α → Exec ℕ)
    (path : List (List α)) (table others : List Token) (k : ℕ) (root v : Token)
    (front after : List α) : Prop where
  spaced : JsmnRounds.Spaced table
  value : table[k]? = some v
  first : table[0]? = some root
  place : v.start = front.length
  closed : v.start ≤ v.stop
  resolves : Resolves (fun key range i => seekLoop (isWordAt nul size (front ++ after) key)
    (index key) range (table ++ others) table.length 0 = .ok (some i)) table
      ⟨root.start, root.stop⟩ path k

/-- A text in an array of any size for it is stored there. -/
def ReadsBack {α ε : Type} [DecidableEq α] (nul : α) (get : List α → Except ε (List α))
    (v : List α) : Prop :=
  ∀ result, v.length < result.length → ∃ out, get result = .ok out ∧ cString nul out = .ok v

section

variable {α ε : Type} [DecidableEq α] {nul : α} {size room k : ℕ} {index : List α → Exec ℕ}
  {path : List (List α)} {table others tokens : List Token} {root v : Token}
  {front after behind old stray content w : List α}

/-- The path leads to the token at every stage. -/
theorem Placed.leads (hp : Placed nul size index path table others k root v front after)
    (h : Stage nul room table k v front behind old stray content tokens) {all : Token}
    (hall : tokens[0]? = some all) :
    Leads (fun key range => seekLoop (isWordAt nul size content key) (index key) range tokens
      table.length 0) tokens ⟨all.start, all.stop⟩ path k := by
  obtain ⟨beyond, rfl⟩ := h.text
  exact hp.resolves.leads index hp.spaced hp.value hp.place hp.closed h.moved hp.first hall rfl

theorem readsBack_iff {get : List α → Except ε (List α)} (hnul : nul ∉ old)
    (hget : ∀ result, old.length < result.length →
      get result = .ok (old ++ nul :: result.drop (old.length + 1))) :
    ReadsBack nul get w ↔ w = old := by
  constructor
  · intro h
    obtain ⟨out, hout, htext⟩ := h (List.replicate (old.length + w.length + 1) nul) (by
      rw [List.length_replicate]
      omega)
    rw [hget _ (by rw [List.length_replicate]; omega)] at hout
    obtain rfl := Except.ok.inj hout
    rw [cString_append nul old _ hnul] at htext
    exact (Except.ok.inj htext).symm
  · rintro rfl result hroom
    exact ⟨_, hget result hroom, cString_append nul w _ hnul⟩

end

section

open JsFileParser

variable {d : JsonData} {path : List (List Byte)} {key : List Byte} {range : Range} {k h : ℕ}
  {t : Token}

theorem search_of_seek (hseek : seekLoop (isWordAt 0 MAXCONTENTSIZE d.content key) (indexOf key)
      range d.tokens d.tokenSize.toNat 0 = .ok (some h)) (result : Option (List Byte)) :
    searchJsonDataInRange key range d result = takeToken d result h := by
  rw [searchJsonDataInRange, searchLoop_eq, hseek, ok_bind]

theorem seek_of_search {found : Found}
    (hsearch : searchJsonDataInRange key range d none = .ok found) (hhit : found.hitIndex = h) :
    seekLoop (isWordAt 0 MAXCONTENTSIZE d.content key) (indexOf key) range d.tokens
      d.tokenSize.toNat 0 = .ok (some h) := by
  rw [searchJsonDataInRange, searchLoop_eq] at hsearch
  obtain ⟨hit, hseek, hfound⟩ := bind_eq_ok.mp hsearch
  cases hit with
  | none =>
    obtain rfl := Except.ok.inj hfound
    cases hhit
  | some i =>
    obtain ⟨t, ht, -⟩ := bind_eq_ok.mp hfound
    dsimp only at hfound
    rw [takeToken_none ht] at hfound
    obtain rfl := Except.ok.inj hfound
    obtain rfl := Int.ofNat.inj hhit
    exact hseek

/-- A path leads the functions of the code to its token. -/
theorem findRange_of_leads (hleads : Leads (fun key range => seekLoop (isWordAt 0 MAXCONTENTSIZE
      d.content key) (indexOf key) range d.tokens d.tokenSize.toNat 0) d.tokens range path k)
    (ht : d.tokens[k]? = some t) :
    findRange d path range = .ok ⟨t.start, t.stop⟩ ∧ ∀ result, findValue d result path range =
      (takeToken d (some result) k >>= fun found => .ok (found.result.getD result)) := by
  induction hleads with
  | last hseek =>
    have hrange := takeToken_none (readAt_natCast _ _ _ ht)
    refine ⟨?_, fun result => ?_⟩
    · rw [findRange, search_of_seek hseek, hrange, ok_bind, findRange]
    · rw [findValue, search_of_seek hseek]
  | @step key keys range i k u hseek hu hrest ih =>
    have hrange := takeToken_none (readAt_natCast _ _ _ hu)
    obtain ⟨hfind, hvalue⟩ := ih ht
    refine ⟨?_, fun result => ?_⟩
    · rw [findRange, search_of_seek hseek, hrange, ok_bind]
      exact hfind
    · rw [findValue, search_of_seek hseek, hrange, ok_bind]
      · exact hvalue result
      · exact hrest.ne_nil

/-- The value is set, whatever stands behind its terminator. -/
def Sets (path : List (List Byte)) (w : List Byte) (d d' : JsonData) : Prop :=
  ∀ beyond, setJsfileSingleValue (w ++ 0 :: beyond) path d = .ok d'

/-- What is known of the arrays between two sets. -/
def Holds (table : List Token) (k : ℕ) (v : Token) (front behind : List Byte) (d : JsonData)
    (old stray : List Byte) : Prop :=
  Stage 0 MAXCONTENTSIZE table k v front behind old stray d.content d.tokens ∧
    d.tokenSize = table.length

section

variable {table others : List Token} {root v all : Token} {front after behind old stray w : List Byte}
  {d' : JsonData}

/-- The functions of the code find the token. -/
theorem Holds.found (h : Holds table k v front behind d old stray)
    (hp : Placed 0 MAXCONTENTSIZE indexOf path table others k root v front after)
    (hall : d.tokens[0]? = some all) :
    findRange d path ⟨all.start, all.stop⟩ = .ok ⟨front.length, front.length + old.length⟩ ∧
      ∀ result, old.length < result.length → findValue d result path ⟨all.start, all.stop⟩ =
        .ok (old ++ 0 :: result.drop (old.length + 1)) := by
  obtain ⟨h, hcount⟩ := h
  obtain ⟨t, ht, hstart, hstop⟩ := h.value_at
  have hleads := hp.leads h hall
  have hn : table.length = d.tokenSize.toNat := by omega
  rw [hn] at hleads
  obtain ⟨hfind, hvalue⟩ := findRange_of_leads hleads ht
  obtain ⟨beyond, hcontent⟩ := h.text
  have hcovers : Covers d.content t old := ⟨h.value, front, _, hcontent, hstart, hstop⟩
  rw [hstart, hstop] at hfind
  refine ⟨hfind, fun result hroom => ?_⟩
  rw [hvalue, takeToken_some (readAt_natCast _ _ _ ht) hcovers hroom, ok_bind]
  rfl

theorem Holds.get (h : Holds table k v front behind d old stray)
    (hp : Placed 0 MAXCONTENTSIZE indexOf path table others k root v front after) :
    ReadsBack 0 (getJsfileValue path d) w ↔ w = old := by
  obtain ⟨all, hall⟩ := h.1.first
  have hread : readAt d.tokens 0 = .ok all := readAt_natCast d.tokens 0 all hall
  refine readsBack_iff h.1.value fun result hroom => ?_
  rw [getJsfileValue, getAllRange, hread, ok_bind, ok_bind]
  exact (h.found hp hall).2 result hroom

theorem Holds.set (h : Holds table k v front behind d old stray)
    (hp : Placed 0 MAXCONTENTSIZE indexOf path table others k root v front after)
    (hw : (0 : Byte) ∉ w)
    (hroom : front.length + behind.length + (written old w ++ stray).length < MAXCONTENTSIZE) :
    ∃ d', Sets path w d d' ∧ Holds table k v front behind d' (written old w ++ stray) [] := by
  have hcount := h.2
  obtain ⟨all, now, others', htokens, hlength, hstop⟩ := h.1.root
  have hall : d.tokens[0]? = some all := by simp [htokens]
  have hfind := (h.found hp hall).1
  have hfits : (nextText front behind old stray w).length < MAXCONTENTSIZE := by
    rw [nextText_length]
    omega
  have hfits' : (nextText front behind old stray w).length < d.content.length := by
    rwa [h.1.length]
  have hnext := h.1.next hp.spaced hp.value hw htokens hlength hstop hfits'
  have hclear : (List.replicate MAXCONTENTSIZE (0 : Byte)).length = MAXCONTENTSIZE :=
    List.length_replicate
  rw [← hclear] at hfits
  have hfuel : (List.replicate MAXCONTENTSIZE (0 : Byte)).length + 1 < MAXCONTENTSIZE + 2 := by
    omega
  refine ⟨{ d with
    tokens := (all :: now).map (shiftToken ⟨front.length, front.length + old.length⟩
      ((nextText front behind old stray w).length - all.stop)) ++ others'
    content := nextText front behind old stray w ++ 0 ::
      d.content.drop ((nextText front behind old stray w).length + 1)
    contentSize := (shiftToken ⟨front.length, front.length + old.length⟩
      ((nextText front behind old stray w).length - all.stop) all).stop }, fun beyond => ?_,
    hnext, hcount⟩
  obtain ⟨rest', hmerge⟩ := h.1.replaceLoop_eq hw beyond hfuel hfits
  have hloop := (mergeLoop_eq d.content (w ++ 0 :: beyond)
    ⟨front.length, front.length + old.length⟩ _ 0 0 0 _).trans hmerge
  exact setJsfileSingleValue_of_merge htokens (by rw [hcount, hlength]) hfind hloop
    (h.1.next_noNul hw) hfits'

theorem Holds.room (h : Holds table k v front behind d old stray)
    (hp : Placed 0 MAXCONTENTSIZE indexOf path table others k root v front after)
    (hw : (0 : Byte) ∉ w) (hset : Sets path w d d') :
    front.length + behind.length + (written old w ++ stray).length < MAXCONTENTSIZE := by
  obtain ⟨all, hall⟩ := h.1.first
  have hfind := (h.found hp hall).1
  obtain ⟨r, hmerge⟩ := setJsfileSingleValue_merges (readAt_natCast _ _ _ hall) hfind (hset [])
  rw [mergeLoop_eq] at hmerge
  have hfits := h.1.replaceLoop_fits hw hmerge
  rw [nextText_length, List.length_replicate] at hfits
  omega

/-- The laws of a set and a get on one path. -/
theorem lawful (hp : Placed 0 MAXCONTENTSIZE indexOf path table others k root v front after) :
    Lawful MAXCONTENTSIZE (front.length + behind.length) (Sets path)
      (fun d => ReadsBack 0 (getJsfileValue path d)) (fun w => (0 : Byte) ∉ w)
      (Holds table k v front behind) where
  get d old stray w h := h.get hp
  set d old stray w h hw hroom := h.set hp hw hroom
  room d old stray w d' h hw hset := h.room hp hw hset
  unique w d d' d'' hset hset' := by
    have hsame := (hset []).symm.trans (hset' [])
    exact Except.ok.inj hsame

end

end

section

open CSharpJson

variable {e : JsonData} {path : List (List Char16)} {key : List Char16} {range : Range}
  {k h size : ℕ} {t : Token}

theorem search_of_seek_utf16 (hseek : seekLoop (isWordAt 0 MAXPACKETSIZE e.content key)
      (indexOfUtf16 key) range e.tokens e.tokenSize.toNat 0 = .ok (some h))
    (result : Option (List Char16)) :
    searchJsonDataInRange key range e result = checked (takeToken e result h) := by
  rw [searchJsonDataInRange, searchLoop_utf16, hseek, checked_ok, returned_bind]

theorem takeToken_none_utf16 (ht : readAt e.tokens h = .ok t) :
    takeToken e none h = .ok ⟨h, ⟨t.start, t.stop⟩, none⟩ := by
  rw [takeToken, ht, ok_bind]
  rfl

theorem seek_of_search_utf16 {found : Found}
    (hsearch : searchJsonDataInRange key range e none = .ok found) (hhit : found.hitIndex = h) :
    seekLoop (isWordAt 0 MAXPACKETSIZE e.content key) (indexOfUtf16 key) range e.tokens
      e.tokenSize.toNat 0 = .ok (some h) := by
  rw [searchJsonDataInRange, searchLoop_utf16] at hsearch
  obtain ⟨hit, hseek, hfound⟩ := returned_eq_ok.mp hsearch
  cases hit with
  | none => cases hfound
  | some i =>
    have htake := checked_eq_ok.mp hfound
    obtain ⟨t, ht, -⟩ := bind_eq_ok.mp htake
    rw [takeToken_none_utf16 ht] at htake
    obtain rfl := Except.ok.inj htake
    obtain rfl := Int.ofNat.inj hhit
    exact checked_eq_ok.mp hseek

theorem findRange_of_leads_utf16 (hleads : Leads (fun key range => seekLoop (isWordAt 0
      MAXPACKETSIZE e.content key) (indexOfUtf16 key) range e.tokens e.tokenSize.toNat 0) e.tokens
        range path k) (ht : e.tokens[k]? = some t) :
    findRange e path range = .ok ⟨t.start, t.stop⟩ ∧ ∀ result, findValue e result path range =
      (checked (takeToken e (some result) k) >>= fun found => .ok (found.result.getD result)) := by
  have hrange : ∀ {i : ℕ} {u : Token}, e.tokens[i]? = some u →
      checked (takeToken e none i) = .ok ⟨i, ⟨u.start, u.stop⟩, none⟩ := by
    intro i u hu
    rw [takeToken_none_utf16 (readAt_natCast _ _ _ hu), checked_ok]
  induction hleads with
  | last hseek =>
    refine ⟨?_, fun result => ?_⟩
    · rw [findRange, search_of_seek_utf16 hseek, hrange ht, returned_bind, findRange]
    · rw [findValue, search_of_seek_utf16 hseek]
  | @step key keys range i k u hseek hu hrest ih =>
    obtain ⟨hfind, hvalue⟩ := ih ht
    refine ⟨?_, fun result => ?_⟩
    · rw [findRange, search_of_seek_utf16 hseek, hrange hu, returned_bind]
      exact hfind
    · rw [findValue, search_of_seek_utf16 hseek, hrange hu, returned_bind]
      · exact hvalue result
      · exact hrest.ne_nil

def SetsUtf16 (path : List (List Char16)) (w : List Char16) (e e' : JsonData) : Prop :=
  ∀ beyond, setJsfileSingleValue (w ++ 0 :: beyond) path e = .ok e'

def HoldsUtf16 (size : ℕ) (table : List Token) (k : ℕ) (v : Token) (front behind : List Char16)
    (e : JsonData) (old stray : List Char16) : Prop :=
  Stage 0 size table k v front behind old stray e.content e.tokens ∧
    e.tokenSize = table.length

section

variable {table others : List Token} {root v all : Token}
  {front after behind old stray w : List Char16} {e' : JsonData}

theorem HoldsUtf16.found (h : HoldsUtf16 size table k v front behind e old stray)
    (hp : Placed 0 MAXPACKETSIZE indexOfUtf16 path table others k root v front after)
    (hall : e.tokens[0]? = some all) :
    findRange e path ⟨all.start, all.stop⟩ = .ok ⟨front.length, front.length + old.length⟩ ∧
      ∀ result, old.length < result.length → findValue e result path ⟨all.start, all.stop⟩ =
        .ok (old ++ 0 :: result.drop (old.length + 1)) := by
  obtain ⟨h, hcount⟩ := h
  obtain ⟨t, ht, hstart, hstop⟩ := h.value_at
  have hleads := hp.leads h hall
  have hn : table.length = e.tokenSize.toNat := by omega
  rw [hn] at hleads
  obtain ⟨hfind, hvalue⟩ := findRange_of_leads_utf16 hleads ht
  obtain ⟨beyond, hcontent⟩ := h.text
  rw [hstart, hstop] at hfind
  refine ⟨hfind, fun result hroom => ?_⟩
  have hread : getPatteren ⟨t.start, t.stop⟩ _ result = _ :=
    getPatteren_eq front old (stray ++ behind ++ 0 :: beyond) result hstart hstop hroom
  rw [hvalue, takeToken, readAt_natCast _ _ _ ht, ok_bind, getPatteren?, hcontent, hread]
  rfl

theorem HoldsUtf16.get (h : HoldsUtf16 size table k v front behind e old stray)
    (hp : Placed 0 MAXPACKETSIZE indexOfUtf16 path table others k root v front after) :
    ReadsBack 0 (getJsfileValue path e) w ↔ w = old := by
  obtain ⟨all, hall⟩ := h.1.first
  have hread : readAt e.tokens 0 = .ok all := readAt_natCast e.tokens 0 all hall
  refine readsBack_iff h.1.value fun result hroom => ?_
  rw [getJsfileValue, getAllRange, hread, ok_bind, checked_ok, returned_bind]
  exact (h.found hp hall).2 result hroom

/-- The content array of the C# parser may have another size than the array that the loop
writes. -/
theorem HoldsUtf16.set (h : HoldsUtf16 size table k v front behind e old stray)
    (hp : Placed 0 MAXPACKETSIZE indexOfUtf16 path table others k root v front after)
    (hw : (0 : Char16) ∉ w) (hroom : front.length + behind.length +
      (written old w ++ stray).length < min MAXPACKETSIZE size) :
    ∃ e', SetsUtf16 path w e e' ∧
      HoldsUtf16 size table k v front behind e' (written old w ++ stray) [] := by
  have hkey := hp.resolves.ne_nil
  have hcount := h.2
  obtain ⟨all, now, others', htokens, hlength, hstop⟩ := h.1.root
  have hall : e.tokens[0]? = some all := by simp [htokens]
  have hfind := (h.found hp hall).1
  have hfits : (nextText front behind old stray w).length < MAXPACKETSIZE ∧
      (nextText front behind old stray w).length < e.content.length := by
    rw [nextText_length, h.1.length]
    omega
  obtain ⟨hfits, hfits'⟩ := hfits
  have hnext := h.1.next hp.spaced hp.value hw htokens hlength hstop hfits'
  have hclear : (List.replicate MAXPACKETSIZE (0 : Char16)).length = MAXPACKETSIZE :=
    List.length_replicate
  rw [← hclear] at hfits
  have hfuel : (List.replicate MAXPACKETSIZE (0 : Char16)).length + 1 < MAXPACKETSIZE + 2 := by
    omega
  refine ⟨{ e with
    tokens := (all :: now).map (shiftToken ⟨front.length, front.length + old.length⟩
      ((nextText front behind old stray w).length - all.stop)) ++ others'
    content := nextText front behind old stray w ++ 0 ::
      e.content.drop ((nextText front behind old stray w).length + 1)
    contentSize := (shiftToken ⟨front.length, front.length + old.length⟩
      ((nextText front behind old stray w).length - all.stop) all).stop }, fun beyond => ?_,
    hnext, hcount⟩
  obtain ⟨rest', hmerge⟩ := h.1.replaceLoop_eq hw beyond hfuel hfits
  have hloop := (mergeLoop_eq e.content (w ++ 0 :: beyond)
    ⟨front.length, front.length + old.length⟩ _ 0 0 0 _).trans hmerge
  exact setJsfileSingleValue_of_merge hkey htokens (by rw [hcount, hlength]) hfind hloop
    (h.1.next_noNul hw) hfits'

theorem HoldsUtf16.room (h : HoldsUtf16 size table k v front behind e old stray)
    (hp : Placed 0 MAXPACKETSIZE indexOfUtf16 path table others k root v front after)
    (hw : (0 : Char16) ∉ w) (hset : SetsUtf16 path w e e') :
    front.length + behind.length + (written old w ++ stray).length < min MAXPACKETSIZE size := by
  obtain ⟨all, hall⟩ := h.1.first
  have hfind := (h.found hp hall).1
  obtain ⟨r, content, hmerge, hputs⟩ :=
    setJsfileSingleValue_merges (readAt_natCast _ _ _ hall) hfind (hset [])
  rw [mergeLoop_eq] at hmerge
  have hfits := h.1.replaceLoop_fits hw hmerge
  obtain ⟨rest', hwrites⟩ := h.1.replaceLoop_eq hw []
    (by rw [List.length_replicate]; exact Nat.lt_succ_self _) hfits
  rw [hmerge] at hwrites
  obtain rfl := Except.ok.inj hwrites
  have hroom := arrPuts_room _ _ (h.1.next_noNul hw) hputs
  rw [nextText_length, List.length_replicate] at hfits
  rw [nextText_length, h.1.length] at hroom
  omega

theorem lawful_utf16
    (hp : Placed 0 MAXPACKETSIZE indexOfUtf16 path table others k root v front after) :
    Lawful (min MAXPACKETSIZE size) (front.length + behind.length) (SetsUtf16 path)
      (fun e => ReadsBack 0 (getJsfileValue path e)) (fun w => (0 : Char16) ∉ w)
      (HoldsUtf16 size table k v front behind) where
  get e old stray w h := h.get hp
  set e old stray w h hw hroom := h.set hp hw hroom
  room e old stray w e' h hw hset := h.room hp hw hset
  unique w e e' e'' hset hset' := by
    have hsame := (hset []).symm.trans (hset' [])
    exact Except.ok.inj hsame

end

end

/-- The text in an array. -/
def textOf {α : Type} [DecidableEq α] (nul : α) (content : List α) : List α :=
  content.takeWhile fun c => decide (c ≠ nul)

/-- The characters of a token. -/
def charsOf {α : Type} (text : List α) (t : Token) : List α :=
  (text.drop t.start.toNat).take (t.stop - t.start).toNat

/-- As many characters behind a token as stand behind the first one. -/
def strayOf {α : Type} (text : List α) (root v : Token) : List α :=
  (text.drop v.stop.toNat).take (text.length - root.stop.toNat)

/-- The condition for a token of a text. -/
def KeepsIn {α : Type} (size : ℕ) (text : List α) (root v : Token) (values : List (List α)) :
    Prop :=
  Keeps size (text.length - (charsOf text v).length - (strayOf text root v).length)
    (charsOf text v) (strayOf text root v) values

section

variable {α : Type} {nul : α} {content text beyond : List α} {table others : List Token} {k : ℕ}
  {root v : Token}

theorem textOf_append [DecidableEq α] (hnul : nul ∉ text) :
    textOf nul (text ++ nul :: beyond) = text := by
  have htext : ∀ c ∈ text, decide (c ≠ nul) = true := by
    intro c hc
    exact decide_eq_true fun heq => hnul (heq ▸ hc)
  rw [textOf, List.takeWhile_append_of_pos htext, List.takeWhile_cons_of_neg (by simp),
    List.append_nil]

theorem textOf_split [DecidableEq α] (h : nul ∈ content) :
    nul ∉ textOf nul content ∧ ∃ beyond, content = textOf nul content ++ nul :: beyond := by
  obtain ⟨text, beyond, rfl, hnul⟩ := List.eq_append_cons_of_mem h
  rw [textOf_append hnul]
  exact ⟨hnul, beyond, rfl⟩

theorem exists_parts (hstart : 0 ≤ v.start) (hclosed : v.start ≤ v.stop)
    (hend : v.stop ≤ root.stop) (hstop : root.stop ≤ text.length) :
    ∃ front behind, text = front ++ (charsOf text v ++ (strayOf text root v ++ behind)) ∧
      v.start = front.length ∧ v.stop = front.length + (charsOf text v).length ∧
      root.stop = front.length + (charsOf text v).length + behind.length := by
  obtain ⟨start, hstart'⟩ := Int.eq_ofNat_of_zero_le hstart
  obtain ⟨stop, hstop'⟩ := Int.eq_ofNat_of_zero_le (hstart.trans hclosed)
  obtain ⟨last, hlast⟩ := Int.eq_ofNat_of_zero_le ((hstart.trans hclosed).trans hend)
  rw [hstart', hstop'] at hclosed
  rw [hstop', hlast] at hend
  rw [hlast] at hstop
  have hchars : charsOf text v = (text.drop start).take (stop - start) := by
    rw [charsOf, hstart', hstop', Int.toNat_natCast, ← Int.ofNat_sub (by omega), Int.toNat_natCast]
  have hstray : strayOf text root v = (text.drop stop).take (text.length - last) := by
    rw [strayOf, hstop', hlast, Int.toNat_natCast, Int.toNat_natCast]
  refine ⟨text.take start, (text.drop stop).drop (text.length - last), ?_, ?_, ?_, ?_⟩
  · have hrest : text.drop stop = (text.drop start).drop (stop - start) := by
      rw [List.drop_drop]
      congr 1
      omega
    rw [hstray, List.take_append_drop, hchars, hrest, List.take_append_drop, List.take_append_drop]
  · rw [hstart', List.length_take]
    omega
  · rw [hstop', hchars, List.length_take, List.length_take, List.length_drop]
    omega
  · rw [hlast, hchars]
    simp only [List.length_take, List.length_drop]
    omega

/-- The stage before the first set. -/
theorem exists_stage [DecidableEq α] (hnul : nul ∉ text)
    (hcontent : content = text ++ nul :: beyond) (hroot : table[0]? = some root) (hv : table[k]? = some v)
    (hin : Inside ⟨root.start, root.stop⟩ v) (hstart : 0 ≤ v.start) (hclosed : v.start ≤ v.stop)
    (hstop : root.stop ≤ text.length) (others : List Token) :
    ∃ front behind after, content = front ++ after ∧ v.start = front.length ∧
      Stage nul content.length table k v front behind (charsOf text v) (strayOf text root v) content
        (table ++ others) ∧
      front.length + behind.length =
        text.length - (charsOf text v).length - (strayOf text root v).length := by
  obtain ⟨front, behind, hsplit, hfront, hend, hlast⟩ := exists_parts hstart hclosed hin.2 hstop
  have htext : ∀ c, c ∈ text ↔ c ∈ front ∨ c ∈ charsOf text v ∨ c ∈ strayOf text root v ∨
      c ∈ behind := by
    intro c
    nth_rewrite 1 [hsplit]
    simp only [List.mem_append]
  have hlength := congrArg List.length hsplit
  simp only [List.length_append] at hlength
  rw [htext, not_or, not_or, not_or] at hnul
  have hcontent' : content = front ++ (charsOf text v ++
      (strayOf text root v ++ behind ++ nul :: beyond)) := by
    rw [hcontent]
    nth_rewrite 1 [hsplit]
    simp only [List.append_assoc]
  refine ⟨front, behind, _, hcontent', hfront, ⟨⟨beyond, hcontent'⟩, rfl, ?_, hnul.2.1, hfront, ?_,
    ?_⟩, by omega⟩
  · simp [hnul]
  · have hget : ∀ i ≤ k, (table ++ others)[i]? = table[i]? := by
      intro i hi
      have hlt := (List.getElem?_eq_some_iff.mp hv).1
      exact List.getElem?_append_left (by omega)
    refine ⟨fun i hi t ht => ⟨t, ?_, rfl, rfl, fun _ => rfl, fun hle => ?_⟩, v, ?_, rfl, ?_⟩
    · rw [hget i hi, ht]
    · omega
    · rw [hget k le_rfl, hv]
    · omega
  · cases table with
    | nil => cases hroot
    | cons all table =>
      obtain rfl := Option.some.inj hroot
      exact ⟨all, table, others, rfl, rfl, hlast⟩

end

/-- A tokenized document whose searches lead to a token. -/
theorem exists_placed {α : Type} [DecidableEq α] {nul : α} {size n k : ℕ}
    {index : List α → Exec ℕ} {path : List (List α)} {text content beyond : List α}
    {js : List Byte} {table others : List Token} {root v : Token} (hnul : nul ∉ text)
    (hcontent : content = text ++ nul :: beyond) (hjs : js.length = text.length)
    (hparse : jsmnParse js n = .ok (table.length, table))
    (hroot : (table ++ others)[0]? = some root) (hv : (table ++ others)[k]? = some v)
    (hpath : Resolves (fun key range i => seekLoop (isWordAt nul size content key) (index key) range
      (table ++ others) table.length 0 = .ok (some i)) table ⟨root.start, root.stop⟩ path k) :
    ∃ front behind after, Placed nul size index path table others k root v front after ∧
      Stage nul content.length table k v front behind (charsOf text v) (strayOf text root v) content
        (table ++ others) ∧
      front.length + behind.length =
        text.length - (charsOf text v).length - (strayOf text root v).length := by
  obtain ⟨u, hu, hin, -⟩ := hpath.inside
  have hlt := (List.getElem?_eq_some_iff.mp hu).1
  rw [List.getElem?_append_left (by omega)] at hroot
  rw [List.getElem?_append_left hlt, hu] at hv
  obtain rfl := Option.some.inj hv
  have htokenized := JsmnTokens.tokenized_jsmnParse hparse
  have hclosed := (htokenized.count (by omega)).2
  have hinside := htokenized.laid.inside
  have hstop := (hinside root (List.mem_of_getElem? hroot)).stop_le
  rw [hjs] at hstop
  have hstart := (hinside u (List.mem_of_getElem? hu)).start_nonneg
  have hends := hclosed u (List.mem_of_getElem? hu)
  obtain ⟨front, behind, after, hsplit, hplace, hstage, haround⟩ :=
    exists_stage hnul hcontent hroot hu hin hstart hends hstop others
  refine ⟨front, behind, after, ⟨?_, hu, hroot, hplace, hends, ?_⟩, hstage, haround⟩
  · exact JsmnRounds.spaced_jsmnParse hparse (by omega)
  · rw [← hsplit]
    exact hpath

section

open JsFileParser KeyPath

/-- A document that `init_token` accepts. -/
structure Accepted (d₀ d : JsonData) : Prop where
  size : d₀.content.length = MAXCONTENTSIZE
  init : initToken d₀ = .ok d
  accepted : 0 ≤ d.tokenSize

/-- The path leads to the token `v` of the document, whose first token is `root`. -/
def PathTo (path : List (List Byte)) (d : JsonData) (root v : Token) : Prop :=
  ∃ k, d.tokens[0]? = some root ∧ d.tokens[k]? = some v ∧
    Resolves (fun key range i => ∃ found, searchJsonDataInRange key range d none = .ok found ∧
      found.hitIndex = i) (d.tokens.take d.tokenSize.toNat) ⟨root.start, root.stop⟩ path k

theorem getsBack_bytes {d₀ d : JsonData} {path values : List (List Byte)} {root v : Token}
    (hd : Accepted d₀ d) (hpath : PathTo path d root v) (hvalues : ∀ w ∈ values, (0 : Byte) ∉ w) :
    GetsBack (Sets path) (fun d => ReadsBack 0 (getJsfileValue path d)) d values ↔
      KeepsIn MAXCONTENTSIZE (textOf 0 d₀.content) root v values := by
  obtain ⟨hsize, hinit, haccepted⟩ := hd
  obtain ⟨text, htext, hinit⟩ := bind_eq_ok.mp hinit
  obtain ⟨hnul, beyond, hcontent⟩ := cString_eq_ok htext
  obtain ⟨⟨n, table⟩, hparse, hinit⟩ := bind_eq_ok.mp hinit
  obtain rfl := Except.ok.inj hinit
  obtain ⟨k, hroot, hv, hpath⟩ := hpath
  dsimp only at haccepted hroot hv hpath
  obtain ⟨rfl, -⟩ := (JsmnTokens.tokenized_jsmnParse hparse).count haccepted
  rw [splice_zero] at hroot hv hpath
  rw [Int.toNat_natCast, List.take_left] at hpath
  have hseek := hpath.imp fun key range i ⟨found, hsearch, hhit⟩ => seek_of_search hsearch hhit
  obtain ⟨front, behind, after, hplaced, hstage, haround⟩ :=
    exists_placed hnul hcontent rfl hparse hroot hv hseek
  rw [hsize, ← splice_zero] at hstage
  have hholds : Holds table k v front behind { d₀ with
      tokens := splice d₀.tokens 0 table
      tokenSize := table.length
      contentSize := text.length } (charsOf text v) (strayOf text root v) := ⟨hstage, rfl⟩
  have hback := (lawful hplaced).getsBack_iff hholds hvalues
  rw [haround] at hback
  have htext' : textOf 0 d₀.content = text := by rw [hcontent, textOf_append hnul]
  rw [htext']
  exact hback

end

section

open CSharpJson

/-- The text is accepted by itself: behind a backslash at its end the tokenizer would go on
behind the terminator. -/
structure AcceptedUtf16 (e₀ e : JsonData) : Prop where
  init : initToken e₀ = .ok e
  accepted : ∃ (n : ℤ) (tokens : List Token),
    jsmnParse (textOf 0 e₀.content) MAXTOKENSIZE = .ok (n, tokens) ∧ 0 ≤ n

def PathToUtf16 (path : List (List Char16)) (e : JsonData) (root v : Token) : Prop :=
  ∃ k, e.tokens[0]? = some root ∧ e.tokens[k]? = some v ∧
    Resolves (fun key range i => ∃ found, searchJsonDataInRange key range e none = .ok found ∧
      found.hitIndex = i) (e.tokens.take e.tokenSize.toNat) ⟨root.start, root.stop⟩ path k

theorem getsBack_utf16 {e₀ e : JsonData} {path values : List (List Char16)} {root v : Token}
    (he : AcceptedUtf16 e₀ e) (hpath : PathToUtf16 path e root v)
    (hvalues : ∀ w ∈ values, (0 : Char16) ∉ w) :
    GetsBack (SetsUtf16 path) (fun e => ReadsBack 0 (getJsfileValue path e)) e values ↔
      (values ≠ [] → 0 ∈ e₀.content) ∧ KeepsIn (min MAXPACKETSIZE e₀.content.length)
        (textOf 0 e₀.content) root v values := by
  obtain ⟨hinit, n, table, hparse, hn⟩ := he
  by_cases hzero : 0 ∈ e₀.content
  · obtain ⟨hnul, beyond, hcontent⟩ := textOf_split hzero
    obtain ⟨text, htext⟩ : ∃ text, text = textOf 0 e₀.content := ⟨_, rfl⟩
    rw [← htext] at hparse hnul hcontent ⊢
    rw [← jsmnParse_narrow] at hparse
    obtain ⟨rfl, -⟩ := (JsmnTokens.tokenized_jsmnParse hparse).count hn
    have hnul' : (0 : Byte) ∉ text.map narrow := by
      intro hmem
      obtain ⟨c, hc, hnarrow⟩ := List.mem_map.mp hmem
      exact hnul (narrow_zero_iff.mp hnarrow ▸ hc)
    have hlong := JsmnRounds.jsmnParse_append hnul' hparse hn (beyond.map narrow)
    have hmap : text.map narrow ++ 0 :: beyond.map narrow = e₀.content.map narrow := by
      rw [hcontent, List.map_append, List.map_cons]
      rfl
    rw [hmap, jsmnParse_narrow] at hlong
    rw [initToken, hlong, checked_ok, returned_bind] at hinit
    dsimp only at hinit
    rw [if_neg (by omega)] at hinit
    obtain rfl := Except.ok.inj hinit
    obtain ⟨k, hroot, hv, hpath⟩ := hpath
    dsimp only at hroot hv hpath
    rw [splice_zero] at hroot hv hpath
    rw [Int.toNat_natCast, List.take_left] at hpath
    have hseek := hpath.imp fun key range i h =>
      h.elim fun found hfound => seek_of_search_utf16 hfound.1 hfound.2
    obtain ⟨front, behind, after, hplaced, hstage, haround⟩ :=
      exists_placed hnul hcontent (List.length_map narrow) hparse hroot hv hseek
    rw [← splice_zero] at hstage
    have hholds : HoldsUtf16 e₀.content.length table k v front behind { e₀ with
        tokens := splice e₀.tokens 0 table
        tokenSize := table.length
        parsed := true } (charsOf text v) (strayOf text root v) := ⟨hstage, rfl⟩
    have hback := (lawful_utf16 hplaced).getsBack_iff hholds hvalues
    rw [haround] at hback
    rw [hback]
    exact ⟨fun h => ⟨fun _ => hzero, h⟩, fun h => h.2⟩
  · have hcontent : e.content = e₀.content := by
      obtain ⟨⟨m, tokens⟩, -, hinit⟩ := returned_eq_ok.mp hinit
      dsimp only at hinit
      split at hinit
      · cases hinit
      · obtain rfl := Except.ok.inj hinit
        rfl
    cases values with
    | nil => exact iff_of_true trivial ⟨fun h => absurd rfl h, keeps_nil⟩
    | cons w values =>
      refine iff_of_false ?_ fun h => hzero (h.1 (List.cons_ne_nil _ _))
      rintro ⟨e', hset, -, -⟩
      have hmem := setJsfileSingleValue_nul_mem (hset [])
      rw [hcontent] at hmem
      exact hzero hmem

end

/-- For every accepted document, every path that leads to a string or a primitive, and all values
without terminators that are set one after the other: each is read back after its set exactly
if, in both programs, the values fit and nothing strays behind the token, and no value is set
after an empty one. Where the token is empty at first, nothing is written into it at all. -/
theorem getAfterSet_iff {d₀ d : JsFileParser.JsonData} {e₀ e : CSharpJson.JsonData}
    {path values : List (List Byte)} {path' values' : List (List Char16)} {root v root' v' : Token}
    (hd : Accepted d₀ d) (hpath : PathTo path d root v) (hvalues : ∀ w ∈ values, (0 : Byte) ∉ w)
    (he : AcceptedUtf16 e₀ e) (hpath' : PathToUtf16 path' e root' v')
    (hvalues' : ∀ w ∈ values', (0 : Char16) ∉ w) :
    (GetsBack (Sets path) (fun d => ReadsBack 0 (JsFileParser.getJsfileValue path d)) d values ↔
      KeepsIn JsFileParser.MAXCONTENTSIZE (textOf 0 d₀.content) root v values) ∧
    (GetsBack (SetsUtf16 path') (fun e => ReadsBack 0 (CSharpJson.getJsfileValue path' e)) e
        values' ↔
      (values' ≠ [] → 0 ∈ e₀.content) ∧ KeepsIn (min CSharpJson.MAXPACKETSIZE e₀.content.length)
        (textOf 0 e₀.content) root' v' values') :=
  ⟨getsBack_bytes hd hpath hvalues, getsBack_utf16 he hpath' hvalues'⟩

open KeyPath ArrayIndex

/-- `{"a":1}`. -/
def memberText : List Byte := ascii "\x7b\"a\":1\x7d"

def memberTokens : List Token := [⟨.object, 0, 7, 1⟩, ⟨.string, 2, 3, 1⟩, ⟨.primitive, 5, 6, 0⟩]

def memberData : JsFileParser.JsonData :=
  { arraysOf memberText with
    tokens := splice (arraysOf memberText).tokens 0 memberTokens
    tokenSize := 3
    contentSize := 7 }

def memberUtf16 : CSharpJson.JsonData :=
  { arraysUtf16 memberText with
    tokens := memberTokens
    tokenSize := 3
    parsed := true }

/-- The value of a member, set twice and then to nothing. -/
theorem getAfterSet_member :
    JsFileParser.initToken (arraysOf memberText) = .ok memberData ∧
    GetsBack (Sets [ascii "a"]) (fun d => ReadsBack 0 (JsFileParser.getJsfileValue [ascii "a"] d))
      memberData [ascii "42", ascii "b", []] ∧
    CSharpJson.initToken (arraysUtf16 memberText) = .ok memberUtf16 ∧
    GetsBack (SetsUtf16 [utf16 (ascii "a")])
      (fun e => ReadsBack 0 (CSharpJson.getJsfileValue [utf16 (ascii "a")] e)) memberUtf16
      [utf16 (ascii "42"), utf16 (ascii "b"), []] := by
  have hinit : JsFileParser.initToken (arraysOf memberText) = .ok memberData := by decide +kernel
  have hinit' : CSharpJson.initToken (arraysUtf16 memberText) = .ok memberUtf16 := by
    decide +kernel
  have hd : Accepted (arraysOf memberText) memberData :=
    ⟨arraysOf_content (by decide), hinit, by decide⟩
  have he : AcceptedUtf16 (arraysUtf16 memberText) memberUtf16 :=
    ⟨hinit', 3, memberTokens, by decide +kernel, by decide⟩
  have hpath : PathTo [ascii "a"] memberData ⟨.object, 0, 7, 1⟩ ⟨.primitive, 5, 6, 0⟩ :=
    ⟨2, rfl, rfl, .last ⟨⟨2, ⟨5, 6⟩, none⟩, by decide +kernel, rfl⟩ rfl ⟨by decide, by decide⟩
      (.inr rfl)⟩
  have hpath' : PathToUtf16 [utf16 (ascii "a")] memberUtf16 ⟨.object, 0, 7, 1⟩
      ⟨.primitive, 5, 6, 0⟩ :=
    ⟨2, rfl, rfl, .last ⟨⟨2, ⟨5, 6⟩, none⟩, by decide +kernel, rfl⟩ rfl ⟨by decide, by decide⟩
      (.inr rfl)⟩
  have hvalues : ∀ w ∈ [ascii "42", ascii "b", []], (0 : Byte) ∉ w := by decide
  have hvalues' : ∀ w ∈ [utf16 (ascii "42"), utf16 (ascii "b"), []], (0 : Char16) ∉ w := by decide
  obtain ⟨hbytes, hutf16⟩ := getAfterSet_iff hd hpath hvalues he hpath' hvalues'
  refine ⟨hinit, hbytes.mpr ⟨?_, ?_, ?_⟩, hinit', hutf16.mpr ⟨fun _ => ?_, ?_, ?_, ?_⟩⟩ <;>
    decide +kernel

/-- The text `x` set after nothing is not read back. -/
theorem getAfterSet_empty :
    (do let d ← JsFileParser.initToken (arraysOf memberText)
        let d ← JsFileParser.setJsfileSingleValue [0] [ascii "a"] d
        let d ← JsFileParser.setJsfileSingleValue [120, 0] [ascii "a"] d
        let out ← JsFileParser.getJsfileValue [ascii "a"] d (List.replicate 8 0)
        cString 0 out) = .ok [] ∧
    (do let e ← CSharpJson.initToken (arraysUtf16 memberText)
        let e ← CSharpJson.setJsfileSingleValue [0] [utf16 (ascii "a")] e
        let e ← CSharpJson.setJsfileSingleValue [120, 0] [utf16 (ascii "a")] e
        let out ← CSharpJson.getJsfileValue [utf16 (ascii "a")] e (List.replicate 8 0)
        CSharpJson.checked (cString 0 out)) = .ok [] := by
  constructor <;> decide +kernel

end IoTRepublic.GetAfterSet
