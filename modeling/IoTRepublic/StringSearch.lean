import IoTRepublic.Package
import IoTRepublic.Foundation.SinglePass

/-!
`string_search`, with which the Bluetooth and the XBee brokers look for replies
and addresses in what the serial port has received. It makes one pass and never
steps back, so a partial match that runs into an occurrence hides it.
-/
namespace IoTRepublic.StringSearch

open CheckedArray Package SinglePass

/-- The loop over `pos_text`, with the number of characters that are left. -/
def searchLoop (pattern baseStr : List Byte) (lenSearch : ℕ) : ℕ → ℤ → ℕ → Exec ℤ
  | 0, _, _ => .ok (-1)
  | n + 1, posText, posSearch => do
    let c ← readAt baseStr posText
    let d ← readAt pattern posSearch
    if c = d then
      if posSearch + 1 = lenSearch then .ok (posText - (lenSearch - 1))
      else searchLoop pattern baseStr lenSearch n (posText + 1) (posSearch + 1)
    else searchLoop pattern baseStr lenSearch n (posText + 1) 0

/-- `pattern` and `baseStr` are the memory from the strings on. -/
def stringSearch (pattern : List Byte) (startIndex : ℤ) (baseStr : List Byte) : Exec ℤ := do
  let search ← cString 0 pattern
  let text ← cString 0 baseStr
  searchLoop pattern baseStr search.length (text.length - startIndex).toNat startIndex 0

/-- The index that stands for a place. -/
def indexOf : Option ℕ → ℤ
  | none => -1
  | some j => j

section

variable {pattern text beyond beyond' : List Byte} {q i : ℕ}

/-- The loop is the pass over the rest of the text. -/
theorem searchLoop_eq (front : List Byte) (hq : q < pattern.length) (hle : q ≤ front.length) :
    searchLoop (pattern ++ 0 :: beyond) (front ++ (text ++ 0 :: beyond')) pattern.length text.length
      front.length q = .ok (indexOf (pass pattern text front.length q)) := by
  induction text generalizing front q with
  | nil => rfl
  | cons c text ih =>
    obtain ⟨d, hd⟩ : ∃ d, pattern[q]? = some d := ⟨_, List.getElem?_eq_getElem hq⟩
    have hread : readAt (front ++ (c :: text ++ 0 :: beyond')) (front.length : ℤ) = .ok c :=
      readAt_natCast _ _ _ (by simp)
    have hpattern : readAt (pattern ++ 0 :: beyond) (q : ℤ) = .ok d :=
      readAt_natCast _ _ _ (by rw [List.getElem?_append_left hq, hd])
    have hnext : ∀ r, r < pattern.length → r ≤ front.length + 1 →
        searchLoop (pattern ++ 0 :: beyond) (front ++ (c :: text ++ 0 :: beyond')) pattern.length
          text.length (front.length + 1) r =
            .ok (indexOf (pass pattern text (front.length + 1) r)) := by
      intro r hr hrle
      have hstep := ih (front ++ [c]) hr (by rw [List.length_append]; exact hrle)
      rw [List.append_assoc, List.length_append, List.length_singleton] at hstep
      exact_mod_cast hstep
    rw [List.length_cons, searchLoop, hread, ok_bind, hpattern, ok_bind, SinglePass.pass, hd]
    by_cases hc : c = d
    · have hsame : some d = some c := by rw [hc]
      rw [if_pos hc, if_pos hsame]
      by_cases hlast : q + 1 = pattern.length
      · rw [if_pos hlast, if_pos hlast, indexOf, ← hlast]
        congr 1
        push_cast
        omega
      · rw [if_neg hlast, if_neg hlast]
        exact hnext (q + 1) (by omega) (by omega)
    · have hother : some d ≠ some c := fun h => hc (Option.some.inj h).symm
      rw [if_neg hc, if_neg hother]
      exact hnext 0 (by omega) (Nat.zero_le _)

theorem stringSearch_eq (hne : pattern ≠ []) (hpattern : (0 : Byte) ∉ pattern)
    (htext : (0 : Byte) ∉ text) (startIndex : ℕ) :
    stringSearch (pattern ++ 0 :: beyond) startIndex (text ++ 0 :: beyond') =
      .ok (indexOf (pass pattern (text.drop startIndex) startIndex 0)) := by
  rw [stringSearch, cString_append 0 pattern beyond hpattern, ok_bind,
    cString_append 0 text beyond' htext, ok_bind]
  rcases Nat.lt_or_ge text.length startIndex with hlong | hle
  · have hnone : ((text.length : ℤ) - startIndex).toNat = 0 := by omega
    rw [hnone, List.drop_eq_nil_of_le (by omega)]
    rfl
  · have hfront : (text.take startIndex).length = startIndex := List.length_take_of_le hle
    have hrest : ((text.length : ℤ) - startIndex).toNat = (text.drop startIndex).length := by
      rw [List.length_drop]
      omega
    have hsplit : text ++ 0 :: beyond' =
        text.take startIndex ++ (text.drop startIndex ++ 0 :: beyond') := by
      rw [← List.append_assoc, List.take_append_drop]
    have hloop : searchLoop (pattern ++ 0 :: beyond)
        (text.take startIndex ++ (text.drop startIndex ++ 0 :: beyond')) _ _ _ _ = _ :=
      searchLoop_eq (text.take startIndex) (List.length_pos_iff.mpr hne) (Nat.zero_le _)
    rw [hfront] at hloop
    rw [hrest, hsplit]
    exact hloop

end

/-- The index of the first occurrence from `startIndex` on, or -1. -/
structure FindsFirst (pattern text : List Byte) (startIndex : ℕ) (targetIndex : ℤ) : Prop where
  found : ∀ j, IsFirst pattern text startIndex j → targetIndex = j
  missing : (∀ j, ¬ IsFirst pattern text startIndex j) → targetIndex = -1

theorem findsFirst_iff {pattern text : List Byte} {startIndex : ℕ} {found : Option ℕ} :
    FindsFirst pattern text startIndex (indexOf found) ↔
      (∀ j, IsFirst pattern text startIndex j → found = some j) ∧
        ((∀ j, ¬ IsFirst pattern text startIndex j) → found = none) := by
  have hplace : ∀ j : ℕ, indexOf found = j ↔ found = some j := by
    intro j
    cases found with
    | none => exact iff_of_false (by rw [indexOf]; omega) nofun
    | some k => rw [indexOf, Int.natCast_inj, Option.some.injEq]
  have hnone : indexOf found = -1 ↔ found = none := by
    cases found with
    | none => exact iff_of_true rfl rfl
    | some k => exact iff_of_false (by rw [indexOf]; omega) nofun
  constructor
  · rintro ⟨hfound, hmissing⟩
    exact ⟨fun j hj => (hplace j).mp (hfound j hj), fun hj => hnone.mp (hmissing hj)⟩
  · rintro ⟨hfound, hmissing⟩
    exact ⟨fun j hj => (hplace j).mpr (hfound j hj), fun hj => hnone.mpr (hmissing hj)⟩

section

variable {pattern text : List Byte}

/-- The search finds what the pass finds. -/
theorem exists_stringSearch_iff (hne : pattern ≠ []) (hpattern : (0 : Byte) ∉ pattern)
    (htext : (0 : Byte) ∉ text) (beyond beyond' : List Byte) (startIndex : ℕ) :
    (∃ r, stringSearch (pattern ++ 0 :: beyond) startIndex (text ++ 0 :: beyond') = .ok r ∧
      FindsFirst pattern text startIndex r) ↔
    FindsFirst pattern text startIndex
      (indexOf (pass pattern (text.drop startIndex) startIndex 0)) := by
  rw [stringSearch_eq hne hpattern htext]
  constructor
  · rintro ⟨r, hr, hfirst⟩
    obtain rfl := Except.ok.inj hr
    exact hfirst
  · exact fun hfirst => ⟨_, rfl, hfirst⟩

/-- The patterns that the search finds in every text are those of one repeated character, such as
the ends of lines that the XBee broker looks for. -/
theorem stringSearch_everywhere_iff (hne : pattern ≠ []) (hpattern : (0 : Byte) ∉ pattern) :
    (∀ text, (0 : Byte) ∉ text → ∀ startIndex : ℕ,
      ∃ r, stringSearch (pattern ++ [0]) startIndex (text ++ [0]) = .ok r ∧
        FindsFirst pattern text startIndex r) ↔
    ∃ n c, pattern = List.replicate n c := by
  constructor
  · intro hall
    cases pattern with
    | nil => exact absurd rfl hne
    | cons c pattern =>
      have htext : (0 : Byte) ∉ c :: c :: pattern := by
        intro hmem
        rcases List.mem_cons.mp hmem with rfl | hmem
        · exact hpattern List.mem_cons_self
        · exact hpattern hmem
      have hfound := (exists_stringSearch_iff hne hpattern htext [] [] 0).mp (hall _ htext 0)
      rw [findsFirst_iff, pass_first_iff hne] at hfound
      exact ⟨_, c, eq_replicate_of_attempts hfound⟩
  · rintro ⟨n, c, rfl⟩ text htext startIndex
    rw [exists_stringSearch_iff hne hpattern htext [] [] startIndex, findsFirst_iff,
      pass_first_iff hne]
    exact fun j hj => hj.attempts_replicate

/-- For every pattern that is not empty, every text and every start: the search returns the index
of the first occurrence, or -1 if there is none, exactly if failing attempts take up the text in
front of the first occurrence. -/
theorem stringSearch_iff (hne : pattern ≠ []) (hpattern : (0 : Byte) ∉ pattern)
    (htext : (0 : Byte) ∉ text) (beyond beyond' : List Byte) (startIndex : ℕ) :
    (∃ r, stringSearch (pattern ++ 0 :: beyond) startIndex (text ++ 0 :: beyond') = .ok r ∧
      FindsFirst pattern text startIndex r) ↔
    ∀ j, IsFirst pattern text startIndex j →
      Attempts pattern ((text.drop startIndex).take (j - startIndex)) := by
  rw [exists_stringSearch_iff hne hpattern htext, findsFirst_iff, pass_first_iff hne]

end

/-- The reply `OK+DIS0:` from its first character on. -/
theorem stringSearch_reply : ∃ r, stringSearch (ascii "DIS0:" ++ [0]) (0 : ℕ)
    (ascii "OK+DIS0:" ++ [0]) = .ok r ∧ FindsFirst (ascii "DIS0:") (ascii "OK+DIS0:") 0 r := by
  refine (stringSearch_iff (by decide) (by decide) (by decide) [] [] 0).mpr fun j hj => ?_
  have hle : j ≤ 3 := by
    by_contra hlong
    exact hj.least 3 (Nat.zero_le _) (by omega) (by decide)
  have hbefore : ∀ i < 3, ¬ ascii "DIS0:" <+: (ascii "OK+DIS0:").drop i := by decide
  obtain rfl : j = 3 := by
    by_contra hne
    exact hbefore j (by omega) hj.occurs
  exact .cons (m := 0) (by decide) (by decide)
    (.cons (m := 0) (by decide) (by decide) (.cons (m := 0) (by decide) (by decide) .nil))

/-- One more `D` in front of the reply hides it. -/
theorem stringSearch_hidden : stringSearch (ascii "DIS0:" ++ [0]) 0 (ascii "OK+DDIS0:" ++ [0]) =
      .ok (-1) ∧ IsFirst (ascii "DIS0:") (ascii "OK+DDIS0:") 0 4 := by
  have hbefore : ∀ i < 4, ¬ ascii "DIS0:" <+: (ascii "OK+DDIS0:").drop i := by decide
  exact ⟨by decide +kernel, Nat.zero_le _, by decide, fun i _ hi => hbefore i hi⟩

end IoTRepublic.StringSearch
