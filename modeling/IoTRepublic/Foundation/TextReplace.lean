import IoTRepublic.Foundation.CheckedArray

/-!
Replacing a range of a terminated text. The loop copies the text into another
array and, where it comes to the range, writes the value there instead. It ends
exactly when the array has room for the new text and its terminator, and an
empty range leaves the text as it was.
-/
namespace CheckedArray

variable {α : Type} {nul : α}

/-- Copying a text out of an array, with a terminator behind it. -/
theorem copyLoop_terminated (front text behind result : List α)
    (hroom : text.length < result.length) :
    (copyLoop (front ++ (text ++ behind)) text.length front.length 0 result >>= fun out =>
      writeAt out text.length nul) = .ok (text ++ nul :: result.drop (text.length + 1)) := by
  have hcopy := copyLoop_eq (front ++ (text ++ behind)) text.length front.length 0 result
    (by simp only [List.length_append]; omega) (by omega)
  rw [List.drop_left, List.take_left, splice_zero, Int.natCast_zero] at hcopy
  have hwrite := writeAt_natCast (text ++ result.drop text.length) text.length nul
    (by simp only [List.length_append, List.length_drop]; omega)
  rw [hcopy, ok_bind, hwrite, List.set_append_right _ _ (le_refl _), Nat.sub_self,
    List.drop_eq_getElem_cons hroom, List.set_cons_zero]

/-- A text written over the front of an array, with its terminator. -/
theorem splice_set_end (temp text : List α) (hroom : text.length < temp.length) :
    (splice temp 0 text).set text.length nul = text ++ nul :: temp.drop (text.length + 1) := by
  rw [splice_zero, List.set_append_right _ _ (le_refl _), Nat.sub_self,
    List.drop_eq_getElem_cons hroom, List.set_cons_zero]

variable [DecidableEq α]

/-- The loop that copies `content` with the range from `start` to `stop` replaced by `value`. -/
def replaceLoop (nul : α) (content value : List α) (start stop : ℤ) :
    ℕ → ℤ → ℕ → ℕ → List α → Exec (List α × ℕ)
  | 0, _, _, _, _ => .error .unfinished
  | fuel + 1, i, i2, iValue, temp =>
    if i < start ∨ i ≥ stop then do
      let c ← readAt content i
      let temp ← writeAt temp i2 c
      if c = nul then .ok (temp, i2)
      else replaceLoop nul content value start stop fuel (i + 1) (i2 + 1) iValue temp
    else do
      let v ← readAt value iValue
      if v = nul then replaceLoop nul content value start stop fuel stop i2 iValue temp
      else do
        let temp ← writeAt temp i2 v
        replaceLoop nul content value start stop fuel i (i2 + 1) (iValue + 1) temp

section

variable {content value : List α} {start stop : ℤ} {i : ℤ}

theorem replaceLoop_end (fuel i2 iValue : ℕ) (temp : List α) (hi : 0 ≤ i)
    (hout : i < start ∨ i ≥ stop) (hc : content[i.toNat]? = some nul) (hroom : i2 < temp.length) :
    replaceLoop nul content value start stop (fuel + 1) i i2 iValue temp =
      .ok (temp.set i2 nul, i2) := by
  have hread := readAt_eq_ok.mpr ⟨hi, hc⟩
  simp only [replaceLoop, hout, ↓reduceIte, hread, ok_bind, writeAt_natCast temp i2 nul hroom]

/-- Characters outside the range are copied. -/
theorem replaceLoop_copy (front text behind : List α) (fuel i2 iValue : ℕ) (temp : List α)
    (hcontent : content = front ++ (text ++ behind)) (hnul : nul ∉ text)
    (hout : (front.length + text.length : ℤ) ≤ start ∨ stop ≤ front.length ∨ stop ≤ start)
    (hroom : i2 + text.length ≤ temp.length) :
    replaceLoop nul content value start stop (fuel + text.length) front.length i2 iValue temp =
      replaceLoop nul content value start stop fuel (front.length + text.length : ℕ)
        (i2 + text.length) iValue (splice temp i2 text) := by
  induction text generalizing front i2 temp fuel with
  | nil => simp
  | cons c text ih =>
    simp only [List.mem_cons, not_or, List.length_cons] at hnul hout hroom
    have hread : readAt content (front.length : ℤ) = .ok c :=
      readAt_natCast _ _ _ (by rw [hcontent]; simp)
    have houter : (front.length : ℤ) < start ∨ (front.length : ℤ) ≥ stop := by
      push_cast at hout
      omega
    have hstep := ih (front ++ [c]) fuel (i2 + 1) (temp.set i2 c)
      (by rw [hcontent]; simp) hnul.2 (by
        rw [List.length_append, List.length_singleton]
        push_cast at hout ⊢
        omega) (by rw [List.length_set]; omega)
    rw [List.length_append, List.length_singleton] at hstep
    rw [List.length_cons, ← Nat.add_assoc, replaceLoop, if_pos houter, hread, ok_bind,
      writeAt_natCast temp i2 c (by omega), ok_bind, if_neg (Ne.symm hnul.1)]
    have hnext : (front.length : ℤ) + 1 = ((front.length + 1 : ℕ) : ℤ) := by omega
    rw [hnext, hstep, splice_singleton temp i2 c (by omega)]
    have hsplice := splice_splice temp i2 [c] text (by simp; omega)
    rw [List.length_singleton] at hsplice
    rw [hsplice]
    congr 1 <;> omega

/-- Inside the range the value is written. -/
theorem replaceLoop_value (front text behind : List α) (fuel i2 : ℕ) (temp : List α)
    (hvalue : value = front ++ (text ++ behind)) (hnul : nul ∉ text)
    (hin : start ≤ i ∧ i < stop) (hroom : i2 + text.length ≤ temp.length) :
    replaceLoop nul content value start stop (fuel + text.length) i i2 front.length temp =
      replaceLoop nul content value start stop fuel i (i2 + text.length)
        (front.length + text.length) (splice temp i2 text) := by
  induction text generalizing front i2 temp with
  | nil => simp
  | cons c text ih =>
    simp only [List.mem_cons, not_or, List.length_cons] at hnul hroom
    have hread : readAt value (front.length : ℤ) = .ok c :=
      readAt_natCast _ _ _ (by rw [hvalue]; simp)
    have hinner : ¬ (i < start ∨ i ≥ stop) := by omega
    have hstep := ih (front ++ [c]) (i2 + 1) (temp.set i2 c)
      (by rw [hvalue]; simp) hnul.2 (by rw [List.length_set]; omega)
    rw [List.length_append, List.length_singleton] at hstep
    rw [List.length_cons, ← Nat.add_assoc, replaceLoop, if_neg hinner, hread, ok_bind,
      if_neg (Ne.symm hnul.1), writeAt_natCast temp i2 c (by omega), ok_bind, hstep,
      splice_singleton temp i2 c (by omega)]
    have hsplice := splice_splice temp i2 [c] text (by simp; omega)
    rw [List.length_singleton] at hsplice
    rw [hsplice]
    congr 1 <;> omega

theorem replaceLoop_jump (fuel i2 iValue : ℕ) (temp : List α) (hin : start ≤ i ∧ i < stop)
    (hv : value[iValue]? = some nul) :
    replaceLoop nul content value start stop (fuel + 1) i i2 iValue temp =
      replaceLoop nul content value start stop fuel stop i2 iValue temp := by
  have hinner : ¬ (i < start ∨ i ≥ stop) := by omega
  rw [replaceLoop, if_neg hinner, readAt_natCast _ _ _ hv, ok_bind, if_pos rfl]

end

section

variable {content value : List α} {start stop : ℤ} {i : ℤ} {r : List α × ℕ}

/-- The loop has room for the characters it copies. -/
theorem replaceLoop_copy_room (front text behind : List α) (fuel i2 iValue : ℕ)
    (temp : List α) (hcontent : content = front ++ (text ++ behind)) (hnul : nul ∉ text)
    (hout : (front.length + text.length : ℤ) ≤ start ∨ stop ≤ front.length ∨ stop ≤ start)
    (hroom : i2 ≤ temp.length)
    (hok : replaceLoop nul content value start stop fuel front.length i2 iValue temp = .ok r) :
    text.length ≤ fuel ∧ i2 + text.length ≤ temp.length := by
  induction text generalizing front i2 temp fuel with
  | nil => exact ⟨Nat.zero_le _, hroom⟩
  | cons c text ih =>
    simp only [List.mem_cons, not_or, List.length_cons] at hnul hout ⊢
    push_cast at hout
    have houter : (front.length : ℤ) < start ∨ (front.length : ℤ) ≥ stop := by omega
    have hread : readAt content (front.length : ℤ) = .ok c :=
      readAt_natCast _ _ _ (by rw [hcontent]; simp)
    cases fuel with
    | zero => cases hok
    | succ fuel =>
      rw [replaceLoop, if_pos houter, hread, ok_bind] at hok
      obtain ⟨temp', hwrite, hok⟩ := bind_eq_ok.mp hok
      obtain ⟨-, hinside, rfl⟩ := writeAt_eq_ok.mp hwrite
      rw [if_neg (Ne.symm hnul.1), Int.toNat_natCast] at hok
      rw [Int.toNat_natCast] at hinside
      have hlen : (temp.set i2 c).length = temp.length := List.length_set
      have hnext : (front ++ [c]).length = front.length + 1 := by simp
      have hstep := ih (front ++ [c]) fuel (i2 + 1) (temp.set i2 c) (by rw [hcontent]; simp)
        hnul.2 (by rw [hnext]; push_cast; omega) (by omega) (by
          rw [hnext]
          exact hok)
      omega

/-- The loop comes to its end at a terminator. -/
theorem replaceLoop_nul_mem {fuel i2 iValue : ℕ} {temp : List α}
    (hok : replaceLoop nul content value start stop fuel i i2 iValue temp = .ok r) :
    nul ∈ content := by
  induction fuel generalizing i i2 iValue temp with
  | zero => cases hok
  | succ fuel ih =>
    rw [replaceLoop] at hok
    split at hok
    · obtain ⟨c, hread, hok⟩ := bind_eq_ok.mp hok
      obtain ⟨temp', -, hok⟩ := bind_eq_ok.mp hok
      split at hok
      · rename_i hnul
        obtain ⟨-, hget⟩ := readAt_eq_ok.mp hread
        rw [← hnul]
        exact List.mem_of_getElem? hget
      · exact ih hok
    · obtain ⟨v, -, hok⟩ := bind_eq_ok.mp hok
      split at hok
      · exact ih hok
      · obtain ⟨temp', -, hok⟩ := bind_eq_ok.mp hok
        exact ih hok

/-- The loop has room for the terminator. -/
theorem replaceLoop_end_room {fuel i2 iValue : ℕ} {temp : List α} {k : ℕ}
    (hout : (k : ℤ) < start ∨ (k : ℤ) ≥ stop) (hc : content[k]? = some nul)
    (hok : replaceLoop nul content value start stop fuel k i2 iValue temp = .ok r) :
    i2 < temp.length := by
  cases fuel with
  | zero => cases hok
  | succ fuel =>
    rw [replaceLoop, if_pos hout, readAt_natCast _ _ _ hc, ok_bind] at hok
    obtain ⟨temp', hlast, -⟩ := bind_eq_ok.mp hok
    have hinside := (writeAt_eq_ok.mp hlast).2.1
    rwa [Int.toNat_natCast] at hinside

/-- The loop has room for the value, which ends at a terminator. -/
theorem replaceLoop_value_room (front text : List α) (fuel i2 : ℕ) (temp : List α)
    (hvalue : value = front ++ text) (hin : start ≤ i ∧ i < stop)
    (hroom : i2 ≤ temp.length)
    (hok : replaceLoop nul content value start stop fuel i i2 front.length temp = .ok r) :
    ∃ v vrest, text = v ++ nul :: vrest ∧ nul ∉ v ∧ v.length < fuel ∧
      i2 + v.length ≤ temp.length := by
  have hinner : ¬ (i < start ∨ i ≥ stop) := by omega
  induction fuel generalizing front text i2 temp with
  | zero => cases hok
  | succ fuel ih =>
    rw [replaceLoop, if_neg hinner] at hok
    obtain ⟨c, hread, hok⟩ := bind_eq_ok.mp hok
    obtain ⟨-, hchar⟩ := readAt_eq_ok.mp hread
    rw [Int.toNat_natCast, hvalue, List.getElem?_append_right le_rfl, Nat.sub_self] at hchar
    obtain ⟨rest, rfl⟩ : ∃ rest, text = c :: rest := by
      cases text with
      | nil => cases hchar
      | cons d rest => exact ⟨rest, by rw [Option.some.inj hchar]⟩
    by_cases hc : c = nul
    · exact ⟨[], rest, by rw [hc]; rfl, by simp, Nat.succ_pos _, hroom⟩
    · rw [if_neg hc] at hok
      obtain ⟨temp', hwrite, hok⟩ := bind_eq_ok.mp hok
      obtain ⟨-, hinside, rfl⟩ := writeAt_eq_ok.mp hwrite
      rw [Int.toNat_natCast] at hok hinside
      have hlen : (temp.set i2 c).length = temp.length := List.length_set
      have hnext : (front ++ [c]).length = front.length + 1 := by simp
      obtain ⟨v, vrest, rfl, hnul, hfuel, hinside'⟩ := ih (front ++ [c]) rest (i2 + 1)
        (temp.set i2 c) (by rw [hvalue]; simp) (by omega) (by
          rw [hnext]
          exact hok)
      refine ⟨c :: v, vrest, rfl, by simp [hnul, Ne.symm hc], ?_, ?_⟩
      · rw [List.length_cons]
        omega
      · rw [List.length_cons]
        omega

end

/-- The loop replaces the text of the range by the value and keeps the rest. -/
theorem replaceLoop_replace (front old behind rest v vrest temp : List α)
    (hold : old ≠ []) (hfront : nul ∉ front) (hbehind : nul ∉ behind) (hv : nul ∉ v)
    (fuel : ℕ) (hfuel : temp.length + 1 < fuel)
    (hroom : front.length + v.length + behind.length < temp.length) :
    replaceLoop nul (front ++ (old ++ (behind ++ nul :: rest))) (v ++ nul :: vrest)
        front.length (front.length + old.length) fuel 0 0 0 temp =
      .ok (front ++ v ++ behind ++ nul :: temp.drop (front ++ v ++ behind).length.succ,
        (front ++ v ++ behind).length) := by
  have hpos : 0 < old.length := List.length_pos_iff.mpr hold
  have hlen : (front ++ v ++ behind).length = front.length + v.length + behind.length := by
    simp only [List.length_append]
  obtain ⟨k, rfl⟩ : ∃ k, fuel = k + 1 + behind.length + 1 + v.length + front.length :=
    ⟨fuel - 2 - (front.length + v.length + behind.length), by omega⟩
  generalize hcontent : front ++ (old ++ (behind ++ nul :: rest)) = content
  generalize hvalue : v ++ nul :: vrest = value
  obtain ⟨stop, hstop⟩ : ∃ stop : ℤ, stop = front.length + old.length := ⟨_, rfl⟩
  obtain ⟨start, hstart⟩ : ∃ start : ℤ, start = front.length := ⟨_, rfl⟩
  rw [← hstop, ← hstart]
  have hsplit : content = (front ++ old) ++ (behind ++ nul :: rest) := by
    rw [← hcontent, List.append_assoc]
  have hnul : content[((front ++ old).length + behind.length : ℕ)]? = some nul := by
    rw [hsplit, ← List.append_assoc, ← List.length_append, List.getElem?_append_right le_rfl,
      Nat.sub_self]
    rfl
  calc replaceLoop nul content value start stop _ 0 0 0 temp
      = replaceLoop nul content value start stop (k + 1 + behind.length + 1 + v.length) front.length
          front.length 0 (splice temp 0 front) := by
        have hcopy : replaceLoop nul content value start stop _ _ _ _ _ = _ :=
          replaceLoop_copy [] front _ (k + 1 + behind.length + 1 + v.length) 0 0 temp
            hcontent.symm hfront (by simp [hstart]) (by omega)
        simpa using hcopy
    _ = replaceLoop nul content value start stop (k + 1 + behind.length + 1) front.length
          (front.length + v.length) v.length (splice temp 0 (front ++ v)) := by
        have hwrite : replaceLoop nul content value start stop _ front.length _ _ _ = _ :=
          replaceLoop_value [] v _ (k + 1 + behind.length + 1) front.length
            (splice temp 0 front) hvalue.symm hv (by omega) (by
              rw [splice_length _ _ _ (by omega)]
              omega)
        have hsplice := splice_splice temp 0 front v (by omega)
        rw [Nat.zero_add] at hsplice
        simpa [hsplice] using hwrite
    _ = replaceLoop nul content value start stop (k + 1 + behind.length) stop
          (front.length + v.length) v.length (splice temp 0 (front ++ v)) :=
        replaceLoop_jump _ _ _ _ (by omega) (by rw [← hvalue]; simp)
    _ = replaceLoop nul content value start stop (k + 1)
          ((front ++ old).length + behind.length : ℕ) (front ++ v ++ behind).length v.length
          (splice temp 0 (front ++ v ++ behind)) := by
        have hcopy : replaceLoop nul content value start stop _ _ _ _ _ = _ :=
          replaceLoop_copy (front ++ old) behind _ (k + 1) (front ++ v).length v.length
            (splice temp 0 (front ++ v)) hsplit hbehind
            (by rw [List.length_append, hstop]; right; left; push_cast; omega)
            (by rw [splice_length _ _ _ (by simp only [List.length_append]; omega)]
                simp only [List.length_append]
                omega)
        have hsplice := splice_splice temp 0 (front ++ v) behind
          (by simp only [List.length_append]; omega)
        rw [Nat.zero_add] at hsplice
        rw [hsplice] at hcopy
        simpa [hstop, Nat.add_assoc, Int.add_assoc] using hcopy
    _ = .ok (front ++ v ++ behind ++ nul :: temp.drop (front ++ v ++ behind).length.succ,
          (front ++ v ++ behind).length) := by
        rw [replaceLoop_end _ _ _ _ (by omega) (by
            rw [hstop, List.length_append]
            right
            push_cast
            omega) (by
            rw [Int.toNat_natCast]
            exact hnul) (by
            rw [splice_length _ _ _ (by omega)]
            omega), splice_set_end _ _ (by omega)]

/-- Where the range is empty, nothing is replaced. -/
theorem replaceLoop_empty {start stop : ℤ} (text rest value temp : List α) (fuel : ℕ)
    (hempty : stop ≤ start) (hnul : nul ∉ text) (hroom : text.length < temp.length)
    (hfuel : temp.length + 1 < fuel) :
    replaceLoop nul (text ++ nul :: rest) value start stop fuel 0 0 0 temp =
      .ok (text ++ nul :: temp.drop text.length.succ, text.length) := by
  obtain ⟨k, rfl⟩ : ∃ k, fuel = k + 1 + text.length := ⟨fuel - 1 - text.length, by omega⟩
  have hcopy : replaceLoop nul (text ++ nul :: rest) value start stop _ _ _ _ _ = _ :=
    replaceLoop_copy [] text (nul :: rest) (k + 1) 0 0 temp rfl hnul (.inr (.inr hempty))
      (by omega)
  rw [List.length_nil, Int.natCast_zero, Nat.zero_add] at hcopy
  rw [hcopy, replaceLoop_end k _ _ _ (by omega) (by omega) (by simp) (by
    rw [splice_length _ _ _ (by omega)]
    exact hroom), splice_set_end temp text hroom]

/-- Where the loop comes to its end and the range is empty, the text had room. -/
theorem replaceLoop_empty_room {start stop : ℤ} (text rest value temp : List α) (fuel : ℕ)
    (r : List α × ℕ) (hempty : stop ≤ start) (hnul : nul ∉ text)
    (hok : replaceLoop nul (text ++ nul :: rest) value start stop fuel 0 0 0 temp = .ok r) :
    text.length < temp.length := by
  obtain ⟨hfuel, hroom⟩ := replaceLoop_copy_room [] text (nul :: rest) fuel 0 0 temp rfl hnul
    (.inr (.inr hempty)) (Nat.zero_le _) hok
  rw [Nat.zero_add] at hroom
  obtain ⟨fuel, rfl⟩ := Nat.exists_eq_add_of_le' hfuel
  have hcopy : replaceLoop nul (text ++ nul :: rest) value start stop _ _ _ _ _ = _ :=
    replaceLoop_copy [] text (nul :: rest) fuel 0 0 temp rfl hnul (.inr (.inr hempty)) (by omega)
  rw [List.length_nil, Int.natCast_zero, Nat.zero_add] at hcopy
  rw [hcopy] at hok
  have hlast := replaceLoop_end_room (by omega) (by simp) hok
  rwa [splice_length _ _ _ (by omega)] at hlast

/-- Where the loop comes to its end, the value ended at a terminator and the new text had
room. -/
theorem replaceLoop_room (front old behind rest value temp : List α) (fuel : ℕ)
    (r : List α × ℕ) (hold : old ≠ []) (hfront : nul ∉ front)
    (hbehind : nul ∉ behind)
    (hok : replaceLoop nul (front ++ (old ++ (behind ++ nul :: rest))) value
      front.length (front.length + old.length) fuel 0 0 0 temp = .ok r) :
    ∃ v vrest, value = v ++ nul :: vrest ∧ nul ∉ v ∧
      front.length + v.length + behind.length < temp.length := by
  have hpos : 0 < old.length := List.length_pos_iff.mpr hold
  generalize hcontent : front ++ (old ++ (behind ++ nul :: rest)) = content at hok
  obtain ⟨stop, hstop⟩ : ∃ stop : ℤ, stop = front.length + old.length := ⟨_, rfl⟩
  obtain ⟨start, hstart⟩ : ∃ start : ℤ, start = front.length := ⟨_, rfl⟩
  rw [← hstop, ← hstart] at hok
  have hsplit : content = (front ++ old) ++ (behind ++ nul :: rest) := by
    rw [← hcontent, List.append_assoc]
  -- the text in front of the range
  obtain ⟨hfuel, hroom⟩ := replaceLoop_copy_room [] front _ fuel 0 0 temp hcontent.symm hfront
    (by simp [hstart]) (Nat.zero_le _) hok
  rw [Nat.zero_add] at hroom
  obtain ⟨fuel, rfl⟩ := Nat.exists_eq_add_of_le' hfuel
  have hcopy : replaceLoop nul content value start stop _ _ _ _ _ = _ :=
    replaceLoop_copy [] front _ fuel 0 0 temp hcontent.symm hfront (by simp [hstart]) (by omega)
  rw [List.length_nil, Int.natCast_zero, Nat.zero_add] at hcopy
  rw [hcopy] at hok
  -- the value
  have htemp := splice_length temp 0 front (by omega)
  obtain ⟨v, vrest, hvalue, hnul, hfuel, hroom⟩ := replaceLoop_value_room [] value fuel front.length
    (splice temp 0 front) rfl (by omega) (by omega) hok
  obtain ⟨fuel, rfl⟩ := Nat.exists_eq_add_of_le' (Nat.succ_le_of_lt hfuel)
  refine ⟨v, vrest, hvalue, hnul, ?_⟩
  have hwrite : replaceLoop nul content value start stop (fuel + 1 + v.length) front.length
      front.length 0 (splice temp 0 front) = _ :=
    replaceLoop_value [] v (nul :: vrest) (fuel + 1) front.length (splice temp 0 front) hvalue hnul
      (by omega) hroom
  have hsplice := splice_splice temp 0 front v (by omega)
  rw [Nat.zero_add] at hsplice
  rw [List.length_nil, Nat.zero_add, hsplice] at hwrite
  rw [Nat.succ_eq_add_one, Nat.add_comm v.length 1, ← Nat.add_assoc, hwrite,
    replaceLoop_jump fuel _ _ _ (by omega) (by rw [hvalue]; simp)] at hok
  -- the text behind the range, with its terminator
  have hfront' : (front ++ old).length = front.length + old.length := List.length_append
  have hstop' : stop = ((front ++ old).length : ℕ) := by
    rw [hstop, hfront']
    push_cast
    rfl
  have htemp' := splice_length temp 0 (front ++ v) (by simp only [List.length_append]; omega)
  nth_rewrite 2 [hstop'] at hok
  obtain ⟨hfuel, hroom⟩ := replaceLoop_copy_room (front ++ old) behind _ fuel
    (front.length + v.length) v.length _ hsplit hbehind (.inr (.inl (Int.le_of_eq hstop')))
    (by omega) hok
  obtain ⟨fuel, rfl⟩ := Nat.exists_eq_add_of_le' hfuel
  rw [replaceLoop_copy (front ++ old) behind _ fuel (front.length + v.length) v.length _ hsplit
    hbehind (.inr (.inl (Int.le_of_eq hstop'))) hroom] at hok
  have hnulAt : content[((front ++ old).length + behind.length : ℕ)]? = some nul := by
    rw [hsplit, ← List.append_assoc, ← List.length_append, List.getElem?_append_right le_rfl,
      Nat.sub_self]
    rfl
  have hlast := replaceLoop_end_room (.inr (by rw [hstop']; push_cast; omega)) hnulAt hok
  have hend := splice_length (splice temp 0 (front ++ v)) (front.length + v.length) behind hroom
  omega

end CheckedArray
