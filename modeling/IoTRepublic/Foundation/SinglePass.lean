import Mathlib.Data.List.Basic
import Mathlib.Data.Nat.Find
import Mathlib.Tactic.Common

/-!
A search in one pass, which does not step back. It goes along the pattern as far
as the text agrees, and behind the first character that does not agree it begins
again. It finds the first occurrence exactly if what stands in front of it is
taken up by attempts that fail.
-/
namespace SinglePass

variable {α : Type}

/-- The pass from a place on at which `q` characters of the pattern have been met. -/
def pass [DecidableEq α] (pattern : List α) : List α → ℕ → ℕ → Option ℕ
  | [], _, _ => none
  | c :: text, i, q =>
    if pattern[q]? = some c then
      if q + 1 = pattern.length then some (i - q) else pass pattern text (i + 1) (q + 1)
    else pass pattern text (i + 1) 0

/-- The first place from `start` on at which the pattern occurs. -/
structure IsFirst (pattern text : List α) (start j : ℕ) : Prop where
  le : start ≤ j
  occurs : pattern <+: text.drop j
  least : ∀ i, start ≤ i → i < j → ¬ pattern <+: text.drop i

/-- A text that failing attempts take up: each goes along the pattern, but not to its end, and
comes to a character that does not go on with it. -/
inductive Attempts (pattern : List α) : List α → Prop
  | nil : Attempts pattern []
  | cons {m : ℕ} {c : α} {rest : List α} (hm : m < pattern.length) (hc : pattern[m]? ≠ some c)
      (hrest : Attempts pattern rest) : Attempts pattern (pattern.take m ++ c :: rest)

section

variable {pattern text gap tail : List α} {i j q m : ℕ} {c : α}

theorem take_append_cons (hc : pattern[q]? = some c) (text : List α) :
    pattern.take (q + 1) ++ text = pattern.take q ++ c :: text := by
  obtain ⟨hq, rfl⟩ := List.getElem?_eq_some_iff.mp hc
  rw [← List.take_append_getElem hq, List.append_assoc, List.singleton_append]

theorem getElem?_take_append (hq : q < pattern.length) :
    (pattern.take q ++ c :: text)[q]? = some c := by
  rw [List.getElem?_append_right (List.length_take_le _ _), List.length_take,
    min_eq_left (Nat.le_of_lt hq), Nat.sub_self]
  rfl

variable [DecidableEq α]

/-- Behind failing attempts the pass finds the pattern. -/
theorem pass_of_attempts (hgap : Attempts pattern gap) (hq : q < pattern.length) (hi : q ≤ i)
    (h : pattern.take q ++ text = gap ++ (pattern ++ tail)) :
    pass pattern text i q = some (i + gap.length - q) := by
  induction text generalizing gap i q with
  | nil =>
    have hlength := congrArg List.length h
    simp only [List.length_append, List.length_take, List.length_nil] at hlength
    omega
  | cons c text ih =>
    have hplace : (gap ++ (pattern ++ tail))[q]? = some c := by
      rw [← h]
      exact getElem?_take_append hq
    rw [pass]
    cases hgap with
    | nil =>
      rw [List.nil_append, List.getElem?_append_left hq] at hplace
      rw [if_pos hplace]
      by_cases hlast : q + 1 = pattern.length
      · rw [if_pos hlast, List.length_nil, Nat.add_zero]
      · rw [if_neg hlast, ih .nil (by omega) (by omega) (by rw [take_append_cons hplace, h])]
        congr 1
        omega
    | @cons m d rest hm hd hrest =>
      rw [List.append_assoc] at h hplace
      rcases Nat.lt_trichotomy q m with hlt | rfl | hgt
      · rw [List.getElem?_append_left (by rw [List.length_take]; omega),
          List.getElem?_take_of_lt hlt] at hplace
        rw [if_pos hplace, if_neg (by omega), ih (.cons hm hd hrest) (by omega) (by omega) (by
          rw [take_append_cons hplace, h, List.append_assoc])]
        congr 1
        omega
      · obtain ⟨rfl, htext⟩ := List.cons.inj (List.append_cancel_left h)
        rw [if_neg hd, ih hrest (by omega) (by omega) (by
          rw [List.take_zero, List.nil_append, htext]
          rfl)]
        simp only [List.length_append, List.length_take, List.length_cons]
        congr 1
        omega
      · have hother : (pattern.take q ++ c :: text)[m]? =
            (pattern.take m ++ (d :: rest ++ (pattern ++ tail)))[m]? := by rw [h]
        rw [List.getElem?_append_left (by rw [List.length_take]; omega),
          List.getElem?_take_of_lt hgt, List.cons_append, getElem?_take_append hm] at hother
        exact absurd hother hd

/-- What the pass finds stands behind failing attempts. -/
theorem attempts_of_pass (hq : q < pattern.length) (hi : q ≤ i)
    (h : pass pattern text i q = some j) : ∃ gap tail, Attempts pattern gap ∧
      pattern.take q ++ text = gap ++ (pattern ++ tail) ∧ j + q = i + gap.length := by
  induction text generalizing i q with
  | nil => cases h
  | cons c text ih =>
    rw [pass] at h
    split at h
    · rename_i hc
      rw [← take_append_cons hc]
      split at h
      · rename_i hlast
        obtain rfl := Option.some.inj h
        refine ⟨[], text, .nil, ?_, by rw [List.length_nil]; omega⟩
        rw [hlast, List.take_length, List.nil_append]
      · obtain ⟨gap, tail, hgap, hsplit, hj⟩ := ih (by omega) (by omega) h
        exact ⟨gap, tail, hgap, hsplit, by omega⟩
    · rename_i hc
      obtain ⟨gap, tail, hgap, hsplit, hj⟩ := ih (by omega) (by omega) h
      rw [List.take_zero, List.nil_append] at hsplit
      refine ⟨_, tail, .cons hq hc hgap, ?_, ?_⟩
      · rw [hsplit, List.append_assoc, List.cons_append]
      · simp only [List.length_append, List.length_take, List.length_cons]
        omega

end

variable {pattern text : List α} {start j : ℕ}

/-- A pattern that occurs has a first occurrence. -/
theorem exists_isFirst (hle : start ≤ j) (hoccurs : pattern <+: text.drop j) :
    ∃ first, IsFirst pattern text start first := by
  classical
  have hex : ∃ i, start ≤ i ∧ pattern <+: text.drop i := ⟨j, hle, hoccurs⟩
  obtain ⟨hfirst, hprefix⟩ := Nat.find_spec hex
  refine ⟨Nat.find hex, hfirst, hprefix, fun i hi hlt hbefore => ?_⟩
  exact Nat.find_min hex hlt ⟨hi, hbefore⟩

/-- The pass finds the first occurrence, or that there is none, exactly if failing attempts take
up what stands in front of it. -/
theorem pass_first_iff [DecidableEq α] (hne : pattern ≠ []) :
    ((∀ j, IsFirst pattern text start j → pass pattern (text.drop start) start 0 = some j) ∧
      ((∀ j, ¬ IsFirst pattern text start j) → pass pattern (text.drop start) start 0 = none)) ↔
    ∀ j, IsFirst pattern text start j → Attempts pattern ((text.drop start).take (j - start)) := by
  have hpos : 0 < pattern.length := List.length_pos_iff.mpr hne
  constructor
  · rintro ⟨hfound, -⟩ j hj
    obtain ⟨gap, tail, hgap, hsplit, hplace⟩ :=
      attempts_of_pass hpos (Nat.zero_le _) (hfound j hj)
    rw [List.take_zero, List.nil_append] at hsplit
    have hlength : j - start = gap.length := by omega
    rwa [hsplit, hlength, List.take_left]
  · intro hattempts
    refine ⟨fun j hj => ?_, fun hnone => ?_⟩
    · obtain ⟨tail, htail⟩ := hj.occurs
      have hle := hj.le
      have hsplit : pattern.take 0 ++ text.drop start =
          (text.drop start).take (j - start) ++ (pattern ++ tail) := by
        have hrest : text.drop j = (text.drop start).drop (j - start) := by
          rw [List.drop_drop]
          congr 1
          omega
        rw [htail, hrest, List.take_append_drop, List.take_zero, List.nil_append]
      have hpass := pass_of_attempts (hattempts j hj) hpos (Nat.zero_le start) hsplit
      rw [hpass, List.length_take, List.length_drop]
      have hinside := hj.occurs.length_le
      rw [List.length_drop] at hinside
      congr 1
      omega
    · cases hpass : pass pattern (text.drop start) start 0 with
      | none => rfl
      | some j =>
        obtain ⟨gap, tail, -, hsplit, hplace⟩ := attempts_of_pass hpos (Nat.zero_le _) hpass
        rw [List.take_zero, List.nil_append] at hsplit
        have hoccurs : pattern <+: text.drop j := by
          have hdrop : text.drop j = (text.drop start).drop gap.length := by
            rw [List.drop_drop, ← hplace, Nat.add_zero]
          rw [hdrop, hsplit, List.drop_left]
          exact List.prefix_append _ _
        obtain ⟨first, hfirst⟩ := exists_isFirst (show start ≤ j by omega) hoccurs
        exact absurd hfirst (hnone first)

section

variable {gap : List α} {c : α} {n : ℕ}

theorem leading_run [DecidableEq α] (c : α) (gap : List α) : ∃ m, gap = List.replicate m c ∨
    ∃ d rest, d ≠ c ∧ gap = List.replicate m c ++ d :: rest := by
  induction gap with
  | nil => exact ⟨0, .inl rfl⟩
  | cons d gap ih =>
    by_cases hd : d = c
    · obtain ⟨m, rfl | ⟨e, rest, he, rfl⟩⟩ := ih
      · exact ⟨m + 1, .inl (by rw [hd, List.replicate_succ])⟩
      · exact ⟨m + 1, .inr ⟨e, rest, he, by rw [hd, List.replicate_succ, List.cons_append]⟩⟩
    · exact ⟨0, .inr ⟨d, gap, hd, rfl⟩⟩

/-- Attempts at a pattern of one repeated character never run into its first occurrence. -/
theorem attempts_replicate [DecidableEq α] (hfirst : ∀ i < gap.length,
      ¬ List.replicate n c <+: (gap ++ List.replicate n c).drop i) :
    Attempts (List.replicate n c) gap := by
  induction hlength : gap.length using Nat.strong_induction_on generalizing gap with
  | _ k ih =>
    obtain ⟨m, hrun | ⟨d, rest, hd, hrun⟩⟩ := leading_run c gap
    · rcases Nat.eq_zero_or_pos m with rfl | hpos
      · rw [hrun]
        exact .nil
      · refine absurd ?_ (hfirst 0 (by rw [hrun, List.length_replicate]; exact hpos))
        rw [List.drop_zero, hrun, List.replicate_append_replicate, Nat.add_comm,
          ← List.replicate_append_replicate]
        exact List.prefix_append _ _
    · have hshort : m < n := by
        by_contra hlong
        refine hfirst 0 (by rw [hrun, List.length_append, List.length_cons]; omega) ?_
        obtain ⟨l, rfl⟩ := Nat.exists_eq_add_of_le (Nat.le_of_not_lt hlong)
        rw [List.drop_zero, hrun, ← List.replicate_append_replicate, List.append_assoc,
          List.append_assoc]
        exact List.prefix_append _ _
      have hfront : List.replicate m c = (List.replicate n c).take m := by
        rw [List.take_replicate, min_eq_left (Nat.le_of_lt hshort)]
      have hplace : (List.replicate m c).length = m := List.length_replicate
      have hgap : gap.length = m + (rest.length + 1) := by
        rw [hrun, List.length_append, List.length_cons, hplace]
      rw [hrun, hfront]
      refine .cons (by rwa [List.length_replicate]) ?_ (ih rest.length (by omega) ?_ rfl)
      · rw [List.getElem?_replicate_of_lt hshort]
        exact fun h => hd (Option.some.inj h).symm
      · intro i hi
        have hlater := hfirst (m + (i + 1)) (by omega)
        rw [hrun, List.append_assoc, ← List.drop_drop] at hlater
        rwa [List.drop_left' hplace, List.cons_append, List.drop_succ_cons] at hlater

theorem eq_of_prefix_cons (h : text <+: c :: text) : ∀ d ∈ text, d = c := by
  induction text generalizing c with
  | nil => exact nofun
  | cons e text ih =>
    obtain ⟨rfl, htail⟩ := List.cons_prefix_cons.mp h
    intro d hd
    rcases List.mem_cons.mp hd with rfl | hd
    · rfl
    · exact ih htail d hd

/-- A pattern of one repeated character is found in every text. -/
theorem IsFirst.attempts_replicate [DecidableEq α] (h : IsFirst (List.replicate n c) text start j) :
    Attempts (List.replicate n c) ((text.drop start).take (j - start)) := by
  obtain ⟨hle, ⟨tail, htail⟩, hleast⟩ := h
  have hsplit : text.drop start =
      (text.drop start).take (j - start) ++ (List.replicate n c ++ tail) := by
    have hrest : text.drop j = (text.drop start).drop (j - start) := by
      rw [List.drop_drop]
      congr 1
      omega
    rw [htail, hrest, List.take_append_drop]
  obtain ⟨gap, hgap⟩ : ∃ gap, gap = (text.drop start).take (j - start) := ⟨_, rfl⟩
  have hlength : gap.length ≤ j - start := by
    rw [hgap]
    exact List.length_take_le _ _
  rw [← hgap] at hsplit ⊢
  refine SinglePass.attempts_replicate fun i hi hoccurs => ?_
  have hdrop : (gap ++ List.replicate n c ++ tail).drop i =
      (gap ++ List.replicate n c).drop i ++ tail :=
    List.drop_append_of_le_length (by rw [List.length_append]; omega)
  refine hleast (start + i) (by omega) (by omega) (hoccurs.trans ?_)
  rw [← List.drop_drop, hsplit, ← List.append_assoc, hdrop]
  exact List.prefix_append _ _

/-- Any other pattern is missed behind its own first character. -/
theorem eq_replicate_of_attempts (hattempts : ∀ j, IsFirst (c :: pattern) (c :: c :: pattern) 0 j →
      Attempts (c :: pattern) ((c :: c :: pattern).take j)) :
    c :: pattern = List.replicate (pattern.length + 1) c := by
  by_cases hself : c :: pattern <+: c :: c :: pattern
  · exact List.eq_replicate_of_mem (eq_of_prefix_cons hself)
  · have hfirst : IsFirst (c :: pattern) (c :: c :: pattern) 0 1 := by
      refine ⟨Nat.zero_le _, List.prefix_rfl, fun i _ hi => ?_⟩
      obtain rfl : i = 0 := by omega
      exact hself
    have hgap : Attempts (c :: pattern) [c] := hattempts 1 hfirst
    generalize hc : [c] = gap at hgap
    cases hgap with
    | nil => cases hc
    | @cons m d rest hm hd hrest =>
      cases m with
      | zero =>
        obtain ⟨rfl, -⟩ := List.cons.inj hc
        exact absurd rfl hd
      | succ m =>
        have hlength := congrArg List.length hc
        simp only [List.length_append, List.length_take, List.length_cons,
          List.length_nil] at hlength hm
        omega

end

end SinglePass
