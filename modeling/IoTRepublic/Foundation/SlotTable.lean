import Mathlib.Data.Fin.Tuple.Basic
import Mathlib.Logic.Function.Basic
import Mathlib.Tactic.Common

/-!
A table of slots searched from the lowest on. Entries are found by a property
of theirs and put into the slot of an entry with the same key, or into the
lowest free slot. As long as no two entries have the same key, the table is a
map: a lookup of a key depends on the entries alone, not on the slots they
stand in.
-/

namespace SlotTable

variable {n : ℕ} {α κ : Type*}

/-- The lowest slot whose entry has the property. -/
def firstIndex (table : Fin n → Option α) (p : α → Prop) [DecidablePred p] : Option (Fin n) :=
  Fin.find? (fun i => (table i).any (fun d => p d))

def firstFree (table : Fin n → Option α) : Option (Fin n) :=
  Fin.find? (fun i => (table i).isNone)

def find (table : Fin n → Option α) (p : α → Prop) [DecidablePred p] : Option α :=
  (firstIndex table p).bind table

/-- No two entries have the same key. -/
def Keyed (key : α → κ) (table : Fin n → Option α) : Prop :=
  ∀ i j d e, table i = some d → table j = some e → key d = key e → i = j

section

variable {table : Fin n → Option α} {p : α → Prop} [DecidablePred p] {i j : Fin n} {d e : α}

theorem firstIndex_eq_some (h : firstIndex table p = some i) :
    ∃ d, table i = some d ∧ p d ∧ ∀ j, j < i → ∀ e, table j = some e → ¬ p e := by
  obtain ⟨hany, hbefore⟩ := Fin.find?_eq_some_iff.mp h
  obtain ⟨d, hd, hp⟩ := (Option.any_eq_true ..).mp hany
  refine ⟨d, hd, by simpa using hp, ?_⟩
  intro j hj e he
  have hnot := hbefore j hj
  rw [he] at hnot
  simpa using hnot

theorem firstIndex_eq_none (h : firstIndex table p = none) (hd : table i = some d) : ¬ p d := by
  have hnone := Fin.eq_false_of_find?_eq_none h i
  rw [hd] at hnone
  simpa using hnone

theorem firstFree_eq_some (h : firstFree table = some i) : table i = none :=
  Option.isNone_iff_eq_none.mp (Fin.eq_true_of_find?_eq_some h)

theorem firstFree_eq_none (h : firstFree table = none) (i : Fin n) : table i ≠ none := by
  have hsome := Fin.eq_false_of_find?_eq_none h i
  intro hnone
  rw [hnone] at hsome
  cases hsome

theorem find_eq_some (h : find table p = some d) : ∃ i, table i = some d ∧ p d := by
  obtain ⟨i, hi, hd⟩ := Option.bind_eq_some_iff.mp h
  obtain ⟨e, he, hp, -⟩ := firstIndex_eq_some hi
  obtain rfl := Option.some.inj (hd.symm.trans he)
  exact ⟨i, hd, hp⟩

theorem find_eq_none_iff : find table p = none ↔ ∀ i d, table i = some d → ¬ p d := by
  constructor
  · intro h i d hd hp
    cases hindex : firstIndex table p with
    | none => exact firstIndex_eq_none hindex hd hp
    | some j =>
      obtain ⟨e, he, -⟩ := firstIndex_eq_some hindex
      rw [find, hindex, Option.bind_some, he] at h
      cases h
  · intro h
    cases hfind : find table p with
    | none => rfl
    | some d =>
      obtain ⟨i, hd, hp⟩ := find_eq_some hfind
      exact absurd hp (h i d hd)

/-- A search that can hit one entry only finds it. -/
theorem find_of_unique (hd : table i = some d) (hp : p d)
    (hunique : ∀ j e, table j = some e → p e → j = i) : find table p = some d := by
  cases hfind : find table p with
  | none => exact absurd hp (find_eq_none_iff.mp hfind i d hd)
  | some e =>
    obtain ⟨j, he, hpe⟩ := find_eq_some hfind
    obtain rfl := hunique j e he hpe
    exact he.symm.trans hd

theorem firstIndex_of_unique (hd : table i = some d) (hp : p d)
    (hunique : ∀ j e, table j = some e → p e → j = i) : firstIndex table p = some i := by
  cases hindex : firstIndex table p with
  | none => exact absurd hp (firstIndex_eq_none hindex hd)
  | some j =>
    obtain ⟨e, he, hpe, -⟩ := firstIndex_eq_some hindex
    rw [hunique j e he hpe]

theorem update_eq_some {x : Option α} (h : Function.update table i x j = some e) :
    j = i ∧ x = some e ∨ j ≠ i ∧ table j = some e := by
  by_cases hj : j = i
  · rw [hj, Function.update_self] at h
    exact .inl ⟨hj, h⟩
  · rw [Function.update_of_ne hj] at h
    exact .inr ⟨hj, h⟩

/-- A change of one slot is not seen by a search that neither the old nor the new entry meets. -/
theorem find_update_of_not (hnew : ¬ p d) (hold : ∀ e, table i = some e → ¬ p e) :
    find (Function.update table i (some d)) p = find table p := by
  have hsame : ∀ j, (Function.update table i (some d) j).any (fun e => p e) =
      (table j).any (fun e => p e) := by
    intro j
    by_cases hj : j = i
    · rw [hj, Function.update_self]
      cases he : table i with
      | none => simp [hnew]
      | some e => simp [hnew, hold e he]
    · rw [Function.update_of_ne hj]
  have hindex : firstIndex (Function.update table i (some d)) p = firstIndex table p := by
    rw [firstIndex, firstIndex, funext hsame]
  rw [find, find, hindex]
  cases hfound : firstIndex table p with
  | none => rfl
  | some j =>
    obtain ⟨e, he, hp, -⟩ := firstIndex_eq_some hfound
    have hj : j ≠ i := by
      rintro rfl
      exact hold e he hp
    exact Function.update_of_ne hj ..

end

section

variable {key : α → κ} {table : Fin n → Option α} {i : Fin n} {d e : α}

theorem keyed_empty : Keyed key (fun _ : Fin n => none) := by
  intro i j d e hd
  cases hd

/-- A new entry keeps the keys apart if no other slot holds its key. -/
theorem Keyed.update (h : Keyed key table)
    (hother : ∀ j e, j ≠ i → table j = some e → key e ≠ key d) :
    Keyed key (Function.update table i (some d)) := by
  intro j k e e' he he' hkey
  rcases update_eq_some he with ⟨hj, hed⟩ | ⟨hj, he⟩ <;>
    rcases update_eq_some he' with ⟨hk, hed'⟩ | ⟨hk, he'⟩
  · exact hj.trans hk.symm
  · obtain rfl := Option.some.inj hed
    exact absurd hkey.symm (hother k e' hk he')
  · obtain rfl := Option.some.inj hed'
    exact absurd hkey (hother j e hj he)
  · exact h j k e e' he he' hkey

theorem Keyed.erase (h : Keyed key table) : Keyed key (Function.update table i none) := by
  intro j k e e' he he' hkey
  rcases update_eq_some he with ⟨-, hnone⟩ | ⟨-, he⟩
  · cases hnone
  rcases update_eq_some he' with ⟨-, hnone⟩ | ⟨-, he'⟩
  · cases hnone
  exact h j k e e' he he' hkey

variable [DecidableEq κ]

theorem Keyed.find_eq_some_iff (h : Keyed key table) {k : κ} :
    find table (fun d => key d = k) = some d ↔ key d = k ∧ ∃ i, table i = some d := by
  constructor
  · intro hfind
    obtain ⟨i, hd, hk⟩ := find_eq_some hfind
    exact ⟨hk, i, hd⟩
  · rintro ⟨rfl, i, hd⟩
    exact find_of_unique hd rfl (fun j e he hkey => h j i e d he hd hkey)

theorem Keyed.firstIndex_eq (h : Keyed key table) (hd : table i = some d) :
    firstIndex table (fun e => key e = key d) = some i :=
  firstIndex_of_unique hd rfl (fun j e he hkey => h j i e d he hd hkey)

/-- After a change of one slot the new entry is found under its key. -/
theorem Keyed.find_update (h : Keyed key (Function.update table i (some d))) :
    find (Function.update table i (some d)) (fun e => key e = key d) = some d :=
  h.find_eq_some_iff.mpr ⟨rfl, i, Function.update_self ..⟩

/-- A change of one slot is seen only under the keys of the old and the new entry. -/
theorem Keyed.find_update_of_ne (h : Keyed key table) {x : Option α}
    (h' : Keyed key (Function.update table i x)) {k : κ}
    (hold : ∀ e, table i = some e → key e ≠ k) (hnew : ∀ e, x = some e → key e ≠ k) :
    find (Function.update table i x) (fun e => key e = k) =
      find table (fun e => key e = k) := by
  apply Option.ext
  intro e
  rw [h'.find_eq_some_iff, h.find_eq_some_iff]
  apply and_congr_right
  intro hk
  constructor
  · rintro ⟨j, he⟩
    rcases update_eq_some he with ⟨-, he⟩ | ⟨-, he⟩
    · exact absurd hk (hnew e he)
    · exact ⟨j, he⟩
  · rintro ⟨j, he⟩
    have hj : j ≠ i := by
      intro hj
      rw [hj] at he
      exact hold e he hk
    exact ⟨j, by rw [Function.update_of_ne hj]; exact he⟩

/-- The new entry replaces the one with its key, or takes the lowest free slot, or there is
no room for it. -/
def put (key : α → κ) (table : Fin n → Option α) (d : α) : Fin n → Option α :=
  match firstIndex table (fun e => key e = key d) with
  | some i => Function.update table i (some d)
  | none =>
    match firstFree table with
    | some i => Function.update table i (some d)
    | none => table

/-- There is an entry with this key, or a slot for one. -/
def HasRoom (key : α → κ) (table : Fin n → Option α) (k : κ) : Prop :=
  (∃ i d, table i = some d ∧ key d = k) ∨ ∃ i, table i = none

theorem put_of_full (hfull : ¬ HasRoom key table (key d)) : put key table d = table := by
  unfold put
  cases hindex : firstIndex table (fun e => key e = key d) with
  | some i =>
    obtain ⟨e, he, hkey, -⟩ := firstIndex_eq_some hindex
    exact absurd (.inl ⟨i, e, he, hkey⟩) hfull
  | none =>
    cases hfree : firstFree table with
    | some i => exact absurd (.inr ⟨i, firstFree_eq_some hfree⟩) hfull
    | none => rfl

/-- With room, one slot changes. -/
theorem exists_put (hroom : HasRoom key table (key d)) :
    ∃ i, put key table d = Function.update table i (some d) := by
  unfold put
  cases hindex : firstIndex table (fun e => key e = key d) with
  | some i => exact ⟨i, rfl⟩
  | none =>
    cases hfree : firstFree table with
    | some i => exact ⟨i, rfl⟩
    | none =>
      rcases hroom with ⟨j, e, he, hkey⟩ | ⟨j, hj⟩
      · have hnot := firstIndex_eq_none hindex he
        exact absurd hkey hnot
      · exact absurd hj (firstFree_eq_none hfree j)

theorem update_eq_self_iff : Function.update table i (some d) = table ↔ table i = some d := by
  constructor
  · intro h
    rw [← h, Function.update_self]
  · intro h
    rw [← h, Function.update_eq_self]

/-- The entries with other keys are found as before. -/
theorem find_put_of_ne {k : κ} (hk : k ≠ key d) :
    find (put key table d) (fun e => key e = k) = find table (fun e => key e = k) := by
  have hnew : ¬ key d = k := fun h => hk h.symm
  unfold put
  cases hindex : firstIndex table (fun e => key e = key d) with
  | some i =>
    obtain ⟨e, he, hkey, -⟩ := firstIndex_eq_some hindex
    refine find_update_of_not hnew ?_
    intro e' he' hk'
    obtain rfl := Option.some.inj (he.symm.trans he')
    exact hk (hk'.symm.trans hkey)
  | none =>
    cases hfree : firstFree table with
    | some i =>
      refine find_update_of_not hnew ?_
      intro e he
      rw [firstFree_eq_some hfree] at he
      cases he
    | none => rfl

/-- The entry is already the first one with its key. -/
def Stored (key : α → κ) (table : Fin n → Option α) (d : α) : Prop :=
  ∃ i, table i = some d ∧ ∀ j < i, ∀ e, table j = some e → key e ≠ key d

/-- Nothing changes exactly if there is no room for the entry or it is already there. -/
theorem put_eq_self_iff :
    put key table d = table ↔ ¬ HasRoom key table (key d) ∨ Stored key table d := by
  by_cases hroom : HasRoom key table (key d)
  · rw [or_iff_right (not_not_intro hroom)]
    unfold put
    cases hindex : firstIndex table (fun e => key e = key d) with
    | some i =>
      obtain ⟨e, he, hkey, hbefore⟩ := firstIndex_eq_some hindex
      dsimp only
      rw [update_eq_self_iff]
      constructor
      · exact fun h => ⟨i, h, hbefore⟩
      · rintro ⟨j, hj, hfirst⟩
        rcases lt_trichotomy i j with hlt | rfl | hlt
        · exact absurd hkey (hfirst i hlt e he)
        · exact hj
        · exact absurd rfl (hbefore j hlt d hj)
    | none =>
      have hnew : ¬ Stored key table d := by
        rintro ⟨i, hi, -⟩
        exact firstIndex_eq_none hindex hi rfl
      cases hfree : firstFree table with
      | some i =>
        refine iff_of_false ?_ hnew
        dsimp only
        rw [update_eq_self_iff, firstFree_eq_some hfree]
        exact (Option.some_ne_none d).symm
      | none =>
        rcases hroom with ⟨j, e, he, hkey⟩ | ⟨j, hj⟩
        · have hnot := firstIndex_eq_none hindex he
          exact absurd hkey hnot
        · exact absurd hj (firstFree_eq_none hfree j)
  · exact iff_of_true (put_of_full hroom) (.inl hroom)

/-- With room, one slot changes, which held the same key or nothing. -/
theorem Keyed.exists_put (h : Keyed key table) (hroom : HasRoom key table (key d)) :
    ∃ i, put key table d = Function.update table i (some d) ∧
      (∀ j e, j ≠ i → table j = some e → key e ≠ key d) ∧
      ∀ e, table i = some e → key e = key d := by
  unfold put
  cases hindex : firstIndex table (fun e => key e = key d) with
  | some i =>
    obtain ⟨e, he, hkey, -⟩ := firstIndex_eq_some hindex
    refine ⟨i, rfl, ?_, ?_⟩
    · intro j e' hji he' hkey'
      exact hji (h j i e' e he' he (hkey'.trans hkey.symm))
    · intro e' he'
      obtain rfl := Option.some.inj (he.symm.trans he')
      exact hkey
  | none =>
    have hother : ∀ j e, table j = some e → key e ≠ key d := by
      intro j e he
      have hnot := firstIndex_eq_none hindex he
      exact hnot
    cases hfree : firstFree table with
    | some i =>
      refine ⟨i, rfl, fun j e _ => hother j e, ?_⟩
      intro e he
      rw [firstFree_eq_some hfree] at he
      cases he
    | none =>
      rcases hroom with ⟨j, e, he, hkey⟩ | ⟨j, hj⟩
      · exact absurd hkey (hother j e he)
      · exact absurd hj (firstFree_eq_none hfree j)

theorem Keyed.put (h : Keyed key table) (d : α) : Keyed key (put key table d) := by
  by_cases hroom : HasRoom key table (key d)
  · obtain ⟨i, hput, hother, -⟩ := h.exists_put hroom
    rw [hput]
    exact h.update hother
  · rw [put_of_full hroom]
    exact h

/-- The map after an insertion. -/
theorem Keyed.find_put (h : Keyed key table) (hroom : HasRoom key table (key d)) (k : κ) :
    find (SlotTable.put key table d) (fun e => key e = k) =
      if k = key d then some d else find table (fun e => key e = k) := by
  have hkeyed := h.put d
  obtain ⟨i, hput, -, hold⟩ := h.exists_put hroom
  rw [hput] at hkeyed ⊢
  by_cases hk : k = key d
  · subst hk
    rw [if_pos rfl]
    exact hkeyed.find_update
  · rw [if_neg hk]
    apply h.find_update_of_ne hkeyed
    · intro e he hke
      exact hk (hke.symm.trans (hold e he))
    · intro e he hke
      obtain rfl := Option.some.inj he
      exact hk hke.symm

end

end SlotTable
