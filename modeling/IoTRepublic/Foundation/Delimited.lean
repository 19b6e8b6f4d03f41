import Mathlib.Data.List.Basic
import Mathlib.Tactic.Common

/-!
Fields closed by a separator. A run of non-empty fields that do not hold the
separator is read back from the front of any text that begins with it, so two
texts with the same beginning have the same fields and the same remainder.
-/

namespace Delimited

variable {α : Type*}

def joinFields (sep : α) (fields : List (List α)) : List α :=
  fields.flatMap (fun field => field ++ [sep])

structure IsFields (sep : α) (fields : List (List α)) : Prop where
  ne_nil : ∀ field ∈ fields, field ≠ []
  sep_notMem : ∀ field ∈ fields, sep ∉ field

@[simp] theorem joinFields_nil (sep : α) : joinFields sep [] = [] := rfl

@[simp] theorem joinFields_cons (sep : α) (field : List α) (fields : List (List α)) :
    joinFields sep (field :: fields) = field ++ sep :: joinFields sep fields := by
  simp [joinFields]

theorem IsFields.nil (sep : α) : IsFields sep [] :=
  ⟨by simp, by simp⟩

theorem isFields_cons (sep : α) (field : List α) (fields : List (List α)) :
    IsFields sep (field :: fields) ↔ field ≠ [] ∧ sep ∉ field ∧ IsFields sep fields := by
  constructor
  · rintro ⟨hne, hsep⟩
    exact ⟨hne field (List.mem_cons_self ..), hsep field (List.mem_cons_self ..),
      fun f hf => hne f (List.mem_cons_of_mem _ hf),
      fun f hf => hsep f (List.mem_cons_of_mem _ hf)⟩
  · rintro ⟨hne, hsep, hrest⟩
    constructor
    · intro f hf
      rcases List.mem_cons.mp hf with rfl | hf
      · exact hne
      · exact hrest.ne_nil f hf
    · intro f hf
      rcases List.mem_cons.mp hf with rfl | hf
      · exact hsep
      · exact hrest.sep_notMem f hf

theorem IsFields.front {sep : α} {fields more : List (List α)}
    (h : IsFields sep (fields ++ more)) : IsFields sep fields :=
  ⟨fun f hf => h.ne_nil f (List.mem_append_left more hf),
    fun f hf => h.sep_notMem f (List.mem_append_left more hf)⟩

theorem length_joinFields_cons (sep : α) (field : List α) (fields : List (List α)) :
    (joinFields sep (field :: fields)).length =
      field.length + 1 + (joinFields sep fields).length := by
  simp only [joinFields_cons, List.length_append, List.length_cons]
  omega

/-- The first field and what follows its separator are determined by the text. -/
theorem field_unique {sep : α} {field field' rest rest' : List α}
    (h : field ++ sep :: rest = field' ++ sep :: rest')
    (hf : sep ∉ field) (hf' : sep ∉ field') : field = field' ∧ rest = rest' := by
  induction field generalizing field' with
  | nil =>
    cases field' with
    | nil => exact ⟨rfl, by simpa using h⟩
    | cons c field' =>
      simp only [List.nil_append, List.cons_append, List.cons.injEq] at h
      exact absurd (by simp [h.1]) hf'
  | cons c field ih =>
    cases field' with
    | nil =>
      simp only [List.nil_append, List.cons_append, List.cons.injEq] at h
      exact absurd (by simp [h.1]) hf
    | cons c' field' =>
      simp only [List.cons_append, List.cons.injEq] at h
      simp only [List.mem_cons, not_or] at hf hf'
      obtain ⟨rfl, rfl⟩ := ih h.2 hf.2 hf'.2
      exact ⟨by rw [h.1], rfl⟩

/-- Two texts that begin with as many fields and are equal have equal fields and remainders. -/
theorem fields_unique {sep : α} (fields fields' : List (List α)) {rest rest' : List α}
    (hlen : fields.length = fields'.length)
    (hf : ∀ field ∈ fields, sep ∉ field) (hf' : ∀ field ∈ fields', sep ∉ field)
    (h : joinFields sep fields ++ rest = joinFields sep fields' ++ rest') :
    fields = fields' ∧ rest = rest' := by
  induction fields generalizing fields' with
  | nil =>
    cases fields' with
    | nil => exact ⟨rfl, by simpa using h⟩
    | cons field fields' => simp at hlen
  | cons field fields ih =>
    cases fields' with
    | nil => simp at hlen
    | cons field' fields' =>
      simp only [joinFields_cons, List.append_assoc, List.cons_append] at h
      obtain ⟨rfl, htail⟩ := field_unique h (hf _ (List.mem_cons_self ..))
        (hf' _ (List.mem_cons_self ..))
      obtain ⟨rfl, rfl⟩ := ih fields' (by simpa using hlen)
        (fun f hf0 => hf f (List.mem_cons_of_mem _ hf0))
        (fun f hf0 => hf' f (List.mem_cons_of_mem _ hf0)) htail
      exact ⟨rfl, rfl⟩

/-- A text that begins with non-empty fields has no second separator where another of them
begins. -/
theorem not_empty_field {sep : α} {fields fields' : List (List α)} {rest rest' : List α}
    (hfields : IsFields sep fields) (hfields' : IsFields sep fields')
    (hlen : fields'.length < fields.length)
    (h : joinFields sep fields ++ rest = joinFields sep fields' ++ sep :: rest') : False := by
  have hfront : (fields.take fields'.length).length = fields'.length :=
    List.length_take_of_le (Nat.le_of_lt hlen)
  obtain ⟨field, others, hother⟩ : ∃ field others, fields.drop fields'.length = field :: others :=
    List.exists_cons_of_length_pos (by rw [List.length_drop]; omega)
  have hsplit : fields = fields.take fields'.length ++ field :: others := by
    rw [← hother, List.take_append_drop]
  have hmem : field ∈ fields := by
    rw [hsplit]
    simp
  have hjoin : joinFields sep fields =
      joinFields sep (fields.take fields'.length) ++ (field ++ sep :: joinFields sep others) := by
    nth_rewrite 1 [hsplit]
    rw [joinFields, List.flatMap_append, ← joinFields, ← joinFields, joinFields_cons]
  rw [hjoin, List.append_assoc] at h
  obtain ⟨-, hbehind⟩ := fields_unique _ _ hfront
    (fun f hf => hfields.sep_notMem f (List.mem_of_mem_take hf)) hfields'.sep_notMem h
  obtain ⟨c, field, rfl⟩ := List.exists_cons_of_ne_nil (hfields.ne_nil field hmem)
  have hc : c = sep := (List.cons.inj hbehind).1
  exact hfields.sep_notMem _ hmem (by simp [hc])

end Delimited
