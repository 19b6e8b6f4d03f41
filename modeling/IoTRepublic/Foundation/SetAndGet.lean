import Mathlib.Data.List.Basic
import Mathlib.Tactic.Common

/-!
A text that is set and read back, in an array of a fixed size. A text that is
empty is not written any more, and the first set takes the characters that stray
behind the text into it. A sequence of values is read back, each after its own
set, exactly if none of this shows and every value has room.
-/
namespace SetAndGet

variable {State α : Type}

/-- Values are set one after the other, and each is read back after its set. -/
def GetsBack (Sets : List α → State → State → Prop) (Gets : State → List α → Prop) :
    State → List (List α) → Prop
  | _, [] => True
  | d, v :: values => ∃ d', Sets v d d' ∧ Gets d' v ∧ GetsBack Sets Gets d' values

/-- The text that a value is written as, in the place of `old`. -/
def written (old v : List α) : List α := if old = [] then [] else v

/-- When values are read back, with `around` characters around the text. -/
structure Keeps (size around : ℕ) (old stray : List α) (values : List (List α)) : Prop where
  first : ∀ v ∈ values.head?, if old = [] then v = stray else stray = []
  room : ∀ v ∈ values, around + v.length < size
  empties : values.Pairwise fun v w => v = [] → w = []

/-- What a set and a get do to a text with `around` characters around it. -/
structure Lawful (size around : ℕ) (Sets : List α → State → State → Prop)
    (Gets : State → List α → Prop) (clean : List α → Prop)
    (Holds : State → List α → List α → Prop) : Prop where
  get : ∀ d old stray v, Holds d old stray → (Gets d v ↔ v = old)
  set : ∀ d old stray v, Holds d old stray → clean v →
    around + (written old v ++ stray).length < size →
      ∃ d', Sets v d d' ∧ Holds d' (written old v ++ stray) []
  room : ∀ d old stray v d', Holds d old stray → clean v → Sets v d d' →
    around + (written old v ++ stray).length < size
  unique : ∀ v d d' d'', Sets v d d' → Sets v d d'' → d' = d''

theorem written_append_eq_iff {old v stray : List α} :
    written old v ++ stray = v ↔ if old = [] then v = stray else stray = [] := by
  unfold written
  split
  · rw [List.nil_append, eq_comm]
  · exact List.append_right_eq_self

variable {size around : ℕ} {old stray v : List α} {values : List (List α)}

theorem keeps_nil : Keeps size around old stray [] where
  first v hv := by cases hv
  room v hv := by cases hv
  empties := .nil

theorem keeps_cons : Keeps size around old stray (v :: values) ↔
    written old v ++ stray = v ∧ around + v.length < size ∧ Keeps size around v [] values := by
  rw [written_append_eq_iff]
  constructor
  · rintro ⟨hfirst, hroom, hempties⟩
    obtain ⟨hlast, hrest⟩ := List.pairwise_cons.mp hempties
    refine ⟨hfirst v rfl, hroom v List.mem_cons_self, ?_, ?_, hrest⟩
    · intro w hw
      split
      · rename_i hempty
        exact hlast w (List.mem_of_mem_head? hw) hempty
      · rfl
    · intro w hw
      exact hroom w (List.mem_cons_of_mem v hw)
  · rintro ⟨hfirst, hfits, hnext, hroom, hempties⟩
    refine ⟨?_, List.forall_mem_cons.mpr ⟨hfits, hroom⟩, List.pairwise_cons.mpr ⟨?_, hempties⟩⟩
    · intro w hw
      obtain rfl := Option.some.inj hw
      exact hfirst
    · rintro w hw rfl
      cases values with
      | nil => cases hw
      | cons u values =>
        have hu := hnext u rfl
        rw [if_pos rfl] at hu
        rcases List.mem_cons.mp hw with rfl | hw
        · exact hu
        · exact (List.pairwise_cons.mp hempties).1 w hw hu

/-- The induction is on the values: a set leaves the next one no stray characters. -/
theorem Lawful.getsBack_iff {Sets : List α → State → State → Prop} {Gets : State → List α → Prop}
    {clean : List α → Prop} {Holds : State → List α → List α → Prop}
    (hlaw : Lawful size around Sets Gets clean Holds) {d : State} (hd : Holds d old stray)
    (hclean : ∀ v ∈ values, clean v) :
    GetsBack Sets Gets d values ↔ Keeps size around old stray values := by
  induction values generalizing d old stray with
  | nil => exact iff_of_true trivial keeps_nil
  | cons v values ih =>
    obtain ⟨hv, hrest⟩ := List.forall_mem_cons.mp hclean
    rw [keeps_cons]
    constructor
    · rintro ⟨d', hset, hget, hback⟩
      have hroom := hlaw.room d old stray v d' hd hv hset
      obtain ⟨d'', hset', hd'⟩ := hlaw.set d old stray v hd hv hroom
      obtain rfl := hlaw.unique v d d' d'' hset hset'
      have hsame := (hlaw.get d' _ [] v hd').mp hget
      rw [← hsame] at hroom hd'
      exact ⟨hsame.symm, hroom, (ih hd' hrest).mp hback⟩
    · rintro ⟨hsame, hroom, hkeeps⟩
      rw [← hsame] at hroom
      obtain ⟨d', hset, hd'⟩ := hlaw.set d old stray v hd hv hroom
      rw [hsame] at hd'
      exact ⟨d', hset, (hlaw.get d' v [] v hd').mpr rfl, (ih hd' hrest).mpr hkeeps⟩

end SetAndGet
