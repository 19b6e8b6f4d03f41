import Mathlib.Data.List.Basic

/-!
A text with brackets, quoted pieces and unquoted words, read character by
character. Outside quotes the brackets must match, and a comma may not come
while nothing is open, unless a colon came after the last bracket. The open
brackets are kept on a stack, so a text that can be finished is at least as long
as the stack it begins with.
-/
namespace BracketText

inductive Mode
  | between
  | word
  | quoted
  | escaped
  deriving DecidableEq

/-- The open brackets, the innermost first, with `true` for a brace. A comma is not allowed
where the text is loose. -/
structure State where
  stack : List Bool
  loose : Bool
  mode : Mode
  deriving DecidableEq

/-- Tab, carriage return, line feed and blank. -/
def isBlank (c : UInt8) : Bool := c == 9 || c == 13 || c == 10 || c == 32

def endsWord (c : UInt8) : Bool := isBlank c || c == 44 || c == 93 || c == 125

def isPrintable (c : UInt8) : Bool := 32 ≤ c && c < 127

/-- A character outside quotes and words. -/
def stepBetween (s : State) (c : UInt8) : Option State :=
  if c = 123 ∨ c = 91 then some ⟨(c == 123) :: s.stack, false, .between⟩
  else if c = 125 ∨ c = 93 then
    match s.stack with
    | [] => none
    | brace :: outer =>
      if brace = (c == 125) then some ⟨outer, outer.isEmpty, .between⟩ else none
  else if c = 34 then some { s with mode := .quoted }
  else if isBlank c then some { s with mode := .between }
  else if c = 58 then some ⟨s.stack, false, .between⟩
  else if c = 44 then if s.loose then none else some { s with mode := .between }
  else if isPrintable c then some { s with mode := .word }
  else none

def step (s : State) (c : UInt8) : Option State :=
  match s.mode with
  | .between => stepBetween s c
  | .word => if endsWord c then stepBetween s c else if isPrintable c then some s else none
  | .quoted =>
    if c = 34 then some { s with mode := .between }
    else if c = 92 then some { s with mode := .escaped }
    else some s
  | .escaped => some { s with mode := .quoted }

def run (s : State) : List UInt8 → Option State
  | [] => some s
  | c :: text => (step s c).bind fun s' => run s' text

/-- Nothing is open. -/
def State.Closed (s : State) : Prop := s.stack = [] ∧ (s.mode = .between ∨ s.mode = .word)

instance (s : State) : Decidable s.Closed := inferInstanceAs (Decidable (_ ∧ _))

/-- The text can be read to its end, where nothing is open. -/
def Finishes (s : State) (text : List UInt8) : Prop := ∃ s', run s text = some s' ∧ s'.Closed

instance (s : State) (text : List UInt8) : Decidable (Finishes s text) :=
  match h : run s text with
  | none => .isFalse (by rintro ⟨s', hrun, -⟩; rw [h] at hrun; cases hrun)
  | some s' => decidable_of_iff s'.Closed ⟨fun hclosed => ⟨s', h, hclosed⟩, by
      rintro ⟨s'', hrun, hclosed⟩
      rw [h] at hrun
      obtain rfl := Option.some.inj hrun
      exact hclosed⟩

section

variable {s s' : State} {c : UInt8} {text text' : List UInt8}

theorem finishes_nil : Finishes s [] ↔ s.Closed := by
  constructor
  · rintro ⟨s', hrun, hclosed⟩
    obtain rfl := Option.some.inj hrun
    exact hclosed
  · exact fun hclosed => ⟨s, rfl, hclosed⟩

theorem finishes_cons : Finishes s (c :: text) ↔ ∃ s', step s c = some s' ∧ Finishes s' text := by
  constructor
  · rintro ⟨s'', hrun, hclosed⟩
    obtain ⟨s', hstep, hrest⟩ := Option.bind_eq_some_iff.mp hrun
    exact ⟨s', hstep, s'', hrest, hclosed⟩
  · rintro ⟨s', hstep, s'', hrest, hclosed⟩
    exact ⟨s'', Option.bind_eq_some_iff.mpr ⟨s', hstep, hrest⟩, hclosed⟩

theorem finishes_step (h : step s c = some s') : Finishes s (c :: text) ↔ Finishes s' text := by
  rw [finishes_cons, h]
  constructor
  · rintro ⟨s'', hs'', hrest⟩
    obtain rfl := Option.some.inj hs''
    exact hrest
  · exact fun hrest => ⟨s', rfl, hrest⟩

theorem not_finishes_step (h : step s c = none) : ¬ Finishes s (c :: text) := by
  rw [finishes_cons, h]
  rintro ⟨s', hs', -⟩
  cases hs'

/-- A character takes at most one bracket from the stack. -/
theorem step_stack (h : step s c = some s') : s.stack.length ≤ s'.stack.length + 1 := by
  have hbetween : stepBetween s c = some s' → s.stack.length ≤ s'.stack.length + 1 := by
    intro h
    unfold stepBetween at h
    split_ifs at h
    · obtain rfl := Option.some.inj h
      simp only [List.length_cons]
      omega
    · split at h
      · cases h
      · rename_i brace outer hstack
        split_ifs at h
        obtain rfl := Option.some.inj h
        exact Nat.le_of_eq (congrArg List.length hstack)
    all_goals
      obtain rfl := Option.some.inj h
      exact Nat.le_succ _
  unfold step at h
  split at h
  · exact hbetween h
  · split_ifs at h
    · exact hbetween h
    · obtain rfl := Option.some.inj h
      exact Nat.le_succ _
  · split_ifs at h
    all_goals
      obtain rfl := Option.some.inj h
      exact Nat.le_succ _
  · obtain rfl := Option.some.inj h
    exact Nat.le_succ _

/-- Every open bracket needs a character that closes it. -/
theorem Finishes.stack_le (h : Finishes s text) : s.stack.length ≤ text.length := by
  induction text generalizing s with
  | nil =>
    rw [(finishes_nil.mp h).1]
    exact Nat.le_refl _
  | cons c text ih =>
    obtain ⟨s', hstep, hrest⟩ := finishes_cons.mp h
    have hstack := step_stack hstep
    have hle := ih hrest
    rw [List.length_cons]
    omega

/-- Behind a word, or at the end, it does not matter whether a word comes to its end. -/
theorem finishes_word {stack : List Bool} {loose : Bool} (h : ∀ c ∈ text.head?, endsWord c) :
    Finishes ⟨stack, loose, .word⟩ text ↔ Finishes ⟨stack, loose, .between⟩ text := by
  cases text with
  | nil =>
    rw [finishes_nil, finishes_nil]
    simp [State.Closed]
  | cons c text =>
    have hends : endsWord c := h c rfl
    rw [finishes_cons, finishes_cons]
    have hstep : step ⟨stack, loose, .word⟩ c = step ⟨stack, loose, .between⟩ c := by
      simp only [step, hends, ↓reduceIte]
      simp only [stepBetween]
    rw [hstep]

end

end BracketText
