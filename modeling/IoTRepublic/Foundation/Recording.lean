import Mathlib.Data.List.Basic
import Mathlib.Tactic.Common

/-!
Programs whose actions are recorded. The record is kept when the program fails,
so what it did up to the fault can be spoken about.
-/

namespace Recording

variable {act ε α β : Type}

/-- What a program did, in order, until it returned or failed. -/
structure Recorded (act ε α : Type) where
  log : List act
  result : Except ε α

/-- Nothing is recorded. -/
def silent (x : Except ε α) : Recorded act ε α := ⟨[], x⟩

def record (a : act) : Recorded act ε Unit := ⟨[a], .ok ()⟩

def Recorded.bind (x : Recorded act ε α) (f : α → Recorded act ε β) : Recorded act ε β :=
  match x.result with
  | .ok a => ⟨x.log ++ (f a).log, (f a).result⟩
  | .error e => ⟨x.log, .error e⟩

instance : Monad (Recorded act ε) where
  pure a := silent (.ok a)
  bind := Recorded.bind

@[simp] theorem silent_ok_bind (a : α) (f : α → Recorded act ε β) :
    ((silent (.ok a) : Recorded act ε α) >>= f) = f a := rfl

@[simp] theorem silent_error_bind (e : ε) (f : α → Recorded act ε β) :
    ((silent (.error e) : Recorded act ε α) >>= f) = silent (.error e) := rfl

@[simp] theorem log_record_bind (a : act) (f : Unit → Recorded act ε β) :
    ((record a : Recorded act ε Unit) >>= f).log = a :: (f ()).log := rfl

/-- What follows a program that returned is recorded behind it. -/
theorem log_bind_ok {x : Recorded act ε α} {a : α} (hx : x.result = .ok a)
    (f : α → Recorded act ε β) : (x >>= f).log = x.log ++ (f a).log := by
  change (Recorded.bind x f).log = _
  rw [Recorded.bind, hx]

/-- Nothing follows a program that failed. -/
theorem log_bind_error {x : Recorded act ε α} {e : ε} (hx : x.result = .error e)
    (f : α → Recorded act ε β) : (x >>= f).log = x.log := by
  change (Recorded.bind x f).log = _
  rw [Recorded.bind, hx]

end Recording
