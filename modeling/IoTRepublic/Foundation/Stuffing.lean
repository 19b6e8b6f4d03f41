import Mathlib.Data.List.Basic
import Mathlib.Tactic.Common

/-!
Byte stuffing. Some elements are reserved for the framing of a text, so inside
the text each of them is sent masked behind an escape. A reader that marks the
escape and takes the element behind it masked takes exactly the elements of the
text. What a reader reports on the way is the concatenation of what it reports
in each state it comes to.
-/

namespace Stuffing

variable {α β σ ρ : Type*}

structure Scheme (α : Type*) where
  escape : α
  reserved : α → Bool
  mask : α → α
  escape_reserved : reserved escape = true
  mask_mask : ∀ a, mask (mask a) = a
  mask_free : ∀ a, reserved a = true → reserved (mask a) = false

/-- What a reader reports while it reads a text from the state `s`. -/
def reported (step : σ → α → σ) (report : σ → List ρ) : σ → List α → List ρ
  | _, [] => []
  | s, a :: text => report (step s a) ++ reported step report (step s a) text

theorem reported_append (step : σ → α → σ) (report : σ → List ρ) (s : σ) (front behind : List α) :
    reported step report s (front ++ behind) =
      reported step report s front ++ reported step report (front.foldl step s) behind := by
  induction front generalizing s with
  | nil => rfl
  | cons a front ih => simp only [List.cons_append, reported, ih, List.append_assoc,
      List.foldl_cons]

namespace Scheme

def stuffOne (s : Scheme α) (a : α) : List α :=
  if s.reserved a then [s.escape, s.mask a] else [a]

def stuff (s : Scheme α) (text : List α) : List α := text.flatMap s.stuffOne

/-- The elements read so far, and whether an escape stands behind them; then the next one. -/
def unmask [DecidableEq α] (s : Scheme α) (read : List α × Bool) (a : α) : List α × Bool :=
  if read.2 then (read.1 ++ [s.mask a], false)
  else if a = s.escape then (read.1, true)
  else (read.1 ++ [a], false)

/-- The text that was stuffed, and whether the last escape lacks its element. -/
def unstuff [DecidableEq α] (s : Scheme α) (stuffed : List α) : List α × Bool :=
  stuffed.foldl s.unmask ([], false)

variable {s : Scheme α}

@[simp] theorem stuff_nil : s.stuff [] = [] := rfl

@[simp] theorem stuff_cons (a : α) (text : List α) :
    s.stuff (a :: text) = s.stuffOne a ++ s.stuff text := by
  simp [stuff]

@[simp] theorem stuff_append (front behind : List α) :
    s.stuff (front ++ behind) = s.stuff front ++ s.stuff behind := by
  simp [stuff]

theorem stuffOne_reserved {a : α} (h : s.reserved a = true) :
    s.stuffOne a = [s.escape, s.mask a] := by
  simp [stuffOne, h]

theorem stuffOne_free {a : α} (h : s.reserved a = false) : s.stuffOne a = [a] := by
  simp [stuffOne, h]

/-- Of the reserved elements only the escape stands in a stuffed text. -/
theorem eq_escape_of_mem_stuff {a : α} {text : List α} (h : a ∈ s.stuff text)
    (ha : s.reserved a = true) : a = s.escape := by
  obtain ⟨c, -, hc⟩ := List.mem_flatMap.mp h
  cases hreserved : s.reserved c with
  | true =>
    rw [stuffOne_reserved hreserved] at hc
    rcases List.mem_cons.mp hc with hescape | hmask
    · exact hescape
    · rw [List.mem_singleton.mp hmask, s.mask_free c hreserved] at ha
      cases ha
  | false =>
    rw [stuffOne_free hreserved] at hc
    rw [List.mem_singleton.mp hc, hreserved] at ha
    cases ha

/-- A reader that is inside a text with the elements read so far. -/
structure Reads (s : Scheme α) (step : σ → α → σ) (inside marked : β → σ)
    (take : β → α → σ) : Prop where
  plain : ∀ b a, s.reserved a = false → step (inside b) a = take b a
  escape : ∀ b, step (inside b) s.escape = marked b
  masked : ∀ b a, s.reserved a = false → step (marked b) a = take b (s.mask a)

theorem Reads.foldl_stuffOne {step : σ → α → σ} {inside marked : β → σ} {take : β → α → σ}
    (h : s.Reads step inside marked take) (b : β) (a : α) :
    (s.stuffOne a).foldl step (inside b) = take b a := by
  cases hreserved : s.reserved a with
  | true =>
    rw [stuffOne_reserved hreserved, List.foldl_cons, List.foldl_cons, List.foldl_nil, h.escape,
      h.masked b _ (s.mask_free a hreserved), s.mask_mask]
  | false => rw [stuffOne_free hreserved, List.foldl_cons, List.foldl_nil, h.plain b a hreserved]

/-- The reader reports what it reports of the taken element; an escape reports nothing. -/
theorem Reads.reported_stuffOne {step : σ → α → σ} {inside marked : β → σ} {take : β → α → σ}
    (h : s.Reads step inside marked take) {report : σ → List ρ}
    (hmarked : ∀ b, report (marked b) = []) (b : β) (a : α) :
    reported step report (inside b) (s.stuffOne a) = report (take b a) := by
  cases hreserved : s.reserved a with
  | true =>
    rw [stuffOne_reserved hreserved, reported, reported, reported, h.escape,
      h.masked b _ (s.mask_free a hreserved), s.mask_mask, hmarked, List.nil_append,
      List.append_nil]
  | false =>
    rw [stuffOne_free hreserved, reported, reported, h.plain b a hreserved, List.append_nil]

end Scheme

end Stuffing
