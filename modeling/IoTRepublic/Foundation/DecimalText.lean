import IoTRepublic.Foundation.CheckedArray
import Mathlib.Algebra.Group.Nat.Defs

/-!
Signed decimal numbers as bytes: the text `sprintf "%d"` writes, and the
reading of `atoi`, which skips blanks, takes an optional sign and stops at the
first byte that is no digit. Reading the written text of a number that fits in
32 bits gives the number back, whatever follows its first non-digit.
-/

namespace DecimalText

open CheckedArray

def byteOf (c : Char) : UInt8 := UInt8.ofNat c.toNat

def ofNat (n : ℕ) : List UInt8 := (Nat.toDigits 10 n).map byteOf

def ofInt : ℤ → List UInt8
  | .ofNat n => ofNat n
  | .negSucc n => 45 :: ofNat (n + 1)

def isDigit (c : UInt8) : Bool := 48 ≤ c && c ≤ 57

def isSpace (c : UInt8) : Bool := c == 32 || (9 ≤ c && c ≤ 13)

/-- The value of the digits up to the first other byte, after the digits read so far. -/
def digitsFrom : List UInt8 → ℕ → Exec ℕ
  | [], _ => .error .readOutside
  | c :: rest, value =>
    if isDigit c then digitsFrom rest (10 * value + (c.toNat - 48)) else .ok value

def atoi (s : List UInt8) : Exec ℤ :=
  match s.dropWhile isSpace with
  | [] => .error .readOutside
  | c :: rest =>
    if c = 45 then do
      let value ← digitsFrom rest 0
      checkInt (-(value : ℤ))
    else if c = 43 then do
      let value ← digitsFrom rest 0
      checkInt value
    else do
      let value ← digitsFrom (c :: rest) 0
      checkInt value

private theorem char_isDigit_range {c : Char} (h : c.isDigit) : 48 ≤ c.toNat ∧ c.toNat ≤ 57 := by
  simp only [Char.isDigit, Bool.and_eq_true, decide_eq_true_eq] at h
  exact ⟨h.1, h.2⟩

theorem byteOf_toNat {c : Char} (h : c.isDigit) : (byteOf c).toNat = c.toNat := by
  have hc := char_isDigit_range h
  simp only [byteOf, UInt8.toNat_ofNat']
  omega

theorem byteOf_isDigit {c : Char} (h : c.isDigit) : isDigit (byteOf c) := by
  have hc := char_isDigit_range h
  have hn := byteOf_toNat h
  simp only [isDigit, Bool.and_eq_true, decide_eq_true_eq, UInt8.le_iff_toNat_le]
  exact ⟨by simpa [hn] using hc.1, by simpa [hn] using hc.2⟩

theorem isDigit_of_mem_ofNat {n : ℕ} {b : UInt8} (h : b ∈ ofNat n) : isDigit b := by
  obtain ⟨c, hc, rfl⟩ := List.mem_map.mp h
  exact byteOf_isDigit (Nat.isDigit_of_mem_toDigits (by decide) (by decide) hc)

theorem ofNat_ne_nil (n : ℕ) : ofNat n ≠ [] := by
  simp [ofNat, Nat.toDigits_ne_nil]

theorem ofInt_ne_nil (n : ℤ) : ofInt n ≠ [] := by
  cases n with
  | ofNat n => exact ofNat_ne_nil n
  | negSucc n => simp [ofInt]

@[simp] theorem ofInt_natCast (n : ℕ) : ofInt (n : ℤ) = ofNat n := rfl

private theorem zero_not_isDigit : isDigit 0 = false := by decide

/-- Decimal text holds no terminator. -/
theorem zero_notMem_ofInt (n : ℤ) : (0 : UInt8) ∉ ofInt n := by
  have hnat : ∀ m : ℕ, (0 : UInt8) ∉ ofNat m := by
    intro m hm
    have := isDigit_of_mem_ofNat hm
    rw [zero_not_isDigit] at this
    exact Bool.noConfusion this
  cases n with
  | ofNat n => exact hnat n
  | negSucc n => simp [ofInt, hnat]

theorem ofNat_length_le {n k : ℕ} (hk : 0 < k) (h : n < 10 ^ k) : (ofNat n).length ≤ k := by
  rw [ofNat, List.length_map]
  exact (Nat.length_toDigits_le_iff (by decide) hk).mpr h

theorem lt_of_ofNat_length_le {n k : ℕ} (hk : 0 < k) (h : (ofNat n).length ≤ k) : n < 10 ^ k := by
  rw [ofNat, List.length_map] at h
  exact (Nat.length_toDigits_le_iff (by decide) hk).mp h

private theorem digitsFrom_map (cs : List Char) (value : ℕ) (stop : UInt8) (rest : List UInt8)
    (hcs : ∀ c ∈ cs, c.isDigit) (hstop : isDigit stop = false) :
    digitsFrom (cs.map byteOf ++ stop :: rest) value = .ok (Nat.ofDigitChars 10 cs value) := by
  induction cs generalizing value with
  | nil => simp [digitsFrom, hstop]
  | cons c cs ih =>
    have hc : c.isDigit := hcs c (List.mem_cons_self ..)
    simp only [List.map_cons, List.cons_append, digitsFrom, byteOf_isDigit hc, ↓reduceIte,
      byteOf_toNat hc, Nat.ofDigitChars_cons]
    exact ih _ (fun d hd => hcs d (List.mem_cons_of_mem c hd))

theorem digitsFrom_ofNat (n : ℕ) (stop : UInt8) (rest : List UInt8)
    (hstop : isDigit stop = false) :
    digitsFrom (ofNat n ++ stop :: rest) 0 = .ok n := by
  rw [ofNat, digitsFrom_map _ 0 stop rest _ hstop, Nat.ofDigitChars_ten_toDigits]
  exact fun c hc => Nat.isDigit_of_mem_toDigits (by decide) (by decide) hc

theorem isSpace_of_isDigit {c : UInt8} (h : isDigit c) :
    isSpace c = false ∧ c ≠ 45 ∧ c ≠ 43 := by
  simp only [isDigit, Bool.and_eq_true, decide_eq_true_eq, UInt8.le_iff_toNat_le] at h
  have h48 : (48 : UInt8).toNat = 48 := rfl
  have h57 : (57 : UInt8).toNat = 57 := rfl
  refine ⟨?_, ?_, ?_⟩
  · have h13 : ¬ c ≤ 13 := by
      simp only [UInt8.le_iff_toNat_le]
      have h13 : (13 : UInt8).toNat = 13 := rfl
      omega
    have h32 : c ≠ 32 := by
      rintro rfl
      have h32 : (32 : UInt8).toNat = 32 := rfl
      omega
    simp [isSpace, h13, h32]
  · rintro rfl
    have h45 : (45 : UInt8).toNat = 45 := rfl
    omega
  · rintro rfl
    have h43 : (43 : UInt8).toNat = 43 := rfl
    omega

/-- `atoi` undoes `sprintf` on every non-negative `int`. -/
theorem atoi_ofNat (n : ℕ) (stop : UInt8) (rest : List UInt8)
    (hstop : isDigit stop = false) (hn : n ≤ 2147483647) :
    atoi (ofNat n ++ stop :: rest) = .ok (n : ℤ) := by
  have hdigits := digitsFrom_ofNat n stop rest hstop
  obtain ⟨c, cs, hcs⟩ := List.exists_cons_of_ne_nil (ofNat_ne_nil n)
  have hc : isDigit c := isDigit_of_mem_ofNat (n := n) (by simp [hcs])
  obtain ⟨hspace, hminus, hplus⟩ := isSpace_of_isDigit hc
  rw [hcs, List.cons_append] at hdigits ⊢
  simp only [atoi, List.dropWhile_cons, hspace, Bool.false_eq_true, ↓reduceIte, hminus, hplus,
    hdigits, ok_bind]
  exact checkInt_ok n (by omega) (by omega)

example : atoi (ofInt (-24) ++ [0]) = .ok (-24) := by decide

end DecimalText
