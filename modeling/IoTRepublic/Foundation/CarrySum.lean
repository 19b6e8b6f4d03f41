import Mathlib.Data.List.Basic
import Mathlib.Algebra.Order.BigOperators.Group.List
import Mathlib.Algebra.Order.Ring.Nat
import Mathlib.Data.Nat.ModEq
import Mathlib.Tactic.Common

/-!
The end-around-carry sum of bytes: a 32-bit sum whose upper half is added to
its lower half until it fits in 16 bits, sent as two bytes, high byte first.
Folding keeps the sum positive and keeps it modulo 65535, and the two bytes
determine the folded sum. Changing one byte always changes the folded sum.
-/

namespace CarrySum

/-- `for (i = 0; i < n; i++) sum += (uint8_t) bytes[i]` on an unsigned 32-bit sum. -/
def byteSum (bytes : List UInt8) : ℕ :=
  bytes.foldl (fun sum b => (sum + b.toNat) % 2 ^ 32) 0

/-- `while ((sum >> 16) > 0) sum = (sum & 0xFFFF) + (sum >> 16)`, for at most `fuel` rounds. -/
def foldCarry : ℕ → ℕ → ℕ
  | 0, sum => sum
  | fuel + 1, sum =>
    if sum / 2 ^ 16 > 0 then foldCarry fuel (sum % 2 ^ 16 + sum / 2 ^ 16) else sum

/-- Two rounds end the loop on a 32-bit sum (`foldCarry_lt`). -/
def folded (bytes : List UInt8) : ℕ := foldCarry 2 (byteSum bytes)

def highByte (sum : ℕ) : UInt8 := UInt8.ofNat (sum / 2 ^ 8)

def lowByte (sum : ℕ) : UInt8 := UInt8.ofNat sum

/-- `sum |= high; sum <<= 8; sum |= low` on an unsigned 16-bit sum. -/
def joinBytes (high low : UInt8) : ℕ := high.toNat * 2 ^ 8 + low.toNat

theorem byteSum_lt (bytes : List UInt8) : byteSum bytes < 2 ^ 32 := by
  have haux : ∀ sum, sum < 2 ^ 32 →
      bytes.foldl (fun sum b => (sum + b.toNat) % 2 ^ 32) sum < 2 ^ 32 := by
    induction bytes with
    | nil => exact fun sum h => h
    | cons b rest ih => exact fun sum _ => ih _ (Nat.mod_lt _ (by decide))
  exact haux 0 (by decide)

/-- On fewer than 2^24 bytes the 32-bit sum does not wrap. -/
theorem byteSum_eq_sum (bytes : List UInt8) (h : bytes.length < 2 ^ 24) :
    byteSum bytes = (bytes.map UInt8.toNat).sum := by
  have haux : ∀ sum, sum + 256 * bytes.length ≤ 2 ^ 32 →
      bytes.foldl (fun sum b => (sum + b.toNat) % 2 ^ 32) sum =
        sum + (bytes.map UInt8.toNat).sum := by
    clear h
    induction bytes with
    | nil => simp
    | cons b rest ih =>
      intro sum hsum
      have hb : b.toNat < 256 := UInt8.toNat_lt b
      simp only [List.length_cons] at hsum
      have hmod : (sum + b.toNat) % 2 ^ 32 = sum + b.toNat := Nat.mod_eq_of_lt (by omega)
      simp only [List.foldl_cons, hmod, List.map_cons, List.sum_cons]
      rw [ih (sum + b.toNat) (by omega)]
      omega
  have hzero := haux 0 (by omega)
  rw [Nat.zero_add] at hzero
  exact hzero

theorem foldCarry_lt (sum : ℕ) (h : sum < 2 ^ 32) : foldCarry 2 sum < 2 ^ 16 := by
  simp only [foldCarry]
  split
  · split <;> omega
  · omega

theorem folded_lt (bytes : List UInt8) : folded bytes < 2 ^ 16 :=
  foldCarry_lt _ (byteSum_lt bytes)

/-- Folding keeps the sum modulo 65535. -/
theorem foldCarry_modEq (fuel sum : ℕ) : foldCarry fuel sum ≡ sum [MOD 65535] := by
  induction fuel generalizing sum with
  | zero => exact Nat.ModEq.refl sum
  | succ fuel ih =>
    simp only [foldCarry]
    split
    · refine (ih _).trans ?_
      have hsplit : sum = sum % 2 ^ 16 + sum / 2 ^ 16 + 65535 * (sum / 2 ^ 16) := by omega
      unfold Nat.ModEq
      omega
    · exact Nat.ModEq.refl sum

/-- The sum of the bytes modulo 65535, which one byte cannot go round. -/
theorem folded_one_byte {front back : List UInt8} {b c : UInt8}
    (hlen : (front ++ b :: back).length < 2 ^ 24)
    (h : folded (front ++ b :: back) = folded (front ++ c :: back)) : b = c := by
  have hlen' : (front ++ c :: back).length < 2 ^ 24 := by
    simpa only [List.length_append, List.length_cons] using hlen
  have hb := foldCarry_modEq 2 (byteSum (front ++ b :: back))
  have hc := foldCarry_modEq 2 (byteSum (front ++ c :: back))
  have hsums : byteSum (front ++ b :: back) ≡ byteSum (front ++ c :: back) [MOD 65535] := by
    apply hb.symm.trans
    unfold folded at h
    rw [h]
    exact hc
  rw [byteSum_eq_sum _ hlen, byteSum_eq_sum _ hlen'] at hsums
  simp only [List.map_append, List.map_cons, List.sum_append, List.sum_cons] at hsums
  have hbyte := Nat.ModEq.add_right_cancel' _ (Nat.ModEq.add_left_cancel' _ hsums)
  have hb256 : b.toNat < 256 := UInt8.toNat_lt b
  have hc256 : c.toNat < 256 := UInt8.toNat_lt c
  apply UInt8.toNat_inj.mp
  exact hbyte.eq_of_lt_of_lt (by omega) (by omega)

theorem joinBytes_split (sum : ℕ) (h : sum < 2 ^ 16) :
    joinBytes (highByte sum) (lowByte sum) = sum := by
  simp only [joinBytes, highByte, lowByte, UInt8.toNat_ofNat']
  omega

/-- The two bytes are determined by the sum they stand for. -/
theorem joinBytes_eq_iff (high low : UInt8) (sum : ℕ) (h : sum < 2 ^ 16) :
    joinBytes high low = sum ↔ high = highByte sum ∧ low = lowByte sum := by
  constructor
  · rintro rfl
    have hl : low.toNat < 256 := UInt8.toNat_lt low
    have hh : high.toNat < 256 := UInt8.toNat_lt high
    constructor
    · apply UInt8.toNat_inj.mp
      simp only [highByte, joinBytes, UInt8.toNat_ofNat']
      omega
    · apply UInt8.toNat_inj.mp
      simp only [lowByte, joinBytes, UInt8.toNat_ofNat']
      omega
  · rintro ⟨rfl, rfl⟩
    exact joinBytes_split sum h

end CarrySum
