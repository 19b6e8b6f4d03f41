import Mathlib.Data.Int.Basic
import Mathlib.Data.List.Basic
import Mathlib.Tactic.Common

/-!
Arrays with checked accesses, for programs that index memory by signed
integers. A read or a write outside the array, a signed result outside the
32-bit range and a loop that does not come to an end are faults; a run is a
value or a fault. The copying loops are the element-by-element loops of such
programs; their effect on an array is one splice of a block.
-/

namespace CheckedArray

inductive Fault
  | readOutside
  | writeOutside
  | overflow
  | format
  | unfinished
  deriving DecidableEq, Repr

abbrev Exec (α : Type) := Except Fault α

variable {α β : Type}

@[simp] theorem ok_bind (a : α) (f : α → Exec β) : (Except.ok a >>= f) = f a := rfl

@[simp] theorem error_bind (e : Fault) (f : α → Exec β) :
    ((Except.error e : Exec α) >>= f) = .error e := rfl

@[simp] theorem pure_eq_ok (a : α) : (pure a : Exec α) = .ok a := rfl

/-- A sequence of two runs ends exactly when the first ends and the second ends on its value. -/
theorem bind_eq_ok {x : Exec α} {f : α → Exec β} {b : β} :
    (x >>= f) = .ok b ↔ ∃ a, x = .ok a ∧ f a = .ok b := by
  cases x with
  | error e => simp
  | ok a => simp

theorem toOption_eq_some {x : Exec α} {a : α} (h : x.toOption = some a) : x = .ok a := by
  cases x with
  | error e => cases h
  | ok b => exact congrArg Except.ok (Option.some.inj h)

/-- A signed 32-bit result, or the overflow fault. -/
def checkInt (x : ℤ) : Exec ℤ :=
  if -2147483648 ≤ x ∧ x ≤ 2147483647 then .ok x else .error .overflow

theorem checkInt_eq_ok {x y : ℤ} :
    checkInt x = .ok y ↔ x = y ∧ -2147483648 ≤ x ∧ x ≤ 2147483647 := by
  unfold checkInt
  split
  · rename_i h
    simp [h]
  · rename_i h
    simp only [reduceCtorEq, false_iff, not_and]
    intro _ h0 h1
    exact absurd ⟨h0, h1⟩ h

theorem checkInt_ok (x : ℤ) (h : -2147483648 ≤ x) (h' : x ≤ 2147483647) :
    checkInt x = .ok x :=
  checkInt_eq_ok.mpr ⟨rfl, h, h'⟩

def readAt (a : List α) (i : ℤ) : Exec α :=
  if 0 ≤ i then
    match a[i.toNat]? with
    | some c => .ok c
    | none => .error .readOutside
  else .error .readOutside

def writeAt (a : List α) (i : ℤ) (c : α) : Exec (List α) :=
  if 0 ≤ i ∧ i.toNat < a.length then .ok (a.set i.toNat c) else .error .writeOutside

theorem readAt_eq_ok {a : List α} {i : ℤ} {c : α} :
    readAt a i = .ok c ↔ 0 ≤ i ∧ a[i.toNat]? = some c := by
  unfold readAt
  by_cases hi : 0 ≤ i
  · cases ha : a[i.toNat]? with
    | none => simp [hi]
    | some d => simp [hi]
  · simp [hi]

theorem readAt_natCast (a : List α) (i : ℕ) (c : α) (h : a[i]? = some c) :
    readAt a (i : ℤ) = .ok c :=
  readAt_eq_ok.mpr ⟨by omega, by simpa using h⟩

theorem writeAt_eq_ok {a b : List α} {i : ℤ} {c : α} :
    writeAt a i c = .ok b ↔ 0 ≤ i ∧ i.toNat < a.length ∧ a.set i.toNat c = b := by
  unfold writeAt
  split
  · rename_i h
    simp [h.1, h.2]
  · rename_i h
    simp only [reduceCtorEq, false_iff, not_and]
    intro h0 h1
    exact absurd ⟨h0, h1⟩ h

theorem writeAt_natCast (a : List α) (i : ℕ) (c : α) (h : i < a.length) :
    writeAt a (i : ℤ) c = .ok (a.set i c) :=
  writeAt_eq_ok.mpr ⟨by omega, by simpa using h, by simp⟩

section

variable {β : Type} (f : α → β)

theorem readAt_map {a : List α} {i : ℤ} {c : α} (h : readAt a i = .ok c) :
    readAt (a.map f) i = .ok (f c) := by
  obtain ⟨hi, hc⟩ := readAt_eq_ok.mp h
  exact readAt_eq_ok.mpr ⟨hi, by rw [List.getElem?_map, hc]; rfl⟩

theorem writeAt_map {a b : List α} {i : ℤ} {c : α} (h : writeAt a i c = .ok b) :
    writeAt (a.map f) i (f c) = .ok (b.map f) := by
  obtain ⟨hi, hlt, rfl⟩ := writeAt_eq_ok.mp h
  exact writeAt_eq_ok.mpr ⟨hi, by rwa [List.length_map], List.map_set.symm⟩

end

/-- The array with the block `xs` written over the cells from `k` on. -/
def splice (a : List α) (k : ℕ) (xs : List α) : List α :=
  a.take k ++ xs ++ a.drop (k + xs.length)

@[simp] theorem splice_nil (a : List α) (k : ℕ) : splice a k [] = a := by
  simp [splice]

theorem splice_length (a : List α) (k : ℕ) (xs : List α) (h : k + xs.length ≤ a.length) :
    (splice a k xs).length = a.length := by
  simp only [splice, List.length_append, List.length_take, List.length_drop]
  omega

theorem splice_zero (a xs : List α) : splice a 0 xs = xs ++ a.drop xs.length := by
  simp [splice]

/-- Two adjacent blocks written one after the other are one block. -/
theorem splice_splice (a : List α) (k : ℕ) (xs ys : List α)
    (h : k + xs.length ≤ a.length) :
    splice (splice a k xs) (k + xs.length) ys = splice a k (xs ++ ys) := by
  have htake : (a.take k ++ xs).length = k + xs.length := by
    simp only [List.length_append, List.length_take]
    omega
  have hfront : (splice a k xs).take (k + xs.length) = a.take k ++ xs := by
    rw [splice, List.take_left' htake]
  have hback : (splice a k xs).drop (k + xs.length + ys.length) =
      a.drop (k + (xs ++ ys).length) := by
    rw [← List.drop_drop, splice, List.drop_left' htake, List.drop_drop]
    simp only [List.length_append, Nat.add_assoc]
  rw [splice, hfront, hback, splice]
  simp only [List.append_assoc]

/-- Reading a prefix that ends with the block: what was there, then the block. -/
theorem take_splice (a : List α) (k : ℕ) (xs : List α) (h : k ≤ a.length) :
    (splice a k xs).take (k + xs.length) = a.take k ++ xs := by
  apply List.take_left'
  simp only [List.length_append, List.length_take]
  omega

theorem splice_singleton (a : List α) (k : ℕ) (c : α) (h : k < a.length) :
    a.set k c = splice a k [c] := by
  rw [splice, List.set_eq_take_append_cons_drop, if_pos h]
  simp

/-- `for (i = 0; i < n; i++) { dst[idx] = src[i]; idx++; }`, with `i` and `idx` so far. -/
def copyLoop (src : List α) : ℕ → ℤ → ℤ → List α → Exec (List α)
  | 0, _, _, dst => .ok dst
  | n + 1, i, idx, dst => do
    let c ← readAt src i
    let dst ← writeAt dst idx c
    copyLoop src n (i + 1) (idx + 1) dst

/-- The loop looks at nothing but what it copies. -/
theorem copyLoop_congr {src src' : List α} {n : ℕ} {i idx : ℤ} {dst : List α}
    (h : ∀ k : ℤ, i ≤ k → k < i + n → readAt src' k = readAt src k) :
    copyLoop src' n i idx dst = copyLoop src n i idx dst := by
  induction n generalizing i idx dst with
  | zero => rfl
  | succ n ih =>
    rw [copyLoop, copyLoop, h i (Int.le_refl i) (by omega)]
    refine bind_congr fun c => bind_congr fun dst => ih ?_
    intro k hk hlt
    exact h k (by omega) (by omega)

/-- Two arrays with the same beginning. -/
theorem readAt_append_left (front behind behind' : List α) {i : ℤ} (hi : i < front.length) :
    readAt (front ++ behind') i = readAt (front ++ behind) i := by
  unfold readAt
  split
  · rw [List.getElem?_append_left (by omega), List.getElem?_append_left (by omega)]
  · rfl

/-- The loop inside the bounds of both arrays writes one block. -/
theorem copyLoop_eq (src : List α) (n i k : ℕ) (dst : List α)
    (hsrc : i + n ≤ src.length) (hdst : k + n ≤ dst.length) :
    copyLoop src n i k dst = .ok (splice dst k ((src.drop i).take n)) := by
  induction n generalizing i k dst with
  | zero => simp [copyLoop]
  | succ n ih =>
    have hi : i < src.length := by omega
    have hread : readAt src (i : ℤ) = .ok src[i] :=
      readAt_natCast src i src[i] (List.getElem?_eq_getElem hi)
    have hwrite := writeAt_natCast dst k src[i] (by omega)
    have hstep := ih (i + 1) (k + 1) (dst.set k src[i]) (by omega)
      (by simp only [List.length_set]; omega)
    have hblock : (src.drop i).take (n + 1) = [src[i]] ++ (src.drop (i + 1)).take n := by
      rw [List.drop_eq_getElem_cons hi, List.take_succ_cons]
      rfl
    simp only [copyLoop, hread, ok_bind, hwrite]
    rw [show (i : ℤ) + 1 = ((i + 1 : ℕ) : ℤ) by omega,
      show (k : ℤ) + 1 = ((k + 1 : ℕ) : ℤ) by omega, hstep,
      splice_singleton dst k src[i] (by omega), hblock]
    exact congrArg Except.ok (splice_splice dst k [src[i]] _ (by simp; omega))

/-- The loop ends without a fault only inside the bounds of both arrays. -/
theorem copyLoop_bounds (src : List α) (n i k : ℕ) (dst out : List α)
    (h : copyLoop src n i k dst = .ok out) (hn : 0 < n) :
    i + n ≤ src.length ∧ k + n ≤ dst.length := by
  induction n generalizing i k dst with
  | zero => omega
  | succ n ih =>
    simp only [copyLoop, bind_eq_ok] at h
    obtain ⟨c, hread, mid, hwrite, hrest⟩ := h
    have hi : i < src.length := by
      have hget := (readAt_eq_ok.mp hread).2
      simp only [Int.toNat_natCast] at hget
      exact (List.getElem?_eq_some_iff.mp hget).1
    obtain ⟨_, hk, hmid⟩ := writeAt_eq_ok.mp hwrite
    simp only [Int.toNat_natCast] at hk
    rcases Nat.eq_zero_or_pos n with hzero | hpos
    · omega
    · rw [show (i : ℤ) + 1 = ((i + 1 : ℕ) : ℤ) by omega,
        show (k : ℤ) + 1 = ((k + 1 : ℕ) : ℤ) by omega] at hrest
      have hlen : mid.length = dst.length := by rw [← hmid, List.length_set]
      have := ih (i + 1) (k + 1) mid hrest hpos
      omega

theorem copyLoop_length {src dst out : List α} {n : ℕ} {i k : ℤ}
    (h : copyLoop src n i k dst = .ok out) : out.length = dst.length := by
  induction n generalizing i k dst with
  | zero =>
    obtain rfl := Except.ok.inj h
    rfl
  | succ n ih =>
    obtain ⟨c, -, h⟩ := bind_eq_ok.mp h
    obtain ⟨mid, hwrite, h⟩ := bind_eq_ok.mp h
    obtain ⟨-, -, rfl⟩ := writeAt_eq_ok.mp hwrite
    rw [ih h, List.length_set]

/-- A block that is longer than the rest of the array is written until the array ends. -/
theorem copyLoop_overflow (src : List α) (n i k : ℕ) (dst : List α)
    (hsrc : i + n ≤ src.length) (hk : k ≤ dst.length) (hdst : dst.length < k + n) :
    copyLoop src n i k dst = .error .writeOutside := by
  induction n generalizing i k dst with
  | zero => omega
  | succ n ih =>
    have hi : i < src.length := by omega
    have hread : readAt src (i : ℤ) = .ok src[i] :=
      readAt_natCast src i src[i] (List.getElem?_eq_getElem hi)
    rw [copyLoop, hread, ok_bind]
    rcases Nat.lt_or_eq_of_le hk with hlt | hend
    · have hstep := ih (i + 1) (k + 1) (dst.set k src[i]) (by omega)
        (by simp only [List.length_set]; omega) (by simp only [List.length_set]; omega)
      push_cast at hstep
      rw [writeAt_natCast dst k src[i] hlt, ok_bind]
      exact hstep
    · have hwrite : writeAt dst (k : ℤ) src[i] = .error .writeOutside := by
        rw [writeAt, if_neg (by omega)]
      rw [hwrite]
      rfl

/-- `for (; i < n; i++) dst[i] = src[idx++]` inside one array, `n` cells from `i` and `idx` on. -/
def moveLoop : ℕ → ℤ → ℤ → List α → Exec (List α)
  | 0, _, _, a => .ok a
  | n + 1, i, idx, a => do
    let c ← readAt a idx
    let a ← writeAt a i c
    moveLoop n (i + 1) (idx + 1) a

/-- Moving a block towards the front reads every cell before it is overwritten. -/
theorem moveLoop_eq (a : List α) (n i d : ℕ) (h : i + d + n ≤ a.length) :
    moveLoop n i (i + d : ℕ) a = .ok (splice a i ((a.drop (i + d)).take n)) := by
  induction n generalizing i a with
  | zero => simp [moveLoop]
  | succ n ih =>
    have hi : i + d < a.length := by omega
    have hread : readAt a ((i + d : ℕ) : ℤ) = .ok a[i + d] :=
      readAt_natCast a (i + d) a[i + d] (List.getElem?_eq_getElem hi)
    have hwrite := writeAt_natCast a i a[i + d] (by omega)
    have hstep := ih (a.set i a[i + d]) (i + 1) (by simp only [List.length_set]; omega)
    have hdrop : (a.set i a[i + d]).drop (i + 1 + d) = a.drop (i + d + 1) := by
      rw [List.drop_set_of_lt (by omega), show i + 1 + d = i + d + 1 by omega]
    have hblock : (a.drop (i + d)).take (n + 1) = [a[i + d]] ++ (a.drop (i + d + 1)).take n := by
      rw [List.drop_eq_getElem_cons hi, List.take_succ_cons]
      rfl
    simp only [moveLoop, hread, ok_bind, hwrite]
    rw [show (i : ℤ) + 1 = ((i + 1 : ℕ) : ℤ) by omega,
      show ((i + d : ℕ) : ℤ) + 1 = ((i + 1 + d : ℕ) : ℤ) by omega, hstep, hdrop,
      splice_singleton a i a[i + d] (by omega), hblock]
    exact congrArg Except.ok (splice_splice a i [a[i + d]] _ (by simp; omega))

/-- A move of at least one cell that ends reads no cell in front of the array. -/
theorem moveLoop_start {a b : List α} {n : ℕ} {i j : ℤ} (h : moveLoop n i j a = .ok b)
    (hn : 0 < n) : 0 ≤ j := by
  obtain ⟨n, rfl⟩ : ∃ m, n = m + 1 := ⟨n - 1, by omega⟩
  obtain ⟨c, hread, -⟩ := bind_eq_ok.mp h
  exact (readAt_eq_ok.mp hread).1

theorem moveLoop_map {β : Type} (f : α → β) {n : ℕ} {i j : ℤ} {a b : List α}
    (h : moveLoop n i j a = .ok b) : moveLoop n i j (a.map f) = .ok (b.map f) := by
  induction n generalizing i j a with
  | zero =>
    obtain rfl := Except.ok.inj h
    rfl
  | succ n ih =>
    obtain ⟨c, hread, h⟩ := bind_eq_ok.mp h
    obtain ⟨a', hwrite, h⟩ := bind_eq_ok.mp h
    rw [moveLoop, readAt_map f hread, ok_bind, writeAt_map f hwrite, ok_bind]
    exact ih h

/-- `for (i = 0; i < n; i++) a[k + i] = c`. -/
def fillLoop (c : α) : ℕ → ℤ → List α → Exec (List α)
  | 0, _, a => .ok a
  | n + 1, i, a => do
    let a ← writeAt a i c
    fillLoop c n (i + 1) a

theorem fillLoop_eq (c : α) (n k : ℕ) (a : List α) (h : k + n ≤ a.length) :
    fillLoop c n k a = .ok (splice a k (List.replicate n c)) := by
  induction n generalizing k a with
  | zero => simp [fillLoop]
  | succ n ih =>
    have hwrite := writeAt_natCast a k c (by omega)
    have hstep := ih (k + 1) (a.set k c) (by simp only [List.length_set]; omega)
    simp only [fillLoop, hwrite, ok_bind]
    rw [show (k : ℤ) + 1 = ((k + 1 : ℕ) : ℤ) by omega, hstep,
      splice_singleton a k c (by omega)]
    exact congrArg Except.ok (splice_splice a k [c] _ (by simp; omega))

theorem fillLoop_map {β : Type} (f : α → β) {c : α} {n : ℕ} {i : ℤ} {a b : List α}
    (h : fillLoop c n i a = .ok b) : fillLoop (f c) n i (a.map f) = .ok (b.map f) := by
  induction n generalizing i a with
  | zero =>
    obtain rfl := Except.ok.inj h
    rfl
  | succ n ih =>
    obtain ⟨a', hwrite, h⟩ := bind_eq_ok.mp h
    rw [fillLoop, writeAt_map f hwrite, ok_bind]
    exact ih h

/-- The values of `a[i]`, `a[i + 1]`, …, `n` of them. -/
def readLoop (a : List α) : ℕ → ℤ → Exec (List α)
  | 0, _ => .ok []
  | n + 1, i => do
    let c ← readAt a i
    let rest ← readLoop a n (i + 1)
    .ok (c :: rest)

theorem readLoop_eq (a : List α) (n k : ℕ) (h : k + n ≤ a.length) :
    readLoop a n k = .ok ((a.drop k).take n) := by
  induction n generalizing k with
  | zero => simp [readLoop]
  | succ n ih =>
    have hk : k < a.length := by omega
    have hread : readAt a (k : ℤ) = .ok a[k] :=
      readAt_natCast a k a[k] (List.getElem?_eq_getElem hk)
    have hstep := ih (k + 1) (by omega)
    simp only [readLoop, hread, ok_bind]
    rw [show (k : ℤ) + 1 = ((k + 1 : ℕ) : ℤ) by omega, hstep, ok_bind,
      List.drop_eq_getElem_cons hk, List.take_succ_cons]

theorem readLoop_map {β : Type} (f : α → β) {a out : List α} {n : ℕ} {i : ℤ}
    (h : readLoop a n i = .ok out) : readLoop (a.map f) n i = .ok (out.map f) := by
  induction n generalizing i out with
  | zero =>
    obtain rfl := Except.ok.inj h
    rfl
  | succ n ih =>
    obtain ⟨c, hread, h⟩ := bind_eq_ok.mp h
    obtain ⟨rest, hrest, h⟩ := bind_eq_ok.mp h
    obtain rfl := Except.ok.inj h
    rw [readLoop, readAt_map f hread, ok_bind, ih hrest]
    rfl

/-- Reading a block that stands behind another. -/
theorem readLoop_append (front text behind : List α) :
    readLoop (front ++ text ++ behind) text.length front.length = .ok text := by
  rw [readLoop_eq _ _ _ (by simp only [List.length_append]; omega), List.append_assoc,
    List.drop_left, List.take_left]

/-- Reading an element that stands behind a block. -/
theorem readAt_append (front behind : List α) (c : α) :
    readAt (front ++ c :: behind) front.length = .ok c :=
  readAt_natCast _ _ _ (by simp)

/-- A run of reads that ends stayed inside the array. -/
theorem readLoop_bounds (a out : List α) (n : ℕ) (i : ℤ)
    (h : readLoop a n i = .ok out) (hn : 0 < n) :
    0 ≤ i ∧ i.toNat + n ≤ a.length := by
  induction n generalizing i out with
  | zero => omega
  | succ n ih =>
    simp only [readLoop, bind_eq_ok] at h
    obtain ⟨c, hread, rest, hrest, -⟩ := h
    obtain ⟨hi, hget⟩ := readAt_eq_ok.mp hread
    have hlt : i.toNat < a.length := (List.getElem?_eq_some_iff.mp hget).1
    rcases Nat.eq_zero_or_pos n with hzero | hpos
    · omega
    · have := ih rest (i + 1) hrest hpos
      omega

/-- The text of a string: the elements before the first terminator. -/
def cString [DecidableEq α] (nul : α) : List α → Exec (List α)
  | [] => .error .readOutside
  | c :: rest =>
    if c = nul then .ok [] else do
      let text ← cString nul rest
      .ok (c :: text)

theorem cString_append [DecidableEq α] (nul : α) (text rest : List α) (h : nul ∉ text) :
    cString nul (text ++ nul :: rest) = .ok text := by
  induction text with
  | nil => simp [cString]
  | cons c text ih =>
    simp only [List.mem_cons, not_or] at h
    have hc : c ≠ nul := fun hcn => h.1 hcn.symm
    simp [cString, hc, ih h.2]

/-- A string that can be read is terminated inside the array. -/
theorem cString_eq_ok [DecidableEq α] {nul : α} {a text : List α}
    (h : cString nul a = .ok text) : nul ∉ text ∧ ∃ rest, a = text ++ nul :: rest := by
  induction a generalizing text with
  | nil => simp [cString] at h
  | cons c a ih =>
    by_cases hc : c = nul
    · simp only [cString, hc, ↓reduceIte, Except.ok.injEq] at h
      subst h hc
      exact ⟨by simp, a, rfl⟩
    · simp only [cString, hc, ↓reduceIte, bind_eq_ok, Except.ok.injEq] at h
      obtain ⟨tail, htail, rfl⟩ := h
      obtain ⟨hmem, rest, rfl⟩ := ih htail
      exact ⟨by simp [hmem, Ne.symm hc], rest, rfl⟩

/-- `while (a[idx] != sep) { temp[i] = a[idx]; idx++; i++; }` into an array of `cap` cells, and
the `idx++` that follows: the field in `temp`, and the array behind the separator. -/
def scanTo [DecidableEq α] (sep : α) (cap : ℕ) : List α → ℕ → Exec (List α × List α)
  | [], _ => .error .readOutside
  | c :: rest, i =>
    if c = sep then .ok ([], rest)
    else if i < cap then do
      let (field, behind) ← scanTo sep cap rest (i + 1)
      .ok (c :: field, behind)
    else .error .writeOutside

theorem scanTo_append [DecidableEq α] {sep : α} {cap : ℕ} (field behind : List α) (i : ℕ)
    (h : sep ∉ field) (hi : i ≤ cap) (r : List α × List α) :
    scanTo sep cap (field ++ sep :: behind) i = .ok r ↔
      field.length + i ≤ cap ∧ r = (field, behind) := by
  induction field generalizing i r with
  | nil => simp [scanTo, hi, eq_comm]
  | cons c field ih =>
    simp only [List.mem_cons, not_or] at h
    have hc : c ≠ sep := fun hcs => h.1 hcs.symm
    simp only [List.cons_append, scanTo, hc, ↓reduceIte, List.length_cons]
    by_cases hlt : i < cap
    · simp only [hlt, ↓reduceIte, bind_eq_ok]
      constructor
      · rintro ⟨mid, hmid, hr⟩
        obtain ⟨hlen, rfl⟩ := (ih (i + 1) h.2 (by omega) mid).mp hmid
        obtain rfl := Except.ok.inj hr
        exact ⟨by omega, rfl⟩
      · rintro ⟨hlen, rfl⟩
        exact ⟨(field, behind), (ih (i + 1) h.2 (by omega) _).mpr ⟨by omega, rfl⟩, rfl⟩
    · simp only [hlt, ↓reduceIte, reduceCtorEq, false_iff, not_and]
      intro hlen
      omega

/-- The array after `out` has been written from its start on, and the index behind it. -/
def writtenFront (a out : List α) : List α × ℕ := (splice a 0 out, out.length)

/-- `for (i = 0; i < n; i++) { a[idx] = src[i]; idx++; }` on an array and its index. -/
def putLoop (state : List α × ℕ) (src : List α) (n : ℤ) : Exec (List α × ℕ) := do
  let a ← copyLoop src n.toNat 0 state.2 state.1
  .ok (a, state.2 + n.toNat)

/-- Writing on behind what has been written. -/
theorem putLoop_writtenFront (a out src : List α) (n : ℤ) (s : List α × ℕ)
    (hout : out.length ≤ a.length) :
    putLoop (writtenFront a out) src n = .ok s ↔
      n.toNat ≤ src.length ∧ out.length + n.toNat ≤ a.length ∧
        s = writtenFront a (out ++ src.take n.toNat) := by
  have hlen : (splice a 0 out).length = a.length := splice_length _ _ _ (by omega)
  have hadj := splice_splice a 0 out (src.take n.toNat) (by omega)
  rw [Nat.zero_add] at hadj
  constructor
  · intro h
    obtain ⟨b, hcopy, hs⟩ := bind_eq_ok.mp h
    have hbounds : n.toNat ≤ src.length ∧ out.length + n.toNat ≤ a.length := by
      rcases Nat.eq_zero_or_pos n.toNat with hzero | hpos
      · omega
      · have hin := copyLoop_bounds src n.toNat 0 out.length (splice a 0 out) b hcopy hpos
        omega
    refine ⟨hbounds.1, hbounds.2, ?_⟩
    have hblock := copyLoop_eq src n.toNat 0 out.length (splice a 0 out) (by omega) (by omega)
    simp only [writtenFront] at hcopy
    rw [Int.natCast_zero] at hblock
    rw [hblock] at hcopy
    obtain rfl := Except.ok.inj hcopy
    obtain rfl := Except.ok.inj hs
    simp only [writtenFront, List.drop_zero, List.length_append, List.length_take]
    rw [Nat.min_eq_left hbounds.1, hadj]
  · rintro ⟨hsrc, hdst, rfl⟩
    have hblock := copyLoop_eq src n.toNat 0 out.length (splice a 0 out) (by omega) (by omega)
    rw [Int.natCast_zero] at hblock
    simp only [putLoop, writtenFront, hblock, ok_bind, List.drop_zero, hadj, List.length_append,
      List.length_take]
    rw [Nat.min_eq_left hsrc]

theorem writtenFront_nil (a : List α) : writtenFront a [] = (a, 0) := by
  simp [writtenFront]

theorem writtenFront_take (a out : List α) :
    (writtenFront a out).1.take (writtenFront a out).2 = out := by
  have htake := take_splice a 0 out (Nat.zero_le _)
  simpa only [writtenFront, Nat.zero_add, List.take_zero, List.nil_append] using htake

/-- A run that does not come to a write outside an array. -/
def WritesInside (x : Exec α) : Prop := x ≠ .error .writeOutside

section

variable {x : Exec α} {f : α → Exec β} {a : α}

theorem writesInside_ok (a : α) : WritesInside (.ok a : Exec α) := by
  intro h
  cases h

theorem WritesInside.bind (hx : WritesInside x) (hf : ∀ a, x = .ok a → WritesInside (f a)) :
    WritesInside (x >>= f) := by
  cases x with
  | error e =>
    intro h
    exact hx (congrArg Except.error (Except.error.inj h))
  | ok a => exact hf a rfl

theorem WritesInside.of_bind (h : WritesInside (x >>= f)) : WritesInside x := by
  rintro rfl
  exact h rfl

/-- The rest of a run writes inside when the whole does. -/
theorem WritesInside.after (h : WritesInside (x >>= f)) (hx : x = .ok a) : WritesInside (f a) := by
  rw [hx, ok_bind] at h
  exact h

theorem writesInside_readAt (a : List α) (i : ℤ) : WritesInside (readAt a i) := by
  unfold readAt
  intro h
  split at h
  · split at h <;> cases h
  · cases h

theorem writesInside_checkInt (y : ℤ) : WritesInside (checkInt y) := by
  unfold checkInt
  intro h
  split at h <;> cases h

theorem writesInside_cString [DecidableEq α] (nul : α) (a : List α) :
    WritesInside (cString nul a) := by
  induction a with
  | nil =>
    intro h
    cases h
  | cons c a ih =>
    unfold cString
    split
    · exact writesInside_ok []
    · exact ih.bind (fun text _ => writesInside_ok (c :: text))

end

end CheckedArray
