import Mathlib.Tactic

/-!
# Numbers in an array of digits

`segment b d i n` is the number whose `n` digits to the base `b` stand in the array `d` from `i` on,
the highest first.

* `segment_add`: a segment in two parts;
* `segment_lt`, `mul_le_segment`: how large it is;
* `segment_lt_of_digit`, `segment_le_of_prefix`: what the first difference, and an end without one,
  say about the order of two fractions `0.d₀d₁…`.
-/

namespace Fgds.Lib.Digits

def segment (b : Nat) (d : Nat → Nat) (i : Nat) : Nat → Nat
  | 0 => 0
  | n + 1 => b * segment b d i n + d (i + n)

variable {b : Nat} {d e : Nat → Nat} {i n : Nat}

@[simp] theorem segment_zero (b : Nat) (d : Nat → Nat) (i : Nat) : segment b d i 0 = 0 := rfl

theorem segment_succ (b : Nat) (d : Nat → Nat) (i n : Nat) :
    segment b d i (n + 1) = b * segment b d i n + d (i + n) := rfl

theorem segment_congr (h : ∀ j < n, d (i + j) = e (i + j)) :
    segment b d i n = segment b e i n := by
  induction n with
  | zero => rfl
  | succ n ih =>
    rw [segment_succ, segment_succ, ih fun j hj => h j (by omega), h n (by omega)]

theorem segment_eq_zero (h : ∀ j < n, d (i + j) = 0) : segment b d i n = 0 := by
  induction n with
  | zero => rfl
  | succ n ih => rw [segment_succ, ih fun j hj => h j (by omega), h n (by omega), Nat.mul_zero]

/-- A list of digits as an array. -/
theorem segment_getD (b : Nat) (l : List Nat) :
    segment b (fun j => l.getD j 0) 0 l.length = l.foldl (fun n c => b * n + c) 0 := by
  induction l using List.reverseRecOn with
  | nil => rfl
  | append_singleton l c ih =>
    have hinit : segment b (fun j => (l ++ [c]).getD j 0) 0 l.length =
        segment b (fun j => l.getD j 0) 0 l.length :=
      segment_congr fun j hj => by simp [List.getElem?_append_left hj]
    rw [List.length_append, List.length_singleton, segment_succ, hinit, ih, List.foldl_append]
    simp

theorem segment_add (b : Nat) (d : Nat → Nat) (i m n : Nat) :
    segment b d i (m + n) = segment b d i m * b ^ n + segment b d (i + m) n := by
  induction n with
  | zero => simp
  | succ n ih =>
    rw [← Nat.add_assoc, segment_succ, ih, segment_succ, Nat.pow_succ, Nat.add_assoc i m n]
    ring

theorem segment_lt (h : ∀ j < n, d (i + j) < b) : segment b d i n < b ^ n := by
  induction n with
  | zero => simp
  | succ n ih =>
    have hrest := ih fun j hj => h j (by omega)
    have hlast := h n (by omega)
    rw [segment_succ, Nat.pow_succ]
    calc b * segment b d i n + d (i + n) < b * segment b d i n + b := by omega
      _ = b * (segment b d i n + 1) := by ring
      _ ≤ b * b ^ n := Nat.mul_le_mul_left b hrest
      _ = b ^ n * b := Nat.mul_comm _ _

/-- The first digit alone. -/
theorem mul_le_segment (b : Nat) (d : Nat → Nat) (i n : Nat) :
    d i * b ^ n ≤ segment b d i (n + 1) := by
  rw [Nat.add_comm n 1, segment_add, segment_succ, segment_zero, Nat.mul_zero, Nat.zero_add,
    Nat.add_zero]
  exact Nat.le_add_right _ _

theorem segment_lt_succ_mul (h : ∀ j < n + 1, d (i + j) < b) :
    segment b d i (n + 1) < (d i + 1) * b ^ n := by
  have hrest : segment b d (i + 1) n < b ^ n := segment_lt fun j hj => by
    rw [Nat.add_assoc, Nat.add_comm 1 j]
    exact h (j + 1) (by omega)
  rw [Nat.add_comm n 1, segment_add, segment_succ, segment_zero, Nat.mul_zero, Nat.zero_add,
    Nat.add_zero, Nat.add_mul, Nat.one_mul]
  omega

theorem segment_pos (hb : 0 < b) (h : ∃ j < n, d (i + j) ≠ 0) : 0 < segment b d i n := by
  induction n with
  | zero => simp at h
  | succ n ih =>
    obtain ⟨j, hj, hne⟩ := h
    rw [segment_succ]
    rcases Nat.lt_succ_iff_lt_or_eq.mp hj with hlt | rfl
    · exact Nat.add_pos_left (Nat.mul_pos hb (ih ⟨j, hlt, hne⟩)) _
    · exact Nat.add_pos_right _ (Nat.pos_of_ne_zero hne)

/-! ## Comparing two fractions

`0.d₀d₁…` with `k` digits and `0.e₀e₁…` with `m` digits are compared by the numbers
`segment b d 0 k * b ^ m` and `segment b e 0 m * b ^ k`. -/

section Compare

variable {k m j : Nat} (hpre : ∀ i < j, d i = e i)
include hpre

/-- The digits differ for the first time at `j`, where that of `d` is smaller. -/
theorem segment_lt_of_digit (hd : ∀ i < k, d i < b) (hjk : j < k) (hjm : j < m)
    (hlt : d j < e j) : segment b d 0 k * b ^ m < segment b e 0 m * b ^ k := by
  obtain ⟨k', rfl⟩ := Nat.exists_eq_add_of_lt hjk
  obtain ⟨m', rfl⟩ := Nat.exists_eq_add_of_lt hjm
  have hb : 0 < b := by
    have := hd 0 (by omega)
    omega
  have hsame : segment b d 0 j = segment b e 0 j :=
    segment_congr fun i hi => by simpa using hpre i hi
  have hupper : segment b d 0 (j + k' + 1) < (segment b d 0 j * b + e j) * b ^ k' := by
    have htail : segment b d (0 + j) (k' + 1) < (d (0 + j) + 1) * b ^ k' :=
      segment_lt_succ_mul fun i hi => hd _ (by omega)
    have hle : (d (0 + j) + 1) * b ^ k' ≤ e j * b ^ k' := by
      rw [Nat.zero_add]
      exact Nat.mul_le_mul_right _ hlt
    rw [Nat.add_assoc, segment_add, Nat.pow_succ', ← Nat.mul_assoc, Nat.add_mul]
    omega
  have hlower : (segment b e 0 j * b + e j) * b ^ m' ≤ segment b e 0 (j + m' + 1) := by
    have htail := mul_le_segment b e (0 + j) m'
    rw [Nat.zero_add] at htail
    rw [Nat.add_assoc, segment_add, Nat.pow_succ', ← Nat.mul_assoc, Nat.add_mul, Nat.zero_add]
    omega
  have hk : 0 < b ^ (j + m' + 1) := Nat.pow_pos hb
  calc segment b d 0 (j + k' + 1) * b ^ (j + m' + 1)
      < (segment b d 0 j * b + e j) * b ^ k' * b ^ (j + m' + 1) :=
        Nat.mul_lt_mul_of_pos_right hupper hk
    _ = (segment b e 0 j * b + e j) * b ^ m' * b ^ (j + k' + 1) := by
        rw [hsame]
        ring
    _ ≤ segment b e 0 (j + m' + 1) * b ^ (j + k' + 1) := Nat.mul_le_mul_right _ hlower

omit hpre in
/-- All digits of `e` are the first ones of `d`. -/
theorem segment_le_of_prefix (hpre : ∀ i < m, d i = e i) (hmk : m ≤ k) :
    segment b e 0 m * b ^ k ≤ segment b d 0 k * b ^ m := by
  obtain ⟨k', rfl⟩ := Nat.exists_eq_add_of_le hmk
  have hsame : segment b d 0 m = segment b e 0 m :=
    segment_congr fun i hi => by simpa using hpre i hi
  rw [segment_add, hsame, Nat.pow_add, ← Nat.mul_assoc, Nat.add_mul]
  calc segment b e 0 m * b ^ m * b ^ k' = segment b e 0 m * b ^ k' * b ^ m := by ring
    _ ≤ _ := Nat.le_add_right _ _

omit hpre in
/-- All digits of `d` are the first ones of `e`, and `e` goes on with others than zeros. -/
theorem segment_lt_of_prefix (hb : 0 < b) (hpre : ∀ i < k, d i = e i)
    (hrest : ∃ i, k ≤ i ∧ i < m ∧ e i ≠ 0) :
    segment b d 0 k * b ^ m < segment b e 0 m * b ^ k := by
  obtain ⟨i, hki, him, hne⟩ := hrest
  obtain ⟨m', rfl⟩ := Nat.exists_eq_add_of_le (show k ≤ m by omega)
  have hsame : segment b d 0 k = segment b e 0 k :=
    segment_congr fun i hi => by simpa using hpre i hi
  have htail : 0 < segment b e (0 + k) m' := segment_pos hb ⟨i - k, by omega, by
    rw [show 0 + k + (i - k) = i by omega]
    exact hne⟩
  rw [segment_add b e, ← hsame, Nat.pow_add, Nat.add_mul]
  have hpos := Nat.mul_pos htail (Nat.pow_pos hb : 0 < b ^ k)
  calc segment b d 0 k * (b ^ k * b ^ m') = segment b d 0 k * b ^ m' * b ^ k := by ring
    _ < _ := by omega

end Compare

end Fgds.Lib.Digits
