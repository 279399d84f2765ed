import Mathlib.Tactic

/-!
# Rounding to the nearest whole number, ties to even
-/

namespace Fgds.Lib.HalfEven

/-- The whole number nearest to `a / b`, the even one of two. -/
def halfEven (a b : Nat) : Nat :=
  a / b + if b < 2 * (a % b) ∨ b = 2 * (a % b) ∧ a / b % 2 = 1 then 1 else 0

theorem halfEven_mul_left {c : Nat} (hc : 0 < c) (a b : Nat) :
    halfEven (c * a) (c * b) = halfEven a b := by
  have hcond : (c * b < 2 * (c * (a % b)) ↔ b < 2 * (a % b)) ∧
      (c * b = 2 * (c * (a % b)) ↔ b = 2 * (a % b)) := by
    rw [Nat.mul_left_comm 2 c]
    exact ⟨Nat.mul_lt_mul_left hc, Nat.mul_right_inj (Nat.ne_of_gt hc)⟩
  unfold halfEven
  rw [Nat.mul_div_mul_left _ _ hc, Nat.mul_mod_mul_left]
  simp only [hcond.1, hcond.2]

/-- Only the quotient counts. -/
theorem halfEven_congr {a b c d : Nat} (hb : 0 < b) (hd : 0 < d) (h : a * d = c * b) :
    halfEven a b = halfEven c d := by
  rw [← halfEven_mul_left hd a b, ← halfEven_mul_left hb c d, Nat.mul_comm d a, h,
    Nat.mul_comm b c, Nat.mul_comm d b]

/-- Rounding leaves a whole number alone. -/
theorem halfEven_mul {b : Nat} (hb : 0 < b) (q : Nat) : halfEven (q * b) b = q := by
  unfold halfEven
  rw [Nat.mul_div_cancel q hb, Nat.mul_mod_left, if_neg (by omega), Nat.add_zero]

theorem div_le_halfEven (a b : Nat) : a / b ≤ halfEven a b := Nat.le_add_right _ _

theorem halfEven_le (a b : Nat) : halfEven a b ≤ a / b + 1 := by
  unfold halfEven
  split <;> omega

/-- No whole number is closer to `a / b`, and if another one is as close, the chosen one is even. -/
theorem halfEven_closest {a b : Nat} (hb : 0 < b) (k : ℤ) :
    |(halfEven a b : ℤ) * b - a| ≤ |k * b - a| ∧
      (|k * b - a| = |(halfEven a b : ℤ) * b - a| → k = halfEven a b ∨ halfEven a b % 2 = 0) := by
  have hdiv := Nat.div_add_mod a b
  have hmod := Nat.mod_lt a hb
  unfold halfEven
  generalize a / b = q at *
  generalize a % b = r at *
  obtain ⟨j, rfl⟩ : ∃ j, k = q + j := ⟨k - q, by ring⟩
  have hdist : |((q : ℤ) + j) * b - a| = |j * b - r| := by
    rw [← hdiv]
    push_cast
    congr 1
    ring
  -- below `q`, at `q`, at `q + 1` and above it
  have hcases : j < 0 ∧ r + b ≤ |j * b - r| ∨ j = 0 ∧ |j * b - r| = r ∨
      j = 1 ∧ |j * b - r| = b - r ∨ 1 < j ∧ 2 * b - r ≤ |j * b - r| := by
    rcases lt_trichotomy j 0 with hneg | rfl | hpos
    · refine Or.inl ⟨hneg, le_trans ?_ (neg_le_abs _)⟩
      nlinarith
    · simp
    · rcases eq_or_lt_of_le (show 1 ≤ j from hpos) with rfl | habove
      · refine Or.inr (Or.inr (Or.inl ⟨rfl, ?_⟩))
        rw [one_mul, abs_of_nonneg (by omega)]
      · refine Or.inr (Or.inr (Or.inr ⟨habove, le_trans ?_ (le_abs_self _)⟩))
        nlinarith
  rw [hdist]
  split
  · have hchosen : |((q + 1 : Nat) : ℤ) * b - a| = b - r := by
      rw [← hdiv, abs_of_nonneg] <;> push_cast <;> nlinarith
    rw [hchosen]
    omega
  · have hchosen : |((q + 0 : Nat) : ℤ) * b - a| = r := by
      rw [← hdiv, abs_of_nonpos] <;> push_cast <;> nlinarith
    rw [hchosen]
    omega

/-- A number below `2 * q` that is rounded up to it: half of it is rounded up to `q`. -/
theorem halfEven_double {a b q : Nat} (hb : 0 < b) (hlt : a < 2 * q * b)
    (h : halfEven a b = 2 * q) : halfEven a (2 * b) = q := by
  have hdiv := Nat.div_add_mod a b
  have hmod := Nat.mod_lt a hb
  have hbelow : a / b < 2 * q := Nat.div_lt_of_lt_mul (by rwa [Nat.mul_comm b])
  unfold halfEven at h
  generalize a / b = f at *
  generalize a % b = r at *
  obtain ⟨hfloor, hup⟩ : f + 1 = 2 * q ∧ b ≤ 2 * r := by
    split at h <;> omega
  obtain ⟨p, rfl⟩ : ∃ p, q = p + 1 := ⟨q - 1, by omega⟩
  have hsum : b + r + 2 * b * p = a := by
    rw [show f = 2 * p + 1 by omega] at hdiv
    linarith
  obtain ⟨hquot, hrem⟩ := (Nat.div_mod_unique (show 0 < 2 * b by omega)).mpr
    ⟨hsum, show b + r < 2 * b by omega⟩
  unfold halfEven
  rw [hquot, hrem, if_pos (by omega)]

end Fgds.Lib.HalfEven
