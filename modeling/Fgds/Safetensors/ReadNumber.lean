import Fgds.Lib.HalfEven
import Fgds.Safetensors.Header
import Fgds.Safetensors.Shifts
import Mathlib.Data.Nat.Size

/-!
# Reading whole numbers

What `from_chars` makes of the decimal text of a whole number below `2 ^ 64`: the loops end, no
digit is lost on the way, and the `double` is the number rounded to 53 binary places, to nearest,
ties to even. Numbers up to `2 ^ 53` are read as they are, which is all that the loader needs of
its `double`.

* `round_value`: `round` is rounding to nearest, ties to even;
* `downLoop_value`, `upLoop_value`: the number is brought between one half and one;
* `from_chars_nearest`: the result;
* `binary64`: the `double` of the loader.
-/

namespace Fgds.Safetensors.FromChars

open Fgds.Lib.CInt Fgds.Lib.Digits Fgds.Lib.HalfEven

/-! ## `round` -/

section Round

variable {h : Decimal}

theorem roundLoop_eq (hdigit : ∀ i < h.numDigits, h.digits i < 10) {i : Nat} (hi : i ≤ 18) :
    roundLoop h i = segment 10 (padded h.digits h.numDigits) 0 i ∧ roundLoop h i < 10 ^ i := by
  induction i with
  | zero => exact ⟨rfl, by simp [roundLoop]⟩
  | succ i ih =>
    obtain ⟨heq, hlt⟩ := ih (by omega)
    have hd : (if i < h.numDigits then h.digits i else 0) < 10 := by
      split
      · exact hdigit i ‹_›
      · decide
    have hnext : 10 * roundLoop h i + (if i < h.numDigits then h.digits i else 0) <
        10 ^ (i + 1) := by
      rw [Nat.pow_succ']
      omega
    have hpow : 10 ^ (i + 1) ≤ 10 ^ 18 := Nat.pow_le_pow_right (by decide) hi
    have hsum : roundLoop h (i + 1) =
        10 * roundLoop h i + (if i < h.numDigits then h.digits i else 0) := by
      rw [roundLoop]
      exact u64_eq rfl (by omega)
    rw [hsum]
    refine ⟨?_, hnext⟩
    rw [segment_succ, ← heq, Nat.zero_add, padded]

theorem round_eq (hn : h.Normal) {p : Nat} (hp : h.decimalPoint = p) (hp18 : p ≤ 18) :
    round h = if roundUp h p then u64 (roundLoop h p + 1 : Nat) else roundLoop h p := by
  have hpos := hn.pos
  rw [round, if_neg (by omega), if_neg (by omega)]
  simp only [hp, Int.toNat_natCast]

/-- Digits behind the point: what they add up to decides. -/
theorem round_fraction (hn : h.Normal) {p : Nat} (hp : h.decimalPoint = p) (hp18 : p ≤ 18)
    (hlt : p < h.numDigits) :
    round h = halfEven (segment 10 h.digits 0 h.numDigits) (10 ^ (h.numDigits - p)) := by
  obtain ⟨hloop, hsmall⟩ := roundLoop_eq hn.digit hp18
  rw [segment_padded _ hlt.le] at hloop
  obtain ⟨q, hq⟩ : ∃ q, h.numDigits = p + (q + 1) := ⟨h.numDigits - p - 1, by omega⟩
  have hrest : segment 10 h.digits (p + 1) q < 10 ^ q :=
    segment_lt fun i hi => hn.digit _ (by omega)
  have hfrac : segment 10 h.digits p (q + 1) =
      h.digits p * 10 ^ q + segment 10 h.digits (p + 1) q := by
    rw [Nat.add_comm q 1, segment_add, segment_succ, segment_zero, Nat.mul_zero, Nat.zero_add,
      Nat.add_zero]
  have hsplit : segment 10 h.digits 0 h.numDigits =
      segment 10 h.digits 0 p * 10 ^ (q + 1) + segment 10 h.digits p (q + 1) := by
    rw [hq, segment_add, Nat.zero_add]
  have hd := hn.digit p hlt
  have hpq : 0 < 10 ^ q := by positivity
  have hfraclt : segment 10 h.digits p (q + 1) < 10 ^ (q + 1) :=
    segment_lt fun i hi => hn.digit _ (by omega)
  obtain ⟨hquot, hmod⟩ : segment 10 h.digits 0 h.numDigits / 10 ^ (q + 1) =
      segment 10 h.digits 0 p ∧ segment 10 h.digits 0 h.numDigits % 10 ^ (q + 1) =
      segment 10 h.digits p (q + 1) := by
    refine (Nat.div_mod_unique (by positivity)).mpr ⟨?_, hfraclt⟩
    rw [hsplit]
    ring
  have hpow : 10 ^ p ≤ 10 ^ 18 := Nat.pow_le_pow_right (by decide) hp18
  have hup : u64 (segment 10 h.digits 0 p + 1 : Nat) = segment 10 h.digits 0 p + 1 :=
    u64_eq rfl (by omega)
  -- the digit before the point is as even as the number is
  have hparity : ((p > 0 && h.digits (p - 1) % 2 == 1) = true) ↔
      segment 10 h.digits 0 p % 2 = 1 := by
    rcases Nat.eq_zero_or_pos p with rfl | hpos
    · simp
    · obtain ⟨p', rfl⟩ : ∃ p', p = p' + 1 := ⟨p - 1, by omega⟩
      rw [segment_succ, Nat.zero_add, Nat.add_sub_cancel]
      simp only [gt_iff_lt, Nat.succ_pos, decide_true, Bool.true_and, beq_iff_eq]
      omega
  rw [halfEven, show h.numDigits - p = q + 1 by omega, hquot, hmod, hfrac, Nat.pow_succ]
  rw [round_eq hn hp hp18, hloop, roundUp, if_pos hlt]
  by_cases htie : h.digits p = 5 ∧ p + 1 = h.numDigits
  · obtain rfl : q = 0 := by omega
    rw [if_pos htie, hn.whole, htie.1, Bool.false_or]
    by_cases hodd : segment 10 h.digits 0 p % 2 = 1
    · rw [if_pos (hparity.mpr hodd), hup, if_pos (.inr ⟨by simp, hodd⟩)]
    · rw [if_neg (fun hc => hodd (hparity.mp hc)), if_neg (by simp [hodd]), Nat.add_zero]
  · rw [if_neg htie]
    by_cases hfive : h.digits p ≥ 5
    · have hmore : 10 ^ q * 10 < 2 * (h.digits p * 10 ^ q + segment 10 h.digits (p + 1) q) := by
        rcases Nat.lt_or_eq_of_le hfive with hgt | heq
        · have := Nat.mul_le_mul_right (10 ^ q) (show 6 ≤ h.digits p from hgt)
          omega
        · -- five and more: the last digit is not zero
          have hlast : 0 < segment 10 h.digits (p + 1) q := by
            refine segment_pos (by decide) ⟨q - 1, by omega, ?_⟩
            have hne := hn.last
            rwa [show h.numDigits - 1 = p + 1 + (q - 1) by omega] at hne
          rw [← heq]
          omega
      rw [decide_eq_true hfive, if_pos rfl, if_pos (.inl hmore), hup]
    · have hless : 2 * (h.digits p * 10 ^ q + segment 10 h.digits (p + 1) q) < 10 ^ q * 10 := by
        have := Nat.mul_le_mul_right (10 ^ q) (show h.digits p ≤ 4 by omega)
        omega
      rw [decide_eq_false hfive, if_neg (by decide), if_neg (by omega), Nat.add_zero]

/-- `round` rounds to nearest, ties to even. -/
theorem round_value (hn : h.Normal) (hp0 : 0 ≤ h.decimalPoint) (hp18 : h.decimalPoint ≤ 18)
    {a b : Nat} (hb : 0 < b) (hv : h.value = a / b) : round h = halfEven a b := by
  obtain ⟨p, hp⟩ : ∃ p : Nat, h.decimalPoint = p := ⟨h.decimalPoint.toNat, by omega⟩
  have hb' : (b : ℚ) ≠ 0 := by positivity
  rw [Decimal.value, hp, eq_div_iff hb'] at hv
  rcases Nat.lt_or_ge p h.numDigits with hlt | hge
  · rw [round_fraction hn hp (by omega) hlt]
    refine halfEven_congr (by positivity) hb ?_
    have hz : ((p : ℤ) - h.numDigits) = -((h.numDigits - p : Nat) : ℤ) := by omega
    rw [hz, zpow_neg, zpow_natCast] at hv
    field_simp at hv
    rw [Nat.mul_comm a]
    exact_mod_cast hv
  · obtain ⟨hloop, hsmall⟩ := roundLoop_eq hn.digit (show p ≤ 18 by omega)
    have hz : ((p : ℤ) - h.numDigits) = ((p - h.numDigits : Nat) : ℤ) := by omega
    rw [hz, zpow_natCast] at hv
    have hwhole : segment 10 h.digits 0 h.numDigits * 10 ^ (p - h.numDigits) * b = a := by
      exact_mod_cast hv
    have hno : roundUp h p = false := if_neg (by omega)
    rw [round_eq hn hp (by omega), hno, if_neg (by decide), hloop, ← hwhole, halfEven_mul hb,
      ← segment_padded_add, Nat.add_sub_cancel' hge]

end Round

/-! ## The loops -/

section Loops

/-- The shifts are large enough to end the loops, and too small to overshoot. -/
theorem shiftFor_bounds {n : Nat} (hn : 0 < n) :
    3 ≤ shiftFor n ∧ shiftFor n ≤ 60 ∧ 2 ^ shiftFor n ≤ 10 ^ n := by
  unfold shiftFor
  split
  · rename_i hlt
    have hall : ∀ n < 19, 0 < n → 3 ≤ powers.getD n 0 ∧ powers.getD n 0 ≤ 60 ∧
        2 ^ powers.getD n 0 ≤ 10 ^ n := by decide
    exact hall n hlt hn
  · refine ⟨by decide, by decide, ?_⟩
    calc 2 ^ maxShift ≤ 10 ^ 19 := by decide
      _ ≤ 10 ^ n := Nat.pow_le_pow_right (by decide) (by omega)

variable {d : Decimal}

theorem ten_zpow_lt {i j : ℤ} (h : (10 : ℚ) ^ i < 10 ^ j) : i < j :=
  (zpow_lt_zpow_iff_right₀ (by norm_num)).mp h

/-- A number from one tenth on has no zeros behind the point. -/
theorem point_nonneg (hn : d.Normal) (hge : (10 : ℚ) ^ (-1 : ℤ) ≤ d.value) :
    0 ≤ d.decimalPoint := by
  have := ten_zpow_lt (lt_of_le_of_lt hge hn.lt)
  omega

/-- A number below one has no digits before the point. -/
theorem point_nonpos (hn : d.Normal) (hlt : d.value < 1) : d.decimalPoint ≤ 0 := by
  have h : (10 : ℚ) ^ (d.decimalPoint - 1) < 10 ^ (0 : ℤ) := by
    rw [zpow_zero]
    exact lt_of_le_of_lt hn.ge hlt
  have := ten_zpow_lt h
  omega

/-- The number is the decimal times `2 ^ e`. -/
structure Scaled (N : Nat) (d : Decimal) (e : ℤ) : Prop where
  normal : d.Normal
  value : d.value * (2 : ℚ) ^ e = N

/-- How far a number from one tenth on can have been scaled down. -/
theorem Scaled.le {N : Nat} (hN : N < 2 ^ 64) {e : ℤ} (h : Scaled N d e)
    (hpoint : 0 ≤ d.decimalPoint) : e ≤ 67 := by
  by_contra hbig
  have hpow : (2 : ℚ) ^ (68 : ℤ) ≤ 2 ^ e := zpow_le_zpow_right₀ (by norm_num) (by omega)
  have htenth : (1 / 10 : ℚ) ≤ d.value := by
    refine le_trans ?_ h.normal.ge
    calc (1 / 10 : ℚ) = 10 ^ (-1 : ℤ) := by norm_num
      _ ≤ 10 ^ (d.decimalPoint - 1) := zpow_le_zpow_right₀ (by norm_num) (by omega)
  have hN' : (N : ℚ) < 18446744073709551616 := by exact_mod_cast hN
  have hprod : (1 / 10 : ℚ) * 2 ^ (68 : ℤ) ≤ d.value * 2 ^ e :=
    mul_le_mul htenth hpow (by positivity) (by linarith)
  rw [h.value] at hprod
  norm_num at hprod
  linarith

/-- Dividing brings the number below one, but not below one tenth. -/
theorem downLoop_value {N : Nat} (hN : N < 2 ^ 64) {rounds : Nat} {e : Nat} (h : Scaled N d e)
    (hpoint : 0 ≤ d.decimalPoint) (hdigits : d.numDigits ≤ 20 + e)
    (hrounds : d.value < 8 ^ rounds) :
    ∃ (d' : Decimal) (e' : Nat), downLoop (rounds + 1) d e = some (.ok (d', e')) ∧
      Scaled N d' e' ∧ d'.decimalPoint = 0 ∧ d'.numDigits ≤ 20 + e' := by
  induction rounds generalizing d e with
  | zero =>
    have hzero := point_nonpos h.normal (by simpa using hrounds)
    refine ⟨d, e, ?_, h, by omega, hdigits⟩
    rw [downLoop, if_neg (by omega)]
  | succ rounds ih =>
    by_cases hpos : d.decimalPoint > 0
    · obtain ⟨p, hp⟩ : ∃ p : Nat, d.decimalPoint = p := ⟨d.decimalPoint.toNat, by omega⟩
      obtain ⟨hs3, hs60, hsmall⟩ := shiftFor_bounds (show 0 < p by omega)
      have he := h.le hN hpoint
      have hmax : maxDigits = 768 := rfl
      obtain ⟨hnormal, hvalue, hcount⟩ :=
        rightShift_value h.normal hs60 (by omega) hpoint
      have hp2 : (0 : ℚ) < 2 ^ shiftFor p := by positivity
      have hge : (10 : ℚ) ^ (-1 : ℤ) ≤ (decimalRightShift d (shiftFor p)).value := by
        have hsmall' : (2 : ℚ) ^ shiftFor p ≤ 10 ^ (p : ℤ) := by
          rw [zpow_natCast]
          exact_mod_cast hsmall
        rw [hvalue, le_div_iff₀ hp2]
        calc (10 : ℚ) ^ (-1 : ℤ) * 2 ^ shiftFor p ≤ 10 ^ (-1 : ℤ) * 10 ^ (p : ℤ) := by gcongr
          _ = 10 ^ (d.decimalPoint - 1) := by
              rw [← zpow_add₀ (by norm_num), hp, neg_add_eq_sub]
          _ ≤ d.value := h.normal.ge
      have hpoint' := point_nonneg hnormal hge
      have hscaled : Scaled N (decimalRightShift d (shiftFor p)) ((e + shiftFor p : Nat) : ℤ) := by
        refine ⟨hnormal, ?_⟩
        rw [← h.value, hvalue]
        push_cast
        rw [zpow_add₀ (by norm_num), zpow_natCast (2 : ℚ) (shiftFor p)]
        field_simp
      have hless : (decimalRightShift d (shiftFor p)).value < 8 ^ rounds := by
        have h8 : (8 : ℚ) ≤ 2 ^ shiftFor p := by
          calc (8 : ℚ) = 2 ^ 3 := by norm_num
            _ ≤ 2 ^ shiftFor p := pow_le_pow_right₀ (by norm_num) hs3
        rw [hvalue, div_lt_iff₀ hp2]
        calc d.value < 8 ^ (rounds + 1) := hrounds
          _ = 8 ^ rounds * 8 := pow_succ _ _
          _ ≤ 8 ^ rounds * 2 ^ shiftFor p := by gcongr
      obtain ⟨d', e', hres, hdone⟩ := ih hscaled hpoint' (by omega) hless
      refine ⟨d', e', ?_, hdone⟩
      rw [downLoop, if_pos hpos, hp, Int.toNat_natCast, if_neg (by
        simp only [decimalPointRange]
        omega), ← hres]
      congr 1
    · exact ⟨d, e, by rw [downLoop, if_neg hpos], h, by omega, hdigits⟩

theorem Scaled.pos {N : Nat} (hN : 1 ≤ N) {e : ℤ} (h : Scaled N d e) (hlt : d.value < 1) :
    0 < e := by
  by_contra hneg
  have hpow : (2 : ℚ) ^ e ≤ 2 ^ (0 : ℤ) := zpow_le_zpow_right₀ (by norm_num) (by omega)
  rw [zpow_zero] at hpow
  have hN' : (1 : ℚ) ≤ N := by exact_mod_cast hN
  have hprod : d.value * (2 : ℚ) ^ e < 1 * 1 := mul_lt_mul hlt hpow (by positivity) (by norm_num)
  rw [h.value] at hprod
  linarith

/-- One round: the first digit says that there is room for the product below one. -/
theorem up_step (hn : d.Normal) (hpoint : d.decimalPoint = 0) (hdigits : d.numDigits ≤ 160)
    (hfive : d.digits 0 < 5) {s : Nat} (hs : s = if d.digits 0 < 2 then 2 else 1) :
    0 < s ∧ (decimalLeftShift d s).Normal ∧ (decimalLeftShift d s).decimalPoint = 0 ∧
      (decimalLeftShift d s).value = d.value * 2 ^ s ∧
      (decimalLeftShift d s).numDigits ≤ d.numDigits + s := by
  have hs12 : s = 1 ∨ s = 2 := by
    rw [hs]
    split <;> simp
  have hmax : maxDigits = 768 := rfl
  obtain ⟨hnormal, hvalue, hcount⟩ := leftShift_value hn (s := s) (by omega) (by omega) (by omega)
  obtain ⟨hlo, hhi⟩ := value_bounds hn.pos hn.digit
  have hge := hn.ge
  rw [hpoint] at hlo hhi hge
  norm_num at hlo hhi hge
  have hless : (decimalLeftShift d s).value < 1 := by
    rw [hvalue, hs]
    split
    · rename_i htwo
      have hd : (d.digits 0 : ℚ) ≤ 1 := by exact_mod_cast Nat.le_of_lt_succ htwo
      norm_num
      linarith
    · have hd : (d.digits 0 : ℚ) ≤ 4 := by exact_mod_cast Nat.le_of_lt_succ hfive
      norm_num
      linarith
  have hmore : (10 : ℚ) ^ (-1 : ℤ) ≤ (decimalLeftShift d s).value := by
    have hpow : (1 : ℚ) ≤ 2 ^ s := one_le_pow₀ (by norm_num)
    rw [hvalue]
    norm_num
    nlinarith
  have h1 := point_nonneg hnormal hmore
  have h2 := point_nonpos hnormal hless
  exact ⟨by omega, hnormal, by omega, hvalue, hcount⟩

/-- From a first digit five on the number is one half at least. -/
theorem five_iff (hn : d.Normal) (hpoint : d.decimalPoint = 0) :
    5 ≤ d.digits 0 ↔ 1 / 2 ≤ d.value := by
  obtain ⟨hlo, hhi⟩ := value_bounds hn.pos hn.digit
  rw [hpoint] at hlo hhi
  norm_num at hlo hhi
  constructor
  · intro hfive
    have hd : (5 : ℚ) ≤ d.digits 0 := by exact_mod_cast hfive
    linarith
  · intro hhalf
    by_contra hfive
    have hd : (d.digits 0 : ℚ) ≤ 4 := by exact_mod_cast (show d.digits 0 ≤ 4 by omega)
    linarith

/-- Multiplying brings it to one half, and keeps it below one. -/
theorem upLoop_value {N : Nat} (hN : 1 ≤ N) {rounds : Nat} {e : ℤ} (h : Scaled N d e)
    (hpoint : d.decimalPoint = 0) (hdigits : d.numDigits + e ≤ 160)
    (hrounds : 1 / 2 ≤ d.value * 2 ^ rounds) :
    ∃ (d' : Decimal) (e' : ℤ), upLoop (rounds + 1) d e = some (.ok (d', e')) ∧ Scaled N d' e' ∧
      1 / 2 ≤ d'.value ∧ d'.value < 1 ∧ d'.numDigits + e' ≤ 160 := by
  induction rounds generalizing d e with
  | zero =>
    rw [pow_zero, mul_one] at hrounds
    refine ⟨d, e, ?_, h, hrounds, by simpa [hpoint] using h.normal.lt, hdigits⟩
    rw [upLoop, if_pos (by omega), if_pos ⟨hpoint, (five_iff h.normal hpoint).mpr hrounds⟩]
  | succ rounds ih =>
    have hlt : d.value < 1 := by simpa [hpoint] using h.normal.lt
    by_cases hfive : d.digits 0 ≥ 5
    · refine ⟨d, e, ?_, h, (five_iff h.normal hpoint).mp hfive, hlt, hdigits⟩
      rw [upLoop, if_pos (by omega), if_pos ⟨hpoint, hfive⟩]
    · have he := h.pos hN hlt
      obtain ⟨s, hs⟩ : ∃ s, s = if d.digits 0 < 2 then 2 else 1 := ⟨_, rfl⟩
      obtain ⟨hs0, hnormal, hpoint', hvalue, hcount⟩ :=
        up_step h.normal hpoint (by omega) (by omega) hs
      have hscaled : Scaled N (decimalLeftShift d s) (e - s) := by
        refine ⟨hnormal, ?_⟩
        rw [← h.value, hvalue, zpow_sub₀ (by norm_num), zpow_natCast]
        field_simp
      have hround : upLoop (rounds + 1 + 1) d e =
          upLoop (rounds + 1) (decimalLeftShift d s) (e - s) := by
        rw [upLoop, if_pos (by omega), if_neg (by omega), if_pos hpoint, ← hs, if_neg (by
          simp only [decimalPointRange]
          omega)]
      have hmore : 1 / 2 ≤ (decimalLeftShift d s).value * 2 ^ rounds := by
        have hpow : (2 : ℚ) ≤ 2 ^ s := by
          calc (2 : ℚ) = 2 ^ 1 := (pow_one _).symm
            _ ≤ 2 ^ s := pow_le_pow_right₀ (by norm_num) hs0
        have hpos : (0 : ℚ) < d.value := lt_of_lt_of_le (by positivity) h.normal.ge
        rw [hvalue]
        calc (1 / 2 : ℚ) ≤ d.value * 2 ^ (rounds + 1) := hrounds
          _ = d.value * 2 * 2 ^ rounds := by ring
          _ ≤ d.value * 2 ^ s * 2 ^ rounds := by gcongr
      rw [hround]
      exact ih hscaled hpoint' (by omega) hmore

end Loops

/-! ## The result -/

/-- The number in the bits of a `double` that is neither infinite nor NaN. -/
def doubleValue (word : Nat) : ℚ :=
  let exponent : Nat := word / 2 ^ 52 % 2 ^ 11
  let fraction : Nat := word % 2 ^ 52
  (if word / 2 ^ 63 % 2 = 1 then -1 else 1) *
    if exponent = 0 then fraction * (2 : ℚ) ^ (-1074 : ℤ)
    else (2 ^ 52 + fraction : ℚ) * (2 : ℚ) ^ ((exponent : ℤ) - 1075)

/-- The 53 binary digits kept of a number, rounded to nearest, ties to even. -/
def significand (N : Nat) : Nat := halfEven (N * 2 ^ 53) (2 ^ N.size)

/-- The number with 53 binary places. -/
def nearest (N : Nat) : ℚ := significand N * (2 : ℚ) ^ ((N.size : ℤ) - 53)

/-- Before rounding, the 53 digits do not start with a zero. -/
theorem significand_floor {N : Nat} (hN1 : 1 ≤ N) :
    2 ^ 52 ≤ N * 2 ^ 53 / 2 ^ N.size ∧ N * 2 ^ 53 < 2 ^ 53 * 2 ^ N.size := by
  obtain ⟨s, hs⟩ : ∃ s, N.size = s + 1 :=
    ⟨N.size - 1, by have := Nat.size_pos.mpr hN1; omega⟩
  have hlower : 2 ^ s ≤ N := Nat.lt_size.mp (by omega)
  have hupper : N < 2 ^ N.size := Nat.lt_size_self N
  constructor
  · rw [Nat.le_div_iff_mul_le (by positivity), hs]
    calc 2 ^ 52 * 2 ^ (s + 1) = 2 ^ s * 2 ^ 53 := by ring
      _ ≤ N * 2 ^ 53 := Nat.mul_le_mul_right _ hlower
  · rw [Nat.mul_comm]
    exact Nat.mul_lt_mul_of_pos_left hupper (by positivity)

theorem significand_bounds {N : Nat} (hN1 : 1 ≤ N) :
    2 ^ 52 ≤ significand N ∧ significand N ≤ 2 ^ 53 := by
  obtain ⟨hlo, hhi⟩ := significand_floor hN1
  have hfloor : N * 2 ^ 53 / 2 ^ N.size < 2 ^ 53 :=
    Nat.div_lt_of_lt_mul (by rwa [Nat.mul_comm (2 ^ N.size)])
  have hge := div_le_halfEven (N * 2 ^ 53) (2 ^ N.size)
  have hle := halfEven_le (N * 2 ^ 53) (2 ^ N.size)
  rw [significand]
  omega

section Finish

variable {d : Decimal} {N : Nat}

theorem pack_eq {m : Nat} (hm : 2 ^ 52 ≤ m) (exp2 : ℤ) :
    pack m exp2 = ⟨m % 2 ^ 52, exp2 - minimumExponent⟩ := by
  have hno : ¬ m < 2 ^ mantissaExplicitBits := Nat.not_lt.mpr hm
  rw [pack, if_neg hno, mantissaExplicitBits]

theorem finish_eq {exp2 : ℤ} (hexp : ¬ exp2 - minimumExponent ≥ infinitePower) :
    finish d exp2 = if round (decimalLeftShift d 53) ≥ 2 ^ 53 then
      if exp2 + 1 - minimumExponent ≥ infinitePower then ⟨0, infinitePower⟩
      else pack (round (decimalRightShift (decimalLeftShift d 53) 1)) (exp2 + 1)
    else pack (round (decimalLeftShift d 53)) exp2 := by
  rw [finish, if_neg hexp]
  rfl

/-- A number between one half and one has been divided by its size. -/
theorem Scaled.size (hN1 : 1 ≤ N) {e : ℤ} (h : Scaled N d e) (hlo : 1 / 2 ≤ d.value)
    (hhi : d.value < 1) : e = N.size := by
  have he := h.pos hN1 hhi
  obtain ⟨E, rfl⟩ : ∃ E : Nat, e = (E + 1 : Nat) := ⟨(e - 1).toNat, by omega⟩
  have hvalue := h.value
  rw [zpow_natCast] at hvalue
  have hp2 : (0 : ℚ) < 2 ^ (E + 1) := by positivity
  have hupper : N < 2 ^ (E + 1) := by
    have : (N : ℚ) < 2 ^ (E + 1) := by
      rw [← hvalue]
      nlinarith
    exact_mod_cast this
  have hlower : 2 ^ E ≤ N := by
    have : (2 : ℚ) ^ E ≤ N := by
      rw [← hvalue]
      rw [pow_succ] at hp2 ⊢
      nlinarith
    exact_mod_cast this
  exact congrArg Nat.cast
    (Nat.le_antisymm (Nat.lt_size.mpr hlower) (Nat.size_le.mpr hupper))

/-- `round` sees the integer part of a number between one and `10 ^ 16`. -/
theorem point_bounds (hn : d.Normal) (hlo : 1 ≤ d.value) (hhi : d.value < 10 ^ (16 : ℤ)) :
    0 ≤ d.decimalPoint ∧ d.decimalPoint ≤ 18 := by
  refine ⟨point_nonneg hn (le_trans (by norm_num) hlo), ?_⟩
  have := ten_zpow_lt (lt_of_le_of_lt hn.ge hhi)
  omega

/-- The decimal before `round`: 53 binary digits before the point. -/
theorem shifted_value (hN1 : 1 ≤ N) {e : ℤ} (h : Scaled N d e) (hlo : 1 / 2 ≤ d.value)
    (hhi : d.value < 1) (hdigits : d.numDigits + e ≤ 160) :
    (decimalLeftShift d 53).Normal ∧ (2 : ℚ) ^ 52 ≤ (decimalLeftShift d 53).value ∧
      (decimalLeftShift d 53).value < 2 ^ 53 ∧ (decimalLeftShift d 53).numDigits ≤ 300 ∧
      (decimalLeftShift d 53).value = ((N * 2 ^ 53 : Nat) : ℚ) / ((2 ^ N.size : Nat) : ℚ) := by
  have he := h.pos hN1 hhi
  have hmax : maxDigits = 768 := rfl
  obtain ⟨hnormal, hleft, hcount⟩ :=
    leftShift_value h.normal (s := 53) (by omega) (by omega) (by omega)
  have hvalue := h.value
  rw [h.size hN1 hlo hhi, zpow_natCast] at hvalue
  refine ⟨hnormal, ?_, ?_, by omega, ?_⟩
  · rw [hleft]
    linarith
  · rw [hleft]
    linarith
  · rw [hleft, eq_div_iff (by positivity), Nat.cast_mul, ← hvalue]
    push_cast
    ring

/-- The last step, on a number between one half and one. -/
theorem finish_value (hN : N < 2 ^ 64) (hN1 : 1 ≤ N) {e : ℤ} (h : Scaled N d e)
    (hlo : 1 / 2 ≤ d.value) (hhi : d.value < 1) (hdigits : d.numDigits + e ≤ 160) :
    ∃ m p : Nat, finish d (e - 1) = ⟨m, p⟩ ∧ m < 2 ^ 52 ∧ 0 < p ∧ p < 2047 ∧
      m % 2 = significand N % 2 ∧
      ((2 : ℚ) ^ 52 + m) * (2 : ℚ) ^ ((p : ℤ) - 1075) = nearest N := by
  obtain ⟨hnormal, hylo, hyhi, hcount, hy⟩ := shifted_value hN1 h hlo hhi hdigits
  obtain ⟨hpoint, hpoint18⟩ := point_bounds hnormal (le_trans (by norm_num) hylo)
    (lt_trans hyhi (by norm_num))
  have hround : round (decimalLeftShift d 53) = significand N :=
    round_value hnormal hpoint hpoint18 (by positivity) hy
  obtain ⟨hMlo, hMhi⟩ := significand_bounds hN1
  have hF : N.size ≤ 64 := Nat.size_le.mpr hN
  have hmax : maxDigits = 768 := rfl
  have hmin : minimumExponent = -1023 := rfl
  rw [nearest]
  obtain rfl := h.size hN1 hlo hhi
  have hexp : ¬ (N.size : ℤ) - 1 - minimumExponent ≥ infinitePower := by
    simp only [minimumExponent, infinitePower]
    omega
  by_cases hover : significand N ≥ 2 ^ 53
  · -- rounded up to the next power of two
    have hM : significand N = 2 * 2 ^ 52 := by omega
    obtain ⟨hnormal', hright, -⟩ := rightShift_value hnormal (s := 1) (by omega) (by omega) hpoint
    have hy' : (decimalRightShift (decimalLeftShift d 53) 1).value =
        ((N * 2 ^ 53 : Nat) : ℚ) / ((2 * 2 ^ N.size : Nat) : ℚ) := by
      rw [hright, hy, pow_one, div_div, Nat.cast_mul 2, Nat.cast_ofNat, mul_comm (2 : ℚ)]
    obtain ⟨hpoint', hpoint18'⟩ := point_bounds hnormal' (by rw [hright]; linarith)
      (by rw [hright]; norm_num at hyhi ⊢; linarith)
    have hhalf : round (decimalRightShift (decimalLeftShift d 53) 1) = 2 ^ 52 := by
      rw [round_value hnormal' hpoint' hpoint18' (by positivity) hy']
      refine halfEven_double (by positivity) ?_ hM
      rw [← Nat.pow_succ']
      exact (significand_floor hN1).2
    refine ⟨0, N.size + 1023, ?_, by decide, by omega, by omega, by omega, ?_⟩
    · rw [finish_eq hexp, hround, if_pos hover, if_neg (by
        simp only [minimumExponent, infinitePower]
        omega), hhalf, pack_eq (Nat.le_refl _), hmin]
      congr 1
      push_cast
      ring
    · rw [hM, show ((N.size + 1023 : Nat) : ℤ) - 1075 = 1 + ((N.size : ℤ) - 53) by push_cast; ring,
        zpow_one_add₀ (by norm_num)]
      push_cast
      ring
  · refine ⟨significand N % 2 ^ 52, N.size + 1022, ?_, Nat.mod_lt _ (by decide),
      by omega, by omega, by omega, ?_⟩
    · rw [finish_eq hexp, hround, if_neg hover, pack_eq hMlo, hmin]
      congr 1
      push_cast
      ring
    · have hmod : 2 ^ 52 + significand N % 2 ^ 52 = significand N := by omega
      have hmod' : (2 : ℚ) ^ 52 + (significand N % 2 ^ 52 : Nat) = significand N := by
        exact_mod_cast hmod
      rw [hmod', show ((N.size + 1022 : Nat) : ℤ) - 1075 = (N.size : ℤ) - 53 by push_cast; ring]

end Finish

/-! ## The text -/

section Text

theorem isInteger_of_digit {c : UInt8} (h : Lib.Decimal.IsDigit c) : isInteger c = true := by
  simp only [isInteger, Bool.and_eq_true, decide_eq_true_eq]
  exact h

theorem digit_toNat {c : UInt8} (h : Lib.Decimal.IsDigit c) : 48 ≤ c.toNat ∧ c.toNat ≤ 57 := by
  rw [Lib.Decimal.IsDigit, UInt8.le_iff_toNat_le, UInt8.le_iff_toNat_le] at h
  exact h

/-- The digits of a text are stored one after the other. -/
theorem readDigits_spec {cs : Text} (hcs : ∀ c ∈ cs, Lib.Decimal.IsDigit c) {h : Decimal}
    (hfit : h.numDigits + cs.length ≤ maxDigits) :
    ∃ digits, readDigits cs h = ([], { h with numDigits := h.numDigits + cs.length, digits }) ∧
      (∀ i < h.numDigits, digits i = h.digits i) ∧
      ∀ j < cs.length, digits (h.numDigits + j) = (cs.map fun c => c.toNat - 0x30).getD j 0 := by
  induction cs generalizing h with
  | nil => exact ⟨h.digits, rfl, fun i _ => rfl, by simp⟩
  | cons c cs ih =>
    have hfit' : h.numDigits + 1 + cs.length ≤ maxDigits := by
      rw [List.length_cons] at hfit
      omega
    obtain ⟨digits, hres, hold, hnew⟩ := ih (h := h.append (c.toNat - 0x30))
      (fun c' hc' => hcs c' (List.mem_cons_of_mem c hc')) hfit'
    have happend : (h.append (c.toNat - 0x30)).digits =
        Function.update h.digits h.numDigits (c.toNat - 0x30) := if_pos (by omega)
    refine ⟨digits, ?_, fun i hi => ?_, fun j hj => ?_⟩
    · rw [readDigits, if_pos (isInteger_of_digit (hcs c List.mem_cons_self)), hres,
        List.length_cons, Nat.add_comm cs.length 1, ← Nat.add_assoc]
      rfl
    · rw [hold i (Nat.lt_succ_of_lt hi), happend, Function.update_of_ne (by omega)]
    · cases j with
      | zero =>
        rw [Nat.add_zero, hold _ (Nat.lt_succ_self _), happend, Function.update_self]
        rfl
      | succ j =>
        have := hnew j (by simpa using hj)
        rw [show (h.append (c.toNat - 0x30)).numDigits + j = h.numDigits + (j + 1) by
          show h.numDigits + 1 + j = _
          omega] at this
        rw [this]
        rfl

/-- The zeros at the end of a text are those at the end of its digits. -/
theorem trailingZeros_eq {cs : Text} (hcs : ∀ c ∈ cs, Lib.Decimal.IsDigit c) {digits : Nat → Nat}
    (hdigits : ∀ j < cs.length, digits j = (cs.map fun c => c.toNat - 0x30).getD j 0) :
    cs.length - trailingZeros cs = trimmed digits cs.length ∧ trailingZeros cs ≤ cs.length := by
  induction cs using List.reverseRecOn with
  | nil => exact ⟨rfl, Nat.le_refl _⟩
  | append_singleton cs c ih =>
    have hc := digit_toNat (hcs c (by simp))
    obtain ⟨hlen, hle⟩ := ih (fun c' hc' => hcs c' (by simp [hc'])) fun j hj => by
      rw [hdigits j (by rw [List.length_append]; omega), List.map_append,
        List.getD_eq_getElem?_getD, List.getElem?_append_left (by simpa using hj),
        List.getD_eq_getElem?_getD]
    have hlast : digits cs.length = c.toNat - 0x30 := by
      rw [hdigits _ (by simp)]
      simp
    rw [List.length_append, List.length_singleton, trimmed, hlast]
    by_cases hzero : c = 0x30
    · subst hzero
      have htz : trailingZeros (cs ++ [0x30]) = trailingZeros cs + 1 := by
        simp [trailingZeros]
      rw [if_pos (by decide), htz, ← hlen]
      omega
    · have hne : c.toNat ≠ 48 := fun he => hzero (UInt8.toNat_inj.mp he)
      have hpoint : c ≠ 0x2e := by
        rintro rfl
        exact absurd hc.1 (by decide)
      have htz : trailingZeros (cs ++ [c]) = 0 := by
        simp [trailingZeros, hzero, hpoint]
      rw [if_neg (by omega), htz]
      omega

theorem text_length {N L : Nat} (hL : (Lib.Decimal.text N).length = L + 1) (hN : 0 < N) :
    10 ^ L ≤ N := by
  rw [Lib.Decimal.text, List.length_map] at hL
  rcases Nat.eq_zero_or_pos L with rfl | hpos
  · exact hN
  · by_contra hlt
    have := (Nat.length_toDigits_le_iff (b := 10) (n := N) (by decide) hpos).mpr (by omega)
    omega

theorem text_length_le {N : Nat} (hN : N < 2 ^ 64) : (Lib.Decimal.text N).length ≤ 20 := by
  rw [Lib.Decimal.text, List.length_map, Nat.length_toDigits_le_iff (by decide) (by decide)]
  omega

/-- What is read from the text of a number. -/
theorem parseDecimal_text {N : Nat} (hN : N < 2 ^ 64) (hN1 : 1 ≤ N) :
    (parseDecimal (Lib.Decimal.text N)).Normal ∧ (parseDecimal (Lib.Decimal.text N)).value = N ∧
      (parseDecimal (Lib.Decimal.text N)).numDigits ≤ 20 ∧
      0 ≤ (parseDecimal (Lib.Decimal.text N)).decimalPoint ∧
      (parseDecimal (Lib.Decimal.text N)).decimalPoint ≤ 20 := by
  have hle := text_length_le hN
  have hcs : ∀ c ∈ Lib.Decimal.text N, Lib.Decimal.IsDigit c :=
    fun c hc => Lib.Decimal.text_digit hc
  have hvalue := Lib.Decimal.value_text N
  obtain ⟨L, hL⟩ : ∃ L, (Lib.Decimal.text N).length = L + 1 := by
    have hne := List.length_pos_iff.mpr (Lib.Decimal.text_ne_nil N)
    exact ⟨(Lib.Decimal.text N).length - 1, by omega⟩
  have hge := text_length hL hN1
  generalize Lib.Decimal.text N = cs at *
  obtain ⟨digits, hres, -, hnew⟩ := readDigits_spec hcs (h := ⟨0, 0, false, false, fun _ => 0⟩)
    (by simp only [maxDigits]; omega)
  simp only [Nat.zero_add] at hres hnew
  obtain ⟨hzeros, hzle⟩ := trailingZeros_eq hcs hnew
  have hseg : segment 10 digits 0 cs.length = N := by
    rw [← hvalue, Lib.Decimal.value]
    have hmap := segment_getD 10 (cs.map fun c => c.toNat - 0x30)
    rw [List.length_map, List.foldl_map] at hmap
    rw [← hmap]
    exact segment_congr fun j hj => by simpa using hnew j hj
  have hsmall : ∀ i < cs.length, digits i < 10 := by
    intro i hi
    have hc := digit_toNat (hcs cs[i] (List.getElem_mem hi))
    rw [hnew i hi, List.getD_eq_getElem?_getD, List.getElem?_map, List.getElem?_eq_getElem hi]
    simp only [Option.map_some, Option.getD_some]
    omega
  have hfirst : digits 0 ≠ 0 := first_ne_zero (k := L) (fun i hi => hsmall i (by omega)) (by
    rw [← hL, hseg]
    exact hge)
  have hres' : parseDecimal cs = Decimal.trim ⟨cs.length, cs.length, false, false, digits⟩ := by
    obtain ⟨c, rest, rfl⟩ := List.exists_cons_of_length_eq_add_one hL
    have hc := digit_toNat (hcs c List.mem_cons_self)
    have hzero : c ≠ 0x30 := by
      rintro rfl
      exact hfirst (hnew 0 (by simp))
    have hminus : c ≠ 0x2d := by
      rintro rfl
      exact absurd hc.1 (by decide)
    have hplus : c ≠ 0x2b := by
      rintro rfl
      exact absurd hc.1 (by decide)
    have hdrop : (c :: rest).dropWhile (· == 0x30) = c :: rest :=
      List.dropWhile_cons_of_neg (by simpa using hzero)
    have hsign : (some c == some 0x2d) = false ∧ (some c == some 0x2b) = false := by
      simp [hminus, hplus]
    have hend : Decimal.dropZeros ⟨(c :: rest).length, 0, false, false, digits⟩
        (trailingZeros (c :: rest)) =
          ⟨trimmed digits (c :: rest).length, (c :: rest).length, false, false, digits⟩ := by
      simp only [Decimal.dropZeros, gt_iff_lt, show 0 < (c :: rest).length from Nat.succ_pos _,
        if_true, Int.zero_add, hzeros]
    have hcap : ¬ trimmed digits (c :: rest).length > maxDigits := by
      have := (trimmed_spec digits (c :: rest).length).1
      simp only [maxDigits]
      omega
    simp only [parseDecimal, List.head?_cons, hsign.1, hsign.2, Bool.or_self, Bool.false_eq_true,
      if_false, hdrop, hres, readFraction, List.length_nil, Nat.sub_zero, List.take_length, hend,
      Decimal.cap, if_neg hcap, exponentOf, Int.add_zero, Decimal.trim]
  rw [hres']
  obtain ⟨hnormal, hvalue', hcount⟩ := trim_normal
    (h := ⟨cs.length, cs.length, false, false, digits⟩) (by simp only; omega)
    (by simp only [maxDigits]; omega) hsmall hfirst rfl
  refine ⟨hnormal, hvalue'.trans ?_, Nat.le_trans hcount hle, by simp [Decimal.trim], ?_⟩
  · simp [Decimal.value, hseg]
  · simp only [Decimal.trim]
    omega

end Text

/-! ## `from_chars` -/

section Result

theorem computeFloat_value {d : Decimal} {N : Nat} (hN : N < 2 ^ 64) (hN1 : 1 ≤ N) (hn : d.Normal)
    (hvalue : d.value = N) (hdigits : d.numDigits ≤ 20) (hpoint : 0 ≤ d.decimalPoint)
    (hpoint' : d.decimalPoint ≤ 20) {rounds : Nat} (hrounds : 22 ≤ rounds) :
    ∃ m p : Nat, computeFloat (rounds + 1) d = some ⟨m, p⟩ ∧ m < 2 ^ 52 ∧ 0 < p ∧ p < 2047 ∧
      m % 2 = significand N % 2 ∧
      ((2 : ℚ) ^ 52 + m) * (2 : ℚ) ^ ((p : ℤ) - 1075) = nearest N := by
  have hN' : (N : ℚ) < 2 ^ 64 := by exact_mod_cast hN
  have hlarge : (8 : ℚ) ^ 22 ≤ 8 ^ rounds := pow_le_pow_right₀ (by norm_num) hrounds
  obtain ⟨d₁, e₁, hdown, hscaled₁, hpoint₁, hdigits₁⟩ := downLoop_value hN
    (d := d) (e := 0) ⟨hn, by simpa using hvalue⟩ hpoint (by omega) (show d.value < 8 ^ rounds by
      rw [hvalue]
      refine lt_of_lt_of_le (lt_trans hN' ?_) hlarge
      norm_num)
  have he₁ := hscaled₁.le hN (by omega)
  have hge₁ := hscaled₁.normal.ge
  rw [hpoint₁] at hge₁
  norm_num at hge₁
  obtain ⟨d₂, e₂, hup, hscaled₂, hlo, hhi, hdigits₂⟩ := upLoop_value hN1 hscaled₁
    hpoint₁ (by omega) (show 1 / 2 ≤ d₁.value * 2 ^ rounds by
      have hpow : (2 : ℚ) ^ 22 ≤ 2 ^ rounds := pow_le_pow_right₀ (by norm_num) hrounds
      norm_num at hpow
      nlinarith)
  have he₂ := hscaled₂.pos hN1 hhi
  obtain ⟨m, p, hfinish, hm, hp0, hp, heven, hnearest⟩ :=
    finish_value hN hN1 hscaled₂ hlo hhi hdigits₂
  refine ⟨m, p, ?_, hm, hp0, hp, heven, hnearest⟩
  have hsub : subnormalLoop (rounds + 1) d₂ (e₂ - 1) = some (d₂, e₂ - 1) := by
    rw [subnormalLoop, if_neg (by simp only [minimumExponent]; omega)]
  rw [computeFloat, if_neg (Nat.ne_of_gt hn.pos), if_neg (by omega), if_neg (by omega)]
  rw [Nat.cast_zero] at hdown
  simp only [hdown, Option.bind_eq_bind, Option.bind_some, hup, hsub, hfinish]
  rfl

/-- The bits of a mantissa and an exponent. -/
theorem word_eq {m p : Nat} (hm : m < 2 ^ 52) (hp : p < 2047) :
    m ||| u64 (u64 (p : ℤ) * 2 ^ mantissaExplicitBits : Nat) = 2 ^ 52 * p + m := by
  rw [u64_eq rfl (show p < 2 ^ 64 by omega), u64_eq rfl (by
    simp only [mantissaExplicitBits]
    omega), Nat.or_comm, Nat.two_pow_add_eq_or_of_lt hm, Nat.mul_comm p]
  rfl

theorem doubleValue_word {m p : Nat} (hm : m < 2 ^ 52) (hp0 : 0 < p) (hp : p < 2047) :
    doubleValue (2 ^ 52 * p + m) = ((2 : ℚ) ^ 52 + m) * (2 : ℚ) ^ ((p : ℤ) - 1075) := by
  have hexp : (2 ^ 52 * p + m) / 2 ^ 52 % 2 ^ 11 = p := by omega
  have hfrac : (2 ^ 52 * p + m) % 2 ^ 52 = m := by omega
  have hsign : ¬ (2 ^ 52 * p + m) / 2 ^ 63 % 2 = 1 := by omega
  simp only [doubleValue, hexp, hfrac, if_neg hsign, if_neg (Nat.ne_of_gt hp0), one_mul]

/-- A `double` is a whole number of at most 53 binary digits times a power of two. -/
theorem doubleValue_form (word : Nat) :
    ∃ M z : ℤ, |M| < 2 ^ 53 ∧ doubleValue word = M * (2 : ℚ) ^ z := by
  have hfrac : word % 2 ^ 52 < 2 ^ 52 := Nat.mod_lt _ (by decide)
  obtain ⟨s, hs, hsign⟩ : ∃ s : ℤ, |s| = 1 ∧
      (if word / 2 ^ 63 % 2 = 1 then -1 else 1 : ℚ) = s := by
    split
    · exact ⟨-1, rfl, by norm_num⟩
    · exact ⟨1, rfl, by norm_num⟩
  simp only [doubleValue, hsign]
  split
  · refine ⟨s * (word % 2 ^ 52 : Nat), _, ?_, by rw [Int.cast_mul, mul_assoc]; rfl⟩
    rw [abs_mul, hs, one_mul, Nat.abs_cast]
    omega
  · refine ⟨s * (2 ^ 52 + (word % 2 ^ 52 : Nat)), _, ?_, by
      rw [Int.cast_mul, Int.cast_add, Int.cast_pow, Int.cast_ofNat, Int.cast_natCast, mul_assoc]⟩
    rw [abs_mul, hs, one_mul, abs_of_nonneg (by positivity)]
    omega

/-- Distances are compared in units of the last place. -/
theorem dist_eq (N : Nat) (k : ℤ) :
    |k * (2 : ℚ) ^ ((N.size : ℤ) - 53) - N| * 2 ^ N.size =
      ((|k * (2 ^ N.size : Nat) - (N * 2 ^ 53 : Nat)| : ℤ) : ℚ) *
        (2 : ℚ) ^ ((N.size : ℤ) - 53) := by
  have hunit : (2 : ℚ) ^ 53 * (2 : ℚ) ^ ((N.size : ℤ) - 53) = 2 ^ N.size := by
    rw [← zpow_natCast, ← zpow_natCast, ← zpow_add₀ (by norm_num)]
    congr 1
    push_cast
    ring
  have hu : (0 : ℚ) < (2 : ℚ) ^ ((N.size : ℤ) - 53) := by positivity
  generalize (2 : ℚ) ^ ((N.size : ℤ) - 53) = u at *
  have hp : (0 : ℚ) < 2 ^ N.size := by positivity
  rw [← abs_of_pos hp, ← abs_mul, Int.cast_abs, ← abs_of_pos hu, ← abs_mul, abs_of_pos hu]
  push_cast
  rw [← hunit]
  congr 1
  ring

/-- No `double` is closer, and if another one is as close, the last place is even. -/
theorem nearest_closest {N : Nat} (hN1 : 1 ≤ N) (other : Nat) :
    |nearest N - N| ≤ |doubleValue other - N| ∧
      (|doubleValue other - N| = |nearest N - N| →
        doubleValue other = nearest N ∨ significand N % 2 = 0) := by
  obtain ⟨M, z, hM, hvalue⟩ := doubleValue_form other
  have hu : (0 : ℚ) < (2 : ℚ) ^ ((N.size : ℤ) - 53) := by positivity
  have hp : (0 : ℚ) < 2 ^ N.size := by positivity
  have hclosest := halfEven_closest (a := N * 2 ^ 53) (b := 2 ^ N.size) (by positivity)
  have hchosen := dist_eq N (significand N : ℤ)
  rw [Int.cast_natCast] at hchosen
  have hle (k : ℤ) : |nearest N - N| ≤ |k * (2 : ℚ) ^ ((N.size : ℤ) - 53) - N| := by
    refine le_of_mul_le_mul_right ?_ hp
    rw [nearest, hchosen, dist_eq]
    refine mul_le_mul_of_nonneg_right ?_ hu.le
    exact_mod_cast (hclosest k).1
  rw [hvalue]
  rcases le_or_gt ((N.size : ℤ) - 53) z with hmultiple | hfine
  · -- a multiple of the last place
    obtain ⟨j, hj⟩ : ∃ j : Nat, z = j + ((N.size : ℤ) - 53) :=
      ⟨(z - ((N.size : ℤ) - 53)).toNat, by omega⟩
    have hform : (M : ℚ) * (2 : ℚ) ^ z =
        ((M * 2 ^ j : ℤ) : ℚ) * (2 : ℚ) ^ ((N.size : ℤ) - 53) := by
      rw [hj, zpow_add₀ (by norm_num), zpow_natCast]
      push_cast
      ring
    rw [hform]
    refine ⟨hle _, fun heq => ?_⟩
    have hsame := congrArg (· * (2 : ℚ) ^ N.size) heq
    simp only [nearest] at hsame
    rw [hchosen, dist_eq] at hsame
    have hsame' := mul_right_cancel₀ hu.ne' hsame
    refine ((hclosest (M * 2 ^ j)).2 (by exact_mod_cast hsame')).imp_left fun hk => ?_
    rw [hk, nearest, significand, Int.cast_natCast]
  · -- smaller than the lowest number of this size
    obtain ⟨s, hs⟩ : ∃ s, N.size = s + 1 := ⟨N.size - 1, by have := Nat.size_pos.mpr hN1; omega⟩
    have hlower : (2 : ℚ) ^ s ≤ N := by exact_mod_cast Nat.lt_size.mp (show s < N.size by omega)
    have hsmall : (M : ℚ) * (2 : ℚ) ^ z < 2 ^ s := by
      have hM' : (M : ℚ) < 2 ^ 53 := by exact_mod_cast (abs_lt.mp hM).2
      calc (M : ℚ) * (2 : ℚ) ^ z < 2 ^ 53 * (2 : ℚ) ^ z :=
            mul_lt_mul_of_pos_right hM' (by positivity)
        _ ≤ 2 ^ 53 * (2 : ℚ) ^ ((s : ℤ) - 53) := by
            refine mul_le_mul_of_nonneg_left (zpow_le_zpow_right₀ (by norm_num) ?_) (by norm_num)
            omega
        _ = 2 ^ s := by
            rw [← zpow_natCast, ← zpow_natCast, ← zpow_add₀ (by norm_num)]
            congr 1
            push_cast
            ring
    have hlt : |nearest N - N| < |(M : ℚ) * (2 : ℚ) ^ z - N| := by
      have hlowest := hle (2 ^ 52)
      have hunit : ((2 ^ 52 : ℤ) : ℚ) * (2 : ℚ) ^ ((N.size : ℤ) - 53) = 2 ^ s := by
        have hexp : (s : ℤ) = 52 + (((s + 1 : Nat) : ℤ) - 53) := by
          push_cast
          ring
        rw [hs, ← zpow_natCast 2 s, hexp, zpow_add₀ (by norm_num)]
        norm_num
      rw [hunit, abs_of_nonpos (show (2 : ℚ) ^ s - N ≤ 0 by linarith)] at hlowest
      rw [abs_of_nonpos (show (M : ℚ) * (2 : ℚ) ^ z - N ≤ 0 by linarith)]
      linarith
    exact ⟨hlt.le, fun heq => absurd heq hlt.ne'⟩

/-- Up to 53 binary digits are kept. -/
theorem nearest_exact {N : Nat} (hN : N ≤ 2 ^ 53) : nearest N = N := by
  rcases Nat.lt_or_eq_of_le hN with hlt | rfl
  · obtain ⟨k, hk⟩ := Nat.exists_eq_add_of_le (Nat.size_le.mpr hlt)
    have hround : significand N = N * 2 ^ k := by
      rw [significand, hk, Nat.pow_add, Nat.mul_comm (2 ^ N.size), ← Nat.mul_assoc]
      exact halfEven_mul (by positivity) _
    rw [nearest, hround, show (N.size : ℤ) - 53 = -(k : ℤ) by omega, zpow_neg, zpow_natCast]
    push_cast
    field_simp
  · have hsize : (2 ^ 53 : Nat).size = 54 := Nat.size_pow
    have hround : halfEven (2 ^ 53 * 2 ^ 53) (2 ^ 54) = 2 ^ 52 := by decide +kernel
    rw [nearest, significand, hsize, hround]
    norm_num

/-- A text that starts with a digit has no sign. -/
theorem fromChars_text (rounds N : Nat) :
    fromChars rounds (Lib.Decimal.text N) =
      (computeFloat rounds (parseDecimal (Lib.Decimal.text N))).bind fun am =>
        some (am.mantissa ||| u64 (u64 am.power2 * 2 ^ mantissaExplicitBits : Nat)) := by
  obtain ⟨c, rest, hcs⟩ := List.exists_cons_of_ne_nil (Lib.Decimal.text_ne_nil N)
  have hc : Lib.Decimal.IsDigit c := Lib.Decimal.text_digit (n := N) (by simp [hcs])
  have hsign : ((c :: rest).head? == some 0x2d) = false := by
    simp only [List.head?_cons, beq_eq_false_iff_ne, ne_eq, Option.some.injEq]
    rintro rfl
    exact absurd hc (by decide)
  rw [hcs]
  simp only [fromChars, hsign, Bool.false_eq_true, if_false]
  rfl

theorem fromChars_zero (rounds : Nat) : fromChars rounds (Lib.Decimal.text 0) = some 0 := by
  have hzero : (parseDecimal (Lib.Decimal.text 0)).numDigits = 0 := by decide +kernel
  rw [fromChars_text, computeFloat, if_pos hzero]
  rfl

theorem fromChars_word {N : Nat} (hN : N < 2 ^ 64) (hN1 : 1 ≤ N) {rounds : Nat}
    (hrounds : 23 ≤ rounds) :
    ∃ word, fromChars rounds (Lib.Decimal.text N) = some word ∧ word < 2047 * 2 ^ 52 ∧
      word % 2 = significand N % 2 ∧ doubleValue word = nearest N := by
  obtain ⟨hn, hvalue, hdigits, hpoint, hpoint'⟩ := parseDecimal_text hN hN1
  obtain ⟨k, rfl⟩ : ∃ k, rounds = k + 1 := ⟨rounds - 1, by omega⟩
  obtain ⟨m, p, hfloat, hm, hp0, hp, heven, hnearest⟩ :=
    computeFloat_value hN hN1 hn hvalue hdigits hpoint hpoint' (show 22 ≤ k by omega)
  refine ⟨2 ^ 52 * p + m, ?_, by omega, by omega, (doubleValue_word hm hp0 hp).trans hnearest⟩
  rw [fromChars_text, hfloat, Option.bind_some, word_eq hm hp]

/-- Numbers up to `2 ^ 53` are read as they are. -/
theorem fromChars_exact {N : Nat} (hN : N ≤ 2 ^ 53) {rounds : Nat} (hrounds : 23 ≤ rounds) :
    ∃ word, fromChars rounds (Lib.Decimal.text N) = some word ∧ doubleValue word = N := by
  rcases Nat.eq_zero_or_pos N with rfl | hN1
  · exact ⟨0, fromChars_zero rounds, by norm_num [doubleValue]⟩
  · obtain ⟨word, hread, -, -, hvalue⟩ := fromChars_word (by omega) hN1 hrounds
    exact ⟨word, hread, hvalue.trans (nearest_exact hN)⟩

/-- **Reading a number.** `from_chars` on the decimal text of a whole number below `2 ^ 64` ends in
at most 23 rounds of each loop, with a positive finite `double` to which no other one is preferable:
none is closer to the number, and of two that are equally close it is the one with an even last
place. -/
theorem from_chars_nearest {N : Nat} (hN : N < 2 ^ 64) {rounds : Nat} (hrounds : 23 ≤ rounds) :
    ∃ word, fromChars rounds (Lib.Decimal.text N) = some word ∧ word < 2047 * 2 ^ 52 ∧
      ∀ other, |doubleValue word - N| ≤ |doubleValue other - N| ∧
        (|doubleValue other - N| = |doubleValue word - N| →
          doubleValue other = doubleValue word ∨ word % 2 = 0) := by
  rcases Nat.eq_zero_or_pos N with rfl | hN1
  · have hvalue : doubleValue 0 = ((0 : Nat) : ℚ) := by norm_num [doubleValue]
    refine ⟨0, fromChars_zero rounds, by decide, fun other => ?_⟩
    rw [hvalue, sub_self, abs_zero]
    exact ⟨abs_nonneg _, fun _ => Or.inr rfl⟩
  · obtain ⟨word, hread, hfinite, heven, hvalue⟩ := fromChars_word hN hN1 hrounds
    refine ⟨word, hread, hfinite, fun other => ?_⟩
    rw [hvalue, heven]
    exact nearest_closest hN1 other

/-- The first whole number without a `double`. -/
theorem from_chars_nearest_tie :
    ∃ word, fromChars 23 (Lib.Decimal.text (2 ^ 53 + 1)) = some word ∧ word < 2047 * 2 ^ 52 ∧
      ∀ other, |doubleValue word - (2 ^ 53 + 1 : Nat)| ≤ |doubleValue other - (2 ^ 53 + 1 : Nat)| ∧
        (|doubleValue other - (2 ^ 53 + 1 : Nat)| = |doubleValue word - (2 ^ 53 + 1 : Nat)| →
          doubleValue other = doubleValue word ∨ word % 2 = 0) :=
  from_chars_nearest (by decide) (Nat.le_refl 23)

/-- The `double` of the loader: `static_cast<size_t>` drops the fraction. -/
def binary64 : Double (Option Nat) where
  fromChars := fromChars 23
  toSize word := UInt64.ofNat ⌊(word.map doubleValue).getD 0⌋₊
  exact n hn := by
    have hle : n.toNat ≤ 2 ^ 53 := hn
    obtain ⟨word, hread, hvalue⟩ := fromChars_exact hle (Nat.le_refl 23)
    rw [hread, Option.map_some, Option.getD_some, hvalue, Nat.floor_natCast,
      UInt64.ofNat_toNat]

end Result

end Fgds.Safetensors.FromChars
