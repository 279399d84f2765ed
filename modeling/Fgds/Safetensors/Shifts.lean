import Fgds.Safetensors.FromChars

/-!
# The shifts of `from_chars` are exact

As long as no digit is lost, `decimal_left_shift` multiplies a number with a power of two, and
`decimal_right_shift` divides it by one.

* `Decimal.Normal`: digits without zeros at either end, none of them lost;
* `numNewDigits_spec`: the tables give the right number of digits;
* `leftShift_value`, `rightShift_value`: what the shifts do to the value.
-/

namespace Fgds.Safetensors.FromChars

open Fgds.Lib.CInt Fgds.Lib.Digits

/-! ## Values -/

/-- The number that is stored. -/
def Decimal.value (h : Decimal) : ℚ :=
  segment 10 h.digits 0 h.numDigits * (10 : ℚ) ^ (h.decimalPoint - h.numDigits)

structure Decimal.Normal (h : Decimal) : Prop where
  pos : 0 < h.numDigits
  le : h.numDigits ≤ maxDigits
  digit : ∀ i < h.numDigits, h.digits i < 10
  first : h.digits 0 ≠ 0
  last : h.digits (h.numDigits - 1) ≠ 0
  whole : h.truncated = false

section Value

variable {h : Decimal}

/-- The first digit says how large the number is. -/
theorem value_bounds (hpos : 0 < h.numDigits) (hdigit : ∀ i < h.numDigits, h.digits i < 10) :
    h.digits 0 * (10 : ℚ) ^ (h.decimalPoint - 1) ≤ h.value ∧
      h.value < (h.digits 0 + 1) * (10 : ℚ) ^ (h.decimalPoint - 1) := by
  obtain ⟨k, hk⟩ : ∃ k, h.numDigits = k + 1 := ⟨h.numDigits - 1, by omega⟩
  have hlo := mul_le_segment 10 h.digits 0 k
  have hhi : segment 10 h.digits 0 (k + 1) < (h.digits 0 + 1) * 10 ^ k :=
    segment_lt_succ_mul fun i hi => hdigit (0 + i) (by omega)
  have hscale : (10 : ℚ) ^ (h.decimalPoint - 1) =
      10 ^ k * (10 : ℚ) ^ (h.decimalPoint - h.numDigits) := by
    rw [hk, ← zpow_natCast (10 : ℚ) k, ← zpow_add₀ (by norm_num)]
    congr 1
    push_cast
    ring
  have hp : (0 : ℚ) < 10 ^ (h.decimalPoint - h.numDigits) := by positivity
  rw [Decimal.value, hscale, ← mul_assoc, ← mul_assoc, hk]
  constructor
  · rw [← hk]
    refine mul_le_mul_of_nonneg_right ?_ hp.le
    rw [hk]
    exact_mod_cast hlo
  · rw [← hk]
    refine mul_lt_mul_of_pos_right ?_ hp
    rw [hk]
    exact_mod_cast hhi

theorem Decimal.Normal.lt (hn : h.Normal) : h.value < (10 : ℚ) ^ h.decimalPoint := by
  have hd : ((h.digits 0 + 1 : Nat) : ℚ) ≤ (10 : Nat) := by
    exact_mod_cast hn.digit 0 hn.pos
  calc h.value < (h.digits 0 + 1) * (10 : ℚ) ^ (h.decimalPoint - 1) :=
        (value_bounds hn.pos hn.digit).2
    _ ≤ 10 * (10 : ℚ) ^ (h.decimalPoint - 1) := by
        push_cast at hd
        gcongr
    _ = 10 ^ h.decimalPoint := by
        rw [← zpow_one_add₀ (by norm_num)]
        congr 1
        ring

theorem Decimal.Normal.ge (hn : h.Normal) : (10 : ℚ) ^ (h.decimalPoint - 1) ≤ h.value := by
  have hd : ((1 : Nat) : ℚ) ≤ h.digits 0 := by
    exact_mod_cast Nat.one_le_iff_ne_zero.mpr hn.first
  calc (10 : ℚ) ^ (h.decimalPoint - 1) = 1 * (10 : ℚ) ^ (h.decimalPoint - 1) := (one_mul _).symm
    _ ≤ h.digits 0 * (10 : ℚ) ^ (h.decimalPoint - 1) := by
        push_cast at hd
        gcongr
    _ ≤ h.value := (value_bounds hn.pos hn.digit).1

theorem trimmed_spec (digits : Nat → Nat) (k : Nat) :
    trimmed digits k ≤ k ∧ (∀ i, trimmed digits k ≤ i → i < k → digits i = 0) ∧
      (trimmed digits k ≠ 0 → digits (trimmed digits k - 1) ≠ 0) := by
  induction k with
  | zero => simp [trimmed]
  | succ k ih =>
    unfold trimmed
    split
    · rename_i hzero
      obtain ⟨hle, hrest, hlast⟩ := ih
      refine ⟨by omega, fun i hi hik => ?_, hlast⟩
      rcases Nat.lt_succ_iff_lt_or_eq.mp hik with hlt | rfl
      · exact hrest i hi hlt
      · exact hzero
    · rename_i hne
      exact ⟨Nat.le_refl _, fun i hi hik => absurd hi (by omega), fun _ => hne⟩

/-- Zeros at the end do not count. -/
theorem trim_normal (hpos : 0 < h.numDigits) (hle : h.numDigits ≤ maxDigits)
    (hdigit : ∀ i < h.numDigits, h.digits i < 10) (hfirst : h.digits 0 ≠ 0)
    (hwhole : h.truncated = false) :
    h.trim.Normal ∧ h.trim.value = h.value ∧ h.trim.numDigits ≤ h.numDigits := by
  obtain ⟨hk, hzero, hlast⟩ := trimmed_spec h.digits h.numDigits
  have hne : trimmed h.digits h.numDigits ≠ 0 := fun he =>
    hfirst (hzero 0 (by omega) hpos)
  refine ⟨⟨Nat.pos_of_ne_zero hne, by simp only [Decimal.trim]; omega, fun i hi => ?_, hfirst,
    hlast hne, hwhole⟩, ?_, hk⟩
  · simp only [Decimal.trim] at hi ⊢
    exact hdigit i (by omega)
  · obtain ⟨m, hm⟩ := Nat.exists_eq_add_of_le hk
    have hrest : segment 10 h.digits (0 + trimmed h.digits h.numDigits) m = 0 :=
      segment_eq_zero fun j hj => hzero _ (by omega) (by omega)
    simp only [Decimal.value, Decimal.trim]
    have hseg : segment 10 h.digits 0 h.numDigits =
        segment 10 h.digits 0 (trimmed h.digits h.numDigits) * 10 ^ m := by
      conv_lhs => rw [hm]
      rw [segment_add, hrest, Nat.add_zero]
    rw [hseg]
    push_cast
    rw [mul_assoc, ← zpow_natCast (10 : ℚ) m, ← zpow_add₀ (by norm_num)]
    congr 2
    conv_rhs => rw [hm]
    push_cast
    ring

end Value

/-! ## The number of new digits -/

section Count

/-- What the tables say about `5 ^ s`: its digits, and their number. -/
def TableRow (s : Nat) : Prop :=
  let a := numberOfDigitsTable.getD s 0
  let m := (0x7FF &&& numberOfDigitsTable.getD (s + 1) 0) - (0x7FF &&& a)
  let ds := (powersOf5.drop (0x7FF &&& a)).take m
  ds.length = m ∧ ds.foldl (fun n d => 10 * n + d) 0 = 5 ^ s ∧ (∀ d ∈ ds, d < 10) ∧
    ds.getLast? = some 5 ∧ 10 ^ (m - 1) ≤ 5 ^ s ∧ 5 ^ s < 10 ^ m ∧ a >>> 11 + m = s + 1 ∧ 0 < m

instance (s : Nat) : Decidable (TableRow s) := inferInstanceAs (Decidable (_ ∧ _))

theorem tableRow : ∀ s < 61, 0 < s → TableRow s := by decide +kernel

/-- The loop compares the digits, as a fraction, with those of the power. -/
theorem countLoop_spec {h : Decimal} {pow5 : Nat → Nat} (numNewDigits : Nat) {m : Nat}
    (hdigit : ∀ i < h.numDigits, h.digits i < 10) (hpow : ∀ i < m, pow5 i < 10)
    (hlast : pow5 (m - 1) ≠ 0) {left i : Nat} (hm : i + left = m) (hi : i ≤ h.numDigits)
    (hpre : ∀ j < i, h.digits j = pow5 j) :
    countLoop h pow5 numNewDigits left i = numNewDigits ∧
        segment 10 pow5 0 m * 10 ^ h.numDigits ≤ segment 10 h.digits 0 h.numDigits * 10 ^ m ∨
      countLoop h pow5 numNewDigits left i = numNewDigits - 1 ∧
        segment 10 h.digits 0 h.numDigits * 10 ^ m < segment 10 pow5 0 m * 10 ^ h.numDigits := by
  induction left generalizing i with
  | zero =>
    obtain rfl : i = m := by omega
    exact .inl ⟨rfl, segment_le_of_prefix hpre hi⟩
  | succ left ih =>
    unfold countLoop
    split
    · obtain rfl : i = h.numDigits := by omega
      exact .inr ⟨rfl, segment_lt_of_prefix (by decide) hpre ⟨m - 1, by omega, by omega, hlast⟩⟩
    · rename_i hk
      split
      · rename_i heq
        refine ih (by omega) (by omega) fun j hj => ?_
        rcases Nat.lt_succ_iff_lt_or_eq.mp hj with hlt | rfl
        · exact hpre j hlt
        · exact heq
      · rename_i hne
        split
        · rename_i hlt
          exact .inr ⟨rfl, segment_lt_of_digit hpre hdigit (by omega) (by omega) hlt⟩
        · have hgt : pow5 i < h.digits i := by omega
          exact .inl ⟨rfl, Nat.le_of_lt (segment_lt_of_digit (fun j hj => (hpre j hj).symm) hpow
            (by omega) (by omega) hgt)⟩

/-- The product with `2 ^ s` has as many digits as the tables say. -/
theorem numNewDigits_spec {h : Decimal} (hpos : 0 < h.numDigits)
    (hdigit : ∀ i < h.numDigits, h.digits i < 10) (hfirst : h.digits 0 ≠ 0) {s : Nat}
    (hs : s < 61) (hs0 : 0 < s) :
    segment 10 h.digits 0 h.numDigits * 2 ^ s <
        10 ^ (h.numDigits + numberOfDigitsDecimalLeftShift h s) ∧
      10 ^ (h.numDigits + numberOfDigitsDecimalLeftShift h s) ≤
        10 * (segment 10 h.digits 0 h.numDigits * 2 ^ s) ∧
      numberOfDigitsDecimalLeftShift h s ≤ s := by
  have hand : s &&& 63 = s := by
    rw [show (63 : Nat) = 2 ^ 6 - 1 from rfl, Nat.and_two_pow_sub_one_eq_mod]
    exact Nat.mod_eq_of_lt (by omega)
  obtain ⟨hlen, hfold, hsmall, hlast, hlo, hhi, hcount, hm⟩ := tableRow s hs hs0
  unfold numberOfDigitsDecimalLeftShift
  simp only [hand]
  generalize numberOfDigitsTable.getD s 0 >>> 11 = c at *
  generalize 0x7FF &&& numberOfDigitsTable.getD s 0 = a at *
  generalize (0x7FF &&& numberOfDigitsTable.getD (s + 1) 0) - a = m at *
  have hget : ∀ i < m, powersOf5.getD (a + i) 0 = ((powersOf5.drop a).take m).getD i 0 := by
    intro i hi
    simp [List.getElem?_drop, hi]
  have hpow : segment 10 (fun i => powersOf5.getD (a + i) 0) 0 m = 5 ^ s := by
    rw [← hfold, ← segment_getD, hlen]
    exact segment_congr fun i hi => by simpa using hget i hi
  have hpowdigit : ∀ i < m, powersOf5.getD (a + i) 0 < 10 := by
    intro i hi
    rw [hget i hi, List.getD_eq_getElem?_getD, List.getElem?_eq_getElem (by omega)]
    exact hsmall _ (List.getElem_mem _)
  have hpowlast : powersOf5.getD (a + (m - 1)) 0 ≠ 0 := by
    rw [hget _ (by omega), List.getD_eq_getElem?_getD]
    rw [List.getLast?_eq_getElem?, hlen] at hlast
    rw [hlast]
    decide
  -- `k` digits are a number from `10 ^ (k - 1)` on
  obtain ⟨k, hk⟩ : ∃ k, h.numDigits = k + 1 := ⟨h.numDigits - 1, by omega⟩
  have hD : 10 ^ k ≤ segment 10 h.digits 0 h.numDigits := by
    rw [hk]
    refine Nat.le_trans ?_ (mul_le_segment 10 h.digits 0 k)
    exact Nat.le_mul_of_pos_left _ (Nat.pos_of_ne_zero hfirst)
  have hD' : segment 10 h.digits 0 h.numDigits < 10 ^ h.numDigits :=
    segment_lt fun i hi => hdigit (0 + i) (by omega)
  have hten : 2 ^ s * 5 ^ s = 10 ^ s := by rw [← Nat.mul_pow]
  have hspec := countLoop_spec c (h := h) (i := 0) hdigit hpowdigit hpowlast
    (Nat.zero_add m) (Nat.zero_le _) fun j hj => absurd hj (Nat.not_lt_zero j)
  rw [hpow] at hspec
  generalize segment 10 h.digits 0 h.numDigits = D at *
  obtain ⟨c', rfl⟩ : ∃ c', c = c' + 1 := by
    have hle : 10 ^ (m - 1) < 10 ^ s :=
      Nat.lt_of_le_of_lt hlo (Nat.pow_lt_pow_left (by decide) (by omega))
    have := (Nat.pow_lt_pow_iff_right (by decide : 1 < 10)).mp hle
    exact ⟨c - 1, by omega⟩
  obtain rfl : s = c' + m := by omega
  obtain ⟨m', rfl⟩ : ∃ m', m = m' + 1 := ⟨m - 1, by omega⟩
  rw [Nat.add_sub_cancel] at hlo
  have hp2 : 0 < 2 ^ (c' + (m' + 1)) := by positivity
  rcases hspec with ⟨hres, hge⟩ | ⟨hres, hlt⟩ <;> rw [hres]
  · have hupper : 2 ^ (c' + (m' + 1)) ≤ 10 ^ (c' + 1) := by
      refine Nat.le_of_mul_le_mul_right ?_ (by positivity : 0 < 10 ^ m')
      calc 2 ^ (c' + (m' + 1)) * 10 ^ m' ≤ 2 ^ (c' + (m' + 1)) * 5 ^ (c' + (m' + 1)) :=
            Nat.mul_le_mul_left _ hlo
        _ = 10 ^ (c' + 1) * 10 ^ m' := by rw [hten]; ring
    have hlower : 10 ^ (h.numDigits + c') ≤ D * 2 ^ (c' + (m' + 1)) := by
      refine Nat.le_of_mul_le_mul_right ?_ (by positivity : 0 < 10 ^ (m' + 1))
      calc 10 ^ (h.numDigits + c') * 10 ^ (m' + 1)
          = 2 ^ (c' + (m' + 1)) * (5 ^ (c' + (m' + 1)) * 10 ^ h.numDigits) := by
            rw [← Nat.mul_assoc, hten]; ring
        _ ≤ 2 ^ (c' + (m' + 1)) * (D * 10 ^ (m' + 1)) := Nat.mul_le_mul_left _ hge
        _ = D * 2 ^ (c' + (m' + 1)) * 10 ^ (m' + 1) := by ring
    refine ⟨?_, ?_, by omega⟩
    · calc D * 2 ^ (c' + (m' + 1)) < 10 ^ h.numDigits * 2 ^ (c' + (m' + 1)) :=
            Nat.mul_lt_mul_of_pos_right hD' hp2
        _ ≤ 10 ^ h.numDigits * 10 ^ (c' + 1) := Nat.mul_le_mul_left _ hupper
        _ = 10 ^ (h.numDigits + (c' + 1)) := (Nat.pow_add _ _ _).symm
    · rw [← Nat.add_assoc, Nat.pow_succ']
      exact Nat.mul_le_mul_left _ hlower
  · have hlower : 10 ^ c' ≤ 2 ^ (c' + (m' + 1)) := by
      refine Nat.le_of_mul_le_mul_right ?_ (by positivity : 0 < 10 ^ (m' + 1))
      calc 10 ^ c' * 10 ^ (m' + 1) = 2 ^ (c' + (m' + 1)) * 5 ^ (c' + (m' + 1)) := by
            rw [hten]; ring
        _ ≤ 2 ^ (c' + (m' + 1)) * 10 ^ (m' + 1) := Nat.mul_le_mul_left _ hhi.le
    rw [Nat.add_sub_cancel]
    refine ⟨?_, ?_, by omega⟩
    · refine Nat.lt_of_mul_lt_mul_right (a := 10 ^ (m' + 1)) ?_
      calc D * 2 ^ (c' + (m' + 1)) * 10 ^ (m' + 1)
          = 2 ^ (c' + (m' + 1)) * (D * 10 ^ (m' + 1)) := by ring
        _ < 2 ^ (c' + (m' + 1)) * (5 ^ (c' + (m' + 1)) * 10 ^ h.numDigits) :=
            Nat.mul_lt_mul_of_pos_left hlt hp2
        _ = 10 ^ (h.numDigits + c') * 10 ^ (m' + 1) := by
            rw [← Nat.mul_assoc, hten]; ring
    · calc 10 ^ (h.numDigits + c') = 10 * (10 ^ k * 10 ^ c') := by rw [hk]; ring
        _ ≤ 10 * (D * 2 ^ (c' + (m' + 1))) :=
            Nat.mul_le_mul_left _ (Nat.mul_le_mul hD hlower)

end Count

/-! ## Multiplying -/

section Left

variable {h : Decimal}

theorem put_inside {i : Nat} (hi : i < maxDigits) (digit : Nat) :
    h.put i digit = { h with digits := Function.update h.digits i digit } := if_pos hi

theorem u32_pred (i : Nat) (hi : i < 2 ^ 32) : u32 ((i + 1 : Nat) - 1 : Int) = i :=
  u32_eq (by push_cast; ring) hi

/-- The product of the digits before `readIndex`, from the last one on: it stands `c` places further
right, and `n'` is what is carried on. -/
theorem leftLoop_spec {s c : Nat} (hs : s ≤ 60) {readIndex : Nat}
    (hfit : readIndex + c ≤ maxDigits) {n : Nat} (hn : n < 2 ^ s)
    (hdigit : ∀ i < readIndex, h.digits i < 10) {w : Nat}
    (hw : 0 < readIndex → w = readIndex - 1 + c) :
    ∃ digits' w' n', leftLoop s readIndex h w n = ({ h with digits := digits' }, w', n') ∧
      segment 10 digits' c readIndex + n' * 10 ^ readIndex =
        segment 10 h.digits 0 readIndex * 2 ^ s + n ∧
      (∀ i, i < c ∨ readIndex + c ≤ i → digits' i = h.digits i) ∧
      (∀ i < readIndex, digits' (c + i) < 10) ∧
      (0 < readIndex → w' = u32 (c - 1)) := by
  induction readIndex generalizing h n w with
  | zero => exact ⟨h.digits, w, n, rfl, by simp, fun i _ => rfl, by simp, by simp⟩
  | succ r ih =>
    have hd := hdigit r (by omega)
    have hpow : 2 ^ s ≤ 2 ^ 60 := Nat.pow_le_pow_right (by decide) hs
    obtain ⟨p, hp⟩ : ∃ p, p = h.digits r * 2 ^ s := ⟨_, rfl⟩
    have hp9 : p ≤ 9 * 2 ^ s := hp ▸ Nat.mul_le_mul_right _ (by omega)
    have hsum : u64 (n + u64 (p : Nat)) = n + p := by
      rw [u64_eq rfl (by omega)]
      exact u64_eq (by push_cast; ring) (by omega)
    have hw' := hw (by omega)
    rw [Nat.add_sub_cancel] at hw'
    have hmod : n + p - 10 * ((n + p) / 10) = (n + p) % 10 := by omega
    rw [leftLoop, ← hp, hsum, hmod, put_inside (by omega)]
    obtain ⟨digits', w', n', hres, hval, hsame, hsmall, hend⟩ :=
      ih (h := { h with digits := Function.update h.digits w ((n + p) % 10) })
        (n := (n + p) / 10) (w := u32 (w - 1)) (by omega) (by omega)
        (fun i hi => by
          show Function.update h.digits w _ i < 10
          rw [Function.update_of_ne (by omega)]
          exact hdigit i (by omega))
        (fun hr => by
          obtain ⟨q, rfl⟩ : ∃ q, r = q + 1 := ⟨r - 1, by omega⟩
          rw [hw', show q + 1 + c = (q + c) + 1 by omega, u32_pred _ (by
            simp only [maxDigits] at hfit
            omega)]
          omega)
    refine ⟨digits', w', n', hres, ?_, fun i hi => ?_, fun i hi => ?_, fun _ => ?_⟩
    · have hlast : digits' (c + r) = (n + p) % 10 := by
        rw [hsame _ (by omega), show c + r = w by omega]
        exact Function.update_self _ _ _
      have hread : segment 10 (Function.update h.digits w ((n + p) % 10)) 0 r =
          segment 10 h.digits 0 r :=
        segment_congr fun i hi => Function.update_of_ne (by omega) _ _
      rw [hread] at hval
      rw [segment_succ, segment_succ, hlast, Nat.zero_add, Nat.add_mul, ← hp, Nat.pow_succ]
      have := Nat.div_add_mod (n + p) 10
      linarith
    · rw [hsame i (by omega)]
      exact Function.update_of_ne (by omega) _ _
    · rcases Nat.lt_succ_iff_lt_or_eq.mp hi with hlt | rfl
      · exact hsmall i hlt
      · rw [hsame _ (by omega), show c + i = w by omega]
        simp only [Function.update_self]
        omega
    · rcases Nat.eq_zero_or_pos r with rfl | hr
      · simp only [leftLoop, Prod.mk.injEq] at hres
        rw [← hres.2.1, hw', Nat.zero_add]
      · exact hend hr

theorem carryLoop_succ {n : Nat} (hn : 0 < n) (rounds writeIndex : Nat) :
    carryLoop (rounds + 1) h writeIndex n =
      carryLoop rounds (h.put writeIndex (n % 10)) (u32 (writeIndex - 1)) (n / 10) := by
  have hmod : n - 10 * (n / 10) = n % 10 := by omega
  simp only [carryLoop, gt_iff_lt, if_pos hn, hmod]

/-- The carry is written in front, where it just fits. -/
theorem carryLoop_spec {c rounds n : Nat} (hfit : c ≤ maxDigits) (hrounds : c ≤ rounds)
    (hlt : n < 10 ^ c) (hge : 10 ^ c ≤ 10 * n ∨ c = 0) :
    ∃ digits', carryLoop rounds h (u32 (c - 1)) n = { h with digits := digits' } ∧
      segment 10 digits' 0 c = n ∧ (∀ i, c ≤ i → digits' i = h.digits i) ∧
      ∀ i < c, digits' i < 10 := by
  induction c generalizing h rounds n with
  | zero =>
    obtain rfl : n = 0 := by simpa using hlt
    refine ⟨h.digits, ?_, rfl, fun i _ => rfl, by simp⟩
    cases rounds <;> simp [carryLoop]
  | succ c ih =>
    obtain ⟨r, rfl⟩ : ∃ r, rounds = r + 1 := ⟨rounds - 1, by omega⟩
    have hge := hge.resolve_right (by omega)
    rw [Nat.pow_succ'] at hlt hge
    have hpos : 0 < 10 ^ c := by positivity
    have hw : u32 ((c + 1 : Nat) - 1 : Int) = c := u32_pred c (by
      simp only [maxDigits] at hfit
      omega)
    rw [carryLoop_succ (by omega), hw, put_inside (by omega)]
    obtain ⟨digits', hres, hval, hsame, hsmall⟩ :=
      ih (h := { h with digits := Function.update h.digits c (n % 10) })
        (n := n / 10) (by omega) (show c ≤ r by omega) (by omega) (by
          rcases Nat.eq_zero_or_pos c with rfl | hc
          · exact .inr rfl
          · obtain ⟨c', rfl⟩ : ∃ c', c = c' + 1 := ⟨c - 1, by omega⟩
            rw [Nat.pow_succ'] at hge ⊢
            left
            omega)
    have hlast : digits' c = n % 10 := by
      rw [hsame c (Nat.le_refl _)]
      exact Function.update_self _ _ _
    refine ⟨digits', hres, ?_, fun i hi => ?_, fun i hi => ?_⟩
    · rw [segment_succ, hval, Nat.zero_add, hlast]
      omega
    · rw [hsame i (by omega)]
      exact Function.update_of_ne (by omega) _ _
    · rcases Nat.lt_succ_iff_lt_or_eq.mp hi with hlt | rfl
      · exact hsmall i hlt
      · omega

/-- A first digit that is zero makes a small number. -/
theorem first_ne_zero {digits : Nat → Nat} {k : Nat} (hdigit : ∀ i < k + 1, digits i < 10)
    (hge : 10 ^ k ≤ segment 10 digits 0 (k + 1)) : digits 0 ≠ 0 := by
  intro hzero
  have hlt : segment 10 digits 0 (k + 1) < (digits 0 + 1) * 10 ^ k :=
    segment_lt_succ_mul fun i hi => hdigit (0 + i) (by omega)
  rw [hzero, Nat.zero_add, Nat.one_mul] at hlt
  omega

/-- `decimal_left_shift` multiplies. -/
theorem leftShift_value (hn : h.Normal) {s : Nat} (hs : s ≤ 60) (hs0 : 0 < s)
    (hfit : h.numDigits + s ≤ maxDigits) :
    (decimalLeftShift h s).Normal ∧ (decimalLeftShift h s).value = h.value * 2 ^ s ∧
      (decimalLeftShift h s).numDigits ≤ h.numDigits + s := by
  obtain ⟨hlt, hge, hle⟩ := numNewDigits_spec hn.pos hn.digit hn.first (by omega) hs0
  rw [decimalLeftShift, if_neg (Nat.ne_of_gt hn.pos)]
  generalize numberOfDigitsDecimalLeftShift h s = c at *
  obtain ⟨k, hk⟩ : ∃ k, h.numDigits = k + 1 := ⟨h.numDigits - 1, by have := hn.pos; omega⟩
  obtain ⟨digits₁, w, n, hloop, hval, hsame, hsmall, hw⟩ :=
    leftLoop_spec (h := h) (c := c) (n := 0) (w := h.numDigits - 1 + c) hs
      (show h.numDigits + c ≤ maxDigits by omega) (by positivity) hn.digit fun _ => rfl
  rw [Nat.add_zero] at hval
  -- the carry has `c` digits
  have hseg : segment 10 digits₁ c h.numDigits < 10 ^ h.numDigits := segment_lt hsmall
  have hpos : 0 < 10 ^ h.numDigits := by positivity
  have hnlt : n < 10 ^ c := by
    refine Nat.lt_of_mul_lt_mul_right (a := 10 ^ h.numDigits) ?_
    rw [Nat.pow_add, Nat.mul_comm (10 ^ h.numDigits)] at hlt
    omega
  have hnge : 10 ^ c ≤ 10 * n ∨ c = 0 := by
    rcases Nat.eq_zero_or_pos c with hc | hc
    · exact .inr hc
    · obtain ⟨c', rfl⟩ : ∃ c', c = c' + 1 := ⟨c - 1, by omega⟩
      left
      rw [Nat.pow_succ']
      refine Nat.mul_le_mul_left _ (Nat.le_of_lt_succ ?_)
      refine Nat.lt_of_mul_lt_mul_right (a := 10 ^ h.numDigits) ?_
      rw [← Nat.add_assoc, Nat.pow_succ', Nat.pow_add, Nat.mul_comm (10 ^ h.numDigits)] at hge
      rw [Nat.succ_mul]
      omega
  have hc20 : c ≤ 20 := by
    have hD : segment 10 h.digits 0 h.numDigits < 10 ^ h.numDigits :=
      segment_lt fun i hi => hn.digit (0 + i) (by omega)
    have hn2 : n < 2 ^ s := by
      refine Nat.lt_of_mul_lt_mul_right (a := 10 ^ h.numDigits) ?_
      have := Nat.mul_lt_mul_of_pos_right hD (by positivity : 0 < 2 ^ s)
      rw [Nat.mul_comm (10 ^ h.numDigits)] at this
      omega
    have hpow : 2 ^ s ≤ 2 ^ 60 := Nat.pow_le_pow_right (by decide) hs
    by_contra hbig
    have : 10 ^ 21 ≤ 10 ^ c := Nat.pow_le_pow_right (by decide) (by omega)
    omega
  obtain ⟨digits₂, hcarry, hcval, hcsame, hcsmall⟩ :=
    carryLoop_spec (h := { h with digits := digits₁ }) (by omega) hc20 hnlt hnge
  have hall : segment 10 digits₂ 0 (c + h.numDigits) =
      segment 10 h.digits 0 h.numDigits * 2 ^ s := by
    have htail : segment 10 digits₂ (0 + c) h.numDigits = segment 10 digits₁ c h.numDigits := by
      rw [Nat.zero_add]
      exact segment_congr fun i _ => hcsame _ (by omega)
    rw [segment_add, hcval, htail, ← hval]
    ring
  have hdigits : ∀ i < c + h.numDigits, digits₂ i < 10 := by
    intro i hi
    by_cases hic : i < c
    · exact hcsmall i hic
    · obtain ⟨j, rfl⟩ := Nat.exists_eq_add_of_le (show c ≤ i by omega)
      rw [hcsame _ (by omega)]
      exact hsmall j (by omega)
  simp only [hloop, hw hn.pos, hcarry]
  obtain ⟨hnormal, hvalue, hcount⟩ := trim_normal
    (h := ⟨min (h.numDigits + c) maxDigits, h.decimalPoint + c, h.negative, h.truncated, digits₂⟩)
    (by simp only [maxDigits]; omega) (Nat.min_le_right _ _)
    (fun i hi => hdigits i (by simp only at hi; omega))
    (first_ne_zero (k := c + k) (fun i hi => hdigits i (by omega)) (by
      rw [show c + k + 1 = c + h.numDigits by omega, hall]
      rw [show h.numDigits + c = c + k + 1 by omega, Nat.pow_succ'] at hge
      omega)) hn.whole
  refine ⟨hnormal, hvalue.trans ?_, Nat.le_trans hcount (by simp only; omega)⟩
  simp only [Decimal.value, Nat.min_eq_left (show h.numDigits + c ≤ maxDigits by omega)]
  rw [Nat.add_comm h.numDigits c, hall]
  push_cast
  rw [show h.decimalPoint + c - (c + h.numDigits : ℤ) = h.decimalPoint - h.numDigits by ring]
  ring

end Left

/-! ## Dividing -/

section Right

/-- The digits with zeros behind them. -/
def padded (digits : Nat → Nat) (k i : Nat) : Nat := if i < k then digits i else 0

theorem segment_padded (digits : Nat → Nat) {k i : Nat} (hi : i ≤ k) :
    segment 10 (padded digits k) 0 i = segment 10 digits 0 i :=
  segment_congr fun j hj => if_pos (by omega)

theorem segment_padded_add (digits : Nat → Nat) (k m : Nat) :
    segment 10 (padded digits k) 0 (k + m) = segment 10 digits 0 k * 10 ^ m := by
  have hzero : segment 10 (padded digits k) (0 + k) m = 0 :=
    segment_eq_zero fun j _ => if_neg (by omega)
  rw [segment_add, segment_padded _ (Nat.le_refl k), hzero, Nat.add_zero]

theorem shiftRight_eq_zero (n s : Nat) : n >>> s = 0 ↔ n < 2 ^ s := by
  rw [Nat.shiftRight_eq_div_pow, Nat.div_eq_zero_iff_lt (by positivity)]

variable {digits : Nat → Nat} {k s : Nat}

/-- The dividend is large enough for a first digit, and not larger. -/
def Started (digits : Nat → Nat) (k s r n : Nat) : Prop :=
  n = segment 10 (padded digits k) 0 r ∧ 2 ^ s ≤ n ∧ n < 10 * 2 ^ s

theorem padLoop_spec (hs : s ≤ 60) {rounds r n : Nat} (hk : k ≤ r)
    (hn : n = segment 10 (padded digits k) 0 r) (hlt : n < 10 * 2 ^ s)
    (hge : 2 ^ s ≤ n * 10 ^ rounds) :
    ∃ r' n', padLoop s rounds r n = (r', n') ∧ r ≤ r' ∧ r' ≤ r + rounds ∧
      Started digits k s r' n' := by
  have hpow : 2 ^ s ≤ 2 ^ 60 := Nat.pow_le_pow_right (by decide) hs
  induction rounds generalizing r n with
  | zero => exact ⟨r, n, rfl, Nat.le_refl _, Nat.le_refl _, hn, by simpa using hge, hlt⟩
  | succ rounds ih =>
    rw [padLoop]
    split
    · rename_i hzero
      rw [shiftRight_eq_zero] at hzero
      rw [u64_eq rfl (by omega)]
      have hnext : 10 * n = segment 10 (padded digits k) 0 (r + 1) := by
        rw [segment_succ, ← hn, padded, if_neg (by omega), Nat.add_zero]
      obtain ⟨r', n', hres, hle, hle', hstarted⟩ := ih (by omega) hnext (by omega)
        (by rwa [Nat.mul_comm 10 n, Nat.mul_assoc, ← Nat.pow_succ'])
      exact ⟨r', n', hres, by omega, by omega, hstarted⟩
    · rename_i hne
      rw [shiftRight_eq_zero] at hne
      exact ⟨r, n, rfl, Nat.le_refl _, by omega, hn, by omega, hlt⟩

theorem rightLoop_spec (hs : s ≤ 60) (hdigit : ∀ i < k, digits i < 10)
    (hpos : 0 < segment 10 digits 0 k) {left r n : Nat} (hk : r + left = k)
    (hn : n = segment 10 (padded digits k) 0 r) (hlt : n < 10 * 2 ^ s) :
    ∃ r' n', rightLoop digits s left r n = some (r', n') ∧ r ≤ r' ∧ r' ≤ k + s ∧
      Started digits k s r' n' := by
  have hpow : 2 ^ s ≤ 2 ^ 60 := Nat.pow_le_pow_right (by decide) hs
  induction left generalizing r n with
  | zero =>
    obtain rfl : r = k := by omega
    rw [rightLoop]
    split
    · rename_i hzero
      rw [segment_padded _ (Nat.le_refl _)] at hn
      rw [if_neg (by omega)]
      have hge : 2 ^ s ≤ n * 10 ^ s :=
        calc 2 ^ s ≤ 10 ^ s := Nat.pow_le_pow_left (by decide) s
          _ ≤ n * 10 ^ s := Nat.le_mul_of_pos_left _ (by omega)
      have hread : n = segment 10 (padded digits r) 0 r := by
        rw [hn, segment_padded _ (Nat.le_refl _)]
      obtain ⟨r', n', hres, hle, hle', hstarted⟩ :=
        padLoop_spec hs (Nat.le_refl r) hread hlt hge
      exact ⟨r', n', by rw [hres], hle, hle', hstarted⟩
    · rename_i hne
      rw [shiftRight_eq_zero] at hne
      exact ⟨r, n, rfl, Nat.le_refl _, by omega, hn, by omega, hlt⟩
  | succ left ih =>
    rw [rightLoop]
    split
    · rename_i hzero
      rw [shiftRight_eq_zero] at hzero
      have hd := hdigit r (by omega)
      rw [u64_eq rfl (by omega)]
      have hnext : 10 * n + digits r = segment 10 (padded digits k) 0 (r + 1) := by
        rw [segment_succ, ← hn, padded, if_pos (by omega), Nat.zero_add]
      obtain ⟨r', n', hres, hle, hle', hstarted⟩ := ih (by omega) hnext (by omega)
      exact ⟨r', n', hres, by omega, hle', hstarted⟩
    · rename_i hne
      rw [shiftRight_eq_zero] at hne
      exact ⟨r, n, rfl, Nat.le_refl _, by omega, hn, by omega, hlt⟩

/-- Long division: `v` digits of the quotient stand at the front of the array, the rest is as it
was, and `n` is what is left of the first `r + v` digits of the dividend. -/
structure Dividing (digits : Nat → Nat) (k s r v n : Nat) (now : Nat → Nat) : Prop where
  sum : segment 10 (padded digits k) 0 (r + v) = 10 * segment 10 now 0 v * 2 ^ s + n
  lt : n < 10 * 2 ^ s
  small : ∀ i < v, now i < 10
  same : ∀ i, v ≤ i → now i = digits i

/-- One digit of the quotient. -/
theorem Dividing.step {r v n : Nat} {now : Nat → Nat} (h : Dividing digits k s r v n now)
    (hdigit : ∀ i < k, digits i < 10) :
    Dividing digits k s r (v + 1) (10 * (n % 2 ^ s) + padded digits k (r + v))
      (Function.update now v (n / 2 ^ s)) ∧ n / 2 ^ s < 10 := by
  have hq : n / 2 ^ s < 10 := Nat.div_lt_of_lt_mul (by rw [Nat.mul_comm]; exact h.lt)
  have hpad : padded digits k (r + v) < 10 := by
    unfold padded
    split
    · exact hdigit _ (by omega)
    · decide
  have hmod : n % 2 ^ s < 2 ^ s := Nat.mod_lt _ (by positivity)
  refine ⟨⟨?_, by omega, fun i hi => ?_, fun i hi => ?_⟩, hq⟩
  · have hfront : segment 10 (Function.update now v (n / 2 ^ s)) 0 v = segment 10 now 0 v :=
      segment_congr fun j hj => Function.update_of_ne (by omega) _ _
    rw [← Nat.add_assoc, segment_succ, h.sum, segment_succ, hfront, Nat.zero_add, Nat.zero_add,
      Function.update_self]
    have hdiv := Nat.div_add_mod n (2 ^ s)
    calc 10 * (10 * segment 10 now 0 v * 2 ^ s + n) + padded digits k (r + v)
        = 10 * (10 * segment 10 now 0 v * 2 ^ s + (2 ^ s * (n / 2 ^ s) + n % 2 ^ s)) +
          padded digits k (r + v) := by rw [hdiv]
      _ = _ := by ring
  · rcases Nat.lt_succ_iff_lt_or_eq.mp hi with hlt | rfl
    · rw [Function.update_of_ne (by omega)]
      exact h.small i hlt
    · rw [Function.update_self]
      exact hq
  · rw [Function.update_of_ne (by omega)]
    exact h.same i (by omega)

theorem newDigit_eq {n : Nat} (h : n / 2 ^ s < 10) : n >>> s % 256 = n / 2 ^ s := by
  rw [Nat.shiftRight_eq_div_pow]
  exact Nat.mod_eq_of_lt (by omega)

theorem divideLoop_spec (hs : s ≤ 60) (hdigit : ∀ i < k, digits i < 10) {r : Nat} (hr : 0 < r)
    {left v n : Nat} {now : Nat → Nat} (h : Dividing digits k s r v n now)
    (hk : left = 0 ∨ r + v + left = k) :
    ∃ n' now', divideLoop s left (r + v) v n now = (v + left, n', now') ∧
      Dividing digits k s r (v + left) n' now' := by
  have hpow : 2 ^ s ≤ 2 ^ 60 := Nat.pow_le_pow_right (by decide) hs
  induction left generalizing v n now with
  | zero => exact ⟨n, now, rfl, h⟩
  | succ left ih =>
    have hk := hk.resolve_left (by omega)
    obtain ⟨hstep, hq⟩ := h.step hdigit
    have hread : now (r + v) = padded digits k (r + v) := by
      rw [h.same _ (by omega), padded, if_pos (by omega)]
    have hlt := hstep.lt
    obtain ⟨n', now', hres, hdone⟩ := ih hstep (by omega)
    refine ⟨n', now', ?_, ?_⟩
    · rw [divideLoop, newDigit_eq hq, hread, u64_eq rfl (by omega), Nat.add_assoc r v 1, hres]
      congr 1
      omega
    · rwa [show v + (left + 1) = v + 1 + left by omega]

theorem restLoop_spec (hs : s ≤ 60) (hdigit : ∀ i < k, digits i < 10) {r v n rounds : Nat}
    {h : Decimal} (hdiv : Dividing digits k s r v n h.digits) (hk : k ≤ r + v)
    (hfit : v + rounds ≤ maxDigits)
    (heven : n = 0 ∨ ∃ j, j + rounds = s + 1 ∧ 2 ^ j ∣ n ∧ 0 < rounds) :
    ∃ v' now', restLoop s rounds h v n = ({ h with digits := now' }, v') ∧
      v' ≤ v + rounds ∧ k ≤ r + v' ∧ Dividing digits k s r v' 0 now' := by
  have hpow : 2 ^ s ≤ 2 ^ 60 := Nat.pow_le_pow_right (by decide) hs
  induction rounds generalizing v n h with
  | zero =>
    obtain rfl : n = 0 := by
      rcases heven with hzero | ⟨j, _, _, hpos⟩
      · exact hzero
      · omega
    exact ⟨v, h.digits, rfl, by omega, hk, hdiv⟩
  | succ rounds ih =>
    rw [restLoop]
    split
    · rename_i hpos
      obtain ⟨j, hj, hdvd, -⟩ := heven.resolve_left (by omega)
      obtain ⟨hstep, hq⟩ := hdiv.step hdigit
      rw [show padded digits k (r + v) = 0 from if_neg (by omega), Nat.add_zero] at hstep
      have hlt := hstep.lt
      -- the rest gets one more factor two, and is zero with `s + 1` of them
      have heven' : 10 * (n % 2 ^ s) = 0 ∨
          ∃ j, j + rounds = s + 1 ∧ 2 ^ j ∣ 10 * (n % 2 ^ s) ∧ 0 < rounds := by
        have hmod : 2 ^ j ∣ n % 2 ^ s := by
          rw [Nat.dvd_mod_iff (Nat.pow_dvd_pow 2 (by omega))]
          exact hdvd
        rcases Nat.eq_zero_or_pos rounds with rfl | hrounds
        · obtain rfl : j = s := by omega
          exact .inl (by rw [Nat.mod_eq_zero_of_dvd hdvd])
        · refine .inr ⟨j + 1, by omega, ?_, hrounds⟩
          rw [Nat.pow_succ', show 10 * (n % 2 ^ s) = 2 * (5 * (n % 2 ^ s)) by ring]
          exact Nat.mul_dvd_mul_left 2 (Dvd.dvd.mul_left hmod 5)
      have hv : v < maxDigits := by omega
      simp only [newDigit_eq hq, u64_eq rfl (show 10 * (n % 2 ^ s) < 2 ^ 64 by omega), if_pos hv,
        put_inside hv]
      obtain ⟨v', now', hres, hle, hk', hdone⟩ :=
        ih (h := { h with digits := Function.update h.digits v (n / 2 ^ s) }) hstep (by omega)
          (by omega) heven'
      exact ⟨v', now', hres, by omega, hk', hdone⟩
    · obtain rfl : n = 0 := by omega
      exact ⟨v, h.digits, rfl, by omega, hk, hdiv⟩

/-- `decimal_right_shift` divides. -/
theorem rightShift_value {h : Decimal} (hn : h.Normal) (hs : s ≤ 60)
    (hfit : h.numDigits + s ≤ maxDigits) (hpoint : 0 ≤ h.decimalPoint) :
    (decimalRightShift h s).Normal ∧ (decimalRightShift h s).value = h.value / 2 ^ s ∧
      (decimalRightShift h s).numDigits ≤ h.numDigits + s := by
  have hD : 0 < segment 10 h.digits 0 h.numDigits :=
    segment_pos (by decide) ⟨0, hn.pos, hn.first⟩
  obtain ⟨r, n, hread, -, hr, hstart, hge, hlt⟩ := rightLoop_spec hs hn.digit hD
    (Nat.zero_add h.numDigits) (segment_zero _ _ _).symm (by positivity)
  have hr0 : 0 < r := by
    rcases Nat.eq_zero_or_pos r with rfl | hpos
    · rw [segment_zero] at hstart
      have : 0 < 2 ^ s := by positivity
      omega
    · exact hpos
  have hdiv₀ : Dividing h.digits h.numDigits s r 0 n h.digits :=
    ⟨by rw [Nat.add_zero, ← hstart]; simp, hlt, by simp, fun _ _ => rfl⟩
  obtain ⟨n₁, digits₁, hloop, hdiv₁⟩ := divideLoop_spec hs hn.digit hr0 hdiv₀
    (show h.numDigits - r = 0 ∨ r + 0 + (h.numDigits - r) = h.numDigits by omega)
  rw [Nat.add_zero, Nat.zero_add] at hloop
  rw [Nat.zero_add] at hdiv₁
  have hmax : maxDigits = 768 := rfl
  obtain ⟨v, digits₂, hrest, hv, hkv, hdiv₂⟩ := restLoop_spec hs hn.digit
    (h := { h with digits := digits₁ }) hdiv₁ (by omega)
    (show h.numDigits - r + (s + 1) ≤ maxDigits by have := hn.pos; omega)
    (.inr ⟨0, by omega, by simp, by omega⟩)
  -- all of the dividend is in the quotient
  have hquot : segment 10 h.digits 0 h.numDigits * 10 ^ (r + v - h.numDigits) =
      10 * segment 10 digits₂ 0 v * 2 ^ s := by
    have hsum := hdiv₂.sum
    rw [Nat.add_zero] at hsum
    rw [← hsum, ← segment_padded_add, Nat.add_sub_cancel' hkv]
  have hlarge : 10 ^ v ≤ 10 * segment 10 digits₂ 0 v := by
    refine Nat.le_of_mul_le_mul_right ?_ (by positivity : 0 < 2 ^ s)
    have hsum := hdiv₂.sum
    rw [Nat.add_zero, segment_add, ← hstart] at hsum
    rw [← hsum, Nat.mul_comm (10 ^ v)]
    exact Nat.le_add_right_of_le (Nat.mul_le_mul_right _ hge)
  have hv0 : 0 < v := by
    rcases Nat.eq_zero_or_pos v with rfl | hpos
    · simp at hlarge
    · exact hpos
  have hpoint' : ¬ h.decimalPoint - ((r : Int) - 1) < -decimalPointRange := by
    simp only [decimalPointRange]
    omega
  obtain ⟨v', rfl⟩ : ∃ v', v = v' + 1 := ⟨v - 1, by omega⟩
  have hfirst : digits₂ 0 ≠ 0 := first_ne_zero hdiv₂.small (by
    rw [Nat.pow_succ'] at hlarge
    omega)
  have hres : decimalRightShift h s = Decimal.trim ⟨v' + 1, h.decimalPoint - ((r : Int) - 1),
      h.negative, h.truncated, digits₂⟩ := by
    simp only [decimalRightShift, hread, if_neg hpoint', hloop, hrest]
  rw [hres]
  obtain ⟨hnormal, hvalue, hcount⟩ := trim_normal
    (h := ⟨v' + 1, h.decimalPoint - ((r : Int) - 1), h.negative, h.truncated, digits₂⟩)
    (Nat.succ_pos _) (by have := hn.pos; simp only; omega) hdiv₂.small hfirst hn.whole
  refine ⟨hnormal, hvalue.trans ?_, Nat.le_trans hcount (by have := hn.pos; simp only; omega)⟩
  have hquot' : (segment 10 h.digits 0 h.numDigits : ℚ) * 10 ^ (r + (v' + 1) - h.numDigits) =
      10 * segment 10 digits₂ 0 (v' + 1) * 2 ^ s := by exact_mod_cast hquot
  simp only [Decimal.value]
  rw [eq_div_iff (by positivity)]
  calc (segment 10 digits₂ 0 (v' + 1) : ℚ) *
        10 ^ (h.decimalPoint - ((r : Int) - 1) - ((v' + 1 : Nat) : Int)) * 2 ^ s
      = 10 * segment 10 digits₂ 0 (v' + 1) * 2 ^ s *
        10 ^ (h.decimalPoint - (r : Int) - ((v' + 1 : Nat) : Int)) := by
        rw [show h.decimalPoint - ((r : Int) - 1) - ((v' + 1 : Nat) : Int) =
          1 + (h.decimalPoint - (r : Int) - ((v' + 1 : Nat) : Int)) by ring,
          zpow_one_add₀ (by norm_num)]
        ring
    _ = segment 10 h.digits 0 h.numDigits * 10 ^ (h.decimalPoint - h.numDigits) := by
        rw [← hquot', mul_assoc, ← zpow_natCast (10 : ℚ) (r + (v' + 1) - h.numDigits),
          ← zpow_add₀ (by norm_num)]
        congr 2
        rw [Nat.cast_sub hkv]
        push_cast
        ring

end Right

end Fgds.Safetensors.FromChars
